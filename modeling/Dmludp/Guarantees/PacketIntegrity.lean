import Dmludp.Guarantees.StreamSegmentation

/- What an Application packet carries. The offset comes from `off_front`, the bytes from the
   chunk under the cursor and the end-of-data test from `writtenData`; on a tiled queue the
   three speak of the same chunk. -/
namespace DmludpPacketIntegrity
open ByteCursor RustOutcome TracedRun OrderedMap StreamTiling DmludpPacket DmludpRange DmludpSend
open DmludpRecovery DmludpConnection DmludpConnection.Connection DmludpCalls DmludpEffects
open DmludpReceiveEffects DmludpSenderSteps DmludpSendAccounting DmludpSegmentation DmludpReference

variable {F : Type}

def Orderly (c : Connection F) : Prop := c.stopAck = true → c.stopFlag = true

theorem orderly_unasked {c : Connection F} (orderly : Orderly c) (running : c.stopFlag = false) :
    c.stopAck = false := by
  cases asked : c.stopAck with
  | true =>
    rw [orderly asked] at running
    cases running
  | false => rfl

theorem stream_queue {text : Bytes} {c : Connection F} (stream : Stream text c) : Queue c := by
  have inside := stream.inside
  have fits := stream.fits
  refine ⟨?_, ?_, ?_, ?_⟩
  · rw [stream.data]
    exact fits
  · rw [stream.written]
    omega
  · rw [stream.written]
  · intro b mem
    exact ⟨(stream.queued b mem).1, (stream.content b mem).1⟩

inductive Served [FloatOps F] [Profile] (c : Connection F) (out : Bytes) (s : Sent F) : Prop where
  | nothing (beyond : c.sendBuffer.data.length ≤ c.sendBuffer.pos)
      (result : s.result = .error .done)
      (conn : s.conn = { c with sendBuffer := (c.sendBuffer.settle (out.length - 26)).1 })
  | chunk {b : RangeBuf} {rest : List RangeBuf} {priority : UInt8} {dic : HashMap Nat Nat}
      {n : Nat} {content : Bytes} {sendBuffer : SendBuf} {stop : Bool} {stamp : Nat}
      (front : c.sendBuffer.data.drop c.sendBuffer.pos = b :: rest)
      (norm : c.priorityCalculation b.off = .ok priority)
      (spent : spendBudget c.sentDic b.off priority = .ok dic)
      (puts : Puts s.out s.result
        ((applicationHeader c.pktNumSpaces.1.nextPktNum priority b.off n).encoded ++ content))
      (whole : 1050 ≤ out.length → n = b.data.length ∧ content = b.data ∧
        (stop = true ∨ sendBuffer.pos = c.sendBuffer.pos + 1 ∧
          c.sendBuffer.pos + 1 ≠ c.sendBuffer.data.length))
      (cramped : out.length < 1050 → stop = true ∨ sendBuffer.pos = c.sendBuffer.pos)
      (conn : s.conn = { transmitted c sendBuffer b.off stop dic with handshake := stamp })
      (buffer : ∃ len used pos sent, sendBuffer =
        { c.sendBuffer with len := len, usedLength := used, pos := pos, sent := sent })

section Steps
variable [Profile] [FloatOps F]

theorem application_served {text : Bytes} {c : Connection F} {now : Nat} {out : Bytes} {s : Sent F}
    (stream : Stream text c) (unasked : c.stopAck = false) (sent : AppCase c now out s) :
    Served c out s := by
  have queued : ∀ b ∈ c.sendBuffer.data, SendBuf.Queued b := fun b mem => (stream.queued b mem).1
  cases sent with
  | nothing room emitted past =>
    have emit := SendBuf.emit_cases queued emitted
    have beyond := front_inside (stream_queue stream) emit past
    refine .nothing beyond rfl ?_
    cases emit with
    | chunk front _ _ _ =>
      rw [List.drop_eq_nil_of_le beyond] at front
      cases front
    | cramped front _ =>
      rw [List.drop_eq_nil_of_le beyond] at front
      cases front
    | past _ => rw [List.length_drop]
  | @packet sendBuffer body n off stop priority dic room emitted inside norm spent =>
    have running : (transmitted c sendBuffer off stop dic).isStopped = false := by
      simp [isStopped, transmitted, unasked]
    have size := (SendBuf.emit_size emitted).1
    obtain ⟨stamp, conn⟩ := finishSend_conn (transmitted c sendBuffer off stop dic) now
      ((applicationHeader c.pktNumSpaces.1.nextPktNum priority off n).encoded ++ body) n
    have buffer := (SendBuf.emit_frame emitted).1
    cases SendBuf.emit_cases queued emitted with
    | @chunk b rest len usedLength front big left used =>
      refine .chunk front norm spent (finishSend_puts size running) (fun _ => ⟨rfl, ?_, ?_⟩)
        (fun short => ?_) conn buffer
      · simp [splice]
      · rcases SendBuf.settle_cases { c.sendBuffer with
            len := len
            usedLength := usedLength
            pos := c.sendBuffer.pos + 1 } b.data.length with ⟨_, ended⟩ | ⟨next, _, midway⟩
        · exact Or.inl ended
        · exact Or.inr ⟨next, midway⟩
      · rw [List.length_drop] at big
        simp only [sendBufferSize] at big
        omega
    | cramped front short =>
      refine .chunk front norm spent (finishSend_puts size running) (fun wide => ?_)
        (fun _ => ?_) conn buffer
      · rw [List.length_drop] at short
        simp only [sendBufferSize] at short
        omega
      · rcases SendBuf.settle_cases c.sendBuffer (out.drop 26).length with
          ⟨_, ended⟩ | ⟨same, _, _⟩
        · exact Or.inl ended
        · exact Or.inr same
    | past beyond =>
      rw [stream.written] at inside
      exact absurd inside (Nat.lt_irrefl _)

variable [Octets]

theorem step_orderly {c c' : Connection F} {a : Call} {o : Reply} (orderly : Orderly c)
    (taken : SenderStep c a o c') : Orderly c' := by
  unfold Orderly at orderly ⊢
  cases taken with
  | kept same _ =>
    rw [same.stopAck, same.stopFlag]
    exact orderly
  | dataSend loaded =>
    obtain ⟨⟨_, _, _, _, rfl⟩, _⟩ := loaded
    exact orderly
  | reset => exact orderly
  | write wrote =>
    cases wrote with
    | wrote _ _ => exact orderly
  | sendAll passed =>
    cases passed with
    | drained _ _ => simp
    | wrote _ _ => simp
  | query due sent =>
    obtain ⟨_, _, _, conn, confirms⟩ := sendElictAck_frame sent
    rw [conn]
    intro asked
    rcases confirms asked with before | ended
    · exact orderly before
    · exact ended
  | application quiet _ sent =>
    have unasked := orderly_unasked orderly (running_of_quiet quiet)
    rw [(application_kept sent).stopAck, unasked]
    intro asked
    cases asked

theorem step_norms {c c' : Connection F} {a : Call} {o : Reply} (may : ServerCall c a)
    (taken : SenderStep c a o c') : c'.norm2Vec = c.norm2Vec ∧
      ∀ off, c'.priorityCalculation off = c.priorityCalculation off := by
  suffices same : c'.norm2Vec = c.norm2Vec ∧ c'.lowSplitPoint = c.lowSplitPoint ∧
      c'.highSplitPoint = c.highSplitPoint by
    obtain ⟨norms, low, high⟩ := same
    refine ⟨norms, ?_⟩
    intro off
    simp only [priorityCalculation, norms, low, high]
  cases taken with
  | kept same _ => exact ⟨same.norm2Vec, same.lowSplitPoint, same.highSplitPoint⟩
  | dataSend _ => exact may.elim
  | reset => exact may.elim
  | write _ => exact may.elim
  | sendAll passed =>
    cases passed with
    | drained _ _ => exact ⟨rfl, rfl, rfl⟩
    | wrote _ _ => exact ⟨rfl, rfl, rfl⟩
  | query due sent =>
    obtain ⟨_, _, _, conn, _⟩ := sendElictAck_frame sent
    rw [conn]
    exact ⟨rfl, rfl, rfl⟩
  | application _ _ sent =>
    have kept := application_kept sent
    exact ⟨kept.norm2Vec, kept.lowSplitPoint, kept.highSplitPoint⟩

end Steps

def RoomyServerCall (c : Connection F) (a : Call) : Prop := ServerCall c a ∧ Roomy c a

instance (c : Connection F) (a : Call) : Decidable (RoomyServerCall c a) :=
  inferInstanceAs (Decidable (ServerCall c a ∧ Roomy c a))

section Wire
variable [Octets]

def applications (ms : List Bytes) : Nat :=
  ms.countP (fun m => (headerOf? .application m).isSome)

theorem applications_append (xs ys : List Bytes) :
    applications (xs ++ ys) = applications xs + applications ys := List.countP_append

/-- The datagram `m` with header `h` carries one whole buffered chunk and the next number. -/
structure Carries [FloatOps F] (text : Bytes) (sent : List Bytes) (c : Connection F) (m : Bytes)
    (h : Header) (b : RangeBuf) : Prop where
  buffered : b ∈ c.sendBuffer.data
  offset : h.offset.toNat = b.off
  pktLength : h.pktLength.toNat = b.data.length
  priority : c.priorityCalculation b.off = .ok h.priority
  payload : m.drop 26 = cut text h.offset.toNat h.pktLength.toNat
  whole : m.length = 26 + h.pktLength.toNat
  pktNum : h.pktNum = UInt64.ofNat (applications sent)

/-- What the Application branch owes its caller in one call. -/
structure Honest (c : Connection F) (o : Reply) (c' : Connection F) : Prop where
  left : c.sendBuffer.pos < c.sendBuffer.data.length →
    ∃ m h, o.packet? = some m ∧ headerOf? .application m = some h
  done : c.sendBuffer.data.length ≤ c.sendBuffer.pos →
    (∃ out, o = .sendData out (.error .done)) ∧ c'.sentPkt = c.sentPkt ∧
      c'.pktNumSpaces = c.pktNumSpaces

theorem headerOf?_application (pn : Nat) (priority : UInt8) (off n : Nat) (rest : Bytes) :
    headerOf? .application ((applicationHeader pn priority off n).encoded ++ rest) =
      some (applicationHeader pn priority off n) :=
  (headerOf?_encoded (by simp [applicationHeader]) rest).trans (if_pos rfl)

structure Numbered (text : Bytes) (norms : List F) (sent : List Bytes) (c : Connection F) :
    Prop where
  stream : Stream text c
  accounts : Accounts c
  orderly : Orderly c
  norms : c.norm2Vec = norms
  number : c.pktNumSpaces.1.nextPktNum = applications sent

theorem unused_numbered {c0 : Connection F} (unused : Unused c0)
    (fits : c0.sendDataVec.length ≤ isizeMax) : Numbered c0.sendDataVec c0.norm2Vec [] c0 := by
  have stream := unused_stream unused fits
  refine ⟨stream, ⟨stream_queue stream, ?_⟩, ?_, rfl, unused.number⟩
  · simp [Ahead, Covers, unused.queue, SendBuf.total]
  · simp [Orderly, unused.unasked]

/-- The query packets use the other number space. -/
theorem query_unnumbered {c : Connection F} {out : Bytes} {s : Sent F}
    (sent : sendElictAck { c with sentCount := 0 } out = .ok s) :
    s.conn.pktNumSpaces.1 = c.pktNumSpaces.1 ∧
      ∀ m, packetOf s.out s.result = some m → headerOf? .application m = none := by
  rcases sendElictAck_effect sent with ⟨_, conn, result, written⟩ | ⟨_, conn, result⟩
  · refine ⟨by rw [conn], ?_⟩
    intro m found
    rw [result, written] at found
    simp only [packetOf, Option.some.injEq] at found
    subst found
    rw [List.append_assoc, headerOf?_taken (by simp [elictHeader])]
    rfl
  · refine ⟨by rw [conn], ?_⟩
    intro m found
    rw [packetOf_error result] at found
    cases found

variable [FloatOps F]

theorem served_carries {text : Bytes} {norms : List F} {sent : List Bytes} {c : Connection F}
    {b : RangeBuf} {rest : List RangeBuf} {priority : UInt8} (before : Numbered text norms sent c)
    (front : c.sendBuffer.data.drop c.sendBuffer.pos = b :: rest)
    (norm : c.priorityCalculation b.off = .ok priority) :
    Carries text sent c ((applicationHeader c.pktNumSpaces.1.nextPktNum priority b.off
      b.data.length).encoded ++ b.data) (applicationHeader c.pktNumSpaces.1.nextPktNum priority
      b.off b.data.length) b := by
  have mem : b ∈ c.sendBuffer.data := List.mem_of_mem_drop (by rw [front]; simp)
  obtain ⟨bound, content⟩ := before.stream.content b mem
  have inside := before.stream.inside
  have fits := before.stream.fits
  have offset : (UInt64.ofNat b.off).toNat = b.off := word_of_size (by omega)
  have length : (UInt64.ofNat b.data.length).toNat = b.data.length := word_of_size (by omega)
  refine ⟨mem, offset, length, norm, ?_, ?_, ?_⟩
  · rw [List.drop_left' (encoded_length _)]
    simp only [applicationHeader, offset, length]
    exact content
  · rw [List.length_append, encoded_length]
    simp only [applicationHeader, length]
  · simp only [applicationHeader, before.number]

structure StepCarries (text : Bytes) (norms : List F) (sent : List Bytes) (c : Connection F)
    (o : Reply) (c' : Connection F) : Prop where
  numbered : Numbered text norms (sent ++ o.packet?.toList) c'
  carries : ∀ m h, o.packet? = some m → headerOf? .application m = some h →
    ∃ b, Carries text sent c m h b

theorem stepCarries_silent {text : Bytes} {norms : List F} {sent : List Bytes}
    {c c' : Connection F} {o : Reply} (before : Numbered text norms sent c)
    (stream : Stream text c') (accounts : Accounts c') (orderly : Orderly c')
    (kept : c'.norm2Vec = c.norm2Vec) (number : c'.pktNumSpaces.1 = c.pktNumSpaces.1)
    (silent : ∀ m, o.packet? = some m → headerOf? .application m = none) :
    StepCarries text norms sent c o c' := by
  have none_sent : applications o.packet?.toList = 0 := by
    cases sent : o.packet? with
    | none => rfl
    | some m => simp [applications, silent m sent]
  refine ⟨⟨stream, accounts, orderly, kept.trans before.norms, ?_⟩, ?_⟩
  · rw [number, before.number, applications_append, none_sent, Nat.add_zero]
  · intro m h found kind
    rw [silent m found] at kind
    cases kind

variable [Profile]

theorem step_carries {text : Bytes} {norms : List F} {sent : List Bytes} {c c' : Connection F}
    {a : Call} {o : Reply} (before : Numbered text norms sent c) (may : RoomyServerCall c a)
    (taken : SenderStep c a o c') : StepCarries text norms sent c o c' := by
  obtain ⟨kept, added, grown⟩ := step_grown before.stream may.1 taken
  have direct : a ≠ .write := by
    rintro rfl
    exact may.1.elim
  have accounts := step_accounts before.accounts direct taken
  have orderly := step_orderly before.orderly taken
  have norms := (step_norms may.1 taken).1
  cases taken with
  | kept same silent =>
    exact stepCarries_silent before grown.stream accounts orderly norms
      (by rw [same.pktNumSpaces]) (fun m found => (silent m found).1)
  | dataSend _ => exact may.1.elim
  | reset => exact may.1.elim
  | write _ => exact may.1.elim
  | sendAll passed =>
    refine stepCarries_silent before grown.stream accounts orderly norms ?_
      (fun m found => by cases found)
    cases passed with
    | drained _ _ => rfl
    | wrote _ _ => rfl
  | query due sent =>
    obtain ⟨number, silent⟩ := query_unnumbered sent
    exact stepCarries_silent before grown.stream accounts orderly norms number silent
  | @application now order out s quiet _ appSent =>
    have unasked := orderly_unasked before.orderly (running_of_quiet quiet)
    have room : 1350 ≤ out.bytes.length := may.2
    cases application_served before.stream unasked appSent with
    | nothing beyond result conn =>
      refine stepCarries_silent before grown.stream accounts orderly norms (by rw [conn]) ?_
      intro m found
      rw [packet?_sendData, packetOf_error result] at found
      cases found
    | @chunk b rest priority dic n content sendBuffer stop stamp front norm spent puts whole
        _ conn _ =>
      obtain ⟨rfl, rfl, _⟩ := whole (by omega)
      have packet := packetOf_puts puts
      refine ⟨⟨grown.stream, accounts, orderly, norms.trans before.norms, ?_⟩, ?_⟩
      · have one : applications [(applicationHeader c.pktNumSpaces.1.nextPktNum priority b.off
            b.data.length).encoded ++ b.data] = 1 := by
          simp [applications, headerOf?_application]
        rw [packet?_sendData, packet, conn, Option.toList_some, applications_append, one,
          ← before.number]
        rfl
      · intro m h found kind
        rw [packet?_sendData, packet, Option.some.injEq] at found
        subst found
        rw [headerOf?_application, Option.some.injEq] at kind
        subst kind
        exact ⟨b, served_carries before front norm⟩

theorem application_honest {text : Bytes} {norms : List F} {sent : List Bytes}
    {c c' : Connection F} {now : Nat} {order : IterOrder} {out : Slice} {o : Reply}
    (before : Numbered text norms sent c) (room : 1350 ≤ out.bytes.length)
    (chosen : c.writePktType.2 = .ok .application)
    (taken : step c (.sendData now order out) = .ok (c', o)) : Honest c o c' := by
  cases step_cases taken with
  | @sendData _ _ _ s done =>
    rw [sendData_application chosen (by omega)] at done
    have unasked := orderly_unasked before.orderly (running_of_quiet (quiet_of_application chosen))
    cases application_served before.stream unasked (sendApplication_cases done) with
    | nothing beyond result conn =>
      refine ⟨fun left => absurd left (Nat.not_lt.mpr beyond), fun _ => ⟨⟨s.out, ?_⟩, ?_, ?_⟩⟩
      · rw [result]
      · rw [conn]
      · rw [conn]
    | chunk front norm spent puts whole _ conn _ =>
      refine ⟨fun _ => ⟨_, _, packetOf_puts puts, headerOf?_application _ _ _ _ _⟩, ?_⟩
      intro beyond
      rw [List.drop_eq_nil_of_le beyond] at front
      cases front

theorem application_returns {text : Bytes} {norms : List F} {sent : List Bytes}
    {c : Connection F} {now : Nat} {order : IterOrder} {out : Bytes}
    (before : Numbered text norms sent c)
    (covered : ∀ off, off < text.length → off / 1024 < norms.length)
    (wraps : Profile.overflowChecks = false) (room : 1350 ≤ out.length)
    (chosen : c.writePktType.2 = .ok .application) : ∃ s, c.sendData now order out = .ok s := by
  rw [sendData_application chosen (by omega)]
  have queued : ∀ b ∈ c.sendBuffer.data, SendBuf.Queued b :=
    fun b mem => (before.stream.queued b mem).1
  apply (sendApplication_returns_iff (fun b mem => SendBuf.queued_cut (queued b mem))).mpr
  have counted :=
    ahead_front (before.accounts.ahead (running_of_quiet (quiet_of_application chosen)))
  obtain ⟨off, low⟩ := SendBuf.offFront_queued queued
  refine ⟨by omega, fun _ _ => counted, off, low, ?_⟩
  intro inside
  constructor
  · have end_ := before.stream.inside
    rw [before.norms]
    apply covered
    rw [before.stream.written] at inside
    omega
  · intro checks
    rw [wraps] at checks
    cases checks

theorem run_numbered {c0 : Connection F} (session : Session c0) {trace : Trace F}
    {c : Connection F} (run : Run step RoomyServerCall c0 trace c) :
    Numbered c0.sendDataVec c0.norm2Vec (packets trace) c := by
  refine run_invariant (fun trace c => Numbered c0.sendDataVec c0.norm2Vec (packets trace) c)
    (unused_numbered (session_unused session).1 (session_unused session).2) ?_ run
  intro trace c a o c' _ before may taken
  rw [packets_snoc]
  exact (step_carries before may (sender_step taken)).numbered

/-- Every Application packet carries a whole buffered chunk of the data under its own number. -/
theorem application_packets_carry_chunks {c0 : Connection F} (session : Session c0)
    (covered : ∀ off, off < c0.sendDataVec.length → off / 1024 < c0.norm2Vec.length)
    {trace : Trace F} {c : Connection F} (run : Run step RoomyServerCall c0 trace c) :
    (∀ before t after, trace = before ++ t :: after →
      (∀ m h, t.reply.packet? = some m → headerOf? .application m = some h →
        ∃ b, Carries c0.sendDataVec (packets before) t.before m h b) ∧
      (∀ now order out, t.action = .sendData now order out →
        t.before.writePktType.2 = .ok .application → Honest t.before t.reply t.after)) ∧
    (Profile.overflowChecks = false → c.writePktType.2 = .ok .application →
      ∀ now order out, 1350 ≤ out.length → ∃ s, c.sendData now order out = .ok s) := by
  constructor
  · intro before t after split
    subst split
    obtain ⟨earlier, may, taken⟩ := run_split run
    have numbered := run_numbered session earlier
    refine ⟨(step_carries numbered may (sender_step taken)).carries, ?_⟩
    intro now order out action chosen
    rw [action] at may taken
    exact application_honest numbered may.2 chosen taken
  · intro wraps chosen now order out room
    exact application_returns (run_numbered session run) covered wraps room chosen

end Wire

def lastHeader? [Octets] (trace : Trace F) : Option Header := do
  let t ← trace.getLast?
  let m ← t.reply.packet?
  headerOf? .application m

theorem lastHeader?_split [Octets] {trace : Trace F} {h : Header}
    (found : lastHeader? trace = some h) :
    ∃ before t m, trace = before ++ [t] ∧ t.reply.packet? = some m ∧
      headerOf? .application m = some h := by
  obtain ⟨t, last, found⟩ := Option.bind_eq_some_iff.mp found
  obtain ⟨m, sent, kind⟩ := Option.bind_eq_some_iff.mp found
  obtain ⟨before, split⟩ := List.getLast?_eq_some_iff.mp last
  exact ⟨before, t, m, split, sent, kind⟩

theorem first_packet_carries_chunk : ∃ (c0 : Connection ℚ) (trace before : Trace ℚ)
    (c : Connection ℚ) (t : Transition (Connection ℚ) Call Reply) (m : Bytes) (h : Header)
    (b : RangeBuf), @Session ℚ referenceOctets checkedBuild rationalFloats c0 ∧
      Run (@step ℚ referenceOctets checkedBuild rationalFloats) RoomyServerCall c0 trace c ∧
      trace.map (fun t => t.action) = chunkSession.tail.take 3 ∧ trace = before ++ [t] ∧
      t.reply.packet? = some m ∧ h.pktNum = 0 ∧ h.pktLength = 1020 ∧
      @Carries ℚ referenceOctets rationalFloats c0.sendDataVec (packets before) t.before m h b := by
  have passed : @sessionPasses checkedBuild RoomyServerCall _ (onesText 255)
      (chunkSession.tail.take 3) (fun trace c => c.sendDataVec.length == 1020 &&
        c.norm2Vec.length == 1 && (@lastHeader? ℚ referenceOctets trace).any (fun h =>
          h.pktNum == 0 && h.pktLength == 1020)) = true := by decide +kernel
  obtain ⟨c0, trace, c, session, run, played, outcome⟩ :=
    @session_played checkedBuild _ _ _ _ _ passed
  simp only [Bool.and_eq_true, beq_iff_eq, Option.any_eq_true] at outcome
  obtain ⟨⟨size, blocks⟩, h, found, number, length⟩ := outcome
  obtain ⟨before, t, m, split, sent, kind⟩ := @lastHeader?_split ℚ referenceOctets trace h found
  obtain ⟨stream, _, _, norms, _⟩ :=
    @run_numbered ℚ referenceOctets rationalFloats checkedBuild c0 session trace c run
  have covered : ∀ off, off < c0.sendDataVec.length → off / 1024 < c0.norm2Vec.length := by
    rw [← stream.data, ← norms, size, blocks]
    omega
  obtain ⟨carried, _⟩ := @application_packets_carry_chunks ℚ referenceOctets rationalFloats
    checkedBuild c0 session covered trace c run
  obtain ⟨b, carries⟩ := (carried before t [] split).1 m h sent kind
  exact ⟨c0, trace, before, c, t, m, h, b, session, run, played, split, sent, number, length,
    carries⟩

end DmludpPacketIntegrity
