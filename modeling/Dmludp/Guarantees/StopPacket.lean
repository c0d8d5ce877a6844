import Dmludp.Endpoint.CallEffects
import Dmludp.Endpoint.ReceiveEffects
import Dmludp.Endpoint.ReferenceInstance

/- Who sends a Stop packet. `write_pkt_type` asks for an empty send buffer last, after the test
   that gives every endpoint with a round-trip time an Application packet, and after the one that
   gives every server without it a Handshake packet. What is left for Stop is a client that has
   not measured a round trip, whatever it has sent. -/
namespace DmludpStopPacket
open ByteCursor RustOutcome TracedRun DmludpPacket DmludpSend DmludpRecovery DmludpConnection
open DmludpConnection.Connection DmludpCalls DmludpEffects DmludpReceiveEffects DmludpReference

variable {F : Type}

def StopDue (c : Connection F) : Prop :=
  c.isServer = false ∧ c.rtt = 0 ∧ c.handshakeConfirmed = true ∧ ¬ QueryDue c ∧
    c.recvFlag = false ∧ c.sendBuffer.data = []

instance (c : Connection F) : Decidable (StopDue c) :=
  inferInstanceAs (Decidable (_ ∧ _ ∧ _ ∧ _ ∧ _ ∧ _))

theorem stopDue_iff {c : Connection F} : StopDue c ↔ ¬ HandshakeDue c ∧ ¬ QueryDue c ∧
    c.recvFlag = false ∧ c.rtt = 0 ∧ c.sendBuffer.data = [] := by
  constructor
  · rintro ⟨client, asleep, confirmed, quiet, unasked, drained⟩
    refine ⟨?_, quiet, unasked, asleep, drained⟩
    rintro (⟨_, server⟩ | ⟨unconfirmed, _⟩)
    · rw [client] at server
      cases server
    · rw [confirmed] at unconfirmed
      cases unconfirmed
  · rintro ⟨settled, quiet, unasked, asleep, drained⟩
    obtain ⟨no_hello, no_reply⟩ := not_or.mp settled
    have client : c.isServer = false := by
      cases role : c.isServer with
      | true => exact absurd ⟨asleep, role⟩ no_hello
      | false => rfl
    have confirmed : c.handshakeConfirmed = true := by
      cases said : c.handshakeConfirmed with
      | true => rfl
      | false => exact absurd ⟨said, client⟩ no_reply
    exact ⟨client, asleep, confirmed, quiet, unasked, drained⟩

section Wire
variable [Octets]

def isStop (m : Bytes) : Bool := (headerOf? .stop m).isSome

theorem isStop_header {h : Header} (sendable : h.ty ≠ .startAck) (rest : Bytes) :
    isStop (h.encoded ++ rest) = decide (h.ty = .stop) := by
  unfold isStop
  rw [headerOf?_encoded sendable]
  by_cases kind : h.ty = .stop
  · rw [if_pos kind]
    simp [kind]
  · rw [if_neg kind]
    simp [kind]

theorem recvSlice_stopped [FloatOps F] [Profile] {m : Bytes} (stop : isStop m = true)
    (d : Connection F) (now : Nat) :
    d.recvSlice now m = .ok ({ d with recvCount := d.recvCount + 1 }, .error .stopped) := by
  unfold isStop headerOf? at stop
  split at stop
  · rename_i h read
    split at stop
    · rename_i kind
      have filled : m.length ≠ 0 := by
        intro empty
        rw [fromSlice_eq, if_neg (by omega)] at read
        cases read
      simp [recvSlice, filled, read, kind]
    · cases stop
  · cases stop

def putsStop (out : Bytes) (r : Except Error (Nat × SendInfo)) : Bool := (packetOf out r).any isStop

theorem putsStop_error {out : Bytes} {r : Except Error (Nat × SendInfo)} {e : Error}
    (failed : r = .error e) : putsStop out r = false := by
  rw [putsStop, packetOf_error failed]
  rfl

theorem putsStop_header {out rest : Bytes} {r : Except Error (Nat × SendInfo)} {h : Header}
    (sendable : h.ty ≠ .startAck) (puts : Puts out r (h.encoded ++ rest)) :
    putsStop out r = decide (h.ty = .stop) := by
  rw [putsStop, packetOf_puts puts, Option.any_some, isStop_header sendable]

theorem putsStop_bare {out : Bytes} {r : Except Error (Nat × SendInfo)} {ty : PacketType}
    (sendable : ty ≠ .startAck) (puts : Puts out r (bareHeader ty).encoded) :
    putsStop out r = decide (ty = .stop) :=
  putsStop_header (h := bareHeader ty) sendable (by rw [List.append_nil]; exact puts)

end Wire

section Send
variable [Octets]

theorem handshake_no_stop (c : Connection F) (now : Nat) (out : Bytes) :
    putsStop (c.sendHandshake now out).out (c.sendHandshake now out).result = false := by
  obtain ⟨_, _, _, ⟨e, failed⟩ | puts⟩ := sendHandshake_effect c now out
  · exact putsStop_error failed
  · exact putsStop_bare (by decide) puts

theorem query_no_stop {c : Connection F} {out : Bytes} {s : Sent F}
    (sent : c.sendElictAck out = .ok s) : putsStop s.out s.result = false := by
  rcases sendElictAck_effect sent with ⟨_, _, result, written⟩ | ⟨_, _, result⟩
  · rw [putsStop, result, written]
    simp only [packetOf, Option.any_some, isStop]
    rw [List.append_assoc, headerOf?_taken (by simp [elictHeader])]
    rfl
  · exact putsStop_error result

theorem ack_no_stop {c : Connection F} (quiet : ¬ QueryDue c) (now : Nat) (order : IterOrder)
    (out : Bytes) : putsStop (sendAckPacket { c with recvFlag := false } now order out).out
      (sendAckPacket { c with recvFlag := false } now order out).result = false := by
  have running : isStopped { c with recvFlag := false } = false := by
    simp [isStopped, running_of_quiet quiet]
  rcases sendAckPacket_effect _ now order out running with ⟨_, _, puts⟩ | ⟨_, _, failed⟩
  · exact putsStop_header (by simp [ackHeader]) puts
  · exact putsStop_error failed

theorem stop_room (c : Connection F) (out : Bytes) :
    putsStop (c.sendStop out).out (c.sendStop out).result = decide (26 ≤ out.length) := by
  unfold sendStop
  by_cases room : 26 ≤ out.length
  · have front : ((bareHeader .stop).encoded ++ out.drop 26).take 26 = (bareHeader .stop).encoded :=
      List.take_left' (encoded_length _)
    have puts : Puts ((bareHeader .stop).encoded ++ out.drop 26) (.ok (headerLength, c.sendInfo))
        (bareHeader .stop).encoded := ⟨c.sendInfo, rfl, front⟩
    rw [toBytes_from_start _ room]
    simpa [room] using putsStop_bare (by decide) puts
  · obtain ⟨b, failed, _⟩ := toBytes_too_short (bareHeader .stop) (Nat.lt_of_not_le room)
    rw [failed]
    simp [putsStop, packetOf, room]

variable [Profile] [FloatOps F]

theorem application_no_stop {c : Connection F} {now : Nat} {out : Bytes} {s : Sent F}
    (sent : AppCase c now out s) : putsStop s.out s.result = false := by
  cases sent with
  | nothing _ _ _ => rfl
  | @packet sendBuffer body n off stop priority dic _ emitted _ _ _ =>
    cases ended : (transmitted c sendBuffer off stop dic).isStopped with
    | true =>
      have result : ((transmitted c sendBuffer off stop dic).finishSend now
          ((applicationHeader c.pktNumSpaces.1.nextPktNum priority off n).encoded ++ body)
          n).result = .error .done := by simp [finishSend, ended]
      exact putsStop_error result
    | false =>
      have size := (SendBuf.emit_size emitted).1
      exact putsStop_header (by simp [applicationHeader]) (finishSend_puts size ended)

theorem sendData_stop_iff {c : Connection F} {now : Nat} {order : IterOrder} {out : Bytes}
    {s : Sent F} (done : c.sendData now order out = .ok s) :
    putsStop s.out s.result = true ↔ 26 ≤ out.length ∧ StopDue c := by
  unfold sendData at done
  split at done
  · rename_i none_given
    cases done
    have short : ¬ 26 ≤ out.length := by
      rw [List.isEmpty_iff.mp none_given]
      decide
    exact iff_of_false (by simp [putsStop, packetOf]) (fun due => short due.1)
  · rw [stopDue_iff]
    have selected := writePktType_selected c
    generalize c.writePktType = r at selected done
    cases selected with
    | hello asleep server =>
      cases done
      exact iff_of_false (Bool.eq_false_iff.mp (handshake_no_stop _ now out))
        (fun due => due.2.1 (Or.inl ⟨asleep, server⟩))
    | reply unconfirmed client =>
      cases done
      exact iff_of_false (Bool.eq_false_iff.mp (handshake_no_stop _ now out))
        (fun due => due.2.1 (Or.inr ⟨unconfirmed, client⟩))
    | query settled asked =>
      exact iff_of_false (Bool.eq_false_iff.mp (query_no_stop done)) (fun due => due.2.2.1 asked)
    | ack settled quiet asked =>
      cases done
      refine iff_of_false (Bool.eq_false_iff.mp (ack_no_stop quiet now order out)) ?_
      rintro ⟨_, _, _, unasked, _⟩
      rw [asked] at unasked
      cases unasked
    | application settled quiet unasked awake =>
      exact iff_of_false (Bool.eq_false_iff.mp (application_no_stop (sendApplication_cases done)))
        (fun due => awake due.2.2.2.2.1)
    | stop settled quiet unasked asleep drained =>
      cases done
      rw [stop_room, decide_eq_true_eq]
      exact ⟨fun room => ⟨room, settled, quiet, unasked, asleep, drained⟩, fun due => due.1⟩
    | idle settled quiet unasked asleep waiting =>
      cases done
      exact iff_of_false (by simp [putsStop, packetOf]) (fun due => waiting due.2.2.2.2.2)

end Send

def lastSendAll (earlier : Trace F) : Option (Except Error Bool) :=
  (earlier.filterMap (fun t => match t.reply with
    | .sendAll result => some result
    | _ => none)).getLast?

def HadData (earlier : Trace F) : Prop := ∃ t ∈ earlier, t.after.sendDataVec ≠ []

instance (earlier : Trace F) : Decidable (HadData earlier) :=
  inferInstanceAs (Decidable (∃ t ∈ earlier, _))

def SentAll (earlier : Trace F) (c : Connection F) : Prop :=
  HadData earlier ∧ c.sendDataVec.length ≤ c.writtenData ∧ c.sendBuffer.data = []

instance (earlier : Trace F) (c : Connection F) : Decidable (SentAll earlier c) :=
  inferInstanceAs (Decidable (_ ∧ _ ∧ _))

/-- A server after its handshake, whose last `send_all` found nothing more to send, and which owes
    neither a query nor an answer. -/
def Finished (earlier : Trace F) (c : Connection F) : Prop :=
  c.isServer = true ∧ c.rtt ≠ 0 ∧ lastSendAll earlier = some (.ok false) ∧ ¬ QueryDue c ∧
    c.recvFlag = false

instance (earlier : Trace F) (c : Connection F) : Decidable (Finished earlier c) :=
  inferInstanceAs (Decidable (_ ∧ _ ∧ _ ∧ _ ∧ _))

def stopCall (t : Transition (Connection F) Call Reply) : Bool :=
  match t.action with
  | .sendData _ _ out => decide (26 ≤ out.bytes.length) && decide (StopDue t.before)
  | _ => false

section Runs
variable [Octets] [Profile] [FloatOps F]

def emitsStop (t : Transition (Connection F) Call Reply) : Bool := t.reply.packet?.any isStop

def StopsNow (c : Connection F) : Prop :=
  ∀ now order out, 26 ≤ out.length →
    ∃ s, c.sendData now order out = .ok s ∧ putsStop s.out s.result = true

theorem emitsStop_iff {c c' : Connection F} {a : Call} {o : Reply}
    (taken : step c a = .ok (c', o)) :
    emitsStop ⟨c, a, o, c'⟩ = true ↔ stopCall ⟨c, a, o, c'⟩ = true := by
  cases step_cases taken with
  | sendData done =>
    have exactly := sendData_stop_iff done
    simp only [stopCall, Bool.and_eq_true, decide_eq_true_eq]
    exact exactly
  | dataSend _ | sendAll _ | recvSlice _ | read _ | write _ | reset | checkLoss _ | newRtt
    | setHandshake => exact iff_of_false (by simp [emitsStop, Reply.packet?]) (by simp [stopCall])

theorem finished_never_stops {earlier : Trace F} {c : Connection F} (finished : Finished earlier c)
    {now : Nat} {order : IterOrder} {out : Bytes} {s : Sent F}
    (done : c.sendData now order out = .ok s) : putsStop s.out s.result = false := by
  rw [Bool.eq_false_iff]
  intro stop
  have client := ((sendData_stop_iff done).mp stop).2.1
  rw [finished.1] at client
  cases client

theorem finished_not_stopsNow {earlier : Trace F} {c : Connection F}
    (finished : Finished earlier c) : ¬ StopsNow c := by
  intro stops
  have order : IterOrder := ⟨id, fun _ => List.Perm.refl _⟩
  obtain ⟨s, done, stop⟩ := stops 0 order (List.replicate 26 0) (by simp)
  rw [finished_never_stops finished done] at stop
  cases stop

/-- Stop marks the end of the data: it comes only from an endpoint that has sent everything, and
    from every server that has finished. -/
structure StopMarksEnd (trace : Trace F) (c : Connection F) : Prop where
  only_then : Along (fun earlier t => emitsStop t = true → SentAll earlier t.before) trace
  always_then : Along (fun earlier t => Finished earlier t.before → StopsNow t.before) trace
  at_last : Finished trace c → StopsNow c

/-- In every run of either role, Stop marks the end of the data exactly when no client is asked
    for a packet in a state that selects Stop before it has sent everything, and no server ever
    finishes. A server never puts a Stop packet out; whoever receives one reports it. -/
theorem stop_marks_end_iff (localaddr peeraddr : SocketAddr) (birth : Nat) (isServer : Bool)
    {trace : Trace F} {c : Connection F}
    (run : Run step (fun _ _ => True) (Connection.new localaddr peeraddr birth isServer) trace c) :
    (StopMarksEnd trace c ↔
      Along (fun earlier t => stopCall t = true → SentAll earlier t.before) trace ∧
      Along (fun earlier t => ¬ Finished earlier t.before) trace ∧ ¬ Finished trace c) ∧
    (∀ t ∈ trace, t.before.isServer = true → emitsStop t = false) ∧
    (∀ t ∈ trace, emitsStop t = true → ∃ m, t.reply.packet? = some m ∧
      ∀ (d : Connection F) (now : Nat), (d.recvSlice now m).map Prod.snd = .ok (.error .stopped)) := by
  have selected : ∀ t ∈ trace, (emitsStop t = true ↔ stopCall t = true) := by
    intro t mem
    obtain ⟨before, after, split⟩ := List.append_of_mem mem
    rw [split] at run
    exact emitsStop_iff (run_split run).2.2
  refine ⟨?_, ?_, ?_⟩
  · constructor
    · rintro ⟨only_then, always_then, at_last⟩
      refine ⟨?_, ?_, fun finished => finished_not_stopsNow finished (at_last finished)⟩
      · intro before t after split due
        have mem : t ∈ trace := by simp [split]
        exact only_then before t after split ((selected t mem).mpr due)
      · intro before t after split finished
        exact finished_not_stopsNow finished (always_then before t after split finished)
    · rintro ⟨sent, unfinished, last⟩
      refine ⟨?_, ?_, fun finished => absurd finished last⟩
      · intro before t after split stop
        have mem : t ∈ trace := by simp [split]
        exact sent before t after split ((selected t mem).mp stop)
      · intro before t after split finished
        exact absurd finished (unfinished before t after split)
  · intro t mem server
    rw [Bool.eq_false_iff, ne_eq, selected t mem]
    unfold stopCall
    split
    · simp [StopDue, server]
    · simp
  · intro t mem stop
    obtain ⟨m, sent, kind⟩ := (Option.any_eq_true _ _).mp stop
    refine ⟨m, sent, ?_⟩
    intro d now
    rw [recvSlice_stopped kind]
    rfl

end Runs

def clientSession : List Call :=
  [.dataSend (onesText 255), .sendAll 1, .reset, .sendData 2 storedOrder outBuffer]

theorem emptied_client_stops : ∃ (trace : Trace ℚ) (c : Connection ℚ),
    Run (@step ℚ referenceOctets checkedBuild rationalFloats) (fun _ _ => True) freshClient trace c ∧
      trace.map (fun t => t.action) = clientSession ∧
      trace.map (@emitsStop ℚ referenceOctets) = [false, false, false, true] ∧
      @StopMarksEnd ℚ referenceOctets checkedBuild rationalFloats trace c := by
  have passed : passes (@step ℚ referenceOctets checkedBuild rationalFloats) (fun _ _ => True)
      freshClient clientSession (fun trace c =>
        decide (trace.map (@emitsStop ℚ referenceOctets) = [false, false, false, true]) &&
        decide (Along (fun earlier t => stopCall t = true → SentAll earlier t.before) trace) &&
        decide (Along (fun earlier t => ¬ Finished earlier t.before) trace) &&
        decide (¬ Finished trace c)) = true := by
    decide +kernel
  obtain ⟨trace, c, run, played, outcome⟩ := played_run passed
  simp only [Bool.and_eq_true, decide_eq_true_eq] at outcome
  obtain ⟨⟨⟨stops, sent⟩, unfinished⟩, last⟩ := outcome
  exact ⟨trace, c, run, played, stops, (@stop_marks_end_iff ℚ referenceOctets checkedBuild
    rationalFloats loopback loopback 0 false trace c run).1.mpr ⟨sent, unfinished, last⟩⟩

theorem reported_small : (u64Bytes 0 ++ u64Bytes 0 ++ u64Bytes 0).length ≤ 65536 := by
  decide

def receivedReport : Slice :=
  datagram (Header.mk .ack 0 0 0 24) (u64Bytes 0 ++ u64Bytes 0 ++ u64Bytes 0) reported_small

def finishedSession : List Call :=
  chunkSession ++ [.recvSlice 8 receivedReport, .sendAll 9, .sendAll 10]

theorem idle_client_stops_finished_server_does_not :
    (∃ (trace : Trace ℚ) (c : Connection ℚ),
      Run (@step ℚ referenceOctets checkedBuild rationalFloats) (fun _ _ => True) freshClient trace
        c ∧
      trace.map (fun t => t.action) = [.sendData 1 storedOrder outBuffer] ∧
      trace.map (@emitsStop ℚ referenceOctets) = [true] ∧
      ¬ @StopMarksEnd ℚ referenceOctets checkedBuild rationalFloats trace c) ∧
    (∃ (trace : Trace ℚ) (c : Connection ℚ),
      Run (@step ℚ referenceOctets checkedBuild rationalFloats) (fun _ _ => True) freshServer trace
        c ∧
      trace.map (fun t => t.action) = finishedSession ∧ Finished trace c ∧ SentAll trace c ∧
      (∃ s, @sendData ℚ referenceOctets checkedBuild rationalFloats c 11 storedOrder (zeros 1350) =
        .ok s ∧ s.result = .error .done) ∧
      ¬ @StopMarksEnd ℚ referenceOctets checkedBuild rationalFloats trace c) := by
  constructor
  · have passed : passes (@step ℚ referenceOctets checkedBuild rationalFloats) (fun _ _ => True)
        freshClient [.sendData 1 storedOrder outBuffer] (fun trace _ =>
          decide (trace.map (@emitsStop ℚ referenceOctets) = [true]) &&
          decide (¬ Along (fun earlier t => @emitsStop ℚ referenceOctets t = true →
            SentAll earlier t.before) trace)) = true := by
      decide +kernel
    obtain ⟨trace, c, run, played, outcome⟩ := played_run passed
    simp only [Bool.and_eq_true, decide_eq_true_eq] at outcome
    refine ⟨trace, c, run, played, outcome.1, ?_⟩
    rintro ⟨only_then, _, _⟩
    exact outcome.2 only_then
  · have passed : passes (@step ℚ referenceOctets checkedBuild rationalFloats) (fun _ _ => True)
        freshServer finishedSession (fun trace c =>
          decide (Finished trace c ∧ SentAll trace c) &&
          decide ((@sendData ℚ referenceOctets checkedBuild rationalFloats c 11 storedOrder
            (zeros 1350)).map (fun s => decide (s.result = .error .done)) = .ok true)) = true := by
      decide +kernel
    obtain ⟨trace, c, run, played, outcome⟩ := played_run passed
    simp only [Bool.and_eq_true, decide_eq_true_eq] at outcome
    obtain ⟨⟨finished, sent⟩, silent⟩ := outcome
    refine ⟨trace, c, run, played, finished, sent, ?_, ?_⟩
    · cases done : @sendData ℚ referenceOctets checkedBuild rationalFloats c 11 storedOrder
          (zeros 1350) with
      | error p =>
        rw [done] at silent
        cases silent
      | ok s =>
        rw [done] at silent
        exact ⟨s, rfl, of_decide_eq_true (Except.ok.inj silent)⟩
    · rintro ⟨_, _, at_last⟩
      exact @finished_not_stopsNow ℚ referenceOctets checkedBuild rationalFloats trace c finished
        (at_last finished)

end DmludpStopPacket
