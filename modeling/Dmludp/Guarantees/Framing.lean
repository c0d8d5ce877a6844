import Dmludp.Guarantees.QueryAccounting

/- Every datagram `send_data` returns is framed as its header says, and the receiver's parser and
   payload loops read back what was written. -/
namespace DmludpFraming
open ByteCursor RustOutcome TracedRun DmludpPacket DmludpSend DmludpRecovery DmludpConnection
open DmludpConnection.Connection DmludpCalls DmludpEffects DmludpReceiveEffects DmludpSenderSteps
open DmludpQueryAccounting DmludpReference

variable {F : Type}

/-- The header `send_data` builds for the packet type it has selected in state `c`. -/
inductive Built [Profile] [FloatOps F] (c : Connection F) (out : Bytes) :
    PacketType → Header → Prop where
  | handshake : Built c out .handshake (bareHeader .handshake)
  | stop : Built c out .stop (bareHeader .stop)
  | ack : Built c out .ack c.ackHeader
  | elictAck : Built c out .elictAck (elictHeader c.pktNumSpaces.2.nextPktNum (querySize c))
  | application {sendBuffer : SendBuf} {body : Bytes} {n off : Nat} {stop : Bool} {priority : UInt8}
      (emitted : c.sendBuffer.emit (out.drop 26) = .ok (sendBuffer, body, .ok (n, off, stop)))
      (norm : c.priorityCalculation off = .ok priority) : Built c out .application
        (applicationHeader c.pktNumSpaces.1.nextPktNum priority off n)

theorem Built.kind [Profile] [FloatOps F] {c : Connection F} {out : Bytes} {ty : PacketType}
    {h : Header} (built : Built c out ty h) : h.ty = ty := by
  cases built <;> rfl

/-- The datagram `m` is framed by `h` and its payload reads back. -/
structure ReadsBack [Octets] (c : Connection F) (order : IterOrder) (h : Header) (m : Bytes) :
    Prop where
  header : Header.fromSlice m = .ok h
  framed : m.length = 26 + h.pktLength.toNat
  offsets : h.ty = .elictAck → readOffsets (m.drop 26) = .ok (c.sentPkt.drop c.ackPoint) ∧
    m.length = 26 + 8 * (c.sentPkt.drop c.ackPoint).length
  pairs : h.ty = .ack →
    readPairs (m.drop 26) = .ok (UInt64.ofNat c.maxAck, c.pendingPairs order) ∧
      m.length = 26 + (8 + 16 * (c.pendingPairs order).length)

section Layout
variable [Octets]

theorem bare_reads_back (c : Connection F) (order : IterOrder) {ty : PacketType}
    (kind : ty = .handshake ∨ ty = .stop) :
    ReadsBack c order (bareHeader ty) (bareHeader ty).encoded := by
  have sendable : (bareHeader ty).ty ≠ .startAck := by
    rcases kind with rfl | rfl <;> simp [bareHeader]
  have read := fromSlice_encoded sendable []
  rw [List.append_nil] at read
  refine ⟨read, by rw [encoded_length]; rfl, ?_, ?_⟩
  · rcases kind with rfl | rfl <;> simp [bareHeader]
  · rcases kind with rfl | rfl <;> simp [bareHeader]

theorem ack_reads_back (c : Connection F) (order : IterOrder) (fits : c.ackSize ≤ isizeMax) :
    ReadsBack c order c.ackHeader (c.ackHeader.encoded ++ ackPayload c order) := by
  have payload : (c.ackHeader.encoded ++ ackPayload c order).drop 26 = ackPayload c order :=
    List.drop_left' (encoded_length _)
  have width : (c.ackHeader.encoded ++ ackPayload c order).length = 26 + c.ackSize := by
    rw [List.length_append, encoded_length, ackPayload_length]
  refine ⟨fromSlice_encoded (by simp [ackHeader]) _, ?_, by simp [ackHeader], ?_⟩
  · rw [width, ackHeader, word_of_size fits]
  · intro _
    refine ⟨by rw [payload]; exact readPairs_pairs _ _, ?_⟩
    rw [width, ackSize, pendingPairs_length]
    omega

theorem query_reads_back (c : Connection F) (order : IterOrder) (pn : Nat)
    (few : (c.sentPkt.drop c.ackPoint).length ≤ 8) :
    ReadsBack c order (elictHeader pn (8 * (c.sentPkt.drop c.ackPoint).length))
      ((elictHeader pn (8 * (c.sentPkt.drop c.ackPoint).length)).encoded ++
        (c.sentPkt.drop c.ackPoint).flatMap u64Bytes) := by
  have fits : 8 * (c.sentPkt.drop c.ackPoint).length ≤ isizeMax := by
    simp only [isizeMax]
    omega
  have width : ((elictHeader pn (8 * (c.sentPkt.drop c.ackPoint).length)).encoded ++
      (c.sentPkt.drop c.ackPoint).flatMap u64Bytes).length =
        26 + 8 * (c.sentPkt.drop c.ackPoint).length := by
    rw [List.length_append, encoded_length, words_length]
  refine ⟨fromSlice_encoded (by simp [elictHeader]) _, ?_, ?_, by simp [elictHeader]⟩
  · rw [width, elictHeader, word_of_size fits]
  · intro _
    refine ⟨?_, width⟩
    rw [List.drop_left' (encoded_length _)]
    exact readOffsets_words _

theorem application_reads_back (c : Connection F) (order : IterOrder) (pn : Nat)
    (priority : UInt8) (off : Nat) {n : Nat} {body : Bytes} (inside : n ≤ body.length)
    (fits : n ≤ isizeMax) : ReadsBack c order (applicationHeader pn priority off n)
      ((applicationHeader pn priority off n).encoded ++ body.take n) := by
  refine ⟨fromSlice_encoded (by simp [applicationHeader]) _, ?_, by simp [applicationHeader],
    by simp [applicationHeader]⟩
  rw [List.length_append, encoded_length, List.length_take, applicationHeader, word_of_size fits]
  omega

end Layout

section Runs
variable [Octets] [Profile] [FloatOps F]

theorem send_reads_back {c : Connection F} {now : Nat} {order : IterOrder} {out : Slice}
    {s : Sent F} (inStep : InStep c) (room : 1350 ≤ out.bytes.length)
    (sent : c.sendData now order out.bytes = .ok s) :
    (∃ e, s.result = .error e) ∨ ∃ ty h m, c.writePktType.2 = .ok ty ∧ Built c out.bytes ty h ∧
      Puts s.out s.result m ∧ ReadsBack c order h m := by
  have filled : out.bytes ≠ [] := List.length_pos_iff.mp (by omega)
  rw [sendData_filled filled] at sent
  have selected := writePktType_selected c
  generalize c.writePktType = chosen at selected sent ⊢
  cases selected with
  | hello _ _ =>
    cases sent
    obtain ⟨_, _, _, failed | puts⟩ :=
      sendHandshake_effect { c with handshakeCompleted := true } now out.bytes
    · exact Or.inl failed
    · exact Or.inr ⟨_, _, _, rfl, .handshake, puts, bare_reads_back c order (Or.inl rfl)⟩
  | reply _ _ =>
    cases sent
    obtain ⟨_, _, _, failed | puts⟩ :=
      sendHandshake_effect { c with handshakeConfirmed := true } now out.bytes
    · exact Or.inl failed
    · exact Or.inr ⟨_, _, _, rfl, .handshake, puts, bare_reads_back c order (Or.inl rfl)⟩
  | query _ due =>
    obtain ⟨size, _⟩ := querySize_listed inStep due
    obtain ⟨_, puts⟩ := query_sent inStep due room sent
    have few : (c.sentPkt.drop c.ackPoint).length ≤ 8 := by
      rw [List.length_drop, ← inStep.count]
      exact inStep.small
    refine Or.inr ⟨_, _, _, rfl, ?_, puts, query_reads_back c order _ few⟩
    rw [← size]
    exact .elictAck
  | ack _ quiet _ =>
    cases sent
    have running : isStopped { c with recvFlag := false } = false := by
      simp [isStopped, running_of_quiet quiet]
    rcases sendAckPacket_effect _ now order out.bytes running with
      ⟨wide, _, puts⟩ | ⟨_, _, failed⟩
    · have fits : c.ackSize ≤ isizeMax := by
        have bound := out.fits
        have whole : 26 + c.ackSize ≤ out.bytes.length := wide
        omega
      exact Or.inr ⟨_, _, _, rfl, .ack, puts, ack_reads_back c order fits⟩
    · exact Or.inl ⟨_, failed⟩
  | application _ quiet _ _ =>
    cases sendApplication_cases sent with
    | nothing _ _ _ => exact Or.inl ⟨_, rfl⟩
    | packet enough emitted inside norm spent =>
      obtain ⟨_, running⟩ := transmit_inStep inStep quiet
      obtain ⟨size, width⟩ := SendBuf.emit_size emitted
      have fits := out.fits
      rw [List.length_drop] at width
      exact Or.inr ⟨_, _, _, rfl, .application emitted norm, finishSend_puts size running,
        application_reads_back c order _ _ _ size (by omega)⟩
  | stop _ _ _ _ _ =>
    cases sent
    obtain ⟨_, failed | puts⟩ := sendStop_effect c out.bytes
    · exact Or.inl failed
    · exact Or.inr ⟨_, _, _, rfl, .stop, puts, bare_reads_back c order (Or.inr rfl)⟩
  | idle _ _ _ _ _ =>
    cases sent
    exact Or.inl ⟨_, rfl⟩

/-- Honest datagrams are framed as announced and read back field by field, their type being the
    one that was selected. -/
theorem sent_datagram_reads_back (localaddr peeraddr : SocketAddr) (birth : Nat) (isServer : Bool)
    {trace : Trace F} {c c' : Connection F}
    (run : Run step Roomy (Connection.new localaddr peeraddr birth isServer) trace c)
    {now : Nat} {order : IterOrder} {out : Slice} (room : 1350 ≤ out.bytes.length) {out' : Bytes}
    {n : Nat} {info : SendInfo}
    (sent : step c (.sendData now order out) = .ok (c', .sendData out' (.ok (n, info)))) :
    ∃ h, c.writePktType.2 = .ok h.ty ∧ Built c out.bytes h.ty h ∧ n = 26 + h.pktLength.toNat ∧
      ReadsBack c order h (out'.take n) := by
  obtain ⟨s, done, same⟩ := bind_ok_iff.mp sent
  simp only [pure, Except.pure, Except.ok.injEq, Prod.mk.injEq, Reply.sendData.injEq] at same
  obtain ⟨_, written, result⟩ := same
  rcases send_reads_back (run_inStep run) room done with ⟨e, failed⟩ | found
  · rw [failed] at result
    cases result
  · obtain ⟨ty, h, m, selected, built, ⟨info', returned, front⟩, reads⟩ := found
    rw [returned] at result
    simp only [Except.ok.injEq, Prod.mk.injEq] at result
    rw [written, result.1] at front
    rw [front]
    obtain rfl := built.kind
    exact ⟨h, selected, built, by rw [← result.1]; exact reads.framed, reads⟩

end Runs

def returns : Rs (Connection F × Reply) → Bool
  | .ok (_, .sendData _ (.ok _)) => true
  | _ => false

theorem returns_sent {r : Rs (Connection F × Reply)} (returned : returns r = true) :
    ∃ c out n info, r = .ok (c, .sendData out (.ok (n, info))) := by
  unfold returns at returned
  split at returned
  · rename_i c out sent
    exact ⟨c, out, sent.1, sent.2, rfl⟩
  · cases returned

theorem chunk_query_reads_back : ∃ (trace : Trace ℚ) (c c' : Connection ℚ) (out : Bytes) (n : Nat)
    (info : SendInfo) (h : Header),
    Run (@step ℚ referenceOctets checkedBuild rationalFloats) Roomy freshServer trace c ∧
      trace.map (fun t => t.action) = chunkSession.take 4 ∧ c.sentPkt.drop c.ackPoint = [0] ∧
      @step ℚ referenceOctets checkedBuild rationalFloats c (.sendData 7 storedOrder outBuffer) =
        .ok (c', .sendData out (.ok (n, info))) ∧
      h.ty = .elictAck ∧ n = 34 ∧
      @ReadsBack ℚ referenceOctets c storedOrder h (out.take n) := by
  have passed : passes (@step ℚ referenceOctets checkedBuild rationalFloats) Roomy freshServer
      (chunkSession.take 4) (fun _ c => c.sentPkt.drop c.ackPoint == [0] &&
        decide (c.writePktType.2 = .ok .elictAck) && returns
        (@step ℚ referenceOctets checkedBuild rationalFloats c (.sendData 7 storedOrder outBuffer)))
      = true := by decide +kernel
  obtain ⟨trace, c, run, played, outcome⟩ := played_run passed
  simp only [Bool.and_eq_true, beq_iff_eq, decide_eq_true_eq] at outcome
  obtain ⟨⟨pending, selected⟩, returned⟩ := outcome
  obtain ⟨c', out, n, info, sent⟩ := returns_sent returned
  obtain ⟨h, chosen, built, size, reads⟩ := @sent_datagram_reads_back ℚ referenceOctets
    checkedBuild rationalFloats loopback loopback 0 true trace c c' run 7 storedOrder outBuffer
    outBuffer_roomy out n info sent
  have kind : h.ty = .elictAck := by
    rw [selected] at chosen
    exact (Except.ok.inj chosen).symm
  have width : n = 34 := by
    obtain ⟨_, framed, offsets, _⟩ := reads
    rw [size, ← framed, (offsets kind).2, pending]
    rfl
  exact ⟨trace, c, c', out, n, info, h, run, played, pending, sent, kind, width, reads⟩

end DmludpFraming
