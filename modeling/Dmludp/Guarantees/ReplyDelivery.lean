import Dmludp.Guarantees.AckAnswers

/- What becomes of the client's replies. One flag announces two kinds of them, the answer to a
   Handshake and the answer to a query, and the ACK grows with every query that is still open. -/
namespace DmludpReplyDelivery
open ByteCursor RustOutcome TracedRun DmludpPacket DmludpSend DmludpRecovery DmludpConnection
open DmludpConnection.Connection DmludpCalls DmludpEffects DmludpReceiveEffects DmludpAckAnswers
open DmludpReference

variable {F : Type}

/-- `send_ack` is true exactly when a reply is pending. -/
def Announced (c : Connection F) : Prop :=
  c.sendAck = true ↔ (c.recvFlag = true ∨ c.handshakeConfirmed = false)

/-- When a Handshake reply is due, a call with room for it finds no ACK pending, and a call
    without room finds one. -/
def OneReplyDue (c : Connection F) : Call → Prop
  | .sendData _ _ out => c.handshakeConfirmed = false → out.bytes ≠ [] →
      (c.recvFlag = true ↔ out.bytes.length < 26)
  | _ => True

instance (c : Connection F) : Decidable (Announced c) :=
  inferInstanceAs (Decidable (_ ↔ _))

instance (c : Connection F) (a : Call) : Decidable (OneReplyDue c a) :=
  match a with
  | .sendData _ _ out => inferInstanceAs (Decidable (c.handshakeConfirmed = false →
      out.bytes ≠ [] → (c.recvFlag = true ↔ out.bytes.length < 26)))
  | .dataSend _ | .sendAll _ | .recvSlice _ _ | .read _ | .write | .reset | .checkLoss _
    | .newRtt _ | .setHandshake _ => inferInstanceAs (Decidable True)

structure ClientSide (c : Connection F) : Prop where
  client : c.isServer = false
  role : c.server = false
  asleep : c.rtt = 0
  uncounted : c.sentCount = 0
  running : c.stopFlag = false

theorem client_quiet {c : Connection F} (side : ClientSide c) : ¬ QueryDue c := by
  rintro (⟨_, positive⟩ | stopped)
  · rw [side.uncounted] at positive
    omega
  · rw [side.running] at stopped
    cases stopped

section Receive
variable [Profile] [FloatOps F]

theorem receive_announced {c c' : Connection F} {now : Nat} {buf : Slice} {r : Except Error Nat}
    (side : ClientSide c) (received : RecvCase c now buf.bytes (c', r)) :
    ClientSide c' ∧ (Announced c → Announced c') := by
  cases received with
  | short _ _ | silent _ _ _ _ | application _ _ _ =>
    exact ⟨⟨side.client, side.role, side.asleep, side.uncounted, side.running⟩, id⟩
  | handshakeServer _ _ _ server | ack _ _ server _ =>
    rw [side.client] at server
    cases server
  | handshakeClient _ _ _ | elictAck _ _ _ _ =>
    exact ⟨⟨side.client, side.role, side.asleep, side.uncounted, side.running⟩,
      fun _ => by simp [Announced, sendAck]⟩

end Receive

section Send
variable [Octets]

theorem sendHandshake_client {c : Connection F} (role : c.server = false) (now : Nat) (out : Bytes) :
    (26 ≤ out.length ∧
      ∃ stamp, (c.sendHandshake now out).conn = { c with feedBack := false, handshake := stamp }) ∨
    (out.length < 26 ∧ (c.sendHandshake now out).conn = c) := by
  unfold sendHandshake
  by_cases room : 26 ≤ out.length
  · rw [toBytes_from_start _ room]
    dsimp only
    rw [if_neg (by rw [role]; decide)]
    obtain ⟨stamp, conn⟩ := finishSend_conn { c with feedBack := false } now
      ((bareHeader .handshake).encoded ++ out.drop 26) 0
    exact Or.inl ⟨room, stamp, conn⟩
  · obtain ⟨b, failed, _⟩ := toBytes_too_short (bareHeader .handshake) (Nat.lt_of_not_le room)
    rw [failed]
    exact Or.inr ⟨Nat.lt_of_not_le room, rfl⟩

theorem reply_announced {c : Connection F} {now : Nat} {order : IterOrder} {out : Slice}
    (side : ClientSide c) (unconfirmed : c.handshakeConfirmed = false) (given : out.bytes ≠ []) :
    ClientSide (sendHandshake { c with handshakeConfirmed := true } now out.bytes).conn ∧
      (Announced c →
        (Announced (sendHandshake { c with handshakeConfirmed := true } now out.bytes).conn ↔
          OneReplyDue c (.sendData now order out))) := by
  rcases sendHandshake_client (c := { c with handshakeConfirmed := true }) side.role now out.bytes
    with ⟨room, stamp, conn⟩ | ⟨short, conn⟩
  · rw [conn]
    refine ⟨⟨side.client, side.role, side.asleep, side.uncounted, side.running⟩, ?_⟩
    intro _
    simp [Announced, OneReplyDue, sendAck, unconfirmed, given, Nat.not_lt.mpr room]
  · rw [conn]
    refine ⟨⟨side.client, side.role, side.asleep, side.uncounted, side.running⟩, ?_⟩
    intro announced
    have back : c.feedBack = true := announced.mpr (Or.inr unconfirmed)
    simp [Announced, OneReplyDue, sendAck, unconfirmed, given, short, back]

variable [Profile] [FloatOps F]

theorem sendData_reply {c : Connection F} {out : Bytes} (client : c.isServer = false)
    (unconfirmed : c.handshakeConfirmed = false) (given : out ≠ []) (now : Nat)
    (order : IterOrder) : c.sendData now order out =
      .ok (sendHandshake { c with handshakeConfirmed := true } now out) := by
  have filled : out.isEmpty = false := List.isEmpty_eq_false_iff.mpr given
  simp [sendData, filled, writePktType, client, unconfirmed]

theorem send_announced {c : Connection F} {now : Nat} {order : IterOrder} {out : Slice} {s : Sent F}
    (side : ClientSide c) (done : c.sendData now order out.bytes = .ok s) :
    ClientSide s.conn ∧
      (Announced c → (Announced s.conn ↔ OneReplyDue c (.sendData now order out))) := by
  by_cases none_given : out.bytes = []
  · have same : c.sendData now order out.bytes = .ok ⟨c, out.bytes, .error .bufferTooShort⟩ := by
      simp [sendData, none_given]
    rw [same, Except.ok.injEq] at done
    subst done
    exact ⟨side, fun announced => iff_of_true announced (fun _ given => absurd none_given given)⟩
  · cases confirmed : c.handshakeConfirmed with
    | false =>
      rw [sendData_reply side.client confirmed none_given, Except.ok.injEq] at done
      subst done
      exact reply_announced side confirmed none_given
    | true =>
      have may : OneReplyDue c (.sendData now order out) := by
        intro unconfirmed
        rw [confirmed] at unconfirmed
        cases unconfirmed
      cases sendData_cases done with
      | empty _ | idle _ => exact ⟨side, fun announced => iff_of_true announced may⟩
      | handshake _ _ late =>
        rcases late with ⟨_, server⟩ | ⟨unconfirmed, _⟩
        · rw [side.client] at server
          cases server
        · rw [confirmed] at unconfirmed
          cases unconfirmed
      | elictAck query _ => exact absurd query (client_quiet side)
      | ack quiet asked =>
        have running : isStopped { c with recvFlag := false } = false := by
          simp [isStopped, side.running]
        rcases sendAckPacket_effect _ now order out.bytes running with ⟨_, conn, _⟩ | ⟨_, conn, _⟩
        · rw [conn]
          exact ⟨⟨side.client, side.role, side.asleep, side.uncounted, side.running⟩,
            fun _ => iff_of_true (by simp [Announced, sendAck, confirmed]) may⟩
        · rw [conn]
          exact ⟨⟨side.client, side.role, side.asleep, side.uncounted, side.running⟩,
            fun _ => iff_of_true (by simp [Announced, sendAck, confirmed]) may⟩
      | application _ awake _ => exact absurd side.asleep awake
      | stop _ _ =>
        rw [(sendStop_effect c out.bytes).1]
        exact ⟨side, fun announced => iff_of_true announced may⟩

theorem pending_reply_announced_iff (localaddr peeraddr : SocketAddr) (birth : Nat)
    {trace : Trace F} {c : Connection F}
    (run : Run step ClientCall (Connection.connect localaddr peeraddr birth) trace c) :
    (Announced (Connection.connect localaddr peeraddr birth : Connection F) ∧
      ∀ t ∈ trace, Announced t.after) ↔ ∀ t ∈ trace, OneReplyDue t.before t.action := by
  have fresh : Announced (Connection.connect localaddr peeraddr birth : Connection F) := by
    simp [Announced, sendAck, Connection.connect, Connection.new]
  rw [and_iff_right fresh]
  refine run_exact ClientSide Announced OneReplyDue ⟨rfl, rfl, rfl, rfl, rfl⟩ fresh ?_ run
  intro s a o s' side may taken
  cases step_cases taken with
  | sendData done => exact send_announced side done
  | recvSlice done =>
    obtain ⟨side', kept⟩ := receive_announced side (recvSlice_cases done)
    exact ⟨side', fun announced => iff_of_true (kept announced) trivial⟩
  | dataSend _ | sendAll _ | read _ | write _ | reset | checkLoss _ | newRtt | setHandshake =>
    exact may.elim

end Send

theorem handshake_reply_announced : ∃ (trace : Trace ℚ) (c : Connection ℚ),
    Run (@step ℚ referenceOctets checkedBuild rationalFloats) ClientCall freshClient trace c ∧
      trace.map (fun t => t.action) =
        [.recvSlice 1 (bareDatagram 2), .sendData 2 storedOrder outBuffer] ∧
      ∀ t ∈ trace, Announced t.after := by
  have passed : passes (@step ℚ referenceOctets checkedBuild rationalFloats) ClientCall freshClient
      [.recvSlice 1 (bareDatagram 2), .sendData 2 storedOrder outBuffer]
      (fun trace _ => trace.all (fun t => decide (OneReplyDue t.before t.action))) = true := by
    decide +kernel
  obtain ⟨trace, c, run, played, outcome⟩ := played_run passed
  simp only [List.all_eq_true, decide_eq_true_eq] at outcome
  exact ⟨trace, c, run, played, ((@pending_reply_announced_iff ℚ referenceOctets checkedBuild
    rationalFloats loopback loopback 0 trace c run).mpr outcome).2⟩

/-- A Handshake and a query arrive before the client sends: the Handshake reply withdraws the
    announcement of the ACK. -/
theorem handshake_reply_hides_ack : ∃ (trace : Trace ℚ) (c : Connection ℚ),
    Run (@step ℚ referenceOctets checkedBuild rationalFloats) ClientCall freshClient trace c ∧
      trace.map (fun t => t.action) = [.recvSlice 1 (bareDatagram 2), .recvSlice 2 queryDatagram,
        .sendData 3 storedOrder outBuffer] ∧
      c.recvFlag = true ∧ c.sendAck = false ∧ ¬ ∀ t ∈ trace, Announced t.after := by
  have passed : passes (@step ℚ referenceOctets checkedBuild rationalFloats) ClientCall freshClient
      [.recvSlice 1 (bareDatagram 2), .recvSlice 2 queryDatagram,
        .sendData 3 storedOrder outBuffer]
      (fun trace c => c.recvFlag && !c.sendAck && !trace.all (fun t => decide (Announced t.after)))
      = true := by decide +kernel
  obtain ⟨trace, c, run, played, outcome⟩ := played_run passed
  simp only [Bool.and_eq_true, Bool.not_eq_true', List.all_eq_false, decide_eq_true_eq] at outcome
  obtain ⟨⟨flag, back⟩, t, mem, hidden⟩ := outcome
  exact ⟨trace, c, run, played, flag, back, fun all => hidden (all t mem)⟩

section Size
variable [Octets] [Profile] [FloatOps F]

theorem sendData_ack {c : Connection F} {out : Bytes} (chosen : c.writePktType.2 = .ok .ack)
    (given : out ≠ []) (now : Nat) (order : IterOrder) :
    c.stopFlag = false ∧
      c.sendData now order out = .ok (sendAckPacket { c with recvFlag := false } now order out) := by
  have filled : out.isEmpty = false := List.isEmpty_eq_false_iff.mpr given
  have selected := writePktType_selected c
  unfold sendData
  generalize c.writePktType = r at selected chosen
  cases selected with
  | ack _ quiet _ => exact ⟨running_of_quiet quiet, by simp [filled]⟩
  | hello _ _ | reply _ _ | query _ _ | application _ _ _ _ | stop _ _ _ _ _ | idle _ _ _ _ _ =>
    cases chosen

def FitsDatagram (c : Connection F) (now : Nat) (order : IterOrder) (out : Slice) : Prop :=
  ∃ s n info, c.sendData now order out.bytes = .ok s ∧ s.result = .ok (n, info) ∧
    n ≤ maxSendUdpPayloadSize

theorem ack_datagram {c : Connection F} {out : Slice} (chosen : c.writePktType.2 = .ok .ack)
    (given : out.bytes ≠ []) (now : Nat) (order : IterOrder) :
    FitsDatagram c now order out ↔
      26 + c.ackSize ≤ out.bytes.length ∧ 26 + c.ackSize ≤ maxSendUdpPayloadSize := by
  obtain ⟨running, sent⟩ := sendData_ack chosen given now order
  have stopped : isStopped { c with recvFlag := false } = false := by
    simp [isStopped, running]
  have size : ackSize { c with recvFlag := false } = c.ackSize := rfl
  rcases sendAckPacket_effect _ now order out.bytes stopped with
    ⟨room, _, info, result, _⟩ | ⟨short, _, failed⟩
  · rw [size] at room
    rw [List.length_append, encoded_length, ackPayload_length, size] at result
    constructor
    · rintro ⟨s, n, info', done, ok, small⟩
      rw [sent, Except.ok.injEq] at done
      rw [← done, result] at ok
      cases ok
      exact ⟨room, small⟩
    · rintro ⟨_, small⟩
      exact ⟨_, _, info, sent, result, small⟩
  · rw [size] at short
    constructor
    · rintro ⟨s, n, info', done, ok, _⟩
      rw [sent, Except.ok.injEq] at done
      rw [← done, failed] at ok
      cases ok
    · rintro ⟨room, _⟩
      omega

theorem pending_ack_fits_iff (c : Connection F) (now : Nat) (order : IterOrder) (out : Slice)
    (chosen : c.writePktType.2 = .ok .ack) (room : maxSendUdpPayloadSize ≤ out.bytes.length) :
    FitsDatagram c now order out ↔ c.recvHashmap.entries.length ≤ 82 := by
  have limit : maxSendUdpPayloadSize = 1350 := rfl
  have given : out.bytes ≠ [] := List.ne_nil_of_length_pos (by omega)
  rw [ack_datagram chosen given now order, ackSize]
  omega

end Size

def blockQuery (k : Nat) : Slice :=
  datagram (elictHeader k 64)
    (((List.range 8).map (fun i => UInt64.ofNat (1024 * (8 * k + i)))).flatMap u64Bytes)
    (by rw [words_length, List.length_map, List.length_range]; decide)

theorem two_answers_fit : ∃ (trace : Trace ℚ) (c : Connection ℚ),
    Run (@step ℚ referenceOctets checkedBuild rationalFloats) ClientCall freshClient trace c ∧
      trace.map (fun t => t.action) = [.recvSlice 1 queryDatagram] ∧
      c.recvHashmap.entries.length = 2 ∧
      @FitsDatagram ℚ referenceOctets checkedBuild rationalFloats c 3 storedOrder outBuffer := by
  have passed : passes (@step ℚ referenceOctets checkedBuild rationalFloats) ClientCall freshClient
      [.recvSlice 1 queryDatagram] (fun _ c => decide (c.recvHashmap.entries.length = 2) &&
        decide (c.writePktType.2 = .ok .ack)) = true := by decide +kernel
  obtain ⟨trace, c, run, played, outcome⟩ := played_run passed
  simp only [Bool.and_eq_true, decide_eq_true_eq] at outcome
  have room : maxSendUdpPayloadSize ≤ outBuffer.bytes.length := by
    simp [outBuffer, zeros, maxSendUdpPayloadSize, -List.reduceReplicate]
  exact ⟨trace, c, run, played, outcome.1, (@pending_ack_fits_iff ℚ referenceOctets checkedBuild
    rationalFloats c 3 storedOrder outBuffer outcome.2 room).mpr (by omega)⟩

/-- Eleven full queries between two ACKs: the answer has 88 pairs and no buffer of 1350 bytes
    holds it. -/
theorem eleven_queries_overflow : ∃ (trace : Trace ℚ) (c : Connection ℚ),
    Run (@step ℚ referenceOctets checkedBuild rationalFloats) ClientCall freshClient trace c ∧
      trace.map (fun t => t.action) = (List.range 11).map (fun k => .recvSlice k (blockQuery k)) ∧
      c.writePktType.2 = .ok .ack ∧
      ¬ @FitsDatagram ℚ referenceOctets checkedBuild rationalFloats c 11 storedOrder outBuffer := by
  have passed : passes (@step ℚ referenceOctets checkedBuild rationalFloats) ClientCall freshClient
      ((List.range 11).map (fun k => .recvSlice k (blockQuery k)))
      (fun _ c => decide (c.writePktType.2 = .ok .ack) &&
        decide (c.recvHashmap.entries.length = 88)) = true := by decide +kernel
  obtain ⟨trace, c, run, played, outcome⟩ := played_run passed
  simp only [Bool.and_eq_true, decide_eq_true_eq] at outcome
  obtain ⟨chosen, pairs⟩ := outcome
  refine ⟨trace, c, run, played, chosen, ?_⟩
  have given : outBuffer.bytes ≠ [] := by
    simp [outBuffer, zeros, -List.reduceReplicate]
  rw [@ack_datagram ℚ referenceOctets checkedBuild rationalFloats c outBuffer chosen given]
  rintro ⟨_, small⟩
  rw [ackSize, pairs] at small
  exact absurd small (by decide)

end DmludpReplyDelivery
