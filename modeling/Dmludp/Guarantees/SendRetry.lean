import Dmludp.Endpoint.SenderSteps
import Dmludp.Guarantees.AckAnswers

/- What a `send_data` with too small a buffer costs. The packet type is selected, and its flag
   cleared, before anything is written, so a short buffer loses the packet or panics; only the
   first Handshake of a server and the Stop packet can be asked for again. -/
namespace DmludpSendRetry
open ByteCursor RustOutcome TracedRun DmludpPacket DmludpRange DmludpSend DmludpRecovery
open DmludpConnection DmludpConnection.Connection DmludpCalls DmludpEffects DmludpReceiveEffects
open DmludpSenderSteps DmludpReference DmludpAckAnswers

variable {F : Type}

/-- What a sender relies on in every reachable state, direct calls of `write` included. -/
structure Shaped (c : Connection F) : Prop where
  cut : ∀ b ∈ c.sendBuffer.data, SendBuf.Cut b
  queried : c.ackPoint ≤ c.sentPkt.length

structure Unchanged (c c' : Connection F) : Prop where
  recvFlag : c'.recvFlag = c.recvFlag
  feedBack : c'.feedBack = c.feedBack
  recvHashmap : c'.recvHashmap = c.recvHashmap
  handshakeConfirmed : c'.handshakeConfirmed = c.handshakeConfirmed
  sentCount : c'.sentCount = c.sentCount
  ackPoint : c'.ackPoint = c.ackPoint
  sentPkt : c'.sentPkt = c.sentPkt
  sentDic : c'.sentDic = c.sentDic
  pktNumSpaces : c'.pktNumSpaces = c.pktNumSpaces
  sendBuffer : c'.sendBuffer = c.sendBuffer

section Steps
variable [Profile]

theorem write_cut {s s' : SendBuf} {data : Bytes} {windowSize offLen : Nat} {maxAck : UInt64}
    {r : Except Error Nat} (cut : ∀ b ∈ s.data, SendBuf.Cut b) (aligned : offLen ≤ sendBufferSize)
    (stored : s.write data windowSize offLen maxAck = .ok (s', r)) :
    ∀ b ∈ s'.data, SendBuf.Cut b := by
  cases r with
  | error e =>
    obtain ⟨kept, dropped, rfl⟩ := SendBuf.write_refused stored
    obtain ⟨data, marks, rfl, sub⟩ := SendBuf.recvAndDrop_frame dropped
    exact fun b mem => cut b (sub.subset mem)
  | ok n =>
    obtain ⟨kept, pieces, dropped, filled⟩ := SendBuf.write_filled stored
    obtain ⟨data, marks, rfl, sub⟩ := SendBuf.recvAndDrop_frame dropped
    intro b mem
    rw [filled.queue] at mem
    rcases List.mem_append.mp mem with old | new
    · exact cut b (sub.subset old)
    · exact SendBuf.filled_cut filled aligned new

variable [Octets] [FloatOps F]

theorem step_shaped {c c' : Connection F} {a : Call} {o : Reply} (shaped : Shaped c)
    (moved : SenderStep c a o c') : Shaped c' := by
  obtain ⟨cut, queried⟩ := shaped
  cases moved with
  | kept same silent =>
    obtain ⟨marks, buffer⟩ := same.buffer
    constructor
    · rw [buffer]
      exact cut
    · rw [same.ackPoint, same.sentPkt]
      exact queried
  | dataSend loaded =>
    obtain ⟨⟨norms, data, low, high, rfl⟩, _⟩ := loaded
    exact ⟨cut, queried⟩
  | reset => exact ⟨by simp [Connection.reset, SendBuf.clear], queried⟩
  | write wrote =>
    cases wrote with
    | wrote inside stored => exact ⟨write_cut cut (boundary_small _) stored, queried⟩
  | sendAll passed =>
    cases passed with
    | drained all empty => exact ⟨cut, queried⟩
    | wrote inside stored => exact ⟨write_cut cut (boundary_small _) stored, queried⟩
  | query due sent =>
    rcases sendElictAck_effect sent with ⟨_, conn, _, _⟩ | ⟨_, conn, _⟩
    · rw [conn]
      exact ⟨cut, Nat.le_refl _⟩
    · rw [conn]
      exact ⟨cut, queried⟩
  | application quiet awake sent =>
    obtain ⟨len, usedLength, pos, count, buffer⟩ := (application_kept sent).buffer
    constructor
    · rw [buffer]
      exact cut
    · cases sent with
      | nothing _ _ _ => exact queried
      | @packet sendBuffer body n off stop priority dic _ _ _ _ _ =>
        obtain ⟨stamp, conn⟩ := finishSend_conn (transmitted c sendBuffer off stop dic) _
          ((applicationHeader c.pktNumSpaces.1.nextPktNum priority off n).encoded ++ body) n
        rw [conn]
        simp only [transmitted, List.length_append]
        omega

theorem reachable_shaped {c : Connection F} (reachable : Reachable c) : Shaped c := by
  obtain ⟨localaddr, peeraddr, birth, isServer, trace, run⟩ := reachable
  refine state_invariant Shaped ?_ (fun _ _ _ _ shaped _ taken => step_shaped shaped
    (sender_step taken)) run
  exact ⟨by simp [Connection.new, SendBuf.new], Nat.le_refl _⟩

end Steps

section Ready
variable [Profile]

/-- The buffer has room for the packet that is due, and an Application packet can be built. -/
structure RetryReady (c : Connection F) (room : Nat) : Prop where
  reply : c.handshakeConfirmed = false → c.isServer = false → 26 ≤ room
  query : ¬ HandshakeDue c → QueryDue c → 26 + 8 * (c.sentPkt.length - c.ackPoint) ≤ room
  ack : ¬ HandshakeDue c → ¬ QueryDue c → c.recvFlag = true → 26 + c.ackSize ≤ room
  application : ¬ HandshakeDue c → ¬ QueryDue c → c.recvFlag = false → c.rtt ≠ 0 →
    ApplicationReady c room

theorem ready_settled {c : Connection F} {room : Nat} (settled : ¬ HandshakeDue c)
    (query : QueryDue c → 26 + 8 * (c.sentPkt.length - c.ackPoint) ≤ room)
    (ack : ¬ QueryDue c → c.recvFlag = true → 26 + c.ackSize ≤ room)
    (application : ¬ QueryDue c → c.recvFlag = false → c.rtt ≠ 0 → ApplicationReady c room) :
    RetryReady c room := by
  constructor
  · exact fun unconfirmed client => absurd (Or.inr ⟨unconfirmed, client⟩) settled
  · exact fun _ => query
  · exact fun _ => ack
  · exact fun _ => application

theorem ready_asleep {c : Connection F} (settled : ¬ HandshakeDue c) (quiet : ¬ QueryDue c)
    (unasked : c.recvFlag = false) (asleep : c.rtt = 0) (room : Nat) : RetryReady c room := by
  apply ready_settled settled
  · exact fun due => absurd due quiet
  · intro _ asked
    rw [unasked] at asked
    cases asked
  · exact fun _ _ awake => absurd asleep awake

end Ready

section Retry
variable [Octets]

theorem sendHandshake_room (c : Connection F) (now : Nat) (out : Bytes) :
    (26 ≤ out.length ∧ (c.sendHandshake now out).result ≠ .error .bufferTooShort) ∨
      (out.length < 26 ∧ (c.sendHandshake now out).conn = c ∧
        (c.sendHandshake now out).result = .error .bufferTooShort) := by
  unfold sendHandshake
  by_cases room : 26 ≤ out.length
  · rw [toBytes_from_start _ room]
    exact Or.inl ⟨room, finishSend_room _ _ _ _⟩
  · obtain ⟨b, failed, _⟩ := toBytes_too_short (bareHeader .handshake) (Nat.lt_of_not_le room)
    rw [failed]
    exact Or.inr ⟨Nat.lt_of_not_le room, rfl, rfl⟩

variable [Profile] [FloatOps F]

theorem sendApplication_room {c : Connection F} {now : Nat} {out : Bytes} {s : Sent F}
    (sent : c.sendApplication now out = .ok s) : s.result ≠ .error .bufferTooShort := by
  cases sendApplication_cases sent with
  | nothing _ _ _ => simp
  | packet _ _ _ _ _ => exact finishSend_room _ _ _ _

/-- `send_data` returns, and a buffer that was too short has cost nothing: any later call does
    what it would have done in place of this one. -/
def Retryable (c : Connection F) (now : Nat) (order : IterOrder) (out : Bytes) : Prop :=
  ∃ s, c.sendData now order out = .ok s ∧ (s.result = .error .bufferTooShort →
    Unchanged c s.conn ∧ ∀ later order' out', out' ≠ [] →
      s.conn.sendData later order' out' = c.sendData later order' out')

theorem retryable_of_room {c : Connection F} {now : Nat} {order : IterOrder} {out : Bytes}
    {s : Sent F} (sent : c.sendData now order out = .ok s)
    (room : s.result ≠ .error .bufferTooShort) : Retryable c now order out :=
  ⟨s, sent, fun short => absurd short room⟩

theorem retryable_of_same {c : Connection F} {now : Nat} {order : IterOrder} {out : Bytes}
    {s : Sent F} (sent : c.sendData now order out = .ok s) (same : s.conn = c) :
    Retryable c now order out := by
  refine ⟨s, sent, ?_⟩
  intro _
  rw [same]
  exact ⟨⟨rfl, rfl, rfl, rfl, rfl, rfl, rfl, rfl, rfl, rfl⟩, fun _ _ _ _ => rfl⟩

theorem retryable_iff_room {c : Connection F} {now : Nat} {order : IterOrder} {out : Bytes}
    {s : Sent F} {size : Nat} (sent : c.sendData now order out = .ok s)
    (outcome : (size ≤ out.length ∧ s.result ≠ .error .bufferTooShort) ∨
      (out.length < size ∧ s.result = .error .bufferTooShort ∧ ¬ Unchanged c s.conn)) :
    Retryable c now order out ↔ size ≤ out.length := by
  rcases outcome with ⟨room, fits⟩ | ⟨none_left, short, changed⟩
  · exact iff_of_true (retryable_of_room sent fits) room
  · refine iff_of_false ?_ (Nat.not_le.mpr none_left)
    rintro ⟨s', sent', kept⟩
    rw [sent, Except.ok.injEq] at sent'
    subst sent'
    exact changed (kept short).1

theorem hello_retryable {c : Connection F} {now : Nat} {order : IterOrder} {out : Bytes}
    (filled : out ≠ []) (asleep : c.rtt = 0) (server : c.isServer = true) :
    Retryable c now order out := by
  have choice : ∀ completed : Bool, writePktType { c with handshakeCompleted := completed } =
      ({ c with handshakeCompleted := true }, .ok .handshake) :=
    fun completed => if_pos ⟨asleep, server⟩
  have chosen : c.writePktType = ({ c with handshakeCompleted := true }, .ok .handshake) :=
    choice c.handshakeCompleted
  refine ⟨_, by rw [sendData_filled filled, chosen], ?_⟩
  intro short
  rcases sendHandshake_room { c with handshakeCompleted := true } now out with
    ⟨_, room⟩ | ⟨_, conn, _⟩
  · exact absurd short room
  · rw [conn]
    refine ⟨⟨rfl, rfl, rfl, rfl, rfl, rfl, rfl, rfl, rfl, rfl⟩, ?_⟩
    intro later order' out' filled'
    rw [sendData_filled filled', sendData_filled filled', choice true, chosen]

/-- The client forgets that it owes a Handshake before it has written one. -/
theorem reply_retryable_iff {c : Connection F} {now : Nat} {order : IterOrder} {out : Bytes}
    (filled : out ≠ [])
    (chosen : c.writePktType = ({ c with handshakeConfirmed := true }, .ok .handshake))
    (unconfirmed : c.handshakeConfirmed = false) :
    Retryable c now order out ↔ 26 ≤ out.length := by
  have call : c.sendData now order out =
      .ok (sendHandshake { c with handshakeConfirmed := true } now out) := by
    rw [sendData_filled filled, chosen]
  refine retryable_iff_room call ?_
  rcases sendHandshake_room { c with handshakeConfirmed := true } now out with
    fits | ⟨none_left, conn, short⟩
  · exact Or.inl fits
  · refine Or.inr ⟨none_left, short, ?_⟩
    intro kept
    have same := kept.handshakeConfirmed
    rw [conn, unconfirmed] at same
    cases same

theorem query_retryable_iff {c : Connection F} {now : Nat} {order : IterOrder} {out : Bytes}
    (shaped : Shaped c) (filled : out ≠ [])
    (chosen : c.writePktType = ({ c with sentCount := 0 }, .ok .elictAck)) :
    Retryable c now order out ↔ 26 + 8 * (c.sentPkt.length - c.ackPoint) ≤ out.length := by
  have call : c.sendData now order out = sendElictAck { c with sentCount := 0 } out := by
    rw [sendData_filled filled, chosen]
  have listed : (c.sentPkt.drop c.ackPoint).length = c.sentPkt.length - c.ackPoint :=
    List.length_drop
  have exact_ : ∀ s, sendElictAck { c with sentCount := 0 } out = .ok s →
      (Retryable c now order out ↔
        26 + 8 * (c.sentPkt.length - c.ackPoint) ≤ out.length) := by
    intro s sent
    refine retryable_iff_room (call.trans sent) ?_
    rw [← listed]
    rcases sendElictAck_effect sent with ⟨⟨_, fits⟩, _, result, _⟩ | ⟨none_left, conn, short⟩
    · exact Or.inl ⟨fits, by simp [result]⟩
    · refine Or.inr ⟨none_left, short, ?_⟩
      intro kept
      have number := congrArg (fun p => p.2.nextPktNum) kept.pktNumSpaces
      rw [conn] at number
      dsimp only at number
      omega
  constructor
  · rintro ⟨s, sent, kept⟩
    exact (exact_ s (call.symm.trans sent)).mp ⟨s, sent, kept⟩
  · intro fits
    have returns : ∃ s, sendElictAck { c with sentCount := 0 } out = .ok s :=
      sendElictAck_returns shaped.queried (by omega)
    obtain ⟨s, sent⟩ := returns
    exact (exact_ s sent).mpr fits

theorem ack_retryable_iff {c : Connection F} {now : Nat} {order : IterOrder} {out : Bytes}
    (filled : out ≠ []) (chosen : c.writePktType = ({ c with recvFlag := false }, .ok .ack))
    (quiet : ¬ QueryDue c) (asked : c.recvFlag = true) :
    Retryable c now order out ↔ 26 + c.ackSize ≤ out.length := by
  have call : c.sendData now order out =
      .ok (sendAckPacket { c with recvFlag := false } now order out) := by
    rw [sendData_filled filled, chosen]
  have running : isStopped { c with recvFlag := false } = false := by
    simp [isStopped, running_of_quiet quiet]
  refine retryable_iff_room call ?_
  rcases sendAckPacket_effect { c with recvFlag := false } now order out running with
    ⟨fits, _, _, result, _⟩ | ⟨none_left, conn, short⟩
  · exact Or.inl ⟨fits, by simp [result]⟩
  · refine Or.inr ⟨none_left, short, ?_⟩
    intro kept
    have same := kept.recvFlag
    rw [conn, asked] at same
    cases same

theorem application_retryable_iff {c : Connection F} {now : Nat} {order : IterOrder} {out : Bytes}
    (shaped : Shaped c) (filled : out ≠ []) (chosen : c.writePktType = (c, .ok .application)) :
    Retryable c now order out ↔ ApplicationReady c out.length := by
  have call : c.sendData now order out = c.sendApplication now out := by
    rw [sendData_filled filled, chosen]
  have returns : (∃ s, c.sendApplication now out = .ok s) ↔ ApplicationReady c out.length :=
    sendApplication_returns_iff shaped.cut
  rw [← returns, ← call]
  constructor
  · rintro ⟨s, sent, _⟩
    exact ⟨s, sent⟩
  · rintro ⟨s, sent⟩
    exact retryable_of_room sent (sendApplication_room (call.symm.trans sent))

end Retry

end DmludpSendRetry
