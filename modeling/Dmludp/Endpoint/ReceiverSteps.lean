import Dmludp.Endpoint.SenderSteps

/- The receiving half of an endpoint as a transition system: the stored chunks, the offsets they
   came under and the answers that are pending. Most calls leave all three as they are; the others
   each have one case. -/
namespace DmludpReceiverSteps
open ByteCursor RustOutcome DmludpPacket DmludpRecv DmludpRecovery DmludpConnection
open DmludpConnection.Connection DmludpCalls DmludpEffects DmludpReceiveEffects DmludpSenderSteps

variable {F : Type}

structure ReceiverKept (c c' : Connection F) : Prop where
  recBuffer : c'.recBuffer = c.recBuffer
  recvDic : c'.recvDic = c.recvDic
  recvHashmap : c'.recvHashmap = c.recvHashmap

def Unacking [Octets] (o : Reply) : Prop := ∀ m, o.packet? = some m → headerOf? .ack m = none

def Contentless [Octets] (a : Call) : Prop := ∀ now buf, a = .recvSlice now buf →
  headerOf? .application buf.bytes = none ∧ headerOf? .elictAck buf.bytes = none

section Replies
variable [Octets]

theorem headerOf?_short {buf : Bytes} (short : buf.length < 26) (ty : PacketType) :
    headerOf? ty buf = none := by
  unfold headerOf?
  rw [fromSlice_eq, if_neg (Nat.not_le.mpr short)]

theorem contentless_short {now : Nat} {buf : Slice} (short : buf.bytes.length < 26) :
    Contentless (.recvSlice now buf) := by
  rintro _ _ ⟨rfl, rfl⟩
  exact ⟨headerOf?_short short _, headerOf?_short short _⟩

theorem contentless_kind {now : Nat} {buf : Slice} (complete : 26 ≤ buf.bytes.length)
    (kind : (decodeHeader buf.bytes).ty ≠ .application ∧ (decodeHeader buf.bytes).ty ≠ .elictAck) :
    Contentless (.recvSlice now buf) := by
  rintro _ _ ⟨rfl, rfl⟩
  rw [headerOf?_complete complete, if_neg kind.1, headerOf?_complete complete, if_neg kind.2]
  exact ⟨rfl, rfl⟩

theorem unacking_none {o : Reply} (silent : o.packet? = none) : Unacking o := by
  intro m found
  rw [silent] at found
  cases found

theorem unacking_header {o : Reply} {h : Header} {rest : Bytes} {n : Nat}
    (kind : h.ty ≠ .startAck ∧ h.ty ≠ .ack)
    (sent : o.packet? = some ((h.encoded ++ rest).take (26 + n))) : Unacking o := by
  intro m found
  rw [sent, Option.some.injEq] at found
  rw [← found, headerOf?_taken kind.1, if_neg kind.2]

theorem unacking_bare {o : Reply} {ty : PacketType} (kind : ty = .handshake ∨ ty = .stop)
    (sent : o.packet? = some (bareHeader ty).encoded) : Unacking o := by
  have other : (bareHeader ty).ty ≠ .startAck ∧ (bareHeader ty).ty ≠ .ack := by
    rcases kind with rfl | rfl <;> simp [bareHeader]
  have whole : ((bareHeader ty).encoded ++ []).take (26 + 0) = (bareHeader ty).encoded :=
    List.take_left' (encoded_length _)
  exact unacking_header other (sent.trans (congrArg some whole.symm))

end Replies

section Steps
variable [Octets] [Profile]

inductive ReceiverStep (c : Connection F) : Call → Reply → Connection F → Prop where
  | kept {a : Call} {o : Reply} {c' : Connection F} (same : ReceiverKept c c')
      (silent : Unacking o) (bare : Contentless a) : ReceiverStep c a o c'
  | stored {now : Nat} {buf : Slice} {recBuffer : RecvBuf} {c' : Connection F} {r : Except Error Nat}
      (complete : 26 ≤ buf.bytes.length) (kind : (decodeHeader buf.bytes).ty = .application)
      (written : c.recBuffer.write (buf.bytes.drop 26) (decodeHeader buf.bytes).offset.toNat =
        .ok (recBuffer, .ok ()))
      (buffer : c'.recBuffer = recBuffer)
      (noted : c'.recvDic = c.recvDic.insert (decodeHeader buf.bytes).offset
        (decodeHeader buf.bytes).priority)
      (pending : c'.recvHashmap = c.recvHashmap) :
      ReceiverStep c (.recvSlice now buf) (.recvSlice r) c'
  | queried {now : Nat} {buf : Slice} {ws : List UInt64} {c' : Connection F} {r : Except Error Nat}
      (complete : 26 ≤ buf.bytes.length) (kind : (decodeHeader buf.bytes).ty = .elictAck)
      (listed : buf.bytes.drop 26 = ws.flatMap u64Bytes) (buffer : c'.recBuffer = c.recBuffer)
      (noted : c'.recvDic = c.recvDic)
      (pending : c'.recvHashmap = answerAll c.recvDic c.recvHashmap ws) :
      ReceiverStep c (.recvSlice now buf) (.recvSlice r) c'
  | checked {buf : Slice} {ws : List UInt64} (listed : buf.bytes = ws.flatMap u64Bytes) :
      ReceiverStep c (.checkLoss buf) .nothing
        { c with recvHashmap := answerAll c.recvDic c.recvHashmap ws }
  | answered {now : Nat} {order : IterOrder} {out : Slice} {written : Bytes}
      {r : Except Error (Nat × SendInfo)} {c' : Connection F} (asked : c.recvFlag = true)
      (sent : packetOf written r = some (c.ackHeader.encoded ++ ackPayload c order))
      (buffer : c'.recBuffer = c.recBuffer) (noted : c'.recvDic = c.recvDic)
      (pending : c'.recvHashmap = ∅) :
      ReceiverStep c (.sendData now order out) (.sendData written r) c'
  | read {out : Slice} {recBuffer : RecvBuf} {written : Bytes} {r : Except Error Nat}
      (emitted : c.recBuffer.emit out.bytes = .ok (recBuffer, written, r)) :
      ReceiverStep c (.read out) (.read written r) { c with recBuffer := recBuffer }

variable [FloatOps F]

theorem recvSlice_receives {c c' : Connection F} {now : Nat} {buf : Slice} {r : Except Error Nat}
    (handled : RecvCase c now buf.bytes (c', r)) :
    ReceiverStep c (.recvSlice now buf) (.recvSlice r) c' := by
  cases handled with
  | ack complete kind _ acked =>
    obtain ⟨_, _, _, c1, _, _, ⟨⟨_, _, eq⟩, _⟩, same⟩ := processAck_effect acked
    subst eq same
    exact .kept ⟨rfl, rfl, rfl⟩ (unacking_none rfl) (contentless_kind complete (by simp [kind]))
  | elictAck ws complete kind listed => exact .queried complete kind listed rfl rfl rfl
  | application complete kind stored => exact .stored complete kind stored rfl rfl rfl
  | short _ incomplete =>
    exact .kept ⟨rfl, rfl, rfl⟩ (unacking_none rfl) (contentless_short incomplete)
  | silent _ complete kind _ =>
    exact .kept ⟨rfl, rfl, rfl⟩ (unacking_none rfl) (contentless_kind complete ⟨kind.1, kind.2.1⟩)
  | handshakeServer _ complete kind _ =>
    exact .kept ⟨rfl, rfl, rfl⟩ (unacking_none rfl) (contentless_kind complete (by simp [kind]))
  | handshakeClient complete kind _ =>
    exact .kept ⟨rfl, rfl, rfl⟩ (unacking_none rfl) (contentless_kind complete (by simp [kind]))

theorem sendData_receives {c : Connection F} {now : Nat} {order : IterOrder} {out : Slice}
    {s : Sent F} (sent : SendCase c now order out.bytes s) :
    ReceiverStep c (.sendData now order out) (.sendData s.out s.result) s.conn := by
  cases sent with
  | empty _ => exact .kept ⟨rfl, rfl, rfl⟩ (unacking_none rfl) nofun
  | idle _ => exact .kept ⟨rfl, rfl, rfl⟩ (unacking_none rfl) nofun
  | handshake completed confirmed due =>
    obtain ⟨stamp, back, conn, packet⟩ := sendHandshake_effect { c with
      handshakeCompleted := completed
      handshakeConfirmed := confirmed } now out.bytes
    refine .kept (by rw [conn]; exact ⟨rfl, rfl, rfl⟩) ?_ nofun
    rcases packet with ⟨e, nothing⟩ | hello
    · exact unacking_none (packetOf_error nothing)
    · exact unacking_bare (Or.inl rfl) (packetOf_puts hello)
  | elictAck due sent =>
    rcases sendElictAck_effect sent with ⟨_, conn, result, written⟩ | ⟨_, conn, result⟩
    · refine .kept (by rw [conn]; exact ⟨rfl, rfl, rfl⟩) ?_ nofun
      apply unacking_header (by simp [elictHeader] :
        (elictHeader c.pktNumSpaces.2.nextPktNum (querySize { c with sentCount := 0 })).ty ≠
          .startAck ∧ _)
      rw [packet?_sendData, result, written, packetOf, List.append_assoc]
    · exact .kept (by rw [conn]; exact ⟨rfl, rfl, rfl⟩) (unacking_none (packetOf_error result))
        nofun
  | ack quiet asked =>
    have running : isStopped { c with recvFlag := false } = false := by
      simp [isStopped, running_of_quiet quiet]
    rcases sendAckPacket_effect _ now order out.bytes running with
      ⟨_, conn, puts⟩ | ⟨_, conn, failed⟩
    · exact .answered asked (packetOf_puts puts) (by rw [conn]) (by rw [conn]) (by rw [conn])
    · exact .kept (by rw [conn]; exact ⟨rfl, rfl, rfl⟩) (unacking_none (packetOf_error failed))
        nofun
  | application _ _ sent =>
    cases sendApplication_cases sent with
    | nothing _ _ _ => exact .kept ⟨rfl, rfl, rfl⟩ (unacking_none rfl) nofun
    | @packet sendBuffer body n off stop priority dic _ _ _ _ _ =>
      obtain ⟨stamp, conn⟩ := finishSend_conn (transmitted c sendBuffer off stop dic) now
        ((applicationHeader c.pktNumSpaces.1.nextPktNum priority off n).encoded ++ body) n
      refine .kept (by rw [conn]; exact ⟨rfl, rfl, rfl⟩) ?_ nofun
      intro m found
      unfold finishSend at found
      split at found
      · cases found
      · rw [packet?_sendData, packetOf, Option.some.injEq] at found
        rw [← found, headerLength, headerOf?_taken (by simp [applicationHeader])]
        rfl
  | stop _ _ =>
    obtain ⟨conn, packet⟩ := sendStop_effect c out.bytes
    refine .kept (by rw [conn]; exact ⟨rfl, rfl, rfl⟩) ?_ nofun
    rcases packet with ⟨e, nothing⟩ | farewell
    · exact unacking_none (packetOf_error nothing)
    · exact unacking_bare (Or.inr rfl) (packetOf_puts farewell)

theorem receiver_step {c c' : Connection F} {a : Call} {o : Reply}
    (taken : step c a = .ok (c', o)) : ReceiverStep c a o c' := by
  cases step_cases taken with
  | dataSend done =>
    obtain ⟨⟨_, _, _, _, rfl⟩, _⟩ := dataSend_loaded done
    exact .kept ⟨rfl, rfl, rfl⟩ (unacking_none rfl) nofun
  | sendAll done =>
    cases sendAll_cases done with
    | drained _ _ => exact .kept ⟨rfl, rfl, rfl⟩ (unacking_none rfl) nofun
    | wrote _ _ => exact .kept ⟨rfl, rfl, rfl⟩ (unacking_none rfl) nofun
  | sendData done => exact sendData_receives (sendData_cases done)
  | recvSlice done => exact recvSlice_receives (recvSlice_cases done)
  | read emitted => exact .read emitted
  | write done =>
    cases write_effect done with
    | wrote _ _ => exact .kept ⟨rfl, rfl, rfl⟩ (unacking_none rfl) nofun
  | checkLoss done =>
    obtain ⟨ws, listed, rfl⟩ := checkLoss_effect done
    exact .checked listed
  | reset | newRtt | setHandshake => exact .kept ⟨rfl, rfl, rfl⟩ (unacking_none rfl) nofun

end Steps

end DmludpReceiverSteps
