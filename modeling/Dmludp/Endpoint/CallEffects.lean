import Dmludp.Endpoint.Calls

/- What each call can do to an endpoint, said once per call. The cases are complete, so every
   invariant of a run is a case analysis over them and no proof unfolds a call again. -/
namespace DmludpEffects
open ByteCursor RustOutcome DmludpPacket DmludpSend DmludpRecv DmludpRecovery DmludpConnection
open DmludpConnection.Connection DmludpCalls

variable {F : Type}

def QueryDue (c : Connection F) : Prop :=
  (c.sentCount % elictFlag = 0 ∧ c.sentCount > 0) ∨ c.stopFlag = true

instance (c : Connection F) : Decidable (QueryDue c) :=
  inferInstanceAs (Decidable ((c.sentCount % elictFlag = 0 ∧ c.sentCount > 0) ∨ c.stopFlag = true))

def HandshakeDue (c : Connection F) : Prop :=
  (c.rtt = 0 ∧ c.isServer = true) ∨ (c.handshakeConfirmed = false ∧ c.isServer = false)

theorem running_of_quiet {c : Connection F} (quiet : ¬ QueryDue c) : c.stopFlag = false := by
  cases flag : c.stopFlag with
  | true => exact absurd (Or.inr flag) quiet
  | false => rfl

inductive Selected (c : Connection F) : Connection F × Except Error PacketType → Prop where
  | hello (asleep : c.rtt = 0) (server : c.isServer = true) :
      Selected c ({ c with handshakeCompleted := true }, .ok .handshake)
  | reply (unconfirmed : c.handshakeConfirmed = false) (client : c.isServer = false) :
      Selected c ({ c with handshakeConfirmed := true }, .ok .handshake)
  | query (settled : ¬ HandshakeDue c) (due : QueryDue c) :
      Selected c ({ c with sentCount := 0 }, .ok .elictAck)
  | ack (settled : ¬ HandshakeDue c) (quiet : ¬ QueryDue c) (asked : c.recvFlag = true) :
      Selected c ({ c with recvFlag := false }, .ok .ack)
  | application (settled : ¬ HandshakeDue c) (quiet : ¬ QueryDue c) (unasked : c.recvFlag = false)
      (awake : c.rtt ≠ 0) : Selected c (c, .ok .application)
  | stop (settled : ¬ HandshakeDue c) (quiet : ¬ QueryDue c) (unasked : c.recvFlag = false)
      (asleep : c.rtt = 0) (drained : c.sendBuffer.data = []) : Selected c (c, .ok .stop)
  | idle (settled : ¬ HandshakeDue c) (quiet : ¬ QueryDue c) (unasked : c.recvFlag = false)
      (asleep : c.rtt = 0) (waiting : c.sendBuffer.data ≠ []) : Selected c (c, .error .done)

theorem writePktType_selected (c : Connection F) : Selected c c.writePktType := by
  unfold writePktType
  by_cases first : c.rtt = 0 ∧ c.isServer = true
  · rw [if_pos first]
    exact .hello first.1 first.2
  · rw [if_neg first]
    by_cases second : c.handshakeConfirmed = false ∧ c.isServer = false
    · rw [if_pos second]
      exact .reply second.1 second.2
    · rw [if_neg second]
      have settled : ¬ HandshakeDue c := not_or.mpr ⟨first, second⟩
      by_cases due : (c.sentCount % elictFlag = 0 ∧ c.sentCount > 0) ∨ c.stopFlag = true
      · rw [if_pos due]
        exact .query settled due
      · rw [if_neg due]
        by_cases asked : c.recvFlag = true
        · rw [if_pos asked]
          exact .ack settled due asked
        · rw [if_neg asked]
          have unasked : c.recvFlag = false := Bool.eq_false_iff.mpr asked
          by_cases awake : c.rtt ≠ 0
          · rw [if_pos awake]
            exact .application settled due unasked awake
          · rw [if_neg awake]
            have asleep : c.rtt = 0 := Decidable.not_not.mp awake
            by_cases drained : c.sendBuffer.data.isEmpty = true
            · rw [if_pos drained]
              exact .stop settled due unasked asleep (List.isEmpty_iff.mp drained)
            · rw [if_neg drained]
              exact .idle settled due unasked asleep
                (fun empty => drained (List.isEmpty_iff.mpr empty))

theorem quiet_of_application {c : Connection F} (chosen : c.writePktType.2 = .ok .application) :
    ¬ QueryDue c := by
  have selected := writePktType_selected c
  generalize c.writePktType = r at selected chosen
  cases selected with
  | application _ quiet _ _ => exact quiet
  | hello _ _ | reply _ _ | query _ _ | ack _ _ _ | stop _ _ _ _ _ | idle _ _ _ _ _ => cases chosen

theorem writePktType_application {c : Connection F}
    (chosen : c.writePktType.2 = .ok .application) : c.writePktType = (c, .ok .application) := by
  have selected := writePktType_selected c
  generalize c.writePktType = r at selected chosen
  cases selected with
  | application _ _ _ _ => rfl
  | hello _ _ | reply _ _ | query _ _ | ack _ _ _ | stop _ _ _ _ _ | idle _ _ _ _ _ => cases chosen

def ackPayload (c : Connection F) (order : IterOrder) : Bytes :=
  u64Bytes (UInt64.ofNat c.maxAck) ++
    (c.pendingPairs order).flatMap pairBytes

theorem pendingPairs_length (c : Connection F) (order : IterOrder) :
    (c.pendingPairs order).length = c.recvHashmap.entries.length := by
  rw [pendingPairs, (order.perm _).length_eq, List.length_map]

theorem ackPayload_length (c : Connection F) (order : IterOrder) :
    (ackPayload c order).length = c.ackSize := by
  simp only [ackPayload, List.length_append, u64Bytes_length, pairs_length, pendingPairs_length,
    ackSize]
  omega

theorem finishSend_puts {c : Connection F} {now : Nat} {h : Header} {body : Bytes} {n : Nat}
    (inside : n ≤ body.length) (running : c.isStopped = false) :
    Puts (c.finishSend now (h.encoded ++ body) n).out
      (c.finishSend now (h.encoded ++ body) n).result (h.encoded ++ body.take n) := by
  have width : (h.encoded ++ body.take n).length = headerLength + n := by
    rw [List.length_append, encoded_length, List.length_take, headerLength]
    omega
  refine ⟨c.sendInfo, ?_, ?_⟩
  · rw [width]
    simp [finishSend, running]
  · rw [width]
    simp only [finishSend, running, Bool.false_eq_true, ↓reduceIte, headerLength]
    rw [List.take_append, encoded_length, Nat.add_sub_cancel_left,
      List.take_of_length_le (by rw [encoded_length]; omega)]

theorem finishSend_stamped (c : Connection F) (now : Nat) (out : Bytes) (n : Nat) :
    (c.finishSend now out n).conn =
      { c with handshake := if c.isStopped then c.handshake else now } := by
  unfold finishSend
  split
  · rfl
  · rfl

theorem finishSend_conn (c : Connection F) (now : Nat) (out : Bytes) (n : Nat) :
    ∃ stamp, (c.finishSend now out n).conn = { c with handshake := stamp } :=
  ⟨_, finishSend_stamped c now out n⟩

theorem finishSend_room (c : Connection F) (now : Nat) (out : Bytes) (n : Nat) :
    (c.finishSend now out n).result ≠ .error .bufferTooShort := by
  unfold finishSend
  split <;> simp

section Send
variable [Octets]

theorem putPairs_writes (ps : List (UInt64 × UInt64)) :
    Writes (putPairs ps) (ps.flatMap pairBytes) := by
  induction ps with
  | nil => exact writes_pure
  | cons p rest ih =>
    rw [List.flatMap_cons, pairBytes, List.append_assoc]
    exact writes_bind (writes_putU64 p.1) (writes_bind (writes_putU64 p.2) ih)

theorem writeAck_writes (c : Connection F) (order : IterOrder) :
    Writes (c.writeAck order) (c.ackHeader.encoded ++ ackPayload c order) :=
  writes_bind (writes_toBytes _) (writes_bind (writes_putU64 _) (putPairs_writes _))

theorem sendHandshake_effect (c : Connection F) (now : Nat) (out : Bytes) :
    ∃ stamp back, (c.sendHandshake now out).conn = { c with handshake := stamp, feedBack := back } ∧
      ((∃ e, (c.sendHandshake now out).result = .error e) ∨
        Puts (c.sendHandshake now out).out (c.sendHandshake now out).result
          (bareHeader .handshake).encoded) := by
  unfold sendHandshake
  by_cases room : 26 ≤ out.length
  · rw [toBytes_from_start _ room]
    have front : ((bareHeader .handshake).encoded ++ out.drop 26).take 26 =
        (bareHeader .handshake).encoded := List.take_left' (encoded_length _)
    dsimp only [finishSend]
    by_cases server : c.server = true
    · rw [if_pos server]
      split
      · exact ⟨now, c.feedBack, rfl, Or.inl ⟨_, rfl⟩⟩
      · exact ⟨now, c.feedBack, rfl, Or.inr ⟨_, rfl, front⟩⟩
    · rw [if_neg server]
      split
      · exact ⟨c.handshake, false, rfl, Or.inl ⟨_, rfl⟩⟩
      · exact ⟨now, false, rfl, Or.inr ⟨_, rfl, front⟩⟩
  · obtain ⟨b, failed, _⟩ := toBytes_too_short (bareHeader .handshake) (Nat.lt_of_not_le room)
    rw [failed]
    exact ⟨c.handshake, c.feedBack, rfl, Or.inl ⟨_, rfl⟩⟩

theorem sendStop_effect (c : Connection F) (out : Bytes) :
    (c.sendStop out).conn = c ∧
      ((∃ e, (c.sendStop out).result = .error e) ∨
        Puts (c.sendStop out).out (c.sendStop out).result (bareHeader .stop).encoded) := by
  unfold sendStop
  by_cases room : 26 ≤ out.length
  · rw [toBytes_from_start _ room]
    have front : ((bareHeader .stop).encoded ++ out.drop 26).take 26 =
        (bareHeader .stop).encoded := List.take_left' (encoded_length _)
    exact ⟨rfl, Or.inr ⟨_, rfl, front⟩⟩
  · obtain ⟨b, failed, _⟩ := toBytes_too_short (bareHeader .stop) (Nat.lt_of_not_le room)
    rw [failed]
    exact ⟨rfl, Or.inl ⟨_, rfl⟩⟩

/-- An ACK goes out complete and clears the pending answers, or not at all and keeps them. -/
theorem sendAckPacket_effect (c : Connection F) (now : Nat) (order : IterOrder) (out : Bytes)
    (running : c.isStopped = false) :
    (26 + c.ackSize ≤ out.length ∧
      (c.sendAckPacket now order out).conn =
        { c with feedBack := false, recvHashmap := ∅, handshake := now } ∧
      Puts (c.sendAckPacket now order out).out (c.sendAckPacket now order out).result
        (c.ackHeader.encoded ++ ackPayload c order)) ∨
    (out.length < 26 + c.ackSize ∧
      (c.sendAckPacket now order out).conn = { c with feedBack := false } ∧
      (c.sendAckPacket now order out).result = .error .bufferTooShort) := by
  have writes := writeAck_writes { c with feedBack := false } order
  have width : ((ackHeader { c with feedBack := false }).encoded ++
      ackPayload { c with feedBack := false } order).length = 26 + c.ackSize := by
    rw [List.length_append, encoded_length, ackPayload_length]
    rfl
  unfold sendAckPacket
  dsimp only
  by_cases room : 26 + c.ackSize ≤ out.length
  · left
    rw [writes_from_start writes (by omega)]
    have stopped : isStopped { c with feedBack := false, recvHashmap := ∅ } = false := running
    dsimp only [finishSend]
    rw [if_neg (by simp [stopped])]
    have announced : Except.ok (26 + c.ackSize, c.sendInfo) =
        (Except.ok (_, c.sendInfo) : Except Error (Nat × SendInfo)) :=
      congrArg (fun n => Except.ok (n, c.sendInfo)) width.symm
    exact ⟨room, rfl, c.sendInfo, announced, List.take_left' rfl⟩
  · right
    obtain ⟨b, failed, _⟩ := writes_too_short writes (by omega : out.length < _)
    rw [failed]
    exact ⟨Nat.lt_of_not_le room, rfl, rfl⟩

def querySize (c : Connection F) : Nat :=
  if c.stopFlag then (c.sentPkt.length - c.ackPoint) * 8 else 64

theorem writeQuery_result {pn psize : Nat} {res : List UInt64} {out : Bytes}
    {r : Except BufferTooShortError Unit} {out' : Bytes}
    (done : writeQuery pn psize res out = .ok (r, out')) :
    (26 + 8 * res.length ≤ out.length ∧ r = .ok () ∧
      out' = (elictHeader pn psize).encoded ++ res.flatMap u64Bytes ++
        out.drop (26 + 8 * res.length)) ∨
    (out.length < 26 + 8 * res.length ∧ r = .error ⟨⟩) := by
  unfold writeQuery at done
  by_cases room : 26 ≤ out.length
  · have first := toBytes_from_start (elictHeader pn psize) room
    have writes := writes_bind (f := fun _ => putU64s res) (writes_toBytes (elictHeader pn psize))
      (writes_putU64s res)
    have joined := cursor_bind_ok (f := fun _ => putU64s res) first
    have width : ((elictHeader pn psize).encoded ++ res.flatMap u64Bytes).length =
        26 + 8 * res.length := by
      rw [List.length_append, encoded_length, words_length]
    rw [first] at done
    dsimp only at done
    rw [← joined] at done
    by_cases fits : 26 + 8 * res.length ≤ out.length
    · rw [writes_from_start writes (by omega), width] at done
      simp only [Except.ok.injEq, Prod.mk.injEq] at done
      exact Or.inl ⟨fits, done.1.symm, done.2.symm⟩
    · obtain ⟨b, failed, _⟩ := writes_too_short writes (by omega : out.length < _)
      rw [failed] at done
      simp only [Except.ok.injEq, Prod.mk.injEq] at done
      exact Or.inr ⟨Nat.lt_of_not_le fits, done.1.symm⟩
  · obtain ⟨b, failed, _⟩ := toBytes_too_short (elictHeader pn psize) (Nat.lt_of_not_le room)
    rw [failed] at done
    simp at done

/-- A query lists everything since the last one and moves the query mark to the end, or fails
    and costs only its packet number. -/
theorem sendElictAck_effect {c : Connection F} {out : Bytes} {s : Sent F}
    (done : c.sendElictAck out = .ok s) :
    ((c.ackPoint ≤ c.sentPkt.length ∧
        26 + 8 * (c.sentPkt.drop c.ackPoint).length ≤ out.length) ∧
      s.conn = { c with
        pktNumSpaces := (c.pktNumSpaces.1, ⟨c.pktNumSpaces.2.nextPktNum + 1⟩)
        ackPoint := c.sentPkt.length
        stopAck := c.stopAck || c.stopFlag } ∧
      s.result = .ok (26 + querySize c, c.sendInfo) ∧
      s.out = (elictHeader c.pktNumSpaces.2.nextPktNum (querySize c)).encoded ++
        (c.sentPkt.drop c.ackPoint).flatMap u64Bytes ++
        out.drop (26 + 8 * (c.sentPkt.drop c.ackPoint).length)) ∨
    (out.length < 26 + 8 * (c.sentPkt.drop c.ackPoint).length ∧
      s.conn = { c with pktNumSpaces := (c.pktNumSpaces.1, ⟨c.pktNumSpaces.2.nextPktNum + 1⟩) } ∧
      s.result = .error .bufferTooShort) := by
  unfold sendElictAck at done
  obtain ⟨res, sliced, done⟩ := bind_ok_iff.mp done
  unfold unqueried sliceFrom at sliced
  split at sliced
  · rename_i inside
    simp only [Except.ok.injEq] at sliced
    subst sliced
    obtain ⟨⟨r, out'⟩, written, done⟩ := bind_ok_iff.mp done
    rcases writeQuery_result written with ⟨fits, rfl, eq⟩ | ⟨short, rfl⟩
    · left
      simp only [pure, Except.pure, Except.ok.injEq] at done
      subst done eq
      refine ⟨⟨inside, fits⟩, ?_, ?_, rfl⟩
      · cases flag : c.stopFlag <;> simp
      · cases flag : c.stopFlag <;> simp [querySize, flag, headerLength, sendInfo]
    · right
      simp only [pure, Except.pure, Except.ok.injEq] at done
      subst done
      exact ⟨short, rfl, rfl⟩
  · simp at sliced

theorem writeQuery_returns {out : Bytes} (room : 26 ≤ out.length) (pn psize : Nat)
    (res : List UInt64) : ∃ r, writeQuery pn psize res out = .ok r := by
  unfold writeQuery
  rw [toBytes_from_start _ room]
  exact ⟨_, rfl⟩

theorem sendElictAck_returns {c : Connection F} {out : Bytes}
    (inside : c.ackPoint ≤ c.sentPkt.length) (room : 26 ≤ out.length) :
    ∃ s, c.sendElictAck out = .ok s := by
  have sliced : unqueried { c with
      pktNumSpaces := (c.pktNumSpaces.1, ⟨c.pktNumSpaces.2.nextPktNum + 1⟩) } =
        .ok (c.sentPkt.drop c.ackPoint) := sliceFrom_fits inside
  obtain ⟨⟨r, written⟩, queried⟩ := writeQuery_returns room c.pktNumSpaces.2.nextPktNum
    (querySize c) (c.sentPkt.drop c.ackPoint)
  unfold querySize at queried
  unfold sendElictAck
  dsimp only
  rw [sliced, ok_bind, queried, ok_bind]
  cases r with
  | error e => exact ⟨_, rfl⟩
  | ok u => exact ⟨_, rfl⟩

theorem sendElictAck_room {c : Connection F} {out : Bytes} {s : Sent F}
    (done : c.sendElictAck out = .ok s) : c.ackPoint ≤ c.sentPkt.length ∧ 26 ≤ out.length := by
  unfold sendElictAck at done
  obtain ⟨res, sliced, done⟩ := bind_ok_iff.mp done
  obtain ⟨r, written, _⟩ := bind_ok_iff.mp done
  constructor
  · unfold unqueried sliceFrom at sliced
    split at sliced
    · rename_i inside
      exact inside
    · cases sliced
  · apply Nat.le_of_not_lt
    intro short
    obtain ⟨b, failed, _⟩ := toBytes_too_short (elictHeader c.pktNumSpaces.2.nextPktNum
      (querySize c)) short
    unfold querySize at failed
    simp [writeQuery, failed] at written

theorem sendElictAck_frame {c : Connection F} {out : Bytes} {s : Sent F}
    (done : c.sendElictAck out = .ok s) : ∃ spaces ackPoint stopAck,
      s.conn = { c with pktNumSpaces := spaces, ackPoint := ackPoint, stopAck := stopAck } ∧
      (stopAck = true → c.stopAck = true ∨ c.stopFlag = true) := by
  rcases sendElictAck_effect done with ⟨_, conn, _, _⟩ | ⟨_, conn, _⟩
  · exact ⟨_, _, _, conn, Bool.or_eq_true_iff.mp⟩
  · exact ⟨_, _, _, conn, Or.inl⟩

variable [Profile] [FloatOps F]

inductive SendCase (c : Connection F) (now : Nat) (order : IterOrder) (out : Bytes) :
    Sent F → Prop where
  | empty (none_given : out = []) : SendCase c now order out ⟨c, out, .error .bufferTooShort⟩
  | idle (asleep : c.rtt = 0) : SendCase c now order out ⟨c, out, .error .done⟩
  | handshake (completed confirmed : Bool) (due : HandshakeDue c) :
      SendCase c now order out (sendHandshake { c with
        handshakeCompleted := completed
        handshakeConfirmed := confirmed } now out)
  | elictAck {s : Sent F} (due : QueryDue c)
      (sent : sendElictAck { c with sentCount := 0 } out = .ok s) : SendCase c now order out s
  | ack (quiet : ¬ QueryDue c) (asked : c.recvFlag = true) :
      SendCase c now order out (sendAckPacket { c with recvFlag := false } now order out)
  | application {s : Sent F} (quiet : ¬ QueryDue c) (awake : c.rtt ≠ 0)
      (sent : c.sendApplication now out = .ok s) : SendCase c now order out s
  | stop (asleep : c.rtt = 0) (drained : c.sendBuffer.data = []) :
      SendCase c now order out (c.sendStop out)

theorem sendData_filled {c : Connection F} {now : Nat} {order : IterOrder} {out : Bytes}
    (filled : out ≠ []) : c.sendData now order out = match c.writePktType with
      | (c, .error e) => .ok ⟨c, out, .error e⟩
      | (c, .ok ty) =>
        match ty with
        | .handshake => .ok (c.sendHandshake now out)
        | .ack => .ok (c.sendAckPacket now order out)
        | .elictAck => c.sendElictAck out
        | .application => c.sendApplication now out
        | .stop => .ok (c.sendStop out)
        | _ => .ok (c.finishSend now out 0) :=
  if_neg (by rw [List.isEmpty_iff]; exact filled)

theorem sendData_cases {c : Connection F} {now : Nat} {order : IterOrder} {out : Bytes}
    {s : Sent F} (done : c.sendData now order out = .ok s) : SendCase c now order out s := by
  unfold sendData at done
  split at done
  · rename_i none_given
    simp only [Except.ok.injEq] at done
    subst done
    exact .empty (List.isEmpty_iff.mp none_given)
  · have selected := writePktType_selected c
    generalize c.writePktType = r at selected done
    cases selected with
    | hello asleep server =>
      cases done
      exact .handshake true c.handshakeConfirmed (Or.inl ⟨asleep, server⟩)
    | reply unconfirmed client =>
      cases done
      exact .handshake c.handshakeCompleted true (Or.inr ⟨unconfirmed, client⟩)
    | query _ due => exact .elictAck due done
    | ack _ quiet asked =>
      cases done
      exact .ack quiet asked
    | application _ quiet _ awake => exact .application quiet awake done
    | stop _ _ _ asleep drained =>
      cases done
      exact .stop asleep drained
    | idle _ _ _ asleep _ =>
      cases done
      exact .idle asleep

theorem sendData_application {c : Connection F} {out : Bytes}
    (chosen : c.writePktType.2 = .ok .application) (room : 0 < out.length) (now : Nat)
    (order : IterOrder) : c.sendData now order out = c.sendApplication now out := by
  have filled : out.isEmpty = false := List.isEmpty_eq_false_iff.mpr (List.ne_nil_of_length_pos room)
  simp only [sendData, filled, Bool.false_eq_true, ↓reduceIte, writePktType_application chosen]

def transmitted (c : Connection F) (sendBuffer : SendBuf) (off : Nat) (stop : Bool)
    (sentDic : HashMap Nat Nat) : Connection F :=
  { c with
    sendBuffer := sendBuffer
    sentCount := c.sentCount + 1
    sentNumber := c.sentNumber + 1
    pktNumSpaces := (⟨c.pktNumSpaces.1.nextPktNum + 1⟩, c.pktNumSpaces.2)
    sentDic := sentDic
    stopFlag := c.stopFlag || stop
    sentPkt := c.sentPkt ++ [UInt64.ofNat off] }

inductive AppCase (c : Connection F) (now : Nat) (out : Bytes) : Sent F → Prop where
  | nothing {sendBuffer : SendBuf} {body : Bytes} {n off : Nat} {stop : Bool}
      (room : 26 ≤ out.length)
      (emitted : c.sendBuffer.emit (out.drop 26) = .ok (sendBuffer, body, .ok (n, off, stop)))
      (past : c.writtenData ≤ off) :
      AppCase c now out ⟨{ c with sendBuffer := sendBuffer }, out.take 26 ++ body, .error .done⟩
  | packet {sendBuffer : SendBuf} {body : Bytes} {n off : Nat} {stop : Bool} {priority : UInt8}
      {sentDic : HashMap Nat Nat} (room : 26 ≤ out.length)
      (emitted : c.sendBuffer.emit (out.drop 26) = .ok (sendBuffer, body, .ok (n, off, stop)))
      (inside : off < c.writtenData) (norm : c.priorityCalculation off = .ok priority)
      (spent : spendBudget c.sentDic off priority = .ok sentDic) :
      AppCase c now out ((transmitted c sendBuffer off stop sentDic).finishSend now
        ((applicationHeader c.pktNumSpaces.1.nextPktNum priority off n).encoded ++ body) n)

theorem sendApplication_cases {c : Connection F} {now : Nat} {out : Bytes} {s : Sent F}
    (done : c.sendApplication now out = .ok s) : AppCase c now out s := by
  unfold sendApplication at done
  obtain ⟨body, sliced, done⟩ := bind_ok_iff.mp done
  unfold sliceFrom at sliced
  split at sliced
  · rename_i room
    simp only [Except.ok.injEq] at sliced
    subst sliced
    obtain ⟨⟨sendBuffer, body, r⟩, emitted, done⟩ := bind_ok_iff.mp done
    obtain ⟨_, _, n, off, stop, rfl, _⟩ := SendBuf.emit_frame emitted
    dsimp only at done
    split at done
    · rename_i past
      simp only [pure, Except.pure, Except.ok.injEq] at done
      subst done
      exact .nothing room emitted past
    · rename_i inside
      obtain ⟨priority, norm, done⟩ := bind_ok_iff.mp done
      obtain ⟨sentDic, spent, done⟩ := bind_ok_iff.mp done
      have width : 26 ≤ (out.take 26 ++ body).length := by
        rw [List.length_append, List.length_take]
        omega
      have front : (out.take 26 ++ body).drop 26 = body :=
        List.drop_left' (by rw [List.length_take]; omega)
      rw [toBytes_from_start _ width, front] at done
      simp only [pure, Except.pure, Except.ok.injEq] at done
      subst done
      have built : AppCase c now out _ :=
        .packet room emitted (Nat.lt_of_not_le inside) norm spent
      cases stop with
      | true => simpa [transmitted, applicationHeader] using built
      | false => simpa [transmitted, applicationHeader] using built
  · simp at sliced

end Send

section Kept
variable [Profile] [FloatOps F]

structure AppKept (c c' : Connection F) : Prop where
  stopAck : c'.stopAck = c.stopAck
  writtenData : c'.writtenData = c.writtenData
  totalOffset : c'.totalOffset = c.totalOffset
  sendDataVec : c'.sendDataVec = c.sendDataVec
  norm2Vec : c'.norm2Vec = c.norm2Vec
  lowSplitPoint : c'.lowSplitPoint = c.lowSplitPoint
  highSplitPoint : c'.highSplitPoint = c.highSplitPoint
  recvDic : c'.recvDic = c.recvDic
  recvHashmap : c'.recvHashmap = c.recvHashmap
  buffer : ∃ len usedLength pos sent, c'.sendBuffer =
    { c.sendBuffer with len := len, usedLength := usedLength, pos := pos, sent := sent }

theorem application_kept {c : Connection F} {now : Nat} {out : Bytes} {s : Sent F}
    (sent : AppCase c now out s) : AppKept c s.conn := by
  cases sent with
  | nothing _ emitted _ =>
    exact ⟨rfl, rfl, rfl, rfl, rfl, rfl, rfl, rfl, rfl, (SendBuf.emit_frame emitted).1⟩
  | @packet sendBuffer body n off stop priority dic _ emitted _ _ _ =>
    obtain ⟨stamp, conn⟩ := finishSend_conn (transmitted c sendBuffer off stop dic) now
      ((applicationHeader c.pktNumSpaces.1.nextPktNum priority off n).encoded ++ body) n
    rw [conn]
    exact ⟨rfl, rfl, rfl, rfl, rfl, rfl, rfl, rfl, rfl, (SendBuf.emit_frame emitted).1⟩

end Kept

/-- The distance to the next block boundary, as `Connection::write` computes it. -/
theorem block_boundary (n : Nat) : (if n % 1024 % 1024 ≠ 0 then 1024 - n % 1024 else 0) =
    (sendBufferSize - n % sendBufferSize) % sendBufferSize := by
  simp only [sendBufferSize]
  split <;> omega

theorem boundary_small (n : Nat) :
    (sendBufferSize - n % sendBufferSize) % sendBufferSize ≤ sendBufferSize := by
  simp only [sendBufferSize]
  omega

section Write
variable [Profile] [FloatOps F]

theorem write_ok_iff {c c' : Connection F} {r : Except Error Nat} :
    c.write = .ok (c', r) ↔ ∃ recovery window sendBuffer,
      nextWindow c.recovery (FloatOps.div64 (FloatOps.ofUsize c.highPriority)
        (FloatOps.ofUsize c.sentNumber) : F) = .ok (recovery, window) ∧
      c.writtenData ≤ c.sendDataVec.length ∧
      c.sendBuffer.write (c.sendDataVec.drop c.writtenData) window
        ((sendBufferSize - c.totalOffset % sendBufferSize) % sendBufferSize) c.maxOff =
          .ok (sendBuffer, r) ∧
      c' = { c with
        highPriority := 0
        sentNumber := 0
        recovery := recovery
        sendBuffer := sendBuffer } := by
  constructor
  · intro done
    obtain ⟨⟨recovery, window⟩, chosen, done⟩ := bind_ok_iff.mp done
    obtain ⟨data, sliced, done⟩ := bind_ok_iff.mp done
    obtain ⟨⟨sendBuffer, result⟩, stored, done⟩ := bind_ok_iff.mp done
    cases done
    unfold sliceFrom at sliced
    split at sliced
    · rename_i inside
      cases sliced
      rw [← block_boundary]
      exact ⟨recovery, window, sendBuffer, chosen, inside, stored, rfl⟩
    · cases sliced
  · rintro ⟨recovery, window, sendBuffer, chosen, inside, stored, rfl⟩
    rw [← block_boundary] at stored
    refine bind_ok_iff.mpr ⟨(recovery, window), chosen, ?_⟩
    refine bind_ok_iff.mpr ⟨_, sliceFrom_fits inside, ?_⟩
    exact bind_ok_iff.mpr ⟨(sendBuffer, r), stored, rfl⟩

inductive WriteCase (c : Connection F) : Connection F × Except Error Nat → Prop where
  | wrote {recovery : Recovery} {window : Nat} {sendBuffer : SendBuf} {r : Except Error Nat}
      (inside : c.writtenData ≤ c.sendDataVec.length)
      (stored : c.sendBuffer.write (c.sendDataVec.drop c.writtenData) window
        ((sendBufferSize - c.totalOffset % sendBufferSize) % sendBufferSize) c.maxOff =
          .ok (sendBuffer, r)) :
      WriteCase c ({ c with
        highPriority := 0
        sentNumber := 0
        recovery := recovery
        sendBuffer := sendBuffer }, r)

theorem write_effect {c : Connection F} {out : Connection F × Except Error Nat}
    (done : c.write = .ok out) : WriteCase c out := by
  obtain ⟨c', r⟩ := out
  obtain ⟨_, _, _, _, inside, stored, rfl⟩ := write_ok_iff.mp done
  exact .wrote inside stored

theorem sendAll_drained {c : Connection F} (all : c.sendDataVec.length ≤ c.writtenData)
    (empty : c.sendBuffer.data = []) (now : Nat) : c.sendAll now =
      .ok ({ c with stopFlag := false, stopAck := false, handshake := now }, .ok false) :=
  (if_neg (Nat.not_lt.mpr all)).trans (if_pos (List.isEmpty_iff.mpr empty))

theorem sendAll_writes {c : Connection F}
    (more : c.writtenData < c.sendDataVec.length ∨ c.sendBuffer.data ≠ []) (now : Nat) :
    c.sendAll now =
      writeMore { c with stopFlag := false, stopAck := false, handshake := now } := by
  by_cases ahead : c.sendDataVec.length > c.writtenData
  · exact if_pos ahead
  · have kept : ¬ c.sendBuffer.data.isEmpty = true := by
      rw [List.isEmpty_iff]
      exact more.resolve_left ahead
    exact (if_neg ahead).trans (if_neg kept)

inductive SendAllCase (c : Connection F) (now : Nat) :
    Connection F × Except Error Bool → Prop where
  | drained (all : c.sendDataVec.length ≤ c.writtenData) (empty : c.sendBuffer.data = []) :
      SendAllCase c now ({ c with stopFlag := false, stopAck := false, handshake := now },
        .ok false)
  | wrote {recovery : Recovery} {window n : Nat} {sendBuffer : SendBuf}
      (inside : c.writtenData ≤ c.sendDataVec.length)
      (stored : c.sendBuffer.write (c.sendDataVec.drop c.writtenData) window
        ((sendBufferSize - c.totalOffset % sendBufferSize) % sendBufferSize) c.maxOff =
          .ok (sendBuffer, .ok n)) :
      SendAllCase c now ({ c with
        stopFlag := false
        stopAck := false
        handshake := now
        highPriority := 0
        sentNumber := 0
        recovery := recovery
        sendBuffer := sendBuffer
        writtenData := c.writtenData + n
        totalOffset := c.totalOffset + n }, .ok true)

theorem writeMore_effect {c : Connection F} {out : Connection F × Except Error Bool} {now : Nat}
    (done : writeMore { c with stopFlag := false, stopAck := false, handshake := now } = .ok out) :
    SendAllCase c now out := by
  unfold writeMore at done
  obtain ⟨⟨c', r⟩, written, done⟩ := bind_ok_iff.mp done
  cases write_effect written with
  | wrote inside stored =>
    cases r with
    | error e => simp at done
    | ok n =>
      simp only [pure, Except.pure, Except.ok.injEq] at done
      subst done
      exact .wrote inside stored

theorem sendAll_cases {c : Connection F} {now : Nat} {out : Connection F × Except Error Bool}
    (done : c.sendAll now = .ok out) : SendAllCase c now out := by
  by_cases drained : c.sendDataVec.length ≤ c.writtenData ∧ c.sendBuffer.data = []
  · rw [sendAll_drained drained.1 drained.2] at done
    cases done
    exact .drained drained.1 drained.2
  · rw [sendAll_writes (by rw [← Nat.not_le, ← not_and_or]; exact drained)] at done
    exact writeMore_effect done

end Write

section Load
variable [FloatOps F]

def emptied (c : Connection F) : Connection F :=
  { c with
    norm2Vec := []
    sendDataVec := []
    lowSplitPoint := FloatOps.lit32 0 1
    highSplitPoint := FloatOps.lit32 0 1 }

variable [Profile]

theorem storeFloats_cons_ok_iff {c : Connection F} {norms : List F} {norm : F} {it : Int}
    {item : List Char} {rest : List (List Char)} {r : Connection F × List F} :
    c.storeFloats norms norm it (item :: rest) = .ok r ↔
      ∃ n x, addI32 it 1 = .ok n ∧ FloatOps.parse item = some x ∧
        c.sendDataVec.length + 4 ≤ isizeMax ∧
        (if n.tmod 256 = 255 then
          { c with
            sendDataVec := c.sendDataVec ++ List.ofFn (FloatOps.toNeBytes x)
            norm2Vec := c.norm2Vec ++ [FloatOps.add32 norm (FloatOps.mul32 x x)] }.storeFloats
              (norms ++ [FloatOps.add32 norm (FloatOps.mul32 x x)]) (FloatOps.lit32 0 1) n rest
        else
          { c with
            sendDataVec := c.sendDataVec ++ List.ofFn (FloatOps.toNeBytes x) }.storeFloats
              norms (FloatOps.add32 norm (FloatOps.mul32 x x)) n rest) = .ok r := by
  have width (x : F) : (c.sendDataVec ++ List.ofFn (FloatOps.toNeBytes x)).length =
      c.sendDataVec.length + 4 := by
    rw [List.length_append, List.length_ofFn]
  rw [storeFloats, bind_ok_iff]
  constructor
  · rintro ⟨n, counted, stored⟩
    split at stored
    · cases stored
    · rename_i x parsed
      dsimp only at stored
      split at stored
      · cases stored
      · rename_i small
        exact ⟨n, x, counted, parsed, by rw [← width x]; exact Nat.not_lt.mp small, stored⟩
  · rintro ⟨n, x, counted, parsed, small, stored⟩
    refine ⟨n, counted, ?_⟩
    rw [parsed]
    dsimp only
    rw [if_neg (by rw [width x]; exact Nat.not_lt.mpr small)]
    exact stored

theorem dataSend_ok_iff {c c' : Connection F} {text : List Char} :
    c.dataSend text = .ok c' ↔ ∃ c1 norms sorted low high,
      (emptied c).processParts []
        ((text.filter (fun ch => ch ≠ '\n' && ch ≠ '"' && ch ≠ '\r')).splitOn '>') =
          .ok (c1, norms) ∧
      sortNorms norms = .ok sorted ∧ index sorted (sorted.length * 3 / 10) = .ok low ∧
      index sorted (sorted.length * 7 / 10) = .ok high ∧
      c' = { c1 with lowSplitPoint := low, highSplitPoint := high } := by
  constructor
  · intro done
    obtain ⟨⟨c1, norms⟩, parts, done⟩ := bind_ok_iff.mp done
    obtain ⟨sorted, ordered, done⟩ := bind_ok_iff.mp done
    obtain ⟨low, lower, done⟩ := bind_ok_iff.mp done
    obtain ⟨high, upper, done⟩ := bind_ok_iff.mp done
    exact ⟨c1, norms, sorted, low, high, parts, ordered, lower, upper,
      (Except.ok.inj done).symm⟩
  · rintro ⟨c1, norms, sorted, low, high, parts, ordered, lower, upper, rfl⟩
    refine bind_ok_iff.mpr ⟨(c1, norms), parts, ?_⟩
    refine bind_ok_iff.mpr ⟨sorted, ordered, ?_⟩
    refine bind_ok_iff.mpr ⟨low, lower, ?_⟩
    exact bind_ok_iff.mpr ⟨high, upper, rfl⟩

end Load

end DmludpEffects
