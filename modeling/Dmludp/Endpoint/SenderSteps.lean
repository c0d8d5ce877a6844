import Dmludp.Endpoint.ReceiveEffects

/- The sending half of an endpoint as a transition system. Most calls leave it as it is or only
   withdraw marks; the others each have one case, with the datagram the call put out. Every
   invariant of the sender is a case analysis over these cases. -/
namespace DmludpSenderSteps
open ByteCursor RustOutcome OrderedMap DmludpPacket DmludpSend DmludpRecv DmludpRecovery
open DmludpConnection DmludpConnection.Connection DmludpCalls DmludpEffects DmludpReceiveEffects

variable {F : Type}

structure Loaded (c c' : Connection F) : Prop where
  frame : ∃ norms data low high, c' = { c with
    norm2Vec := norms
    sendDataVec := data
    lowSplitPoint := low
    highSplitPoint := high }
  fits : c'.sendDataVec.length ≤ isizeMax

theorem loaded_trans {a b c : Connection F} (first : Loaded a b) (second : Loaded b c) :
    Loaded a c := by
  obtain ⟨⟨n1, d1, l1, h1, rfl⟩, _⟩ := first
  obtain ⟨⟨n2, d2, l2, h2, rfl⟩, fits⟩ := second
  exact ⟨⟨n2, d2, l2, h2, rfl⟩, fits⟩

section Load
variable [Profile] [FloatOps F]

theorem storeFloats_loaded {items : List (List Char)} {c : Connection F} {norms norms' : List F}
    {norm : F} {it : Int} {c' : Connection F} (fits : c.sendDataVec.length ≤ isizeMax)
    (done : c.storeFloats norms norm it items = .ok (c', norms')) : Loaded c c' := by
  induction items generalizing c norms norm it with
  | nil =>
    simp only [storeFloats, Except.ok.injEq, Prod.mk.injEq] at done
    obtain ⟨rfl, _⟩ := done
    exact ⟨⟨_, _, _, _, rfl⟩, fits⟩
  | cons item items ih =>
    obtain ⟨n, x, _, _, small, done⟩ := storeFloats_cons_ok_iff.mp done
    have room : (c.sendDataVec ++ List.ofFn (FloatOps.toNeBytes x)).length ≤ isizeMax := by
      simpa using small
    split at done
    · obtain ⟨⟨n, d, l, h, rfl⟩, fits'⟩ := ih room done
      exact ⟨⟨n, d, l, h, rfl⟩, fits'⟩
    · exact loaded_trans ⟨⟨_, _, _, _, rfl⟩, room⟩ (ih room done)

theorem processParts_loaded {parts : List (List Char)} {c c' : Connection F}
    {norms norms' : List F} (fits : c.sendDataVec.length ≤ isizeMax)
    (done : c.processParts norms parts = .ok (c', norms')) : Loaded c c' := by
  induction parts generalizing c norms with
  | nil =>
    simp only [processParts, Except.ok.injEq, Prod.mk.injEq] at done
    obtain ⟨rfl, _⟩ := done
    exact ⟨⟨_, _, _, _, rfl⟩, fits⟩
  | cons part parts ih =>
    simp only [processParts] at done
    split at done
    · simp only [Except.ok.injEq, Prod.mk.injEq] at done
      obtain ⟨rfl, _⟩ := done
      exact ⟨⟨_, _, _, _, rfl⟩, fits⟩
    · obtain ⟨⟨c1, norms1⟩, first, rest⟩ := bind_ok_iff.mp done
      obtain ⟨data, _, first⟩ := bind_ok_iff.mp first
      obtain ⟨array, _, first⟩ := bind_ok_iff.mp first
      have loaded := storeFloats_loaded fits first
      exact loaded_trans loaded (ih loaded.fits rest)

theorem dataSend_loaded {c c' : Connection F} {text : List Char}
    (done : c.dataSend text = .ok c') : Loaded c c' := by
  obtain ⟨c1, norms, _, low, high, parts, _, _, _, rfl⟩ := dataSend_ok_iff.mp done
  obtain ⟨⟨n, d, l, h, rfl⟩, fits⟩ := processParts_loaded (Nat.zero_le _) parts
  exact ⟨⟨n, d, low, high, rfl⟩, fits⟩

end Load

def ReportsReceived (buf : Bytes) (o : Nat) : Prop :=
  26 ≤ buf.length ∧ (decodeHeader buf).ty = .ack ∧
    ∃ (head : UInt64) (ps : List (UInt64 × UInt64)),
      buf.drop 26 = u64Bytes head ++ ps.flatMap pairBytes ∧ ∃ p ∈ ps, p.1.toNat = o ∧ p.2 = 0

structure SenderKept (reason : Nat → Prop) (c c' : Connection F) : Prop where
  isServer : c'.isServer = c.isServer
  sentCount : c'.sentCount = c.sentCount
  sentPkt : c'.sentPkt = c.sentPkt
  ackPoint : c'.ackPoint = c.ackPoint
  stopFlag : c'.stopFlag = c.stopFlag
  stopAck : c'.stopAck = c.stopAck
  sentDic : c'.sentDic = c.sentDic
  pktNumSpaces : c'.pktNumSpaces = c.pktNumSpaces
  writtenData : c'.writtenData = c.writtenData
  totalOffset : c'.totalOffset = c.totalOffset
  sendDataVec : c'.sendDataVec = c.sendDataVec
  norm2Vec : c'.norm2Vec = c.norm2Vec
  lowSplitPoint : c'.lowSplitPoint = c.lowSplitPoint
  highSplitPoint : c'.highSplitPoint = c.highSplitPoint
  buffer : ∃ marks, c'.sendBuffer = { c.sendBuffer with offsetRecv := marks }
  keys : c'.sendBuffer.offsetRecv.keys = c.sendBuffer.offsetRecv.keys
  withdrawn : ∀ o, (o, false) ∈ c'.sendBuffer.offsetRecv.entries →
    (o, false) ∈ c.sendBuffer.offsetRecv.entries ∨ reason o

theorem senderKept_other {reason : Nat → Prop} {c : Connection F} {recvCount rtt handshake high : Nat}
    {completed confirmed recvFlag feedBack : Bool} {recovery : Recovery} {recBuffer : RecvBuf}
    {recvDic : HashMap UInt64 UInt8} {recvHashmap : HashMap UInt64 UInt64}
    {maxOff sendNum : UInt64} : SenderKept reason c { c with
      recvCount := recvCount
      rtt := rtt
      handshake := handshake
      highPriority := high
      handshakeCompleted := completed
      handshakeConfirmed := confirmed
      recvFlag := recvFlag
      feedBack := feedBack
      recovery := recovery
      recBuffer := recBuffer
      recvDic := recvDic
      recvHashmap := recvHashmap
      maxOff := maxOff
      sendNum := sendNum } := by
  constructor
  case buffer => exact ⟨_, rfl⟩
  case withdrawn => exact fun _ mem => Or.inl mem
  all_goals rfl

def Unmarked [Octets] (o : Reply) : Prop :=
  ∀ m, o.packet? = some m → headerOf? .application m = none ∧ headerOf? .elictAck m = none

theorem unmarked_none [Octets] {o : Reply} (silent : o.packet? = none) : Unmarked o := by
  intro m found
  rw [silent] at found
  cases found

theorem unmarked_header [Octets] {o : Reply} {h : Header} {rest : Bytes}
    (kind : h.ty = .handshake ∨ h.ty = .ack ∨ h.ty = .stop)
    (sent : o.packet? = some (h.encoded ++ rest)) : Unmarked o := by
  have sendable : h.ty ≠ .startAck := by
    rcases kind with kind | kind | kind <;> simp [kind]
  intro m found
  rw [sent, Option.some.injEq] at found
  subst found
  rw [headerOf?_encoded sendable, headerOf?_encoded sendable]
  rcases kind with kind | kind | kind <;> simp [kind]

theorem handshake_unmarked [Octets] (c : Connection F) (now : Nat) (out : Bytes) :
    Unmarked (.sendData (c.sendHandshake now out).out (c.sendHandshake now out).result) := by
  obtain ⟨_, _, _, ⟨e, nothing⟩ | hello⟩ := sendHandshake_effect c now out
  · exact unmarked_none (packetOf_error nothing)
  · exact unmarked_header (Or.inl rfl) (by rw [List.append_nil]; exact packetOf_puts hello)

theorem ackPacket_unmarked [Octets] {c : Connection F} (running : c.isStopped = false) (now : Nat)
    (order : IterOrder) (out : Bytes) :
    Unmarked (.sendData (c.sendAckPacket now order out).out
      (c.sendAckPacket now order out).result) := by
  rcases sendAckPacket_effect c now order out running with ⟨_, _, packet⟩ | ⟨_, _, result⟩
  · exact unmarked_header (Or.inr (Or.inl rfl)) (packetOf_puts packet)
  · exact unmarked_none (packetOf_error result)

theorem stop_unmarked [Octets] (c : Connection F) (out : Bytes) :
    Unmarked (.sendData (c.sendStop out).out (c.sendStop out).result) := by
  obtain ⟨_, ⟨e, nothing⟩ | farewell⟩ := sendStop_effect c out
  · exact unmarked_none (packetOf_error nothing)
  · exact unmarked_header (Or.inr (Or.inr rfl)) (by
      rw [List.append_nil]
      exact packetOf_puts farewell)

theorem spendBudget_ok_iff [Profile] {dic : HashMap Nat Nat} {off : Nat} {priority : UInt8} :
    (∃ dic', spendBudget dic off priority = .ok dic') ↔
      (Profile.overflowChecks = true → dic.lookup off ≠ some 0) := by
  unfold spendBudget
  cases found : dic.lookup off with
  | none => simp
  | some left =>
    constructor
    · rintro ⟨dic', spent⟩ checks
      obtain ⟨less, taken, _⟩ := bind_ok_iff.mp spent
      have positive := subWord_ok_iff.mp ⟨less, taken⟩ checks
      simp only [ne_eq, Option.some.injEq]
      omega
    · intro positive
      obtain ⟨less, taken⟩ : ∃ n, subWord left 1 = .ok n := by
        apply subWord_ok_iff.mpr
        intro checks
        have apart : left ≠ 0 := fun zero => positive checks (congrArg some zero)
        omega
      dsimp only
      rw [taken, ok_bind]
      exact ⟨_, rfl⟩

section Steps
variable [Profile] [FloatOps F]

def Withdrawal (c : Connection F) (a : Call) (o : Nat) : Prop :=
  c.sentDic.lookup o = some 0 ∨ ∃ now buf, a = .recvSlice now buf ∧ ReportsReceived buf.bytes o

inductive SenderStep [Octets] (c : Connection F) : Call → Reply → Connection F → Prop where
  | kept {a : Call} {o : Reply} {c' : Connection F} (same : SenderKept (Withdrawal c a) c c')
      (silent : Unmarked o) : SenderStep c a o c'
  | dataSend {text : List Char} {c' : Connection F} (loaded : Loaded c c') :
      SenderStep c (.dataSend text) .nothing c'
  | reset : SenderStep c .reset .nothing c.reset
  | write {c' : Connection F} {r : Except Error Nat} (wrote : WriteCase c (c', r)) :
      SenderStep c .write (.write r) c'
  | sendAll {now : Nat} {c' : Connection F} {r : Except Error Bool}
      (passed : SendAllCase c now (c', r)) : SenderStep c (.sendAll now) (.sendAll r) c'
  | query {now : Nat} {order : IterOrder} {out : Slice} {s : Sent F} (due : QueryDue c)
      (sent : sendElictAck { c with sentCount := 0 } out.bytes = .ok s) :
      SenderStep c (.sendData now order out) (.sendData s.out s.result) s.conn
  | application {now : Nat} {order : IterOrder} {out : Slice} {s : Sent F} (quiet : ¬ QueryDue c)
      (awake : c.rtt ≠ 0) (sent : AppCase c now out.bytes s) :
      SenderStep c (.sendData now order out) (.sendData s.out s.result) s.conn

theorem recvSlice_kept {c c' : Connection F} {now : Nat} {buf : Slice} {r : Except Error Nat}
    (received : RecvCase c now buf.bytes (c', r)) :
    SenderKept (Withdrawal c (.recvSlice now buf)) c c' := by
  cases received with
  | ack complete kind server acked =>
    obtain ⟨head, ps, layout, c1, maxOff, recovery, marked, same⟩ := processAck_effect acked
    obtain ⟨⟨marks, high, eq⟩, keys, withdrawn⟩ := marked
    subst eq same
    constructor
    case buffer => exact ⟨marks, rfl⟩
    case keys => exact keys
    case withdrawn =>
      intro o mem
      rcases withdrawn o mem with old | spent | reported
      · exact Or.inl old
      · exact Or.inr (Or.inl spent)
      · exact Or.inr (Or.inr ⟨now, buf, rfl, complete, kind, head, ps, layout, reported⟩)
    all_goals rfl
  | short _ _ | silent _ _ _ _ | handshakeServer _ _ _ _ | handshakeClient _ _ _
    | elictAck _ _ _ _ | application _ _ _ => exact senderKept_other

variable [Octets]

theorem sendData_steps {c : Connection F} {now : Nat} {order : IterOrder} {out : Slice}
    {s : Sent F} (sent : SendCase c now order out.bytes s) :
    SenderStep c (.sendData now order out) (.sendData s.out s.result) s.conn := by
  cases sent with
  | empty none_given => exact .kept senderKept_other (unmarked_none rfl)
  | idle asleep => exact .kept senderKept_other (unmarked_none rfl)
  | handshake completed confirmed due =>
    obtain ⟨stamp, back, conn, _⟩ := sendHandshake_effect { c with
      handshakeCompleted := completed
      handshakeConfirmed := confirmed } now out.bytes
    refine .kept ?_ (handshake_unmarked _ now out.bytes)
    rw [conn]
    exact senderKept_other
  | elictAck due sent => exact .query due sent
  | ack quiet asked =>
    have running : isStopped { c with recvFlag := false } = false := by
      simp [isStopped, running_of_quiet quiet]
    refine .kept ?_ (ackPacket_unmarked running now order out.bytes)
    rcases sendAckPacket_effect _ now order out.bytes running with ⟨_, conn, _⟩ | ⟨_, conn, _⟩
    · rw [conn]
      exact senderKept_other
    · rw [conn]
      exact senderKept_other
  | application quiet awake sent => exact .application quiet awake (sendApplication_cases sent)
  | stop asleep drained =>
    refine .kept ?_ (stop_unmarked c out.bytes)
    rw [(sendStop_effect c out.bytes).1]
    exact senderKept_other

/-- What the Application branch wants of a state and of the length of the buffer: room for a
    header, counters that cover the chunk it copies, a norm for its block and budget left. -/
def ApplicationReady (c : Connection F) (room : Nat) : Prop :=
  26 ≤ room ∧
    (Profile.overflowChecks = true → sendBufferSize ≤ room - 26 →
      ∀ b rest, c.sendBuffer.data.drop c.sendBuffer.pos = b :: rest →
        b.data.length ≤ c.sendBuffer.len ∧ b.data.length ≤ c.sendBuffer.usedLength) ∧
    ∃ off, c.sendBuffer.offFront = .ok off ∧ (off < c.writtenData →
      off / 1024 < c.norm2Vec.length ∧
        (Profile.overflowChecks = true → c.sentDic.lookup off ≠ some 0))

theorem sendApplication_returns_iff {c : Connection F} {now : Nat} {out : Bytes}
    (cut : ∀ b ∈ c.sendBuffer.data, SendBuf.Cut b) :
    (∃ s, c.sendApplication now out = .ok s) ↔ ApplicationReady c out.length := by
  have width : (out.drop 26).length = out.length - 26 := List.length_drop
  constructor
  · rintro ⟨s, sent⟩
    cases sendApplication_cases sent with
    | nothing room emitted past =>
      have low := SendBuf.emit_front emitted
      have covered := (SendBuf.emit_returns_iff cut low).mp ⟨_, _, _, _, emitted⟩
      rw [width] at covered
      exact ⟨room, covered, _, low, fun inside => absurd inside (Nat.not_lt.mpr past)⟩
    | packet room emitted inside norm spent =>
      have low := SendBuf.emit_front emitted
      have covered := (SendBuf.emit_returns_iff cut low).mp ⟨_, _, _, _, emitted⟩
      rw [width] at covered
      exact ⟨room, covered, _, low, fun _ =>
        ⟨priorityCalculation_ok_iff.mp ⟨_, norm⟩, spendBudget_ok_iff.mp ⟨_, spent⟩⟩⟩
  · rintro ⟨room, covered, off, low, ready⟩
    rw [← width] at covered
    obtain ⟨sendBuffer, body, n, stop, emitted⟩ := (SendBuf.emit_returns_iff cut low).mpr covered
    unfold sendApplication
    rw [sliceFrom_fits room, ok_bind, emitted, ok_bind]
    dsimp only
    split
    · exact ⟨_, rfl⟩
    · rename_i inside
      obtain ⟨block, budget⟩ := ready (Nat.lt_of_not_le inside)
      obtain ⟨priority, norm⟩ := priorityCalculation_ok_iff.mpr block
      obtain ⟨dic, spent⟩ := spendBudget_ok_iff.mpr budget
      have norm' : priorityCalculation { c with
          sendBuffer := sendBuffer
          sentCount := c.sentCount + 1
          sentNumber := c.sentNumber + 1 } off = .ok priority := norm
      rw [norm', ok_bind, spent, ok_bind]
      split <;> exact ⟨_, rfl⟩

theorem sender_step {c c' : Connection F} {a : Call} {o : Reply}
    (taken : step c a = .ok (c', o)) : SenderStep c a o c' := by
  cases step_cases taken with
  | dataSend done => exact .dataSend (dataSend_loaded done)
  | sendAll done => exact .sendAll (sendAll_cases done)
  | sendData done => exact sendData_steps (sendData_cases done)
  | recvSlice done => exact .kept (recvSlice_kept (recvSlice_cases done)) (unmarked_none rfl)
  | write done => exact .write (write_effect done)
  | reset => exact .reset
  | checkLoss done =>
    obtain ⟨ws, _, rfl⟩ := checkLoss_effect done
    exact .kept senderKept_other (unmarked_none rfl)
  | read _ | newRtt | setHandshake => exact .kept senderKept_other (unmarked_none rfl)

end Steps

end DmludpSenderSteps
