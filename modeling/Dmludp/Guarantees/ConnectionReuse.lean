import Dmludp.Guarantees.FlushTermination
import Dmludp.Guarantees.SendingHalf
import Dmludp.Guarantees.TextLoading
import Dmludp.Guarantees.WindowFloor

/- A second data set on a used server. `reset` empties the send buffer and `data_send` replaces
   the data, but `written_data`, `total_offset` and the books of the first transfer stay. The
   second transfer is that of a server fresh from its handshake just when the first one has not
   written anything, and the server can send at all. -/
namespace DmludpReuse
open ByteCursor RustOutcome TracedRun StreamTiling DmludpPacket DmludpRange DmludpSend
open DmludpRecovery DmludpConnection DmludpConnection.Connection DmludpCalls DmludpEffects
open DmludpReceiveEffects DmludpSenderSteps DmludpSegmentation DmludpPacketIntegrity
open DmludpSendRetry DmludpFlush DmludpWindowFloor DmludpTextLoading DmludpSendingHalf
open DmludpReference

variable {F : Type}

def withData (d c : Connection F) : Connection F :=
  { d with
    norm2Vec := c.norm2Vec
    sendDataVec := c.sendDataVec
    lowSplitPoint := c.lowSplitPoint
    highSplitPoint := c.highSplitPoint }

section Load
variable [Profile] [FloatOps F]

theorem storeFloats_withData {items : List (List Char)} {c c' : Connection F}
    {norms norms' : List F} {norm : F} {it : Int} (d : Connection F)
    (done : c.storeFloats norms norm it items = .ok (c', norms')) :
    (withData d c).storeFloats norms norm it items = .ok (withData d c', norms') := by
  induction items generalizing c norms norm it with
  | nil =>
    cases done
    rfl
  | cons item items ih =>
    obtain ⟨n, x, counted, parsed, small, later⟩ := storeFloats_cons_ok_iff.mp done
    refine storeFloats_cons_ok_iff.mpr ⟨n, x, counted, parsed, small, ?_⟩
    split at later
    · rename_i boundary
      rw [if_pos boundary]
      exact ih later
    · rename_i midway
      rw [if_neg midway]
      exact ih later

theorem processParts_withData {parts : List (List Char)} {c c' : Connection F}
    {norms norms' : List F} (d : Connection F)
    (done : c.processParts norms parts = .ok (c', norms')) :
    (withData d c).processParts norms parts = .ok (withData d c', norms') := by
  induction parts generalizing c norms with
  | nil =>
    cases done
    rfl
  | cons part parts ih =>
    simp only [processParts] at done ⊢
    split at done
    · rename_i ended
      rw [if_pos ended]
      cases done
      rfl
    · rename_i goes_on
      rw [if_neg goes_on]
      obtain ⟨⟨c1, norms1⟩, first, rest⟩ := bind_ok_iff.mp done
      unfold processString at first ⊢
      obtain ⟨data, opened, first⟩ := bind_ok_iff.mp first
      obtain ⟨array, closed, first⟩ := bind_ok_iff.mp first
      rw [opened, ok_bind, closed, ok_bind]
      dsimp only at first ⊢
      rw [storeFloats_withData d first, ok_bind]
      exact ih rest

theorem dataSend_withData {text : List Char} {c c' : Connection F} (d : Connection F)
    (done : c.dataSend text = .ok c') : d.dataSend text = .ok (withData d c') := by
  obtain ⟨c1, norms, sorted, low, high, parts, ordered, lower, upper, rfl⟩ :=
    dataSend_ok_iff.mp done
  exact dataSend_ok_iff.mpr ⟨withData d c1, norms, sorted, low, high,
    processParts_withData d parts, ordered, lower, upper, rfl⟩

end Load

/-- The calls of a server in its handshake: it sends, and Handshake datagrams arrive. -/
def HandshakeCall [Octets] (_ : Connection F) : Call → Prop
  | .sendData _ _ _ => True
  | .recvSlice _ buf => headerOf? .handshake buf.bytes ≠ none
  | _ => False

def Handshaken [Octets] [Profile] [FloatOps F] (f : Connection F) : Prop :=
  f.rtt ≠ 0 ∧ ∃ localaddr peeraddr birth trace,
    Run step HandshakeCall (Connection.accept localaddr peeraddr birth) trace f

def paced (f c : Connection F) : Connection F :=
  { f with
    recovery := c.recovery
    highPriority := c.highPriority
    sentNumber := c.sentNumber }

structure Unwritten (c : Connection F) : Prop extends Unused c where
  fits : c.sendDataVec.length ≤ isizeMax
  alive : c.sendBuffer.error = none

structure Newborn (f : Connection F) : Prop extends Unused f where
  nothing : f.sendDataVec = []
  start : f.sendBuffer.pos = 0
  alive : f.sendBuffer.error = none
  server : f.isServer = true
  unrequested : f.recvFlag = false

section Handshake
variable [Octets] [Profile] [FloatOps F]

theorem newborn_sendData {f : Connection F} {now : Nat} {order : IterOrder} {out : Bytes}
    {s : Sent F} (born : Newborn f) (sent : SendCase f now order out s) :
    s.conn.sendBuffer.pos = 0 ∧ s.conn.sendBuffer.error = none ∧ s.conn.isServer = true ∧
      s.conn.recvFlag = false := by
  obtain ⟨⟨queue, _, _, writtenData, _, _, _, sentCount, _, _, running, _⟩, _, start, alive,
    server, unrequested⟩ := born
  cases sent with
  | empty _ => exact ⟨start, alive, server, unrequested⟩
  | idle _ => exact ⟨start, alive, server, unrequested⟩
  | handshake completed confirmed _ =>
    obtain ⟨_, _, conn, _⟩ := sendHandshake_effect { f with
      handshakeCompleted := completed
      handshakeConfirmed := confirmed } now out
    rw [conn]
    exact ⟨start, alive, server, unrequested⟩
  | elictAck due _ => simp [QueryDue, sentCount, running] at due
  | ack _ asked =>
    rw [unrequested] at asked
    cases asked
  | application _ _ sent =>
    have room : 26 ≤ out.length := by
      cases sendApplication_cases sent with
      | nothing room _ _ => exact room
      | packet room _ _ _ _ => exact room
    have past : f.writtenData ≤ f.sendBuffer.off := by
      rw [writtenData]
      exact Nat.zero_le _
    rw [application_blank queue start past room, Except.ok.injEq] at sent
    subst sent
    exact ⟨start, alive, server, unrequested⟩
  | stop _ _ =>
    rw [(sendStop_effect f out).1]
    exact ⟨start, alive, server, unrequested⟩

theorem newborn_recvSlice {f f' : Connection F} {now : Nat} {buf : Bytes} {r : Except Error Nat}
    (born : Newborn f) (hello : headerOf? .handshake buf ≠ none)
    (received : RecvCase f now buf (f', r)) :
    f'.sendBuffer.pos = 0 ∧ f'.sendBuffer.error = none ∧ f'.isServer = true ∧
      f'.recvFlag = false := by
  have kind (complete : 26 ≤ buf.length) : (decodeHeader buf).ty = .handshake := by
    rw [headerOf?_complete complete] at hello
    by_contra other
    rw [if_neg other] at hello
    exact hello rfl
  obtain ⟨_, _, start, alive, server, unrequested⟩ := born
  cases received with
  | ack complete acked _ _ =>
    rw [kind complete] at acked
    cases acked
  | elictAck _ complete asked _ =>
    rw [kind complete] at asked
    cases asked
  | short _ _ | silent _ _ _ _ | handshakeServer _ _ _ _ | handshakeClient _ _ _
    | application _ _ _ => exact ⟨start, alive, server, unrequested⟩

theorem step_newborn {f f' : Connection F} {a : Call} {o : Reply} (born : Newborn f)
    (may : HandshakeCall f a) (taken : step f a = .ok (f', o)) : Newborn f' := by
  have serves : ServerCall f a := by
    cases a with
    | sendData _ _ _ | recvSlice _ _ => exact trivial
    | dataSend _ | sendAll _ | read _ | write | reset | checkLoss _ | newRtt _ | setHandshake _ =>
      exact may.elim
  obtain ⟨unused, nothing⟩ := step_unused born.toUnused born.nothing serves (sender_step taken)
  have rest : f'.sendBuffer.pos = 0 ∧ f'.sendBuffer.error = none ∧ f'.isServer = true ∧
      f'.recvFlag = false := by
    cases step_cases taken with
    | sendData done => exact newborn_sendData born (sendData_cases done)
    | recvSlice done => exact newborn_recvSlice born may (recvSlice_cases done)
    | dataSend _ | sendAll _ | read _ | write _ | reset | checkLoss _ | newRtt | setHandshake =>
      exact may.elim
  exact ⟨unused, nothing, rest.1, rest.2.1, rest.2.2.1, rest.2.2.2⟩

theorem handshaken_newborn {f : Connection F} (fresh : Handshaken f) : Newborn f := by
  obtain ⟨_, localaddr, peeraddr, birth, trace, run⟩ := fresh
  have born : Newborn (Connection.accept localaddr peeraddr birth : Connection F) := by
    constructor
    case toUnused => constructor <;> rfl
    all_goals rfl
  exact state_invariant Newborn born (fun _ _ _ _ before may taken =>
    step_newborn before may taken) run

end Handshake

section Fresh
variable [Profile] [FloatOps F]

theorem reset_unwritten {c loaded : Connection F} {text : List Char} (before : Unwritten c)
    (loads : c.reset.dataSend text = .ok loaded) : Unwritten loaded := by
  obtain ⟨⟨_, marks, _, writtenData, totalOffset, sentPkt, ackPoint, sentCount, sentDic, number,
    running, unasked⟩, _, alive⟩ := before
  obtain ⟨⟨norms, data, low, high, rfl⟩, fits⟩ := dataSend_loaded loads
  exact ⟨⟨rfl, marks, rfl, writtenData, totalOffset, sentPkt, ackPoint, sentCount, sentDic, number,
    running, unasked⟩, fits, alive⟩

theorem reset_alike {c f loaded : Connection F} {text : List Char} (before : Unwritten c)
    (ready : Ready c) (born : Newborn f) (awake : f.rtt ≠ 0)
    (loads : c.reset.dataSend text = .ok loaded) : Alike loaded (withData (paced f c) loaded) := by
  obtain ⟨⟨_, marks, _, writtenData, totalOffset, sentPkt, ackPoint, sentCount, sentDic, _,
    running, unasked⟩, _, alive⟩ := before
  obtain ⟨⟨queue', marks', off', writtenData', totalOffset', sentPkt', ackPoint', sentCount',
    sentDic', _, running', unasked'⟩, _, start', alive', server', unrequested'⟩ := born
  obtain ⟨⟨norms, data, low, high, rfl⟩, _⟩ := dataSend_loaded loads
  refine ⟨⟨ready.server, ready.awake, ready.unasked⟩, ⟨server', awake, unrequested'⟩, f,
    f.sendBuffer, ?_, bufferAlike_blank rfl rfl (Nat.le_of_eq writtenData) queue' start' off'
      (alive'.trans alive.symm) ?_⟩
  · simp only [withData, paced, dressed, Connection.reset, writtenData, totalOffset, sentPkt,
      ackPoint, sentCount, sentDic, running, unasked, writtenData', totalOffset', sentPkt',
      ackPoint', sentCount', sentDic', running', unasked', server', ready.server]
  · exact (OrderedMap.OrdMap.eq_empty marks').trans (OrderedMap.OrdMap.eq_empty marks).symm

theorem sendAll_write_iff {c c' : Connection F} {now : Nat} {r : Except Error Bool}
    (more : c.writtenData < c.sendDataVec.length) : c.sendAll now = .ok (c', r) ↔
      ∃ recovery w n sendBuffer, nextWindow c.recovery (highRatio c) = .ok (recovery, w) ∧
        c.sendBuffer.write (c.sendDataVec.drop c.writtenData) w
          ((sendBufferSize - c.totalOffset % sendBufferSize) % sendBufferSize) c.maxOff =
            .ok (sendBuffer, .ok n) ∧ r = .ok true ∧ c' = { c with
          stopFlag := false
          stopAck := false
          handshake := now
          highPriority := 0
          sentNumber := 0
          recovery := recovery
          sendBuffer := sendBuffer
          writtenData := c.writtenData + n
          totalOffset := c.totalOffset + n } := by
  rw [sendAll_writes (Or.inl more)]
  constructor
  · intro done
    obtain ⟨⟨c1, written⟩, wrote, done⟩ := bind_ok_iff.mp done
    obtain ⟨recovery, w, sendBuffer, chosen, _, stored, rfl⟩ := write_ok_iff.mp wrote
    cases written with
    | error e => cases done
    | ok n =>
      cases done
      exact ⟨recovery, w, n, sendBuffer, chosen, stored, rfl, rfl⟩
  · rintro ⟨recovery, w, n, sendBuffer, chosen, stored, rfl, rfl⟩
    refine bind_ok_iff.mpr ⟨_, write_ok_iff.mpr ⟨recovery, w, sendBuffer, chosen,
      Nat.le_of_lt more, stored, rfl⟩, rfl⟩

theorem unrecorded_window {c : Connection F} (unrecorded : c.recovery.formerWinVecter = ∅)
    {r : Recovery} {w : Nat} (chosen : nextWindow c.recovery (highRatio c) = .ok (r, w)) :
    windowFloor ≤ w := by
  by_cases back : RollsBack c
  · rw [nextWindow_rollback back, Except.ok.injEq] at chosen
    have high := (rollback_high (Or.inl unrecorded)).1
    rw [chosen] at high
    exact high
  · rw [nextWindow_cwnd back] at chosen
    exact (cwnd_effect chosen).1

end Fresh

section Runs
variable [Octets] [Profile] [FloatOps F]

theorem step_alive {c c' : Connection F} {a : Call} {o : Reply} (may : ServerCall c a)
    (taken : SenderStep c a o c') : c'.sendBuffer.error = c.sendBuffer.error ∧
      c.writtenData ≤ c'.writtenData := by
  cases taken with
  | kept same _ =>
    obtain ⟨marks, buffer⟩ := same.buffer
    rw [buffer, same.writtenData]
    exact ⟨rfl, Nat.le_refl _⟩
  | dataSend _ => exact may.elim
  | reset => exact may.elim
  | write _ => exact may.elim
  | sendAll passed =>
    cases passed with
    | drained _ _ => exact ⟨rfl, Nat.le_refl _⟩
    | wrote _ stored => exact ⟨SendBuf.write_error stored, Nat.le_add_right _ _⟩
  | query due sent =>
    obtain ⟨_, _, _, conn, _⟩ := sendElictAck_frame sent
    rw [conn]
    exact ⟨rfl, Nat.le_refl _⟩
  | application _ _ sent =>
    have kept := application_kept sent
    obtain ⟨_, _, _, _, buffer⟩ := kept.buffer
    rw [buffer, kept.writtenData]
    exact ⟨rfl, Nat.le_refl _⟩

theorem step_stays_unwritten {c c' : Connection F} {a : Call} {o : Reply}
    (before : Unwritten c) (may : ServerCall c a) (taken : SenderStep c a o c')
    (still : c'.writtenData = 0) : Unwritten c' := by
  obtain ⟨unused, data⟩ := step_unwritten before.toUnused before.fits may taken still
  refine ⟨unused, ?_, (step_alive may taken).1.trans before.alive⟩
  rw [data]
  exact before.fits

theorem session_alive {c : Connection F} (session : Session c) : c.sendBuffer.error = none := by
  obtain ⟨localaddr, peeraddr, birth, earlier, idle, text, run, sent⟩ := session
  have alive := state_invariant (fun c => c.sendBuffer.error = none) rfl
    (fun _ _ _ _ before may taken => (step_alive may (sender_step taken)).1.trans before) run
  obtain ⟨⟨_, _, _, _, rfl⟩, _⟩ := dataSend_loaded sent
  exact alive

theorem run_unwritten {c0 : Connection F} (session : Session c0) {trace : Trace F}
    {c : Connection F} (run : Run step ServerCall c0 trace c) (unsent : c.writtenData = 0) :
    Unwritten c := by
  obtain ⟨unused, fits⟩ := session_unused session
  refine run_invariant (fun _ c => c.writtenData = 0 → Unwritten c)
    (fun _ => ⟨unused, fits, session_alive session⟩) ?_ run unsent
  intro _ s a o s' _ before may taken still
  have moved := sender_step taken
  have grows := (step_alive may moved).2
  exact step_stays_unwritten (before (by omega)) may moved still

theorem opening_packet {c c1 : Connection F} (unwritten : Unwritten c) (ready : Ready c)
    (start : c.sendBuffer.pos = 0) (unrecorded : c.recovery.formerWinVecter = ∅)
    (some_data : 0 < c.sendDataVec.length) (normed : c.norm2Vec ≠ []) {now later : Nat}
    {order : IterOrder} {out : Slice} (room : 1350 ≤ out.bytes.length) {r : Except Error Bool}
    (passed : c.sendAll now = .ok (c1, r)) :
    ∃ s priority, c1.sendData later order out.bytes = .ok s ∧
      content (.sendData s.out s.result) = [(0, priority, c.sendDataVec.take 1024)] := by
  have taken : step c (.sendAll now) = .ok (c1, .sendAll r) := bind_ok_iff.mpr ⟨_, passed, rfl⟩
  have may : RoomyServerCall c (.sendAll now) := ⟨trivial, trivial⟩
  have numbered := (step_carries (unused_numbered unwritten.toUnused unwritten.fits) may
    (sender_step taken)).numbered
  obtain ⟨queue, _, off, writtenData, totalOffset, _, _, sentCount, sentDic, _⟩ :=
    unwritten.toUnused
  obtain ⟨recovery, w, n, sendBuffer, chosen, stored, _, conn⟩ :=
    (sendAll_write_iff (by rw [writtenData]; exact some_data)).mp passed
  have floor := unrecorded_window unrecorded chosen
  simp only [windowFloor, packetSize, initialWindowPackets] at floor
  have aligned : (sendBufferSize - c.totalOffset % sendBufferSize) % sendBufferSize = 0 := by
    rw [totalOffset]
    rfl
  rw [aligned, writtenData, List.drop_zero] at stored
  obtain ⟨_, pos, chunked⟩ := SendBuf.write_first queue stored (by omega)
  obtain ⟨b, rest, front, first, bytes⟩ := chunked some_data
  have head : c1.sendBuffer.data.drop c1.sendBuffer.pos = b :: rest := by
    rw [conn]
    dsimp only
    rw [pos, start, List.drop_zero, front]
  have running : c1.stopFlag = false := by rw [conn]
  have unasked : c1.stopAck = false := by rw [conn]
  have quiet : ¬ QueryDue c1 := by
    rw [conn]
    simp [QueryDue, sentCount]
  have ready' : Ready c1 := by
    rw [conn]
    exact ⟨ready.server, ready.awake, ready.unasked⟩
  have filled : out.bytes ≠ [] := List.length_pos_iff.mp (by omega)
  have queued : ∀ b ∈ c1.sendBuffer.data, SendBuf.Queued b :=
    fun b mem => (numbered.stream.queued b mem).1
  have here : b ∈ c1.sendBuffer.data := List.mem_of_mem_drop (by rw [head]; exact List.mem_cons_self)
  have goes : ApplicationReady c1 out.bytes.length := by
    refine ⟨by omega, fun _ _ => DmludpSendAccounting.ahead_front (numbered.accounts.ahead running),
      b.off, SendBuf.offFront_chunk (queued b here) head, fun _ => ⟨?_, fun _ => ?_⟩⟩
    · rw [first, off, conn]
      exact List.length_pos_iff.mpr normed
    · rw [conn]
      dsimp only
      rw [sentDic]
      simp
  have returns : ∃ s, c1.sendApplication later out.bytes = .ok s :=
    (sendApplication_returns_iff fun b mem => SendBuf.queued_cut (queued b mem)).mpr goes
  obtain ⟨s, sent⟩ := returns
  rw [sendData_ready ready' filled, if_neg quiet, sent]
  cases application_served numbered.stream unasked (sendApplication_cases sent) with
  | nothing beyond _ _ =>
    rw [List.drop_eq_nil_of_le beyond] at head
    cases head
  | @chunk b' _ priority _ _ _ _ _ _ front' _ _ puts whole _ _ _ =>
    rw [front', List.cons.injEq] at head
    obtain ⟨rfl, _⟩ := head
    obtain ⟨rfl, rfl, _⟩ := whole (by omega)
    refine ⟨s, priority, rfl, ?_⟩
    have number : UInt64.ofNat b'.off = 0 := by
      rw [first, off]
      rfl
    simp only [content, packet?_sendData, packetOf_puts puts, headerOf?_application,
      List.drop_left' (encoded_length _)]
    rw [← bytes, ← number]
    rfl

def Started (c : Connection F) : Prop :=
  (c.writtenData = 0 ∧ c.recovery.formerWinVecter = ∅) ∨ 1020 ≤ c.writtenData

theorem step_started {c c' : Connection F} {a : Call} {o : Reply} (started : Started c)
    (unwritten : c.writtenData = 0 → Unwritten c) (size : 1020 ≤ c.sendDataVec.length)
    (may : ServerCall c a) (taken : step c a = .ok (c', o)) : Started c' := by
  have moved := sender_step taken
  rcases started with ⟨zero, unrecorded⟩ | begun
  · cases enters : entersWrite c a with
    | true =>
      cases a with
      | sendAll now =>
        cases step_cases taken with
        | sendAll done =>
          have totalOffset := (unwritten zero).totalOffset
          obtain ⟨recovery, w, n, sendBuffer, chosen, stored, _, rfl⟩ :=
            (sendAll_write_iff (by omega)).mp done
          have floor := unrecorded_window unrecorded chosen
          simp only [windowFloor, packetSize, initialWindowPackets] at floor
          rw [totalOffset] at stored
          have enough := (SendBuf.write_first (unwritten zero).queue stored (by omega)).1
          rw [List.length_drop] at enough
          right
          dsimp only
          omega
      | sendData _ _ _ | recvSlice _ _ => cases enters
      | dataSend _ | read _ | write | reset | checkLoss _ | newRtt _ | setHandshake _ =>
        exact may.elim
    | false =>
      have still : c'.writtenData = c.writtenData := by
        cases moved with
        | kept same _ => exact same.writtenData
        | sendAll _ =>
          have more : c.writtenData < c.sendDataVec.length := by omega
          simp [entersWrite, more] at enters
        | query _ sent =>
          obtain ⟨_, _, _, conn, _⟩ := sendElictAck_frame sent
          rw [conn]
        | application _ _ sent => exact (application_kept sent).writtenData
        | dataSend _ | reset | write _ => exact may.elim
      rcases step_former taken with ⟨entered, _⟩ | ⟨_, kept⟩
      · rw [enters] at entered
        cases entered
      · exact Or.inl ⟨still.trans zero, kept.trans unrecorded⟩
  · exact Or.inr (begun.trans (step_alive may moved).2)

theorem session_started {c : Connection F} (session : Session c) : Started c := by
  obtain ⟨localaddr, peeraddr, birth, earlier, idle, text, run, sent⟩ := session
  have fresh : Unused (Connection.accept localaddr peeraddr birth : Connection F) := by
    constructor <;> rfl
  obtain ⟨unused, _, unrecorded⟩ := state_invariant
    (fun c => Unused c ∧ c.sendDataVec = [] ∧ c.recovery.formerWinVecter = ∅) ⟨fresh, rfl, rfl⟩
    (fun s a s' o before may taken => by
      obtain ⟨unused, nothing, unrecorded⟩ := before
      obtain ⟨unused', nothing'⟩ := step_unused unused nothing may (sender_step taken)
      refine ⟨unused', nothing', ?_⟩
      rcases step_former taken with ⟨enters, _⟩ | ⟨_, kept⟩
      · cases a with
        | sendAll _ => simp [entersWrite, nothing, unused.queue] at enters
        | sendData _ _ _ | recvSlice _ _ => cases enters
        | dataSend _ | read _ | write | reset | checkLoss _ | newRtt _ | setHandshake _ =>
          exact may.elim
      · exact kept.trans unrecorded) run
  obtain ⟨⟨_, _, _, _, rfl⟩, _⟩ := dataSend_loaded sent
  exact Or.inl ⟨unused.writtenData, unrecorded⟩

theorem session_server_side {c : Connection F} (session : Session c) : c.isServer = true := by
  obtain ⟨localaddr, peeraddr, birth, earlier, idle, text, run, sent⟩ := session
  have server := state_invariant (fun c => c.isServer = true) rfl
    (fun _ _ _ _ server _ taken => (step_side (sender_step taken)).trans server) run
  obtain ⟨⟨_, _, _, _, rfl⟩, _⟩ := dataSend_loaded sent
  exact server

theorem run_started {c0 : Connection F} (session : Session c0) {trace : Trace F}
    {c : Connection F} (run : Run step ServerCall c0 trace c) :
    Started c ∧ c.isServer = true := by
  have size : 1020 ≤ c0.sendDataVec.length := by
    obtain ⟨_, _, _, _, idle, text, _, sent⟩ := session
    exact loaded_size sent
  obtain ⟨unused, fits⟩ := session_unused session
  obtain ⟨_, _, started, server⟩ := state_invariant (fun c => Stream c0.sendDataVec c ∧
    (c.writtenData = 0 → Unwritten c) ∧ Started c ∧ c.isServer = true)
    ⟨session_stream session, fun _ => ⟨unused, fits, session_alive session⟩,
      session_started session, session_server_side session⟩
    (fun s a s' o before may taken => by
      obtain ⟨stream, unwritten, started, server⟩ := before
      have moved := sender_step taken
      obtain ⟨_, _, grown⟩ := step_grown stream may moved
      refine ⟨grown.stream, fun still => ?_, ?_, (step_side moved).trans server⟩
      · have grows := (step_alive may moved).2
        exact step_stays_unwritten (unwritten (by omega)) may moved still
      · exact step_started started unwritten (by rw [stream.data]; exact size) may taken) run
  exact ⟨started, server⟩

/-- An empty queue makes packets of whatever the output buffer held. -/
theorem empty_content {c : Connection F} (server : c.isServer = true)
    (empty : c.sendBuffer.data = []) (start : c.sendBuffer.pos = 0) {now : Nat}
    {order : IterOrder} {out : Bytes} (filled : out ≠ []) {s : Sent F}
    (done : c.sendData now order out = .ok s) :
    ∀ p ∈ content (.sendData s.out s.result), p.2.2.length = out.length - 26 := by
  by_cases ready : c.rtt ≠ 0 ∧ c.recvFlag = false
  · rw [sendData_ready ⟨server, ready.1, ready.2⟩ filled] at done
    split at done
    · have silent : content (.sendData s.out s.result) = [] := content_none (query_unnumbered done).2
      rw [silent]
      exact fun _ mem => absurd mem List.not_mem_nil
    · cases sendApplication_cases done with
      | nothing _ _ _ => exact fun _ mem => absurd mem List.not_mem_nil
      | @packet _ body n _ _ _ _ _ emitted _ _ _ =>
        rw [emit_blank empty start] at emitted
        cases emitted
        rw [content_finished rfl (Nat.le_refl _)]
        intro p mem
        split at mem
        · cases mem
        · rw [List.mem_singleton.mp mem, List.take_length, List.length_drop]
  · have busy : c.rtt = 0 ∨ c.recvFlag = true := by
      rw [not_and_or, not_not, Bool.not_eq_false] at ready
      exact ready
    rw [content_unready server busy done]
    exact fun _ mem => absurd mem List.not_mem_nil

theorem observe_opening {c loaded : Connection F} {text : List Char}
    (loads : c.reset.dataSend text = .ok loaded) {now later : Nat} {order : IterOrder}
    {out : Slice} {seen : List (UInt64 × UInt8 × Bytes)} :
    observe step content c [.reset, .dataSend text, .sendAll now, .sendData later order out] =
        some seen ↔
      ∃ c1 r s, loaded.sendAll now = .ok (c1, r) ∧ c1.sendData later order out.bytes = .ok s ∧
        seen = content (.sendData s.out s.result) := by
  have first : step c .reset = .ok (c.reset, .nothing) := rfl
  have second : step c.reset (.dataSend text) = .ok (loaded, .nothing) :=
    bind_ok_iff.mpr ⟨loaded, loads, rfl⟩
  have silent : content .nothing = [] := rfl
  simp only [observe, first, second, silent, List.nil_append, Option.map_id']
  constructor
  · intro sees
    split at sees
    · cases sees
    · rename_i c1 o passed
      cases step_cases passed with
      | @sendAll _ _ r done =>
        split at sees
        · cases sees
        · rename_i c2 o' sent
          cases step_cases sent with
          | @sendData _ _ _ s done' =>
            simp only [Option.map_some, List.append_nil, Option.some.injEq] at sees
            exact ⟨c1, r, s, done, done', sees.symm⟩
  · rintro ⟨c1, r, s, done, done', rfl⟩
    have passed : step loaded (.sendAll now) = .ok (c1, .sendAll r) :=
      bind_ok_iff.mpr ⟨_, done, rfl⟩
    have sent : step c1 (.sendData later order out) = .ok (s.conn, .sendData s.out s.result) :=
      bind_ok_iff.mpr ⟨_, done', rfl⟩
    have none_sent : content (.sendAll r) = [] := rfl
    simp only [passed, sent, none_sent, Option.map_some, List.append_nil, List.nil_append]

/-- A second data set goes out as a first one would. It makes the same Application packets as on
    a server fresh from its handshake with the same windows, in every sequence of sending calls;
    its first packet has the first bytes of the data; and in every run its chunks tile the data
    from offset 0, all of it once `send_all` has no more. -/
structure Reusable (c : Connection F) : Prop where
  same : ∀ f, Handshaken f → ∀ text calls, (∀ a ∈ calls, SendCall a) →
    observe step content c (.reset :: .dataSend text :: calls) =
      observe step content (paced f c) (.dataSend text :: calls)
  starts : ∀ text loaded, c.reset.dataSend text = .ok loaded → ∀ now later order out,
    1350 ≤ out.bytes.length → ∃ priority, observe step content c [.reset, .dataSend text,
      .sendAll now, .sendData later order out] =
        some [(0, priority, loaded.sendDataVec.take 1024)]
  whole : ∀ text loaded, c.reset.dataSend text = .ok loaded → ∀ trace c',
    Run step ServerCall loaded trace c' →
      Tiles loaded.sendDataVec 0 c'.writtenData ((appended trace).map pieceOf) ∧
        ∀ now s, c'.sendAll now = .ok (s, .ok false) →
          c'.writtenData = loaded.sendDataVec.length

/-- Nothing has been written, the handshake is over, no answer is owed, and the next window can
    be computed. -/
structure Unspoilt (c : Connection F) : Prop where
  unsent : c.writtenData = 0
  awake : c.rtt ≠ 0
  unasked : c.recvFlag = false
  window : ∃ r, nextWindow c.recovery (highRatio c) = .ok r

theorem unsent_of_starts {c loaded : Connection F} {text : List Char} (started : Started c)
    (server : c.isServer = true) (loads : c.reset.dataSend text = .ok loaded)
    (short : loaded.sendDataVec.length = 1020) {now later : Nat} {order : IterOrder} {out : Slice}
    (room : 1350 ≤ out.bytes.length) {priority : UInt8}
    (seen : observe step content c [.reset, .dataSend text, .sendAll now,
      .sendData later order out] = some [(0, priority, loaded.sendDataVec.take 1024)]) :
    c.writtenData = 0 := by
  by_contra begun
  have enough : 1020 ≤ c.writtenData := started.resolve_left fun nothing => begun nothing.1
  obtain ⟨c1, r, s, passed, sent, same⟩ := (observe_opening loads).mp seen
  obtain ⟨⟨_, _, _, _, rfl⟩, _⟩ := dataSend_loaded loads
  rw [sendAll_drained (by rw [short]; exact enough) rfl, Except.ok.injEq, Prod.mk.injEq] at passed
  obtain ⟨conn, _⟩ := passed
  have server' : c1.isServer = true := by
    rw [← conn]
    exact server
  have empty : c1.sendBuffer.data = [] := by
    rw [← conn]
    rfl
  have start : c1.sendBuffer.pos = 0 := by
    rw [← conn]
    rfl
  have filled : out.bytes ≠ [] := List.length_pos_iff.mp (by omega)
  have garbage := empty_content server' empty start filled sent
  rw [← same] at garbage
  have width := garbage _ List.mem_cons_self
  rw [List.length_take, short] at width
  omega

theorem unspoilt_of_reusable {c : Connection F} {text : List Char} {loaded : Connection F}
    (started : Started c) (server : c.isServer = true) (loads : c.reset.dataSend text = .ok loaded)
    (short : loaded.sendDataVec.length = 1020) (reusable : Reusable c) : Unspoilt c := by
  obtain ⟨priority, seen⟩ := reusable.starts text loaded loads 0 0 storedOrder outBuffer
    outBuffer_roomy
  have unsent := unsent_of_starts started server loads short outBuffer_roomy seen
  obtain ⟨c1, r, s, passed, sent, same⟩ := (observe_opening loads).mp seen
  obtain ⟨⟨_, _, _, _, rfl⟩, _⟩ := dataSend_loaded loads
  obtain ⟨recovery, w, n, sendBuffer, chosen, _, _, conn⟩ := (sendAll_write_iff (by
    rw [short]
    exact Nat.lt_of_le_of_lt (Nat.le_of_eq unsent) (by omega))).mp passed
  have ready : ¬ (c.rtt = 0 ∨ c.recvFlag = true) := by
    intro busy
    have server' : c1.isServer = true := by
      rw [conn]
      exact server
    have busy' : c1.rtt = 0 ∨ c1.recvFlag = true := by
      rw [conn]
      exact busy
    rw [content_unready server' busy' sent] at same
    cases same
  obtain ⟨awake, unasked⟩ := not_or.mp ready
  exact ⟨unsent, awake, Bool.eq_false_iff.mpr unasked, _, chosen⟩

theorem reusable_of_unspoilt {c : Connection F} (server : c.isServer = true)
    (unwritten : Unwritten c) (unrecorded : c.recovery.formerWinVecter = ∅)
    (unspoilt : Unspoilt c) : Reusable c := by
  have ready : Ready c := ⟨server, unspoilt.awake, unspoilt.unasked⟩
  have silent : content .nothing = [] := rfl
  have first : step c .reset = .ok (c.reset, .nothing) := rfl
  constructor
  case same =>
    intro f fresh text calls sending
    have born := handshaken_newborn fresh
    cases loads : c.reset.dataSend text with
    | error e =>
      have fails : ∀ f', (paced f c).dataSend text ≠ .ok f' := by
        intro f' taken
        rw [dataSend_withData c.reset taken] at loads
        cases loads
      cases other : (paced f c).dataSend text with
      | ok f' => exact absurd other (fails f')
      | error e' =>
        have second : step c.reset (.dataSend text) = .error e := by
          rw [step, loads]
          rfl
        have second' : step (paced f c) (.dataSend text) = .error e' := by
          rw [step, other]
          rfl
        simp only [observe, first, second, second', Option.map_none]
    | ok loaded =>
      have fresh' := reset_unwritten unwritten loads
      have shaped : Shaped loaded := by
        refine ⟨by simp [fresh'.queue], ?_⟩
        rw [fresh'.ackPoint]
        exact Nat.zero_le _
      have alike := reset_alike unwritten ready born fresh.1 loads
      have later := observe_same shaped alike sending
      have second : step c.reset (.dataSend text) = .ok (loaded, .nothing) :=
        bind_ok_iff.mpr ⟨loaded, loads, rfl⟩
      have other : step (paced f c) (.dataSend text) = .ok (_, .nothing) :=
        bind_ok_iff.mpr ⟨_, dataSend_withData (paced f c) loads, rfl⟩
      simp only [observe, first, second, other, later, silent, List.nil_append, Option.map_id']
  case starts =>
    intro text loaded loads now later order out room
    have fresh := reset_unwritten unwritten loads
    have size := loaded_size loads
    have normed := loaded_normed loads
    have ready' : Ready loaded := by
      obtain ⟨⟨_, _, _, _, rfl⟩, _⟩ := dataSend_loaded loads
      exact ⟨ready.server, ready.awake, ready.unasked⟩
    have start : loaded.sendBuffer.pos = 0 := by
      obtain ⟨⟨_, _, _, _, rfl⟩, _⟩ := dataSend_loaded loads
      rfl
    have unrecorded' : loaded.recovery.formerWinVecter = ∅ := by
      obtain ⟨⟨_, _, _, _, rfl⟩, _⟩ := dataSend_loaded loads
      exact unrecorded
    obtain ⟨⟨recovery, w⟩, chosen⟩ : ∃ r, nextWindow loaded.recovery (highRatio loaded) = .ok r := by
      obtain ⟨⟨_, _, _, _, rfl⟩, _⟩ := dataSend_loaded loads
      exact unspoilt.window
    obtain ⟨sendBuffer, n, stored⟩ := SendBuf.write_returns fresh.queue fresh.alive
      (loaded.sendDataVec.drop loaded.writtenData) w
      ((sendBufferSize - loaded.totalOffset % sendBufferSize) % sendBufferSize) loaded.maxOff
    have more : loaded.writtenData < loaded.sendDataVec.length := by
      rw [fresh.writtenData]
      omega
    have passed : loaded.sendAll now = .ok (_, .ok true) :=
      (sendAll_write_iff more).mpr ⟨recovery, w, n, sendBuffer, chosen, stored, rfl, rfl⟩
    obtain ⟨s, priority, sent, packet⟩ :=
      opening_packet fresh ready' start unrecorded' (by omega) normed room passed
    exact ⟨priority, (observe_opening loads).mpr ⟨_, _, s, passed, sent, packet.symm⟩⟩
  case whole =>
    intro text loaded loads trace c' run
    have fresh := reset_unwritten unwritten loads
    obtain ⟨stream, tiles, _⟩ := unused_segmented fresh.toUnused fresh.fits run
    rw [stream.written]
    refine ⟨tiles, fun now s passed => ?_⟩
    have inside := stream.inside
    cases sendAll_cases passed with
    | drained all _ =>
      rw [stream.data, stream.written] at all
      omega

theorem reusable_iff_unspoilt {c0 : Connection F} (session : Session c0) {trace : Trace F}
    {c : Connection F} (run : Run step ServerCall c0 trace c) : Reusable c ↔ Unspoilt c := by
  obtain ⟨started, server⟩ := run_started session run
  constructor
  · intro reusable
    obtain ⟨_, _, _, _, _, _, _, sent⟩ := session
    obtain ⟨short, taken⟩ := short_text sent
    obtain ⟨loaded, loads, width⟩ := taken c.reset
    exact unspoilt_of_reusable started server loads width reusable
  · intro unspoilt
    have unrecorded : c.recovery.formerWinVecter = ∅ := by
      rcases started with ⟨_, unrecorded⟩ | begun
      · exact unrecorded
      · rw [unspoilt.unsent] at begun
        omega
    exact reusable_of_unspoilt server (run_unwritten session run unspoilt.unsent) unrecorded
      unspoilt

end Runs

def loadedServer : Connection ℚ :=
  match @dataSend ℚ checkedBuild rationalFloats freshServer (onesText 255) with
  | .ok c => c
  | .error _ => freshServer

theorem loadedServer_session :
    @Session ℚ referenceOctets checkedBuild rationalFloats loadedServer := by
  have loads : (match @dataSend ℚ checkedBuild rationalFloats freshServer (onesText 255) with
      | .ok _ => true
      | .error _ => false) = true := by decide +kernel
  split at loads
  · rename_i c sent
    refine ⟨loopback, loopback, 0, [], freshServer, onesText 255, .start, ?_⟩
    unfold loadedServer
    rw [sent]
  · cases loads

def shakenServer : Connection ℚ :=
  match @step ℚ referenceOctets checkedBuild rationalFloats freshServer
      (.recvSlice 3 (bareDatagram 2)) with
  | .ok (c, _) => c
  | .error _ => freshServer

theorem shakenServer_handshaken :
    @Handshaken ℚ referenceOctets checkedBuild rationalFloats shakenServer := by
  have passed : (match @step ℚ referenceOctets checkedBuild rationalFloats freshServer
      (.recvSlice 3 (bareDatagram 2)) with
    | .ok (c, _) => decide (c.rtt ≠ 0)
    | .error _ => false) = true := by decide +kernel
  have hello : @HandshakeCall ℚ referenceOctets freshServer (.recvSlice 3 (bareDatagram 2)) := by
    have reads : (@headerOf? referenceOctets .handshake (bareDatagram 2).bytes).isSome = true := by
      decide +kernel
    intro absent
    rw [absent] at reads
    cases reads
  split at passed
  · rename_i c o taken
    have now : shakenServer = c := by
      unfold shakenServer
      rw [taken]
    rw [now]
    exact ⟨of_decide_eq_true passed, loopback, loopback, 0, _, .step .start hello taken⟩
  · cases passed

theorem idle_server_reusable : ∃ (trace : Trace ℚ) (c : Connection ℚ),
    Run (@step ℚ referenceOctets checkedBuild rationalFloats) ServerCall loadedServer trace c ∧
      trace.map (fun t => t.action) = [.recvSlice 5 (bareDatagram 2)] ∧
      c.sendDataVec.length = 1020 ∧ @Reusable ℚ referenceOctets checkedBuild rationalFloats c := by
  have passed : passes (@step ℚ referenceOctets checkedBuild rationalFloats) ServerCall
      loadedServer [.recvSlice 5 (bareDatagram 2)] (fun _ c => decide (c.sendDataVec.length = 1020) &&
        decide (c.writtenData = 0) && decide (c.rtt ≠ 0) && decide (c.recvFlag = false) &&
          (@nextWindow ℚ checkedBuild rationalFloats c.recovery
            (@highRatio ℚ rationalFloats c)).toOption.isSome) = true := by decide +kernel
  obtain ⟨trace, c, run, played, outcome⟩ := played_run passed
  simp only [Bool.and_eq_true, decide_eq_true_eq] at outcome
  obtain ⟨⟨⟨⟨loaded, unsent⟩, awake⟩, unasked⟩, window⟩ := outcome
  have chosen : ∃ r, @nextWindow ℚ checkedBuild rationalFloats c.recovery
      (@highRatio ℚ rationalFloats c) = .ok r := by
    cases chosen : @nextWindow ℚ checkedBuild rationalFloats c.recovery
        (@highRatio ℚ rationalFloats c) with
    | ok r => exact ⟨r, rfl⟩
    | error e =>
      rw [chosen] at window
      cases window
  have unspoilt : @Unspoilt ℚ checkedBuild rationalFloats c :=
    @Unspoilt.mk ℚ checkedBuild rationalFloats c unsent awake unasked chosen
  exact ⟨trace, c, run, played, loaded, (@reusable_iff_unspoilt ℚ referenceOctets checkedBuild
    rationalFloats loadedServer loadedServer_session trace c run).mpr unspoilt⟩

/-- One data set sent in full and the same one again: `send_all` has nothing to send, and the one
    Application packet is a buffer of 1324 zeros in place of the 1020 bytes of data that a fresh
    server puts out. -/
theorem second_data_set_not_sent : ∃ (trace : Trace ℚ) (c : Connection ℚ),
    @Session ℚ referenceOctets checkedBuild rationalFloats loadedServer ∧
      Run (@step ℚ referenceOctets checkedBuild rationalFloats) ServerCall loadedServer trace c ∧
      trace.map (fun t => t.action) = chunkSession.drop 1 ∧
      (∃ priority, observe (@step ℚ referenceOctets checkedBuild rationalFloats)
        (@content referenceOctets) c [.reset, .dataSend (onesText 255), .sendAll 8,
          .sendData 9 storedOrder outBuffer] = some [(0, priority, zeros 1324)]) ∧
      @Handshaken ℚ referenceOctets checkedBuild rationalFloats shakenServer ∧
      (∃ priority sent, sent.length = 1020 ∧
        observe (@step ℚ referenceOctets checkedBuild rationalFloats) (@content referenceOctets)
          (paced shakenServer c) [.dataSend (onesText 255), .sendAll 8,
            .sendData 9 storedOrder outBuffer] = some [(0, priority, sent)]) ∧
      ¬ @Reusable ℚ referenceOctets checkedBuild rationalFloats c := by
  have passed : passes (@step ℚ referenceOctets checkedBuild rationalFloats) ServerCall
      loadedServer (chunkSession.drop 1) (fun _ c =>
        decide ((observe (@step ℚ referenceOctets checkedBuild rationalFloats)
          (@content referenceOctets) c [.reset, .dataSend (onesText 255), .sendAll 8,
            .sendData 9 storedOrder outBuffer]).map (List.map (fun p => (p.1, p.2.2))) =
              some [(0, zeros 1324)]) &&
        decide ((observe (@step ℚ referenceOctets checkedBuild rationalFloats)
          (@content referenceOctets) (paced shakenServer c) [.dataSend (onesText 255),
            .sendAll 8, .sendData 9 storedOrder outBuffer]).map
              (List.map (fun p => (p.1, p.2.2.length))) = some [(0, 1020)])) = true := by
    decide +kernel
  obtain ⟨trace, c, run, played, outcome⟩ := played_run passed
  simp only [Bool.and_eq_true, decide_eq_true_eq, Option.map_eq_some_iff,
    List.map_eq_singleton_iff] at outcome
  obtain ⟨⟨_, reused, ⟨off, priority, sent⟩, rfl, first⟩, _, fresh, ⟨off', priority', due⟩, rfl,
    width⟩ := outcome
  obtain ⟨rfl, rfl⟩ : off = 0 ∧ sent = zeros 1324 := Prod.mk.inj first
  obtain ⟨rfl, short⟩ : off' = 0 ∧ due.length = 1020 := Prod.mk.inj width
  refine ⟨trace, c, loadedServer_session, run, played, ⟨priority, reused⟩,
    shakenServer_handshaken, ⟨priority', due, short, fresh⟩, ?_⟩
  rintro ⟨alike, _, _⟩
  have same := alike shakenServer shakenServer_handshaken (onesText 255)
    [.sendAll 8, .sendData 9 storedOrder outBuffer] (by simp [SendCall])
  rw [reused, fresh] at same
  simp only [Option.some.injEq, List.cons.injEq, Prod.mk.injEq, and_true] at same
  rw [← same.2.2, zeros, List.length_replicate] at short
  cases short

end DmludpReuse
