import Dmludp.Foundation.StreamTiling
import Dmludp.Guarantees.SendAccounting

/- How a server cuts its data into chunks. Three offsets in two objects move together, and the
   chunks ever queued tile the data written so far, block by block. -/
namespace DmludpSegmentation
open ByteCursor RustOutcome TracedRun OrderedMap StreamTiling DmludpPacket DmludpRange DmludpSend
open DmludpRecovery DmludpConnection DmludpConnection.Connection DmludpCalls DmludpEffects
open DmludpReceiveEffects DmludpSenderSteps DmludpSendAccounting DmludpReference

variable {F : Type}

def ServerCall (_ : Connection F) : Call → Prop
  | .sendAll _ => True
  | .sendData _ _ _ => True
  | .recvSlice _ _ => True
  | _ => False

instance (c : Connection F) (a : Call) : Decidable (ServerCall c a) :=
  match a with
  | .sendAll _ | .sendData _ _ _ | .recvSlice _ _ => inferInstanceAs (Decidable True)
  | .dataSend _ | .read _ | .write | .reset | .checkLoss _ | .newRtt _ | .setHandshake _ =>
      inferInstanceAs (Decidable False)

def pieceOf (b : RangeBuf) : Nat × Bytes := (b.off, b.data)

theorem tiles_place {stream : Bytes} {off : Nat} {pieces : List Bytes}
    (inside : off + pieces.flatten.length ≤ stream.length)
    (same : pieces.flatten = cut stream off pieces.flatten.length) :
    Tiles stream off (off + pieces.flatten.length)
      ((SendBuf.place off pieces).map pieceOf) := by
  induction pieces generalizing off with
  | nil => exact .done off
  | cons c rest ih =>
    rw [List.flatten_cons, List.length_append] at inside same
    rw [cut_append] at same
    have width : (cut stream off c.length).length = c.length := cut_length (by omega)
    obtain ⟨first, later⟩ := List.append_inj same width.symm
    rw [List.flatten_cons, List.length_append, ← Nat.add_assoc]
    have within : off + c.length ≤ stream.length := by omega
    have behind : off + c.length + rest.flatten.length ≤ stream.length := by omega
    exact .piece first within (ih behind later)

structure Unused (c : Connection F) : Prop where
  queue : c.sendBuffer.data = []
  marks : c.sendBuffer.offsetRecv.keys = []
  off : c.sendBuffer.off = 0
  writtenData : c.writtenData = 0
  totalOffset : c.totalOffset = 0
  sentPkt : c.sentPkt = []
  ackPoint : c.ackPoint = 0
  sentCount : c.sentCount = 0
  sentDic : c.sentDic = ∅
  number : c.pktNumSpaces.1.nextPktNum = 0
  running : c.stopFlag = false
  unasked : c.stopAck = false

/-- A server that has been given its data, once, whatever it was called for before. -/
def Session [Octets] [Profile] [FloatOps F] (c : Connection F) : Prop :=
  ∃ localaddr peeraddr birth earlier idle text,
    Run step ServerCall (Connection.accept localaddr peeraddr birth) earlier idle ∧
      idle.dataSend text = .ok c

structure Stream (text : Bytes) (c : Connection F) : Prop where
  data : c.sendDataVec = text
  fits : text.length ≤ isizeMax
  written : c.writtenData = c.sendBuffer.off
  total : c.totalOffset = c.sendBuffer.off
  inside : c.sendBuffer.off ≤ text.length
  lockstep : c.sendBuffer.Lockstep
  queued : ∀ b ∈ c.sendBuffer.data, SendBuf.Queued b ∧ SendBuf.InBlock b
  content : ∀ b ∈ c.sendBuffer.data,
    b.off + b.data.length ≤ c.sendBuffer.off ∧ b.data = cut text b.off b.data.length

/-- One call took the chunks off the queue that were marked for it, and put `added` behind. -/
structure Grown (text : Bytes) (c c' : Connection F) (kept added : List RangeBuf) : Prop where
  stream : Stream text c'
  queue : c'.sendBuffer.data = kept ++ added
  sub : kept.Sublist c.sendBuffer.data
  dropped : ∀ b ∈ c.sendBuffer.data, b ∉ kept → (b.off, false) ∈ c.sendBuffer.offsetRecv.entries
  bound : SendBuf.total c'.sendBuffer.data ≤ max c'.sendBuffer.maxData (SendBuf.total kept)
  tiles : Tiles text c.sendBuffer.off c'.sendBuffer.off (added.map pieceOf)
  blocks : ∀ b ∈ added, SendBuf.InBlock b

theorem stream_below {text : Bytes} {c : Connection F} (stream : Stream text c) :
    ∀ b ∈ c.sendBuffer.data, b.off < c.sendBuffer.off := by
  intro b mem
  have positive := (stream.queued b mem).1.filled
  have bound := (stream.content b mem).1
  omega

theorem stream_word {text : Bytes} {c : Connection F} (stream : Stream text c) :
    ∀ b ∈ c.sendBuffer.data, b.off ≤ isizeMax := by
  intro b mem
  have below := stream_below stream b mem
  have inside := stream.inside
  have fits := stream.fits
  omega

theorem stream_marks_below {text : Bytes} {c : Connection F} (stream : Stream text c) :
    ∀ e ∈ c.sendBuffer.offsetRecv.entries, e.1 < c.sendBuffer.off := by
  apply SendBuf.marks_below stream.lockstep
  intro b mem
  have below := stream_below stream b mem
  omega

theorem unused_stream {c : Connection F} (unused : Unused c)
    (fits : c.sendDataVec.length ≤ isizeMax) : Stream c.sendDataVec c := by
  obtain ⟨queue, marks, off, writtenData, totalOffset, _⟩ := unused
  exact ⟨rfl, fits, by omega, by omega, by omega, by simp [SendBuf.Lockstep, marks, queue],
    by simp [queue], by simp [queue]⟩

theorem grown_same {text : Bytes} {c c' : Connection F} (stream : Stream text c)
    (sendDataVec : c'.sendDataVec = c.sendDataVec) (writtenData : c'.writtenData = c.writtenData)
    (totalOffset : c'.totalOffset = c.totalOffset) (off : c'.sendBuffer.off = c.sendBuffer.off)
    (queue : c'.sendBuffer.data = c.sendBuffer.data)
    (keys : c'.sendBuffer.offsetRecv.keys = c.sendBuffer.offsetRecv.keys) :
    Grown text c c' c.sendBuffer.data [] := by
  obtain ⟨data, fits, written, total, inside, lockstep, queued, content⟩ := stream
  constructor
  case stream =>
    refine ⟨sendDataVec.trans data, fits, ?_, ?_, ?_, ?_, ?_, ?_⟩
    · rw [writtenData, off, written]
    · rw [totalOffset, off, total]
    · rw [off]
      exact inside
    · unfold SendBuf.Lockstep
      rw [keys, queue]
      exact lockstep
    · rw [queue]
      exact queued
    · rw [queue, off]
      exact content
  case queue => rw [queue, List.append_nil]
  case sub => exact List.Sublist.refl _
  case dropped => exact fun b mem gone => absurd mem gone
  case bound =>
    rw [queue]
    exact Nat.le_max_right _ _
  case tiles =>
    rw [off]
    exact .done _
  case blocks => exact fun b mem => by cases mem

theorem filled_tiles {text : Bytes} {c : Connection F} {kept s' : SendBuf} {window n : Nat}
    {pieces : List Bytes} (stream : Stream text c) (start : kept.off = c.sendBuffer.off)
    (filled : SendBuf.Filled kept s' (c.sendDataVec.drop c.writtenData) window
      ((sendBufferSize - c.totalOffset % sendBufferSize) % sendBufferSize) n pieces) :
    s'.off ≤ text.length ∧
      Tiles text c.sendBuffer.off s'.off ((SendBuf.place kept.off pieces).map pieceOf) ∧
      ∀ b ∈ SendBuf.place kept.off pieces, SendBuf.InBlock b := by
  have written := stream.written
  have before := stream.inside
  have taken : n ≤ text.length - c.writtenData := by
    rw [filled.count, filled.bytes, List.length_take, List.length_drop, stream.data]
    omega
  have cutting : pieces.flatten = cut text c.sendBuffer.off pieces.flatten.length := by
    rw [← filled.count, filled.bytes, stream.data, written, cut]
  have tiles := tiles_place (by rw [← filled.count]; omega) cutting
  rw [filled.off, start]
  rw [← filled.count] at tiles
  refine ⟨by omega, tiles, ?_⟩
  intro b mem
  rcases filled.shape with nothing | ⟨shape, some_data⟩
  · rw [nothing] at mem
    cases mem
  · rw [shape] at mem
    exact SendBuf.place_segments_inBlock some_data (by rw [stream.total]) mem

theorem filled_stream {text : Bytes} {c c' : Connection F} {kept : SendBuf} {window n : Nat}
    {pieces : List Bytes} (stream : Stream text c) (start : kept.off = c.sendBuffer.off)
    (sub : kept.data.Sublist c.sendBuffer.data) (lockstep : kept.Lockstep)
    (below : ∀ e ∈ kept.offsetRecv.entries, e.1 < kept.off)
    (filled : SendBuf.Filled kept c'.sendBuffer (c.sendDataVec.drop c.writtenData) window
      ((sendBufferSize - c.totalOffset % sendBufferSize) % sendBufferSize) n pieces)
    (data : c'.sendDataVec = c.sendDataVec) (written : c'.writtenData = c.writtenData + n)
    (total : c'.totalOffset = c.totalOffset + n) : Stream text c' := by
  obtain ⟨inside, tiles, blocks⟩ := filled_tiles stream start filled
  have fits := stream.fits
  have off := filled.off
  have oldQueue : ∀ b ∈ kept.data, SendBuf.Queued b ∧ b.off + b.data.length ≤ kept.off := by
    intro b mem
    rw [start]
    exact ⟨(stream.queued b (sub.subset mem)).1, (stream.content b (sub.subset mem)).1⟩
  have newQueue := filled_queued filled (boundary_small _) (by omega) oldQueue
  refine ⟨data.trans stream.data, fits, ?_, ?_, inside,
    SendBuf.filled_lockstep filled lockstep below, ?_, ?_⟩
  · rw [written, stream.written, off, start]
  · rw [total, stream.total, off, start]
  · intro b mem
    refine ⟨(newQueue b mem).1, ?_⟩
    rw [filled.queue] at mem
    rcases List.mem_append.mp mem with old | new
    · exact (stream.queued b (sub.subset old)).2
    · exact blocks b new
  · intro b mem
    refine ⟨(newQueue b mem).2, ?_⟩
    rw [filled.queue] at mem
    rcases List.mem_append.mp mem with old | new
    · exact (stream.content b (sub.subset old)).2
    · exact (tiles_mem tiles (List.mem_map_of_mem (f := pieceOf) new)).2.2

section Steps
variable [Profile]

theorem sendAll_grown {text : Bytes} {c c' : Connection F} {now : Nat} {r : Except Error Bool}
    (stream : Stream text c) (passed : SendAllCase c now (c', r)) :
    ∃ kept added, Grown text c c' kept added ∧
      (∀ b ∈ kept, (b.off, true) ∈ c.sendBuffer.offsetRecv.entries) ∧
      (∀ e ∈ c'.sendBuffer.offsetRecv.entries, e.2 = true) := by
  cases passed with
  | drained all empty =>
    have noMarks : c.sendBuffer.offsetRecv.entries = [] := by
      simpa [SendBuf.Lockstep, OrdMap.keys, empty] using stream.lockstep
    refine ⟨_, _, grown_same stream rfl rfl rfl rfl rfl rfl, ?_, ?_⟩
    · simp [empty]
    · simp [noMarks]
  | @wrote recovery window n sendBuffer inside stored =>
    obtain ⟨kept, pieces, dropped, filled⟩ := SendBuf.write_filled stored
    obtain ⟨kept', dropped', lockstep, marks, standing, gone⟩ :=
      SendBuf.recvAndDrop_lockstep stream.lockstep c.maxOff
    rw [dropped, Except.ok.injEq] at dropped'
    subst dropped'
    obtain ⟨data, entries, frame, sub⟩ := SendBuf.recvAndDrop_frame dropped
    have start : kept.off = c.sendBuffer.off := by rw [frame]
    have stays : kept.data.Sublist c.sendBuffer.data := by
      rw [frame]
      exact sub
    have below : ∀ e ∈ kept.offsetRecv.entries, e.1 < kept.off := by
      intro e mem
      rw [start]
      exact stream_marks_below stream e (marks e mem).1
    obtain ⟨_, tiles, blocks⟩ := filled_tiles stream start filled
    refine ⟨kept.data, SendBuf.place kept.off pieces,
      ⟨?_, filled.queue, stays, gone, ?_, tiles, blocks⟩, standing,
      SendBuf.filled_standing filled below (fun e old => (marks e old).2)⟩
    · exact filled_stream stream start stays lockstep below filled rfl rfl rfl
    · rw [filled.window]
      exact filled.bound

theorem application_grown [FloatOps F] {text : Bytes} {c : Connection F} {now : Nat} {out : Bytes}
    {s : Sent F} (stream : Stream text c) (sent : AppCase c now out s) :
    Grown text c s.conn c.sendBuffer.data [] := by
  have kept := application_kept sent
  obtain ⟨len, used, pos, total, buffer⟩ := kept.buffer
  apply grown_same stream kept.sendDataVec kept.writtenData kept.totalOffset
  · rw [buffer]
  · rw [buffer]
  · rw [buffer]

variable [FloatOps F] [Octets]

theorem step_grown {text : Bytes} {c c' : Connection F} {a : Call} {o : Reply}
    (stream : Stream text c) (may : ServerCall c a) (taken : SenderStep c a o c') :
    ∃ kept added, Grown text c c' kept added := by
  cases taken with
  | kept same _ =>
    obtain ⟨marks, buffer⟩ := same.buffer
    exact ⟨_, _, grown_same stream same.sendDataVec same.writtenData same.totalOffset
      (by rw [buffer]) (by rw [buffer]) same.keys⟩
  | dataSend _ => exact may.elim
  | reset => exact may.elim
  | write _ => exact may.elim
  | sendAll passed =>
    obtain ⟨kept, added, grown, _⟩ := sendAll_grown stream passed
    exact ⟨kept, added, grown⟩
  | query due sent =>
    obtain ⟨_, _, _, conn, _⟩ := sendElictAck_frame sent
    rw [conn]
    exact ⟨_, _, grown_same stream rfl rfl rfl rfl rfl rfl⟩
  | application _ _ sent => exact ⟨_, _, application_grown stream sent⟩

theorem step_unwritten {c c' : Connection F} {a : Call} {o : Reply} (unused : Unused c)
    (fits : c.sendDataVec.length ≤ isizeMax) (may : ServerCall c a) (taken : SenderStep c a o c')
    (still : c'.writtenData = 0) : Unused c' ∧ c'.sendDataVec = c.sendDataVec := by
  obtain ⟨_, _, grown⟩ := step_grown (unused_stream unused fits) may taken
  have stream := grown.stream
  have off' : c'.sendBuffer.off = 0 := stream.written.symm.trans still
  have queue' : c'.sendBuffer.data = [] := by
    apply List.eq_nil_iff_forall_not_mem.mpr
    intro b mem
    have below := stream_below stream b mem
    omega
  have marks' : c'.sendBuffer.offsetRecv.keys = [] := by
    rw [stream.lockstep, queue']
    rfl
  have total' := stream.total.trans off'
  obtain ⟨_, _, _, writtenData, _, sentPkt, ackPoint, sentCount, sentDic, number, running,
    unasked⟩ := unused
  refine ⟨?_, stream.data⟩
  cases taken with
  | kept same _ =>
    refine ⟨queue', marks', off', still, total', same.sentPkt.trans sentPkt,
      same.ackPoint.trans ackPoint, same.sentCount.trans sentCount, same.sentDic.trans sentDic, ?_,
      same.stopFlag.trans running, same.stopAck.trans unasked⟩
    rw [same.pktNumSpaces]
    exact number
  | dataSend _ => exact may.elim
  | reset => exact may.elim
  | write _ => exact may.elim
  | sendAll passed =>
    cases passed with
    | drained _ _ => exact ⟨queue', marks', off', still, total', sentPkt, ackPoint, sentCount,
        sentDic, number, rfl, rfl⟩
    | wrote _ _ => exact ⟨queue', marks', off', still, total', sentPkt, ackPoint, sentCount,
        sentDic, number, rfl, rfl⟩
  | query due _ => simp [QueryDue, sentCount, running] at due
  | application _ _ sent =>
    cases sent with
    | nothing _ _ _ => exact ⟨queue', marks', off', still, total', sentPkt, ackPoint, sentCount,
        sentDic, number, running, unasked⟩
    | packet _ _ inside _ _ => omega

theorem step_unused {c c' : Connection F} {a : Call} {o : Reply} (unused : Unused c)
    (nothing : c.sendDataVec = []) (may : ServerCall c a) (taken : SenderStep c a o c') :
    Unused c' ∧ c'.sendDataVec = [] := by
  have fits : c.sendDataVec.length ≤ isizeMax := by
    rw [nothing]
    exact Nat.zero_le _
  obtain ⟨_, _, grown⟩ := step_grown (unused_stream unused fits) may taken
  have end_ := grown.stream.inside
  rw [nothing, List.length_nil] at end_
  have still : c'.writtenData = 0 := grown.stream.written.trans (Nat.le_zero.mp end_)
  obtain ⟨unused', data⟩ := step_unwritten unused fits may taken still
  exact ⟨unused', data.trans nothing⟩

theorem session_unused {c : Connection F} (session : Session c) :
    Unused c ∧ c.sendDataVec.length ≤ isizeMax := by
  obtain ⟨localaddr, peeraddr, birth, earlier, idle, text, run, sent⟩ := session
  have fresh : Unused (Connection.accept localaddr peeraddr birth : Connection F) := by
    constructor <;> rfl
  obtain ⟨unused, _⟩ := state_invariant (fun c => Unused c ∧ c.sendDataVec = []) ⟨fresh, rfl⟩
    (fun _ _ _ _ before may taken => step_unused before.1 before.2 may (sender_step taken)) run
  obtain ⟨⟨norms, data, low, high, rfl⟩, fits⟩ := dataSend_loaded sent
  obtain ⟨queue, marks, off, writtenData, totalOffset, sentPkt, ackPoint, sentCount, sentDic,
    number, running, unasked⟩ := unused
  exact ⟨⟨queue, marks, off, writtenData, totalOffset, sentPkt, ackPoint, sentCount, sentDic,
    number, running, unasked⟩, fits⟩

theorem session_stream {c : Connection F} (session : Session c) : Stream c.sendDataVec c := by
  obtain ⟨unused, fits⟩ := session_unused session
  exact unused_stream unused fits

end Steps

def appendedBy (t : Transition (Connection F) Call Reply) : List RangeBuf :=
  t.after.sendBuffer.data.filter (fun b => b ∉ t.before.sendBuffer.data)

def leftBy (t : Transition (Connection F) Call Reply) : List RangeBuf :=
  t.after.sendBuffer.data.filter (fun b => b ∈ t.before.sendBuffer.data)

def appended (trace : Trace F) : List RangeBuf := trace.flatMap appendedBy

theorem grown_parts {text : Bytes} {t : Transition (Connection F) Call Reply}
    {kept added : List RangeBuf} (stream : Stream text t.before)
    (grown : Grown text t.before t.after kept added) :
    appendedBy t = added ∧ leftBy t = kept := by
  have old : ∀ b ∈ kept, b ∈ t.before.sendBuffer.data := fun b mem => grown.sub.subset mem
  have new : ∀ b ∈ added, b ∉ t.before.sendBuffer.data := by
    intro b mem before
    have start := (tiles_mem grown.tiles (List.mem_map_of_mem (f := pieceOf) mem)).1
    have below := stream_below stream b before
    dsimp only [pieceOf] at start
    omega
  constructor
  · rw [appendedBy, grown.queue, List.filter_append,
      List.filter_eq_nil_iff.mpr (by simpa using old), List.filter_eq_self.mpr (by simpa using new)]
    rfl
  · rw [leftBy, grown.queue, List.filter_append, List.filter_eq_self.mpr (by simpa using old),
      List.filter_eq_nil_iff.mpr (by simpa using new), List.append_nil]

section Runs
variable [Octets] [Profile] [FloatOps F]

structure Segmented (text : Bytes) (trace : Trace F) (c : Connection F) : Prop where
  stream : Stream text c
  tiles : Tiles text 0 c.sendBuffer.off ((appended trace).map pieceOf)
  blocks : ∀ b ∈ appended trace, SendBuf.InBlock b
  bounded : ∀ t ∈ trace, SendBuf.total t.after.sendBuffer.data ≤
    max t.after.sendBuffer.maxData (SendBuf.total (leftBy t))

theorem unused_segmented {c0 : Connection F} (unused : Unused c0)
    (fits : c0.sendDataVec.length ≤ isizeMax) {trace : Trace F} {c : Connection F}
    (run : Run step ServerCall c0 trace c) : Segmented c0.sendDataVec trace c := by
  refine run_invariant (Segmented c0.sendDataVec) ?_ ?_ run
  · refine ⟨unused_stream unused fits, ?_, ?_, ?_⟩
    · rw [unused.off]
      exact .done 0
    · simp [appended]
    · simp
  · intro trace c a o c' _ earlier may taken
    obtain ⟨stream, tiles, blocks, bounded⟩ := earlier
    obtain ⟨kept, added, grown⟩ := step_grown stream may (sender_step taken)
    obtain ⟨new, left⟩ := grown_parts (t := ⟨c, a, o, c'⟩) stream grown
    have more : appended (trace ++ [⟨c, a, o, c'⟩]) = appended trace ++ added := by
      rw [appended, List.flatMap_append, List.flatMap_singleton, new]
      rfl
    refine ⟨grown.stream, ?_, ?_, ?_⟩
    · rw [more, List.map_append]
      exact tiles_append tiles grown.tiles
    · rw [more]
      intro b mem
      rcases List.mem_append.mp mem with old | new
      · exact blocks b old
      · exact grown.blocks b new
    · intro t mem
      rcases List.mem_append.mp mem with old | new
      · exact bounded t old
      · rw [List.mem_singleton.mp new, left]
        exact grown.bound

theorem run_segmented {c0 : Connection F} (session : Session c0) {trace : Trace F}
    {c : Connection F} (run : Run step ServerCall c0 trace c) :
    Segmented c0.sendDataVec trace c := by
  obtain ⟨unused, fits⟩ := session_unused session
  exact unused_segmented unused fits run

/-- The queue is cut from the data without gap or overlap, each chunk inside one block. -/
theorem stream_segmented_in_blocks {c0 : Connection F} (session : Session c0) {trace : Trace F}
    {c : Connection F} (run : Run step ServerCall c0 trace c) :
    c.sendDataVec = c0.sendDataVec ∧
      c.sendBuffer.off = c.totalOffset ∧ c.totalOffset = c.writtenData ∧
      c.writtenData ≤ c.sendDataVec.length ∧
      Tiles c0.sendDataVec 0 c.writtenData ((appended trace).map pieceOf) ∧
      (∀ b ∈ appended trace, 0 < b.data.length ∧ b.data.length ≤ 1024 ∧
        b.off / 1024 = (b.off + b.data.length - 1) / 1024) ∧
      (∀ t ∈ trace, SendBuf.total t.after.sendBuffer.data ≤
        max t.after.sendBuffer.maxData (SendBuf.total (leftBy t))) := by
  obtain ⟨stream, tiles, blocks, bounded⟩ := run_segmented session run
  refine ⟨stream.data, stream.total.symm, stream.total.trans stream.written.symm, ?_, ?_, ?_,
    bounded⟩
  · rw [stream.written, stream.data]
    exact stream.inside
  · rw [stream.written]
    exact tiles
  · intro b mem
    have block := blocks b mem
    simp only [SendBuf.InBlock, sendBufferSize] at block
    omega

end Runs

def sessionPasses [Profile] (allowed : Connection ℚ → Call → Prop)
    [∀ c a, Decidable (allowed c a)] (text : List Char) (actions : List Call)
    (test : Trace ℚ → Connection ℚ → Bool) : Bool :=
  match @Connection.dataSend ℚ _ rationalFloats freshServer text with
  | .ok c => passes (@step ℚ referenceOctets _ rationalFloats) allowed c actions test
  | .error _ => false

theorem session_played [Profile] {allowed : Connection ℚ → Call → Prop}
    [∀ c a, Decidable (allowed c a)] {text : List Char} {actions : List Call}
    {test : Trace ℚ → Connection ℚ → Bool}
    (passed : sessionPasses allowed text actions test = true) :
    ∃ c0 trace c, @Session ℚ referenceOctets _ rationalFloats c0 ∧
      Run (@step ℚ referenceOctets _ rationalFloats) allowed c0 trace c ∧
      trace.map (fun t => t.action) = actions ∧ test trace c = true := by
  unfold sessionPasses at passed
  split at passed
  · rename_i c0 sent
    obtain ⟨trace, c, run, played, outcome⟩ := played_run passed
    exact ⟨c0, trace, c, ⟨loopback, loopback, 0, [], freshServer, text, .start, sent⟩, run, played,
      outcome⟩
  · cases passed

theorem two_blocks_segmented : ∃ (c0 : Connection ℚ) (trace : Trace ℚ) (c : Connection ℚ),
    @Session ℚ referenceOctets checkedBuild rationalFloats c0 ∧
      Run (@step ℚ referenceOctets checkedBuild rationalFloats) ServerCall c0 trace c ∧
      trace.map (fun t => t.action) = [.sendAll 1] ∧
      (appended trace).map (fun b => (b.off, b.data.length)) = [(0, 1024), (1024, 1020)] ∧
      c.writtenData = 2044 ∧
      Tiles c.sendDataVec 0 2044 ((appended trace).map pieceOf) := by
  have passed : @sessionPasses checkedBuild ServerCall _ (onesText 511) [.sendAll 1] (fun trace c =>
      (appended trace).map (fun b => (b.off, b.data.length)) == [(0, 1024), (1024, 1020)] &&
        c.writtenData == 2044) = true := by decide +kernel
  obtain ⟨c0, trace, c, session, run, played, outcome⟩ :=
    @session_played checkedBuild _ _ _ _ _ passed
  simp only [Bool.and_eq_true, beq_iff_eq] at outcome
  obtain ⟨same, _, _, _, tiles, _⟩ := @stream_segmented_in_blocks ℚ referenceOctets checkedBuild
    rationalFloats c0 session trace c run
  rw [outcome.2, ← same] at tiles
  exact ⟨c0, trace, c, session, run, played, outcome.1, outcome.2, tiles⟩

end DmludpSegmentation
