import Dmludp.Foundation.OrderedMap
import Dmludp.Packet.HeaderCodec
import Dmludp.Stream.RangeBuffer

/- The send-side stream buffer. Chunks wait in `data` until an acknowledgement marks their
   offset in `offsetRecv`; the marks take effect by position at the next `write`.
   The counters that `write` only adds to are bounded by the bytes held in memory and stay
   Nat; the two subtractions in `emit` are word arithmetic. -/
namespace DmludpSend
open ByteCursor RustOutcome OrderedMap DmludpPacket DmludpRange

def sendBufferSize : Nat := 1024

structure SendBuf where
  data : List RangeBuf
  pos : Nat
  off : Nat
  len : Nat
  maxData : Nat
  error : Option UInt64
  usedLength : Nat
  offsetRecv : OrdMap Nat Bool
  removed : Nat
  sent : Nat
  deriving DecidableEq

namespace SendBuf

def new (maxData : Nat) : SendBuf where
  data := []
  pos := 0
  off := 0
  len := 0
  maxData := maxData
  error := none
  usedLength := 0
  offsetRecv := OrdMap.empty
  removed := 0
  sent := 0

def lenFn (s : SendBuf) : Nat := (s.data.map (fun b => b.data.length)).sum

def ready (s : SendBuf) : Bool := !s.data.isEmpty

def clear (s : SendBuf) : SendBuf := { s with data := [], pos := 0, off := 0 }

def ackAndDrop (s : SendBuf) (offset : Nat) : SendBuf :=
  { s with offsetRecv := s.offsetRecv.set offset false }

def retainMarked : List RangeBuf → List Bool → Rs (List RangeBuf)
  | [], _ => .ok []
  | _ :: _, [] => .error .unwrap
  | b :: data, keep :: marks => do
    let rest ← retainMarked data marks
    return if keep then b :: rest else rest

def recvAndDrop (s : SendBuf) (_maxAck : UInt64) : Rs SendBuf :=
  if s.data.isEmpty then .ok s
  else do
    let data ← retainMarked s.data s.offsetRecv.values
    return { s with data := data, offsetRecv := s.offsetRecv.retain id }

def pushChunk (s : SendBuf) (chunk : Bytes) : SendBuf :=
  { s with
    data := s.data ++ [RangeBuf.ofSlice chunk s.off]
    offsetRecv := s.offsetRecv.insert s.off true
    off := s.off + chunk.length
    len := s.len + chunk.length
    usedLength := s.usedLength + chunk.length }

section Methods
variable [Profile]

def cap (s : SendBuf) : Rs (SendBuf × Except Error Nat) :=
  match s.error with
  | some e => .ok (s, .error (.streamStopped e))
  | none => do
    let s := { s with usedLength := s.lenFn }
    let room ← subWord s.maxData s.usedLength
    return (s, .ok room)

/-- The window bookkeeping at the head of `write`, before any new byte is taken. -/
def openWindow (s : SendBuf) (windowSize : Nat) : SendBuf :=
  { s with
    maxData := windowSize
    removed := 0
    sent := 0
    len := s.lenFn
    usedLength := s.lenFn }

def write (s : SendBuf) (data : Bytes) (windowSize offLen : Nat) (maxAck : UInt64) :
    Rs (SendBuf × Except Error Nat) := do
  let s ← s.recvAndDrop maxAck
  let s := s.openWindow windowSize
  if s.len ≥ windowSize then return (s, .ok 0)
  if data.length = 0 then return (s, .ok 0)
  match ← s.cap with
  | (s, .error e) => return (s, .error e)
  | (s, .ok capacity) =>
    let data := if data.length > capacity then data.take capacity else data
    if data.isEmpty then return (s, .ok data.length)
    if offLen > 0 then
      if data.length > offLen then
        let s := s.pushChunk (data.take offLen)
        let rest := data.drop offLen
        return ((chunks sendBufferSize rest).foldl pushChunk s, .ok (offLen + rest.length))
      else return (s.pushChunk data, .ok data.length)
    else return ((chunks sendBufferSize data).foldl pushChunk s, .ok data.length)

def offFrontFrom (off : Nat) : List RangeBuf → Rs Nat
  | [] => .ok off
  | b :: rest => do
    if ← b.isEmpty then offFrontFrom off rest else b.offFn

def offFront (s : SendBuf) : Rs Nat := offFrontFrom s.off (s.data.drop s.pos)

def emitLoop (s : SendBuf) (out : Bytes) (outLen : Nat) :
    List RangeBuf → Rs (SendBuf × Bytes × Nat)
  | [] => .ok (s, out, outLen)
  | buf :: rest =>
    if outLen < sendBufferSize || !s.ready then .ok (s, out, outLen)
    else do
      if ← buf.isEmpty then emitLoop { s with pos := s.pos + 1 } out outLen rest
      else
        let length ← buf.lenFn
        let bufLen := min length outLen
        let partly := bufLen ≤ length
        let source ← slice buf.data 0 bufLen
        let _ ← slice out 0 bufLen
        let out := splice out 0 source
        let len ← subWord s.len bufLen
        let usedLength ← subWord s.usedLength bufLen
        let s := { s with len := len, usedLength := usedLength, pos := s.pos + 1 }
        if partly then .ok (s, out, bufLen) else emitLoop s out bufLen rest

/-- The tail of `emit`: account for the bytes and decide whether the pass is over. -/
def settle (s : SendBuf) (outLen : Nat) : SendBuf × Bool :=
  let s := { s with sent := s.sent + outLen }
  let (s, stop) := if s.maxData ≤ s.sent then ({ s with pos := 0 }, true) else (s, false)
  if s.pos = s.data.length then ({ s with pos := 0 }, true) else (s, stop)

def emit (s : SendBuf) (out : Bytes) : Rs (SendBuf × Bytes × Except Error (Nat × Nat × Bool)) := do
  let outOff ← s.offFront
  let (s, out, outLen) ← s.emitLoop out out.length (s.data.drop s.pos)
  let (s, stop) := s.settle outLen
  return (s, out, .ok (outLen, outOff, stop))

/-- `off_back() - off_front()` is what was not sent; the marks stay as they are. -/
def reset (s : SendBuf) : Rs (SendBuf × Except Error Nat) := do
  let unsentOff ← s.offFront
  let unsentLen ← subWord s.off unsentOff
  return ({ s with data := [], pos := 0, len := 0, off := unsentOff }, .ok unsentLen)

end Methods

/-- The pieces one `write` cuts its data into: a prefix up to the block boundary, then blocks. -/
def segments (offLen : Nat) (data : Bytes) : List Bytes :=
  if offLen > 0 then
    if data.length > offLen then data.take offLen :: chunks sendBufferSize (data.drop offLen)
    else [data]
  else chunks sendBufferSize data

def place (off : Nat) : List Bytes → List RangeBuf
  | [] => []
  | c :: rest => RangeBuf.ofSlice c off :: place (off + c.length) rest

def total (data : List RangeBuf) : Nat := (data.map (fun b => b.data.length)).sum

theorem lenFn_eq_total (s : SendBuf) : s.lenFn = total s.data := rfl

@[simp] theorem total_append (xs ys : List RangeBuf) : total (xs ++ ys) = total xs + total ys := by
  simp [total]

theorem total_place (off : Nat) (cs : List Bytes) : total (place off cs) = cs.flatten.length := by
  induction cs generalizing off with
  | nil => rfl
  | cons c rest ih =>
    have later := ih (off + c.length)
    simp only [total] at later
    simp [place, total, later, RangeBuf.ofSlice]

theorem foldl_pushChunk (cs : List Bytes) (s : SendBuf) :
    ∃ marks, cs.foldl pushChunk s =
      { s with
        data := s.data ++ place s.off cs
        offsetRecv := marks
        off := s.off + cs.flatten.length
        len := s.len + cs.flatten.length
        usedLength := s.usedLength + cs.flatten.length } := by
  induction cs generalizing s with
  | nil => exact ⟨s.offsetRecv, by simp [place]⟩
  | cons c rest ih =>
    obtain ⟨marks, eq⟩ := ih (s.pushChunk c)
    refine ⟨marks, ?_⟩
    rw [List.foldl_cons, eq]
    simp [pushChunk, place, Nat.add_assoc]

theorem place_offsets_above {off : Nat} {cs : List Bytes} {b : RangeBuf}
    (mem : b ∈ place off cs) : off ≤ b.off ∧ b.off + b.data.length ≤ off + cs.flatten.length := by
  induction cs generalizing off with
  | nil => simp [place] at mem
  | cons c rest ih =>
    rcases List.mem_cons.mp mem with same | later
    · subst same
      simp [RangeBuf.ofSlice]
    · obtain ⟨lower, upper⟩ := ih later
      simp only [List.flatten_cons, List.length_append]
      omega

theorem place_mem {off : Nat} {cs : List Bytes} {b : RangeBuf} (mem : b ∈ place off cs) :
    b.Whole ∧ b.data ∈ cs := by
  induction cs generalizing off with
  | nil => simp [place] at mem
  | cons c rest ih =>
    rcases List.mem_cons.mp mem with same | later
    · subst same
      exact ⟨whole_ofSlice c off, by simp [RangeBuf.ofSlice]⟩
    · obtain ⟨whole, inside⟩ := ih later
      exact ⟨whole, List.mem_cons_of_mem c inside⟩

theorem foldl_pushChunk_marks {cs : List Bytes} {s : SendBuf}
    (below : ∀ e ∈ s.offsetRecv.entries, e.1 < s.off) (filled : ∀ c ∈ cs, c ≠ []) :
    (cs.foldl pushChunk s).offsetRecv.entries =
      s.offsetRecv.entries ++ (place s.off cs).map (fun b => (b.off, true)) := by
  induction cs generalizing s with
  | nil => simp [place]
  | cons c rest ih =>
    have positive : 0 < c.length := List.length_pos_iff.mpr (filled c (by simp))
    have grown : (s.pushChunk c).offsetRecv.entries = s.offsetRecv.entries ++ [(s.off, true)] :=
      OrdMap.entries_insert_above below
    have below' : ∀ e ∈ (s.pushChunk c).offsetRecv.entries, e.1 < (s.pushChunk c).off := by
      intro e mem
      rw [grown, List.mem_append, List.mem_singleton] at mem
      simp only [pushChunk]
      rcases mem with old | new
      · have := below e old
        omega
      · simp only [new]
        omega
    rw [List.foldl_cons, ih below' (fun d mem => filled d (List.mem_cons_of_mem c mem)), grown]
    simp [place, pushChunk, RangeBuf.ofSlice]

theorem segments_flatten (offLen : Nat) (data : Bytes) : (segments offLen data).flatten = data := by
  have positive : 0 < sendBufferSize := by decide
  unfold segments
  split
  · split
    · rw [List.flatten_cons, chunks_flatten positive, List.take_append_drop]
    · simp
  · exact chunks_flatten positive data

theorem mem_segments {offLen : Nat} {data c : Bytes} (mem : c ∈ segments offLen data) :
    (0 < offLen ∧ c = data.take offLen) ∨ ∃ rest, c ∈ chunks sendBufferSize rest := by
  unfold segments at mem
  split at mem
  · rename_i unaligned
    split at mem
    · rcases List.mem_cons.mp mem with same | later
      · exact Or.inl ⟨unaligned, same⟩
      · exact Or.inr ⟨_, later⟩
    · rename_i short
      rw [List.mem_singleton.mp mem, List.take_of_length_le (Nat.le_of_not_lt short)]
      exact Or.inl ⟨unaligned, rfl⟩
  · exact Or.inr ⟨_, mem⟩

theorem segments_filled {offLen : Nat} {data c : Bytes} (some_data : data ≠ [])
    (mem : c ∈ segments offLen data) : c ≠ [] := by
  have nonempty : 0 < data.length := List.length_pos_iff.mpr some_data
  rw [← List.length_pos_iff]
  rcases mem_segments mem with ⟨unaligned, rfl⟩ | ⟨rest, block⟩
  · rw [List.length_take]
    omega
  · exact (mem_chunks (by decide) block).1

theorem segments_short {offLen : Nat} {data c : Bytes} (aligned : offLen ≤ sendBufferSize)
    (mem : c ∈ segments offLen data) : c.length ≤ sendBufferSize := by
  rcases mem_segments mem with ⟨_, rfl⟩ | ⟨rest, block⟩
  · rw [List.length_take]
    omega
  · exact (mem_chunks (by decide) block).2

def InBlock (b : RangeBuf) : Prop :=
  0 < b.data.length ∧ b.off % sendBufferSize + b.data.length ≤ sendBufferSize

theorem place_chunksFuel_inBlock (fuel : Nat) (data : Bytes) (off : Nat)
    (aligned : off % sendBufferSize = 0) (b : RangeBuf)
    (mem : b ∈ place off (chunksFuel sendBufferSize fuel data)) : InBlock b := by
  induction fuel generalizing data off with
  | zero => simp [chunksFuel, place] at mem
  | succ fuel ih =>
    cases data with
    | nil => simp [chunksFuel, place] at mem
    | cons a rest =>
      simp only [chunksFuel, place, List.mem_cons] at mem
      rcases mem with same | later
      · subst same
        simp only [sendBufferSize] at aligned
        simp only [InBlock, RangeBuf.ofSlice, List.length_take, List.length_cons, sendBufferSize]
        omega
      · by_cases whole : sendBufferSize ≤ (a :: rest).length
        · refine ih _ _ ?_ later
          rw [List.length_take, Nat.min_eq_left whole]
          simpa using aligned
        · have nothing : (a :: rest).drop sendBufferSize = [] :=
            List.drop_eq_nil_of_le (by omega)
          rw [nothing] at later
          cases fuel <;> simp [chunksFuel, place] at later

theorem place_segments_inBlock {off offLen : Nat} {data : Bytes} {b : RangeBuf}
    (some_data : data ≠ []) (boundary : offLen = (sendBufferSize - off % sendBufferSize) %
      sendBufferSize) (mem : b ∈ place off (segments offLen data)) : InBlock b := by
  have nonempty : 0 < data.length := List.length_pos_iff.mpr some_data
  simp only [sendBufferSize] at boundary
  unfold segments at mem
  split at mem
  · split at mem
    · rcases List.mem_cons.mp mem with same | later
      · subst same
        simp only [InBlock, RangeBuf.ofSlice, List.length_take, sendBufferSize]
        omega
      · refine place_chunksFuel_inBlock _ _ _ ?_ b later
        rw [List.length_take]
        simp only [sendBufferSize]
        omega
    · simp only [place, List.mem_singleton] at mem
      subst mem
      simp only [InBlock, RangeBuf.ofSlice, sendBufferSize]
      omega
  · refine place_chunksFuel_inBlock _ _ _ ?_ b mem
    simp only [sendBufferSize]
    omega

theorem retainMarked_sublist {data kept : List RangeBuf} {marks : List Bool}
    (done : retainMarked data marks = .ok kept) : kept.Sublist data := by
  induction data generalizing marks kept with
  | nil =>
    simp only [retainMarked, Except.ok.injEq] at done
    subst done
    exact List.Sublist.refl _
  | cons b data ih =>
    cases marks with
    | nil => simp [retainMarked] at done
    | cons keep marks =>
      obtain ⟨rest, later, done⟩ := bind_ok_iff.mp done
      simp only [pure, Except.pure, Except.ok.injEq] at done
      subst done
      have tail := ih later
      cases keep with
      | true => exact tail.cons_cons b
      | false => exact tail.cons b

theorem recvAndDrop_frame {s kept : SendBuf} {maxAck : UInt64}
    (done : s.recvAndDrop maxAck = .ok kept) :
    ∃ data marks, kept = { s with data := data, offsetRecv := marks } ∧ data.Sublist s.data := by
  unfold recvAndDrop at done
  split at done
  · simp only [Except.ok.injEq] at done
    exact ⟨s.data, s.offsetRecv, done.symm, List.Sublist.refl _⟩
  · obtain ⟨data, retained, done⟩ := bind_ok_iff.mp done
    simp only [pure, Except.pure, Except.ok.injEq] at done
    exact ⟨data, _, done.symm, retainMarked_sublist retained⟩

/-- The marks name the buffered chunks, in order. -/
def Lockstep (s : SendBuf) : Prop := s.offsetRecv.keys = s.data.map (fun b => b.off)

theorem retainMarked_lockstep {data : List RangeBuf} {entries : List (Nat × Bool)}
    (lockstep : entries.map Prod.fst = data.map (fun b => b.off)) :
    ∃ kept, retainMarked data (entries.map Prod.snd) = .ok kept ∧
      (entries.filter (fun e => id e.2)).map Prod.fst = kept.map (fun b => b.off) ∧
      (∀ b ∈ kept, (b.off, true) ∈ entries) ∧
      (∀ b ∈ data, b ∉ kept → (b.off, false) ∈ entries) := by
  induction data generalizing entries with
  | nil =>
    have none_left : entries = [] := by simpa using lockstep
    exact ⟨[], by simp [retainMarked], by simp [none_left], by simp, by simp⟩
  | cons b data ih =>
    cases entries with
    | nil => simp at lockstep
    | cons e entries =>
      simp only [List.map_cons, List.cons.injEq] at lockstep
      obtain ⟨kept, retained, keys, keptMarks, droppedMarks⟩ := ih lockstep.2
      obtain ⟨offset, keep⟩ := e
      simp only at lockstep
      obtain ⟨rfl, _⟩ := lockstep
      cases keep with
      | true =>
        refine ⟨b :: kept, ?_, by simpa using keys, ?_, ?_⟩
        · simp [retainMarked, retained, bind, Except.bind, pure, Except.pure]
        · intro c mem
          rcases List.mem_cons.mp mem with same | later
          · simp [same]
          · exact List.mem_cons_of_mem _ (keptMarks c later)
        · intro c mem gone
          rcases List.mem_cons.mp mem with same | later
          · exact absurd (by simp [same]) gone
          · exact List.mem_cons_of_mem _
              (droppedMarks c later (fun h => gone (List.mem_cons_of_mem _ h)))
      | false =>
        refine ⟨kept, ?_, by simpa using keys, ?_, ?_⟩
        · simp [retainMarked, retained, bind, Except.bind, pure, Except.pure]
        · intro c mem
          exact List.mem_cons_of_mem _ (keptMarks c mem)
        · intro c mem gone
          rcases List.mem_cons.mp mem with same | later
          · simp [same]
          · exact List.mem_cons_of_mem _ (droppedMarks c later gone)

theorem recvAndDrop_lockstep {s : SendBuf} (lockstep : s.Lockstep) (maxAck : UInt64) :
    ∃ kept, s.recvAndDrop maxAck = .ok kept ∧ kept.Lockstep ∧
      (∀ e ∈ kept.offsetRecv.entries, e ∈ s.offsetRecv.entries ∧ e.2 = true) ∧
      (∀ b ∈ kept.data, (b.off, true) ∈ s.offsetRecv.entries) ∧
      (∀ b ∈ s.data, b ∉ kept.data → (b.off, false) ∈ s.offsetRecv.entries) := by
  by_cases empty : s.data = []
  · have noMarks : s.offsetRecv.entries = [] := by
      simpa [Lockstep, OrdMap.keys, empty] using lockstep
    exact ⟨s, by simp [recvAndDrop, empty], lockstep, by simp [noMarks], by simp [empty],
      by simp [empty]⟩
  · obtain ⟨kept, retained, keys, keptMarks, droppedMarks⟩ := retainMarked_lockstep lockstep
    refine ⟨{ s with data := kept, offsetRecv := s.offsetRecv.retain id }, ?_, keys, ?_, keptMarks,
      droppedMarks⟩
    · simp only [recvAndDrop, List.isEmpty_iff, empty, ↓reduceIte]
      change (do let data ← retainMarked s.data (s.offsetRecv.entries.map Prod.snd); pure _) = _
      rw [retained]
      rfl
    · intro e mem
      simpa [OrdMap.retain] using mem

theorem settle_frame (s : SendBuf) (n : Nat) :
    ∃ pos, (s.settle n).1 = { s with sent := s.sent + n, pos := pos } := by
  unfold settle
  dsimp only
  split <;> split <;> exact ⟨_, rfl⟩

/-- What `write` makes of the queue `kept` that the acknowledgements left: the chunks cut from
    the front of `data` follow it, and the counters start over from what is queued. -/
structure Filled (kept s' : SendBuf) (data : Bytes) (windowSize offLen n : Nat)
    (pieces : List Bytes) : Prop where
  queue : s'.data = kept.data ++ place kept.off pieces
  marks : (∀ e ∈ kept.offsetRecv.entries, e.1 < kept.off) → s'.offsetRecv.entries =
    kept.offsetRecv.entries ++ (place kept.off pieces).map (fun b => (b.off, true))
  off : s'.off = kept.off + n
  len : s'.len = total s'.data
  usedLength : s'.usedLength = total s'.data
  pos : s'.pos = kept.pos
  sent : s'.sent = 0
  window : s'.maxData = windowSize
  bytes : pieces.flatten = data.take n
  count : n = pieces.flatten.length
  shape : pieces = [] ∨ (pieces = segments offLen (data.take n) ∧ data.take n ≠ [])
  bound : total s'.data ≤ max windowSize (total kept.data)

theorem filled_nothing (kept : SendBuf) (data : Bytes) (windowSize offLen : Nat) :
    Filled kept (kept.openWindow windowSize) data windowSize offLen 0 [] := by
  constructor
  case shape => exact Or.inl rfl
  case bound => exact Nat.le_max_right _ _
  all_goals simp [openWindow, place, lenFn_eq_total]

theorem filled_segments {kept : SendBuf} {data front : Bytes} {windowSize offLen : Nat}
    (cut : front = data.take (windowSize - kept.lenFn)) (some_data : front ≠ []) :
    Filled kept ((segments offLen front).foldl pushChunk (kept.openWindow windowSize)) data
      windowSize offLen front.length (segments offLen front) := by
  have flat := segments_flatten offLen front
  have same : data.take front.length = front := by
    rw [cut, List.length_take, List.take_eq_take_iff]
    omega
  have size : front.length ≤ windowSize - kept.lenFn := by
    rw [cut, List.length_take]
    omega
  have weight : total (place kept.off (segments offLen front)) = front.length := by
    rw [total_place, flat]
  obtain ⟨marks, folded⟩ := foldl_pushChunk (segments offLen front) (kept.openWindow windowSize)
  have queue : ((segments offLen front).foldl pushChunk (kept.openWindow windowSize)).data =
      kept.data ++ place kept.off (segments offLen front) := by rw [folded]; rfl
  constructor
  case queue => exact queue
  case marks =>
    intro below
    exact foldl_pushChunk_marks (s := kept.openWindow windowSize) below
      (fun c mem => segments_filled some_data mem)
  case len =>
    rw [queue, total_append, weight, folded, flat]
    rfl
  case usedLength =>
    rw [queue, total_append, weight, folded, flat]
    rfl
  case bound =>
    rw [queue, total_append, weight]
    rw [lenFn_eq_total] at size
    omega
  case shape => exact Or.inr ⟨by rw [same], by rw [same]; exact some_data⟩
  case bytes => rw [flat, same]
  case count => rw [flat]
  case off =>
    rw [folded, flat]
    rfl
  all_goals rw [folded]; rfl

theorem marks_below {s : SendBuf} {high : Nat} (lockstep : s.Lockstep)
    (below : ∀ b ∈ s.data, b.off < high) : ∀ e ∈ s.offsetRecv.entries, e.1 < high := by
  intro e mem
  have key : e.1 ∈ s.offsetRecv.keys := List.mem_map_of_mem mem
  rw [lockstep] at key
  obtain ⟨b, stored, same⟩ := List.mem_map.mp key
  rw [← same]
  exact below b stored

theorem filled_lockstep {kept s' : SendBuf} {data : Bytes} {windowSize offLen n : Nat}
    {pieces : List Bytes} (filled : Filled kept s' data windowSize offLen n pieces)
    (lockstep : kept.Lockstep) (below : ∀ e ∈ kept.offsetRecv.entries, e.1 < kept.off) :
    s'.Lockstep := by
  have keys : kept.offsetRecv.entries.map Prod.fst = kept.data.map (fun b => b.off) := lockstep
  simp only [Lockstep, OrdMap.keys, filled.marks below, filled.queue, List.map_append, List.map_map,
    keys]
  rfl

theorem filled_standing {kept s' : SendBuf} {data : Bytes} {windowSize offLen n : Nat}
    {pieces : List Bytes} (filled : Filled kept s' data windowSize offLen n pieces)
    (below : ∀ e ∈ kept.offsetRecv.entries, e.1 < kept.off)
    (standing : ∀ e ∈ kept.offsetRecv.entries, e.2 = true) :
    ∀ e ∈ s'.offsetRecv.entries, e.2 = true := by
  intro e mem
  rw [filled.marks below] at mem
  rcases List.mem_append.mp mem with old | new
  · exact standing e old
  · obtain ⟨b, _, rfl⟩ := List.mem_map.mp new
    rfl

structure Queued (b : RangeBuf) : Prop where
  whole : b.Whole
  filled : 0 < b.data.length
  short : b.data.length ≤ sendBufferSize
  word : b.off < wordSize

structure Cut (b : RangeBuf) : Prop where
  whole : b.Whole
  filled : 0 < b.data.length
  short : b.data.length ≤ sendBufferSize

theorem queued_cut {b : RangeBuf} (queued : Queued b) : Cut b :=
  ⟨queued.whole, queued.filled, queued.short⟩

theorem filled_piece {kept s' : SendBuf} {data : Bytes} {windowSize offLen n : Nat}
    {pieces : List Bytes} (filled : Filled kept s' data windowSize offLen n pieces) {c : Bytes}
    (mem : c ∈ pieces) : data.take n ≠ [] ∧ c ∈ segments offLen (data.take n) := by
  rcases filled.shape with none_ | ⟨cut, some_data⟩
  · rw [none_] at mem
    cases mem
  · rw [cut] at mem
    exact ⟨some_data, mem⟩

theorem filled_cut {kept s' : SendBuf} {data : Bytes} {windowSize offLen n : Nat}
    {pieces : List Bytes} (filled : Filled kept s' data windowSize offLen n pieces)
    (aligned : offLen ≤ sendBufferSize) {b : RangeBuf} (mem : b ∈ place kept.off pieces) :
    Cut b := by
  obtain ⟨whole, piece⟩ := place_mem mem
  obtain ⟨some_data, cut⟩ := filled_piece filled piece
  exact ⟨whole, List.length_pos_iff.mpr (segments_filled some_data cut),
    segments_short aligned cut⟩

theorem filled_chunk {kept s' : SendBuf} {data : Bytes} {windowSize offLen n : Nat}
    {pieces : List Bytes} (filled : Filled kept s' data windowSize offLen n pieces)
    {b : RangeBuf} (mem : b ∈ place kept.off pieces) :
    b.Whole ∧ 0 < b.data.length ∧ kept.off ≤ b.off ∧ b.off + b.data.length ≤ s'.off := by
  obtain ⟨whole, piece⟩ := place_mem mem
  obtain ⟨some_data, cut⟩ := filled_piece filled piece
  obtain ⟨low, high⟩ := place_offsets_above mem
  rw [← filled.count] at high
  rw [filled.off]
  exact ⟨whole, List.length_pos_iff.mpr (segments_filled some_data cut), low, high⟩

theorem settle_cases (s : SendBuf) (n : Nat) :
    ((s.settle n).1.pos = 0 ∧ (s.settle n).2 = true) ∨
      ((s.settle n).1.pos = s.pos ∧ (s.settle n).2 = false ∧ s.pos ≠ s.data.length) := by
  unfold settle
  dsimp only
  by_cases full : s.maxData ≤ s.sent + n
  · left
    simp only [full, ↓reduceIte]
    split <;> exact ⟨rfl, rfl⟩
  · simp only [full, ↓reduceIte]
    by_cases ended : s.pos = s.data.length
    · left
      simp [ended]
    · right
      simp [ended]

theorem settle_open {s : SendBuf} {n : Nat} (goes_on : (s.settle n).2 = false) :
    s.sent + n < s.maxData := by
  apply Nat.lt_of_not_le
  intro full
  have ended : (s.settle n).2 = true := by
    unfold settle
    dsimp only
    rw [if_pos full]
    split <;> rfl
  rw [goes_on] at ended
  cases ended

theorem settle_stop_iff (s : SendBuf) (n : Nat) :
    (s.settle n).2 = true ↔ s.maxData ≤ s.sent + n ∨ s.pos = s.data.length := by
  unfold settle
  dsimp only
  by_cases full : s.maxData ≤ s.sent + n
  · rw [if_pos full]
    refine iff_of_true ?_ (Or.inl full)
    split <;> rfl
  · rw [if_neg full]
    by_cases ended : s.pos = s.data.length
    · simp [ended]
    · simp [full, ended]

section Methods
variable [Profile]

theorem cap_openWindow {kept : SendBuf} {windowSize : Nat} (alive : kept.error = none)
    (open_ : kept.lenFn ≤ windowSize) : (kept.openWindow windowSize).cap =
      .ok (kept.openWindow windowSize, .ok (windowSize - kept.lenFn)) := by
  have room : subWord windowSize kept.lenFn = .ok (windowSize - kept.lenFn) := subWord_fits open_
  simp only [cap, openWindow, alive]
  change (do let room ← subWord windowSize kept.lenFn; pure _) = _
  rw [room]
  rfl

theorem write_cases {s s' : SendBuf} {data : Bytes} {windowSize offLen n : Nat} {maxAck : UInt64}
    (done : s.write data windowSize offLen maxAck = .ok (s', .ok n)) :
    ∃ kept, s.recvAndDrop maxAck = .ok kept ∧
      ((s' = kept.openWindow windowSize ∧ n = 0) ∨
       (∃ front, front = data.take (windowSize - kept.lenFn) ∧ front ≠ [] ∧
          kept.lenFn < windowSize ∧ n = front.length ∧
          s' = (segments offLen front).foldl pushChunk (kept.openWindow windowSize))) := by
  unfold write at done
  obtain ⟨kept, dropped, done⟩ := bind_ok_iff.mp done
  refine ⟨kept, dropped, ?_⟩
  have opened : (kept.openWindow windowSize).len = kept.lenFn := rfl
  simp only [opened] at done
  split at done
  · simp only [pure, Except.pure, Except.ok.injEq, Prod.mk.injEq] at done
    exact Or.inl ⟨done.1.symm, done.2.symm⟩
  · rename_i open_
    split at done
    · simp only [pure, Except.pure, Except.ok.injEq, Prod.mk.injEq] at done
      exact Or.inl ⟨done.1.symm, done.2.symm⟩
    · rename_i some_data
      refine Or.inr ⟨data.take (windowSize - kept.lenFn), rfl, ?_, by omega, ?_⟩
      · have positive : 0 < data.length := by omega
        rw [← List.length_pos_iff, List.length_take]
        omega
      · cases stopped : kept.error with
        | some e =>
          have refused : (kept.openWindow windowSize).cap =
              .ok (kept.openWindow windowSize, .error (.streamStopped e)) := by
            simp [cap, openWindow, stopped]
          rw [refused] at done
          simp [bind, Except.bind, pure, Except.pure] at done
        | none =>
          have cut : (if data.length > windowSize - kept.lenFn then
              data.take (windowSize - kept.lenFn) else data) =
                data.take (windowSize - kept.lenFn) := by
            split
            · rfl
            · exact (List.take_of_length_le (by omega)).symm
          have filled : (data.take (windowSize - kept.lenFn)).isEmpty = false := by
            rw [List.isEmpty_eq_false_iff, ← List.length_pos_iff, List.length_take]
            omega
          rw [cap_openWindow stopped (by omega), ok_bind] at done
          simp only [cut, filled, Bool.false_eq_true, ↓reduceIte] at done
          unfold segments
          split at done
          · rename_i prefixed
            rw [if_pos prefixed]
            split at done
            · rename_i beyond
              simp only [pure, Except.pure, Except.ok.injEq, Prod.mk.injEq] at done
              rw [if_pos beyond, List.foldl_cons]
              refine ⟨?_, done.1.symm⟩
              rw [← done.2, List.length_drop]
              omega
            · rename_i within
              simp only [pure, Except.pure, Except.ok.injEq, Prod.mk.injEq] at done
              rw [if_neg within]
              exact ⟨done.2.symm, done.1.symm⟩
          · rename_i boundary
            simp only [pure, Except.pure, Except.ok.injEq, Prod.mk.injEq] at done
            rw [if_neg boundary]
            exact ⟨done.2.symm, done.1.symm⟩

theorem write_refused {s s' : SendBuf} {data : Bytes} {windowSize offLen : Nat} {maxAck : UInt64}
    {e : Error} (done : s.write data windowSize offLen maxAck = .ok (s', .error e)) :
    ∃ kept, s.recvAndDrop maxAck = .ok kept ∧ s' = kept.openWindow windowSize := by
  unfold write at done
  obtain ⟨kept, dropped, done⟩ := bind_ok_iff.mp done
  have opened : (kept.openWindow windowSize).len = kept.lenFn := rfl
  simp only [opened] at done
  split at done
  · simp [pure, Except.pure] at done
  · rename_i open_
    split at done
    · simp [pure, Except.pure] at done
    · cases stopped : kept.error with
      | some code =>
        have refused : (kept.openWindow windowSize).cap =
            .ok (kept.openWindow windowSize, .error (.streamStopped code)) := by
          simp [cap, openWindow, stopped]
        rw [refused, ok_bind] at done
        simp only [pure, Except.pure, Except.ok.injEq, Prod.mk.injEq] at done
        exact ⟨kept, dropped, done.1.symm⟩
      | none =>
        rw [cap_openWindow stopped (by omega), ok_bind] at done
        dsimp only at done
        generalize (if data.length > windowSize - kept.lenFn then
          data.take (windowSize - kept.lenFn) else data) = front at done
        split at done
        · simp [pure, Except.pure] at done
        · split at done
          · split at done <;> cases done
          · cases done

theorem write_error {s s' : SendBuf} {data : Bytes} {windowSize offLen n : Nat} {maxAck : UInt64}
    (done : s.write data windowSize offLen maxAck = .ok (s', .ok n)) : s'.error = s.error := by
  obtain ⟨kept, dropped, nothing | wrote⟩ := write_cases done
  · obtain ⟨_, _, rfl, _⟩ := recvAndDrop_frame dropped
    rw [nothing.1]
    rfl
  · obtain ⟨_, _, rfl, _⟩ := recvAndDrop_frame dropped
    obtain ⟨front, _, _, _, _, rfl⟩ := wrote
    obtain ⟨marks, folded⟩ := foldl_pushChunk (segments offLen front) (openWindow _ windowSize)
    rw [folded]
    rfl

theorem write_filled {s s' : SendBuf} {data : Bytes} {windowSize offLen n : Nat} {maxAck : UInt64}
    (done : s.write data windowSize offLen maxAck = .ok (s', .ok n)) :
    ∃ kept pieces, s.recvAndDrop maxAck = .ok kept ∧
      Filled kept s' data windowSize offLen n pieces := by
  obtain ⟨kept, dropped, nothing | wrote⟩ := write_cases done
  · obtain ⟨rfl, rfl⟩ := nothing
    exact ⟨kept, [], dropped, filled_nothing kept data windowSize offLen⟩
  · obtain ⟨front, cut, some_data, _, rfl, rfl⟩ := wrote
    exact ⟨kept, _, dropped, filled_segments cut some_data⟩

theorem write_fills {s s' : SendBuf} {data : Bytes} {window offLen n : Nat} {maxAck : UInt64}
    (done : s.write data window offLen maxAck = .ok (s', .ok n)) :
    window ≤ total s'.data ∨ n = data.length := by
  obtain ⟨kept, pieces, dropped, filled⟩ := write_filled done
  have queue : total s'.data = total kept.data + n := by
    rw [filled.queue, total_append, total_place, ← filled.count]
  have taken : n ≤ data.length := by
    have bytes := congrArg List.length filled.bytes
    rw [← filled.count, List.length_take] at bytes
    omega
  unfold write at done
  rw [dropped, ok_bind] at done
  have opened : (kept.openWindow window).len = kept.lenFn := rfl
  simp only [opened] at done
  split at done
  · rename_i full
    rw [lenFn_eq_total] at full
    omega
  · rename_i room
    split at done
    · omega
    · cases stopped : kept.error with
      | some e =>
        have refused : (kept.openWindow window).cap =
            .ok (kept.openWindow window, .error (.streamStopped e)) := by
          simp [cap, openWindow, stopped]
        rw [refused] at done
        simp [bind, Except.bind, pure, Except.pure] at done
      | none =>
        rw [cap_openWindow stopped (by omega), ok_bind] at done
        rw [lenFn_eq_total] at done room
        have width : (if data.length > window - total kept.data then
            data.take (window - total kept.data) else data).length =
              min (window - total kept.data) data.length := by
          split
          · rw [List.length_take]
          · omega
        dsimp only at done
        generalize (if data.length > window - total kept.data then
          data.take (window - total kept.data) else data) = front at done width
        have count : n = front.length := by
          split at done
          · simp only [pure, Except.pure, Except.ok.injEq, Prod.mk.injEq] at done
            exact done.2.symm
          · split at done
            · split at done
              · simp only [pure, Except.pure, Except.ok.injEq, Prod.mk.injEq] at done
                rw [← done.2, List.length_drop]
                omega
              · simp only [pure, Except.pure, Except.ok.injEq, Prod.mk.injEq] at done
                exact done.2.symm
            · simp only [pure, Except.pure, Except.ok.injEq, Prod.mk.injEq] at done
              exact done.2.symm
        omega

theorem write_first {s s' : SendBuf} (empty : s.data = []) {data : Bytes} {w n : Nat}
    {maxAck : UInt64} (stored : s.write data w 0 maxAck = .ok (s', .ok n)) (floor : 1024 ≤ w) :
    (1024 ≤ n ∨ n = data.length) ∧ s'.pos = s.pos ∧ (0 < data.length →
      ∃ b rest, s'.data = b :: rest ∧ b.off = s.off ∧ b.data = data.take 1024) := by
  obtain ⟨kept, pieces, dropped, filled⟩ := write_filled stored
  have same : s.recvAndDrop maxAck = .ok s := by simp [recvAndDrop, empty]
  rw [same, Except.ok.injEq] at dropped
  subst dropped
  have queue := filled.queue
  rw [empty, List.nil_append] at queue
  have enough : 1024 ≤ n ∨ n = data.length := by
    rcases write_fills stored with full | all
    · rw [queue, total_place, ← filled.count] at full
      exact Or.inl (by omega)
    · exact Or.inr all
  refine ⟨enough, filled.pos, fun some_data => ?_⟩
  have front : (data.take n).take sendBufferSize = data.take 1024 := by
    rw [sendBufferSize, List.take_take]
    rcases enough with block | rfl
    · rw [Nat.min_eq_left block]
    · rw [List.take_eq_take_iff]
      omega
  rcases filled.shape with nothing | ⟨shape, some_bytes⟩
  · have count := filled.count
    rw [nothing] at count
    simp only [List.flatten_nil, List.length_nil] at count
    omega
  · obtain ⟨x, xs, cut⟩ := List.exists_cons_of_ne_nil some_bytes
    have chunked : chunks sendBufferSize (data.take n) =
        (data.take n).take sendBufferSize ::
          chunksFuel sendBufferSize xs.length ((data.take n).drop sendBufferSize) := by
      rw [cut]
      rfl
    rw [segments, if_neg (Nat.lt_irrefl 0), chunked, front] at shape
    rw [shape] at queue
    exact ⟨_, _, queue, rfl, rfl⟩

theorem write_returns {s : SendBuf} (empty : s.data = []) (alive : s.error = none) (data : Bytes)
    (window offLen : Nat) (maxAck : UInt64) :
    ∃ s' n, s.write data window offLen maxAck = .ok (s', .ok n) := by
  have kept : s.recvAndDrop maxAck = .ok s := by simp [recvAndDrop, empty]
  have unused : s.lenFn = 0 := by simp [lenFn, empty]
  unfold write
  rw [kept, ok_bind]
  dsimp only
  split
  · exact ⟨_, _, rfl⟩
  · split
    · exact ⟨_, _, rfl⟩
    · rw [cap_openWindow alive (by omega), ok_bind]
      dsimp only
      generalize (if data.length > window - s.lenFn then data.take (window - s.lenFn)
        else data) = front
      split
      · exact ⟨_, _, rfl⟩
      · split
        · split <;> exact ⟨_, _, rfl⟩
        · exact ⟨_, _, rfl⟩

theorem offFront_chunk {s : SendBuf} {b : RangeBuf} {rest : List RangeBuf}
    (queued : Queued b) (front : s.data.drop s.pos = b :: rest) : s.offFront = .ok b.off := by
  simp only [offFront, front, offFrontFrom, whole_isEmpty queued.whole queued.filled, ok_bind,
    Bool.false_eq_true, ↓reduceIte, whole_offFn queued.whole queued.word]

theorem offFront_end {s : SendBuf} (past : s.data.length ≤ s.pos) : s.offFront = .ok s.off := by
  simp [offFront, List.drop_eq_nil_of_le past, offFrontFrom]

theorem offFront_queued {s : SendBuf} (queued : ∀ b ∈ s.data, Queued b) :
    ∃ off, s.offFront = .ok off := by
  cases front : s.data.drop s.pos with
  | nil => exact ⟨_, offFront_end (List.drop_eq_nil_iff.mp front)⟩
  | cons b rest =>
    have mem : b ∈ s.data := List.mem_of_mem_drop (by rw [front]; simp)
    exact ⟨_, offFront_chunk (queued b mem) front⟩

theorem emit_first {s : SendBuf} {out : Bytes} {b : RangeBuf} {rest : List RangeBuf} {off : Nat}
    (whole : b.Whole) (filled : 0 < b.data.length) (front : s.data.drop s.pos = b :: rest)
    (low : s.offFront = .ok off) (room : sendBufferSize ≤ out.length) {n : Nat}
    (size : n = min b.data.length out.length) : s.emit out = (do
      let len ← subWord s.len n
      let usedLength ← subWord s.usedLength n
      let s' := settle { s with len := len, usedLength := usedLength, pos := s.pos + 1 } n
      return (s'.1, splice out 0 (b.data.take n), .ok (n, off, s'.2))) := by
  have nonempty : s.data ≠ [] := by
    intro empty
    simp [empty] at front
  have ready : s.ready = true := by simpa [SendBuf.ready] using nonempty
  have source : slice b.data 0 n = .ok (b.data.take n) := slice_fits (Nat.zero_le _) (by omega)
  have target : slice out 0 n = .ok (out.take n) := slice_fits (Nat.zero_le _) (by omega)
  have partly : n ≤ b.data.length := by omega
  have enter : (decide (out.length < sendBufferSize) || !s.ready) = false := by
    simp [ready, room]
  simp only [emit, low, ok_bind, front, emitLoop, enter, Bool.false_eq_true, ↓reduceIte,
    whole_isEmpty whole filled, whole_lenFn whole, ← size, source, target, partly]
  cases subWord s.len n with
  | error p => rfl
  | ok len =>
    cases subWord s.usedLength n with
    | error p => rfl
    | ok usedLength => rfl

theorem offFront_word {s : SendBuf} {b : RangeBuf} {rest : List RangeBuf} {off : Nat}
    (whole : b.Whole) (filled : 0 < b.data.length) (front : s.data.drop s.pos = b :: rest)
    (low : s.offFront = .ok off) : off = b.off % wordSize := by
  simp only [offFront, front, offFrontFrom, whole_isEmpty whole filled, ok_bind,
    Bool.false_eq_true, ↓reduceIte] at low
  exact whole_offFn_word whole low

theorem emit_cut {s : SendBuf} {out : Bytes} {b : RangeBuf} {rest : List RangeBuf} {off : Nat}
    (cut : Cut b) (front : s.data.drop s.pos = b :: rest) (low : s.offFront = .ok off)
    (room : sendBufferSize ≤ out.length) : s.emit out = (do
      let len ← subWord s.len b.data.length
      let usedLength ← subWord s.usedLength b.data.length
      let s' := settle { s with len := len, usedLength := usedLength, pos := s.pos + 1 }
        b.data.length
      return (s'.1, splice out 0 b.data, .ok (b.data.length, off, s'.2))) := by
  have short := cut.short
  have first := emit_first cut.whole cut.filled front low room
    (by omega : b.data.length = min b.data.length out.length)
  rw [List.take_length] at first
  exact first

theorem emit_chunk {s : SendBuf} {out : Bytes} {b : RangeBuf} {rest : List RangeBuf}
    (queued : Queued b) (front : s.data.drop s.pos = b :: rest)
    (room : sendBufferSize ≤ out.length) : s.emit out = (do
      let len ← subWord s.len b.data.length
      let usedLength ← subWord s.usedLength b.data.length
      let s' := settle { s with len := len, usedLength := usedLength, pos := s.pos + 1 }
        b.data.length
      return (s'.1, splice out 0 b.data, .ok (b.data.length, b.off, s'.2))) :=
  emit_cut (queued_cut queued) front (offFront_chunk queued front) room

theorem emit_nothing {s : SendBuf} {out : Bytes} {off : Nat} (front : s.offFront = .ok off)
    (idle : s.data.length ≤ s.pos ∨ out.length < sendBufferSize) :
    s.emit out = .ok ((s.settle out.length).1, out,
      .ok (out.length, off, (s.settle out.length).2)) := by
  have loop : s.emitLoop out out.length (s.data.drop s.pos) = .ok (s, out, out.length) := by
    rcases idle with past | short
    · simp [List.drop_eq_nil_of_le past, emitLoop]
    · cases s.data.drop s.pos with
      | nil => rfl
      | cons b rest => simp [emitLoop, short]
  simp only [emit, front, ok_bind, loop]
  rfl

inductive EmitCase (s : SendBuf) (out : Bytes) : SendBuf × Bytes × Nat × Nat × Bool → Prop where
  | chunk {b : RangeBuf} {rest : List RangeBuf} {len usedLength : Nat}
      (front : s.data.drop s.pos = b :: rest) (room : sendBufferSize ≤ out.length)
      (left : subWord s.len b.data.length = .ok len)
      (used : subWord s.usedLength b.data.length = .ok usedLength) :
      EmitCase s out
        ((settle { s with len := len, usedLength := usedLength, pos := s.pos + 1 }
            b.data.length).1, splice out 0 b.data, b.data.length, b.off,
          (settle { s with len := len, usedLength := usedLength, pos := s.pos + 1 }
            b.data.length).2)
  | cramped {b : RangeBuf} {rest : List RangeBuf} (front : s.data.drop s.pos = b :: rest)
      (short : out.length < sendBufferSize) :
      EmitCase s out ((s.settle out.length).1, out, out.length, b.off, (s.settle out.length).2)
  | past (beyond : s.data.length ≤ s.pos) :
      EmitCase s out ((s.settle out.length).1, out, out.length, s.off, (s.settle out.length).2)

theorem emit_cases {s s' : SendBuf} {out out' : Bytes} {n off : Nat} {stop : Bool}
    (queued : ∀ b ∈ s.data, Queued b)
    (done : s.emit out = .ok (s', out', .ok (n, off, stop))) :
    EmitCase s out (s', out', n, off, stop) := by
  cases front : s.data.drop s.pos with
  | nil =>
    have beyond : s.data.length ≤ s.pos := List.drop_eq_nil_iff.mp front
    rw [emit_nothing (offFront_end beyond) (Or.inl beyond)] at done
    simp only [Except.ok.injEq, Prod.mk.injEq] at done
    obtain ⟨rfl, rfl, rfl, rfl, rfl⟩ := done
    exact .past beyond
  | cons b rest =>
    have mem : b ∈ s.data := List.mem_of_mem_drop (by rw [front]; simp)
    by_cases room : sendBufferSize ≤ out.length
    · rw [emit_chunk (queued b mem) front room] at done
      obtain ⟨len, left, done⟩ := bind_ok_iff.mp done
      obtain ⟨usedLength, used, done⟩ := bind_ok_iff.mp done
      simp only [pure, Except.pure, Except.ok.injEq, Prod.mk.injEq] at done
      obtain ⟨rfl, rfl, rfl, rfl, rfl⟩ := done
      exact .chunk front room left used
    · have short : out.length < sendBufferSize := Nat.lt_of_not_le room
      rw [emit_nothing (offFront_chunk (queued b mem) front) (Or.inr short)] at done
      simp only [Except.ok.injEq, Prod.mk.injEq] at done
      obtain ⟨rfl, rfl, rfl, rfl, rfl⟩ := done
      exact .cramped front short

theorem emit_succeeds {s : SendBuf} (queued : ∀ b ∈ s.data, Queued b)
    (covered : ∀ b rest, s.data.drop s.pos = b :: rest →
      b.data.length ≤ s.len ∧ b.data.length ≤ s.usedLength) (out : Bytes) :
    ∃ r, s.emit out = .ok r := by
  cases front : s.data.drop s.pos with
  | nil =>
    have beyond : s.data.length ≤ s.pos := List.drop_eq_nil_iff.mp front
    exact ⟨_, emit_nothing (offFront_end beyond) (Or.inl beyond)⟩
  | cons b rest =>
    have mem : b ∈ s.data := List.mem_of_mem_drop (by rw [front]; simp)
    obtain ⟨left, used⟩ := covered b rest front
    by_cases room : sendBufferSize ≤ out.length
    · rw [emit_chunk (queued b mem) front room, subWord_fits left, ok_bind, subWord_fits used,
        ok_bind]
      exact ⟨_, rfl⟩
    · exact ⟨_, emit_nothing (offFront_chunk (queued b mem) front)
        (Or.inr (Nat.lt_of_not_le room))⟩

theorem emit_returns_iff {s : SendBuf} {out : Bytes} (cut : ∀ b ∈ s.data, Cut b) {off : Nat}
    (low : s.offFront = .ok off) :
    (∃ s' out' n stop, s.emit out = .ok (s', out', .ok (n, off, stop))) ↔
      (Profile.overflowChecks = true → sendBufferSize ≤ out.length →
        ∀ b rest, s.data.drop s.pos = b :: rest →
          b.data.length ≤ s.len ∧ b.data.length ≤ s.usedLength) := by
  cases front : s.data.drop s.pos with
  | nil =>
    have beyond : s.data.length ≤ s.pos := List.drop_eq_nil_iff.mp front
    constructor
    · intro _ _ _ b rest nothing
      cases nothing
    · intro _
      exact ⟨_, _, _, _, emit_nothing low (Or.inl beyond)⟩
  | cons b rest =>
    have mem : b ∈ s.data := List.mem_of_mem_drop (by rw [front]; simp)
    by_cases room : sendBufferSize ≤ out.length
    · constructor
      · rintro ⟨s', out', n, stop, emitted⟩ checks _ b' rest' same
        cases same
        rw [emit_cut (cut b mem) front low room] at emitted
        obtain ⟨len, left, emitted⟩ := bind_ok_iff.mp emitted
        obtain ⟨usedLength, used, _⟩ := bind_ok_iff.mp emitted
        exact ⟨subWord_ok_iff.mp ⟨len, left⟩ checks, subWord_ok_iff.mp ⟨usedLength, used⟩ checks⟩
      · intro covered
        obtain ⟨len, left⟩ : ∃ len, subWord s.len b.data.length = .ok len :=
          subWord_ok_iff.mpr (fun checks => (covered checks room b rest rfl).1)
        obtain ⟨usedLength, used⟩ : ∃ used, subWord s.usedLength b.data.length = .ok used :=
          subWord_ok_iff.mpr (fun checks => (covered checks room b rest rfl).2)
        rw [emit_cut (cut b mem) front low room, left, ok_bind, used, ok_bind]
        exact ⟨_, _, _, _, rfl⟩
    · constructor
      · intro _ _ roomy
        exact absurd roomy room
      · intro _
        exact ⟨_, _, _, _, emit_nothing low (Or.inr (Nat.lt_of_not_le room))⟩

theorem emitLoop_frame {s s' : SendBuf} {out out' : Bytes} {n n' : Nat} {l : List RangeBuf}
    (fits : n ≤ out.length) (done : s.emitLoop out n l = .ok (s', out', n')) :
    (∃ len usedLength pos, s' = { s with len := len, usedLength := usedLength, pos := pos }) ∧
      out'.length = out.length ∧ n' ≤ out.length := by
  induction l generalizing s out n with
  | nil =>
    simp only [emitLoop, Except.ok.injEq, Prod.mk.injEq] at done
    obtain ⟨rfl, rfl, rfl⟩ := done
    exact ⟨⟨_, _, _, rfl⟩, rfl, fits⟩
  | cons b rest ih =>
    simp only [emitLoop] at done
    split at done
    · simp only [Except.ok.injEq, Prod.mk.injEq] at done
      obtain ⟨rfl, rfl, rfl⟩ := done
      exact ⟨⟨_, _, _, rfl⟩, rfl, fits⟩
    · obtain ⟨empty, _, done⟩ := bind_ok_iff.mp done
      split at done
      · obtain ⟨⟨len, used, pos, eq⟩, lengths⟩ := ih fits done
        exact ⟨⟨len, used, pos, eq⟩, lengths⟩
      · obtain ⟨length, _, done⟩ := bind_ok_iff.mp done
        obtain ⟨source, cut, done⟩ := bind_ok_iff.mp done
        obtain ⟨_, _, done⟩ := bind_ok_iff.mp done
        obtain ⟨len, _, done⟩ := bind_ok_iff.mp done
        obtain ⟨used, _, done⟩ := bind_ok_iff.mp done
        have width : source.length = min length n := by
          unfold slice at cut
          split at cut
          · rename_i inside
            simp only [Except.ok.injEq] at cut
            subst cut
            simp
            omega
          · simp at cut
        have kept : (splice out 0 source).length = out.length := splice_length (by omega)
        split at done
        · simp only [Except.ok.injEq, Prod.mk.injEq] at done
          obtain ⟨rfl, rfl, rfl⟩ := done
          exact ⟨⟨len, used, _, rfl⟩, kept, by omega⟩
        · obtain ⟨⟨len', used', pos', eq⟩, length', bound⟩ := ih (by omega) done
          rw [kept] at length' bound
          exact ⟨⟨len', used', pos', eq⟩, length', bound⟩

theorem emit_frame {s s' : SendBuf} {out out' : Bytes} {r : Except Error (Nat × Nat × Bool)}
    (done : s.emit out = .ok (s', out', r)) :
    (∃ len usedLength pos sent, s' =
      { s with len := len, usedLength := usedLength, pos := pos, sent := sent }) ∧
      out'.length = out.length ∧ ∃ n off stop, r = .ok (n, off, stop) ∧ n ≤ out.length := by
  unfold emit at done
  obtain ⟨off, _, done⟩ := bind_ok_iff.mp done
  obtain ⟨⟨s1, out1, n⟩, looped, done⟩ := bind_ok_iff.mp done
  obtain ⟨⟨len, used, pos, rfl⟩, length, bound⟩ := emitLoop_frame (Nat.le_refl _) looped
  simp only [pure, Except.pure, Except.ok.injEq, Prod.mk.injEq] at done
  obtain ⟨rfl, rfl, rfl⟩ := done
  obtain ⟨pos', eq⟩ := settle_frame { s with len := len, usedLength := used, pos := pos } n
  exact ⟨⟨len, used, pos', _, eq⟩, length, n, off, _, rfl, bound⟩

theorem emit_front {s s' : SendBuf} {out out' : Bytes} {n off : Nat} {stop : Bool}
    (done : s.emit out = .ok (s', out', .ok (n, off, stop))) : s.offFront = .ok off := by
  unfold emit at done
  obtain ⟨low, front, done⟩ := bind_ok_iff.mp done
  obtain ⟨⟨s1, out1, n1⟩, _, done⟩ := bind_ok_iff.mp done
  simp only [pure, Except.pure, Except.ok.injEq, Prod.mk.injEq] at done
  obtain ⟨_, _, _, rfl, _⟩ := done
  exact front

theorem emit_size {s s' : SendBuf} {out out' : Bytes} {n off : Nat} {stop : Bool}
    (done : s.emit out = .ok (s', out', .ok (n, off, stop))) :
    n ≤ out'.length ∧ out'.length = out.length := by
  obtain ⟨_, length, n', off', stop', same, bound⟩ := emit_frame done
  simp only [Except.ok.injEq, Prod.mk.injEq] at same
  omega

/-- What `emit` does over chunks of any length: it copies from the chunk under the cursor, or it
    copies nothing and counts the whole output buffer. -/
inductive EmitStep (s : SendBuf) (out : Bytes) : SendBuf → Bytes → Nat → Nat → Bool → Prop where
  | copied {b : RangeBuf} {rest : List RangeBuf} {n off len usedLength : Nat}
      (front : s.data.drop s.pos = b :: rest) (room : sendBufferSize ≤ out.length)
      (size : n = min b.data.length out.length) (low : off = b.off % wordSize)
      (left : subWord s.len n = .ok len) (used : subWord s.usedLength n = .ok usedLength) :
      EmitStep s out
        (settle { s with len := len, usedLength := usedLength, pos := s.pos + 1 } n).1
        (splice out 0 (b.data.take n)) n off
        (settle { s with len := len, usedLength := usedLength, pos := s.pos + 1 } n).2
  | idle {off : Nat} (nothing : s.data.length ≤ s.pos ∨ out.length < sendBufferSize)
      (low : s.offFront = .ok off) :
      EmitStep s out (s.settle out.length).1 out out.length off (s.settle out.length).2

theorem emit_step {s s' : SendBuf} {out out' : Bytes} {n off : Nat} {stop : Bool}
    (chunks : ∀ b ∈ s.data, b.Whole ∧ 0 < b.data.length)
    (done : s.emit out = .ok (s', out', .ok (n, off, stop))) : EmitStep s out s' out' n off stop := by
  have low := emit_front done
  by_cases idle : s.data.length ≤ s.pos ∨ out.length < sendBufferSize
  · rw [emit_nothing low idle] at done
    simp only [Except.ok.injEq, Prod.mk.injEq] at done
    obtain ⟨rfl, rfl, rfl, -, rfl⟩ := done
    exact .idle idle low
  · rw [not_or, Nat.not_le, Nat.not_lt] at idle
    obtain ⟨inside, room⟩ := idle
    have front := List.drop_eq_getElem_cons inside
    obtain ⟨whole, filled⟩ := chunks _ (List.getElem_mem inside)
    rw [emit_first whole filled front low room rfl] at done
    obtain ⟨len, left, done⟩ := bind_ok_iff.mp done
    obtain ⟨usedLength, used, done⟩ := bind_ok_iff.mp done
    simp only [pure, Except.pure, Except.ok.injEq, Prod.mk.injEq] at done
    obtain ⟨rfl, rfl, rfl, -, rfl⟩ := done
    exact .copied front room rfl (offFront_word whole filled front low) left used

end Methods

end SendBuf

end DmludpSend
