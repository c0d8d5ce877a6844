import Dmludp.Endpoint.ReferenceInstance
import Mathlib.Order.CompletePartialOrder
import Mathlib.Order.Interval.Set.Disjoint

/- The read cursor of the receive buffer. While the buffered chunks lie apart from each other and
   ahead of the cursor, `emit` meets them in the order of their ends, which is the order of their
   starts, so that none of its subtractions goes below zero and none of its slices out of bounds. -/
namespace DmludpReadCursor
open ByteCursor RustOutcome BreakLoop TracedRun OrderedMap DmludpPacket DmludpRange DmludpRecv
open DmludpReference

def span (b : RangeBuf) : Set Nat := Set.Ico b.off (b.off + b.len)

def Made (b : RangeBuf) : Prop :=
  ∃ content off n, b = (RangeBuf.ofSlice content off).consume n

def AllMade (r : RecvBuf) : Prop := ∀ e ∈ r.data.entries, Made e.2

structure Good (r : RecvBuf) : Prop where
  made : AllMade r
  keyed : ∀ e ∈ r.data.entries, e.1 = e.2.off + e.2.len ∧ e.1 < wordSize
  apart : ∀ d ∈ r.data.entries, ∀ e ∈ r.data.entries, d.1 ≠ e.1 → Disjoint (span d.2) (span e.2)
  unread : ∀ e ∈ r.data.entries, e.2.pos < e.2.len ∧ r.lastMaxoff ≤ e.2.off + e.2.pos

/-- A chunk that may be written: not behind the cursor, and apart from every buffered chunk or in
    the place of one. -/
structure Fits (r : RecvBuf) (off : Nat) (content : Bytes) : Prop where
  filled : content ≠ []
  word : off + content.length < wordSize
  ahead : r.lastMaxoff ≤ off
  room : (∀ e ∈ r.data.entries, Disjoint (Set.Ico off (off + content.length)) (span e.2)) ∨
    ∃ e ∈ r.data.entries, span e.2 = Set.Ico off (off + content.length)

theorem made_ofSlice (content : Bytes) (off : Nat) : Made (RangeBuf.ofSlice content off) :=
  ⟨content, off, 0, rfl⟩

theorem made_consume {b : RangeBuf} (made : Made b) (n : Nat) : Made (b.consume n) := by
  obtain ⟨content, off, m, rfl⟩ := made
  exact ⟨content, off, m + n, by simp [RangeBuf.consume, Nat.add_assoc]⟩

theorem made_partial {b : RangeBuf} (part : b.Partial) : Made b := by
  obtain ⟨data, start, pos, len, off⟩ := b
  obtain ⟨start_zero, len_eq, _, _⟩ := part
  dsimp only at start_zero len_eq
  subst start_zero len_eq
  exact ⟨data, off, pos, by simp [RangeBuf.ofSlice, RangeBuf.consume]⟩

theorem good_cleared {r : RecvBuf} (empty : r.data = OrdMap.empty) : Good r := by
  refine ⟨?_, ?_, ?_, ?_⟩ <;> simp [AllMade, empty, OrdMap.empty]

theorem good_new : Good RecvBuf.new := good_cleared rfl

/-- The chunk `b`, stored under its end, has unread bytes and none of them behind the cursor. -/
structure Ahead (cursor key : Nat) (b : RangeBuf) : Prop where
  key_eq : key = b.off + b.len
  part : b.Partial
  ahead : cursor ≤ b.off + b.pos

theorem good_ahead {r : RecvBuf} (good : Good r) {e : Nat × RangeBuf} (mem : e ∈ r.data.entries) :
    Ahead r.lastMaxoff e.1 e.2 := by
  obtain ⟨key_eq, word⟩ := good.keyed e mem
  obtain ⟨unread, ahead⟩ := good.unread e mem
  have shape : e.2.start = 0 ∧ e.2.len = e.2.data.length := by
    obtain ⟨content, off, n, same⟩ := good.made e mem
    rw [same]
    exact ⟨rfl, rfl⟩
  exact ⟨key_eq, ⟨shape.1, shape.2, unread, by omega⟩, ahead⟩

theorem apart_order {b d : RangeBuf} (apart : Disjoint (span b) (span d)) (filled : 0 < b.len)
    (less : b.off + b.len < d.off + d.len) : b.off + b.len ≤ d.off := by
  have lined := Set.Ico_disjoint_Ico.mp apart
  omega

theorem good_later {r : RecvBuf} (good : Good r) {d e : Nat × RangeBuf} (first : d ∈ r.data.entries)
    (second : e ∈ r.data.entries) (less : d.1 < e.1) : d.1 ≤ e.2.off := by
  have key := (good.keyed d first).1
  have key' := (good.keyed e second).1
  have unread := (good.unread d first).1
  have order := apart_order (good.apart d first e second (Nat.ne_of_lt less)) (by omega) (by omega)
  omega

theorem good_moved {r : RecvBuf} {key cursor : Nat} {b : RangeBuf} (good : Good r)
    (front : r.data.first? = some (key, b)) (within : cursor ≤ b.off + b.pos) :
    Good { r with lastMaxoff := cursor } := by
  obtain ⟨mem, least, _⟩ := OrdMap.first?_least front
  have key_eq := (good.keyed _ mem).1
  have unread := (good.unread _ mem).1
  dsimp only at key_eq unread
  refine ⟨good.made, good.keyed, good.apart, ?_⟩
  intro e there
  refine ⟨(good.unread e there).1, ?_⟩
  rcases least e there with here | later
  · rw [here]
    exact within
  · have start := good_later good mem there later
    dsimp only at start ⊢
    omega

theorem good_popped {r : RecvBuf} {key : Nat} {b : RangeBuf} (good : Good r)
    (front : r.data.first? = some (key, b)) :
    Good { r with data := r.data.popFirst, lastMaxoff := key } := by
  obtain ⟨mem, _, rest⟩ := OrdMap.first?_least front
  refine ⟨?_, ?_, ?_, ?_⟩
  · exact fun e there => good.made e (rest e there).1
  · exact fun e there => good.keyed e (rest e there).1
  · exact fun d here e there => good.apart d (rest d here).1 e (rest e there).1
  · intro e there
    obtain ⟨old, later⟩ := rest e there
    have start := good_later good mem old later
    exact ⟨(good.unread e old).1, by dsimp only at start ⊢; omega⟩

theorem consumed_covers {m : OrdMap Nat RangeBuf} {key n : Nat} {b : RangeBuf}
    (mem : (key, b) ∈ m.entries) {e : Nat × RangeBuf}
    (there : e ∈ (m.set key (b.consume n)).entries) :
    ∃ b', (e.1, b') ∈ m.entries ∧ span b' = span e.2 := by
  rcases OrdMap.mem_set.mp there with ⟨old, _⟩ | ⟨rfl, _⟩
  · exact ⟨e.2, old, rfl⟩
  · exact ⟨b, mem, rfl⟩

theorem good_consumed {r : RecvBuf} {key n : Nat} {b : RangeBuf} (good : Good r)
    (front : r.data.first? = some (key, b)) (some_left : n < b.len - b.pos) :
    Good { r with data := r.data.set key (b.consume n), lastMaxoff := b.off + b.pos + n } := by
  obtain ⟨mem, least, _⟩ := OrdMap.first?_least front
  have key_eq := (good.keyed _ mem).1
  dsimp only at key_eq
  refine ⟨?_, ?_, ?_, ?_⟩
  · intro e there
    rcases OrdMap.mem_set.mp there with ⟨old, _⟩ | ⟨rfl, _⟩
    · exact good.made e old
    · exact made_consume (good.made _ mem) n
  · intro e there
    rcases OrdMap.mem_set.mp there with ⟨old, _⟩ | ⟨rfl, _⟩
    · exact good.keyed e old
    · exact good.keyed (key, b) mem
  · intro d here e there other
    obtain ⟨b', old, covered⟩ := consumed_covers mem here
    obtain ⟨d', old', covered'⟩ := consumed_covers mem there
    rw [← covered, ← covered']
    exact good.apart _ old _ old' other
  · intro e there
    rcases OrdMap.mem_set.mp there with ⟨old, other⟩ | ⟨rfl, _⟩
    · rcases least e old with here | later
      · rw [here] at other
        exact absurd rfl other
      · have start := good_later good mem old later
        exact ⟨(good.unread e old).1, by dsimp only at start ⊢; omega⟩
    · dsimp only [RangeBuf.consume]
      omega

theorem span_end {b : RangeBuf} {off : Nat} {content : Bytes} (filled : content ≠ [])
    (unread : b.pos < b.len) (same : span b = Set.Ico off (off + content.length)) :
    b.off + b.len = off + content.length := by
  have positive := List.length_pos_iff.mpr filled
  have last : b.off + b.len - 1 ∈ Set.Ico off (off + content.length) := by
    rw [← same]
    exact ⟨by omega, by omega⟩
  have last' : off + content.length - 1 ∈ span b := by
    rw [same]
    exact ⟨by omega, by omega⟩
  have below := last.2
  have below' := last'.2
  omega

theorem fits_apart {r : RecvBuf} {off : Nat} {content : Bytes} (good : Good r)
    (fits : Fits r off content) {e : Nat × RangeBuf} (mem : e ∈ r.data.entries)
    (other : e.1 ≠ off + content.length) :
    Disjoint (Set.Ico off (off + content.length)) (span e.2) := by
  rcases fits.room with apart | ⟨d, here, same⟩
  · exact apart e mem
  · have ends := span_end fits.filled (good.unread d here).1 same
    have key := (good.keyed d here).1
    rw [← same]
    exact good.apart d here e mem (by omega)

section Calls
variable [Profile]

theorem write_stores (r : RecvBuf) {off : Nat} {content : Bytes} (filled : content ≠ [])
    (word : off + content.length < wordSize) :
    ∃ high, r.write content off = .ok ({ r with
      data := r.data.insert (off + content.length) (RangeBuf.ofSlice content off)
      maxRecvOff := high }, .ok ()) := by
  have part : (RangeBuf.ofSlice content off).Partial :=
    ⟨rfl, rfl, List.length_pos_iff.mpr filled, word⟩
  have length : (RangeBuf.ofSlice content off).lenFn = .ok content.length := partial_lenFn part
  have end_ : (RangeBuf.ofSlice content off).maxOff = .ok (off + content.length) :=
    partial_maxOff part
  unfold RecvBuf.write
  dsimp only
  rw [length, ok_bind, end_, ok_bind, subWord_fits (by omega), ok_bind]
  cases r.data.last? with
  | none => exact ⟨_, rfl⟩
  | some e =>
    dsimp only
    split
    · exact ⟨_, rfl⟩
    · exact ⟨_, rfl⟩

theorem write_good {r : RecvBuf} {off : Nat} {content : Bytes} (good : Good r)
    (fits : Fits r off content) : ∃ r', r.write content off = .ok (r', .ok ()) ∧ Good r' := by
  obtain ⟨high, written⟩ := write_stores r fits.filled fits.word
  have positive := List.length_pos_iff.mpr fits.filled
  have ahead := fits.ahead
  refine ⟨_, written, ?_, ?_, ?_, ?_⟩
  · intro e mem
    rcases OrdMap.mem_insert.mp mem with rfl | ⟨old, _⟩
    · exact made_ofSlice content off
    · exact good.made e old
  · intro e mem
    rcases OrdMap.mem_insert.mp mem with rfl | ⟨old, _⟩
    · exact ⟨rfl, fits.word⟩
    · exact good.keyed e old
  · intro d here e there other
    rcases OrdMap.mem_insert.mp here with rfl | ⟨old, elsewhere⟩
    · rcases OrdMap.mem_insert.mp there with rfl | ⟨old', elsewhere'⟩
      · exact absurd rfl other
      · exact fits_apart good fits old' elsewhere'
    · rcases OrdMap.mem_insert.mp there with rfl | ⟨old', _⟩
      · exact (fits_apart good fits old elsewhere).symm
      · exact good.apart d old e old' other
  · intro e mem
    rcases OrdMap.mem_insert.mp mem with rfl | ⟨old, _⟩
    · dsimp only [RangeBuf.ofSlice]
      omega
    · exact good.unread e old

theorem ahead_zeroLen {cursor key : Nat} {b : RangeBuf} (ahead : Ahead cursor key b) :
    RecvBuf.zeroLen (b.off + b.len) cursor (b.len - b.pos) = .ok (b.off + b.pos - cursor) := by
  have unread := ahead.part.unread
  have behind := ahead.ahead
  unfold RecvBuf.zeroLen
  rw [subWord_fits (by omega), ok_bind]
  split
  · rw [ok_bind, subWord_fits (by omega)]
    congr 1
    omega
  · simp only [pure, Except.pure, Except.ok.injEq]
    omega

theorem emitRound_ahead {st : EmitState} {key gap : Nat} {b : RangeBuf}
    (ahead : Ahead st.recv.lastMaxoff key b) (front : st.recv.data.first? = some (key, b))
    (open_ : 0 < st.cap) (bounded : st.len + st.cap = st.out.length)
    (gap_def : gap = b.off + b.pos - st.recv.lastMaxoff) :
    RecvBuf.emitRound st =
      if gap < st.cap then
        if b.len - b.pos ≤ st.cap - gap then
          .ok (.again ⟨{ st.recv with data := st.recv.data.popFirst, lastMaxoff := key },
            splice st.out (st.len + gap) (b.data.take (b.len - b.pos)), st.len + gap, st.cap - gap⟩)
        else
          .ok (.leave ⟨{ st.recv with
              data := st.recv.data.set key (b.consume (st.cap - gap))
              lastMaxoff := st.recv.lastMaxoff + st.cap },
            splice st.out (st.len + gap) (b.data.take (st.cap - gap)), st.len + gap, st.cap - gap⟩)
      else if gap = st.cap then
        .ok (.leave { st with
          recv := { st.recv with lastMaxoff := st.recv.lastMaxoff + st.cap }
          len := st.len + st.cap })
      else .ok (.leave { st with
        recv := { st.recv with lastMaxoff := st.recv.lastMaxoff + st.cap } }) := by
  have unread := ahead.part.unread
  have behind := ahead.ahead
  have word := ahead.part.word
  have stored := ahead.part.len_eq
  have key_eq := ahead.key_eq
  have enter : (decide (st.cap > 0) && st.recv.ready) = true := by
    simp [open_, RecvBuf.ready_eq_first, front]
  simp only [RecvBuf.emitRound, enter, ↓reduceIte, front, partial_maxOff ahead.part,
    partial_lenFn ahead.part, ok_bind, ahead_zeroLen ahead, ← gap_def]
  by_cases small : gap < st.cap
  · have mid : addWord st.recv.lastMaxoff gap = .ok (st.recv.lastMaxoff + gap) :=
      addWord_fits (by omega)
    rw [if_pos small, if_pos small, mid, ok_bind]
    by_cases whole : b.len - b.pos ≤ st.cap - gap
    · have least : min (b.len - b.pos) (st.cap - gap) = b.len - b.pos := by omega
      have last : st.recv.lastMaxoff + gap + (b.len - b.pos) = key := by omega
      rw [if_pos whole, least, slice_fits (by omega) (by omega), ok_bind,
        slice_fits (by omega) (by omega), ok_bind, addWord_fits (by omega), ok_bind,
        if_neg (Nat.lt_irrefl _), last]
      simp
    · have least : min (b.len - b.pos) (st.cap - gap) = st.cap - gap := by omega
      have last : st.recv.lastMaxoff + gap + (st.cap - gap) = st.recv.lastMaxoff + st.cap := by
        omega
      rw [if_neg whole, least, slice_fits (by omega) (by omega), ok_bind,
        slice_fits (by omega) (by omega), ok_bind, addWord_fits (by omega), ok_bind,
        if_pos (by omega), last]
      simp
  · rw [if_neg small, if_neg small]
    by_cases exact_ : gap = st.cap
    · rw [if_pos exact_, if_pos exact_, addWord_fits (by omega), ok_bind, exact_]
    · rw [if_neg exact_, if_neg exact_, addWord_fits (by omega), ok_bind]

theorem emitRound_idle {st : EmitState} (idle : st.cap = 0 ∨ st.recv.data.first? = none) :
    RecvBuf.emitRound st = .ok (.leave st) := by
  have closed : (decide (st.cap > 0) && st.recv.ready) = false := by
    rcases idle with full | none_stored
    · simp [full]
    · simp [RecvBuf.ready_eq_first, none_stored]
  simp [RecvBuf.emitRound, closed]

/-- What holds whenever `emit` with the output `out` comes to its loop test. -/
structure AtWork (out : Bytes) (st : EmitState) : Prop where
  good : Good st.recv
  bounded : st.len + st.cap = out.length
  size : st.out.length = out.length

theorem round_good {out : Bytes} {st : EmitState} (work : AtWork out st) :
    (∃ st', RecvBuf.emitRound st = .ok (.again st') ∧ AtWork out st' ∧
      st'.recv.data.entries.length < st.recv.data.entries.length) ∨
    ∃ st', RecvBuf.emitRound st = .ok (.leave st') ∧ Good st'.recv := by
  obtain ⟨good, bounded, size⟩ := work
  by_cases idle : st.cap = 0 ∨ st.recv.data.first? = none
  · exact Or.inr ⟨st, emitRound_idle idle, good⟩
  rw [not_or] at idle
  obtain ⟨open_, some_stored⟩ := idle
  obtain ⟨⟨key, b⟩, front⟩ := Option.ne_none_iff_exists'.mp some_stored
  have mem := (OrdMap.first?_least front).1
  have ahead : Ahead st.recv.lastMaxoff key b := good_ahead good mem
  have behind := ahead.ahead
  have stored := ahead.part.len_eq
  have unread := ahead.part.unread
  obtain ⟨gap, gap_def⟩ : ∃ gap, gap = b.off + b.pos - st.recv.lastMaxoff := ⟨_, rfl⟩
  rw [emitRound_ahead ahead front (Nat.pos_of_ne_zero open_) (by omega) gap_def]
  by_cases small : gap < st.cap
  · rw [if_pos small]
    by_cases whole : b.len - b.pos ≤ st.cap - gap
    · rw [if_pos whole]
      refine Or.inl ⟨_, rfl, ⟨good_popped good front, ?_, ?_⟩, ?_⟩
      · dsimp only
        omega
      · dsimp only
        rw [splice_length (by rw [List.length_take]; omega), size]
      · have some_left := List.length_pos_of_mem mem
        simp only [OrdMap.popFirst, List.length_tail]
        omega
    · rw [if_neg whole]
      have reach : st.recv.lastMaxoff + st.cap = b.off + b.pos + (st.cap - gap) := by omega
      rw [reach]
      exact Or.inr ⟨_, rfl, good_consumed good front (by omega)⟩
  · -- the end of the output comes no further than the first unread byte
    rw [if_neg small]
    have within : st.recv.lastMaxoff + st.cap ≤ b.off + b.pos := by omega
    have moved := good_moved good front within
    split
    · exact Or.inr ⟨_, rfl, moved⟩
    · exact Or.inr ⟨_, rfl, moved⟩

/-- The turn that begins in `st` computes `off()`, `len()` and the gap without going below zero,
    and copies from and to places that exist. -/
def InBounds (st : EmitState) : Prop :=
  ∀ key b, 0 < st.cap → st.recv.data.first? = some (key, b) →
    b.start ≤ b.off ∧ b.pos ≤ b.len ∧
    ∃ maxOff dataLen gap, b.maxOff = .ok maxOff ∧ b.lenFn = .ok dataLen ∧
      st.recv.lastMaxoff ≤ maxOff ∧ dataLen ≤ maxOff - st.recv.lastMaxoff ∧
      gap = maxOff - st.recv.lastMaxoff - dataLen ∧
      (gap < st.cap → min dataLen (st.cap - gap) ≤ b.data.length ∧
        st.len + gap + min dataLen (st.cap - gap) ≤ st.out.length)

theorem atWork_inBounds {out : Bytes} {st : EmitState} (work : AtWork out st) : InBounds st := by
  intro key b _ front
  have bounded := work.bounded
  have size := work.size
  have ahead : Ahead st.recv.lastMaxoff key b :=
    good_ahead work.good (OrdMap.first?_least front).1
  have behind := ahead.ahead
  have stored := ahead.part.len_eq
  have unread := ahead.part.unread
  refine ⟨by rw [ahead.part.start_zero]; exact Nat.zero_le _, Nat.le_of_lt unread, b.off + b.len,
    b.len - b.pos, _, partial_maxOff ahead.part, partial_lenFn ahead.part, by omega, by omega, rfl,
    ?_⟩
  intro small
  omega

theorem emit_of_left {r : RecvBuf} {out : Bytes} {st' : EmitState}
    (left : loop RecvBuf.emitRound (r.data.entries.length + 1) ⟨r, out, 0, out.length⟩ =
      .ok (some st')) : ∃ result, r.emit out = .ok (st'.recv, st'.out, result) := by
  unfold RecvBuf.emit
  cases ready : r.ready with
  | false =>
    -- nothing is buffered: the loop would be left at its first test
    have none_stored : r.data.first? = none := by
      rw [RecvBuf.ready_eq_first] at ready
      exact Option.isNone_iff_eq_none.mp (Option.isSome_eq_false_iff.mp ready)
    rw [loop, emitRound_idle (Or.inr none_stored)] at left
    cases left
    exact ⟨_, rfl⟩
  | true =>
    have enough : RecvBuf.emitLoop (r.data.entries.length + 1) ⟨r, out, 0, out.length⟩ =
        RecvBuf.emitLoop r.data.entries.length ⟨r, out, 0, out.length⟩ :=
      RecvBuf.emitLoop_fuel _ (Nat.le_refl _)
    rw [← enough, RecvBuf.emitLoop_of_left left, ok_bind]
    exact ⟨_, rfl⟩

theorem emit_good {r : RecvBuf} (good : Good r) (out : Bytes) :
    ∃ st' result, loop RecvBuf.emitRound (r.data.entries.length + 1) ⟨r, out, 0, out.length⟩ =
        .ok (some st') ∧
      r.emit out = .ok (st'.recv, st'.out, result) ∧ Good st'.recv := by
  have start : AtWork out ⟨r, out, 0, out.length⟩ := ⟨good, Nat.zero_add _, rfl⟩
  obtain ⟨st', left, good'⟩ := loop_left (AtWork out) (fun st => Good st.recv)
    (fun st => st.recv.data.entries.length) (fun st work => round_good work)
    (r.data.entries.length + 1) start (Nat.lt_succ_self _)
  obtain ⟨result, emitted⟩ := emit_of_left left
  exact ⟨st', result, left, emitted, good'⟩

theorem atWork_tested {r : RecvBuf} {out : Bytes} (good : Good r) {st : EmitState}
    (tested : AtTest RecvBuf.emitRound ⟨r, out, 0, out.length⟩ st) : AtWork out st := by
  refine atTest_invariant (AtWork out) ⟨good, Nat.zero_add _, rfl⟩ ?_ tested
  intro st st' work turned
  rcases round_good work with ⟨next, again, work', _⟩ | ⟨next, leave, _⟩
  · rw [again] at turned
    cases turned
    exact work'
  · rw [leave] at turned
    cases turned

/-- Goodness of the receive buffer is kept by every write that fits and by every read. At every
    loop test of a read `len + cap` is the size of the output and the turn that follows stays in
    bounds, and the loop is left after at most one turn for each buffered chunk and one more. -/
theorem read_cursor_safe {r : RecvBuf} (good : Good r) :
    (∀ off content, Fits r off content →
      ∃ r', r.write content off = .ok (r', .ok ()) ∧ Good r') ∧
    ∀ out : Bytes,
      (∀ st, AtTest RecvBuf.emitRound ⟨r, out, 0, out.length⟩ st →
        st.len + st.cap = out.length ∧ InBounds st ∧ ∃ turn, RecvBuf.emitRound st = .ok turn) ∧
      ∃ st' result, loop RecvBuf.emitRound (r.data.entries.length + 1) ⟨r, out, 0, out.length⟩ =
          .ok (some st') ∧
        r.emit out = .ok (st'.recv, st'.out, result) ∧ Good st'.recv := by
  refine ⟨fun off content fits => write_good good fits, ?_⟩
  intro out
  refine ⟨?_, emit_good good out⟩
  intro st tested
  have work := atWork_tested good tested
  refine ⟨work.bounded, atWork_inBounds work, ?_⟩
  rcases round_good work with ⟨st', turned, _⟩ | ⟨st', turned, _⟩
  · exact ⟨_, turned⟩
  · exact ⟨_, turned⟩

end Calls

def begunBuffer : RecvBuf where
  data := (OrdMap.empty.insert 4 ((RangeBuf.ofSlice [3, 4] 2).consume 1)).insert 7
    (RangeBuf.ofSlice [7] 6)
  off := 0
  len := 0
  lastMaxoff := 3
  maxRecvOff := 0

theorem begunBuffer_entries : begunBuffer.data.entries =
    [(4, (RangeBuf.ofSlice [3, 4] 2).consume 1), (7, RangeBuf.ofSlice [7] 6)] := by decide

theorem begunBuffer_good : Good begunBuffer := by
  have apart : Disjoint (span ((RangeBuf.ofSlice [3, 4] 2).consume 1))
      (span (RangeBuf.ofSlice [7] 6)) :=
    Set.Ico_disjoint_Ico.mpr (by decide)
  refine ⟨?_, ?_, ?_, ?_⟩
  · intro e mem
    rw [begunBuffer_entries] at mem
    simp only [List.mem_cons, List.not_mem_nil, or_false] at mem
    rcases mem with rfl | rfl
    · exact made_consume (made_ofSlice _ _) 1
    · exact made_ofSlice _ _
  · rw [begunBuffer_entries]
    decide
  · intro d here e there other
    rw [begunBuffer_entries] at here there
    simp only [List.mem_cons, List.not_mem_nil, or_false] at here there
    rcases here with rfl | rfl
    · rcases there with rfl | rfl
      · exact absurd rfl other
      · exact apart
    · rcases there with rfl | rfl
      · exact apart.symm
      · exact absurd rfl other
  · rw [begunBuffer_entries]
    decide

theorem begun_buffer_safe :
    (∃ r', @RecvBuf.write checkedBuild begunBuffer [5, 6] 4 = .ok (r', .ok ()) ∧ Good r') ∧
    ∃ r' out' result, @RecvBuf.emit checkedBuild begunBuffer (zeros 5) = .ok (r', out', result) ∧
      Good r' := by
  obtain ⟨writes, reads⟩ := @read_cursor_safe checkedBuild begunBuffer begunBuffer_good
  constructor
  · refine writes 4 [5, 6] ⟨by decide, by decide, by decide, Or.inl ?_⟩
    intro e mem
    rw [begunBuffer_entries] at mem
    simp only [List.mem_cons, List.not_mem_nil, or_false] at mem
    rcases mem with rfl | rfl
    · exact Set.Ico_disjoint_Ico.mpr (by decide)
    · exact Set.Ico_disjoint_Ico.mpr (by decide)
  · obtain ⟨_, st', result, _, emitted, good⟩ := reads (zeros 5)
    exact ⟨st'.recv, st'.out, result, emitted, good⟩

inductive RecvOp where
  | write (off : Nat) (content : Bytes)
  | emit (out : Bytes)
  | reset (finalSize : Nat)
  | shutdown

def recvStep [Profile] (r : RecvBuf) : RecvOp → Rs (RecvBuf × Unit)
  | .write off content => do
    let (r', _) ← r.write content off
    return (r', ())
  | .emit out => do
    let (r', _, _) ← r.emit out
    return (r', ())
  | .reset finalSize => do
    let (r', _) ← r.reset finalSize
    return (r', ())
  | .shutdown => .ok (r.shutdown, ())

def Admissible (r : RecvBuf) : RecvOp → Prop
  | .write off content => Fits r off content
  | _ => True

section Runs
variable [Profile]

theorem round_made {st : EmitState} {turn : Turn EmitState} (made : AllMade st.recv)
    (turned : RecvBuf.emitRound st = .ok turn) : AllMade turn.state.recv := by
  cases RecvBuf.emitRound_effect turned with
  | removed front recv =>
    intro e mem
    rw [Turn.state, recv] at mem
    exact made e ((OrdMap.first?_least front).2.2 e mem).1
  | consumed front recv =>
    intro e mem
    rw [Turn.state, recv] at mem
    rcases OrdMap.mem_set.mp mem with ⟨old, _⟩ | ⟨rfl, _⟩
    · exact made e old
    · exact made_consume (made _ (OrdMap.first?_least front).1) _
  | moved recv =>
    intro e mem
    rw [Turn.state, recv] at mem
    exact made e mem

theorem emit_made {r r' : RecvBuf} {out out' : Bytes} {result : Except Error Nat} (made : AllMade r)
    (done : r.emit out = .ok (r', out', result)) : AllMade r' := by
  unfold RecvBuf.emit at done
  split at done
  · cases done
    exact made
  · obtain ⟨st, looped, done⟩ := bind_ok_iff.mp done
    cases done
    exact RecvBuf.emitLoop_invariant (fun st => AllMade st.recv)
      (fun _ _ made turned => round_made made turned) _ made looped

theorem write_made {r r' : RecvBuf} {off : Nat} {content : Bytes} {result : Except Error Unit}
    (made : AllMade r) (done : r.write content off = .ok (r', result)) : AllMade r' := by
  unfold RecvBuf.write at done
  obtain ⟨bufLen, _, done⟩ := bind_ok_iff.mp done
  obtain ⟨maxOff, _, done⟩ := bind_ok_iff.mp done
  obtain ⟨tmpOff, _, done⟩ := bind_ok_iff.mp done
  cases done
  have same : ∀ s : RecvBuf, s.data = r.data → AllMade { s with
      data := s.data.insert maxOff (RangeBuf.ofSlice content off) } := by
    intro s kept e mem
    rcases OrdMap.mem_insert.mp mem with rfl | ⟨old, _⟩
    · exact made_ofSlice content off
    · rw [kept] at old
      exact made e old
  apply same
  split
  · split <;> rfl
  · rfl

theorem reset_cases {r r' : RecvBuf} {finalSize : Nat} {result : Except Error Nat}
    (done : r.reset finalSize = .ok (r', result)) : r' = r ∨ r'.data = OrdMap.empty := by
  unfold RecvBuf.reset at done
  split at done
  · cases done
    exact Or.inl rfl
  · obtain ⟨delta, _, done⟩ := bind_ok_iff.mp done
    cases done
    exact Or.inr rfl

theorem run_allMade {trace : List (Transition RecvBuf RecvOp Unit)} {r : RecvBuf}
    {allowed : RecvBuf → RecvOp → Prop} (run : Run recvStep allowed RecvBuf.new trace r) :
    AllMade r := by
  refine state_invariant AllMade good_new.made ?_ run
  intro r a o r' made _ taken
  cases a with
  | write off content =>
    obtain ⟨⟨r1, result⟩, done, same⟩ := bind_ok_iff.mp taken
    cases same
    exact write_made made done
  | emit out =>
    obtain ⟨⟨r1, out', result⟩, done, same⟩ := bind_ok_iff.mp taken
    cases same
    exact emit_made made done
  | reset finalSize =>
    obtain ⟨⟨r1, result⟩, done, same⟩ := bind_ok_iff.mp taken
    cases same
    rcases reset_cases done with rfl | empty
    · exact made
    · exact (good_cleared empty).made
  | shutdown =>
    cases taken
    exact (good_cleared rfl).made

theorem run_good {trace : List (Transition RecvBuf RecvOp Unit)} {r : RecvBuf}
    (run : Run recvStep Admissible RecvBuf.new trace r) :
    Good r ∧ ∀ a, Admissible r a → ∃ r', recvStep r a = .ok (r', ()) ∧ Good r' := by
  have returns : ∀ r a, Good r → Admissible r a → ∃ r', recvStep r a = .ok (r', ()) ∧ Good r' := by
    intro r a good may
    cases a with
    | write off content =>
      obtain ⟨r', written, good'⟩ := write_good good may
      exact ⟨r', by simp only [recvStep, written, ok_bind]; rfl, good'⟩
    | emit out =>
      obtain ⟨st', result, _, emitted, good'⟩ := emit_good good out
      exact ⟨st'.recv, by simp only [recvStep, emitted, ok_bind]; rfl, good'⟩
    | reset finalSize =>
      by_cases short : finalSize < r.len
      · exact ⟨r, by simp only [recvStep, RecvBuf.reset, if_pos short, ok_bind]; rfl, good⟩
      · refine ⟨_, ?_, good_cleared (r := { r with off := finalSize, data := OrdMap.empty }) rfl⟩
        simp only [recvStep, RecvBuf.reset, if_neg short, subWord_fits (Nat.le_of_not_lt short),
          ok_bind]
        rfl
    | shutdown => exact ⟨r.shutdown, rfl, good_cleared rfl⟩
  have good : Good r := by
    refine state_invariant Good good_new ?_ run
    intro r a o r' good may taken
    obtain ⟨next, returned, good'⟩ := returns r a good may
    rw [returned] at taken
    cases taken
    exact good'
  exact ⟨good, fun a may => returns r a good may⟩

end Runs

end DmludpReadCursor
