import Dmludp.Foundation.StreamTiling
import Dmludp.Guarantees.ReadCursor

/- Reading the received stream. `emit` moves its cursor over the gaps and the chunks, but counts
   only the gaps it fills completely; a delivered stream is the one that was written exactly in
   the runs where no chunk was ever reached. -/
namespace DmludpReassembly
open ByteCursor RustOutcome TracedRun OrderedMap StreamTiling DmludpPacket DmludpRange DmludpRecv
open DmludpReference DmludpReadCursor

def pieceEnd (p : Nat × Bytes) : Nat := p.1 + p.2.length

/-- A stream cut into consecutive non-empty pieces, with offsets that fit a word. -/
structure Cut (text : Bytes) (pieces : List (Nat × Bytes)) : Prop where
  tiles : Tiles text 0 text.length pieces
  filled : ∀ p ∈ pieces, p.2 ≠ []
  word : text.length < wordSize

variable {text : Bytes} {pieces : List (Nat × Bytes)}

theorem cut_end_word (pieces_cut : Cut text pieces) {p : Nat × Bytes} (mem : p ∈ pieces) :
    pieceEnd p < wordSize := by
  have bound := (tiles_mem pieces_cut.tiles mem).2.1
  have word := pieces_cut.word
  unfold pieceEnd
  omega

theorem cut_end_unique (pieces_cut : Cut text pieces) {p q : Nat × Bytes} (left : p ∈ pieces)
    (right : q ∈ pieces) (same : pieceEnd p = pieceEnd q) : p = q := by
  have filled := List.length_pos_iff.mpr (pieces_cut.filled p left)
  have filled' := List.length_pos_iff.mpr (pieces_cut.filled q right)
  unfold pieceEnd at same
  rcases tiles_apart pieces_cut.tiles left right with eq | before | after
  · exact eq
  · omega
  · omega

theorem cut_order (pieces_cut : Cut text pieces) {p q : Nat × Bytes} (left : p ∈ pieces)
    (right : q ∈ pieces) (less : pieceEnd p < pieceEnd q) : pieceEnd p ≤ q.1 := by
  have filled := List.length_pos_iff.mpr (pieces_cut.filled p left)
  unfold pieceEnd at less ⊢
  rcases tiles_apart pieces_cut.tiles left right with eq | before | after
  · rw [eq] at less
    omega
  · exact before
  · omega

/-- The chunk `b`, stored under `key`, is a piece of the stream read up to some byte of it. -/
structure Holds (pieces : List (Nat × Bytes)) (cursor key : Nat) (b : RangeBuf) : Prop where
  piece : (b.off, b.data) ∈ pieces
  key_eq : key = b.off + b.len
  part : b.Partial
  ahead : cursor ≤ b.off + b.pos

def Sound (pieces : List (Nat × Bytes)) (r : RecvBuf) : Prop :=
  ∀ e ∈ r.data.entries, Holds pieces r.lastMaxoff e.1 e.2

theorem holds_end {cursor key : Nat} {b : RangeBuf} (holds : Holds pieces cursor key b) :
    pieceEnd (b.off, b.data) = key := by
  rw [holds.key_eq, holds.part.len_eq]
  rfl

theorem holds_later (pieces_cut : Cut text pieces) {cursor cursor' key key' : Nat}
    {b d : RangeBuf} (first : Holds pieces cursor key b) (second : Holds pieces cursor' key' d)
    (less : key < key') : key ≤ d.off := by
  rw [← holds_end first] at less ⊢
  rw [← holds_end second] at less
  exact cut_order pieces_cut first.piece second.piece less

theorem holds_ahead {cursor key : Nat} {b : RangeBuf} (holds : Holds pieces cursor key b) :
    Ahead cursor key b :=
  ⟨holds.key_eq, holds.part, holds.ahead⟩

theorem sound_iff_good (pieces_cut : Cut text pieces) {r : RecvBuf} :
    Sound pieces r ↔ Good r ∧ ∀ e ∈ r.data.entries, (e.2.off, e.2.data) ∈ pieces := by
  constructor
  · intro sound
    refine ⟨⟨?_, ?_, ?_, ?_⟩, fun e mem => (sound e mem).piece⟩
    · intro e mem
      exact made_partial (sound e mem).part
    · intro e mem
      have key_eq := (sound e mem).key_eq
      have word := (sound e mem).part.word
      exact ⟨key_eq, by omega⟩
    · intro d here e there other
      have first := sound d here
      have second := sound e there
      apply Set.Ico_disjoint_Ico.mpr
      rw [← first.key_eq, ← second.key_eq]
      rcases Nat.lt_or_gt_of_ne other with less | less
      · have order := holds_later pieces_cut first second less
        omega
      · have order := holds_later pieces_cut second first less
        omega
    · intro e mem
      exact ⟨(sound e mem).part.unread, (sound e mem).ahead⟩
  · rintro ⟨good, inside⟩ e mem
    obtain ⟨key_eq, part, ahead⟩ := good_ahead good mem
    exact ⟨inside e mem, key_eq, part, ahead⟩

theorem sound_moved (pieces_cut : Cut text pieces) {r : RecvBuf} {key cursor : Nat} {b : RangeBuf}
    (sound : Sound pieces r) (front : r.data.first? = some (key, b))
    (within : cursor ≤ b.off + b.pos) : Sound pieces { r with lastMaxoff := cursor } := by
  obtain ⟨good, inside⟩ := (sound_iff_good pieces_cut).mp sound
  exact (sound_iff_good pieces_cut).mpr ⟨good_moved good front within, inside⟩

theorem sound_popped (pieces_cut : Cut text pieces) {r : RecvBuf} {key : Nat} {b : RangeBuf}
    (sound : Sound pieces r) (front : r.data.first? = some (key, b)) :
    Sound pieces { r with data := r.data.popFirst, lastMaxoff := key } := by
  obtain ⟨good, inside⟩ := (sound_iff_good pieces_cut).mp sound
  refine (sound_iff_good pieces_cut).mpr ⟨good_popped good front, ?_⟩
  intro e mem
  exact inside e ((OrdMap.first?_least front).2.2 e mem).1

theorem sound_consumed (pieces_cut : Cut text pieces) {r : RecvBuf} {key n : Nat} {b : RangeBuf}
    (sound : Sound pieces r) (front : r.data.first? = some (key, b)) (some_left : n < b.len - b.pos) :
    Sound pieces { r with
      data := r.data.set key (b.consume n)
      lastMaxoff := b.off + b.pos + n } := by
  obtain ⟨good, inside⟩ := (sound_iff_good pieces_cut).mp sound
  refine (sound_iff_good pieces_cut).mpr ⟨good_consumed good front some_left, ?_⟩
  intro e mem
  rcases OrdMap.mem_set.mp mem with ⟨old, _⟩ | ⟨rfl, _⟩
  · exact inside e old
  · exact inside (key, b) (OrdMap.first?_least front).1

def gapTo (cursor : Nat) (b : RangeBuf) : Nat := b.off + b.pos - cursor

/-- The state of `emit` after a gap and the whole rest of a chunk behind it. The next chunk will
    be copied to the same place. -/
def popped (st : EmitState) (key gap : Nat) (content : Bytes) : EmitState where
  recv := { st.recv with data := st.recv.data.popFirst, lastMaxoff := key }
  out := splice st.out (st.len + gap) content
  len := st.len + gap
  cap := st.cap - gap

theorem popped_bounded {st : EmitState} {key gap : Nat} {content : Bytes} (small : gap < st.cap)
    (fits : content.length ≤ st.cap - gap) (bounded : st.len + st.cap = st.out.length) :
    (popped st key gap content).len + (popped st key gap content).cap =
      (popped st key gap content).out.length := by
  simp only [popped]
  rw [splice_length (by omega)]
  omega

/-- A call that fills the gap before the first chunk exactly, or does nothing at all. -/
def Harmless (r : RecvBuf) (room : Nat) : Prop :=
  ∀ e ∈ r.data.first?, room = 0 ∨ r.lastMaxoff + room = e.2.off + e.2.pos

instance (r : RecvBuf) (room : Nat) : Decidable (Harmless r room) :=
  inferInstanceAs (Decidable (∀ e ∈ r.data.first?, room = 0 ∨ r.lastMaxoff + room =
    e.2.off + e.2.pos))

section Emit
variable [Profile]

theorem emitLoop_round {fuel : Nat} {st : EmitState} {key : Nat} {b : RangeBuf}
    (holds : Holds pieces st.recv.lastMaxoff key b)
    (front : st.recv.data.first? = some (key, b)) (open_ : 0 < st.cap)
    (bounded : st.len + st.cap = st.out.length) :
    RecvBuf.emitLoop (fuel + 1) st =
      if gapTo st.recv.lastMaxoff b < st.cap then
        if b.len - b.pos ≤ st.cap - gapTo st.recv.lastMaxoff b then
          RecvBuf.emitLoop fuel
            (popped st key (gapTo st.recv.lastMaxoff b) (b.data.take (b.len - b.pos)))
        else
          .ok ⟨{ st.recv with
              data := st.recv.data.set key
                (b.consume (st.cap - gapTo st.recv.lastMaxoff b))
              lastMaxoff := st.recv.lastMaxoff + st.cap },
            splice st.out (st.len + gapTo st.recv.lastMaxoff b)
              (b.data.take (st.cap - gapTo st.recv.lastMaxoff b)),
            st.len + gapTo st.recv.lastMaxoff b,
            st.cap - gapTo st.recv.lastMaxoff b⟩
      else if gapTo st.recv.lastMaxoff b = st.cap then
        .ok { st with
          recv := { st.recv with lastMaxoff := st.recv.lastMaxoff + st.cap }
          len := st.len + st.cap }
      else .ok { st with recv := { st.recv with lastMaxoff := st.recv.lastMaxoff + st.cap } } := by
  rw [RecvBuf.emitLoop_succ, emitRound_ahead (holds_ahead holds) front open_ bounded rfl]
  unfold gapTo popped
  split
  · split <;> rfl
  · split <;> rfl

/-- What a round over the first chunk leads to, by where the end of the output falls: behind the
    chunk, inside it, or before its first unread byte. -/
inductive RoundOutcome (fuel : Nat) (st : EmitState) (key : Nat) (b : RangeBuf) :
    Rs EmitState → Prop where
  | whole {next : EmitState}
      (recv : next.recv = { st.recv with data := st.recv.data.popFirst, lastMaxoff := key })
      (counted : next.len + st.recv.lastMaxoff = st.len + (b.off + b.pos))
      (bounded : next.len + next.cap = next.out.length) :
      RoundOutcome fuel st key b (RecvBuf.emitLoop fuel next)
  | part {next : EmitState} {n : Nat} (some_left : n < b.len - b.pos) (some_read : 0 < n)
      (recv : next.recv = { st.recv with
        data := st.recv.data.set key (b.consume n), lastMaxoff := b.off + b.pos + n })
      (counted : next.len + st.recv.lastMaxoff = st.len + (b.off + b.pos)) :
      RoundOutcome fuel st key b (.ok next)
  | short {next : EmitState} (within : st.recv.lastMaxoff + st.cap ≤ b.off + b.pos)
      (recv : next.recv = { st.recv with lastMaxoff := st.recv.lastMaxoff + st.cap })
      (counted : next.len ≤ st.len + st.cap)
      (uncounted : st.recv.lastMaxoff + st.cap ≠ b.off + b.pos → next.len = st.len) :
      RoundOutcome fuel st key b (.ok next)

theorem round_outcome {fuel : Nat} {st : EmitState} {key : Nat} {b : RangeBuf}
    (holds : Holds pieces st.recv.lastMaxoff key b)
    (front : st.recv.data.first? = some (key, b)) (open_ : 0 < st.cap)
    (bounded : st.len + st.cap = st.out.length) :
    RoundOutcome fuel st key b (RecvBuf.emitLoop (fuel + 1) st) := by
  have ahead := holds.ahead
  have unread := holds.part.unread
  have stored := holds.part.len_eq
  rw [emitLoop_round holds front open_ bounded]
  have gap_def : gapTo st.recv.lastMaxoff b = b.off + b.pos - st.recv.lastMaxoff := rfl
  generalize gapTo st.recv.lastMaxoff b = gap at gap_def ⊢
  split
  · rename_i small
    split
    · rename_i fits
      have width : (b.data.take (b.len - b.pos)).length ≤ st.cap - gap := by
        rw [List.length_take]
        omega
      exact .whole rfl (by simp only [popped]; omega) (popped_bounded small width bounded)
    · have reach : st.recv.lastMaxoff + st.cap = b.off + b.pos + (st.cap - gap) := by omega
      rw [reach]
      exact .part (by omega) (by omega) rfl (by dsimp only; omega)
  · split
    · exact .short (by omega) rfl (Nat.le_refl _) (by omega)
    · exact .short (by omega) rfl (Nat.le_add_right _ _) (fun _ => rfl)

/-- The counted bytes never get ahead of the cursor. -/
structure Progress (pieces : List (Nat × Bytes)) (st st' : EmitState) : Prop where
  sound : Sound pieces st'.recv
  slow : st'.len + st.recv.lastMaxoff ≤ st.len + st'.recv.lastMaxoff

theorem emitLoop_progress (pieces_cut : Cut text pieces) (fuel : Nat) {st : EmitState}
    (sound : Sound pieces st.recv) (bounded : st.len + st.cap = st.out.length) :
    ∃ st', RecvBuf.emitLoop fuel st = .ok st' ∧ Progress pieces st st' := by
  induction fuel generalizing st with
  | zero => exact ⟨st, rfl, sound, Nat.le_refl _⟩
  | succ fuel ih =>
    by_cases open_ : 0 < st.cap
    · cases front : st.recv.data.first? with
      | none =>
        exact ⟨st, RecvBuf.emitLoop_over _ (Or.inr front), sound, Nat.le_refl _⟩
      | some e =>
        obtain ⟨key, b⟩ := e
        have holds : Holds pieces st.recv.lastMaxoff key b :=
          sound _ (OrdMap.first?_least front).1
        have ahead := holds.ahead
        have unread := holds.part.unread
        have key_eq := holds.key_eq
        have outcome : RoundOutcome fuel st key b (RecvBuf.emitLoop (fuel + 1) st) :=
          round_outcome holds front open_ bounded
        generalize RecvBuf.emitLoop (fuel + 1) st = loop at outcome ⊢
        cases outcome with
        | whole recv counted bounded =>
          have popped := sound_popped pieces_cut sound front
          rw [← recv] at popped
          obtain ⟨st', done, progress⟩ := ih popped bounded
          have slow := progress.slow
          rw [recv] at slow
          dsimp only at slow
          exact ⟨st', done, progress.sound, by omega⟩
        | part some_left _ recv counted =>
          have consumed := sound_consumed pieces_cut sound front some_left
          rw [← recv] at consumed
          exact ⟨_, rfl, consumed, by rw [recv]; dsimp only; omega⟩
        | short within recv counted _ =>
          have moved := sound_moved pieces_cut sound front within
          rw [← recv] at moved
          exact ⟨_, rfl, moved, by rw [recv]; dsimp only; omega⟩
    · exact ⟨st, RecvBuf.emitLoop_over _ (Or.inl (Nat.eq_zero_of_not_pos open_)), sound,
        Nat.le_refl _⟩

theorem emitLoop_behind (pieces_cut : Cut text pieces) (fuel : Nat) {st st' : EmitState} {key : Nat}
    {b : RangeBuf} (sound : Sound pieces st.recv) (front : st.recv.data.first? = some (key, b))
    (open_ : 0 < st.cap) (bounded : st.len + st.cap = st.out.length)
    (uneven : st.recv.lastMaxoff + st.cap ≠ b.off + b.pos)
    (done : RecvBuf.emitLoop (fuel + 1) st = .ok st') :
    st'.len + st.recv.lastMaxoff < st.len + st'.recv.lastMaxoff := by
  have holds : Holds pieces st.recv.lastMaxoff key b := sound _ (OrdMap.first?_least front).1
  have ahead := holds.ahead
  have unread := holds.part.unread
  have key_eq := holds.key_eq
  have outcome : RoundOutcome fuel st key b (RecvBuf.emitLoop (fuel + 1) st) :=
    round_outcome holds front open_ bounded
  rw [done] at outcome
  generalize looped : Except.ok st' = loop at outcome
  cases outcome with
  | whole recv counted bounded =>
    have popped := sound_popped pieces_cut sound front
    rw [← recv] at popped
    obtain ⟨st1, done', progress⟩ := emitLoop_progress pieces_cut fuel popped bounded
    have slow := progress.slow
    rw [done'] at looped
    cases looped
    rw [recv] at slow
    dsimp only at slow
    omega
  | part _ some_read recv counted =>
    cases looped
    rw [recv]
    dsimp only
    omega
  | short within recv _ uncounted =>
    cases looped
    have still := uncounted uneven
    rw [recv]
    dsimp only
    omega

inductive EmitOutcome (r : RecvBuf) (room : Nat) :
    RecvBuf × Bytes × Except Error Nat → Prop where
  | empty (none_stored : r.data.first? = none) :
      EmitOutcome r room (r, zeros room, .error .done)
  | even (even : Harmless r room) :
      EmitOutcome r room ({ r with lastMaxoff := r.lastMaxoff + room }, zeros room, .ok room)
  | behind {r' : RecvBuf} {out : Bytes} {n : Nat} (uneven : ¬ Harmless r room)
      (less : n + r.lastMaxoff < r'.lastMaxoff) : EmitOutcome r room (r', out, .ok n)

theorem emit_outcome (pieces_cut : Cut text pieces) {r : RecvBuf} (sound : Sound pieces r)
    (room : Nat) : ∃ r' out result, r.emit (zeros room) = .ok (r', out, result) ∧
      Sound pieces r' ∧ EmitOutcome r room (r', out, result) := by
  have size : (zeros room).length = room := List.length_replicate
  cases front : r.data.first? with
  | none =>
    have idle : r.ready = false := by simp [RecvBuf.ready_eq_first, front]
    exact ⟨r, zeros room, .error .done, by simp [RecvBuf.emit, idle], sound, .empty front⟩
  | some e =>
    obtain ⟨key, b⟩ := e
    have mem := (OrdMap.first?_least front).1
    have holds : Holds pieces r.lastMaxoff key b := sound _ mem
    obtain ⟨more, enough⟩ : ∃ more, r.data.entries.length = more + 1 :=
      Nat.exists_eq_add_one.mpr (List.length_pos_of_mem mem)
    have ready : r.ready = true := by simp [RecvBuf.ready_eq_first, front]
    have bounded : (⟨r, zeros room, 0, room⟩ : EmitState).len +
        (⟨r, zeros room, 0, room⟩ : EmitState).cap =
          (⟨r, zeros room, 0, room⟩ : EmitState).out.length := by
      simp only [size]
      omega
    have unfolded : r.emit (zeros room) = (do
        let st ← RecvBuf.emitLoop (more + 1) ⟨r, zeros room, 0, room⟩
        return (st.recv, st.out, .ok st.len)) := by
      rw [RecvBuf.emit, ready, enough, size]
      rfl
    obtain ⟨st, done, progress⟩ := emitLoop_progress pieces_cut (more + 1) sound bounded
    rw [unfolded, done, ok_bind]
    refine ⟨_, _, _, rfl, progress.sound, ?_⟩
    by_cases even : room = 0 ∨ r.lastMaxoff + room = b.off + b.pos
    · have same : st = ⟨{ r with lastMaxoff := r.lastMaxoff + room }, zeros room, room, room⟩ := by
        by_cases nothing : room = 0
        · subst nothing
          rw [RecvBuf.emitLoop_over _ (Or.inl rfl), Except.ok.injEq] at done
          exact done.symm
        · have exact_ := even.resolve_left nothing
          rw [emitLoop_round holds front (Nat.pos_of_ne_zero nothing) bounded] at done
          have gap : gapTo r.lastMaxoff b = room := by
            unfold gapTo
            omega
          simpa [gap] using done.symm
      subst same
      refine .even ?_
      intro e found
      rw [front, Option.mem_some_iff] at found
      rw [← found]
      exact even
    · have positive : 0 < room := by omega
      have less := emitLoop_behind pieces_cut more sound front positive bounded
        (fun same => even (Or.inr same)) done
      refine .behind ?_ (by simpa using less)
      intro harmless
      exact even (harmless _ front)

theorem write_inserts (pieces_cut : Cut text pieces) (r : RecvBuf) {off : Nat} {content : Bytes}
    (piece : (off, content) ∈ pieces) :
    (RangeBuf.ofSlice content off).Partial ∧ ∃ high, r.write content off = .ok ({ r with
      data := r.data.insert (off + content.length) (RangeBuf.ofSlice content off)
      maxRecvOff := high }, .ok ()) := by
  have filled := List.length_pos_iff.mpr (pieces_cut.filled _ piece)
  have word := cut_end_word pieces_cut piece
  unfold pieceEnd at word
  dsimp only at filled word
  exact ⟨⟨rfl, rfl, filled, word⟩, write_stores r (pieces_cut.filled _ piece) word⟩

theorem write_stored (pieces_cut : Cut text pieces) {r : RecvBuf} (sound : Sound pieces r)
    {off : Nat} {content : Bytes} (piece : (off, content) ∈ pieces) (ahead : r.lastMaxoff ≤ off) :
    ∃ r', r.write content off = .ok (r', .ok ()) ∧ Sound pieces r' ∧
      r'.lastMaxoff = r.lastMaxoff ∧
      r'.data = r.data.insert (off + content.length) (RangeBuf.ofSlice content off) := by
  obtain ⟨part, high, written⟩ := write_inserts pieces_cut r piece
  refine ⟨_, written, ?_, rfl, rfl⟩
  intro e mem
  rcases OrdMap.mem_insert.mp mem with rfl | ⟨old, _⟩
  · exact ⟨piece, rfl, part, by simpa [RangeBuf.ofSlice] using ahead⟩
  · exact sound e old

end Emit

inductive BufCall where
  | write (off : Nat) (content : Bytes)
  | emit (room : Nat)

inductive BufReply where
  | wrote
  | emitted (out : Bytes) (result : Except Error Nat)

def bufStep [Profile] (r : RecvBuf) : BufCall → Rs (RecvBuf × BufReply)
  | .write off content => do
    let (r, _) ← r.write content off
    return (r, .wrote)
  | .emit room => do
    let (r, out, result) ← r.emit (zeros room)
    return (r, .emitted out result)

def Legal (pieces : List (Nat × Bytes)) (r : RecvBuf) : BufCall → Prop
  | .write off content => (off, content) ∈ pieces ∧ r.lastMaxoff ≤ off
  | .emit _ => True

instance (pieces : List (Nat × Bytes)) (r : RecvBuf) (a : BufCall) :
    Decidable (Legal pieces r a) :=
  match a with
  | .write off content => inferInstanceAs (Decidable ((off, content) ∈ pieces ∧ r.lastMaxoff ≤ off))
  | .emit _ => inferInstanceAs (Decidable True)

abbrev BufTrace : Type := List (Transition RecvBuf BufCall BufReply)

def handed : BufReply → Bytes
  | .emitted out (.ok n) => out.take n
  | _ => []

def delivered : BufTrace → Bytes
  | [] => []
  | t :: older => delivered older ++ handed t.reply

def covers (i : Nat) : BufCall → Bool
  | .write off content => decide (off ≤ i) && decide (i < off + content.length)
  | .emit _ => false

def written (history : BufTrace) (i : Nat) : Bool := history.any (fun t => covers i t.action)

/-- What the reader is owed for the bytes the cursor has passed: the stream, with zeros for what
    had not been written when it was passed. -/
def due (text : Bytes) : BufTrace → Bytes
  | [] => []
  | t :: older => due text older ++ (List.range' t.before.lastMaxoff
      (t.after.lastMaxoff - t.before.lastMaxoff)).map
        (fun i => if written older i then text.getD i 0 else 0)

def AllHarmless (history : BufTrace) : Prop :=
  ∀ t ∈ history, ∀ room, t.action = .emit room → Harmless t.before room

def Untouched (pieces : List (Nat × Bytes)) (history : BufTrace) (r : RecvBuf) : Prop :=
  ∀ t ∈ history, ∀ off content, t.action = .write off content →
    (off, content) ∈ pieces ∧
      (off + content.length, RangeBuf.ofSlice content off) ∈ r.data.entries

/-- How the reader stands: served exactly while every call was harmless, and short of bytes ever
    after the first call that was not. -/
inductive Standing (text : Bytes) (pieces : List (Nat × Bytes)) (history : BufTrace)
    (r : RecvBuf) : Prop where
  | even (harmless : AllHarmless history) (same : delivered history = due text history)
      (untouched : Untouched pieces history r)
  | short (harmful : ¬ AllHarmless history)
      (less : (delivered history).length < (due text history).length)

theorem allHarmless_cons {t : Transition RecvBuf BufCall BufReply} {older : BufTrace} :
    AllHarmless (t :: older) ↔
      (∀ room, t.action = .emit room → Harmless t.before room) ∧ AllHarmless older := by
  simp [AllHarmless]

theorem due_length (t : Transition RecvBuf BufCall BufReply) (older : BufTrace) :
    (due text (t :: older)).length =
      (due text older).length + (t.after.lastMaxoff - t.before.lastMaxoff) := by
  simp [due]

theorem due_still {t : Transition RecvBuf BufCall BufReply} (older : BufTrace)
    (still : t.after.lastMaxoff = t.before.lastMaxoff) : due text (t :: older) = due text older := by
  simp [due, still]

theorem standing_still {t : Transition RecvBuf BufCall BufReply} {older : BufTrace}
    (standing : Standing text pieces older t.before)
    (harmless : ∀ room, t.action = .emit room → Harmless t.before room)
    (nothing : handed t.reply = []) (still : t.after.lastMaxoff = t.before.lastMaxoff)
    (untouched : Untouched pieces older t.before → Untouched pieces (t :: older) t.after) :
    Standing text pieces (t :: older) t.after := by
  cases standing with
  | even all same kept =>
    refine .even (allHarmless_cons.mpr ⟨harmless, all⟩) ?_ (untouched kept)
    rw [due_still older still, delivered, nothing, List.append_nil, same]
  | short harmful less =>
    refine .short (fun all => harmful (allHarmless_cons.mp all).2) ?_
    rw [due_still older still, delivered, nothing, List.append_nil]
    exact less

theorem unwritten_before_first (pieces_cut : Cut text pieces) {history : BufTrace} {r : RecvBuf}
    {room i : Nat} (sound : Sound pieces r) (untouched : Untouched pieces history r)
    (harmless : Harmless r room) (above : r.lastMaxoff ≤ i) (below : i < r.lastMaxoff + room) :
    written history i = false := by
  by_contra written_
  rw [Bool.not_eq_false, written, List.any_eq_true] at written_
  obtain ⟨t, mem, hit⟩ := written_
  unfold covers at hit
  split at hit
  · rename_i off content action
    simp only [Bool.and_eq_true, decide_eq_true_eq] at hit
    obtain ⟨_, stored⟩ := untouched t mem off content action
    cases front : r.data.first? with
    | none =>
      rw [List.head?_eq_none_iff.mp front] at stored
      cases stored
    | some e =>
      obtain ⟨first, least, _⟩ := OrdMap.first?_least front
      have end_ := (harmless e front).resolve_left (by omega)
      rcases least _ stored with here | later
      · rw [← here] at end_
        simp only [RangeBuf.ofSlice] at end_
        omega
      · have holds := sound _ first
        have start := holds_later pieces_cut holds (sound _ stored) later
        have unread := holds.part.unread
        have key_eq := holds.key_eq
        simp only [RangeBuf.ofSlice] at start
        omega
  · cases hit

theorem write_untouched (pieces_cut : Cut text pieces) {history : BufTrace} {r r' : RecvBuf}
    {off : Nat} {content : Bytes} {o : BufReply} (piece : (off, content) ∈ pieces)
    (stored : r'.data = r.data.insert (off + content.length) (RangeBuf.ofSlice content off))
    (untouched : Untouched pieces history r) :
    Untouched pieces (⟨r, .write off content, o, r'⟩ :: history) r' := by
  intro t mem off' content' action
  rw [stored]
  rcases List.mem_cons.mp mem with here | there
  · subst here
    simp only [BufCall.write.injEq] at action
    obtain ⟨rfl, rfl⟩ := action
    exact ⟨piece, OrdMap.mem_insert.mpr (Or.inl rfl)⟩
  · obtain ⟨piece', old⟩ := untouched t there off' content' action
    refine ⟨piece', OrdMap.mem_insert.mpr ?_⟩
    by_cases same : off' + content'.length = off + content.length
    · have equal := cut_end_unique pieces_cut piece' piece same
      simp only [Prod.mk.injEq] at equal
      obtain ⟨rfl, rfl⟩ := equal
      exact Or.inl rfl
    · exact Or.inr ⟨old, same⟩

theorem emit_untouched {history : BufTrace} {r r' : RecvBuf} {room : Nat} {o : BufReply}
    (same : r'.data = r.data) (untouched : Untouched pieces history r) :
    Untouched pieces (⟨r, .emit room, o, r'⟩ :: history) r' := by
  intro t mem off content action
  rw [same]
  rcases List.mem_cons.mp mem with here | there
  · subst here
    cases action
  · exact untouched t there off content action

theorem emit_standing (pieces_cut : Cut text pieces) {history : BufTrace} {r r' : RecvBuf}
    {room : Nat} {out : Bytes} {result : Except Error Nat} (sound : Sound pieces r)
    (standing : Standing text pieces history r)
    (outcome : EmitOutcome r room (r', out, result)) :
    Standing text pieces (⟨r, .emit room, .emitted out result, r'⟩ :: history) r' := by
  cases outcome with
  | empty none_stored =>
    refine standing_still standing ?_ rfl rfl (emit_untouched rfl)
    intro _ _ e found
    rw [none_stored] at found
    cases found
  | even harmless =>
    have given : handed (.emitted (zeros room) (.ok room)) = zeros room := by
      simp [handed, zeros]
    have step_harmless : ∀ room', (BufCall.emit room = .emit room') → Harmless r room' := by
      intro room' same
      simp only [BufCall.emit.injEq] at same
      rw [← same]
      exact harmless
    cases standing with
    | even all same untouched =>
      refine .even (allHarmless_cons.mpr ⟨step_harmless, all⟩) ?_ (emit_untouched rfl untouched)
      have zeros_due : (List.range' r.lastMaxoff (r.lastMaxoff + room - r.lastMaxoff)).map
          (fun i => if written history i then text.getD i 0 else 0) = zeros room := by
        rw [Nat.add_sub_cancel_left, zeros, List.eq_replicate_iff]
        refine ⟨by simp, ?_⟩
        intro x mem
        obtain ⟨i, inside, rfl⟩ := List.mem_map.mp mem
        rw [List.mem_range'_1] at inside
        rw [unwritten_before_first pieces_cut sound untouched harmless inside.1 inside.2]
        rfl
      rw [delivered, given, due, zeros_due, same]
    | short harmful less =>
      refine .short (fun all => harmful (allHarmless_cons.mp all).2) ?_
      rw [due_length, delivered, given, List.length_append, zeros, List.length_replicate]
      dsimp only
      omega
  | @behind _ _ n uneven less =>
    have count : (handed (.emitted out (.ok n))).length ≤ n := List.length_take_le n out
    have before : (delivered history).length ≤ (due text history).length := by
      cases standing with
      | even _ same _ => rw [same]
      | short _ less => exact Nat.le_of_lt less
    refine .short (fun all => uneven ((allHarmless_cons.mp all).1 room rfl)) ?_
    rw [due_length, delivered, List.length_append]
    dsimp only
    omega

section Runs
variable [Profile]

theorem run_standing (pieces_cut : Cut text pieces) {trace : BufTrace} {r : RecvBuf}
    (run : Run bufStep (Legal pieces) RecvBuf.new trace r) :
    Sound pieces r ∧ Standing text pieces trace.reverse r := by
  refine run_invariant (fun trace r => Sound pieces r ∧ Standing text pieces trace.reverse r) ?_ ?_
    run
  · refine ⟨?_, .even ?_ rfl ?_⟩
    · intro e mem
      cases mem
    · intro t mem
      cases mem
    · intro t mem
      cases mem
  · intro trace r a o r' _ before may taken
    obtain ⟨sound, standing⟩ := before
    rw [List.reverse_append]
    cases a with
    | write off content =>
      obtain ⟨r1, stored, sound', cursor, data⟩ := write_stored pieces_cut sound may.1 may.2
      simp only [bufStep, stored, ok_bind, pure, Except.pure, Except.ok.injEq, Prod.mk.injEq]
        at taken
      obtain ⟨rfl, rfl⟩ := taken
      refine ⟨sound', standing_still (t := ⟨r, .write off content, .wrote, r1⟩) standing ?_ rfl
        cursor (write_untouched pieces_cut may.1 data)⟩
      intro room action
      cases action
    | emit room =>
      obtain ⟨r1, out, result, emitted, sound', outcome⟩ := emit_outcome pieces_cut sound room
      simp only [bufStep, emitted, ok_bind, pure, Except.pure, Except.ok.injEq, Prod.mk.injEq]
        at taken
      obtain ⟨rfl, rfl⟩ := taken
      exact ⟨sound', emit_standing pieces_cut sound standing outcome⟩

/-- The reader gets the stream exactly in the runs whose reads never reach a chunk. -/
theorem reassembled_iff_all_harmless (pieces_cut : Cut text pieces) {trace : BufTrace}
    {r : RecvBuf} (run : Run bufStep (Legal pieces) RecvBuf.new trace r) :
    (∀ a, Legal pieces r a → ∃ r' o, bufStep r a = .ok (r', o)) ∧
      (delivered trace.reverse = due text trace.reverse ↔
        ∀ t ∈ trace, ∀ room, t.action = .emit room → Harmless t.before room) := by
  obtain ⟨sound, standing⟩ := run_standing pieces_cut run
  constructor
  · intro a may
    cases a with
    | write off content =>
      obtain ⟨r1, stored, _⟩ := write_stored pieces_cut sound may.1 may.2
      exact ⟨r1, .wrote, by simp only [bufStep, stored, ok_bind]; rfl⟩
    | emit room =>
      obtain ⟨r1, out, result, emitted, _⟩ := emit_outcome pieces_cut sound room
      exact ⟨r1, .emitted out result, by simp only [bufStep, emitted, ok_bind]; rfl⟩
  · have forward : AllHarmless trace.reverse ↔
        ∀ t ∈ trace, ∀ room, t.action = .emit room → Harmless t.before room := by
      simp [AllHarmless]
    rw [← forward]
    cases standing with
    | even harmless same _ => exact ⟨fun _ => harmless, fun _ => same⟩
    | short harmful less =>
      constructor
      · intro same
        rw [same] at less
        omega
      · intro harmless
        exact absurd harmless harmful

end Runs

def sixBytes : Bytes := [1, 2, 3, 4, 5, 6]

def twoPieces : List (Nat × Bytes) := [(0, [1, 2, 3, 4]), (4, [5, 6])]

theorem twoPieces_cut : Cut sixBytes twoPieces := by
  refine ⟨?_, by decide, by decide⟩
  exact .piece (by decide) (by decide) (.piece (by decide) (by decide) (.done 6))

def calm (t : Transition RecvBuf BufCall BufReply) : Bool :=
  match t.action with
  | .emit room => decide (Harmless t.before room)
  | .write _ _ => true

theorem calm_harmless {t : Transition RecvBuf BufCall BufReply} (quiet : calm t = true) {room : Nat}
    (action : t.action = .emit room) : Harmless t.before room := by
  simpa [calm, action] using quiet

theorem gap_before_second_piece_delivered : ∃ (trace : BufTrace) (r : RecvBuf),
    Run (@bufStep checkedBuild) (Legal twoPieces) RecvBuf.new trace r ∧
      trace.map (fun t => t.action) = [.write 4 [5, 6], .emit 4] ∧
      delivered trace.reverse = [0, 0, 0, 0] ∧
      delivered trace.reverse = due sixBytes trace.reverse := by
  have passed : passes (@bufStep checkedBuild) (Legal twoPieces) RecvBuf.new
      [.write 4 [5, 6], .emit 4] (fun trace _ =>
        decide (delivered trace.reverse = [0, 0, 0, 0]) && trace.all calm) = true := by
    decide +kernel
  obtain ⟨trace, r, run, played, outcome⟩ := played_run passed
  simp only [Bool.and_eq_true, decide_eq_true_eq, List.all_eq_true] at outcome
  obtain ⟨_, exactly⟩ :=
    @reassembled_iff_all_harmless sixBytes twoPieces checkedBuild twoPieces_cut trace r run
  refine ⟨trace, r, run, played, outcome.1, exactly.mpr ?_⟩
  intro t mem room action
  exact calm_harmless (outcome.2 t mem) action

theorem copied_chunk_not_counted : ∃ (trace : BufTrace) (r : RecvBuf),
    Run (@bufStep checkedBuild) (Legal twoPieces) RecvBuf.new trace r ∧ r.lastMaxoff = 4 ∧
      delivered trace.reverse = [] ∧ due sixBytes trace.reverse = [1, 2, 3, 4] := by
  have passed : passes (@bufStep checkedBuild) (Legal twoPieces) RecvBuf.new
      [.write 0 [1, 2, 3, 4], .emit 10] (fun trace r => decide (r.lastMaxoff = 4) &&
        decide (delivered trace.reverse = []) &&
          decide (due sixBytes trace.reverse = [1, 2, 3, 4])) = true := by decide +kernel
  obtain ⟨trace, r, run, played, outcome⟩ := played_run passed
  simp only [Bool.and_eq_true, decide_eq_true_eq] at outcome
  exact ⟨trace, r, run, outcome.1.1, outcome.1.2, outcome.2⟩

end DmludpReassembly
