import Dmludp.Guarantees.Reassembly

/- Data that arrives after the reader has passed it. `write` stores every chunk under its end and
   never looks at the cursor; what `emit` makes of a passed chunk is decided in the round that
   meets it, so the rounds of a call are made visible here. -/
namespace DmludpLateData
open ByteCursor RustOutcome TracedRun OrderedMap StreamTiling DmludpPacket DmludpRange DmludpRecv
open DmludpReassembly DmludpReference

theorem entries_set_length (m : OrdMap Nat RangeBuf) (k : Nat) (b : RangeBuf) :
    (m.set k b).entries.length = m.entries.length := by
  have same := congrArg List.length (OrdMap.keys_set m k b)
  simpa [OrdMap.keys] using same

section Rounds
variable [Profile]

theorem emitLoop_step (fuel : Nat) (st : EmitState) :
    RecvBuf.emitLoop (fuel + 1) st = (RecvBuf.emitLoop 1 st >>= fun st' =>
      if st'.recv.data.entries.length < st.recv.data.entries.length then
        RecvBuf.emitLoop fuel st' else .ok st') := by
  rw [RecvBuf.emitLoop_succ, RecvBuf.emitLoop_succ 0]
  cases turned : RecvBuf.emitRound st with
  | error p => rfl
  | ok turn =>
    have count := RecvBuf.roundEffect_count (RecvBuf.emitRound_effect turned)
    cases turn with
    | again next =>
      dsimp only at count
      simp only [ok_bind, RecvBuf.emitLoop]
      rw [if_pos (by omega)]
    | leave next =>
      dsimp only at count
      simp only [ok_bind]
      rw [if_neg (by omega)]

def rounds : Nat → EmitState → List EmitState
  | 0, _ => []
  | fuel + 1, st =>
    if st.cap > 0 && st.recv.ready then
      match RecvBuf.emitLoop 1 st with
      | .ok st' =>
        if st'.recv.data.entries.length < st.recv.data.entries.length then st :: rounds fuel st'
        else [st]
      | .error _ => [st]
    else []

/-- The round that begins in `st` subtracts without underflow, and copies only bytes of the stream
    at or after the cursor. -/
def RoundSafe (st : EmitState) : Prop :=
  ∀ e ∈ st.recv.data.first?, ∃ maxOff dataLen, e.2.maxOff = .ok maxOff ∧ e.2.lenFn = .ok dataLen ∧
    st.recv.lastMaxoff ≤ maxOff ∧ dataLen ≤ maxOff - st.recv.lastMaxoff ∧
    ∀ gap, gap = maxOff - st.recv.lastMaxoff - dataLen → gap < st.cap →
      ∀ i < min dataLen (st.cap - gap), st.recv.lastMaxoff + gap ≤ e.2.off + i

/-- `emit` with a buffer of `room` bytes does no harm: every round is safe, it returns, and the
    cursor does not go back. -/
structure EmitSafe (r : RecvBuf) (room : Nat) : Prop where
  rounds : ∀ st ∈ rounds r.data.entries.length ⟨r, zeros room, 0, room⟩, RoundSafe st
  returns : ∃ r' out result, r.emit (zeros room) = .ok (r', out, result) ∧
    r.lastMaxoff ≤ r'.lastMaxoff

end Rounds

/-- The first stored chunk has not been passed, or the call has no room to reach it. -/
def OnTime (r : RecvBuf) (room : Nat) : Prop :=
  room = 0 ∨ ∀ e ∈ r.data.first?, r.lastMaxoff ≤ e.2.off

instance (r : RecvBuf) (room : Nat) : Decidable (OnTime r room) :=
  inferInstanceAs (Decidable (_ ∨ _))

variable {text : Bytes} {pieces : List (Nat × Bytes)}

/-- A stored chunk is a piece of the stream, and what has been read of it has been passed. -/
structure Stored (pieces : List (Nat × Bytes)) (cursor key : Nat) (b : RangeBuf) : Prop where
  piece : (b.off, b.data) ∈ pieces
  key_eq : key = b.off + b.len
  part : b.Partial
  read : b.pos = 0 ∨ b.off + b.pos ≤ cursor

def AllStored (pieces : List (Nat × Bytes)) (r : RecvBuf) : Prop :=
  ∀ e ∈ r.data.entries, Stored pieces r.lastMaxoff e.1 e.2

def Waiting (pieces : List (Nat × Bytes)) (r : RecvBuf) : Prop :=
  ∀ e ∈ r.data.entries, Holds pieces r.lastMaxoff e.1 e.2 ∧ e.2.pos = 0

theorem stored_holds {cursor key : Nat} {b : RangeBuf} (stored : Stored pieces cursor key b)
    {low : Nat} (ahead : low ≤ b.off + b.pos) : Holds pieces low key b :=
  ⟨stored.piece, stored.key_eq, stored.part, ahead⟩

theorem waiting_stored {r : RecvBuf} (waiting : Waiting pieces r) (cursor : Nat) :
    AllStored pieces { r with lastMaxoff := cursor } := by
  intro e mem
  obtain ⟨holds, unread⟩ := waiting e mem
  exact ⟨holds.piece, holds.key_eq, holds.part, Or.inl unread⟩

theorem waiting_sound {r : RecvBuf} (waiting : Waiting pieces r) : Sound pieces r :=
  fun e mem => (waiting e mem).1

theorem waiting_of_onTime (pieces_cut : Cut text pieces) {r : RecvBuf} {key : Nat} {b : RangeBuf}
    (stored : AllStored pieces r) (front : r.data.first? = some (key, b))
    (ahead : r.lastMaxoff ≤ b.off) : Waiting pieces r := by
  have first := stored _ (OrdMap.first?_least front).1
  have fresh : ∀ e ∈ r.data.entries, r.lastMaxoff ≤ e.2.off →
      Holds pieces r.lastMaxoff e.1 e.2 ∧ e.2.pos = 0 := by
    intro e mem low
    have here := stored e mem
    have unread : e.2.pos = 0 := by
      rcases here.read with unread | passed
      · exact unread
      · omega
    exact ⟨stored_holds here (by omega), unread⟩
  intro e mem
  apply fresh e mem
  rcases (OrdMap.first?_least front).2.1 e mem with here | later
  · rw [here]
    exact ahead
  · have start := holds_later pieces_cut (stored_holds first (Nat.zero_le _))
      (stored_holds (stored e mem) (Nat.zero_le _)) later
    have key_eq := first.key_eq
    dsimp only at key_eq
    omega

theorem waiting_popped (pieces_cut : Cut text pieces) {r : RecvBuf} {key : Nat} {b : RangeBuf}
    (waiting : Waiting pieces r) (front : r.data.first? = some (key, b)) :
    Waiting pieces { r with data := r.data.popFirst, lastMaxoff := key } := by
  have sound := sound_popped pieces_cut (waiting_sound waiting) front
  intro e mem
  exact ⟨sound e mem, (waiting e ((OrdMap.first?_least front).2.2 e mem).1).2⟩

theorem begun_stored {r : RecvBuf} {key n : Nat} {b : RangeBuf} (waiting : Waiting pieces r)
    (front : r.data.first? = some (key, b)) (some_left : n < b.len) :
    AllStored pieces { r with data := r.data.set key (b.consume n), lastMaxoff := b.off + n } := by
  obtain ⟨first, unread⟩ := waiting _ (OrdMap.first?_least front).1
  dsimp only at unread
  intro e mem
  rcases OrdMap.mem_set.mp mem with ⟨old, _⟩ | ⟨rfl, _⟩
  · exact waiting_stored waiting _ e old
  · obtain ⟨piece, key_eq, ⟨start_zero, len_eq, _, word⟩, _⟩ := first
    have position : b.pos + n < b.len := by omega
    exact ⟨piece, key_eq, ⟨start_zero, len_eq, position, word⟩,
      Or.inr (by simp only [RangeBuf.consume]; omega)⟩

section Emit
variable [Profile]

theorem round_safe {st : EmitState} (waiting : Waiting pieces st.recv) : RoundSafe st := by
  rintro ⟨key, b⟩ front
  obtain ⟨holds, unread⟩ := waiting _ (OrdMap.first?_least front).1
  have ahead := holds.ahead
  dsimp only at unread ahead
  refine ⟨b.off + b.len, b.len - b.pos, partial_maxOff holds.part, partial_lenFn holds.part,
    by omega, by omega, ?_⟩
  intro gap gap_eq _ i _
  dsimp only
  omega

theorem loop_idle {st : EmitState} (idle : st.cap = 0 ∨ st.recv.data.first? = none) (fuel : Nat) :
    RecvBuf.emitLoop fuel st = .ok st ∧ rounds fuel st = [] := by
  have closed : (decide (st.cap > 0) && st.recv.ready) = false := by
    rcases idle with full | none_stored
    · simp [full]
    · simp [RecvBuf.ready_eq_first, none_stored]
  refine ⟨RecvBuf.emitLoop_over fuel idle, ?_⟩
  cases fuel with
  | zero => rfl
  | succ fuel => simp [rounds, closed]

inductive RoundCase (pieces : List (Nat × Bytes)) (st : EmitState) : EmitState → Prop where
  | ends {st' : EmitState}
      (same : ¬ st'.recv.data.entries.length < st.recv.data.entries.length)
      (forward : st.recv.lastMaxoff ≤ st'.recv.lastMaxoff) (stored : AllStored pieces st'.recv) :
      RoundCase pieces st st'
  | goesOn {st' : EmitState}
      (fewer : st'.recv.data.entries.length < st.recv.data.entries.length)
      (forward : st.recv.lastMaxoff ≤ st'.recv.lastMaxoff) (waiting : Waiting pieces st'.recv)
      (bounded : st'.len + st'.cap = st'.out.length) : RoundCase pieces st st'

theorem round_cases (pieces_cut : Cut text pieces) {st : EmitState} {key : Nat} {b : RangeBuf}
    (waiting : Waiting pieces st.recv) (front : st.recv.data.first? = some (key, b))
    (open_ : 0 < st.cap) (bounded : st.len + st.cap = st.out.length) :
    ∃ st', RecvBuf.emitLoop 1 st = .ok st' ∧ RoundCase pieces st st' := by
  have mem := (OrdMap.first?_least front).1
  obtain ⟨holds, unread⟩ : Holds pieces st.recv.lastMaxoff key b ∧ b.pos = 0 := waiting _ mem
  have ahead := holds.ahead
  have key_eq := holds.key_eq
  have outcome : RoundOutcome 0 st key b (RecvBuf.emitLoop 1 st) :=
    round_outcome holds front open_ bounded
  generalize RecvBuf.emitLoop 1 st = loop at outcome ⊢
  cases outcome with
  | whole recv _ bounded =>
    have popped := waiting_popped pieces_cut waiting front
    rw [← recv] at popped
    refine ⟨_, rfl, .goesOn ?_ ?_ popped bounded⟩
    · have some_left := List.length_pos_of_mem mem
      simp only [recv, OrdMap.popFirst, List.length_tail]
      omega
    · simp only [recv]
      omega
  | part some_left _ recv _ =>
    have begun := begun_stored waiting front (Nat.lt_of_lt_of_le some_left (Nat.sub_le _ _))
    rw [unread, Nat.add_zero] at recv
    rw [← recv] at begun
    refine ⟨_, rfl, .ends ?_ ?_ begun⟩
    · rw [recv, entries_set_length]
      exact Nat.lt_irrefl _
    · simp only [recv]
      omega
  | short _ recv _ _ =>
    have stored := waiting_stored waiting (st.recv.lastMaxoff + st.cap)
    rw [← recv] at stored
    refine ⟨_, rfl, .ends ?_ ?_ stored⟩
    · rw [recv]
      exact Nat.lt_irrefl _
    · simp only [recv]
      omega

theorem emitLoop_onTime (pieces_cut : Cut text pieces) (fuel : Nat) {st : EmitState}
    (waiting : Waiting pieces st.recv) (bounded : st.len + st.cap = st.out.length) :
    ∃ st', RecvBuf.emitLoop fuel st = .ok st' ∧ st.recv.lastMaxoff ≤ st'.recv.lastMaxoff ∧
      AllStored pieces st'.recv ∧ ∀ s ∈ rounds fuel st, RoundSafe s := by
  have unmoved := waiting_stored waiting st.recv.lastMaxoff
  induction fuel generalizing st with
  | zero => exact ⟨st, rfl, Nat.le_refl _, unmoved, by simp [rounds]⟩
  | succ fuel ih =>
    by_cases open_ : 0 < st.cap
    · cases front : st.recv.data.first? with
      | none =>
        obtain ⟨loop, none_begun⟩ := loop_idle (Or.inr front) (fuel + 1)
        exact ⟨st, loop, Nat.le_refl _, unmoved, by simp [none_begun]⟩
      | some e =>
        obtain ⟨st1, one, outcome⟩ := round_cases pieces_cut waiting front open_ bounded
        have entered : (decide (st.cap > 0) && st.recv.ready) = true := by
          simp [open_, RecvBuf.ready_eq_first, front]
        have safe := round_safe waiting
        rw [emitLoop_step, one, ok_bind]
        simp only [rounds, entered, ↓reduceIte, one]
        cases outcome with
        | ends same forward stored =>
          rw [if_neg same, if_neg same]
          exact ⟨st1, rfl, forward, stored, by simpa using safe⟩
        | goesOn fewer forward waiting' bounded' =>
          rw [if_pos fewer, if_pos fewer]
          obtain ⟨st', done, forward', stored, rest⟩ := ih waiting' bounded'
            (waiting_stored waiting' _)
          refine ⟨st', done, forward.trans forward', stored, ?_⟩
          intro s mem
          rcases List.mem_cons.mp mem with rfl | later
          · exact safe
          · exact rest s later
    · obtain ⟨loop, none_begun⟩ := loop_idle (Or.inl (Nat.eq_zero_of_not_pos open_)) (fuel + 1)
      exact ⟨st, loop, Nat.le_refl _, unmoved, by simp [none_begun]⟩

theorem emit_onTime (pieces_cut : Cut text pieces) {r : RecvBuf} (stored : AllStored pieces r)
    {room : Nat} (onTime : OnTime r room) :
    EmitSafe r room ∧ ∀ r' out result, r.emit (zeros room) = .ok (r', out, result) →
      AllStored pieces r' := by
  have size : (zeros room).length = room := List.length_replicate
  have idle : ∀ {fuel : Nat}, room = 0 ∨ r.data.first? = none →
      RecvBuf.emitLoop fuel ⟨r, zeros room, 0, room⟩ = .ok ⟨r, zeros room, 0, room⟩ ∧
        rounds fuel ⟨r, zeros room, 0, room⟩ = [] := fun idle => loop_idle idle _
  have looped : ∃ st', RecvBuf.emitLoop r.data.entries.length ⟨r, zeros room, 0, room⟩ = .ok st' ∧
      r.lastMaxoff ≤ st'.recv.lastMaxoff ∧ AllStored pieces st'.recv ∧
      ∀ s ∈ rounds r.data.entries.length ⟨r, zeros room, 0, room⟩, RoundSafe s := by
    cases front : r.data.first? with
    | none =>
      obtain ⟨loop, none_begun⟩ := idle (Or.inr front)
      exact ⟨_, loop, Nat.le_refl _, stored, by simp [none_begun]⟩
    | some e =>
      rcases onTime with no_room | ahead
      · obtain ⟨loop, none_begun⟩ := idle (Or.inl no_room)
        exact ⟨_, loop, Nat.le_refl _, stored, by simp [none_begun]⟩
      · exact emitLoop_onTime pieces_cut _ (waiting_of_onTime pieces_cut stored front (ahead e front))
          (by simp only [size]; omega)
  obtain ⟨st', loop, forward, stored', safe⟩ := looped
  have emitted : ∃ result, r.emit (zeros room) = .ok (result) ∧
      (result.1 = r ∨ result.1 = st'.recv) := by
    unfold RecvBuf.emit
    split
    · exact ⟨_, rfl, Or.inl rfl⟩
    · rw [size, loop, ok_bind]
      exact ⟨_, rfl, Or.inr rfl⟩
  obtain ⟨⟨r1, out, result⟩, returned, which⟩ := emitted
  dsimp only at which
  refine ⟨⟨safe, r1, out, result, returned, ?_⟩, ?_⟩
  · rcases which with rfl | rfl
    · exact Nat.le_refl _
    · exact forward
  · intro r' out' result' again
    rw [returned] at again
    cases again
    rcases which with rfl | rfl
    · exact stored
    · exact stored'

theorem onTime_of_safe {r : RecvBuf} (stored : AllStored pieces r) {room : Nat}
    (safe : EmitSafe r room) : OnTime r room := by
  by_cases no_room : room = 0
  · exact Or.inl no_room
  · right
    rintro ⟨key, b⟩ front
    have mem := (OrdMap.first?_least front).1
    obtain ⟨more, enough⟩ : ∃ more, r.data.entries.length = more + 1 :=
      Nat.exists_eq_add_one.mpr (List.length_pos_of_mem mem)
    have entered : (decide (room > 0) && r.ready) = true := by
      simp [Nat.pos_of_ne_zero no_room, RecvBuf.ready_eq_first, Option.mem_def.mp front]
    have begun : (⟨r, zeros room, 0, room⟩ : EmitState) ∈
        rounds r.data.entries.length ⟨r, zeros room, 0, room⟩ := by
      rw [enough]
      simp only [rounds, entered, ↓reduceIte]
      split
      · split <;> simp
      · simp
    obtain ⟨maxOff, dataLen, high, length, first, second, copies⟩ := safe.rounds _ begun _ front
    have here := stored _ mem
    rw [partial_maxOff here.part, Except.ok.injEq] at high
    rw [partial_lenFn here.part, Except.ok.injEq] at length
    have unread := here.part.unread
    have read := here.read
    dsimp only at high length first second copies unread read ⊢
    rcases read with whole | passed
    · omega
    · -- the cursor stands inside the chunk, and the round copies the chunk from its start
      have start := copies 0 (by omega) (Nat.pos_of_ne_zero no_room) 0 (by omega)
      omega

theorem write_allStored (pieces_cut : Cut text pieces) {r : RecvBuf} {off : Nat} {content : Bytes}
    (stored : AllStored pieces r) (piece : (off, content) ∈ pieces) :
    ∃ r', r.write content off = .ok (r', .ok ()) ∧ AllStored pieces r' := by
  obtain ⟨part, high, written⟩ := write_inserts pieces_cut r piece
  refine ⟨_, written, ?_⟩
  intro e mem
  rcases OrdMap.mem_insert.mp mem with rfl | ⟨old, _⟩
  · exact ⟨piece, rfl, part, Or.inl rfl⟩
  · exact stored e old

end Emit

def ChunkCall (pieces : List (Nat × Bytes)) (_ : RecvBuf) : BufCall → Prop
  | .write off content => (off, content) ∈ pieces
  | .emit _ => True

instance (pieces : List (Nat × Bytes)) (r : RecvBuf) (a : BufCall) :
    Decidable (ChunkCall pieces r a) :=
  match a with
  | .write off content => inferInstanceAs (Decidable ((off, content) ∈ pieces))
  | .emit _ => inferInstanceAs (Decidable True)

def reads (trace : BufTrace) : List (RecvBuf × Nat) :=
  trace.filterMap (fun t => match t.action with
    | .emit room => some (t.before, room)
    | .write _ _ => none)

section Runs
variable [Profile]

theorem run_stored (pieces_cut : Cut text pieces) {trace : BufTrace} {r : RecvBuf}
    (run : Run bufStep (ChunkCall pieces) RecvBuf.new trace r) :
    ((∀ p ∈ reads trace, EmitSafe p.1 p.2) ↔ ∀ p ∈ reads trace, OnTime p.1 p.2) ∧
      ((∀ p ∈ reads trace, OnTime p.1 p.2) → AllStored pieces r) := by
  induction run with
  | start =>
    refine ⟨by simp [reads], ?_⟩
    intro _ e mem
    cases mem
  | @step trace r r' a o earlier may taken ih =>
    obtain ⟨same, stored⟩ := ih
    cases a with
    | write off content =>
      have silent : reads (trace ++ [⟨r, .write off content, o, r'⟩]) = reads trace := by
        simp [reads]
      rw [silent]
      refine ⟨same, ?_⟩
      intro onTime
      obtain ⟨r1, written, stored'⟩ := write_allStored pieces_cut (stored onTime) may
      simp only [bufStep, written, ok_bind, pure, Except.pure, Except.ok.injEq, Prod.mk.injEq]
        at taken
      obtain ⟨rfl, _⟩ := taken
      exact stored'
    | emit room =>
      have one_more : reads (trace ++ [⟨r, .emit room, o, r'⟩]) = reads trace ++ [(r, room)] := by
        simp [reads]
      obtain ⟨⟨r1, out, result⟩, emitted, taken⟩ := bind_ok_iff.mp taken
      cases taken
      simp only [one_more, List.forall_mem_append, List.forall_mem_singleton]
      refine ⟨?_, ?_⟩
      · constructor
        · rintro ⟨before, safe⟩
          exact ⟨same.mp before, onTime_of_safe (stored (same.mp before)) safe⟩
        · rintro ⟨before, onTime⟩
          exact ⟨same.mpr before, (emit_onTime pieces_cut (stored before) onTime).1⟩
      · rintro ⟨before, onTime⟩
        exact (emit_onTime pieces_cut (stored before) onTime).2 _ _ _ emitted

/-- In every run, and for one more read in its last state, no read does harm exactly when each
    of them finds the first stored chunk not yet passed, or has no room to reach it. -/
theorem late_data_harmless_iff (pieces_cut : Cut text pieces) {trace : BufTrace} {r : RecvBuf}
    (run : Run bufStep (ChunkCall pieces) RecvBuf.new trace r) (room : Nat) :
    (∀ p ∈ reads trace ++ [(r, room)], EmitSafe p.1 p.2) ↔
      ∀ p ∈ reads trace ++ [(r, room)], OnTime p.1 p.2 := by
  obtain ⟨same, stored⟩ := run_stored pieces_cut run
  simp only [List.forall_mem_append, List.forall_mem_singleton]
  constructor
  · rintro ⟨before, safe⟩
    exact ⟨same.mp before, onTime_of_safe (stored (same.mp before)) safe⟩
  · rintro ⟨before, onTime⟩
    exact ⟨same.mpr before, (emit_onTime pieces_cut (stored before) onTime).1⟩

end Runs

def allOnTime (trace : BufTrace) (r : RecvBuf) (room : Nat) : Bool :=
  (reads trace ++ [(r, room)]).all (fun p => decide (OnTime p.1 p.2))

theorem second_piece_in_time : ∃ (trace : BufTrace) (r : RecvBuf),
    Run (@bufStep checkedBuild) (ChunkCall twoPieces) RecvBuf.new trace r ∧
      trace.map (fun t => t.action) = [.write 0 [1, 2, 3, 4], .emit 10, .write 4 [5, 6]] ∧
      r.lastMaxoff = 4 ∧ ∀ p ∈ reads trace ++ [(r, 2)], @EmitSafe checkedBuild p.1 p.2 := by
  have passed : passes (@bufStep checkedBuild) (ChunkCall twoPieces) RecvBuf.new
      [.write 0 [1, 2, 3, 4], .emit 10, .write 4 [5, 6]]
      (fun trace r => decide (r.lastMaxoff = 4) && allOnTime trace r 2) = true := by decide +kernel
  obtain ⟨trace, r, run, played, outcome⟩ := played_run passed
  simp only [Bool.and_eq_true, decide_eq_true_eq, allOnTime, List.all_eq_true] at outcome
  exact ⟨trace, r, run, played, outcome.1,
    (@late_data_harmless_iff sixBytes twoPieces checkedBuild twoPieces_cut trace r run 2).mpr
      outcome.2⟩

/-- A chunk that arrives a second time after it was read makes the next read underflow; a chunk
    that was read in part is copied from its start again. -/
theorem passed_chunks_do_harm :
    (∃ (trace : BufTrace) (r : RecvBuf),
      Run (@bufStep checkedBuild) (ChunkCall twoPieces) RecvBuf.new trace r ∧
        trace.map (fun t => t.action) =
          [.write 0 [1, 2, 3, 4], .emit 10, .write 0 [1, 2, 3, 4]] ∧
        @RecvBuf.emit checkedBuild r (zeros 10) = .error .overflow ∧
        ¬ @EmitSafe checkedBuild r 10) ∧
    (∃ (trace : BufTrace) (r : RecvBuf),
      Run (@bufStep checkedBuild) (ChunkCall twoPieces) RecvBuf.new trace r ∧
        trace.map (fun t => t.action) = [.write 0 [1, 2, 3, 4], .emit 2] ∧ r.lastMaxoff = 2 ∧
        (∃ r', @RecvBuf.emit checkedBuild r (zeros 2) = .ok (r', [1, 2], .ok 0)) ∧
        ¬ @EmitSafe checkedBuild r 2) := by
  constructor
  · have passed : passes (@bufStep checkedBuild) (ChunkCall twoPieces) RecvBuf.new
        [.write 0 [1, 2, 3, 4], .emit 10, .write 0 [1, 2, 3, 4]] (fun _ r =>
          decide (@RecvBuf.emit checkedBuild r (zeros 10) = .error .overflow)) = true := by
      decide +kernel
    obtain ⟨trace, r, run, played, outcome⟩ := played_run passed
    have overflow := of_decide_eq_true outcome
    refine ⟨trace, r, run, played, overflow, ?_⟩
    rintro ⟨_, _, _, _, returned, _⟩
    rw [overflow] at returned
    cases returned
  · have passed : passes (@bufStep checkedBuild) (ChunkCall twoPieces) RecvBuf.new
        [.write 0 [1, 2, 3, 4], .emit 2] (fun trace r => decide (r.lastMaxoff = 2) &&
          (reads trace).all (fun p => decide (OnTime p.1 p.2)) && !decide (OnTime r 2) &&
          decide ((@RecvBuf.emit checkedBuild r (zeros 2)).map (fun p => p.2) =
            .ok ([1, 2], .ok 0))) = true := by decide +kernel
    obtain ⟨trace, r, run, played, outcome⟩ := played_run passed
    simp only [Bool.and_eq_true, decide_eq_true_eq, List.all_eq_true, Bool.not_eq_true',
      decide_eq_false_iff_not] at outcome
    obtain ⟨⟨⟨cursor, earlier⟩, late⟩, again⟩ := outcome
    cases copied : @RecvBuf.emit checkedBuild r (zeros 2) with
    | error p =>
      rw [copied] at again
      cases again
    | ok given =>
      rw [copied] at again
      obtain ⟨r', text⟩ := given
      cases again
      refine ⟨trace, r, run, played, cursor, ⟨r', copied⟩, ?_⟩
      intro safe
      have stored := (@run_stored sixBytes twoPieces checkedBuild twoPieces_cut trace r run).2 earlier
      exact late (@onTime_of_safe twoPieces checkedBuild r stored 2 safe)

end DmludpLateData
