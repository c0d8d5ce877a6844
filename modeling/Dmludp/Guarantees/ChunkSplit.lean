import Dmludp.Endpoint.ReferenceInstance

/- Splitting a chunk that has been read from. Both halves come from one slice, so a byte is known
   by its place there. The right half always starts with nothing consumed; it shows again whatever
   was consumed behind the split. -/
namespace DmludpChunkSplit
open ByteCursor RustOutcome TracedRun DmludpRange DmludpReference

inductive Half where
  | left
  | right
  deriving DecidableEq

inductive ChunkOp where
  | consume (count : Nat)
  | splitOff (at_ : Nat) (keep : Half)
  deriving DecidableEq

def chunkStep [Profile] (b : RangeBuf) : ChunkOp → Rs (RangeBuf × Unit)
  | .consume count => .ok (b.consume count, ())
  | .splitOff at_ keep => do
    let (left, right) ← b.splitOff at_
    match keep with
    | .left => return (left, ())
    | .right => return (right, ())

/-- At most `len()` bytes are consumed, and splits are within the chunk. -/
def Within [Profile] (b : RangeBuf) : ChunkOp → Prop
  | .consume count => ∃ n ∈ b.lenFn.toOption, count ≤ n
  | .splitOff at_ _ => at_ ≤ b.len

instance [Profile] (b : RangeBuf) (a : ChunkOp) : Decidable (Within b a) :=
  match a with
  | .consume _ => inferInstanceAs (Decidable (∃ n ∈ b.lenFn.toOption, _ ≤ n))
  | .splitOff _ _ => inferInstanceAs (Decidable (_ ≤ _))

abbrev ChunkRecord : Type := Transition RangeBuf ChunkOp Unit
abbrev ChunkTrace : Type := List ChunkRecord

/-- Where in the source slice the chunk's vector begins, and the places consumed so far. -/
structure Ledger where
  base : Nat
  consumed : List Nat

def Ledger.note (l : Ledger) (t : ChunkRecord) : Ledger :=
  match t.action with
  | .consume count => ⟨l.base, l.consumed ++ List.range' (l.base + t.before.pos) count⟩
  | .splitOff _ .left => l
  | .splitOff at_ .right => ⟨l.base + at_, l.consumed⟩

def ledger (trace : ChunkTrace) : Ledger := trace.foldl Ledger.note ⟨0, []⟩

theorem ledger_snoc (trace : ChunkTrace) (t : ChunkRecord) :
    ledger (trace ++ [t]) = (ledger trace).note t := by
  simp [ledger]

/-- The byte at `i` of the source is among those a chunk shows whose vector begins at `base`. -/
def Readable (base : Nat) (b : RangeBuf) (i : Nat) : Prop :=
  base + b.pos ≤ i ∧ i < base + (b.start + b.len)

instance (base : Nat) (b : RangeBuf) (i : Nat) : Decidable (Readable base b i) :=
  inferInstanceAs (Decidable (_ ∧ _))

/-- The split loses no unread byte and brings none back that was consumed in `trace`. -/
structure Conserves [Profile] (trace : ChunkTrace) (b : RangeBuf) (at_ : Nat)
    (left right : RangeBuf) : Prop where
  bytes : ∃ seen first rest, b.deref = .ok seen ∧ left.deref = .ok first ∧
    right.deref = .ok rest ∧ seen = first ++ rest
  counts : ∀ half ∈ [left, right], ∃ shown, half.deref = .ok shown ∧ half.lenFn = .ok shown.length
  start : left.isEmpty = .ok false → left.offFn = b.offFn
  end_ : right.maxOff = b.maxOff
  stay : ∀ i ∈ (ledger trace).consumed, ¬ Readable (ledger trace).base b i →
    ¬ Readable (ledger trace).base left i ∧ ¬ Readable ((ledger trace).base + at_) right i

def SplitsUnread (t : ChunkRecord) : Prop :=
  match t.action with
  | .consume _ => True
  | .splitOff at_ _ => t.before.pos ≤ at_

instance (t : ChunkRecord) : Decidable (SplitsUnread t) :=
  match t with
  | ⟨_, .consume _, _, _⟩ => inferInstanceAs (Decidable True)
  | ⟨_, .splitOff _ _, _, _⟩ => inferInstanceAs (Decidable (_ ≤ _))

structure Placed (source : Bytes) (base : Nat) (b : RangeBuf) : Prop where
  start_zero : b.start = 0
  data_eq : b.data = source.drop base
  inside : base + b.len ≤ source.length
  read : b.pos ≤ b.len

theorem placed_ofSlice (source : Bytes) (off : Nat) :
    Placed source 0 (RangeBuf.ofSlice source off) := by
  refine ⟨rfl, rfl, ?_, Nat.zero_le _⟩
  simp [RangeBuf.ofSlice]

theorem placed_consume {source : Bytes} {base count : Nat} {b : RangeBuf}
    (placed : Placed source base b) (left : count ≤ b.len - b.pos) :
    Placed source base (b.consume count) := by
  have read := placed.read
  refine ⟨placed.start_zero, placed.data_eq, placed.inside, ?_⟩
  dsimp only [RangeBuf.consume]
  omega

def leftHalf (b : RangeBuf) (at_ : Nat) : RangeBuf := { b with pos := min b.pos at_, len := at_ }

def rightHalf (b : RangeBuf) (at_ off : Nat) : RangeBuf := ⟨b.data.drop at_, 0, 0, b.len - at_, off⟩

theorem placed_left {source : Bytes} {base at_ : Nat} {b : RangeBuf} (placed : Placed source base b)
    (inside : at_ ≤ b.len) : Placed source base (leftHalf b at_) := by
  have whole := placed.inside
  refine ⟨placed.start_zero, placed.data_eq, ?_, Nat.min_le_right _ _⟩
  dsimp only [leftHalf]
  omega

theorem placed_right {source : Bytes} {base at_ : Nat} {b : RangeBuf} (placed : Placed source base b)
    (inside : at_ ≤ b.len) (off : Nat) : Placed source (base + at_) (rightHalf b at_ off) := by
  have whole := placed.inside
  refine ⟨rfl, ?_, ?_, Nat.zero_le _⟩
  · dsimp only [rightHalf]
    rw [placed.data_eq, List.drop_drop]
  · dsimp only [rightHalf]
    omega

theorem placed_shown_length {source : Bytes} {base : Nat} {b : RangeBuf}
    (placed : Placed source base b) :
    ((source.drop (base + b.pos)).take (b.len - b.pos)).length = b.len - b.pos := by
  have inside := placed.inside
  have read := placed.read
  rw [List.length_take, List.length_drop]
  omega

theorem shown_cut (source : Bytes) (base : Nat) {b : RangeBuf} {at_ : Nat} (inside : at_ ≤ b.len)
    (unread : b.pos ≤ at_) :
    (source.drop (base + b.pos)).take (b.len - b.pos) =
      (source.drop (base + b.pos)).take (at_ - b.pos) ++
        (source.drop (base + at_)).take (b.len - at_) := by
  have width : b.len - b.pos = (at_ - b.pos) + (b.len - at_) := by omega
  have place : base + at_ = base + b.pos + (at_ - b.pos) := by omega
  rw [width, List.take_add, List.drop_drop, ← place]

section Chunk
variable [Profile] {source : Bytes} {base at_ : Nat} {b : RangeBuf}

theorem placed_lenFn (placed : Placed source base b) : b.lenFn = .ok (b.len - b.pos) :=
  subWord_fits placed.read

theorem placed_maxOff (placed : Placed source base b) : b.maxOff = addWord b.off b.len := by
  have read := placed.read
  have whole : b.pos + (b.len - b.pos) = b.len := by omega
  rw [RangeBuf.maxOff, RangeBuf.offFn, placed.start_zero, subWord_zero, ok_bind,
    placed_lenFn placed]
  simp only [ok_bind]
  rw [addWord_addWord, whole]

theorem placed_deref (fits : source.length ≤ isizeMax) (placed : Placed source base b) :
    b.deref = .ok ((source.drop (base + b.pos)).take (b.len - b.pos)) := by
  have inside := placed.inside
  have small : 0 + b.len < wordSize := by
    simp only [isizeMax, wordSize] at fits ⊢
    omega
  have enough : 0 + b.len ≤ b.data.length := by
    rw [placed.data_eq, List.length_drop]
    omega
  rw [RangeBuf.deref, placed.start_zero, addWord_fits small, ok_bind,
    slice_fits (by rw [Nat.zero_add]; exact placed.read) enough, Nat.zero_add, placed.data_eq,
    List.drop_drop]

theorem placed_splitOff (fits : source.length ≤ isizeMax) (placed : Placed source base b)
    (inside : at_ ≤ b.len) :
    b.splitOff at_ = (addWord b.off at_ >>= fun off => .ok (leftHalf b at_, rightHalf b at_ off)) := by
  have whole := placed.inside
  have small : 0 + at_ < wordSize := by
    simp only [isizeMax, wordSize] at fits ⊢
    omega
  have enough : at_ ≤ b.data.length := by
    rw [placed.data_eq, List.length_drop]
    omega
  have mid : addWord b.start at_ = .ok at_ := by
    rw [placed.start_zero, addWord_fits small, Nat.zero_add]
  rw [RangeBuf.splitOff, if_pos inside, sliceFrom_fits enough, ok_bind, subWord_fits inside, ok_bind]
  apply bind_congr
  intro off
  rw [mid, ok_bind]
  rfl

theorem splitOff_cases (fits : source.length ≤ isizeMax) (placed : Placed source base b)
    (inside : at_ ≤ b.len) {left right : RangeBuf} (split : b.splitOff at_ = .ok (left, right)) :
    ∃ off, addWord b.off at_ = .ok off ∧ left = leftHalf b at_ ∧ right = rightHalf b at_ off := by
  rw [placed_splitOff fits placed inside] at split
  obtain ⟨off, moved, halves⟩ := bind_ok_iff.mp split
  cases halves
  exact ⟨off, moved, rfl, rfl⟩

theorem splitOff_returns_iff (fits : source.length ≤ isizeMax) (placed : Placed source base b)
    (inside : at_ ≤ b.len) : (∃ left right, b.splitOff at_ = .ok (left, right)) ↔
      (Profile.overflowChecks = true → b.off + at_ < wordSize) := by
  rw [← addWord_ok_iff]
  constructor
  · rintro ⟨left, right, split⟩
    obtain ⟨off, moved, _⟩ := splitOff_cases fits placed inside split
    exact ⟨off, moved⟩
  · rintro ⟨off, moved⟩
    exact ⟨_, _, by rw [placed_splitOff fits placed inside, moved, ok_bind]⟩

theorem rightHalf_maxOff (placed : Placed source base b) (inside : at_ ≤ b.len) {off : Nat}
    (moved : addWord b.off at_ = .ok off) : (rightHalf b at_ off).maxOff = b.maxOff := by
  have whole : at_ + (b.len - at_) = b.len := by omega
  have both := addWord_addWord b.off at_ (b.len - at_)
  rw [moved, ok_bind, whole] at both
  rw [placed_maxOff placed, placed_maxOff (placed_right placed inside off)]
  exact both

end Chunk

inductive ChunkCase (b : RangeBuf) : ChunkOp → RangeBuf → Prop where
  | consume {count : Nat} (unread : count ≤ b.len - b.pos) :
      ChunkCase b (.consume count) (b.consume count)
  | left {at_ : Nat} (inside : at_ ≤ b.len) : ChunkCase b (.splitOff at_ .left) (leftHalf b at_)
  | right {at_ : Nat} (inside : at_ ≤ b.len) (off : Nat) :
      ChunkCase b (.splitOff at_ .right) (rightHalf b at_ off)

theorem chunkStep_cases [Profile] {source : Bytes} {base : Nat} {b b' : RangeBuf} {a : ChunkOp}
    {o : Unit} (fits : source.length ≤ isizeMax) (placed : Placed source base b)
    (may : Within b a) (taken : chunkStep b a = .ok (b', o)) : ChunkCase b a b' := by
  cases a with
  | consume count =>
    obtain ⟨n, length, enough⟩ := may
    rw [placed_lenFn placed] at length
    cases length
    cases taken
    exact .consume enough
  | splitOff at_ keep =>
    obtain ⟨⟨left, right⟩, split, kept⟩ := bind_ok_iff.mp taken
    obtain ⟨off, _, rfl, rfl⟩ := splitOff_cases fits placed may split
    cases keep with
    | left =>
      cases kept
      exact .left may
    | right =>
      cases kept
      exact .right may off

structure Tracked (source : Bytes) (l : Ledger) (b : RangeBuf) : Prop where
  placed : Placed source l.base b
  passed : ∀ i, l.base ≤ i → i < l.base + b.pos → i ∈ l.consumed

def Settled (l : Ledger) (b : RangeBuf) : Prop := ∀ i ∈ l.consumed, ¬ Readable l.base b i

theorem step_tracked {source : Bytes} {l : Ledger} {b b' : RangeBuf} {a : ChunkOp}
    (tracked : Tracked source l b) (taken : ChunkCase b a b') :
    Tracked source (l.note ⟨b, a, (), b'⟩) b' := by
  obtain ⟨placed, passed⟩ := tracked
  cases taken with
  | consume unread =>
    refine ⟨placed_consume placed unread, ?_⟩
    intro i low high
    dsimp only [Ledger.note, RangeBuf.consume] at low high ⊢
    rw [List.mem_append, List.mem_range'_1]
    by_cases earlier : i < l.base + b.pos
    · exact Or.inl (passed i low earlier)
    · exact Or.inr (by omega)
  | left inside =>
    refine ⟨placed_left placed inside, ?_⟩
    intro i low high
    dsimp only [Ledger.note, leftHalf] at low high ⊢
    exact passed i low (by omega)
  | right inside off =>
    refine ⟨placed_right placed inside off, ?_⟩
    intro i low high
    dsimp only [Ledger.note, rightHalf] at low high
    omega

theorem step_settled {source : Bytes} {l : Ledger} {b b' : RangeBuf} {a : ChunkOp}
    (placed : Placed source l.base b) (settled : Settled l b) (taken : ChunkCase b a b')
    (behind : SplitsUnread ⟨b, a, (), b'⟩) : Settled (l.note ⟨b, a, (), b'⟩) b' := by
  have origin := placed.start_zero
  intro i mem readable
  cases taken with
  | @consume count unread =>
    dsimp only [Ledger.note, Readable, RangeBuf.consume] at mem readable
    rcases List.mem_append.mp mem with old | new
    · exact settled i old ⟨by omega, by omega⟩
    · rw [List.mem_range'_1] at new
      omega
  | left inside =>
    dsimp only [Ledger.note, Readable, leftHalf, SplitsUnread] at mem readable behind
    exact settled i mem ⟨by omega, by omega⟩
  | right inside off =>
    dsimp only [Ledger.note, Readable, rightHalf, SplitsUnread] at mem readable behind
    exact settled i mem ⟨by omega, by omega⟩

theorem split_brings_back {source : Bytes} {l : Ledger} {b : RangeBuf} {at_ : Nat}
    (tracked : Tracked source l b) (before : at_ < b.pos) (off : Nat) :
    ∃ i ∈ l.consumed, ¬ Readable l.base b i ∧ Readable (l.base + at_) (rightHalf b at_ off) i := by
  have read := tracked.placed.read
  refine ⟨l.base + at_, tracked.passed _ (by omega) (by omega), ?_, ?_⟩
  · rintro ⟨low, _⟩
    omega
  · dsimp only [Readable, rightHalf]
    omega

section Runs
variable [Profile] {trace : ChunkTrace} {b : RangeBuf}

theorem run_tracked {source : Slice} {off : UInt64}
    (run : Run chunkStep Within (RangeBuf.ofSlice source.bytes off.toNat) trace b) :
    Tracked source.bytes (ledger trace) b := by
  refine run_invariant (fun trace b => Tracked source.bytes (ledger trace) b) ?_ ?_ run
  · refine ⟨placed_ofSlice _ _, ?_⟩
    intro i low high
    dsimp only [ledger, List.foldl_nil, RangeBuf.ofSlice] at low high
    omega
  · intro trace b a o b' _ tracked may taken
    rw [ledger_snoc]
    exact step_tracked tracked (chunkStep_cases source.fits tracked.placed may taken)

theorem run_settled {source : Slice} {off : UInt64}
    (run : Run chunkStep Within (RangeBuf.ofSlice source.bytes off.toNat) trace b)
    (behind : ∀ t ∈ trace, SplitsUnread t) : Settled (ledger trace) b := by
  revert behind
  refine run_invariant (fun trace b => (∀ t ∈ trace, SplitsUnread t) → Settled (ledger trace) b)
    ?_ ?_ run
  · intro _ i mem
    cases mem
  · intro trace b a o b' earlier settled may taken behind
    have placed := (run_tracked earlier).placed
    have before : ∀ t ∈ trace, SplitsUnread t := fun t mem => behind t (List.mem_append_left _ mem)
    rw [ledger_snoc]
    exact step_settled placed (settled before) (chunkStep_cases source.fits placed may taken)
      (behind _ (by simp))

theorem split_conserves {source : Bytes} (fits : source.length ≤ isizeMax) {at_ off : Nat}
    (placed : Placed source (ledger trace).base b) (inside : at_ ≤ b.len) (behind : b.pos ≤ at_)
    (moved : addWord b.off at_ = .ok off) :
    Conserves trace b at_ (leftHalf b at_) (rightHalf b at_ off) := by
  have origin := placed.start_zero
  have left := placed_left placed inside
  have right := placed_right placed inside off
  have kept : min b.pos at_ = b.pos := Nat.min_eq_left behind
  refine ⟨⟨_, _, _, placed_deref fits placed, placed_deref fits left, placed_deref fits right, ?_⟩,
    ?_, ?_, rightHalf_maxOff placed inside moved, ?_⟩
  · dsimp only [leftHalf, rightHalf]
    rw [kept, Nat.add_zero, Nat.sub_zero]
    exact shown_cut source _ inside behind
  · intro half mem
    have half_placed : ∃ base, Placed source base half := by
      simp only [List.mem_cons, List.not_mem_nil, or_false] at mem
      rcases mem with rfl | rfl
      · exact ⟨_, left⟩
      · exact ⟨_, right⟩
    obtain ⟨base, half_placed⟩ := half_placed
    exact ⟨_, placed_deref fits half_placed, by
      rw [placed_lenFn half_placed, placed_shown_length half_placed]⟩
  · intro _
    simp only [RangeBuf.offFn, leftHalf, kept]
  · intro i _ hidden
    constructor
    · rintro ⟨low, high⟩
      dsimp only [leftHalf] at low high
      exact hidden ⟨by omega, by omega⟩
    · rintro ⟨low, high⟩
      dsimp only [rightHalf] at low high
      exact hidden ⟨by omega, by omega⟩

/-- Whatever was done with a chunk, a split of it returns unless the right half's offset overflows
    in a checked build, and then keeps what is unread and what is consumed apart exactly when it
    splits at or behind the read cursor. Where all splits do, no consumed byte is ever shown. -/
theorem split_conserves_iff (source : Slice) (off : UInt64)
    (run : Run chunkStep Within (RangeBuf.ofSlice source.bytes off.toNat) trace b) {at_ : Nat}
    (inside : at_ ≤ b.len) :
    ((∃ left right, b.splitOff at_ = .ok (left, right)) ↔
      (Profile.overflowChecks = true → b.off + at_ < wordSize)) ∧
    ∀ left right, b.splitOff at_ = .ok (left, right) →
      (Conserves trace b at_ left right ↔ b.pos ≤ at_) ∧
      ((∀ t ∈ trace, SplitsUnread t) → b.pos ≤ at_ → ∀ i ∈ (ledger trace).consumed,
        ¬ Readable (ledger trace).base left i ∧ ¬ Readable ((ledger trace).base + at_) right i) := by
  have tracked := run_tracked run
  have placed := tracked.placed
  refine ⟨splitOff_returns_iff source.fits placed inside, ?_⟩
  intro left right split
  obtain ⟨high, moved, rfl, rfl⟩ := splitOff_cases source.fits placed inside split
  refine ⟨⟨?_, fun behind => split_conserves source.fits placed inside behind moved⟩, ?_⟩
  · intro conserves
    by_contra before
    obtain ⟨i, consumed, hidden, shown⟩ :=
      split_brings_back tracked (Nat.lt_of_not_le before) high
    exact (conserves.stay i consumed hidden).2 shown
  · intro all behind i consumed
    have hidden := run_settled run all i consumed
    exact (split_conserves source.fits placed inside behind moved).stay i consumed hidden

end Runs

def sevenBytes : Slice := ⟨[1, 2, 3, 4, 5, 6, 7], by decide⟩

theorem later_split_conserves : ∃ (trace : ChunkTrace) (b left right : RangeBuf),
    Run (@chunkStep checkedBuild) (@Within checkedBuild)
        (RangeBuf.ofSlice sevenBytes.bytes (100 : UInt64).toNat) trace b ∧
      trace.map (fun t => t.action) = [.consume 2, .splitOff 5 .left, .consume 1] ∧
      @RangeBuf.deref checkedBuild b = .ok [4, 5] ∧
      @RangeBuf.splitOff checkedBuild b 4 = .ok (left, right) ∧
      @Conserves checkedBuild trace b 4 left right := by
  have passed : passes (@chunkStep checkedBuild) (@Within checkedBuild)
      (RangeBuf.ofSlice sevenBytes.bytes (100 : UInt64).toNat)
      [.consume 2, .splitOff 5 .left, .consume 1] (fun _ b =>
        decide (b.len = 5) && decide (b.pos = 3) && decide (b.off = 100) &&
          decide (@RangeBuf.deref checkedBuild b = .ok [4, 5])) = true := by
    decide +kernel
  obtain ⟨trace, b, run, played, outcome⟩ := played_run passed
  simp only [Bool.and_eq_true, decide_eq_true_eq] at outcome
  obtain ⟨⟨⟨len, pos⟩, start⟩, shown⟩ := outcome
  obtain ⟨returns, conserves⟩ := @split_conserves_iff checkedBuild trace b sevenBytes 100 run 4
    (by omega)
  obtain ⟨left, right, split⟩ := returns.mpr (fun _ => by rw [start]; decide)
  exact ⟨trace, b, left, right, run, played, shown, split,
    (conserves left right split).1.mpr (by omega)⟩

/-- Three bytes are read and the chunk is split behind the first: the right half shows two of the
    consumed bytes again, and one of them is at place 1 of the source. -/
theorem consumed_bytes_come_back : ∃ (trace : ChunkTrace) (b left right : RangeBuf),
    Run (@chunkStep checkedBuild) (@Within checkedBuild)
      (RangeBuf.ofSlice sevenBytes.bytes (100 : UInt64).toNat) trace b ∧
    trace.map (fun t => t.action) = [.consume 3] ∧ 1 ≤ b.len ∧
    @RangeBuf.splitOff checkedBuild b 1 = .ok (left, right) ∧
    @RangeBuf.deref checkedBuild b = .ok [4, 5, 6, 7] ∧
    @RangeBuf.deref checkedBuild left = .ok [] ∧
    @RangeBuf.deref checkedBuild right = .ok [2, 3, 4, 5, 6, 7] ∧
    1 ∈ (ledger trace).consumed ∧ Readable ((ledger trace).base + 1) right 1 ∧
    ¬ @Conserves checkedBuild trace b 1 left right := by
  have passed : passes (@chunkStep checkedBuild) (@Within checkedBuild)
      (RangeBuf.ofSlice sevenBytes.bytes (100 : UInt64).toNat) [.consume 3] (fun trace b =>
        decide (b = ⟨[1, 2, 3, 4, 5, 6, 7], 0, 3, 7, 100⟩) &&
          decide (1 ∈ (ledger trace).consumed) && decide ((ledger trace).base = 0)) = true := by
    decide +kernel
  obtain ⟨trace, b, run, played, outcome⟩ := played_run passed
  simp only [Bool.and_eq_true, decide_eq_true_eq] at outcome
  obtain ⟨⟨rfl, consumed⟩, base⟩ := outcome
  refine ⟨trace, _, ⟨[1, 2, 3, 4, 5, 6, 7], 0, 1, 1, 100⟩, ⟨[2, 3, 4, 5, 6, 7], 0, 0, 6, 101⟩, run,
    played, by decide, by decide +kernel, by decide +kernel, by decide +kernel, by decide +kernel,
    consumed, by rw [base]; decide, ?_⟩
  rintro ⟨_, _, _, _, stay⟩
  have hidden : ¬ Readable (ledger trace).base ⟨[1, 2, 3, 4, 5, 6, 7], 0, 3, 7, 100⟩ 1 := by
    rw [base]
    decide
  have unshown := (stay 1 consumed hidden).2
  rw [base] at unshown
  exact unshown (by decide)

end DmludpChunkSplit
