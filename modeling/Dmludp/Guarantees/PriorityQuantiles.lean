import Dmludp.Foundation.OrderStatistics
import Dmludp.Guarantees.BlockNorms

/- The priority classes. `data_send` takes two order statistics of a sorted copy of the block
   norms as its split points; `priority_calculation` compares the norms, where they stand, with
   the two. The comparison is that of the floats; on norms without a NaN it is a linear order up
   to the sign of zero, which is why norms are ordered by a value `val` and not by themselves. -/
namespace DmludpPriorityQuantiles
open ByteCursor RustOutcome OrderStatistics DmludpRecovery DmludpConnection
open DmludpConnection.Connection DmludpEffects DmludpBlockNorms DmludpReference

variable {F : Type} [FloatOps F]

def collectedNorms [Profile] (c : Connection F) (text : List Char) : Rs (List F) :=
  ((emptied c).processParts []
    ((text.filter (fun ch => ch ≠ '\n' && ch ≠ '"' && ch ≠ '\r')).splitOn '>')).map Prod.snd

def blockPriorities (c : Connection F) : List (Rs UInt8) :=
  (List.range c.norm2Vec.length).map (fun i => c.priorityCalculation (1024 * i))

def blocksWith (c : Connection F) (p : UInt8) : Nat :=
  (blockPriorities c).countP (fun r => decide (r = .ok p))

def classOf (c : Connection F) (norm : F) : UInt8 :=
  if FloatOps.lt norm c.lowSplitPoint then 1
  else if FloatOps.lt norm c.highSplitPoint then 2
  else 3

/-- The priorities follow the quantiles of the norms, as `val` orders them. -/
structure FollowsQuantiles {A : Type} [LinearOrder A] (val : F → A) (c : Connection F) : Prop where
  ordered : val c.lowSplitPoint ≤ val c.highSplitPoint
  monotone : ∀ off off' x y p q, c.norm2Vec[off / 1024]? = some x →
    c.norm2Vec[off' / 1024]? = some y → val x ≤ val y →
    c.priorityCalculation off = .ok p → c.priorityCalculation off' = .ok q → p ≤ q
  low : blocksWith c 1 ≤ 3 * c.norm2Vec.length / 10
  middle : blocksWith c 1 + blocksWith c 2 ≤ 7 * c.norm2Vec.length / 10
  high : c.norm2Vec.length - 7 * c.norm2Vec.length / 10 ≤ blocksWith c 3
  some_high : 1 ≤ c.norm2Vec.length - 7 * c.norm2Vec.length / 10
  exact_when_distinct : (c.norm2Vec.map val).Nodup →
    blocksWith c 1 = 3 * c.norm2Vec.length / 10 ∧
    blocksWith c 1 + blocksWith c 2 = 7 * c.norm2Vec.length / 10 ∧
    blocksWith c 3 = c.norm2Vec.length - 7 * c.norm2Vec.length / 10

section Collecting

theorem readAs_replicate {token : List Char} {x : F} (parsed : FloatOps.parse token = some x)
    (n : Nat) : ReadAs (List.replicate n token) (List.replicate n x) := by
  induction n with
  | zero => exact .nil
  | succ n ih => exact .cons parsed ih

variable [Profile]

theorem storeFloats_norms {items : List (List Char)} {c c' : Connection F} {norms norms' : List F}
    {norm : F} {it : Int} (same : c.norm2Vec = norms)
    (done : c.storeFloats norms norm it items = .ok (c', norms')) : c'.norm2Vec = norms' := by
  induction items generalizing c norms norm it with
  | nil =>
    cases done
    exact same
  | cons item rest ih =>
    obtain ⟨n, x, _, _, _, done⟩ := storeFloats_cons_ok_iff.mp done
    split at done
    · refine ih ?_ done
      rw [same]
    · refine ih ?_ done
      exact same

theorem processParts_norms {parts : List (List Char)} {c c' : Connection F} {norms norms' : List F}
    (same : c.norm2Vec = norms) (done : c.processParts norms parts = .ok (c', norms')) :
    c'.norm2Vec = norms' := by
  induction parts generalizing c norms with
  | nil =>
    cases done
    exact same
  | cons part rest ih =>
    simp only [processParts] at done
    split at done
    · cases done
      exact same
    · obtain ⟨⟨c1, norms1⟩, first, done⟩ := bind_ok_iff.mp done
      obtain ⟨_, _, first⟩ := bind_ok_iff.mp first
      obtain ⟨_, _, first⟩ := bind_ok_iff.mp first
      exact ih (storeFloats_norms same first) done

theorem collectedNorms_tokens {text : List Char} {tss : List (List (List Char))}
    {fss : List (List F)} (found : tokenParts text = some tss) (read : PartsRead tss fss)
    (small : fss.flatten.length < 2 ^ 31) (c : Connection F) :
    collectedNorms c text = .ok (partNorms fss) := by
  unfold collectedNorms
  rw [few_stored found read small]
  rfl

end Collecting

section Counting

theorem priorityCalculation_class {c : Connection F} {off : Nat} {x : F}
    (found : c.norm2Vec[off / 1024]? = some x) :
    c.priorityCalculation off = .ok (classOf c x) := by
  unfold priorityCalculation classOf
  simp only [index, found, ok_bind]
  split
  · rfl
  · split <;> rfl

theorem blockPriorities_eq (c : Connection F) :
    blockPriorities c = c.norm2Vec.map (fun x => .ok (classOf c x)) := by
  apply List.ext_getElem
  · simp [blockPriorities]
  · intro i bound bound'
    rw [List.length_map] at bound'
    have found : c.norm2Vec[1024 * i / 1024]? = some c.norm2Vec[i] := by
      rw [Nat.mul_div_cancel_left i (by decide)]
      exact List.getElem?_eq_getElem bound'
    simp only [blockPriorities, List.getElem_map, List.getElem_range]
    exact priorityCalculation_class found

theorem blocksWith_eq (c : Connection F) (p : UInt8) :
    blocksWith c p = c.norm2Vec.countP (fun x => decide (classOf c x = p)) := by
  unfold blocksWith
  rw [blockPriorities_eq, List.countP_map]
  apply List.countP_congr
  intro x _
  simp

theorem classOf_range (c : Connection F) (x : F) :
    classOf c x = 1 ∨ classOf c x = 2 ∨ classOf c x = 3 := by
  unfold classOf
  split
  · exact Or.inl rfl
  · split
    · exact Or.inr (Or.inl rfl)
    · exact Or.inr (Or.inr rfl)

theorem blocksWith_total (c : Connection F) :
    blocksWith c 1 + blocksWith c 2 + blocksWith c 3 = c.norm2Vec.length := by
  simp only [blocksWith_eq]
  induction c.norm2Vec with
  | nil => rfl
  | cons x rest ih =>
    simp only [List.countP_cons, List.length_cons]
    rcases classOf_range c x with kind | kind | kind
    · simp only [kind, decide_true, ↓reduceIte]
      simp
      omega
    · simp [kind]
      omega
    · simp [kind]
      omega

end Counting

theorem index_statistic {B A : Type} [LinearOrder A] {val : B → A} {norms sorted : List B}
    (perm : sorted.Perm norms)
    (ranks : ∀ k, sorted[k]?.map val = orderStatistic (norms.map val) k) {k : Nat}
    (inside : k < norms.length) : ∃ x, index sorted k = .ok x ∧ x ∈ norms ∧
      orderStatistic (norms.map val) k = some (val x) := by
  have bound : k < sorted.length := by rw [perm.length_eq]; exact inside
  have found := List.getElem?_eq_getElem bound
  refine ⟨sorted[k], by rw [index, found], perm.subset (List.getElem_mem bound), ?_⟩
  rw [← ranks, found]
  rfl

section Ordered
variable {A : Type} [LinearOrder A] {val : F → A}

/-- On these norms the comparison of the code is the order of `val`. -/
def OrderedBy (val : F → A) (norms : List F) : Prop :=
  ∀ x ∈ norms, ∀ y ∈ norms, (FloatOps.lt x y = true ↔ val x < val y)

theorem sortNorms_sorted {norms : List F} (numbers : ∀ x ∈ norms, FloatOps.isNaN x = false)
    (ordered : OrderedBy val norms) : ∃ sorted, sortNorms norms = .ok sorted ∧
      sorted.Perm norms ∧ ∀ k, sorted[k]?.map val = orderStatistic (norms.map val) k := by
  refine ⟨_, if_neg ?_, List.perm_insertionSort _ norms, ?_⟩
  · rintro ⟨_, nan⟩
    obtain ⟨x, mem, bad⟩ := List.any_eq_true.mp nan
    rw [numbers x mem] at bad
    cases bad
  · intro k
    unfold orderStatistic
    rw [← List.getElem?_map, List.map_insertionSort _ (· ≤ ·) val norms]
    intro a mem b mem'
    rw [← Bool.not_eq_true, ordered b mem' a mem, not_lt]

variable {c : Connection F}

theorem class_one (ordered : OrderedBy val c.norm2Vec) (low : c.lowSplitPoint ∈ c.norm2Vec) {x : F}
    (mem : x ∈ c.norm2Vec) : classOf c x = 1 ↔ val x < val c.lowSplitPoint := by
  rw [← ordered x mem _ low]
  unfold classOf
  constructor
  · intro first
    by_contra above
    rw [if_neg above] at first
    split at first <;> cases first
  · intro under
    rw [if_pos under]

theorem class_three (ordered : OrderedBy val c.norm2Vec) (low : c.lowSplitPoint ∈ c.norm2Vec)
    (high : c.highSplitPoint ∈ c.norm2Vec) (split : val c.lowSplitPoint ≤ val c.highSplitPoint)
    {x : F} (mem : x ∈ c.norm2Vec) : classOf c x = 3 ↔ ¬ val x < val c.highSplitPoint := by
  unfold classOf
  constructor
  · intro third under
    rw [if_pos ((ordered x mem _ high).mpr under)] at third
    split at third <;> cases third
  · intro above
    have above_low : ¬ FloatOps.lt x c.lowSplitPoint = true := by
      rw [ordered x mem _ low]
      exact fun under => above (lt_of_lt_of_le under split)
    rw [if_neg above_low, if_neg (by rw [ordered x mem _ high]; exact above)]

theorem classOf_mono (ordered : OrderedBy val c.norm2Vec) (low : c.lowSplitPoint ∈ c.norm2Vec)
    (high : c.highSplitPoint ∈ c.norm2Vec) {x y : F} (mem : x ∈ c.norm2Vec) (mem' : y ∈ c.norm2Vec)
    (le : val x ≤ val y) : classOf c x ≤ classOf c y := by
  have under_low : FloatOps.lt y c.lowSplitPoint = true → FloatOps.lt x c.lowSplitPoint = true := by
    rw [ordered y mem' _ low, ordered x mem _ low]
    exact lt_of_le_of_lt le
  have under_high : FloatOps.lt y c.highSplitPoint = true →
      FloatOps.lt x c.highSplitPoint = true := by
    rw [ordered y mem' _ high, ordered x mem _ high]
    exact lt_of_le_of_lt le
  unfold classOf
  split
  · split
    · decide
    · split <;> decide
  · rename_i above_low
    rw [if_neg (fun under => above_low (under_low under))]
    split
    · split <;> decide
    · rename_i above_high
      rw [if_neg (fun under => above_high (under_high under))]
      decide

theorem blocksWith_one (ordered : OrderedBy val c.norm2Vec) (low : c.lowSplitPoint ∈ c.norm2Vec) :
    blocksWith c 1 = below (val c.lowSplitPoint) (c.norm2Vec.map val) := by
  rw [blocksWith_eq, below, List.countP_map]
  apply List.countP_congr
  intro x mem
  simp only [Function.comp, decide_eq_true_eq]
  exact class_one ordered low mem

theorem blocksWith_three (ordered : OrderedBy val c.norm2Vec) (low : c.lowSplitPoint ∈ c.norm2Vec)
    (high : c.highSplitPoint ∈ c.norm2Vec) (split : val c.lowSplitPoint ≤ val c.highSplitPoint) :
    below (val c.highSplitPoint) (c.norm2Vec.map val) + blocksWith c 3 = c.norm2Vec.length := by
  have rest : blocksWith c 3 =
      c.norm2Vec.countP (fun x => decide (¬ decide (val x < val c.highSplitPoint) = true)) := by
    rw [blocksWith_eq]
    apply List.countP_congr
    intro x mem
    simp only [decide_eq_true_eq]
    exact class_three ordered low high split mem
  rw [rest, below, List.countP_map]
  exact (List.length_eq_countP_add_countP (fun x => decide (val x < val c.highSplitPoint))).symm

theorem follows_of_ranks (some_block : c.norm2Vec ≠ []) (ordered : OrderedBy val c.norm2Vec)
    (low : c.lowSplitPoint ∈ c.norm2Vec) (high : c.highSplitPoint ∈ c.norm2Vec)
    (low_rank : orderStatistic (c.norm2Vec.map val) (3 * c.norm2Vec.length / 10) =
      some (val c.lowSplitPoint))
    (high_rank : orderStatistic (c.norm2Vec.map val) (7 * c.norm2Vec.length / 10) =
      some (val c.highSplitPoint)) : FollowsQuantiles val c := by
  have positive : 0 < c.norm2Vec.length := List.length_pos_iff.mpr some_block
  have split : val c.lowSplitPoint ≤ val c.highSplitPoint :=
    orderStatistic_mono (by omega) low_rank high_rank
  have one := blocksWith_one ordered low
  have three := blocksWith_three ordered low high split
  have total := blocksWith_total c
  have few := below_orderStatistic_le low_rank
  have fewer := below_orderStatistic_le high_rank
  refine ⟨split, ?_, by omega, by omega, by omega, by omega, ?_⟩
  · intro off off' x y p q found found' le known known'
    rw [priorityCalculation_class found, Except.ok.injEq] at known
    rw [priorityCalculation_class found', Except.ok.injEq] at known'
    rw [← known, ← known']
    exact classOf_mono ordered low high (List.mem_of_getElem? found) (List.mem_of_getElem? found') le
  · intro distinct
    have exactly := below_orderStatistic_eq distinct low_rank
    have exactly' := below_orderStatistic_eq distinct high_rank
    exact ⟨by omega, by omega, by omega⟩

/-- From every text with at least one block, and no NaN among the norms, `data_send` returns with
    split points that make the priorities follow the quantiles. -/
theorem priorities_follow_quantiles [Profile] {c : Connection F} {text : List Char} {norms : List F}
    (collected : collectedNorms c text = .ok norms) (some_block : norms ≠ [])
    (numbers : ∀ x ∈ norms, FloatOps.isNaN x = false) (ordered : OrderedBy val norms) :
    ∃ c', c.dataSend text = .ok c' ∧ c'.norm2Vec = norms ∧ FollowsQuantiles val c' := by
  obtain ⟨⟨c1, norms1⟩, parts, same⟩ : ∃ r, (emptied c).processParts []
      ((text.filter (fun ch => ch ≠ '\n' && ch ≠ '"' && ch ≠ '\r')).splitOn '>') = .ok r ∧
        r.2 = norms := by
    unfold collectedNorms at collected
    cases parts : (emptied c).processParts []
        ((text.filter (fun ch => ch ≠ '\n' && ch ≠ '"' && ch ≠ '\r')).splitOn '>') with
    | error e =>
      rw [parts] at collected
      cases collected
    | ok r =>
      rw [parts] at collected
      exact ⟨r, rfl, Except.ok.inj collected⟩
  dsimp only at same
  subst same
  have stored : c1.norm2Vec = norms1 := processParts_norms rfl parts
  have positive : 0 < norms1.length := List.length_pos_iff.mpr some_block
  obtain ⟨sorted, done, perm, ranks⟩ := sortNorms_sorted numbers ordered
  have size : sorted.length = norms1.length := perm.length_eq
  obtain ⟨low, lower, low_mem, low_rank⟩ := index_statistic perm ranks
    (show 3 * norms1.length / 10 < norms1.length by omega)
  obtain ⟨high, upper, high_mem, high_rank⟩ := index_statistic perm ranks
    (show 7 * norms1.length / 10 < norms1.length by omega)
  have low_index : index sorted (sorted.length * 3 / 10) = .ok low := by
    rw [size, Nat.mul_comm]
    exact lower
  have high_index : index sorted (sorted.length * 7 / 10) = .ok high := by
    rw [size, Nat.mul_comm]
    exact upper
  refine ⟨{ c1 with lowSplitPoint := low, highSplitPoint := high },
    dataSend_ok_iff.mpr ⟨c1, norms1, sorted, low, high, parts, done, low_index, high_index, rfl⟩,
    stored, ?_⟩
  subst stored
  exact follows_of_ranks some_block ordered low_mem high_mem low_rank high_rank

end Ordered

def fourBlocksText : List Char :=
  ['3', '1', '4', '2'].flatMap (fun digit => '[' :: (List.replicate 255 [digit, ' ']).flatten ++
    [']', '>'])

theorem four_blocks_classes : ∃ c' : Connection ℚ,
    @dataSend ℚ checkedBuild rationalFloats freshServer fourBlocksText = .ok c' ∧
      @blocksWith ℚ rationalFloats c' 1 = 1 ∧ @blocksWith ℚ rationalFloats c' 2 = 1 ∧
      @blocksWith ℚ rationalFloats c' 3 = 2 := by
  have found : tokenParts fourBlocksText =
      some (['3', '1', '4', '2'].map (fun digit => List.replicate 255 [digit])) := by
    decide +kernel
  have read : @PartsRead ℚ rationalFloats
      (['3', '1', '4', '2'].map (fun digit => List.replicate 255 [digit]))
      ([3, 1, 4, 2].map (fun x => List.replicate 255 x)) := by
    refine .cons ?_ (.cons ?_ (.cons ?_ (.cons ?_ .nil)))
    all_goals exact @readAs_replicate ℚ rationalFloats _ _ (by decide +kernel) 255
  have norms : @partNorms ℚ rationalFloats ([3, 1, 4, 2].map (fun x => List.replicate 255 x)) =
      [2295, 255, 4080, 1020] := by
    decide +kernel
  have collected := @collectedNorms_tokens ℚ rationalFloats checkedBuild _ _ _ found read
    (by decide +kernel) freshServer
  rw [norms] at collected
  have ordered : @OrderedBy ℚ rationalFloats ℚ _ id [2295, 255, 4080, 1020] :=
    fun x _ y _ => decide_eq_true_iff
  obtain ⟨c', loaded, stored, follows⟩ := @priorities_follow_quantiles ℚ rationalFloats ℚ _ id
    checkedBuild freshServer fourBlocksText _ collected (by decide) (fun _ _ => rfl) ordered
  have distinct : (c'.norm2Vec.map id).Nodup := by
    rw [stored]
    decide +kernel
  obtain ⟨one, two, three⟩ :=
    @FollowsQuantiles.exact_when_distinct ℚ rationalFloats ℚ _ id c' follows distinct
  rw [stored] at one two three
  simp only [List.length_cons, List.length_nil] at one two three
  exact ⟨c', loaded, by omega, by omega, by omega⟩

end DmludpPriorityQuantiles
