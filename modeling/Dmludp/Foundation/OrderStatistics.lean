import Mathlib.Data.List.Sort

/- How many entries of a list are below one of its order statistics. The list itself need not be
   sorted: counting does not see the order, so the count is that of a sorted copy. -/
namespace OrderStatistics

variable {A : Type} [LinearOrder A]

def below (x : A) (l : List A) : Nat := l.countP (fun y => decide (y < x))

theorem below_perm {l l' : List A} (perm : l.Perm l') (x : A) : below x l = below x l' :=
  perm.countP_eq _

theorem below_split {l : List A} (sorted : l.Pairwise (· ≤ ·)) {k : Nat} {x : A}
    (found : l[k]? = some x) : below x l = below x (l.take k) := by
  obtain ⟨inside, value⟩ := List.getElem?_eq_some_iff.mp found
  have rest : below x (l.drop k) = 0 := by
    apply List.countP_eq_zero.mpr
    intro y mem
    rw [decide_eq_true_eq, not_lt]
    obtain ⟨i, bound, rfl⟩ := List.getElem_of_mem mem
    rw [List.getElem_drop, ← value]
    rcases Nat.eq_zero_or_pos i with rfl | later
    · exact le_refl _
    · exact List.pairwise_iff_getElem.mp sorted k (k + i) inside _ (by omega)
  have parts : below x (l.take k ++ l.drop k) = below x (l.take k) + below x (l.drop k) :=
    List.countP_append
  rw [List.take_append_drop, rest, Nat.add_zero] at parts
  exact parts

theorem below_sorted_le {l : List A} (sorted : l.Pairwise (· ≤ ·)) {k : Nat} {x : A}
    (found : l[k]? = some x) : below x l ≤ k := by
  rw [below_split sorted found]
  exact List.countP_le_length.trans (List.length_take_le k l)

theorem below_sorted_eq {l : List A} (sorted : l.Pairwise (· < ·)) {k : Nat} {x : A}
    (found : l[k]? = some x) : below x l = k := by
  obtain ⟨inside, value⟩ := List.getElem?_eq_some_iff.mp found
  rw [below_split (sorted.imp le_of_lt) found]
  have before : below x (l.take k) = (l.take k).length := by
    apply List.countP_eq_length.mpr
    intro y mem
    rw [decide_eq_true_eq]
    obtain ⟨i, bound, rfl⟩ := List.getElem_of_mem mem
    rw [List.length_take] at bound
    rw [List.getElem_take, ← value]
    exact List.pairwise_iff_getElem.mp sorted i k _ inside (by omega)
  rw [before, List.length_take]
  omega

def orderStatistic (l : List A) (k : Nat) : Option A := (l.insertionSort (· ≤ ·))[k]?

theorem orderStatistic_mono {l : List A} {j k : Nat} (order : j ≤ k) {x y : A}
    (first : orderStatistic l j = some x) (second : orderStatistic l k = some y) : x ≤ y := by
  obtain ⟨inside, rfl⟩ := List.getElem?_eq_some_iff.mp first
  obtain ⟨inside', rfl⟩ := List.getElem?_eq_some_iff.mp second
  rcases order.eq_or_lt with rfl | before
  · exact le_refl _
  · exact List.pairwise_iff_getElem.mp (List.pairwise_insertionSort _ l) j k inside inside' before

theorem below_orderStatistic_le {l : List A} {k : Nat} {x : A}
    (found : orderStatistic l k = some x) : below x l ≤ k := by
  rw [← below_perm (List.perm_insertionSort (· ≤ ·) l) x]
  exact below_sorted_le (List.pairwise_insertionSort _ l) found

theorem below_orderStatistic_eq {l : List A} (distinct : l.Nodup) {k : Nat} {x : A}
    (found : orderStatistic l k = some x) : below x l = k := by
  have perm := List.perm_insertionSort (· ≤ ·) l
  have strict : (l.insertionSort (· ≤ ·)).Pairwise (· < ·) := by
    have apart : (l.insertionSort (· ≤ ·)).Pairwise (· ≠ ·) := perm.nodup_iff.mpr distinct
    refine (List.pairwise_insertionSort (· ≤ ·) l).imp₂ ?_ apart
    intro a b le ne
    exact lt_of_le_of_ne le ne
  rw [← below_perm perm x]
  exact below_sorted_eq strict found

end OrderStatistics
