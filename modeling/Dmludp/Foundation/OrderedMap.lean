import Mathlib.Data.List.Basic
import Mathlib.Data.List.Sort
import Mathlib.Order.Defs.LinearOrder
import Mathlib.Order.Lattice
import Mathlib.Tactic.Common

/- Ordered maps as ascending association lists. The order is a field of the structure, so
   positions in `entries` are ranks of keys and code that pairs values with another sequence
   by position can be reasoned about directly. -/
namespace OrderedMap

structure OrdMap (K V : Type) [LinearOrder K] where
  entries : List (K × V)
  ascending : entries.Pairwise (fun a b => a.1 < b.1)

variable {K V : Type} [LinearOrder K]

instance [DecidableEq V] : DecidableEq (OrdMap K V) := fun a b =>
  decidable_of_iff (a.entries = b.entries) (by cases a; cases b; simp)

def insertEntry (k : K) (v : V) : List (K × V) → List (K × V)
  | [] => [(k, v)]
  | e :: rest =>
    if k < e.1 then (k, v) :: e :: rest
    else if k = e.1 then (k, v) :: rest
    else e :: insertEntry k v rest

theorem mem_insertEntry {k : K} {v : V} {l : List (K × V)} {e : K × V}
    (mem : e ∈ insertEntry k v l) : e = (k, v) ∨ e ∈ l := by
  induction l with
  | nil => simpa [insertEntry] using mem
  | cons a rest ih =>
    simp only [insertEntry] at mem
    split at mem
    · simpa using mem
    · split at mem
      · rcases List.mem_cons.mp mem with same | old
        · exact Or.inl same
        · exact Or.inr (List.mem_cons_of_mem a old)
      · rcases List.mem_cons.mp mem with same | old
        · exact Or.inr (by simp [same])
        · rcases ih old with same | older
          · exact Or.inl same
          · exact Or.inr (List.mem_cons_of_mem a older)

theorem insertEntry_ascending (k : K) (v : V) (l : List (K × V))
    (order : l.Pairwise (fun a b => a.1 < b.1)) :
    (insertEntry k v l).Pairwise (fun a b => a.1 < b.1) := by
  induction l with
  | nil => simp [insertEntry]
  | cons a rest ih =>
    obtain ⟨above, tail⟩ := List.pairwise_cons.mp order
    simp only [insertEntry]
    split
    · rename_i before
      refine List.pairwise_cons.mpr ⟨?_, order⟩
      intro e mem
      rcases List.mem_cons.mp mem with same | old
      · simpa [same] using before
      · exact lt_trans before (above e old)
    · split
      · rename_i _ same
        refine List.pairwise_cons.mpr ⟨?_, tail⟩
        intro e mem
        simpa [same] using above e mem
      · rename_i notBefore notSame
        refine List.pairwise_cons.mpr ⟨?_, ih tail⟩
        intro e mem
        rcases mem_insertEntry mem with same | old
        · rw [same]
          exact lt_of_le_of_ne (not_lt.mp notBefore) (Ne.symm notSame)
        · exact above e old

namespace OrdMap

def empty : OrdMap K V := ⟨[], List.Pairwise.nil⟩

def isEmpty (m : OrdMap K V) : Bool := m.entries.isEmpty

def insert (m : OrdMap K V) (k : K) (v : V) : OrdMap K V :=
  ⟨insertEntry k v m.entries, insertEntry_ascending k v m.entries m.ascending⟩

/-- Overwrite the value stored under `k`, if there is one. -/
def set (m : OrdMap K V) (k : K) (v : V) : OrdMap K V :=
  ⟨m.entries.map (fun e => if e.1 = k then (e.1, v) else e), by
    rw [List.pairwise_map]
    refine m.ascending.imp ?_
    intro a b order
    split <;> split <;> exact order⟩

def retain (m : OrdMap K V) (keep : V → Bool) : OrdMap K V :=
  ⟨m.entries.filter (fun e => keep e.2), m.ascending.sublist List.filter_sublist⟩

def keys (m : OrdMap K V) : List K := m.entries.map Prod.fst

def values (m : OrdMap K V) : List V := m.entries.map Prod.snd

theorem eq_empty {m : OrdMap K V} (none_left : m.keys = []) : m = empty := by
  obtain ⟨entries, ascending⟩ := m
  have nothing : entries = [] := List.map_eq_nil_iff.mp none_left
  subst nothing
  rfl

def first? (m : OrdMap K V) : Option (K × V) := m.entries.head?

def last? (m : OrdMap K V) : Option (K × V) := m.entries.getLast?

def popFirst (m : OrdMap K V) : OrdMap K V := ⟨m.entries.tail, m.ascending.tail⟩

theorem mem_unique {m : OrdMap K V} {k : K} {v w : V} (left : (k, v) ∈ m.entries)
    (right : (k, w) ∈ m.entries) : v = w := by
  obtain ⟨l, order⟩ := m
  induction l with
  | nil => simp at left
  | cons a rest ih =>
    obtain ⟨above, tail⟩ := List.pairwise_cons.mp order
    rcases List.mem_cons.mp left with first | left
    · rcases List.mem_cons.mp right with second | right
      · exact (Prod.mk.inj (first.trans second.symm)).2
      · have less := above _ right
        rw [← first] at less
        exact absurd less (lt_irrefl k)
    · rcases List.mem_cons.mp right with second | right
      · have less := above _ left
        rw [← second] at less
        exact absurd less (lt_irrefl k)
      · exact ih tail left right

theorem first?_least {m : OrdMap K V} {e : K × V} (front : m.first? = some e) :
    e ∈ m.entries ∧ (∀ d ∈ m.entries, d = e ∨ e.1 < d.1) ∧
      ∀ d ∈ m.popFirst.entries, d ∈ m.entries ∧ e.1 < d.1 := by
  obtain ⟨l, order⟩ := m
  cases l with
  | nil => cases front
  | cons a rest =>
    have head : a = e := Option.some.inj front
    subst head
    have above := (List.pairwise_cons.mp order).1
    refine ⟨by simp, ?_, ?_⟩
    · intro d mem
      rcases List.mem_cons.mp mem with here | there
      · exact Or.inl here
      · exact Or.inr (above d there)
    · intro d mem
      exact ⟨List.mem_cons_of_mem _ mem, above d mem⟩

theorem mem_set {m : OrdMap K V} {k : K} {v : V} {e : K × V} :
    e ∈ (m.set k v).entries ↔
      (e ∈ m.entries ∧ e.1 ≠ k) ∨ (e = (k, v) ∧ ∃ w, (k, w) ∈ m.entries) := by
  simp only [set, List.mem_map]
  constructor
  · rintro ⟨a, mem, eq⟩
    split at eq
    · rename_i same
      refine Or.inr ⟨by rw [← eq, same], a.2, ?_⟩
      rw [← same]
      exact mem
    · rename_i other
      subst eq
      exact Or.inl ⟨mem, other⟩
  · rintro (⟨mem, other⟩ | ⟨rfl, w, mem⟩)
    · exact ⟨e, mem, by simp [other]⟩
    · exact ⟨(k, w), mem, by simp⟩

theorem eq_of_entries {m n : OrdMap K V} (same : m.entries = n.entries) : m = n := by
  obtain ⟨l, order⟩ := m
  cases same
  rfl

theorem eq_of_mem_iff {m n : OrdMap K V} (same : ∀ e, e ∈ m.entries ↔ e ∈ n.entries) : m = n := by
  have irrefl : Std.Irrefl (fun a b : K × V => a.1 < b.1) := ⟨fun a => lt_irrefl a.1⟩
  have antisymm : Std.Antisymm (fun a b : K × V => a.1 < b.1) :=
    ⟨fun _ _ less more => absurd more (lt_asymm less)⟩
  exact eq_of_entries (m.ascending.eq_of_mem_iff n.ascending same)

theorem set_set (m : OrdMap K V) (k : K) (v : V) : (m.set k v).set k v = m.set k v := by
  apply eq_of_entries
  simp only [set, List.map_map]
  apply List.map_congr_left
  intro e mem
  simp only [Function.comp_apply]
  split <;> simp_all

theorem set_comm (m : OrdMap K V) (k l : K) (v : V) :
    (m.set k v).set l v = (m.set l v).set k v := by
  apply eq_of_entries
  simp only [set, List.map_map]
  apply List.map_congr_left
  intro e mem
  simp only [Function.comp_apply]
  by_cases first : e.1 = k
  · rw [if_pos first]
    by_cases second : e.1 = l
    · rw [if_pos second, if_pos second, if_pos first]
    · rw [if_neg second, if_neg second, if_pos first]
  · rw [if_neg first]
    by_cases second : e.1 = l
    · rw [if_pos second, if_neg first]
    · rw [if_neg second, if_neg first]

@[simp] theorem keys_set (m : OrdMap K V) (k : K) (v : V) : (m.set k v).keys = m.keys := by
  simp only [keys, set, List.map_map]
  apply List.map_congr_left
  intro e mem
  simp only [Function.comp_apply]
  split <;> rfl

theorem entries_insert_above {m : OrdMap K V} {k : K} {v : V}
    (above : ∀ e ∈ m.entries, e.1 < k) : (m.insert k v).entries = m.entries ++ [(k, v)] := by
  obtain ⟨l, order⟩ := m
  simp only [insert]
  induction l with
  | nil => rfl
  | cons a rest ih =>
    have less := above a (by simp)
    obtain ⟨_, tail⟩ := List.pairwise_cons.mp order
    have later := ih tail (fun e mem => above e (List.mem_cons_of_mem a mem))
    rw [insertEntry, if_neg (lt_asymm less), if_neg (ne_of_gt less), later, List.cons_append]

theorem mem_insert {m : OrdMap K V} {k : K} {v : V} {e : K × V} :
    e ∈ (m.insert k v).entries ↔ e = (k, v) ∨ (e ∈ m.entries ∧ e.1 ≠ k) := by
  obtain ⟨l, order⟩ := m
  simp only [insert]
  induction l with
  | nil => simp [insertEntry]
  | cons a rest ih =>
    obtain ⟨above, tail⟩ := List.pairwise_cons.mp order
    simp only [insertEntry]
    split
    · rename_i before
      have apart : ∀ x ∈ a :: rest, x.1 ≠ k := by
        intro x mem
        rcases List.mem_cons.mp mem with same | old
        · rw [same]; exact ne_of_gt before
        · exact ne_of_gt (lt_trans before (above x old))
      simp only [List.mem_cons]
      constructor
      · rintro (new | old)
        · exact Or.inl new
        · exact Or.inr ⟨old, apart e (List.mem_cons.mpr old)⟩
      · rintro (new | ⟨old, _⟩)
        · exact Or.inl new
        · exact Or.inr old
    · split
      · rename_i _ same
        have apart : ∀ x ∈ rest, x.1 ≠ k := by
          intro x mem
          rw [same]
          exact ne_of_gt (above x mem)
        simp only [List.mem_cons]
        constructor
        · rintro (new | old)
          · exact Or.inl new
          · exact Or.inr ⟨Or.inr old, apart e old⟩
        · rintro (new | ⟨replaced | old, other⟩)
          · exact Or.inl new
          · rw [replaced, same] at other
            exact absurd rfl other
          · exact Or.inr old
      · rename_i _ notSame
        simp only [List.mem_cons, ih tail]
        constructor
        · rintro (head | new | ⟨old, other⟩)
          · exact Or.inr ⟨Or.inl head, by rw [head]; exact Ne.symm notSame⟩
          · exact Or.inl new
          · exact Or.inr ⟨Or.inr old, other⟩
        · rintro (new | ⟨head | old, other⟩)
          · exact Or.inr (Or.inl new)
          · exact Or.inl head
          · exact Or.inr (Or.inr ⟨old, other⟩)

end OrdMap

end OrderedMap
