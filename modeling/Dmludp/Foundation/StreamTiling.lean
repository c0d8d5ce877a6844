import Mathlib.Data.List.Basic
import Mathlib.Tactic.Common

/- Pieces of a stream that lie end to end. A piece is a start position with its content; a
   tiling of an interval leaves no gap, overlaps nowhere and holds the stream's own elements. -/
namespace StreamTiling

variable {A : Type}

def cut (stream : List A) (lo n : Nat) : List A := (stream.drop lo).take n

inductive Tiles (stream : List A) : Nat → Nat → List (Nat × List A) → Prop where
  | done (lo : Nat) : Tiles stream lo lo []
  | piece {lo hi : Nat} {content : List A} {rest : List (Nat × List A)}
      (same : content = cut stream lo content.length) (inside : lo + content.length ≤ stream.length)
      (later : Tiles stream (lo + content.length) hi rest) :
      Tiles stream lo hi ((lo, content) :: rest)

variable {stream : List A} {lo mid hi : Nat} {xs ys : List (Nat × List A)}

theorem cut_length {n : Nat} (inside : lo + n ≤ stream.length) : (cut stream lo n).length = n := by
  simp only [cut, List.length_take, List.length_drop]
  omega

theorem cut_append {n m : Nat} :
    cut stream lo (n + m) = cut stream lo n ++ cut stream (lo + n) m := by
  simp only [cut, List.take_add, List.drop_drop]

theorem tiles_append (first : Tiles stream lo mid xs) (second : Tiles stream mid hi ys) :
    Tiles stream lo hi (xs ++ ys) := by
  induction first with
  | done lo => exact second
  | piece same inside later ih => exact .piece same inside (ih second)

theorem tiles_bounds (tiles : Tiles stream lo hi xs) : lo ≤ hi := by
  induction tiles with
  | done lo => exact Nat.le_refl lo
  | piece same inside later ih => omega

theorem tiles_mem (tiles : Tiles stream lo hi xs) {p : Nat × List A} (mem : p ∈ xs) :
    lo ≤ p.1 ∧ p.1 + p.2.length ≤ hi ∧ p.2 = cut stream p.1 p.2.length := by
  induction tiles with
  | done lo => cases mem
  | piece same inside later ih =>
    have beyond := tiles_bounds later
    rcases List.mem_cons.mp mem with here | there
    · subst here
      exact ⟨Nat.le_refl _, beyond, same⟩
    · obtain ⟨lower, upper, content⟩ := ih there
      exact ⟨by omega, upper, content⟩

theorem tiles_apart (tiles : Tiles stream lo hi xs) {p q : Nat × List A} (left : p ∈ xs)
    (right : q ∈ xs) : p = q ∨ p.1 + p.2.length ≤ q.1 ∨ q.1 + q.2.length ≤ p.1 := by
  induction tiles with
  | done lo => cases left
  | piece same inside later ih =>
    rcases List.mem_cons.mp left with here | there
    · rcases List.mem_cons.mp right with here' | there'
      · exact Or.inl (here.trans here'.symm)
      · subst here
        exact Or.inr (Or.inl (tiles_mem later there').1)
    · rcases List.mem_cons.mp right with here' | there'
      · subst here'
        exact Or.inr (Or.inr (tiles_mem later there).1)
      · exact ih there there'

theorem tiles_cover (tiles : Tiles stream lo hi xs) {i : Nat} (above : lo ≤ i) (below : i < hi) :
    ∃ p ∈ xs, p.1 ≤ i ∧ i < p.1 + p.2.length := by
  induction tiles with
  | done lo => omega
  | @piece lo hi content rest same inside later ih =>
    by_cases here : i < lo + content.length
    · exact ⟨(lo, content), by simp, above, here⟩
    · obtain ⟨p, mem, lower, upper⟩ := ih (by omega) below
      exact ⟨p, List.mem_cons_of_mem _ mem, lower, upper⟩

end StreamTiling
