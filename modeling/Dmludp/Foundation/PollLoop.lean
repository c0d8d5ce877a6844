import Mathlib.Data.Nat.Basic
import Mathlib.Tactic.Common

/- A loop that polls a machine until it reports that nothing is left. Every poll takes the next
   input of a schedule. The loop ends where a rank falls with every poll, with exactly what the
   machine owed, and never ends where an invariant keeps the machine from finishing. -/
namespace PollLoop

inductive Poll (S : Type) where
  | finished
  | produced (next : S)
  | refused (next : S)
  | failed

variable {S I : Type}

/-- Poll until finished and count what was produced; a failed poll ends the loop without a
    result. -/
def drain (poll : S → I → Poll S) : Nat → (Nat → I) → S → Option Nat
  | 0, _, _ => none
  | fuel + 1, inputs, s =>
    match poll s (inputs 0) with
    | .finished => some 0
    | .produced next => (drain poll fuel (fun i => inputs (i + 1)) next).map (fun n => n + 1)
    | .refused next => drain poll fuel (fun i => inputs (i + 1)) next
    | .failed => none

def GoesOn (poll : S → I → Poll S) (s : S) (i : I) (next : S) : Prop :=
  poll s i = .produced next ∨ poll s i = .refused next

variable {poll : S → I → Poll S}

/-- A machine that never finishes while an invariant holds is polled forever. -/
theorem drain_never (Inv : S → Prop) (unfinished : ∀ s i, Inv s → poll s i ≠ .finished)
    (kept : ∀ s i next, Inv s → GoesOn poll s i next → Inv next) (fuel : Nat)
    (inputs : Nat → I) {s : S} (inv : Inv s) : drain poll fuel inputs s = none := by
  induction fuel generalizing inputs s with
  | zero => rfl
  | succ fuel ih =>
    cases polled : poll s (inputs 0) with
    | finished => exact absurd polled (unfinished s _ inv)
    | produced next =>
      have later := ih (fun i => inputs (i + 1)) (kept s _ next inv (Or.inl polled))
      simp only [drain, polled, later, Option.map_none]
    | refused next =>
      have later := ih (fun i => inputs (i + 1)) (kept s _ next inv (Or.inr polled))
      simp only [drain, polled, later]
    | failed => simp only [drain, polled]

/-- A poll of a machine in debt: each product pays off one, a refusal nothing, and at the end
    nothing is owed. Every poll but the last lowers the rank. -/
inductive Pays (poll : S → I → Poll S) (Inv : S → Prop) (rank due : S → Nat) (s : S) (i : I) :
    Prop where
  | finished (polled : poll s i = .finished) (clear : due s = 0) : Pays poll Inv rank due s i
  | produced {next : S} (polled : poll s i = .produced next) (kept : Inv next)
      (lower : rank next < rank s) (paid : due s = due next + 1) : Pays poll Inv rank due s i
  | refused {next : S} (polled : poll s i = .refused next) (kept : Inv next)
      (lower : rank next < rank s) (same : due s = due next) : Pays poll Inv rank due s i

theorem drain_pays (Inv : S → Prop) (rank due : S → Nat)
    (pays : ∀ s i, Inv s → Pays poll Inv rank due s i) (inputs : Nat → I) {s : S} (inv : Inv s) :
    ∃ fuel, drain poll fuel inputs s = some (due s) := by
  generalize level : rank s = n
  induction n using Nat.strongRecOn generalizing inputs s with
  | ind n ih =>
    cases pays s (inputs 0) inv with
    | finished polled clear => exact ⟨1, by simp only [drain, polled, clear]⟩
    | @produced next polled kept lower paid =>
      obtain ⟨fuel, drained⟩ :=
        ih (rank next) (by omega) (fun i => inputs (i + 1)) kept rfl
      exact ⟨fuel + 1, by simp only [drain, polled, drained, Option.map_some, paid]⟩
    | @refused next polled kept lower same =>
      obtain ⟨fuel, drained⟩ :=
        ih (rank next) (by omega) (fun i => inputs (i + 1)) kept rfl
      exact ⟨fuel + 1, by simp only [drain, polled, drained, same]⟩

theorem drain_unique {fuel fuel' : Nat} {inputs : Nat → I} {s : S} {k k' : Nat}
    (drained : drain poll fuel inputs s = some k)
    (drained' : drain poll fuel' inputs s = some k') : k = k' := by
  induction fuel generalizing fuel' inputs s k k' with
  | zero => cases drained
  | succ fuel ih =>
    cases fuel' with
    | zero => cases drained'
    | succ fuel' =>
      cases polled : poll s (inputs 0) with
      | finished =>
        simp only [drain, polled, Option.some.injEq] at drained drained'
        omega
      | produced next =>
        simp only [drain, polled, Option.map_eq_some_iff] at drained drained'
        obtain ⟨n, later, rfl⟩ := drained
        obtain ⟨n', later', rfl⟩ := drained'
        rw [ih later later']
      | refused next =>
        simp only [drain, polled] at drained drained'
        exact ih drained drained'
      | failed => simp only [drain, polled, reduceCtorEq] at drained

end PollLoop
