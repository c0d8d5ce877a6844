import Mathlib.Data.Nat.Basic
import Mathlib.Tactic.Common

/- A `while` loop whose body may break and may fail. A turn evaluates the test and, if it holds,
   the body; it goes back to the test or leaves the loop. The loop ends where a rank falls with
   every turn that goes back. -/
namespace BreakLoop

inductive Turn (S : Type) where
  | again (s : S)
  | leave (s : S)

variable {S E : Type}

def Turn.state : Turn S → S
  | .again s => s
  | .leave s => s

/-- Run the loop. Without a result it has not been left within `fuel` turns. -/
def loop (turn : S → Except E (Turn S)) : Nat → S → Except E (Option S)
  | 0, _ => .ok none
  | fuel + 1, s =>
    match turn s with
    | .error e => .error e
    | .ok (.again s') => loop turn fuel s'
    | .ok (.leave s') => .ok (some s')

inductive AtTest (turn : S → Except E (Turn S)) (start : S) : S → Prop where
  | first : AtTest turn start start
  | again {s s' : S} (earlier : AtTest turn start s) (goes_on : turn s = .ok (.again s')) :
      AtTest turn start s'

variable {turn : S → Except E (Turn S)} {start s : S}

theorem atTest_invariant (Inv : S → Prop) (base : Inv start)
    (kept : ∀ s s', Inv s → turn s = .ok (.again s') → Inv s') (tested : AtTest turn start s) :
    Inv s := by
  induction tested with
  | first => exact base
  | again _ goes_on ih => exact kept _ _ ih goes_on

/-- A loop whose turns succeed, and lower a rank when they go back to the test, is left. -/
theorem loop_left (Inv Post : S → Prop) (rank : S → Nat)
    (each : ∀ s, Inv s → (∃ s', turn s = .ok (.again s') ∧ Inv s' ∧ rank s' < rank s) ∨
      ∃ s', turn s = .ok (.leave s') ∧ Post s')
    (fuel : Nat) (inv : Inv s) (enough : rank s < fuel) :
    ∃ s', loop turn fuel s = .ok (some s') ∧ Post s' := by
  induction fuel generalizing s with
  | zero => exact absurd enough (Nat.not_lt_zero _)
  | succ fuel ih =>
    rcases each s inv with ⟨s', goes_on, inv', lower⟩ | ⟨s', leaves, post⟩
    · obtain ⟨last, ended, post⟩ := ih inv' (by omega)
      exact ⟨last, by simp only [loop, goes_on, ended], post⟩
    · exact ⟨s', by simp only [loop, leaves], post⟩

end BreakLoop
