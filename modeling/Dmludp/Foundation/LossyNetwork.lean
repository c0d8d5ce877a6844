import Dmludp.Foundation.TracedRun

/- Two parties over a datagram network. The network is the record of everything ever sent; a
   delivery picks any of it, so losing, duplicating, delaying and reordering are all choices of
   the run. The run of each party is a projection of the joint one. -/
namespace LossyNetwork
open TracedRun

structure Joint (S M : Type) where
  left : S
  right : S
  toRight : List M
  toLeft : List M

inductive Turn (A : Type) where
  | left (a : A)
  | right (a : A)

variable {S A O E M : Type}

def jointStep (step : S → A → Except E (S × O)) (sent : O → Option M) (j : Joint S M) :
    Turn A → Except E (Joint S M × O)
  | .left a =>
    match step j.left a with
    | .ok (s, o) => .ok ({ j with left := s, toRight := j.toRight ++ (sent o).toList }, o)
    | .error e => .error e
  | .right a =>
    match step j.right a with
    | .ok (s, o) => .ok ({ j with right := s, toLeft := j.toLeft ++ (sent o).toList }, o)
    | .error e => .error e

def leftOf (t : Transition (Joint S M) (Turn A) O) : Option (Transition S A O) :=
  match t.action with
  | .left a => some ⟨t.before.left, a, t.reply, t.after.left⟩
  | .right _ => none

def rightOf (t : Transition (Joint S M) (Turn A) O) : Option (Transition S A O) :=
  match t.action with
  | .left _ => none
  | .right a => some ⟨t.before.right, a, t.reply, t.after.right⟩

def leftTrace (trace : List (Transition (Joint S M) (Turn A) O)) : List (Transition S A O) :=
  trace.filterMap leftOf

def rightTrace (trace : List (Transition (Joint S M) (Turn A) O)) : List (Transition S A O) :=
  trace.filterMap rightOf

inductive JointCase (step : S → A → Except E (S × O)) (sent : O → Option M) (j : Joint S M) :
    Turn A → O → Joint S M → Prop where
  | left {a : A} {s : S} {o : O} (taken : step j.left a = .ok (s, o)) :
      JointCase step sent j (.left a) o
        { j with left := s, toRight := j.toRight ++ (sent o).toList }
  | right {a : A} {s : S} {o : O} (taken : step j.right a = .ok (s, o)) :
      JointCase step sent j (.right a) o
        { j with right := s, toLeft := j.toLeft ++ (sent o).toList }

variable {step : S → A → Except E (S × O)} {sent : O → Option M}
  {allowed : Joint S M → Turn A → Prop} {start j j' : Joint S M}
  {trace : List (Transition (Joint S M) (Turn A) O)}

theorem joint_cases {e : Turn A} {o : O} (taken : jointStep step sent j e = .ok (j', o)) :
    JointCase step sent j e o j' := by
  cases e with
  | left a =>
    simp only [jointStep] at taken
    split at taken
    · rename_i s o' own
      simp only [Except.ok.injEq, Prod.mk.injEq] at taken
      obtain ⟨rfl, rfl⟩ := taken
      exact .left own
    · cases taken
  | right a =>
    simp only [jointStep] at taken
    split at taken
    · rename_i s o' own
      simp only [Except.ok.injEq, Prod.mk.injEq] at taken
      obtain ⟨rfl, rfl⟩ := taken
      exact .right own
    · cases taken

theorem leftTrace_snoc_left (a : A) (o : O) : leftTrace (trace ++ [⟨j, .left a, o, j'⟩]) =
    leftTrace trace ++ [⟨j.left, a, o, j'.left⟩] := by
  simp [leftTrace, leftOf]

theorem leftTrace_snoc_right (a : A) (o : O) :
    leftTrace (trace ++ [⟨j, .right a, o, j'⟩]) = leftTrace trace := by
  simp [leftTrace, leftOf]

theorem leftTrace_split_left {later : List (Transition (Joint S M) (Turn A) O)}
    {t : Transition (Joint S M) (Turn A) O} {a : A} (action : t.action = .left a) :
    leftTrace (trace ++ t :: later) =
      leftTrace trace ++ ⟨t.before.left, a, t.reply, t.after.left⟩ :: leftTrace later := by
  simp [leftTrace, leftOf, action]

theorem rightTrace_snoc_left (a : A) (o : O) :
    rightTrace (trace ++ [⟨j, .left a, o, j'⟩]) = rightTrace trace := by
  simp [rightTrace, rightOf]

theorem rightTrace_snoc_right (a : A) (o : O) : rightTrace (trace ++ [⟨j, .right a, o, j'⟩]) =
    rightTrace trace ++ [⟨j.right, a, o, j'.right⟩] := by
  simp [rightTrace, rightOf]

theorem left_run {may : S → A → Prop} (grant : ∀ j a, allowed j (.left a) → may j.left a)
    (run : Run (jointStep step sent) allowed start trace j) :
    Run step may start.left (leftTrace trace) j.left := by
  induction run with
  | start => exact .start
  | step earlier allowed_ taken ih =>
    cases joint_cases taken with
    | left own =>
      rw [leftTrace_snoc_left]
      exact .step ih (grant _ _ allowed_) own
    | right own =>
      rw [leftTrace_snoc_right]
      exact ih

end LossyNetwork
