import Mathlib.Data.List.Basic
import Mathlib.Tactic.Common

/- Runs of a deterministic machine with a full record of what happened. `allowed` restricts the
   actions by the state they are taken in; the machine itself may refuse an action, which ends
   the run. Every safety statement is an invariant of the record and the state together. -/
namespace TracedRun

structure Transition (S A O : Type) where
  before : S
  action : A
  reply : O
  after : S

variable {S A O E : Type}

inductive Run (step : S → A → Except E (S × O)) (allowed : S → A → Prop) (start : S) :
    List (Transition S A O) → S → Prop where
  | start : Run step allowed start [] start
  | step {trace : List (Transition S A O)} {s s' : S} {a : A} {o : O}
      (earlier : Run step allowed start trace s) (may : allowed s a)
      (taken : step s a = .ok (s', o)) :
      Run step allowed start (trace ++ [⟨s, a, o, s'⟩]) s'

variable {step : S → A → Except E (S × O)} {allowed : S → A → Prop} {start s : S}
  {trace : List (Transition S A O)}

/-- What holds at the start and survives one recorded step holds after every run. -/
theorem run_invariant (I : List (Transition S A O) → S → Prop) (base : I [] start)
    (preserve : ∀ trace s a o s', Run step allowed start trace s → I trace s → allowed s a →
      step s a = .ok (s', o) → I (trace ++ [⟨s, a, o, s'⟩]) s')
    (run : Run step allowed start trace s) : I trace s := by
  induction run with
  | start => exact base
  | step earlier may taken ih => exact preserve _ _ _ _ _ earlier ih may taken

theorem state_invariant (I : S → Prop) (base : I start)
    (preserve : ∀ s a o s', I s → allowed s a → step s a = .ok (s', o) → I s')
    (run : Run step allowed start trace s) : I s :=
  run_invariant (fun _ s => I s) base
    (fun _ s a o s' _ inv may taken => preserve s a o s' inv may taken) run

theorem run_end (run : Run step allowed start trace s) :
    s = (trace.getLast?.map (fun t => t.after)).getD start := by
  cases run with
  | start => rfl
  | step earlier may taken => simp

theorem run_widen {wider : S → A → Prop} (grow : ∀ s a, allowed s a → wider s a)
    (run : Run step allowed start trace s) : Run step wider start trace s := by
  induction run with
  | start => exact .start
  | step earlier may taken ih => exact .step ih (grow _ _ may) taken

theorem run_narrow {other : S → A → Prop} (run : Run step allowed start trace s)
    (meets : ∀ t ∈ trace, other t.before t.action) : Run step other start trace s := by
  induction run with
  | start => exact .start
  | step earlier may taken ih =>
    refine .step (ih fun t mem => meets t (List.mem_append_left _ mem)) ?_ taken
    exact meets _ (List.mem_append_right _ (List.mem_singleton.mpr rfl))

theorem snoc_split {A : Type} {xs earlier later : List A} {x a : A}
    (split : xs ++ [x] = earlier ++ a :: later) :
    (xs = earlier ∧ x = a ∧ later = []) ∨ ∃ rest, xs = earlier ++ a :: rest ∧ later = rest ++ [x] := by
  rcases List.eq_nil_or_concat later with rfl | ⟨rest, last, rfl⟩
  · obtain ⟨same, last⟩ := List.append_inj' split rfl
    exact Or.inl ⟨same, List.singleton_inj.mp last, rfl⟩
  · rw [List.concat_eq_append, ← List.cons_append, ← List.append_assoc] at split
    obtain ⟨same, last⟩ := List.append_inj' split rfl
    rw [List.singleton_inj.mp last]
    exact Or.inr ⟨rest, same, by rw [List.concat_eq_append]⟩

/-- `P` holds of every record of a trace, given the records before it. -/
def Along (P : List (Transition S A O) → Transition S A O → Prop)
    (trace : List (Transition S A O)) : Prop :=
  ∀ before t after, trace = before ++ t :: after → P before t

theorem along_nil (P : List (Transition S A O) → Transition S A O → Prop) : Along P [] := by
  intro before t after split
  simp at split

theorem along_snoc {P : List (Transition S A O) → Transition S A O → Prop}
    {t : Transition S A O} : Along P (trace ++ [t]) ↔ Along P trace ∧ P trace t := by
  constructor
  · intro all
    refine ⟨?_, all trace t [] rfl⟩
    intro before u after split
    exact all before u (after ++ [t]) (by rw [split, List.append_assoc, List.cons_append])
  · rintro ⟨earlier, last⟩ before u after split
    rcases snoc_split split with ⟨rfl, rfl, _⟩ | ⟨rest, split', _⟩
    · exact last
    · exact earlier before u rest split'

theorem along_each {P : Transition S A O → Prop} :
    Along (fun _ t => P t) trace ↔ ∀ t ∈ trace, P t := by
  constructor
  · intro along t mem
    obtain ⟨before, after, split⟩ := List.append_of_mem mem
    exact along before t after split
  · intro all before t after split
    exact all t (by rw [split]; simp)

theorem along_iff {P : List (Transition S A O) → Transition S A O → Prop} :
    Along P trace ↔ ∀ k : Fin trace.length, P (trace.take k) (trace.get k) := by
  constructor
  · intro along k
    apply along (trace.take k) (trace.get k) (trace.drop (k + 1))
    rw [List.get_eq_getElem, List.getElem_cons_drop, List.take_append_drop]
  · intro each before t after split
    have inside : before.length < trace.length := by simp [split]
    have here := each ⟨before.length, inside⟩
    subst split
    simpa using here

instance (P : List (Transition S A O) → Transition S A O → Prop) [∀ before t, Decidable (P before t)]
    (trace : List (Transition S A O)) : Decidable (Along P trace) :=
  decidable_of_iff (∀ k : Fin trace.length, P (trace.take k) (trace.get k)) along_iff.symm

/-- When one step from a good state ends in a good one exactly under a condition on the step, a run
    is good all along exactly when its steps all meet the condition. What is good or bad is a state
    with its record; while all has been good, an invariant may be used. -/
theorem record_exact (Inv Good : List (Transition S A O) → S → Prop)
    (Cond : List (Transition S A O) → S → A → Prop) (sound : Inv [] start) (good : Good [] start)
    (stepwise : ∀ trace s a o s', Inv trace s → Good trace s → allowed s a →
      step s a = .ok (s', o) → (Good (trace ++ [⟨s, a, o, s'⟩]) s' ↔ Cond trace s a) ∧
        (Good (trace ++ [⟨s, a, o, s'⟩]) s' → Inv (trace ++ [⟨s, a, o, s'⟩]) s'))
    (run : Run step allowed start trace s) :
    (Along (fun before t => Good (before ++ [t]) t.after) trace ↔
      Along (fun before t => Cond before t.before t.action) trace) ∧
      (Along (fun before t => Cond before t.before t.action) trace → Inv trace s ∧ Good trace s) := by
  induction run with
  | start => exact ⟨iff_of_true (along_nil _) (along_nil _), fun _ => ⟨sound, good⟩⟩
  | step earlier may taken ih =>
    obtain ⟨same, now⟩ := ih
    simp only [along_snoc]
    constructor
    · constructor
      · rintro ⟨before, here⟩
        obtain ⟨inv, fine⟩ := now (same.mp before)
        exact ⟨same.mp before, (stepwise _ _ _ _ _ inv fine may taken).1.mp here⟩
      · rintro ⟨before, here⟩
        obtain ⟨inv, fine⟩ := now before
        exact ⟨same.mpr before, (stepwise _ _ _ _ _ inv fine may taken).1.mpr here⟩
    · rintro ⟨before, here⟩
      obtain ⟨inv, fine⟩ := now before
      obtain ⟨exact_, keeps⟩ := stepwise _ _ _ _ _ inv fine may taken
      exact ⟨keeps (exact_.mpr here), exact_.mpr here⟩

theorem run_exact (Inv Good : S → Prop) (Cond : S → A → Prop) (sound : Inv start) (good : Good start)
    (stepwise : ∀ s a o s', Inv s → allowed s a → step s a = .ok (s', o) →
      Inv s' ∧ (Good s → (Good s' ↔ Cond s a)))
    (run : Run step allowed start trace s) :
    (∀ t ∈ trace, Good t.after) ↔ ∀ t ∈ trace, Cond t.before t.action := by
  have whole := record_exact (fun _ s => Inv s) (fun _ s => Good s) (fun _ s a => Cond s a)
    sound good ?_ run
  · simpa only [along_each] using whole.1
  · intro _ s a o s' inv fine may taken
    obtain ⟨inv', next⟩ := stepwise s a o s' inv may taken
    exact ⟨next fine, fun _ => inv'⟩

theorem run_append {before after : List (Transition S A O)} {mid : S}
    (run : Run step allowed start before mid) (later : Run step allowed mid after s) :
    Run step allowed start (before ++ after) s := by
  induction later with
  | start =>
    rw [List.append_nil]
    exact run
  | step _ may taken ih =>
    rw [← List.append_assoc]
    exact .step ih may taken

theorem run_split {before after : List (Transition S A O)} {t : Transition S A O}
    (run : Run step allowed start (before ++ t :: after) s) :
    Run step allowed start before t.before ∧ allowed t.before t.action ∧
      step t.before t.action = .ok (t.after, t.reply) := by
  generalize whole : before ++ t :: after = trace at run
  induction run generalizing after with
  | start => simp at whole
  | step earlier may taken ih =>
    rcases List.eq_nil_or_concat after with rfl | ⟨rest, last, rfl⟩
    · obtain ⟨rfl, same⟩ := List.append_inj' whole rfl
      simp only [List.cons.injEq, and_true] at same
      subst same
      exact ⟨earlier, may, taken⟩
    · rw [List.concat_eq_append, ← List.cons_append, ← List.append_assoc] at whole
      exact ih (List.append_inj' whole rfl).1

def perform (step : S → A → Except E (S × O)) :
    List A → S → List (Transition S A O) → Except E (List (Transition S A O) × S)
  | [], s, trace => .ok (trace, s)
  | a :: rest, s, trace =>
    match step s a with
    | .error e => .error e
    | .ok (s', o) => perform step rest s' (trace ++ [⟨s, a, o, s'⟩])

theorem perform_extends {actions : List A} {s s' : S} {trace trace' : List (Transition S A O)}
    (done : perform step actions s trace = .ok (trace', s')) : trace <+: trace' := by
  induction actions generalizing s trace with
  | nil =>
    simp only [perform, Except.ok.injEq, Prod.mk.injEq] at done
    exact ⟨[], by rw [List.append_nil, done.1]⟩
  | cons a rest ih =>
    simp only [perform] at done
    split at done
    · cases done
    · exact (List.prefix_append _ _).trans (ih done)

theorem perform_actions {actions : List A} {s s' : S} {trace trace' : List (Transition S A O)}
    (done : perform step actions s trace = .ok (trace', s')) :
    trace'.map (fun t => t.action) = trace.map (fun t => t.action) ++ actions := by
  induction actions generalizing s trace with
  | nil =>
    simp only [perform, Except.ok.injEq, Prod.mk.injEq] at done
    rw [List.append_nil, done.1]
  | cons a rest ih =>
    simp only [perform] at done
    split at done
    · cases done
    · rw [ih done, List.map_append, List.append_assoc]
      rfl

theorem run_of_perform {actions : List A} {s s' : S} {trace trace' : List (Transition S A O)}
    (earlier : Run step allowed start trace s)
    (done : perform step actions s trace = .ok (trace', s'))
    (legal : ∀ t ∈ trace', allowed t.before t.action) : Run step allowed start trace' s' := by
  induction actions generalizing s trace with
  | nil =>
    simp only [perform, Except.ok.injEq, Prod.mk.injEq] at done
    obtain ⟨rfl, rfl⟩ := done
    exact earlier
  | cons a rest ih =>
    simp only [perform] at done
    split at done
    · cases done
    · rename_i s1 o taken
      have last : (⟨s, a, o, s1⟩ : Transition S A O) ∈ trace' :=
        (perform_extends done).subset (by simp)
      exact ih (.step earlier (legal _ last) taken) done

/-- What an observer sees of the replies to a list of actions, if none of them is refused. -/
def observe {V : Type} (step : S → A → Except E (S × O)) (view : O → List V) :
    S → List A → Option (List V)
  | _, [] => some []
  | s, a :: rest =>
    match step s a with
    | .error _ => none
    | .ok (s', o) => (observe step view s' rest).map (fun seen => view o ++ seen)

/-- States related by a symmetric relation that one step carries on cannot be told apart. -/
theorem observe_alike {V : Type} {view : O → List V} (R : S → S → Prop) (may : A → Prop)
    (symmetric : ∀ s t, R s t → R t s)
    (forth : ∀ s t a s' o, R s t → may a → step s a = .ok (s', o) →
      ∃ t' o', step t a = .ok (t', o') ∧ R s' t' ∧ view o' = view o)
    {actions : List A} (legal : ∀ a ∈ actions, may a) {s t : S} (alike : R s t) :
    observe step view s actions = observe step view t actions := by
  induction actions generalizing s t with
  | nil => rfl
  | cons a rest ih =>
    have here : may a := legal a List.mem_cons_self
    have later : ∀ b ∈ rest, may b := fun b mem => legal b (List.mem_cons_of_mem a mem)
    cases first : step s a with
    | ok r =>
      obtain ⟨s', o⟩ := r
      obtain ⟨t', o', taken, alike', same⟩ := forth s t a s' o alike here first
      simp only [observe, first, taken, same, ih later alike']
    | error e =>
      cases second : step t a with
      | ok r =>
        obtain ⟨t', o⟩ := r
        obtain ⟨s', o', taken, _⟩ := forth t s a t' o (symmetric s t alike) here second
        rw [first] at taken
        cases taken
      | error e' => simp only [observe, first, second]

def passes (step : S → A → Except E (S × O)) (allowed : S → A → Prop)
    [∀ s a, Decidable (allowed s a)] (start : S) (actions : List A)
    (test : List (Transition S A O) → S → Bool) : Bool :=
  match perform step actions start [] with
  | .ok (trace, s) => trace.all (fun t => decide (allowed t.before t.action)) && test trace s
  | .error _ => false

theorem played_run [∀ s a, Decidable (allowed s a)] {actions : List A}
    {test : List (Transition S A O) → S → Bool}
    (passed : passes step allowed start actions test = true) :
    ∃ trace s, Run step allowed start trace s ∧ trace.map (fun t => t.action) = actions ∧
      test trace s = true := by
  unfold passes at passed
  split at passed
  · rename_i trace s done
    simp only [Bool.and_eq_true, List.all_eq_true, decide_eq_true_eq] at passed
    exact ⟨trace, s, run_of_perform .start done passed.1, perform_actions done, passed.2⟩
  · cases passed

end TracedRun
