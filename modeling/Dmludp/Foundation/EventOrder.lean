import Mathlib.Data.List.Forall2

/- Events of a trace in their order. `Happened es trace` finds a record for each of the events `es`,
   every one later than the record before it. -/
namespace EventOrder

variable {T : Type}

def Happened (es : List (T → Prop)) (trace : List T) : Prop :=
  ∃ ts, ts.Sublist trace ∧ List.Forall₂ (fun event t => event t) es ts

theorem happened_nil (trace : List T) : Happened [] trace := ⟨[], List.nil_sublist trace, .nil⟩

theorem happened_grows {es : List (T → Prop)} {trace : List T} (known : Happened es trace)
    (more : List T) : Happened es (trace ++ more) := by
  obtain ⟨ts, within, events⟩ := known
  exact ⟨ts, within.trans (List.sublist_append_left trace more), events⟩

theorem happened_snoc {es : List (T → Prop)} {trace : List T} {event : T → Prop} {t : T}
    (known : Happened es trace) (here : event t) : Happened (es ++ [event]) (trace ++ [t]) := by
  obtain ⟨ts, within, events⟩ := known
  exact ⟨ts ++ [t], within.append (List.Sublist.refl [t]), List.rel_append events (.cons here .nil)⟩

theorem forall₂_snoc {es : List (T → Prop)} {ts : List T} {event : T → Prop} {t : T} :
    List.Forall₂ (fun event t => event t) (es ++ [event]) (ts ++ [t]) ↔
      event t ∧ List.Forall₂ (fun event t => event t) es ts := by
  rw [← List.forall₂_reverse_iff, List.reverse_append, List.reverse_append,
    List.reverse_singleton, List.reverse_singleton, List.singleton_append, List.singleton_append,
    List.forall₂_cons, List.forall₂_reverse_iff]

theorem happened_init (es : List (T → Prop)) {trace : List T} {event : T → Prop}
    (known : Happened (es ++ [event]) trace) : Happened es trace := by
  obtain ⟨ts, within, events⟩ := known
  rcases List.eq_nil_or_concat ts with rfl | ⟨earlier, last, rfl⟩
  · have lengths := events.length_eq
    simp at lengths
  · rw [List.concat_eq_append] at within events
    exact ⟨earlier, (List.sublist_append_left earlier [last]).trans within,
      (forall₂_snoc.mp events).2⟩

theorem happened_snoc_iff (es : List (T → Prop)) {trace : List T} {event : T → Prop} {t : T} :
    Happened (es ++ [event]) (trace ++ [t]) ↔
      Happened (es ++ [event]) trace ∨ (Happened es trace ∧ event t) := by
  constructor
  · rintro ⟨ts, within, events⟩
    obtain ⟨earlier, last, rfl, sub, rest⟩ := List.sublist_append_iff.mp within
    rcases List.sublist_singleton.mp rest with rfl | rfl
    · rw [List.append_nil] at events
      exact Or.inl ⟨earlier, sub, events⟩
    · obtain ⟨here, before⟩ := forall₂_snoc.mp events
      exact Or.inr ⟨⟨earlier, sub, before⟩, here⟩
  · rintro (known | ⟨known, here⟩)
    · exact happened_grows known [t]
    · exact happened_snoc known here

def found : List (T → Bool) → List T → Bool
  | [], _ => true
  | _ :: _, [] => false
  | f :: fs, t :: ts => if f t then found fs ts else found (f :: fs) ts

theorem found_sound {fs : List (T → Bool)} {es : List (T → Prop)} {trace : List T}
    (sound : List.Forall₂ (fun f e => ∀ t, f t = true → e t) fs es)
    (yes : found fs trace = true) : Happened es trace := by
  induction trace generalizing fs es with
  | nil =>
    cases sound with
    | nil => exact happened_nil _
    | cons _ _ => cases yes
  | cons t trace ih =>
    cases sound with
    | nil => exact happened_nil _
    | cons first later =>
      simp only [found] at yes
      split at yes
      · rename_i here
        obtain ⟨ts, within, events⟩ := ih later yes
        exact ⟨t :: ts, within.cons_cons t, .cons (first t here) events⟩
      · obtain ⟨ts, within, events⟩ := ih (.cons first later) yes
        exact ⟨ts, within.cons t, events⟩

end EventOrder
