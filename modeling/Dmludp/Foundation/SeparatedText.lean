import Mathlib.Data.List.TakeWhile

/- Lists cut at a separator. A list is a piece without the separator, or such a piece, then the
   separator, then a list again; what `splitOn` returns follows these two cases. -/
namespace SeparatedText

variable {A : Type}

theorem takeWhile_bounded {p : A → Bool} {body tail : List A} (inside : ∀ x ∈ body, p x = true)
    (closed : ∀ x ∈ tail.head?, p x = false) : (body ++ tail).takeWhile p = body := by
  rw [List.takeWhile_append_of_pos inside]
  cases tail with
  | nil => exact List.append_nil body
  | cons x rest =>
    rw [List.takeWhile_cons_of_neg, List.append_nil]
    rw [closed x rfl]
    simp

variable {sep : A}

/-- The words of a list, with any number of separators around and between them. -/
inductive Words (sep : A) : List A → List (List A) → Prop where
  | done : Words sep [] []
  | blank {s : List A} {ws : List (List A)} (later : Words sep s ws) : Words sep (sep :: s) ws
  | last {w : List A} (some_letter : w ≠ []) (solid : sep ∉ w) : Words sep w [w]
  | word {w s : List A} {ws : List (List A)} (some_letter : w ≠ []) (solid : sep ∉ w)
      (later : Words sep s ws) : Words sep (w ++ sep :: s) (w :: ws)

theorem words_mem {s : List A} {ws : List (List A)} (spelled : Words sep s ws) :
    ∀ w ∈ ws, w ≠ [] ∧ sep ∉ w ∧ ∀ x ∈ w, x ∈ s := by
  induction spelled with
  | done => simp
  | blank _ ih =>
    intro w mem
    obtain ⟨some_letter, solid, inside⟩ := ih w mem
    exact ⟨some_letter, solid, fun x here => List.mem_cons_of_mem _ (inside x here)⟩
  | last some_letter solid =>
    intro w mem
    rw [List.mem_singleton.mp mem]
    exact ⟨some_letter, solid, fun _ here => here⟩
  | word some_letter solid _ ih =>
    intro w mem
    rcases List.mem_cons.mp mem with rfl | later
    · exact ⟨some_letter, solid, fun x here => List.mem_append_left _ here⟩
    · obtain ⟨letters, apart, inside⟩ := ih w later
      exact ⟨letters, apart, fun x here =>
        List.mem_append_right _ (List.mem_cons_of_mem _ (inside x here))⟩

def spell (sep : A) (ws : List (List A)) : List A := ws.flatMap (fun w => w ++ [sep])

theorem words_spell {ws : List (List A)} (letters : ∀ w ∈ ws, w ≠ [] ∧ sep ∉ w) :
    Words sep (spell sep ws) ws := by
  induction ws with
  | nil => exact .done
  | cons w ws ih =>
    obtain ⟨some_letter, solid⟩ := letters w List.mem_cons_self
    have later := ih (fun v mem => letters v (List.mem_cons_of_mem _ mem))
    have front : spell sep (w :: ws) = w ++ sep :: spell sep ws := by simp [spell]
    rw [front]
    exact .word some_letter solid later

theorem mem_spell {ws : List (List A)} {x : A} (mem : x ∈ spell sep ws) :
    x = sep ∨ ∃ w ∈ ws, x ∈ w := by
  obtain ⟨w, here, inside⟩ := List.mem_flatMap.mp mem
  rcases List.mem_append.mp inside with letter | blank
  · exact Or.inr ⟨w, here, letter⟩
  · exact Or.inl (List.mem_singleton.mp blank)

variable [DecidableEq A]

theorem separated_induction (sep : A) {motive : List A → Prop} (piece : ∀ xs, sep ∉ xs → motive xs)
    (more : ∀ xs rest, sep ∉ xs → motive rest → motive (xs ++ sep :: rest)) (s : List A) :
    motive s := by
  obtain ⟨n, size⟩ : ∃ n, s.length = n := ⟨_, rfl⟩
  induction n using Nat.strong_induction_on generalizing s with
  | _ n ih =>
    by_cases found : sep ∈ s
    · obtain ⟨xs, rest, rfl, solid⟩ := List.eq_append_cons_of_mem found
      refine more xs rest solid (ih rest.length ?_ rest rfl)
      rw [← size, List.length_append, List.length_cons]
      omega
    · exact piece s found

theorem words_iff {s : List A} {ws : List (List A)} :
    Words sep s ws ↔ (s.splitOn sep).filter (fun w => !w.isEmpty) = ws := by
  constructor
  · intro spelled
    induction spelled with
    | done => rfl
    | @blank s ws _ ih =>
      have cut : (sep :: s).splitOn sep = [] :: s.splitOn sep :=
        List.splitOn_append_cons_self_of_not_mem (List.not_mem_nil) s
      rw [cut]
      exact ih
    | last some_letter solid => simp [List.splitOn_eq_singleton solid, some_letter]
    | word some_letter solid _ ih =>
      rw [List.splitOn_append_cons_self_of_not_mem solid]
      simp [some_letter, ih]
  · rintro rfl
    induction s using separated_induction sep with
    | piece xs solid =>
      rw [List.splitOn_eq_singleton solid]
      by_cases nothing : xs = []
      · subst nothing
        exact .done
      · simpa [nothing] using Words.last nothing solid
    | more xs rest solid ih =>
      rw [List.splitOn_append_cons_self_of_not_mem solid]
      by_cases nothing : xs = []
      · subst nothing
        simpa using Words.blank ih
      · simpa [nothing] using Words.word nothing solid ih

theorem splitOn_first (s : List A) :
    (s.splitOn sep)[0]? = some (s.takeWhile (fun x => decide (x ≠ sep))) := by
  induction s using separated_induction sep with
  | piece xs solid =>
    rw [List.splitOn_eq_singleton solid, List.takeWhile_eq_self_iff.mpr]
    · rfl
    · exact fun x mem => decide_eq_true (fun same => solid (by rw [← same]; exact mem))
  | more xs rest solid _ =>
    rw [List.splitOn_append_cons_self_of_not_mem solid, List.takeWhile_append_of_pos]
    · simp
    · exact fun x mem => decide_eq_true (fun same => solid (by rw [← same]; exact mem))

theorem splitOn_second {xs rest : List A} (solid : sep ∉ xs) :
    ((xs ++ sep :: rest).splitOn sep)[1]? = some (rest.takeWhile (fun x => decide (x ≠ sep))) := by
  rw [List.splitOn_append_cons_self_of_not_mem solid, List.getElem?_cons_succ, splitOn_first]

end SeparatedText
