import Dmludp.Foundation.SeparatedText
import Dmludp.Guarantees.BlockNorms

/- What texts `data_send` takes and what it makes of them. The format is stated as a grammar: rows
   separated by `>`, the numbers of a row between brackets and separated by blanks. A closing
   bracket may be missing or be a second opening one, and an empty row ends the text. -/
namespace DmludpTextLoading
open ByteCursor RustOutcome SeparatedText DmludpRecovery DmludpConnection
open DmludpConnection.Connection DmludpEffects DmludpBlockNorms DmludpReference

def visible (text : List Char) : List Char :=
  text.filter (fun ch => ch ≠ '\n' && ch ≠ '"' && ch ≠ '\r')

/-- One row: a label, an opening bracket, the words, and from the next bracket on anything. -/
inductive Row : List Char → List (List Char) → Prop where
  | row {label body tail : List Char} {ws : List (List Char)} (unopened : '[' ∉ label)
      (inside : ∀ ch ∈ body, ch ≠ '[' ∧ ch ≠ ']')
      (closed : ∀ ch ∈ tail.head?, ch = '[' ∨ ch = ']') (words : Words ' ' body ws) :
      Row (label ++ '[' :: (body ++ tail)) ws

/-- The rows before the first empty one. -/
inductive Rows : List Char → List (List (List Char)) → Prop where
  | nothing : Rows [] []
  | ended {rest : List Char} : Rows ('>' :: rest) []
  | last {part : List Char} {ws : List (List Char)} (solid : '>' ∉ part) (row : Row part ws) :
      Rows part [ws]
  | more {part rest : List Char} {ws : List (List Char)} {wss : List (List (List Char))}
      (solid : '>' ∉ part) (row : Row part ws) (later : Rows rest wss) :
      Rows (part ++ '>' :: rest) (ws :: wss)

section Grammar

def unbracketed (ch : Char) : Bool := decide (ch ≠ ']') && decide (ch ≠ '[')

theorem row_nonempty {part : List Char} {ws : List (List Char)} (row : Row part ws) :
    part.isEmpty = false := by
  cases row
  simp

theorem partTokens_opened {label rest : List Char} (unopened : '[' ∉ label) :
    partTokens (label ++ '[' :: rest) =
      some (((rest.takeWhile unbracketed).splitOn ' ').filter (fun w => !w.isEmpty)) := by
  unfold partTokens
  rw [splitOn_second unopened]
  dsimp only
  rw [splitOn_first]
  dsimp only
  rw [List.takeWhile_takeWhile]
  simp only [Bool.decide_and, Bool.decide_eq_true]
  rfl

theorem partTokens_iff {part : List Char} {ws : List (List Char)} :
    partTokens part = some ws ↔ Row part ws := by
  constructor
  · intro found
    by_cases opened : '[' ∈ part
    · obtain ⟨label, rest, rfl, unopened⟩ := List.eq_append_cons_of_mem opened
      rw [partTokens_opened unopened, Option.some.injEq] at found
      rw [← List.takeWhile_append_dropWhile (p := unbracketed) (l := rest)]
      refine .row unopened ?_ ?_ (words_iff.mpr found)
      · intro ch mem
        have solid := List.mem_takeWhile_imp mem
        simp only [unbracketed, Bool.and_eq_true, decide_eq_true_eq] at solid
        exact ⟨solid.2, solid.1⟩
      · intro ch first
        have bracket := List.head?_dropWhile_not unbracketed rest
        rw [Option.mem_def.mp first] at bracket
        simp only [unbracketed, Bool.and_eq_false_iff, decide_eq_false_iff_not,
          Decidable.not_not] at bracket
        exact bracket.symm
    · unfold partTokens at found
      rw [List.splitOn_eq_singleton opened] at found
      cases found
  · rintro ⟨unopened, inside, closed, words⟩
    rw [partTokens_opened unopened, takeWhile_bounded, words_iff.mp words]
    · intro ch mem
      simp [unbracketed, inside ch mem]
    · intro ch first
      rcases closed ch first with rfl | rfl
      · rfl
      · rfl

theorem partsTokens_iff {text : List Char} {wss : List (List (List Char))} :
    partsTokens (text.splitOn '>') = some wss ↔ Rows text wss := by
  constructor
  · intro found
    induction text using separated_induction '>' generalizing wss with
    | piece part solid =>
      rw [List.splitOn_eq_singleton solid, partsTokens] at found
      by_cases nothing : part.isEmpty = true
      · rw [if_pos nothing] at found
        cases found
        rw [List.isEmpty_iff.mp nothing]
        exact .nothing
      · rw [if_neg nothing] at found
        split at found
        · rename_i ws later first ended
          cases found
          cases ended
          exact .last solid (partTokens_iff.mp first)
        · cases found
    | more part rest solid ih =>
      rw [List.splitOn_append_cons_self_of_not_mem solid, partsTokens] at found
      by_cases nothing : part.isEmpty = true
      · rw [if_pos nothing] at found
        cases found
        rw [List.isEmpty_iff.mp nothing]
        exact .ended
      · rw [if_neg nothing] at found
        split at found
        · rename_i ws later first others
          cases found
          exact .more solid (partTokens_iff.mp first) (ih others)
        · cases found
  · intro rows
    induction rows with
    | nothing => rfl
    | @ended rest =>
      have cut : ('>' :: rest).splitOn '>' = [] :: rest.splitOn '>' :=
        List.splitOn_append_cons_self_of_not_mem List.not_mem_nil rest
      rw [cut]
      rfl
    | last solid row =>
      rw [List.splitOn_eq_singleton solid, partsTokens, row_nonempty row]
      simp [partTokens_iff.mpr row, partsTokens]
    | more solid row _ ih =>
      rw [List.splitOn_append_cons_self_of_not_mem solid, partsTokens, row_nonempty row]
      simp [partTokens_iff.mpr row, ih]

theorem tokenParts_iff {text : List Char} {wss : List (List (List Char))} :
    tokenParts text = some wss ↔ Rows (visible text) wss := partsTokens_iff

theorem rows_words {text : List Char} {wss : List (List (List Char))} (rows : Rows text wss) :
    ∀ ws ∈ wss, ∀ w ∈ ws, w ≠ [] ∧ ' ' ∉ w ∧ ∀ ch ∈ w, ch ∈ text ∧ ch ≠ '[' ∧ ch ≠ ']' ∧ ch ≠ '>' := by
  have in_row {part : List Char} {ws : List (List Char)} (solid : '>' ∉ part) (row : Row part ws) :
      ∀ w ∈ ws, w ≠ [] ∧ ' ' ∉ w ∧ ∀ ch ∈ w, ch ∈ part ∧ ch ≠ '[' ∧ ch ≠ ']' ∧ ch ≠ '>' := by
    obtain ⟨_, bounded, _, words⟩ := row
    intro w mem
    obtain ⟨some_letter, apart, inside⟩ := words_mem words w mem
    refine ⟨some_letter, apart, fun ch here => ?_⟩
    have letter := inside ch here
    refine ⟨by simp [letter], (bounded ch letter).1, (bounded ch letter).2, ?_⟩
    rintro rfl
    exact solid (by simp [letter])
  induction rows with
  | nothing | ended => simp
  | last solid row =>
    intro ws mem
    rw [List.mem_singleton.mp mem]
    exact in_row solid row
  | more solid row _ ih =>
    intro ws mem w here
    rcases List.mem_cons.mp mem with rfl | later
    · obtain ⟨some_letter, apart, inside⟩ := in_row solid row w here
      exact ⟨some_letter, apart, fun ch letter =>
        ⟨List.mem_append_left _ (inside ch letter).1, (inside ch letter).2⟩⟩
    · obtain ⟨some_letter, apart, inside⟩ := ih ws later w here
      exact ⟨some_letter, apart, fun ch letter =>
        ⟨List.mem_append_right _ (List.mem_cons_of_mem _ (inside ch letter).1),
          (inside ch letter).2⟩⟩

def rowText (ws : List (List Char)) : List Char := '[' :: (spell ' ' ws ++ [']'])

theorem rowText_rows {ws : List (List Char)} (letters : ∀ w ∈ ws, w ≠ [] ∧ ' ' ∉ w ∧ ∀ ch ∈ w,
    (ch ≠ '\n' ∧ ch ≠ '"' ∧ ch ≠ '\r') ∧ ch ≠ '[' ∧ ch ≠ ']' ∧ ch ≠ '>') :
    Rows (visible (rowText ws)) [ws] := by
  have plain : ∀ ch ∈ spell ' ' ws,
      (ch ≠ '\n' ∧ ch ≠ '"' ∧ ch ≠ '\r') ∧ ch ≠ '[' ∧ ch ≠ ']' ∧ ch ≠ '>' := by
    intro ch mem
    rcases mem_spell mem with rfl | ⟨w, here, letter⟩
    · decide
    · exact (letters w here).2.2 ch letter
  have kept : visible (rowText ws) = rowText ws := by
    refine List.filter_eq_self.mpr fun ch mem => ?_
    rw [rowText, List.mem_cons, List.mem_append, List.mem_singleton] at mem
    rcases mem with rfl | letter | rfl
    · decide
    · simp [(plain ch letter).1]
    · decide
  rw [kept]
  refine .last ?_ ?_
  · intro mem
    rw [rowText, List.mem_cons, List.mem_append, List.mem_singleton] at mem
    rcases mem with same | letter | same
    · exact absurd same (by decide)
    · exact (plain '>' letter).2.2.2 rfl
    · exact absurd same (by decide)
  · have words : Words ' ' (spell ' ' ws) ws :=
      words_spell (fun w mem => ⟨(letters w mem).1, (letters w mem).2.1⟩)
    have closed : ∀ ch ∈ [']'].head?, ch = '[' ∨ ch = ']' := by simp
    exact Row.row List.not_mem_nil
      (fun ch mem => ⟨(plain ch mem).2.1, (plain ch mem).2.2.1⟩) closed words

end Grammar

theorem split_point {F : Type} {norms : List F} (some_norm : norms ≠ []) (tenths : Nat)
    (below : tenths < 10) :
    ∃ x, index norms (norms.length * tenths / 10) = .ok x := by
  have positive : 0 < norms.length := List.length_pos_iff.mpr some_norm
  apply index_ok_iff.mpr
  have less : norms.length * tenths ≤ norms.length * 9 := Nat.mul_le_mul_left _ (by omega)
  omega

section Loading
variable {F : Type} [FloatOps F]

theorem partNorms_pushed {fss : List (List F)} :
    partNorms fss ≠ [] ↔ ∃ fs ∈ fss, 255 ≤ fs.length := by
  constructor
  · intro pushed
    obtain ⟨norm, rest, eq⟩ := List.exists_cons_of_ne_nil pushed
    obtain ⟨fs, mem, enough, _⟩ := partNorms_head eq
    exact ⟨fs, mem, enough⟩
  · rintro ⟨fs, mem, enough⟩ none_pushed
    have row := List.flatMap_eq_nil_iff.mp none_pushed fs mem
    rw [normsFrom_full (by omega) (by omega)] at row
    cases row

theorem index_found {A : Type} {s : List A} {i : Nat} {a : A} (done : index s i = .ok a) :
    s[i]? = some a := by
  unfold index at done
  split at done
  · rename_i b found
    cases done
    exact found
  · cases done

section Reading
variable [Profile]

theorem storeFloats_reads {tokens : List (List Char)} {c c' : Connection F} {norms norms' : List F}
    {norm : F} {it : Int} (done : c.storeFloats norms norm it tokens = .ok (c', norms')) :
    ∃ xs, ReadAs (F := F) tokens xs := by
  induction tokens generalizing c norms norm it with
  | nil => exact ⟨[], .nil⟩
  | cons token rest ih =>
    obtain ⟨n, x, _, parsed, _, later⟩ := storeFloats_cons_ok_iff.mp done
    split at later
    · obtain ⟨xs, read⟩ := ih later
      exact ⟨x :: xs, .cons parsed read⟩
    · obtain ⟨xs, read⟩ := ih later
      exact ⟨x :: xs, .cons parsed read⟩

theorem processString_reads {part : List Char} {c c' : Connection F} {norms norms' : List F}
    (done : c.processString part norms = .ok (c', norms')) :
    ∃ tokens xs, partTokens part = some tokens ∧ ReadAs (F := F) tokens xs := by
  obtain ⟨data, opened, later⟩ := bind_ok_iff.mp done
  obtain ⟨array, closed, stored⟩ := bind_ok_iff.mp later
  obtain ⟨xs, read⟩ := storeFloats_reads stored
  refine ⟨_, xs, ?_, read⟩
  unfold partTokens
  rw [index_found opened]
  dsimp only
  rw [index_found closed]

theorem processParts_reads {parts : List (List Char)} {c c' : Connection F} {norms norms' : List F}
    (done : c.processParts norms parts = .ok (c', norms')) :
    ∃ wss fss, partsTokens parts = some wss ∧ PartsRead (F := F) wss fss := by
  induction parts generalizing c norms with
  | nil => exact ⟨[], [], rfl, .nil⟩
  | cons part rest ih =>
    simp only [processParts] at done
    simp only [partsTokens]
    by_cases nothing : part.isEmpty = true
    · rw [if_pos nothing]
      exact ⟨[], [], rfl, .nil⟩
    · rw [if_neg nothing] at done ⊢
      obtain ⟨⟨c1, norms1⟩, first, others⟩ := bind_ok_iff.mp done
      obtain ⟨tokens, xs, found, read⟩ := processString_reads first
      obtain ⟨wss, fss, found', read'⟩ := ih others
      rw [found, found']
      exact ⟨tokens :: wss, xs :: fss, rfl, .cons read read'⟩

end Reading

theorem sortNorms_ok_iff {norms sorted : List F} : sortNorms norms = .ok sorted ↔
    (2 ≤ norms.length → ∀ x ∈ norms, FloatOps.isNaN x = false) ∧
      sorted = norms.insertionSort (fun a b => FloatOps.lt b a = false) := by
  unfold sortNorms
  split
  · rename_i refused
    obtain ⟨two, nan⟩ := refused
    obtain ⟨x, mem, bad⟩ := List.any_eq_true.mp nan
    refine ⟨nofun, fun taken => ?_⟩
    rw [taken.1 two x mem] at bad
    cases bad
  · rename_i taken
    rw [Except.ok.injEq, eq_comm, iff_and_self]
    intro _ two x mem
    by_contra nan
    exact taken ⟨two, List.any_eq_true.mpr ⟨x, mem, by simpa using nan⟩⟩

theorem loaded_rows [Profile] {c c' : Connection F} {text : List Char}
    (done : c.dataSend text = .ok c') :
    ∃ (wss : List (List (List Char))) (fss : List (List F)),
      Rows (visible text) wss ∧ PartsRead wss fss ∧ c'.sendDataVec = floatBytes fss.flatten ∧
      c'.sendDataVec.length ≤ isizeMax ∧ (∃ fs ∈ fss, 255 ≤ fs.length) ∧
      (Profile.overflowChecks = true → ∀ fs ∈ fss, fs.length < 2 ^ 31) ∧
      (2 ≤ (partNorms fss).length → ∀ norm ∈ partNorms fss, FloatOps.isNaN norm = false) := by
  obtain ⟨c1, norms, sorted, low, high, parts, ordered, lower, _, rfl⟩ := dataSend_ok_iff.mp done
  obtain ⟨wss, fss, found, read⟩ := processParts_reads parts
  obtain ⟨counted, fits, same⟩ := (processParts_ok_iff found read (Nat.zero_le _)).mp parts
  simp only [emptied, List.length_nil, List.nil_append, Prod.mk.injEq, Nat.zero_add] at same fits
  obtain ⟨rfl, rfl⟩ := same
  obtain ⟨numbers, rfl⟩ := sortNorms_ok_iff.mp ordered
  refine ⟨wss, fss, tokenParts_iff.mp found, read, rfl, ?_, ?_, ?_, numbers⟩
  · dsimp only
    rw [floatBytes_length]
    exact fits
  · apply partNorms_pushed.mp
    intro none_pushed
    rw [none_pushed] at lower
    cases lower
  · exact fun checks fs mem => counted fs mem checks

/-- `data_send` takes a text exactly if it is a sequence of rows of numbers that fit in memory,
    some row has 255 numbers, no norm is a NaN where there are two to compare and, in a build that
    checks arithmetic, no row has 2^31 numbers. The stream is then the numbers of all the rows,
    four bytes each. -/
theorem text_loads_iff [Profile] (c : Connection F) (text : List Char) (stream : Bytes) :
    (∃ c', c.dataSend text = .ok c' ∧ c'.sendDataVec = stream) ↔
      ∃ (wss : List (List (List Char))) (fss : List (List F)),
        Rows (visible text) wss ∧ PartsRead wss fss ∧ stream = floatBytes fss.flatten ∧
        stream.length ≤ isizeMax ∧ (∃ fs ∈ fss, 255 ≤ fs.length) ∧
        (Profile.overflowChecks = true → ∀ fs ∈ fss, fs.length < 2 ^ 31) ∧
        (2 ≤ (partNorms fss).length → ∀ norm ∈ partNorms fss, FloatOps.isNaN norm = false) := by
  constructor
  · rintro ⟨c', done, rfl⟩
    exact loaded_rows done
  · rintro ⟨wss, fss, rows, read, rfl, fits, row, counted, numbers⟩
    rw [floatBytes_length] at fits
    have parts := parts_stored (tokenParts_iff.mpr rows) read (c := c)
      (fun fs mem checks => counted checks fs mem) fits
    have sorted := sortNorms_ok_iff.mpr ⟨numbers, rfl⟩
    have some_norm : (partNorms fss).insertionSort (fun a b => FloatOps.lt b a = false) ≠ [] := by
      intro nothing
      have length := List.length_insertionSort (fun a b => FloatOps.lt b a = false) (partNorms fss)
      rw [nothing] at length
      exact partNorms_pushed.mpr row (List.length_eq_zero_iff.mp length.symm)
    obtain ⟨low, lower⟩ := split_point some_norm 3 (by omega)
    obtain ⟨high, upper⟩ := split_point some_norm 7 (by omega)
    refine ⟨_, dataSend_ok_iff.mpr ⟨_, _, _, low, high, parts, sorted, lower, upper, rfl⟩, ?_⟩
    rfl

theorem loaded_normed [Profile] {c c' : Connection F} {text : List Char}
    (done : c.dataSend text = .ok c') : c'.norm2Vec ≠ [] := by
  obtain ⟨wss, fss, rows, read, _, _, row, _⟩ := loaded_rows done
  rw [(dataSend_reads (tokenParts_iff.mpr rows) read done).2]
  exact partNorms_pushed.mpr row

theorem loaded_size [Profile] {c c' : Connection F} {text : List Char}
    (done : c.dataSend text = .ok c') : 1020 ≤ c'.sendDataVec.length := by
  obtain ⟨wss, fss, _, _, data, _, ⟨fs, mem, enough⟩, _⟩ := loaded_rows done
  have inside := (List.sublist_flatten_of_mem mem).length_le
  rw [data, floatBytes_length]
  omega

theorem short_text [Profile] {c c' : Connection F} {text : List Char}
    (done : c.dataSend text = .ok c') : ∃ short : List Char, ∀ d : Connection F,
      ∃ d', d.dataSend short = .ok d' ∧ d'.sendDataVec.length = 1020 := by
  obtain ⟨wss, fss, rows, read, _, _, ⟨fs, mem, enough⟩, _⟩ := loaded_rows done
  obtain ⟨i, bound, rfl⟩ := List.mem_iff_getElem.mp mem
  have sizes : wss.length = fss.length := List.Forall₂.length_eq read
  have row : ReadAs wss[i] fss[i] := List.Forall₂.get read (by omega) bound
  have letters := rows_words rows wss[i] (List.getElem_mem (by omega))
  have single : Rows (visible (rowText (wss[i].take 255))) [wss[i].take 255] := by
    apply rowText_rows
    intro w here
    obtain ⟨some_letter, apart, inside⟩ := letters w (List.mem_of_mem_take here)
    refine ⟨some_letter, apart, fun ch letter => ?_⟩
    obtain ⟨shown, bounds⟩ := inside ch letter
    have visible_char := (List.mem_filter.mp shown).2
    exact ⟨by simpa [and_assoc] using visible_char, bounds⟩
  have found := tokenParts_iff.mpr single
  have reads : PartsRead [wss[i].take 255] [fss[i].take 255] :=
    .cons (List.forall₂_take 255 row) .nil
  have width : [fss[i].take 255].flatten.length = 255 := by
    simp only [List.flatten_cons, List.flatten_nil, List.append_nil, List.length_take]
    omega
  have pushed := partNorms_single width List.mem_cons_self (by
    rw [List.length_take]
    omega)
  refine ⟨rowText (wss[i].take 255), fun d => ?_⟩
  obtain ⟨d', loaded⟩ := dataSend_single found reads pushed (by omega) d
  refine ⟨d', loaded, ?_⟩
  rw [(dataSend_reads found reads loaded).1, floatBytes_length, width]

end Loading

end DmludpTextLoading
