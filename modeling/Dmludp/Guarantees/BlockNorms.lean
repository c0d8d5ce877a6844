import Dmludp.Endpoint.ReceiveEffects
import Dmludp.Endpoint.ReferenceInstance

/- The block norms of `data_send`. A part pushes a norm after its 255th float and then after every
   256th, and drops the rest; the stream is cut after every 256 floats, over all parts. The two
   agree on one kind of text only. Floats are opaque: whatever parses, multiplies and adds. -/
namespace DmludpBlockNorms
open ByteCursor RustOutcome DmludpRecovery DmludpConnection DmludpConnection.Connection
open DmludpEffects DmludpReceiveEffects DmludpReference

def partTokens (part : List Char) : Option (List (List Char)) :=
  match (part.splitOn '[')[1]? with
  | none => none
  | some data =>
    match (data.splitOn ']')[0]? with
    | none => none
    | some array => some ((array.splitOn ' ').filter (fun x => !x.isEmpty))

def partsTokens : List (List Char) → Option (List (List (List Char)))
  | [] => some []
  | part :: rest =>
    if part.isEmpty then some []
    else
      match partTokens part, partsTokens rest with
      | some tokens, some later => some (tokens :: later)
      | _, _ => none

def tokenParts (text : List Char) : Option (List (List (List Char))) :=
  partsTokens ((text.filter (fun ch => ch ≠ '\n' && ch ≠ '"' && ch ≠ '\r')).splitOn '>')

variable {F : Type}

section Floats
variable [FloatOps F]

def zeroNorm : F := FloatOps.lit32 0 1

def addSquare (norm x : F) : F := FloatOps.add32 norm (FloatOps.mul32 x x)

def squareSum (xs : List F) : F := xs.foldl addSquare zeroNorm

def floatBytes (xs : List F) : Bytes := xs.flatMap (fun x => List.ofFn (FloatOps.toNeBytes x))

def ReadAs (tokens : List (List Char)) (xs : List F) : Prop :=
  List.Forall₂ (fun token x => FloatOps.parse token = some x) tokens xs

abbrev EndsBlock (n : Nat) : Prop := (counter n).tmod 256 = 255

def normsFrom (norm : F) (it : Nat) : List F → List F
  | [] => []
  | x :: rest =>
    if EndsBlock (it + 1) then addSquare norm x :: normsFrom zeroNorm (it + 1) rest
    else normsFrom (addSquare norm x) (it + 1) rest

def Counted [Profile] (n : Nat) : Prop := Profile.overflowChecks = true → n < 2 ^ 31

theorem counted_of_small [Profile] {n : Nat} (small : n < 2 ^ 31) : Counted n := fun _ => small

theorem floatBytes_length (xs : List F) : (floatBytes xs).length = 4 * xs.length := by
  induction xs with
  | nil => rfl
  | cons x rest ih =>
    simp only [floatBytes] at ih
    simp only [floatBytes, List.flatMap_cons, List.length_append, List.length_ofFn,
      List.length_cons, ih]
    omega

theorem readAs_length {tokens : List (List Char)} {xs : List F} (read : ReadAs tokens xs) :
    xs.length = tokens.length := (List.Forall₂.length_eq read).symm

section Loops
variable [Profile]

theorem storeFloats_ok_iff {tokens : List (List Char)} {xs : List F} (read : ReadAs tokens xs)
    {c : Connection F} {norms : List F} {norm : F} {it : Nat} {r : Connection F × List F}
    (fits : c.sendDataVec.length ≤ isizeMax) (counted : Counted it) :
    c.storeFloats norms norm (counter it) tokens = .ok r ↔
      Counted (it + xs.length) ∧ c.sendDataVec.length + 4 * xs.length ≤ isizeMax ∧
        r = ({ c with
          sendDataVec := c.sendDataVec ++ floatBytes xs
          norm2Vec := c.norm2Vec ++ normsFrom norm it xs }, norms ++ normsFrom norm it xs) := by
  induction read generalizing c norms norm it with
  | nil =>
    rw [storeFloats, Except.ok.injEq, eq_comm]
    simp [floatBytes, normsFrom, fits, counted]
  | @cons token x tokens xs parsed later ih =>
    have width : (c.sendDataVec ++ List.ofFn (FloatOps.toNeBytes x)).length =
        c.sendDataVec.length + 4 := by
      rw [List.length_append, List.length_ofFn]
    have bytes : floatBytes (x :: xs) = List.ofFn (FloatOps.toNeBytes x) ++ floatBytes xs := by
      simp [floatBytes]
    have total : it + 1 + xs.length = it + (x :: xs).length := by
      rw [List.length_cons]
      omega
    have size : c.sendDataVec.length + 4 + 4 * xs.length =
        c.sendDataVec.length + 4 * (x :: xs).length := by
      rw [List.length_cons]
      omega
    rw [storeFloats_cons_ok_iff]
    constructor
    · rintro ⟨n, y, next, parsed', small, rest⟩
      rw [parsed, Option.some.injEq] at parsed'
      subst parsed'
      obtain ⟨counted', rfl⟩ := (counter_step counted).mp next
      have room : (c.sendDataVec ++ List.ofFn (FloatOps.toNeBytes x)).length ≤ isizeMax := by
        rw [width]
        exact small
      by_cases boundary : EndsBlock (it + 1)
      · rw [if_pos boundary] at rest
        obtain ⟨all, space, rfl⟩ := (ih room counted').mp rest
        simp only [width, total, size] at all space
        refine ⟨all, space, ?_⟩
        simp only [normsFrom, if_pos boundary, bytes, List.append_assoc, List.cons_append,
          List.nil_append]
        rfl
      · rw [if_neg boundary] at rest
        obtain ⟨all, space, rfl⟩ := (ih room counted').mp rest
        simp only [width, total, size] at all space
        refine ⟨all, space, ?_⟩
        simp only [normsFrom, if_neg boundary, bytes, List.append_assoc]
        rfl
    · rintro ⟨all, space, rfl⟩
      rw [← total] at all
      rw [← size] at space
      have counted' : Counted (it + 1) := fun checks => Nat.lt_of_le_of_lt (by omega) (all checks)
      have small : c.sendDataVec.length + 4 ≤ isizeMax := by omega
      refine ⟨_, x, (counter_step counted).mpr ⟨counted', rfl⟩, parsed, small, ?_⟩
      by_cases boundary : EndsBlock (it + 1)
      · rw [if_pos boundary]
        refine (ih (by rw [width]; exact small) counted').mpr ⟨all, by rw [width]; exact space, ?_⟩
        simp only [normsFrom, if_pos boundary, bytes, List.append_assoc, List.cons_append,
          List.nil_append]
        rfl
      · rw [if_neg boundary]
        refine (ih (by rw [width]; exact small) counted').mpr ⟨all, by rw [width]; exact space, ?_⟩
        simp only [normsFrom, if_neg boundary, bytes, List.append_assoc]
        rfl

theorem processString_tokens {part : List Char} {tokens : List (List Char)}
    (found : partTokens part = some tokens) (c : Connection F) (norms : List F) :
    c.processString part norms = c.storeFloats norms zeroNorm 0 tokens := by
  unfold partTokens at found
  split at found
  · cases found
  · rename_i data opened
    split at found
    · cases found
    · rename_i array closed
      cases found
      simp only [processString, index, opened, closed, ok_bind]
      rfl

def PartsRead (tss : List (List (List Char))) (fss : List (List F)) : Prop :=
  List.Forall₂ ReadAs tss fss

def partNorms (fss : List (List F)) : List F := fss.flatMap (normsFrom zeroNorm 0)

theorem processParts_ok_iff {parts : List (List Char)} {tss : List (List (List Char))}
    {fss : List (List F)} (found : partsTokens parts = some tss) (read : PartsRead tss fss)
    {c : Connection F} {norms : List F} {r : Connection F × List F}
    (fits : c.sendDataVec.length ≤ isizeMax) :
    c.processParts norms parts = .ok r ↔
      (∀ fs ∈ fss, Counted fs.length) ∧
        c.sendDataVec.length + 4 * fss.flatten.length ≤ isizeMax ∧
        r = ({ c with
          sendDataVec := c.sendDataVec ++ floatBytes fss.flatten
          norm2Vec := c.norm2Vec ++ partNorms fss }, norms ++ partNorms fss) := by
  induction parts generalizing tss fss c norms with
  | nil =>
    cases found
    cases read
    simp [processParts, floatBytes, partNorms, fits, eq_comm]
  | cons part rest ih =>
    simp only [partsTokens] at found
    simp only [processParts]
    by_cases ended : part.isEmpty = true
    · rw [if_pos ended] at found ⊢
      cases found
      cases read
      simp [floatBytes, partNorms, fits, eq_comm]
    · rw [if_neg ended] at found ⊢
      split at found
      · rename_i tokens later first others
        cases found
        cases read with
        | @cons _ fs _ fss readFirst readLater =>
          have none_yet : Counted 0 := counted_of_small (by omega)
          have stored {r : Connection F × List F} :
              c.storeFloats norms zeroNorm (counter 0) tokens = .ok r ↔ _ :=
            storeFloats_ok_iff readFirst fits none_yet
          have width : (c.sendDataVec ++ floatBytes fs).length =
              c.sendDataVec.length + 4 * fs.length := by
            rw [List.length_append, floatBytes_length]
          have total : (fs :: fss).flatten.length = fs.length + fss.flatten.length := by simp
          have bytes : floatBytes (fs :: fss).flatten =
              floatBytes fs ++ floatBytes fss.flatten := List.flatMap_append
          have pushed : partNorms (fs :: fss) = normsFrom zeroNorm 0 fs ++ partNorms fss :=
            List.flatMap_cons
          rw [processString_tokens first, bind_ok_iff, List.forall_mem_cons, bytes, pushed, total]
          constructor
          · rintro ⟨a, done, later⟩
            obtain ⟨here, room, rfl⟩ := stored.mp done
            obtain ⟨others, space, rfl⟩ := (ih others readLater (by
              dsimp only
              rw [width]
              exact room)).mp later
            dsimp only at space
            rw [width] at space
            refine ⟨⟨by simpa using here, others⟩, by omega, ?_⟩
            simp only [List.append_assoc]
          · rintro ⟨⟨here, every⟩, space, rfl⟩
            have room : c.sendDataVec.length + 4 * fs.length ≤ isizeMax := by omega
            refine ⟨_, stored.mpr ⟨by simpa using here, room, rfl⟩, ?_⟩
            refine (ih others readLater (by
              dsimp only
              rw [width]
              exact room)).mpr ⟨every, ?_, ?_⟩
            · dsimp only
              rw [width]
              omega
            · simp only [List.append_assoc]
      · cases found

end Loops

theorem endsBlock_first {n : Nat} (first : n ≤ 255) : EndsBlock n ↔ n = 255 := by
  rw [EndsBlock, counter_small (by omega), Int.tmod_eq_emod_of_nonneg (by omega)]
  omega

theorem normsFrom_short {it : Nat} {xs : List F} (short : it + xs.length < 255) (norm : F) :
    normsFrom norm it xs = [] := by
  induction xs generalizing norm it with
  | nil => rfl
  | cons x rest ih =>
    rw [List.length_cons] at short
    have midway : ¬ EndsBlock (it + 1) := by
      rw [endsBlock_first (by omega)]
      omega
    rw [normsFrom, if_neg midway]
    exact ih (by omega) _

theorem normsFrom_full {it : Nat} {xs : List F} (below : it < 255)
    (enough : 255 ≤ it + xs.length) (norm : F) : normsFrom norm it xs =
      (xs.take (255 - it)).foldl addSquare norm ::
        normsFrom zeroNorm 255 (xs.drop (255 - it)) := by
  induction xs generalizing norm it with
  | nil =>
    rw [List.length_nil] at enough
    omega
  | cons x rest ih =>
    rw [List.length_cons] at enough
    by_cases last : it = 254
    · subst last
      rw [normsFrom, if_pos ((endsBlock_first (by omega)).mpr rfl)]
      rfl
    · have midway : ¬ EndsBlock (it + 1) := by
        rw [endsBlock_first (by omega)]
        omega
      have more : 255 - it = 255 - (it + 1) + 1 := by omega
      rw [normsFrom, if_neg midway, ih (by omega) (by omega), more]
      rfl

theorem partNorms_cons (fs : List F) (fss : List (List F)) :
    partNorms (fs :: fss) = normsFrom zeroNorm 0 fs ++ partNorms fss := List.flatMap_cons

theorem partNorms_head {fss : List (List F)} {norm : F} {rest : List F}
    (pushed : partNorms fss = norm :: rest) :
    ∃ fs ∈ fss, 255 ≤ fs.length ∧ norm = squareSum (fs.take 255) := by
  induction fss with
  | nil => cases pushed
  | cons fs fss ih =>
    rw [partNorms_cons] at pushed
    by_cases enough : 255 ≤ fs.length
    · rw [normsFrom_full (by omega) (by omega)] at pushed
      rw [List.cons_append, List.cons.injEq] at pushed
      exact ⟨fs, by simp, enough, pushed.1.symm⟩
    · rw [normsFrom_short (by omega), List.nil_append] at pushed
      obtain ⟨gs, mem, found⟩ := ih pushed
      exact ⟨gs, List.mem_cons_of_mem _ mem, found⟩

theorem partNorms_empty {fss : List (List F)} (none_left : fss.flatten = []) :
    partNorms fss = [] := by
  induction fss with
  | nil => rfl
  | cons fs fss ih =>
    obtain ⟨first, others⟩ := List.append_eq_nil_iff.mp none_left
    rw [partNorms_cons, ih others, first]
    rfl

theorem partNorms_single {fss : List (List F)} (total : fss.flatten.length = 255)
    {fs : List F} (mem : fs ∈ fss) (whole : fs.length = 255) :
    partNorms fss = [squareSum fss.flatten] := by
  induction fss with
  | nil => cases mem
  | cons gs fss ih =>
    rw [List.flatten_cons, List.length_append] at total
    rcases List.mem_cons.mp mem with same | later
    · subst same
      have others : fss.flatten = [] := List.length_eq_zero_iff.mp (by omega)
      have first : fs.take 255 = fs := List.take_of_length_le (by omega)
      have nothing : fs.drop 255 = [] := List.drop_eq_nil_of_le (by omega)
      rw [partNorms_cons, partNorms_empty others, normsFrom_full (by omega) (by omega),
        List.flatten_cons, others, first, nothing, List.append_nil, List.append_nil]
      rfl
    · have inside : fs.length ≤ fss.flatten.length :=
        (List.sublist_flatten_of_mem later).length_le
      have first : gs = [] := List.length_eq_zero_iff.mp (by omega)
      rw [partNorms_cons, first, List.flatten_cons, List.nil_append, ih (by omega) later]
      rfl

section Send
variable [Profile]

theorem dataSend_reads {text : List Char} {tss : List (List (List Char))} {fss : List (List F)}
    {c c' : Connection F} (found : tokenParts text = some tss) (read : PartsRead tss fss)
    (done : c.dataSend text = .ok c') :
    c'.sendDataVec = floatBytes fss.flatten ∧ c'.norm2Vec = partNorms fss := by
  obtain ⟨c1, norms, _, _, _, parts, _, _, _, rfl⟩ := dataSend_ok_iff.mp done
  obtain ⟨_, _, stored⟩ := (processParts_ok_iff found read (Nat.zero_le _)).mp parts
  rw [Prod.mk.injEq] at stored
  rw [stored.1]
  exact ⟨List.nil_append _, List.nil_append _⟩

theorem parts_stored {parts : List (List Char)} {tss : List (List (List Char))}
    {fss : List (List F)} (found : partsTokens parts = some tss) (read : PartsRead tss fss)
    (counted : ∀ fs ∈ fss, Counted fs.length) (fits : 4 * fss.flatten.length ≤ isizeMax)
    {c : Connection F} : (emptied c).processParts [] parts =
      .ok ({ emptied c with
        sendDataVec := floatBytes fss.flatten
        norm2Vec := partNorms fss }, partNorms fss) := by
  refine (processParts_ok_iff found read (Nat.zero_le _)).mpr ⟨counted, ?_, rfl⟩
  rw [show (emptied c).sendDataVec.length = 0 from rfl, Nat.zero_add]
  exact fits

theorem few_stored {parts : List (List Char)} {tss : List (List (List Char))}
    {fss : List (List F)} (found : partsTokens parts = some tss) (read : PartsRead tss fss)
    (small : fss.flatten.length < 2 ^ 31) {c : Connection F} : (emptied c).processParts [] parts =
      .ok ({ emptied c with
        sendDataVec := floatBytes fss.flatten
        norm2Vec := partNorms fss }, partNorms fss) := by
  refine parts_stored found read (fun fs mem => counted_of_small ?_) ?_
  · exact Nat.lt_of_le_of_lt (List.sublist_flatten_of_mem mem).length_le small
  · rw [isizeMax]
    omega

theorem dataSend_single {text : List Char} {tss : List (List (List Char))} {fss : List (List F)}
    (found : tokenParts text = some tss) (read : PartsRead tss fss) {norm : F}
    (single : partNorms fss = [norm]) (small : fss.flatten.length < 2 ^ 31)
    (c : Connection F) : ∃ c', c.dataSend text = .ok c' := by
  have parts := few_stored found read small (c := c)
  rw [single] at parts
  have sorted : sortNorms [norm] = .ok [norm] := by simp [sortNorms]
  have low : index [norm] ([norm].length * 3 / 10) = .ok norm := by simp [index]
  have high : index [norm] ([norm].length * 7 / 10) = .ok norm := by simp [index]
  exact ⟨_, dataSend_ok_iff.mpr ⟨_, _, _, _, _, parts, sorted, low, high, rfl⟩⟩

/-- One norm for every started block of 256 floats, of just the floats in the block, and a
    priority for every byte. -/
structure NormPerBlock (c : Connection F) (floats : List F) : Prop where
  data : c.sendDataVec = floatBytes floats
  count : c.norm2Vec.length = (c.sendDataVec.length + 1023) / 1024
  sums : ∀ k, k < c.norm2Vec.length →
    c.norm2Vec[k]? = some (squareSum ((floats.drop (256 * k)).take 256))
  priorities : ∀ off, off < c.sendDataVec.length → ∃ p, c.priorityCalculation off = .ok p

end Send

end Floats

/-- `data_send` keeps one norm per block of this text, whatever reads, multiplies and adds the
    floats, and whatever the endpoint held before. -/
def OneNormPerBlock [Profile] (text : List Char) : Prop :=
  ∀ (F : Type) (_ : FloatOps F) (c : Connection F) (tss : List (List (List Char)))
    (fss : List (List F)), tokenParts text = some tss → PartsRead tss fss →
      ∃ c', c.dataSend text = .ok c' ∧ NormPerBlock c' fss.flatten

def OneFullPart (tss : List (List (List Char))) : Prop :=
  tss.flatten.length = 255 ∧ ∃ ts ∈ tss, ts.length = 255

/-- An arithmetic in which a sum of squares counts its terms. -/
@[reducible] def countingFloats : FloatOps Nat where
  lit32 m _ := m.toNat
  lit64 m _ := m.toNat
  add32 a b := a + b
  mul32 _ _ := 1
  add64 a b := a + b
  sub64 a b := a - b
  mul64 a b := a * b
  div64 a b := a / b
  neg64 a := a
  powi64 a n := a ^ n
  lt a b := decide (a < b)
  ne a b := decide (a ≠ b)
  isNaN _ := false
  ofUsize n := n
  toUsize n := n
  parse _ := some 1
  toNeBytes _ _ := 0

theorem counting_squareSum (xs : List Nat) : @squareSum Nat countingFloats xs = xs.length := by
  have counted : ∀ norm, xs.foldl (@addSquare Nat countingFloats) norm = norm + xs.length := by
    induction xs with
    | nil => simp
    | cons x rest ih =>
      intro norm
      have one : @addSquare Nat countingFloats norm x = norm + 1 := rfl
      rw [List.foldl_cons, ih, one, List.length_cons]
      omega
  exact (counted 0).trans (Nat.zero_add _)

theorem counting_reads (tss : List (List (List Char))) :
    @PartsRead Nat countingFloats tss (tss.map (fun ts => ts.map (fun _ => 1))) := by
  unfold PartsRead ReadAs
  rw [List.forall₂_map_right_iff, List.forall₂_same]
  intro ts _
  rw [List.forall₂_map_right_iff, List.forall₂_same]
  intro t _
  rfl

theorem partsRead_sizes [FloatOps F] {tss : List (List (List Char))} {fss : List (List F)}
    (read : PartsRead tss fss) : fss.map List.length = tss.map List.length := by
  induction read with
  | nil => rfl
  | cons first _ ih => rw [List.map_cons, List.map_cons, ih, readAs_length first]

theorem partsRead_total [FloatOps F] {tss : List (List (List Char))} {fss : List (List F)}
    (read : PartsRead tss fss) : fss.flatten.length = tss.flatten.length := by
  rw [List.length_flatten, List.length_flatten, partsRead_sizes read]

section Norms
variable [Profile]

theorem full_part_of_norms {text : List Char} {tss : List (List (List Char))}
    (found : tokenParts text = some tss) (some_floats : 1 ≤ tss.flatten.length)
    (every : OneNormPerBlock text) : OneFullPart tss := by
  have read := counting_reads tss
  obtain ⟨c', loaded, _, count, sums, _⟩ := every Nat countingFloats
    (@Connection.accept Nat countingFloats loopback loopback 0) tss _ found read
  obtain ⟨bytes, norms⟩ := @dataSend_reads Nat countingFloats _ _ _ _ _ _ found read loaded
  have total := @partsRead_total Nat countingFloats _ _ read
  rw [bytes, @floatBytes_length Nat countingFloats, total] at count
  have first := sums 0 (by omega)
  cases pushed : c'.norm2Vec with
  | nil =>
    rw [pushed, List.length_nil] at count
    omega
  | cons norm rest =>
    rw [pushed] at first norms
    obtain ⟨fs, mem, enough, cover⟩ := @partNorms_head Nat countingFloats _ _ _ norms.symm
    rw [counting_squareSum, List.length_take] at cover
    simp only [List.getElem?_cons_zero, Option.some.injEq] at first
    rw [counting_squareSum, List.length_take, List.length_drop, total] at first
    have inside : fs.length ≤ tss.flatten.length := by
      rw [← total]
      exact (List.sublist_flatten_of_mem mem).length_le
    have whole : fs.length ∈ tss.map List.length := by
      rw [← @partsRead_sizes Nat countingFloats _ _ read]
      exact List.mem_map_of_mem mem
    obtain ⟨ts, here, same⟩ := List.mem_map.mp whole
    exact ⟨by omega, ts, here, by omega⟩

theorem norms_of_full_part {text : List Char} {tss : List (List (List Char))}
    (found : tokenParts text = some tss) (full : OneFullPart tss) : OneNormPerBlock text := by
  obtain ⟨total, ts, here, whole⟩ := full
  intro F ops c tss' fss found' read
  rw [found, Option.some.injEq] at found'
  subst found'
  have count : fss.flatten.length = 255 := (partsRead_total read).trans total
  have size : ts.length ∈ fss.map List.length := by
    rw [partsRead_sizes read]
    exact List.mem_map_of_mem here
  obtain ⟨fs, mem, same⟩ := List.mem_map.mp size
  have single := partNorms_single count mem (same.trans whole)
  obtain ⟨c', loaded⟩ := dataSend_single found read single (by omega) c
  obtain ⟨bytes, norms⟩ := dataSend_reads found read loaded
  rw [single] at norms
  have width : c'.sendDataVec.length = 1020 := by
    rw [bytes, floatBytes_length, count]
  refine ⟨c', loaded, bytes, by rw [norms, width]; rfl, ?_, ?_⟩
  · intro k inside
    rw [norms, List.length_singleton] at inside
    have zero : k = 0 := by omega
    subst zero
    have block : (fss.flatten.drop (256 * 0)).take 256 = fss.flatten := by
      rw [Nat.mul_zero, List.drop_zero]
      exact List.take_of_length_le (by omega)
    rw [norms, block]
    rfl
  · intro off inside
    apply priorityCalculation_ok_iff.mpr
    rw [norms, List.length_singleton]
    omega

theorem one_norm_per_block_iff {text : List Char} {tss : List (List (List Char))}
    (found : tokenParts text = some tss) (some_floats : 1 ≤ tss.flatten.length) :
    OneNormPerBlock text ↔ OneFullPart tss :=
  ⟨full_part_of_norms found some_floats, norms_of_full_part found⟩

end Norms

theorem full_part_text : @OneNormPerBlock checkedBuild (onesText 255) := by
  have found : tokenParts (onesText 255) = some [List.replicate 255 ['1']] := by decide +kernel
  have total : [List.replicate 255 ['1']].flatten.length = 255 := by decide +kernel
  have whole : (List.replicate 255 ['1']).length = 255 := List.length_replicate
  exact (@one_norm_per_block_iff checkedBuild _ _ found (by omega)).mpr
    ⟨total, _, List.mem_cons_self, whole⟩

/-- One float: no norm, and `data_send` panics. 256 floats: the norm misses the last of them. -/
theorem short_and_long_parts_miscounted :
    (@dataSend ℚ checkedBuild rationalFloats freshServer (onesText 1) = .error .index) ∧
    (∃ c', @dataSend ℚ checkedBuild rationalFloats freshServer (onesText 256) = .ok c' ∧
      c'.sendDataVec.length = 1024 ∧ c'.norm2Vec = [255]) ∧
    ¬ @OneNormPerBlock checkedBuild (onesText 1) ∧
    ¬ @OneNormPerBlock checkedBuild (onesText 256) := by
  refine ⟨?_, ?_, ?_, ?_⟩
  · have panics : (match @dataSend ℚ checkedBuild rationalFloats freshServer (onesText 1) with
        | .error .index => true
        | _ => false) = true := by decide +kernel
    split at panics
    · assumption
    · cases panics
  · have loads : (match @dataSend ℚ checkedBuild rationalFloats freshServer (onesText 256) with
        | .ok c' => decide (c'.sendDataVec.length = 1024) && decide (c'.norm2Vec = [255])
        | .error _ => false) = true := by decide +kernel
    split at loads
    · rename_i c' loaded
      simp only [Bool.and_eq_true, decide_eq_true_eq] at loads
      exact ⟨c', loaded, loads.1, loads.2⟩
    · cases loads
  · intro every
    have found : tokenParts (onesText 1) = some [[['1']]] := by decide +kernel
    exact absurd (@full_part_of_norms checkedBuild _ _ found (by decide) every).1 (by decide)
  · intro every
    have found : tokenParts (onesText 256) = some [List.replicate 256 ['1']] := by decide +kernel
    have total : [List.replicate 256 ['1']].flatten.length = 256 := by decide +kernel
    have whole := (@full_part_of_norms checkedBuild _ _ found (by omega) every).1
    omega

end DmludpBlockNorms
