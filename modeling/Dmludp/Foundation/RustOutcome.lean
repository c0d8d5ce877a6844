import Mathlib.Algebra.Order.Ring.Nat
import Mathlib.Data.List.Basic
import Mathlib.Tactic.Common

/- Outcomes of Rust code on machine words. A panic ends the call and discards its state;
   a returned error is ordinary data and keeps the state the code had reached.
   Words are Nat values below 2^64 with the build profile deciding what an overflow does. -/
namespace RustOutcome

inductive Panic where
  | index
  | unwrap
  | overflow
  | assertion
  | capacity
  deriving DecidableEq, Repr

abbrev Rs (α : Type) : Type := Except Panic α

/-- The cargo profile: a dev build checks arithmetic, a release build wraps it. -/
class Profile where
  overflowChecks : Bool

def wordSize : Nat := 2 ^ 64

/-- No Rust allocation or slice is longer than this many bytes. -/
def isizeMax : Nat := 2 ^ 63 - 1

structure Slice where
  bytes : List UInt8
  fits : bytes.length ≤ isizeMax

theorem word_of_size {n : Nat} (fits : n ≤ isizeMax) : (UInt64.ofNat n).toNat = n := by
  simp only [isizeMax] at fits
  rw [UInt64.toNat_ofNat']
  omega

section Words
variable [Profile]

def addWord (a b : Nat) : Rs Nat :=
  if a + b < wordSize then .ok (a + b)
  else if Profile.overflowChecks then .error .overflow
  else .ok ((a + b) % wordSize)

def subWord (a b : Nat) : Rs Nat :=
  if b ≤ a then .ok (a - b)
  else if Profile.overflowChecks then .error .overflow
  else .ok ((a + wordSize - b) % wordSize)

def mulWord (a b : Nat) : Rs Nat :=
  if a * b < wordSize then .ok (a * b)
  else if Profile.overflowChecks then .error .overflow
  else .ok (a * b % wordSize)

def addI32 (a b : Int) : Rs Int :=
  if -2 ^ 31 ≤ a + b ∧ a + b < 2 ^ 31 then .ok (a + b)
  else if Profile.overflowChecks then .error .overflow
  else .ok ((a + b).bmod (2 ^ 32))

theorem addWord_fits {a b : Nat} (fits : a + b < wordSize) : addWord a b = .ok (a + b) := by
  simp [addWord, fits]

theorem subWord_fits {a b : Nat} (fits : b ≤ a) : subWord a b = .ok (a - b) := by
  simp [subWord, fits]

theorem addWord_zero {a : Nat} (word : a < wordSize) : addWord a 0 = .ok a := by
  simp [addWord, word]

theorem addWord_mod {a b n : Nat} (done : addWord a b = .ok n) : n = (a + b) % wordSize := by
  unfold addWord at done
  split at done
  · rename_i fits
    cases done
    exact (Nat.mod_eq_of_lt fits).symm
  · split at done
    · cases done
    · cases done
      rfl

theorem addWord_ok_iff {a b : Nat} :
    (∃ n, addWord a b = .ok n) ↔ (Profile.overflowChecks = true → a + b < wordSize) := by
  by_cases fits : a + b < wordSize
  · simp [addWord_fits fits, fits]
  · cases checks : (Profile.overflowChecks : Bool) with
    | true => simp [addWord, fits, checks]
    | false => simp [addWord, fits, checks]

theorem addWord_checked (checks : Profile.overflowChecks = true) {a b n : Nat}
    (done : addWord a b = .ok n) : n = a + b := by
  unfold addWord at done
  split at done
  · cases done
    rfl
  · cases done

theorem mulWord_checked (checks : Profile.overflowChecks = true) {a b n : Nat}
    (done : mulWord a b = .ok n) : n = a * b := by
  unfold mulWord at done
  split at done
  · cases done
    rfl
  · cases done

theorem subWord_zero (a : Nat) : subWord a 0 = .ok a := by
  simp [subWord]

theorem subWord_wraps (wraps : Profile.overflowChecks = false) (a b : Nat) :
    ∃ n, subWord a b = .ok n := by
  unfold subWord
  split
  · exact ⟨_, rfl⟩
  · simp [wraps]

theorem subWord_ok_iff {a b : Nat} :
    (∃ n, subWord a b = .ok n) ↔ (Profile.overflowChecks = true → b ≤ a) := by
  by_cases fits : b ≤ a
  · simp [subWord_fits fits, fits]
  · cases checks : (Profile.overflowChecks : Bool) with
    | true => simp [subWord, fits, checks]
    | false => simp [subWord, fits, checks]

end Words

theorem i32_exact {a : Int} (low : -2 ^ 31 ≤ a) (high : a < 2 ^ 31) : a.bmod (2 ^ 32) = a := by
  apply Int.bmod_eq_of_le_mul_two <;> push_cast <;> omega

def counter (n : Nat) : Int := (n : Int).bmod (2 ^ 32)

theorem counter_small {n : Nat} (small : n < 2 ^ 31) : counter n = n :=
  i32_exact (by omega) (by omega)

/-- Counting goes on for 2^31 - 1 steps, and in a release build for ever. -/
theorem counter_step [Profile] {k : Nat} (counted : Profile.overflowChecks = true → k < 2 ^ 31)
    {n : Int} : addI32 (counter k) 1 = .ok n ↔
      (Profile.overflowChecks = true → k + 1 < 2 ^ 31) ∧ counter (k + 1) = n := by
  have next : counter (k + 1) = (counter k + 1).bmod (2 ^ 32) := by
    unfold counter
    rw [Int.bmod_add_bmod]
    rfl
  by_cases fits : -2 ^ 31 ≤ counter k + 1 ∧ counter k + 1 < 2 ^ 31
  · have counted' : Profile.overflowChecks = true → k + 1 < 2 ^ 31 := by
      intro checks
      rw [counter_small (counted checks)] at fits
      omega
    rw [addI32, if_pos fits, next, i32_exact fits.1 fits.2, Except.ok.injEq,
      and_iff_right counted']
  · rw [addI32, if_neg fits]
    cases checks : (Profile.overflowChecks : Bool) with
    | true =>
      have last : ¬ k + 1 < 2 ^ 31 := by
        rw [counter_small (counted checks)] at fits
        omega
      rw [if_pos rfl]
      exact iff_of_false nofun fun counts => last (counts.1 rfl)
    | false =>
      rw [if_neg Bool.false_ne_true, Except.ok.injEq, next, and_iff_right nofun]

theorem bind_ok_iff {α β : Type} {x : Rs α} {f : α → Rs β} {r : β} :
    x >>= f = .ok r ↔ ∃ a, x = .ok a ∧ f a = .ok r := by
  cases x with
  | error p => simp [bind, Except.bind]
  | ok a => simp [bind, Except.bind]

theorem ok_bind {α β : Type} (a : α) (f : α → Rs β) : (Except.ok a : Rs α) >>= f = f a := rfl

theorem error_bind {α β : Type} (p : Panic) (f : α → Rs β) :
    (Except.error p : Rs α) >>= f = .error p := rfl

theorem addWord_addWord [Profile] (a b c : Nat) :
    (addWord a b >>= fun n => addWord n c) = addWord a (b + c) := by
  by_cases fits : a + b < wordSize
  · rw [addWord_fits fits, ok_bind]
    simp only [addWord, Nat.add_assoc]
  · have beyond : ¬ a + (b + c) < wordSize := by omega
    cases checks : (Profile.overflowChecks : Bool) with
    | true => simp [addWord, fits, beyond, checks, error_bind]
    | false =>
      simp only [addWord, fits, beyond, checks, Bool.false_eq_true, ↓reduceIte, ok_bind]
      have wrapped : ((a + b) % wordSize + c) % wordSize = (a + (b + c)) % wordSize := by
        rw [Nat.mod_add_mod, Nat.add_assoc]
      split
      · rename_i small
        rw [← wrapped, Nat.mod_eq_of_lt small]
      · rw [wrapped]

section Slices
variable {α : Type}

def slice (s : List α) (lo hi : Nat) : Rs (List α) :=
  if lo ≤ hi ∧ hi ≤ s.length then .ok ((s.drop lo).take (hi - lo)) else .error .index

def sliceFrom (s : List α) (lo : Nat) : Rs (List α) :=
  if lo ≤ s.length then .ok (s.drop lo) else .error .index

def index (s : List α) (i : Nat) : Rs α :=
  match s[i]? with
  | some a => .ok a
  | none => .error .index

/-- `slice::chunks(n)`. The fuel is the length of the slice. -/
def chunksFuel (n : Nat) : Nat → List α → List (List α)
  | 0, _ => []
  | _ + 1, [] => []
  | fuel + 1, s => s.take n :: chunksFuel n fuel (s.drop n)

def chunks (n : Nat) (s : List α) : List (List α) := chunksFuel n s.length s

theorem slice_fits {s : List α} {lo hi : Nat} (order : lo ≤ hi) (inside : hi ≤ s.length) :
    slice s lo hi = .ok ((s.drop lo).take (hi - lo)) := by
  simp [slice, order, inside]

theorem sliceFrom_fits {s : List α} {lo : Nat} (inside : lo ≤ s.length) :
    sliceFrom s lo = .ok (s.drop lo) := by
  simp [sliceFrom, inside]

theorem index_ok_iff {s : List α} {i : Nat} : (∃ a, index s i = .ok a) ↔ i < s.length := by
  unfold index
  cases h : s[i]? with
  | none => simpa using h
  | some a =>
    obtain ⟨inside, _⟩ := List.getElem?_eq_some_iff.mp h
    simp [inside]

theorem index_inside {s : List α} {i : Nat} (inside : i < s.length) :
    index s i = .ok s[i] := by
  simp [index, inside]

theorem chunksFuel_flatten {n : Nat} (positive : 0 < n) (fuel : Nat) (s : List α)
    (enough : s.length ≤ fuel) : (chunksFuel n fuel s).flatten = s := by
  induction fuel generalizing s with
  | zero =>
    have empty : s = [] := List.length_eq_zero_iff.mp (by omega)
    simp [chunksFuel, empty]
  | succ fuel ih =>
    cases s with
    | nil => simp [chunksFuel]
    | cons a s =>
      have shorter : ((a :: s).drop n).length ≤ fuel := by
        simp only [List.length_drop, List.length_cons] at enough ⊢
        omega
      simp only [chunksFuel, List.flatten_cons, ih _ shorter, List.take_append_drop]

theorem chunks_flatten {n : Nat} (positive : 0 < n) (s : List α) :
    (chunks n s).flatten = s :=
  chunksFuel_flatten positive s.length s (Nat.le_refl _)

theorem mem_chunksFuel {n : Nat} (positive : 0 < n) (fuel : Nat) {s c : List α}
    (mem : c ∈ chunksFuel n fuel s) : 0 < c.length ∧ c.length ≤ n := by
  induction fuel generalizing s with
  | zero => simp [chunksFuel] at mem
  | succ fuel ih =>
    cases s with
    | nil => simp [chunksFuel] at mem
    | cons a s =>
      rcases List.mem_cons.mp mem with same | later
      · rw [same, List.length_take, List.length_cons]
        omega
      · exact ih later

theorem mem_chunks {n : Nat} (positive : 0 < n) {s c : List α} (mem : c ∈ chunks n s) :
    0 < c.length ∧ c.length ≤ n :=
  mem_chunksFuel positive s.length mem

end Slices

end RustOutcome
