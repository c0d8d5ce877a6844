import Mathlib.Algebra.Order.Ring.Nat
import Mathlib.Data.Nat.ModEq
import Mathlib.Tactic.Common

/- Big-endian words and a cursor over a byte slice, with the interface of a cursor crate that
   is linked in but not part of the verified source. Its operations are a parameter; the
   equations of the class are its documented behaviour: each access moves the cursor by its
   width and fails, changing nothing, exactly when too few bytes remain. -/
namespace ByteCursor

abbrev Bytes : Type := List UInt8

def bigEndian : Nat → Nat → Bytes
  | 0, _ => []
  | width + 1, n => UInt8.ofNat (n / 256 ^ width) :: bigEndian width n

def bigEndianValue : Bytes → Nat
  | [] => 0
  | b :: rest => b.toNat * 256 ^ rest.length + bigEndianValue rest

def u64Bytes (x : UInt64) : Bytes := bigEndian 8 x.toNat

def u64Value (bs : Bytes) : UInt64 := UInt64.ofNat (bigEndianValue bs)

@[simp] theorem bigEndian_length (width n : Nat) : (bigEndian width n).length = width := by
  induction width with
  | zero => rfl
  | succ width ih => simp [bigEndian, ih]

theorem value_bigEndian (width n : Nat) :
    bigEndianValue (bigEndian width n) = n % 256 ^ width := by
  induction width with
  | zero => simp [bigEndian, bigEndianValue, Nat.mod_one]
  | succ width ih =>
    have byte : (UInt8.ofNat (n / 256 ^ width)).toNat = n / 256 ^ width % 256 := by
      simp [UInt8.toNat_ofNat']
    rw [bigEndian, bigEndianValue, bigEndian_length, ih, byte, Nat.mod_pow_succ, Nat.mul_comm,
      Nat.add_comm]

theorem value_bound (bs : Bytes) : bigEndianValue bs < 256 ^ bs.length := by
  induction bs with
  | nil => simp [bigEndianValue]
  | cons b rest ih =>
    have byte : b.toNat + 1 ≤ 256 := b.toNat_lt
    have scaled := Nat.mul_le_mul_right (256 ^ rest.length) byte
    simp only [bigEndianValue, List.length_cons, Nat.pow_succ]
    rw [Nat.add_mul] at scaled
    omega

theorem bigEndian_add_multiple (width k n : Nat) :
    bigEndian width (k * 256 ^ width + n) = bigEndian width n := by
  induction width generalizing k with
  | zero => rfl
  | succ width ih =>
    have split : k * 256 ^ (width + 1) + n = (k * 256) * 256 ^ width + n := by
      rw [Nat.pow_succ, Nat.mul_comm (256 ^ width), Nat.mul_assoc]
    have positive : 0 < 256 ^ width := Nat.pow_pos (by decide)
    simp only [bigEndian, split, ih]
    congr 1
    rw [Nat.mul_comm, Nat.mul_add_div positive]
    apply UInt8.toNat_inj.mp
    simp only [UInt8.toNat_ofNat']
    omega

theorem bigEndian_value (bs : Bytes) : bigEndian bs.length (bigEndianValue bs) = bs := by
  induction bs with
  | nil => rfl
  | cons b rest ih =>
    have bound := value_bound rest
    have positive : 0 < 256 ^ rest.length := Nat.pow_pos (by decide)
    simp only [List.length_cons, bigEndian, bigEndianValue, bigEndian_add_multiple, ih]
    rw [Nat.mul_comm, Nat.mul_add_div positive, Nat.div_eq_of_lt bound]
    simp

@[simp] theorem u64Bytes_length (x : UInt64) : (u64Bytes x).length = 8 := by
  simp [u64Bytes]

@[simp] theorem u64Value_bytes (x : UInt64) : u64Value (u64Bytes x) = x := by
  have bound : x.toNat < 256 ^ 8 := x.toNat_lt
  simp only [u64Value, u64Bytes, value_bigEndian, Nat.mod_eq_of_lt bound, UInt64.ofNat_toNat]

theorem u64Bytes_value {bs : Bytes} (width : bs.length = 8) : u64Bytes (u64Value bs) = bs := by
  have bound : bigEndianValue bs < 2 ^ 64 := by
    have h := value_bound bs
    rw [width] at h
    exact h
  have back := bigEndian_value bs
  rw [width] at back
  simpa only [u64Bytes, u64Value, UInt64.toNat_ofNat', Nat.mod_eq_of_lt bound] using back

def pairBytes (p : UInt64 × UInt64) : Bytes := u64Bytes p.1 ++ u64Bytes p.2

@[simp] theorem pairBytes_length (p : UInt64 × UInt64) : (pairBytes p).length = 16 := by
  simp [pairBytes]

theorem pairBytes_onto {bs : Bytes} (width : bs.length = 16) : ∃ p, pairBytes p = bs := by
  have low : (bs.take 8).length = 8 := by
    simp only [List.length_take]
    omega
  have high : (bs.drop 8).length = 8 := by
    simp only [List.length_drop]
    omega
  refine ⟨(u64Value (bs.take 8), u64Value (bs.drop 8)), ?_⟩
  simp only [pairBytes, u64Bytes_value low, u64Bytes_value high, List.take_append_drop]

theorem records_and_tail {R : Type} (encode : R → Bytes) {width : Nat} (positive : 0 < width)
    (onto : ∀ bs : Bytes, bs.length = width → ∃ r, encode r = bs) (bs : Bytes) :
    ∃ (rs : List R) (tail : Bytes), bs = rs.flatMap encode ++ tail ∧ tail.length < width := by
  induction h : bs.length using Nat.strongRecOn generalizing bs with
  | ind k ih =>
    by_cases short : bs.length < width
    · exact ⟨[], bs, by simp, short⟩
    · have shorter : (bs.drop width).length < k := by
        simp only [List.length_drop]
        omega
      obtain ⟨rs, tail, eq, bound⟩ := ih _ shorter (bs.drop width) rfl
      have front : (bs.take width).length = width := by
        simp only [List.length_take]
        omega
      obtain ⟨r, first⟩ := onto _ front
      refine ⟨r :: rs, tail, ?_, bound⟩
      rw [List.flatMap_cons, first, List.append_assoc, ← eq, List.take_append_drop]

theorem words_and_tail (bs : Bytes) :
    ∃ (ws : List UInt64) (tail : Bytes), bs = ws.flatMap u64Bytes ++ tail ∧ tail.length < 8 :=
  records_and_tail u64Bytes (by decide) (fun _ width => ⟨_, u64Bytes_value width⟩) bs

theorem pairs_and_tail (bs : Bytes) :
    ∃ (ps : List (UInt64 × UInt64)) (tail : Bytes),
      bs = ps.flatMap pairBytes ++ tail ∧ tail.length < 16 :=
  records_and_tail pairBytes (by decide) (fun _ width => pairBytes_onto width) bs

theorem records_length {R : Type} {encode : R → Bytes} {width : Nat}
    (fixed : ∀ r, (encode r).length = width) (rs : List R) :
    (rs.flatMap encode).length = width * rs.length := by
  induction rs with
  | nil => rfl
  | cons r rs ih =>
    rw [List.flatMap_cons, List.length_append, fixed, ih, List.length_cons, Nat.mul_add,
      Nat.mul_one, Nat.add_comm]

/-- Records of one width that differ can be told apart in a run of them. -/
theorem records_unique {R : Type} {encode : R → Bytes} {width : Nat} (positive : 0 < width)
    (fixed : ∀ r, (encode r).length = width) (once : Function.Injective encode) {rs ss : List R}
    (same : rs.flatMap encode = ss.flatMap encode) : rs = ss := by
  induction rs generalizing ss with
  | nil =>
    cases ss with
    | nil => rfl
    | cons s ss =>
      have sizes := congrArg List.length same
      simp [fixed] at sizes
      omega
  | cons r rs ih =>
    cases ss with
    | nil =>
      have sizes := congrArg List.length same
      simp [fixed] at sizes
      omega
    | cons s ss =>
      rw [List.flatMap_cons, List.flatMap_cons] at same
      obtain ⟨first, later⟩ := List.append_inj same ((fixed r).trans (fixed s).symm)
      rw [once first, ih later]

theorem u64Bytes_injective : Function.Injective u64Bytes :=
  Function.LeftInverse.injective (g := u64Value) u64Value_bytes

theorem pairBytes_injective : Function.Injective pairBytes := by
  rintro ⟨a, b⟩ ⟨c, d⟩ same
  have sizes : (u64Bytes a).length = (u64Bytes c).length := by
    rw [u64Bytes_length, u64Bytes_length]
  obtain ⟨left, right⟩ := List.append_inj same sizes
  exact Prod.ext (u64Bytes_injective left) (u64Bytes_injective right)

@[simp] theorem words_length (ws : List UInt64) : (ws.flatMap u64Bytes).length = 8 * ws.length :=
  records_length u64Bytes_length ws

@[simp] theorem pairs_length (ps : List (UInt64 × UInt64)) :
    (ps.flatMap pairBytes).length = 16 * ps.length :=
  records_length pairBytes_length ps

def splice (buf : Bytes) (at_ : Nat) (bs : Bytes) : Bytes :=
  buf.take at_ ++ bs ++ buf.drop (at_ + bs.length)

theorem splice_length {buf bs : Bytes} {at_ : Nat} (fits : at_ + bs.length ≤ buf.length) :
    (splice buf at_ bs).length = buf.length := by
  simp only [splice, List.length_append, List.length_take, List.length_drop]
  omega

theorem splice_nil {buf : Bytes} {at_ : Nat} : splice buf at_ [] = buf := by
  simp [splice]

theorem splice_splice {buf xs ys : Bytes} {at_ : Nat}
    (fits : at_ + xs.length + ys.length ≤ buf.length) :
    splice (splice buf at_ xs) (at_ + xs.length) ys = splice buf at_ (xs ++ ys) := by
  have width : (buf.take at_ ++ xs).length = at_ + xs.length := by
    simp only [List.length_append, List.length_take]
    omega
  have front : (buf.take at_ ++ xs ++ buf.drop (at_ + xs.length)).take (at_ + xs.length) =
      buf.take at_ ++ xs := by
    rw [← width, List.take_left]
  have back : (buf.take at_ ++ xs ++ buf.drop (at_ + xs.length)).drop
      (at_ + xs.length + ys.length) = buf.drop (at_ + (xs.length + ys.length)) := by
    rw [List.drop_append, List.drop_eq_nil_of_le (by omega), List.nil_append, width,
      Nat.add_sub_cancel_left, List.drop_drop, Nat.add_assoc]
  unfold splice
  rw [front, back, List.length_append]
  simp only [List.append_assoc]

structure OctetsMut where
  buf : Bytes
  off : Nat
  deriving DecidableEq, Repr

def withSlice (buf : Bytes) : OctetsMut := ⟨buf, 0⟩

def OctetsMut.cap (b : OctetsMut) : Nat := b.buf.length - b.off

structure BufferTooShortError where
  deriving DecidableEq, Repr

/-- A cursor operation: the error case keeps the cursor it failed at. -/
abbrev Cursor (α : Type) : Type := ExceptT BufferTooShortError (StateM OctetsMut) α

class Octets where
  getU8 : Cursor UInt8
  getU64 : Cursor UInt64
  putU8 : UInt8 → Cursor Unit
  putU64 : UInt64 → Cursor Unit
  getU8_eq : ∀ b : OctetsMut, getU8 b =
    if h : b.off < b.buf.length then (.ok b.buf[b.off], ⟨b.buf, b.off + 1⟩)
    else (.error ⟨⟩, b)
  getU64_eq : ∀ b : OctetsMut, getU64 b =
    if b.off + 8 ≤ b.buf.length then
      (.ok (u64Value ((b.buf.drop b.off).take 8)), ⟨b.buf, b.off + 8⟩)
    else (.error ⟨⟩, b)
  putU8_eq : ∀ (x : UInt8) (b : OctetsMut), putU8 x b =
    if b.off + 1 ≤ b.buf.length then (.ok (), ⟨splice b.buf b.off [x], b.off + 1⟩)
    else (.error ⟨⟩, b)
  putU64_eq : ∀ (x : UInt64) (b : OctetsMut), putU64 x b =
    if b.off + 8 ≤ b.buf.length then (.ok (), ⟨splice b.buf b.off (u64Bytes x), b.off + 8⟩)
    else (.error ⟨⟩, b)

/-- The class is inhabited by the functions its equations describe. -/
@[reducible] def referenceOctets : Octets where
  getU8 := fun b =>
    if h : b.off < b.buf.length then (.ok b.buf[b.off], ⟨b.buf, b.off + 1⟩)
    else (.error ⟨⟩, b)
  getU64 := fun b =>
    if b.off + 8 ≤ b.buf.length then
      (.ok (u64Value ((b.buf.drop b.off).take 8)), ⟨b.buf, b.off + 8⟩)
    else (.error ⟨⟩, b)
  putU8 := fun x b =>
    if b.off + 1 ≤ b.buf.length then (.ok (), ⟨splice b.buf b.off [x], b.off + 1⟩)
    else (.error ⟨⟩, b)
  putU64 := fun x b =>
    if b.off + 8 ≤ b.buf.length then (.ok (), ⟨splice b.buf b.off (u64Bytes x), b.off + 8⟩)
    else (.error ⟨⟩, b)
  getU8_eq := fun _ => rfl
  getU64_eq := fun _ => rfl
  putU8_eq := fun _ _ => rfl
  putU64_eq := fun _ _ => rfl

/-- From a cursor inside its slice `w` writes exactly `bs`, or fails for lack of room. -/
def Writes (w : Cursor Unit) (bs : Bytes) : Prop :=
  ∀ b : OctetsMut, b.off ≤ b.buf.length →
    (b.off + bs.length ≤ b.buf.length →
      w b = (.ok (), ⟨splice b.buf b.off bs, b.off + bs.length⟩)) ∧
    (b.buf.length < b.off + bs.length →
      ∃ b', w b = (.error ⟨⟩, b') ∧ b'.buf.length = b.buf.length)

theorem writes_pure : Writes (pure ()) [] := by
  intro b inside
  constructor
  · intro fits
    simp only [splice_nil, List.length_nil, Nat.add_zero]
    rfl
  · intro short
    simp only [List.length_nil] at short
    omega

theorem cursor_bind_ok {α β : Type} {w : Cursor α} {f : α → Cursor β} {b b' : OctetsMut} {a : α}
    (first : w b = (.ok a, b')) : (w >>= f) b = f a b' := by
  change (ExceptT.bindCont f (w b).1) (w b).2 = _
  rw [first]
  rfl

theorem cursor_bind_error {α β : Type} {w : Cursor α} {f : α → Cursor β} {b b' : OctetsMut}
    {e : BufferTooShortError} (first : w b = (.error e, b')) :
    (w >>= f) b = (.error e, b') := by
  change (ExceptT.bindCont f (w b).1) (w b).2 = _
  rw [first]
  rfl

theorem writes_bind {w : Cursor Unit} {f : Unit → Cursor Unit} {xs ys : Bytes}
    (first : Writes w xs) (second : Writes (f ()) ys) : Writes (w >>= f) (xs ++ ys) := by
  intro b inside
  obtain ⟨room, noRoom⟩ := first b inside
  by_cases fits : b.off + xs.length ≤ b.buf.length
  · have here := room fits
    have kept : (splice b.buf b.off xs).length = b.buf.length := splice_length fits
    obtain ⟨room', noRoom'⟩ := second ⟨splice b.buf b.off xs, b.off + xs.length⟩ (by simpa [kept])
    simp only [kept] at room' noRoom'
    rw [cursor_bind_ok here, List.length_append]
    constructor
    · intro total
      rw [room' (by omega), splice_splice (by omega), Nat.add_assoc]
    · intro short
      exact noRoom' (by omega)
  · obtain ⟨b', failed, kept⟩ := noRoom (by omega)
    rw [List.length_append]
    constructor
    · intro total
      omega
    · intro short
      exact ⟨b', cursor_bind_error failed, kept⟩

theorem writes_from_start {w : Cursor Unit} {bs out : Bytes} (writes : Writes w bs)
    (fits : bs.length ≤ out.length) :
    w (withSlice out) = (.ok (), ⟨bs ++ out.drop bs.length, bs.length⟩) := by
  have done := (writes (withSlice out) (Nat.zero_le _)).1 (by simpa [withSlice] using fits)
  simpa [withSlice, splice] using done

theorem writes_too_short {w : Cursor Unit} {bs out : Bytes} (writes : Writes w bs)
    (short : out.length < bs.length) :
    ∃ b', w (withSlice out) = (.error ⟨⟩, b') ∧ b'.buf.length = out.length := by
  exact (writes (withSlice out) (Nat.zero_le _)).2 (by simpa [withSlice] using short)

section Octets
variable [Octets]

theorem writes_putU8 (x : UInt8) : Writes (Octets.putU8 x) [x] := by
  intro b inside
  rw [Octets.putU8_eq]
  constructor
  · intro fits
    simp only [List.length_singleton] at fits ⊢
    simp [fits]
  · intro short
    simp only [List.length_singleton] at short
    exact ⟨b, by simp [Nat.not_le.mpr short], rfl⟩

theorem writes_putU64 (x : UInt64) : Writes (Octets.putU64 x) (u64Bytes x) := by
  intro b inside
  rw [Octets.putU64_eq]
  simp only [u64Bytes_length]
  constructor
  · intro fits
    simp [fits]
  · intro short
    exact ⟨b, by simp [Nat.not_le.mpr short], rfl⟩

def putU64s : List UInt64 → Cursor Unit
  | [] => pure ()
  | x :: xs => do
    Octets.putU64 x
    putU64s xs

theorem writes_putU64s (xs : List UInt64) : Writes (putU64s xs) (xs.flatMap u64Bytes) := by
  induction xs with
  | nil => exact writes_pure
  | cons x xs ih => exact writes_bind (writes_putU64 x) ih

end Octets

end ByteCursor
