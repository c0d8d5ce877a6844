import Dmludp.Foundation.ByteCursor
import Dmludp.Foundation.RustOutcome

/- One buffered chunk of a stream. The methods `off()` and `len()` share their names with
   fields; here they are `offFn` and `lenFn`. Offsets are u64, so their arithmetic is checked
   or wrapped as the profile says. -/
namespace DmludpRange
open ByteCursor RustOutcome

structure RangeBuf where
  data : Bytes
  start : Nat
  pos : Nat
  len : Nat
  off : Nat
  deriving DecidableEq, Repr

def RangeBuf.ofSlice (buf : Bytes) (off : Nat) : RangeBuf where
  data := buf
  start := 0
  pos := 0
  len := buf.length
  off := off

/-- `pos += count`; the caller stays within the chunk. -/
def RangeBuf.consume (b : RangeBuf) (count : Nat) : RangeBuf := { b with pos := b.pos + count }

section Methods
variable [Profile]

def RangeBuf.offFn (b : RangeBuf) : Rs Nat := do
  let base ← subWord b.off b.start
  addWord base b.pos

def RangeBuf.lenFn (b : RangeBuf) : Rs Nat := subWord b.len b.pos

def RangeBuf.maxOff (b : RangeBuf) : Rs Nat := do
  let low ← b.offFn
  let length ← b.lenFn
  addWord low length

def RangeBuf.isEmpty (b : RangeBuf) : Rs Bool := do
  let length ← b.lenFn
  return length == 0

/-- `split_off`: the chunk becomes the left half, the right half is returned. Both keep the bytes
    of the chunk they were cut from, the right half from `at` on. -/
def RangeBuf.splitOff (b : RangeBuf) (at_ : Nat) : Rs (RangeBuf × RangeBuf) :=
  if at_ ≤ b.len then do
    let data ← sliceFrom b.data at_
    let len ← subWord b.len at_
    let off ← addWord b.off at_
    let buf : RangeBuf := ⟨data, 0, 0, len, off⟩
    let mid ← addWord b.start at_
    return ({ b with pos := min b.pos mid, len := at_ }, buf)
  else .error .assertion

def RangeBuf.deref (b : RangeBuf) : Rs Bytes := do
  let high ← addWord b.start b.len
  slice b.data b.pos high

end Methods

structure RangeBuf.Whole (b : RangeBuf) : Prop where
  start_zero : b.start = 0
  pos_zero : b.pos = 0
  len_eq : b.len = b.data.length

theorem whole_ofSlice (buf : Bytes) (off : Nat) : (RangeBuf.ofSlice buf off).Whole :=
  ⟨rfl, rfl, rfl⟩

structure RangeBuf.Partial (b : RangeBuf) : Prop where
  start_zero : b.start = 0
  len_eq : b.len = b.data.length
  unread : b.pos < b.len
  word : b.off + b.len < wordSize

section Methods
variable [Profile]

theorem partial_lenFn {b : RangeBuf} (part : b.Partial) : b.lenFn = .ok (b.len - b.pos) :=
  subWord_fits (Nat.le_of_lt part.unread)

theorem partial_maxOff {b : RangeBuf} (part : b.Partial) : b.maxOff = .ok (b.off + b.len) := by
  have unread := part.unread
  have word := part.word
  have low : b.offFn = .ok (b.off + b.pos) := by
    rw [RangeBuf.offFn, part.start_zero, subWord_zero, ok_bind, addWord_fits (by omega)]
  rw [RangeBuf.maxOff, low, ok_bind, partial_lenFn part, ok_bind, addWord_fits (by omega)]
  congr 1
  omega

theorem whole_offFn {b : RangeBuf} (whole : b.Whole) (word : b.off < wordSize) :
    b.offFn = .ok b.off := by
  simp only [RangeBuf.offFn, whole.start_zero, whole.pos_zero, subWord_zero, ok_bind,
    addWord_zero word]

theorem whole_offFn_word {b : RangeBuf} (whole : b.Whole) {off : Nat} (done : b.offFn = .ok off) :
    off = b.off % wordSize := by
  simp only [RangeBuf.offFn, whole.start_zero, whole.pos_zero, subWord_zero, ok_bind] at done
  exact addWord_mod done

theorem whole_lenFn {b : RangeBuf} (whole : b.Whole) : b.lenFn = .ok b.data.length := by
  simp only [RangeBuf.lenFn, whole.pos_zero, subWord_zero, whole.len_eq]

theorem whole_isEmpty {b : RangeBuf} (whole : b.Whole) (filled : 0 < b.data.length) :
    b.isEmpty = .ok false := by
  have positive : b.data.length ≠ 0 := by omega
  simp only [RangeBuf.isEmpty, whole_lenFn whole, ok_bind]
  simp [positive, pure, Except.pure]

end Methods

end DmludpRange
