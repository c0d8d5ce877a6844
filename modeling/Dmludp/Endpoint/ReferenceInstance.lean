import Dmludp.Endpoint.Calls
import Mathlib.Algebra.Order.Field.Rat
import Mathlib.Data.Rat.Floor

/- Concrete arithmetic and inputs for evaluating the model. Floats are exact rationals: on
   values that single precision represents they agree with the machine, bytes included. -/
namespace DmludpReference
open ByteCursor RustOutcome DmludpPacket DmludpRecovery DmludpConnection DmludpCalls

def digit? (c : Char) : Option Nat :=
  if '0' ≤ c ∧ c ≤ '9' then some (c.toNat - '0'.toNat) else none

def digits? : List Char → Option Nat
  | [] => none
  | cs => cs.foldlM (fun n c => (digit? c).map (fun d => 10 * n + d)) 0

def unsigned? (s : List Char) : Option ℚ :=
  match s.splitOn '.' with
  | [whole] => (digits? whole).map (fun n => (n : ℚ))
  | [whole, part] => do
    let n ← digits? whole
    let m ← digits? part
    return (n : ℚ) + (m : ℚ) / ((10 ^ part.length : Nat) : ℚ)
  | _ => none

def decimal? : List Char → Option ℚ
  | '-' :: rest => (unsigned? rest).map (fun x => -x)
  | s => unsigned? s

/-- The single-precision encoding, rounded toward zero; `2^149` scales every value to an
    integer count of the smallest subnormal. -/
def singleBits (x : ℚ) : Nat :=
  let n := (|x| * ((2 ^ 149 : Nat) : ℚ)).floor.toNat
  let l := Nat.log2 n
  let magnitude := if l < 23 then n else (l - 22) * 2 ^ 23 + n / 2 ^ (l - 23) % 2 ^ 23
  if x < 0 then 2 ^ 31 + magnitude else magnitude

/-- Division by zero gives 0, where the machine gives an infinity or a NaN: with `sentNumber = 0` and
    losses of high priority this model takes `cwnd` where the code rolls back. -/
@[reducible] def rationalFloats : FloatOps ℚ where
  lit32 m e := (m : ℚ) / ((10 ^ e : Nat) : ℚ)
  lit64 m e := (m : ℚ) / ((10 ^ e : Nat) : ℚ)
  add32 := fun a b => a + b
  mul32 := fun a b => a * b
  add64 := fun a b => a + b
  sub64 := fun a b => a - b
  mul64 := fun a b => a * b
  div64 := fun a b => a / b
  neg64 := fun a => -a
  powi64 := fun a n => a ^ n
  lt := fun a b => decide (a < b)
  ne := fun a b => decide (a ≠ b)
  isNaN := fun _ => false
  ofUsize := fun n => (n : ℚ)
  toUsize := fun x => min x.floor.toNat (2 ^ 64 - 1)
  parse := decimal?
  toNeBytes := fun x i => UInt8.ofNat (singleBits x / 256 ^ i.val)

example : (List.ofFn (rationalFloats.toNeBytes (-3 / 2)) = [0x00, 0x00, 0xc0, 0xbf]) := by
  decide +kernel

@[reducible] def checkedBuild : Profile := ⟨true⟩

@[reducible] def releaseBuild : Profile := ⟨false⟩

def loopback : SocketAddr := ⟨.v4 0x7f000001, 9000⟩

def freshServer : Connection ℚ := @Connection.accept ℚ rationalFloats loopback loopback 0

def freshClient : Connection ℚ := @Connection.connect ℚ rationalFloats loopback loopback 0

def storedOrder : IterOrder := ⟨id, fun _ => List.Perm.refl _⟩

def zeros (n : Nat) : Bytes := List.replicate n 0

theorem zeros_fit {n : Nat} (small : n ≤ 65536) : (zeros n).length ≤ isizeMax := by
  simp only [zeros, List.length_replicate, isizeMax]
  omega

def outBuffer : Slice := ⟨zeros 1350, zeros_fit (by decide)⟩

theorem outBuffer_roomy : 1350 ≤ outBuffer.bytes.length := Nat.le_of_eq List.length_replicate.symm

def bareDatagram (first : UInt8) : Slice :=
  ⟨first :: zeros 25, by simp [zeros, isizeMax]⟩

def datagram (h : Header) (content : Bytes) (small : content.length ≤ 65536) : Slice :=
  ⟨h.encoded ++ content, by
    rw [List.length_append, encoded_length, isizeMax]
    omega⟩

def onesText (n : Nat) : List Char := '[' :: (List.replicate n ['1', ' ']).flatten ++ [']']

def chunkSession : List Call :=
  [.dataSend (onesText 255), .sendAll 1, .recvSlice 5 (bareDatagram 2),
    .sendData 6 storedOrder outBuffer, .sendData 7 storedOrder outBuffer]

end DmludpReference
