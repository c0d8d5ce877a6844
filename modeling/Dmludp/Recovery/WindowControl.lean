import Dmludp.Foundation.RustOutcome
import Mathlib.Data.Finset.Max
import Mathlib.Data.Rat.Init
import Mathlib.Tactic.Common

/- Congestion control, and the floating-point operations it and the block norms rest on.
   One carrier serves both widths: every f32 is an f64, so `as f64` is the identity and only
   the rounding of the operations differs. Nothing is assumed of the operations, so results
   stated over an arbitrary carrier hold for IEEE arithmetic with its rounding and NaNs. -/
namespace DmludpRecovery
open RustOutcome

class FloatOps (F : Type) where
  /-- The literal `m / 10^e`, rounded to f32. -/
  lit32 : Int → Nat → F
  /-- The literal `m / 10^e`, rounded to f64. -/
  lit64 : Int → Nat → F
  add32 : F → F → F
  mul32 : F → F → F
  add64 : F → F → F
  sub64 : F → F → F
  mul64 : F → F → F
  div64 : F → F → F
  neg64 : F → F
  powi64 : F → Nat → F
  lt : F → F → Bool
  ne : F → F → Bool
  isNaN : F → Bool
  /-- `usize as f64`. -/
  ofUsize : Nat → F
  /-- `f64 as usize`, truncating toward zero. -/
  toUsize : F → Nat
  /-- `f32::from_str`. -/
  parse : List Char → Option F
  toNeBytes : F → Fin 4 → UInt8

def initialWindowPackets : Nat := 8

def iniWin : Nat := 1200 * 8

def packetSize : Nat := 1200

/-- `MAX_SEND_UDP_PAYLOAD_SIZE`, the value `Config::new` stores. -/
def maxSendUdpPayloadSize : Nat := 1350

structure Recovery where
  congestionWindow : Nat
  maxDatagramSize : Nat
  increWin : Nat
  decreWin : Nat
  formerWinVecter : Finset Nat
  rollBackFlag : Bool
  deriving DecidableEq

namespace Recovery

def new : Recovery where
  congestionWindow := maxSendUdpPayloadSize * initialWindowPackets
  maxDatagramSize := packetSize
  increWin := 0
  decreWin := 0
  formerWinVecter := ∅
  rollBackFlag := false

section Floats
variable {F : Type} [FloatOps F]
open FloatOps

/-- The window change one acknowledgement of loss weight `weights` asks for. -/
def winadd (r : Recovery) (weights : F) : F :=
  let cube := powi64 weights 3
  let square := powi64 weights 2
  if lt weights (lit32 2 1) || lt (lit32 18 1) weights then
    mul64 (add64 (sub64 (add64 (mul64 (lit64 (-2294) 2) cube) (mul64 (lit64 6583 2) square))
      (mul64 (lit64 5189 2) weights)) (lit64 80 1)) (ofUsize r.maxDatagramSize)
  else
    mul64 (add64 (sub64 (sub64 (mul64 (lit64 (-1587) 4) cube) (mul64 (lit64 4658 4) square))
      (mul64 (lit64 4538 4) weights)) (lit64 1535 4)) (ofUsize r.maxDatagramSize)

section Words
variable [Profile]

def updateWin (r : Recovery) (weights num : F) : Rs Recovery :=
  let winadd := r.winadd weights
  let r := if ne winadd num then { r with rollBackFlag := true } else r
  if lt (lit64 0 1) winadd then do
    let increWin ← addWord r.increWin (toUsize winadd)
    return { r with increWin := increWin }
  else do
    let decreWin ← addWord r.decreWin (toUsize (neg64 winadd))
    return { r with decreWin := decreWin }

theorem updateWin_eq (r : Recovery) (weights num : F) :
    r.updateWin weights num =
      if lt (lit64 0 1) (r.winadd weights) then
        addWord r.increWin (toUsize (r.winadd weights)) >>= fun n =>
          .ok { r with increWin := n, rollBackFlag := r.rollBackFlag || ne (r.winadd weights) num }
      else
        addWord r.decreWin (toUsize (neg64 (r.winadd weights))) >>= fun n =>
          .ok { r with
            decreWin := n
            rollBackFlag := r.rollBackFlag || ne (r.winadd weights) num } := by
  unfold updateWin
  cases changed : ne (r.winadd weights) num <;> simp [changed] <;> rfl

theorem updateWin_frame {r r' : Recovery} {weights num : F}
    (done : r.updateWin weights num = .ok r') : ∃ increWin decreWin flag,
      r' = { r with increWin := increWin, decreWin := decreWin, rollBackFlag := flag } := by
  rw [updateWin_eq] at done
  split at done
  · obtain ⟨n, _, same⟩ := bind_ok_iff.mp done
    cases same
    exact ⟨_, _, _, rfl⟩
  · obtain ⟨n, _, same⟩ := bind_ok_iff.mp done
    cases same
    exact ⟨_, _, _, rfl⟩

end Words

end Floats

section Words
variable [Profile]

def cwnd (r : Recovery) : Rs (Recovery × Nat) := do
  let doubled ← mulWord 2 r.increWin
  let tmpWin := if doubled > r.decreWin then doubled - r.decreWin else 0
  let r := if !r.rollBackFlag then
    { r with formerWinVecter := insert tmpWin r.formerWinVecter } else r
  let r := { r with congestionWindow := tmpWin, increWin := 0, decreWin := 0 }
  if r.congestionWindow ≥ packetSize * initialWindowPackets then return (r, r.congestionWindow)
  else
    let r := { r with congestionWindow := packetSize * initialWindowPackets }
    return (r, r.congestionWindow)

/-- The window is the clamped difference of the two sums; the recorded one is not clamped. -/
theorem cwnd_eq (r : Recovery) :
    r.cwnd = mulWord 2 r.increWin >>= fun doubled =>
      .ok ({ r with
        congestionWindow := max (doubled - r.decreWin) (packetSize * initialWindowPackets)
        increWin := 0
        decreWin := 0
        formerWinVecter := if r.rollBackFlag then r.formerWinVecter
          else insert (doubled - r.decreWin) r.formerWinVecter },
        max (doubled - r.decreWin) (packetSize * initialWindowPackets)) := by
  obtain ⟨window, size, increWin, decreWin, former, flag⟩ := r
  unfold cwnd
  dsimp only
  cases mulWord 2 increWin with
  | error e => rfl
  | ok doubled =>
    have difference : (if doubled > decreWin then doubled - decreWin else 0) =
        doubled - decreWin := by
      split <;> omega
    simp only [ok_bind, difference]
    by_cases high : doubled - decreWin ≥ packetSize * initialWindowPackets
    · rw [if_pos high, max_eq_left high]
      cases flag <;> rfl
    · rw [if_neg high, max_eq_right (Nat.le_of_not_le high)]
      cases flag <;> rfl

end Words

def rollback (r : Recovery) : Recovery × Nat :=
  let r := if h : r.formerWinVecter.Nonempty then
      { r with
        congestionWindow := r.formerWinVecter.max' h
        formerWinVecter := r.formerWinVecter.erase (r.formerWinVecter.max' h) }
    else { r with congestionWindow := iniWin }
  (r, r.congestionWindow)

end Recovery

end DmludpRecovery
