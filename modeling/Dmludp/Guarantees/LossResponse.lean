import Dmludp.Endpoint.ReferenceInstance
import Mathlib.Tactic.Linarith
import Mathlib.Tactic.NormNum
import Mathlib.Tactic.Ring

/- The window's response to loss in exact arithmetic: constants and weights are rationals, the
   accumulators natural numbers without a bound. -/
namespace DmludpLossResponse
open RustOutcome DmludpRecovery DmludpReference

/-- Exact rationals that truncate to naturals of any size. -/
@[reducible] def exactFloats : FloatOps ℚ :=
  { rationalFloats with toUsize := fun x => x.floor.toNat }

abbrev exactWinadd (r : Recovery) (w : ℚ) : ℚ := @Recovery.winadd ℚ exactFloats r w

/-- `update_win` over unbounded naturals, for one pair of loss weight and `num`. -/
def exactUpdateWin (r : Recovery) (ack : ℚ × ℚ) : Recovery :=
  let winadd := exactWinadd r ack.1
  let r := if winadd ≠ ack.2 then { r with rollBackFlag := true } else r
  if 0 < winadd then { r with increWin := r.increWin + winadd.floor.toNat }
  else { r with decreWin := r.decreWin + (-winadd).floor.toNat }

def exactCwnd (r : Recovery) : Recovery × Nat :=
  let tmpWin := if 2 * r.increWin > r.decreWin then 2 * r.increWin - r.decreWin else 0
  let r := if !r.rollBackFlag then
    { r with formerWinVecter := insert tmpWin r.formerWinVecter } else r
  let r := { r with congestionWindow := tmpWin, increWin := 0, decreWin := 0 }
  if r.congestionWindow ≥ packetSize * initialWindowPackets then (r, r.congestionWindow)
  else
    let r := { r with congestionWindow := packetSize * initialWindowPackets }
    (r, r.congestionWindow)

def outer (w : ℚ) : ℚ := -2294 / 100 * w ^ 3 + 6583 / 100 * w ^ 2 - 5189 / 100 * w + 8

def inner (w : ℚ) : ℚ :=
  -1587 / 10000 * w ^ 3 - 4658 / 10000 * w ^ 2 - 4538 / 10000 * w + 1535 / 10000

def response (w : ℚ) : ℚ := if w < 1 / 5 ∨ 9 / 5 < w then outer w else inner w

theorem exactWinadd_response (r : Recovery) (w : ℚ) :
    exactWinadd r w = response w * (r.maxDatagramSize : ℚ) := by
  have code : exactWinadd r w =
      if (decide (w < ((2 : Int) : ℚ) / ((10 ^ 1 : Nat) : ℚ)) ||
          decide (((18 : Int) : ℚ) / ((10 ^ 1 : Nat) : ℚ) < w)) = true then
        (((-2294 : Int) : ℚ) / ((10 ^ 2 : Nat) : ℚ) * w ^ 3 +
          ((6583 : Int) : ℚ) / ((10 ^ 2 : Nat) : ℚ) * w ^ 2 -
          ((5189 : Int) : ℚ) / ((10 ^ 2 : Nat) : ℚ) * w + ((80 : Int) : ℚ) / ((10 ^ 1 : Nat) : ℚ)) *
          (r.maxDatagramSize : ℚ)
      else
        (((-1587 : Int) : ℚ) / ((10 ^ 4 : Nat) : ℚ) * w ^ 3 -
          ((4658 : Int) : ℚ) / ((10 ^ 4 : Nat) : ℚ) * w ^ 2 -
          ((4538 : Int) : ℚ) / ((10 ^ 4 : Nat) : ℚ) * w + ((1535 : Int) : ℚ) / ((10 ^ 4 : Nat) : ℚ)) *
          (r.maxDatagramSize : ℚ) := rfl
  have bounds : (decide (w < ((2 : Int) : ℚ) / ((10 ^ 1 : Nat) : ℚ)) ||
      decide (((18 : Int) : ℚ) / ((10 ^ 1 : Nat) : ℚ) < w)) = true ↔ w < 1 / 5 ∨ 9 / 5 < w := by
    rw [Bool.or_eq_true, decide_eq_true_eq, decide_eq_true_eq]
    norm_num
  rw [code]
  unfold response
  by_cases outside : w < 1 / 5 ∨ 9 / 5 < w
  · rw [if_pos (bounds.mpr outside), if_pos outside]
    norm_num [outer]
  · rw [if_neg (fun h => outside (bounds.mp h)), if_neg outside]
    norm_num [inner]

theorem outer_low {a b : ℚ} (low : 0 ≤ a) (order : a ≤ b) (high : b ≤ 1 / 5) : outer b ≤ outer a := by
  have slope : outer a - outer b = (b - a) *
      (2294 / 100 * (a ^ 2 + a * b + b ^ 2) - 6583 / 100 * (a + b) + 5189 / 100) := by
    unfold outer
    ring
  have falls : 0 ≤ 2294 / 100 * (a ^ 2 + a * b + b ^ 2) - 6583 / 100 * (a + b) + 5189 / 100 := by
    have squares : 0 ≤ a ^ 2 + a * b + b ^ 2 := by
      have product : 0 ≤ a * b := mul_nonneg low (low.trans order)
      have := sq_nonneg a
      have := sq_nonneg b
      linarith
    linarith
  have := mul_nonneg (sub_nonneg.mpr order) falls
  linarith

theorem outer_high {a b : ℚ} (low : 9 / 5 ≤ a) (order : a ≤ b) : outer b ≤ outer a := by
  have slope : outer a - outer b = (b - a) *
      (2294 / 100 * (a ^ 2 + a * b + b ^ 2) - 6583 / 100 * (a + b) + 5189 / 100) := by
    unfold outer
    ring
  have falls : 0 ≤ 2294 / 100 * (a ^ 2 + a * b + b ^ 2) - 6583 / 100 * (a + b) + 5189 / 100 := by
    nlinarith [mul_nonneg (sub_nonneg.mpr low) (sub_nonneg.mpr (low.trans order)),
      sq_nonneg (a - 9 / 5), sq_nonneg (b - 9 / 5)]
  have := mul_nonneg (sub_nonneg.mpr order) falls
  linarith

theorem inner_falls {a b : ℚ} (low : 0 ≤ a) (order : a ≤ b) : inner b ≤ inner a := by
  have slope : inner a - inner b = (b - a) *
      (1587 / 10000 * (a ^ 2 + a * b + b ^ 2) + 4658 / 10000 * (a + b) + 4538 / 10000) := by
    unfold inner
    ring
  have falls : 0 ≤ 1587 / 10000 * (a ^ 2 + a * b + b ^ 2) + 4658 / 10000 * (a + b) +
      4538 / 10000 := by
    have product : 0 ≤ a * b := mul_nonneg low (low.trans order)
    have := sq_nonneg a
    have := sq_nonneg b
    linarith
  have := mul_nonneg (sub_nonneg.mpr order) falls
  linarith

theorem jump_low : inner (1 / 5) ≤ outer (1 / 5) := by norm_num [inner, outer]

theorem jump_high : outer (9 / 5) ≤ inner (9 / 5) := by norm_num [inner, outer]

theorem response_antitone {a b : ℚ} (low : 0 ≤ a) (order : a ≤ b) : response b ≤ response a := by
  unfold response
  by_cases left : a < 1 / 5
  · rw [if_pos (Or.inl left)]
    by_cases left' : b < 1 / 5
    · rw [if_pos (Or.inl left')]
      exact outer_low low order left'.le
    · rw [not_lt] at left'
      have down : inner (1 / 5) ≤ outer a := jump_low.trans (outer_low low left.le (le_refl _))
      by_cases right : 9 / 5 < b
      · rw [if_pos (Or.inr right)]
        calc outer b ≤ outer (9 / 5) := outer_high (le_refl _) right.le
          _ ≤ inner (9 / 5) := jump_high
          _ ≤ inner (1 / 5) := inner_falls (by norm_num) (by norm_num)
          _ ≤ outer a := down
      · rw [if_neg (not_or.mpr ⟨not_lt.mpr left', right⟩)]
        exact (inner_falls (by norm_num) left').trans down
  · rw [not_lt] at left
    have left' : ¬ b < 1 / 5 := not_lt.mpr (left.trans order)
    by_cases right : 9 / 5 < a
    · rw [if_pos (Or.inr right), if_pos (Or.inr (right.trans_le order))]
      exact outer_high right.le order
    · rw [if_neg (not_or.mpr ⟨not_lt.mpr left, right⟩)]
      by_cases right' : 9 / 5 < b
      · rw [if_pos (Or.inr right')]
        calc outer b ≤ outer (9 / 5) := outer_high (le_refl _) right'.le
          _ ≤ inner (9 / 5) := jump_high
          _ ≤ inner a := inner_falls low (not_lt.mp right)
      · rw [if_neg (not_or.mpr ⟨left', right'⟩)]
        exact inner_falls low order

theorem exactWinadd_antitone (r : Recovery) {a b : ℚ} (low : 0 ≤ a) (order : a ≤ b) :
    exactWinadd r b ≤ exactWinadd r a := by
  rw [exactWinadd_response, exactWinadd_response]
  exact mul_le_mul_of_nonneg_right (response_antitone low order) (Nat.cast_nonneg _)

theorem truncate_mono {a b : ℚ} (order : a ≤ b) : a.floor.toNat ≤ b.floor.toNat :=
  Int.toNat_le_toNat (Rat.floor_monotone order)

/-- The first recovery has gained at least as much and lost at most as much. -/
structure Ahead (r r' : Recovery) : Prop where
  size : r'.maxDatagramSize = r.maxDatagramSize
  gained : r'.increWin ≤ r.increWin
  lost : r.decreWin ≤ r'.decreWin

theorem exactUpdateWin_sums (r : Recovery) (ack : ℚ × ℚ) :
    (exactUpdateWin r ack).maxDatagramSize = r.maxDatagramSize ∧
      (exactUpdateWin r ack).increWin = r.increWin +
        (if 0 < exactWinadd r ack.1 then (exactWinadd r ack.1).floor.toNat else 0) ∧
      (exactUpdateWin r ack).decreWin = r.decreWin +
        (if 0 < exactWinadd r ack.1 then 0 else (-exactWinadd r ack.1).floor.toNat) := by
  unfold exactUpdateWin
  dsimp only
  split <;> split <;> simp_all

theorem update_ahead {r r' : Recovery} {ack ack' : ℚ × ℚ} (ahead : Ahead r r') (low : 0 ≤ ack.1)
    (order : ack.1 ≤ ack'.1) : Ahead (exactUpdateWin r ack) (exactUpdateWin r' ack') := by
  obtain ⟨size, gained, lost⟩ := ahead
  obtain ⟨size1, incre1, decre1⟩ := exactUpdateWin_sums r ack
  obtain ⟨size2, incre2, decre2⟩ := exactUpdateWin_sums r' ack'
  have same : exactWinadd r' ack'.1 = exactWinadd r ack'.1 := by
    rw [exactWinadd_response, exactWinadd_response, size]
  have fall := exactWinadd_antitone r low order
  refine ⟨by rw [size1, size2, size], ?_, ?_⟩
  · rw [incre1, incre2, same]
    refine Nat.add_le_add gained ?_
    by_cases up : 0 < exactWinadd r ack'.1
    · rw [if_pos up, if_pos (up.trans_le fall)]
      exact truncate_mono fall
    · rw [if_neg up]
      exact Nat.zero_le _
  · rw [decre1, decre2, same]
    refine Nat.add_le_add lost ?_
    by_cases up : 0 < exactWinadd r ack.1
    · rw [if_pos up]
      exact Nat.zero_le _
    · rw [if_neg up, if_neg (fun up' => up (up'.trans_le fall))]
      exact truncate_mono (neg_le_neg fall)

theorem updates_ahead {acks acks' : List (ℚ × ℚ)}
    (heavier : List.Forall₂ (fun a b => 0 ≤ a.1 ∧ a.1 ≤ b.1) acks acks') {r r' : Recovery}
    (ahead : Ahead r r') : Ahead (acks.foldl exactUpdateWin r) (acks'.foldl exactUpdateWin r') := by
  induction heavier generalizing r r' with
  | nil => exact ahead
  | cons here _ ih => exact ih (update_ahead ahead here.1 here.2)

theorem exactCwnd_value (r : Recovery) :
    (exactCwnd r).2 = max (2 * r.increWin - r.decreWin) (packetSize * initialWindowPackets) := by
  have window : (if 2 * r.increWin > r.decreWin then 2 * r.increWin - r.decreWin else 0) =
      2 * r.increWin - r.decreWin := by
    split
    · rfl
    · omega
  unfold exactCwnd
  dsimp only
  rw [window]
  split
  · rename_i high
    exact (max_eq_left high).symm
  · rename_i high
    exact (max_eq_right (Nat.le_of_not_le high)).symm

theorem cwnd_ahead {r r' : Recovery} (ahead : Ahead r r') : (exactCwnd r').2 ≤ (exactCwnd r).2 := by
  obtain ⟨_, gained, lost⟩ := ahead
  rw [exactCwnd_value, exactCwnd_value]
  omega

section Machine
variable [Profile]

theorem updateWin_exact (checks : Profile.overflowChecks = true) {r r' : Recovery} {ack : ℚ × ℚ}
    (done : @Recovery.updateWin ℚ exactFloats _ r ack.1 ack.2 = .ok r') :
    r' = exactUpdateWin r ack := by
  have positive : @FloatOps.lt ℚ exactFloats (@FloatOps.lit64 ℚ exactFloats 0 1)
      (exactWinadd r ack.1) = decide (0 < exactWinadd r ack.1) := by
    change decide (((0 : Int) : ℚ) / ((10 ^ 1 : Nat) : ℚ) < exactWinadd r ack.1) = _
    norm_num
  have differs : @FloatOps.ne ℚ exactFloats (exactWinadd r ack.1) ack.2 =
      decide (exactWinadd r ack.1 ≠ ack.2) := rfl
  unfold Recovery.updateWin at done
  unfold exactUpdateWin
  simp only [positive, differs, decide_eq_true_eq] at done ⊢
  split at done
  · rename_i up
    rw [if_pos up]
    obtain ⟨increWin, added, done⟩ := bind_ok_iff.mp done
    cases done
    rw [addWord_checked checks added]
    rfl
  · rename_i down
    rw [if_neg down]
    obtain ⟨decreWin, added, done⟩ := bind_ok_iff.mp done
    cases done
    rw [addWord_checked checks added]
    rfl

theorem cwnd_exact (checks : Profile.overflowChecks = true) {r r' : Recovery} {n : Nat}
    (done : r.cwnd = .ok (r', n)) : exactCwnd r = (r', n) := by
  have returned : r.cwnd = .ok (exactCwnd r) := by
    unfold Recovery.cwnd at done ⊢
    obtain ⟨doubled, twice, _⟩ := bind_ok_iff.mp done
    rw [twice, ok_bind, mulWord_checked checks twice]
    exact (apply_ite Except.ok _ _ _).symm
  rw [returned] at done
  exact Except.ok.inj done

theorem updates_exact (checks : Profile.overflowChecks = true) {acks : List (ℚ × ℚ)}
    {r r' : Recovery} (done : acks.foldlM (fun r ack =>
      @Recovery.updateWin ℚ exactFloats _ r ack.1 ack.2) r = .ok r') :
    r' = acks.foldl exactUpdateWin r := by
  induction acks generalizing r with
  | nil =>
    cases done
    rfl
  | cons ack rest ih =>
    rw [List.foldlM_cons] at done
    obtain ⟨next, first, done⟩ := bind_ok_iff.mp done
    rw [ih done, updateWin_exact checks first]
    rfl

end Machine

/-- More loss never yields a larger window: not for one acknowledgement, not after any number of
    them, and not in the code while no sum overflows. -/
theorem more_loss_no_larger_window :
    (∀ (r : Recovery) (w w' : ℚ), 0 ≤ w → w ≤ w' → exactWinadd r w' ≤ exactWinadd r w) ∧
    (∀ (r : Recovery) (acks acks' : List (ℚ × ℚ)),
      List.Forall₂ (fun a b => 0 ≤ a.1 ∧ a.1 ≤ b.1) acks acks' →
        (exactCwnd (acks'.foldl exactUpdateWin r)).2 ≤ (exactCwnd (acks.foldl exactUpdateWin r)).2 ∧
        ∀ [Profile] (s s' t t' : Recovery) (n n' : Nat), Profile.overflowChecks = true →
          acks.foldlM (fun r ack => @Recovery.updateWin ℚ exactFloats _ r ack.1 ack.2) r = .ok s →
          acks'.foldlM (fun r ack => @Recovery.updateWin ℚ exactFloats _ r ack.1 ack.2) r = .ok s' →
          s.cwnd = .ok (t, n) → s'.cwnd = .ok (t', n') → n' ≤ n) := by
  refine ⟨fun r w w' low order => exactWinadd_antitone r low order, ?_⟩
  intro r acks acks' heavier
  have start : Ahead r r := ⟨rfl, Nat.le_refl _, Nat.le_refl _⟩
  have window := cwnd_ahead (updates_ahead heavier start)
  refine ⟨window, ?_⟩
  intro profile s s' t t' n n' checks updated updated' done done'
  have first := cwnd_exact checks done
  have second := cwnd_exact checks done'
  rw [← updates_exact checks updated, ← updates_exact checks updated', first, second] at window
  exact window

abbrev checkedUpdates (acks : List (ℚ × ℚ)) : Rs Recovery :=
  acks.foldlM (fun r ack => @Recovery.updateWin ℚ exactFloats checkedBuild r ack.1 ack.2)
    Recovery.new

theorem checkedUpdates_window {acks : List (ℚ × ℚ)} {n : Nat}
    (computed : (checkedUpdates acks >>= fun r => @Recovery.cwnd checkedBuild r).map Prod.snd =
      .ok n) :
    ∃ s t, checkedUpdates acks = .ok s ∧ @Recovery.cwnd checkedBuild s = .ok (t, n) := by
  cases updated : checkedUpdates acks with
  | error p =>
    rw [updated] at computed
    cases computed
  | ok s =>
    rw [updated, ok_bind] at computed
    cases window : @Recovery.cwnd checkedBuild s with
    | error p =>
      rw [window] at computed
      cases computed
    | ok r =>
      rw [window] at computed
      cases computed
      exact ⟨s, r.1, rfl, window⟩

def lightLosses : List (ℚ × ℚ) := [(0, 1), (1 / 20, 2), (3 / 20, 3)]

def heavyLosses : List (ℚ × ℚ) := [(1 / 20, 1), (3 / 20, 2), (1 / 2, 3)]

theorem heavier_losses_smaller_window :
    exactWinadd Recovery.new (1 / 2) ≤ exactWinadd Recovery.new 0 ∧
    ∃ (s s' t t' : Recovery) (n n' : Nat), checkedUpdates lightLosses = .ok s ∧
      checkedUpdates heavyLosses = .ok s' ∧ @Recovery.cwnd checkedBuild s = .ok (t, n) ∧
      @Recovery.cwnd checkedBuild s' = .ok (t', n') ∧ n = 36448 ∧ n' = 16997 ∧ n' ≤ n := by
  have light : (checkedUpdates lightLosses >>= fun r => @Recovery.cwnd checkedBuild r).map Prod.snd =
      .ok 36448 := by decide +kernel
  have heavy : (checkedUpdates heavyLosses >>= fun r => @Recovery.cwnd checkedBuild r).map Prod.snd =
      .ok 16997 := by decide +kernel
  obtain ⟨s, t, updated, window⟩ := checkedUpdates_window light
  obtain ⟨s', t', updated', window'⟩ := checkedUpdates_window heavy
  have heavier : List.Forall₂ (fun a b : ℚ × ℚ => 0 ≤ a.1 ∧ a.1 ≤ b.1) lightLosses heavyLosses := by
    refine .cons ?_ (.cons ?_ (.cons ?_ .nil)) <;> norm_num
  refine ⟨more_loss_no_larger_window.1 _ _ _ (by norm_num) (by norm_num), s, s', t, t', _, _,
    updated, updated', window, window', rfl, rfl, ?_⟩
  exact @(more_loss_no_larger_window.2 Recovery.new _ _ heavier).2 checkedBuild s s' t t' _ _ rfl
    updated updated' window window'

end DmludpLossResponse
