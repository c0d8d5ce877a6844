import Dmludp.Endpoint.ReferenceInstance
import Dmludp.Packet.PacketWindow

/- How often the retransmission window asks for an offset. Abstractly an offset has a budget of
   asks, which each check uses up by one and nothing else touches; the first offset of a block is
   the exception, since the first check of another offset overwrites its record. -/
namespace DmludpWindowAsks
open RustOutcome TracedRun DmludpPacketWindow DmludpPacketWindow.PktNumWindow DmludpReference

def remaining (w : PktNumWindow) (o : Nat) : Option Nat :=
  (w.record.lookup o).map (fun e => if e.2 = 1 then 0 else e.1 + 1)

def blockPriority (w : PktNumWindow) (o : Nat) : Nat :=
  if w.getPriority (blockStart o) = 0 then 3 else w.getPriority (blockStart o)

/-- How often `o` will still be asked for. -/
def budget (w : PktNumWindow) (o : Nat) : Nat :=
  (remaining w o).getD (blockPriority w o + 1)

/-- No check of another offset can overwrite the record of `o`. -/
def Settled (w : PktNumWindow) (o : Nat) : Prop := o % 1024 ≠ 0 ∨ w.getPriority o ≠ 0

/-- The call does not set the record of `o` or the priority of its block. -/
def Undisturbed (o : Nat) (_ : PktNumWindow) : WindowCall → Prop
  | .additem offset _ => offset ≠ o ∧ offset ≠ blockStart o
  | .updateItem offset _ => offset ≠ o ∧ offset ≠ blockStart o
  | .updateRetrans offset _ _ => offset ≠ o
  | .clearRecord => False
  | .checkReceived _ _ | .getPriority _ | .getRetransTimes _ => True

instance (o : Nat) (w : PktNumWindow) (a : WindowCall) : Decidable (Undisturbed o w a) :=
  match a with
  | .additem offset _ | .updateItem offset _ =>
    inferInstanceAs (Decidable (offset ≠ o ∧ offset ≠ blockStart o))
  | .updateRetrans offset _ _ => inferInstanceAs (Decidable (offset ≠ o))
  | .clearRecord => inferInstanceAs (Decidable False)
  | .checkReceived _ _ | .getPriority _ | .getRetransTimes _ => inferInstanceAs (Decidable True)

def answers (o : Nat) (trace : WindowTrace) : List Bool :=
  trace.filterMap (fun t => match t.action, t.reply with
    | .checkReceived offset false, .received answer => if offset = o then some answer else none
    | _, _ => none)

theorem answers_append (o : Nat) (xs ys : WindowTrace) :
    answers o (xs ++ ys) = answers o xs ++ answers o ys := List.filterMap_append

theorem blockStart_aligned (x : Nat) : blockStart x % 1024 = 0 := by
  unfold blockStart
  omega

theorem blockStart_of_aligned {o : Nat} (aligned : o % 1024 = 0) : blockStart o = o := by
  unfold blockStart
  omega

@[simp] theorem getPriority_updateRetrans (w : PktNumWindow) (x retrans received o : Nat) :
    (w.updateRetrans x retrans received).getPriority o = w.getPriority o := rfl

theorem getPriority_additem (w : PktNumWindow) (x priority o : Nat) :
    (w.additem x priority).getPriority o =
      if o = x ∧ x % 1024 = 0 then priority else w.getPriority o := by
  unfold additem
  dsimp only
  by_cases aligned : x % 1024 = 0
  · by_cases here : o = x
    · subst here
      simp [aligned, getPriority, updateRetrans]
    · simp [aligned, here, getPriority, updateRetrans, AList.lookup_insert_ne here]
  · simp [aligned]

theorem lookup_updateRetrans (w : PktNumWindow) (x retrans received o : Nat) :
    (w.updateRetrans x retrans received).record.lookup o =
      if o = x then some (retrans, received) else w.record.lookup o := by
  unfold updateRetrans
  by_cases here : o = x
  · subst here
    simp
  · simp [here, AList.lookup_insert_ne here]

theorem lookup_additem (w : PktNumWindow) (x priority o : Nat) :
    (w.additem x priority).record.lookup o =
      if o = x then some (priority, 1) else w.record.lookup o := by
  unfold additem
  rw [lookup_updateRetrans]
  split
  · rfl
  · split <;> rfl

theorem budget_congr {w w' : PktNumWindow} {o : Nat}
    (record : w'.record.lookup o = w.record.lookup o)
    (priority : blockPriority w' o = blockPriority w o) : budget w' o = budget w o := by
  unfold budget remaining
  rw [record, priority]

inductive CheckCase (w : PktNumWindow) (x : Nat) : PktNumWindow × Bool → Prop where
  | done {retrans : Nat} (found : w.record.lookup x = some (retrans, 1)) : CheckCase w x (w, true)
  | counted {retrans received : Nat} (found : w.record.lookup x = some (retrans + 1, received))
      (pending : received ≠ 1) : CheckCase w x (w.updateRetrans x retrans received, false)
  | last {received : Nat} (found : w.record.lookup x = some (0, received))
      (pending : received ≠ 1) : CheckCase w x (w.updateRetrans x 0 1, false)
  | opened (unknown : w.record.lookup x = none) (fresh : w.getPriority (blockStart x) = 0) :
      CheckCase w x ((w.additem (blockStart x) 3).updateRetrans x 2 0, false)
  | first {p : Nat} (unknown : w.record.lookup x = none)
      (priority : w.getPriority (blockStart x) = p + 1) :
      CheckCase w x (w.updateRetrans x p 0, false)

theorem check_cases (w : PktNumWindow) (x : Nat) : CheckCase w x (w.checkReceived x false) := by
  unfold checkReceived
  rw [if_pos rfl]
  cases found : w.record.lookup x with
  | some e =>
    obtain ⟨retrans, received⟩ := e
    dsimp only
    by_cases flag : received = 1
    · subst flag
      rw [if_pos rfl]
      exact .done found
    · rw [if_neg flag]
      cases retrans with
      | zero => exact .last found flag
      | succ retrans => exact .counted found flag
  | none =>
    dsimp only
    cases priority : w.getPriority (blockStart x) with
    | zero => exact .opened found priority
    | succ p => exact .first found priority

theorem check_sent (w : PktNumWindow) (x : Nat) : (w.checkReceived x true).1 = w := by
  unfold checkReceived
  rw [if_neg (by simp)]
  split <;> rfl

theorem blockPriority_updateRetrans (w : PktNumWindow) (x retrans received o : Nat) :
    blockPriority (w.updateRetrans x retrans received) o = blockPriority w o := rfl

theorem blockPriority_opened {w : PktNumWindow} {x : Nat} (fresh : w.getPriority (blockStart x) = 0)
    (o : Nat) : blockPriority (w.additem (blockStart x) 3) o = blockPriority w o := by
  unfold blockPriority
  rw [getPriority_additem]
  by_cases here : blockStart o = blockStart x
  · simp [here, blockStart_aligned, fresh]
  · simp [here]

theorem check_elsewhere {w : PktNumWindow} {o x : Nat} (settled : Settled w o) :
    Settled (w.checkReceived x false).1 o ∧
      (x ≠ o → budget (w.checkReceived x false).1 o = budget w o) := by
  have checked := check_cases w x
  generalize w.checkReceived x false = r at checked ⊢
  cases checked with
  | done _ => exact ⟨settled, fun _ => rfl⟩
  | counted _ _ | last _ _ | first _ _ =>
    refine ⟨settled, fun other => budget_congr ?_ rfl⟩
    rw [lookup_updateRetrans, if_neg (Ne.symm other)]
  | opened _ fresh =>
    have apart : o ≠ blockStart x := by
      rintro rfl
      rcases settled with unaligned | known
      · exact unaligned (blockStart_aligned x)
      · exact known fresh
    constructor
    · rcases settled with unaligned | known
      · exact Or.inl unaligned
      · right
        rw [getPriority_updateRetrans, getPriority_additem, if_neg (fun h => apart h.1)]
        exact known
    · intro other
      apply budget_congr
      · rw [lookup_updateRetrans, if_neg (Ne.symm other), lookup_additem, if_neg apart]
      · rw [blockPriority_updateRetrans, blockPriority_opened fresh]

theorem additem_elsewhere {w : PktNumWindow} {o x : Nat} (priority : Nat) (settled : Settled w o)
    (other : x ≠ o) (otherBlock : x ≠ blockStart o) :
    Settled (w.additem x priority) o ∧ budget (w.additem x priority) o = budget w o := by
  refine ⟨?_, budget_congr ?_ ?_⟩
  · rcases settled with unaligned | known
    · exact Or.inl unaligned
    · right
      rw [getPriority_additem, if_neg (fun h => other h.1.symm)]
      exact known
  · rw [lookup_additem, if_neg (Ne.symm other)]
  · have apart : ¬ (blockStart o = x ∧ x % 1024 = 0) := fun same => otherBlock same.1.symm
    unfold blockPriority
    simp only [getPriority_additem, if_neg apart]

theorem check_here (w : PktNumWindow) (o : Nat) :
    budget (w.checkReceived o false).1 o = budget w o - 1 ∧
      (w.checkReceived o false).2 = decide (budget w o = 0) := by
  have checked := check_cases w o
  generalize w.checkReceived o false = r at checked ⊢
  cases checked with
  | done found => simp [budget, remaining, found]
  | counted found pending => simp [budget, remaining, found, pending, lookup_updateRetrans]
  | last found pending => simp [budget, remaining, found, pending, lookup_updateRetrans]
  | opened unknown fresh =>
    simp [budget, remaining, unknown, blockPriority, fresh, lookup_updateRetrans]
  | first unknown priority =>
    simp [budget, remaining, unknown, blockPriority, priority, lookup_updateRetrans]

theorem getRetransTimes_remaining [Profile] {w : PktNumWindow} {o n : Nat}
    (known : remaining w o = some n) (fits : n < wordSize) : w.getRetransTimes o = .ok n := by
  unfold remaining at known
  obtain ⟨⟨retrans, received⟩, found, rfl⟩ := Option.map_eq_some_iff.mp known
  unfold getRetransTimes
  rw [found]
  dsimp only at fits ⊢
  split
  · rfl
  · rename_i pending
    rw [if_neg pending] at fits
    simp [addWord, fits]

structure Untouched (b : Nat) (w : PktNumWindow) : Prop where
  priority : w.getPriority b = 0
  records : ∀ x, blockStart x = b → w.record.lookup x = none

def OnlyChecked (b : Nat) (_ : PktNumWindow) : WindowCall → Prop
  | .additem offset _ | .updateItem offset _ | .updateRetrans offset _ _ => blockStart offset ≠ b
  | .clearRecord => False
  | .checkReceived _ _ | .getPriority _ | .getRetransTimes _ => True

instance (b : Nat) (w : PktNumWindow) (a : WindowCall) : Decidable (OnlyChecked b w a) :=
  match a with
  | .additem offset _ | .updateItem offset _ | .updateRetrans offset _ _ =>
    inferInstanceAs (Decidable (blockStart offset ≠ b))
  | .clearRecord => inferInstanceAs (Decidable False)
  | .checkReceived _ _ | .getPriority _ | .getRetransTimes _ => inferInstanceAs (Decidable True)

def checkedIn (b : Nat) (trace : WindowTrace) : List Nat :=
  trace.filterMap (fun t => match t.action with
    | .checkReceived offset false => if blockStart offset = b then some offset else none
    | _ => none)

theorem checkedIn_append (b : Nat) (xs ys : WindowTrace) :
    checkedIn b (xs ++ ys) = checkedIn b xs ++ checkedIn b ys := List.filterMap_append

theorem undisturbed_of_onlyChecked {b : Nat} (aligned : b % 1024 = 0) {w : PktNumWindow}
    {a : WindowCall} (may : OnlyChecked b w a) : Undisturbed b w a := by
  have own : blockStart b = b := blockStart_of_aligned aligned
  have apart : ∀ {x}, blockStart x ≠ b → x ≠ b := fun other same => other (by rw [same, own])
  cases a with
  | additem x _ | updateItem x _ => exact ⟨apart may, by rw [own]; exact apart may⟩
  | updateRetrans x _ _ => exact apart may
  | clearRecord => exact may.elim
  | checkReceived _ _ | getPriority _ | getRetransTimes _ => trivial

theorem untouched_updateRetrans {b x retrans received : Nat} {w : PktNumWindow}
    (fresh : Untouched b w) (other : blockStart x ≠ b) :
    Untouched b (w.updateRetrans x retrans received) := by
  refine ⟨fresh.priority, fun y here => ?_⟩
  have apart : y ≠ x := fun same => other (by rw [← same, here])
  rw [lookup_updateRetrans, if_neg apart]
  exact fresh.records y here

theorem untouched_additem {b x priority : Nat} {w : PktNumWindow} (fresh : Untouched b w)
    (other : blockStart x ≠ b) : Untouched b (w.additem x priority) := by
  refine ⟨?_, fun y here => ?_⟩
  · rw [getPriority_additem, if_neg]
    · exact fresh.priority
    · rintro ⟨same, aligned⟩
      exact other (by rw [blockStart_of_aligned aligned, same])
  · have apart : y ≠ x := fun same => other (by rw [← same, here])
    rw [lookup_additem, if_neg apart]
    exact fresh.records y here

theorem untouched_check {b x : Nat} {w : PktNumWindow} (fresh : Untouched b w)
    (other : blockStart x ≠ b) : Untouched b (w.checkReceived x false).1 := by
  have checked := check_cases w x
  generalize w.checkReceived x false = r at checked ⊢
  cases checked with
  | done _ => exact fresh
  | counted _ _ | last _ _ | first _ _ => exact untouched_updateRetrans fresh other
  | opened _ _ =>
    refine untouched_updateRetrans (untouched_additem fresh ?_) other
    rw [blockStart_of_aligned (blockStart_aligned x)]
    exact other

/-- The first check in a block records the first offset of the block as received, unless it is
    the check of that offset itself. -/
theorem check_opens {x : Nat} {w : PktNumWindow} (fresh : Untouched (blockStart x) w) :
    Settled (w.checkReceived x false).1 (blockStart x) ∧ (w.checkReceived x false).2 = false ∧
      budget (w.checkReceived x false).1 (blockStart x) = if x = blockStart x then 3 else 0 := by
  have checked := check_cases w x
  generalize w.checkReceived x false = r at checked ⊢
  cases checked with
  | done found => simp [fresh.records x rfl] at found
  | counted found _ => simp [fresh.records x rfl] at found
  | last found _ => simp [fresh.records x rfl] at found
  | first _ priority => simp [fresh.priority] at priority
  | opened _ _ =>
    refine ⟨Or.inr ?_, rfl, ?_⟩
    · rw [getPriority_updateRetrans, getPriority_additem, if_pos ⟨rfl, blockStart_aligned x⟩]
      decide
    · unfold budget remaining
      rw [lookup_updateRetrans, lookup_additem, if_pos rfl]
      by_cases own : x = blockStart x
      · rw [if_pos own.symm, if_pos own]
        rfl
      · rw [if_neg (Ne.symm own), if_neg own]
        rfl

section Runs
variable [Profile]

theorem step_budget {w w' : PktNumWindow} {o : Nat} {a : WindowCall} {r : WindowReply}
    (settled : Settled w o) (may : Undisturbed o w a) (taken : windowStep w a = .ok (w', r)) :
    Settled w' o ∧ budget w' o = budget w o - (answers o [⟨w, a, r, w'⟩]).length ∧
      ∀ answer ∈ answers o [⟨w, a, r, w'⟩], answer = decide (budget w o = 0) := by
  cases a with
  | checkReceived x sent =>
    simp only [windowStep, Except.ok.injEq, Prod.mk.injEq] at taken
    obtain ⟨rfl, rfl⟩ := taken
    cases sent with
    | true =>
      rw [check_sent]
      exact ⟨settled, rfl, nofun⟩
    | false =>
      obtain ⟨still, other⟩ := check_elsewhere (x := x) settled
      by_cases here : x = o
      · subst here
        obtain ⟨used, answer⟩ := check_here w x
        refine ⟨still, ?_, ?_⟩
        · rw [used]
          simp [answers]
        · simp [answers, answer]
      · refine ⟨still, ?_, ?_⟩
        · rw [other here]
          simp [answers, here]
        · simp [answers, here]
  | additem x priority =>
    cases taken
    obtain ⟨still, same⟩ := additem_elsewhere priority settled may.1 may.2
    exact ⟨still, same, nofun⟩
  | updateItem x priority =>
    cases taken
    obtain ⟨still, same⟩ := additem_elsewhere priority settled may.1 may.2
    exact ⟨still, same, nofun⟩
  | updateRetrans x retrans received =>
    cases taken
    refine ⟨settled, budget_congr ?_ rfl, nofun⟩
    rw [lookup_updateRetrans, if_neg (Ne.symm may)]
  | getPriority x =>
    cases taken
    exact ⟨settled, rfl, nofun⟩
  | getRetransTimes x =>
    obtain ⟨n, _, done⟩ := bind_ok_iff.mp taken
    cases done
    exact ⟨settled, rfl, nofun⟩
  | clearRecord => exact may.elim

structure Counts (o n : Nat) (trace : WindowTrace) (w : PktNumWindow) : Prop where
  settled : Settled w o
  answered : answers o trace =
    (List.range (answers o trace).length).map (fun i => decide (n ≤ i))
  left : budget w o = n - (answers o trace).length

theorem counts_step {o n : Nat} {trace : WindowTrace} {w w' : PktNumWindow} {a : WindowCall}
    {r : WindowReply} (before : Counts o n trace w) (may : Undisturbed o w a)
    (taken : windowStep w a = .ok (w', r)) : Counts o n (trace ++ [⟨w, a, r, w'⟩]) w' := by
  obtain ⟨still, used, answer⟩ := step_budget before.settled may taken
  refine ⟨still, ?_, ?_⟩
  · rw [answers_append, List.length_append]
    cases here : answers o [⟨w, a, r, w'⟩] with
    | nil => simpa using before.answered
    | cons b rest =>
      have single : rest = [] := by
        have length : (b :: rest).length ≤ 1 := by
          rw [← here]
          exact List.length_filterMap_le _ _
        exact List.length_eq_zero_iff.mp (by simpa using length)
      rw [single, List.length_singleton, List.range_succ, List.map_append, ← before.answered]
      rw [answer b (by rw [here]; exact List.mem_cons_self), before.left]
      simp [Nat.sub_eq_zero_iff_le]
  · rw [answers_append, List.length_append, used, before.left]
    omega

theorem step_opens {b : Nat} (aligned : b % 1024 = 0) {w w' : PktNumWindow} {a : WindowCall}
    {r : WindowReply} (fresh : Untouched b w) (may : OnlyChecked b w a)
    (taken : windowStep w a = .ok (w', r)) :
    (checkedIn b [⟨w, a, r, w'⟩] = [] ∧ answers b [⟨w, a, r, w'⟩] = [] ∧ Untouched b w') ∨
      ∃ x, checkedIn b [⟨w, a, r, w'⟩] = [x] ∧
        Counts b (if x = b then 4 else 0) [⟨w, a, r, w'⟩] w' := by
  have own : blockStart b = b := blockStart_of_aligned aligned
  cases a with
  | checkReceived x sent =>
    simp only [windowStep, Except.ok.injEq, Prod.mk.injEq] at taken
    obtain ⟨rfl, rfl⟩ := taken
    cases sent with
    | true =>
      rw [check_sent]
      exact Or.inl ⟨rfl, rfl, fresh⟩
    | false =>
      by_cases here : blockStart x = b
      · subst here
        obtain ⟨settled, asked, left⟩ := check_opens fresh
        refine Or.inr ⟨x, by simp [checkedIn], settled, ?_, ?_⟩
        · by_cases same : x = blockStart x
          · simp [answers, asked, ← same]
          · simp [answers, same]
        · rw [left]
          by_cases same : x = blockStart x
          · simp [answers, ← same]
          · simp [answers, same]
      · have apart : x ≠ b := fun same => here (by rw [same, own])
        exact Or.inl ⟨by simp [checkedIn, here], by simp [answers, apart],
          untouched_check fresh here⟩
  | additem x _ | updateItem x _ =>
    cases taken
    exact Or.inl ⟨rfl, rfl, untouched_additem fresh may⟩
  | updateRetrans x _ _ =>
    cases taken
    exact Or.inl ⟨rfl, rfl, untouched_updateRetrans fresh may⟩
  | getPriority x =>
    cases taken
    exact Or.inl ⟨rfl, rfl, fresh⟩
  | getRetransTimes x =>
    obtain ⟨n, _, done⟩ := bind_ok_iff.mp taken
    cases done
    exact Or.inl ⟨rfl, rfl, fresh⟩
  | clearRecord => exact may.elim

/-- From a window that knows nothing of a block, the first offset of the block is asked for four
    times if it is the first of its block to be checked, and never if another one is. -/
theorem block_start_asked {w0 : PktNumWindow} {b : Nat} (aligned : b % 1024 = 0)
    (fresh : Untouched b w0) {trace : WindowTrace} {w : PktNumWindow}
    (run : Run windowStep (OnlyChecked b) w0 trace w) {x : Nat}
    (first : (checkedIn b trace).head? = some x) :
    answers b trace = (List.range (answers b trace).length).map
      (fun i => decide ((if x = b then 4 else 0) ≤ i)) := by
  have opened : (checkedIn b trace = [] ∧ answers b trace = [] ∧ Untouched b w) ∨
      ∃ x, (checkedIn b trace).head? = some x ∧ Counts b (if x = b then 4 else 0) trace w := by
    refine run_invariant (fun trace w =>
      (checkedIn b trace = [] ∧ answers b trace = [] ∧ Untouched b w) ∨
        ∃ x, (checkedIn b trace).head? = some x ∧ Counts b (if x = b then 4 else 0) trace w)
      (Or.inl ⟨rfl, rfl, fresh⟩) ?_ run
    intro trace w a r w' _ before may taken
    rcases before with ⟨unchecked, unanswered, fresh⟩ | ⟨x, first, counts⟩
    · rcases step_opens aligned fresh may taken with ⟨here, silent, still⟩ | ⟨x, here, counts⟩
      · left
        rw [checkedIn_append, answers_append, unchecked, unanswered, here, silent]
        exact ⟨rfl, rfl, still⟩
      · right
        refine ⟨x, by rw [checkedIn_append, unchecked, here]; rfl, counts.settled, ?_, ?_⟩
        · rw [answers_append, unanswered, List.nil_append]
          exact counts.answered
        · rw [answers_append, unanswered, List.nil_append]
          exact counts.left
    · right
      refine ⟨x, ?_, counts_step counts (undisturbed_of_onlyChecked aligned may) taken⟩
      rw [checkedIn_append, List.head?_append, first, Option.some_or]
  rcases opened with ⟨unchecked, _⟩ | ⟨y, first', counts⟩
  · rw [unchecked] at first
    cases first
  · rw [first'] at first
    cases first
    exact counts.answered

end Runs

def sixChecks : List WindowCall :=
  [.checkReceived 100 false, .checkReceived 2048 false, .additem 1024 7] ++
    List.replicate 3 (.checkReceived 100 false) ++ [.getRetransTimes 100] ++
    List.replicate 2 (.checkReceived 100 false)

theorem block_start_never_asked : ∃ (trace : WindowTrace) (w : PktNumWindow),
    Run (@windowStep checkedBuild) (OnlyChecked 1024) PktNumWindow.new trace w ∧
      checkedIn 1024 trace = [1500, 1024, 1024] ∧ answers 1024 trace = [true, true] := by
  have passed : passes (@windowStep checkedBuild) (OnlyChecked 1024) PktNumWindow.new
      [.checkReceived 1500 false, .additem 0 2, .checkReceived 1024 false, .checkReceived 1024 false]
      (fun trace _ => checkedIn 1024 trace == [1500, 1024, 1024] &&
        (answers 1024 trace).length == 2) = true := by
    decide +kernel
  obtain ⟨trace, w, run, played, outcome⟩ := played_run passed
  simp only [Bool.and_eq_true, beq_iff_eq] at outcome
  obtain ⟨checked, count⟩ := outcome
  have asked := @block_start_asked checkedBuild PktNumWindow.new 1024 (by decide)
    ⟨rfl, fun _ _ => rfl⟩ trace w run 1500 (by rw [checked]; rfl)
  rw [count] at asked
  exact ⟨trace, w, run, checked, asked⟩

end DmludpWindowAsks
