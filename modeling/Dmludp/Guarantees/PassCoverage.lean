import Dmludp.Guarantees.SendQueue

/- One pass over the send buffer, from one `stop` to the next. The cursor is an index, and `write`
   removes acknowledged chunks without moving it; a chunk behind the removed ones then slips under
   the cursor. The other way to miss bytes is a chunk longer than the output buffer. -/
namespace DmludpPassCoverage
open ByteCursor RustOutcome TracedRun OrderedMap DmludpPacket DmludpRange DmludpSend
open DmludpSendQueue DmludpReference

abbrev SendRecord : Type := Transition SendBuf SendOp SendReply

def PassCall (_s : SendBuf) : SendOp → Prop
  | .write _ _ _ _ => True
  | .ackAndDrop _ => True
  | .emit out => sendBufferSize ≤ out.length
  | .clear => False
  | .reset => False

def returned (t : SendRecord) : Option (Nat × Nat × Bool) :=
  match t.reply with
  | .emitted _ (.ok r) => some r
  | _ => none

def stops (t : SendRecord) : Bool := (returned t).any (fun r => r.2.2)

def sinceStop (trace : SendTrace) : SendTrace :=
  trace.foldl (fun pass t => if stops t then [] else pass ++ [t]) []

theorem sinceStop_snoc (trace : SendTrace) (t : SendRecord) :
    sinceStop (trace ++ [t]) = if stops t then [] else sinceStop trace ++ [t] := by
  simp [sinceStop]

/-- The call copied the whole chunk `b` and reported its offset and length. -/
def Emits (t : SendRecord) (b : RangeBuf) : Prop :=
  ∃ out out' stop, t.action = .emit out ∧
    t.reply = .emitted out' (.ok (b.data.length, b.off % wordSize, stop)) ∧
    t.before.data[t.before.pos]? = some b ∧ out'.take b.data.length = b.data

def EmittedIn (pass : SendTrace) (b : RangeBuf) : Prop := ∃ t ∈ pass, Emits t b

/-- `emit` reports `stop` with no chunk after the one under the cursor. -/
def EndOfQueue (t : SendRecord) : Prop :=
  stops t = true ∧ t.before.data.length ≤ t.before.pos + 1

/-- What lies behind the cursor was emitted in this pass, and a pass that came to the end of the
    queue emitted everything in it. -/
structure SkipsNothing (trace : SendTrace) (s : SendBuf) : Prop where
  inside : s.pos ≤ s.data.length
  behind : ∀ b ∈ s.data.take s.pos, EmittedIn (sinceStop trace) b
  whole : ∀ before t, trace = before ++ [t] → EndOfQueue t →
    ∀ b ∈ s.data, EmittedIn (sinceStop before ++ [t]) b

/-- A `write` finds no acknowledged chunk behind the cursor; an `emit` has room for the chunk under
    the cursor, unless it uses up the window before the last chunk. -/
def KeepsPlace (s : SendBuf) : SendOp → Prop
  | .write _ _ _ _ => ∀ b ∈ s.data.take s.pos, (b.off, false) ∉ s.offsetRecv.entries
  | .emit out => ∀ b ∈ s.data[s.pos]?, b.data.length ≤ out.length ∨
      (s.pos + 1 < s.data.length ∧ s.maxData ≤ s.sent + out.length)
  | _ => True

/-- The queue during a pass: nothing from the cursor on has been emitted. -/
structure Passing (trace : SendTrace) (s : SendBuf) : Prop where
  inStep : InStep trace s
  chunks : ∀ b ∈ s.data, b.Whole ∧ 0 < b.data.length
  ahead : ∀ b, EmittedIn (sinceStop trace) b → b ∉ s.data.drop s.pos ∧ b.off < s.off

theorem emits_emit {t : SendRecord} {b : RangeBuf} (emits : Emits t b) :
    ∃ out, t.action = .emit out := by
  obtain ⟨out, _, _, action, _⟩ := emits
  exact ⟨out, action⟩

theorem quiet_pass {trace : SendTrace} {t : SendRecord} (quiet : ∀ out, t.action ≠ .emit out)
    (going : stops t = false) (b : RangeBuf) :
    EmittedIn (sinceStop (trace ++ [t])) b ↔ EmittedIn (sinceStop trace) b := by
  rw [sinceStop_snoc, going]
  simp only [Bool.false_eq_true, ↓reduceIte]
  constructor
  · rintro ⟨u, mem, emits⟩
    rcases List.mem_append.mp mem with earlier | last
    · exact ⟨u, earlier, emits⟩
    · obtain ⟨out, action⟩ := emits_emit emits
      rw [List.mem_singleton.mp last] at action
      exact absurd action (quiet out)
  · rintro ⟨u, mem, emits⟩
    exact ⟨u, List.mem_append_left _ mem, emits⟩

theorem skipsNothing_snoc {trace : SendTrace} {t : SendRecord} {s : SendBuf} :
    SkipsNothing (trace ++ [t]) s ↔ s.pos ≤ s.data.length ∧
      (∀ b ∈ s.data.take s.pos, EmittedIn (sinceStop (trace ++ [t])) b) ∧
      (EndOfQueue t → ∀ b ∈ s.data, EmittedIn (sinceStop trace ++ [t]) b) := by
  constructor
  · intro skips
    exact ⟨skips.inside, skips.behind, skips.whole trace t rfl⟩
  · rintro ⟨inside, behind, whole⟩
    refine ⟨inside, behind, ?_⟩
    intro before u split
    obtain ⟨rfl, rfl⟩ := List.append_singleton_inj.mp split
    exact whole

theorem skipsNothing_quiet {trace : SendTrace} {t : SendRecord} {s : SendBuf}
    (quiet : ∀ out, t.action ≠ .emit out) (going : stops t = false) :
    SkipsNothing (trace ++ [t]) s ↔ s.pos ≤ s.data.length ∧
      ∀ b ∈ s.data.take s.pos, EmittedIn (sinceStop trace) b := by
  have unended : ¬ EndOfQueue t := by
    rintro ⟨stopped, _⟩
    rw [going] at stopped
    cases stopped
  simp only [skipsNothing_snoc, quiet_pass quiet going, unended, false_imp_iff, and_true]

theorem lockstep_ordered {s : SendBuf} (lockstep : s.Lockstep) :
    s.data.Pairwise (fun a b => a.off < b.off) := by
  have ascending : s.offsetRecv.keys.Pairwise (fun a b => a < b) :=
    List.pairwise_map.mpr s.offsetRecv.ascending
  rw [lockstep] at ascending
  exact List.pairwise_map.mp ascending

theorem front_not_later {s : SendBuf} {b : RangeBuf} {rest : List RangeBuf} (lockstep : s.Lockstep)
    (front : s.data.drop s.pos = b :: rest) : b ∉ s.data.drop (s.pos + 1) := by
  have tail : s.data.drop (s.pos + 1) = rest := by
    rw [← List.drop_drop, front]
    rfl
  have ordered := (lockstep_ordered lockstep).sublist (List.drop_sublist s.pos s.data)
  rw [front, List.pairwise_cons] at ordered
  rw [tail]
  intro mem
  exact Nat.lt_irrefl b.off (ordered.1 b mem)

abbrev copyRecord (s s' : SendBuf) (out : Bytes) (b : RangeBuf) (n : Nat) (stop : Bool) : SendRecord :=
  ⟨s, .emit out, .emitted (splice out 0 (b.data.take n)) (.ok (n, b.off % wordSize, stop)), s'⟩

theorem copied_emits_iff {s s' : SendBuf} {out : Bytes} {b c : RangeBuf} {n : Nat} {stop : Bool}
    (cursor : s.data[s.pos]? = some b) (size : n = min b.data.length out.length) :
    Emits (copyRecord s s' out b n stop) c ↔ c = b ∧ b.data.length ≤ out.length := by
  constructor
  · rintro ⟨_, _, _, _, reply, here, _⟩
    simp only [SendReply.emitted.injEq, Except.ok.injEq, Prod.mk.injEq] at reply
    rw [cursor, Option.some.injEq] at here
    subst here
    exact ⟨rfl, by omega⟩
  · rintro ⟨rfl, fits⟩
    have all : n = c.data.length := by omega
    subst all
    refine ⟨out, _, stop, rfl, rfl, cursor, ?_⟩
    simp [splice]

theorem emittedIn_snoc {pass : SendTrace} {t : SendRecord} {b : RangeBuf} :
    EmittedIn (pass ++ [t]) b ↔ EmittedIn pass b ∨ Emits t b := by
  simp [EmittedIn, or_and_right, exists_or]

theorem copied_covers_iff {trace : SendTrace} {s s' : SendBuf} {out : Bytes} {b : RangeBuf}
    {rest : List RangeBuf} {n : Nat} {stop : Bool} (passing : Passing trace s)
    (good : SkipsNothing trace s) (front : s.data.drop s.pos = b :: rest)
    (size : n = min b.data.length out.length) (data : s'.data = s.data)
    (ending : stop = true ↔ s.maxData ≤ s.sent + n ∨ s.pos + 1 = s.data.length)
    (pos : (s'.pos = 0 ∧ stop = true) ∨ (s'.pos = s.pos + 1 ∧ stop = false)) :
    SkipsNothing (trace ++ [copyRecord s s' out b n stop]) s' ↔ KeepsPlace s (.emit out) := by
  have cursor := front_at_cursor front
  obtain ⟨inside, _⟩ := List.getElem?_eq_some_iff.mp cursor
  have reached : s.data.take (s.pos + 1) = s.data.take s.pos ++ [b] := by
    rw [List.take_add_one, cursor]
    rfl
  have unsent : ¬ EmittedIn (sinceStop trace) b := by
    intro emitted
    exact (passing.ahead b emitted).1 (by rw [front]; exact List.mem_cons_self)
  -- what lies up to and including the cursor was emitted just when the chunk there fits
  have covered : (∀ c ∈ s.data.take (s.pos + 1),
      EmittedIn (sinceStop trace ++ [copyRecord s s' out b n stop]) c) ↔
        b.data.length ≤ out.length := by
    simp only [reached, List.forall_mem_append, List.forall_mem_singleton, emittedIn_snoc,
      copied_emits_iff cursor size, unsent, false_or, true_and]
    exact and_iff_right (fun c mem => Or.inl (good.behind c mem))
  have condition : KeepsPlace s (.emit out) ↔ b.data.length ≤ out.length ∨
      (s.pos + 1 < s.data.length ∧ s.maxData ≤ s.sent + out.length) := by
    simp [KeepsPlace, cursor]
  rw [condition]
  rcases pos with ⟨back, stopped⟩ | ⟨next, going⟩
  · have fresh : s'.data.take s'.pos = [] := by rw [back, List.take_zero]
    have halves : SkipsNothing (trace ++ [copyRecord s s' out b n stop]) s' ↔
        (s.data.length ≤ s.pos + 1 → b.data.length ≤ out.length) := by
      rw [skipsNothing_snoc]
      constructor
      · rintro ⟨_, _, whole⟩ ended
        rw [← covered, List.take_of_length_le ended, ← data]
        exact whole ⟨stopped, ended⟩
      · intro fits
        refine ⟨by rw [back]; exact Nat.zero_le _, by rw [fresh]; simp, ?_⟩
        intro ended
        rw [data, ← List.take_of_length_le ended.2]
        exact covered.mpr (fits ended.2)
    rw [halves]
    have reason := ending.mp stopped
    omega
  · have unended : ¬ EndOfQueue (copyRecord s s' out b n stop) := by
      rintro ⟨stopped, _⟩
      rw [show stop = true from stopped] at going
      cases going
    have open_ : ¬ (s.maxData ≤ s.sent + n ∨ s.pos + 1 = s.data.length) := by
      rw [← ending, going]
      simp
    have same : SkipsNothing (trace ++ [copyRecord s s' out b n stop]) s' ↔
        b.data.length ≤ out.length := by
      rw [skipsNothing_snoc, ← covered, data, next, sinceStop_snoc,
        if_neg (by simp [stops, returned, going])]
      constructor
      · rintro ⟨_, all, _⟩
        exact all
      · intro all
        exact ⟨inside, all, fun ended => absurd ended unended⟩
    rw [same]
    omega

theorem idle_covers {trace : SendTrace} {s s' : SendBuf} {out out' : Bytes} {n off : Nat}
    (good : SkipsNothing trace s) (beyond : s.data.length ≤ s.pos) (data : s'.data = s.data)
    (back : s'.pos = 0) :
    SkipsNothing (trace ++ [⟨s, .emit out, .emitted out' (.ok (n, off, true)), s'⟩]) s' := by
  refine skipsNothing_snoc.mpr ⟨by rw [back]; exact Nat.zero_le _, by rw [back]; simp, ?_⟩
  intro _ b mem
  rw [data, ← List.take_of_length_le beyond] at mem
  exact emittedIn_snoc.mpr (Or.inl (good.behind b mem))

theorem filtered_front_iff {α : Type} {E : α → Prop} {p : α → Bool} {front later : List α}
    (sent : ∀ a ∈ front, E a) (unsent : ∀ a ∈ later, ¬ E a) :
    (front.length ≤ (front.filter p ++ later).length ∧
      ∀ a ∈ (front.filter p ++ later).take front.length, E a) ↔ ∀ a ∈ front, p a = true := by
  constructor
  · rintro ⟨long, all⟩
    by_contra missing
    push Not at missing
    have shorter : (front.filter p).length < front.length :=
      List.length_filter_lt_length_iff_exists.mpr missing
    cases later with
    | nil =>
      rw [List.append_nil] at long
      omega
    | cons c rest =>
      refine unsent c List.mem_cons_self (all c ?_)
      obtain ⟨k, room⟩ : ∃ k, front.length - (front.filter p).length = k + 1 :=
        ⟨front.length - (front.filter p).length - 1, by omega⟩
      rw [List.take_append, room, List.take_succ_cons]
      exact List.mem_append_right _ List.mem_cons_self
  · intro kept
    rw [List.filter_eq_self.mpr kept]
    refine ⟨by simp, ?_⟩
    rw [List.take_left]
    exact sent

/-- A `write` leaves what lies behind the cursor, less what was acknowledged there, and then chunks
    that this pass has not emitted. -/
theorem write_queue {trace : SendTrace} {s kept s' : SendBuf} {data : Bytes}
    {windowSize offLen n : Nat} {maxAck : UInt64} {pieces : List Bytes} (passing : Passing trace s)
    (dropped : s.recvAndDrop maxAck = .ok kept)
    (filled : SendBuf.Filled kept s' data windowSize offLen n pieces) :
    s'.pos = s.pos ∧ s.off ≤ s'.off ∧ (∀ b ∈ s'.data, b.Whole ∧ 0 < b.data.length) ∧
      ∃ later, s'.data = (s.data.take s.pos).filter (fun b => decide ((b.off, false) ∉
        s.offsetRecv.entries)) ++ later ∧ ∀ b ∈ later, ¬ EmittedIn (sinceStop trace) b := by
  obtain ⟨kept', dropped', left⟩ := recvAndDrop_filter passing.inStep.lockstep maxAck
  rw [dropped, Except.ok.injEq] at dropped'
  subst dropped'
  obtain ⟨_, _, frame, _⟩ := SendBuf.recvAndDrop_frame dropped
  have keptOff : kept.off = s.off := by rw [frame]
  refine ⟨by rw [filled.pos, frame], by rw [filled.off, keptOff]; exact Nat.le_add_right _ _, ?_, ?_⟩
  · intro b mem
    rw [filled.queue, left] at mem
    rcases List.mem_append.mp mem with old | new
    · exact passing.chunks b (List.mem_of_mem_filter old)
    · obtain ⟨whole, positive, _⟩ := SendBuf.filled_chunk filled new
      exact ⟨whole, positive⟩
  · refine ⟨(s.data.drop s.pos).filter (fun b => decide ((b.off, false) ∉ s.offsetRecv.entries)) ++
      SendBuf.place kept.off pieces, ?_, ?_⟩
    · rw [filled.queue, left, ← List.append_assoc, ← List.filter_append, List.take_append_drop]
    · intro b mem emitted
      obtain ⟨ahead, below⟩ := passing.ahead b emitted
      rcases List.mem_append.mp mem with old | new
      · exact ahead (List.mem_of_mem_filter old)
      · obtain ⟨_, _, low, _⟩ := SendBuf.filled_chunk filled new
        omega

theorem write_passing {trace : SendTrace} {s kept s' : SendBuf} {data : Bytes}
    {windowSize offLen n : Nat} {maxAck : UInt64} {pieces : List Bytes} {result : Except Error Nat}
    (passing : Passing trace s) (good : SkipsNothing trace s)
    (dropped : s.recvAndDrop maxAck = .ok kept)
    (filled : SendBuf.Filled kept s' data windowSize offLen n pieces) :
    (SkipsNothing (trace ++ [⟨s, .write data windowSize offLen maxAck, .wrote result, s'⟩]) s' ↔
      KeepsPlace s (.write data windowSize offLen maxAck)) ∧
      (SkipsNothing (trace ++ [⟨s, .write data windowSize offLen maxAck, .wrote result, s'⟩]) s' →
        Passing (trace ++ [⟨s, .write data windowSize offLen maxAck, .wrote result, s'⟩]) s') := by
  obtain ⟨pos, grown, chunks, later, queue, unsent⟩ := write_queue passing dropped filled
  have front : (s.data.take s.pos).length = s.pos := List.length_take_of_le good.inside
  have place := filtered_front_iff (p := fun b => decide ((b.off, false) ∉ s.offsetRecv.entries))
    good.behind unsent
  rw [front, ← queue] at place
  have condition : KeepsPlace s (.write data windowSize offLen maxAck) ↔ ∀ b ∈ s.data.take s.pos,
      decide ((b.off, false) ∉ s.offsetRecv.entries) = true := by
    simp only [KeepsPlace, decide_eq_true_eq]
  have same : SkipsNothing (trace ++
      [⟨s, .write data windowSize offLen maxAck, .wrote result, s'⟩]) s' ↔
        KeepsPlace s (.write data windowSize offLen maxAck) := by
    rw [skipsNothing_quiet (by simp) rfl, pos, condition, ← place]
  refine ⟨same, ?_⟩
  intro skips
  refine ⟨write_inStep passing.inStep dropped filled, chunks, ?_⟩
  intro b emitted
  rw [quiet_pass (by simp) rfl] at emitted
  obtain ⟨_, below⟩ := passing.ahead b emitted
  refine ⟨?_, by omega⟩
  intro mem
  -- nothing behind the cursor was dropped, so what is ahead of it now was ahead before
  have kept_all := List.filter_eq_self.mpr (condition.mp (same.mp skips))
  rw [queue, kept_all, pos] at mem
  nth_rewrite 1 [← front] at mem
  rw [List.drop_left] at mem
  exact unsent b mem emitted

section Steps
variable [Profile]

theorem emit_passing {trace : SendTrace} {s s' : SendBuf} {out out' : Bytes} {n off : Nat}
    {stop : Bool} (passing : Passing trace s) (good : SkipsNothing trace s)
    (room : sendBufferSize ≤ out.length)
    (done : s.emit out = .ok (s', out', .ok (n, off, stop))) :
    (SkipsNothing (trace ++ [⟨s, .emit out, .emitted out' (.ok (n, off, stop)), s'⟩]) s' ↔
      KeepsPlace s (.emit out)) ∧
      Passing (trace ++ [⟨s, .emit out, .emitted out' (.ok (n, off, stop)), s'⟩]) s' := by
  have inStep' := (step_inStep (o := .emitted out' (.ok (n, off, stop))) passing.inStep
    (.emit done)).1 trivial
  cases SendBuf.emit_step passing.chunks done with
  | idle nothing low =>
    have beyond : s.data.length ≤ s.pos := by omega
    have ended : s.pos = s.data.length := Nat.le_antisymm good.inside beyond
    have stopped : (s.settle out.length).2 = true := (SendBuf.settle_stop_iff s _).mpr (Or.inr ended)
    have back : (s.settle out.length).1.pos = 0 := by
      rcases SendBuf.settle_cases s out.length with ending | going
      · exact ending.1
      · exact absurd ended going.2.2
    have empty : s.data[s.pos]? = none := List.getElem?_eq_none beyond
    rw [stopped] at inStep' ⊢
    constructor
    · refine iff_of_true (idle_covers good beyond (settled_data s _) back) ?_
      simp [KeepsPlace, empty]
    · refine ⟨inStep', by rw [settled_data]; exact passing.chunks, ?_⟩
      rintro b ⟨t, mem, _⟩
      simp [sinceStop_snoc, stops, returned] at mem
  | @copied b rest _ _ len usedLength front _ size low left used =>
    subst low
    generalize step : ({ s with len := len, usedLength := usedLength, pos := s.pos + 1 } : SendBuf) =
      s1 at inStep' ⊢
    have ending : (s1.settle n).2 = true ↔ s.maxData ≤ s.sent + n ∨ s.pos + 1 = s.data.length := by
      rw [SendBuf.settle_stop_iff, ← step]
    have moved := SendBuf.settle_cases s1 n
    have next_ : s1.pos = s.pos + 1 := by rw [← step]
    have data : (s1.settle n).1.data = s.data := by rw [settled_data, ← step]
    have end_ : (s1.settle n).1.off = s.off := by rw [settled_off, ← step]
    generalize s1.settle n = after at inStep' ending moved data end_ ⊢
    obtain ⟨s', stop⟩ := after
    have pos : (s'.pos = 0 ∧ stop = true) ∨ (s'.pos = s.pos + 1 ∧ stop = false) :=
      moved.imp id (fun going => ⟨going.1.trans next_, going.2.1⟩)
    refine ⟨copied_covers_iff passing good front size data ending pos, inStep',
      by rw [show s'.data = s.data from data]; exact passing.chunks, ?_⟩
    intro c emitted
    rcases pos with ⟨_, stopped⟩ | ⟨next, going⟩
    · obtain ⟨t, mem, _⟩ := emitted
      simp [sinceStop_snoc, stops, returned, stopped] at mem
    · rw [sinceStop_snoc, if_neg (by simp [stops, returned, going]), emittedIn_snoc] at emitted
      rw [show s'.data = s.data from data, next, show s'.off = s.off from end_]
      rcases emitted with earlier | now
      · obtain ⟨ahead, below⟩ := passing.ahead c earlier
        refine ⟨fun mem => ahead ?_, below⟩
        rw [← List.drop_drop] at mem
        exact List.mem_of_mem_drop mem
      · obtain ⟨rfl, _⟩ := (copied_emits_iff (front_at_cursor front) size).mp now
        refine ⟨front_not_later passing.inStep.lockstep front, passing.inStep.below c ?_⟩
        exact List.mem_of_getElem? (front_at_cursor front)

theorem step_passing {trace : SendTrace} {s s' : SendBuf} {a : SendOp} {o : SendReply}
    (passing : Passing trace s) (good : SkipsNothing trace s) (may : PassCall s a)
    (taken : QueueCase s a o s') :
    (SkipsNothing (trace ++ [⟨s, a, o, s'⟩]) s' ↔ KeepsPlace s a) ∧
      (SkipsNothing (trace ++ [⟨s, a, o, s'⟩]) s' → Passing (trace ++ [⟨s, a, o, s'⟩]) s') := by
  cases taken with
  | write dropped filled => exact write_passing passing good dropped filled
  | emit done =>
    obtain ⟨same, passing'⟩ := emit_passing passing good may done
    exact ⟨same, fun _ => passing'⟩
  | @ackAndDrop offset =>
    constructor
    · refine iff_of_true ?_ trivial
      rw [skipsNothing_quiet (by simp) rfl]
      exact ⟨good.inside, good.behind⟩
    · intro _
      refine ⟨ack_inStep passing.inStep, passing.chunks, ?_⟩
      intro b emitted
      rw [quiet_pass (by simp) rfl] at emitted
      exact passing.ahead b emitted
  | clear => exact absurd may (by simp [PassCall])
  | reset _ => exact absurd may (by simp [PassCall])

theorem passes_skip_nothing_iff (maxData : Nat) {trace : SendTrace} {s : SendBuf}
    (run : Run queueStep PassCall (SendBuf.new maxData) trace s) :
    (SkipsNothing [] (SendBuf.new maxData) ∧
      Along (fun before t => SkipsNothing (before ++ [t]) t.after) trace) ↔
      ∀ t ∈ trace, KeepsPlace t.before t.action := by
  have good : SkipsNothing [] (SendBuf.new maxData) :=
    ⟨Nat.le_refl _, by simp [SendBuf.new], by simp⟩
  have fresh : Passing [] (SendBuf.new maxData) :=
    ⟨inStep_empty rfl rfl, by simp [SendBuf.new], by simp [EmittedIn, sinceStop]⟩
  have stepwise := record_exact Passing SkipsNothing (fun _ s a => KeepsPlace s a) fresh good
    (fun _ _ _ _ _ passing skips may taken =>
      step_passing passing skips may (queueStep_cases taken)) run
  rw [and_iff_right good, stepwise.1, along_each]

end Steps

instance (s : SendBuf) (a : SendOp) : Decidable (PassCall s a) :=
  match a with
  | .write _ _ _ _ => inferInstanceAs (Decidable True)
  | .ackAndDrop _ => inferInstanceAs (Decidable True)
  | .emit out => inferInstanceAs (Decidable (sendBufferSize ≤ out.length))
  | .clear => inferInstanceAs (Decidable False)
  | .reset => inferInstanceAs (Decidable False)

instance (s : SendBuf) (a : SendOp) : Decidable (KeepsPlace s a) :=
  match a with
  | .write _ _ _ _ => inferInstanceAs (Decidable (∀ _ ∈ _, _))
  | .emit _ => inferInstanceAs (Decidable (∀ _ ∈ _, _))
  | .ackAndDrop _ => inferInstanceAs (Decidable True)
  | .clear => inferInstanceAs (Decidable True)
  | .reset => inferInstanceAs (Decidable True)

theorem interrupted_pass_complete : ∃ (trace : SendTrace) (s : SendBuf),
    Run (@queueStep checkedBuild) PassCall (SendBuf.new 0) trace s ∧
      trace.map (fun t => t.action) = [.write [1, 2, 3] 5000 1 0, .emit (zeros 1024),
        .ackAndDrop 1, .write [4] 5000 0 0, .emit (zeros 1024)] ∧
      trace.map (fun t => (returned t).isSome) = [false, true, false, false, true] ∧
      s.data.map (fun b => b.off) = [0, 3] ∧
      Along (fun before t => SkipsNothing (before ++ [t]) t.after) trace := by
  have passed : passes (@queueStep checkedBuild) PassCall (SendBuf.new 0)
      [.write [1, 2, 3] 5000 1 0, .emit (zeros 1024), .ackAndDrop 1, .write [4] 5000 0 0,
        .emit (zeros 1024)]
      (fun trace s => decide (trace.map (fun t => (returned t).isSome) =
          [false, true, false, false, true]) &&
        decide (s.data.map (fun b => b.off) = [0, 3]) &&
        trace.all (fun t => decide (KeepsPlace t.before t.action))) = true := by decide +kernel
  obtain ⟨trace, s, run, played, outcome⟩ := played_run passed
  simp only [Bool.and_eq_true, decide_eq_true_eq, List.all_eq_true] at outcome
  obtain ⟨⟨shape, queue⟩, keeps⟩ := outcome
  exact ⟨trace, s, run, played, shape, queue,
    ((@passes_skip_nothing_iff checkedBuild 0 trace s run).mpr keeps).2⟩

theorem emits_returned {t : SendRecord} {b : RangeBuf} (emits : Emits t b) :
    ∃ stop, returned t = some (b.data.length, b.off % wordSize, stop) := by
  obtain ⟨_, _, stop, _, reply, _⟩ := emits
  exact ⟨stop, by rw [returned, reply]⟩

theorem sinceStop_subset (trace : SendTrace) : sinceStop trace ⊆ trace := by
  induction trace using List.reverseRecOn with
  | nil => simp [sinceStop]
  | append_singleton earlier t ih =>
    rw [sinceStop_snoc]
    split
    · simp
    · intro u mem
      rcases List.mem_append.mp mem with old | last
      · exact List.mem_append_left _ (ih old)
      · exact List.mem_append_right _ last

/-- The emitted chunk is acknowledged and dropped in the middle of the pass; the next one slips
    behind the cursor, and the pass ends with `stop` without having emitted it. -/
theorem shifted_chunk_skipped : ∃ (trace : SendTrace) (s : SendBuf),
    Run (@queueStep checkedBuild) PassCall (SendBuf.new 0) trace s ∧
      trace.map (fun t => t.action) = [.write [1, 2, 3] 5000 1 0, .emit (zeros 1024),
        .ackAndDrop 0, .write [] 5000 0 0] ∧
      s.pos = 1 ∧ s.data.map (fun b => b.off) = [1] ∧
      (∀ t ∈ trace, ∀ r ∈ returned t, r.2.1 ≠ 1) ∧
      (∃ s' out', @SendBuf.emit checkedBuild s (zeros 1024) = .ok (s', out', .ok (1024, 3, true))) ∧
      ¬ SkipsNothing trace s := by
  have passed : passes (@queueStep checkedBuild) PassCall (SendBuf.new 0)
      [.write [1, 2, 3] 5000 1 0, .emit (zeros 1024), .ackAndDrop 0, .write [] 5000 0 0]
      (fun trace s => decide (s.pos = 1) && decide (s.data.map (fun b => b.off) = [1]) &&
        trace.all (fun t => decide (∀ r ∈ returned t, r.2.1 ≠ 1)) &&
        decide ((@SendBuf.emit checkedBuild s (zeros 1024)).map (fun p => p.2.2) =
          .ok (.ok (1024, 3, true)))) = true := by decide +kernel
  obtain ⟨trace, s, run, played, outcome⟩ := played_run passed
  simp only [Bool.and_eq_true, decide_eq_true_eq, List.all_eq_true] at outcome
  obtain ⟨⟨⟨pos, queue⟩, silent⟩, stop⟩ := outcome
  refine ⟨trace, s, run, played, pos, queue, silent, ?_, ?_⟩
  · cases emitted : @SendBuf.emit checkedBuild s (zeros 1024) with
    | error p =>
      rw [emitted] at stop
      cases stop
    | ok r =>
      obtain ⟨s', out', result⟩ := r
      rw [emitted] at stop
      exact ⟨s', out', by rw [show result = .ok (1024, 3, true) from Except.ok.inj stop]⟩
  · intro skips
    obtain ⟨b, only, start⟩ := List.map_eq_singleton_iff.mp queue
    have behind := skips.behind b (by rw [pos, only]; simp)
    obtain ⟨t, mem, emits⟩ := behind
    obtain ⟨last, reply⟩ := emits_returned emits
    have elsewhere := silent t (sinceStop_subset trace mem) _ reply
    exact elsewhere (by simp [start, wordSize])

end DmludpPassCoverage
