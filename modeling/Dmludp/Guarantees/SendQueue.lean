import Dmludp.Endpoint.ReferenceInstance
import Dmludp.Stream.SendBuffer

/- The send buffer on its own, under any sequence of its operations. Chunks and marks are paired by
   position alone, so dropping is exact as long as the two stay in step; `clear` and `reset` empty
   the queue and forget the marks. -/
namespace DmludpSendQueue
open ByteCursor RustOutcome TracedRun OrderedMap DmludpPacket DmludpRange DmludpSend
open DmludpReference

inductive SendOp where
  | write (data : Bytes) (windowSize offLen : Nat) (maxAck : UInt64)
  | emit (out : Bytes)
  | ackAndDrop (offset : Nat)
  | clear
  | reset

inductive SendReply where
  | wrote (result : Except Error Nat)
  | emitted (out : Bytes) (result : Except Error (Nat × Nat × Bool))
  | reset (result : Except Error Nat)
  | nothing

abbrev SendTrace : Type := List (Transition SendBuf SendOp SendReply)

section Step
variable [Profile]

def queueStep (s : SendBuf) : SendOp → Rs (SendBuf × SendReply)
  | .write data windowSize offLen maxAck => do
    let (s, result) ← s.write data windowSize offLen maxAck
    return (s, .wrote result)
  | .emit out => do
    let (s, out, result) ← s.emit out
    return (s, .emitted out result)
  | .ackAndDrop offset => .ok (s.ackAndDrop offset, .nothing)
  | .clear => .ok (s.clear, .nothing)
  | .reset => do
    let (s, result) ← s.reset
    return (s, .reset result)

inductive QueueCase (s : SendBuf) : SendOp → SendReply → SendBuf → Prop where
  | write {data : Bytes} {windowSize offLen n : Nat} {maxAck : UInt64} {kept s' : SendBuf}
      {pieces : List Bytes} {result : Except Error Nat} (dropped : s.recvAndDrop maxAck = .ok kept)
      (filled : SendBuf.Filled kept s' data windowSize offLen n pieces) :
      QueueCase s (.write data windowSize offLen maxAck) (.wrote result) s'
  | emit {out out' : Bytes} {n off : Nat} {stop : Bool} {s' : SendBuf}
      (done : s.emit out = .ok (s', out', .ok (n, off, stop))) :
      QueueCase s (.emit out) (.emitted out' (.ok (n, off, stop))) s'
  | ackAndDrop {offset : Nat} : QueueCase s (.ackAndDrop offset) .nothing (s.ackAndDrop offset)
  | clear : QueueCase s .clear .nothing s.clear
  | reset {low n : Nat} (front : s.offFront = .ok low) :
      QueueCase s .reset (.reset (.ok n)) { s with data := [], pos := 0, len := 0, off := low }

theorem queueStep_cases {s s' : SendBuf} {a : SendOp} {o : SendReply}
    (taken : queueStep s a = .ok (s', o)) : QueueCase s a o s' := by
  cases a with
  | write data windowSize offLen maxAck =>
    obtain ⟨⟨s1, result⟩, done, same⟩ := bind_ok_iff.mp taken
    cases same
    cases result with
    | ok n =>
      obtain ⟨kept, pieces, dropped, filled⟩ := SendBuf.write_filled done
      exact .write dropped filled
    | error e =>
      obtain ⟨kept, dropped, rfl⟩ := SendBuf.write_refused done
      exact .write dropped (SendBuf.filled_nothing kept data windowSize offLen)
  | emit out =>
    obtain ⟨⟨s1, out', result⟩, done, same⟩ := bind_ok_iff.mp taken
    cases same
    obtain ⟨_, _, n, off, stop, rfl, _⟩ := SendBuf.emit_frame done
    exact .emit done
  | ackAndDrop offset =>
    cases taken
    exact .ackAndDrop
  | clear =>
    cases taken
    exact .clear
  | reset =>
    obtain ⟨⟨s1, result⟩, done, same⟩ := bind_ok_iff.mp taken
    cases same
    obtain ⟨low, front, done⟩ := bind_ok_iff.mp done
    obtain ⟨n, _, done⟩ := bind_ok_iff.mp done
    cases done
    exact .reset front

end Step

theorem front_at_cursor {s : SendBuf} {b : RangeBuf} {rest : List RangeBuf}
    (front : s.data.drop s.pos = b :: rest) : s.data[s.pos]? = some b := by
  rw [← List.head?_drop, front]
  rfl

theorem settled_data (s : SendBuf) (n : Nat) : (s.settle n).1.data = s.data := by
  obtain ⟨_, same⟩ := SendBuf.settle_frame s n
  rw [same]

theorem settled_sent (s : SendBuf) (n : Nat) : (s.settle n).1.sent = s.sent + n := by
  obtain ⟨_, same⟩ := SendBuf.settle_frame s n
  rw [same]

theorem settled_off (s : SendBuf) (n : Nat) : (s.settle n).1.off = s.off := by
  obtain ⟨_, same⟩ := SendBuf.settle_frame s n
  rw [same]

def buffered (s : SendBuf) (o : Nat) : Bool := s.data.any (fun b => b.off == o)

theorem buffered_iff {s : SendBuf} {o : Nat} : buffered s o = true ↔ ∃ b ∈ s.data, b.off = o := by
  simp [buffered]

/-- One operation against the offsets acknowledged so far: an acknowledgement counts from the call
    on, for as long as the chunk stays in the queue. -/
def noteAck (acked : List Nat) (t : Transition SendBuf SendOp SendReply) : List Nat :=
  let acked := match t.action with
    | .ackAndDrop o => o :: acked
    | _ => acked
  acked.filter (fun o => buffered t.before o && buffered t.after o)

def acknowledged (trace : SendTrace) : List Nat := trace.foldl noteAck []

theorem acknowledged_snoc (trace : SendTrace) (t : Transition SendBuf SendOp SendReply) :
    acknowledged (trace ++ [t]) = noteAck (acknowledged trace) t := by
  simp [acknowledged]

/-- The marks name the buffered chunks in order, and dropping removes just the acknowledged ones. -/
structure DropsExactly (trace : SendTrace) (s : SendBuf) : Prop where
  keys : s.offsetRecv.keys = s.data.map (fun b => b.off)
  drops : ∀ maxAck, ∃ kept, s.recvAndDrop maxAck = .ok kept ∧
    kept.data = s.data.filter (fun b => decide (b.off ∉ acknowledged trace))

def ClearsNothing (s : SendBuf) : SendOp → Prop
  | .clear => s.data = []
  | .reset => s.data = []
  | _ => True

theorem retainMarked_filter {data : List RangeBuf} {entries : List (Nat × Bool)}
    (ascending : entries.Pairwise (fun a b => a.1 < b.1))
    (lockstep : entries.map Prod.fst = data.map (fun b => b.off)) :
    SendBuf.retainMarked data (entries.map Prod.snd) =
      .ok (data.filter (fun b => decide ((b.off, false) ∉ entries))) := by
  induction data generalizing entries with
  | nil => rfl
  | cons b data ih =>
    cases entries with
    | nil => simp at lockstep
    | cons e entries =>
      obtain ⟨key, keep⟩ := e
      simp only [List.map_cons, List.cons.injEq] at lockstep
      obtain ⟨rfl, lockstep⟩ := lockstep
      obtain ⟨above, tail⟩ := List.pairwise_cons.mp ascending
      have here : (b.off, false) ∉ entries := fun mem =>
        Nat.lt_irrefl b.off (above (b.off, false) mem)
      have later : ∀ c ∈ data, ((c.off, false) ∉ (b.off, keep) :: entries) ↔
          (c.off, false) ∉ entries := by
        intro c mem
        have listed : c.off ∈ entries.map Prod.fst := by
          rw [lockstep]
          exact List.mem_map_of_mem mem
        obtain ⟨d, stored, same⟩ := List.mem_map.mp listed
        have apart : c.off ≠ b.off := by
          have := above d stored
          omega
        simp [apart]
      have rest : data.filter (fun c => decide ((c.off, false) ∉ (b.off, keep) :: entries)) =
          data.filter (fun c => decide ((c.off, false) ∉ entries)) :=
        List.filter_congr (fun c mem => decide_eq_decide.mpr (later c mem))
      simp only [SendBuf.retainMarked, List.map_cons, ih tail lockstep, ok_bind]
      rw [List.filter_cons, rest]
      cases keep with
      | true => simp [here, pure, Except.pure]
      | false => simp [pure, Except.pure]

theorem recvAndDrop_filter {s : SendBuf} (lockstep : s.Lockstep) (maxAck : UInt64) :
    ∃ kept, s.recvAndDrop maxAck = .ok kept ∧
      kept.data = s.data.filter (fun b => decide ((b.off, false) ∉ s.offsetRecv.entries)) := by
  unfold SendBuf.recvAndDrop
  split
  · rename_i empty
    rw [List.isEmpty_iff] at empty
    exact ⟨s, rfl, by rw [empty]; rfl⟩
  · have retained := retainMarked_filter s.offsetRecv.ascending lockstep
    unfold OrdMap.values
    rw [retained, ok_bind]
    exact ⟨_, rfl, rfl⟩

structure InStep (trace : SendTrace) (s : SendBuf) : Prop where
  lockstep : s.Lockstep
  below : ∀ b ∈ s.data, b.off < s.off
  marks : ∀ b ∈ s.data, (b.off, false) ∈ s.offsetRecv.entries ↔ b.off ∈ acknowledged trace

theorem inStep_drops {trace : SendTrace} {s : SendBuf} (inStep : InStep trace s) :
    DropsExactly trace s := by
  refine ⟨inStep.lockstep, ?_⟩
  intro maxAck
  obtain ⟨kept, dropped, left⟩ := recvAndDrop_filter inStep.lockstep maxAck
  refine ⟨kept, dropped, ?_⟩
  rw [left]
  exact List.filter_congr (fun b mem => decide_eq_decide.mpr (not_congr (inStep.marks b mem)))

theorem lockstep_empty {s : SendBuf} (lockstep : s.Lockstep) (empty : s.data = []) :
    s.offsetRecv.keys = [] := by
  rw [lockstep, empty]
  rfl

theorem inStep_empty {trace : SendTrace} {s : SendBuf} (empty : s.data = [])
    (unmarked : s.offsetRecv.keys = []) : InStep trace s := by
  refine ⟨?_, ?_, ?_⟩
  · unfold SendBuf.Lockstep
    rw [unmarked, empty]
    rfl
  · simp [empty]
  · simp [empty]

theorem write_inStep {trace : SendTrace} {s kept s' : SendBuf} {data : Bytes}
    {windowSize offLen n : Nat} {maxAck : UInt64} {pieces : List Bytes} {o : SendReply}
    (inStep : InStep trace s) (dropped : s.recvAndDrop maxAck = .ok kept)
    (filled : SendBuf.Filled kept s' data windowSize offLen n pieces) :
    InStep (trace ++ [⟨s, .write data windowSize offLen maxAck, o, s'⟩]) s' := by
  obtain ⟨lockstep, below, marks⟩ := inStep
  obtain ⟨kept', dropped', keptStep, keptEntries, keptMarks, _⟩ :=
    SendBuf.recvAndDrop_lockstep lockstep maxAck
  rw [dropped, Except.ok.injEq] at dropped'
  subst dropped'
  obtain ⟨_, _, frame, queue⟩ := SendBuf.recvAndDrop_frame dropped
  have keptOff : kept.off = s.off := by rw [frame]
  have keptBelow : ∀ b ∈ kept.data, b.off < kept.off := by
    intro b mem
    rw [keptOff]
    rw [frame] at mem
    exact below b (queue.subset mem)
  have keysBelow := SendBuf.marks_below keptStep keptBelow
  have unmarked : ∀ o, (o, false) ∉ s'.offsetRecv.entries := by
    intro o mem
    have standing := SendBuf.filled_standing filled keysBelow (fun e old => (keptEntries e old).2)
    cases standing _ mem
  refine ⟨SendBuf.filled_lockstep filled keptStep keysBelow, ?_, ?_⟩
  · intro b mem
    rw [filled.queue, List.mem_append] at mem
    rcases mem with old | new
    · have := keptBelow b old
      rw [filled.off]
      omega
    · obtain ⟨_, positive, _, high⟩ := SendBuf.filled_chunk filled new
      omega
  · intro b mem
    refine iff_of_false (unmarked b.off) ?_
    intro acked
    rw [acknowledged_snoc] at acked
    simp only [noteAck, List.mem_filter, Bool.and_eq_true, buffered_iff] at acked
    obtain ⟨noted, ⟨b0, stored, same⟩, _⟩ := acked
    rw [filled.queue, List.mem_append] at mem
    rcases mem with old | new
    · have withdrawn : (b.off, false) ∈ s.offsetRecv.entries := by
        rw [← same]
        exact (marks b0 stored).mpr (by rw [same]; exact noted)
      have := OrdMap.mem_unique withdrawn (keptMarks b old)
      cases this
    · obtain ⟨_, _, low, _⟩ := SendBuf.filled_chunk filled new
      have := below b0 stored
      omega

theorem ack_inStep {trace : SendTrace} {s : SendBuf} {offset : Nat} {o : SendReply}
    (inStep : InStep trace s) :
    InStep (trace ++ [⟨s, .ackAndDrop offset, o, s.ackAndDrop offset⟩]) (s.ackAndDrop offset) := by
  obtain ⟨lockstep, below, marks⟩ := inStep
  refine ⟨?_, below, ?_⟩
  · have same : (s.ackAndDrop offset).offsetRecv.keys = s.offsetRecv.keys := OrdMap.keys_set _ _ _
    exact same.trans lockstep
  · intro b mem
    have stays : buffered s b.off = true := buffered_iff.mpr ⟨b, mem, rfl⟩
    have stays' : buffered (s.ackAndDrop offset) b.off = true := stays
    have key : ∃ w, (b.off, w) ∈ s.offsetRecv.entries := by
      have listed : b.off ∈ s.offsetRecv.keys := by
        rw [lockstep]
        exact List.mem_map_of_mem mem
      obtain ⟨e, stored, same⟩ := List.mem_map.mp listed
      exact ⟨e.2, by rw [← same]; exact stored⟩
    rw [acknowledged_snoc]
    simp only [noteAck, List.mem_filter, List.mem_cons, stays, stays', Bool.and_true, and_true]
    rw [← marks b mem]
    unfold SendBuf.ackAndDrop
    rw [OrdMap.mem_set]
    by_cases here : b.off = offset
    · subst here
      exact iff_of_true (Or.inr ⟨rfl, key⟩) (Or.inl rfl)
    · simp [here]

theorem kept_inStep {trace : SendTrace} {s s' : SendBuf} {a : SendOp} {o : SendReply}
    (inStep : InStep trace s) (other : ∀ offset, a ≠ .ackAndDrop offset) (data : s'.data = s.data)
    (marked : s'.offsetRecv = s.offsetRecv) (off : s'.off = s.off) :
    InStep (trace ++ [⟨s, a, o, s'⟩]) s' := by
  obtain ⟨lockstep, below, marks⟩ := inStep
  refine ⟨?_, ?_, ?_⟩
  · unfold SendBuf.Lockstep
    rw [marked, data]
    exact lockstep
  · rw [data, off]
    exact below
  · intro b mem
    rw [data] at mem
    have stays : buffered s b.off = true := buffered_iff.mpr ⟨b, mem, rfl⟩
    have stays' : buffered s' b.off = true := buffered_iff.mpr ⟨b, by rw [data]; exact mem, rfl⟩
    have quiet : noteAck (acknowledged trace) ⟨s, a, o, s'⟩ =
        (acknowledged trace).filter (fun o => buffered s o && buffered s' o) := by
      cases a with
      | ackAndDrop offset => exact absurd rfl (other offset)
      | write _ _ _ _ | emit _ | clear | reset => rfl
    rw [marked, marks b mem, acknowledged_snoc, quiet, List.mem_filter, stays, stays']
    simp

section Runs
variable [Profile]

theorem step_inStep {trace : SendTrace} {s s' : SendBuf} {a : SendOp} {o : SendReply}
    (inStep : InStep trace s) (taken : QueueCase s a o s') :
    (ClearsNothing s a → InStep (trace ++ [⟨s, a, o, s'⟩]) s') ∧
      (s'.Lockstep → ClearsNothing s a) := by
  cases taken with
  | write dropped filled => exact ⟨fun _ => write_inStep inStep dropped filled, fun _ => trivial⟩
  | emit done =>
    obtain ⟨⟨_, _, _, _, rfl⟩, _⟩ := SendBuf.emit_frame done
    exact ⟨fun _ => kept_inStep inStep (by simp) rfl rfl rfl, fun _ => trivial⟩
  | ackAndDrop => exact ⟨fun _ => ack_inStep inStep, fun _ => trivial⟩
  | clear =>
    constructor
    · intro empty
      have unmarked : s.offsetRecv.keys = [] := lockstep_empty inStep.lockstep empty
      exact inStep_empty rfl unmarked
    · intro lockstep
      have unmarked : s.offsetRecv.keys = [] := lockstep
      rw [inStep.lockstep, List.map_eq_nil_iff] at unmarked
      exact unmarked
  | reset front =>
    constructor
    · intro empty
      have unmarked : s.offsetRecv.keys = [] := lockstep_empty inStep.lockstep empty
      exact inStep_empty rfl unmarked
    · intro lockstep
      have unmarked : s.offsetRecv.keys = [] := lockstep
      rw [inStep.lockstep, List.map_eq_nil_iff] at unmarked
      exact unmarked

theorem drops_exactly_iff_clears_nothing (maxData : Nat) {trace : SendTrace} {s : SendBuf}
    (run : Run queueStep (fun _ _ => True) (SendBuf.new maxData) trace s) :
    (DropsExactly [] (SendBuf.new maxData) ∧
      Along (fun before t => DropsExactly (before ++ [t]) t.after) trace) ↔
      ∀ t ∈ trace, ClearsNothing t.before t.action := by
  have fresh : InStep [] (SendBuf.new maxData) := inStep_empty rfl rfl
  rw [and_iff_right (inStep_drops fresh)]
  have stepwise := record_exact InStep DropsExactly (fun _ s a => ClearsNothing s a) fresh
    (inStep_drops fresh) (by
      intro trace s a o s' inStep _ _ taken
      obtain ⟨keeps, needs⟩ := step_inStep (o := o) inStep (queueStep_cases taken)
      refine ⟨⟨fun drops => needs drops.keys, fun clears => inStep_drops (keeps clears)⟩, ?_⟩
      exact fun drops => keeps (needs drops.keys)) run
  rw [stepwise.1, along_each]

end Runs

instance (s : SendBuf) (a : SendOp) : Decidable (ClearsNothing s a) :=
  match a with
  | .clear => inferInstanceAs (Decidable (_ = _))
  | .reset => inferInstanceAs (Decidable (_ = _))
  | .write _ _ _ _ => inferInstanceAs (Decidable True)
  | .emit _ => inferInstanceAs (Decidable True)
  | .ackAndDrop _ => inferInstanceAs (Decidable True)

theorem emptied_queue_cleared : ∃ (trace : SendTrace) (s : SendBuf),
    Run (@queueStep checkedBuild) (fun _ _ => True) (SendBuf.new 100) trace s ∧
      trace.map (fun t => t.action) = [.write [1, 2, 3] 100 1 0, .ackAndDrop 0, .ackAndDrop 1,
        .write [] 100 0 0, .clear, .write [7, 8, 9] 100 2 0] ∧ s.data.length = 2 ∧
      Along (fun before t => DropsExactly (before ++ [t]) t.after) trace := by
  have passed : passes (@queueStep checkedBuild) (fun _ _ => True) (SendBuf.new 100)
      [.write [1, 2, 3] 100 1 0, .ackAndDrop 0, .ackAndDrop 1, .write [] 100 0 0, .clear,
        .write [7, 8, 9] 100 2 0]
      (fun trace s => decide (s.data.length = 2) &&
        trace.all (fun t => decide (ClearsNothing t.before t.action))) = true := by decide +kernel
  obtain ⟨trace, s, run, played, outcome⟩ := played_run passed
  simp only [Bool.and_eq_true, decide_eq_true_eq, List.all_eq_true] at outcome
  exact ⟨trace, s, run, played, outcome.1,
    ((@drops_exactly_iff_clears_nothing checkedBuild 100 trace s run).mpr outcome.2).2⟩

theorem cleared_mark_drops_new_chunk : ∃ (trace : SendTrace) (s kept : SendBuf),
    Run (@queueStep checkedBuild) (fun _ _ => True) (SendBuf.new 100) trace s ∧
      trace.map (fun t => t.action) =
        [.write [1, 2, 3] 100 1 0, .ackAndDrop 1, .clear, .write [7, 8, 9] 100 2 0] ∧
      s.offsetRecv.keys = [0, 1, 2] ∧ s.data.map (fun b => b.off) = [0, 2] ∧
      acknowledged trace = [] ∧ s.recvAndDrop 0 = .ok kept ∧
      kept.data.map (fun b => b.off) = [0] ∧ ¬ DropsExactly trace s := by
  have passed : passes (@queueStep checkedBuild) (fun _ _ => True) (SendBuf.new 100)
      [.write [1, 2, 3] 100 1 0, .ackAndDrop 1, .clear, .write [7, 8, 9] 100 2 0]
      (fun trace s => decide (s.offsetRecv.keys = [0, 1, 2]) &&
        decide (s.data.map (fun b => b.off) = [0, 2]) && decide (acknowledged trace = []) &&
        decide ((s.recvAndDrop 0).map (fun kept => kept.data.map (fun b => b.off)) = .ok [0])) =
          true := by decide +kernel
  obtain ⟨trace, s, run, played, outcome⟩ := played_run passed
  simp only [Bool.and_eq_true, decide_eq_true_eq] at outcome
  obtain ⟨⟨⟨keys, queue⟩, unacked⟩, left⟩ := outcome
  cases dropped : s.recvAndDrop 0 with
  | error p =>
    rw [dropped] at left
    cases left
  | ok kept =>
    rw [dropped] at left
    have only : kept.data.map (fun b => b.off) = [0] := Except.ok.inj left
    refine ⟨trace, s, kept, run, played, keys, queue, unacked, dropped, only, ?_⟩
    intro drops
    have instep := drops.keys
    rw [keys, queue] at instep
    simp at instep

end DmludpSendQueue
