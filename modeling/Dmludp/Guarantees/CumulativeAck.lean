import Dmludp.Guarantees.Reassembly

/- The offset at the head of every ACK. `write` takes a chunk that starts where the last stored one
   ends as a sign that the stream is complete up to there. It neither looks below the last stored
   chunk nor at the offset it has already advertised. -/
namespace DmludpCumulativeAck
open ByteCursor RustOutcome BreakLoop TracedRun OrderedMap DmludpPacket DmludpRange DmludpRecv
open DmludpReassembly
open DmludpReference

def PartOf (text : Bytes) (off : Nat) (content : Bytes) : Prop :=
  off + content.length ≤ text.length ∧ content = (text.drop off).take content.length

instance (text : Bytes) (off : Nat) (content : Bytes) : Decidable (PartOf text off content) :=
  inferInstanceAs (Decidable (_ ∧ _))

/-- Any chunks of one stream, in any order and as often as they come, and any reads. -/
def StreamCall (text : Bytes) (_ : RecvBuf) : BufCall → Prop
  | .write off content => PartOf text off content
  | .emit _ => True

instance (text : Bytes) (r : RecvBuf) (a : BufCall) : Decidable (StreamCall text r a) :=
  match a with
  | .write off content => inferInstanceAs (Decidable (PartOf text off content))
  | .emit _ => inferInstanceAs (Decidable True)

def lastEnd (r : RecvBuf) : Option Nat := r.data.last?.map Prod.fst

section Calls
variable [Profile]

theorem write_maxAck {text : Bytes} (word : text.length < wordSize) {r r' : RecvBuf} {off : Nat}
    {content : Bytes} {result : Except Error Unit} (part : PartOf text off content)
    (done : r.write content off = .ok (r', result)) :
    r'.maxAck = if lastEnd r = some off then off else r.maxAck := by
  have inside := part.1
  have length : (RangeBuf.ofSlice content off).lenFn = .ok content.length :=
    whole_lenFn (whole_ofSlice content off)
  have start : (RangeBuf.ofSlice content off).offFn = .ok off :=
    whole_offFn (whole_ofSlice content off) (show off < wordSize by omega)
  have end_ : (RangeBuf.ofSlice content off).maxOff = .ok (off + content.length) := by
    rw [RangeBuf.maxOff, start, ok_bind, length, ok_bind, addWord_fits (by omega)]
  unfold RecvBuf.write at done
  dsimp only at done
  rw [length, ok_bind, end_, ok_bind, subWord_fits (by omega), ok_bind, Nat.add_sub_cancel] at done
  cases done
  unfold lastEnd RecvBuf.maxAck
  cases r.data.last? with
  | none => simp
  | some e =>
    by_cases adjacent : e.1 = off
    · simp [adjacent]
    · simp [adjacent]

theorem emitLoop_maxRecvOff {fuel : Nat} {st st' : EmitState}
    (done : RecvBuf.emitLoop fuel st = .ok st') : st'.recv.maxRecvOff = st.recv.maxRecvOff := by
  refine RecvBuf.emitLoop_invariant (fun s => s.recv.maxRecvOff = st.recv.maxRecvOff) ?_ fuel rfl done
  intro s turn same turned
  cases RecvBuf.emitRound_effect turned with
  | removed _ recv =>
    rw [Turn.state, recv]
    exact same
  | consumed _ recv =>
    rw [Turn.state, recv]
    exact same
  | moved recv =>
    rw [Turn.state, recv]
    exact same

theorem emit_maxAck {r r' : RecvBuf} {out written : Bytes} {result : Except Error Nat}
    (done : r.emit out = .ok (r', written, result)) : r'.maxAck = r.maxAck := by
  unfold RecvBuf.emit at done
  split at done
  · cases done
    rfl
  · obtain ⟨st, looped, done⟩ := bind_ok_iff.mp done
    cases done
    exact emitLoop_maxRecvOff looped

theorem bufStep_maxAck {text : Bytes} (word : text.length < wordSize) {r r' : RecvBuf}
    {a : BufCall} {o : BufReply} (may : StreamCall text r a) (taken : bufStep r a = .ok (r', o)) :
    (∃ off content, a = .write off content ∧ lastEnd r = some off ∧ r'.maxAck = off) ∨
    ((∀ off content, a = .write off content → lastEnd r ≠ some off) ∧ r'.maxAck = r.maxAck) := by
  cases a with
  | write off content =>
    obtain ⟨⟨r1, result⟩, done, same⟩ := bind_ok_iff.mp taken
    cases same
    have moved := write_maxAck word may done
    by_cases adjacent : lastEnd r = some off
    · rw [if_pos adjacent] at moved
      exact Or.inl ⟨off, content, rfl, adjacent, moved⟩
    · rw [if_neg adjacent] at moved
      refine Or.inr ⟨?_, moved⟩
      intro off' content' same
      cases same
      exact adjacent
  | emit room =>
    obtain ⟨⟨r1, out, result⟩, done, same⟩ := bind_ok_iff.mp taken
    cases same
    refine Or.inr ⟨?_, emit_maxAck done⟩
    intro off content same
    cases same

end Calls

/-- What a call leaves as `max_ack` is no smaller than before, and every byte below it has been
    received. -/
def SoundAck (earlier : BufTrace) (t : Transition RecvBuf BufCall BufReply) : Prop :=
  t.before.maxAck ≤ t.after.maxAck ∧
    ∀ i, i < t.after.maxAck → written (earlier ++ [t]) i = true

instance (earlier : BufTrace) (t : Transition RecvBuf BufCall BufReply) :
    Decidable (SoundAck earlier t) :=
  inferInstanceAs (Decidable (_ ∧ ∀ i, i < _ → _))

/-- A chunk that arrives right behind the last stored one is not behind the advertised offset, and
    everything before it has arrived. -/
def NoGapBefore (earlier : BufTrace) (t : Transition RecvBuf BufCall BufReply) : Prop :=
  match t.action with
  | .write off _ => lastEnd t.before = some off →
      t.before.maxAck ≤ off ∧ ∀ i, i < off → written earlier i = true
  | .emit _ => True

instance (earlier : BufTrace) (t : Transition RecvBuf BufCall BufReply) :
    Decidable (NoGapBefore earlier t) :=
  match t with
  | ⟨_, .write _ _, _, _⟩ => inferInstanceAs (Decidable (_ → _ ∧ ∀ i, i < _ → _))
  | ⟨_, .emit _, _, _⟩ => inferInstanceAs (Decidable True)

theorem written_snoc (earlier : BufTrace) (t : Transition RecvBuf BufCall BufReply) (i : Nat) :
    written (earlier ++ [t]) i = (written earlier i || covers i t.action) := by
  simp [written]

section Runs
variable [Profile]

theorem sound_iff_no_gap {text : Bytes} (word : text.length < wordSize) {earlier : BufTrace}
    {r r' : RecvBuf} {a : BufCall} {o : BufReply} (may : StreamCall text r a)
    (taken : bufStep r a = .ok (r', o))
    (before : ∀ i, i < r.maxAck → written earlier i = true) :
    SoundAck earlier ⟨r, a, o, r'⟩ ↔ NoGapBefore earlier ⟨r, a, o, r'⟩ := by
  unfold SoundAck NoGapBefore
  rcases bufStep_maxAck word may taken with ⟨off, content, rfl, adjacent, moved⟩ | ⟨apart, same⟩
  · dsimp only
    rw [moved]
    constructor
    · rintro ⟨forward, received⟩ _
      refine ⟨forward, ?_⟩
      intro i below
      have seen := received i below
      -- the chunk itself covers no byte before its own start
      rw [written_snoc] at seen
      simpa [covers, Nat.not_le.mpr below] using seen
    · intro complete
      obtain ⟨forward, received⟩ := complete adjacent
      refine ⟨forward, ?_⟩
      intro i below
      rw [written_snoc, received i below, Bool.true_or]
  · dsimp only
    rw [same]
    refine iff_of_true ⟨Nat.le_refl _, ?_⟩ ?_
    · intro i below
      rw [written_snoc, before i below, Bool.true_or]
    · cases a with
      | write off content => exact fun adjacent => absurd adjacent (apart off content rfl)
      | emit room => trivial

theorem ack_sound_iff_no_gaps {text : Bytes} (word : text.length < wordSize) {trace : BufTrace}
    {r : RecvBuf} (run : Run bufStep (StreamCall text) RecvBuf.new trace r) :
    (Along SoundAck trace ↔ Along NoGapBefore trace) ∧
      (Along NoGapBefore trace → ∀ i, i < r.maxAck → written trace i = true) := by
  induction run with
  | start =>
    refine ⟨iff_of_true (along_nil _) (along_nil _), ?_⟩
    intro _ i below
    cases below
  | @step trace r r' a o earlier may taken ih =>
    obtain ⟨same, received⟩ := ih
    simp only [along_snoc]
    refine ⟨?_, ?_⟩
    · constructor
      · rintro ⟨before, here⟩
        have sound := received (same.mp before)
        exact ⟨same.mp before, (sound_iff_no_gap word may taken sound).mp here⟩
      · rintro ⟨before, here⟩
        exact ⟨same.mpr before, (sound_iff_no_gap word may taken (received before)).mpr here⟩
    · rintro ⟨before, here⟩
      exact ((sound_iff_no_gap word may taken (received before)).mpr here).2

end Runs

theorem pieces_in_order_acknowledged : ∃ (trace : BufTrace) (r : RecvBuf),
    Run (@bufStep checkedBuild) (StreamCall sixBytes) RecvBuf.new trace r ∧
      trace.map (fun t => t.action) = [.write 0 [1, 2], .write 2 [3, 4], .emit 1,
        .write 4 [5, 6]] ∧ r.maxAck = 4 ∧ Along SoundAck trace := by
  have passed : passes (@bufStep checkedBuild) (StreamCall sixBytes) RecvBuf.new
      [.write 0 [1, 2], .write 2 [3, 4], .emit 1, .write 4 [5, 6]] (fun trace r =>
        decide (r.maxAck = 4) && decide (Along NoGapBefore trace)) = true := by decide +kernel
  obtain ⟨trace, r, run, played, outcome⟩ := played_run passed
  simp only [Bool.and_eq_true, decide_eq_true_eq] at outcome
  exact ⟨trace, r, run, played, outcome.1,
    (@ack_sound_iff_no_gaps checkedBuild sixBytes (by decide) trace r run).1.mpr outcome.2⟩

/-- The first piece is missing, and four bytes are acknowledged; and after all of it was read,
    the pieces that come again take the offset back. -/
theorem missing_bytes_acknowledged :
    (∃ (trace : BufTrace) (r : RecvBuf),
      Run (@bufStep checkedBuild) (StreamCall sixBytes) RecvBuf.new trace r ∧
        trace.map (fun t => t.action) = [.write 2 [3, 4], .write 4 [5, 6]] ∧
        r.maxAck = 4 ∧ written trace 0 = false ∧ ¬ Along SoundAck trace) ∧
    (∃ (trace : BufTrace) (r : RecvBuf),
      Run (@bufStep checkedBuild) (StreamCall sixBytes) RecvBuf.new trace r ∧
        trace.map (fun t => t.action) = [.write 0 [1, 2], .write 2 [3, 4], .write 4 [5, 6],
          .emit 6, .write 0 [1, 2], .write 2 [3, 4]] ∧
        trace.map (fun t => t.after.maxAck) = [0, 2, 4, 4, 4, 2] ∧ ¬ Along SoundAck trace) := by
  constructor
  · have passed : passes (@bufStep checkedBuild) (StreamCall sixBytes) RecvBuf.new
        [.write 2 [3, 4], .write 4 [5, 6]] (fun trace r => decide (r.maxAck = 4) &&
          !(written trace 0) && !decide (Along SoundAck trace)) = true := by decide +kernel
    obtain ⟨trace, r, run, played, outcome⟩ := played_run passed
    simp only [Bool.and_eq_true, decide_eq_true_eq, Bool.not_eq_true', decide_eq_false_iff_not]
      at outcome
    obtain ⟨⟨acked, missing⟩, unsound⟩ := outcome
    exact ⟨trace, r, run, played, acked, missing, unsound⟩
  · have passed : passes (@bufStep checkedBuild) (StreamCall sixBytes) RecvBuf.new
        [.write 0 [1, 2], .write 2 [3, 4], .write 4 [5, 6], .emit 6, .write 0 [1, 2],
          .write 2 [3, 4]] (fun trace _ =>
            decide (trace.map (fun t => t.after.maxAck) = [0, 2, 4, 4, 4, 2]) &&
            !decide (Along SoundAck trace)) = true := by decide +kernel
    obtain ⟨trace, r, run, played, outcome⟩ := played_run passed
    simp only [Bool.and_eq_true, decide_eq_true_eq, Bool.not_eq_true', decide_eq_false_iff_not]
      at outcome
    exact ⟨trace, r, run, played, outcome⟩

end DmludpCumulativeAck
