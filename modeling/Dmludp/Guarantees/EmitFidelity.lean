import Dmludp.Guarantees.SendQueue

/- What `emit` reports against what it copies. The count it returns starts out as the size of the
   output buffer and is set to a copied length only when the copying loop gets to run, and a chunk
   longer than the buffer is passed over with its tail uncopied. -/
namespace DmludpEmitFidelity
open ByteCursor RustOutcome TracedRun OrderedMap DmludpPacket DmludpRange DmludpSend
open DmludpSendQueue DmludpReference

structure Laid (s : SendBuf) : Prop where
  chunks : ∀ b ∈ s.data, b.Whole ∧ 0 < b.data.length
  apart : s.data.Pairwise (fun a b => a.off + a.data.length ≤ b.off)
  below : ∀ b ∈ s.data, b.off + b.data.length ≤ s.off

theorem place_apart (off : Nat) (cs : List Bytes) :
    (SendBuf.place off cs).Pairwise (fun a b => a.off + a.data.length ≤ b.off) := by
  induction cs generalizing off with
  | nil => exact List.Pairwise.nil
  | cons c rest ih =>
    refine List.pairwise_cons.mpr ⟨?_, ih _⟩
    intro b mem
    exact (SendBuf.place_offsets_above mem).1

theorem laid_empty {s : SendBuf} (empty : s.data = []) : Laid s := by
  refine ⟨?_, ?_, ?_⟩ <;> simp [empty]

theorem write_laid {s kept s' : SendBuf} {data : Bytes} {windowSize offLen n : Nat} {maxAck : UInt64}
    {pieces : List Bytes} (laid : Laid s) (dropped : s.recvAndDrop maxAck = .ok kept)
    (filled : SendBuf.Filled kept s' data windowSize offLen n pieces) : Laid s' := by
  obtain ⟨left, marks, rfl, queue⟩ := SendBuf.recvAndDrop_frame dropped
  have behind : ∀ b ∈ left, b.off + b.data.length ≤ s.off :=
    fun b mem => laid.below b (queue.subset mem)
  refine ⟨?_, ?_, ?_⟩
  · intro b mem
    rw [filled.queue] at mem
    rcases List.mem_append.mp mem with old | new
    · exact laid.chunks b (queue.subset old)
    · obtain ⟨whole, positive, _⟩ := SendBuf.filled_chunk filled new
      exact ⟨whole, positive⟩
  · rw [filled.queue, List.pairwise_append]
    refine ⟨laid.apart.sublist queue, place_apart _ _, ?_⟩
    intro a old b new
    exact (behind a old).trans (SendBuf.filled_chunk filled new).2.2.1
  · intro b mem
    rw [filled.queue] at mem
    rcases List.mem_append.mp mem with old | new
    · have := behind b old
      rw [filled.off]
      exact Nat.le_add_right_of_le this
    · exact (SendBuf.filled_chunk filled new).2.2.2

theorem laid_outside {s : SendBuf} (laid : Laid s) {b c : RangeBuf} (here : b ∈ s.data)
    (there : c ∈ s.data) (after : b.off < c.off) : b.off + b.data.length ≤ c.off := by
  obtain ⟨i, inside, rfl⟩ := List.getElem_of_mem here
  obtain ⟨j, inside', rfl⟩ := List.getElem_of_mem there
  rcases Nat.lt_trichotomy i j with before | same | behind
  · exact List.pairwise_iff_getElem.mp laid.apart i j inside inside' before
  · subst same
    exact absurd after (Nat.lt_irrefl _)
  · have := List.pairwise_iff_getElem.mp laid.apart j i inside' inside behind
    omega

/-- If `emit` returns, it returns what it copied: bytes of the chunk under the cursor, none if there
    is none, counted in `sent`; what is left of the chunk waits from the cursor on. -/
def Faithful [Profile] (s : SendBuf) (out : Bytes) : Prop :=
  ∀ s' out' n off stop, s.emit out = .ok (s', out', .ok (n, off, stop)) →
    n ≤ out.length ∧ s'.sent = s.sent + n ∧ (s.data[s.pos]? = none → n = 0) ∧
    ∀ b, s.data[s.pos]? = some b →
      off = b.off % wordSize ∧ n ≤ b.data.length ∧ out'.take n = b.data.take n ∧
      (n < b.data.length → ∃ c ∈ s'.data.drop s'.pos,
        c.off + c.pos = b.off + n ∧ c.data.drop c.pos = b.data.drop n)

/-- A buffer of `room` bytes takes nothing, or has room for a block and for the next chunk. -/
def RoomForNext (s : SendBuf) (room : Nat) : Prop :=
  room = 0 ∨ ∃ b, s.data[s.pos]? = some b ∧ sendBufferSize ≤ room ∧ b.data.length ≤ room

/-- The arithmetic of `emit` leaves the words: the counters are below what is to be copied, or the
    offset is no u64. -/
def Overflows [Profile] (s : SendBuf) (room : Nat) : Prop :=
  Profile.overflowChecks = true ∧ ∃ b, s.data[s.pos]? = some b ∧ (wordSize ≤ b.off ∨
    (sendBufferSize ≤ room ∧
      (s.len < min b.data.length room ∨ s.usedLength < min b.data.length room)))

section Steps
variable [Profile]

theorem step_laid {s s' : SendBuf} {a : SendOp} {o : SendReply} (laid : Laid s)
    (taken : QueueCase s a o s') : Laid s' := by
  cases taken with
  | write dropped filled => exact write_laid laid dropped filled
  | emit done =>
    obtain ⟨⟨_, _, _, _, rfl⟩, _⟩ := SendBuf.emit_frame done
    exact ⟨laid.chunks, laid.apart, laid.below⟩
  | ackAndDrop => exact ⟨laid.chunks, laid.apart, laid.below⟩
  | clear => exact laid_empty rfl
  | reset _ => exact laid_empty rfl

theorem run_laid {maxData : Nat} {allowed : SendBuf → SendOp → Prop} {trace : SendTrace} {s : SendBuf}
    (run : Run queueStep allowed (SendBuf.new maxData) trace s) : Laid s :=
  state_invariant Laid (laid_empty rfl)
    (fun _ _ _ _ laid _ taken => step_laid laid (queueStep_cases taken)) run

theorem offFront_returns_iff {s : SendBuf} (laid : Laid s) : (∃ off, s.offFront = .ok off) ↔
    (Profile.overflowChecks = true → ∀ b, s.data[s.pos]? = some b → b.off < wordSize) := by
  cases front : s.data.drop s.pos with
  | nil =>
    have beyond : s.data.length ≤ s.pos := List.drop_eq_nil_iff.mp front
    refine iff_of_true ⟨_, SendBuf.offFront_end beyond⟩ ?_
    simp [List.getElem?_eq_none beyond]
  | cons b rest =>
    obtain ⟨whole, filled⟩ := laid.chunks b (List.mem_of_getElem? (front_at_cursor front))
    have low : s.offFront = addWord b.off 0 := by
      simp only [SendBuf.offFront, front, SendBuf.offFrontFrom, whole_isEmpty whole filled, ok_bind,
        Bool.false_eq_true, ↓reduceIte, RangeBuf.offFn, whole.start_zero, whole.pos_zero,
        subWord_zero]
    rw [low, front_at_cursor front]
    by_cases word : b.off < wordSize
    · refine iff_of_true ⟨_, addWord_zero word⟩ ?_
      rintro _ c ⟨⟩
      exact word
    · cases checks : (Profile.overflowChecks : Bool) with
      | true => simp [addWord, word, checks]
      | false => simp [addWord, word, checks]

theorem emit_returns_iff_fits {s : SendBuf} (laid : Laid s) (out : Bytes) :
    (∃ s' out' n off stop, s.emit out = .ok (s', out', .ok (n, off, stop))) ↔
      ¬ Overflows s out.length := by
  constructor
  · rintro ⟨s', out', n, off, stop, done⟩ ⟨checks, b, cursor, overflow⟩
    have low := SendBuf.emit_front done
    have word := (offFront_returns_iff laid).mp ⟨off, low⟩ checks b cursor
    obtain ⟨inside, _⟩ := List.getElem?_eq_some_iff.mp cursor
    cases SendBuf.emit_step laid.chunks done with
    | idle nothing _ => omega
    | copied front room size _ left used =>
      rw [front_at_cursor front, Option.some.injEq] at cursor
      subst cursor
      have enough := subWord_ok_iff.mp ⟨_, left⟩ checks
      have enough' := subWord_ok_iff.mp ⟨_, used⟩ checks
      omega
  · intro fits
    have words : Profile.overflowChecks = true → ∀ b, s.data[s.pos]? = some b → b.off < wordSize := by
      intro checks b cursor
      by_contra big
      exact fits ⟨checks, b, cursor, Or.inl (Nat.le_of_not_lt big)⟩
    obtain ⟨off, low⟩ := (offFront_returns_iff laid).mpr words
    by_cases idle : s.data.length ≤ s.pos ∨ out.length < sendBufferSize
    · exact ⟨_, _, _, _, _, SendBuf.emit_nothing low idle⟩
    · rw [not_or, Nat.not_le, Nat.not_lt] at idle
      obtain ⟨inside, room⟩ := idle
      have front := List.drop_eq_getElem_cons inside
      obtain ⟨whole, filled⟩ := laid.chunks _ (List.getElem_mem inside)
      have counters : Profile.overflowChecks = true →
          min s.data[s.pos].data.length out.length ≤ s.len ∧
            min s.data[s.pos].data.length out.length ≤ s.usedLength := by
        intro checks
        by_contra short
        refine fits ⟨checks, _, front_at_cursor front, Or.inr ⟨room, ?_⟩⟩
        omega
      obtain ⟨len, left⟩ := subWord_ok_iff.mpr (fun checks => (counters checks).1)
      obtain ⟨usedLength, used⟩ := subWord_ok_iff.mpr (fun checks => (counters checks).2)
      rw [SendBuf.emit_first whole filled front low room rfl, left, ok_bind, used, ok_bind]
      exact ⟨_, _, _, _, _, rfl⟩

theorem faithful_empty {s : SendBuf} (laid : Laid s) : Faithful s [] := by
  intro s' out' n off stop done
  cases SendBuf.emit_step laid.chunks done with
  | copied _ room _ _ _ _ => exact absurd room (by decide)
  | idle _ low =>
    refine ⟨Nat.le_refl _, settled_sent s _, fun _ => rfl, ?_⟩
    intro b cursor
    have mem := List.mem_of_getElem? cursor
    obtain ⟨inside, same⟩ := List.getElem?_eq_some_iff.mp cursor
    obtain ⟨whole, filled⟩ := laid.chunks b mem
    have front : s.data.drop s.pos = b :: s.data.drop (s.pos + 1) := by
      rw [List.drop_eq_getElem_cons inside, same]
    refine ⟨SendBuf.offFront_word whole filled front low, Nat.zero_le _, rfl, ?_⟩
    intro _
    refine ⟨b, ?_, by rw [whole.pos_zero]; rfl, by rw [whole.pos_zero]; rfl⟩
    rw [settled_data]
    rcases SendBuf.settle_cases s ([] : Bytes).length with ⟨back, _⟩ | ⟨stay, _⟩
    · rw [back]
      exact mem
    · rw [stay, front]
      exact List.mem_cons_self

theorem faithful_room {s : SendBuf} {out : Bytes} {b : RangeBuf} (laid : Laid s)
    (cursor : s.data[s.pos]? = some b) (room : sendBufferSize ≤ out.length)
    (fits : b.data.length ≤ out.length) : Faithful s out := by
  intro s' out' n off stop done
  obtain ⟨inside, _⟩ := List.getElem?_eq_some_iff.mp cursor
  cases SendBuf.emit_step laid.chunks done with
  | idle nothing _ => omega
  | @copied c rest _ _ _ _ front _ size low _ _ =>
    have here := front_at_cursor front
    rw [here, Option.some.injEq] at cursor
    subst cursor
    have all : n = c.data.length := by omega
    subst all
    refine ⟨fits, settled_sent _ _, by simp [here], ?_⟩
    intro d there
    rw [here, Option.some.injEq] at there
    subst there
    exact ⟨low, Nat.le_refl _, by simp [splice], fun short => absurd short (Nat.lt_irrefl _)⟩

theorem unfaithful_otherwise {s : SendBuf} {room : Nat} (laid : Laid s)
    (tight : ¬ RoomForNext s room) (fits : ¬ Overflows s room) :
    ∃ out, out.length = room ∧ ¬ Faithful s out := by
  have positive : room ≠ 0 := fun zero => tight (Or.inl zero)
  -- a byte that does not stand at the start of the next chunk
  obtain ⟨x, differs⟩ : ∃ x : UInt8, ∀ b, s.data[s.pos]? = some b → b.data.head? ≠ some x := by
    cases cursor : s.data[s.pos]? with
    | none => exact ⟨0, by simp⟩
    | some b =>
      cases first : b.data.head? with
      | none => exact ⟨0, by simp [first]⟩
      | some y => exact ⟨y + 1, by simp [first]⟩
  refine ⟨List.replicate room x, List.length_replicate, ?_⟩
  intro faithful
  obtain ⟨s', out', n, off, stop, done⟩ := (emit_returns_iff_fits laid (List.replicate room x)).mpr
    (by rw [List.length_replicate]; exact fits)
  obtain ⟨_, _, none_, some_⟩ := faithful s' out' n off stop done
  cases SendBuf.emit_step laid.chunks done with
  | idle nothing _ =>
    rw [List.length_replicate] at none_ some_
    cases cursor : s.data[s.pos]? with
    | none => exact positive (none_ cursor)
    | some b =>
      obtain ⟨_, _, copied, _⟩ := some_ b cursor
      have first := congrArg List.head? copied
      rw [List.head?_take, List.head?_take, if_neg positive, List.head?_replicate] at first
      simp [positive] at first
      exact differs b cursor first.symm
  | copied front enough size low _ _ =>
    rw [List.length_replicate] at enough size
    obtain ⟨_, _, _, rest⟩ := some_ _ (front_at_cursor front)
    have cut : ¬ _ ≤ room := fun short => tight (Or.inr ⟨_, front_at_cursor front, enough, short⟩)
    obtain ⟨c, later, start, _⟩ := rest (by omega)
    rw [settled_data] at later
    have there := List.mem_of_mem_drop later
    obtain ⟨whole, _⟩ := laid.chunks c there
    rw [whole.pos_zero] at start
    have outside := laid_outside laid (List.mem_of_getElem? (front_at_cursor front)) there (by omega)
    omega

end Steps

def reported [Profile] (s : SendBuf) (out : Bytes) : Option (Nat × Nat × List Nat) :=
  (s.emit out).toOption.bind (fun p =>
    p.2.2.toOption.map (fun r => (r.1, r.2.1, (p.1.data.drop p.1.pos).map (fun b => b.off + b.pos))))

theorem reported_emit [Profile] {s : SendBuf} {out : Bytes} {n off : Nat} {starts : List Nat}
    (seen : reported s out = some (n, off, starts)) :
    ∃ s' out' stop, s.emit out = .ok (s', out', .ok (n, off, stop)) ∧
      (s'.data.drop s'.pos).map (fun b => b.off + b.pos) = starts := by
  unfold reported at seen
  cases done : s.emit out with
  | error p => simp [done, Except.toOption] at seen
  | ok p =>
    obtain ⟨s', out', result⟩ := p
    cases result with
    | error e => simp [done, Except.toOption] at seen
    | ok r =>
      obtain ⟨n', off', stop⟩ := r
      simp only [done, Except.toOption, Option.bind_some, Option.map_some, Option.some.injEq,
        Prod.mk.injEq] at seen
      obtain ⟨rfl, rfl, rfl⟩ := seen
      exact ⟨s', out', stop, rfl, rfl⟩

end DmludpEmitFidelity
