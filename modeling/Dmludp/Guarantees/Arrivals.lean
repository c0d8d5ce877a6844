import Dmludp.Guarantees.WireChunks

/- What the client has of what arrived. Until it reads, its buffer and its notes are a function of
   the set of chunks that arrived; once it reads, the buffer stays safe to read from as long as
   nothing arrives behind the read cursor. -/
namespace DmludpArrivals
open ByteCursor RustOutcome TracedRun OrderedMap StreamTiling LossyNetwork DmludpPacket DmludpRange
open DmludpRecv DmludpRecovery DmludpConnection DmludpConnection.Connection DmludpCalls DmludpEffects
open DmludpReceiveEffects DmludpSenderSteps DmludpReceiverSteps DmludpSegmentation
open DmludpPacketIntegrity DmludpNoSilentDrop DmludpReadCursor DmludpWireChunks DmludpReference

variable {F : Type}

structure Chunk where
  offset : UInt64
  content : Bytes
  priority : UInt8
  deriving DecidableEq

def arrivalOf? [Octets] (t : Transition (Connection F) Call Reply) : Option Chunk :=
  match t.action with
  | .recvSlice _ buf =>
    (headerOf? .application buf.bytes).map (fun h => ⟨h.offset, buf.bytes.drop 26, h.priority⟩)
  | _ => none

def Arrived [Octets] (history : Trace F) (x : Chunk) : Prop := ∃ t ∈ history, arrivalOf? t = some x

def Unread (history : Trace F) : Prop := ∀ t ∈ history, ∀ out, t.action ≠ .read out

def Chunk.entry (x : Chunk) : Nat × RangeBuf :=
  (x.offset.toNat + x.content.length, RangeBuf.ofSlice x.content x.offset.toNat)

/-- The chunks of a set are those of one cut: none is empty, each has the priority of its offset,
    and two of them are the same or lie apart. -/
structure OneCut (priority : UInt64 → UInt8 → Prop) (xs : Chunk → Prop) : Prop where
  filled : ∀ x, xs x → x.content ≠ []
  word : ∀ x, xs x → x.offset.toNat + x.content.length < wordSize
  single : ∀ w p q, priority w p → priority w q → p = q
  rated : ∀ x, xs x → priority x.offset x.priority
  apart : ∀ x y, xs x → xs y → (x.offset = y.offset ∧ x.content = y.content) ∨
    x.offset.toNat + x.content.length ≤ y.offset.toNat ∨
    y.offset.toNat + y.content.length ≤ x.offset.toNat

/-- The client's tables hold what arrived and nothing else. -/
structure Exact [Octets] (history : Trace F) (c : Connection F) : Prop where
  stored : ∀ e, e ∈ c.recBuffer.data.entries ↔ ∃ x, Arrived history x ∧ e = x.entry
  noted : ∀ w p, c.recvDic.lookup w = some p ↔
    ∃ x, Arrived history x ∧ x.offset = w ∧ x.priority = p

theorem entry_of_end {priority : UInt64 → UInt8 → Prop} {xs : Chunk → Prop}
    (oneCut : OneCut priority xs) {x y : Chunk} (left : xs x) (right : xs y)
    (same : x.entry.1 = y.entry.1) : x.entry = y.entry := by
  have filled := List.length_pos_iff.mpr (oneCut.filled x left)
  have filled' := List.length_pos_iff.mpr (oneCut.filled y right)
  dsimp only [Chunk.entry] at same
  rcases oneCut.apart x y left right with ⟨offset, content⟩ | before | after
  · simp only [Chunk.entry, offset, content]
  · omega
  · omega

theorem stored_entry [Profile] {xs : Chunk → Prop} {priority : UInt64 → UInt8 → Prop}
    (oneCut : OneCut priority xs) {x : Chunk} (known : xs x) {r r' : RecvBuf}
    (written : r.write x.content x.offset.toNat = .ok (r', .ok ())) :
    ∃ high, r' = { r with data := r.data.insert x.entry.1 x.entry.2, maxRecvOff := high } := by
  obtain ⟨high, stores⟩ := write_stores r (oneCut.filled x known) (oneCut.word x known)
  rw [stores] at written
  cases written
  exact ⟨high, rfl⟩

theorem piece_fits {text : Bytes} {trace : Trace F} {c : Connection F}
    (segmented : Segmented text trace c) {r : RecvBuf} {b : RangeBuf} (mem : b ∈ appended trace)
    (stored : ∀ e ∈ r.data.entries, ∃ d ∈ appended trace, Holds d e.1 e.2)
    (ahead : r.lastMaxoff ≤ b.off) : Fits r b.off b.data := by
  obtain ⟨filled, end_, fits, _⟩ := made_bounds segmented mem
  refine ⟨filled, by simp only [isizeMax, wordSize] at fits ⊢; omega, ahead, ?_⟩
  have spans : ∀ e ∈ r.data.entries, span e.2 = Set.Ico b.off (b.off + b.data.length) ∨
      Disjoint (Set.Ico b.off (b.off + b.data.length)) (span e.2) := by
    intro e there
    obtain ⟨d, mem', _, n, held⟩ := stored e there
    have covers : span e.2 = Set.Ico d.off (d.off + d.data.length) := by
      rw [held]
      rfl
    have apart := tiles_apart segmented.tiles (List.mem_map_of_mem (f := pieceOf) mem)
      (List.mem_map_of_mem (f := pieceOf) mem')
    dsimp only [pieceOf] at apart
    rw [covers]
    rcases apart with same | apart
    · obtain ⟨off, data⟩ := Prod.mk.inj same
      rw [off, data]
      exact Or.inl rfl
    · right
      apply Set.Ico_disjoint_Ico.mpr
      omega
  by_cases here : ∃ e ∈ r.data.entries, span e.2 = Set.Ico b.off (b.off + b.data.length)
  · exact Or.inr here
  · left
    intro e there
    exact (spans e there).resolve_left (fun same => here ⟨e, there, same⟩)

theorem write_cursor [Profile] {r r' : RecvBuf} {content : Bytes} {off : Nat}
    {result : Except Error Unit} (written : r.write content off = .ok (r', result)) :
    r'.lastMaxoff = r.lastMaxoff := by
  obtain ⟨length, _, written⟩ := bind_ok_iff.mp written
  obtain ⟨end_, _, written⟩ := bind_ok_iff.mp written
  obtain ⟨start, _, written⟩ := bind_ok_iff.mp written
  cases written
  dsimp only
  split
  · split <;> rfl
  · rfl

section Histories
variable [Octets]

theorem arrived_iff {history : Trace F} {x : Chunk} :
    Arrived history x ↔ x ∈ history.filterMap arrivalOf? := by
  rw [List.mem_filterMap]
  rfl

theorem arrived_snoc {history : Trace F} {t : Transition (Connection F) Call Reply} {x : Chunk} :
    Arrived (history ++ [t]) x ↔ Arrived history x ∨ arrivalOf? t = some x := by
  rw [arrived_iff, arrived_iff, List.filterMap_append, List.mem_append]
  cases arrives : arrivalOf? t with
  | none => simp [arrives]
  | some y => simp [arrives, eq_comm]

theorem arrived_nothing {history : Trace F} {t : Transition (Connection F) Call Reply}
    (nothing : arrivalOf? t = none) (x : Chunk) : Arrived (history ++ [t]) x ↔ Arrived history x := by
  rw [arrived_snoc, nothing]
  simp

theorem exact_kept {history : Trace F} {t : Transition (Connection F) Call Reply}
    {c c' : Connection F} (exact_ : Exact history c) (nothing : arrivalOf? t = none)
    (buffer : c'.recBuffer = c.recBuffer) (notes : c'.recvDic = c.recvDic) :
    Exact (history ++ [t]) c' := by
  constructor
  · intro e
    rw [buffer, exact_.stored]
    simp only [arrived_nothing nothing]
  · intro w p
    rw [notes, exact_.noted]
    simp only [arrived_nothing nothing]

theorem exact_arrival {priority : UInt64 → UInt8 → Prop} {history : Trace F}
    {t : Transition (Connection F) Call Reply} {c c' : Connection F} {x : Chunk}
    (exact_ : Exact history c) (arrives : arrivalOf? t = some x)
    (oneCut : OneCut priority (Arrived (history ++ [t])))
    (buffer : c'.recBuffer.data = c.recBuffer.data.insert x.entry.1 x.entry.2)
    (notes : c'.recvDic = c.recvDic.insert x.offset x.priority) : Exact (history ++ [t]) c' := by
  have new : Arrived (history ++ [t]) x := arrived_snoc.mpr (Or.inr arrives)
  have old : ∀ y, Arrived history y → Arrived (history ++ [t]) y :=
    fun y known => arrived_snoc.mpr (Or.inl known)
  have cases_ : ∀ y, Arrived (history ++ [t]) y → Arrived history y ∨ y = x := by
    intro y known
    rcases arrived_snoc.mp known with before | now
    · exact Or.inl before
    · rw [arrives, Option.some.injEq] at now
      exact Or.inr now.symm
  constructor
  · intro e
    rw [buffer, OrdMap.mem_insert, exact_.stored]
    constructor
    · rintro (here | ⟨⟨y, known, rfl⟩, _⟩)
      · exact ⟨x, new, here⟩
      · exact ⟨y, old y known, rfl⟩
    · rintro ⟨y, known, rfl⟩
      by_cases same : y.entry.1 = x.entry.1
      · exact Or.inl (entry_of_end oneCut known new same)
      · rcases cases_ y known with before | rfl
        · exact Or.inr ⟨⟨y, before, rfl⟩, same⟩
        · exact absurd rfl same
  · intro w p
    rw [notes]
    by_cases here : w = x.offset
    · subst here
      rw [AList.lookup_insert, Option.some.injEq]
      constructor
      · intro same
        exact ⟨x, new, rfl, same⟩
      · rintro ⟨y, known, offset, rfl⟩
        have rated := oneCut.rated y known
        rw [offset] at rated
        exact oneCut.single _ _ _ (oneCut.rated x new) rated
    · rw [AList.lookup_insert_ne here, exact_.noted]
      constructor
      · rintro ⟨y, known, offset, rated⟩
        exact ⟨y, old y known, offset, rated⟩
      · rintro ⟨y, known, offset, rated⟩
        rcases cases_ y known with before | rfl
        · exact ⟨y, before, offset, rated⟩
        · exact absurd offset.symm here

theorem arrivalOf?_stored {c c' : Connection F} {now : Nat} {buf : Slice} {o : Reply}
    (complete : 26 ≤ buf.bytes.length) (kind : (decodeHeader buf.bytes).ty = .application) :
    arrivalOf? (⟨c, .recvSlice now buf, o, c'⟩ : Transition _ _ _) =
      some ⟨(decodeHeader buf.bytes).offset, buf.bytes.drop 26,
        (decodeHeader buf.bytes).priority⟩ := by
  simp [arrivalOf?, headerOf?_complete complete, kind]

theorem arrivalOf?_delivered {t : Transition (Connection F) Call Reply} {x : Chunk}
    (found : arrivalOf? t = some x) : ∃ now buf h, t.action = .recvSlice now buf ∧
      headerOf? .application buf.bytes = some h ∧
      x = ⟨h.offset, buf.bytes.drop 26, h.priority⟩ := by
  unfold arrivalOf? at found
  split at found
  · rename_i now buf action
    obtain ⟨h, kind, same⟩ := Option.map_eq_some_iff.mp found
    exact ⟨now, buf, h, action, kind, same.symm⟩
  · cases found

theorem step_exact [Profile] {history : Trace F} {c c' : Connection F} {a : Call} {o : Reply}
    {priority : UInt64 → UInt8 → Prop} (exact_ : Exact history c)
    (oneCut : OneCut priority (Arrived (history ++ [⟨c, a, o, c'⟩])))
    (unread : ∀ out, a ≠ .read out) (taken : ReceiverStep c a o c') :
    Exact (history ++ [⟨c, a, o, c'⟩]) c' := by
  cases taken with
  | kept same _ bare =>
    refine exact_kept exact_ ?_ same.recBuffer same.recvDic
    unfold arrivalOf?
    split
    · rename_i now buf action
      rw [(bare now buf action).1]
      rfl
    · rfl
  | @stored now buf recBuffer _ r complete kind written buffer notes _ =>
    have arrives : arrivalOf? ⟨c, .recvSlice now buf, .recvSlice r, c'⟩ = _ :=
      arrivalOf?_stored complete kind
    obtain ⟨high, stores⟩ := stored_entry oneCut (arrived_snoc.mpr (Or.inr arrives)) written
    refine exact_arrival exact_ arrives oneCut ?_ notes
    rw [buffer, stores]
  | queried complete kind _ buffer notes _ =>
    refine exact_kept exact_ ?_ buffer notes
    simp [arrivalOf?, headerOf?_complete complete, kind]
  | checked _ => exact exact_kept exact_ rfl rfl rfl
  | answered _ _ buffer notes _ => exact exact_kept exact_ rfl buffer notes
  | read _ => exact absurd rfl (unread _)

variable [FloatOps F]

def PieceOf (server : Connection F) (b : RangeBuf) (x : Chunk) : Prop :=
  x.offset.toNat = b.off ∧ x.content = b.data ∧ server.priorityCalculation b.off = .ok x.priority

variable [Profile]

theorem run_arrivals {start j : System F} (fresh : Start start) {trace : SystemTrace F}
    (run : Run (jointStep step Reply.packet?) Delivered start trace j) :
    ∀ x, Arrived (rightTrace trace) x →
      ∃ b ∈ appended (leftTrace trace), PieceOf start.left b x := by
  refine run_invariant (fun trace _ => ∀ x, Arrived (rightTrace trace) x →
    ∃ b ∈ appended (leftTrace trace), PieceOf start.left b x) ?_ ?_ run
  · intro x known
    obtain ⟨t, mem, _⟩ := known
    cases mem
  · intro trace j e o j' earlier before may taken
    cases joint_cases taken with
    | left own =>
      rw [rightTrace_snoc_left, leftTrace_snoc_left]
      intro x known
      obtain ⟨b, mem, piece⟩ := before x known
      refine ⟨b, ?_, piece⟩
      rw [appended, List.flatMap_append]
      exact List.mem_append_left _ mem
    | right own =>
      rw [rightTrace_snoc_right, leftTrace_snoc_right]
      intro x known
      rcases arrived_snoc.mp known with old | new
      · exact before x old
      · obtain ⟨now, buf, h, action, kind, rfl⟩ := arrivalOf?_delivered new
        dsimp only at action
        subst action
        obtain ⟨b, mem, conveys⟩ := (run_faithful fresh earlier).wire buf.bytes may h kind
        exact ⟨b, mem, conveys.offset, conveys.payload, conveys.priority⟩

theorem run_oneCut {start j : System F} (fresh : Start start) {trace : SystemTrace F}
    (run : Run (jointStep step Reply.packet?) Delivered start trace j) :
    OneCut (fun w p => start.left.priorityCalculation w.toNat = .ok p)
      (Arrived (rightTrace trace)) := by
  have pieces := run_arrivals fresh run
  have segmented := run_segmented (start_session fresh) (left_run delivered_serverCall run)
  refine ⟨?_, ?_, ?_, ?_, ?_⟩
  · intro x known
    obtain ⟨b, mem, _, content, _⟩ := pieces x known
    rw [content]
    exact (made_bounds segmented mem).1
  · intro x known
    obtain ⟨b, mem, offset, content, _⟩ := pieces x known
    obtain ⟨_, end_, fits, _⟩ := made_bounds segmented mem
    rw [offset, content]
    simp only [isizeMax, wordSize] at fits ⊢
    omega
  · intro w p q first second
    rw [first, Except.ok.injEq] at second
    exact second
  · intro x known
    obtain ⟨b, _, offset, _, rated⟩ := pieces x known
    rw [offset]
    exact rated
  · intro x y left right
    obtain ⟨b, mem, offset, content, _⟩ := pieces x left
    obtain ⟨d, mem', offset', content', _⟩ := pieces y right
    have apart := tiles_apart segmented.tiles (List.mem_map_of_mem (f := pieceOf) mem)
      (List.mem_map_of_mem (f := pieceOf) mem')
    dsimp only [pieceOf] at apart
    rw [← UInt64.toNat_inj, offset, offset', content, content']
    rcases apart with same | apart
    · exact Or.inl (Prod.mk.inj same)
    · exact Or.inr apart

theorem run_exact_arrivals {start j : System F} (fresh : Start start) {trace : SystemTrace F}
    (run : Run (jointStep step Reply.packet?) Delivered start trace j)
    (unread : Unread (rightTrace trace)) : Exact (rightTrace trace) j.right := by
  refine run_invariant (fun trace j => Unread (rightTrace trace) → Exact (rightTrace trace) j.right)
    ?_ ?_ run unread
  · intro _
    obtain ⟨_, _, _, client⟩ := fresh.client
    rw [client]
    constructor
    · simp [Connection.connect, Connection.new, RecvBuf.new, OrdMap.empty, Arrived, rightTrace]
    · simp [Connection.connect, Connection.new, Arrived, rightTrace]
  · intro trace j e o j' earlier before may taken
    have now_ := run_oneCut fresh (.step earlier may taken)
    cases joint_cases taken with
    | left own =>
      rw [rightTrace_snoc_left]
      exact before
    | right own =>
      rw [rightTrace_snoc_right] at now_ ⊢
      intro unread
      have first : Unread (rightTrace trace) :=
        fun t mem => unread t (List.mem_append_left _ mem)
      have last := unread _ (List.mem_append_right _ (List.mem_singleton.mpr rfl))
      exact step_exact (before first) now_ last (receiver_step own)

/-- What the client holds is a matter of which chunks have arrived, not of their order, not of how
    often, and not of what else it was called for. -/
theorem arrivals_determine_buffer {start j start' j' : System F} (fresh : Start start)
    (fresh' : Start start') {trace trace' : SystemTrace F}
    (run : Run (jointStep step Reply.packet?) Delivered start trace j)
    (run' : Run (jointStep step Reply.packet?) Delivered start' trace' j')
    (unread : Unread (rightTrace trace)) (unread' : Unread (rightTrace trace'))
    (same : ∀ x, Arrived (rightTrace trace) x ↔ Arrived (rightTrace trace') x) :
    j.right.recBuffer.data = j'.right.recBuffer.data ∧
      ∀ w, j.right.recvDic.lookup w = j'.right.recvDic.lookup w := by
  have left := run_exact_arrivals fresh run unread
  have right := run_exact_arrivals fresh' run' unread'
  constructor
  · apply OrdMap.eq_of_mem_iff
    intro e
    rw [left.stored, right.stored]
    simp only [same]
  · intro w
    apply Option.ext
    intro p
    rw [left.noted, right.noted]
    simp only [same]

/-- The datagram starts at or after the read cursor, if it carries data. -/
def NotBehind (r : RecvBuf) (buf : Bytes) : Prop :=
  ∀ h, h ∈ headerOf? .application buf → r.lastMaxoff ≤ h.offset.toNat

def Timely (j : System F) (e : Turn Call) : Prop :=
  Delivered j e ∧ match e with
    | .right (.recvSlice _ buf) => NotBehind j.right.recBuffer buf.bytes
    | _ => True

theorem timely_good {start j : System F} (fresh : Start start) {trace : SystemTrace F}
    (run : Run (jointStep step Reply.packet?) Timely start trace j) : Good j.right.recBuffer := by
  refine run_invariant (fun _ j => Good j.right.recBuffer) ?_ ?_ run
  · obtain ⟨_, _, _, client⟩ := fresh.client
    rw [client]
    exact good_new
  · intro trace j e o j' earlier good may taken
    have delivered := run_widen (fun _ _ may => may.1) earlier
    have faithful := run_faithful fresh delivered
    have segmented := run_segmented (start_session fresh) (left_run delivered_serverCall delivered)
    cases joint_cases taken with
    | left own => exact good
    | right own =>
      dsimp only
      cases receiver_step own with
      | kept same _ _ =>
        rw [same.recBuffer]
        exact good
      | @stored now buf recBuffer _ r complete kind written buffer _ _ =>
        have header : headerOf? .application buf.bytes = some (decodeHeader buf.bytes) := by
          rw [headerOf?_complete complete, if_pos kind]
        obtain ⟨b, mem, conveys⟩ := faithful.wire buf.bytes may.1 _ header
        have ahead := may.2 _ (Option.mem_def.mpr header)
        rw [conveys.offset] at ahead
        obtain ⟨r', stores, good'⟩ := write_good good (piece_fits segmented mem faithful.stored ahead)
        rw [conveys.payload, conveys.offset, stores] at written
        cases written
        rw [buffer]
        exact good'
      | queried _ _ _ buffer _ _ =>
        rw [buffer]
        exact good
      | checked _ => exact good
      | answered _ _ buffer _ _ =>
        rw [buffer]
        exact good
      | read emitted =>
        obtain ⟨st', result, _, emitted', good'⟩ := emit_good good _
        rw [emitted'] at emitted
        cases emitted
        exact good'

theorem unread_cursor {start j : System F} (fresh : Start start) {trace : SystemTrace F}
    (run : Run (jointStep step Reply.packet?) Delivered start trace j)
    (unread : Unread (rightTrace trace)) : j.right.recBuffer.lastMaxoff = 0 := by
  refine run_invariant (fun trace j => Unread (rightTrace trace) →
    j.right.recBuffer.lastMaxoff = 0) ?_ ?_ run unread
  · intro _
    obtain ⟨_, _, _, client⟩ := fresh.client
    rw [client]
    rfl
  · intro trace j e o j' earlier before may taken
    cases joint_cases taken with
    | left own =>
      rw [rightTrace_snoc_left]
      exact before
    | right own =>
      rw [rightTrace_snoc_right]
      intro unread
      have first := before (fun t mem => unread t (List.mem_append_left _ mem))
      have last := unread _ (List.mem_append_right _ (List.mem_singleton.mpr rfl))
      dsimp only at last ⊢
      cases receiver_step own with
      | kept same _ _ =>
        rw [same.recBuffer]
        exact first
      | stored _ _ written buffer _ _ =>
        rw [buffer, write_cursor written]
        exact first
      | queried _ _ _ buffer _ _ =>
        rw [buffer]
        exact first
      | checked _ => exact first
      | answered _ _ buffer _ _ =>
        rw [buffer]
        exact first
      | read _ => exact absurd rfl (last _)

/-- While no data arrives behind the cursor, every `read` of the client returns and its buffer stays
    in order; and before the first `read` nothing can arrive behind the cursor. -/
theorem timely_reads_return {start j : System F} (fresh : Start start) {trace : SystemTrace F}
    (run : Run (jointStep step Reply.packet?) Timely start trace j) :
    Good j.right.recBuffer ∧
    (∀ out : Slice, ∃ c' written r, step j.right (.read out) = .ok (c', .read written r) ∧
      Good c'.recBuffer) ∧
    (Unread (rightTrace trace) → ∀ e, Delivered j e → Timely j e) := by
  have good := timely_good fresh run
  refine ⟨good, ?_, ?_⟩
  · intro out
    obtain ⟨st', result, _, emitted, good'⟩ := emit_good good out.bytes
    refine ⟨{ j.right with recBuffer := st'.recv }, st'.out, result, ?_, good'⟩
    simp only [step, Connection.read, emitted, ok_bind, pure, Except.pure]
  · intro unread e may
    have cursor := unread_cursor fresh (run_widen (fun _ _ may => may.1) run) unread
    refine ⟨may, ?_⟩
    split
    · intro h _
      rw [cursor]
      exact Nat.zero_le _
    · trivial

end Histories

def isRead : Call → Bool
  | .read _ => true
  | _ => false

theorem unread_of_none {history : Trace F}
    (none_read : history.all (fun t => !isRead t.action) = true) : Unread history := by
  intro t mem out action
  have here := List.all_eq_true.mp none_read t mem
  rw [action] at here
  cases here

def doubledDelivery : List (Turn Call) :=
  oneChunkExchange.take 8 ++ (oneChunkExchange.drop 7).take 1

def receivesUnread (trace : SystemTrace ℚ) (xs : List Chunk) : Bool :=
  decide ((rightTrace trace).filterMap (@arrivalOf? ℚ referenceOctets) = xs) &&
    (rightTrace trace).all (fun t => !isRead t.action)

theorem doubled_delivery_alike : ∃ (start j start' j' : System ℚ) (trace trace' : SystemTrace ℚ),
    @Start ℚ rationalFloats checkedBuild start ∧ @Start ℚ rationalFloats checkedBuild start' ∧
      Run (jointStep (@step ℚ referenceOctets checkedBuild rationalFloats) Reply.packet?) Delivered
        start trace j ∧
      Run (jointStep (@step ℚ referenceOctets checkedBuild rationalFloats) Reply.packet?) Delivered
        start' trace' j' ∧
      trace.map (fun t => t.action) = oneChunkExchange.take 8 ∧
      trace'.map (fun t => t.action) = doubledDelivery ∧
      j.right.recBuffer.data.entries.length = 1 ∧ j'.right.recvCount = j.right.recvCount + 2 ∧
      j.right.recBuffer.data = j'.right.recBuffer.data := by
  have once : exchangePasses (onesText 255) (oneChunkExchange.take 8) (fun _ trace j =>
      receivesUnread trace [⟨0, onesBytes 255, 3⟩] &&
        j.right.recBuffer.data.entries.length == 1 && j.right.recvCount == 3) = true := by
    decide +kernel
  have twice : exchangePasses (onesText 255) doubledDelivery (fun _ trace j =>
      receivesUnread trace [⟨0, onesBytes 255, 3⟩, ⟨0, onesBytes 255, 3⟩] &&
        j.right.recvCount == 5) = true := by
    decide +kernel
  obtain ⟨start, j, trace, fresh, run, played, outcome⟩ := exchange_played once
  obtain ⟨start', j', trace', fresh', run', played', outcome'⟩ := exchange_played twice
  simp only [receivesUnread, Bool.and_eq_true, decide_eq_true_eq, beq_iff_eq] at outcome outcome'
  obtain ⟨⟨⟨arrivals, unread⟩, stored⟩, count⟩ := outcome
  obtain ⟨⟨arrivals', unread'⟩, count'⟩ := outcome'
  obtain ⟨same, _⟩ := @arrivals_determine_buffer ℚ referenceOctets rationalFloats checkedBuild
    start j start' j' fresh fresh' trace trace' run run' (unread_of_none unread)
    (unread_of_none unread') (by
      intro x
      rw [@arrived_iff ℚ referenceOctets, @arrived_iff ℚ referenceOctets, arrivals, arrivals']
      simp)
  exact ⟨start, j, start', j', trace, trace', fresh, fresh', run, run', played, played', stored,
    by rw [count, count'], same⟩

def timely (t : Transition (System ℚ) (Turn Call) Reply) : Bool :=
  match t.action with
  | .right (.recvSlice _ buf) => (@headerOf? referenceOctets .application buf.bytes).all
      (fun h => decide (t.before.right.recBuffer.lastMaxoff ≤ h.offset.toNat))
  | _ => true

theorem timely_sound {t : Transition (System ℚ) (Turn Call) Reply}
    (may : Delivered t.before t.action) (passed : timely t = true) :
    @Timely ℚ referenceOctets t.before t.action := by
  refine ⟨may, ?_⟩
  unfold timely at passed
  split at passed
  · intro h found
    rw [Option.mem_def.mp found] at passed
    exact of_decide_eq_true passed
  · trivial

theorem read_after_exchange : ∃ (start j : System ℚ) (trace : SystemTrace ℚ)
    (c' : Connection ℚ) (written : Bytes) (r : Except Error Nat),
    @Start ℚ rationalFloats checkedBuild start ∧
      Run (jointStep (@step ℚ referenceOctets checkedBuild rationalFloats) Reply.packet?)
        (@Timely ℚ referenceOctets) start trace j ∧
      trace.map (fun t => t.action) = oneChunkExchange.take 8 ∧
      j.right.recBuffer.data.entries.length = 1 ∧
      @step ℚ referenceOctets checkedBuild rationalFloats j.right (.read outBuffer) =
        .ok (c', .read written r) := by
  have passed : exchangePasses (onesText 255) (oneChunkExchange.take 8) (fun _ trace j =>
      trace.all (fun t => decide (Delivered t.before t.action) && timely t) &&
        j.right.recBuffer.data.entries.length == 1) = true := by decide +kernel
  obtain ⟨start, j, trace, fresh, run, played, outcome⟩ := exchange_played passed
  simp only [Bool.and_eq_true, List.all_eq_true, decide_eq_true_eq, beq_iff_eq] at outcome
  have timely_run := run_narrow run
    (fun t mem => timely_sound (outcome.1 t mem).1 (outcome.1 t mem).2)
  obtain ⟨_, reads, _⟩ := @timely_reads_return ℚ referenceOctets rationalFloats checkedBuild start j
    fresh trace timely_run
  obtain ⟨c', written, r, done, _⟩ := reads outBuffer
  exact ⟨start, j, trace, c', written, r, fresh, timely_run, played, outcome.2, done⟩

end DmludpArrivals
