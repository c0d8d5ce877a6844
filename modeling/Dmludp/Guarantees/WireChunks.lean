import Dmludp.Endpoint.ReceiverSteps
import Dmludp.Guarantees.NoSilentDrop
import Dmludp.Guarantees.ReadCursor

/- What crosses the network. The server cuts each chunk once and sends it any number of times; the
   client stores a datagram by the end of its range and notes its priority by its offset. Whatever
   is lost, doubled or reordered in between, both sides speak of the same chunks. -/
namespace DmludpWireChunks
open ByteCursor RustOutcome TracedRun OrderedMap StreamTiling LossyNetwork DmludpPacket DmludpRange
open DmludpRecv DmludpRecovery DmludpConnection DmludpConnection.Connection DmludpCalls DmludpEffects
open DmludpReceiveEffects DmludpSenderSteps DmludpReceiverSteps DmludpSegmentation
open DmludpPacketIntegrity DmludpNoSilentDrop DmludpReadCursor DmludpReference

variable {F : Type}

/-- The datagram `m` with header `h` is the chunk `b`, whole, under the priority the server
    computes for it. -/
structure Conveys [FloatOps F] (server : Connection F) (m : Bytes) (h : Header) (b : RangeBuf) :
    Prop where
  offset : h.offset.toNat = b.off
  pktLength : h.pktLength.toNat = b.data.length
  payload : m.drop 26 = b.data
  priority : server.priorityCalculation b.off = .ok h.priority

/-- `held`, stored under `key`, is the chunk `b` or what reading has left of it. -/
structure Holds (b : RangeBuf) (key : Nat) (held : RangeBuf) : Prop where
  key_eq : key = b.off + b.data.length
  used : ∃ n, held = (RangeBuf.ofSlice b.data b.off).consume n

theorem holds_consume {b held : RangeBuf} {key : Nat} (holds : Holds b key held) (n : Nat) :
    Holds b key (held.consume n) := by
  obtain ⟨key_eq, m, rfl⟩ := holds
  exact ⟨key_eq, m + n, by simp [RangeBuf.consume, Nat.add_assoc]⟩

/-- The queue, the wire and the client's two tables all hold chunks of `made`. -/
structure Faithful [Octets] [FloatOps F] (server : Connection F) (made : List RangeBuf)
    (j : System F) : Prop where
  queue : ∀ b ∈ j.left.sendBuffer.data, b ∈ made
  wire : ∀ m ∈ j.toRight, ∀ h, headerOf? .application m = some h → ∃ b ∈ made, Conveys server m h b
  stored : ∀ e ∈ j.right.recBuffer.data.entries, ∃ b ∈ made, Holds b e.1 e.2
  noted : ∀ w p, j.right.recvDic.lookup w = some p →
    ∃ b ∈ made, b.off = w.toNat ∧ server.priorityCalculation b.off = .ok p

theorem delivered_roomy (j : System F) (a : Call) (may : Delivered j (.left a)) :
    RoomyServerCall j.left a := by
  refine ⟨delivered_serverCall j a may, ?_⟩
  cases a <;> first | exact may | trivial

theorem made_bounds {text : Bytes} {trace : Trace F} {c : Connection F}
    (segmented : Segmented text trace c) {b : RangeBuf} (mem : b ∈ appended trace) :
    b.data ≠ [] ∧ b.off + b.data.length ≤ text.length ∧ text.length ≤ isizeMax ∧
      b.data = cut text b.off b.data.length := by
  obtain ⟨_, high, content⟩ :=
    tiles_mem segmented.tiles (List.mem_map_of_mem (f := pieceOf) mem)
  have inside := segmented.stream.inside
  dsimp only [pieceOf] at high content
  exact ⟨List.length_pos_iff.mp (segmented.blocks b mem).1, by omega, segmented.stream.fits, content⟩

section Steps
variable [FloatOps F]

theorem faithful_grows [Octets] {server : Connection F} {made : List RangeBuf} {j : System F}
    (more : List RangeBuf) (faithful : Faithful server made j) :
    Faithful server (made ++ more) j := by
  obtain ⟨queue, wire, stored, noted⟩ := faithful
  refine ⟨fun b mem => List.mem_append_left more (queue b mem), ?_, ?_, ?_⟩
  · intro m mem h kind
    obtain ⟨b, old, conveys⟩ := wire m mem h kind
    exact ⟨b, List.mem_append_left more old, conveys⟩
  · intro e mem
    obtain ⟨b, old, holds⟩ := stored e mem
    exact ⟨b, List.mem_append_left more old, holds⟩
  · intro w p found
    obtain ⟨b, old, same⟩ := noted w p found
    exact ⟨b, List.mem_append_left more old, same⟩

variable [Profile]

theorem conveyed_stored {server : Connection F} {r r' : RecvBuf} {m : Bytes} {h : Header}
    {b : RangeBuf} (conveys : Conveys server m h b) (filled : b.data ≠ [])
    (word : b.off + b.data.length < wordSize)
    (written : r.write (m.drop 26) h.offset.toNat = .ok (r', .ok ())) :
    ∃ high, r' = { r with
      data := r.data.insert (b.off + b.data.length) (RangeBuf.ofSlice b.data b.off)
      maxRecvOff := high } := by
  obtain ⟨high, stores⟩ := write_stores r filled word
  rw [conveys.payload, conveys.offset, stores] at written
  cases written
  exact ⟨high, rfl⟩

variable [Octets]

theorem server_faithful {server : Connection F} {history : SystemTrace F} {j : System F} {a : Call}
    {c' : Connection F} {o : Reply} {sent : List Bytes}
    (faithful : Faithful server (appended (leftTrace history)) j)
    (numbered : Numbered server.sendDataVec server.norm2Vec sent j.left)
    (norms : ∀ off, j.left.priorityCalculation off = server.priorityCalculation off)
    (may : RoomyServerCall j.left a) (taken : SenderStep j.left a o c') :
    Faithful server (appended (leftTrace history ++ [⟨j.left, a, o, c'⟩]))
      { j with left := c', toRight := j.toRight ++ o.packet?.toList } := by
  obtain ⟨kept, added, grown⟩ := step_grown numbered.stream may.1 taken
  have more : appended (leftTrace history ++ [⟨j.left, a, o, c'⟩]) =
      appended (leftTrace history) ++ added := by
    rw [appended, List.flatMap_append, List.flatMap_singleton,
      (grown_parts (t := ⟨j.left, a, o, c'⟩) numbered.stream grown).1]
    rfl
  obtain ⟨queue, wire, stored, noted⟩ := faithful_grows added faithful
  rw [more]
  refine ⟨?_, ?_, stored, noted⟩
  · intro b mem
    rw [grown.queue] at mem
    rcases List.mem_append.mp mem with old | new
    · exact queue b (grown.sub.subset old)
    · exact List.mem_append_right _ new
  · intro m mem h kind
    rcases List.mem_append.mp mem with old | new
    · exact wire m old h kind
    · obtain ⟨b, carries⟩ := (step_carries numbered may taken).carries m h
        (Option.mem_toList.mp new) kind
      have content := (numbered.stream.content b carries.buffered).2
      refine ⟨b, queue b carries.buffered, carries.offset, carries.pktLength, ?_, ?_⟩
      · rw [carries.payload, carries.offset, carries.pktLength]
        exact content.symm
      · rw [← norms]
        exact carries.priority

theorem client_faithful {server : Connection F} {history : SystemTrace F} {j : System F} {a : Call}
    {c' : Connection F} {o : Reply} {c : Connection F}
    (segmented : Segmented server.sendDataVec (leftTrace history) c)
    (faithful : Faithful server (appended (leftTrace history)) j)
    (may : Delivered j (.right a)) (taken : ReceiverStep j.right a o c') {toLeft : List Bytes} :
    Faithful server (appended (leftTrace history)) { j with right := c', toLeft := toLeft } := by
  obtain ⟨queue, wire, stored, noted⟩ := faithful
  cases taken with
  | kept same _ _ =>
    refine ⟨queue, wire, ?_, ?_⟩
    · rw [same.recBuffer]
      exact stored
    · rw [same.recvDic]
      exact noted
  | @stored now buf recBuffer _ _ complete kind written buffer noted' _ =>
    obtain ⟨b, mem, conveys⟩ := wire buf.bytes may (decodeHeader buf.bytes)
      (by rw [headerOf?_complete complete, if_pos kind])
    obtain ⟨filled, end_, fits, _⟩ := made_bounds segmented mem
    obtain ⟨high, stores⟩ := conveyed_stored conveys filled
      (by simp only [isizeMax, wordSize] at fits ⊢; omega) written
    refine ⟨queue, wire, ?_, ?_⟩
    · intro e there
      rw [buffer, stores] at there
      rcases OrdMap.mem_insert.mp there with rfl | ⟨old, _⟩
      · exact ⟨b, mem, rfl, 0, rfl⟩
      · exact stored e old
    · intro w p found
      rw [noted'] at found
      by_cases here : w = (decodeHeader buf.bytes).offset
      · subst here
        rw [AList.lookup_insert, Option.some.injEq] at found
        subst found
        exact ⟨b, mem, conveys.offset.symm, conveys.priority⟩
      · rw [AList.lookup_insert_ne here] at found
        exact noted w p found
  | queried _ _ _ buffer noted' _ =>
    refine ⟨queue, wire, ?_, ?_⟩
    · rw [buffer]
      exact stored
    · rw [noted']
      exact noted
  | checked _ => exact ⟨queue, wire, stored, noted⟩
  | answered _ _ buffer noted' _ =>
    refine ⟨queue, wire, ?_, ?_⟩
    · rw [buffer]
      exact stored
    · rw [noted']
      exact noted
  | read emitted =>
    refine ⟨queue, wire, ?_, noted⟩
    apply RecvBuf.emit_entries (fun key held => ∃ b ∈ appended (leftTrace history), Holds b key held)
      ?_ stored emitted
    rintro key held n ⟨b, mem, holds⟩
    exact ⟨b, mem, holds_consume holds n⟩

theorem run_faithful {start j : System F} (fresh : Start start) {trace : SystemTrace F}
    (run : Run (jointStep step Reply.packet?) Delivered start trace j) :
    Faithful start.left (appended (leftTrace trace)) j := by
  refine run_invariant (fun trace j => Faithful start.left (appended (leftTrace trace)) j) ?_ ?_ run
  · obtain ⟨unused, _⟩ := session_unused (start_session fresh)
    obtain ⟨_, _, _, client⟩ := fresh.client
    refine ⟨?_, ?_, ?_, ?_⟩
    · simp [unused.queue]
    · simp [fresh.toRight]
    · rw [client]
      simp [Connection.connect, Connection.new, RecvBuf.new, OrdMap.empty]
    · rw [client]
      simp [Connection.connect, Connection.new]
  · intro trace j e o j' earlier faithful may taken
    cases joint_cases taken with
    | left own =>
      have server := left_run delivered_roomy earlier
      have numbered := run_numbered (start_session fresh) server
      have norms := run_norms (left_run delivered_serverCall earlier)
      rw [leftTrace_snoc_left]
      exact server_faithful faithful numbered norms (delivered_roomy _ _ may) (sender_step own)
    | right own =>
      have segmented := run_segmented (start_session fresh) (left_run delivered_serverCall earlier)
      rw [leftTrace_snoc_right]
      exact client_faithful segmented faithful may (receiver_step own)

/-- The client holds nothing but pieces of the server's data, each where the data has it, and under
    the priority of its block. -/
theorem client_holds_only_the_stream {start j : System F} (fresh : Start start)
    {trace : SystemTrace F} (run : Run (jointStep step Reply.packet?) Delivered start trace j) :
    (∀ e ∈ j.right.recBuffer.data.entries, e.1 = e.2.off + e.2.data.length ∧
      e.1 ≤ start.left.sendDataVec.length ∧
      e.2.data = cut start.left.sendDataVec e.2.off e.2.data.length ∧
      e.2.off / 1024 = (e.1 - 1) / 1024) ∧
    (∀ w p, j.right.recvDic.lookup w = some p →
      w.toNat < start.left.sendDataVec.length ∧ start.left.priorityCalculation w.toNat = .ok p) := by
  obtain ⟨_, _, stored, noted⟩ := run_faithful fresh run
  have segmented := run_segmented (start_session fresh) (left_run delivered_serverCall run)
  constructor
  · intro e mem
    obtain ⟨b, made, key_eq, n, held⟩ := stored e mem
    obtain ⟨_, end_, _, content⟩ := made_bounds segmented made
    have block := segmented.blocks b made
    simp only [DmludpSend.SendBuf.InBlock, DmludpSend.sendBufferSize] at block
    rw [held, key_eq]
    dsimp only [RangeBuf.ofSlice, RangeBuf.consume]
    exact ⟨rfl, end_, content, by omega⟩
  · intro w p found
    obtain ⟨b, made, offset, priority⟩ := noted w p found
    obtain ⟨filled, end_, _, _⟩ := made_bounds segmented made
    have positive := List.length_pos_iff.mpr filled
    rw [← offset]
    exact ⟨by omega, priority⟩

/-- Two Application datagrams of one transfer are copies of one chunk or lie apart. -/
theorem wire_chunks_consistent {start j : System F} (fresh : Start start) {trace : SystemTrace F}
    (run : Run (jointStep step Reply.packet?) Delivered start trace j) {m m' : Bytes}
    {h h' : Header} (sent : m ∈ j.toRight) (sent' : m' ∈ j.toRight)
    (kind : headerOf? .application m = some h) (kind' : headerOf? .application m' = some h') :
    (h.offset = h'.offset ∧ h.pktLength = h'.pktLength ∧ h.priority = h'.priority ∧
      m.drop 26 = m'.drop 26) ∨
    h.offset.toNat + h.pktLength.toNat ≤ h'.offset.toNat ∨
    h'.offset.toNat + h'.pktLength.toNat ≤ h.offset.toNat := by
  have faithful := run_faithful fresh run
  have segmented := run_segmented (start_session fresh) (left_run delivered_serverCall run)
  obtain ⟨b, made, conveys⟩ := faithful.wire m sent h kind
  obtain ⟨b', made', conveys'⟩ := faithful.wire m' sent' h' kind'
  have apart := tiles_apart segmented.tiles (List.mem_map_of_mem (f := pieceOf) made)
    (List.mem_map_of_mem (f := pieceOf) made')
  dsimp only [pieceOf] at apart
  rw [conveys.offset, conveys.pktLength, conveys'.offset, conveys'.pktLength]
  rcases apart with same | apart
  · obtain ⟨off, data⟩ := Prod.mk.inj same
    left
    refine ⟨?_, ?_, ?_, ?_⟩
    · apply UInt64.toNat_inj.mp
      rw [conveys.offset, conveys'.offset, off]
    · apply UInt64.toNat_inj.mp
      rw [conveys.pktLength, conveys'.pktLength, data]
    · have priority := conveys.priority
      rw [off, conveys'.priority, Except.ok.injEq] at priority
      exact priority.symm
    · rw [conveys.payload, conveys'.payload, data]
  · exact Or.inr apart

end Steps

theorem one_chunk_held : ∃ (start j : System ℚ) (trace : SystemTrace ℚ),
    @Start ℚ rationalFloats checkedBuild start ∧
      Run (jointStep (@step ℚ referenceOctets checkedBuild rationalFloats) Reply.packet?) Delivered
        start trace j ∧
      trace.map (fun t => t.action) = oneChunkExchange.take 8 ∧
      j.right.recBuffer.data.entries.length = 1 ∧
      ∀ e ∈ j.right.recBuffer.data.entries,
        e.2.data = cut start.left.sendDataVec e.2.off e.2.data.length := by
  have passed : exchangePasses (onesText 255) (oneChunkExchange.take 8) (fun _ _ j =>
      j.right.recBuffer.data.entries.length == 1) = true := by decide +kernel
  obtain ⟨start, j, trace, fresh, run, played, outcome⟩ := exchange_played passed
  obtain ⟨held, _⟩ := @client_holds_only_the_stream ℚ rationalFloats checkedBuild referenceOctets
    start j fresh trace run
  exact ⟨start, j, trace, fresh, run, played, beq_iff_eq.mp outcome, fun e mem => (held e mem).2.2.1⟩

def carriesAt (sent : List Bytes) (i : Nat) (offset : UInt64) : Bool :=
  (sent[i]?.bind (@headerOf? referenceOctets .application)).any (fun h => h.offset == offset)

theorem carriesAt_sound {sent : List Bytes} {i : Nat} {offset : UInt64}
    (found : carriesAt sent i offset = true) :
    ∃ m ∈ sent, ∃ h, @headerOf? referenceOctets .application m = some h ∧ h.offset = offset := by
  simp only [carriesAt, Option.any_eq_true, Option.bind_eq_some_iff, beq_iff_eq] at found
  obtain ⟨h, ⟨m, place, kind⟩, same⟩ := found
  exact ⟨m, List.mem_of_getElem? place, h, kind, same⟩

theorem two_chunks_apart : ∃ (start j : System ℚ) (trace : SystemTrace ℚ) (m m' : Bytes)
    (h h' : Header), @Start ℚ rationalFloats checkedBuild start ∧
      Run (jointStep (@step ℚ referenceOctets checkedBuild rationalFloats) Reply.packet?) Delivered
        start trace j ∧
      trace.map (fun t => t.action) = oneChunkExchange.take 7 ∧
      m ∈ j.toRight ∧ m' ∈ j.toRight ∧ h.offset = 0 ∧ h'.offset = 1024 ∧
      (h.offset.toNat + h.pktLength.toNat ≤ h'.offset.toNat ∨
        h'.offset.toNat + h'.pktLength.toNat ≤ h.offset.toNat) := by
  have passed : exchangePasses (onesText 511) (oneChunkExchange.take 7) (fun _ _ j =>
      carriesAt j.toRight 1 0 && carriesAt j.toRight 2 1024) = true := by decide +kernel
  obtain ⟨start, j, trace, fresh, run, played, outcome⟩ := exchange_played passed
  rw [Bool.and_eq_true] at outcome
  obtain ⟨m, sent, h, kind, first⟩ := carriesAt_sound outcome.1
  obtain ⟨m', sent', h', kind', second⟩ := carriesAt_sound outcome.2
  have apart := @wire_chunks_consistent ℚ rationalFloats checkedBuild referenceOctets start j fresh
    trace run m m' h h' sent sent' kind kind'
  refine ⟨start, j, trace, m, m', h, h', fresh, run, played, sent, sent', first, second, ?_⟩
  rcases apart with ⟨same, _⟩ | apart
  · rw [first, second] at same
    cases same
  · exact apart

end DmludpWireChunks
