import Dmludp.Endpoint.AckEntries
import Dmludp.Endpoint.ReferenceInstance

/- The order of the pairs in an ACK. The receiver writes them as its hash map hands them out, so
   nothing may depend on it: not the marks, not the loss count, and not the window change unless
   the sum of the weights itself depends on the order. -/
namespace DmludpAckOrder
open ByteCursor RustOutcome OrderedMap DmludpPacket DmludpSend DmludpRecovery DmludpConnection
open DmludpConnection.Connection DmludpReceiveEffects DmludpAckEntries DmludpReference

variable {F : Type}

def ackDatagram (header : Bytes) (maxAck : UInt64) (ps : List (UInt64 × UInt64)) : Bytes :=
  header ++ (u64Bytes maxAck ++ ps.flatMap pairBytes)

theorem ackDatagram_payload {header : Bytes} (width : header.length = 26) (maxAck : UInt64)
    (ps : List (UInt64 × UInt64)) :
    (ackDatagram header maxAck ps).drop 26 = u64Bytes maxAck ++ ps.flatMap pairBytes := by
  unfold ackDatagram
  rw [← width, List.drop_left]

theorem ackDatagram_complete {header : Bytes} (width : header.length = 26) (maxAck : UInt64)
    (ps : List (UInt64 × UInt64)) : 26 ≤ (ackDatagram header maxAck ps).length := by
  unfold ackDatagram
  rw [List.length_append]
  omega

theorem markEntry_comm (c : Connection F) (marks : OrdMap Nat Bool) (p q : UInt64 × UInt64) :
    markEntry c (markEntry c marks p) q = markEntry c (markEntry c marks q) p := by
  unfold markEntry
  by_cases first : withdraws c p = true
  · by_cases second : withdraws c q = true
    · rw [if_pos first, if_pos second, if_pos second, if_pos first]
      exact OrdMap.set_comm _ _ _ _
    · rw [if_pos first, if_neg second, if_neg second, if_pos first]
  · rw [if_neg first, if_neg first]

section Pairs
variable [FloatOps F]

theorem foldl_noteEntry_perm {ps qs : List (UInt64 × UInt64)} (perm : ps.Perm qs)
    (c : Connection F) : ps.foldl noteEntry c = qs.foldl noteEntry c := by
  have marks : ps.foldl (markEntry c) c.sendBuffer.offsetRecv =
      qs.foldl (markEntry c) c.sendBuffer.offsetRecv :=
    perm.foldl_eq' (fun p _ q _ marks => markEntry_comm c marks p q) _
  have high : (ps.map (highLoss c)).sum = (qs.map (highLoss c)).sum := (perm.map _).sum_eq
  rw [foldl_noteEntry, foldl_noteEntry, marks, high]

theorem lossWeight_adds (c : Connection F) (pair : UInt64 × UInt64) :
    (∀ weights, lossWeight c weights pair = weights) ∨
      ∃ x, ∀ weights, lossWeight c weights pair = FloatOps.add32 weights x := by
  cases known : c.entryPriority pair.1 pair.2 with
  | error e => exact Or.inl (fun weights => by simp only [lossWeight, known])
  | ok priority =>
    by_cases range : priority = 1 ∨ priority = 2 ∨ priority = 3
    · obtain ⟨x, weighed⟩ := weighEntry_lost c range
      refine Or.inr ⟨x, fun weights => ?_⟩
      simp only [lossWeight, known, weighed]
    · refine Or.inl (fun weights => ?_)
      simp only [not_or] at range
      simp [lossWeight, known, weighEntry, range]

theorem lossWeight_comm (exact_ : ∀ a b c : F, FloatOps.add32 (FloatOps.add32 a b) c =
      FloatOps.add32 (FloatOps.add32 a c) b) (c : Connection F) (p q : UInt64 × UInt64) (weights : F) :
    lossWeight c (lossWeight c weights p) q = lossWeight c (lossWeight c weights q) p := by
  rcases lossWeight_adds c p with nothing | ⟨x, adds⟩
  · rw [nothing, nothing]
  · rcases lossWeight_adds c q with nothing | ⟨y, adds'⟩
    · rw [nothing, nothing]
    · rw [adds, adds, adds', adds', exact_]

variable [Profile]

/-- Permuting the pairs of a well-formed ACK changes nothing but the rounding of the weight sum:
    all other fields end up the same, and with an exact sum so does the whole result. -/
theorem pair_order_irrelevant (c : Connection F) {header : Bytes} (width : header.length = 26)
    (maxAck : UInt64) {ps qs : List (UInt64 × UInt64)} (perm : ps.Perm qs)
    (covered : Covered c ps) :
    (∀ c1 c2, c.processAck (ackDatagram header maxAck ps) = .ok c1 →
      c.processAck (ackDatagram header maxAck qs) = .ok c2 →
        { c1 with recovery := c.recovery } = { c2 with recovery := c.recovery }) ∧
    ((∀ a b d : F, FloatOps.add32 (FloatOps.add32 a b) d =
      FloatOps.add32 (FloatOps.add32 a d) b) →
        c.processAck (ackDatagram header maxAck ps) =
          c.processAck (ackDatagram header maxAck qs)) := by
  have covered' : Covered c qs := fun q mem => covered q (perm.mem_iff.mpr mem)
  have first := processAck_eq (ackDatagram_complete width maxAck ps)
    (ackDatagram_payload width maxAck ps) covered
  have second := processAck_eq (ackDatagram_complete width maxAck qs)
    (ackDatagram_payload width maxAck qs) covered'
  rw [← foldl_noteEntry_perm perm] at second
  constructor
  · intro c1 c2 done done'
    rw [first] at done
    rw [second] at done'
    obtain ⟨recovery, _, done⟩ := bind_ok_iff.mp done
    obtain ⟨recovery', _, done'⟩ := bind_ok_iff.mp done'
    cases done
    cases done'
    rfl
  · intro exact_
    have weights : ps.foldl (lossWeight c) (FloatOps.lit32 0 1) =
        qs.foldl (lossWeight c) (FloatOps.lit32 0 1) :=
      perm.foldl_eq' (fun p _ q _ weights => lossWeight_comm exact_ c p q weights) _
    rw [first, second, weights, perm.length_eq]

end Pairs

def oneBlockServer : Connection ℚ :=
  { freshServer with
    norm2Vec := [1]
    sendBuffer := { freshServer.sendBuffer with offsetRecv := OrdMap.empty.insert 0 true } }

theorem two_pairs_either_way :
    @processAck ℚ rationalFloats checkedBuild oneBlockServer
        (ackDatagram (zeros 26) 0 [(0, 0), (5, 1)]) =
      @processAck ℚ rationalFloats checkedBuild oneBlockServer
        (ackDatagram (zeros 26) 0 [(5, 1), (0, 0)]) ∧
    (@processAck ℚ rationalFloats checkedBuild oneBlockServer
      (ackDatagram (zeros 26) 0 [(0, 0), (5, 1)])).map (fun c => (c.highPriority,
        c.sendBuffer.offsetRecv.entries)) = .ok (1, [(0, false)]) := by
  have covered : Covered oneBlockServer [(0, 0), (5, 1)] := by
    intro p mem
    simp only [List.mem_cons, List.not_mem_nil, or_false] at mem
    rcases mem with rfl | rfl
    · decide
    · decide
  refine ⟨?_, by decide +kernel⟩
  exact (@pair_order_irrelevant ℚ rationalFloats checkedBuild oneBlockServer (zeros 26) rfl 0
    [(0, 0), (5, 1)] [(5, 1), (0, 0)] (List.Perm.swap _ _ []) covered).2
      (fun a b d => add_right_comm a b d)

end DmludpAckOrder
