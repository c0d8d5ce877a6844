import Dmludp.Endpoint.ReceiveEffects

/- The exact effect of an ACK. A pair reads the budget of its offset and the norm of its block,
   which no pair changes; so the loop over the pairs is a fold of a pure update. -/
namespace DmludpAckEntries
open ByteCursor RustOutcome OrderedMap DmludpPacket DmludpSend DmludpRecovery DmludpConnection
open DmludpConnection.Connection DmludpReceiveEffects

variable {F : Type}

/-- The pair withdraws its offset: its budget is used up, or it was received. -/
def withdraws (c : Connection F) (pair : UInt64 × UInt64) : Bool :=
  decide (c.sentDic.lookup pair.1.toNat = some 0) || decide (pair.2 = 0)

def markEntry (c : Connection F) (marks : OrdMap Nat Bool) (pair : UInt64 × UInt64) :
    OrdMap Nat Bool :=
  if withdraws c pair then marks.set pair.1.toNat false else marks

theorem markEntry_congr {c c' : Connection F} (sentDic : c'.sentDic = c.sentDic) :
    markEntry c' = markEntry c := by
  funext marks pair
  unfold markEntry withdraws
  rw [sentDic]

theorem retireSpent_eq (c : Connection F) (unack : UInt64) : c.retireSpent unack =
    { c with sendBuffer := if c.sentDic.lookup unack.toNat = some 0 then
        c.sendBuffer.ackAndDrop unack.toNat else c.sendBuffer } := by
  unfold retireSpent
  split
  · rename_i spent
    rw [if_pos spent]
  · rename_i unspent
    rw [if_neg unspent]

section Entries
variable [FloatOps F]

def highLoss (c : Connection F) (pair : UInt64 × UInt64) : Nat :=
  if pair.2 ≠ 0 ∧ c.priorityCalculation pair.1.toNat = .ok 3 then 1 else 0

def noteEntry (c : Connection F) (pair : UInt64 × UInt64) : Connection F :=
  { c with
    sendBuffer := { c.sendBuffer with offsetRecv := markEntry c c.sendBuffer.offsetRecv pair }
    highPriority := c.highPriority + highLoss c pair }

theorem highLoss_congr {c c' : Connection F}
    (same : ∀ off, c'.priorityCalculation off = c.priorityCalculation off) :
    highLoss c' = highLoss c := by
  funext pair
  unfold highLoss
  rw [same]

theorem ackEntry_parts {c c' : Connection F} {weights weights' : F} {unack flag : UInt64}
    {priority p : UInt8} (known : (c.retireSpent unack).entryPriority unack flag = .ok priority)
    (weighed : (c.retireSpent unack).weighEntry weights unack priority = (c', weights'))
    (real : c'.priorityCalculation unack.toNat = .ok p) :
    ackEntry (c, weights) unack flag = .ok (if priority ≠ 0 ∧ p = 3 then
      { c' with highPriority := c'.highPriority + 1 } else c', weights') := by
  unfold ackEntry
  simp only [known, ok_bind, weighed, real]
  rfl

theorem weighEntry_received (c : Connection F) (weights : F) (unack : UInt64) :
    c.weighEntry weights unack 0 =
      ({ c with sendBuffer := c.sendBuffer.ackAndDrop unack.toNat }, weights) := by
  simp [weighEntry]

theorem weighEntry_lost (c : Connection F) {priority : UInt8}
    (range : priority = 1 ∨ priority = 2 ∨ priority = 3) : ∃ x, ∀ weights unack,
      c.weighEntry weights unack priority = (c, FloatOps.add32 weights x) := by
  rcases range with rfl | rfl | rfl
  · exact ⟨FloatOps.lit32 15 2, fun _ _ => rfl⟩
  · exact ⟨FloatOps.lit32 2 1, fun _ _ => rfl⟩
  · exact ⟨FloatOps.lit32 25 2, fun _ _ => rfl⟩

theorem ackEntry_eq {c : Connection F} (weights : F) {pair : UInt64 × UInt64}
    (covered : pair.1.toNat / 1024 < c.norm2Vec.length) :
    ackEntry (c, weights) pair.1 pair.2 = .ok (noteEntry c pair, lossWeight c weights pair) := by
  obtain ⟨p, found⟩ := priorityCalculation_ok_iff.mpr covered
  have retired : Marked (fun _ => True) c (c.retireSpent pair.1) :=
    marked_retireSpent c pair.1 (fun _ => trivial)
  have kept := (marked_priority retired pair.1.toNat).trans found
  by_cases zero : pair.2 = 0
  · have known : (c.retireSpent pair.1).entryPriority pair.1 pair.2 = .ok 0 := by
      simp [entryPriority, zero]
    have weight : lossWeight c weights pair = weights := by
      simp [lossWeight, entryPriority, zero, weighEntry_received]
    rw [ackEntry_parts known (weighEntry_received _ _ _) kept, weight, if_neg (by simp)]
    congr 2
    rw [retireSpent_eq]
    unfold noteEntry markEntry withdraws highLoss
    by_cases spent : c.sentDic.lookup pair.1.toNat = some 0
    · simp [spent, zero, SendBuf.ackAndDrop, OrdMap.set_set]
    · simp [spent, zero, SendBuf.ackAndDrop]
  · have range := priorityCalculation_range found
    have known : (c.retireSpent pair.1).entryPriority pair.1 pair.2 = .ok p := by
      simp [entryPriority, zero, kept]
    obtain ⟨x, weighed⟩ := weighEntry_lost (c.retireSpent pair.1) range
    have weight : lossWeight c weights pair = FloatOps.add32 weights x := by
      have own : c.entryPriority pair.1 pair.2 = .ok p := by simp [entryPriority, zero, found]
      simp only [lossWeight, own]
      rw [weighEntry_weight c (c.retireSpent pair.1), weighed]
    have positive : p ≠ 0 := by
      rcases range with rfl | rfl | rfl <;> decide
    rw [ackEntry_parts known (weighed _ _) kept, weight]
    congr 2
    rw [retireSpent_eq]
    unfold noteEntry markEntry withdraws highLoss
    by_cases spent : c.sentDic.lookup pair.1.toNat = some 0
    · by_cases high : p = 3
      · simp [spent, zero, found, high, SendBuf.ackAndDrop]
      · simp [spent, zero, found, high, SendBuf.ackAndDrop]
    · by_cases high : p = 3
      · simp [spent, zero, found, high]
      · simp [spent, zero, found, high]

theorem ackPairs_eq {ps : List (UInt64 × UInt64)} {c : Connection F} (weights : F)
    (covered : Covered c ps) : ps.foldlM (fun s p => ackEntry s p.1 p.2) (c, weights) =
      .ok (ps.foldl noteEntry c, ps.foldl (lossWeight c) weights) := by
  induction ps generalizing c weights with
  | nil => rfl
  | cons p ps ih =>
    have same : lossWeight (noteEntry c p) = lossWeight c := lossWeight_congr (fun _ => rfl)
    have rest : Covered (noteEntry c p) ps := fun q mem => covered q (List.mem_cons_of_mem p mem)
    rw [List.foldlM_cons, ackEntry_eq weights (covered p List.mem_cons_self), ok_bind, ih _ rest,
      same, List.foldl_cons, List.foldl_cons]

theorem foldl_noteEntry (ps : List (UInt64 × UInt64)) (c : Connection F) :
    ps.foldl noteEntry c = { c with
      sendBuffer := { c.sendBuffer with offsetRecv := ps.foldl (markEntry c) c.sendBuffer.offsetRecv }
      highPriority := c.highPriority + (ps.map (highLoss c)).sum } := by
  induction ps generalizing c with
  | nil => simp
  | cons p ps ih =>
    have marks : markEntry (noteEntry c p) = markEntry c := markEntry_congr rfl
    have high : highLoss (noteEntry c p) = highLoss c := highLoss_congr (fun _ => rfl)
    rw [List.foldl_cons, ih, marks, high]
    simp [noteEntry, Nat.add_assoc]

/-- A well-formed ACK: the marks and the loss count of its pairs, and one change of the window. -/
theorem processAck_eq [Profile] {c : Connection F} {buf : Bytes} {head : UInt64}
    {ps : List (UInt64 × UInt64)} (complete : 26 ≤ buf.length)
    (layout : buf.drop 26 = u64Bytes head ++ ps.flatMap pairBytes) (covered : Covered c ps) :
    c.processAck buf =
      (c.recovery.updateWin (ps.foldl (lossWeight c) (FloatOps.lit32 0 1))
        (FloatOps.ofUsize ps.length) >>= fun recovery =>
          .ok { ps.foldl noteEntry (c.raiseMaxOff head) with recovery := recovery }) := by
  obtain ⟨maxOff, raised⟩ := raiseMaxOff_frame c head
  have layout' : buf.drop 26 = u64Bytes head ++ (ps.flatMap pairBytes ++ []) := by
    rw [layout, List.append_nil]
  have number : (buf.drop 26).length / (8 * 2) = ps.length := by
    rw [layout, List.length_append, u64Bytes_length, pairs_length]
    omega
  have weight : lossWeight (c.raiseMaxOff head) = lossWeight c := by
    rw [raised]
    exact lossWeight_congr (fun _ => rfl)
  have folded := ackPairs_eq (c := c.raiseMaxOff head) (FloatOps.lit32 0 1)
    (by rw [raised]; exact covered)
  rw [processAck_layout c complete layout' (by decide), folded, ok_bind, if_pos rfl, ok_bind,
    number, weight, foldl_noteEntry, raised]

end Entries

end DmludpAckEntries
