import Dmludp.Endpoint.CallEffects

/- What an arriving datagram can do to an endpoint. The two payload loops are stated for an
   arbitrary body, as a fold over the records they read. -/
namespace DmludpReceiveEffects
open ByteCursor RustOutcome OrderedMap DmludpPacket DmludpSend DmludpRecv DmludpRecovery
open DmludpConnection DmludpConnection.Connection

section Loops
variable {S : Type}

/-- The query loop folds over the words of the payload; a tail shorter than a word is a failed
    `unwrap`. -/
theorem checkLossLoop_words [Octets] (body : S → UInt64 → S) (ws : List UInt64)
    (front tail : Bytes) (short : tail.length < 8) (fuel : Nat)
    (enough : ws.length + tail.length ≤ fuel) (s : S) :
    checkLossLoop body fuel ⟨front ++ (ws.flatMap u64Bytes ++ tail), front.length⟩ s =
      if tail = [] then .ok (ws.foldl body s) else .error .unwrap := by
  induction ws generalizing front fuel s with
  | nil =>
    cases fuel with
    | zero =>
      have empty : tail = [] := List.length_eq_zero_iff.mp (by simpa using enough)
      simp [checkLossLoop, empty]
    | succ fuel =>
      by_cases empty : tail = []
      · simp [checkLossLoop, empty, OctetsMut.cap]
      · have positive : 0 < tail.length := List.length_pos_iff.mpr empty
        have failed : Octets.getU64 ⟨front ++ tail, front.length⟩ =
            (.error ⟨⟩, ⟨front ++ tail, front.length⟩) :=
          getU64_outside (by rw [List.length_append]; omega)
        simp [checkLossLoop, OctetsMut.cap, positive, failed, empty]
  | cons w ws ih =>
    cases fuel with
    | zero => simp at enough
    | succ fuel =>
      have inside : front.length + 8 ≤ (front ++ ((w :: ws).flatMap u64Bytes ++ tail)).length := by
        simp only [List.length_append, words_length, List.length_cons]
        omega
      have value := word_within front w (ws.flatMap u64Bytes ++ tail) (n := front.length) rfl
      have regroup : front ++ ((w :: ws).flatMap u64Bytes ++ tail) =
          (front ++ u64Bytes w) ++ (ws.flatMap u64Bytes ++ tail) := by simp
      have later := ih (front ++ u64Bytes w) fuel (by simp at enough; omega) (body s w)
      have roomLeft : 0 < OctetsMut.cap ⟨front ++ ((w :: ws).flatMap u64Bytes ++ tail),
          front.length⟩ := by
        simp only [OctetsMut.cap]
        omega
      rw [checkLossLoop, if_pos roomLeft, getU64_inside inside]
      simp only [List.flatMap_cons, List.append_assoc, value]
      simpa using later

theorem processAckLoop_pairs (body : S → UInt64 → UInt64 → Rs S) (ps : List (UInt64 × UInt64))
    (front tail : Bytes) (short : tail.length < 16) (fuel : Nat)
    (enough : ps.length + tail.length ≤ fuel) (s : S) :
    processAckLoop body (front ++ (ps.flatMap pairBytes ++ tail)) fuel front.length s = (do
      let s ← ps.foldlM (fun s p => body s p.1 p.2) s
      if tail = [] then .ok s else .error .index) := by
  induction ps generalizing front fuel s with
  | nil =>
    cases fuel with
    | zero =>
      have empty : tail = [] := List.length_eq_zero_iff.mp (by simpa using enough)
      simp [processAckLoop, empty, pure, Except.pure, bind, Except.bind]
    | succ fuel =>
      by_cases empty : tail = []
      · simp [processAckLoop, empty, pure, Except.pure, bind, Except.bind]
      · have positive : 0 < tail.length := List.length_pos_iff.mpr empty
        have first : front.length < (front ++ ([].flatMap pairBytes ++ tail)).length := by
          simpa using positive
        have second : slice (front ++ ([].flatMap pairBytes ++ tail)) (front.length + 8)
            (front.length + 16) = .error .index := by
          simp [slice, Nat.not_le.mpr short]
        rw [processAckLoop, if_pos first, second]
        simp only [List.foldlM_nil, empty, ↓reduceIte, pure, Except.pure, ok_bind]
        unfold slice
        split <;> rfl
  | cons p ps ih =>
    cases fuel with
    | zero => simp at enough
    | succ fuel =>
      have width : front.length < (front ++ ((p :: ps).flatMap pairBytes ++ tail)).length := by
        simp only [List.length_append, pairs_length, List.length_cons]
        omega
      have low : slice (front ++ ((p :: ps).flatMap pairBytes ++ tail)) front.length
          (front.length + 8) = .ok (u64Bytes p.1) := by
        simp [slice, pairBytes]
      have high : slice (front ++ ((p :: ps).flatMap pairBytes ++ tail)) (front.length + 8)
          (front.length + 16) = .ok (u64Bytes p.2) := by
        have skip : front ++ ((p :: ps).flatMap pairBytes ++ tail) =
            (front ++ u64Bytes p.1) ++ (u64Bytes p.2 ++ (ps.flatMap pairBytes ++ tail)) := by
          simp [pairBytes]
        have start : front.length + 8 = (front ++ u64Bytes p.1).length := by simp
        rw [skip, slice, start, List.drop_left]
        simp
        omega
      have regroup : front ++ ((p :: ps).flatMap pairBytes ++ tail) =
          (front ++ pairBytes p) ++ (ps.flatMap pairBytes ++ tail) := by simp
      have next : (front ++ pairBytes p).length = front.length + 16 := by simp
      rw [processAckLoop, if_pos width, low, high]
      simp only [ok_bind, u64Value_bytes, List.foldlM_cons, bind_assoc]
      cases body s p.1 p.2 with
      | error e => rfl
      | ok s' =>
        have later := ih (front ++ pairBytes p) fuel (by simp at enough; omega) s'
        rw [next, ← regroup] at later
        simpa only [ok_bind] using later

def readOffsets [Octets] (payload : Bytes) : Rs (List UInt64) :=
  checkLossLoop (fun l offset => l ++ [offset]) payload.length (withSlice payload) []

def readPairs (payload : Bytes) : Rs (UInt64 × List (UInt64 × UInt64)) := do
  let head ← slice payload 0 8
  let ps ← processAckLoop (fun l unack flag => .ok (l ++ [(unack, flag)])) payload payload.length
    8 []
  return (u64Value head, ps)

theorem foldl_collect {A : Type} (xs ys : List A) : xs.foldl (fun l x => l ++ [x]) ys = ys ++ xs := by
  induction xs generalizing ys with
  | nil => simp
  | cons x xs ih => simp [ih]

theorem foldlM_collect {A : Type} (xs ys : List A) :
    xs.foldlM (fun l x => (.ok (l ++ [x]) : Rs (List A))) ys = .ok (ys ++ xs) := by
  induction xs generalizing ys with
  | nil => simp [pure, Except.pure]
  | cons x xs ih => simp [ih, ok_bind]

theorem readOffsets_words [Octets] (ws : List UInt64) :
    readOffsets (ws.flatMap u64Bytes) = .ok ws := by
  have enough : ws.length + ([] : Bytes).length ≤ (ws.flatMap u64Bytes).length := by
    rw [words_length, List.length_nil]
    omega
  have looped := checkLossLoop_words (fun l offset => l ++ [offset]) ws [] [] (by decide) _ enough []
  rw [foldl_collect] at looped
  simpa [readOffsets, withSlice] using looped

theorem readPairs_pairs (head : UInt64) (ps : List (UInt64 × UInt64)) :
    readPairs (u64Bytes head ++ ps.flatMap pairBytes) = .ok (head, ps) := by
  have first : slice (u64Bytes head ++ ps.flatMap pairBytes) 0 8 = .ok (u64Bytes head) := by
    simp [slice]
  have enough : ps.length + ([] : Bytes).length ≤
      (u64Bytes head ++ ps.flatMap pairBytes).length := by
    simp only [List.length_append, u64Bytes_length, pairs_length, List.length_nil]
    omega
  have looped := processAckLoop_pairs (fun l unack flag => .ok (l ++ [(unack, flag)])) ps
    (u64Bytes head) [] (by decide) _ enough []
  rw [List.append_nil, u64Bytes_length] at looped
  simp only [readPairs, first, ok_bind, looped, foldlM_collect, List.nil_append, ↓reduceIte,
    u64Value_bytes]
  rfl

end Loops

variable {F : Type}

def answer (dic : HashMap UInt64 UInt8) (offset : UInt64) : UInt64 := if offset ∈ dic then 0 else 1

def answerAll (dic : HashMap UInt64 UInt8) (pending : HashMap UInt64 UInt64) (ws : List UInt64) :
    HashMap UInt64 UInt64 :=
  ws.foldl (fun m offset => m.insert offset (answer dic offset)) pending

theorem noteQuery_eq (c : Connection F) (offset : UInt64) :
    c.noteQuery offset = { c with
      recvHashmap := c.recvHashmap.insert offset (answer c.recvDic offset) } := by
  unfold noteQuery answer
  split <;> rfl

theorem foldl_noteQuery (ws : List UInt64) (c : Connection F) :
    ws.foldl noteQuery c = { c with recvHashmap := answerAll c.recvDic c.recvHashmap ws } := by
  induction ws generalizing c with
  | nil => rfl
  | cons w ws ih =>
    rw [List.foldl_cons, ih, noteQuery_eq]
    rfl

theorem checkLoss_words [Octets] (c : Connection F) {buf tail : Bytes} {ws : List UInt64}
    (layout : buf = ws.flatMap u64Bytes ++ tail) (short : tail.length < 8) :
    c.checkLoss buf = if tail = [] then
      .ok { c with recvHashmap := answerAll c.recvDic c.recvHashmap ws } else .error .unwrap := by
  have enough : ws.length + tail.length ≤ buf.length := by
    rw [layout, List.length_append, words_length]
    omega
  have looped := checkLossLoop_words noteQuery ws [] tail short buf.length enough c
  rw [foldl_noteQuery] at looped
  rw [checkLoss, withSlice, ← looped, layout]
  rfl

theorem checkLoss_effect [Octets] {c c' : Connection F} {buf : Bytes}
    (done : c.checkLoss buf = .ok c') :
    ∃ ws, buf = ws.flatMap u64Bytes ∧
      c' = { c with recvHashmap := answerAll c.recvDic c.recvHashmap ws } := by
  obtain ⟨ws, tail, layout, short⟩ := words_and_tail buf
  rw [checkLoss_words c layout short] at done
  by_cases empty : tail = []
  · rw [if_pos empty, Except.ok.injEq] at done
    exact ⟨ws, by rw [layout, empty, List.append_nil], done.symm⟩
  · rw [if_neg empty] at done
    simp at done

theorem ack_layout {payload : Bytes} (headed : 8 ≤ payload.length) :
    ∃ (head : UInt64) (ps : List (UInt64 × UInt64)) (tail : Bytes),
      payload = u64Bytes head ++ (ps.flatMap pairBytes ++ tail) ∧ tail.length < 16 := by
  obtain ⟨ps, tail, split, short⟩ := pairs_and_tail (payload.drop 8)
  have width : (payload.take 8).length = 8 := by
    rw [List.length_take]
    omega
  refine ⟨u64Value (payload.take 8), ps, tail, ?_, short⟩
  rw [u64Bytes_value width, ← split, List.take_append_drop]

theorem raiseMaxOff_frame (c : Connection F) (head : UInt64) :
    ∃ maxOff, c.raiseMaxOff head = { c with maxOff := maxOff } := by
  unfold raiseMaxOff
  split
  · exact ⟨head, rfl⟩
  · exact ⟨c.maxOff, rfl⟩

structure Marked (reason : Nat → Prop) (c c' : Connection F) : Prop where
  frame : ∃ marks high, c' = { c with
    sendBuffer := { c.sendBuffer with offsetRecv := marks }
    highPriority := high }
  keys : c'.sendBuffer.offsetRecv.keys = c.sendBuffer.offsetRecv.keys
  withdrawn : ∀ o, (o, false) ∈ c'.sendBuffer.offsetRecv.entries →
    (o, false) ∈ c.sendBuffer.offsetRecv.entries ∨ reason o

theorem marked_refl (reason : Nat → Prop) (c : Connection F) : Marked reason c c :=
  ⟨⟨_, _, rfl⟩, rfl, fun _ mem => Or.inl mem⟩

theorem marked_trans {reason : Nat → Prop} {a b c : Connection F} (first : Marked reason a b)
    (second : Marked reason b c) : Marked reason a c := by
  obtain ⟨⟨m1, h1, rfl⟩, keys1, withdrawn1⟩ := first
  obtain ⟨⟨m2, h2, rfl⟩, keys2, withdrawn2⟩ := second
  refine ⟨⟨m2, h2, rfl⟩, keys2.trans keys1, ?_⟩
  intro o mem
  rcases withdrawn2 o mem with old | new
  · exact withdrawn1 o old
  · exact Or.inr new

theorem marked_drop {reason : Nat → Prop} (c : Connection F) {offset : Nat}
    (justified : reason offset) :
    Marked reason c { c with sendBuffer := c.sendBuffer.ackAndDrop offset } := by
  refine ⟨⟨_, _, rfl⟩, OrdMap.keys_set _ _ _, ?_⟩
  intro o mem
  rcases OrdMap.mem_set.mp mem with ⟨old, _⟩ | ⟨new, _⟩
  · exact Or.inl old
  · exact Or.inr (by rw [(Prod.mk.inj new).1]; exact justified)

theorem marked_retireSpent {reason : Nat → Prop} (c : Connection F) (unack : UInt64)
    (justified : c.sentDic.lookup unack.toNat = some 0 → reason unack.toNat) :
    Marked reason c (c.retireSpent unack) := by
  unfold retireSpent
  split
  · rename_i spent
    exact marked_drop c (justified spent)
  · exact marked_refl reason c

section Acknowledge
variable [FloatOps F]

theorem priorityCalculation_range {c : Connection F} {off : Nat} {p : UInt8}
    (done : c.priorityCalculation off = .ok p) : p = 1 ∨ p = 2 ∨ p = 3 := by
  unfold priorityCalculation at done
  obtain ⟨norm, _, done⟩ := bind_ok_iff.mp done
  split at done
  · simp only [pure, Except.pure, Except.ok.injEq] at done
    exact Or.inl done.symm
  · split at done
    · simp only [pure, Except.pure, Except.ok.injEq] at done
      exact Or.inr (Or.inl done.symm)
    · simp only [pure, Except.pure, Except.ok.injEq] at done
      exact Or.inr (Or.inr done.symm)

theorem priorityCalculation_ok_iff {c : Connection F} {off : Nat} :
    (∃ p, c.priorityCalculation off = .ok p) ↔ off / 1024 < c.norm2Vec.length := by
  constructor
  · intro found
    obtain ⟨p, done⟩ := found
    obtain ⟨norm, at_, _⟩ := bind_ok_iff.mp done
    exact index_ok_iff.mp ⟨norm, at_⟩
  · intro covered
    unfold priorityCalculation
    rw [index_inside covered, ok_bind]
    split
    · exact ⟨_, rfl⟩
    · split <;> exact ⟨_, rfl⟩

theorem marked_priority {reason : Nat → Prop} {c c' : Connection F} (marked : Marked reason c c')
    (off : Nat) : c'.priorityCalculation off = c.priorityCalculation off := by
  obtain ⟨⟨marks, high, rfl⟩, _, _⟩ := marked
  rfl

theorem marked_weighEntry {reason : Nat → Prop} (c : Connection F) (weights : F) (unack : UInt64)
    (priority : UInt8) (justified : priority ≠ 1 ∧ priority ≠ 2 ∧ priority ≠ 3 →
      reason unack.toNat) : Marked reason c (c.weighEntry weights unack priority).1 := by
  unfold weighEntry
  by_cases one : priority = 1
  · rw [if_pos one]
    exact marked_refl reason c
  · by_cases two : priority = 2
    · rw [if_neg one, if_pos two]
      exact marked_refl reason c
    · by_cases three : priority = 3
      · rw [if_neg one, if_neg two, if_pos three]
        exact marked_refl reason c
      · rw [if_neg one, if_neg two, if_neg three]
        exact marked_drop c (justified ⟨one, two, three⟩)

theorem weighEntry_weight (c c' : Connection F) (weights : F) (unack : UInt64) (priority : UInt8) :
    (c.weighEntry weights unack priority).2 = (c'.weighEntry weights unack priority).2 := by
  unfold weighEntry
  split
  · rfl
  · split
    · rfl
    · split <;> rfl

def lossWeight (c : Connection F) (weights : F) (pair : UInt64 × UInt64) : F :=
  match c.entryPriority pair.1 pair.2 with
  | .ok priority => (c.weighEntry weights pair.1 priority).2
  | .error _ => weights

theorem ackEntry_covered (reason : Nat → Prop) {c : Connection F} (weights : F)
    {pair : UInt64 × UInt64} (covered : pair.1.toNat / 1024 < c.norm2Vec.length)
    (spent : c.sentDic.lookup pair.1.toNat = some 0 → reason pair.1.toNat)
    (received : pair.2 = 0 → reason pair.1.toNat) :
    ∃ c', ackEntry (c, weights) pair.1 pair.2 = .ok (c', lossWeight c weights pair) ∧
      Marked reason c c' := by
  obtain ⟨p, found⟩ := priorityCalculation_ok_iff.mpr covered
  have retired := marked_retireSpent c pair.1 spent
  have kept := (marked_priority retired pair.1.toNat).trans found
  obtain ⟨priority, known, known', choice⟩ : ∃ priority,
      c.entryPriority pair.1 pair.2 = .ok priority ∧
      (c.retireSpent pair.1).entryPriority pair.1 pair.2 = .ok priority ∧
      (priority ≠ 1 ∧ priority ≠ 2 ∧ priority ≠ 3 → pair.2 = 0) := by
    unfold entryPriority
    by_cases zero : pair.2 = 0
    · exact ⟨0, by simp [zero], by simp [zero], fun _ => zero⟩
    · refine ⟨p, by simp [zero, found], by simp [zero, kept], ?_⟩
      intro apart
      rcases priorityCalculation_range found with one | two | three
      · exact absurd one apart.1
      · exact absurd two apart.2.1
      · exact absurd three apart.2.2
  have weighed := marked_weighEntry (c.retireSpent pair.1) weights pair.1 priority
    (fun apart => received (choice apart))
  have real := (marked_priority weighed pair.1.toNat).trans kept
  have sum : lossWeight c weights pair =
      ((c.retireSpent pair.1).weighEntry weights pair.1 priority).2 := by
    simp only [lossWeight, known]
    exact weighEntry_weight _ _ _ _ _
  unfold ackEntry
  simp only [known', ok_bind, real, sum]
  refine ⟨_, rfl, marked_trans (marked_trans retired weighed) ?_⟩
  split
  · exact ⟨⟨_, _, rfl⟩, rfl, fun _ mem => Or.inl mem⟩
  · exact marked_refl reason _

theorem ackEntry_uncovered {c : Connection F} (weights : F) {pair : UInt64 × UInt64}
    (bare : c.norm2Vec.length ≤ pair.1.toNat / 1024) :
    ∃ p, ackEntry (c, weights) pair.1 pair.2 = .error p := by
  cases result : ackEntry (c, weights) pair.1 pair.2 with
  | error p => exact ⟨p, rfl⟩
  | ok s =>
    obtain ⟨priority, _, result⟩ := bind_ok_iff.mp result
    obtain ⟨real, found, _⟩ := bind_ok_iff.mp result
    have retired : Marked (fun _ => True) c (c.retireSpent pair.1) :=
      marked_retireSpent c pair.1 (fun _ => trivial)
    have weighed : Marked (fun _ => True) (c.retireSpent pair.1)
        ((c.retireSpent pair.1).weighEntry weights pair.1 priority).1 :=
      marked_weighEntry _ _ _ _ (fun _ => trivial)
    have kept := marked_priority (marked_trans retired weighed) pair.1.toNat
    exact absurd (priorityCalculation_ok_iff.mp ⟨real, kept.symm.trans found⟩)
      (Nat.not_lt.mpr bare)

theorem lossWeight_congr {c c' : Connection F}
    (same : ∀ off, c'.priorityCalculation off = c.priorityCalculation off) :
    lossWeight c' = lossWeight c := by
  funext weights pair
  have priority : c'.entryPriority pair.1 pair.2 = c.entryPriority pair.1 pair.2 := by
    unfold entryPriority
    rw [same]
  unfold lossWeight
  rw [priority]
  cases c.entryPriority pair.1 pair.2 with
  | error e => rfl
  | ok priority => exact weighEntry_weight _ _ _ _ _

def Covered (c : Connection F) (ps : List (UInt64 × UInt64)) : Prop :=
  ∀ p ∈ ps, p.1.toNat / 1024 < c.norm2Vec.length

theorem ackPairs_covered (reason : Nat → Prop) {ps : List (UInt64 × UInt64)} {c : Connection F}
    (weights : F) (covered : Covered c ps)
    (spent : ∀ o, c.sentDic.lookup o = some 0 → reason o)
    (received : ∀ p ∈ ps, p.2 = 0 → reason p.1.toNat) :
    ∃ c', ps.foldlM (fun s p => ackEntry s p.1 p.2) (c, weights) =
      .ok (c', ps.foldl (lossWeight c) weights) ∧ Marked reason c c' := by
  induction ps generalizing c weights with
  | nil => exact ⟨c, rfl, marked_refl reason c⟩
  | cons p ps ih =>
    obtain ⟨c1, first, marked⟩ := ackEntry_covered reason weights (covered p (by simp))
      (spent p.1.toNat) (received p (by simp))
    have weight := lossWeight_congr (marked_priority marked)
    obtain ⟨marks, high, same⟩ := marked.frame
    obtain ⟨c2, rest, marked2⟩ := ih (c := c1) (lossWeight c weights p)
      (by rw [same]; exact fun q mem => covered q (List.mem_cons_of_mem p mem))
      (by rw [same]; exact spent) (fun q mem => received q (List.mem_cons_of_mem p mem))
    refine ⟨c2, ?_, marked_trans marked marked2⟩
    rw [List.foldlM_cons, first, ok_bind, rest, weight, List.foldl_cons]

theorem ackPairs_uncovered {ps : List (UInt64 × UInt64)} {c : Connection F} (weights : F)
    (bare : ¬ Covered c ps) :
    ∃ e, ps.foldlM (fun s p => ackEntry s p.1 p.2) (c, weights) = .error e := by
  induction ps generalizing c weights with
  | nil => exact absurd (by simp [Covered]) bare
  | cons p ps ih =>
    rw [List.foldlM_cons]
    by_cases here : p.1.toNat / 1024 < c.norm2Vec.length
    · obtain ⟨c1, first, marked⟩ := ackEntry_covered (fun _ => True) weights here
        (fun _ => trivial) (fun _ => trivial)
      obtain ⟨marks, high, same⟩ := marked.frame
      rw [first, ok_bind]
      apply ih
      rw [same]
      intro rest
      apply bare
      intro q mem
      rcases List.mem_cons.mp mem with first | later
      · rw [first]
        exact here
      · exact rest q later
    · obtain ⟨e, failed⟩ := ackEntry_uncovered weights (Nat.le_of_not_lt here)
      exact ⟨e, by rw [failed, error_bind]⟩

variable [Profile]

theorem processAck_layout (c : Connection F) {buf tail : Bytes} {head : UInt64}
    {ps : List (UInt64 × UInt64)} (complete : 26 ≤ buf.length)
    (layout : buf.drop 26 = u64Bytes head ++ (ps.flatMap pairBytes ++ tail))
    (short : tail.length < 16) : c.processAck buf =
      (ps.foldlM (fun s p => ackEntry s p.1 p.2) (c.raiseMaxOff head, FloatOps.lit32 0 1) >>=
        fun s => (if tail = [] then .ok s else .error .index) >>= fun s =>
          s.1.recovery.updateWin s.2 (FloatOps.ofUsize ((buf.drop 26).length / (8 * 2))) >>=
            fun recovery => .ok { s.1 with recovery := recovery }) := by
  have first : slice (buf.drop 26) 0 8 = .ok (u64Bytes head) := by
    rw [layout]
    simp [slice]
  have enough : ps.length + tail.length ≤ (buf.drop 26).length := by
    rw [layout]
    simp only [List.length_append, u64Bytes_length, pairs_length]
    omega
  have looped := processAckLoop_pairs ackEntry ps (u64Bytes head) tail short _ enough
    (c.raiseMaxOff head, FloatOps.lit32 0 1)
  rw [u64Bytes_length, ← layout] at looped
  unfold processAck
  simp only [sliceFrom_fits complete, ok_bind, first, u64Value_bytes, looped, bind_assoc]
  rfl

theorem processAck_headed {c c' : Connection F} {buf : Bytes} (done : c.processAck buf = .ok c') :
    26 ≤ buf.length ∧ 8 ≤ (buf.drop 26).length := by
  obtain ⟨payload, sliced, done⟩ := bind_ok_iff.mp done
  obtain ⟨head, cut, _⟩ := bind_ok_iff.mp done
  unfold sliceFrom at sliced
  split at sliced
  · rename_i complete
    simp only [Except.ok.injEq] at sliced
    subst sliced
    unfold slice at cut
    split at cut
    · rename_i inside
      exact ⟨complete, inside.2⟩
    · simp at cut
  · simp at sliced

theorem processAck_accepts {c c' : Connection F} {buf : Bytes} (done : c.processAck buf = .ok c') :
    ∃ (head : UInt64) (ps : List (UInt64 × UInt64)),
      buf.drop 26 = u64Bytes head ++ ps.flatMap pairBytes ∧ Covered c ps := by
  obtain ⟨complete, headed⟩ := processAck_headed done
  obtain ⟨head, ps, tail, layout, short⟩ := ack_layout headed
  rw [processAck_layout c complete layout short] at done
  obtain ⟨s, folded, done⟩ := bind_ok_iff.mp done
  obtain ⟨_, whole, _⟩ := bind_ok_iff.mp done
  obtain ⟨maxOff, raised⟩ := raiseMaxOff_frame c head
  by_cases ragged : tail = []
  · refine ⟨head, ps, by rw [layout, ragged, List.append_nil], ?_⟩
    apply Classical.byContradiction
    intro bare
    obtain ⟨e, failed⟩ := ackPairs_uncovered (c := c.raiseMaxOff head) (FloatOps.lit32 0 1)
      (by rw [raised]; exact bare)
    rw [failed] at folded
    simp at folded
  · rw [if_neg ragged] at whole
    simp at whole

theorem processAck_covered (reason : Nat → Prop) {c : Connection F} {buf : Bytes} {head : UInt64}
    {ps : List (UInt64 × UInt64)} (complete : 26 ≤ buf.length)
    (layout : buf.drop 26 = u64Bytes head ++ ps.flatMap pairBytes) (covered : Covered c ps)
    (spent : ∀ o, c.sentDic.lookup o = some 0 → reason o)
    (received : ∀ p ∈ ps, p.2 = 0 → reason p.1.toNat) :
    ∃ c1 maxOff, Marked reason c c1 ∧ c.processAck buf =
      (c.recovery.updateWin (ps.foldl (lossWeight c) (FloatOps.lit32 0 1))
        (FloatOps.ofUsize ((buf.drop 26).length / (8 * 2))) >>=
          fun recovery => .ok { c1 with maxOff := maxOff, recovery := recovery }) := by
  obtain ⟨maxOff, raised⟩ := raiseMaxOff_frame c head
  have weight : lossWeight (c.raiseMaxOff head) = lossWeight c := by
    rw [raised]
    exact lossWeight_congr (fun _ => rfl)
  obtain ⟨c1, folded, marked⟩ := ackPairs_covered reason (c := c.raiseMaxOff head)
    (FloatOps.lit32 0 1) (by rw [raised]; exact covered) (by rw [raised]; exact spent) received
  obtain ⟨⟨marks, high, same⟩, keys, withdrawn⟩ := marked
  rw [same, raised] at keys withdrawn
  refine ⟨{ c with
      sendBuffer := { c.sendBuffer with offsetRecv := marks }
      highPriority := high }, maxOff, ⟨⟨marks, high, rfl⟩, keys, withdrawn⟩, ?_⟩
  have layout' : buf.drop 26 = u64Bytes head ++ (ps.flatMap pairBytes ++ []) := by
    rw [layout, List.append_nil]
  rw [processAck_layout c complete layout' (by decide), folded, ok_bind, if_pos rfl, ok_bind, weight,
    same, raised]

theorem processAck_effect {c c' : Connection F} {buf : Bytes} (done : c.processAck buf = .ok c') :
    ∃ (head : UInt64) (ps : List (UInt64 × UInt64)),
      buf.drop 26 = u64Bytes head ++ ps.flatMap pairBytes ∧
      ∃ c1 maxOff recovery, Marked (fun o => c.sentDic.lookup o = some 0 ∨
          ∃ p ∈ ps, p.1.toNat = o ∧ p.2 = 0) c c1 ∧
        c' = { c1 with maxOff := maxOff, recovery := recovery } := by
  obtain ⟨complete, _⟩ := processAck_headed done
  obtain ⟨head, ps, layout, covered⟩ := processAck_accepts done
  obtain ⟨c1, maxOff, marked, eq⟩ := processAck_covered
    (fun o => c.sentDic.lookup o = some 0 ∨ ∃ p ∈ ps, p.1.toNat = o ∧ p.2 = 0) complete layout
    covered (fun o spent => Or.inl spent) (fun p mem zero => Or.inr ⟨p, mem, rfl, zero⟩)
  rw [eq] at done
  obtain ⟨recovery, _, done⟩ := bind_ok_iff.mp done
  rw [Except.ok.injEq] at done
  exact ⟨head, ps, layout, c1, maxOff, recovery, marked, done.symm⟩

end Acknowledge

/-- The number field is read a second time, by position. -/
theorem number_field {buf : Bytes} (complete : 26 ≤ buf.length) :
    slice buf 1 9 = .ok ((buf.drop 1).take 8) := by
  exact slice_fits (by decide) (by omega)

theorem updateRtt_frame (c : Connection F) (now : Nat) :
    ∃ rtt, c.updateRtt now = { c with rtt := rtt } := by
  unfold updateRtt
  split <;> exact ⟨_, rfl⟩

section Datagrams
variable [Octets] [Profile] [FloatOps F]

theorem recvSlice_short (c : Connection F) (now : Nat) {buf : Bytes} (short : buf.length < 26) :
    ∃ count, c.recvSlice now buf = .ok ({ c with recvCount := count }, .error .bufferTooShort) := by
  unfold recvSlice
  by_cases empty : buf.length = 0
  · exact ⟨c.recvCount, by rw [if_pos empty]⟩
  · rw [if_neg empty, fromSlice_eq, if_neg (by omega)]
    exact ⟨_, rfl⟩

inductive RecvCase (c : Connection F) (now : Nat) (buf : Bytes) :
    Connection F × Except Error Nat → Prop where
  | short (count : Nat) (incomplete : buf.length < 26) :
      RecvCase c now buf ({ c with recvCount := count }, .error .bufferTooShort)
  | silent (r : Except Error Nat) (complete : 26 ≤ buf.length)
      (kind : (decodeHeader buf).ty ≠ .application ∧ (decodeHeader buf).ty ≠ .elictAck ∧
        (decodeHeader buf).ty ≠ .handshake)
      (client : (decodeHeader buf).ty = .ack → c.isServer = false) :
      RecvCase c now buf ({ c with recvCount := c.recvCount + 1 }, r)
  | handshakeServer (rtt : Nat) (complete : 26 ≤ buf.length)
      (kind : (decodeHeader buf).ty = .handshake) (server : c.isServer = true) :
      RecvCase c now buf ({ c with
        recvCount := c.recvCount + 1
        rtt := rtt
        handshakeCompleted := true }, .ok 0)
  | handshakeClient (complete : 26 ≤ buf.length) (kind : (decodeHeader buf).ty = .handshake)
      (client : c.isServer = false) :
      RecvCase c now buf ({ c with
        recvCount := c.recvCount + 1
        handshakeConfirmed := false
        feedBack := true }, .ok 0)
  | ack {c' : Connection F} (complete : 26 ≤ buf.length) (kind : (decodeHeader buf).ty = .ack)
      (server : c.isServer = true)
      (acked : processAck { c with recvCount := c.recvCount + 1 } buf = .ok c') :
      RecvCase c now buf (c', .ok 0)
  | elictAck (ws : List UInt64) (complete : 26 ≤ buf.length)
      (kind : (decodeHeader buf).ty = .elictAck) (listed : buf.drop 26 = ws.flatMap u64Bytes) :
      RecvCase c now buf ({ c with
        recvCount := c.recvCount + 1
        recvFlag := true
        sendNum := (decodeHeader buf).pktNum
        recvHashmap := answerAll c.recvDic c.recvHashmap ws
        feedBack := true }, .ok 0)
  | application {recBuffer : RecvBuf} (complete : 26 ≤ buf.length)
      (kind : (decodeHeader buf).ty = .application)
      (stored : c.recBuffer.write (buf.drop 26) (decodeHeader buf).offset.toNat =
        .ok (recBuffer, .ok ())) :
      RecvCase c now buf ({ c with
        recvCount := c.recvCount + 1 + 1
        recBuffer := recBuffer
        recvDic := c.recvDic.insert (decodeHeader buf).offset (decodeHeader buf).priority },
        .ok (decodeHeader buf).pktLength.toNat)

theorem recvSlice_cases {c : Connection F} {now : Nat} {buf : Bytes}
    {r : Connection F × Except Error Nat} (done : c.recvSlice now buf = .ok r) :
    RecvCase c now buf r := by
  by_cases complete : 26 ≤ buf.length
  · unfold recvSlice at done
    rw [if_neg (by omega), fromSlice_eq, if_pos complete] at done
    dsimp only at done
    cases kind : (decodeHeader buf).ty with
    | handshake =>
      obtain ⟨rtt, stamped⟩ := updateRtt_frame { c with recvCount := c.recvCount + 1 } now
      simp only [kind, stamped] at done
      cases server : c.isServer with
      | true =>
        simp only [if_pos server, Except.ok.injEq] at done
        subst done
        exact .handshakeServer rtt complete kind server
      | false =>
        simp only [if_neg (Bool.eq_false_iff.mp server), Except.ok.injEq] at done
        subst done
        exact .handshakeClient complete kind server
    | ack =>
      simp only [kind] at done
      cases server : c.isServer with
      | true =>
        simp only [if_pos server] at done
        obtain ⟨c', acked, done⟩ := bind_ok_iff.mp done
        simp only [pure, Except.pure, Except.ok.injEq] at done
        subst done
        exact .ack complete kind server acked
      | false =>
        simp only [if_neg (Bool.eq_false_iff.mp server), Except.ok.injEq] at done
        subst done
        exact .silent _ complete (by simp [kind]) (fun _ => server)
    | elictAck =>
      simp only [kind, number_field complete, sliceFrom_fits complete, ok_bind] at done
      obtain ⟨c', checked, done⟩ := bind_ok_iff.mp done
      obtain ⟨ws, listed, rfl⟩ := checkLoss_effect checked
      simp only [pure, Except.pure, Except.ok.injEq] at done
      subst done
      exact .elictAck ws complete kind listed
    | application =>
      simp only [kind, sliceFrom_fits complete, ok_bind] at done
      obtain ⟨⟨recBuffer, written⟩, stored, done⟩ := bind_ok_iff.mp done
      cases written with
      | error e => simp at done
      | ok u =>
        simp only [pure, Except.pure, Except.ok.injEq] at done
        subst done
        exact .application complete kind stored
    | stop | retry | fin | startAck =>
      simp only [kind, Except.ok.injEq] at done
      subst done
      exact .silent _ complete (by simp [kind]) (by simp [kind])
  · obtain ⟨count, failed⟩ := recvSlice_short c now (Nat.lt_of_not_le complete)
    rw [failed, Except.ok.injEq] at done
    subst done
    exact .short count (Nat.lt_of_not_le complete)

end Datagrams

end DmludpReceiveEffects
