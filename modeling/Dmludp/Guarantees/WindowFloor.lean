import Dmludp.Endpoint.SenderSteps
import Dmludp.Endpoint.ReferenceInstance

/- The windows that `Connection::write` hands to the send buffer. `cwnd` clamps what it returns
   but records what it computed; `rollback` returns a recorded value as it is. What a rollback
   can return is therefore a matter of the history of the recorded set. -/
namespace DmludpWindowFloor
open ByteCursor RustOutcome TracedRun DmludpPacket DmludpSend DmludpRecv DmludpRecovery
open DmludpConnection DmludpConnection.Connection DmludpCalls DmludpEffects DmludpReceiveEffects
open DmludpSenderSteps DmludpReference

def windowFloor : Nat := packetSize * initialWindowPackets

section Recovery
variable {F : Type}

theorem updateWin_former [FloatOps F] [Profile] {r r' : Recovery} {weights num : F}
    (done : r.updateWin weights num = .ok r') : r'.formerWinVecter = r.formerWinVecter := by
  obtain ⟨_, _, _, rfl⟩ := Recovery.updateWin_frame done
  rfl

theorem cwnd_effect [Profile] {r r' : Recovery} {w : Nat} (done : r.cwnd = .ok (r', w)) :
    windowFloor ≤ w ∧ ∀ m ∈ r'.formerWinVecter, m ∈ r.formerWinVecter ∨ (windowFloor ≤ m → m = w) := by
  rw [Recovery.cwnd_eq] at done
  obtain ⟨doubled, _, done⟩ := bind_ok_iff.mp done
  generalize doubled - r.decreWin = tmpWin at done
  cases done
  refine ⟨Nat.le_max_right _ _, ?_⟩
  intro m mem
  dsimp only at mem
  split at mem
  · exact Or.inl mem
  · rcases Finset.mem_insert.mp mem with rfl | old
    · exact Or.inr (fun above => (Nat.max_eq_left above).symm)
    · exact Or.inl old

theorem rollback_former (r : Recovery) : ∀ m ∈ r.rollback.1.formerWinVecter, m ∈ r.formerWinVecter := by
  intro m mem
  unfold Recovery.rollback at mem
  dsimp only at mem
  split at mem
  · exact Finset.mem_of_mem_erase mem
  · exact mem

theorem rollback_empty {r : Recovery} (empty : r.formerWinVecter = ∅) : r.rollback.2 = iniWin := by
  unfold Recovery.rollback
  rw [dif_neg (by rw [empty]; exact Finset.not_nonempty_empty)]

theorem rollback_recorded {r : Recovery} (recorded : r.formerWinVecter.Nonempty) :
    r.rollback.2 = r.formerWinVecter.max' recorded := by
  unfold Recovery.rollback
  rw [dif_pos recorded]

theorem rollback_high {r : Recovery}
    (high : r.formerWinVecter = ∅ ∨ ∃ m ∈ r.formerWinVecter, windowFloor ≤ m) :
    windowFloor ≤ r.rollback.2 ∧
      (r.rollback.2 = iniWin ∨ r.rollback.2 ∈ r.formerWinVecter) := by
  rcases high with empty | ⟨m, mem, above⟩
  · rw [rollback_empty empty]
    exact ⟨Nat.le_refl _, Or.inl rfl⟩
  · have some_left : r.formerWinVecter.Nonempty := ⟨m, mem⟩
    rw [rollback_recorded some_left]
    exact ⟨above.trans (r.formerWinVecter.le_max' m mem), Or.inr (r.formerWinVecter.max'_mem _)⟩

end Recovery

variable {F : Type}

def entersWrite (c : Connection F) : Call → Bool
  | .write => true
  | .sendAll _ => decide (c.sendDataVec.length > c.writtenData) || !c.sendBuffer.data.isEmpty
  | _ => false

def entered (trace : Trace F) : List (Connection F) :=
  (trace.filter (fun t => entersWrite t.before t.action)).map (fun t => t.before)

theorem entered_snoc (trace : Trace F) (c c' : Connection F) (a : Call) (o : Reply) :
    entered (trace ++ [⟨c, a, o, c'⟩]) =
      entered trace ++ if entersWrite c a then [c] else [] := by
  unfold entered
  rw [List.filter_append, List.map_append]
  cases enters : entersWrite c a <;> simp [enters]

section Window
variable [FloatOps F]

def highRatio (c : Connection F) : F :=
  FloatOps.div64 (FloatOps.ofUsize c.highPriority) (FloatOps.ofUsize c.sentNumber)

def RollsBack (c : Connection F) : Prop := FloatOps.lt (FloatOps.lit64 1 2) (highRatio c) = true

instance (c : Connection F) : Decidable (RollsBack c) :=
  inferInstanceAs (Decidable (_ = true))

variable [Profile]

def handedWindow (c : Connection F) : Option Nat :=
  match nextWindow c.recovery (highRatio c), sliceFrom c.sendDataVec c.writtenData with
  | .ok (_, w), .ok _ => some w
  | _, _ => none

theorem nextWindow_rollback {c : Connection F} (back : RollsBack c) :
    nextWindow c.recovery (highRatio c) = .ok c.recovery.rollback := by
  unfold nextWindow
  exact if_pos back

theorem nextWindow_cwnd {c : Connection F} (forth : ¬ RollsBack c) :
    nextWindow c.recovery (highRatio c) = c.recovery.cwnd := by
  unfold nextWindow
  exact if_neg forth

theorem handed_chosen {c : Connection F} {w : Nat} (handed : handedWindow c = some w) :
    ∃ r, nextWindow c.recovery (highRatio c) = .ok (r, w) := by
  unfold handedWindow at handed
  split at handed
  · rename_i r w' data chosen sliced
    cases handed
    exact ⟨r, chosen⟩
  · cases handed

theorem write_hands {c c' : Connection F} {r : Except Error Nat} (done : c.write = .ok (c', r)) :
    ∃ w, nextWindow c.recovery (highRatio c) = .ok (c'.recovery, w) ∧ handedWindow c = some w ∧
      c.sendBuffer.write (c.sendDataVec.drop c.writtenData) w
        ((sendBufferSize - c.totalOffset % sendBufferSize) % sendBufferSize) c.maxOff =
          .ok (c'.sendBuffer, r) := by
  obtain ⟨recovery, w, sendBuffer, chosen, inside, stored, rfl⟩ := write_ok_iff.mp done
  have handed : handedWindow c = some w := by
    unfold handedWindow
    rw [show nextWindow c.recovery (highRatio c) = .ok (recovery, w) from chosen,
      sliceFrom_fits inside]
  exact ⟨w, chosen, handed, stored⟩

end Window

section Steps
variable [FloatOps F] [Profile]

theorem sendAll_hands {c c' : Connection F} {now : Nat} {r : Except Error Bool}
    (entered : entersWrite c (.sendAll now) = true) (done : c.sendAll now = .ok (c', r)) :
    ∃ w n, nextWindow c.recovery (highRatio c) = .ok (c'.recovery, w) ∧ handedWindow c = some w ∧
      r = .ok true ∧ c.sendBuffer.write (c.sendDataVec.drop c.writtenData) w
        ((sendBufferSize - c.totalOffset % sendBufferSize) % sendBufferSize) c.maxOff =
          .ok (c'.sendBuffer, .ok n) := by
  have more : c.writtenData < c.sendDataVec.length ∨ c.sendBuffer.data ≠ [] := by
    simpa [entersWrite] using entered
  rw [sendAll_writes more] at done
  obtain ⟨⟨c1, written⟩, wrote, done⟩ := bind_ok_iff.mp done
  obtain ⟨w, chosen, handed, stored⟩ := write_hands wrote
  cases written with
  | error e => cases done
  | ok n =>
    cases done
    exact ⟨w, n, chosen, handed, rfl, stored⟩

theorem sendAll_idle {c c' : Connection F} {now : Nat} {r : Except Error Bool}
    (idle : entersWrite c (.sendAll now) = false) (done : c.sendAll now = .ok (c', r)) :
    c' = { c with stopFlag := false, stopAck := false, handshake := now } := by
  have drained : c.sendDataVec.length ≤ c.writtenData ∧ c.sendBuffer.data = [] := by
    simpa [entersWrite] using idle
  rw [sendAll_drained drained.1 drained.2] at done
  cases done
  rfl

theorem processAck_former {c c' : Connection F} {buf : Bytes} (done : c.processAck buf = .ok c') :
    c'.recovery.formerWinVecter = c.recovery.formerWinVecter := by
  obtain ⟨complete, _⟩ := processAck_headed done
  obtain ⟨head, ps, layout, covered⟩ := processAck_accepts done
  obtain ⟨c1, maxOff, _, eq⟩ := processAck_covered (fun _ => True) complete layout covered
    (fun _ _ => trivial) (fun _ _ _ => trivial)
  rw [eq] at done
  obtain ⟨recovery, updated, same⟩ := bind_ok_iff.mp done
  cases same
  exact updateWin_former updated

theorem recvSlice_former [Octets] {c c' : Connection F} {now : Nat} {buf : Bytes}
    {r : Except Error Nat} (received : RecvCase c now buf (c', r)) :
    c'.recovery.formerWinVecter = c.recovery.formerWinVecter := by
  cases received with
  | ack complete kind server acked =>
    have same := processAck_former acked
    exact same
  | short _ _ | silent _ _ _ _ | handshakeServer _ _ _ _ | handshakeClient _ _ _
    | elictAck _ _ _ _ | application _ _ _ => rfl

theorem sendData_recovery [Octets] {c : Connection F} {now : Nat} {order : IterOrder} {out : Bytes}
    {s : Sent F} (sent : SendCase c now order out s) : s.conn.recovery = c.recovery := by
  cases sent with
  | empty _ | idle _ => rfl
  | handshake completed confirmed due =>
    obtain ⟨stamp, back, conn, _⟩ := sendHandshake_effect { c with
      handshakeCompleted := completed
      handshakeConfirmed := confirmed } now out
    rw [conn]
  | elictAck due sent =>
    obtain ⟨spaces, point, stopAck, conn, _⟩ := sendElictAck_frame sent
    rw [conn]
  | ack quiet asked =>
    have running : isStopped { c with recvFlag := false } = false := by
      simp [isStopped, running_of_quiet quiet]
    rcases sendAckPacket_effect _ now order out running with ⟨_, conn, _⟩ | ⟨_, conn, _⟩
    · rw [conn]
    · rw [conn]
  | application quiet awake sent =>
    cases sendApplication_cases sent with
    | nothing _ _ _ => rfl
    | @packet sendBuffer body n off stop priority dic _ _ _ _ _ =>
      obtain ⟨stamp, conn⟩ := finishSend_conn (transmitted c sendBuffer off stop dic) now
        ((applicationHeader c.pktNumSpaces.1.nextPktNum priority off n).encoded ++ body) n
      rw [conn]
      rfl
  | stop asleep drained => rw [(sendStop_effect c out).1]

theorem step_former [Octets] {c c' : Connection F} {a : Call} {o : Reply}
    (taken : step c a = .ok (c', o)) :
    (entersWrite c a = true ∧ ∃ w, nextWindow c.recovery (highRatio c) = .ok (c'.recovery, w)) ∨
    (entersWrite c a = false ∧ c'.recovery.formerWinVecter = c.recovery.formerWinVecter) := by
  cases step_cases taken with
  | write done =>
    obtain ⟨w, chosen, _⟩ := write_hands done
    exact Or.inl ⟨rfl, w, chosen⟩
  | @sendAll now _ _ done =>
    cases entered : entersWrite c (.sendAll now) with
    | true =>
      obtain ⟨w, _, chosen, _⟩ := sendAll_hands entered done
      exact Or.inl ⟨rfl, w, chosen⟩
    | false =>
      rw [sendAll_idle entered done]
      exact Or.inr ⟨rfl, rfl⟩
  | dataSend done =>
    obtain ⟨⟨_, _, _, _, same⟩, _⟩ := dataSend_loaded done
    exact Or.inr ⟨rfl, by rw [same]⟩
  | sendData done => exact Or.inr ⟨rfl, by rw [sendData_recovery (sendData_cases done)]⟩
  | recvSlice done => exact Or.inr ⟨rfl, recvSlice_former (recvSlice_cases done)⟩
  | checkLoss done =>
    obtain ⟨ws, _, rfl⟩ := checkLoss_effect done
    exact Or.inr ⟨rfl, rfl⟩
  | read _ | reset | newRtt | setHandshake => exact Or.inr ⟨rfl, rfl⟩

def ReturnedByCwnd (earlier : List (Connection F)) (w : Nat) : Prop :=
  ∃ d ∈ earlier, ¬ RollsBack d ∧ ∃ r, d.recovery.cwnd = .ok (r, w)

/-- The floor holds for every window that was handed over, and every rollback went to the
    initial window or to one that `cwnd` had returned before. -/
def WindowsSound (writes : List (Connection F)) : Prop :=
  ∀ earlier c later, writes = earlier ++ c :: later →
    (∀ w, handedWindow c = some w → windowFloor ≤ w) ∧
    (RollsBack c → c.recovery.rollback.2 = iniWin ∨ ReturnedByCwnd earlier c.recovery.rollback.2)

def RollbackCovered (c : Connection F) : Prop :=
  RollsBack c → c.recovery.formerWinVecter = ∅ ∨ ∃ m ∈ c.recovery.formerWinVecter, windowFloor ≤ m

/-- Where the recorded windows above the floor come from. -/
def Recorded (earlier : List (Connection F)) (c : Connection F) : Prop :=
  ∀ m ∈ c.recovery.formerWinVecter, windowFloor ≤ m → ReturnedByCwnd earlier m

theorem step_recorded [Octets] {earlier : List (Connection F)} {c c' : Connection F} {a : Call}
    {o : Reply} (recorded : Recorded earlier c) (taken : step c a = .ok (c', o)) :
    Recorded (earlier ++ if entersWrite c a then [c] else []) c' := by
  intro m mem above
  have keep : ReturnedByCwnd earlier m →
      ReturnedByCwnd (earlier ++ if entersWrite c a then [c] else []) m := by
    rintro ⟨d, before, returned⟩
    exact ⟨d, List.mem_append_left _ before, returned⟩
  rcases step_former taken with ⟨enters, w, chosen⟩ | ⟨_, same⟩
  · by_cases back : RollsBack c
    · rw [nextWindow_rollback back, Except.ok.injEq] at chosen
      have popped : c.recovery.rollback.1 = c'.recovery := congrArg Prod.fst chosen
      rw [← popped] at mem
      exact keep (recorded m (rollback_former c.recovery m mem) above)
    · rw [nextWindow_cwnd back] at chosen
      rcases (cwnd_effect chosen).2 m mem with old | new
      · exact keep (recorded m old above)
      · refine ⟨c, by simp [enters], back, c'.recovery, ?_⟩
        rw [new above]
        exact chosen
  · rw [same] at mem
    exact keep (recorded m mem above)

theorem run_recorded [Octets] {localaddr peeraddr : SocketAddr} {birth : Nat} {isServer : Bool}
    {trace : Trace F} {c : Connection F}
    (run : Run step (fun _ _ => True) (Connection.new localaddr peeraddr birth isServer) trace c) :
    ∀ earlier d later, entered trace ++ [c] = earlier ++ d :: later → Recorded earlier d := by
  induction run with
  | start =>
    intro earlier d later split
    rcases snoc_split split with ⟨rfl, rfl, _⟩ | ⟨before, inside, _⟩
    · intro m mem
      cases mem
    · simp [entered] at inside
  | @step trace s s' a o earlier may taken ih =>
    intro past d later split
    rw [entered_snoc] at split
    rcases snoc_split split with ⟨rfl, rfl, _⟩ | ⟨before, inside, _⟩
    · exact step_recorded (ih _ _ [] rfl) taken
    · cases enters : entersWrite s a with
      | true =>
        rw [enters, if_pos rfl] at inside
        exact ih past d before inside
      | false =>
        rw [enters, if_neg (by decide), List.append_nil] at inside
        exact ih past d (before ++ [s]) (by rw [inside, List.append_assoc, List.cons_append])

theorem sound_iff_covered {earlier : List (Connection F)} {c : Connection F}
    (recorded : Recorded earlier c) :
    ((∀ w, handedWindow c = some w → windowFloor ≤ w) ∧ (RollsBack c →
      c.recovery.rollback.2 = iniWin ∨ ReturnedByCwnd earlier c.recovery.rollback.2)) ↔
    RollbackCovered c := by
  constructor
  · rintro ⟨_, origin⟩ back
    rcases Finset.eq_empty_or_nonempty c.recovery.formerWinVecter with empty | some_left
    · exact Or.inl empty
    · have largest := rollback_recorded some_left
      refine Or.inr ⟨_, c.recovery.formerWinVecter.max'_mem some_left, ?_⟩
      rw [← largest]
      rcases origin back with initial | ⟨d, _, _, r, returned⟩
      · rw [initial]
        exact Nat.le_refl _
      · exact (cwnd_effect returned).1
  · intro covered
    constructor
    · intro w handed
      obtain ⟨r, chosen⟩ := handed_chosen handed
      by_cases back : RollsBack c
      · rw [nextWindow_rollback back, Except.ok.injEq] at chosen
        have window : c.recovery.rollback.2 = w := congrArg Prod.snd chosen
        rw [← window]
        exact (rollback_high (covered back)).1
      · rw [nextWindow_cwnd back] at chosen
        exact (cwnd_effect chosen).1
    · intro back
      obtain ⟨above, initial | kept⟩ := rollback_high (covered back)
      · exact Or.inl initial
      · exact Or.inr (recorded _ kept above)

theorem window_floor_iff_rollbacks_covered [Octets] (localaddr peeraddr : SocketAddr) (birth : Nat)
    (isServer : Bool) {trace : Trace F} {c : Connection F}
    (run : Run step (fun _ _ => True) (Connection.new localaddr peeraddr birth isServer) trace c) :
    WindowsSound (entered trace ++ [c]) ↔ ∀ d ∈ entered trace ++ [c], RollbackCovered d := by
  have recorded := run_recorded run
  constructor
  · intro sound d mem
    obtain ⟨earlier, later, split⟩ := List.append_of_mem mem
    exact (sound_iff_covered (recorded earlier d later split)).mp (sound earlier d later split)
  · intro covered earlier d later split
    have mem : d ∈ entered trace ++ [c] := by
      rw [split]
      exact List.mem_append_right _ List.mem_cons_self
    exact (sound_iff_covered (recorded earlier d later split)).mpr (covered d mem)

end Steps

def lossReport : Slice :=
  datagram (Header.mk .ack 0 0 0 24) (u64Bytes 0 ++ u64Bytes 0 ++ u64Bytes 1) (by decide)

theorem word_small : (u64Bytes 0).length ≤ 65536 := by
  decide

def emptyReport : Slice := datagram (Header.mk .ack 0 0 0 8) (u64Bytes 0) word_small

/-- An ACK without pairs raises `roll_back_flag`, so that the first pass records no window and the
    loss after it rolls back to the initial one. -/
def unrecordedSession : List Call :=
  [.dataSend (onesText 255),
    .recvSlice 1 emptyReport, .sendAll 2, .recvSlice 5 (bareDatagram 2),
    .sendData 6 storedOrder outBuffer, .recvSlice 7 lossReport, .sendAll 8]

theorem unrecorded_rollback_sound : ∃ (trace : Trace ℚ) (c : Connection ℚ),
    Run (@step ℚ referenceOctets checkedBuild rationalFloats) (fun _ _ => True) freshServer trace c ∧
      trace.map (fun t => t.action) = unrecordedSession ∧
      (entered trace).map (fun d => decide (@RollsBack ℚ rationalFloats d)) = [false, true] ∧
      (entered trace).map (@handedWindow ℚ rationalFloats checkedBuild) = [some 19200, some 9600] ∧
      @WindowsSound ℚ rationalFloats checkedBuild (entered trace ++ [c]) := by
  have passed : passes (@step ℚ referenceOctets checkedBuild rationalFloats) (fun _ _ => True)
      freshServer unrecordedSession (fun trace c =>
        decide ((entered trace).map (fun d => decide (@RollsBack ℚ rationalFloats d)) =
          [false, true]) &&
        decide ((entered trace).map (@handedWindow ℚ rationalFloats checkedBuild) =
          [some 19200, some 9600]) &&
        (entered trace ++ [c]).all (fun d => decide (d.recovery.formerWinVecter = ∅))) = true := by
    decide +kernel
  obtain ⟨trace, c, run, played, outcome⟩ := played_run passed
  simp only [Bool.and_eq_true, decide_eq_true_eq, List.all_eq_true] at outcome
  obtain ⟨⟨branches, windows⟩, unrecorded⟩ := outcome
  refine ⟨trace, c, run, played, branches, windows, ?_⟩
  apply (@window_floor_iff_rollbacks_covered ℚ rationalFloats checkedBuild referenceOctets loopback
    loopback 0 true trace c run).mpr
  intro d mem _
  exact Or.inl (unrecorded d mem)

def lossSession : List Call :=
  [.dataSend (onesText 255), .sendAll 1, .recvSlice 5 (bareDatagram 2),
    .sendData 6 storedOrder outBuffer, .recvSlice 7 lossReport, .sendAll 8]

theorem rollback_hands_over_zero : ∃ (trace : Trace ℚ) (c : Connection ℚ),
    Run (@step ℚ referenceOctets checkedBuild rationalFloats) (fun _ _ => True) freshServer trace c ∧
      trace.map (fun t => t.action) = lossSession ∧
      (entered trace).map (@handedWindow ℚ rationalFloats checkedBuild) = [some 9600, some 0] ∧
      ¬ @WindowsSound ℚ rationalFloats checkedBuild (entered trace ++ [c]) := by
  have passed : passes (@step ℚ referenceOctets checkedBuild rationalFloats) (fun _ _ => True)
      freshServer lossSession (fun trace _ => (entered trace).map
        (@handedWindow ℚ rationalFloats checkedBuild) == [some 9600, some 0]) = true := by
    decide +kernel
  obtain ⟨trace, c, run, played, outcome⟩ := played_run passed
  have windows := beq_iff_eq.mp outcome
  refine ⟨trace, c, run, played, windows, ?_⟩
  intro sound
  have zero : some 0 ∈ (entered trace).map (@handedWindow ℚ rationalFloats checkedBuild) := by
    rw [windows]
    decide
  obtain ⟨d, mem, handed⟩ := List.mem_map.mp zero
  obtain ⟨earlier, later, split⟩ := List.append_of_mem (List.mem_append_left [c] mem)
  have above := (sound earlier d later split).1 0 handed
  exact absurd above (by decide)

end DmludpWindowFloor
