import Dmludp.Endpoint.AckEntries
import Dmludp.Guarantees.PacketIntegrity
import Dmludp.Guarantees.WindowFloor

/- What a window decision rests on. The ACKs of a round collect in `incre_win`, `decre_win` and
   `high_priority`, its packets in `sent_number`. `Connection::write` clears the last two and
   `cwnd` the first two; `rollback` leaves them to the next round. -/
namespace DmludpRoundFeedback
open ByteCursor RustOutcome TracedRun DmludpPacket DmludpSend DmludpRecovery DmludpConnection
open DmludpConnection.Connection DmludpCalls DmludpEffects DmludpReceiveEffects DmludpSenderSteps
open DmludpAckEntries DmludpWindowFloor DmludpPacketIntegrity DmludpReference

structure Report where
  unack : UInt64
  flag : UInt64
  priority : UInt8
  deriving DecidableEq

/-- What happened since the last write: the ACKs processed and the datagrams sent. -/
structure Round where
  acks : List (List Report)
  packets : List Bytes
  deriving DecidableEq

def Round.pairs (round : Round) : List (List (UInt64 × UInt64)) :=
  round.acks.map (fun reports => reports.map (fun r => (r.unack, r.flag)))

def Round.priorities (round : Round) : List (List UInt8) :=
  round.acks.map (fun reports => reports.map Report.priority)

theorem reports_eq {reports reports' : List Report}
    (pairs : reports.map (fun r => (r.unack, r.flag)) = reports'.map (fun r => (r.unack, r.flag)))
    (priorities : reports.map Report.priority = reports'.map Report.priority) :
    reports = reports' := by
  induction reports generalizing reports' with
  | nil => exact (List.map_eq_nil_iff.mp pairs.symm).symm
  | cons r reports ih =>
    cases reports' with
    | nil => cases pairs
    | cons r' reports' =>
      simp only [List.map_cons, List.cons.injEq, Prod.mk.injEq] at pairs priorities
      obtain ⟨⟨unack, flag⟩, pairs⟩ := pairs
      obtain ⟨priority, priorities⟩ := priorities
      obtain rfl : r = r' := by
        cases r
        cases r'
        cases unack
        cases flag
        cases priority
        rfl
      rw [ih pairs priorities]

theorem acks_eq {acks acks' : List (List Report)}
    (pairs : (Round.mk acks []).pairs = (Round.mk acks' []).pairs)
    (priorities : (Round.mk acks []).priorities = (Round.mk acks' []).priorities) :
    acks = acks' := by
  induction acks generalizing acks' with
  | nil => exact (List.map_eq_nil_iff.mp pairs.symm).symm
  | cons reports acks ih =>
    cases acks' with
    | nil => cases pairs
    | cons reports' acks' =>
      simp only [Round.pairs, Round.priorities, List.map_cons, List.cons.injEq] at pairs priorities
      rw [reports_eq pairs.1 priorities.1, ih pairs.2 priorities.2]

theorem round_eq {round round' : Round} (pairs : round.pairs = round'.pairs)
    (priorities : round.priorities = round'.priorities) (packets : round.packets = round'.packets) :
    round = round' := by
  have acks : round.acks = round'.acks := acks_eq pairs priorities
  cases round
  cases round'
  cases acks
  cases packets
  rfl

def Report.high (r : Report) : Nat := if r.flag ≠ 0 ∧ r.priority = 3 then 1 else 0

def gathered (r : Recovery) : Recovery :=
  { Recovery.new with
    increWin := r.increWin
    decreWin := r.decreWin
    maxDatagramSize := r.maxDatagramSize }

variable {F : Type}

/-- Nothing of the round before is left. -/
def Cleared (c : Connection F) : Prop :=
  c.recovery.increWin = 0 ∧ c.recovery.decreWin = 0 ∧ c.highPriority = 0 ∧ c.sentNumber = 0

instance (c : Connection F) : Decidable (Cleared c) :=
  inferInstanceAs (Decidable (_ ∧ _ ∧ _ ∧ _))

section Rounds
variable [FloatOps F]

def report (c : Connection F) (pair : UInt64 × UInt64) : Report where
  unack := pair.1
  flag := pair.2
  priority := (c.priorityCalculation pair.1.toNat).toOption.getD 0

def Report.weight (weights : F) (r : Report) : F :=
  if r.flag = 0 then weights
  else if r.priority = 1 then FloatOps.add32 weights (FloatOps.lit32 15 2)
  else if r.priority = 2 then FloatOps.add32 weights (FloatOps.lit32 2 1)
  else if r.priority = 3 then FloatOps.add32 weights (FloatOps.lit32 25 2)
  else weights

variable [Octets]

def ackOf (c : Connection F) : Call → Option (List Report)
  | .recvSlice _ buf =>
    if c.isServer && (headerOf? .ack buf.bytes).isSome then
      (readPairs (buf.bytes.drop 26)).toOption.map (fun read => read.2.map (report c))
    else none
  | _ => none

def noteRound (round : Round) (t : Transition (Connection F) Call Reply) : Round :=
  if entersWrite t.before t.action then ⟨[], []⟩
  else ⟨round.acks ++ (ackOf t.before t.action).toList, round.packets ++ t.reply.packet?.toList⟩

def sinceWrite (trace : Trace F) : Round := trace.foldl noteRound ⟨[], []⟩

theorem sinceWrite_snoc (trace : Trace F) (t : Transition (Connection F) Call Reply) :
    sinceWrite (trace ++ [t]) = noteRound (sinceWrite trace) t := by
  simp [sinceWrite]

end Rounds

section Reports
variable [FloatOps F]

theorem lossWeight_report {c : Connection F} {pair : UInt64 × UInt64}
    (covered : pair.1.toNat / 1024 < c.norm2Vec.length) (weights : F) :
    lossWeight c weights pair = (report c pair).weight weights := by
  obtain ⟨p, found⟩ := priorityCalculation_ok_iff.mpr covered
  have seen : (report c pair).priority = p := by
    simp [report, found, Except.toOption]
  by_cases received : pair.2 = 0
  · simp [lossWeight, entryPriority, received, weighEntry_received, Report.weight, report]
  · have lost : (report c pair).flag ≠ 0 := received
    unfold Report.weight
    rw [if_neg lost, seen]
    simp only [lossWeight, entryPriority, received, ne_eq, not_false_eq_true, ↓reduceIte, found]
    rcases priorityCalculation_range found with rfl | rfl | rfl <;> rfl

theorem highLoss_report {c : Connection F} {pair : UInt64 × UInt64}
    (covered : pair.1.toNat / 1024 < c.norm2Vec.length) :
    highLoss c pair = (report c pair).high := by
  obtain ⟨p, found⟩ := priorityCalculation_ok_iff.mpr covered
  simp [highLoss, Report.high, report, found, Except.toOption]

theorem foldl_report {c : Connection F} {ps : List (UInt64 × UInt64)} (covered : Covered c ps)
    (weights : F) :
    ps.foldl (lossWeight c) weights = (ps.map (report c)).foldl Report.weight weights := by
  induction ps generalizing weights with
  | nil => rfl
  | cons p ps ih =>
    rw [List.foldl_cons, List.map_cons, List.foldl_cons,
      lossWeight_report (covered p List.mem_cons_self),
      ih (fun q mem => covered q (List.mem_cons_of_mem p mem))]

theorem high_report {c : Connection F} {ps : List (UInt64 × UInt64)} (covered : Covered c ps) :
    ps.map (highLoss c) = (ps.map (report c)).map Report.high := by
  rw [List.map_map]
  exact List.map_congr_left (fun p mem => highLoss_report (covered p mem))

end Reports

section Gathering
variable [Profile]

def feed (F : Type) [FloatOps F] (r : Recovery) (ack : List Report) : Rs Recovery :=
  r.updateWin (ack.foldl Report.weight (FloatOps.lit32 0 1 : F)) (FloatOps.ofUsize ack.length)

def gather (F : Type) [FloatOps F] (acks : List (List Report)) : Rs Recovery :=
  acks.foldlM (fun r ack => (feed F r ack).map gathered) (gathered Recovery.new)

theorem updateWin_gathered [FloatOps F] (r : Recovery) (weights num : F) :
    ((gathered r).updateWin weights num).map gathered = (r.updateWin weights num).map gathered := by
  have same : (gathered r).winadd weights = r.winadd weights := rfl
  rw [Recovery.updateWin_eq, Recovery.updateWin_eq, same]
  split
  · change (addWord r.increWin _ >>= _).map gathered = (addWord r.increWin _ >>= _).map gathered
    cases addWord r.increWin (FloatOps.toUsize (r.winadd weights)) <;> rfl
  · change (addWord r.decreWin _ >>= _).map gathered = (addWord r.decreWin _ >>= _).map gathered
    cases addWord r.decreWin (FloatOps.toUsize (FloatOps.neg64 (r.winadd weights))) <;> rfl

theorem gather_snoc [FloatOps F] {acks : List (List Report)} {ack : List Report} {r r' : Recovery}
    (before : gather F acks = .ok (gathered r)) (fed : feed F r ack = .ok r') :
    gather F (acks ++ [ack]) = .ok (gathered r') := by
  unfold gather at before ⊢
  rw [List.foldlM_append, before, ok_bind]
  simp only [List.foldlM_cons, List.foldlM_nil]
  have next : (feed F (gathered r) ack).map gathered = .ok (gathered r') := by
    rw [feed, updateWin_gathered]
    unfold feed at fed
    rw [fed]
    rfl
  rw [next]
  rfl

end Gathering

section Sums

theorem rollback_sums (r : Recovery) : r.rollback.1.increWin = r.increWin ∧
    r.rollback.1.decreWin = r.decreWin ∧ r.rollback.1.maxDatagramSize = r.maxDatagramSize := by
  unfold Recovery.rollback
  dsimp only
  split <;> exact ⟨rfl, rfl, rfl⟩

theorem rollback_congr {r r' : Recovery} (same : r.formerWinVecter = r'.formerWinVecter) :
    r.rollback.2 = r'.rollback.2 := by
  rcases Finset.eq_empty_or_nonempty r.formerWinVecter with empty | recorded
  · rw [rollback_empty empty, rollback_empty (same ▸ empty)]
  · rw [rollback_recorded recorded, rollback_recorded (same ▸ recorded)]
    simp only [same]

variable [Profile]

theorem cwnd_sums {r r' : Recovery} {w : Nat} (done : r.cwnd = .ok (r', w)) :
    r'.increWin = 0 ∧ r'.decreWin = 0 ∧ r'.maxDatagramSize = r.maxDatagramSize := by
  rw [Recovery.cwnd_eq] at done
  obtain ⟨doubled, _, done⟩ := bind_ok_iff.mp done
  cases done
  exact ⟨rfl, rfl, rfl⟩

theorem cwnd_congr {r r' : Recovery} (same : gathered r = gathered r') :
    r.cwnd.map Prod.snd = r'.cwnd.map Prod.snd := by
  simp only [gathered, Recovery.mk.injEq] at same
  obtain ⟨_, _, up, down, _, _⟩ := same
  rw [Recovery.cwnd_eq, Recovery.cwnd_eq, up, down]
  cases mulWord 2 r'.increWin <;> rfl

variable [FloatOps F]

theorem nextWindow_sums {c : Connection F} {r : Recovery} {w : Nat}
    (chosen : nextWindow c.recovery (highRatio c) = .ok (r, w)) :
    r.maxDatagramSize = c.recovery.maxDatagramSize ∧ (r.increWin = 0 ∧ r.decreWin = 0 ↔
      (RollsBack c → c.recovery.increWin = 0 ∧ c.recovery.decreWin = 0)) := by
  by_cases back : RollsBack c
  · rw [nextWindow_rollback back, Except.ok.injEq] at chosen
    have popped : c.recovery.rollback.1 = r := congrArg Prod.fst chosen
    obtain ⟨up, down, size⟩ := rollback_sums c.recovery
    rw [← popped, up, down]
    exact ⟨size, fun zero _ => zero, fun all => all back⟩
  · rw [nextWindow_cwnd back] at chosen
    obtain ⟨up, down, size⟩ := cwnd_sums chosen
    exact ⟨size, fun _ holds => absurd holds back, fun _ => ⟨up, down⟩⟩

def chosenWindow (c : Connection F) : Rs Nat :=
  (nextWindow c.recovery (highRatio c)).map Prod.snd

theorem chosenWindow_congr {c c' : Connection F} (sums : gathered c.recovery = gathered c'.recovery)
    (high : c.highPriority = c'.highPriority) (sent : c.sentNumber = c'.sentNumber)
    (former : c.recovery.formerWinVecter = c'.recovery.formerWinVecter) :
    chosenWindow c = chosenWindow c' := by
  have ratio : highRatio c = highRatio c' := by
    unfold highRatio
    rw [high, sent]
  unfold chosenWindow nextWindow
  rw [ratio]
  split
  · exact congrArg Except.ok (rollback_congr former)
  · exact cwnd_congr sums

end Sums

section Wire
variable [Octets]

theorem applications_none {m : Option Bytes}
    (other : ∀ x, m = some x → headerOf? .application x = none) : applications m.toList = 0 := by
  cases m with
  | none => rfl
  | some x => simp [applications, other x rfl]

theorem applications_bare {ty : PacketType} {out : Bytes} {r : Except Error (Nat × SendInfo)}
    (sendable : ty ≠ .startAck) (kind : ty ≠ .application)
    (sent : (∃ e, r = .error e) ∨ Puts out r (bareHeader ty).encoded) :
    applications (packetOf out r).toList = 0 := by
  apply applications_none
  intro m found
  rcases sent with ⟨e, failed⟩ | puts
  · rw [packetOf_error failed] at found
    cases found
  · rw [packetOf_puts puts, Option.some.injEq] at found
    subst found
    have read : headerOf? .application ((bareHeader ty).encoded ++ []) = _ :=
      headerOf?_encoded sendable []
    rw [List.append_nil] at read
    exact read.trans (if_neg kind)

end Wire

section Steps
variable [Profile] [FloatOps F]

theorem write_counters {c c' : Connection F} {r : Except Error Nat} (done : c.write = .ok (c', r)) :
    c'.highPriority = 0 ∧ c'.sentNumber = 0 := by
  cases write_effect done with
  | wrote _ _ => exact ⟨rfl, rfl⟩

theorem sendAll_counters {c c' : Connection F} {now : Nat} {r : Except Error Bool}
    (entered : entersWrite c (.sendAll now) = true) (done : c.sendAll now = .ok (c', r)) :
    c'.highPriority = 0 ∧ c'.sentNumber = 0 := by
  cases sendAll_cases done with
  | drained all empty => simp [entersWrite, Nat.not_lt.mpr all, empty] at entered
  | wrote _ _ => exact ⟨rfl, rfl⟩

theorem processAck_fed {c c' : Connection F} {buf : Bytes} (done : c.processAck buf = .ok c') :
    ∃ ps head, readPairs (buf.drop 26) = .ok (head, ps) ∧
      feed F c.recovery (ps.map (report c)) = .ok c'.recovery ∧
      c'.highPriority = c.highPriority + ((ps.map (report c)).map Report.high).sum ∧
      c'.sentNumber = c.sentNumber := by
  obtain ⟨complete, _⟩ := processAck_headed done
  obtain ⟨head, ps, layout, covered⟩ := processAck_accepts done
  obtain ⟨maxOff, raised⟩ := raiseMaxOff_frame c head
  have high : highLoss (c.raiseMaxOff head) = highLoss c := by
    rw [raised]
    exact highLoss_congr (fun _ => rfl)
  rw [processAck_eq complete layout covered] at done
  obtain ⟨recovery, updated, same⟩ := bind_ok_iff.mp done
  cases same
  refine ⟨ps, head, by rw [layout, readPairs_pairs], ?_, ?_, ?_⟩
  · unfold feed
    rw [← foldl_report covered, List.length_map]
    exact updated
  · rw [foldl_noteEntry, high, ← high_report covered, raised]
  · rw [foldl_noteEntry, raised]

variable [Octets]

theorem cleared_iff {c c' : Connection F} {a : Call} {o : Reply} (taken : step c a = .ok (c', o))
    (enters : entersWrite c a = true) :
    c'.recovery.maxDatagramSize = c.recovery.maxDatagramSize ∧ (Cleared c' ↔
      (RollsBack c → c.recovery.increWin = 0 ∧ c.recovery.decreWin = 0)) := by
  have counters : c'.highPriority = 0 ∧ c'.sentNumber = 0 := by
    cases step_cases taken with
    | write done => exact write_counters done
    | sendAll done => exact sendAll_counters enters done
    | dataSend _ | sendData _ | recvSlice _ | checkLoss _ | read _ | reset | newRtt
      | setHandshake => cases enters
  rcases step_former taken with ⟨_, w, chosen⟩ | ⟨idle, _⟩
  · obtain ⟨size, sums⟩ := nextWindow_sums chosen
    refine ⟨size, ?_⟩
    rw [← sums]
    unfold Cleared
    simp only [counters, and_true]
  · rw [enters] at idle
    cases idle

theorem sendData_counted {c : Connection F} {now : Nat} {order : IterOrder} {out : Bytes}
    {s : Sent F} (orderly : Orderly c) (sent : SendCase c now order out s) :
    s.conn.highPriority = c.highPriority ∧
      s.conn.sentNumber = c.sentNumber + applications (packetOf s.out s.result).toList := by
  cases sent with
  | empty _ | idle _ => exact ⟨rfl, rfl⟩
  | handshake completed confirmed due =>
    obtain ⟨stamp, back, conn, packet⟩ := sendHandshake_effect { c with
      handshakeCompleted := completed
      handshakeConfirmed := confirmed } now out
    have other : applications _ = 0 := applications_bare (by decide) (by decide) packet
    rw [conn, other]
    exact ⟨rfl, rfl⟩
  | elictAck due sent =>
    obtain ⟨spaces, point, stopAck, conn, _⟩ := sendElictAck_frame sent
    rw [conn, applications_none (query_unnumbered sent).2]
    exact ⟨rfl, rfl⟩
  | ack quiet asked =>
    have running : isStopped { c with recvFlag := false } = false := by
      simp [isStopped, running_of_quiet quiet]
    rcases sendAckPacket_effect _ now order out running with ⟨_, conn, packet⟩ | ⟨_, conn, failed⟩
    · rw [conn, packetOf_puts packet]
      refine ⟨rfl, ?_⟩
      simp [applications, headerOf?_encoded, ackHeader]
    · rw [conn, packetOf_error failed]
      exact ⟨rfl, rfl⟩
  | application quiet awake sent =>
    cases sendApplication_cases sent with
    | nothing _ _ _ => exact ⟨rfl, rfl⟩
    | @packet sendBuffer body n off stop priority dic _ emitted _ _ _ =>
      have unasked := orderly_unasked orderly (running_of_quiet quiet)
      have running : (transmitted c sendBuffer off stop dic).isStopped = false := by
        simp [isStopped, transmitted, unasked]
      have size := (SendBuf.emit_size emitted).1
      obtain ⟨stamp, conn⟩ := finishSend_conn (transmitted c sendBuffer off stop dic) now
        ((applicationHeader c.pktNumSpaces.1.nextPktNum priority off n).encoded ++ body) n
      rw [conn, packetOf_puts (finishSend_puts size running)]
      refine ⟨rfl, ?_⟩
      simp [applications, headerOf?_application, transmitted]
  | stop asleep drained =>
    obtain ⟨conn, packet⟩ := sendStop_effect c out
    have other : applications _ = 0 := applications_bare (by decide) (by decide) packet
    rw [conn, other]
    exact ⟨rfl, rfl⟩

end Steps

inductive Fed [Profile] [FloatOps F] [Octets] (c : Connection F) (a : Call) (o : Reply)
    (c' : Connection F) : Prop where
  | ack {reports : List Report} (seen : ackOf c a = some reports) (silent : o.packet? = none)
      (window : feed F c.recovery reports = .ok c'.recovery)
      (high : c'.highPriority = c.highPriority + (reports.map Report.high).sum)
      (sent : c'.sentNumber = c.sentNumber)
  | other (unseen : ackOf c a = none) (recovery : c'.recovery = c.recovery)
      (high : c'.highPriority = c.highPriority)
      (sent : c'.sentNumber = c.sentNumber + applications o.packet?.toList)

section Runs
variable [Profile] [FloatOps F] [Octets]

theorem recvSlice_fed {c c' : Connection F} {now : Nat} {buf : Slice} {r : Except Error Nat}
    (received : RecvCase c now buf.bytes (c', r)) :
    Fed c (.recvSlice now buf) (.recvSlice r) c' := by
  have unseen : 26 ≤ buf.bytes.length → (decodeHeader buf.bytes).ty ≠ .ack ∨ c.isServer = false →
      ackOf c (.recvSlice now buf) = none := by
    intro complete other
    rcases other with kind | client
    · simp [ackOf, headerOf?_complete complete, kind]
    · simp [ackOf, client]
  cases received with
  | ack complete kind server acked =>
    obtain ⟨ps, head, read, window, high, sent⟩ := processAck_fed acked
    have seen : ackOf c (.recvSlice now buf) = some (ps.map (report c)) := by
      simp [ackOf, server, headerOf?_complete complete, kind, read, Except.toOption]
    exact .ack seen rfl window high sent
  | short count incomplete =>
    refine .other ?_ rfl rfl rfl
    simp [ackOf, headerOf?, fromSlice_eq, Nat.not_le.mpr incomplete]
  | silent r complete kind client =>
    refine .other (unseen complete ?_) rfl rfl rfl
    by_cases ack : (decodeHeader buf.bytes).ty = .ack
    · exact Or.inr (client ack)
    · exact Or.inl ack
  | handshakeServer rtt complete kind server =>
    exact .other (unseen complete (Or.inl (by simp [kind]))) rfl rfl rfl
  | handshakeClient complete kind client => exact .other (unseen complete (Or.inr client)) rfl rfl rfl
  | elictAck ws complete kind listed =>
    exact .other (unseen complete (Or.inl (by simp [kind]))) rfl rfl rfl
  | application complete kind stored =>
    exact .other (unseen complete (Or.inl (by simp [kind]))) rfl rfl rfl

theorem step_fed {c c' : Connection F} {a : Call} {o : Reply} (orderly : Orderly c)
    (taken : step c a = .ok (c', o)) (idle : entersWrite c a = false) : Fed c a o c' := by
  cases step_cases taken with
  | write done => cases idle
  | sendAll done =>
    rw [sendAll_idle idle done]
    exact .other rfl rfl rfl rfl
  | dataSend done =>
    obtain ⟨⟨_, _, _, _, same⟩, _⟩ := dataSend_loaded done
    rw [same]
    exact .other rfl rfl rfl rfl
  | sendData done =>
    have sent := sendData_cases done
    obtain ⟨high, number⟩ := sendData_counted orderly sent
    exact .other rfl (sendData_recovery sent) high number
  | recvSlice done => exact recvSlice_fed (recvSlice_cases done)
  | checkLoss done =>
    obtain ⟨ws, _, rfl⟩ := checkLoss_effect done
    exact .other rfl rfl rfl rfl
  | read _ | reset | newRtt | setHandshake => exact .other rfl rfl rfl rfl

/-- The sums are those of the round and of nothing before it. -/
structure Tallied (round : Round) (c : Connection F) : Prop where
  window : gather F round.acks = .ok (gathered c.recovery)
  size : c.recovery.maxDatagramSize = packetSize
  high : c.highPriority = (round.acks.map (fun reports => (reports.map Report.high).sum)).sum
  sent : c.sentNumber = applications round.packets

theorem cleared_tallied {c : Connection F} (size : c.recovery.maxDatagramSize = packetSize)
    (cleared : Cleared c) : Tallied ⟨[], []⟩ c := by
  obtain ⟨up, down, high, sent⟩ := cleared
  refine ⟨?_, size, high, sent⟩
  simp [gather, gathered, up, down, size, Recovery.new]
  rfl

/-- No write rolls back while the sums of its round are not zero. -/
def SafeWrite (t : Transition (Connection F) Call Reply) : Prop :=
  entersWrite t.before t.action = true → RollsBack t.before →
    t.before.recovery.increWin = 0 ∧ t.before.recovery.decreWin = 0

instance (t : Transition (Connection F) Call Reply) : Decidable (SafeWrite t) :=
  inferInstanceAs (Decidable (_ → _ → _ ∧ _))

theorem step_tallied {trace : Trace F} {c c' : Connection F} {a : Call} {o : Reply}
    (orderly : Orderly c) (tallied : Tallied (sinceWrite trace) c) (taken : step c a = .ok (c', o))
    (safe : SafeWrite ⟨c, a, o, c'⟩) : Tallied (sinceWrite (trace ++ [⟨c, a, o, c'⟩])) c' := by
  rw [sinceWrite_snoc]
  unfold noteRound
  by_cases enters : entersWrite c a = true
  · rw [if_pos enters]
    obtain ⟨size, cleared⟩ := cleared_iff taken enters
    exact cleared_tallied (size.trans tallied.size) (cleared.mpr (safe enters))
  · rw [if_neg enters]
    cases step_fed orderly taken (Bool.eq_false_iff.mpr enters) with
    | ack seen silent window high sent =>
      have size : c'.recovery.maxDatagramSize = c.recovery.maxDatagramSize := by
        obtain ⟨_, _, _, same⟩ := Recovery.updateWin_frame window
        rw [same]
      rw [seen, silent]
      refine ⟨gather_snoc tallied.window window, size.trans tallied.size, ?_, ?_⟩
      · rw [high, tallied.high]
        simp
      · rw [sent, tallied.sent]
        simp
    | other unseen recovery high sent =>
      rw [unseen]
      refine ⟨?_, by rw [recovery]; exact tallied.size, ?_, ?_⟩
      · rw [recovery, Option.toList_none, List.append_nil]
        exact tallied.window
      · rw [high, Option.toList_none, List.append_nil]
        exact tallied.high
      · rw [sent, tallied.sent, applications_append]

theorem run_tallied {localaddr peeraddr : SocketAddr} {birth : Nat} {isServer : Bool}
    {trace : Trace F} {c : Connection F}
    (run : Run step (fun _ _ => True) (Connection.new localaddr peeraddr birth isServer) trace c) :
    Orderly c ∧ ((∀ t ∈ trace, SafeWrite t) → Tallied (sinceWrite trace) c) := by
  induction run with
  | start =>
    constructor
    · intro asked
      cases asked
    · intro _
      exact cleared_tallied rfl ⟨rfl, rfl, rfl, rfl⟩
  | step earlier may taken ih =>
    obtain ⟨orderly, tallied⟩ := ih
    refine ⟨step_orderly orderly (sender_step taken), ?_⟩
    intro safe
    simp only [List.forall_mem_append, List.forall_mem_singleton] at safe
    exact step_tallied orderly (tallied safe.1) taken safe.2

/-- Every write leaves all four sums at zero exactly when no write rolls back on a sum that is
    not zero; and runs of which that is true choose the same window if they agree on the ACKs and
    packets since their last write, on the priorities of the blocks these ACKs report, and on the
    recorded windows. -/
theorem window_from_round_iff (localaddr peeraddr localaddr' peeraddr' : SocketAddr)
    (birth birth' : Nat) (isServer isServer' : Bool) {trace trace' : Trace F} {c c' : Connection F}
    (run : Run step (fun _ _ => True) (Connection.new localaddr peeraddr birth isServer) trace c)
    (run' : Run step (fun _ _ => True) (Connection.new localaddr' peeraddr' birth' isServer')
      trace' c') :
    ((∀ t ∈ trace, entersWrite t.before t.action = true → Cleared t.after) ↔
      ∀ t ∈ trace, SafeWrite t) ∧
    ((∀ t ∈ trace, SafeWrite t) → gather F (sinceWrite trace).acks = .ok (gathered c.recovery)) ∧
    ((∀ t ∈ trace, SafeWrite t) → (∀ t ∈ trace', SafeWrite t) →
      (sinceWrite trace).pairs = (sinceWrite trace').pairs →
      (sinceWrite trace).packets = (sinceWrite trace').packets →
      (sinceWrite trace).priorities = (sinceWrite trace').priorities →
      c.recovery.formerWinVecter = c'.recovery.formerWinVecter →
      chosenWindow c = chosenWindow c') := by
  refine ⟨?_, fun safe => ((run_tallied run).2 safe).window, ?_⟩
  · have each : ∀ t ∈ trace, (entersWrite t.before t.action = true → Cleared t.after) ↔
        SafeWrite t := by
      intro t mem
      obtain ⟨before, after, split⟩ := List.append_of_mem mem
      rw [split] at run
      have taken := (run_split run).2.2
      exact forall_congr' (fun enters => (cleared_iff taken enters).2)
    exact forall₂_congr each
  · intro safe safe' pairs packets priorities former
    have same := round_eq pairs priorities packets
    have tallied := (run_tallied run).2 safe
    have tallied' := (run_tallied run').2 safe'
    rw [same] at tallied
    have sums : gathered c.recovery = gathered c'.recovery :=
      Except.ok.inj (tallied.window.symm.trans tallied'.window)
    exact chosenWindow_congr sums (tallied.high.trans tallied'.high.symm)
      (tallied.sent.trans tallied'.sent.symm) former

end Runs

theorem receipt_small : (u64Bytes 0 ++ u64Bytes 0 ++ u64Bytes 0).length ≤ 65536 := by
  decide

def receipt : Slice :=
  datagram (Header.mk .ack 0 0 0 24) (u64Bytes 0 ++ u64Bytes 0 ++ u64Bytes 0) receipt_small

def ackedSession : List Call :=
  [.dataSend (onesText 255), .sendAll 1, .recvSlice 5 (bareDatagram 2),
    .sendData 6 storedOrder outBuffer, .recvSlice 7 emptyReport, .recvSlice 8 receipt]

/-- A call that only stamps the time is no part of a round. -/
theorem idle_call_same_window : ∃ (trace trace' : Trace ℚ) (c c' : Connection ℚ),
    Run (@step ℚ referenceOctets checkedBuild rationalFloats) (fun _ _ => True) freshServer trace c ∧
      Run (@step ℚ referenceOctets checkedBuild rationalFloats) (fun _ _ => True) freshServer
        trace' c' ∧
      trace.map (fun t => t.action) = ackedSession ∧
      trace'.map (fun t => t.action) = .setHandshake 0 :: ackedSession ∧
      (@sinceWrite ℚ rationalFloats referenceOctets trace).pairs = [[], [(0, 0)]] ∧
      (@sinceWrite ℚ rationalFloats referenceOctets trace).priorities = [[], [3]] ∧
      @chosenWindow ℚ checkedBuild rationalFloats c = .ok 38400 ∧
      @chosenWindow ℚ checkedBuild rationalFloats c =
        @chosenWindow ℚ checkedBuild rationalFloats c' := by
  have passed : passes (@step ℚ referenceOctets checkedBuild rationalFloats) (fun _ _ => True)
      freshServer ackedSession (fun trace c =>
        decide ((@sinceWrite ℚ rationalFloats referenceOctets trace).pairs = [[], [(0, 0)]] ∧
          (@sinceWrite ℚ rationalFloats referenceOctets trace).priorities = [[], [3]] ∧
          @chosenWindow ℚ checkedBuild rationalFloats c = .ok 38400) &&
        passes (@step ℚ referenceOctets checkedBuild rationalFloats) (fun _ _ => True)
          freshServer (.setHandshake 0 :: ackedSession) (fun trace' c' =>
            (trace ++ trace').all (fun t => decide (@SafeWrite ℚ rationalFloats t)) &&
            decide (@sinceWrite ℚ rationalFloats referenceOctets trace =
              @sinceWrite ℚ rationalFloats referenceOctets trace') &&
            decide (c.recovery.formerWinVecter = c'.recovery.formerWinVecter))) = true := by
    decide +kernel
  obtain ⟨trace, c, run, played, outcome⟩ := played_run passed
  obtain ⟨facts, outcome⟩ := Bool.and_eq_true_iff.mp outcome
  obtain ⟨pairs, priorities, window⟩ := of_decide_eq_true facts
  obtain ⟨trace', c', run', played', outcome⟩ := played_run outcome
  simp only [Bool.and_eq_true, List.all_eq_true, decide_eq_true_eq, List.forall_mem_append]
    at outcome
  obtain ⟨⟨⟨safe, safe'⟩, same⟩, former⟩ := outcome
  refine ⟨trace, trace', c, c', run, run', played, played', pairs, priorities, window, ?_⟩
  exact (@window_from_round_iff ℚ checkedBuild rationalFloats referenceOctets loopback loopback
    loopback loopback 0 0 true true trace trace' c c' run run').2.2 safe safe'
      (congrArg Round.pairs same) (congrArg Round.packets same) (congrArg Round.priorities same)
      former

def lossSessionAcked : List Call :=
  [.dataSend (onesText 255), .sendAll 1, .recvSlice 5 (bareDatagram 2),
    .sendData 6 storedOrder outBuffer, .recvSlice 6 emptyReport, .recvSlice 7 lossReport, .sendAll 8]

theorem rollback_leaves_sums_behind : ∃ (trace trace' : Trace ℚ) (c c' : Connection ℚ),
    Run (@step ℚ referenceOctets checkedBuild rationalFloats) (fun _ _ => True) freshServer trace c ∧
      Run (@step ℚ referenceOctets checkedBuild rationalFloats) (fun _ _ => True) freshServer
        trace' c' ∧
      trace.map (fun t => t.action) = lossSession ∧
      trace'.map (fun t => t.action) = lossSessionAcked ∧
      (@sinceWrite ℚ rationalFloats referenceOctets trace =
        @sinceWrite ℚ rationalFloats referenceOctets trace' ∧
        c.recovery.formerWinVecter = c'.recovery.formerWinVecter ∧
        c.recovery.rollBackFlag = c'.recovery.rollBackFlag) ∧
      @chosenWindow ℚ checkedBuild rationalFloats c = .ok 9600 ∧
      @chosenWindow ℚ checkedBuild rationalFloats c' = .ok 19220 ∧
      c.recovery.increWin = 10 ∧ c'.recovery.increWin = 9610 := by
  have passed : passes (@step ℚ referenceOctets checkedBuild rationalFloats) (fun _ _ => True)
      freshServer lossSession (fun trace c =>
        passes (@step ℚ referenceOctets checkedBuild rationalFloats) (fun _ _ => True)
          freshServer lossSessionAcked (fun trace' c' =>
            decide (@sinceWrite ℚ rationalFloats referenceOctets trace =
              @sinceWrite ℚ rationalFloats referenceOctets trace' ∧
              c.recovery.formerWinVecter = c'.recovery.formerWinVecter ∧
              c.recovery.rollBackFlag = c'.recovery.rollBackFlag) &&
            decide (@chosenWindow ℚ checkedBuild rationalFloats c = .ok 9600 ∧
              @chosenWindow ℚ checkedBuild rationalFloats c' = .ok 19220 ∧
              c.recovery.increWin = 10 ∧ c'.recovery.increWin = 9610))) = true := by
    decide +kernel
  obtain ⟨trace, c, run, played, outcome⟩ := played_run passed
  obtain ⟨trace', c', run', played', outcome⟩ := played_run outcome
  simp only [Bool.and_eq_true, decide_eq_true_eq] at outcome
  exact ⟨trace, trace', c, c', run, run', played, played', outcome⟩

end DmludpRoundFeedback
