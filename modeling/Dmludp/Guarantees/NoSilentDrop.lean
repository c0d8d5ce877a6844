import Dmludp.Foundation.LossyNetwork
import Dmludp.Guarantees.AckAnswers
import Dmludp.Guarantees.RetransmissionBudget

/- Why a chunk may leave the server's queue. A mark is withdrawn by position in one structure, for
   an ACK whose flags come from two others on the far side of the network, or for a counter in a
   fourth; each withdrawal is traced back to a delivery or to a used-up budget. -/
namespace DmludpNoSilentDrop
open ByteCursor RustOutcome TracedRun OrderedMap StreamTiling LossyNetwork DmludpPacket DmludpRange
open DmludpSend DmludpRecovery DmludpConnection DmludpConnection.Connection DmludpCalls
open DmludpEffects DmludpReceiveEffects DmludpSenderSteps DmludpAckAnswers DmludpSegmentation
open DmludpPacketIntegrity DmludpBudget DmludpReference

variable {F : Type}

section Client
variable [Octets]

def Processed (history : Trace F) (o : Nat) : Prop := ∃ w : UInt64, w.toNat = o ∧ received w history

/-- The client's two tables say nothing that did not arrive. -/
structure Truthful (history : Trace F) (c : Connection F) : Prop where
  stored : ∀ w, w ∈ c.recvDic → received w history
  noted : ∀ w, c.recvHashmap.lookup w = some 0 → received w history

theorem received_grows {w : UInt64} {history : Trace F} (known : received w history)
    (later : Trace F) : received w (history ++ later) := by
  obtain ⟨t, mem, data⟩ := known
  exact ⟨t, List.mem_append_left later mem, data⟩

theorem truthful_kept {history : Trace F} {c c' : Connection F} (truthful : Truthful history c)
    (later : Trace F) (stored : c'.recvDic = c.recvDic)
    (noted : c'.recvHashmap = c.recvHashmap ∨ c'.recvHashmap = ∅) :
    Truthful (history ++ later) c' := by
  constructor
  · intro w mem
    rw [stored] at mem
    exact received_grows (truthful.stored w mem) later
  · intro w found
    rcases noted with same | cleared
    · rw [same] at found
      exact received_grows (truthful.noted w found) later
    · simp [cleared] at found

theorem truthful_asked {history : Trace F} {c c' : Connection F} {ws : List UInt64}
    (truthful : Truthful history c) (later : Trace F) (stored : c'.recvDic = c.recvDic)
    (noted : c'.recvHashmap = answerAll c.recvDic c.recvHashmap ws) :
    Truthful (history ++ later) c' := by
  constructor
  · intro w mem
    rw [stored] at mem
    exact received_grows (truthful.stored w mem) later
  · intro w found
    rw [noted, lookup_answerAll] at found
    split at found
    · by_cases here : w ∈ c.recvDic
      · exact received_grows (truthful.stored w here) later
      · simp [answer, here] at found
    · exact received_grows (truthful.noted w found) later

theorem reports_header {m : Bytes} {o : Nat} (reported : ReportsReceived m o) :
    headerOf? .ack m = some (decodeHeader m) := by
  obtain ⟨complete, kind, _⟩ := reported
  rw [headerOf?_complete complete, if_pos kind]

def Justified (history : Trace F) (o : Reply) : Prop :=
  ∀ m, o.packet? = some m → ∀ off, ReportsReceived m off → Processed history off

theorem justified_silent {history : Trace F} {o : Reply}
    (silent : ∀ m, o.packet? = some m → headerOf? .ack m = none) : Justified history o := by
  intro m sent off reported
  have header := reports_header reported
  rw [silent m sent] at header
  cases header

theorem justified_nothing {history : Trace F} {o : Reply} (nothing : o.packet? = none) :
    Justified history o := by
  apply justified_silent
  intro m sent
  rw [nothing] at sent
  cases sent

theorem justified_bare {history : Trace F} {o : Reply} {ty : PacketType}
    (kind : ty = .handshake ∨ ty = .stop) (sent : o.packet? = some (bareHeader ty).encoded) :
    Justified history o := by
  apply justified_silent
  intro m found
  rw [sent, Option.some.injEq] at found
  rw [← found]
  exact headerOf?_bare kind

theorem ack_justified {history : Trace F} {c : Connection F} {order : IterOrder} {o : Reply}
    (truthful : Truthful history c)
    (sent : o.packet? = some (c.ackHeader.encoded ++ ackPayload c order)) :
    Justified history o := by
  intro m found off reported
  rw [sent, Option.some.injEq] at found
  subst found
  obtain ⟨_, _, head, ps, layout, p, mem, offset, flag⟩ := reported
  rw [List.drop_left' (encoded_length _)] at layout
  have written := readPairs_pairs (UInt64.ofNat c.maxAck) (c.pendingPairs order)
  have read := readPairs_pairs head ps
  rw [← layout] at read
  have same := read.symm.trans written
  simp only [Except.ok.injEq, Prod.mk.injEq] at same
  rw [same.2] at mem
  have lookup := pendingPairs_lookup mem
  rw [flag] at lookup
  exact ⟨p.1, offset, truthful.noted p.1 lookup⟩

theorem justified_header {history : Trace F} {o : Reply}
    (sent : ∀ m, o.packet? = some m → ∃ (h : Header) (rest : Bytes) (n : Nat),
      (h.ty = .application ∨ h.ty = .elictAck) ∧ m = (h.encoded ++ rest).take (26 + n)) :
    Justified history o := by
  apply justified_silent
  intro m found
  obtain ⟨h, rest, n, kind, rfl⟩ := sent m found
  have sendable : h.ty ≠ .startAck := by
    rcases kind with kind | kind <;> simp [kind]
  rw [headerOf?_taken sendable]
  rcases kind with kind | kind <;> simp [kind]

variable [Profile] [FloatOps F]

theorem send_truthful {history : Trace F} {c : Connection F} {now : Nat} {order : IterOrder}
    {out : Slice} {s : Sent F} (truthful : Truthful history c) (later : Trace F)
    (sent : SendCase c now order out.bytes s) :
    Truthful (history ++ later) s.conn ∧ Justified history (.sendData s.out s.result) := by
  cases sent with
  | empty _ => exact ⟨truthful_kept truthful later rfl (Or.inl rfl), justified_nothing rfl⟩
  | idle _ => exact ⟨truthful_kept truthful later rfl (Or.inl rfl), justified_nothing rfl⟩
  | handshake completed confirmed due =>
    obtain ⟨stamp, back, conn, outcome⟩ := sendHandshake_effect { c with
      handshakeCompleted := completed
      handshakeConfirmed := confirmed } now out.bytes
    rw [conn]
    refine ⟨truthful_kept truthful later rfl (Or.inl rfl), ?_⟩
    rcases outcome with ⟨e, failed⟩ | puts
    · exact justified_nothing (packetOf_error failed)
    · exact justified_bare (Or.inl rfl) (packetOf_puts puts)
  | elictAck due sent =>
    rcases sendElictAck_effect sent with ⟨_, conn, result, written⟩ | ⟨_, conn, result⟩
    · refine ⟨truthful_kept truthful later (by rw [conn]) (Or.inl (by rw [conn])), ?_⟩
      apply justified_header
      intro m found
      rw [packet?_sendData, result, written, packetOf, Option.some.injEq, List.append_assoc]
        at found
      exact ⟨_, _, _, Or.inr rfl, found.symm⟩
    · exact ⟨truthful_kept truthful later (by rw [conn]) (Or.inl (by rw [conn])),
        justified_nothing (packetOf_error result)⟩
  | ack quiet asked =>
    have running : isStopped { c with recvFlag := false } = false := by
      simp [isStopped, running_of_quiet quiet]
    rcases sendAckPacket_effect _ now order out.bytes running with
      ⟨_, conn, puts⟩ | ⟨_, conn, failed⟩
    · exact ⟨truthful_kept truthful later (by rw [conn]) (Or.inr (by rw [conn])),
        ack_justified (c := { c with recvFlag := false }) ⟨truthful.stored, truthful.noted⟩
          (packetOf_puts puts)⟩
    · exact ⟨truthful_kept truthful later (by rw [conn]) (Or.inl (by rw [conn])),
        justified_nothing (packetOf_error failed)⟩
  | application _ _ sent =>
    have kept := application_kept (sendApplication_cases sent)
    refine ⟨truthful_kept truthful later kept.recvDic (Or.inl kept.recvHashmap), ?_⟩
    cases sendApplication_cases sent with
    | nothing _ _ _ => exact justified_nothing rfl
    | @packet sendBuffer body n off stop priority dic _ _ _ _ _ =>
      apply justified_header
      intro m found
      unfold finishSend at found
      split at found
      · cases found
      · exact ⟨_, _, _, Or.inl rfl, (Option.some.inj found).symm⟩
  | stop _ _ =>
    obtain ⟨conn, outcome⟩ := sendStop_effect c out.bytes
    rw [conn]
    refine ⟨truthful_kept truthful later rfl (Or.inl rfl), ?_⟩
    rcases outcome with ⟨e, failed⟩ | puts
    · exact justified_nothing (packetOf_error failed)
    · exact justified_bare (Or.inr rfl) (packetOf_puts puts)

theorem receive_truthful {history : Trace F} {c c' : Connection F} {now : Nat} {buf : Slice}
    {r : Except Error Nat} (truthful : Truthful history c)
    (handled : RecvCase c now buf.bytes (c', r)) :
    Truthful (history ++ [⟨c, .recvSlice now buf, .recvSlice r, c'⟩]) c' := by
  cases handled with
  | ack _ _ _ acked =>
    obtain ⟨_, _, _, c1, maxOff, recovery, ⟨⟨marks, high, eq⟩, _⟩, same⟩ := processAck_effect acked
    subst eq same
    exact truthful_kept truthful _ rfl (Or.inl rfl)
  | elictAck ws _ _ _ => exact truthful_asked truthful _ rfl rfl
  | application complete kind _ =>
    have arrived : ∀ (o : Reply) (c' : Connection F), dataOf? ⟨c, .recvSlice now buf, o, c'⟩ =
        some (decodeHeader buf.bytes).offset := by
      intro o c'
      simp [dataOf?, headerOf?_complete complete, kind]
    constructor
    · intro w mem
      rcases (AList.mem_insert _).mp mem with new | old
      · subst new
        exact ⟨_, List.mem_append_right _ (List.mem_singleton.mpr rfl), arrived _ _⟩
      · exact received_grows (truthful.stored w old) _
    · intro w found
      exact received_grows (truthful.noted w found) _
  | short _ _ | silent _ _ _ _ | handshakeServer _ _ _ _ | handshakeClient _ _ _ =>
    exact truthful_kept truthful _ rfl (Or.inl rfl)

theorem step_truthful {history : Trace F} {c c' : Connection F} {a : Call} {o : Reply}
    (truthful : Truthful history c) (taken : step c a = .ok (c', o)) :
    Truthful (history ++ [⟨c, a, o, c'⟩]) c' ∧ Justified history o := by
  cases step_cases taken with
  | dataSend done =>
    obtain ⟨⟨_, _, _, _, rfl⟩, _⟩ := dataSend_loaded done
    exact ⟨truthful_kept truthful _ rfl (Or.inl rfl), justified_nothing rfl⟩
  | sendAll done =>
    refine ⟨?_, justified_nothing rfl⟩
    cases sendAll_cases done with
    | drained _ _ => exact truthful_kept truthful _ rfl (Or.inl rfl)
    | wrote _ _ => exact truthful_kept truthful _ rfl (Or.inl rfl)
  | sendData done => exact send_truthful truthful _ (sendData_cases done)
  | recvSlice done =>
    exact ⟨receive_truthful truthful (recvSlice_cases done), justified_nothing rfl⟩
  | write done =>
    cases write_effect done with
    | wrote _ _ => exact ⟨truthful_kept truthful _ rfl (Or.inl rfl), justified_nothing rfl⟩
  | checkLoss done =>
    obtain ⟨ws, _, rfl⟩ := checkLoss_effect done
    exact ⟨truthful_asked truthful _ rfl rfl, justified_nothing rfl⟩
  | read _ | reset | newRtt | setHandshake =>
    exact ⟨truthful_kept truthful _ rfl (Or.inl rfl), justified_nothing rfl⟩

end Client

abbrev System (F : Type) : Type := Joint (Connection F) Bytes

abbrev SystemTrace (F : Type) : Type := List (Transition (System F) (Turn Call) Reply)

/-- The server is only called for `send_all`, `send_data` and `recv_slice`; either party
    receives only what the other has sent. -/
def Delivered (j : System F) : Turn Call → Prop
  | .left (.sendAll _) => True
  | .left (.sendData _ _ out) => 1350 ≤ out.bytes.length
  | .left (.recvSlice _ buf) => buf.bytes ∈ j.toLeft
  | .left _ => False
  | .right (.recvSlice _ buf) => buf.bytes ∈ j.toRight
  | .right _ => True

instance (j : System F) (e : Turn Call) : Decidable (Delivered j e) :=
  match e with
  | .left (.sendAll _) => inferInstanceAs (Decidable True)
  | .left (.sendData _ _ out) => inferInstanceAs (Decidable (1350 ≤ out.bytes.length))
  | .left (.recvSlice _ buf) => inferInstanceAs (Decidable (buf.bytes ∈ j.toLeft))
  | .left (.dataSend _) | .left (.read _) | .left .write | .left .reset
    | .left (.checkLoss _) | .left (.newRtt _) | .left (.setHandshake _) =>
      inferInstanceAs (Decidable False)
  | .right (.recvSlice _ buf) => inferInstanceAs (Decidable (buf.bytes ∈ j.toRight))
  | .right (.dataSend _) | .right (.sendAll _) | .right (.sendData _ _ _) | .right (.read _)
    | .right .write | .right .reset | .right (.checkLoss _) | .right (.newRtt _)
    | .right (.setHandshake _) => inferInstanceAs (Decidable True)

theorem delivered_serverCall (j : System F) (a : Call) (may : Delivered j (.left a)) :
    ServerCall j.left a := by
  cases a <;> first | exact may.elim | trivial

section Server
variable [Octets]

theorem processed_grows {history : SystemTrace F} {o : Nat}
    (known : Processed (rightTrace history) o) (later : SystemTrace F) :
    Processed (rightTrace (history ++ later)) o := by
  obtain ⟨w, same, arrived⟩ := known
  refine ⟨w, same, ?_⟩
  rw [rightTrace, List.filterMap_append]
  exact received_grows arrived _

variable [FloatOps F]

/-- Offset `o` has reached the client, or has been sent as often as its budget allows. -/
def Settled (server : Connection F) (history : SystemTrace F) (o : Nat) : Prop :=
  Processed (rightTrace history) o ∨ ∃ p, server.priorityCalculation o = .ok p ∧
    1 + p.toNat ≤ transmissions o (packets (leftTrace history))

theorem settled_grows {server : Connection F} {history : SystemTrace F} {o : Nat}
    (settled : Settled server history o) (later : SystemTrace F) :
    Settled server (history ++ later) o := by
  rcases settled with known | ⟨p, norm, spent⟩
  · exact Or.inl (processed_grows known later)
  · refine Or.inr ⟨p, norm, ?_⟩
    rw [leftTrace, List.filterMap_append, packets, List.filterMap_append, transmissions_append]
    exact Nat.le_trans spent (Nat.le_add_right _ _)

/-- Every withdrawn mark and every missing chunk is accounted for, and the client and its ACKs
    are true. -/
structure Accounted (server : Connection F) (history : SystemTrace F) (j : System F) : Prop where
  marks : ∀ o, (o, false) ∈ j.left.sendBuffer.offsetRecv.entries → Settled server history o
  queue : ∀ b ∈ appended (leftTrace history),
    b ∈ j.left.sendBuffer.data ∨ Settled server history b.off
  client : Truthful (rightTrace history) j.right
  acks : ∀ m ∈ j.toLeft, ∀ o, ReportsReceived m o → Processed (rightTrace history) o

theorem drained_settled {server : Connection F} {history : SystemTrace F} {j : System F}
    (segmented : Segmented server.sendDataVec (leftTrace history) j.left)
    (accounted : Accounted server history j)
    (all : j.left.sendDataVec.length ≤ j.left.writtenData) (empty : j.left.sendBuffer.data = [])
    {i : Nat} (inside : i < server.sendDataVec.length) :
    ∃ b ∈ appended (leftTrace history), b.off ≤ i ∧ i < b.off + b.data.length ∧
      Settled server history b.off := by
  rw [segmented.stream.data, segmented.stream.written] at all
  obtain ⟨p, piece, low, high⟩ := tiles_cover segmented.tiles (Nat.zero_le i)
    (Nat.lt_of_lt_of_le inside all)
  obtain ⟨b, mem, rfl⟩ := List.mem_map.mp piece
  refine ⟨b, mem, low, high, ?_⟩
  rcases accounted.queue b mem with waiting | settled
  · rw [empty] at waiting
    cases waiting
  · exact settled

variable [Profile]

/-- A server with its data, a fresh client and an empty network. -/
structure Start (j : System F) : Prop where
  loaded : ∃ localaddr peeraddr birth text,
    (Connection.accept localaddr peeraddr birth).dataSend text = .ok j.left
  client : ∃ localaddr peeraddr birth, j.right = Connection.connect localaddr peeraddr birth
  toRight : j.toRight = []
  toLeft : j.toLeft = []

theorem start_session {j : System F} (start : Start j) : Session j.left := by
  obtain ⟨localaddr, peeraddr, birth, text, sent⟩ := start.loaded
  exact ⟨localaddr, peeraddr, birth, [], _, text, .start, sent⟩

theorem step_marks {text : Bytes} {c c' : Connection F} {a : Call} {o : Reply}
    (stream : Stream text c) (may : ServerCall c a) (taken : SenderStep c a o c') :
    ∀ off, (off, false) ∈ c'.sendBuffer.offsetRecv.entries →
      (off, false) ∈ c.sendBuffer.offsetRecv.entries ∨ Withdrawal c a off := by
  intro off mem
  cases taken with
  | kept same _ => exact same.withdrawn off mem
  | dataSend _ => exact may.elim
  | reset => exact may.elim
  | write _ => exact may.elim
  | sendAll passed =>
    obtain ⟨_, _, _, _, standing⟩ := sendAll_grown stream passed
    have mark := standing _ mem
    cases mark
  | query due sent =>
    obtain ⟨_, _, _, conn, _⟩ := sendElictAck_frame sent
    rw [conn] at mem
    exact Or.inl mem
  | application _ _ sent =>
    obtain ⟨_, _, _, _, buffer⟩ := (application_kept sent).buffer
    rw [buffer] at mem
    exact Or.inl mem

theorem run_norms {c0 : Connection F} {trace : Trace F} {c : Connection F}
    (run : Run step ServerCall c0 trace c) :
    ∀ off, c.priorityCalculation off = c0.priorityCalculation off := by
  refine state_invariant (fun c => ∀ off, c.priorityCalculation off = c0.priorityCalculation off)
    (fun _ => rfl) ?_ run
  intro c a o c' same may taken off
  rw [(step_norms may (sender_step taken)).2, same]

theorem start_accounted {j : System F} (start : Start j) : Accounted j.left [] j := by
  obtain ⟨unused, _⟩ := session_unused (start_session start)
  have noMarks : j.left.sendBuffer.offsetRecv.entries = [] := by
    simpa [OrdMap.keys] using unused.marks
  refine ⟨?_, ?_, ?_, ?_⟩
  · simp [noMarks]
  · simp [leftTrace, appended]
  · obtain ⟨localaddr, peeraddr, birth, fresh⟩ := start.client
    rw [fresh]
    constructor
    · simp [Connection.connect, Connection.new]
    · simp [Connection.connect, Connection.new]
  · simp [start.toLeft]

theorem server_accounted {text : Bytes} {server : Connection F} {history : SystemTrace F}
    {j : System F} {a : Call} {c' : Connection F} {o : Reply} {toRight : List Bytes}
    (accounted : Accounted server history j)
    (ledger : Ledger text (packets (leftTrace history)) j.left)
    (norms : ∀ off, j.left.priorityCalculation off = server.priorityCalculation off)
    (may : Delivered j (.left a)) (taken : SenderStep j.left a o c') :
    Accounted server (history ++ [⟨j, .left a, o, { j with left := c', toRight := toRight }⟩])
      { j with left := c', toRight := toRight } := by
  obtain ⟨marks, queue, client, acks⟩ := accounted
  have call := delivered_serverCall j a may
  obtain ⟨kept, added, grown⟩ := step_grown ledger.stream call taken
  refine ⟨?_, ?_, ?_, ?_⟩
  · intro off mem
    apply settled_grows
    rcases step_marks ledger.stream call taken off mem with old | spent | ⟨now, buf, rfl, reported⟩
    · exact marks off old
    · obtain ⟨p, norm, _, cover⟩ := ledger.tally.left off 0 spent
      rw [norms] at norm
      exact Or.inr ⟨p, norm, by omega⟩
    · exact Or.inl (acks buf.bytes may off reported)
  · have more : appended (leftTrace (history ++ [⟨j, .left a, o,
        { j with left := c', toRight := toRight }⟩])) =
          appended (leftTrace history) ++ added := by
      rw [leftTrace_snoc_left, appended, List.flatMap_append, List.flatMap_singleton,
        (grown_parts (t := ⟨j.left, a, o, c'⟩) ledger.stream grown).1]
      rfl
    intro b mem
    rw [more] at mem
    change b ∈ c'.sendBuffer.data ∨ _
    rw [grown.queue]
    rcases List.mem_append.mp mem with old | new
    · rcases queue b old with waiting | settled
      · by_cases still : b ∈ kept
        · exact Or.inl (List.mem_append_left added still)
        · exact Or.inr (settled_grows (marks b.off (grown.dropped b waiting still)) _)
      · exact Or.inr (settled_grows settled _)
    · exact Or.inl (List.mem_append_right kept new)
  · rw [rightTrace_snoc_left]
    exact client
  · rw [rightTrace_snoc_left]
    exact acks

theorem client_accounted {server : Connection F} {history : SystemTrace F} {j : System F}
    {a : Call} {c' : Connection F} {o : Reply} (accounted : Accounted server history j)
    (taken : step j.right a = .ok (c', o)) :
    Accounted server (history ++ [⟨j, .right a, o,
      { j with right := c', toLeft := j.toLeft ++ o.packet?.toList }⟩])
      { j with right := c', toLeft := j.toLeft ++ o.packet?.toList } := by
  obtain ⟨marks, queue, client, acks⟩ := accounted
  obtain ⟨truthful, justified⟩ := step_truthful client taken
  refine ⟨?_, ?_, ?_, ?_⟩
  · intro off mem
    exact settled_grows (marks off mem) _
  · rw [leftTrace_snoc_right]
    intro b mem
    rcases queue b mem with waiting | settled
    · exact Or.inl waiting
    · exact Or.inr (settled_grows settled _)
  · rw [rightTrace_snoc_right]
    exact truthful
  · intro m mem off reported
    apply processed_grows
    rcases List.mem_append.mp mem with old | new
    · exact acks m old off reported
    · exact justified m (Option.mem_toList.mp new) off reported

theorem run_accounted {start j : System F} (fresh : Start start) {trace : SystemTrace F}
    (run : Run (jointStep step Reply.packet?) Delivered start trace j) :
    Accounted start.left trace j := by
  refine run_invariant (Accounted start.left) (start_accounted fresh) ?_ run
  intro trace j e o j' earlier accounted may taken
  cases joint_cases taken with
  | left own =>
    have server := left_run delivered_serverCall earlier
    exact server_accounted accounted (run_ledger (start_session fresh) server) (run_norms server)
      may (sender_step own)
  | right own => exact client_accounted accounted own

/-- No chunk leaves the queue unreceived with budget left, and a finished transfer accounts for
    every byte. -/
theorem no_silent_drop {start j : System F} (fresh : Start start) {trace : SystemTrace F}
    (run : Run (jointStep step Reply.packet?) Delivered start trace j)
    {before after : SystemTrace F} {t : Transition (System F) (Turn Call) Reply}
    (split : trace = before ++ t :: after) :
    (∀ b ∈ t.before.left.sendBuffer.data, b ∉ t.after.left.sendBuffer.data →
      Settled start.left before b.off) ∧
    (∀ now, t.action = .left (.sendAll now) → t.reply = .sendAll (.ok false) →
      ∀ i, i < start.left.sendDataVec.length → ∃ b ∈ appended (leftTrace before),
        b.off ≤ i ∧ i < b.off + b.data.length ∧ Settled start.left before b.off) := by
  subst split
  obtain ⟨j0, e, o, j1⟩ := t
  obtain ⟨earlier, may, taken⟩ := run_split run
  dsimp only at earlier may taken
  have accounted := run_accounted fresh earlier
  have server := left_run delivered_serverCall earlier
  have segmented := run_segmented (start_session fresh) server
  constructor
  · intro b mem gone
    cases joint_cases taken with
    | left own =>
      obtain ⟨kept, added, grown⟩ := step_grown segmented.stream (delivered_serverCall _ _ may)
        (sender_step own)
      apply accounted.marks
      apply grown.dropped b mem
      intro still
      apply gone
      rw [grown.queue]
      exact List.mem_append_left added still
    | right own => exact absurd mem gone
  · intro now action reply i inside
    dsimp only at action reply
    subst action reply
    cases joint_cases taken with
    | left own =>
      cases step_cases own with
      | sendAll done =>
        cases sendAll_cases done with
        | drained all empty => exact drained_settled segmented accounted all empty inside

end Server

def onesBytes (n : Nat) : Bytes := (List.replicate n [0x00, 0x00, 0x80, 0x3f]).flatten

def oneChunkExchange : List (Turn Call) :=
  [.left (.sendAll 1), .left (.sendData 2 storedOrder outBuffer),
    .right (.recvSlice 3 (datagram (bareHeader .handshake) [] (by decide))),
    .right (.sendData 4 storedOrder outBuffer),
    .left (.recvSlice 5 (datagram (bareHeader .handshake) [] (by decide))),
    .left (.sendData 6 storedOrder outBuffer), .left (.sendData 7 storedOrder outBuffer),
    .right (.recvSlice 8 (datagram (applicationHeader 0 3 0 1020) (onesBytes 255)
      (by decide +kernel))),
    .right (.recvSlice 9 (datagram (elictHeader 0 8) (u64Bytes 0) (by decide))),
    .right (.sendData 10 storedOrder outBuffer),
    .left (.recvSlice 11 (datagram (Header.mk .ack 0 0 0 24)
      (u64Bytes 0 ++ u64Bytes 0 ++ u64Bytes 0) (by decide))),
    .left (.sendAll 12), .left (.sendAll 13)]

def finishes (t : Transition (System F) (Turn Call) Reply) : Bool :=
  match t.action, t.reply with
  | .left (.sendAll _), .sendAll (.ok false) => true
  | _, _ => false

theorem finishes_sound {t : Transition (System F) (Turn Call) Reply} (ended : finishes t = true) :
    ∃ now, t.action = .left (.sendAll now) ∧ t.reply = .sendAll (.ok false) := by
  unfold finishes at ended
  split at ended
  · rename_i now action reply
    exact ⟨now, action, reply⟩
  · cases ended

def exchangePasses (text : List Char) (turns : List (Turn Call))
    (test : Connection ℚ → SystemTrace ℚ → System ℚ → Bool) : Bool :=
  match @Connection.dataSend ℚ checkedBuild rationalFloats freshServer text with
  | .ok c => passes (jointStep (@step ℚ referenceOctets checkedBuild rationalFloats) Reply.packet?)
      Delivered ⟨c, freshClient, [], []⟩ turns (test c)
  | .error _ => false

theorem exchange_played {text : List Char} {turns : List (Turn Call)}
    {test : Connection ℚ → SystemTrace ℚ → System ℚ → Bool}
    (passed : exchangePasses text turns test = true) :
    ∃ (start j : System ℚ) (trace : SystemTrace ℚ), @Start ℚ rationalFloats checkedBuild start ∧
      Run (jointStep (@step ℚ referenceOctets checkedBuild rationalFloats) Reply.packet?) Delivered
        start trace j ∧ trace.map (fun t => t.action) = turns ∧ test start.left trace j = true := by
  unfold exchangePasses at passed
  split at passed
  · rename_i c sent
    obtain ⟨trace, j, run, played, outcome⟩ := played_run passed
    have fresh : @Start ℚ rationalFloats checkedBuild ⟨c, freshClient, [], []⟩ :=
      @Start.mk ℚ rationalFloats checkedBuild _ ⟨loopback, loopback, 0, text, sent⟩
        ⟨loopback, loopback, 0, rfl⟩ rfl rfl
    exact ⟨_, j, trace, fresh, run, played, outcome⟩
  · cases passed

theorem last_byte_settled : ∃ (start j : System ℚ) (trace before : SystemTrace ℚ)
    (t : Transition (System ℚ) (Turn Call) Reply) (b : RangeBuf),
    @Start ℚ rationalFloats checkedBuild start ∧
      Run (jointStep (@step ℚ referenceOctets checkedBuild rationalFloats) Reply.packet?) Delivered
        start trace j ∧
      trace.map (fun t => t.action) = oneChunkExchange ∧ trace = before ++ [t] ∧
      t.reply = .sendAll (.ok false) ∧ start.left.sendDataVec.length = 1020 ∧
      b ∈ appended (leftTrace before) ∧ b.off ≤ 1019 ∧ 1019 < b.off + b.data.length ∧
      @Settled ℚ referenceOctets rationalFloats start.left before b.off := by
  have passed : exchangePasses (onesText 255) oneChunkExchange (fun c trace _ =>
      c.sendDataVec.length == 1020 && trace.getLast?.any finishes) = true := by decide +kernel
  obtain ⟨start, j, trace, fresh, run, played, outcome⟩ := exchange_played passed
  simp only [Bool.and_eq_true, beq_iff_eq, Option.any_eq_true] at outcome
  obtain ⟨size, t, last, ended⟩ := outcome
  obtain ⟨before, split⟩ := List.getLast?_eq_some_iff.mp last
  obtain ⟨now, action, reply⟩ := finishes_sound ended
  obtain ⟨_, finished⟩ := @no_silent_drop ℚ referenceOctets rationalFloats checkedBuild start j
    fresh trace run before [] t split
  obtain ⟨b, mem, low, high, settled⟩ := finished now action reply 1019 (by omega)
  exact ⟨start, j, trace, before, t, b, fresh, run, played, split, reply, size, mem, low, high,
    settled⟩

end DmludpNoSilentDrop
