import Dmludp.Foundation.PollLoop
import Dmludp.Guarantees.PacketIntegrity
import Dmludp.Guarantees.SendRetry

/- The loop of the drivers: `send_data` until `Done`. The end of a pass raises `stopFlag`, and from
   then on every call is answered with one more query; the test of `is_stopped` at the end of
   `send_data` is behind the return of the query branch. -/
namespace DmludpFlush
open ByteCursor RustOutcome TracedRun PollLoop DmludpPacket DmludpRange DmludpSend DmludpRecovery
open DmludpConnection DmludpConnection.Connection DmludpCalls DmludpEffects DmludpReceiveEffects
open DmludpSenderSteps DmludpSendAccounting DmludpPacketIntegrity DmludpSendRetry DmludpReference

variable {F : Type}

structure FlushInput where
  now : Nat
  order : IterOrder
  out : Slice
  size : out.bytes.length = 1350

/-- The packets for the buffered chunks, one query for every eight of them, and one more. -/
def packetBound (c : Connection F) : Nat :=
  c.sendBuffer.data.length + (c.sendBuffer.data.length + 7) / 8 + 1

/-- Nothing is under the cursor, nothing was written behind it, and no pass has just ended. -/
def Quiescent (c : Connection F) : Prop :=
  c.stopFlag = false ∧ c.sendBuffer.data.length ≤ c.sendBuffer.pos ∧
    c.writtenData ≤ c.sendBuffer.off

structure Awake (c : Connection F) : Prop where
  server : c.isServer = true
  rtt : c.rtt ≠ 0

theorem awake_settled {c : Connection F} (awake : Awake c) : ¬ HandshakeDue c := by
  rintro (⟨asleep, _⟩ | ⟨_, client⟩)
  · exact awake.rtt asleep
  · rw [awake.server] at client
    cases client

theorem input_filled (i : FlushInput) : i.out.bytes ≠ [] :=
  List.ne_nil_of_length_pos (by rw [i.size]; decide)

def QueryFits (c : Connection F) : Prop := 26 + 8 * (c.sentPkt.drop c.ackPoint).length ≤ 1350

def AckFits (c : Connection F) : Prop := 26 + c.ackSize ≤ 1350

instance (c : Connection F) : Decidable (QueryFits c) := inferInstanceAs (Decidable (_ ≤ _))

instance (c : Connection F) : Decidable (AckFits c) := inferInstanceAs (Decidable (_ ≤ _))

/-- A query and an ACK are both still to be sent, and no chunk is buffered that would let the loop
    take more than one packet. -/
def Crowded (c : Connection F) : Prop :=
  c.sendBuffer.data = [] ∧ (QueryDue c ∧ QueryFits c) ∧ c.recvFlag = true ∧ AckFits c

instance (c : Connection F) : Decidable (Crowded c) := inferInstanceAs (Decidable (_ ∧ _))

def rank (c : Connection F) : Nat :=
  (if QueryDue c then 1 else 0) + (if c.recvFlag = true then 1 else 0)

def packetsDue (c : Connection F) : Nat :=
  (if QueryDue c ∧ QueryFits c then 1 else 0) + (if c.recvFlag = true ∧ AckFits c then 1 else 0)

theorem packetsDue_within_iff (c : Connection F) : packetsDue c ≤ packetBound c ↔ ¬ Crowded c := by
  unfold packetsDue packetBound Crowded
  by_cases empty : c.sendBuffer.data = []
  · rw [empty]
    by_cases query : QueryDue c ∧ QueryFits c
    · by_cases ack : c.recvFlag = true ∧ AckFits c
      · simp [query, ack]
      · simp [query, ack]
    · by_cases ack : c.recvFlag = true ∧ AckFits c
      · simp [query, ack]
      · simp [query, ack]
  · have buffered := List.length_pos_iff.mpr empty
    constructor
    · exact fun _ crowded => empty crowded.1
    · intro _
      split <;> split <;> omega

/-- The states that the loop never leaves: something is to be sent, or a pass has ended and is
    queried for again and again. -/
structure Restless (c : Connection F) : Prop where
  awake : Awake c
  shaped : Shaped c
  accounts : Accounts c
  orderly : Orderly c
  busy : ¬ Quiescent c

section Application
variable [Profile] [FloatOps F]

theorem application_role {c : Connection F} {now : Nat} {out : Bytes} {s : Sent F}
    (sent : AppCase c now out s) : s.conn.isServer = c.isServer ∧ s.conn.rtt = c.rtt := by
  cases sent with
  | nothing _ _ _ => exact ⟨rfl, rfl⟩
  | @packet sendBuffer body n off stop priority dic _ _ _ _ _ =>
    obtain ⟨stamp, conn⟩ := finishSend_conn (transmitted c sendBuffer off stop dic) now
      ((applicationHeader c.pktNumSpaces.1.nextPktNum priority off n).encoded ++ body) n
    rw [conn]
    exact ⟨rfl, rfl⟩

theorem application_restless {c : Connection F} {now : Nat} {out : Bytes} {s : Sent F}
    (restless : Restless c) (running : c.stopFlag = false) (room : 1350 ≤ out.length)
    (sent : AppCase c now out s) : s.result ≠ .error .done ∧ ¬ Quiescent s.conn := by
  obtain ⟨_, _, accounts, orderly, busy⟩ := restless
  have queued : ∀ b ∈ c.sendBuffer.data, SendBuf.Queued b :=
    fun b mem => (accounts.queued b mem).1
  have unasked := orderly_unasked orderly running
  have unfinished : c.sendBuffer.data.length ≤ c.sendBuffer.pos →
      c.sendBuffer.off < c.writtenData := by
    intro beyond
    apply Nat.lt_of_not_le
    intro past
    exact busy ⟨running, beyond, past⟩
  cases sent with
  | nothing _ emitted past =>
    have emit := SendBuf.emit_cases queued emitted
    have beyond := front_inside accounts.toQueue emit past
    have low := SendBuf.emit_front emitted
    rw [SendBuf.offFront_end beyond, Except.ok.injEq] at low
    exact absurd (unfinished beyond) (by omega)
  | @packet sendBuffer body n off stop priority dic _ emitted inside _ _ =>
    have emit := SendBuf.emit_cases queued emitted
    have open_ : isStopped (transmitted c sendBuffer off stop dic) = false := by
      simp [isStopped, transmitted, unasked]
    obtain ⟨stamp, conn⟩ := finishSend_conn (transmitted c sendBuffer off stop dic) now
      ((applicationHeader c.pktNumSpaces.1.nextPktNum priority off n).encoded ++ body) n
    refine ⟨by simp [finishSend, open_], ?_⟩
    rw [conn]
    rintro ⟨goes_on, beyond, past⟩
    simp only [transmitted, running, Bool.false_or] at goes_on beyond past
    cases emit with
    | @chunk b rest len usedLength front _ _ _ =>
      -- The next chunk is under the cursor, or the pass would have ended.
      have here : c.sendBuffer.pos < c.sendBuffer.data.length :=
        List.length_lt_of_drop_ne_nil (by rw [front]; exact List.cons_ne_nil _ _)
      obtain ⟨pos, frame⟩ := SendBuf.settle_frame
        { c.sendBuffer with len := len, usedLength := usedLength, pos := c.sendBuffer.pos + 1 }
        b.data.length
      rcases SendBuf.settle_cases { c.sendBuffer with
          len := len, usedLength := usedLength, pos := c.sendBuffer.pos + 1 }
        b.data.length with ⟨_, ended⟩ | ⟨same, _, midway⟩
      · rw [goes_on] at ended
        cases ended
      · rw [same, frame] at beyond
        dsimp only at beyond midway
        omega
    | cramped front short =>
      rw [List.length_drop] at short
      simp only [sendBufferSize] at short
      omega
    | past none_left =>
      obtain ⟨pos, frame⟩ := SendBuf.settle_frame c.sendBuffer (out.drop 26).length
      rw [frame] at past
      exact absurd (unfinished none_left) (Nat.not_lt.mpr past)

end Application

section Loop
variable [Octets] [Profile] [FloatOps F]

def pollSend (c : Connection F) (i : FlushInput) : Poll (Connection F) :=
  match c.sendData i.now i.order i.out.bytes with
  | .error _ => .failed
  | .ok s =>
    match s.result with
    | .ok _ => .produced s.conn
    | .error .done => .finished
    | .error _ => .refused s.conn

/-- The loop of `flush_egress`: the number of packets until `Done`. Where the driver gives up on any
    other error, this loop goes on, so that only `Done` counts as its end. -/
def flushEgress (fuel : Nat) (inputs : Nat → FlushInput) (c : Connection F) : Option Nat :=
  drain pollSend fuel inputs c

/-- The loop ends within the bound, and a stopped endpoint sends nothing. -/
structure FlushEnds (c : Connection F) : Prop where
  ends : ∀ inputs, ∃ fuel packets, flushEgress fuel inputs c = some packets ∧
    packets ≤ packetBound c
  stopped : c.isStopped = true → ∀ i : FlushInput, ∃ s,
    c.sendData i.now i.order i.out.bytes = .ok s ∧ s.result = .error .done

theorem pollSend_finished_iff {c : Connection F} {i : FlushInput} :
    pollSend c i = .finished ↔
      ∃ s, c.sendData i.now i.order i.out.bytes = .ok s ∧ s.result = .error .done := by
  unfold pollSend
  cases sent : c.sendData i.now i.order i.out.bytes with
  | error p => simp
  | ok s =>
    simp only [Except.ok.injEq, exists_eq_left']
    cases result : s.result with
    | ok r => simp
    | error e => cases e <;> simp

theorem goesOn_sent {c next : Connection F} {i : FlushInput} (polled : GoesOn pollSend c i next) :
    ∃ s, c.sendData i.now i.order i.out.bytes = .ok s ∧ s.conn = next := by
  unfold GoesOn pollSend at polled
  cases sent : c.sendData i.now i.order i.out.bytes with
  | error p => simp [sent] at polled
  | ok s =>
    rw [sent] at polled
    dsimp only at polled
    refine ⟨s, rfl, ?_⟩
    cases result : s.result with
    | ok r => simpa [result] using polled
    | error e =>
      cases e with
      | done => simp [result] at polled
      | _ => simpa [result] using polled

def Served (fits : Prop) (c : Connection F) (i : FlushInput) (next : Connection F) : Prop :=
  (fits ∧ pollSend c i = .produced next) ∨ (¬ fits ∧ pollSend c i = .refused next)

theorem Served.goesOn {fits : Prop} {c next : Connection F} {i : FlushInput}
    (served : Served fits c i next) : GoesOn pollSend c i next := by
  rcases served with ⟨_, produced⟩ | ⟨_, refused⟩
  · exact Or.inl produced
  · exact Or.inr refused

theorem served_produced {fits : Prop} {c : Connection F} {i : FlushInput} {s : Sent F}
    {r : Nat × SendInfo} (room : fits) (sent : c.sendData i.now i.order i.out.bytes = .ok s)
    (result : s.result = .ok r) : Served fits c i s.conn :=
  Or.inl ⟨room, by simp only [pollSend, sent, result]⟩

theorem served_refused {fits : Prop} {c : Connection F} {i : FlushInput} {s : Sent F}
    (cramped : ¬ fits) (sent : c.sendData i.now i.order i.out.bytes = .ok s)
    (result : s.result = .error .bufferTooShort) : Served fits c i s.conn :=
  Or.inr ⟨cramped, by simp only [pollSend, sent, result]⟩

inductive AwakeCase (c : Connection F) (i : FlushInput) : Prop where
  | query {s : Sent F} (due : QueryDue c) (sent : c.sendData i.now i.order i.out.bytes = .ok s)
      (conn : ∃ spaces point stopAck, s.conn = { c with
        sentCount := 0, pktNumSpaces := spaces, ackPoint := point, stopAck := stopAck })
      (served : Served (QueryFits c) c i s.conn) : AwakeCase c i
  | ack {s : Sent F} (quiet : ¬ QueryDue c) (asked : c.recvFlag = true)
      (sent : c.sendData i.now i.order i.out.bytes = .ok s)
      (conn : ∃ back pending stamp, s.conn = { c with
        recvFlag := false, feedBack := back, recvHashmap := pending, handshake := stamp })
      (served : Served (AckFits c) c i s.conn) : AwakeCase c i
  | application (quiet : ¬ QueryDue c) (unasked : c.recvFlag = false)
      (call : c.sendData i.now i.order i.out.bytes = c.sendApplication i.now i.out.bytes) :
      AwakeCase c i

theorem awake_cases {c : Connection F} (awake : Awake c) (shaped : Shaped c) (i : FlushInput) :
    AwakeCase c i := by
  have settled := awake_settled awake
  have filled := input_filled i
  have selected := writePktType_selected c
  generalize chosen : c.writePktType = r at selected
  cases selected with
  | hello asleep server => exact absurd (Or.inl ⟨asleep, server⟩) settled
  | reply unconfirmed client => exact absurd (Or.inr ⟨unconfirmed, client⟩) settled
  | query _ due =>
    have call : c.sendData i.now i.order i.out.bytes =
        sendElictAck { c with sentCount := 0 } i.out.bytes := by
      rw [sendData_filled filled, chosen]
    obtain ⟨s, sent⟩ := sendElictAck_returns (c := { c with sentCount := 0 }) shaped.queried
      (by rw [i.size]; decide : 26 ≤ i.out.bytes.length)
    obtain ⟨spaces, point, stopAck, conn, _⟩ := sendElictAck_frame sent
    have done := call.trans sent
    refine .query due done ⟨spaces, point, stopAck, conn⟩ ?_
    rcases sendElictAck_effect sent with ⟨⟨_, room⟩, _, result, _⟩ | ⟨short, _, result⟩
    · rw [i.size] at room
      exact served_produced room done result
    · rw [i.size] at short
      exact served_refused (Nat.not_le.mpr short) done result
  | ack _ quiet asked =>
    have call : c.sendData i.now i.order i.out.bytes =
        .ok (sendAckPacket { c with recvFlag := false } i.now i.order i.out.bytes) := by
      rw [sendData_filled filled, chosen]
    have running : isStopped { c with recvFlag := false } = false := by
      simp [isStopped, running_of_quiet quiet]
    rcases sendAckPacket_effect { c with recvFlag := false } i.now i.order i.out.bytes running with
      ⟨room, conn, _, result, _⟩ | ⟨short, conn, result⟩
    · rw [i.size] at room
      exact .ack quiet asked call ⟨_, _, _, conn⟩ (served_produced room call result)
    · rw [i.size] at short
      exact .ack quiet asked call ⟨_, _, _, conn⟩
        (served_refused (Nat.not_le.mpr short) call result)
  | application _ quiet unasked _ =>
    exact .application quiet unasked (by rw [sendData_filled filled, chosen])
  | stop _ _ _ asleep _ => exact absurd asleep awake.rtt
  | idle _ _ _ asleep _ => exact absurd asleep awake.rtt

theorem quiescent_done {c : Connection F} {out : Bytes} (quiescent : Quiescent c) (now : Nat)
    (room : 26 ≤ out.length) :
    ∃ s, c.sendApplication now out = .ok s ∧ s.result = .error .done := by
  obtain ⟨_, beyond, past⟩ := quiescent
  unfold sendApplication
  rw [sliceFrom_fits room, ok_bind,
    SendBuf.emit_nothing (SendBuf.offFront_end beyond) (Or.inl beyond), ok_bind]
  dsimp only
  rw [if_pos past]
  exact ⟨_, rfl, rfl⟩

structure Ending (c : Connection F) : Prop where
  awake : Awake c
  shaped : Shaped c
  quiescent : Quiescent c

theorem served_pays {c next : Connection F} {i : FlushInput} {fits : Prop} [Decidable fits]
    (served : Served fits c i next) (kept : Ending next) (lower : rank next < rank c)
    (due : packetsDue c = (if fits then 1 else 0) + packetsDue next) :
    Pays pollSend Ending rank packetsDue c i := by
  rcases served with ⟨room, produced⟩ | ⟨cramped, refused⟩
  · rw [if_pos room] at due
    exact .produced produced kept lower (by omega)
  · rw [if_neg cramped] at due
    exact .refused refused kept lower (by omega)

theorem ending_pays {c : Connection F} (ending : Ending c) (i : FlushInput) :
    Pays pollSend Ending rank packetsDue c i := by
  obtain ⟨awake, shaped, quiescent⟩ := ending
  cases awake_cases awake shaped i with
  | query due sent conn served =>
    have shaped' := step_shaped shaped (sendData_steps (sendData_cases sent))
    obtain ⟨spaces, point, stopAck, conn⟩ := conn
    rw [conn] at shaped' served
    have quiet : ¬ QueryDue { c with
        sentCount := 0, pktNumSpaces := spaces, ackPoint := point, stopAck := stopAck } := by
      simp [QueryDue, quiescent.1]
    refine served_pays served ⟨⟨awake.server, awake.rtt⟩, shaped', quiescent⟩ ?_ ?_
    · unfold rank
      rw [if_pos due, if_neg quiet]
      dsimp only
      omega
    · unfold packetsDue
      simp only [due, quiet, true_and, false_and, if_false, Nat.zero_add]
      rfl
  | ack quiet asked sent conn served =>
    have shaped' := step_shaped shaped (sendData_steps (sendData_cases sent))
    obtain ⟨back, pending, stamp, conn⟩ := conn
    rw [conn] at shaped' served
    have quiet' : ¬ QueryDue { c with
        recvFlag := false, feedBack := back, recvHashmap := pending, handshake := stamp } := quiet
    refine served_pays served ⟨⟨awake.server, awake.rtt⟩, shaped', quiescent⟩ ?_ ?_
    · unfold rank
      rw [if_neg quiet, if_neg quiet', if_pos asked]
      simp
    · unfold packetsDue
      simp only [quiet, quiet', asked, true_and, false_and, if_false, Nat.zero_add,
        Bool.false_eq_true, Nat.add_zero]
  | application quiet unasked call =>
    have room : 26 ≤ i.out.bytes.length := by rw [i.size]; decide
    obtain ⟨s, sent, done⟩ := quiescent_done quiescent i.now room
    refine .finished (pollSend_finished_iff.mpr ⟨s, call.trans sent, done⟩) ?_
    simp [packetsDue, quiet, unasked]

theorem quiescent_sends {c : Connection F} (awake : Awake c) (shaped : Shaped c)
    (quiescent : Quiescent c) (inputs : Nat → FlushInput) :
    ∃ fuel, flushEgress fuel inputs c = some (packetsDue c) :=
  drain_pays Ending rank packetsDue (fun _ i ending => ending_pays ending i) inputs
    ⟨awake, shaped, quiescent⟩

theorem quiescent_ends {c : Connection F} (awake : Awake c) (shaped : Shaped c)
    (quiescent : Quiescent c) (roomy : ¬ Crowded c) : FlushEnds c := by
  constructor
  · intro inputs
    obtain ⟨fuel, drained⟩ := quiescent_sends awake shaped quiescent inputs
    exact ⟨fuel, _, drained, (packetsDue_within_iff c).mpr roomy⟩
  · intro stopped
    simp [isStopped, quiescent.1] at stopped

theorem flushEnds_roomy {c : Connection F} (awake : Awake c) (shaped : Shaped c)
    (quiescent : Quiescent c) (flushes : FlushEnds c) (inputs : Nat → FlushInput) :
    ¬ Crowded c := by
  obtain ⟨fuel, packets, drained, few⟩ := flushes.ends inputs
  obtain ⟨fuel', drained'⟩ := quiescent_sends awake shaped quiescent inputs
  have counted := drain_unique drained drained'
  exact (packetsDue_within_iff c).mp (by omega)

theorem restless_unfinished {c : Connection F} (restless : Restless c) (i : FlushInput) :
    pollSend c i ≠ .finished := by
  intro finished
  obtain ⟨s, sent, done⟩ := pollSend_finished_iff.mp finished
  cases awake_cases restless.awake restless.shaped i with
  | query _ _ _ served | ack _ _ _ _ served =>
    rcases served with ⟨_, polled⟩ | ⟨_, polled⟩
    · rw [finished] at polled
      cases polled
    · rw [finished] at polled
      cases polled
  | application quiet _ call =>
    rw [call] at sent
    exact (application_restless restless (running_of_quiet quiet) (Nat.le_of_eq i.size.symm)
      (sendApplication_cases sent)).1 done

theorem restless_kept {c next : Connection F} {i : FlushInput} (restless : Restless c)
    (polled : GoesOn pollSend c i next) : Restless next := by
  obtain ⟨s, sent, rfl⟩ := goesOn_sent polled
  have moved := sendData_steps (sendData_cases sent)
  have shaped := step_shaped restless.shaped moved
  have accounts := step_accounts restless.accounts (fun same => by cases same) moved
  have orderly := step_orderly restless.orderly moved
  suffices rest : Awake s.conn ∧ ¬ Quiescent s.conn from
    ⟨rest.1, shaped, accounts, orderly, rest.2⟩
  cases awake_cases restless.awake restless.shaped i with
  | query _ sent' conn _ =>
    rw [sent, Except.ok.injEq] at sent'
    subst sent'
    obtain ⟨spaces, point, stopAck, conn⟩ := conn
    rw [conn]
    exact ⟨⟨restless.awake.server, restless.awake.rtt⟩, restless.busy⟩
  | ack _ _ sent' conn _ =>
    rw [sent, Except.ok.injEq] at sent'
    subst sent'
    obtain ⟨back, pending, stamp, conn⟩ := conn
    rw [conn]
    exact ⟨⟨restless.awake.server, restless.awake.rtt⟩, restless.busy⟩
  | application quiet _ call =>
    rw [call] at sent
    have app := sendApplication_cases sent
    obtain ⟨side, rtt⟩ := application_role app
    exact ⟨⟨side.trans restless.awake.server, fun asleep => restless.awake.rtt (rtt ▸ asleep)⟩,
      (application_restless restless (running_of_quiet quiet) (Nat.le_of_eq i.size.symm) app).2⟩

theorem restless_forever {c : Connection F} (restless : Restless c) (fuel : Nat)
    (inputs : Nat → FlushInput) : flushEgress fuel inputs c = none :=
  drain_never Restless (fun _ i here => restless_unfinished here i)
    (fun _ _ _ here polled => restless_kept here polled) fuel inputs restless

end Loop

def steadyInput : FlushInput :=
  ⟨0, storedOrder, outBuffer, by simp [outBuffer, zeros, -List.reduceReplicate]⟩

section Runs
variable [Octets] [Profile] [FloatOps F]

theorem flushEnds_restful {c : Connection F} (flushes : FlushEnds c) : ¬ Restless c := by
  intro restless
  obtain ⟨fuel, packets, drained, _⟩ := flushes.ends (fun _ => steadyInput)
  rw [restless_forever restless] at drained
  cases drained

theorem run_accounts {localaddr peeraddr : SocketAddr} {birth : Nat} {isServer : Bool}
    {trace : Trace F} {c : Connection F}
    (run : Run step (fun _ _ => True) (Connection.new localaddr peeraddr birth isServer) trace c)
    (indirect : ∀ t ∈ trace, t.action ≠ .write) : Accounts c := by
  refine run_invariant (fun trace c => (∀ t ∈ trace, t.action ≠ .write) → Accounts c)
    (fun _ => fresh_accounts localaddr peeraddr birth isServer) ?_ run indirect
  intro trace s a o s' _ before _ taken indirect
  have earlier := before (fun t mem => indirect t (List.mem_append_left _ mem))
  have here := indirect ⟨s, a, o, s'⟩ (List.mem_append_right trace List.mem_cons_self)
  exact step_accounts earlier here (sender_step taken)

theorem step_side {c c' : Connection F} {a : Call} {o : Reply} (moved : SenderStep c a o c') :
    c'.isServer = c.isServer := by
  cases moved with
  | kept same _ => exact same.isServer
  | dataSend loaded =>
    obtain ⟨⟨_, _, _, _, rfl⟩, _⟩ := loaded
    rfl
  | reset => rfl
  | write wrote =>
    cases wrote with
    | wrote _ _ => rfl
  | sendAll passed =>
    cases passed with
    | drained _ _ => rfl
    | wrote _ _ => rfl
  | query _ sent =>
    obtain ⟨_, _, _, conn, _⟩ := sendElictAck_frame sent
    rw [conn]
  | application _ _ sent => exact (application_role sent).1

theorem run_orderly {localaddr peeraddr : SocketAddr} {birth : Nat} {isServer : Bool}
    {trace : Trace F} {c : Connection F}
    (run : Run step (fun _ _ => True) (Connection.new localaddr peeraddr birth isServer) trace c) :
    Orderly c := by
  refine state_invariant Orderly ?_ (fun _ _ _ _ orderly _ taken =>
    step_orderly orderly (sender_step taken)) run
  simp [Orderly, Connection.new]

end Runs

instance (c : Connection F) : Decidable (Quiescent c) :=
  inferInstanceAs (Decidable (_ ∧ _))

end DmludpFlush
