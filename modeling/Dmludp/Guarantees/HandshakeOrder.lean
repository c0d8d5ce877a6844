import Dmludp.Foundation.EventOrder
import Dmludp.Guarantees.PeerSafety

/- The order of a session. Three flags gate what either side may send: the server's round-trip time,
   the client's unconfirmed handshake and its flag for a pending query. Each is raised only by a
   datagram of the other side, so that whatever is sent has a chain of events behind it. -/
namespace DmludpHandshakeOrder
open ByteCursor RustOutcome TracedRun EventOrder LossyNetwork DmludpPacket DmludpRecovery
open DmludpConnection DmludpConnection.Connection DmludpCalls DmludpEffects DmludpReceiveEffects
open DmludpSenderSteps DmludpReceiverSteps DmludpSegmentation DmludpNoSilentDrop DmludpWireChunks
open DmludpPeerSafety DmludpReference

variable {F : Type}

section Events
variable [Octets]

def Delivers (ty : PacketType) (a : Call) : Prop :=
  ∃ now buf, a = .recvSlice now buf ∧ (headerOf? ty buf.bytes).isSome = true

def Sends (ty : PacketType) (o : Reply) : Prop :=
  ∃ m, o.packet? = some m ∧ (headerOf? ty m).isSome = true

def ServerSends (ty : PacketType) (t : Transition (System F) (Turn Call) Reply) : Prop :=
  (∃ a, t.action = .left a) ∧ Sends ty t.reply

def ServerHears (ty : PacketType) (t : Transition (System F) (Turn Call) Reply) : Prop :=
  ∃ a, t.action = .left a ∧ Delivers ty a

def ClientSends (ty : PacketType) (t : Transition (System F) (Turn Call) Reply) : Prop :=
  (∃ a, t.action = .right a) ∧ Sends ty t.reply

def ClientHears (ty : PacketType) (t : Transition (System F) (Turn Call) Reply) : Prop :=
  ∃ a, t.action = .right a ∧ Delivers ty a

/-- The handshake: the server says hello, the client answers, the server has heard the answer. -/
def handshakeEvents : List (Transition (System F) (Turn Call) Reply → Prop) :=
  [ServerSends .handshake, ClientHears .handshake, ClientSends .handshake, ServerHears .handshake]

def queryEvents : List (Transition (System F) (Turn Call) Reply → Prop) :=
  handshakeEvents ++ [ServerSends .elictAck, ClientHears .elictAck]

theorem delivers_complete {ty : PacketType} {now : Nat} {buf : Slice}
    (complete : 26 ≤ buf.bytes.length) (kind : (decodeHeader buf.bytes).ty = ty) :
    Delivers ty (.recvSlice now buf) :=
  ⟨now, buf, rfl, by rw [headerOf?_complete complete, if_pos kind]; rfl⟩

structure Gates (c : Connection F) (a : Call) (c' : Connection F) : Prop where
  rtt : c'.rtt ≠ 0 → c.rtt ≠ 0 ∨ (∃ last, a = .newRtt last) ∨ Delivers .handshake a
  unconfirmed : c.isServer = false → c'.handshakeConfirmed = false →
    c.handshakeConfirmed = false ∨ Delivers .handshake a
  asked : c'.recvFlag = true → c.recvFlag = true ∨ Delivers .elictAck a

theorem gates_same {c c' : Connection F} {a : Call} (rtt : c'.rtt = c.rtt)
    (confirmed : c'.handshakeConfirmed = c.handshakeConfirmed)
    (recvFlag : c'.recvFlag = c.recvFlag) : Gates c a c' := by
  refine ⟨?_, ?_, ?_⟩
  · rw [rtt]
    exact Or.inl
  · rw [confirmed]
    exact fun _ => Or.inl
  · rw [recvFlag]
    exact Or.inl

theorem sends_header {written rest : Bytes} {r : Except Error (Nat × SendInfo)} {ty : PacketType}
    {h : Header} {n : Nat} (sent : packetOf written r = some ((h.encoded ++ rest).take (26 + n)))
    (sends : Sends ty (.sendData written r)) (sendable : h.ty ≠ .startAck) : h.ty = ty := by
  obtain ⟨m, found, kind⟩ := sends
  rw [packet?_sendData, sent, Option.some.injEq] at found
  rw [← found, headerOf?_taken sendable] at kind
  split at kind
  · assumption
  · cases kind

theorem sends_bare {written : Bytes} {r : Except Error (Nat × SendInfo)} {ty kind : PacketType}
    (sent : packetOf written r = some (bareHeader kind).encoded)
    (sends : Sends ty (.sendData written r)) (bare : kind = .handshake ∨ kind = .stop) :
    kind = ty := by
  have sendable : (bareHeader kind).ty ≠ .startAck := by
    rcases bare with rfl | rfl <;> simp [bareHeader]
  have whole : ((bareHeader kind).encoded ++ []).take (26 + 0) = (bareHeader kind).encoded :=
    List.take_left' (encoded_length _)
  exact sends_header (sent.trans (congrArg some whole.symm)) sends sendable

theorem sends_nothing {written : Bytes} {r : Except Error (Nat × SendInfo)} {ty : PacketType}
    (silent : packetOf written r = none) (sends : Sends ty (.sendData written r)) : False := by
  obtain ⟨m, found, _⟩ := sends
  rw [packet?_sendData, silent] at found
  cases found

theorem ack_asked [Profile] {c c' : Connection F} {a : Call} {o : Reply}
    (taken : ReceiverStep c a o c') (sends : Sends .ack o) : c.recvFlag = true := by
  obtain ⟨m, found, kind⟩ := sends
  cases taken with
  | kept _ silent _ =>
    rw [silent m found] at kind
    cases kind
  | answered asked _ _ _ _ => exact asked
  | stored _ _ _ _ _ _ | queried _ _ _ _ _ _ | checked _ | read _ => cases found

end Events

section Steps
variable [Octets] [Profile] [FloatOps F]

theorem recvSlice_gates {c c' : Connection F} {now : Nat} {buf : Slice} {r : Except Error Nat}
    (handled : RecvCase c now buf.bytes (c', r)) : Gates c (.recvSlice now buf) c' := by
  cases handled with
  | handshakeServer rtt complete kind _ =>
    exact ⟨fun _ => Or.inr (Or.inr (delivers_complete complete kind)), fun _ => Or.inl, Or.inl⟩
  | handshakeClient complete kind _ =>
    exact ⟨Or.inl, fun _ _ => Or.inr (delivers_complete complete kind), Or.inl⟩
  | elictAck _ complete kind _ =>
    exact ⟨Or.inl, fun _ => Or.inl, fun _ => Or.inr (delivers_complete complete kind)⟩
  | ack _ _ _ acked =>
    obtain ⟨_, _, _, _, _, _, ⟨⟨_, _, eq⟩, _⟩, same⟩ := processAck_effect acked
    subst eq same
    exact gates_same rfl rfl rfl
  | short _ _ | silent _ _ _ _ | application _ _ _ => exact gates_same rfl rfl rfl

theorem sendData_gates {c : Connection F} {now : Nat} {order : IterOrder} {out : Slice} {s : Sent F}
    (sent : SendCase c now order out.bytes s) : Gates c (.sendData now order out) s.conn := by
  cases sent with
  | empty _ => exact gates_same rfl rfl rfl
  | idle _ => exact gates_same rfl rfl rfl
  | handshake completed confirmed due =>
    obtain ⟨_, _, conn, _⟩ := sendHandshake_effect { c with
      handshakeCompleted := completed
      handshakeConfirmed := confirmed } now out.bytes
    rw [conn]
    refine ⟨Or.inl, fun client _ => ?_, Or.inl⟩
    rcases due with ⟨_, server⟩ | ⟨unconfirmed, _⟩
    · rw [client] at server
      cases server
    · exact Or.inl unconfirmed
  | elictAck _ sent =>
    obtain ⟨_, _, _, conn, _⟩ := sendElictAck_frame sent
    rw [conn]
    exact gates_same rfl rfl rfl
  | ack quiet asked =>
    have running : isStopped { c with recvFlag := false } = false := by
      simp [isStopped, running_of_quiet quiet]
    rcases sendAckPacket_effect _ now order out.bytes running with ⟨_, conn, _⟩ | ⟨_, conn, _⟩
    · rw [conn]
      exact ⟨Or.inl, fun _ => Or.inl, fun _ => Or.inl asked⟩
    · rw [conn]
      exact ⟨Or.inl, fun _ => Or.inl, fun _ => Or.inl asked⟩
  | application _ _ sent =>
    cases sendApplication_cases sent with
    | nothing _ _ _ => exact gates_same rfl rfl rfl
    | @packet sendBuffer body n off stop priority dic _ _ _ _ _ =>
      obtain ⟨stamp, conn⟩ := finishSend_conn (transmitted c sendBuffer off stop dic) now
        ((applicationHeader c.pktNumSpaces.1.nextPktNum priority off n).encoded ++ body) n
      rw [conn]
      exact gates_same rfl rfl rfl
  | stop _ _ =>
    rw [(sendStop_effect c out.bytes).1]
    exact gates_same rfl rfl rfl

theorem step_gates {c c' : Connection F} {a : Call} {o : Reply}
    (taken : step c a = .ok (c', o)) : Gates c a c' := by
  cases step_cases taken with
  | dataSend done =>
    obtain ⟨⟨_, _, _, _, rfl⟩, _⟩ := dataSend_loaded done
    exact gates_same rfl rfl rfl
  | sendAll done =>
    cases sendAll_cases done with
    | drained _ _ => exact gates_same rfl rfl rfl
    | wrote _ _ => exact gates_same rfl rfl rfl
  | sendData done => exact sendData_gates (sendData_cases done)
  | recvSlice done => exact recvSlice_gates (recvSlice_cases done)
  | write done =>
    cases write_effect done with
    | wrote _ _ => exact gates_same rfl rfl rfl
  | checkLoss done =>
    obtain ⟨_, _, rfl⟩ := checkLoss_effect done
    exact gates_same rfl rfl rfl
  | newRtt _ => exact ⟨fun _ => Or.inr (Or.inl ⟨_, rfl⟩), fun _ => Or.inl, Or.inl⟩
  | read _ | reset | setHandshake => exact gates_same rfl rfl rfl

theorem asleep_sends {c : Connection F} {now : Nat} {order : IterOrder} {out : Slice} {s : Sent F}
    {ty : PacketType} (server : c.isServer = true) (asleep : c.rtt = 0)
    (done : c.sendData now order out.bytes = .ok s) (sends : Sends ty (.sendData s.out s.result)) :
    ty = .handshake := by
  have selected : c.writePktType = ({ c with handshakeCompleted := true }, .ok .handshake) :=
    if_pos ⟨asleep, server⟩
  unfold sendData at done
  split at done
  · cases done
    exact (sends_nothing rfl sends).elim
  · rw [selected] at done
    cases done
    obtain ⟨_, _, _, ⟨e, failed⟩ | puts⟩ := sendHandshake_effect
      { c with handshakeCompleted := true } now out.bytes
    · exact (sends_nothing (packetOf_error failed) sends).elim
    · exact (sends_bare (packetOf_puts puts) sends (Or.inl rfl)).symm

theorem hello_due {c : Connection F} {now : Nat} {order : IterOrder} {out : Slice} {s : Sent F}
    (sent : SendCase c now order out.bytes s) (sends : Sends .handshake (.sendData s.out s.result)) :
    HandshakeDue c := by
  cases sent with
  | empty _ => exact (sends_nothing rfl sends).elim
  | idle _ => exact (sends_nothing rfl sends).elim
  | handshake _ _ due => exact due
  | elictAck _ sent =>
    rcases sendElictAck_effect sent with ⟨_, _, result, written⟩ | ⟨_, _, result⟩
    · rw [List.append_assoc] at written
      have packet : packetOf s.out s.result =
          some (s.out.take (26 + querySize { c with sentCount := 0 })) := by
        rw [result]
        rfl
      rw [written] at packet sends
      cases sends_header packet sends (by simp [elictHeader])
    · exact (sends_nothing (packetOf_error result) sends).elim
  | ack quiet _ =>
    have running : isStopped { c with recvFlag := false } = false := by
      simp [isStopped, running_of_quiet quiet]
    rcases sendAckPacket_effect _ now order out.bytes running with ⟨_, _, puts⟩ | ⟨_, _, failed⟩
    · obtain ⟨m, found, kind⟩ := sends
      rw [packet?_sendData, packetOf_puts puts, Option.some.injEq] at found
      rw [← found, headerOf?_encoded (by simp [ackHeader])] at kind
      cases kind
    · exact (sends_nothing (packetOf_error failed) sends).elim
  | application _ _ sent =>
    cases sendApplication_cases sent with
    | nothing _ _ _ => exact (sends_nothing rfl sends).elim
    | @packet sendBuffer body n off stop priority dic _ _ _ _ _ =>
      unfold finishSend at sends
      split at sends
      · exact (sends_nothing rfl sends).elim
      · cases sends_header rfl sends (by simp [applicationHeader])
  | stop _ _ =>
    obtain ⟨_, ⟨e, failed⟩ | puts⟩ := sendStop_effect c out.bytes
    · exact (sends_nothing (packetOf_error failed) sends).elim
    · cases sends_bare (packetOf_puts puts) sends (Or.inr rfl)

theorem server_sends_awake {c c' : Connection F} {a : Call} {o : Reply} {ty : PacketType}
    (server : c.isServer = true) (taken : step c a = .ok (c', o)) (sends : Sends ty o)
    (kind : ty ≠ .handshake) : c.rtt ≠ 0 := by
  intro asleep
  cases step_cases taken with
  | sendData done => exact kind (asleep_sends server asleep done sends)
  | dataSend _ | sendAll _ | recvSlice _ | read _ | write _ | reset | checkLoss _ | newRtt
    | setHandshake =>
    obtain ⟨m, found, _⟩ := sends
    cases found

theorem client_hello_due {c c' : Connection F} {a : Call} {o : Reply} (client : c.isServer = false)
    (taken : step c a = .ok (c', o)) (sends : Sends .handshake o) : c.handshakeConfirmed = false := by
  cases step_cases taken with
  | sendData done =>
    rcases hello_due (sendData_cases done) sends with ⟨_, server⟩ | ⟨unconfirmed, _⟩
    · rw [client] at server
      cases server
    · exact unconfirmed
  | dataSend _ | sendAll _ | recvSlice _ | read _ | write _ | reset | checkLoss _ | newRtt
    | setHandshake =>
    obtain ⟨m, found, _⟩ := sends
    cases found

end Steps

section Runs
variable [Octets]

/-- Every raised flag and every datagram under way has its events behind it. -/
structure Ordered (history : SystemTrace F) (j : System F) : Prop where
  hello : ∀ m ∈ j.toRight, (headerOf? .handshake m).isSome = true →
    Happened (handshakeEvents.take 1) history
  unconfirmed : j.right.handshakeConfirmed = false → Happened (handshakeEvents.take 2) history
  reply : ∀ m ∈ j.toLeft, (headerOf? .handshake m).isSome = true →
    Happened (handshakeEvents.take 3) history
  awake : j.left.rtt ≠ 0 → Happened handshakeEvents history
  query : ∀ m ∈ j.toRight, (headerOf? .elictAck m).isSome = true →
    Happened (queryEvents.take 5) history
  asked : j.right.recvFlag = true → Happened queryEvents history

variable [FloatOps F] [Profile]

theorem server_ordered {history : SystemTrace F} {j : System F} {a : Call} {c' : Connection F}
    {o : Reply} (ordered : Ordered history j) (server : j.left.isServer = true)
    (may : Delivered j (.left a)) (taken : step j.left a = .ok (c', o)) :
    Ordered (history ++ [⟨j, .left a, o, { j with
      left := c'
      toRight := j.toRight ++ o.packet?.toList }⟩]) { j with
        left := c'
        toRight := j.toRight ++ o.packet?.toList } := by
  obtain ⟨hello, unconfirmed, reply, awake, query, asked⟩ := ordered
  have gates := step_gates taken
  refine ⟨?_, ?_, ?_, ?_, ?_, ?_⟩
  · intro m mem kind
    rcases List.mem_append.mp mem with old | new
    · exact happened_grows (hello m old kind) _
    · exact happened_snoc (happened_nil history) ⟨⟨a, rfl⟩, m, Option.mem_toList.mp new, kind⟩
  · exact fun flag => happened_grows (unconfirmed flag) _
  · exact fun m mem kind => happened_grows (reply m mem kind) _
  · intro raised
    rcases gates.rtt raised with before | ⟨last, rfl⟩ | ⟨now, buf, rfl, kind⟩
    · exact happened_grows (awake before) _
    · exact may.elim
    · exact happened_snoc (reply buf.bytes may kind) ⟨_, rfl, now, buf, rfl, kind⟩
  · intro m mem kind
    rcases List.mem_append.mp mem with old | new
    · exact happened_grows (query m old kind) _
    · have sends : Sends .elictAck o := ⟨m, Option.mem_toList.mp new, kind⟩
      have ready := awake (server_sends_awake server taken sends (by simp))
      exact happened_snoc ready ⟨⟨a, rfl⟩, sends⟩
  · exact fun flag => happened_grows (asked flag) _

theorem client_ordered {history : SystemTrace F} {j : System F} {a : Call} {c' : Connection F}
    {o : Reply} (ordered : Ordered history j) (client : j.right.isServer = false)
    (may : Delivered j (.right a)) (taken : step j.right a = .ok (c', o)) :
    Ordered (history ++ [⟨j, .right a, o, { j with
      right := c'
      toLeft := j.toLeft ++ o.packet?.toList }⟩]) { j with
        right := c'
        toLeft := j.toLeft ++ o.packet?.toList } := by
  obtain ⟨hello, unconfirmed, reply, awake, query, asked⟩ := ordered
  have gates := step_gates taken
  refine ⟨?_, ?_, ?_, ?_, ?_, ?_⟩
  · exact fun m mem kind => happened_grows (hello m mem kind) _
  · intro lowered
    rcases gates.unconfirmed client lowered with before | ⟨now, buf, rfl, kind⟩
    · exact happened_grows (unconfirmed before) _
    · exact happened_snoc (hello buf.bytes may kind) ⟨_, rfl, now, buf, rfl, kind⟩
  · intro m mem kind
    rcases List.mem_append.mp mem with old | new
    · exact happened_grows (reply m old kind) _
    · have sends : Sends .handshake o := ⟨m, Option.mem_toList.mp new, kind⟩
      exact happened_snoc (unconfirmed (client_hello_due client taken sends)) ⟨⟨a, rfl⟩, sends⟩
  · exact fun raised => happened_grows (awake raised) _
  · exact fun m mem kind => happened_grows (query m mem kind) _
  · intro raised
    rcases gates.asked raised with before | ⟨now, buf, rfl, kind⟩
    · exact happened_grows (asked before) _
    · exact happened_snoc (query buf.bytes may kind) ⟨_, rfl, now, buf, rfl, kind⟩

theorem run_ordered {start j : System F} (fresh : Start start) {trace : SystemTrace F}
    (run : Run (jointStep step Reply.packet?) Delivered start trace j) : Ordered trace j := by
  refine run_invariant Ordered ?_ ?_ run
  · obtain ⟨_, _, _, _, sent⟩ := fresh.loaded
    obtain ⟨_, _, _, client⟩ := fresh.client
    obtain ⟨⟨_, _, _, _, loaded⟩, _⟩ := dataSend_loaded sent
    refine ⟨?_, ?_, ?_, ?_, ?_, ?_⟩
    · simp [fresh.toRight]
    · simp [client, Connection.connect, Connection.new]
    · simp [fresh.toLeft]
    · simp [loaded, Connection.accept, Connection.new]
    · simp [fresh.toRight]
    · simp [client, Connection.connect, Connection.new]
  · intro trace j e o j' earlier ordered may taken
    obtain ⟨server, client⟩ := run_sides fresh earlier
    cases joint_cases taken with
    | left own => exact server_ordered ordered server may own
    | right own => exact client_ordered ordered client may own

/-- Data and queries follow a whole handshake, and an ACK follows the arrival of a query; nothing
    that the network loses, doubles or holds back lets either side run ahead. -/
theorem handshake_before_data {start j : System F} (fresh : Start start) {trace : SystemTrace F}
    (run : Run (jointStep step Reply.packet?) Delivered start trace j)
    {before after : SystemTrace F} {t : Transition (System F) (Turn Call) Reply}
    (split : trace = before ++ t :: after) :
    (ServerSends .application t ∨ ServerSends .elictAck t → Happened handshakeEvents before) ∧
    (ClientSends .handshake t → Happened (handshakeEvents.take 2) before) ∧
    (ClientSends .ack t → Happened queryEvents before) := by
  subst split
  obtain ⟨j0, e, o, j1⟩ := t
  obtain ⟨earlier, may, taken⟩ := run_split run
  dsimp only at earlier may taken
  have ordered := run_ordered fresh earlier
  obtain ⟨server, client⟩ := run_sides fresh earlier
  refine ⟨?_, ?_, ?_⟩
  · intro sends
    have some_kind : ∃ a ty, e = .left a ∧ Sends ty o ∧ ty ≠ .handshake := by
      rcases sends with ⟨⟨a, rfl⟩, sends⟩ | ⟨⟨a, rfl⟩, sends⟩
      · exact ⟨a, _, rfl, sends, by simp⟩
      · exact ⟨a, _, rfl, sends, by simp⟩
    obtain ⟨a, ty, rfl, shown, kind⟩ := some_kind
    cases joint_cases taken with
    | left own => exact ordered.awake (server_sends_awake server own shown kind)
  · rintro ⟨⟨a, action⟩, sends⟩
    dsimp only at action
    subst action
    cases joint_cases taken with
    | right own => exact ordered.unconfirmed (client_hello_due client own sends)
  · rintro ⟨⟨a, action⟩, sends⟩
    dsimp only at action
    subst action
    cases joint_cases taken with
    | right own => exact ordered.asked (ack_asked (receiver_step own) sends)

end Runs

def clientSends (ty : PacketType) (t : Transition (System F) (Turn Call) Reply) : Bool :=
  match t.action with
  | .right _ => t.reply.packet?.any (fun m => (@headerOf? referenceOctets ty m).isSome)
  | .left _ => false

theorem clientSends_sound {ty : PacketType} {t : Transition (System F) (Turn Call) Reply}
    (sends : clientSends ty t = true) : @ClientSends F referenceOctets ty t := by
  unfold clientSends at sends
  split at sends
  · rename_i a action
    obtain ⟨m, found, kind⟩ := (Option.any_eq_true _ _).mp sends
    exact ⟨⟨a, action⟩, m, found, kind⟩
  · cases sends

theorem exchange_ack_in_order : ∃ (start j : System ℚ) (trace before : SystemTrace ℚ)
    (t : Transition (System ℚ) (Turn Call) Reply), @Start ℚ rationalFloats checkedBuild start ∧
      Run (jointStep (@step ℚ referenceOctets checkedBuild rationalFloats) Reply.packet?) Delivered
        start trace j ∧
      trace.map (fun t => t.action) = oneChunkExchange.take 10 ∧ trace = before ++ [t] ∧
      @ClientSends ℚ referenceOctets .ack t ∧
      Happened (@queryEvents ℚ referenceOctets) before := by
  have passed : exchangePasses (onesText 255) (oneChunkExchange.take 10) (fun _ trace _ =>
      trace.getLast?.any (clientSends .ack)) = true := by decide +kernel
  obtain ⟨start, j, trace, fresh, run, played, outcome⟩ := exchange_played passed
  obtain ⟨t, last, sends⟩ := (Option.any_eq_true _ _).mp outcome
  obtain ⟨before, split⟩ := List.getLast?_eq_some_iff.mp last
  obtain ⟨_, _, acks⟩ := @handshake_before_data ℚ referenceOctets rationalFloats checkedBuild
    start j fresh trace run before [] t split
  exact ⟨start, j, trace, before, t, fresh, run, played, split, clientSends_sound sends,
    acks (clientSends_sound sends)⟩

end DmludpHandshakeOrder
