import Dmludp.Endpoint.ReceiveEffects
import Dmludp.Endpoint.ReferenceInstance

/- The client's answers. What an ACK must say is defined on the history of the run alone, newest
   call first; the invariant ties the four fields the client keeps to that history. -/
namespace DmludpAckAnswers
open ByteCursor RustOutcome TracedRun DmludpPacket DmludpSend DmludpRecovery DmludpConnection
open DmludpConnection.Connection DmludpCalls DmludpEffects DmludpReceiveEffects DmludpReference

variable {F : Type}

/-- Deliveries of complete Handshake, Application and ElictAck datagrams, and `send_data` with
    any buffer. -/
def ClientCall (_ : Connection F) : Call → Prop
  | .recvSlice _ buf => 26 ≤ buf.bytes.length ∧ ((decodeHeader buf.bytes).ty = .handshake ∨
      (decodeHeader buf.bytes).ty = .application ∨ (decodeHeader buf.bytes).ty = .elictAck)
  | .sendData _ _ _ => True
  | _ => False

instance (c : Connection F) (a : Call) : Decidable (ClientCall c a) :=
  match a with
  | .recvSlice _ buf => inferInstanceAs (Decidable (26 ≤ buf.bytes.length ∧
      ((decodeHeader buf.bytes).ty = .handshake ∨ (decodeHeader buf.bytes).ty = .application ∨
        (decodeHeader buf.bytes).ty = .elictAck)))
  | .sendData _ _ _ => inferInstanceAs (Decidable True)
  | .dataSend _ | .sendAll _ | .read _ | .write | .reset | .checkLoss _ | .newRtt _
    | .setHandshake _ => inferInstanceAs (Decidable False)

section History
variable [Octets]

def queryOf? (t : Transition (Connection F) Call Reply) : Option (Header × List UInt64) :=
  match t.action with
  | .recvSlice _ buf =>
    match headerOf? .elictAck buf.bytes, readOffsets (buf.bytes.drop 26) with
    | some h, .ok ws => some (h, ws)
    | _, _ => none
  | _ => none

def dataOf? (t : Transition (Connection F) Call Reply) : Option UInt64 :=
  match t.action with
  | .recvSlice _ buf => (headerOf? .application buf.bytes).map Header.offset
  | _ => none

def ackOf? (t : Transition (Connection F) Call Reply) : Option Header :=
  match t.reply.packet? with
  | some m => headerOf? .ack m
  | none => none

def named (t : Transition (Connection F) Call Reply) : List UInt64 :=
  match queryOf? t with
  | some (_, ws) => ws
  | none => []

def asked : Trace F → List UInt64
  | [] => []
  | t :: older => if (ackOf? t).isSome then [] else named t ++ asked older

def latestQuery : Trace F → Option UInt64
  | [] => none
  | t :: older =>
    if (ackOf? t).isSome then none
    else match queryOf? t with
      | some (h, _) => some h.pktNum
      | none => latestQuery older

def received (o : UInt64) (history : Trace F) : Prop := ∃ t ∈ history, dataOf? t = some o

/-- Offset `o` had been received by the time of the latest query that names it. -/
def answered (o : UInt64) : Trace F → Prop
  | [] => False
  | t :: older => if o ∈ named t then received o older else answered o older

theorem answered_received {o : UInt64} {history : Trace F} (known : answered o history) :
    received o history := by
  induction history with
  | nil => exact known.elim
  | cons t older ih =>
    unfold answered at known
    have grow : received o older → received o (t :: older) := by
      intro found
      obtain ⟨u, mem, eq⟩ := found
      exact ⟨u, List.mem_cons_of_mem t mem, eq⟩
    split at known
    · exact grow known
    · exact grow (ih known)

end History

theorem lookup_answerAll (dic : HashMap UInt64 UInt8) (ws : List UInt64)
    (pending : HashMap UInt64 UInt64) (o : UInt64) :
    (answerAll dic pending ws).lookup o =
      if o ∈ ws then some (answer dic o) else pending.lookup o := by
  induction ws generalizing pending with
  | nil => simp [answerAll]
  | cons w ws ih =>
    have tail := ih (pending.insert w (answer dic w))
    have unfolded : answerAll dic pending (w :: ws) =
      answerAll dic (pending.insert w (answer dic w)) ws := rfl
    rw [unfolded, tail]
    by_cases later : o ∈ ws
    · simp [later]
    · by_cases here : o = w
      · subst here
        simp [later]
      · simp [later, here, AList.lookup_insert_ne]

/-- The fields the client answers from, tied to the history. -/
structure Pending [Octets] (history : Trace F) (c : Connection F) : Prop where
  client : c.isServer = false
  asleep : c.rtt = 0
  uncounted : c.sentCount = 0
  running : c.stopFlag = false
  keys : ∀ o, o ∈ c.recvHashmap ↔ o ∈ asked history
  values : ∀ o v, c.recvHashmap.lookup o = some v →
    (v = 0 ∧ answered o history) ∨ (v = 1 ∧ ¬ answered o history)
  number : ∀ n, latestQuery history = some n → c.sendNum = n
  flag : c.recvFlag = true → (latestQuery history).isSome = true
  known : ∀ o, o ∈ c.recvDic ↔ received o history

theorem pendingPairs_keys (c : Connection F) (order : IterOrder) :
    ((c.pendingPairs order).map Prod.fst).Perm c.recvHashmap.keys := by
  have shuffled := (order.perm (c.recvHashmap.entries.map (fun e => (e.1, e.2)))).map Prod.fst
  rw [List.map_map] at shuffled
  exact shuffled

theorem pendingPairs_lookup {c : Connection F} {order : IterOrder} {p : UInt64 × UInt64}
    (mem : p ∈ c.pendingPairs order) : c.recvHashmap.lookup p.1 = some p.2 := by
  have inside := (order.perm _).mem_iff.mp mem
  obtain ⟨e, stored, same⟩ := List.mem_map.mp inside
  subst same
  exact AList.mem_lookup_iff.mpr stored

section Steps
variable [Octets]

theorem pending_other {history : Trace F} {c c' : Connection F} {a : Call} {o : Reply}
    (pending : Pending history c) (noAck : ackOf? (⟨c, a, o, c'⟩ : Transition _ _ _) = none)
    (noQuery : queryOf? (⟨c, a, o, c'⟩ : Transition _ _ _) = none)
    (noData : dataOf? (⟨c, a, o, c'⟩ : Transition _ _ _) = none)
    (isServer : c'.isServer = c.isServer) (rtt : c'.rtt = c.rtt)
    (sentCount : c'.sentCount = c.sentCount) (stopFlag : c'.stopFlag = c.stopFlag)
    (recvHashmap : c'.recvHashmap = c.recvHashmap) (sendNum : c'.sendNum = c.sendNum)
    (recvDic : c'.recvDic = c.recvDic) (recvFlag : c'.recvFlag = true → c.recvFlag = true) :
    Pending (⟨c, a, o, c'⟩ :: history) c' := by
  have nothing : named (⟨c, a, o, c'⟩ : Transition _ _ _) = [] := by simp [named, noQuery]
  obtain ⟨client, asleep, uncounted, running, keys, values, number, flag, known⟩ := pending
  refine ⟨isServer.trans client, rtt.trans asleep, sentCount.trans uncounted,
    stopFlag.trans running, ?_, ?_, ?_, ?_, ?_⟩
  · simpa [asked, noAck, nothing, recvHashmap] using keys
  · simpa [answered, nothing, recvHashmap] using values
  · simpa [latestQuery, noAck, noQuery, sendNum] using number
  · intro set
    simpa [latestQuery, noAck, noQuery] using flag (recvFlag set)
  · simpa [received, noData, recvDic] using known

theorem pending_query {history : Trace F} {c : Connection F} {now count : Nat} {buf : Slice}
    {r : Except Error Nat} {ws : List UInt64} (pending : Pending history c)
    (complete : 26 ≤ buf.bytes.length) (kind : (decodeHeader buf.bytes).ty = .elictAck)
    (listed : buf.bytes.drop 26 = ws.flatMap u64Bytes) {c' : Connection F}
    (handled : c' = { c with
      recvCount := count
      recvFlag := true
      sendNum := (decodeHeader buf.bytes).pktNum
      recvHashmap := answerAll c.recvDic c.recvHashmap ws
      feedBack := true }) :
    Pending (⟨c, .recvSlice now buf, .recvSlice r, c'⟩ :: history) c' := by
  have query : queryOf? (⟨c, .recvSlice now buf, .recvSlice r, c'⟩ : Transition _ _ _) =
      some (decodeHeader buf.bytes, ws) := by
    simp [queryOf?, headerOf?_complete complete, kind, listed, readOffsets_words]
  have noData : dataOf? (⟨c, .recvSlice now buf, .recvSlice r, c'⟩ : Transition _ _ _) = none := by
    simp [dataOf?, headerOf?_complete complete, kind]
  have noAck : ackOf? (⟨c, .recvSlice now buf, .recvSlice r, c'⟩ : Transition _ _ _) = none := rfl
  have names : named (⟨c, .recvSlice now buf, .recvSlice r, c'⟩ : Transition _ _ _) = ws := by
    simp [named, query]
  obtain ⟨client, asleep, uncounted, running, keys, values, number, flag, known⟩ := pending
  have answers : ∀ o, c'.recvHashmap.lookup o =
      if o ∈ ws then some (answer c.recvDic o) else c.recvHashmap.lookup o := by
    intro o
    rw [handled]
    exact lookup_answerAll c.recvDic ws c.recvHashmap o
  subst handled
  refine ⟨client, asleep, uncounted, running, ?_, ?_, ?_, ?_, ?_⟩
  · intro o
    rw [← AList.lookup_isSome, answers o]
    by_cases here : o ∈ ws
    · simp [here, asked, noAck, names]
    · simp [here, asked, noAck, names, keys, AList.lookup_isSome]
  · intro o v found
    rw [answers o] at found
    by_cases here : o ∈ ws
    · simp only [here, ↓reduceIte, Option.some.injEq] at found
      simp only [answered, names, here, ↓reduceIte]
      rw [← known o, ← found]
      by_cases old : o ∈ c.recvDic
      · exact Or.inl ⟨by simp [answer, old], old⟩
      · exact Or.inr ⟨by simp [answer, old], old⟩
    · simp only [here, ↓reduceIte] at found
      simpa [answered, names, here] using values o v found
  · intro n latest
    simp only [latestQuery, noAck, query, Option.isSome_none, Bool.false_eq_true, ↓reduceIte,
      Option.some.injEq] at latest
    exact latest
  · intro _
    simp [latestQuery, noAck, query]
  · intro o
    simpa [received, noData] using known o

theorem pending_data {history : Trace F} {c : Connection F} {now count : Nat} {buf : Slice}
    {r : Except Error Nat} {recBuffer : DmludpRecv.RecvBuf} (pending : Pending history c)
    (complete : 26 ≤ buf.bytes.length) (kind : (decodeHeader buf.bytes).ty = .application)
    {c' : Connection F} (handled : c' = { c with
      recvCount := count
      recBuffer := recBuffer
      recvDic := c.recvDic.insert (decodeHeader buf.bytes).offset
        (decodeHeader buf.bytes).priority }) :
    Pending (⟨c, .recvSlice now buf, .recvSlice r, c'⟩ :: history) c' := by
  have noQuery : queryOf? (⟨c, .recvSlice now buf, .recvSlice r, c'⟩ : Transition _ _ _) = none := by
    simp [queryOf?, headerOf?_complete complete, kind]
  have data : dataOf? (⟨c, .recvSlice now buf, .recvSlice r, c'⟩ : Transition _ _ _) =
      some (decodeHeader buf.bytes).offset := by
    simp [dataOf?, headerOf?_complete complete, kind]
  have noAck : ackOf? (⟨c, .recvSlice now buf, .recvSlice r, c'⟩ : Transition _ _ _) = none := rfl
  have nothing : named (⟨c, .recvSlice now buf, .recvSlice r, c'⟩ : Transition _ _ _) = [] := by
    simp [named, noQuery]
  obtain ⟨client, asleep, uncounted, running, keys, values, number, flag, known⟩ := pending
  subst handled
  refine ⟨client, asleep, uncounted, running, ?_, ?_, ?_, ?_, ?_⟩
  · simpa [asked, noAck, nothing] using keys
  · simpa [answered, nothing] using values
  · simpa [latestQuery, noAck, noQuery] using number
  · intro set
    simpa [latestQuery, noAck, noQuery] using flag set
  · intro o
    rw [AList.mem_insert, known o]
    simp [received, data, eq_comm]

theorem pending_ack {history : Trace F} {c c' : Connection F} {now stamp : Nat} {order : IterOrder}
    {out : Slice} {written : Bytes} {r : Except Error (Nat × SendInfo)} {h : Header} {rest : Bytes}
    (pending : Pending history c) (kind : h.ty = .ack)
    (sent : packetOf written r = some (h.encoded ++ rest)) (handled : c' = { c with
      recvFlag := false
      feedBack := false
      recvHashmap := ∅
      handshake := stamp }) :
    Pending (⟨c, .sendData now order out, .sendData written r, c'⟩ :: history) c' := by
  have ack : ackOf? (⟨c, .sendData now order out, .sendData written r, c'⟩ : Transition _ _ _) =
      some h := by
    simp [ackOf?, sent, headerOf?_encoded (h := h) (by simp [kind]), kind]
  obtain ⟨client, asleep, uncounted, running, keys, values, number, flag, known⟩ := pending
  subst handled
  refine ⟨client, asleep, uncounted, running, ?_, ?_, ?_, ?_, ?_⟩
  · intro o
    simp [asked, ack]
  · intro o v found
    simp at found
  · intro n latest
    simp [latestQuery, ack] at latest
  · intro set
    cases set
  · simpa [received, dataOf?] using known

theorem ackOf?_none {c c' : Connection F} {a : Call} {o : Reply} (silent : o.packet? = none) :
    ackOf? (⟨c, a, o, c'⟩ : Transition _ _ _) = none := by
  simp [ackOf?, silent]

theorem headerOf?_bare {ty : PacketType} (kind : ty = .handshake ∨ ty = .stop) :
    headerOf? .ack (bareHeader ty).encoded = none := by
  have sendable : (bareHeader ty).ty ≠ .startAck := by
    rcases kind with rfl | rfl <;> simp [bareHeader]
  rw [← List.append_nil (bareHeader ty).encoded, headerOf?_encoded sendable]
  rcases kind with rfl | rfl <;> simp [bareHeader]

theorem ackOf?_bare {c c' : Connection F} {a : Call} {o : Reply} {ty : PacketType}
    (kind : ty = .handshake ∨ ty = .stop) (sent : o.packet? = some (bareHeader ty).encoded) :
    ackOf? (⟨c, a, o, c'⟩ : Transition _ _ _) = none := by
  simp [ackOf?, sent, headerOf?_bare kind]

theorem fresh_pending [FloatOps F] (localaddr peeraddr : SocketAddr) (birth : Nat) :
    Pending [] (Connection.connect localaddr peeraddr birth : Connection F) := by
  refine ⟨rfl, rfl, rfl, rfl, ?_, ?_, ?_, ?_, ?_⟩
  · simp [Connection.connect, Connection.new, asked]
  · simp [Connection.connect, Connection.new]
  · simp [latestQuery]
  · simp [Connection.connect, Connection.new]
  · simp [Connection.connect, Connection.new, received]

theorem pending_calm {history : Trace F} {c : Connection F} (pending : Pending history c) :
    ¬ QueryDue c := by
  intro due
  rcases due with ⟨_, positive⟩ | stopped
  · rw [pending.uncounted] at positive
    omega
  · rw [pending.running] at stopped
    cases stopped

variable [Profile] [FloatOps F]

theorem ack_sent {history : Trace F} {c : Connection F} {now : Nat} {order : IterOrder}
    {out : Slice} {s : Sent F} (pending : Pending history c)
    (sent : SendCase c now order out.bytes s) {m : Bytes} {h : Header}
    (packet : packetOf s.out s.result = some m) (kind : headerOf? .ack m = some h) :
    c.recvFlag = true ∧ h = c.ackHeader ∧ m = c.ackHeader.encoded ++ ackPayload c order := by
  have bare : ∀ ty, ty = .handshake ∨ ty = .stop → m ≠ (bareHeader ty).encoded := by
    intro ty which same
    rw [same, headerOf?_bare which] at kind
    cases kind
  cases sent with
  | empty _ => cases packet
  | idle _ => cases packet
  | handshake completed confirmed due =>
    obtain ⟨_, _, _, ⟨e, failed⟩ | puts⟩ := sendHandshake_effect { c with
      handshakeCompleted := completed
      handshakeConfirmed := confirmed } now out.bytes
    · rw [packetOf_error failed] at packet
      cases packet
    · rw [packetOf_puts puts, Option.some.injEq] at packet
      exact absurd packet.symm (bare _ (Or.inl rfl))
  | elictAck due _ => exact absurd due (pending_calm pending)
  | ack quiet asked =>
    have running : isStopped { c with recvFlag := false } = false := by
      simp [isStopped, running_of_quiet quiet]
    rcases sendAckPacket_effect _ now order out.bytes running with
      ⟨_, _, puts⟩ | ⟨_, _, failed⟩
    · rw [packetOf_puts puts, Option.some.injEq] at packet
      subst packet
      rw [headerOf?_encoded (by simp [ackHeader])] at kind
      exact ⟨asked, (Option.some.inj kind).symm, rfl⟩
    · rw [packetOf_error failed] at packet
      cases packet
  | application _ awake _ => exact absurd pending.asleep awake
  | stop _ _ =>
    obtain ⟨_, ⟨e, failed⟩ | puts⟩ := sendStop_effect c out.bytes
    · rw [packetOf_error failed] at packet
      cases packet
    · rw [packetOf_puts puts, Option.some.injEq] at packet
      exact absurd packet.symm (bare _ (Or.inr rfl))

theorem send_pending {history : Trace F} {c : Connection F} {now : Nat} {order : IterOrder}
    {out : Slice} {s : Sent F} (pending : Pending history c)
    (sent : SendCase c now order out.bytes s) :
    Pending (⟨c, .sendData now order out, .sendData s.out s.result, s.conn⟩ :: history) s.conn := by
  cases sent with
  | empty _ =>
    exact pending_other pending (ackOf?_none rfl) rfl rfl rfl rfl rfl rfl rfl rfl rfl id
  | idle _ =>
    exact pending_other pending (ackOf?_none rfl) rfl rfl rfl rfl rfl rfl rfl rfl rfl id
  | handshake completed confirmed due =>
    obtain ⟨stamp, back, conn, outcome⟩ := sendHandshake_effect { c with
      handshakeCompleted := completed
      handshakeConfirmed := confirmed } now out.bytes
    rw [conn]
    refine pending_other pending ?_ rfl rfl rfl rfl rfl rfl rfl rfl rfl id
    rcases outcome with ⟨e, failed⟩ | puts
    · exact ackOf?_none (packetOf_error failed)
    · exact ackOf?_bare (Or.inl rfl) (packetOf_puts puts)
  | elictAck due _ => exact absurd due (pending_calm pending)
  | ack quiet asked =>
    have running : isStopped { c with recvFlag := false } = false := by
      simp [isStopped, running_of_quiet quiet]
    rcases sendAckPacket_effect _ now order out.bytes running with
      ⟨_, conn, puts⟩ | ⟨_, conn, failed⟩
    · exact pending_ack pending rfl (packetOf_puts puts) conn
    · rw [conn]
      exact pending_other pending (ackOf?_none (packetOf_error failed)) rfl rfl rfl rfl rfl rfl rfl
        rfl rfl (fun set => by cases set)
  | application _ awake _ => exact absurd pending.asleep awake
  | stop _ _ =>
    obtain ⟨conn, outcome⟩ := sendStop_effect c out.bytes
    rw [conn]
    refine pending_other pending ?_ rfl rfl rfl rfl rfl rfl rfl rfl rfl id
    rcases outcome with ⟨e, failed⟩ | puts
    · exact ackOf?_none (packetOf_error failed)
    · exact ackOf?_bare (Or.inr rfl) (packetOf_puts puts)

theorem receive_pending {history : Trace F} {c c' : Connection F} {now : Nat} {buf : Slice}
    {r : Except Error Nat} (pending : Pending history c) (may : ClientCall c (.recvSlice now buf))
    (handled : RecvCase c now buf.bytes (c', r)) :
    Pending (⟨c, .recvSlice now buf, .recvSlice r, c'⟩ :: history) c' := by
  obtain ⟨complete, kinds⟩ := may
  cases handled with
  | short _ incomplete => omega
  | silent _ _ kind _ =>
    rcases kinds with handshake | data | query
    · exact absurd handshake kind.2.2
    · exact absurd data kind.1
    · exact absurd query kind.2.1
  | handshakeServer _ _ _ server =>
    rw [pending.client] at server
    cases server
  | handshakeClient _ kind _ =>
    exact pending_other pending (ackOf?_none rfl)
      (by simp [queryOf?, headerOf?_complete complete, kind])
      (by simp [dataOf?, headerOf?_complete complete, kind]) rfl rfl rfl rfl rfl rfl rfl id
  | ack _ _ server _ =>
    rw [pending.client] at server
    cases server
  | elictAck ws _ kind listed => exact pending_query pending complete kind listed rfl
  | application _ kind _ => exact pending_data pending complete kind rfl

theorem run_pending {localaddr peeraddr : SocketAddr} {birth : Nat} {trace : Trace F}
    {c : Connection F}
    (run : Run step ClientCall (Connection.connect localaddr peeraddr birth) trace c) :
    Pending trace.reverse c := by
  refine run_invariant (fun trace c => Pending trace.reverse c) (fresh_pending _ _ _) ?_ run
  intro trace s a o s' _ pending may taken
  rw [List.reverse_append]
  cases step_cases taken with
  | sendData done => exact send_pending pending (sendData_cases done)
  | recvSlice done => exact receive_pending pending may (recvSlice_cases done)
  | dataSend _ | sendAll _ | read _ | write _ | reset | checkLoss _ | newRtt | setHandshake =>
    exact may.elim

theorem acks_answer_pending_queries (localaddr peeraddr : SocketAddr) (birth : Nat)
    {trace : Trace F} {c : Connection F}
    (run : Run step ClientCall (Connection.connect localaddr peeraddr birth) trace c)
    {before after : Trace F} {t : Transition (Connection F) Call Reply}
    (split : trace = before ++ t :: after) {m : Bytes} {h : Header}
    (sent : t.reply.packet? = some m) (kind : headerOf? .ack m = some h) :
    ∃ (maxAck : UInt64) (ps : List (UInt64 × UInt64)),
      m = h.encoded ++ (u64Bytes maxAck ++ ps.flatMap pairBytes) ∧
      (ps.map Prod.fst).Nodup ∧ (∀ o, o ∈ ps.map Prod.fst ↔ o ∈ asked before.reverse) ∧
      latestQuery before.reverse = some h.pktNum ∧
      ∀ p ∈ ps, (p.2 = 0 ∨ p.2 = 1) ∧ (p.2 = 0 ↔ answered p.1 before.reverse) ∧
        (p.2 = 0 → received p.1 before.reverse) := by
  rw [split] at run
  obtain ⟨earlier, may, taken⟩ := run_split run
  have pending := run_pending earlier
  obtain ⟨c0, a, o, c1⟩ := t
  dsimp only at may taken pending sent
  cases step_cases taken with
  | @sendData now order out s done =>
    obtain ⟨asked_, rfl, rfl⟩ := ack_sent pending (sendData_cases done) sent kind
    have keys := pendingPairs_keys c0 order
    refine ⟨_, c0.pendingPairs order, rfl, keys.nodup_iff.mpr (AList.keys_nodup _), ?_, ?_, ?_⟩
    · intro o
      rw [keys.mem_iff]
      exact pending.keys o
    · obtain ⟨n, latest⟩ := Option.isSome_iff_exists.mp (pending.flag asked_)
      rw [latest, ← pending.number n latest]
      rfl
    · intro p mem
      rcases pending.values p.1 p.2 (pendingPairs_lookup mem) with ⟨zero, yes⟩ | ⟨one, no⟩
      · exact ⟨Or.inl zero, ⟨fun _ => yes, fun _ => zero⟩, fun _ => answered_received yes⟩
      · have nonzero : p.2 ≠ 0 := by
          rw [one]
          decide
        exact ⟨Or.inr one, ⟨fun zero => absurd zero nonzero, fun yes => absurd yes no⟩,
          fun zero => absurd zero nonzero⟩
  | recvSlice _ => cases sent
  | dataSend _ | sendAll _ | read _ | write _ | reset | checkLoss _ | newRtt | setHandshake =>
    exact may.elim

end Steps

def dataDatagram (o : UInt64) : Slice :=
  ⟨(applicationHeader 0 3 o.toNat 1).encoded ++ [7], by simp [isizeMax]⟩

def queryDatagram : Slice :=
  ⟨(elictHeader 5 16).encoded ++ [0, 1024].flatMap u64Bytes, by simp [isizeMax]⟩

def answeredQuery : List Call :=
  [.recvSlice 1 (dataDatagram 0), .recvSlice 2 queryDatagram, .sendData 3 storedOrder outBuffer]

theorem one_ack_answers : ∃ (trace before : Trace ℚ) (c : Connection ℚ)
    (t : Transition (Connection ℚ) Call Reply) (m : Bytes) (h : Header)
    (ps : List (UInt64 × UInt64)),
    Run (@step ℚ referenceOctets checkedBuild rationalFloats) ClientCall freshClient trace c ∧
      trace.map (fun t => t.action) = answeredQuery ∧ trace = before ++ [t] ∧
      t.reply.packet? = some m ∧ @headerOf? referenceOctets .ack m = some h ∧
      @latestQuery ℚ referenceOctets before.reverse = some h.pktNum ∧
      (∀ o, o ∈ ps.map Prod.fst ↔ o ∈ @asked ℚ referenceOctets before.reverse) ∧
      ∀ p ∈ ps, p.2 = 0 ↔ @answered ℚ referenceOctets p.1 before.reverse := by
  have passed : passes (@step ℚ referenceOctets checkedBuild rationalFloats) ClientCall freshClient
      answeredQuery (fun trace _ => (trace.getLast?.bind (@ackOf? ℚ referenceOctets)).isSome) =
        true := by
    decide +kernel
  obtain ⟨trace, c, run, played, outcome⟩ := played_run passed
  obtain ⟨h, found⟩ := Option.isSome_iff_exists.mp outcome
  obtain ⟨t, last, ack⟩ := Option.bind_eq_some_iff.mp found
  obtain ⟨before, whole⟩ := List.getLast?_eq_some_iff.mp last
  unfold ackOf? at ack
  split at ack
  · rename_i m sent
    obtain ⟨_, ps, _, _, names, latest, flags⟩ := @acks_answer_pending_queries ℚ referenceOctets
      checkedBuild rationalFloats loopback loopback 0 trace c run before [] t whole m h sent ack
    exact ⟨trace, before, c, t, m, h, ps, run, played, whole, sent, ack, latest, names,
      fun p mem => (flags p mem).2.1⟩
  · cases ack

end DmludpAckAnswers
