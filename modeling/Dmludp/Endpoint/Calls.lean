import Dmludp.Endpoint.Connection
import Dmludp.Foundation.TracedRun

/- The public calls of an endpoint as one step function, and what an observer of the socket
   sees of a run: the datagrams that `send_data` returned. -/
namespace DmludpCalls
open ByteCursor RustOutcome TracedRun DmludpPacket DmludpConnection DmludpRecovery

inductive Call where
  | dataSend (text : List Char)
  | sendAll (now : Nat)
  | sendData (now : Nat) (order : IterOrder) (out : Slice)
  | recvSlice (now : Nat) (buf : Slice)
  | read (out : Slice)
  | write
  | reset
  | checkLoss (buf : Slice)
  | newRtt (last : Nat)
  | setHandshake (now : Nat)

inductive Reply where
  | nothing
  | sendAll (result : Except Error Bool)
  | sendData (out : Bytes) (result : Except Error (Nat × SendInfo))
  | recvSlice (result : Except Error Nat)
  | read (out : Bytes) (result : Except Error Nat)
  | write (result : Except Error Nat)

variable {F : Type}

section Step
variable [Octets] [Profile] [FloatOps F]

def step (c : Connection F) : Call → Rs (Connection F × Reply)
  | .dataSend text => do
    let c ← c.dataSend text
    return (c, .nothing)
  | .sendAll now => do
    let (c, result) ← c.sendAll now
    return (c, .sendAll result)
  | .sendData now order out => do
    let s ← c.sendData now order out.bytes
    return (s.conn, .sendData s.out s.result)
  | .recvSlice now buf => do
    let (c, result) ← c.recvSlice now buf.bytes
    return (c, .recvSlice result)
  | .read out => do
    let (c, out, result) ← c.read out.bytes
    return (c, .read out result)
  | .write => do
    let (c, result) ← c.write
    return (c, .write result)
  | .reset => .ok (c.reset, .nothing)
  | .checkLoss buf => do
    let c ← c.checkLoss buf.bytes
    return (c, .nothing)
  | .newRtt last => do
    let c ← c.newRtt last
    return (c, .nothing)
  | .setHandshake now => .ok (c.setHandshake now, .nothing)

inductive StepCase (c : Connection F) : Call → Reply → Connection F → Prop where
  | dataSend {text : List Char} {c' : Connection F} (done : c.dataSend text = .ok c') :
      StepCase c (.dataSend text) .nothing c'
  | sendAll {now : Nat} {c' : Connection F} {r : Except Error Bool}
      (done : c.sendAll now = .ok (c', r)) : StepCase c (.sendAll now) (.sendAll r) c'
  | sendData {now : Nat} {order : IterOrder} {out : Slice} {s : Sent F}
      (done : c.sendData now order out.bytes = .ok s) :
      StepCase c (.sendData now order out) (.sendData s.out s.result) s.conn
  | recvSlice {now : Nat} {buf : Slice} {c' : Connection F} {r : Except Error Nat}
      (done : c.recvSlice now buf.bytes = .ok (c', r)) :
      StepCase c (.recvSlice now buf) (.recvSlice r) c'
  | read {out : Slice} {recBuffer : DmludpRecv.RecvBuf} {written : Bytes} {r : Except Error Nat}
      (done : c.recBuffer.emit out.bytes = .ok (recBuffer, written, r)) :
      StepCase c (.read out) (.read written r) { c with recBuffer := recBuffer }
  | write {c' : Connection F} {r : Except Error Nat} (done : c.write = .ok (c', r)) :
      StepCase c .write (.write r) c'
  | reset : StepCase c .reset .nothing c.reset
  | checkLoss {buf : Slice} {c' : Connection F} (done : c.checkLoss buf.bytes = .ok c') :
      StepCase c (.checkLoss buf) .nothing c'
  | newRtt {last : Nat} (fits : 3 * last < durationLimit) :
      StepCase c (.newRtt last) .nothing { c with rtt := c.rtt / 4 + 3 * last / 4 }
  | setHandshake {now : Nat} : StepCase c (.setHandshake now) .nothing (c.setHandshake now)

theorem step_cases {c c' : Connection F} {a : Call} {o : Reply}
    (taken : step c a = .ok (c', o)) : StepCase c a o c' := by
  cases a with
  | dataSend text =>
    obtain ⟨c1, done, same⟩ := bind_ok_iff.mp taken
    cases same
    exact .dataSend done
  | sendAll now =>
    obtain ⟨⟨c1, r⟩, done, same⟩ := bind_ok_iff.mp taken
    cases same
    exact .sendAll done
  | sendData now order out =>
    obtain ⟨s, done, same⟩ := bind_ok_iff.mp taken
    cases same
    exact .sendData done
  | recvSlice now buf =>
    obtain ⟨⟨c1, r⟩, done, same⟩ := bind_ok_iff.mp taken
    cases same
    exact .recvSlice done
  | read out =>
    obtain ⟨⟨c1, written, r⟩, done, same⟩ := bind_ok_iff.mp taken
    obtain ⟨⟨recBuffer, written', r'⟩, emitted, copied⟩ := bind_ok_iff.mp done
    cases same
    cases copied
    exact .read emitted
  | write =>
    obtain ⟨⟨c1, r⟩, done, same⟩ := bind_ok_iff.mp taken
    cases same
    exact .write done
  | checkLoss buf =>
    obtain ⟨c1, done, same⟩ := bind_ok_iff.mp taken
    cases same
    exact .checkLoss done
  | reset =>
    cases taken
    exact .reset
  | newRtt last =>
    obtain ⟨c1, done, same⟩ := bind_ok_iff.mp taken
    cases same
    unfold Connection.newRtt at done
    split at done
    · rename_i fits
      cases done
      exact .newRtt fits
    · cases done
  | setHandshake now =>
    cases taken
    exact .setHandshake

def Reachable (c : Connection F) : Prop :=
  ∃ localaddr peeraddr now isServer trace,
    Run step (fun _ _ => True) (Connection.new localaddr peeraddr now isServer) trace c

end Step

def packetOf (out : Bytes) : Except Error (Nat × SendInfo) → Option Bytes
  | .ok (n, _) => some (out.take n)
  | .error _ => none

def Puts (out : Bytes) (r : Except Error (Nat × SendInfo)) (m : Bytes) : Prop :=
  ∃ info, r = .ok (m.length, info) ∧ out.take m.length = m

theorem packetOf_puts {out m : Bytes} {r : Except Error (Nat × SendInfo)} (puts : Puts out r m) :
    packetOf out r = some m := by
  obtain ⟨info, rfl, front⟩ := puts
  simp [packetOf, front]

theorem packetOf_error {out : Bytes} {r : Except Error (Nat × SendInfo)} {e : Error}
    (failed : r = .error e) : packetOf out r = none := by
  subst failed
  rfl

def Reply.packet? : Reply → Option Bytes
  | .sendData out result => packetOf out result
  | _ => none

@[simp] theorem packet?_sendData (out : Bytes) (r : Except Error (Nat × SendInfo)) :
    (Reply.sendData out r).packet? = packetOf out r := rfl

abbrev Trace (F : Type) : Type := List (Transition (Connection F) Call Reply)

def packets (trace : Trace F) : List Bytes := trace.filterMap (fun t => t.reply.packet?)

theorem packets_snoc (trace : Trace F) (c c' : Connection F) (a : Call) (o : Reply) :
    packets (trace ++ [⟨c, a, o, c'⟩]) = packets trace ++ o.packet?.toList := by
  unfold packets
  rw [List.filterMap_append]
  cases sent : o.packet? <;> simp [sent]

section Wire
variable [Octets]

/-- The header a receiver reads, when the datagram has one of type `ty`. -/
def headerOf? (ty : PacketType) (m : Bytes) : Option Header :=
  match Header.fromSlice m with
  | .ok h => if h.ty = ty then some h else none
  | .error _ => none

theorem headerOf?_complete {buf : Bytes} (complete : 26 ≤ buf.length) (ty : PacketType) :
    headerOf? ty buf = if (decodeHeader buf).ty = ty then some (decodeHeader buf) else none := by
  unfold headerOf?
  rw [fromSlice_eq, if_pos complete]

theorem headerOf?_encoded {h : Header} (sendable : h.ty ≠ .startAck) {ty : PacketType}
    (rest : Bytes) : headerOf? ty (h.encoded ++ rest) = if h.ty = ty then some h else none := by
  unfold headerOf?
  rw [fromSlice_encoded sendable]

theorem headerOf?_taken {h : Header} (sendable : h.ty ≠ .startAck) {ty : PacketType} (rest : Bytes)
    (n : Nat) : headerOf? ty ((h.encoded ++ rest).take (26 + n)) =
      if h.ty = ty then some h else none := by
  rw [List.take_append, encoded_length, List.take_of_length_le (by rw [encoded_length]; omega)]
  exact headerOf?_encoded sendable _

def isApplicationAt (o : Nat) (m : Bytes) : Bool :=
  match headerOf? .application m with
  | some h => h.offset.toNat == o
  | none => false

def transmissions (o : Nat) (ms : List Bytes) : Nat := ms.countP (isApplicationAt o)

end Wire

def Roomy (_ : Connection F) : Call → Prop
  | .sendData _ _ out => 1350 ≤ out.bytes.length
  | _ => True

instance (c : Connection F) (a : Call) : Decidable (Roomy c a) :=
  match a with
  | .sendData _ _ out => inferInstanceAs (Decidable (1350 ≤ out.bytes.length))
  | .dataSend _ | .sendAll _ | .recvSlice _ _ | .read _ | .write | .reset | .checkLoss _
    | .newRtt _ | .setHandshake _ => inferInstanceAs (Decidable True)

end DmludpCalls
