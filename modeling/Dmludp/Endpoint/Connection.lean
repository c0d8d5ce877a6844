import Dmludp.Recovery.WindowControl
import Dmludp.Stream.ReceiveBuffer
import Dmludp.Stream.SendBuffer
import Mathlib.Data.List.AList
import Mathlib.Data.List.Sort

/- One endpoint. Time is an input of the calls that read the clock, as nanoseconds; the
   iteration order of a hash map is an input of the one call that iterates. Hash maps are
   association lists with unique keys; packet and byte counters are Nat. -/
namespace DmludpConnection
open ByteCursor RustOutcome DmludpPacket DmludpRange DmludpSend DmludpRecv DmludpRecovery

abbrev HashMap (K V : Type) : Type := AList (fun _ : K => V)

inductive IpAddr where
  | v4 : UInt32 → IpAddr
  | v6 : BitVec 128 → IpAddr
  deriving DecidableEq, Repr

structure SocketAddr where
  ip : IpAddr
  port : UInt16
  deriving DecidableEq, Repr

structure SendInfo where
  fromAddr : SocketAddr
  toAddr : SocketAddr
  deriving DecidableEq, Repr

structure PktNumSpace where
  nextPktNum : Nat
  deriving DecidableEq, Repr

/-- An order in which a hash map may hand out its entries. -/
structure IterOrder where
  arrange : List (UInt64 × UInt64) → List (UInt64 × UInt64)
  perm : ∀ l, (arrange l).Perm l

def elictFlag : Nat := 8

def minClientInitialLen : Nat := 1350

structure Connection (F : Type) where
  recvCount : Nat
  sentCount : Nat
  isServer : Bool
  handshakeCompleted : Bool
  handshakeConfirmed : Bool
  server : Bool
  localaddr : SocketAddr
  peeraddr : SocketAddr
  recovery : Recovery
  pktNumSpaces : PktNumSpace × PktNumSpace
  rtt : Nat
  handshake : Nat
  sendBuffer : SendBuf
  recBuffer : RecvBuf
  writtenData : Nat
  stopFlag : Bool
  stopAck : Bool
  sentPkt : List UInt64
  recvDic : HashMap UInt64 UInt8
  lowSplitPoint : F
  highSplitPoint : F
  sendDataVec : Bytes
  norm2Vec : List F
  totalOffset : Nat
  recvFlag : Bool
  recvHashmap : HashMap UInt64 UInt64
  feedBack : Bool
  ackPoint : Nat
  maxOff : UInt64
  sendNum : UInt64
  highPriority : Nat
  sentNumber : Nat
  sentDic : HashMap Nat Nat

structure Sent (F : Type) where
  conn : Connection F
  out : Bytes
  result : Except Error (Nat × SendInfo)

namespace Connection
variable {F : Type}

section Setup
variable [Profile] [FloatOps F]

def new (localaddr peeraddr : SocketAddr) (now : Nat) (isServer : Bool) : Connection F where
  recvCount := 0
  sentCount := 0
  isServer := isServer
  handshakeCompleted := false
  handshakeConfirmed := true
  server := isServer
  localaddr := localaddr
  peeraddr := peeraddr
  recovery := Recovery.new
  pktNumSpaces := (⟨0⟩, ⟨0⟩)
  rtt := 0
  handshake := now
  sendBuffer := SendBuf.new (minClientInitialLen * 8)
  recBuffer := RecvBuf.new
  writtenData := 0
  stopFlag := false
  stopAck := false
  sentPkt := []
  recvDic := ∅
  lowSplitPoint := FloatOps.lit32 0 1
  highSplitPoint := FloatOps.lit32 0 1
  sendDataVec := []
  norm2Vec := []
  totalOffset := 0
  recvFlag := false
  recvHashmap := ∅
  feedBack := false
  ackPoint := 0
  maxOff := 0
  sendNum := 0
  highPriority := 0
  sentNumber := 0
  sentDic := ∅

def accept (localaddr peeraddr : SocketAddr) (now : Nat) : Connection F :=
  new localaddr peeraddr now true

def connect (localaddr peeraddr : SocketAddr) (now : Nat) : Connection F :=
  new localaddr peeraddr now false

def storeFloats (c : Connection F) (norm2Tmp : List F) (norm2 : F) (it : Int) :
    List (List Char) → Rs (Connection F × List F)
  | [] => .ok (c, norm2Tmp)
  | item :: rest => do
    let it ← addI32 it 1
    match FloatOps.parse item with
    | none => .error .unwrap
    | some x =>
      let norm2 := FloatOps.add32 norm2 (FloatOps.mul32 x x)
      let sendDataVec := c.sendDataVec ++ List.ofFn (FloatOps.toNeBytes x)
      if isizeMax < sendDataVec.length then .error .capacity
      else
        let c := { c with sendDataVec := sendDataVec }
        if it.tmod 256 = 255 then
          storeFloats { c with norm2Vec := c.norm2Vec ++ [norm2] } (norm2Tmp ++ [norm2])
            (FloatOps.lit32 0 1) it rest
        else storeFloats c norm2Tmp norm2 it rest

def processString (c : Connection F) (testData : List Char) (norm2Tmp : List F) :
    Rs (Connection F × List F) := do
  let data ← index (testData.splitOn '[') 1
  let arrayString ← index (data.splitOn ']') 0
  let singleData := (arrayString.splitOn ' ').filter (fun x => !x.isEmpty)
  c.storeFloats norm2Tmp (FloatOps.lit32 0 1) 0 singleData

/-- The part loop of `data_send`; it stops at the first empty part. -/
def processParts (c : Connection F) (norm2Tmp : List F) :
    List (List Char) → Rs (Connection F × List F)
  | [] => .ok (c, norm2Tmp)
  | part :: rest =>
    if part.isEmpty then .ok (c, norm2Tmp)
    else do
      let (c, norm2Tmp) ← c.processString part norm2Tmp
      processParts c norm2Tmp rest

/-- `sort_by(|a, b| a.partial_cmp(b).unwrap())`: a NaN meets some comparison as soon as there
    are two elements. -/
def sortNorms (norms : List F) : Rs (List F) :=
  if 2 ≤ norms.length ∧ norms.any FloatOps.isNaN then .error .unwrap
  else .ok (norms.insertionSort (fun a b => FloatOps.lt b a = false))

def dataSend (c : Connection F) (strBuf : List Char) : Rs (Connection F) := do
  let output := strBuf.filter (fun ch => ch ≠ '\n' && ch ≠ '"' && ch ≠ '\r')
  let c := { c with
    norm2Vec := []
    sendDataVec := []
    lowSplitPoint := FloatOps.lit32 0 1
    highSplitPoint := FloatOps.lit32 0 1 }
  let (c, norm2Tmp) ← c.processParts [] (output.splitOn '>')
  let norm2Tmp ← sortNorms norm2Tmp
  let low ← index norm2Tmp (norm2Tmp.length * 3 / 10)
  let high ← index norm2Tmp (norm2Tmp.length * 7 / 10)
  return { c with lowSplitPoint := low, highSplitPoint := high }

def priorityCalculation (c : Connection F) (off : Nat) : Rs UInt8 := do
  let norm2 ← index c.norm2Vec (off / 1024)
  if FloatOps.lt norm2 c.lowSplitPoint then return 1
  else if FloatOps.lt norm2 c.highSplitPoint then return 2
  else return 3

end Setup

def updateRtt (c : Connection F) (now : Nat) : Connection F :=
  if c.rtt = 0 then { c with rtt := now - c.handshake }
  else { c with rtt := 17 * (now - c.handshake) / 16 }

/-- Beyond every `Duration`, in nanoseconds. -/
def durationLimit : Nat := 2 ^ 64 * 1000000000

def newRtt (c : Connection F) (last : Nat) : Rs (Connection F) :=
  if 3 * last < durationLimit then .ok { c with rtt := c.rtt / 4 + 3 * last / 4 }
  else .error .overflow

def setHandshake (c : Connection F) (now : Nat) : Connection F := { c with handshake := now }

def isStopped (c : Connection F) : Bool := c.stopFlag && c.stopAck

def sendAck (c : Connection F) : Bool := c.feedBack

def maxAck (c : Connection F) : Nat := c.recBuffer.maxAck

def reset (c : Connection F) : Connection F :=
  { c with norm2Vec := [], sendBuffer := c.sendBuffer.clear }

def writePktType (c : Connection F) : Connection F × Except Error PacketType :=
  if c.rtt = 0 ∧ c.isServer = true then
    ({ c with handshakeCompleted := true }, .ok .handshake)
  else if c.handshakeConfirmed = false ∧ c.isServer = false then
    ({ c with handshakeConfirmed := true }, .ok .handshake)
  else if (c.sentCount % elictFlag = 0 ∧ c.sentCount > 0) ∨ c.stopFlag = true then
    ({ c with sentCount := 0 }, .ok .elictAck)
  else if c.recvFlag = true then
    ({ c with recvFlag := false }, .ok .ack)
  else if c.rtt ≠ 0 then (c, .ok .application)
  else if c.sendBuffer.data.isEmpty then (c, .ok .stop)
  else (c, .error .done)

section Receive
variable [Octets]

/-- The loop of `check_loss` over an arbitrary body, so that what it reads can be stated apart
    from what it stores. -/
def checkLossLoop {S : Type} (body : S → UInt64 → S) : Nat → OctetsMut → S → Rs S
  | 0, _, s => .ok s
  | fuel + 1, b, s =>
    if b.cap > 0 then
      match Octets.getU64 b with
      | (.ok offset, b) => checkLossLoop body fuel b (body s offset)
      | (.error _, _) => .error .unwrap
    else .ok s

def noteQuery (c : Connection F) (offset : UInt64) : Connection F :=
  if offset ∈ c.recvDic then { c with recvHashmap := c.recvHashmap.insert offset 0 }
  else { c with recvHashmap := c.recvHashmap.insert offset 1 }

def checkLoss (c : Connection F) (recvBuf : Bytes) : Rs (Connection F) :=
  checkLossLoop noteQuery recvBuf.length (withSlice recvBuf) c

def processAckLoop {S : Type} (body : S → UInt64 → UInt64 → Rs S) (unackbuf : Bytes) :
    Nat → Nat → S → Rs S
  | 0, _, s => .ok s
  | fuel + 1, start, s =>
    if start < unackbuf.length then do
      let unack ← slice unackbuf start (start + 8)
      let priority ← slice unackbuf (start + 8) (start + 16)
      let s ← body s (u64Value unack) (u64Value priority)
      processAckLoop body unackbuf fuel (start + 16) s
    else .ok s

def raiseMaxOff (c : Connection F) (maxAck : UInt64) : Connection F :=
  if maxAck > c.maxOff then { c with maxOff := maxAck } else c

/-- An offset whose budget is used up is given up, whatever its flag says. -/
def retireSpent (c : Connection F) (unack : UInt64) : Connection F :=
  match c.sentDic.lookup unack.toNat with
  | some 0 => { c with sendBuffer := c.sendBuffer.ackAndDrop unack.toNat }
  | _ => c

variable [FloatOps F]

def entryPriority (c : Connection F) (unack flag : UInt64) : Rs UInt8 :=
  if flag ≠ 0 then c.priorityCalculation unack.toNat else .ok 0

def weighEntry (c : Connection F) (weights : F) (unack : UInt64) (priority : UInt8) :
    Connection F × F :=
  if priority = 1 then (c, FloatOps.add32 weights (FloatOps.lit32 15 2))
  else if priority = 2 then (c, FloatOps.add32 weights (FloatOps.lit32 2 1))
  else if priority = 3 then (c, FloatOps.add32 weights (FloatOps.lit32 25 2))
  else ({ c with sendBuffer := c.sendBuffer.ackAndDrop unack.toNat }, weights)

def ackEntry (s : Connection F × F) (unack flag : UInt64) : Rs (Connection F × F) := do
  let c := s.1.retireSpent unack
  let priority ← c.entryPriority unack flag
  let (c, weights) := c.weighEntry s.2 unack priority
  let realPriority ← c.priorityCalculation unack.toNat
  let c := if priority ≠ 0 ∧ realPriority = 3 then { c with highPriority := c.highPriority + 1 }
    else c
  return (c, weights)

variable [Profile]

def processAck (c : Connection F) (buf : Bytes) : Rs (Connection F) := do
  let unackbuf ← sliceFrom buf 26
  let head ← slice unackbuf 0 8
  let c := c.raiseMaxOff (u64Value head)
  let len := unackbuf.length
  let (c, weights) ← processAckLoop ackEntry unackbuf len 8 (c, FloatOps.lit32 0 1)
  let recovery ← c.recovery.updateWin weights (FloatOps.ofUsize (len / (8 * 2)))
  return { c with recovery := recovery }

def recvSlice (c : Connection F) (now : Nat) (buf : Bytes) :
    Rs (Connection F × Except Error Nat) :=
  if buf.length = 0 then .ok (c, .error .bufferTooShort)
  else
    let c := { c with recvCount := c.recvCount + 1 }
    match Header.fromSlice buf with
    | .error e => .ok (c, .error e)
    | .ok hdr =>
      match hdr.ty with
      | .handshake =>
        if c.isServer then .ok ({ c.updateRtt now with handshakeCompleted := true }, .ok 0)
        else .ok ({ c with handshakeConfirmed := false, feedBack := true }, .ok 0)
      | .ack =>
        if c.isServer then do
          let c ← c.processAck buf
          return (c, .ok 0)
        else .ok (c, .ok 0)
      | .elictAck => do
        let c := { c with recvFlag := true }
        let number ← slice buf 1 9
        let c := { c with sendNum := u64Value number }
        let payload ← sliceFrom buf 26
        let c ← c.checkLoss payload
        return ({ c with feedBack := true }, .ok 0)
      | .application => do
        let c := { c with recvCount := c.recvCount + 1 }
        let payload ← sliceFrom buf 26
        match ← c.recBuffer.write payload hdr.offset.toNat with
        | (_, .error _) => .error .unwrap
        | (recBuffer, .ok _) =>
          return ({ c with
            recBuffer := recBuffer
            recvDic := c.recvDic.insert hdr.offset hdr.priority }, .ok hdr.pktLength.toNat)
      | .stop => .ok (c, .error .stopped)
      | _ => .ok (c, .ok 0)

end Receive

section Send
variable [Octets]

def sendInfo (c : Connection F) : SendInfo := ⟨c.localaddr, c.peeraddr⟩

def finishSend (c : Connection F) (now : Nat) (out : Bytes) (psize : Nat) : Sent F :=
  if c.isStopped then ⟨c, out, .error .done⟩
  else ⟨{ c with handshake := now }, out, .ok (headerLength + psize, c.sendInfo)⟩

def bareHeader (ty : PacketType) : Header where
  ty := ty
  pktNum := 0
  priority := 0
  offset := 0
  pktLength := 0

def sendHandshake (c : Connection F) (now : Nat) (out : Bytes) : Sent F :=
  match (bareHeader .handshake).toBytes (withSlice out) with
  | (.error _, b) => ⟨c, b.buf, .error .bufferTooShort⟩
  | (.ok _, b) =>
    let c := if c.server then c.setHandshake now else { c with feedBack := false }
    c.finishSend now b.buf 0

def pendingPairs (c : Connection F) (order : IterOrder) : List (UInt64 × UInt64) :=
  order.arrange (c.recvHashmap.entries.map (fun e => (e.1, e.2)))

def ackSize (c : Connection F) : Nat := c.recvHashmap.entries.length * 8 * 2 + 8

def ackHeader (c : Connection F) : Header where
  ty := .ack
  pktNum := c.sendNum
  priority := 0
  offset := 0
  pktLength := UInt64.ofNat c.ackSize

def putPairs : List (UInt64 × UInt64) → Cursor Unit
  | [] => pure ()
  | (key, val) :: rest => do
    Octets.putU64 key
    Octets.putU64 val
    putPairs rest

def writeAck (c : Connection F) (order : IterOrder) : Cursor Unit := do
  c.ackHeader.toBytes
  Octets.putU64 (UInt64.ofNat c.maxAck)
  putPairs (c.pendingPairs order)

def sendAckPacket (c : Connection F) (now : Nat) (order : IterOrder) (out : Bytes) : Sent F :=
  let c := { c with feedBack := false }
  match c.writeAck order (withSlice out) with
  | (.error _, b) => ⟨c, b.buf, .error .bufferTooShort⟩
  | (.ok _, b) => finishSend { c with recvHashmap := ∅ } now b.buf c.ackSize

def unqueried (c : Connection F) : Rs (List UInt64) := sliceFrom c.sentPkt c.ackPoint

def elictHeader (pn psize : Nat) : Header where
  ty := .elictAck
  pktNum := UInt64.ofNat pn
  priority := 0
  offset := 0
  pktLength := UInt64.ofNat psize

/-- Write the query packet; a buffer without room for the header is a failed `unwrap`. -/
def writeQuery (pn psize : Nat) (res : List UInt64) (out : Bytes) :
    Rs (Except BufferTooShortError Unit × Bytes) :=
  match (elictHeader pn psize).toBytes (withSlice out) with
  | (.error _, _) => .error .unwrap
  | (.ok _, b) =>
    match putU64s res b with
    | (r, b) => .ok (r, b.buf)

def sendElictAck (c : Connection F) (out : Bytes) : Rs (Sent F) := do
  let pn := c.pktNumSpaces.2.nextPktNum
  let c := { c with pktNumSpaces := (c.pktNumSpaces.1, ⟨pn + 1⟩) }
  let res ← c.unqueried
  let psize := if c.stopFlag then (c.sentPkt.length - c.ackPoint) * 8 else 64
  match ← writeQuery pn psize res out with
  | (.error _, out) => return ⟨c, out, .error .bufferTooShort⟩
  | (.ok _, out) =>
    let c := { c with ackPoint := c.sentPkt.length }
    let c := if c.stopFlag then { c with stopAck := true } else c
    return ⟨c, out, .ok (headerLength + psize, c.sendInfo)⟩

def sendStop (c : Connection F) (out : Bytes) : Sent F :=
  match (bareHeader .stop).toBytes (withSlice out) with
  | (.error _, b) => ⟨c, b.buf, .error .bufferTooShort⟩
  | (.ok _, b) => ⟨c, b.buf, .ok (headerLength, c.sendInfo)⟩

def applicationHeader (pn : Nat) (priority : UInt8) (off resultLen : Nat) : Header where
  ty := .application
  pktNum := UInt64.ofNat pn
  priority := priority
  offset := UInt64.ofNat off
  pktLength := UInt64.ofNat resultLen

variable [Profile] [FloatOps F]

def spendBudget (dic : HashMap Nat Nat) (off : Nat) (priority : UInt8) : Rs (HashMap Nat Nat) :=
  match dic.lookup off with
  | some x => do
    let left ← subWord x 1
    return dic.insert off left
  | none => .ok (dic.insert off priority.toNat)

def sendApplication (c : Connection F) (now : Nat) (out : Bytes) : Rs (Sent F) := do
  let body ← sliceFrom out 26
  match ← c.sendBuffer.emit body with
  | (sendBuffer, body, .error _) =>
    return finishSend { c with sendBuffer := sendBuffer } now (out.take 26 ++ body) 0
  | (sendBuffer, body, .ok (resultLen, off, stop)) =>
    let c := { c with sendBuffer := sendBuffer }
    let out := out.take 26 ++ body
    if off ≥ c.writtenData then return ⟨c, out, .error .done⟩
    let c := { c with sentCount := c.sentCount + 1, sentNumber := c.sentNumber + 1 }
    let pn := c.pktNumSpaces.1.nextPktNum
    let priority ← c.priorityCalculation off
    let c := { c with pktNumSpaces := (⟨pn + 1⟩, c.pktNumSpaces.2) }
    let sentDic ← spendBudget c.sentDic off priority
    let c := { c with sentDic := sentDic }
    let hdr := applicationHeader pn priority off resultLen
    match hdr.toBytes (withSlice out) with
    | (.error _, b) => return ⟨c, b.buf, .error .bufferTooShort⟩
    | (.ok _, b) =>
      let c := if stop then { c with stopFlag := true } else c
      let c := { c with sentPkt := c.sentPkt ++ [hdr.offset] }
      return c.finishSend now b.buf resultLen

def sendData (c : Connection F) (now : Nat) (order : IterOrder) (out : Bytes) : Rs (Sent F) :=
  if out.isEmpty then .ok ⟨c, out, .error .bufferTooShort⟩
  else
    match c.writePktType with
    | (c, .error e) => .ok ⟨c, out, .error e⟩
    | (c, .ok ty) =>
      match ty with
      | .handshake => .ok (c.sendHandshake now out)
      | .ack => .ok (c.sendAckPacket now order out)
      | .elictAck => c.sendElictAck out
      | .application => c.sendApplication now out
      | .stop => .ok (c.sendStop out)
      | _ => .ok (c.finishSend now out 0)

/-- The window of the next pass: an earlier one when too many lost packets had high priority. -/
def nextWindow (r : Recovery) (highRatio : F) : Rs (Recovery × Nat) :=
  if FloatOps.lt (FloatOps.lit64 1 2) highRatio then .ok r.rollback else r.cwnd

def write (c : Connection F) : Rs (Connection F × Except Error Nat) := do
  let toffset := c.totalOffset % 1024
  let offLen := if toffset % 1024 ≠ 0 then 1024 - c.totalOffset % 1024 else 0
  let highRatio : F :=
    FloatOps.div64 (FloatOps.ofUsize c.highPriority) (FloatOps.ofUsize c.sentNumber)
  let c := { c with highPriority := 0, sentNumber := 0 }
  let (recovery, congestionWindow) ← nextWindow c.recovery highRatio
  let c := { c with recovery := recovery }
  let data ← sliceFrom c.sendDataVec c.writtenData
  let (sendBuffer, result) ← c.sendBuffer.write data congestionWindow offLen c.maxOff
  return ({ c with sendBuffer := sendBuffer }, result)

def writeMore (c : Connection F) : Rs (Connection F × Except Error Bool) := do
  let (c, written) ← c.write
  match written with
  | .error _ => .error .unwrap
  | .ok n =>
    return ({ c with writtenData := c.writtenData + n, totalOffset := c.totalOffset + n }, .ok true)

def sendAll (c : Connection F) (now : Nat) : Rs (Connection F × Except Error Bool) :=
  let c := { c with stopFlag := false, stopAck := false }
  let c := c.setHandshake now
  if c.sendDataVec.length > c.writtenData then c.writeMore
  else if c.sendBuffer.data.isEmpty then .ok (c, .ok false)
  else c.writeMore

end Send

section Read
variable [Profile]

def read (c : Connection F) (out : Bytes) : Rs (Connection F × Bytes × Except Error Nat) := do
  let (recBuffer, out, result) ← c.recBuffer.emit out
  return ({ c with recBuffer := recBuffer }, out, result)

end Read

end Connection

end DmludpConnection
