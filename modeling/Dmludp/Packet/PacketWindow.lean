import Mathlib.Data.List.AList
import Dmludp.Foundation.RustOutcome
import Dmludp.Foundation.TracedRun

/- The retransmission window of `packet.rs`. An offset has a count of retransmissions left and a
   received flag; the count starts from a priority that is kept for each block of 1024 bytes.
   Offsets, counts and flags are the source's u64 values. -/
namespace DmludpPacketWindow
open RustOutcome

structure PktNumWindow where
  priorityRecord : AList (fun _ : Nat => Nat)
  record : AList (fun _ : Nat => Nat × Nat)

namespace PktNumWindow

def new : PktNumWindow where
  priorityRecord := ∅
  record := ∅

def blockStart (offset : Nat) : Nat := offset - offset % 1024

def updateRetrans (w : PktNumWindow) (offset retrans received : Nat) : PktNumWindow :=
  { w with record := w.record.insert offset (retrans, received) }

def additem (w : PktNumWindow) (offset priority : Nat) : PktNumWindow :=
  let w := if offset % 1024 = 0 then
    { w with priorityRecord := w.priorityRecord.insert offset priority } else w
  w.updateRetrans offset priority 1

/-- The source repeats the body of `additem`. -/
def updateItem (w : PktNumWindow) (offset priority : Nat) : PktNumWindow :=
  w.additem offset priority

def getPriority (w : PktNumWindow) (offset : Nat) : Nat :=
  match w.priorityRecord.lookup offset with
  | some priority => priority
  | none => 0

def checkReceived (w : PktNumWindow) (offset : Nat) (sent : Bool) : PktNumWindow × Bool :=
  if sent = false then
    match w.record.lookup offset with
    | some (retrans, received) =>
      if received = 1 then (w, true)
      else if retrans > 0 then (w.updateRetrans offset (retrans - 1) received, false)
      else (w.updateRetrans offset 0 1, false)
    | none =>
      let priority := w.getPriority (blockStart offset)
      if priority = 0 then ((w.additem (blockStart offset) 3).updateRetrans offset 2 0, false)
      else (w.updateRetrans offset (priority - 1) 0, false)
  else
    match w.record.lookup offset with
    | some (_, received) => (w, received = 1)
    | none => (w, false)

def getRetransTimes [Profile] (w : PktNumWindow) (offset : Nat) : Rs Nat :=
  match w.record.lookup offset with
  | some (retrans, recv) => if recv = 1 then .ok 0 else addWord retrans 1
  | none => .ok 0

def clearRecord (w : PktNumWindow) : PktNumWindow := { w with record := ∅ }

end PktNumWindow

inductive WindowCall where
  | additem (offset priority : Nat)
  | updateItem (offset priority : Nat)
  | updateRetrans (offset retrans received : Nat)
  | checkReceived (offset : Nat) (sent : Bool)
  | getPriority (offset : Nat)
  | getRetransTimes (offset : Nat)
  | clearRecord
  deriving DecidableEq

inductive WindowReply where
  | nothing
  | received (answer : Bool)
  | count (n : Nat)
  deriving DecidableEq

open PktNumWindow in
def windowStep [Profile] (w : PktNumWindow) : WindowCall → Rs (PktNumWindow × WindowReply)
  | .additem offset priority => .ok (w.additem offset priority, .nothing)
  | .updateItem offset priority => .ok (w.updateItem offset priority, .nothing)
  | .updateRetrans offset retrans received => .ok (w.updateRetrans offset retrans received, .nothing)
  | .checkReceived offset sent =>
    let (w, answer) := w.checkReceived offset sent
    .ok (w, .received answer)
  | .getPriority offset => .ok (w, .count (w.getPriority offset))
  | .getRetransTimes offset => do
    let n ← w.getRetransTimes offset
    return (w, .count n)
  | .clearRecord => .ok (w.clearRecord, .nothing)

abbrev WindowTrace : Type := List (TracedRun.Transition PktNumWindow WindowCall WindowReply)

end DmludpPacketWindow
