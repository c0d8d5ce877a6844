import Dmludp.Foundation.BreakLoop
import Dmludp.Foundation.OrderedMap
import Dmludp.Packet.HeaderCodec
import Dmludp.Stream.RangeBuffer

/- The receive-side stream buffer. Chunks are keyed by their end offset; `emit` walks them in
   that order behind the read cursor `lastMaxoff`, leaving the caller's zeros in the gaps. -/
namespace DmludpRecv
open ByteCursor RustOutcome BreakLoop OrderedMap DmludpPacket DmludpRange

structure RecvBuf where
  data : OrdMap Nat RangeBuf
  off : Nat
  len : Nat
  lastMaxoff : Nat
  maxRecvOff : Nat
  deriving DecidableEq

structure EmitState where
  recv : RecvBuf
  out : Bytes
  len : Nat
  cap : Nat
  deriving DecidableEq

namespace RecvBuf

def new : RecvBuf where
  data := OrdMap.empty
  off := 0
  len := 0
  lastMaxoff := 0
  maxRecvOff := 0

def ready (r : RecvBuf) : Bool := !r.data.isEmpty

theorem ready_eq_first (r : RecvBuf) : r.ready = r.data.first?.isSome := by
  unfold ready OrdMap.isEmpty OrdMap.first?
  cases r.data.entries with
  | nil => rfl
  | cons e rest => rfl

def maxAck (r : RecvBuf) : Nat := r.maxRecvOff

inductive RoundEffect (r : RecvBuf) : Turn EmitState → Prop where
  | removed {next : EmitState} {key cursor : Nat} {b : RangeBuf}
      (front : r.data.first? = some (key, b))
      (recv : next.recv = { r with data := r.data.popFirst, lastMaxoff := cursor }) :
      RoundEffect r (.again next)
  | consumed {next : EmitState} {key cursor n : Nat} {b : RangeBuf}
      (front : r.data.first? = some (key, b))
      (recv : next.recv = { r with data := r.data.set key (b.consume n), lastMaxoff := cursor }) :
      RoundEffect r (.leave next)
  | moved {next : EmitState} {cursor : Nat} (recv : next.recv = { r with lastMaxoff := cursor }) :
      RoundEffect r (.leave next)

theorem roundEffect_count {r : RecvBuf} {turn : Turn EmitState} (effect : RoundEffect r turn) :
    match turn with
    | .again next => next.recv.data.entries.length + 1 = r.data.entries.length
    | .leave next => next.recv.data.entries.length = r.data.entries.length := by
  cases effect with
  | removed front recv =>
    have some_left := List.length_pos_of_mem (OrdMap.first?_least front).1
    simp only [recv, OrdMap.popFirst, List.length_tail]
    omega
  | consumed front recv => simp only [recv, OrdMap.set, List.length_map]
  | moved recv => simp only [recv]

section Methods
variable [Profile]

def write (r : RecvBuf) (out : Bytes) (outOff : Nat) : Rs (RecvBuf × Except Error Unit) := do
  let buf := RangeBuf.ofSlice out outOff
  let bufLen ← buf.lenFn
  let maxOff ← buf.maxOff
  let tmpOff ← subWord maxOff bufLen
  let r := match r.data.last? with
    | some (k, _) => if k = tmpOff then { r with maxRecvOff := tmpOff } else r
    | none => r
  return ({ r with data := r.data.insert maxOff buf }, .ok ())

/-- The zero bytes between the cursor and the unread part of the chunk under it. -/
def zeroLen (maxOff lastMaxoff dataLen : Nat) : Rs Nat := do
  let gap ← subWord maxOff lastMaxoff
  if gap ≠ dataLen then
    let gap ← subWord maxOff lastMaxoff
    subWord gap dataLen
  else return 0

def emitRound (st : EmitState) : Rs (Turn EmitState) :=
  if st.cap > 0 && st.recv.ready then
    match st.recv.data.first? with
    | none => .ok (.leave st)
    | some (key, buf) => do
      let maxOff ← buf.maxOff
      let dataLen ← buf.lenFn
      let zeroLen ← zeroLen maxOff st.recv.lastMaxoff dataLen
      if zeroLen < st.cap then
        let cap := st.cap - zeroLen
        let len := st.len + zeroLen
        let lastMaxoff ← addWord st.recv.lastMaxoff zeroLen
        let bufLen := min dataLen cap
        let source ← slice buf.data 0 bufLen
        let _ ← slice st.out len (len + bufLen)
        let out := splice st.out len source
        let lastMaxoff ← addWord lastMaxoff bufLen
        if bufLen < dataLen then
          let data := st.recv.data.set key (buf.consume bufLen)
          .ok (.leave ⟨{ st.recv with data := data, lastMaxoff := lastMaxoff }, out, len, cap⟩)
        else
          let data := st.recv.data.popFirst
          .ok (.again ⟨{ st.recv with data := data, lastMaxoff := lastMaxoff }, out, len, cap⟩)
      else if zeroLen = st.cap then do
        let lastMaxoff ← addWord st.recv.lastMaxoff zeroLen
        .ok (.leave { st with
          recv := { st.recv with lastMaxoff := lastMaxoff }
          len := st.len + zeroLen })
      else do
        let lastMaxoff ← addWord st.recv.lastMaxoff st.cap
        .ok (.leave { st with recv := { st.recv with lastMaxoff := lastMaxoff } })
  else .ok (.leave st)

/-- The loop of `emit`. Every turn that goes back to the test removes an entry, so the number of
    entries is enough fuel. -/
def emitLoop : Nat → EmitState → Rs EmitState
  | 0, st => .ok st
  | fuel + 1, st => do
    let turn ← emitRound st
    match turn with
    | .again st' => emitLoop fuel st'
    | .leave st' => .ok st'

def emit (r : RecvBuf) (out : Bytes) : Rs (RecvBuf × Bytes × Except Error Nat) :=
  if !r.ready then .ok (r, out, .error .done)
  else do
    let st ← emitLoop r.data.entries.length ⟨r, out, 0, out.length⟩
    return (st.recv, st.out, .ok st.len)

/-- Drop everything buffered; the new offset is the size the stream is said to have. -/
def reset (r : RecvBuf) (finalSize : Nat) : Rs (RecvBuf × Except Error Nat) :=
  if finalSize < r.len then .ok (r, .error .finalSize)
  else do
    let maxDataDelta ← subWord finalSize r.len
    return ({ r with off := finalSize, data := OrdMap.empty }, .ok maxDataDelta)

def shutdown (r : RecvBuf) : RecvBuf := { r with data := OrdMap.empty }

theorem emitLoop_succ (fuel : Nat) (st : EmitState) :
    emitLoop (fuel + 1) st = (emitRound st >>= fun turn =>
      match turn with
      | .again st' => emitLoop fuel st'
      | .leave st' => .ok st') := rfl

theorem emitLoop_over (fuel : Nat) {st : EmitState}
    (nothing : st.cap = 0 ∨ st.recv.data.first? = none) : emitLoop fuel st = .ok st := by
  have left : emitRound st = .ok (.leave st) := by
    unfold emitRound
    rcases nothing with full | empty
    · simp [full]
    · rw [empty]
      split <;> rfl
  cases fuel with
  | zero => rfl
  | succ fuel =>
    rw [emitLoop_succ, left]
    rfl

theorem emitRound_effect {st : EmitState} {turn : Turn EmitState} (done : emitRound st = .ok turn) :
    RoundEffect st.recv turn := by
  unfold emitRound at done
  split at done
  · split at done
    · cases done
      exact .moved rfl
    · rename_i key buf front
      obtain ⟨maxOff, _, done⟩ := bind_ok_iff.mp done
      obtain ⟨dataLen, _, done⟩ := bind_ok_iff.mp done
      obtain ⟨gap, _, done⟩ := bind_ok_iff.mp done
      split at done
      · obtain ⟨cursor, _, done⟩ := bind_ok_iff.mp done
        obtain ⟨source, _, done⟩ := bind_ok_iff.mp done
        obtain ⟨target, _, done⟩ := bind_ok_iff.mp done
        obtain ⟨cursor', _, done⟩ := bind_ok_iff.mp done
        split at done
        · cases done
          exact .consumed front rfl
        · cases done
          exact .removed front rfl
      · split at done
        · obtain ⟨cursor, _, done⟩ := bind_ok_iff.mp done
          cases done
          exact .moved rfl
        · obtain ⟨cursor, _, done⟩ := bind_ok_iff.mp done
          cases done
          exact .moved rfl
  · cases done
    exact .moved rfl

theorem emitLoop_invariant (Inv : EmitState → Prop)
    (kept : ∀ st turn, Inv st → emitRound st = .ok turn → Inv turn.state) (fuel : Nat)
    {st st' : EmitState} (inv : Inv st) (done : emitLoop fuel st = .ok st') : Inv st' := by
  induction fuel generalizing st with
  | zero =>
    cases done
    exact inv
  | succ fuel ih =>
    rw [emitLoop_succ] at done
    obtain ⟨turn, turned, done⟩ := bind_ok_iff.mp done
    have inv' := kept st turn inv turned
    cases turn with
    | again next => exact ih inv' done
    | leave next =>
      cases done
      exact inv'

theorem emit_entries (P : Nat → RangeBuf → Prop) (used : ∀ key b n, P key b → P key (b.consume n))
    {r r' : RecvBuf} {out out' : Bytes} {result : Except Error Nat}
    (before : ∀ e ∈ r.data.entries, P e.1 e.2) (done : r.emit out = .ok (r', out', result)) :
    ∀ e ∈ r'.data.entries, P e.1 e.2 := by
  unfold emit at done
  split at done
  · cases done
    exact before
  · obtain ⟨st, looped, done⟩ := bind_ok_iff.mp done
    cases done
    refine emitLoop_invariant (fun st => ∀ e ∈ st.recv.data.entries, P e.1 e.2) ?_ _ before looped
    intro st turn inv turned e mem
    cases emitRound_effect turned with
    | removed front recv =>
      rw [Turn.state, recv] at mem
      exact inv e ((OrdMap.first?_least front).2.2 e mem).1
    | consumed front recv =>
      rw [Turn.state, recv] at mem
      rcases OrdMap.mem_set.mp mem with ⟨old, _⟩ | ⟨rfl, _⟩
      · exact inv e old
      · exact used _ _ _ (inv _ (OrdMap.first?_least front).1)
    | moved recv =>
      rw [Turn.state, recv] at mem
      exact inv e mem

theorem emitLoop_fuel (fuel : Nat) {st : EmitState}
    (enough : st.recv.data.entries.length ≤ fuel) :
    emitLoop (fuel + 1) st = emitLoop fuel st := by
  induction fuel generalizing st with
  | zero =>
    have empty : st.recv.data.entries = [] := List.length_eq_zero_iff.mp (Nat.le_zero.mp enough)
    have nothing : st.recv.data.first? = none := by rw [OrdMap.first?, empty]; rfl
    exact emitLoop_over 1 (Or.inr nothing)
  | succ fuel ih =>
    rw [emitLoop_succ, emitLoop_succ fuel]
    cases turned : emitRound st with
    | error p => rfl
    | ok turn =>
      simp only [ok_bind]
      cases turn with
      | leave next => rfl
      | again next =>
        have fewer := roundEffect_count (emitRound_effect turned)
        dsimp only at fewer
        exact ih (by omega)

theorem emitLoop_of_left {fuel : Nat} {st st' : EmitState}
    (left : loop emitRound fuel st = .ok (some st')) : emitLoop fuel st = .ok st' := by
  induction fuel generalizing st with
  | zero => cases left
  | succ fuel ih =>
    rw [emitLoop_succ]
    unfold loop at left
    cases turned : emitRound st with
    | error p =>
      rw [turned] at left
      cases left
    | ok turn =>
      rw [turned] at left
      rw [ok_bind]
      cases turn with
      | again next => exact ih left
      | leave next =>
        cases left
        rfl

end Methods

end RecvBuf

end DmludpRecv
