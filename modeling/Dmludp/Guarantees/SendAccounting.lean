import Dmludp.Endpoint.SenderSteps
import Dmludp.Endpoint.ReferenceInstance

/- The byte counters of the send buffer. A full pass takes them to zero; they never go below,
   because the end of a pass raises `stopFlag`, and no packet is cut while it is up. -/
namespace DmludpSendAccounting
open ByteCursor RustOutcome TracedRun DmludpPacket DmludpRange DmludpSend DmludpRecovery
open DmludpConnection DmludpConnection.Connection DmludpCalls DmludpEffects DmludpReceiveEffects
open DmludpSenderSteps DmludpReference

variable {F : Type}

def Covers (s : SendBuf) (n : Nat) : Prop := n ≤ s.len ∧ n ≤ s.usedLength

/-- What is left of the pass is covered, and beyond the end of the queue a whole pass is. -/
def Ahead (s : SendBuf) : Prop :=
  Covers s (SendBuf.total (s.data.drop s.pos)) ∧
    (s.data.length ≤ s.pos → Covers s (SendBuf.total s.data))

structure Queue (c : Connection F) : Prop where
  dataFits : c.sendDataVec.length ≤ isizeMax
  written : c.writtenData ≤ isizeMax
  behind : c.sendBuffer.off ≤ c.writtenData
  queued : ∀ b ∈ c.sendBuffer.data, SendBuf.Queued b ∧ b.off + b.data.length ≤ c.sendBuffer.off

structure Accounts (c : Connection F) : Prop extends Queue c where
  ahead : c.stopFlag = false → Ahead c.sendBuffer

/-- The calls of an application that leaves `write` to `send_all`. -/
def OrdinaryCall (_ : Connection F) : Call → Prop
  | .dataSend _ => True
  | .sendAll _ => True
  | .sendData _ _ _ => True
  | .recvSlice _ _ => True
  | .reset => True
  | _ => False

theorem ordinary_not_write {c : Connection F} {a : Call} (may : OrdinaryCall c a) : a ≠ .write := by
  rintro rfl
  exact may

instance (c : Connection F) (a : Call) : Decidable (OrdinaryCall c a) :=
  match a with
  | .dataSend _ | .sendAll _ | .sendData _ _ _ | .recvSlice _ _ | .reset =>
      inferInstanceAs (Decidable True)
  | .read _ | .write | .checkLoss _ | .newRtt _ | .setHandshake _ =>
      inferInstanceAs (Decidable False)

theorem filled_queued {kept s' : SendBuf} {data : Bytes} {windowSize offLen n : Nat}
    {pieces : List Bytes} (filled : SendBuf.Filled kept s' data windowSize offLen n pieces)
    (aligned : offLen ≤ sendBufferSize) (fits : kept.off + n ≤ isizeMax)
    (old : ∀ b ∈ kept.data, SendBuf.Queued b ∧ b.off + b.data.length ≤ kept.off) :
    ∀ b ∈ s'.data, SendBuf.Queued b ∧ b.off + b.data.length ≤ s'.off := by
  intro b mem
  rw [filled.queue] at mem
  rw [filled.off]
  rcases List.mem_append.mp mem with kept_ | new
  · obtain ⟨queued, bound⟩ := old b kept_
    exact ⟨queued, by omega⟩
  · obtain ⟨whole, positive, short⟩ := SendBuf.filled_cut filled aligned new
    obtain ⟨_, above⟩ := SendBuf.place_offsets_above new
    rw [← filled.count] at above
    refine ⟨⟨whole, positive, short, ?_⟩, above⟩
    simp only [isizeMax] at fits
    simp only [wordSize]
    omega

theorem total_drop_le (data : List RangeBuf) (n : Nat) :
    SendBuf.total (data.drop n) ≤ SendBuf.total data := by
  have whole := congrArg SendBuf.total (List.take_append_drop n data)
  rw [SendBuf.total_append] at whole
  omega

theorem ahead_front {s : SendBuf} (ahead : Ahead s) : ∀ b rest, s.data.drop s.pos = b :: rest →
    b.data.length ≤ s.len ∧ b.data.length ≤ s.usedLength := by
  intro b rest front
  obtain ⟨⟨left, used⟩, _⟩ := ahead
  have weight : SendBuf.total (s.data.drop s.pos) = b.data.length + SendBuf.total rest := by
    rw [front]
    rfl
  omega

theorem settle_ahead {s : SendBuf} {n : Nat} (ahead : Ahead s)
    (goes_on : (s.settle n).2 = false ∨ s.data.length ≤ s.pos) : Ahead (s.settle n).1 := by
  obtain ⟨pos, frame⟩ := SendBuf.settle_frame s n
  rcases SendBuf.settle_cases s n with ⟨front, ended⟩ | ⟨same, _, _⟩
  · rcases goes_on with open_ | beyond
    · rw [ended] at open_
      cases open_
    · rw [frame] at front ⊢
      simp only at front
      subst front
      exact ⟨ahead.2 beyond, fun _ => ahead.2 beyond⟩
  · rw [frame] at same ⊢
    simp only at same
    subst same
    exact ahead

theorem emit_ahead [Profile] {s s' : SendBuf} {out out' : Bytes} {n off : Nat} {stop : Bool}
    (ahead : Ahead s) (emitted : SendBuf.EmitCase s out (s', out', n, off, stop))
    (goes_on : stop = false ∨ s.data.length ≤ s.pos) : Ahead s' := by
  cases emitted with
  | @chunk b rest len usedLength front room left used =>
    obtain ⟨⟨covered, covered'⟩, _⟩ := ahead
    have weight : SendBuf.total (s.data.drop s.pos) = b.data.length + SendBuf.total rest := by
      rw [front]
      rfl
    have next : s.data.drop (s.pos + 1) = rest := by
      rw [← List.drop_drop, front]
      rfl
    have inside : s.pos < s.data.length := by
      apply Nat.lt_of_not_le
      intro beyond
      rw [List.drop_eq_nil_of_le beyond] at front
      cases front
    rw [subWord_fits (by omega), Except.ok.injEq] at left
    rw [subWord_fits (by omega), Except.ok.injEq] at used
    rcases SendBuf.settle_cases { s with len := len, usedLength := usedLength, pos := s.pos + 1 }
      b.data.length with ⟨_, ended⟩ | ⟨same, _, midway⟩
    · rcases goes_on with open_ | beyond
      · rw [ended] at open_
        cases open_
      · omega
    · obtain ⟨pos, frame⟩ := SendBuf.settle_frame
        { s with len := len, usedLength := usedLength, pos := s.pos + 1 } b.data.length
      rw [frame] at same ⊢
      simp only at same midway
      subst same
      refine ⟨?_, ?_⟩
      · simp only [Covers, next]
        omega
      · intro beyond
        dsimp only at beyond
        omega
  | cramped front short => exact settle_ahead ahead goes_on
  | past beyond => exact settle_ahead ahead goes_on

section Queue

theorem queue_of_same {c c' : Connection F} {marks : OrderedMap.OrdMap Nat Bool} (queue : Queue c)
    (sendDataVec : c'.sendDataVec = c.sendDataVec) (writtenData : c'.writtenData = c.writtenData)
    (buffer : c'.sendBuffer = { c.sendBuffer with offsetRecv := marks }) : Queue c' := by
  obtain ⟨dataFits, written, behind, queued⟩ := queue
  refine ⟨by rw [sendDataVec]; exact dataFits, by rw [writtenData]; exact written, ?_, ?_⟩
  · rw [buffer, writtenData]
    exact behind
  · rw [buffer]
    exact queued

theorem accounts_of_same {c c' : Connection F} {marks : OrderedMap.OrdMap Nat Bool}
    (accounts : Accounts c) (sendDataVec : c'.sendDataVec = c.sendDataVec)
    (writtenData : c'.writtenData = c.writtenData) (stopFlag : c'.stopFlag = c.stopFlag)
    (buffer : c'.sendBuffer = { c.sendBuffer with offsetRecv := marks }) : Accounts c' := by
  refine ⟨queue_of_same accounts.toQueue sendDataVec writtenData buffer, ?_⟩
  rw [stopFlag, buffer]
  exact accounts.ahead

variable [Profile]

theorem sendAll_queue {c c' : Connection F} {now : Nat} {r : Except Error Bool} (queue : Queue c)
    (passed : SendAllCase c now (c', r)) : Queue c' ∧ Ahead c'.sendBuffer := by
  obtain ⟨dataFits, written, behind, queued⟩ := queue
  cases passed with
  | drained all empty =>
    refine ⟨⟨dataFits, written, behind, queued⟩, ?_⟩
    simp [Ahead, Covers, empty, SendBuf.total]
  | @wrote recovery window n sendBuffer inside stored =>
    obtain ⟨kept, pieces, dropped, filled⟩ := SendBuf.write_filled stored
    obtain ⟨data, marks, rfl, sub⟩ := SendBuf.recvAndDrop_frame dropped
    have taken : n ≤ c.sendDataVec.length - c.writtenData := by
      rw [filled.count, filled.bytes, List.length_take, List.length_drop]
      omega
    have off := filled.off
    dsimp only at off
    refine ⟨⟨dataFits, ?_, ?_, ?_⟩, ?_⟩
    · dsimp only
      omega
    · dsimp only
      omega
    · refine filled_queued filled (boundary_small _) ?_ ?_
      · dsimp only
        omega
      · intro b mem
        exact queued b (sub.subset mem)
    · have rest := total_drop_le sendBuffer.data sendBuffer.pos
      simp only [Ahead, Covers, filled.len, filled.usedLength]
      exact ⟨⟨rest, rest⟩, fun _ => ⟨Nat.le_refl _, Nat.le_refl _⟩⟩

theorem emit_queue {c c' : Connection F} {sendBuffer : SendBuf} {out out' : Bytes} {n off : Nat}
    {stop : Bool} (queue : Queue c)
    (emitted : c.sendBuffer.emit out = .ok (sendBuffer, out', .ok (n, off, stop)))
    (sendDataVec : c'.sendDataVec = c.sendDataVec) (writtenData : c'.writtenData = c.writtenData)
    (buffer : c'.sendBuffer = sendBuffer) : Queue c' := by
  obtain ⟨⟨len, used, pos, sent, frame⟩, _⟩ := SendBuf.emit_frame emitted
  obtain ⟨dataFits, written, behind, queued⟩ := queue
  rw [← buffer] at frame
  refine ⟨by rw [sendDataVec]; exact dataFits, by rw [writtenData]; exact written, ?_, ?_⟩
  · rw [frame, writtenData]
    exact behind
  · rw [frame]
    exact queued

theorem front_inside {c : Connection F} {sendBuffer : SendBuf} {out out' : Bytes} {n off : Nat}
    {stop : Bool} (queue : Queue c)
    (emitted : SendBuf.EmitCase c.sendBuffer out (sendBuffer, out', n, off, stop))
    (past : c.writtenData ≤ off) : c.sendBuffer.data.length ≤ c.sendBuffer.pos := by
  have front_before : ∀ b rest, c.sendBuffer.data.drop c.sendBuffer.pos = b :: rest →
      b.off < c.writtenData := by
    intro b rest front
    obtain ⟨chunk, bound⟩ := queue.queued b (List.mem_of_mem_drop (by rw [front]; simp))
    have positive := chunk.filled
    have behind := queue.behind
    omega
  cases emitted with
  | chunk front _ _ _ => exact absurd (front_before _ _ front) (Nat.not_lt.mpr past)
  | cramped front _ => exact absurd (front_before _ _ front) (Nat.not_lt.mpr past)
  | past beyond => exact beyond

end Queue

section Runs
variable [FloatOps F]

theorem fresh_accounts (localaddr peeraddr : SocketAddr) (birth : Nat) (isServer : Bool) :
    Accounts (Connection.new localaddr peeraddr birth isServer : Connection F) := by
  refine ⟨⟨Nat.zero_le _, Nat.zero_le _, Nat.zero_le _, ?_⟩, ?_⟩
  · simp [Connection.new, SendBuf.new]
  · simp [Connection.new, SendBuf.new, Ahead, Covers, SendBuf.total]

variable [Profile]

theorem application_accounts {c : Connection F} {now : Nat} {out : Bytes} {s : Sent F}
    (accounts : Accounts c) (running : c.stopFlag = false) (sent : AppCase c now out s) :
    Accounts s.conn := by
  have ahead := accounts.ahead running
  cases sent with
  | nothing _ emitted past =>
    have emit := SendBuf.emit_cases (fun b mem => (accounts.queued b mem).1) emitted
    refine ⟨emit_queue accounts.toQueue emitted rfl rfl rfl, ?_⟩
    intro _
    exact emit_ahead ahead emit (Or.inr (front_inside accounts.toQueue emit past))
  | @packet sendBuffer body n off stop priority dic _ emitted _ _ _ =>
    have emit := SendBuf.emit_cases (fun b mem => (accounts.queued b mem).1) emitted
    obtain ⟨stamp, conn⟩ := finishSend_conn (transmitted c sendBuffer off stop dic) now
      ((applicationHeader c.pktNumSpaces.1.nextPktNum priority off n).encoded ++ body) n
    rw [conn]
    refine ⟨emit_queue accounts.toQueue emitted rfl rfl rfl, ?_⟩
    intro open_
    simp only [transmitted, running, Bool.false_or] at open_
    exact emit_ahead ahead emit (Or.inl open_)

variable [Octets]

theorem step_accounts {c c' : Connection F} {a : Call} {o : Reply} (accounts : Accounts c)
    (may : a ≠ .write) (taken : SenderStep c a o c') : Accounts c' := by
  cases taken with
  | kept same _ =>
    obtain ⟨marks, buffer⟩ := same.buffer
    exact accounts_of_same accounts same.sendDataVec same.writtenData same.stopFlag buffer
  | dataSend loaded =>
    obtain ⟨⟨_, _, _, _, rfl⟩, fits⟩ := loaded
    obtain ⟨⟨_, written, behind, queued⟩, ahead⟩ := accounts
    exact ⟨⟨fits, written, behind, queued⟩, ahead⟩
  | reset =>
    obtain ⟨⟨dataFits, written, _, _⟩, _⟩ := accounts
    refine ⟨⟨dataFits, written, Nat.zero_le _, ?_⟩, ?_⟩
    · simp [Connection.reset, SendBuf.clear]
    · simp [Connection.reset, SendBuf.clear, Ahead, Covers, SendBuf.total]
  | write _ => exact absurd rfl may
  | sendAll passed =>
    obtain ⟨queue, ahead⟩ := sendAll_queue accounts.toQueue passed
    exact ⟨queue, fun _ => ahead⟩
  | query due sent =>
    obtain ⟨_, _, _, conn, _⟩ := sendElictAck_frame sent
    rw [conn]
    exact accounts_of_same accounts rfl rfl rfl rfl
  | application quiet _ sent =>
    exact application_accounts accounts (running_of_quiet quiet) sent

theorem send_accounting_never_underflows (localaddr peeraddr : SocketAddr) (birth : Nat)
    (isServer : Bool) {trace : Trace F} {c : Connection F}
    (run : Run step OrdinaryCall (Connection.new localaddr peeraddr birth isServer) trace c) :
    (c.stopFlag = false →
      SendBuf.total (c.sendBuffer.data.drop c.sendBuffer.pos) ≤ c.sendBuffer.len ∧
      SendBuf.total (c.sendBuffer.data.drop c.sendBuffer.pos) ≤ c.sendBuffer.usedLength) ∧
    (c.writePktType.2 = .ok .application →
      (∀ b rest, c.sendBuffer.data.drop c.sendBuffer.pos = b :: rest →
        b.data.length ≤ c.sendBuffer.len ∧ b.data.length ≤ c.sendBuffer.usedLength) ∧
      ∀ out, ∃ r, c.sendBuffer.emit out = .ok r) := by
  have accounts := state_invariant Accounts (fresh_accounts localaddr peeraddr birth isServer)
    (fun _ _ _ _ accounts may taken =>
      step_accounts accounts (ordinary_not_write may) (sender_step taken)) run
  refine ⟨fun running => (accounts.ahead running).1, ?_⟩
  intro chosen
  have covered := ahead_front (accounts.ahead (running_of_quiet (quiet_of_application chosen)))
  exact ⟨covered, SendBuf.emit_succeeds (fun b mem => (accounts.queued b mem).1) covered⟩

end Runs

theorem first_pass_covered : ∃ (trace : Trace ℚ) (c : Connection ℚ),
    Run (@step ℚ referenceOctets checkedBuild rationalFloats) OrdinaryCall freshServer trace c ∧
      trace.map (fun t => t.action) = chunkSession.take 3 ∧
      c.writePktType.2 = .ok .application ∧ c.sendBuffer.data ≠ [] ∧
      SendBuf.total (c.sendBuffer.data.drop c.sendBuffer.pos) = 1020 ∧
      1020 ≤ c.sendBuffer.len ∧ 1020 ≤ c.sendBuffer.usedLength := by
  have passed : passes (@step ℚ referenceOctets checkedBuild rationalFloats) OrdinaryCall
      freshServer (chunkSession.take 3) (fun _ c =>
        decide (SendBuf.total (c.sendBuffer.data.drop c.sendBuffer.pos) = 1020) && !c.stopFlag &&
          decide (c.writePktType.2 = .ok .application)) = true := by
    decide +kernel
  obtain ⟨trace, c, run, played, outcome⟩ := played_run passed
  simp only [Bool.and_eq_true, decide_eq_true_eq, Bool.not_eq_true'] at outcome
  obtain ⟨⟨left, running⟩, chosen⟩ := outcome
  obtain ⟨covers, _⟩ := @send_accounting_never_underflows ℚ rationalFloats checkedBuild
    referenceOctets loopback loopback 0 true trace c run
  have bounds := covers running
  rw [left] at bounds
  refine ⟨trace, c, run, played, chosen, ?_, left, bounds.1, bounds.2⟩
  intro empty
  simp [empty, SendBuf.total] at left

end DmludpSendAccounting
