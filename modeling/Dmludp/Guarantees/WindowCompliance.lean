import Dmludp.Guarantees.PacketIntegrity
import Dmludp.Guarantees.WindowFloor

/- How much one pass may put on the wire. The limit is enforced after the fact: `sent` counts
   what was cut, `stopFlag` is raised by the packet that reaches the window, and a call that
   finds nothing to cut counts its whole buffer and raises nothing. -/
namespace DmludpWindowCompliance
open ByteCursor RustOutcome TracedRun DmludpPacket DmludpRange DmludpSend DmludpRecovery
open DmludpConnection DmludpConnection.Connection DmludpCalls DmludpEffects DmludpReceiveEffects
open DmludpSenderSteps DmludpSendAccounting DmludpPacketIntegrity DmludpWindowFloor
open DmludpReference

variable {F : Type}

def TransferCall (_ : Connection F) : Call → Prop
  | .dataSend _ => True
  | .sendAll _ => True
  | .sendData _ _ _ => True
  | .recvSlice _ _ => True
  | _ => False

instance (c : Connection F) (a : Call) : Decidable (TransferCall c a) :=
  match a with
  | .dataSend _ | .sendAll _ | .sendData _ _ _ | .recvSlice _ _ => inferInstanceAs (Decidable True)
  | .read _ | .write | .reset | .checkLoss _ | .newRtt _ | .setHandshake _ =>
      inferInstanceAs (Decidable False)

/-- The buffer ends where the written data ends, so beyond its last chunk there is nothing. -/
structure Level (c : Connection F) : Prop extends Queue c where
  level : c.writtenData = c.sendBuffer.off

/-- One pass after `total` content bytes, under window `w`. -/
structure Pass (w total : Nat) (c : Connection F) : Prop where
  window : c.sendBuffer.maxData = w
  counted : total ≤ c.sendBuffer.sent
  goesOn : c.stopFlag = false → total = 0 ∨ total < w
  bound : total ≤ w + sendBufferSize

theorem pass_same {w total : Nat} {c c' : Connection F} (pass : Pass w total c)
    (maxData : c'.sendBuffer.maxData = c.sendBuffer.maxData)
    (sent : c.sendBuffer.sent ≤ c'.sendBuffer.sent) (stopFlag : c'.stopFlag = c.stopFlag) :
    Pass w total c' := by
  obtain ⟨window, counted, goesOn, bound⟩ := pass
  exact ⟨maxData.trans window, counted.trans sent, by rw [stopFlag]; exact goesOn, bound⟩

section Wire
variable [Octets]

def contentBytes (ms : List Bytes) : Nat :=
  ((ms.filterMap (headerOf? .application)).map (fun h => h.pktLength.toNat)).sum

theorem contentBytes_append (xs ys : List Bytes) :
    contentBytes (xs ++ ys) = contentBytes xs + contentBytes ys := by
  unfold contentBytes
  rw [List.filterMap_append, List.map_append, List.sum_append]

theorem contentBytes_other {o : Reply}
    (silent : ∀ m, o.packet? = some m → headerOf? .application m = none) :
    contentBytes o.packet?.toList = 0 := by
  cases sent : o.packet? with
  | none => rfl
  | some m => simp [contentBytes, silent m sent]

theorem contentBytes_packet {pn off n : Nat} {priority : UInt8} {rest : Bytes}
    (small : n ≤ isizeMax) :
    contentBytes [(applicationHeader pn priority off n).encoded ++ rest] = n := by
  have size : (applicationHeader pn priority off n).pktLength.toNat = n := word_of_size small
  simp [contentBytes, headerOf?_application, size]

theorem contentBytes_finished (c : Connection F) (now pn off : Nat) (priority : UInt8)
    {body : Bytes} {n : Nat} (inside : n ≤ body.length) (small : n ≤ isizeMax) :
    contentBytes (packetOf
      (c.finishSend now ((applicationHeader pn priority off n).encoded ++ body) n).out
      (c.finishSend now ((applicationHeader pn priority off n).encoded ++ body) n).result).toList
        ≤ n := by
  cases stopped : c.isStopped with
  | true => simp [finishSend, stopped, packetOf, contentBytes]
  | false =>
    rw [packetOf_puts (finishSend_puts inside stopped), Option.toList_some,
      contentBytes_packet small]

end Wire

section Steps
variable [Profile]

theorem sendAll_level {c c' : Connection F} {now : Nat} {r : Except Error Bool} (before : Level c)
    (passed : SendAllCase c now (c', r)) : Level c' := by
  refine ⟨(sendAll_queue before.toQueue passed).1, ?_⟩
  cases passed with
  | drained _ _ => exact before.level
  | wrote inside stored =>
    obtain ⟨kept, pieces, dropped, filled⟩ := SendBuf.write_filled stored
    obtain ⟨data, marks, rfl, _⟩ := SendBuf.recvAndDrop_frame dropped
    have off := filled.off
    dsimp only at off ⊢
    rw [off, before.level]

variable [FloatOps F]

theorem application_level {c : Connection F} {now : Nat} {out : Bytes} {s : Sent F}
    (before : Level c) (sent : AppCase c now out s) : Level s.conn := by
  have kept := application_kept sent
  obtain ⟨len, used, pos, count, buffer⟩ := kept.buffer
  obtain ⟨⟨dataFits, written, behind, queued⟩, level⟩ := before
  refine ⟨⟨?_, ?_, ?_, ?_⟩, ?_⟩
  · rw [kept.sendDataVec]
    exact dataFits
  · rw [kept.writtenData]
    exact written
  · rw [kept.writtenData, buffer]
    exact behind
  · rw [buffer]
    exact queued
  · rw [kept.writtenData, buffer]
    exact level

variable [Octets]

theorem step_level {c c' : Connection F} {a : Call} {o : Reply} (before : Level c)
    (may : TransferCall c a) (taken : SenderStep c a o c') : Level c' := by
  cases taken with
  | kept same _ =>
    obtain ⟨marks, buffer⟩ := same.buffer
    refine ⟨queue_of_same before.toQueue same.sendDataVec same.writtenData buffer, ?_⟩
    rw [same.writtenData, buffer]
    exact before.level
  | dataSend loaded =>
    obtain ⟨⟨_, _, _, _, rfl⟩, fits⟩ := loaded
    obtain ⟨⟨_, written, behind, queued⟩, level⟩ := before
    exact ⟨⟨fits, written, behind, queued⟩, level⟩
  | reset | write _ => exact may.elim
  | sendAll passed => exact sendAll_level before passed
  | query _ sent =>
    obtain ⟨_, _, _, conn, _⟩ := sendElictAck_frame sent
    obtain ⟨⟨dataFits, written, behind, queued⟩, level⟩ := before
    rw [conn]
    exact ⟨⟨dataFits, written, behind, queued⟩, level⟩
  | application _ _ sent => exact application_level before sent

end Steps

theorem emit_counted [Profile] {s s' : SendBuf} {out out' : Bytes} {n off : Nat} {stop : Bool}
    (queued : ∀ b ∈ s.data, SendBuf.Queued b)
    (emitted : SendBuf.EmitCase s out (s', out', n, off, stop)) :
    s'.maxData = s.maxData ∧ s'.sent = s.sent + n ∧ (off ≠ s.off → n ≤ sendBufferSize) ∧
      (stop = false → s.sent + n < s.maxData) := by
  cases emitted with
  | @chunk b rest len usedLength front _ _ _ =>
    obtain ⟨pos, frame⟩ := SendBuf.settle_frame
      { s with len := len, usedLength := usedLength, pos := s.pos + 1 } b.data.length
    have mem : b ∈ s.data := List.mem_of_mem_drop (by rw [front]; simp)
    rw [frame]
    refine ⟨rfl, rfl, fun _ => (queued b mem).short, ?_⟩
    intro goes_on
    have below := SendBuf.settle_open goes_on
    exact below
  | cramped _ short =>
    obtain ⟨pos, frame⟩ := SendBuf.settle_frame s out.length
    rw [frame]
    exact ⟨rfl, rfl, fun _ => Nat.le_of_lt short, fun goes_on => SendBuf.settle_open goes_on⟩
  | past _ =>
    obtain ⟨pos, frame⟩ := SendBuf.settle_frame s out.length
    rw [frame]
    exact ⟨rfl, rfl, fun inside => absurd rfl inside, fun goes_on => SendBuf.settle_open goes_on⟩

section Passes
variable [FloatOps F]

theorem fresh_level (localaddr peeraddr : SocketAddr) (birth : Nat) :
    Level (Connection.accept localaddr peeraddr birth : Connection F) := by
  refine ⟨⟨Nat.zero_le _, Nat.zero_le _, Nat.zero_le _, ?_⟩, rfl⟩
  simp [Connection.accept, Connection.new, SendBuf.new]

variable [Profile]

theorem sendAll_opens {c c' : Connection F} {now w : Nat} {r : Except Error Bool}
    (enters : entersWrite c (.sendAll now) = true) (handed : handedWindow c = some w)
    (done : c.sendAll now = .ok (c', r)) : Pass w 0 c' := by
  obtain ⟨w', n, _, handed', _, stored⟩ := sendAll_hands enters done
  rw [handed, Option.some.injEq] at handed'
  subst handed'
  obtain ⟨kept, pieces, _, filled⟩ := SendBuf.write_filled stored
  exact ⟨filled.window, Nat.zero_le _, fun _ => Or.inl rfl, Nat.zero_le _⟩

variable [Octets]

theorem application_pass {w total : Nat} {c : Connection F} {now : Nat} {out : Bytes} {s : Sent F}
    (before : Level c) (pass : Pass w total c) (running : c.stopFlag = false)
    (sent : AppCase c now out s) :
    Pass w (total + contentBytes (packetOf s.out s.result).toList) s.conn := by
  have queued : ∀ b ∈ c.sendBuffer.data, SendBuf.Queued b := fun b mem => (before.queued b mem).1
  cases sent with
  | @nothing sendBuffer body n off stop _ emitted _ =>
    obtain ⟨window, count, _, _⟩ := emit_counted queued (SendBuf.emit_cases queued emitted)
    exact pass_same pass window (by dsimp only; omega) rfl
  | @packet sendBuffer body n off stop priority dic _ emitted inside _ _ =>
    have cut := SendBuf.emit_cases queued emitted
    obtain ⟨window, count, size, goes_on⟩ := emit_counted queued cut
    have small : n ≤ sendBufferSize := size (by rw [← before.level]; omega)
    have content := contentBytes_finished (transmitted c sendBuffer off stop dic) now
      c.pktNumSpaces.1.nextPktNum off priority (SendBuf.emit_size emitted).1
      (small.trans (by decide))
    obtain ⟨stamp, conn⟩ := finishSend_conn (transmitted c sendBuffer off stop dic) now
      ((applicationHeader c.pktNumSpaces.1.nextPktNum priority off n).encoded ++ body) n
    have counted := pass.counted
    have limit := pass.window
    rw [conn]
    constructor
    · exact window.trans limit
    · change _ ≤ sendBuffer.sent
      omega
    · intro still
      simp only [transmitted, running, Bool.false_or] at still
      have below := goes_on still
      omega
    · -- the packet that reaches the window was begun below it, or it is the first of the pass
      rcases pass.goesOn running with none_yet | below
      · omega
      · omega

theorem step_pass {w total : Nat} {c c' : Connection F} {a : Call} {o : Reply} (before : Level c)
    (pass : Pass w total c) (may : TransferCall c a) (same_pass : ∀ now, a ≠ .sendAll now)
    (taken : SenderStep c a o c') : Pass w (total + contentBytes o.packet?.toList) c' := by
  cases taken with
  | kept same silent =>
    obtain ⟨marks, buffer⟩ := same.buffer
    rw [contentBytes_other (fun m found => (silent m found).1), Nat.add_zero]
    exact pass_same pass (by rw [buffer]) (by rw [buffer]) same.stopFlag
  | dataSend loaded =>
    obtain ⟨⟨_, _, _, _, rfl⟩, _⟩ := loaded
    exact pass_same pass rfl (Nat.le_refl _) rfl
  | reset | write _ => exact may.elim
  | sendAll _ => exact absurd rfl (same_pass _)
  | query _ sent =>
    obtain ⟨_, _, _, conn, _⟩ := sendElictAck_frame sent
    rw [contentBytes_other (o := .sendData _ _) (query_unnumbered sent).2, Nat.add_zero, conn]
    exact pass_same pass rfl (Nat.le_refl _) rfl
  | application quiet _ sent => exact application_pass before pass (running_of_quiet quiet) sent

theorem run_pass {localaddr peeraddr : SocketAddr} {birth : Nat} {trace : Trace F}
    {c : Connection F}
    (run : Run step TransferCall (Connection.accept localaddr peeraddr birth) trace c) :
    Level c ∧ ∀ before t between now w, trace = before ++ t :: between →
      t.action = .sendAll now → entersWrite t.before t.action = true →
      handedWindow t.before = some w → (∀ u ∈ between, ∀ now, u.action ≠ .sendAll now) →
      Pass w (contentBytes (packets between)) c := by
  induction run with
  | start =>
    refine ⟨fresh_level _ _ _, ?_⟩
    intro before t between now w split
    simp at split
  | @step trace s s' a o earlier may taken ih =>
    obtain ⟨level, passes⟩ := ih
    refine ⟨step_level level may (sender_step taken), ?_⟩
    intro before t between now w split action enters handed same_pass
    rcases snoc_split split with ⟨rfl, rfl, rfl⟩ | ⟨rest, rfl, rfl⟩
    · dsimp only at action enters handed
      subst action
      cases step_cases taken with
      | sendAll done => exact sendAll_opens enters handed done
    · have pass := passes before t rest now w rfl action enters handed
        (fun u mem => same_pass u (List.mem_append_left _ mem))
      rw [packets_snoc, contentBytes_append]
      have here := same_pass ⟨s, a, o, s'⟩ (List.mem_append_right rest List.mem_cons_self)
      exact step_pass level pass may here (sender_step taken)

/-- In every run of a server, the Application packets between a `send_all` that wrote with window
    `w` and the next `send_all` announce at most `w` bytes and one block of content. -/
theorem window_never_exceeded (localaddr peeraddr : SocketAddr) (birth : Nat) {trace : Trace F}
    {c : Connection F}
    (run : Run step TransferCall (Connection.accept localaddr peeraddr birth) trace c)
    {before between later : Trace F} {t : Transition (Connection F) Call Reply}
    (split : trace = before ++ t :: between ++ later) {now w : Nat}
    (pass : t.action = .sendAll now) (enters : entersWrite t.before t.action = true)
    (handed : handedWindow t.before = some w)
    (same_pass : ∀ u ∈ between, ∀ now, u.action ≠ .sendAll now) :
    contentBytes (packets between) ≤ w + 1024 := by
  have shorter : ∃ c', Run step TransferCall (Connection.accept localaddr peeraddr birth)
      (before ++ t :: between) c' := by
    subst split
    cases later with
    | nil => exact ⟨c, by rw [List.append_nil] at run; exact run⟩
    | cons u later => exact ⟨u.before, (run_split run).1⟩
  obtain ⟨c', run'⟩ := shorter
  exact ((run_pass run').2 before t between now w rfl pass enters handed same_pass).bound

end Passes

theorem one_pass_within_window :
    ∃ (c : Connection ℚ) (first t : Transition (Connection ℚ) Call Reply) (between : Trace ℚ),
      Run (@step ℚ referenceOctets checkedBuild rationalFloats) TransferCall freshServer
        ([first] ++ t :: between) c ∧
      ([first] ++ t :: between).map (fun t => t.action) = chunkSession ∧
      @handedWindow ℚ rationalFloats checkedBuild t.before = some 9600 ∧
      @contentBytes referenceOctets (packets between) = 1020 ∧
      @contentBytes referenceOctets (packets between) ≤ 9600 + 1024 := by
  have passed : passes (@step ℚ referenceOctets checkedBuild rationalFloats) TransferCall
      freshServer chunkSession (fun trace _ => (trace.drop 1).head?.any (fun t =>
        entersWrite t.before t.action &&
          decide (@handedWindow ℚ rationalFloats checkedBuild t.before = some 9600)) &&
        decide (@contentBytes referenceOctets (packets (trace.drop 2)) = 1020)) = true := by
    decide +kernel
  obtain ⟨trace, c, run, played, outcome⟩ := played_run passed
  rcases trace with _ | ⟨first, _ | ⟨t, between⟩⟩
  · simp at outcome
  · simp at outcome
  · simp only [List.drop_succ_cons, List.drop_zero, List.head?_cons, Option.any_some,
      Bool.and_eq_true, decide_eq_true_eq] at outcome
    obtain ⟨⟨enters, handed⟩, content⟩ := outcome
    have calls := played
    simp only [chunkSession, List.map_cons, List.cons.injEq] at played
    obtain ⟨_, pass, rest⟩ := played
    refine ⟨c, first, t, between, run, calls, handed, content, ?_⟩
    refine @window_never_exceeded ℚ rationalFloats checkedBuild referenceOctets loopback loopback 0
      _ c run [first] between [] t (by simp) 1 9600 pass enters handed ?_
    intro u mem now again
    have call : u.action ∈ between.map (fun t => t.action) := List.mem_map_of_mem mem
    rw [rest, again] at call
    simp at call

end DmludpWindowCompliance
