import Mathlib.Algebra.Order.BigOperators.Group.List
import Dmludp.Endpoint.AckEntries
import Dmludp.Guarantees.FlushTermination
import Dmludp.Guarantees.PassOrder
import Dmludp.Guarantees.StopPacket

/- Progress of a transfer. What a server still has to bring across is what it has not cut yet and
   what it has cut and not seen acknowledged. `send_all` moves bytes from the first kind to the
   second; only an ACK takes bytes away, and a pass that is answered takes away all it sent. -/
namespace DmludpTransferProgress
open ByteCursor RustOutcome TracedRun OrderedMap StreamTiling DmludpPacket DmludpRange DmludpSend
open DmludpRecovery DmludpConnection DmludpConnection.Connection DmludpCalls DmludpEffects
open DmludpReceiveEffects DmludpSenderSteps DmludpAckEntries DmludpSegmentation
open DmludpPacketIntegrity DmludpFlush DmludpPassOrder DmludpReference

variable {F : Type}

def Withdrawn (c : Connection F) (o : Nat) : Prop := (o, false) ∈ c.sendBuffer.offsetRecv.entries

def standing (s : SendBuf) : List RangeBuf :=
  s.data.filter (fun b => decide ((b.off, false) ∉ s.offsetRecv.entries))

/-- The bytes still to be brought across: not cut yet, or cut and not acknowledged. -/
def outstanding (text : Bytes) (c : Connection F) : Nat :=
  (text.length - c.sendBuffer.off) + SendBuf.total (standing c.sendBuffer)

def Reported (o : Nat) (trace : Trace F) : Prop :=
  ∃ t ∈ trace, ∃ now buf, t.action = .recvSlice now buf ∧ ReportsReceived buf.bytes o

theorem reported_snoc {o : Nat} {trace : Trace F} {t : Transition (Connection F) Call Reply} :
    Reported o (trace ++ [t]) ↔ Reported o trace ∨
      ∃ now buf, t.action = .recvSlice now buf ∧ ReportsReceived buf.bytes o := by
  unfold Reported
  simp only [List.mem_append, List.mem_singleton]
  constructor
  · rintro ⟨u, mem | rfl, report⟩
    · exact Or.inl ⟨u, mem, report⟩
    · exact Or.inr report
  · rintro (⟨u, mem, report⟩ | report)
    · exact ⟨u, Or.inl mem, report⟩
    · exact ⟨t, Or.inr rfl, report⟩

theorem total_sublist {xs ys : List RangeBuf} (sub : xs.Sublist ys) :
    SendBuf.total xs ≤ SendBuf.total ys :=
  (sub.map _).sum_le_sum (fun _ _ => Nat.zero_le _)

theorem standing_all {s : SendBuf} (marks : ∀ e ∈ s.offsetRecv.entries, e.2 = true) :
    standing s = s.data := by
  apply List.filter_eq_self.mpr
  intro b _
  have stands : (b.off, false) ∉ s.offsetRecv.entries := fun mem => by cases marks _ mem
  exact decide_eq_true stands

theorem standing_le {s s' : SendBuf} (data : s'.data = s.data)
    (withdrawn : ∀ o, (o, false) ∈ s.offsetRecv.entries → (o, false) ∈ s'.offsetRecv.entries) :
    SendBuf.total (standing s') ≤ SendBuf.total (standing s) := by
  apply total_sublist
  unfold standing
  rw [data]
  apply List.monotone_filter_right
  intro b stands
  rw [decide_eq_true_eq] at stands ⊢
  exact fun before => stands (withdrawn _ before)

theorem standing_later {s : SendBuf} {k : Nat}
    (withdrawn : ∀ b ∈ s.data.take k, (b.off, false) ∈ s.offsetRecv.entries) :
    SendBuf.total (standing s) ≤ SendBuf.total (s.data.drop k) := by
  apply total_sublist
  have gone : (s.data.take k).filter
      (fun b => decide ((b.off, false) ∉ s.offsetRecv.entries)) = [] := by
    apply List.filter_eq_nil_iff.mpr
    intro b mem stays
    exact of_decide_eq_true stays (withdrawn b mem)
  unfold standing
  nth_rewrite 1 [← List.take_append_drop k s.data]
  rw [List.filter_append, gone, List.nil_append]
  exact List.filter_sublist

section Acknowledge

theorem markEntry_keeps {c : Connection F} {marks : OrdMap Nat Bool} {pair : UInt64 × UInt64}
    {o : Nat} (withdrawn : (o, false) ∈ marks.entries) :
    (o, false) ∈ (markEntry c marks pair).entries := by
  unfold markEntry
  split
  · rw [OrdMap.mem_set]
    by_cases here : o = pair.1.toNat
    · exact Or.inr ⟨by rw [here], false, by rw [← here]; exact withdrawn⟩
    · exact Or.inl ⟨withdrawn, here⟩
  · exact withdrawn

theorem markEntries_keep {c : Connection F} {ps : List (UInt64 × UInt64)}
    {marks : OrdMap Nat Bool} {o : Nat} (withdrawn : (o, false) ∈ marks.entries) :
    (o, false) ∈ (ps.foldl (markEntry c) marks).entries := by
  induction ps generalizing marks with
  | nil => exact withdrawn
  | cons p ps ih => exact ih (markEntry_keeps withdrawn)

theorem keys_markEntry (c : Connection F) (marks : OrdMap Nat Bool) (pair : UInt64 × UInt64) :
    (markEntry c marks pair).keys = marks.keys := by
  unfold markEntry
  split
  · exact OrdMap.keys_set _ _ _
  · rfl

theorem exists_of_key {m : OrdMap Nat Bool} {o : Nat} (key : o ∈ m.keys) :
    ∃ w, (o, w) ∈ m.entries := by
  obtain ⟨e, stored, same⟩ := List.mem_map.mp key
  exact ⟨e.2, by rw [← same]; exact stored⟩

theorem markEntries_withdraw {c : Connection F} {ps : List (UInt64 × UInt64)}
    {marks : OrdMap Nat Bool} {p : UInt64 × UInt64} (mem : p ∈ ps) (received : p.2 = 0)
    (key : p.1.toNat ∈ marks.keys) :
    (p.1.toNat, false) ∈ (ps.foldl (markEntry c) marks).entries := by
  induction ps generalizing marks with
  | nil => cases mem
  | cons q ps ih =>
    rw [List.foldl_cons]
    rcases List.mem_cons.mp mem with rfl | later
    · apply markEntries_keep
      have withdraws' : withdraws c p = true := by simp [withdraws, received]
      unfold markEntry
      rw [if_pos withdraws', OrdMap.mem_set]
      exact Or.inr ⟨rfl, exists_of_key key⟩
    · exact ih later (by rw [keys_markEntry]; exact key)

structure Retires (c : Connection F) (a : Call) (c' : Connection F) : Prop where
  data : c'.sendBuffer.data = c.sendBuffer.data
  off : c'.sendBuffer.off = c.sendBuffer.off
  keys : c'.sendBuffer.offsetRecv.keys = c.sendBuffer.offsetRecv.keys
  keeps : ∀ o, Withdrawn c o → Withdrawn c' o
  reports : ∀ now buf, a = .recvSlice now buf → ∀ o ∈ c.sendBuffer.offsetRecv.keys,
    ReportsReceived buf.bytes o → Withdrawn c' o

theorem retires_same {c c' : Connection F} {a : Call}
    (data : c'.sendBuffer.data = c.sendBuffer.data) (off : c'.sendBuffer.off = c.sendBuffer.off)
    (marks : c'.sendBuffer.offsetRecv = c.sendBuffer.offsetRecv)
    (silent : ∀ now buf, a = .recvSlice now buf → ∀ o, ¬ ReportsReceived buf.bytes o) :
    Retires c a c' := by
  refine ⟨data, off, by rw [marks], ?_, ?_⟩
  · unfold Withdrawn
    rw [marks]
    exact fun _ => id
  · exact fun now buf same o _ report => absurd report (silent now buf same o)

variable [Profile] [FloatOps F]

theorem processAck_withdraws {c c' : Connection F} {buf : Bytes}
    (done : c.processAck buf = .ok c') :
    c'.sendBuffer.data = c.sendBuffer.data ∧ c'.sendBuffer.off = c.sendBuffer.off ∧
      (∀ o, Withdrawn c o → Withdrawn c' o) ∧
      ∀ o ∈ c.sendBuffer.offsetRecv.keys, ReportsReceived buf o → Withdrawn c' o := by
  obtain ⟨complete, _⟩ := processAck_headed done
  obtain ⟨head, ps, layout, covered⟩ := processAck_accepts done
  rw [processAck_eq complete layout covered] at done
  obtain ⟨recovery, _, done⟩ := bind_ok_iff.mp done
  obtain ⟨maxOff, raised⟩ := raiseMaxOff_frame c head
  rw [raised, foldl_noteEntry, Except.ok.injEq] at done
  subst done
  refine ⟨rfl, rfl, fun o withdrawn => markEntries_keep withdrawn, ?_⟩
  rintro o key ⟨_, _, head', ps', layout', p, mem, rfl, received⟩
  have same : u64Bytes head ++ ps.flatMap pairBytes = u64Bytes head' ++ ps'.flatMap pairBytes :=
    layout.symm.trans layout'
  have sizes : (u64Bytes head).length = (u64Bytes head').length := by
    rw [u64Bytes_length, u64Bytes_length]
  have pairs : ps = ps' :=
    records_unique (by decide) pairBytes_length pairBytes_injective (List.append_inj same sizes).2
  subst pairs
  exact markEntries_withdraw mem received key

theorem recvSlice_retires {c c' : Connection F} {now : Nat} {buf : Slice} {r : Except Error Nat}
    (server : c.isServer = true) (received : RecvCase c now buf.bytes (c', r)) :
    Retires c (.recvSlice now buf) c' := by
  have other : ∀ {ty : PacketType}, (decodeHeader buf.bytes).ty = ty → ty ≠ .ack →
      ∀ now' buf', Call.recvSlice now buf = .recvSlice now' buf' →
        ∀ o, ¬ ReportsReceived buf'.bytes o := by
    rintro ty kind unlike now' buf' same o ⟨_, ack, _⟩
    injection same with _ bufs
    subst bufs
    exact unlike (kind.symm.trans ack)
  cases received with
  | ack complete kind _ acked =>
    obtain ⟨data, off, keeps, reports⟩ := processAck_withdraws acked
    obtain ⟨_, _, _, c1, _, _, ⟨⟨_, _, eq⟩, keys, _⟩, same⟩ := processAck_effect acked
    subst eq same
    refine ⟨data, off, keys, keeps, ?_⟩
    intro now' buf' call o key report
    injection call with _ bufs
    subst bufs
    exact reports o key report
  | short _ incomplete =>
    refine retires_same rfl rfl rfl ?_
    rintro now' buf' same o ⟨complete, _⟩
    injection same with _ bufs
    subst bufs
    omega
  | silent _ _ kind client =>
    refine retires_same rfl rfl rfl ?_
    rintro now' buf' same o ⟨_, ack, _⟩
    injection same with _ bufs
    subst bufs
    rw [client ack] at server
    cases server
  | handshakeServer _ _ kind _ => exact retires_same rfl rfl rfl (other kind (by simp))
  | handshakeClient _ kind _ => exact retires_same rfl rfl rfl (other kind (by simp))
  | elictAck _ _ kind _ => exact retires_same rfl rfl rfl (other kind (by simp))
  | application _ kind _ => exact retires_same rfl rfl rfl (other kind (by simp))

theorem sendData_retires [Octets] {c : Connection F} {now : Nat} {order : IterOrder} {out : Slice}
    {s : Sent F} (sent : SendCase c now order out.bytes s) :
    Retires c (.sendData now order out) s.conn := by
  suffices same : s.conn.sendBuffer.data = c.sendBuffer.data ∧
      s.conn.sendBuffer.off = c.sendBuffer.off ∧
      s.conn.sendBuffer.offsetRecv = c.sendBuffer.offsetRecv from
    retires_same same.1 same.2.1 same.2.2 (fun _ _ call => by cases call)
  cases sent with
  | empty _ | idle _ => exact ⟨rfl, rfl, rfl⟩
  | handshake completed confirmed due =>
    obtain ⟨_, _, conn, _⟩ := sendHandshake_effect { c with
      handshakeCompleted := completed
      handshakeConfirmed := confirmed } now out.bytes
    rw [conn]
    exact ⟨rfl, rfl, rfl⟩
  | elictAck _ sent =>
    obtain ⟨_, _, _, conn, _⟩ := sendElictAck_frame sent
    rw [conn]
    exact ⟨rfl, rfl, rfl⟩
  | ack quiet asked =>
    have running : isStopped { c with recvFlag := false } = false := by
      simp [isStopped, running_of_quiet quiet]
    rcases sendAckPacket_effect _ now order out.bytes running with ⟨_, conn, _⟩ | ⟨_, conn, _⟩
    · rw [conn]
      exact ⟨rfl, rfl, rfl⟩
    · rw [conn]
      exact ⟨rfl, rfl, rfl⟩
  | application _ _ sent =>
    obtain ⟨_, _, _, _, buffer⟩ := (application_kept (sendApplication_cases sent)).buffer
    rw [buffer]
    exact ⟨rfl, rfl, rfl⟩
  | stop _ _ =>
    rw [(sendStop_effect c out.bytes).1]
    exact ⟨rfl, rfl, rfl⟩

theorem step_retires [Octets] {c c' : Connection F} {a : Call} {o : Reply}
    (server : c.isServer = true) (may : ServerCall c a) (same_pass : ∀ now, a ≠ .sendAll now)
    (taken : step c a = .ok (c', o)) : Retires c a c' := by
  cases step_cases taken with
  | sendData done => exact sendData_retires (sendData_cases done)
  | recvSlice done => exact recvSlice_retires server (recvSlice_cases done)
  | sendAll _ => exact absurd rfl (same_pass _)
  | dataSend _ | write _ | reset | checkLoss _ | newRtt | read _ | setHandshake => exact may.elim

end Acknowledge

section Fill
variable [Profile]

/-- `send_all` moves bytes from the data to the queue and drops what was acknowledged; what is
    outstanding stays, every mark stands, and the window is filled if there is data for it. -/
theorem sendAll_outstanding {text : Bytes} {c c' : Connection F} {now : Nat}
    {r : Except Error Bool} (stream : Stream text c) (passed : SendAllCase c now (c', r)) :
    outstanding text c' = outstanding text c ∧ standing c'.sendBuffer = c'.sendBuffer.data ∧
      (c'.sendBuffer.maxData ≤ SendBuf.total c'.sendBuffer.data ∨
        c'.sendBuffer.off = text.length) := by
  obtain ⟨_, _, grown, _, stand⟩ := sendAll_grown stream passed
  have whole := standing_all stand
  refine ⟨?_, whole, ?_⟩
  · cases passed with
    | drained _ _ => rfl
    | wrote _ stored =>
      obtain ⟨kept, pieces, dropped, filled⟩ := SendBuf.write_filled stored
      obtain ⟨kept', dropped', left⟩ := DmludpSendQueue.recvAndDrop_filter stream.lockstep c.maxOff
      rw [dropped, Except.ok.injEq] at dropped'
      subst dropped'
      obtain ⟨_, _, frame, _⟩ := SendBuf.recvAndDrop_frame dropped
      have start : kept.off = c.sendBuffer.off := by rw [frame]
      have off := filled.off
      have inside := grown.stream.inside
      have left' : kept.data = standing c.sendBuffer := left
      unfold outstanding
      rw [whole]
      dsimp only at inside ⊢
      rw [filled.queue, SendBuf.total_append, SendBuf.total_place, ← filled.count, left']
      omega
  · cases passed with
    | drained all _ =>
      right
      have written := stream.written
      have inside := stream.inside
      rw [stream.data] at all
      dsimp only
      omega
    | wrote _ stored =>
      obtain ⟨kept, pieces, dropped, filled⟩ := SendBuf.write_filled stored
      obtain ⟨_, _, frame, _⟩ := SendBuf.recvAndDrop_frame dropped
      have start : kept.off = c.sendBuffer.off := by rw [frame]
      have off := filled.off
      have written := stream.written
      have inside := stream.inside
      dsimp only
      rcases SendBuf.write_fills stored with full | all
      · left
        rw [filled.window]
        exact full
      · right
        rw [List.length_drop, stream.data] at all
        omega

structure Finished (text : Bytes) (c : Connection F) : Prop where
  written : c.sendBuffer.off = text.length
  empty : c.sendBuffer.data = []

theorem sendAll_finished {text : Bytes} {c c' : Connection F} {now : Nat}
    {r : Except Error Bool} (stream : Stream text c) (nothing : outstanding text c = 0)
    (passed : SendAllCase c now (c', r)) : Finished text c' := by
  obtain ⟨kept, whole, _⟩ := sendAll_outstanding stream passed
  obtain ⟨_, _, grown, _⟩ := sendAll_grown stream passed
  have inside := grown.stream.inside
  rw [nothing] at kept
  unfold outstanding at kept
  rw [whole] at kept
  refine ⟨by omega, ?_⟩
  cases queue : c'.sendBuffer.data with
  | nil => rfl
  | cons b rest =>
    have filled := (grown.stream.queued b (by rw [queue]; exact List.mem_cons_self)).1.filled
    rw [queue] at kept
    simp only [SendBuf.total, List.map_cons, List.sum_cons] at kept
    omega

/-- What was transmitted is cut, and withdrawn if it is still queued. -/
def Spent (sent : List Nat) (c : Connection F) : Prop :=
  ∀ o ∈ sent, o < c.sendBuffer.off ∧ ∀ b ∈ c.sendBuffer.data, b.off = o → Withdrawn c o

theorem sendAll_spent {text : Bytes} {sent : List Nat} {c c' : Connection F} {now : Nat}
    {r : Except Error Bool} (stream : Stream text c) (spent : Spent sent c)
    (passed : SendAllCase c now (c', r)) :
    ∀ o ∈ sent, o < c'.sendBuffer.off ∧ ∀ b ∈ c'.sendBuffer.data, b.off ≠ o := by
  intro o mem
  obtain ⟨below, withdrawn⟩ := spent o mem
  obtain ⟨kept, added, grown, stands, _⟩ := sendAll_grown stream passed
  refine ⟨Nat.lt_of_lt_of_le below (tiles_bounds grown.tiles), ?_⟩
  intro b queued same
  rw [grown.queue] at queued
  rcases List.mem_append.mp queued with old | new
  · have gone := withdrawn b (grown.sub.subset old) same
    rw [← same] at gone
    cases OrdMap.mem_unique gone (stands b old)
  · obtain ⟨low, _⟩ := tiles_mem grown.tiles (List.mem_map_of_mem (f := pieceOf) new)
    simp only [pieceOf] at low
    omega

end Fill

section Passes
variable [Profile] [FloatOps F] [Octets]

theorem session_server {c0 : Connection F} (session : Session c0) {trace : Trace F}
    {c : Connection F} (run : Run step RoomyServerCall c0 trace c) : c.isServer = true := by
  obtain ⟨localaddr, peeraddr, birth, earlier, idle, text, before, sent⟩ := session
  have begun : idle.isServer = true :=
    state_invariant (fun c : Connection F => c.isServer = true) rfl
      (fun _ _ _ _ side _ taken => (step_side (sender_step taken)).trans side) before
  obtain ⟨⟨_, _, _, _, loaded⟩, _⟩ := dataSend_loaded sent
  refine state_invariant (fun c : Connection F => c.isServer = true) ?_
    (fun _ _ _ _ side _ taken => (step_side (sender_step taken)).trans side) run
  rw [loaded]
  exact begun

structure PassRetires (c c' : Connection F) (between : Trace F) : Prop where
  data : c'.sendBuffer.data = c.sendBuffer.data
  off : c'.sendBuffer.off = c.sendBuffer.off
  keys : c'.sendBuffer.offsetRecv.keys = c.sendBuffer.offsetRecv.keys
  reports : ∀ o ∈ c.sendBuffer.offsetRecv.keys, Reported o between → Withdrawn c' o

theorem run_passRetires {c0 : Connection F} (session : Session c0) {trace : Trace F}
    {c : Connection F} (run : Run step RoomyServerCall c0 trace c) :
    ∀ before t between, trace = before ++ t :: between →
      (∀ u ∈ between, ∀ now, u.action ≠ .sendAll now) → PassRetires t.after c between := by
  induction run with
  | start =>
    intro before t between split
    simp at split
  | @step trace s s' a o earlier may taken ih =>
    intro before t between split same_pass
    rcases snoc_split split with ⟨rfl, rfl, rfl⟩ | ⟨rest, rfl, rfl⟩
    · refine ⟨rfl, rfl, rfl, ?_⟩
      rintro o _ ⟨u, mem, _⟩
      cases mem
    · obtain ⟨data, off, keys, reports⟩ := ih before t rest rfl
        (fun u mem => same_pass u (List.mem_append_left _ mem))
      have here := same_pass ⟨s, a, o, s'⟩ (List.mem_append_right rest List.mem_cons_self)
      have retires := step_retires (session_server session earlier) may.1 here taken
      refine ⟨retires.data.trans data, retires.off.trans off, retires.keys.trans keys, ?_⟩
      intro off' key reported
      rcases reported_snoc.mp reported with old | ⟨now, buf, call, report⟩
      · exact retires.keeps off' (reports off' key old)
      · exact retires.reports now buf call off' (by rw [keys]; exact key) report

/-- A run made of an opening and of passes, each run to its end and answered in full; with the
    windows of the passes. -/
inductive AnsweredPasses (c0 : Connection F) : List Nat → Trace F → Connection F → Prop where
  | opening {trace : Trace F} {c : Connection F} (run : Run step RoomyServerCall c0 trace c)
      (front : c.sendBuffer.pos = 0) : AnsweredPasses c0 [] trace c
  | pass {ws : List Nat} {trace between : Trace F} {c c' : Connection F}
      {t : Transition (Connection F) Call Reply} {now : Nat}
      (earlier : AnsweredPasses c0 ws trace c)
      (run : Run step RoomyServerCall c0 (trace ++ t :: between) c')
      (begins : t.action = .sendAll now)
      (same_pass : ∀ u ∈ between, ∀ now, u.action ≠ .sendAll now)
      (ended : c'.stopFlag = true)
      (answered : ∀ o ∈ offsetsSent (packets between), Reported o between) :
      AnsweredPasses c0 (ws ++ [t.after.sendBuffer.maxData]) (trace ++ t :: between) c'

theorem answered_run {c0 : Connection F} {ws : List Nat} {trace : Trace F} {c : Connection F}
    (passes : AnsweredPasses c0 ws trace c) : Run step RoomyServerCall c0 trace c := by
  cases passes with
  | opening run _ => exact run
  | pass _ run _ _ _ _ => exact run

/-- A pass that is over and answered in full brings its window across, or all there is. -/
theorem pass_progress {c0 : Connection F} (session : Session c0) {before between : Trace F}
    {t : Transition (Connection F) Call Reply} {c : Connection F} {now : Nat}
    (run : Run step RoomyServerCall c0 (before ++ t :: between) c)
    (begins : t.action = .sendAll now) (front : t.before.sendBuffer.pos = 0)
    (same_pass : ∀ u ∈ between, ∀ now, u.action ≠ .sendAll now) (ended : c.stopFlag = true)
    (answered : ∀ o ∈ offsetsSent (packets between), Reported o between) :
    outstanding c0.sendDataVec c ≤
      outstanding c0.sendDataVec t.before - t.after.sendBuffer.maxData := by
  obtain ⟨earlier, _, taken⟩ := run_split run
  have stream := (run_numbered session earlier).stream
  obtain ⟨k, stands, sent⟩ := run_inPass session run before t between now rfl begins front same_pass
  obtain ⟨data, off, _, reports⟩ := run_passRetires session run before t between rfl same_pass
  obtain ⟨c1, a, o, c2⟩ := t
  dsimp only at begins taken stream stands sent data off reports ⊢
  subst begins
  cases step_cases taken with
  | @sendAll _ _ r done =>
    have passed := sendAll_cases done
    obtain ⟨_, _, grown, _⟩ := sendAll_grown stream passed
    obtain ⟨kept, whole, filled⟩ := sendAll_outstanding stream passed
    have lockstep := grown.stream.lockstep
    have withdrawn : ∀ b ∈ c2.sendBuffer.data.take k, Withdrawn c b.off := by
      intro b mem
      have queued : b ∈ c2.sendBuffer.data := List.mem_of_mem_take mem
      apply reports
      · rw [lockstep]
        exact List.mem_map_of_mem queued
      · apply answered
        rw [← sent]
        exact List.mem_map_of_mem mem
    have rest : SendBuf.total (standing c.sendBuffer) ≤
        SendBuf.total (c2.sendBuffer.data.drop k) := by
      rw [← data]
      exact standing_later (by rw [data]; exact withdrawn)
    have parts : SendBuf.total c2.sendBuffer.data = SendBuf.total (c2.sendBuffer.data.take k) +
        SendBuf.total (c2.sendBuffer.data.drop k) := by
      rw [← SendBuf.total_append, List.take_append_drop]
    rw [← kept]
    unfold outstanding
    rw [whole, off]
    obtain ⟨_, _, enough | enough⟩ := stands.stopped ended
    · have nothing : SendBuf.total (c2.sendBuffer.data.drop k) = 0 := by
        rw [enough, List.drop_length]
        rfl
      omega
    · omega

theorem step_outstanding {text : Bytes} {c c' : Connection F} {a : Call} {o : Reply}
    (stream : Stream text c) (server : c.isServer = true) (may : ServerCall c a)
    (taken : step c a = .ok (c', o)) : outstanding text c' ≤ outstanding text c := by
  by_cases passes : ∃ now, a = .sendAll now
  · obtain ⟨now, rfl⟩ := passes
    cases step_cases taken with
    | sendAll done => exact (sendAll_outstanding stream (sendAll_cases done)).1.le
  · have retires := step_retires server may (fun now same => passes ⟨now, same⟩) taken
    unfold outstanding
    rw [retires.off]
    exact Nat.add_le_add_left (standing_le retires.data retires.keeps) _

theorem run_outstanding {c0 : Connection F} (session : Session c0) {trace : Trace F}
    {c : Connection F} (run : Run step RoomyServerCall c0 trace c) :
    outstanding c0.sendDataVec c ≤ c0.sendDataVec.length := by
  refine run_invariant (fun _ c => outstanding c0.sendDataVec c ≤ c0.sendDataVec.length) ?_ ?_ run
  · obtain ⟨unused, _⟩ := session_unused session
    simp [outstanding, standing, unused.queue, SendBuf.total]
  · intro trace c a o c' earlier bound may taken
    exact (step_outstanding (run_numbered session earlier).stream
      (session_server session earlier) may.1 taken).trans bound

theorem answered_front {c0 : Connection F} (session : Session c0) {ws : List Nat}
    {trace : Trace F} {c : Connection F} (passes : AnsweredPasses c0 ws trace c) :
    c.sendBuffer.pos = 0 := by
  induction passes with
  | opening _ front => exact front
  | @pass ws trace between c c' t now earlier run begins same_pass ended _ front =>
    have here : t.before = c :=
      (run_end (run_split run).1).trans (run_end (answered_run earlier)).symm
    rw [← here] at front
    obtain ⟨k, stands, _⟩ := run_inPass session run trace t between now rfl begins front same_pass
    exact (stands.stopped ended).1

theorem step_finished {text : Bytes} {c c' : Connection F} {a : Call} {o : Reply}
    (stream : Stream text c) (orderly : Orderly c) (finished : Finished text c)
    (may : RoomyServerCall c a) (taken : SenderStep c a o c') :
    Finished text c' ∧ offsetsSent o.packet?.toList = [] := by
  obtain ⟨written, empty⟩ := finished
  obtain ⟨kept, added, grown⟩ := step_grown stream may.1 taken
  have inside := grown.stream.inside
  have none_kept : kept = [] := by
    have sub := grown.sub
    rw [empty] at sub
    exact List.sublist_nil.mp sub
  have none_added : added = [] := by
    apply List.eq_nil_iff_forall_not_mem.mpr
    intro b mem
    obtain ⟨low, high, _⟩ := tiles_mem grown.tiles (List.mem_map_of_mem (f := pieceOf) mem)
    have filled := (grown.blocks b mem).1
    simp only [pieceOf] at low high
    omega
  refine ⟨⟨?_, ?_⟩, ?_⟩
  · have bounds := tiles_bounds grown.tiles
    omega
  · rw [grown.queue, none_kept, none_added]
    rfl
  · cases taken with
    | kept _ silent => exact offsetsSent_other (fun m found => (silent m found).1)
    | dataSend _ | reset | write _ => exact may.1.elim
    | sendAll _ => rfl
    | query _ sent => exact offsetsSent_other (o := .sendData _ _) (query_unnumbered sent).2
    | application quiet _ sent =>
      cases application_served stream (orderly_unasked orderly (running_of_quiet quiet)) sent with
      | nothing _ result _ =>
        rw [packet?_sendData, packetOf_error result]
        rfl
      | chunk front _ _ _ _ _ _ _ =>
        rw [empty] at front
        simp at front

theorem run_finished {c0 : Connection F} (session : Session c0) {trace : Trace F}
    {c : Connection F} (run : Run step RoomyServerCall c0 trace c) :
    ∀ before u rest, trace = before ++ u :: rest → Finished c0.sendDataVec u.after →
      Finished c0.sendDataVec c ∧ offsetsSent (packets rest) = [] := by
  induction run with
  | start =>
    intro before u rest split
    simp at split
  | @step trace s s' a o earlier may taken ih =>
    intro before u rest split finished
    rcases snoc_split split with ⟨rfl, rfl, rfl⟩ | ⟨rest, rfl, rfl⟩
    · exact ⟨finished, rfl⟩
    · obtain ⟨still, silent⟩ := ih before u rest rfl finished
      have numbered := run_numbered session earlier
      obtain ⟨onward, none_sent⟩ := step_finished numbered.stream numbered.orderly still may
        (sender_step taken)
      exact ⟨onward, by rw [packets_snoc, offsetsSent_append, silent, none_sent, List.nil_append]⟩

theorem packets_sendAll {before between : Trace F} {t : Transition (Connection F) Call Reply}
    {now : Nat} (begins : t.action = .sendAll now)
    (taken : step t.before t.action = .ok (t.after, t.reply)) :
    packets (before ++ t :: between) = packets before ++ packets between := by
  obtain ⟨c1, a, o, c2⟩ := t
  dsimp only at begins taken
  subst begins
  cases step_cases taken with
  | sendAll _ =>
    unfold packets
    rw [List.filterMap_append, List.filterMap_cons]
    rfl

theorem pass_spent {c0 : Connection F} (session : Session c0) {before between : Trace F}
    {t : Transition (Connection F) Call Reply} {c : Connection F} {now : Nat}
    (run : Run step RoomyServerCall c0 (before ++ t :: between) c)
    (begins : t.action = .sendAll now) (front : t.before.sendBuffer.pos = 0)
    (same_pass : ∀ u ∈ between, ∀ now, u.action ≠ .sendAll now)
    (answered : ∀ o ∈ offsetsSent (packets between), Reported o between)
    (spent : Spent (offsetsSent (packets before)) t.before) :
    Spent (offsetsSent (packets (before ++ t :: between))) c ∧
      ∀ o ∈ offsetsSent (packets between), o ∉ offsetsSent (packets before) := by
  obtain ⟨earlier, _, taken⟩ := run_split run
  have stream := (run_numbered session earlier).stream
  obtain ⟨k, stands, sent⟩ := run_inPass session run before t between now rfl begins front same_pass
  obtain ⟨data, off, _, reports⟩ := run_passRetires session run before t between rfl same_pass
  have parts := @packets_sendAll _ _ _ _ before between _ _ begins taken
  rw [parts]
  obtain ⟨c1, a, o, c2⟩ := t
  dsimp only at begins taken stream stands sent data off reports spent ⊢
  subst begins
  cases step_cases taken with
  | @sendAll _ _ r done =>
    have passed := sendAll_cases done
    have older := sendAll_spent stream spent passed
    obtain ⟨_, _, grown, _⟩ := sendAll_grown stream passed
    have chunk : ∀ o ∈ offsetsSent (packets between), ∃ b ∈ c2.sendBuffer.data, b.off = o := by
      intro o mem
      rw [← sent] at mem
      obtain ⟨b, inPass, same⟩ := List.mem_map.mp mem
      exact ⟨b, List.mem_of_mem_take inPass, same⟩
    constructor
    · intro o mem
      rw [offsetsSent_append] at mem
      rw [data, off]
      rcases List.mem_append.mp mem with old | new
      · obtain ⟨below, absent⟩ := older o old
        exact ⟨below, fun b queued same => absurd same (absent b queued)⟩
      · obtain ⟨b, queued, rfl⟩ := chunk o new
        have key : b.off ∈ c2.sendBuffer.offsetRecv.keys := by
          rw [grown.stream.lockstep]
          exact List.mem_map_of_mem queued
        exact ⟨stream_below grown.stream b queued,
          fun _ _ _ => reports b.off key (answered b.off new)⟩
    · intro o new old
      obtain ⟨b, queued, same⟩ := chunk o new
      exact (older o old).2 b queued same

theorem answered_progress {c0 : Connection F} (session : Session c0) {ws : List Nat}
    {trace : Trace F} {c : Connection F} (passes : AnsweredPasses c0 ws trace c) :
    outstanding c0.sendDataVec c ≤ c0.sendDataVec.length - ws.sum := by
  induction passes with
  | opening run _ => simpa using run_outstanding session run
  | @pass ws trace between c c' t now earlier run begins same_pass ended answered ih =>
    have here : t.before = c :=
      (run_end (run_split run).1).trans (run_end (answered_run earlier)).symm
    have front := answered_front session earlier
    rw [← here] at ih front
    have moved := pass_progress session run begins front same_pass ended answered
    rw [List.sum_append, List.sum_singleton]
    omega

theorem answered_over {c0 : Connection F} (session : Session c0) {ws : List Nat}
    {trace : Trace F} {c : Connection F} (passes : AnsweredPasses c0 ws trace c)
    (enough : c0.sendDataVec.length ≤ ws.sum) {u : Transition (Connection F) Call Reply}
    {rest : Trace F} {c' : Connection F} {now : Nat}
    (run : Run step RoomyServerCall c0 (trace ++ u :: rest) c') (begins : u.action = .sendAll now) :
    u.after.sendBuffer.data = [] ∧ offsetsSent (packets rest) = [] := by
  have progress := answered_progress session passes
  obtain ⟨earlier, _, taken⟩ := run_split run
  have here : u.before = c := (run_end earlier).trans (run_end (answered_run passes)).symm
  have finished : Finished c0.sendDataVec u.after := by
    rw [here, begins] at taken
    have stream := (run_numbered session (answered_run passes)).stream
    cases outcome : u.reply with
    | sendAll r =>
      rw [outcome] at taken
      cases step_cases taken with
      | sendAll done => exact sendAll_finished stream (by omega) (sendAll_cases done)
    | _ =>
      rw [outcome] at taken
      cases step_cases taken
  exact ⟨finished.empty, (run_finished session run trace u rest rfl finished).2⟩

/-- Answered passes bring at least the sum of their windows across, whatever the windows were and
    whatever else arrived; once that covers the data, the next `send_all` finds the queue empty
    and no Application packet goes out any more. -/
theorem answered_passes_transfer {c0 : Connection F} (session : Session c0) {ws : List Nat}
    {trace : Trace F} {c : Connection F} (passes : AnsweredPasses c0 ws trace c) :
    outstanding c0.sendDataVec c ≤ c0.sendDataVec.length - ws.sum ∧
    (c0.sendDataVec.length ≤ ws.sum → ∀ u rest c' now,
      Run step RoomyServerCall c0 (trace ++ u :: rest) c' → u.action = .sendAll now →
        u.after.sendBuffer.data = [] ∧ offsetsSent (packets rest) = []) :=
  ⟨answered_progress session passes, fun enough _ _ _ _ run begins =>
    answered_over session passes enough run begins⟩

theorem answered_extends {c0 : Connection F} {ws : List Nat} {trace seg : Trace F}
    {c c' : Connection F} (earlier : AnsweredPasses c0 ws trace c)
    (run : Run step RoomyServerCall c seg c') {now w : Nat} {rest : List Call} {offs : List Nat}
    (calls : seg.map (fun t => t.action) = .sendAll now :: rest)
    (same_pass : ∀ a ∈ rest, ∀ now, a ≠ .sendAll now) (ended : c'.stopFlag = true)
    (window : seg.head?.map (fun t => t.after.sendBuffer.maxData) = some w)
    (sent : offsetsSent (packets seg.tail) = offs)
    (answered : ∀ o ∈ offs, ∃ now buf, .recvSlice now buf ∈ rest ∧ ReportsReceived buf.bytes o) :
    AnsweredPasses c0 (ws ++ [w]) (trace ++ seg) c' := by
  cases seg with
  | nil => cases calls
  | cons t between =>
    obtain ⟨begins, later⟩ := List.cons.inj calls
    rw [List.head?_cons, Option.map_some, Option.some.injEq] at window
    rw [List.tail_cons] at sent
    rw [← window]
    refine .pass earlier (run_append (answered_run earlier) run) begins ?_ ended ?_
    · intro u mem
      exact same_pass u.action (later ▸ List.mem_map_of_mem mem)
    · intro o mem
      obtain ⟨now', buf, heard, report⟩ := answered o (sent ▸ mem)
      obtain ⟨u, mem', call⟩ := List.mem_map.mp (later ▸ heard)
      exact ⟨u, mem', now', buf, call, report⟩

end Passes

def receipts (offs : List Nat) (few : offs.length ≤ 82) : Slice :=
  datagram (Header.mk .ack 0 0 0 (UInt64.ofNat (16 * offs.length + 8)))
    (u64Bytes 0 ++ (offs.map (fun o => (UInt64.ofNat o, 0))).flatMap pairBytes) (by
      rw [List.length_append, pairs_length, List.length_map, u64Bytes_length]
      omega)

theorem receipts_report {offs : List Nat} (few : offs.length ≤ 82) {o : Nat} (mem : o ∈ offs)
    (word : o < wordSize) : ReportsReceived (receipts offs few).bytes o := by
  have complete : 26 ≤ (receipts offs few).bytes.length := by
    rw [receipts, datagram, List.length_append, encoded_length]
    exact Nat.le_add_right _ _
  refine ⟨complete, ?_, 0, offs.map (fun o => (UInt64.ofNat o, 0)),
    List.drop_left' (encoded_length _), (UInt64.ofNat o, 0), List.mem_map_of_mem mem, ?_, rfl⟩
  · rw [receipts, datagram, decode_encoded (by simp)]
  · exact UInt64.toNat_ofNat_of_lt' word

def tenOffsets : List Nat := (List.range 10).map (fun i => 1024 * i)

theorem tenOffsets_few : tenOffsets.length ≤ 82 := by decide

theorem tenOffsets_word : ∀ o ∈ tenOffsets, o < wordSize := by decide

def firstPass : List Call :=
  [.sendAll 1, .recvSlice 5 (bareDatagram 2)] ++
    List.replicate 12 (.sendData 6 storedOrder outBuffer) ++
    [.recvSlice 8 (receipts tenOffsets tenOffsets_few)]

theorem lastOffset_few : [9600].length ≤ 82 := by decide

def secondPass : List Call :=
  [.sendAll 9] ++ List.replicate 2 (.sendData 10 storedOrder outBuffer) ++
    [.recvSlice 11 (receipts [9600] lastOffset_few)]

theorem two_passes_transfer : ∃ (c0 c c' : Connection ℚ) (first second rest : Trace ℚ)
    (u : Transition (Connection ℚ) Call Reply),
    @Session ℚ referenceOctets checkedBuild rationalFloats c0 ∧
      Run (@step ℚ referenceOctets checkedBuild rationalFloats) RoomyServerCall c0
        (first ++ second ++ u :: rest) c' ∧
      @AnsweredPasses ℚ checkedBuild rationalFloats referenceOctets c0 [9600, 19200]
        (first ++ second) c ∧
      (first ++ second ++ u :: rest).map (fun t => t.action) = firstPass ++ secondPass ++
        [.sendAll 12, .sendData 13 storedOrder outBuffer] ∧
      c0.sendDataVec.length = 10240 ∧ @outstanding ℚ c0.sendDataVec c = 0 ∧
      u.after.sendBuffer.data = [] ∧ @offsetsSent referenceOctets (packets rest) = [] := by
  have passed : @sessionPasses checkedBuild RoomyServerCall _ (onesText 2560) firstPass
      (fun first c => c.sendDataVec.length == 10240 && c.stopFlag &&
        first.head?.map (fun t => t.before.sendBuffer.pos) == some 0 &&
        first.head?.map (fun t => t.after.sendBuffer.maxData) == some 9600 &&
        @offsetsSent referenceOctets (packets first.tail) == tenOffsets &&
        passes (@step ℚ referenceOctets checkedBuild rationalFloats) RoomyServerCall c secondPass
          (fun second c => c.stopFlag &&
            second.head?.map (fun t => t.after.sendBuffer.maxData) == some 19200 &&
            @offsetsSent referenceOctets (packets second.tail) == [9600] &&
            passes (@step ℚ referenceOctets checkedBuild rationalFloats) RoomyServerCall c
              [.sendAll 12, .sendData 13 storedOrder outBuffer] (fun _ _ => true))) = true := by
    decide +kernel
  obtain ⟨c0, first, c1, session, run, played, outcome⟩ :=
    @session_played checkedBuild _ _ _ _ _ passed
  simp only [Bool.and_eq_true, beq_iff_eq] at outcome
  obtain ⟨⟨⟨⟨⟨size, ended⟩, front⟩, window⟩, sent⟩, outcome⟩ := outcome
  obtain ⟨second, c2, run', played', outcome⟩ := played_run outcome
  simp only [Bool.and_eq_true, beq_iff_eq] at outcome
  obtain ⟨⟨⟨ended', window'⟩, sent'⟩, outcome⟩ := outcome
  obtain ⟨last, c3, run'', played'', _⟩ := played_run outcome
  have start : c0.sendBuffer.pos = 0 := by
    cases first with
    | nil => cases played
    | cons t between =>
      obtain ⟨opening, _, _⟩ := run_split (show Run _ _ c0 ([] ++ t :: between) c1 from run)
      have here : t.before = c0 := run_end opening
      rw [← here]
      exact Option.some.inj front
  have one := @answered_extends ℚ checkedBuild rationalFloats referenceOctets c0 [] [] first c0 c1
    (@AnsweredPasses.opening ℚ checkedBuild rationalFloats referenceOctets c0 [] c0 .start start)
    run 1 9600 firstPass.tail _ played (by simp [firstPass]) ended window sent (by
      intro o mem
      refine ⟨8, receipts tenOffsets tenOffsets_few, by simp [firstPass], ?_⟩
      exact receipts_report tenOffsets_few mem (tenOffsets_word o mem))
  have two := @answered_extends ℚ checkedBuild rationalFloats referenceOctets c0 [9600] first second
    c1 c2 one run' 9 19200 secondPass.tail _ played' (by simp [secondPass]) ended' window' sent' (by
      intro o mem
      refine ⟨11, receipts [9600] lastOffset_few, by simp [secondPass], ?_⟩
      refine receipts_report lastOffset_few mem ?_
      rw [List.mem_singleton.mp mem]
      decide)
  cases last with
  | nil => cases played''
  | cons u rest =>
    obtain ⟨again, _⟩ := List.cons.inj played''
    obtain ⟨progress, finish⟩ := @answered_passes_transfer ℚ checkedBuild rationalFloats
      referenceOctets c0 session _ _ _ two
    have whole := run_append (run_append run run') run''
    obtain ⟨stream, _⟩ :=
      @run_numbered ℚ referenceOctets rationalFloats checkedBuild c0 session _ _ run
    rw [stream.data] at size
    obtain ⟨empty, silent⟩ := finish (by simp [size]) u rest c3 12 whole again
    refine ⟨c0, c2, c3, first, second, rest, u, session, whole, two, ?_, size, ?_, empty, silent⟩
    · rw [List.map_append, List.map_append, played, played', played'']
    · rw [size] at progress
      exact Nat.le_zero.mp progress

end DmludpTransferProgress
