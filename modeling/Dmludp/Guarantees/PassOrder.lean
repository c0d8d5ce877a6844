import Dmludp.Guarantees.PacketIntegrity
import Dmludp.Guarantees.PassCoverage

/- One pass over the queue. Between a `send_all` that finds the cursor at the front and the next
   one, the server transmits the chunks of its queue from the front, each once and in the order of
   the stream, and goes quiet at the window or at the end of the queue, whichever comes first. -/
namespace DmludpPassOrder
open ByteCursor RustOutcome TracedRun OrderedMap DmludpPacket DmludpRange DmludpSend DmludpRecovery
open DmludpConnection DmludpConnection.Connection DmludpCalls DmludpEffects DmludpReceiveEffects
open DmludpSenderSteps DmludpSegmentation DmludpPacketIntegrity DmludpPassCoverage DmludpReference

variable {F : Type}

/-- After `k` chunks of a pass over the queue `q` under window `w`. -/
structure InPass (q : List RangeBuf) (w k : Nat) (c : Connection F) : Prop where
  data : c.sendBuffer.data = q
  window : c.sendBuffer.maxData = w
  inside : k ≤ q.length
  earlier : ∀ j, 0 < j → j < k → SendBuf.total (q.take j) < w
  running : c.stopFlag = false → c.sendBuffer.pos = k ∧
    (q ≠ [] → c.sendBuffer.sent = SendBuf.total (q.take k)) ∧
    (0 < k → k < q.length ∧ SendBuf.total (q.take k) < w)
  stopped : c.stopFlag = true → c.sendBuffer.pos = 0 ∧ 0 < k ∧
    (k = q.length ∨ w ≤ SendBuf.total (q.take k))

theorem inPass_same {q : List RangeBuf} {w k : Nat} {c c' : Connection F} (pass : InPass q w k c)
    (data : c'.sendBuffer.data = c.sendBuffer.data)
    (window : c'.sendBuffer.maxData = c.sendBuffer.maxData)
    (pos : c'.sendBuffer.pos = c.sendBuffer.pos) (sent : c'.sendBuffer.sent = c.sendBuffer.sent)
    (stopFlag : c'.stopFlag = c.stopFlag) : InPass q w k c' := by
  obtain ⟨hq, hw, inside, earlier, running, stopped⟩ := pass
  refine ⟨data.trans hq, window.trans hw, inside, earlier, ?_, ?_⟩
  · rw [stopFlag, pos, sent]
    exact running
  · rw [stopFlag, pos]
    exact stopped

theorem running_front {q : List RangeBuf} {w k : Nat} {c : Connection F} (pass : InPass q w k c)
    (running : c.stopFlag = false) (some_left : q ≠ []) : k < q.length := by
  obtain ⟨_, _, begun⟩ := pass.running running
  have positive := List.length_pos_iff.mpr some_left
  by_cases first : k = 0
  · omega
  · exact (begun (Nat.pos_of_ne_zero first)).1

theorem total_take_succ {q : List RangeBuf} {k : Nat} {b : RangeBuf} {rest : List RangeBuf}
    (front : q.drop k = b :: rest) :
    SendBuf.total (q.take (k + 1)) = SendBuf.total (q.take k) + b.data.length := by
  have found : q[k]? = some b := by
    rw [← List.head?_drop, front]
    rfl
  rw [List.take_add_one, found, Option.toList_some, SendBuf.total_append]
  simp [SendBuf.total]

theorem inPass_ascending {text : Bytes} {q : List RangeBuf} {w k : Nat} {c : Connection F}
    (stream : Stream text c) (stands : InPass q w k c) :
    ((q.take k).map (fun b => b.off)).Pairwise (fun a b => a < b) := by
  have ordered := lockstep_ordered stream.lockstep
  rw [stands.data] at ordered
  exact List.pairwise_map.mpr (ordered.sublist (List.take_sublist k _))

theorem past_inPass {q : List RangeBuf} {w k : Nat} {c : Connection F} (pass : InPass q w k c)
    (running : c.stopFlag = false) (beyond : c.sendBuffer.data.length ≤ c.sendBuffer.pos) (n : Nat)
    {c' : Connection F} (buffer : c'.sendBuffer = (c.sendBuffer.settle n).1)
    (stopFlag : c'.stopFlag = c.stopFlag) : InPass q w k c' := by
  have empty : q = [] := by
    by_contra some_left
    have here := running_front pass running some_left
    rw [(pass.running running).1, pass.data] at beyond
    omega
  subst empty
  have none_yet : k = 0 := Nat.le_zero.mp pass.inside
  subst none_yet
  obtain ⟨pos, _, _⟩ := pass.running running
  obtain ⟨pos', frame⟩ := SendBuf.settle_frame c.sendBuffer n
  have cursor : (c.sendBuffer.settle n).1.pos = 0 := by
    rcases SendBuf.settle_cases c.sendBuffer n with ⟨rewound, _⟩ | ⟨kept, _⟩
    · exact rewound
    · exact kept.trans pos
  refine ⟨?_, ?_, Nat.le_refl _, pass.earlier, ?_, ?_⟩
  · rw [buffer, frame]
    exact pass.data
  · rw [buffer, frame]
    exact pass.window
  · refine fun _ => ⟨?_, fun some_left => absurd rfl some_left, fun positive => by omega⟩
    rw [buffer]
    exact cursor
  · intro ended
    rw [stopFlag, running] at ended
    cases ended

section Wire
variable [Octets]

def offsetsSent (ms : List Bytes) : List Nat :=
  (ms.filterMap (headerOf? .application)).map (fun h => h.offset.toNat)

theorem offsetsSent_append (xs ys : List Bytes) :
    offsetsSent (xs ++ ys) = offsetsSent xs ++ offsetsSent ys := by
  unfold offsetsSent
  rw [List.filterMap_append, List.map_append]

theorem offsetsSent_other {o : Reply}
    (silent : ∀ m, o.packet? = some m → headerOf? .application m = none) :
    offsetsSent o.packet?.toList = [] := by
  cases sent : o.packet? with
  | none => rfl
  | some m => simp [offsetsSent, silent m sent]

theorem offsetsSent_packet {pn off n : Nat} {priority : UInt8} {rest : Bytes}
    (small : off ≤ isizeMax) :
    offsetsSent [(applicationHeader pn priority off n).encoded ++ rest] = [off] := by
  have offset : (applicationHeader pn priority off n).offset.toNat = off := word_of_size small
  simp [offsetsSent, headerOf?_application, offset]

end Wire

section Steps
variable [Profile]

theorem sendAll_begins {c c' : Connection F} {now : Nat} {r : Except Error Bool}
    (fresh : c.sendBuffer.pos = 0) (passed : SendAllCase c now (c', r)) :
    InPass c'.sendBuffer.data c'.sendBuffer.maxData 0 c' := by
  cases passed with
  | drained _ empty =>
    refine ⟨rfl, rfl, Nat.zero_le _, fun j positive below => by omega, ?_, fun stop => by cases stop⟩
    exact fun _ => ⟨fresh, fun some_left => absurd empty some_left, fun positive => by omega⟩
  | wrote _ stored =>
    obtain ⟨kept, pieces, dropped, filled⟩ := SendBuf.write_filled stored
    obtain ⟨data, marks, rfl, _⟩ := SendBuf.recvAndDrop_frame dropped
    refine ⟨rfl, rfl, Nat.zero_le _, fun j positive below => by omega, ?_, fun stop => by cases stop⟩
    refine fun _ => ⟨filled.pos.trans fresh, fun _ => ?_, fun positive => by omega⟩
    exact filled.sent

theorem chunk_inPass {q : List RangeBuf} {w k : Nat} {c : Connection F} {out out' : Bytes}
    {sendBuffer : SendBuf} {n off : Nat} {stop : Bool} (pass : InPass q w k c)
    (running : c.stopFlag = false) (below : off < c.sendBuffer.off)
    (room : sendBufferSize ≤ out.length)
    (cut : SendBuf.EmitCase c.sendBuffer out (sendBuffer, out', n, off, stop))
    (c' : Connection F) (buffer : c'.sendBuffer = sendBuffer)
    (stopFlag : c'.stopFlag = (c.stopFlag || stop)) :
    InPass q w (k + 1) c' ∧ ∃ b rest, q.drop k = b :: rest ∧ off = b.off := by
  obtain ⟨pos, counted, begun⟩ := pass.running running
  rw [running, Bool.false_or] at stopFlag
  cases cut with
  | cramped _ short => omega
  | past _ => omega
  | @chunk b rest len usedLength front _ _ _ =>
    have front' : q.drop k = b :: rest := by rw [← pass.data, ← pos, front]
    have some_left : q ≠ [] := by
      rintro rfl
      simp at front'
    have grown := total_take_succ front'
    have here := running_front pass running some_left
    have ends : c'.stopFlag = true ↔
        w ≤ SendBuf.total (q.take (k + 1)) ∨ k + 1 = q.length := by
      rw [stopFlag, SendBuf.settle_stop_iff]
      dsimp only
      rw [pass.data, pass.window, counted some_left, ← grown, pos]
    have cursor := SendBuf.settle_cases
      { c.sendBuffer with len := len, usedLength := usedLength, pos := c.sendBuffer.pos + 1 }
      b.data.length
    obtain ⟨pos', frame⟩ := SendBuf.settle_frame
      { c.sendBuffer with len := len, usedLength := usedLength, pos := c.sendBuffer.pos + 1 }
      b.data.length
    dsimp only at cursor
    have sent' : c'.sendBuffer.sent = SendBuf.total (q.take (k + 1)) := by
      rw [buffer, frame, grown, ← counted some_left]
    refine ⟨⟨?_, ?_, here, ?_, ?_, ?_⟩, b, rest, front', rfl⟩
    · rw [buffer, frame]
      exact pass.data
    · rw [buffer, frame]
      exact pass.window
    · intro j positive before
      by_cases last : j = k
      · rw [last] at positive ⊢
        exact (begun positive).2
      · exact pass.earlier j positive (by omega)
    · intro goes_on
      rcases cursor with ⟨_, ended⟩ | ⟨moved, _, _⟩
      · rw [← stopFlag, goes_on] at ended
        cases ended
      · have open_still : ¬ (w ≤ SendBuf.total (q.take (k + 1)) ∨ k + 1 = q.length) := by
          rw [← ends, goes_on]
          simp
        refine ⟨?_, fun _ => sent', fun _ => ?_⟩
        · rw [buffer, moved, pos]
        · omega
    · intro ended
      rcases cursor with ⟨rewound, _⟩ | ⟨_, goes_on, _⟩
      · refine ⟨by rw [buffer, rewound], Nat.succ_pos k, ?_⟩
        exact (ends.mp ended).symm
      · rw [stopFlag, goes_on] at ended
        cases ended

variable [FloatOps F] [Octets]

theorem application_inPass {text : Bytes} {q : List RangeBuf} {w k : Nat} {c : Connection F}
    {now : Nat} {out : Bytes} {s : Sent F} (stream : Stream text c) (orderly : Orderly c)
    (pass : InPass q w k c) (running : c.stopFlag = false) (roomy : 1350 ≤ out.length)
    (sent : AppCase c now out s) : ∃ k', InPass q w k' s.conn ∧
      (q.take k').map (fun b => b.off) = (q.take k).map (fun b => b.off) ++
        offsetsSent (packetOf s.out s.result).toList := by
  have queued : ∀ b ∈ c.sendBuffer.data, SendBuf.Queued b := fun b mem => (stream.queued b mem).1
  have room : sendBufferSize ≤ (out.drop 26).length := by
    rw [List.length_drop, sendBufferSize]
    omega
  cases sent with
  | @nothing sendBuffer body n off stop _ emitted past =>
    have cut := SendBuf.emit_cases queued emitted
    refine ⟨k, ?_, by simp [packetOf, offsetsSent]⟩
    cases cut with
    | cramped _ short => omega
    | @chunk b rest len usedLength front _ _ _ =>
      have mem : b ∈ c.sendBuffer.data := List.mem_of_mem_drop (by rw [front]; simp)
      have below := stream_below stream b mem
      have written := stream.written
      omega
    | past beyond =>
      exact past_inPass pass running beyond (out.drop 26).length rfl rfl
  | @packet sendBuffer body n off stop priority dic _ emitted inside _ _ =>
    have cut := SendBuf.emit_cases queued emitted
    have below : off < c.sendBuffer.off := by
      rw [← stream.written]
      exact inside
    have small : off ≤ isizeMax := by
      have fits := stream.fits
      have ends := stream.inside
      omega
    obtain ⟨stamp, conn⟩ := finishSend_conn (transmitted c sendBuffer off stop dic) now
      ((applicationHeader c.pktNumSpaces.1.nextPktNum priority off n).encoded ++ body) n
    have open_still : (transmitted c sendBuffer off stop dic).isStopped = false := by
      simp [isStopped, transmitted, orderly_unasked orderly running]
    have packet := packetOf_puts (@finishSend_puts _
      (transmitted c sendBuffer off stop dic) now
      (applicationHeader c.pktNumSpaces.1.nextPktNum priority off n) _ _
      (SendBuf.emit_size emitted).1 open_still)
    obtain ⟨onward, b, rest, front, offset⟩ := chunk_inPass pass running below room cut
      { transmitted c sendBuffer off stop dic with handshake := stamp } rfl rfl
    refine ⟨k + 1, by rw [conn]; exact onward, ?_⟩
    have found : q[k]? = some b := by
      rw [← List.head?_drop, front]
      rfl
    rw [packet, Option.toList_some, offsetsSent_packet small, List.take_add_one, found, offset]
    simp

theorem step_inPass {text : Bytes} {q : List RangeBuf} {w k : Nat} {c c' : Connection F} {a : Call}
    {o : Reply} (stream : Stream text c) (orderly : Orderly c) (pass : InPass q w k c)
    (may : RoomyServerCall c a) (same_pass : ∀ now, a ≠ .sendAll now)
    (taken : SenderStep c a o c') : ∃ k', InPass q w k' c' ∧
      (q.take k').map (fun b => b.off) = (q.take k).map (fun b => b.off) ++
        offsetsSent o.packet?.toList := by
  cases taken with
  | kept same silent =>
    obtain ⟨marks, buffer⟩ := same.buffer
    refine ⟨k, inPass_same pass ?_ ?_ ?_ ?_ same.stopFlag, ?_⟩
    · rw [buffer]
    · rw [buffer]
    · rw [buffer]
    · rw [buffer]
    · rw [offsetsSent_other (fun m found => (silent m found).1), List.append_nil]
  | dataSend _ | reset | write _ => exact may.1.elim
  | sendAll _ => exact absurd rfl (same_pass _)
  | query _ sent =>
    obtain ⟨_, _, _, conn, _⟩ := sendElictAck_frame sent
    refine ⟨k, ?_, ?_⟩
    · rw [conn]
      exact inPass_same pass rfl rfl rfl rfl rfl
    · rw [offsetsSent_other (o := .sendData _ _) (query_unnumbered sent).2, List.append_nil]
  | application quiet _ sent =>
    rw [packet?_sendData]
    exact application_inPass stream orderly pass (running_of_quiet quiet) may.2 sent

end Steps

section Passes
variable [Profile] [FloatOps F] [Octets]

theorem run_inPass {c0 : Connection F} (session : Session c0) {trace : Trace F} {c : Connection F}
    (run : Run step RoomyServerCall c0 trace c) :
    ∀ before t between now, trace = before ++ t :: between → t.action = .sendAll now →
      t.before.sendBuffer.pos = 0 → (∀ u ∈ between, ∀ now, u.action ≠ .sendAll now) →
      ∃ k, InPass t.after.sendBuffer.data t.after.sendBuffer.maxData k c ∧
        (t.after.sendBuffer.data.take k).map (fun b => b.off) = offsetsSent (packets between) := by
  induction run with
  | start =>
    intro before t between now split
    simp at split
  | @step trace s s' a o earlier may taken ih =>
    intro before t between now split action fresh same_pass
    rcases snoc_split split with ⟨rfl, rfl, rfl⟩ | ⟨rest, rfl, rfl⟩
    · dsimp only at action fresh
      subst action
      cases step_cases taken with
      | sendAll done => exact ⟨0, sendAll_begins fresh (sendAll_cases done), rfl⟩
    · obtain ⟨k, pass, sent⟩ := ih before t rest now rfl action fresh
        (fun u mem => same_pass u (List.mem_append_left _ mem))
      have here := same_pass ⟨s, a, o, s'⟩ (List.mem_append_right rest List.mem_cons_self)
      have numbered := run_numbered session earlier
      obtain ⟨k', onward, grown⟩ := step_inPass numbered.stream numbered.orderly pass may here
        (sender_step taken)
      refine ⟨k', onward, ?_⟩
      rw [grown, packets_snoc, offsetsSent_append, sent]

/-- Between a `send_all` that finds the cursor at the front and the next one, the Application
    packets carry the first chunks of the queue, in order and each once; the pass stops exactly
    when they reach the window or the end of the queue, and then the cursor is in front again. -/
theorem pass_sends_queue_in_order {c0 : Connection F} (session : Session c0) {trace : Trace F}
    {c : Connection F} (run : Run step RoomyServerCall c0 trace c) {before between : Trace F}
    {t : Transition (Connection F) Call Reply} (split : trace = before ++ t :: between) {now : Nat}
    (pass : t.action = .sendAll now) (fresh : t.before.sendBuffer.pos = 0)
    (same_pass : ∀ u ∈ between, ∀ now, u.action ≠ .sendAll now) :
    ∃ k, InPass t.after.sendBuffer.data t.after.sendBuffer.maxData k c ∧
      offsetsSent (packets between) = (t.after.sendBuffer.data.take k).map (fun b => b.off) ∧
      (offsetsSent (packets between)).Pairwise (fun a b => a < b) := by
  obtain ⟨k, stands, sent⟩ := run_inPass session run before t between now split pass fresh same_pass
  refine ⟨k, stands, sent.symm, ?_⟩
  rw [← sent]
  exact inPass_ascending (run_numbered session run).stream stands

end Passes

theorem two_chunks_in_order : ∃ (c0 c : Connection ℚ)
    (t : Transition (Connection ℚ) Call Reply) (between : Trace ℚ) (k : Nat),
    @Session ℚ referenceOctets checkedBuild rationalFloats c0 ∧
      Run (@step ℚ referenceOctets checkedBuild rationalFloats) RoomyServerCall c0 (t :: between)
        c ∧ (t :: between).map (fun t => t.action) = chunkSession.drop 1 ∧
      @offsetsSent referenceOctets (packets between) = [0, 1024] ∧
      InPass t.after.sendBuffer.data 9600 k c ∧ @offsetsSent referenceOctets (packets between) =
        (t.after.sendBuffer.data.take k).map (fun b => b.off) := by
  have passed : @sessionPasses checkedBuild RoomyServerCall _ (onesText 511) (chunkSession.drop 1)
      (fun trace _ => trace.head?.any (fun t => t.before.sendBuffer.pos == 0 &&
        t.after.sendBuffer.maxData == 9600) &&
          @offsetsSent referenceOctets (packets trace.tail) == [0, 1024]) = true := by
    decide +kernel
  obtain ⟨c0, trace, c, session, run, played, outcome⟩ := @session_played checkedBuild _ _ _ _ _ passed
  rcases trace with _ | ⟨t, between⟩
  · simp at outcome
  · simp only [List.head?_cons, Option.any_some, List.tail_cons, Bool.and_eq_true,
      beq_iff_eq] at outcome
    obtain ⟨⟨fresh, window⟩, sent⟩ := outcome
    have calls := played
    simp only [chunkSession, List.drop_succ_cons, List.drop_zero, List.map_cons,
      List.cons.injEq] at played
    obtain ⟨pass, rest⟩ := played
    have same_pass : ∀ u ∈ between, ∀ now, u.action ≠ .sendAll now := by
      intro u mem now again
      have call : u.action ∈ between.map (fun t => t.action) := List.mem_map_of_mem mem
      rw [rest, again] at call
      simp at call
    obtain ⟨k, stands, inOrder, _⟩ := @pass_sends_queue_in_order ℚ checkedBuild rationalFloats
      referenceOctets c0 session _ c run [] between t rfl 1 pass fresh same_pass
    rw [window] at stands
    exact ⟨c0, c, t, between, k, session, run, calls, sent, stands, inOrder⟩

end DmludpPassOrder
