import Dmludp.Guarantees.PacketIntegrity
import Dmludp.Guarantees.SendRetry

/- What the Application packets of an endpoint depend on. Once a server has its handshake behind it
   and no answer to give, sending reads its sending half alone; two servers that share it put out
   the same Application packets, whatever their addresses, packet numbers and receiving halves. -/
namespace DmludpSendingHalf
open ByteCursor RustOutcome TracedRun DmludpPacket DmludpRange DmludpSend DmludpRecovery
open DmludpConnection DmludpConnection.Connection DmludpCalls DmludpEffects DmludpReceiveEffects
open DmludpSenderSteps DmludpPacketIntegrity DmludpSendRetry

variable {F : Type}

def SendCall : Call → Prop
  | .sendAll _ => True
  | .sendData _ _ _ => True
  | _ => False

/-- What the receiver learns from an Application datagram, but for its number. -/
def content [Octets] (o : Reply) : List (UInt64 × UInt8 × Bytes) :=
  match o.packet? with
  | none => []
  | some m =>
    match headerOf? .application m with
    | none => []
    | some h => [(h.offset, h.priority, m.drop 26)]

structure Ready (c : Connection F) : Prop where
  server : c.isServer = true
  awake : c.rtt ≠ 0
  unasked : c.recvFlag = false

def dressed (g c : Connection F) (buffer : SendBuf) : Connection F :=
  { g with
    isServer := c.isServer
    sentCount := c.sentCount
    recovery := c.recovery
    sendBuffer := buffer
    writtenData := c.writtenData
    stopFlag := c.stopFlag
    stopAck := c.stopAck
    sentPkt := c.sentPkt
    lowSplitPoint := c.lowSplitPoint
    highSplitPoint := c.highSplitPoint
    sendDataVec := c.sendDataVec
    norm2Vec := c.norm2Vec
    totalOffset := c.totalOffset
    ackPoint := c.ackPoint
    highPriority := c.highPriority
    sentNumber := c.sentNumber
    sentDic := c.sentDic }

/-- The same buffer, or two buffers from which nothing can be sent before the next `write` starts
    the counters over. -/
def BufferAlike (written : Nat) (s s' : SendBuf) : Prop :=
  s' = s ∨ (s.data = [] ∧ s.pos = 0 ∧ written ≤ s.off ∧ ∃ len usedLength maxData removed sent,
    s' = { s with
      len := len
      usedLength := usedLength
      maxData := maxData
      removed := removed
      sent := sent })

theorem bufferAlike_blank {written : Nat} {s s' : SendBuf} (data : s.data = []) (pos : s.pos = 0)
    (off : written ≤ s.off) (data' : s'.data = s.data) (pos' : s'.pos = s.pos)
    (off' : s'.off = s.off) (error : s'.error = s.error) (marks : s'.offsetRecv = s.offsetRecv) :
    BufferAlike written s s' := by
  refine Or.inr ⟨data, pos, off, s'.len, s'.usedLength, s'.maxData, s'.removed, s'.sent, ?_⟩
  rw [← data', ← pos', ← off', ← error, ← marks]

structure Alike (c f : Connection F) : Prop where
  ready : Ready c
  other : Ready f
  same : ∃ g buffer, f = dressed g c buffer ∧ BufferAlike c.writtenData c.sendBuffer buffer

theorem bufferAlike_symm {written : Nat} {s s' : SendBuf} (alike : BufferAlike written s s') :
    BufferAlike written s' s := by
  rcases alike with rfl | ⟨data, pos, off, len, usedLength, maxData, removed, sent, rfl⟩
  · exact Or.inl rfl
  · exact Or.inr ⟨data, pos, off, s.len, s.usedLength, s.maxData, s.removed, s.sent, rfl⟩

theorem alike_symm (c f : Connection F) (alike : Alike c f) : Alike f c := by
  obtain ⟨ready, other, g, buffer, rfl, buffers⟩ := alike
  exact ⟨other, ready, c, c.sendBuffer, rfl, bufferAlike_symm buffers⟩

theorem bufferAlike_data {written : Nat} {s s' : SendBuf} (alike : BufferAlike written s s') :
    s'.data = s.data := by
  rcases alike with rfl | ⟨_, _, _, _, _, _, _, _, rfl⟩
  · rfl
  · rfl

theorem alike_shaped {c f : Connection F} (shaped : Shaped c) (alike : Alike c f) : Shaped f := by
  obtain ⟨_, _, g, buffer, rfl, buffers⟩ := alike
  refine ⟨?_, shaped.queried⟩
  intro b mem
  have inside : b ∈ buffer.data := mem
  rw [bufferAlike_data buffers] at inside
  exact shaped.cut b inside

section Buffers
variable [Profile]

theorem bufferAlike_write {written : Nat} {s s' : SendBuf} (alike : BufferAlike written s s')
    (data : Bytes) (windowSize offLen : Nat) (maxAck maxAck' : UInt64) :
    s'.write data windowSize offLen maxAck' = s.write data windowSize offLen maxAck := by
  rcases alike with rfl | ⟨empty, _, _, len, usedLength, maxData, removed, sent, rfl⟩
  · rfl
  · have kept : s.recvAndDrop maxAck = .ok s := by simp [SendBuf.recvAndDrop, empty]
    have kept' : SendBuf.recvAndDrop { s with
        len := len
        usedLength := usedLength
        maxData := maxData
        removed := removed
        sent := sent } maxAck' = .ok { s with
        len := len
        usedLength := usedLength
        maxData := maxData
        removed := removed
        sent := sent } := by simp [SendBuf.recvAndDrop, empty]
    unfold SendBuf.write
    rw [kept, kept', ok_bind, ok_bind]
    rfl

theorem emit_blank {s : SendBuf} (empty : s.data = []) (start : s.pos = 0) (out : Bytes) :
    s.emit out = .ok ({ s with sent := s.sent + out.length }, out, .ok (out.length, s.off, true)) := by
  have beyond : s.data.length ≤ s.pos := by rw [empty]; exact Nat.zero_le _
  have settled : s.settle out.length = ({ s with sent := s.sent + out.length }, true) := by
    unfold SendBuf.settle
    dsimp only
    split
    · simp only [empty, start, List.length_nil, ↓reduceIte]
    · simp only [empty, start, List.length_nil, ↓reduceIte]
  rw [SendBuf.emit_nothing (SendBuf.offFront_end beyond) (Or.inl beyond), settled]

end Buffers

section Calls
variable [Profile] [FloatOps F]

theorem write_dressed {g c : Connection F} {buffer : SendBuf}
    (alike : BufferAlike c.writtenData c.sendBuffer buffer) {c' : Connection F}
    {r : Except Error Nat} (done : c.write = .ok (c', r)) :
    (dressed g c buffer).write = .ok (dressed g c' c'.sendBuffer, r) := by
  obtain ⟨recovery, window, sendBuffer, chosen, inside, stored, rfl⟩ := write_ok_iff.mp done
  exact write_ok_iff.mpr ⟨recovery, window, sendBuffer, chosen, inside,
    (bufferAlike_write alike _ window _ c.maxOff g.maxOff).trans stored, rfl⟩

theorem sendAll_alike {c f : Connection F} (alike : Alike c f) {now : Nat} {c' : Connection F}
    {r : Except Error Bool} (done : c.sendAll now = .ok (c', r)) :
    ∃ f', f.sendAll now = .ok (f', r) ∧ Alike c' f' := by
  obtain ⟨⟨server, awake, unasked⟩, ⟨_, awake', unasked'⟩, g, buffer, rfl, buffers⟩ := alike
  have data : (dressed g c buffer).sendBuffer.data = c.sendBuffer.data := bufferAlike_data buffers
  by_cases drained : c.sendDataVec.length ≤ c.writtenData ∧ c.sendBuffer.data = []
  · rw [sendAll_drained drained.1 drained.2] at done
    cases done
    have all : (dressed g c buffer).sendDataVec.length ≤ (dressed g c buffer).writtenData :=
      drained.1
    exact ⟨_, sendAll_drained all (data.trans drained.2) now, ⟨server, awake, unasked⟩,
      ⟨server, awake', unasked'⟩, { g with handshake := now }, buffer, rfl, buffers⟩
  · have left : c.writtenData < c.sendDataVec.length ∨ c.sendBuffer.data ≠ [] := by
      rw [← Nat.not_le, ← not_and_or]
      exact drained
    rw [sendAll_writes left] at done
    rw [sendAll_writes (c := dressed g c buffer) (by rw [data]; exact left)]
    obtain ⟨⟨c1, written⟩, first, wrote⟩ := bind_ok_iff.mp done
    have second := write_dressed (g := { g with handshake := now })
      (c := { c with stopFlag := false, stopAck := false, handshake := now }) buffers first
    obtain ⟨recovery, window, sendBuffer, _, _, _, rfl⟩ := write_ok_iff.mp first
    cases written with
    | error e => cases wrote
    | ok n =>
      cases wrote
      exact ⟨_, bind_ok_iff.mpr ⟨_, second, rfl⟩, ⟨server, awake, unasked⟩,
        ⟨server, awake', unasked'⟩, _, sendBuffer, rfl, Or.inl rfl⟩

end Calls

section Send
variable [Octets]

theorem content_none {o : Reply}
    (unmarked : ∀ m, o.packet? = some m → headerOf? .application m = none) : content o = [] := by
  unfold content
  split
  · rfl
  · rename_i m found
    rw [unmarked m found]

theorem content_finished {c : Connection F} {now : Nat} {h : Header} {body : Bytes} {n : Nat}
    (kind : h.ty = .application) (inside : n ≤ body.length) :
    content (.sendData (c.finishSend now (h.encoded ++ body) n).out
      (c.finishSend now (h.encoded ++ body) n).result) =
        if c.isStopped then [] else [(h.offset, h.priority, body.take n)] := by
  cases stopped : c.isStopped with
  | true => simp [content, finishSend, stopped, packetOf]
  | false =>
    have sent : packetOf (c.finishSend now (h.encoded ++ body) n).out
        (c.finishSend now (h.encoded ++ body) n).result = some (h.encoded ++ body.take n) :=
      packetOf_puts (finishSend_puts inside stopped)
    have read : headerOf? .application (h.encoded ++ body.take n) = some h := by
      rw [headerOf?_encoded (by simp [kind]), if_pos kind]
    simp only [content, packet?_sendData, sent, read, List.drop_left' (encoded_length h)]
    rfl

theorem query_alike {c : Connection F} (g : Connection F) (buffer : SendBuf) {out : Bytes}
    {s : Sent F} (done : sendElictAck { c with sentCount := 0 } out = .ok s) :
    ∃ s' g', sendElictAck { dressed g c buffer with sentCount := 0 } out = .ok s' ∧
      s'.conn = dressed g' s.conn buffer ∧ g'.rtt = g.rtt ∧ g'.recvFlag = g.recvFlag ∧
      content (.sendData s'.out s'.result) = content (.sendData s.out s.result) := by
  obtain ⟨queried, room⟩ := sendElictAck_room done
  obtain ⟨s', done'⟩ := sendElictAck_returns
    (c := { dressed g c buffer with sentCount := 0 }) queried room
  have silent : content (.sendData s.out s.result) = [] :=
    content_none (query_unnumbered done).2
  have silent' : content (.sendData s'.out s'.result) = [] :=
    content_none (query_unnumbered done').2
  refine ⟨s', { g with
    pktNumSpaces := (g.pktNumSpaces.1, ⟨g.pktNumSpaces.2.nextPktNum + 1⟩) }, done', ?_, rfl, rfl,
    silent'.trans silent.symm⟩
  rcases sendElictAck_effect done with ⟨⟨_, fits⟩, conn, _⟩ | ⟨short, conn, _⟩
  · rcases sendElictAck_effect done' with ⟨_, conn', _⟩ | ⟨short', _⟩
    · rw [conn, conn']
      rfl
    · exact absurd fits (Nat.not_le.mpr short')
  · rcases sendElictAck_effect done' with ⟨⟨_, fits'⟩, _⟩ | ⟨_, conn', _⟩
    · exact absurd fits' (Nat.not_le.mpr short)
    · rw [conn, conn']
      rfl

variable [Profile] [FloatOps F]

theorem sendData_ready {c : Connection F} (ready : Ready c) {out : Bytes} (filled : out ≠ [])
    (now : Nat) (order : IterOrder) : c.sendData now order out =
      if QueryDue c then sendElictAck { c with sentCount := 0 } out
      else c.sendApplication now out := by
  obtain ⟨server, awake, unasked⟩ := ready
  rw [sendData_filled filled]
  have selected := writePktType_selected c
  generalize c.writePktType = r at selected
  cases selected with
  | hello asleep _ => exact absurd asleep awake
  | reply _ client =>
    rw [server] at client
    cases client
  | query _ due => rw [if_pos due]
  | ack _ _ asked =>
    rw [unasked] at asked
    cases asked
  | application _ quiet _ _ => rw [if_neg quiet]
  | stop _ _ _ asleep _ => exact absurd asleep awake
  | idle _ _ _ asleep _ => exact absurd asleep awake

theorem application_blank {c : Connection F} (empty : c.sendBuffer.data = [])
    (start : c.sendBuffer.pos = 0) (past : c.writtenData ≤ c.sendBuffer.off) {out : Bytes}
    (room : 26 ≤ out.length) (now : Nat) : c.sendApplication now out = .ok ⟨{ c with
      sendBuffer := { c.sendBuffer with sent := c.sendBuffer.sent + (out.drop 26).length } },
      out.take 26 ++ out.drop 26, .error .done⟩ := by
  unfold sendApplication
  rw [sliceFrom_fits room, ok_bind, emit_blank empty start, ok_bind]
  dsimp only
  rw [if_pos past]
  rfl

theorem content_unready {c : Connection F} (server : c.isServer = true)
    (busy : c.rtt = 0 ∨ c.recvFlag = true) {now : Nat} {order : IterOrder} {out : Bytes}
    {s : Sent F} (done : c.sendData now order out = .ok s) :
    content (.sendData s.out s.result) = [] := by
  by_cases filled : out ≠ []
  · rw [sendData_filled filled] at done
    have selected := writePktType_selected c
    generalize c.writePktType = r at selected done
    cases selected with
    | hello _ _ =>
      cases done
      exact content_none fun m found => (handshake_unmarked _ now out m found).1
    | reply _ client =>
      rw [server] at client
      cases client
    | query _ _ => exact content_none (query_unnumbered done).2
    | ack _ quiet _ =>
      cases done
      have running : isStopped { c with recvFlag := false } = false := by
        simp [isStopped, running_of_quiet quiet]
      exact content_none fun m found => (ackPacket_unmarked running now order out m found).1
    | application _ _ unasked awake =>
      rcases busy with asleep | asked
      · exact absurd asleep awake
      · rw [asked] at unasked
        cases unasked
    | stop _ _ _ _ _ =>
      cases done
      exact content_none fun m found => (stop_unmarked c out m found).1
    | idle _ _ _ _ _ =>
      cases done
      rfl
  · have none_given : out = [] := not_not.mp filled
    subst none_given
    cases done
    rfl

theorem application_dressed {c g : Connection F} (shaped : Shaped c) (ready : Ready c)
    (awake : g.rtt ≠ 0) (unasked : g.recvFlag = false) {now : Nat} {out : Bytes} {s : Sent F}
    (done : c.sendApplication now out = .ok s) :
    ∃ s', (dressed g c c.sendBuffer).sendApplication now out = .ok s' ∧ Alike s.conn s'.conn ∧
      content (.sendData s'.out s'.result) = content (.sendData s.out s.result) := by
  have goes := (sendApplication_returns_iff shaped.cut).mp ⟨s, done⟩
  have cut : ∀ b ∈ (dressed g c c.sendBuffer).sendBuffer.data, SendBuf.Cut b := shaped.cut
  have returns : ∃ s', (dressed g c c.sendBuffer).sendApplication now out = .ok s' :=
    (sendApplication_returns_iff cut).mpr goes
  obtain ⟨s', done'⟩ := returns
  refine ⟨s', done', ?_⟩
  obtain ⟨server, awake_here, unasked_here⟩ := ready
  cases sendApplication_cases done with
  | nothing _ emitted past =>
    cases sendApplication_cases done' with
    | nothing _ emitted' _ =>
      have same := Except.ok.inj (emitted.symm.trans emitted')
      cases same
      exact ⟨⟨⟨server, awake_here, unasked_here⟩, ⟨server, awake, unasked⟩, g, _, rfl,
        Or.inl rfl⟩, rfl⟩
    | packet _ emitted' inside' _ _ =>
      have same := Except.ok.inj (emitted.symm.trans emitted')
      cases same
      exact absurd past (Nat.not_le.mpr inside')
  | @packet sendBuffer body n off stop priority dic _ emitted inside norm spent =>
    cases sendApplication_cases done' with
    | nothing _ emitted' past' =>
      have same := Except.ok.inj (emitted.symm.trans emitted')
      cases same
      exact absurd past' (Nat.not_le.mpr inside)
    | packet _ emitted' _ norm' spent' =>
      have same := Except.ok.inj (emitted.symm.trans emitted')
      cases same
      have priorities := Except.ok.inj (norm.symm.trans norm')
      cases priorities
      have budgets := Except.ok.inj (spent.symm.trans spent')
      cases budgets
      have size := (SendBuf.emit_size emitted).1
      constructor
      · rw [finishSend_stamped, finishSend_stamped]
        exact ⟨⟨server, awake_here, unasked_here⟩, ⟨server, awake, unasked⟩, { g with
          pktNumSpaces := (⟨g.pktNumSpaces.1.nextPktNum + 1⟩, g.pktNumSpaces.2)
          handshake := _ }, sendBuffer, rfl, Or.inl rfl⟩
      · rw [content_finished rfl size, content_finished rfl size]
        rfl

theorem application_alike {g c : Connection F} {buffer : SendBuf} (shaped : Shaped c)
    (ready : Ready c) (awake : g.rtt ≠ 0) (unasked : g.recvFlag = false)
    (buffers : BufferAlike c.writtenData c.sendBuffer buffer) {now : Nat} {out : Bytes}
    {s : Sent F} (done : c.sendApplication now out = .ok s) :
    ∃ s', (dressed g c buffer).sendApplication now out = .ok s' ∧ Alike s.conn s'.conn ∧
      content (.sendData s'.out s'.result) = content (.sendData s.out s.result) := by
  rcases buffers with rfl | ⟨empty, start, past, len, usedLength, maxData, removed, sent, rfl⟩
  · exact application_dressed shaped ready awake unasked done
  · have room : 26 ≤ out.length := by
      cases sendApplication_cases done with
      | nothing room _ _ => exact room
      | packet room _ _ _ _ => exact room
    have here := application_blank empty start past room now
    have there := application_blank (c := dressed g c { c.sendBuffer with
      len := len
      usedLength := usedLength
      maxData := maxData
      removed := removed
      sent := sent }) empty start past room now
    rw [here, Except.ok.injEq] at done
    subst done
    exact ⟨_, there, ⟨⟨ready.server, ready.awake, ready.unasked⟩,
      ⟨ready.server, awake, unasked⟩, g, _, rfl,
      Or.inr ⟨empty, start, past, len, usedLength, maxData, removed, _, rfl⟩⟩, rfl⟩

theorem sendData_alike {c f : Connection F} (shaped : Shaped c) (alike : Alike c f) {now : Nat}
    {order : IterOrder} {out : Bytes} {s : Sent F} (done : c.sendData now order out = .ok s) :
    ∃ s', f.sendData now order out = .ok s' ∧ Alike s.conn s'.conn ∧
      content (.sendData s'.out s'.result) = content (.sendData s.out s.result) := by
  by_cases filled : out ≠ []
  · obtain ⟨ready, other, g, buffer, rfl, buffers⟩ := alike
    rw [sendData_ready ready filled] at done
    rw [sendData_ready other filled]
    by_cases due : QueryDue c
    · have due' : QueryDue (dressed g c buffer) := due
      rw [if_pos due] at done
      rw [if_pos due']
      obtain ⟨s', g', done', conn', awake, unasked, same⟩ :=
        query_alike g buffer done
      obtain ⟨_, _, _, conn, _⟩ := sendElictAck_frame done
      refine ⟨s', done', ⟨?_, ?_, g', buffer, conn', ?_⟩, same⟩
      · rw [conn]
        exact ⟨ready.server, ready.awake, ready.unasked⟩
      · rw [conn', conn]
        exact ⟨ready.server, fun asleep => other.awake (awake.symm.trans asleep),
          unasked.trans other.unasked⟩
      · rw [conn]
        exact buffers
    · have quiet' : ¬ QueryDue (dressed g c buffer) := due
      rw [if_neg due] at done
      rw [if_neg quiet']
      exact application_alike shaped ready other.awake other.unasked buffers done
  · have none_given : out = [] := not_not.mp filled
    subst none_given
    cases done
    exact ⟨_, rfl, alike, rfl⟩

theorem step_alike {c f c' : Connection F} {a : Call} {o : Reply} (shaped : Shaped c)
    (alike : Alike c f) (may : SendCall a) (taken : step c a = .ok (c', o)) :
    ∃ f' o', step f a = .ok (f', o') ∧ Alike c' f' ∧ content o' = content o := by
  cases step_cases taken with
  | sendAll done =>
    obtain ⟨f', done', alike'⟩ := sendAll_alike alike done
    exact ⟨f', _, bind_ok_iff.mpr ⟨_, done', rfl⟩, alike', rfl⟩
  | sendData done =>
    obtain ⟨s', done', alike', same⟩ := sendData_alike shaped alike done
    exact ⟨s'.conn, _, bind_ok_iff.mpr ⟨_, done', rfl⟩, alike', same⟩
  | dataSend _ | recvSlice _ | read _ | write _ | reset | checkLoss _ | newRtt | setHandshake =>
    exact may.elim

theorem observe_same {c f : Connection F} (shaped : Shaped c) (alike : Alike c f)
    {calls : List Call} (sending : ∀ a ∈ calls, SendCall a) :
    observe step content c calls = observe step content f calls := by
  refine observe_alike (fun c f => Shaped c ∧ Alike c f) SendCall ?_ ?_ sending ⟨shaped, alike⟩
  · intro s t related
    exact ⟨alike_shaped related.1 related.2, alike_symm s t related.2⟩
  · intro s t a s' o related may taken
    obtain ⟨t', o', taken', alike', same⟩ := step_alike related.1 related.2 may taken
    exact ⟨t', o', taken', ⟨step_shaped related.1 (sender_step taken), alike'⟩, same⟩

end Send

end DmludpSendingHalf
