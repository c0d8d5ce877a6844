import Dmludp.Endpoint.SenderSteps
import Dmludp.Endpoint.ReferenceInstance

/- Which transmissions a query has asked about. Three counters move in three branches; over
   every run with roomy buffers they stay in step, and the query lists tile `sentPkt`. -/
namespace DmludpQueryAccounting
open ByteCursor RustOutcome TracedRun DmludpPacket DmludpSend DmludpRecovery DmludpConnection
open DmludpConnection.Connection DmludpCalls DmludpEffects DmludpReceiveEffects DmludpSenderSteps
open DmludpReference

variable {F : Type}

def listed [Octets] (m : Bytes) : List UInt64 :=
  match headerOf? .elictAck m, readOffsets (m.drop 26) with
  | some _, .ok offsets => offsets
  | _, _ => []

def queried [Octets] (trace : Trace F) : List UInt64 := (packets trace).flatMap listed

/-- A query datagram with eight offsets: the announced length is the written one. -/
def FullQuery (m : Bytes) (h : Header) : Prop :=
  ∃ ws : List UInt64, ws.length = 8 ∧ m = h.encoded ++ ws.flatMap u64Bytes ∧ h.pktLength = 64

structure InStep (c : Connection F) : Prop where
  inside : c.ackPoint ≤ c.sentPkt.length
  count : c.sentCount = c.sentPkt.length - c.ackPoint
  small : c.sentCount ≤ 8
  stopped : c.stopAck = true → c.stopFlag = true ∧ c.ackPoint = c.sentPkt.length

theorem inStep_of_same {c c' : Connection F} (inStep : InStep c)
    (sentPkt : c'.sentPkt = c.sentPkt) (ackPoint : c'.ackPoint = c.ackPoint)
    (sentCount : c'.sentCount = c.sentCount) (stopFlag : c'.stopFlag = c.stopFlag)
    (stopAck : c'.stopAck = c.stopAck) : InStep c' := by
  obtain ⟨inside, count, small, stopped⟩ := inStep
  constructor
  · rw [sentPkt, ackPoint]
    exact inside
  · rw [sentPkt, ackPoint, sentCount]
    exact count
  · rw [sentCount]
    exact small
  · rw [stopAck, stopFlag, ackPoint, sentPkt]
    exact stopped

theorem querySize_listed {c : Connection F} (inStep : InStep c) (due : QueryDue c) :
    querySize { c with sentCount := 0 } = 8 * (c.sentPkt.drop c.ackPoint).length ∧
      (c.stopFlag = false → (c.sentPkt.drop c.ackPoint).length = 8) := by
  obtain ⟨inside, count, small, _⟩ := inStep
  unfold QueryDue elictFlag at due
  rw [List.length_drop]
  unfold querySize
  cases flag : c.stopFlag with
  | true =>
    simp only [↓reduceIte]
    exact ⟨Nat.mul_comm _ _, by simp⟩
  | false =>
    simp only [flag, Bool.false_eq_true, or_false] at due
    simp only [Bool.false_eq_true, ↓reduceIte, forall_const]
    omega

section Query
variable [Octets]

theorem query_sent {c : Connection F} {out : Bytes} {s : Sent F} (inStep : InStep c)
    (due : QueryDue c) (room : 1350 ≤ out.length)
    (sent : sendElictAck { c with sentCount := 0 } out = .ok s) :
    s.conn = { c with
      sentCount := 0
      pktNumSpaces := (c.pktNumSpaces.1, ⟨c.pktNumSpaces.2.nextPktNum + 1⟩)
      ackPoint := c.sentPkt.length
      stopAck := c.stopAck || c.stopFlag } ∧
    Puts s.out s.result ((elictHeader c.pktNumSpaces.2.nextPktNum
      (8 * (c.sentPkt.drop c.ackPoint).length)).encoded ++
        (c.sentPkt.drop c.ackPoint).flatMap u64Bytes) := by
  obtain ⟨size, _⟩ := querySize_listed inStep due
  have few : (c.sentPkt.drop c.ackPoint).length ≤ 8 := by
    obtain ⟨inside, count, small, _⟩ := inStep
    rw [List.length_drop]
    omega
  rcases sendElictAck_effect sent with ⟨_, conn, result, written⟩ | ⟨short, _, _⟩
  · rw [size] at result written
    refine ⟨conn, c.sendInfo, ?_, ?_⟩
    · rw [result, List.length_append, encoded_length, words_length]
      rfl
    · rw [written]
      exact List.take_left' rfl
  · dsimp only at short
    omega

theorem listed_other {m : Bytes} (other : headerOf? .elictAck m = none) : listed m = [] := by
  simp only [listed, other]

theorem headerOf?_query (pn size : Nat) (rest : Bytes) :
    headerOf? .elictAck ((elictHeader pn size).encoded ++ rest) = some (elictHeader pn size) :=
  (headerOf?_encoded (by simp [elictHeader]) rest).trans (if_pos rfl)

theorem listed_query (pn size : Nat) (ws : List UInt64) :
    listed ((elictHeader pn size).encoded ++ ws.flatMap u64Bytes) = ws := by
  have payload : ((elictHeader pn size).encoded ++ ws.flatMap u64Bytes).drop 26 =
      ws.flatMap u64Bytes := List.drop_left' (encoded_length _)
  simp only [listed, headerOf?_query, payload, readOffsets_words]

end Query

theorem fresh_inStep [FloatOps F] (localaddr peeraddr : SocketAddr) (now : Nat) (isServer : Bool) :
    InStep (Connection.new localaddr peeraddr now isServer : Connection F) :=
  ⟨Nat.le_refl _, rfl, Nat.zero_le _, by simp [Connection.new]⟩

theorem sendAll_inStep [Profile] {c c' : Connection F} {now : Nat} {r : Except Error Bool}
    (inStep : InStep c) (passed : SendAllCase c now (c', r)) : InStep c' := by
  obtain ⟨inside, count, small, _⟩ := inStep
  cases passed with
  | drained _ _ => exact ⟨inside, count, small, by simp⟩
  | wrote _ _ => exact ⟨inside, count, small, by simp⟩

theorem query_inStep {c : Connection F} {spaces : PktNumSpace × PktNumSpace}
    (inStep : InStep c) : InStep { c with
      sentCount := 0
      pktNumSpaces := spaces
      ackPoint := c.sentPkt.length
      stopAck := c.stopAck || c.stopFlag } := by
  refine ⟨Nat.le_refl _, (Nat.sub_self _).symm, Nat.zero_le _, ?_⟩
  intro asked
  refine ⟨?_, rfl⟩
  cases flag : c.stopFlag with
  | true => rfl
  | false =>
    simp only [flag, Bool.or_false] at asked
    rw [(inStep.stopped asked).1] at flag
    cases flag

theorem transmit_inStep {c : Connection F} {sendBuffer : SendBuf} {off : Nat} {stop : Bool}
    {dic : HashMap Nat Nat} (inStep : InStep c) (quiet : ¬ QueryDue c) :
    InStep (transmitted c sendBuffer off stop dic) ∧
      (transmitted c sendBuffer off stop dic).isStopped = false := by
  obtain ⟨inside, count, small, stopped⟩ := inStep
  have running := running_of_quiet quiet
  unfold QueryDue elictFlag at quiet
  have unasked : c.stopAck = false := by
    cases ack : c.stopAck with
    | true =>
      rw [(stopped ack).1] at running
      cases running
    | false => rfl
  have below : c.sentCount < 8 := by
    simp only [running, Bool.false_eq_true, or_false] at quiet
    omega
  refine ⟨⟨?_, ?_, ?_, ?_⟩, ?_⟩
  · simp only [transmitted, List.length_append]
    omega
  · simp only [transmitted, List.length_append, List.length_singleton]
    omega
  · simp only [transmitted]
    omega
  · simp [transmitted, unasked]
  · simp [isStopped, transmitted, unasked]

theorem finishSend_inStep {c : Connection F} {now : Nat} {out : Bytes} {n : Nat}
    (inStep : InStep c) : InStep (c.finishSend now out n).conn := by
  obtain ⟨stamp, conn⟩ := finishSend_conn c now out n
  rw [conn]
  exact inStep_of_same inStep rfl rfl rfl rfl rfl

section Runs
variable [Octets]

structure StepAccount (c : Connection F) (o : Reply) (c' : Connection F) : Prop where
  inStep : InStep c'
  covered : c'.sentPkt.take c'.ackPoint = c.sentPkt.take c.ackPoint ++ o.packet?.toList.flatMap listed
  full : c.stopFlag = false → ∀ m h, o.packet? = some m → headerOf? .elictAck m = some h →
    FullQuery m h

theorem account_silent {c c' : Connection F} {o : Reply} (inStep : InStep c')
    (silent : ∀ m, o.packet? = some m → headerOf? .elictAck m = none)
    (same : c'.sentPkt.take c'.ackPoint = c.sentPkt.take c.ackPoint) : StepAccount c o c' := by
  refine ⟨inStep, ?_, ?_⟩
  · cases sent : o.packet? with
    | none => simpa using same
    | some m => simpa [listed_other (silent m sent)] using same
  · intro _ m h sent found
    rw [silent m sent] at found
    cases found

variable [Profile] [FloatOps F]

theorem step_account {c c' : Connection F} {a : Call} {o : Reply} (inStep : InStep c)
    (may : Roomy c a) (taken : SenderStep c a o c') : StepAccount c o c' := by
  cases taken with
  | kept same silent =>
    exact account_silent (inStep_of_same inStep same.sentPkt same.ackPoint same.sentCount
      same.stopFlag same.stopAck) (fun m sent => (silent m sent).2)
      (by rw [same.sentPkt, same.ackPoint])
  | dataSend loaded =>
    obtain ⟨⟨_, _, _, _, rfl⟩, _⟩ := loaded
    exact account_silent (inStep_of_same inStep rfl rfl rfl rfl rfl)
      (fun m sent => by cases sent) rfl
  | reset =>
    exact account_silent (inStep_of_same inStep rfl rfl rfl rfl rfl)
      (fun m sent => by cases sent) rfl
  | write wrote =>
    cases wrote with
    | wrote _ _ =>
      exact account_silent (inStep_of_same inStep rfl rfl rfl rfl rfl)
        (fun m sent => by cases sent) rfl
  | sendAll passed =>
    refine account_silent (sendAll_inStep inStep passed) (fun m sent => by cases sent) ?_
    cases passed with
    | drained _ _ => rfl
    | wrote _ _ => rfl
  | query due sent =>
    obtain ⟨conn, puts⟩ := query_sent inStep due may sent
    have packet := packetOf_puts puts
    obtain ⟨_, eight⟩ := querySize_listed inStep due
    refine ⟨?_, ?_, ?_⟩
    · rw [conn]
      exact query_inStep inStep
    · rw [packet?_sendData, packet, conn]
      simp only [Option.toList_some, List.flatMap_cons, List.flatMap_nil, List.append_nil,
        listed_query, List.take_length, List.take_append_drop]
    · intro running m h found kind
      rw [packet?_sendData, packet, Option.some.injEq] at found
      subst found
      rw [headerOf?_query, Option.some.injEq] at kind
      subst kind
      refine ⟨_, eight running, rfl, ?_⟩
      rw [eight running]
      rfl
  | application quiet awake sent =>
    cases sent with
    | nothing _ _ _ =>
      exact account_silent (inStep_of_same inStep rfl rfl rfl rfl rfl)
        (fun m sent => by cases sent) rfl
    | @packet sendBuffer body n off stop priority dic room emitted inside norm spent =>
      obtain ⟨grown, running⟩ := transmit_inStep inStep quiet
      refine account_silent (finishSend_inStep grown) ?_ ?_
      · intro m found
        rw [packet?_sendData, packetOf_puts (finishSend_puts (SendBuf.emit_size emitted).1 running),
          Option.some.injEq] at found
        subst found
        rw [headerOf?_encoded (by simp [applicationHeader])]
        rfl
      · obtain ⟨stamp, conn⟩ := finishSend_conn (transmitted c sendBuffer off stop dic) _
          ((applicationHeader c.pktNumSpaces.1.nextPktNum priority off n).encoded ++ body) n
        rw [conn]
        exact List.take_append_of_le_length inStep.inside

theorem run_inStep {localaddr peeraddr : SocketAddr} {now : Nat} {isServer : Bool}
    {trace : Trace F} {c : Connection F}
    (run : Run step Roomy (Connection.new localaddr peeraddr now isServer) trace c) : InStep c :=
  state_invariant InStep (fresh_inStep _ _ _ _)
    (fun _ _ _ _ inStep may taken => (step_account inStep may (sender_step taken)).inStep) run

theorem every_packet_queried_once (localaddr peeraddr : SocketAddr) (now : Nat) (isServer : Bool)
    {trace : Trace F} {c : Connection F}
    (run : Run step Roomy (Connection.new localaddr peeraddr now isServer) trace c) :
    c.sentCount = c.sentPkt.length - c.ackPoint ∧ c.ackPoint ≤ c.sentPkt.length ∧
      c.sentCount ≤ 8 ∧ queried trace = c.sentPkt.take c.ackPoint ∧
      (∀ t ∈ trace, t.before.stopFlag = false → ∀ m h, t.reply.packet? = some m →
        headerOf? .elictAck m = some h → FullQuery m h) ∧
      (c.isStopped = true → c.ackPoint = c.sentPkt.length) := by
  have account : InStep c ∧ queried trace = c.sentPkt.take c.ackPoint ∧
      (∀ t ∈ trace, t.before.stopFlag = false → ∀ m h, t.reply.packet? = some m →
        headerOf? .elictAck m = some h → FullQuery m h) := by
    refine run_invariant (fun trace c => InStep c ∧ queried trace = c.sentPkt.take c.ackPoint ∧
      (∀ t ∈ trace, t.before.stopFlag = false → ∀ m h, t.reply.packet? = some m →
        headerOf? .elictAck m = some h → FullQuery m h)) ?_ ?_ run
    · exact ⟨fresh_inStep _ _ _ _, rfl, by simp⟩
    · intro trace s a o s' _ earlier may taken
      obtain ⟨inStep, covered, full⟩ := earlier
      have account := step_account inStep may (sender_step taken)
      refine ⟨account.inStep, ?_, ?_⟩
      · rw [queried, packets_snoc, List.flatMap_append, account.covered, ← covered]
        rfl
      · intro t mem
        rcases List.mem_append.mp mem with old | new
        · exact full t old
        · rw [List.mem_singleton.mp new]
          exact account.full
  obtain ⟨⟨inside, count, small, stopped⟩, covered, full⟩ := account
  refine ⟨count, inside, small, covered, full, ?_⟩
  intro still
  simp only [isStopped, Bool.and_eq_true] at still
  exact (stopped still.2).2

end Runs

theorem one_chunk_queried : ∃ (trace : Trace ℚ) (c : Connection ℚ),
    Run (@step ℚ referenceOctets checkedBuild rationalFloats) Roomy freshServer trace c ∧
      trace.map (fun t => t.action) = chunkSession ∧ c.sentPkt = [0] ∧ c.isStopped = true ∧
      c.ackPoint = 1 ∧ @queried ℚ referenceOctets trace = [0] := by
  have passed : passes (@step ℚ referenceOctets checkedBuild rationalFloats) Roomy freshServer
      chunkSession (fun _ c => c.sentPkt == [0] && c.isStopped) = true := by decide +kernel
  obtain ⟨trace, c, run, played, outcome⟩ := played_run passed
  simp only [Bool.and_eq_true, beq_iff_eq] at outcome
  obtain ⟨_, _, _, covered, _, stopped⟩ := @every_packet_queried_once ℚ referenceOctets checkedBuild
    rationalFloats loopback loopback 0 true trace c run
  have mark := stopped outcome.2
  rw [outcome.1] at mark covered
  rw [mark] at covered
  exact ⟨trace, c, run, played, outcome.1, outcome.2, mark, covered⟩

end DmludpQueryAccounting
