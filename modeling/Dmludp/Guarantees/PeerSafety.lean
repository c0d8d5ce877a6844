import Dmludp.Guarantees.DatagramSafety
import Dmludp.Guarantees.FlushTermination
import Dmludp.Guarantees.QueryAccounting
import Dmludp.Guarantees.WireChunks

/- Honest peers over the network. A query names only offsets that were transmitted, an ACK only
   offsets that were asked for, and the block norms cover every transmitted offset; so neither
   endpoint can bring down the other, however late, often or out of order its datagrams arrive. -/
namespace DmludpPeerSafety
open ByteCursor RustOutcome TracedRun OrderedMap StreamTiling LossyNetwork DmludpPacket DmludpRange
open DmludpSend DmludpRecv DmludpRecovery DmludpConnection DmludpConnection.Connection DmludpCalls
open DmludpEffects DmludpReceiveEffects DmludpSenderSteps DmludpReceiverSteps DmludpAckAnswers DmludpSegmentation
open DmludpPacketIntegrity DmludpQueryAccounting DmludpDatagramSafety DmludpNoSilentDrop
open DmludpFlush DmludpWireChunks DmludpReference

variable {F : Type}

def ReceiverCall : Call → Prop
  | .recvSlice _ _ => True
  | .sendData _ _ _ => True
  | .read _ => True
  | .newRtt _ => True
  | .setHandshake _ => True
  | _ => False

instance (a : Call) : Decidable (ReceiverCall a) :=
  match a with
  | .recvSlice _ _ | .sendData _ _ _ | .read _ | .newRtt _ | .setHandshake _ =>
      inferInstanceAs (Decidable True)
  | .dataSend _ | .sendAll _ | .write | .reset | .checkLoss _ => inferInstanceAs (Decidable False)

/-- Deliveries as before, to a client that has no data of its own. -/
def Joined (j : System F) (e : Turn Call) : Prop :=
  Delivered j e ∧ ∀ a, e = .right a → ReceiverCall a

instance (j : System F) (e : Turn Call) : Decidable (Joined j e) :=
  match e with
  | .left a => decidable_of_iff (Delivered j (.left a)) (by simp [Joined])
  | .right a => decidable_of_iff (Delivered j (.right a) ∧ ReceiverCall a) (by simp [Joined])

theorem joined_roomy (j : System F) (a : Call) (may : Joined j (.left a)) :
    RoomyServerCall j.left a := delivered_roomy j a may.1

/-- An endpoint with nothing to send and nothing to ask for. -/
structure Passive (c : Connection F) : Prop where
  sentCount : c.sentCount = 0
  stopFlag : c.stopFlag = false
  writtenData : c.writtenData = 0

theorem passive_quiet {c : Connection F} (passive : Passive c) : ¬ QueryDue c := by
  simp [QueryDue, passive.sentCount, passive.stopFlag]

section Wire
variable [Octets]

def Asked (sent : List Bytes) (w : UInt64) : Prop := ∃ q ∈ sent, w ∈ listed q

def Transmitted (sent : List Bytes) (w : UInt64) : Prop :=
  ∃ m ∈ sent, isApplicationAt w.toNat m = true

theorem asked_grows {sent : List Bytes} {w : UInt64} (asked : Asked sent w) (more : List Bytes) :
    Asked (sent ++ more) w := by
  obtain ⟨q, mem, named⟩ := asked
  exact ⟨q, List.mem_append_left more mem, named⟩

theorem transmitted_grows {sent : List Bytes} {w : UInt64} (known : Transmitted sent w)
    (more : List Bytes) : Transmitted (sent ++ more) w := by
  obtain ⟨m, mem, there⟩ := known
  exact ⟨m, List.mem_append_left more mem, there⟩

/-- The content of a query is a list of offsets that were transmitted. -/
def Wholesome (c : Connection F) (q : Bytes) : Prop :=
  ∀ h, headerOf? .elictAck q = some h →
    ∃ ws, q.drop 26 = ws.flatMap u64Bytes ∧ listed q = ws ∧ ∀ w ∈ ws, w ∈ c.sentPkt

/-- The content of an ACK is a word and pairs, each for an offset that a query named. -/
def Prompted (sent : List Bytes) (m : Bytes) : Prop :=
  ∀ h, headerOf? .ack m = some h → ∃ (head : UInt64) (ps : List (UInt64 × UInt64)),
    m.drop 26 = u64Bytes head ++ ps.flatMap pairBytes ∧
      ∀ p ∈ ps, Asked sent p.1 ∧ (p.2 = 0 ∨ p.2 = 1)

theorem prompted_grows {sent : List Bytes} {m : Bytes} (prompted : Prompted sent m)
    (more : List Bytes) : Prompted (sent ++ more) m := by
  intro h kind
  obtain ⟨head, ps, layout, all⟩ := prompted h kind
  exact ⟨head, ps, layout, fun p mem => ⟨asked_grows (all p mem).1 more, (all p mem).2⟩⟩

theorem wholesome_grows {c c' : Connection F} {q : Bytes} (wholesome : Wholesome c q)
    (grown : ∀ w ∈ c.sentPkt, w ∈ c'.sentPkt) : Wholesome c' q := by
  intro h kind
  obtain ⟨ws, layout, same, all⟩ := wholesome h kind
  exact ⟨ws, layout, same, fun w mem => grown w (all w mem)⟩

theorem ack_prompted {sent : List Bytes} {c : Connection F} {order : IterOrder}
    (pending : ∀ w v, c.recvHashmap.lookup w = some v → Asked sent w ∧ (v = 0 ∨ v = 1)) :
    Prompted sent (c.ackHeader.encoded ++ ackPayload c order) := by
  intro h _
  refine ⟨UInt64.ofNat c.maxAck, c.pendingPairs order, List.drop_left' (encoded_length _), ?_⟩
  intro p mem
  exact pending p.1 p.2 (pendingPairs_lookup mem)

/-- What holds of the two endpoints and the two directions of the network together. -/
structure Peers (j : System F) : Prop where
  inStep : InStep j.left
  shipped : ∀ w ∈ j.left.sentPkt, Transmitted j.toRight w ∧ w.toNat / 1024 < j.left.norm2Vec.length
  queries : ∀ q ∈ j.toRight, Wholesome j.left q
  passive : Passive j.right
  pending : ∀ w v, j.right.recvHashmap.lookup w = some v → Asked j.toRight w ∧ (v = 0 ∨ v = 1)
  unmarked : ∀ m ∈ j.toLeft, headerOf? .application m = none ∧ headerOf? .elictAck m = none
  answers : ∀ m ∈ j.toLeft, Prompted j.toRight m

theorem asked_shipped {j : System F} (peers : Peers j) {w : UInt64} (asked : Asked j.toRight w) :
    w ∈ j.left.sentPkt := by
  obtain ⟨q, query, named⟩ := asked
  cases found : headerOf? .elictAck q with
  | none =>
    rw [listed_other found] at named
    cases named
  | some h =>
    obtain ⟨ws, _, same, shipped⟩ := peers.queries q query h found
    rw [same] at named
    exact shipped w named

end Wire

section Server
variable [Octets] [FloatOps F] [Profile]

theorem server_ships {text : Bytes} {norms : List F} {sent : List Bytes} {c c' : Connection F}
    {a : Call} {o : Reply} (numbered : Numbered text norms sent c) (may : ServerCall c a)
    (taken : SenderStep c a o c') :
    (∀ w ∈ c.sentPkt, w ∈ c'.sentPkt) ∧
    (∀ w ∈ c'.sentPkt, w ∈ c.sentPkt ∨ Transmitted o.packet?.toList w ∧
      w.toNat / 1024 < c.norm2Vec.length) := by
  suffices same : c'.sentPkt = c.sentPkt ∨ ∃ w, c'.sentPkt = c.sentPkt ++ [w] ∧
      Transmitted o.packet?.toList w ∧ w.toNat / 1024 < c.norm2Vec.length by
    rcases same with same | ⟨w, same, shipped⟩
    · rw [same]
      exact ⟨fun _ mem => mem, fun _ mem => Or.inl mem⟩
    · rw [same]
      refine ⟨fun _ mem => List.mem_append_left _ mem, ?_⟩
      intro w' mem
      rcases List.mem_append.mp mem with old | new
      · exact Or.inl old
      · rw [List.mem_singleton.mp new]
        exact Or.inr shipped
  cases taken with
  | kept same _ => exact Or.inl same.sentPkt
  | dataSend _ => exact may.elim
  | reset => exact may.elim
  | write _ => exact may.elim
  | sendAll passed =>
    cases passed with
    | drained _ _ => exact Or.inl rfl
    | wrote _ _ => exact Or.inl rfl
  | query due sent =>
    obtain ⟨_, _, _, conn, _⟩ := sendElictAck_frame sent
    rw [conn]
    exact Or.inl rfl
  | application quiet _ sent =>
    have unasked := orderly_unasked numbered.orderly (running_of_quiet quiet)
    cases application_served numbered.stream unasked sent with
    | nothing _ _ conn =>
      rw [conn]
      exact Or.inl rfl
    | @chunk b rest priority dic n content sendBuffer stop stamp front norm _ puts _ _ conn _ =>
      have mem : b ∈ c.sendBuffer.data := List.mem_of_mem_drop (by rw [front]; simp)
      have small := stream_word numbered.stream b mem
      have word : (UInt64.ofNat b.off).toNat = b.off := word_of_size small
      right
      refine ⟨UInt64.ofNat b.off, by rw [conn]; rfl, ?_, ?_⟩
      · rw [packet?_sendData, packetOf_puts puts]
        refine ⟨_, List.mem_singleton.mpr rfl, ?_⟩
        unfold isApplicationAt
        rw [headerOf?_application]
        exact beq_iff_eq.mpr rfl
      · rw [word]
        exact priorityCalculation_ok_iff.mp ⟨priority, norm⟩

theorem server_wholesome {c c' : Connection F} {a : Call} {o : Reply} (inStep : InStep c)
    (may : RoomyServerCall c a) (taken : SenderStep c a o c') :
    ∀ m, o.packet? = some m → Wholesome c' m := by
  intro m found h kind
  cases taken with
  | kept _ silent =>
    rw [(silent m found).2] at kind
    cases kind
  | dataSend _ => exact may.1.elim
  | reset => exact may.1.elim
  | write _ => exact may.1.elim
  | sendAll _ => cases found
  | query due sent =>
    obtain ⟨conn, puts⟩ := query_sent inStep due may.2 sent
    rw [packet?_sendData, packetOf_puts puts, Option.some.injEq] at found
    subst found
    refine ⟨c.sentPkt.drop c.ackPoint, List.drop_left' (encoded_length _), listed_query _ _ _, ?_⟩
    intro w mem
    rw [conn]
    exact List.mem_of_mem_drop mem
  | application quiet _ sent =>
    cases sent with
    | nothing _ _ _ => cases found
    | @packet sendBuffer body n off stop priority dic _ emitted _ _ _ =>
      have running : (transmitted c sendBuffer off stop dic).isStopped = false :=
        (transmit_inStep inStep quiet).2
      rw [packet?_sendData, packetOf_puts (finishSend_puts (SendBuf.emit_size emitted).1 running),
        Option.some.injEq] at found
      subst found
      rw [headerOf?_encoded (by simp [applicationHeader])] at kind
      cases kind

theorem server_peers {text : Bytes} {norms : List F} {sent : List Bytes} {j : System F} {a : Call}
    {c' : Connection F} {o : Reply} (peers : Peers j)
    (numbered : Numbered text norms sent j.left) (may : RoomyServerCall j.left a)
    (taken : SenderStep j.left a o c') :
    Peers { j with left := c', toRight := j.toRight ++ o.packet?.toList } := by
  obtain ⟨inStep, shipped, queries, passive, pending, unmarked, answers⟩ := peers
  obtain ⟨grown, new⟩ := server_ships numbered may.1 taken
  have kept := (step_norms may.1 taken).1
  refine ⟨(step_account inStep may.2 taken).inStep, ?_, ?_, passive, ?_, unmarked, ?_⟩
  · intro w mem
    dsimp only
    rw [kept]
    rcases new w mem with old | ⟨⟨m, here, there⟩, covered⟩
    · exact ⟨transmitted_grows (shipped w old).1 _, (shipped w old).2⟩
    · exact ⟨⟨m, List.mem_append_right _ here, there⟩, covered⟩
  · intro q mem
    rcases List.mem_append.mp mem with old | fresh
    · exact wholesome_grows (queries q old) grown
    · exact server_wholesome inStep may taken q (Option.mem_toList.mp fresh)
  · intro w v found
    exact ⟨asked_grows (pending w v found).1 _, (pending w v found).2⟩
  · exact fun m mem => prompted_grows (answers m mem) _

end Server

section Answers
variable [Octets] [Profile]

theorem client_pending {j : System F} {a : Call} {c' : Connection F} {o : Reply} (peers : Peers j)
    (may : Joined j (.right a)) (receiver : ReceiverStep j.right a o c') :
    ∀ w v, c'.recvHashmap.lookup w = some v → Asked j.toRight w ∧ (v = 0 ∨ v = 1) := by
  intro w v found
  cases receiver with
  | kept same _ _ =>
    rw [same.recvHashmap] at found
    exact peers.pending w v found
  | stored _ _ _ _ _ same =>
    rw [same] at found
    exact peers.pending w v found
  | @queried now buf ws _ _ complete kind layout _ _ same =>
    rw [same, lookup_answerAll] at found
    split at found
    · rename_i named
      obtain ⟨ws', layout', names, _⟩ := peers.queries buf.bytes may.1 (decodeHeader buf.bytes)
        (by rw [headerOf?_complete complete, if_pos kind])
      have same_words : ws = ws' := by
        have first := readOffsets_words ws
        rw [← layout, layout', readOffsets_words, Except.ok.injEq] at first
        exact first.symm
      refine ⟨⟨buf.bytes, may.1, ?_⟩, ?_⟩
      · rw [names, ← same_words]
        exact named
      · rw [Option.some.injEq, answer] at found
        rw [← found]
        split
        · exact Or.inl rfl
        · exact Or.inr rfl
    · exact peers.pending w v found
  | checked _ => exact (may.2 _ rfl).elim
  | answered _ _ _ _ cleared =>
    rw [cleared] at found
    simp at found
  | read _ => exact peers.pending w v found

theorem client_prompted {j : System F} {a : Call} {c' : Connection F} {o : Reply} (peers : Peers j)
    (receiver : ReceiverStep j.right a o c') :
    ∀ m, o.packet? = some m → Prompted j.toRight m := by
  intro m sent h kind
  cases receiver with
  | kept _ unacking _ =>
    rw [unacking m sent] at kind
    cases kind
  | stored _ _ _ _ _ _ => cases sent
  | queried _ _ _ _ _ _ => cases sent
  | checked _ => cases sent
  | answered _ packet _ _ _ =>
    rw [packet?_sendData, packet, Option.some.injEq] at sent
    subst sent
    exact ack_prompted peers.pending h kind
  | read _ => cases sent

end Answers

section Client
variable [Octets] [FloatOps F] [Profile]

theorem passive_step {c c' : Connection F} {a : Call} {o : Reply} (passive : Passive c)
    (may : ReceiverCall a) (taken : SenderStep c a o c') : Passive c' ∧ Unmarked o := by
  cases taken with
  | kept same silent =>
    exact ⟨⟨same.sentCount.trans passive.sentCount, same.stopFlag.trans passive.stopFlag,
      same.writtenData.trans passive.writtenData⟩, silent⟩
  | dataSend _ => exact may.elim
  | reset => exact may.elim
  | write _ => exact may.elim
  | sendAll _ => exact may.elim
  | query due _ => exact absurd due (passive_quiet passive)
  | application _ _ sent =>
    cases sent with
    | nothing _ _ _ =>
      exact ⟨⟨passive.sentCount, passive.stopFlag, passive.writtenData⟩, unmarked_none rfl⟩
    | packet _ _ inside _ _ =>
      rw [passive.writtenData] at inside
      exact absurd inside (Nat.not_lt_zero _)

theorem client_peers {j : System F} {a : Call} {c' : Connection F} {o : Reply} (peers : Peers j)
    (may : Joined j (.right a)) (sender : SenderStep j.right a o c')
    (receiver : ReceiverStep j.right a o c') :
    Peers { j with right := c', toLeft := j.toLeft ++ o.packet?.toList } := by
  obtain ⟨passive, silent⟩ := passive_step peers.passive (may.2 a rfl) sender
  have pending := client_pending peers may receiver
  refine ⟨peers.inStep, peers.shipped, peers.queries, passive, pending, ?_, ?_⟩
  · intro m mem
    rcases List.mem_append.mp mem with old | new
    · exact peers.unmarked m old
    · exact silent m (Option.mem_toList.mp new)
  · intro m mem
    rcases List.mem_append.mp mem with old | new
    · exact peers.answers m old
    · exact client_prompted peers receiver m (Option.mem_toList.mp new)

theorem run_peers {start j : System F} (fresh : Start start) {trace : SystemTrace F}
    (run : Run (jointStep step Reply.packet?) Joined start trace j) : Peers j := by
  refine run_invariant (fun _ j => Peers j) ?_ ?_ run
  · obtain ⟨unused, _⟩ := session_unused (start_session fresh)
    obtain ⟨_, _, _, client⟩ := fresh.client
    refine ⟨⟨?_, ?_, ?_, ?_⟩, ?_, ?_, ?_, ?_, ?_, ?_⟩
    · simp [unused.sentPkt, unused.ackPoint]
    · simp [unused.sentPkt, unused.sentCount]
    · simp [unused.sentCount]
    · simp [unused.unasked]
    · simp [unused.sentPkt]
    · simp [fresh.toRight]
    · rw [client]
      exact ⟨rfl, rfl, rfl⟩
    · rw [client]
      simp [Connection.connect, Connection.new]
    · simp [fresh.toLeft]
    · simp [fresh.toLeft]
  · intro trace j e o j' earlier peers may taken
    cases joint_cases taken with
    | left own =>
      have numbered := run_numbered (start_session fresh) (left_run joined_roomy earlier)
      exact server_peers peers numbered (joined_roomy _ _ may) (sender_step own)
    | right own => exact client_peers peers may (sender_step own) (receiver_step own)

theorem joined_delivered {start j : System F} {trace : SystemTrace F}
    (run : Run (jointStep step Reply.packet?) Joined start trace j) :
    Run (jointStep step Reply.packet?) Delivered start trace j :=
  run_widen (fun _ _ may => may.1) run

theorem run_sides {start j : System F} (fresh : Start start) {trace : SystemTrace F}
    (run : Run (jointStep step Reply.packet?) Delivered start trace j) :
    j.left.isServer = true ∧ j.right.isServer = false := by
  refine state_invariant (fun j : System F => j.left.isServer = true ∧ j.right.isServer = false)
    ?_ ?_ run
  · obtain ⟨_, _, _, _, sent⟩ := fresh.loaded
    obtain ⟨_, _, _, client⟩ := fresh.client
    obtain ⟨⟨_, _, _, _, loaded⟩, _⟩ := dataSend_loaded sent
    rw [loaded, client]
    exact ⟨rfl, rfl⟩
  · intro j e o j' sides _ taken
    cases joint_cases taken with
    | left own => exact ⟨(step_side (sender_step own)).trans sides.1, sides.2⟩
    | right own => exact ⟨sides.1, (step_side (sender_step own)).trans sides.2⟩

theorem client_takes {start j : System F} (fresh : Start start) {trace : SystemTrace F}
    (run : Run (jointStep step Reply.packet?) Joined start trace j) {m : Bytes}
    (sent : m ∈ j.toRight) (now : Nat) : ∃ r, j.right.recvSlice now m = .ok r := by
  have peers := run_peers fresh run
  have role := (run_sides fresh (joined_delivered run)).2
  have faithful := run_faithful fresh (joined_delivered run)
  have segmented := run_segmented (start_session fresh)
    (left_run (fun j a may => (joined_roomy j a may).1) run)
  by_cases complete : 26 ≤ m.length
  · have header : ∀ ty, (decodeHeader m).ty = ty → headerOf? ty m = some (decodeHeader m) :=
      fun ty kind => by rw [headerOf?_complete complete, if_pos kind]
    apply (recvSlice_ok_iff j.right now complete).mpr
    refine ⟨?_, ?_, ?_⟩
    · intro _ server
      rw [role] at server
      cases server
    · intro kind
      obtain ⟨ws, layout, _⟩ := peers.queries m sent _ (header _ kind)
      rw [layout, words_length]
      exact Nat.mul_mod_right 8 ws.length
    · intro kind _
      obtain ⟨b, made, conveys⟩ := faithful.wire m sent _ (header _ kind)
      obtain ⟨_, end_, fits, _⟩ := made_bounds segmented made
      unfold EndFits
      rw [conveys.offset, conveys.payload]
      simp only [isizeMax, wordSize] at fits ⊢
      omega
  · obtain ⟨count, refused⟩ := recvSlice_short j.right now (Nat.lt_of_not_le complete)
    exact ⟨_, refused⟩

theorem server_takes_iff {start j : System F} (fresh : Start start) {trace : SystemTrace F}
    (run : Run (jointStep step Reply.packet?) Joined start trace j) {m : Bytes}
    (sent : m ∈ j.toLeft) (now : Nat) : (∃ r, j.left.recvSlice now m = .ok r) ↔
      ∀ h head ps, headerOf? .ack m = some h → readPairs (m.drop 26) = .ok (head, ps) →
        WindowFits j.left.recovery (ackWeights j.left ps) := by
  have peers := run_peers fresh run
  have role := (run_sides fresh (joined_delivered run)).1
  by_cases complete : 26 ≤ m.length
  · have header : ∀ ty, (decodeHeader m).ty = ty → headerOf? ty m = some (decodeHeader m) :=
      fun ty kind => by rw [headerOf?_complete complete, if_pos kind]
    have other : ∀ ty, headerOf? ty m = none → (decodeHeader m).ty ≠ ty := by
      intro ty nothing kind
      rw [header ty kind] at nothing
      cases nothing
    obtain ⟨noData, noQuery⟩ := peers.unmarked m sent
    rw [recvSlice_ok_iff j.left now complete]
    constructor
    · rintro ⟨digest, _, _⟩ h head ps kind read
      rw [headerOf?_complete complete] at kind
      split at kind
      · rename_i ack
        obtain ⟨head', ps', layout, _, fits⟩ := digest ack role
        rw [layout, readPairs_pairs, Except.ok.injEq, Prod.mk.injEq] at read
        rw [← read.2]
        exact fits
      · cases kind
    · intro fits
      refine ⟨?_, fun kind => absurd kind (other _ noQuery), fun kind => absurd kind (other _ noData)⟩
      intro kind _
      obtain ⟨head, ps, layout, named⟩ := peers.answers m sent _ (header _ kind)
      refine ⟨head, ps, layout, ?_, ?_⟩
      · intro p mem
        exact (peers.shipped p.1 (asked_shipped peers (named p mem).1)).2
      · apply fits _ head ps (header _ kind)
        rw [layout, readPairs_pairs]
  · obtain ⟨count, refused⟩ := recvSlice_short j.left now (Nat.lt_of_not_le complete)
    refine iff_of_true ⟨_, refused⟩ ?_
    intro h head ps kind _
    rw [headerOf?_short (Nat.lt_of_not_le complete)] at kind
    cases kind

/-- Nothing an honest peer has sent brings an endpoint down, whenever it arrives and however often;
    in a build with overflow checks an ACK must leave room in the window sums. -/
theorem honest_datagrams_taken {start j : System F} (fresh : Start start) {trace : SystemTrace F}
    (run : Run (jointStep step Reply.packet?) Joined start trace j) (now : Nat) :
    (∀ m ∈ j.toRight, ∃ r, j.right.recvSlice now m = .ok r) ∧
    (∀ m ∈ j.toLeft, (∃ r, j.left.recvSlice now m = .ok r) ↔
      ∀ h head ps, headerOf? .ack m = some h → readPairs (m.drop 26) = .ok (head, ps) →
        WindowFits j.left.recovery (ackWeights j.left ps)) :=
  ⟨fun _ sent => client_takes fresh run sent now, fun _ sent => server_takes_iff fresh run sent now⟩

/-- An ACK speaks only of offsets that were transmitted and asked for, and reports as received only
    what the client has processed. -/
theorem acks_answer_what_was_asked {start j : System F} (fresh : Start start)
    {trace : SystemTrace F} (run : Run (jointStep step Reply.packet?) Joined start trace j)
    {m : Bytes} {h : Header} (sent : m ∈ j.toLeft) (kind : headerOf? .ack m = some h) :
    ∃ head ps, readPairs (m.drop 26) = .ok (head, ps) ∧
      ∀ p ∈ ps, Transmitted j.toRight p.1 ∧ Asked j.toRight p.1 ∧
        ((p.2 = 0 ∧ Processed (rightTrace trace) p.1.toNat) ∨ p.2 = 1) := by
  have peers := run_peers fresh run
  have accounted := run_accounted fresh (joined_delivered run)
  obtain ⟨head, ps, layout, named⟩ := peers.answers m sent h kind
  refine ⟨head, ps, by rw [layout, readPairs_pairs], ?_⟩
  intro p mem
  obtain ⟨asked, flag⟩ := named p mem
  refine ⟨(peers.shipped p.1 (asked_shipped peers asked)).1, asked, ?_⟩
  rcases flag with zero | one
  · left
    refine ⟨zero, accounted.acks m sent p.1.toNat ?_⟩
    by_cases complete : 26 ≤ m.length
    · rw [headerOf?_complete complete] at kind
      split at kind
      · rename_i ack
        exact ⟨complete, ack, head, ps, layout, p, mem, rfl, zero⟩
      · cases kind
    · rw [headerOf?_short (Nat.lt_of_not_le complete)] at kind
      cases kind
  · exact Or.inr one

end Client

theorem joined_played {text : List Char} {turns : List (Turn Call)}
    {test : Connection ℚ → SystemTrace ℚ → System ℚ → Bool}
    (passed : exchangePasses text turns (fun c trace j =>
      trace.all (fun t => decide (Joined t.before t.action)) && test c trace j) = true) :
    ∃ (start j : System ℚ) (trace : SystemTrace ℚ), @Start ℚ rationalFloats checkedBuild start ∧
      Run (jointStep (@step ℚ referenceOctets checkedBuild rationalFloats) Reply.packet?) Joined
        start trace j ∧ trace.map (fun t => t.action) = turns ∧ test start.left trace j = true := by
  obtain ⟨start, j, trace, fresh, run, played, outcome⟩ := exchange_played passed
  simp only [Bool.and_eq_true, List.all_eq_true, decide_eq_true_eq] at outcome
  exact ⟨start, j, trace, fresh, run_narrow run outcome.1, played, outcome.2⟩

theorem exchange_datagrams_taken : ∃ (start j : System ℚ) (trace : SystemTrace ℚ),
    @Start ℚ rationalFloats checkedBuild start ∧
      Run (jointStep (@step ℚ referenceOctets checkedBuild rationalFloats) Reply.packet?) Joined
        start trace j ∧
      trace.map (fun t => t.action) = oneChunkExchange ∧ j.toRight.length = 3 ∧
      ∀ m ∈ j.toRight, ∃ r,
        @recvSlice ℚ referenceOctets rationalFloats checkedBuild j.right 14 m = .ok r := by
  have passed : exchangePasses (onesText 255) oneChunkExchange (fun _ trace j =>
      trace.all (fun t => decide (Joined t.before t.action)) && j.toRight.length == 3) = true := by
    decide +kernel
  obtain ⟨start, j, trace, fresh, run, played, outcome⟩ := joined_played passed
  obtain ⟨taken, _⟩ := @honest_datagrams_taken ℚ referenceOctets rationalFloats checkedBuild start j
    fresh trace run 14
  exact ⟨start, j, trace, fresh, run, played, beq_iff_eq.mp outcome, taken⟩

theorem exchange_ack_prompted : ∃ (start j : System ℚ) (trace : SystemTrace ℚ) (m : Bytes)
    (head : UInt64) (ps : List (UInt64 × UInt64)), @Start ℚ rationalFloats checkedBuild start ∧
      Run (jointStep (@step ℚ referenceOctets checkedBuild rationalFloats) Reply.packet?) Joined
        start trace j ∧
      trace.map (fun t => t.action) = oneChunkExchange ∧ m ∈ j.toLeft ∧
      readPairs (m.drop 26) = .ok (head, ps) ∧
      ∀ p ∈ ps, @Transmitted referenceOctets j.toRight p.1 ∧ @Asked referenceOctets j.toRight p.1 := by
  have passed : exchangePasses (onesText 255) oneChunkExchange (fun _ trace j =>
      trace.all (fun t => decide (Joined t.before t.action)) &&
        j.toLeft.any (fun m => (@headerOf? referenceOctets .ack m).isSome)) = true := by
    decide +kernel
  obtain ⟨start, j, trace, fresh, run, played, outcome⟩ := joined_played passed
  obtain ⟨m, sent, found⟩ := List.any_eq_true.mp outcome
  obtain ⟨h, kind⟩ := Option.isSome_iff_exists.mp found
  obtain ⟨head, ps, read, named⟩ := @acks_answer_what_was_asked ℚ referenceOctets rationalFloats
    checkedBuild start j fresh trace run m h sent kind
  exact ⟨start, j, trace, m, head, ps, fresh, run, played, sent, read,
    fun p mem => ⟨(named p mem).1, (named p mem).2.1⟩⟩

end DmludpPeerSafety
