import Dmludp.Guarantees.PacketIntegrity

/- The retransmission budget of an offset. `sentDic` counts down on the send path, the chunk is
   retired on the ACK path and leaves the queue at the next `send_all`. The counter never runs
   ahead of the transmissions; it stays exact as long as a used-up chunk is retired in time. -/
namespace DmludpBudget
open ByteCursor RustOutcome TracedRun OrderedMap StreamTiling DmludpPacket DmludpRange DmludpSend
open DmludpRecovery DmludpConnection DmludpConnection.Connection DmludpCalls DmludpEffects
open DmludpReceiveEffects DmludpSenderSteps DmludpSendAccounting DmludpSegmentation
open DmludpPacketIntegrity DmludpReference

variable {F : Type}

section Wire
variable [Octets]

theorem transmissions_append (o : Nat) (xs ys : List Bytes) :
    transmissions o (xs ++ ys) = transmissions o xs + transmissions o ys := List.countP_append

theorem transmissions_other (off : Nat) {o : Reply}
    (silent : ∀ m, o.packet? = some m → headerOf? .application m = none) :
    transmissions off o.packet?.toList = 0 := by
  cases sent : o.packet? with
  | none => rfl
  | some m => simp [transmissions, isApplicationAt, silent m sent]

theorem transmissions_chunk (o pn : Nat) (priority : UInt8) {off : Nat} (n : Nat) (rest : Bytes)
    (fits : off ≤ isizeMax) : transmissions o
      [(applicationHeader pn priority off n).encoded ++ rest] = if off = o then 1 else 0 := by
  have offset : (applicationHeader pn priority off n).offset.toNat = off := word_of_size fits
  by_cases same : off = o
  · subst same
    simp [transmissions, isApplicationAt, headerOf?_application, offset]
  · simp [transmissions, isApplicationAt, headerOf?_application, offset, same]

theorem transmissions_served {text : Bytes} (sent : List Bytes) {c : Connection F} {o : Reply}
    {b : RangeBuf} {pn n : Nat} {priority : UInt8} {rest : Bytes} (stream : Stream text c)
    (mem : b ∈ c.sendBuffer.data)
    (packet : o.packet? = some ((applicationHeader pn priority b.off n).encoded ++ rest))
    (off : Nat) : transmissions off (sent ++ o.packet?.toList) =
      transmissions off sent + if b.off = off then 1 else 0 := by
  rw [transmissions_append, packet, Option.toList_some,
    transmissions_chunk _ _ _ _ _ (stream_word stream b mem)]

variable [Profile] [FloatOps F]

inductive WireStep (c : Connection F) (o : Reply) (c' : Connection F) : Prop where
  | silent (silent : ∀ m, o.packet? = some m → headerOf? .application m = none)
      (dic : c'.sentDic = c.sentDic)
  | chunk {b : RangeBuf} {rest : List RangeBuf} {priority : UInt8} {pn n : Nat} {content : Bytes}
      (running : c.stopFlag = false) (front : c.sendBuffer.data.drop c.sendBuffer.pos = b :: rest)
      (norm : c.priorityCalculation b.off = .ok priority)
      (spent : spendBudget c.sentDic b.off priority = .ok c'.sentDic)
      (sent : o.packet? = some ((applicationHeader pn priority b.off n).encoded ++ content))

theorem wire_step {text : Bytes} {c c' : Connection F} {a : Call} {o : Reply}
    (stream : Stream text c) (orderly : Orderly c) (may : ServerCall c a)
    (taken : SenderStep c a o c') : WireStep c o c' := by
  cases taken with
  | kept same silent => exact .silent (fun m found => (silent m found).1) same.sentDic
  | dataSend _ => exact may.elim
  | reset => exact may.elim
  | write _ => exact may.elim
  | sendAll passed =>
    refine .silent (fun m found => by cases found) ?_
    cases passed with
    | drained _ _ => rfl
    | wrote _ _ => rfl
  | query due sent =>
    refine .silent (query_unnumbered sent).2 ?_
    obtain ⟨_, _, _, conn, _⟩ := sendElictAck_frame sent
    rw [conn]
  | application quiet _ sent =>
    have unasked := orderly_unasked orderly (running_of_quiet quiet)
    cases application_served stream unasked sent with
    | nothing _ result conn =>
      refine .silent ?_ (by rw [conn])
      intro m found
      rw [packet?_sendData, packetOf_error result] at found
      cases found
    | chunk front norm spent puts _ _ conn _ =>
      refine .chunk (running_of_quiet quiet) front norm ?_ (packetOf_puts puts)
      rw [conn]
      exact spent

end Wire

/-- The three ways a transmission is charged; the last one only in a build that wraps. -/
theorem spendBudget_cases [Profile] {dic dic' : HashMap Nat Nat} {off : Nat} {priority : UInt8}
    (spent : spendBudget dic off priority = .ok dic') :
    (dic.lookup off = none ∧ dic' = dic.insert off priority.toNat) ∨
      (∃ x, dic.lookup off = some (x + 1) ∧ dic' = dic.insert off x) ∨
      (dic.lookup off = some 0 ∧ dic' = dic.insert off (wordSize - 1)) := by
  unfold spendBudget at spent
  split at spent
  · rename_i x known
    obtain ⟨left, less, spent⟩ := bind_ok_iff.mp spent
    simp only [pure, Except.pure, Except.ok.injEq] at spent
    subst spent
    cases x with
    | succ x =>
      rw [subWord_fits (by omega), Except.ok.injEq] at less
      exact Or.inr (Or.inl ⟨x, known, by rw [← less, Nat.add_sub_cancel]⟩)
    | zero =>
      refine Or.inr (Or.inr ⟨known, ?_⟩)
      unfold subWord at less
      rw [if_neg (by omega)] at less
      split at less
      · cases less
      · simp only [Except.ok.injEq] at less
        rw [← less, Nat.zero_add, Nat.mod_eq_of_lt (by simp [wordSize])]
  · rename_i unknown
    simp only [Except.ok.injEq] at spent
    exact Or.inl ⟨unknown, spent.symm⟩

theorem spendBudget_elsewhere [Profile] {dic dic' : HashMap Nat Nat} {off o : Nat} {priority : UInt8}
    (spent : spendBudget dic off priority = .ok dic') (apart : o ≠ off) :
    dic'.lookup o = dic.lookup o := by
  rcases spendBudget_cases spent with ⟨_, rfl⟩ | ⟨_, _, rfl⟩ | ⟨_, rfl⟩
  all_goals exact AList.lookup_insert_ne apart

theorem spendBudget_leaves [Profile] {dic dic' : HashMap Nat Nat} {off : Nat} {priority : UInt8}
    (spent : spendBudget dic off priority = .ok dic') (again : priority.toNat ≠ 0)
    (two : dic.lookup off ≠ some 0 ∧ dic.lookup off ≠ some 1) : dic'.lookup off ≠ some 0 := by
  rcases spendBudget_cases spent with ⟨_, rfl⟩ | ⟨x, had, rfl⟩ | ⟨none_left, _⟩
  · rw [AList.lookup_insert, Ne, Option.some.injEq]
    exact again
  · rw [AList.lookup_insert, Ne, Option.some.injEq]
    intro zero
    subst zero
    exact two.2 had
  · exact absurd none_left two.1

section Tally
variable [Octets] [FloatOps F]

/-- The counters against the transmissions on the wire. -/
structure Tally (sent : List Bytes) (c : Connection F) : Prop where
  known : ∀ o x, c.sentDic.lookup o = some x → o < c.sendBuffer.off
  fresh : ∀ o, c.sentDic.lookup o = none → transmissions o sent = 0
  left : ∀ o x, c.sentDic.lookup o = some x → ∃ p, c.priorityCalculation o = .ok p ∧
    0 < transmissions o sent ∧ p.toNat + 1 ≤ x + transmissions o sent

def Tight (sent : List Bytes) (c : Connection F) : Prop :=
  ∀ o x p, c.sentDic.lookup o = some x → c.priorityCalculation o = .ok p →
    x + transmissions o sent ≤ p.toNat + 1

variable [Profile]

theorem tally_charged {sent : List Bytes} {c : Connection F} {off : Nat} {priority : UInt8}
    {dic : HashMap Nat Nat} (tally : Tally sent c)
    (norm : c.priorityCalculation off = .ok priority)
    (spent : spendBudget c.sentDic off priority = .ok dic) :
    ∃ y, dic.lookup off = some y ∧ priority.toNat + 1 ≤ y + (transmissions off sent + 1) := by
  rcases spendBudget_cases spent with ⟨_, rfl⟩ | ⟨x, found, rfl⟩ | ⟨found, rfl⟩
  · exact ⟨_, AList.lookup_insert _, by omega⟩
  · obtain ⟨p, norm', _, cover⟩ := tally.left _ _ found
    rw [norm, Except.ok.injEq] at norm'
    subst norm'
    exact ⟨x, AList.lookup_insert _, by omega⟩
  · have small := priority.toNat_lt
    refine ⟨_, AList.lookup_insert _, ?_⟩
    simp only [wordSize]
    omega

theorem step_tally {text : Bytes} {sent : List Bytes} {c c' : Connection F} {a : Call} {o : Reply}
    (tally : Tally sent c) (stream : Stream text c) (orderly : Orderly c) (may : ServerCall c a)
    (taken : SenderStep c a o c') : Tally (sent ++ o.packet?.toList) c' := by
  have norms := (step_norms may taken).2
  obtain ⟨kept, added, grown⟩ := step_grown stream may taken
  have longer := tiles_bounds grown.tiles
  cases wire_step stream orderly may taken with
  | silent silent dic =>
    refine ⟨?_, ?_, ?_⟩
    · intro off x found
      rw [dic] at found
      have below := tally.known off x found
      omega
    · intro off absent
      rw [dic] at absent
      rw [transmissions_append, transmissions_other off silent, tally.fresh off absent]
    · intro off x found
      rw [dic] at found
      rw [transmissions_append, transmissions_other off silent, norms]
      exact tally.left off x found
  | @chunk b rest priority pn n content _ front norm spent packet =>
    have mem : b ∈ c.sendBuffer.data := List.mem_of_mem_drop (by rw [front]; simp)
    have below := stream_below stream b mem
    have count := transmissions_served sent stream mem packet
    obtain ⟨y, charged, enough⟩ := tally_charged tally norm spent
    refine ⟨?_, ?_, ?_⟩
    · intro off x found
      by_cases same : off = b.off
      · omega
      · rw [spendBudget_elsewhere spent same] at found
        have older := tally.known off x found
        omega
    · intro off absent
      by_cases same : off = b.off
      · rw [same, charged] at absent
        cases absent
      · rw [spendBudget_elsewhere spent same] at absent
        rw [count, if_neg (Ne.symm same), tally.fresh off absent]
    · intro off x found
      rw [count, norms]
      by_cases same : off = b.off
      · rw [same, charged, Option.some.injEq] at found
        rw [if_pos same.symm, same, ← found]
        exact ⟨priority, norm, by omega, enough⟩
      · rw [spendBudget_elsewhere spent same] at found
        rw [if_neg (Ne.symm same)]
        exact tally.left off x found

end Tally

/-- No chunk the running pass can still reach has used up its budget. -/
def Unspent (c : Connection F) : Prop := c.stopFlag = false →
  (∀ b ∈ c.sendBuffer.data.drop c.sendBuffer.pos, c.sentDic.lookup b.off ≠ some 0) ∧
    (c.sendBuffer.data.length ≤ c.sendBuffer.pos →
      ∀ b ∈ c.sendBuffer.data, c.sentDic.lookup b.off ≠ some 0)

/-- Calls that leave a used-up chunk no way onto the wire: a pass starts after every such chunk
    has been retired, and a buffer without room for a block, which leaves the cursor on its
    chunk, is offered only where that chunk has two transmissions left. -/
def InBudget (c : Connection F) : Call → Prop
  | .sendAll _ => ∀ b ∈ c.sendBuffer.data, c.sentDic.lookup b.off = some 0 →
      (b.off, false) ∈ c.sendBuffer.offsetRecv.entries
  | .sendData _ _ out => 1050 ≤ out.bytes.length ∨
      ∀ b ∈ (c.sendBuffer.data.drop c.sendBuffer.pos).take 1,
        c.sentDic.lookup b.off ≠ some 0 ∧ c.sentDic.lookup b.off ≠ some 1
  | .recvSlice _ _ => True
  | _ => False

instance (c : Connection F) (a : Call) : Decidable (InBudget c a) :=
  match a with
  | .sendAll _ => inferInstanceAs (Decidable (∀ b ∈ c.sendBuffer.data,
      c.sentDic.lookup b.off = some 0 → (b.off, false) ∈ c.sendBuffer.offsetRecv.entries))
  | .sendData _ _ out => inferInstanceAs (Decidable (1050 ≤ out.bytes.length ∨
      ∀ b ∈ (c.sendBuffer.data.drop c.sendBuffer.pos).take 1,
        c.sentDic.lookup b.off ≠ some 0 ∧ c.sentDic.lookup b.off ≠ some 1))
  | .recvSlice _ _ => inferInstanceAs (Decidable True)
  | .dataSend _ | .read _ | .write | .reset | .checkLoss _ | .newRtt _ | .setHandshake _ =>
      inferInstanceAs (Decidable False)

theorem inBudget_serverCall {c : Connection F} {a : Call} (may : InBudget c a) :
    ServerCall c a := by
  cases a <;> first | exact may.elim | trivial

theorem unspent_same {c c' : Connection F} (unspent : Unspent c)
    (stopFlag : c'.stopFlag = c.stopFlag) (sentDic : c'.sentDic = c.sentDic)
    (data : c'.sendBuffer.data = c.sendBuffer.data) (pos : c'.sendBuffer.pos = c.sendBuffer.pos) :
    Unspent c' := by
  unfold Unspent
  rw [stopFlag, sentDic, data, pos]
  exact unspent

theorem front_apart {text : Bytes} {c : Connection F} {b : RangeBuf} {rest : List RangeBuf}
    (stream : Stream text c) (front : c.sendBuffer.data.drop c.sendBuffer.pos = b :: rest) :
    ∀ d ∈ rest, d.off ≠ b.off := by
  have order : (c.sendBuffer.data.map (fun d => d.off)).Pairwise (· < ·) := by
    rw [← stream.lockstep]
    exact List.pairwise_map.mpr c.sendBuffer.offsetRecv.ascending
  have ahead := (List.pairwise_map.mp order).sublist (List.drop_sublist c.sendBuffer.pos _)
  rw [front] at ahead
  intro d mem
  have later := (List.pairwise_cons.mp ahead).1 d mem
  omega

section Exact
variable [Profile] [FloatOps F]

theorem application_unspent {text : Bytes} {c : Connection F} {now : Nat} {order : IterOrder}
    {out : Slice} {s : Sent F} (unspent : Unspent c) (running : c.stopFlag = false)
    (stream : Stream text c) (may : InBudget c (.sendData now order out))
    (served : Served c out.bytes s) : Unspent s.conn := by
  obtain ⟨ahead, around⟩ := unspent running
  cases served with
  | nothing beyond result conn =>
    intro _
    obtain ⟨pos, frame⟩ := SendBuf.settle_frame c.sendBuffer (out.bytes.length - 26)
    rw [conn, frame]
    exact ⟨fun b mem => around beyond b (List.mem_of_mem_drop mem), fun _ => around beyond⟩
  | @chunk b rest priority dic n content sendBuffer stop stamp front norm spent puts whole cramped
      conn buffer =>
    intro open_
    obtain ⟨len, used, pos, sent, frame⟩ := buffer
    have goes_on : stop = false := by
      rw [conn] at open_
      simpa [transmitted, running] using open_
    have under : b ∈ c.sendBuffer.data.drop c.sendBuffer.pos := by
      rw [front]
      simp
    have inside : c.sendBuffer.pos < c.sendBuffer.data.length :=
      List.length_lt_of_drop_ne_nil (by rw [front]; exact List.cons_ne_nil _ _)
    have dic_eq : s.conn.sentDic = dic := by rw [conn]; rfl
    have data_eq : s.conn.sendBuffer.data = c.sendBuffer.data := by rw [conn]; simp [transmitted, frame]
    have pos_eq : s.conn.sendBuffer.pos = sendBuffer.pos := by rw [conn]; rfl
    have others : ∀ d ∈ rest, dic.lookup d.off ≠ some 0 := by
      intro d mem
      have apart := front_apart stream front d mem
      rw [spendBudget_elsewhere spent apart]
      exact ahead d (by rw [front]; exact List.mem_cons_of_mem b mem)
    rw [dic_eq, data_eq, pos_eq]
    by_cases wide : 1050 ≤ out.bytes.length
    · obtain ⟨_, _, ended | ⟨next, midway⟩⟩ := whole wide
      · rw [ended] at goes_on
        cases goes_on
      · have behind : c.sendBuffer.data.drop (c.sendBuffer.pos + 1) = rest := by
          rw [← List.drop_drop, front]
          rfl
        rw [next, behind]
        exact ⟨others, fun beyond => by omega⟩
    · obtain ended | same := cramped (Nat.lt_of_not_le wide)
      · rw [ended] at goes_on
        cases goes_on
      · have two := (may.resolve_left wide) b (by rw [front]; simp)
        have again : priority.toNat ≠ 0 := by
          rcases priorityCalculation_range norm with rfl | rfl | rfl <;> decide
        have own := spendBudget_leaves spent again two
        rw [same, front]
        refine ⟨?_, fun beyond => by omega⟩
        intro d mem
        rcases List.mem_cons.mp mem with here | later
        · rw [here]
          exact own
        · exact others d later

variable [Octets]

theorem step_tight {text : Bytes} {sent : List Bytes} {c c' : Connection F} {a : Call} {o : Reply}
    (tight : Tight sent c) (tally : Tally sent c) (unspent : Unspent c) (stream : Stream text c)
    (orderly : Orderly c) (may : ServerCall c a) (taken : SenderStep c a o c') :
    Tight (sent ++ o.packet?.toList) c' := by
  intro off x p found norm'
  rw [(step_norms may taken).2] at norm'
  cases wire_step stream orderly may taken with
  | silent silent dic =>
    rw [dic] at found
    rw [transmissions_append, transmissions_other off silent]
    exact tight off x p found norm'
  | @chunk b rest priority pn n content running front norm spent packet =>
    have mem : b ∈ c.sendBuffer.data := List.mem_of_mem_drop (by rw [front]; simp)
    have budget : c.sentDic.lookup b.off ≠ some 0 := (unspent running).1 b (by rw [front]; simp)
    rw [transmissions_served sent stream mem packet]
    by_cases same : off = b.off
    · subst same
      rw [norm, Except.ok.injEq] at norm'
      subst norm'
      rw [if_pos rfl]
      rcases spendBudget_cases spent with ⟨absent, dic⟩ | ⟨y, had, dic⟩ | ⟨none_left, _⟩
      · rw [dic, AList.lookup_insert, Option.some.injEq] at found
        have first := tally.fresh _ absent
        omega
      · rw [dic, AList.lookup_insert, Option.some.injEq] at found
        have before := tight _ _ _ had norm
        omega
      · exact absurd none_left budget
    · rw [if_neg (Ne.symm same), Nat.add_zero]
      rw [spendBudget_elsewhere spent same] at found
      exact tight off x p found norm'

theorem sendAll_unspent {text : Bytes} {sent : List Bytes} {c c' : Connection F} {now : Nat}
    {r : Except Error Bool} (tally : Tally sent c) (stream : Stream text c)
    (may : InBudget c (.sendAll now)) (passed : SendAllCase c now (c', r)) : Unspent c' := by
  obtain ⟨kept, added, grown, standing, _⟩ := sendAll_grown stream passed
  have dic : c'.sentDic = c.sentDic := by
    cases passed with
    | drained _ _ => rfl
    | wrote _ _ => rfl
  have all : ∀ b ∈ c'.sendBuffer.data, c'.sentDic.lookup b.off ≠ some 0 := by
    intro b mem spent
    rw [dic] at spent
    rw [grown.queue] at mem
    rcases List.mem_append.mp mem with old | new
    · have retired := may b (grown.sub.subset old) spent
      have mark := OrdMap.mem_unique retired (standing b old)
      cases mark
    · have start := (tiles_mem grown.tiles (List.mem_map_of_mem (f := pieceOf) new)).1
      have below := tally.known b.off 0 spent
      dsimp only [pieceOf] at start
      omega
  exact fun _ => ⟨fun b mem => all b (List.mem_of_mem_drop mem), fun _ => all⟩

theorem step_unspent {text : Bytes} {sent : List Bytes} {c c' : Connection F} {a : Call}
    {o : Reply} (unspent : Unspent c) (tally : Tally sent c) (stream : Stream text c)
    (orderly : Orderly c) (may : InBudget c a) (taken : SenderStep c a o c') : Unspent c' := by
  cases taken with
  | kept same _ =>
    obtain ⟨marks, buffer⟩ := same.buffer
    exact unspent_same unspent same.stopFlag same.sentDic (by rw [buffer]) (by rw [buffer])
  | dataSend _ => exact may.elim
  | reset => exact may.elim
  | write _ => exact may.elim
  | sendAll passed => exact sendAll_unspent tally stream may passed
  | query due sent =>
    obtain ⟨_, _, _, conn, _⟩ := sendElictAck_frame sent
    rw [conn]
    exact unspent_same unspent rfl rfl rfl rfl
  | application quiet _ sent =>
    have running := running_of_quiet quiet
    exact application_unspent unspent running stream may
      (application_served stream (orderly_unasked orderly running) sent)

end Exact

section Runs
variable [Octets] [Profile] [FloatOps F]

structure Ledger (text : Bytes) (sent : List Bytes) (c : Connection F) : Prop where
  stream : Stream text c
  orderly : Orderly c
  tally : Tally sent c

theorem session_ledger {c0 : Connection F} (session : Session c0) :
    Ledger c0.sendDataVec [] c0 := by
  obtain ⟨unused, _⟩ := session_unused session
  refine ⟨session_stream session, ?_, ?_, ?_, ?_⟩
  · simp [Orderly, unused.unasked]
  · simp [unused.sentDic]
  · exact fun o _ => rfl
  · simp [unused.sentDic]

theorem step_ledger {text : Bytes} {sent : List Bytes} {c c' : Connection F} {a : Call} {o : Reply}
    (ledger : Ledger text sent c) (may : ServerCall c a) (taken : SenderStep c a o c') :
    Ledger text (sent ++ o.packet?.toList) c' := by
  obtain ⟨stream, orderly, tally⟩ := ledger
  obtain ⟨kept, added, grown⟩ := step_grown stream may taken
  exact ⟨grown.stream, step_orderly orderly taken, step_tally tally stream orderly may taken⟩

theorem run_ledger {c0 : Connection F} (session : Session c0) {trace : Trace F} {c : Connection F}
    (run : Run step ServerCall c0 trace c) : Ledger c0.sendDataVec (packets trace) c := by
  refine run_invariant (fun trace c => Ledger c0.sendDataVec (packets trace) c)
    (session_ledger session) ?_ run
  intro trace c a o c' _ ledger may taken
  rw [packets_snoc]
  exact step_ledger ledger may (sender_step taken)

/-- In budget, the counter of a transmitted offset is exactly what it has left. -/
theorem budget_exact_while_retired_in_time {c0 : Connection F} (session : Session c0)
    {trace : Trace F} {c : Connection F} (run : Run step InBudget c0 trace c) :
    (∀ o, 0 < transmissions o (packets trace) → ∃ p, c.priorityCalculation o = .ok p ∧
      transmissions o (packets trace) ≤ 1 + p.toNat ∧
      c.sentDic.lookup o = some (p.toNat - (transmissions o (packets trace) - 1))) ∧
    (c.writePktType.2 = .ok .application → ∀ b rest,
      c.sendBuffer.data.drop c.sendBuffer.pos = b :: rest → c.sentDic.lookup b.off ≠ some 0) := by
  have widened : ∀ {trace c}, Run step InBudget c0 trace c → Run step ServerCall c0 trace c :=
    fun run => run_widen (fun _ _ may => inBudget_serverCall may) run
  have exact_ : Tight (packets trace) c ∧ Unspent c := by
    refine run_invariant (fun trace c => Tight (packets trace) c ∧ Unspent c) ?_ ?_ run
    · obtain ⟨unused, _⟩ := session_unused session
      exact ⟨by simp [Tight, unused.sentDic], by simp [Unspent, unused.queue]⟩
    · intro trace c a o c' earlier before may taken
      obtain ⟨stream, orderly, tally⟩ := run_ledger session (widened earlier)
      rw [packets_snoc]
      exact ⟨step_tight before.1 tally before.2 stream orderly (inBudget_serverCall may)
          (sender_step taken),
        step_unspent before.2 tally stream orderly may (sender_step taken)⟩
  obtain ⟨tight, unspent⟩ := exact_
  have tally := (run_ledger session (widened run)).tally
  constructor
  · intro o sent
    cases found : c.sentDic.lookup o with
    | none =>
      have never := tally.fresh o found
      omega
    | some x =>
      obtain ⟨p, norm, _, cover⟩ := tally.left o x found
      have upper := tight o x p found norm
      exact ⟨p, norm, by omega, by rw [Option.some.injEq]; omega⟩
  · intro chosen b rest front
    have running := running_of_quiet (quiet_of_application chosen)
    exact (unspent running).1 b (by rw [front]; simp)

end Runs

def twoPasses : List Call :=
  [.sendAll 1, .recvSlice 5 (bareDatagram 2), .sendData 6 storedOrder outBuffer, .sendAll 7,
    .sendData 8 storedOrder outBuffer]

theorem second_pass_in_budget : ∃ (c0 : Connection ℚ) (trace : Trace ℚ) (c : Connection ℚ)
    (p : UInt8), @Session ℚ referenceOctets checkedBuild rationalFloats c0 ∧
      Run (@step ℚ referenceOctets checkedBuild rationalFloats) InBudget c0 trace c ∧
      trace.map (fun t => t.action) = twoPasses ∧
      @transmissions referenceOctets 0 (packets trace) = 2 ∧
      @Connection.priorityCalculation ℚ rationalFloats c 0 = .ok p ∧
      c.sentDic.lookup 0 = some (p.toNat - 1) := by
  have passed : @sessionPasses checkedBuild InBudget _ (onesText 255)
      twoPasses (fun trace _ => @transmissions referenceOctets 0 (packets trace) == 2) = true := by
    decide +kernel
  obtain ⟨c0, trace, c, session, run, played, outcome⟩ :=
    @session_played checkedBuild _ _ _ _ _ passed
  rw [beq_iff_eq] at outcome
  obtain ⟨counters, _⟩ := @budget_exact_while_retired_in_time ℚ referenceOctets checkedBuild
    rationalFloats c0 session trace c run
  obtain ⟨p, norm, _, left⟩ := counters 0 (by omega)
  rw [outcome] at left
  exact ⟨c0, trace, c, p, session, run, played, outcome, norm, left⟩

/-- Without acknowledgements the fifth pass transmits a chunk of priority 3 once more, and the
    counter of a release build wraps. -/
theorem fifth_transmission_wraps : ∃ (c0 : Connection ℚ) (trace : Trace ℚ) (c : Connection ℚ),
    @Session ℚ referenceOctets releaseBuild rationalFloats c0 ∧
      Run (@step ℚ referenceOctets releaseBuild rationalFloats) ServerCall c0 trace c ∧
      @Connection.priorityCalculation ℚ rationalFloats c 0 = .ok 3 ∧
      @transmissions referenceOctets 0 (packets trace) = 5 ∧
      c.sentDic.lookup 0 = some (2 ^ 64 - 1) := by
  have passed : @sessionPasses releaseBuild ServerCall _ (onesText 255)
      ([.sendAll 1, .recvSlice 5 (bareDatagram 2)] ++
        (List.replicate 5 [.sendAll 6, .sendData 7 storedOrder outBuffer]).flatten)
      (fun trace c => decide (@Connection.priorityCalculation ℚ rationalFloats c 0 = .ok 3) &&
        @transmissions referenceOctets 0 (packets trace) == 5 &&
        c.sentDic.lookup 0 == some (2 ^ 64 - 1)) = true := by decide +kernel
  obtain ⟨c0, trace, c, session, run, played, outcome⟩ :=
    @session_played releaseBuild _ _ _ _ _ passed
  simp only [Bool.and_eq_true, decide_eq_true_eq, beq_iff_eq] at outcome
  exact ⟨c0, trace, c, session, run, outcome.1.1, outcome.1.2, outcome.2⟩

end DmludpBudget
