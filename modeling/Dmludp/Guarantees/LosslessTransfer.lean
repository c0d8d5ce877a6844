import Dmludp.Foundation.EventOrder
import Dmludp.Guarantees.AckAnswers
import Dmludp.Guarantees.WireChunks
import Dmludp.Guarantees.TransferProgress

/- A transfer over a network that loses nothing that matters. A chunk that reaches the client before
   a query for it does is reported by the next ACK; if the ACKs of a pass come back within it, the
   pass is answered, and the transfer moves on by its window. -/
namespace DmludpLosslessTransfer
open ByteCursor RustOutcome TracedRun EventOrder StreamTiling LossyNetwork DmludpPacket
open DmludpRange DmludpSend DmludpRecovery
open DmludpConnection DmludpConnection.Connection DmludpCalls DmludpEffects DmludpReceiveEffects
open DmludpSenderSteps DmludpReceiverSteps DmludpAckAnswers DmludpSegmentation
open DmludpPacketIntegrity DmludpNoSilentDrop DmludpWireChunks DmludpPassOrder
open DmludpTransferProgress DmludpReference

variable {F : Type}

theorem ackPayload_reports {c : Connection F} {order : IterOrder} {w : UInt64}
    (waits : c.recvHashmap.lookup w = some 0) :
    ReportsReceived (c.ackHeader.encoded ++ ackPayload c order) w.toNat := by
  have sendable : c.ackHeader.ty ≠ .startAck := by simp [ackHeader]
  have listed : (w, 0) ∈ c.pendingPairs order := by
    apply (order.perm _).mem_iff.mpr
    exact List.mem_map.mpr ⟨⟨w, 0⟩, AList.mem_lookup_iff.mp waits, rfl⟩
  refine ⟨?_, ?_, UInt64.ofNat c.maxAck, c.pendingPairs order, ?_, (w, 0), listed, rfl, rfl⟩
  · rw [List.length_append, encoded_length]
    omega
  · rw [decode_encoded sendable]
    rfl
  · rw [List.drop_left' (encoded_length _)]
    rfl

section Client
variable [Octets]

/-- The chunk at `w` arrives, then a query for it, then an ACK goes out. -/
def exchangeEvents (w : UInt64) : List (Transition (Connection F) Call Reply → Prop) :=
  [fun t => dataOf? t = some w, fun t => w ∈ named t, fun t => (ackOf? t).isSome = true]

def Acked (w : UInt64) (trace : Trace F) : Prop :=
  ∃ t ∈ trace, ∃ m, t.reply.packet? = some m ∧ (ackOf? t).isSome = true ∧
    ReportsReceived m w.toNat

theorem acked_grows {w : UInt64} {trace : Trace F} (known : Acked w trace) (more : Trace F) :
    Acked w (trace ++ more) := by
  obtain ⟨t, mem, report⟩ := known
  exact ⟨t, List.mem_append_left more mem, report⟩

/-- How far the exchange about `w` has got. -/
structure Exchanged (w : UInt64) (trace : Trace F) (c : Connection F) : Prop where
  stored : Happened ((exchangeEvents w).take 1) trace → w ∈ c.recvDic
  pending : Happened ((exchangeEvents w).take 2) trace →
    c.recvHashmap.lookup w = some 0 ∨ Acked w trace
  acked : Happened (exchangeEvents w) trace → Acked w trace

theorem exchanged_snoc {w : UInt64} {trace : Trace F} {c c' : Connection F} {a : Call} {o : Reply}
    (before : Exchanged w trace c) (stored : w ∈ c.recvDic ∨
      dataOf? (⟨c, a, o, c'⟩ : Transition _ _ _) = some w → w ∈ c'.recvDic)
    (pending : w ∈ c.recvDic → c.recvHashmap.lookup w = some 0 ∨
      w ∈ named (⟨c, a, o, c'⟩ : Transition _ _ _) → c'.recvHashmap.lookup w = some 0)
    (silent : ackOf? (⟨c, a, o, c'⟩ : Transition _ _ _) = none) :
    Exchanged w (trace ++ [⟨c, a, o, c'⟩]) c' := by
  refine ⟨?_, ?_, ?_⟩
  · intro heard
    rcases (happened_snoc_iff []).mp heard with old | ⟨_, new⟩
    · exact stored (Or.inl (before.stored old))
    · exact stored (Or.inr new)
  · intro heard
    rcases (happened_snoc_iff ((exchangeEvents w).take 1)).mp heard with old | ⟨data, new⟩
    · have known := before.stored (happened_init ((exchangeEvents w).take 1) old)
      rcases before.pending old with waits | acked
      · exact Or.inl (pending known (Or.inl waits))
      · exact Or.inr (acked_grows acked _)
    · exact Or.inl (pending (before.stored data) (Or.inr new))
  · intro heard
    rcases (happened_snoc_iff ((exchangeEvents w).take 2)).mp heard with old | ⟨_, new⟩
    · exact acked_grows (before.acked old) _
    · rw [silent] at new
      cases new

theorem exchanged_ack {w : UInt64} {trace : Trace F} {c c' : Connection F} {a : Call} {o : Reply}
    (before : Exchanged w trace c) (recvDic : c'.recvDic = c.recvDic)
    (noData : dataOf? (⟨c, a, o, c'⟩ : Transition _ _ _) = none)
    (noQuery : named (⟨c, a, o, c'⟩ : Transition _ _ _) = [])
    (reports : c.recvHashmap.lookup w = some 0 → Acked w [⟨c, a, o, c'⟩]) :
    Exchanged w (trace ++ [⟨c, a, o, c'⟩]) c' := by
  have answered : Happened ((exchangeEvents w).take 2) trace →
      Acked w (trace ++ [⟨c, a, o, c'⟩]) := by
    intro heard
    rcases before.pending heard with waits | acked
    · obtain ⟨t, mem, report⟩ := reports waits
      exact ⟨t, List.mem_append_right trace mem, report⟩
    · exact acked_grows acked _
  refine ⟨?_, ?_, ?_⟩
  · intro heard
    rw [recvDic]
    rcases (happened_snoc_iff []).mp heard with old | ⟨_, new⟩
    · exact before.stored old
    · rw [noData] at new
      cases new
  · intro heard
    rcases (happened_snoc_iff ((exchangeEvents w).take 1)).mp heard with old | ⟨_, new⟩
    · exact Or.inr (answered old)
    · rw [noQuery] at new
      cases new
  · intro heard
    rcases (happened_snoc_iff ((exchangeEvents w).take 2)).mp heard with old | ⟨asked, _⟩
    · exact acked_grows (before.acked old) _
    · exact answered asked

theorem contentless_events {c c' : Connection F} {a : Call} {o : Reply} (bare : Contentless a) :
    dataOf? (⟨c, a, o, c'⟩ : Transition _ _ _) = none ∧
      named (⟨c, a, o, c'⟩ : Transition _ _ _) = [] := by
  cases a with
  | recvSlice now buf =>
    obtain ⟨noData, noQuery⟩ := bare now buf rfl
    simp [dataOf?, named, queryOf?, noData, noQuery]
  | _ => exact ⟨rfl, rfl⟩

theorem unacking_event {c c' : Connection F} {a : Call} {o : Reply} (silent : Unacking o) :
    ackOf? (⟨c, a, o, c'⟩ : Transition _ _ _) = none := by
  unfold ackOf?
  dsimp only
  split
  · rename_i m found
    exact silent m found
  · rfl

theorem transmissions_eq_count (o : Nat) (ms : List Bytes) :
    transmissions o ms = (offsetsSent ms).count o := by
  induction ms with
  | nil => rfl
  | cons m ms ih =>
    have first : transmissions o [m] = (offsetsSent [m]).count o := by
      cases kind : headerOf? .application m with
      | none => simp [transmissions, isApplicationAt, offsetsSent, kind]
      | some h =>
        simp only [transmissions, isApplicationAt, offsetsSent, kind, List.countP_cons,
          List.countP_nil, List.filterMap_cons, List.filterMap_nil, List.map_cons, List.map_nil,
          List.count_cons, List.count_nil]
    have split : m :: ms = [m] ++ ms := rfl
    rw [split, DmludpBudget.transmissions_append, offsetsSent_append, List.count_append, first, ih]

variable [Profile]

theorem step_exchanged {w : UInt64} {trace : Trace F} {c c' : Connection F} {a : Call} {o : Reply}
    (before : Exchanged w trace c) (taken : ReceiverStep c a o c') :
    Exchanged w (trace ++ [⟨c, a, o, c'⟩]) c' := by
  cases taken with
  | kept same silent bare =>
    obtain ⟨noData, noQuery⟩ := contentless_events (c := c) (o := o) bare
    refine exchanged_snoc before ?_ ?_ (unacking_event silent)
    · rw [noData, same.recvDic]
      simp
    · rw [noQuery, same.recvHashmap]
      simp
  | stored complete kind written buffer noted pending =>
    refine exchanged_snoc before ?_ ?_ (ackOf?_none rfl)
    · rintro (old | new)
      · rw [noted, AList.mem_insert]
        exact Or.inr old
      · simp only [dataOf?, headerOf?_complete complete, kind, ↓reduceIte, Option.map_some,
          Option.some.injEq] at new
        rw [noted, AList.mem_insert, new]
        exact Or.inl rfl
    · rw [pending]
      simp [named, queryOf?, headerOf?_complete complete, kind]
  | queried complete kind listed buffer noted pending =>
    refine exchanged_snoc before ?_ ?_ (ackOf?_none rfl)
    · rw [noted]
      simp [dataOf?, headerOf?_complete complete, kind]
    · intro known waits
      rw [pending, lookup_answerAll]
      split
      · simp [answer, known]
      · rename_i unnamed
        rcases waits with waits | new
        · exact waits
        · simp [named, queryOf?, headerOf?_complete complete, kind, listed, readOffsets_words] at new
          exact absurd new unnamed
  | checked listed =>
    refine exchanged_snoc before ?_ ?_ (ackOf?_none rfl)
    · simp [dataOf?]
    · intro known waits
      rw [lookup_answerAll]
      split
      · simp [answer, known]
      · exact waits.resolve_right (by simp [named, queryOf?])
  | answered asked sent buffer noted pending =>
    refine exchanged_ack before noted rfl rfl ?_
    intro waits
    refine ⟨_, List.mem_singleton_self _, _, (packet?_sendData _ _).trans sent, ?_,
      ackPayload_reports waits⟩
    unfold ackOf?
    simp only [packet?_sendData, sent]
    rw [headerOf?_encoded (by simp [ackHeader])]
    rfl
  | read _ =>
    refine exchanged_snoc before ?_ ?_ (ackOf?_none rfl)
    · simp [dataOf?]
    · simp [named, queryOf?]

end Client

section System
variable [Octets] [FloatOps F]

/-- An offset that is transmitted at most once is only given up when the client has it. -/
theorem settled_processed {server : Connection F} {history : SystemTrace F} {o : Nat}
    (once : (offsetsSent (packets (leftTrace history))).Nodup)
    (settled : Settled server history o) : Processed (rightTrace history) o := by
  rcases settled with known | ⟨p, norm, spent⟩
  · exact known
  · exfalso
    rw [transmissions_eq_count] at spent
    have single := List.nodup_iff_count_le_one.mp once o
    rcases priorityCalculation_range norm with rfl | rfl | rfl <;> simp at spent <;> omega

variable [Profile]

theorem run_exchanged {start j : System F} {trace : SystemTrace F} (w : UInt64)
    (run : Run (jointStep step Reply.packet?) Delivered start trace j) :
    ∀ pre seg, trace = pre ++ seg → Exchanged w (rightTrace seg) j.right := by
  have nothing : ∀ {c : Connection F}, Exchanged w [] c := by
    intro c
    have none_yet : ∀ {es : List (Transition (Connection F) Call Reply → Prop)} {event},
        ¬ Happened (event :: es) [] := by
      rintro es event ⟨ts, within, events⟩
      rw [List.sublist_nil.mp within] at events
      cases events
    exact ⟨fun heard => (none_yet heard).elim, fun heard => (none_yet heard).elim,
      fun heard => (none_yet heard).elim⟩
  induction run with
  | start =>
    intro pre seg split
    obtain ⟨rfl, rfl⟩ := List.append_eq_nil_iff.mp split.symm
    exact nothing
  | @step trace j j' e o earlier may taken ih =>
    intro pre seg split
    rcases List.eq_nil_or_concat seg with rfl | ⟨seg, t, rfl⟩
    · exact nothing
    · rw [List.concat_eq_append, ← List.append_assoc] at split
      obtain ⟨same, last⟩ := List.append_inj' split rfl
      have before := ih pre seg same
      rw [List.concat_eq_append, ← List.singleton_inj.mp last]
      cases joint_cases taken with
      | left own =>
        rw [rightTrace_snoc_left]
        exact before
      | right own =>
        rw [rightTrace_snoc_right]
        exact step_exchanged before (receiver_step own)

/-- What a pass needs of the network: each chunk it transmits arrives before a query for it and an
    ACK after that, and every ACK comes back. -/
structure Lossless (seg : SystemTrace F) : Prop where
  asked : ∀ o ∈ offsetsSent (packets (leftTrace seg)), ∃ w : UInt64, w.toNat = o ∧
    Happened (exchangeEvents w) (rightTrace seg)
  returned : ∀ t ∈ rightTrace seg, (ackOf? t).isSome = true → ∀ m, t.reply.packet? = some m →
    ∃ u ∈ leftTrace seg, ∃ now buf, u.action = .recvSlice now buf ∧ buf.bytes = m

theorem lossless_reported {start j : System F} {pre seg : SystemTrace F}
    (run : Run (jointStep step Reply.packet?) Delivered start (pre ++ seg) j)
    (lossless : Lossless seg) :
    ∀ o ∈ offsetsSent (packets (leftTrace seg)), Reported o (leftTrace seg) := by
  intro o sent
  obtain ⟨w, rfl, happened⟩ := lossless.asked o sent
  obtain ⟨t, mem, m, packet, ack, report⟩ := (run_exchanged w run pre seg rfl).acked happened
  obtain ⟨u, mem', now, buf, call, same⟩ := lossless.returned t mem ack m packet
  exact ⟨u, mem', now, buf, call, by rw [same]; exact report⟩

/-- A run of both parties made of an opening without data packets and of passes of the server, each
    run to its end over a network that loses nothing that matters; with the windows of the passes. -/
inductive LosslessPasses (start : System F) : List Nat → SystemTrace F → System F → Prop where
  | opening {trace : SystemTrace F} {j : System F}
      (run : Run (jointStep step Reply.packet?) Delivered start trace j)
      (front : j.left.sendBuffer.pos = 0) (quiet : offsetsSent (packets (leftTrace trace)) = []) :
      LosslessPasses start [] trace j
  | pass {ws : List Nat} {trace seg : SystemTrace F} {j j' : System F}
      {t : Transition (System F) (Turn Call) Reply} {now : Nat}
      (earlier : LosslessPasses start ws trace j)
      (run : Run (jointStep step Reply.packet?) Delivered start (trace ++ t :: seg) j')
      (begins : t.action = .left (.sendAll now))
      (same_pass : ∀ u ∈ leftTrace seg, ∀ now, u.action ≠ .sendAll now)
      (ended : j'.left.stopFlag = true) (lossless : Lossless seg) :
      LosslessPasses start (ws ++ [t.after.left.sendBuffer.maxData]) (trace ++ t :: seg) j'

theorem lossless_run {start : System F} {ws : List Nat} {trace : SystemTrace F} {j : System F}
    (passes : LosslessPasses start ws trace j) :
    Run (jointStep step Reply.packet?) Delivered start trace j := by
  cases passes with
  | opening run _ _ => exact run
  | pass _ run _ _ _ _ => exact run

theorem pass_reported {start : System F} {trace seg : SystemTrace F} {j : System F}
    {t : Transition (System F) (Turn Call) Reply}
    (run : Run (jointStep step Reply.packet?) Delivered start (trace ++ t :: seg) j)
    (lossless : Lossless seg) :
    ∀ o ∈ offsetsSent (packets (leftTrace seg)), Reported o (leftTrace seg) := by
  have run' : Run (jointStep step Reply.packet?) Delivered start ((trace ++ [t]) ++ seg) j := by
    rw [List.append_assoc]
    exact run
  exact lossless_reported run' lossless

theorem lossless_answered {start : System F} {ws : List Nat} {trace : SystemTrace F} {j : System F}
    (passes : LosslessPasses start ws trace j) :
    AnsweredPasses start.left ws (leftTrace trace) j.left := by
  induction passes with
  | opening run front _ => exact .opening (left_run delivered_roomy run) front
  | @pass ws trace seg j j' t now earlier run begins same_pass ended lossless ih =>
    have own := left_run delivered_roomy run
    rw [leftTrace_split_left begins] at own ⊢
    exact .pass ih own rfl same_pass ended (pass_reported run lossless)

theorem lossless_once {start : System F} (session : Session start.left) {ws : List Nat}
    {trace : SystemTrace F} {j : System F} (passes : LosslessPasses start ws trace j) :
    Spent (offsetsSent (packets (leftTrace trace))) j.left ∧
      (offsetsSent (packets (leftTrace trace))).Nodup := by
  induction passes with
  | opening _ _ quiet =>
    rw [quiet]
    exact ⟨nofun, List.nodup_nil⟩
  | @pass ws trace seg j j' t now earlier run begins same_pass ended lossless ih =>
    obtain ⟨spent, once⟩ := ih
    have own := left_run delivered_roomy run
    rw [leftTrace_split_left begins] at own ⊢
    have answered := pass_reported run lossless
    have here : t.before.left = j.left := congrArg Joint.left
      ((run_end (run_split run).1).trans (run_end (lossless_run earlier)).symm)
    have front := answered_front session (lossless_answered earlier)
    rw [← here] at spent front
    obtain ⟨spent', apart⟩ := pass_spent session own rfl front same_pass answered spent
    refine ⟨spent', ?_⟩
    obtain ⟨k, stands, sent⟩ := run_inPass session own _ _ _ now rfl rfl front same_pass
    have ascending := inPass_ascending (run_numbered session own).stream stands
    rw [sent] at ascending
    rw [packets_sendAll rfl (run_split own).2.2, offsetsSent_append, List.nodup_append]
    refine ⟨once, ascending.imp (fun less => Nat.ne_of_lt less), ?_⟩
    rintro o old _ new rfl
    exact apart o new old

theorem nothing_outstanding {start j : System F} (fresh : Start start) {trace : SystemTrace F}
    (run : Run (jointStep step Reply.packet?) Delivered start trace j)
    (once : (offsetsSent (packets (leftTrace trace))).Nodup)
    (nothing : outstanding start.left.sendDataVec j.left = 0) {i : Nat}
    (inside : i < start.left.sendDataVec.length) : ∃ b ∈ appended (leftTrace trace),
      b.off ≤ i ∧ i < b.off + b.data.length ∧ Processed (rightTrace trace) b.off := by
  have accounted := run_accounted fresh run
  have segmented := run_segmented (start_session fresh) (left_run delivered_serverCall run)
  unfold outstanding at nothing
  obtain ⟨p, piece, low, high⟩ := tiles_cover segmented.tiles (Nat.zero_le i) (by omega)
  obtain ⟨b, mem, rfl⟩ := List.mem_map.mp piece
  refine ⟨b, mem, low, high, @settled_processed _ _ _ start.left _ _ once ?_⟩
  rcases accounted.queue b mem with waiting | settled
  · apply accounted.marks
    by_contra stands
    have kept : b ∈ standing j.left.sendBuffer :=
      List.mem_filter.mpr ⟨waiting, decide_eq_true stands⟩
    have filled := (segmented.stream.queued b waiting).1.filled
    have counted := total_sublist (List.singleton_sublist.mpr kept)
    simp only [SendBuf.total, List.map_cons, List.map_nil, List.sum_singleton] at counted nothing
    omega
  · exact settled

/-- Over a network that loses nothing that matters, the transfer moves on by at least its window
    in every pass; once the windows cover the data, the next `send_all` ends the transfer. -/
theorem lossless_passes_transfer {start : System F} (fresh : Start start) {ws : List Nat}
    {trace : SystemTrace F} {j : System F} (passes : LosslessPasses start ws trace j) :
    outstanding start.left.sendDataVec j.left ≤ start.left.sendDataVec.length - ws.sum ∧
    (offsetsSent (packets (leftTrace trace))).Nodup ∧
    (start.left.sendDataVec.length ≤ ws.sum →
      (∀ i, i < start.left.sendDataVec.length → ∃ b ∈ appended (leftTrace trace),
        b.off ≤ i ∧ i < b.off + b.data.length ∧ Processed (rightTrace trace) b.off) ∧
      ∀ u rest j' now, Run (jointStep step Reply.packet?) Delivered start (trace ++ u :: rest) j' →
        u.action = .left (.sendAll now) → u.after.left.sendBuffer.data = [] ∧
          offsetsSent (packets (leftTrace rest)) = []) := by
  have session := start_session fresh
  have answered := lossless_answered passes
  have progress := answered_progress session answered
  obtain ⟨_, once⟩ := lossless_once session passes
  refine ⟨progress, once, fun enough => ⟨?_, ?_⟩⟩
  · intro i inside
    exact nothing_outstanding fresh (lossless_run passes) once (by omega) inside
  · intro u rest j' now run begins
    have own := left_run delivered_roomy run
    rw [leftTrace_split_left begins] at own
    exact answered_over session answered enough own rfl

end System

def hears (m : Bytes) : Call → Bool
  | .recvSlice _ buf => buf.bytes == m
  | _ => false

section Check
variable [Octets]

def checksLossless (offs : List UInt64) (seg : SystemTrace F) : Bool :=
  offsetsSent (packets (leftTrace seg)) == offs.map UInt64.toNat &&
    offs.all (fun w => found [fun t => dataOf? t == some w, fun t => decide (w ∈ named t),
      fun t => (ackOf? t).isSome] (rightTrace seg)) &&
    (rightTrace seg).all (fun t => !(ackOf? t).isSome || t.reply.packet?.all (fun m =>
      (leftTrace seg).any (fun u => hears m u.action)))

theorem checksLossless_sound {offs : List UInt64} {seg : SystemTrace F}
    (checked : checksLossless offs seg = true) : Lossless seg := by
  simp only [checksLossless, Bool.and_eq_true, beq_iff_eq, List.all_eq_true] at checked
  obtain ⟨⟨sent, events⟩, acks⟩ := checked
  refine ⟨?_, ?_⟩
  · rw [sent]
    intro o mem
    obtain ⟨w, listed, same⟩ := List.mem_map.mp mem
    refine ⟨w, same, found_sound ?_ (events w listed)⟩
    exact .cons (fun _ yes => beq_iff_eq.mp yes) (.cons (fun _ yes => of_decide_eq_true yes)
      (.cons (fun _ yes => yes) .nil))
  · intro t mem ack m packet
    have heard := acks t mem
    simp only [ack, packet, Bool.not_true, Bool.false_or, Option.all_some, List.any_eq_true] at heard
    obtain ⟨u, mem', call⟩ := heard
    unfold hears at call
    split at call
    · rename_i now buf action
      exact ⟨u, mem', now, buf, action, beq_iff_eq.mp call⟩
    · cases call

end Check

section Extend
variable [Octets] [FloatOps F] [Profile]

theorem lossless_extends {start : System F} {ws : List Nat} {trace seg : SystemTrace F}
    {j j' : System F} (earlier : LosslessPasses start ws trace j)
    (run : Run (jointStep step Reply.packet?) Delivered j seg j') {now w : Nat}
    {rest : List (Turn Call)}
    (turns : seg.map (fun t => t.action) = .left (.sendAll now) :: rest)
    (same_pass : ∀ e ∈ rest, ∀ now, e ≠ .left (.sendAll now)) (ended : j'.left.stopFlag = true)
    (window : seg.head?.map (fun t => t.after.left.sendBuffer.maxData) = some w)
    (lossless : Lossless seg.tail) : LosslessPasses start (ws ++ [w]) (trace ++ seg) j' := by
  cases seg with
  | nil => cases turns
  | cons t seg =>
    obtain ⟨begins, later⟩ := List.cons.inj turns
    rw [List.head?_cons, Option.map_some, Option.some.injEq] at window
    rw [List.tail_cons] at lossless
    rw [← window]
    refine .pass earlier (run_append (lossless_run earlier) run) begins ?_ ended lossless
    intro u mem now' call
    obtain ⟨v, there, same⟩ := List.mem_filterMap.mp mem
    refine same_pass v.action (later ▸ List.mem_map_of_mem there) now' ?_
    unfold leftOf at same
    split at same
    · rename_i a action
      cases same
      rw [action]
      exact congrArg Turn.left call
    · cases same

end Extend

theorem onesBytes_length (n : Nat) : (onesBytes n).length = 4 * n := by
  induction n with
  | zero => rfl
  | succ n ih =>
    rw [onesBytes, List.replicate_succ, List.flatten_cons, List.length_append, ← onesBytes, ih]
    simp only [List.length_cons, List.length_nil]
    omega

def blockPacket (i : Nat) : Slice :=
  datagram (applicationHeader i (if i = 0 then 1 else 3) (1024 * i) 1024) (onesBytes 256)
    (by rw [onesBytes_length]; omega)

def partPacket (pn off n : Nat) (few : n ≤ 256) : Slice :=
  datagram (applicationHeader pn 3 off (4 * n)) (onesBytes n) (by
    rw [onesBytes_length]
    omega)

def queryPacket (pn : Nat) (ws : List UInt64) (few : ws.length ≤ 8) : Slice :=
  datagram (elictHeader pn (8 * ws.length)) (ws.flatMap u64Bytes) (by
    rw [words_length]
    omega)

def answerPacket (pn : Nat) (head : UInt64) (ws : List UInt64) (few : ws.length ≤ 82) : Slice :=
  datagram (Header.mk .ack (UInt64.ofNat pn) 0 0 (UInt64.ofNat (16 * ws.length + 8)))
    (u64Bytes head ++ (ws.map (fun w => (w, 0))).flatMap pairBytes) (by
      rw [List.length_append, pairs_length, List.length_map, u64Bytes_length]
      omega)

def blockWords : List UInt64 := [0, 1024, 2048, 3072, 4096, 5120, 6144, 7168, 8192, 9216]

def firstExchange : List (Turn Call) :=
  oneChunkExchange.take 5 ++ List.replicate 12 (.left (.sendData 6 storedOrder outBuffer)) ++
    (List.range 9).map (fun i => .right (.recvSlice 8 (blockPacket i))) ++
    [.right (.recvSlice 8 (partPacket 9 9216 96 (by decide))),
      .right (.recvSlice 9 (queryPacket 0 (blockWords.take 8) (by decide))),
      .right (.recvSlice 9 (queryPacket 1 (blockWords.drop 8) (by decide))),
      .right (.sendData 10 storedOrder outBuffer),
      .left (.recvSlice 11 (answerPacket 1 9216 blockWords.reverse (by decide)))]

theorem firstExchange_one_pass : ∀ e ∈ firstExchange.tail, ∀ now, e ≠ .left (.sendAll now) := by
  intro e mem now same
  subst same
  simp [firstExchange, oneChunkExchange] at mem

def secondExchange : List (Turn Call) :=
  [.left (.sendAll 12), .left (.sendData 13 storedOrder outBuffer),
    .left (.sendData 14 storedOrder outBuffer),
    .right (.recvSlice 15 (partPacket 10 9600 160 (by decide))),
    .right (.recvSlice 16 (queryPacket 2 [9600] (by decide))),
    .right (.sendData 17 storedOrder outBuffer),
    .left (.recvSlice 18 (answerPacket 2 9600 [9600] (by decide)))]

theorem two_passes_transferred : ∃ (start j j' : System ℚ) (first second : SystemTrace ℚ)
    (u : Transition (System ℚ) (Turn Call) Reply), @Start ℚ rationalFloats checkedBuild start ∧
      Run (jointStep (@step ℚ referenceOctets checkedBuild rationalFloats) Reply.packet?) Delivered
        start (first ++ second ++ [u]) j' ∧
      @LosslessPasses ℚ referenceOctets rationalFloats checkedBuild start [9600, 19200]
        (first ++ second) j ∧
      (first ++ second ++ [u]).map (fun t => t.action) = firstExchange ++ secondExchange ++
        [.left (.sendAll 19)] ∧
      start.left.sendDataVec.length = 10240 ∧
      (@offsetsSent referenceOctets (packets (leftTrace (first ++ second)))).Nodup ∧
      (∀ i, i < 10240 → ∃ b ∈ appended (leftTrace (first ++ second)), b.off ≤ i ∧
        i < b.off + b.data.length ∧
        @Processed ℚ referenceOctets (rightTrace (first ++ second)) b.off) ∧
      u.after.left.sendBuffer.data = [] := by
  have passed : exchangePasses (onesText 2560) firstExchange (fun c first j =>
      c.sendDataVec.length == 10240 && c.sendBuffer.pos == 0 && j.left.stopFlag &&
        first.head?.map (fun t => t.after.left.sendBuffer.maxData) == some 9600 &&
        @checksLossless ℚ referenceOctets blockWords first.tail &&
        passes (jointStep (@step ℚ referenceOctets checkedBuild rationalFloats) Reply.packet?)
          Delivered j secondExchange (fun second j => j.left.stopFlag &&
            second.head?.map (fun t => t.after.left.sendBuffer.maxData) == some 19200 &&
            @checksLossless ℚ referenceOctets [9600] second.tail &&
            passes (jointStep (@step ℚ referenceOctets checkedBuild rationalFloats) Reply.packet?)
              Delivered j [.left (.sendAll 19)] (fun _ _ => true))) = true := by
    decide +kernel
  obtain ⟨start, j1, first, fresh, run, played, outcome⟩ := exchange_played passed
  simp only [Bool.and_eq_true, beq_iff_eq] at outcome
  obtain ⟨⟨⟨⟨⟨size, front⟩, ended⟩, window⟩, checked⟩, outcome⟩ := outcome
  obtain ⟨second, j2, run', played', outcome⟩ := played_run outcome
  simp only [Bool.and_eq_true, beq_iff_eq] at outcome
  obtain ⟨⟨⟨ended', window'⟩, checked'⟩, outcome⟩ := outcome
  obtain ⟨last, j3, run'', played'', _⟩ := played_run outcome
  have opening := @LosslessPasses.opening ℚ referenceOctets rationalFloats checkedBuild start [] start
    .start front rfl
  have one := @lossless_extends ℚ referenceOctets rationalFloats checkedBuild start [] [] first start
    j1 opening run 1 9600 firstExchange.tail played firstExchange_one_pass ended window
    (@checksLossless_sound ℚ referenceOctets blockWords first.tail checked)
  have two := @lossless_extends ℚ referenceOctets rationalFloats checkedBuild start [9600] first second
    j1 j2 one run' 12 19200 secondExchange.tail played' (by simp [secondExchange]) ended' window'
    (@checksLossless_sound ℚ referenceOctets [9600] second.tail checked')
  obtain ⟨_, once, complete⟩ := @lossless_passes_transfer ℚ referenceOctets rationalFloats
    checkedBuild start fresh _ _ _ two
  rw [size] at complete
  obtain ⟨covered, finish⟩ := complete (by decide)
  obtain ⟨u, rfl⟩ : ∃ u, last = [u] := List.length_eq_one_iff.mp (by
    rw [← List.length_map (f := fun t => t.action), played'']
    rfl)
  have whole := run_append (run_append run run') run''
  refine ⟨start, j2, j3, first, second, u, fresh, whole, two, ?_, size, once, covered, ?_⟩
  · rw [List.map_append, List.map_append, played, played', played'']
  · exact (finish u [] j3 19 whole (List.cons.inj played'').1).1

end DmludpLosslessTransfer
