import Dmludp.Endpoint.ReceiveEffects
import Dmludp.Endpoint.ReferenceInstance

/- Which datagrams an endpoint can digest. The header parser refuses what is too short; the
   four payload handlers behind it index and unwrap instead, so for them the exact condition
   is on the payload the peer chose and on the block norms and window sums of the receiver. -/
namespace DmludpDatagramSafety
open ByteCursor RustOutcome DmludpPacket DmludpRange DmludpRecv DmludpRecovery
open DmludpConnection DmludpConnection.Connection DmludpCalls DmludpReceiveEffects
open DmludpReference TracedRun

variable {F : Type}

section Condition
variable [Profile] [FloatOps F]

def WindowFits (r : Recovery) (weights : F) : Prop :=
  Profile.overflowChecks = true →
    if FloatOps.lt (FloatOps.lit64 0 1) (r.winadd weights) then
      r.increWin + FloatOps.toUsize (r.winadd weights) < wordSize
    else r.decreWin + FloatOps.toUsize (FloatOps.neg64 (r.winadd weights)) < wordSize

def ackWeights (c : Connection F) (ps : List (UInt64 × UInt64)) : F :=
  ps.foldl (lossWeight c) (FloatOps.lit32 0 1)

def AckDigestible (c : Connection F) (payload : Bytes) : Prop :=
  ∃ (head : UInt64) (ps : List (UInt64 × UInt64)),
    payload = u64Bytes head ++ ps.flatMap pairBytes ∧ Covered c ps ∧
      WindowFits c.recovery (ackWeights c ps)

def EndFits (buf : Bytes) : Prop :=
  (decodeHeader buf).offset.toNat + (buf.drop 26).length < wordSize

/-- What the payload handlers need of a datagram with a complete header. -/
structure Digestible (c : Connection F) (buf : Bytes) : Prop where
  ack : (decodeHeader buf).ty = .ack → c.isServer = true → AckDigestible c (buf.drop 26)
  elictAck : (decodeHeader buf).ty = .elictAck → (buf.drop 26).length % 8 = 0
  application : (decodeHeader buf).ty = .application → EndFits buf

/-- The call returns, and the end offset of a stored chunk does not overflow. -/
def Survives [Octets] (c : Connection F) (now : Nat) (buf : Bytes) : Prop :=
  (∃ r, c.recvSlice now buf = .ok r) ∧
    (26 ≤ buf.length → (decodeHeader buf).ty = .application → EndFits buf)

end Condition

section Words
variable [Profile] [FloatOps F]

theorem updateWin_ok_iff (r : Recovery) (weights num : F) :
    (∃ r', r.updateWin weights num = .ok r') ↔ WindowFits r weights := by
  have sums : (if FloatOps.ne (r.winadd weights) num = true then
      { r with rollBackFlag := true } else r).increWin = r.increWin ∧
      (if FloatOps.ne (r.winadd weights) num = true then
      { r with rollBackFlag := true } else r).decreWin = r.decreWin := by
    split <;> exact ⟨rfl, rfl⟩
  unfold Recovery.updateWin WindowFits
  dsimp only
  split
  · rw [← addWord_ok_iff, sums.1]
    cases addWord r.increWin (FloatOps.toUsize (r.winadd weights)) with
    | error e => simp [bind, Except.bind]
    | ok n => simp [bind, Except.bind, pure, Except.pure]
  · rw [← addWord_ok_iff, sums.2]
    cases addWord r.decreWin (FloatOps.toUsize (FloatOps.neg64 (r.winadd weights))) with
    | error e => simp [bind, Except.bind]
    | ok n => simp [bind, Except.bind, pure, Except.pure]

end Words

section Handlers

theorem checkLoss_ok_iff [Octets] (c : Connection F) (payload : Bytes) :
    (∃ c', c.checkLoss payload = .ok c') ↔ payload.length % 8 = 0 := by
  obtain ⟨ws, tail, layout, short⟩ := words_and_tail payload
  have width : payload.length = 8 * ws.length + tail.length := by
    rw [layout, List.length_append, words_length]
  rw [checkLoss_words c layout short]
  by_cases whole : tail = []
  · simp [width, whole]
  · have positive : 0 < tail.length := List.length_pos_iff.mpr whole
    rw [if_neg whole]
    constructor
    · intro found
      obtain ⟨c', impossible⟩ := found
      simp at impossible
    · intro even
      omega

variable [Profile]

theorem store_ok_iff (r : RecvBuf) (payload : Bytes) {off : Nat} (word : off < wordSize) :
    (∃ r', r.write payload off = .ok (r', .ok ())) ↔
      (Profile.overflowChecks = true → off + payload.length < wordSize) := by
  have whole := whole_ofSlice payload off
  have first : (RangeBuf.ofSlice payload off).offFn = .ok off := whole_offFn whole word
  have length : (RangeBuf.ofSlice payload off).lenFn = .ok payload.length := whole_lenFn whole
  unfold RecvBuf.write RangeBuf.maxOff
  simp only [first, length, ok_bind]
  constructor
  · intro found
    obtain ⟨r', done⟩ := found
    obtain ⟨stop, ended, _⟩ := bind_ok_iff.mp done
    exact addWord_ok_iff.mp ⟨stop, ended⟩
  · intro fits
    obtain ⟨stop, ended⟩ := addWord_ok_iff.mpr fits
    have back : ∃ n, subWord stop payload.length = .ok n := by
      by_cases inside : off + payload.length < wordSize
      · rw [addWord_fits inside, Except.ok.injEq] at ended
        subst ended
        exact ⟨_, subWord_fits (Nat.le_add_left _ _)⟩
      · apply subWord_wraps
        cases checks : (Profile.overflowChecks : Bool) with
        | true => exact absurd (fits checks) inside
        | false => rfl
    obtain ⟨n, back⟩ := back
    rw [ended]
    simp only [ok_bind, back]
    exact ⟨_, rfl⟩

variable [FloatOps F]

theorem processAck_ok_iff (c : Connection F) {buf : Bytes} (complete : 26 ≤ buf.length) :
    (∃ c', c.processAck buf = .ok c') ↔ AckDigestible c (buf.drop 26) := by
  constructor
  · intro found
    obtain ⟨c', done⟩ := found
    obtain ⟨head, ps, layout, covered⟩ := processAck_accepts done
    obtain ⟨c1, maxOff, _, eq⟩ := processAck_covered (fun _ => True) complete layout covered
      (fun _ _ => trivial) (fun _ _ _ => trivial)
    rw [eq] at done
    obtain ⟨recovery, updated, _⟩ := bind_ok_iff.mp done
    exact ⟨head, ps, layout, covered, (updateWin_ok_iff _ _ _).mp ⟨recovery, updated⟩⟩
  · intro digestible
    obtain ⟨head, ps, layout, covered, fits⟩ := digestible
    obtain ⟨c1, maxOff, _, eq⟩ := processAck_covered (fun _ => True) complete layout covered
      (fun _ _ => trivial) (fun _ _ _ => trivial)
    obtain ⟨recovery, updated⟩ := (updateWin_ok_iff c.recovery _
      (FloatOps.ofUsize ((buf.drop 26).length / (8 * 2)))).mpr fits
    unfold ackWeights at updated
    rw [eq, updated, ok_bind]
    exact ⟨_, rfl⟩

theorem ackDigestible_counted (c : Connection F) (count : Nat) (payload : Bytes) :
    AckDigestible { c with recvCount := count } payload ↔ AckDigestible c payload := by
  have weights : lossWeight { c with recvCount := count } = lossWeight c :=
    lossWeight_congr (fun _ => rfl)
  unfold AckDigestible ackWeights
  rw [weights]
  exact Iff.rfl

end Handlers

section Datagrams
variable [Octets] [Profile] [FloatOps F]

theorem recvSlice_ok_iff (c : Connection F) (now : Nat) {buf : Bytes}
    (complete : 26 ≤ buf.length) : (∃ r, c.recvSlice now buf = .ok r) ↔
      ((decodeHeader buf).ty = .ack → c.isServer = true → AckDigestible c (buf.drop 26)) ∧
      ((decodeHeader buf).ty = .elictAck → (buf.drop 26).length % 8 = 0) ∧
      ((decodeHeader buf).ty = .application → Profile.overflowChecks = true → EndFits buf) := by
  have word : (decodeHeader buf).offset.toNat < wordSize := (decodeHeader buf).offset.toNat_lt
  have acked := (processAck_ok_iff { c with recvCount := c.recvCount + 1 } complete).trans
    (ackDigestible_counted c _ _)
  have stored := store_ok_iff c.recBuffer (buf.drop 26) word
  constructor
  · intro found
    obtain ⟨r, done⟩ := found
    cases recvSlice_cases done with
    | short _ incomplete => omega
    | silent r complete kind client =>
      refine ⟨?_, fun elict => absurd elict kind.2.1, fun app => absurd app kind.1⟩
      intro ack server
      rw [client ack] at server
      cases server
    | handshakeServer rtt complete kind server => simp [kind]
    | handshakeClient complete kind client => simp [kind]
    | ack complete kind server handled =>
      exact ⟨fun _ _ => acked.mp ⟨_, handled⟩, by simp [kind], by simp [kind]⟩
    | elictAck ws complete kind listed => exact ⟨by simp [kind], by simp [listed], by simp [kind]⟩
    | application complete kind handled =>
      exact ⟨by simp [kind], by simp [kind], fun _ => stored.mp ⟨_, handled⟩⟩
  · intro needs
    obtain ⟨ack, elict, app⟩ := needs
    unfold recvSlice
    rw [if_neg (by omega), fromSlice_eq, if_pos complete]
    dsimp only
    cases kind : (decodeHeader buf).ty with
    | handshake => cases server : c.isServer <;> exact ⟨_, rfl⟩
    | ack =>
      cases server : c.isServer with
      | true =>
        obtain ⟨c', done⟩ := acked.mpr (ack kind server)
        simp only [server] at done
        simp only [↓reduceIte, done, ok_bind]
        exact ⟨_, rfl⟩
      | false => exact ⟨_, rfl⟩
    | elictAck =>
      obtain ⟨c', done⟩ := (checkLoss_ok_iff { c with
        recvCount := c.recvCount + 1
        recvFlag := true
        sendNum := u64Value ((buf.drop 1).take 8) } (buf.drop 26)).mpr (elict kind)
      simp only [number_field complete, sliceFrom_fits complete, ok_bind, done]
      exact ⟨_, rfl⟩
    | application =>
      obtain ⟨r, done⟩ := stored.mpr (app kind)
      simp only [sliceFrom_fits complete, ok_bind, done]
      exact ⟨_, rfl⟩
    | stop | retry | fin | startAck => exact ⟨_, rfl⟩

theorem survives_iff_digestible (c : Connection F) (now : Nat) (buf : Bytes) :
    Survives c now buf ↔ (26 ≤ buf.length → Digestible c buf) := by
  by_cases complete : 26 ≤ buf.length
  · unfold Survives
    rw [recvSlice_ok_iff c now complete]
    constructor
    · intro survives _
      obtain ⟨⟨ack, elict, _⟩, fits⟩ := survives
      exact ⟨ack, elict, fits complete⟩
    · intro digestible
      obtain ⟨ack, elict, app⟩ := digestible complete
      exact ⟨⟨ack, elict, fun kind _ => app kind⟩, fun _ => app⟩
  · obtain ⟨count, refused⟩ := recvSlice_short c now (Nat.lt_of_not_le complete)
    constructor
    · intro _ whole
      exact absurd whole complete
    · intro _
      exact ⟨⟨_, refused⟩, fun whole => absurd whole complete⟩

end Datagrams

theorem bare_ack_not_survived : ¬ ∀ c : Connection ℚ,
    @Reachable ℚ referenceOctets checkedBuild rationalFloats c → ∀ (now : Nat) (buf : Bytes),
      @Survives ℚ checkedBuild rationalFloats referenceOctets c now buf := by
  intro claim
  have reached : @Reachable ℚ referenceOctets checkedBuild rationalFloats freshServer :=
    ⟨loopback, loopback, 0, true, [], .start⟩
  obtain ⟨⟨r, returned⟩, _⟩ := claim freshServer reached 0 (bareDatagram 5).bytes
  have panics : (@recvSlice ℚ referenceOctets rationalFloats checkedBuild freshServer 0
      (bareDatagram 5).bytes).isOk = false := by decide +kernel
  rw [returned] at panics
  cases panics

end DmludpDatagramSafety
