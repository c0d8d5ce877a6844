import Dmludp.Guarantees.DatagramSafety

/- Application data and its declared length. The header's `pkt_length` is what `recv_slice` returns,
   and the rest of the datagram is what it stores; nothing compares the two. -/
namespace DmludpDeclaredLength
open ByteCursor RustOutcome TracedRun OrderedMap DmludpPacket DmludpRange DmludpRecv DmludpRecovery
open DmludpConnection DmludpConnection.Connection DmludpCalls DmludpReceiveEffects
open DmludpDatagramSafety DmludpReference

variable {F : Type}

/-- The `r` bytes that the header declares were stored as one chunk at its offset, and nothing
    else. -/
def StoresDeclared (c : Connection F) (buf : Bytes) (c' : Connection F) (r : Nat) : Prop :=
  r = (decodeHeader buf).pktLength.toNat ∧ r ≤ (buf.drop 26).length ∧
    c'.recBuffer.data = c.recBuffer.data.insert (((decodeHeader buf).offset.toNat + r) % wordSize)
      (RangeBuf.ofSlice ((buf.drop 26).take r) (decodeHeader buf).offset.toNat)

theorem insert_empty {K V : Type} [LinearOrder K] {k l : K} {v w : V}
    (same : (OrdMap.empty : OrdMap K V).insert k v = OrdMap.empty.insert l w) : v = w := by
  have entries : [(k, v)] = [(l, w)] := congrArg OrdMap.entries same
  simp only [List.cons.injEq, Prod.mk.injEq, and_true] at entries
  exact entries.2

section Store
variable [Profile]

theorem store_inserts {r r' : RecvBuf} {payload : Bytes} {off : Nat} {result : Except Error Unit}
    (word : off < wordSize) (done : r.write payload off = .ok (r', result)) :
    r'.data = r.data.insert ((off + payload.length) % wordSize) (RangeBuf.ofSlice payload off) := by
  have whole := whole_ofSlice payload off
  have first : (RangeBuf.ofSlice payload off).offFn = .ok off := whole_offFn whole word
  have length : (RangeBuf.ofSlice payload off).lenFn = .ok payload.length := whole_lenFn whole
  unfold RecvBuf.write RangeBuf.maxOff at done
  simp only [first, length, ok_bind] at done
  obtain ⟨stop, ended, done⟩ := bind_ok_iff.mp done
  obtain ⟨start, _, done⟩ := bind_ok_iff.mp done
  rw [← addWord_mod ended]
  cases done
  cases r.data.last? with
  | none => rfl
  | some e =>
    dsimp only
    split <;> rfl

variable [FloatOps F] [Octets]

theorem application_stores {c c' : Connection F} {now : Nat} {buf : Bytes} {r : Except Error Nat}
    (complete : 26 ≤ buf.length) (kind : (decodeHeader buf).ty = .application)
    (done : c.recvSlice now buf = .ok (c', r)) : r = .ok (decodeHeader buf).pktLength.toNat ∧
      c'.recBuffer.data = c.recBuffer.data.insert
        (((decodeHeader buf).offset.toNat + (buf.drop 26).length) % wordSize)
        (RangeBuf.ofSlice (buf.drop 26) (decodeHeader buf).offset.toNat) := by
  have word : (decodeHeader buf).offset.toNat < wordSize := (decodeHeader buf).offset.toNat_lt
  cases recvSlice_cases done with
  | short _ incomplete => omega
  | silent _ _ other _ => exact absurd kind other.1
  | handshakeServer _ _ other _ => simp [kind] at other
  | handshakeClient _ other _ => simp [kind] at other
  | ack _ other _ _ => simp [kind] at other
  | elictAck _ _ other _ => simp [kind] at other
  | application _ _ stored => exact ⟨rfl, store_inserts word stored⟩

/-- An Application datagram is stored as declared in every reachable state exactly when its payload
    has the declared length, or when a checked build refuses its end offset in all of them. -/
theorem lengths_agree_iff (buf : Bytes) (complete : 26 ≤ buf.length)
    (kind : (decodeHeader buf).ty = .application) :
    (∀ c : Connection F, Reachable c → ∀ now c' r, c.recvSlice now buf = .ok (c', .ok r) →
      StoresDeclared c buf c' r) ↔
      buf.length = 26 + (decodeHeader buf).pktLength.toNat ∨
        (Profile.overflowChecks = true ∧ ¬ EndFits buf) := by
  have size : (buf.drop 26).length = buf.length - 26 := List.length_drop
  constructor
  · intro agree
    by_contra neither
    rw [not_or, not_and, not_not] at neither
    obtain ⟨differ, fits⟩ := neither
    -- a new connection takes the datagram and has nothing else in its buffer
    have fresh : Reachable (Connection.new loopback loopback 0 false : Connection F) :=
      ⟨loopback, loopback, 0, false, [], .start⟩
    obtain ⟨⟨c', r⟩, done⟩ := (recvSlice_ok_iff (Connection.new loopback loopback 0 false :
      Connection F) 0 complete).mpr ⟨by simp [kind], by simp [kind], fun _ => fits⟩
    obtain ⟨rfl, stored⟩ := application_stores complete kind done
    obtain ⟨_, short, declared⟩ := agree _ fresh 0 c' _ done
    rw [stored] at declared
    have chunk := congrArg (fun b => b.data.length) (insert_empty declared)
    simp only [RangeBuf.ofSlice, List.length_take] at chunk
    omega
  · rintro (exact_ | ⟨checks, overflow⟩) c _ now c' r done
    · obtain ⟨same, stored⟩ := application_stores complete kind done
      have read : r = (decodeHeader buf).pktLength.toNat := Except.ok.inj same
      have all : r = (buf.drop 26).length := by omega
      refine ⟨read, Nat.le_of_eq all, ?_⟩
      rw [all, List.take_length]
      exact stored
    · have fits := ((recvSlice_ok_iff c now complete).mp ⟨_, done⟩).2.2 kind checks
      exact absurd fits overflow

end Store

def declaring (length : UInt64) (content : Bytes) : Bytes :=
  (⟨.application, 1, 3, 0, length⟩ : Header).encoded ++ content

def taken (buf : Bytes) : Option (Option Nat × List (Nat × RangeBuf)) :=
  (@recvSlice ℚ referenceOctets rationalFloats checkedBuild freshClient 1 buf).toOption.map
    (fun p => (p.2.toOption, p.1.recBuffer.data.entries))

theorem taken_recvSlice {buf : Bytes} {n : Nat} {entries : List (Nat × RangeBuf)}
    (seen : taken buf = some (some n, entries)) : ∃ c' : Connection ℚ,
      @recvSlice ℚ referenceOctets rationalFloats checkedBuild freshClient 1 buf = .ok (c', .ok n) ∧
        c'.recBuffer.data.entries = entries := by
  unfold taken at seen
  cases done : @recvSlice ℚ referenceOctets rationalFloats checkedBuild freshClient 1 buf with
  | error p => simp [done, Except.toOption] at seen
  | ok p =>
    obtain ⟨c', result⟩ := p
    cases result with
    | error e => simp [done, Except.toOption] at seen
    | ok m =>
      simp only [done, Except.toOption, Option.map_some, Option.some.injEq, Prod.mk.injEq] at seen
      obtain ⟨rfl, stored⟩ := seen
      exact ⟨c', rfl, stored⟩

theorem three_declared_stored : ∃ c' : Connection ℚ,
    @recvSlice ℚ referenceOctets rationalFloats checkedBuild freshClient 1
        (declaring 3 [7, 8, 9]) = .ok (c', .ok 3) ∧
      StoresDeclared freshClient (declaring 3 [7, 8, 9]) c' 3 := by
  have agree := (@lengths_agree_iff ℚ checkedBuild rationalFloats referenceOctets
    (declaring 3 [7, 8, 9]) (by decide) (by decide +kernel)).mpr (Or.inl (by decide +kernel))
  have seen : taken (declaring 3 [7, 8, 9]) =
      some (some 3, [(3, RangeBuf.ofSlice [7, 8, 9] 0)]) := by decide +kernel
  obtain ⟨c', done, _⟩ := taken_recvSlice seen
  exact ⟨c', done, agree freshClient ⟨loopback, loopback, 0, false, [], .start⟩ 1 c' 3 done⟩

/-- A new client reports five bytes of which it has three, and one byte where it keeps three. -/
theorem undeclared_bytes_stored :
    (∃ c' : Connection ℚ, @recvSlice ℚ referenceOctets rationalFloats checkedBuild freshClient 1
        (declaring 5 [7, 8, 9]) = .ok (c', .ok 5) ∧
      c'.recBuffer.data.entries = [(3, RangeBuf.ofSlice [7, 8, 9] 0)] ∧
      ¬ StoresDeclared freshClient (declaring 5 [7, 8, 9]) c' 5) ∧
    (∃ c' : Connection ℚ, @recvSlice ℚ referenceOctets rationalFloats checkedBuild freshClient 1
        (declaring 1 [7, 8, 9]) = .ok (c', .ok 1) ∧
      c'.recBuffer.data.entries = [(3, RangeBuf.ofSlice [7, 8, 9] 0)] ∧
      ¬ StoresDeclared freshClient (declaring 1 [7, 8, 9]) c' 1) := by
  constructor
  · have seen : taken (declaring 5 [7, 8, 9]) =
        some (some 5, [(3, RangeBuf.ofSlice [7, 8, 9] 0)]) := by decide +kernel
    obtain ⟨c', done, stored⟩ := taken_recvSlice seen
    refine ⟨c', done, stored, ?_⟩
    rintro ⟨_, within, _⟩
    exact absurd within (by decide)
  · have seen : taken (declaring 1 [7, 8, 9]) =
        some (some 1, [(3, RangeBuf.ofSlice [7, 8, 9] 0)]) := by decide +kernel
    obtain ⟨c', done, stored⟩ := taken_recvSlice seen
    refine ⟨c', done, stored, ?_⟩
    rintro ⟨_, _, declared⟩
    have entries := congrArg OrdMap.entries declared
    rw [stored] at entries
    exact absurd entries (by decide +kernel)

end DmludpDeclaredLength
