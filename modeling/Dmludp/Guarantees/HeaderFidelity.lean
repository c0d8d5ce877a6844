import Dmludp.Packet.HeaderCodec

/- How far the 26-byte header is a lossless code. The decoder has an arm for seven type bytes
   and takes every other byte for StartAck; the encoder has an arm for six types and writes
   0x07 for the other two. -/
namespace DmludpFidelity
open ByteCursor DmludpPacket

def discriminant : PacketType → UInt8
  | .retry => 0x01
  | .handshake => 0x02
  | .application => 0x03
  | .elictAck => 0x04
  | .ack => 0x05
  | .stop => 0x06
  | .fin => 0x07
  | .startAck => 0x08

/-- The type bytes that the decoder compares with. -/
def Listed (first : UInt8) : Prop := 1 ≤ first ∧ first ≤ 7

theorem decoded_startAck_iff (first : UInt8) : typeOfByte first = .startAck ↔ ¬ Listed first := by
  unfold typeOfByte Listed
  grind

theorem reencoded_byte_iff (first : UInt8) :
    byteOfType (typeOfByte first) = first ↔ Listed first := by
  unfold typeOfByte byteOfType Listed
  grind

theorem listed_discriminant {first : UInt8} (listed : Listed first) :
    discriminant (typeOfByte first) = first := by
  unfold Listed at listed
  unfold typeOfByte discriminant
  grind

theorem encoded_byte_listed (ty : PacketType) : Listed (byteOfType ty) := by
  cases ty <;> exact ⟨by decide, by decide⟩

theorem encoded_decoded {buf : Bytes} (complete : 26 ≤ buf.length) :
    (decodeHeader buf).encoded =
      byteOfType (typeOfByte (buf.getD 0 0)) :: (buf.drop 1).take 25 := by
  have word : ∀ n, n + 8 ≤ 26 → u64Bytes (u64Value ((buf.drop n).take 8)) = (buf.drop n).take 8 := by
    intro n inside
    apply u64Bytes_value
    rw [List.length_take, List.length_drop]
    omega
  have middle : (buf.drop 9).take 1 = [buf.getD 9 0] := by
    have inside : 9 < buf.length := by omega
    rw [List.drop_eq_getElem_cons inside, List.take_succ_cons, List.take_zero,
      List.getD_eq_getElem?_getD, List.getElem?_eq_getElem inside]
    rfl
  have fields : (buf.drop 1).take 25 = (buf.drop 1).take 8 ++ ((buf.drop 9).take 1 ++
      ((buf.drop 10).take 8 ++ (buf.drop 18).take 8)) := by
    rw [show (25 : Nat) = 8 + (1 + (8 + 8)) from rfl]
    simp only [List.take_add, List.drop_drop]
  unfold Header.encoded decodeHeader
  dsimp only
  rw [word 1 (by decide), word 10 (by decide), word 18 (by decide), fields, middle]
  rfl

theorem front_of_header {buf : Bytes} (complete : 26 ≤ buf.length) :
    buf.take 26 = buf.getD 0 0 :: (buf.drop 1).take 25 := by
  cases buf with
  | nil => simp at complete
  | cons first rest => simp

theorem reencoded_iff {buf : Bytes} (complete : 26 ≤ buf.length) :
    (decodeHeader buf).encoded = buf.take 26 ↔ Listed (buf.getD 0 0) := by
  rw [encoded_decoded complete, front_of_header complete, List.cons.injEq]
  exact ⟨fun same => (reencoded_byte_iff _).mp same.1,
    fun listed => ⟨(reencoded_byte_iff _).mpr listed, rfl⟩⟩

theorem wire_header_unique {buf other : Bytes} (complete : 26 ≤ buf.length)
    (accepted : 26 ≤ other.length) (same : decodeHeader other = decodeHeader buf)
    (listed : Listed (buf.getD 0 0)) : other.take 26 = buf.take 26 := by
  have ty : typeOfByte (other.getD 0 0) = typeOfByte (buf.getD 0 0) := congrArg Header.ty same
  have known : Listed (other.getD 0 0) := by
    by_contra unlisted
    rw [(decoded_startAck_iff _).mpr unlisted] at ty
    exact (decoded_startAck_iff _).mp ty.symm listed
  rw [← (reencoded_iff accepted).mpr known, same, (reencoded_iff complete).mpr listed]

section Codec
variable [Octets]

/-- `to_bytes` writes exactly 26 bytes into a buffer with room, and `from_bytes` reads `h` back
    from them. -/
def EncodesBack (h : Header) (out : Bytes) : Prop :=
  26 ≤ out.length → ∃ wire : Bytes, wire.length = 26 ∧
    h.toBytes (withSlice out) = (.ok (), ⟨wire ++ out.drop 26, 26⟩) ∧
    (Header.fromBytes (withSlice wire)).1 = .ok h

/-- If `from_bytes` accepts `buf`, then its type byte is one of the enumeration, `to_bytes`
    writes its first 26 bytes back, and no other wire header has the same value. -/
def DecodesBack (buf : Bytes) : Prop :=
  ∀ h, (Header.fromBytes (withSlice buf)).1 = .ok h →
    (∃ ty, discriminant ty = buf.getD 0 0) ∧
    (∀ out : Bytes, 26 ≤ out.length →
      h.toBytes (withSlice out) = (.ok (), ⟨buf.take 26 ++ out.drop 26, 26⟩)) ∧
    (∀ other : Bytes, (Header.fromBytes (withSlice other)).1 = .ok h → other.take 26 = buf.take 26)

theorem accepted_iff {buf : Bytes} {h : Header} :
    (Header.fromBytes (withSlice buf)).1 = .ok h ↔ 26 ≤ buf.length ∧ decodeHeader buf = h := by
  by_cases complete : 26 ≤ buf.length
  · rw [fromBytes_complete complete]
    simp [complete]
  · obtain ⟨b, failed⟩ := fromBytes_short (Nat.lt_of_not_le complete)
    rw [failed]
    simp [complete]

theorem toBytes_front {h : Header} {out wire : Bytes} (room : 26 ≤ out.length)
    (written : h.toBytes (withSlice out) = (.ok (), ⟨wire ++ out.drop 26, 26⟩)) :
    wire = h.encoded := by
  rw [toBytes_from_start h room] at written
  have filled : h.encoded ++ out.drop 26 = wire ++ out.drop 26 :=
    congrArg (fun r : Except BufferTooShortError Unit × OctetsMut => r.2.buf) written
  exact (List.append_cancel_right filled).symm

theorem encodesBack_iff (h : Header) (out : Bytes) :
    EncodesBack h out ↔ (26 ≤ out.length → h.ty ≠ .startAck) := by
  constructor
  · intro back room startAck
    obtain ⟨wire, width, written, read⟩ := back room
    have encoded := toBytes_front room written
    subst encoded
    obtain ⟨_, decoded⟩ := accepted_iff.mp read
    have ty : typeOfByte (byteOfType h.ty) = h.ty := congrArg Header.ty decoded
    rw [startAck] at ty
    exact (decoded_startAck_iff _).mp ty (encoded_byte_listed _)
  · intro sendable room
    have read := decode_encoded (sendable room) []
    rw [List.append_nil] at read
    exact ⟨h.encoded, encoded_length h, toBytes_from_start h room,
      accepted_iff.mpr ⟨by rw [encoded_length], read⟩⟩

theorem decodesBack_iff (buf : Bytes) :
    DecodesBack buf ↔ (26 ≤ buf.length → Listed (buf.getD 0 0)) := by
  constructor
  · intro back complete
    obtain ⟨_, written, _⟩ := back _ (accepted_iff.mpr ⟨complete, rfl⟩)
    have front := toBytes_front complete (written buf complete)
    exact (reencoded_iff complete).mp front.symm
  · intro known h read
    obtain ⟨complete, rfl⟩ := accepted_iff.mp read
    have listed := known complete
    refine ⟨⟨_, listed_discriminant listed⟩, ?_, ?_⟩
    · intro out room
      rw [toBytes_from_start _ room, (reencoded_iff complete).mpr listed]
    · intro other accepted
      obtain ⟨wide, same⟩ := accepted_iff.mp accepted
      exact wire_header_unique complete wide same listed

/-- The codec is lossless exactly away from StartAck: the encoder loses that type, and the
    decoder takes every byte outside 0x01..0x07 for it. -/
theorem header_codec_lossless_iff :
    (∀ (h : Header) (out : Bytes), EncodesBack h out ↔ (26 ≤ out.length → h.ty ≠ .startAck)) ∧
    (∀ buf : Bytes, DecodesBack buf ↔ (26 ≤ buf.length → Listed (buf.getD 0 0))) :=
  ⟨encodesBack_iff, decodesBack_iff⟩

end Codec

theorem startAck_header_lost :
    ¬ @EncodesBack referenceOctets ⟨.startAck, 1, 2, 3, 4⟩ (List.replicate 26 0) ∧
    ¬ @DecodesBack referenceOctets (0x2a :: List.replicate 25 0) := by
  rw [@encodesBack_iff referenceOctets, @decodesBack_iff referenceOctets]
  constructor
  · simp
  · simp only [Listed]
    decide

end DmludpFidelity
