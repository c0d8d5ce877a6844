import Dmludp.Foundation.ByteCursor
import Mathlib.Tactic.Common

/- The 26-byte packet header: one type byte, packet number, priority, stream offset and
   payload length, all words big-endian. -/
namespace DmludpPacket
open ByteCursor

inductive Error where
  | done
  | bufferTooShort
  | unknownVersion
  | invalidFrame
  | invalidPacket
  | invalidState
  | invalidStreamState : UInt64 → Error
  | invalidTransportParam
  | cryptoFail
  | tlsFail
  | flowControl
  | streamLimit
  | streamStopped : UInt64 → Error
  | streamReset : UInt64 → Error
  | finalSize
  | congestionControl
  | idLimit
  | outOfIdentifiers
  | stopped
  deriving DecidableEq, Repr

inductive PacketType where
  | retry
  | handshake
  | application
  | elictAck
  | ack
  | stop
  | fin
  | startAck
  deriving DecidableEq, Repr

structure Header where
  ty : PacketType
  pktNum : UInt64
  priority : UInt8
  offset : UInt64
  pktLength : UInt64
  deriving DecidableEq, Repr

def headerLength : Nat := 26

def typeOfByte (first : UInt8) : PacketType :=
  if first = 0x01 then .retry
  else if first = 0x02 then .handshake
  else if first = 0x03 then .application
  else if first = 0x04 then .elictAck
  else if first = 0x05 then .ack
  else if first = 0x06 then .stop
  else if first = 0x07 then .fin
  else .startAck

def byteOfType (ty : PacketType) : UInt8 :=
  if ty = .retry then 0x01
  else if ty = .handshake then 0x02
  else if ty = .application then 0x03
  else if ty = .elictAck then 0x04
  else if ty = .ack then 0x05
  else if ty = .stop then 0x06
  else 0x07

section Codec
variable [Octets]

def Header.fromBytes : Cursor Header := do
  let first ← Octets.getU8
  let ty := typeOfByte first
  let second ← Octets.getU64
  let third ← Octets.getU8
  let forth ← Octets.getU64
  let fifth ← Octets.getU64
  return ⟨ty, second, third, forth, fifth⟩

def Header.fromSlice (buf : Bytes) : Except Error Header :=
  match Header.fromBytes (withSlice buf) with
  | (.ok hdr, _) => .ok hdr
  | (.error _, _) => .error .bufferTooShort

def Header.toBytes (h : Header) : Cursor Unit := do
  Octets.putU8 (byteOfType h.ty)
  Octets.putU64 h.pktNum
  Octets.putU8 h.priority
  Octets.putU64 h.offset
  Octets.putU64 h.pktLength

end Codec

def Header.encoded (h : Header) : Bytes :=
  [byteOfType h.ty] ++ (u64Bytes h.pktNum ++ ([h.priority] ++ (u64Bytes h.offset ++
    u64Bytes h.pktLength)))

def decodeHeader (buf : Bytes) : Header where
  ty := typeOfByte (buf.getD 0 0)
  pktNum := u64Value ((buf.drop 1).take 8)
  priority := buf.getD 9 0
  offset := u64Value ((buf.drop 10).take 8)
  pktLength := u64Value ((buf.drop 18).take 8)

@[simp] theorem encoded_length (h : Header) : h.encoded.length = 26 := by
  simp [Header.encoded]

/-- Both hand-written chains agree on every type but the last, which has no byte of its own. -/
theorem type_byte_round_trip {ty : PacketType} (sendable : ty ≠ .startAck) :
    typeOfByte (byteOfType ty) = ty := by
  cases ty <;> first | rfl | exact absurd rfl sendable

theorem word_within (front : Bytes) (x : UInt64) (back : Bytes) {n : Nat}
    (width : front.length = n) :
    u64Value (((front ++ (u64Bytes x ++ back)).drop n).take 8) = x := by
  rw [List.drop_left' width, List.take_left' (u64Bytes_length x), u64Value_bytes]

theorem decode_encoded {h : Header} (sendable : h.ty ≠ .startAck) (rest : Bytes) :
    decodeHeader (h.encoded ++ rest) = h := by
  obtain ⟨ty, pktNum, priority, offset, pktLength⟩ := h
  have number := word_within [byteOfType ty] pktNum
    ([priority] ++ (u64Bytes offset ++ (u64Bytes pktLength ++ rest))) (n := 1) (by simp)
  have place := word_within ([byteOfType ty] ++ u64Bytes pktNum ++ [priority]) offset
    (u64Bytes pktLength ++ rest) (n := 10) (by simp)
  have extent := word_within ([byteOfType ty] ++ u64Bytes pktNum ++ [priority] ++ u64Bytes offset)
    pktLength rest (n := 18) (by simp)
  have byte9 : (([byteOfType ty] ++ u64Bytes pktNum) ++
      (priority :: (u64Bytes offset ++ (u64Bytes pktLength ++ rest)))).getD 9 0 = priority := by
    simp [List.getD_eq_getElem?_getD]
  simp only [List.append_assoc, List.cons_append, List.nil_append] at number place extent byte9
  simp only [decodeHeader, Header.encoded, List.append_assoc, List.cons_append, List.nil_append,
    number, place, extent, byte9, List.getD_cons_zero, type_byte_round_trip sendable]

section Codec
variable [Octets]

theorem writes_toBytes (h : Header) : Writes h.toBytes h.encoded :=
  writes_bind (writes_putU8 _) (writes_bind (writes_putU64 _) (writes_bind (writes_putU8 _)
    (writes_bind (writes_putU64 _) (writes_putU64 _))))

theorem toBytes_from_start (h : Header) {out : Bytes} (room : 26 ≤ out.length) :
    h.toBytes (withSlice out) = (.ok (), ⟨h.encoded ++ out.drop 26, 26⟩) := by
  have fits : h.encoded.length ≤ out.length := by simpa using room
  simpa using writes_from_start (writes_toBytes h) fits

theorem toBytes_too_short (h : Header) {out : Bytes} (short : out.length < 26) :
    ∃ b, h.toBytes (withSlice out) = (.error ⟨⟩, b) ∧ b.buf.length = out.length :=
  writes_too_short (writes_toBytes h) (by simpa using short)

theorem getU8_inside {buf : Bytes} {off : Nat} (inside : off < buf.length) :
    Octets.getU8 ⟨buf, off⟩ = (.ok (buf.getD off 0), ⟨buf, off + 1⟩) := by
  simp [Octets.getU8_eq, inside, List.getD_eq_getElem?_getD]

theorem getU64_inside {buf : Bytes} {off : Nat} (inside : off + 8 ≤ buf.length) :
    Octets.getU64 ⟨buf, off⟩ = (.ok (u64Value ((buf.drop off).take 8)), ⟨buf, off + 8⟩) := by
  simp [Octets.getU64_eq, inside]

theorem getU8_outside {buf : Bytes} {off : Nat} (outside : buf.length ≤ off) :
    Octets.getU8 ⟨buf, off⟩ = (.error ⟨⟩, ⟨buf, off⟩) := by
  simp [Octets.getU8_eq, Nat.not_lt.mpr outside]

theorem getU64_outside {buf : Bytes} {off : Nat} (outside : buf.length < off + 8) :
    Octets.getU64 ⟨buf, off⟩ = (.error ⟨⟩, ⟨buf, off⟩) := by
  simp [Octets.getU64_eq, Nat.not_le.mpr outside]

theorem fromBytes_complete {buf : Bytes} (complete : 26 ≤ buf.length) :
    Header.fromBytes (withSlice buf) = (.ok (decodeHeader buf), ⟨buf, 26⟩) := by
  unfold Header.fromBytes withSlice
  rw [cursor_bind_ok (getU8_inside (by omega)), cursor_bind_ok (getU64_inside (by omega)),
    cursor_bind_ok (getU8_inside (by omega)), cursor_bind_ok (getU64_inside (by omega)),
    cursor_bind_ok (getU64_inside (by omega))]
  rfl

theorem fromBytes_short {buf : Bytes} (short : buf.length < 26) :
    ∃ b, Header.fromBytes (withSlice buf) = (.error ⟨⟩, b) := by
  unfold Header.fromBytes withSlice
  by_cases h0 : 0 < buf.length
  · rw [cursor_bind_ok (getU8_inside h0)]
    by_cases h1 : 9 ≤ buf.length
    · rw [cursor_bind_ok (getU64_inside h1)]
      by_cases h2 : 9 < buf.length
      · rw [cursor_bind_ok (getU8_inside h2)]
        by_cases h3 : 18 ≤ buf.length
        · rw [cursor_bind_ok (getU64_inside h3)]
          exact ⟨_, cursor_bind_error (getU64_outside short)⟩
        · exact ⟨_, cursor_bind_error (getU64_outside (by omega))⟩
      · exact ⟨_, cursor_bind_error (getU8_outside (by omega))⟩
    · exact ⟨_, cursor_bind_error (getU64_outside (by omega))⟩
  · exact ⟨_, cursor_bind_error (getU8_outside (by omega))⟩

theorem fromSlice_eq (buf : Bytes) : Header.fromSlice buf =
    if 26 ≤ buf.length then .ok (decodeHeader buf) else .error .bufferTooShort := by
  unfold Header.fromSlice
  by_cases complete : 26 ≤ buf.length
  · rw [fromBytes_complete complete, if_pos complete]
  · obtain ⟨b, failed⟩ := fromBytes_short (Nat.lt_of_not_le complete)
    rw [failed, if_neg complete]

theorem fromSlice_encoded {h : Header} (sendable : h.ty ≠ .startAck) (rest : Bytes) :
    Header.fromSlice (h.encoded ++ rest) = .ok h := by
  rw [fromSlice_eq, if_pos (by simp), decode_encoded sendable]

end Codec

end DmludpPacket
