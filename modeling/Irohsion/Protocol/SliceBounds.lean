import Irohsion.Protocol.FecFrame

/-! # Slices of received bytes

The decoders once more, with `none` where the source would panic: a range that
does not lie in its slice, an array of the wrong size, the maximum of nothing.
Length checks come before every access, so no byte string reaches these cases.
-/

namespace Irohsion.Protocol

/-- `data[start..stop]`. -/
def slice (data : Bytes) (start stop : Nat) : Option Bytes :=
  if start ≤ stop ∧ stop ≤ data.length then some ((data.drop start).take (stop - start)) else none

/-- `data[start..]`, and what `advance` leaves. -/
def sliceFrom (data : Bytes) (start : Nat) : Option Bytes :=
  if start ≤ data.length then some (data.drop start) else none

/-- `data[start..start + width].try_into().expect(..)` as a little-endian number. -/
def readField (width : Nat) (data : Bytes) (start : Nat) : Option Nat :=
  (slice data start (start + width)).bind fun field =>
    if field.length = width then some (ofLittleEndian field) else none

def decodePacketChecked (data : Bytes) : Option (Except DecodeError DecodedPacket) :=
  if data.length < headerLen then some (.error (.tooShort data.length))
  else do
    let tail ← readField 4 data 0
    let payload ← sliceFrom data 4
    let sequence := tail % 2 ^ 26
    let fragment := tail / 2 ^ 26 % 2 ^ 3
    let fragments := tail / 2 ^ 29 % 2 ^ 3
    if fragments = 0 ∨ fragments ≤ fragment then
      some (.error (.invalidFragment fragment fragments))
    else some (.ok ⟨⟨sequence, fragment, fragments⟩, payload⟩)

/-- The loop over the table of lengths, and the offset after it. -/
def readLengthsChecked (payload : Bytes) : (count offset : Nat) → Option (List Nat × Nat)
  | 0, offset => some ([], offset)
  | count + 1, offset => do
      let length ← readField 2 payload offset
      let (lengths, final) ← readLengthsChecked payload count (offset + 2)
      some (length :: lengths, final)

def decodeFecFrameChecked (data : Bytes) : Option (Except FecDecodeError FecFrame) := do
  match ← decodePacketChecked data with
  | .error error => some (.error (.invalidPacket error))
  | .ok ⟨header, payload⟩ =>
      if header ≠ fecHeader then some (.error (.invalidHeader header))
      else if payload.length < fecMagic.length + 4 + 1 then
        some (.error (.tooShort payload.length))
      else if (← slice payload 0 fecMagic.length) ≠ fecMagic then some (.error .invalidMagic)
      else
        let offset := fecMagic.length
        let baseSequence ← readField 4 payload offset
        let offset := offset + 4
        if maxMediaSequence < baseSequence then
          some (.error (.invalidBaseSequence baseSequence))
        else
          let count ← payload[offset]?.map UInt8.toNat
          let offset := offset + 1
          if count = 0 ∨ maxFecGroupPackets < count then some (.error (.invalidGroupSize count))
          else if payload.length < offset + count * 2 then
            some (.error (.tooShort payload.length))
          else
            let (payloadLengths, offset) ← readLengthsChecked payload count offset
            let parity ← sliceFrom payload offset
            if payloadLengths.any (parity.length < ·) then
              (payloadLengths.max?).map fun longest => .error (.invalidPayloadLength longest)
            else some (.ok ⟨baseSequence, payloadLengths, parity⟩)

/-! ## Accesses within bounds -/

theorem slice_of_le {data : Bytes} {start stop : Nat} (ordered : start ≤ stop)
    (bound : stop ≤ data.length) :
    slice data start stop = some ((data.drop start).take (stop - start)) :=
  if_pos ⟨ordered, bound⟩

theorem sliceFrom_of_le {data : Bytes} {start : Nat} (bound : start ≤ data.length) :
    sliceFrom data start = some (data.drop start) :=
  if_pos bound

theorem readField_of_le {width : Nat} {data : Bytes} {start : Nat}
    (bound : start + width ≤ data.length) :
    readField width data start = some (ofLittleEndian ((data.drop start).take width)) := by
  have exact : ((data.drop start).take width).length = width := by
    rw [List.length_take, List.length_drop]
    omega
  rw [readField, slice_of_le (Nat.le_add_right _ _) bound, Option.bind_some,
    Nat.add_sub_cancel_left, if_pos exact]

theorem decodePacketChecked_eq (data : Bytes) :
    decodePacketChecked data = some (decodePacket data) := by
  rw [decodePacketChecked, decodePacket]
  split
  · rfl
  · rename_i enough
    have bound : 4 ≤ data.length := Nat.le_of_not_lt enough
    have tail := @readField_of_le 4 data 0 (by omega)
    simp only [tail, sliceFrom_of_le bound, Option.bind_eq_bind, Option.bind_some, List.drop_zero,
      headerLen]
    exact (apply_ite some _ _ _).symm

theorem readLengthsChecked_eq {payload : Bytes} : ∀ {count offset : Nat},
    offset + count * 2 ≤ payload.length →
    readLengthsChecked payload count offset =
      some (readLengths count (payload.drop offset), offset + count * 2)
  | 0, _, _ => rfl
  | count + 1, offset, bound => by
      have rest := @readLengthsChecked_eq payload count (offset + 2) (by omega)
      have after : offset + 2 + count * 2 = offset + (count + 1) * 2 := by omega
      rw [readLengthsChecked, readField_of_le (by omega), rest, after, readLengths,
        List.drop_drop]
      rfl

/-- The greatest length exists when some length is too great. -/
theorem max?_eq_foldr : ∀ {lengths : List Nat}, lengths ≠ [] →
    lengths.max? = some (lengths.foldr max 0)
  | [], nonempty => absurd rfl nonempty
  | [length], _ => by simp
  | length :: next :: rest, _ => by
      rw [List.max?_cons, max?_eq_foldr (List.cons_ne_nil next rest)]
      rfl

theorem ofLittleEndian_single (bytes : Bytes) {index : Nat} (bound : index < bytes.length) :
    ofLittleEndian ((bytes.drop index).take 1) = bytes[index].toNat := by
  rw [List.drop_eq_getElem_cons bound, List.take_succ_cons, List.take_zero, ofLittleEndian,
    ofLittleEndian, Nat.mul_zero, Nat.add_zero]

/-- A check that fails with a value, followed by code that does not panic. -/
theorem ite_some {α : Type u} {condition : Prop} [Decidable condition] {failure result : α}
    {rest : Option α} (goesOn : ¬ condition → rest = some result) :
    (if condition then some failure else rest) =
      some (if condition then failure else result) := by
  split
  · rfl
  · rename_i passed
    exact goesOn passed

theorem decodeFecFrameChecked_eq (data : Bytes) :
    decodeFecFrameChecked data = some (decodeFecFrame data) := by
  rw [decodeFecFrameChecked, decodePacketChecked_eq, decodeFecFrame]
  simp only [Option.bind_eq_bind, Option.bind_some]
  cases decodePacket data with
  | error error => rfl
  | ok packet =>
      rcases packet with ⟨header, payload⟩
      dsimp only
      apply ite_some
      intro _
      apply ite_some
      intro short
      have length : fecMagic.length = 5 := rfl
      rw [length] at short ⊢
      have inBounds : 9 < payload.length := by omega
      have magic := @slice_of_le payload 0 5 (by omega) (by omega)
      have base := @readField_of_le 4 payload 5 (by omega)
      have count : ofLittleEndian (((payload.drop 5).drop 4).take 1) = payload[9].toNat := by
        rw [List.drop_drop, ofLittleEndian_single payload inBounds]
      have table : ((payload.drop 5).drop 4).drop 1 = payload.drop 10 := by
        rw [List.drop_drop, List.drop_drop]
      simp only [magic, base, count, table, Option.bind_some, List.drop_zero, Nat.sub_zero,
        Nat.reduceAdd, List.getElem?_eq_getElem inBounds, Option.map_some, List.length_drop]
      apply ite_some
      intro _
      apply ite_some
      intro _
      apply ite_some
      intro size
      have truncated : payload.length < 10 + payload[9].toNat * 2 ↔
          payload.length - 10 < payload[9].toNat * 2 := by omega
      rw [if_congr truncated rfl rfl]
      apply ite_some
      intro fits
      have end_le : 10 + payload[9].toNat * 2 ≤ payload.length := by omega
      have nonempty : readLengths payload[9].toNat (payload.drop 10) ≠ [] := by
        intro empty
        have counted := length_readLengths payload[9].toNat (payload.drop 10)
        rw [empty, List.length_nil] at counted
        omega
      simp only [readLengthsChecked_eq end_le, sliceFrom_of_le end_le, Option.bind_some,
        max?_eq_foldr nonempty, Option.map_some, List.drop_drop, List.length_drop]
      rw [apply_ite some, Nat.sub_sub]

end Irohsion.Protocol
