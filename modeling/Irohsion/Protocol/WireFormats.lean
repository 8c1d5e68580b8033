import Irohsion.Protocol.FecFrame

/-! # Exact wire formats

The decoders accept exactly the bytes that the encoders produce, and give back
what was encoded. So each format is a bijection between its valid values and
the accepted byte strings.
-/

namespace Irohsion.Protocol

/-! ## Packets -/

/-- The header word is made up of its three fields. -/
theorem packedHeaderTail_fields {tail : Nat} (word : tail < 256 ^ headerLen) :
    packedHeaderTail ⟨tail % 2 ^ 26, tail / 2 ^ 26 % 2 ^ 3, tail / 2 ^ 29 % 2 ^ 3⟩ = tail := by
  simp only [headerLen] at word
  simp only [packedHeaderTail]
  omega

theorem packetBytes_of_decodePacket {data : Bytes} {header : PacketHeader} {payload : Bytes}
    (decoded : decodePacket data = .ok ⟨header, payload⟩) : packetBytes header payload = data := by
  rw [decodePacket] at decoded
  split at decoded
  · cases decoded
  · rename_i enough
    dsimp only at decoded
    split at decoded
    · cases decoded
    · cases decoded
      have long : headerLen ≤ data.length := Nat.le_of_not_lt enough
      have word := ofLittleEndian_lt (data.take headerLen)
      rw [List.length_take_of_le long] at word
      rw [packetBytes, packedHeaderTail_fields word, littleEndian_ofLittleEndian_take long,
        List.take_append_drop]

theorem decodePacket_eq_ok_iff {data : Bytes} {header : PacketHeader} {payload : Bytes} :
    decodePacket data = .ok ⟨header, payload⟩ ↔ encodePacket header payload = some data := by
  constructor
  · intro decoded
    have valid : header.Valid := valid_of_decodePacket decoded
    rw [encodePacket_of_valid valid, packetBytes_of_decodePacket decoded]
  · intro encoded
    rw [encodePacket] at encoded
    split at encoded
    · rename_i valid
      cases encoded
      exact decodePacket_packetBytes valid payload
    · cases encoded

/-! ## FEC frames -/

/-- The table of lengths is read back entry by entry. -/
theorem flatMap_readLengths : ∀ {count : Nat} {data : Bytes}, count * 2 ≤ data.length →
    (readLengths count data).flatMap (littleEndian 2) = data.take (count * 2)
  | 0, data, _ => by rw [Nat.zero_mul, List.take_zero, readLengths, List.flatMap_nil]
  | count + 1, data, enough => by
      have two : 2 ≤ data.length := by omega
      have rest : count * 2 ≤ (data.drop 2).length := by
        rw [List.length_drop]
        omega
      rw [readLengths, List.flatMap_cons, littleEndian_ofLittleEndian_take two,
        flatMap_readLengths rest, Nat.succ_mul, Nat.add_comm, List.take_add]

/-- A field is cut off the front of the bytes. -/
theorem eq_field_append {width : Nat} {data : Bytes} (enough : width ≤ data.length) :
    data = littleEndian width (ofLittleEndian (data.take width)) ++ data.drop width := by
  rw [littleEndian_ofLittleEndian_take enough, List.take_append_drop]

theorem fecFramePayload_of_decodeFecFrame {data : Bytes} {frame : FecFrame}
    (decoded : decodeFecFrame data = .ok frame) :
    decodePacket data = .ok ⟨fecHeader, fecFramePayload frame⟩ := by
  rw [decodeFecFrame] at decoded
  split at decoded
  · cases decoded
  · rename_i header payload outer
    dsimp only at decoded
    split at decoded
    · cases decoded
    · rename_i sameHeader
      split at decoded
      · cases decoded
      · rename_i long
        split at decoded
        · cases decoded
        · rename_i sameMagic
          split at decoded
          · cases decoded
          · split at decoded
            · cases decoded
            · split at decoded
              · cases decoded
              · rename_i tableFits
                split at decoded
                · cases decoded
                · cases decoded
                  rw [not_not] at sameHeader sameMagic
                  have length : fecMagic.length = 5 := rfl
                  rw [length] at long sameMagic tableFits ⊢
                  have base : 4 ≤ (payload.drop 5).length := by
                    rw [List.length_drop]
                    omega
                  have count : 1 ≤ ((payload.drop 5).drop 4).length := by
                    rw [List.length_drop, List.length_drop]
                    omega
                  have table := flatMap_readLengths (Nat.le_of_not_lt tableFits)
                  rw [outer, sameHeader, fecFramePayload]
                  dsimp only
                  rw [length_readLengths, table, List.take_append_drop,
                    ← eq_field_append count, ← eq_field_append base, ← sameMagic,
                    List.take_append_drop]

theorem decodeFecFrame_eq_ok_iff {data : Bytes} {frame : FecFrame} :
    decodeFecFrame data = .ok frame ↔ encodeFecFrame frame = some data := by
  constructor
  · intro decoded
    rw [encodeFecFrame, if_pos (valid_of_decodeFecFrame decoded)]
    exact decodePacket_eq_ok_iff.mp (fecFramePayload_of_decodeFecFrame decoded)
  · exact decodeFecFrame_of_encodeFecFrame

/-- A FEC frame is a packet with the reserved sequence. -/
theorem decodePacket_of_encodeFecFrame {data : Bytes} {frame : FecFrame}
    (encoded : encodeFecFrame frame = some data) :
    decodePacket data = .ok ⟨fecHeader, fecFramePayload frame⟩ :=
  fecFramePayload_of_decodeFecFrame (decodeFecFrame_eq_ok_iff.mpr encoded)

end Irohsion.Protocol
