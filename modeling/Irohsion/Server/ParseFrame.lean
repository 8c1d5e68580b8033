import Irohsion.Protocol.WireFormats
import Irohsion.Server.ReorderState

/-! # Received datagrams

`parse_frame` splits the accepted datagrams into the encodings of media packets
and those of FEC frames, and gives back what was encoded.
-/

namespace Irohsion.Server

open Protocol

variable {data : Bytes} {remote : String} {connectionId : Nat}

theorem parseFrame_of_error {error : DecodeError} (decoded : decodePacket data = .error error) :
    parseFrame data remote connectionId = .error (.packet error) := by
  rw [parseFrame]
  split
  · rename_i found
    cases found.symm.trans decoded
    rfl
  · rename_i found
    cases found.symm.trans decoded

theorem parseFrame_of_media {header : PacketHeader} {payload : Bytes} (valid : header.Valid)
    (media : header.sequence ≤ maxMediaSequence)
    (decoded : decodePacket data = .ok ⟨header, payload⟩) :
    parseFrame data remote connectionId =
      .ok (.packet ⟨remote, connectionId, header, payload, valid, media⟩) := by
  have notFec : header.sequence ≠ fecSequence :=
    Nat.ne_of_lt (Nat.lt_of_le_of_lt media maxMediaSequence_lt_fecSequence)
  rw [parseFrame]
  split
  · rename_i found
    cases found.symm.trans decoded
  · rename_i found
    cases found.symm.trans decoded
    rw [dif_neg notFec]

/-- A packet with the reserved sequence is left to `decode_fec_frame`. -/
theorem parseFrame_of_reserved {header : PacketHeader} {payload : Bytes}
    (reserved : header.sequence = fecSequence)
    (decoded : decodePacket data = .ok ⟨header, payload⟩) :
    (∃ error, decodeFecFrame data = .error error ∧
      parseFrame data remote connectionId = .error (.fec error)) ∨
    ∃ frame valid, decodeFecFrame data = .ok frame ∧
      parseFrame data remote connectionId = .ok (.fec ⟨remote, frame, valid⟩) := by
  rw [parseFrame]
  split
  · rename_i found
    cases found.symm.trans decoded
  · rename_i found
    cases found.symm.trans decoded
    rw [dif_pos reserved]
    split
    · rename_i error fecDecoded
      exact Or.inl ⟨error, fecDecoded, rfl⟩
    · rename_i frame fecDecoded
      exact Or.inr ⟨frame, valid_of_decodeFecFrame fecDecoded, fecDecoded, rfl⟩

theorem decodePacket_cases (data : Bytes) :
    (∃ error, decodePacket data = .error error) ∨
      ∃ header payload, header.Valid ∧ decodePacket data = .ok ⟨header, payload⟩ := by
  cases decoded : decodePacket data with
  | error error => exact Or.inl ⟨error, rfl⟩
  | ok packet =>
      exact Or.inr ⟨packet.header, packet.payload, valid_of_decodePacket decoded, rfl⟩

theorem parseFrame_eq_packet_iff {packet : ReceivedPacket} :
    parseFrame data remote connectionId = .ok (.packet packet) ↔
      packet.remote = remote ∧ packet.connectionId = connectionId ∧
        encodePacket packet.header packet.payload = some data := by
  rw [← decodePacket_eq_ok_iff]
  constructor
  · intro parsed
    rcases decodePacket_cases data with ⟨error, decoded⟩ | ⟨header, payload, valid, decoded⟩
    · cases (parseFrame_of_error decoded).symm.trans parsed
    · by_cases reserved : header.sequence = fecSequence
      · rcases @parseFrame_of_reserved data remote connectionId _ _ reserved decoded with
          ⟨_, _, outcome⟩ | ⟨_, _, _, outcome⟩
        · cases outcome.symm.trans parsed
        · cases outcome.symm.trans parsed
      · have media := media_of_ne_fecSequence valid reserved
        cases (parseFrame_of_media valid media decoded).symm.trans parsed
        exact ⟨rfl, rfl, decoded⟩
  · intro received
    rcases packet with ⟨packetRemote, packetConnection, header, payload, valid, media⟩
    rcases received with ⟨rfl, rfl, decoded⟩
    exact parseFrame_of_media valid media decoded

theorem parseFrame_eq_fec_iff {fec : ReceivedFecFrame} :
    parseFrame data remote connectionId = .ok (.fec fec) ↔
      fec.remote = remote ∧ encodeFecFrame fec.frame = some data := by
  rw [← decodeFecFrame_eq_ok_iff]
  constructor
  · intro parsed
    rcases decodePacket_cases data with ⟨error, decoded⟩ | ⟨header, payload, valid, decoded⟩
    · cases (parseFrame_of_error decoded).symm.trans parsed
    · by_cases reserved : header.sequence = fecSequence
      · rcases @parseFrame_of_reserved data remote connectionId _ _ reserved decoded with
          ⟨_, _, outcome⟩ | ⟨_, _, fecDecoded, outcome⟩
        · cases outcome.symm.trans parsed
        · cases outcome.symm.trans parsed
          exact ⟨rfl, fecDecoded⟩
      · have media := media_of_ne_fecSequence valid reserved
        cases (parseFrame_of_media valid media decoded).symm.trans parsed
  · intro received
    rcases fec with ⟨fecRemote, frame, valid⟩
    rcases received with ⟨rfl, fecDecoded⟩
    have decoded := fecFramePayload_of_decodeFecFrame fecDecoded
    rcases @parseFrame_of_reserved data fecRemote connectionId _ _ rfl decoded with
      ⟨_, failed, _⟩ | ⟨_, _, found, outcome⟩
    · cases failed.symm.trans fecDecoded
    · cases found.symm.trans fecDecoded
      exact outcome

theorem parseFrame_eq_error_iff :
    (∃ error, parseFrame data remote connectionId = .error error) ↔
      (∀ header payload, header.sequence ≤ maxMediaSequence →
        encodePacket header payload ≠ some data) ∧
      ∀ frame, encodeFecFrame frame ≠ some data := by
  cases parsed : parseFrame data remote connectionId with
  | error error =>
      refine iff_of_true ⟨error, rfl⟩ ⟨?_, ?_⟩
      · intro header payload media encoded
        have decoded := decodePacket_eq_ok_iff.mpr encoded
        have valid : header.Valid := valid_of_decodePacket decoded
        cases (parseFrame_of_media valid media decoded).symm.trans parsed
      · intro frame encoded
        have valid := valid_of_decodeFecFrame (decodeFecFrame_eq_ok_iff.mpr encoded)
        have accepted := @parseFrame_eq_fec_iff data remote connectionId ⟨remote, frame, valid⟩
        cases (accepted.mpr ⟨rfl, encoded⟩).symm.trans parsed
  | ok frame =>
      refine iff_of_false (fun failed => nomatch failed.choose_spec) ?_
      intro rejected
      cases frame with
      | packet packet =>
          exact rejected.1 _ _ packet.media (parseFrame_eq_packet_iff.mp parsed).2.2
      | fec fec => exact rejected.2 _ (parseFrame_eq_fec_iff.mp parsed).2

/-- Decoding and encoding are inverse to each other, and `parse_frame` accepts
exactly the encodings of media packets and of FEC frames. -/
theorem wireFormats_exact :
    (∀ (header : PacketHeader) (payload : Bytes), header.Valid →
      (encodePacket header payload).map decodePacket = some (.ok ⟨header, payload⟩)) ∧
    (∀ (data : Bytes) (packet : DecodedPacket), decodePacket data = .ok packet →
      encodePacket packet.header packet.payload = some data) ∧
    (∀ frame : FecFrame, frame.Valid →
      (encodeFecFrame frame).map decodeFecFrame = some (.ok frame)) ∧
    (∀ (data : Bytes) (frame : FecFrame), decodeFecFrame data = .ok frame →
      encodeFecFrame frame = some data) ∧
    ∀ (data : Bytes) (remote : String) (connectionId : Nat),
      (∀ packet, parseFrame data remote connectionId = .ok (.packet packet) ↔
        packet.remote = remote ∧ packet.connectionId = connectionId ∧
          encodePacket packet.header packet.payload = some data) ∧
      (∀ fec, parseFrame data remote connectionId = .ok (.fec fec) ↔
        fec.remote = remote ∧ encodeFecFrame fec.frame = some data) ∧
      ((∃ error, parseFrame data remote connectionId = .error error) ↔
        (∀ header payload, header.sequence ≤ maxMediaSequence →
          encodePacket header payload ≠ some data) ∧
        ∀ frame, encodeFecFrame frame ≠ some data) := by
  refine ⟨?_, ?_, ?_, ?_, ?_⟩
  · intro header payload valid
    rw [encodePacket_of_valid valid, Option.map_some, decodePacket_packetBytes valid]
  · intro data packet decoded
    exact decodePacket_eq_ok_iff.mp decoded
  · intro frame valid
    rw [encodeFecFrame_of_valid valid, Option.map_some, decodeFecFrame_packetBytes valid]
  · intro data frame decoded
    exact decodeFecFrame_eq_ok_iff.mp decoded
  · intro data remote connectionId
    exact ⟨fun _ => parseFrame_eq_packet_iff, fun _ => parseFrame_eq_fec_iff,
      parseFrame_eq_error_iff⟩

end Irohsion.Server
