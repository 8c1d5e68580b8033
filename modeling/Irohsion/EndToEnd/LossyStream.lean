import Irohsion.Client.ParityGroups
import Irohsion.EndToEnd.StreamDelivery
import Irohsion.Server.LossyDelivery

/-! # The stream over a network that loses packets

The parity frames of a sender cover different positions, so the store of the server
has room for those that count. What they give back in time is not missed at the
UDP destination.
-/

namespace Irohsion.EndToEnd

open Protocol Client Server

variable {sender : ClientState} {shipments : List Shipment} {inputs : List TimedInput}
variable {frame other : FecFrame} {first width gap : Nat}

/-! ## The frames that arrive -/

/-- Before the sequences repeat, they increase. -/
theorem ingestedSources_increasing (shipped : Shipped shipments sender)
    (few : shipments.length ≤ maxMediaSequence) :
    (ingestedSources sender.trace).Pairwise fun earlier later =>
      earlier.sequence < later.sequence := by
  rw [ingestedSources, ← stream_eq_ingested shipped few, stream, List.map_map, List.pairwise_map]
  exact List.pairwise_lt_range

/-- What carries content is no parity frame. -/
theorem not_parity_of_carries {content : Content} {sequence connectionId : Nat} {datagram : Bytes}
    {remote : String} (media : sequence ≤ maxMediaSequence)
    (few : (content.parts sequence).length ≤ maxFragments)
    (carries : content.Carries sequence datagram) (fec : ReceivedFecFrame) :
    parseFrame datagram remote connectionId ≠ .ok (.fec fec) := by
  intro parsed
  rcases carries with rfl | part
  · have valid := fragment_valid (le_maxSequence media) Nat.zero_lt_one one_le_maxFragments
    cases (parseFrame_of_media valid media (decodePacket_packetBytes valid _)).symm.trans parsed
  · rcases List.getElem?_of_mem part with ⟨index, found⟩
    have receives : Receives datagram ⟨0, .frame (.fec fec)⟩ :=
      ⟨remote, connectionId, _, parsed, rfl⟩
    rcases receives_part media few found receives with ⟨packet, input, -⟩
    cases input

/-- A parity frame arrives as the sender has encoded it. -/
theorem encoded_of_arrived (shipped : Shipped shipments sender)
    (few : shipments.length ≤ maxMediaSequence) (network : FromSender sender.trace inputs)
    (arrived : ParityArrived inputs frame) :
    ∃ path datagram, (path, datagram) ∈ paritySends sender.trace ∧
      encodeFecFrame frame = some datagram := by
  have consistent := shipped.consistent (Nat.le_succ_of_le few)
  rcases arrived with ⟨timed, member, fec, received, rfl⟩
  rcases network timed member _ received with
    ⟨datagram, remote, connectionId, ⟨path, packet | parity⟩, parsed⟩
  · rcases consistent.sent path datagram packet with ⟨sequence, used, carries⟩
    have media : sequence ≤ maxMediaSequence :=
      Nat.le_trans (Nat.le_of_lt (lt_of_mem_usedSequences shipped few used)) few
    exact absurd parsed (not_parity_of_carries media (consistent.few sequence) carries fec)
  · exact ⟨path, datagram, mem_paritySends.mpr parity, (parseFrame_eq_fec_iff.mp parsed).2⟩

/-- The store has room for frames of a sender whose groups are not small. -/
structure Sized (first width gap : Nat) (inputs : List TimedInput) : Prop where
  near : ∀ frame, ParityArrived inputs frame → first < frame.baseSequence + width
  long : ∀ frame, ParityArrived inputs frame → gap ≤ frame.payloadLengths.length
  room : width + maxFecGroupPackets ≤ 127 * gap

theorem Sized.grouped (sized : Sized first width gap inputs) {paths : List PathConnection}
    (groups : GroupsApart paths sender) (shipped : Shipped shipments sender)
    (few : shipments.length ≤ maxMediaSequence)
    (network : FromSender sender.trace inputs) : Grouped first width gap inputs where
  near := sized.near
  room := sized.room
  spaced frame other parity otherParity := by
    rcases encoded_of_arrived shipped few network parity with ⟨path, datagram, sent, encoded⟩
    rcases encoded_of_arrived shipped few network otherParity with
      ⟨otherPath, otherDatagram, otherSent, otherEncoded⟩
    rcases groups.frames_apart (ingestedSources_increasing shipped few) with
      ⟨frames, apart, covers⟩
    rcases covers (path, datagram) sent with ⟨known, member, same⟩
    rcases covers (otherPath, otherDatagram) otherSent with ⟨otherKnown, otherMember, otherSame⟩
    have long := sized.long frame parity
    have otherLong := sized.long other otherParity
    rw [← decodeFecFrame_eq_ok_iff] at encoded same otherEncoded otherSame
    cases encoded.symm.trans same
    cases otherEncoded.symm.trans otherSame
    refine (apart frame member other otherMember).imp_right (Or.imp ?_ ?_)
    · exact fun ends => Nat.le_trans (Nat.add_le_add_left long _) ends
    · exact fun ends => Nat.le_trans (Nat.add_le_add_left otherLong _) ends

/-! ## What is mended -/

variable {Rate Weight : Type} [Measure Rate] [Measure Weight] [Widen Rate Weight]
variable [WeightShare Weight]

end Irohsion.EndToEnd
