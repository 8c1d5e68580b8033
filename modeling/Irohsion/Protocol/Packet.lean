import Irohsion.Foundation.LittleEndian
import Irohsion.Protocol.Sequence

/-! # Packets on the wire

Every datagram starts with a packed 32-bit header tail: 26 bits of sequence,
3 bits of fragment index and 3 bits of fragment count, least significant bits
first, stored little-endian. Encoding returns `none` where the source asserts.
-/

namespace Irohsion.Protocol

def headerLen : Nat := 4

def maxFragments : Nat := 7

theorem one_le_maxFragments : 1 ≤ maxFragments := by decide

structure PacketHeader where
  sequence : Nat
  fragment : Nat
  fragments : Nat
  deriving DecidableEq, Repr

/-- The conditions under which `encodePacket` does not panic: the asserted
ones and the ranges of the packed fields. -/
def PacketHeader.Valid (header : PacketHeader) : Prop :=
  header.sequence ≤ maxSequence ∧ header.fragment < header.fragments ∧
    header.fragments ≤ maxFragments

instance PacketHeader.decidableValid (header : PacketHeader) :
    Decidable header.Valid :=
  inferInstanceAs (Decidable (_ ∧ _ ∧ _))

/-- `PackedHeaderTail` as its 32-bit word. -/
def packedHeaderTail (header : PacketHeader) : Nat :=
  header.sequence + 2 ^ 26 * (header.fragment + 2 ^ 3 * header.fragments)

structure DecodedPacket where
  header : PacketHeader
  payload : Bytes
  deriving DecidableEq, Repr

inductive DecodeError
  | tooShort (actual : Nat)
  | invalidFragment (fragment fragments : Nat)
  deriving DecidableEq, Repr

/-- The bytes that `encode_packet` builds once its assertions have passed. -/
def packetBytes (header : PacketHeader) (payload : Bytes) : Bytes :=
  littleEndian headerLen (packedHeaderTail header) ++ payload

def encodePacket (header : PacketHeader) (payload : Bytes) : Option Bytes :=
  if header.Valid then some (packetBytes header payload) else none

def decodePacket (data : Bytes) : Except DecodeError DecodedPacket :=
  if data.length < headerLen then
    .error (.tooShort data.length)
  else
    let tail := ofLittleEndian (data.take headerLen)
    let sequence := tail % 2 ^ 26
    let fragment := tail / 2 ^ 26 % 2 ^ 3
    let fragments := tail / 2 ^ 29 % 2 ^ 3
    if fragments = 0 ∨ fragments ≤ fragment then
      .error (.invalidFragment fragment fragments)
    else
      .ok ⟨⟨sequence, fragment, fragments⟩, data.drop headerLen⟩

theorem encodePacket_of_valid {header : PacketHeader} (valid : header.Valid)
    (payload : Bytes) : encodePacket header payload = some (packetBytes header payload) :=
  if_pos valid

/-! ## Parts of a payload -/

/-- The packets of all parts, in order. -/
def partPackets (sequence : Nat) (parts : List Bytes) : List Bytes :=
  parts.mapIdx fun index part => packetBytes ⟨sequence, index, parts.length⟩ part

theorem fragment_valid {sequence index count : Nat} (inRange : sequence ≤ maxSequence)
    (bound : index < count) (few : count ≤ maxFragments) :
    PacketHeader.Valid ⟨sequence, index, count⟩ :=
  ⟨inRange, bound, few⟩

/-! ## Decoding what was encoded -/

theorem packedHeaderTail_lt {header : PacketHeader} (valid : header.Valid) :
    packedHeaderTail header < 256 ^ headerLen := by
  rcases valid with ⟨sequence, fragment, fragments⟩
  simp only [packedHeaderTail, headerLen, maxSequence, maxFragments] at *
  omega

theorem decodePacket_packetBytes {header : PacketHeader} (valid : header.Valid)
    (payload : Bytes) :
    decodePacket (packetBytes header payload) = .ok ⟨header, payload⟩ := by
  have tail : ofLittleEndian ((packetBytes header payload).take headerLen) =
      packedHeaderTail header := by
    rw [packetBytes, List.take_left' (length_littleEndian _ _)]
    exact ofLittleEndian_littleEndian_of_lt (packedHeaderTail_lt valid)
  have rest : (packetBytes header payload).drop headerLen = payload :=
    List.drop_left' (length_littleEndian _ _)
  have longEnough : ¬ (packetBytes header payload).length < headerLen := by
    simp [packetBytes]
  rcases header with ⟨sequence, fragment, fragments⟩
  rcases valid with ⟨sequenceBound, fragmentBound, fragmentsBound⟩
  simp only [maxSequence, maxFragments] at sequenceBound fragmentBound fragmentsBound
  have sequenceField : packedHeaderTail ⟨sequence, fragment, fragments⟩ % 2 ^ 26 = sequence := by
    simp only [packedHeaderTail]
    omega
  have fragmentField :
      packedHeaderTail ⟨sequence, fragment, fragments⟩ / 2 ^ 26 % 2 ^ 3 = fragment := by
    simp only [packedHeaderTail]
    omega
  have fragmentsField :
      packedHeaderTail ⟨sequence, fragment, fragments⟩ / 2 ^ 29 % 2 ^ 3 = fragments := by
    simp only [packedHeaderTail]
    omega
  have accepted : ¬ (fragments = 0 ∨ fragments ≤ fragment) := by omega
  simp only [decodePacket, if_neg longEnough, tail, rest, sequenceField, fragmentField,
    fragmentsField, if_neg accepted]

/-- What `decodePacket` accepts has a header that can be encoded. -/
theorem valid_of_decodePacket {data : Bytes} {packet : DecodedPacket}
    (decoded : decodePacket data = .ok packet) : packet.header.Valid := by
  rw [decodePacket] at decoded
  split at decoded
  · cases decoded
  · dsimp only at decoded
    split at decoded
    · cases decoded
    · rename_i accepted
      cases decoded
      refine ⟨?_, ?_, ?_⟩ <;> simp only [maxSequence, maxFragments] <;> omega

end Irohsion.Protocol
