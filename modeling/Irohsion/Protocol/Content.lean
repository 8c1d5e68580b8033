import Irohsion.Foundation.Parity
import Irohsion.Protocol.FecFrame

/-! # Content of a stream

What packets and parity frames carry, when all of them agree on one payload for
each sequence and on one way to split it.
-/

namespace Irohsion.Protocol

/-- One payload for each sequence, with one fixed way to split it. -/
structure Content where
  payload : Nat → Bytes
  parts : Nat → List Bytes
  flatten_parts : ∀ sequence, (parts sequence).flatten = payload sequence

namespace Content

variable (content : Content)

/-- The packet carries the payload of the sequence, or a part of it. -/
def Carries (sequence : Nat) (packet : Bytes) : Prop :=
  packet = packetBytes ⟨sequence, 0, 1⟩ (content.payload sequence) ∨
    packet ∈ partPackets sequence (content.parts sequence)

/-- The payloads of `count` consecutive sequences, from member `index` on. -/
def members (baseSequence index count : Nat) : List Bytes :=
  (List.range' index count).map fun offset => content.payload (sequenceAfter baseSequence offset)

/-- A parity frame over consecutive sequences. -/
def Covers (frame : FecFrame) : Prop :=
  frame.payloadLengths =
      (content.members frame.baseSequence 0 frame.payloadLengths.length).map List.length ∧
    frame.parity =
      Parity.parityOf (content.members frame.baseSequence 0 frame.payloadLengths.length)

theorem members_add (baseSequence index front back : Nat) :
    content.members baseSequence index (front + back) =
      content.members baseSequence index front ++
        content.members baseSequence (index + front) back := by
  rw [members, ← List.range'_append_1, List.map_append]
  rfl

theorem members_succ (baseSequence index count : Nat) :
    content.members baseSequence index (count + 1) =
      content.payload (sequenceAfter baseSequence index) ::
        content.members baseSequence (index + 1) count := rfl

end Content

end Irohsion.Protocol
