import Irohsion.Protocol.Packet

/-! # FEC frames on the wire

A FEC frame travels as a packet with the reserved sequence number. Its payload
is a magic word, the base sequence, the group size, one 16-bit length for each
member and the parity bytes.
-/

namespace Irohsion.Protocol

def maxFecGroupPackets : Nat := 32

/-- `b"IFEC1"`. -/
def fecMagic : Bytes := [0x49, 0x46, 0x45, 0x43, 0x31]

structure FecFrame where
  baseSequence : Nat
  payloadLengths : List Nat
  parity : Bytes
  deriving DecidableEq, Repr

/-- The assertions of `encode_fec_frame`. -/
def FecFrame.Valid (frame : FecFrame) : Prop :=
  frame.baseSequence ≤ maxMediaSequence ∧
    (0 < frame.payloadLengths.length ∧ frame.payloadLengths.length ≤ maxFecGroupPackets) ∧
    ∀ length ∈ frame.payloadLengths, length < 2 ^ 16 ∧ length ≤ frame.parity.length

instance FecFrame.decidableValid (frame : FecFrame) : Decidable frame.Valid :=
  inferInstanceAs (Decidable (_ ∧ (_ ∧ _) ∧ _))

inductive FecDecodeError
  | invalidPacket (error : DecodeError)
  | invalidHeader (header : PacketHeader)
  | tooShort (actual : Nat)
  | invalidMagic
  | invalidBaseSequence (sequence : Nat)
  | invalidGroupSize (count : Nat)
  | invalidPayloadLength (length : Nat)
  deriving DecidableEq, Repr

def fecHeader : PacketHeader := ⟨fecSequence, 0, 1⟩

theorem fecHeader_valid : fecHeader.Valid := by decide

def fecFramePayload (frame : FecFrame) : Bytes :=
  fecMagic ++ (littleEndian 4 frame.baseSequence ++
    (littleEndian 1 frame.payloadLengths.length ++
      (frame.payloadLengths.flatMap (littleEndian 2) ++ frame.parity)))

def encodeFecFrame (frame : FecFrame) : Option Bytes :=
  if frame.Valid then encodePacket fecHeader (fecFramePayload frame) else none

/-- The loop of `decode_fec_frame` over the table of lengths. -/
def readLengths : (count : Nat) → Bytes → List Nat
  | 0, _ => []
  | count + 1, data => ofLittleEndian (data.take 2) :: readLengths count (data.drop 2)

def decodeFecFrame (data : Bytes) : Except FecDecodeError FecFrame :=
  match decodePacket data with
  | .error error => .error (.invalidPacket error)
  | .ok ⟨header, payload⟩ =>
      if header ≠ fecHeader then .error (.invalidHeader header)
      else if payload.length < fecMagic.length + 4 + 1 then .error (.tooShort payload.length)
      else if payload.take fecMagic.length ≠ fecMagic then .error .invalidMagic
      else
        let afterMagic := payload.drop fecMagic.length
        let baseSequence := ofLittleEndian (afterMagic.take 4)
        let afterBase := afterMagic.drop 4
        let count := ofLittleEndian (afterBase.take 1)
        let table := afterBase.drop 1
        if maxMediaSequence < baseSequence then .error (.invalidBaseSequence baseSequence)
        else if count = 0 ∨ maxFecGroupPackets < count then .error (.invalidGroupSize count)
        else if table.length < count * 2 then .error (.tooShort payload.length)
        else
          let payloadLengths := readLengths count table
          let parity := table.drop (count * 2)
          if payloadLengths.any (parity.length < ·) then
            .error (.invalidPayloadLength (payloadLengths.foldr max 0))
          else .ok ⟨baseSequence, payloadLengths, parity⟩

theorem length_flatMap_littleEndian (width : Nat) (values : List Nat) :
    (values.flatMap (littleEndian width)).length = values.length * width := by
  induction values with
  | nil => simp
  | cons head tail induction => simp [induction, Nat.succ_mul, Nat.add_comm]

theorem readLengths_flatMap {values : List Nat} (fits : ∀ value ∈ values, value < 2 ^ 16)
    (rest : Bytes) :
    readLengths values.length (values.flatMap (littleEndian 2) ++ rest) = values := by
  induction values with
  | nil => rfl
  | cons head tail induction =>
      have headFits : head < 256 ^ 2 := fits head (by simp)
      have tailFits : ∀ value ∈ tail, value < 2 ^ 16 :=
        fun value member => fits value (by simp [member])
      rw [List.flatMap_cons, List.append_assoc, List.length_cons, readLengths,
        List.take_left' (length_littleEndian 2 head),
        List.drop_left' (length_littleEndian 2 head),
        ofLittleEndian_littleEndian_of_lt headFits, induction tailFits]

theorem encodeFecFrame_of_valid {frame : FecFrame} (valid : frame.Valid) :
    encodeFecFrame frame = some (packetBytes fecHeader (fecFramePayload frame)) := by
  rw [encodeFecFrame, if_pos valid, encodePacket_of_valid fecHeader_valid]

theorem decodeFecFrame_packetBytes {frame : FecFrame} (valid : frame.Valid) :
    decodeFecFrame (packetBytes fecHeader (fecFramePayload frame)) = .ok frame := by
  rcases frame with ⟨baseSequence, payloadLengths, parity⟩
  rcases valid with ⟨baseBound, ⟨nonempty, groupBound⟩, lengths⟩
  dsimp only at baseBound nonempty groupBound lengths
  have base : ofLittleEndian (littleEndian 4 baseSequence) = baseSequence := by
    apply ofLittleEndian_littleEndian_of_lt
    have : maxMediaSequence < 256 ^ 4 := by decide
    omega
  have count : ofLittleEndian (littleEndian 1 payloadLengths.length) =
      payloadLengths.length := by
    apply ofLittleEndian_littleEndian_of_lt
    have : maxFecGroupPackets < 256 ^ 1 := by decide
    omega
  have tableLength := length_flatMap_littleEndian 2 payloadLengths
  have sizeAccepted : ¬ (payloadLengths.length = 0 ∨
      maxFecGroupPackets < payloadLengths.length) := by omega
  have lengthsAccepted : ¬ payloadLengths.any (parity.length < ·) = true := by
    simpa using fun length member => (lengths length member).2
  simp only [decodeFecFrame, decodePacket_packetBytes fecHeader_valid, fecFramePayload,
    ne_eq, not_true_eq_false, if_false, List.take_left, List.drop_left,
    List.take_left' (length_littleEndian 4 baseSequence),
    List.drop_left' (length_littleEndian 4 baseSequence),
    List.take_left' (length_littleEndian 1 payloadLengths.length),
    List.drop_left' (length_littleEndian 1 payloadLengths.length), base, count,
    if_neg (Nat.not_lt.mpr baseBound), if_neg sizeAccepted,
    readLengths_flatMap (fun length member => (lengths length member).1) parity,
    List.drop_left' tableLength, if_neg lengthsAccepted]
  rw [if_neg, if_neg]
  · simp [tableLength]
  · simp only [List.length_append, length_littleEndian]
    omega

/-- A FEC frame survives the wire. -/
theorem decodeFecFrame_of_encodeFecFrame {frame : FecFrame} {data : Bytes}
    (encoded : encodeFecFrame frame = some data) : decodeFecFrame data = .ok frame := by
  rw [encodeFecFrame] at encoded
  split at encoded
  · rename_i valid
    rw [encodePacket_of_valid fecHeader_valid] at encoded
    cases encoded
    exact decodeFecFrame_packetBytes valid
  · cases encoded

theorem length_readLengths : ∀ count data, (readLengths count data).length = count
  | 0, _ => rfl
  | count + 1, data => congrArg (· + 1) (length_readLengths count (data.drop 2))

theorem lt_of_mem_readLengths : ∀ {count data length},
    length ∈ readLengths count data → length < 2 ^ 16
  | 0, _, _, member => by cases member
  | count + 1, data, length, member => by
      rcases List.mem_cons.mp member with equal | member
      · have low := ofLittleEndian_lt (data.take 2)
        have short : (data.take 2).length ≤ 2 := List.length_take_le 2 data
        have cap : 256 ^ (data.take 2).length ≤ 256 ^ 2 := Nat.pow_le_pow_right (by omega) short
        omega
      · exact lt_of_mem_readLengths member

/-- What `decodeFecFrame` accepts satisfies the assertions of the encoder. -/
theorem valid_of_decodeFecFrame {data : Bytes} {frame : FecFrame}
    (decoded : decodeFecFrame data = .ok frame) : frame.Valid := by
  rw [decodeFecFrame] at decoded
  split at decoded
  · cases decoded
  · dsimp only at decoded
    repeat' split at decoded
    all_goals cases decoded
    rename_i base size _ lengths
    refine ⟨Nat.le_of_not_lt base, ?_, ?_⟩
    · simp only [length_readLengths]
      omega
    · intro length member
      refine ⟨lt_of_mem_readLengths member, Nat.le_of_not_lt fun longer => lengths ?_⟩
      exact List.any_eq_true.mpr ⟨length, member, decide_eq_true longer⟩

end Irohsion.Protocol
