import Irohsion.Protocol.Packet

/-! # Repair requests on the wire

A repair request names a sequence and a mask of missing fragments.
-/

namespace Irohsion.Protocol

def repairRequestLen : Nat := 5

def repairAllFragmentsMask : Nat := 1 <<< maxFragments - 1

structure RepairRequest where
  sequence : Nat
  missingMask : Nat
  deriving DecidableEq, Repr

/-- `missing_mask & !REPAIR_ALL_FRAGMENTS_MASK` on a byte. -/
def maskOutsideFragments (missingMask : Nat) : Nat :=
  missingMask &&& (0xff ^^^ repairAllFragmentsMask)

/-- The assertions of `encode_repair_request`. -/
def RepairRequest.Valid (request : RepairRequest) : Prop :=
  request.sequence ≤ maxSequence ∧
    (request.missingMask ≠ 0 ∧ maskOutsideFragments request.missingMask = 0)

instance RepairRequest.decidableValid (request : RepairRequest) :
    Decidable request.Valid :=
  inferInstanceAs (Decidable (_ ∧ _ ∧ _))

def encodeRepairRequest (request : RepairRequest) : Option Bytes :=
  if request.Valid then
    some (littleEndian 4 request.sequence ++ [UInt8.ofNat request.missingMask])
  else none

inductive RepairDecodeError
  | invalidLength (actual : Nat)
  | invalidSequence (sequence : Nat)
  | invalidMissingMask (missingMask : Nat)
  deriving DecidableEq, Repr

def decodeRepairRequest (data : Bytes) : Except RepairDecodeError RepairRequest :=
  if data.length ≠ repairRequestLen then
    .error (.invalidLength data.length)
  else
    let sequence := ofLittleEndian (data.take 4)
    let missingMask := ofLittleEndian (data.drop 4)
    if maxSequence < sequence then
      .error (.invalidSequence sequence)
    else if missingMask = 0 ∨ maskOutsideFragments missingMask ≠ 0 then
      .error (.invalidMissingMask missingMask)
    else
      .ok ⟨sequence, missingMask⟩

theorem maskOutsideFragments_eq_zero {missingMask : Nat}
    (bounded : missingMask ≤ repairAllFragmentsMask) : maskOutsideFragments missingMask = 0 := by
  have cap : missingMask < 2 ^ 7 := Nat.lt_succ_of_le bounded
  apply Nat.eq_of_testBit_eq
  intro bit
  have outside : (0xff ^^^ repairAllFragmentsMask) = 2 ^ 7 := by decide
  rw [maskOutsideFragments, outside, Nat.testBit_and, Nat.testBit_two_pow, Nat.zero_testBit]
  by_cases high : 7 = bit
  · subst high
    rw [Nat.testBit_lt_two_pow cap, Bool.false_and]
  · simp [high]

/-- Decoding gives back a valid request, whose mask is a byte. -/
theorem decodeRepairRequest_encodeRepairRequest {request : RepairRequest} (valid : request.Valid)
    (byte : request.missingMask < 2 ^ 8) :
    ∃ data, encodeRepairRequest request = some data ∧ decodeRepairRequest data = .ok request := by
  refine ⟨_, if_pos valid, ?_⟩
  rcases request with ⟨sequence, missingMask⟩
  rcases valid with ⟨sequenceBound, someFragment, noOther⟩
  have word : sequence < 256 ^ 4 := Nat.lt_of_le_of_lt sequenceBound (by decide)
  have length : (littleEndian 4 sequence ++ [UInt8.ofNat missingMask]).length =
      repairRequestLen := by
    rw [List.length_append, length_littleEndian]
    rfl
  have sequenceField : ofLittleEndian
      ((littleEndian 4 sequence ++ [UInt8.ofNat missingMask]).take 4) = sequence := by
    rw [List.take_left' (length_littleEndian _ _), ofLittleEndian_littleEndian_of_lt word]
  have maskField : ofLittleEndian
      ((littleEndian 4 sequence ++ [UInt8.ofNat missingMask]).drop 4) = missingMask := by
    rw [List.drop_left' (length_littleEndian _ _), ofLittleEndian, ofLittleEndian,
      UInt8.toNat_ofNat', Nat.mod_eq_of_lt byte]
    rfl
  have accepted : ¬ (missingMask = 0 ∨ maskOutsideFragments missingMask ≠ 0) := by
    rw [not_or, not_not]
    exact ⟨someFragment, noOther⟩
  simp only [decodeRepairRequest, length, sequenceField, maskField, ne_eq, not_true_eq_false,
    if_false, if_neg (Nat.not_lt.mpr sequenceBound)]
  exact if_neg accepted

end Irohsion.Protocol
