import Irohsion.Protocol.RepairRequest
import Irohsion.Server.FecState
import Irohsion.Server.FragmentAssembly
import Irohsion.Server.RestartDetector

/-! # State, inputs and effects of the reorder loop -/

namespace Irohsion.Server

open Protocol Std

/-! ## Received frames

`parse_frame` only builds these from bytes that the decoders accept, so each
carries what the decoders check.
-/

structure ReceivedPacket where
  remote : String
  connectionId : Nat
  header : PacketHeader
  payload : Bytes
  valid : header.Valid
  media : header.sequence ≤ maxMediaSequence

/-- A packet that was not split. -/
def ReceivedPacket.whole (remote : String) (connectionId sequence : Nat) (payload : Bytes)
    (media : sequence ≤ maxMediaSequence) : ReceivedPacket where
  remote := remote
  connectionId := connectionId
  header := ⟨sequence, 0, 1⟩
  payload := payload
  valid := fragment_valid (le_maxSequence media) Nat.zero_lt_one one_le_maxFragments
  media := media

structure ReceivedFecFrame where
  remote : String
  frame : FecFrame
  valid : frame.Valid

inductive ReceivedFrame
  | packet (packet : ReceivedPacket)
  | fec (fec : ReceivedFecFrame)

/-- Why `parse_frame` rejects a datagram. -/
inductive ParseError
  | packet (error : DecodeError)
  | fec (error : FecDecodeError)
  deriving DecidableEq, Repr

theorem media_of_ne_fecSequence {header : PacketHeader} (valid : header.Valid)
    (media : header.sequence ≠ fecSequence) : header.sequence ≤ maxMediaSequence := by
  have bound : header.sequence ≤ fecSequence := valid.1
  have last : maxMediaSequence + 1 = fecSequence := by decide
  omega

def parseFrame (data : Bytes) (remote : String) (connectionId : Nat) :
    Except ParseError ReceivedFrame :=
  match decoded : decodePacket data with
  | .error error => .error (.packet error)
  | .ok ⟨header, payload⟩ =>
      if media : header.sequence = fecSequence then
        match fecDecoded : decodeFecFrame data with
        | .error error => .error (.fec error)
        | .ok frame => .ok (.fec ⟨remote, frame, valid_of_decodeFecFrame fecDecoded⟩)
      else
        have valid := valid_of_decodePacket decoded
        .ok (.packet ⟨remote, connectionId, header, payload, valid,
          media_of_ne_fecSequence valid media⟩)

/-! ## The loop variables -/

inductive SkipReason
  | neverReceived
  | fragmentIncomplete
  deriving DecidableEq, Repr

/-- The effects of the loop, in order: sends to the UDP destination, repair
requests, the classifications that it records, and the calls of
`accept_complete_payload`. A confirmed restart also names the buffered
payloads that it throws away. -/
inductive Effect
  | flowStart (sequence : Nat)
  | flowReset (sequence : Nat) (discarded : List (Nat × Bytes))
  | accept (sequence : Nat) (payload : Bytes)
  | forward (sequence : Nat) (payload : Bytes)
  | skip (sequence : Nat) (reason : SkipReason)
  | duplicate (sequence : Nat)
  | lateAfterSkip (sequence : Nat)
  | fecRecovered (sequence length : Nat)
  | repairRequest (request : RepairRequest)
  deriving DecidableEq, Repr

structure ReorderState where
  initialized : Bool
  nextSeq : Nat
  buffered : Buffered
  fragments : ExtTreeMap Nat FragmentAssembly
  seen : Finset Nat
  skippedSequences : RecentSkippedSequences
  gapRepairRequests : ExtTreeMap Nat Instant
  restartDetector : RestartDetector
  flowConnections : Finset Nat
  fecState : FecState
  replyRoutes : List String
  trace : List Effect

namespace ReorderState

/-- The variables at the start of `reorder_loop`. -/
def initial : ReorderState where
  initialized := false
  nextSeq := 0
  buffered := ∅
  fragments := ∅
  seen := ∅
  skippedSequences := .empty
  gapRepairRequests := ∅
  restartDetector := .cleared
  flowConnections := ∅
  fecState := .empty
  replyRoutes := []
  trace := []

/-- Append one effect. -/
def emit (effect : Effect) (state : ReorderState) : ReorderState :=
  { state with trace := state.trace ++ [effect] }

def setReplyRoutes (remote : String) (reset : Bool) (state : ReorderState) : ReorderState :=
  let routes := if reset then [] else state.replyRoutes
  { state with replyRoutes := if remote ∈ routes then routes else routes ++ [remote] }

def hasPendingState (state : ReorderState) : Bool :=
  !(state.buffered.isEmpty && state.fragments.isEmpty && decide (state.seen = ∅))

/-- The payloads in `buffered`, by sequence. -/
def heldPayloads (state : ReorderState) : List (Nat × Bytes) :=
  state.buffered.toList.map fun (sequence, packet) => (sequence, packet.payload)

end ReorderState

/-- The parameters of `reorder_loop`. Without a repair interval, repair is off. -/
structure ReorderConfig where
  repairRequestInterval : Option Duration
  flowIdleReset : Duration
  maxReorderDelay : Duration

end Irohsion.Server
