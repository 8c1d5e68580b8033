import Irohsion.Foundation.BreakLoop
import Irohsion.Foundation.Clock
import Irohsion.Foundation.OrderedMap
import Irohsion.Foundation.Parity
import Irohsion.Protocol.FecFrame

/-! # Forward error correction at the receiver

Stored parity frames, the cache of recently completed payloads, and the search
for frames that miss exactly one member.
-/

namespace Irohsion.Server

open Protocol Std

def fecFrameTrackLimit : Nat := 256

def fecPayloadTrackLimit : Nat := 4096

structure BufferedPacket where
  payload : Bytes
  receivedAt : Instant
  deriving DecidableEq, Repr

abbrev Buffered := ExtTreeMap Nat BufferedPacket

structure FecState where
  frames : ExtTreeMap Nat FecFrame
  frameOrder : List Nat
  payloads : ExtTreeMap Nat Bytes
  payloadOrder : List Nat

namespace FecState

/-- `FecState::default`, and what `clear` leaves behind. -/
def empty : FecState := ⟨∅, [], ∅, []⟩

def enforceFrameStep (fec : FecState) : ForInStep FecState :=
  if fec.frames.size ≤ fecFrameTrackLimit then .done fec
  else
    match fec.frameOrder with
    | [] => .done fec
    | sequence :: rest =>
        .yield { fec with frameOrder := rest, frames := fec.frames.erase sequence }

def enforceFrameLimit (fec : FecState) : FecState :=
  BreakLoop.run enforceFrameStep (fec.frameOrder.length + 1) fec

def insertFrame (fec : FecState) (frame : FecFrame) : FecState :=
  let order :=
    if frame.baseSequence ∈ fec.frames then fec.frameOrder
    else fec.frameOrder ++ [frame.baseSequence]
  enforceFrameLimit
    { fec with frameOrder := order, frames := fec.frames.insert frame.baseSequence frame }

def enforcePayloadStep (fec : FecState) : ForInStep FecState :=
  if fec.payloads.size ≤ fecPayloadTrackLimit then .done fec
  else
    match fec.payloadOrder with
    | [] => .done fec
    | sequence :: rest =>
        .yield { fec with payloadOrder := rest, payloads := fec.payloads.erase sequence }

def enforcePayloadLimit (fec : FecState) : FecState :=
  BreakLoop.run enforcePayloadStep (fec.payloadOrder.length + 1) fec

def insertPayload (fec : FecState) (sequence : Nat) (payload : Bytes) : FecState :=
  if maxMediaSequence < sequence ∨ sequence ∈ fec.payloads then fec
  else
    enforcePayloadLimit
      { fec with
        payloadOrder := fec.payloadOrder ++ [sequence]
        payloads := fec.payloads.insert sequence payload }

def payloadFor (fec : FecState) (buffered : Buffered) (sequence : Nat) : Option Bytes :=
  fec.payloads[sequence]? <|> buffered[sequence]?.map BufferedPacket.payload

/-- What the inner loop of `recover_ready` finds out about one frame: a length
that does not fit, two unknown members, or the remaining parity together with
the one unknown member, if any, and its length. -/
inductive FrameScan
  | unusable
  | multipleMissing
  | scanned (parity : Bytes) (missing : Option (Nat × Nat))

/-- The inner loop of `recover_ready`, from member `index` on. -/
def scanFrame (known : Nat → Option Bytes) (baseSequence : Nat) :
    (index : Nat) → (payloadLengths : List Nat) → (parity : Bytes) →
    (missing : Option (Nat × Nat)) → FrameScan
  | _, [], parity, missing => .scanned parity missing
  | index, expectedLen :: rest, parity, missing =>
      let sequence := sequenceAfter baseSequence index
      if parity.length < expectedLen then .unusable
      else
        match known sequence with
        | some payload =>
            if payload.length ≠ expectedLen ∨ parity.length < payload.length then .unusable
            else scanFrame known baseSequence (index + 1) rest
              (Parity.overlay parity payload) missing
        | none =>
            match missing with
            | none => scanFrame known baseSequence (index + 1) rest parity
                (some (sequence, expectedLen))
            | some _ => .multipleMissing

/-- The outer loop body of `recover_ready` for one stored base sequence. -/
def recoverFrame (nextSeq : Nat) (buffered : Buffered)
    (progress : FecState × List (Nat × Bytes)) (base : Nat) :
    FecState × List (Nat × Bytes) :=
  let (fec, recovered) := progress
  match fec.frames[base]? with
  | none => (fec, recovered)
  | some frame =>
      match scanFrame (fec.payloadFor buffered) frame.baseSequence 0 frame.payloadLengths
          frame.parity none with
      | .unusable => ({ fec with frames := fec.frames.erase base }, recovered)
      | .multipleMissing => (fec, recovered)
      | .scanned _ none => ({ fec with frames := fec.frames.erase base }, recovered)
      | .scanned parity (some (sequence, expectedLen)) =>
          ({ fec with frames := fec.frames.erase base },
            if sequence < nextSeq then recovered
            else recovered ++ [(sequence, parity.take expectedLen)])

def recoverReady (fec : FecState) (nextSeq : Nat) (buffered : Buffered) :
    FecState × List (Nat × Bytes) :=
  fec.frames.keys.foldl (recoverFrame nextSeq buffered) (fec, [])

/-! ## What is stored

The limits only ever remove entries, so a stored frame or payload is an old one
or the one just inserted.
-/

theorem enforceFrameLimit_found {fec : FecState} {base : Nat} {frame : FecFrame}
    (found : fec.enforceFrameLimit.frames[base]? = some frame) :
    fec.frames[base]? = some frame := by
  refine @BreakLoop.of_run _ (fun fec => fec.frames[base]? = some frame) _ ?_ _ fec found
  intro state found
  rw [enforceFrameStep] at found
  split at found
  · exact found
  · split at found
    · exact found
    · exact (OrderedMap.getElem?_erase_eq_some.mp found).2

theorem enforceFrameLimit_payloads (fec : FecState) :
    fec.enforceFrameLimit.payloads = fec.payloads := by
  apply BreakLoop.run_unchanged FecState.payloads
  intro state
  rw [enforceFrameStep]
  split
  · rfl
  · split <;> rfl

theorem enforcePayloadLimit_found {fec : FecState} {sequence : Nat} {payload : Bytes}
    (found : fec.enforcePayloadLimit.payloads[sequence]? = some payload) :
    fec.payloads[sequence]? = some payload := by
  refine @BreakLoop.of_run _ (fun fec => fec.payloads[sequence]? = some payload) _ ?_ _ fec found
  intro state found
  rw [enforcePayloadStep] at found
  split at found
  · exact found
  · split at found
    · exact found
    · exact (OrderedMap.getElem?_erase_eq_some.mp found).2

theorem enforcePayloadLimit_frames (fec : FecState) :
    fec.enforcePayloadLimit.frames = fec.frames := by
  apply BreakLoop.run_unchanged FecState.frames
  intro state
  rw [enforcePayloadStep]
  split
  · rfl
  · split <;> rfl

theorem insertFrame_found {fec : FecState} {frame stored : FecFrame} {base : Nat}
    (found : (fec.insertFrame frame).frames[base]? = some stored) :
    base = frame.baseSequence ∧ stored = frame ∨ fec.frames[base]? = some stored :=
  OrderedMap.getElem?_insert_eq_some (enforceFrameLimit_found found)

@[simp] theorem insertFrame_payloads (fec : FecState) (frame : FecFrame) :
    (fec.insertFrame frame).payloads = fec.payloads :=
  enforceFrameLimit_payloads _

theorem insertPayload_found {fec : FecState} {sequence other : Nat} {payload stored : Bytes}
    (found : (fec.insertPayload sequence payload).payloads[other]? = some stored) :
    other = sequence ∧ stored = payload ∨ fec.payloads[other]? = some stored := by
  rw [insertPayload] at found
  split at found
  · exact Or.inr found
  · exact OrderedMap.getElem?_insert_eq_some (enforcePayloadLimit_found found)

@[simp] theorem insertPayload_frames (fec : FecState) (sequence : Nat) (payload : Bytes) :
    (fec.insertPayload sequence payload).frames = fec.frames := by
  rw [insertPayload]
  split
  · rfl
  · exact enforcePayloadLimit_frames _

end FecState

end Irohsion.Server
