import Irohsion.Foundation.BreakLoop
import Irohsion.Protocol.Packet
import Mathlib.Data.Finset.Basic

/-! # Restart detection and recently skipped sequences -/

namespace Irohsion.Server

open Protocol

def restartBackwardGap : Nat := 4096

def restartConfirmPackets : Nat := maxFragments + 1

def skippedSequenceTrackLimit : Nat := 4096

structure RestartDetector where
  count : Nat
  highestSeq : Nat
  deriving DecidableEq, Repr

namespace RestartDetector

/-- `RestartDetector::default`, and what `clear` leaves behind. -/
def cleared : RestartDetector := ⟨0, 0⟩

/-- The detector after one observation, and whether it confirms a restart. -/
def observe (detector : RestartDetector) (sequence nextSeq : Nat) : RestartDetector × Bool :=
  if nextSeq - sequence < restartBackwardGap then (cleared, false)
  else
    let detector :=
      if detector.count = 0 ∨ detector.highestSeq ≤ sequence then
        ⟨detector.count + 1, max detector.highestSeq sequence⟩
      else ⟨1, sequence⟩
    (detector, restartConfirmPackets ≤ detector.count)

end RestartDetector

structure RecentSkippedSequences where
  order : List Nat
  lookup : Finset Nat
  deriving DecidableEq

namespace RecentSkippedSequences

def empty : RecentSkippedSequences := ⟨[], ∅⟩

def expireStep (skipped : RecentSkippedSequences) : ForInStep RecentSkippedSequences :=
  if skipped.order.length ≤ skippedSequenceTrackLimit then .done skipped
  else
    match skipped.order with
    | [] => .done skipped
    | expired :: rest => .yield ⟨rest, skipped.lookup.erase expired⟩

def insert (skipped : RecentSkippedSequences) (sequence : Nat) : RecentSkippedSequences :=
  let order :=
    if sequence ∈ skipped.lookup then skipped.order else skipped.order ++ [sequence]
  BreakLoop.run expireStep (order.length + 1) ⟨order, Insert.insert sequence skipped.lookup⟩

def contains (skipped : RecentSkippedSequences) (sequence : Nat) : Bool :=
  decide (sequence ∈ skipped.lookup)

end RecentSkippedSequences

end Irohsion.Server
