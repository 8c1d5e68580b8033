import Irohsion.Foundation.CyclicPositions

/-! # Sequence numbers

The reserved and media sequence numbers of the packet header, and the cyclic
successor that the client and the server both use.
-/

namespace Irohsion.Protocol

def maxSequence : Nat := 2 ^ 26 - 1

def fecSequence : Nat := maxSequence

def maxMediaSequence : Nat := fecSequence - 1

def nextSequence (sequence : Nat) : Nat :=
  if sequence = maxMediaSequence then 0 else sequence + 1

def sequenceAfter (sequence offset : Nat) : Nat :=
  match offset with
  | 0 => sequence
  | offset + 1 => sequenceAfter (nextSequence sequence) offset

theorem nextSequence_eq_next : nextSequence = Cyclic.next maxMediaSequence := rfl

theorem sequenceAfter_eq_iterate (sequence offset : Nat) :
    sequenceAfter sequence offset = nextSequence^[offset] sequence := by
  induction offset generalizing sequence with
  | zero => rfl
  | succ offset induction => exact induction (nextSequence sequence)

theorem sequenceAfter_succ (sequence offset : Nat) :
    sequenceAfter sequence (offset + 1) = nextSequence (sequenceAfter sequence offset) := by
  rw [sequenceAfter_eq_iterate, sequenceAfter_eq_iterate, Function.iterate_succ_apply']

theorem sequenceAfter_add (sequence first second : Nat) :
    sequenceAfter sequence (first + second) =
      sequenceAfter (sequenceAfter sequence first) second := by
  rw [sequenceAfter_eq_iterate, sequenceAfter_eq_iterate, sequenceAfter_eq_iterate,
    ← Function.iterate_add_apply, Nat.add_comm]

theorem nextSequence_le {sequence : Nat} (media : sequence ≤ maxMediaSequence) :
    nextSequence sequence ≤ maxMediaSequence :=
  Cyclic.next_le media

/-- A later position is at or after the next one. -/
theorem nextSequence_le_of_lt {sequence other : Nat} (later : sequence < other)
    (media : other ≤ maxMediaSequence) : nextSequence sequence ≤ other := by
  rw [nextSequence, if_neg (by omega)]
  exact later

theorem sequenceAfter_le {sequence : Nat} (media : sequence ≤ maxMediaSequence) (offset : Nat) :
    sequenceAfter sequence offset ≤ maxMediaSequence := by
  rw [sequenceAfter_eq_iterate]
  exact Cyclic.iterate_next_le media offset

theorem sequenceAfter_injective {sequence left right : Nat}
    (media : sequence ≤ maxMediaSequence)
    (leftBound : left ≤ maxMediaSequence) (rightBound : right ≤ maxMediaSequence)
    (equal : sequenceAfter sequence left = sequenceAfter sequence right) : left = right := by
  rw [sequenceAfter_eq_iterate, sequenceAfter_eq_iterate] at equal
  exact Cyclic.iterate_next_injective media leftBound rightBound equal

theorem maxMediaSequence_lt_fecSequence : maxMediaSequence < fecSequence := by decide

theorem le_maxSequence {sequence : Nat} (media : sequence ≤ maxMediaSequence) :
    sequence ≤ maxSequence :=
  Nat.le_of_lt (Nat.lt_of_le_of_lt media maxMediaSequence_lt_fecSequence)

end Irohsion.Protocol
