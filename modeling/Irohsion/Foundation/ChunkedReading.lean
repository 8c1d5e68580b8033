import Mathlib.Data.List.Basic

/-! # Reading a list in chunks

A reader asks for the chunk at an offset and goes on behind it, until a chunk is
empty or it may not read any more. It gets a prefix of what begins at its first
offset.
-/

namespace Irohsion.ChunkedReading

variable {α : Type u}

def chunkAt (size : Nat) (items : List α) (offset : Nat) : List α :=
  (items.drop offset).take size

/-- What a number of reads gathers from an offset on. -/
def gather (size : Nat) (items : List α) : (reads offset : Nat) → List α
  | 0, _ => []
  | reads + 1, offset =>
      chunkAt size items offset ++
        gather size items reads (offset + (chunkAt size items offset).length)

theorem chunkAt_eq_nil_iff {size : Nat} (positive : 0 < size) (items : List α) (offset : Nat) :
    chunkAt size items offset = [] ↔ items.length ≤ offset := by
  rw [chunkAt, List.take_eq_nil_iff, List.drop_eq_nil_iff]
  constructor
  · intro empty
    exact empty.resolve_left (Nat.ne_of_gt positive)
  · exact Or.inr

theorem gather_eq_take (size : Nat) (items : List α) (reads offset : Nat) :
    gather size items reads offset = (items.drop offset).take (reads * size) := by
  induction reads generalizing offset with
  | zero =>
      rw [Nat.zero_mul, List.take_zero]
      rfl
  | succ reads induction =>
      rw [gather, induction, Nat.succ_mul, Nat.add_comm (reads * size), List.take_add, chunkAt,
        List.drop_drop, List.length_take, List.length_drop]
      congr 1
      by_cases inside : offset + size ≤ items.length
      · rw [Nat.min_eq_left (by omega)]
      · -- The chunk is the rest, so nothing is left for the other reads.
        rw [List.drop_of_length_le (by omega), List.drop_of_length_le (by omega)]

/-- Behind the end there is nothing to gather. -/
theorem gather_of_length_le {size : Nat} {items : List α} (reads : Nat) {offset : Nat}
    (past : items.length ≤ offset) : gather size items reads offset = [] := by
  rw [gather_eq_take, List.drop_of_length_le past, List.take_nil]

/-- The reader gets the whole list exactly when it may read often enough. -/
theorem gather_eq_self_iff (size : Nat) (items : List α) (reads : Nat) :
    gather size items reads 0 = items ↔ items.length ≤ reads * size := by
  rw [gather_eq_take, List.drop_zero]
  constructor
  · intro whole
    rw [← whole]
    exact List.length_take_le _ _
  · exact List.take_of_length_le

end Irohsion.ChunkedReading
