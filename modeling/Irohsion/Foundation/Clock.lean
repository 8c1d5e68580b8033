import Mathlib.Init

/-! # Instants and durations

A monotonic clock in whole ticks. The elapsed time saturates at zero.
-/

namespace Irohsion

abbrev Instant := Nat

abbrev Duration := Nat

def Instant.elapsed (since now : Instant) : Duration := now - since

theorem Instant.elapsed_self (now : Instant) : Instant.elapsed now now = 0 :=
  Nat.sub_self now

theorem Instant.elapsed_mono (since : Instant) {before now : Instant} (later : before ≤ now) :
    since.elapsed before ≤ since.elapsed now :=
  Nat.sub_le_sub_right later since

theorem Instant.elapsed_anti {older newer : Instant} (later : older ≤ newer) (now : Instant) :
    newer.elapsed now ≤ older.elapsed now :=
  Nat.sub_le_sub_left later now

end Irohsion
