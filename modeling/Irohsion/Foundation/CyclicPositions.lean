import Mathlib.Logic.Function.Iterate
import Mathlib.Data.Nat.ModEq

/-! # Cyclic positions

The positions `0, ..., last` with a successor that wraps from `last` to `0`.
Advancing is addition modulo the number of positions. An unbounded count falls on
the same position once in every pass.
-/

namespace Irohsion.Cyclic

def next (last position : Nat) : Nat :=
  if position = last then 0 else position + 1

theorem next_le {last position : Nat} (inRange : position ≤ last) :
    next last position ≤ last := by
  rw [next]
  split <;> omega

theorem next_eq_mod {last position : Nat} (inRange : position ≤ last) :
    next last position = (position + 1) % (last + 1) := by
  rw [next]
  split
  · subst position
    rw [Nat.mod_self]
  · rw [Nat.mod_eq_of_lt (by omega)]

/-- Advancing by `steps` from a position in range. -/
theorem iterate_next_eq_mod {last position : Nat} (inRange : position ≤ last)
    (steps : Nat) :
    (next last)^[steps] position = (position + steps) % (last + 1) := by
  induction steps with
  | zero => exact (Nat.mod_eq_of_lt (Nat.lt_succ_of_le inRange)).symm
  | succ steps induction =>
      have bounded : (position + steps) % (last + 1) ≤ last :=
        Nat.le_of_lt_succ (Nat.mod_lt _ (Nat.succ_pos last))
      rw [Function.iterate_succ_apply', induction, next_eq_mod bounded,
        Nat.mod_add_mod, Nat.add_assoc]

theorem iterate_next_le {last position : Nat} (inRange : position ≤ last)
    (steps : Nat) : (next last)^[steps] position ≤ last := by
  rw [iterate_next_eq_mod inRange]
  exact Nat.le_of_lt_succ (Nat.mod_lt _ (Nat.succ_pos last))

/-- Fewer steps than there are positions reach distinct positions. -/
theorem iterate_next_injective {last position : Nat} (inRange : position ≤ last)
    {left right : Nat} (leftBound : left ≤ last) (rightBound : right ≤ last)
    (equal : (next last)^[left] position = (next last)^[right] position) :
    left = right := by
  rw [iterate_next_eq_mod inRange, iterate_next_eq_mod inRange] at equal
  have congruent : position + left ≡ position + right [MOD last + 1] := equal
  have remaining := Nat.ModEq.add_left_cancel' position congruent
  exact Nat.ModEq.eq_of_lt_of_lt remaining (by omega) (by omega)

/-- Advancing by no more than the remaining positions does not wrap. -/
theorem iterate_next_of_le {last position steps : Nat}
    (reaches : position + steps ≤ last) :
    (next last)^[steps] position = position + steps := by
  rw [iterate_next_eq_mod (by omega), Nat.mod_eq_of_lt (by omega)]

/-- Advancing past the last position lands below the start. -/
theorem iterate_next_lt_of_wraps {last position steps : Nat}
    (inRange : position ≤ last) (wraps : last < position + steps)
    (bounded : steps ≤ last) :
    (next last)^[steps] position < position := by
  rw [iterate_next_eq_mod inRange,
    Nat.mod_eq_sub_mod (by omega), Nat.mod_eq_of_lt (by omega)]
  omega

/-- Advancing from the position of one index reaches that of a later one. -/
theorem iterate_next_mod (last index steps : Nat) :
    (next last)^[steps] (index % (last + 1)) = (index + steps) % (last + 1) := by
  rw [iterate_next_eq_mod (Nat.le_of_lt_succ (Nat.mod_lt _ (Nat.succ_pos last))),
    Nat.mod_add_mod]

/-! ## Passes -/

/-- The last index up to a bound that falls on the position. -/
def latest (last position : Nat) : (bound : Nat) → Option Nat
  | 0 => if 0 % (last + 1) = position then some 0 else none
  | bound + 1 =>
      if (bound + 1) % (last + 1) = position then some (bound + 1)
      else latest last position bound

theorem latest_self (last index : Nat) :
    latest last (index % (last + 1)) index = some index := by
  cases index with
  | zero => exact if_pos rfl
  | succ index => exact if_pos rfl

theorem latest_eq_some {last position bound index : Nat}
    (found : latest last position bound = some index) :
    index ≤ bound ∧ index % (last + 1) = position ∧
      ∀ later, index < later → later ≤ bound → later % (last + 1) ≠ position := by
  induction bound with
  | zero =>
      rw [latest] at found
      split at found
      · rename_i falls
        cases found
        exact ⟨Nat.le_refl _, falls, fun later after within => by omega⟩
      · cases found
  | succ bound induction =>
      rw [latest] at found
      split at found
      · rename_i falls
        cases found
        exact ⟨Nat.le_refl _, falls, fun later after within => by omega⟩
      · rename_i other
        rcases induction found with ⟨within, falls, none⟩
        refine ⟨Nat.le_succ_of_le within, falls, ?_⟩
        intro later after laterWithin
        rcases Nat.lt_or_eq_of_le laterWithin with earlier | rfl
        · exact none later after (Nat.le_of_lt_succ earlier)
        · exact other

/-- The latest index stays the same until the position is used again. -/
theorem latest_eq_of_unused {last position before after : Nat} (later : before ≤ after)
    (unused : ∀ index, before < index → index ≤ after → index % (last + 1) ≠ position) :
    latest last position after = latest last position before := by
  induction after with
  | zero =>
      cases Nat.le_zero.mp later
      rfl
  | succ after induction =>
      rcases Nat.lt_or_eq_of_le later with earlier | rfl
      · rw [latest, if_neg (unused _ earlier (Nat.le_refl _))]
        exact induction (Nat.le_of_lt_succ earlier)
          fun index above within => unused index above (Nat.le_succ_of_le within)
      · rfl

/-- Within one pass every index is the latest on its position. -/
theorem latest_of_recent {last index bound : Nat} (sent : index ≤ bound)
    (recent : bound ≤ index + last) :
    latest last (index % (last + 1)) bound = some index := by
  rw [latest_eq_of_unused sent, latest_self]
  intro later above within same
  have congruent : index ≡ later [MOD last + 1] := same.symm
  have apart := (Nat.modEq_iff_dvd' (Nat.le_of_lt above)).mp congruent
  have whole := Nat.le_of_dvd (Nat.sub_pos_of_lt above) apart
  omega

end Irohsion.Cyclic
