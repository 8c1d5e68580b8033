import Mathlib.Data.List.Count
import Mathlib.Logic.Function.Iterate

/-! # Iterations that settle

A value that is updated again and again by one function, and how often it
changes.
-/

namespace Irohsion.Settling

variable {α : Type u} {update : α → α} {start : α}

/-- A value that the second round leaves as it is stays. -/
theorem iterate_of_settled (settled : update (update start) = update start) (rounds : Nat) :
    update^[rounds + 1] start = update start := by
  rw [Function.iterate_succ_apply]
  exact Function.iterate_fixed settled rounds

variable [DecidableEq α]

/-- How many of the first rounds change the value. -/
def changes (update : α → α) (start : α) (rounds : Nat) : Nat :=
  (List.range rounds).countP fun round =>
    decide (update^[round + 1] start ≠ update^[round] start)

theorem changes_succ (update : α → α) (start : α) (rounds : Nat) :
    changes update start (rounds + 1) =
      changes update start rounds +
        if update^[rounds + 1] start ≠ update^[rounds] start then 1 else 0 := by
  rw [changes, List.range_succ, List.countP_append, List.countP_singleton, changes]
  by_cases changed : update^[rounds + 1] start ≠ update^[rounds] start
  · rw [if_pos changed, if_pos (decide_eq_true changed)]
  · rw [if_neg changed, if_neg (mt of_decide_eq_true changed)]

/-- The value changes at most once exactly when the second round changes nothing
that the first one has changed. -/
theorem changes_le_one_iff :
    (∀ rounds, changes update start rounds ≤ 1) ↔
      update start = start ∨ update (update start) = update start := by
  constructor
  · intro few
    by_cases first : update start = start
    · exact Or.inl first
    · right
      by_contra second
      have twice := few 2
      rw [changes_succ, changes_succ] at twice
      simp [Function.iterate_succ_apply, first, second] at twice
  · rintro settled rounds
    have still : ∀ round, update^[round + 2] start = update^[round + 1] start := by
      intro round
      rcases settled with fixed | settled
      · rw [Function.iterate_fixed fixed, Function.iterate_fixed fixed]
      · rw [iterate_of_settled settled, iterate_of_settled settled]
    induction rounds with
    | zero => exact Nat.zero_le 1
    | succ rounds induction =>
        cases rounds with
        | zero =>
            rw [changes_succ]
            split <;> simp [changes]
        | succ rounds =>
            rw [changes_succ, if_neg (not_not.mpr (still rounds))]
            exact induction

end Irohsion.Settling
