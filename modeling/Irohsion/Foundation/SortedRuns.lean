import Mathlib.Order.Basic
import Mathlib.Data.List.Basic

/-! # Sorted runs

The latest entries of a history that are in order. A history is kept latest
first, so these entries are its longest non-increasing front.
-/

namespace Irohsion.SortedRuns

variable {α : Type u} [Preorder α] [DecidableLE α]

/-- How many of the latest entries are in order. -/
def latestRun : List α → Nat
  | [] => 0
  | [_] => 1
  | latest :: earlier :: rest =>
      if earlier ≤ latest then latestRun (earlier :: rest) + 1 else 1

theorem latestRun_cons_of_le {latest earlier : α} (rest : List α) (inOrder : earlier ≤ latest) :
    latestRun (latest :: earlier :: rest) = latestRun (earlier :: rest) + 1 :=
  if_pos inOrder

theorem latestRun_cons_of_not_le {latest earlier : α} (rest : List α)
    (outOfOrder : ¬ earlier ≤ latest) : latestRun (latest :: earlier :: rest) = 1 :=
  if_neg outOfOrder

theorem latestRun_replicate (count : Nat) (entry : α) :
    latestRun (List.replicate count entry) = count := by
  induction count with
  | zero => rfl
  | succ count induction =>
      cases count with
      | zero => rfl
      | succ count =>
          exact (latestRun_cons_of_le _ (le_refl entry)).trans (congrArg (· + 1) induction)

theorem one_le_latestRun_cons (latest : α) (rest : List α) : 1 ≤ latestRun (latest :: rest) := by
  unfold latestRun
  split <;> simp_all
  split <;> omega

/-- A front of the history that is in order is no longer than the latest run. -/
theorem length_le_latestRun {run rest : List α} (inOrder : run.Pairwise (· ≥ ·)) :
    run.length ≤ latestRun (run ++ rest) := by
  induction run with
  | nil => exact Nat.zero_le _
  | cons latest run induction =>
      cases run with
      | nil => exact one_le_latestRun_cons latest rest
      | cons earlier run =>
          have parts := List.pairwise_cons.mp inOrder
          have rule := latestRun_cons_of_le (run ++ rest) (parts.1 earlier List.mem_cons_self)
          exact (Nat.succ_le_succ (induction parts.2)).trans_eq rule.symm

theorem take_latestRun_inOrder (history : List α) :
    (history.take (latestRun history)).Pairwise (· ≥ ·) := by
  induction history with
  | nil => exact List.Pairwise.nil
  | cons latest history induction =>
      cases history with
      | nil => exact List.pairwise_singleton _ _
      | cons earlier rest =>
          by_cases inOrder : earlier ≤ latest
          · rw [latestRun_cons_of_le rest inOrder, List.take_succ_cons]
            refine List.pairwise_cons.mpr ⟨?_, induction⟩
            rcases Nat.exists_eq_add_of_le' (one_le_latestRun_cons earlier rest) with ⟨more, runEq⟩
            rw [runEq, List.take_succ_cons] at induction ⊢
            intro other member
            rcases List.mem_cons.mp member with rfl | member
            · exact inOrder
            · exact le_trans ((List.pairwise_cons.mp induction).1 other member) inOrder
          · rw [latestRun_cons_of_not_le rest inOrder]
            exact List.pairwise_singleton _ _

theorem latestRun_le_length (history : List α) : latestRun history ≤ history.length := by
  induction history with
  | nil => exact Nat.le_refl 0
  | cons latest history induction =>
      cases history with
      | nil => exact Nat.le_refl 1
      | cons earlier rest =>
          by_cases inOrder : earlier ≤ latest
          · rw [latestRun_cons_of_le rest inOrder]
            exact Nat.succ_le_succ induction
          · rw [latestRun_cons_of_not_le rest inOrder]
            exact Nat.succ_le_succ (Nat.zero_le _)

/-- At least `count` entries are in order exactly when the latest `count` are. -/
theorem le_latestRun_iff {history : List α} {count : Nat} :
    count ≤ latestRun history ↔
      ∃ run rest, history = run ++ rest ∧ run.length = count ∧ run.Pairwise (· ≥ ·) := by
  constructor
  · intro bounded
    refine ⟨history.take count, history.drop count, (List.take_append_drop _ _).symm, ?_, ?_⟩
    · rw [List.length_take]
      exact Nat.min_eq_left (Nat.le_trans bounded (latestRun_le_length history))
    · have longer := take_latestRun_inOrder history
      rw [← List.take_append_drop count (history.take (latestRun history)),
        List.take_take, Nat.min_eq_left bounded] at longer
      exact (List.pairwise_append.mp longer).1
  · intro ends
    rcases ends with ⟨run, rest, rfl, rfl, inOrder⟩
    exact length_le_latestRun inOrder

end Irohsion.SortedRuns
