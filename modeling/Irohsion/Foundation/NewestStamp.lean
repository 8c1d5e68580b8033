import Mathlib.Data.List.Induction
import Mathlib.Order.Lattice

/-! # Registers of stamped values

Values arrive in any order and each carries a stamp. A register that is simply
overwritten and one that refuses an older stamp are compared with what arrived.
-/

namespace Irohsion.Stamped

variable {ρ : Type u} {τ : Type v} [LinearOrder τ] {stamp : ρ → τ}
variable {arrivals others : List ρ} {held other : Option ρ}

/-- Of what arrived, the register holds one with the greatest stamp. -/
def HoldsNewest (stamp : ρ → τ) (arrivals : List ρ) : Option ρ → Prop
  | none => arrivals = []
  | some newest => newest ∈ arrivals ∧ ∀ arrival ∈ arrivals, stamp arrival ≤ stamp newest

theorem holdsNewest_append_singleton {last : ρ} :
    HoldsNewest stamp (arrivals ++ [last]) (some last) ↔
      ∀ arrival ∈ arrivals, stamp arrival ≤ stamp last := by
  rw [HoldsNewest, List.forall_mem_append, List.forall_mem_singleton]
  constructor
  · intro newest
    exact newest.2.1
  · intro atMost
    exact ⟨List.mem_append_right _ (List.mem_singleton_self last), atMost, le_refl _⟩

/-- Being overwritten, a register always holds a newest value exactly when
nothing arrives after a newer one. -/
theorem getLast?_holdsNewest_iff :
    (∀ received, received <+: arrivals → HoldsNewest stamp received received.getLast?) ↔
      arrivals.Pairwise fun earlier later => stamp earlier ≤ stamp later := by
  induction arrivals using List.reverseRecOn with
  | nil =>
      refine iff_of_true ?_ List.Pairwise.nil
      intro received isPrefix
      rw [List.prefix_nil.mp isPrefix]
      rfl
  | append_singleton earlier last induction =>
      rw [List.pairwise_append, ← induction]
      constructor
      · intro newest
        have whole := newest _ (List.prefix_refl _)
        rw [List.getLast?_concat, holdsNewest_append_singleton] at whole
        refine ⟨?_, List.pairwise_singleton _ _, ?_⟩
        · intro received isPrefix
          exact newest received (isPrefix.trans (List.prefix_append _ _))
        · intro arrival member _ single
          rw [List.mem_singleton.mp single]
          exact whole arrival member
      · rintro ⟨newest, -, atMost⟩ received isPrefix
        rcases List.prefix_concat_iff.mp isPrefix with rfl | shorter
        · rw [List.getLast?_concat, holdsNewest_append_singleton]
          intro arrival member
          exact atMost arrival member last (List.mem_singleton_self last)
        · exact newest received shorter

/-- The stamp of what is held does not go back. -/
theorem HoldsNewest.mono {first second : ρ} (before : HoldsNewest stamp arrivals (some first))
    (after : HoldsNewest stamp others (some second)) (more : arrivals ⊆ others) :
    stamp first ≤ stamp second :=
  after.2 first (more before.1)

/-- With distinct stamps, what is held does not depend on the order of arrival. -/
theorem HoldsNewest.unique (first : HoldsNewest stamp arrivals held)
    (second : HoldsNewest stamp others other) (permuted : arrivals.Perm others)
    (distinct : ∀ one ∈ arrivals, ∀ two ∈ arrivals, stamp one = stamp two → one = two) :
    held = other := by
  cases held with
  | none =>
      have noArrival : others = [] := List.nil_perm.mp (first ▸ permuted)
      cases other with
      | none => rfl
      | some newest =>
          rw [noArrival] at second
          exact absurd second.1 List.not_mem_nil
  | some one =>
      cases other with
      | none =>
          rw [HoldsNewest] at second
          rw [second] at permuted
          exact absurd (permuted.mem_iff.mp first.1) List.not_mem_nil
      | some two =>
          have back := permuted.mem_iff.mpr second.1
          have same := le_antisymm (second.2 one (permuted.mem_iff.mp first.1)) (first.2 two back)
          rw [distinct one first.1 two back same]

/-- A register that refuses what is older than what it holds. -/
def keep (stamp : ρ → τ) (held : Option ρ) (arrival : ρ) : Option ρ :=
  if held.any fun current => decide (stamp arrival < stamp current) then held else some arrival

/-- It holds a newest value, whatever the order of arrival. -/
theorem foldl_keep_holdsNewest (stamp : ρ → τ) (arrivals : List ρ) :
    HoldsNewest stamp arrivals (arrivals.foldl (keep stamp) none) := by
  induction arrivals using List.reverseRecOn with
  | nil => rfl
  | append_singleton earlier last induction =>
      rw [List.foldl_append, List.foldl_cons, List.foldl_nil]
      cases held : earlier.foldl (keep stamp) none with
      | none =>
          rw [held] at induction
          have noEarlier : earlier = [] := induction
          rw [noEarlier]
          exact ⟨List.mem_singleton_self last, List.forall_mem_singleton.mpr (le_refl _)⟩
      | some current =>
          rw [held] at induction
          rw [keep, Option.any_some]
          by_cases older : stamp last < stamp current
          · rw [if_pos (decide_eq_true older)]
            refine ⟨List.mem_append_left _ induction.1, ?_⟩
            exact List.forall_mem_append.mpr
              ⟨induction.2, List.forall_mem_singleton.mpr (le_of_lt older)⟩
          · rw [if_neg (by simpa using older), holdsNewest_append_singleton]
            intro arrival member
            exact le_trans (induction.2 arrival member) (le_of_not_gt older)

end Irohsion.Stamped
