import Irohsion.Client.PathStrategy
import Irohsion.Foundation.Rounding
import Mathlib.Algebra.BigOperators.Ring.List
import Mathlib.Algebra.Order.BigOperators.Group.List
import Mathlib.Data.Rat.Floor
import Mathlib.Tactic.FieldSimp

/-! # Rational weights

The arithmetic of the strategy in exact numbers. Weights that are normalized are
shares of one, and positions rounded along such shares cut a range into parts of
the right lengths.
-/

namespace Irohsion.Client

/-- Rates that compare exactly. -/
instance ratMeasure : Measure Rat where
  ofNat := Nat.cast
  le left right := decide (left ≤ right)
  lt left right := decide (left < right)
  max left right := if left < right then right else left
  min left right := if right < left then right else left

instance ratWiden : Widen Rat Rat where
  widen := id

/-- Halves are rounded up, which `f64::round` does above zero. -/
instance ratWeightShare : WeightShare Rat where
  share packetLen accumulated := Rounding.nearest ((packetLen : Rat) * accumulated)

/-! ## Arithmetic -/

@[simp] theorem sum_eq_list_sum (values : List Rat) : sum values = values.sum := by
  rw [sum, List.sum_eq_foldl]

@[simp] theorem measure_le_iff (left right : Rat) : Measure.le left right = true ↔ left ≤ right :=
  decide_eq_true_iff

theorem le_measure_max_right (left right : Rat) : right ≤ Measure.max left right := by
  change right ≤ if left < right then right else left
  split
  · exact le_refl _
  · rename_i notBelow
    exact not_lt.mp notBelow

theorem epsilon_pos : (0 : Rat) < epsilon := by decide +kernel

theorem epsilon_lt_minRawShare : (epsilon : Rat) < autoWeightMinRawShare := by decide +kernel

/-- A clamped value is not below the lower bound. -/
theorem le_clampMeasure {low high : Rat} (ordered : low ≤ high) (value : Rat) :
    low ≤ clampMeasure value low high := by
  rw [clampMeasure]
  split
  · exact le_refl _
  · rename_i notBelow
    split
    · exact ordered
    · exact not_lt.mp fun below => notBelow (decide_eq_true below)

/-! ## Normalized weights -/

theorem sum_map_div (weights : List Rat) (total : Rat) :
    (weights.map (· / total)).sum = weights.sum / total := by
  simp only [div_eq_mul_inv]
  rw [List.sum_map_mul_right, List.map_id']

theorem sum_map_div_self {weights : List Rat} (positive : 0 < weights.sum) :
    (weights.map (· / weights.sum)).sum = 1 := by
  rw [sum_map_div, div_self (ne_of_gt positive)]

theorem div_nonneg_of_mem {weights : List Rat} {total : Rat} (positive : 0 < total)
    (nonneg : ∀ weight ∈ weights, 0 ≤ weight) :
    ∀ weight ∈ weights.map (· / total), 0 ≤ weight := by
  intro weight member
  rcases List.mem_map.mp member with ⟨raw, isRaw, rfl⟩
  exact div_nonneg (nonneg raw isRaw) positive.le

theorem normalizeWeightsWithFallback_of_lt {weights : List Rat} {fallback total : Rat}
    (enough : epsilon < total) :
    normalizeWeightsWithFallback weights fallback total = weights.map (· / total) := by
  rw [normalizeWeightsWithFallback, if_neg]
  rw [measure_le_iff, not_le]
  exact enough

theorem normalizeWeightsWithFallback_nonneg {weights : List Rat} {fallback : Rat}
    (nonneg : ∀ weight ∈ weights, 0 ≤ weight) (fallbackNonneg : 0 ≤ fallback) (total : Rat) :
    ∀ weight ∈ normalizeWeightsWithFallback weights fallback total, 0 ≤ weight := by
  by_cases enough : epsilon < total
  · rw [normalizeWeightsWithFallback_of_lt enough]
    exact div_nonneg_of_mem (epsilon_pos.trans enough) nonneg
  · rw [normalizeWeightsWithFallback, if_pos ((measure_le_iff _ _).mpr (not_lt.mp enough))]
    intro weight member
    rcases List.mem_map.mp member with ⟨_, _, rfl⟩
    exact fallbackNonneg

/-- The weight of each item when all are equal. -/
theorem evenWeight_nonneg {α : Type u} (items : List α) :
    (0 : Rat) ≤ if items.isEmpty then 0 else 1.0 / Measure.ofNat items.length := by
  have one : (0 : Rat) ≤ 1.0 := by decide +kernel
  split
  · exact le_refl _
  · exact div_nonneg one (Nat.cast_nonneg items.length)

/-- Equal weights stay equal. -/
theorem normalizeWeightsWithFallback_even {α : Type u} {items : List α} (nonempty : items ≠ [])
    {weight : α → Rat} (even : ∀ item ∈ items, weight item = 1 / items.length) (fallback : Rat) :
    normalizeWeightsWithFallback (items.map weight) fallback (sum (items.map weight)) =
      items.map fun _ => 1 / (items.length : Rat) := by
  have positive : (0 : Rat) < items.length := Nat.cast_pos.mpr (List.length_pos_iff.mpr nonempty)
  have enough : (epsilon : Rat) < 1 := by decide +kernel
  have whole : (items.map fun _ => 1 / (items.length : Rat)).sum = 1 := by
    rw [List.map_const', List.sum_replicate, nsmul_eq_mul, mul_one_div_cancel positive.ne']
  rw [List.map_congr_left even, sum_eq_list_sum, whole,
    normalizeWeightsWithFallback_of_lt enough]
  simp only [div_one, List.map_id']

theorem normalizeWeights_nil : normalizeWeights ([] : List Rat) = [] := by
  rw [← List.length_eq_zero_iff, normalizeWeights, length_normalizeWeightsWithFallback,
    List.length_nil]

/-! ## Ranges along shares of one -/

/-- The rounded positions are in order, so none of them is clamped. -/
theorem clamp_share_eq {packetLen start : Nat} (inRange : start ≤ packetLen)
    {accumulated weight : Rat}
    (rounded : start = Rounding.nearest ((packetLen : Rat) * accumulated))
    (nonneg : 0 ≤ weight) (below : accumulated + weight ≤ 1) :
    clamp (WeightShare.share packetLen (accumulated + weight)) start packetLen inRange =
      Rounding.nearest ((packetLen : Rat) * (accumulated + weight)) := by
  have packetNonneg : (0 : Rat) ≤ packetLen := Nat.cast_nonneg packetLen
  have ordered : start ≤ Rounding.nearest ((packetLen : Rat) * (accumulated + weight)) := by
    rw [rounded]
    apply Rounding.nearest_mono
    exact mul_le_mul_of_nonneg_left (le_add_of_nonneg_right nonneg) packetNonneg
  have inside : Rounding.nearest ((packetLen : Rat) * (accumulated + weight)) ≤ packetLen := by
    have last : Rounding.nearest (packetLen : Rat) = packetLen :=
      Rounding.nearest_natCast packetLen
    rw [← last]
    apply Rounding.nearest_mono
    rw [last]
    exact mul_le_of_le_one_right packetNonneg below
  change max start (min (Rounding.nearest _) packetLen) = _
  rw [Nat.min_eq_left inside, Nat.max_eq_right ordered]

/-- Each range lies between the rounded positions of its share. -/
theorem getElem?_weightedRangesFrom {packetLen start : Nat} (inRange : start ≤ packetLen)
    {accumulated : Rat} (nonneg : 0 ≤ accumulated)
    (rounded : start = Rounding.nearest ((packetLen : Rat) * accumulated)) {weights : List Rat}
    (weightsNonneg : ∀ weight ∈ weights, 0 ≤ weight) (whole : accumulated + weights.sum = 1)
    {index : Nat} {span : Span} {weight : Rat}
    (isSpan : (weightedRangesFrom packetLen start inRange accumulated weights)[index]? = some span)
    (isWeight : weights[index]? = some weight) :
    ∃ before, 0 ≤ before ∧ span = ⟨Rounding.nearest ((packetLen : Rat) * before),
      Rounding.nearest ((packetLen : Rat) * (before + weight))⟩ := by
  induction weights generalizing start accumulated index with
  | nil => cases isWeight
  | cons head rest induction =>
      have headNonneg := weightsNonneg head List.mem_cons_self
      have restNonneg : ∀ weight ∈ rest, 0 ≤ weight := fun weight member =>
        weightsNonneg weight (List.mem_cons_of_mem _ member)
      rw [List.sum_cons, ← add_assoc] at whole
      rw [weightedRangesFrom] at isSpan
      cases rest with
      | nil =>
          rw [List.sum_nil, add_zero] at whole
          cases index with
          | zero =>
              cases isSpan
              cases isWeight
              refine ⟨accumulated, nonneg, ?_⟩
              rw [whole, mul_one, Rounding.nearest_natCast, ← rounded]
          | succ index => cases isWeight
      | cons next others =>
          have below : accumulated + head ≤ 1 := by
            have tail := List.sum_nonneg restNonneg
            linarith
          have stop := clamp_share_eq inRange rounded headNonneg below
          dsimp only at isSpan
          rw [List.isEmpty_cons, if_neg Bool.false_ne_true] at isSpan
          cases index with
          | zero =>
              cases isSpan
              cases isWeight
              refine ⟨accumulated, nonneg, ?_⟩
              rw [stop, rounded]
          | succ index =>
              have accumulatedNonneg : 0 ≤ accumulated + head := add_nonneg nonneg headNonneg
              exact induction _ accumulatedNonneg stop restNonneg whole isSpan isWeight

/-- The ranges along shares of one. -/
structure FairRanges (packetLen : Nat) (weights : List Rat) (spans : List Span) : Prop where
  tiles : Tiles 0 packetLen spans
  length : spans.length = weights.length
  fair : ∀ (index : Nat) (span : Span) (weight : Rat), spans[index]? = some span →
    weights[index]? = some weight → |(span.length : Rat) - packetLen * weight| ≤ 1
  nothing : ∀ (index : Nat) (span : Span), spans[index]? = some span →
    weights[index]? = some 0 → span.first = span.stop

/-- Each range has the length of its share up to one, and no share is no range. -/
theorem weightedSplitRanges_fair (packetLen : Nat) {weights : List Rat}
    (nonneg : ∀ weight ∈ weights, 0 ≤ weight) (whole : weights.sum = 1) :
    FairRanges packetLen weights (weightedSplitRanges packetLen weights) := by
  have nonempty : weights ≠ [] := by
    rintro rfl
    rw [List.sum_nil] at whole
    exact zero_ne_one whole
  have start : 0 = Rounding.nearest ((packetLen : Rat) * 0) := by
    have zero : Rounding.nearest ((0 : Nat) : Rat) = 0 := Rounding.nearest_natCast 0
    simpa using zero.symm
  have total : 0 + weights.sum = 1 := by
    rw [zero_add, whole]
  have packetNonneg : (0 : Rat) ≤ packetLen := Nat.cast_nonneg packetLen
  constructor
  · exact weightedSplitRanges_tiles packetLen nonempty
  · exact length_weightedSplitRanges packetLen weights
  · intro index span weight isSpan isWeight
    rcases getElem?_weightedRangesFrom (Nat.zero_le _) le_rfl start nonneg total isSpan isWeight
      with ⟨before, beforeNonneg, rfl⟩
    have weightNonneg := nonneg weight (List.mem_of_getElem? isWeight)
    have distance := Rounding.nearest_distance (mul_nonneg packetNonneg beforeNonneg)
      (mul_le_mul_of_nonneg_left (le_add_of_nonneg_right weightNonneg) packetNonneg)
    rw [mul_add, add_sub_cancel_left] at distance
    rw [Span.length, mul_add]
    exact distance
  · intro index span isSpan isWeight
    rcases getElem?_weightedRangesFrom (Nat.zero_le _) le_rfl start nonneg total isSpan isWeight
      with ⟨before, _, rfl⟩
    rw [add_zero]

end Irohsion.Client
