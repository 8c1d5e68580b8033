import Irohsion.Client.RationalWeights
import Mathlib.Algebra.Order.Ring.Nat
import Mathlib.Logic.Relation

/-! # Shares of a split

In exact arithmetic the weights of a split are shares of one, failed interfaces
have none, and the ranges that the interfaces get have the lengths of their
shares up to one. Weights that leave next to nothing to the interfaces that have
not failed are not shared out. The client never sets a split percentage, so none
of its weights do.
-/

namespace Irohsion.Client

namespace StrategyState

variable (state : StrategyState Rat Rat) (now : Nat) (interfaces : List String)

/-! ## Weights before failed interfaces are zeroed -/

/-- The weights of the mode, which include those of failed interfaces. -/
def unzeroedWeights : List Rat :=
  if state.mode = .auto ∧ state.weightedAutoSplit then state.autoSplitWeights now interfaces
  else state.splitWeights interfaces

def zeroedWeights (weights : List Rat) : List Rat :=
  List.zipWith
    (fun interface weight => if interface ∈ state.interfaceFailures then 0 else weight)
    interfaces weights

theorem activeSplitWeights_eq :
    state.activeSplitWeights now interfaces =
      state.zeroFailedWeights interfaces (state.unzeroedWeights now interfaces) := rfl

/-- Every automatic weight comes from a raw share, which only failed interfaces
do not have. -/
theorem autoSplitWeights_eq_normalizeWeights :
    ∃ raw : String → Rat,
      state.autoSplitWeights now interfaces = normalizeWeights (interfaces.map raw) ∧
      (∀ interface, interface ∈ state.interfaceFailures → raw interface = 0) ∧
      ∀ interface, interface ∉ state.interfaceFailures →
        autoWeightMinRawShare ≤ raw interface := by
  rw [autoSplitWeights]
  split
  · rename_i empty
    rw [List.isEmpty_iff.mp empty]
    refine ⟨fun interface => if interface ∈ state.interfaceFailures then 0
      else autoWeightMinRawShare, normalizeWeights_nil.symm, ?_, ?_⟩
    · intro interface failed
      exact if_pos failed
    · intro interface live
      exact (if_neg live).ge
  · refine ⟨_, rfl, ?_, ?_⟩
    · intro interface failed
      exact if_pos failed
    · intro interface live
      dsimp only
      rw [if_neg live]
      split
      · exact le_refl _
      · exact le_measure_max_right _ _

theorem autoWeightMinRawShare_nonneg : (0 : Rat) ≤ autoWeightMinRawShare :=
  (epsilon_pos.trans epsilon_lt_minRawShare).le

theorem splitWeights_nonneg : ∀ weight ∈ state.splitWeights interfaces, 0 ≤ weight := by
  have hundred : (0 : Rat) ≤ 100.0 := by decide +kernel
  rw [splitWeights]
  apply normalizeWeightsWithFallback_nonneg _ (evenWeight_nonneg interfaces)
  intro weight member
  rcases List.mem_map.mp member with ⟨interface, _, rfl⟩
  split
  · rename_i percentage _
    exact div_nonneg (le_clampMeasure hundred percentage) hundred
  · exact evenWeight_nonneg interfaces

theorem unzeroedWeights_nonneg : ∀ weight ∈ state.unzeroedWeights now interfaces, 0 ≤ weight := by
  rw [unzeroedWeights]
  split
  · rcases autoSplitWeights_eq_normalizeWeights state now interfaces with
      ⟨raw, same, failed, live⟩
    have rawNonneg : ∀ weight ∈ interfaces.map raw, 0 ≤ weight := by
      intro weight member
      rcases List.mem_map.mp member with ⟨interface, _, rfl⟩
      by_cases isFailed : interface ∈ state.interfaceFailures
      · exact (failed interface isFailed).ge
      · exact autoWeightMinRawShare_nonneg.trans (live interface isFailed)
    rw [same]
    exact normalizeWeightsWithFallback_nonneg rawNonneg (evenWeight_nonneg _) _
  · exact splitWeights_nonneg state interfaces

theorem length_unzeroedWeights :
    (state.unzeroedWeights now interfaces).length = interfaces.length := by
  rw [unzeroedWeights]
  split
  · exact length_autoSplitWeights state now interfaces
  · exact length_splitWeights state interfaces

/-! ## Weights that failed interfaces have lost -/

theorem zeroedWeights_map (weight : String → Rat) :
    state.zeroedWeights interfaces (interfaces.map weight) =
      interfaces.map fun interface =>
        if interface ∈ state.interfaceFailures then 0 else weight interface := by
  rw [zeroedWeights, List.zipWith_map_right, List.zipWith_self]

theorem getElem?_zeroedWeights {weights : List Rat} {index : Nat} {interface : String}
    (isInterface : interfaces[index]? = some interface) :
    (state.zeroedWeights interfaces weights)[index]? = weights[index]?.map fun weight =>
      if interface ∈ state.interfaceFailures then 0 else weight := by
  rw [zeroedWeights, List.getElem?_zipWith, isInterface]
  cases weights[index]? <;> rfl

theorem zeroedWeights_nonneg {weights : List Rat} (nonneg : ∀ weight ∈ weights, 0 ≤ weight) :
    ∀ weight ∈ state.zeroedWeights interfaces weights, 0 ≤ weight := by
  intro weight member
  rcases List.getElem?_of_mem member with ⟨index, isWeight⟩
  rw [zeroedWeights, List.getElem?_zipWith] at isWeight
  split at isWeight
  · rename_i interface raw _ isRaw
    cases isWeight
    split
    · exact le_refl _
    · exact nonneg raw (List.mem_of_getElem? isRaw)
  · cases isWeight

/-- The weight that is left to the interfaces that have not failed. -/
def liveWeight : Rat :=
  (state.zeroedWeights interfaces (state.unzeroedWeights now interfaces)).sum

/-- The automatic weights need one interface that has not failed. Other weights
have to leave more than the tolerance to such interfaces. -/
def Shareable : Prop :=
  (state.mode = .auto ∧ state.weightedAutoSplit = true ∧
    ∃ interface ∈ interfaces, interface ∉ state.interfaceFailures) ∨
  epsilon < state.liveWeight now interfaces

/-- Automatic weights leave nothing to failed interfaces in the first place. -/
theorem liveWeight_auto (auto : state.mode = .auto ∧ state.weightedAutoSplit = true)
    (live : ∃ interface ∈ interfaces, interface ∉ state.interfaceFailures) :
    state.liveWeight now interfaces = 1 := by
  rcases autoSplitWeights_eq_normalizeWeights state now interfaces with ⟨raw, same, failed, kept⟩
  have rawNonneg : ∀ weight ∈ interfaces.map raw, 0 ≤ weight := by
    intro weight member
    rcases List.mem_map.mp member with ⟨interface, _, rfl⟩
    by_cases isFailed : interface ∈ state.interfaceFailures
    · exact (failed interface isFailed).ge
    · exact autoWeightMinRawShare_nonneg.trans (kept interface isFailed)
  have enough : epsilon < (interfaces.map raw).sum := by
    rcases live with ⟨interface, member, isLive⟩
    calc epsilon < autoWeightMinRawShare := epsilon_lt_minRawShare
      _ ≤ raw interface := kept interface isLive
      _ ≤ (interfaces.map raw).sum := List.single_le_sum rawNonneg _ (List.mem_map_of_mem member)
  have shares : state.unzeroedWeights now interfaces =
      interfaces.map fun interface => raw interface / (interfaces.map raw).sum := by
    rw [unzeroedWeights, if_pos auto, same, normalizeWeights, sum_eq_list_sum,
      normalizeWeightsWithFallback_of_lt enough, List.map_map]
    rfl
  have unchanged : (fun interface => if interface ∈ state.interfaceFailures then 0
      else raw interface / (interfaces.map raw).sum) =
        fun interface => raw interface / (interfaces.map raw).sum := by
    funext interface
    split
    · rename_i isFailed
      rw [failed interface isFailed, zero_div]
    · rfl
  have whole := sum_map_div_self (epsilon_pos.trans enough)
  rw [List.map_map] at whole
  rw [liveWeight, shares, zeroedWeights_map, unchanged]
  exact whole

theorem lt_liveWeight_of_shareable (shareable : state.Shareable now interfaces) :
    epsilon < state.liveWeight now interfaces := by
  rcases shareable with ⟨auto, weighted, live⟩ | enough
  · rw [liveWeight_auto state now interfaces ⟨auto, weighted⟩ live]
    decide +kernel
  · exact enough

/-- Equal weights leave enough unless there are more interfaces than the tolerance
allows for. -/
theorem shareable_of_even (even : ∀ interface ∈ interfaces, ∀ percentage,
      state.splitPercentages[interface]? ≠ some (some percentage))
    (unweighted : ¬ (state.mode = .auto ∧ state.weightedAutoSplit = true))
    (few : interfaces.length < 2 ^ 52)
    (live : ∃ interface ∈ interfaces, interface ∉ state.interfaceFailures) :
    state.Shareable now interfaces := by
  rcases live with ⟨interface, member, isLive⟩
  have positive : (0 : Rat) < interfaces.length := by
    rw [Nat.cast_pos]
    exact List.length_pos_of_mem member
  have evenWeight : (if interfaces.isEmpty then 0 else (1.0 : Rat) /
      Measure.ofNat interfaces.length) = 1 / interfaces.length := by
    have nonempty : interfaces.isEmpty = false := by
      rw [List.isEmpty_eq_false_iff]
      exact List.ne_nil_of_mem member
    have one : (1.0 : Rat) = 1 := by decide +kernel
    rw [nonempty, if_neg Bool.false_ne_true, one]
    rfl
  have weights : state.unzeroedWeights now interfaces =
      interfaces.map fun _ => 1 / (interfaces.length : Rat) := by
    rw [unzeroedWeights, if_neg unweighted, splitWeights]
    apply normalizeWeightsWithFallback_even (List.ne_nil_of_mem member)
    intro other isOther
    split
    · rename_i percentage isSet
      exact absurd isSet (even other isOther percentage)
    · exact evenWeight
  have nonneg : ∀ weight ∈ state.zeroedWeights interfaces
      (interfaces.map fun _ => 1 / (interfaces.length : Rat)), 0 ≤ weight := by
    apply zeroedWeights_nonneg
    intro weight isWeight
    rcases List.mem_map.mp isWeight with ⟨_, _, rfl⟩
    exact one_div_nonneg.mpr positive.le
  have kept : 1 / (interfaces.length : Rat) ∈ state.zeroedWeights interfaces
      (interfaces.map fun _ => 1 / (interfaces.length : Rat)) := by
    rw [zeroedWeights_map]
    exact List.mem_map.mpr ⟨interface, member, if_neg isLive⟩
  have share : epsilon < 1 / (interfaces.length : Rat) := by
    have bound : (epsilon : Rat) * (2 ^ 52 - 1 : Nat) < 1 := by decide +kernel
    have cast : (interfaces.length : Rat) ≤ (2 ^ 52 - 1 : Nat) :=
      Nat.cast_le.mpr (Nat.le_pred_of_lt few)
    rw [lt_div_iff₀ positive]
    exact lt_of_le_of_lt (mul_le_mul_of_nonneg_left cast epsilon_pos.le) bound
  right
  rw [liveWeight, weights]
  exact share.trans_le (List.single_le_sum nonneg _ kept)

/-- No interface has a split percentage. -/
def PercentagesUnset : Prop :=
  ∀ (interface : String) (percentage : Rat),
    state.splitPercentages[interface]? ≠ some (some percentage)

/-- `2 ^ 52` is one over the tolerance. -/
theorem shareable_of_unset (unset : state.PercentagesUnset)
    (few : ¬ (state.mode = .auto ∧ state.weightedAutoSplit = true) → interfaces.length < 2 ^ 52)
    (live : ∃ interface ∈ interfaces, interface ∉ state.interfaceFailures) :
    state.Shareable now interfaces := by
  by_cases weighted : state.mode = .auto ∧ state.weightedAutoSplit = true
  · exact Or.inl ⟨weighted.1, weighted.2, live⟩
  · apply shareable_of_even state now interfaces _ weighted (few weighted) live
    intro interface _
    exact unset interface

/-! ## Shares -/

/-- Weights that are shares of one, with none for failed interfaces. -/
structure FairShares (weights : List Rat) : Prop where
  length : weights.length = interfaces.length
  nonneg : ∀ weight ∈ weights, 0 ≤ weight
  whole : weights.sum = 1
  failed : ∀ (index : Nat) (interface : String), interfaces[index]? = some interface →
    interface ∈ state.interfaceFailures → weights[index]? = some 0

theorem activeSplitWeights_fair (shareable : state.Shareable now interfaces) :
    state.FairShares interfaces (state.activeSplitWeights now interfaces) := by
  have enough := lt_liveWeight_of_shareable state now interfaces shareable
  have normalized : state.activeSplitWeights now interfaces =
      (state.zeroedWeights interfaces (state.unzeroedWeights now interfaces)).map
        (· / state.liveWeight now interfaces) := by
    rw [activeSplitWeights_eq, zeroFailedWeights, sum_eq_list_sum, if_neg]
    · rfl
    · rw [measure_le_iff, not_le]
      exact enough
  have nonneg := zeroedWeights_nonneg state interfaces
    (unzeroedWeights_nonneg state now interfaces)
  constructor
  · exact length_activeSplitWeights state now interfaces
  · rw [normalized]
    exact div_nonneg_of_mem (epsilon_pos.trans enough) nonneg
  · rw [normalized]
    exact sum_map_div_self (epsilon_pos.trans enough)
  · intro index interface isInterface isFailed
    have bound : index < (state.unzeroedWeights now interfaces).length := by
      rw [length_unzeroedWeights]
      exact (List.getElem?_eq_some_iff.mp isInterface).1
    rw [normalized, List.getElem?_map, getElem?_zeroedWeights state interfaces isInterface,
      List.getElem?_eq_getElem bound, Option.map_some, Option.map_some, if_pos isFailed, zero_div]

end StrategyState

/-- A range that is not empty belongs to an interface that has not failed. -/
theorem live_of_nonempty {state : StrategyState Rat Rat} {interfaces : List String}
    {weights : List Rat} (shares : state.FairShares interfaces weights) {packetLen : Nat}
    {spans : List Span} (fair : FairRanges packetLen weights spans) {index : Nat} {span : Span}
    (isSpan : spans[index]? = some span) (nonempty : span.first ≠ span.stop) :
    ∃ interface, interfaces[index]? = some interface ∧
      interface ∉ state.interfaceFailures := by
  have bound : index < interfaces.length := by
    rw [← shares.length, ← fair.length]
    exact (List.getElem?_eq_some_iff.mp isSpan).1
  have isInterface := List.getElem?_eq_getElem bound
  refine ⟨_, isInterface, ?_⟩
  intro isFailed
  exact nonempty (fair.nothing index span isSpan (shares.failed index _ isInterface isFailed))

/-- Whether it is cut into chunks of the MTU or not, no part of a packet is given
to a failed interface. -/
theorem packetSplitRanges_live {state : StrategyState Rat Rat} {interfaces : List String}
    {weights : List Rat} (shares : state.FairShares interfaces weights) {packetLen : Nat}
    {mtu : Option Nat} {ranges : List SplitRange}
    (found : packetSplitRanges packetLen weights mtu = some ranges) {range : SplitRange}
    (member : range ∈ ranges) :
    ∃ interface, interfaces[range.pathIndex]? = some interface ∧
      interface ∉ state.interfaceFailures := by
  have fair := fun count => weightedSplitRanges_fair count shares.nonneg shares.whole
  rw [packetSplitRanges] at found
  split at found
  · rename_i maxPayload _
    rw [mtuChunkedSplitRanges] at found
    dsimp only at found
    split at found
    · cases found
    · split at found
      · cases found
      · split at found
        · cases found
          cases member
        · cases found
          rcases List.mem_flatMap.mp member with ⟨indexed, given, taken⟩
          have isSpan := List.mem_zipIdx_iff_getElem?.mp given
          have someChunk : indexed.1.first ≠ indexed.1.stop := by
            intro empty
            have noChunk : indexed.1.length = 0 := by
              rw [Span.length, empty, Nat.sub_self]
            rw [pathChunks, Span.slice, noChunk, List.take_zero, List.map_nil] at taken
            cases taken
          rw [(mem_pathChunks taken).1]
          exact live_of_nonempty shares (fair _) isSpan someChunk
  · dsimp only at found
    split at found
    · cases found
      rcases List.mem_map.mp member with ⟨indexed, given, rfl⟩
      rcases List.mem_filter.mp given with ⟨isIndexed, nonempty⟩
      have isSpan := List.mem_zipIdx_iff_getElem?.mp isIndexed
      exact live_of_nonempty shares (fair packetLen) isSpan (of_decide_eq_true nonempty)
    · cases found

theorem fairRanges_of_shares {state : StrategyState Rat Rat} {interfaces : List String}
    {weights : List Rat} (shares : state.FairShares interfaces weights) :
    (∀ packetLen, FairRanges packetLen weights (weightedSplitRanges packetLen weights)) ∧
      ∀ packetLen mtu ranges, packetSplitRanges packetLen weights mtu = some ranges →
        ∀ range ∈ ranges, ∃ interface, interfaces[range.pathIndex]? = some interface ∧
          interface ∉ state.interfaceFailures := by
  constructor
  · intro packetLen
    exact weightedSplitRanges_fair packetLen shares.nonneg shares.whole
  · intro packetLen mtu ranges found range member
    exact packetSplitRanges_live shares found member

/-- The weights are shares of one and the ranges follow them. No part of a packet
goes to a failed interface. -/
theorem split_shares_fair {state : StrategyState Rat Rat} {now : Nat} {interfaces : List String}
    (unset : state.PercentagesUnset)
    (few : ¬ (state.mode = .auto ∧ state.weightedAutoSplit = true) → interfaces.length < 2 ^ 52)
    (live : ∃ interface ∈ interfaces, interface ∉ state.interfaceFailures) :
    state.FairShares interfaces (state.activeSplitWeights now interfaces) ∧
      (∀ packetLen, FairRanges packetLen (state.activeSplitWeights now interfaces)
        (weightedSplitRanges packetLen (state.activeSplitWeights now interfaces))) ∧
      ∀ packetLen mtu ranges,
        packetSplitRanges packetLen (state.activeSplitWeights now interfaces) mtu =
          some ranges →
        ∀ range ∈ ranges, ∃ interface, interfaces[range.pathIndex]? = some interface ∧
          interface ∉ state.interfaceFailures := by
  have shareable := state.shareable_of_unset now interfaces unset few live
  have shares := state.activeSplitWeights_fair now interfaces shareable
  exact ⟨shares, fairRanges_of_shares shares⟩

/-! ## The strategy of a client -/

/-- The state that `spawn_strategy_loop` makes. -/
def spawnStrategyLoop (interfaces : List String) : StrategyState Rat Rat where
  mode := .auto
  strategy := .split
  weightedAutoSplit := true
  roundRobinCursor := 0
  splitPercentages :=
    interfaces.foldl (fun percentages interface => percentages.insert interface none) ∅
  healthByInterface := ∅
  interfaceFailures := ∅

/-- What the tasks of the client write to the state they share. A health report
may leave any health. -/
inductive StrategyWrite (state : StrategyState Rat Rat) : StrategyState Rat Rat → Prop
  | setMode (mode : StrategyMode) : StrategyWrite state { state with mode := mode }
  | set (strategy : PathStrategy) : StrategyWrite state { state with strategy := strategy }
  | toggleWeightedAutoSplit :
      StrategyWrite state { state with weightedAutoSplit := !state.weightedAutoSplit }
  | nextRoundRobinIndex :
      StrategyWrite state
        { state with roundRobinCursor := (state.roundRobinCursor + 1) % UInt64.size }
  | recordHealthReport (health : Std.ExtTreeMap String (InterfaceHealth Rat)) :
      StrategyWrite state { state with healthByInterface := health }
  | recordInterfaceSuccess (interface : String) :
      StrategyWrite state
        { state with interfaceFailures := state.interfaceFailures.erase interface }
  | recordInterfaceFailure (interface : String) :
      StrategyWrite state
        { state with interfaceFailures := insert interface state.interfaceFailures }

theorem spawnStrategyLoop_unset (interfaces : List String) :
    (spawnStrategyLoop interfaces).PercentagesUnset := by
  have unset : ∀ percentages : Std.ExtTreeMap String (Option Rat),
      (∀ (interface : String) (percentage : Rat),
        percentages[interface]? ≠ some (some percentage)) →
      ∀ (interface : String) (percentage : Rat),
        (interfaces.foldl (fun percentages interface => percentages.insert interface none)
          percentages)[interface]? ≠ some (some percentage) := by
    induction interfaces with
    | nil => exact fun _ unset => unset
    | cons first rest induction =>
        intro percentages unset
        apply induction
        intro interface percentage
        rw [Std.ExtTreeMap.getElem?_insert]
        split
        · intro impossible
          cases impossible
        · exact unset interface percentage
  apply unset
  intro interface percentage found
  rw [Std.ExtTreeMap.getElem?_empty] at found
  cases found

/-- Nothing sets a percentage afterwards. -/
theorem StrategyState.PercentagesUnset.of_writes {interfaces : List String}
    {state : StrategyState Rat Rat}
    (writes : Relation.ReflTransGen StrategyWrite (spawnStrategyLoop interfaces) state) :
    state.PercentagesUnset := by
  induction writes with
  | refl => exact spawnStrategyLoop_unset interfaces
  | tail _ write unset =>
      cases write with
      | _ => exact unset

/-- The second of two interfaces fails after the mode has been set. -/
def failedSecond : StrategyState Rat Rat :=
  { spawnStrategyLoop ["first", "second"] with mode := .split, interfaceFailures := {"second"} }

/-- The first interface carries the whole packet. -/
theorem split_shares_fair_failedSecond :
    Relation.ReflTransGen StrategyWrite (spawnStrategyLoop ["first", "second"]) failedSecond ∧
      failedSecond.FairShares ["first", "second"]
        (failedSecond.activeSplitWeights 0 ["first", "second"]) ∧
      FairRanges 10 (failedSecond.activeSplitWeights 0 ["first", "second"])
        (weightedSplitRanges 10 (failedSecond.activeSplitWeights 0 ["first", "second"])) ∧
      packetSplitRanges 10 (failedSecond.activeSplitWeights 0 ["first", "second"]) none =
        some [⟨0, ⟨0, 10⟩⟩] ∧
      ∃ interface, ["first", "second"][0]? = some interface ∧
        interface ∉ failedSecond.interfaceFailures := by
  have writes : Relation.ReflTransGen StrategyWrite (spawnStrategyLoop ["first", "second"])
      failedSecond :=
    (Relation.ReflTransGen.single (.setMode .split)).tail (.recordInterfaceFailure "second")
  have whole : packetSplitRanges 10
      (failedSecond.activeSplitWeights 0 ["first", "second"]) none =
        some [⟨0, ⟨0, 10⟩⟩] := by decide +kernel
  have fair := @split_shares_fair failedSecond 0 ["first", "second"] (.of_writes writes)
    (fun _ => by decide) ⟨"first", List.mem_cons_self, by decide⟩
  exact ⟨writes, fair.1, fair.2.1 10, whole, fair.2.2 10 none _ whole _ List.mem_cons_self⟩

end Irohsion.Client
