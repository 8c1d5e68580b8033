import Irohsion.Client.SplitRanges
import Mathlib.Data.Finset.Basic
import Std.Data.ExtTreeMap

/-! # Path strategy

The shared state that decides which paths carry a packet, as the value that one
read finds. The numbers of the source are `f32` rates and `f64` weights; the
strategy only uses the operations below.
-/

namespace Irohsion.Client

open Protocol Std

/-! ## Rates and weights -/

class Measure (N : Type u) extends Zero N, Add N, Sub N, Mul N, Div N, OfScientific N where
  ofNat : Nat → N
  le : N → N → Bool
  lt : N → N → Bool
  max : N → N → N
  min : N → N → N

/-- `f64::from` of an `f32`. -/
class Widen (Rate : Type u) (Weight : Type v) where
  widen : Rate → Weight

/-- `max` and `min` ignore a NaN. -/
instance floatMeasure : Measure Float where
  zero := 0.0
  ofNat := Float.ofNat
  le left right := left ≤ right
  lt left right := left < right
  max left right :=
    if left.isNaN then right else if right.isNaN then left else if left < right then right else left
  min left right :=
    if left.isNaN then right else if right.isNaN then left else if right < left then right else left

instance float32Measure : Measure Float32 where
  zero := 0.0
  ofNat := Float32.ofNat
  le left right := left ≤ right
  lt left right := left < right
  max left right :=
    if left.isNaN then right else if right.isNaN then left else if left < right then right else left
  min left right :=
    if left.isNaN then right else if right.isNaN then left else if right < left then right else left

instance floatWiden : Widen Float32 Float where
  widen := Float32.toFloat

/-- `f64::clamp`. -/
def clampMeasure {N : Type u} [Measure N] (value low high : N) : N :=
  if Measure.lt value low then low else if Measure.lt high value then high else value

def sum {N : Type u} [Measure N] (values : List N) : N :=
  values.foldl (· + ·) 0

/-- `f64::EPSILON`. -/
def epsilon {N : Type u} [Measure N] : N := 2.2204460492503131e-16

/-! ## The strategy state -/

inductive PathStrategy
  | redundant
  | split
  | roundRobin
  deriving DecidableEq, Repr

inductive StrategyMode
  | auto
  | redundant
  | split
  | roundRobin
  deriving DecidableEq, Repr

structure InterfaceHealth (Rate : Type u) where
  lastSeq : Option Nat
  serverMbps : Rate
  lastUnixMs : Nat

structure StrategyState (Rate Weight : Type) where
  mode : StrategyMode
  /-- What the automatic mode has chosen last. -/
  strategy : PathStrategy
  weightedAutoSplit : Bool
  roundRobinCursor : Nat
  splitPercentages : ExtTreeMap String (Option Weight)
  healthByInterface : ExtTreeMap String (InterfaceHealth Rate)
  /-- The keys of `interface_failures`. -/
  interfaceFailures : Finset String

def autoSplitHealthStaleMs : Nat := 1500
def autoSplitDegradeLagPackets : Nat := 120
def adaptiveFecGoodGroupPackets : Nat := 6
def adaptiveFecDegradedGroupPackets : Nat := 4
def adaptiveFecBadGroupPackets : Nat := 3
def adaptiveFecDegradedLagPackets : Nat := 40
def adaptiveFecBadLagPackets : Nat := 120

section Constants

variable {N : Type u} [Measure N]

def autoWeightMinRawShare : N := 0.01
def autoWeightMinLagPenalty : N := 0.35
def autoWeightThroughputBlend : N := 0.25
def autoWeightMinThroughputRatio : N := 0.25
def autoWeightMaxThroughputRatio : N := 2.0
def autoSplitMinAverageServerMbps : N := 0.25
def autoSplitMinServerMbpsRatio : N := 0.15
def autoSplitMinServerMbps : N := 0.05
def adaptiveFecDegradedServerMbpsRatio : N := 0.40
def adaptiveFecBadServerMbpsRatio : N := 0.15
def adaptiveFecMinDegradedServerMbps : N := 0.10
def adaptiveFecMinBadServerMbps : N := 0.05

end Constants

variable {Rate Weight : Type} [Measure Rate] [Measure Weight] [Widen Rate Weight]

/-! ## Health -/

def InterfaceHealth.isFresh (now : Nat) (health : InterfaceHealth Rate) : Bool :=
  now - health.lastUnixMs ≤ autoSplitHealthStaleMs

def pathHealthAllowsSplit (health : InterfaceHealth Rate) (bestLastSeq : Nat)
    (averageServerMbps : Rate) : Bool :=
  match health.lastSeq with
  | none => false
  | some lastSeq =>
      if autoSplitDegradeLagPackets < bestLastSeq - lastSeq then false
      else if Measure.lt averageServerMbps autoSplitMinAverageServerMbps then true
      else
        let minServerMbps :=
          Measure.max (averageServerMbps * autoSplitMinServerMbpsRatio) autoSplitMinServerMbps
        Measure.le minServerMbps health.serverMbps

def averageMbps {N : Type u} [Measure N] (rates : List N) : N :=
  sum rates / Measure.ofNat rates.length

def adaptiveFecGroupPacketsForHealth (health : List (InterfaceHealth Rate)) : Nat :=
  match health with
  | [] => adaptiveFecDegradedGroupPackets
  | first :: rest =>
      let lastSeqs := health.filterMap InterfaceHealth.lastSeq
      let worstLag :=
        match lastSeqs.max? with
        | none => 0
        | some best => (lastSeqs.map (best - ·)).max?.getD 0
      let averageServerMbps := averageMbps (health.map InterfaceHealth.serverMbps)
      -- The source folds from infinity, which any rate replaces.
      let minServerMbps :=
        (rest.map InterfaceHealth.serverMbps).foldl Measure.min first.serverMbps
      let badServerMbps :=
        Measure.max (averageServerMbps * adaptiveFecBadServerMbpsRatio)
          adaptiveFecMinBadServerMbps
      let degradedServerMbps :=
        Measure.max (averageServerMbps * adaptiveFecDegradedServerMbpsRatio)
          adaptiveFecMinDegradedServerMbps
      if adaptiveFecBadLagPackets ≤ worstLag ∨ Measure.le minServerMbps badServerMbps then
        adaptiveFecBadGroupPackets
      else if adaptiveFecDegradedLagPackets ≤ worstLag ∨
          Measure.le minServerMbps degradedServerMbps then
        adaptiveFecDegradedGroupPackets
      else adaptiveFecGoodGroupPackets

/-! ## Weights -/

def normalizeWeightsWithFallback (weights : List Weight) (fallback total : Weight) :
    List Weight :=
  if Measure.le total epsilon then weights.map fun _ => fallback
  else weights.map (· / total)

def normalizeWeights (weights : List Weight) : List Weight :=
  let fallback := if weights.isEmpty then 0 else 1.0 / Measure.ofNat weights.length
  normalizeWeightsWithFallback weights fallback (sum weights)

def blendedAutoWeight (serverMbps : Rate) (averageServerMbps lagPenalty : Weight) : Weight :=
  let throughputRatio : Weight :=
    if Measure.le averageServerMbps epsilon then 1.0
    else
      clampMeasure (Widen.widen (Measure.max serverMbps 0) / averageServerMbps)
        autoWeightMinThroughputRatio autoWeightMaxThroughputRatio
  let throughputScore :=
    (1.0 - autoWeightThroughputBlend) + autoWeightThroughputBlend * throughputRatio
  Measure.max (throughputScore * lagPenalty) autoWeightMinRawShare

namespace StrategyState

variable (state : StrategyState Rate Weight)

def current : PathStrategy :=
  match state.mode with
  | .redundant => .redundant
  | .split => .split
  | .roundRobin => .roundRobin
  | .auto =>
      match state.strategy with
      | .split => .split
      | _ => .redundant

/-- `next_round_robin_index`, without the increment of the cursor. -/
def nextRoundRobinIndex (pathCount : Nat) : Nat :=
  if pathCount = 0 then 0 else state.roundRobinCursor % pathCount

def adaptiveFecGroupPackets (now : Nat) : Nat :=
  adaptiveFecGroupPacketsForHealth (state.healthByInterface.values.filter (·.isFresh now))

/-- The health of an interface, unless it is stale. -/
def freshHealth (now : Nat) (interface : String) : Option (InterfaceHealth Rate) :=
  state.healthByInterface[interface]?.filter (·.isFresh now)

/-- The interfaces that may carry split packets, and those that may not. -/
def autoPathGroups (now : Nat) (interfaces : List String) : List String × List String :=
  let degraded := interfaces.filter (· ∈ state.interfaceFailures)
  let candidates := interfaces.filter (· ∉ state.interfaceFailures)
  if candidates.length < 2 then (candidates, degraded ++ candidates)
  else
    let fresh := candidates.filterMap fun interface =>
      (state.freshHealth now interface).map (interface, ·)
    match (fresh.filterMap fun entry => entry.2.lastSeq).max? with
    | none => ([], degraded ++ candidates)
    | some bestLastSeq =>
        let averageServerMbps := averageMbps (fresh.map fun entry => entry.2.serverMbps)
        let healthy := (fresh.filter fun entry =>
          pathHealthAllowsSplit entry.2 bestLastSeq averageServerMbps).map Prod.fst
        (healthy, degraded ++ candidates.filter (· ∉ healthy))

def splitWeights (interfaces : List String) : List Weight :=
  let evenWeight : Weight :=
    if interfaces.isEmpty then 0 else 1.0 / Measure.ofNat interfaces.length
  let weights := interfaces.map fun interface =>
    match state.splitPercentages[interface]? with
    | some (some percentage) => clampMeasure percentage 0 100.0 / 100.0
    | _ => evenWeight
  normalizeWeightsWithFallback weights evenWeight (sum weights)

def autoSplitWeights (now : Nat) (interfaces : List String) : List Weight :=
  if interfaces.isEmpty then []
  else
    let bestLastSeq := (interfaces.filterMap fun interface =>
      state.healthByInterface[interface]?.bind InterfaceHealth.lastSeq).max?
    let freshServerMbps : List Weight :=
      (interfaces.filter (· ∉ state.interfaceFailures)).filterMap fun interface =>
        (state.freshHealth now interface).map fun health =>
          Widen.widen (Measure.max health.serverMbps 0)
    let averageServerMbps :=
      if freshServerMbps.isEmpty then 0 else averageMbps freshServerMbps
    let raw := interfaces.map fun interface =>
      if interface ∈ state.interfaceFailures then 0
      else
        match state.freshHealth now interface with
        | none => autoWeightMinRawShare
        | some health =>
            let lagPenalty : Weight :=
              match bestLastSeq, health.lastSeq with
              | some best, some lastSeq =>
                  clampMeasure
                    (1.0 - Measure.ofNat (best - lastSeq) /
                      Measure.ofNat autoSplitDegradeLagPackets)
                    autoWeightMinLagPenalty 1.0
              | _, _ => 1.0
            blendedAutoWeight health.serverMbps averageServerMbps lagPenalty
    normalizeWeights raw

def zeroFailedWeights (interfaces : List String) (weights : List Weight) : List Weight :=
  let zeroed := List.zipWith
    (fun interface weight => if interface ∈ state.interfaceFailures then 0 else weight)
    interfaces weights
  let total := sum zeroed
  if Measure.le total epsilon then zeroed else zeroed.map (· / total)

def activeSplitWeights (now : Nat) (interfaces : List String) : List Weight :=
  let weights :=
    if state.mode = .auto ∧ state.weightedAutoSplit then state.autoSplitWeights now interfaces
    else state.splitWeights interfaces
  state.zeroFailedWeights interfaces weights

end StrategyState

/-! ## What the sender relies on -/

/-- An adaptive group has a size that `FecEncoder` may use. -/
theorem adaptiveFecGroupPacketsForHealth_cases (health : List (InterfaceHealth Rate)) :
    adaptiveFecGroupPacketsForHealth health ∈
      [adaptiveFecBadGroupPackets, adaptiveFecDegradedGroupPackets,
        adaptiveFecGoodGroupPackets] := by
  have chosen : ∀ (bad degraded : Prop) [Decidable bad] [Decidable degraded],
      (if bad then adaptiveFecBadGroupPackets
        else if degraded then adaptiveFecDegradedGroupPackets
        else adaptiveFecGoodGroupPackets) ∈
      [adaptiveFecBadGroupPackets, adaptiveFecDegradedGroupPackets,
        adaptiveFecGoodGroupPackets] := by
    intro bad degraded _ _
    split
    · simp
    · split <;> simp
  cases health with
  | nil => simp [adaptiveFecGroupPacketsForHealth]
  | cons first rest => exact chosen _ _

@[simp] theorem length_normalizeWeightsWithFallback (weights : List Weight)
    (fallback total : Weight) :
    (normalizeWeightsWithFallback weights fallback total).length = weights.length := by
  rw [normalizeWeightsWithFallback]
  split <;> rw [List.length_map]

namespace StrategyState

variable (state : StrategyState Rate Weight)

omit [Measure Rate] [Widen Rate Weight] in
@[simp] theorem length_splitWeights (interfaces : List String) :
    (state.splitWeights interfaces).length = interfaces.length := by
  simp [splitWeights]

@[simp] theorem length_autoSplitWeights (now : Nat) (interfaces : List String) :
    (state.autoSplitWeights now interfaces).length = interfaces.length := by
  rw [autoSplitWeights]
  split
  · rename_i empty
    rw [List.isEmpty_iff.mp empty]
    rfl
  · simp [normalizeWeights]

/-- Every interface has one weight. -/
@[simp] theorem length_activeSplitWeights (now : Nat) (interfaces : List String) :
    (state.activeSplitWeights now interfaces).length = interfaces.length := by
  have zeroed : ∀ weights : List Weight, weights.length = interfaces.length →
      (state.zeroFailedWeights interfaces weights).length = interfaces.length := by
    intro weights same
    unfold zeroFailedWeights
    dsimp only
    split <;> simp [same]
  rw [activeSplitWeights]
  apply zeroed
  split
  · exact length_autoSplitWeights state now interfaces
  · exact length_splitWeights state interfaces

end StrategyState

end Irohsion.Client
