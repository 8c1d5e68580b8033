import Irohsion.Client.RationalWeights
import Irohsion.Foundation.Clock
import Irohsion.Foundation.Settling

/-! # The strategy loop

In automatic mode a tick of `strategy_loop` leaves split sending when a path is
not healthy or a backlog is too long, and returns to it when all paths are
healthy and the longest backlog is short enough. What a tick reads of other
tasks and of the system is a value of its own.
-/

namespace Irohsion.Client

open Std Settling

/-! ## Configuration and readings -/

structure StrategyInterface where
  displayName : String
  deviceName : String
  deriving DecidableEq, Repr

structure QdiscResetConfig (Rate : Type) where
  backlogBytes : Nat
  maxServerMbps : Rate
  cooldown : Duration

/-- The options of the loop, with the check of `main`. -/
structure StrategyLoopConfig (Rate : Type) where
  interfaces : List StrategyInterface
  degradeBacklogBytes : Nat
  recoverBacklogBytes : Nat
  qdiscReset : Option (QdiscResetConfig Rate)
  recover_le : recoverBacklogBytes ≤ degradeBacklogBytes

/-- What one tick reads: the backlog of each interface, if `tc` tells it, the
outcome of a reset, and what other tasks have made of the strategy state. -/
structure TickReads (Rate Weight : Type) where
  tcBacklogs : List (Option Nat)
  replaceRootQdisc : String → Except String Unit
  shared : StrategyState Rate Weight
  unixMs : Nat
  now : Instant

inductive StrategyEffect (Rate : Type)
  | qdiscReset (interface device : String) (backlog : Nat) (serverMbps : Rate)
  | qdiscResetFailed (interface device : String) (backlog : Nat) (serverMbps : Rate)
      (error : String)
  | strategyChange (strategy reason : String)

/-- What the loop and the strategy state keep from one tick to the next. -/
structure StrategyLoopState (Rate : Type) where
  strategy : PathStrategy
  lastQdiscResetByInterface : ExtTreeMap String Instant
  trace : List (StrategyEffect Rate)

variable {Rate Weight : Type}

namespace StrategyLoopState

def emit (effect : StrategyEffect Rate) (state : StrategyLoopState Rate) :
    StrategyLoopState Rate :=
  { state with trace := state.trace ++ [effect] }

def change (strategy : PathStrategy) (name reason : String) (state : StrategyLoopState Rate) :
    StrategyLoopState Rate :=
  { state with strategy := strategy }.emit (.strategyChange name reason)

end StrategyLoopState

def StrategyLoopConfig.interfaceNames (config : StrategyLoopConfig Rate) : List String :=
  config.interfaces.map StrategyInterface.displayName

/-- The strategy state with what the loop has chosen. -/
def TickReads.state (reads : TickReads Rate Weight) (state : StrategyLoopState Rate) :
    StrategyState Rate Weight :=
  { reads.shared with strategy := state.strategy }

/-! ## The choice -/

/-- What the automatic mode makes of the stored strategy. -/
def effective (strategy : PathStrategy) : PathStrategy :=
  match strategy with
  | .split => .split
  | .redundant | .roundRobin => .redundant

/-- The choice by the longest backlog and the health of the paths. -/
def nextEffective (config : StrategyLoopConfig Rate) (worst : Option Nat) (ready : Bool)
    (current : PathStrategy) : PathStrategy :=
  let threshold :=
    match current with
    | .split => fun backlog => decide (backlog < config.degradeBacklogBytes)
    | .redundant | .roundRobin => fun backlog => decide (backlog ≤ config.recoverBacklogBytes)
  if ready && worst.all threshold then .split else .redundant

variable {config : StrategyLoopConfig Rate} {worst : Option Nat} {ready : Bool}

theorem effective_cases (strategy : PathStrategy) :
    effective strategy = .split ∨ effective strategy = .redundant := by
  cases strategy <;> simp [effective]

theorem nextEffective_split (backlog : Nat) :
    nextEffective config (some backlog) true .split =
      if backlog < config.degradeBacklogBytes then .split else .redundant := by
  simp [nextEffective]

theorem nextEffective_redundant (backlog : Nat) :
    nextEffective config (some backlog) true .redundant =
      if backlog ≤ config.recoverBacklogBytes then .split else .redundant := by
  simp [nextEffective]

/-- Unless the numbers coincide, a backlog at which split is taken again is below
the threshold at which it is left. -/
theorem lt_degrade_of_le_recover {backlog : Nat}
    (apart : ¬ (some backlog = some config.degradeBacklogBytes ∧
      config.recoverBacklogBytes = config.degradeBacklogBytes))
    (recovered : backlog ≤ config.recoverBacklogBytes) : backlog < config.degradeBacklogBytes := by
  have ordered := config.recover_le
  by_contra reached
  apply apart
  constructor
  · congr 1
    omega
  · omega

theorem nextEffective_nextEffective
    (apart : ¬ (ready = true ∧ worst = some config.degradeBacklogBytes ∧
      config.recoverBacklogBytes = config.degradeBacklogBytes))
    {current : PathStrategy} (chosen : current = .split ∨ current = .redundant) :
    nextEffective config worst ready (nextEffective config worst ready current) =
      nextEffective config worst ready current := by
  cases ready with
  | false => rfl
  | true =>
      cases worst with
      | none => rfl
      | some backlog =>
          have recovered := lt_degrade_of_le_recover fun same => apart ⟨rfl, same⟩
          rcases chosen with rfl | rfl
          · by_cases low : backlog < config.degradeBacklogBytes
            · have stays : nextEffective config (some backlog) true .split = .split := by
                rw [nextEffective_split, if_pos low]
              rw [stays, stays]
            · rw [nextEffective_split, if_neg low, nextEffective_redundant,
                if_neg (mt recovered low)]
          · by_cases low : backlog ≤ config.recoverBacklogBytes
            · rw [nextEffective_redundant, if_pos low, nextEffective_split, if_pos (recovered low)]
            · have stays : nextEffective config (some backlog) true .redundant = .redundant := by
                rw [nextEffective_redundant, if_neg low]
              rw [stays, stays]

theorem lt_degrade_of_nextEffective
    (apart : ¬ (ready = true ∧ worst = some config.degradeBacklogBytes ∧
      config.recoverBacklogBytes = config.degradeBacklogBytes))
    {current : PathStrategy} (chosen : current = .split ∨ current = .redundant)
    (split : nextEffective config worst ready current = .split) :
    ready = true ∧ ∀ backlog, worst = some backlog → backlog < config.degradeBacklogBytes := by
  cases ready with
  | false => contradiction
  | true =>
      constructor
      · rfl
      · rintro backlog rfl
        by_contra reached
        rcases chosen with rfl | rfl
        · rw [nextEffective_split, if_neg reached] at split
          contradiction
        · have recovered := lt_degrade_of_le_recover fun same => apart ⟨rfl, same⟩
          rw [nextEffective_redundant, if_neg (mt recovered reached)] at split
          contradiction

/-! ## A tick -/

/-- The interfaces whose backlog is known. -/
def backlogs (interfaces : List StrategyInterface) (tcBacklogs : List (Option Nat)) :
    List (StrategyInterface × Nat) :=
  (interfaces.zip tcBacklogs).filterMap fun (interface, backlog) => backlog.map (interface, ·)

def keepLonger (worst : Option (StrategyInterface × Nat)) (reading : StrategyInterface × Nat) :
    Option (StrategyInterface × Nat) :=
  if worst.all fun existing => decide (existing.2 < reading.2) then some reading else worst

/-- The first of the longest backlogs. -/
def worstBacklog (backlogs : List (StrategyInterface × Nat)) : Option (StrategyInterface × Nat) :=
  backlogs.foldl keepLonger none

theorem foldl_keepLonger (backlogs : List (StrategyInterface × Nat))
    (worst : StrategyInterface × Nat) :
    (backlogs.foldl keepLonger (some worst)).map Prod.snd =
      some ((backlogs.map Prod.snd).foldl max worst.2) := by
  induction backlogs generalizing worst with
  | nil => rfl
  | cons reading rest induction =>
      rw [List.foldl_cons, List.map_cons, List.foldl_cons]
      by_cases longer : worst.2 < reading.2
      · have kept : keepLonger (some worst) reading = some reading :=
          if_pos (decide_eq_true longer)
        rw [kept, induction, Nat.max_eq_right longer.le]
      · have kept : keepLonger (some worst) reading = some worst :=
          if_neg (mt of_decide_eq_true longer)
        rw [kept, induction, Nat.max_eq_left (Nat.le_of_not_lt longer)]

theorem worstBacklog_snd (backlogs : List (StrategyInterface × Nat)) :
    (worstBacklog backlogs).map Prod.snd = (backlogs.map Prod.snd).max? := by
  cases backlogs with
  | nil => rfl
  | cons reading rest => exact foldl_keepLonger rest reading

variable [Measure Rate]

def qdiscResetShouldRun (backlog : Nat) (health : Option (InterfaceHealth Rate))
    (config : QdiscResetConfig Rate) : Bool :=
  decide (config.backlogBytes ≤ backlog) &&
    health.any fun health => Measure.le health.serverMbps config.maxServerMbps

def resetQdiscs (config : QdiscResetConfig Rate) (reads : TickReads Rate Weight)
    (backlogs : List (StrategyInterface × Nat)) (state : StrategyLoopState Rate) :
    StrategyLoopState Rate :=
  backlogs.foldl (fun state (interface, backlog) =>
    let health := reads.shared.freshHealth reads.unixMs interface.displayName
    if !qdiscResetShouldRun backlog health config then state
    else if state.lastQdiscResetByInterface[interface.displayName]?.any fun last =>
        decide (last.elapsed reads.now < config.cooldown) then state
    else
      let state := { state with
        lastQdiscResetByInterface :=
          state.lastQdiscResetByInterface.insert interface.displayName reads.now }
      let serverMbps := (health.map InterfaceHealth.serverMbps).getD 0
      match reads.replaceRootQdisc interface.deviceName with
      | .ok () =>
          state.emit (.qdiscReset interface.displayName interface.deviceName backlog serverMbps)
      | .error error =>
          state.emit
            (.qdiscResetFailed interface.displayName interface.deviceName backlog serverMbps
              error)) state

def StrategyState.autoSplitReady (state : StrategyState Rate Weight) (now : Nat)
    (interfaces : List String) : Bool :=
  let (healthy, degraded) := state.autoPathGroups now interfaces
  decide (2 ≤ healthy.length) && degraded.isEmpty

def degradeToRedundant (reads : TickReads Rate Weight) (reason : String)
    (state : StrategyLoopState Rate) : StrategyLoopState Rate :=
  if (reads.state state).mode ≠ .auto then state
  else if (reads.state state).current = .redundant then state
  else state.change .redundant "redundant" reason

/-- The part of a tick that follows the resets. -/
def chooseStrategy (config : StrategyLoopConfig Rate) (reads : TickReads Rate Weight)
    (worst : Option (StrategyInterface × Nat)) (state : StrategyLoopState Rate) :
    StrategyLoopState Rate :=
  let current := (reads.state state).current
  let ready := (reads.state state).autoSplitReady reads.unixMs config.interfaceNames
  if (reads.state state).mode ≠ .auto then state
  else if current = .split ∧ ready = false then
    degradeToRedundant reads "not enough healthy paths for split" state
  else
    match current, worst with
    | .split, some (worst, backlog) =>
        let interface := worst.displayName
        let threshold := config.degradeBacklogBytes
        if threshold ≤ backlog then
          degradeToRedundant reads
            s!"tc backlog interface={interface} backlog_bytes={backlog} threshold_bytes={threshold}"
            state
        else state
    | .redundant, some (worst, backlog) =>
        let interface := worst.displayName
        let threshold := config.recoverBacklogBytes
        let recovered := s!"tc backlog recovered interface={interface} backlog_bytes={backlog}"
        if backlog ≤ threshold ∧ ready = true then
          state.change .split "split" s!"{recovered} threshold_bytes={threshold}"
        else state
    | .redundant, none =>
        if ready = true then state.change .split "split" "tc backlog unavailable" else state
    | _, _ => state

def strategyTick (config : StrategyLoopConfig Rate) (reads : TickReads Rate Weight)
    (state : StrategyLoopState Rate) : StrategyLoopState Rate :=
  let backlogs := backlogs config.interfaces reads.tcBacklogs
  let state :=
    match config.qdiscReset with
    | some qdiscReset => resetQdiscs qdiscReset reads backlogs state
    | none => state
  chooseStrategy config reads (worstBacklog backlogs) state

/-- The state after a number of ticks. -/
def strategyTicks (config : StrategyLoopConfig Rate) (reads : Nat → TickReads Rate Weight)
    (start : StrategyLoopState Rate) : Nat → StrategyLoopState Rate
  | 0 => start
  | ticks + 1 => strategyTick config (reads ticks) (strategyTicks config reads start ticks)

/-! ## The choice of a tick -/

variable {reads : TickReads Rate Weight}

theorem resetQdiscs_strategy (qdiscReset : QdiscResetConfig Rate) (reads : TickReads Rate Weight)
    (backlogs : List (StrategyInterface × Nat)) (state : StrategyLoopState Rate) :
    (resetQdiscs qdiscReset reads backlogs state).strategy = state.strategy := by
  apply @List.foldlRecOn _ _
    (fun next : StrategyLoopState Rate => next.strategy = state.strategy) backlogs
  · rfl
  · rintro next same ⟨interface, backlog⟩ -
    dsimp only
    split
    · exact same
    · split
      · exact same
      · split
        · exact same
        · exact same

omit [Measure Rate] in
theorem current_of_auto (auto : reads.shared.mode = .auto) (state : StrategyLoopState Rate) :
    (reads.state state).current = effective state.strategy := by
  have mode : (reads.state state).mode = .auto := auto
  rw [StrategyState.current, mode]
  rcases state with ⟨_ | _ | _, -, -⟩ <;> rfl

omit [Measure Rate] in
theorem effective_degradeToRedundant (auto : reads.shared.mode = .auto) (reason : String)
    (state : StrategyLoopState Rate) :
    effective (degradeToRedundant reads reason state).strategy = .redundant := by
  have mode : (reads.state state).mode = .auto := auto
  rw [degradeToRedundant, if_neg (not_not.mpr mode), current_of_auto auto]
  split
  · assumption
  · rfl

theorem effective_chooseStrategy (auto : reads.shared.mode = .auto)
    (worst : Option (StrategyInterface × Nat)) (state : StrategyLoopState Rate) :
    effective (chooseStrategy config reads worst state).strategy =
      nextEffective config (worst.map Prod.snd)
        (reads.shared.autoSplitReady reads.unixMs config.interfaceNames)
        (effective state.strategy) := by
  have mode : (reads.state state).mode = .auto := auto
  have ready : (reads.state state).autoSplitReady reads.unixMs config.interfaceNames =
      reads.shared.autoSplitReady reads.unixMs config.interfaceNames := rfl
  unfold chooseStrategy
  dsimp only
  rw [if_neg (not_not.mpr mode), current_of_auto auto, ready]
  rcases effective_cases state.strategy with current | current
  · rw [current]
    cases reads.shared.autoSplitReady reads.unixMs config.interfaceNames with
    | false =>
        rw [if_pos ⟨rfl, rfl⟩]
        exact effective_degradeToRedundant auto _ state
    | true =>
        rw [if_neg (by simp)]
        rcases worst with _ | ⟨interface, backlog⟩
        · exact current
        · dsimp only
          by_cases reached : config.degradeBacklogBytes ≤ backlog
          · rw [if_pos reached, effective_degradeToRedundant auto]
            simp [nextEffective, reached]
          · rw [if_neg reached, current]
            simp [nextEffective, Nat.lt_of_not_le reached]
  · rw [current, if_neg (by simp)]
    cases reads.shared.autoSplitReady reads.unixMs config.interfaceNames with
    | false =>
        rcases worst with _ | ⟨interface, backlog⟩
        · exact current
        · dsimp only
          rw [if_neg (by simp), current]
          rfl
    | true =>
        rcases worst with _ | ⟨interface, backlog⟩
        · rfl
        · dsimp only
          by_cases low : backlog ≤ config.recoverBacklogBytes
          · rw [if_pos ⟨low, rfl⟩]
            simp [nextEffective, low, StrategyLoopState.change, StrategyLoopState.emit, effective]
          · rw [if_neg (fun both => low both.1), current]
            simp [nextEffective, low]

theorem effective_strategyTick (auto : reads.shared.mode = .auto) (state : StrategyLoopState Rate) :
    effective (strategyTick config reads state).strategy =
      nextEffective config
        ((worstBacklog (backlogs config.interfaces reads.tcBacklogs)).map Prod.snd)
        (reads.shared.autoSplitReady reads.unixMs config.interfaceNames)
        (effective state.strategy) := by
  rw [strategyTick, effective_chooseStrategy auto]
  cases config.qdiscReset with
  | none => rfl
  | some qdiscReset =>
      dsimp only
      rw [resetQdiscs_strategy]

/-! ## Environments that stay the same -/

/-- Every tick reads the same backlogs and finds the paths equally ready, in
automatic mode. -/
structure Steady (config : StrategyLoopConfig Rate) (tcBacklogs : List (Option Nat))
    (ready : Bool) (reads : Nat → TickReads Rate Weight) : Prop where
  auto : ∀ tick, (reads tick).shared.mode = .auto
  backlogs : ∀ tick, (reads tick).tcBacklogs = tcBacklogs
  ready : ∀ tick,
    (reads tick).shared.autoSplitReady (reads tick).unixMs config.interfaceNames = ready

/-- The strategy that holds before the tick. -/
def effectiveAt (config : StrategyLoopConfig Rate) (reads : Nat → TickReads Rate Weight)
    (start : StrategyLoopState Rate) (tick : Nat) : PathStrategy :=
  ((reads tick).state (strategyTicks config reads start tick)).current

/-- The strategy changes at most once, and a tick that leaves it on split has
found the paths ready and the longest backlog, if one is known, below the
threshold. -/
structure Settles (config : StrategyLoopConfig Rate) (reads : Nat → TickReads Rate Weight)
    (start : StrategyLoopState Rate) : Prop where
  once : ∀ ticks, ((List.range ticks).countP fun tick => decide
    (effectiveAt config reads start (tick + 1) ≠ effectiveAt config reads start tick)) ≤ 1
  split : ∀ tick, effectiveAt config reads start (tick + 1) = .split →
    (reads tick).shared.autoSplitReady (reads tick).unixMs config.interfaceNames = true ∧
      ∀ interface backlog,
        worstBacklog (backlogs config.interfaces (reads tick).tcBacklogs) =
          some (interface, backlog) → backlog < config.degradeBacklogBytes

/-- The thresholds and the longest known backlog are one number. -/
def Coincide (config : StrategyLoopConfig Rate) (tcBacklogs : List (Option Nat)) : Prop :=
  ((backlogs config.interfaces tcBacklogs).map Prod.snd).max? = some config.degradeBacklogBytes ∧
    config.recoverBacklogBytes = config.degradeBacklogBytes

variable {tcBacklogs : List (Option Nat)} {runReads : Nat → TickReads Rate Weight}
variable {start : StrategyLoopState Rate}

theorem Steady.effectiveAt_cases (steady : Steady config tcBacklogs ready runReads)
    (start : StrategyLoopState Rate) (tick : Nat) :
    effectiveAt config runReads start tick = .split ∨
      effectiveAt config runReads start tick = .redundant := by
  rw [effectiveAt, current_of_auto (steady.auto tick)]
  exact effective_cases _

theorem Steady.effectiveAt_succ (steady : Steady config tcBacklogs ready runReads)
    (start : StrategyLoopState Rate) (tick : Nat) :
    effectiveAt config runReads start (tick + 1) =
      nextEffective config ((Client.backlogs config.interfaces tcBacklogs).map Prod.snd).max? ready
        (effectiveAt config runReads start tick) := by
  rw [effectiveAt, effectiveAt, current_of_auto (steady.auto _), current_of_auto (steady.auto _),
    strategyTicks, effective_strategyTick (steady.auto tick), steady.backlogs, steady.ready,
    worstBacklog_snd]

theorem Steady.effectiveAt_iterate (steady : Steady config tcBacklogs ready runReads)
    (start : StrategyLoopState Rate) (tick : Nat) :
    effectiveAt config runReads start tick =
      (nextEffective config ((Client.backlogs config.interfaces tcBacklogs).map Prod.snd).max?
        ready)^[tick] (effectiveAt config runReads start 0) := by
  induction tick with
  | zero => rfl
  | succ tick induction =>
      rw [steady.effectiveAt_succ, induction, Function.iterate_succ_apply']

/-- Where the numbers coincide, every tick changes the strategy. -/
theorem Steady.flips (steady : Steady config tcBacklogs true runReads)
    (coincide : Coincide config tcBacklogs) (start : StrategyLoopState Rate) (tick : Nat) :
    effectiveAt config runReads start (tick + 1) ≠ effectiveAt config runReads start tick := by
  rw [steady.effectiveAt_succ, coincide.1]
  rcases steady.effectiveAt_cases start tick with split | redundant
  · rw [split, nextEffective_split, if_neg (lt_irrefl _)]
    decide
  · rw [redundant, nextEffective_redundant, if_pos coincide.2.ge]
    decide

theorem Steady.not_settles (steady : Steady config tcBacklogs true runReads)
    (coincide : Coincide config tcBacklogs) (start : StrategyLoopState Rate) :
    ¬ Settles config runReads start := by
  intro settles
  have twice := settles.once 2
  simp [List.range_succ, steady.flips coincide start] at twice

/-- In an environment that stays the same the strategy settles, except where ready
paths have a longest backlog that is both thresholds at once. -/
theorem strategyLoop_settles_iff (steady : Steady config tcBacklogs ready runReads)
    (start : StrategyLoopState Rate) :
    Settles config runReads start ↔ ¬ (ready = true ∧ Coincide config tcBacklogs) := by
  constructor
  · rintro settles ⟨rfl, coincide⟩
    exact steady.not_settles coincide start settles
  · intro apart
    constructor
    · intro ticks
      have few := changes_le_one_iff.mpr
        (Or.inr (nextEffective_nextEffective apart (steady.effectiveAt_cases start 0))) ticks
      simp only [changes, ← steady.effectiveAt_iterate start] at few
      exact few
    · intro tick split
      rw [steady.effectiveAt_succ] at split
      have chosen := steady.effectiveAt_cases start tick
      rcases lt_degrade_of_nextEffective apart chosen split with ⟨held, below⟩
      rw [steady.ready, steady.backlogs]
      constructor
      · exact held
      · intro interface backlog worst
        apply below backlog
        rw [← worstBacklog_snd, worst]
        rfl

/-- Both of two interfaces have reported that nothing arrives. -/
def idleStrategy : StrategyState Rat Rat where
  mode := .auto
  strategy := .split
  weightedAutoSplit := true
  roundRobinCursor := 0
  splitPercentages := ∅
  healthByInterface :=
    ((∅ : ExtTreeMap String (InterfaceHealth Rat)).insert "wifi" ⟨some 0, 0, 0⟩).insert
      "mobile" ⟨some 0, 0, 0⟩
  interfaceFailures := ∅

def idleConfig (degrade recover : Nat) (recover_le : recover ≤ degrade) :
    StrategyLoopConfig Rat where
  interfaces := [⟨"wifi", "wlan0"⟩, ⟨"mobile", "wwan0"⟩]
  degradeBacklogBytes := degrade
  recoverBacklogBytes := recover
  qdiscReset := none
  recover_le := recover_le

def idleReads (tcBacklogs : List (Option Nat)) : Nat → TickReads Rat Rat :=
  fun _ => ⟨tcBacklogs, fun _ => .ok (), idleStrategy, 0, 0⟩

def startLoop : StrategyLoopState Rat := ⟨.split, ∅, []⟩

theorem idleReads_steady (degrade recover : Nat) (recover_le : recover ≤ degrade)
    (tcBacklogs : List (Option Nat)) :
    Steady (idleConfig degrade recover recover_le) tcBacklogs true (idleReads tcBacklogs) where
  auto _ := rfl
  backlogs _ := rfl
  ready _ := by
    have ready : idleStrategy.autoSplitReady 0 ["wifi", "mobile"] = true := by decide +kernel
    exact ready

/-- Between the thresholds that the documentation suggests. -/
theorem strategyLoop_settles_iff_between :
    Settles (idleConfig 144384 36096 (by decide)) (idleReads [some 100000, none]) startLoop :=
  (strategyLoop_settles_iff (idleReads_steady _ _ _ _) startLoop).mpr fun both =>
    absurd both.2.2 (by decide)

/-- With one threshold, a backlog that stays there makes the loop leave split
sending and take it up again. -/
theorem equal_thresholds_flip :
    Steady (idleConfig 1000 1000 le_rfl) [some 1000, none] true (idleReads [some 1000, none]) ∧
      ¬ Settles (idleConfig 1000 1000 le_rfl) (idleReads [some 1000, none]) startLoop := by
  have steady := idleReads_steady 1000 1000 le_rfl [some 1000, none]
  have coincide : Coincide (idleConfig 1000 1000 le_rfl) [some 1000, none] := ⟨by decide, rfl⟩
  exact ⟨steady, steady.not_settles coincide startLoop⟩

end Irohsion.Client
