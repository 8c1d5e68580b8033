import Irohsion.Client.RationalWeights
import Irohsion.Client.SenderRuns

/-! # Doubtful paths

`auto_path_groups` leaves no interface out, and it lets an interface carry split
packets without a rescue copy only when it has judged the health of that
interface. So a packet that is split in the automatic mode is either sent whole
besides, or every connected path has been judged healthy.
-/

namespace Irohsion.Client

open Protocol
open Std (ExtTreeMap)

variable {Rate Weight : Type} [Measure Rate]

namespace StrategyState

variable (state : StrategyState Rate Weight) (now : Nat) (interfaces : List String)

/-- The interfaces that have not failed lately. -/
def candidates : List String := interfaces.filter (· ∉ state.interfaceFailures)

/-- The candidates with fresh health. -/
def freshCandidates : List (String × InterfaceHealth Rate) :=
  (state.candidates interfaces).filterMap fun interface =>
    (state.freshHealth now interface).map (interface, ·)

def averageFreshMbps : Rate :=
  averageMbps ((state.freshCandidates now interfaces).map fun entry => entry.2.serverMbps)

/-- The interface has not failed, its health is fresh, it is within the lag limit
of the best fresh candidate, and above the throughput floor if there is one. -/
structure JudgedHealthy (interface : String) (health : InterfaceHealth Rate)
    (lastSeq bestLastSeq : Nat) : Prop where
  notFailed : interface ∉ state.interfaceFailures
  fresh : state.freshHealth now interface = some health
  reported : health.lastSeq = some lastSeq
  best : ((state.freshCandidates now interfaces).filterMap fun entry => entry.2.lastSeq).max? =
    some bestLastSeq
  inReach : bestLastSeq - lastSeq ≤ autoSplitDegradeLagPackets
  throughput :
    Measure.lt (state.averageFreshMbps now interfaces) autoSplitMinAverageServerMbps = true ∨
      Measure.le (Measure.max
        (state.averageFreshMbps now interfaces * autoSplitMinServerMbpsRatio)
        autoSplitMinServerMbps) health.serverMbps = true

variable {state now interfaces}

omit [Measure Rate] in
theorem mem_candidates {interface : String} :
    interface ∈ state.candidates interfaces ↔
      interface ∈ interfaces ∧ interface ∉ state.interfaceFailures := by
  rw [candidates, List.mem_filter, decide_eq_true_eq]

omit [Measure Rate] in
theorem mem_freshCandidates {interface : String} {health : InterfaceHealth Rate} :
    (interface, health) ∈ state.freshCandidates now interfaces ↔
      interface ∈ state.candidates interfaces ∧
        state.freshHealth now interface = some health := by
  rw [freshCandidates, List.mem_filterMap]
  constructor
  · intro found
    rcases found with ⟨other, member, mapped⟩
    rcases Option.map_eq_some_iff.mp mapped with ⟨_, fresh, same⟩
    cases same
    exact ⟨member, fresh⟩
  · intro found
    exact ⟨interface, found.1, by rw [found.2, Option.map_some]⟩

/-- The two ways in which the groups are formed: without a judgement every
interface is degraded, with one the candidates are divided. -/
theorem autoPathGroups_cases (state : StrategyState Rate Weight) (now : Nat)
    (interfaces : List String) :
    (∃ unjudged ⊆ state.candidates interfaces,
      state.autoPathGroups now interfaces = (unjudged,
        interfaces.filter (· ∈ state.interfaceFailures) ++ state.candidates interfaces) ∧
      ((state.candidates interfaces).length < 2 ∨ unjudged = [])) ∨
    ∃ bestLastSeq, ((state.freshCandidates now interfaces).filterMap
          fun entry => entry.2.lastSeq).max? = some bestLastSeq ∧
      let healthy := ((state.freshCandidates now interfaces).filter fun entry =>
        pathHealthAllowsSplit entry.2 bestLastSeq
          (state.averageFreshMbps now interfaces)).map Prod.fst
      state.autoPathGroups now interfaces = (healthy,
        interfaces.filter (· ∈ state.interfaceFailures) ++
          (state.candidates interfaces).filter (· ∉ healthy)) := by
  rw [autoPathGroups]
  dsimp only
  split
  · rename_i few
    exact Or.inl ⟨_, List.Subset.refl _, rfl, Or.inl few⟩
  · split
    · exact Or.inl ⟨[], List.nil_subset _, rfl, Or.inr rfl⟩
    · rename_i bestLastSeq best
      exact Or.inr ⟨bestLastSeq, best, rfl⟩

theorem of_pathHealthAllowsSplit {health : InterfaceHealth Rate} {bestLastSeq : Nat}
    {averageServerMbps : Rate}
    (allowed : pathHealthAllowsSplit health bestLastSeq averageServerMbps = true) :
    ∃ lastSeq, health.lastSeq = some lastSeq ∧
      bestLastSeq - lastSeq ≤ autoSplitDegradeLagPackets ∧
      (Measure.lt averageServerMbps autoSplitMinAverageServerMbps = true ∨
        Measure.le (Measure.max (averageServerMbps * autoSplitMinServerMbpsRatio)
          autoSplitMinServerMbps) health.serverMbps = true) := by
  rw [pathHealthAllowsSplit] at allowed
  split at allowed
  · cases allowed
  · rename_i lastSeq reported
    split at allowed
    · cases allowed
    · rename_i inReach
      refine ⟨lastSeq, reported, Nat.le_of_not_lt inReach, ?_⟩
      split at allowed
      · rename_i slow
        exact Or.inl slow
      · exact Or.inr allowed

/-! ## What the groups cover -/

/-- Every interface is in a group, and no failed one may carry split packets. -/
theorem autoPathGroups_covers (state : StrategyState Rate Weight) (now : Nat)
    (interfaces : List String) :
    (∀ interface ∈ interfaces, interface ∈ (state.autoPathGroups now interfaces).1 ∨
      interface ∈ (state.autoPathGroups now interfaces).2) ∧
    (∀ interface ∈ (state.autoPathGroups now interfaces).1,
      interface ∈ interfaces ∧ interface ∉ state.interfaceFailures) := by
  have failed : ∀ interface ∈ interfaces, interface ∉ state.candidates interfaces →
      interface ∈ interfaces.filter (· ∈ state.interfaceFailures) := by
    intro interface member excluded
    rw [mem_candidates, not_and_not_right] at excluded
    exact List.mem_filter.mpr ⟨member, decide_eq_true (excluded member)⟩
  rcases autoPathGroups_cases state now interfaces with
    ⟨unjudged, subset, groups, _⟩ | ⟨bestLastSeq, _, groups⟩
  · rw [groups]
    constructor
    · intro interface member
      by_cases candidate : interface ∈ state.candidates interfaces
      · exact Or.inr (List.mem_append_right _ candidate)
      · exact Or.inr (List.mem_append_left _ (failed interface member candidate))
    · exact fun interface member => mem_candidates.mp (subset member)
  · dsimp only at groups
    rw [groups]
    constructor
    · intro interface member
      by_cases candidate : interface ∈ state.candidates interfaces
      · by_cases healthy : interface ∈ ((state.freshCandidates now interfaces).filter fun entry =>
            pathHealthAllowsSplit entry.2 bestLastSeq
              (state.averageFreshMbps now interfaces)).map Prod.fst
        · exact Or.inl healthy
        · exact Or.inr (List.mem_append_right _
            (List.mem_filter.mpr ⟨candidate, decide_eq_true healthy⟩))
      · exact Or.inr (List.mem_append_left _ (failed interface member candidate))
    · intro interface member
      rcases List.mem_map.mp member with ⟨⟨_, health⟩, entry, rfl⟩
      exact mem_candidates.mp (mem_freshCandidates.mp (List.mem_of_mem_filter entry)).1

/-- An interface that is in the first group only has been judged healthy. -/
theorem judgedHealthy_of_not_degraded {interface : String}
    (healthy : interface ∈ (state.autoPathGroups now interfaces).1)
    (alone : interface ∉ (state.autoPathGroups now interfaces).2) :
    ∃ health lastSeq bestLastSeq,
      state.JudgedHealthy now interfaces interface health lastSeq bestLastSeq := by
  rcases autoPathGroups_cases state now interfaces with
    ⟨unjudged, subset, groups, few | empty⟩ | ⟨bestLastSeq, best, groups⟩
  · rw [groups] at healthy alone
    exact absurd (List.mem_append_right _ (subset healthy)) alone
  · rw [groups, empty] at healthy
    cases healthy
  · dsimp only at groups
    rw [groups] at healthy
    rcases List.mem_map.mp healthy with ⟨⟨_, health⟩, entry, rfl⟩
    rcases List.mem_filter.mp entry with ⟨member, allowed⟩
    rcases mem_freshCandidates.mp member with ⟨candidate, fresh⟩
    rcases of_pathHealthAllowsSplit allowed with ⟨lastSeq, reported, inReach, throughput⟩
    exact ⟨health, lastSeq, bestLastSeq, (mem_candidates.mp candidate).2, fresh, reported, best,
      inReach, throughput⟩

/-- The groups overlap only when fewer than two interfaces have not failed. -/
theorem candidates_lt_two_of_overlap {interface : String}
    (healthy : interface ∈ (state.autoPathGroups now interfaces).1)
    (degraded : interface ∈ (state.autoPathGroups now interfaces).2) :
    (state.candidates interfaces).length < 2 := by
  have candidate := mem_candidates.mpr ((autoPathGroups_covers state now interfaces).2 _ healthy)
  rcases autoPathGroups_cases state now interfaces with
    ⟨unjudged, _, groups, few | empty⟩ | ⟨bestLastSeq, best, groups⟩
  · exact few
  · rw [groups, empty] at healthy
    cases healthy
  · dsimp only at groups
    rw [groups] at healthy degraded
    rcases List.mem_append.mp degraded with failed | other
    · have isFailed := of_decide_eq_true (List.mem_filter.mp failed).2
      exact absurd isFailed (mem_candidates.mp candidate).2
    · exact absurd healthy (of_decide_eq_true (List.mem_filter.mp other).2)

end StrategyState

/-! ## Single packets -/

section Packets

variable (config : SendConfig) (reads : Reads Rate Weight)
variable {shipments : List Shipment} {state : ClientState}

/-- In the automatic mode without a rescue path, every active path that a split
does not exceed has been judged healthy. -/
theorem judgedHealthy_of_no_rescue (auto : readMode reads = .auto)
    (split : readEffective reads = .split) (noRescue : rescuePaths config reads = []) :
    ∀ path ∈ activePaths config reads, path.displayName ∈ (pathGroups config reads).1 ∧
      ∃ health lastSeq bestLastSeq, (reads .groups).strategy.JudgedHealthy (reads .groups).unixMs
        config.pathNames path.displayName health lastSeq bestLastSeq := by
  intro path active
  have groups : pathGroups config reads = (reads .groups).strategy.autoPathGroups
      (reads .groups).unixMs config.pathNames := if_pos ⟨auto, split⟩
  have notRescue : path.displayName ∉ (pathGroups config reads).2 := by
    intro degraded
    have nonempty : (pathGroups config reads).2.isEmpty = false := by
      rw [List.isEmpty_eq_false_iff]
      exact List.ne_nil_of_mem degraded
    rw [rescuePaths, nonempty, if_neg Bool.false_ne_true, List.filter_eq_nil_iff] at noRescue
    exact noRescue path active (decide_eq_true degraded)
  have named : path.displayName ∈ config.pathNames :=
    List.mem_map_of_mem (List.mem_of_mem_filter active)
  rw [groups] at notRescue ⊢
  have covered := (StrategyState.autoPathGroups_covers (reads .groups).strategy
    (reads .groups).unixMs config.pathNames).1 _ named
  have healthy := covered.resolve_right notRescue
  exact ⟨healthy, StrategyState.judgedHealthy_of_not_degraded healthy notRescue⟩

/-- A payload within the MTU is split in the automatic mode only when that mode
has chosen to split, over several paths. -/
theorem split_of_shouldSplit_auto {packetLen : Nat} {threshold mtu : Option Nat} {pathCount : Nat}
    {strategy : PathStrategy} (fits : packetExceedsMtu packetLen mtu = false)
    (splits : shouldSplit packetLen threshold mtu pathCount .auto strategy = true) :
    strategy = .split ∧ 2 ≤ pathCount := by
  rw [shouldSplit, fits, if_neg Bool.false_ne_true] at splits
  split at splits
  · cases splits
  · rename_i several
    rw [Bool.and_eq_true, decide_eq_true_eq] at splits
    exact ⟨splits.1, by omega⟩

variable [Measure Weight] [Widen Rate Weight] [WeightShare Weight]

/-- The call sends the payload whole on an active path, or every active path has
been judged healthy. -/
def WholeOrHealthy (sequence : Nat) (payload : Bytes)
    (packets : List (PathConnection × Bytes)) : Prop :=
  (∃ path ∈ activePaths config reads,
    (path, packetBytes ⟨sequence, 0, 1⟩ payload) ∈ packets) ∨
  ∀ path ∈ activePaths config reads, path.displayName ∈ (pathGroups config reads).1 ∧
    ∃ health lastSeq bestLastSeq, (reads .groups).strategy.JudgedHealthy (reads .groups).unixMs
      config.pathNames path.displayName health lastSeq bestLastSeq

theorem sendPacket_wholeOrHealthy (faithful : Faithful shipments state) {sequence : Nat}
    (media : sequence ≤ maxMediaSequence) (payload : Bytes) (auto : readMode reads = .auto)
    (fits : packetExceedsMtu payload.length config.mtu = false) :
    ∃ packets next, sendPacket config reads payload sequence state = some next ∧
      sentPackets next.trace = sentPackets state.trace ++ packets ∧
      WholeOrHealthy config reads sequence payload packets := by
  rw [sendPacket, auto]
  dsimp only
  by_cases active : activePaths config reads = []
  · rw [if_pos (List.isEmpty_iff.mpr active)]
    refine ⟨[], state, rfl, (List.append_nil _).symm, Or.inr ?_⟩
    rw [active]
    exact fun path member => absurd member List.not_mem_nil
  rw [if_neg (mt List.isEmpty_iff.mp active)]
  by_cases splits : shouldSplit payload.length config.splitThresholdBytes config.mtu
      (packetSplitPaths config reads).length .auto (readEffective reads) = true
  · rw [if_pos splits]
    rcases split_of_shouldSplit_auto fits splits with ⟨split, several⟩
    have onSome : packetSplitPaths config reads ≠ [] := by
      intro none
      rw [none, List.length_nil] at several
      omega
    rcases packetSplitRanges_cases payload.length (splitPathWeights_ne_nil reads onSome)
      (length_packetSplitWeights_le config reads) config.mtu_pos with
      ⟨_, maxPayload, isMtu, exceeding, _⟩ | ⟨⟨ranges, result, valid⟩, _⟩
    · rw [isMtu] at fits
      exact absurd exceeding (of_decide_eq_false fits)
    · rw [result]
      rw [length_splitPathWeights] at valid
      have member : Shipment.split media valid ∈ shipments ++ [Shipment.split media valid] :=
        List.mem_append_right _ List.mem_cons_self
      rcases sendSplit_stretch config reads
        (faithful.of_subset (List.subset_append_left _ _)) member valid.count valid.onPath
        (Or.inr rfl) with ⟨packets, next, sent, stretch, _, _⟩
      refine ⟨_, next, sent, stretch.sent, ?_⟩
      by_cases noRescue : rescuePaths config reads = []
      · exact Or.inr (judgedHealthy_of_no_rescue config reads auto split noRescue)
      · rcases List.exists_mem_of_ne_nil _ noRescue with ⟨path, isRescue⟩
        refine Or.inl ⟨path, rescuePaths_subset config reads isRescue,
          List.mem_append_right _ ?_⟩
        rw [rescueCopies, Shipment.split, fits, if_neg Bool.false_ne_true]
        exact List.mem_map_of_mem isRescue
  · rw [if_neg splits]
    let whole := Shipment.whole sequence payload media
    have member : whole ∈ shipments ++ [whole] := List.mem_append_right _ List.mem_cons_self
    rcases sendWhole_stretch config reads (faithful.of_subset (List.subset_append_left _ _))
      member active with ⟨chosen, next, sent, nonempty, onActive, stretch⟩
    rcases List.exists_mem_of_ne_nil _ nonempty with ⟨path, isChosen⟩
    exact ⟨_, next, sent, stretch.sent, Or.inl ⟨path, onActive isChosen,
      List.mem_map_of_mem isChosen⟩⟩

/-- The groups of the automatic mode cover all interfaces. In every run, a
payload within the MTU is sent whole on an active path, or every active path has
been judged healthy in that call. -/
theorem no_unprotected_split {fec : FecEncoder} {disabled : Bool} {groupSize : Nat}
    (created : FecEncoder.new disabled groupSize config.mtu = .ok fec)
    (ttl : Duration) (maxPackets : Nat) (events : List (ClientEvent Rate Weight))
    (reached : clientRun config fec (.new ttl maxPackets) events = some state) (payload : Bytes)
    (auto : readMode reads = .auto)
    (fits : packetExceedsMtu payload.length config.mtu = false) :
    (∀ (strategy : StrategyState Rate Weight) (now : Nat) (interfaces : List String),
      (∀ interface ∈ interfaces, interface ∈ (strategy.autoPathGroups now interfaces).1 ∨
        interface ∈ (strategy.autoPathGroups now interfaces).2) ∧
      (∀ interface ∈ (strategy.autoPathGroups now interfaces).1,
        interface ∈ interfaces ∧ interface ∉ strategy.interfaceFailures) ∧
      ∀ interface ∈ (strategy.autoPathGroups now interfaces).1,
        interface ∈ (strategy.autoPathGroups now interfaces).2 →
        (strategy.candidates interfaces).length < 2) ∧
    ∃ packets next, sendPacket config reads payload state.seq
        (state.emit (.ingested state.seq payload)) = some next ∧
      sentPackets next.trace = sentPackets state.trace ++ packets ∧
      WholeOrHealthy config reads state.seq payload packets := by
  constructor
  · intro strategy now interfaces
    have covers := StrategyState.autoPathGroups_covers strategy now interfaces
    exact ⟨covers.1, covers.2, fun _ => StrategyState.candidates_lt_two_of_overlap⟩
  · rcases clientRun_shipped config created ttl maxPackets events with
      ⟨shipments, final, finished, shipped⟩
    cases finished.symm.trans reached
    have ingested : Faithful shipments (state.emit (.ingested state.seq payload)) :=
      shipped.faithful.emit trivial
    rcases sendPacket_wholeOrHealthy config reads ingested shipped.media payload auto fits with
      ⟨packets, next, sent, trace, outcome⟩
    refine ⟨packets, next, sent, ?_, outcome⟩
    rw [trace, ClientState.emit, sentPackets_append]
    exact congrArg (· ++ packets) (List.append_nil _)

end Packets

/-! ## Two judged paths and a doubtful one -/

def threePathConfig : SendConfig :=
  { twoPathConfig with
    splitThresholdBytes := some 1
    paths := [⟨0, "first"⟩, ⟨1, "second"⟩, ⟨2, "third"⟩]
    paths_le := by decide }

/-- The first two paths have reported lately, and the automatic mode splits. -/
def judgedStrategy : StrategyState Rat Rat where
  mode := .auto
  strategy := .split
  weightedAutoSplit := true
  roundRobinCursor := 0
  splitPercentages := ∅
  healthByInterface :=
    ((∅ : ExtTreeMap String (InterfaceHealth Rat)).insert "first" ⟨some 9, 4, 1000⟩).insert
      "second" ⟨some 7, 2, 1000⟩
  interfaceFailures := ∅

/-- The third path may be connected as well. -/
def judgedReads (third : Bool) : Reads Rat Rat :=
  fun _ => ⟨judgedStrategy, fun path => path.index != 2 || third, 1200, 0⟩

/-- What is sent of two bytes: one on each judged path, and both on the third. -/
def judgedPackets (third : Bool) : List (PathConnection × Bytes) :=
  let split := [(⟨0, "first"⟩, [0, 0, 0, 64, 7]), (⟨1, "second"⟩, [0, 0, 0, 68, 8])]
  if third then split ++ [(⟨2, "third"⟩, [0, 0, 0, 32, 7, 8])] else split

def SendsJudged (third : Bool) : Prop :=
  ∃ next, sendPacket threePathConfig (judgedReads third) [7, 8] startSender.seq
      (startSender.emit (.ingested startSender.seq [7, 8])) = some next ∧
    sentPackets next.trace = judgedPackets third ∧
    WholeOrHealthy threePathConfig (judgedReads third) startSender.seq [7, 8]
      (judgedPackets third)

/-- A packet is split over the two judged paths. The doubtful path carries it
whole when it is connected. -/
theorem no_unprotected_split_judged : SendsJudged false ∧ SendsJudged true := by
  have sends : ∀ third, (sendPacket threePathConfig (judgedReads third) [7, 8] startSender.seq
      (startSender.emit (.ingested startSender.seq [7, 8]))).map
        (fun next => sentPackets next.trace) = some (judgedPackets third) := by
    decide +kernel
  have protects : ∀ third, SendsJudged third := by
    intro third
    rcases (@no_unprotected_split _ _ _ threePathConfig (judgedReads third) startSender _ _ _ _
        false 0 rfl 1000 8 [] rfl [7, 8] rfl rfl).2 with ⟨packets, next, sent, trace, outcome⟩
    have same := sends third
    rw [sent, Option.map_some, Option.some_inj] at same
    have only : judgedPackets third = packets := same.symm.trans trace
    rw [← only] at outcome
    exact ⟨next, sent, same, outcome⟩
  exact ⟨protects false, protects true⟩

end Irohsion.Client
