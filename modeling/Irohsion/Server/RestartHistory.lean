import Irohsion.Server.RestartRuns

/-! # Restarts and the history of a run

A run of the loop as the list of its rounds. From the rounds alone one reads off
which connections have delivered a packet of the current flow and which
sequences the detector has observed since it was cleared, and these two decide
which packet restarts the flow.
-/

namespace Irohsion.Server

open Protocol SortedRuns

/-! ## Rounds -/

/-- One round of the loop. -/
structure Round where
  before : ReorderState
  timed : TimedInput
  after : ReorderState

def Effect.startsFlow : Effect → Bool
  | .flowStart _ => true
  | .flowReset _ _ => true
  | _ => false

namespace Round

/-- What the round adds to the trace. -/
def effects (round : Round) : List Effect := round.after.trace.drop round.before.trace.length

/-- The round confirms a restart. -/
def restarts (round : Round) : Bool := round.effects.any Effect.isRestart

/-- A flow starts in the round, by its first packet or by a restart. -/
def startsFlow (round : Round) : Bool := round.effects.any Effect.startsFlow

/-- The connection delivers a packet that is not behind `next_seq`. The packet
that starts a flow sets `next_seq`. -/
def delivers (connectionId : Nat) (round : Round) : Bool :=
  match round.timed.input with
  | .frame (.packet packet) =>
      packet.connectionId == connectionId &&
        (round.startsFlow || decide (round.before.nextSeq ≤ packet.header.sequence))
  | .frame (.fec _) | .timeout => false

end Round

/-- Whether the connection has delivered such a packet since the current flow
started. The rounds are listed latest first. -/
def delivered (connectionId : Nat) : List Round → Bool
  | [] => false
  | round :: earlier =>
      round.delivers connectionId || (!round.startsFlow && delivered connectionId earlier)

/-- The sequences that the detector has observed since it was last cleared,
latest first. A packet that is not behind `next_seq`, a sequence too near to it
and the reset of an idle flow clear the detector. -/
def observedSince : List Round → List Nat
  | [] => []
  | round :: earlier =>
      match round.timed.input with
      | .frame (.packet packet) =>
          if round.before.initialized = false ∨
              round.before.nextSeq ≤ packet.header.sequence then []
          else if delivered packet.connectionId earlier then observedSince earlier
          else if round.before.nextSeq - packet.header.sequence < restartBackwardGap then []
          else packet.header.sequence :: observedSince earlier
      | .frame (.fec _) => observedSince earlier
      | .timeout =>
          if round.before.initialized && !round.after.initialized then []
          else observedSince earlier

/-- One more round of a run, which keeps all rounds and the state. -/
def addRound (config : ReorderConfig) (progress : List Round × ReorderState)
    (timed : TimedInput) : Option (List Round × ReorderState) :=
  (reorderStep config progress.2 timed).map fun next =>
    (⟨progress.2, timed, next⟩ :: progress.1, next)

/-- The rounds of the loop, latest first, and the state that it reaches. -/
def reorderRounds (config : ReorderConfig) (inputs : List TimedInput) :
    Option (List Round × ReorderState) :=
  inputs.foldlM (addRound config) ([], .initial)

/-! ## What a round does to the flow -/

variable {config : ReorderConfig} {now : Instant} {packet : ReceivedPacket}
variable {base before state after next : ReorderState}

/-- The round leaves this detector and these connections, and of its effects
only the opening ones may start a flow. -/
structure FlowChange (before after : ReorderState) (opening : List Effect)
    (detector : RestartDetector) (connections : Finset Nat) : Prop where
  initialized : after.initialized = true
  detector : after.restartDetector = detector
  connections : after.flowConnections = connections
  effects : ∃ effects, after.trace = before.trace ++ (opening ++ effects) ∧
    ∀ effect ∈ effects, effect.startsFlow = false

/-- Nothing about the flow changes. -/
def FlowKept (before after : ReorderState) : Prop :=
  FlowChange before after [] before.restartDetector before.flowConnections

theorem FlowKept.refl (active : state.initialized = true) : FlowKept state state :=
  ⟨active, rfl, rfl, [], (List.append_nil _).symm, List.forall_mem_nil _⟩

theorem FlowChange.then {opening : List Effect} {detector : RestartDetector}
    {connections : Finset Nat} (change : FlowChange base before opening detector connections)
    (initialized : after.initialized = true)
    (sameDetector : after.restartDetector = before.restartDetector)
    (sameConnections : after.flowConnections = before.flowConnections)
    {more : List Effect} (trace : after.trace = before.trace ++ more)
    (silent : ∀ effect ∈ more, effect.startsFlow = false) :
    FlowChange base after opening detector connections := by
  rcases change.effects with ⟨effects, earlier, quiet⟩
  refine ⟨initialized, sameDetector.trans change.detector,
    sameConnections.trans change.connections, effects ++ more, ?_,
    List.forall_mem_append.mpr ⟨quiet, silent⟩⟩
  rw [trace, earlier, List.append_assoc, List.append_assoc]

theorem FlowChange.kept {opening : List Effect} {detector : RestartDetector}
    {connections : Finset Nat} (change : FlowChange base before opening detector connections)
    (kept : FlowKept before after) : FlowChange base after opening detector connections := by
  rcases kept.effects with ⟨effects, trace, quiet⟩
  exact change.then kept.initialized kept.detector kept.connections trace quiet

theorem WindowMove.flow {Source : Nat → Bytes → Prop}
    (move : WindowMove config now Source before after) :
    after.flowConnections = before.flowConnections ∧
      ∃ more, after.trace = before.trace ++ more ∧
        ∀ effect ∈ more, effect.startsFlow = false := by
  cases move with
  | report _ _ | drain _ | skipFragment _ _ _ | skipMissing _ _ _ _ =>
      exact ⟨rfl, [_], rfl, List.forall_mem_singleton.mpr rfl⟩
  | search => exact ⟨rfl, [], (List.append_nil _).symm, List.forall_mem_nil _⟩
  | @settle sequence payload _ _ _ =>
      refine ⟨?_, _, settle_trace now sequence payload before, ?_⟩
      · unfold Server.settle
        dsimp only
        split <;> rfl
      · rw [List.forall_mem_cons]
        refine ⟨rfl, ?_⟩
        intro effect member
        rw [(mem_settleForwards member).2]
        rfl
  | request requests _ =>
      refine ⟨rfl, _, rfl, ?_⟩
      rw [List.forall_mem_map]
      exact fun _ _ => rfl

theorem flowKept_invariant (config : ReorderConfig) (now : Instant) (base : ReorderState) :
    ActiveInvariant config now (fun _ _ => True) (FlowKept base) where
  move := by
    intro before after _ active move kept
    rcases move.flow with ⟨connections, more, trace, silent⟩
    exact kept.then (move.initialized.trans active) move.restartDetector connections trace silent
  recovered _ _ _ := trivial

theorem advanceReorderWindow_flowKept (wellFormed : WellFormed state)
    (active : state.initialized = true)
    (advanced : advanceReorderWindow config now state = some next) : FlowKept state next := by
  rcases (flowKept_invariant config now state).advanceReorderWindow
    ⟨wellFormed, active, .refl active⟩ with ⟨found, outcome, -, -, kept⟩
  cases advanced.symm.trans outcome
  exact kept

theorem processAdmitted_flowKept (wellFormed : WellFormed state)
    (active : state.initialized = true)
    (processed : processAdmitted config now packet state = some next) : FlowKept state next := by
  have rule := flowKept_invariant config now state
  rw [processAdmitted] at processed
  split at processed
  · cases processed
    exact (FlowKept.refl active).then active rfl rfl rfl (List.forall_mem_singleton.mpr rfl)
  · rename_i fresh
    have accepts : ∀ payload, advanceReorderWindow config now (recoverFecReady now
        (acceptCompletePayload now packet.header.sequence payload
          (takeComplete packet.header.sequence state))) = some next → FlowKept state next := by
      intro payload advanced
      rcases rule.acceptComplete (rule.toWindow.move (.settle packet.media fresh trivial)
        ⟨wellFormed, active, .refl active⟩) with ⟨found, outcome, -, -, kept⟩
      cases advanced.symm.trans outcome
      exact kept
    by_cases whole : packet.header.fragments = 1
    · rw [reassemble_whole whole] at processed
      exact accepts _ processed
    · rcases reassemble_cases now wellFormed whole with
        ⟨-, duplicate⟩ | ⟨filled, fills, ⟨incomplete, outcome⟩ | ⟨-, payload, -, outcome⟩⟩
      · rw [duplicate] at processed
        cases processed
        exact (FlowKept.refl active).then active rfl rfl rfl (List.forall_mem_singleton.mpr rfl)
      · rw [outcome] at processed
        have assembled := wellFormed.assemble fresh fills incomplete
        have kept := advanceReorderWindow_flowKept assembled active processed
        exact ⟨kept.initialized, kept.detector, kept.connections, kept.effects⟩
      · rw [outcome] at processed
        exact accepts payload processed

/-! ## The branches of a packet round -/

theorem Effect.startsFlow_of_isRejection {effect : Effect} (rejects : effect.isRejection = true) :
    effect.startsFlow = false := by
  cases effect <;> first | rfl | cases rejects

theorem onPacket_starts (consistent : Consistent state) (idle : state.initialized = false)
    (stepped : onPacket config now packet state = some next) :
    FlowChange state next [.flowStart packet.header.sequence] .cleared
      (insert packet.connectionId (insert packet.connectionId state.flowConnections)) := by
  have start : RoundMove now (fun _ => True) state (startFlow packet state) := .start idle
  have wellFormed : WellFormed (joinFlow packet (startFlow packet state)) :=
    (consistent.roundMove start).toWellFormed.congr rfl rfl rfl rfl rfl
  have admitted : admitPacket packet (openFlow packet state) =
      .proceed (joinFlow packet (startFlow packet state)) := by
    rw [openFlow, if_neg (by simp [idle])]
    exact if_neg (Nat.lt_irrefl _)
  rw [onPacket, admitted] at stepped
  have opened : FlowChange state (joinFlow packet (startFlow packet state))
      [.flowStart packet.header.sequence] .cleared
      (insert packet.connectionId (insert packet.connectionId state.flowConnections)) :=
    ⟨rfl, rfl, rfl, [], rfl, List.forall_mem_nil _⟩
  exact opened.kept (processAdmitted_flowKept wellFormed rfl stepped)

theorem onPacket_joins (wellFormed : WellFormed state) (active : state.initialized = true)
    (ahead : state.nextSeq ≤ packet.header.sequence)
    (stepped : onPacket config now packet state = some next) :
    FlowChange state next [] .cleared (insert packet.connectionId state.flowConnections) := by
  rw [onPacket_ahead config now active ahead] at stepped
  have opened : FlowChange state (joined packet state) [] .cleared
      (insert packet.connectionId state.flowConnections) :=
    ⟨active, rfl, rfl, [], (List.append_nil _).symm, List.forall_mem_nil _⟩
  exact opened.kept (processAdmitted_flowKept (wellFormed.joined packet) active stepped)

theorem onPacket_rejects (active : state.initialized = true)
    (behind : packet.header.sequence < state.nextSeq)
    (member : packet.connectionId ∈ state.flowConnections)
    (stepped : onPacket config now packet state = some next) : FlowKept state next := by
  rw [onPacket_behind config now active behind member] at stepped
  rcases rejectLate_trace packet (state.setReplyRoutes packet.remote false) with
    ⟨effect, rejects, outcome⟩
  rw [outcome] at stepped
  cases stepped
  exact ⟨active, rfl, rfl, [effect], rfl,
    List.forall_mem_singleton.mpr (Effect.startsFlow_of_isRejection rejects)⟩

theorem onPacket_observes (active : state.initialized = true)
    (behind : packet.header.sequence < state.nextSeq)
    (stranger : packet.connectionId ∉ state.flowConnections)
    (unconfirmed :
      (state.restartDetector.observe packet.header.sequence state.nextSeq).2 = false)
    (stepped : onPacket config now packet state = some next) :
    FlowChange state next []
      (state.restartDetector.observe packet.header.sequence state.nextSeq).1
      state.flowConnections := by
  rcases onPacket_unconfirmed config now active behind stranger unconfirmed with
    ⟨effect, rejects, outcome⟩
  cases stepped.symm.trans outcome
  exact ⟨active, rfl, rfl, [effect], rfl,
    List.forall_mem_singleton.mpr (Effect.startsFlow_of_isRejection rejects)⟩

theorem onPacket_restarts (wellFormed : WellFormed state) (active : state.initialized = true)
    (behind : packet.header.sequence < state.nextSeq)
    (stranger : packet.connectionId ∉ state.flowConnections)
    (confirmed :
      (state.restartDetector.observe packet.header.sequence state.nextSeq).2 = true)
    (stepped : onPacket config now packet state = some next) :
    FlowChange state next [.flowReset packet.header.sequence state.heldPayloads]
      (state.restartDetector.observe packet.header.sequence state.nextSeq).1
      {packet.connectionId} := by
  rw [onPacket_confirmed config now active behind stranger confirmed] at stepped
  have opened : FlowChange state (restarted packet state)
      [.flowReset packet.header.sequence state.heldPayloads]
      (state.restartDetector.observe packet.header.sequence state.nextSeq).1
      {packet.connectionId} :=
    ⟨active, rfl, rfl, [], rfl, List.forall_mem_nil _⟩
  exact opened.kept
    (processAdmitted_flowKept (wellFormed.restarted active behind) active stepped)

/-! ## The other rounds -/

theorem onFec_flow {fec : ReceivedFecFrame} (consistent : Consistent state)
    (stepped : onFec config now fec state = some next) :
    (state.initialized = true ∧ FlowKept state next) ∨
      (state.initialized = false ∧
        next = { state with fecState := state.fecState.insertFrame fec.frame }) := by
  have store : RoundMove now (fun _ => True) state
      { state with fecState := state.fecState.insertFrame fec.frame } := .store trivial
  have stored := (consistent.roundMove store).toWellFormed
  rw [onFec] at stepped
  dsimp only at stepped
  split at stepped
  · rename_i active
    left
    have routed : Active (FlowKept state)
        (({ state with fecState := state.fecState.insertFrame fec.frame } :
          ReorderState).setReplyRoutes fec.remote false) :=
      ⟨stored.congr rfl rfl rfl rfl rfl, active, active, rfl, rfl, [],
        (List.append_nil _).symm, List.forall_mem_nil _⟩
    have rule := flowKept_invariant config now state
    rcases rule.advanceReorderWindow (rule.toWindow.recoverFecReady routed) with
      ⟨found, outcome, -, -, kept⟩
    cases stepped.symm.trans outcome
    exact ⟨active, kept⟩
  · rename_i idle
    cases stepped
    exact Or.inr ⟨Bool.eq_false_iff.mpr idle, rfl⟩

theorem onTimeout_flow (consistent : Consistent state)
    (stepped : onTimeout config now state = some next) :
    (state.initialized = true ∧ (FlowKept state next ∨ next = idleReset state)) ∨
      (state.initialized = false ∧ next = state) := by
  rw [onTimeout] at stepped
  split at stepped
  · rename_i idle
    cases stepped
    exact Or.inr ⟨by simpa using idle, rfl⟩
  · rename_i running
    have active : state.initialized = true := by simpa using running
    refine Or.inl ⟨active, ?_⟩
    split at stepped
    · exact Or.inl (advanceReorderWindow_flowKept consistent.toWellFormed active stepped)
    · cases stepped
      exact Or.inr rfl

/-! ## Runs -/

theorem Effect.isRestart_of_startsFlow {effect : Effect} (silent : effect.startsFlow = false) :
    effect.isRestart = false := by
  cases effect <;> first | rfl | cases silent

section Round

variable {timed : TimedInput} {opening : List Effect} {detector : RestartDetector}
variable {connections : Finset Nat}

theorem FlowChange.round_effects (change : FlowChange before after opening detector connections) :
    ∃ effects, (Round.mk before timed after).effects = opening ++ effects ∧
      ∀ effect ∈ effects, effect.startsFlow = false := by
  rcases change.effects with ⟨effects, trace, silent⟩
  exact ⟨effects, by rw [Round.effects, trace, List.drop_left], silent⟩

theorem FlowChange.startsFlow (change : FlowChange before after opening detector connections) :
    (Round.mk before timed after).startsFlow = opening.any Effect.startsFlow := by
  rcases change.round_effects with ⟨effects, added, silent⟩
  have rest : effects.any Effect.startsFlow = false := by
    rw [List.any_eq_false]
    intro effect member
    rw [silent effect member]
    exact Bool.false_ne_true
  rw [Round.startsFlow, added, List.any_append, rest, Bool.or_false]

theorem FlowChange.restarts (change : FlowChange before after opening detector connections) :
    (Round.mk before timed after).restarts = opening.any Effect.isRestart := by
  rcases change.round_effects with ⟨effects, added, silent⟩
  have rest : effects.any Effect.isRestart = false := by
    rw [List.any_eq_false]
    intro effect member
    rw [Effect.isRestart_of_startsFlow (silent effect member)]
    exact Bool.false_ne_true
  rw [Round.restarts, added, List.any_append, rest, Bool.or_false]

end Round

/-- The state of the loop summarises its rounds. -/
structure Summarises (rounds : List Round) (state : ReorderState) : Prop where
  consistent : Consistent state
  detector : state.restartDetector.Tracks (observedSince rounds)
  members : state.initialized = true →
    ∀ connectionId, connectionId ∈ state.flowConnections ↔ delivered connectionId rounds = true
  idle : state.initialized = false → state.flowConnections = ∅ ∧ state.nextSeq = 0

theorem Summarises.initial : Summarises [] .initial where
  consistent := .initial
  detector := RestartDetector.tracks_cleared
  members impossible := by cases impossible
  idle _ := ⟨rfl, rfl⟩

/-- What an observation makes of the history, and when it confirms. -/
theorem RestartDetector.Tracks.observed {detector : RestartDetector} {history : List Nat}
    (tracks : detector.Tracks history) (sequence nextSeq : Nat) :
    (detector.observe sequence nextSeq).1.Tracks
        (if nextSeq - sequence < restartBackwardGap then [] else sequence :: history) ∧
      ((detector.observe sequence nextSeq).2 = true ↔ restartConfirmPackets ≤ latestRun
        (if nextSeq - sequence < restartBackwardGap then [] else sequence :: history)) := by
  by_cases near : nextSeq - sequence < restartBackwardGap
  · rw [RestartDetector.observe, if_pos near, if_pos near]
    refine ⟨tracks_cleared, ?_⟩
    constructor
    · intro impossible
      cases impossible
    · intro impossible
      cases impossible
  · have positive : 0 < restartBackwardGap := by decide
    rw [if_neg near]
    exact tracks.observe (by omega)

theorem FlowChange.summarises {opening : List Effect} {detector : RestartDetector}
    {connections : Finset Nat} {rounds : List Round}
    (change : FlowChange before after opening detector connections) (consistent : Consistent after)
    (tracks : detector.Tracks (observedSince rounds))
    (members : ∀ connectionId,
      connectionId ∈ connections ↔ delivered connectionId rounds = true) :
    Summarises rounds after where
  consistent := consistent
  detector := change.detector ▸ tracks
  members _ := change.connections ▸ members
  idle idle := absurd (change.initialized.symm.trans idle) Bool.noConfusion

/-- The packet is one that restarts the flow, to judge by the rounds before. -/
def RestartsFlow (rounds : List Round) (round : Round) : Prop :=
  ∃ packet, round.timed.input = .frame (.packet packet) ∧
    packet.header.sequence < round.before.nextSeq ∧
    delivered packet.connectionId rounds = false ∧
    restartConfirmPackets ≤ latestRun (observedSince (round :: rounds))

section PacketRound

variable {rounds : List Round}

theorem restartsFlow_arrival :
    RestartsFlow rounds ⟨state, arrival now packet, next⟩ ↔
      packet.header.sequence < state.nextSeq ∧ delivered packet.connectionId rounds = false ∧
        restartConfirmPackets ≤
          latestRun (observedSince (⟨state, arrival now packet, next⟩ :: rounds)) := by
  constructor
  · rintro ⟨other, same, judged⟩
    cases same
    exact judged
  · intro judged
    exact ⟨packet, rfl, judged⟩

theorem observedSince_of_cleared
    (clears : state.initialized = false ∨ state.nextSeq ≤ packet.header.sequence) :
    observedSince (⟨state, arrival now packet, next⟩ :: rounds) = [] :=
  if_pos clears

theorem not_cleared (active : state.initialized = true)
    (behind : packet.header.sequence < state.nextSeq) :
    ¬ (state.initialized = false ∨ state.nextSeq ≤ packet.header.sequence) := by
  rw [active, not_or]
  exact ⟨Bool.noConfusion, Nat.not_le.mpr behind⟩

theorem observedSince_of_member (active : state.initialized = true)
    (behind : packet.header.sequence < state.nextSeq)
    (member : delivered packet.connectionId rounds = true) :
    observedSince (⟨state, arrival now packet, next⟩ :: rounds) = observedSince rounds := by
  show (if _ then _ else _) = _
  rw [if_neg (not_cleared active behind)]
  exact if_pos member

theorem observedSince_of_stranger (active : state.initialized = true)
    (behind : packet.header.sequence < state.nextSeq)
    (stranger : ¬ delivered packet.connectionId rounds = true) :
    observedSince (⟨state, arrival now packet, next⟩ :: rounds) =
      if state.nextSeq - packet.header.sequence < restartBackwardGap then []
      else packet.header.sequence :: observedSince rounds := by
  show (if _ then _ else _) = _
  rw [if_neg (not_cleared active behind)]
  exact if_neg stranger

theorem delivered_of_start {connectionId : Nat}
    (starts : (Round.mk state (arrival now packet) next).startsFlow = true) :
    delivered connectionId (⟨state, arrival now packet, next⟩ :: rounds) = true ↔
      connectionId = packet.connectionId := by
  show ((_ && (Round.startsFlow _ || _)) || (!Round.startsFlow _ && _)) = true ↔ _
  rw [starts, Bool.true_or, Bool.and_true, Bool.not_true, Bool.false_and, Bool.or_false,
    beq_iff_eq]
  exact eq_comm

theorem delivered_of_join {connectionId : Nat}
    (starts : (Round.mk state (arrival now packet) next).startsFlow = false)
    (ahead : state.nextSeq ≤ packet.header.sequence) :
    delivered connectionId (⟨state, arrival now packet, next⟩ :: rounds) = true ↔
      connectionId = packet.connectionId ∨ delivered connectionId rounds = true := by
  show ((_ && (Round.startsFlow _ || decide (state.nextSeq ≤ packet.header.sequence))) ||
    (!Round.startsFlow _ && _)) = true ↔ _
  rw [starts, decide_eq_true ahead, Bool.or_true, Bool.and_true, Bool.not_false, Bool.true_and,
    Bool.or_eq_true, beq_iff_eq]
  exact or_congr_left eq_comm

theorem delivered_of_behind {connectionId : Nat}
    (starts : (Round.mk state (arrival now packet) next).startsFlow = false)
    (behind : packet.header.sequence < state.nextSeq) :
    delivered connectionId (⟨state, arrival now packet, next⟩ :: rounds) =
      delivered connectionId rounds := by
  show ((_ && (Round.startsFlow _ || decide (state.nextSeq ≤ packet.header.sequence))) ||
    (!Round.startsFlow _ && _)) = _
  rw [starts]
  simp [Nat.not_le.mpr behind]

/-- After a packet that starts a flow. -/
theorem Summarises.afterStart (summary : Summarises rounds state)
    (idle : state.initialized = false) (consistent : Consistent next)
    (stepped : onPacket config now packet state = some next) :
    Summarises (⟨state, arrival now packet, next⟩ :: rounds) next ∧
      ((Round.mk state (arrival now packet) next).restarts = true ↔
        RestartsFlow rounds ⟨state, arrival now packet, next⟩) := by
  have change := onPacket_starts summary.consistent idle stepped
  have starts : (Round.mk state (arrival now packet) next).startsFlow = true :=
    change.startsFlow
  have unconfirmed : (Round.mk state (arrival now packet) next).restarts = false :=
    change.restarts
  rcases summary.idle idle with ⟨none, position⟩
  constructor
  · apply change.summarises consistent
    · rw [observedSince_of_cleared (Or.inl idle)]
      exact RestartDetector.tracks_cleared
    · intro connectionId
      rw [delivered_of_start starts, none]
      simp
  · rw [unconfirmed, restartsFlow_arrival, position]
    exact ⟨Bool.noConfusion, fun judged => absurd judged.1 (Nat.not_lt_zero _)⟩

/-- After a packet that is not behind `next_seq`. -/
theorem Summarises.afterJoin (summary : Summarises rounds state)
    (active : state.initialized = true) (ahead : state.nextSeq ≤ packet.header.sequence)
    (consistent : Consistent next) (stepped : onPacket config now packet state = some next) :
    Summarises (⟨state, arrival now packet, next⟩ :: rounds) next ∧
      ((Round.mk state (arrival now packet) next).restarts = true ↔
        RestartsFlow rounds ⟨state, arrival now packet, next⟩) := by
  have change := onPacket_joins summary.consistent.toWellFormed active ahead stepped
  have starts : (Round.mk state (arrival now packet) next).startsFlow = false :=
    change.startsFlow
  have unconfirmed : (Round.mk state (arrival now packet) next).restarts = false :=
    change.restarts
  constructor
  · apply change.summarises consistent
    · rw [observedSince_of_cleared (Or.inr ahead)]
      exact RestartDetector.tracks_cleared
    · intro connectionId
      rw [delivered_of_join starts ahead, Finset.mem_insert, summary.members active]
  · rw [unconfirmed, restartsFlow_arrival]
    exact ⟨Bool.noConfusion, fun judged => absurd ahead (Nat.not_le.mpr judged.1)⟩

/-- After a late packet of a connection of the flow. -/
theorem Summarises.afterRejection (summary : Summarises rounds state)
    (active : state.initialized = true) (behind : packet.header.sequence < state.nextSeq)
    (known : delivered packet.connectionId rounds = true) (consistent : Consistent next)
    (stepped : onPacket config now packet state = some next) :
    Summarises (⟨state, arrival now packet, next⟩ :: rounds) next ∧
      ((Round.mk state (arrival now packet) next).restarts = true ↔
        RestartsFlow rounds ⟨state, arrival now packet, next⟩) := by
  have member := (summary.members active _).mpr known
  have change : FlowChange _ _ _ _ _ := onPacket_rejects active behind member stepped
  have starts : (Round.mk state (arrival now packet) next).startsFlow = false :=
    change.startsFlow
  have unconfirmed : (Round.mk state (arrival now packet) next).restarts = false :=
    change.restarts
  constructor
  · apply change.summarises consistent
    · rw [observedSince_of_member active behind known]
      exact summary.detector
    · intro connectionId
      rw [delivered_of_behind starts behind]
      exact summary.members active connectionId
  · rw [unconfirmed, restartsFlow_arrival, known]
    exact ⟨Bool.noConfusion, fun judged => absurd judged.2.1 (by decide)⟩

/-- After a late packet of another connection, which the detector observes. -/
theorem Summarises.afterObservation (summary : Summarises rounds state)
    (active : state.initialized = true) (behind : packet.header.sequence < state.nextSeq)
    (unknown : ¬ delivered packet.connectionId rounds = true) (consistent : Consistent next)
    (stepped : onPacket config now packet state = some next) :
    Summarises (⟨state, arrival now packet, next⟩ :: rounds) next ∧
      ((Round.mk state (arrival now packet) next).restarts = true ↔
        RestartsFlow rounds ⟨state, arrival now packet, next⟩) := by
  have stranger := mt (summary.members active _).mp unknown
  rcases summary.detector.observed packet.header.sequence state.nextSeq with ⟨tracks, confirms⟩
  rw [← @observedSince_of_stranger now packet state next rounds active behind unknown]
    at tracks confirms
  rw [restartsFlow_arrival, ← confirms]
  cases confirmed : (state.restartDetector.observe packet.header.sequence state.nextSeq).2 with
  | false =>
      have change := onPacket_observes active behind stranger confirmed stepped
      have starts : (Round.mk state (arrival now packet) next).startsFlow = false :=
        change.startsFlow
      have unconfirmed : (Round.mk state (arrival now packet) next).restarts = false :=
        change.restarts
      constructor
      · apply change.summarises consistent tracks
        intro connectionId
        rw [delivered_of_behind starts behind]
        exact summary.members active connectionId
      · rw [unconfirmed]
        exact ⟨Bool.noConfusion, fun judged => absurd judged.2.2 (by decide)⟩
  | true =>
      have change := onPacket_restarts summary.consistent.toWellFormed active behind stranger
        confirmed stepped
      have starts : (Round.mk state (arrival now packet) next).startsFlow = true :=
        change.startsFlow
      have restarts : (Round.mk state (arrival now packet) next).restarts = true :=
        change.restarts
      constructor
      · apply change.summarises consistent tracks
        intro connectionId
        rw [delivered_of_start starts, Finset.mem_singleton]
      · rw [restarts]
        exact iff_of_true rfl ⟨behind, Bool.eq_false_iff.mpr unknown, rfl⟩

/-- After a packet the state still summarises the rounds, and the packet restarts
the flow exactly when the rounds say so. -/
theorem Summarises.afterPacket (summary : Summarises rounds state)
    (stepped : onPacket config now packet state = some next) :
    Summarises (⟨state, arrival now packet, next⟩ :: rounds) next ∧
      ((Round.mk state (arrival now packet) next).restarts = true ↔
        RestartsFlow rounds ⟨state, arrival now packet, next⟩) := by
  have consistent : Consistent next :=
    @Consistent.reorderStep config _ _ (arrival now packet) summary.consistent stepped
  cases active : state.initialized with
  | false => exact summary.afterStart active consistent stepped
  | true =>
      by_cases ahead : state.nextSeq ≤ packet.header.sequence
      · exact summary.afterJoin active ahead consistent stepped
      · have behind := Nat.lt_of_not_le ahead
        by_cases known : delivered packet.connectionId rounds = true
        · exact summary.afterRejection active behind known consistent stepped
        · exact summary.afterObservation active behind known consistent stepped

end PacketRound

/-! ## Any round -/

section AnyRound

variable {rounds : List Round} {timed : TimedInput}

theorem Round.restarts_eq_false (trace : next.trace = state.trace) :
    (Round.mk state timed next).restarts = false := by
  have none : (Round.mk state timed next).effects = [] := by
    rw [Round.effects, trace]
    exact List.drop_length
  rw [Round.restarts, none]
  rfl

theorem Summarises.afterFec {fec : ReceivedFecFrame} (summary : Summarises rounds state)
    (received : timed.input = .frame (.fec fec)) (consistent : Consistent next)
    (stepped : onFec config now fec state = some next) :
    Summarises (⟨state, timed, next⟩ :: rounds) next ∧
      (Round.mk state timed next).restarts = false := by
  have history : observedSince (⟨state, timed, next⟩ :: rounds) = observedSince rounds := by
    rw [observedSince, received]
  have delivers : ∀ connectionId,
      (Round.mk state timed next).delivers connectionId = false := by
    intro connectionId
    rw [Round.delivers, received]
  rcases onFec_flow summary.consistent stepped with ⟨active, kept⟩ | ⟨idle, rfl⟩
  · have starts : (Round.mk state timed next).startsFlow = false := kept.startsFlow
    refine ⟨FlowChange.summarises kept consistent ?_ ?_, kept.restarts⟩
    · rw [history]
      exact summary.detector
    · intro connectionId
      rw [delivered, delivers, starts, Bool.false_or, Bool.not_false, Bool.true_and]
      exact summary.members active connectionId
  · refine ⟨⟨consistent, ?_, ?_, fun _ => summary.idle idle⟩, Round.restarts_eq_false rfl⟩
    · rw [history]
      exact summary.detector
    · intro active
      cases idle.symm.trans active

theorem Summarises.afterTimeout (summary : Summarises rounds state)
    (expired : timed.input = .timeout) (consistent : Consistent next)
    (stepped : onTimeout config now state = some next) :
    Summarises (⟨state, timed, next⟩ :: rounds) next ∧
      (Round.mk state timed next).restarts = false := by
  have history : observedSince (⟨state, timed, next⟩ :: rounds) =
      if state.initialized && !next.initialized then [] else observedSince rounds := by
    rw [observedSince, expired]
  have delivers : ∀ connectionId,
      (Round.mk state timed next).delivers connectionId = false := by
    intro connectionId
    rw [Round.delivers, expired]
  rcases onTimeout_flow summary.consistent stepped with ⟨active, kept | rfl⟩ | ⟨idle, rfl⟩
  · have starts : (Round.mk state timed next).startsFlow = false := kept.startsFlow
    refine ⟨FlowChange.summarises kept consistent ?_ ?_, kept.restarts⟩
    · rw [history, kept.initialized, Bool.not_true, Bool.and_false, if_neg Bool.false_ne_true]
      exact summary.detector
    · intro connectionId
      rw [delivered, delivers, starts, Bool.false_or, Bool.not_false, Bool.true_and]
      exact summary.members active connectionId
  · refine ⟨⟨consistent, ?_, ?_, fun _ => ⟨rfl, rfl⟩⟩, Round.restarts_eq_false rfl⟩
    · rw [history, active]
      exact RestartDetector.tracks_cleared
    · intro impossible
      cases impossible
  · refine ⟨⟨consistent, ?_, ?_, fun _ => summary.idle idle⟩, Round.restarts_eq_false rfl⟩
    · rw [history, idle, Bool.false_and, if_neg Bool.false_ne_true]
      exact summary.detector
    · intro active
      cases idle.symm.trans active

theorem Summarises.step (summary : Summarises rounds state)
    (stepped : reorderStep config state timed = some next) :
    Summarises (⟨state, timed, next⟩ :: rounds) next ∧
      ((Round.mk state timed next).restarts = true ↔
        RestartsFlow rounds ⟨state, timed, next⟩) := by
  have consistent := summary.consistent.reorderStep stepped
  rcases timed with ⟨now, (packet | fec) | -⟩
  · exact summary.afterPacket stepped
  · have received : (TimedInput.mk now (.frame (.fec fec))).input = .frame (.fec fec) := rfl
    rcases summary.afterFec received consistent stepped with ⟨later, silent⟩
    refine ⟨later, ?_⟩
    rw [silent]
    refine ⟨Bool.noConfusion, ?_⟩
    rintro ⟨_, impossible, -⟩
    cases impossible
  · have expired : (TimedInput.mk now .timeout).input = .timeout := rfl
    rcases summary.afterTimeout expired consistent stepped with ⟨later, silent⟩
    refine ⟨later, ?_⟩
    rw [silent]
    refine ⟨Bool.noConfusion, ?_⟩
    rintro ⟨_, impossible, -⟩
    cases impossible

end AnyRound

theorem summarises_reorderRounds {inputs : List TimedInput} {rounds : List Round}
    (ran : reorderRounds config inputs = some (rounds, state)) : Summarises rounds state := by
  apply @ListLoops.foldlM_invariant _ _
    (fun progress : List Round × ReorderState => Summarises progress.1 progress.2) _ _ _ _ _ ran
    .initial
  rintro timed - ⟨earlier, before⟩ ⟨later, after⟩ added summary
  rcases Option.map_eq_some_iff.mp added with ⟨next, stepped, same⟩
  cases same
  exact (summary.step stepped).1

/-! ## Too few packets for a restart -/

def receivedPackets (inputs : List TimedInput) : List ReceivedPacket :=
  inputs.filterMap fun timed =>
    match timed.input with
    | .frame (.packet packet) => some packet
    | .frame (.fec _) | .timeout => none

/-- The packets are fragments of one packet, each delivered once. -/
structure FragmentsOnce (packets : List ReceivedPacket) : Prop where
  onePacket : ∃ sequence fragments, ∀ packet ∈ packets,
    packet.header.sequence = sequence ∧ packet.header.fragments = fragments
  once : (packets.map fun packet => packet.header.fragment).Nodup

theorem FragmentsOnce.few {packets : List ReceivedPacket} (fragments : FragmentsOnce packets) :
    packets.length < restartConfirmPackets := by
  have inRange : packets.map (fun packet => packet.header.fragment) ⊆ List.range maxFragments := by
    intro fragment member
    rcases List.mem_map.mp member with ⟨packet, -, rfl⟩
    exact List.mem_range.mpr (Nat.lt_of_lt_of_le packet.valid.2.1 packet.valid.2.2)
  have bound := (fragments.once.subperm inRange).length_le
  rw [List.length_map, List.length_range] at bound
  exact Nat.lt_succ_of_le bound

theorem length_observedSince_le (round : Round) (rounds : List Round) :
    (observedSince (round :: rounds)).length ≤
      (receivedPackets [round.timed]).length + (observedSince rounds).length := by
  rcases round with ⟨before, ⟨now, (packet | fec) | -⟩, after⟩
  · rw [observedSince]
    dsimp only
    split
    · exact Nat.zero_le _
    · split
      · exact Nat.le_add_left _ _
      · split
        · exact Nat.zero_le _
        · exact Nat.le_of_eq (Nat.add_comm _ 1)
  · exact Nat.le_of_eq (Nat.zero_add _).symm
  · rw [observedSince]
    dsimp only
    split
    · exact Nat.zero_le _
    · exact Nat.le_add_left _ _

/-- While fewer packets than a restart takes have been observed or are to come,
no round restarts the flow. -/
theorem no_restart_of_few {more : List TimedInput} {rounds all : List Round}
    {final : ReorderState} (summary : Summarises rounds state)
    (few : (receivedPackets more).length + (observedSince rounds).length < restartConfirmPackets)
    (ran : more.foldlM (addRound config) (rounds, state) = some (all, final)) :
    ∃ later, all = later ++ rounds ∧ later.length = more.length ∧
      ∀ round ∈ later, round.restarts = false := by
  induction more generalizing rounds state with
  | nil =>
      cases ran
      exact ⟨[], rfl, rfl, List.forall_mem_nil _⟩
  | cons timed rest induction =>
      rw [List.foldlM_cons] at ran
      rcases Option.bind_eq_some_iff.mp ran with ⟨⟨front, next⟩, added, remaining⟩
      rcases Option.map_eq_some_iff.mp added with ⟨stepTo, stepped, same⟩
      cases same
      rcases summary.step stepped with ⟨later, restarts⟩
      have total : (receivedPackets (timed :: rest)).length =
          (receivedPackets [timed]).length + (receivedPackets rest).length := by
        rw [← List.length_append, receivedPackets, receivedPackets, receivedPackets,
          ← List.filterMap_append]
        rfl
      have grown : (observedSince (⟨state, timed, next⟩ :: rounds)).length ≤
          (receivedPackets [timed]).length + (observedSince rounds).length :=
        length_observedSince_le _ _
      rcases induction later (by omega) remaining with ⟨others, split, length, silent⟩
      refine ⟨others ++ [⟨state, timed, next⟩], by rw [split, List.append_assoc]; rfl,
        by rw [List.length_append, length]; rfl, ?_⟩
      refine List.forall_mem_append.mpr ⟨silent, List.forall_mem_singleton.mpr ?_⟩
      rw [Bool.eq_false_iff]
      intro restarted
      rcases restarts.mp restarted with ⟨_, -, -, -, enough⟩
      have short := latestRun_le_length (observedSince (⟨state, timed, next⟩ :: rounds))
      omega

/-- In every run, a round restarts the flow exactly when its packet is behind
`next_seq`, comes over a connection that has delivered nothing of the flow, and
ends a long enough run of what the detector has observed since it was cleared.
After a cleared detector, the fragments of one packet never do. -/
theorem restart_iff_longRun {inputs : List TimedInput} {rounds : List Round}
    (ran : reorderRounds config inputs = some (rounds, state)) :
    (∀ timed next, reorderStep config state timed = some next →
      ((Round.mk state timed next).restarts = true ↔
        ∃ packet, timed.input = .frame (.packet packet) ∧
          packet.header.sequence < state.nextSeq ∧
          delivered packet.connectionId rounds = false ∧
          restartConfirmPackets ≤ latestRun (observedSince (⟨state, timed, next⟩ :: rounds)))) ∧
    (state.restartDetector = .cleared → ∀ more all final, FragmentsOnce (receivedPackets more) →
      reorderRounds config (inputs ++ more) = some (all, final) →
      ∃ later, all = later ++ rounds ∧ later.length = more.length ∧
        ∀ round ∈ later, round.restarts = false) := by
  have summary := summarises_reorderRounds ran
  constructor
  · intro timed next stepped
    exact (summary.step stepped).2
  · intro cleared more all final fragments continued
    have none : observedSince rounds = [] := by
      have count := summary.detector.count
      rw [cleared] at count
      cases history : observedSince rounds with
      | nil => rfl
      | cons latest rest =>
          have positive := one_le_latestRun_cons latest rest
          rw [history] at count
          have zero : latestRun (latest :: rest) = 0 := count.symm
          omega
    have few := fragments.few
    rw [reorderRounds, List.foldlM_append] at continued
    rw [show inputs.foldlM (addRound config) ([], .initial) = some (rounds, state) from ran]
      at continued
    exact no_restart_of_few summary (by rw [none]; exact few) continued

/-- Seven packets of a restarted sender. -/
def firstStrangers : List TimedInput :=
  arrival 0 oldFlowPacket :: firstSequences.map fun sequence =>
    arrival 1 (strangerPacket 1 sequence)

theorem reorderRounds_firstStrangers :
    ∃ rounds state, reorderRounds ⟨none, 10, 10⟩ firstStrangers = some (rounds, state) ∧
      state.initialized = true ∧ state.nextSeq = 10001 ∧ delivered 1 rounds = false ∧
      observedSince rounds = [6, 5, 4, 3, 2, 1, 0] := by
  have evaluated : (reorderRounds ⟨none, 10, 10⟩ firstStrangers).any (fun result =>
      decide (result.2.initialized = true ∧ result.2.nextSeq = 10001 ∧
        delivered 1 result.1 = false ∧ observedSince result.1 = [6, 5, 4, 3, 2, 1, 0])) = true := by
    decide +kernel
  rcases (Option.any_eq_true _ _).mp evaluated with ⟨⟨rounds, state⟩, ran, facts⟩
  exact ⟨rounds, state, ran, of_decide_eq_true facts⟩

theorem restart_iff_longRun_eighth :
    ∃ rounds state next,
      reorderRounds ⟨none, 10, 10⟩ firstStrangers = some (rounds, state) ∧
      reorderStep ⟨none, 10, 10⟩ state (arrival 1 (strangerPacket 1 7)) = some next ∧
      (Round.mk state (arrival 1 (strangerPacket 1 7)) next).restarts = true := by
  rcases reorderRounds_firstStrangers with
    ⟨rounds, state, ran, active, position, stranger, history⟩
  have consistent := (summarises_reorderRounds ran).consistent
  rcases (consistent_invariant ⟨none, 10, 10⟩).reorderStep (fun _ _ => trivial) consistent trivial
    with ⟨next, stepped, -⟩
  refine ⟨rounds, state, next, ran, stepped, ?_⟩
  have behind : (strangerPacket 1 7).header.sequence < state.nextSeq := by
    rw [position]
    decide
  apply ((restart_iff_longRun ran).1 _ next stepped).mpr
  refine ⟨strangerPacket 1 7, rfl, behind, stranger, ?_⟩
  rw [observedSince_of_stranger active behind (Bool.eq_false_iff.mp stranger), history, position]
  decide

end Irohsion.Server
