import Irohsion.Server.GapExpiry
import Irohsion.Server.Shelter

/-! # Stragglers of the old flow

After a restart, packets of the old flow still lie ahead of the window and are
taken for early packets of the new flow. They stay harmless as long as they are
not held for `max_reorder_delay` and the new flow does not come up to them.
-/

namespace Irohsion.Server

open Protocol Std

variable {config : ReorderConfig} {now : Instant}
variable {state base : ReorderState} {limit : Nat}
variable {packet : ReceivedPacket}

/-! ## Runs after a restart -/

/-- The sequences that an input names. -/
def TimedInput.Names (timed : TimedInput) (sequence : Nat) : Prop :=
  match timed.input with
  | .frame (.packet packet) => sequence = packet.header.sequence
  | .frame (.fec fec) =>
      ∃ index < fec.frame.payloadLengths.length,
        sequence = sequenceAfter fec.frame.baseSequence index
  | .timeout => False

/-- The flow is still active, the new flow has not come up to the old position,
and every straggler in the buffers is younger than the reorder delay. -/
structure Harmless (config : ReorderConfig) (limit : Nat) (state : ReorderState)
    (timed : TimedInput) : Prop where
  active : state.initialized = true
  avoids : ∀ sequence, timed.Names sequence → sequence + 1 ≠ limit
  young : Young config timed.now limit state

/-- In this round no straggler is forwarded, nothing is skipped unless a packet
of the new flow has itself waited too long, and a packet that arrives at the next
position is forwarded in this round as soon as it is complete. -/
def Undisturbed (config : ReorderConfig) (limit : Nat) (timed : TimedInput)
    (before after : ReorderState) : Prop :=
  ∃ effects, after.trace = before.trace ++ effects ∧
    Orderly config timed.now limit before effects ∧
    ∀ packet, timed.input = .frame (.packet packet) →
      ServedInOrder timed.now packet before effects

/-! ## The restarted window -/

theorem not_pending_restarted (sequence : Nat) (since : Instant) :
    ¬ (restarted packet state).Pending sequence since := by
  intro pending
  rcases pending with ⟨_, found, _⟩ | ⟨_, found, _⟩
  · exact ExtTreeMap.not_mem_empty (OrderedMap.mem_of_getElem? found)
  · exact ExtTreeMap.not_mem_empty (OrderedMap.mem_of_getElem? found)

theorem Young.restarted : Young config now limit (restarted packet state) :=
  fun sequence since pending => absurd pending (not_pending_restarted sequence since)

theorem Sheltered.restarted (below : packet.header.sequence < limit) :
    Sheltered limit (restarted packet state) where
  below := below
  avoids pending := absurd pending (not_pending_restarted _ _)
  frames := by
    intro stored frame found
    exact absurd (OrderedMap.mem_of_getElem? found) ExtTreeMap.not_mem_empty
  drained := ExtTreeMap.not_mem_empty

theorem Shelter.advance (positive : 0 < config.maxReorderDelay) (wellFormed : WellFormed state)
    (active : state.initialized = true) (shelter : Shelter config now limit base state) :
    ∃ next effects, advanceReorderWindow config now state = some next ∧ Consistent next ∧
      Sheltered limit next ∧ next.trace = base.trace ++ effects ∧
      Orderly config now limit base effects := by
  rcases (shelter_invariant positive now limit base).advanceReorderWindow
    ⟨wellFormed, active, shelter⟩ with ⟨next, advanced, nextWellFormed, stillActive, kept⟩
  rcases kept.effects with ⟨effects, trace, orderly, _⟩
  exact ⟨next, effects, advanced, .of_initialized nextWellFormed stillActive,
    kept.sheltered (advanceReorderWindow_drained advanced), trace, orderly⟩

theorem onTimeout_undisturbed (positive : 0 < config.maxReorderDelay)
    (consistent : Consistent state) (sheltered : Sheltered limit state)
    (active : state.initialized = true) (young : Young config now limit state) :
    ∃ next effects, onTimeout config now state = some next ∧ Consistent next ∧
      Sheltered limit next ∧ next.trace = state.trace ++ effects ∧
      Orderly config now limit state effects := by
  rw [onTimeout]
  rw [active]
  cases pending : state.hasPendingState with
  | true =>
      exact (sheltered.shelter young).advance positive consistent.toWellFormed active
  | false =>
      rcases not_mem_of_hasPendingState pending with ⟨buffered, fragments, _⟩
      have idle : RoundMove now (fun _ => True) state (idleReset state) := .idle active pending
      refine ⟨idleReset state, [], rfl, consistent.roundMove idle, ⟨?_, ?_, ?_, ?_⟩,
        (List.append_nil _).symm, .of_quiet fun _ member => absurd member List.not_mem_nil⟩
      · exact Nat.zero_lt_of_lt sheltered.below
      · exact sheltered.avoids
      · intro stored frame found
        simp [idleReset, FecState.empty] at found
      · show 0 ∉ state.buffered
        rw [buffered]
        exact ExtTreeMap.not_mem_empty

theorem onFec_undisturbed (positive : 0 < config.maxReorderDelay) {fec : ReceivedFecFrame}
    (consistent : Consistent state) (sheltered : Sheltered limit state)
    (active : state.initialized = true) (young : Young config now limit state)
    (avoids : ∀ index, index < fec.frame.payloadLengths.length →
      sequenceAfter fec.frame.baseSequence index + 1 ≠ limit) :
    ∃ next effects, onFec config now fec state = some next ∧ Consistent next ∧
      Sheltered limit next ∧ next.trace = state.trace ++ effects ∧
      Orderly config now limit state effects := by
  have stored := consistent.toWellFormed.storeFrame fec
  have storedSheltered : Sheltered limit
      { state with fecState := state.fecState.insertFrame fec.frame } := by
    refine ⟨sheltered.below, sheltered.avoids, ?_, sheltered.drained⟩
    intro base frame found
    rcases FecState.insertFrame_found found with ⟨_, rfl⟩ | found
    · exact avoids
    · exact sheltered.frames found
  have shelter := storedSheltered.shelter young
  have routed : Shelter config now limit state
      (ReorderState.setReplyRoutes fec.remote false
        { state with fecState := state.fecState.insertFrame fec.frame }) :=
    ⟨shelter.below, shelter.avoids, shelter.overdue, shelter.frames, shelter.effects⟩
  have routedWellFormed : WellFormed (ReorderState.setReplyRoutes fec.remote false
      { state with fecState := state.fecState.insertFrame fec.frame }) :=
    stored.congr rfl rfl rfl rfl rfl
  have recovered := (shelter_invariant positive now limit state).toWindow.recoverFecReady
    ⟨routedWellFormed, active, routed⟩
  rcases Shelter.advance positive recovered.1 recovered.2.1 recovered.2.2 with
    ⟨next, effects, advanced, result⟩
  refine ⟨next, effects, ?_, result⟩
  rw [← advanced]
  exact if_pos active

/-- A packet behind the window is recorded, or restarts the flow once more. -/
theorem onPacket_behind_undisturbed (positive : 0 < config.maxReorderDelay)
    (consistent : Consistent state) (sheltered : Sheltered limit state)
    (active : state.initialized = true) (behind : packet.header.sequence < state.nextSeq) :
    ∃ next effects, onPacket config now packet state = some next ∧ Consistent next ∧
      Sheltered limit next ∧ next.trace = state.trace ++ effects ∧
      Orderly config now limit state effects := by
  have quiet : ∀ {effect : Effect}, effect.isRejection = true →
      Orderly config now limit state [effect] := by
    intro effect rejects
    refine .of_quiet ?_
    intro other member
    rw [List.mem_singleton.mp member]
    exact Effect.isDelivery_of_isRejection rejects
  by_cases member : packet.connectionId ∈ state.flowConnections
  · rcases rejectLate_trace packet (state.setReplyRoutes packet.remote false) with
      ⟨effect, rejects, outcome⟩
    refine ⟨_, [effect], (onPacket_behind config now active behind member).trans
      (congrArg some outcome), ?_, ?_, rfl, quiet rejects⟩
    · exact .of_initialized (consistent.toWellFormed.congr rfl rfl rfl rfl rfl) active
    · exact ⟨sheltered.below, sheltered.avoids, sheltered.frames, sheltered.drained⟩
  · cases confirmed : (state.restartDetector.observe packet.header.sequence state.nextSeq).2 with
    | false =>
        rcases onPacket_unconfirmed config now active behind member confirmed with
          ⟨effect, rejects, outcome⟩
        refine ⟨_, [effect], outcome, ?_, ?_, rfl, quiet rejects⟩
        · exact .of_initialized (consistent.toWellFormed.congr rfl rfl rfl rfl rfl) active
        · exact ⟨sheltered.below, sheltered.avoids, sheltered.frames, sheltered.drained⟩
    | true =>
        have restartedWellFormed := consistent.toWellFormed.restarted active behind
        have gap := RestartDetector.gap_of_confirmed confirmed
        have below := sheltered.below
        have wide : 1 < restartBackwardGap := by decide
        rcases @processAdmitted_orderly config now _ _ _ positive restartedWellFormed active
          (Sheltered.restarted (Nat.lt_trans behind below)) (Young.restarted)
          (show packet.header.sequence + 1 ≠ limit by omega) with
          ⟨next, effects, processed, nextConsistent, nextSheltered, trace, orderly, _⟩
        refine ⟨next, .flowReset packet.header.sequence state.heldPayloads :: effects,
          (onPacket_confirmed config now active behind member confirmed).trans processed,
          nextConsistent, nextSheltered, ?_, ?_⟩
        · rw [trace]
          exact List.append_assoc _ _ _
        · have reset : Orderly config now limit state
              [.flowReset packet.header.sequence state.heldPayloads] :=
            .of_quiet (by simp [Effect.isDelivery])
          refine reset.append ⟨orderly.1, ?_⟩
          intro sequence reason skipped
          rcases (orderly.2 sequence reason skipped).2 with ⟨position, since, pending, _⟩
          exact absurd pending (not_pending_restarted _ _)

/-- One round. -/
theorem reorderStep_undisturbed (positive : 0 < config.maxReorderDelay) {timed : TimedInput}
    (consistent : Consistent state)
    (sheltered : Sheltered limit state) (harmless : Harmless config limit state timed) :
    ∃ next, reorderStep config state timed = some next ∧ Consistent next ∧
      Sheltered limit next ∧ Undisturbed config limit timed state next := by
  rcases timed with ⟨now, input⟩
  rcases harmless with ⟨active, avoids, young⟩
  cases input with
  | timeout =>
      rcases onTimeout_undisturbed positive consistent sheltered active young with
        ⟨next, effects, stepped, nextConsistent, nextSheltered, trace, orderly⟩
      exact ⟨next, stepped, nextConsistent, nextSheltered, effects, trace, orderly, nofun⟩
  | frame frame =>
      cases frame with
      | fec fec =>
          have membersAvoid : ∀ index, index < fec.frame.payloadLengths.length →
              sequenceAfter fec.frame.baseSequence index + 1 ≠ limit :=
            fun index bound => avoids _ ⟨index, bound, rfl⟩
          rcases onFec_undisturbed positive consistent sheltered active young membersAvoid with
            ⟨next, effects, stepped, nextConsistent, nextSheltered, trace, orderly⟩
          exact ⟨next, stepped, nextConsistent, nextSheltered, effects, trace, orderly, nofun⟩
      | packet packet =>
          by_cases behind : packet.header.sequence < state.nextSeq
          · rcases onPacket_behind_undisturbed positive consistent sheltered active behind with
              ⟨next, effects, stepped, nextConsistent, nextSheltered, trace, orderly⟩
            refine ⟨next, stepped, nextConsistent, nextSheltered, effects, trace, orderly, ?_⟩
            intro other same expected
            cases same
            omega
          · have joinedSheltered : Sheltered limit (joined packet state) :=
              ⟨sheltered.below, sheltered.avoids, sheltered.frames, sheltered.drained⟩
            rcases processAdmitted_orderly positive (consistent.toWellFormed.joined packet) active
              joinedSheltered young (avoids _ rfl) with
              ⟨next, effects, processed, nextConsistent, nextSheltered, trace, orderly, served⟩
            refine ⟨next, ?_, nextConsistent, nextSheltered, effects, trace, orderly, ?_⟩
            · exact (onPacket_ahead config now active (Nat.le_of_not_lt behind)).trans processed
            · intro other same expected notRepeated
              cases same
              rcases served expected notRepeated with ⟨clean, forwards⟩
              refine ⟨clean, fun payload completes => forwards payload ?_⟩
              rcases completes with whole | ⟨filled, fills, complete⟩
              · exact Or.inl whole
              · exact Or.inr ⟨filled, ⟨fills.several, fills.slots, fills.fill⟩, complete⟩

/-- Every round of a run in which each round meets the condition. -/
theorem undisturbed_of_harmless (positive : 0 < config.maxReorderDelay)
    {inputs : List TimedInput} (consistent : Consistent state) (sheltered : Sheltered limit state)
    (harmless : ∀ earlier timed later reached, inputs = earlier ++ timed :: later →
      earlier.foldlM (reorderStep config) state = some reached →
      Harmless config limit reached timed) :
    ∃ final, inputs.foldlM (reorderStep config) state = some final ∧
      ∀ earlier timed later reached, inputs = earlier ++ timed :: later →
        earlier.foldlM (reorderStep config) state = some reached →
        ∃ next, reorderStep config reached timed = some next ∧
          Undisturbed config limit timed reached next := by
  induction inputs generalizing state with
  | nil =>
      refine ⟨state, rfl, ?_⟩
      intro earlier timed later reached split
      simp at split
  | cons timed rest induction =>
      rcases reorderStep_undisturbed positive consistent sheltered
        (harmless [] timed rest state rfl rfl) with
        ⟨next, stepped, nextConsistent, nextSheltered, undisturbed⟩
      have prefixed : ∀ earlier, (timed :: earlier).foldlM (reorderStep config) state =
          earlier.foldlM (reorderStep config) next := foldlM_reorderStep_cons stepped
      rcases induction nextConsistent nextSheltered
        (fun earlier input later reached split ran =>
          harmless (timed :: earlier) input later reached (by rw [split]; rfl)
            ((prefixed earlier).trans ran)) with ⟨final, finished, all⟩
      refine ⟨final, (prefixed rest).trans finished, ?_⟩
      intro earlier input later reached split ran
      cases earlier with
      | nil =>
          cases split
          cases ran
          exact ⟨next, stepped, undisturbed⟩
      | cons first earlier =>
          cases split
          exact all earlier input later reached rfl ((prefixed earlier).symm.trans ran)

/-- After a confirmed restart from the old position, every round that meets the
condition leaves the new flow undisturbed by stragglers. -/
theorem stragglers_undisturbed (positive : 0 < config.maxReorderDelay)
    {inputs : List TimedInput} (reached : reorderLoop config inputs = some state)
    (active : state.initialized = true) {restarting : ReceivedPacket}
    (stranger : restarting.connectionId ∉ state.flowConnections)
    (confirmed :
      (state.restartDetector.observe restarting.header.sequence state.nextSeq).2 = true)
    (now : Instant) {later : List TimedInput}
    (harmless : ∀ restarted earlier timed rest current,
      reorderStep config state (arrival now restarting) = some restarted →
      later = earlier ++ timed :: rest →
      earlier.foldlM (reorderStep config) restarted = some current →
      Harmless config state.nextSeq current timed) :
    ∃ restarted, reorderStep config state (arrival now restarting) = some restarted ∧
      (∃ effects, restarted.trace = state.trace ++
        .flowReset restarting.header.sequence state.heldPayloads :: effects) ∧
      ∀ earlier timed rest current, later = earlier ++ timed :: rest →
        earlier.foldlM (reorderStep config) restarted = some current →
        ∃ next, reorderStep config current timed = some next ∧
          Undisturbed config state.nextSeq timed current next := by
  have consistent := (reorderLoop_refines reached).1
  have gap := RestartDetector.gap_of_confirmed confirmed
  have wide : 1 < restartBackwardGap := by decide
  have behind : restarting.header.sequence < state.nextSeq := by omega
  rcases @processAdmitted_orderly config now _ _ _ positive
    (consistent.toWellFormed.restarted active behind) active (Sheltered.restarted behind)
    Young.restarted (show restarting.header.sequence + 1 ≠ state.nextSeq by omega) with
    ⟨restarted, effects, processed, nextConsistent, sheltered, trace, _, _⟩
  have stepped : reorderStep config state (arrival now restarting) = some restarted :=
    (onPacket_confirmed config now active behind stranger confirmed).trans processed
  refine ⟨restarted, stepped, ⟨effects, ?_⟩, ?_⟩
  · rw [trace]
    exact List.append_assoc _ _ _
  · rcases undisturbed_of_harmless positive nextConsistent sheltered
      (fun earlier timed rest current split ran =>
        harmless restarted earlier timed rest current stepped split ran) with ⟨_, _, all⟩
    exact all

/-! ## A restart followed by a straggler -/

def restartConfig : ReorderConfig := ⟨none, 10, 10⟩

/-- The old flow, and all but the last packet that confirm its restart. -/
def untilRestart : List TimedInput :=
  arrival 0 oldFlowPacket ::
    firstSequences.map fun sequence => arrival 1 (strangerPacket 1 sequence)

/-- The next packet of the old flow, on its connection. -/
def stragglerPacket : ReceivedPacket := .whole "client" 0 10001 [9] (by decide)

theorem reorderLoop_untilRestart :
    ∃ state, reorderLoop restartConfig untilRestart = some state ∧ state.initialized = true ∧
      state.nextSeq = 10001 ∧ 0 ∈ state.flowConnections ∧ 1 ∉ state.flowConnections ∧
      (state.restartDetector.observe 7 state.nextSeq).2 = true :=
  exists_of_any (by decide +kernel)

theorem reorderLoop_restarted :
    ∃ restarted, reorderLoop restartConfig
        (untilRestart ++ [arrival 1 (strangerPacket 1 7)]) = some restarted ∧
      restarted.initialized = true ∧ restarted.buffered.toList = [] ∧
      restarted.fragments.toList = [] :=
  exists_of_any (by decide +kernel)

/-- The straggler is held, and the new flow waits for its next packet. -/
theorem reorderLoop_stragglerHeld :
    ∃ state, reorderLoop restartConfig (untilRestart ++ [arrival 1 (strangerPacket 1 7)] ++
        [arrival 2 stragglerPacket]) = some state ∧
      state.initialized = true ∧ state.nextSeq = 8 ∧ 1 ∈ state.flowConnections ∧
      state.buffered.toList = [(10001, ⟨[9], 2⟩)] ∧ state.fragments.toList = [] ∧
      state.fecState.frames.toList = [] :=
  exists_of_any (by decide +kernel)

/-- While the straggler is held, the next packet of the new flow is forwarded. -/
theorem stragglers_undisturbed_eight :
    ∃ state final, reorderLoop restartConfig (untilRestart ++ [arrival 1 (strangerPacket 1 7)] ++
        [arrival 2 stragglerPacket]) = some state ∧
      reorderStep restartConfig state (arrival 3 (strangerPacket 1 8)) = some final ∧
      .forward 8 [] ∈ final.trace := by
  rcases reorderLoop_untilRestart with
    ⟨old, reached, active, position, _, stranger, confirmed⟩
  rcases reorderLoop_restarted with ⟨restarted, reachedRestart, isActive, buffered, fragments⟩
  rcases reorderLoop_stragglerHeld with
    ⟨held, reachedHeld, heldActive, heldPosition, _, heldBuffered, heldFragments, _⟩
  have restarts := reorderStep_of_reorderLoop reached reachedRestart
  have holds := reorderStep_of_reorderLoop reachedRestart reachedHeld
  have harmless : ∀ first earlier timed rest current,
      reorderStep restartConfig old (arrival 1 (strangerPacket 1 7)) = some first →
      [arrival 2 stragglerPacket, arrival 3 (strangerPacket 1 8)] = earlier ++ timed :: rest →
      earlier.foldlM (reorderStep restartConfig) first = some current →
      Harmless restartConfig old.nextSeq current timed := by
    intro first earlier timed rest current restarts' split ran
    cases restarts.symm.trans restarts'
    rcases earlier with _ | ⟨opening, _ | ⟨second, earlier⟩⟩
    · cases split
      cases ran
      refine ⟨isActive, ?_, ?_⟩
      · intro _ same
        cases same
        rw [position]
        decide
      · intro sequence since pending _
        rcases pending_of_toList fragments pending with ⟨_, member, _⟩
        rw [buffered] at member
        cases member
    · cases split
      have same : current = held := by
        rw [foldlM_reorderStep_cons holds] at ran
        exact (Option.some.inj ran).symm
      subst same
      refine ⟨heldActive, ?_, ?_⟩
      · intro _ same
        cases same
        rw [position]
        decide
      · intro sequence since pending _
        rcases pending_of_toList heldFragments pending with ⟨packet, member, rfl⟩
        rw [heldBuffered] at member
        cases List.mem_singleton.mp member
        decide
    · simp at split
  rcases stragglers_undisturbed (by decide) reached active stranger confirmed 1 harmless with
    ⟨first, restarts', _, undisturbed⟩
  cases restarts.symm.trans restarts'
  rcases undisturbed [arrival 2 stragglerPacket] (arrival 3 (strangerPacket 1 8)) [] held rfl
    (foldlM_reorderStep_cons holds []) with ⟨final, stepped, effects, trace, _, served⟩
  refine ⟨held, final, reachedHeld, stepped, ?_⟩
  rcases served (strangerPacket 1 8) rfl heldPosition.symm (fun repeated => repeated.1 rfl) with
    ⟨_, forwards⟩
  rw [trace]
  exact List.mem_append_right _ (forwards [] (Or.inl ⟨rfl, rfl⟩))

/-! ## A straggler that has waited too long -/

/-- Draining ends with the only packet that is held. -/
theorem drainReady_of_only {packet : BufferedPacket}
    (found : state.buffered[state.nextSeq]? = some packet)
    (only : ∀ other ∈ state.buffered, other = state.nextSeq) :
    drainReady state = drainPacket packet state := by
  have first : drainStep state = .yield (drainPacket packet state) := by
    rw [drainStep, found]
  have absent : (drainPacket packet state).nextSeq ∉ (drainPacket packet state).buffered := by
    intro member
    rcases OrderedMap.mem_erase_iff.mp member with ⟨different, member⟩
    exact different (only _ member)
  have last : drainStep (drainPacket packet state) = .done (drainPacket packet state) := by
    rw [drainStep, ExtTreeMap.getElem?_eq_none absent]
  rw [drainReady, BreakLoop.run, first]
  cases state.buffered.size with
  | zero => rfl
  | succ size => simp only [BreakLoop.run, last]

/-- A single payload that has been held for too long is forwarded by the next
timeout, however many positions lie before it. -/
theorem onTimeout_overdue (unrepaired : config.repairRequestInterval = none)
    (wellFormed : WellFormed state) (active : state.initialized = true)
    {sequence : Nat} {held : BufferedPacket} (buffered : state.buffered.toList = [(sequence, held)])
    (fragments : state.fragments.toList = []) (frames : state.fecState.frames.toList = [])
    (overdue : config.maxReorderDelay ≤ held.receivedAt.elapsed now) :
    ∃ next, onTimeout config now state = some next ∧ next.initialized = true ∧
      next.nextSeq = nextSequence sequence ∧ next.flowConnections = state.flowConnections ∧
      .forward sequence held.payload ∈ next.trace := by
  have isHeld : ∀ (other : Nat) (packet : BufferedPacket), state.buffered[other]? = some packet →
      other = sequence ∧ packet = held := by
    intro other packet found
    have member := ExtTreeMap.mem_toList_iff_getElem?_eq_some.mpr found
    rw [buffered, List.mem_singleton] at member
    exact Prod.ext_iff.mp member
  have found : state.buffered[sequence]? = some held :=
    ExtTreeMap.mem_toList_iff_getElem?_eq_some.mp (buffered ▸ List.mem_singleton_self _)
  have only : ∀ other ∈ state.buffered, other = sequence := by
    intro other member
    exact (isHeld other _ (ExtTreeMap.getElem?_eq_some_getElem member)).1
  have pending : state.hasPendingState = true :=
    hasPendingState_of_held (Or.inl (OrderedMap.mem_of_getElem? found))
  rcases @expireReorderGap_overdue config now state wellFormed
    (ExtTreeMap.toList_eq_nil_iff.mp fragments) ⟨sequence, OrderedMap.mem_of_getElem? found⟩
    (by intro other packet same; rw [(isHeld other packet same).2]; exact overdue) with
    ⟨reached, skipped⟩
  have position : (expireReorderGap config now state).nextSeq = sequence := only _ reached
  have drained : drainReady (expireReorderGap config now state) =
      drainPacket held (expireReorderGap config now state) := by
    apply drainReady_of_only
    · rw [position, skipped.buffered, found]
    · rw [position, skipped.buffered]
      exact only
  refine ⟨drainPacket held (expireReorderGap config now state), ?_, ?_, ?_, ?_, ?_⟩
  · rw [← drained, onTimeout, active, pending, advanceReorderWindow,
      recoverFecReady_of_no_frames now (ExtTreeMap.toList_eq_nil_iff.mp frames), unrepaired]
    rfl
  · exact skipped.initialized.trans active
  · exact congrArg nextSequence position
  · exact skipped.flowConnections
  · rw [drainPacket, position]
    exact List.mem_append_right _ (List.mem_singleton_self _)

/-- The straggler is forwarded when it has waited too long, and the next packet
of the new flow is then discarded. -/
theorem straggler_skips_new_flow :
    ∃ old restarted held final next,
      reorderLoop restartConfig untilRestart = some old ∧ 0 ∈ old.flowConnections ∧
      old.nextSeq = 10001 ∧ 1 ∉ old.flowConnections ∧
      reorderStep restartConfig old (arrival 1 (strangerPacket 1 7)) = some restarted ∧
      reorderStep restartConfig restarted (arrival 2 stragglerPacket) = some held ∧
      held.nextSeq = 8 ∧
      reorderStep restartConfig held ⟨12, .timeout⟩ = some final ∧
      .forward 10001 stragglerPacket.payload ∈ final.trace ∧
      reorderStep restartConfig final (arrival 13 (strangerPacket 1 8)) = some next ∧
      Ignored final next := by
  rcases reorderLoop_untilRestart with ⟨old, reached, _, position, member, stranger, _⟩
  rcases reorderLoop_restarted with ⟨restarted, reachedRestart, _⟩
  rcases reorderLoop_stragglerHeld with
    ⟨held, reachedHeld, active, heldPosition, joinedFlow, buffered, fragments, frames⟩
  have consistent := (reorderLoop_refines reachedHeld).1
  rcases @onTimeout_overdue restartConfig 12 held rfl consistent.toWellFormed active 10001
    ⟨[9], 2⟩ buffered fragments frames (by decide) with
    ⟨final, expired, stillActive, finalPosition, connections, forwarded⟩
  have behind : (strangerPacket 1 8).header.sequence < final.nextSeq := by
    rw [finalPosition]
    decide
  rcases ignored_of_behind restartConfig 13 stillActive behind (connections ▸ joinedFlow) with
    ⟨next, stepped, ignored⟩
  have restarts := reorderStep_of_reorderLoop reached reachedRestart
  have holds := reorderStep_of_reorderLoop reachedRestart reachedHeld
  exact ⟨old, restarted, held, final, next, reached, member, position, stranger, restarts, holds,
    heldPosition, expired, forwarded, stepped, ignored⟩

end Irohsion.Server
