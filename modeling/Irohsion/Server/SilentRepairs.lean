import Irohsion.Server.Delivery

/-! # Repair requests only ask

A loop that sends no repair requests does the same with the same frames and
timeouts. Without the notes of what it has asked for, every state of the loop is
one of a loop that never asks.
-/

namespace Irohsion.Server

open Protocol Std

/-! ## Without requests -/

def FragmentAssembly.unasked (assembly : FragmentAssembly) : FragmentAssembly :=
  { assembly with lastRepairRequest := none }

def Effect.isRequest : Effect → Bool
  | .repairRequest _ => true
  | _ => false

/-- The state of a loop that has sent no repair requests. -/
def ReorderState.unasked (state : ReorderState) : ReorderState :=
  { state with
    fragments := state.fragments.map fun _ assembly => assembly.unasked
    gapRepairRequests := ∅
    trace := state.trace.filter fun effect => !effect.isRequest }

/-- Repair is off. -/
def ReorderConfig.unasking (config : ReorderConfig) : ReorderConfig :=
  { config with repairRequestInterval := none }

section Window

variable (config : ReorderConfig) (now : Instant) (state : ReorderState)

theorem ReorderState.emit_unasked {effect : Effect} (own : effect.isRequest = false) :
    state.unasked.emit effect = (state.emit effect).unasked := by
  simp [ReorderState.emit, ReorderState.unasked, own]

/-! ## The window -/

theorem drainStep_unasked :
    drainStep state.unasked = BreakLoop.mapResult ReorderState.unasked (drainStep state) := by
  have same : state.unasked.buffered[state.unasked.nextSeq]? = state.buffered[state.nextSeq]? :=
    rfl
  rw [drainStep, drainStep, same]
  cases state.buffered[state.nextSeq]? with
  | none => rfl
  | some packet =>
      apply congrArg ForInStep.yield
      simp [drainPacket, ReorderState.unasked, Effect.isRequest]

theorem drainReady_unasked : drainReady state.unasked = (drainReady state).unasked :=
  BreakLoop.run_commutes drainStep_unasked _ state

theorem skipSequence_unasked (reason : SkipReason) :
    skipSequence reason state.unasked = (skipSequence reason state).unasked := by
  simp [skipSequence, ReorderState.unasked, Effect.isRequest]

theorem dropHeadAssembly_unasked :
    dropHeadAssembly state.unasked = (dropHeadAssembly state).unasked := by
  simp [dropHeadAssembly, ReorderState.unasked, OrderedMap.map_erase]

theorem oldestPending_unasked : oldestPending state.unasked = oldestPending state := by
  simp only [oldestPending, ReorderState.unasked, ExtTreeMap.toList_map, List.map_map]
  rfl

theorem expireStep_unasked :
    expireStep config now state.unasked =
      BreakLoop.mapResult ReorderState.unasked (expireStep config now state) := by
  have found : state.unasked.fragments[state.unasked.nextSeq]? =
      state.fragments[state.nextSeq]?.map FragmentAssembly.unasked := ExtTreeMap.getElem?_map
  have buffered : (state.unasked.nextSeq ∈ state.unasked.buffered) =
      (state.nextSeq ∈ state.buffered) := rfl
  rw [expireStep, expireStep, oldestPending_unasked, dropHeadAssembly_unasked,
    skipSequence_unasked, skipSequence_unasked, found]
  by_cases held : state.nextSeq ∈ state.buffered
  · rw [if_pos held, if_pos (buffered ▸ held)]
    rfl
  · rw [if_neg held, if_neg (buffered ▸ held)]
    cases state.fragments[state.nextSeq]? with
    | some assembly =>
        have young : assembly.unasked.firstSeen = assembly.firstSeen := rfl
        simp only [Option.map_some, young]
        split <;> rfl
    | none =>
        simp only [Option.map_none]
        cases oldestPending state with
        | none => rfl
        | some oldest =>
            dsimp only
            split <;> rfl

theorem expireReorderGap_unasked :
    expireReorderGap config now state.unasked = (expireReorderGap config now state).unasked :=
  BreakLoop.run_commutes (expireStep_unasked config now) _ state

theorem acceptCompletePayload_unasked (sequence : Nat) (payload : Bytes) :
    acceptCompletePayload now sequence payload state.unasked =
      (acceptCompletePayload now sequence payload state).unasked := by
  have noted : noteAccepted sequence payload state.unasked =
      (noteAccepted sequence payload state).unasked := by
    simp [noteAccepted, ReorderState.unasked, Effect.isRequest]
  have position : (noteAccepted sequence payload state).unasked.nextSeq =
      (noteAccepted sequence payload state).nextSeq := rfl
  have forwarded : forwardAccepted sequence payload (noteAccepted sequence payload state).unasked =
      (forwardAccepted sequence payload (noteAccepted sequence payload state)).unasked := by
    simp [forwardAccepted, ReorderState.unasked, Effect.isRequest]
  rw [acceptCompletePayload, acceptCompletePayload, noted]
  by_cases expected : sequence = (noteAccepted sequence payload state).nextSeq
  · rw [if_pos (expected.trans position.symm), if_pos expected, forwarded, drainReady_unasked]
  · rw [if_neg fun same => expected (same.trans position), if_neg expected]
    rfl

theorem acceptRecovered_unasked (accepted : Bool) (pair : Nat × Bytes) :
    acceptRecovered now (state.unasked, accepted) pair =
      ((acceptRecovered now (state, accepted) pair).1.unasked,
        (acceptRecovered now (state, accepted) pair).2) := by
  rcases pair with ⟨sequence, payload⟩
  have dropped : ({ state.unasked with
      fragments := state.unasked.fragments.erase sequence } : ReorderState) =
      ({ state with fragments := state.fragments.erase sequence } : ReorderState).unasked := by
    simp only [ReorderState.unasked, OrderedMap.map_erase]
  by_cases known : sequence < state.nextSeq ∨ sequence ∈ state.seen ∨ sequence ∈ state.buffered
  · rw [acceptRecovered, acceptRecovered, if_pos known]
    exact if_pos known
  · rw [acceptRecovered, acceptRecovered, if_neg known, ← acceptCompletePayload_unasked,
      ← ReorderState.emit_unasked _ rfl, ← dropped]
    exact if_neg known

theorem foldl_acceptRecovered_unasked (recovered : List (Nat × Bytes)) (accepted : Bool) :
    recovered.foldl (acceptRecovered now) (state.unasked, accepted) =
      ((recovered.foldl (acceptRecovered now) (state, accepted)).1.unasked,
        (recovered.foldl (acceptRecovered now) (state, accepted)).2) := by
  induction recovered generalizing state accepted with
  | nil => rfl
  | cons pair rest induction =>
      rw [List.foldl_cons, List.foldl_cons, acceptRecovered_unasked, induction]

theorem recoverStep_unasked :
    recoverStep now state.unasked =
      BreakLoop.mapResult ReorderState.unasked (recoverStep now state) := by
  have search : state.unasked.fecState.recoverReady state.unasked.nextSeq state.unasked.buffered =
      state.fecState.recoverReady state.nextSeq state.buffered := rfl
  rw [recoverStep, recoverStep, search]
  rcases state.fecState.recoverReady state.nextSeq state.buffered with ⟨fec, recovered⟩
  dsimp only
  have searched : ({ state.unasked with fecState := fec } : ReorderState) =
      ({ state with fecState := fec } : ReorderState).unasked := rfl
  rw [searched, foldl_acceptRecovered_unasked]
  by_cases nothing : recovered.isEmpty = true
  · rw [if_pos nothing, if_pos nothing]
    rfl
  · rw [if_neg nothing, if_neg nothing]
    rcases recovered.foldl (acceptRecovered now) ({ state with fecState := fec }, false) with
      ⟨final, _ | _⟩
    · rfl
    · rfl

theorem recoverFecReady_unasked :
    recoverFecReady now state.unasked = (recoverFecReady now state).unasked :=
  BreakLoop.run_commutes (recoverStep_unasked now) _ state

end Window

/-! ## What asking leaves -/

section Asking

variable {config : ReorderConfig} {now : Instant} {state next : ReorderState}
variable {interval : Duration}

/-- The notes that a request leaves in the assemblies are not seen. -/
theorem requestFragmentRepairs_unasked {entries : List (Nat × FragmentAssembly)}
    {fragments asked : ExtTreeMap Nat FragmentAssembly} {requests sent : List RepairRequest}
    (present : ∀ entry ∈ entries,
      (fragments.map fun _ assembly => assembly.unasked)[entry.1]? = some entry.2.unasked)
    (requested : requestFragmentRepairs interval now entries (fragments, requests) =
      some (asked, sent)) :
    asked.map (fun _ assembly => assembly.unasked) =
      fragments.map fun _ assembly => assembly.unasked := by
  induction entries generalizing fragments requests with
  | nil =>
      cases requested
      rfl
  | cons entry rest induction =>
      rcases entry with ⟨sequence, assembly⟩
      rw [List.forall_mem_cons] at present
      rw [requestFragmentRepairs] at requested
      split at requested
      · cases requested
        rfl
      · split at requested
        · exact induction present.2 requested
        · split at requested
          · cases requested
          · exact induction present.2 requested
          · -- The assembly is the one that was there, but for its note.
            have same : (fragments.insert sequence
                { assembly with lastRepairRequest := some now }).map
                  (fun _ assembly => assembly.unasked) =
                fragments.map fun _ assembly => assembly.unasked := by
              rw [OrderedMap.map_insert]
              exact OrderedMap.insert_of_getElem? present.1
            rw [← same]
            apply induction _ requested
            rw [same]
            exact present.2

theorem sendRepairRequests_unasked {requests : List RepairRequest}
    (sent : sendRepairRequests requests state = some next) : next.unasked = state.unasked := by
  rw [sendRepairRequests] at sent
  split at sent
  · rw [← Option.some.inj sent]
    have none : (requests.map Effect.repairRequest).filter (fun effect => !effect.isRequest) =
        [] := by simp [Effect.isRequest]
    simp only [ReorderState.unasked, List.filter_append, none, List.append_nil]
  · cases sent

theorem requestDueRepairs_unasked (requested : requestDueRepairs interval now state = some next) :
    next.unasked = state.unasked := by
  rw [requestDueRepairs] at requested
  split at requested
  · cases requested
  · rename_i fragments requests asked
    have present : ∀ entry ∈ state.fragments.toList,
        (state.fragments.map fun _ assembly => assembly.unasked)[entry.1]? =
          some entry.2.unasked := by
      intro entry member
      rw [ExtTreeMap.getElem?_map, ExtTreeMap.mem_toList_iff_getElem?_eq_some.mp member,
        Option.map_some]
    have same := requestFragmentRepairs_unasked present asked
    rw [sendRepairRequests_unasked requested]
    simp only [ReorderState.unasked, same]

theorem advanceReorderWindow_unasked
    (advanced : advanceReorderWindow config now state = some next) :
    advanceReorderWindow config.unasking now state.unasked = some next.unasked := by
  rcases Option.map_eq_some_iff.mp advanced with ⟨requested, asks, rfl⟩
  have same : requested.unasked = (recoverFecReady now state).unasked := by
    cases given : config.repairRequestInterval with
    | none =>
        rw [given] at asks
        rw [← Option.some.inj asks]
    | some interval =>
        rw [given] at asks
        exact requestDueRepairs_unasked asks
  have silent : advanceReorderWindow config.unasking now state.unasked =
      some (drainReady (expireReorderGap config now (recoverFecReady now state.unasked))) := rfl
  rw [silent, recoverFecReady_unasked, ← same, expireReorderGap_unasked, drainReady_unasked]

end Asking

/-! ## Packets -/

theorem FragmentAssembly.insert_unasked (assembly : FragmentAssembly) (fragment : Nat)
    (payload : Bytes) :
    assembly.unasked.insert fragment payload =
      (assembly.insert fragment payload).map fun filled => (filled.1.unasked, filled.2) := by
  have same : assembly.unasked.fragments[fragment]? = assembly.fragments[fragment]? := rfl
  cases slot : assembly.fragments[fragment]? with
  | none =>
      have absent {other : FragmentAssembly} (none : other.fragments[fragment]? = .none) :
          other.insert fragment payload = .none := by
        rw [FragmentAssembly.insert]
        split <;> simp_all
      rw [absent slot, absent (same.trans slot)]
      rfl
  | some filled =>
      cases filled with
      | none =>
          rw [insert_of_vacant slot, insert_of_vacant (same.trans slot)]
          rfl
      | some present =>
          rw [insert_of_filled slot, insert_of_filled (same.trans slot)]
          rfl

def Reassembly.unasked : Reassembly → Reassembly
  | .duplicate state => .duplicate state.unasked
  | .incomplete state => .incomplete state.unasked
  | .complete payload state => .complete payload state.unasked

def Admission.unasked : Admission → Admission
  | .continue state => .continue state.unasked
  | .proceed state => .proceed state.unasked

section Packets

variable {config : ReorderConfig} {now : Instant} {state next : ReorderState}
variable {packet : ReceivedPacket}

theorem takeComplete_unasked (sequence : Nat) (state : ReorderState) :
    takeComplete sequence state.unasked = (takeComplete sequence state).unasked := by
  simp only [takeComplete, ReorderState.unasked, OrderedMap.map_erase]

theorem reassemble_unasked (now : Instant) (packet : ReceivedPacket) (state : ReorderState) :
    reassemble now packet state.unasked =
      (reassemble now packet state).map Reassembly.unasked := by
  have entry : state.unasked.fragments[packet.header.sequence]?.getD
      (.new packet.header.fragments now) =
      (state.fragments[packet.header.sequence]?.getD
        (.new packet.header.fragments now)).unasked := by
    rw [ReorderState.unasked]
    dsimp only
    rw [ExtTreeMap.getElem?_map]
    cases state.fragments[packet.header.sequence]? <;> rfl
  have opened (assembly : FragmentAssembly) :
      ({ state.unasked with
          fragments := state.unasked.fragments.insert packet.header.sequence
            assembly.unasked } : ReorderState) =
        ({ state with
          fragments := state.fragments.insert packet.header.sequence assembly } :
            ReorderState).unasked := by
    simp only [ReorderState.unasked, OrderedMap.map_insert]
  have updated (assembly filled : FragmentAssembly) :
      ({ state.unasked with
          fragments := (state.unasked.fragments.insert packet.header.sequence
            assembly.unasked).insert packet.header.sequence filled.unasked } : ReorderState) =
        ({ state with
          fragments := (state.fragments.insert packet.header.sequence assembly).insert
            packet.header.sequence filled } : ReorderState).unasked := by
    simp only [ReorderState.unasked, OrderedMap.map_insert]
  rw [reassemble, reassemble]
  by_cases whole : packet.header.fragments = 1
  · rw [if_pos whole, if_pos whole, takeComplete_unasked]
    rfl
  · rw [if_neg whole, if_neg whole, entry]
    dsimp only
    generalize state.fragments[packet.header.sequence]?.getD
      (.new packet.header.fragments now) = assembly
    have count : assembly.unasked.countFragments = assembly.countFragments := rfl
    rw [opened, count, FragmentAssembly.insert_unasked]
    cases assembly.countFragments with
    | none => rfl
    | some count =>
        by_cases different : count ≠ packet.header.fragments
        · simp only [if_pos different]
          rw [ReorderState.emit_unasked _ rfl]
          rfl
        · simp only [if_neg different]
          rcases assembly.insert packet.header.fragment packet.payload with
            _ | ⟨filled, _ | _⟩
          · rfl
          · simp only [Option.map_some]
            rw [ReorderState.emit_unasked _ rfl]
            rfl
          · simp only [Option.map_some]
            rw [updated, takeComplete_unasked]
            have complete : filled.unasked.isComplete = filled.isComplete := rfl
            have payload : filled.unasked.intoPayload = filled.intoPayload := rfl
            rw [complete, payload]
            split
            · cases filled.intoPayload with
              | none => rfl
              | some payload => rfl
            · rfl

theorem processAdmitted_unasked
    (processed : processAdmitted config now packet state = some next) :
    processAdmitted config.unasking now packet state.unasked = some next.unasked := by
  by_cases known : packet.header.sequence < state.nextSeq ∨
      packet.header.sequence ∈ state.seen ∨ packet.header.sequence ∈ state.buffered
  · rw [processAdmitted, if_pos known] at processed
    rw [← Option.some.inj processed, ← ReorderState.emit_unasked _ rfl]
    exact if_pos known
  · rw [processAdmitted, if_neg known] at processed
    rw [processAdmitted, reassemble_unasked]
    refine (if_neg known).trans ?_
    cases reassembled : reassemble now packet state with
    | none =>
        rw [reassembled] at processed
        cases processed
    | some outcome =>
        rw [reassembled] at processed
        cases outcome with
        | duplicate final =>
            rw [← Option.some.inj processed]
            rfl
        | incomplete updated => exact advanceReorderWindow_unasked processed
        | complete payload taken =>
            simp only [Option.map_some, Reassembly.unasked]
            rw [acceptCompletePayload_unasked, recoverFecReady_unasked]
            exact advanceReorderWindow_unasked processed

theorem openFlow_unasked (packet : ReceivedPacket) (state : ReorderState) :
    openFlow packet state.unasked = (openFlow packet state).unasked := by
  by_cases active : state.initialized = true
  · rw [openFlow, openFlow, if_pos active]
    exact if_pos active
  · have started : startFlow packet state.unasked = (startFlow packet state).unasked := by
      simp [startFlow, ReorderState.setReplyRoutes, ReorderState.emit, ReorderState.unasked,
        Effect.isRequest]
    rw [openFlow, openFlow, if_neg active, ← started]
    exact if_neg active

theorem rejectLate_unasked (packet : ReceivedPacket) (state : ReorderState) :
    rejectLate packet state.unasked = (rejectLate packet state).unasked := by
  by_cases skipped : state.skippedSequences.contains packet.header.sequence = true
  · rw [rejectLate, rejectLate, if_pos skipped, ← ReorderState.emit_unasked _ rfl]
    exact if_pos skipped
  · rw [rejectLate, rejectLate, if_neg skipped, ← ReorderState.emit_unasked _ rfl]
    exact if_neg skipped

theorem map_unasked_empty :
    (∅ : ExtTreeMap Nat FragmentAssembly).map (fun _ assembly => assembly.unasked) = ∅ :=
  ExtTreeMap.map_eq_empty_iff.mpr rfl

theorem restartFlow_unasked (packet : ReceivedPacket) (state : ReorderState) :
    restartFlow packet state.unasked = (restartFlow packet state).unasked := by
  simp [restartFlow, ReorderState.setReplyRoutes, ReorderState.emit, ReorderState.heldPayloads,
    ReorderState.unasked, Effect.isRequest, map_unasked_empty]

theorem admitPacket_unasked (packet : ReceivedPacket) (state : ReorderState) :
    admitPacket packet state.unasked = (admitPacket packet state).unasked := by
  rw [admitPacket, admitPacket]
  by_cases behind : packet.header.sequence < state.nextSeq
  · rw [if_pos behind]
    refine (if_pos behind).trans ?_
    by_cases member : packet.connectionId ∈ state.flowConnections
    · rw [if_pos member, rejectLate_unasked]
      exact if_pos member
    · rw [if_neg member]
      refine (if_neg member).trans ?_
      have observation : state.unasked.restartDetector.observe packet.header.sequence
          state.unasked.nextSeq =
          state.restartDetector.observe packet.header.sequence state.nextSeq := rfl
      rw [observation]
      rcases state.restartDetector.observe packet.header.sequence state.nextSeq with
        ⟨detector, _ | _⟩
      · exact congrArg Admission.continue
          (rejectLate_unasked packet { state with restartDetector := detector })
      · exact congrArg Admission.proceed
          (restartFlow_unasked packet { state with restartDetector := detector })
  · rw [if_neg behind]
    exact if_neg behind

theorem onPacket_unasked (ran : onPacket config now packet state = some next) :
    onPacket config.unasking now packet state.unasked = some next.unasked := by
  rw [onPacket] at ran ⊢
  rw [openFlow_unasked, admitPacket_unasked]
  generalize admitPacket packet (openFlow packet state) = admission at ran
  rcases admission with final | final
  · cases ran
    rfl
  · exact processAdmitted_unasked ran

end Packets

/-! ## Rounds and runs -/

section Rounds

variable {config : ReorderConfig} {now : Instant} {state next : ReorderState}

theorem onFec_unasked {fec : ReceivedFecFrame} (ran : onFec config now fec state = some next) :
    onFec config.unasking now fec state.unasked = some next.unasked := by
  by_cases active : state.initialized = true
  · have routed : onFec config now fec state = advanceReorderWindow config now
        (recoverFecReady now (ReorderState.setReplyRoutes fec.remote false
          { state with fecState := state.fecState.insertFrame fec.frame })) := if_pos active
    have routedSilent : onFec config.unasking now fec state.unasked =
        advanceReorderWindow config.unasking now (recoverFecReady now
          (ReorderState.setReplyRoutes fec.remote false
            { state with fecState := state.fecState.insertFrame fec.frame }).unasked) :=
      if_pos active
    rw [routed] at ran
    rw [routedSilent, recoverFecReady_unasked]
    exact advanceReorderWindow_unasked ran
  · have stored : onFec config now fec state =
        some { state with fecState := state.fecState.insertFrame fec.frame } := if_neg active
    rw [stored] at ran
    rw [← Option.some.inj ran]
    exact if_neg active

theorem hasPendingState_unasked (state : ReorderState) :
    state.unasked.hasPendingState = state.hasPendingState := by
  rw [ReorderState.hasPendingState, ReorderState.hasPendingState, ReorderState.unasked]
  dsimp only
  rw [OrderedMap.isEmpty_map]

theorem onTimeout_unasked (ran : onTimeout config now state = some next) :
    onTimeout config.unasking now state.unasked = some next.unasked := by
  have active : state.unasked.initialized = state.initialized := rfl
  rw [onTimeout] at ran ⊢
  rw [active, hasPendingState_unasked]
  split
  · rename_i inactive
    rw [if_pos inactive] at ran
    rw [← Option.some.inj ran]
  · rename_i isActive
    rw [if_neg isActive] at ran
    split
    · rename_i pending
      rw [if_pos pending] at ran
      exact advanceReorderWindow_unasked ran
    · rename_i idle
      rw [if_neg idle] at ran
      rw [← Option.some.inj ran]
      rfl

/-- A round leads to the same state without requests. -/
theorem reorderStep_unasked {timed : TimedInput}
    (ran : reorderStep config state timed = some next) :
    reorderStep config.unasking state.unasked timed = some next.unasked := by
  rcases timed with ⟨now, (packet | fec) | _⟩
  · exact onPacket_unasked ran
  · exact onFec_unasked ran
  · exact onTimeout_unasked ran

theorem foldlM_unasked {inputs : List TimedInput}
    (ran : inputs.foldlM (reorderStep config) state = some next) :
    inputs.foldlM (reorderStep config.unasking) state.unasked = some next.unasked := by
  induction inputs generalizing state with
  | nil =>
      rw [← Option.some.inj ran]
      rfl
  | cons timed rest induction =>
      rw [List.foldlM_cons] at ran ⊢
      rcases Option.bind_eq_some_iff.mp ran with ⟨middle, first, later⟩
      exact Option.bind_eq_some_iff.mpr ⟨_, reorderStep_unasked first, induction later⟩

theorem initial_unasked : ReorderState.initial.unasked = .initial := by
  simp [ReorderState.unasked, ReorderState.initial, map_unasked_empty]

end Rounds

/-- With the same frames and timeouts, two loops that ask at any intervals, or not
at all, end in states that differ only in what they have asked for. -/
theorem repairs_only_ask (config : ReorderConfig) (interval : Option Duration)
    (inputs : List TimedInput) :
    ∃ final other, reorderLoop config inputs = some final ∧
      reorderLoop { config with repairRequestInterval := interval } inputs = some other ∧
      final.unasked = other.unasked := by
  rcases reorderLoop_finishes config inputs with ⟨final, ran⟩
  rcases reorderLoop_finishes { config with repairRequestInterval := interval } inputs with
    ⟨other, otherRan⟩
  refine ⟨final, other, ran, otherRan, ?_⟩
  have silent := foldlM_unasked ran
  have otherSilent := foldlM_unasked otherRan
  rw [initial_unasked] at silent otherSilent
  exact Option.some.inj (silent.symm.trans otherSilent)

end Irohsion.Server
