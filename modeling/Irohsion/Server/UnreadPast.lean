import Irohsion.Server.ReorderLoop

/-! # What the loop does not read

No function of the loop reads the trace, and only the admission of packets reads
the restart detector: all others commute with a change of both.
-/

namespace Irohsion.Server

open Protocol Std

/-- The same state after more effects, with another restart detector. -/
def ReorderState.withPast (past : List Effect) (detect : RestartDetector → RestartDetector)
    (state : ReorderState) : ReorderState :=
  { state with
    trace := past ++ state.trace
    restartDetector := detect state.restartDetector }

/-- What commutes with a change of the detector leaves it as it is. -/
theorem restartDetector_of_withPast {round : ReorderState → Option ReorderState}
    {state next : ReorderState}
    (unread : round (state.withPast [] fun _ => state.restartDetector) =
      (round state).map (·.withPast [] fun _ => state.restartDetector))
    (ran : round state = some next) : next.restartDetector = state.restartDetector := by
  have same : state.withPast [] (fun _ => state.restartDetector) = state := rfl
  rw [same, ran, Option.map_some] at unread
  have kept := congrArg ReorderState.restartDetector (Option.some.inj unread)
  exact kept

/-- Appending an effect does not depend on earlier ones. -/
theorem ReorderState.emit_withPast (past : List Effect)
    (detect : RestartDetector → RestartDetector) (effect : Effect) (state : ReorderState) :
    (state.withPast past detect).emit effect = (state.emit effect).withPast past detect := by
  simp only [ReorderState.emit, ReorderState.withPast, List.append_assoc]

section Window

variable (past : List Effect) (detect : RestartDetector → RestartDetector)
variable (config : ReorderConfig) (now : Instant) (state : ReorderState)

/-! ## The window -/

theorem drainPacket_withPast (packet : BufferedPacket) :
    drainPacket packet (state.withPast past detect) =
      (drainPacket packet state).withPast past detect := by
  simp only [drainPacket, ReorderState.withPast, List.append_assoc]

theorem drainStep_withPast :
    drainStep (state.withPast past detect) =
      BreakLoop.mapResult (·.withPast past detect) (drainStep state) := by
  have same : (state.withPast past detect).buffered[(state.withPast past detect).nextSeq]? =
      state.buffered[state.nextSeq]? := rfl
  rw [drainStep, drainStep, same]
  cases state.buffered[state.nextSeq]? with
  | none => rfl
  | some packet => exact congrArg ForInStep.yield (drainPacket_withPast past detect state packet)

theorem drainReady_withPast :
    drainReady (state.withPast past detect) = (drainReady state).withPast past detect :=
  BreakLoop.run_commutes (drainStep_withPast past detect) _ state

theorem skipSequence_withPast (reason : SkipReason) :
    skipSequence reason (state.withPast past detect) =
      (skipSequence reason state).withPast past detect := by
  simp only [skipSequence, ReorderState.withPast, List.append_assoc]

theorem expireStep_withPast :
    expireStep config now (state.withPast past detect) =
      BreakLoop.mapResult (·.withPast past detect) (expireStep config now state) := by
  have oldest : oldestPending (state.withPast past detect) = oldestPending state := rfl
  have dropped : dropHeadAssembly (state.withPast past detect) =
      (dropHeadAssembly state).withPast past detect := rfl
  have buffered : (state.withPast past detect).buffered = state.buffered := rfl
  have fragments : (state.withPast past detect).fragments = state.fragments := rfl
  have position : (state.withPast past detect).nextSeq = state.nextSeq := rfl
  rw [expireStep, expireStep, oldest, dropped, skipSequence_withPast, skipSequence_withPast,
    buffered, fragments, position]
  by_cases held : state.nextSeq ∈ state.buffered
  · rw [if_pos held, if_pos held]
    rfl
  · rw [if_neg held, if_neg held]
    cases state.fragments[state.nextSeq]? with
    | some assembly =>
        by_cases young : assembly.firstSeen.elapsed now < config.maxReorderDelay
        · simp only [if_pos young]
          rfl
        · simp only [if_neg young]
          rfl
    | none =>
        cases oldestPending state with
        | none => rfl
        | some oldest =>
            by_cases young : oldest.elapsed now < config.maxReorderDelay
            · simp only [if_pos young]
              rfl
            · simp only [if_neg young]
              rfl

theorem expireReorderGap_withPast :
    expireReorderGap config now (state.withPast past detect) =
      (expireReorderGap config now state).withPast past detect :=
  BreakLoop.run_commutes (expireStep_withPast past detect config now) _ state

theorem acceptCompletePayload_withPast (sequence : Nat) (payload : Bytes) :
    acceptCompletePayload now sequence payload (state.withPast past detect) =
      (acceptCompletePayload now sequence payload state).withPast past detect := by
  have noted : noteAccepted sequence payload (state.withPast past detect) =
      (noteAccepted sequence payload state).withPast past detect := by
    simp only [noteAccepted, ReorderState.withPast, List.append_assoc]
  have position : ((noteAccepted sequence payload state).withPast past detect).nextSeq =
      (noteAccepted sequence payload state).nextSeq := rfl
  have forwarded : forwardAccepted sequence payload
      ((noteAccepted sequence payload state).withPast past detect) =
      (forwardAccepted sequence payload (noteAccepted sequence payload state)).withPast past
        detect := by
    simp only [forwardAccepted, ReorderState.withPast, List.append_assoc]
  rw [acceptCompletePayload, acceptCompletePayload, noted]
  by_cases expected : sequence = (noteAccepted sequence payload state).nextSeq
  · rw [if_pos (expected.trans position.symm), if_pos expected, forwarded, drainReady_withPast]
  · rw [if_neg fun same => expected (same.trans position), if_neg expected]
    rfl

theorem acceptRecovered_withPast (accepted : Bool) (pair : Nat × Bytes) :
    acceptRecovered now (state.withPast past detect, accepted) pair =
      ((acceptRecovered now (state, accepted) pair).1.withPast past detect,
        (acceptRecovered now (state, accepted) pair).2) := by
  rcases pair with ⟨sequence, payload⟩
  by_cases known : sequence < state.nextSeq ∨ sequence ∈ state.seen ∨ sequence ∈ state.buffered
  · rw [acceptRecovered, acceptRecovered, if_pos known]
    exact if_pos known
  · rw [acceptRecovered, acceptRecovered, if_neg known, ← acceptCompletePayload_withPast,
      ← ReorderState.emit_withPast]
    exact if_neg known

theorem foldl_acceptRecovered_withPast (recovered : List (Nat × Bytes)) (accepted : Bool) :
    recovered.foldl (acceptRecovered now) (state.withPast past detect, accepted) =
      ((recovered.foldl (acceptRecovered now) (state, accepted)).1.withPast past detect,
        (recovered.foldl (acceptRecovered now) (state, accepted)).2) := by
  induction recovered generalizing state accepted with
  | nil => rfl
  | cons pair rest induction =>
      rw [List.foldl_cons, List.foldl_cons, acceptRecovered_withPast, induction]

theorem recoverStep_withPast :
    recoverStep now (state.withPast past detect) =
      BreakLoop.mapResult (·.withPast past detect) (recoverStep now state) := by
  have search : (state.withPast past detect).fecState.recoverReady
      (state.withPast past detect).nextSeq (state.withPast past detect).buffered =
      state.fecState.recoverReady state.nextSeq state.buffered := rfl
  rw [recoverStep, recoverStep, search]
  rcases state.fecState.recoverReady state.nextSeq state.buffered with ⟨fec, recovered⟩
  dsimp only
  have searched : ({ state.withPast past detect with fecState := fec } : ReorderState) =
      ({ state with fecState := fec } : ReorderState).withPast past detect := rfl
  rw [searched, foldl_acceptRecovered_withPast]
  by_cases nothing : recovered.isEmpty = true
  · rw [if_pos nothing, if_pos nothing]
    rfl
  · rw [if_neg nothing, if_neg nothing]
    rcases recovered.foldl (acceptRecovered now) ({ state with fecState := fec }, false) with
      ⟨final, _ | _⟩
    · rfl
    · rfl

theorem recoverFecReady_withPast :
    recoverFecReady now (state.withPast past detect) =
      (recoverFecReady now state).withPast past detect :=
  BreakLoop.run_commutes (recoverStep_withPast past detect now) _ state

theorem sendRepairRequests_withPast (requests : List RepairRequest) :
    sendRepairRequests requests (state.withPast past detect) =
      (sendRepairRequests requests state).map (·.withPast past detect) := by
  rw [sendRepairRequests, sendRepairRequests]
  by_cases encodable : (requests.all fun request => (encodeRepairRequest request).isSome) = true
  · rw [if_pos encodable, if_pos encodable, Option.map_some]
    simp only [ReorderState.withPast, List.append_assoc]
  · rw [if_neg encodable, if_neg encodable]
    rfl

theorem requestDueRepairs_withPast (interval : Duration) :
    requestDueRepairs interval now (state.withPast past detect) =
      (requestDueRepairs interval now state).map (·.withPast past detect) := by
  have due : gapRepairDue interval now (state.withPast past detect) =
      gapRepairDue interval now state := rfl
  have fragments : (state.withPast past detect).fragments = state.fragments := rfl
  have position : (state.withPast past detect).nextSeq = state.nextSeq := rfl
  rw [requestDueRepairs, requestDueRepairs, due, fragments, position]
  cases requestFragmentRepairs interval now state.fragments.toList
      (state.fragments, if gapRepairDue interval now state then
        [⟨state.nextSeq, repairAllFragmentsMask⟩] else []) with
  | none => rfl
  | some repairs =>
      exact sendRepairRequests_withPast past detect
        { state with
          fragments := repairs.1
          gapRepairRequests :=
            if gapRepairDue interval now state then
              state.gapRepairRequests.insert state.nextSeq now
            else state.gapRepairRequests } repairs.2

theorem advanceReorderWindow_withPast :
    advanceReorderWindow config now (state.withPast past detect) =
      (advanceReorderWindow config now state).map (·.withPast past detect) := by
  rw [advanceReorderWindow, advanceReorderWindow, recoverFecReady_withPast]
  cases config.repairRequestInterval with
  | none =>
      simp only [Option.map_some]
      rw [expireReorderGap_withPast, drainReady_withPast]
  | some interval =>
      simp only [requestDueRepairs_withPast, Option.map_map]
      congr 1
      funext requested
      simp only [Function.comp_apply, expireReorderGap_withPast, drainReady_withPast]

/-! ## Rounds -/

theorem onFec_withPast (fec : ReceivedFecFrame) :
    onFec config now fec (state.withPast past detect) =
      (onFec config now fec state).map (·.withPast past detect) := by
  by_cases active : state.initialized = true
  · have routed : onFec config now fec state = advanceReorderWindow config now
        (recoverFecReady now (ReorderState.setReplyRoutes fec.remote false
          { state with fecState := state.fecState.insertFrame fec.frame })) := if_pos active
    have routedPast : onFec config now fec (state.withPast past detect) =
        advanceReorderWindow config now (recoverFecReady now
          ((ReorderState.setReplyRoutes fec.remote false
            { state with fecState := state.fecState.insertFrame fec.frame }).withPast past
              detect)) := if_pos active
    rw [routed, routedPast, recoverFecReady_withPast, advanceReorderWindow_withPast]
  · have stored : onFec config now fec state =
        some { state with fecState := state.fecState.insertFrame fec.frame } := if_neg active
    rw [stored]
    exact if_neg active

/-- The change of a reassembled state. -/
def Reassembly.withPast (past : List Effect) (detect : RestartDetector → RestartDetector) :
    Reassembly → Reassembly
  | .duplicate state => .duplicate (state.withPast past detect)
  | .incomplete state => .incomplete (state.withPast past detect)
  | .complete payload state => .complete payload (state.withPast past detect)

theorem reassemble_withPast (packet : ReceivedPacket) :
    reassemble now packet (state.withPast past detect) =
      (reassemble now packet state).map (·.withPast past detect) := by
  have entry : (state.withPast past detect).fragments[packet.header.sequence]? =
      state.fragments[packet.header.sequence]? := rfl
  have repeated : ∀ fragments,
      ({ state.withPast past detect with fragments := fragments } : ReorderState).emit
        (.duplicate packet.header.sequence) =
      (({ state with fragments := fragments } : ReorderState).emit
        (.duplicate packet.header.sequence)).withPast past detect :=
    fun fragments => ReorderState.emit_withPast past detect _
      { state with fragments := fragments }
  rw [reassemble, reassemble, entry]
  by_cases whole : packet.header.fragments = 1
  · rw [if_pos whole, if_pos whole]
    rfl
  · rw [if_neg whole, if_neg whole]
    dsimp only
    generalize state.fragments[packet.header.sequence]?.getD
      (.new packet.header.fragments now) = assembly
    cases assembly.countFragments with
    | none => rfl
    | some count =>
        by_cases different : count ≠ packet.header.fragments
        · simp only [if_pos different]
          exact congrArg (fun final => some (Reassembly.duplicate final)) (repeated _)
        · simp only [if_neg different]
          rcases assembly.insert packet.header.fragment packet.payload with
            _ | ⟨filled, _ | _⟩
          · rfl
          · exact congrArg (fun final => some (Reassembly.duplicate final)) (repeated _)
          · by_cases complete : filled.isComplete = true
            · simp only [if_pos complete]
              cases filled.intoPayload with
              | none => rfl
              | some payload => rfl
            · simp only [if_neg complete]
              rfl

theorem processAdmitted_withPast (packet : ReceivedPacket) :
    processAdmitted config now packet (state.withPast past detect) =
      (processAdmitted config now packet state).map (·.withPast past detect) := by
  by_cases known : packet.header.sequence < state.nextSeq ∨
      packet.header.sequence ∈ state.seen ∨ packet.header.sequence ∈ state.buffered
  · rw [processAdmitted, processAdmitted, if_pos known, Option.map_some,
      ← ReorderState.emit_withPast]
    exact if_pos known
  · rw [processAdmitted, processAdmitted, if_neg known, reassemble_withPast]
    refine (if_neg known).trans ?_
    cases reassemble now packet state with
    | none => rfl
    | some outcome =>
        cases outcome with
        | duplicate final => rfl
        | incomplete updated => exact advanceReorderWindow_withPast past detect config now updated
        | complete payload taken =>
            simp only [Option.map_some, Reassembly.withPast]
            rw [acceptCompletePayload_withPast, recoverFecReady_withPast,
              advanceReorderWindow_withPast]

/-! ## Packets that are admitted or rejected -/

/-- The change of an admission. -/
def Admission.withPast (past : List Effect) (detect : RestartDetector → RestartDetector) :
    Admission → Admission
  | .continue state => .continue (state.withPast past detect)
  | .proceed state => .proceed (state.withPast past detect)

variable {past detect state}
variable {packet : ReceivedPacket}

theorem openFlow_withPast :
    openFlow packet (state.withPast past detect) =
      (openFlow packet state).withPast past detect := by
  have started : startFlow packet (state.withPast past detect) =
      (startFlow packet state).withPast past detect := by
    simp only [startFlow, ReorderState.setReplyRoutes, ReorderState.emit, ReorderState.withPast,
      List.append_assoc]
  by_cases active : state.initialized = true
  · rw [openFlow, openFlow, if_pos active]
    exact if_pos active
  · rw [openFlow, openFlow, if_neg active, ← started]
    exact if_neg active

theorem rejectLate_withPast :
    rejectLate packet (state.withPast past detect) =
      (rejectLate packet state).withPast past detect := by
  by_cases skipped : state.skippedSequences.contains packet.header.sequence = true
  · rw [rejectLate, rejectLate, if_pos skipped, ← ReorderState.emit_withPast]
    exact if_pos skipped
  · rw [rejectLate, rejectLate, if_neg skipped, ← ReorderState.emit_withPast]
    exact if_neg skipped

/-- A late packet of the flow leaves the detector alone. -/
theorem admitPacket_withPast_of_member (behind : packet.header.sequence < state.nextSeq)
    (member : packet.connectionId ∈ state.flowConnections) :
    admitPacket packet (state.withPast past detect) =
      (admitPacket packet state).withPast past detect := by
  rw [admitPacket, admitPacket, if_pos behind, if_pos member]
  refine (if_pos behind).trans ((if_pos member).trans ?_)
  exact congrArg Admission.continue rejectLate_withPast

/-- A packet that is not behind clears the detector. -/
theorem admitPacket_withPast_of_ahead (ahead : state.nextSeq ≤ packet.header.sequence) :
    admitPacket packet (state.withPast past detect) =
      (admitPacket packet state).withPast past id := by
  rw [admitPacket, admitPacket, if_neg (Nat.not_lt.mpr ahead)]
  exact if_neg (Nat.not_lt.mpr ahead)

/-- A late packet of another connection leaves the detector as its observation does. -/
theorem admitPacket_withPast_of_observe (behind : packet.header.sequence < state.nextSeq)
    (stranger : packet.connectionId ∉ state.flowConnections)
    (same : (detect state.restartDetector).observe packet.header.sequence state.nextSeq =
      state.restartDetector.observe packet.header.sequence state.nextSeq) :
    admitPacket packet (state.withPast past detect) =
      (admitPacket packet state).withPast past id := by
  have observation : (state.withPast past detect).restartDetector.observe
      packet.header.sequence (state.withPast past detect).nextSeq =
      state.restartDetector.observe packet.header.sequence state.nextSeq := same
  rw [admitPacket, admitPacket, if_pos behind, if_neg stranger, observation]
  refine (if_pos behind).trans ((if_neg stranger).trans ?_)
  rcases state.restartDetector.observe packet.header.sequence state.nextSeq with
    ⟨detector, _ | _⟩
  · exact congrArg Admission.continue
      (@rejectLate_withPast past id { state with restartDetector := detector } packet)
  · refine congrArg Admission.proceed ?_
    simp only [restartFlow, ReorderState.setReplyRoutes, ReorderState.emit,
      ReorderState.heldPayloads, ReorderState.withPast, List.append_assoc, id]

variable {changed : RestartDetector → RestartDetector}

/-- The rest of the round follows the admission. -/
theorem onPacket_withPast_of_admit
    (admitted : admitPacket packet ((openFlow packet state).withPast past detect) =
      (admitPacket packet (openFlow packet state)).withPast past changed) :
    onPacket config now packet (state.withPast past detect) =
      (onPacket config now packet state).map (·.withPast past changed) := by
  rw [onPacket, onPacket, openFlow_withPast, admitted]
  rcases admitPacket packet (openFlow packet state) with final | final
  · rfl
  · exact processAdmitted_withPast past changed config now final packet

/-! ## Timeouts -/

/-- Without an idle reset a timeout leaves the detector alone. -/
theorem onTimeout_withPast (busy : state.initialized = true → state.hasPendingState = true) :
    onTimeout config now (state.withPast past detect) =
      (onTimeout config now state).map (·.withPast past detect) := by
  by_cases active : state.initialized = true
  · have pending := busy active
    have advanced : ∀ other : ReorderState, other.initialized = true →
        other.hasPendingState = true →
        onTimeout config now other = advanceReorderWindow config now other := by
      intro other otherActive otherPending
      rw [onTimeout, otherActive, otherPending]
      rfl
    rw [advanced state active pending, advanced (state.withPast past detect) active pending]
    exact advanceReorderWindow_withPast past detect config now state
  · have resting : ∀ other : ReorderState, ¬ other.initialized = true →
        onTimeout config now other = some other := by
      intro other inactive
      rw [onTimeout, Bool.eq_false_iff.mpr inactive]
      rfl
    rw [resting state active, resting (state.withPast past detect) active]
    rfl

/-- An idle reset clears the detector. -/
theorem onTimeout_withPast_of_idle (active : state.initialized = true)
    (idle : state.hasPendingState = false) :
    onTimeout config now (state.withPast past detect) =
      (onTimeout config now state).map (·.withPast past id) := by
  have resets : ∀ other : ReorderState, other.initialized = true →
      other.hasPendingState = false → onTimeout config now other = some (idleReset other) := by
    intro other otherActive otherIdle
    rw [onTimeout, otherActive, otherIdle]
    rfl
  rw [resets state active idle, resets (state.withPast past detect) active idle]
  rfl

/-! ## Runs -/

/-- A run does not depend on earlier effects. -/
theorem reorderStep_withPast (timed : TimedInput) :
    reorderStep config (state.withPast past id) timed =
      (reorderStep config state timed).map (·.withPast past id) := by
  rcases timed with ⟨now, (packet | fec) | _⟩
  · refine onPacket_withPast_of_admit config now ?_
    by_cases ahead : (openFlow packet state).nextSeq ≤ packet.header.sequence
    · exact admitPacket_withPast_of_ahead ahead
    · have behind := Nat.lt_of_not_le ahead
      by_cases member : packet.connectionId ∈ (openFlow packet state).flowConnections
      · exact admitPacket_withPast_of_member behind member
      · exact admitPacket_withPast_of_observe behind member rfl
  · exact onFec_withPast past id config now state fec
  · by_cases idle : state.initialized = true ∧ state.hasPendingState = false
    · exact onTimeout_withPast_of_idle config now idle.1 idle.2
    · apply onTimeout_withPast
      intro active
      by_contra pending
      exact idle ⟨active, Bool.eq_false_iff.mpr pending⟩

theorem foldlM_reorderStep_withPast (inputs : List TimedInput) :
    inputs.foldlM (reorderStep config) (state.withPast past id) =
      (inputs.foldlM (reorderStep config) state).map (·.withPast past id) := by
  induction inputs generalizing state with
  | nil => rfl
  | cons timed rest induction =>
      rw [List.foldlM_cons, List.foldlM_cons, reorderStep_withPast]
      cases reorderStep config state timed with
      | none => rfl
      | some next => exact induction

end Window

end Irohsion.Server
