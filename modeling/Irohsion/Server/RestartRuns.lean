import Irohsion.Foundation.SortedRuns
import Irohsion.Server.Arrivals
import Irohsion.Server.Delivery

/-! # When a restart is confirmed

The detector counts how many of the latest observed sequences arrived in order.
Over several connections it sees the merged arrivals, so a restart is performed
exactly when enough consecutive arrivals are in order.
-/

namespace Irohsion.Server

open Protocol SortedRuns

/-! ## The detector -/

namespace RestartDetector

/-- The detector summarises a history of observed sequences, latest first. -/
structure Tracks (detector : RestartDetector) (history : List Nat) : Prop where
  count : detector.count = latestRun history
  highestSeq : detector.highestSeq = history.headD 0

/-- A confirmed sequence lies far behind. -/
theorem gap_of_confirmed {detector : RestartDetector} {sequence nextSeq : Nat}
    (confirmed : (detector.observe sequence nextSeq).2 = true) :
    sequence + restartBackwardGap ≤ nextSeq := by
  by_contra near
  have gap : 0 < restartBackwardGap := by decide
  rw [RestartDetector.observe, if_pos (by omega)] at confirmed
  cases confirmed

theorem tracks_cleared : Tracks cleared [] := ⟨rfl, rfl⟩

theorem Tracks.observe {detector : RestartDetector} {history : List Nat} {sequence nextSeq : Nat}
    (tracks : detector.Tracks history) (below : sequence + restartBackwardGap ≤ nextSeq) :
    (detector.observe sequence nextSeq).1.Tracks (sequence :: history) ∧
      ((detector.observe sequence nextSeq).2 = true ↔
        restartConfirmPackets ≤ latestRun (sequence :: history)) := by
  have farBehind : ¬ nextSeq - sequence < restartBackwardGap := by omega
  rcases detector with ⟨count, highestSeq⟩
  rcases tracks with ⟨countEq, highestEq⟩
  dsimp only at countEq highestEq
  -- The chosen detector settles both parts.
  have conclude : ∀ observed : RestartDetector,
      (if count = 0 ∨ highestSeq ≤ sequence then
        (⟨count + 1, max highestSeq sequence⟩ : RestartDetector) else ⟨1, sequence⟩) = observed →
      observed.Tracks (sequence :: history) →
      (RestartDetector.observe ⟨count, highestSeq⟩ sequence nextSeq).1.Tracks
          (sequence :: history) ∧
        ((RestartDetector.observe ⟨count, highestSeq⟩ sequence nextSeq).2 = true ↔
          restartConfirmPackets ≤ latestRun (sequence :: history)) := by
    intro observed chosen tracked
    rw [RestartDetector.observe]
    rw [if_neg farBehind, chosen, ← tracked.count]
    exact ⟨tracked, decide_eq_true_iff⟩
  cases history with
  | nil =>
      have first : count = 0 ∨ highestSeq ≤ sequence := Or.inl countEq
      refine conclude _ (if_pos first) ⟨?_, ?_⟩
      · rw [countEq]
        rfl
      · rw [highestEq]
        exact Nat.max_eq_right (Nat.zero_le _)
  | cons earlier rest =>
      have counted := one_le_latestRun_cons earlier rest
      change highestSeq = earlier at highestEq
      subst highestEq
      by_cases inOrder : highestSeq ≤ sequence
      · refine conclude _ (if_pos (Or.inr inOrder)) ⟨?_, Nat.max_eq_right inOrder⟩
        rw [countEq]
        exact (latestRun_cons_of_le rest inOrder).symm
      · have outOfOrder : ¬ (count = 0 ∨ highestSeq ≤ sequence) := by
          rw [countEq]
          omega
        exact conclude _ (if_neg outOfOrder)
          ⟨(latestRun_cons_of_not_le rest inOrder).symm, rfl⟩

/-- A detector only shows how many entries were in order and the last of them. -/
theorem Tracks.replicate {detector : RestartDetector} {history : List Nat}
    (tracks : detector.Tracks history) :
    detector.Tracks (List.replicate detector.count detector.highestSeq) where
  count := (latestRun_replicate _ _).symm
  highestSeq := by
    cases history with
    | nil => rw [tracks.count, tracks.highestSeq]; rfl
    | cons latest rest =>
        rcases Nat.exists_eq_add_of_le' (one_le_latestRun_cons latest rest) with ⟨more, countEq⟩
        rw [tracks.count, countEq]
        rfl

/-- Whether some observation among the given ones confirms a restart. -/
def confirms (nextSeq : Nat) : RestartDetector → List Nat → Bool
  | _, [] => false
  | detector, sequence :: rest =>
      (detector.observe sequence nextSeq).2 ||
        confirms nextSeq (detector.observe sequence nextSeq).1 rest

theorem confirms_iff {nextSeq : Nat} {sequences : List Nat}
    (below : ∀ sequence ∈ sequences, sequence + restartBackwardGap ≤ nextSeq)
    {detector : RestartDetector} {history : List Nat} (tracks : detector.Tracks history) :
    confirms nextSeq detector sequences = true ↔
      ∃ earlier latest rest, sequences = earlier ++ latest :: rest ∧
        restartConfirmPackets ≤ latestRun (latest :: (earlier.reverse ++ history)) := by
  induction sequences generalizing detector history with
  | nil => simp [confirms]
  | cons sequence sequences induction =>
      rcases tracks.observe (below sequence List.mem_cons_self) with ⟨observed, confirmed⟩
      have later := induction (fun other member => below other (List.mem_cons_of_mem _ member))
        observed
      rw [confirms, Bool.or_eq_true, confirmed, later]
      constructor
      · intro confirms
        rcases confirms with atOnce | ⟨earlier, latest, rest, rfl, enough⟩
        · exact ⟨[], sequence, sequences, rfl, atOnce⟩
        · exact ⟨sequence :: earlier, latest, rest, rfl, by simpa using enough⟩
      · intro later
        rcases later with ⟨earlier, latest, rest, split, enough⟩
        cases earlier with
        | nil =>
            cases split
            exact Or.inl enough
        | cons first earlier =>
            cases split
            exact Or.inr ⟨earlier, latest, rest, rfl, by simpa using enough⟩

/-- Enough consecutive arrivals in order, counting what is pending. -/
def InOrderRun (pending arrivals : List Nat) : Prop :=
  ∃ front run back, pending ++ arrivals = front ++ run ++ back ∧
    run.length = restartConfirmPackets ∧ run.Pairwise (· ≤ ·) ∧ back.length < arrivals.length

theorem InOrderRun.of_sorted (pending : List Nat) {arrivals : List Nat}
    (sorted : arrivals.Pairwise (· ≤ ·)) (enough : restartConfirmPackets ≤ arrivals.length) :
    InOrderRun pending arrivals := by
  refine ⟨pending, arrivals.take restartConfirmPackets, arrivals.drop restartConfirmPackets,
    ?_, ?_, ?_, ?_⟩
  · rw [List.append_assoc, List.take_append_drop]
  · rw [List.length_take, Nat.min_eq_left enough]
  · exact sorted.sublist (List.take_sublist _ _)
  · have positive : 0 < restartConfirmPackets := by decide
    rw [List.length_drop]
    omega

theorem inOrderRun_iff {pending arrivals : List Nat} :
    InOrderRun pending arrivals ↔
      ∃ earlier latest rest, arrivals = earlier ++ latest :: rest ∧
        restartConfirmPackets ≤ latestRun (latest :: (earlier.reverse ++ pending.reverse)) := by
  constructor
  · intro confirms
    rcases confirms with ⟨front, run, back, split, length, inOrder, ends⟩
    have ended : pending ++ arrivals = (front ++ run) ++ back := split
    rcases List.append_eq_append_iff.mp ended with ⟨more, joined, rfl⟩ | ⟨more, _, rfl⟩
    · rcases List.eq_nil_or_concat more with rfl | ⟨earlier, latest, rfl⟩
      · simp at ends
      · refine ⟨earlier, latest, back, by simp, ?_⟩
        rw [← length, ← List.length_reverse]
        have history : latest :: (earlier.reverse ++ pending.reverse) =
            run.reverse ++ front.reverse := by
          have reversed : (front ++ run).reverse = run.reverse ++ front.reverse :=
            List.reverse_append
          rw [← reversed, joined]
          simp
        rw [history]
        exact length_le_latestRun (List.pairwise_reverse.mpr inOrder)
    · simp at ends
  · intro confirms
    rcases confirms with ⟨earlier, latest, rest, rfl, enough⟩
    rcases le_latestRun_iff.mp enough with ⟨run, before, split, length, inOrder⟩
    refine ⟨before.reverse, run.reverse, rest, ?_, ?_, ?_, ?_⟩
    · have reversed := congrArg List.reverse split
      simp only [List.reverse_cons, List.reverse_append, List.reverse_reverse] at reversed
      rw [← reversed]
      simp
    · rw [List.length_reverse, length]
    · rw [List.pairwise_reverse]
      exact inOrder
    · simp
      omega

end RestartDetector

/-! ## Invariants of every run -/

/-- A detector always summarises what it has observed since it was cleared. -/
def DetectorTracks (state : ReorderState) : Prop :=
  ∃ history, state.restartDetector.Tracks history

theorem RestartDetector.exists_tracks_observe {detector : RestartDetector} {history : List Nat}
    (tracks : detector.Tracks history) (sequence nextSeq : Nat) :
    ∃ later, (detector.observe sequence nextSeq).1.Tracks later := by
  by_cases near : nextSeq - sequence < restartBackwardGap
  · rw [RestartDetector.observe, if_pos near]
    exact ⟨[], tracks_cleared⟩
  · have gap : 0 < restartBackwardGap := by decide
    exact ⟨sequence :: history, (tracks.observe (by omega)).1⟩

theorem WindowMove.restartDetector {config : ReorderConfig} {now : Instant}
    {Source : Nat → Bytes → Prop} {before after : ReorderState}
    (move : WindowMove config now Source before after) :
    after.restartDetector = before.restartDetector := by
  cases move with
  | settle _ _ _ =>
      unfold Server.settle
      dsimp only
      split <;> rfl
  | _ => rfl

theorem detectorTracks_invariant (config : ReorderConfig) :
    LoopInvariant config (fun _ => True) (fun _ _ => True) DetectorTracks where
  round := by
    intro now before after _ move tracked
    rcases tracked with ⟨history, tracks⟩
    cases move with
    | observe sequence => exact RestartDetector.exists_tracks_observe tracks sequence _
    | join _ | idle _ _ => exact ⟨[], RestartDetector.tracks_cleared⟩
    | _ => exact ⟨history, tracks⟩
  window now :=
    { move := by
        intro before after _ _ move tracked
        rcases tracked with ⟨history, tracks⟩
        exact ⟨history, by rw [move.restartDetector]; exact tracks⟩
      recovered := fun _ _ _ => trivial }
  whole _ _ := trivial
  assembled _ _ _ _ _ _ := trivial

/-! ## Packets of a restarted sender -/

/-- The effect of a confirmed restart. -/
def Effect.isRestart : Effect → Bool
  | .flowReset _ _ => true
  | _ => false

theorem Effect.isRestart_of_isRejection {effect : Effect} (rejects : effect.isRejection = true) :
    effect.isRestart = false := by
  cases effect <;> first | rfl | cases rejects

variable {config : ReorderConfig} {now : Instant} {packet : ReceivedPacket}
variable {state : ReorderState}

/-- The state after the detector has observed the packet. -/
def observed (packet : ReceivedPacket) (state : ReorderState) : ReorderState :=
  { state.setReplyRoutes packet.remote false with
    restartDetector :=
      (state.restartDetector.observe packet.header.sequence state.nextSeq).1 }

theorem admit_stranger (active : state.initialized = true)
    (behind : packet.header.sequence < state.nextSeq)
    (stranger : packet.connectionId ∉ state.flowConnections) :
    admitPacket packet (openFlow packet state) =
      if (state.restartDetector.observe packet.header.sequence state.nextSeq).2 then
        .proceed (restartFlow packet (observed packet state))
      else .continue (rejectLate packet (observed packet state)) := by
  rw [openFlow, if_pos active, admitPacket]
  rw [if_pos (show packet.header.sequence < (state.setReplyRoutes _ _).nextSeq from behind),
    if_neg (show packet.connectionId ∉ (state.setReplyRoutes _ _).flowConnections from stranger)]
  rfl

/-- Without a confirmation the packet is only recorded. -/
theorem onPacket_unconfirmed (config : ReorderConfig) (now : Instant)
    (active : state.initialized = true) (behind : packet.header.sequence < state.nextSeq)
    (stranger : packet.connectionId ∉ state.flowConnections)
    (unconfirmed :
      (state.restartDetector.observe packet.header.sequence state.nextSeq).2 = false) :
    ∃ effect, effect.isRejection = true ∧
      onPacket config now packet state = some ((observed packet state).emit effect) := by
  rcases rejectLate_trace packet (observed packet state) with ⟨effect, rejects, outcome⟩
  refine ⟨effect, rejects, ?_⟩
  rw [onPacket, admit_stranger active behind stranger, unconfirmed, ← outcome]
  rfl

/-- The state in which the packet that confirms a restart is processed. -/
def restarted (packet : ReceivedPacket) (state : ReorderState) : ReorderState :=
  restartFlow packet (observed packet state)

/-- A confirmation restarts the flow in the same round. -/
theorem onPacket_confirmed (config : ReorderConfig) (now : Instant)
    (active : state.initialized = true) (behind : packet.header.sequence < state.nextSeq)
    (stranger : packet.connectionId ∉ state.flowConnections)
    (confirmed :
      (state.restartDetector.observe packet.header.sequence state.nextSeq).2 = true) :
    onPacket config now packet state =
      processAdmitted config now packet (restarted packet state) := by
  rw [onPacket, admit_stranger active behind stranger, confirmed]
  rfl

theorem WellFormed.restarted (wellFormed : WellFormed state) (active : state.initialized = true)
    (behind : packet.header.sequence < state.nextSeq) :
    WellFormed (restarted packet state) := by
  have restart : RoundMove 0 (fun _ => True) (observed packet state)
      (Server.restarted packet state) := .restart active behind
  have observedWellFormed : WellFormed (observed packet state) :=
    wellFormed.congr rfl rfl rfl rfl rfl
  exact (Consistent.roundMove restart (.of_initialized observedWellFormed active)).toWellFormed

theorem processAdmitted_extends (config : ReorderConfig) (now : Instant)
    (packet : ReceivedPacket) (wellFormed : WellFormed state)
    (active : state.initialized = true) :
    ∃ next, processAdmitted config now packet state = some next ∧ Consistent next ∧
      Extends state next := by
  have admissible : (fun _ => True : ReceivedFrame → Prop) (.packet packet) := trivial
  rcases (extends_invariant config state).processAdmitted now admissible
    ⟨wellFormed, active, Extends.refl _⟩ with ⟨next, processed, nextWellFormed, stillActive, more⟩
  exact ⟨next, processed, .of_initialized nextWellFormed stillActive, more⟩

/-- A rejection in front adds no restart. -/
theorem exists_restart_cons {effect : Effect} (rejects : effect.isRejection = true)
    (effects : List Effect) :
    (∃ other ∈ effect :: effects, other.isRestart = true) ↔
      ∃ other ∈ effects, other.isRestart = true := by
  rw [List.exists_mem_cons_iff, Effect.isRestart_of_isRejection rejects]
  simp

/-- A run whose first packet is confirmed begins with the restart. -/
theorem run_of_confirmed (config : ReorderConfig) (now : Instant) {packet : ReceivedPacket}
    (consistent : Consistent state) (active : state.initialized = true)
    (behind : packet.header.sequence < state.nextSeq)
    (stranger : packet.connectionId ∉ state.flowConnections)
    (confirmed : (state.restartDetector.observe packet.header.sequence state.nextSeq).2 = true)
    (rest : List TimedInput) :
    ∃ final effects,
      (arrival now packet :: rest).foldlM (reorderStep config) state = some final ∧
      final.trace = state.trace ++
        .flowReset packet.header.sequence state.heldPayloads :: effects := by
  have restartedWellFormed := consistent.toWellFormed.restarted active behind
  rcases processAdmitted_extends config now packet restartedWellFormed active with
    ⟨next, processed, nextConsistent, extended⟩
  have stepped := (onPacket_confirmed config now active behind stranger confirmed).trans processed
  have admitted : ∀ input ∈ rest, input.Admitted fun _ => True := fun _ _ _ _ => trivial
  rcases (extends_invariant config _).foldlM_reorderStep admitted nextConsistent extended with
    ⟨final, finished, _, effects, trace⟩
  refine ⟨final, effects, ?_, ?_⟩
  · rw [@foldlM_reorderStep_cons config state _ (arrival now packet) stepped]
    exact finished
  · rw [trace]
    exact List.append_assoc _ _ _

/-- The run of a restarted sender's packets restarts the flow exactly when the
detector confirms one of them. -/
theorem strangers_restart_iff (config : ReorderConfig)
    {arrivals : List (Instant × ReceivedPacket)}
    (consistent : Consistent state) (active : state.initialized = true)
    (strangers : ∀ timed ∈ arrivals, timed.2.connectionId ∉ state.flowConnections)
    (below : ∀ timed ∈ arrivals,
      timed.2.header.sequence + restartBackwardGap ≤ state.nextSeq) :
    ∃ final effects,
      (arrivals.map fun timed => arrival timed.1 timed.2).foldlM (reorderStep config) state =
        some final ∧
      final.trace = state.trace ++ effects ∧
      ((∃ effect ∈ effects, effect.isRestart = true) ↔
        RestartDetector.confirms state.nextSeq state.restartDetector
          (arrivals.map fun timed => timed.2.header.sequence) = true) := by
  induction arrivals generalizing state with
  | nil => exact ⟨state, [], rfl, (List.append_nil _).symm, by simp [RestartDetector.confirms]⟩
  | cons timed arrivals induction =>
      rcases timed with ⟨now, packet⟩
      rw [List.forall_mem_cons] at strangers below
      rcases strangers with ⟨stranger, strangers⟩
      rcases below with ⟨farBelow, below⟩
      have gap : 0 < restartBackwardGap := by decide
      have behind : packet.header.sequence < state.nextSeq := by
        dsimp only at farBelow
        omega
      simp only [List.map_cons, RestartDetector.confirms]
      cases confirmed :
          (state.restartDetector.observe packet.header.sequence state.nextSeq).2 with
      | false =>
          rcases onPacket_unconfirmed config now active behind stranger confirmed with
            ⟨effect, rejects, stepped⟩
          have nextConsistent : Consistent ((observed packet state).emit effect) :=
            .of_initialized (consistent.toWellFormed.congr rfl rfl rfl rfl rfl) active
          rcases induction nextConsistent active strangers below with
            ⟨final, effects, finished, trace, restarts⟩
          refine ⟨final, effect :: effects, ?_, ?_, ?_⟩
          · rw [@foldlM_reorderStep_cons config state _ (arrival now packet) stepped]
            exact finished
          · rw [trace]
            exact List.append_assoc _ _ _
          · rw [Bool.false_or, exists_restart_cons rejects]
            exact restarts
      | true =>
          rcases run_of_confirmed config now consistent active behind stranger confirmed
            (arrivals.map fun timed => arrival timed.1 timed.2) with
            ⟨final, effects, finished, trace⟩
          refine ⟨final, _, finished, trace, ?_⟩
          rw [Bool.true_or]
          exact iff_of_true ⟨_, List.mem_cons_self, rfl⟩ rfl

/-- A restarted sender's packets restart the flow exactly when enough consecutive
arrivals, merged over its connections, are in order. -/
theorem restart_iff_inOrderRun (config : ReorderConfig) {inputs : List TimedInput}
    (reached : reorderLoop config inputs = some state) (active : state.initialized = true)
    {arrivals : List (Instant × ReceivedPacket)}
    (strangers : ∀ timed ∈ arrivals, timed.2.connectionId ∉ state.flowConnections)
    (below : ∀ timed ∈ arrivals,
      timed.2.header.sequence + restartBackwardGap ≤ state.nextSeq) :
    ∃ final effects,
      (arrivals.map fun timed => arrival timed.1 timed.2).foldlM (reorderStep config) state =
        some final ∧
      final.trace = state.trace ++ effects ∧
      ((∃ effect ∈ effects, effect.isRestart = true) ↔
        RestartDetector.InOrderRun
          (List.replicate state.restartDetector.count state.restartDetector.highestSeq)
          (arrivals.map fun timed => timed.2.header.sequence)) ∧
      ((arrivals.map fun timed => timed.2.header.sequence).Pairwise (· ≤ ·) →
        restartConfirmPackets ≤ arrivals.length →
        ∃ effect ∈ effects, effect.isRestart = true) := by
  have tracksInitial : DetectorTracks .initial := ⟨[], RestartDetector.tracks_cleared⟩
  rcases (detectorTracks_invariant config).of_reached tracksInitial (fun _ _ _ _ => trivial)
    reached with ⟨consistent, history, tracks⟩
  rcases strangers_restart_iff config consistent active strangers below with
    ⟨final, effects, finished, trace, restarts⟩
  have sequencesBelow : ∀ sequence ∈ arrivals.map (fun timed => timed.2.header.sequence),
      sequence + restartBackwardGap ≤ state.nextSeq := by
    intro sequence member
    rcases List.mem_map.mp member with ⟨timed, arrived, rfl⟩
    exact below timed arrived
  have inOrder := RestartDetector.confirms_iff sequencesBelow tracks.replicate
  rw [← List.reverse_replicate, ← RestartDetector.inOrderRun_iff, ← restarts] at inOrder
  refine ⟨final, effects, finished, trace, inOrder, ?_⟩
  intro sorted enough
  exact inOrder.mpr (.of_sorted _ sorted (by rw [List.length_map]; exact enough))

/-- A whole packet of a sender that counts from zero again. -/
def strangerPacket (connectionId : Nat) (sequence : Fin 4096) : ReceivedPacket :=
  .whole "client" connectionId sequence.val []
    (Nat.le_trans (Nat.le_of_lt sequence.isLt) (by decide))

/-- One sequence fewer than a restart takes. -/
def firstSequences : List (Fin 4096) := [0, 1, 2, 3, 4, 5, 6]

/-- The packet that starts the old flow. -/
def oldFlowPacket : ReceivedPacket := .whole "client" 0 10000 [7] (by decide)

theorem restart_iff_inOrderRun_single :
    ∃ state final effects,
      reorderLoop ⟨none, 10, 10⟩ [arrival 0 oldFlowPacket] = some state ∧
      (([0, 1, 2, 3, 4, 5, 6, 7].map fun sequence => ((1 : Nat), strangerPacket 1 sequence)).map
        fun timed => arrival timed.1 timed.2).foldlM (reorderStep ⟨none, 10, 10⟩) state =
          some final ∧
      final.trace = state.trace ++ effects ∧ ∃ effect ∈ effects, effect.isRestart = true := by
  rcases reorderLoop_single_state ⟨none, 10, 10⟩ 0 (rfl : oldFlowPacket.header.fragments = 1) with
    ⟨state, reached, active, position, connections, _, _, _, _⟩
  have strangers : ∀ timed ∈ [0, 1, 2, 3, 4, 5, 6, 7].map
      (fun sequence => ((1 : Nat), strangerPacket 1 sequence)),
      timed.2.connectionId ∉ state.flowConnections := by
    rw [connections]
    decide
  have below : ∀ timed ∈ [0, 1, 2, 3, 4, 5, 6, 7].map
      (fun sequence => ((1 : Nat), strangerPacket 1 sequence)),
      timed.2.header.sequence + restartBackwardGap ≤ state.nextSeq := by
    rw [position]
    decide
  rcases restart_iff_inOrderRun ⟨none, 10, 10⟩ reached active strangers below with
    ⟨final, effects, finished, trace, _, sorted⟩
  exact ⟨state, final, effects, reached, finished, trace, sorted (by decide) (by decide)⟩

/-- Two connections in order, one packet apart. -/
def interleaved : List (Instant × ReceivedPacket) :=
  [(1, 1), (2, 0), (1, 3), (2, 2), (1, 5), (2, 4), (1, 7), (2, 6), (1, 9), (2, 8), (1, 11),
    (2, 10), (1, 13), (2, 12), (1, 15), (2, 14)].map fun (connectionId, sequence) =>
      (1, strangerPacket connectionId sequence)

/-- Each delivers enough packets in order, and no restart is confirmed. -/
theorem interleaved_not_restarted :
    ∃ state final, reorderLoop ⟨none, 10, 10⟩ [arrival 0 oldFlowPacket] = some state ∧
      state.initialized = true ∧
      (∀ timed ∈ interleaved, timed.2.connectionId ∉ state.flowConnections ∧
        timed.2.header.sequence + restartBackwardGap ≤ state.nextSeq) ∧
      (∀ connectionId ∈ [1, 2],
        ((interleaved.filter fun timed => timed.2.connectionId = connectionId).map
          fun timed => timed.2.header.sequence).Pairwise (· < ·) ∧
        (interleaved.filter fun timed => timed.2.connectionId = connectionId).length =
          restartConfirmPackets) ∧
      (interleaved.map fun timed => arrival timed.1 timed.2).foldlM
        (reorderStep ⟨none, 10, 10⟩) state = some final ∧
      ∀ effect ∈ final.trace, effect.isRestart = false := by
  rcases reorderLoop_single_state ⟨none, 10, 10⟩ 0 (rfl : oldFlowPacket.header.fragments = 1) with
    ⟨state, reached, active, position, connections, detector, _, _, startTrace⟩
  have consistent := (reorderLoop_refines reached).1
  have strangers : ∀ timed ∈ interleaved, timed.2.connectionId ∉ state.flowConnections := by
    rw [connections]
    decide
  have below : ∀ timed ∈ interleaved,
      timed.2.header.sequence + restartBackwardGap ≤ state.nextSeq := by
    rw [position]
    decide
  rcases strangers_restart_iff ⟨none, 10, 10⟩ consistent active strangers below with
    ⟨final, effects, finished, trace, restarts⟩
  rw [detector, position] at restarts
  have unconfirmed : ¬ ∃ effect ∈ effects, effect.isRestart = true := by
    rw [restarts]
    decide
  refine ⟨state, final, reached, active, ?_, by decide, finished, ?_⟩
  · exact fun timed member => ⟨strangers timed member, below timed member⟩
  · intro effect member
    rw [trace, startTrace] at member
    rcases List.mem_append.mp member with first | later
    · simp only [List.mem_cons, List.not_mem_nil, or_false] at first
      rcases first with rfl | rfl | rfl <;> rfl
    · by_contra restart
      exact unconfirmed ⟨effect, later, Bool.eq_true_of_not_eq_false restart⟩

end Irohsion.Server
