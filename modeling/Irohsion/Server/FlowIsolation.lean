import Irohsion.Server.Stragglers
import Irohsion.Server.UnreadPast

/-! # Flow isolation

A loop after a reset runs beside a fresh one. An idle reset leaves nothing
behind. A confirmed restart leaves the count of the restart detector: until a
later input settles it, a single packet of another connection is enough for the
next restart.
-/

namespace Irohsion.Server

open Protocol Std

variable {config : ReorderConfig} {now : Instant}
variable {state core : ReorderState} {packet restarting : ReceivedPacket}
variable {timed : TimedInput} {past : List Effect}

/-! ## The detector after a confirmation -/

namespace RestartDetector

variable {detector : RestartDetector} {sequence nextSeq : Nat}

theorem observe_near (near : ¬ sequence + restartBackwardGap ≤ nextSeq) :
    detector.observe sequence nextSeq = (cleared, false) := by
  have gap : 0 < restartBackwardGap := by decide
  exact if_pos (by omega)

/-- The detector that has counted a sequence far behind. -/
def counted (detector : RestartDetector) (sequence : Nat) : RestartDetector :=
  if detector.count = 0 ∨ detector.highestSeq ≤ sequence then
    ⟨detector.count + 1, max detector.highestSeq sequence⟩
  else ⟨1, sequence⟩

theorem observe_far (far : sequence + restartBackwardGap ≤ nextSeq) :
    detector.observe sequence nextSeq =
      (detector.counted sequence,
        decide (restartConfirmPackets ≤ (detector.counted sequence).count)) :=
  if_neg (by omega)

theorem counted_cleared : cleared.counted sequence = ⟨1, sequence⟩ := by
  have unused : cleared.count = 0 ∨ cleared.highestSeq ≤ sequence := Or.inl rfl
  rw [counted, if_pos unused]
  exact congrArg (RestartDetector.mk 1) (Nat.max_eq_right (Nat.zero_le _))

/-- The detector has just confirmed a restart by this sequence. -/
structure Lingers (detector : RestartDetector) (sequence : Nat) : Prop where
  enough : restartConfirmPackets ≤ detector.count
  highestSeq : detector.highestSeq = sequence

theorem lingers_of_confirmed (confirmed : (detector.observe sequence nextSeq).2 = true) :
    (detector.observe sequence nextSeq).1.Lingers sequence := by
  have far := gap_of_confirmed confirmed
  rw [observe_far far] at confirmed ⊢
  have enough := of_decide_eq_true confirmed
  have several : ¬ restartConfirmPackets ≤ 1 := by decide
  refine ⟨enough, ?_⟩
  dsimp only
  rw [counted] at enough ⊢
  split at enough
  · rename_i later
    rw [if_pos later]
    rcases later with unused | inOrder
    · rw [unused] at enough
      exact absurd enough several
    · exact Nat.max_eq_right inOrder
  · exact absurd enough several

theorem Lingers.count_ne_zero {first : Nat} (lingers : detector.Lingers first) :
    detector.count ≠ 0 := by
  have several : 0 < restartConfirmPackets := by decide
  have enough := lingers.enough
  omega

/-- Any later sequence in order confirms once more. -/
theorem Lingers.confirms {first : Nat} (lingers : detector.Lingers first)
    (far : sequence + restartBackwardGap ≤ nextSeq) (inOrder : first ≤ sequence) :
    (detector.observe sequence nextSeq).2 = true := by
  have later : detector.count = 0 ∨ detector.highestSeq ≤ sequence :=
    Or.inr (lingers.highestSeq ▸ inOrder)
  rw [observe_far far, counted, if_pos later]
  exact decide_eq_true (Nat.le_succ_of_le lingers.enough)

/-- On all others it agrees with a cleared detector. -/
theorem Lingers.observe_eq {first : Nat} (lingers : detector.Lingers first)
    (settles : ¬ (sequence + restartBackwardGap ≤ nextSeq ∧ first ≤ sequence)) :
    detector.observe sequence nextSeq = cleared.observe sequence nextSeq := by
  by_cases far : sequence + restartBackwardGap ≤ nextSeq
  · have outOfOrder : ¬ (detector.count = 0 ∨ detector.highestSeq ≤ sequence) := by
      rw [lingers.highestSeq]
      exact not_or.mpr ⟨lingers.count_ne_zero, fun inOrder => settles ⟨far, inOrder⟩⟩
    rw [observe_far far, observe_far far, counted_cleared, counted, if_neg outOfOrder]
  · rw [observe_near far, observe_near far]

end RestartDetector

/-! ## What is delivered -/

def Effect.isForward : Effect → Bool
  | .forward _ _ => true
  | _ => false

/-- The forwarded payloads and the restarts among the effects. -/
def outcomes (effects : List Effect) : List Effect :=
  effects.filter fun effect => effect.isForward || effect.isRestart

/-- Two loops forward the same payloads and restart alike on the inputs, each
after its own earlier effects. -/
def SameOutcomes (config : ReorderConfig) (leftPast rightPast : List Effect)
    (left right : ReorderState) (inputs : List TimedInput) : Prop :=
  ∃ leftFinal rightFinal leftEffects rightEffects,
    inputs.foldlM (reorderStep config) left = some leftFinal ∧
    inputs.foldlM (reorderStep config) right = some rightFinal ∧
    leftFinal.trace = leftPast ++ leftEffects ∧
    rightFinal.trace = rightPast ++ rightEffects ∧
    outcomes leftEffects = outcomes rightEffects

/-! ## Inputs that touch the detector -/

/-- The input clears the detector or starts its count again: it is neither a
parity frame, nor a timeout of a pending flow, nor a late packet of the flow. -/
def Settles (state : ReorderState) (timed : TimedInput) : Prop :=
  match timed.input with
  | .frame (.packet packet) =>
      ¬ (state.initialized = true ∧ packet.header.sequence < state.nextSeq ∧
        packet.connectionId ∈ state.flowConnections)
  | .frame (.fec _) => False
  | .timeout => state.initialized = true ∧ state.hasPendingState = false

/-- A packet of another connection lies far behind, but not below the packet
that confirmed the restart. -/
def Provokes (restarting : ReceivedPacket) (state : ReorderState) (timed : TimedInput) : Prop :=
  ∃ packet, timed.input = .frame (.packet packet) ∧ state.initialized = true ∧
    packet.connectionId ∉ state.flowConnections ∧
    packet.header.sequence + restartBackwardGap ≤ state.nextSeq ∧
    restarting.header.sequence ≤ packet.header.sequence

/-- No input up to the first that settles the detector provokes a restart. -/
def Unprovoked (config : ReorderConfig) (restarting : ReceivedPacket) :
    ReorderState → List TimedInput → Prop
  | _, [] => True
  | state, timed :: rest =>
      ¬ Provokes restarting state timed ∧
        (Settles state timed ∨ ∀ next, reorderStep config state timed = some next →
          Unprovoked config restarting next rest)

theorem unprovoked_cons_iff {rest : List TimedInput} :
    Unprovoked config restarting state (timed :: rest) ↔
      ¬ Provokes restarting state timed ∧
        (Settles state timed ∨ ∀ next, reorderStep config state timed = some next →
          Unprovoked config restarting next rest) :=
  Iff.rfl

/-- An input that does not settle the detector does not read it either. -/
theorem reorderStep_withPast_of_unsettled (detect : RestartDetector → RestartDetector)
    (unsettled : ¬ Settles core timed) :
    reorderStep config (core.withPast past detect) timed =
      (reorderStep config core timed).map (·.withPast past detect) := by
  rcases timed with ⟨now, (packet | fec) | _⟩
  · rcases not_not.mp unsettled with ⟨active, behind, member⟩
    apply onPacket_withPast_of_admit
    rw [openFlow, if_pos active]
    exact admitPacket_withPast_of_member behind member
  · exact onFec_withPast past detect config now core fec
  · apply onTimeout_withPast
    intro active
    by_contra pending
    exact unsettled ⟨active, Bool.eq_false_iff.mpr pending⟩

theorem restartDetector_of_unsettled {next : ReorderState} (unsettled : ¬ Settles core timed)
    (stepped : reorderStep config core timed = some next) :
    next.restartDetector = core.restartDetector :=
  @restartDetector_of_withPast (fun state => reorderStep config state timed) core next
    (reorderStep_withPast_of_unsettled _ unsettled) stepped

/-- An input that settles the detector without a restart leaves no difference. -/
theorem reorderStep_withPast_of_settles {lingering : RestartDetector}
    (lingers : lingering.Lingers restarting.header.sequence)
    (cleared : core.restartDetector = .cleared)
    (unprovoked : ¬ Provokes restarting core timed) (settles : Settles core timed) :
    reorderStep config (core.withPast past fun _ => lingering) timed =
      (reorderStep config core timed).map (·.withPast past id) := by
  rcases timed with ⟨now, (packet | fec) | _⟩
  · apply onPacket_withPast_of_admit
    by_cases active : core.initialized = true
    · rw [openFlow, if_pos active]
      by_cases behind : packet.header.sequence < core.nextSeq
      · have stranger : packet.connectionId ∉ core.flowConnections :=
          fun member => settles ⟨active, behind, member⟩
        refine @admitPacket_withPast_of_observe past _ (core.setReplyRoutes packet.remote false)
          packet behind stranger ?_
        rw [show (core.setReplyRoutes packet.remote false).restartDetector = _ from cleared]
        exact lingers.observe_eq fun provoked =>
          unprovoked ⟨packet, rfl, active, stranger, provoked⟩
      · exact admitPacket_withPast_of_ahead (Nat.le_of_not_lt behind)
    · rw [openFlow, if_neg active]
      exact admitPacket_withPast_of_ahead (Nat.le_refl _)
  · exact settles.elim
  · exact onTimeout_withPast_of_idle config now settles.1 settles.2

/-- A provoking packet restarts the flow, and a fresh loop rejects it. -/
theorem reorderStep_provoked {lingering : RestartDetector}
    (lingers : lingering.Lingers restarting.header.sequence) (consistent : Consistent core)
    (cleared : core.restartDetector = .cleared) (provokes : Provokes restarting core timed) :
    ∃ again rejected reset effects rejection,
      reorderStep config (core.withPast past fun _ => lingering) timed = some again ∧
      again.trace = past ++ core.trace ++ reset :: effects ∧ reset.isRestart = true ∧
      reorderStep config core timed = some rejected ∧
      rejected.trace = core.trace ++ [rejection] ∧ rejection.isRejection = true := by
  rcases timed with ⟨now, input⟩
  rcases provokes with ⟨packet, rfl, active, stranger, far, inOrder⟩
  have gap : 0 < restartBackwardGap := by decide
  have behind : packet.header.sequence < core.nextSeq := by omega
  have wellFormed : WellFormed (core.withPast past fun _ => lingering) :=
    consistent.toWellFormed.congr rfl rfl rfl rfl rfl
  rcases processAdmitted_extends config now packet (wellFormed.restarted active behind) active with
    ⟨again, processed, _, effects, trace⟩
  have confirmed := @onPacket_confirmed packet (core.withPast past fun _ => lingering) config now
    active behind stranger (lingers.confirms far inOrder)
  have unconfirmed :
      (core.restartDetector.observe packet.header.sequence core.nextSeq).2 = false := by
    rw [cleared, RestartDetector.observe_far far, RestartDetector.counted_cleared]
    rfl
  rcases onPacket_unconfirmed config now active behind stranger unconfirmed with
    ⟨rejection, rejects, rejected⟩
  refine ⟨again, _, .flowReset packet.header.sequence core.heldPayloads, effects, rejection,
    confirmed.trans processed, ?_, rfl, rejected, rfl, rejects⟩
  rw [trace]
  exact List.append_assoc _ _ _

/-! ## Two loops after the same inputs -/

section Beside

variable {left right : List Effect} {inputs : List TimedInput}

theorem sameOutcomes_cons_iff {first second first' second' : ReorderState}
    (stepped : reorderStep config first timed = some first')
    (stepped' : reorderStep config second timed = some second') :
    SameOutcomes config left right first second (timed :: inputs) ↔
      SameOutcomes config left right first' second' inputs := by
  simp only [SameOutcomes, foldlM_reorderStep_cons stepped, foldlM_reorderStep_cons stepped']

/-- Two loops that differ in their earlier effects only. -/
theorem sameOutcomes_withPast (consistent : Consistent core) :
    SameOutcomes config left right (core.withPast left id) (core.withPast right id) inputs := by
  rcases (consistent_invariant config).foldlM_reorderStep
    (fun timed (_ : timed ∈ inputs) _ _ => trivial) consistent trivial with ⟨final, finished, _⟩
  refine ⟨final.withPast left id, final.withPast right id, final.trace, final.trace, ?_, ?_, rfl,
    rfl, rfl⟩
  · rw [foldlM_reorderStep_withPast, finished]
    rfl
  · rw [foldlM_reorderStep_withPast, finished]
    rfl

theorem sameOutcomes_nil {detect : RestartDetector → RestartDetector} :
    SameOutcomes config left right (core.withPast left detect) (core.withPast right id) [] :=
  ⟨_, _, core.trace, core.trace, rfl, rfl, rfl, rfl, rfl⟩

/-- The outcomes differ as soon as a restart is provoked. -/
theorem not_sameOutcomes_of_provokes {lingering : RestartDetector}
    (lingers : lingering.Lingers restarting.header.sequence) (consistent : Consistent core)
    (cleared : core.restartDetector = .cleared) (provokes : Provokes restarting core timed) :
    ¬ SameOutcomes config left right (core.withPast left fun _ => lingering)
      (core.withPast right id) [timed] := by
  rintro ⟨leftFinal, rightFinal, leftEffects, rightEffects, leftRan, rightRan, leftTrace,
    rightTrace, same⟩
  rcases @reorderStep_provoked config core restarting timed left lingering lingers consistent
    cleared provokes with
    ⟨again, rejected, reset, effects, rejection, stepped, trace, isReset, ignored, added, rejects⟩
  have rightStep : reorderStep config (core.withPast right id) timed =
      some (rejected.withPast right id) := by
    rw [reorderStep_withPast, ignored]
    rfl
  rw [foldlM_reorderStep_cons stepped] at leftRan
  rw [foldlM_reorderStep_cons rightStep] at rightRan
  cases leftRan
  cases rightRan
  rw [trace, List.append_assoc, List.append_right_inj] at leftTrace
  have extended : right ++ rejected.trace = right ++ rightEffects := rightTrace
  rw [added, List.append_right_inj] at extended
  have noForward : rejection.isForward = false := by
    cases rejection <;> first | rfl | cases rejects
  rw [← leftTrace, ← extended] at same
  simp [outcomes, isReset, noForward, Effect.isRestart_of_isRejection rejects] at same

theorem forall_prefix_cons_iff {α : Type} {Holds : List α → Prop} {head : α} {tail : List α} :
    (∀ front, front <+: head :: tail → Holds front) ↔
      Holds [] ∧ ∀ front, front <+: tail → Holds (head :: front) := by
  constructor
  · intro all
    refine ⟨all [] List.nil_prefix, fun front within => all _ ?_⟩
    exact List.cons_prefix_cons.mpr ⟨rfl, within⟩
  · rintro ⟨none, some⟩ front within
    rcases List.prefix_cons_iff.mp within with rfl | ⟨rest, rfl, restWithin⟩
    · exact none
    · exact some rest restWithin

/-- A loop after a restart and a fresh loop deliver the same at every point of a
run exactly when no restart is provoked before the detector is settled. -/
theorem sameOutcomes_iff_unprovoked {lingering : RestartDetector}
    (lingers : lingering.Lingers restarting.header.sequence) (consistent : Consistent core)
    (cleared : core.restartDetector = .cleared) :
    (∀ earlier, earlier <+: inputs → SameOutcomes config left right
      (core.withPast left fun _ => lingering) (core.withPast right id) earlier) ↔
      Unprovoked config restarting (core.withPast left fun _ => lingering) inputs := by
  induction inputs generalizing core with
  | nil =>
      refine iff_of_true ?_ trivial
      intro earlier within
      rw [List.prefix_nil.mp within]
      exact sameOutcomes_nil
  | cons timed rest induction =>
      rw [forall_prefix_cons_iff, unprovoked_cons_iff]
      by_cases provokes : Provokes restarting core timed
      · refine iff_of_false ?_ fun unprovoked => unprovoked.1 provokes
        intro same
        exact not_sameOutcomes_of_provokes lingers consistent cleared provokes
          (same.2 [] List.nil_prefix)
      · rcases (consistent_invariant config).reorderStep (fun _ _ => trivial) consistent trivial
          with ⟨next, stepped, nextConsistent, _⟩
        have rightStep : reorderStep config (core.withPast right id) timed =
            some (next.withPast right id) := by
          rw [reorderStep_withPast, stepped]
          rfl
        by_cases settles : Settles core timed
        · have leftStep : reorderStep config (core.withPast left fun _ => lingering) timed =
              some (next.withPast left id) := by
            rw [reorderStep_withPast_of_settles lingers cleared provokes settles, stepped]
            rfl
          refine iff_of_true ⟨sameOutcomes_nil, ?_⟩ ⟨provokes, Or.inl settles⟩
          intro earlier _
          rw [sameOutcomes_cons_iff leftStep rightStep]
          exact sameOutcomes_withPast nextConsistent
        · have leftStep : reorderStep config (core.withPast left fun _ => lingering) timed =
              some (next.withPast left fun _ => lingering) := by
            rw [reorderStep_withPast_of_unsettled _ settles, stepped]
            rfl
          have stillCleared := (restartDetector_of_unsettled settles stepped).trans cleared
          have later := induction nextConsistent stillCleared
          constructor
          · rintro ⟨_, same⟩
            refine ⟨provokes, Or.inr fun found outcome => ?_⟩
            cases leftStep.symm.trans outcome
            exact later.mp fun earlier within =>
              (sameOutcomes_cons_iff leftStep rightStep).mp (same earlier within)
          · rintro ⟨_, settles' | unprovoked⟩
            · exact absurd settles' settles
            · refine ⟨sameOutcomes_nil, fun earlier within => ?_⟩
              rw [sameOutcomes_cons_iff leftStep rightStep]
              exact later.mpr (unprovoked _ leftStep) earlier within

end Beside

/-! ## After an idle reset -/

/-- Without a flow the reply routes are not read. -/
def ReorderState.withRoutes (routes : List String) (state : ReorderState) : ReorderState :=
  { state with replyRoutes := routes }

theorem foldlM_reorderStep_withRoutes {routes : List String} {inputs : List TimedInput}
    {final : ReorderState} (inactive : state.initialized = false)
    (ran : inputs.foldlM (reorderStep config) state = some final) :
    ∃ laterRoutes, inputs.foldlM (reorderStep config) (state.withRoutes routes) =
      some (final.withRoutes laterRoutes) := by
  induction inputs generalizing state with
  | nil =>
      cases ran
      exact ⟨routes, rfl⟩
  | cons timed rest induction =>
      rw [List.foldlM_cons] at ran ⊢
      rcases timed with ⟨now, (packet | fec) | _⟩
      · have opened : openFlow packet (state.withRoutes routes) = openFlow packet state := by
          rw [openFlow, openFlow, inactive,
            show (state.withRoutes routes).initialized = false from inactive]
          rfl
        have same : reorderStep config (state.withRoutes routes) ⟨now, .frame (.packet packet)⟩ =
            reorderStep config state ⟨now, .frame (.packet packet)⟩ := by
          show onPacket config now packet (state.withRoutes routes) =
            onPacket config now packet state
          rw [onPacket, onPacket, opened]
        rw [same]
        exact ⟨final.replyRoutes, ran⟩
      · have stored : ∀ other : ReorderState, other.initialized = false →
            reorderStep config other ⟨now, .frame (.fec fec)⟩ =
              some { other with fecState := other.fecState.insertFrame fec.frame } := by
          intro other idle
          exact if_neg (Bool.eq_false_iff.mp idle)
        rw [stored state inactive] at ran
        rw [stored (state.withRoutes routes) inactive]
        exact @induction { state with fecState := state.fecState.insertFrame fec.frame }
          inactive ran
      · have kept : ∀ other : ReorderState, other.initialized = false →
            reorderStep config other ⟨now, .timeout⟩ = some other := by
          intro other idle
          exact if_pos (by rw [idle]; rfl)
        rw [kept state inactive] at ran
        rw [kept (state.withRoutes routes) inactive]
        exact induction inactive ran

theorem idleReset_eq (idle : state.hasPendingState = false) :
    idleReset state =
      (ReorderState.initial.withRoutes state.replyRoutes).withPast state.trace id := by
  rcases not_mem_of_hasPendingState idle with ⟨buffered, fragments, seen⟩
  simp only [idleReset, ReorderState.initial, ReorderState.withRoutes, ReorderState.withPast,
    buffered, fragments, seen, List.append_nil, id]

theorem sameOutcomes_idleReset (idle : state.hasPendingState = false)
    (inputs : List TimedInput) :
    SameOutcomes config state.trace [] (idleReset state) .initial inputs := by
  rcases reorderLoop_finishes config inputs with ⟨final, finished⟩
  rcases @foldlM_reorderStep_withRoutes config .initial state.replyRoutes inputs final rfl
    finished with ⟨routes, ran⟩
  refine ⟨(final.withRoutes routes).withPast state.trace id, final, final.trace, final.trace, ?_,
    finished, rfl, rfl, rfl⟩
  rw [idleReset_eq idle, foldlM_reorderStep_withPast, ran]
  rfl

/-! ## After a confirmed restart -/

/-- What a fresh loop has made of the first packet before it processes it. -/
def firstJoined (packet : ReceivedPacket) : ReorderState :=
  { joinFlow packet (startFlow packet .initial) with trace := [] }

theorem restarted_eq (active : state.initialized = true) :
    restarted packet state = (firstJoined packet).withPast
      (state.trace ++ [.flowReset packet.header.sequence state.heldPayloads])
      fun _ => (state.restartDetector.observe packet.header.sequence state.nextSeq).1 := by
  have connections : insert packet.connectionId (insert packet.connectionId (∅ : Finset Nat)) =
      {packet.connectionId} := Finset.insert_idem _ _
  simp only [restarted, restartFlow, observed, firstJoined, joinFlow, startFlow,
    ReorderState.initial, ReorderState.setReplyRoutes, ReorderState.emit,
    ReorderState.heldPayloads, ReorderState.withPast, connections, active, List.append_nil]
  rfl

/-- The restarted loop and the fresh loop differ in their earlier effects and in
the detector. -/
theorem restarted_beside_fresh (config : ReorderConfig) (now : Instant)
    (active : state.initialized = true)
    (stranger : restarting.connectionId ∉ state.flowConnections)
    (confirmed :
      (state.restartDetector.observe restarting.header.sequence state.nextSeq).2 = true) :
    ∃ core, Consistent core ∧ core.restartDetector = .cleared ∧
      reorderStep config state (arrival now restarting) = some (core.withPast
        (state.trace ++ [.flowReset restarting.header.sequence state.heldPayloads])
        fun _ => (state.restartDetector.observe restarting.header.sequence state.nextSeq).1) ∧
      reorderLoop config [arrival now restarting] =
        some (core.withPast [.flowStart restarting.header.sequence] id) := by
  have gap : 0 < restartBackwardGap := by decide
  have far := RestartDetector.gap_of_confirmed confirmed
  have behind : restarting.header.sequence < state.nextSeq := by omega
  have wellFormed : WellFormed (firstJoined restarting) :=
    .of_empty restarting.media rfl rfl rfl fun found =>
      absurd (OrderedMap.mem_of_getElem? found) ExtTreeMap.not_mem_empty
  rcases processAdmitted_extends config now restarting wellFormed rfl with
    ⟨core, processed, consistent, _⟩
  have admitted : admitPacket restarting (openFlow restarting .initial) =
      .proceed ((firstJoined restarting).withPast [.flowStart restarting.header.sequence] id) :=
    if_neg (Nat.lt_irrefl _)
  refine ⟨core, consistent, ?_, ?_, ?_⟩
  · exact @restartDetector_of_withPast (processAdmitted config now restarting)
      (firstJoined restarting) core (processAdmitted_withPast _ _ config now _ restarting) processed
  · refine (onPacket_confirmed config now active behind stranger confirmed).trans ?_
    rw [restarted_eq active, processAdmitted_withPast, processed]
    rfl
  · have first : reorderStep config .initial (arrival now restarting) =
        some (core.withPast [.flowStart restarting.header.sequence] id) := by
      show onPacket config now restarting .initial = _
      rw [onPacket, admitted]
      refine (processAdmitted_withPast _ id config now (firstJoined restarting) restarting).trans ?_
      rw [processed]
      rfl
    exact foldlM_reorderStep_cons first []

/-- What a loop delivers after a confirmed restart, from whatever state, is what a
fresh loop delivers, at every point of the run, exactly when no restart is
provoked before the detector is settled; after an idle reset it always is. -/
theorem resets_isolate (config : ReorderConfig) (active : state.initialized = true)
    (now : Instant) :
    (∀ restarting : ReceivedPacket, restarting.connectionId ∉ state.flowConnections →
      (state.restartDetector.observe restarting.header.sequence state.nextSeq).2 = true →
      ∃ restarted fresh, reorderStep config state (arrival now restarting) = some restarted ∧
        reorderLoop config [arrival now restarting] = some fresh ∧
        ∀ later, (∀ earlier, earlier <+: later → SameOutcomes config
            (state.trace ++ [.flowReset restarting.header.sequence state.heldPayloads])
            [.flowStart restarting.header.sequence] restarted fresh earlier) ↔
          Unprovoked config restarting restarted later) ∧
    (state.hasPendingState = false →
      ∃ idle, reorderStep config state ⟨now, .timeout⟩ = some idle ∧
        ∀ later, SameOutcomes config state.trace [] idle .initial later) := by
  constructor
  · intro restarting stranger confirmed
    rcases restarted_beside_fresh config now active stranger confirmed with
      ⟨core, consistent, cleared, restarts, starts⟩
    exact ⟨_, _, restarts, starts, fun _ => sameOutcomes_iff_unprovoked
      (RestartDetector.lingers_of_confirmed confirmed) consistent cleared⟩
  · intro idle
    refine ⟨idleReset state, ?_, sameOutcomes_idleReset idle⟩
    show onTimeout config now state = _
    rw [onTimeout, active, idle]
    rfl

theorem reorderLoop_restartedAt :
    ∃ restarted, reorderLoop restartConfig
        (untilRestart ++ [arrival 1 (strangerPacket 1 7)]) = some restarted ∧
      restarted.nextSeq = 8 :=
  exists_of_any (by decide +kernel)

theorem resets_isolate_eight :
    ∃ state restarted fresh, reorderLoop restartConfig untilRestart = some state ∧
      reorderStep restartConfig state (arrival 1 (strangerPacket 1 7)) = some restarted ∧
      reorderLoop restartConfig [arrival 1 (strangerPacket 1 7)] = some fresh ∧
      SameOutcomes restartConfig (state.trace ++ [.flowReset 7 state.heldPayloads])
        [.flowStart 7] restarted fresh [arrival 2 (strangerPacket 1 8)] := by
  rcases reorderLoop_untilRestart with ⟨state, reached, active, _, _, stranger, confirmed⟩
  rcases reorderLoop_restartedAt with ⟨found, reachedRestart, position⟩
  rcases (resets_isolate restartConfig active 1).1 (strangerPacket 1 7) stranger confirmed with
    ⟨restarted, fresh, restarts, starts, isolated⟩
  cases restarts.symm.trans (reorderStep_of_reorderLoop reached reachedRestart)
  have unprovoked : Unprovoked restartConfig (strangerPacket 1 7) found
      [arrival 2 (strangerPacket 1 8)] := by
    refine ⟨?_, Or.inl ?_⟩
    · rintro ⟨packet, same, _, _, far, _⟩
      cases same
      rw [position] at far
      exact absurd far (by decide)
    · rintro ⟨_, behind, _⟩
      rw [position] at behind
      exact absurd behind (by decide)
  exact ⟨state, found, fresh, reached, restarts, starts,
    (isolated _).mpr unprovoked _ (List.prefix_refl _)⟩

/-! ## A lone packet restarts the flow again -/

/-- The parity frame of a single packet far ahead. -/
def farParity : ReceivedFecFrame := ⟨"client", ⟨10001, [1], [9]⟩, by decide⟩

def thirdSenderPacket : ReceivedPacket := .whole "client" 2 100 [] (by decide)

/-- The frame, a timeout that skips up to its packet, and one packet of a third
connection. -/
def afterRestart : List TimedInput :=
  [⟨2, .frame (.fec farParity)⟩, ⟨12, .timeout⟩, arrival 13 thirdSenderPacket]

theorem reorderLoop_farRecovered :
    ∃ state, reorderLoop restartConfig (untilRestart ++ [arrival 1 (strangerPacket 1 7)] ++
        [⟨2, .frame (.fec farParity)⟩]) = some state ∧
      state.initialized = true ∧ 2 ∉ state.flowConnections ∧
      state.buffered.toList = [(10001, ⟨[9], 2⟩)] ∧ state.fragments.toList = [] ∧
      state.fecState.frames.toList = [] :=
  exists_of_any (by decide +kernel)

/-- After the restart the packet of the third connection restarts the loop, and a
fresh loop ignores it. -/
theorem restart_not_isolated :
    ∃ state restarted fresh, reorderLoop restartConfig untilRestart = some state ∧
      state.initialized = true ∧ (strangerPacket 1 7).connectionId ∉ state.flowConnections ∧
      (state.restartDetector.observe 7 state.nextSeq).2 = true ∧
      reorderStep restartConfig state (arrival 1 (strangerPacket 1 7)) = some restarted ∧
      reorderLoop restartConfig [arrival 1 (strangerPacket 1 7)] = some fresh ∧
      ¬ ∀ earlier, earlier <+: afterRestart → SameOutcomes restartConfig
        (state.trace ++ [.flowReset 7 state.heldPayloads]) [.flowStart 7] restarted fresh
        earlier := by
  rcases reorderLoop_untilRestart with ⟨state, reached, active, _, _, stranger, confirmed⟩
  rcases reorderLoop_restarted with ⟨restarted, reachedRestart, _⟩
  rcases reorderLoop_farRecovered with
    ⟨held, reachedHeld, heldActive, foreign, buffered, fragments, frames⟩
  have restarts := reorderStep_of_reorderLoop reached reachedRestart
  have recovers := reorderStep_of_reorderLoop reachedRestart reachedHeld
  rcases @restarted_beside_fresh state (strangerPacket 1 7) restartConfig 1 active stranger
    confirmed with ⟨core, consistent, cleared, restarts', starts⟩
  cases restarts'.symm.trans restarts
  refine ⟨state, _, _, reached, active, stranger, confirmed, restarts, starts, ?_⟩
  have same := @sameOutcomes_iff_unprovoked restartConfig core (strangerPacket 1 7)
    (state.trace ++ [.flowReset 7 state.heldPayloads]) [.flowStart 7] afterRestart _
    (RestartDetector.lingers_of_confirmed confirmed) consistent cleared
  intro isolated
  have unprovoked := same.mp isolated
  have heldConsistent := (reorderLoop_refines reachedHeld).1
  rcases @onTimeout_overdue restartConfig 12 held rfl heldConsistent.toWellFormed heldActive 10001
    ⟨[9], 2⟩ buffered fragments frames (by decide) with
    ⟨final, expired, finalActive, position, connections, _⟩
  have found : held.buffered[10001]? = some ⟨[9], 2⟩ :=
    ExtTreeMap.mem_toList_iff_getElem?_eq_some.mp (buffered ▸ List.mem_singleton_self _)
  have pending : held.hasPendingState = true :=
    hasPendingState_of_held (Or.inl (OrderedMap.mem_of_getElem? found))
  have afterFrame := unprovoked.2.resolve_left id held recovers
  have afterTimeout := afterFrame.2.resolve_left
    (fun settled => Bool.false_ne_true (settled.2.symm.trans pending)) final expired
  refine afterTimeout.1 ⟨thirdSenderPacket, rfl, finalActive, ?_, ?_, by decide⟩
  · rw [connections]
    exact foreign
  · rw [position]
    decide

end Irohsion.Server
