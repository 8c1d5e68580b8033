import Irohsion.Server.LiveConnections

/-! # Removals from the health connections

An entry of `health_connections` is removed by the task of a closed connection,
which checks the entry under one lock and removes it under another, or by
`health_loop`, which does both under one. Which of these removals can take the
entry of a newer connection is decided by what is entered in between.
-/

namespace Irohsion.Server

open Std

variable {state next final : Registries} {event : RegistryEvent} {connection closing : Connection}
variable {history : List (Registries × RegistryEvent)}

/-! ## Runs in which stable ids come back -/

/-- No task of the connection runs, so that the transport may hand out its
stable id again. -/
def Registries.Gone (state : Registries) (connection : Connection) : Prop :=
  state.phase connection = none ∨ state.phase connection = some .ended

def Registries.forget (state : Registries) (connection : Connection) : Registries :=
  { state with known := state.known.erase connection }

/-- Runs in which only connections that are not gone have distinct stable ids,
with the state before each step. -/
inductive ReusingRun : List (Registries × RegistryEvent) → Registries → Prop
  | start : ReusingRun [] .initial
  | step {state next : Registries} {event : RegistryEvent}
      {history : List (Registries × RegistryEvent)} :
      ReusingRun history state →
      RegistryStep state event next →
      ReusingRun (history ++ [(state, event)]) next
  | forget {state : Registries} {connection : Connection}
      {history : List (Registries × RegistryEvent)} :
      ReusingRun history state →
      state.Gone connection →
      ReusingRun history (state.forget connection)

theorem RegistryRun.reusing {start : Registries} {earlier : List (Registries × RegistryEvent)}
    (run : RegistryRun start history final) (before : ReusingRun earlier start) :
    ReusingRun (earlier ++ history) final := by
  induction run generalizing earlier with
  | done =>
      rw [List.append_nil]
      exact before
  | step step _ induction =>
      rw [List.append_cons]
      exact induction (before.step step)

/-! ## Whose entry is removed -/

/-- The removals of a step are made on behalf of this stable id of the remote. -/
def RemovesFor (state : Registries) (event : RegistryEvent) (remote : String)
    (stableId : Nat) : Prop :=
  match event with
  | .removeHealth closing => closing.remote = remote ∧ closing.stableId = stableId
  | .pruneHealth => (remote, stableId) ∈ state.health.failed
  | _ => False

/-- Each entry that the step removes holds the stable id on whose behalf it is removed. -/
def RemovesOwn (state : Registries) (event : RegistryEvent) (next : Registries) : Prop :=
  ∀ (remote : String) (entry : HealthConnection),
    state.healthConnections[remote]? = some entry → next.healthConnections[remote]? = none →
    RemovesFor state event remote entry.stableId

/-- `health_loop` checks and removes an entry in one step. -/
theorem mem_failed_of_removed {failed : List (String × Nat)} {entries : HealthConnections}
    {remote : String} {entry : HealthConnection} (found : entries[remote]? = some entry)
    (removed : (failed.foldl removeHealthIfCurrent entries)[remote]? = none) :
    (remote, entry.stableId) ∈ failed := by
  induction failed generalizing entries with
  | nil =>
      rw [List.foldl_nil, found] at removed
      cases removed
  | cons first rest induction =>
      rw [List.foldl_cons, removeHealthIfCurrent] at removed
      split at removed
      · rename_i current
        by_cases same : first.1 = remote
        · rw [isCurrentHealth, same, found, Option.any_some, beq_iff_eq] at current
          rw [← same, current]
          exact List.mem_cons_self
        · rw [← OrderedMap.getElem?_erase_of_ne same] at found
          exact List.mem_cons_of_mem _ (induction found removed)
      · exact List.mem_cons_of_mem _ (induction found removed)

/-! ## The check and the removal of a closed connection -/

/-- What the task of a closed connection is about to remove, if anything, is the
entry that it has checked. -/
def ChecksOwn (state : Registries) : Prop :=
  ∀ (closing : Connection) (entry : HealthConnection), state.phase closing = some .current →
    state.healthConnections[closing.remote]? = some entry → entry.stableId = closing.stableId

theorem ChecksOwn.step (checks : ChecksOwn state) (step : RegistryStep state event next)
    (serialized : Serialized state event) : ChecksOwn next := by
  intro closing entry current found
  cases step with
  | @enterHealth entering _ =>
      rcases setPhase_eq_some current with ⟨-, impossible⟩ | ⟨-, earlier⟩
      · cases impossible
      · have different := serialized entering closing (Or.inl rfl) earlier
        rw [OrderedMap.getElem?_insert_of_ne different.symm] at found
        exact checks closing entry earlier found
  | @reconnect entering _ _ =>
      have different := serialized entering closing (Or.inr rfl) current
      rw [OrderedMap.getElem?_insert_of_ne different.symm] at found
      exact checks closing entry current found
  | @checkHealth checking unregistered =>
      rcases setPhase_eq_some current with ⟨rfl, checked⟩ | ⟨-, earlier⟩
      · split at checked
        · rename_i isCurrent
          rw [isCurrentHealth, found, Option.any_some, beq_iff_eq] at isCurrent
          exact isCurrent
        · cases checked
      · exact checks closing entry earlier found
  | removeHealth _ =>
      rcases setPhase_eq_some current with ⟨-, impossible⟩ | ⟨-, earlier⟩
      · cases impossible
      · exact checks closing entry earlier (OrderedMap.getElem?_erase_eq_some.mp found).2
  | accept _ | addTarget _ | readFails _ _ | stop _ | unregister _ =>
      rcases setPhase_eq_some current with ⟨-, impossible⟩ | ⟨-, earlier⟩
      · cases impossible
      · exact checks closing entry earlier found
  | pruneHealth _ => exact checks closing entry current (found_foldl_removeHealthIfCurrent found)
  | _ => exact checks closing entry current found

theorem ReusingRun.checksOwn (run : ReusingRun history state)
    (serialized : ∀ entry ∈ history, Serialized entry.1 entry.2) : ChecksOwn state := by
  induction run with
  | start => exact fun _ _ impossible => nomatch impossible
  | step _ step induction =>
      rw [List.forall_mem_append, List.forall_mem_singleton] at serialized
      exact (induction serialized.1).step step serialized.2
  | forget _ _ induction => exact induction serialized

/-- No step but these two removes an entry. -/
theorem ChecksOwn.removesOwn (checks : ChecksOwn state) (step : RegistryStep state event next) :
    RemovesOwn state event next := by
  intro remote entry found removed
  cases step with
  | @removeHealth closing current =>
      by_cases same : closing.remote = remote
      · subst same
        exact ⟨rfl, (checks closing entry current found).symm⟩
      · have kept := (OrderedMap.getElem?_erase_of_ne same).trans found
        cases kept.symm.trans removed
  | pruneHealth sending =>
      have listed := mem_failed_of_removed found removed
      rw [RemovesFor, sending]
      exact listed
  | @enterHealth entering _ | @reconnect entering _ _ =>
      by_cases same : entering.remote = remote
      · subst same
        cases ExtTreeMap.getElem?_insert_self.symm.trans removed
      · rw [OrderedMap.getElem?_insert_of_ne same] at removed
        cases found.symm.trans removed
  | _ => cases found.symm.trans removed

/-! ## When an entry is made in between -/

/-- The connections whose tasks run are known, and known connections have
distinct stable ids. -/
structure Distinct (state : Registries) : Prop where
  unique : ∀ {first second}, first ∈ state.known → second ∈ state.known →
    first.stableId = second.stableId → first = second
  running : ∀ {connection}, ¬ state.Gone connection → connection ∈ state.known

theorem Distinct.initial : Distinct .initial where
  unique first := absurd first (Finset.notMem_empty _)
  running remains := absurd (Or.inl rfl) remains

theorem Distinct.of_phase (distinct : Distinct state) {phase : AcceptPhase}
    (found : state.phase connection = some phase) (runs : phase ≠ .ended) :
    connection ∈ state.known := by
  apply distinct.running
  rintro (absent | ended)
  · cases found.symm.trans absent
  · exact runs (Option.some.inj (found.symm.trans ended))

theorem Registries.gone_of_setPhase {set : AcceptPhase} (different : connection ≠ closing) :
    ({ state with phase := state.setPhase closing set } : Registries).Gone connection ↔
      state.Gone connection := by
  have unchanged : state.setPhase closing set connection = state.phase connection :=
    Function.update_of_ne different _ _
  rw [Gone, Gone]
  dsimp only
  rw [unchanged]

theorem Distinct.running_step (distinct : Distinct state) (step : RegistryStep state event next)
    (remains : ¬ next.Gone connection) : connection ∈ next.known := by
  have known : ¬ state.Gone connection → connection ∈ next.known :=
    fun remains => step.known_subset (distinct.running remains)
  cases step with
  | @accept accepted _ =>
      by_cases same : connection = accepted
      · exact same ▸ Finset.mem_insert_self _ _
      · exact known (mt (Registries.gone_of_setPhase same).mpr remains)
  | @enterHealth task inPhase | @addTarget task inPhase | @readFails task inPhase _
  | @stop task inPhase | @unregister task inPhase | @checkHealth task inPhase
  | @removeHealth task inPhase =>
      by_cases same : connection = task
      · subst same
        exact distinct.of_phase inPhase AcceptPhase.noConfusion
      · exact known (mt (Registries.gone_of_setPhase same).mpr remains)
  | _ => exact known remains

theorem Distinct.unique_step (distinct : Distinct state) (step : RegistryStep state event next)
    {first second : Connection} (knownFirst : first ∈ next.known)
    (knownSecond : second ∈ next.known) (same : first.stableId = second.stableId) :
    first = second := by
  cases step with
  | @accept added unused | @reconnect added _ unused =>
      rcases Finset.mem_insert.mp knownFirst with isFirst | earlierFirst
      · rcases Finset.mem_insert.mp knownSecond with isSecond | earlierSecond
        · exact isFirst.trans isSecond.symm
        · exact absurd (isFirst ▸ same.symm) (unused second earlierSecond)
      · rcases Finset.mem_insert.mp knownSecond with isSecond | earlierSecond
        · exact absurd (isSecond ▸ same) (unused first earlierFirst)
        · exact distinct.unique earlierFirst earlierSecond same
  | _ => exact distinct.unique knownFirst knownSecond same

theorem ReusingRun.distinct (run : ReusingRun history state) : Distinct state := by
  induction run with
  | start => exact .initial
  | step _ step induction => exact ⟨induction.unique_step step, induction.running_step step⟩
  | @forget state forgotten _ _ gone induction =>
      constructor
      · intro first second knownFirst knownSecond
        exact induction.unique (Finset.mem_of_mem_erase knownFirst)
          (Finset.mem_of_mem_erase knownSecond)
      · intro connection remains
        apply Finset.mem_erase.mpr
        refine ⟨?_, induction.running remains⟩
        rintro rfl
        exact remains gone

/-- An entry made between a check and its removal is removed by the next step,
if the task that has checked takes it. -/
theorem Distinct.removes_newer (distinct : Distinct state)
    (step : RegistryStep state event next) (between : ¬ Serialized state event) :
    ∃ closing after, RegistryStep next (.removeHealth closing) after ∧
      ¬ RemovesOwn next (.removeHealth closing) after := by
  rw [Serialized] at between
  push Not at between
  rcases between with ⟨entering, closing, enters, current, same⟩
  have removal : ∀ next : Registries, next.phase closing = some .current →
      next.healthConnections[closing.remote]? = some entering.health →
      entering.stableId ≠ closing.stableId →
      ∃ closing after, RegistryStep next (.removeHealth closing) after ∧
        ¬ RemovesOwn next (.removeHealth closing) after := by
    intro next checked entered different
    refine ⟨closing, _, .removeHealth checked, ?_⟩
    intro own
    exact different (own closing.remote entering.health entered
      ExtTreeMap.getElem?_erase_self).2.symm
  have known := distinct.of_phase current AcceptPhase.noConfusion
  rcases enters with rfl | rfl
  · cases step with
    | enterHealth registered =>
        have other : closing ≠ entering := by
          rintro rfl
          cases current.symm.trans registered
        apply removal
        · exact (Function.update_of_ne other _ _).trans current
        · rw [same]
          exact ExtTreeMap.getElem?_insert_self
        · intro equal
          exact other (distinct.unique known
            (distinct.of_phase registered AcceptPhase.noConfusion) equal.symm)
  · cases step with
    | reconnect _ unused =>
        apply removal
        · exact current
        · rw [same]
          exact ExtTreeMap.getElem?_insert_self
        · intro equal
          exact unused closing known equal.symm

/-- As long as no health connection of a remote is entered between the check and
the removal by a closed connection of the remote, every removal takes the entry
that it is meant for. An entry made in between can be taken by the next step. -/
theorem removesOwn_of_serialized (run : ReusingRun history state) :
    ((∀ entry ∈ history, Serialized entry.1 entry.2) →
      ∀ event next, RegistryStep state event next → RemovesOwn state event next) ∧
    (∀ event next, RegistryStep state event next → ¬ Serialized state event →
      ∃ closing after, RegistryStep next (.removeHealth closing) after ∧
        ¬ RemovesOwn next (.removeHealth closing) after) := by
  constructor
  · intro serialized event next step
    exact (run.checksOwn serialized).removesOwn step
  · intro event next step between
    exact run.distinct.removes_newer step between

/-! ## A viewer that connects again -/

/-- The same remote with its next connection. -/
def newViewer : Connection := ⟨"viewer", 2⟩

/-- The task of the closed connection has checked the entry, and the next
connection is about to be entered. -/
theorem exists_run_checked :
    ∃ history state, ReusingRun history state ∧
      (∀ entry ∈ history, Serialized entry.1 entry.2) ∧
      state.phase viewer = some .current ∧ state.phase newViewer = some .registered ∧
      state.healthConnections["viewer"]? = some viewer.health ∧ newViewer ∉ state.closed := by
  rcases exists_run_readingRegistries with ⟨earlier, run, serialized, -⟩
  have closes : RegistryRun readingRegistries _ _ :=
    .step (.close viewer) (.step (@RegistryStep.readFails _ viewer (by decide +kernel)
      (by decide +kernel)) (.step (@RegistryStep.unregister _ viewer (by decide +kernel))
        (.step (@RegistryStep.checkHealth _ viewer (by decide +kernel))
          (.step (@RegistryStep.accept _ newViewer (by
              intro other known
              rw [Finset.mem_singleton.mp known]
              decide)) .done))))
  refine ⟨_, _, closes.reusing (run.reusing .start), ?_, by decide +kernel, by decide +kernel,
    by decide +kernel, by decide +kernel⟩
  rw [List.forall_mem_append]
  refine ⟨serialized, ?_⟩
  simp [Serialized]

/-- The task removes its own entry, and the next connection is entered after that. -/
theorem removesOwn_of_serialized_viewer :
    ∃ history state next final, ReusingRun history state ∧
      RegistryStep state (.removeHealth viewer) next ∧
      state.healthConnections["viewer"]? = some viewer.health ∧
      next.healthConnections["viewer"]? = none ∧ RemovesOwn state (.removeHealth viewer) next ∧
      RegistryStep next (.enterHealth newViewer) final ∧
      final.healthConnections["viewer"]? = some newViewer.health ∧
      RemovesOwn next (.enterHealth newViewer) final := by
  rcases exists_run_checked with ⟨history, state, run, serialized, current, registered, found, -⟩
  have other : newViewer ≠ viewer := by decide
  have stillRegistered : state.setPhase viewer .ended newViewer = some .registered :=
    (Function.update_of_ne other _ _).trans registered
  have removal : RegistryStep state (.removeHealth viewer) _ := .removeHealth current
  refine ⟨history, state, _, _, run, removal, found, ExtTreeMap.getElem?_erase_self,
    (removesOwn_of_serialized run).1 serialized _ _ removal, .enterHealth stillRegistered,
    ExtTreeMap.getElem?_insert_self, ?_⟩
  apply (removesOwn_of_serialized (run.step removal)).1
  · rw [List.forall_mem_append, List.forall_mem_singleton]
    refine ⟨serialized, ?_⟩
    simp [Serialized]
  · exact .enterHealth stillRegistered

/-- The viewer connects again after the task of its closed connection has
checked the entry, and before it removes it. -/
theorem closed_connection_removes_newer :
    ∃ history state next, ReusingRun history state ∧
      RegistryStep state (.removeHealth viewer) next ∧
      state.healthConnections["viewer"]? = some newViewer.health ∧
      newViewer ∉ state.closed ∧ next.healthConnections["viewer"]? = none ∧
      ¬ RemovesOwn state (.removeHealth viewer) next := by
  rcases exists_run_checked with ⟨history, checked, run, -, current, registered, -, isOpen⟩
  have other : viewer ≠ newViewer := by decide
  have stillCurrent : checked.setPhase newViewer .entered viewer = some .current :=
    (Function.update_of_ne other _ _).trans current
  have entering : RegistryStep checked (.enterHealth newViewer) _ := .enterHealth registered
  refine ⟨_, _, _, run.step entering, .removeHealth stillCurrent,
    ExtTreeMap.getElem?_insert_self, isOpen, ExtTreeMap.getElem?_erase_self, ?_⟩
  intro own
  have stableId := (own "viewer" newViewer.health ExtTreeMap.getElem?_insert_self
    ExtTreeMap.getElem?_erase_self).2
  exact absurd stableId (by decide)

end Irohsion.Server
