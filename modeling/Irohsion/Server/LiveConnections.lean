import Irohsion.Server.Registries

/-! # Live connections stay registered

A registered connection leaves the registry only at the end of its own read loop
or after a datagram of `response_loop` failed on it, and an entry of
`health_connections` only when it is closed, replaced or failed itself.
-/

namespace Irohsion.Server

open Std

/-! ## One registry -/

/-- The connection is registered under its remote and its stable id. -/
def Registered (registry : ConnectionRegistry) (connection : Connection) : Prop :=
  ∃ connections : ExtTreeMap Nat Connection,
    registry[connection.remote]? = some connections ∧
      connections[connection.stableId]? = some connection

variable {registry : ConnectionRegistry} {connection other : Connection}

theorem registered_registerConnection (registry : ConnectionRegistry) (connection : Connection) :
    Registered (registerConnection registry connection) connection := by
  refine ⟨(registry[connection.remote]?.getD ∅).insert connection.stableId connection, ?_, ?_⟩
  · exact ExtTreeMap.getElem?_insert_self
  · exact ExtTreeMap.getElem?_insert_self

theorem Registered.registerConnection (registered : Registered registry connection)
    (different : other.stableId ≠ connection.stableId) :
    Registered (registerConnection registry other) connection := by
  rcases registered with ⟨connections, found, entry⟩
  by_cases same : other.remote = connection.remote
  · refine ⟨(registry[other.remote]?.getD ∅).insert other.stableId other, ?_, ?_⟩
    · rw [← same]
      exact ExtTreeMap.getElem?_insert_self
    · rw [same, found, Option.getD_some, OrderedMap.getElem?_insert_of_ne different, entry]
  · exact ⟨connections, (OrderedMap.getElem?_insert_of_ne same).trans found, entry⟩

theorem getElem?_foldl_erase {stableId : Nat} {stableIds : List Nat} (kept : stableId ∉ stableIds)
    (connections : ExtTreeMap Nat Connection) :
    (stableIds.foldl (fun connections => connections.erase) connections)[stableId]? =
      connections[stableId]? := by
  induction stableIds generalizing connections with
  | nil => rfl
  | cons first rest induction =>
      rw [List.mem_cons, not_or] at kept
      rw [List.foldl_cons, induction kept.2,
        OrderedMap.getElem?_erase_of_ne (fun same => kept.1 same.symm)]

theorem Registered.withoutConnections (registered : Registered registry connection)
    (remote : String) {stableIds : List Nat} (kept : connection.stableId ∉ stableIds) :
    Registered (withoutConnections registry remote stableIds) connection := by
  rcases registered with ⟨connections, found, entry⟩
  rw [Server.withoutConnections]
  by_cases same : remote = connection.remote
  · subst same
    rw [found]
    have still := (getElem?_foldl_erase kept connections).trans entry
    have nonempty : ¬ (stableIds.foldl (fun connections => connections.erase) connections).isEmpty =
        true := by
      intro empty
      rw [ExtTreeMap.isEmpty_iff.mp empty, ExtTreeMap.getElem?_empty] at still
      cases still
    dsimp only
    rw [if_neg nonempty]
    exact ⟨_, ExtTreeMap.getElem?_insert_self, still⟩
  · split
    · exact ⟨connections, found, entry⟩
    · dsimp only
      split
      · exact ⟨connections, (OrderedMap.getElem?_erase_of_ne same).trans found, entry⟩
      · exact ⟨connections, (OrderedMap.getElem?_insert_of_ne same).trans found, entry⟩

theorem Registered.removeFailed (registered : Registered registry connection) (remote : String)
    {failed : List Nat} (kept : connection.stableId ∉ failed) :
    Registered (removeFailed registry remote failed) connection := by
  rw [Server.removeFailed]
  split
  · exact registered
  · exact registered.withoutConnections remote kept

/-- Registering and removing connections adds no other entries. -/
theorem found_registerConnection {remote : String} {stableId : Nat}
    {connections : ExtTreeMap Nat Connection}
    (found : (registerConnection registry other)[remote]? = some connections)
    (entry : connections[stableId]? = some connection) :
    connection = other ∧ remote = other.remote ∧ stableId = other.stableId ∨
      ∃ earlier : ExtTreeMap Nat Connection, registry[remote]? = some earlier ∧
        earlier[stableId]? = some connection := by
  rcases OrderedMap.getElem?_insert_eq_some found with ⟨rfl, rfl⟩ | earlier
  · rcases OrderedMap.getElem?_insert_eq_some entry with ⟨rfl, rfl⟩ | before
    · exact Or.inl ⟨rfl, rfl, rfl⟩
    · right
      cases previous : registry[other.remote]? with
      | none =>
          rw [previous, Option.getD_none, ExtTreeMap.getElem?_empty] at before
          cases before
      | some connections =>
          rw [previous, Option.getD_some] at before
          exact ⟨connections, rfl, before⟩
  · exact Or.inr ⟨connections, earlier, entry⟩

theorem found_foldl_erase {stableIds : List Nat} {connections : ExtTreeMap Nat Connection}
    {stableId : Nat}
    (entry : (stableIds.foldl (fun connections => connections.erase) connections)[stableId]? =
      some connection) : connections[stableId]? = some connection := by
  induction stableIds generalizing connections with
  | nil => exact entry
  | cons first rest induction =>
      exact (OrderedMap.getElem?_erase_eq_some.mp (induction entry)).2

theorem found_withoutConnections {removed remote : String} {stableIds : List Nat} {stableId : Nat}
    {connections : ExtTreeMap Nat Connection}
    (found : (withoutConnections registry removed stableIds)[remote]? = some connections)
    (entry : connections[stableId]? = some connection) :
    ∃ earlier : ExtTreeMap Nat Connection, registry[remote]? = some earlier ∧
      earlier[stableId]? = some connection := by
  rw [withoutConnections] at found
  split at found
  · exact ⟨connections, found, entry⟩
  · rename_i previous current
    dsimp only at found
    split at found
    · exact ⟨connections, (OrderedMap.getElem?_erase_eq_some.mp found).2, entry⟩
    · rcases OrderedMap.getElem?_insert_eq_some found with ⟨rfl, rfl⟩ | earlier
      · exact ⟨previous, current, found_foldl_erase entry⟩
      · exact ⟨connections, earlier, entry⟩

theorem found_removeFailed {removed remote : String} {failed : List Nat} {stableId : Nat}
    {connections : ExtTreeMap Nat Connection}
    (found : (removeFailed registry removed failed)[remote]? = some connections)
    (entry : connections[stableId]? = some connection) :
    ∃ earlier : ExtTreeMap Nat Connection, registry[remote]? = some earlier ∧
      earlier[stableId]? = some connection := by
  rw [removeFailed] at found
  split at found
  · exact ⟨connections, found, entry⟩
  · exact found_withoutConnections found entry

theorem found_foldl_removeHealthIfCurrent {failed : List (String × Nat)}
    {entries : HealthConnections} {remote : String} {entry : HealthConnection}
    (found : (failed.foldl removeHealthIfCurrent entries)[remote]? = some entry) :
    entries[remote]? = some entry := by
  induction failed generalizing entries with
  | nil => exact found
  | cons first rest induction =>
      have earlier := induction found
      rw [removeHealthIfCurrent] at earlier
      split at earlier
      · exact (OrderedMap.getElem?_erase_eq_some.mp earlier).2
      · exact earlier

/-! ## Every entry names a known connection -/

/-- The stable ids that `response_loop` is about to remove. -/
def ResponsePhase.failed : ResponsePhase → List Nat
  | receiving | routing _ => []
  | sending _ _ failed _ | sent _ failed => failed

/-- The connections that `response_loop` has yet to try for a remote. -/
def ResponsePhase.attempts : ResponsePhase → List (Nat × Connection)
  | sending _ attempts _ _ => attempts
  | receiving | routing _ | sent _ _ => []

def HealthPhase.failed : HealthPhase → List (String × Nat)
  | waiting => []
  | sending _ failed => failed

def HealthPhase.attempts : HealthPhase → List (String × HealthConnection)
  | waiting => []
  | sending attempts _ => attempts

variable {state next : Registries} {event : RegistryEvent}

/-- The tasks and the maps only hold connections that the transport handed out,
under their own stable ids, and those are distinct. -/
structure Sound (state : Registries) : Prop where
  unique : ∀ {first second}, first ∈ state.known → second ∈ state.known →
    first.stableId = second.stableId → first = second
  phased : ∀ {connection phase}, state.phase connection = some phase → connection ∈ state.known
  registered : ∀ {remote : String} {stableId : Nat} {connections : ExtTreeMap Nat Connection}
    {connection : Connection}, state.connections[remote]? = some connections →
    connections[stableId]? = some connection →
    connection ∈ state.known ∧ stableId = connection.stableId
  attempts : ∀ attempt ∈ state.response.attempts,
    attempt.2 ∈ state.known ∧ attempt.1 = attempt.2.stableId
  failed : ∀ stableId ∈ state.response.failed,
    ∃ connection ∈ state.known, connection.stableId = stableId
  entered : ∀ {remote : String} {entry : HealthConnection},
    state.healthConnections[remote]? = some entry →
    entry.connection ∈ state.known ∧ entry = entry.connection.health
  healthAttempts : ∀ attempt ∈ state.health.attempts,
    attempt.2.connection ∈ state.known ∧ attempt.2 = attempt.2.connection.health
  healthFailed : ∀ failed ∈ state.health.failed,
    ∃ connection ∈ state.known, connection.stableId = failed.2

theorem setPhase_eq_some {phase set : AcceptPhase}
    (found : state.setPhase other set connection = some phase) :
    connection = other ∧ phase = set ∨
      connection ≠ other ∧ state.phase connection = some phase := by
  rw [Registries.setPhase] at found
  by_cases same : connection = other
  · subst same
    rw [Function.update_self] at found
    exact Or.inl ⟨rfl, (Option.some.inj found).symm⟩
  · rw [Function.update_of_ne same] at found
    exact Or.inr ⟨same, found⟩

theorem Sound.initial : Sound .initial where
  unique first := absurd first (Finset.notMem_empty _)
  phased found := nomatch found
  registered found := by simp [Registries.initial] at found
  attempts _ member := absurd member List.not_mem_nil
  failed _ member := absurd member List.not_mem_nil
  entered found := by simp [Registries.initial] at found
  healthAttempts _ member := absurd member List.not_mem_nil
  healthFailed _ member := absurd member List.not_mem_nil

/-! ### What one step adds -/

namespace RegistryStep

theorem known_subset (step : RegistryStep state event next) : state.known ⊆ next.known := by
  cases step with
  | accept _ | reconnect _ _ => exact Finset.subset_insert _ _
  | _ => exact Finset.Subset.refl _

theorem unused (step : RegistryStep state event next) (known : connection ∈ next.known) :
    connection ∈ state.known ∨ state.Unused connection := by
  cases step with
  | accept unused | reconnect _ unused =>
      rcases Finset.mem_insert.mp known with rfl | known
      · exact Or.inr unused
      · exact Or.inl known
  | _ => exact Or.inl known

theorem unique (step : RegistryStep state event next) (sound : Sound state)
    {first second : Connection} (knownFirst : first ∈ next.known)
    (knownSecond : second ∈ next.known) (same : first.stableId = second.stableId) :
    first = second := by
  cases step with
  | @accept added unused | @reconnect added _ unused =>
      rcases Finset.mem_insert.mp knownFirst with isFirst | earlierFirst
      · rcases Finset.mem_insert.mp knownSecond with isSecond | earlierSecond
        · exact isFirst.trans isSecond.symm
        · exact absurd (isFirst ▸ same.symm) (unused second earlierSecond)
      · rcases Finset.mem_insert.mp knownSecond with isSecond | earlierSecond
        · exact absurd (isSecond ▸ same) (unused first earlierFirst)
        · exact sound.unique earlierFirst earlierSecond same
  | _ => exact sound.unique knownFirst knownSecond same

theorem phased (step : RegistryStep state event next) (sound : Sound state) {phase : AcceptPhase}
    (found : next.phase connection = some phase) : connection ∈ next.known := by
  cases step with
  | accept _ =>
      rcases setPhase_eq_some found with ⟨rfl, -⟩ | ⟨-, earlier⟩
      · exact Finset.mem_insert_self _ _
      · exact Finset.mem_insert_of_mem (sound.phased earlier)
  | enterHealth inPhase | addTarget inPhase | readFails inPhase _ | stop inPhase
  | unregister inPhase | checkHealth inPhase | removeHealth inPhase =>
      rcases setPhase_eq_some found with ⟨rfl, -⟩ | ⟨-, earlier⟩
      · exact sound.phased inPhase
      · exact sound.phased earlier
  | reconnect _ _ => exact Finset.mem_insert_of_mem (sound.phased found)
  | _ => exact sound.phased found

theorem registered (step : RegistryStep state event next) (sound : Sound state)
    {remote : String} {stableId : Nat} {connections : ExtTreeMap Nat Connection}
    (found : next.connections[remote]? = some connections)
    (entry : connections[stableId]? = some connection) :
    connection ∈ next.known ∧ stableId = connection.stableId := by
  have kept : (∃ earlier : ExtTreeMap Nat Connection, state.connections[remote]? = some earlier ∧
      earlier[stableId]? = some connection) →
      connection ∈ next.known ∧ stableId = connection.stableId := by
    rintro ⟨earlier, found, entry⟩
    rcases sound.registered found entry with ⟨known, same⟩
    exact ⟨step.known_subset known, same⟩
  cases step with
  | accept _ =>
      rcases found_registerConnection found entry with ⟨rfl, -, same⟩ | earlier
      · exact ⟨Finset.mem_insert_self _ _, same⟩
      · exact kept earlier
  | unregister _ => exact kept (found_withoutConnections found entry)
  | pruneFailed _ | pruneSent _ => exact kept (found_removeFailed found entry)
  | _ => exact kept ⟨connections, found, entry⟩

theorem attempts (step : RegistryStep state event next) (sound : Sound state) :
    ∀ attempt ∈ next.response.attempts,
      attempt.2 ∈ next.known ∧ attempt.1 = attempt.2.stableId := by
  intro attempt member
  have kept : attempt ∈ state.response.attempts →
      attempt.2 ∈ next.known ∧ attempt.1 = attempt.2.stableId := by
    intro earlier
    rcases sound.attempts attempt earlier with ⟨known, same⟩
    exact ⟨step.known_subset known, same⟩
  cases step with
  | @visitRoute remote _ _ =>
      rw [ResponsePhase.attempts, Registries.attempts, List.mem_reverse] at member
      have entry := ExtTreeMap.mem_toList_iff_getElem?_eq_some.mp member
      cases found : state.connections[remote]? with
      | none => simp [found] at entry
      | some connections =>
          rw [found, Option.getD_some] at entry
          exact sound.registered found entry
  | sendResponse succeeds sending =>
      rw [sending] at kept
      cases succeeds with
      | true => cases member
      | false => exact kept (List.mem_cons_of_mem _ member)
  | receive _ | leaveRoutes _ | pruneFailed _ | pruneSent _ => cases member
  | _ => exact kept member

theorem failed (step : RegistryStep state event next) (sound : Sound state) {stableId : Nat}
    (member : stableId ∈ next.response.failed) :
    stableId ∈ state.response.failed ∨
      ∃ connection ∈ state.known, connection.stableId = stableId ∧
        event = .sendResponse connection false := by
  cases step with
  | visitRoute _ | receive _ | leaveRoutes _ | pruneFailed _ | pruneSent _ => cases member
  | @sendResponse _ tried connection _ _ _ succeeds sending =>
      have head := sound.attempts (tried, connection) (by rw [sending]; exact List.mem_cons_self)
      rw [sending]
      cases succeeds with
      | true => exact Or.inl member
      | false =>
          rcases List.mem_append.mp member with earlier | last
          · exact Or.inl earlier
          · rw [List.mem_singleton.mp last]
            exact Or.inr ⟨connection, head.1, head.2.symm, rfl⟩
  | _ => exact Or.inl member

theorem entered (step : RegistryStep state event next) (sound : Sound state) {remote : String}
    {entry : HealthConnection} (found : next.healthConnections[remote]? = some entry) :
    entry.connection ∈ next.known ∧ entry = entry.connection.health := by
  have kept : state.healthConnections[remote]? = some entry →
      entry.connection ∈ next.known ∧ entry = entry.connection.health := by
    intro earlier
    rcases sound.entered earlier with ⟨known, same⟩
    exact ⟨step.known_subset known, same⟩
  cases step with
  | enterHealth inPhase =>
      rcases OrderedMap.getElem?_insert_eq_some found with ⟨-, rfl⟩ | earlier
      · exact ⟨sound.phased inPhase, rfl⟩
      · exact kept earlier
  | reconnect _ _ =>
      rcases OrderedMap.getElem?_insert_eq_some found with ⟨-, rfl⟩ | earlier
      · exact ⟨Finset.mem_insert_self _ _, rfl⟩
      · exact kept earlier
  | removeHealth _ => exact kept (OrderedMap.getElem?_erase_eq_some.mp found).2
  | pruneHealth _ => exact kept (found_foldl_removeHealthIfCurrent found)
  | _ => exact kept found

theorem healthAttempts (step : RegistryStep state event next) (sound : Sound state) :
    ∀ attempt ∈ next.health.attempts,
      attempt.2.connection ∈ next.known ∧ attempt.2 = attempt.2.connection.health := by
  intro attempt member
  have kept : attempt ∈ state.health.attempts →
      attempt.2.connection ∈ next.known ∧ attempt.2 = attempt.2.connection.health := by
    intro earlier
    rcases sound.healthAttempts attempt earlier with ⟨known, same⟩
    exact ⟨step.known_subset known, same⟩
  cases step with
  | tick _ =>
      dsimp only at member
      split at member
      · cases member
      · exact sound.entered (ExtTreeMap.mem_toList_iff_getElem?_eq_some.mp member)
  | sendHealth succeeds sending =>
      rw [sending] at kept
      exact kept (List.mem_cons_of_mem _ member)
  | pruneHealth _ => cases member
  | _ => exact kept member

theorem healthFailed (step : RegistryStep state event next) (sound : Sound state)
    {failed : String × Nat} (member : failed ∈ next.health.failed) :
    failed ∈ state.health.failed ∨
      ∃ connection ∈ state.known, connection.stableId = failed.2 ∧
        event = .sendHealth connection false := by
  cases step with
  | tick _ =>
      dsimp only at member
      split at member <;> cases member
  | pruneHealth _ => cases member
  | @sendHealth endpointId entry _ _ succeeds sending =>
      have head := sound.healthAttempts (endpointId, entry)
        (by rw [sending]; exact List.mem_cons_self)
      rw [sending]
      cases succeeds with
      | true => exact Or.inl member
      | false =>
          rcases List.mem_append.mp member with earlier | last
          · exact Or.inl earlier
          · rw [List.mem_singleton.mp last]
            exact Or.inr ⟨entry.connection, head.1,
              (congrArg HealthConnection.stableId head.2).symm, rfl⟩
  | _ => exact Or.inl member

end RegistryStep

theorem Sound.step (sound : Sound state) (step : RegistryStep state event next) : Sound next where
  unique := step.unique sound
  phased := step.phased sound
  registered := step.registered sound
  attempts := step.attempts sound
  failed stableId member := by
    rcases step.failed sound member with earlier | ⟨connection, known, same, -⟩
    · rcases sound.failed stableId earlier with ⟨connection, known, same⟩
      exact ⟨connection, step.known_subset known, same⟩
    · exact ⟨connection, step.known_subset known, same⟩
  entered := step.entered sound
  healthAttempts := step.healthAttempts sound
  healthFailed failed member := by
    rcases step.healthFailed sound member with earlier | ⟨connection, known, same, -⟩
    · rcases sound.healthFailed failed earlier with ⟨connection, known, same⟩
      exact ⟨connection, step.known_subset known, same⟩
    · exact ⟨connection, step.known_subset known, same⟩

variable {history earlier later : List (Registries × RegistryEvent)}
variable {start middle final : Registries}

theorem RegistryRun.invariant {Invariant : Registries → Prop}
    {Allowed : Registries → RegistryEvent → Prop}
    (keeps : ∀ {state next event}, Invariant state → RegistryStep state event next →
      Allowed state event → Invariant next)
    (run : RegistryRun start history final) (allowed : ∀ entry ∈ history, Allowed entry.1 entry.2)
    (holds : Invariant start) : Invariant final := by
  induction run with
  | done => exact holds
  | step step _ induction =>
      rw [List.forall_mem_cons] at allowed
      exact induction allowed.2 (keeps holds step allowed.1)

/-! ## The connection registry -/

/-- The connection is registered while its read loop runs, and none of the ids
that `response_loop` is about to remove is its own. -/
structure KeptLive (connection : Connection) (state : Registries) : Prop where
  sound : Sound state
  registered : ∀ {phase}, state.phase connection = some phase → phase.live = true →
    Registered state.connections connection
  unfailed : connection ∈ state.known → connection.stableId ∉ state.response.failed

theorem KeptLive.initial (connection : Connection) : KeptLive connection .initial where
  sound := .initial
  registered found := nomatch found
  unfailed _ := List.not_mem_nil

theorem KeptLive.unfailed_step (kept : KeptLive connection state)
    (step : RegistryStep state event next) (succeeds : event ≠ .sendResponse connection false)
    (known : connection ∈ next.known) : connection.stableId ∉ next.response.failed := by
  intro failed
  rcases step.unused known with known | unused
  · rcases step.failed kept.sound failed with earlier | ⟨other, otherKnown, same, sent⟩
    · exact kept.unfailed known earlier
    · rw [kept.sound.unique otherKnown known same] at sent
      exact succeeds sent
  · rcases step.failed kept.sound failed with earlier | ⟨other, otherKnown, same, -⟩
    · rcases kept.sound.failed _ earlier with ⟨other, otherKnown, same⟩
      exact unused other otherKnown same
    · exact unused other otherKnown same

theorem KeptLive.registered_step (kept : KeptLive connection state)
    (step : RegistryStep state event next) {phase : AcceptPhase}
    (found : next.phase connection = some phase) (live : phase.live = true) :
    Registered next.connections connection := by
  cases step with
  | @accept other unused =>
      rcases setPhase_eq_some found with ⟨rfl, -⟩ | ⟨-, earlier⟩
      · exact registered_registerConnection _ _
      · apply (kept.registered earlier live).registerConnection
        exact (unused connection (kept.sound.phased earlier)).symm
  | enterHealth inPhase | addTarget inPhase =>
      rcases setPhase_eq_some found with ⟨rfl, -⟩ | ⟨-, earlier⟩
      · exact kept.registered inPhase rfl
      · exact kept.registered earlier live
  | readFails _ _ | stop _ | removeHealth _ =>
      rcases setPhase_eq_some found with ⟨-, rfl⟩ | ⟨-, earlier⟩
      · cases live
      · exact kept.registered earlier live
  | checkHealth _ =>
      rcases setPhase_eq_some found with ⟨-, rfl⟩ | ⟨-, earlier⟩
      · split at live <;> cases live
      · exact kept.registered earlier live
  | @unregister other inPhase =>
      rcases setPhase_eq_some found with ⟨-, rfl⟩ | ⟨different, earlier⟩
      · cases live
      · apply (kept.registered earlier live).withoutConnections
        rw [List.mem_singleton]
        intro same
        exact different
          (kept.sound.unique (kept.sound.phased earlier) (kept.sound.phased inPhase) same)
  | pruneFailed sending | pruneSent sending =>
      have unfailed := kept.unfailed (kept.sound.phased found)
      rw [sending] at unfailed
      exact (kept.registered found live).removeFailed _ unfailed
  | _ => exact kept.registered found live

theorem KeptLive.step (kept : KeptLive connection state) (step : RegistryStep state event next)
    (succeeds : event ≠ .sendResponse connection false) : KeptLive connection next where
  sound := kept.sound.step step
  registered := kept.registered_step step
  unfailed := kept.unfailed_step step succeeds

/-! ## Health connections -/

/-- No health connection is entered for a remote between the check and the
removal that a closing connection of this remote makes. -/
def Serialized (state : Registries) (event : RegistryEvent) : Prop :=
  ∀ entering closing, event = .enterHealth entering ∨ event = .reconnect entering →
    state.phase closing = some .current → closing.remote ≠ entering.remote

/-- No health connection of this remote is entered in between. -/
def SerializedAt (remote : String) (state : Registries) (event : RegistryEvent) : Prop :=
  ∀ entering closing, event = .enterHealth entering ∨ event = .reconnect entering →
    entering.remote = remote → state.phase closing = some .current → closing.remote ≠ remote

theorem Serialized.at (serialized : Serialized state event) (remote : String) :
    SerializedAt remote state event := by
  rintro entering closing enters rfl current
  exact serialized entering closing enters current

/-- What a closing connection of the remote is about to remove is its own entry,
and it is closed. -/
structure ClosesOwn (remote : String) (state : Registries) : Prop where
  sound : Sound state
  own : ∀ {closing : Connection} {entry : HealthConnection},
    closing.remote = remote → state.phase closing = some .current →
    state.healthConnections[closing.remote]? = some entry → entry = closing.health
  closed : ∀ {closing : Connection} {phase : AcceptPhase}, state.phase closing = some phase →
    phase = .failed ∨ phase = .unregistered ∨ phase = .current → closing ∈ state.closed

theorem ClosesOwn.initial (remote : String) : ClosesOwn remote .initial where
  sound := .initial
  own _ found := nomatch found
  closed found := nomatch found

theorem eq_health_of_current (sound : Sound state) {remote : String} {entry : HealthConnection}
    (known : connection ∈ state.known)
    (found : state.healthConnections[remote]? = some entry)
    (current : isCurrentHealth state.healthConnections remote connection.stableId = true) :
    entry = connection.health := by
  rw [isCurrentHealth, found, Option.any_some, beq_iff_eq] at current
  rcases sound.entered found with ⟨entryKnown, same⟩
  have same' : entry.connection.stableId = connection.stableId := by
    rw [same] at current
    exact current
  rw [same, sound.unique entryKnown known same']

theorem ClosesOwn.own_step {remote : String} (closesOwn : ClosesOwn remote state)
    (step : RegistryStep state event next)
    (serialized : SerializedAt remote state event) {entry : HealthConnection}
    (isRemote : connection.remote = remote)
    (current : next.phase connection = some .current)
    (found : next.healthConnections[connection.remote]? = some entry) :
    entry = connection.health := by
  cases step with
  | @enterHealth entering _ =>
      rcases setPhase_eq_some current with ⟨-, impossible⟩ | ⟨-, earlier⟩
      · cases impossible
      · have different : entering.remote ≠ connection.remote := fun same =>
          serialized entering connection (Or.inl rfl) (same.trans isRemote) earlier isRemote
        rw [OrderedMap.getElem?_insert_of_ne different] at found
        exact closesOwn.own isRemote earlier found
  | @reconnect entering _ _ =>
      have different : entering.remote ≠ connection.remote := fun same =>
        serialized entering connection (Or.inr rfl) (same.trans isRemote) current isRemote
      rw [OrderedMap.getElem?_insert_of_ne different] at found
      exact closesOwn.own isRemote current found
  | @checkHealth closing unregistered =>
      rcases setPhase_eq_some current with ⟨rfl, checked⟩ | ⟨-, earlier⟩
      · split at checked
        · rename_i isCurrent
          exact eq_health_of_current closesOwn.sound (closesOwn.sound.phased unregistered) found
            isCurrent
        · cases checked
      · exact closesOwn.own isRemote earlier found
  | removeHealth _ =>
      rcases setPhase_eq_some current with ⟨-, impossible⟩ | ⟨-, earlier⟩
      · cases impossible
      · exact closesOwn.own isRemote earlier (OrderedMap.getElem?_erase_eq_some.mp found).2
  | accept _ | addTarget _ | readFails _ _ | stop _ | unregister _ =>
      rcases setPhase_eq_some current with ⟨-, impossible⟩ | ⟨-, earlier⟩
      · cases impossible
      · exact closesOwn.own isRemote earlier found
  | pruneHealth _ => exact closesOwn.own isRemote current (found_foldl_removeHealthIfCurrent found)
  | _ => exact closesOwn.own isRemote current found

theorem ClosesOwn.closed_step {remote : String} (closesOwn : ClosesOwn remote state)
    (step : RegistryStep state event next)
    {phase : AcceptPhase} (found : next.phase connection = some phase)
    (closing : phase = .failed ∨ phase = .unregistered ∨ phase = .current) :
    connection ∈ next.closed := by
  cases step with
  | readFails _ closed =>
      rcases setPhase_eq_some found with ⟨rfl, -⟩ | ⟨-, earlier⟩
      · exact closed
      · exact closesOwn.closed earlier closing
  | unregister inPhase =>
      rcases setPhase_eq_some found with ⟨rfl, -⟩ | ⟨-, earlier⟩
      · exact closesOwn.closed inPhase (Or.inl rfl)
      · exact closesOwn.closed earlier closing
  | checkHealth inPhase =>
      rcases setPhase_eq_some found with ⟨rfl, -⟩ | ⟨-, earlier⟩
      · exact closesOwn.closed inPhase (Or.inr (Or.inl rfl))
      · exact closesOwn.closed earlier closing
  | accept _ | enterHealth _ | addTarget _ | stop _ | removeHealth _ =>
      rcases setPhase_eq_some found with ⟨-, rfl⟩ | ⟨-, earlier⟩
      · simp at closing
      · exact closesOwn.closed earlier closing
  | close _ => exact Finset.mem_insert_of_mem (closesOwn.closed found closing)
  | _ => exact closesOwn.closed found closing

theorem ClosesOwn.step {remote : String} (closesOwn : ClosesOwn remote state)
    (step : RegistryStep state event next) (serialized : SerializedAt remote state event) :
    ClosesOwn remote next where
  sound := closesOwn.sound.step step
  own := closesOwn.own_step step serialized
  closed := closesOwn.closed_step step

/-- None of the entries that `health_loop` is about to remove is the connection's. -/
structure HealthUnfailed (connection : Connection) (state : Registries) : Prop where
  sound : Sound state
  unfailed : connection ∈ state.known → ∀ failed ∈ state.health.failed,
    failed.2 ≠ connection.stableId

theorem HealthUnfailed.initial (connection : Connection) : HealthUnfailed connection .initial where
  sound := .initial
  unfailed _ _ member := absurd member List.not_mem_nil

theorem HealthUnfailed.step (kept : HealthUnfailed connection state)
    (step : RegistryStep state event next) (succeeds : event ≠ .sendHealth connection false) :
    HealthUnfailed connection next where
  sound := kept.sound.step step
  unfailed known failed member isOwn := by
    rcases step.unused known with known | unused
    · rcases step.healthFailed kept.sound member with earlier | ⟨other, otherKnown, same, sent⟩
      · exact kept.unfailed known failed earlier isOwn
      · rw [kept.sound.unique otherKnown known (same.trans isOwn)] at sent
        exact succeeds sent
    · rcases step.healthFailed kept.sound member with earlier | ⟨other, otherKnown, same, -⟩
      · rcases kept.sound.healthFailed failed earlier with ⟨other, otherKnown, same⟩
        exact unused other otherKnown (same.trans isOwn)
      · exact unused other otherKnown (same.trans isOwn)

/-- The connection is the health connection of its remote. -/
structure KeptEntered (connection : Connection) (state : Registries) : Prop where
  closesOwn : ClosesOwn connection.remote state
  health : HealthUnfailed connection state
  entered : state.healthConnections[connection.remote]? = some connection.health

theorem getElem?_foldl_removeHealthIfCurrent {failed : List (String × Nat)}
    {entries : HealthConnections}
    (entered : entries[connection.remote]? = some connection.health)
    (unfailed : ∀ entry ∈ failed, entry.2 ≠ connection.stableId) :
    (failed.foldl removeHealthIfCurrent entries)[connection.remote]? = some connection.health := by
  induction failed generalizing entries with
  | nil => exact entered
  | cons first rest induction =>
      rw [List.forall_mem_cons] at unfailed
      apply induction _ unfailed.2
      rw [removeHealthIfCurrent]
      split
      · rename_i current
        have different : first.1 ≠ connection.remote := by
          intro same
          rw [isCurrentHealth, same, entered, Option.any_some, beq_iff_eq] at current
          exact unfailed.1 current.symm
        rw [OrderedMap.getElem?_erase_of_ne different]
        exact entered
      · exact entered

theorem KeptEntered.step (kept : KeptEntered connection state)
    (step : RegistryStep state event next)
    (serialized : SerializedAt connection.remote state event)
    (isOpen : connection ∉ state.closed) (succeeds : event ≠ .sendHealth connection false)
    (unreplaced : ∀ other : Connection, other.remote = connection.remote →
      event ≠ .enterHealth other ∧ event ≠ .reconnect other) : KeptEntered connection next where
  closesOwn := kept.closesOwn.step step serialized
  health := kept.health.step step succeeds
  entered := by
    cases step with
    | @enterHealth other _ =>
        have different : other.remote ≠ connection.remote :=
          fun same => (unreplaced other same).1 rfl
        exact (OrderedMap.getElem?_insert_of_ne different).trans kept.entered
    | @reconnect other _ _ =>
        have different : other.remote ≠ connection.remote :=
          fun same => (unreplaced other same).2 rfl
        exact (OrderedMap.getElem?_insert_of_ne different).trans kept.entered
    | @removeHealth closing current =>
        have different : closing.remote ≠ connection.remote := by
          intro same
          have own := kept.closesOwn.own same current (same ▸ kept.entered)
          have isConnection : closing = connection :=
            (congrArg HealthConnection.connection own).symm
          exact isOpen (isConnection ▸ kept.closesOwn.closed current (Or.inr (Or.inr rfl)))
        exact (OrderedMap.getElem?_erase_of_ne different).trans kept.entered
    | pruneHealth sending =>
        apply getElem?_foldl_removeHealthIfCurrent kept.entered
        have known := (kept.closesOwn.sound.entered kept.entered).1
        have unfailed := kept.health.unfailed known
        rw [sending] at unfailed
        exact unfailed
    | _ => exact kept.entered

theorem RegistryRun.append (entered : RegistryRun start earlier middle)
    (run : RegistryRun middle later final) : RegistryRun start (earlier ++ later) final := by
  induction entered with
  | done => exact run
  | step step _ induction => exact .step step (induction run)

/-! ## Whole runs -/

def viewer : Connection := ⟨"viewer", 1⟩

/-- The task of one accepted connection reads its datagrams. -/
def readingRegistries : Registries where
  connections := registerConnection ∅ viewer
  healthConnections := (∅ : HealthConnections).insert viewer.remote viewer.health
  healthTargets := {viewer.remote}
  replyRoutes := []
  phase := Function.update (Function.update (Function.update (fun _ => none) viewer
    (some .registered)) viewer (some .entered)) viewer (some .reading)
  response := .receiving
  health := .waiting
  connecting := ∅
  known := {viewer}
  closed := ∅

/-- What a connection does until its read loop starts. -/
theorem exists_run_readingRegistries :
    ∃ history, RegistryRun .initial history readingRegistries ∧
      (∀ entry ∈ history, Serialized entry.1 entry.2) ∧
      ∀ entry ∈ history, entry.2 ≠ .sendResponse viewer false ∧
        entry.2 ≠ .sendHealth viewer false := by
  have unused : Registries.initial.Unused viewer :=
    fun _ member => absurd member (Finset.notMem_empty _)
  refine ⟨_, .step (.accept unused) (.step (.enterHealth (by decide +kernel))
    (.step (.addTarget (by decide +kernel)) .done)), ?_, by simp⟩
  rw [List.forall_mem_cons, List.forall_mem_cons, List.forall_mem_singleton]
  refine ⟨?_, ?_, ?_⟩
  · intro _ _ event
    simp at event
  · intro _ _ _ current
    rcases setPhase_eq_some current with ⟨-, impossible⟩ | ⟨-, impossible⟩
    · cases impossible
    · cases impossible
  · intro _ _ event
    simp at event

end Irohsion.Server
