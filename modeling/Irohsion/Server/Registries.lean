import Irohsion.Foundation.OrderedMap
import Mathlib.Data.Finset.Basic
import Mathlib.Logic.Function.Basic

/-! # Connection registries

The accept tasks, `response_loop`, `health_loop` and the tasks of
`maintain_health_connection` share two maps. Each step is what one of them does
under one lock, one attempt to send, or a choice of the environment.
-/

namespace Irohsion.Server

open Std

/-- A connection of the transport. Distinct connections have distinct stable ids. -/
structure Connection where
  remote : String
  stableId : Nat
  deriving DecidableEq, Repr

structure HealthConnection where
  connection : Connection
  stableId : Nat
  deriving DecidableEq, Repr

abbrev ConnectionRegistry := ExtTreeMap String (ExtTreeMap Nat Connection)

abbrev HealthConnections := ExtTreeMap String HealthConnection

/-- The entry that is made for a connection in `health_connections`. -/
def Connection.health (connection : Connection) : HealthConnection :=
  ⟨connection, connection.stableId⟩

/-! ## Operations on the maps -/

def registerConnection (registry : ConnectionRegistry) (connection : Connection) :
    ConnectionRegistry :=
  let connections := registry[connection.remote]?.getD ∅
  registry.insert connection.remote (connections.insert connection.stableId connection)

/-- The registry without the given connections of a remote, which is dropped
with its last one. -/
def withoutConnections (registry : ConnectionRegistry) (remote : String)
    (stableIds : List Nat) : ConnectionRegistry :=
  match registry[remote]? with
  | none => registry
  | some connections =>
      let remaining := stableIds.foldl (fun connections => connections.erase) connections
      if remaining.isEmpty then registry.erase remote else registry.insert remote remaining

def removeConnectionIfCurrent (registry : ConnectionRegistry) (remote : String)
    (stableId : Nat) : ConnectionRegistry × Bool :=
  let remaining := withoutConnections registry remote [stableId]
  (remaining, remaining.contains remote)

/-- The removal at the end of one remote in `response_loop`. -/
def removeFailed (registry : ConnectionRegistry) (remote : String) (failed : List Nat) :
    ConnectionRegistry :=
  if failed.isEmpty then registry else withoutConnections registry remote failed

def isCurrentHealth (healthConnections : HealthConnections) (remote : String) (stableId : Nat) :
    Bool :=
  healthConnections[remote]?.any fun current => current.stableId == stableId

/-- The body of the last loop of `health_loop`. -/
def removeHealthIfCurrent (healthConnections : HealthConnections) (failed : String × Nat) :
    HealthConnections :=
  if isCurrentHealth healthConnections failed.1 failed.2 then healthConnections.erase failed.1
  else healthConnections

/-! ## The tasks -/

/-- How far the task of an accepted connection is. `reading` is its read loop;
`failed` and later follow an error of `read_datagram`. -/
inductive AcceptPhase
  | registered
  | entered
  | reading
  | failed
  | unregistered
  | current
  | ended
  deriving DecidableEq, Repr

/-- The accept task has registered the connection and its read loop has not ended. -/
def AcceptPhase.live : AcceptPhase → Bool
  | registered | entered | reading => true
  | failed | unregistered | current | ended => false

/-- `sending` tries the connections of one remote, `sent` follows a success. The
remotes are those still to be visited. -/
inductive ResponsePhase
  | receiving
  | routing (remotes : List String)
  | sending (remote : String) (attempts : List (Nat × Connection)) (failed : List Nat)
      (remotes : List String)
  | sent (remote : String) (failed : List Nat)
  deriving DecidableEq, Repr

inductive HealthPhase
  | waiting
  | sending (attempts : List (String × HealthConnection)) (failed : List (String × Nat))
  deriving DecidableEq, Repr

/-- The shared maps, the progress of the tasks and the state of the transport:
the connections that exist or existed, and those that are closed. -/
structure Registries where
  connections : ConnectionRegistry
  healthConnections : HealthConnections
  healthTargets : Finset String
  replyRoutes : List String
  phase : Connection → Option AcceptPhase
  response : ResponsePhase
  health : HealthPhase
  connecting : Finset String
  known : Finset Connection
  closed : Finset Connection

def Registries.initial : Registries where
  connections := ∅
  healthConnections := ∅
  healthTargets := ∅
  replyRoutes := []
  phase := fun _ => none
  response := .receiving
  health := .waiting
  connecting := ∅
  known := ∅
  closed := ∅

def Registries.setPhase (state : Registries) (connection : Connection) (phase : AcceptPhase) :
    Connection → Option AcceptPhase :=
  Function.update state.phase connection (some phase)

/-- A connection that the transport has not handed out before. -/
def Registries.Unused (state : Registries) (connection : Connection) : Prop :=
  ∀ other ∈ state.known, other.stableId ≠ connection.stableId

/-- The connections of a remote, the greatest stable id first. -/
def Registries.attempts (state : Registries) (remote : String) : List (Nat × Connection) :=
  (state.connections[remote]?.getD ∅).toList.reverse

inductive RegistryEvent
  | accept (connection : Connection)
  | enterHealth (connection : Connection)
  | addTarget (connection : Connection)
  | readFails (connection : Connection)
  | stop (connection : Connection)
  | unregister (connection : Connection)
  | checkHealth (connection : Connection)
  | removeHealth (connection : Connection)
  | close (connection : Connection)
  | setReplyRoutes (remotes : List String)
  | receive
  | leaveRoutes
  | visitRoute
  | sendResponse (connection : Connection) (succeeds : Bool)
  | pruneFailed
  | pruneSent
  | tick
  | sendHealth (connection : Connection) (succeeds : Bool)
  | pruneHealth
  | findAbsent (remote : String)
  | reconnect (connection : Connection)
  | reconnectFails (remote : String)
  deriving DecidableEq, Repr

/-- A datagram may fail to be sent on an open connection. Reading fails only on
a closed one; a read loop also stops when the reorder loop has ended. -/
inductive RegistryStep (state : Registries) : RegistryEvent → Registries → Prop
  | accept {connection : Connection} :
      state.Unused connection →
      RegistryStep state (.accept connection)
        { state with
          connections := registerConnection state.connections connection
          phase := state.setPhase connection .registered
          known := insert connection state.known }
  | enterHealth {connection : Connection} :
      state.phase connection = some .registered →
      RegistryStep state (.enterHealth connection)
        { state with
          healthConnections := state.healthConnections.insert connection.remote connection.health
          phase := state.setPhase connection .entered }
  | addTarget {connection : Connection} :
      state.phase connection = some .entered →
      RegistryStep state (.addTarget connection)
        { state with
          healthTargets := insert connection.remote state.healthTargets
          phase := state.setPhase connection .reading }
  | readFails {connection : Connection} :
      state.phase connection = some .reading →
      connection ∈ state.closed →
      RegistryStep state (.readFails connection)
        { state with phase := state.setPhase connection .failed }
  | stop {connection : Connection} :
      state.phase connection = some .reading →
      RegistryStep state (.stop connection)
        { state with phase := state.setPhase connection .ended }
  | unregister {connection : Connection} :
      state.phase connection = some .failed →
      RegistryStep state (.unregister connection)
        { state with
          connections := (removeConnectionIfCurrent state.connections connection.remote
            connection.stableId).1
          phase := state.setPhase connection .unregistered }
  | checkHealth {connection : Connection} :
      state.phase connection = some .unregistered →
      RegistryStep state (.checkHealth connection)
        { state with
          phase := state.setPhase connection
            (if isCurrentHealth state.healthConnections connection.remote connection.stableId then
              .current else .ended) }
  | removeHealth {connection : Connection} :
      state.phase connection = some .current →
      RegistryStep state (.removeHealth connection)
        { state with
          healthConnections := state.healthConnections.erase connection.remote
          phase := state.setPhase connection .ended }
  | close (connection : Connection) :
      RegistryStep state (.close connection)
        { state with closed := insert connection state.closed }
  | setReplyRoutes (remotes : List String) :
      RegistryStep state (.setReplyRoutes remotes) { state with replyRoutes := remotes }
  | receive :
      state.response = .receiving →
      RegistryStep state .receive { state with response := .routing state.replyRoutes }
  | leaveRoutes :
      state.response = .routing [] →
      RegistryStep state .leaveRoutes { state with response := .receiving }
  | visitRoute {remote : String} {remotes : List String} :
      state.response = .routing (remote :: remotes) →
      RegistryStep state .visitRoute
        { state with response := .sending remote (state.attempts remote) [] remotes }
  | sendResponse {remote : String} {stableId : Nat} {connection : Connection}
      {attempts : List (Nat × Connection)} {failed : List Nat} {remotes : List String}
      (succeeds : Bool) :
      state.response = .sending remote ((stableId, connection) :: attempts) failed remotes →
      RegistryStep state (.sendResponse connection succeeds)
        { state with
          response :=
            if succeeds then .sent remote failed
            else .sending remote attempts (failed ++ [stableId]) remotes }
  | pruneFailed {remote : String} {failed : List Nat} {remotes : List String} :
      state.response = .sending remote [] failed remotes →
      RegistryStep state .pruneFailed
        { state with
          connections := removeFailed state.connections remote failed
          response := .routing remotes }
  | pruneSent {remote : String} {failed : List Nat} :
      state.response = .sent remote failed →
      RegistryStep state .pruneSent
        { state with
          connections := removeFailed state.connections remote failed
          response := .receiving }
  | tick :
      state.health = .waiting →
      RegistryStep state .tick
        { state with
          health :=
            if state.healthConnections.isEmpty then .waiting
            else .sending state.healthConnections.toList [] }
  | sendHealth {endpointId : String} {entry : HealthConnection}
      {attempts : List (String × HealthConnection)} {failed : List (String × Nat)}
      (succeeds : Bool) :
      state.health = .sending ((endpointId, entry) :: attempts) failed →
      RegistryStep state (.sendHealth entry.connection succeeds)
        { state with
          health :=
            .sending attempts
              (if succeeds then failed else failed ++ [(endpointId, entry.stableId)]) }
  | pruneHealth {failed : List (String × Nat)} :
      state.health = .sending [] failed →
      RegistryStep state .pruneHealth
        { state with
          healthConnections := failed.foldl removeHealthIfCurrent state.healthConnections
          health := .waiting }
  | findAbsent {remote : String} :
      remote ∈ state.healthTargets →
      remote ∉ state.healthConnections →
      RegistryStep state (.findAbsent remote)
        { state with connecting := insert remote state.connecting }
  | reconnect {connection : Connection} :
      connection.remote ∈ state.connecting →
      state.Unused connection →
      RegistryStep state (.reconnect connection)
        { state with
          healthConnections := state.healthConnections.insert connection.remote connection.health
          connecting := state.connecting.erase connection.remote
          known := insert connection state.known }
  | reconnectFails {remote : String} :
      remote ∈ state.connecting →
      RegistryStep state (.reconnectFails remote)
        { state with connecting := state.connecting.erase remote }

/-- What any interleaving of the tasks can do, with the state before each step. -/
inductive RegistryRun : Registries → List (Registries × RegistryEvent) → Registries → Prop
  | done {state : Registries} : RegistryRun state [] state
  | step {state next final : Registries} {event : RegistryEvent}
      {history : List (Registries × RegistryEvent)} :
      RegistryStep state event next →
      RegistryRun next history final →
      RegistryRun state ((state, event) :: history) final

end Irohsion.Server
