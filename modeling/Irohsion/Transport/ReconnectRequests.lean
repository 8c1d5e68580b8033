import Irohsion.Transport.PathConnection

/-! # Requests for a reconnect

The operations on a path in their single accesses. The flag is set and cleared
while the lock of `live` is held, in several steps, and set without the lock at
any time. What a section does as a whole is an operation of `PathConnection`.
-/

namespace Irohsion.Transport

open PathConnection

/-! ## Sections and steps -/

/-- What the task that holds the lock has yet to do. -/
inductive Section
  | markFailed (connectionId : Option Nat)
  | markInterfaceChanged (binding : InterfaceBinding)
  | request
  | take
  | install (live : LivePath)
  | clearRequest
  | release
  deriving DecidableEq, Repr

/-- A path with the section of the task that holds its lock, if one does. -/
structure LockedPath where
  path : PathConnection
  holder : Option Section
  deriving DecidableEq, Repr

/-- The next access of each section. -/
def Section.next (path : PathConnection) : Section → LockedPath
  | .markFailed connectionId =>
      ⟨path, some (if path.isFailed connectionId then .request else .release)⟩
  | .markInterfaceChanged binding =>
      ⟨path, some (if path.isElsewhere binding then .request else .release)⟩
  | .request => ⟨path.requestReconnect, some .take⟩
  | .take => ⟨{ path with live := none }, some .release⟩
  | .install live => ⟨{ path with live := some live }, some .clearRequest⟩
  | .clearRequest => ⟨{ path with reconnectRequested := false }, some .release⟩
  | .release => ⟨path, none⟩

/-- The sections with which a task takes the lock. -/
def Section.Starts : Section → Prop
  | .markFailed _ | .markInterfaceChanged _ | .install _ => True
  | .request | .take | .clearRequest | .release => False

/-- One access by any of the tasks. A reconnect that fails never takes the lock. -/
inductive LockStep : LockedPath → LockedPath → Prop
  | lock {path : PathConnection} {first : Section} :
      first.Starts → LockStep ⟨path, none⟩ ⟨path, some first⟩
  | access {path : PathConnection} {holds : Section} :
      LockStep ⟨path, some holds⟩ (holds.next path)
  | request {path : PathConnection} {holder : Option Section} :
      LockStep ⟨path, holder⟩ ⟨path.requestReconnect, holder⟩
  | reconnectFails {state : LockedPath} : LockStep state state

/-- Runs from a new path, which is without a connection or connected. -/
inductive LockRun : LockedPath → Prop
  | pending : LockRun ⟨.pending, none⟩
  | connected (live : LivePath) : LockRun ⟨.connected live, none⟩
  | step {state next : LockedPath} : LockRun state → LockStep state next → LockRun next

/-! ## Sections as operations -/

/-- The path once the rest of the section is done. -/
def Section.finish (path : PathConnection) : Section → PathConnection
  | .markFailed connectionId => (path.markFailed connectionId).2
  | .markInterfaceChanged binding => (path.markInterfaceChanged binding).2
  | .request => { path.requestReconnect with live := none }
  | .take => { path with live := none }
  | .install live => (path.install live).2
  | .clearRequest => { path with reconnectRequested := false }
  | .release => path

/-- The path as if the lock were held for one moment only. -/
def LockedPath.settled (state : LockedPath) : PathConnection :=
  match state.holder with
  | none => state.path
  | some holds => holds.finish state.path

/-- What an operation does to the path. -/
inductive Operation : PathConnection → PathConnection → Prop
  | markFailed (connectionId : Option Nat) {path : PathConnection} :
      Operation path (path.markFailed connectionId).2
  | markInterfaceChanged (binding : InterfaceBinding) {path : PathConnection} :
      Operation path (path.markInterfaceChanged binding).2
  | install (live : LivePath) {path : PathConnection} : Operation path (path.install live).2
  | requestReconnect {path : PathConnection} : Operation path path.requestReconnect

/-- An access goes on with the section and leaves what it comes to. -/
theorem Section.settled_next (path : PathConnection) (holds : Section) :
    (holds.next path).settled = holds.finish path := by
  cases holds with
  | markFailed connectionId =>
      rw [next, LockedPath.settled, finish, PathConnection.markFailed, clearIf]
      cases path.isFailed connectionId <;> rfl
  | markInterfaceChanged binding =>
      rw [next, LockedPath.settled, finish, PathConnection.markInterfaceChanged, clearIf]
      cases path.isElsewhere binding <;> rfl
  | request | take | install _ | clearRequest | release => rfl

/-- A section that removes the connection or installs one overwrites the flag.
Any other one leaves a request made meanwhile. -/
theorem Section.finish_requestReconnect (path : PathConnection) (holds : Section) :
    holds.finish path.requestReconnect = holds.finish path ∨
      holds.finish path.requestReconnect = (holds.finish path).requestReconnect := by
  cases holds with
  | markFailed connectionId =>
      have same : path.requestReconnect.isFailed connectionId = path.isFailed connectionId := rfl
      rw [finish, finish, PathConnection.markFailed, PathConnection.markFailed, same]
      cases path.isFailed connectionId with
      | true => exact Or.inl rfl
      | false => exact Or.inr rfl
  | markInterfaceChanged binding =>
      have same : path.requestReconnect.isElsewhere binding = path.isElsewhere binding := rfl
      rw [finish, finish, PathConnection.markInterfaceChanged,
        PathConnection.markInterfaceChanged, same]
      cases path.isElsewhere binding with
      | true => exact Or.inl rfl
      | false => exact Or.inr rfl
  | request | install _ | clearRequest => exact Or.inl rfl
  | take | release => exact Or.inr rfl

theorem Section.operation_of_starts {holds : Section} (starts : holds.Starts)
    (path : PathConnection) : Operation path (holds.finish path) := by
  cases holds with
  | markFailed connectionId => exact .markFailed connectionId
  | markInterfaceChanged binding => exact .markInterfaceChanged binding
  | install live => exact .install live
  | request | take | clearRequest | release => exact absurd starts id

/-- Each access is an operation at one moment, or nothing. -/
theorem LockStep.settled {state next : LockedPath} (step : LockStep state next) :
    next.settled = state.settled ∨ Operation state.settled next.settled := by
  cases step with
  | @lock path first starts => exact Or.inr (first.operation_of_starts starts path)
  | @access path holds => exact Or.inl (holds.settled_next path)
  | @request path holder =>
      cases holder with
      | none => exact Or.inr .requestReconnect
      | some holds =>
          rcases holds.finish_requestReconnect path with same | requested
          · exact Or.inl same
          · right
            rw [LockedPath.settled, LockedPath.settled]
            dsimp only
            rw [requested]
            exact .requestReconnect
  | reconnectFails => exact Or.inl rfl

/-! ## A request is never lost -/

theorem Operation.requesting {path after : PathConnection} (operation : Operation path after)
    (requesting : path.Requesting) : after.Requesting := by
  cases operation with
  | markFailed _ | markInterfaceChanged _ => exact requesting.clearIf _
  | install live => exact .install live path
  | requestReconnect => exact .requestReconnect path

theorem LockRun.requesting {state : LockedPath} (run : LockRun state) :
    state.settled.Requesting := by
  induction run with
  | pending => exact .pending
  | connected live => exact .connected live
  | step _ step induction =>
      rcases step.settled with same | operation
      · rw [same]
        exact induction
      · exact operation.requesting induction

/-- Whenever the lock is free and the path has no connection, a reconnect is
requested, so that the reconnect loop goes on to it. -/
theorem reconnect_requested_of_dead {state : LockedPath} (run : LockRun state)
    (free : state.holder = none) (dead : state.path.live = none) :
    state.path.reconnectRequested = true ∧ state.path.willReconnect = true := by
  have requesting := run.requesting
  rw [LockedPath.settled, free] at requesting
  exact ⟨requesting dead, requesting.willReconnect dead⟩

/-- A failure is reported while a reconnect has the lock, and takes the lock next. -/
theorem reconnect_requested_of_dead_failed :
    ∃ state, LockRun state ∧ state.path.live = none ∧ state.path.reconnectRequested = true := by
  let live : LivePath := ⟨⟨"wifi", "wlan0", ⟨0, 0⟩⟩, 1, 1⟩
  have installed : LockRun ⟨(PathConnection.pending.install live).2, none⟩ := by
    have locked := LockRun.pending.step (@LockStep.lock _ (.install live) trivial)
    exact ((locked.step .access).step .access).step .access
  have failed : LockRun ⟨((PathConnection.pending.install live).2.markFailed none).2, none⟩ := by
    have locked := installed.step (@LockStep.lock _ (.markFailed none) trivial)
    exact (((locked.step .access).step .access).step .access).step .access
  exact ⟨_, failed, rfl, (reconnect_requested_of_dead failed rfl rfl).1⟩

end Irohsion.Transport
