import Mathlib.Logic.Basic

/-! # Path connections

The live connection of a path and the request for a new one. Each operation is
what the source does under one lock of `live`. Stable ids and endpoints are
numbers, and connecting is left to the transport.
-/

namespace Irohsion.Transport

structure SocketAddrV4 where
  ip : UInt32
  port : UInt16
  deriving DecidableEq, Repr

structure InterfaceBinding where
  name : String
  displayName : String
  bindAddr : SocketAddrV4
  deriving DecidableEq, Repr

structure LivePath where
  binding : InterfaceBinding
  stableId : Nat
  endpoint : Nat
  deriving DecidableEq, Repr

structure PathConnection where
  live : Option LivePath
  reconnectRequested : Bool
  deriving DecidableEq, Repr

namespace PathConnection

def pending : PathConnection := ⟨none, true⟩

/-- The path that `connect_path_with_secret` returns. -/
def connected (live : LivePath) : PathConnection := ⟨some live, false⟩

def connectionId (path : PathConnection) : Option Nat := path.live.map LivePath.stableId

def isConnected (path : PathConnection) : Bool := path.live.isSome

def requestReconnect (path : PathConnection) : PathConnection :=
  { path with reconnectRequested := true }

/-- `should_clear` of `mark_failed`. -/
def isFailed (connectionId : Option Nat) (path : PathConnection) : Bool :=
  match connectionId, path.live with
  | some connectionId, some live => live.stableId == connectionId
  | none, some _ => true
  | _, none => false

/-- `should_clear` of `mark_interface_changed`. -/
def isElsewhere (binding : InterfaceBinding) (path : PathConnection) : Bool :=
  path.live.any fun live => live.binding.bindAddr.ip != binding.bindAddr.ip

/-- The endpoint that is left to be closed, if the path is to be cleared. -/
def clearIf (shouldClear : Bool) (path : PathConnection) : Option Nat × PathConnection :=
  if shouldClear then
    (path.live.map LivePath.endpoint, { path.requestReconnect with live := none })
  else (none, path)

def markFailed (connectionId : Option Nat) (path : PathConnection) :
    Option Nat × PathConnection :=
  path.clearIf (path.isFailed connectionId)

def markInterfaceChanged (binding : InterfaceBinding) (path : PathConnection) :
    Option Nat × PathConnection :=
  path.clearIf (path.isElsewhere binding)

/-- What `reconnect` does once the transport has connected, and the old path. -/
def install (live : LivePath) (path : PathConnection) : Option LivePath × PathConnection :=
  (path.live, { path with live := some live, reconnectRequested := false })

/-- The reconnect loop goes on to `reconnect`. -/
def willReconnect (path : PathConnection) : Bool :=
  path.reconnectRequested && !path.isConnected

variable {path : PathConnection}

/-- Only a failure of no connection in particular, or of this one, clears it. -/
theorem isFailed_iff {connectionId : Option Nat} {live : LivePath} (held : path.live = some live) :
    path.isFailed connectionId = true ↔
      connectionId = none ∨ connectionId = some live.stableId := by
  cases connectionId with
  | none => simp [isFailed, held]
  | some connectionId =>
      have compared : path.isFailed (some connectionId) = (live.stableId == connectionId) := by
        simp only [isFailed, held]
      rw [compared, beq_iff_eq]
      constructor
      · intro same
        exact Or.inr (congrArg some same.symm)
      · rintro (impossible | same)
        · cases impossible
        · exact (Option.some.inj same).symm

theorem isFailed_of_dead (dead : path.live = none) (connectionId : Option Nat) :
    path.isFailed connectionId = false := by
  cases connectionId <;> simp only [isFailed, dead]

theorem isFailed_clearIf {connectionId : Option Nat} (other : path.isFailed connectionId = false)
    (shouldClear : Bool) : (path.clearIf shouldClear).2.isFailed connectionId = false := by
  cases shouldClear with
  | false => exact other
  | true => exact isFailed_of_dead rfl connectionId

theorem markFailed_of_other {connectionId : Option Nat}
    (other : path.isFailed connectionId = false) : path.markFailed connectionId = (none, path) := by
  rw [markFailed, other]
  rfl

theorem markFailed_live {connectionId : Option Nat} (failed : path.isFailed connectionId = true) :
    (path.markFailed connectionId).2.live = none := by
  rw [markFailed, failed]
  rfl

/-! ## A path without a connection asks for one -/

def Requesting (path : PathConnection) : Prop :=
  path.live = none → path.reconnectRequested = true

theorem Requesting.pending : Requesting pending := fun _ => rfl

theorem Requesting.connected (live : LivePath) : Requesting (connected live) :=
  fun impossible => nomatch impossible

theorem Requesting.requestReconnect (path : PathConnection) : Requesting path.requestReconnect :=
  fun _ => rfl

theorem Requesting.clearIf (requesting : path.Requesting) (shouldClear : Bool) :
    Requesting (path.clearIf shouldClear).2 := by
  cases shouldClear with
  | false => exact requesting
  | true => exact fun _ => rfl

theorem Requesting.install (live : LivePath) (path : PathConnection) :
    Requesting (path.install live).2 :=
  fun impossible => nomatch impossible

theorem Requesting.willReconnect (requesting : path.Requesting) (dead : path.live = none) :
    path.willReconnect = true := by
  rw [PathConnection.willReconnect, requesting dead, isConnected, dead]
  rfl

end PathConnection

end Irohsion.Transport
