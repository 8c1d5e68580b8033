import Irohsion.Transport.PathConnection
import Mathlib.Logic.Function.Basic
import Mathlib.Tactic.Push

/-! # Failed sends and fresh connections

The calls of `send_on_path` and `send_fec_packet` on one path, in any
interleaving with the tasks that fail, watch and reconnect it. A call reads the
connection id, sends and reports a failure under three separate locks.
-/

namespace Irohsion.Client

open Transport

/-! ## Steps -/

/-- How far a call is. It keeps the id that it has seen and, after a failure,
how many connections had been installed when the send failed. -/
inductive SendPhase
  | idle
  | connected
  | identified (connectionId : Option Nat)
  | sending (connectionId : Option Nat) (live : LivePath)
  | failed (connectionId : Option Nat) (installs : Nat)
  deriving DecidableEq, Repr

/-- The path, the number of connections that were installed on it, and its calls.
The live connection, if there is one, was installed last. -/
structure PathSends where
  path : Transport.PathConnection
  installs : Nat
  phase : Nat → SendPhase

def PathSends.setPhase (state : PathSends) (call : Nat) (phase : SendPhase) : Nat → SendPhase :=
  Function.update state.phase call phase

inductive SendEvent
  | findConnected (call : Nat)
  | identify (call : Nat)
  | send (call : Nat)
  | finish (call : Nat) (succeeds : Bool)
  | markFailed (call : Nat)
  | failsElsewhere (connectionId : Option Nat)
  | changeInterface (binding : InterfaceBinding)
  | requestReconnect
  | install (live : LivePath)
  deriving DecidableEq, Repr

/-- Only `send_fec_packet` first looks whether the path is connected. The other
tasks may report any connection as failed. -/
inductive SendStep (state : PathSends) : SendEvent → PathSends → Prop
  | findConnected {call : Nat} :
      state.phase call = .idle →
      state.path.isConnected = true →
      SendStep state (.findConnected call) { state with phase := state.setPhase call .connected }
  | identify {call : Nat} :
      state.phase call = .idle ∨ state.phase call = .connected →
      SendStep state (.identify call)
        { state with phase := state.setPhase call (.identified state.path.connectionId) }
  | sendNowhere {call : Nat} {connectionId : Option Nat} :
      state.phase call = .identified connectionId →
      state.path.live = none →
      SendStep state (.send call)
        { state with phase := state.setPhase call (.failed connectionId state.installs) }
  | send {call : Nat} {connectionId : Option Nat} {live : LivePath} :
      state.phase call = .identified connectionId →
      state.path.live = some live →
      SendStep state (.send call)
        { state with phase := state.setPhase call (.sending connectionId live) }
  | finish {call : Nat} {connectionId : Option Nat} {live : LivePath} (succeeds : Bool) :
      state.phase call = .sending connectionId live →
      SendStep state (.finish call succeeds)
        { state with
          phase := state.setPhase call
            (if succeeds then .idle else .failed connectionId state.installs) }
  | markFailed {call : Nat} {connectionId : Option Nat} {installs : Nat} :
      state.phase call = .failed connectionId installs →
      SendStep state (.markFailed call)
        { state with
          path := (state.path.markFailed connectionId).2
          phase := state.setPhase call .idle }
  | failsElsewhere (connectionId : Option Nat) :
      SendStep state (.failsElsewhere connectionId)
        { state with path := (state.path.markFailed connectionId).2 }
  | changeInterface (binding : InterfaceBinding) :
      SendStep state (.changeInterface binding)
        { state with path := (state.path.markInterfaceChanged binding).2 }
  | requestReconnect :
      SendStep state .requestReconnect { state with path := state.path.requestReconnect }
  | install (live : LivePath) :
      SendStep state (.install live)
        { state with path := (state.path.install live).2, installs := state.installs + 1 }

/-- Runs from a path without calls, with the state before each step. -/
inductive SendRun (path : Transport.PathConnection) :
    List (PathSends × SendEvent) → PathSends → Prop
  | start : SendRun path [] ⟨path, 0, fun _ => .idle⟩
  | step {state next : PathSends} {event : SendEvent} {history : List (PathSends × SendEvent)} :
      SendRun path history state →
      SendStep state event next →
      SendRun path (history ++ [(state, event)]) next

variable {path : Transport.PathConnection} {state next : PathSends} {event : SendEvent}
variable {history : List (PathSends × SendEvent)} {call : Nat} {connectionId : Option Nat}
variable {installs : Nat}

/-! ## What a failure may remove -/

/-- A call that reports a failed send leaves a connection alone that was
installed after the send failed. -/
def KeepsFresh (state : PathSends) (event : SendEvent) (next : PathSends) : Prop :=
  ∀ call connectionId installs, event = .markFailed call →
    state.phase call = .failed connectionId installs → installs < state.installs →
    next.path.live = state.path.live

/-- No connection is installed that a call with a failed send would report as
failed: the call has seen no connection, or one with the same stable id. -/
def Unconfused (state : PathSends) (event : SendEvent) : Prop :=
  ∀ live call connectionId installs, event = .install live →
    state.phase call = .failed connectionId installs →
    connectionId ≠ none ∧ connectionId ≠ some live.stableId

/-- No send has failed later than now. -/
def PastFailures (state : PathSends) : Prop :=
  ∀ call connectionId installs, state.phase call = .failed connectionId installs →
    installs ≤ state.installs

/-- A call with a failed send would not report a connection installed since. -/
def Settled (state : PathSends) : Prop :=
  ∀ call connectionId installs, state.phase call = .failed connectionId installs →
    installs < state.installs → state.path.isFailed connectionId = false

theorem setPhase_eq_failed {phase : SendPhase} {other : Nat}
    (found : state.setPhase other phase call = .failed connectionId installs) :
    call = other ∧ phase = .failed connectionId installs ∨
      state.phase call = .failed connectionId installs := by
  rw [PathSends.setPhase] at found
  by_cases same : call = other
  · subst same
    rw [Function.update_self] at found
    exact Or.inl ⟨rfl, found⟩
  · rw [Function.update_of_ne same] at found
    exact Or.inr found

theorem PastFailures.step (past : PastFailures state) (step : SendStep state event next) :
    PastFailures next := by
  intro call connectionId installs found
  cases step with
  | sendNowhere _ _ =>
      rcases setPhase_eq_failed found with ⟨-, same⟩ | earlier
      · cases same
        exact Nat.le_refl _
      · exact past _ _ _ earlier
  | finish succeeds _ =>
      rcases setPhase_eq_failed found with ⟨-, same⟩ | earlier
      · cases succeeds with
        | true => cases same
        | false =>
            cases same
            exact Nat.le_refl _
      · exact past _ _ _ earlier
  | findConnected _ _ | identify _ | send _ _ | markFailed _ =>
      rcases setPhase_eq_failed found with ⟨-, impossible⟩ | earlier
      · cases impossible
      · exact past _ _ _ earlier
  | install _ => exact Nat.le_succ_of_le (past _ _ _ found)
  | failsElsewhere _ | changeInterface _ | requestReconnect => exact past _ _ _ found

theorem Settled.step (settled : Settled state) (step : SendStep state event next)
    (unconfused : Unconfused state event) : Settled next := by
  intro call connectionId installs found since
  cases step with
  | sendNowhere _ _ =>
      rcases setPhase_eq_failed found with ⟨-, same⟩ | earlier
      · cases same
        exact absurd since (Nat.lt_irrefl _)
      · exact settled _ _ _ earlier since
  | finish succeeds _ =>
      rcases setPhase_eq_failed found with ⟨-, same⟩ | earlier
      · cases succeeds with
        | true => cases same
        | false =>
            cases same
            exact absurd since (Nat.lt_irrefl _)
      · exact settled _ _ _ earlier since
  | findConnected _ _ | identify _ | send _ _ =>
      rcases setPhase_eq_failed found with ⟨-, impossible⟩ | earlier
      · cases impossible
      · exact settled _ _ _ earlier since
  | markFailed _ =>
      rcases setPhase_eq_failed found with ⟨-, impossible⟩ | earlier
      · cases impossible
      · exact PathConnection.isFailed_clearIf (settled _ _ _ earlier since) _
  | failsElsewhere _ | changeInterface _ =>
      exact PathConnection.isFailed_clearIf (settled _ _ _ found since) _
  | requestReconnect => exact settled _ _ _ found since
  | install live =>
      rw [Bool.eq_false_iff, Ne, PathConnection.isFailed_iff rfl, not_or]
      exact unconfused live call connectionId installs rfl found

theorem SendRun.past (run : SendRun path history state) : PastFailures state := by
  induction run with
  | start => exact fun _ _ _ impossible => nomatch impossible
  | step _ step induction => exact induction.step step

theorem SendRun.settled (run : SendRun path history state)
    (unconfused : ∀ entry ∈ history, Unconfused entry.1 entry.2) : Settled state := by
  induction run with
  | start => exact fun _ _ _ impossible => nomatch impossible
  | step _ step induction =>
      rw [List.forall_mem_append, List.forall_mem_singleton] at unconfused
      exact (induction unconfused.1).step step unconfused.2

theorem Settled.keepsFresh (settled : Settled state) (step : SendStep state event next) :
    KeepsFresh state event next := by
  rintro call connectionId installs rfl found since
  cases step with
  | markFailed inPhase =>
      cases found.symm.trans inPhase
      rw [PathConnection.markFailed_of_other (settled _ _ _ found since)]

/-- A confused call takes the connection that is installed, if it comes next. -/
theorem SendStep.removes_fresh (step : SendStep state event next) (past : PastFailures state)
    (confused : ¬ Unconfused state event) :
    ∃ call after, SendStep next (.markFailed call) after ∧
      ¬ KeepsFresh next (.markFailed call) after := by
  rw [Unconfused] at confused
  push Not at confused
  rcases confused with ⟨live, call, connectionId, installs, rfl, found, takes⟩
  cases step with
  | install _ =>
      refine ⟨call, _, .markFailed found, ?_⟩
      intro keeps
      have kept := keeps call connectionId installs rfl found (Nat.lt_succ_of_le (past _ _ _ found))
      have failed : ((state.path.install live).2).isFailed connectionId = true := by
        rw [PathConnection.isFailed_iff rfl]
        by_cases unseen : connectionId = none
        · exact Or.inl unseen
        · exact Or.inr (takes unseen)
      rw [PathConnection.markFailed_live failed] at kept
      cases kept

/-- As long as nothing is installed that a pending report would be confused
with, a report leaves fresh connections alone. What is installed against this
can be removed by the next step. -/
theorem keepsFresh_of_unconfused (run : SendRun path history state) :
    ((∀ entry ∈ history, Unconfused entry.1 entry.2) →
      ∀ event next, SendStep state event next → KeepsFresh state event next) ∧
    (∀ event next, SendStep state event next → ¬ Unconfused state event →
      ∃ call after, SendStep next (.markFailed call) after ∧
        ¬ KeepsFresh next (.markFailed call) after) := by
  constructor
  · intro unconfused event next step
    exact (run.settled unconfused).keepsFresh step
  · intro event next step confused
    exact step.removes_fresh run.past confused

/-! ## A path that reconnects -/

/-- The connection that a reconnect installs. -/
def reconnected : LivePath := ⟨⟨"eth0", "eth0", ⟨0, 0⟩⟩, 1, 1⟩

/-- A call finds no connection, before the reconnect installs one. -/
theorem exists_run_deadPath :
    ∃ history state, SendRun .pending history state ∧
      (∀ entry ∈ history, Unconfused entry.1 entry.2) ∧
      state.path = .pending ∧ state.installs = 0 ∧ state.phase 0 = .failed none 0 := by
  refine ⟨_, _, .step (.step .start (@SendStep.identify _ 0 (Or.inl rfl)))
    (@SendStep.sendNowhere _ 0 none rfl rfl), ?_, rfl, rfl, rfl⟩
  simp [Unconfused]

/-- The connection that the next reconnect installs. -/
def reconnectedAgain : LivePath := { reconnected with stableId := 2, endpoint := 2 }

/-- A call sees the first connection and its send fails. Another task reports the
failure as well, so that a reconnect installs the next connection. -/
theorem exists_run_reconnectedAgain :
    ∃ history state, SendRun .pending history state ∧
      (∀ entry ∈ history, Unconfused entry.1 entry.2) ∧
      state.path.live = some reconnectedAgain ∧ state.installs = 2 ∧
      state.phase 0 = .failed (some 1) 1 := by
  refine ⟨_, _, .step (.step (.step (.step (.step (.step .start (.install reconnected))
    (@SendStep.identify _ 0 (Or.inl rfl))) (@SendStep.send _ 0 (some 1) reconnected rfl rfl))
    (@SendStep.finish _ 0 (some 1) reconnected false rfl)) (.failsElsewhere (some 1)))
    (.install reconnectedAgain), ?_, rfl, rfl, rfl⟩
  rw [List.forall_mem_append, List.forall_mem_singleton]
  constructor
  · simp [Unconfused]
  · intro live call connectionId installs installed failed
    cases installed
    rcases setPhase_eq_failed failed with ⟨-, same⟩ | earlier
    · cases same
      decide
    · rcases setPhase_eq_failed earlier with ⟨-, impossible⟩ | earlier
      · cases impossible
      · rcases setPhase_eq_failed earlier with ⟨-, impossible⟩ | impossible
        · cases impossible
        · cases impossible

/-- The report of the call leaves the next connection alone. -/
theorem keepsFresh_of_unconfused_reconnectedAgain :
    ∃ history state next, SendRun .pending history state ∧
      SendStep state (.markFailed 0) next ∧ state.phase 0 = .failed (some 1) 1 ∧
      1 < state.installs ∧ state.path.live = some reconnectedAgain ∧
      KeepsFresh state (.markFailed 0) next ∧ next.path.live = some reconnectedAgain := by
  rcases exists_run_reconnectedAgain with ⟨history, state, run, unconfused, live, count, failed⟩
  have since : 1 < state.installs := by
    rw [count]
    decide
  have keeps := (keepsFresh_of_unconfused run).1 unconfused _ _ (.markFailed failed)
  exact ⟨history, state, _, run, .markFailed failed, failed, since, live, keeps,
    (keeps 0 (some 1) 1 rfl failed since).trans live⟩

/-- The call has seen no connection, so that its report takes the fresh one. -/
theorem failed_send_removes_fresh :
    ∃ history state next, SendRun .pending history state ∧
      SendStep state (.markFailed 0) next ∧ state.path.live = some reconnected ∧
      state.phase 0 = .failed none 0 ∧ 0 < state.installs ∧ next.path.live = none ∧
      ¬ KeepsFresh state (.markFailed 0) next := by
  rcases exists_run_deadPath with ⟨history, state, run, -, -, count, failed⟩
  refine ⟨_, _, _, run.step (.install reconnected), .markFailed failed, rfl, failed,
    Nat.succ_pos _, rfl, ?_⟩
  intro keeps
  have kept := keeps 0 none 0 rfl failed (Nat.succ_pos _)
  cases kept

end Irohsion.Client
