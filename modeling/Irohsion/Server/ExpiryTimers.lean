import Irohsion.Server.AdvanceCalls
import Irohsion.Server.RestartRuns

/-! # The timer of the loop

Every round waits for a frame or for its timer, and the timer starts again with
every round. While data is pending, a frame that adds nothing restarts the timer
without advancing the window.
-/

namespace Irohsion.Server

open Protocol Std

/-- How long a round waits while data is pending. -/
def ReorderConfig.expiryInterval (config : ReorderConfig) : Duration :=
  match config.repairRequestInterval with
  | none => config.maxReorderDelay
  | some interval => min interval config.maxReorderDelay

def timeoutDuration (config : ReorderConfig) (state : ReorderState) : Duration :=
  if state.hasPendingState then config.expiryInterval else config.flowIdleReset

/-- Rounds from a state entered at the time `since` to one entered at `last`: a
frame arrives before the timer is due or at that moment, and a timeout happens
exactly when it is due. -/
inductive TimedRun (config : ReorderConfig) :
    Instant → ReorderState → List TimedInput → Instant → ReorderState → Prop
  | done {since : Instant} {state : ReorderState} : TimedRun config since state [] since state
  | round {since last : Instant} {state next final : ReorderState} {timed : TimedInput}
      {rest : List TimedInput} :
      since ≤ timed.now →
      timed.now ≤ since + timeoutDuration config state →
      (timed.input = .timeout → timed.now = since + timeoutDuration config state) →
      reorderStep config state timed = some next →
      TimedRun config timed.now next rest last final →
      TimedRun config since state (timed :: rest) last final

/-- The frame is classified as late or as a duplicate, by the state before it. -/
def Discarded (state : ReorderState) : ReceivedFrame → Prop
  | .packet packet =>
      if packet.header.sequence < state.nextSeq then
        packet.connectionId ∈ state.flowConnections ∨
          (state.restartDetector.observe packet.header.sequence state.nextSeq).2 = false
      else Discards packet state
  | .fec _ => False

variable {config : ReorderConfig} {now since last : Instant} {timed : TimedInput}
variable {state final : ReorderState}

theorem packetTarget_of_not_discarded {packet : ReceivedPacket} (consistent : Consistent state)
    (active : state.initialized = true) (adds : ¬ Discarded state (.packet packet)) :
    ∃ target, packetTarget now packet state = some target := by
  by_cases behind : packet.header.sequence < state.nextSeq
  · rw [Discarded, if_pos behind, not_or, Bool.not_eq_false] at adds
    rcases adds with ⟨stranger, confirmed⟩
    have outcome := admit_stranger active behind stranger
    rw [confirmed, if_pos rfl] at outcome
    apply exists_packetTarget outcome (.restartFlow packet _)
    exact not_discards_restartFlow packet _
  · rw [Discarded, if_neg behind] at adds
    have outcome := admit_ahead active (Nat.le_of_not_lt behind)
    exact exists_packetTarget outcome (consistent.toWellFormed.joined packet) adds

theorem Consistent.active_of_pending (consistent : Consistent state)
    (pending : state.hasPendingState = true) : state.initialized = true := by
  cases active : state.initialized with
  | true => rfl
  | false =>
      have buffered := consistent.idle_buffered active
      have seen := consistent.toWellFormed.seen_empty buffered
      simp [ReorderState.hasPendingState, buffered, consistent.idle_fragments active, seen]
        at pending

/-- While data is pending, a frame that adds something and every timeout advance
the window. -/
theorem advanceTarget_of_pending (consistent : Consistent state)
    (pending : state.hasPendingState = true)
    (adds : ∀ frame, timed.input = .frame frame → ¬ Discarded state frame) :
    ∃ target, advanceTarget state timed = some target := by
  have active := consistent.active_of_pending pending
  rcases timed with ⟨now, (packet | fec) | -⟩
  · exact packetTarget_of_not_discarded consistent active (adds _ rfl)
  · exact ⟨_, if_pos active⟩
  · exact ⟨_, if_pos ⟨active, pending⟩⟩

/-! ## Intervals with pending data -/

/-- Before every round and after the last one data is pending. -/
def AlwaysPending (config : ReorderConfig) (state : ReorderState) (rounds : List TimedInput) :
    Prop :=
  ∀ earlier later current, rounds = earlier ++ later →
    earlier.foldlM (reorderStep config) state = some current → current.hasPendingState = true

/-- Some round advances the window. -/
def Advances (config : ReorderConfig) (state : ReorderState) (rounds : List TimedInput) : Prop :=
  ∃ earlier timed later current target, rounds = earlier ++ timed :: later ∧
    earlier.foldlM (reorderStep config) state = some current ∧
    advanceTarget current timed = some target

/-- The rounds of a time interval that starts at or after the moment `since` of
the round before, and ends before the timer is due again. Data is pending throughout. -/
structure PendingInterval (config : ReorderConfig) (opens closes since : Instant)
    (state : ReorderState) (rounds : List TimedInput) : Prop where
  entered : since ≤ opens
  inside : ∀ timed ∈ rounds, opens < timed.now ∧ timed.now ≤ closes
  ran : ∃ last final, TimedRun config since state rounds last final ∧
    closes < last + timeoutDuration config final
  pending : AlwaysPending config state rounds

/-- Some frame that arrives is not discarded. -/
def AddsSomething (config : ReorderConfig) (state : ReorderState) (rounds : List TimedInput) :
    Prop :=
  ∃ earlier timed later current frame, rounds = earlier ++ timed :: later ∧
    earlier.foldlM (reorderStep config) state = some current ∧ timed.input = .frame frame ∧
    ¬ Discarded current frame

/-- No frame arrives for one expiry interval after some round. -/
def FallsQuiet (config : ReorderConfig) (closes since : Instant) (rounds : List TimedInput) :
    Prop :=
  ∃ quiet, (quiet = since ∨ ∃ timed ∈ rounds, timed.now = quiet) ∧
    quiet + config.expiryInterval ≤ closes ∧
    ∀ timed ∈ rounds, timed.input ≠ .timeout →
      ¬ (quiet < timed.now ∧ timed.now ≤ quiet + config.expiryInterval)

theorem AlwaysPending.nil (pending : state.hasPendingState = true) :
    AlwaysPending config state [] := by
  intro earlier later current split ran
  rcases List.append_eq_nil_iff.mp split.symm with ⟨rfl, -⟩
  cases ran
  exact pending

theorem AlwaysPending.cons {rest : List TimedInput} {next : ReorderState}
    (first : state.hasPendingState = true) (stepped : reorderStep config state timed = some next)
    (pending : AlwaysPending config next rest) : AlwaysPending config state (timed :: rest) := by
  intro earlier later current split ran
  rcases earlier with _ | ⟨opening, earlier⟩
  · cases ran
    exact first
  · rcases List.cons.inj split with ⟨rfl, others⟩
    rw [foldlM_reorderStep_cons stepped] at ran
    exact pending earlier later current others ran

theorem AlwaysPending.head {rounds : List TimedInput}
    (pending : AlwaysPending config state rounds) : state.hasPendingState = true :=
  pending [] rounds state rfl rfl

theorem AlwaysPending.tail {rest : List TimedInput} {next : ReorderState}
    (pending : AlwaysPending config state (timed :: rest))
    (stepped : reorderStep config state timed = some next) : AlwaysPending config next rest := by
  intro earlier later current split ran
  apply pending (timed :: earlier) later current
  · rw [split, List.cons_append]
  · exact (foldlM_reorderStep_cons stepped earlier).trans ran

theorem Advances.cons {rest : List TimedInput} {next : ReorderState}
    (stepped : reorderStep config state timed = some next) (advances : Advances config next rest) :
    Advances config state (timed :: rest) := by
  rcases advances with ⟨earlier, later, others, current, target, split, ran, called⟩
  refine ⟨timed :: earlier, later, others, current, target, ?_,
    (foldlM_reorderStep_cons stepped earlier).trans ran, called⟩
  rw [split, List.cons_append]

theorem timeoutDuration_of_pending (pending : state.hasPendingState = true) :
    timeoutDuration config state = config.expiryInterval :=
  if_pos pending

/-- The timer is due before the interval closes, and no frame restarts it. -/
theorem TimedRun.advances_of_quiet {rounds : List TimedInput} {closes quiet : Instant}
    (run : TimedRun config since state rounds last final)
    (waits : closes < last + timeoutDuration config final)
    (due : quiet + config.expiryInterval ≤ closes) (consistent : Consistent state)
    (pending : AlwaysPending config state rounds)
    (start : quiet = since ∨ ∃ timed ∈ rounds, timed.now = quiet)
    (still : ∀ timed ∈ rounds, timed.input ≠ .timeout →
      ¬ (quiet < timed.now ∧ timed.now ≤ quiet + config.expiryInterval)) :
    Advances config state rounds := by
  induction run with
  | done =>
      rw [timeoutDuration_of_pending pending.head] at waits
      rcases start with rfl | ⟨_, member, _⟩
      · exact absurd waits (Nat.not_lt.mpr due)
      · cases member
  | @round since last state next final timed rest later inTime _ stepped run induction =>
      rw [timeoutDuration_of_pending pending.head] at inTime
      by_cases expired : timed.input = .timeout
      · have adds : ∀ frame, timed.input = .frame frame → ¬ Discarded state frame := by
          intro frame received
          cases expired.symm.trans received
        rcases advanceTarget_of_pending consistent pending.head adds with ⟨target, called⟩
        exact ⟨[], timed, rest, state, target, rfl, rfl, called⟩
      · apply Advances.cons stepped
        apply induction waits (consistent.reorderStep stepped) (pending.tail stepped)
        · rcases start with rfl | ⟨other, member, rfl⟩
          · have unmoved := still timed List.mem_cons_self expired
            left
            by_contra different
            exact unmoved ⟨Nat.lt_of_le_of_ne later different, inTime⟩
          · rcases List.mem_cons.mp member with rfl | member
            · exact Or.inl rfl
            · exact Or.inr ⟨other, member, rfl⟩
        · exact fun other member => still other (List.mem_cons_of_mem _ member)

theorem TimedRun.foldlM {rounds : List TimedInput}
    (run : TimedRun config since state rounds last final) :
    rounds.foldlM (reorderStep config) state = some final := by
  induction run with
  | done => rfl
  | round _ _ _ stepped _ induction =>
      exact (foldlM_reorderStep_cons stepped _).trans induction

/-- In an interval throughout which data is pending the window is advanced,
unless all frames that arrive are discarded and none stays away for one expiry interval. -/
theorem pendingInterval_advances {inputs rounds : List TimedInput} {opens closes : Instant}
    (reached : TimedRun config 0 .initial inputs since state)
    (interval : PendingInterval config opens closes since state rounds)
    (progress : AddsSomething config state rounds ∨ FallsQuiet config closes since rounds) :
    Advances config state rounds := by
  have reachable : reorderLoop config inputs = some state := reached.foldlM
  have consistent := (reorderLoop_stuck reachable).1
  rcases progress with ⟨earlier, timed, later, current, frame, split, ran, received, adds⟩ |
    ⟨quiet, start, due, still⟩
  · have currentConsistent := (foldlM_reorderStep_induction (fun _ _ _ => trivial) consistent
      trivial ran).1
    have pending := interval.pending earlier (timed :: later) current split ran
    have adds : ∀ other, timed.input = .frame other → ¬ Discarded current other := by
      intro other same
      cases received.symm.trans same
      exact adds
    rcases advanceTarget_of_pending currentConsistent pending adds with ⟨target, called⟩
    exact ⟨earlier, timed, later, current, target, split, ran, called⟩
  · rcases interval.ran with ⟨last, final, run, waits⟩
    exact run.advances_of_quiet waits due consistent interval.pending start still

theorem TimedRun.of_instant {rounds : List TimedInput}
    (same : ∀ timed ∈ rounds, timed.now = since ∧ timed.input ≠ .timeout)
    (ran : rounds.foldlM (reorderStep config) state = some final) :
    TimedRun config since state rounds since final := by
  induction rounds generalizing state with
  | nil =>
      cases ran
      exact .done
  | cons timed rest induction =>
      rw [List.foldlM_cons] at ran
      rcases Option.bind_eq_some_iff.mp ran with ⟨next, stepped, finished⟩
      rcases same timed List.mem_cons_self with ⟨rfl, arrives⟩
      have others := induction (fun other member => same other (List.mem_cons_of_mem _ member))
        finished
      exact .round (Nat.le_refl _) (Nat.le_add_right _ _) (fun expired => absurd expired arrives)
        stepped others

theorem arrival_ne_timeout (now : Instant) (packet : ReceivedPacket) :
    (arrival now packet).input ≠ .timeout := by
  intro same
  cases same

/-- Two gaps, and nothing arrives until the timer is due. -/
theorem pendingInterval_advances_quiet :
    ∃ state, reorderLoop tolerant [wholeAt 0 0, wholeAt 0 2, wholeAt 0 4] = some state ∧
      Advances tolerant state [⟨10, .timeout⟩] := by
  have evaluated : ∃ state, reorderLoop tolerant [wholeAt 0 0, wholeAt 0 2, wholeAt 0 4] =
      some state ∧ state.hasPendingState = true ∧
      ((reorderStep tolerant state ⟨10, .timeout⟩).any fun next =>
        decide (next.hasPendingState = true)) = true :=
    exists_of_any (by decide +kernel)
  rcases evaluated with ⟨state, reached, pending, evaluated⟩
  rcases exists_of_any evaluated with ⟨next, stepped, stillPending⟩
  have start : TimedRun tolerant 0 .initial [wholeAt 0 0, wholeAt 0 2, wholeAt 0 4] 0 state := by
    apply TimedRun.of_instant _ reached
    simp only [List.forall_mem_cons]
    exact ⟨⟨rfl, arrival_ne_timeout _ _⟩, ⟨rfl, arrival_ne_timeout _ _⟩,
      ⟨rfl, arrival_ne_timeout _ _⟩, List.forall_mem_nil _⟩
  have due : 10 = 0 + timeoutDuration tolerant state := by
    rw [timeoutDuration_of_pending pending]
    rfl
  have interval : PendingInterval tolerant 1 15 0 state [⟨10, .timeout⟩] := by
    constructor
    · decide
    · simp
    · refine ⟨10, next, .round (Nat.zero_le _) (Nat.le_of_eq due) (fun _ => due) stepped .done, ?_⟩
      rw [timeoutDuration_of_pending stillPending]
      decide
    · exact AlwaysPending.cons pending stepped (.nil stillPending)
  refine ⟨state, reached, pendingInterval_advances start interval (Or.inr ⟨0, Or.inl rfl, ?_, ?_⟩)⟩
  · decide
  · simp

/-! ## A stream of late copies -/

theorem Advances.tail {rest : List TimedInput} {next : ReorderState}
    (uncalled : advanceTarget state timed = none)
    (stepped : reorderStep config state timed = some next)
    (advances : Advances config state (timed :: rest)) : Advances config next rest := by
  rcases advances with ⟨earlier, later, others, current, target, split, ran, called⟩
  rcases earlier with _ | ⟨opening, earlier⟩
  · rcases List.cons.inj split with ⟨rfl, -⟩
    cases ran
    cases uncalled.symm.trans called
  · rcases List.cons.inj split with ⟨rfl, remaining⟩
    rw [foldlM_reorderStep_cons stepped] at ran
    exact ⟨earlier, later, others, current, target, remaining, ran, called⟩

theorem not_advances_nil : ¬ Advances config state [] := by
  rintro ⟨earlier, timed, later, _, _, split, _, _⟩
  exact List.append_ne_nil_of_right_ne_nil earlier (List.cons_ne_nil timed later) split.symm

/-- Copies of a passed packet that arrive in time postpone the expiry for as long
as they keep arriving. -/
theorem late_copies_postpone {packet : ReceivedPacket} {times : List Instant}
    (active : state.initialized = true) (behind : packet.header.sequence < state.nextSeq)
    (member : packet.connectionId ∈ state.flowConnections)
    (pending : state.hasPendingState = true)
    (paced : List.IsChain (fun earlier later =>
      earlier ≤ later ∧ later ≤ earlier + config.expiryInterval) (since :: times)) :
    ∃ final, TimedRun config since state (times.map fun now => arrival now packet)
        (times.getLastD since) final ∧
      AlwaysPending config state (times.map fun now => arrival now packet) ∧
      ¬ Advances config state (times.map fun now => arrival now packet) := by
  induction times generalizing since state with
  | nil =>
      exact ⟨state, .done, .nil pending, not_advances_nil⟩
  | cons now times induction =>
      rcases List.isChain_cons_cons.mp paced with ⟨⟨later, inTime⟩, rest⟩
      have stepped : reorderStep config state (arrival now packet) =
          some (rejectLate packet (state.setReplyRoutes packet.remote false)) :=
        onPacket_behind config now active behind member
      have uncalled : advanceTarget state (arrival now packet) = none := by
        show packetTarget now packet state = none
        rw [packetTarget, admit_behind active behind member]
      rcases rejectLate_trace packet (state.setReplyRoutes packet.remote false) with
        ⟨effect, -, outcome⟩
      rw [outcome] at stepped
      rcases @induction now (ReorderState.emit effect (state.setReplyRoutes packet.remote false))
        active behind member pending rest with ⟨final, run, still, none⟩
      rw [List.map_cons, List.getLastD_cons]
      refine ⟨final, .round later ?_ ?_ stepped run, .cons pending stepped still, ?_⟩
      · rw [timeoutDuration_of_pending pending]
        exact inTime
      · exact fun expired => absurd expired (arrival_ne_timeout now packet)
      · exact fun advances => none (advances.tail uncalled stepped)

/-- Copies of the first packet of a flow keep a gap from expiring, over an
interval longer than twice the reorder delay. -/
theorem copies_starve_expiry :
    ∃ since state, TimedRun tolerant 0 .initial [wholeAt 0 0, wholeAt 0 2] since state ∧
      state.initialized = true ∧
      PendingInterval tolerant 1 29 since state
        ([5, 10, 15, 20, 25].map fun now => wholeAt now 0) ∧
      1 + 2 * tolerant.maxReorderDelay < 29 ∧
      ¬ Advances tolerant state ([5, 10, 15, 20, 25].map fun now => wholeAt now 0) := by
  have evaluated : ∃ state, reorderLoop tolerant [wholeAt 0 0, wholeAt 0 2] = some state ∧
      state.initialized = true ∧ state.hasPendingState = true ∧ 0 < state.nextSeq ∧
      0 ∈ state.flowConnections :=
    exists_of_any (by decide +kernel)
  rcases evaluated with ⟨state, reached, active, pending, behind, member⟩
  have start : TimedRun tolerant 0 .initial [wholeAt 0 0, wholeAt 0 2] 0 state := by
    apply TimedRun.of_instant _ reached
    simp only [List.forall_mem_cons]
    exact ⟨⟨rfl, arrival_ne_timeout _ _⟩, ⟨rfl, arrival_ne_timeout _ _⟩, List.forall_mem_nil _⟩
  rcases @late_copies_postpone tolerant 0 state
    (.whole "client" 0 0 [1] (Nat.zero_le _)) [5, 10, 15, 20, 25] active behind member pending
    (by decide) with ⟨final, run, still, starved⟩
  refine ⟨0, state, start, active, ⟨by decide, by simp [wholeAt, arrival], ?_, still⟩, by decide,
    starved⟩
  have finalPending := still _ [] final (List.append_nil _).symm run.foldlM
  refine ⟨25, final, run, ?_⟩
  rw [timeoutDuration_of_pending finalPending]
  decide

end Irohsion.Server
