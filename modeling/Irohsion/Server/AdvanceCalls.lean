import Irohsion.Server.Arrivals
import Irohsion.Server.StuckFrames

/-! # The rounds that advance the window

A round calls `advance_reorder_window` at most once, at its end. This file says
on which state, and what the other rounds leave untouched.
-/

namespace Irohsion.Server

open Protocol Std

/-- What `advance_reorder_window` is called on in the packet branch, if it is. -/
def packetTarget (now : Instant) (packet : ReceivedPacket) (state : ReorderState) :
    Option ReorderState :=
  match admitPacket packet (openFlow packet state) with
  | .continue _ => none
  | .proceed admitted =>
      let sequence := packet.header.sequence
      if sequence < admitted.nextSeq ∨ sequence ∈ admitted.seen ∨ sequence ∈ admitted.buffered then
        none
      else
        match reassemble now packet admitted with
        | some (.incomplete updated) => some updated
        | some (.complete payload taken) =>
            some (recoverFecReady now (acceptCompletePayload now sequence payload taken))
        | _ => none

def fecTarget (now : Instant) (fec : ReceivedFecFrame) (state : ReorderState) :
    Option ReorderState :=
  let stored := { state with fecState := state.fecState.insertFrame fec.frame }
  if stored.initialized then
    some (recoverFecReady now (stored.setReplyRoutes fec.remote false))
  else none

def timeoutTarget (state : ReorderState) : Option ReorderState :=
  if state.initialized ∧ state.hasPendingState then some state else none

/-- The state on which a round calls `advance_reorder_window`. -/
def advanceTarget (state : ReorderState) (timed : TimedInput) : Option ReorderState :=
  match timed.input with
  | .frame (.packet packet) => packetTarget timed.now packet state
  | .frame (.fec fec) => fecTarget timed.now fec state
  | .timeout => timeoutTarget state

/-- Nothing that is held, known or passed has changed. -/
structure Untouched (before after : ReorderState) : Prop where
  initialized : after.initialized = before.initialized
  nextSeq : after.nextSeq = before.nextSeq
  buffered : after.buffered = before.buffered
  fragments : after.fragments = before.fragments
  seen : after.seen = before.seen
  fecState : after.fecState = before.fecState

variable {config : ReorderConfig} {now : Instant} {timed : TimedInput}
variable {state target next : ReorderState}

theorem onPacket_of_target {packet : ReceivedPacket}
    (called : packetTarget now packet state = some target) :
    onPacket config now packet state = advanceReorderWindow config now target := by
  rw [packetTarget] at called
  split at called
  · cases called
  · rename_i admitted outcome
    rw [onPacket, outcome]
    dsimp only at called ⊢
    split at called
    · cases called
    · rename_i fresh
      rw [processAdmitted, if_neg fresh]
      split at called
      · rename_i updated outcome
        cases called
        rw [outcome]
      · rename_i payload taken outcome
        cases called
        rw [outcome]
      · cases called

theorem onFec_of_target {fec : ReceivedFecFrame} (called : fecTarget now fec state = some target) :
    onFec config now fec state = advanceReorderWindow config now target := by
  rw [fecTarget] at called
  rw [onFec]
  dsimp only at called ⊢
  split at called
  · rename_i active
    cases called
    rw [if_pos active]
  · cases called

theorem onTimeout_of_target (called : timeoutTarget state = some target) :
    onTimeout config now state = advanceReorderWindow config now target := by
  rw [timeoutTarget] at called
  split at called
  · rename_i pending
    cases called
    rw [onTimeout, pending.1, pending.2]
    rfl
  · cases called

theorem reorderStep_of_target (called : advanceTarget state timed = some target) :
    reorderStep config state timed = advanceReorderWindow config timed.now target := by
  rcases timed with ⟨now, (packet | fec) | -⟩
  · exact onPacket_of_target called
  · exact onFec_of_target called
  · exact onTimeout_of_target called

/-! ## Rounds that do not advance -/

theorem Untouched.rejectLate (packet : ReceivedPacket) (state : ReorderState) :
    Untouched state (rejectLate packet state) := by
  rw [Server.rejectLate]
  split <;> exact ⟨rfl, rfl, rfl, rfl, rfl, rfl⟩

/-- A packet is rejected as late, joins the flow or restarts it. -/
theorem admitPacket_cases (packet : ReceivedPacket) (state : ReorderState) :
    (∃ final, admitPacket packet state = .continue final ∧ Untouched state final) ∨
    (admitPacket packet state = .proceed (joinFlow packet state) ∧
      state.nextSeq ≤ packet.header.sequence) ∨
    ∃ detector, admitPacket packet state =
      .proceed (restartFlow packet { state with restartDetector := detector }) := by
  rw [admitPacket]
  split
  · split
    · exact Or.inl ⟨_, rfl, .rejectLate packet state⟩
    · dsimp only
      split
      · exact Or.inr (Or.inr ⟨_, rfl⟩)
      · refine Or.inl ⟨_, rfl, ?_⟩
        have late := Untouched.rejectLate packet
          { state with
            restartDetector :=
              (state.restartDetector.observe packet.header.sequence state.nextSeq).1 }
        exact ⟨late.initialized, late.nextSeq, late.buffered, late.fragments, late.seen,
          late.fecState⟩
  · rename_i ahead
    exact Or.inr (Or.inl ⟨rfl, Nat.le_of_not_lt ahead⟩)

/-- The packet adds nothing: its position is passed or complete, or its slot is filled. -/
def Discards (packet : ReceivedPacket) (state : ReorderState) : Prop :=
  ¬ state.Fresh packet.header.sequence ∨ packet.header.fragments ≠ 1 ∧ Repeats packet state

theorem onPacket_of_discards {packet : ReceivedPacket} {admitted : ReorderState}
    (outcome : admitPacket packet (openFlow packet state) = .proceed admitted)
    (wellFormed : WellFormed admitted) (discards : Discards packet admitted) :
    onPacket config now packet state = some (admitted.emit (.duplicate packet.header.sequence)) ∧
      packetTarget now packet state = none := by
  rw [onPacket, packetTarget, outcome]
  dsimp only
  rw [processAdmitted]
  by_cases fresh : admitted.Fresh packet.header.sequence
  · rcases discards with stale | ⟨several, repeats⟩
    · exact absurd fresh stale
    · rw [if_neg fresh, if_neg fresh, reassemble_of_repeats wellFormed several repeats]
      exact ⟨rfl, rfl⟩
  · have stale := not_not.mp fresh
    rw [if_pos stale, if_pos stale]
    exact ⟨rfl, rfl⟩

theorem exists_packetTarget {packet : ReceivedPacket} {admitted : ReorderState}
    (outcome : admitPacket packet (openFlow packet state) = .proceed admitted)
    (wellFormed : WellFormed admitted) (adds : ¬ Discards packet admitted) :
    ∃ target, packetTarget now packet state = some target := by
  rw [Discards, not_or, not_not] at adds
  rcases adds with ⟨fresh, novel⟩
  rw [packetTarget, outcome]
  dsimp only
  rw [if_neg fresh]
  by_cases whole : packet.header.fragments = 1
  · rw [reassemble_whole whole]
    exact ⟨_, rfl⟩
  · rcases reassemble_cases now wellFormed whole with
      ⟨repeats, -⟩ | ⟨filled, -, ⟨-, outcome⟩ | ⟨-, payload, -, outcome⟩⟩
    · exact absurd ⟨whole, repeats⟩ novel
    · rw [outcome]
      exact ⟨_, rfl⟩
    · rw [outcome]
      exact ⟨_, rfl⟩

/-- A packet adds something to an empty window at its position. -/
theorem not_discards_of_empty {packet : ReceivedPacket}
    (position : state.nextSeq = packet.header.sequence) (seen : state.seen = ∅)
    (buffered : state.buffered = ∅) (fragments : state.fragments = ∅) :
    ¬ Discards packet state := by
  rintro (stale | ⟨-, assembly, found, -⟩)
  · apply stale
    rintro (behind | member | member)
    · exact Nat.lt_irrefl _ (position ▸ behind)
    · rw [seen] at member
      cases member
    · rw [buffered] at member
      exact ExtTreeMap.not_mem_empty member
  · rw [fragments] at found
    simp at found

theorem WellFormed.restartFlow (packet : ReceivedPacket) (state : ReorderState) :
    WellFormed (restartFlow packet state) := by
  apply WellFormed.of_empty packet.media rfl rfl rfl
  intro base frame found
  simp [Server.restartFlow, ReorderState.emit, ReorderState.setReplyRoutes, FecState.empty] at found

theorem not_discards_restartFlow (packet : ReceivedPacket) (state : ReorderState) :
    ¬ Discards packet (restartFlow packet state) :=
  not_discards_of_empty rfl rfl rfl rfl

/-- The first packet of a flow advances the window. -/
theorem exists_packetTarget_of_idle {packet : ReceivedPacket} (consistent : Consistent state)
    (idle : state.initialized = false) : ∃ target, packetTarget now packet state = some target := by
  have start : RoundMove now (fun _ => True) state (startFlow packet state) := .start idle
  have started := @WellFormed.congr _ (joinFlow packet (startFlow packet state))
    (consistent.roundMove start).toWellFormed rfl rfl rfl rfl rfl
  have outcome : admitPacket packet (openFlow packet state) =
      .proceed (joinFlow packet (startFlow packet state)) := by
    rw [openFlow, if_neg (by simp [idle]), admitPacket]
    exact if_neg (Nat.lt_irrefl _)
  have buffered := consistent.idle_buffered idle
  apply exists_packetTarget outcome started
  exact not_discards_of_empty rfl (consistent.toWellFormed.seen_empty buffered) buffered
    (consistent.idle_fragments idle)

/-- Without an advance a packet leaves everything untouched. -/
theorem onPacket_of_no_target {packet : ReceivedPacket} (consistent : Consistent state)
    (uncalled : packetTarget now packet state = none) :
    state.initialized = true ∧
      ∃ next, onPacket config now packet state = some next ∧ Untouched state next := by
  have called : ∀ {target}, packetTarget now packet state ≠ some target := by
    rw [uncalled]
    exact nofun
  cases active : state.initialized with
  | false =>
      rcases @exists_packetTarget_of_idle now _ packet consistent active with ⟨target, found⟩
      exact absurd found called
  | true =>
      have opened : openFlow packet state = state.setReplyRoutes packet.remote false :=
        if_pos active
      refine ⟨rfl, ?_⟩
      rcases admitPacket_cases packet (openFlow packet state) with
        ⟨final, outcome, untouched⟩ | ⟨outcome, -⟩ | ⟨detector, outcome⟩
      · refine ⟨final, by rw [onPacket, outcome], ?_⟩
        rw [opened] at untouched
        exact ⟨untouched.initialized, untouched.nextSeq, untouched.buffered, untouched.fragments,
          untouched.seen, untouched.fecState⟩
      · have joined : WellFormed (joinFlow packet (openFlow packet state)) := by
          rw [opened]
          exact consistent.toWellFormed.joined packet
        by_cases discards : Discards packet (joinFlow packet (openFlow packet state))
        · refine ⟨_, (onPacket_of_discards outcome joined discards).1, ?_⟩
          rw [opened]
          exact ⟨rfl, rfl, rfl, rfl, rfl, rfl⟩
        · rcases @exists_packetTarget now _ _ _ outcome joined discards with ⟨target, found⟩
          exact absurd found called
      · rcases @exists_packetTarget now _ _ _ outcome (.restartFlow packet _)
          (not_discards_restartFlow packet _) with ⟨target, found⟩
        exact absurd found called

/-- Without an advance everything stays as it was, or there is no flow afterwards. -/
theorem reorderStep_of_no_target (consistent : Consistent state)
    (uncalled : advanceTarget state timed = none) :
    ∃ next, reorderStep config state timed = some next ∧
      (Untouched state next ∨ next.initialized = false) := by
  rcases timed with ⟨now, (packet | fec) | -⟩
  · rcases @onPacket_of_no_target config now _ _ consistent uncalled with
      ⟨-, next, stepped, untouched⟩
    exact ⟨next, stepped, Or.inl untouched⟩
  · have idle : ¬ state.initialized = true := by
      intro active
      simp [advanceTarget, fecTarget, active] at uncalled
    refine ⟨_, if_neg idle, Or.inr ?_⟩
    exact Bool.eq_false_iff.mpr idle
  · simp only [reorderStep, onTimeout]
    split
    · rename_i idle
      refine ⟨state, rfl, Or.inr ?_⟩
      simpa using idle
    · rename_i active
      split
      · rename_i pending
        simp_all [advanceTarget, timeoutTarget]
      · exact ⟨_, rfl, Or.inr rfl⟩

/-! ## The state on which the window is advanced -/

namespace LoopInvariant

variable {Admissible : ReceivedFrame → Prop} {Source : Nat → Bytes → Prop}
variable {Invariant : ReorderState → Prop}

theorem packetTarget (rule : LoopInvariant config Admissible Source Invariant)
    {packet : ReceivedPacket} (admissible : Admissible (.packet packet))
    (consistent : Consistent state) (holds : Invariant state)
    (called : packetTarget now packet state = some target) : Active Invariant target := by
  have admitted := rule.admitPacket packet (rule.openFlow packet consistent holds)
  rw [Server.packetTarget] at called
  split at called
  · cases called
  · rename_i proceeding outcome
    rw [outcome] at admitted
    dsimp only [Admission.state] at admitted called
    split at called
    · cases called
    · rename_i fresh
      have window := rule.window now
      by_cases whole : packet.header.fragments = 1
      · rw [reassemble_whole whole] at called
        cases called
        apply window.acceptTaken
        exact window.toWindow.move
          (.settle packet.media fresh (rule.whole admissible whole)) admitted
      · rcases reassemble_cases now admitted.1 whole with
          ⟨-, duplicate⟩ |
            ⟨filled, fills, ⟨incomplete, outcome⟩ | ⟨complete, payload, joined, outcome⟩⟩
        · rw [duplicate] at called
          cases called
        · rw [outcome] at called
          cases called
          exact rule.active admitted
            (.assemble admissible admitted.2.1 fresh fills incomplete) admitted.2.1
        · rw [outcome] at called
          cases called
          have source := rule.assembled admitted.1 admitted.2.2 admissible fills complete joined
          apply window.acceptTaken
          exact window.toWindow.move (.settle packet.media fresh source) admitted

theorem fecTarget (rule : LoopInvariant config Admissible Source Invariant)
    {fec : ReceivedFecFrame} (admissible : Admissible (.fec fec)) (consistent : Consistent state)
    (holds : Invariant state) (called : fecTarget now fec state = some target) :
    Active Invariant target := by
  have store : RoundMove now Admissible state
      { state with fecState := state.fecState.insertFrame fec.frame } := .store admissible
  rw [Server.fecTarget] at called
  dsimp only at called
  split at called
  · rename_i active
    cases called
    apply (rule.window now).toWindow.recoverFecReady
    exact @rule.active _ _ _ _ _ now _
      ⟨(consistent.roundMove store).toWellFormed, active, rule.round consistent store holds⟩
      (.routes fec.remote) active
  · cases called

/-- The window is advanced on active states with the invariant. -/
theorem advanceTarget (rule : LoopInvariant config Admissible Source Invariant)
    (admitted : timed.Admitted Admissible) (consistent : Consistent state)
    (holds : Invariant state) (called : advanceTarget state timed = some target) :
    Active Invariant target := by
  rcases timed with ⟨now, (packet | fec) | -⟩
  · exact rule.packetTarget (admitted _ rfl) consistent holds called
  · exact rule.fecTarget (admitted _ rfl) consistent holds called
  · simp only [Server.advanceTarget, timeoutTarget] at called
    split at called
    · rename_i pending
      cases called
      exact ⟨consistent.toWellFormed, pending.1, holds⟩
    · cases called

end LoopInvariant

/-! ## Stored frames between the rounds -/

theorem active_advanceTarget (consistent : Consistent state)
    (called : advanceTarget state timed = some target) :
    WellFormed target ∧ target.initialized = true := by
  have active := (consistent_invariant ⟨none, 0, 0⟩).advanceTarget (fun _ _ => trivial) consistent
    trivial called
  exact ⟨active.1, active.2.1⟩

theorem WellFormed.recoverFecReady (now : Instant) (wellFormed : WellFormed state)
    (active : state.initialized = true) : WellFormed (recoverFecReady now state) := by
  have window := (consistent_invariant ⟨none, 0, 0⟩).window now
  exact (window.toWindow.recoverFecReady ⟨wellFormed, active, trivial⟩).1

theorem reassemble_incomplete {packet : ReceivedPacket} {updated : ReorderState}
    (incomplete : reassemble now packet state = some (.incomplete updated)) :
    updated.fecState = state.fecState ∧ updated.buffered = state.buffered := by
  unfold reassemble at incomplete
  dsimp only at incomplete
  split at incomplete
  · cases incomplete
  · split at incomplete
    · cases incomplete
    · split at incomplete
      · cases incomplete
      · split at incomplete
        · cases incomplete
        · cases incomplete
        · split at incomplete
          · split at incomplete <;> cases incomplete
          · cases incomplete
            exact ⟨rfl, rfl⟩

/-- Outside the window functions, stored frames only become active with a flow. -/
theorem stuck_of_admitted {packet : ReceivedPacket} {admitted : ReorderState}
    (consistent : Consistent state) (settled : state.initialized = true → state.Stuck)
    (outcome : admitPacket packet (openFlow packet state) = .proceed admitted) :
    admitted.Stuck ∨ admitted.buffered = ∅ := by
  rcases admitPacket_cases packet (openFlow packet state) with
    ⟨final, rejected, -⟩ | ⟨joins, -⟩ | ⟨detector, restarts⟩
  · cases outcome.symm.trans rejected
  · cases outcome.symm.trans joins
    cases active : state.initialized with
    | true =>
        left
        rw [openFlow, if_pos active]
        exact (settled active).forget (.of_same rfl rfl)
    | false =>
        right
        rw [openFlow, if_neg (by simp [active])]
        exact consistent.idle_buffered active
  · cases outcome.symm.trans restarts
    exact Or.inr rfl

theorem stuck_packetTarget {packet : ReceivedPacket} (consistent : Consistent state)
    (settled : state.initialized = true → state.Stuck)
    (called : packetTarget now packet state = some target) :
    target.Stuck ∨ target.buffered = ∅ := by
  rw [packetTarget] at called
  split at called
  · cases called
  · rename_i admitted outcome
    have before := stuck_of_admitted consistent settled outcome
    dsimp only at called
    split at called
    · cases called
    · rename_i fresh
      split at called
      · rename_i updated incomplete
        cases called
        rcases reassemble_incomplete incomplete with ⟨fecState, buffered⟩
        rcases before with stuck | empty
        · exact Or.inl (stuck.forget (.of_same fecState buffered))
        · exact Or.inr (buffered.trans empty)
      · cases called
        exact Or.inl (recoverFecReady_stuck now _)
      · cases called

/-- Where the window is advanced, a search recovers nothing, or nothing is held. -/
theorem stuck_advanceTarget (consistent : Consistent state)
    (settled : state.initialized = true → state.Stuck)
    (called : advanceTarget state timed = some target) :
    target.Stuck ∨ target.buffered = ∅ := by
  rcases timed with ⟨now, (packet | fec) | -⟩
  · exact stuck_packetTarget consistent settled called
  · simp only [advanceTarget, fecTarget] at called
    split at called
    · cases called
      exact Or.inl (recoverFecReady_stuck now _)
    · cases called
  · simp only [advanceTarget, timeoutTarget] at called
    split at called
    · rename_i pending
      cases called
      exact Or.inl (settled pending.1)
    · cases called

theorem reorderStep_stuck (consistent : Consistent state)
    (settled : state.initialized = true → state.Stuck)
    (stepped : reorderStep config state timed = some next) (active : next.initialized = true) :
    next.Stuck := by
  cases called : advanceTarget state timed with
  | some target =>
      rw [reorderStep_of_target called] at stepped
      rcases active_advanceTarget consistent called with ⟨wellFormed, isActive⟩
      exact advanceReorderWindow_stuck (wellFormed.recoverFecReady timed.now isActive) stepped
  | none =>
      rcases @reorderStep_of_no_target config _ _ consistent called with
        ⟨_, outcome, untouched | idle⟩
      · cases stepped.symm.trans outcome
        exact (settled (untouched.initialized ▸ active)).forget
          (.of_same untouched.fecState untouched.buffered)
      · cases stepped.symm.trans outcome
        rw [idle] at active
        cases active

/-- In every reachable state of a flow, each stored frame misses two members. -/
theorem reorderLoop_stuck {inputs : List TimedInput}
    (reached : reorderLoop config inputs = some state) :
    Consistent state ∧ (state.initialized = true → state.Stuck) := by
  apply reorderLoop_induction nofun _ reached
  intro state next timed consistent settled stepped active
  exact reorderStep_stuck consistent settled stepped active

end Irohsion.Server
