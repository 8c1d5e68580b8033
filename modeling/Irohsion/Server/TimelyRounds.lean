import Irohsion.Server.Broadcast
import Irohsion.Server.ExpiryTimers
import Irohsion.Server.Representation
import Irohsion.Server.Shelter
import Mathlib.Logic.Relation

/-! # Rounds of a flow that is on time

A round of such a flow is a chain of the calls that the loop makes, each on a flow
that is still on time. Whatever these calls keep, the round keeps.
-/

namespace Irohsion.Server

open Protocol Std

variable {config : ReorderConfig} {broadcast : Broadcast} {first : Nat}
variable {now : Instant} {state before after next : ReorderState} {packet : ReceivedPacket}

/-! ## The calls -/

/-- What a round does to a flow, apart from storing a parity frame. -/
inductive Phase (config : ReorderConfig) (broadcast : Broadcast) (now : Instant)
    (state : ReorderState) : ReorderState → Prop
  | untouched {after : ReorderState} {effects : List Effect} :
      Untouched state after →
      after.trace = state.trace ++ effects →
      (∀ effect ∈ effects, effect.isDelivery = false) →
      Phase config broadcast now state after
  | assemble {packet : ReceivedPacket} {filled : FragmentAssembly} :
      Honest broadcast.content (.packet packet) →
      broadcast.Sent now packet.header.sequence →
      state.Fresh packet.header.sequence →
      Fills now packet state filled →
      filled.isComplete = false →
      Phase config broadcast now state
        { state with fragments := state.fragments.insert packet.header.sequence filled }
  | accept {sequence : Nat} {payload : Bytes} :
      sequence ≤ maxMediaSequence →
      state.Fresh sequence →
      broadcast.Offers now sequence payload →
      Phase config broadcast now state
        (acceptCompletePayload now sequence payload (state.release sequence))
  | recover : Phase config broadcast now state (recoverFecReady now state)
  | advance {after : ReorderState} :
      advanceReorderWindow config now state = some after →
      Phase config broadcast now state after

/-- Any number of calls, one after the other. -/
abbrev Phases (config : ReorderConfig) (broadcast : Broadcast) (now : Instant) :
    ReorderState → ReorderState → Prop :=
  Relation.ReflTransGen (Phase config broadcast now)

/-- What the calls keep, beside being on time. -/
structure PhaseInvariant (config : ReorderConfig) (broadcast : Broadcast) (first : Nat)
    (now : Instant) (Other : ReorderState → Prop) : Prop where
  untouched : ∀ {before after}, Untouched before after → Other before → Other after
  assemble : ∀ {packet state filled}, Fills now packet state filled → Other state →
    Other { state with fragments := state.fragments.insert packet.header.sequence filled }
  move : ∀ {before after}, WellFormed before → OnTime config broadcast first now before →
    before.nextSeq ≤ after.nextSeq → WindowMove config now (broadcast.Offers now) before after →
    Other before → Other after

namespace OnTime

/-- Nothing that is held, known or passed has changed. -/
theorem untouched (onTime : OnTime config broadcast first now state)
    (same : Untouched state after) {effects : List Effect}
    (trace : after.trace = state.trace ++ effects)
    (silent : ∀ effect ∈ effects, effect.isDelivery = false) :
    OnTime config broadcast first now after := by
  have unforwarded : ∀ sequence payload, .forward sequence payload ∉ effects := by
    intro sequence payload member
    cases silent _ member
  constructor
  · constructor
    · rw [same.buffered]
      exact onTime.intact.buffered
    · rw [same.fecState]
      exact onTime.intact.cached
    · rw [same.fecState]
      exact onTime.intact.frames
    · rw [same.fragments]
      exact onTime.intact.assemblies
    · rw [trace]
      exact onTime.intact.forwarded_append fun _ _ member => absurd member (unforwarded _ _)
  · exact same.nextSeq ▸ onTime.first_le
  · exact onTime.opened
  · rw [same.nextSeq]
    exact onTime.passed
  · intro sequence since waits
    rw [ReorderState.Pending, same.buffered, same.fragments] at waits
    exact onTime.pending waits
  · rw [same.fecState]
    exact onTime.frames
  · intro sequence
    rw [ReorderState.Settled, same.nextSeq, same.buffered]
    exact onTime.overdue sequence
  · rw [trace, forwards_append, forwards_of_silent silent, List.append_nil, same.nextSeq]
    exact onTime.forwarded
  · intro sequence reason member
    rw [trace] at member
    rcases List.mem_append.mp member with earlier | last
    · exact onTime.unskipped _ _ earlier
    · cases silent _ last

/-- Filling a slot. -/
theorem assemble (onTime : OnTime config broadcast first now state)
    (active : state.initialized = true) (fresh : state.Fresh packet.header.sequence)
    (honest : Honest broadcast.content (.packet packet))
    (sent : broadcast.Sent now packet.header.sequence) {filled : FragmentAssembly}
    (fills : Fills now packet state filled) (incomplete : filled.isComplete = false) :
    OnTime config broadcast first now
      { state with fragments := state.fragments.insert packet.header.sequence filled } where
  intact := onTime.intact.roundMove (.assemble honest active fresh fills incomplete)
  first_le := onTime.first_le
  opened := onTime.opened
  passed := onTime.passed
  pending := by
    intro sequence since waits
    rcases pending_assemble fills waits with earlier | ⟨rfl, rfl⟩
    · exact onTime.pending earlier
    · exact ⟨sent, Nat.le_refl _⟩
  frames := onTime.frames
  overdue := onTime.overdue
  forwarded := onTime.forwarded
  unskipped := onTime.unskipped

/-- Storing a parity frame. -/
theorem store (onTime : OnTime config broadcast first now state) {fec : ReceivedFecFrame}
    (honest : Honest broadcast.content (.fec fec)) (sent : Over (broadcast.Sent now) fec.frame) :
    OnTime config broadcast first now
      { state with fecState := state.fecState.insertFrame fec.frame } where
  intact := onTime.intact.roundMove (@RoundMove.store now _ _ fec honest)
  first_le := onTime.first_le
  opened := onTime.opened
  passed := onTime.passed
  pending := onTime.pending
  frames found := by
    rcases FecState.insertFrame_found found with ⟨-, rfl⟩ | earlier
    · exact sent
    · exact onTime.frames earlier
  overdue := onTime.overdue
  forwarded := onTime.forwarded
  unskipped := onTime.unskipped

end OnTime

theorem onTime_phase : PhaseInvariant config broadcast first now fun _ => True where
  untouched _ _ := trivial
  assemble _ _ := trivial
  move _ _ _ _ _ := trivial

namespace PhaseInvariant

variable {Other : ReorderState → Prop}

theorem window (rule : PhaseInvariant config broadcast first now Other) :
    ActiveInvariant config now (broadcast.Offers now)
      (fun state => OnTime config broadcast first now state ∧ Other state) where
  move wellFormed _ move holds :=
    ⟨holds.1.windowMove wellFormed move,
      rule.move wellFormed holds.1 (holds.1.le_nextSeq wellFormed move) move holds.2⟩
  recovered _ holds member := holds.1.recovered member

theorem phase (rule : PhaseInvariant config broadcast first now Other)
    (phase : Phase config broadcast now before after)
    (active : Active (fun state => OnTime config broadcast first now state ∧ Other state) before) :
    Active (fun state => OnTime config broadcast first now state ∧ Other state) after := by
  rcases active with ⟨wellFormed, initialized, onTime, other⟩
  cases phase with
  | untouched same trace silent =>
      exact ⟨wellFormed.congr same.nextSeq same.seen same.buffered same.fragments same.fecState,
        same.initialized.trans initialized, onTime.untouched same trace silent,
        rule.untouched same other⟩
  | assemble honest sent fresh fills incomplete =>
      exact ⟨wellFormed.assemble fresh fills incomplete, initialized,
        onTime.assemble initialized fresh honest sent fills incomplete, rule.assemble fills other⟩
  | accept media fresh offered =>
      exact rule.window.toWindow.acceptCompletePayload media fresh offered
        ⟨wellFormed, initialized, onTime, other⟩
  | recover => exact rule.window.toWindow.recoverFecReady ⟨wellFormed, initialized, onTime, other⟩
  | advance advanced =>
      rcases rule.window.advanceReorderWindow ⟨wellFormed, initialized, onTime, other⟩ with
        ⟨found, outcome, active⟩
      cases advanced.symm.trans outcome
      exact active

theorem phases (rule : PhaseInvariant config broadcast first now Other)
    (phases : Phases config broadcast now before after)
    (active : Active (fun state => OnTime config broadcast first now state ∧ Other state) before) :
    Active (fun state => OnTime config broadcast first now state ∧ Other state) after := by
  induction phases with
  | refl => exact active
  | tail _ phase induction => exact rule.phase phase induction

end PhaseInvariant

/-- The calls keep the flow on time. -/
theorem OnTime.phases (phases : Phases config broadcast now before after)
    (active : Active (OnTime config broadcast first now) before) :
    Active (OnTime config broadcast first now) after := by
  rcases active with ⟨wellFormed, initialized, onTime⟩
  rcases onTime_phase.phases phases ⟨wellFormed, initialized, onTime, trivial⟩ with
    ⟨wellFormed, initialized, onTime, -⟩
  exact ⟨wellFormed, initialized, onTime⟩

/-! ## Places that are kept -/

theorem settled_phase (sequence : Nat) :
    PhaseInvariant config broadcast first now fun state => state.Settled sequence where
  untouched same settled := by
    rw [ReorderState.Settled, same.nextSeq, same.buffered]
    exact settled
  assemble _ settled := settled
  move _ _ later move settled := move.settled settled later

/-- A filled slot is held, and so are those that were. -/
theorem holdsFragment_assemble {filled : FragmentAssembly} (fills : Fills now packet state filled) :
    let assembled : ReorderState :=
      { state with fragments := state.fragments.insert packet.header.sequence filled }
    assembled.HoldsFragment packet.header.sequence packet.header.fragment ∧
      ∀ sequence fragment, state.HoldsFragment sequence fragment →
        assembled.HoldsFragment sequence fragment := by
  intro assembled
  have stored : assembled.fragments[packet.header.sequence]? = some filled :=
    ExtTreeMap.getElem?_insert_self
  rcases fills.fill with ⟨vacant, rfl⟩
  have bound := (List.getElem?_eq_some_iff.mp vacant).1
  refine ⟨⟨_, packet.payload, stored, List.getElem?_set_self bound⟩, ?_⟩
  rintro sequence fragment ⟨assembly, payload, found, present⟩
  by_cases same : packet.header.sequence = sequence
  · subst same
    have entry : assemblyFor now packet state = assembly := by
      rw [assemblyFor, found, Option.getD_some]
    have different : packet.header.fragment ≠ fragment := by
      intro equal
      rw [entry, equal, present] at vacant
      cases vacant
    refine ⟨_, payload, stored, ?_⟩
    rw [FragmentAssembly.fill, List.getElem?_set_ne different, entry]
    exact present
  · exact ⟨assembly, payload, (OrderedMap.getElem?_insert_of_ne same).trans found, present⟩

theorem took_phase (header : PacketHeader) :
    PhaseInvariant config broadcast first now fun state => state.Took header where
  untouched same took := by
    rw [ReorderState.Took, ReorderState.Settled, ReorderState.HoldsFragment, same.nextSeq,
      same.buffered, same.fragments]
    exact took
  assemble fills took :=
    took.imp_right fun part => ⟨part.1, (holdsFragment_assemble fills).2 _ _ part.2⟩
  move _ _ later move took := move.took took later

/-- What is accepted is settled. -/
theorem settled_settle (now : Instant) {sequence : Nat} (payload : Bytes)
    (later : sequence < nextSequence sequence) :
    (settle now sequence payload state).Settled sequence := by
  by_cases expected : sequence = state.nextSeq
  · rw [settle_of_expected now payload expected]
    exact Or.inl (Nat.lt_of_lt_of_eq later (congrArg nextSequence expected))
  · rw [settle_of_ahead now payload expected]
    exact Or.inr (OrderedMap.mem_insert_iff.mpr (Or.inl rfl))

/-! ## Rounds -/

/-- The calls of a round, among which the part gets its place. -/
def Takes (config : ReorderConfig) (broadcast : Broadcast) (now : Instant)
    (header : PacketHeader) (state next : ReorderState) : Prop :=
  ∃ middle, Phases config broadcast now state middle ∧ middle.Took header ∧
    Phases config broadcast now middle next

theorem Takes.cons (phase : Phase config broadcast now state after)
    (takes : Takes config broadcast now packet.header after next) :
    Takes config broadcast now packet.header state next := by
  rcases takes with ⟨middle, phases, took, rest⟩
  exact ⟨middle, phases.head phase, took, rest⟩

theorem Untouched.trans (first : Untouched before after) (second : Untouched after next) :
    Untouched before next where
  initialized := second.initialized.trans first.initialized
  nextSeq := second.nextSeq.trans first.nextSeq
  buffered := second.buffered.trans first.buffered
  fragments := second.fragments.trans first.fragments
  seen := second.seen.trans first.seen
  fecState := second.fecState.trans first.fecState

/-- A round ends with an advance of the window unless it leaves everything untouched. -/
def Ends (config : ReorderConfig) (broadcast : Broadcast) (now : Instant)
    (state next : ReorderState) : Prop :=
  Untouched state next ∨ ∃ target, Phases config broadcast now state target ∧
    advanceReorderWindow config now target = some next

theorem Ends.cons (phase : Phase config broadcast now state after) (same : Untouched state after)
    (ends : Ends config broadcast now after next) : Ends config broadcast now state next := by
  rcases ends with untouched | ⟨target, phases, advanced⟩
  · exact Or.inl (same.trans untouched)
  · exact Or.inr ⟨target, phases.head phase, advanced⟩

/-- A packet less than the restart gap behind is only recorded. -/
theorem onPacket_near (config : ReorderConfig) (now : Instant) (active : state.initialized = true)
    (behind : packet.header.sequence < state.nextSeq)
    (near : state.nextSeq < packet.header.sequence + restartBackwardGap) :
    ∃ effect next, effect.isRejection = true ∧ onPacket config now packet state = some next ∧
      Untouched state next ∧ next.trace = state.trace ++ [effect] := by
  by_cases member : packet.connectionId ∈ state.flowConnections
  · rcases rejectLate_trace packet (state.setReplyRoutes packet.remote false) with
      ⟨effect, rejects, outcome⟩
    have stepped := onPacket_behind config now active behind member
    rw [outcome] at stepped
    exact ⟨effect, _, rejects, stepped, ⟨rfl, rfl, rfl, rfl, rfl, rfl⟩, rfl⟩
  · have unconfirmed :
        (state.restartDetector.observe packet.header.sequence state.nextSeq).2 = false := by
      rw [Bool.eq_false_iff]
      intro confirmed
      exact Nat.not_le.mpr near (RestartDetector.gap_of_confirmed confirmed)
    rcases onPacket_unconfirmed config now active behind member unconfirmed with
      ⟨effect, rejects, stepped⟩
    exact ⟨effect, _, rejects, stepped, ⟨rfl, rfl, rfl, rfl, rfl, rfl⟩, rfl⟩

/-- Advancing the window ends the round. -/
theorem advance_phases (active : Active (OnTime config broadcast first now) state) :
    ∃ next, advanceReorderWindow config now state = some next ∧
      Phases config broadcast now state next := by
  rcases onTime_invariant.advanceReorderWindow active with ⟨next, advanced, -⟩
  exact ⟨next, advanced, .single (.advance advanced)⟩

/-- The round of a complete payload. -/
theorem acceptComplete_takes (active : Active (OnTime config broadcast first now) state)
    (fresh : state.Fresh packet.header.sequence) {payload : Bytes}
    (offered : broadcast.Offers now packet.header.sequence payload) :
    ∃ next, advanceReorderWindow config now (recoverFecReady now
        (acceptCompletePayload now packet.header.sequence payload
          (takeComplete packet.header.sequence state))) = some next ∧
      Takes config broadcast now packet.header state next ∧
      Ends config broadcast now state next := by
  have accept : Phase config broadcast now state
      (acceptCompletePayload now packet.header.sequence payload
        (state.release packet.header.sequence)) := .accept packet.media fresh offered
  have accepted := OnTime.phases (.single accept) active
  have recovered := OnTime.phases (.single .recover) accepted
  rcases advance_phases recovered with ⟨next, advanced, phases⟩
  rw [acceptCompletePayload_takeComplete]
  refine ⟨next, advanced, ⟨_, .single accept, Or.inl ?_, phases.head .recover⟩,
    Or.inr ⟨_, (Relation.ReflTransGen.single accept).tail .recover, advanced⟩⟩
  have later : packet.header.sequence < nextSequence packet.header.sequence := by
    rw [broadcast.nextSequence_eq offered.1.1]
    exact Nat.lt_succ_self _
  have settled := @settled_settle state now packet.header.sequence payload later
  have move : WindowMove config now (broadcast.Offers now) state
      (settle now packet.header.sequence payload state) := .settle packet.media fresh offered
  rcases onTime_invariant.toWindow.move move active with ⟨wellFormed, initialized, onTime⟩
  rw [acceptCompletePayload_eq]
  split
  · exact ((settled_phase packet.header.sequence).window.toWindow.drainReady
      ⟨wellFormed, initialized, onTime, settled⟩).2.2.2
  · exact settled

theorem processAdmitted_takes (active : Active (OnTime config broadcast first now) state)
    (honest : Honest broadcast.content (.packet packet))
    (sent : broadcast.Sent now packet.header.sequence) :
    ∃ next, processAdmitted config now packet state = some next ∧
      Takes config broadcast now packet.header state next ∧
      Ends config broadcast now state next := by
  rcases active with ⟨wellFormed, initialized, onTime⟩
  have same : Untouched state (state.emit (.duplicate packet.header.sequence)) :=
    ⟨rfl, rfl, rfl, rfl, rfl, rfl⟩
  have repeated : state.Took packet.header → Takes config broadcast now packet.header state
      (state.emit (.duplicate packet.header.sequence)) := by
    intro took
    exact ⟨state, .refl, took, .single (.untouched same rfl (List.forall_mem_singleton.mpr rfl))⟩
  rw [processAdmitted]
  by_cases fresh : state.Fresh packet.header.sequence
  · rw [if_neg fresh]
    by_cases whole : packet.header.fragments = 1
    · rw [reassemble_whole whole]
      exact acceptComplete_takes ⟨wellFormed, initialized, onTime⟩ fresh
        ⟨sent, Intact.whole honest whole⟩
    · rcases reassemble_cases now wellFormed whole with
        ⟨repeats, outcome⟩ |
          ⟨filled, fills, ⟨incomplete, outcome⟩ | ⟨complete, payload, gives, outcome⟩⟩
      · rw [outcome]
        refine ⟨_, rfl, repeated (Or.inr ⟨whole, ?_⟩), Or.inl same⟩
        rcases repeats with ⟨assembly, found, different | ⟨present, filled⟩⟩
        · rcases honest with single | ⟨slots, -⟩
          · exact absurd single whole
          · exact absurd ((onTime.intact.assemblies found).1.trans slots.symm) different
        · exact ⟨assembly, present, found, filled⟩
      · rw [outcome]
        have assemble : Phase config broadcast now state _ :=
          .assemble honest sent fresh fills incomplete
        have assembled := OnTime.phases (.single assemble) ⟨wellFormed, initialized, onTime⟩
        rcases advance_phases assembled with ⟨next, advanced, phases⟩
        exact ⟨next, advanced, ⟨_, .single assemble,
          Or.inr ⟨whole, (holdsFragment_assemble fills).1⟩, phases⟩,
          Or.inr ⟨_, .single assemble, advanced⟩⟩
      · rw [outcome]
        have holds := onTime.intact.fills honest fills
        rw [FragmentAssembly.intoPayload_of_holds holds complete] at gives
        cases gives
        exact acceptComplete_takes ⟨wellFormed, initialized, onTime⟩ fresh
          ⟨sent, broadcast.content.flatten_parts _⟩
  · rw [if_pos (not_not.mp fresh)]
    refine ⟨_, rfl, repeated (Or.inl ?_), Or.inl same⟩
    rcases not_not.mp fresh with behind | seen | held
    · exact Or.inl behind
    · exact Or.inr ((wellFormed.seen_iff _).mp seen)
    · exact Or.inr held

/-- The window is not further ahead than the sender. -/
theorem OnTime.nextSeq_lt (onTime : OnTime config broadcast first now state) {bound : Nat}
    (recent : ∀ later, broadcast.Sent now later → later + 1 < bound) : state.nextSeq < bound := by
  rcases Nat.eq_or_lt_of_le onTime.first_le with same | further
  · exact same ▸ Nat.lt_of_succ_lt (recent first onTime.opened)
  · have sent := onTime.passed (state.nextSeq - 1) (by omega) (by omega)
    have last := recent _ sent
    omega

theorem onPacket_takes (active : Active (OnTime config broadcast first now) state)
    (honest : Honest broadcast.content (.packet packet))
    (sent : broadcast.Sent now packet.header.sequence)
    (recent : ∀ later, broadcast.Sent now later →
      later + 1 < packet.header.sequence + restartBackwardGap) :
    ∃ next, onPacket config now packet state = some next ∧
      Takes config broadcast now packet.header state next ∧
      Ends config broadcast now state next := by
  by_cases behind : packet.header.sequence < state.nextSeq
  · rcases onPacket_near config now active.2.1 behind (active.2.2.nextSeq_lt recent) with
      ⟨effect, next, rejects, stepped, same, trace⟩
    have silent : ∀ other ∈ [effect], other.isDelivery = false :=
      List.forall_mem_singleton.mpr (Effect.isDelivery_of_isRejection rejects)
    exact ⟨next, stepped, ⟨state, .refl, Or.inl (Or.inl behind),
      .single (.untouched same trace silent)⟩, Or.inl same⟩
  · rw [onPacket_ahead config now active.2.1 (Nat.le_of_not_lt behind)]
    have same : Untouched state (joined packet state) := ⟨rfl, rfl, rfl, rfl, rfl, rfl⟩
    have join : Phase config broadcast now state (joined packet state) :=
      .untouched same (List.append_nil _).symm (List.forall_mem_nil _)
    rcases processAdmitted_takes (OnTime.phases (.single join) active) honest sent with
      ⟨next, stepped, takes, ends⟩
    exact ⟨next, stepped, takes.cons join, ends.cons join same⟩

/-- A parity frame is stored before anything else happens. -/
theorem onFec_phases (active : Active (OnTime config broadcast first now) state)
    {fec : ReceivedFecFrame} (honest : Honest broadcast.content (.fec fec))
    (sent : Over (broadcast.Sent now) fec.frame) :
    ∃ next, onFec config now fec state = some next ∧ Phases config broadcast now
        { state with fecState := state.fecState.insertFrame fec.frame } next ∧
      Ends config broadcast now
        { state with fecState := state.fecState.insertFrame fec.frame } next := by
  rcases active with ⟨wellFormed, initialized, onTime⟩
  have stored : Active (OnTime config broadcast first now)
      { state with fecState := state.fecState.insertFrame fec.frame } :=
    ⟨wellFormed.storeFrame _, initialized, onTime.store honest sent⟩
  have route : Phase config broadcast now
      { state with fecState := state.fecState.insertFrame fec.frame }
      ({ state with fecState := state.fecState.insertFrame fec.frame }.setReplyRoutes
        fec.remote false) :=
    .untouched ⟨rfl, rfl, rfl, rfl, rfl, rfl⟩ (List.append_nil _).symm (List.forall_mem_nil _)
  have routed := OnTime.phases (.single route) stored
  rcases advance_phases (OnTime.phases (.single .recover) routed) with ⟨next, advanced, phases⟩
  rw [onFec, if_pos initialized]
  exact ⟨next, advanced, (phases.head .recover).head route,
    Or.inr ⟨_, (Relation.ReflTransGen.single route).tail .recover, advanced⟩⟩

theorem onTimeout_phases (active : Active (OnTime config broadcast first now) state)
    (busy : state.hasPendingState = true) :
    ∃ next, onTimeout config now state = some next ∧ Phases config broadcast now state next ∧
      Ends config broadcast now state next := by
  rw [onTimeout, if_neg (by simp [active.2.1]), if_pos busy]
  rcases advance_phases active with ⟨next, advanced, phases⟩
  exact ⟨next, advanced, phases, Or.inr ⟨state, .refl, advanced⟩⟩

/-- A parity frame has been stored when the calls of its round begin. -/
def storeReceived (timed : TimedInput) (state : ReorderState) : ReorderState :=
  match timed.input with
  | .frame (.fec fec) => { state with fecState := state.fecState.insertFrame fec.frame }
  | _ => state

/-- What a round is made of. -/
structure FlowRound (config : ReorderConfig) (broadcast : Broadcast) (timed : TimedInput)
    (state next : ReorderState) : Prop where
  phases : Phases config broadcast timed.now (storeReceived timed state) next
  takes : ∀ packet, timed.input = .frame (.packet packet) →
    Takes config broadcast timed.now packet.header state next
  ends : Ends config broadcast timed.now (storeReceived timed state) next

theorem active_storeReceived {timed : TimedInput}
    (active : Active (OnTime config broadcast first timed.now) state)
    (honest : timed.Admitted (Honest broadcast.content))
    (sent : timed.Admitted (ReceivedFrame.About (broadcast.Sent timed.now))) :
    Active (OnTime config broadcast first timed.now) (storeReceived timed state) := by
  rcases timed with ⟨now, (packet | fec) | -⟩
  · exact active
  · exact ⟨active.1.storeFrame fec, active.2.1, active.2.2.store (honest _ rfl) (sent _ rfl)⟩
  · exact active

/-- A round of an open flow that is on time. -/
theorem reorderStep_round {timed : TimedInput}
    (active : Active (OnTime config broadcast first timed.now) state)
    (honest : timed.Admitted (Honest broadcast.content))
    (sent : timed.Admitted (ReceivedFrame.About (broadcast.Sent timed.now)))
    (recent : ∀ packet, timed.input = .frame (.packet packet) → ∀ later,
      broadcast.Sent timed.now later → later + 1 < packet.header.sequence + restartBackwardGap)
    (busy : timed.input = .timeout → state.hasPendingState = true) :
    ∃ next, reorderStep config state timed = some next ∧
      FlowRound config broadcast timed state next := by
  rcases timed with ⟨now, (packet | fec) | -⟩
  · rcases onPacket_takes active (honest _ rfl) (sent _ rfl) (recent packet rfl) with
      ⟨next, stepped, takes, ends⟩
    refine ⟨next, stepped, ?_, ?_, ends⟩
    · rcases takes with ⟨middle, earlier, -, rest⟩
      exact earlier.trans rest
    · intro other receives
      cases receives
      exact takes
  · rcases onFec_phases active (honest _ rfl) (sent _ rfl) with ⟨next, stepped, phases, ends⟩
    exact ⟨next, stepped, phases, (fun _ impossible => by cases impossible), ends⟩
  · rcases onTimeout_phases active (busy rfl) with ⟨next, stepped, phases, ends⟩
    exact ⟨next, stepped, phases, (fun _ impossible => by cases impossible), ends⟩

end Irohsion.Server
