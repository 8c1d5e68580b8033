import Irohsion.Server.TimelyRounds
import Mathlib.Data.List.Chain

/-! # A network that is only late

When all parts of every position arrive less than the reorder delay after the
position was sent, in any order and with any repetitions, the loop hides all of
it: it skips nothing, and forwards each position no later than in the round in
which it and those before it have arrived.
-/

namespace Irohsion.Server

open Protocol Std

variable {config : ReorderConfig} {broadcast : Broadcast} {first : Nat}
variable {arrived : List TimedInput} {since now : Instant} {state after next : ReorderState}
variable {timed : TimedInput} {packet : ReceivedPacket} {content : Content}

/-! ## What has arrived -/

theorem OnTime.later (onTime : OnTime config broadcast first since state) (later : since ≤ now)
    (overdue : ∀ sequence, first ≤ sequence →
      Overdue config broadcast.toSchedule now sequence → state.Settled sequence) :
    OnTime config broadcast first now state where
  intact := onTime.intact
  first_le := onTime.first_le
  opened := onTime.opened.later later
  passed sequence within behind := (onTime.passed sequence within behind).later later
  pending waits := ⟨(onTime.pending waits).1, Nat.le_trans (onTime.pending waits).2 later⟩
  frames found offset inFrame := (onTime.frames found offset inFrame).later later
  overdue := overdue
  forwarded := onTime.forwarded
  unskipped := onTime.unskipped

/-- An assembly with a part in every slot is complete. -/
theorem isComplete_of_holds {sequence : Nat} {assembly : FragmentAssembly}
    (found : state.fragments[sequence]? = some assembly)
    (held : ∀ fragment < assembly.fragments.length, state.HoldsFragment sequence fragment) :
    assembly.isComplete = true := by
  rw [FragmentAssembly.isComplete_iff]
  intro slot member
  rcases List.getElem_of_mem member with ⟨fragment, bound, rfl⟩
  rcases held fragment bound with ⟨same, content, foundSame, filled⟩
  cases foundSame.symm.trans found
  rw [List.getElem?_eq_getElem bound] at filled
  rw [Option.some.inj filled, Option.isSome_some]

namespace Taken

/-- A split position of which a part has arrived has as many slots as the content has parts. -/
theorem fragments_eq (taken : Taken content arrived state) {header : PacketHeader}
    (received : Arrived arrived header) (several : header.fragments ≠ 1) :
    header.fragments = (content.parts header.sequence).length := by
  rcases received with ⟨timed, member, packet, receives, rfl⟩
  rcases taken.honest timed member _ receives with whole | ⟨slots, -⟩
  · exact absurd whole several
  · exact slots

/-- What has arrived completely is settled. -/
theorem complete (taken : Taken content arrived state) (intact : Intact content state)
    (wellFormed : WellFormed state) {sequence : Nat} (complete : Complete arrived sequence) :
    state.Settled sequence := by
  rcases complete with ⟨fragments, some, all⟩
  by_contra outside
  have held : ∀ fragment < fragments,
      fragments ≠ 1 ∧ state.HoldsFragment sequence fragment := fun fragment inBounds =>
    (taken.took _ (all fragment inBounds)).resolve_left outside
  rcases held 0 some with ⟨several, assembly, payload, found, -⟩
  have slots : assembly.fragments.length = fragments :=
    (intact.assemblies found).1.trans (taken.fragments_eq (all 0 some) several).symm
  have full := isComplete_of_holds found fun fragment inBounds =>
    (held fragment (slots ▸ inBounds)).2
  rw [wellFormed.assembly_incomplete found] at full
  cases full

/-- A round keeps all places, and gives the part that it receives one. -/
theorem round (taken : Taken broadcast.content arrived state)
    (honest : timed.Admitted (Honest broadcast.content))
    (round : FlowRound config broadcast timed state next)
    (active : Active (OnTime config broadcast first timed.now) state)
    (stored : Active (OnTime config broadcast first timed.now) (storeReceived timed state)) :
    Taken broadcast.content (arrived ++ [timed]) next where
  honest := by
    rw [List.forall_mem_append, List.forall_mem_singleton]
    exact ⟨taken.honest, honest⟩
  took := by
    rintro header ⟨other, member, packet, receives, rfl⟩
    have kept := fun {before after} (phases : Phases config broadcast timed.now before after)
      (active : Active (OnTime config broadcast first timed.now) before)
      (took : before.Took packet.header) =>
      ((took_phase packet.header).phases phases ⟨active.1, active.2.1, active.2.2, took⟩).2.2.2
    rcases List.mem_append.mp member with earlier | last
    · have took := taken.took _ ⟨other, earlier, packet, receives, rfl⟩
      apply kept round.phases stored
      rw [storeReceived]
      split <;> exact took
    · rw [List.mem_singleton.mp last] at receives
      rcases round.takes packet receives with ⟨middle, phases, took, rest⟩
      exact kept rest (OnTime.phases phases active) took

end Taken

/-! ## Rounds -/

/-- What the frames of the rounds that are left have in common with the flow. -/
structure Onward (config : ReorderConfig) (broadcast : Broadcast) (since : Instant)
    (rest : List TimedInput) : Prop where
  honest : ∀ timed ∈ rest, timed.Admitted (Honest broadcast.content)
  sent : ∀ timed ∈ rest, timed.Admitted (ReceivedFrame.About (broadcast.Sent timed.now))
  recent : ∀ timed ∈ rest, ∀ packet, timed.input = .frame (.packet packet) → ∀ later,
    broadcast.Sent timed.now later → later + 1 < packet.header.sequence + restartBackwardGap
  steady : (since :: rest.map TimedInput.now).IsChain fun earlier later =>
    later < earlier + config.flowIdleReset

theorem Onward.tail {rest : List TimedInput}
    (onward : Onward config broadcast since (timed :: rest)) :
    Onward config broadcast timed.now rest where
  honest other member := onward.honest other (List.mem_cons_of_mem _ member)
  sent other member := onward.sent other (List.mem_cons_of_mem _ member)
  recent other member := onward.recent other (List.mem_cons_of_mem _ member)
  steady := (List.isChain_cons_cons.mp onward.steady).2

/-- Between rounds the flow is on time, and its head position is not buffered. -/
structure Flowing (config : ReorderConfig) (broadcast : Broadcast) (first : Nat)
    (arrived : List TimedInput) (now : Instant) (state : ReorderState) : Prop where
  consistent : Consistent state
  active : state.initialized = true
  onTime : OnTime config broadcast first now state
  taken : Taken broadcast.content arrived state
  drained : state.nextSeq ∉ state.buffered

namespace Flowing

theorem complete (flowing : Flowing config broadcast first arrived now state) {sequence : Nat}
    (complete : Complete arrived sequence) : state.Settled sequence :=
  flowing.taken.complete flowing.onTime.intact flowing.consistent.toWellFormed complete

theorem later (flowing : Flowing config broadcast first arrived since state) (later : since ≤ now)
    (overdue : ∀ sequence, first ≤ sequence →
      Overdue config broadcast.toSchedule now sequence → state.Settled sequence) :
    Active (OnTime config broadcast first now) state :=
  ⟨flowing.consistent.toWellFormed, flowing.active, flowing.onTime.later later overdue⟩

/-- As long as everything that is due is settled, the next round is one of the flow. -/
theorem reorderStep (flowing : Flowing config broadcast first arrived since state)
    {rest : List TimedInput} (onward : Onward config broadcast since (timed :: rest))
    (later : since ≤ timed.now)
    (expires : timed.input = .timeout → timed.now = since + timeoutDuration config state)
    (overdue : ∀ sequence, first ≤ sequence →
      Overdue config broadcast.toSchedule timed.now sequence → state.Settled sequence)
    (stepped : reorderStep config state timed = some next) :
    FlowRound config broadcast timed state next ∧
      Flowing config broadcast first (arrived ++ [timed]) timed.now next := by
  have busy : timed.input = .timeout → state.hasPendingState = true := by
    intro timeout
    by_contra idle
    have waited := expires timeout
    rw [timeoutDuration, if_neg idle] at waited
    have steady := (List.isChain_cons_cons.mp onward.steady).1
    exact Nat.ne_of_lt steady waited
  have active := flowing.later later overdue
  have honest := onward.honest _ List.mem_cons_self
  have sent := onward.sent _ List.mem_cons_self
  rcases reorderStep_round active honest sent (onward.recent _ List.mem_cons_self) busy with
    ⟨found, outcome, round⟩
  cases stepped.symm.trans outcome
  have stored := active_storeReceived active honest sent
  rcases OnTime.phases round.phases stored with ⟨wellFormed, initialized, onTime⟩
  exact ⟨round, .of_initialized wellFormed initialized, initialized, onTime,
    flowing.taken.round honest round active stored,
    reorderStep_drained flowing.consistent flowing.drained stepped⟩

end Flowing

/-- Before the first packet only parity frames have been stored. -/
structure Waiting (broadcast : Broadcast) (now : Instant) (state : ReorderState) : Prop where
  consistent : Consistent state
  idle : state.initialized = false
  intact : Intact broadcast.content state
  frames : ∀ {base : Nat} {frame : FecFrame}, state.fecState.frames[base]? = some frame →
    Over (broadcast.Sent now) frame
  trace : state.trace = []

theorem Waiting.nothing_pending (waiting : Waiting broadcast now state) :
    state.hasPendingState = false := by
  have buffered := waiting.consistent.idle_buffered waiting.idle
  have fragments := waiting.consistent.idle_fragments waiting.idle
  have seen := waiting.consistent.toWellFormed.seen_empty buffered
  simp [ReorderState.hasPendingState, buffered, fragments, seen]

theorem Waiting.reorderStep (waiting : Waiting broadcast since state) (later : since ≤ timed.now)
    (honest : timed.Admitted (Honest broadcast.content))
    (sent : timed.Admitted (ReceivedFrame.About (broadcast.Sent timed.now)))
    (other : ∀ packet, timed.input ≠ .frame (.packet packet))
    (stepped : reorderStep config state timed = some next) :
    Waiting broadcast timed.now next := by
  have consistent := waiting.consistent.reorderStep stepped
  have earlier : ∀ {base : Nat} {frame : FecFrame}, state.fecState.frames[base]? = some frame →
      Over (broadcast.Sent timed.now) frame :=
    fun found offset inFrame => (waiting.frames found offset inFrame).later later
  have idle : ¬ state.initialized = true := Bool.eq_false_iff.mp waiting.idle
  rcases timed with ⟨now, (packet | fec) | -⟩
  · exact absurd rfl (other packet)
  · have stored : onFec config now fec state =
        some { state with fecState := state.fecState.insertFrame fec.frame } := if_neg idle
    cases stored.symm.trans stepped
    refine ⟨consistent, waiting.idle, ?_, ?_, waiting.trace⟩
    · exact waiting.intact.roundMove (@RoundMove.store now _ _ fec (honest _ rfl))
    · intro base frame found
      rcases FecState.insertFrame_found found with ⟨-, rfl⟩ | found
      · exact sent _ rfl
      · exact earlier found
  · have unchanged : onTimeout config now state = some state := if_pos (by simp [waiting.idle])
    cases unchanged.symm.trans stepped
    exact ⟨consistent, waiting.idle, waiting.intact, earlier, waiting.trace⟩

/-- The first packet opens the flow at its position. -/
theorem Waiting.started (waiting : Waiting broadcast since state) (later : since ≤ now)
    (sent : broadcast.Sent now packet.header.sequence)
    (early : now < broadcast.sentAt packet.header.sequence + config.maxReorderDelay) :
    Active (OnTime config broadcast packet.header.sequence now) (startFlow packet state) := by
  have buffered := waiting.consistent.idle_buffered waiting.idle
  have fragments := waiting.consistent.idle_fragments waiting.idle
  have start : RoundMove now (Honest broadcast.content) state (startFlow packet state) :=
    .start waiting.idle
  refine ⟨(waiting.consistent.roundMove start).toWellFormed, rfl, ?_⟩
  constructor
  · exact waiting.intact.roundMove start
  · exact Nat.le_refl _
  · exact sent
  · exact fun sequence within behind => absurd behind (Nat.not_lt.mpr within)
  · rintro sequence since (⟨held, found, -⟩ | ⟨assembly, found, -⟩)
    · have found : state.buffered[sequence]? = some held := found
      simp [buffered] at found
    · have found : state.fragments[sequence]? = some assembly := found
      simp [fragments] at found
  · exact fun found offset inFrame => (waiting.frames found offset inFrame).later later
  · intro sequence within overdue
    have sentAt := broadcast.sentAt_le within
    exact absurd (Nat.lt_of_lt_of_le early (Nat.add_le_add_right sentAt _))
      (Nat.not_lt.mpr overdue.2)
  · show forwards (state.trace ++ [.flowStart packet.header.sequence]) = _
    rw [waiting.trace, Broadcast.between, startFlow, ReorderState.emit]
    simp [ReorderState.setReplyRoutes, forwards, Effect.forwarded]
  · intro sequence reason member
    have member : Effect.skip sequence reason ∈
        state.trace ++ [.flowStart packet.header.sequence] := member
    rw [waiting.trace] at member
    cases List.mem_singleton.mp member

/-- The rounds of the flow, as long as what is due has arrived. -/
theorem Flowing.run {rest : List TimedInput} {last : Instant} {final : ReorderState}
    (run : TimedRun config since state rest last final)
    (flowing : Flowing config broadcast first arrived since state)
    (onward : Onward config broadcast since rest)
    (due : ∀ {earlier timed later}, rest = earlier ++ timed :: later → ∀ {sequence},
      first ≤ sequence → Overdue config broadcast.toSchedule timed.now sequence →
      Complete (arrived ++ earlier) sequence) :
    Flowing config broadcast first (arrived ++ rest) last final := by
  induction run generalizing arrived with
  | done =>
      rw [List.append_nil]
      exact flowing
  | @round since _ state next _ timed _ later _ expires stepped _ induction =>
      have settled : ∀ sequence, first ≤ sequence →
          Overdue config broadcast.toSchedule timed.now sequence → state.Settled sequence := by
        intro sequence within overdue
        have complete := @due [] timed _ rfl sequence within overdue
        rw [List.append_nil] at complete
        exact flowing.complete complete
      rw [List.append_cons]
      apply induction (flowing.reorderStep onward later expires settled stepped).2 onward.tail
      intro earlier other others split sequence within overdue
      have complete := @due (timed :: earlier) other others
        (congrArg (List.cons timed) split) sequence within overdue
      rw [List.append_assoc]
      exact complete

/-- The round that opens the flow. -/
theorem Waiting.opens (waiting : Waiting broadcast since state) (later : since ≤ timed.now)
    (silent : ∀ other ∈ arrived, ∀ packet, other.input ≠ .frame (.packet packet))
    (honestBefore : ∀ other ∈ arrived, other.Admitted (Honest broadcast.content))
    (receives : timed.input = .frame (.packet packet))
    (honest : Honest broadcast.content (.packet packet))
    (sent : broadcast.Sent timed.now packet.header.sequence)
    (early : timed.now < broadcast.sentAt packet.header.sequence + config.maxReorderDelay)
    (stepped : Server.reorderStep config state timed = some next) :
    (Phases config broadcast timed.now (startFlow packet state) next ∧
        Ends config broadcast timed.now (startFlow packet state) next) ∧
      Flowing config broadcast packet.header.sequence (arrived ++ [timed]) timed.now next := by
  rcases timed with ⟨now, input⟩
  cases receives
  have started := waiting.started later sent early
  have same : Untouched (startFlow packet state) (joinFlow packet (startFlow packet state)) :=
    ⟨rfl, rfl, rfl, rfl, rfl, rfl⟩
  have join : Phase config broadcast now (startFlow packet state)
      (joinFlow packet (startFlow packet state)) :=
    .untouched same (List.append_nil _).symm (List.forall_mem_nil _)
  have joined := OnTime.phases (.single join) started
  have outcome : admitPacket packet (openFlow packet state) =
      .proceed (joinFlow packet (startFlow packet state)) := by
    rw [openFlow, if_neg (Bool.eq_false_iff.mp waiting.idle), admitPacket]
    exact if_neg (Nat.lt_irrefl _)
  rcases processAdmitted_takes joined honest sent with ⟨found, processed, takes, ends⟩
  have round : Server.reorderStep config state ⟨now, .frame (.packet packet)⟩ = some found := by
    show onPacket config now packet state = some found
    rw [onPacket, outcome]
    exact processed
  cases stepped.symm.trans round
  rcases takes with ⟨middle, phases, took, rest⟩
  have reached := OnTime.phases phases joined
  rcases OnTime.phases rest reached with ⟨wellFormed, active, onTime⟩
  refine ⟨⟨(phases.trans rest).head join, ends.cons join same⟩,
    .of_initialized wellFormed active, active, onTime, ⟨?_, ?_⟩, ?_⟩
  · rw [List.forall_mem_append, List.forall_mem_singleton]
    refine ⟨honestBefore, ?_⟩
    intro frame received
    cases received
    exact honest
  · rintro header ⟨other, member, received, receives, rfl⟩
    rcases List.mem_append.mp member with earlier | last
    · exact absurd receives (silent other earlier received)
    · cases List.mem_singleton.mp last
      cases receives
      exact ((took_phase packet.header).phases rest
        ⟨reached.1, reached.2.1, reached.2.2, took⟩).2.2.2
  · apply reorderStep_drained waiting.consistent _ stepped
    rw [waiting.consistent.idle_buffered waiting.idle]
    exact ExtTreeMap.not_mem_empty

theorem TimedRun.le_of_mem {inputs : List TimedInput} {last : Instant} {final : ReorderState}
    (run : TimedRun config since state inputs last final) :
    ∀ timed ∈ inputs, since ≤ timed.now := by
  induction run with
  | done => exact List.forall_mem_nil _
  | round later _ _ _ _ induction =>
      rw [List.forall_mem_cons]
      exact ⟨later, fun other member => Nat.le_trans later (induction other member)⟩

theorem TimedRun.split {earlier rest : List TimedInput} {last : Instant} {final : ReorderState}
    (run : TimedRun config since state (earlier ++ rest) last final) :
    ∃ middle reached, TimedRun config since state earlier middle reached ∧
      TimedRun config middle reached rest last final := by
  induction earlier generalizing since state with
  | nil => exact ⟨since, state, .done, run⟩
  | cons timed earlier induction =>
      cases run with
      | round later inTime expires stepped run =>
          rcases induction run with ⟨middle, reached, first, second⟩
          exact ⟨middle, reached, .round later inTime expires stepped first, second⟩

/-! ## A network that is only late -/

/-- From a packet on, nothing is silent for as long as the idle reset takes. -/
def NeverSilent (config : ReorderConfig) (inputs : List TimedInput) : Prop :=
  ∀ earlier opening packet later, inputs = earlier ++ opening :: later →
    opening.input = .frame (.packet packet) →
    ((opening :: later).map TimedInput.now).IsChain fun earlier later =>
      later < earlier + config.flowIdleReset

/-- The network may lose, repeat and reorder frames, but all parts of a position
arrive before it has been under way for the reorder delay, nothing arrives that
is a restart gap old, and it is never silent for as long as the idle reset takes. -/
structure OnlyLate (config : ReorderConfig) (schedule : Schedule) (first : Nat)
    (inputs : List TimedInput) : Prop where
  opens : ∃ earlier opening packet later, inputs = earlier ++ opening :: later ∧
    (∀ timed ∈ earlier, ∀ other, timed.input ≠ .frame (.packet other)) ∧
    opening.input = .frame (.packet packet) ∧ packet.header.sequence = first
  sent : ∀ timed ∈ inputs, timed.Admitted (ReceivedFrame.About (schedule.Sent timed.now))
  recent : ∀ timed ∈ inputs, ∀ packet, timed.input = .frame (.packet packet) → ∀ later,
    schedule.Sent timed.now later → later + 1 < packet.header.sequence + restartBackwardGap
  inTime : ∀ timed ∈ inputs, ∀ sequence, first ≤ sequence → sequence ≤ schedule.last →
    schedule.sentAt sequence + config.maxReorderDelay ≤ timed.now →
    Complete (inputs.filter fun other =>
      other.now < schedule.sentAt sequence + config.maxReorderDelay) sequence
  steady : NeverSilent config inputs

/-- What has arrived before an instant has arrived before every round that begins later. -/
theorem TimedRun.arrived_before {inputs earlier later : List TimedInput} {last : Instant}
    {final : ReorderState} (run : TimedRun config since state inputs last final)
    (split : inputs = earlier ++ timed :: later) {other : TimedInput} (member : other ∈ inputs)
    (before : other.now < timed.now) : other ∈ earlier := by
  rw [split] at member run
  rcases run.split with ⟨middle, reached, -, run⟩
  cases run with
  | round _ _ _ _ run =>
      rcases List.mem_append.mp member with arrived | others
      · exact arrived
      · rcases List.mem_cons.mp others with rfl | others
        · exact absurd before (Nat.lt_irrefl _)
        · exact absurd before (Nat.not_lt.mpr (run.le_of_mem other others))

theorem NeverSilent.of_isChain {inputs : List TimedInput}
    (steady : (inputs.map TimedInput.now).IsChain fun earlier later =>
      later < earlier + config.flowIdleReset) : NeverSilent config inputs := by
  rintro earlier opening packet later rfl _
  rw [List.map_append] at steady
  exact steady.right_of_append

/-- What is due when a round begins has arrived before. -/
theorem OnlyLate.due {schedule : Schedule} {inputs : List TimedInput}
    (late : OnlyLate config schedule first inputs) {last : Instant} {final : ReorderState}
    (run : TimedRun config since state inputs last final) {earlier later : List TimedInput}
    (split : inputs = earlier ++ timed :: later) {sequence : Nat} (within : first ≤ sequence)
    (overdue : Overdue config schedule timed.now sequence) : Complete earlier sequence := by
  have member : timed ∈ inputs := by
    rw [split]
    exact List.mem_append_right _ List.mem_cons_self
  rcases late.inTime timed member sequence within overdue.1 overdue.2 with ⟨fragments, some, all⟩
  refine ⟨fragments, some, ?_⟩
  intro fragment inBounds
  rcases all fragment inBounds with ⟨other, inTime, packet, receives⟩
  rcases List.mem_filter.mp inTime with ⟨other_mem, before⟩
  have before := Nat.lt_of_lt_of_le (of_decide_eq_true before) overdue.2
  exact ⟨other, run.arrived_before split other_mem before, packet, receives⟩

/-- What the loop makes of the flow, whatever order its frames arrive in. A position
is forwarded no later than in the round in which it and those before it have arrived. -/
structure HidesLateness (broadcast : Broadcast) (first : Nat) (inputs : List TimedInput)
    (final : ReorderState) : Prop where
  position : first ≤ final.nextSeq ∧ final.nextSeq ≤ broadcast.last + 1
  forwarded : forwards final.trace = broadcast.between first final.nextSeq
  unskipped : ∀ sequence reason, .skip sequence reason ∉ final.trace
  prompt : ∀ sequence,
    (∀ earlier, first ≤ earlier → earlier ≤ sequence → Complete inputs earlier) →
    sequence < final.nextSeq
  finished : (∀ sequence, first ≤ sequence → sequence ≤ broadcast.last →
      Complete inputs sequence) →
    forwards final.trace = broadcast.between first (broadcast.last + 1) ∧
      final.hasPendingState = false

theorem Flowing.prompt (flowing : Flowing config broadcast first arrived now state)
    {sequence : Nat}
    (settled : ∀ earlier, first ≤ earlier → earlier ≤ sequence → state.Settled earlier) :
    sequence < state.nextSeq := by
  by_contra ahead
  rcases settled state.nextSeq flowing.onTime.first_le (Nat.le_of_not_lt ahead) with passed | held
  · exact Nat.lt_irrefl _ passed
  · exact flowing.drained held

theorem OnTime.nextSeq_le_last (onTime : OnTime config broadcast first now state) :
    state.nextSeq ≤ broadcast.last + 1 := by
  rcases Nat.eq_or_lt_of_le onTime.first_le with same | further
  · exact same ▸ Nat.le_succ_of_le onTime.opened.1
  · have last := (onTime.passed (state.nextSeq - 1) (by omega) (by omega)).1
    omega

/-- When all positions are settled, nothing is left. -/
theorem Flowing.finished (flowing : Flowing config broadcast first arrived now state)
    (settled : ∀ sequence, first ≤ sequence → sequence ≤ broadcast.last →
      state.Settled sequence) :
    state.nextSeq = broadcast.last + 1 ∧ state.hasPendingState = false := by
  have position : state.nextSeq = broadcast.last + 1 :=
    Nat.le_antisymm flowing.onTime.nextSeq_le_last (flowing.prompt settled)
  have nothing : ∀ {sequence since}, ¬ state.Pending sequence since := by
    intro sequence since pending
    have ahead := flowing.consistent.toWellFormed.pending_ahead pending
    have sent := (flowing.onTime.pending pending).1.1
    omega
  have buffered : state.buffered = ∅ := by
    rw [ExtTreeMap.eq_empty_iff_forall_not_mem]
    intro sequence member
    rcases OrderedMap.mem_iff_getElem?.mp member with ⟨packet, found⟩
    exact nothing (Or.inl ⟨packet, found, rfl⟩)
  have fragments : state.fragments = ∅ := by
    rw [ExtTreeMap.eq_empty_iff_forall_not_mem]
    intro sequence member
    rcases OrderedMap.mem_iff_getElem?.mp member with ⟨assembly, found⟩
    exact nothing (Or.inr ⟨assembly, found, rfl⟩)
  have seen := flowing.consistent.toWellFormed.seen_empty buffered
  refine ⟨position, ?_⟩
  simp [ReorderState.hasPendingState, buffered, fragments, seen]

theorem Flowing.hidesLateness (flowing : Flowing config broadcast first arrived now state) :
    HidesLateness broadcast first arrived state where
  position := ⟨flowing.onTime.first_le, flowing.onTime.nextSeq_le_last⟩
  forwarded := flowing.onTime.forwarded
  unskipped := flowing.onTime.unskipped
  prompt _ complete := flowing.prompt fun earlier within before =>
    flowing.complete (complete earlier within before)
  finished complete := by
    rcases flowing.finished fun sequence within before =>
      flowing.complete (complete sequence within before) with ⟨position, nothing⟩
    exact ⟨position ▸ flowing.onTime.forwarded, nothing⟩

/-- The rounds before the first packet. -/
theorem Waiting.run {rest : List TimedInput} {last : Instant} {final : ReorderState}
    (run : TimedRun config since state rest last final) (waiting : Waiting broadcast since state)
    (honest : ∀ timed ∈ rest, timed.Admitted (Honest broadcast.content))
    (sent : ∀ timed ∈ rest, timed.Admitted (ReceivedFrame.About (broadcast.Sent timed.now)))
    (silent : ∀ timed ∈ rest, ∀ packet, timed.input ≠ .frame (.packet packet)) :
    Waiting broadcast last final := by
  induction run with
  | done => exact waiting
  | round later _ _ stepped _ induction =>
      rw [List.forall_mem_cons] at honest sent silent
      exact induction (waiting.reorderStep later honest.1 sent.1 silent.1 stepped) honest.2 sent.2
        silent.2

theorem waiting_initial (broadcast : Broadcast) : Waiting broadcast 0 .initial where
  consistent := .initial
  idle := rfl
  intact := .of_cleared rfl rfl rfl (by simp [ReorderState.initial])
  frames found := by simp [ReorderState.initial, FecState.empty] at found
  trace := rfl

/-- A run on a network that is only late keeps on time. -/
theorem OnlyLate.flowing {inputs : List TimedInput} {last : Instant} {final : ReorderState}
    (run : TimedRun config 0 .initial inputs last final)
    (honest : ∀ timed ∈ inputs, timed.Admitted (Honest broadcast.content))
    (late : OnlyLate config broadcast.toSchedule first inputs) :
    Flowing config broadcast first inputs last final := by
  have due := fun {earlier timed later} split {sequence} =>
    @OnlyLate.due config first 0 _ timed _ inputs late _ _ run earlier later split sequence
  rcases late.opens with ⟨earlier, opening, packet, rest, split, silent, receives, rfl⟩
  have sent := late.sent
  have recent := late.recent
  have steady := late.steady earlier opening packet rest split receives
  rw [split] at honest sent recent
  rw [split] at run
  rw [List.forall_mem_append, List.forall_mem_cons] at honest sent recent
  rcases run.split with ⟨since, reached, before, run⟩
  have waiting := (waiting_initial broadcast).run before honest.1 sent.1 silent
  have opens := sent.2.1 _ receives
  have early : opening.now <
      broadcast.sentAt packet.header.sequence + config.maxReorderDelay := by
    by_contra expired
    -- No packet has arrived before, so the first position cannot be complete.
    rcases due split (Nat.le_refl _) ⟨opens.1, Nat.le_of_not_lt expired⟩ with
      ⟨fragments, some, all⟩
    rcases all 0 some with ⟨other, member, received, receives, -⟩
    exact silent other member received receives
  cases run with
  | round later _ _ stepped run =>
      have flowing := (waiting.opens later silent honest.1 receives (honest.2.1 _ receives) opens
        early stepped).2
      have onward : Onward config broadcast opening.now rest :=
        ⟨honest.2.2, sent.2.2, recent.2.2, steady⟩
      have final := flowing.run run onward (by
        intro front timed back others
        apply @due _ _ back
        rw [split, others, List.append_assoc, List.append_assoc]
        rfl)
      rw [← List.append_cons, ← split] at final
      exact final

/-- When the network is only late the loop hides it. -/
theorem onlyLate_hidden {inputs : List TimedInput} {last : Instant} {final : ReorderState}
    (run : TimedRun config 0 .initial inputs last final)
    (honest : ∀ timed ∈ inputs, timed.Admitted (Honest broadcast.content))
    (late : OnlyLate config broadcast.toSchedule first inputs) :
    HidesLateness broadcast first inputs final :=
  (late.flowing run honest).hidesLateness

/-! ## Packets that overtake each other -/

/-- Frames that arrive at a pace that never lets a timer run out. -/
theorem TimedRun.of_paced {inputs : List TimedInput} {pace : Duration} {final : ReorderState}
    (short : pace ≤ config.expiryInterval ∧ pace ≤ config.flowIdleReset)
    (frames : ∀ timed ∈ inputs, timed.input ≠ .timeout)
    (paced : (since :: inputs.map TimedInput.now).IsChain fun earlier later =>
      earlier ≤ later ∧ later ≤ earlier + pace)
    (ran : inputs.foldlM (Server.reorderStep config) state = some final) :
    TimedRun config since state inputs ((inputs.map TimedInput.now).getLastD since) final := by
  induction inputs generalizing since state with
  | nil =>
      cases ran
      exact .done
  | cons timed rest induction =>
      rw [List.foldlM_cons] at ran
      rcases Option.bind_eq_some_iff.mp ran with ⟨next, stepped, finished⟩
      rw [List.forall_mem_cons] at frames
      rw [List.map_cons] at paced ⊢
      rcases List.isChain_cons_cons.mp paced with ⟨⟨later, inTime⟩, others⟩
      have waits : pace ≤ timeoutDuration config state := by
        rw [timeoutDuration]
        split
        · exact short.1
        · exact short.2
      rw [List.getLastD_cons]
      exact .round later (Nat.le_trans inTime (Nat.add_le_add_left waits since))
        (fun expired => absurd expired frames.1) stepped (induction frames.2 others finished)

/-- Four payloads that are sent two ticks apart. -/
def fourSent : Broadcast where
  content := ⟨fun _ => [1], fun _ => [[1]], fun _ => rfl⟩
  last := 3
  last_lt := by decide
  sentAt sequence := 2 * sequence
  sentAt_le earlier := Nat.mul_le_mul_left 2 earlier

/-- The second payload is overtaken by the third. -/
def overtaken : List TimedInput := [wholeAt 0 0, wholeAt 7 2, wholeAt 8 1, wholeAt 14 3]

theorem admitted_wholeAt {Holds : ReceivedFrame → Prop} {now : Instant} {sequence : Fin 16}
    (holds : ∀ packet : ReceivedPacket, packet.header = ⟨sequence, 0, 1⟩ → packet.payload = [1] →
      Holds (.packet packet)) : (wholeAt now sequence).Admitted Holds := by
  intro frame received
  cases received
  exact holds _ rfl rfl

theorem overtaken_honest :
    ∀ timed ∈ overtaken, timed.Admitted (Honest fourSent.content) := by
  have honest : ∀ (now : Instant) (sequence : Fin 16),
      (wholeAt now sequence).Admitted (Honest fourSent.content) := by
    intro now sequence
    apply admitted_wholeAt
    intro packet header payload
    exact .whole (congrArg PacketHeader.fragments header) payload
  simp only [overtaken, List.forall_mem_cons]
  exact ⟨honest _ _, honest _ _, honest _ _, honest _ _, List.forall_mem_nil _⟩

theorem complete_wholeAt {inputs : List TimedInput} {now : Instant} {sequence : Fin 16}
    (member : wholeAt now sequence ∈ inputs) : Complete inputs sequence := by
  refine ⟨1, Nat.one_pos, ?_⟩
  intro fragment first
  rw [Nat.lt_one_iff.mp first]
  exact ⟨_, member, _, rfl, rfl⟩

theorem overtaken_onlyLate : OnlyLate tolerant fourSent.toSchedule 0 overtaken := by
  constructor
  · exact ⟨[], _, _, _, rfl, List.forall_mem_nil _, rfl, rfl⟩
  · have sent : ∀ (now : Instant) (sequence : Fin 16), fourSent.Sent now sequence →
        (wholeAt now sequence).Admitted (ReceivedFrame.About (fourSent.Sent now)) := by
      intro now sequence sent
      apply admitted_wholeAt
      intro packet header payload
      show fourSent.Sent now packet.header.sequence
      rw [header]
      exact sent
    simp only [overtaken, List.forall_mem_cons]
    exact ⟨sent _ _ (by decide), sent _ _ (by decide), sent _ _ (by decide), sent _ _ (by decide),
      List.forall_mem_nil _⟩
  · intro timed member packet receives later sent
    have last : later ≤ 3 := sent.1
    rw [restartBackwardGap]
    omega
  · have latest : ∀ timed ∈ overtaken, timed.now ≤ 14 := by decide
    intro timed member sequence _ _ expired
    have expired : 2 * sequence + 10 ≤ 14 := Nat.le_trans expired (latest timed member)
    have early : sequence = 0 ∨ sequence = 1 ∨ sequence = 2 := by omega
    rcases early with rfl | rfl | rfl
    · apply @complete_wholeAt _ 0 0
      exact List.mem_filter.mpr ⟨List.mem_cons_self, by decide⟩
    · apply @complete_wholeAt _ 8 1
      exact List.mem_filter.mpr ⟨by simp [overtaken], by decide⟩
    · apply @complete_wholeAt _ 7 2
      exact List.mem_filter.mpr ⟨by simp [overtaken], by decide⟩
  · exact .of_isChain (by decide)

theorem overtaken_run (config : ReorderConfig)
    (slow : 10 ≤ config.expiryInterval ∧ 10 ≤ config.flowIdleReset) :
    ∃ final, reorderLoop config overtaken = some final ∧
      TimedRun config 0 .initial overtaken 14 final := by
  rcases (consistent_invariant config).reorderLoop trivial
    (fun timed (_ : timed ∈ overtaken) _ _ => trivial) with ⟨final, finished, -⟩
  have frames : ∀ timed ∈ overtaken, timed.input ≠ .timeout := by
    simp only [overtaken, List.forall_mem_cons]
    exact ⟨arrival_ne_timeout _ _, arrival_ne_timeout _ _, arrival_ne_timeout _ _,
      arrival_ne_timeout _ _, List.forall_mem_nil _⟩
  exact ⟨final, finished, @TimedRun.of_paced config 0 .initial overtaken 10 final slow frames
    (by decide) finished⟩

/-- Nothing of it shows. -/
theorem onlyLate_hidden_overtaken :
    ∃ final, reorderLoop tolerant overtaken = some final ∧
      HidesLateness fourSent 0 overtaken final := by
  rcases overtaken_run tolerant (by decide) with ⟨final, finished, run⟩
  exact ⟨final, finished, onlyLate_hidden run overtaken_honest overtaken_onlyLate⟩

end Irohsion.Server
