import Irohsion.Server.SpentFrames
import Irohsion.Server.TimelyDelivery

/-! # Rounds of a flow that recovers from losses

Between the rounds of a flow that is on time, every position is settled that peeling
the arrived parity frames gives back.
-/

namespace Irohsion.Server

open Protocol Std

variable {config : ReorderConfig} {broadcast : Broadcast} {schedule : Schedule}
variable {first width gap : Nat} {arrived : List TimedInput} {since now : Instant}
variable {state after next : ReorderState} {timed : TimedInput} {packet : ReceivedPacket}
variable {frame : FecFrame}

/-! ## What can be obtained -/

/-- The parity frame has arrived. -/
def ParityArrived (inputs : List TimedInput) (frame : FecFrame) : Prop :=
  ∃ timed ∈ inputs, ∃ fec : ReceivedFecFrame, timed.input = .frame (.fec fec) ∧ fec.frame = frame

/-- The position has arrived completely, or a parity frame of the flow gives it back
from the other members of its group. -/
inductive Obtainable (first : Nat) (inputs : List TimedInput) : Nat → Prop
  | complete {sequence : Nat} :
      Complete inputs sequence →
      Obtainable first inputs sequence
  | recovered {frame : FecFrame} {offset : Nat} :
      ParityArrived inputs frame →
      first ≤ frame.baseSequence →
      offset < frame.payloadLengths.length →
      (∀ other < frame.payloadLengths.length, other ≠ offset →
        Obtainable first inputs (sequenceAfter frame.baseSequence other)) →
      Obtainable first inputs (sequenceAfter frame.baseSequence offset)

theorem Obtainable.mono {fewer inputs : List TimedInput} (within : ∀ timed ∈ fewer, timed ∈ inputs)
    {sequence : Nat} (obtainable : Obtainable first fewer sequence) :
    Obtainable first inputs sequence := by
  induction obtainable with
  | complete complete =>
      rcases complete with ⟨fragments, some, all⟩
      refine .complete ⟨fragments, some, ?_⟩
      intro fragment inBounds
      rcases all fragment inBounds with ⟨timed, member, packet, receives⟩
      exact ⟨timed, within timed member, packet, receives⟩
  | recovered parity inFlow inFrame _ others =>
      rcases parity with ⟨timed, member, fec, receives⟩
      exact .recovered ⟨timed, within timed member, fec, receives⟩ inFlow inFrame others

/-! ## The frame store -/

theorem FecState.insertFrame_frames {fec : FecState} (few : fec.frames.size < fecFrameTrackLimit)
    (frame : FecFrame) :
    (fec.insertFrame frame).frames = fec.frames.insert frame.baseSequence frame := by
  have fits : (fec.frames.insert frame.baseSequence frame).size ≤ fecFrameTrackLimit :=
    Nat.le_trans ExtTreeMap.size_insert_le few
  rw [insertFrame, enforceFrameLimit, BreakLoop.run, enforceFrameStep, if_pos fits]

theorem FecState.insertFrame_self {fec : FecState} (few : fec.frames.size < fecFrameTrackLimit)
    (frame : FecFrame) : (fec.insertFrame frame).frames[frame.baseSequence]? = some frame := by
  rw [insertFrame_frames few]
  exact ExtTreeMap.getElem?_insert_self

/-- Groups do not overlap, and the store has room for those under way. -/
structure Grouped (first width gap : Nat) (inputs : List TimedInput) : Prop where
  near : ∀ frame, ParityArrived inputs frame → first < frame.baseSequence + width
  spaced : ∀ frame other, ParityArrived inputs frame → ParityArrived inputs other →
    frame = other ∨ frame.baseSequence + gap ≤ other.baseSequence ∨
      other.baseSequence + gap ≤ frame.baseSequence
  room : width + maxFecGroupPackets ≤ 127 * gap

/-- The frame of this base has arrived, and it is live if it belongs to the flow. -/
structure HeldFrame (config : ReorderConfig) (schedule : Schedule) (first : Nat)
    (arrived : List TimedInput) (now : Instant) (base : Nat) (frame : FecFrame) : Prop where
  keyed : frame.baseSequence = base
  arrived : ParityArrived arrived frame
  live : first ≤ base → Live config schedule now frame

/-- No frame has to go for one that arrives. -/
theorem Grouped.few {inputs : List TimedInput} (grouped : Grouped first width gap inputs)
    {frames : ExtTreeMap Nat FecFrame}
    (held : ∀ {base : Nat} {frame : FecFrame}, frames[base]? = some frame →
      frame.baseSequence = base ∧ ParityArrived inputs frame)
    (close : ∀ {base other : Nat}, base ∈ frames → other ∈ frames → first ≤ base →
      other < base + (width + maxFecGroupPackets)) :
    frames.size < fecFrameTrackLimit := by
  have stored : ∀ base ∈ frames.keys, ∃ frame : FecFrame, frame.baseSequence = base ∧
      ParityArrived inputs frame := by
    intro base member
    rcases OrderedMap.mem_iff_getElem?.mp (ExtTreeMap.mem_keys.mp member) with ⟨frame, found⟩
    exact ⟨frame, held found⟩
  have spaced : ∀ left ∈ frames.keys, ∀ right ∈ frames.keys, left < right →
      left + gap ≤ right := by
    intro left leftMember right rightMember before
    rcases stored left leftMember with ⟨frame, rfl, frameArrived⟩
    rcases stored right rightMember with ⟨other, rfl, otherArrived⟩
    rcases grouped.spaced frame other frameArrived otherArrived with rfl | apart | apart
    · exact absurd before (Nat.lt_irrefl _)
    · exact apart
    · omega
  have part : ∀ kind : Nat → Bool,
      (∀ left ∈ frames.keys, kind left = true → ∀ right ∈ frames.keys, kind right = true →
        right < left + (width + maxFecGroupPackets)) →
      (frames.keys.filter kind).length ≤ 127 := by
    intro kind near
    apply Spaced.length_le_of_close (ExtTreeMap.nodup_keys.filter _) _ _ grouped.room
    · intro left leftMember right rightMember
      exact spaced left (List.mem_filter.mp leftMember).1 right (List.mem_filter.mp rightMember).1
    · intro left leftMember right rightMember
      rw [List.mem_filter] at leftMember rightMember
      exact near left leftMember.1 leftMember.2 right rightMember.1 rightMember.2
  have flow := part (fun base => decide (first ≤ base)) (by
    intro left leftMember leftKind right rightMember _
    exact close (ExtTreeMap.mem_keys.mp leftMember) (ExtTreeMap.mem_keys.mp rightMember)
      (of_decide_eq_true leftKind))
  have before := part (fun base => !decide (first ≤ base)) (by
    intro left leftMember _ right _ rightKind
    rcases stored left leftMember with ⟨frame, rfl, arrived⟩
    have near := grouped.near frame arrived
    have behind : ¬ first ≤ right := by simpa using rightKind
    omega)
  have total := @List.length_eq_length_filter_add _ frames.keys fun base => decide (first ≤ base)
  rw [ExtTreeMap.length_keys] at total
  have limit : fecFrameTrackLimit = 256 := rfl
  omega

/-- A stored frame is only replaced by itself. -/
theorem Grouped.keeps {inputs : List TimedInput} (grouped : Grouped first width gap inputs)
    {fec : FecState} (few : fec.frames.size < fecFrameTrackLimit) {other : FecFrame}
    (parity : ParityArrived inputs frame) (last : ParityArrived inputs other)
    (found : fec.frames[frame.baseSequence]? = some frame) :
    (fec.insertFrame other).frames[frame.baseSequence]? = some frame := by
  by_cases here : other.baseSequence = frame.baseSequence
  · have room := grouped.room
    have positive : 0 < maxFecGroupPackets := by decide
    rcases grouped.spaced frame other parity last with rfl | apart | apart
    · exact FecState.insertFrame_self few frame
    · omega
    · omega
  · rw [FecState.insertFrame_frames few, OrderedMap.getElem?_insert_of_ne here]
    exact found

theorem ParityArrived.append {earlier later : List TimedInput}
    (parity : ParityArrived earlier frame) : ParityArrived (earlier ++ later) frame := by
  rcases parity with ⟨timed, member, rest⟩
  exact ⟨timed, List.mem_append_left later member, rest⟩

/-- The frame that arrives last, or an earlier one. -/
theorem ParityArrived.of_append {earlier : List TimedInput}
    (parity : ParityArrived (earlier ++ [timed]) frame) : ParityArrived earlier frame ∨
      ∃ fec : ReceivedFecFrame, timed.input = .frame (.fec fec) ∧ fec.frame = frame := by
  rcases parity with ⟨other, member, fec, receives, same⟩
  rcases List.mem_append.mp member with before | last
  · exact Or.inl ⟨other, before, fec, receives, same⟩
  · rw [List.mem_singleton.mp last] at receives
    exact Or.inr ⟨fec, receives, same⟩

theorem HeldFrame.append {base : Nat}
    (held : HeldFrame config schedule first arrived now base frame) :
    HeldFrame config schedule first (arrived ++ [timed]) now base frame :=
  ⟨held.keyed, held.arrived.append, held.live⟩

/-- The calls of a round store no frame. -/
theorem stored_phase (Kept : Nat → FecFrame → Prop) :
    PhaseInvariant config broadcast first now fun state => ∀ base frame,
      state.fecState.frames[base]? = some frame → Kept base frame where
  untouched same kept := by
    rw [same.fecState]
    exact kept
  assemble _ kept := kept
  move _ _ _ move kept := fun base frame found => kept base frame (move.frames found)

theorem Spent.phases (pace : Pace config broadcast.toSchedule width)
    (phases : Phases config broadcast now state next)
    (active : Active (fun state => OnTime config broadcast first now state ∧
      Remembers broadcast first width now state) state)
    (spent : Spent frame state) : Spent frame next := by
  have both : Active (fun state => OnTime config broadcast first now state ∧
      Remembers broadcast first width now state) next ∧ Spent frame next := by
    induction phases with
    | refl => exact ⟨active, spent⟩
    | tail _ phase induction =>
        exact ⟨(remembers_phase pace).phase phase induction.1,
          induction.2.phase pace phase induction.1⟩
  exact both.2

/-! ## Rounds -/

/-- Between rounds, the flow is on time, the cache reaches back far enough, and every
frame that has arrived is stored or used up. -/
structure Recovering (config : ReorderConfig) (broadcast : Broadcast) (first width : Nat)
    (arrived : List TimedInput) (now : Instant) (state : ReorderState) : Prop
    extends Flowing config broadcast first arrived now state where
  remembers : Remembers broadcast first width now state
  held : ∀ base frame, state.fecState.frames[base]? = some frame →
    HeldFrame config broadcast.toSchedule first arrived now base frame
  spent : ∀ frame, ParityArrived arrived frame → Spent frame state
  stuck : state.Stuck

namespace Recovering

/-- Two members of a stored frame of the flow are not settled. -/
theorem unsettled (recovering : Recovering config broadcast first width arrived now state)
    (pace : Pace config broadcast.toSchedule width) {base : Nat}
    (found : state.fecState.frames[base]? = some frame) (within : first ≤ base) :
    ∃ left right, left < right ∧ right < frame.payloadLengths.length ∧
      ¬ state.Settled (sequenceAfter frame.baseSequence left) ∧
      ¬ state.Settled (sequenceAfter frame.baseSequence right) := by
  rcases recovering.stuck base frame found with
    ⟨left, right, before, inFrame, unknownLeft, unknownRight⟩
  have held := recovering.held base frame found
  have valid := recovering.consistent.frame_valid found
  have sentOnly := recovering.onTime.frames found
  have known : ∀ {offset}, offset < frame.payloadLengths.length →
      state.fecState.payloadFor state.buffered (sequenceAfter frame.baseSequence offset) = none →
      ¬ state.Settled (sequenceAfter frame.baseSequence offset) := by
    intro offset inFrame unknown settled
    exact recovering.remembers.known_of_settled pace (held.live within) sentOnly valid
      (held.keyed.symm ▸ within) inFrame settled unknown
  exact ⟨left, right, before, inFrame, known (by omega) unknownLeft, known inFrame unknownRight⟩

/-- Whatever can be obtained is settled. -/
theorem settled (recovering : Recovering config broadcast first width arrived now state)
    (pace : Pace config broadcast.toSchedule width) {sequence : Nat}
    (obtainable : Obtainable first arrived sequence) : state.Settled sequence := by
  induction obtainable with
  | complete complete => exact recovering.toFlowing.complete complete
  | @recovered frame offset parity within inFrame _ others =>
      rcases recovering.spent frame parity with stored | done
      · rcases recovering.unsettled pace stored within with
          ⟨left, right, before, bound, unsettledLeft, unsettledRight⟩
        by_cases here : left = offset
        · exact absurd (others right bound (by omega)) unsettledRight
        · exact absurd (others left (by omega) here) unsettledLeft
      · exact done offset inFrame

end Recovering

/-- What a round works on once the frame that it received has been stored. -/
structure Entered (config : ReorderConfig) (broadcast : Broadcast) (first width : Nat)
    (arrived : List TimedInput) (now : Instant) (state : ReorderState) : Prop where
  remembers : Remembers broadcast first width now state
  held : ∀ base frame, state.fecState.frames[base]? = some frame →
    HeldFrame config broadcast.toSchedule first arrived now base frame
  spent : ∀ frame, ParityArrived arrived frame → Spent frame state

namespace Entered

theorem of_receives_none (entered : Entered config broadcast first width arrived timed.now state)
    (other : ∀ fec, timed.input ≠ .frame (.fec fec)) :
    Entered config broadcast first width (arrived ++ [timed]) timed.now state where
  remembers := entered.remembers
  held base frame found := (entered.held base frame found).append
  spent frame parity := by
    rcases parity.of_append with earlier | ⟨fec, receives, -⟩
    · exact entered.spent frame earlier
    · exact absurd receives (other fec)

/-- A frame that arrives finds room in the store. -/
theorem store (entered : Entered config broadcast first width arrived now state)
    (pace : Pace config broadcast.toSchedule width)
    (grouped : Grouped first width gap (arrived ++ [timed]))
    (onTime : OnTime config broadcast first now state) (wellFormed : WellFormed state)
    {fec : ReceivedFecFrame} (receives : timed.input = .frame (.fec fec))
    (early : now < broadcast.sentAt fec.frame.baseSequence + config.maxReorderDelay) :
    Entered config broadcast first width (arrived ++ [timed]) now
      { state with fecState := state.fecState.insertFrame fec.frame } := by
  have last : ParityArrived (arrived ++ [timed]) fec.frame :=
    ⟨timed, List.mem_append_right _ (List.mem_singleton_self _), fec, receives, rfl⟩
  have few : state.fecState.frames.size < fecFrameTrackLimit := by
    apply grouped.few
    · intro base frame found
      exact ⟨(entered.held base frame found).keyed, (entered.held base frame found).arrived.append⟩
    · intro base other baseStored otherStored within
      rcases OrderedMap.mem_iff_getElem?.mp baseStored with ⟨frame, found⟩
      rcases OrderedMap.mem_iff_getElem?.mp otherStored with ⟨otherFrame, otherFound⟩
      have held := entered.held base frame found
      have otherHeld := entered.held other otherFrame otherFound
      have otherSent := onTime.frames otherFound 0 (wellFormed.frame_valid otherFound).2.1.1
      have narrow := (held.live within).narrow pace (onTime.frames found)
        (wellFormed.frame_valid found) otherSent
      rw [held.keyed, show sequenceAfter otherFrame.baseSequence 0 = other from
        otherHeld.keyed] at narrow
      omega
  have frames := FecState.insertFrame_frames few fec.frame
  constructor
  · exact entered.remembers.store fec.frame
  · intro base frame found
    rw [frames] at found
    rcases OrderedMap.getElem?_insert_eq_some found with ⟨rfl, rfl⟩ | earlier
    · exact ⟨rfl, last, fun _ => ⟨0, fec.valid.2.1.1, early⟩⟩
    · exact (entered.held base frame earlier).append
  · intro frame parity
    rcases parity.of_append with earlier | ⟨same, again, rfl⟩
    · rcases entered.spent frame earlier with found | done
      · exact Or.inl (grouped.keeps few parity last found)
      · exact Or.inr done
    · cases receives.symm.trans again
      exact Or.inl (FecState.insertFrame_self few _)

/-- The calls of the round keep all of it. -/
theorem phases (entered : Entered config broadcast first width arrived now state)
    (pace : Pace config broadcast.toSchedule width)
    (active : Active (OnTime config broadcast first now) state)
    (phases : Phases config broadcast now state next) :
    Entered config broadcast first width arrived now next := by
  rcases active with ⟨wellFormed, initialized, onTime⟩
  have both : Active (fun state => OnTime config broadcast first now state ∧
      Remembers broadcast first width now state) state :=
    ⟨wellFormed, initialized, onTime, entered.remembers⟩
  constructor
  · exact ((remembers_phase pace).phases phases both).2.2.2
  · exact ((stored_phase _).phases phases ⟨wellFormed, initialized, onTime, entered.held⟩).2.2.2
  · exact fun frame parity => (entered.spent frame parity).phases pace phases both

end Entered

theorem Recovering.reorderStep
    (recovering : Recovering config broadcast first width arrived since state)
    (pace : Pace config broadcast.toSchedule width)
    (grouped : Grouped first width gap (arrived ++ [timed])) {rest : List TimedInput}
    (onward : Onward config broadcast since (timed :: rest)) (later : since ≤ timed.now)
    (expires : timed.input = .timeout → timed.now = since + timeoutDuration config state)
    (due : ∀ sequence, first ≤ sequence →
      Overdue config broadcast.toSchedule timed.now sequence → Obtainable first arrived sequence)
    (early : ∀ fec, timed.input = .frame (.fec fec) →
      timed.now < broadcast.sentAt fec.frame.baseSequence + config.maxReorderDelay)
    (stepped : reorderStep config state timed = some next) :
    Recovering config broadcast first width (arrived ++ [timed]) timed.now next := by
  have settled : ∀ sequence, first ≤ sequence →
      Overdue config broadcast.toSchedule timed.now sequence → state.Settled sequence :=
    fun sequence within overdue => recovering.settled pace (due sequence within overdue)
  have active := recovering.toFlowing.later later settled
  rcases recovering.toFlowing.reorderStep onward later expires settled stepped with
    ⟨round, flowing⟩
  have remembers : Remembers broadcast first width timed.now state := by
    apply recovering.remembers.later later pace
    intro inRange
    by_contra expired
    have within := recovering.onTime.first_le
    rcases settled _ within ⟨inRange, Nat.le_of_not_lt expired⟩ with passed | held
    · exact Nat.lt_irrefl _ passed
    · exact recovering.drained held
  have entered : Entered config broadcast first width arrived timed.now state := by
    refine ⟨remembers, ?_, recovering.spent⟩
    intro base frame found
    have held := recovering.held base frame found
    refine ⟨held.keyed, held.arrived, ?_⟩
    intro within
    -- One of the members that are not settled is not due.
    rcases recovering.unsettled pace found within with ⟨left, right, before, bound, waits, -⟩
    have sentOnly := recovering.onTime.frames found
    have inFrame : left < frame.payloadLengths.length := Nat.lt_trans before bound
    refine ⟨left, inFrame, Nat.lt_of_not_le fun expired => waits (settled _ ?_ ⟨?_, expired⟩)⟩
    · rw [sequenceAfter_of_over sentOnly inFrame, held.keyed]
      exact Nat.le_add_right_of_le within
    · exact (sentOnly left inFrame).1
  have stored : Entered config broadcast first width (arrived ++ [timed]) timed.now
      (storeReceived timed state) := by
    rcases timed with ⟨now, (packet | fec) | -⟩
    · exact entered.of_receives_none fun _ impossible => by cases impossible
    · exact entered.store pace grouped active.2.2 active.1 rfl (early fec rfl)
    · exact entered.of_receives_none fun _ impossible => by cases impossible
  have reached := stored.phases pace (active_storeReceived active
    (onward.honest _ List.mem_cons_self) (onward.sent _ List.mem_cons_self)) round.phases
  have stuck := reorderStep_stuck recovering.consistent (fun _ => recovering.stuck) stepped
    flowing.active
  exact ⟨flowing, reached.remembers, reached.held, reached.spent, stuck⟩

/-! ## Before the first packet -/

/-- Before the first packet all arrived frames have been stored, and nothing else. -/
structure Gathering (broadcast : Broadcast) (arrived : List TimedInput) (now : Instant)
    (state : ReorderState) : Prop extends Waiting broadcast now state where
  uncached : state.fecState.payloadStore = Queued.Store.empty
  held : ∀ base frame, state.fecState.frames[base]? = some frame →
    frame.baseSequence = base ∧ ParityArrived arrived frame
  stored : ∀ frame, ParityArrived arrived frame →
    state.fecState.frames[frame.baseSequence]? = some frame

namespace Gathering

theorem initial (broadcast : Broadcast) : Gathering broadcast [] 0 .initial where
  toWaiting := waiting_initial broadcast
  uncached := rfl
  held base frame found := by simp [ReorderState.initial, FecState.empty] at found
  stored := by
    rintro frame ⟨timed, member, -⟩
    cases member

theorem reorderStep (gathering : Gathering broadcast arrived since state)
    (pace : Pace config broadcast.toSchedule width)
    (grouped : Grouped first width gap (arrived ++ [timed])) (later : since ≤ timed.now)
    (early : timed.now < broadcast.sentAt first + config.maxReorderDelay)
    (honest : timed.Admitted (Honest broadcast.content))
    (sent : timed.Admitted (ReceivedFrame.About (broadcast.Sent timed.now)))
    (other : ∀ packet, timed.input ≠ .frame (.packet packet))
    (stepped : reorderStep config state timed = some next) :
    Gathering broadcast (arrived ++ [timed]) timed.now next := by
  have waiting := gathering.toWaiting.reorderStep later honest sent other stepped
  have idle : ¬ state.initialized = true := Bool.eq_false_iff.mp gathering.idle
  have unchanged : (∀ fec, timed.input ≠ .frame (.fec fec)) → next.fecState = state.fecState →
      Gathering broadcast (arrived ++ [timed]) timed.now next := by
    intro none same
    refine ⟨waiting, same ▸ gathering.uncached, ?_, ?_⟩
    · rw [same]
      exact fun base frame found => (gathering.held base frame found).imp_right (·.append)
    · rw [same]
      intro frame parity
      rcases parity.of_append with earlier | ⟨fec, receives, -⟩
      · exact gathering.stored frame earlier
      · exact absurd receives (none fec)
  rcases timed with ⟨now, (packet | fec) | -⟩
  · exact absurd rfl (other packet)
  · have stored : onFec config now fec state =
        some { state with fecState := state.fecState.insertFrame fec.frame } := if_neg idle
    cases stored.symm.trans stepped
    have last : ParityArrived (arrived ++ [⟨now, .frame (.fec fec)⟩]) fec.frame :=
      ⟨_, List.mem_append_right _ (List.mem_singleton_self _), fec, rfl, rfl⟩
    have few : state.fecState.frames.size < fecFrameTrackLimit := by
      apply grouped.few
      · exact fun found => (gathering.held _ _ found).imp_right (·.append)
      · intro base other _ otherStored within
        rcases OrderedMap.mem_iff_getElem?.mp otherStored with ⟨frame, found⟩
        have base_sent := gathering.frames found 0 (gathering.consistent.frame_valid found).2.1.1
        have narrow := pace.narrow early (base_sent.later later)
        rw [show sequenceAfter frame.baseSequence 0 = other from (gathering.held _ _ found).1]
          at narrow
        omega
    refine ⟨waiting, ?_, ?_, ?_⟩
    · exact (FecState.payloadStore_insertFrame _ _).trans gathering.uncached
    · intro base frame found
      rcases FecState.insertFrame_found found with ⟨rfl, rfl⟩ | earlier
      · exact ⟨rfl, last⟩
      · exact (gathering.held base frame earlier).imp_right (·.append)
    · intro frame parity
      rcases parity.of_append with earlier | ⟨same, again, rfl⟩
      · exact grouped.keeps few parity last (gathering.stored frame earlier)
      · cases again
        exact FecState.insertFrame_self few _
  · have same : onTimeout config now state = some state := if_pos (by simp [gathering.idle])
    cases same.symm.trans stepped
    exact unchanged (fun _ impossible => by cases impossible) rfl

/-- The round that opens the flow. -/
theorem opens (gathering : Gathering broadcast arrived since state)
    (pace : Pace config broadcast.toSchedule width) (later : since ≤ timed.now)
    (silent : ∀ other ∈ arrived, ∀ packet, other.input ≠ .frame (.packet packet))
    (honestBefore : ∀ other ∈ arrived, other.Admitted (Honest broadcast.content))
    (receives : timed.input = .frame (.packet packet))
    (honest : Honest broadcast.content (.packet packet))
    (sent : broadcast.Sent timed.now packet.header.sequence)
    (early : timed.now < broadcast.sentAt packet.header.sequence + config.maxReorderDelay)
    (stepped : Server.reorderStep config state timed = some next) :
    Recovering config broadcast packet.header.sequence width (arrived ++ [timed]) timed.now
      next := by
  rcases gathering.toWaiting.opens later silent honestBefore receives honest sent early stepped with
    ⟨⟨phases, -⟩, flowing⟩
  have started := gathering.toWaiting.started later sent early
  have entered : Entered config broadcast packet.header.sequence width (arrived ++ [timed])
      timed.now (startFlow packet state) := by
    constructor
    · exact .of_empty pace rfl early gathering.uncached
        (gathering.consistent.idle_buffered gathering.idle)
    · intro base frame found
      have valid := gathering.consistent.frame_valid found
      rcases gathering.held base frame found with ⟨rfl, parity⟩
      refine ⟨rfl, parity.append, ?_⟩
      intro within
      have sentAt := broadcast.sentAt_le within
      exact ⟨0, valid.2.1.1, Nat.lt_of_lt_of_le early (Nat.add_le_add_right sentAt _)⟩
    · intro frame parity
      rcases parity.of_append with earlier | ⟨fec, impossible, -⟩
      · exact Or.inl (gathering.stored frame earlier)
      · cases receives.symm.trans impossible
  have reached := entered.phases pace started phases
  have stuck := reorderStep_stuck gathering.consistent
    (fun active => absurd active (Bool.eq_false_iff.mp gathering.idle)) stepped flowing.active
  exact ⟨flowing, reached.remembers, reached.held, reached.spent, stuck⟩

end Gathering

end Irohsion.Server
