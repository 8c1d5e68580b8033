import Irohsion.Server.LoopInvariant

/-! # One arriving packet

How a round treats a packet of an active flow, by the position of its sequence:
behind the window it is only recorded, held already it is a duplicate, and a
fresh one is accepted or fills its assembly.
-/

namespace Irohsion.Server

open Protocol Std

/-- A packet that is received at some time. -/
def arrival (now : Instant) (packet : ReceivedPacket) : TimedInput :=
  ⟨now, .frame (.packet packet)⟩

/-- The effect moves the window or adds a payload to it. -/
def Effect.isDelivery : Effect → Bool
  | .accept _ _ => true
  | .forward _ _ => true
  | .skip _ _ => true
  | _ => false

/-- The effect records a packet as superfluous. -/
def Effect.isRejection : Effect → Bool
  | .duplicate _ => true
  | .lateAfterSkip _ => true
  | _ => false

theorem Effect.isDelivery_of_isRejection {effect : Effect} (rejects : effect.isRejection = true) :
    effect.isDelivery = false := by
  cases effect <;> first | rfl | cases rejects

/-- No payload is accepted, forwarded or skipped, and the window, the buffers
and the payload cache stay as they were. -/
structure Ignored (before after : ReorderState) : Prop where
  effects : ∃ effects, after.trace = before.trace ++ effects ∧
    ∀ effect ∈ effects, effect.isDelivery = false
  nextSeq : after.nextSeq = before.nextSeq
  buffered : after.buffered = before.buffered
  fragments : after.fragments = before.fragments
  cached : after.fecState.payloads = before.fecState.payloads

variable {config : ReorderConfig} {now : Instant} {packet : ReceivedPacket}
variable {state : ReorderState}

/-! ## The branches of a round -/

theorem admit_behind (active : state.initialized = true)
    (behind : packet.header.sequence < state.nextSeq)
    (member : packet.connectionId ∈ state.flowConnections) :
    admitPacket packet (openFlow packet state) =
      .continue (rejectLate packet (state.setReplyRoutes packet.remote false)) := by
  rw [openFlow, if_pos active, admitPacket]
  rw [if_pos (show packet.header.sequence < (state.setReplyRoutes _ _).nextSeq from behind),
    if_pos (show packet.connectionId ∈ (state.setReplyRoutes _ _).flowConnections from member)]

theorem onPacket_behind (config : ReorderConfig) (now : Instant)
    (active : state.initialized = true)
    (behind : packet.header.sequence < state.nextSeq)
    (member : packet.connectionId ∈ state.flowConnections) :
    onPacket config now packet state =
      some (rejectLate packet (state.setReplyRoutes packet.remote false)) := by
  rw [onPacket, admit_behind active behind member]

/-- The state in which a packet that is not behind is processed. -/
def joined (packet : ReceivedPacket) (state : ReorderState) : ReorderState :=
  joinFlow packet (state.setReplyRoutes packet.remote false)

theorem WellFormed.joined (wellFormed : WellFormed state) (packet : ReceivedPacket) :
    WellFormed (joined packet state) :=
  wellFormed.congr rfl rfl rfl rfl rfl

theorem admit_ahead (active : state.initialized = true)
    (ahead : state.nextSeq ≤ packet.header.sequence) :
    admitPacket packet (openFlow packet state) = .proceed (joined packet state) := by
  rw [openFlow, if_pos active, admitPacket]
  rw [if_neg (show ¬ packet.header.sequence < (state.setReplyRoutes _ _).nextSeq from
    Nat.not_lt.mpr ahead)]
  rfl

theorem onPacket_ahead (config : ReorderConfig) (now : Instant)
    (active : state.initialized = true)
    (ahead : state.nextSeq ≤ packet.header.sequence) :
    onPacket config now packet state =
      processAdmitted config now packet (joined packet state) := by
  rw [onPacket, admit_ahead active ahead]

theorem rejectLate_trace (packet : ReceivedPacket) (state : ReorderState) :
    ∃ effect, effect.isRejection = true ∧ rejectLate packet state = state.emit effect := by
  rw [rejectLate]
  split
  · exact ⟨.lateAfterSkip packet.header.sequence, rfl, rfl⟩
  · exact ⟨.duplicate packet.header.sequence, rfl, rfl⟩

/-- Recording an effect that delivers nothing ignores the packet. -/
theorem Ignored.emit {after : ReorderState} {effect : Effect}
    (trace : after.trace = state.trace ++ [effect]) (delivers : effect.isDelivery = false)
    (nextSeq : after.nextSeq = state.nextSeq) (buffered : after.buffered = state.buffered)
    (fragments : after.fragments = state.fragments)
    (fecState : after.fecState = state.fecState) : Ignored state after where
  effects := by
    refine ⟨[effect], trace, ?_⟩
    intro other member
    rw [List.mem_singleton.mp member]
    exact delivers
  nextSeq := nextSeq
  buffered := buffered
  fragments := fragments
  cached := congrArg FecState.payloads fecState

theorem ignored_of_behind (config : ReorderConfig) (now : Instant)
    (active : state.initialized = true) (behind : packet.header.sequence < state.nextSeq)
    (member : packet.connectionId ∈ state.flowConnections) :
    ∃ next, onPacket config now packet state = some next ∧ Ignored state next := by
  refine ⟨_, onPacket_behind config now active behind member, ?_⟩
  rcases rejectLate_trace packet (state.setReplyRoutes packet.remote false) with
    ⟨effect, rejects, outcome⟩
  rw [outcome]
  exact .emit rfl (Effect.isDelivery_of_isRejection rejects) rfl rfl rfl rfl

/-! ## What the window adds to the trace -/

/-- The forwarding of a payload that is settled at the next position. -/
def settleForwards (sequence : Nat) (payload : Bytes) (state : ReorderState) : List Effect :=
  if sequence = state.nextSeq then [.forward sequence payload] else []

theorem mem_settleForwards {sequence : Nat} {payload : Bytes} {state : ReorderState}
    {effect : Effect} (member : effect ∈ settleForwards sequence payload state) :
    sequence = state.nextSeq ∧ effect = .forward sequence payload := by
  rw [settleForwards] at member
  split at member
  · rename_i expected
    exact ⟨expected, List.mem_singleton.mp member⟩
  · cases member

theorem settle_trace (now : Instant) (sequence : Nat) (payload : Bytes) (state : ReorderState) :
    (settle now sequence payload state).trace =
      state.trace ++ .accept sequence payload :: settleForwards sequence payload state := by
  rw [settleForwards]
  by_cases expected : sequence = state.nextSeq
  · rw [settle_of_expected now payload expected, if_pos expected]
    simp [forwardAccepted, noteAccepted, ReorderState.release]
  · rw [settle_of_ahead now payload expected, if_neg expected]
    rfl

/-- A move appends no rejection, and it delivers or keeps the fragments. -/
theorem WindowMove.effects {Source : Nat → Bytes → Prop} {before after : ReorderState}
    (move : WindowMove config now Source before after) :
    ∃ effects, after.trace = before.trace ++ effects ∧
      (∀ effect ∈ effects, effect.isRejection = false) ∧
      ((∃ effect ∈ effects, effect.isDelivery = true) ∨
        SameContent before.fragments after.fragments) := by
  cases move with
  | report sequence length =>
      exact ⟨[_], rfl, by simp [Effect.isRejection], Or.inr (.refl _)⟩
  | @drain packet found =>
      exact ⟨[_], rfl, by simp [Effect.isRejection], Or.inl ⟨_, List.mem_singleton_self _, rfl⟩⟩
  | search => exact ⟨[], (List.append_nil _).symm, by simp, Or.inr (.refl _)⟩
  | @settle sequence payload _ _ _ =>
      refine ⟨_, settle_trace now sequence payload before, ?_, ?_⟩
      · intro effect member
        rcases List.mem_cons.mp member with rfl | member
        · rfl
        · rw [(mem_settleForwards member).2]
          rfl
      · exact Or.inl ⟨_, List.mem_cons_self, rfl⟩
  | request requests same =>
      refine ⟨requests.map .repairRequest, rfl, ?_, Or.inr same⟩
      intro effect member
      rcases List.mem_map.mp member with ⟨_, _, rfl⟩
      rfl
  | skipFragment _ _ _ | skipMissing _ _ _ _ =>
      exact ⟨[_], rfl, by simp [Effect.isRejection], Or.inl ⟨_, List.mem_singleton_self _, rfl⟩⟩

/-- The trace only grows. -/
def Extends (base state : ReorderState) : Prop :=
  ∃ effects, state.trace = base.trace ++ effects

theorem Extends.refl (base : ReorderState) : Extends base base :=
  ⟨[], (List.append_nil _).symm⟩

theorem Extends.append {base before after : ReorderState} {effects : List Effect}
    (extended : Extends base before) (trace : after.trace = before.trace ++ effects) :
    Extends base after := by
  rcases extended with ⟨earlier, beforeTrace⟩
  exact ⟨earlier ++ effects, by rw [trace, beforeTrace, List.append_assoc]⟩

theorem RoundMove.trace {now : Instant} {Admissible : ReceivedFrame → Prop}
    {before after : ReorderState} (move : RoundMove now Admissible before after) :
    ∃ effects, after.trace = before.trace ++ effects := by
  cases move with
  | start _ | restart _ _ | duplicate _ | lateAfterSkip _ => exact ⟨_, rfl⟩
  | routes _ | observe _ | join _ | assemble _ _ _ _ _ | store _ | idle _ _ =>
      exact ⟨[], (List.append_nil _).symm⟩

theorem WindowMove.extends {config : ReorderConfig} {now : Instant}
    {Source : Nat → Bytes → Prop} {base before after : ReorderState}
    (move : WindowMove config now Source before after) (extended : Extends base before) :
    Extends base after := by
  rcases move.effects with ⟨effects, trace, _⟩
  exact extended.append trace

theorem extends_invariant (config : ReorderConfig) (base : ReorderState) :
    LoopInvariant config (fun _ => True) (fun _ _ => True) (Extends base) where
  round := by
    intro now before after _ move extended
    rcases move.trace with ⟨effects, trace⟩
    exact extended.append trace
  window now :=
    { move := fun _ _ move extended => move.extends extended
      recovered := fun _ _ _ => trivial }
  whole _ _ := trivial
  assembled _ _ _ _ _ _ := trivial

/-- A buffered payload stays until it is forwarded. -/
theorem WindowMove.buffered {Source : Nat → Bytes → Prop} {before after : ReorderState}
    (move : WindowMove config now Source before after) {sequence : Nat}
    {held : BufferedPacket} (found : before.buffered[sequence]? = some held) :
    after.buffered[sequence]? = some held ∨
      after.trace = before.trace ++ [.forward sequence held.payload] := by
  cases move with
  | @drain packet head =>
      by_cases same : before.nextSeq = sequence
      · subst same
        cases found.symm.trans head
        exact Or.inr rfl
      · exact Or.inl ((OrderedMap.getElem?_erase_of_ne same).trans found)
  | @settle other payload _ fresh _ =>
      have different : other ≠ sequence := by
        intro same
        cases same
        exact fresh (Or.inr (Or.inr (OrderedMap.mem_of_getElem? found)))
      by_cases expected : other = before.nextSeq
      · rw [settle_of_expected now payload expected]
        exact Or.inl found
      · rw [settle_of_ahead now payload expected]
        exact Or.inl ((OrderedMap.getElem?_insert_of_ne different).trans found)
  | report _ _ | search | request _ _ | skipFragment _ _ _ | skipMissing _ _ _ _ =>
      exact Or.inl found

/-- Since `base`, something was delivered or the fragments are the same. -/
def Since (base state : ReorderState) : Prop :=
  ∃ effects, state.trace = base.trace ++ effects ∧
    ((∃ effect ∈ effects, effect.isDelivery = true) ∨
      SameContent base.fragments state.fragments)

theorem Since.refl (base : ReorderState) : Since base base :=
  ⟨[], (List.append_nil _).symm, Or.inr (SameContent.refl _)⟩

theorem Since.windowMove {Source : Nat → Bytes → Prop} {base before after : ReorderState}
    (since : Since base before) (move : WindowMove config now Source before after) :
    Since base after := by
  rcases since with ⟨earlier, trace, outcome⟩
  rcases move.effects with ⟨effects, appended, _, moved⟩
  refine ⟨earlier ++ effects, by rw [appended, trace, List.append_assoc], ?_⟩
  rcases outcome with ⟨effect, member, delivers⟩ | same
  · exact Or.inl ⟨effect, List.mem_append_left _ member, delivers⟩
  · rcases moved with ⟨effect, member, delivers⟩ | moved
    · exact Or.inl ⟨effect, List.mem_append_right _ member, delivers⟩
    · exact Or.inr fun sequence => (moved sequence).trans (same sequence)

theorem since_invariant (config : ReorderConfig) (now : Instant) (base : ReorderState) :
    ActiveInvariant config now (fun _ _ => True) (Since base) where
  move _ _ move since := since.windowMove move
  recovered _ _ _ := trivial

/-- A settled state is active whenever the state before is. -/
theorem active_settle (Invariant : ReorderState → Prop) (now : Instant) {sequence : Nat}
    (payload : Bytes) (wellFormed : WellFormed state) (active : state.initialized = true)
    (media : sequence ≤ maxMediaSequence) (fresh : state.Fresh sequence)
    (holds : Invariant (settle now sequence payload state)) :
    Active Invariant (settle now sequence payload state) := by
  have move : WindowMove ⟨none, 0, 0⟩ now (fun _ _ => True) state
      (settle now sequence payload state) := .settle media fresh trivial
  exact ⟨wellFormed.windowMove move, move.initialized.trans active, holds⟩

/-! ## The first packet of a flow -/

theorem Quiet.settle_expected {sequence : Nat} (quiet : Quiet state) (now : Instant)
    (payload : Bytes) (expected : sequence = state.nextSeq) :
    Quiet (settle now sequence payload state) := by
  rw [settle_of_expected now payload expected]
  constructor
  · exact quiet.buffered
  · show state.fragments.erase sequence = ∅
    rw [quiet.fragments, ExtTreeMap.erase_empty]
  · exact (FecState.insertPayload_frames _ _ _).trans quiet.frames

/-- The expected whole packet is all that a round of an empty window forwards. -/
theorem processAdmitted_of_quiet (config : ReorderConfig) (now : Instant) (quiet : Quiet state)
    (fresh : state.Fresh packet.header.sequence) (whole : packet.header.fragments = 1)
    (expected : packet.header.sequence = state.nextSeq) :
    processAdmitted config now packet state =
      some (settle now packet.header.sequence packet.payload state) := by
  have settled := quiet.settle_expected now packet.payload expected
  rw [processAdmitted, if_neg fresh, reassemble_whole whole]
  simp only [acceptCompletePayload_takeComplete, acceptCompletePayload_eq, if_pos expected,
    drainReady_of_absent settled.absent, recoverFecReady_of_no_frames now settled.frames,
    settled.advanceReorderWindow config now]

/-! ## Concrete runs -/

def wholeAt (now : Instant) (sequence : Fin 16) : TimedInput :=
  arrival now (.whole "client" 0 sequence [1]
    (Nat.le_trans (Nat.le_of_lt sequence.isLt) (by decide)))

def tolerant : ReorderConfig := ⟨none, 100, 10⟩

theorem exists_of_any {result : Option ReorderState} {Fact : ReorderState → Prop}
    [DecidablePred Fact] (evaluated : (result.any fun state => decide (Fact state)) = true) :
    ∃ state, result = some state ∧ Fact state := by
  cases result with
  | none => cases evaluated
  | some state => exact ⟨state, rfl, of_decide_eq_true evaluated⟩

/-- Two runs that differ in their last round give that round. -/
theorem reorderStep_of_reorderLoop {inputs : List TimedInput} {timed : TimedInput}
    {next : ReorderState} (reached : reorderLoop config inputs = some state)
    (reachedNext : reorderLoop config (inputs ++ [timed]) = some next) :
    reorderStep config state timed = some next := by
  rw [reorderLoop, List.foldlM_append] at reachedNext
  rw [show inputs.foldlM (reorderStep config) .initial = some state from reached] at reachedNext
  simpa using reachedNext

/-- A flow that starts with a whole packet forwards it at once. -/
theorem reorderLoop_single (config : ReorderConfig) (now : Instant)
    (whole : packet.header.fragments = 1) :
    reorderLoop config [arrival now packet] =
      some (settle now packet.header.sequence packet.payload
        (joinFlow packet (startFlow packet .initial))) := by
  have admitted : admitPacket packet (openFlow packet .initial) =
      .proceed (joinFlow packet (startFlow packet .initial)) := if_neg (Nat.lt_irrefl _)
  have quiet : Quiet (joinFlow packet (startFlow packet .initial)) := ⟨rfl, rfl, rfl⟩
  have fresh : (joinFlow packet (startFlow packet .initial)).Fresh packet.header.sequence := by
    intro rejected
    rcases rejected with behind | seen | held
    · exact Nat.lt_irrefl _ behind
    · cases seen
    · exact ExtTreeMap.not_mem_empty held
  have processed := processAdmitted_of_quiet config now quiet fresh whole rfl
  have stepped : reorderStep config .initial (arrival now packet) =
      some (settle now packet.header.sequence packet.payload
        (joinFlow packet (startFlow packet .initial))) := by
    rw [← processed]
    show onPacket config now packet .initial = _
    rw [onPacket, admitted]
  exact foldlM_reorderStep_cons stepped []

/-- What such a run leaves behind. -/
theorem reorderLoop_single_state (config : ReorderConfig) (now : Instant)
    (whole : packet.header.fragments = 1) :
    ∃ state, reorderLoop config [arrival now packet] = some state ∧
      state.initialized = true ∧ state.nextSeq = nextSequence packet.header.sequence ∧
      state.flowConnections = {packet.connectionId} ∧ state.restartDetector = .cleared ∧
      state.seen = ∅ ∧ state.buffered = ∅ ∧
      state.trace = [.flowStart packet.header.sequence,
        .accept packet.header.sequence packet.payload,
        .forward packet.header.sequence packet.payload] := by
  have expected : packet.header.sequence =
      (joinFlow packet (startFlow packet .initial)).nextSeq := rfl
  refine ⟨_, reorderLoop_single config now whole, ?_⟩
  rw [settle_of_expected now packet.payload expected]
  refine ⟨rfl, rfl, ?_, rfl, ?_, rfl, rfl⟩
  · show insert packet.connectionId (insert packet.connectionId ∅) = {packet.connectionId}
    rw [Finset.insert_idem]
    rfl
  · show (insert packet.header.sequence ∅ : Finset Nat).erase packet.header.sequence = ∅
    simp

end Irohsion.Server
