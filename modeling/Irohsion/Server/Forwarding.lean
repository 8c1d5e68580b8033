import Irohsion.Server.Integrity
import Irohsion.Server.Pending
import Irohsion.Server.RestartHistory
import Irohsion.Server.Shelter

/-! # What the window forwards

Every move of the window skips the head position, forwards it or stays there.
On frames about the positions of a stream without a wrap, each flow forwards
payloads of this stream, in its order and each once.
-/

namespace Irohsion.Server

open Protocol Std

variable {config : ReorderConfig} {now : Instant} {Source : Nat → Bytes → Prop}
variable {state before after : ReorderState}

/-! ## Effects and moves -/

/-- What the loop forwards, in order. -/
def Effect.forwarded : Effect → Option (Nat × Bytes)
  | .forward sequence payload => some (sequence, payload)
  | _ => none

def forwards (trace : List Effect) : List (Nat × Bytes) :=
  trace.filterMap Effect.forwarded

theorem forwards_append (earlier later : List Effect) :
    forwards (earlier ++ later) = forwards earlier ++ forwards later :=
  List.filterMap_append

theorem forwards_of_silent {effects : List Effect}
    (silent : ∀ effect ∈ effects, effect.isDelivery = false) : forwards effects = [] := by
  rw [forwards, List.filterMap_eq_nil_iff]
  intro effect member
  have delivers := silent effect member
  cases effect with
  | forward _ _ => cases delivers
  | _ => rfl

/-- Every member of the frame has the property. -/
def Over (Holds : Nat → Prop) (frame : FecFrame) : Prop :=
  ∀ offset < frame.payloadLengths.length, Holds (sequenceAfter frame.baseSequence offset)

/-- Every sequence that the frame is about has the property. -/
def ReceivedFrame.About (Holds : Nat → Prop) : ReceivedFrame → Prop
  | .packet received => Holds received.header.sequence
  | .fec received => Over Holds received.frame

theorem ReceivedFrame.About.mono {Holds Wider : Nat → Prop} {frame : ReceivedFrame}
    (about : frame.About Holds) (wider : ∀ sequence, Holds sequence → Wider sequence) :
    frame.About Wider := by
  cases frame with
  | packet received => exact wider _ about
  | fec received => exact fun offset inFrame => wider _ (about offset inFrame)

/-! ### One move -/

/-- A move adds no parity frame. -/
theorem WindowMove.frames (move : WindowMove config now Source before after) {base : Nat}
    {frame : FecFrame} (found : after.fecState.frames[base]? = some frame) :
    before.fecState.frames[base]? = some frame := by
  cases move with
  | drain _ =>
      rw [drainPacket, FecState.insertPayload_frames] at found
      exact found
  | search => exact (FecState.recoverReady_searched _ _ _).frames found
  | @settle sequence payload _ _ _ =>
      have kept : (Server.settle now sequence payload before).fecState =
          before.fecState.insertPayload sequence payload := by
        unfold Server.settle
        dsimp only
        split <;> rfl
      rw [kept, FecState.insertPayload_frames] at found
      exact found
  | report _ _ | request _ _ | skipFragment _ _ _ | skipMissing _ _ _ _ => exact found

/-- A move skips a position that is not buffered while something has waited for
too long, forwards the head position, or stays there. -/
inductive MoveOutcome (config : ReorderConfig) (now : Instant)
    (Source : Nat → Bytes → Prop) (before after : ReorderState) : Prop
  | skips {position : Nat} {since : Instant} {reason : SkipReason} :
      before.nextSeq ∉ before.buffered →
      before.Pending position since →
      config.maxReorderDelay ≤ since.elapsed now →
      after.trace = before.trace ++ [.skip before.nextSeq reason] →
      after.nextSeq = nextSequence before.nextSeq →
      MoveOutcome config now Source before after
  | forwards {effects : List Effect} {payload : Bytes} :
      after.trace = before.trace ++ effects →
      (∀ sequence reason, .skip sequence reason ∉ effects) →
      Server.forwards effects = [(before.nextSeq, payload)] →
      after.nextSeq = nextSequence before.nextSeq →
      ((∃ packet : BufferedPacket, before.buffered[before.nextSeq]? = some packet ∧
          packet.payload = payload) ∨
        Source before.nextSeq payload) →
      MoveOutcome config now Source before after
  | stays {effects : List Effect} :
      after.trace = before.trace ++ effects →
      (∀ sequence reason, .skip sequence reason ∉ effects) →
      Server.forwards effects = [] →
      after.nextSeq = before.nextSeq →
      MoveOutcome config now Source before after

theorem WindowMove.outcome (move : WindowMove config now Source before after) :
    MoveOutcome config now Source before after := by
  cases move with
  | report _ _ => exact .stays rfl (by simp) rfl rfl
  | @drain packet found => exact .forwards rfl (by simp) rfl rfl (Or.inl ⟨packet, found, rfl⟩)
  | search => exact .stays (List.append_nil _).symm (by simp) rfl rfl
  | @settle sequence payload _ _ source =>
      have trace := settle_trace now sequence payload before
      have unskipped : ∀ position reason, Effect.skip position reason ∉
          .accept sequence payload :: settleForwards sequence payload before := by
        intro position reason member
        rcases List.mem_cons.mp member with impossible | member
        · cases impossible
        · cases (mem_settleForwards member).2
      by_cases expected : sequence = before.nextSeq
      · cases expected
        rw [settle_of_expected now payload rfl] at trace ⊢
        refine .forwards trace unskipped ?_ rfl (Or.inr source)
        rw [settleForwards, if_pos rfl]
        rfl
      · rw [settle_of_ahead now payload expected] at trace ⊢
        refine .stays trace unskipped ?_ rfl
        rw [settleForwards, if_neg expected]
        rfl
  | request requests _ =>
      refine .stays rfl (by simp) ?_ rfl
      simp [forwards, List.filterMap_map, Effect.forwarded]
  | @skipFragment assembly absent found old =>
      exact .skips absent (Or.inr ⟨assembly, found, rfl⟩) old rfl rfl
  | skipMissing absent _ pending old =>
      rcases exists_pending_of_oldest pending with ⟨position, pending⟩
      exact .skips absent pending old rfl rfl

/-- What parity gives back is a member of a stored frame. -/
theorem over_of_recovered {Holds : Nat → Prop}
    (frames : ∀ {base : Nat} {frame : FecFrame}, state.fecState.frames[base]? = some frame →
      Over Holds frame) {sequence : Nat} {payload : Bytes}
    (member : (sequence, payload) ∈
      (state.fecState.recoverReady state.nextSeq state.buffered).2) : Holds sequence := by
  rcases FecState.mem_recoverReady.mp member with
    ⟨base, frame, parity, expectedLen, stored, scan, -, -⟩
  rcases FecState.scanFrame_of_recovered scan with
    ⟨frontLengths, backLengths, front, back, split, -, atIndex, -, -, -⟩
  rw [atIndex, Nat.zero_add]
  apply frames stored
  rw [split, List.length_append, List.length_cons]
  omega

/-! ## Flows -/

/-- What has been forwarded since a flow last started. -/
def flowForwards (trace : List Effect) : List (Nat × Bytes) :=
  trace.foldl (fun flow effect => if effect.startsFlow then [] else flow ++ forwards [effect]) []

theorem flowForwards_append (trace : List Effect) {effects : List Effect}
    (silent : ∀ effect ∈ effects, effect.startsFlow = false) :
    flowForwards (trace ++ effects) = flowForwards trace ++ forwards effects := by
  rw [flowForwards, List.foldl_append, ← flowForwards]
  generalize flowForwards trace = flow
  induction effects generalizing flow with
  | nil => exact (List.append_nil flow).symm
  | cons effect rest induction =>
      rw [List.forall_mem_cons] at silent
      rw [List.foldl_cons, silent.1, if_neg Bool.false_ne_true, induction silent.2,
        List.append_assoc, ← forwards_append, List.singleton_append]

theorem flowForwards_start (trace : List Effect) {effect : Effect}
    (starts : effect.startsFlow = true) : flowForwards (trace ++ [effect]) = [] := by
  rw [flowForwards, List.foldl_append, List.foldl_cons, List.foldl_nil, if_pos starts]

/-- The first positions of the content. -/
def stream (content : Content) (count : Nat) : List (Nat × Bytes) :=
  (List.range count).map fun sequence => (sequence, content.payload sequence)

theorem stream_succ (content : Content) (count : Nat) :
    stream content (count + 1) = stream content count ++ [(count, content.payload count)] := by
  rw [stream, List.range_succ, List.map_append]
  rfl

theorem stream_sublist (content : Content) {fewer count : Nat} (le : fewer ≤ count) :
    (stream content fewer).Sublist (stream content count) :=
  (List.range_sublist.mpr le).map _

variable {content : Content} {count : Nat}

/-- Every flow forwards a part of the stream, in its order and each position once. -/
def FlowsInOrder (content : Content) (count : Nat) (trace : List Effect) : Prop :=
  ∀ earlier, earlier <+: trace → (flowForwards earlier).Sublist (stream content count)

theorem FlowsInOrder.append {trace effects : List Effect}
    (inOrder : FlowsInOrder content count trace)
    (silent : ∀ effect ∈ effects, effect.startsFlow = false)
    (flow : (flowForwards trace ++ forwards effects).Sublist (stream content count)) :
    FlowsInOrder content count (trace ++ effects) := by
  intro earlier before
  rcases List.prefix_or_prefix_of_prefix before (List.prefix_append trace effects) with
    within | ⟨more, rfl⟩
  · exact inOrder earlier within
  · rw [List.prefix_append_right_inj] at before
    have quiet : ∀ effect ∈ more, effect.startsFlow = false :=
      fun effect member => silent effect (before.subset member)
    rw [flowForwards_append trace quiet]
    apply List.Sublist.trans _ flow
    exact (List.Sublist.refl _).append (before.sublist.filterMap _)

theorem FlowsInOrder.start {trace : List Effect} (inOrder : FlowsInOrder content count trace)
    {effect : Effect} (starts : effect.startsFlow = true) :
    FlowsInOrder content count (trace ++ [effect]) := by
  intro earlier before
  rcases List.prefix_concat_iff.mp before with rfl | within
  · rw [flowForwards_start trace starts]
    exact List.nil_sublist _
  · exact inOrder earlier within

/-- What is held, known and forwarded belongs to the first positions of the content. -/
structure WithinStream (content : Content) (count : Nat) (state : ReorderState) : Prop where
  intact : Intact content state
  pending : ∀ {sequence since}, state.Pending sequence since → sequence < count
  frames : ∀ {base : Nat} {frame : FecFrame}, state.fecState.frames[base]? = some frame →
    Over (· < count) frame
  flows : FlowsInOrder content count state.trace
  current : state.initialized = true →
    (flowForwards state.trace).Sublist (stream content (min state.nextSeq count))

/-- The frame agrees with the content and is about its first positions. -/
def FromStream (content : Content) (count : Nat) (frame : ReceivedFrame) : Prop :=
  Honest content frame ∧ frame.About (· < count)

/-- The right payload for one of the first positions. -/
def SuppliesStream (content : Content) (count : Nat) (sequence : Nat) (payload : Bytes) : Prop :=
  sequence < count ∧ Supplies content sequence payload

namespace WithinStream

theorem windowMove (within : WithinStream content count before) (room : count ≤ maxMediaSequence)
    (wellFormed : WellFormed before) (active : before.initialized = true)
    (move : WindowMove config now (SuppliesStream content count) before after) :
    WithinStream content count after := by
  have intact := within.intact.windowMove (move.mono And.right)
  have pending : ∀ {sequence since}, after.Pending sequence since → sequence < count := by
    intro sequence since waits
    rcases move.pending waits with earlier | ⟨-, payload, source⟩
    · exact within.pending earlier
    · exact source.1
  have frames : ∀ {base : Nat} {frame : FecFrame}, after.fecState.frames[base]? = some frame →
      Over (· < count) frame := fun found => within.frames (move.frames found)
  have next : before.nextSeq < count → nextSequence before.nextSeq = before.nextSeq + 1 := by
    intro inRange
    rw [nextSequence, if_neg (by omega)]
  rcases move.flow with ⟨-, more, trace, silent⟩
  have flow : (flowForwards after.trace).Sublist (stream content (min after.nextSeq count)) →
      WithinStream content count after := by
    intro current
    refine ⟨intact, pending, frames, ?_, fun _ => current⟩
    rw [trace]
    apply within.flows.append silent
    rw [← flowForwards_append _ silent, ← trace]
    exact current.trans (stream_sublist content (Nat.min_le_right _ _))
  have current := within.current active
  rw [trace, flowForwards_append _ silent] at flow
  rcases move.outcome with ⟨-, waits, -, appended, position⟩ |
    @⟨effects, payload, appended, -, one, position, source⟩ |
    @⟨effects, appended, -, none, position⟩
  · have inRange := Nat.lt_of_le_of_lt (wellFormed.pending_ahead waits) (within.pending waits)
    rw [next inRange] at position
    rw [List.append_cancel_left (trace.symm.trans appended), position] at flow
    apply flow
    rw [show forwards [.skip before.nextSeq _] = [] from rfl, List.append_nil]
    exact current.trans (stream_sublist content (by omega))
  · have head : SuppliesStream content count before.nextSeq payload := by
      rcases source with ⟨packet, found, rfl⟩ | supplied
      · exact ⟨within.pending (Or.inl ⟨packet, found, rfl⟩), within.intact.buffered found⟩
      · exact supplied
    have inRange : min (before.nextSeq + 1) count = before.nextSeq + 1 := Nat.min_eq_left head.1
    rw [Nat.min_eq_left (Nat.le_of_lt head.1)] at current
    rw [List.append_cancel_left (trace.symm.trans appended), one, position, next head.1, inRange,
      stream_succ, head.2] at flow
    exact flow (current.append (List.Sublist.refl _))
  · rw [List.append_cancel_left (trace.symm.trans appended), none, position,
      List.append_nil] at flow
    exact flow current

theorem recovered (within : WithinStream content count state) {sequence : Nat} {payload : Bytes}
    (member : (sequence, payload) ∈
      (state.fecState.recoverReady state.nextSeq state.buffered).2) :
    SuppliesStream content count sequence payload :=
  ⟨over_of_recovered within.frames member, within.intact.recovered member⟩

/-- Nothing is held, and nothing has been forwarded in this flow. -/
theorem of_cleared (intact : Intact content state) (buffered : state.buffered = ∅)
    (fragments : state.fragments = ∅)
    (frames : ∀ {base : Nat} {frame : FecFrame}, state.fecState.frames[base]? = some frame →
      Over (· < count) frame)
    (flows : FlowsInOrder content count state.trace)
    (current : state.initialized = true → flowForwards state.trace = []) :
    WithinStream content count state where
  intact := intact
  pending := by
    rintro sequence since (⟨packet, found, -⟩ | ⟨assembly, found, -⟩)
    · simp [buffered] at found
    · simp [fragments] at found
  frames := frames
  flows := flows
  current active := by
    rw [current active]
    exact List.nil_sublist _

theorem emit (within : WithinStream content count state) {effect : Effect}
    (silent : effect.isDelivery = false ∧ effect.startsFlow = false) :
    WithinStream content count (state.emit effect) := by
  have starts : ∀ other ∈ [effect], other.startsFlow = false :=
    List.forall_mem_singleton.mpr silent.2
  have nothing : forwards [effect] = [] :=
    forwards_of_silent (List.forall_mem_singleton.mpr silent.1)
  have same : flowForwards (state.emit effect).trace = flowForwards state.trace := by
    rw [ReorderState.emit, flowForwards_append _ starts, nothing, List.append_nil]
  constructor
  · apply within.intact.emit
    intro sequence payload forwarded
    rw [forwarded] at silent
    cases silent.1
  · exact within.pending
  · exact within.frames
  · apply within.flows.append starts
    rw [nothing, List.append_nil]
    exact within.flows _ (List.prefix_refl _)
  · rw [same]
    exact within.current

theorem roundMove (within : WithinStream content count before) (consistent : Consistent before)
    (move : RoundMove now (FromStream content count) before after) :
    WithinStream content count after := by
  have intact : Intact content after := within.intact.roundMove (move.mono And.left)
  cases move with
  | routes _ | observe _ | join _ =>
      exact ⟨intact, within.pending, within.frames, within.flows, within.current⟩
  | duplicate _ | lateAfterSkip _ => exact within.emit ⟨rfl, rfl⟩
  | @start packet idle =>
      have flows := @within.flows.start _ _ _ (.flowStart packet.header.sequence) rfl
      exact .of_cleared intact (consistent.idle_buffered idle) (consistent.idle_fragments idle)
        within.frames flows fun _ => flowForwards_start _ rfl
  | @restart packet _ _ =>
      have starts := @within.flows.start _ _ _
        (.flowReset packet.header.sequence before.heldPayloads) rfl
      refine .of_cleared intact rfl rfl ?_ starts fun _ => flowForwards_start _ rfl
      intro base frame found
      simp [restartFlow, ReorderState.emit, ReorderState.setReplyRoutes, FecState.empty] at found
  | @assemble packet filled admissible _ _ fills _ =>
      refine ⟨intact, ?_, within.frames, within.flows, within.current⟩
      intro sequence since waits
      rcases pending_assemble fills waits with earlier | ⟨-, rfl⟩
      · exact within.pending earlier
      · exact admissible.2
  | @store fec admissible =>
      refine ⟨intact, within.pending, ?_, within.flows, within.current⟩
      intro base frame found
      rcases FecState.insertFrame_found found with ⟨-, rfl⟩ | earlier
      · exact admissible.2
      · exact within.frames earlier
  | idle _ nothing =>
      rcases not_mem_of_hasPendingState nothing with ⟨buffered, fragments, -⟩
      refine .of_cleared intact buffered fragments ?_ within.flows ?_
      · intro base frame found
        simp [idleReset, FecState.empty] at found
      · intro impossible
        cases impossible

end WithinStream

theorem withinStream_initial (content : Content) (count : Nat) :
    WithinStream content count .initial := by
  refine .of_cleared (.of_cleared rfl rfl rfl (by simp [ReorderState.initial])) rfl rfl ?_ ?_ ?_
  · intro base frame found
    simp [ReorderState.initial, FecState.empty] at found
  · intro earlier before
    rw [List.prefix_nil.mp before]
    exact List.nil_sublist _
  · intro impossible
    cases impossible

theorem withinStream_invariant (config : ReorderConfig) (content : Content)
    (room : count ≤ maxMediaSequence) :
    LoopInvariant config (FromStream content count) (SuppliesStream content count)
      (WithinStream content count) where
  round consistent move within := within.roundMove consistent move
  window now :=
    { move := fun wellFormed active move within => within.windowMove room wellFormed active move
      recovered := fun _ within member => within.recovered member }
  whole admissible single := ⟨admissible.2, Intact.whole admissible.1 single⟩
  assembled := by
    intro now state packet filled payload wellFormed within admissible fills complete gives
    rw [FragmentAssembly.intoPayload_of_holds (within.intact.fills admissible.1 fills) complete]
      at gives
    exact ⟨admissible.2, (Option.some.inj gives).symm.trans (content.flatten_parts _)⟩

/-- Whatever the network does to the frames of a stream without a wrap, every
flow forwards payloads of the stream, in its order and each once. -/
theorem flows_inOrder (config : ReorderConfig) (content : Content)
    (room : count ≤ maxMediaSequence) {inputs : List TimedInput}
    (admitted : ∀ timed ∈ inputs, timed.Admitted (FromStream content count)) :
    ∃ final, reorderLoop config inputs = some final ∧ FlowsInOrder content count final.trace := by
  rcases (withinStream_invariant config content room).reorderLoop
    (withinStream_initial content count) admitted with ⟨final, finished, -, within⟩
  exact ⟨final, finished, within.flows⟩

end Irohsion.Server
