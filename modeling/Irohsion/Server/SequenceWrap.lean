import Irohsion.Server.Arrivals
import Irohsion.Server.Delivery

/-! # Arrivals around the sequence wrap

Positions are cyclic, but the loop compares a sequence with `next_seq` as a
plain integer. A late copy is ignored as long as no wrap lies between it and
`next_seq`, and a fresh packet is accepted as long as no wrap lies before it.
-/

namespace Irohsion.Server

open Protocol Std

variable {config : ReorderConfig} {now : Instant} {packet : ReceivedPacket}
variable {state : ReorderState}

/-! ## Copies of passed positions -/

/-- A delivery in the trace stays there. -/
theorem not_ignored_of_since {base next : ReorderState} {effects : List Effect}
    (trace : base.trace = state.trace ++ effects)
    (delivers : (∃ effect ∈ effects, effect.isDelivery = true) ∨
      ¬ SameContent base.fragments state.fragments)
    (since : Since base next) : ¬ Ignored state next := by
  intro ignored
  rcases ignored.effects with ⟨ignoredEffects, ignoredTrace, nothing⟩
  rcases since with ⟨later, laterTrace, outcome⟩
  have split : ignoredEffects = effects ++ later := by
    rw [ignoredTrace, trace, List.append_assoc] at laterTrace
    exact List.append_cancel_left laterTrace
  have none : ∀ effect ∈ effects ++ later, effect.isDelivery = false := split ▸ nothing
  rcases delivers with ⟨effect, member, delivers⟩ | changed
  · rw [none effect (List.mem_append_left _ member)] at delivers
    cases delivers
  · rcases outcome with ⟨effect, member, delivers⟩ | same
    · rw [none effect (List.mem_append_right _ member)] at delivers
      cases delivers
    · rw [ignored.fragments] at same
      exact changed same

/-- Filling a vacant slot changes the content of the assembly. -/
theorem Fills.changes {filled : FragmentAssembly} (fills : Fills now packet state filled) :
    ¬ SameContent (state.fragments.insert packet.header.sequence filled) state.fragments := by
  intro same
  have content := same packet.header.sequence
  rw [ExtTreeMap.getElem?_insert_self, Option.map_some] at content
  rcases Option.map_eq_some_iff.mp content with ⟨assembly, found, equal⟩
  have slots : assembly.fragments = filled.fragments := congrArg Prod.fst equal
  have entry : assemblyFor now packet state = assembly := by
    rw [assemblyFor, found, Option.getD_some]
  rcases fills.fill with ⟨vacant, rfl⟩
  have bound := (List.getElem?_eq_some_iff.mp vacant).1
  have taken : ((assemblyFor now packet state).fill packet.header.fragment packet.payload
      vacant).fragments[packet.header.fragment]? = some (some packet.payload) :=
    List.getElem?_set_self bound
  rw [← slots, ← entry, vacant] at taken
  cases taken

/-- A fragment that fills a slot repeats none. -/
theorem Fills.not_repeats {filled : FragmentAssembly} (fills : Fills now packet state filled) :
    ¬ Repeats packet state := by
  rw [repeats_iff now]
  rintro (different | ⟨present, taken⟩)
  · exact different fills.slots
  · rcases fills.fill with ⟨vacant, _⟩
    cases vacant.symm.trans taken

/-- A complete payload is accepted, so its round delivers. -/
theorem not_ignored_of_complete (config : ReorderConfig) (now : Instant)
    (wellFormed : WellFormed state) (active : state.initialized = true)
    (fresh : state.Fresh packet.header.sequence) (payload : Bytes) :
    ∃ next, advanceReorderWindow config now (recoverFecReady now
        (acceptCompletePayload now packet.header.sequence payload
          (takeComplete packet.header.sequence (joined packet state)))) = some next ∧
      ¬ Ignored state next := by
  have base := Since.refl (settle now packet.header.sequence payload (joined packet state))
  have settled := active_settle _ now payload (wellFormed.joined packet) active packet.media fresh
    base
  rcases (since_invariant config now _).acceptComplete settled with ⟨next, advanced, _, _, since⟩
  have trace := settle_trace now packet.header.sequence payload (joined packet state)
  rw [show (joined packet state).trace = state.trace from rfl] at trace
  refine ⟨next, advanced, not_ignored_of_since trace ?_ since⟩
  exact Or.inl ⟨_, List.mem_cons_self, rfl⟩

/-- A fragment that fills a slot stays in its assembly, unless that is delivered. -/
theorem not_ignored_of_incomplete (config : ReorderConfig) (now : Instant)
    (wellFormed : WellFormed state) (active : state.initialized = true)
    (fresh : state.Fresh packet.header.sequence) {filled : FragmentAssembly}
    (fills : Fills now packet (joined packet state) filled)
    (incomplete : filled.isComplete = false) :
    ∃ next, advanceReorderWindow config now
        { joined packet state with
          fragments := state.fragments.insert packet.header.sequence filled } = some next ∧
      ¬ Ignored state next := by
  have assembled := (wellFormed.joined packet).assemble fresh fills incomplete
  rcases (since_invariant config now _).advanceReorderWindow
    ⟨assembled, active, Since.refl _⟩ with ⟨next, advanced, -, -, since⟩
  refine ⟨next, advanced, @not_ignored_of_since _ _ _ [] ?_ (Or.inr ?_) since⟩
  · exact (List.append_nil state.trace).symm
  · exact fills.changes

/-- A packet that is not behind is ignored exactly when it is held already. -/
theorem ignored_iff_of_ahead (config : ReorderConfig) (now : Instant)
    (wellFormed : WellFormed state) (active : state.initialized = true)
    (ahead : state.nextSeq ≤ packet.header.sequence) :
    ∃ next, onPacket config now packet state = some next ∧
      (Ignored state next ↔ packet.header.sequence ∈ state.buffered ∨
        (packet.header.fragments ≠ 1 ∧ Repeats packet state)) := by
  rw [onPacket_ahead config now active ahead, processAdmitted]
  have ignored : Ignored state ((joined packet state).emit (.duplicate packet.header.sequence)) :=
    .emit rfl rfl rfl rfl rfl rfl
  split
  · rename_i stale
    refine ⟨_, rfl, fun _ => Or.inl ?_, fun _ => ignored⟩
    rcases stale with behind | seen | held
    · exact absurd behind (Nat.not_lt.mpr ahead)
    · exact (wellFormed.seen_iff _).mp seen
    · exact held
  · rename_i fresh
    have absent : packet.header.sequence ∉ state.buffered :=
      fun member => fresh (Or.inr (Or.inr member))
    have moves : ∀ {next}, ¬ Ignored state next →
        ¬ (packet.header.fragments ≠ 1 ∧ Repeats packet state) →
        (Ignored state next ↔ packet.header.sequence ∈ state.buffered ∨
          (packet.header.fragments ≠ 1 ∧ Repeats packet state)) :=
      fun moved novel => iff_of_false moved (not_or.mpr ⟨absent, novel⟩)
    by_cases whole : packet.header.fragments = 1
    · rw [reassemble_whole whole]
      rcases not_ignored_of_complete config now wellFormed active fresh packet.payload with
        ⟨next, advanced, moved⟩
      exact ⟨next, advanced, moves moved fun repeated => repeated.1 whole⟩
    · rcases reassemble_cases now (wellFormed.joined packet) whole with
        ⟨repeats, duplicate⟩ |
          ⟨filled, fills, ⟨incomplete, outcome⟩ | ⟨complete, payload, _, outcome⟩⟩
      · rw [duplicate]
        exact ⟨_, rfl, fun _ => Or.inr ⟨whole, repeats⟩, fun _ => ignored⟩
      · rw [outcome]
        rcases not_ignored_of_incomplete config now wellFormed active fresh fills incomplete with
          ⟨next, advanced, moved⟩
        exact ⟨next, advanced, moves moved fun repeated => fills.not_repeats repeated.2⟩
      · rw [outcome]
        rcases not_ignored_of_complete config now wellFormed active fresh payload with
          ⟨next, advanced, moved⟩
        exact ⟨next, advanced, moves moved fun repeated => fills.not_repeats repeated.2⟩

/-! ## The position of a passed sequence -/

/-- Going on from a position by at most one cycle, the plain comparison still
sees it behind exactly when the cycle did not wrap in between. -/
theorem lt_iterate_nextSequence_iff {sequence steps : Nat}
    (media : sequence ≤ maxMediaSequence) (positive : 0 < steps)
    (bounded : steps ≤ maxMediaSequence) :
    sequence < nextSequence^[steps] sequence ↔ steps ≤ nextSequence^[steps] sequence := by
  rw [nextSequence_eq_next]
  by_cases wraps : maxMediaSequence < sequence + steps
  · have landed := Cyclic.iterate_next_lt_of_wraps media wraps bounded
    have position := Cyclic.iterate_next_eq_mod media steps
    rw [Nat.mod_eq_sub_mod (by omega), Nat.mod_eq_of_lt (by omega)] at position
    omega
  · rw [Cyclic.iterate_next_of_le (Nat.le_of_not_lt wraps)]
    omega

/-- From a position that the current flow has passed, `next_seq` is as many
positions ahead as were passed from there on. -/
theorem nextSeq_of_passed {receiver : InOrder.Receiver Nat Bytes}
    (refines : Refines state receiver) (active : state.initialized = true)
    {origin sequence : Nat} {earlier later : List Nat}
    (passed : InOrder.flow (deliveries state.trace) =
      some (origin, earlier ++ sequence :: later)) :
    state.nextSeq = nextSequence^[later.length + 1] sequence := by
  rcases refines.transitions.inStep _ passed with ⟨iterates, position⟩
  have atEarlier := congrArg (fun positions => positions[earlier.length]?) iterates
  simp only [List.getElem?_append_right (Nat.le_refl _), Nat.sub_self, List.getElem?_cons_zero,
    List.length_append, List.length_cons] at atEarlier
  rw [List.getElem?_iterate _ _ _ _ (by omega)] at atEarlier
  rw [Option.some.inj atEarlier, ← Function.iterate_add_apply, ← refines.position active,
    position, List.length_append, List.length_cons]
  congr 1
  omega

/-- A copy of a recently passed packet is ignored exactly when no wrap lies
between its position and `next_seq`, or when it is held a second time already. -/
theorem copy_ignored_iff_no_wrap (config : ReorderConfig) {inputs : List TimedInput}
    (reached : reorderLoop config inputs = some state) (active : state.initialized = true)
    {origin : Nat} {earlier later : List Nat}
    (passed : InOrder.flow (deliveries state.trace) =
      some (origin, earlier ++ packet.header.sequence :: later))
    (recent : later.length + 1 < restartBackwardGap)
    (member : packet.connectionId ∈ state.flowConnections) (now : Instant) :
    ∃ next, reorderStep config state (arrival now packet) = some next ∧
      (Ignored state next ↔ later.length < state.nextSeq ∨
        packet.header.sequence ∈ state.buffered ∨
        (packet.header.fragments ≠ 1 ∧ Repeats packet state)) := by
  rcases reorderLoop_refines reached with ⟨consistent, receiver, refines⟩
  have gap : restartBackwardGap ≤ maxMediaSequence := by decide
  have position := nextSeq_of_passed refines active passed
  have noWrap : packet.header.sequence < state.nextSeq ↔ later.length < state.nextSeq := by
    rw [position]
    exact lt_iterate_nextSequence_iff packet.media (Nat.succ_pos _) (by omega)
  by_cases behind : packet.header.sequence < state.nextSeq
  · rcases ignored_of_behind config now active behind member with ⟨next, stepped, ignored⟩
    exact ⟨next, stepped, fun _ => Or.inl (noWrap.mp behind), fun _ => ignored⟩
  · rcases ignored_iff_of_ahead config now consistent.toWellFormed active
      (Nat.le_of_not_lt behind) with ⟨next, stepped, ignored⟩
    refine ⟨next, stepped, fun held => Or.inr (ignored.mp held), ?_⟩
    intro condition
    rcases condition with noWrapBetween | held
    · exact absurd (noWrap.mpr noWrapBetween) behind
    · exact ignored.mpr held

/-- A packet far from the wrap. -/
def packetFive : ReceivedPacket := .whole "client" 0 5 [7] (by decide)

theorem copy_ignored_iff_no_wrap_five :
    ∃ state next, reorderLoop ⟨none, 10, 10⟩ [arrival 0 packetFive] = some state ∧
      reorderStep ⟨none, 10, 10⟩ state (arrival 1 packetFive) = some next ∧
      Ignored state next := by
  rcases reorderLoop_single_state ⟨none, 10, 10⟩ 0 (rfl : packetFive.header.fragments = 1) with
    ⟨state, reached, active, position, connections, _, _, _, trace⟩
  have passed : InOrder.flow (deliveries state.trace) =
      some (5, [] ++ packetFive.header.sequence :: []) := by
    rw [trace]
    rfl
  have recent : ([] : List Nat).length + 1 < restartBackwardGap := by decide
  have member : packetFive.connectionId ∈ state.flowConnections := by
    rw [connections]
    exact Finset.mem_singleton_self _
  rcases copy_ignored_iff_no_wrap ⟨none, 10, 10⟩ reached active passed recent member 1 with
    ⟨next, stepped, ignored⟩
  refine ⟨state, next, reached, stepped, ignored.mpr (Or.inl ?_)⟩
  rw [position]
  decide

/-- A packet at the last position before the wrap. -/
def lastMedia : ReceivedPacket := .whole "client" 0 maxMediaSequence [7] (Nat.le_refl _)

/-- A second copy of it is buffered for the next cycle. -/
theorem copy_of_lastMedia_not_ignored :
    ∃ state next, reorderLoop ⟨none, 10, 10⟩ [arrival 0 lastMedia] = some state ∧
      state.initialized = true ∧ lastMedia.connectionId ∈ state.flowConnections ∧
      InOrder.flow (deliveries state.trace) = some (maxMediaSequence, [maxMediaSequence]) ∧
      reorderStep ⟨none, 10, 10⟩ state (arrival 1 lastMedia) = some next ∧
      ¬ Ignored state next := by
  rcases reorderLoop_single_state ⟨none, 10, 10⟩ 0 (rfl : lastMedia.header.fragments = 1) with
    ⟨state, reached, active, position, connections, _, _, buffered, trace⟩
  have wellFormed := (reorderLoop_refines reached).1.toWellFormed
  have ahead : state.nextSeq ≤ lastMedia.header.sequence := by
    rw [position]
    exact Nat.zero_le _
  rcases ignored_iff_of_ahead ⟨none, 10, 10⟩ 1 wellFormed active ahead with
    ⟨next, stepped, ignored⟩
  refine ⟨state, next, reached, active, ?_, ?_, stepped, ?_⟩
  · rw [connections]
    exact Finset.mem_singleton_self 0
  · rw [trace]
    rfl
  · rw [ignored, buffered]
    intro pending
    rcases pending with held | ⟨several, _⟩
    · exact ExtTreeMap.not_mem_empty held
    · exact several rfl

/-! ## Fresh positions -/

/-- The payload is accepted, at once forwarded if its position is the next one,
and in the end forwarded or buffered; nothing is recorded as superfluous. -/
def Accepted (now : Instant) (sequence : Nat) (payload : Bytes) (before after : ReorderState) :
    Prop :=
  ∃ later, after.trace = before.trace ++ .accept sequence payload :: later ∧
    (sequence = before.nextSeq → ∃ rest, later = .forward sequence payload :: rest) ∧
    (.forward sequence payload ∈ later ∨
      after.buffered[sequence]? = some ⟨payload, now⟩) ∧
    ∀ effect ∈ later, effect.isRejection = false

/-- Since `base` nothing was rejected, and a payload that was buffered is
forwarded or still there. -/
def Kept (base : ReorderState) (sequence : Nat) (held : BufferedPacket)
    (state : ReorderState) : Prop :=
  ∃ later, state.trace = base.trace ++ later ∧ (∀ effect ∈ later, effect.isRejection = false) ∧
    (base.buffered[sequence]? = some held →
      .forward sequence held.payload ∈ later ∨ state.buffered[sequence]? = some held)

theorem Kept.refl (base : ReorderState) (sequence : Nat) (held : BufferedPacket) :
    Kept base sequence held base :=
  ⟨[], (List.append_nil _).symm, by simp, Or.inr⟩

theorem kept_invariant (config : ReorderConfig) (now : Instant) (base : ReorderState)
    (sequence : Nat) (held : BufferedPacket) :
    ActiveInvariant config now (fun _ _ => True) (Kept base sequence held) where
  move := by
    intro before after _ _ move keeps
    rcases keeps with ⟨earlier, trace, clean, kept⟩
    rcases move.effects with ⟨effects, appended, moreClean, _⟩
    refine ⟨earlier ++ effects, by rw [appended, trace, List.append_assoc], ?_, ?_⟩
    · intro effect member
      exact (List.mem_append.mp member).elim (clean effect) (moreClean effect)
    · intro present
      rcases kept present with forwarded | found
      · exact Or.inl (List.mem_append_left _ forwarded)
      · rcases move.buffered found with found | forward
        · exact Or.inr found
        · rw [appended, List.append_right_inj] at forward
          rw [forward]
          exact Or.inl (List.mem_append_right _ (List.mem_singleton_self _))
  recovered _ _ _ := trivial

/-- A packet that completes the payload of its fresh position has it accepted. -/
theorem accepted_of_complete (config : ReorderConfig) (now : Instant)
    (wellFormed : WellFormed state) (active : state.initialized = true)
    (fresh : state.Fresh packet.header.sequence) {payload : Bytes}
    (complete : reassemble now packet (joined packet state) =
      some (.complete payload (takeComplete packet.header.sequence (joined packet state)))) :
    ∃ next, onPacket config now packet state = some next ∧
      Accepted now packet.header.sequence payload state next := by
  have ahead : state.nextSeq ≤ packet.header.sequence :=
    Nat.le_of_not_lt fun behind => fresh (Or.inl behind)
  have joinedFresh : (joined packet state).Fresh packet.header.sequence := fresh
  have settled := active_settle _ now payload (wellFormed.joined packet) active packet.media
    joinedFresh (Kept.refl _ packet.header.sequence ⟨payload, now⟩)
  rcases (kept_invariant config now _ _ _).acceptComplete settled with
    ⟨next, advanced, _, _, later, trace, clean, kept⟩
  have processed : onPacket config now packet state = some next := by
    rw [onPacket_ahead config now active ahead, processAdmitted, if_neg joinedFresh, complete]
    exact advanced
  refine ⟨next, processed,
    settleForwards packet.header.sequence payload state ++ later, ?_, ?_, ?_, ?_⟩
  · rw [trace, settle_trace, List.append_assoc]
    rfl
  · intro expected
    rw [settleForwards, if_pos expected]
    exact ⟨later, rfl⟩
  · by_cases expected : packet.header.sequence = state.nextSeq
    · rw [settleForwards, if_pos expected]
      exact Or.inl List.mem_cons_self
    · have ahead : packet.header.sequence ≠ (joined packet state).nextSeq := expected
      refine (kept ?_).imp (List.mem_append_right _) id
      rw [settle_of_ahead now payload ahead]
      exact ExtTreeMap.getElem?_insert_self
  · intro effect member
    rcases List.mem_append.mp member with first | rest
    · rw [(mem_settleForwards first).2]
      rfl
    · exact clean effect rest

/-- A fresh whole packet is accepted. -/
theorem accepted_of_fresh (config : ReorderConfig) (now : Instant)
    (wellFormed : WellFormed state) (active : state.initialized = true)
    (whole : packet.header.fragments = 1) (fresh : state.Fresh packet.header.sequence) :
    ∃ next, onPacket config now packet state = some next ∧
      Accepted now packet.header.sequence packet.payload state next :=
  accepted_of_complete config now wellFormed active fresh (reassemble_whole whole)

/-- A fresh whole packet within the restart gap is accepted exactly when its
position lies before the wrap. -/
theorem fresh_accepted_iff_no_wrap (config : ReorderConfig) {inputs : List TimedInput}
    (reached : reorderLoop config inputs = some state) (active : state.initialized = true)
    {steps : Nat} (inGap : steps < restartBackwardGap)
    (position : packet.header.sequence = sequenceAfter state.nextSeq steps)
    (whole : packet.header.fragments = 1)
    (member : packet.connectionId ∈ state.flowConnections)
    (unseen : packet.header.sequence ∉ state.seen)
    (unbuffered : packet.header.sequence ∉ state.buffered) (now : Instant) :
    ∃ next, reorderStep config state (arrival now packet) = some next ∧
      (Accepted now packet.header.sequence packet.payload state next ↔
        state.nextSeq + steps ≤ maxMediaSequence) := by
  have wellFormed := (reorderLoop_refines reached).1.toWellFormed
  have gap : restartBackwardGap ≤ maxMediaSequence := by decide
  have inRange := wellFormed.nextSeq_le
  rw [sequenceAfter_eq_iterate, nextSequence_eq_next] at position
  by_cases noWrap : state.nextSeq + steps ≤ maxMediaSequence
  · rw [Cyclic.iterate_next_of_le noWrap] at position
    have fresh : state.Fresh packet.header.sequence := by
      intro rejected
      rcases rejected with behind | seen | held
      · omega
      · exact unseen seen
      · exact unbuffered held
    rcases accepted_of_fresh config now wellFormed active whole fresh with
      ⟨next, stepped, accepted⟩
    exact ⟨next, stepped, fun _ => noWrap, fun _ => accepted⟩
  · have behind : packet.header.sequence < state.nextSeq := by
      rw [position]
      exact Cyclic.iterate_next_lt_of_wraps inRange (by omega) (by omega)
    refine ⟨_, onPacket_behind config now active behind member, ?_,
      fun within => absurd within noWrap⟩
    intro accepted
    rcases accepted with ⟨later, trace, _⟩
    rcases rejectLate_trace packet (state.setReplyRoutes packet.remote false) with
      ⟨effect, rejection, outcome⟩
    rw [outcome] at trace
    change state.trace ++ [effect] = _ at trace
    cases (List.cons.inj (List.append_cancel_left trace)).1
    cases rejection

/-- A packet two positions ahead of the flow that packet five starts. -/
def packetEight : ReceivedPacket := .whole "client" 0 8 [9] (by decide)

theorem fresh_accepted_iff_no_wrap_eight :
    ∃ state next, reorderLoop ⟨none, 10, 10⟩ [arrival 0 packetFive] = some state ∧
      reorderStep ⟨none, 10, 10⟩ state (arrival 1 packetEight) = some next ∧
      Accepted 1 8 [9] state next := by
  rcases reorderLoop_single_state ⟨none, 10, 10⟩ 0 (rfl : packetFive.header.fragments = 1) with
    ⟨state, reached, active, position, connections, _, seen, buffered, _⟩
  have member : packetEight.connectionId ∈ state.flowConnections := by
    rw [connections]
    exact Finset.mem_singleton_self _
  have inGap : 2 < restartBackwardGap := by decide
  have ahead : packetEight.header.sequence = sequenceAfter state.nextSeq 2 := by
    rw [position]
    decide
  have unseen : packetEight.header.sequence ∉ state.seen := by
    rw [seen]
    exact Finset.notMem_empty _
  have unbuffered : packetEight.header.sequence ∉ state.buffered := by
    rw [buffered]
    exact ExtTreeMap.not_mem_empty
  rcases fresh_accepted_iff_no_wrap ⟨none, 10, 10⟩ reached active inGap ahead rfl member
    unseen unbuffered 1 with ⟨next, stepped, accepted⟩
  refine ⟨state, next, reached, stepped, accepted.mpr ?_⟩
  rw [position]
  decide

/-- The packet that starts a flow two positions before the wrap. -/
def beforeLastMedia : ReceivedPacket :=
  .whole "client" 0 (maxMediaSequence - 1) [7] (Nat.sub_le _ _)

/-- The packet one position after the wrap. -/
def afterWrap : ReceivedPacket := .whole "client" 0 0 [9] (Nat.zero_le _)

/-- With `next_seq` at the last position, the position after it counts as late. -/
theorem afterWrap_not_accepted :
    ∃ state next, reorderLoop ⟨none, 10, 10⟩ [arrival 0 beforeLastMedia] = some state ∧
      state.initialized = true ∧ afterWrap.connectionId ∈ state.flowConnections ∧
      afterWrap.header.sequence = sequenceAfter state.nextSeq 1 ∧
      afterWrap.header.sequence ∉ state.seen ∧ afterWrap.header.sequence ∉ state.buffered ∧
      reorderStep ⟨none, 10, 10⟩ state (arrival 1 afterWrap) = some next ∧
      ¬ Accepted 1 afterWrap.header.sequence afterWrap.payload state next ∧
      Ignored state next := by
  rcases reorderLoop_single_state ⟨none, 10, 10⟩ 0
    (rfl : beforeLastMedia.header.fragments = 1) with
    ⟨state, reached, active, position, connections, _, seen, buffered, _⟩
  have last : state.nextSeq = maxMediaSequence := position.trans (by decide)
  have member : afterWrap.connectionId ∈ state.flowConnections := by
    rw [connections]
    exact Finset.mem_singleton_self 0
  have behind : afterWrap.header.sequence < state.nextSeq := by
    rw [last]
    decide
  rcases ignored_of_behind ⟨none, 10, 10⟩ 1 active behind member with ⟨next, stepped, ignored⟩
  refine ⟨state, next, reached, active, member, ?_, ?_, ?_, stepped, ?_, ignored⟩
  · rw [last]
    decide
  · rw [seen]
    exact Finset.notMem_empty _
  · rw [buffered]
    exact ExtTreeMap.not_mem_empty
  · intro accepted
    rcases accepted with ⟨later, appended, _⟩
    rcases ignored.effects with ⟨effects, same, nothing⟩
    rw [same, List.append_right_inj] at appended
    have delivers := nothing _ (appended ▸ List.mem_cons_self)
    cases delivers

end Irohsion.Server
