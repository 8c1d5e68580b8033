import Irohsion.Server.AdvanceCalls
import Irohsion.Server.SequenceWrap

/-! # Awaited repairs

What a repair request asks for, and how a position that waits for the parts of a
payload moves on: a round that receives a missing part fills its slot or
completes the position, and no other payload can take the place.
-/

namespace Irohsion.Server

open Protocol Std

/-! ## What is asked for -/

namespace ReorderState

/-- The fragment is held in the assembly of its position. -/
def HoldsFragment (state : ReorderState) (sequence fragment : Nat) : Prop :=
  ∃ (assembly : FragmentAssembly) (payload : Bytes),
    state.fragments[sequence]? = some assembly ∧
      assembly.fragments[fragment]? = some (some payload)

/-- What is held of a position are parts of this split, unless the payload
comes in one part. -/
def FitsParts (state : ReorderState) (sequence : Nat) (parts : List Bytes) : Prop :=
  ∀ assembly : FragmentAssembly, state.fragments[sequence]? = some assembly →
    parts.length = 1 ∨ assembly.Holds parts

end ReorderState

variable {config : ReorderConfig} {now : Instant} {timed : TimedInput}
variable {base state before after next final : ReorderState} {request : RepairRequest}
variable {sequence fragment : Nat} {parts : List Bytes}

namespace ReorderState.Asks

/-- The position of a request is neither passed nor complete. -/
theorem fresh (asks : state.Asks request) (wellFormed : WellFormed state) :
    state.Fresh request.sequence := by
  rintro (behind | seen | held)
  · cases asks with
    | gap _ _ _ => exact Nat.lt_irrefl _ behind
    | assembly found _ _ =>
        have window := wellFormed.fragments_inWindow (OrderedMap.mem_of_getElem? found)
        exact Nat.not_lt.mpr window.1 behind
  · rw [wellFormed.seen_iff] at seen
    cases asks with
    | gap unbuffered _ _ => exact unbuffered seen
    | assembly found _ _ =>
        exact (wellFormed.fragments_inWindow (OrderedMap.mem_of_getElem? found)).2.2 seen
  · cases asks with
    | gap unbuffered _ _ => exact unbuffered held
    | assembly found _ _ =>
        exact (wellFormed.fragments_inWindow (OrderedMap.mem_of_getElem? found)).2.2 held

theorem media (asks : state.Asks request) (wellFormed : WellFormed state) :
    request.sequence ≤ maxMediaSequence := by
  cases asks with
  | gap _ _ _ => exact wellFormed.nextSeq_le
  | assembly found _ _ =>
      exact (wellFormed.fragments_inWindow (OrderedMap.mem_of_getElem? found)).2.1

/-- Nothing is asked for that is held. -/
theorem unheld (asks : state.Asks request) (asked : request.missingMask.testBit fragment = true) :
    ¬ state.HoldsFragment request.sequence fragment := by
  rintro ⟨assembly, payload, found, filled⟩
  cases asks with
  | gap _ unassembled _ => exact unassembled (OrderedMap.mem_of_getElem? found)
  | assembly present mask _ =>
      cases found.symm.trans present
      have vacant := (FragmentAssembly.missingMask_testBit mask fragment).mp asked
      cases filled.symm.trans vacant

/-- Every part is held or asked for. -/
theorem covers (asks : state.Asks request) (several : parts.length ≠ 1)
    (few : parts.length ≤ maxFragments) (fits : state.FitsParts request.sequence parts)
    (inBounds : fragment < parts.length) :
    state.HoldsFragment request.sequence fragment ∨
      request.missingMask.testBit fragment = true := by
  cases asks with
  | gap _ _ _ =>
      have all : repairAllFragmentsMask = 2 ^ 7 - 1 := rfl
      right
      rw [all, Nat.testBit_two_pow_sub_one, decide_eq_true_eq]
      exact Nat.lt_of_lt_of_le inBounds few
  | @assembly _ _ assembly found mask _ =>
      have slots := ((fits assembly found).resolve_left several).1
      rw [FragmentAssembly.missingMask_testBit mask]
      have bound : fragment < assembly.fragments.length := slots ▸ inBounds
      cases slot : assembly.fragments[fragment] with
      | none =>
          right
          rw [List.getElem?_eq_getElem bound, slot]
      | some payload =>
          left
          exact ⟨assembly, payload, found, by rw [List.getElem?_eq_getElem bound, slot]⟩

end ReorderState.Asks

/-! ## Positions that wait -/

/-- The position is missing, or holds parts of this split, and something is
pending, so that no idle reset comes in between. -/
structure Awaits (sequence : Nat) (parts : List Bytes) (state : ReorderState) : Prop where
  ahead : state.nextSeq ≤ sequence
  media : sequence ≤ maxMediaSequence
  missing : sequence ∉ state.buffered
  fits : state.FitsParts sequence parts
  pending : sequence ∈ state.fragments ∨
    state.nextSeq = sequence ∧ ∃ other, other ∈ state.buffered ∨ other ∈ state.fragments

/-- The position still waits, for no more parts than it did before. -/
structure StillAwaits (sequence : Nat) (parts : List Bytes) (base state : ReorderState) : Prop
    extends Awaits sequence parts state where
  held : ∀ fragment, base.HoldsFragment sequence fragment → state.HoldsFragment sequence fragment
  effects : ∃ effects, state.trace = base.trace ++ effects ∧
    ∀ payload, Effect.accept sequence payload ∉ effects

/-- Some position was skipped. -/
def Skipped (base state : ReorderState) : Prop :=
  ∃ effects, state.trace = base.trace ++ effects ∧ ∃ skipped reason, .skip skipped reason ∈ effects

theorem Awaits.of_asks (asks : state.Asks request) (wellFormed : WellFormed state)
    (fits : state.FitsParts request.sequence parts) : Awaits request.sequence parts state where
  ahead := Nat.le_of_not_lt fun behind => asks.fresh wellFormed (Or.inl behind)
  media := asks.media wellFormed
  missing held := asks.fresh wellFormed (Or.inr (Or.inr held))
  fits := fits
  pending := by
    cases asks with
    | gap _ _ pending =>
        right
        refine ⟨rfl, ?_⟩
        by_contra nothing
        rw [not_exists] at nothing
        rcases pending with buffered | fragments
        · rw [ExtTreeMap.isEmpty_eq_false_iff] at buffered
          apply buffered
          rw [ExtTreeMap.eq_empty_iff_forall_not_mem]
          exact fun other member => nothing other (Or.inl member)
        · rw [ExtTreeMap.isEmpty_eq_false_iff] at fragments
          apply fragments
          rw [ExtTreeMap.eq_empty_iff_forall_not_mem]
          exact fun other member => nothing other (Or.inr member)
    | assembly found _ _ => exact Or.inl (OrderedMap.mem_of_getElem? found)

theorem Awaits.fresh (awaits : Awaits sequence parts state) (wellFormed : WellFormed state) :
    state.Fresh sequence := by
  rintro (behind | seen | held)
  · exact Nat.not_lt.mpr awaits.ahead behind
  · exact awaits.missing ((wellFormed.seen_iff sequence).mp seen)
  · exact awaits.missing held

theorem Awaits.hasPendingState (awaits : Awaits sequence parts state) :
    state.hasPendingState = true := by
  rcases awaits.pending with member | ⟨-, other, held⟩
  · exact hasPendingState_of_held (Or.inr member)
  · exact hasPendingState_of_held held

theorem Awaits.refl (awaits : Awaits sequence parts state) :
    StillAwaits sequence parts state state where
  toAwaits := awaits
  held _ holds := holds
  effects := ⟨[], (List.append_nil _).symm, by simp⟩

/-- Fields that do not matter to the position may change. -/
theorem StillAwaits.congr (still : StillAwaits sequence parts base before)
    (nextSeq : after.nextSeq = before.nextSeq) (buffered : after.buffered = before.buffered)
    (fragments : after.fragments = before.fragments) {effects : List Effect}
    (trace : after.trace = before.trace ++ effects)
    (others : ∀ payload, Effect.accept sequence payload ∉ effects) :
    StillAwaits sequence parts base after where
  ahead := nextSeq ▸ still.ahead
  media := still.media
  missing := by
    rw [buffered]
    exact still.missing
  fits := by
    rw [ReorderState.FitsParts, fragments]
    exact still.fits
  pending := by
    rw [nextSeq, buffered, fragments]
    exact still.pending
  held fragment holds := by
    rw [ReorderState.HoldsFragment, fragments]
    exact still.held fragment holds
  effects := by
    rcases still.effects with ⟨earlier, appended, none⟩
    refine ⟨earlier ++ effects, by rw [trace, appended, List.append_assoc], ?_⟩
    intro payload member
    exact (List.mem_append.mp member).elim (none payload) (others payload)

theorem StillAwaits.drain {packet : BufferedPacket}
    (still : StillAwaits sequence parts base state)
    (found : state.buffered[state.nextSeq]? = some packet) :
    StillAwaits sequence parts base (drainPacket packet state) := by
  have different : state.nextSeq ≠ sequence := by
    intro same
    exact still.missing (same ▸ OrderedMap.mem_of_getElem? found)
  rcases still.effects with ⟨earlier, appended, none⟩
  constructor
  · constructor
    · exact nextSequence_le_of_lt (Nat.lt_of_le_of_ne still.ahead different) still.media
    · exact still.media
    · exact fun held => still.missing (OrderedMap.mem_erase_iff.mp held).2
    · exact still.fits
    · exact Or.inl (still.pending.resolve_right fun head => different head.1)
  · exact still.held
  · refine ⟨earlier ++ [.forward state.nextSeq packet.payload], ?_, ?_⟩
    · rw [drainPacket, appended, List.append_assoc]
    · intro payload member
      rcases List.mem_append.mp member with member | member
      · exact none payload member
      · cases List.mem_singleton.mp member

theorem StillAwaits.requested {fragments : ExtTreeMap Nat FragmentAssembly}
    {gapRepairRequests : ExtTreeMap Nat Instant} {requests : List RepairRequest}
    (still : StillAwaits sequence parts base state) (same : SameContent state.fragments fragments) :
    StillAwaits sequence parts base
      { state with
        fragments := fragments
        gapRepairRequests := gapRepairRequests
        trace := state.trace ++ requests.map .repairRequest } := by
  rcases still.effects with ⟨earlier, appended, none⟩
  constructor
  · constructor
    · exact still.ahead
    · exact still.media
    · exact still.missing
    · intro assembly found
      rcases same.found found with ⟨previous, present, content⟩
      have slots : previous.fragments = assembly.fragments := congrArg Prod.fst content
      have fits := still.fits previous present
      rw [FragmentAssembly.Holds, slots] at fits
      exact fits
    · simp only [same.mem_iff]
      exact still.pending
  · intro fragment holds
    rcases still.held fragment holds with ⟨assembly, payload, found, filled⟩
    have equal := same sequence
    rw [found, Option.map_some, Option.map_eq_some_iff] at equal
    rcases equal with ⟨updated, present, content⟩
    have slots : updated.fragments = assembly.fragments := congrArg Prod.fst content
    exact ⟨updated, payload, present, slots ▸ filled⟩
  · refine ⟨earlier ++ requests.map .repairRequest, ?_, ?_⟩
    · exact (congrArg (· ++ _) appended).trans (List.append_assoc _ _ _)
    · intro payload member
      rcases List.mem_append.mp member with member | member
      · exact none payload member
      · rcases List.mem_map.mp member with ⟨_, _, impossible⟩
        cases impossible

theorem Skipped.append (skipped : Skipped base before) {effects : List Effect}
    (trace : after.trace = before.trace ++ effects) : Skipped base after := by
  rcases skipped with ⟨earlier, appended, position, reason, member⟩
  exact ⟨earlier ++ effects, by rw [trace, appended, List.append_assoc], position, reason,
    List.mem_append_left _ member⟩

theorem StillAwaits.skip (still : StillAwaits sequence parts base before) {reason : SkipReason}
    {skipped : Nat} (trace : after.trace = before.trace ++ [.skip skipped reason]) :
    Skipped base after := by
  rcases still.effects with ⟨earlier, appended, -⟩
  exact ⟨earlier ++ [.skip skipped reason], by rw [trace, appended, List.append_assoc], skipped,
    reason, List.mem_append_right _ (List.mem_singleton_self _)⟩

/-- What the window functions preserve while nothing can be recovered. -/
def Spared (sequence : Nat) (parts : List Bytes) (base state : ReorderState) : Prop :=
  state.Stuck ∧ (Skipped base state ∨ StillAwaits sequence parts base state)

theorem Spared.windowMove (spared : Spared sequence parts base before)
    (move : WindowMove config now (fun _ _ => False) before after) :
    Spared sequence parts base after := by
  refine ⟨spared.1.forget move.forgets, ?_⟩
  rcases move.effects with ⟨effects, appended, -⟩
  rcases spared.2 with skipped | still
  · exact Or.inl (skipped.append appended)
  · cases move with
    | report _ _ => exact Or.inr (still.congr rfl rfl rfl rfl (by simp))
    | drain found => exact Or.inr (still.drain found)
    | search => exact Or.inr (still.congr rfl rfl rfl (List.append_nil _).symm (by simp))
    | settle _ _ source => exact source.elim
    | request _ same => exact Or.inr (still.requested same)
    | skipFragment _ _ _ | skipMissing _ _ _ _ => exact Or.inl (still.skip rfl)

theorem spared_invariant (config : ReorderConfig) (now : Instant) (sequence : Nat)
    (parts : List Bytes) (base : ReorderState) :
    ActiveInvariant config now (fun _ _ => False) (Spared sequence parts base) where
  move _ _ move spared := spared.windowMove move
  recovered _ spared member := by
    rw [spared.1.recovers_nothing] at member
    cases member

theorem StillAwaits.trans (first : StillAwaits sequence parts base before)
    (second : StillAwaits sequence parts before after) :
    StillAwaits sequence parts base after where
  toAwaits := second.toAwaits
  held fragment holds := second.held fragment (first.held fragment holds)
  effects := by
    rcases first.effects with ⟨earlier, appended, noneEarlier⟩
    rcases second.effects with ⟨later, appendedLater, noneLater⟩
    refine ⟨earlier ++ later, by rw [appendedLater, appended, List.append_assoc], ?_⟩
    intro payload member
    exact (List.mem_append.mp member).elim (noneEarlier payload) (noneLater payload)

theorem Skipped.prepend (skipped : Skipped before after) {effects : List Effect}
    (trace : before.trace = base.trace ++ effects) : Skipped base after := by
  rcases skipped with ⟨later, appended, position, reason, member⟩
  exact ⟨effects ++ later, by rw [appended, trace, List.append_assoc], position, reason,
    List.mem_append_right _ member⟩

theorem Spared.trans (first : StillAwaits sequence parts base before)
    (second : Spared sequence parts before after) : Spared sequence parts base after := by
  refine ⟨second.1, second.2.imp ?_ first.trans⟩
  rcases first.effects with ⟨effects, appended, -⟩
  exact fun skipped => skipped.prepend appended

/-! ## One round -/

/-- The part of an advance after the requests. -/
theorem Awaits.afterRequests (config : ReorderConfig) (now : Instant)
    (awaits : Awaits sequence parts state) (wellFormed : WellFormed state)
    (active : state.initialized = true) (stuck : state.Stuck)
    {fragments : ExtTreeMap Nat FragmentAssembly} {gapRepairRequests : ExtTreeMap Nat Instant}
    {requests : List RepairRequest} (same : SameContent state.fragments fragments) :
    Active (Spared sequence parts state) (drainReady (expireReorderGap config now
      { state with
        fragments := fragments
        gapRepairRequests := gapRepairRequests
        trace := state.trace ++ requests.map .repairRequest })) := by
  have rule := (spared_invariant config now sequence parts state).toWindow
  apply rule.drainReady
  apply rule.expireReorderGap
  exact rule.move (.request requests same) ⟨wellFormed, active, stuck, Or.inr awaits.refl⟩

theorem Awaits.advance (config : ReorderConfig) (now : Instant)
    (awaits : Awaits sequence parts state) (wellFormed : WellFormed state)
    (active : state.initialized = true) (stuck : state.Stuck) :
    ∃ next, advanceReorderWindow config now state = some next ∧
      Active (Spared sequence parts state) next :=
  (spared_invariant config now sequence parts state).advanceReorderWindow
    ⟨wellFormed, active, stuck, Or.inr awaits.refl⟩

theorem Awaits.onTimeout (config : ReorderConfig) (now : Instant)
    (awaits : Awaits sequence parts state) (wellFormed : WellFormed state)
    (active : state.initialized = true) (stuck : state.Stuck) :
    ∃ next, onTimeout config now state = some next ∧
      Active (Spared sequence parts state) next := by
  rw [Server.onTimeout, if_neg (by simp [active]), if_pos awaits.hasPendingState]
  exact awaits.advance config now wellFormed active stuck

section Packet

variable {packet : ReceivedPacket}

/-- The packet carries one of the parts. -/
structure CarriesPart (sequence : Nat) (parts : List Bytes) (packet : ReceivedPacket) : Prop where
  sequence : packet.header.sequence = sequence
  count : packet.header.fragments = parts.length
  part : parts[packet.header.fragment]? = some packet.payload

theorem Awaits.assemblyFor_holds (awaits : Awaits sequence parts state)
    (carries : CarriesPart sequence parts packet) (several : packet.header.fragments ≠ 1)
    (now : Instant) : (assemblyFor now packet state).Holds parts := by
  rw [assemblyFor, carries.sequence]
  cases found : state.fragments[sequence]? with
  | none =>
      rw [Option.getD_none, carries.count]
      exact FragmentAssembly.holds_new parts now
  | some assembly => exact (awaits.fits assembly found).resolve_left (carries.count ▸ several)

/-- Filling a slot of the assembly. -/
theorem Awaits.assemble (awaits : Awaits sequence parts state)
    (carries : CarriesPart sequence parts packet) {filled : FragmentAssembly}
    (fills : Fills now packet state filled) :
    filled.Holds parts ∧
      StillAwaits sequence parts state
        { state with fragments := state.fragments.insert packet.header.sequence filled } ∧
      ReorderState.HoldsFragment
        { state with fragments := state.fragments.insert packet.header.sequence filled }
        sequence packet.header.fragment := by
  have earlier := awaits.assemblyFor_holds carries fills.several now
  rcases fills.fill with ⟨vacant, rfl⟩
  have holds := earlier.fill carries.part vacant
  have bound := (List.getElem?_eq_some_iff.mp vacant).1
  have stored : ∀ assembly : FragmentAssembly,
      (state.fragments.insert packet.header.sequence assembly)[sequence]? = some assembly := by
    intro assembly
    rw [carries.sequence]
    exact ExtTreeMap.getElem?_insert_self
  refine ⟨holds, ?_, _, packet.payload, stored _, List.getElem?_set_self bound⟩
  constructor
  · constructor
    · exact awaits.ahead
    · exact awaits.media
    · exact awaits.missing
    · intro assembly found
      cases found.symm.trans (stored _)
      exact Or.inr holds
    · exact Or.inl (OrderedMap.mem_of_getElem? (stored _))
  · rintro fragment ⟨assembly, payload, found, filled⟩
    have same : assemblyFor now packet state = assembly := by
      rw [assemblyFor, carries.sequence, found, Option.getD_some]
    have different : packet.header.fragment ≠ fragment := by
      intro equal
      rw [same, equal, filled] at vacant
      cases vacant
    refine ⟨_, payload, stored _, ?_⟩
    rw [FragmentAssembly.fill, List.getElem?_set_ne different, same]
    exact filled
  · exact ⟨[], (List.append_nil _).symm, by simp⟩

/-- A part that repeats is held. -/
theorem Awaits.holds_of_repeats (awaits : Awaits sequence parts state)
    (carries : CarriesPart sequence parts packet) (several : packet.header.fragments ≠ 1)
    (repeats : Repeats packet state) :
    state.HoldsFragment sequence packet.header.fragment := by
  rcases repeats with ⟨assembly, found, different | ⟨present, filled⟩⟩
  · rw [carries.sequence] at found
    have slots := ((awaits.fits assembly found).resolve_left (carries.count ▸ several)).1
    exact absurd (slots.trans carries.count.symm) different
  · rw [carries.sequence] at found
    exact ⟨assembly, present, found, filled⟩

/-- The only part of a packet that was not split. -/
theorem CarriesPart.flatten_of_whole (carries : CarriesPart sequence parts packet)
    (whole : packet.header.fragments = 1) : parts.flatten = packet.payload := by
  have one : parts.length = 1 := carries.count.symm.trans whole
  rcases List.length_eq_one_iff.mp one with ⟨part, rfl⟩
  have first : packet.header.fragment = 0 := by
    have bound := packet.valid.2.1
    omega
  have same := carries.part
  rw [first] at same
  cases same
  exact List.flatten_singleton

/-- A part that completes nothing fills its slot. -/
theorem StillAwaits.onPacket_incomplete {base : ReorderState} (config : ReorderConfig)
    (now : Instant) (still : StillAwaits sequence parts base state) (wellFormed : WellFormed state)
    (active : state.initialized = true) (stuck : state.Stuck)
    (carries : CarriesPart sequence parts packet) (fresh : state.Fresh packet.header.sequence)
    {filled : FragmentAssembly} (fills : Fills now packet state filled)
    (incomplete : filled.isComplete = false) :
    ∃ next, advanceReorderWindow config now
        { state with fragments := state.fragments.insert packet.header.sequence filled } =
          some next ∧
      Active (Spared sequence parts base) next ∧
      (Skipped base next ∨ next.HoldsFragment sequence packet.header.fragment) := by
  rcases still.assemble carries fills with ⟨-, assembled, held⟩
  have assembledWellFormed := wellFormed.assemble fresh fills incomplete
  rcases assembled.advance config now assembledWellFormed active
    (stuck.forget (.of_same rfl rfl)) with ⟨next, advanced, wellFormed, initialized, spared⟩
  refine ⟨next, advanced, ⟨wellFormed, initialized, .trans (still.trans assembled) spared⟩, ?_⟩
  rcases spared.2 with skipped | kept
  · rcases still.effects with ⟨effects, trace, -⟩
    exact Or.inl (skipped.prepend trace)
  · exact Or.inr (kept.held _ held)

/-- Receiving a part completes the position with the payload, or fills the slot. -/
theorem Awaits.onPacket (config : ReorderConfig) (now : Instant)
    (awaits : Awaits sequence parts state) (wellFormed : WellFormed state)
    (active : state.initialized = true) (stuck : state.Stuck)
    (carries : CarriesPart sequence parts packet) :
    ∃ next, onPacket config now packet state = some next ∧
      (Accepted now sequence parts.flatten state next ∨
        Active (Spared sequence parts state) next ∧ packet.header.fragments ≠ 1 ∧
          (Skipped state next ∨ next.HoldsFragment sequence packet.header.fragment)) := by
  have fresh : state.Fresh packet.header.sequence := by
    rw [carries.sequence]
    exact awaits.fresh wellFormed
  have joinedAwaits : StillAwaits sequence parts state (joined packet state) :=
    awaits.refl.congr rfl rfl rfl (List.append_nil _).symm (by simp)
  have joinedWellFormed := wellFormed.joined packet
  have ahead : state.nextSeq ≤ packet.header.sequence :=
    Nat.le_of_not_lt fun behind => fresh (Or.inl behind)
  have joinedFresh : (joined packet state).Fresh packet.header.sequence := fresh
  by_cases whole : packet.header.fragments = 1
  · rcases accepted_of_fresh config now wellFormed active whole fresh with
      ⟨next, processed, accepted⟩
    rw [carries.sequence, ← carries.flatten_of_whole whole] at accepted
    exact ⟨next, processed, Or.inl accepted⟩
  · rcases reassemble_cases now joinedWellFormed whole with
      ⟨repeats, outcome⟩ |
      ⟨filled, fills, ⟨incomplete, outcome⟩ | ⟨complete, payload, gives, outcome⟩⟩
    · have held := joinedAwaits.holds_of_repeats carries whole repeats
      refine ⟨(joined packet state).emit (.duplicate packet.header.sequence), ?_, Or.inr ⟨?_,
        whole, Or.inr held⟩⟩
      · rw [onPacket_ahead config now active ahead, processAdmitted, if_neg joinedFresh, outcome]
      · refine ⟨joinedWellFormed.congr rfl rfl rfl rfl rfl, active, ?_, Or.inr ?_⟩
        · exact stuck.forget (.of_same rfl rfl)
        · exact joinedAwaits.congr rfl rfl rfl rfl (by simp)
    · rcases joinedAwaits.onPacket_incomplete config now joinedWellFormed active
        (stuck.forget (.of_same rfl rfl)) carries joinedFresh fills incomplete with
        ⟨next, advanced, spared, held⟩
      refine ⟨next, ?_, Or.inr ⟨spared, whole, held⟩⟩
      rw [onPacket_ahead config now active ahead, processAdmitted, if_neg joinedFresh, outcome]
      exact advanced
    · rcases joinedAwaits.assemble carries fills with ⟨holds, -⟩
      rw [FragmentAssembly.intoPayload_of_holds holds complete] at gives
      cases gives
      rcases accepted_of_complete config now wellFormed active fresh outcome with
        ⟨next, processed, accepted⟩
      rw [carries.sequence] at accepted
      exact ⟨next, processed, Or.inl accepted⟩

end Packet

/-! ## Whole runs -/

theorem exists_foldlM_reorderStep (config : ReorderConfig) (consistent : Consistent state)
    (inputs : List TimedInput) :
    ∃ final effects, inputs.foldlM (reorderStep config) state = some final ∧
      final.trace = state.trace ++ effects := by
  rcases (extends_invariant config state).foldlM_reorderStep (fun _ _ _ _ => trivial) consistent
    (Extends.refl state) with ⟨final, finished, -, effects, trace⟩
  exact ⟨final, effects, finished, trace⟩

/-- Some round completes the position with the payload, and no payload was
accepted there before. -/
def CompletesWith (config : ReorderConfig) (sequence : Nat) (payload : Bytes)
    (state : ReorderState) (inputs : List TimedInput) : Prop :=
  ∃ earlier timed later reached next, inputs = earlier ++ timed :: later ∧
    earlier.foldlM (reorderStep config) state = some reached ∧
    (∃ effects, reached.trace = state.trace ++ effects ∧
      ∀ other, Effect.accept sequence other ∉ effects) ∧
    reorderStep config reached timed = some next ∧
    Accepted timed.now sequence payload reached next

/-- A timeout, or a packet with one of the parts. -/
def Redelivers (sequence : Nat) (parts : List Bytes) (timed : TimedInput) : Prop :=
  timed.input = .timeout ∨
    ∃ packet, timed.input = .frame (.packet packet) ∧ CarriesPart sequence parts packet

/-- What a run of redeliveries from `state` leaves behind when it has not
completed the position. -/
structure Redelivered (sequence : Nat) (parts : List Bytes) (inputs : List TimedInput)
    (state final : ReorderState) : Prop where
  still : StillAwaits sequence parts state final
  received : ∀ timed ∈ inputs, ∀ packet, timed.input = .frame (.packet packet) →
    packet.header.fragments ≠ 1 ∧ final.HoldsFragment sequence packet.header.fragment

theorem Awaits.reorderStep (config : ReorderConfig) (awaits : Awaits sequence parts state)
    (consistent : Consistent state) (active : state.initialized = true) (stuck : state.Stuck)
    (redelivers : Redelivers sequence parts timed) :
    ∃ next, reorderStep config state timed = some next ∧
      (Accepted timed.now sequence parts.flatten state next ∨ Skipped state next ∨
        next.initialized = true ∧ next.Stuck ∧
          Redelivered sequence parts [timed] state next) := by
  rcases timed with ⟨now, input⟩
  rcases redelivers with waits | ⟨packet, receives, carries⟩
  · cases waits
    rcases awaits.onTimeout config now consistent.toWellFormed active stuck with
      ⟨next, stepped, -, initialized, spared⟩
    refine ⟨next, stepped, Or.inr ?_⟩
    rcases spared.2 with skipped | still
    · exact Or.inl skipped
    · refine Or.inr ⟨initialized, spared.1, still, ?_⟩
      intro timed member packet receives
      rw [List.mem_singleton.mp member] at receives
      cases receives
  · cases receives
    rcases awaits.onPacket config now consistent.toWellFormed active stuck carries with
      ⟨next, stepped, accepted | ⟨⟨-, initialized, spared⟩, several, held⟩⟩
    · exact ⟨next, stepped, Or.inl accepted⟩
    · refine ⟨next, stepped, Or.inr ?_⟩
      rcases spared.2 with skipped | still
      · exact Or.inl skipped
      · rcases held with skipped | held
        · exact Or.inl skipped
        · refine Or.inr ⟨initialized, spared.1, still, ?_⟩
          intro timed member other receives
          rw [List.mem_singleton.mp member] at receives
          cases receives
          exact ⟨several, held⟩

/-- Redeliveries in any order and with any repetitions. -/
theorem Awaits.foldlM_reorderStep (config : ReorderConfig) {inputs : List TimedInput}
    (redeliver : ∀ timed ∈ inputs, Redelivers sequence parts timed)
    (awaits : Awaits sequence parts state) (consistent : Consistent state)
    (active : state.initialized = true) (stuck : state.Stuck) :
    ∃ final, inputs.foldlM (Server.reorderStep config) state = some final ∧
      (Skipped state final ∨ CompletesWith config sequence parts.flatten state inputs ∨
        Consistent final ∧ Redelivered sequence parts inputs state final) := by
  induction inputs generalizing state with
  | nil =>
      exact ⟨state, rfl, Or.inr (Or.inr ⟨consistent, awaits.refl, by simp⟩)⟩
  | cons timed rest induction =>
      rw [List.forall_mem_cons] at redeliver
      rcases awaits.reorderStep config consistent active stuck redeliver.1 with
        ⟨next, stepped, outcome⟩
      have nextConsistent := consistent.reorderStep stepped
      have ran : ∀ {final}, rest.foldlM (Server.reorderStep config) next = some final →
          (timed :: rest).foldlM (Server.reorderStep config) state = some final :=
        (foldlM_reorderStep_cons stepped rest).trans
      rcases outcome with accepted | skipped | ⟨initialized, nextStuck, redelivered⟩
      · rcases exists_foldlM_reorderStep config nextConsistent rest with ⟨final, -, finished, -⟩
        exact ⟨final, ran finished, Or.inr (Or.inl ⟨[], timed, rest, state, next, rfl, rfl,
          ⟨[], (List.append_nil _).symm, by simp⟩, stepped, accepted⟩)⟩
      · rcases exists_foldlM_reorderStep config nextConsistent rest with
          ⟨final, effects, finished, trace⟩
        exact ⟨final, ran finished, Or.inl (skipped.append trace)⟩
      · rcases redelivered.still.effects with ⟨effects, appended, none⟩
        rcases induction redeliver.2 redelivered.still.toAwaits nextConsistent initialized
          nextStuck with
          ⟨final, finished, skipped | completes | ⟨finalConsistent, finalRedelivered⟩⟩
        · exact ⟨final, ran finished, Or.inl (skipped.prepend appended)⟩
        · rcases completes with ⟨earlier, last, later, reached, after, rfl, reachedBy,
            ⟨more, appendedMore, noneMore⟩, completed⟩
          refine ⟨final, ran finished, Or.inr (Or.inl ⟨timed :: earlier, last, later, reached,
            after, rfl, (foldlM_reorderStep_cons stepped earlier).trans reachedBy,
            ⟨effects ++ more, ?_, ?_⟩, completed⟩)⟩
          · rw [appendedMore, appended, List.append_assoc]
          · intro other member
            exact (List.mem_append.mp member).elim (none other) (noneMore other)
        · refine ⟨final, ran finished, Or.inr (Or.inr ⟨finalConsistent,
            redelivered.still.trans finalRedelivered.still, ?_⟩)⟩
          rw [List.forall_mem_cons]
          refine ⟨?_, finalRedelivered.received⟩
          intro packet receives
          rcases redelivered.received timed (List.mem_singleton_self _) packet receives with
            ⟨several, held⟩
          exact ⟨several, finalRedelivered.still.held _ held⟩

/-- When a packet arrives for every part that was not held, the position is completed. -/
theorem Awaits.completes (config : ReorderConfig) {inputs : List TimedInput}
    (redeliver : ∀ timed ∈ inputs, Redelivers sequence parts timed)
    (awaits : Awaits sequence parts state) (consistent : Consistent state)
    (active : state.initialized = true) (stuck : state.Stuck)
    (something : ∃ timed ∈ inputs, ∃ packet, timed.input = .frame (.packet packet))
    (everything : ∀ fragment < parts.length, state.HoldsFragment sequence fragment ∨
      ∃ timed ∈ inputs, ∃ packet, timed.input = .frame (.packet packet) ∧
        packet.header.fragment = fragment) :
    ∃ final, inputs.foldlM (Server.reorderStep config) state = some final ∧
      (Skipped state final ∨ CompletesWith config sequence parts.flatten state inputs) := by
  rcases awaits.foldlM_reorderStep config redeliver consistent active stuck with
    ⟨final, finished, skipped | completes | ⟨finalConsistent, redelivered⟩⟩
  · exact ⟨final, finished, Or.inl skipped⟩
  · exact ⟨final, finished, Or.inr completes⟩
  · exfalso
    have holdsAll : ∀ fragment < parts.length, final.HoldsFragment sequence fragment := by
      intro fragment inBounds
      rcases everything fragment inBounds with held | ⟨timed, member, packet, receives, rfl⟩
      · exact redelivered.still.held fragment held
      · exact (redelivered.received timed member packet receives).2
    rcases something with ⟨timed, member, packet, receives⟩
    rcases redelivered.received timed member packet receives with
      ⟨several, assembly, payload, found, -⟩
    have unsplit : parts.length ≠ 1 := by
      rcases redeliver timed member with waits | ⟨other, receivesOther, carries⟩
      · cases waits.symm.trans receives
      · cases receivesOther.symm.trans receives
        exact carries.count ▸ several
    have slots := ((redelivered.still.fits assembly found).resolve_left unsplit).1
    have complete : assembly.isComplete = true := by
      rw [FragmentAssembly.isComplete_iff]
      intro slot slotMember
      rcases List.getElem_of_mem slotMember with ⟨fragment, bound, rfl⟩
      rcases holdsAll fragment (slots ▸ bound) with ⟨same, content, foundSame, filled⟩
      cases foundSame.symm.trans found
      rw [List.getElem?_eq_getElem bound] at filled
      rw [Option.some.inj filled, Option.isSome_some]
    have incomplete := finalConsistent.assembly_incomplete found
    rw [complete] at incomplete
    cases incomplete

/-- The same from what a round that began at `base` has left, which may have
skipped the position already. -/
theorem completes_of_spared (config : ReorderConfig) {inputs : List TimedInput}
    (redeliver : ∀ timed ∈ inputs, Redelivers sequence parts timed)
    (spared : Active (Spared sequence parts base) state)
    (something : ∃ timed ∈ inputs, ∃ packet, timed.input = .frame (.packet packet))
    (everything : ∀ fragment < parts.length, base.HoldsFragment sequence fragment ∨
      ∃ timed ∈ inputs, ∃ packet, timed.input = .frame (.packet packet) ∧
        packet.header.fragment = fragment) :
    ∃ final, inputs.foldlM (Server.reorderStep config) state = some final ∧
      (Skipped base final ∨ CompletesWith config sequence parts.flatten state inputs) := by
  rcases spared with ⟨wellFormed, active, stuck, skipped | still⟩
  · rcases exists_foldlM_reorderStep config (.of_initialized wellFormed active) inputs with
      ⟨final, effects, finished, trace⟩
    exact ⟨final, finished, Or.inl (skipped.append trace)⟩
  · rcases still.effects with ⟨effects, appended, -⟩
    have covered := fun fragment inBounds =>
      (everything fragment inBounds).imp_left (still.held fragment)
    rcases still.toAwaits.completes config redeliver (.of_initialized wellFormed active) active
      stuck something covered with ⟨final, finished, skipped | completes⟩
    · exact ⟨final, finished, Or.inl (skipped.prepend appended)⟩
    · exact ⟨final, finished, Or.inr completes⟩

end Irohsion.Server
