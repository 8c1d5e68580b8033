import Irohsion.Server.Pending

/-! # Windows below a limit

A window shelters the positions from a limit on when it stays below the limit
and nothing that is held there is due. Its rounds then forward and skip only
positions below the limit.
-/

namespace Irohsion.Server

open Protocol Std

variable {config : ReorderConfig} {now : Instant} {Source : Nat → Bytes → Prop}
variable {state before after base : ReorderState} {limit : Nat}

/-- Something of the new flow, below the old position, has waited too long. -/
def ReorderState.OwnOverdue (config : ReorderConfig) (now : Instant) (limit : Nat)
    (state : ReorderState) : Prop :=
  ∃ sequence since, state.Pending sequence since ∧ sequence < limit ∧
    config.maxReorderDelay ≤ since.elapsed now

/-! ## Windows below the old position -/

/-- No stored frame has the position just before the limit as a member. -/
def FramesAvoid (limit : Nat) (state : ReorderState) : Prop :=
  ∀ {stored : Nat} {frame : FecFrame}, state.fecState.frames[stored]? = some frame →
    ∀ index, index < frame.payloadLengths.length →
      sequenceAfter frame.baseSequence index + 1 ≠ limit

/-- Only positions below the limit are forwarded, and they are only skipped
for something of the new flow that has waited too long. -/
def Orderly (config : ReorderConfig) (now : Instant) (limit : Nat) (base : ReorderState)
    (effects : List Effect) : Prop :=
  (∀ sequence payload, .forward sequence payload ∈ effects → sequence < limit) ∧
    ∀ sequence reason, .skip sequence reason ∈ effects →
      sequence < limit ∧ base.OwnOverdue config now limit

theorem Orderly.append {first second : List Effect} (left : Orderly config now limit base first)
    (right : Orderly config now limit base second) :
    Orderly config now limit base (first ++ second) := by
  constructor
  · intro sequence payload member
    exact (List.mem_append.mp member).elim (left.1 sequence payload) (right.1 sequence payload)
  · intro sequence reason member
    exact (List.mem_append.mp member).elim (left.2 sequence reason) (right.2 sequence reason)

theorem Orderly.of_quiet {effects : List Effect}
    (quiet : ∀ effect ∈ effects, effect.isDelivery = false) :
    Orderly config now limit base effects := by
  constructor
  · intro sequence payload member
    cases quiet _ member
  · intro sequence reason member
    cases quiet _ member

/-- The window lies below the limit, and what has waited too long is of the
new flow and was already held in `base`. -/
structure Shelter (config : ReorderConfig) (now : Instant) (limit : Nat)
    (base state : ReorderState) : Prop where
  below : state.nextSeq < limit
  avoids : ∀ {sequence since}, state.Pending sequence since → sequence + 1 ≠ limit
  overdue : ∀ {sequence since}, state.Pending sequence since →
    config.maxReorderDelay ≤ since.elapsed now →
    sequence < limit ∧ base.OwnOverdue config now limit
  frames : FramesAvoid limit state
  effects : ∃ effects, state.trace = base.trace ++ effects ∧
    Orderly config now limit base effects ∧
    ∀ effect ∈ effects, effect.isRejection = false

/-- What may be accepted while the window lies below the limit. -/
def Avoids (limit sequence : Nat) (_payload : Bytes) : Prop := sequence + 1 ≠ limit

theorem settle_frames (now : Instant) (sequence : Nat) (payload : Bytes)
    (state : ReorderState) :
    (settle now sequence payload state).fecState.frames = state.fecState.frames := by
  unfold settle
  dsimp only
  split <;> exact FecState.insertPayload_frames _ _ _

theorem WindowMove.framesAvoid (move : WindowMove config now Source before after)
    (avoid : FramesAvoid limit before) : FramesAvoid limit after := by
  intro stored frame found
  apply @avoid stored frame
  cases move with
  | drain _ =>
      rw [← FecState.insertPayload_frames]
      exact found
  | search => exact (FecState.recoverReady_searched _ _ _).frames found
  | settle _ _ _ =>
      rw [settle_frames] at found
      exact found
  | _ => exact found

theorem Shelter.windowMove (positive : 0 < config.maxReorderDelay)
    (shelter : Shelter config now limit base before) (wellFormed : WellFormed before)
    (move : WindowMove config now (Avoids limit) before after) :
    Shelter config now limit base after := by
  constructor
  · rcases move.position wellFormed with same | ⟨passed, reason⟩
    · rw [same]
      exact shelter.below
    · have room : before.nextSeq + 1 < limit := by
        have below := shelter.below
        rcases reason with
          ⟨since, pending⟩ | ⟨payload, avoids⟩ | ⟨sequence, since, pending, ahead, old⟩
        · have avoids := shelter.avoids pending
          omega
        · have avoids : before.nextSeq + 1 ≠ limit := avoids
          omega
        · have within := (shelter.overdue pending old).1
          omega
      rw [passed]
      exact nextSequence_lt room
  · intro sequence since pending
    rcases move.pending pending with earlier | ⟨_, payload, avoids⟩
    · exact shelter.avoids earlier
    · exact avoids
  · intro sequence since pending old
    rcases move.pending pending with earlier | ⟨rfl, _⟩
    · exact shelter.overdue earlier old
    · rw [Instant.elapsed_self] at old
      exact absurd positive (Nat.not_lt.mpr old)
  · exact move.framesAvoid shelter.frames
  · rcases shelter.effects with ⟨earlier, trace, orderly, clean⟩
    rcases move.effects with ⟨effects, appended, moreClean, _⟩
    rcases move.passes with ⟨passing, same, forwards, skips⟩
    rw [appended, List.append_right_inj] at same
    subst same
    refine ⟨earlier ++ effects, by rw [appended, trace, List.append_assoc],
      orderly.append ⟨?_, ?_⟩, ?_⟩
    · intro sequence payload member
      rw [forwards sequence payload member]
      exact shelter.below
    · intro sequence reason member
      rcases skips sequence reason member with ⟨rfl, position, since, pending, old⟩
      exact ⟨shelter.below, (shelter.overdue pending old).2⟩
    · intro effect member
      exact (List.mem_append.mp member).elim (clean effect) (moreClean effect)

/-- A recovered sequence is a member of a stored frame. -/
theorem recovered_avoids (avoid : FramesAvoid limit state) {sequence : Nat} {payload : Bytes}
    (recovered : (sequence, payload) ∈
      (state.fecState.recoverReady state.nextSeq state.buffered).2) :
    Avoids limit sequence payload := by
  rcases FecState.mem_recoverReady.mp recovered with
    ⟨stored, frame, parity, expectedLen, found, scan, _, _⟩
  rcases FecState.scanFrame_of_recovered scan with
    ⟨frontLengths, backLengths, _, _, split, _, atIndex, _, _, _⟩
  rw [Nat.zero_add] at atIndex
  rw [atIndex]
  apply avoid found _
  rw [split, List.length_append, List.length_cons]
  omega

theorem shelter_invariant (positive : 0 < config.maxReorderDelay) (now : Instant) (limit : Nat)
    (base : ReorderState) :
    ActiveInvariant config now (Avoids limit) (Shelter config now limit base) where
  move wellFormed _ move shelter := shelter.windowMove positive wellFormed move
  recovered _ shelter recovered := recovered_avoids shelter.frames recovered

/-! ## One round -/

/-- The state between rounds, with its window below the limit. -/
structure Sheltered (limit : Nat) (state : ReorderState) : Prop where
  below : state.nextSeq < limit
  avoids : ∀ {sequence since}, state.Pending sequence since → sequence + 1 ≠ limit
  frames : FramesAvoid limit state
  drained : state.nextSeq ∉ state.buffered

theorem Shelter.sheltered (shelter : Shelter config now limit base state)
    (drained : state.nextSeq ∉ state.buffered) : Sheltered limit state :=
  ⟨shelter.below, shelter.avoids, shelter.frames, drained⟩

/-- Every held straggler is younger than the reorder delay. -/
def Young (config : ReorderConfig) (now : Instant) (limit : Nat) (state : ReorderState) : Prop :=
  ∀ sequence since, state.Pending sequence since → limit ≤ sequence →
    since.elapsed now < config.maxReorderDelay

theorem Sheltered.shelter (sheltered : Sheltered limit state)
    (young : Young config now limit state) : Shelter config now limit state state where
  below := sheltered.below
  avoids := sheltered.avoids
  overdue := by
    intro sequence since pending old
    have within : sequence < limit := by
      by_contra straggler
      exact absurd (young sequence since pending (Nat.le_of_not_lt straggler)) (Nat.not_lt.mpr old)
    exact ⟨within, sequence, since, pending, within, old⟩
  frames := sheltered.frames
  effects := ⟨[], (List.append_nil _).symm, .of_quiet nofun, nofun⟩

variable {packet : ReceivedPacket}

/-- The packet gives a complete payload. -/
def Completes (now : Instant) (packet : ReceivedPacket) (state : ReorderState)
    (payload : Bytes) : Prop :=
  (packet.header.fragments = 1 ∧ payload = packet.payload) ∨
    ∃ filled, Fills now packet state filled ∧ filled.isComplete = true ∧
      filled.intoPayload = some payload

/-- A packet at the next position is not rejected, unless it is a repeated
fragment, and the payload that it completes is forwarded. -/
def ServedInOrder (now : Instant) (packet : ReceivedPacket) (state : ReorderState)
    (effects : List Effect) : Prop :=
  packet.header.sequence = state.nextSeq →
    ¬ (packet.header.fragments ≠ 1 ∧ Repeats packet state) →
    (∀ effect ∈ effects, effect.isRejection = false) ∧
      ∀ payload, Completes now packet state payload →
        .forward packet.header.sequence payload ∈ effects

theorem Shelter.settle (positive : 0 < config.maxReorderDelay) (wellFormed : WellFormed state)
    (shelter : Shelter config now limit state state)
    (fresh : state.Fresh packet.header.sequence) (avoids : packet.header.sequence + 1 ≠ limit)
    (payload : Bytes) :
    Shelter config now limit state (settle now packet.header.sequence payload state) :=
  shelter.windowMove positive wellFormed (.settle packet.media fresh avoids)

/-- A fragment is pending since its assembly was opened, at the latest now. -/
theorem pending_assemble {filled : FragmentAssembly} (fills : Fills now packet state filled)
    {sequence : Nat} {since : Instant}
    (pending : ReorderState.Pending
      { state with fragments := state.fragments.insert packet.header.sequence filled }
      sequence since) :
    state.Pending sequence since ∨ (since = now ∧ sequence = packet.header.sequence) := by
  rcases pending with held | ⟨assembly, found, rfl⟩
  · exact Or.inl (Or.inl held)
  · by_cases same : packet.header.sequence = sequence
    · subst same
      rw [ExtTreeMap.getElem?_insert_self] at found
      cases found
      rcases fills.fill with ⟨vacant, rfl⟩
      show state.Pending _ (assemblyFor now packet state).firstSeen ∨
        ((assemblyFor now packet state).firstSeen = now ∧ _)
      rw [assemblyFor]
      cases earlier : state.fragments[packet.header.sequence]? with
      | none => exact Or.inr ⟨rfl, rfl⟩
      | some assembly => exact Or.inl (Or.inr ⟨assembly, earlier, rfl⟩)
    · rw [OrderedMap.getElem?_insert_of_ne same] at found
      exact Or.inl (Or.inr ⟨assembly, found, rfl⟩)

theorem Shelter.assemble (positive : 0 < config.maxReorderDelay)
    (shelter : Shelter config now limit state state)
    (avoids : packet.header.sequence + 1 ≠ limit) {filled : FragmentAssembly}
    (fills : Fills now packet state filled) :
    Shelter config now limit state
      { state with fragments := state.fragments.insert packet.header.sequence filled } where
  below := shelter.below
  avoids := by
    intro sequence since pending
    rcases pending_assemble fills pending with earlier | ⟨_, rfl⟩
    · exact shelter.avoids earlier
    · exact avoids
  overdue := by
    intro sequence since pending old
    rcases pending_assemble fills pending with earlier | ⟨rfl, _⟩
    · exact shelter.overdue earlier old
    · rw [Instant.elapsed_self] at old
      exact absurd positive (Nat.not_lt.mpr old)
  frames := shelter.frames
  effects := shelter.effects

/-- The round of a complete payload. -/
theorem settle_orderly (positive : 0 < config.maxReorderDelay) (wellFormed : WellFormed state)
    (active : state.initialized = true) (shelter : Shelter config now limit state state)
    (fresh : state.Fresh packet.header.sequence) (avoids : packet.header.sequence + 1 ≠ limit)
    (payload : Bytes) :
    ∃ next effects, advanceReorderWindow config now (recoverFecReady now
        (acceptCompletePayload now packet.header.sequence payload
          (takeComplete packet.header.sequence state))) = some next ∧
      Consistent next ∧ Sheltered limit next ∧ next.trace = state.trace ++ effects ∧
      Orderly config now limit state effects ∧
      (∀ effect ∈ effects, effect.isRejection = false) ∧
      (packet.header.sequence = state.nextSeq →
        .forward packet.header.sequence payload ∈ effects) := by
  have start := shelter.settle positive wellFormed fresh avoids payload
  have rule := (shelter_invariant positive now limit state).also
    (Extends (Server.settle now packet.header.sequence payload state))
    fun move extended => move.extends extended
  have settled : Active (fun next => Shelter config now limit state next ∧
      Extends (Server.settle now packet.header.sequence payload state) next)
      (Server.settle now packet.header.sequence payload state) :=
    active_settle _ now payload wellFormed active packet.media fresh ⟨start, Extends.refl _⟩
  rcases rule.acceptComplete settled with ⟨next, advanced, nextWellFormed, stillActive, kept, more⟩
  rcases kept.effects with ⟨effects, trace, orderly, clean⟩
  refine ⟨next, effects, advanced, .of_initialized nextWellFormed stillActive,
    kept.sheltered (advanceReorderWindow_drained advanced), trace, orderly, clean, ?_⟩
  intro expected
  rcases more with ⟨later, laterTrace⟩
  rw [settle_trace, trace, List.append_assoc, List.append_right_inj] at laterTrace
  rw [laterTrace, settleForwards, if_pos expected]
  simp

/-- The packet's own payload completes it, or the one of the assembly that it fills. -/
theorem Completes.eq_of_whole {payload : Bytes} (whole : packet.header.fragments = 1)
    (completes : Completes now packet state payload) : payload = packet.payload := by
  rcases completes with ⟨_, same⟩ | ⟨filled, fills, _⟩
  · exact same
  · exact absurd whole fills.several

theorem Completes.of_fills {payload : Bytes} {filled : FragmentAssembly}
    (fills : Fills now packet state filled) (completes : Completes now packet state payload) :
    filled.isComplete = true ∧ filled.intoPayload = some payload := by
  rcases completes with ⟨single, _⟩ | ⟨other, otherFills, complete, gives⟩
  · exact absurd single fills.several
  · rcases fills.fill with ⟨vacant, rfl⟩
    rcases otherFills.fill with ⟨_, rfl⟩
    exact ⟨complete, gives⟩

/-- A packet that is only recorded changes nothing else. -/
theorem record_orderly (wellFormed : WellFormed state) (active : state.initialized = true)
    (sheltered : Sheltered limit state) (unserved : packet.header.sequence = state.nextSeq →
      packet.header.fragments ≠ 1 ∧ Repeats packet state) :
    ∃ next effects, some (state.emit (.duplicate packet.header.sequence)) = some next ∧
      Consistent next ∧ Sheltered limit next ∧ next.trace = state.trace ++ effects ∧
      Orderly config now limit state effects ∧ ServedInOrder now packet state effects := by
  refine ⟨_, [.duplicate packet.header.sequence], rfl, .of_initialized (wellFormed.emit _) active,
    ?_, rfl, .of_quiet ?_, ?_⟩
  · exact ⟨sheltered.below, sheltered.avoids, sheltered.frames, sheltered.drained⟩
  · intro effect member
    rw [List.mem_singleton.mp member]
    rfl
  · exact fun expected served => absurd (unserved expected) served

/-- The round of a complete payload serves its packet. -/
theorem settle_served (positive : 0 < config.maxReorderDelay) (wellFormed : WellFormed state)
    (active : state.initialized = true) (shelter : Shelter config now limit state state)
    (fresh : state.Fresh packet.header.sequence) (avoids : packet.header.sequence + 1 ≠ limit)
    {payload : Bytes} (only : ∀ other, Completes now packet state other → other = payload) :
    ∃ next effects, advanceReorderWindow config now (recoverFecReady now
        (acceptCompletePayload now packet.header.sequence payload
          (takeComplete packet.header.sequence state))) = some next ∧
      Consistent next ∧ Sheltered limit next ∧ next.trace = state.trace ++ effects ∧
      Orderly config now limit state effects ∧ ServedInOrder now packet state effects := by
  rcases settle_orderly positive wellFormed active shelter fresh avoids payload with
    ⟨next, effects, advanced, consistent, sheltered, trace, orderly, clean, forwards⟩
  refine ⟨next, effects, advanced, consistent, sheltered, trace, orderly, ?_⟩
  intro expected _
  refine ⟨clean, ?_⟩
  intro other completes
  rw [only other completes]
  exact forwards expected

/-- The round of a fragment that completes nothing. -/
theorem assemble_orderly (positive : 0 < config.maxReorderDelay) (wellFormed : WellFormed state)
    (active : state.initialized = true) (shelter : Shelter config now limit state state)
    (fresh : state.Fresh packet.header.sequence) (avoids : packet.header.sequence + 1 ≠ limit)
    {filled : FragmentAssembly} (fills : Fills now packet state filled)
    (incomplete : filled.isComplete = false) :
    ∃ next effects, advanceReorderWindow config now
        { state with fragments := state.fragments.insert packet.header.sequence filled } =
          some next ∧
      Consistent next ∧ Sheltered limit next ∧ next.trace = state.trace ++ effects ∧
      Orderly config now limit state effects ∧ ServedInOrder now packet state effects := by
  have assembled := shelter.assemble positive avoids fills
  have opened := wellFormed.assemble fresh fills incomplete
  rcases (shelter_invariant positive now limit state).advanceReorderWindow
    ⟨opened, active, assembled⟩ with ⟨next, advanced, nextWellFormed, stillActive, kept⟩
  rcases kept.effects with ⟨effects, trace, orderly, clean⟩
  refine ⟨next, effects, advanced, .of_initialized nextWellFormed stillActive,
    kept.sheltered (advanceReorderWindow_drained advanced), trace, orderly, ?_⟩
  intro _ _
  refine ⟨clean, ?_⟩
  intro payload completes
  cases incomplete.symm.trans (completes.of_fills fills).1

/-- A packet that is not behind the window. -/
theorem processAdmitted_orderly (positive : 0 < config.maxReorderDelay)
    (wellFormed : WellFormed state) (active : state.initialized = true)
    (sheltered : Sheltered limit state) (young : Young config now limit state)
    (avoids : packet.header.sequence + 1 ≠ limit) :
    ∃ next effects, processAdmitted config now packet state = some next ∧
      Consistent next ∧ Sheltered limit next ∧ next.trace = state.trace ++ effects ∧
      Orderly config now limit state effects ∧ ServedInOrder now packet state effects := by
  have shelter := sheltered.shelter young
  by_cases fresh : state.Fresh packet.header.sequence
  · rw [processAdmitted, if_neg fresh]
    by_cases whole : packet.header.fragments = 1
    · rw [reassemble_whole whole]
      exact settle_served positive wellFormed active shelter fresh avoids
        fun _ completes => completes.eq_of_whole whole
    · rcases reassemble_cases now wellFormed whole with
        ⟨repeats, duplicate⟩ |
          ⟨filled, fills, ⟨incomplete, outcome⟩ | ⟨complete, payload, gives, outcome⟩⟩
      · rw [duplicate]
        exact record_orderly wellFormed active sheltered fun _ => ⟨whole, repeats⟩
      · rw [outcome]
        exact assemble_orderly positive wellFormed active shelter fresh avoids fills incomplete
      · rw [outcome]
        apply settle_served positive wellFormed active shelter fresh avoids
        intro other completes
        exact Option.some.inj ((completes.of_fills fills).2.symm.trans gives)
  · have stale := not_not.mp fresh
    rw [processAdmitted, if_pos stale]
    apply record_orderly wellFormed active sheltered
    intro expected
    rw [expected] at stale
    rcases stale with behind | seen | held
    · exact absurd behind (Nat.lt_irrefl _)
    · exact absurd ((wellFormed.seen_iff _).mp seen) sheltered.drained
    · exact absurd held sheltered.drained

end Irohsion.Server
