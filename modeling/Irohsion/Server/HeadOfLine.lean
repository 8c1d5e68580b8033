import Irohsion.Server.GapExpiry

/-! # Head-of-line delay

When an advance releases every payload that has been held for
`max_reorder_delay`. Expiring runs once, before draining, and stops at the first
held payload or at a young assembly before it.
-/

namespace Irohsion.Server

open Protocol Std

variable {config : ReorderConfig} {now : Instant} {timed : TimedInput}
variable {base state next : ReorderState}

/-! ## The expiry -/

/-- Positions before the first held payload were skipped, with overdue assemblies. -/
structure Expiring (config : ReorderConfig) (now : Instant) (base state : ReorderState) :
    Prop where
  wellFormed : WellFormed state
  buffered : state.buffered = base.buffered
  fragments : ∀ position, state.nextSeq ≤ position →
    state.fragments[position]? = base.fragments[position]?
  overdue : ∀ {position : Nat} {assembly : FragmentAssembly},
    base.fragments[position]? = some assembly → position < state.nextSeq →
    config.maxReorderDelay ≤ assembly.firstSeen.elapsed now

/-- The state after the expiry, and why it stopped there. -/
theorem expireReorderGap_exit (wellFormed : WellFormed state) {held : Nat}
    (member : held ∈ state.buffered) :
    Expiring config now state (expireReorderGap config now state) ∧
      expireStep config now (expireReorderGap config now state) =
        .done (expireReorderGap config now state) := by
  rcases @expireReorderGap_skipped config now _ wellFormed with ⟨count, skipped, left, -⟩
  have stillHeld : held ∈ (expireReorderGap config now state).buffered := by
    rw [skipped.buffered]
    exact member
  have position := (skipped.position_of_held wellFormed (Or.inl stillHeld)).1
  refine ⟨⟨skipped.wellFormed, skipped.buffered, ?_, ?_⟩, left⟩
  · intro later above
    apply skipped.kept
    intro passed
    exact absurd passed.2 (by omega)
  · intro earlier assembly found below
    have inWindow := wellFormed.fragments_inWindow (OrderedMap.mem_of_getElem? found)
    rcases (skipped.overdue earlier ⟨inWindow.1, position ▸ below⟩).2 with
      ⟨same, present, -, old⟩ | ⟨missing, -⟩
    · cases found.symm.trans present
      exact old
    · exact absurd (OrderedMap.mem_of_getElem? found) missing

theorem expireReorderGap_buffered (config : ReorderConfig) (now : Instant) (state : ReorderState) :
    (expireReorderGap config now state).buffered = state.buffered := by
  apply BreakLoop.run_unchanged ReorderState.buffered
  intro state
  rw [expireStep]
  split
  · rfl
  · split
    · split <;> rfl
    · split
      · rfl
      · split <;> rfl

/-! ## Draining -/

/-- A run of held payloads from the start on was forwarded. -/
structure Draining (base state : ReorderState) : Prop where
  wellFormed : WellFormed state
  drained : ∀ {held position}, held ∈ base.buffered → held ∉ state.buffered →
    base.nextSeq ≤ position → position ≤ held → position ∈ base.buffered
  start : ∀ {held}, held ∈ state.buffered → base.nextSeq ≤ state.nextSeq
  run : ∀ {held position}, held ∈ state.buffered → base.nextSeq ≤ position →
    position < state.nextSeq → position ∈ base.buffered
  rest : ∀ {held position : Nat}, held ∈ state.buffered → state.nextSeq ≤ position →
    state.buffered[position]? = base.buffered[position]?

theorem Draining.step (draining : Draining base state) : Draining base (drainStep state).value := by
  rw [drainStep]
  split
  · exact draining
  · rename_i packet found
    have here := OrderedMap.mem_of_getElem? found
    have move : WindowMove ⟨none, 0, 0⟩ 0 (fun _ _ => True) state (drainPacket packet state) :=
      .drain found
    have wellFormed := draining.wellFormed.windowMove move
    have hereInBase : state.nextSeq ∈ base.buffered :=
      OrderedMap.mem_of_getElem? ((draining.rest here (Nat.le_refl _)).symm.trans found)
    have onward : ∀ {held}, held ∈ state.buffered.erase state.nextSeq →
        held ∈ state.buffered ∧ nextSequence state.nextSeq = state.nextSeq + 1 := by
      intro held member
      rcases OrderedMap.mem_erase_iff.mp member with ⟨different, member⟩
      rcases draining.wellFormed.buffered_inWindow member with ⟨ahead, media⟩
      exact ⟨member, by rw [nextSequence, if_neg (by omega)]⟩
    constructor
    · exact wellFormed
    · intro held position inBase gone above below
      by_cases still : held ∈ state.buffered
      · have last : held = state.nextSeq := by
          by_contra different
          exact gone (OrderedMap.mem_erase_iff.mpr ⟨different, still⟩)
        subst last
        rcases Nat.lt_or_eq_of_le below with before | same
        · exact draining.run still above before
        · exact same ▸ hereInBase
      · exact draining.drained inBase still above below
    · intro held member
      rcases onward member with ⟨earlier, position⟩
      have started := draining.start earlier
      show base.nextSeq ≤ nextSequence state.nextSeq
      omega
    · intro held position member above below
      rcases onward member with ⟨earlier, advanced⟩
      have below : position < nextSequence state.nextSeq := below
      rcases Nat.lt_or_ge position state.nextSeq with before | reached
      · exact draining.run earlier above before
      · have same : position = state.nextSeq := by omega
        exact same ▸ hereInBase
    · intro held position member above
      rcases onward member with ⟨earlier, advanced⟩
      have above : nextSequence state.nextSeq ≤ position := above
      have different : state.nextSeq ≠ position := by omega
      exact (OrderedMap.getElem?_erase_of_ne different).trans
        (draining.rest earlier (by omega))

/-- Draining keeps what lies behind a position that is not held. -/
theorem drainReady_buffered (wellFormed : WellFormed state) {sequence : Nat}
    {packet : BufferedPacket} :
    (drainReady state).buffered[sequence]? = some packet ↔
      state.buffered[sequence]? = some packet ∧
        ∃ position, state.nextSeq ≤ position ∧ position ≤ sequence ∧
          position ∉ state.buffered := by
  have start : Draining state state := by
    refine ⟨wellFormed, ?_, fun _ => Nat.le_refl _, ?_, fun _ _ => rfl⟩
    · exact fun member gone => absurd member gone
    · exact fun _ above below => absurd above (Nat.not_le.mpr below)
  have final : Draining state (drainReady state) :=
    BreakLoop.run_invariant (fun _ draining => draining.step) _ state start
  have stopped := drainReady_drained state
  constructor
  · intro kept
    have member := OrderedMap.mem_of_getElem? kept
    have inWindow := final.wellFormed.buffered_inWindow member
    refine ⟨(final.rest member inWindow.1).symm.trans kept, (drainReady state).nextSeq,
      final.start member, inWindow.1, ?_⟩
    rw [OrderedMap.mem_iff_getElem?, ← final.rest member (Nat.le_refl _),
      ← OrderedMap.mem_iff_getElem?]
    exact stopped
  · rintro ⟨found, position, above, below, gap⟩
    have member : sequence ∈ (drainReady state).buffered := by
      by_contra gone
      exact gap (final.drained (OrderedMap.mem_of_getElem? found) gone above below)
    have inWindow := final.wellFormed.buffered_inWindow member
    exact (final.rest member inWindow.1).trans found

/-! ## Overdue payloads -/

/-- Some complete payload has been held for `max_reorder_delay` or longer. -/
def HoldsOverdue (config : ReorderConfig) (now : Instant) (state : ReorderState) : Prop :=
  ∃ (sequence : Nat) (packet : BufferedPacket), state.buffered[sequence]? = some packet ∧
    config.maxReorderDelay ≤ packet.receivedAt.elapsed now

/-- Before an overdue payload every assembly ahead of all held payloads is
overdue too, and from the first held payload on no position is missing. -/
def Unobstructed (config : ReorderConfig) (now : Instant) (state : ReorderState) : Prop :=
  ∀ (sequence : Nat) (packet : BufferedPacket), state.buffered[sequence]? = some packet →
    config.maxReorderDelay ≤ packet.receivedAt.elapsed now →
    (∀ (position : Nat) (assembly : FragmentAssembly),
      state.fragments[position]? = some assembly →
      (∀ held ∈ state.buffered, position < held) →
      config.maxReorderDelay ≤ assembly.firstSeen.elapsed now) ∧
    ∀ position, (∃ held ∈ state.buffered, held ≤ position) → position ≤ sequence →
      position ∈ state.buffered

theorem WellFormed.expireReorderGap (config : ReorderConfig) (now : Instant)
    (wellFormed : WellFormed state) : WellFormed (expireReorderGap config now state) := by
  rcases @expireReorderGap_skipped config now _ wellFormed with ⟨_, skipped, -⟩
  exact skipped.wellFormed

/-- What is held from the position after the expiry up to an overdue payload. -/
theorem unobstructed_of_released (wellFormed : WellFormed state)
    (released : ¬ HoldsOverdue config now (drainReady (expireReorderGap config now state))) :
    Unobstructed config now state := by
  intro sequence packet found overdue
  have member := OrderedMap.mem_of_getElem? found
  rcases @expireReorderGap_exit config now _ wellFormed _ member with ⟨expiring, -⟩
  have run : ∀ position, (expireReorderGap config now state).nextSeq ≤ position →
      position ≤ sequence → position ∈ state.buffered := by
    intro position above below
    by_contra gap
    apply released
    refine ⟨sequence, packet, (drainReady_buffered expiring.wellFormed).mpr ⟨?_, position, above,
      below, ?_⟩, overdue⟩
    · rw [expiring.buffered, found]
    · rw [expiring.buffered]
      exact gap
  have ahead : ∀ held ∈ state.buffered,
      (expireReorderGap config now state).nextSeq ≤ held := by
    intro held member
    exact (expiring.wellFormed.buffered_inWindow (expiring.buffered ▸ member)).1
  have reached := run _ (Nat.le_refl _) (ahead sequence member)
  constructor
  · intro position assembly assembled before
    exact expiring.overdue assembled (before _ reached)
  · rintro position ⟨held, heldMember, below⟩ before
    exact run position (Nat.le_trans (ahead held heldMember) below) before

/-- The loop does not end before an unobstructed payload that is overdue. -/
theorem released_of_unobstructed (wellFormed : WellFormed state)
    (unobstructed : Unobstructed config now state) :
    ¬ HoldsOverdue config now (drainReady (expireReorderGap config now state)) := by
  rintro ⟨sequence, packet, kept, overdue⟩
  rcases (drainReady_buffered (wellFormed.expireReorderGap config now)).mp kept with
    ⟨found, position, above, below, gap⟩
  rw [expireReorderGap_buffered] at found gap
  have member := OrderedMap.mem_of_getElem? found
  rcases unobstructed sequence packet found overdue with ⟨assembliesOverdue, noGap⟩
  rcases @expireReorderGap_exit config now _ wellFormed _ member with ⟨expiring, left⟩
  rcases (expireStep_done left).2 with reached | ⟨absent, assembly, assembled, young⟩ | young
  · rw [expireReorderGap_buffered] at reached
    exact gap (noGap position ⟨_, reached, above⟩ below)
  · rw [expireReorderGap_buffered] at absent
    rw [expiring.fragments _ (Nat.le_refl _)] at assembled
    have before : ∀ held ∈ state.buffered,
        (expireReorderGap config now state).nextSeq < held := by
      intro held heldMember
      have ahead := expiring.wellFormed.buffered_inWindow (expiring.buffered ▸ heldMember)
      have different : held ≠ (expireReorderGap config now state).nextSeq :=
        fun same => absent (same ▸ heldMember)
      omega
    exact Nat.not_le.mpr young (assembliesOverdue _ assembly assembled before)
  · have pending : (expireReorderGap config now state).Pending sequence packet.receivedAt :=
      Or.inl ⟨packet, expiring.buffered ▸ found, rfl⟩
    exact Nat.not_le.mpr (young pending) overdue

/-- After the expiry and the draining nothing overdue is held. -/
theorem released_iff (wellFormed : WellFormed state) :
    ¬ HoldsOverdue config now (drainReady (expireReorderGap config now state)) ↔
      Unobstructed config now state :=
  ⟨unobstructed_of_released wellFormed, released_of_unobstructed wellFormed⟩

theorem Unobstructed.congr (buffered : next.buffered = state.buffered)
    (same : SameContent state.fragments next.fragments)
    (unobstructed : Unobstructed config now next) : Unobstructed config now state := by
  intro sequence packet found overdue
  rw [Unobstructed, buffered] at unobstructed
  rcases unobstructed sequence packet found overdue with ⟨assembliesOverdue, noGap⟩
  refine ⟨?_, noGap⟩
  intro position assembly assembled before
  have content := same position
  rw [assembled] at content
  rcases Option.map_eq_some_iff.mp content with ⟨later, found, equal⟩
  have firstSeen : later.firstSeen = assembly.firstSeen := congrArg Prod.snd equal
  exact firstSeen ▸ assembliesOverdue position later found before

theorem SameContent.symm {before after : ExtTreeMap Nat FragmentAssembly}
    (same : SameContent before after) : SameContent after before :=
  fun sequence => (same sequence).symm

/-- Everything that is held was received at this moment. -/
def JustReceived (now : Instant) (state : ReorderState) : Prop :=
  ∀ (sequence : Nat) (packet : BufferedPacket), state.buffered[sequence]? = some packet →
    packet.receivedAt = now

theorem justReceived_invariant (config : ReorderConfig) (now : Instant) :
    ActiveInvariant config now (fun _ _ => True) (JustReceived now) where
  recovered _ _ _ := trivial
  move := by
    intro before after _ _ move recent sequence packet found
    cases move with
    | drain _ => exact recent sequence packet (OrderedMap.getElem?_erase_eq_some.mp found).2
    | @settle accepted payload _ _ _ =>
        by_cases expected : accepted = before.nextSeq
        · rw [settle_of_expected now payload expected] at found
          exact recent sequence packet found
        · rw [settle_of_ahead now payload expected] at found
          rcases OrderedMap.getElem?_insert_eq_some found with ⟨-, rfl⟩ | earlier
          · rfl
          · exact recent sequence packet earlier
    | report _ _ | search | request _ _ | skipFragment _ _ _ | skipMissing _ _ _ _ =>
        exact recent sequence packet found

/-- Whenever the loop advances the window, nothing is held for
`max_reorder_delay` afterwards exactly when every overdue payload was unobstructed. -/
theorem advance_releases_iff (positive : 0 < config.maxReorderDelay) {inputs : List TimedInput}
    (reached : reorderLoop config inputs = some state)
    (called : advanceTarget state timed = some base) :
    ∃ next, reorderStep config state timed = some next ∧
      advanceReorderWindow config timed.now base = some next ∧
      (¬ HoldsOverdue config timed.now next ↔ Unobstructed config timed.now base) := by
  rcases reorderLoop_stuck reached with ⟨consistent, settled⟩
  rcases active_advanceTarget consistent called with ⟨wellFormed, active⟩
  rcases advanceReorderWindow_eq config timed.now (wellFormed.recoverFecReady timed.now active)
    with ⟨requested, same, advanced⟩
  refine ⟨_, (reorderStep_of_target called).trans advanced, advanced, ?_⟩
  rcases stuck_advanceTarget consistent settled called with stuck | empty
  · have unsearched := recoverFecReady_of_stuck timed.now stuck
    have buffered := same.buffered
    have fragments := same.fragments
    rw [unsearched] at buffered fragments
    rw [released_iff same.wellFormed]
    exact ⟨.congr buffered fragments, .congr buffered.symm fragments.symm⟩
  · have fresh : JustReceived timed.now base := by
      intro sequence packet found
      rw [empty] at found
      simp at found
    rcases (justReceived_invariant config timed.now).advanceReorderWindow
      ⟨wellFormed, active, fresh⟩ with ⟨next, outcome, -, -, recent⟩
    cases advanced.symm.trans outcome
    constructor
    · intro _ sequence packet found
      rw [empty] at found
      simp at found
    · rintro - ⟨sequence, packet, found, overdue⟩
      rw [recent sequence packet found, Instant.elapsed_self] at overdue
      exact Nat.not_le.mpr positive overdue

/-! ## A second gap behind the first -/

theorem reorderLoop_oneGap :
    ∃ state, reorderLoop tolerant [wholeAt 0 0, wholeAt 0 2] = some state ∧
      state.initialized = true ∧ state.hasPendingState = true ∧
      state.buffered.toList = [(2, ⟨[1], 0⟩)] ∧ state.fragments.toList = [] :=
  exists_of_any (by decide +kernel)

theorem advance_releases_iff_oneGap :
    ∃ state next, reorderLoop tolerant [wholeAt 0 0, wholeAt 0 2] = some state ∧
      reorderStep tolerant state ⟨10, .timeout⟩ = some next ∧ ¬ HoldsOverdue tolerant 10 next := by
  rcases reorderLoop_oneGap with ⟨state, reached, active, pending, buffered, fragments⟩
  have called : advanceTarget state ⟨10, .timeout⟩ = some state := if_pos ⟨active, pending⟩
  have held : ∀ sequence ∈ state.buffered, sequence = 2 := by
    intro sequence member
    have entry := ExtTreeMap.mem_toList_iff_getElem?_eq_some.mpr
      (ExtTreeMap.getElem?_eq_some_getElem member)
    rw [buffered, List.mem_singleton] at entry
    exact (Prod.ext_iff.mp entry).1
  have unobstructed : Unobstructed tolerant 10 state := by
    intro sequence packet found _
    have last := held sequence (OrderedMap.mem_of_getElem? found)
    constructor
    · intro position assembly assembled _
      rw [ExtTreeMap.toList_eq_nil_iff.mp fragments] at assembled
      simp at assembled
    · rintro position ⟨other, member, below⟩ before
      have first := held other member
      have here : position = sequence := by omega
      exact here ▸ OrderedMap.mem_of_getElem? found
  rcases advance_releases_iff (by decide) reached called with ⟨next, stepped, -, released⟩
  exact ⟨state, next, reached, stepped, released.mpr unobstructed⟩

/-- The payload behind a second gap stays, although it has been held as long. -/
theorem behindSecondGap_stays :
    ∃ state next, reorderLoop tolerant [wholeAt 0 0, wholeAt 0 2, wholeAt 0 4] = some state ∧
      reorderStep tolerant state ⟨10, .timeout⟩ = some next ∧
      advanceReorderWindow tolerant 10 state = some next ∧ HoldsOverdue tolerant 10 next := by
  have evaluated : ∃ state, reorderLoop tolerant [wholeAt 0 0, wholeAt 0 2, wholeAt 0 4] =
      some state ∧ state.initialized = true ∧ state.hasPendingState = true ∧
      ((advanceReorderWindow tolerant 10 state).any fun next =>
        decide (next.buffered.toList = [(4, ⟨[1], 0⟩)])) = true :=
    exists_of_any (by decide +kernel)
  rcases evaluated with ⟨state, reached, active, pending, evaluated⟩
  rcases exists_of_any evaluated with ⟨next, advanced, buffered⟩
  have called : advanceTarget state ⟨10, .timeout⟩ = some state := if_pos ⟨active, pending⟩
  have held : next.buffered[4]? = some ⟨[1], 0⟩ := by
    rw [← ExtTreeMap.mem_toList_iff_getElem?_eq_some, buffered]
    exact List.mem_singleton_self _
  exact ⟨state, next, reached, (reorderStep_of_target called).trans advanced, advanced, 4, _, held,
    Nat.le_refl 10⟩

end Irohsion.Server
