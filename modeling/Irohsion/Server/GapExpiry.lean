import Irohsion.Server.AdvanceCalls
import Irohsion.Server.Pending

/-! # What an expiry skips

`expire_reorder_gap` skips one position after the other, from the head of the
window on. It stops before the first position that is held complete or by a young
assembly, and behind the last one that is held at all.
-/

namespace Irohsion.Server

open Protocol Std

variable {config : ReorderConfig} {now : Instant} {timed : TimedInput} {count : Nat}
variable {base state target next : ReorderState}

/-! ## Where the loop ends -/

theorem mem_instants_of_pending {since : Instant} {sequence : Nat}
    (pending : state.Pending sequence since) :
    since ∈ state.buffered.toList.map (fun entry => entry.2.receivedAt) ++
      state.fragments.toList.map fun entry => entry.2.firstSeen := by
  rcases pending with ⟨packet, held, rfl⟩ | ⟨assembly, assembled, rfl⟩
  · have entry := ExtTreeMap.mem_toList_iff_getElem?_eq_some.mpr held
    exact List.mem_append_left _ (List.mem_map.mpr ⟨_, entry, rfl⟩)
  · have entry := ExtTreeMap.mem_toList_iff_getElem?_eq_some.mpr assembled
    exact List.mem_append_right _ (List.mem_map.mpr ⟨_, entry, rfl⟩)

/-- Why a round of the expiry leaves the loop. -/
theorem expireStep_done {final : ReorderState} (left : expireStep config now state = .done final) :
    final = state ∧ (state.nextSeq ∈ state.buffered ∨
      (state.nextSeq ∉ state.buffered ∧ ∃ assembly : FragmentAssembly,
        state.fragments[state.nextSeq]? = some assembly ∧
          assembly.firstSeen.elapsed now < config.maxReorderDelay) ∨
      ∀ {sequence since}, state.Pending sequence since →
        since.elapsed now < config.maxReorderDelay) := by
  rw [expireStep] at left
  split at left
  · rename_i reached
    cases left
    exact ⟨rfl, Or.inl reached⟩
  · rename_i absent
    split at left
    · rename_i assembly found
      split at left
      · rename_i young
        cases left
        exact ⟨rfl, Or.inr (Or.inl ⟨absent, assembly, found, young⟩)⟩
      · cases left
    · split at left
      · rename_i none
        cases left
        refine ⟨rfl, Or.inr (Or.inr ?_)⟩
        intro sequence since pending
        rw [oldestPending, List.min?_eq_none_iff] at none
        have member := mem_instants_of_pending pending
        rw [none] at member
        cases member
      · rename_i oldest found
        split at left
        · rename_i young
          cases left
          refine ⟨rfl, Or.inr (Or.inr ?_)⟩
          intro sequence since pending
          have earlier := (List.min?_eq_some_iff.mp found).2 since
            (mem_instants_of_pending pending)
          exact Nat.lt_of_le_of_lt (Nat.sub_le_sub_left earlier now) young
        · cases left

/-! ## Skipping up to an overdue payload -/

/-- Positions were skipped, and nothing that is held or known has changed. -/
structure SkippedAhead (before after : ReorderState) : Prop where
  initialized : after.initialized = before.initialized
  buffered : after.buffered = before.buffered
  fragments : after.fragments = before.fragments
  fecState : after.fecState = before.fecState
  flowConnections : after.flowConnections = before.flowConnections

theorem expireStep_skippedAhead {config : ReorderConfig} {now : Instant}
    {base state next : ReorderState} (whole : base.fragments = ∅)
    (skipped : SkippedAhead base state) (yields : expireStep config now state = .yield next) :
    SkippedAhead base next := by
  have unassembled : state.fragments[state.nextSeq]? = none := by
    rw [skipped.fragments, whole, ExtTreeMap.getElem?_empty]
  rcases expireStep_skips yields with
    ⟨-, ⟨assembly, found, -⟩ | ⟨-, oldest, -, -, rfl⟩⟩
  · cases unassembled.symm.trans found
  · exact ⟨skipped.initialized, skipped.buffered, skipped.fragments, skipped.fecState,
      skipped.flowConnections⟩

/-- When whole payloads are all that is held and each has waited too long, every
position before one of them is skipped. -/
theorem expireReorderGap_overdue {config : ReorderConfig} {now : Instant} {state : ReorderState}
    (wellFormed : WellFormed state) (whole : state.fragments = ∅)
    (held : ∃ sequence, sequence ∈ state.buffered)
    (overdue : ∀ (sequence : Nat) (packet : BufferedPacket),
      state.buffered[sequence]? = some packet →
      config.maxReorderDelay ≤ packet.receivedAt.elapsed now) :
    (expireReorderGap config now state).nextSeq ∈ state.buffered ∧
      SkippedAhead state (expireReorderGap config now state) := by
  have start : WellFormed state ∧ SkippedAhead state state :=
    ⟨wellFormed, rfl, rfl, rfl, rfl, rfl⟩
  have round : ∀ last next, WellFormed last ∧ SkippedAhead state last →
      expireStep config now last = .yield next → WellFormed next ∧ SkippedAhead state next := by
    intro last next skipping yields
    rcases skipping with ⟨lastWellFormed, skipped⟩
    exact ⟨(expireStep_decreases lastWellFormed yields).1,
      expireStep_skippedAhead whole skipped yields⟩
  rcases BreakLoop.run?_exit round _ _ _ start (expireReorderGap_breaks wellFormed) with
    ⟨last, ⟨_, skipped⟩, left⟩
  rcases expireStep_done left with ⟨final, reason⟩
  rw [final]
  refine ⟨?_, skipped⟩
  rcases reason with reached | ⟨-, assembly, found, -⟩ | young
  · exact skipped.buffered ▸ reached
  · rw [skipped.fragments, whole, ExtTreeMap.getElem?_empty] at found
    cases found
  · rcases held with ⟨sequence, member⟩
    rcases OrderedMap.mem_iff_getElem?.mp member with ⟨packet, found⟩
    have old := overdue sequence packet found
    rw [← skipped.buffered] at found
    exact absurd old (Nat.not_le.mpr (young (Or.inl ⟨packet, found, rfl⟩)))

/-! ## Skipped positions -/

namespace ReorderState

/-- The position is one of so many from the head on. -/
def Skipped (state : ReorderState) (count position : Nat) : Prop :=
  state.nextSeq ≤ position ∧ position < state.nextSeq + count

/-- The classification of a skipped position. -/
def skipEffect (state : ReorderState) (position : Nat) : Effect :=
  .skip position (if position ∈ state.fragments then .fragmentIncomplete else .neverReceived)

/-- An old assembly is held for the position, or nothing is and something old is
held for a later one. -/
def Overdue (config : ReorderConfig) (now : Instant) (state : ReorderState) (position : Nat) :
    Prop :=
  position ∉ state.buffered ∧
    ((∃ assembly : FragmentAssembly, state.fragments[position]? = some assembly ∧
        assembly.isComplete = false ∧
        config.maxReorderDelay ≤ assembly.firstSeen.elapsed now) ∨
      (position ∉ state.fragments ∧ ∃ other since, position < other ∧
        state.Pending other since ∧ config.maxReorderDelay ≤ since.elapsed now))

/-- A complete packet or a young assembly is held for the position. -/
def Stops (config : ReorderConfig) (now : Instant) (state : ReorderState) (position : Nat) :
    Prop :=
  position ∈ state.buffered ∨
    ∃ assembly : FragmentAssembly, state.fragments[position]? = some assembly ∧
      assembly.firstSeen.elapsed now < config.maxReorderDelay

theorem skipped_succ {position : Nat} :
    state.Skipped (count + 1) position ↔
      state.Skipped count position ∨ position = state.nextSeq + count := by
  simp only [Skipped]
  omega

theorem not_overdue_of_stops {position : Nat} (stops : Stops config now state position) :
    ¬ Overdue config now state position := by
  rintro ⟨absent, ⟨assembly, found, -, old⟩ | ⟨missing, -⟩⟩
  · rcases stops with held | ⟨young, present, recent⟩
    · exact absent held
    · cases found.symm.trans present
      exact absurd recent (Nat.not_lt.mpr old)
  · rcases stops with held | ⟨young, present, -⟩
    · exact absent held
    · exact missing (OrderedMap.mem_of_getElem? present)

end ReorderState

/-- The steps from one position to another, without going round. -/
structure IsDistance (position target steps : Nat) : Prop where
  short : steps ≤ maxMediaSequence
  reaches : sequenceAfter position steps = target

theorem sequenceAfter_of_le {sequence steps : Nat} (reaches : sequence + steps ≤ maxMediaSequence) :
    sequenceAfter sequence steps = sequence + steps := by
  rw [sequenceAfter_eq_iterate]
  exact Cyclic.iterate_next_of_le reaches

theorem isDistance_of_le {position target : Nat} (ahead : position ≤ target)
    (media : target ≤ maxMediaSequence) : IsDistance position target (target - position) where
  short := Nat.le_trans (Nat.sub_le _ _) media
  reaches := by
    rw [sequenceAfter_of_le, Nat.add_sub_cancel' ahead]
    rw [Nat.add_sub_cancel' ahead]
    exact media

/-- So many positions were skipped, each of them overdue, and nothing else changed. -/
structure SkippedTo (config : ReorderConfig) (now : Instant) (base : ReorderState) (count : Nat)
    (state : ReorderState) : Prop where
  wellFormed : WellFormed state
  position : state.nextSeq = sequenceAfter base.nextSeq count
  inRange : base.nextSeq + count ≤ maxMediaSequence + 1
  trace : state.trace = base.trace ++ (List.range' base.nextSeq count).map base.skipEffect
  buffered : state.buffered = base.buffered
  removed : ∀ position, base.Skipped count position → state.fragments[position]? = none
  kept : ∀ position, ¬ base.Skipped count position →
    state.fragments[position]? = base.fragments[position]?
  overdue : ∀ position, base.Skipped count position → base.Overdue config now position

namespace SkippedTo

theorem start (wellFormed : WellFormed base) : SkippedTo config now base 0 base where
  wellFormed := wellFormed
  position := rfl
  inRange := Nat.le_succ_of_le wellFormed.nextSeq_le
  trace := by simp
  buffered := rfl
  removed position skipped := absurd skipped.2 (Nat.not_lt.mpr skipped.1)
  kept _ _ := rfl
  overdue position skipped := absurd skipped.2 (Nat.not_lt.mpr skipped.1)

/-- What is still held was held before, and is not skipped. -/
theorem held (skipped : SkippedTo config now base count state) {sequence : Nat}
    (held : sequence ∈ state.buffered ∨ sequence ∈ state.fragments) :
    ¬ base.Skipped count sequence ∧ (sequence ∈ base.buffered ∨ sequence ∈ base.fragments) := by
  rcases held with member | member
  · rw [skipped.buffered] at member
    exact ⟨fun passed => (skipped.overdue sequence passed).1 member, Or.inl member⟩
  · have notPassed : ¬ base.Skipped count sequence := by
      intro passed
      rw [ExtTreeMap.mem_iff_isSome_getElem?, skipped.removed sequence passed] at member
      cases member
    refine ⟨notPassed, Or.inr ?_⟩
    rw [ExtTreeMap.mem_iff_isSome_getElem?, ← skipped.kept sequence notPassed,
      ← ExtTreeMap.mem_iff_isSome_getElem?]
    exact member

/-- While anything is held, the position has not wrapped. -/
theorem position_of_held (skipped : SkippedTo config now base count state)
    (wellFormed : WellFormed base) {sequence : Nat}
    (held : sequence ∈ state.buffered ∨ sequence ∈ state.fragments) :
    state.nextSeq = base.nextSeq + count ∧ state.nextSeq ≤ sequence := by
  rcases skipped.held held with ⟨notPassed, before⟩
  rcases wellFormed.pending_inWindow before with ⟨ahead, media⟩
  have later : base.nextSeq + count ≤ sequence := by
    by_contra earlier
    exact notPassed ⟨ahead, by omega⟩
  have position : state.nextSeq = base.nextSeq + count := by
    rw [skipped.position, sequenceAfter_of_le (by omega)]
  exact ⟨position, by omega⟩

/-- One more position is skipped, and nothing stays held there. -/
theorem extend (skipped : SkippedTo config now base count state) (wellFormed : WellFormed next)
    (here : state.nextSeq = base.nextSeq + count) (inRange : state.nextSeq ≤ maxMediaSequence)
    (position : next.nextSeq = nextSequence state.nextSeq)
    (trace : next.trace = state.trace ++ [base.skipEffect state.nextSeq])
    (buffered : next.buffered = state.buffered)
    (removed : next.fragments[state.nextSeq]? = none)
    (kept : ∀ other : Nat, state.nextSeq ≠ other → next.fragments[other]? = state.fragments[other]?)
    (overdue : base.Overdue config now state.nextSeq) :
    SkippedTo config now base (count + 1) next where
  wellFormed := wellFormed
  position := by rw [position, sequenceAfter_succ, skipped.position]
  inRange := by omega
  trace := by
    rw [trace, skipped.trace, List.range'_1_concat, List.map_append, List.append_assoc, here]
    rfl
  buffered := buffered.trans skipped.buffered
  removed other passed := by
    rcases ReorderState.skipped_succ.mp passed with earlier | last
    · have different : state.nextSeq ≠ other := by
        have below := earlier.2
        omega
      exact (kept other different).trans (skipped.removed other earlier)
    · rw [last, ← here]
      exact removed
  kept other notPassed := by
    rw [ReorderState.skipped_succ, not_or] at notPassed
    rcases notPassed with ⟨notEarlier, notLast⟩
    exact (kept other (by omega)).trans (skipped.kept other notEarlier)
  overdue other passed := by
    rcases ReorderState.skipped_succ.mp passed with earlier | last
    · exact skipped.overdue other earlier
    · rw [last, ← here]
      exact overdue

/-- What is pending now has been pending from the start. -/
theorem pending (skipped : SkippedTo config now base count state) {sequence : Nat}
    {since : Instant} (pending : state.Pending sequence since) : base.Pending sequence since := by
  rcases pending with ⟨packet, found, received⟩ | ⟨assembly, found, seen⟩
  · exact Or.inl ⟨packet, skipped.buffered ▸ found, received⟩
  · have notPassed := (skipped.held (Or.inr (OrderedMap.mem_of_getElem? found))).1
    rw [skipped.kept sequence notPassed] at found
    exact Or.inr ⟨assembly, found, seen⟩

/-- One round of the loop. -/
theorem step (skipped : SkippedTo config now base count state) (wellFormed : WellFormed base)
    (yields : expireStep config now state = .yield next) :
    SkippedTo config now base (count + 1) next := by
  have nextWellFormed := (expireStep_decreases skipped.wellFormed yields).1
  rcases expireStep_yield yields with ⟨position, ⟨sequence, held⟩, -⟩
  have here := (skipped.position_of_held wellFormed held).1
  have inRange := skipped.wellFormed.nextSeq_le
  have same : state.fragments[state.nextSeq]? = base.fragments[state.nextSeq]? := by
    apply skipped.kept
    intro passed
    exact absurd passed.2 (by omega)
  rcases expireStep_skips yields with
    ⟨absent, ⟨assembly, found, old, rfl⟩ | ⟨missing, oldest, pending, old, rfl⟩⟩
  · have present : state.nextSeq ∈ base.fragments :=
      OrderedMap.mem_of_getElem? (same.symm.trans found)
    apply skipped.extend nextWellFormed here inRange position _ rfl
    · exact ExtTreeMap.getElem?_erase_self
    · exact fun other different => OrderedMap.getElem?_erase_of_ne different
    · refine ⟨skipped.buffered ▸ absent, Or.inl ⟨assembly, same.symm.trans found, ?_, old⟩⟩
      exact skipped.wellFormed.assembly_incomplete found
    · rw [ReorderState.skipEffect, if_pos present]
      rfl
  · have missingBefore : state.nextSeq ∉ base.fragments := by
      rw [ExtTreeMap.mem_iff_isSome_getElem?, ← same, missing]
      exact Bool.false_ne_true
    apply skipped.extend nextWellFormed here inRange position _ rfl missing
    · exact fun _ _ => rfl
    · rcases exists_pending_of_oldest pending with ⟨other, pending⟩
      have ahead := skipped.wellFormed.pending_ahead pending
      have different : other ≠ state.nextSeq := by
        rintro rfl
        rcases pending with ⟨_, found, _⟩ | ⟨_, found, _⟩
        · exact absent (OrderedMap.mem_of_getElem? found)
        · cases missing.symm.trans found
      refine ⟨skipped.buffered ▸ absent, Or.inr ⟨missingBefore, other, oldest, ?_, ?_, old⟩⟩
      · exact Nat.lt_of_le_of_ne ahead different.symm
      · exact skipped.pending pending
    · rw [ReorderState.skipEffect, if_neg missingBefore]
      rfl

/-- Nothing that stops the expiry is skipped. -/
theorem le_of_stops (skipped : SkippedTo config now base count state) (wellFormed : WellFormed base)
    {sequence : Nat} (stops : base.Stops config now sequence) :
    ∃ distance, IsDistance base.nextSeq sequence distance ∧ count ≤ distance := by
  have held : sequence ∈ base.buffered ∨ sequence ∈ base.fragments := by
    rcases stops with complete | ⟨assembly, found, -⟩
    · exact Or.inl complete
    · exact Or.inr (OrderedMap.mem_of_getElem? found)
  rcases wellFormed.pending_inWindow held with ⟨ahead, media⟩
  refine ⟨sequence - base.nextSeq, isDistance_of_le ahead media, ?_⟩
  by_contra further
  exact ReorderState.not_overdue_of_stops stops (skipped.overdue sequence ⟨ahead, by omega⟩)

/-- The last position that is skipped has something behind it or an assembly of its own. -/
theorem exists_held (skipped : SkippedTo config now base (count + 1) state) :
    ∃ sequence, base.nextSeq + count ≤ sequence ∧
      (sequence ∈ base.buffered ∨ sequence ∈ base.fragments) := by
  rcases skipped.overdue (base.nextSeq + count) ⟨by omega, by omega⟩ with
    ⟨-, ⟨assembly, found, -⟩ | ⟨-, other, since, ahead, pending, -⟩⟩
  · exact ⟨_, Nat.le_refl _, Or.inr (OrderedMap.mem_of_getElem? found)⟩
  · refine ⟨other, Nat.le_of_lt ahead, ?_⟩
    rcases pending with ⟨_, found, _⟩ | ⟨_, found, _⟩
    · exact Or.inl (OrderedMap.mem_of_getElem? found)
    · exact Or.inr (OrderedMap.mem_of_getElem? found)

theorem le_last (skipped : SkippedTo config now base count state) (wellFormed : WellFormed base)
    (none : ∀ sequence, ¬ base.Stops config now sequence) {last : Nat}
    (present : last ∈ base.fragments) (greatest : ∀ sequence, sequence ∈ base.fragments →
      sequence ≤ last) :
    ∃ distance, IsDistance base.nextSeq last distance ∧ count ≤ distance + 1 := by
  rcases wellFormed.fragments_inWindow present with ⟨ahead, media, -⟩
  refine ⟨last - base.nextSeq, isDistance_of_le ahead media, ?_⟩
  cases count with
  | zero => exact Nat.zero_le _
  | succ count =>
      rcases skipped.exists_held with ⟨sequence, later, complete | assembled⟩
      · exact absurd (Or.inl complete) (none sequence)
      · have within := greatest sequence assembled
        omega

end SkippedTo

/-! ## The whole loop -/

/-- The loop as a whole. -/
theorem expireReorderGap_skipped (wellFormed : WellFormed state) :
    ∃ count, SkippedTo config now state count (expireReorderGap config now state) ∧
      expireStep config now (expireReorderGap config now state) =
        .done (expireReorderGap config now state) ∧
      BreakLoop.run? (expireStep config now) count state = none ∧
      BreakLoop.run? (expireStep config now) (count + 1) state =
        some (expireReorderGap config now state) := by
  rcases BreakLoop.run?_rounds (fun _ _ _ skipped yields => skipped.step wellFormed yields) _ 0 _ _
    (SkippedTo.start wellFormed) (expireReorderGap_breaks wellFormed) with
    ⟨count, last, skipped, exit, unfinished, finished⟩
  have final := (expireStep_done exit).1
  rw [← final, Nat.zero_add] at skipped
  rw [← final] at exit
  exact ⟨count, skipped, exit, unfinished, finished⟩

/-- The expiry skips exactly `count` positions, and no more than it must. -/
structure SkipsOverdue (config : ReorderConfig) (now : Instant) (state final : ReorderState)
    (count : Nat) : Prop where
  unfinished : BreakLoop.run? (expireStep config now) count state = none
  returns : BreakLoop.run? (expireStep config now) (count + 1) state = some final
  trace : final.trace = state.trace ++ (List.range' state.nextSeq count).map state.skipEffect
  position : final.nextSeq = sequenceAfter state.nextSeq count
  inRange : state.nextSeq + count ≤ maxMediaSequence + 1
  nearest : ∀ sequence, state.Stops config now sequence →
    ∃ distance, IsDistance state.nextSeq sequence distance ∧ count ≤ distance
  last : (∀ sequence, ¬ state.Stops config now sequence) → ∀ last, last ∈ state.fragments →
    (∀ sequence, sequence ∈ state.fragments → sequence ≤ last) →
    ∃ distance, IsDistance state.nextSeq last distance ∧ count ≤ distance + 1
  nothing : state.buffered = ∅ → state.fragments = ∅ → count = 0
  overdue : ∀ position, state.Skipped count position → state.Overdue config now position
  buffered : final.buffered = state.buffered
  removed : ∀ position, state.Skipped count position → final.fragments[position]? = none
  kept : ∀ position, ¬ state.Skipped count position →
    final.fragments[position]? = state.fragments[position]?

theorem expireReorderGap_skipsOverdue (wellFormed : WellFormed state) :
    ∃ count, SkipsOverdue config now state (expireReorderGap config now state) count := by
  rcases @expireReorderGap_skipped config now _ wellFormed with
    ⟨count, skipped, -, unfinished, returns⟩
  refine ⟨count, ?_⟩
  constructor
  · exact unfinished
  · exact returns
  · exact skipped.trace
  · exact skipped.position
  · exact skipped.inRange
  · exact fun sequence stops => skipped.le_of_stops wellFormed stops
  · exact fun none last present greatest => skipped.le_last wellFormed none present greatest
  · intro buffered fragments
    cases count with
    | zero => rfl
    | succ count =>
        rcases skipped.exists_held with ⟨sequence, -, complete | assembled⟩
        · rw [buffered] at complete
          exact absurd complete ExtTreeMap.not_mem_empty
        · rw [fragments] at assembled
          exact absurd assembled ExtTreeMap.not_mem_empty
  · exact skipped.overdue
  · exact skipped.buffered
  · exact skipped.removed
  · exact skipped.kept

/-! ## The states it is called on -/

/-- The state on which an advance calls `expire_reorder_gap`. -/
def expiryTarget (config : ReorderConfig) (now : Instant) (state : ReorderState) :
    Option ReorderState :=
  match config.repairRequestInterval with
  | none => some (recoverFecReady now state)
  | some interval => requestDueRepairs interval now (recoverFecReady now state)

/-- Expiring and draining are all that remains of the round. -/
theorem reorderStep_of_expiryTarget (advances : advanceTarget state timed = some target)
    (expires : expiryTarget config timed.now target = some next) :
    reorderStep config state timed =
      some (drainReady (expireReorderGap config timed.now next)) := by
  rw [reorderStep_of_target advances]
  exact congrArg (Option.map fun state => drainReady (expireReorderGap config timed.now state))
    expires

/-- The states between the rounds, and those on which a round calls the expiry, by
`reorderStep_of_expiryTarget`. -/
inductive ReachesExpiry (config : ReorderConfig) : ReorderState → Prop
  | between {inputs : List TimedInput} {state : ReorderState} :
      reorderLoop config inputs = some state →
      ReachesExpiry config state
  | inside {inputs : List TimedInput} {state target called : ReorderState} {timed : TimedInput} :
      reorderLoop config inputs = some state →
      advanceTarget state timed = some target →
      expiryTarget config timed.now target = some called →
      ReachesExpiry config called

theorem ReachesExpiry.wellFormed (reaches : ReachesExpiry config state) : WellFormed state := by
  cases reaches with
  | between reached => exact (reorderLoop_stuck reached).1.toWellFormed
  | @inside _ before target _ timed reached advances expires =>
      rcases active_advanceTarget (reorderLoop_stuck reached).1 advances with
        ⟨wellFormed, active⟩
      have recovered := wellFormed.recoverFecReady timed.now active
      rw [expiryTarget] at expires
      split at expires
      · cases expires
        exact recovered
      · rename_i interval _
        rcases requestDueRepairs_move config interval timed.now (fun _ _ => True) recovered with
          ⟨requested, outcome, move⟩
        cases expires.symm.trans outcome
        exact recovered.windowMove move

/-- In every reachable state, at any time, an expiry skips no more than it must. -/
theorem expiry_skips_overdue (reaches : ReachesExpiry config state) (now : Instant) :
    ∃ count, SkipsOverdue config now state (expireReorderGap config now state) count :=
  expireReorderGap_skipsOverdue reaches.wellFormed

/-- A gap before a packet that has waited for too long. -/
theorem expiry_skips_overdue_gap :
    ∃ state, reorderLoop tolerant [wholeAt 0 0, wholeAt 0 2] = some state ∧ 2 ∈ state.buffered ∧
      ∃ count, SkipsOverdue tolerant 20 state (expireReorderGap tolerant 20 state) count := by
  have evaluated : ∃ state, reorderLoop tolerant [wholeAt 0 0, wholeAt 0 2] = some state ∧
      2 ∈ state.buffered := exists_of_any (by decide +kernel)
  rcases evaluated with ⟨state, reached, held⟩
  exact ⟨state, reached, held, expiry_skips_overdue (.between reached) 20⟩

end Irohsion.Server
