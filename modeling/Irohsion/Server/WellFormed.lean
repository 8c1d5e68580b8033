import Irohsion.Server.WindowMoves

/-! # The representation invariant of the reorder window

`seen` mirrors `buffered`, everything pending lies between `next_seq` and the
last media sequence, and every assembly is still incomplete. Every move keeps
this, and under it no function of the window panics.
-/

namespace Irohsion.Server

open Protocol Std

structure WellFormed (state : ReorderState) : Prop where
  nextSeq_le : state.nextSeq ≤ maxMediaSequence
  seen_iff : ∀ sequence, sequence ∈ state.seen ↔ sequence ∈ state.buffered
  buffered_inWindow : ∀ {sequence}, sequence ∈ state.buffered →
    state.nextSeq ≤ sequence ∧ sequence ≤ maxMediaSequence
  fragments_inWindow : ∀ {sequence}, sequence ∈ state.fragments →
    state.nextSeq ≤ sequence ∧ sequence ≤ maxMediaSequence ∧ sequence ∉ state.buffered
  assembly_slots : ∀ {sequence : Nat} {assembly : FragmentAssembly},
    state.fragments[sequence]? = some assembly →
    0 < assembly.fragments.length ∧ assembly.fragments.length ≤ maxFragments
  assembly_incomplete : ∀ {sequence : Nat} {assembly : FragmentAssembly},
    state.fragments[sequence]? = some assembly → assembly.isComplete = false
  frame_valid : ∀ {base : Nat} {frame : FecFrame},
    state.fecState.frames[base]? = some frame → frame.Valid

theorem SameContent.mem_iff {before after : ExtTreeMap Nat FragmentAssembly}
    (same : SameContent before after) (sequence : Nat) :
    sequence ∈ after ↔ sequence ∈ before := by
  have equal := congrArg Option.isSome (same sequence)
  rw [Option.isSome_map, Option.isSome_map] at equal
  rw [ExtTreeMap.mem_iff_isSome_getElem?, ExtTreeMap.mem_iff_isSome_getElem?, equal]

theorem SameContent.found {before after : ExtTreeMap Nat FragmentAssembly}
    (same : SameContent before after) {sequence : Nat} {assembly : FragmentAssembly}
    (found : after[sequence]? = some assembly) :
    ∃ earlier : FragmentAssembly,
      before[sequence]? = some earlier ∧ earlier.content = assembly.content := by
  have equal := same sequence
  rw [found, Option.map_some] at equal
  exact Option.map_eq_some_iff.mp equal.symm

/-- A move adds no assembly, and keeps the slots and the age of those that stay. -/
theorem WindowMove.assembly {config : ReorderConfig} {now : Instant}
    {Source : Nat → Bytes → Prop} {before after : ReorderState}
    (move : WindowMove config now Source before after) {sequence : Nat}
    {assembly : FragmentAssembly} (found : after.fragments[sequence]? = some assembly) :
    ∃ earlier : FragmentAssembly,
      before.fragments[sequence]? = some earlier ∧ earlier.content = assembly.content := by
  cases move with
  | report _ _ | drain _ | search | skipMissing _ _ _ _ => exact ⟨assembly, found, rfl⟩
  | skipFragment _ _ _ => exact ⟨assembly, (OrderedMap.getElem?_erase_eq_some.mp found).2, rfl⟩
  | request _ same => exact same.found found
  | @settle accepted payload _ _ _ =>
      have fragments : (Server.settle now accepted payload before).fragments =
          before.fragments.erase accepted := by
        unfold Server.settle
        dsimp only
        split <;> rfl
      rw [fragments] at found
      exact ⟨assembly, (OrderedMap.getElem?_erase_eq_some.mp found).2, rfl⟩

theorem FragmentAssembly.isComplete_congr {left right : FragmentAssembly}
    (same : left.content = right.content) : left.isComplete = right.isComplete := by
  have slots : left.fragments = right.fragments := congrArg Prod.fst same
  rw [isComplete, isComplete, left.received_eq, right.received_eq, slots]

namespace WellFormed

variable {config : ReorderConfig} {now : Instant} {Source : Nat → Bytes → Prop}
variable {before after state : ReorderState}

theorem initial : WellFormed .initial where
  nextSeq_le := Nat.zero_le _
  seen_iff sequence := by simp [ReorderState.initial]
  buffered_inWindow member := absurd member ExtTreeMap.not_mem_empty
  fragments_inWindow member := absurd member ExtTreeMap.not_mem_empty
  assembly_slots found := by simp [ReorderState.initial] at found
  assembly_incomplete found := by simp [ReorderState.initial] at found
  frame_valid found := by simp [ReorderState.initial, FecState.empty] at found

/-- The current position is passed, and nothing stays pending at it. -/
theorem pass (wellFormed : WellFormed before)
    (position : after.nextSeq = nextSequence before.nextSeq)
    (seen : ∀ sequence, sequence ∈ after.seen ↔
      sequence ≠ before.nextSeq ∧ sequence ∈ before.seen)
    (buffered : ∀ sequence, sequence ∈ after.buffered ↔
      sequence ≠ before.nextSeq ∧ sequence ∈ before.buffered)
    (fragments : ∀ {sequence : Nat} {assembly : FragmentAssembly},
      after.fragments[sequence]? = some assembly →
      sequence ≠ before.nextSeq ∧ before.fragments[sequence]? = some assembly)
    (frames : after.fecState.frames = before.fecState.frames) : WellFormed after where
  nextSeq_le := by
    rw [position]
    exact nextSequence_le wellFormed.nextSeq_le
  seen_iff sequence := by rw [seen, buffered, wellFormed.seen_iff]
  buffered_inWindow := by
    intro sequence member
    rcases (buffered sequence).mp member with ⟨different, member⟩
    rcases wellFormed.buffered_inWindow member with ⟨ahead, media⟩
    rw [position]
    exact ⟨nextSequence_le_of_lt (by omega) media, media⟩
  fragments_inWindow := by
    intro sequence member
    rcases OrderedMap.mem_iff_getElem?.mp member with ⟨assembly, found⟩
    rcases fragments found with ⟨different, found⟩
    rcases wellFormed.fragments_inWindow (OrderedMap.mem_of_getElem? found) with
      ⟨ahead, media, absent⟩
    rw [position]
    refine ⟨nextSequence_le_of_lt (by omega) media, media, ?_⟩
    intro member
    exact absent ((buffered sequence).mp member).2
  assembly_slots found := wellFormed.assembly_slots (fragments found).2
  assembly_incomplete found := wellFormed.assembly_incomplete (fragments found).2
  frame_valid found := wellFormed.frame_valid (by rw [← frames]; exact found)

theorem drain {packet : BufferedPacket} (wellFormed : WellFormed state)
    (found : state.buffered[state.nextSeq]? = some packet) :
    WellFormed (drainPacket packet state) := by
  refine wellFormed.pass rfl (fun _ => Finset.mem_erase) (fun _ => OrderedMap.mem_erase_iff) ?_
    (FecState.insertPayload_frames _ _ _)
  intro sequence assembly present
  refine ⟨?_, present⟩
  intro same
  cases same
  exact (wellFormed.fragments_inWindow (OrderedMap.mem_of_getElem? present)).2.2
    (OrderedMap.mem_of_getElem? found)

theorem skipFragment (wellFormed : WellFormed state)
    (absent : state.nextSeq ∉ state.buffered) :
    WellFormed (skipSequence .fragmentIncomplete (dropHeadAssembly state)) := by
  refine wellFormed.pass rfl (fun _ => Finset.mem_erase) ?_ ?_ rfl
  · intro sequence
    exact ⟨fun member => ⟨fun equal => absent (equal ▸ member), member⟩, And.right⟩
  · intro sequence assembly found
    rcases OrderedMap.getElem?_erase_eq_some.mp found with ⟨different, found⟩
    exact ⟨different.symm, found⟩

theorem skipMissing (wellFormed : WellFormed state)
    (absent : state.nextSeq ∉ state.buffered)
    (missing : state.fragments[state.nextSeq]? = none) :
    WellFormed (skipSequence .neverReceived state) := by
  have elsewhere : ∀ sequence, sequence ∈ state.buffered →
      sequence ≠ state.nextSeq ∧ sequence ∈ state.buffered :=
    fun sequence member => ⟨fun equal => absent (equal ▸ member), member⟩
  refine wellFormed.pass rfl ?_ ?_ ?_ rfl
  · intro sequence
    refine ⟨fun member => ?_, And.right⟩
    exact ⟨(elsewhere sequence ((wellFormed.seen_iff sequence).mp member)).1, member⟩
  · intro sequence
    exact ⟨elsewhere sequence, And.right⟩
  · intro sequence assembly found
    refine ⟨?_, found⟩
    intro same
    cases same
    cases missing.symm.trans found

theorem request {fragments : ExtTreeMap Nat FragmentAssembly}
    {gapRepairRequests : ExtTreeMap Nat Instant} {trace : List Effect}
    (wellFormed : WellFormed state) (same : SameContent state.fragments fragments) :
    WellFormed
      { state with
        fragments := fragments, gapRepairRequests := gapRepairRequests, trace := trace } where
  nextSeq_le := wellFormed.nextSeq_le
  seen_iff := wellFormed.seen_iff
  buffered_inWindow := wellFormed.buffered_inWindow
  fragments_inWindow member := wellFormed.fragments_inWindow ((same.mem_iff _).mp member)
  assembly_slots := by
    intro sequence assembly found
    rcases same.found found with ⟨earlier, found, content⟩
    have slots : earlier.fragments = assembly.fragments := congrArg Prod.fst content
    rw [← slots]
    exact wellFormed.assembly_slots found
  assembly_incomplete := by
    intro sequence assembly found
    rcases same.found found with ⟨earlier, found, content⟩
    rw [← FragmentAssembly.isComplete_congr content]
    exact wellFormed.assembly_incomplete found
  frame_valid := wellFormed.frame_valid

theorem forward {sequence : Nat} {payload : Bytes} (wellFormed : WellFormed state)
    (fresh : state.Fresh sequence) (expected : sequence = state.nextSeq) :
    WellFormed (forwardAccepted sequence payload
      (noteAccepted sequence payload (state.release sequence))) := by
  subst expected
  have absent : state.nextSeq ∉ state.buffered := fun member => fresh (Or.inr (Or.inr member))
  refine wellFormed.pass rfl ?_ ?_ ?_ (FecState.insertPayload_frames _ _ _)
  · intro other
    simp [forwardAccepted, noteAccepted, ReorderState.release]
  · intro other
    exact ⟨fun member => ⟨fun equal => absent (equal ▸ member), member⟩, And.right⟩
  · intro other assembly found
    rcases OrderedMap.getElem?_erase_eq_some.mp found with ⟨different, found⟩
    exact ⟨different.symm, found⟩

theorem buffer {sequence : Nat} {payload : Bytes} (wellFormed : WellFormed state)
    (media : sequence ≤ maxMediaSequence) (fresh : state.Fresh sequence) :
    WellFormed (bufferAccepted now sequence payload
      (noteAccepted sequence payload (state.release sequence))) := by
  have inserted : ∀ other, other ∈ state.buffered.insert sequence ⟨payload, now⟩ ↔
      other = sequence ∨ other ∈ state.buffered :=
    fun _ => OrderedMap.mem_insert_iff
  have ahead : state.nextSeq ≤ sequence := by
    by_contra behind
    exact fresh (Or.inl (Nat.lt_of_not_le behind))
  constructor
  · exact wellFormed.nextSeq_le
  · intro other
    show other ∈ insert sequence state.seen ↔ other ∈ state.buffered.insert sequence _
    rw [inserted, Finset.mem_insert, wellFormed.seen_iff]
  · intro other member
    rcases (inserted other).mp member with rfl | member
    · exact ⟨ahead, media⟩
    · exact wellFormed.buffered_inWindow member
  · intro other member
    rcases OrderedMap.mem_erase_iff.mp member with ⟨different, member⟩
    rcases wellFormed.fragments_inWindow member with ⟨inWindow, media, absent⟩
    refine ⟨inWindow, media, ?_⟩
    intro both
    exact ((inserted other).mp both).elim different absent
  · intro other assembly found
    exact wellFormed.assembly_slots (OrderedMap.getElem?_erase_eq_some.mp found).2
  · intro other assembly found
    exact wellFormed.assembly_incomplete (OrderedMap.getElem?_erase_eq_some.mp found).2
  · intro base frame found
    exact wellFormed.frame_valid (by rw [← FecState.insertPayload_frames]; exact found)

theorem settle {sequence : Nat} {payload : Bytes} (wellFormed : WellFormed state)
    (media : sequence ≤ maxMediaSequence) (fresh : state.Fresh sequence) :
    WellFormed (settle now sequence payload state) := by
  unfold Server.settle
  dsimp only
  split
  · rename_i expected
    exact wellFormed.forward fresh expected
  · exact wellFormed.buffer media fresh

theorem search (wellFormed : WellFormed state) :
    WellFormed { state with
      fecState := (state.fecState.recoverReady state.nextSeq state.buffered).1 } where
  nextSeq_le := wellFormed.nextSeq_le
  seen_iff := wellFormed.seen_iff
  buffered_inWindow := wellFormed.buffered_inWindow
  fragments_inWindow := wellFormed.fragments_inWindow
  assembly_slots := wellFormed.assembly_slots
  assembly_incomplete := wellFormed.assembly_incomplete
  frame_valid found :=
    wellFormed.frame_valid ((FecState.recoverReady_searched _ _ _).frames found)

theorem emit (wellFormed : WellFormed state) (effect : Effect) :
    WellFormed (state.emit effect) :=
  ⟨wellFormed.nextSeq_le, wellFormed.seen_iff, wellFormed.buffered_inWindow,
    wellFormed.fragments_inWindow, wellFormed.assembly_slots, wellFormed.assembly_incomplete,
    wellFormed.frame_valid⟩

theorem windowMove (move : WindowMove config now Source before after)
    (wellFormed : WellFormed before) : WellFormed after := by
  cases move with
  | report sequence length => exact wellFormed.emit _
  | drain found => exact wellFormed.drain found
  | search => exact wellFormed.search
  | settle media fresh _ => exact wellFormed.settle media fresh
  | request requests same => exact wellFormed.request same
  | skipFragment absent _ _ => exact wellFormed.skipFragment absent
  | skipMissing absent missing _ _ => exact wellFormed.skipMissing absent missing

/-- A recovered sequence is a member of a stored frame. -/
theorem recovered_media (wellFormed : WellFormed state) {sequence : Nat} {payload : Bytes}
    (recovered : (sequence, payload) ∈
      (state.fecState.recoverReady state.nextSeq state.buffered).2) :
    sequence ≤ maxMediaSequence := by
  rcases FecState.mem_recoverReady.mp recovered with
    ⟨base, frame, parity, expectedLen, found, scan, _, _⟩
  rcases FecState.scanFrame_of_recovered scan with
    ⟨_, _, _, _, _, _, atIndex, _, _, _⟩
  rw [atIndex]
  exact sequenceAfter_le (wellFormed.frame_valid found).1 _

end WellFormed

end Irohsion.Server
