import Irohsion.Server.WellFormed

/-! # Reassembling one packet

On a well-formed state a received fragment has one of three outcomes: it is a
duplicate and changes nothing, it fills a slot, or it completes its assembly.
-/

namespace Irohsion.Server

open Protocol Std

/-- The entry of `fragments` that a fragment goes to. -/
def assemblyFor (now : Instant) (packet : ReceivedPacket) (state : ReorderState) :
    FragmentAssembly :=
  state.fragments[packet.header.sequence]?.getD (.new packet.header.fragments now)

/-- The fragment does not fit the assembly, or its slot is already filled. -/
def Repeats (packet : ReceivedPacket) (state : ReorderState) : Prop :=
  ∃ assembly : FragmentAssembly, state.fragments[packet.header.sequence]? = some assembly ∧
    (assembly.fragments.length ≠ packet.header.fragments ∨
      ∃ present : Bytes, assembly.fragments[packet.header.fragment]? = some (some present))

/-- The fragment fills a vacant slot of its assembly. -/
structure Fills (now : Instant) (packet : ReceivedPacket) (state : ReorderState)
    (filled : FragmentAssembly) : Prop where
  several : packet.header.fragments ≠ 1
  slots : (assemblyFor now packet state).fragments.length = packet.header.fragments
  fill : ∃ vacant, filled =
    (assemblyFor now packet state).fill packet.header.fragment packet.payload vacant

theorem Fills.length {now : Instant} {packet : ReceivedPacket} {state : ReorderState}
    {filled : FragmentAssembly} (fills : Fills now packet state filled) :
    filled.fragments.length = packet.header.fragments := by
  rcases fills.fill with ⟨vacant, rfl⟩
  rw [FragmentAssembly.length_fill, fills.slots]

theorem reassemble_whole {now : Instant} {packet : ReceivedPacket} {state : ReorderState}
    (whole : packet.header.fragments = 1) :
    reassemble now packet state =
      some (.complete packet.payload (takeComplete packet.header.sequence state)) :=
  if_pos whole

theorem assemblyFor_bounded (now : Instant) (packet : ReceivedPacket) {state : ReorderState}
    (wellFormed : WellFormed state) :
    (assemblyFor now packet state).fragments.length ≤ maxFragments := by
  rw [assemblyFor]
  cases found : state.fragments[packet.header.sequence]? with
  | none =>
      rw [Option.getD_none, FragmentAssembly.new_fragments, List.length_replicate]
      exact packet.valid.2.2
  | some assembly => exact (wellFormed.assembly_slots found).2

/-- A fragment repeats exactly when its assembly has another slot count or
has its slot filled. -/
theorem repeats_iff (now : Instant) (packet : ReceivedPacket) (state : ReorderState) :
    Repeats packet state ↔
      (assemblyFor now packet state).fragments.length ≠ packet.header.fragments ∨
        ∃ present : Bytes,
          (assemblyFor now packet state).fragments[packet.header.fragment]? =
            some (some present) := by
  rw [Repeats, assemblyFor]
  cases found : state.fragments[packet.header.sequence]? with
  | none => simp [List.getElem?_replicate]
  | some assembly => simp

theorem reassemble_of_repeats {now : Instant} {packet : ReceivedPacket} {state : ReorderState}
    (wellFormed : WellFormed state) (several : packet.header.fragments ≠ 1)
    (repeats : Repeats packet state) :
    reassemble now packet state =
      some (.duplicate (state.emit (.duplicate packet.header.sequence))) := by
  rcases repeats with ⟨assembly, found, reason⟩
  have bounded : assembly.fragments.length < 2 ^ 8 :=
    Nat.lt_of_le_of_lt (wellFormed.assembly_slots found).2 (by decide)
  have unchanged : state.fragments.insert packet.header.sequence assembly = state.fragments :=
    OrderedMap.insert_of_getElem? found
  simp only [reassemble, if_neg several, found, Option.getD_some, unchanged,
    FragmentAssembly.countFragments, if_pos bounded]
  split
  · rfl
  · rename_i sameCount
    rcases reason with different | ⟨present, filled⟩
    · exact absurd different sameCount
    · rw [FragmentAssembly.insert_of_filled filled]

theorem reassemble_of_vacant {now : Instant} {packet : ReceivedPacket} {state : ReorderState}
    (wellFormed : WellFormed state) (several : packet.header.fragments ≠ 1)
    (slots : (assemblyFor now packet state).fragments.length = packet.header.fragments)
    (vacant : (assemblyFor now packet state).fragments[packet.header.fragment]? = some none) :
    let filled := (assemblyFor now packet state).fill packet.header.fragment packet.payload vacant
    reassemble now packet state =
      if filled.isComplete then
        filled.intoPayload.map fun payload =>
          .complete payload (takeComplete packet.header.sequence state)
      else some (.incomplete
        { state with fragments := state.fragments.insert packet.header.sequence filled }) := by
  intro filled
  have bounded : (assemblyFor now packet state).fragments.length < 2 ^ 8 :=
    Nat.lt_of_le_of_lt (assemblyFor_bounded now packet wellFormed) (by decide)
  have entry : state.fragments[packet.header.sequence]?.getD
      (.new packet.header.fragments now) = assemblyFor now packet state := rfl
  have inserted : (assemblyFor now packet state).insert packet.header.fragment packet.payload =
      some (filled, true) := FragmentAssembly.insert_of_vacant vacant
  have taken : takeComplete packet.header.sequence
      { state with fragments := state.fragments.insert packet.header.sequence filled } =
      takeComplete packet.header.sequence state := by
    simp only [takeComplete, OrderedMap.erase_insert]
  have written : (state.fragments.insert packet.header.sequence
      (assemblyFor now packet state)).insert packet.header.sequence filled =
      state.fragments.insert packet.header.sequence filled := OrderedMap.insert_insert
  have counted : (assemblyFor now packet state).countFragments =
      some packet.header.fragments := by
    rw [FragmentAssembly.countFragments, if_pos bounded, slots]
  simp only [reassemble, if_neg several, entry, counted, ne_eq, not_true_eq_false, if_false,
    inserted, written, taken]
  cases filled.intoPayload <;> rfl

/-- The three outcomes for a fragment. -/
theorem reassemble_cases (now : Instant) {packet : ReceivedPacket} {state : ReorderState}
    (wellFormed : WellFormed state) (several : packet.header.fragments ≠ 1) :
    (Repeats packet state ∧ reassemble now packet state =
      some (.duplicate (state.emit (.duplicate packet.header.sequence)))) ∨
    ∃ filled, Fills now packet state filled ∧
      ((filled.isComplete = false ∧ reassemble now packet state = some (.incomplete
          { state with fragments := state.fragments.insert packet.header.sequence filled })) ∨
        (filled.isComplete = true ∧ ∃ payload, filled.intoPayload = some payload ∧
          reassemble now packet state =
            some (.complete payload (takeComplete packet.header.sequence state)))) := by
  by_cases repeats : Repeats packet state
  · exact Or.inl ⟨repeats, reassemble_of_repeats wellFormed several repeats⟩
  · rw [repeats_iff now, not_or, not_not] at repeats
    rcases repeats with ⟨slots, unfilled⟩
    have inBounds : packet.header.fragment < (assemblyFor now packet state).fragments.length := by
      rw [slots]
      exact packet.valid.2.1
    have present := List.getElem?_eq_getElem inBounds
    have vacant : (assemblyFor now packet state).fragments[packet.header.fragment]? =
        some none := by
      cases slot : (assemblyFor now packet state).fragments[packet.header.fragment] with
      | none => rw [present, slot]
      | some content => exact absurd ⟨content, by rw [present, slot]⟩ unfilled
    have outcome := reassemble_of_vacant wellFormed several slots vacant
    refine Or.inr ⟨_, ⟨several, slots, vacant, rfl⟩, ?_⟩
    dsimp only at outcome
    split at outcome
    · rename_i complete
      rcases FragmentAssembly.exists_parts_of_isComplete complete with ⟨parts, filled⟩
      have whole := FragmentAssembly.intoPayload_of_parts filled
      rw [whole] at outcome
      exact Or.inr ⟨complete, parts.flatten, whole, outcome⟩
    · rename_i incomplete
      exact Or.inl ⟨Bool.eq_false_iff.mpr incomplete, outcome⟩

end Irohsion.Server
