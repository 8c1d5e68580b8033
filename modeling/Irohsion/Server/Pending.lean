import Irohsion.Server.LoopBounds
import Irohsion.Server.RestartRuns

/-! # Pending positions

What is held for a position, and since when. A window move only passes its own
position, and skips it only when something has been pending for
`max_reorder_delay`.
-/

namespace Irohsion.Server

open Protocol Std

namespace ReorderState

/-- A payload or an assembly is held for the position since the given time. -/
def Pending (state : ReorderState) (sequence : Nat) (since : Instant) : Prop :=
  (∃ packet : BufferedPacket, state.buffered[sequence]? = some packet ∧
    packet.receivedAt = since) ∨
  ∃ assembly : FragmentAssembly, state.fragments[sequence]? = some assembly ∧
    assembly.firstSeen = since

end ReorderState

variable {config : ReorderConfig} {now : Instant} {Source : Nat → Bytes → Prop}
variable {state before after : ReorderState}

theorem exists_pending_of_oldest {oldest : Instant} (found : oldestPending state = some oldest) :
    ∃ sequence, state.Pending sequence oldest := by
  have member := List.min?_mem found
  rcases List.mem_append.mp member with held | assembled
  · rcases List.mem_map.mp held with ⟨⟨sequence, packet⟩, entry, rfl⟩
    exact ⟨sequence, Or.inl ⟨packet, ExtTreeMap.mem_toList_iff_getElem?_eq_some.mp entry, rfl⟩⟩
  · rcases List.mem_map.mp assembled with ⟨⟨sequence, assembly⟩, entry, rfl⟩
    exact ⟨sequence, Or.inr ⟨assembly, ExtTreeMap.mem_toList_iff_getElem?_eq_some.mp entry, rfl⟩⟩

theorem pending_of_toList (fragments : state.fragments.toList = []) {sequence : Nat}
    {since : Instant} (pending : state.Pending sequence since) :
    ∃ packet, (sequence, packet) ∈ state.buffered.toList ∧ packet.receivedAt = since := by
  rcases pending with ⟨packet, found, received⟩ | ⟨assembly, found, _⟩
  · exact ⟨packet, ExtTreeMap.mem_toList_iff_getElem?_eq_some.mpr found, received⟩
  · rw [ExtTreeMap.toList_eq_nil_iff.mp fragments] at found
    simp at found

theorem WellFormed.pending_ahead (wellFormed : WellFormed state) {sequence : Nat}
    {since : Instant} (pending : state.Pending sequence since) : state.nextSeq ≤ sequence := by
  rcases pending with ⟨_, found, _⟩ | ⟨_, found, _⟩
  · exact (wellFormed.pending_inWindow (Or.inl (OrderedMap.mem_of_getElem? found))).1
  · exact (wellFormed.pending_inWindow (Or.inr (OrderedMap.mem_of_getElem? found))).1

/-- A move only makes what it accepts pending, from now on. -/
theorem WindowMove.pending (move : WindowMove config now Source before after) {sequence : Nat}
    {since : Instant} (pending : after.Pending sequence since) :
    before.Pending sequence since ∨ (since = now ∧ ∃ payload, Source sequence payload) := by
  rcases pending with ⟨packet, found, rfl⟩ | ⟨assembly, found, rfl⟩
  · have held : ∀ {kept : BufferedPacket}, before.buffered[sequence]? = some kept →
        before.Pending sequence kept.receivedAt := fun found => Or.inl ⟨_, found, rfl⟩
    cases move with
    | drain _ => exact Or.inl (held (OrderedMap.getElem?_erase_eq_some.mp found).2)
    | @settle accepted payload _ _ source =>
        by_cases expected : accepted = before.nextSeq
        · rw [settle_of_expected now payload expected] at found
          exact Or.inl (held found)
        · rw [settle_of_ahead now payload expected] at found
          rcases OrderedMap.getElem?_insert_eq_some found with ⟨rfl, rfl⟩ | earlier
          · exact Or.inr ⟨rfl, payload, source⟩
          · exact Or.inl (held earlier)
    | report _ _ | search | request _ _ | skipFragment _ _ _ | skipMissing _ _ _ _ =>
        exact Or.inl (held found)
  · rcases move.assembly found with ⟨earlier, found, content⟩
    exact Or.inl (Or.inr ⟨earlier, found, congrArg Prod.snd content⟩)

/-- A move passes the position that it forwards or skips. -/
theorem WindowMove.passes (move : WindowMove config now Source before after) :
    ∃ effects, after.trace = before.trace ++ effects ∧
      (∀ sequence payload, .forward sequence payload ∈ effects → sequence = before.nextSeq) ∧
      ∀ sequence reason, .skip sequence reason ∈ effects → sequence = before.nextSeq ∧
        ∃ position since, before.Pending position since ∧
          config.maxReorderDelay ≤ since.elapsed now := by
  cases move with
  | report _ _ => exact ⟨[_], rfl, by simp, by simp⟩
  | drain _ => exact ⟨[_], rfl, by simp, by simp⟩
  | search => exact ⟨[], (List.append_nil _).symm, by simp, by simp⟩
  | request requests _ => exact ⟨requests.map .repairRequest, rfl, by simp, by simp⟩
  | @settle accepted payload _ _ _ =>
      refine ⟨_, settle_trace now accepted payload before, ?_, ?_⟩
      · intro sequence other member
        rcases List.mem_cons.mp member with impossible | member
        · cases impossible
        · rcases mem_settleForwards member with ⟨expected, equal⟩
          cases equal
          exact expected
      · intro sequence reason member
        rcases List.mem_cons.mp member with impossible | member
        · cases impossible
        · cases (mem_settleForwards member).2
  | @skipFragment assembly _ found old =>
      refine ⟨[_], rfl, by simp, ?_⟩
      intro sequence reason member
      cases List.mem_singleton.mp member
      exact ⟨rfl, _, _, Or.inr ⟨assembly, found, rfl⟩, old⟩
  | @skipMissing oldest _ _ pending old =>
      refine ⟨[_], rfl, by simp, ?_⟩
      intro sequence reason member
      cases List.mem_singleton.mp member
      rcases exists_pending_of_oldest pending with ⟨position, pending⟩
      exact ⟨rfl, position, oldest, pending, old⟩

/-- A move keeps its position, or passes it for a reason. -/
theorem WindowMove.position (move : WindowMove config now Source before after)
    (wellFormed : WellFormed before) :
    after.nextSeq = before.nextSeq ∨ after.nextSeq = nextSequence before.nextSeq ∧
      ((∃ since, before.Pending before.nextSeq since) ∨
        (∃ payload, Source before.nextSeq payload) ∨
        ∃ sequence since, before.Pending sequence since ∧ before.nextSeq < sequence ∧
          config.maxReorderDelay ≤ since.elapsed now) := by
  cases move with
  | report _ _ | search | request _ _ => exact Or.inl rfl
  | @drain packet found => exact Or.inr ⟨rfl, Or.inl ⟨_, Or.inl ⟨packet, found, rfl⟩⟩⟩
  | @settle accepted payload _ _ source =>
      by_cases expected : accepted = before.nextSeq
      · rw [settle_of_expected now payload expected]
        exact Or.inr ⟨rfl, Or.inr (Or.inl ⟨payload, expected ▸ source⟩)⟩
      · rw [settle_of_ahead now payload expected]
        exact Or.inl rfl
  | @skipFragment assembly _ found _ =>
      exact Or.inr ⟨rfl, Or.inl ⟨_, Or.inr ⟨assembly, found, rfl⟩⟩⟩
  | @skipMissing oldest absent missing pending old =>
      rcases exists_pending_of_oldest pending with ⟨sequence, pending⟩
      have ahead := wellFormed.pending_ahead pending
      have different : sequence ≠ before.nextSeq := by
        intro same
        cases same
        rcases pending with ⟨_, found, _⟩ | ⟨_, found, _⟩
        · exact absent (OrderedMap.mem_of_getElem? found)
        · cases missing.symm.trans found
      exact Or.inr ⟨rfl, Or.inr (Or.inr ⟨sequence, oldest, pending, by omega, old⟩)⟩

theorem nextSequence_lt {sequence limit : Nat} (room : sequence + 1 < limit) :
    nextSequence sequence < limit := by
  rw [nextSequence]
  split <;> omega

end Irohsion.Server
