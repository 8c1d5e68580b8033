import Irohsion.Client.RepairCache

/-! # Answers to repair requests

What `fragments_for` answers, when it answers at all: the whole packet, or the
requested parts of a split.
-/

namespace Irohsion.Client

open Protocol

namespace RepairCache

/-- The entry of the sequence holds the packets of these parts, in order. A
whole packet is a single part. -/
structure Caches (sequence : Nat) (parts : List Bytes) (cache : RepairCache) : Prop where
  few : parts.length ≤ maxFragments
  entry : ∃ entry : CachedPacket, cache.packets[sequence]? = some entry ∧
    entry.fragments.map CachedFragment.packet = partPackets sequence parts

variable {cache rest : RepairCache} {now : Instant} {request : RepairRequest}
variable {parts : List Bytes} {answered : List CachedFragment}

theorem getElem?_of_expireLocked {sequence : Nat} {entry : CachedPacket}
    (found : (cache.expireLocked now).packets[sequence]? = some entry) :
    cache.packets[sequence]? = some entry := by
  apply @BreakLoop.of_run _ (fun cache : RepairCache => cache.packets[sequence]? = some entry) _ _
    _ _ found
  intro cache later
  rw [expireStep] at later
  split at later
  · exact later
  · split at later
    · exact (OrderedMap.getElem?_erase_eq_some.mp later).2
    · exact later

theorem mem_requestedFragments {missingMask : Nat} {fragments requested : List CachedFragment}
    (computed : requestedFragments missingMask fragments = some requested)
    {fragment : CachedFragment} :
    fragment ∈ requested ↔
      ∃ index, fragments[index]? = some fragment ∧ missingMask.testBit index = true := by
  rw [requestedFragments] at computed
  split at computed
  · cases computed
  · cases computed
    simp only [List.mem_map, List.mem_filter, Prod.exists, List.mem_zipIdx_iff_getElem?]
    constructor
    · rintro ⟨other, index, ⟨found, asked⟩, rfl⟩
      exact ⟨index, found, asked⟩
    · rintro ⟨index, found, asked⟩
      exact ⟨fragment, index, ⟨found, asked⟩, rfl⟩

/-- An answer that is not empty holds every requested part and no other; a
single part is always answered. -/
theorem Caches.mem_answered (caches : cache.Caches request.sequence parts)
    (answers : cache.fragmentsFor now request = some (answered, rest)) (nonempty : answered ≠ [])
    (packet : Bytes) :
    packet ∈ answered.map CachedFragment.packet ↔
      ∃ index, (partPackets request.sequence parts)[index]? = some packet ∧
        (parts.length = 1 ∨ request.missingMask.testBit index = true) := by
  rcases caches.entry with ⟨entry, stored, packets⟩
  have count : entry.fragments.length = parts.length := by
    rw [← List.length_map CachedFragment.packet, packets, partPackets, List.length_mapIdx]
  rw [fragmentsFor] at answers
  dsimp only at answers
  split at answers
  · cases answers
    exact absurd rfl nonempty
  · rename_i current found
    rw [expireRecentRequestsLocked_packets] at found
    cases stored.symm.trans (getElem?_of_expireLocked found)
    split at answers
    · cases answers
      exact absurd rfl nonempty
    · split at answers
      · rename_i single
        cases answers
        rw [packets, List.mem_iff_getElem?]
        simp only [count.symm.trans single, true_or, and_true]
      · rename_i several
        rcases Option.map_eq_some_iff.mp answers with ⟨requested, computed, same⟩
        cases same
        rw [count] at several
        simp only [← packets, List.getElem?_map, several, false_or, Option.map_eq_some_iff,
          List.mem_map, mem_requestedFragments computed]
        constructor
        · rintro ⟨fragment, ⟨index, place, asked⟩, rfl⟩
          exact ⟨index, ⟨fragment, place, rfl⟩, asked⟩
        · rintro ⟨index, ⟨fragment, place, rfl⟩, asked⟩
          exact ⟨fragment, ⟨index, place, asked⟩, rfl⟩

end RepairCache

end Irohsion.Client
