import Mathlib.Data.Finset.Card
import Mathlib.Data.Finset.Max
import Mathlib.Data.Finset.Range

/-! # Numbers that keep their distance

Distinct numbers that are a gap apart and lie within a width of each other are few.
-/

namespace Irohsion.Spaced

variable {keys : List Nat} {low width gap limit : Nat}

theorem length_le_of_within (nodup : keys.Nodup)
    (spaced : ∀ left ∈ keys, ∀ right ∈ keys, left < right → left + gap ≤ right)
    (within : ∀ key ∈ keys, low ≤ key ∧ key < low + width) (room : width ≤ limit * gap) :
    keys.length ≤ limit := by
  rw [← List.toFinset_card_of_nodup nodup, ← Finset.card_range limit]
  apply Finset.card_le_card_of_injOn fun key => (key - low) / gap
  · intro key member
    have inside := within key (List.mem_toFinset.mp member)
    apply Finset.mem_coe.mpr
    rw [Finset.mem_range]
    apply Nat.div_lt_of_lt_mul
    rw [Nat.mul_comm]
    omega
  · have apart : ∀ left ∈ keys, ∀ right ∈ keys, left < right →
        (left - low) / gap < (right - low) / gap := by
      intro left leftMember right rightMember before
      have inside := within left leftMember
      have beyond := spaced left leftMember right rightMember before
      have positive : 0 < gap := by
        apply Nat.pos_of_ne_zero
        rintro rfl
        omega
      have shifted : left - low + gap ≤ right - low := by omega
      have divided := @Nat.div_le_div_right _ _ gap shifted
      rw [Nat.add_div_right _ positive] at divided
      exact divided
    intro left leftMember right rightMember same
    have leftMember := List.mem_toFinset.mp leftMember
    have rightMember := List.mem_toFinset.mp rightMember
    rcases Nat.lt_trichotomy left right with before | equal | after
    · exact absurd same (Nat.ne_of_lt (apart left leftMember right rightMember before))
    · exact equal
    · exact absurd same.symm (Nat.ne_of_lt (apart right rightMember left leftMember after))

/-- At most `limit` such numbers fit. -/
theorem length_le_of_close (nodup : keys.Nodup)
    (spaced : ∀ left ∈ keys, ∀ right ∈ keys, left < right → left + gap ≤ right)
    (close : ∀ left ∈ keys, ∀ right ∈ keys, right < left + width) (room : width ≤ limit * gap) :
    keys.length ≤ limit := by
  rcases keys.toFinset.eq_empty_or_nonempty with empty | nonempty
  · rw [(List.toFinset_eq_empty_iff _).mp empty]
    exact Nat.zero_le limit
  · rcases Finset.exists_min_image _ id nonempty with ⟨least, member, smallest⟩
    have member := List.mem_toFinset.mp member
    apply @length_le_of_within _ least width gap limit nodup spaced _ room
    intro key present
    exact ⟨smallest key (List.mem_toFinset.mpr present), close least member key present⟩

/-- Among more than `limit` distinct numbers one is that far from the bound below. -/
theorem exists_far (nodup : keys.Nodup) (above : ∀ key ∈ keys, low ≤ key)
    (many : limit < keys.length) : ∃ key ∈ keys, low + limit ≤ key := by
  by_contra near
  rw [not_exists] at near
  have few : keys.length ≤ limit := by
    apply @length_le_of_within keys low limit 1 limit nodup
    · exact fun _ _ _ _ before => before
    · intro key member
      exact ⟨above key member, Nat.lt_of_not_le fun far => near key ⟨member, far⟩⟩
    · exact Nat.le_of_eq (Nat.mul_one limit).symm
  exact absurd many (Nat.not_lt.mpr few)

/-- Increasing numbers below a bound leave room for all of them. -/
theorem add_length_le {least bound : Nat} {rest : List Nat}
    (increasing : (least :: rest).Pairwise (· < ·)) (below : ∀ key ∈ least :: rest, key < bound) :
    least + (least :: rest).length ≤ bound := by
  induction rest generalizing least with
  | nil => exact below least List.mem_cons_self
  | cons next rest induction =>
      rw [List.pairwise_cons] at increasing
      have onward := increasing.1 next List.mem_cons_self
      have behind := induction increasing.2 fun key member =>
        below key (List.mem_cons_of_mem _ member)
      rw [List.length_cons]
      omega

end Irohsion.Spaced
