import Mathlib.Data.List.Basic

/-! # Tilings of an interval

A tiling is a list of consecutive ranges that leads from one position to
another. Cutting a list along a tiling gives parts that concatenate to the
tiled interval of the list.
-/

namespace Irohsion

/-- Positions from `first` up to but not including `stop`. -/
structure Span where
  first : Nat
  stop : Nat
  deriving DecidableEq, Repr

namespace Span

def length (span : Span) : Nat := span.stop - span.first

def Contains (span : Span) (position : Nat) : Prop :=
  span.first ≤ position ∧ position < span.stop

instance decidableContains (span : Span) (position : Nat) :
    Decidable (span.Contains position) :=
  inferInstanceAs (Decidable (_ ∧ _))

/-- The elements of a list at the positions of the span. -/
def slice {α : Type u} (span : Span) (items : List α) : List α :=
  (items.drop span.first).take span.length

theorem slice_middle {α : Type u} (before middle after : List α) :
    slice ⟨before.length, (before ++ middle).length⟩ (before ++ middle ++ after) = middle := by
  rw [slice, length, List.length_append, Nat.add_sub_cancel_left, List.append_assoc,
    List.drop_left, List.take_left]

end Span

/-- Each span begins where the one before it stops. -/
def Tiles : (first stop : Nat) → List Span → Prop
  | first, stop, [] => first = stop
  | first, stop, span :: rest =>
      span.first = first ∧ first ≤ span.stop ∧ Tiles span.stop stop rest

namespace Tiles

variable {first middle stop : Nat} {spans : List Span}

theorem le (tiles : Tiles first stop spans) : first ≤ stop := by
  induction spans generalizing first with
  | nil => exact Nat.le_of_eq tiles
  | cons span rest induction => exact Nat.le_trans tiles.2.1 (induction tiles.2.2)

theorem bounds (tiles : Tiles first stop spans) {span : Span} (member : span ∈ spans) :
    first ≤ span.first ∧ span.first ≤ span.stop ∧ span.stop ≤ stop := by
  induction spans generalizing first with
  | nil => cases member
  | cons head rest induction =>
      cases member with
      | head => exact ⟨Nat.le_of_eq tiles.1.symm, tiles.1 ▸ tiles.2.1, tiles.2.2.le⟩
      | tail _ member =>
          have inside := induction tiles.2.2 member
          exact ⟨Nat.le_trans tiles.2.1 inside.1, inside.2⟩

/-- Empty spans can be left out. -/
theorem filter_nonempty (tiles : Tiles first stop spans) :
    Tiles first stop (spans.filter fun span => span.first ≠ span.stop) := by
  induction spans generalizing first with
  | nil => exact tiles
  | cons span rest induction =>
      have restTiles := induction tiles.2.2
      by_cases empty : span.first = span.stop
      · rw [List.filter_cons_of_neg (by simpa using empty)]
        rw [← tiles.1, empty]
        exact restTiles
      · rw [List.filter_cons_of_pos (by simpa using empty)]
        exact ⟨tiles.1, tiles.2.1, restTiles⟩

/-- Every position of the interval lies in exactly one span. -/
theorem countP_contains (tiles : Tiles first stop spans) (position : Nat) :
    spans.countP (fun span => span.Contains position) =
      if first ≤ position ∧ position < stop then 1 else 0 := by
  induction spans generalizing first with
  | nil =>
      cases tiles
      rw [List.countP_nil, if_neg (by omega)]
  | cons span rest induction =>
      have ordered := tiles.2.1
      have restOrdered := tiles.2.2.le
      rw [List.countP_cons, induction tiles.2.2]
      simp only [Span.Contains, tiles.1, decide_eq_true_eq]
      split <;> split <;> split <;> omega

/-- The spans between successive cuts tile what lies between the first and the
last of them. -/
theorem of_cuts {cut : Nat → Nat} (ordered : ∀ index, cut index ≤ cut (index + 1))
    (offset count : Nat) : Tiles (cut offset) (cut (offset + count))
      ((List.range' offset count).map fun index => ⟨cut index, cut (index + 1)⟩) := by
  induction count generalizing offset with
  | zero => rfl
  | succ count induction =>
      rw [List.range'_succ, List.map_cons]
      have rest := induction (offset + 1)
      rw [Nat.add_assoc, Nat.add_comm 1] at rest
      exact ⟨rfl, ordered offset, rest⟩

/-- The slices of a tiling concatenate to the slice of the interval. -/
theorem flatten_slices {α : Type u} (tiles : Tiles first stop spans) (items : List α) :
    (spans.map fun span => span.slice items).flatten = Span.slice ⟨first, stop⟩ items := by
  induction spans generalizing first with
  | nil =>
      cases tiles
      simp [Span.slice, Span.length]
  | cons span rest induction =>
      have ordered := tiles.2.1
      have restOrdered := tiles.2.2.le
      rw [List.map_cons, List.flatten_cons, induction tiles.2.2]
      simp only [Span.slice, Span.length, tiles.1]
      have whole : stop - first = (span.stop - first) + (stop - span.stop) := by omega
      have later : first + (span.stop - first) = span.stop := by omega
      rw [whole, List.take_add, List.drop_drop, later]

/-- The slices of a tiling of a whole list concatenate to the list. -/
theorem flatten_slices_whole {α : Type u} {items : List α}
    (tiles : Tiles 0 items.length spans) :
    (spans.map fun span => span.slice items).flatten = items := by
  rw [tiles.flatten_slices]
  simp [Span.slice, Span.length]

end Tiles

end Irohsion
