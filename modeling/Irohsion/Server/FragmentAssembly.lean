import Irohsion.Foundation.Clock
import Irohsion.Foundation.ListLoops
import Irohsion.Foundation.LittleEndian
import Mathlib.Data.List.Basic

/-! # Fragment assembly

The slots of one partly received packet. The counter of received fragments
always equals the number of filled slots, so a complete assembly has a payload.
Operations return `none` where the source would panic.
-/

namespace Irohsion.Server

structure FragmentAssembly where
  fragments : List (Option Bytes)
  received : Nat
  firstSeen : Instant
  lastRepairRequest : Option Instant
  received_eq : received = fragments.countP Option.isSome

namespace FragmentAssembly

def new (fragments : Nat) (firstSeen : Instant) : FragmentAssembly where
  fragments := List.replicate fragments none
  received := 0
  firstSeen := firstSeen
  lastRepairRequest := none
  received_eq := by simp [List.countP_replicate]

/-- `FragmentAssembly::fragments`: the slot count must fit in a `u8`. -/
def countFragments (assembly : FragmentAssembly) : Option Nat :=
  if assembly.fragments.length < 2 ^ 8 then some assembly.fragments.length else none

/-- The assembly with one more slot filled. -/
def fill (assembly : FragmentAssembly) (fragment : Nat) (payload : Bytes)
    (vacant : assembly.fragments[fragment]? = some none) : FragmentAssembly where
  fragments := assembly.fragments.set fragment (some payload)
  received := assembly.received + 1
  firstSeen := assembly.firstSeen
  lastRepairRequest := assembly.lastRepairRequest
  received_eq := by
    rcases List.getElem?_eq_some_iff.mp vacant with ⟨bound, empty⟩
    rw [List.countP_set bound, empty, assembly.received_eq]
    simp

/-- The new assembly, with `false` when the slot was already taken; `none`
when there is no such slot. -/
def insert (assembly : FragmentAssembly) (fragment : Nat) (payload : Bytes) :
    Option (FragmentAssembly × Bool) :=
  match vacant : assembly.fragments[fragment]? with
  | none => none
  | some (some _) => some (assembly, false)
  | some none => some (assembly.fill fragment payload vacant, true)

def isComplete (assembly : FragmentAssembly) : Bool :=
  assembly.received == assembly.fragments.length

/-- The fold of `missing_mask`, from slot `index` on. A shift of a `u8` by
eight or more panics. -/
def missingMaskFrom : (index : Nat) → List (Option Bytes) → (mask : Nat) → Option Nat
  | _, [], mask => some mask
  | index, some _ :: rest, mask => missingMaskFrom (index + 1) rest mask
  | index, none :: rest, mask =>
      if index < 8 then missingMaskFrom (index + 1) rest (mask ||| 1 <<< index) else none

def missingMask (assembly : FragmentAssembly) : Option Nat :=
  missingMaskFrom 0 assembly.fragments 0

def intoPayload (assembly : FragmentAssembly) : Option Bytes :=
  (assembly.fragments.mapM id).map List.flatten

/-! ## Completeness -/

theorem isComplete_iff (assembly : FragmentAssembly) :
    assembly.isComplete = true ↔ ∀ slot ∈ assembly.fragments, slot.isSome = true := by
  rw [isComplete, beq_iff_eq, assembly.received_eq, List.countP_eq_length]

@[simp] theorem new_fragments (fragments : Nat) (firstSeen : Instant) :
    (new fragments firstSeen).fragments = List.replicate fragments none := rfl

theorem insert_of_vacant {assembly : FragmentAssembly} {fragment : Nat} {payload : Bytes}
    (vacant : assembly.fragments[fragment]? = some none) :
    assembly.insert fragment payload = some (assembly.fill fragment payload vacant, true) := by
  rw [insert]
  split <;> simp_all

theorem insert_of_filled {assembly : FragmentAssembly} {fragment : Nat} {present : Bytes}
    (filled : assembly.fragments[fragment]? = some (some present)) (payload : Bytes) :
    assembly.insert fragment payload = some (assembly, false) := by
  rw [insert]
  split <;> simp_all

@[simp] theorem length_fill {assembly : FragmentAssembly} {fragment : Nat} {payload : Bytes}
    (vacant : assembly.fragments[fragment]? = some none) :
    (assembly.fill fragment payload vacant).fragments.length = assembly.fragments.length :=
  List.length_set

/-! ## The missing mask -/

/-- Up to seven slots give a mask of seven bits, without an overlong shift. -/
theorem missingMaskFrom_fits {slots : List (Option Bytes)} {index mask : Nat}
    (bounded : index + slots.length ≤ 7) (fits : mask < 2 ^ 7) :
    ∃ result, missingMaskFrom index slots mask = some result ∧ result < 2 ^ 7 := by
  induction slots generalizing index mask with
  | nil => exact ⟨mask, rfl, fits⟩
  | cons slot rest induction =>
      rw [List.length_cons] at bounded
      cases slot with
      | some payload => exact induction (by omega) fits
      | none =>
          have bit : 1 <<< index < 2 ^ 7 := by
            rw [Nat.one_shiftLeft]
            exact Nat.pow_lt_pow_right (by omega) (by omega)
          rw [missingMaskFrom, if_pos (by omega)]
          exact induction (by omega) (Nat.or_lt_two_pow fits bit)

theorem missingMask_fits {assembly : FragmentAssembly}
    (bounded : assembly.fragments.length ≤ 7) :
    ∃ mask, assembly.missingMask = some mask ∧ mask < 2 ^ 7 :=
  missingMaskFrom_fits (by omega) (by decide)

theorem missingMaskFrom_testBit {slots : List (Option Bytes)} {index mask result : Nat}
    (folded : missingMaskFrom index slots mask = some result) (bit : Nat) :
    result.testBit bit = true ↔
      mask.testBit bit = true ∨ ∃ slot, bit = index + slot ∧ slots[slot]? = some none := by
  induction slots generalizing index mask with
  | nil =>
      cases folded
      simp
  | cons slot rest induction =>
      have shifted : (∃ other, bit = index + 1 + other ∧ rest[other]? = some none) ↔
          ∃ other, bit = index + (other + 1) ∧ (slot :: rest)[other + 1]? = some none := by
        simp only [List.getElem?_cons_succ, Nat.add_assoc, Nat.add_comm 1]
      cases slot with
      | some payload =>
          rw [induction folded, shifted]
          constructor
          · rintro (earlier | ⟨other, place, missing⟩)
            · exact Or.inl earlier
            · exact Or.inr ⟨other + 1, place, missing⟩
          · rintro (earlier | ⟨_ | other, place, missing⟩)
            · exact Or.inl earlier
            · cases missing
            · exact Or.inr ⟨other, place, missing⟩
      | none =>
          rw [missingMaskFrom] at folded
          split at folded
          · rw [induction folded, shifted, Nat.testBit_or, Nat.one_shiftLeft,
              Nat.testBit_two_pow, Bool.or_eq_true, decide_eq_true_eq]
            constructor
            · rintro ((earlier | here) | ⟨other, place, missing⟩)
              · exact Or.inl earlier
              · exact Or.inr ⟨0, here.symm, rfl⟩
              · exact Or.inr ⟨other + 1, place, missing⟩
            · rintro (earlier | ⟨_ | other, place, missing⟩)
              · exact Or.inl (Or.inl earlier)
              · exact Or.inl (Or.inr place.symm)
              · exact Or.inr ⟨other, place, missing⟩
          · cases folded

/-- The mask names the vacant slots. -/
theorem missingMask_testBit {assembly : FragmentAssembly} {mask : Nat}
    (missing : assembly.missingMask = some mask) (fragment : Nat) :
    mask.testBit fragment = true ↔ assembly.fragments[fragment]? = some none := by
  rw [missingMaskFrom_testBit missing]
  simp

/-! ## Reassembly -/

/-- Every filled slot holds the part of its index. -/
def Holds (assembly : FragmentAssembly) (parts : List Bytes) : Prop :=
  assembly.fragments.length = parts.length ∧
    ∀ (fragment : Nat) (payload : Bytes),
      assembly.fragments[fragment]? = some (some payload) → parts[fragment]? = some payload

theorem holds_new (parts : List Bytes) (firstSeen : Instant) :
    (new parts.length firstSeen).Holds parts := by
  constructor
  · simp
  · intro fragment payload filled
    simp [List.getElem?_replicate] at filled

theorem Holds.fill {assembly : FragmentAssembly} {parts : List Bytes} {fragment : Nat}
    {payload : Bytes} (holds : assembly.Holds parts) (part : parts[fragment]? = some payload)
    (vacant : assembly.fragments[fragment]? = some none) :
    (assembly.fill fragment payload vacant).Holds parts := by
  constructor
  · rw [length_fill, holds.1]
  · intro other content filled
    by_cases same : fragment = other
    · subst same
      have bound := (List.getElem?_eq_some_iff.mp vacant).1
      simp only [FragmentAssembly.fill, List.getElem?_set_self bound] at filled
      rw [part, Option.some.inj (Option.some.inj filled)]
    · simp only [FragmentAssembly.fill, List.getElem?_set_ne same] at filled
      exact holds.2 other content filled

/-- Every slot of a complete assembly is filled. -/
theorem exists_parts_of_isComplete {assembly : FragmentAssembly}
    (complete : assembly.isComplete = true) :
    ∃ parts : List Bytes, assembly.fragments = parts.map some := by
  have filled := (isComplete_iff assembly).mp complete
  generalize assembly.fragments = slots at filled
  induction slots with
  | nil => exact ⟨[], rfl⟩
  | cons slot rest induction =>
      rcases induction (fun other member => filled other (List.mem_cons_of_mem _ member)) with
        ⟨parts, partsEq⟩
      rcases Option.isSome_iff_exists.mp (filled slot List.mem_cons_self) with ⟨part, partEq⟩
      exact ⟨part :: parts, by rw [partEq, partsEq, List.map_cons]⟩

theorem intoPayload_of_parts {assembly : FragmentAssembly} {parts : List Bytes}
    (filled : assembly.fragments = parts.map some) :
    assembly.intoPayload = some parts.flatten := by
  rw [intoPayload, filled, ListLoops.mapM_id_map_some, Option.map_some]

/-- A complete assembly gives the payload that the parts were split from. -/
theorem intoPayload_of_holds {assembly : FragmentAssembly} {parts : List Bytes}
    (holds : assembly.Holds parts) (complete : assembly.isComplete = true) :
    assembly.intoPayload = some parts.flatten := by
  rcases exists_parts_of_isComplete complete with ⟨present, filled⟩
  have same : present = parts := by
    have lengths := holds.1
    rw [filled, List.length_map] at lengths
    apply List.ext_getElem lengths
    intro fragment bound partBound
    have slot : assembly.fragments[fragment]? = some (some present[fragment]) := by
      rw [filled, List.getElem?_map, List.getElem?_eq_getElem bound, Option.map_some]
    have part := holds.2 fragment _ slot
    rw [List.getElem?_eq_getElem partBound] at part
    exact (Option.some.inj part).symm
  rw [intoPayload_of_parts filled, same]

end FragmentAssembly

end Irohsion.Server
