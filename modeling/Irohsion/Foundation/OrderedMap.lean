import Mathlib.Data.Multiset.MapFold
import Mathlib.Data.Multiset.ZeroCons
import Mathlib.Data.Multiset.AddSub
import Std.Data.ExtTreeMap

/-! # Ordered maps

Facts about extensional tree maps with a lawful comparison: lookups after one
update, sizes, and the bag of entries.
-/

namespace Irohsion.OrderedMap

open Std

variable {κ : Type u} {β : Type v} {cmp : κ → κ → Ordering} [TransCmp cmp]
variable {map : ExtTreeMap κ β cmp} {key other : κ} {value : β}

theorem mem_iff_getElem? : key ∈ map ↔ ∃ value, map[key]? = some value := by
  rw [ExtTreeMap.mem_iff_isSome_getElem?, Option.isSome_iff_exists]

theorem mem_of_getElem? (found : map[key]? = some value) : key ∈ map :=
  mem_iff_getElem?.mpr ⟨value, found⟩

theorem size_erase_of_mem (member : key ∈ map) : (map.erase key).size + 1 = map.size := by
  have nonempty : map.size ≠ 0 := by
    intro zero
    have noEntry : map = ∅ := ExtTreeMap.eq_empty_iff_size_eq_zero.mpr zero
    subst noEntry
    exact ExtTreeMap.not_mem_empty member
  rw [ExtTreeMap.size_erase, if_pos (ExtTreeMap.contains_iff_mem.mpr member)]
  omega

/-- The least key comes first. -/
theorem toList_of_least {map : ExtTreeMap Nat β} {least : Nat} {value : β}
    (found : map[least]? = some value) (below : ∀ key ∈ map, least ≤ key) :
    ∃ rest, map.toList = (least, value) :: rest := by
  have member := ExtTreeMap.mem_toList_iff_getElem?_eq_some.mpr found
  have ordered := @ExtTreeMap.ordered_keys_toList _ _ _ map _
  cases held : map.toList with
  | nil =>
      rw [held] at member
      cases member
  | cons front rest =>
      rw [held] at member ordered
      rcases List.mem_cons.mp member with rfl | behind
      · exact ⟨rest, rfl⟩
      · have before := (List.pairwise_cons.mp ordered).1 _ behind
        rw [Nat.compare_eq_lt] at before
        have present : front ∈ map.toList := held ▸ List.mem_cons_self
        rw [ExtTreeMap.mem_toList_iff_getElem?_eq_some] at present
        exact absurd (below _ (mem_of_getElem? present)) (Nat.not_le.mpr before)

/-- The entries of a map as a bag. -/
def entries (map : ExtTreeMap κ β cmp) : Multiset (κ × β) := Multiset.ofList map.toList

@[simp] theorem entries_empty : entries (∅ : ExtTreeMap κ β cmp) = 0 := by
  simp [entries]

/-- A loop that changes only the keys it is at keeps the others. -/
theorem getElem?_foldl_of_absent {γ : Type w}
    {write : ExtTreeMap κ γ cmp → κ → β → ExtTreeMap κ γ cmp} {entries : List (κ × β)}
    (others : ∀ written key value other, key ≠ other →
      (write written key value)[other]? = written[other]?)
    (absent : ∀ entry ∈ entries, entry.1 ≠ key) (target : ExtTreeMap κ γ cmp) :
    (entries.foldl (fun written entry => write written entry.1 entry.2) target)[key]? =
      target[key]? := by
  induction entries generalizing target with
  | nil => rfl
  | cons head tail induction =>
      rw [List.foldl_cons,
        induction fun entry member => absent entry (List.mem_cons_of_mem _ member)]
      exact others _ _ _ _ (absent head List.mem_cons_self)

theorem isEmpty_map {γ : Type w} {change : κ → β → γ} :
    (map.map change).isEmpty = map.isEmpty := by
  rw [Bool.eq_iff_iff, ExtTreeMap.isEmpty_iff, ExtTreeMap.isEmpty_iff,
    ExtTreeMap.map_eq_empty_iff]

variable [LawfulEqCmp cmp]

theorem getElem?_insert_of_ne (different : key ≠ other) :
    (map.insert key value)[other]? = map[other]? := by
  rw [ExtTreeMap.getElem?_insert, if_neg (by simpa using different)]

/-- What is found after an insertion was inserted or found before. -/
theorem getElem?_insert_eq_some {stored : β}
    (found : (map.insert key value)[other]? = some stored) :
    other = key ∧ stored = value ∨ map[other]? = some stored := by
  by_cases same : key = other
  · subst same
    rw [ExtTreeMap.getElem?_insert_self] at found
    exact Or.inl ⟨rfl, (Option.some.inj found).symm⟩
  · rw [getElem?_insert_of_ne same] at found
    exact Or.inr found

theorem getElem?_erase_of_ne (different : key ≠ other) :
    (map.erase key)[other]? = map[other]? := by
  rw [ExtTreeMap.getElem?_erase, if_neg (by simpa using different)]

/-- An erased map only has entries of the original at other keys. -/
theorem getElem?_erase_eq_some :
    (map.erase key)[other]? = some value ↔ key ≠ other ∧ map[other]? = some value := by
  by_cases same : key = other
  · subst same
    simp
  · rw [getElem?_erase_of_ne same]
    simp [same]

theorem mem_insert_iff : other ∈ map.insert key value ↔ other = key ∨ other ∈ map := by
  rw [ExtTreeMap.mem_insert, LawfulEqCmp.compare_eq_iff_eq, eq_comm]

theorem mem_erase_iff : other ∈ map.erase key ↔ other ≠ key ∧ other ∈ map := by
  rw [ExtTreeMap.mem_erase, Ne, LawfulEqCmp.compare_eq_iff_eq, eq_comm, Ne]

/-- Writing an entry that is already there changes nothing. -/
theorem insert_of_getElem? (found : map[key]? = some value) : map.insert key value = map := by
  apply ExtTreeMap.ext_getElem?
  intro other
  by_cases same : key = other
  · subst same
    rw [ExtTreeMap.getElem?_insert_self, found]
  · rw [getElem?_insert_of_ne same]

theorem insert_insert {earlier : β} :
    (map.insert key earlier).insert key value = map.insert key value := by
  apply ExtTreeMap.ext_getElem?
  intro other
  by_cases same : key = other
  · subst same
    rw [ExtTreeMap.getElem?_insert_self, ExtTreeMap.getElem?_insert_self]
  · rw [getElem?_insert_of_ne same, getElem?_insert_of_ne same, getElem?_insert_of_ne same]

theorem erase_insert : (map.insert key value).erase key = map.erase key := by
  apply ExtTreeMap.ext_getElem?
  intro other
  by_cases same : key = other
  · subst same
    rw [ExtTreeMap.getElem?_erase_self, ExtTreeMap.getElem?_erase_self]
  · rw [getElem?_erase_of_ne same, getElem?_erase_of_ne same, getElem?_insert_of_ne same]

/-! ## Changing the values -/

section Map

variable {γ : Type w} {change : κ → β → γ}

theorem map_insert :
    (map.insert key value).map change = (map.map change).insert key (change key value) := by
  apply ExtTreeMap.ext_getElem?
  intro other
  rw [ExtTreeMap.getElem?_map]
  by_cases same : key = other
  · subst same
    rw [ExtTreeMap.getElem?_insert_self, ExtTreeMap.getElem?_insert_self, Option.map_some]
  · rw [getElem?_insert_of_ne same, getElem?_insert_of_ne same, ExtTreeMap.getElem?_map]

theorem map_erase : (map.erase key).map change = (map.map change).erase key := by
  apply ExtTreeMap.ext_getElem?
  intro other
  rw [ExtTreeMap.getElem?_map]
  by_cases same : key = other
  · subst same
    rw [ExtTreeMap.getElem?_erase_self, ExtTreeMap.getElem?_erase_self, Option.map_none]
  · rw [getElem?_erase_of_ne same, getElem?_erase_of_ne same, ExtTreeMap.getElem?_map]

end Map

/-! ## Loops that write entries -/

/-- A loop that writes each value under its key leaves the last value of a key. -/
theorem getElem?_foldl_insert [DecidableEq κ] (keyOf : β → κ) (values : List β) (key : κ)
    (map : ExtTreeMap κ β cmp) :
    (values.foldl (fun written value => written.insert (keyOf value) value) map)[key]? =
      (values.filter fun value => decide (keyOf value = key)).getLast?.or map[key]? := by
  induction values generalizing map with
  | nil => rfl
  | cons value rest induction =>
      rw [List.foldl_cons, induction]
      by_cases same : keyOf value = key
      · rw [List.filter_cons_of_pos (by simpa using same), List.getLast?_cons]
        subst same
        rw [ExtTreeMap.getElem?_insert_self]
        cases (rest.filter _).getLast? <;> rfl
      · rw [List.filter_cons_of_neg (by simpa using same), getElem?_insert_of_ne same]

section Updates

variable {γ : Type w} {write : ExtTreeMap κ γ cmp → κ → β → ExtTreeMap κ γ cmp}

/-- A loop over a map that changes only what it is at changes each key once. -/
theorem getElem?_foldl
    (others : ∀ written key value other, key ≠ other →
      (write written key value)[other]? = written[other]?)
    (found : map[key]? = some value) {next : Option γ → Option γ}
    (writes : ∀ written, (write written key value)[key]? = next written[key]?)
    (target : ExtTreeMap κ γ cmp) :
    (map.foldl write target)[key]? = next target[key]? := by
  have listed := ExtTreeMap.mem_toList_iff_getElem?_eq_some.mpr found
  have distinct := map.distinct_keys_toList
  rw [ExtTreeMap.foldl_eq_foldl_toList]
  rcases List.append_of_mem listed with ⟨before, after, split⟩
  rw [split, List.pairwise_append, List.pairwise_cons] at distinct
  rw [split, List.foldl_append, List.foldl_cons]
  have notAfter : ∀ entry ∈ after, entry.1 ≠ key := by
    intro entry member same
    exact distinct.2.1.1 entry member (LawfulEqCmp.compare_eq_iff_eq.mpr same.symm)
  have notBefore : ∀ entry ∈ before, entry.1 ≠ key := by
    intro entry member same
    exact distinct.2.2 entry member (key, value) List.mem_cons_self
      (LawfulEqCmp.compare_eq_iff_eq.mpr same)
  rw [getElem?_foldl_of_absent others notAfter, writes,
    getElem?_foldl_of_absent others notBefore]

end Updates

/-! ## The bag of entries -/

theorem mem_entries : (key, value) ∈ entries map ↔ map[key]? = some value := by
  rw [entries, Multiset.mem_coe, ExtTreeMap.mem_toList_iff_getElem?_eq_some]

theorem nodup_entries (map : ExtTreeMap κ β cmp) : (entries map).Nodup := by
  rw [entries, Multiset.coe_nodup]
  apply ExtTreeMap.distinct_keys_toList.imp
  intro left right different equal
  exact different (by rw [equal]; exact ReflCmp.compare_self)

theorem entries_insert (fresh : key ∉ map) :
    entries (map.insert key value) = (key, value) ::ₘ entries map := by
  have absent : map[key]? = none := ExtTreeMap.getElem?_eq_none fresh
  have freshEntry : (key, value) ∉ entries map := by simp [mem_entries, absent]
  apply Multiset.Nodup.ext (nodup_entries _) (Multiset.nodup_cons.mpr
    ⟨freshEntry, nodup_entries map⟩) |>.mpr
  intro held
  rcases held with ⟨other, content⟩
  rw [Multiset.mem_cons, mem_entries, mem_entries, Prod.mk.injEq]
  by_cases same : key = other
  · subst same
    simp [absent, eq_comm]
  · rw [getElem?_insert_of_ne same]
    simp [Ne.symm same]

theorem entries_erase (found : map[key]? = some value) :
    entries map = (key, value) ::ₘ entries (map.erase key) := by
  have gone : (key, value) ∉ entries (map.erase key) := by simp [mem_entries]
  apply Multiset.Nodup.ext (nodup_entries _) (Multiset.nodup_cons.mpr
    ⟨gone, nodup_entries _⟩) |>.mpr
  intro held
  rcases held with ⟨other, content⟩
  rw [Multiset.mem_cons, mem_entries, mem_entries, Prod.mk.injEq, getElem?_erase_eq_some]
  by_cases same : key = other
  · subst same
    simp [found, eq_comm]
  · simp [same, Ne.symm same]

end Irohsion.OrderedMap
