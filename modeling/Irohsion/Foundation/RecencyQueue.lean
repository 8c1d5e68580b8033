import Irohsion.Foundation.BreakLoop
import Mathlib.Data.List.DropRight
import Mathlib.Data.List.Nodup
import Mathlib.Order.Basic
import Std.Data.ExtHashMap
import Std.Data.ExtTreeMap

/-! # Queues of the newest entries

A cache keeps entries under their keys and lists the keys in a queue, from
which it removes the ones at the front: while they are too old, or while there
are too many of them. Histories are listed newest first and queues oldest
first.
-/

namespace Irohsion.Recency

open Std

/-! ## Fresh entries -/

section Fresh

variable {α : Type u} {fresh : α → Bool} {entries : List α}

/-- No entry is fresh when a newer one is not. -/
def FreshFirst (fresh : α → Bool) (entries : List α) : Prop :=
  entries.Pairwise fun newer older => fresh older = true → fresh newer = true

theorem FreshFirst.filter_tail {newest : α} {older : List α}
    (first : FreshFirst fresh (newest :: older)) (stale : ¬ fresh newest = true) :
    older.filter fresh = [] := by
  apply List.filter_eq_nil_iff.mpr
  intro entry member isFresh
  exact stale ((List.pairwise_cons.mp first).1 entry member isFresh)

theorem FreshFirst.filter_take (first : FreshFirst fresh entries) (count : Nat) :
    (entries.take count).filter fresh = (entries.filter fresh).take count := by
  induction entries generalizing count with
  | nil => simp
  | cons newest older induction =>
      have rest := induction (List.pairwise_cons.mp first).2
      cases count with
      | zero => simp
      | succ count =>
          rw [List.take_succ_cons]
          by_cases isFresh : fresh newest = true
          · rw [List.filter_cons_of_pos isFresh, List.filter_cons_of_pos isFresh,
              List.take_succ_cons, rest count]
          · rw [List.filter_cons_of_neg isFresh, List.filter_cons_of_neg isFresh, rest count,
              first.filter_tail isFresh, List.take_nil, List.take_nil]

theorem FreshFirst.sublist {kept : List α} (first : FreshFirst fresh entries)
    (sublist : kept.Sublist entries) : FreshFirst fresh kept :=
  List.Pairwise.sublist sublist first

/-- Of the newest entries that were fresh before, the ones that still are. -/
theorem FreshFirst.filter_take_filter {before : α → Bool} (first : FreshFirst fresh entries)
    (earlier : ∀ entry, fresh entry = true → before entry = true) (count : Nat) :
    ((entries.filter before).take count).filter fresh = (entries.filter fresh).take count := by
  rw [(first.sublist List.filter_sublist).filter_take, List.filter_filter]
  congr 1
  apply List.filter_congr
  intro entry _
  rw [Bool.eq_iff_iff, Bool.and_eq_true]
  exact ⟨And.left, fun isFresh => ⟨isFresh, earlier entry isFresh⟩⟩

/-- Removing the stale entries at the front of the queue removes all of them. -/
theorem FreshFirst.dropWhile_reverse (first : FreshFirst fresh entries) :
    entries.reverse.dropWhile (fun entry => !fresh entry) = (entries.filter fresh).reverse := by
  induction entries with
  | nil => rfl
  | cons newest older induction =>
      rw [List.reverse_cons, List.dropWhile_append, induction (List.pairwise_cons.mp first).2]
      by_cases isFresh : fresh newest = true
      · rw [List.filter_cons_of_pos isFresh, List.reverse_cons]
        cases (older.filter fresh).reverse with
        | nil => simp [isFresh]
        | cons head tail => simp
      · rw [List.filter_cons_of_neg isFresh, first.filter_tail isFresh]
        simp [isFresh]

end Fresh

/-! ## The latest entry of each key -/

section Latest

variable {κ : Type u} {β : Type v} [DecidableEq κ] {entries : List (κ × β)}

def latest : List (κ × β) → List (κ × β)
  | [] => []
  | newest :: older => newest :: (latest older).filter fun entry => decide (entry.1 ≠ newest.1)

theorem latest_sublist (entries : List (κ × β)) : (latest entries).Sublist entries := by
  induction entries with
  | nil => exact List.Sublist.slnil
  | cons newest older induction =>
      rw [latest]
      exact (List.filter_sublist.trans induction).cons_cons newest

theorem nodup_latest (entries : List (κ × β)) : ((latest entries).map Prod.fst).Nodup := by
  induction entries with
  | nil => exact List.nodup_nil
  | cons newest older induction =>
      rw [latest, List.map_cons, List.nodup_cons]
      constructor
      · intro member
        rcases List.mem_map.mp member with ⟨entry, kept, same⟩
        exact of_decide_eq_true (List.mem_filter.mp kept).2 same
      · exact induction.sublist (List.filter_sublist.map Prod.fst)

/-- Among the newest entries at most one has the key, so that without it they
are still the newest, one entry less. -/
theorem take_filter_key (distinct : (entries.map Prod.fst).Nodup) (key : κ) (count : Nat) :
    ((entries.take count).filter fun entry => decide (entry.1 ≠ key)).take (count - 1) =
      (entries.filter fun entry => decide (entry.1 ≠ key)).take (count - 1) := by
  induction entries generalizing count with
  | nil => simp
  | cons newest older induction =>
      rw [List.map_cons, List.nodup_cons] at distinct
      cases count with
      | zero => simp
      | succ count =>
          rw [List.take_succ_cons, Nat.add_sub_cancel]
          by_cases same : newest.1 = key
          · have others : ∀ entry ∈ older, decide (entry.1 ≠ key) = true := by
              intro entry member
              apply decide_eq_true
              intro again
              exact distinct.1 (List.mem_map.mpr ⟨entry, member, again.trans same.symm⟩)
            rw [List.filter_cons_of_neg (by simp [same]),
              List.filter_cons_of_neg (by simp [same]), List.filter_eq_self.mpr others,
              List.filter_eq_self.mpr fun entry member =>
                others entry (List.mem_of_mem_take member), List.take_take, Nat.min_self]
          · rw [List.filter_cons_of_pos (by simp [same]), List.filter_cons_of_pos (by simp [same])]
            cases count with
            | zero => rfl
            | succ count =>
                have rest := induction distinct.2 (count + 1)
                rw [Nat.add_sub_cancel] at rest
                rw [List.take_succ_cons, List.take_succ_cons, rest]

end Latest

/-! ## A map and the queue of its keys -/

section PutLast

variable {κ : Type u} {β : Type v} [DecidableEq κ] {entries : List (κ × β)} {key : κ} {old : β}

/-- The entry becomes the newest, in place of an older one with its key. -/
def putLast (entry : κ × β) (entries : List (κ × β)) : List (κ × β) :=
  entries.filter (fun other => decide (other.1 ≠ entry.1)) ++ [entry]

theorem putLast_of_absent (absent : key ∉ entries.map Prod.fst) (value : β) :
    putLast (key, value) entries = entries ++ [(key, value)] := by
  rw [putLast, List.filter_eq_self.mpr]
  intro other member
  apply decide_eq_true
  intro same
  exact absent (List.mem_map.mpr ⟨other, member, same⟩)

theorem putLast_of_last (distinct : ((entries ++ [(key, old)]).map Prod.fst).Nodup) (value : β) :
    putLast (key, value) (entries ++ [(key, old)]) = entries ++ [(key, value)] := by
  rw [List.map_append, List.map_singleton, ← List.concat_eq_append, List.nodup_concat] at distinct
  have alone := putLast_of_absent distinct.1 value
  rw [putLast] at alone ⊢
  rw [List.filter_append, List.filter_cons_of_neg (by simp), List.filter_nil, List.append_nil]
  exact alone

end PutLast

section Lists

variable {κ : Type u} {β : Type v} {order : List κ} {found next : κ → Option β} {size : Nat}
variable {key : κ} {value old : β} {entries rest : List (κ × β)}

/-- The queue lists the keys of the entries, and they are found under their
keys. -/
structure Lists (order : List κ) (found : κ → Option β) (size : Nat)
    (entries : List (κ × β)) : Prop where
  order : order = entries.map Prod.fst
  found : ∀ key value, found key = some value ↔ (key, value) ∈ entries
  size : size = entries.length
  distinct : (entries.map Prod.fst).Nodup

namespace Lists

theorem head (lists : Lists order found size ((key, value) :: rest)) :
    found key = some value :=
  (lists.found key value).mpr List.mem_cons_self

theorem isSome_iff (lists : Lists order found size entries) :
    (found key).isSome ↔ key ∈ order := by
  rw [lists.order, List.mem_map, Option.isSome_iff_exists]
  constructor
  · rintro ⟨value, present⟩
    exact ⟨(key, value), (lists.found key value).mp present, rfl⟩
  · rintro ⟨⟨_, value⟩, member, rfl⟩
    exact ⟨value, (lists.found _ value).mpr member⟩

theorem pop [DecidableEq κ] (lists : Lists order found size ((key, value) :: rest))
    (removes : ∀ other, next other = if key = other then none else found other) :
    Lists order.tail next (size - 1) rest := by
  have distinct := lists.distinct
  rw [List.map_cons, List.nodup_cons] at distinct
  refine ⟨?_, ?_, ?_, distinct.2⟩
  · rw [lists.order, List.map_cons, List.tail_cons]
  · intro other content
    rw [removes other]
    by_cases same : key = other
    · subst same
      rw [if_pos rfl]
      constructor
      · intro impossible
        cases impossible
      · intro member
        exact absurd (List.mem_map.mpr ⟨_, member, rfl⟩) distinct.1
    · rw [if_neg same, lists.found, List.mem_cons]
      simp [Ne.symm same]
  · rw [lists.size, List.length_cons, Nat.add_sub_cancel]

/-- A map that agrees with the entries except for one key, which is added last. -/
theorem append [DecidableEq κ] (distinct : (entries.map Prod.fst).Nodup)
    (absent : key ∉ entries.map Prod.fst)
    (others : ∀ other content, key ≠ other →
      (found other = some content ↔ (other, content) ∈ entries))
    (adds : ∀ other, next other = if key = other then some value else found other) :
    Lists (entries.map Prod.fst ++ [key]) next (entries.length + 1)
      (entries ++ [(key, value)]) := by
  refine ⟨?_, ?_, ?_, ?_⟩
  · rw [List.map_append, List.map_singleton]
  · intro other content
    rw [adds other, List.mem_append, List.mem_singleton, Prod.mk.injEq]
    by_cases same : key = other
    · subst same
      rw [if_pos rfl, Option.some.injEq]
      constructor
      · intro stored
        exact Or.inr ⟨rfl, stored.symm⟩
      · rintro (member | ⟨-, stored⟩)
        · exact absurd (List.mem_map.mpr ⟨_, member, rfl⟩) absent
        · exact stored.symm
    · rw [if_neg same, others other content same]
      simp [Ne.symm same]
  · rw [List.length_append, List.length_singleton]
  · rw [List.map_append, List.map_singleton, ← List.concat_eq_append]
    exact List.Nodup.concat absent distinct

theorem push [DecidableEq κ] (lists : Lists order found size entries) (fresh : key ∉ order)
    (adds : ∀ other, next other = if key = other then some value else found other) :
    Lists (order ++ [key]) next (size + 1) (entries ++ [(key, value)]) := by
  rw [lists.order] at fresh
  rw [lists.order, lists.size]
  exact append lists.distinct fresh (fun other content _ => lists.found other content) adds

/-- The newest entry changes its value. -/
theorem refresh [DecidableEq κ] (lists : Lists order found size (entries ++ [(key, old)]))
    (changes : ∀ other, next other = if key = other then some value else found other) :
    Lists order next size (entries ++ [(key, value)]) := by
  have distinct := lists.distinct
  rw [List.map_append, List.map_singleton, ← List.concat_eq_append,
    List.nodup_concat] at distinct
  have others : ∀ other content, key ≠ other →
      (found other = some content ↔ (other, content) ∈ entries) := by
    intro other content different
    rw [lists.found, List.mem_append, List.mem_singleton]
    simp [Ne.symm different]
  have order := lists.order
  have size := lists.size
  rw [List.map_append, List.map_singleton] at order
  rw [List.length_append, List.length_singleton] at size
  rw [order, size]
  exact append distinct.2 distinct.1 others changes

end Lists

end Lists

/-! ## Tree maps and hash maps -/

section TreeMap

variable {κ : Type u} {β : Type v} {cmp : κ → κ → Ordering} [TransCmp cmp]
variable {map : ExtTreeMap κ β cmp} {order : List κ} {entries : List (κ × β)}
variable {key : κ} {value : β}

/-- The queue lists the keys of the map. -/
abbrev TreeLists (order : List κ) (map : ExtTreeMap κ β cmp) (entries : List (κ × β)) : Prop :=
  Lists order (fun key => map[key]?) map.size entries

theorem TreeLists.mem_iff (lists : TreeLists order map entries) : key ∈ map ↔ key ∈ order := by
  rw [ExtTreeMap.mem_iff_isSome_getElem?]
  exact lists.isSome_iff

variable [LawfulEqCmp cmp] [DecidableEq κ]

theorem getElem?_treeInsert (map : ExtTreeMap κ β cmp) (key : κ) (value : β) (other : κ) :
    (map.insert key value)[other]? = if key = other then some value else map[other]? := by
  rw [ExtTreeMap.getElem?_insert]
  simp

theorem TreeLists.pop (lists : TreeLists order map ((key, value) :: entries)) :
    TreeLists order.tail (map.erase key) entries := by
  have present : key ∈ map := ExtTreeMap.mem_iff_isSome_getElem?.mpr (by rw [lists.head]; rfl)
  have popped : Lists order.tail (fun other => (map.erase key)[other]?) (map.size - 1) entries := by
    apply Lists.pop lists
    intro other
    rw [ExtTreeMap.getElem?_erase]
    simp
  rw [TreeLists, ExtTreeMap.size_erase, if_pos (ExtTreeMap.contains_iff_mem.mpr present)]
  exact popped

theorem TreeLists.push (lists : TreeLists order map entries) (fresh : key ∉ map) :
    TreeLists (order ++ [key]) (map.insert key value) (entries ++ [(key, value)]) := by
  rw [TreeLists, ExtTreeMap.size_insert, if_neg (by simpa using fresh)]
  exact Lists.push lists (fun member => fresh (lists.mem_iff.mpr member))
    (getElem?_treeInsert map key value)

theorem TreeLists.refresh {old : β} (lists : TreeLists order map (entries ++ [(key, old)])) :
    TreeLists order (map.insert key value) (entries ++ [(key, value)]) := by
  have present : key ∈ map := by
    rw [lists.mem_iff, lists.order]
    simp
  rw [TreeLists, ExtTreeMap.size_insert, if_pos (ExtTreeMap.contains_iff_mem.mpr present)]
  exact Lists.refresh lists (getElem?_treeInsert map key value)

end TreeMap

section HashMap

variable {κ : Type u} {β : Type v} [DecidableEq κ] [Hashable κ] {map : ExtHashMap κ β}
variable {order : List κ} {entries : List (κ × β)} {key : κ} {value : β}

abbrev HashLists (order : List κ) (map : ExtHashMap κ β) (entries : List (κ × β)) : Prop :=
  Lists order (fun key => map[key]?) map.size entries

theorem HashLists.mem_iff (lists : HashLists order map entries) : key ∈ map ↔ key ∈ order := by
  rw [ExtHashMap.mem_iff_isSome_getElem?]
  exact lists.isSome_iff

theorem HashLists.pop (lists : HashLists order map ((key, value) :: entries)) :
    HashLists order.tail (map.erase key) entries := by
  have present : key ∈ map := ExtHashMap.mem_iff_isSome_getElem?.mpr (by rw [lists.head]; rfl)
  have popped : Lists order.tail (fun other => (map.erase key)[other]?) (map.size - 1) entries := by
    apply Lists.pop lists
    intro other
    rw [ExtHashMap.getElem?_erase]
    simp
  rw [HashLists, ExtHashMap.size_erase, if_pos present]
  exact popped

theorem HashLists.push (lists : HashLists order map entries) (fresh : key ∉ map) :
    HashLists (order ++ [key]) (map.insert key value) (entries ++ [(key, value)]) := by
  rw [HashLists, ExtHashMap.size_insert, if_neg fresh]
  apply Lists.push lists fun member => fresh (lists.mem_iff.mpr member)
  intro other
  rw [ExtHashMap.getElem?_insert]
  simp

end HashMap

/-! ## Loops that remove the front -/

section Loops

variable {α : Type u} {σ : Type v} {more : List α → Bool} {step : σ → ForInStep σ}
variable {Represents : σ → List α → Prop}

def popWhile (more : List α → Bool) : List α → List α
  | [] => []
  | head :: tail => if more (head :: tail) then popWhile more tail else head :: tail

theorem popWhile_front (old : α → Bool) (entries : List α) :
    popWhile (fun entries => entries.head?.any old) entries = entries.dropWhile old := by
  induction entries with
  | nil => rfl
  | cons head tail induction =>
      rw [popWhile, List.dropWhile_cons, induction]
      rfl

theorem popWhile_beyond (limit : Nat) (entries : List α) :
    popWhile (fun entries => decide (limit < entries.length)) entries = entries.rtake limit := by
  rw [List.rtake]
  induction entries with
  | nil => exact List.drop_nil.symm
  | cons head tail induction =>
      rw [popWhile, List.length_cons]
      by_cases beyond : limit < tail.length + 1
      · have excess : tail.length + 1 - limit = tail.length - limit + 1 := by omega
        rw [if_pos (decide_eq_true beyond), induction, excess, List.drop_succ_cons]
      · have within : tail.length + 1 - limit = 0 := by omega
        rw [if_neg (by simpa using beyond), within, List.drop_zero]

/-- A loop whose rounds remove the front of a queue, while there is one and
more is to go. -/
theorem run_popWhile
    (done : ∀ state entries, Represents state entries → (entries = [] ∨ more entries = false) →
      step state = .done state)
    (yield : ∀ state head tail, Represents state (head :: tail) → more (head :: tail) = true →
      ∃ next, step state = .yield next ∧ Represents next tail) :
    ∀ bound state entries, Represents state entries → entries.length < bound →
      Represents (BreakLoop.run step bound state) (popWhile more entries)
  | 0, _, _, _, impossible => absurd impossible (Nat.not_lt_zero _)
  | bound + 1, state, entries, represents, enough => by
      rw [BreakLoop.run]
      cases entries with
      | nil =>
          rw [done state [] represents (Or.inl rfl)]
          exact represents
      | cons head tail =>
          rw [popWhile]
          by_cases again : more (head :: tail) = true
          · rcases yield state head tail represents again with ⟨next, yields, rest⟩
            rw [yields, if_pos again]
            exact run_popWhile done yield bound next tail rest (Nat.lt_of_succ_lt_succ enough)
          · rw [done state _ represents (Or.inr (Bool.eq_false_iff.mpr again)), if_neg again]
            exact represents

variable {state : σ} {entries : List α} {bound : Nat}

/-- Rounds that remove old entries, up to the first that is not old. -/
theorem run_dropWhile {old : α → Bool}
    (empty : ∀ state, Represents state [] → step state = .done state)
    (keeps : ∀ state head tail, Represents state (head :: tail) → old head = false →
      step state = .done state)
    (drops : ∀ state head tail, Represents state (head :: tail) → old head = true →
      ∃ next, step state = .yield next ∧ Represents next tail)
    (represents : Represents state entries) (enough : entries.length < bound) :
    Represents (BreakLoop.run step bound state) (entries.dropWhile old) := by
  rw [← popWhile_front]
  apply run_popWhile _ drops bound state entries represents enough
  intro state entries represents stops
  cases entries with
  | nil => exact empty state represents
  | cons head tail =>
      rcases stops with impossible | stays
      · cases impossible
      · exact keeps state head tail represents stays

/-- Rounds that remove entries down to a limit. -/
theorem run_rtake {limit : Nat}
    (within : ∀ state entries, Represents state entries → entries.length ≤ limit →
      step state = .done state)
    (beyond : ∀ state head tail, Represents state (head :: tail) →
      limit < (head :: tail).length → ∃ next, step state = .yield next ∧ Represents next tail)
    (represents : Represents state entries) (enough : entries.length < bound) :
    Represents (BreakLoop.run step bound state) (entries.rtake limit) := by
  rw [← popWhile_beyond]
  apply run_popWhile _ _ bound state entries represents enough
  · intro state entries represents stops
    apply within state entries represents
    rcases stops with rfl | short
    · exact Nat.zero_le limit
    · exact Nat.le_of_not_lt (of_decide_eq_false short)
  · intro state head tail represents more
    exact beyond state head tail represents (of_decide_eq_true more)

end Loops

end Irohsion.Recency
