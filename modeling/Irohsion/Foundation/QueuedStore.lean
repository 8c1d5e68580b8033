import Irohsion.Foundation.BreakLoop
import Irohsion.Foundation.OrderedMap
import Mathlib.Data.List.Dedup

/-! # Maps with a queue of their keys

A store keeps its entries in a map and their keys in a queue, and makes room by
removing the entry at the front of the queue. `byAge` says, from the history of
arrivals alone, what the queue should list.
-/

namespace Irohsion.Queued

open Std

/-! ## Keys by age -/

section ByAge

variable {κ : Type u} [DecidableEq κ]
variable {stored after : κ → Bool} {arrivals rest : List κ} {key : κ}

/-- The stored keys in the order of their last arrival. -/
def byAge (stored : κ → Bool) (arrivals : List κ) : List κ := arrivals.dedup.filter stored

theorem nodup_byAge (stored : κ → Bool) (arrivals : List κ) : (byAge stored arrivals).Nodup :=
  (List.nodup_dedup arrivals).filter stored

theorem mem_byAge : key ∈ byAge stored arrivals ↔ key ∈ arrivals ∧ stored key = true := by
  rw [byAge, List.mem_filter, List.mem_dedup]

theorem byAge_none (none : ∀ other, stored other = false) (arrivals : List κ) :
    byAge stored arrivals = [] :=
  List.filter_eq_nil_iff.mpr fun other _ => by rw [none]; exact Bool.false_ne_true

/-- A key that arrives anew goes to the end. -/
theorem byAge_append (fresh : stored key = false)
    (stores : ∀ other, after other = (decide (other = key) || stored other))
    (arrivals : List κ) :
    byAge after (arrivals ++ [key]) = byAge stored arrivals ++ [key] := by
  have present : after key = true := by rw [stores, decide_eq_true rfl, Bool.true_or]
  induction arrivals with
  | nil => simp [byAge, present]
  | cons head tail induction =>
      rw [byAge, byAge] at induction ⊢
      rw [List.cons_append]
      by_cases later : head ∈ tail
      · rw [List.dedup_cons_of_mem (List.mem_append_left _ later), List.dedup_cons_of_mem later]
        exact induction
      · rw [List.dedup_cons_of_notMem later, List.filter_cons]
        by_cases here : head = key
        · rw [here, fresh, List.dedup_cons_of_mem (by simp)]
          exact induction
        · have notAppended : head ∉ tail ++ [key] := by simp [later, here]
          rw [List.dedup_cons_of_notMem notAppended, List.filter_cons, stores head,
            decide_eq_false here, Bool.false_or, induction]
          split <;> rfl

/-- Without its first key the rest keeps its order. -/
theorem byAge_tail (front : byAge stored arrivals = key :: rest)
    (removes : ∀ other, after other = (decide (other ≠ key) && stored other)) :
    byAge after arrivals = rest := by
  have distinct := nodup_byAge stored arrivals
  rw [front, List.nodup_cons] at distinct
  have filtered : byAge after arrivals =
      (byAge stored arrivals).filter fun other => decide (other ≠ key) := by
    rw [byAge, byAge, List.filter_filter]
    exact List.filter_congr fun other _ => removes other
  rw [filtered, front, List.filter_cons_of_neg (by simp), List.filter_eq_self]
  intro other member
  exact decide_eq_true fun same => distinct.1 (same ▸ member)

end ByAge

/-! ## Stores -/

structure Store (κ : Type u) (β : Type v) (cmp : κ → κ → Ordering) where
  order : List κ
  map : ExtTreeMap κ β cmp

namespace Store

variable {κ : Type u} {β : Type v} {cmp : κ → κ → Ordering} [TransCmp cmp]

def empty : Store κ β cmp := ⟨[], ∅⟩

/-- A key that is there already keeps its place in the queue. -/
def put (key : κ) (value : β) (store : Store κ β cmp) : Store κ β cmp where
  order := if key ∈ store.map then store.order else store.order ++ [key]
  map := store.map.insert key value

def evictStep (limit : Nat) (store : Store κ β cmp) : ForInStep (Store κ β cmp) :=
  if store.map.size ≤ limit then .done store
  else
    match store.order with
    | [] => .done store
    | key :: rest => .yield ⟨rest, store.map.erase key⟩

def evict (limit : Nat) (store : Store κ β cmp) : Store κ β cmp :=
  BreakLoop.run (evictStep limit) (store.order.length + 1) store

/-- A loop that removes the front of a queue of its state, one entry in each round,
evicts from that store. -/
theorem run_view {σ : Type w} {step : σ → ForInStep σ} {limit : Nat} (view : σ → Store κ β cmp)
    (fits : ∀ state, (view state).map.size ≤ limit → step state = .done state)
    (empty : ∀ state, ¬ (view state).map.size ≤ limit → (view state).order = [] →
      step state = .done state)
    (front : ∀ state key rest, ¬ (view state).map.size ≤ limit →
      (view state).order = key :: rest →
      ∃ next, step state = .yield next ∧ view next = ⟨rest, (view state).map.erase key⟩)
    (bound : Nat) (state : σ) :
    view (BreakLoop.run step bound state) = BreakLoop.run (evictStep limit) bound (view state) := by
  induction bound generalizing state with
  | zero => rfl
  | succ bound induction =>
      rw [BreakLoop.run, BreakLoop.run, evictStep]
      by_cases within : (view state).map.size ≤ limit
      · rw [if_pos within, fits state within]
      · rw [if_neg within]
        cases order : (view state).order with
        | nil => rw [empty state within order]
        | cons key rest =>
            rcases front state key rest within order with ⟨next, yields, popped⟩
            rw [yields]
            dsimp only
            rw [induction, popped]

variable [DecidableEq κ] {store : Store κ β cmp} {arrivals : List κ}

/-- The queue lists the keys of the map by age. -/
structure Aged (arrivals : List κ) (store : Store κ β cmp) : Prop where
  order_eq : store.order = byAge store.map.contains arrivals
  arrived : ∀ key ∈ store.map, key ∈ arrivals

namespace Aged

theorem empty (arrivals : List κ) : Aged arrivals (Store.empty : Store κ β cmp) where
  order_eq := (byAge_none (fun _ => by rw [Store.empty, ExtTreeMap.contains_empty]) arrivals).symm
  arrived _ member := absurd member ExtTreeMap.not_mem_empty

theorem nodup (aged : Aged arrivals store) : store.order.Nodup :=
  aged.order_eq ▸ nodup_byAge _ _

theorem mem_iff (aged : Aged arrivals store) (key : κ) : key ∈ store.order ↔ key ∈ store.map := by
  rw [aged.order_eq, mem_byAge, ExtTreeMap.contains_iff_mem]
  exact ⟨And.right, fun member => ⟨aged.arrived key member, member⟩⟩

variable [LawfulEqCmp cmp]

theorem length_eq (aged : Aged arrivals store) : store.order.length = store.map.size := by
  rw [← ExtTreeMap.length_keys]
  apply List.Perm.length_eq
  rw [List.perm_ext_iff_of_nodup aged.nodup ExtTreeMap.nodup_keys]
  intro key
  rw [aged.mem_iff, ExtTreeMap.mem_keys]

theorem contains_put (store : Store κ β cmp) (key : κ) (value : β) :
    (store.put key value).map.contains =
      fun other => decide (other = key) || store.map.contains other := by
  funext other
  rw [Bool.eq_iff_iff, ExtTreeMap.contains_iff_mem, Bool.or_eq_true, decide_eq_true_iff,
    ExtTreeMap.contains_iff_mem]
  exact OrderedMap.mem_insert_iff

theorem put (aged : Aged arrivals store) (key : κ) (value : β) :
    Aged (arrivals ++ if key ∈ store.map then [] else [key]) (store.put key value) := by
  have stores := contains_put store key value
  by_cases there : key ∈ store.map
  · rw [if_pos there, List.append_nil]
    have same : (store.put key value).map.contains = store.map.contains := by
      rw [stores]
      funext other
      by_cases here : other = key
      · rw [here, ExtTreeMap.contains_iff_mem.mpr there, Bool.or_true]
      · rw [decide_eq_false here, Bool.false_or]
    constructor
    · rw [same, ← aged.order_eq]
      exact if_pos there
    · intro other member
      apply aged.arrived
      rwa [← ExtTreeMap.contains_iff_mem, ← same, ExtTreeMap.contains_iff_mem]
  · rw [if_neg there]
    constructor
    · have fresh : store.map.contains key = false := by
        rw [Bool.eq_false_iff, Ne, ExtTreeMap.contains_iff_mem]
        exact there
      rw [byAge_append fresh (congrFun stores), ← aged.order_eq]
      exact if_neg there
    · intro other member
      rcases OrderedMap.mem_insert_iff.mp member with rfl | member
      · exact List.mem_append_right _ (List.mem_singleton_self _)
      · exact List.mem_append_left _ (aged.arrived other member)

/-- Removing the entry at the front of the queue. -/
theorem pop {key : κ} {rest : List κ} (aged : Aged arrivals store)
    (front : store.order = key :: rest) : Aged arrivals ⟨rest, store.map.erase key⟩ where
  order_eq := by
    apply Eq.symm
    apply byAge_tail (aged.order_eq.symm.trans front)
    intro other
    rw [Bool.eq_iff_iff, ExtTreeMap.contains_iff_mem, Bool.and_eq_true, decide_eq_true_iff,
      ExtTreeMap.contains_iff_mem]
    exact OrderedMap.mem_erase_iff
  arrived other member := aged.arrived other (OrderedMap.mem_erase_iff.mp member).2

/-- Making room removes the oldest entries that are beyond the limit. -/
theorem run_evictStep {limit bound : Nat} (aged : Aged arrivals store)
    (enough : store.order.length < bound) :
    Aged arrivals (BreakLoop.run (evictStep limit) bound store) ∧
      (BreakLoop.run (evictStep limit) bound store).order =
        store.order.drop (store.order.length - limit) := by
  induction bound generalizing store with
  | zero => exact absurd enough (Nat.not_lt_zero _)
  | succ bound induction =>
      have length := aged.length_eq
      rw [BreakLoop.run, evictStep]
      by_cases fits : store.map.size ≤ limit
      · rw [if_pos fits, Nat.sub_eq_zero_of_le (by omega)]
        exact ⟨aged, rfl⟩
      · rw [if_neg fits]
        cases front : store.order with
        | nil =>
            rw [front, List.length_nil] at length
            omega
        | cons key rest =>
            rw [front, List.length_cons] at enough length
            have excess : rest.length + 1 - limit = rest.length - limit + 1 := by omega
            rw [List.length_cons, excess, List.drop_succ_cons]
            exact @induction ⟨rest, store.map.erase key⟩ (aged.pop front)
              (Nat.lt_of_succ_lt_succ enough)

theorem evict (aged : Aged arrivals store) (limit : Nat) :
    Aged arrivals (store.evict limit) ∧
      (store.evict limit).order = store.order.drop (store.order.length - limit) :=
  aged.run_evictStep (Nat.lt_succ_self _)

theorem length_evict_le (aged : Aged arrivals store) (limit : Nat) :
    (store.evict limit).order.length ≤ limit := by
  rw [(aged.evict limit).2, List.length_drop]
  omega

/-- Storing an entry and making room keeps the newest entries, of the ones
stored before and the new one. -/
theorem byAge_evict_put (aged : Aged arrivals store) (key : κ) (value : β) (limit : Nat) :
    byAge ((store.put key value).evict limit).map.contains
        (arrivals ++ if key ∈ store.map then [] else [key]) =
      (byAge (fun other => decide (other = key) || store.map.contains other)
        (arrivals ++ if key ∈ store.map then [] else [key])).drop
      ((byAge (fun other => decide (other = key) || store.map.contains other)
        (arrivals ++ if key ∈ store.map then [] else [key])).length - limit) := by
  have stored := aged.put key value
  rcases stored.evict limit with ⟨kept, order⟩
  rw [← kept.order_eq, order, stored.order_eq, contains_put]

end Aged

end Store

end Irohsion.Queued
