import Mathlib.Data.List.Basic

/-! # Loops over lists

Loops in `Option` that run over a list. Nested and indexed loops are brought to
a loop over one list, and a loop whose rounds all succeed succeeds.
-/

namespace Irohsion.ListLoops

/-! ## Folds -/

/-- A nested loop runs over all the inner items. -/
theorem foldlM_flatMap {State : Type u} {Item : Type v} {Part : Type w}
    (step : State → Part → Option State) (parts : Item → List Part) (items : List Item)
    (state : State) :
    (items.flatMap parts).foldlM step state =
      items.foldlM (fun state item => (parts item).foldlM step state) state := by
  induction items generalizing state with
  | nil => rfl
  | cons item rest induction =>
      rw [List.flatMap_cons, List.foldlM_append, List.foldlM_cons]
      exact congrArg _ (funext induction)

/-- A loop that looks up a value at each index runs over pairs. -/
theorem foldlM_zipIdx_getElem? {State : Type u} {Item : Type v} {Value : Type w}
    (step : State → Item → Value → Option State) {values : List Value} {items : List Item}
    {offset : Nat} (bound : offset + items.length ≤ values.length) (state : State) :
    (items.zipIdx offset).foldlM
        (fun state (item, index) => values[index]?.bind (step state item)) state =
      (items.zip (values.drop offset)).foldlM
        (fun state (item, value) => step state item value) state := by
  induction items generalizing offset state with
  | nil => rfl
  | cons item rest induction =>
      rw [List.length_cons] at bound
      have inBounds : offset < values.length := by omega
      rw [List.drop_eq_getElem_cons inBounds, List.zip_cons_cons, List.zipIdx_cons,
        List.foldlM_cons, List.foldlM_cons]
      dsimp only
      rw [List.getElem?_eq_getElem inBounds, Option.bind_some]
      exact congrArg _ (funext fun state => induction (by omega) state)

/-- What the successful rounds preserve, a successful loop preserves. -/
theorem foldlM_invariant {State : Type u} {Item : Type v} {Invariant : State → Prop}
    {step : State → Item → Option State} {items : List Item}
    (round : ∀ item ∈ items, ∀ {state next}, step state item = some next →
      Invariant state → Invariant next)
    {state final : State} (finished : items.foldlM step state = some final)
    (holds : Invariant state) : Invariant final := by
  induction items generalizing state with
  | nil =>
      cases finished
      exact holds
  | cons item rest induction =>
      rw [List.foldlM_cons] at finished
      rcases Option.bind_eq_some_iff.mp finished with ⟨next, stepped, finished⟩
      exact induction (fun other member => round other (List.mem_cons_of_mem _ member)) finished
        (round item List.mem_cons_self stepped holds)

theorem pairwise_zipIdx {α : Type u} (items : List α) :
    items.zipIdx.Pairwise fun left right => left.2 < right.2 := by
  rw [← List.pairwise_map, List.zipIdx_map_snd]
  exact List.pairwise_lt_range'

/-! ## Traversals -/

theorem mapM_id_map_some {α : Type u} (items : List α) :
    (items.map some).mapM id = some items := by
  rw [List.mapM_map]
  exact List.mapM_pure.trans (congrArg some (List.map_id items))

/-- A key of the results that each item determines is that of all results. -/
theorem map_of_mapM {α : Type u} {β : Type v} {γ : Type w} {step : α → Option β}
    {key : β → γ} {expected : α → γ} {items : List α} {results : List β}
    (computed : items.mapM step = some results)
    (each : ∀ item ∈ items, ∀ {result}, step item = some result → key result = expected item) :
    results.map key = items.map expected := by
  induction items generalizing results with
  | nil =>
      cases computed
      rfl
  | cons item rest induction =>
      rw [List.mapM_cons] at computed
      rcases Option.bind_eq_some_iff.mp computed with ⟨result, stepped, traversed⟩
      rcases Option.bind_eq_some_iff.mp traversed with ⟨others, rest, same⟩
      cases same
      rw [List.map_cons, List.map_cons, each item List.mem_cons_self stepped,
        induction rest fun other member => each other (List.mem_cons_of_mem _ member)]

/-- When every item gives a result, so does the traversal. What holds of each
result holds of them all. -/
theorem exists_mapM {α : Type u} {β : Type v} {γ : Type w} {step : α → Option β}
    {key : β → γ} {expected : α → γ} {Allowed : β → Prop} {items : List α}
    (each : ∀ item ∈ items, ∃ result, step item = some result ∧
      key result = expected item ∧ Allowed result) :
    ∃ results, items.mapM step = some results ∧ results.map key = items.map expected ∧
      ∀ result ∈ results, Allowed result := by
  induction items with
  | nil => exact ⟨[], rfl, rfl, nofun⟩
  | cons item rest induction =>
      rcases each item List.mem_cons_self with ⟨result, stepped, same, allowed⟩
      rcases induction fun other member => each other (List.mem_cons_of_mem _ member) with
        ⟨results, all, keys, allowedRest⟩
      refine ⟨result :: results, ?_, ?_, List.forall_mem_cons.mpr ⟨allowed, allowedRest⟩⟩
      · rw [List.mapM_cons, stepped, all]
        rfl
      · rw [List.map_cons, same, keys, List.map_cons]

end Irohsion.ListLoops
