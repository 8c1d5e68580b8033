import Mathlib.Logic.Basic

/-! # Loops that leave by `break`

A source loop is a step function whose result says whether the loop yields to
another round or is done. `run` gives it a bound on the number of rounds;
`run?` reports an exhausted bound, and `run?_eq_some` shows that a decreasing
measure makes the bound irrelevant.
-/

namespace Irohsion.BreakLoop

/-- Repeat `step` until it is done, at most `bound` times. -/
def run (step : σ → ForInStep σ) : (bound : Nat) → σ → σ
  | 0, state => state
  | bound + 1, state =>
      match step state with
      | .done final => final
      | .yield next => run step bound next

/-- The same loop, with `none` when the bound is used up before a `break`. -/
def run? (step : σ → ForInStep σ) : (bound : Nat) → σ → Option σ
  | 0, _ => none
  | bound + 1, state =>
      match step state with
      | .done final => some final
      | .yield next => run? step bound next

/-- A relation that contains every round and is reflexive and transitive
contains the whole loop. -/
theorem run_related {Related : σ → σ → Prop} {step : σ → ForInStep σ}
    (refl : ∀ state, Related state state)
    (trans : ∀ {first second third}, Related first second →
      Related second third → Related first third)
    (round : ∀ state, Related state (step state).value) :
    ∀ bound state, Related state (run step bound state)
  | 0, state => refl state
  | bound + 1, state => by
      have first := round state
      cases outcome : step state with
      | done final => simpa [run, outcome, ForInStep.value] using first
      | yield next =>
          have rest := run_related refl trans round bound next
          simp only [outcome, ForInStep.value] at first
          simpa [run, outcome] using trans first rest

/-- What every round preserves, the loop preserves. -/
theorem run_invariant {Invariant : σ → Prop} {step : σ → ForInStep σ}
    (round : ∀ state, Invariant state → Invariant (step state).value)
    (bound : Nat) (state : σ) (initial : Invariant state) :
    Invariant (run step bound state) :=
  @run_related _ (fun before after => Invariant before → Invariant after) step
    (fun _ holds => holds) (fun first second holds => second (first holds))
    round bound state initial

/-- What no round changes, the loop does not change. -/
theorem run_unchanged {τ : Type v} {step : σ → ForInStep σ} (view : σ → τ)
    (round : ∀ state, view (step state).value = view state) (bound : Nat) (state : σ) :
    view (run step bound state) = view state :=
  @run_related _ (fun before after => view after = view before) step
    (fun _ => rfl) (fun first second => second.trans first) round bound state

/-- What holds after the loop held before, if this is so for every round. -/
theorem of_run {Holds : σ → Prop} {step : σ → ForInStep σ}
    (round : ∀ state, Holds (step state).value → Holds state) (bound : Nat) (state : σ)
    (after : Holds (run step bound state)) : Holds state :=
  @run_related _ (fun before after => Holds after → Holds before) step
    (fun _ holds => holds) (fun first second holds => first (second holds))
    round bound state after

/-- A measure that falls in every yielding round bounds the loop: it leaves by
`break`, and `run` is its result. -/
theorem run?_eq_some {Invariant : σ → Prop} {step : σ → ForInStep σ}
    (measure : σ → Nat)
    (round : ∀ state next, Invariant state → step state = .yield next →
      Invariant next ∧ measure next < measure state) :
    ∀ bound state, Invariant state → measure state < bound →
      run? step bound state = some (run step bound state)
  | 0, _, _, positive => absurd positive (Nat.not_lt_zero _)
  | bound + 1, state, holds, bounded => by
      cases outcome : step state with
      | done final => simp [run, run?, outcome]
      | yield next =>
          rcases round state next holds outcome with ⟨nextHolds, smaller⟩
          have rest := run?_eq_some measure round bound next nextHolds (by omega)
          simpa [run, run?, outcome] using rest

/-- A loop that shortens a queue in every yielding round leaves by `break`. -/
theorem run?_queue {α : Type u} {step : σ → ForInStep σ} (queue : σ → List α)
    (shorter : ∀ state next, step state = .yield next →
      (queue next).length < (queue state).length) (state : σ) :
    run? step ((queue state).length + 1) state =
      some (run step ((queue state).length + 1) state) :=
  @run?_eq_some _ (fun _ => True) step (fun state => (queue state).length)
    (fun state next _ yields => ⟨trivial, shorter state next yields⟩)
    _ state trivial (Nat.lt_succ_self _)

/-- A loop that leaves by `break` does so after a number of rounds, from a state
that this many rounds lead to. -/
theorem run?_rounds {Counted : Nat → σ → Prop} {step : σ → ForInStep σ}
    (round : ∀ count state next, Counted count state → step state = .yield next →
      Counted (count + 1) next) :
    ∀ bound count state final, Counted count state → run? step bound state = some final →
      ∃ rounds last, Counted (count + rounds) last ∧ step last = .done final ∧
        run? step rounds state = none ∧ run? step (rounds + 1) state = some final
  | 0, _, _, _, _, impossible => nomatch impossible
  | bound + 1, count, state, final, counted, left => by
      cases outcome : step state with
      | done result =>
          simp only [run?, outcome, Option.some.injEq] at left
          subst left
          exact ⟨0, state, counted, outcome, rfl, by rw [run?, outcome]⟩
      | yield next =>
          simp only [run?, outcome] at left
          rcases run?_rounds round bound (count + 1) next final
            (round count state next counted outcome) left with
            ⟨rounds, last, lastCounted, exit, unfinished, finished⟩
          refine ⟨rounds + 1, last, ?_, exit, ?_, ?_⟩
          · rw [← Nat.add_assoc, Nat.add_right_comm]
            exact lastCounted
          · rw [run?, outcome]
            exact unfinished
          · rw [run?, outcome]
            exact finished

/-- A loop that leaves by `break` does so from a state with the invariant. -/
theorem run?_exit {Invariant : σ → Prop} {step : σ → ForInStep σ}
    (round : ∀ state next, Invariant state → step state = .yield next → Invariant next)
    (bound : Nat) (state final : σ) (holds : Invariant state)
    (left : run? step bound state = some final) :
    ∃ last, Invariant last ∧ step last = .done final := by
  rcases @run?_rounds _ (fun _ => Invariant) step (fun _ => round) bound 0 state final holds left
    with ⟨_, last, lastHolds, exit, -⟩
  exact ⟨last, lastHolds, exit⟩

/-! ## The rounds of a loop -/

/-- The states in which the loop starts a round. -/
inductive Visits (step : σ → ForInStep σ) (start : σ) : σ → Prop
  | start : Visits step start start
  | next {state next : σ} :
      Visits step start state → step state = .yield next → Visits step start next

/-- From each of them the loop comes to its result. -/
theorem Visits.run? {step : σ → ForInStep σ} {start state final : σ} {bound : Nat}
    (visits : Visits step start state) (left : run? step bound start = some final) :
    ∃ rest, run? step rest state = some final := by
  induction visits with
  | start => exact ⟨bound, left⟩
  | next _ yields induction =>
      rcases induction with ⟨_ | rest, remaining⟩
      · cases remaining
      · rw [BreakLoop.run?, yields] at remaining
        exact ⟨rest, remaining⟩

theorem Visits.invariant {Invariant : σ → Prop} {step : σ → ForInStep σ} {start state : σ}
    (visits : Visits step start state)
    (round : ∀ state, Invariant state → Invariant (step state).value)
    (initial : Invariant start) : Invariant state := by
  induction visits with
  | start => exact initial
  | @next before after _ yields induction =>
      have kept := round before induction
      rw [yields] at kept
      exact kept

theorem run_of_run? {step : σ → ForInStep σ} :
    ∀ {bound state final}, run? step bound state = some final → run step bound state = final
  | 0, _, _, impossible => nomatch impossible
  | bound + 1, state, final, left => by
      cases outcome : step state with
      | done result =>
          simp only [BreakLoop.run?, outcome, Option.some.injEq] at left
          rw [run, outcome, left]
      | yield next =>
          simp only [BreakLoop.run?, outcome] at left
          rw [run, outcome]
          exact run_of_run? left

/-- What a round brings about and later rounds keep, the loop has brought about. -/
theorem Visits.result {Reached : σ → Prop} {step : σ → ForInStep σ} {start state final : σ}
    {bound : Nat} (visits : Visits step start state) (left : BreakLoop.run? step bound start =
      some final) (here : Reached (step state).value)
    (round : ∀ state, Reached state → Reached (step state).value) : Reached final := by
  rcases visits.run? left with ⟨_ | rest, remaining⟩
  · cases remaining
  · have ran := run_of_run? remaining
    rw [run] at ran
    cases outcome : step state with
    | done result =>
        rw [outcome] at ran here
        exact ran ▸ here
    | yield next =>
        rw [outcome] at ran here
        exact ran ▸ run_invariant round rest next here

/-! ## Changing the state from outside -/

/-- The outcome of a round with its state changed. -/
def mapResult (change : σ → σ) : ForInStep σ → ForInStep σ
  | .done final => .done (change final)
  | .yield next => .yield (change next)

/-- A change that commutes with every round commutes with the loop. -/
theorem run_commutes {step : σ → ForInStep σ} {change : σ → σ}
    (round : ∀ state, step (change state) = mapResult change (step state)) :
    ∀ bound state, run step bound (change state) = change (run step bound state)
  | 0, _ => rfl
  | bound + 1, state => by
      rw [run, run, round state]
      cases step state with
      | done final => rfl
      | yield next => exact run_commutes round bound next

/-! ## Rounds that may fail -/

/-- The loop over rounds that may fail, which then fails as a whole. -/
def runChecked (step : σ → Option (ForInStep σ)) : (bound : Nat) → σ → Option σ
  | 0, state => some state
  | bound + 1, state =>
      match step state with
      | none => none
      | some (.done final) => some final
      | some (.yield next) => runChecked step bound next

/-- When no round fails under the invariant, the loop does not fail. -/
theorem runChecked_eq {Invariant : σ → Prop} {checked : σ → Option (ForInStep σ)}
    {step : σ → ForInStep σ}
    (agrees : ∀ state, Invariant state → checked state = some (step state))
    (round : ∀ state, Invariant state → Invariant (step state).value) :
    ∀ bound state, Invariant state → runChecked checked bound state = some (run step bound state)
  | 0, _, _ => rfl
  | bound + 1, state, holds => by
      have kept := round state holds
      rw [runChecked, agrees state holds, run]
      cases outcome : step state with
      | done final => rfl
      | yield next =>
          rw [outcome] at kept
          exact runChecked_eq agrees round bound next kept

end Irohsion.BreakLoop
