import Mathlib.Data.List.Induction
import Mathlib.Data.List.Iterate
import Mathlib.Algebra.BigOperators.Group.List.Basic
import Mathlib.Algebra.Order.Group.Multiset
import Mathlib.Tactic.Abel

/-! # In-order delivery

An abstract receiver. It has one current position and a bag of complete
payloads that wait for their turn. Each event either passes the current
position, by forwarding the payload held for it or by skipping it when none is
held, or starts a new flow.
-/

namespace Irohsion.InOrder

inductive Event (α : Type u) (β : Type v)
  | start (position : α)
  | restart (position : α) (discarded : List (α × β))
  | accept (position : α) (payload : β)
  | forward (position : α) (payload : β)
  | skip (position : α)

structure Receiver (α : Type u) (β : Type v) where
  position : α
  held : Multiset (α × β)

/-- No payload waits at the position. -/
def Receiver.Free (receiver : Receiver α β) (position : α) : Prop :=
  ∀ payload, (position, payload) ∉ receiver.held

inductive Step (next : α → α) : Receiver α β → Event α β → Receiver α β → Prop
  | start {before position} :
      Step next ⟨before, 0⟩ (.start position) ⟨position, 0⟩
  | restart {before discarded position} :
      Step next ⟨before, Multiset.ofList discarded⟩ (.restart position discarded) ⟨position, 0⟩
  | accept {receiver position payload} :
      receiver.Free position →
      Step next receiver (.accept position payload)
        ⟨receiver.position, (position, payload) ::ₘ receiver.held⟩
  | forward {position payload held} :
      Step next ⟨position, (position, payload) ::ₘ held⟩ (.forward position payload)
        ⟨next position, held⟩
  | skip {receiver} :
      receiver.Free receiver.position →
      Step next receiver (.skip receiver.position) ⟨next receiver.position, receiver.held⟩

inductive Transitions (next : α → α) (initial : Receiver α β) :
    List (Event α β) → Receiver α β → Prop
  | nil : Transitions next initial [] initial
  | snoc {middle final log event} :
      Transitions next initial log middle →
      Step next middle event final →
      Transitions next initial (log ++ [event]) final

namespace Transitions

variable {next : α → α} {initial middle final : Receiver α β} {log rest : List (Event α β)}

theorem eq_of_nil (transitions : Transitions next initial [] final) : initial = final := by
  generalize events : ([] : List (Event α β)) = log at transitions
  cases transitions with
  | nil => rfl
  | snoc _ _ => simp at events

theorem of_snoc {event : Event α β}
    (transitions : Transitions next initial (log ++ [event]) final) :
    ∃ middle, Transitions next initial log middle ∧ Step next middle event final := by
  generalize events : log ++ [event] = whole at transitions
  cases transitions with
  | nil => simp at events
  | snoc first step =>
      rcases List.append_inj' events rfl with ⟨rfl, equal⟩
      cases List.singleton_inj.mp equal
      exact ⟨_, first, step⟩

/-- A log can be cut anywhere. -/
theorem split (transitions : Transitions next initial (log ++ rest) final) :
    ∃ middle, Transitions next initial log middle ∧ Transitions next middle rest final := by
  induction rest using List.reverseRecOn generalizing final with
  | nil => exact ⟨final, by simpa using transitions, .nil⟩
  | append_singleton rest event induction =>
      rw [← List.append_assoc] at transitions
      rcases transitions.of_snoc with ⟨beforeLast, first, step⟩
      rcases induction first with ⟨middle, front, back⟩
      exact ⟨middle, front, back.snoc step⟩

end Transitions

/-! ## What a log accepts, forwards and discards -/

def Event.accepted : Event α β → Multiset (α × β)
  | .accept position payload => {(position, payload)}
  | _ => 0

def Event.forwarded : Event α β → Multiset (α × β)
  | .forward position payload => {(position, payload)}
  | _ => 0

def Event.discarded : Event α β → Multiset (α × β)
  | .restart _ discarded => Multiset.ofList discarded
  | _ => 0

def accepted (log : List (Event α β)) : Multiset (α × β) := (log.map Event.accepted).sum

def forwarded (log : List (Event α β)) : Multiset (α × β) := (log.map Event.forwarded).sum

def discarded (log : List (Event α β)) : Multiset (α × β) := (log.map Event.discarded).sum

theorem Step.conservation {next : α → α} {before after : Receiver α β} {event : Event α β}
    (step : Step next before event after) :
    before.held + event.accepted = event.forwarded + event.discarded + after.held := by
  cases step <;>
    simp [Event.accepted, Event.forwarded, Event.discarded, ← Multiset.singleton_add, add_comm]

/-- Every accepted payload has been forwarded, discarded or is still held, and
each copy exactly once. -/
theorem Transitions.conservation {next : α → α} {initial final : Receiver α β}
    {log : List (Event α β)} (transitions : Transitions next initial log final) :
    initial.held + accepted log = forwarded log + discarded log + final.held := by
  induction transitions with
  | nil => simp [accepted, forwarded, discarded]
  | @snoc middle final log event _ step induction =>
      have last := step.conservation
      simp only [accepted, forwarded, discarded, List.map_append, List.sum_append,
        List.map_singleton, List.sum_singleton] at induction ⊢
      rw [← add_assoc, induction, add_assoc, last]
      abel

/-- A position is skipped only while every payload accepted for it so far has
already been forwarded or discarded. -/
theorem Transitions.skip_free {next : α → α} {initial final : Receiver α β}
    {before after : List (Event α β)} {position : α} (empty : initial.held = 0)
    (transitions : Transitions next initial (before ++ .skip position :: after) final)
    {payload : β} [DecidableEq (α × β)] :
    (accepted before).count (position, payload) =
      (forwarded before).count (position, payload) +
        (discarded before).count (position, payload) := by
  rcases transitions.split with ⟨middle, front, back⟩
  have skipFirst : Event.skip position :: after = [Event.skip position] ++ after := rfl
  rw [skipFirst] at back
  rcases back.split with ⟨_, first, _⟩
  rw [← List.nil_append [Event.skip position]] at first
  rcases first.of_snoc with ⟨start, unchanged, step⟩
  cases unchanged.eq_of_nil
  have balance := front.conservation
  rw [empty, zero_add] at balance
  rw [balance, Multiset.count_add, Multiset.count_add]
  cases step with
  | skip free =>
      rw [Multiset.count_eq_zero_of_notMem (free payload), add_zero]

/-! ## The current flow -/

/-- The origin of the current flow and the positions passed since, in order. -/
def flowAfter : Option (α × List α) → Event α β → Option (α × List α)
  | _, .start position => some (position, [])
  | _, .restart position _ => some (position, [])
  | flow, .accept _ _ => flow
  | flow, .forward position _ => flow.map fun (origin, passed) => (origin, passed ++ [position])
  | flow, .skip position => flow.map fun (origin, passed) => (origin, passed ++ [position])

def flow (log : List (Event α β)) : Option (α × List α) := log.foldl flowAfter none

/-- The passed positions are the iterates of the origin, one event for each,
and the receiver stands at the iterate after the last. -/
def InStep (next : α → α) (receiver : Receiver α β) (flow : α × List α) : Prop :=
  flow.2 = List.iterate next flow.1 flow.2.length ∧
    receiver.position = next^[flow.2.length] flow.1

theorem iterate_append_singleton (next : α → α) (origin : α) (count : Nat) :
    List.iterate next origin count ++ [next^[count] origin] =
      List.iterate next origin (count + 1) := by
  rw [List.iterate_add]
  rfl

theorem InStep.pass {next : α → α} {receiver : Receiver α β} {origin : α} {passed : List α}
    {held : Multiset (α × β)} (inStep : InStep next receiver (origin, passed)) :
    InStep next ⟨next receiver.position, held⟩ (origin, passed ++ [receiver.position]) := by
  rcases inStep with ⟨iterates, position⟩
  simp only at iterates position
  constructor
  · simp only [List.length_append, List.length_singleton]
    rw [← iterate_append_singleton, ← iterates, position]
  · simp only [List.length_append, List.length_singleton]
    rw [Function.iterate_succ_apply', position]

theorem Transitions.inStep {next : α → α} {initial final : Receiver α β}
    {log : List (Event α β)} (transitions : Transitions next initial log final) :
    ∀ current, flow log = some current → InStep next final current := by
  induction transitions with
  | nil => simp [flow]
  | @snoc middle final log event _ step induction =>
      intro current found
      simp only [flow, List.foldl_append, List.foldl_cons, List.foldl_nil] at found induction
      cases step with
      | start | restart =>
          cases Option.some.inj found
          exact ⟨rfl, rfl⟩
      | accept _ => exact induction current found
      | forward | skip _ =>
          rcases Option.map_eq_some_iff.mp found with ⟨⟨origin, passed⟩, earlier, rfl⟩
          exact (induction _ earlier).pass

end Irohsion.InOrder
