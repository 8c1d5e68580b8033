import Irohsion.Server.RecoveringFlow

/-! # A network that loses packets

When parity gives back in time what the network loses, the loop hides the losses:
every position that peeling the arrived parity frames gives back is forwarded in
its turn, and nothing is skipped.
-/

namespace Irohsion.Server

open Protocol Std

variable {config : ReorderConfig} {broadcast : Broadcast} {schedule : Schedule}
variable {first width gap : Nat} {arrived inputs rest : List TimedInput}
variable {since now last : Instant} {state final : ReorderState}

/-- The network may lose, repeat and reorder frames, but a position that has been under
way for the reorder delay can be obtained from what has arrived before. Parity frames
arrive before the first member of their group has been under way for so long. -/
structure Mended (config : ReorderConfig) (schedule : Schedule) (first : Nat)
    (inputs : List TimedInput) : Prop where
  opens : ∃ earlier opening packet later, inputs = earlier ++ opening :: later ∧
    (∀ timed ∈ earlier, ∀ other, timed.input ≠ .frame (.packet other)) ∧
    opening.input = .frame (.packet packet) ∧ packet.header.sequence = first ∧
    opening.now < schedule.sentAt first + config.maxReorderDelay
  sent : ∀ timed ∈ inputs, timed.Admitted (ReceivedFrame.About (schedule.Sent timed.now))
  recent : ∀ timed ∈ inputs, ∀ packet, timed.input = .frame (.packet packet) → ∀ later,
    schedule.Sent timed.now later → later + 1 < packet.header.sequence + restartBackwardGap
  early : ∀ timed ∈ inputs, ∀ fec, timed.input = .frame (.fec fec) →
    timed.now < schedule.sentAt fec.frame.baseSequence + config.maxReorderDelay
  inTime : ∀ timed ∈ inputs, ∀ sequence, first ≤ sequence → sequence ≤ schedule.last →
    schedule.sentAt sequence + config.maxReorderDelay ≤ timed.now →
    Obtainable first (inputs.filter fun other =>
      other.now < schedule.sentAt sequence + config.maxReorderDelay) sequence
  steady : NeverSilent config inputs

theorem TimedRun.le_last (run : TimedRun config since state rest last final) :
    since ≤ last ∧ ∀ timed ∈ rest, timed.now ≤ last := by
  induction run with
  | done => exact ⟨Nat.le_refl _, List.forall_mem_nil _⟩
  | round later _ _ _ _ induction =>
      rw [List.forall_mem_cons]
      exact ⟨Nat.le_trans later induction.1, induction.1, induction.2⟩

theorem Grouped.mono {fewer : List TimedInput} (grouped : Grouped first width gap inputs)
    (within : ∀ timed ∈ fewer, timed ∈ inputs) : Grouped first width gap fewer := by
  have arrived : ∀ frame, ParityArrived fewer frame → ParityArrived inputs frame := by
    rintro frame ⟨timed, member, rest⟩
    exact ⟨timed, within timed member, rest⟩
  exact ⟨fun frame parity => grouped.near frame (arrived frame parity),
    fun frame other parity otherParity =>
      grouped.spaced frame other (arrived frame parity) (arrived other otherParity),
    grouped.room⟩

/-- The rounds before the first packet. -/
theorem Gathering.run (run : TimedRun config since state rest last final)
    (gathering : Gathering broadcast arrived since state)
    (pace : Pace config broadcast.toSchedule width)
    (grouped : Grouped first width gap (arrived ++ rest))
    (early : last < broadcast.sentAt first + config.maxReorderDelay)
    (honest : ∀ timed ∈ rest, timed.Admitted (Honest broadcast.content))
    (sent : ∀ timed ∈ rest, timed.Admitted (ReceivedFrame.About (broadcast.Sent timed.now)))
    (silent : ∀ timed ∈ rest, ∀ packet, timed.input ≠ .frame (.packet packet)) :
    Gathering broadcast (arrived ++ rest) last final := by
  induction run generalizing arrived with
  | done =>
      rw [List.append_nil]
      exact gathering
  | round later _ _ stepped run induction =>
      rw [List.forall_mem_cons] at honest sent silent
      rw [List.append_cons] at grouped ⊢
      have before := Nat.lt_of_le_of_lt run.le_last.1 early
      have next := gathering.reorderStep pace
        (grouped.mono fun _ member => List.mem_append_left _ member) later before honest.1 sent.1
        silent.1 stepped
      exact induction next grouped early honest.2 sent.2 silent.2

/-- The rounds of the flow, as long as what is due can be obtained. -/
theorem Recovering.run (run : TimedRun config since state rest last final)
    (recovering : Recovering config broadcast first width arrived since state)
    (pace : Pace config broadcast.toSchedule width)
    (grouped : Grouped first width gap (arrived ++ rest))
    (onward : Onward config broadcast since rest)
    (early : ∀ timed ∈ rest, ∀ fec, timed.input = .frame (.fec fec) →
      timed.now < broadcast.sentAt fec.frame.baseSequence + config.maxReorderDelay)
    (due : ∀ {earlier timed later}, rest = earlier ++ timed :: later → ∀ sequence,
      first ≤ sequence → Overdue config broadcast.toSchedule timed.now sequence →
      Obtainable first (arrived ++ earlier) sequence) :
    Recovering config broadcast first width (arrived ++ rest) last final := by
  induction run generalizing arrived with
  | done =>
      rw [List.append_nil]
      exact recovering
  | @round since _ state next _ timed _ later _ expires stepped _ induction =>
      rw [List.forall_mem_cons] at early
      have now := @due [] timed _ rfl
      rw [List.append_nil] at now
      rw [List.append_cons] at grouped ⊢
      have stepped := recovering.reorderStep pace
        (grouped.mono fun _ member => List.mem_append_left _ member) onward later expires now
        early.1 stepped
      apply induction stepped grouped onward.tail early.2
      intro earlier other others split sequence within overdue
      have obtainable := @due (timed :: earlier) other others
        (congrArg (List.cons timed) split) sequence within overdue
      rw [List.append_assoc]
      exact obtainable

/-- What is due when a round begins can be obtained from what has arrived before. -/
theorem Mended.due (mended : Mended config schedule first inputs)
    (run : TimedRun config since state inputs last final) {earlier later : List TimedInput}
    {timed : TimedInput} (split : inputs = earlier ++ timed :: later) {sequence : Nat}
    (within : first ≤ sequence) (overdue : Overdue config schedule timed.now sequence) :
    Obtainable first earlier sequence := by
  have member : timed ∈ inputs := by
    rw [split]
    exact List.mem_append_right _ List.mem_cons_self
  apply (mended.inTime timed member sequence within overdue.1 overdue.2).mono
  intro other inTime
  rcases List.mem_filter.mp inTime with ⟨other_mem, before⟩
  exact run.arrived_before split other_mem
    (Nat.lt_of_lt_of_le (of_decide_eq_true before) overdue.2)

theorem Mended.recovering (run : TimedRun config 0 .initial inputs last final)
    (honest : ∀ timed ∈ inputs, timed.Admitted (Honest broadcast.content))
    (pace : Pace config broadcast.toSchedule width) (grouped : Grouped first width gap inputs)
    (mended : Mended config broadcast.toSchedule first inputs) :
    Recovering config broadcast first width inputs last final := by
  have due := fun {earlier timed later} split sequence =>
    @Mended.due config _ first inputs 0 last .initial final mended run earlier later
      timed split sequence
  rcases mended.opens with ⟨earlier, opening, packet, rest, split, silent, receives, rfl, before⟩
  have sent := mended.sent
  have recent := mended.recent
  have steady := mended.steady earlier opening packet rest split receives
  have early := mended.early
  rw [split] at honest sent recent early grouped
  rw [split] at run
  rw [List.forall_mem_append, List.forall_mem_cons] at honest sent recent early
  rcases run.split with ⟨since, reached, gathers, run⟩
  cases run with
  | round later _ _ stepped run =>
      have gathered := (Gathering.initial broadcast).run gathers pace
        (grouped.mono fun _ member => List.mem_append_left _ member)
        (Nat.lt_of_le_of_lt later before) honest.1 sent.1 silent
      rw [List.nil_append] at gathered
      have opened := gathered.opens pace later silent honest.1 receives (honest.2.1 _ receives)
        (sent.2.1 _ receives) before stepped
      have onward : Onward config broadcast opening.now rest :=
        ⟨honest.2.2, sent.2.2, recent.2.2, steady⟩
      rw [List.append_cons] at grouped
      have ended := opened.run run pace grouped onward early.2.2 (by
        intro front timed back others
        apply @due _ _ back
        rw [split, others, List.append_assoc, List.append_assoc]
        rfl)
      rw [← List.append_cons, ← split] at ended
      exact ended

end Irohsion.Server
