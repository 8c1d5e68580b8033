import Irohsion.Server.AwaitedRepairs
import Irohsion.Server.Forwarding

/-! # Positions that are sent in order

A sender that sends the positions of a flow one after the other, and what the
window makes of the frames that have arrived. As long as every position that is
due is passed or buffered, no window move skips one.
-/

namespace Irohsion.Server

open Protocol Std

/-! ## What is sent and what arrives -/

/-- When the positions of a flow that does not wrap are sent. -/
structure Schedule where
  last : Nat
  last_lt : last < maxMediaSequence
  sentAt : Nat → Instant
  sentAt_le : ∀ {earlier later : Nat}, earlier ≤ later → sentAt earlier ≤ sentAt later

/-- A schedule with the content that it sends. -/
structure Broadcast extends Schedule where
  content : Content

namespace Schedule

variable {schedule : Schedule} {before now : Instant} {sequence other : Nat}

/-- The position has been sent. -/
def Sent (schedule : Schedule) (now : Instant) (sequence : Nat) : Prop :=
  sequence ≤ schedule.last ∧ schedule.sentAt sequence ≤ now

instance (schedule : Schedule) (now : Instant) (sequence : Nat) :
    Decidable (schedule.Sent now sequence) :=
  inferInstanceAs (Decidable (_ ∧ _))

theorem Sent.later (sent : schedule.Sent before sequence) (later : before ≤ now) :
    schedule.Sent now sequence :=
  ⟨sent.1, Nat.le_trans sent.2 later⟩

theorem Sent.earlier (sent : schedule.Sent now sequence) (earlier : other ≤ sequence) :
    schedule.Sent now other :=
  ⟨Nat.le_trans earlier sent.1, Nat.le_trans (schedule.sentAt_le earlier) sent.2⟩

theorem nextSequence_eq (schedule : Schedule) (inRange : sequence ≤ schedule.last) :
    nextSequence sequence = sequence + 1 := by
  have wraps := schedule.last_lt
  rw [nextSequence, if_neg (by omega)]

end Schedule

/-- The payload of the position, if it is sent already. -/
def Broadcast.Offers (broadcast : Broadcast) (now : Instant) (sequence : Nat) (payload : Bytes) :
    Prop :=
  broadcast.Sent now sequence ∧ Supplies broadcast.content sequence payload

/-- A packet with this header has arrived. -/
def Arrived (inputs : List TimedInput) (header : PacketHeader) : Prop :=
  ∃ timed ∈ inputs, ∃ packet, timed.input = .frame (.packet packet) ∧ packet.header = header

/-- All parts of the position have arrived, however it was split. -/
def Complete (inputs : List TimedInput) (sequence : Nat) : Prop :=
  ∃ fragments, 0 < fragments ∧
    ∀ fragment < fragments, Arrived inputs ⟨sequence, fragment, fragments⟩

/-- The positions from `first` to the one before `next`, with their payloads. -/
def Broadcast.between (broadcast : Broadcast) (first next : Nat) : List (Nat × Bytes) :=
  (List.range' first (next - first)).map fun sequence =>
    (sequence, broadcast.content.payload sequence)

theorem Broadcast.between_succ (broadcast : Broadcast) {first next : Nat} (within : first ≤ next) :
    broadcast.between first (next + 1) =
      broadcast.between first next ++ [(next, broadcast.content.payload next)] := by
  have length : next + 1 - first = next - first + 1 := by omega
  have last : first + (next - first) = next := by omega
  rw [between, length, List.range'_1_concat, List.map_append, last]
  rfl

/-- The position has been under way for the reorder delay. -/
def Overdue (config : ReorderConfig) (schedule : Schedule) (now : Instant) (sequence : Nat) :
    Prop :=
  sequence ≤ schedule.last ∧ schedule.sentAt sequence + config.maxReorderDelay ≤ now

/-- The position is passed or complete. -/
def ReorderState.Settled (state : ReorderState) (sequence : Nat) : Prop :=
  sequence < state.nextSeq ∨ sequence ∈ state.buffered

/-- The part has its place: its position is settled, or its slot is filled. -/
def ReorderState.Took (state : ReorderState) (header : PacketHeader) : Prop :=
  state.Settled header.sequence ∨
    header.fragments ≠ 1 ∧ state.HoldsFragment header.sequence header.fragment

/-! ## The window -/

/-- The positions from `first` to `next_seq` have all been forwarded, and those that
are due are settled. -/
structure OnTime (config : ReorderConfig) (broadcast : Broadcast) (first : Nat) (now : Instant)
    (state : ReorderState) : Prop where
  intact : Intact broadcast.content state
  first_le : first ≤ state.nextSeq
  opened : broadcast.Sent now first
  passed : ∀ sequence, first ≤ sequence → sequence < state.nextSeq → broadcast.Sent now sequence
  pending : ∀ {sequence since}, state.Pending sequence since →
    broadcast.Sent since sequence ∧ since ≤ now
  frames : ∀ {base : Nat} {frame : FecFrame}, state.fecState.frames[base]? = some frame →
    Over (broadcast.Sent now) frame
  overdue : ∀ sequence, first ≤ sequence → Overdue config broadcast.toSchedule now sequence →
    state.Settled sequence
  forwarded : forwards state.trace = broadcast.between first state.nextSeq
  unskipped : ∀ sequence reason, .skip sequence reason ∉ state.trace

/-- All that has arrived agrees with the content and has its place. -/
structure Taken (content : Content) (arrived : List TimedInput) (state : ReorderState) : Prop where
  honest : ∀ timed ∈ arrived, timed.Admitted (Honest content)
  took : ∀ header, Arrived arrived header → state.Took header

variable {config : ReorderConfig} {broadcast : Broadcast} {content : Content} {first : Nat}
variable {arrived : List TimedInput} {now : Instant} {state before after : ReorderState}
variable {Source : Nat → Bytes → Prop}

/-! ### What a move does to parts and settled positions -/

theorem SameContent.holdsFragment (same : SameContent before.fragments after.fragments)
    {sequence fragment : Nat} (held : before.HoldsFragment sequence fragment) :
    after.HoldsFragment sequence fragment := by
  rcases held with ⟨assembly, payload, found, filled⟩
  have equal := same sequence
  rw [found, Option.map_some, Option.map_eq_some_iff] at equal
  rcases equal with ⟨updated, present, content⟩
  have slots : updated.fragments = assembly.fragments := congrArg Prod.fst content
  exact ⟨updated, payload, present, slots ▸ filled⟩

theorem ReorderState.HoldsFragment.erase {sequence fragment erased : Nat}
    (held : before.HoldsFragment sequence fragment)
    (fragments : after.fragments = before.fragments.erase erased) (different : erased ≠ sequence) :
    after.HoldsFragment sequence fragment := by
  rcases held with ⟨assembly, payload, found, filled⟩
  refine ⟨assembly, payload, ?_, filled⟩
  rw [fragments, OrderedMap.getElem?_erase_of_ne different]
  exact found

theorem lt_nextSequence {sequence : Nat} (later : sequence ≤ nextSequence sequence) :
    sequence < nextSequence sequence := by
  rw [nextSequence] at later ⊢
  split at later
  · rename_i wraps
    have last : maxMediaSequence ≠ 0 := by decide
    omega
  · rename_i inRange
    rw [if_neg inRange]
    omega

namespace WindowMove

/-- What is settled stays settled while the position does not go back. -/
theorem settled (move : WindowMove config now Source before after) {sequence : Nat}
    (settled : before.Settled sequence) (later : before.nextSeq ≤ after.nextSeq) :
    after.Settled sequence := by
  rcases settled with passed | held
  · exact Or.inl (Nat.lt_of_lt_of_le passed later)
  · cases move with
    | @drain packet _ =>
        by_cases same : sequence = before.nextSeq
        · exact Or.inl (same ▸ lt_nextSequence later)
        · exact Or.inr (OrderedMap.mem_erase_iff.mpr ⟨same, held⟩)
    | @settle accepted payload _ _ _ =>
        by_cases expected : accepted = before.nextSeq
        · rw [settle_of_expected now payload expected]
          exact Or.inr held
        · rw [settle_of_ahead now payload expected]
          exact Or.inr (OrderedMap.mem_insert_iff.mpr (Or.inr held))
    | report _ _ | search | request _ _ | skipFragment _ _ _ | skipMissing _ _ _ _ =>
        exact Or.inr held

/-- A part stays, or its position is settled. -/
theorem holdsFragment (move : WindowMove config now Source before after) {sequence fragment : Nat}
    (part : before.HoldsFragment sequence fragment) (later : before.nextSeq ≤ after.nextSeq) :
    after.Settled sequence ∨ after.HoldsFragment sequence fragment := by
  cases move with
  | report _ _ | search | drain _ | skipMissing _ _ _ _ => exact Or.inr part
  | request _ same => exact Or.inr (same.holdsFragment part)
  | @settle accepted payload _ _ _ =>
      by_cases expected : accepted = before.nextSeq
      · rw [settle_of_expected now payload expected] at later ⊢
        by_cases same : sequence = before.nextSeq
        · exact Or.inl (Or.inl (same ▸ lt_nextSequence later))
        · exact Or.inr (part.erase rfl (expected ▸ Ne.symm same))
      · rw [settle_of_ahead now payload expected]
        by_cases same : sequence = accepted
        · exact Or.inl (Or.inr (OrderedMap.mem_insert_iff.mpr (Or.inl same)))
        · exact Or.inr (part.erase rfl (Ne.symm same))
  | skipFragment _ _ _ =>
      by_cases same : sequence = before.nextSeq
      · exact Or.inl (Or.inl (same ▸ lt_nextSequence later))
      · exact Or.inr (part.erase rfl (Ne.symm same))

theorem took (move : WindowMove config now Source before after) {header : PacketHeader}
    (took : before.Took header) (later : before.nextSeq ≤ after.nextSeq) : after.Took header := by
  rcases took with done | ⟨several, part⟩
  · exact Or.inl (move.settled done later)
  · exact (move.holdsFragment part later).imp_right fun kept => ⟨several, kept⟩

end WindowMove

/-! ### Everything that is due is settled -/

namespace OnTime

/-- Nothing has waited for too long while the head position is not buffered. -/
theorem not_skips (onTime : OnTime config broadcast first now state) (wellFormed : WellFormed state)
    (absent : state.nextSeq ∉ state.buffered) {position : Nat} {since : Instant}
    (pending : state.Pending position since) : ¬ config.maxReorderDelay ≤ since.elapsed now := by
  intro old
  rcases onTime.pending pending with ⟨sent, before⟩
  have head := sent.earlier (wellFormed.pending_ahead pending)
  have expired : broadcast.sentAt state.nextSeq + config.maxReorderDelay ≤ now :=
    Nat.le_trans (Nat.add_le_add_right head.2 _) (Nat.add_le_of_le_sub' before old)
  rcases onTime.overdue _ onTime.first_le ⟨head.1, expired⟩ with passed | held
  · exact Nat.lt_irrefl _ passed
  · exact absent held

/-- No move goes back. -/
theorem le_nextSeq (onTime : OnTime config broadcast first now before)
    (wellFormed : WellFormed before)
    (move : WindowMove config now (broadcast.Offers now) before after) :
    before.nextSeq ≤ after.nextSeq := by
  rcases move.outcome with ⟨absent, waits, old, -, -⟩ |
    @⟨effects, payload, -, -, -, position, source⟩ | @⟨effects, -, -, -, position⟩
  · exact absurd old (onTime.not_skips wellFormed absent waits)
  · have head : before.nextSeq ≤ broadcast.last := by
      rcases source with ⟨packet, found, rfl⟩ | offered
      · exact (onTime.pending (Or.inl ⟨packet, found, rfl⟩)).1.1
      · exact offered.1.1
    rw [position, broadcast.nextSequence_eq head]
    exact Nat.le_succ _
  · exact Nat.le_of_eq position.symm

theorem windowMove (onTime : OnTime config broadcast first now before)
    (wellFormed : WellFormed before)
    (move : WindowMove config now (broadcast.Offers now) before after) :
    OnTime config broadcast first now after := by
  have intact := onTime.intact.windowMove (move.mono And.right)
  have pending : ∀ {sequence since}, after.Pending sequence since →
      broadcast.Sent since sequence ∧ since ≤ now := by
    intro sequence since waits
    rcases move.pending waits with earlier | ⟨rfl, payload, offered⟩
    · exact onTime.pending earlier
    · exact ⟨offered.1, Nat.le_refl _⟩
  have frames : ∀ {base : Nat} {frame : FecFrame}, after.fecState.frames[base]? = some frame →
      Over (broadcast.Sent now) frame := fun found => onTime.frames (move.frames found)
  have overdue : ∀ sequence, first ≤ sequence →
      Overdue config broadcast.toSchedule now sequence → after.Settled sequence :=
    fun sequence within late =>
      move.settled (onTime.overdue sequence within late) (onTime.le_nextSeq wellFormed move)
  rcases move.outcome with ⟨absent, waits, old, -, -⟩ |
    @⟨effects, payload, trace, unskipped, one, position, source⟩ |
    @⟨effects, trace, unskipped, none, position⟩
  · exact absurd old (onTime.not_skips wellFormed absent waits)
  · have head : broadcast.Offers now before.nextSeq payload := by
      rcases source with ⟨packet, found, rfl⟩ | offered
      · rcases onTime.pending (Or.inl ⟨packet, found, rfl⟩) with ⟨sent, earlier⟩
        exact ⟨sent.later earlier, onTime.intact.buffered found⟩
      · exact offered
    rw [broadcast.nextSequence_eq head.1.1] at position
    refine ⟨intact, ?_, onTime.opened, ?_, pending, frames, overdue, ?_, ?_⟩
    · exact position ▸ Nat.le_succ_of_le onTime.first_le
    · intro sequence within behind
      rw [position, Nat.lt_succ_iff] at behind
      exact head.1.earlier behind
    · rw [trace, forwards_append, onTime.forwarded, one, position, head.2]
      exact (broadcast.between_succ onTime.first_le).symm
    · intro sequence reason member
      rw [trace] at member
      exact (List.mem_append.mp member).elim (onTime.unskipped _ _) (unskipped _ _)
  · refine ⟨intact, ?_, onTime.opened, ?_, pending, frames, overdue, ?_, ?_⟩
    · exact position ▸ onTime.first_le
    · rw [position]
      exact onTime.passed
    · rw [trace, forwards_append, onTime.forwarded, none, position, List.append_nil]
    · intro sequence reason member
      rw [trace] at member
      exact (List.mem_append.mp member).elim (onTime.unskipped _ _) (unskipped _ _)

/-- What parity gives back was sent, and is right. -/
theorem recovered (onTime : OnTime config broadcast first now state) {sequence : Nat}
    {payload : Bytes} (member : (sequence, payload) ∈
      (state.fecState.recoverReady state.nextSeq state.buffered).2) :
    broadcast.Offers now sequence payload :=
  ⟨over_of_recovered onTime.frames member, onTime.intact.recovered member⟩

end OnTime

/-- While everything that is due is settled, the window keeps on time. -/
theorem onTime_invariant :
    ActiveInvariant config now (broadcast.Offers now) (OnTime config broadcast first now) where
  move wellFormed _ move onTime := onTime.windowMove wellFormed move
  recovered _ onTime member := onTime.recovered member

end Irohsion.Server
