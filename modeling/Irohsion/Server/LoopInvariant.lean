import Irohsion.Foundation.ListLoops
import Irohsion.Server.AdvanceWindow
import Irohsion.Server.Reassembly

/-! # Invariants of the reorder loop

One round of the loop is a few round moves followed by window moves. The rule
of this file says what an invariant has to survive, and gives that every run on
admissible frames gets through without a panic and keeps the invariant.
-/

namespace Irohsion.Server

open Protocol Std

/-- A run after its first round. -/
theorem foldlM_reorderStep_cons {config : ReorderConfig} {state next : ReorderState}
    {timed : TimedInput} (stepped : reorderStep config state timed = some next)
    (rest : List TimedInput) :
    (timed :: rest).foldlM (reorderStep config) state =
      rest.foldlM (reorderStep config) next := by
  rw [List.foldlM_cons, stepped]
  rfl

/-- Between rounds, and without a flow nothing is pending. -/
structure Consistent (state : ReorderState) : Prop extends WellFormed state where
  idle_buffered : state.initialized = false → state.buffered = ∅
  idle_fragments : state.initialized = false → state.fragments = ∅

/-- What a round does outside the window functions. -/
inductive RoundMove (now : Instant) (Admissible : ReceivedFrame → Prop)
    (state : ReorderState) : ReorderState → Prop
  | routes (remote : String) :
      RoundMove now Admissible state (state.setReplyRoutes remote false)
  | start {packet : ReceivedPacket} :
      state.initialized = false →
      RoundMove now Admissible state (startFlow packet state)
  | observe (sequence : Nat) :
      RoundMove now Admissible state
        { state with
          restartDetector := (state.restartDetector.observe sequence state.nextSeq).1 }
  | restart {packet : ReceivedPacket} :
      state.initialized = true →
      packet.header.sequence < state.nextSeq →
      RoundMove now Admissible state (restartFlow packet state)
  | join (packet : ReceivedPacket) :
      RoundMove now Admissible state (joinFlow packet state)
  | duplicate (sequence : Nat) :
      RoundMove now Admissible state (state.emit (.duplicate sequence))
  | lateAfterSkip (sequence : Nat) :
      RoundMove now Admissible state (state.emit (.lateAfterSkip sequence))
  | assemble {packet : ReceivedPacket} {filled : FragmentAssembly} :
      Admissible (.packet packet) →
      state.initialized = true →
      state.Fresh packet.header.sequence →
      Fills now packet state filled →
      filled.isComplete = false →
      RoundMove now Admissible state
        { state with fragments := state.fragments.insert packet.header.sequence filled }
  | store {fec : ReceivedFecFrame} :
      Admissible (.fec fec) →
      RoundMove now Admissible state
        { state with fecState := state.fecState.insertFrame fec.frame }
  | idle :
      state.initialized = true →
      state.hasPendingState = false →
      RoundMove now Admissible state (idleReset state)

theorem RoundMove.mono {now : Instant} {Admissible Wider : ReceivedFrame → Prop}
    {before after : ReorderState} (wider : ∀ {frame}, Admissible frame → Wider frame)
    (move : RoundMove now Admissible before after) : RoundMove now Wider before after := by
  cases move with
  | routes remote => exact .routes remote
  | start idle => exact .start idle
  | observe sequence => exact .observe sequence
  | restart active behind => exact .restart active behind
  | join packet => exact .join packet
  | duplicate sequence => exact .duplicate sequence
  | lateAfterSkip sequence => exact .lateAfterSkip sequence
  | assemble admissible active fresh fills incomplete =>
      exact .assemble (wider admissible) active fresh fills incomplete
  | store admissible => exact .store (wider admissible)
  | idle active nothing => exact .idle active nothing

theorem not_mem_of_hasPendingState {state : ReorderState}
    (idle : state.hasPendingState = false) :
    state.buffered = ∅ ∧ state.fragments = ∅ ∧ state.seen = ∅ := by
  simp only [ReorderState.hasPendingState, Bool.not_eq_false', Bool.and_eq_true,
    ExtTreeMap.isEmpty_iff, decide_eq_true_eq] at idle
  exact ⟨idle.1.1, idle.1.2, idle.2⟩

theorem hasPendingState_of_held {state : ReorderState} {sequence : Nat}
    (held : sequence ∈ state.buffered ∨ sequence ∈ state.fragments) :
    state.hasPendingState = true := by
  by_contra idle
  rcases not_mem_of_hasPendingState (Bool.eq_false_iff.mpr idle) with ⟨buffered, fragments, -⟩
  rcases held with member | member
  · exact ExtTreeMap.not_mem_empty (buffered ▸ member)
  · exact ExtTreeMap.not_mem_empty (fragments ▸ member)

/-! ## Round moves keep the representation invariant -/

namespace WellFormed

variable {now : Instant} {state : ReorderState}

/-- Nothing pending, at any position in range. -/
theorem of_empty {fresh : ReorderState} (position : fresh.nextSeq ≤ maxMediaSequence)
    (buffered : fresh.buffered = ∅) (fragments : fresh.fragments = ∅) (seen : fresh.seen = ∅)
    (frames : ∀ {base : Nat} {frame : FecFrame},
      fresh.fecState.frames[base]? = some frame → frame.Valid) : WellFormed fresh where
  nextSeq_le := position
  seen_iff sequence := by simp [seen, buffered]
  buffered_inWindow member := by simp [buffered] at member
  fragments_inWindow member := by simp [fragments] at member
  assembly_slots found := by simp [fragments] at found
  assembly_incomplete found := by simp [fragments] at found
  frame_valid := frames

theorem seen_empty (wellFormed : WellFormed state) (buffered : state.buffered = ∅) :
    state.seen = ∅ := by
  rw [Finset.eq_empty_iff_forall_notMem]
  intro sequence member
  have held := (wellFormed.seen_iff sequence).mp member
  rw [buffered] at held
  exact ExtTreeMap.not_mem_empty held

theorem assemble {packet : ReceivedPacket} {filled : FragmentAssembly}
    (wellFormed : WellFormed state) (fresh : state.Fresh packet.header.sequence)
    (fills : Fills now packet state filled) (incomplete : filled.isComplete = false) :
    WellFormed
      { state with fragments := state.fragments.insert packet.header.sequence filled } := by
  have inserted : ∀ {sequence : Nat} {assembly : FragmentAssembly},
      (state.fragments.insert packet.header.sequence filled)[sequence]? = some assembly →
      assembly = filled ∨ state.fragments[sequence]? = some assembly := by
    intro sequence assembly found
    exact (OrderedMap.getElem?_insert_eq_some found).imp And.right id
  constructor
  · exact wellFormed.nextSeq_le
  · exact wellFormed.seen_iff
  · exact wellFormed.buffered_inWindow
  · intro sequence member
    rcases OrderedMap.mem_insert_iff.mp member with rfl | member
    · refine ⟨?_, packet.media, fun held => fresh (Or.inr (Or.inr held))⟩
      exact Nat.le_of_not_lt fun behind => fresh (Or.inl behind)
    · exact wellFormed.fragments_inWindow member
  · intro sequence assembly found
    rcases inserted found with rfl | found
    · rw [fills.length]
      exact ⟨Nat.zero_lt_of_lt packet.valid.2.1, packet.valid.2.2⟩
    · exact wellFormed.assembly_slots found
  · intro sequence assembly found
    rcases inserted found with rfl | found
    · exact incomplete
    · exact wellFormed.assembly_incomplete found
  · exact wellFormed.frame_valid

theorem storeFrame (wellFormed : WellFormed state) (fec : ReceivedFecFrame) :
    WellFormed { state with fecState := state.fecState.insertFrame fec.frame } where
  nextSeq_le := wellFormed.nextSeq_le
  seen_iff := wellFormed.seen_iff
  buffered_inWindow := wellFormed.buffered_inWindow
  fragments_inWindow := wellFormed.fragments_inWindow
  assembly_slots := wellFormed.assembly_slots
  assembly_incomplete := wellFormed.assembly_incomplete
  frame_valid found := by
    rcases FecState.insertFrame_found found with ⟨_, rfl⟩ | found
    · exact fec.valid
    · exact wellFormed.frame_valid found

/-- Fields that `WellFormed` does not read may change. -/
theorem congr {other : ReorderState} (wellFormed : WellFormed state)
    (nextSeq : other.nextSeq = state.nextSeq) (seen : other.seen = state.seen)
    (buffered : other.buffered = state.buffered) (fragments : other.fragments = state.fragments)
    (fecState : other.fecState = state.fecState) : WellFormed other := by
  rcases state with ⟨_, _, _, _, _, _, _, _, _, _, _, _⟩
  rcases other with ⟨_, _, _, _, _, _, _, _, _, _, _, _⟩
  cases nextSeq
  cases seen
  cases buffered
  cases fragments
  cases fecState
  exact ⟨wellFormed.nextSeq_le, wellFormed.seen_iff, wellFormed.buffered_inWindow,
    wellFormed.fragments_inWindow, wellFormed.assembly_slots, wellFormed.assembly_incomplete,
    wellFormed.frame_valid⟩

end WellFormed

theorem Consistent.initial : Consistent .initial :=
  ⟨WellFormed.initial, fun _ => rfl, fun _ => rfl⟩

theorem Consistent.of_initialized {state : ReorderState} (wellFormed : WellFormed state)
    (initialized : state.initialized = true) : Consistent state where
  toWellFormed := wellFormed
  idle_buffered idle := absurd idle (by rw [initialized]; decide)
  idle_fragments idle := absurd idle (by rw [initialized]; decide)

theorem Consistent.roundMove {now : Instant} {Admissible : ReceivedFrame → Prop}
    {before after : ReorderState} (move : RoundMove now Admissible before after)
    (consistent : Consistent before) : Consistent after := by
  have wellFormed := consistent.toWellFormed
  cases move with
  | routes _ | observe _ | join _ | duplicate _ | lateAfterSkip _ =>
      exact ⟨wellFormed.congr rfl rfl rfl rfl rfl, consistent.idle_buffered,
        consistent.idle_fragments⟩
  | @start packet idle =>
      have buffered := consistent.idle_buffered idle
      refine .of_initialized (.of_empty packet.media buffered
        (consistent.idle_fragments idle) (wellFormed.seen_empty buffered) ?_) rfl
      exact wellFormed.frame_valid
  | @restart packet initialized behind =>
      refine .of_initialized (.of_empty packet.media rfl rfl rfl ?_) initialized
      intro base frame found
      simp [restartFlow, ReorderState.emit, ReorderState.setReplyRoutes, FecState.empty] at found
  | assemble _ initialized fresh fills incomplete =>
      exact .of_initialized (wellFormed.assemble fresh fills incomplete) initialized
  | store _ =>
      exact ⟨wellFormed.storeFrame _, consistent.idle_buffered, consistent.idle_fragments⟩
  | idle _ nothingPending =>
      rcases not_mem_of_hasPendingState nothingPending with ⟨buffered, fragments, seen⟩
      refine ⟨.of_empty (Nat.zero_le _) buffered fragments seen ?_, fun _ => buffered,
        fun _ => fragments⟩
      intro base frame found
      simp [idleReset, FecState.empty] at found

/-! ## The rule -/

/-- What an invariant of the loop has to survive after its initial state. -/
structure LoopInvariant (config : ReorderConfig) (Admissible : ReceivedFrame → Prop)
    (Source : Nat → Bytes → Prop) (Invariant : ReorderState → Prop) : Prop where
  round : ∀ {now before after}, Consistent before → RoundMove now Admissible before after →
    Invariant before → Invariant after
  window : ∀ now, ActiveInvariant config now Source Invariant
  whole : ∀ {packet}, Admissible (.packet packet) → packet.header.fragments = 1 →
    Source packet.header.sequence packet.payload
  assembled : ∀ {now state packet filled payload}, WellFormed state → Invariant state →
    Admissible (.packet packet) → Fills now packet state filled →
    filled.isComplete = true → filled.intoPayload = some payload →
    Source packet.header.sequence payload

def TimedInput.Admitted (Admissible : ReceivedFrame → Prop) (timed : TimedInput) : Prop :=
  ∀ frame, timed.input = .frame frame → Admissible frame

/-- The state an admission goes on with. -/
def Admission.state : Admission → ReorderState
  | .continue state => state
  | .proceed state => state

namespace LoopInvariant

variable {config : ReorderConfig} {Admissible : ReceivedFrame → Prop}
variable {Source : Nat → Bytes → Prop} {Invariant : ReorderState → Prop}
variable {state : ReorderState}

theorem active (rule : LoopInvariant config Admissible Source Invariant) {now : Instant}
    {after : ReorderState} (active : Active Invariant state)
    (move : RoundMove now Admissible state after) (initialized : after.initialized = true) :
    Active Invariant after := by
  have consistent := Consistent.of_initialized active.1 active.2.1
  exact ⟨(Consistent.roundMove move consistent).toWellFormed, initialized,
    rule.round consistent move active.2.2⟩

theorem openFlow (rule : LoopInvariant config Admissible Source Invariant)
    (packet : ReceivedPacket) (consistent : Consistent state) (holds : Invariant state) :
    Active Invariant (openFlow packet state) := by
  rw [Server.openFlow]
  split
  · rename_i initialized
    exact @active _ _ _ _ _ rule 0 _ ⟨consistent.toWellFormed, initialized, holds⟩
      (.routes packet.remote) initialized
  · rename_i idle
    have start : RoundMove 0 Admissible state (startFlow packet state) :=
      .start (Bool.eq_false_iff.mpr idle)
    exact ⟨(consistent.roundMove start).toWellFormed, rfl, rule.round consistent start holds⟩

theorem rejectLate (rule : LoopInvariant config Admissible Source Invariant)
    (packet : ReceivedPacket) (holds : Active Invariant state) :
    Active Invariant (rejectLate packet state) := by
  rw [Server.rejectLate]
  split
  · exact @active _ _ _ _ _ rule 0 _ holds (.lateAfterSkip _) holds.2.1
  · exact @active _ _ _ _ _ rule 0 _ holds (.duplicate _) holds.2.1

theorem admitPacket (rule : LoopInvariant config Admissible Source Invariant)
    (packet : ReceivedPacket) (holds : Active Invariant state) :
    Active Invariant (admitPacket packet state).state := by
  rw [Server.admitPacket]
  split
  · rename_i behind
    split
    · exact rule.rejectLate packet holds
    · have observed := @active _ _ _ _ _ rule 0 _ holds (.observe packet.header.sequence)
        holds.2.1
      dsimp only
      split
      · exact @active _ _ _ _ _ rule 0 _ observed (.restart holds.2.1 behind) holds.2.1
      · exact rule.rejectLate packet observed
  · exact @active _ _ _ _ _ rule 0 _ holds (.join packet) holds.2.1

/-- Accepting a complete payload and everything that follows it in the round. -/
theorem acceptComplete (rule : LoopInvariant config Admissible Source Invariant)
    {now : Instant} {packet : ReceivedPacket} {payload : Bytes}
    (holds : Active Invariant state) (fresh : state.Fresh packet.header.sequence)
    (source : Source packet.header.sequence payload) :
    ∃ next, advanceReorderWindow config now (recoverFecReady now (acceptCompletePayload now
        packet.header.sequence payload (takeComplete packet.header.sequence state))) =
      some next ∧ Active Invariant next := by
  have window := rule.window now
  exact window.acceptComplete
    (window.toWindow.move (.settle packet.media fresh source) holds)

theorem processAdmitted (rule : LoopInvariant config Admissible Source Invariant)
    (now : Instant) {packet : ReceivedPacket} (admissible : Admissible (.packet packet))
    (holds : Active Invariant state) :
    ∃ next, processAdmitted config now packet state = some next ∧ Active Invariant next := by
  unfold Server.processAdmitted
  dsimp only
  split
  · exact ⟨_, rfl, @active _ _ _ _ _ rule 0 _ holds (.duplicate _) holds.2.1⟩
  · rename_i fresh
    by_cases whole : packet.header.fragments = 1
    · rw [reassemble_whole whole]
      exact rule.acceptComplete holds fresh (rule.whole admissible whole)
    · rcases reassemble_cases now holds.1 whole with
        ⟨_, duplicate⟩ |
          ⟨filled, fills, ⟨incomplete, outcome⟩ | ⟨complete, payload, whole, outcome⟩⟩
      · rw [duplicate]
        exact ⟨_, rfl, @active _ _ _ _ _ rule 0 _ holds (.duplicate _) holds.2.1⟩
      · rw [outcome]
        have assembled := rule.active holds
          (.assemble admissible holds.2.1 fresh fills incomplete) holds.2.1
        exact (rule.window now).advanceReorderWindow assembled
      · rw [outcome]
        exact rule.acceptComplete holds fresh
          (rule.assembled holds.1 holds.2.2 admissible fills complete whole)

theorem onPacket (rule : LoopInvariant config Admissible Source Invariant)
    (now : Instant) {packet : ReceivedPacket} (admissible : Admissible (.packet packet))
    (consistent : Consistent state) (holds : Invariant state) :
    ∃ next, onPacket config now packet state = some next ∧ Consistent next ∧ Invariant next := by
  have admitted := rule.admitPacket packet (rule.openFlow packet consistent holds)
  rw [Server.onPacket]
  split
  · rename_i final outcome
    rw [outcome] at admitted
    exact ⟨final, rfl, .of_initialized admitted.1 admitted.2.1, admitted.2.2⟩
  · rename_i proceeding outcome
    rw [outcome] at admitted
    rcases rule.processAdmitted now admissible admitted with ⟨next, processed, active⟩
    exact ⟨next, processed, .of_initialized active.1 active.2.1, active.2.2⟩

theorem onFec (rule : LoopInvariant config Admissible Source Invariant)
    (now : Instant) {fec : ReceivedFecFrame} (admissible : Admissible (.fec fec))
    (consistent : Consistent state) (holds : Invariant state) :
    ∃ next, onFec config now fec state = some next ∧ Consistent next ∧ Invariant next := by
  have store : RoundMove now Admissible state
      { state with fecState := state.fecState.insertFrame fec.frame } := .store admissible
  have stored := consistent.roundMove store
  have storedHolds := rule.round consistent store holds
  rw [Server.onFec]
  dsimp only
  split
  · rename_i initialized
    have routed := @active _ _ _ _ _ rule now _ ⟨stored.toWellFormed, initialized, storedHolds⟩
      (.routes fec.remote) initialized
    have window := rule.window now
    rcases window.advanceReorderWindow (window.toWindow.recoverFecReady routed) with
      ⟨next, advanced, active⟩
    exact ⟨next, advanced, .of_initialized active.1 active.2.1, active.2.2⟩
  · exact ⟨_, rfl, stored, storedHolds⟩

theorem onTimeout (rule : LoopInvariant config Admissible Source Invariant)
    (now : Instant) (consistent : Consistent state) (holds : Invariant state) :
    ∃ next, onTimeout config now state = some next ∧ Consistent next ∧ Invariant next := by
  rw [Server.onTimeout]
  split
  · exact ⟨state, rfl, consistent, holds⟩
  · rename_i active
    have initialized : state.initialized = true := by simpa using active
    split
    · rcases (rule.window now).advanceReorderWindow
          ⟨consistent.toWellFormed, initialized, holds⟩ with ⟨next, advanced, active⟩
      exact ⟨next, advanced, .of_initialized active.1 active.2.1, active.2.2⟩
    · rename_i pending
      have idle : RoundMove now Admissible state (idleReset state) :=
        .idle initialized (Bool.eq_false_iff.mpr pending)
      exact ⟨_, rfl, consistent.roundMove idle, rule.round consistent idle holds⟩

/-- One round. -/
theorem reorderStep (rule : LoopInvariant config Admissible Source Invariant)
    {timed : TimedInput} (admitted : timed.Admitted Admissible)
    (consistent : Consistent state) (holds : Invariant state) :
    ∃ next, reorderStep config state timed = some next ∧ Consistent next ∧ Invariant next := by
  rw [Server.reorderStep]
  split
  · rename_i packet received
    exact rule.onPacket timed.now (admitted _ received) consistent holds
  · rename_i fec received
    exact rule.onFec timed.now (admitted _ received) consistent holds
  · exact rule.onTimeout timed.now consistent holds

/-- Any number of rounds. -/
theorem foldlM_reorderStep (rule : LoopInvariant config Admissible Source Invariant)
    {inputs : List TimedInput} (admitted : ∀ timed ∈ inputs, timed.Admitted Admissible)
    (consistent : Consistent state) (holds : Invariant state) :
    ∃ final, inputs.foldlM (Server.reorderStep config) state = some final ∧
      Consistent final ∧ Invariant final := by
  induction inputs generalizing state with
  | nil => exact ⟨state, rfl, consistent, holds⟩
  | cons timed rest induction =>
      rcases rule.reorderStep (admitted timed List.mem_cons_self) consistent holds with
        ⟨next, stepped, consistent, holds⟩
      rcases induction (fun other member => admitted other (List.mem_cons_of_mem _ member))
        consistent holds with ⟨final, finished, result⟩
      exact ⟨final, (foldlM_reorderStep_cons stepped rest).trans finished, result⟩

theorem reorderLoop (rule : LoopInvariant config Admissible Source Invariant)
    (initial : Invariant .initial) {inputs : List TimedInput}
    (admitted : ∀ timed ∈ inputs, timed.Admitted Admissible) :
    ∃ final, reorderLoop config inputs = some final ∧ Consistent final ∧ Invariant final :=
  rule.foldlM_reorderStep admitted Consistent.initial initial

/-- Every state that a run reaches. -/
theorem of_reached (rule : LoopInvariant config Admissible Source Invariant)
    (initial : Invariant .initial) {inputs : List TimedInput}
    (admitted : ∀ timed ∈ inputs, timed.Admitted Admissible)
    (reached : Server.reorderLoop config inputs = some state) :
    Consistent state ∧ Invariant state := by
  rcases rule.reorderLoop initial admitted with ⟨final, finished, result⟩
  cases reached.symm.trans finished
  exact result

end LoopInvariant

/-- The rule for facts about every state, of which consistency is one. -/
theorem consistent_invariant (config : ReorderConfig) :
    LoopInvariant config (fun _ => True) (fun _ _ => True) (fun _ => True) where
  round _ _ _ := trivial
  window _ := ⟨fun _ _ _ _ => trivial, fun _ _ _ => trivial⟩
  whole _ _ := trivial
  assembled _ _ _ _ _ _ := trivial

theorem Consistent.reorderStep {config : ReorderConfig} {state next : ReorderState}
    {timed : TimedInput} (consistent : Consistent state)
    (stepped : reorderStep config state timed = some next) : Consistent next := by
  rcases (consistent_invariant config).reorderStep (fun _ _ => trivial) consistent trivial with
    ⟨found, outcome, result, -⟩
  cases stepped.symm.trans outcome
  exact result

theorem foldlM_reorderStep_induction {config : ReorderConfig} {Holds : ReorderState → Prop}
    (round : ∀ {state next timed}, Consistent state → Holds state →
      reorderStep config state timed = some next → Holds next)
    {inputs : List TimedInput} {state final : ReorderState} (consistent : Consistent state)
    (holds : Holds state) (ran : inputs.foldlM (reorderStep config) state = some final) :
    Consistent final ∧ Holds final := by
  apply @ListLoops.foldlM_invariant _ _ (fun state => Consistent state ∧ Holds state) _ _ _ _ _ ran
    ⟨consistent, holds⟩
  rintro timed - state next stepped ⟨consistent, holds⟩
  exact ⟨consistent.reorderStep stepped, round consistent holds stepped⟩

/-- What every round of a consistent state preserves holds in every state of a run. -/
theorem reorderLoop_induction {config : ReorderConfig} {Holds : ReorderState → Prop}
    (initial : Holds .initial)
    (round : ∀ {state next timed}, Consistent state → Holds state →
      reorderStep config state timed = some next → Holds next)
    {inputs : List TimedInput} {state : ReorderState}
    (reached : reorderLoop config inputs = some state) : Consistent state ∧ Holds state :=
  foldlM_reorderStep_induction round Consistent.initial initial reached

end Irohsion.Server
