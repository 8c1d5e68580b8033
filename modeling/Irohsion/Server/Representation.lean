import Irohsion.Server.ExpiryTimers

/-! # The representation of the window between the rounds

What the six collections of the loop say about each other whenever it waits for
its next frame: what is held lies ahead of the window's position, every assembly
was split and is incomplete, and only the position itself has a noted request.
-/

namespace Irohsion.Server

open Protocol Std

variable {config : ReorderConfig} {now : Instant} {timed : TimedInput}
variable {before after state next : ReorderState}

/-! ## Repair requests of the head position -/

/-- In a running flow, requests are noted for the head position only. -/
structure RepairsAtHead (state : ReorderState) : Prop where
  active : state.initialized = true
  head : ∀ sequence, sequence ∈ state.gapRepairRequests → sequence = state.nextSeq

namespace RepairsAtHead

theorem of_empty (active : state.initialized = true) (none : state.gapRepairRequests = ∅) :
    RepairsAtHead state where
  active := active
  head sequence member := by
    rw [none] at member
    exact absurd member ExtTreeMap.not_mem_empty

theorem stays (atHead : RepairsAtHead before) (initialized : after.initialized = before.initialized)
    (nextSeq : after.nextSeq = before.nextSeq)
    (requests : after.gapRepairRequests = before.gapRepairRequests) : RepairsAtHead after where
  active := initialized.trans atHead.active
  head sequence member := by
    rw [requests] at member
    rw [nextSeq]
    exact atHead.head sequence member

/-- A position that is passed leaves no request behind. -/
theorem passes (atHead : RepairsAtHead before)
    (initialized : after.initialized = before.initialized)
    (requests : after.gapRepairRequests = before.gapRepairRequests.erase before.nextSeq) :
    RepairsAtHead after where
  active := initialized.trans atHead.active
  head sequence member := by
    rw [requests] at member
    rcases OrderedMap.mem_erase_iff.mp member with ⟨different, earlier⟩
    exact absurd (atHead.head sequence earlier) different

theorem drainReady (atHead : RepairsAtHead state) : RepairsAtHead (drainReady state) := by
  apply BreakLoop.run_invariant _ _ state atHead
  intro state atHead
  rw [drainStep]
  split
  · exact atHead
  · exact atHead.passes rfl rfl

theorem expireReorderGap (atHead : RepairsAtHead state) :
    RepairsAtHead (expireReorderGap config now state) := by
  apply BreakLoop.run_invariant _ _ state atHead
  intro state atHead
  rw [expireStep]
  split
  · exact atHead
  · split
    · split
      · exact atHead
      · exact atHead.passes rfl rfl
    · split
      · exact atHead
      · split
        · exact atHead
        · exact atHead.passes rfl rfl

theorem acceptCompletePayload (atHead : RepairsAtHead state) (sequence : Nat) (payload : Bytes) :
    RepairsAtHead (acceptCompletePayload now sequence payload state) := by
  unfold Server.acceptCompletePayload
  dsimp only
  split
  · rename_i expected
    apply drainReady
    exact atHead.passes rfl (by rw [expected]; rfl)
  · exact atHead.stays rfl rfl rfl

theorem foldl_acceptRecovered {recovered : List (Nat × Bytes)}
    {progress : ReorderState × Bool} (atHead : RepairsAtHead progress.1) :
    RepairsAtHead (recovered.foldl (acceptRecovered now) progress).1 := by
  induction recovered generalizing progress with
  | nil => exact atHead
  | cons pair rest induction =>
      apply induction
      rcases progress with ⟨state, accepted⟩
      simp only [acceptRecovered]
      split
      · exact atHead
      · apply acceptCompletePayload
        exact atHead.stays rfl rfl rfl

theorem recoverFecReady (atHead : RepairsAtHead state) :
    RepairsAtHead (recoverFecReady now state) := by
  apply BreakLoop.run_invariant _ _ state atHead
  intro state atHead
  rw [recoverStep]
  split
  rename_i fec recovered _
  have searched : RepairsAtHead { state with fecState := fec } := atHead.stays rfl rfl rfl
  have accepted := @foldl_acceptRecovered now recovered ({ state with fecState := fec }, false)
    searched
  dsimp only
  split
  · exact searched
  · split
    · rename_i outcome
      rw [outcome] at accepted
      exact accepted
    · rename_i outcome
      rw [outcome] at accepted
      exact accepted

/-- A new request is for the head position. -/
theorem requestDueRepairs {interval : Duration} (atHead : RepairsAtHead state)
    (requested : requestDueRepairs interval now state = some after) : RepairsAtHead after := by
  rw [Server.requestDueRepairs] at requested
  split at requested
  · cases requested
  · rw [sendRepairRequests] at requested
    split at requested
    · cases requested
      refine ⟨atHead.active, ?_⟩
      intro sequence member
      dsimp only at member
      split at member
      · exact (OrderedMap.mem_insert_iff.mp member).elim id (atHead.head sequence)
      · exact atHead.head sequence member
    · cases requested

theorem advanceReorderWindow (atHead : RepairsAtHead state)
    (advanced : advanceReorderWindow config now state = some after) : RepairsAtHead after := by
  rcases Option.map_eq_some_iff.mp advanced with ⟨requested, outcome, rfl⟩
  apply drainReady
  apply expireReorderGap
  have recovered : RepairsAtHead (Server.recoverFecReady now state) := atHead.recoverFecReady
  split at outcome
  · cases outcome
    exact recovered
  · exact recovered.requestDueRepairs outcome

theorem processAdmitted {packet : ReceivedPacket} (atHead : RepairsAtHead state)
    (wellFormed : WellFormed state)
    (processed : processAdmitted config now packet state = some next) : RepairsAtHead next := by
  have completed : ∀ payload, Server.advanceReorderWindow config now (Server.recoverFecReady now
      (Server.acceptCompletePayload now packet.header.sequence payload
        (takeComplete packet.header.sequence state))) = some next → RepairsAtHead next := by
    intro payload advanced
    have taken : RepairsAtHead (takeComplete packet.header.sequence state) :=
      atHead.stays rfl rfl rfl
    exact (taken.acceptCompletePayload _ payload).recoverFecReady.advanceReorderWindow advanced
  unfold Server.processAdmitted at processed
  dsimp only at processed
  split at processed
  · cases processed
    exact atHead.stays rfl rfl rfl
  · by_cases whole : packet.header.fragments = 1
    · rw [reassemble_whole whole] at processed
      exact completed _ processed
    · rcases reassemble_cases now wellFormed whole with
        ⟨-, duplicate⟩ | ⟨filled, -, ⟨-, outcome⟩ | ⟨-, payload, -, outcome⟩⟩
      · rw [duplicate] at processed
        cases processed
        exact atHead.stays rfl rfl rfl
      · rw [outcome] at processed
        apply advanceReorderWindow _ processed
        exact atHead.stays rfl rfl rfl
      · rw [outcome] at processed
        exact completed payload processed

theorem rejectLate (atHead : RepairsAtHead state) (packet : ReceivedPacket) :
    RepairsAtHead (rejectLate packet state) := by
  rw [Server.rejectLate]
  split
  · exact atHead.stays rfl rfl rfl
  · exact atHead.stays rfl rfl rfl

theorem admitPacket (atHead : RepairsAtHead state) (packet : ReceivedPacket) :
    RepairsAtHead (admitPacket packet state).state := by
  rw [Server.admitPacket]
  split
  · split
    · exact atHead.rejectLate packet
    · have observed : RepairsAtHead
          { state with
            restartDetector :=
              (state.restartDetector.observe packet.header.sequence state.nextSeq).1 } :=
        atHead.stays rfl rfl rfl
      dsimp only
      split
      · exact .of_empty observed.active rfl
      · exact observed.rejectLate packet
  · exact atHead.stays rfl rfl rfl

end RepairsAtHead

/-- Between the rounds, no request is noted without a flow. -/
def RepairsNoted (state : ReorderState) : Prop :=
  RepairsAtHead state ∨ state.initialized = false ∧ state.gapRepairRequests = ∅

theorem RepairsNoted.atHead (noted : RepairsNoted state) (active : state.initialized = true) :
    RepairsAtHead state := by
  rcases noted with atHead | ⟨idle, -⟩
  · exact atHead
  · rw [active] at idle
    cases idle

theorem RepairsNoted.openFlow (noted : RepairsNoted state) (packet : ReceivedPacket) :
    RepairsAtHead (openFlow packet state) := by
  rw [Server.openFlow]
  split
  · rename_i active
    exact (noted.atHead active).stays rfl rfl rfl
  · rename_i idle
    rcases noted with atHead | ⟨-, none⟩
    · exact absurd atHead.active idle
    · exact .of_empty rfl none

theorem RepairsNoted.onPacket {packet : ReceivedPacket} (noted : RepairsNoted state)
    (consistent : Consistent state) (stepped : onPacket config now packet state = some next) :
    RepairsNoted next := by
  have rule := consistent_invariant config
  have admitted := (noted.openFlow packet).admitPacket packet
  have wellFormed := (rule.admitPacket packet (rule.openFlow packet consistent trivial)).1
  left
  rw [Server.onPacket] at stepped
  split at stepped
  · rename_i final outcome
    cases stepped
    rw [outcome] at admitted
    exact admitted
  · rename_i proceeding outcome
    rw [outcome] at admitted wellFormed
    exact admitted.processAdmitted wellFormed stepped

/-- One round. -/
theorem RepairsNoted.reorderStep (noted : RepairsNoted state) (consistent : Consistent state)
    (stepped : reorderStep config state timed = some next) : RepairsNoted next := by
  rcases timed with ⟨now, (packet | fec) | -⟩
  · exact noted.onPacket consistent stepped
  · simp only [Server.reorderStep, onFec] at stepped
    split at stepped
    · rename_i active
      have routed : RepairsAtHead (ReorderState.setReplyRoutes fec.remote false
          { state with fecState := state.fecState.insertFrame fec.frame }) :=
        (noted.atHead active).stays rfl rfl rfl
      exact Or.inl (routed.recoverFecReady.advanceReorderWindow stepped)
    · cases stepped
      rcases noted with atHead | idle
      · exact Or.inl (atHead.stays rfl rfl rfl)
      · exact Or.inr idle
  · simp only [Server.reorderStep, onTimeout] at stepped
    split at stepped
    · cases stepped
      exact noted
    · rename_i active
      split at stepped
      · have atHead := noted.atHead (by simpa using active)
        exact Or.inl (atHead.advanceReorderWindow stepped)
      · cases stepped
        exact Or.inr ⟨rfl, rfl⟩

/-! ## The other clauses -/

/-- Every assembly is of a packet that was split. -/
def HoldsSplit (state : ReorderState) : Prop :=
  ∀ (sequence : Nat) (assembly : FragmentAssembly),
    state.fragments[sequence]? = some assembly → 2 ≤ assembly.fragments.length

theorem HoldsSplit.of_empty (none : state.fragments = ∅) : HoldsSplit state := by
  intro sequence assembly found
  simp [none] at found

theorem HoldsSplit.roundMove {Admissible : ReceivedFrame → Prop} (split : HoldsSplit before)
    (consistent : Consistent before) (move : RoundMove now Admissible before after) :
    HoldsSplit after := by
  cases move with
  | routes _ | observe _ | join _ | duplicate _ | lateAfterSkip _ | store _ | idle _ _ =>
      exact split
  | start idle => exact .of_empty (consistent.idle_fragments idle)
  | restart _ _ => exact .of_empty rfl
  | @assemble packet filled _ _ _ fills _ =>
      intro sequence assembly found
      rcases OrderedMap.getElem?_insert_eq_some found with ⟨-, rfl⟩ | earlier
      · have several := fills.several
        have nonempty := packet.valid.2.1
        rw [fills.length]
        omega
      · exact split sequence assembly earlier

theorem holdsSplit_invariant (config : ReorderConfig) :
    LoopInvariant config (fun _ => True) (fun _ _ => True) HoldsSplit where
  round consistent move split := split.roundMove consistent move
  window now :=
    { move := by
        intro before after _ _ move split sequence assembly found
        rcases move.assembly found with ⟨earlier, present, content⟩
        have slots : earlier.fragments = assembly.fragments := congrArg Prod.fst content
        rw [← slots]
        exact split sequence earlier present
      recovered := fun _ _ _ => trivial }
  whole _ _ := trivial
  assembled _ _ _ _ _ _ := trivial

/-- Between the rounds the head position is not held complete. -/
theorem reorderStep_drained (consistent : Consistent state)
    (drained : state.nextSeq ∉ state.buffered)
    (stepped : reorderStep config state timed = some next) : next.nextSeq ∉ next.buffered := by
  cases called : advanceTarget state timed with
  | some target =>
      rw [reorderStep_of_target called] at stepped
      exact advanceReorderWindow_drained stepped
  | none =>
      rcases @reorderStep_of_no_target config _ _ consistent called with
        ⟨_, outcome, untouched | idle⟩
      · cases stepped.symm.trans outcome
        rw [untouched.nextSeq, untouched.buffered]
        exact drained
      · cases stepped.symm.trans outcome
        rw [(consistent.reorderStep stepped).idle_buffered idle]
        exact ExtTreeMap.not_mem_empty

/-! ## The representation -/

/-- The state of the loop whenever it waits for its next frame. -/
structure Representation (state : ReorderState) : Prop where
  seen_iff : ∀ sequence, sequence ∈ state.seen ↔ sequence ∈ state.buffered
  disjoint : ∀ sequence, sequence ∈ state.buffered → sequence ∉ state.fragments
  nextSeq_le : state.nextSeq ≤ maxMediaSequence
  buffered_ahead : ∀ sequence, sequence ∈ state.buffered →
    state.nextSeq < sequence ∧ sequence ≤ maxMediaSequence
  fragments_ahead : ∀ sequence, sequence ∈ state.fragments →
    state.nextSeq ≤ sequence ∧ sequence ≤ maxMediaSequence
  slots : ∀ (sequence : Nat) (assembly : FragmentAssembly),
    state.fragments[sequence]? = some assembly →
    2 ≤ assembly.fragments.length ∧ assembly.fragments.length ≤ 7
  incomplete : ∀ (sequence : Nat) (assembly : FragmentAssembly),
    state.fragments[sequence]? = some assembly →
    assembly.received = assembly.fragments.countP Option.isSome ∧
      assembly.isComplete = false
  repairs_head : ∀ sequence, sequence ∈ state.gapRepairRequests → sequence = state.nextSeq

/-- A timeout ends the flow only when nothing is held. -/
structure EndsEmptyHanded (config : ReorderConfig) (state : ReorderState) : Prop where
  held : ∀ now sequence, sequence ∈ state.buffered ∨ sequence ∈ state.fragments →
    reorderStep config state ⟨now, .timeout⟩ = advanceReorderWindow config now state
  reset : ∀ now, state.initialized = true → state.hasPendingState = false →
    reorderStep config state ⟨now, .timeout⟩ = some (idleReset state) ∧
      state.buffered = ∅ ∧ state.fragments = ∅ ∧ state.seen = ∅

theorem Representation.of_clauses (wellFormed : WellFormed state)
    (drained : state.nextSeq ∉ state.buffered) (split : HoldsSplit state)
    (noted : RepairsNoted state) : Representation state where
  seen_iff := wellFormed.seen_iff
  disjoint sequence held assembled := (wellFormed.fragments_inWindow assembled).2.2 held
  nextSeq_le := wellFormed.nextSeq_le
  buffered_ahead sequence member := by
    rcases wellFormed.buffered_inWindow member with ⟨ahead, media⟩
    refine ⟨Nat.lt_of_le_of_ne ahead ?_, media⟩
    intro same
    exact drained (same ▸ member)
  fragments_ahead sequence member := by
    rcases wellFormed.fragments_inWindow member with ⟨ahead, media, -⟩
    exact ⟨ahead, media⟩
  slots sequence assembly found :=
    ⟨split sequence assembly found, (wellFormed.assembly_slots found).2⟩
  incomplete sequence assembly found :=
    ⟨assembly.received_eq, wellFormed.assembly_incomplete found⟩
  repairs_head sequence member := by
    rcases noted with atHead | ⟨-, none⟩
    · exact atHead.head sequence member
    · rw [none] at member
      exact absurd member ExtTreeMap.not_mem_empty

theorem Consistent.endsEmptyHanded (consistent : Consistent state) :
    EndsEmptyHanded config state where
  held now sequence held := by
    have pending := hasPendingState_of_held held
    have active := consistent.active_of_pending pending
    have called : advanceTarget state ⟨now, .timeout⟩ = some state := if_pos ⟨active, pending⟩
    exact reorderStep_of_target called
  reset now active idle := by
    refine ⟨?_, not_mem_of_hasPendingState idle⟩
    simp only [Server.reorderStep, onTimeout, active, idle]
    rfl

/-- Every run gets through, and leaves the representation intact. -/
theorem reorderLoop_representation (config : ReorderConfig) (inputs : List TimedInput) :
    ∃ state, reorderLoop config inputs = some state ∧ Representation state ∧
      EndsEmptyHanded config state := by
  have admitted : ∀ timed ∈ inputs, timed.Admitted fun _ => True := fun _ _ _ _ => trivial
  rcases (holdsSplit_invariant config).reorderLoop (.of_empty rfl) admitted with
    ⟨state, reached, consistent, split⟩
  have start : ReorderState.initial.nextSeq ∉ ReorderState.initial.buffered ∧
      RepairsNoted .initial := ⟨ExtTreeMap.not_mem_empty, Or.inr ⟨rfl, rfl⟩⟩
  have kept : Consistent state ∧ state.nextSeq ∉ state.buffered ∧ RepairsNoted state := by
    apply reorderLoop_induction start _ reached
    intro state next timed consistent holds stepped
    rcases holds with ⟨drained, noted⟩
    exact ⟨reorderStep_drained consistent drained stepped, noted.reorderStep consistent stepped⟩
  rcases kept with ⟨_, drained, noted⟩
  exact ⟨state, reached, .of_clauses consistent.toWellFormed drained split noted,
    consistent.endsEmptyHanded⟩

end Irohsion.Server
