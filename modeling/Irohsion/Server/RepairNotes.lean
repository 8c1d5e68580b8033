import Irohsion.Server.TimelyRounds

/-! # What the loop has asked for

A position whose request is noted, at the head or in an assembly, has been asked for.
A flow that is on time has asked for its head position whenever something is pending.
-/

namespace Irohsion.Server

open Protocol Std

variable {config : ReorderConfig} {broadcast : Broadcast} {first : Nat} {now : Instant}
variable {before after state next : ReorderState} {timed : TimedInput} {sequence : Nat}

/-! ## Notes -/

/-- The request for the position is noted. -/
def ReorderState.Noted (state : ReorderState) (sequence : Nat) : Prop :=
  sequence ∈ state.gapRepairRequests ∨
    ∃ assembly : FragmentAssembly, state.fragments[sequence]? = some assembly ∧
      assembly.lastRepairRequest ≠ none

/-- The mask names the slots that are vacant, and maybe others. -/
def FragmentAssembly.CoveredBy (assembly : FragmentAssembly) (mask : Nat) : Prop :=
  ∀ fragment < assembly.fragments.length,
    mask.testBit fragment = true ∨ ∃ payload, assembly.fragments[fragment]? = some (some payload)

/-- What is noted has been sent, and asks for all that is still missing. -/
structure NotedAsked (state : ReorderState) : Prop where
  gap : ∀ sequence ∈ state.gapRepairRequests,
    .repairRequest ⟨sequence, repairAllFragmentsMask⟩ ∈ state.trace
  assembly : ∀ (sequence : Nat) (assembly : FragmentAssembly),
    state.fragments[sequence]? = some assembly → assembly.lastRepairRequest ≠ none →
    ∃ mask, .repairRequest ⟨sequence, mask⟩ ∈ state.trace ∧ assembly.CoveredBy mask

namespace NotedAsked

theorem of_empty (gaps : state.gapRepairRequests = ∅) (fragments : state.fragments = ∅) :
    NotedAsked state where
  gap sequence member := by simp [gaps] at member
  assembly sequence assembly found := by simp [fragments] at found

/-- Notes are only dropped. -/
theorem fewer (asked : NotedAsked before)
    (gaps : ∀ sequence, sequence ∈ after.gapRepairRequests →
      sequence ∈ before.gapRepairRequests)
    (fragments : ∀ (sequence : Nat) (assembly : FragmentAssembly),
      after.fragments[sequence]? = some assembly → before.fragments[sequence]? = some assembly)
    (trace : before.trace <+: after.trace) : NotedAsked after where
  gap sequence member := trace.subset (asked.gap sequence (gaps sequence member))
  assembly sequence assembly found requested := by
    rcases asked.assembly sequence assembly (fragments sequence assembly found) requested with
      ⟨mask, sent, covered⟩
    exact ⟨mask, trace.subset sent, covered⟩

/-- The notes are the same. -/
theorem stays (asked : NotedAsked before)
    (gaps : after.gapRepairRequests = before.gapRepairRequests)
    (fragments : after.fragments = before.fragments) (trace : before.trace <+: after.trace) :
    NotedAsked after := by
  apply asked.fewer _ _ trace
  · rw [gaps]
    exact fun _ member => member
  · rw [fragments]
    exact fun _ _ found => found

theorem drainReady (asked : NotedAsked state) : NotedAsked (drainReady state) := by
  apply BreakLoop.run_invariant _ _ state asked
  intro state asked
  rw [drainStep]
  split
  · exact asked
  · exact asked.fewer (fun _ member => (OrderedMap.mem_erase_iff.mp member).2)
      (fun _ _ found => found) (List.prefix_append _ _)

theorem skipSequence (asked : NotedAsked state) (reason : SkipReason) :
    NotedAsked (skipSequence reason state) :=
  asked.fewer (fun _ member => (OrderedMap.mem_erase_iff.mp member).2) (fun _ _ found => found)
    (List.prefix_append _ _)

theorem expireReorderGap (asked : NotedAsked state) :
    NotedAsked (expireReorderGap config now state) := by
  apply BreakLoop.run_invariant _ _ state asked
  intro state asked
  rw [expireStep]
  split
  · exact asked
  · split
    · split
      · exact asked
      · have dropped : NotedAsked (dropHeadAssembly state) := asked.fewer (fun _ member => member)
          (fun _ _ found => (OrderedMap.getElem?_erase_eq_some.mp found).2) (List.prefix_refl _)
        exact dropped.skipSequence _
    · split
      · exact asked
      · split
        · exact asked
        · exact asked.skipSequence _

theorem acceptCompletePayload (asked : NotedAsked state) (sequence : Nat) (payload : Bytes) :
    NotedAsked (acceptCompletePayload now sequence payload state) := by
  have noted : NotedAsked (noteAccepted sequence payload state) :=
    asked.stays rfl rfl (List.prefix_append _ _)
  rw [Server.acceptCompletePayload]
  split
  · apply drainReady
    exact noted.fewer (fun _ member => (OrderedMap.mem_erase_iff.mp member).2)
      (fun _ _ found => found) (List.prefix_append _ _)
  · exact noted.stays rfl rfl (List.prefix_refl _)

theorem foldl_acceptRecovered {recovered : List (Nat × Bytes)} {progress : ReorderState × Bool}
    (asked : NotedAsked progress.1) :
    NotedAsked (recovered.foldl (acceptRecovered now) progress).1 := by
  induction recovered generalizing progress with
  | nil => exact asked
  | cons pair rest induction =>
      apply induction
      rcases progress with ⟨state, accepted⟩
      simp only [acceptRecovered]
      split
      · exact asked
      · apply acceptCompletePayload
        exact asked.fewer (fun _ member => member)
          (fun _ _ found => (OrderedMap.getElem?_erase_eq_some.mp found).2)
          (List.prefix_append _ _)

theorem recoverFecReady (asked : NotedAsked state) : NotedAsked (recoverFecReady now state) := by
  apply BreakLoop.run_invariant _ _ state asked
  intro state asked
  rw [recoverStep]
  split
  rename_i fec recovered _
  have searched : NotedAsked { state with fecState := fec } :=
    asked.stays rfl rfl (List.prefix_refl _)
  have accepted := @foldl_acceptRecovered now recovered ({ state with fecState := fec }, false)
    searched
  dsimp only
  split
  · exact searched
  · split
    · rename_i outcome
      rw [outcome] at accepted
      exact accepted
    · rename_i outcome
      rw [outcome] at accepted
      exact accepted

end NotedAsked

/-! ## New requests -/

/-- The assembly notes a request. -/
def NotesIn (fragments : ExtTreeMap Nat FragmentAssembly) (sequence : Nat) : Prop :=
  ∃ assembly : FragmentAssembly, fragments[sequence]? = some assembly ∧
    assembly.lastRepairRequest ≠ none

theorem NotesIn.insert {fragments : ExtTreeMap Nat FragmentAssembly}
    (notes : NotesIn fragments sequence) (other : Nat) (assembly : FragmentAssembly)
    (now : Instant) :
    NotesIn (fragments.insert other { assembly with lastRepairRequest := some now }) sequence := by
  rcases notes with ⟨earlier, found, requested⟩
  by_cases same : other = sequence
  · rw [same]
    exact ⟨_, ExtTreeMap.getElem?_insert_self, Option.some_ne_none now⟩
  · exact ⟨earlier, (OrderedMap.getElem?_insert_of_ne same).trans found, requested⟩

/-- What `request_due_repairs` has noted and asked for between two assemblies, and what
it had found noted. -/
structure Noting (original fragments : ExtTreeMap Nat FragmentAssembly)
    (requests : List RepairRequest) : Prop where
  kept : ∀ sequence, NotesIn original sequence → NotesIn fragments sequence
  asked : ∀ (sequence : Nat) (assembly : FragmentAssembly),
    fragments[sequence]? = some assembly → assembly.lastRepairRequest ≠ none →
    original[sequence]? = some assembly ∨
      ∃ mask, ⟨sequence, mask⟩ ∈ requests ∧ assembly.CoveredBy mask

variable {interval : Duration} {original fragments updated : ExtTreeMap Nat FragmentAssembly}
variable {requests sent : List RepairRequest} {pending : List (Nat × FragmentAssembly)}
variable {assembly : FragmentAssembly} {mask : Nat}

theorem Noting.refl (fragments : ExtTreeMap Nat FragmentAssembly)
    (requests : List RepairRequest) : Noting fragments fragments requests :=
  ⟨fun _ notes => notes, fun _ _ found _ => Or.inl found⟩

/-- A mask of the vacant slots covers the assembly. -/
theorem FragmentAssembly.coveredBy_missingMask (missing : assembly.missingMask = some mask) :
    assembly.CoveredBy mask := by
  intro fragment bound
  cases slot : assembly.fragments[fragment] with
  | none =>
      left
      rw [missingMask_testBit missing, List.getElem?_eq_getElem bound, slot]
  | some payload =>
      right
      exact ⟨payload, by rw [List.getElem?_eq_getElem bound, slot]⟩

theorem Noting.insert (noting : Noting original fragments requests) (sequence : Nat)
    (missing : assembly.missingMask = some mask) (now : Instant) :
    Noting original
      (fragments.insert sequence { assembly with lastRepairRequest := some now })
      (requests ++ [⟨sequence, mask⟩]) where
  kept other notes := (noting.kept other notes).insert _ _ _
  asked other updated found requested := by
    rcases OrderedMap.getElem?_insert_eq_some found with ⟨rfl, rfl⟩ | found
    · exact Or.inr ⟨mask, List.mem_append_right _ List.mem_cons_self,
        FragmentAssembly.coveredBy_missingMask missing⟩
    · apply (noting.asked other updated found requested).imp_right
      rintro ⟨mask, member, covered⟩
      exact ⟨mask, List.mem_append_left _ member, covered⟩

theorem requestFragmentRepairs_noting (noting : Noting original fragments requests)
    (requested : requestFragmentRepairs interval now pending (fragments, requests) =
      some (updated, sent)) :
    Noting original updated sent ∧ requests ⊆ sent ∧
      ∀ sequence, NotesIn fragments sequence → NotesIn updated sequence := by
  induction pending generalizing fragments requests with
  | nil =>
      cases requested
      exact ⟨noting, List.Subset.refl _, fun _ notes => notes⟩
  | cons entry rest induction =>
      rcases entry with ⟨sequence, assembly⟩
      rw [requestFragmentRepairs] at requested
      split at requested
      · cases requested
        exact ⟨noting, List.Subset.refl _, fun _ notes => notes⟩
      · split at requested
        · exact induction noting requested
        · split at requested
          · cases requested
          · exact induction noting requested
          · rename_i mask _ missing
            rcases induction (noting.insert sequence missing now) requested with
              ⟨noted, within, kept⟩
            exact ⟨noted, List.Subset.trans (List.subset_append_left _ _) within,
              fun other notes => kept other (notes.insert _ _ _)⟩

/-- The first assembly is always asked for. -/
theorem requestFragmentRepairs_first
    (few : requests.length < maxRepairRequestsPerTick)
    (found : fragments[sequence]? = some assembly)
    (missing : assembly.missingMask = some mask) (nonzero : mask ≠ 0)
    (requested : requestFragmentRepairs interval now ((sequence, assembly) :: pending)
      (fragments, requests) = some (updated, sent)) : NotesIn updated sequence := by
  rw [requestFragmentRepairs, if_neg (Nat.not_le.mpr few)] at requested
  split at requested
  · rename_i recent
    have noted : assembly.lastRepairRequest ≠ none := by
      intro unnoted
      rw [unnoted] at recent
      cases recent
    exact (requestFragmentRepairs_noting (.refl _ _) requested).2.2 _ ⟨assembly, found, noted⟩
  · rw [missing] at requested
    split at requested
    · rename_i impossible
      cases impossible
    · rename_i zero
      cases zero
      exact absurd rfl nonzero
    · apply (requestFragmentRepairs_noting (.refl _ _) requested).2.2
      exact ⟨_, ExtTreeMap.getElem?_insert_self, Option.some_ne_none now⟩

theorem WellFormed.missingMask_ne_zero (wellFormed : WellFormed state)
    (found : state.fragments[sequence]? = some assembly) :
    ∃ mask, assembly.missingMask = some mask ∧ mask ≠ 0 := by
  rcases wellFormed.missingMask_fits found with ⟨mask, missing, -⟩
  refine ⟨mask, missing, ?_⟩
  rintro rfl
  have complete : assembly.isComplete = true := by
    rw [FragmentAssembly.isComplete_iff]
    intro slot member
    rcases List.getElem_of_mem member with ⟨index, bound, rfl⟩
    have held := mt (FragmentAssembly.missingMask_testBit missing index).mpr (by simp)
    rw [List.getElem?_eq_getElem bound] at held
    rw [Option.isSome_iff_ne_none]
    exact fun vacant => held (congrArg some vacant)
  rw [wellFormed.assembly_incomplete found] at complete
  cases complete

/-- What a call leaves behind. -/
theorem requestDueRepairs_outcome
    (requested : requestDueRepairs interval now state = some after) :
    ∃ fragments sent, requestFragmentRepairs interval now state.fragments.toList
        (state.fragments, if gapRepairDue interval now state then
          [⟨state.nextSeq, repairAllFragmentsMask⟩] else []) = some (fragments, sent) ∧
      after = { state with
        fragments := fragments
        gapRepairRequests :=
          if gapRepairDue interval now state then state.gapRepairRequests.insert state.nextSeq now
          else state.gapRepairRequests
        trace := state.trace ++ sent.map .repairRequest } := by
  rw [requestDueRepairs] at requested
  split at requested
  · cases requested
  · rename_i fragments sent outcome
    rw [sendRepairRequests] at requested
    split at requested
    · cases requested
      exact ⟨fragments, sent, outcome, rfl⟩
    · cases requested

theorem NotedAsked.requestDueRepairs (asked : NotedAsked state)
    (requested : requestDueRepairs interval now state = some after) : NotedAsked after := by
  rcases requestDueRepairs_outcome requested with ⟨fragments, sent, outcome, rfl⟩
  rcases requestFragmentRepairs_noting (.refl _ _) outcome with ⟨noting, within, -⟩
  constructor
  · intro sequence member
    dsimp only at member
    split at member
    · rename_i due
      rcases OrderedMap.mem_insert_iff.mp member with rfl | member
      · apply List.mem_append_right
        exact List.mem_map_of_mem (within (by simp [due]))
      · exact List.mem_append_left _ (asked.gap sequence member)
    · exact List.mem_append_left _ (asked.gap sequence member)
  · intro sequence assembly found requested
    rcases noting.asked sequence assembly found requested with earlier | ⟨mask, member, covered⟩
    · rcases asked.assembly sequence assembly earlier requested with ⟨mask, member, covered⟩
      exact ⟨mask, List.mem_append_left _ member, covered⟩
    · exact ⟨mask, List.mem_append_right _ (List.mem_map_of_mem member), covered⟩

/-- When something is pending, the head position is noted after the call. -/
theorem requestDueRepairs_head (wellFormed : WellFormed state)
    (absent : state.nextSeq ∉ state.buffered) (pending : state.hasPendingState = true)
    (requested : requestDueRepairs interval now state = some after) :
    after.Noted state.nextSeq := by
  rcases requestDueRepairs_outcome requested with ⟨fragments, sent, outcome, rfl⟩
  by_cases assembled : state.nextSeq ∈ state.fragments
  · rcases OrderedMap.mem_iff_getElem?.mp assembled with ⟨assembly, found⟩
    rcases OrderedMap.toList_of_least found fun key member =>
      (wellFormed.fragments_inWindow member).1 with ⟨rest, first⟩
    rcases wellFormed.missingMask_ne_zero found with ⟨mask, missing, nonzero⟩
    rw [first] at outcome
    right
    apply requestFragmentRepairs_first _ found missing nonzero outcome
    split
    · exact Nat.succ_lt_succ (Nat.zero_lt_succ 62)
    · exact Nat.zero_lt_succ 63
  · left
    dsimp only
    split
    · exact OrderedMap.mem_insert_iff.mpr (Or.inl rfl)
    · rename_i notDue
      by_contra unnoted
      apply notDue
      have none := ExtTreeMap.getElem?_eq_none unnoted
      have held : state.buffered.isEmpty = false ∨ state.fragments.isEmpty = false := by
        by_contra nothing
        rw [not_or, Bool.not_eq_false, Bool.not_eq_false] at nothing
        have seen := wellFormed.seen_empty (ExtTreeMap.isEmpty_iff.mp nothing.1)
        simp [ReorderState.hasPendingState, nothing, seen] at pending
      have unbuffered : state.buffered.contains state.nextSeq = false := by
        rw [← Bool.not_eq_true, ExtTreeMap.contains_iff_mem]
        exact absent
      have unassembled : state.fragments.contains state.nextSeq = false := by
        rw [← Bool.not_eq_true, ExtTreeMap.contains_iff_mem]
        exact assembled
      simpa [gapRepairDue, none, unbuffered, unassembled] using held

theorem NotedAsked.advanceReorderWindow (asked : NotedAsked state)
    (advanced : advanceReorderWindow config now state = some after) : NotedAsked after := by
  rcases Option.map_eq_some_iff.mp advanced with ⟨requested, outcome, rfl⟩
  apply drainReady
  apply expireReorderGap
  split at outcome
  · cases outcome
    exact asked.recoverFecReady
  · exact asked.recoverFecReady.requestDueRepairs outcome

/-! ## Whole rounds -/

/-- Filling a slot leaves a mask that covers the assembly. -/
theorem FragmentAssembly.CoveredBy.fill (covered : assembly.CoveredBy mask) (fragment : Nat)
    (payload : Bytes) (vacant : assembly.fragments[fragment]? = some none) :
    (assembly.fill fragment payload vacant).CoveredBy mask := by
  intro other bound
  rw [length_fill] at bound
  by_cases same : fragment = other
  · subst same
    exact Or.inr ⟨payload, List.getElem?_set_self bound⟩
  · apply (covered other bound).imp_right
    rintro ⟨earlier, filled⟩
    exact ⟨earlier, (List.getElem?_set_ne same).trans filled⟩

theorem NotedAsked.assemble {packet : ReceivedPacket} {filled : FragmentAssembly}
    (asked : NotedAsked state) (fills : Fills now packet state filled) :
    NotedAsked { state with
      fragments := state.fragments.insert packet.header.sequence filled } where
  gap := asked.gap
  assembly := by
    intro sequence assembly found requested
    rcases OrderedMap.getElem?_insert_eq_some found with ⟨rfl, rfl⟩ | earlier
    · rcases fills.fill with ⟨vacant, rfl⟩
      have requested : (assemblyFor now packet state).lastRepairRequest ≠ none := requested
      cases present : state.fragments[packet.header.sequence]? with
      | none =>
          rw [assemblyFor, present] at requested
          exact absurd rfl requested
      | some assembly =>
          have same : assemblyFor now packet state = assembly := by
            rw [assemblyFor, present, Option.getD_some]
          rw [same] at requested
          rcases asked.assembly _ assembly present requested with ⟨mask, member, covered⟩
          rw [← same] at covered
          exact ⟨mask, member, covered.fill _ _ vacant⟩
    · exact asked.assembly sequence assembly earlier requested

theorem NotedAsked.processAdmitted {packet : ReceivedPacket} (asked : NotedAsked state)
    (wellFormed : WellFormed state)
    (processed : processAdmitted config now packet state = some next) : NotedAsked next := by
  have completed : ∀ payload, Server.advanceReorderWindow config now (Server.recoverFecReady now
      (Server.acceptCompletePayload now packet.header.sequence payload
        (takeComplete packet.header.sequence state))) = some next → NotedAsked next := by
    intro payload advanced
    have taken : NotedAsked (takeComplete packet.header.sequence state) :=
      asked.fewer (fun _ member => member)
        (fun _ _ found => (OrderedMap.getElem?_erase_eq_some.mp found).2) (List.prefix_refl _)
    exact (taken.acceptCompletePayload _ payload).recoverFecReady.advanceReorderWindow advanced
  have repeated : NotedAsked (state.emit (.duplicate packet.header.sequence)) :=
    asked.stays rfl rfl (List.prefix_append _ _)
  rw [Server.processAdmitted] at processed
  split at processed
  · cases processed
    exact repeated
  · by_cases whole : packet.header.fragments = 1
    · rw [reassemble_whole whole] at processed
      exact completed _ processed
    · rcases reassemble_cases now wellFormed whole with
        ⟨-, duplicate⟩ | ⟨filled, fills, ⟨-, outcome⟩ | ⟨-, payload, -, outcome⟩⟩
      · rw [duplicate] at processed
        cases processed
        exact repeated
      · rw [outcome] at processed
        exact (asked.assemble fills).advanceReorderWindow processed
      · rw [outcome] at processed
        exact completed payload processed

theorem NotedAsked.rejectLate (asked : NotedAsked state) (packet : ReceivedPacket) :
    NotedAsked (rejectLate packet state) := by
  rw [Server.rejectLate]
  split
  · exact asked.stays rfl rfl (List.prefix_append _ _)
  · exact asked.stays rfl rfl (List.prefix_append _ _)

theorem NotedAsked.admitPacket (asked : NotedAsked state) (packet : ReceivedPacket) :
    NotedAsked (admitPacket packet state).state := by
  rw [Server.admitPacket]
  split
  · split
    · exact asked.rejectLate packet
    · have observed : NotedAsked
          { state with
            restartDetector :=
              (state.restartDetector.observe packet.header.sequence state.nextSeq).1 } :=
        asked.stays rfl rfl (List.prefix_refl _)
      dsimp only
      split
      · exact .of_empty rfl rfl
      · exact observed.rejectLate packet
  · exact asked.stays rfl rfl (List.prefix_refl _)

theorem NotedAsked.onPacket {packet : ReceivedPacket} (asked : NotedAsked state)
    (consistent : Consistent state) (stepped : onPacket config now packet state = some next) :
    NotedAsked next := by
  have rule := consistent_invariant config
  have opened : NotedAsked (openFlow packet state) := by
    rw [openFlow]
    split
    · exact asked.stays rfl rfl (List.prefix_refl _)
    · exact asked.stays rfl rfl (List.prefix_append _ _)
  have admitted := opened.admitPacket packet
  have wellFormed := (rule.admitPacket packet (rule.openFlow packet consistent trivial)).1
  rw [Server.onPacket] at stepped
  split at stepped
  · rename_i final outcome
    cases stepped
    rw [outcome] at admitted
    exact admitted
  · rename_i proceeding outcome
    rw [outcome] at admitted wellFormed
    exact admitted.processAdmitted wellFormed stepped

theorem NotedAsked.reorderStep (asked : NotedAsked state) (consistent : Consistent state)
    (stepped : reorderStep config state timed = some next) : NotedAsked next := by
  rcases timed with ⟨now, (packet | fec) | -⟩
  · exact asked.onPacket consistent stepped
  · simp only [Server.reorderStep, onFec] at stepped
    have routed : NotedAsked (ReorderState.setReplyRoutes fec.remote false
        { state with fecState := state.fecState.insertFrame fec.frame }) :=
      asked.stays rfl rfl (List.prefix_refl _)
    split at stepped
    · exact routed.recoverFecReady.advanceReorderWindow stepped
    · cases stepped
      exact asked.stays rfl rfl (List.prefix_refl _)
  · simp only [Server.reorderStep, onTimeout] at stepped
    split at stepped
    · cases stepped
      exact asked
    · split at stepped
      · exact asked.advanceReorderWindow stepped
      · cases stepped
        exact asked.fewer (fun _ member => absurd member ExtTreeMap.not_mem_empty)
          (fun _ _ found => found) (List.prefix_refl _)

/-- In every reachable state, what is noted has been asked for. -/
theorem reorderLoop_notedAsked {inputs : List TimedInput}
    (reached : reorderLoop config inputs = some state) : NotedAsked state := by
  have start : NotedAsked .initial := .of_empty rfl rfl
  have kept : Consistent state ∧ NotedAsked state := by
    apply reorderLoop_induction start _ reached
    intro state next timed consistent asked stepped
    exact asked.reorderStep consistent stepped
  exact kept.2

/-! ## What has been asked for -/

/-- The loop has asked for all that the position lacks. -/
def ReorderState.AskedFor (state : ReorderState) (sequence : Nat) : Prop :=
  ∃ mask, .repairRequest ⟨sequence, mask⟩ ∈ state.trace ∧
    (state.fragments[sequence]? = none → mask = repairAllFragmentsMask) ∧
    ∀ assembly : FragmentAssembly, state.fragments[sequence]? = some assembly →
      assembly.CoveredBy mask

theorem repairAllFragmentsMask_testBit :
    ∀ fragment < maxFragments, repairAllFragmentsMask.testBit fragment = true := by
  decide

theorem NotedAsked.askedFor (asked : NotedAsked state) (wellFormed : WellFormed state)
    (noted : state.Noted sequence) : state.AskedFor sequence := by
  rcases noted with member | ⟨assembly, found, requested⟩
  · refine ⟨repairAllFragmentsMask, asked.gap sequence member, fun _ => rfl, ?_⟩
    intro assembly found fragment bound
    left
    apply repairAllFragmentsMask_testBit
    exact Nat.lt_of_lt_of_le bound (wellFormed.assembly_slots found).2
  · rcases asked.assembly sequence assembly found requested with ⟨mask, member, covered⟩
    refine ⟨mask, member, ?_, ?_⟩
    · intro absent
      cases found.symm.trans absent
    · intro other same
      cases found.symm.trans same
      exact covered

theorem ReorderState.AskedFor.stays (asked : before.AskedFor sequence)
    (fragments : after.fragments = before.fragments)
    (trace : ∀ effect ∈ before.trace, effect ∈ after.trace) : after.AskedFor sequence := by
  rcases asked with ⟨mask, sent, rest⟩
  rw [AskedFor, fragments]
  exact ⟨mask, trace _ sent, rest⟩

theorem traced_invariant (config : ReorderConfig) (effect : Effect) :
    LoopInvariant config (fun _ => True) (fun _ _ => True) fun state =>
      effect ∈ state.trace where
  round _ move sent := by
    cases move with
    | routes _ | observe _ | join _ | assemble _ _ _ _ _ | store _ | idle _ _ => exact sent
    | start _ | restart _ _ | duplicate _ | lateAfterSkip _ => exact List.mem_append_left _ sent
  window now :=
    { move := by
        intro before after _ _ move sent
        rcases move.passes with ⟨effects, trace, -⟩
        rw [trace]
        exact List.mem_append_left _ sent
      recovered := fun _ _ _ => trivial }
  whole _ _ := trivial
  assembled _ _ _ _ _ _ := trivial

/-- What a round finds reported stays reported. -/
theorem mem_trace_of_reorderStep (consistent : Consistent state)
    (stepped : reorderStep config state timed = some next) :
    ∀ effect ∈ state.trace, effect ∈ next.trace := by
  intro effect sent
  rcases (traced_invariant config effect).reorderStep (fun _ _ => trivial) consistent sent with
    ⟨other, same, -, kept⟩
  cases stepped.symm.trans same
  exact kept

end Irohsion.Server
