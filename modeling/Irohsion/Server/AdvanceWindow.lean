import Irohsion.Server.WellFormed

/-! # Advancing the window

`advance_reorder_window` on well-formed states: its repair requests never
panic, its loops leave by `break`, and it preserves every window invariant.
-/

namespace Irohsion.Server

open Protocol Std

/-! ## Repair requests -/

theorem SameContent.refl (fragments : ExtTreeMap Nat FragmentAssembly) :
    SameContent fragments fragments := fun _ => rfl

theorem SameContent.insert {before after : ExtTreeMap Nat FragmentAssembly} {sequence : Nat}
    {assembly updated : FragmentAssembly} (same : SameContent before after)
    (found : before[sequence]? = some assembly) (content : updated.content = assembly.content) :
    SameContent before (after.insert sequence updated) := by
  intro other
  by_cases equal : sequence = other
  · subst equal
    rw [ExtTreeMap.getElem?_insert_self, found, Option.map_some, Option.map_some, content]
  · rw [OrderedMap.getElem?_insert_of_ne equal]
    exact same other

/-- What a repair request may ask for: everything at a missing head position
behind which something is held, or the vacant slots of an assembly. -/
inductive ReorderState.Asks (state : ReorderState) : RepairRequest → Prop
  | gap :
      state.nextSeq ∉ state.buffered →
      state.nextSeq ∉ state.fragments →
      state.buffered.isEmpty = false ∨ state.fragments.isEmpty = false →
      Asks state ⟨state.nextSeq, repairAllFragmentsMask⟩
  | assembly {sequence missingMask : Nat} {assembly : FragmentAssembly} :
      state.fragments[sequence]? = some assembly →
      assembly.missingMask = some missingMask →
      missingMask ≠ 0 →
      Asks state ⟨sequence, missingMask⟩

theorem requestFragmentRepairs_spec {interval : Duration} {now : Instant}
    {Asked : RepairRequest → Prop} {original : ExtTreeMap Nat FragmentAssembly}
    {pending : List (Nat × FragmentAssembly)}
    (members : ∀ entry ∈ pending, original[entry.1]? = some entry.2 ∧
      ∃ missingMask, entry.2.missingMask = some missingMask ∧
        (missingMask ≠ 0 → Asked ⟨entry.1, missingMask⟩))
    {fragments : ExtTreeMap Nat FragmentAssembly} {requests : List RepairRequest}
    (same : SameContent original fragments) (asked : ∀ request ∈ requests, Asked request) :
    ∃ updated sent,
      requestFragmentRepairs interval now pending (fragments, requests) = some (updated, sent) ∧
        SameContent original updated ∧ ∀ request ∈ sent, Asked request := by
  induction pending generalizing fragments requests with
  | nil => exact ⟨fragments, requests, rfl, same, asked⟩
  | cons entry rest induction =>
      rcases entry with ⟨sequence, assembly⟩
      rw [List.forall_mem_cons] at members
      rcases members with ⟨⟨found, missingMask, mask, isAsked⟩, others⟩
      rw [requestFragmentRepairs]
      split
      · exact ⟨fragments, requests, rfl, same, asked⟩
      · split
        · exact induction others same asked
        · simp only [mask]
          split
          · rename_i impossible
            cases impossible
          · exact induction others same asked
          · rename_i missing nonzero maskEq
            cases maskEq
            refine induction others (same.insert found rfl) ?_
            rw [List.forall_mem_append, List.forall_mem_singleton]
            exact ⟨asked, isAsked fun zero => nonzero (by rw [zero])⟩

theorem WellFormed.missingMask_fits {state : ReorderState} (wellFormed : WellFormed state)
    {sequence : Nat} {assembly : FragmentAssembly}
    (found : state.fragments[sequence]? = some assembly) :
    ∃ missingMask, assembly.missingMask = some missingMask ∧
      missingMask ≤ repairAllFragmentsMask := by
  rcases FragmentAssembly.missingMask_fits (wellFormed.assembly_slots found).2 with
    ⟨missingMask, mask, fits⟩
  exact ⟨missingMask, mask, Nat.le_of_lt_succ fits⟩

theorem ReorderState.Asks.fits {state : ReorderState} {request : RepairRequest}
    (asks : state.Asks request) (wellFormed : WellFormed state) :
    request.missingMask ≤ repairAllFragmentsMask := by
  cases asks with
  | gap _ _ _ => exact Nat.le_refl _
  | assembly found mask _ =>
      rcases wellFormed.missingMask_fits found with ⟨missingMask, computed, fits⟩
      cases mask.symm.trans computed
      exact fits

/-- A request passes the assertions. -/
theorem ReorderState.Asks.valid {state : ReorderState} {request : RepairRequest}
    (asks : state.Asks request) (wellFormed : WellFormed state) : request.Valid := by
  have inRange : maxMediaSequence ≤ maxSequence := by decide
  have allFragments : repairAllFragmentsMask ≠ 0 := by decide
  have noOther := maskOutsideFragments_eq_zero (asks.fits wellFormed)
  cases asks with
  | gap _ _ _ => exact ⟨Nat.le_trans wellFormed.nextSeq_le inRange, allFragments, noOther⟩
  | assembly found _ someFragment =>
      have media := (wellFormed.fragments_inWindow (OrderedMap.mem_of_getElem? found)).2.1
      exact ⟨Nat.le_trans media inRange, someFragment, noOther⟩

theorem sendRepairRequests_of_valid {requests : List RepairRequest}
    (valid : ∀ request ∈ requests, request.Valid) (state : ReorderState) :
    sendRepairRequests requests state =
      some { state with trace := state.trace ++ requests.map .repairRequest } := by
  apply if_pos
  rw [List.all_eq_true]
  intro request member
  rw [encodeRepairRequest, if_pos (valid request member)]
  rfl

theorem asks_of_gapRepairDue {interval : Duration} {now : Instant} {state : ReorderState}
    (due : gapRepairDue interval now state = true) :
    state.Asks ⟨state.nextSeq, repairAllFragmentsMask⟩ := by
  simp only [gapRepairDue, Bool.and_eq_true, Bool.or_eq_true, Bool.not_eq_true'] at due
  rcases due with ⟨⟨⟨unbuffered, unassembled⟩, pending⟩, -⟩
  apply ReorderState.Asks.gap _ _ pending
  · rw [← ExtTreeMap.contains_iff_mem, unbuffered]
    exact Bool.false_ne_true
  · rw [← ExtTreeMap.contains_iff_mem, unassembled]
    exact Bool.false_ne_true

/-- Requesting repairs on a well-formed state succeeds, asks only for what is
missing and keeps what is held. -/
theorem requestDueRepairs_eq (interval : Duration) (now : Instant) {state : ReorderState}
    (wellFormed : WellFormed state) :
    ∃ (fragments : ExtTreeMap Nat FragmentAssembly) (gapRepairRequests : ExtTreeMap Nat Instant)
      (requests : List RepairRequest),
      requestDueRepairs interval now state = some
        { state with
          fragments := fragments
          gapRepairRequests := gapRepairRequests
          trace := state.trace ++ requests.map .repairRequest } ∧
      SameContent state.fragments fragments ∧ ∀ request ∈ requests, state.Asks request := by
  have members : ∀ entry ∈ state.fragments.toList, state.fragments[entry.1]? = some entry.2 ∧
      ∃ missingMask, entry.2.missingMask = some missingMask ∧
        (missingMask ≠ 0 → state.Asks ⟨entry.1, missingMask⟩) := by
    intro entry member
    have found := ExtTreeMap.mem_toList_iff_getElem?_eq_some.mp member
    rcases wellFormed.missingMask_fits found with ⟨missingMask, mask, -⟩
    exact ⟨found, missingMask, mask, .assembly found mask⟩
  have headAsked : ∀ request ∈ (if gapRepairDue interval now state then
      [RepairRequest.mk state.nextSeq repairAllFragmentsMask] else []), state.Asks request := by
    intro request member
    split at member
    · rename_i due
      rw [List.mem_singleton.mp member]
      exact asks_of_gapRepairDue due
    · cases member
  rcases @requestFragmentRepairs_spec interval now _ _ _ members _ _
    (SameContent.refl state.fragments) headAsked with ⟨updated, sent, requested, same, asked⟩
  have outcome : requestDueRepairs interval now state = sendRepairRequests sent
      { state with
        fragments := updated
        gapRepairRequests :=
          if gapRepairDue interval now state then state.gapRepairRequests.insert state.nextSeq now
          else state.gapRepairRequests } := by
    simp only [requestDueRepairs, requested]
  rw [sendRepairRequests_of_valid fun request member =>
    (asked request member).valid wellFormed] at outcome
  exact ⟨_, _, sent, outcome, same, asked⟩

/-- Requesting repairs on a well-formed state is one move. -/
theorem requestDueRepairs_move (config : ReorderConfig) (interval : Duration) (now : Instant)
    (Source : Nat → Bytes → Prop) {state : ReorderState} (wellFormed : WellFormed state) :
    ∃ requested, requestDueRepairs interval now state = some requested ∧
      WindowMove config now Source state requested := by
  rcases requestDueRepairs_eq interval now wellFormed with ⟨_, _, sent, outcome, same, _⟩
  exact ⟨_, outcome, .request sent same⟩

/-- Requesting repairs changes neither the position nor what is held. -/
structure Requested (before after : ReorderState) : Prop where
  initialized : after.initialized = before.initialized
  nextSeq : after.nextSeq = before.nextSeq
  buffered : after.buffered = before.buffered
  fragments : SameContent before.fragments after.fragments
  fecState : after.fecState = before.fecState
  wellFormed : WellFormed after

/-- The parts of an advance after the recovery. -/
theorem advanceReorderWindow_eq (config : ReorderConfig) (now : Instant) {state : ReorderState}
    (wellFormed : WellFormed (recoverFecReady now state)) :
    ∃ requested, Requested (recoverFecReady now state) requested ∧
      advanceReorderWindow config now state =
        some (drainReady (expireReorderGap config now requested)) := by
  cases repair : config.repairRequestInterval with
  | none =>
      refine ⟨recoverFecReady now state, ⟨rfl, rfl, rfl, SameContent.refl _, rfl, wellFormed⟩, ?_⟩
      simp [advanceReorderWindow, repair]
  | some interval =>
      rcases requestDueRepairs_eq interval now wellFormed with
        ⟨fragments, gapRepairRequests, requests, outcome, same, -⟩
      have advanced : advanceReorderWindow config now state =
          (requestDueRepairs interval now (recoverFecReady now state)).map
            fun state => drainReady (expireReorderGap config now state) := by
        rw [advanceReorderWindow, repair]
      rw [outcome, Option.map_some] at advanced
      refine ⟨_, ?_, advanced⟩
      have move := @WindowMove.request config now (fun _ _ => True) (recoverFecReady now state)
        fragments gapRepairRequests requests same
      exact ⟨rfl, rfl, rfl, same, rfl, wellFormed.windowMove move⟩

/-! ## Whole advances -/

/-- The rule for moves of an initialised, well-formed window. -/
structure ActiveInvariant (config : ReorderConfig) (now : Instant)
    (Source : Nat → Bytes → Prop) (Invariant : ReorderState → Prop) : Prop where
  move : ∀ {before after}, WellFormed before → before.initialized = true →
    WindowMove config now Source before after → Invariant before → Invariant after
  recovered : ∀ {state sequence payload}, WellFormed state → Invariant state →
    (sequence, payload) ∈ (state.fecState.recoverReady state.nextSeq state.buffered).2 →
    Source sequence payload

theorem WindowMove.initialized {config : ReorderConfig} {now : Instant}
    {Source : Nat → Bytes → Prop} {before after : ReorderState}
    (move : WindowMove config now Source before after) :
    after.initialized = before.initialized := by
  cases move with
  | settle _ _ _ =>
      unfold Server.settle
      dsimp only
      split <;> rfl
  | _ => rfl

/-- What the window functions see of the loop: an active, well-formed state
with the invariant. -/
def Active (Invariant : ReorderState → Prop) (state : ReorderState) : Prop :=
  WellFormed state ∧ state.initialized = true ∧ Invariant state

namespace ActiveInvariant

variable {config : ReorderConfig} {now : Instant} {Source : Nat → Bytes → Prop}
variable {Invariant : ReorderState → Prop}

theorem toWindow (rule : ActiveInvariant config now Source Invariant) :
    WindowInvariant config now Source (Active Invariant) where
  move := by
    intro before after move active
    rcases active with ⟨wellFormed, initialized, holds⟩
    exact ⟨wellFormed.windowMove move, move.initialized.trans initialized,
      rule.move wellFormed initialized move holds⟩
  recovered := by
    intro state sequence payload active member
    rcases active with ⟨wellFormed, _, holds⟩
    exact ⟨wellFormed.recovered_media member, rule.recovered wellFormed holds member⟩

/-- What every move preserves can be carried along. -/
theorem also (Other : ReorderState → Prop) (rule : ActiveInvariant config now Source Invariant)
    (other : ∀ {before after}, WindowMove config now Source before after →
      Other before → Other after) :
    ActiveInvariant config now Source (fun state => Invariant state ∧ Other state) where
  move wellFormed active move holds :=
    ⟨rule.move wellFormed active move holds.1, other move holds.2⟩
  recovered wellFormed holds member := rule.recovered wellFormed holds.1 member

theorem advanceReorderWindow (rule : ActiveInvariant config now Source Invariant)
    {state : ReorderState} (active : Active Invariant state) :
    ∃ advanced, advanceReorderWindow config now state = some advanced ∧
      Active Invariant advanced := by
  have recovered := rule.toWindow.recoverFecReady active
  cases repair : config.repairRequestInterval with
  | none =>
      have expired := rule.toWindow.expireReorderGap recovered
      exact ⟨_, by simp [Server.advanceReorderWindow, repair], rule.toWindow.drainReady expired⟩
  | some interval =>
      rcases requestDueRepairs_move config interval now Source recovered.1 with
        ⟨requested, request, move⟩
      have expired := rule.toWindow.expireReorderGap (rule.toWindow.move move recovered)
      exact ⟨_, by simp [Server.advanceReorderWindow, repair, request],
        rule.toWindow.drainReady expired⟩

/-- Once a payload is settled, accepting it and the recovery keep the invariant. -/
theorem acceptTaken (rule : ActiveInvariant config now Source Invariant)
    {state : ReorderState} {sequence : Nat} {payload : Bytes}
    (settled : Active Invariant (settle now sequence payload state)) :
    Active Invariant (recoverFecReady now
      (acceptCompletePayload now sequence payload (takeComplete sequence state))) := by
  rw [acceptCompletePayload_takeComplete, acceptCompletePayload_eq]
  apply rule.toWindow.recoverFecReady
  split
  · exact rule.toWindow.drainReady settled
  · exact settled

/-- So does the rest of the round. -/
theorem acceptComplete (rule : ActiveInvariant config now Source Invariant)
    {state : ReorderState} {sequence : Nat} {payload : Bytes}
    (settled : Active Invariant (settle now sequence payload state)) :
    ∃ next, Server.advanceReorderWindow config now (recoverFecReady now
        (acceptCompletePayload now sequence payload (takeComplete sequence state))) =
      some next ∧ Active Invariant next :=
  rule.advanceReorderWindow (rule.acceptTaken settled)

end ActiveInvariant

/-! ## An empty window -/

/-- Nothing is pending and no parity frame is stored. -/
structure Quiet (state : ReorderState) : Prop where
  buffered : state.buffered = ∅
  fragments : state.fragments = ∅
  frames : state.fecState.frames = ∅

theorem drainReady_of_absent {state : ReorderState} (absent : state.nextSeq ∉ state.buffered) :
    drainReady state = state := by
  have done : drainStep state = .done state := by
    rw [drainStep, ExtTreeMap.getElem?_eq_none absent]
  rw [drainReady, BreakLoop.run, done]

theorem recoverReady_of_no_frames {fec : FecState} (frames : fec.frames = ∅) (nextSeq : Nat)
    (buffered : Buffered) : fec.recoverReady nextSeq buffered = (fec, []) := by
  have keys : fec.frames.keys = [] := by rw [frames, ExtTreeMap.keys_eq_nil_iff]
  rw [FecState.recoverReady, keys]
  rfl

theorem recoverFecReady_of_no_frames (now : Instant) {state : ReorderState}
    (frames : state.fecState.frames = ∅) : recoverFecReady now state = state := by
  have done : recoverStep now state = .done state := by
    rw [recoverStep, recoverReady_of_no_frames frames]
    rfl
  rw [recoverFecReady, BreakLoop.run, done]

namespace Quiet

variable {state : ReorderState}

theorem absent (quiet : Quiet state) : state.nextSeq ∉ state.buffered := by
  rw [quiet.buffered]
  exact ExtTreeMap.not_mem_empty

theorem oldestPending (quiet : Quiet state) : oldestPending state = none := by
  have buffered := ExtTreeMap.toList_eq_nil_iff.mpr quiet.buffered
  have fragments := ExtTreeMap.toList_eq_nil_iff.mpr quiet.fragments
  rw [Server.oldestPending, buffered, fragments]
  rfl

theorem requestDueRepairs (quiet : Quiet state) (interval : Duration) (now : Instant) :
    requestDueRepairs interval now state = some state := by
  have fragments := ExtTreeMap.toList_eq_nil_iff.mpr quiet.fragments
  have due : gapRepairDue interval now state = false := by
    simp [gapRepairDue, quiet.buffered, quiet.fragments]
  rw [Server.requestDueRepairs, due, fragments]
  simp [requestFragmentRepairs, sendRepairRequests]

theorem expireReorderGap (quiet : Quiet state) (config : ReorderConfig) (now : Instant) :
    expireReorderGap config now state = state := by
  have noAssembly : state.fragments[state.nextSeq]? = none := by
    rw [quiet.fragments, ExtTreeMap.getElem?_empty]
  have done : expireStep config now state = .done state := by
    rw [expireStep, if_neg quiet.absent, noAssembly, quiet.oldestPending]
  rw [Server.expireReorderGap, BreakLoop.run, done]

theorem advanceReorderWindow (quiet : Quiet state) (config : ReorderConfig) (now : Instant) :
    advanceReorderWindow config now state = some state := by
  rw [Server.advanceReorderWindow, recoverFecReady_of_no_frames now quiet.frames]
  have unmoved := (congrArg drainReady (quiet.expireReorderGap config now)).trans
    (drainReady_of_absent quiet.absent)
  cases config.repairRequestInterval with
  | none => exact congrArg some unmoved
  | some interval =>
      simp only [quiet.requestDueRepairs interval now, Option.map_some]
      exact congrArg some unmoved

end Quiet

end Irohsion.Server
