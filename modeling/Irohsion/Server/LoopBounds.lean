import Irohsion.Server.AdvanceWindow

/-! # The loops leave by `break`

The bounds that the modelled loops run under are never used up: each loop has a
measure that falls in every round it repeats.
-/

namespace Irohsion.Server

open Protocol Std

/-! ## Limits of the caches -/

theorem FecState.enforceFrameLimit_breaks (fec : FecState) :
    BreakLoop.run? enforceFrameStep (fec.frameOrder.length + 1) fec =
      some fec.enforceFrameLimit := by
  apply BreakLoop.run?_queue FecState.frameOrder
  intro state next yields
  rw [enforceFrameStep] at yields
  split at yields
  · cases yields
  · split at yields
    · cases yields
    · rename_i order
      cases yields
      simp [order]

theorem FecState.enforcePayloadLimit_breaks (fec : FecState) :
    BreakLoop.run? enforcePayloadStep (fec.payloadOrder.length + 1) fec =
      some fec.enforcePayloadLimit := by
  apply BreakLoop.run?_queue FecState.payloadOrder
  intro state next yields
  rw [enforcePayloadStep] at yields
  split at yields
  · cases yields
  · split at yields
    · cases yields
    · rename_i order
      cases yields
      simp [order]

theorem RecentSkippedSequences.expire_breaks (skipped : RecentSkippedSequences) :
    BreakLoop.run? expireStep (skipped.order.length + 1) skipped =
      some (BreakLoop.run expireStep (skipped.order.length + 1) skipped) := by
  apply BreakLoop.run?_queue RecentSkippedSequences.order
  intro state next yields
  rw [expireStep] at yields
  split at yields
  · cases yields
  · split at yields
    · cases yields
    · rename_i order
      cases yields
      simp [order]

/-! ## Draining -/

theorem drainReady_breaks (state : ReorderState) :
    BreakLoop.run? drainStep (state.buffered.size + 1) state = some (drainReady state) := by
  refine @BreakLoop.run?_eq_some _ (fun _ => True) _ (fun state => state.buffered.size) ?_
    _ state trivial (Nat.lt_succ_self _)
  intro state next _ yields
  rw [drainStep] at yields
  split at yields
  · cases yields
  · rename_i packet found
    cases yields
    have smaller := OrderedMap.size_erase_of_mem (OrderedMap.mem_of_getElem? found)
    exact ⟨trivial, by simp only [drainPacket]; omega⟩

/-- Draining stops at a position that is not buffered. -/
theorem drainReady_drained (state : ReorderState) :
    (drainReady state).nextSeq ∉ (drainReady state).buffered := by
  rcases BreakLoop.run?_exit (fun _ _ _ _ => trivial) _ _ _ trivial (drainReady_breaks state) with
    ⟨last, _, left⟩
  rw [drainStep] at left
  split at left
  · rename_i missing
    cases left
    rw [ExtTreeMap.mem_iff_isSome_getElem?, missing]
    exact Bool.false_ne_true
  · cases left

theorem advanceReorderWindow_drained {config : ReorderConfig} {now : Instant}
    {state next : ReorderState} (advanced : advanceReorderWindow config now state = some next) :
    next.nextSeq ∉ next.buffered := by
  rcases Option.map_eq_some_iff.mp advanced with ⟨requested, _, rfl⟩
  exact drainReady_drained _

/-! ## Recovering -/

theorem FecState.length_recoveredFrom_le (fec : FecState) (nextSeq : Nat) (buffered : Buffered)
    (base : Nat) : (fec.recoveredFrom nextSeq buffered base).length ≤ 1 := by
  rw [recoveredFrom]
  split
  · exact Nat.zero_le _
  · split
    · split <;> simp
    · exact Nat.zero_le _

/-- Every recovered pair uses up a frame. -/
theorem FecState.size_foldl_recoverFrame {nextSeq : Nat} {buffered : Buffered}
    (bases : List Nat) (progress : FecState × List (Nat × Bytes)) :
    (bases.foldl (recoverFrame nextSeq buffered) progress).1.frames.size +
        (bases.foldl (recoverFrame nextSeq buffered) progress).2.length ≤
      progress.1.frames.size + progress.2.length := by
  induction bases generalizing progress with
  | nil => exact Nat.le_refl _
  | cons base bases induction =>
      rcases progress with ⟨fec, recovered⟩
      apply Nat.le_trans (induction _)
      rcases recoverFrame_eq nextSeq buffered fec recovered base with
        ⟨same, _⟩ | ⟨member, erased⟩
      · rw [same]
      · have smaller := OrderedMap.size_erase_of_mem member
        have atMostOne := fec.length_recoveredFrom_le nextSeq buffered base
        rw [erased]
        simp only [List.length_append]
        omega

theorem FecState.size_recoverReady (fec : FecState) (nextSeq : Nat) (buffered : Buffered) :
    (fec.recoverReady nextSeq buffered).1.frames.size +
        (fec.recoverReady nextSeq buffered).2.length ≤ fec.frames.size :=
  size_foldl_recoverFrame fec.frames.keys (fec, [])

theorem drainReady_frames (state : ReorderState) :
    (drainReady state).fecState.frames = state.fecState.frames := by
  apply BreakLoop.run_unchanged fun state : ReorderState => state.fecState.frames
  intro state
  rw [drainStep]
  split
  · rfl
  · exact FecState.insertPayload_frames _ _ _

theorem acceptCompletePayload_frames (now : Instant) (sequence : Nat) (payload : Bytes)
    (state : ReorderState) :
    (acceptCompletePayload now sequence payload state).fecState.frames =
      state.fecState.frames := by
  unfold acceptCompletePayload
  dsimp only
  split
  · rw [drainReady_frames]
    exact FecState.insertPayload_frames _ _ _
  · exact FecState.insertPayload_frames _ _ _

theorem foldl_acceptRecovered_frames (now : Instant) (recovered : List (Nat × Bytes))
    (progress : ReorderState × Bool) :
    (recovered.foldl (acceptRecovered now) progress).1.fecState.frames =
      progress.1.fecState.frames := by
  induction recovered generalizing progress with
  | nil => rfl
  | cons pair rest induction =>
      rw [List.foldl_cons, induction]
      simp only [acceptRecovered]
      split
      · rfl
      · exact acceptCompletePayload_frames _ _ _ _

theorem recoverFecReady_breaks (now : Instant) (state : ReorderState) :
    BreakLoop.run? (recoverStep now) (state.fecState.frames.size + 1) state =
      some (recoverFecReady now state) := by
  refine @BreakLoop.run?_eq_some _ (fun _ => True) _
    (fun state => state.fecState.frames.size) ?_ _ state trivial (Nat.lt_succ_self _)
  intro state next _ yields
  rw [recoverStep] at yields
  split at yields
  rename_i fec recovered search
  have used := FecState.size_recoverReady state.fecState state.nextSeq state.buffered
  rw [search] at used
  dsimp only at yields
  split at yields
  · cases yields
  · rename_i nonempty
    have positive : 0 < recovered.length := by
      rw [List.length_pos_iff]
      simpa using nonempty
    split at yields
    · rename_i final outcome
      cases yields
      have frames := foldl_acceptRecovered_frames now recovered
        ({ state with fecState := fec }, false)
      rw [outcome] at frames
      dsimp only at frames
      rw [frames]
      dsimp only at used
      exact ⟨trivial, by omega⟩
    · cases yields

/-! ## Expiring -/

/-- The positions left before nothing is pending any more. -/
def expireMeasure (state : ReorderState) : Nat :=
  if state.buffered.isEmpty ∧ state.fragments.isEmpty then 0
  else maxMediaSequence + 1 - state.nextSeq

theorem exists_pending {state : ReorderState}
    (pending : ¬ (state.buffered.isEmpty ∧ state.fragments.isEmpty)) :
    ∃ sequence, sequence ∈ state.buffered ∨ sequence ∈ state.fragments := by
  by_contra none
  rw [not_exists] at none
  refine pending ⟨?_, ?_⟩
  · rw [ExtTreeMap.isEmpty_iff, ExtTreeMap.eq_empty_iff_forall_not_mem]
    exact fun sequence member => none sequence (Or.inl member)
  · rw [ExtTreeMap.isEmpty_iff, ExtTreeMap.eq_empty_iff_forall_not_mem]
    exact fun sequence member => none sequence (Or.inr member)

theorem WellFormed.pending_inWindow {state : ReorderState} (wellFormed : WellFormed state)
    {sequence : Nat} (pending : sequence ∈ state.buffered ∨ sequence ∈ state.fragments) :
    state.nextSeq ≤ sequence ∧ sequence ≤ maxMediaSequence := by
  rcases pending with member | member
  · exact wellFormed.buffered_inWindow member
  · rcases wellFormed.fragments_inWindow member with ⟨ahead, media, _⟩
    exact ⟨ahead, media⟩

/-- A round of the loop skips one position, and only while something is pending. -/
theorem expireStep_yield {config : ReorderConfig} {now : Instant} {state next : ReorderState}
    (yields : expireStep config now state = .yield next) :
    next.nextSeq = nextSequence state.nextSeq ∧
      (∃ sequence, sequence ∈ state.buffered ∨ sequence ∈ state.fragments) ∧
      ∀ sequence, sequence ∈ next.buffered ∨ sequence ∈ next.fragments →
        sequence ≠ state.nextSeq ∧
          (sequence ∈ state.buffered ∨ sequence ∈ state.fragments) := by
  rcases expireStep_skips yields with
    ⟨absent, ⟨assembly, found, -, rfl⟩ | ⟨missing, oldest, pending, -, rfl⟩⟩
  · refine ⟨rfl, ⟨state.nextSeq, Or.inr (OrderedMap.mem_of_getElem? found)⟩, ?_⟩
    rintro sequence (member | member)
    · exact ⟨fun same => absent (same ▸ member), Or.inl member⟩
    · rcases OrderedMap.mem_erase_iff.mp member with ⟨different, member⟩
      exact ⟨different, Or.inr member⟩
  · refine ⟨rfl, exists_pending ?_, ?_⟩
    · rintro ⟨buffered, fragments⟩
      rw [ExtTreeMap.isEmpty_iff, ← ExtTreeMap.toList_eq_nil_iff] at buffered fragments
      rw [oldestPending, buffered, fragments] at pending
      cases pending
    · rintro sequence (member | member)
      · exact ⟨fun same => absent (same ▸ member), Or.inl member⟩
      · have present := ExtTreeMap.mem_iff_isSome_getElem?.mp member
        refine ⟨?_, Or.inr member⟩
        rintro rfl
        rw [show (skipSequence _ state).fragments = state.fragments from rfl, missing] at present
        cases present

/-- Skipping the last position leaves nothing pending. -/
theorem expireStep_decreases {config : ReorderConfig} {now : Instant}
    {state next : ReorderState} (wellFormed : WellFormed state)
    (yields : expireStep config now state = .yield next) :
    WellFormed next ∧ expireMeasure next < expireMeasure state := by
  have nextWellFormed : WellFormed next := by
    rcases expireStep_cases config now (fun _ _ => True) state with done | ⟨_, same, move⟩
    · cases done.symm.trans yields
    · cases same.symm.trans yields
      exact wellFormed.windowMove move
  rcases expireStep_yield yields with ⟨position, ⟨sequence, pending⟩, earlier⟩
  have inRange := wellFormed.nextSeq_le
  have started : ¬ (state.buffered.isEmpty ∧ state.fragments.isEmpty) := by
    intro empty
    rcases empty with ⟨buffered, fragments⟩
    rw [ExtTreeMap.isEmpty_iff] at buffered fragments
    simp [buffered, fragments] at pending
  refine ⟨nextWellFormed, ?_⟩
  rw [expireMeasure, expireMeasure, if_neg started]
  split
  · omega
  · rename_i remaining
    rcases exists_pending remaining with ⟨later, stillPending⟩
    rcases earlier later stillPending with ⟨different, wasPending⟩
    have inWindow := wellFormed.pending_inWindow wasPending
    rw [position, nextSequence, if_neg (by omega)]
    omega

theorem expireReorderGap_breaks {config : ReorderConfig} {now : Instant} {state : ReorderState}
    (wellFormed : WellFormed state) :
    BreakLoop.run? (expireStep config now) (maxMediaSequence + 2) state =
      some (expireReorderGap config now state) := by
  refine @BreakLoop.run?_eq_some _ WellFormed _ expireMeasure ?_ _ state wellFormed ?_
  · intro state next wellFormed yields
    exact expireStep_decreases wellFormed yields
  · rw [expireMeasure]
    split <;> omega

end Irohsion.Server
