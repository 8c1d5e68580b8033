import Irohsion.Server.CachedMembers
import Irohsion.Server.GapExpiry
import Irohsion.Server.PeeledFrames

/-! # Parity frames that are used up

A stored frame is only taken out when all of its members are settled, as long as
the flow is on time and the frame is about positions that are not all due. What
stays stored misses two members that are not settled.
-/

namespace Irohsion.Server

open Protocol Std

/-! ## Searches -/

namespace FecState

/-- A search leaves a frame that waits for two members. -/
theorem stays_of_waits {fec : FecState} {buffered : Buffered} {base : Nat} {frame : FecFrame}
    (found : fec.frames[base]? = some frame) (waits : fec.Waits buffered frame) (nextSeq : Nat) :
    (fec.recoverReady nextSeq buffered).1.frames[base]? = some frame := by
  have scans := waits_iff_scanFrame.mp waits
  have kept : ∀ (bases : List Nat) (fec : FecState) (recovered : List (Nat × Bytes)),
      fec.frames[base]? = some frame →
      scanFrame (fec.payloadFor buffered) frame.baseSequence 0 frame.payloadLengths frame.parity
        none = .multipleMissing →
      (bases.foldl (recoverFrame nextSeq buffered) (fec, recovered)).1.frames[base]? =
        some frame := by
    intro bases
    induction bases with
    | nil => exact fun _ _ found _ => found
    | cons head rest induction =>
        intro fec recovered found scans
        have searched := recoverFrame_searched nextSeq buffered fec recovered head
        have known : (recoverFrame nextSeq buffered (fec, recovered) head).1.payloadFor buffered =
            fec.payloadFor buffered := by
          funext sequence
          rw [payloadFor, payloadFor, searched.payloads]
        have stays : (recoverFrame nextSeq buffered (fec, recovered) head).1.frames[base]? =
            some frame := by
          by_cases here : head = base
          · subst here
            simp only [recoverFrame, found, scans]
          · rw [recoverFrame_other here]
            exact found
        rw [List.foldl_cons]
        rcases step : recoverFrame nextSeq buffered (fec, recovered) head with ⟨next, more⟩
        rw [step] at stays known
        exact induction next more stays (by rw [known]; exact scans)
  exact kept _ _ _ found scans

end FecState

variable {config : ReorderConfig} {broadcast : Broadcast} {content : Content}
variable {first width : Nat} {now : Instant} {state before after : ReorderState}
variable {frame : FecFrame}

theorem recoverStep_frames (now : Instant) (state : ReorderState) :
    (recoverStep now state).value.fecState.frames =
      (state.fecState.recoverReady state.nextSeq state.buffered).1.frames := by
  rw [recoverStep]
  split
  rename_i fec recovered search
  have accepted := foldl_acceptRecovered_frames now recovered
    ({ state with fecState := fec }, false)
  rw [search]
  dsimp only
  split
  · rfl
  · split
    · rename_i final outcome
      rw [outcome] at accepted
      exact accepted
    · rename_i final outcome
      rw [outcome] at accepted
      exact accepted

theorem expireReorderGap_frames (config : ReorderConfig) (now : Instant) (state : ReorderState) :
    (expireReorderGap config now state).fecState.frames = state.fecState.frames := by
  apply BreakLoop.run_unchanged fun state : ReorderState => state.fecState.frames
  intro state
  rcases expireStep_cases config now (fun _ _ => True) state with done | ⟨next, yields, -⟩
  · rw [done]
    rfl
  · rcases (expireStep_skips yields).2 with ⟨_, _, _, rfl⟩ | ⟨_, _, _, _, rfl⟩ <;>
      · rw [yields]
        rfl

/-- The lengths of a frame that agrees with the content are those of the payloads. -/
theorem expectedLen_eq (covers : content.Covers frame) {offset expectedLen : Nat}
    (atOffset : frame.payloadLengths[offset]? = some expectedLen) :
    expectedLen = (content.payload (sequenceAfter frame.baseSequence offset)).length := by
  have bound := (List.getElem?_eq_some_iff.mp atOffset).1
  rw [covers.1, Content.members, List.map_map, List.getElem?_map, List.getElem?_range' bound,
    Option.map_some] at atOffset
  rw [← Option.some.inj atOffset, Nat.one_mul, Nat.zero_add]
  rfl

/-- No length rules out a frame that agrees with the content. -/
theorem Intact.fits (intact : Intact content state) (wellFormed : WellFormed state) {base : Nat}
    (found : state.fecState.frames[base]? = some frame) {offset expectedLen : Nat}
    (atOffset : frame.payloadLengths[offset]? = some expectedLen) :
    expectedLen ≤ frame.parity.length ∧ ∀ payload,
      state.fecState.payloadFor state.buffered (sequenceAfter frame.baseSequence offset) =
        some payload → payload.length = expectedLen := by
  have valid := wellFormed.frame_valid found
  refine ⟨(valid.2.2 expectedLen (List.mem_of_getElem? atOffset)).2, ?_⟩
  intro payload known
  rw [intact.payloadFor known, expectedLen_eq (intact.frames found) atOffset]

/-! ## Members that are settled -/

/-- The positions of a frame that has been sent follow one another. -/
theorem sequenceAfter_of_over (sentOnly : Over (broadcast.Sent now) frame) {offset : Nat}
    (inFrame : offset < frame.payloadLengths.length) :
    sequenceAfter frame.baseSequence offset = frame.baseSequence + offset := by
  induction offset with
  | zero => rfl
  | succ offset induction =>
      have earlier := induction (Nat.lt_of_succ_lt inFrame)
      have last := (sentOnly offset (Nat.lt_of_succ_lt inFrame)).1
      rw [sequenceAfter_succ, broadcast.nextSequence_eq last, earlier, Nat.add_assoc]

/-- Some member of the frame is not due. -/
def Live (config : ReorderConfig) (schedule : Schedule) (now : Instant) (frame : FecFrame) : Prop :=
  ∃ offset < frame.payloadLengths.length,
    now < schedule.sentAt (sequenceAfter frame.baseSequence offset) + config.maxReorderDelay

/-- What has been sent is not far ahead of a frame that is live. -/
theorem Live.narrow (live : Live config broadcast.toSchedule now frame)
    (pace : Pace config broadcast.toSchedule width) (sentOnly : Over (broadcast.Sent now) frame)
    (valid : frame.Valid) {sequence : Nat} (sent : broadcast.Sent now sequence) :
    sequence + 1 < frame.baseSequence + maxFecGroupPackets + width := by
  rcases live with ⟨offset, inFrame, early⟩
  rw [sequenceAfter_of_over sentOnly inFrame] at early
  have narrow := pace.narrow early sent
  have group := valid.2.1.2
  omega

theorem Remembers.known_of_settled (remembers : Remembers broadcast first width now state)
    (pace : Pace config broadcast.toSchedule width)
    (live : Live config broadcast.toSchedule now frame) (sentOnly : Over (broadcast.Sent now) frame)
    (valid : frame.Valid) (within : first ≤ frame.baseSequence) {offset : Nat}
    (inFrame : offset < frame.payloadLengths.length)
    (settled : state.Settled (sequenceAfter frame.baseSequence offset)) :
    state.fecState.payloadFor state.buffered (sequenceAfter frame.baseSequence offset) ≠ none := by
  intro unknown
  rw [sequenceAfter_of_over sentOnly inFrame] at settled unknown
  rw [payloadFor_eq_none] at unknown
  rcases remembers.kept _ (Nat.le_add_right_of_le within) settled with cached | far
  · exact unknown.1 cached
  · have narrow := live.narrow pace sentOnly valid far
    have room := pace.remembered
    have bound := pace.bound
    omega

theorem Remembers.settled_of_known (remembers : Remembers broadcast first width now state)
    {sequence : Nat}
    (known : state.fecState.payloadFor state.buffered sequence ≠ none) :
    state.Settled sequence := by
  rw [Ne, payloadFor_eq_none, not_and_or, not_not, not_not] at known
  rcases known with cached | held
  · exact (remembers.settled sequence ((remembers.mem_iff sequence).mpr cached)).2
  · exact Or.inr held

/-- The frame is stored, or it has nothing to give back any more. -/
def Spent (frame : FecFrame) (state : ReorderState) : Prop :=
  state.fecState.frames[frame.baseSequence]? = some frame ∨ Over state.Settled frame

theorem OnTime.settled_of_forward (onTime : OnTime config broadcast first now state)
    {sequence : Nat} {payload : Bytes} (forwarded : .forward sequence payload ∈ state.trace) :
    sequence < state.nextSeq := by
  have member : (sequence, payload) ∈ forwards state.trace :=
    List.mem_filterMap.mpr ⟨_, forwarded, rfl⟩
  rw [onTime.forwarded, Broadcast.between] at member
  rcases List.mem_map.mp member with ⟨other, inRange, same⟩
  cases same
  have bounds := List.mem_range'_1.mp inRange
  omega

/-- A call that settles nothing less and leaves the stored frames. -/
theorem Spent.of_frames (spent : Spent frame before)
    (frames : after.fecState.frames = before.fecState.frames)
    (settled : ∀ sequence, before.Settled sequence → after.Settled sequence) :
    Spent frame after := by
  rcases spent with stored | done
  · rw [Spent, frames]
    exact Or.inl stored
  · exact Or.inr fun offset inFrame => settled _ (done offset inFrame)

/-! ## The recovery -/

/-- A function of the window keeps what is settled. -/
theorem settled_call {call : ReorderState → ReorderState} {sequence : Nat}
    (keeps : ∀ {Invariant : ReorderState → Prop},
      ActiveInvariant config now (broadcast.Offers now) Invariant →
      Active Invariant state → Active Invariant (call state))
    (active : Active (OnTime config broadcast first now) state)
    (settled : state.Settled sequence) : (call state).Settled sequence :=
  (keeps (settled_phase sequence).window ⟨active.1, active.2.1, active.2.2, settled⟩).2.2.2

/-- Of a frame that misses at most one member, all are known but one, if not all. -/
theorem missesOnly_of_not_missesTwo (intact : Intact content state) (wellFormed : WellFormed state)
    {base : Nat} (found : state.fecState.frames[base]? = some frame)
    (few : ¬ state.fecState.MissesTwo state.buffered frame) {offset : Nat}
    (inFrame : offset < frame.payloadLengths.length)
    (unknown : state.fecState.payloadFor state.buffered
      (sequenceAfter frame.baseSequence offset) = none) :
    state.fecState.MissesOnly state.buffered frame offset where
  inFrame := inFrame
  unknown := unknown
  others := by
    intro other expectedLen atOther different
    have bound := (List.getElem?_eq_some_iff.mp atOther).1
    cases known : state.fecState.payloadFor state.buffered
        (sequenceAfter frame.baseSequence other) with
    | none =>
        rcases Nat.lt_or_gt_of_ne different with before | after
        · exact absurd ⟨other, offset, before, inFrame, known, unknown⟩ few
        · exact absurd ⟨offset, other, after, bound, unknown, known⟩ few
    | some payload =>
        exact ⟨payload, rfl, (intact.fits wellFormed found atOther).2 payload known⟩
  fits expectedLen member := ((wellFormed.frame_valid found).2.2 expectedLen member).2

/-- A search settles all members of a frame that it takes out. -/
theorem Spent.recoverStep
    (active : Active (fun state => OnTime config broadcast first now state ∧
      Remembers broadcast first width now state) state)
    (spent : Spent frame state) : Spent frame (recoverStep now state).value := by
  rcases active with ⟨wellFormed, initialized, onTime, remembers⟩
  have keeps := fun {sequence} => @settled_call config broadcast first now state
    (fun state => (Server.recoverStep now state).value) sequence
    (fun rule => rule.toWindow.recoverStep) ⟨wellFormed, initialized, onTime⟩
  rcases spent with stored | done
  · by_cases few : state.fecState.MissesTwo state.buffered frame
    · left
      rw [recoverStep_frames]
      apply FecState.stays_of_waits stored
      rcases few with ⟨left, right, before, inFrame, unknownLeft, unknownRight⟩
      exact ⟨left, right, before, inFrame, unknownLeft, unknownRight, fun offset expectedLen _
        atOffset => by
          rw [Nat.zero_add]
          exact onTime.intact.fits wellFormed stored atOffset⟩
    · right
      intro offset inFrame
      by_cases known : state.fecState.payloadFor state.buffered
          (sequenceAfter frame.baseSequence offset) = none
      · have misses := missesOnly_of_not_missesTwo onTime.intact wellFormed stored few inFrame known
        by_cases ahead : state.nextSeq ≤ sequenceAfter frame.baseSequence offset
        · have peeled := @recoverStep_peels now state ⟨wellFormed, initialized, trivial⟩ _ _ _
            stored misses ahead
          rcases peeled.2.2 with ⟨effects, trace, held | ⟨payload, forwarded⟩⟩
          · exact Or.inr held
          · have reached := onTime_invariant.toWindow.recoverStep
              ⟨wellFormed, initialized, onTime⟩
            left
            apply reached.2.2.settled_of_forward
            rw [trace]
            exact List.mem_append_right _ forwarded
        · exact keeps (Or.inl (Nat.lt_of_not_le ahead))
      · exact keeps (remembers.settled_of_known known)
  · exact Or.inr fun offset inFrame => keeps (done offset inFrame)

theorem Spent.recoverFecReady (pace : Pace config broadcast.toSchedule width)
    (active : Active (fun state => OnTime config broadcast first now state ∧
      Remembers broadcast first width now state) state)
    (spent : Spent frame state) : Spent frame (recoverFecReady now state) := by
  have rule : ActiveInvariant config now (broadcast.Offers now) (fun state =>
      OnTime config broadcast first now state ∧ Remembers broadcast first width now state) :=
    (remembers_phase pace).window
  have reached := @BreakLoop.run_invariant _ (fun state =>
    Active (fun state => OnTime config broadcast first now state ∧
      Remembers broadcast first width now state) state ∧ Spent frame state) (Server.recoverStep now)
    (fun _ holds => ⟨rule.toWindow.recoverStep holds.1, holds.2.recoverStep holds.1⟩)
    (state.fecState.frames.size + 1) state ⟨active, spent⟩
  exact reached.2

/-- After the recovery, an advance leaves the stored frames. -/
theorem advanceReorderWindow_frames
    (active : Active (OnTime config broadcast first now) state)
    (advanced : advanceReorderWindow config now state = some after) :
    after.fecState.frames = (recoverFecReady now state).fecState.frames ∧
      ∀ sequence, (recoverFecReady now state).Settled sequence → after.Settled sequence := by
  have rule : ActiveInvariant config now (broadcast.Offers now)
      (OnTime config broadcast first now) := onTime_invariant
  have recovered := rule.toWindow.recoverFecReady active
  have finish : ∀ {requested : ReorderState}, Active (OnTime config broadcast first now) requested →
      (∀ sequence, requested.Settled sequence →
        (drainReady (expireReorderGap config now requested)).Settled sequence) := by
    intro requested active sequence
    apply @settled_call config broadcast first now requested
      (fun state => drainReady (expireReorderGap config now state)) sequence _ active
    exact fun rule active => rule.toWindow.drainReady (rule.toWindow.expireReorderGap active)
  rw [advanceReorderWindow] at advanced
  cases repair : config.repairRequestInterval with
  | none =>
      rw [repair] at advanced
      cases advanced
      rw [drainReady_frames, expireReorderGap_frames]
      exact ⟨rfl, finish recovered⟩
  | some interval =>
      rcases requestDueRepairs_eq interval now recovered.1 with
        ⟨fragments, gapRepairRequests, requests, outcome, same, -⟩
      rw [repair] at advanced
      dsimp only at advanced
      rw [outcome] at advanced
      cases advanced
      rw [drainReady_frames, expireReorderGap_frames]
      exact ⟨rfl, finish (rule.toWindow.move (.request requests same) recovered)⟩

/-- The calls of a round keep frames that are stored or used up. -/
theorem Spent.phase (pace : Pace config broadcast.toSchedule width)
    (phase : Phase config broadcast now before after)
    (active : Active (fun state => OnTime config broadcast first now state ∧
      Remembers broadcast first width now state) before)
    (spent : Spent frame before) : Spent frame after := by
  rcases active with ⟨wellFormed, initialized, onTime, remembers⟩
  have active : Active (OnTime config broadcast first now) before :=
    ⟨wellFormed, initialized, onTime⟩
  cases phase with
  | untouched same _ _ =>
      apply spent.of_frames (congrArg FecState.frames same.fecState)
      intro sequence settled
      rw [ReorderState.Settled, same.nextSeq, same.buffered]
      exact settled
  | assemble _ _ _ _ _ => exact spent.of_frames rfl fun _ settled => settled
  | @accept sequence payload media fresh offered =>
      have frames := acceptCompletePayload_frames now sequence payload (before.release sequence)
      apply spent.of_frames frames
      intro other
      apply @settled_call config broadcast first now before
        (fun state => acceptCompletePayload now sequence payload (state.release sequence)) other _
        active
      exact fun rule active => rule.toWindow.acceptCompletePayload media fresh offered active
  | recover => exact spent.recoverFecReady pace ⟨wellFormed, initialized, onTime, remembers⟩
  | advance advanced =>
      rcases advanceReorderWindow_frames active advanced with ⟨frames, settled⟩
      exact (spent.recoverFecReady pace ⟨wellFormed, initialized, onTime, remembers⟩).of_frames
        frames settled

end Irohsion.Server
