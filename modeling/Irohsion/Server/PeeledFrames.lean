import Irohsion.Server.AdvanceCalls

/-! # Recovery runs to its fixed point

`recover_fec_ready` peels the stored frames: a member that one frame gives back
may be the last one that another frame waits for. Whatever a search of the loop
finds to miss a single member has that member forwarded or held when the loop
is over.
-/

namespace Irohsion.Server

open Protocol Std

namespace FecState

/-! ## Frames that miss one member -/

/-- All members but one are known, and no length rules the frame out. -/
structure MissesOnly (fec : FecState) (buffered : Buffered) (frame : FecFrame)
    (member : Nat) : Prop where
  inFrame : member < frame.payloadLengths.length
  unknown : fec.payloadFor buffered (sequenceAfter frame.baseSequence member) = none
  others : ∀ other expectedLen, frame.payloadLengths[other]? = some expectedLen →
    other ≠ member → ∃ payload,
      fec.payloadFor buffered (sequenceAfter frame.baseSequence other) = some payload ∧
        payload.length = expectedLen
  fits : ∀ expectedLen ∈ frame.payloadLengths, expectedLen ≤ frame.parity.length

theorem exists_known {known : Nat → Option Bytes} {baseSequence index : Nat}
    {payloadLengths : List Nat}
    (members : ∀ offset expectedLen, payloadLengths[offset]? = some expectedLen →
      ∃ payload, known (sequenceAfter baseSequence (index + offset)) = some payload ∧
        payload.length = expectedLen) :
    ∃ payloads, Known known baseSequence index payloadLengths payloads := by
  induction payloadLengths generalizing index with
  | nil => exact ⟨[], trivial⟩
  | cons expectedLen rest induction =>
      rcases members 0 expectedLen rfl with ⟨payload, found, length⟩
      have later : ∀ offset expectedLen, rest[offset]? = some expectedLen →
          ∃ payload, known (sequenceAfter baseSequence (index + 1 + offset)) = some payload ∧
            payload.length = expectedLen := by
        intro offset expectedLen atOffset
        rw [Nat.add_assoc, Nat.add_comm 1 offset]
        exact members (offset + 1) expectedLen atOffset
      rcases induction later with ⟨payloads, remaining⟩
      exact ⟨payload :: payloads, found, length, remaining⟩

/-- A search recovers the missing member of such a frame, unless it is behind. -/
theorem MissesOnly.recovers {fec : FecState} {buffered : Buffered} {frame : FecFrame}
    {base member nextSeq : Nat} (misses : fec.MissesOnly buffered frame member)
    (found : fec.frames[base]? = some frame)
    (ahead : nextSeq ≤ sequenceAfter frame.baseSequence member) :
    ∃ payload, (sequenceAfter frame.baseSequence member, payload) ∈
      (fec.recoverReady nextSeq buffered).2 := by
  have inFrame := misses.inFrame
  have split : frame.payloadLengths = frame.payloadLengths.take member ++
      frame.payloadLengths[member] :: frame.payloadLengths.drop (member + 1) := by
    rw [← List.drop_eq_getElem_cons, List.take_append_drop]
  have frontLength : (frame.payloadLengths.take member).length = member :=
    List.length_take_of_le (Nat.le_of_lt inFrame)
  have front : ∃ payloads, Known (fec.payloadFor buffered) frame.baseSequence 0
      (frame.payloadLengths.take member) payloads := by
    apply exists_known
    intro offset expectedLen atOffset
    rw [List.getElem?_take] at atOffset
    split at atOffset
    · rename_i before
      rw [Nat.zero_add]
      exact misses.others offset expectedLen atOffset (Nat.ne_of_lt before)
    · cases atOffset
  have back : ∃ payloads, Known (fec.payloadFor buffered) frame.baseSequence (member + 1)
      (frame.payloadLengths.drop (member + 1)) payloads := by
    apply exists_known
    intro offset expectedLen atOffset
    rw [List.getElem?_drop] at atOffset
    exact misses.others _ expectedLen atOffset (by omega)
  rcases front with ⟨frontPayloads, frontKnown⟩
  rcases back with ⟨backPayloads, backKnown⟩
  have scan := @scanFrame_of_one_unknown _ _ (frame.payloadLengths.take member)
    (frame.payloadLengths.drop (member + 1)) frontPayloads backPayloads frame.parity
    frame.payloadLengths[member] frontKnown (by rw [frontLength]; exact misses.unknown)
    (by rw [frontLength]; exact backKnown) (by rw [← split]; exact misses.fits)
  rw [← split, frontLength] at scan
  exact ⟨_, mem_recoverReady.mpr ⟨base, frame, _, _, found, scan, ahead, rfl⟩⟩

end FecState

/-! ## What moves leave of a position -/

variable {config : ReorderConfig} {now : Instant} {Source : Nat → Bytes → Prop}
variable {base state before after : ReorderState}

/-- The sequence was forwarded since `base`, or `Place` holds. -/
def SinceForwarded (base : ReorderState) (sequence : Nat) (Place : ReorderState → Prop)
    (state : ReorderState) : Prop :=
  ∃ effects, state.trace = base.trace ++ effects ∧
    (Place state ∨ ∃ payload, .forward sequence payload ∈ effects)

/-- The sequence was forwarded since `base`, or it is held. -/
def Peeled (base : ReorderState) (sequence : Nat) : ReorderState → Prop :=
  SinceForwarded base sequence fun state => sequence ∈ state.buffered

/-- The sequence was forwarded since `base`, or the window has not passed it. -/
def NotPassed (base : ReorderState) (sequence : Nat) : ReorderState → Prop :=
  SinceForwarded base sequence fun state => state.nextSeq ≤ sequence

theorem SinceForwarded.later {sequence : Nat} {Place : ReorderState → Prop}
    (since : SinceForwarded base sequence Place before) {more : List Effect}
    (trace : after.trace = before.trace ++ more)
    (kept : Place before → Place after ∨ ∃ payload, .forward sequence payload ∈ more) :
    SinceForwarded base sequence Place after := by
  rcases since with ⟨effects, earlier, reached⟩
  refine ⟨effects ++ more, by rw [trace, earlier, List.append_assoc], ?_⟩
  rcases reached with place | ⟨payload, forwarded⟩
  · rcases kept place with place | ⟨payload, forwarded⟩
    · exact Or.inl place
    · exact Or.inr ⟨payload, List.mem_append_right effects forwarded⟩
  · exact Or.inr ⟨payload, List.mem_append_left more forwarded⟩

/-- What one move adds to the trace: a held payload stays or is forwarded, and
the window passes a position by forwarding it or by giving it up in time. -/
structure Moved (config : ReorderConfig) (now : Instant) (before after : ReorderState)
    (more : List Effect) : Prop where
  trace : after.trace = before.trace ++ more
  held : ∀ sequence, sequence ∈ before.buffered →
    sequence ∈ after.buffered ∨ ∃ payload, .forward sequence payload ∈ more
  position : after.nextSeq = before.nextSeq ∨
    after.nextSeq = nextSequence before.nextSeq ∧
      ((∃ payload, .forward before.nextSeq payload ∈ more) ∨ config.maxReorderDelay ≤ now)

theorem Moved.unheld {more : List Effect} (trace : after.trace = before.trace ++ more)
    (buffered : after.buffered = before.buffered)
    (position : after.nextSeq = before.nextSeq ∨
      after.nextSeq = nextSequence before.nextSeq ∧
        ((∃ payload, .forward before.nextSeq payload ∈ more) ∨ config.maxReorderDelay ≤ now)) :
    Moved config now before after more :=
  ⟨trace, fun _ member => Or.inl (buffered ▸ member), position⟩

theorem moved_settle (config : ReorderConfig) (now : Instant) (sequence : Nat) (payload : Bytes)
    (state : ReorderState) :
    ∃ more, Moved config now state (settle now sequence payload state) more ∧
      (sequence ∈ (settle now sequence payload state).buffered ∨
        .forward sequence payload ∈ more) := by
  by_cases expected : sequence = state.nextSeq
  · refine ⟨[.accept sequence payload, .forward sequence payload], ?_, Or.inr (by simp)⟩
    rw [settle_of_expected now payload expected]
    apply Moved.unheld
    · simp [forwardAccepted, noteAccepted, ReorderState.release]
    · rfl
    · exact Or.inr ⟨rfl, Or.inl ⟨payload, by simp [expected]⟩⟩
  · rw [settle_of_ahead now payload expected]
    refine ⟨[.accept sequence payload], ⟨rfl, ?_, Or.inl rfl⟩, Or.inl ?_⟩
    · intro other member
      exact Or.inl (OrderedMap.mem_insert_iff.mpr (Or.inr member))
    · exact OrderedMap.mem_insert_iff.mpr (Or.inl rfl)

theorem WindowMove.moved (move : WindowMove config now Source before after) :
    ∃ more, Moved config now before after more := by
  cases move with
  | report sequence length => exact ⟨_, .unheld rfl rfl (Or.inl rfl)⟩
  | @drain packet found =>
      refine ⟨[.forward before.nextSeq packet.payload], rfl, ?_, ?_⟩
      · intro sequence member
        by_cases here : sequence = before.nextSeq
        · exact Or.inr ⟨packet.payload, by rw [here]; exact List.mem_singleton_self _⟩
        · exact Or.inl (OrderedMap.mem_erase_iff.mpr ⟨here, member⟩)
      · exact Or.inr ⟨rfl, Or.inl ⟨packet.payload, List.mem_singleton_self _⟩⟩
  | search => exact ⟨[], .unheld (List.append_nil _).symm rfl (Or.inl rfl)⟩
  | @settle sequence payload _ _ _ =>
      rcases moved_settle config now sequence payload before with ⟨more, moved, -⟩
      exact ⟨more, moved⟩
  | request requests _ => exact ⟨_, .unheld rfl rfl (Or.inl rfl)⟩
  | @skipFragment assembly _ _ old =>
      have expired := Nat.le_trans old (Nat.sub_le now assembly.firstSeen)
      exact ⟨_, .unheld rfl rfl (Or.inr ⟨rfl, Or.inr expired⟩)⟩
  | @skipMissing oldest _ _ _ old =>
      have expired := Nat.le_trans old (Nat.sub_le now oldest)
      exact ⟨_, .unheld rfl rfl (Or.inr ⟨rfl, Or.inr expired⟩)⟩

theorem Peeled.move {sequence : Nat} (peeled : Peeled base sequence before)
    (move : WindowMove config now Source before after) : Peeled base sequence after := by
  rcases move.moved with ⟨more, moved⟩
  exact peeled.later moved.trace (moved.held sequence)

theorem NotPassed.move {sequence : Nat} (media : sequence ≤ maxMediaSequence)
    (patient : now < config.maxReorderDelay) (waits : NotPassed base sequence before)
    (move : WindowMove config now Source before after) : NotPassed base sequence after := by
  rcases move.moved with ⟨more, moved⟩
  apply waits.later moved.trace
  intro ahead
  rcases moved.position with same | ⟨position, ⟨payload, forwarded⟩ | expired⟩
  · exact Or.inl (same ▸ ahead)
  · by_cases here : before.nextSeq = sequence
    · exact Or.inr ⟨payload, here ▸ forwarded⟩
    · rw [position]
      exact Or.inl (nextSequence_le_of_lt (Nat.lt_of_le_of_ne ahead here) media)
  · exact absurd expired (Nat.not_le.mpr patient)

/-! ## The rounds of the loop -/

theorem peeled_invariant (config : ReorderConfig) (now : Instant) (base : ReorderState)
    (sequence : Nat) :
    ActiveInvariant config now (fun _ _ => True) (Peeled base sequence) where
  move _ _ move peeled := peeled.move move
  recovered _ _ _ := trivial

/-- The functions of the recovery do not read the configuration, so it may be one
under which nothing expires. -/
def patient (now : Instant) : ReorderConfig := ⟨none, 0, now + 1⟩

theorem notPassed_invariant (now : Instant) (base : ReorderState) {sequence : Nat}
    (media : sequence ≤ maxMediaSequence) :
    ActiveInvariant (patient now) now (fun _ _ => True) (NotPassed base sequence) where
  move _ _ move waits := waits.move media (Nat.lt_succ_self now) move
  recovered _ _ _ := trivial

/-- A recovered payload is passed over only when its sequence is held or forwarded. -/
theorem acceptRecovered_peels {sequence : Nat} {payload : Bytes}
    {progress : ReorderState × Bool} (media : sequence ≤ maxMediaSequence)
    (waits : Active (NotPassed base sequence) progress.1) :
    Active (Peeled base sequence) (acceptRecovered now progress (sequence, payload)).1 := by
  rcases progress with ⟨state, accepted⟩
  rcases waits with ⟨wellFormed, active, effects, trace, reached⟩
  dsimp only at wellFormed active trace reached
  simp only [acceptRecovered]
  split
  · rename_i passed
    refine ⟨wellFormed, active, effects, trace, ?_⟩
    rcases passed with behind | seen | held
    · exact Or.inr (reached.resolve_left (Nat.not_le.mpr behind))
    · exact Or.inl ((wellFormed.seen_iff sequence).mp seen)
    · exact Or.inl held
  · rename_i fresh
    have rule := (peeled_invariant (patient now) now base sequence).toWindow
    have reported : WellFormed (state.emit (.fecRecovered sequence payload.length)) :=
      wellFormed.emit _
    rcases moved_settle (patient now) now sequence payload
      (state.emit (.fecRecovered sequence payload.length)) with ⟨more, moved, here⟩
    have move : WindowMove (patient now) now (fun _ _ => True)
        (state.emit (.fecRecovered sequence payload.length))
        (settle now sequence payload (state.emit (.fecRecovered sequence payload.length))) :=
      .settle media fresh trivial
    have settled : Active (Peeled base sequence)
        (settle now sequence payload (state.emit (.fecRecovered sequence payload.length))) := by
      refine ⟨reported.windowMove move, move.initialized.trans active,
        effects ++ (.fecRecovered sequence payload.length :: more), ?_, ?_⟩
      · rw [moved.trace, ReorderState.emit, trace]
        simp
      · rcases here with held | forwarded
        · exact Or.inl held
        · exact Or.inr ⟨payload, by simp [forwarded]⟩
    have accepted := acceptCompletePayload_eq now sequence payload
      (state.emit (.fecRecovered sequence payload.length))
    rw [show ({ state with fragments := state.fragments.erase sequence } : ReorderState).emit
      (.fecRecovered sequence payload.length) =
      (state.emit (.fecRecovered sequence payload.length)).release sequence from rfl, accepted]
    split
    · exact rule.drainReady settled
    · exact settled

theorem foldl_acceptRecovered_peels {recovered : List (Nat × Bytes)}
    (media : ∀ pair ∈ recovered, pair.1 ≤ maxMediaSequence) {sequence : Nat} {payload : Bytes}
    (member : (sequence, payload) ∈ recovered) {progress : ReorderState × Bool}
    (waits : Active (NotPassed base sequence) progress.1) :
    Active (Peeled base sequence) (recovered.foldl (acceptRecovered now) progress).1 := by
  induction recovered generalizing progress with
  | nil => cases member
  | cons pair rest induction =>
      have later : ∀ other ∈ rest, other.1 ≤ maxMediaSequence :=
        fun other member => media other (List.mem_cons_of_mem pair member)
      rw [List.foldl_cons]
      rcases List.mem_cons.mp member with rfl | member
      · have rule := (peeled_invariant (patient now) now base sequence).toWindow
        exact rule.foldl_acceptRecovered (fun other member => ⟨later other member, trivial⟩)
          (acceptRecovered_peels (media _ List.mem_cons_self) waits)
      · have rule := notPassed_invariant now base (media _ (List.mem_cons_of_mem pair member))
        exact induction later member (rule.toWindow.acceptRecovered
          ⟨media pair List.mem_cons_self, trivial⟩ waits)

theorem recoverStep_peels (active : Active (fun _ => True) state) {stored : Nat}
    {frame : FecFrame} {member : Nat} (found : state.fecState.frames[stored]? = some frame)
    (misses : state.fecState.MissesOnly state.buffered frame member)
    (ahead : state.nextSeq ≤ sequenceAfter frame.baseSequence member) :
    Active (Peeled state (sequenceAfter frame.baseSequence member))
      (recoverStep now state).value := by
  rcases active with ⟨wellFormed, initialized, -⟩
  rcases misses.recovers found ahead with ⟨payload, recovers⟩
  have media : ∀ pair ∈ (state.fecState.recoverReady state.nextSeq state.buffered).2,
      pair.1 ≤ maxMediaSequence := fun pair member => wellFormed.recovered_media member
  have waits : Active (NotPassed state (sequenceAfter frame.baseSequence member))
      { state with
        fecState := (state.fecState.recoverReady state.nextSeq state.buffered).1 } :=
    ⟨wellFormed.search, initialized, [], (List.append_nil _).symm, Or.inl ahead⟩
  rw [recoverStep]
  split
  rename_i fec recovered search
  rw [search] at recovers media waits
  dsimp only at recovers media waits ⊢
  have nonempty : ¬ recovered.isEmpty = true := by
    rw [List.isEmpty_iff]
    exact List.ne_nil_of_mem recovers
  have peeled := @foldl_acceptRecovered_peels now _ _ media _ payload recovers
    ({ state with fecState := fec }, false) waits
  rw [if_neg nonempty]
  split
  · rename_i final outcome
    rw [outcome] at peeled
    exact peeled
  · rename_i final outcome
    rw [outcome] at peeled
    exact peeled

theorem recoverStep_active (active : Active (fun _ => True) state) :
    Active (fun _ => True) (recoverStep now state).value :=
  ((consistent_invariant (patient now)).window now).toWindow.recoverStep active

/-- Whatever a round of the recovery finds to miss one member is settled by its end. -/
theorem recoverFecReady_peels (active : Active (fun _ => True) state) {examined : ReorderState}
    (visits : BreakLoop.Visits (recoverStep now) state examined) {stored : Nat}
    {frame : FecFrame} {member : Nat} (found : examined.fecState.frames[stored]? = some frame)
    (misses : examined.fecState.MissesOnly examined.buffered frame member)
    (ahead : examined.nextSeq ≤ sequenceAfter frame.baseSequence member) :
    Peeled examined (sequenceAfter frame.baseSequence member) (recoverFecReady now state) := by
  have rule := (peeled_invariant (patient now) now examined
    (sequenceAfter frame.baseSequence member)).toWindow
  have here := visits.invariant (fun _ active => recoverStep_active active) active
  have result := visits.result (recoverFecReady_breaks now state)
    (recoverStep_peels here found misses ahead) (fun _ peeled => rule.recoverStep peeled)
  exact result.2.2

/-! ## The calls of the loop -/

/-- The states on which the reorder loop calls `recover_fec_ready`: where it
advances the window, after it has accepted a complete payload, and after it has
stored a parity frame. -/
inductive RecoverCall (config : ReorderConfig) : ReorderState → Prop
  | advance {inputs : List TimedInput} {state target : ReorderState} {timed : TimedInput} :
      reorderLoop config inputs = some state →
      advanceTarget state timed = some target →
      RecoverCall config target
  | accepted {inputs : List TimedInput} {state admitted taken : ReorderState} {now : Instant}
      {packet : ReceivedPacket} {payload : Bytes} :
      reorderLoop config inputs = some state →
      admitPacket packet (openFlow packet state) = .proceed admitted →
      admitted.Fresh packet.header.sequence →
      reassemble now packet admitted = some (.complete payload taken) →
      RecoverCall config (acceptCompletePayload now packet.header.sequence payload taken)
  | stored {inputs : List TimedInput} {state : ReorderState} {fec : ReceivedFecFrame} :
      reorderLoop config inputs = some state →
      state.initialized = true →
      RecoverCall config
        (({ state with fecState := state.fecState.insertFrame fec.frame } :
          ReorderState).setReplyRoutes fec.remote false)

theorem RecoverCall.active (call : RecoverCall config state) : Active (fun _ => True) state := by
  have rule := consistent_invariant config
  cases call with
  | advance reached called =>
      exact rule.advanceTarget (fun _ _ => trivial) (reorderLoop_stuck reached).1 trivial called
  | @accepted inputs before admitted taken now packet payload reached admission fresh complete =>
      have active := rule.admitPacket packet
        (rule.openFlow packet (reorderLoop_stuck reached).1 trivial)
      rw [admission] at active
      have whole : taken = takeComplete packet.header.sequence admitted := by
        by_cases single : packet.header.fragments = 1
        · rw [reassemble_whole single] at complete
          cases complete
          rfl
        · rcases reassemble_cases now active.1 single with
            ⟨-, outcome⟩ | ⟨_, -, ⟨-, outcome⟩ | ⟨-, _, -, outcome⟩⟩
          · cases complete.symm.trans outcome
          · cases complete.symm.trans outcome
          · cases complete.symm.trans outcome
            rfl
      rw [whole, acceptCompletePayload_takeComplete]
      exact (rule.window now).toWindow.acceptCompletePayload packet.media fresh trivial active
  | @stored inputs before fec reached initialized =>
      have store : RoundMove 0 (fun _ => True) before
          { before with fecState := before.fecState.insertFrame fec.frame } := .store trivial
      have consistent := (reorderLoop_stuck reached).1.roundMove store
      exact @LoopInvariant.active _ _ _ _ _ rule 0 _
        ⟨consistent.toWellFormed, initialized, trivial⟩ (.routes fec.remote) initialized

/-- The same state with other frames stored. -/
def ReorderState.withFrames (frames : ExtTreeMap Nat FecFrame) (state : ReorderState) :
    ReorderState :=
  { state with fecState := { state.fecState with frames := frames } }

theorem Active.withFrames {frames : ExtTreeMap Nat FecFrame}
    (valid : ∀ (stored : Nat) (frame : FecFrame), frames[stored]? = some frame → frame.Valid)
    (active : Active (fun _ => True) state) :
    Active (fun _ => True) (state.withFrames frames) := by
  rcases active with ⟨wellFormed, initialized, -⟩
  refine ⟨⟨wellFormed.nextSeq_le, wellFormed.seen_iff, wellFormed.buffered_inWindow,
    wellFormed.fragments_inWindow, wellFormed.assembly_slots, wellFormed.assembly_incomplete,
    ?_⟩, initialized, trivial⟩
  intro stored frame found
  exact valid stored frame found

/-- Members at different places of a valid frame have different sequences. -/
theorem sequenceAfter_ne_of_valid {frame : FecFrame} (valid : frame.Valid) {first second : Nat}
    (earlier : first < second) (inFrame : second < frame.payloadLengths.length) :
    sequenceAfter frame.baseSequence first ≠ sequenceAfter frame.baseSequence second := by
  intro equal
  rcases valid with ⟨media, ⟨-, group⟩, -⟩
  have small : maxFecGroupPackets ≤ maxMediaSequence := by decide
  have same := sequenceAfter_injective media (by omega) (by omega) equal
  omega

/-- Wherever the loop recovers, with whatever valid frames stored, the recovery
ends, leaves only frames with two unknown members, and has forwarded or holds
every member that one of its searches could recover. -/
theorem recoverFecReady_fixedPoint (call : RecoverCall config state)
    {frames : ExtTreeMap Nat FecFrame}
    (valid : ∀ (stored : Nat) (frame : FecFrame), frames[stored]? = some frame → frame.Valid)
    (now : Instant) :
    ∃ final, BreakLoop.run? (recoverStep now) (frames.size + 1) (state.withFrames frames) =
        some final ∧ recoverFecReady now (state.withFrames frames) = final ∧
      (∀ (stored : Nat) (frame : FecFrame), final.fecState.frames[stored]? = some frame →
        ∃ first second, first < second ∧ second < frame.payloadLengths.length ∧
          sequenceAfter frame.baseSequence first ≠ sequenceAfter frame.baseSequence second ∧
          ∀ member ∈ [first, second],
            sequenceAfter frame.baseSequence member ∉ final.fecState.payloads ∧
              sequenceAfter frame.baseSequence member ∉ final.buffered) ∧
      ∀ examined, BreakLoop.Visits (recoverStep now) (state.withFrames frames) examined →
        ∀ (stored : Nat) (frame : FecFrame) (member : Nat),
          examined.fecState.frames[stored]? = some frame →
          examined.fecState.MissesOnly examined.buffered frame member →
          examined.nextSeq ≤ sequenceAfter frame.baseSequence member →
          Peeled examined (sequenceAfter frame.baseSequence member) final := by
  have active := call.active.withFrames valid
  have ended := ((consistent_invariant (patient now)).window now).toWindow.recoverFecReady active
  refine ⟨_, recoverFecReady_breaks now (state.withFrames frames), rfl, ?_, ?_⟩
  · intro stored frame found
    rcases recoverFecReady_stuck now (state.withFrames frames) stored frame found with
      ⟨first, second, earlier, inFrame, unknownFirst, unknownSecond⟩
    refine ⟨first, second, earlier, inFrame,
      sequenceAfter_ne_of_valid (ended.1.frame_valid found) earlier inFrame, ?_⟩
    intro member selected
    rcases List.mem_pair.mp selected with rfl | rfl
    · exact payloadFor_eq_none.mp unknownFirst
    · exact payloadFor_eq_none.mp unknownSecond
  · intro examined visits stored frame member found misses ahead
    exact recoverFecReady_peels active visits found misses ahead

/-- Members 1 and 2 in one group, of which the flow below holds the second. -/
def parityOneTwo : FecFrame := ⟨1, [1, 1], [5]⟩

theorem reorderLoop_missesOne :
    ∃ state, reorderLoop tolerant [wholeAt 0 0, wholeAt 0 2] = some state ∧
      (state.initialized = true ∧ state.hasPendingState = true) ∧ state.nextSeq = 1 ∧
      state.fecState.payloadFor state.buffered 1 = none ∧
      state.fecState.payloadFor state.buffered 2 = some [1] :=
  exists_of_any (by decide +kernel)

theorem recoverFecReady_fixedPoint_missesOne :
    ∃ state, reorderLoop tolerant [wholeAt 0 0, wholeAt 0 2] = some state ∧
      Peeled (state.withFrames ((∅ : ExtTreeMap Nat FecFrame).insert 1 parityOneTwo)) 1
        (recoverFecReady 0
          (state.withFrames ((∅ : ExtTreeMap Nat FecFrame).insert 1 parityOneTwo))) := by
  rcases reorderLoop_missesOne with ⟨state, reached, pending, position, unknown, known⟩
  refine ⟨state, reached, ?_⟩
  have valid : ∀ (stored : Nat) (frame : FecFrame),
      ((∅ : ExtTreeMap Nat FecFrame).insert 1 parityOneTwo)[stored]? = some frame →
      frame.Valid := by
    intro stored frame found
    rcases OrderedMap.getElem?_insert_eq_some found with ⟨-, rfl⟩ | impossible
    · decide
    · simp at impossible
  have called : advanceTarget state ⟨0, .timeout⟩ = some state := if_pos pending
  rcases recoverFecReady_fixedPoint (.advance reached called) valid 0 with
    ⟨final, -, rfl, -, settles⟩
  apply settles _ .start 1 parityOneTwo 0 ExtTreeMap.getElem?_insert_self
  · refine ⟨by decide, unknown, ?_, by decide⟩
    intro other expectedLen atOther different
    rcases other with _ | _ | other
    · exact absurd rfl different
    · cases atOther
      exact ⟨[1], known, rfl⟩
    · cases atOther
  · exact Nat.le_of_eq position

end Irohsion.Server
