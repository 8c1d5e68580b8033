import Irohsion.Server.LoopBounds

/-! # Frames that wait for two members

After `recover_fec_ready` every stored frame lacks two members or more. Only an
accepted payload or another frame changes that, so until then a further search
recovers nothing.
-/

namespace Irohsion.Server

open Protocol Std

namespace FecState

/-! ## Frames that a search leaves alone -/

/-- Two members of the frame are unknown. -/
def MissesTwo (fec : FecState) (buffered : Buffered) (frame : FecFrame) : Prop :=
  ∃ first second, first < second ∧ second < frame.payloadLengths.length ∧
    fec.payloadFor buffered (sequenceAfter frame.baseSequence first) = none ∧
    fec.payloadFor buffered (sequenceAfter frame.baseSequence second) = none

/-- No length of the members up to `last` rules the frame out. -/
def Usable (known : Nat → Option Bytes) (baseSequence index parityLen : Nat)
    (payloadLengths : List Nat) (last : Nat) : Prop :=
  ∀ offset expectedLen, offset ≤ last → payloadLengths[offset]? = some expectedLen →
    expectedLen ≤ parityLen ∧ ∀ payload,
      known (sequenceAfter baseSequence (index + offset)) = some payload →
        payload.length = expectedLen

/-- Two members of the frame are unknown, and up to the second of them no length
rules it out. -/
def Waits (fec : FecState) (buffered : Buffered) (frame : FecFrame) : Prop :=
  ∃ first second, first < second ∧ second < frame.payloadLengths.length ∧
    fec.payloadFor buffered (sequenceAfter frame.baseSequence first) = none ∧
    fec.payloadFor buffered (sequenceAfter frame.baseSequence second) = none ∧
    Usable (fec.payloadFor buffered) frame.baseSequence 0 frame.parity.length
      frame.payloadLengths second

section Scan

variable {known : Nat → Option Bytes} {baseSequence index parityLen expectedLen last : Nat}
variable {rest : List Nat}

theorem Usable.head
    (usable : Usable known baseSequence index parityLen (expectedLen :: rest) last) :
    expectedLen ≤ parityLen ∧ ∀ payload,
      known (sequenceAfter baseSequence index) = some payload → payload.length = expectedLen :=
  usable 0 expectedLen (Nat.zero_le last) rfl

theorem usable_zero (fits : expectedLen ≤ parityLen)
    (length : ∀ payload, known (sequenceAfter baseSequence index) = some payload →
      payload.length = expectedLen) :
    Usable known baseSequence index parityLen (expectedLen :: rest) 0 := by
  intro offset other first atOffset
  cases Nat.le_zero.mp first
  cases atOffset
  exact ⟨fits, length⟩

theorem usable_succ :
    Usable known baseSequence index parityLen (expectedLen :: rest) (last + 1) ↔
      Usable known baseSequence index parityLen (expectedLen :: rest) 0 ∧
        Usable known baseSequence (index + 1) parityLen rest last := by
  constructor
  · intro usable
    refine ⟨usable_zero usable.head.1 usable.head.2, ?_⟩
    intro offset other within atOffset
    rw [Nat.add_assoc, Nat.add_comm 1 offset]
    exact usable (offset + 1) other (Nat.succ_le_succ within) atOffset
  · rintro ⟨here, later⟩ offset other within atOffset
    cases offset with
    | zero => exact here 0 other (Nat.le_refl 0) atOffset
    | succ offset =>
        have found := later offset other (Nat.le_of_succ_le_succ within) atOffset
        rw [Nat.add_assoc, Nat.add_comm 1 offset] at found
        exact found

/-- A member is unknown, and an earlier one too unless one is missing already,
and no length up to this member rules the frame out. -/
def SecondUnknown (known : Nat → Option Bytes) (baseSequence index parityLen : Nat)
    (payloadLengths : List Nat) (missing : Option (Nat × Nat)) : Prop :=
  ∃ second, second < payloadLengths.length ∧
    known (sequenceAfter baseSequence (index + second)) = none ∧
    (missing = none → ∃ first, first < second ∧
      known (sequenceAfter baseSequence (index + first)) = none) ∧
    Usable known baseSequence index parityLen payloadLengths second

variable {missing : Option (Nat × Nat)}

theorem SecondUnknown.head
    (second : SecondUnknown known baseSequence index parityLen (expectedLen :: rest) missing) :
    expectedLen ≤ parityLen ∧ ∀ payload,
      known (sequenceAfter baseSequence index) = some payload → payload.length = expectedLen := by
  rcases second with ⟨_, -, -, -, usable⟩
  exact usable.head

theorem add_succ_eq (offset : Nat) : index + (offset + 1) = index + 1 + offset := by
  omega

theorem secondUnknown_of_known {payload : Bytes}
    (found : known (sequenceAfter baseSequence index) = some payload)
    (fits : expectedLen ≤ parityLen) (length : payload.length = expectedLen) :
    SecondUnknown known baseSequence index parityLen (expectedLen :: rest) missing ↔
      SecondUnknown known baseSequence (index + 1) parityLen rest missing := by
  have here : Usable known baseSequence index parityLen (expectedLen :: rest) 0 := by
    apply usable_zero fits
    intro other same
    cases found.symm.trans same
    exact length
  constructor
  · rintro ⟨_ | second, inFrame, unknown, others, usable⟩
    · cases found.symm.trans unknown
    · rw [add_succ_eq] at unknown
      refine ⟨second, Nat.lt_of_succ_lt_succ inFrame, unknown, ?_, (usable_succ.mp usable).2⟩
      intro none
      rcases others none with ⟨_ | first, earlier, unknownFirst⟩
      · cases found.symm.trans unknownFirst
      · rw [add_succ_eq] at unknownFirst
        exact ⟨first, Nat.lt_of_succ_lt_succ earlier, unknownFirst⟩
  · rintro ⟨second, inFrame, unknown, others, usable⟩
    rw [← add_succ_eq] at unknown
    refine ⟨second + 1, Nat.succ_lt_succ inFrame, unknown, ?_, usable_succ.mpr ⟨here, usable⟩⟩
    intro none
    rcases others none with ⟨first, earlier, unknownFirst⟩
    rw [← add_succ_eq] at unknownFirst
    exact ⟨first + 1, Nat.succ_lt_succ earlier, unknownFirst⟩

theorem secondUnknown_of_missing {present : Nat × Nat}
    (unknown : known (sequenceAfter baseSequence index) = none) (fits : expectedLen ≤ parityLen) :
    SecondUnknown known baseSequence index parityLen (expectedLen :: rest) (some present) := by
  refine ⟨0, Nat.succ_pos _, unknown, ?_, ?_⟩
  · intro impossible
    cases impossible
  · apply usable_zero fits
    intro payload found
    cases unknown.symm.trans found

/-- An unknown member is the first of the two. -/
theorem secondUnknown_of_first {present : Nat × Nat}
    (unknown : known (sequenceAfter baseSequence index) = none) (fits : expectedLen ≤ parityLen) :
    SecondUnknown known baseSequence index parityLen (expectedLen :: rest) none ↔
      SecondUnknown known baseSequence (index + 1) parityLen rest (some present) := by
  have here : Usable known baseSequence index parityLen (expectedLen :: rest) 0 := by
    apply usable_zero fits
    intro payload found
    cases unknown.symm.trans found
  constructor
  · rintro ⟨_ | second, inFrame, unknownSecond, others, usable⟩
    · rcases others rfl with ⟨first, impossible, -⟩
      exact absurd impossible (Nat.not_lt_zero first)
    · rw [add_succ_eq] at unknownSecond
      refine ⟨second, Nat.lt_of_succ_lt_succ inFrame, unknownSecond, ?_,
        (usable_succ.mp usable).2⟩
      intro impossible
      cases impossible
  · rintro ⟨second, inFrame, unknownSecond, -, usable⟩
    rw [← add_succ_eq] at unknownSecond
    exact ⟨second + 1, Nat.succ_lt_succ inFrame, unknownSecond,
      fun _ => ⟨0, Nat.succ_pos _, unknown⟩, usable_succ.mpr ⟨here, usable⟩⟩

theorem scanFrame_multipleMissing_iff {payloadLengths : List Nat} {parity : Bytes} :
    scanFrame known baseSequence index payloadLengths parity missing = .multipleMissing ↔
      SecondUnknown known baseSequence index parity.length payloadLengths missing := by
  induction payloadLengths generalizing index parity missing with
  | nil => simp [scanFrame, SecondUnknown]
  | cons expectedLen rest induction =>
      rw [scanFrame.eq_def]
      dsimp only
      by_cases short : parity.length < expectedLen
      · rw [if_pos short]
        exact iff_of_false (by intro impossible; cases impossible) fun second =>
          absurd second.head.1 (Nat.not_le.mpr short)
      · rw [if_neg short]
        have fits := Nat.le_of_not_lt short
        cases found : known (sequenceAfter baseSequence index) with
        | some payload =>
            dsimp only
            by_cases wrong : payload.length ≠ expectedLen ∨ parity.length < payload.length
            · rw [if_pos wrong]
              refine iff_of_false (by intro impossible; cases impossible) ?_
              intro second
              have length := second.head.2 payload found
              omega
            · rw [if_neg wrong, induction, Parity.length_overlay]
              exact (secondUnknown_of_known found fits (by omega)).symm
        | none =>
            cases missing with
            | some present => exact iff_of_true rfl (secondUnknown_of_missing found fits)
            | none =>
                dsimp only
                rw [induction]
                exact (secondUnknown_of_first found fits).symm

end Scan

theorem waits_iff_scanFrame {fec : FecState} {buffered : Buffered} {frame : FecFrame} :
    fec.Waits buffered frame ↔
      scanFrame (fec.payloadFor buffered) frame.baseSequence 0 frame.payloadLengths frame.parity
        none = .multipleMissing := by
  rw [scanFrame_multipleMissing_iff]
  constructor
  · rintro ⟨first, second, earlier, inFrame, unknownFirst, unknownSecond, usable⟩
    refine ⟨second, inFrame, by rw [Nat.zero_add]; exact unknownSecond, ?_, usable⟩
    exact fun _ => ⟨first, earlier, by rw [Nat.zero_add]; exact unknownFirst⟩
  · rintro ⟨second, inFrame, unknownSecond, others, usable⟩
    rcases others rfl with ⟨first, earlier, unknownFirst⟩
    rw [Nat.zero_add] at unknownFirst unknownSecond
    exact ⟨first, second, earlier, inFrame, unknownFirst, unknownSecond, usable⟩

theorem Waits.missesTwo {fec : FecState} {buffered : Buffered} {frame : FecFrame}
    (waits : fec.Waits buffered frame) : fec.MissesTwo buffered frame := by
  rcases waits with ⟨first, second, earlier, inFrame, unknownFirst, unknownSecond, -⟩
  exact ⟨first, second, earlier, inFrame, unknownFirst, unknownSecond⟩

theorem Known.found {known : Nat → Option Bytes} {baseSequence : Nat} :
    ∀ {index payloadLengths payloads}, Known known baseSequence index payloadLengths payloads →
    ∀ {member}, index ≤ member → member < index + payloadLengths.length →
    known (sequenceAfter baseSequence member) ≠ none
  | _, [], [], _, _, above, below => absurd below (by simp; omega)
  | index, _ :: rest, _ :: _, members, member, above, below => by
      by_cases here : member = index
      · rw [here, members.1]
        exact Option.some_ne_none _
      · rw [List.length_cons] at below
        exact Known.found members.2.2 (by omega) (by omega)

/-- A frame that misses two members recovers neither. -/
theorem recoverReady_of_missesTwo {fec : FecState} {nextSeq : Nat} {buffered : Buffered}
    (stuck : ∀ {base : Nat} {frame : FecFrame},
      fec.frames[base]? = some frame → fec.MissesTwo buffered frame) :
    (fec.recoverReady nextSeq buffered).2 = [] := by
  rw [List.eq_nil_iff_forall_not_mem]
  rintro ⟨sequence, payload⟩ member
  rcases mem_recoverReady.mp member with ⟨base, frame, parity, expectedLen, found, scan, -, -⟩
  rcases stuck found with ⟨first, second, earlier, inFrame, unknownFirst, unknownSecond⟩
  rcases scanFrame_of_recovered scan with
    ⟨frontLengths, backLengths, front, back, split, members, -, -, others, -⟩
  have length := congrArg List.length split
  rw [List.length_append, List.length_cons] at length
  have missed : ∀ {index}, index < frame.payloadLengths.length →
      fec.payloadFor buffered (sequenceAfter frame.baseSequence index) = none →
      index = frontLengths.length := by
    intro index bound unknown
    rcases Nat.lt_trichotomy index frontLengths.length with before | here | after
    · exact absurd unknown (members.found (Nat.zero_le _) (by omega))
    · exact here
    · exact absurd unknown (others.found (by omega) (by omega))
  have atFirst := missed (by omega) unknownFirst
  have atSecond := missed inFrame unknownSecond
  omega

theorem recoverFrame_kept {nextSeq : Nat} {buffered : Buffered} {fec : FecState}
    {recovered : List (Nat × Bytes)} {base : Nat} {frame : FecFrame}
    (kept : (recoverFrame nextSeq buffered (fec, recovered) base).1.frames[base]? = some frame) :
    scanFrame (fec.payloadFor buffered) frame.baseSequence 0 frame.payloadLengths frame.parity
      none = .multipleMissing := by
  cases found : fec.frames[base]? with
  | none => simp [recoverFrame, found] at kept
  | some stored =>
      simp only [recoverFrame, found] at kept
      split at kept
      · simp at kept
      · rename_i scan
        rw [found] at kept
        rw [← Option.some.inj kept, scan]
      · simp at kept
      · simp at kept

theorem foldl_recoverFrame_kept {nextSeq : Nat} {buffered : Buffered} {bases : List Nat}
    (nodup : bases.Nodup) {fec : FecState} {recovered : List (Nat × Bytes)} {base : Nat}
    {frame : FecFrame} (member : base ∈ bases)
    (kept : (bases.foldl (recoverFrame nextSeq buffered) (fec, recovered)).1.frames[base]? =
      some frame) :
    scanFrame (fec.payloadFor buffered) frame.baseSequence 0 frame.payloadLengths frame.parity
      none = .multipleMissing := by
  induction bases generalizing fec recovered with
  | nil => cases member
  | cons head rest induction =>
      have parts := List.nodup_cons.mp nodup
      rw [List.foldl_cons] at kept
      have searched := recoverFrame_searched nextSeq buffered fec recovered head
      rcases List.mem_cons.mp member with rfl | later
      · have later : FecState.Searched (recoverFrame nextSeq buffered (fec, recovered) base).1
            (rest.foldl (recoverFrame nextSeq buffered)
              (recoverFrame nextSeq buffered (fec, recovered) base)).1 :=
          (foldl_recoverFrame parts.2 _ _).2
        exact recoverFrame_kept (later.frames kept)
      · have known : (recoverFrame nextSeq buffered (fec, recovered) head).1.payloadFor buffered =
            fec.payloadFor buffered := by
          funext sequence
          rw [payloadFor, payloadFor, searched.payloads]
        rw [← known]
        exact induction parts.2 later kept

/-- A frame that a search leaves stored waits. -/
theorem waits_of_kept {fec : FecState} {nextSeq : Nat} {buffered : Buffered} {base : Nat}
    {frame : FecFrame}
    (kept : (fec.recoverReady nextSeq buffered).1.frames[base]? = some frame) :
    fec.Waits buffered frame := by
  have searched := recoverReady_searched fec nextSeq buffered
  have stored := OrderedMap.mem_of_getElem? (searched.frames kept)
  exact waits_iff_scanFrame.mpr
    (foldl_recoverFrame_kept ExtTreeMap.nodup_keys (ExtTreeMap.mem_keys.mpr stored) kept)

theorem missesTwo_of_kept {fec : FecState} {nextSeq : Nat} {buffered : Buffered} {base : Nat}
    {frame : FecFrame}
    (kept : (fec.recoverReady nextSeq buffered).1.frames[base]? = some frame) :
    fec.MissesTwo buffered frame :=
  (waits_of_kept kept).missesTwo

end FecState

/-- Every stored frame misses two members. -/
def ReorderState.Stuck (state : ReorderState) : Prop :=
  ∀ (base : Nat) (frame : FecFrame), state.fecState.frames[base]? = some frame →
    state.fecState.MissesTwo state.buffered frame

variable {config : ReorderConfig} {now : Instant}
variable {state before after : ReorderState}

/-- Frames and known payloads are only lost. -/
structure Forgets (before after : ReorderState) : Prop where
  frames : ∀ {base : Nat} {frame : FecFrame},
    after.fecState.frames[base]? = some frame → before.fecState.frames[base]? = some frame
  unknown : ∀ {sequence : Nat}, before.fecState.payloadFor before.buffered sequence = none →
    after.fecState.payloadFor after.buffered sequence = none

theorem ReorderState.Stuck.forget (stuck : before.Stuck) (forgets : Forgets before after) :
    after.Stuck := by
  intro base frame found
  rcases stuck base frame (forgets.frames found) with
    ⟨first, second, earlier, inFrame, unknownFirst, unknownSecond⟩
  exact ⟨first, second, earlier, inFrame, forgets.unknown unknownFirst,
    forgets.unknown unknownSecond⟩

theorem payloadFor_eq_none {fec : FecState} {buffered : Buffered} {sequence : Nat} :
    fec.payloadFor buffered sequence = none ↔
      sequence ∉ fec.payloads ∧ sequence ∉ buffered := by
  rw [FecState.payloadFor, Option.orElse_eq_none, Option.map_eq_none_iff,
    ExtTreeMap.mem_iff_isSome_getElem?, ExtTreeMap.mem_iff_isSome_getElem?,
    Option.not_isSome_iff_eq_none, Option.not_isSome_iff_eq_none]

theorem Forgets.of_same (fecState : after.fecState = before.fecState)
    (buffered : after.buffered = before.buffered) : Forgets before after where
  frames found := fecState ▸ found
  unknown missing := by
    rw [fecState, buffered]
    exact missing

theorem Forgets.drain {packet : BufferedPacket}
    (found : state.buffered[state.nextSeq]? = some packet) :
    Forgets state (drainPacket packet state) where
  frames kept := by
    have unchanged := state.fecState.insertPayload_frames state.nextSeq packet.payload
    simp only [drainPacket, unchanged] at kept
    exact kept
  unknown missing := by
    rw [payloadFor_eq_none] at missing ⊢
    constructor
    · intro cached
      rcases FecState.insertPayload_found (ExtTreeMap.getElem?_eq_some_getElem cached) with
        ⟨rfl, -⟩ | earlier
      · exact missing.2 (OrderedMap.mem_of_getElem? found)
      · exact missing.1 (OrderedMap.mem_of_getElem? earlier)
    · intro held
      exact missing.2 (OrderedMap.mem_erase_iff.mp held).2

theorem Forgets.search :
    Forgets state
      { state with fecState := (state.fecState.recoverReady state.nextSeq state.buffered).1 } where
  frames := (FecState.recoverReady_searched _ _ _).frames
  unknown missing := by
    have searched := FecState.recoverReady_searched state.fecState state.nextSeq state.buffered
    rw [payloadFor_eq_none] at missing ⊢
    rw [searched.payloads]
    exact missing

/-- A move that accepts nothing. -/
theorem WindowMove.forgets (move : WindowMove config now (fun _ _ => False) before after) :
    Forgets before after := by
  cases move with
  | drain found => exact .drain found
  | search => exact .search
  | settle _ _ source => exact source.elim
  | report _ _ | request _ _ | skipFragment _ _ _ | skipMissing _ _ _ _ =>
      exact .of_same rfl rfl

theorem ReorderState.Stuck.recovers_nothing (stuck : state.Stuck) :
    (state.fecState.recoverReady state.nextSeq state.buffered).2 = [] :=
  FecState.recoverReady_of_missesTwo fun found => stuck _ _ found

theorem stuck_invariant (config : ReorderConfig) (now : Instant) :
    WindowInvariant config now (fun _ _ => False) ReorderState.Stuck where
  move move stuck := stuck.forget move.forgets
  recovered stuck member := by
    rw [stuck.recovers_nothing] at member
    cases member

theorem stuck_search (state : ReorderState) :
    ReorderState.Stuck
      { state with
        fecState := (state.fecState.recoverReady state.nextSeq state.buffered).1 } := by
  intro base frame kept
  rcases FecState.missesTwo_of_kept kept with
    ⟨first, second, earlier, inFrame, unknownFirst, unknownSecond⟩
  exact ⟨first, second, earlier, inFrame, Forgets.search.unknown unknownFirst,
    Forgets.search.unknown unknownSecond⟩

/-! ## The recovery loop -/

theorem acceptRecovered_flag {progress : ReorderState × Bool} {pair : Nat × Bytes}
    (rejected : (acceptRecovered now progress pair).2 = false) :
    acceptRecovered now progress pair = progress := by
  rcases progress with ⟨state, accepted⟩
  rcases pair with ⟨sequence, payload⟩
  simp only [acceptRecovered] at rejected ⊢
  split at rejected
  · rename_i passed
    rw [if_pos passed]
  · cases rejected

theorem foldl_acceptRecovered_flag {recovered : List (Nat × Bytes)}
    {progress : ReorderState × Bool}
    (rejected : (recovered.foldl (acceptRecovered now) progress).2 = false) :
    recovered.foldl (acceptRecovered now) progress = progress := by
  induction recovered generalizing progress with
  | nil => rfl
  | cons pair rest induction =>
      rw [List.foldl_cons] at rejected ⊢
      have settled := induction rejected
      rw [settled] at rejected ⊢
      exact acceptRecovered_flag rejected

/-- The loop ends with a search that accepts nothing. -/
theorem recoverStep_done {final : ReorderState} (left : recoverStep now state = .done final) :
    final =
      { state with
        fecState := (state.fecState.recoverReady state.nextSeq state.buffered).1 } := by
  rw [recoverStep] at left
  split at left
  rename_i fec recovered search
  rw [search]
  dsimp only at left
  split at left
  · cases left
    rfl
  · split at left
    · cases left
    · rename_i last outcome
      cases left
      have unchanged := foldl_acceptRecovered_flag (congrArg Prod.snd outcome)
      exact (Prod.ext_iff.mp (outcome.symm.trans unchanged)).1

theorem recoverFecReady_stuck (now : Instant) (state : ReorderState) :
    (recoverFecReady now state).Stuck := by
  rcases BreakLoop.run?_exit (fun _ _ _ _ => trivial) _ _ _ trivial
    (recoverFecReady_breaks now state) with ⟨last, -, left⟩
  rw [recoverStep_done left]
  exact stuck_search last

theorem recoverFecReady_of_stuck (now : Instant) (stuck : state.Stuck) :
    recoverFecReady now state =
      { state with
        fecState := (state.fecState.recoverReady state.nextSeq state.buffered).1 } := by
  have done : recoverStep now state = .done
      { state with
        fecState := (state.fecState.recoverReady state.nextSeq state.buffered).1 } := by
    rw [recoverStep]
    split
    rename_i fec recovered search
    have nothing := stuck.recovers_nothing
    rw [search] at nothing ⊢
    dsimp only at nothing ⊢
    rw [nothing]
    rfl
  rw [recoverFecReady, BreakLoop.run, done]

/-- Advancing the window leaves only stuck frames behind. -/
theorem advanceReorderWindow_stuck (wellFormed : WellFormed (recoverFecReady now state))
    (advanced : advanceReorderWindow config now state = some after) : after.Stuck := by
  rcases advanceReorderWindow_eq config now wellFormed with ⟨requested, same, outcome⟩
  cases advanced.symm.trans outcome
  have rule := stuck_invariant config now
  have recovered := recoverFecReady_stuck now state
  apply rule.drainReady
  apply rule.expireReorderGap
  exact recovered.forget (.of_same same.fecState same.buffered)

end Irohsion.Server
