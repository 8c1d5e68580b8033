import Irohsion.Client.FecEncoder

/-! # FEC frames and the MTU

`record` checks each payload against the group size in force at that moment. A
frame keeps to the MTU exactly when its members pass the same check for the
number of members that it has, which a fixed group size guarantees and an
adaptive one does not.
-/

namespace Irohsion.Client

open Protocol

/-! ## The size of a frame -/

theorem length_packetBytes_fecFramePayload (frame : FecFrame) :
    (packetBytes fecHeader (fecFramePayload frame)).length = headerLen +
      (fecFramePayloadOverheadWithoutLengths + frame.payloadLengths.length * 2 +
        frame.parity.length) := by
  simp only [packetBytes, fecFramePayload, List.length_append, length_littleEndian,
    length_flatMap_littleEndian, fecMagic, List.length_cons, List.length_nil,
    fecFramePayloadOverheadWithoutLengths]
  omega

/-- The payload of every frame, which is all but its header, keeps to the MTU. -/
def AllFit (mtu : Nat) (emitted : List Bytes) : Prop :=
  ∀ datagram ∈ emitted, datagram.length - headerLen ≤ mtu

theorem AllFit.nil (mtu : Nat) : AllFit mtu [] := List.forall_mem_nil _

theorem allFit_append {mtu : Nat} {first second : List Bytes} :
    AllFit mtu (first ++ second) ↔ AllFit mtu first ∧ AllFit mtu second :=
  List.forall_mem_append

/-- Every packet passes the check for as many members as there are packets. -/
def MembersFit (mtu : Option Nat) (packets : List FecSourcePacket) : Prop :=
  ∀ packet ∈ packets, fecPayloadFits packet.payload.length packets.length mtu = true

theorem MembersFit.nil (mtu : Option Nat) : MembersFit mtu [] := List.forall_mem_nil _

theorem fecPayloadFits_some {payloadLen groupSize mtu : Nat} :
    fecPayloadFits payloadLen groupSize (some mtu) = true ↔
      payloadLen ≤ mtu - (fecFramePayloadOverheadWithoutLengths + groupSize * 2) := by
  rw [fecPayloadFits, maxFecSourcePayloadLen, Option.map_some, Option.all_some,
    decide_eq_true_iff]

/-- A payload that fits a group fits a smaller one. -/
theorem fecPayloadFits_of_le {payloadLen groupSize smaller mtu : Nat}
    (fits : fecPayloadFits payloadLen groupSize (some mtu) = true) (le : smaller ≤ groupSize) :
    fecPayloadFits payloadLen smaller (some mtu) = true := by
  rw [fecPayloadFits_some] at fits ⊢
  omega

theorem MembersFit.of_prefix {mtu : Nat} {packets front : List FecSourcePacket}
    (fits : MembersFit (some mtu) packets) (start : front <+: packets) :
    MembersFit (some mtu) front :=
  fun packet member => fecPayloadFits_of_le (fits packet (start.subset member)) start.length_le

theorem membersFit_iff_longest {mtu : Nat} {packets : List FecSourcePacket} :
    MembersFit (some mtu) packets ↔
      Parity.longest (packets.map FecSourcePacket.payload) ≤
        mtu - (fecFramePayloadOverheadWithoutLengths + packets.length * 2) := by
  rw [Parity.longest_le_iff, List.forall_mem_map, MembersFit]
  exact forall₂_congr fun _ _ => fecPayloadFits_some

namespace FecEncoder

variable {encoder next : FecEncoder} {emitted : List Bytes} {mtu : Nat}

/-- A flush empties the group, and what it sends keeps to the MTU exactly when
the members fit. -/
theorem flush_fits (flushed : encoder.flush = some (emitted, next)) :
    next = encoder.clear ∧ (AllFit mtu emitted ↔ MembersFit (some mtu) encoder.packets) := by
  rw [membersFit_iff_longest]
  rw [flush] at flushed
  split at flushed
  · rename_i empty
    cases flushed
    have none := List.isEmpty_iff.mp empty
    refine ⟨by rw [clear, ← none], ?_⟩
    rw [none]
    exact ⟨fun _ => Nat.zero_le _, fun _ => .nil mtu⟩
  · dsimp only at flushed
    rw [frame_eq_groupFrame] at flushed
    have longest : (encoder.packets.map fun packet => packet.payload.length).max?.getD 0 =
        Parity.longest (encoder.packets.map FecSourcePacket.payload) := by
      rw [← max?_getD_eq_longest, List.map_map]
      rfl
    rw [longest] at flushed
    split at flushed
    · rename_i zero
      cases flushed
      rw [zero]
      exact ⟨rfl, fun _ => Nat.zero_le _, fun _ => .nil mtu⟩
    · rename_i positive
      rcases Option.map_eq_some_iff.mp flushed with ⟨bytes, encoded, same⟩
      cases same
      rw [encodeFecFrame] at encoded
      split at encoded
      · rw [encodePacket_of_valid fecHeader_valid] at encoded
        cases encoded
        refine ⟨rfl, ?_⟩
        rw [AllFit, List.forall_mem_singleton, length_packetBytes_fecFramePayload,
          Nat.add_sub_cancel_left]
        simp only [groupFrame, List.length_map, Parity.length_parityOf]
        omega
      · cases encoded

theorem flushOrClear_fits (flushed : encoder.flushOrClear = some (emitted, next)) :
    next = encoder.clear ∧ (MembersFit (some mtu) encoder.packets → AllFit mtu emitted) ∧
      (AllFit mtu emitted → 2 ≤ encoder.packets.length →
        MembersFit (some mtu) encoder.packets) := by
  rw [flushOrClear] at flushed
  split at flushed
  · rcases flush_fits flushed with ⟨cleared, fits⟩
    exact ⟨cleared, fits.mpr, fun sent _ => fits.mp sent⟩
  · rename_i few
    cases flushed
    exact ⟨rfl, fun _ => .nil mtu, fun _ several => absurd several few⟩

variable {Rate Weight : Type} [Measure Rate]

/-! ## The groups that a call gathers -/

/-- The members of the group that a call of `record` adds to, with the new one;
none when it adds to no group. -/
def gathered (encoder : FecEncoder) (call : RecordCall Rate Weight) : List FecSourcePacket :=
  match encoder.targetGroupSize call.strategy call.now with
  | none => []
  | some groupSize =>
      if 2 ^ 16 ≤ call.packet.payload.length ∨
          fecPayloadFits call.packet.payload.length groupSize encoder.mtu = false then []
      else if encoder.packets.getLast?.any fun last =>
          nextSequence last.sequence ≠ call.packet.sequence then
        [call.packet]
      else encoder.packets ++ [call.packet]

theorem gathered_of_joins {call : RecordCall Rate Weight} {groupSize : Nat}
    (target : encoder.targetGroupSize call.strategy call.now = some groupSize)
    (short : ¬ 2 ^ 16 ≤ call.packet.payload.length)
    (fits : fecPayloadFits call.packet.payload.length groupSize encoder.mtu = true) :
    encoder.gathered call =
      if encoder.packets.getLast?.any fun last =>
          nextSequence last.sequence ≠ call.packet.sequence then
        [call.packet]
      else encoder.packets ++ [call.packet] := by
  have joins : ¬ (2 ^ 16 ≤ call.packet.payload.length ∨
      fecPayloadFits call.packet.payload.length groupSize encoder.mtu = false) := by
    rw [fits, not_or]
    exact ⟨short, Bool.noConfusion⟩
  rw [gathered, target]
  exact if_neg joins

/-- What a call of `record` does: nothing, ending the group, or adding its packet
to a new or to the old group. -/
theorem record_cases {call : RecordCall Rate Weight}
    (recorded : encoder.record call.strategy call.now call.packet.sequence call.packet.payload =
      some (emitted, next)) :
    (encoder.gathered call = [] ∧ emitted = [] ∧ next = encoder) ∨
    (encoder.gathered call = [] ∧ encoder.flushOrClear = some (emitted, next)) ∨
    ∃ groupSize, encoder.targetGroupSize call.strategy call.now = some groupSize ∧
      fecPayloadFits call.packet.payload.length groupSize encoder.mtu = true ∧
      ((encoder.gathered call = [call.packet] ∧ ∃ cut cleared full,
          encoder.flushOrClear = some (cut, cleared) ∧
          cleared.push groupSize call.packet.sequence call.packet.payload = some (full, next) ∧
          emitted = cut ++ full) ∨
        (encoder.gathered call = encoder.packets ++ [call.packet] ∧
          encoder.push groupSize call.packet.sequence call.packet.payload =
            some (emitted, next))) := by
  rw [record] at recorded
  cases target : encoder.targetGroupSize call.strategy call.now with
  | none =>
      rw [target] at recorded
      cases recorded
      exact Or.inl ⟨by rw [gathered, target], rfl, rfl⟩
  | some groupSize =>
      rw [target] at recorded
      dsimp only at recorded
      by_cases long : 2 ^ 16 ≤ call.packet.payload.length
      · rw [if_pos long] at recorded
        refine Or.inr (Or.inl ⟨?_, recorded⟩)
        rw [gathered, target]
        exact if_pos (Or.inl long)
      · rw [if_neg long] at recorded
        cases fits : fecPayloadFits call.packet.payload.length groupSize encoder.mtu with
        | false =>
            rw [fits] at recorded
            refine Or.inr (Or.inl ⟨?_, recorded⟩)
            rw [gathered, target]
            exact if_pos (Or.inr fits)
        | true =>
            rw [fits] at recorded
            refine Or.inr (Or.inr ⟨groupSize, rfl, fits, ?_⟩)
            rw [gathered_of_joins target long fits]
            simp only [Bool.not_true, Bool.false_eq_true, if_false] at recorded
            split at recorded
            · rename_i gap
              rcases Option.bind_eq_some_iff.mp recorded with ⟨⟨cut, cleared⟩, flushed, rest⟩
              rcases Option.map_eq_some_iff.mp rest with ⟨⟨full, pushed⟩, pushes, same⟩
              cases same
              rw [if_pos gap]
              exact Or.inl ⟨rfl, cut, cleared, full, flushed, pushes, rfl⟩
            · rename_i together
              rw [if_neg together]
              exact Or.inr ⟨rfl, recorded⟩

theorem push_fits {groupSize : Nat} {packet : FecSourcePacket}
    (pushed : encoder.push groupSize packet.sequence packet.payload = some (emitted, next)) :
    next.mtu = encoder.mtu ∧
      ((emitted = [] ∧ next.packets = encoder.packets ++ [packet] ∧
          next.packets.length < groupSize) ∨
        (next.packets = [] ∧
          (AllFit mtu emitted ↔ MembersFit (some mtu) (encoder.packets ++ [packet])))) := by
  rw [push] at pushed
  dsimp only at pushed
  split at pushed
  · rcases @flush_fits { encoder with packets := encoder.packets ++ [packet] } _ _ mtu pushed
      with ⟨cleared, fits⟩
    rw [cleared]
    exact ⟨rfl, Or.inr ⟨rfl, fits⟩⟩
  · rename_i unfilled
    cases pushed
    exact ⟨rfl, Or.inl ⟨rfl, rfl, Nat.lt_of_not_le unfilled⟩⟩

/-! ## One call -/

/-- Every packet fits a frame of its own. -/
def EachFits (mtu : Nat) (packets : List FecSourcePacket) : Prop :=
  ∀ packet ∈ packets, fecPayloadFits packet.payload.length 1 (some mtu) = true

theorem EachFits.membersFit {packets : List FecSourcePacket} (each : EachFits mtu packets)
    (few : packets.length ≤ 1) : MembersFit (some mtu) packets :=
  fun packet member => fecPayloadFits_of_le (each packet member) few

variable {call : RecordCall Rate Weight}

theorem record_keeps (sized : encoder.mtu = some mtu)
    (recorded : encoder.record call.strategy call.now call.packet.sequence call.packet.payload =
      some (emitted, next)) (each : EachFits mtu encoder.packets) :
    next.mtu = some mtu ∧ EachFits mtu next.packets := by
  have none : EachFits mtu [] := List.forall_mem_nil _
  rcases record_cases recorded with
    ⟨-, -, same⟩ | ⟨-, flushed⟩ | ⟨groupSize, target, fits, joined⟩
  · rw [same]
    exact ⟨sized, each⟩
  · rw [(@flushOrClear_fits _ _ _ mtu flushed).1]
    exact ⟨sized, none⟩
  · rw [sized] at fits
    have allowed := targetGroupSize_allowed target
    have new := fecPayloadFits_of_le fits (Nat.le_of_succ_le allowed.1)
    rcases joined with ⟨-, cut, cleared, full, flushed, pushed, -⟩ | ⟨-, pushed⟩
    · rw [(@flushOrClear_fits _ _ _ mtu flushed).1] at pushed
      rcases @push_fits _ _ _ mtu _ _ pushed with ⟨unchanged, ⟨-, packets, -⟩ | ⟨packets, -⟩⟩
      · rw [unchanged, packets]
        exact ⟨sized, List.forall_mem_append.mpr ⟨none, List.forall_mem_singleton.mpr new⟩⟩
      · rw [unchanged, packets]
        exact ⟨sized, none⟩
    · rcases @push_fits _ _ _ mtu _ _ pushed with ⟨unchanged, ⟨-, packets, -⟩ | ⟨packets, -⟩⟩
      · rw [unchanged, packets]
        exact ⟨sized, List.forall_mem_append.mpr ⟨each, List.forall_mem_singleton.mpr new⟩⟩
      · rw [unchanged, packets]
        exact ⟨sized, none⟩

/-- Groups whose members fit at their number give frames that fit. -/
theorem record_fits (members : MembersFit (some mtu) encoder.packets)
    (joins : MembersFit (some mtu) (encoder.gathered call))
    (recorded : encoder.record call.strategy call.now call.packet.sequence call.packet.payload =
      some (emitted, next)) :
    AllFit mtu emitted ∧ MembersFit (some mtu) next.packets := by
  have none : MembersFit (some mtu) [] := .nil _
  rcases record_cases recorded with
    ⟨-, nothing, same⟩ | ⟨-, flushed⟩ |
      ⟨groupSize, -, -, ⟨alone, cut, cleared, full, flushed, pushed, both⟩ | ⟨group, pushed⟩⟩
  · rw [nothing, same]
    exact ⟨.nil mtu, members⟩
  · rcases @flushOrClear_fits _ _ _ mtu flushed with ⟨cleared, fits, -⟩
    rw [cleared]
    exact ⟨fits members, none⟩
  · rcases @flushOrClear_fits _ _ _ mtu flushed with ⟨empty, fits, -⟩
    rw [alone] at joins
    rw [both, allFit_append]
    rw [empty] at pushed
    rcases @push_fits _ _ _ mtu _ _ pushed with ⟨-, ⟨nothing, packets, -⟩ | ⟨packets, sent⟩⟩
    · rw [nothing, packets]
      exact ⟨⟨fits members, .nil mtu⟩, joins⟩
    · rw [packets]
      exact ⟨⟨fits members, sent.mpr joins⟩, none⟩
  · rw [group] at joins
    rcases @push_fits _ _ _ mtu _ _ pushed with ⟨-, ⟨nothing, packets, -⟩ | ⟨packets, sent⟩⟩
    · rw [nothing, packets]
      exact ⟨.nil mtu, joins⟩
    · rw [packets]
      exact ⟨sent.mpr joins, none⟩

/-- When what is sent fits and what is left will, so did the group that the call
added to. -/
theorem fits_of_record (sized : encoder.mtu = some mtu) (each : EachFits mtu encoder.packets)
    (recorded : encoder.record call.strategy call.now call.packet.sequence call.packet.payload =
      some (emitted, next)) (sent : AllFit mtu emitted)
    (later : MembersFit (some mtu) next.packets) :
    MembersFit (some mtu) (encoder.gathered call) ∧ MembersFit (some mtu) encoder.packets := by
  have none : MembersFit (some mtu) [] := .nil _
  have held : ∀ {cut : List Bytes} {cleared : FecEncoder},
      encoder.flushOrClear = some (cut, cleared) → AllFit mtu cut →
      MembersFit (some mtu) encoder.packets := by
    intro cut cleared flushed fit
    by_cases several : 2 ≤ encoder.packets.length
    · exact (@flushOrClear_fits _ _ _ mtu flushed).2.2 fit several
    · exact each.membersFit (by omega)
  rcases record_cases recorded with
    ⟨nothing, -, same⟩ | ⟨nothing, flushed⟩ |
      ⟨groupSize, target, fits, ⟨alone, cut, cleared, full, flushed, -, both⟩ | ⟨group, pushed⟩⟩
  · rw [nothing]
    exact ⟨none, same ▸ later⟩
  · rw [nothing]
    exact ⟨none, held flushed sent⟩
  · rw [both, allFit_append] at sent
    rw [alone]
    refine ⟨?_, held flushed sent.1⟩
    rw [sized] at fits
    have allowed := targetGroupSize_allowed target
    intro packet member
    rw [List.mem_singleton.mp member]
    exact fecPayloadFits_of_le fits (Nat.le_of_succ_le allowed.1)
  · have joins : MembersFit (some mtu) (encoder.packets ++ [call.packet]) := by
      rcases @push_fits _ _ _ mtu _ _ pushed with ⟨-, ⟨-, packets, -⟩ | ⟨-, fit⟩⟩
      · rw [← packets]
        exact later
      · exact fit.mp sent
    rw [group]
    exact ⟨joins, joins.of_prefix (List.prefix_append _ _)⟩

/-! ## Sequences of calls -/

/-- Whenever a call adds its packet to a group, all members, with the new one,
fit a frame of as many members. -/
def JoinsFit (encoder : FecEncoder) : List (RecordCall Rate Weight) → Prop
  | [] => True
  | call :: rest =>
      MembersFit encoder.mtu (encoder.gathered call) ∧
        ∀ emitted next, encoder.record call.strategy call.now call.packet.sequence
          call.packet.payload = some (emitted, next) → next.JoinsFit rest

theorem foldlM_recordNext_emitted (emitted : List Bytes) (encoder : FecEncoder)
    (calls : List (RecordCall Rate Weight)) :
    calls.foldlM recordNext (emitted, encoder) =
      (encoder.recordAll calls).map fun (more, final) => (emitted ++ more, final) := by
  induction calls generalizing emitted encoder with
  | nil =>
      rw [recordAll, List.foldlM_nil, List.foldlM_nil]
      show some (emitted, encoder) = some (emitted ++ [], encoder)
      rw [List.append_nil]
  | cons call rest induction =>
      rw [recordAll, List.foldlM_cons, List.foldlM_cons]
      cases recorded : encoder.record call.strategy call.now call.packet.sequence
          call.packet.payload with
      | none =>
          simp only [recordNext, recorded]
          rfl
      | some outcome =>
          rcases outcome with ⟨more, next⟩
          simp only [recordNext, recorded, Option.map_some]
          show rest.foldlM recordNext _ = (rest.foldlM recordNext _).map _
          rw [induction, induction, Option.map_map]
          congr 1
          funext result
          rcases result with ⟨later, final⟩
          simp only [Function.comp_apply, List.nil_append, List.append_assoc]

theorem recordAll_cons {calls : List (RecordCall Rate Weight)} {all : List Bytes}
    {final : FecEncoder} (ran : encoder.recordAll (call :: calls) = some (all, final)) :
    ∃ emitted next later, encoder.record call.strategy call.now call.packet.sequence
        call.packet.payload = some (emitted, next) ∧
      next.recordAll calls = some (later, final) ∧ all = emitted ++ later := by
  rw [recordAll, List.foldlM_cons] at ran
  rcases Option.bind_eq_some_iff.mp ran with ⟨⟨front, next⟩, stepped, rest⟩
  rcases Option.map_eq_some_iff.mp stepped with ⟨⟨emitted, after⟩, recorded, same⟩
  cases same
  rw [foldlM_recordNext_emitted] at rest
  rcases Option.map_eq_some_iff.mp rest with ⟨⟨later, last⟩, remaining, same⟩
  cases same
  exact ⟨emitted, next, later, recorded, remaining, rfl⟩

theorem JoinsFit.allFit {calls : List (RecordCall Rate Weight)} (joins : encoder.JoinsFit calls)
    (sized : encoder.mtu = some mtu) (each : EachFits mtu encoder.packets)
    (members : MembersFit (some mtu) encoder.packets) {all : List Bytes} {final : FecEncoder}
    (ran : encoder.recordAll calls = some (all, final)) : AllFit mtu all := by
  induction calls generalizing encoder all with
  | nil =>
      cases ran
      exact .nil mtu
  | cons call rest induction =>
      rcases recordAll_cons ran with ⟨emitted, next, later, recorded, remaining, rfl⟩
      rcases joins with ⟨joined, others⟩
      rw [sized] at joined
      rcases record_keeps sized recorded each with ⟨nextSized, nextEach⟩
      rcases record_fits members joined recorded with ⟨sent, nextMembers⟩
      rw [allFit_append]
      exact ⟨sent, induction (others _ _ recorded) nextSized nextEach nextMembers remaining⟩

/-- A payload that is too long for any frame joins no group. -/
theorem JoinsFit.close {calls : List (RecordCall Rate Weight)}
    {closing : RecordCall Rate Weight} (long : 2 ^ 16 ≤ closing.packet.payload.length)
    (joins : encoder.JoinsFit calls) : encoder.JoinsFit (calls ++ [closing]) := by
  induction calls generalizing encoder with
  | nil =>
      refine ⟨?_, fun _ _ _ => trivial⟩
      rw [gathered]
      split
      · exact .nil _
      · rw [if_pos (Or.inl long)]
        exact .nil _
  | cons call rest induction =>
      exact ⟨joins.1, fun emitted next recorded => induction (joins.2 emitted next recorded)⟩

/-- It ends the one that there is. -/
theorem fits_of_closing (enabled : encoder.mode ≠ .disabled)
    (long : 2 ^ 16 ≤ call.packet.payload.length) (each : EachFits mtu encoder.packets)
    (recorded : encoder.record call.strategy call.now call.packet.sequence call.packet.payload =
      some (emitted, next)) (sent : AllFit mtu emitted) :
    MembersFit (some mtu) encoder.packets := by
  rw [record] at recorded
  cases target : encoder.targetGroupSize call.strategy call.now with
  | none =>
      rw [targetGroupSize] at target
      split at target
      · rename_i disabled
        exact absurd disabled enabled
      · cases target
      · cases target
  | some groupSize =>
      rw [target] at recorded
      dsimp only at recorded
      rw [if_pos long] at recorded
      by_cases several : 2 ≤ encoder.packets.length
      · exact (@flushOrClear_fits _ _ _ mtu recorded).2.2 sent several
      · exact each.membersFit (by omega)

theorem record_mode
    (recorded : encoder.record call.strategy call.now call.packet.sequence call.packet.payload =
      some (emitted, next)) : next.mode = encoder.mode := by
  have pushed_mode : ∀ {encoder next : FecEncoder} {emitted : List Bytes} {groupSize : Nat},
      encoder.push groupSize call.packet.sequence call.packet.payload = some (emitted, next) →
      next.mode = encoder.mode := by
    intro encoder next emitted groupSize pushed
    rw [push] at pushed
    dsimp only at pushed
    split at pushed
    · rw [(@flush_fits _ _ _ 0 pushed).1]
      rfl
    · cases pushed
      rfl
  rcases record_cases recorded with
    ⟨-, -, same⟩ | ⟨-, flushed⟩ |
      ⟨groupSize, -, -, ⟨-, cut, cleared, full, flushed, pushed, -⟩ | ⟨-, pushed⟩⟩
  · rw [same]
  · rw [(@flushOrClear_fits _ _ _ 0 flushed).1]
    rfl
  · rw [pushed_mode pushed, (@flushOrClear_fits _ _ _ 0 flushed).1]
    rfl
  · exact pushed_mode pushed

theorem joinsFit_of_allFit {calls : List (RecordCall Rate Weight)}
    {closing : RecordCall Rate Weight} (sized : encoder.mtu = some mtu)
    (enabled : encoder.mode ≠ .disabled) (each : EachFits mtu encoder.packets)
    (long : 2 ^ 16 ≤ closing.packet.payload.length) {all : List Bytes} {final : FecEncoder}
    (ran : encoder.recordAll (calls ++ [closing]) = some (all, final)) (sent : AllFit mtu all) :
    encoder.JoinsFit calls ∧ MembersFit (some mtu) encoder.packets := by
  induction calls generalizing encoder all with
  | nil =>
      rcases recordAll_cons ran with ⟨emitted, next, later, recorded, -, rfl⟩
      exact ⟨trivial, fits_of_closing enabled long each recorded (allFit_append.mp sent).1⟩
  | cons call rest induction =>
      rcases recordAll_cons ran with ⟨emitted, next, later, recorded, remaining, rfl⟩
      rw [allFit_append] at sent
      rcases record_keeps sized recorded each with ⟨nextSized, nextEach⟩
      have nextEnabled : next.mode ≠ .disabled := record_mode recorded ▸ enabled
      rcases induction nextSized nextEnabled nextEach remaining sent.2 with ⟨joins, members⟩
      rcases fits_of_record sized each recorded sent.1 members with ⟨joined, held⟩
      refine ⟨⟨sized ▸ joined, ?_⟩, held⟩
      intro otherEmitted other same
      cases recorded.symm.trans same
      exact joins

/-- The packets of an unfinished group in fixed mode. -/
structure FixedGroup (mtu groupSize : Nat) (encoder : FecEncoder) : Prop where
  fixed : ∃ accepted, encoder.mode = .fixed groupSize accepted
  sized : encoder.mtu = some mtu
  few : encoder.packets.length < groupSize
  checked : ∀ packet ∈ encoder.packets,
    fecPayloadFits packet.payload.length groupSize (some mtu) = true

theorem FixedGroup.record {groupSize : Nat} (group : FixedGroup mtu groupSize encoder)
    (recorded : encoder.record call.strategy call.now call.packet.sequence call.packet.payload =
      some (emitted, next)) : FixedGroup mtu groupSize next := by
  rcases group with ⟨⟨accepted, fixed⟩, sized, few, checked⟩
  have positive : 0 < groupSize := Nat.lt_of_le_of_lt (Nat.zero_le _) few
  have ended : FixedGroup mtu groupSize encoder.clear :=
    ⟨⟨accepted, fixed⟩, sized, positive, List.forall_mem_nil _⟩
  have pushes : ∀ {before : FecEncoder} {full : List Bytes},
      FixedGroup mtu groupSize before →
      fecPayloadFits call.packet.payload.length groupSize (some mtu) = true →
      before.push groupSize call.packet.sequence call.packet.payload = some (full, next) →
      FixedGroup mtu groupSize next := by
    intro before full started fits pushed
    have mode := record_mode recorded
    rcases @push_fits _ _ _ mtu _ _ pushed with ⟨unchanged, ⟨-, packets, unfilled⟩ | ⟨packets, -⟩⟩
    · refine ⟨⟨accepted, mode.trans fixed⟩, unchanged.trans started.sized, unfilled, ?_⟩
      rw [packets]
      exact List.forall_mem_append.mpr ⟨started.checked, List.forall_mem_singleton.mpr fits⟩
    · refine ⟨⟨accepted, mode.trans fixed⟩, unchanged.trans started.sized, ?_, ?_⟩
      · rw [packets]
        exact positive
      · rw [packets]
        exact List.forall_mem_nil _
  rcases record_cases recorded with
    ⟨-, -, same⟩ | ⟨-, flushed⟩ | ⟨other, target, fits, joined⟩
  · rw [same]
    exact ⟨⟨accepted, fixed⟩, sized, few, checked⟩
  · rw [(@flushOrClear_fits _ _ _ mtu flushed).1]
    exact ended
  · rw [targetGroupSize, fixed] at target
    cases target
    rw [sized] at fits
    rcases joined with ⟨-, cut, cleared, full, flushed, pushed, -⟩ | ⟨-, pushed⟩
    · rw [(@flushOrClear_fits _ _ _ mtu flushed).1] at pushed
      exact pushes ended fits pushed
    · exact pushes ⟨⟨accepted, fixed⟩, sized, few, checked⟩ fits pushed

/-- In fixed mode a group never has more members than its packets were checked for. -/
theorem FixedGroup.joinsFit {groupSize : Nat} (group : FixedGroup mtu groupSize encoder)
    (calls : List (RecordCall Rate Weight)) : encoder.JoinsFit calls := by
  induction calls generalizing encoder with
  | nil => trivial
  | cons call rest induction =>
      refine ⟨?_, fun _ _ recorded => induction (group.record recorded)⟩
      rcases group with ⟨⟨accepted, fixed⟩, sized, few, checked⟩
      have target : encoder.targetGroupSize call.strategy call.now = some groupSize := by
        rw [targetGroupSize, fixed]
      rw [gathered, target, sized]
      dsimp only
      split
      · exact .nil _
      · rename_i joins
        rw [not_or, Bool.not_eq_false] at joins
        split
        · intro packet member
          rw [List.mem_singleton.mp member]
          exact fecPayloadFits_of_le joins.2 (Nat.lt_of_le_of_lt (Nat.zero_le _) few)
        · intro packet member
          have bound : (encoder.packets ++ [call.packet]).length ≤ groupSize := by
            rw [List.length_append, List.length_singleton]
            exact few
          rcases List.mem_append.mp member with member | member
          · exact fecPayloadFits_of_le (checked packet member) bound
          · rw [List.mem_singleton.mp member]
            exact fecPayloadFits_of_le joins.2 bound

theorem joinsFit_of_disabled (disabled : encoder.mode = .disabled)
    (calls : List (RecordCall Rate Weight)) : encoder.JoinsFit calls := by
  induction calls with
  | nil => trivial
  | cons call rest induction =>
      have target : encoder.targetGroupSize call.strategy call.now = none := by
        rw [targetGroupSize, disabled]
      constructor
      · rw [gathered, target]
        exact .nil _
      · intro emitted next recorded
        rw [FecEncoder.record, target] at recorded
        cases recorded
        exact induction

/-! ## Encoders with an MTU -/

theorem new_mode {off : Bool} {groupSize : Nat} {limit : Option Nat}
    (created : new off groupSize limit = .ok encoder) :
    encoder.mtu = limit ∧ (encoder.mode = .disabled ∨ (groupSize = 0 ∧ encoder.mode = .adaptive) ∨
      ∃ accepted, encoder.mode = .fixed groupSize accepted) := by
  rw [new] at created
  split at created
  · cases created
    exact ⟨rfl, Or.inl rfl⟩
  · split at created
    · rename_i zero
      cases created
      exact ⟨rfl, Or.inr (Or.inl ⟨zero, rfl⟩)⟩
    · split at created
      · cases created
      · split at created
        · cases created
        · cases created
          exact ⟨rfl, Or.inr (Or.inr ⟨_, rfl⟩)⟩

/-- From a new encoder, every frame keeps to the MTU when all joins fit. Once the
last group is ended as well, they do so exactly then. In fixed mode all joins fit. -/
theorem recordAll_fits_iff {off : Bool} {groupSize : Nat}
    (created : new off groupSize (some mtu) = .ok encoder) :
    (∀ (calls : List (RecordCall Rate Weight)) (emitted : List Bytes) (final : FecEncoder),
      encoder.JoinsFit calls → encoder.recordAll calls = some (emitted, final) →
        AllFit mtu emitted) ∧
    (∀ (calls : List (RecordCall Rate Weight)) (closing : RecordCall Rate Weight),
      2 ^ 16 ≤ closing.packet.payload.length →
      (∀ call ∈ calls ++ [closing], call.packet.sequence ≤ maxMediaSequence) →
      ∃ emitted final, encoder.recordAll (calls ++ [closing]) = some (emitted, final) ∧
        (AllFit mtu emitted ↔ encoder.JoinsFit calls)) ∧
    (groupSize ≠ 0 → ∀ calls : List (RecordCall Rate Weight), encoder.JoinsFit calls) := by
  rcases new_gathering created with ⟨gathering, empty⟩
  rcases new_mode created with ⟨sized, mode⟩
  have each : EachFits mtu encoder.packets := by
    rw [empty]
    exact List.forall_mem_nil _
  have members : MembersFit (some mtu) encoder.packets := by
    rw [empty]
    exact .nil _
  refine ⟨fun calls emitted final joins ran => joins.allFit sized each members ran, ?_, ?_⟩
  · intro calls closing long media
    have started : encoder.packets <:+ [] := by rw [empty]
    rcases foldlM_recordNext gathering started (.nil _) media with ⟨emitted, final, ran, -⟩
    refine ⟨emitted, final, ran, ?_, ?_⟩
    · intro sent
      by_cases disabled : encoder.mode = .disabled
      · exact joinsFit_of_disabled disabled calls
      · exact (joinsFit_of_allFit sized disabled each long ran sent).1
    · exact fun joins => (joins.close long).allFit sized each members ran
  · intro nonzero calls
    rcases mode with disabled | ⟨zero, -⟩ | fixed
    · exact joinsFit_of_disabled disabled calls
    · exact absurd zero nonzero
    · refine FixedGroup.joinsFit ⟨fixed, sized, ?_, ?_⟩ calls
      · rw [empty]
        exact Nat.pos_of_ne_zero nonzero
      · rw [empty]
        exact List.forall_mem_nil _

end FecEncoder

/-! ## A group size that grows -/

/-- The health of two interfaces, of which one is far behind. -/
def laggingStrategy : StrategyState Float32 Float where
  mode := .auto
  strategy := .redundant
  weightedAutoSplit := false
  roundRobinCursor := 0
  splitPercentages := ∅
  healthByInterface :=
    ((∅ : Std.ExtTreeMap String (InterfaceHealth Float32)).insert "a" ⟨some 200, 1.0, 0⟩).insert
      "b" ⟨some 0, 1.0, 0⟩
  interfaceFailures := ∅

def unknownStrategy : StrategyState Float32 Float := { laggingStrategy with healthByInterface := ∅ }

/-- With an MTU of 40, a payload of 24 bytes fits a group of three, and the
group grows to four. -/
def growingCalls : List (FecEncoder.RecordCall Float32 Float) :=
  [⟨laggingStrategy, 0, 0, List.replicate 24 1⟩, ⟨unknownStrategy, 0, 1, [1]⟩,
    ⟨unknownStrategy, 0, 2, [1]⟩, ⟨unknownStrategy, 0, 3, [1]⟩]

/-- Its frame has four lengths, which makes two bytes too many. -/
theorem grown_group_exceeds_mtu :
    FecEncoder.new false 0 (some 40) = .ok ⟨.adaptive, some 40, []⟩ ∧
      ∃ emitted final,
        (⟨.adaptive, some 40, []⟩ : FecEncoder).recordAll growingCalls = some (emitted, final) ∧
          ¬ AllFit 40 emitted := by
  refine ⟨rfl, ?_⟩
  have evaluated : ((⟨.adaptive, some 40, []⟩ : FecEncoder).recordAll growingCalls).any
      (fun result => result.1.map List.length = [headerLen + 42]) = true := by decide +kernel
  rcases Option.any_eq_true _ _ |>.mp evaluated with ⟨⟨emitted, final⟩, ran, lengths⟩
  refine ⟨emitted, final, ran, ?_⟩
  intro fit
  have sizes : emitted.map List.length = [headerLen + 42] := of_decide_eq_true lengths
  rcases List.map_eq_singleton_iff.mp sizes with ⟨datagram, rfl, length⟩
  have bound := fit datagram (List.mem_singleton_self _)
  rw [length] at bound
  exact absurd bound (by decide)

/-- A payload that ends the last group. -/
def closingCall : FecEncoder.RecordCall Float32 Float :=
  ⟨unknownStrategy, 0, 4, List.replicate (2 ^ 16) 0⟩

theorem recordAll_fits_iff_pairs :
    ∃ emitted final,
      (⟨.fixed 2 (by decide), some 40, []⟩ : FecEncoder).recordAll
        (growingCalls ++ [closingCall]) = some (emitted, final) ∧ AllFit 40 emitted := by
  have created : FecEncoder.new false 2 (some 40) =
      .ok ⟨.fixed 2 (by decide), some 40, []⟩ := rfl
  rcases @FecEncoder.recordAll_fits_iff _ 40 Float32 Float _ _ _ created with
    ⟨-, ended, always⟩
  have long : 2 ^ 16 ≤ closingCall.packet.payload.length :=
    Nat.le_of_eq List.length_replicate.symm
  have media : ∀ call ∈ growingCalls ++ [closingCall],
      call.packet.sequence ≤ maxMediaSequence := by
    simp only [growingCalls, closingCall, List.cons_append, List.nil_append,
      List.forall_mem_cons]
    decide
  rcases ended growingCalls closingCall long media with ⟨emitted, final, ran, fits⟩
  exact ⟨emitted, final, ran, fits.mpr (always (by decide) growingCalls)⟩

end Irohsion.Client
