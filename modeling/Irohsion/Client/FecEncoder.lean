import Irohsion.Client.PathStrategy
import Irohsion.Protocol.Content
import Mathlib.Data.List.Chain

/-! # The FEC encoder

Consecutive packets gather in a group. A full group becomes one parity frame; a
group that is cut short becomes one when it has at least two members. Encoding
may panic, so the operations return an `Option`; they give the encoded frames.
-/

namespace Irohsion.Client

open Protocol

/-- The bytes of a frame's payload besides the lengths and the parity. -/
def fecFramePayloadOverheadWithoutLengths : Nat := 5 + 4 + 1

structure FecSourcePacket where
  sequence : Nat
  payload : Bytes
  deriving DecidableEq, Repr

/-- A fixed group has a size that `FecEncoder::new` accepts. -/
inductive FecGroupMode
  | disabled
  | adaptive
  | fixed (groupSize : Nat) (accepted : 2 ≤ groupSize ∧ groupSize ≤ maxFecGroupPackets)

structure FecEncoder where
  mode : FecGroupMode
  mtu : Option Nat
  packets : List FecSourcePacket

def maxFecSourcePayloadLen (mtu : Option Nat) (groupSize : Nat) : Option Nat :=
  mtu.map fun mtu => mtu - (fecFramePayloadOverheadWithoutLengths + groupSize * 2)

def fecPayloadFits (payloadLen groupSize : Nat) (mtu : Option Nat) : Bool :=
  (maxFecSourcePayloadLen mtu groupSize).all fun maxLen => payloadLen ≤ maxLen

namespace FecEncoder

def new (disabled : Bool) (groupSize : Nat) (mtu : Option Nat) : Except String FecEncoder :=
  if disabled then .ok ⟨.disabled, mtu, []⟩
  else if zero : groupSize = 0 then .ok ⟨.adaptive, mtu, []⟩
  else if one : groupSize = 1 then
    .error "--fec-group-packets must be 0 for adaptive or at least 2"
  else if large : maxFecGroupPackets < groupSize then
    .error s!"--fec-group-packets must be <= {maxFecGroupPackets}"
  else .ok ⟨.fixed groupSize (by omega), mtu, []⟩

def clear (encoder : FecEncoder) : FecEncoder := { encoder with packets := [] }

/-- The frame of a group, with the parity over the longest payload. -/
def frame (packets : List FecSourcePacket) (maxLen : Nat) : FecFrame where
  baseSequence := (packets.head?.map FecSourcePacket.sequence).getD 0
  payloadLengths := packets.map fun packet => packet.payload.length
  parity := packets.foldl (fun parity packet => Parity.overlay parity packet.payload)
    (List.replicate maxLen 0)

def flush (encoder : FecEncoder) : Option (List Bytes × FecEncoder) :=
  if encoder.packets.isEmpty then some ([], encoder)
  else
    let maxLen := (encoder.packets.map fun packet => packet.payload.length).max?.getD 0
    if maxLen = 0 then some ([], encoder.clear)
    else (encodeFecFrame (frame encoder.packets maxLen)).map fun bytes => ([bytes], encoder.clear)

def flushOrClear (encoder : FecEncoder) : Option (List Bytes × FecEncoder) :=
  if 2 ≤ encoder.packets.length then encoder.flush else some ([], encoder.clear)

/-- The push at the end of `record`, and the flush of a full group. -/
def push (groupSize sequence : Nat) (payload : Bytes) (encoder : FecEncoder) :
    Option (List Bytes × FecEncoder) :=
  let pushed := { encoder with packets := encoder.packets ++ [⟨sequence, payload⟩] }
  if groupSize ≤ pushed.packets.length then pushed.flush else some ([], pushed)

variable {Rate Weight : Type} [Measure Rate]

def targetGroupSize (strategy : StrategyState Rate Weight) (now : Nat) (encoder : FecEncoder) :
    Option Nat :=
  match encoder.mode with
  | .disabled => none
  | .adaptive => some (strategy.adaptiveFecGroupPackets now)
  | .fixed groupSize _ => some groupSize

def record (strategy : StrategyState Rate Weight) (now : Nat) (sequence : Nat) (payload : Bytes)
    (encoder : FecEncoder) : Option (List Bytes × FecEncoder) :=
  match encoder.targetGroupSize strategy now with
  | none => some ([], encoder)
  | some groupSize =>
      if 2 ^ 16 ≤ payload.length then encoder.flushOrClear
      else if !fecPayloadFits payload.length groupSize encoder.mtu then encoder.flushOrClear
      else if encoder.packets.getLast?.any fun last => nextSequence last.sequence ≠ sequence then
        encoder.flushOrClear.bind fun (cut, cleared) =>
          (cleared.push groupSize sequence payload).map fun (full, pushed) => (cut ++ full, pushed)
      else encoder.push groupSize sequence payload

end FecEncoder

/-! ## Groups -/

/-- The packets follow each other and can be members of a frame. -/
structure FecGroup (packets : List FecSourcePacket) : Prop where
  consecutive : packets.IsChain fun earlier later =>
    later.sequence = nextSequence earlier.sequence
  media : ∀ packet ∈ packets, packet.sequence ≤ maxMediaSequence
  short : ∀ packet ∈ packets, packet.payload.length < 2 ^ 16

/-- A group that makes up a whole frame. -/
structure FullFecGroup (packets : List FecSourcePacket) : Prop extends FecGroup packets where
  several : 2 ≤ packets.length
  few : packets.length ≤ maxFecGroupPackets

/-- The frame of a group. -/
def groupFrame (packets : List FecSourcePacket) : FecFrame where
  baseSequence := (packets.head?.map FecSourcePacket.sequence).getD 0
  payloadLengths := packets.map fun packet => packet.payload.length
  parity := Parity.parityOf (packets.map FecSourcePacket.payload)

/-- The datagram of a group's frame. -/
def groupDatagram (packets : List FecSourcePacket) : Bytes :=
  packetBytes fecHeader (fecFramePayload (groupFrame packets))

namespace FecGroup

variable {packets : List FecSourcePacket}

theorem nil : FecGroup [] := ⟨.nil, nofun, nofun⟩

theorem append_singleton (group : FecGroup packets) {sequence : Nat} {payload : Bytes}
    (follows : ∀ last ∈ packets.getLast?, sequence = nextSequence last.sequence)
    (media : sequence ≤ maxMediaSequence) (short : payload.length < 2 ^ 16) :
    FecGroup (packets ++ [⟨sequence, payload⟩]) := by
  constructor
  · rw [List.isChain_append]
    refine ⟨group.consecutive, List.isChain_singleton _, ?_⟩
    intro last isLast packet isFirst
    cases isFirst
    exact follows last isLast
  · intro packet member
    rw [List.mem_append, List.mem_singleton] at member
    cases member with
    | inl member => exact group.media packet member
    | inr equal => exact equal ▸ media
  · intro packet member
    rw [List.mem_append, List.mem_singleton] at member
    cases member with
    | inl member => exact group.short packet member
    | inr equal => exact equal ▸ short

end FecGroup

theorem max?_getD_eq_longest (words : List Bytes) :
    (words.map List.length).max?.getD 0 = Parity.longest words := by
  induction words with
  | nil => rfl
  | cons word rest induction =>
      change _ = max word.length (Parity.longest rest)
      rw [← induction, List.map_cons, List.max?_cons, Option.getD_some]
      cases (rest.map List.length).max? with
      | none => exact (Nat.max_zero _).symm
      | some longest => rfl

/-- The parity that `flush` computes is the parity of the group. -/
theorem frame_eq_groupFrame (packets : List FecSourcePacket) :
    FecEncoder.frame packets ((packets.map fun packet => packet.payload.length).max?.getD 0) =
      groupFrame packets := by
  have longest : (packets.map fun packet => packet.payload.length).max?.getD 0 =
      Parity.longest (packets.map FecSourcePacket.payload) := by
    rw [← max?_getD_eq_longest, List.map_map]
    rfl
  rw [FecEncoder.frame, groupFrame, longest, Parity.parityOf, List.foldl_map]
  rfl

theorem FullFecGroup.frame_valid {packets : List FecSourcePacket}
    (full : FullFecGroup packets) : (groupFrame packets).Valid := by
  refine ⟨?_, ⟨?_, ?_⟩, ?_⟩
  · cases packets with
    | nil => exact Nat.zero_le _
    | cons first rest => exact full.media first List.mem_cons_self
  · have several := full.several
    simp only [groupFrame, List.length_map]
    omega
  · have few := full.few
    simp only [groupFrame, List.length_map]
    exact few
  · intro length member
    rcases List.mem_map.mp member with ⟨packet, isMember, rfl⟩
    constructor
    · exact full.short packet isMember
    · rw [groupFrame, Parity.length_parityOf]
      exact Parity.length_le_longest (List.mem_map_of_mem isMember)

/-- The members of a group are numbered from the base sequence on. -/
theorem FecGroup.sequence_of_member {group : List FecSourcePacket} (consecutive : FecGroup group)
    {index : Nat} {packet : FecSourcePacket} (present : group[index]? = some packet) :
    packet.sequence = sequenceAfter (groupFrame group).baseSequence index := by
  induction index generalizing packet with
  | zero =>
      cases group with
      | nil => cases present
      | cons first rest =>
          cases present
          rfl
  | succ index induction =>
      rcases List.getElem?_eq_some_iff.mp present with ⟨bound, rfl⟩
      have step := (List.isChain_iff_getElem.mp consecutive.consecutive) index bound
      rw [sequenceAfter_succ, ← induction (List.getElem?_eq_getElem (by omega))]
      exact step

/-- Every encoded frame is the frame of consecutive packets of the list. -/
def Emits (packets : List FecSourcePacket) (emitted : List Bytes) : Prop :=
  ∀ datagram ∈ emitted, ∃ group, group <:+: packets ∧ FullFecGroup group ∧
    datagram = groupDatagram group

theorem Emits.nil (packets : List FecSourcePacket) : Emits packets [] := nofun

theorem Emits.append {packets : List FecSourcePacket} {first second : List Bytes}
    (firstEmits : Emits packets first) (secondEmits : Emits packets second) :
    Emits packets (first ++ second) := by
  intro datagram member
  cases List.mem_append.mp member with
  | inl member => exact firstEmits datagram member
  | inr member => exact secondEmits datagram member

theorem Emits.of_infix {packets others : List FecSourcePacket} {emitted : List Bytes}
    (emits : Emits packets emitted) (inside : packets <:+: others) : Emits others emitted := by
  intro datagram member
  rcases emits datagram member with ⟨group, part, full, same⟩
  exact ⟨group, part.trans inside, full, same⟩

namespace FecEncoder

/-- What the encoder has gathered between two calls of `record`. -/
structure Gathering (encoder : FecEncoder) : Prop where
  group : FecGroup encoder.packets
  few : encoder.packets.length < maxFecGroupPackets
  idle : encoder.mode = .disabled → encoder.packets = []

variable {encoder : FecEncoder}

theorem Gathering.clear (encoder : FecEncoder) : Gathering encoder.clear where
  group := .nil
  few := Nat.zero_lt_succ 31
  idle _ := rfl

theorem flush_spec (full : FullFecGroup encoder.packets) :
    ∃ emitted, encoder.flush = some (emitted, encoder.clear) ∧
      Emits encoder.packets emitted := by
  have several := full.several
  have nonempty : encoder.packets.isEmpty = false := by
    cases gathered : encoder.packets with
    | nil =>
        rw [gathered] at several
        cases several
    | cons first rest => rfl
  rw [flush, nonempty, if_neg Bool.false_ne_true]
  dsimp only
  rw [frame_eq_groupFrame, encodeFecFrame_of_valid full.frame_valid]
  split
  · exact ⟨[], rfl, .nil _⟩
  · refine ⟨[groupDatagram encoder.packets], rfl, ?_⟩
    intro datagram member
    rw [List.mem_singleton.mp member]
    exact ⟨encoder.packets, List.infix_rfl, full, rfl⟩

theorem flushOrClear_spec (gathering : encoder.Gathering) :
    ∃ emitted, encoder.flushOrClear = some (emitted, encoder.clear) ∧
      Emits encoder.packets emitted := by
  rw [flushOrClear]
  by_cases several : 2 ≤ encoder.packets.length
  · rw [if_pos several]
    exact flush_spec ⟨gathering.group, several, Nat.le_of_lt gathering.few⟩
  · rw [if_neg several]
    exact ⟨[], rfl, .nil _⟩

/-- A group size that an encoder may use. -/
def GroupSize (groupSize : Nat) : Prop := 2 ≤ groupSize ∧ groupSize ≤ maxFecGroupPackets

theorem push_spec (gathering : encoder.Gathering) (enabled : encoder.mode ≠ .disabled)
    {groupSize sequence : Nat} {payload : Bytes} (allowed : GroupSize groupSize)
    (follows : ∀ last ∈ encoder.packets.getLast?, sequence = nextSequence last.sequence)
    (media : sequence ≤ maxMediaSequence) (short : payload.length < 2 ^ 16) :
    ∃ emitted next, encoder.push groupSize sequence payload = some (emitted, next) ∧
      next.Gathering ∧ next.packets <:+ encoder.packets ++ [⟨sequence, payload⟩] ∧
      Emits (encoder.packets ++ [⟨sequence, payload⟩]) emitted := by
  have group := gathering.group.append_singleton follows media short
  have few := gathering.few
  rw [push]
  dsimp only
  by_cases reached : groupSize ≤
      (encoder.packets ++ [(⟨sequence, payload⟩ : FecSourcePacket)]).length
  · rw [if_pos reached]
    have several := Nat.le_trans allowed.1 reached
    have full : FullFecGroup (encoder.packets ++ [⟨sequence, payload⟩]) := by
      refine ⟨group, several, ?_⟩
      rw [List.length_append, List.length_singleton]
      exact few
    rcases @flush_spec { encoder with packets := encoder.packets ++ [⟨sequence, payload⟩] } full
      with ⟨emitted, flushed, emits⟩
    exact ⟨emitted, _, flushed, Gathering.clear _, List.nil_suffix, emits⟩
  · rw [if_neg reached]
    have below := Nat.lt_of_lt_of_le (Nat.lt_of_not_le reached) allowed.2
    have gathered : Gathering
        { encoder with packets := encoder.packets ++ [⟨sequence, payload⟩] } :=
      ⟨group, below, fun disabled => absurd disabled enabled⟩
    exact ⟨[], _, rfl, gathered, List.suffix_rfl, .nil _⟩

variable {Rate Weight : Type} [Measure Rate]

theorem targetGroupSize_allowed {strategy : StrategyState Rate Weight} {now groupSize : Nat}
    (target : encoder.targetGroupSize strategy now = some groupSize) : GroupSize groupSize := by
  rw [targetGroupSize] at target
  split at target
  · cases target
  · cases target
    have size := adaptiveFecGroupPacketsForHealth_cases
      (strategy.healthByInterface.values.filter (·.isFresh now))
    have allowed : ∀ size ∈ [adaptiveFecBadGroupPackets, adaptiveFecDegradedGroupPackets,
        adaptiveFecGoodGroupPackets], GroupSize size := by
      simp only [GroupSize]
      decide
    exact allowed _ size
  · rename_i accepted _
    cases target
    exact accepted

/-- `record` keeps the last packets that it was given, and its frames are over
consecutive ones of them. -/
theorem record_spec (gathering : encoder.Gathering) (strategy : StrategyState Rate Weight)
    (now : Nat) {sequence : Nat} (payload : Bytes) (media : sequence ≤ maxMediaSequence) :
    ∃ emitted next, encoder.record strategy now sequence payload = some (emitted, next) ∧
      next.Gathering ∧ next.packets <:+ encoder.packets ++ [⟨sequence, payload⟩] ∧
      Emits (encoder.packets ++ [⟨sequence, payload⟩]) emitted := by
  have earlier : encoder.packets <:+: encoder.packets ++ [⟨sequence, payload⟩] :=
    (List.prefix_append _ _).isInfix
  rcases flushOrClear_spec gathering with ⟨cut, flushed, cutEmits⟩
  rw [record]
  cases target : encoder.targetGroupSize strategy now with
  | none =>
      have disabled : encoder.mode = .disabled := by
        rw [targetGroupSize] at target
        split at target
        · assumption
        · cases target
        · cases target
      refine ⟨[], encoder, rfl, gathering, ?_, .nil _⟩
      rw [gathering.idle disabled]
      exact List.nil_suffix
  | some groupSize =>
      have allowed := targetGroupSize_allowed target
      have enabled : encoder.mode ≠ .disabled := by
        intro disabled
        rw [targetGroupSize, disabled] at target
        cases target
      have dropped : ∃ emitted next, encoder.flushOrClear = some (emitted, next) ∧
          next.Gathering ∧ next.packets <:+ encoder.packets ++ [⟨sequence, payload⟩] ∧
          Emits (encoder.packets ++ [⟨sequence, payload⟩]) emitted :=
        ⟨cut, _, flushed, .clear encoder, List.nil_suffix, cutEmits.of_infix earlier⟩
      dsimp only
      split
      · exact dropped
      · rename_i short
        split
        · exact dropped
        · split
          · -- The new packet starts a group of its own.
            rcases push_spec (.clear encoder) enabled allowed (by nofun) media
              (Nat.lt_of_not_le short) with ⟨full, next, pushed, nextGathering, kept, fullEmits⟩
            have last : encoder.clear.packets ++ [⟨sequence, payload⟩] <:+
                encoder.packets ++ [⟨sequence, payload⟩] := List.suffix_append _ _
            refine ⟨cut ++ full, next, ?_, nextGathering, kept.trans last,
              (cutEmits.of_infix earlier).append (fullEmits.of_infix last.isInfix)⟩
            rw [flushed, Option.bind_some, pushed, Option.map_some]
          · rename_i together
            apply push_spec gathering enabled allowed _ media (Nat.lt_of_not_le short)
            intro last isLast
            by_contra different
            apply together
            rw [Option.any_eq_true]
            exact ⟨last, isLast, decide_eq_true (Ne.symm different)⟩

/-! ## Sequences of calls -/

theorem new_gathering {disabled : Bool} {groupSize : Nat} {mtu : Option Nat}
    (created : new disabled groupSize mtu = .ok encoder) :
    encoder.Gathering ∧ encoder.packets = [] := by
  have empty : encoder.packets = [] := by
    rw [new] at created
    split at created
    · cases created
      rfl
    · split at created
      · cases created
        rfl
      · split at created
        · cases created
        · split at created
          · cases created
          · cases created
            rfl
  constructor
  · constructor
    · rw [empty]
      exact .nil
    · rw [empty]
      exact Nat.zero_lt_succ 31
    · exact fun _ => empty
  · exact empty

/-- One call of `record`, with the strategy state that it reads. -/
structure RecordCall (Rate Weight : Type) where
  strategy : StrategyState Rate Weight
  now : Nat
  packet : FecSourcePacket

/-- The frames so far and the encoder, after one more call. -/
def recordNext (progress : List Bytes × FecEncoder) (call : RecordCall Rate Weight) :
    Option (List Bytes × FecEncoder) :=
  (progress.2.record call.strategy call.now call.packet.sequence call.packet.payload).map
    fun (more, next) => (progress.1 ++ more, next)

def recordAll (encoder : FecEncoder) (calls : List (RecordCall Rate Weight)) :
    Option (List Bytes × FecEncoder) :=
  calls.foldlM recordNext ([], encoder)

/-- The encoder always holds the last packets of the calls so far. -/
theorem foldlM_recordNext {history : List FecSourcePacket} {emitted : List Bytes}
    (gathering : encoder.Gathering) (held : encoder.packets <:+ history)
    (emits : Emits history emitted) {calls : List (RecordCall Rate Weight)}
    (media : ∀ call ∈ calls, call.packet.sequence ≤ maxMediaSequence) :
    ∃ all final, calls.foldlM recordNext (emitted, encoder) = some (all, final) ∧
      Emits (history ++ calls.map RecordCall.packet) all := by
  induction calls generalizing history emitted encoder with
  | nil =>
      refine ⟨emitted, encoder, rfl, ?_⟩
      rw [List.map_nil, List.append_nil]
      exact emits
  | cons call rest induction =>
      rcases record_spec gathering call.strategy call.now call.packet.payload
        (media call List.mem_cons_self) with
        ⟨more, next, recorded, nextGathering, kept, moreEmits⟩
      have longer : encoder.packets ++ [call.packet] <:+ history ++ [call.packet] := by
        rcases held with ⟨before, rfl⟩
        exact ⟨before, (List.append_assoc _ _ _).symm⟩
      have before : history <:+: history ++ [call.packet] := (List.prefix_append _ _).isInfix
      rcases induction nextGathering (kept.trans longer)
        ((emits.of_infix before).append (moreEmits.of_infix longer.isInfix))
        (fun other member => media other (List.mem_cons_of_mem _ member)) with
        ⟨all, final, finished, allEmits⟩
      refine ⟨all, final, ?_, ?_⟩
      · rw [List.foldlM_cons, recordNext, recorded]
        exact finished
      · rw [List.append_assoc] at allEmits
        exact allEmits

/-- Every frame is over consecutive packets among those that were recorded. -/
theorem recordAll_emits (gathering : encoder.Gathering) (fresh : encoder.packets = [])
    {calls : List (RecordCall Rate Weight)}
    (media : ∀ call ∈ calls, call.packet.sequence ≤ maxMediaSequence) :
    ∃ emitted final, encoder.recordAll calls = some (emitted, final) ∧
      Emits (calls.map RecordCall.packet) emitted := by
  have started : encoder.packets <:+ [] := by rw [fresh]
  exact foldlM_recordNext gathering started (.nil _) media

end FecEncoder

end Irohsion.Client
