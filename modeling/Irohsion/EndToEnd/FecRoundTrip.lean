import Irohsion.Client.FecEncoder
import Irohsion.Server.FecRecovery

/-! # FEC from end to end

A parity frame that the client emits is decoded by the server, and gives back
any one of its packets once the server knows all others.
-/

namespace Irohsion.EndToEnd

open Protocol Client Server

/-- What the server knows under the members' sequences. -/
theorem known_of_members {known : Nat → Option Bytes} {base index : Nat}
    {members : List FecSourcePacket}
    (all : ∀ offset packet, members[offset]? = some packet →
      known (sequenceAfter base (index + offset)) = some packet.payload) :
    FecState.Known known base index (members.map fun packet => packet.payload.length)
      (members.map FecSourcePacket.payload) := by
  induction members generalizing index with
  | nil => trivial
  | cons first rest induction =>
      refine ⟨all 0 first rfl, rfl, induction ?_⟩
      intro offset packet present
      rw [Nat.add_assoc, Nat.add_comm 1]
      exact all (offset + 1) packet present

theorem exists_split_at {group : List FecSourcePacket} {index : Nat} {packet : FecSourcePacket}
    (present : group[index]? = some packet) :
    ∃ front back, group = front ++ packet :: back ∧ front.length = index := by
  rcases List.getElem?_eq_some_iff.mp present with ⟨bound, rfl⟩
  refine ⟨group.take index, group.drop (index + 1), ?_, ?_⟩
  · rw [← List.drop_eq_getElem_cons bound, List.take_append_drop]
  · exact List.length_take_of_le (Nat.le_of_lt bound)

/-- With all other members known, the scan of a group's frame leaves the
missing payload, padded to the length of the parity. -/
theorem scanFrame_groupFrame {known : Nat → Option Bytes} {group : List FecSourcePacket}
    (full : FullFecGroup group) {index : Nat} {packet : FecSourcePacket}
    (present : group[index]? = some packet)
    (unknown : known (sequenceAfter (groupFrame group).baseSequence index) = none)
    (others : ∀ other otherPacket, group[other]? = some otherPacket → other ≠ index →
      known (sequenceAfter (groupFrame group).baseSequence other) = some otherPacket.payload) :
    ∃ parity, FecState.scanFrame known (groupFrame group).baseSequence 0
        (groupFrame group).payloadLengths (groupFrame group).parity none =
        .scanned parity (some (sequenceAfter (groupFrame group).baseSequence index,
          packet.payload.length)) ∧
      parity.take packet.payload.length = packet.payload := by
  have fits := full.frame_valid.2.2
  rcases exists_split_at present with ⟨front, back, rfl, rfl⟩
  have lengths : (groupFrame (front ++ packet :: back)).payloadLengths =
      (front.map fun packet => packet.payload.length) ++
        packet.payload.length :: back.map fun packet => packet.payload.length := by
    simp [groupFrame]
  have parity : (groupFrame (front ++ packet :: back)).parity =
      Parity.parityOf (front.map FecSourcePacket.payload ++
        packet.payload :: back.map FecSourcePacket.payload) := by
    simp [groupFrame]
  have before : FecState.Known known (groupFrame (front ++ packet :: back)).baseSequence 0
      (front.map fun packet => packet.payload.length) (front.map FecSourcePacket.payload) := by
    apply known_of_members
    intro offset other found
    rw [Nat.zero_add]
    have bound := (List.getElem?_eq_some_iff.mp found).1
    apply others offset other _ (Nat.ne_of_lt bound)
    rw [List.getElem?_append_left bound, found]
  have after : FecState.Known known (groupFrame (front ++ packet :: back)).baseSequence
      (front.length + 1) (back.map fun packet => packet.payload.length)
      (back.map FecSourcePacket.payload) := by
    apply known_of_members
    intro offset other found
    apply others _ other _ (by omega)
    rw [List.getElem?_append_right (by omega),
      show front.length + 1 + offset - front.length = offset + 1 by omega]
    exact found
  rw [lengths] at fits ⊢
  rw [← List.length_map fun packet : FecSourcePacket => packet.payload.length] at unknown after ⊢
  refine ⟨_, FecState.scanFrame_of_one_unknown before unknown after
    (fun length member => (fits length member).2), ?_⟩
  rw [parity]
  exact Parity.take_foldl_overlay_parityOf _ _ _

/-- Whatever packets are recorded, every emitted frame is decoded, and a server
that has stored it and knows all members but one recovers that one. -/
theorem recover_missing_member {Rate Weight : Type} [Measure Rate] {disabled : Bool}
    {groupSize : Nat} {mtu : Option Nat} {encoder : FecEncoder}
    (created : FecEncoder.new disabled groupSize mtu = .ok encoder)
    {calls : List (FecEncoder.RecordCall Rate Weight)}
    (media : ∀ call ∈ calls, call.packet.sequence ≤ maxMediaSequence) :
    ∃ emitted final, encoder.recordAll calls = some (emitted, final) ∧
      ∀ datagram ∈ emitted, ∃ group frame,
        group <:+: calls.map FecEncoder.RecordCall.packet ∧ FullFecGroup group ∧
        decodeFecFrame datagram = .ok frame ∧ frame.payloadLengths.length = group.length ∧
        ∀ index packet, group[index]? = some packet →
          packet.sequence = sequenceAfter frame.baseSequence index ∧
          ∀ (fecState : FecState) (nextSeq : Nat) (buffered : Buffered),
            fecState.frames[frame.baseSequence]? = some frame →
            nextSeq ≤ packet.sequence →
            fecState.payloadFor buffered packet.sequence = none →
            (∀ other otherPacket, group[other]? = some otherPacket → other ≠ index →
              fecState.payloadFor buffered (sequenceAfter frame.baseSequence other) =
                some otherPacket.payload) →
            (packet.sequence, packet.payload) ∈ (fecState.recoverReady nextSeq buffered).2 := by
  rcases FecEncoder.new_gathering created with ⟨gathering, fresh⟩
  rcases FecEncoder.recordAll_emits gathering fresh media with ⟨emitted, final, finished, emits⟩
  refine ⟨emitted, final, finished, ?_⟩
  intro datagram member
  rcases emits datagram member with ⟨group, part, full, rfl⟩
  refine ⟨group, groupFrame group, part, full, decodeFecFrame_packetBytes full.frame_valid,
    List.length_map _, ?_⟩
  intro index packet present
  have position := FecGroup.sequence_of_member full.toFecGroup present
  refine ⟨position, ?_⟩
  intro fecState nextSeq buffered stored ahead unknown others
  rw [position] at unknown
  rcases scanFrame_groupFrame full present unknown others with ⟨parity, scan, payload⟩
  apply FecState.mem_recoverReady.mpr
  rw [position] at ahead ⊢
  exact ⟨_, _, parity, packet.payload.length, stored, scan, ahead, payload.symm⟩

/-- Nothing is known yet about any path. -/
def idleStrategy : StrategyState Float32 Float where
  mode := .auto
  strategy := .split
  weightedAutoSplit := true
  roundRobinCursor := 0
  splitPercentages := ∅
  healthByInterface := ∅
  interfaceFailures := ∅

/-- Two packets on both sides of the wrap. -/
def wrappingCalls : List (FecEncoder.RecordCall Float32 Float) :=
  [⟨idleStrategy, 0, ⟨maxMediaSequence, [1]⟩⟩, ⟨idleStrategy, 0, ⟨0, [4, 5]⟩⟩]

def wrappingFrame : FecFrame := ⟨maxMediaSequence, [1, 2], [5, 5]⟩

theorem recover_missing_member_wrapping :
    ∃ encoder final, FecEncoder.new false 2 none = .ok encoder ∧
      encoder.recordAll wrappingCalls =
        some ([packetBytes fecHeader (fecFramePayload wrappingFrame)], final) ∧
      (0, [4, 5]) ∈ (FecState.recoverReady
        ⟨(∅ : Std.ExtTreeMap Nat FecFrame).insert maxMediaSequence wrappingFrame, [],
          (∅ : Std.ExtTreeMap Nat Bytes).insert maxMediaSequence [1], []⟩ 0 ∅).2 := by
  have created : FecEncoder.new false 2 none = .ok ⟨.fixed 2 (by decide), none, []⟩ := rfl
  rcases recover_missing_member created
    (show ∀ call ∈ wrappingCalls, call.packet.sequence ≤ maxMediaSequence by decide) with
    ⟨emitted, final, recorded, recovers⟩
  have frames : (FecEncoder.recordAll ⟨.fixed 2 (by decide), none, []⟩ wrappingCalls).map
      Prod.fst = some [packetBytes fecHeader (fecFramePayload wrappingFrame)] := by decide
  rw [recorded] at frames
  cases frames
  refine ⟨_, final, created, recorded, ?_⟩
  rcases recovers _ List.mem_cons_self with ⟨group, frame, part, full, decoded, _, members⟩
  have valid : wrappingFrame.Valid := by decide
  cases (decodeFecFrame_packetBytes valid).symm.trans decoded
  have whole : group = [⟨maxMediaSequence, [1]⟩, ⟨0, [4, 5]⟩] :=
    part.eq_of_length_le full.several
  subst whole
  apply (members 1 ⟨0, [4, 5]⟩ rfl).2
  · exact Std.ExtTreeMap.getElem?_insert_self
  · exact Nat.zero_le _
  · simp [FecState.payloadFor, maxMediaSequence, fecSequence, maxSequence]
  · intro other otherPacket present different
    cases other with
    | zero =>
        cases present
        simp [FecState.payloadFor, sequenceAfter, wrappingFrame]
    | succ other =>
        cases other with
        | zero => exact absurd rfl different
        | succ other => cases present

end Irohsion.EndToEnd
