import Irohsion.Client.SilentDrops
import Irohsion.Server.FragmentAssembly

/-! # Split and reassembly

The parts that the client cuts along split ranges, sent as packets, fill an
assembly of the server in any order and with any repetitions.
-/

namespace Irohsion.EndToEnd

open Protocol Client Server

/-- A datagram is decoded and its payload is put in the slot of its fragment. -/
def receiveFragment (assembly : FragmentAssembly) (datagram : Bytes) :
    Option FragmentAssembly :=
  match decodePacket datagram with
  | .error _ => none
  | .ok ⟨header, payload⟩ => (assembly.insert header.fragment payload).map Prod.fst

/-! ## One assembly -/

/-- The assembly holds exactly the parts that have arrived. -/
structure Assembled (parts : List Bytes) (arrived : List Nat) (assembly : FragmentAssembly) :
    Prop where
  holds : assembly.Holds parts
  filled_iff : ∀ index, (∃ part, assembly.fragments[index]? = some (some part)) ↔
    index ∈ arrived

namespace Assembled

variable {parts : List Bytes} {arrived : List Nat} {assembly : FragmentAssembly}

theorem new (parts : List Bytes) (firstSeen : Instant) :
    Assembled parts [] (.new parts.length firstSeen) where
  holds := FragmentAssembly.holds_new parts firstSeen
  filled_iff index := by simp [List.getElem?_replicate]

/-- A part fills its slot, unless it has arrived before. -/
theorem insert (assembled : Assembled parts arrived assembly) {index : Nat} {part : Bytes}
    (present : parts[index]? = some part) :
    ∃ next inserted, assembly.insert index part = some (next, inserted) ∧
      Assembled parts (arrived ++ [index]) next := by
  have inBounds : index < assembly.fragments.length := by
    rw [assembled.holds.1]
    exact (List.getElem?_eq_some_iff.mp present).1
  cases slot : assembly.fragments[index] with
  | some earlier =>
      have filled : assembly.fragments[index]? = some (some earlier) := by
        rw [List.getElem?_eq_getElem inBounds, slot]
      have before := (assembled.filled_iff index).mp ⟨earlier, filled⟩
      refine ⟨assembly, false, FragmentAssembly.insert_of_filled filled part,
        assembled.holds, ?_⟩
      intro other
      rw [assembled.filled_iff, List.mem_append, List.mem_singleton]
      constructor
      · exact Or.inl
      · intro either
        cases either with
        | inl member => exact member
        | inr equal => exact equal ▸ before
  | none =>
      have vacant : assembly.fragments[index]? = some none := by
        rw [List.getElem?_eq_getElem inBounds, slot]
      refine ⟨_, true, FragmentAssembly.insert_of_vacant vacant,
        assembled.holds.fill present vacant, ?_⟩
      intro other
      rw [List.mem_append, List.mem_singleton, ← assembled.filled_iff]
      simp only [FragmentAssembly.fill]
      by_cases same : index = other
      · subst same
        rw [List.getElem?_set_self inBounds]
        simp
      · rw [List.getElem?_set_ne same]
        simp [Ne.symm same]

/-- An assembly is complete when every part has arrived. -/
theorem isComplete_iff (assembled : Assembled parts arrived assembly) :
    assembly.isComplete = true ↔ ∀ index < parts.length, index ∈ arrived := by
  rw [FragmentAssembly.isComplete_iff, ← assembled.holds.1]
  constructor
  · intro filled index inBounds
    apply (assembled.filled_iff index).mp
    have some := filled _ (List.getElem_mem inBounds)
    rcases Option.isSome_iff_exists.mp some with ⟨part, slot⟩
    exact ⟨part, by rw [List.getElem?_eq_getElem inBounds, slot]⟩
  · intro all slot member
    rcases List.getElem_of_mem member with ⟨index, inBounds, rfl⟩
    rcases (assembled.filled_iff index).mpr (all index inBounds) with ⟨part, found⟩
    rw [List.getElem?_eq_getElem inBounds] at found
    rw [Option.some.inj found, Option.isSome_some]

end Assembled

/-! ## Packets of the parts -/

/-- Every part is encoded under its index. -/
def encodeParts (sequence : Nat) (parts : List Bytes) : Option (List Bytes) :=
  (parts.mapIdx fun index part => encodePacket ⟨sequence, index, parts.length⟩ part).mapM id

theorem encodeParts_eq {sequence : Nat} (inRange : sequence ≤ maxSequence)
    {parts : List Bytes} (few : parts.length ≤ maxFragments) :
    encodeParts sequence parts = some (partPackets sequence parts) := by
  have encoded : (parts.mapIdx fun index part =>
      encodePacket ⟨sequence, index, parts.length⟩ part) =
        (partPackets sequence parts).map some := by
    apply List.ext_getElem
    · simp [partPackets]
    · intro index bound _
      rw [List.length_mapIdx] at bound
      simp [partPackets, encodePacket_of_valid (fragment_valid inRange bound few)]
  rw [encodeParts, encoded, ListLoops.mapM_id_map_some]

theorem receiveFragment_decoded {parts : List Bytes} {arrived : List Nat}
    {assembly : FragmentAssembly} (assembled : Assembled parts arrived assembly)
    {sequence index : Nat} {part datagram : Bytes} (present : parts[index]? = some part)
    (decoded : decodePacket datagram = .ok ⟨⟨sequence, index, parts.length⟩, part⟩) :
    ∃ next, receiveFragment assembly datagram = some next ∧
      Assembled parts (arrived ++ [index]) next := by
  rcases assembled.insert present with ⟨next, inserted, outcome, nextAssembled⟩
  refine ⟨next, ?_, nextAssembled⟩
  rw [receiveFragment, decoded]
  show (assembly.insert index part).map Prod.fst = some next
  rw [outcome]
  rfl

/-- The parts that arrive, in any order and with any repetitions. -/
theorem foldlM_receiveFragment {parts : List Bytes} {arrived : List Nat}
    {assembly : FragmentAssembly} (assembled : Assembled parts arrived assembly)
    {sequence : Nat} (inRange : sequence ≤ maxSequence) (few : parts.length ≤ maxFragments)
    {arrivals : List Nat} (known : ∀ index ∈ arrivals, index < parts.length) :
    ∃ final, (arrivals.filterMap fun index => (partPackets sequence parts)[index]?).foldlM
        receiveFragment assembly = some final ∧
      Assembled parts (arrived ++ arrivals) final := by
  induction arrivals generalizing arrived assembly with
  | nil => exact ⟨assembly, rfl, by rw [List.append_nil]; exact assembled⟩
  | cons index rest induction =>
      have bound := known index List.mem_cons_self
      have present := List.getElem?_eq_getElem bound
      have packet : (partPackets sequence parts)[index]? =
          some (packetBytes ⟨sequence, index, parts.length⟩ parts[index]) := by
        rw [partPackets, List.getElem?_mapIdx, present]
        rfl
      rcases receiveFragment_decoded assembled present
        (decodePacket_packetBytes (fragment_valid inRange bound few) _) with
        ⟨next, received, nextAssembled⟩
      rcases induction nextAssembled fun other member => known other (List.mem_cons_of_mem _ member)
        with ⟨final, finished, finalAssembled⟩
      refine ⟨final, ?_, ?_⟩
      · rw [List.filterMap_cons_some packet, List.foldlM_cons, received]
        exact finished
      · rw [List.append_assoc] at finalAssembled
        exact finalAssembled

/-- A receiver that gets one packet for each part completes the assembly. -/
theorem assembles_of_reassembles {packets : List Bytes} {sequence : Nat} {payload : Bytes}
    (reassembles : Reassembles packets sequence payload) (firstSeen : Instant) :
    ∃ datagrams count assembly, datagrams ⊆ packets ∧
      datagrams.foldlM receiveFragment (.new count firstSeen) = some assembly ∧
      assembly.isComplete = true ∧ assembly.intoPayload = some payload := by
  rcases reassembles with ⟨parts, _, _, whole, decodes⟩
  have receive : ∀ count ≤ parts.length, ∃ datagrams assembly, datagrams ⊆ packets ∧
      datagrams.foldlM receiveFragment (.new parts.length firstSeen) = some assembly ∧
      Assembled parts (List.range count) assembly := by
    intro count
    induction count with
    | zero => exact fun _ => ⟨[], _, List.nil_subset _, rfl, .new parts firstSeen⟩
    | succ count induction =>
        intro bound
        rcases induction (Nat.le_of_succ_le bound) with
          ⟨datagrams, assembly, subset, received, assembled⟩
        have present := List.getElem?_eq_getElem bound
        rcases decodes count _ present with ⟨packet, member, decoded⟩
        rcases receiveFragment_decoded assembled present decoded with
          ⟨next, receivedNext, nextAssembled⟩
        refine ⟨datagrams ++ [packet], next, ?_, ?_, ?_⟩
        · exact List.append_subset.mpr
            ⟨subset, List.cons_subset.mpr ⟨member, List.nil_subset _⟩⟩
        · rw [List.foldlM_append, received]
          show [packet].foldlM receiveFragment assembly = some next
          rw [List.foldlM_cons, receivedNext]
          rfl
        · rw [List.range_succ]
          exact nextAssembled
  rcases receive parts.length (Nat.le_refl _) with
    ⟨datagrams, assembly, subset, received, assembled⟩
  have complete : assembly.isComplete = true :=
    assembled.isComplete_iff.mpr fun index bound => List.mem_range.mpr bound
  refine ⟨datagrams, _, assembly, subset, received, complete, ?_⟩
  rw [FragmentAssembly.intoPayload_of_holds assembled.holds complete, whole]

/-- What a sender delivers can be put together by the server, piece by piece. -/
theorem assembles_of_delivers {Rate Weight : Type} {config : SendConfig}
    {reads : Reads Rate Weight} {sequence : Nat} {payload : Bytes}
    {packets : List (PathConnection × Bytes)}
    (delivers : Delivers config reads sequence payload packets) (firstSeen : Instant)
    {piece : Nat × Bytes} (member : piece ∈ numbered sequence (datagramPieces config payload)) :
    ∃ datagrams count assembly, datagrams ⊆ packets.map Prod.snd ∧
      datagrams.foldlM receiveFragment (.new count firstSeen) = some assembly ∧
      assembly.isComplete = true ∧ assembly.intoPayload = some piece.2 :=
  assembles_of_reassembles (delivers.pieces piece member) firstSeen

/-- The parts of a valid split can be encoded, and all of them give the payload back. -/
theorem validSplit_reassembles {payload : Bytes} {pathCount : Nat} {mtu : Option Nat}
    {ranges : List SplitRange} (valid : ValidSplit payload.length pathCount mtu ranges)
    {sequence : Nat} (inRange : sequence ≤ maxSequence) (firstSeen : Instant) :
    ∃ datagrams, encodeParts sequence (splitParts payload ranges) = some datagrams ∧
      datagrams.length = ranges.length ∧
      ∀ arrivals : List Nat, (∀ index ∈ arrivals, index < ranges.length) →
        ∃ assembly, (arrivals.filterMap fun index => datagrams[index]?).foldlM
            receiveFragment (.new ranges.length firstSeen) = some assembly ∧
          (assembly.isComplete = true ↔ ∀ index < ranges.length, index ∈ arrivals) ∧
          (assembly.isComplete = true → assembly.intoPayload = some payload) := by
  have count : (splitParts payload ranges).length = ranges.length := List.length_map _
  have fewParts : (splitParts payload ranges).length ≤ maxFragments := by
    rw [count]
    exact valid.count
  refine ⟨_, encodeParts_eq inRange fewParts, ?_, ?_⟩
  · rw [partPackets, List.length_mapIdx, count]
  · intro arrivals known
    rw [← count] at known ⊢
    rcases foldlM_receiveFragment (.new _ firstSeen) inRange fewParts known with
      ⟨assembly, received, assembled⟩
    rw [List.nil_append] at assembled
    refine ⟨assembly, received, assembled.isComplete_iff, ?_⟩
    intro complete
    rw [FragmentAssembly.intoPayload_of_holds assembled.holds complete,
      flatten_splitParts valid.tiles]

/-- A payload is split exactly when it does not need too many chunks. Its parts
can be encoded, and once all of them have arrived they give it back. -/
theorem split_reassembles {W : Type u} [Zero W] [Add W] [WeightShare W] (payload : Bytes)
    {weights : List W} (nonempty : weights ≠ []) (few : weights.length ≤ maxFragments)
    {mtu : Option Nat} (positive : ∀ maxPayload, mtu = some maxPayload → 0 < maxPayload) :
    (packetSplitRanges payload.length weights mtu = none ↔ ∃ maxPayload,
      mtu = some maxPayload ∧ maxPayload < payload.length ∧
        maxFragments < (payload.length + maxPayload - 1) / maxPayload) ∧
    ∀ ranges, packetSplitRanges payload.length weights mtu = some ranges →
      ValidSplit payload.length weights.length mtu ranges ∧
      (∀ position, ranges.countP (fun range => range.span.Contains position) =
        if position < payload.length then 1 else 0) ∧
      ∀ sequence firstSeen, sequence ≤ maxSequence →
        ∃ datagrams, encodeParts sequence (splitParts payload ranges) = some datagrams ∧
          datagrams.length = ranges.length ∧
          ∀ arrivals : List Nat, (∀ index ∈ arrivals, index < ranges.length) →
            ∃ assembly, (arrivals.filterMap fun index => datagrams[index]?).foldlM
                receiveFragment (.new ranges.length firstSeen) = some assembly ∧
              (assembly.isComplete = true ↔ ∀ index < ranges.length, index ∈ arrivals) ∧
              (assembly.isComplete = true → assembly.intoPayload = some payload) := by
  refine ⟨packetSplitRanges_eq_none_iff payload.length nonempty few positive, ?_⟩
  intro ranges split
  have valid := validSplit_of_packetSplitRanges nonempty few positive split
  refine ⟨valid, ?_, ?_⟩
  · intro position
    have once := valid.tiles.countP_contains position
    rw [List.countP_map] at once
    simp only [Nat.zero_le, true_and] at once
    exact once
  · exact fun sequence firstSeen inRange => validSplit_reassembles valid inRange firstSeen

/-- Weights in whole percent, with shares rounded to the nearest byte. -/
instance percentWeightShare : WeightShare Nat where
  share packetLen accumulated := (packetLen * accumulated + 50) / 100

/-- Three bytes over two paths arrive in the other order, one part twice. -/
theorem split_reassembles_halves :
    packetSplitRanges 3 [50, 50] none = some [⟨0, ⟨0, 2⟩⟩, ⟨1, ⟨2, 3⟩⟩] ∧
      ∃ datagrams assembly,
        encodeParts 9 (splitParts [1, 2, 3] [⟨0, ⟨0, 2⟩⟩, ⟨1, ⟨2, 3⟩⟩]) = some datagrams ∧
        ([1, 1, 0].filterMap fun index => datagrams[index]?).foldlM receiveFragment
          (.new 2 0) = some assembly ∧
        assembly.isComplete = true ∧ assembly.intoPayload = some [1, 2, 3] := by
  have split : packetSplitRanges 3 [50, 50] none = some [⟨0, ⟨0, 2⟩⟩, ⟨1, ⟨2, 3⟩⟩] := by
    decide
  have reassembles := @split_reassembles Nat _ _ _ [1, 2, 3] [50, 50] (by decide) (by decide) none
    nofun
  rcases (reassembles.2 _ split).2.2 9 0 (by decide) with ⟨datagrams, encoded, _, arrive⟩
  rcases arrive [1, 1, 0] (by decide) with ⟨assembly, received, complete, gives⟩
  have isComplete := complete.mpr (by decide)
  exact ⟨split, datagrams, assembly, encoded, received, isComplete, gives isComplete⟩

end Irohsion.EndToEnd
