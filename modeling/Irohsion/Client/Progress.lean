import Irohsion.Client.Shipments

/-! # Progress of the send loop

A call may use several sequences, one for each chunk. What it adds is described
by the shipments that take them and by the packets that it sends.
-/

namespace Irohsion.Client

open Protocol

/-- Payloads under consecutive sequences. -/
def numbered : (sequence : Nat) → List Bytes → List (Nat × Bytes)
  | _, [] => []
  | sequence, payload :: rest => (sequence, payload) :: numbered (nextSequence sequence) rest

theorem numbered_append (sequence : Nat) (first second : List Bytes) :
    numbered sequence (first ++ second) =
      numbered sequence first ++ numbered (sequenceAfter sequence first.length) second := by
  induction first generalizing sequence with
  | nil => rfl
  | cons payload rest induction => exact congrArg (_ :: ·) (induction (nextSequence sequence))

theorem getElem?_numbered (sequence : Nat) (payloads : List Bytes) (index : Nat) :
    (numbered sequence payloads)[index]? =
      payloads[index]?.map (sequenceAfter sequence index, ·) := by
  induction payloads generalizing sequence index with
  | nil => rfl
  | cons payload rest induction =>
      cases index with
      | zero => rfl
      | succ index => exact induction (nextSequence sequence) index

/-- What is ingested for a shipment. -/
def Shipment.ingest (shipment : Shipment) : Nat × Bytes := (shipment.sequence, shipment.payload)

/-- A stretch of the loop in which new shipments take the next sequences. -/
structure Progress (shipments used : List Shipment) (packets : List (PathConnection × Bytes))
    (before after : ClientState) : Prop where
  faithful : Faithful (shipments ++ used) after
  sent : sentPackets after.trace = sentPackets before.trace ++ packets
  ingested : ingestedPayloads after.trace =
    ingestedPayloads before.trace ++ used.map Shipment.ingest
  numbered : used.map Shipment.ingest = numbered before.seq (used.map Shipment.payload)
  seq : after.seq = sequenceAfter before.seq used.length

variable {shipments first second : List Shipment} {before middle after state : ClientState}

theorem Progress.refl (faithful : Faithful shipments state) :
    Progress shipments [] [] state state where
  faithful := by
    rw [List.append_nil]
    exact faithful
  sent := (List.append_nil _).symm
  ingested := (List.append_nil _).symm
  numbered := rfl
  seq := rfl

theorem Progress.trans {firstPackets secondPackets : List (PathConnection × Bytes)}
    (earlier : Progress shipments first firstPackets before middle)
    (later : Progress (shipments ++ first) second secondPackets middle after) :
    Progress shipments (first ++ second) (firstPackets ++ secondPackets) before after where
  faithful := by
    rw [← List.append_assoc]
    exact later.faithful
  sent := by rw [later.sent, earlier.sent, List.append_assoc]
  ingested := by rw [later.ingested, earlier.ingested, List.append_assoc, List.map_append]
  numbered := by
    rw [List.map_append, earlier.numbered, later.numbered, List.map_append, numbered_append,
      List.length_map, earlier.seq]
  seq := by
    rw [later.seq, earlier.seq, List.length_append, sequenceAfter_add]

/-- A stretch that only repeats what has been shipped. -/
theorem Stretch.progress {packets : List (PathConnection × Bytes)}
    (stretch : Stretch shipments packets before after) :
    Progress shipments [] packets before after where
  faithful := by
    rw [List.append_nil]
    exact stretch.faithful
  sent := stretch.sent
  ingested := by
    rw [List.map_nil, List.append_nil]
    exact stretch.ingested
  numbered := rfl
  seq := stretch.seq

/-- A payload is ingested, and the stretch that follows belongs to its shipment. -/
theorem Stretch.progress_of_ingested {packets : List (PathConnection × Bytes)}
    {shipment : Shipment} (current : shipment.sequence = before.seq)
    (stretch : Stretch (shipments ++ [shipment]) packets
      (before.emit (.ingested before.seq shipment.payload)) after) :
    Progress shipments [shipment] packets before
      { after with seq := nextSequence before.seq } where
  faithful := ⟨stretch.faithful.gathering, stretch.faithful.gathered, stretch.faithful.held,
    stretch.faithful.effects⟩
  sent := by
    rw [stretch.sent, ClientState.emit, sentPackets_append]
    exact congrArg (· ++ packets) (List.append_nil _)
  ingested := by
    rw [stretch.ingested, ClientState.emit, ingestedPayloads_append, ← current]
    rfl
  numbered := by
    rw [← current]
    rfl
  seq := rfl

/-! ## What a receiver can put together -/

/-- All parts of some split of the payload decode from the packets. -/
def Reassembles (packets : List Bytes) (sequence : Nat) (payload : Bytes) : Prop :=
  ∃ parts : List Bytes, parts ≠ [] ∧ parts.length ≤ maxFragments ∧ parts.flatten = payload ∧
    ∀ index part, parts[index]? = some part → ∃ packet ∈ packets,
      decodePacket packet = .ok ⟨⟨sequence, index, parts.length⟩, part⟩

/-- The packets go to the paths, and every shipment can be put together. -/
def Handed (paths : List PathConnection) (used : List Shipment)
    (packets : List (PathConnection × Bytes)) : Prop :=
  (∀ sent ∈ packets, sent.1 ∈ paths) ∧
    ∀ shipment ∈ used, Reassembles (packets.map Prod.snd) shipment.sequence shipment.payload

theorem Reassembles.of_subset {packets others : List Bytes} {sequence : Nat} {payload : Bytes}
    (reassembles : Reassembles packets sequence payload) (subset : packets ⊆ others) :
    Reassembles others sequence payload := by
  rcases reassembles with ⟨parts, nonempty, few, whole, decodes⟩
  refine ⟨parts, nonempty, few, whole, ?_⟩
  intro index part present
  rcases decodes index part present with ⟨packet, member, decoded⟩
  exact ⟨packet, subset member, decoded⟩

theorem not_reassembles_nil (sequence : Nat) (payload : Bytes) :
    ¬ Reassembles [] sequence payload := by
  intro reassembles
  rcases reassembles with ⟨parts, nonempty, _, _, decodes⟩
  cases parts with
  | nil => exact nonempty rfl
  | cons part rest =>
      rcases decodes 0 part rfl with ⟨packet, member, _⟩
      cases member

theorem Reassembles.of_partPackets {packets : List Bytes} {sequence : Nat}
    (inRange : sequence ≤ maxSequence) {parts : List Bytes} (nonempty : parts ≠ [])
    (few : parts.length ≤ maxFragments) (subset : partPackets sequence parts ⊆ packets) :
    Reassembles packets sequence parts.flatten := by
  refine ⟨parts, nonempty, few, rfl, ?_⟩
  intro index part present
  have bound := (List.getElem?_eq_some_iff.mp present).1
  refine ⟨packetBytes ⟨sequence, index, parts.length⟩ part, subset ?_,
    decodePacket_packetBytes (fragment_valid inRange bound few) part⟩
  have found : (partPackets sequence parts)[index]? =
      some (packetBytes ⟨sequence, index, parts.length⟩ part) := by
    rw [partPackets, List.getElem?_mapIdx, present]
    rfl
  exact List.mem_of_getElem? found

/-- The parts of a shipment that is not empty suffice. -/
theorem Reassembles.of_shipment {packets : List Bytes} {shipment : Shipment}
    (nonempty : shipment.payload ≠ [])
    (subset : partPackets shipment.sequence shipment.parts ⊆ packets) :
    Reassembles packets shipment.sequence shipment.payload := by
  have someParts : shipment.parts ≠ [] := by
    intro noParts
    have whole := shipment.flatten_parts
    rw [noParts] at whole
    exact nonempty whole.symm
  rw [← shipment.flatten_parts]
  exact .of_partPackets (le_maxSequence shipment.media) someParts shipment.few subset

theorem Reassembles.of_whole {packets : List Bytes} {sequence : Nat}
    (inRange : sequence ≤ maxSequence) {payload : Bytes}
    (member : packetBytes ⟨sequence, 0, 1⟩ payload ∈ packets) :
    Reassembles packets sequence payload := by
  have flat : [payload].flatten = payload := by simp
  rw [← flat]
  apply Reassembles.of_partPackets inRange (List.cons_ne_nil payload []) one_le_maxFragments
  intro packet isPart
  rw [List.mem_singleton.mp isPart]
  exact member

theorem Handed.nil (paths : List PathConnection) : Handed paths [] [] := ⟨nofun, nofun⟩

theorem Handed.append {paths : List PathConnection}
    {firstPackets secondPackets : List (PathConnection × Bytes)}
    (earlier : Handed paths first firstPackets) (later : Handed paths second secondPackets) :
    Handed paths (first ++ second) (firstPackets ++ secondPackets) := by
  constructor
  · intro sent member
    cases List.mem_append.mp member with
    | inl member => exact earlier.1 sent member
    | inr member => exact later.1 sent member
  · intro shipment member
    rw [List.map_append]
    cases List.mem_append.mp member with
    | inl member =>
        exact (earlier.2 shipment member).of_subset (List.subset_append_left _ _)
    | inr member =>
        exact (later.2 shipment member).of_subset (List.subset_append_right _ _)

theorem Handed.of_paths_subset {paths others : List PathConnection} {used : List Shipment}
    {packets : List (PathConnection × Bytes)} (handed : Handed paths used packets)
    (subset : paths ⊆ others) : Handed others used packets :=
  ⟨fun sent member => subset (handed.1 sent member), handed.2⟩

/-- The whole payload goes to paths of the list, at least to one. -/
theorem Handed.whole {paths chosen : List PathConnection} (nonempty : chosen ≠ [])
    (subset : chosen ⊆ paths) {sequence : Nat} (payload : Bytes)
    (media : sequence ≤ maxMediaSequence) :
    Handed paths [.whole sequence payload media]
      (chosen.map (·, packetBytes ⟨sequence, 0, 1⟩ payload)) := by
  constructor
  · intro sent member
    rcases List.mem_map.mp member with ⟨path, isChosen, rfl⟩
    exact subset isChosen
  · intro shipment member
    rw [List.mem_singleton.mp member]
    apply Reassembles.of_whole (le_maxSequence media)
    cases chosen with
    | nil => exact absurd rfl nonempty
    | cons path rest => exact List.mem_cons_self

/-! ## Chunks -/

variable {Rate Weight : Type} [Measure Rate]

theorem singleFragmentPacket_eq {sequence : Nat} (media : sequence ≤ maxMediaSequence)
    (payload : Bytes) :
    singleFragmentPacket sequence payload = some (packetBytes ⟨sequence, 0, 1⟩ payload) :=
  encodePacket_of_valid
    (fragment_valid (le_maxSequence media) Nat.zero_lt_one one_le_maxFragments) payload

theorem sendChunk_progress (faithful : Faithful shipments state) (config : SendConfig)
    (reads : Reads Rate Weight) (index : Nat) (paths : List PathConnection) (chunk : Bytes)
    (media : state.seq ≤ maxMediaSequence) :
    ∃ next, sendChunk config reads index paths chunk state = some next ∧
      Progress shipments [.whole state.seq chunk media]
        (paths.map (·, packetBytes ⟨state.seq, 0, 1⟩ chunk)) state next := by
  let shipment := Shipment.whole state.seq chunk media
  have member : shipment ∈ shipments ++ [shipment] := List.mem_append_right _ List.mem_cons_self
  have ships : Ships (shipments ++ [shipment]) state.seq
      (packetBytes ⟨state.seq, 0, 1⟩ chunk) := ⟨shipment, member, rfl, Or.inl rfl⟩
  have ingested : Faithful (shipments ++ [shipment]) (state.emit (.ingested state.seq chunk)) :=
    (faithful.of_subset (List.subset_append_left _ _)).emit trivial
  have cached := cacheWhole_stretch ingested (reads (.cache index)).now ships chunk.length
  have sent := cached.trans (sendOnPaths_stretch cached.faithful ships paths)
  rcases recordFec_stretch sent.faithful config reads index member with
    ⟨next, recorded, stretch⟩
  refine ⟨{ next with seq := nextSequence state.seq }, ?_, ?_⟩
  · rw [sendChunk, singleFragmentPacket_eq media]
    dsimp only
    exact congrArg _ recorded
  · have all := sent.trans stretch
    rw [List.nil_append, List.append_nil] at all
    exact all.progress_of_ingested rfl

/-- A loop whose steps each send one chunk to some of the paths. -/
theorem foldlM_sendChunk_progress {α : Type} {config : SendConfig} {reads : Reads Rate Weight}
    {paths : List PathConnection} {chunk : α → Bytes}
    {step : ClientState → α → Option ClientState} {items : List α}
    (sends : ∀ item ∈ items, ∃ index chosen, chosen ≠ [] ∧ chosen ⊆ paths ∧
      ∀ state, step state item = sendChunk config reads index chosen (chunk item) state)
    (faithful : Faithful shipments state) (media : state.seq ≤ maxMediaSequence) :
    ∃ used packets next, items.foldlM step state = some next ∧
      Progress shipments used packets state next ∧
      used.map Shipment.payload = items.map chunk ∧ Handed paths used packets := by
  induction items generalizing shipments state with
  | nil => exact ⟨[], [], state, rfl, .refl faithful, rfl, .nil paths⟩
  | cons item rest induction =>
      rcases sends item List.mem_cons_self with ⟨index, chosen, nonempty, subset, same⟩
      rcases sendChunk_progress faithful config reads index chosen (chunk item) media with
        ⟨next, sent, progress⟩
      have nextMedia : next.seq ≤ maxMediaSequence := by
        rw [progress.seq]
        exact sequenceAfter_le media 1
      rcases induction (fun other member => sends other (List.mem_cons_of_mem _ member))
        progress.faithful nextMedia with ⟨used, packets, final, finished, rest, payloads, handed⟩
      refine ⟨_, _, final, ?_, progress.trans rest, ?_,
        (Handed.whole nonempty subset (chunk item) media).append handed⟩
      · rw [List.foldlM_cons, same, sent]
        exact finished
      · rw [List.map_append, payloads]
        rfl

end Irohsion.Client
