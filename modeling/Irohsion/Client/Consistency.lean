import Irohsion.Client.SenderRuns

/-! # Sender consistency

Before the sequences repeat, the shipments of a run are a content: one payload
with one split for each sequence. All that the run sends, caches or protects
with parity carries this content.
-/

namespace Irohsion.Client

open Protocol

/-! ## The content of a list of shipments -/

/-- The shipment that has taken a sequence. -/
def shipmentOf (shipments : List Shipment) (sequence : Nat) : Option Shipment :=
  shipments.find? fun shipment => shipment.sequence = sequence

/-- The payloads and parts of the shipments; other sequences carry nothing. -/
def contentOf (shipments : List Shipment) : Content where
  payload sequence := ((shipmentOf shipments sequence).map Shipment.payload).getD []
  parts sequence := ((shipmentOf shipments sequence).map Shipment.parts).getD []
  flatten_parts sequence := by
    cases shipmentOf shipments sequence with
    | none => rfl
    | some shipment => exact shipment.flatten_parts

theorem length_parts_contentOf_le (shipments : List Shipment) (sequence : Nat) :
    ((contentOf shipments).parts sequence).length ≤ maxFragments := by
  rw [contentOf]
  dsimp only
  cases shipmentOf shipments sequence with
  | none => exact Nat.zero_le _
  | some shipment => exact shipment.few

variable {shipments : List Shipment} {state : ClientState}

theorem Shipped.sequence_eq (shipped : Shipped shipments state) {index : Nat}
    {shipment : Shipment} (present : shipments[index]? = some shipment) :
    shipment.sequence = sequenceAfter 0 index := by
  have named := congrArg (·[index]?) shipped.named
  simp only [getElem?_numbered, List.getElem?_map, present, Option.map_some] at named
  exact congrArg Prod.fst (Option.some.inj named)

/-- Before the sequences repeat, each has one shipment. -/
theorem Shipped.shipmentOf_of_mem (shipped : Shipped shipments state)
    (few : shipments.length ≤ maxMediaSequence + 1) {shipment : Shipment}
    (member : shipment ∈ shipments) :
    shipmentOf shipments shipment.sequence = some shipment := by
  rcases List.getElem?_of_mem member with ⟨index, present⟩
  cases found : shipmentOf shipments shipment.sequence with
  | none =>
      have different := List.find?_eq_none.mp found shipment member
      exact absurd (decide_eq_true rfl) different
  | some other =>
      have same : other.sequence = shipment.sequence := by
        simpa using List.find?_some found
      rcases List.getElem?_of_mem (List.mem_of_find?_eq_some found) with ⟨position, isOther⟩
      have bound := (List.getElem?_eq_some_iff.mp present).1
      have otherBound := (List.getElem?_eq_some_iff.mp isOther).1
      rw [shipped.sequence_eq present, shipped.sequence_eq isOther] at same
      have equal := sequenceAfter_injective (Nat.zero_le _) (by omega) (by omega) same
      rw [equal, present] at isOther
      exact isOther.symm

theorem Shipped.contentOf_of_mem (shipped : Shipped shipments state)
    (few : shipments.length ≤ maxMediaSequence + 1) {shipment : Shipment}
    (member : shipment ∈ shipments) :
    (contentOf shipments).payload shipment.sequence = shipment.payload ∧
      (contentOf shipments).parts shipment.sequence = shipment.parts := by
  have found := shipped.shipmentOf_of_mem few member
  rw [contentOf]
  dsimp only
  rw [found]
  exact ⟨rfl, rfl⟩

/-! ## Consistent runs -/

/-- The sequences that a trace has used. -/
def usedSequences (trace : List ClientEffect) : List Nat := (ingestedPayloads trace).map Prod.fst

/-- The frame is over consecutive sequences that have been used. -/
def ProtectsContent (content : Content) (used : List Nat) (datagram : Bytes) : Prop :=
  ∃ frame, encodeFecFrame frame = some datagram ∧
    2 ≤ frame.payloadLengths.length ∧ frame.payloadLengths.length ≤ maxFecGroupPackets ∧
    (∀ offset < frame.payloadLengths.length, sequenceAfter frame.baseSequence offset ∈ used) ∧
    content.Covers frame

/-- All that the sender has done agrees with one content. -/
structure Consistent (content : Content) (state : ClientState) : Prop where
  few : ∀ sequence, (content.parts sequence).length ≤ maxFragments
  ingested : ∀ sequence payload, (sequence, payload) ∈ ingestedPayloads state.trace →
    payload = content.payload sequence
  media : ∀ sequence ∈ usedSequences state.trace, sequence ≠ fecSequence
  sent : ∀ path packet, ClientEffect.send path packet ∈ state.trace →
    ∃ sequence ∈ usedSequences state.trace, content.Carries sequence packet
  cached : ∀ sequence fragments, ClientEffect.cache sequence fragments ∈ state.trace →
    ∀ fragment ∈ fragments, sequence ∈ usedSequences state.trace ∧
      content.Carries sequence fragment.packet
  held : state.repairCache.Holds fun sequence packet =>
    sequence ∈ usedSequences state.trace ∧ content.Carries sequence packet
  parity : ∀ path datagram, ClientEffect.sendFec path datagram ∈ state.trace →
    ProtectsContent content (usedSequences state.trace) datagram

theorem Shipped.mem_usedSequences (shipped : Shipped shipments state) {shipment : Shipment}
    (member : shipment ∈ shipments) : shipment.sequence ∈ usedSequences state.trace := by
  rw [usedSequences, shipped.ingested, List.map_map]
  exact List.mem_map.mpr ⟨shipment, member, rfl⟩

theorem Shipped.carries_of_ships (shipped : Shipped shipments state)
    (few : shipments.length ≤ maxMediaSequence + 1) {sequence : Nat} {packet : Bytes}
    (ships : Ships shipments sequence packet) :
    sequence ∈ usedSequences state.trace ∧ (contentOf shipments).Carries sequence packet := by
  rcases ships with ⟨shipment, member, rfl, carries⟩
  rcases shipped.contentOf_of_mem few member with ⟨payload, parts⟩
  refine ⟨shipped.mem_usedSequences member, ?_⟩
  rw [Content.Carries, payload, parts]
  exact carries

/-- The members of a group are the content of its sequences. -/
theorem members_eq_of_group {content : Content} {group : List FecSourcePacket}
    (consecutive : FecGroup group)
    (agrees : ∀ packet ∈ group, packet.payload = content.payload packet.sequence) :
    content.members (groupFrame group).baseSequence 0 group.length =
      group.map FecSourcePacket.payload := by
  apply List.ext_getElem?
  intro index
  cases present : group[index]? with
  | none =>
      have outside := List.getElem?_eq_none_iff.mp present
      rw [List.getElem?_map, present, Content.members, List.getElem?_eq_none]
      · rfl
      · simpa using outside
  | some packet =>
      have bound := (List.getElem?_eq_some_iff.mp present).1
      have member := List.mem_of_getElem? present
      rw [List.getElem?_map, present, Option.map_some, agrees packet member,
        consecutive.sequence_of_member present, Content.members, List.getElem?_map,
        List.getElem?_range' bound]
      simp

theorem Shipped.protectsContent (shipped : Shipped shipments state)
    (few : shipments.length ≤ maxMediaSequence + 1) {datagram : Bytes}
    (protects : Protects shipments datagram) :
    ProtectsContent (contentOf shipments) (usedSequences state.trace) datagram := by
  rcases protects with ⟨group, full, sources, rfl⟩
  have agrees : ∀ packet ∈ group,
      packet.payload = (contentOf shipments).payload packet.sequence := by
    intro packet member
    rcases List.mem_map.mp (sources packet member) with ⟨shipment, isShipment, rfl⟩
    exact (shipped.contentOf_of_mem few isShipment).1.symm
  have members := members_eq_of_group full.toFecGroup agrees
  have count : (groupFrame group).payloadLengths.length = group.length := List.length_map _
  refine ⟨groupFrame group, encodeFecFrame_of_valid full.frame_valid, ?_, ?_, ?_, ?_⟩
  · rw [count]
    exact full.several
  · rw [count]
    exact full.few
  · intro offset bound
    rw [count] at bound
    have present := List.getElem?_eq_getElem bound
    rcases List.mem_map.mp (sources _ (List.getElem_mem bound)) with ⟨shipment, member, same⟩
    rw [← full.toFecGroup.sequence_of_member present, ← same]
    exact shipped.mem_usedSequences member
  · rw [Content.Covers, count, members, List.map_map]
    exact ⟨rfl, rfl⟩

/-- A run whose sequences do not repeat is consistent. -/
theorem Shipped.consistent (shipped : Shipped shipments state)
    (few : shipments.length ≤ maxMediaSequence + 1) :
    Consistent (contentOf shipments) state where
  few := length_parts_contentOf_le shipments
  ingested sequence payload member := by
    rw [shipped.ingested] at member
    rcases List.mem_map.mp member with ⟨shipment, isShipment, same⟩
    cases same
    exact (shipped.contentOf_of_mem few isShipment).1.symm
  media sequence member := by
    rw [usedSequences, shipped.ingested, List.map_map] at member
    rcases List.mem_map.mp member with ⟨shipment, _, rfl⟩
    exact Nat.ne_of_lt (Nat.lt_of_le_of_lt shipment.media maxMediaSequence_lt_fecSequence)
  sent path packet member := by
    rcases shipped.faithful.effects _ member with ⟨sequence, ships⟩
    exact ⟨sequence, shipped.carries_of_ships few ships⟩
  cached sequence fragments member fragment isFragment :=
    shipped.carries_of_ships few (shipped.faithful.effects _ member fragment isFragment)
  held sequence packet found := by
    rcases shipped.faithful.held sequence packet found with ⟨count, ships⟩
    exact ⟨count, fun fragment member => shipped.carries_of_ships few (ships fragment member)⟩
  parity path datagram member :=
    shipped.protectsContent few (shipped.faithful.effects _ member)

/-! ## Every run -/

variable {Rate Weight : Type} [Measure Rate] [Measure Weight] [Widen Rate Weight]
variable [WeightShare Weight]

/-- No run panics. One that uses no sequence twice sends, caches and protects
the payloads and parts of one content. -/
theorem sender_consistent (config : SendConfig) {disabled : Bool} {groupSize : Nat}
    {fec : FecEncoder} (created : FecEncoder.new disabled groupSize config.mtu = .ok fec)
    (ttl : Duration) (maxPackets : Nat) (events : List (ClientEvent Rate Weight)) :
    ∃ final, clientRun config fec (.new ttl maxPackets) events = some final ∧
      final.seq = sequenceAfter 0 (usedSequences final.trace).length ∧
      ((usedSequences final.trace).length ≤ maxMediaSequence + 1 →
        ∃ content, Consistent content final) := by
  rcases clientRun_shipped config created ttl maxPackets events with
    ⟨shipments, final, finished, shipped⟩
  have count : (usedSequences final.trace).length = shipments.length := by
    rw [usedSequences, shipped.ingested, List.length_map, List.length_map]
  refine ⟨final, finished, ?_, ?_⟩
  · rw [count]
    exact shipped.seq
  · intro few
    rw [count] at few
    exact ⟨contentOf shipments, shipped.consistent few⟩

/-- Two datagrams on both paths. -/
theorem sender_consistent_redundant :
    ∃ final, clientRun twoPathConfig startSender.fec (.new 1000 8)
        [.ingest [1, 2] (startReads .redundant), .ingest [3] (startReads .redundant)] = some final ∧
      ∃ content, Consistent content final := by
  have created : FecEncoder.new false 0 twoPathConfig.mtu = .ok startSender.fec := rfl
  rcases sender_consistent twoPathConfig created 1000 8
    [.ingest [1, 2] (startReads .redundant), .ingest [3] (startReads .redundant)] with
    ⟨final, finished, _, consistent⟩
  have used : (clientRun twoPathConfig startSender.fec (.new 1000 8)
      [.ingest [1, 2] (startReads .redundant), .ingest [3] (startReads .redundant)]).map
        (fun state => usedSequences state.trace) = some [0, 1] := by
    decide +kernel
  rw [finished, Option.map_some] at used
  refine ⟨final, finished, consistent ?_⟩
  rw [Option.some.inj used]
  decide

end Irohsion.Client
