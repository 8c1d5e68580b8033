import Irohsion.Client.SendLoop

/-! # Shipments

Every sequence number is used for one payload with one split. A state is
faithful to a list of such shipments when all that it has sent, cached or
gathered for parity belongs to them. The operations of the send loop keep a
state faithful; each has one lemma that also says what it sends.
-/

namespace Irohsion.Client

open Protocol

/-- A payload under its sequence, with the parts that it may travel in. -/
structure Shipment where
  sequence : Nat
  payload : Bytes
  parts : List Bytes
  media : sequence ≤ maxMediaSequence
  few : parts.length ≤ maxFragments
  flatten_parts : parts.flatten = payload

namespace Shipment

/-- A payload that is not split. -/
def whole (sequence : Nat) (payload : Bytes) (media : sequence ≤ maxMediaSequence) :
    Shipment where
  sequence := sequence
  payload := payload
  parts := [payload]
  media := media
  few := one_le_maxFragments
  flatten_parts := by simp

def source (shipment : Shipment) : FecSourcePacket := ⟨shipment.sequence, shipment.payload⟩

/-- The packet carries the whole payload or one of its parts. -/
def Carries (shipment : Shipment) (packet : Bytes) : Prop :=
  packet = packetBytes ⟨shipment.sequence, 0, 1⟩ shipment.payload ∨
    packet ∈ partPackets shipment.sequence shipment.parts

end Shipment

/-- The packet belongs to the shipment of a sequence. -/
def Ships (shipments : List Shipment) (sequence : Nat) (packet : Bytes) : Prop :=
  ∃ shipment ∈ shipments, shipment.sequence = sequence ∧ shipment.Carries packet

/-- The frame protects consecutive shipments. -/
def Protects (shipments : List Shipment) (frame : Bytes) : Prop :=
  ∃ group, FullFecGroup group ∧ (∀ packet ∈ group, packet ∈ shipments.map Shipment.source) ∧
    frame = groupDatagram group

/-! ## What a trace contains -/

/-- The packets that were handed to paths. -/
def sentPackets (trace : List ClientEffect) : List (PathConnection × Bytes) :=
  trace.filterMap fun
    | .send path packet => some (path, packet)
    | _ => none

def ingestedPayloads (trace : List ClientEffect) : List (Nat × Bytes) :=
  trace.filterMap fun
    | .ingested sequence payload => some (sequence, payload)
    | _ => none

@[simp] theorem sentPackets_append (first second : List ClientEffect) :
    sentPackets (first ++ second) = sentPackets first ++ sentPackets second :=
  List.filterMap_append

@[simp] theorem ingestedPayloads_append (first second : List ClientEffect) :
    ingestedPayloads (first ++ second) = ingestedPayloads first ++ ingestedPayloads second :=
  List.filterMap_append

/-! ## Faithful states -/

/-- What the effect hands out belongs to the shipments. -/
def ClientEffect.Allowed (shipments : List Shipment) : ClientEffect → Prop
  | .send _ packet => ∃ sequence, Ships shipments sequence packet
  | .sendFec _ frame => Protects shipments frame
  | .cache sequence fragments => ∀ fragment ∈ fragments, Ships shipments sequence fragment.packet
  | .ingested _ _ | .splitRefused _ _ => True

structure Faithful (shipments : List Shipment) (state : ClientState) : Prop where
  gathering : state.fec.Gathering
  gathered : ∀ packet ∈ state.fec.packets, packet ∈ shipments.map Shipment.source
  held : state.repairCache.Holds (Ships shipments)
  effects : ∀ effect ∈ state.trace, effect.Allowed shipments

/-- A stretch of the loop leaves a faithful state and sends the given packets. -/
structure Stretch (shipments : List Shipment) (packets : List (PathConnection × Bytes))
    (before after : ClientState) : Prop where
  faithful : Faithful shipments after
  sent : sentPackets after.trace = sentPackets before.trace ++ packets
  ingested : ingestedPayloads after.trace = ingestedPayloads before.trace
  seq : after.seq = before.seq

variable {shipments others : List Shipment} {state before middle after : ClientState}

theorem Ships.of_subset {sequence : Nat} {packet : Bytes}
    (subset : shipments ⊆ others) (ships : Ships shipments sequence packet) :
    Ships others sequence packet := by
  rcases ships with ⟨shipment, member, same, carries⟩
  exact ⟨shipment, subset member, same, carries⟩

theorem ClientEffect.Allowed.of_subset {effect : ClientEffect} (subset : shipments ⊆ others)
    (allowed : effect.Allowed shipments) : effect.Allowed others := by
  cases effect with
  | send path packet =>
      rcases allowed with ⟨sequence, ships⟩
      exact ⟨sequence, ships.of_subset subset⟩
  | sendFec path frame =>
      rcases allowed with ⟨group, full, sources, same⟩
      exact ⟨group, full, fun packet member => List.map_subset _ subset (sources packet member),
        same⟩
  | cache sequence fragments =>
      exact fun fragment member => (allowed fragment member).of_subset subset
  | ingested _ _ | splitRefused _ _ => trivial

/-- More shipments only allow more. -/
theorem Faithful.of_subset (subset : shipments ⊆ others) (faithful : Faithful shipments state) :
    Faithful others state where
  gathering := faithful.gathering
  gathered packet member := List.map_subset _ subset (faithful.gathered packet member)
  held sequence packet found := by
    rcases faithful.held sequence packet found with ⟨few, ships⟩
    exact ⟨few, fun fragment member => (ships fragment member).of_subset subset⟩
  effects effect member := (faithful.effects effect member).of_subset subset

theorem Stretch.refl (faithful : Faithful shipments state) :
    Stretch shipments [] state state :=
  ⟨faithful, (List.append_nil _).symm, rfl, rfl⟩

theorem Stretch.trans {first second : List (PathConnection × Bytes)}
    (earlier : Stretch shipments first before middle)
    (later : Stretch shipments second middle after) :
    Stretch shipments (first ++ second) before after where
  faithful := later.faithful
  sent := by rw [later.sent, earlier.sent, List.append_assoc]
  ingested := later.ingested.trans earlier.ingested
  seq := later.seq.trans earlier.seq

/-- Allowed effects may be appended. -/
theorem Faithful.append (faithful : Faithful shipments state) {effects : List ClientEffect}
    (allowed : ∀ effect ∈ effects, effect.Allowed shipments) :
    Faithful shipments { state with trace := state.trace ++ effects } where
  gathering := faithful.gathering
  gathered := faithful.gathered
  held := faithful.held
  effects effect member := by
    cases List.mem_append.mp member with
    | inl earlier => exact faithful.effects effect earlier
    | inr later => exact allowed effect later

theorem Faithful.emit (faithful : Faithful shipments state) {effect : ClientEffect}
    (allowed : effect.Allowed shipments) : Faithful shipments (state.emit effect) := by
  apply faithful.append
  intro other member
  rw [List.mem_singleton.mp member]
  exact allowed

/-! ## The operations of the loop -/

theorem sendOnPath_stretch (faithful : Faithful shipments state) {sequence : Nat}
    {packet : Bytes} (ships : Ships shipments sequence packet) (path : PathConnection) :
    Stretch shipments [(path, packet)] state (state.sendOnPath packet path) where
  faithful := faithful.emit ⟨sequence, ships⟩
  sent := sentPackets_append _ _
  ingested := by
    rw [ClientState.sendOnPath, ClientState.emit, ingestedPayloads_append]
    exact List.append_nil _
  seq := rfl

theorem sendOnPaths_stretch (faithful : Faithful shipments state) {sequence : Nat}
    {packet : Bytes} (ships : Ships shipments sequence packet) (paths : List PathConnection) :
    Stretch shipments (paths.map (·, packet)) state (state.sendOnPaths packet paths) := by
  induction paths generalizing state with
  | nil => exact .refl faithful
  | cons path rest induction =>
      have first := sendOnPath_stretch faithful ships path
      exact first.trans (induction first.faithful)

theorem cacheRepairFragments_stretch (faithful : Faithful shipments state) (now : Instant)
    {sequence : Nat} {fragments : List CachedFragment} (few : fragments.length ≤ maxFragments)
    (ships : ∀ fragment ∈ fragments, Ships shipments sequence fragment.packet) :
    Stretch shipments [] state (state.cacheRepairFragments now sequence fragments) := by
  have allowed : ClientEffect.Allowed shipments (.cache sequence fragments) := ships
  constructor
  · exact ⟨faithful.gathering, faithful.gathered, faithful.held.insert now few ships,
      (faithful.emit allowed).effects⟩
  · exact sentPackets_append _ _
  · rw [ClientState.cacheRepairFragments, ingestedPayloads_append]
    exact List.append_nil _
  · rfl

theorem cacheWhole_stretch (faithful : Faithful shipments state) (now : Instant)
    {sequence : Nat} {packet : Bytes} (ships : Ships shipments sequence packet)
    (payloadLen : Nat) :
    Stretch shipments [] state
      (state.cacheRepairFragments now sequence [⟨packet, payloadLen⟩]) := by
  have belongs : ∀ fragment ∈ [(⟨packet, payloadLen⟩ : CachedFragment)],
      Ships shipments sequence fragment.packet := by
    intro fragment member
    rw [List.mem_singleton.mp member]
    exact ships
  exact cacheRepairFragments_stretch faithful now one_le_maxFragments belongs

variable {Rate Weight : Type} [Measure Rate]

/-- Parity frames are not packets, so a trace of them sends none. -/
theorem sentPackets_sendFec {effects : List ClientEffect}
    (frames : ∀ effect ∈ effects, ∃ path frame, effect = .sendFec path frame) :
    sentPackets effects = [] ∧ ingestedPayloads effects = [] := by
  rw [sentPackets, ingestedPayloads, List.filterMap_eq_nil_iff, List.filterMap_eq_nil_iff]
  constructor
  · intro effect member
    rcases frames effect member with ⟨path, frame, rfl⟩
    rfl
  · intro effect member
    rcases frames effect member with ⟨path, frame, rfl⟩
    rfl

theorem recordFec_stretch (faithful : Faithful shipments state) (config : SendConfig)
    (reads : Reads Rate Weight) (chunk : Nat) {shipment : Shipment}
    (member : shipment ∈ shipments) :
    ∃ next, recordFec config reads chunk shipment.sequence shipment.payload state = some next ∧
      Stretch shipments [] state next := by
  have source : ∀ packet ∈ state.fec.packets ++ [shipment.source],
      packet ∈ shipments.map Shipment.source := by
    intro packet isMember
    cases List.mem_append.mp isMember with
    | inl earlier => exact faithful.gathered packet earlier
    | inr equal =>
        rw [List.mem_singleton.mp equal]
        exact List.mem_map_of_mem member
  rcases FecEncoder.record_spec faithful.gathering (reads (.fecGroup chunk)).strategy
    (reads (.fecGroup chunk)).unixMs shipment.payload shipment.media with
    ⟨emitted, fec, recorded, gathering, kept, emits⟩
  have framesOnly : ∀ effect ∈ emitted.flatMap (fun frame =>
      (config.paths.filter (reads (.fecPaths chunk)).connected).map (.sendFec · frame)),
      ∃ path frame, frame ∈ emitted ∧ effect = ClientEffect.sendFec path frame := by
    intro effect isEffect
    rcases List.mem_flatMap.mp isEffect with ⟨frame, isFrame, sends⟩
    rcases List.mem_map.mp sends with ⟨path, _, rfl⟩
    exact ⟨path, frame, isFrame, rfl⟩
  have nothingSent := sentPackets_sendFec fun effect isEffect => by
    rcases framesOnly effect isEffect with ⟨path, frame, _, same⟩
    exact ⟨path, frame, same⟩
  refine ⟨_, by rw [recordFec, recorded]; rfl, ?_⟩
  constructor
  · refine ⟨gathering, fun packet isMember => source packet (kept.subset isMember),
      faithful.held, ?_⟩
    apply (faithful.append _).effects
    intro effect isEffect
    rcases framesOnly effect isEffect with ⟨path, frame, isFrame, rfl⟩
    rcases emits frame isFrame with ⟨group, part, full, same⟩
    exact ⟨group, full, fun packet isMember => source packet (part.subset isMember), same⟩
  · rw [sentPackets_append, nothingSent.1]
  · rw [ingestedPayloads_append, nothingSent.2, List.append_nil]
  · rfl

end Irohsion.Client
