import Irohsion.Client.PacketCalls

/-! # Runs of the sender

A run ingests datagrams and answers repair requests. It never panics, and what
it has shipped is one list of shipments under consecutive sequences.
-/

namespace Irohsion.Client

open Protocol

variable {shipments used : List Shipment} {packets : List (PathConnection × Bytes)}
variable {state next : ClientState}

/-! ## Repairs -/

/-- Fragments from the cache go to the paths that are connected. -/
theorem answerRepair_progress (config : SendConfig) (faithful : Faithful shipments state)
    (request : RepairRequest) (now : Instant) (connected : Nat → PathConnection → Bool) :
    ∃ packets next, answerRepair config request now connected state = some next ∧
      Progress shipments [] packets state next := by
  have resend : ∀ (indexed : List (CachedFragment × Nat)) (before : ClientState),
      Faithful shipments before →
      (∀ item ∈ indexed, Ships shipments request.sequence item.1.packet) →
      ∃ packets, Stretch shipments packets before (indexed.foldl
        (fun state item =>
          state.sendOnPaths item.1.packet (config.paths.filter (connected item.2))) before) := by
    intro indexed
    induction indexed with
    | nil => exact fun before faithful _ => ⟨[], .refl faithful⟩
    | cons item rest induction =>
        intro before faithful ships
        have first := sendOnPaths_stretch faithful (ships item List.mem_cons_self)
          (config.paths.filter (connected item.2))
        rcases induction _ first.faithful fun other member =>
          ships other (List.mem_cons_of_mem _ member) with ⟨packets, later⟩
        exact ⟨_, first.trans later⟩
  rcases faithful.held.fragmentsFor now request with
    ⟨fragments, repairCache, answered, held, ships⟩
  have answering : Faithful shipments { state with repairCache := repairCache } :=
    ⟨faithful.gathering, faithful.gathered, held, faithful.effects⟩
  rcases resend fragments.zipIdx _ answering fun item member =>
    ships item.1 (List.fst_mem_of_mem_zipIdx member) with ⟨packets, stretch⟩
  refine ⟨packets, _, ?_, Stretch.progress ⟨stretch.faithful, stretch.sent, stretch.ingested,
    stretch.seq⟩⟩
  rw [answerRepair, answered]
  rfl

/-! ## Runs -/

/-- All that the sender has done belongs to the shipments, which have taken the
sequences from zero on. -/
structure Shipped (shipments : List Shipment) (state : ClientState) : Prop where
  faithful : Faithful shipments state
  ingested : ingestedPayloads state.trace = shipments.map Shipment.ingest
  named : shipments.map Shipment.ingest = numbered 0 (shipments.map Shipment.payload)
  seq : state.seq = sequenceAfter 0 shipments.length

theorem Shipped.media (shipped : Shipped shipments state) : state.seq ≤ maxMediaSequence := by
  rw [shipped.seq]
  exact sequenceAfter_le (Nat.zero_le _) _

theorem Shipped.start {fec : FecEncoder} {disabled : Bool} {groupSize : Nat} {mtu : Option Nat}
    (created : FecEncoder.new disabled groupSize mtu = .ok fec) (ttl : Duration)
    (maxPackets : Nat) : Shipped [] ⟨0, fec, .new ttl maxPackets, []⟩ := by
  rcases FecEncoder.new_gathering created with ⟨gathering, fresh⟩
  refine ⟨⟨gathering, ?_, .new ttl maxPackets, nofun⟩, rfl, rfl, rfl⟩
  intro packet member
  rw [fresh] at member
  cases member

/-- Progress adds the shipments that it uses. -/
theorem Shipped.progress (shipped : Shipped shipments state)
    (progress : Progress shipments used packets state next) :
    Shipped (shipments ++ used) next where
  faithful := progress.faithful
  ingested := by rw [progress.ingested, shipped.ingested, List.map_append]
  named := by
    rw [List.map_append, shipped.named, progress.numbered, shipped.seq, List.map_append,
      numbered_append, List.length_map]
  seq := by
    rw [progress.seq, shipped.seq, List.length_append, sequenceAfter_add]

variable {Rate Weight : Type} [Measure Rate]

/-! ## One call of `send_payload` -/

/-- What a datagram is cut into before it is sent. -/
def datagramPieces (config : SendConfig) (payload : Bytes) : List Bytes :=
  (mpegTsChunks config payload).getD [payload]

/-- No branch sends the datagram, and no error is recorded. -/
def DropsSilently (config : SendConfig) (reads : Reads Rate Weight) (payload : Bytes) : Prop :=
  match mpegTsChunks config payload with
  | some _ => ChunksDropped config reads
  | none => PacketDropped config reads payload

/-- The call does not panic and takes the next sequences. It hands all pieces
over unless they are dropped or do not fit. -/
def SendsDatagram (config : SendConfig) (reads : Reads Rate Weight) (shipments : List Shipment)
    (payload : Bytes) (state : ClientState) (result : Option ClientState) : Prop :=
  ∃ used packets next, result = some next ∧ Progress shipments used packets state next ∧
    (activePaths config reads ≠ [] →
      (∀ piece ∈ datagramPieces config payload, FitsFragments config piece.length) →
      ¬ DropsSilently config reads payload →
      used.map Shipment.payload = datagramPieces config payload ∧
        Handed (seenPaths config reads) used packets) ∧
    (DropsSilently config reads payload → packets = [])

variable [Measure Weight] [Widen Rate Weight] [WeightShare Weight] (config : SendConfig)

theorem sendPayload_spec (reads : Reads Rate Weight) (faithful : Faithful shipments state)
    (media : state.seq ≤ maxMediaSequence) (payload : Bytes) :
    SendsDatagram config reads shipments payload state
      (sendPayload config reads payload state) := by
  rw [sendPayload, SendsDatagram, datagramPieces, DropsSilently]
  cases cut : mpegTsChunks config payload with
  | some chunks =>
      rcases sendMpegTsChunks_spec config reads faithful media chunks with
        ⟨used, packets, next, sent, progress, all, nothing⟩
      refine ⟨used, packets, next, sent, progress, ?_, nothing⟩
      intro active _ kept
      rcases all active kept with ⟨payloads, handed⟩
      exact ⟨payloads, handed.of_paths_subset (activePaths_subset config reads)⟩
  | none =>
      have ingested : Faithful shipments (state.emit (.ingested state.seq payload)) :=
        faithful.emit trivial
      rcases sendPacket_spec config reads ingested media payload with
        ⟨shipment, packets, next, sent, named, carried, stretch, all, nothing⟩
      subst carried
      refine ⟨[shipment], packets, _, ?_, stretch.progress_of_ingested named, ?_, nothing⟩
      · rw [sent]
        rfl
      · intro active fits kept
        have handed := all active (fits shipment.payload List.mem_cons_self) kept
        exact ⟨rfl, handed⟩

theorem clientStep_shipped (shipped : Shipped shipments state)
    (event : ClientEvent Rate Weight) :
    ∃ used next, clientStep config state event = some next ∧
      Shipped (shipments ++ used) next := by
  cases event with
  | ingest payload reads =>
      rcases sendPayload_spec config reads shipped.faithful shipped.media payload with
        ⟨used, packets, next, sent, progress, _⟩
      exact ⟨used, next, sent, shipped.progress progress⟩
  | repair request now connected =>
      rcases answerRepair_progress config shipped.faithful request now connected with
        ⟨packets, next, answered, progress⟩
      exact ⟨[], next, answered, shipped.progress progress⟩

theorem foldlM_clientStep_shipped (shipped : Shipped shipments state)
    (events : List (ClientEvent Rate Weight)) :
    ∃ used final, events.foldlM (clientStep config) state = some final ∧
      Shipped (shipments ++ used) final := by
  induction events generalizing shipments state with
  | nil =>
      refine ⟨[], state, rfl, ?_⟩
      rw [List.append_nil]
      exact shipped
  | cons event rest induction =>
      rcases clientStep_shipped config shipped event with ⟨used, next, stepped, nextShipped⟩
      rcases induction nextShipped with ⟨more, final, finished, finalShipped⟩
      refine ⟨used ++ more, final, ?_, ?_⟩
      · rw [List.foldlM_cons, stepped]
        exact finished
      · rw [← List.append_assoc]
        exact finalShipped

/-- Every run from the start comes to an end, with one list of shipments. -/
theorem clientRun_shipped {fec : FecEncoder} {disabled : Bool} {groupSize : Nat}
    {mtu : Option Nat} (created : FecEncoder.new disabled groupSize mtu = .ok fec)
    (ttl : Duration) (maxPackets : Nat) (events : List (ClientEvent Rate Weight)) :
    ∃ shipments final, clientRun config fec (.new ttl maxPackets) events = some final ∧
      Shipped shipments final :=
  foldlM_clientStep_shipped config (.start created ttl maxPackets) events

/-! ## A sender at its start -/

def twoPathConfig : SendConfig where
  splitThresholdBytes := none
  mtu := some 100
  mpegTsChunkBytes := some 188
  paths := [⟨0, "first"⟩, ⟨1, "second"⟩]
  mtu_pos bytes isMtu := by
    cases isMtu
    decide
  chunk_valid bytes isSize := by
    cases isSize
    decide
  paths_le := by decide

/-- The state that `spawn_strategy_loop` starts with, in some mode. No health has
been reported yet. -/
def startStrategy (mode : StrategyMode) : StrategyState Float32 Float where
  mode := mode
  strategy := .split
  weightedAutoSplit := true
  roundRobinCursor := 0
  splitPercentages := ∅
  healthByInterface := ∅
  interfaceFailures := ∅

/-- Every read finds this strategy and both paths connected. -/
def startReads (mode : StrategyMode) : Reads Float32 Float :=
  fun _ => ⟨startStrategy mode, fun _ => true, 0, 0⟩

def startSender : ClientState := ⟨0, ⟨.adaptive, some 100, []⟩, .new 1000 8, []⟩

end Irohsion.Client
