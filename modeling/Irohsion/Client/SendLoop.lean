import Irohsion.Client.FecEncoder
import Irohsion.Client.RepairCache

/-! # The send loop

`send_payload` and the functions that it calls, on an explicit state. Other
tasks change the strategy and the connections at any time, so every point that
reads them has a value of its own. What a send changes there is covered by this.
Functions that may panic return an `Option`.
-/

namespace Irohsion.Client

open Protocol

def mpegTsPacketSize : Nat := 188

/-! ## Configuration and shared state -/

structure PathConnection where
  index : Nat
  displayName : String
  deriving DecidableEq, Repr

/-- The options that sending depends on, with the checks of `main`. -/
structure SendConfig where
  splitThresholdBytes : Option Nat
  mtu : Option Nat
  mpegTsChunkBytes : Option Nat
  paths : List PathConnection
  mtu_pos : ∀ bytes, mtu = some bytes → 0 < bytes
  chunk_valid : ∀ bytes, mpegTsChunkBytes = some bytes →
    0 < bytes ∧ bytes % mpegTsPacketSize = 0
  paths_le : paths.length ≤ maxFragments

def SendConfig.pathNames (config : SendConfig) : List String :=
  config.paths.map PathConnection.displayName

/-- Where one call of `send_payload` reads what it shares with other tasks. The
loops over chunks read anew for each chunk. -/
inductive ReadSite
  | activePaths
  | mode
  | effective
  | groups
  | splitPaths
  | weights
  | roundRobin (chunk : Nat)
  | cache (chunk : Nat)
  | rescueCache
  | fecGroup (chunk : Nat)
  | fecPaths (chunk : Nat)

structure SharedState (Rate Weight : Type) where
  strategy : StrategyState Rate Weight
  connected : PathConnection → Bool
  unixMs : Nat
  now : Instant

abbrev Reads (Rate Weight : Type) := ReadSite → SharedState Rate Weight

/-! ## The sender's own state -/

/-- The effects of the loop, in order: ingested payloads under their sequences,
sends of packets and parity frames, calls of `cache_repair_fragments`, and the
error that a payload needs too many fragments. -/
inductive ClientEffect
  | ingested (sequence : Nat) (payload : Bytes)
  | send (path : PathConnection) (packet : Bytes)
  | sendFec (path : PathConnection) (frame : Bytes)
  | cache (sequence : Nat) (fragments : List CachedFragment)
  | splitRefused (payloadLen : Nat) (mtu : Option Nat)
  deriving DecidableEq, Repr

structure ClientState where
  seq : Nat
  fec : FecEncoder
  repairCache : RepairCache
  trace : List ClientEffect

namespace ClientState

def emit (effect : ClientEffect) (state : ClientState) : ClientState :=
  { state with trace := state.trace ++ [effect] }

def sendOnPath (packet : Bytes) (path : PathConnection) (state : ClientState) : ClientState :=
  state.emit (.send path packet)

def sendOnPaths (packet : Bytes) (paths : List PathConnection) (state : ClientState) :
    ClientState :=
  paths.foldl (fun state path => state.sendOnPath packet path) state

def cacheRepairFragments (now : Instant) (sequence : Nat) (fragments : List CachedFragment)
    (state : ClientState) : ClientState :=
  { state with
    repairCache := state.repairCache.insert now sequence fragments
    trace := state.trace ++ [.cache sequence fragments] }

end ClientState

def singleFragmentPacket (seq : Nat) (payload : Bytes) : Option Bytes :=
  encodePacket ⟨seq, 0, 1⟩ payload

def shouldSplit (packetLen : Nat) (threshold mtu : Option Nat) (pathCount : Nat)
    (mode : StrategyMode) (strategy : PathStrategy) : Bool :=
  if packetExceedsMtu packetLen mtu then true
  else if pathCount ≤ 1 then false
  else
    match mode with
    | .split => true
    | .redundant | .roundRobin => false
    | .auto => strategy = .split && threshold.any fun threshold => threshold < packetLen

/-- `payload.chunks(size)`. -/
def chunks (size : Nat) (payload : Bytes) : List Bytes :=
  (mtuChunks payload.length size).map fun span => span.slice payload

def isMpegTsPayload (payload : Bytes) : Bool :=
  !payload.isEmpty && payload.length % mpegTsPacketSize = 0 &&
    (chunks mpegTsPacketSize payload).all fun packet => packet.head? = some 0x47

/-- The chunks of a payload that `send_mpeg_ts_chunks` takes over. -/
def mpegTsChunks (config : SendConfig) (payload : Bytes) : Option (List Bytes) :=
  match config.mpegTsChunkBytes with
  | none => none
  | some chunkBytes =>
      if payload.length ≤ chunkBytes ∨ isMpegTsPayload payload = false then none
      else some (chunks chunkBytes payload)

variable {Rate Weight : Type} [Measure Rate] [Measure Weight] [Widen Rate Weight]

/-! ## Choosing paths -/

section Choice

variable (config : SendConfig) (reads : Reads Rate Weight)

def activePaths : List PathConnection :=
  config.paths.filter (reads .activePaths).connected

def readMode : StrategyMode := (reads .mode).strategy.mode

def readEffective : PathStrategy := (reads .effective).strategy.current

/-- The names of the split and of the rescue interfaces. -/
def pathGroups : List String × List String :=
  if readMode reads = .auto ∧ readEffective reads = .split then
    (reads .groups).strategy.autoPathGroups (reads .groups).unixMs config.pathNames
  else (config.pathNames, [])

/-- The split paths of `send_mpeg_ts_chunks`. -/
def chunkSplitPaths : List PathConnection :=
  (activePaths config reads).filter fun path => path.displayName ∈ (pathGroups config reads).1

/-- The split paths of `send_packet`, which asks again what is connected. -/
def packetSplitPaths : List PathConnection :=
  (config.paths.filter (reads .splitPaths).connected).filter fun path =>
    path.displayName ∈ (pathGroups config reads).1

def rescuePaths : List PathConnection :=
  if (pathGroups config reads).2.isEmpty then []
  else
    (activePaths config reads).filter fun path =>
      path.displayName ∈ (pathGroups config reads).2

def splitPathWeights (paths : List PathConnection) : List Weight :=
  (reads .weights).strategy.activeSplitWeights (reads .weights).unixMs
    (paths.map PathConnection.displayName)

/-- The path that is next in turn; the index may not exceed the list. -/
def roundRobinPath (chunk : Nat) (paths : List PathConnection) : Option PathConnection :=
  paths[(reads (.roundRobin chunk)).strategy.nextRoundRobinIndex paths.length]?

/-- `fec.record`, and `send_fec_packet` for every frame that it emits. -/
def recordFec (chunk sequence : Nat) (payload : Bytes) (state : ClientState) :
    Option ClientState :=
  let group := reads (.fecGroup chunk)
  (state.fec.record group.strategy group.unixMs sequence payload).map fun (emitted, fec) =>
    { state with
      fec := fec
      trace := state.trace ++ emitted.flatMap fun frame =>
        (config.paths.filter (reads (.fecPaths chunk)).connected).map (.sendFec · frame) }

/-! ## Transport stream chunks -/

/-- The body of the loops over chunks, which differ in the paths they send on. -/
def sendChunk (index : Nat) (paths : List PathConnection) (chunk : Bytes)
    (state : ClientState) : Option ClientState :=
  let sequence := state.seq
  match singleFragmentPacket sequence chunk with
  | none => none
  | some packet =>
      let sent := ((state.emit (.ingested sequence chunk)).cacheRepairFragments
        (reads (.cache index)).now sequence [⟨packet, chunk.length⟩]).sendOnPaths packet paths
      (recordFec config reads index sequence chunk sent).map fun recorded =>
        { recorded with seq := nextSequence sequence }

def sendMpegTsChunks [WeightShare Weight] (chunks : List Bytes) (state : ClientState) :
    Option ClientState :=
  let active := activePaths config reads
  if active.isEmpty then some state
  else if readEffective reads = .roundRobin then
    chunks.zipIdx.foldlM
      (fun state (chunk, index) =>
        (roundRobinPath reads index active).bind fun path =>
          sendChunk config reads index [path] chunk state)
      state
  else if readEffective reads = .redundant ∨ readMode reads = .redundant then
    chunks.zipIdx.foldlM
      (fun state (chunk, index) => sendChunk config reads index active chunk state) state
  else
    let splitPaths := chunkSplitPaths config reads
    if splitPaths.isEmpty then some state
    else
      let chunkRanges := weightedSplitRanges chunks.length (splitPathWeights reads splitPaths)
      splitPaths.zipIdx.foldlM
        (fun state (path, pathIndex) =>
          chunkRanges[pathIndex]?.bind fun span =>
            (span.slice chunks.zipIdx).foldlM
              (fun state (chunk, index) => sendChunk config reads index [path] chunk state)
              state)
        state

/-! ## Single packets -/

/-- One fragment on its way to a path. -/
structure FragmentSend where
  path : PathConnection
  packet : Bytes
  payloadLen : Nat

/-- The fragments of a split; the count must fit in a `u8`. -/
def fragmentSends (paths : List PathConnection) (seq : Nat) (payload : Bytes)
    (ranges : List SplitRange) : Option (List FragmentSend) :=
  if 2 ^ 8 ≤ ranges.length then none
  else
    ranges.zipIdx.mapM fun (range, fragment) =>
      paths[range.pathIndex]?.bind fun path =>
        (encodePacket ⟨seq, fragment, ranges.length⟩ (range.span.slice payload)).map
          fun packet => ⟨path, packet, range.span.length⟩

/-- The copy of a split packet on the rescue paths. -/
def sendRescue (seq : Nat) (payload : Bytes) (state : ClientState) : Option ClientState :=
  let paths := rescuePaths config reads
  if !paths.isEmpty && !packetExceedsMtu payload.length config.mtu then
    (singleFragmentPacket seq payload).map fun packet =>
      (state.cacheRepairFragments (reads .rescueCache).now seq
        [⟨packet, payload.length⟩]).sendOnPaths packet paths
  else some state

/-- The branch of `send_packet` for a split. -/
def sendSplit (seq : Nat) (payload : Bytes) (ranges : List SplitRange) (state : ClientState) :
    Option ClientState :=
  match fragmentSends (packetSplitPaths config reads) seq payload ranges with
  | none => none
  | some sends =>
      let cached := state.cacheRepairFragments (reads (.cache 0)).now seq
        (sends.map fun send => ⟨send.packet, send.payloadLen⟩)
      let sent := sends.foldl (fun state send => state.sendOnPath send.packet send.path) cached
      (sendRescue config reads seq payload sent).bind (recordFec config reads 0 seq payload)

/-- The branch of `send_packet` for a whole packet. -/
def sendWhole (seq : Nat) (payload : Bytes) (state : ClientState) : Option ClientState :=
  let active := activePaths config reads
  match singleFragmentPacket seq payload with
  | none => none
  | some packet =>
      let cached := state.cacheRepairFragments (reads (.cache 0)).now seq
        [⟨packet, payload.length⟩]
      if readEffective reads = .roundRobin then
        (roundRobinPath reads 0 active).bind fun path =>
          recordFec config reads 0 seq payload (cached.sendOnPath packet path)
      else recordFec config reads 0 seq payload (cached.sendOnPaths packet active)

def sendPacket [WeightShare Weight] (payload : Bytes) (seq : Nat) (state : ClientState) :
    Option ClientState :=
  if (activePaths config reads).isEmpty then some state
  else
    let splitPaths := packetSplitPaths config reads
    if shouldSplit payload.length config.splitThresholdBytes config.mtu splitPaths.length
        (readMode reads) (readEffective reads) then
      match packetSplitRanges payload.length (splitPathWeights reads splitPaths) config.mtu with
      | none => some (state.emit (.splitRefused payload.length config.mtu))
      | some ranges => sendSplit config reads seq payload ranges state
    else sendWhole config reads seq payload state

def sendPayload [WeightShare Weight] (payload : Bytes) (state : ClientState) :
    Option ClientState :=
  match mpegTsChunks config payload with
  | some chunks => sendMpegTsChunks config reads chunks state
  | none =>
      (sendPacket config reads payload state.seq
        (state.emit (.ingested state.seq payload))).map fun sent =>
          { sent with seq := nextSequence state.seq }

end Choice

/-! ## Runs -/

/-- What happens to the sender: a datagram is ingested, or a repair request is
answered on the paths that are connected when the fragment at an index is sent. -/
inductive ClientEvent (Rate Weight : Type)
  | ingest (payload : Bytes) (reads : Reads Rate Weight)
  | repair (request : RepairRequest) (now : Instant) (connected : Nat → PathConnection → Bool)

/-- The answer of `spawn_repair_control` to a request. -/
def answerRepair (config : SendConfig) (request : RepairRequest) (now : Instant)
    (connected : Nat → PathConnection → Bool) (state : ClientState) : Option ClientState :=
  (state.repairCache.fragmentsFor now request).map fun (fragments, repairCache) =>
    fragments.zipIdx.foldl
      (fun state (fragment, index) =>
        state.sendOnPaths fragment.packet (config.paths.filter (connected index)))
      { state with repairCache := repairCache }

def clientStep [WeightShare Weight] (config : SendConfig) (state : ClientState)
    (event : ClientEvent Rate Weight) : Option ClientState :=
  match event with
  | .ingest payload reads => sendPayload config reads payload state
  | .repair request now connected => answerRepair config request now connected state

/-- The loop from the start, where sequences count from zero. -/
def clientRun [WeightShare Weight] (config : SendConfig) (fec : FecEncoder)
    (repairCache : RepairCache) (events : List (ClientEvent Rate Weight)) : Option ClientState :=
  events.foldlM (clientStep config) ⟨0, fec, repairCache, []⟩

end Irohsion.Client
