import Irohsion.Client.RepairAnswers
import Irohsion.Client.SenderRuns

/-! # Cached payloads

Whatever the sender does, every entry of its repair cache holds all packets of
one split of a payload that was ingested under the sequence of the entry. So the
answer to a repair request consists of parts of such a payload.
-/

namespace Irohsion.Client

open Protocol

/-! ## Entries of the cache -/

namespace RepairCache

variable {cache rest : RepairCache} {now : Instant} {sequence other : Nat}
variable {entry : CachedPacket} {fragments answered : List CachedFragment}

theorem getElem?_of_enforceLimitLocked
    (found : cache.enforceLimitLocked.packets[other]? = some entry) :
    cache.packets[other]? = some entry := by
  apply @BreakLoop.of_run _ (fun cache : RepairCache => cache.packets[other]? = some entry) _ _
    _ _ found
  intro cache later
  rw [enforceLimitStep] at later
  split at later
  · exact later
  · split at later
    · exact later
    · exact (OrderedMap.getElem?_erase_eq_some.mp later).2

/-- After an insertion the cache holds the fragments that were inserted and
entries that it held before. -/
theorem getElem?_insert
    (found : (cache.insert now sequence fragments).packets[other]? = some entry) :
    (other = sequence ∧ entry.fragments = fragments ∧ fragments ≠ []) ∨
      cache.packets[other]? = some entry := by
  rw [RepairCache.insert] at found
  split at found
  · exact Or.inr found
  · rename_i nonempty
    rcases OrderedMap.getElem?_insert_eq_some (getElem?_of_enforceLimitLocked found) with
      ⟨same, rfl⟩ | earlier
    · exact Or.inl ⟨same, rfl, mt List.isEmpty_iff.mpr nonempty⟩
    · exact Or.inr (getElem?_of_expireLocked earlier)

/-- A request adds no entry. -/
theorem getElem?_of_fragmentsFor {request : RepairRequest}
    (answers : cache.fragmentsFor now request = some (answered, rest))
    (found : rest.packets[other]? = some entry) : cache.packets[other]? = some entry := by
  have kept : rest.packets = (cache.expireLocked now).packets := by
    rw [fragmentsFor] at answers
    dsimp only at answers
    split at answers
    · cases answers
      exact expireRecentRequestsLocked_packets _ _
    · split at answers
      · cases answers
        exact expireRecentRequestsLocked_packets _ _
      · split at answers
        · cases answers
          rw [noteRequest_packets, expireRecentRequestsLocked_packets]
        · rcases Option.map_eq_some_iff.mp answers with ⟨requested, -, same⟩
          cases same
          rw [noteRequest_packets, expireRecentRequestsLocked_packets]
  rw [kept] at found
  exact getElem?_of_expireLocked found

/-- Only an entry of the cache gives an answer. -/
theorem exists_entry_of_answer {request : RepairRequest}
    (answers : cache.fragmentsFor now request = some (answered, rest)) (nonempty : answered ≠ []) :
    ∃ entry, cache.packets[request.sequence]? = some entry := by
  rw [fragmentsFor] at answers
  dsimp only at answers
  split at answers
  · cases answers
    exact absurd rfl nonempty
  · rename_i entry found
    rw [expireRecentRequestsLocked_packets] at found
    exact ⟨entry, getElem?_of_expireLocked found⟩

/-- A cache with the same entry holds the same parts. -/
theorem Caches.of_entry {later : RepairCache} {parts : List Bytes}
    (caches : cache.Caches sequence parts) (earlier : cache.packets[sequence]? = some entry)
    (found : later.packets[sequence]? = some entry) : later.Caches sequence parts := by
  rcases caches.entry with ⟨stored, isStored, packets⟩
  cases earlier.symm.trans isStored
  exact ⟨caches.few, entry, found, packets⟩

end RepairCache

/-! ## States whose cache holds ingested payloads -/

/-- Every entry of the cache holds the packets of one split of a payload that was
ingested under its sequence. -/
def CachesIngested (state : ClientState) : Prop :=
  ∀ (sequence : Nat) (entry : CachedPacket), state.repairCache.packets[sequence]? = some entry →
    ∃ parts : List Bytes, state.repairCache.Caches sequence parts ∧
      (sequence, parts.flatten) ∈ ingestedPayloads state.trace

/-- Nothing new is cached, and what has been ingested stays recorded. -/
structure Remembers (state next : ClientState) : Prop where
  entries : ∀ {sequence : Nat} {entry : CachedPacket},
    next.repairCache.packets[sequence]? = some entry →
      state.repairCache.packets[sequence]? = some entry
  ingested : ingestedPayloads state.trace ⊆ ingestedPayloads next.trace

variable {state middle next : ClientState} {sequence : Nat} {payload packet : Bytes}

theorem Remembers.refl (state : ClientState) : Remembers state state :=
  ⟨id, List.Subset.refl _⟩

theorem Remembers.trans (first : Remembers state middle) (second : Remembers middle next) :
    Remembers state next where
  entries found := first.entries (second.entries found)
  ingested := List.Subset.trans first.ingested second.ingested

theorem CachesIngested.remembers (caches : CachesIngested state)
    (remembers : Remembers state next) : CachesIngested next := by
  intro sequence entry found
  have earlier := remembers.entries found
  rcases caches sequence entry earlier with ⟨parts, cached, ingested⟩
  exact ⟨parts, cached.of_entry earlier found, remembers.ingested ingested⟩

theorem CachesIngested.start (fec : FecEncoder) (ttl : Duration) (maxPackets : Nat) :
    CachesIngested ⟨0, fec, .new ttl maxPackets, []⟩ := by
  intro sequence entry found
  simp [RepairCache.new] at found

theorem emit_remembers (effect : ClientEffect) (state : ClientState) :
    Remembers state (state.emit effect) where
  entries := id
  ingested := by
    rw [ClientState.emit, ingestedPayloads_append]
    exact List.subset_append_left _ _

theorem sendOnPaths_remembers (packet : Bytes) (paths : List PathConnection)
    (state : ClientState) : Remembers state (state.sendOnPaths packet paths) := by
  induction paths generalizing state with
  | nil => exact .refl state
  | cons path rest induction =>
      exact (emit_remembers (.send path packet) state).trans (induction _)

theorem sendFragments_remembers (sends : List FragmentSend) (state : ClientState) :
    Remembers state
      (sends.foldl (fun state send => state.sendOnPath send.packet send.path) state) := by
  induction sends generalizing state with
  | nil => exact .refl state
  | cons send rest induction =>
      exact (emit_remembers (.send send.path send.packet) state).trans (induction _)

theorem mem_ingestedPayloads_emit (sequence : Nat) (payload : Bytes) (state : ClientState) :
    (sequence, payload) ∈
      ingestedPayloads (state.emit (.ingested sequence payload)).trace := by
  rw [ClientState.emit, ingestedPayloads_append]
  exact List.mem_append_right _ List.mem_cons_self

theorem ingestedPayloads_cacheRepairFragments (now : Instant) (sequence : Nat)
    (fragments : List CachedFragment) (state : ClientState) :
    ingestedPayloads (state.cacheRepairFragments now sequence fragments).trace =
      ingestedPayloads state.trace := by
  rw [ClientState.cacheRepairFragments, ingestedPayloads_append]
  exact List.append_nil _

/-- The fragments of a split of an ingested payload are cached. -/
theorem CachesIngested.cacheRepairFragments (caches : CachesIngested state) (now : Instant)
    {parts : List Bytes} (few : parts.length ≤ maxFragments) {fragments : List CachedFragment}
    (packets : fragments.map CachedFragment.packet = partPackets sequence parts)
    (ingested : fragments ≠ [] → (sequence, parts.flatten) ∈ ingestedPayloads state.trace) :
    CachesIngested (state.cacheRepairFragments now sequence fragments) := by
  intro other entry found
  rw [ingestedPayloads_cacheRepairFragments]
  rcases RepairCache.getElem?_insert found with ⟨rfl, rfl, nonempty⟩ | earlier
  · exact ⟨parts, ⟨few, entry, found, packets⟩, ingested nonempty⟩
  · rcases caches other entry earlier with ⟨others, cached, member⟩
    exact ⟨others, cached.of_entry earlier found, member⟩

theorem CachesIngested.cacheWhole (caches : CachesIngested state) (now : Instant)
    (encoded : singleFragmentPacket sequence payload = some packet) (payloadLen : Nat)
    (ingested : (sequence, payload) ∈ ingestedPayloads state.trace) :
    CachesIngested (state.cacheRepairFragments now sequence [⟨packet, payloadLen⟩]) := by
  rw [singleFragmentPacket, encodePacket] at encoded
  split at encoded
  · cases encoded
    have whole : [payload].flatten = payload := by simp
    have packets : [(⟨packetBytes ⟨sequence, 0, 1⟩ payload, payloadLen⟩ : CachedFragment)].map
        CachedFragment.packet = partPackets sequence [payload] := rfl
    refine caches.cacheRepairFragments now ?_ packets ?_
    · exact one_le_maxFragments
    · intro _
      rw [whole]
      exact ingested
  · cases encoded

/-! ## The branches of the send loop -/

section Branches

variable {Rate Weight : Type} [Measure Rate] {config : SendConfig} {reads : Reads Rate Weight}
variable {index : Nat} {paths : List PathConnection}

theorem recordFec_remembers
    (recorded : recordFec config reads index sequence payload state = some next) :
    Remembers state next := by
  rcases Option.map_eq_some_iff.mp recorded with ⟨result, -, rfl⟩
  refine ⟨id, ?_⟩
  rw [ingestedPayloads_append]
  exact List.subset_append_left _ _

theorem CachesIngested.sendChunk (caches : CachesIngested state) {chunk : Bytes}
    (sent : sendChunk config reads index paths chunk state = some next) :
    CachesIngested next := by
  rw [Client.sendChunk] at sent
  dsimp only at sent
  split at sent
  · cases sent
  · rename_i packet encoded
    rcases Option.map_eq_some_iff.mp sent with ⟨recorded, isRecorded, rfl⟩
    have ingested := caches.remembers (emit_remembers (.ingested state.seq chunk) state)
    have cached := ingested.cacheWhole (reads (.cache index)).now encoded chunk.length
      (mem_ingestedPayloads_emit state.seq chunk state)
    have sent := cached.remembers (sendOnPaths_remembers packet paths _)
    have caches : CachesIngested recorded := sent.remembers (recordFec_remembers isRecorded)
    exact caches

theorem CachesIngested.sendRescue (caches : CachesIngested state)
    (ingested : (sequence, payload) ∈ ingestedPayloads state.trace)
    (rescued : sendRescue config reads sequence payload state = some next) :
    CachesIngested next := by
  rw [Client.sendRescue] at rescued
  split at rescued
  · rcases Option.map_eq_some_iff.mp rescued with ⟨packet, encoded, rfl⟩
    have cached := caches.cacheWhole (reads .rescueCache).now encoded payload.length ingested
    exact cached.remembers (sendOnPaths_remembers packet _ _)
  · cases rescued
    exact caches

/-- The fragments of a split are the packets of its parts. -/
theorem map_packet_fragmentSends {ranges : List SplitRange} {sends : List FragmentSend}
    (fragmented : fragmentSends paths sequence payload ranges = some sends) :
    sends.map FragmentSend.packet = partPackets sequence (splitParts payload ranges) := by
  rw [fragmentSends] at fragmented
  split at fragmented
  · cases fragmented
  · rw [partPackets_splitParts]
    apply ListLoops.map_of_mapM fragmented
    intro indexed _ send sent
    rcases Option.bind_eq_some_iff.mp sent with ⟨path, -, encodes⟩
    rcases Option.map_eq_some_iff.mp encodes with ⟨packet, encoded, rfl⟩
    rw [encodePacket] at encoded
    split at encoded
    · cases encoded
      rfl
    · cases encoded

theorem CachesIngested.sendSplit (caches : CachesIngested state)
    (ingested : (sequence, payload) ∈ ingestedPayloads state.trace) {ranges : List SplitRange}
    {pathCount : Nat}
    (split : ranges = [] ∨ ValidSplit payload.length pathCount config.mtu ranges)
    (sent : sendSplit config reads sequence payload ranges state = some next) :
    CachesIngested next := by
  rw [Client.sendSplit] at sent
  split at sent
  · cases sent
  · rename_i sends fragmented
    dsimp only at sent
    rcases Option.bind_eq_some_iff.mp sent with ⟨rescued, isRescued, recorded⟩
    have packets : (sends.map fun send => (⟨send.packet, send.payloadLen⟩ :
        CachedFragment)).map CachedFragment.packet =
          partPackets sequence (splitParts payload ranges) := by
      rw [← map_packet_fragmentSends fragmented, List.map_map]
      rfl
    have few : (splitParts payload ranges).length ≤ maxFragments := by
      rw [splitParts, List.length_map]
      rcases split with rfl | valid
      · exact Nat.zero_le _
      · exact valid.count
    have cached : CachesIngested (state.cacheRepairFragments (reads (.cache 0)).now sequence
        (sends.map fun send => ⟨send.packet, send.payloadLen⟩)) := by
      apply caches.cacheRepairFragments _ few packets
      intro nonempty
      rcases split with rfl | valid
      · -- Without ranges there are no fragments to cache.
        rw [splitParts, List.map_nil] at packets
        exact absurd (List.map_eq_nil_iff.mp packets) nonempty
      · rw [flatten_splitParts valid.tiles]
        exact ingested
    have sent := sendFragments_remembers sends (state.cacheRepairFragments
      (reads (.cache 0)).now sequence (sends.map fun send => ⟨send.packet, send.payloadLen⟩))
    have known := sent.ingested
    rw [ingestedPayloads_cacheRepairFragments] at known
    have isRescued := (cached.remembers sent).sendRescue (known ingested) isRescued
    exact isRescued.remembers (recordFec_remembers recorded)

theorem CachesIngested.sendWhole (caches : CachesIngested state)
    (ingested : (sequence, payload) ∈ ingestedPayloads state.trace)
    (sent : sendWhole config reads sequence payload state = some next) :
    CachesIngested next := by
  rw [Client.sendWhole] at sent
  dsimp only at sent
  split at sent
  · cases sent
  · rename_i packet encoded
    have cached := caches.cacheWhole (reads (.cache 0)).now encoded payload.length ingested
    split at sent
    · rcases Option.bind_eq_some_iff.mp sent with ⟨path, -, recorded⟩
      have onPath := cached.remembers (sendOnPaths_remembers packet [path] _)
      exact onPath.remembers (recordFec_remembers recorded)
    · have onPaths := cached.remembers (sendOnPaths_remembers packet (activePaths config reads) _)
      exact onPaths.remembers (recordFec_remembers sent)

variable [Measure Weight] [Widen Rate Weight] [WeightShare Weight]

theorem CachesIngested.sendMpegTsChunks {chunks : List Bytes} (caches : CachesIngested state)
    (sent : sendMpegTsChunks config reads chunks state = some next) :
    CachesIngested next := by
  rw [sendMpegTsChunks_eq_plan] at sent
  apply ListLoops.foldlM_invariant _ sent caches
  intro send _ state next stepped caches
  exact caches.sendChunk stepped

/-- The ranges that `send_packet` finds are those of a split; without a path
there are none. -/
theorem packetSplitRanges_valid {ranges : List SplitRange}
    (split : shouldSplit payload.length config.splitThresholdBytes config.mtu
      (packetSplitPaths config reads).length (readMode reads) (readEffective reads) = true)
    (found : packetSplitRanges payload.length
      (splitPathWeights reads (packetSplitPaths config reads)) config.mtu = some ranges) :
    ranges = [] ∨
      ValidSplit payload.length (packetSplitPaths config reads).length config.mtu ranges := by
  by_cases onNone : packetSplitPaths config reads = []
  · left
    rw [splitPathWeights_eq_nil config reads onNone] at found
    rw [onNone] at split
    exact packetSplitRanges_nil (exceeds_of_shouldSplit split) found
  · right
    have valid := validSplit_of_packetSplitRanges (splitPathWeights_ne_nil reads onNone)
      (length_packetSplitWeights_le config reads) config.mtu_pos found
    rw [length_splitPathWeights] at valid
    exact valid

theorem CachesIngested.sendPacket (caches : CachesIngested state)
    (ingested : (sequence, payload) ∈ ingestedPayloads state.trace)
    (sent : sendPacket config reads payload sequence state = some next) :
    CachesIngested next := by
  rw [Client.sendPacket] at sent
  dsimp only at sent
  split at sent
  · cases sent
    exact caches
  split at sent
  · rename_i split
    split at sent
    · cases sent
      exact caches.remembers (emit_remembers _ _)
    · rename_i ranges found
      exact caches.sendSplit ingested (packetSplitRanges_valid split found) sent
  · exact caches.sendWhole ingested sent

theorem CachesIngested.sendPayload (caches : CachesIngested state)
    (sent : sendPayload config reads payload state = some next) : CachesIngested next := by
  rw [Client.sendPayload] at sent
  split at sent
  · exact caches.sendMpegTsChunks sent
  · rcases Option.map_eq_some_iff.mp sent with ⟨last, packetSent, rfl⟩
    have ingested := caches.remembers (emit_remembers (.ingested state.seq payload) state)
    have result : CachesIngested last :=
      ingested.sendPacket (mem_ingestedPayloads_emit state.seq payload state)
        packetSent
    exact result

end Branches

/-! ## Runs -/

theorem answerRepair_remembers {config : SendConfig} {request : RepairRequest} {now : Instant}
    {connected : Nat → PathConnection → Bool}
    (answered : answerRepair config request now connected state = some next) :
    Remembers state next := by
  rcases Option.map_eq_some_iff.mp answered with ⟨⟨fragments, repairCache⟩, answers, rfl⟩
  have resend : ∀ (indexed : List (CachedFragment × Nat)) (state : ClientState),
      Remembers state (indexed.foldl
        (fun state item =>
          state.sendOnPaths item.1.packet (config.paths.filter (connected item.2))) state) := by
    intro indexed
    induction indexed with
    | nil => exact .refl
    | cons item rest induction =>
        exact fun state => (sendOnPaths_remembers _ _ state).trans (induction _)
  have asked : Remembers state { state with repairCache := repairCache } :=
    ⟨RepairCache.getElem?_of_fragmentsFor answers, List.Subset.refl _⟩
  exact asked.trans (resend fragments.zipIdx _)

variable {Rate Weight : Type} [Measure Rate] [Measure Weight] [Widen Rate Weight]
variable [WeightShare Weight] {config : SendConfig} {fec : FecEncoder} {ttl : Duration}
variable {maxPackets : Nat} {events : List (ClientEvent Rate Weight)} {final : ClientState}

theorem CachesIngested.clientStep {event : ClientEvent Rate Weight}
    (caches : CachesIngested state) (stepped : clientStep config state event = some next) :
    CachesIngested next := by
  cases event with
  | ingest payload reads => exact caches.sendPayload stepped
  | repair request now connected => exact caches.remembers (answerRepair_remembers stepped)

/-- In every run the cache holds nothing but splits of ingested payloads. -/
theorem clientRun_cachesIngested
    (ran : clientRun config fec (.new ttl maxPackets) events = some final) :
    CachesIngested final := by
  apply ListLoops.foldlM_invariant _ ran (.start fec ttl maxPackets)
  intro event _ state next stepped caches
  exact caches.clientStep stepped

/-- In every run an answer that is not empty holds the requested parts of a
payload that was ingested under the requested sequence, and no other. -/
theorem clientRun_answers (ran : clientRun config fec (.new ttl maxPackets) events = some final)
    {request : RepairRequest} {now : Instant} {answered : List CachedFragment}
    {rest : RepairCache}
    (answers : final.repairCache.fragmentsFor now request = some (answered, rest))
    (nonempty : answered ≠ []) :
    ∃ parts : List Bytes, final.repairCache.Caches request.sequence parts ∧
      (request.sequence, parts.flatten) ∈ ingestedPayloads final.trace ∧
      ∀ packet, packet ∈ answered.map CachedFragment.packet ↔
        ∃ index, (partPackets request.sequence parts)[index]? = some packet ∧
          (parts.length = 1 ∨ request.missingMask.testBit index = true) := by
  rcases RepairCache.exists_entry_of_answer answers nonempty with ⟨entry, found⟩
  rcases clientRun_cachesIngested ran request.sequence entry found with ⟨parts, cached, ingested⟩
  exact ⟨parts, cached, ingested, cached.mem_answered answers nonempty⟩

end Irohsion.Client
