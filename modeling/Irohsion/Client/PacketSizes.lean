import Irohsion.Client.CachedPayloads
import Irohsion.Client.ChunkNumbering

/-! # Sizes of media packets

Whole packets, fragments and rescue copies stay within the MTU. A chunk of a
transport stream is sent in one packet whatever its size, so the limit is kept
exactly as long as no call sends chunks that are longer than the MTU.
-/

namespace Irohsion.Client

open Protocol

/-- The payload bytes of a packet. -/
def carriedBytes (packet : Bytes) : Nat := packet.length - headerLen

@[simp] theorem carriedBytes_packetBytes (header : PacketHeader) (payload : Bytes) :
    carriedBytes (packetBytes header payload) = payload.length := by
  simp [carriedBytes, packetBytes]

/-! ## Packets that a stretch of the loop hands out -/

/-- Only such packets are sent to paths or put into the cache. -/
def ClientEffect.HandsOut (Allowed : Bytes → Prop) : ClientEffect → Prop
  | .send _ packet => Allowed packet
  | .cache _ fragments => ∀ fragment ∈ fragments, Allowed fragment.packet
  | .ingested _ _ | .sendFec _ _ | .splitRefused _ _ => True

/-- The stretch adds effects that hand out such packets, and caches no others. -/
structure HandsOut (Allowed : Bytes → Prop) (before after : ClientState) : Prop where
  effects : ∃ added, after.trace = before.trace ++ added ∧
    ∀ effect ∈ added, effect.HandsOut Allowed
  held : before.repairCache.Holds (fun _ => Allowed) → after.repairCache.Holds fun _ => Allowed

variable {Allowed : Bytes → Prop} {before middle after state next : ClientState}

theorem HandsOut.refl (state : ClientState) : HandsOut Allowed state state :=
  ⟨⟨[], (List.append_nil _).symm, nofun⟩, id⟩

theorem HandsOut.trans (earlier : HandsOut Allowed before middle)
    (later : HandsOut Allowed middle after) : HandsOut Allowed before after := by
  rcases earlier.effects with ⟨first, firstTrace, firstAllowed⟩
  rcases later.effects with ⟨second, secondTrace, secondAllowed⟩
  refine ⟨⟨first ++ second, ?_, ?_⟩, later.held ∘ earlier.held⟩
  · rw [secondTrace, firstTrace, List.append_assoc]
  · exact List.forall_mem_append.mpr ⟨firstAllowed, secondAllowed⟩

/-! ## The operations of the loop -/

theorem emit_handsOut (effect : ClientEffect) (allowed : effect.HandsOut Allowed)
    (state : ClientState) : HandsOut Allowed state (state.emit effect) := by
  refine ⟨⟨[effect], rfl, ?_⟩, id⟩
  intro other member
  rw [List.mem_singleton.mp member]
  exact allowed

/-- Taking a payload in hands nothing out. -/
theorem ingested_handsOut (Allowed : Bytes → Prop) (sequence : Nat) (payload : Bytes)
    (state : ClientState) : HandsOut Allowed state (state.emit (.ingested sequence payload)) :=
  emit_handsOut _ (by trivial) state

theorem sendOnPaths_handsOut {packet : Bytes} (allowed : Allowed packet)
    (paths : List PathConnection) (state : ClientState) :
    HandsOut Allowed state (state.sendOnPaths packet paths) := by
  induction paths generalizing state with
  | nil => exact .refl state
  | cons path rest induction =>
      have first : HandsOut Allowed state (state.sendOnPath packet path) :=
        emit_handsOut (.send path packet) allowed state
      exact first.trans (induction _)

theorem sendFragments_handsOut {sends : List FragmentSend}
    (allowed : ∀ send ∈ sends, Allowed send.packet) (state : ClientState) :
    HandsOut Allowed state
      (sends.foldl (fun state send => state.sendOnPath send.packet send.path) state) := by
  induction sends generalizing state with
  | nil => exact .refl state
  | cons send rest induction =>
      have first : HandsOut Allowed state (state.sendOnPath send.packet send.path) :=
        emit_handsOut (.send send.path send.packet) (allowed send List.mem_cons_self) state
      exact first.trans (induction (fun other member =>
        allowed other (List.mem_cons_of_mem _ member)) _)

theorem cacheRepairFragments_handsOut (now : Instant) (sequence : Nat)
    {fragments : List CachedFragment} (few : fragments.length ≤ maxFragments)
    (allowed : ∀ fragment ∈ fragments, Allowed fragment.packet) (state : ClientState) :
    HandsOut Allowed state (state.cacheRepairFragments now sequence fragments) := by
  have effect : ClientEffect.HandsOut Allowed (.cache sequence fragments) := allowed
  exact ⟨(emit_handsOut _ effect state).effects, fun held => held.insert now few allowed⟩

theorem cacheWhole_handsOut (now : Instant) (sequence payloadLen : Nat) {packet : Bytes}
    (allowed : Allowed packet) (state : ClientState) :
    HandsOut Allowed state (state.cacheRepairFragments now sequence [⟨packet, payloadLen⟩]) := by
  have few : [(⟨packet, payloadLen⟩ : CachedFragment)].length ≤ maxFragments :=
    one_le_maxFragments
  apply cacheRepairFragments_handsOut now sequence few
  intro fragment member
  rw [List.mem_singleton.mp member]
  exact allowed

section Branches

variable {Rate Weight : Type} [Measure Rate] {config : SendConfig} {reads : Reads Rate Weight}
variable {sequence : Nat} {payload : Bytes}

theorem recordFec_handsOut {index : Nat}
    (recorded : recordFec config reads index sequence payload state = some next) :
    HandsOut Allowed state next := by
  rcases Option.map_eq_some_iff.mp recorded with ⟨result, -, rfl⟩
  refine ⟨⟨_, rfl, ?_⟩, id⟩
  intro effect member
  rcases List.mem_flatMap.mp member with ⟨frame, _, sends⟩
  rcases List.mem_map.mp sends with ⟨path, _, rfl⟩
  trivial

/-- A packet of one fragment carries its whole payload. -/
theorem allowed_of_single (allowed : ∀ header, Allowed (packetBytes header payload))
    {packet : Bytes} (encoded : singleFragmentPacket sequence payload = some packet) :
    Allowed packet := by
  rw [singleFragmentPacket, encodePacket] at encoded
  split at encoded
  · cases encoded
    exact allowed _
  · cases encoded

theorem sendChunk_handsOut {index : Nat} {paths : List PathConnection} {chunk : Bytes}
    (allowed : ∀ header, Allowed (packetBytes header chunk))
    (sent : sendChunk config reads index paths chunk state = some next) :
    HandsOut Allowed state next := by
  rw [sendChunk] at sent
  dsimp only at sent
  split at sent
  · cases sent
  · rename_i packet encoded
    rcases Option.map_eq_some_iff.mp sent with ⟨recorded, isRecorded, rfl⟩
    have fits := allowed_of_single allowed encoded
    have ingested := ingested_handsOut Allowed state.seq chunk state
    have cached := ingested.trans
      (cacheWhole_handsOut (reads (.cache index)).now state.seq chunk.length fits _)
    have onPaths := cached.trans (sendOnPaths_handsOut fits paths _)
    have all := onPaths.trans (recordFec_handsOut isRecorded)
    exact ⟨all.effects, all.held⟩

theorem sendRescue_handsOut (allowed : packetExceedsMtu payload.length config.mtu = false →
      ∀ header, Allowed (packetBytes header payload))
    (rescued : sendRescue config reads sequence payload state = some next) :
    HandsOut Allowed state next := by
  rw [sendRescue] at rescued
  split at rescued
  · rename_i copied
    rw [Bool.and_eq_true, Bool.not_eq_true', Bool.not_eq_true'] at copied
    rcases Option.map_eq_some_iff.mp rescued with ⟨packet, encoded, rfl⟩
    have fits := allowed_of_single (allowed copied.2) encoded
    exact (cacheWhole_handsOut _ _ _ fits state).trans (sendOnPaths_handsOut fits _ _)
  · cases rescued
    exact .refl state

theorem sendWhole_handsOut (allowed : ∀ header, Allowed (packetBytes header payload))
    (sent : sendWhole config reads sequence payload state = some next) :
    HandsOut Allowed state next := by
  rw [sendWhole] at sent
  dsimp only at sent
  split at sent
  · cases sent
  · rename_i packet encoded
    have fits := allowed_of_single allowed encoded
    have cached := cacheWhole_handsOut (reads (.cache 0)).now sequence payload.length fits state
    split at sent
    · rcases Option.bind_eq_some_iff.mp sent with ⟨path, -, recorded⟩
      have onPath := cached.trans (sendOnPaths_handsOut fits [path] _)
      exact onPath.trans (recordFec_handsOut recorded)
    · have onPaths := cached.trans (sendOnPaths_handsOut fits (activePaths config reads) _)
      exact onPaths.trans (recordFec_handsOut sent)

theorem sendSplit_handsOut {ranges : List SplitRange} (few : ranges.length ≤ maxFragments)
    (parts : ∀ part ∈ splitParts payload ranges, ∀ header, Allowed (packetBytes header part))
    (whole : packetExceedsMtu payload.length config.mtu = false →
      ∀ header, Allowed (packetBytes header payload))
    (sent : sendSplit config reads sequence payload ranges state = some next) :
    HandsOut Allowed state next := by
  rw [sendSplit] at sent
  split at sent
  · cases sent
  · rename_i sends fragmented
    dsimp only at sent
    rcases Option.bind_eq_some_iff.mp sent with ⟨rescued, isRescued, recorded⟩
    have packets := map_packet_fragmentSends fragmented
    have count := congrArg List.length packets
    rw [List.length_map, partPackets, List.length_mapIdx, splitParts, List.length_map] at count
    have allowed : ∀ send ∈ sends, Allowed send.packet := by
      intro send member
      have isPart : send.packet ∈ partPackets sequence (splitParts payload ranges) := by
        rw [← packets]
        exact List.mem_map_of_mem member
      rcases List.mem_mapIdx.mp isPart with ⟨index, bound, same⟩
      rw [← same]
      exact parts _ (List.getElem_mem bound) _
    have cached : HandsOut Allowed state (state.cacheRepairFragments (reads (.cache 0)).now
        sequence (sends.map fun send => ⟨send.packet, send.payloadLen⟩)) := by
      apply cacheRepairFragments_handsOut
      · rw [List.length_map, count]
        exact few
      · intro fragment member
        rcases List.mem_map.mp member with ⟨send, isSend, rfl⟩
        exact allowed send isSend
    have onPaths := cached.trans (sendFragments_handsOut allowed _)
    exact (onPaths.trans (sendRescue_handsOut whole isRescued)).trans
      (recordFec_handsOut recorded)

variable [Measure Weight] [Widen Rate Weight] [WeightShare Weight]

/-- The pieces of a split are no longer than the MTU. -/
theorem length_splitParts_le {maxPayload pathCount : Nat} (mtu : config.mtu = some maxPayload)
    {ranges : List SplitRange} (valid : ValidSplit payload.length pathCount config.mtu ranges)
    {part : Bytes} (member : part ∈ splitParts payload ranges) : part.length ≤ maxPayload := by
  rcases List.mem_map.mp member with ⟨range, isRange, rfl⟩
  have short : (range.span.slice payload).length ≤ range.span.length := by
    rw [Span.slice, List.length_take]
    exact Nat.min_le_left _ _
  apply Nat.le_trans short
  by_cases exceeds : maxPayload < payload.length
  · exact valid.withinMtu maxPayload mtu exceeds range isRange
  · have inside := valid.tiles.bounds (List.mem_map_of_mem isRange)
    rw [Span.length]
    omega

theorem sendPacket_handsOut {maxPayload : Nat} (mtu : config.mtu = some maxPayload)
    (small : ∀ part : Bytes, part.length ≤ maxPayload →
      ∀ header, Allowed (packetBytes header part))
    (sent : sendPacket config reads payload sequence state = some next) :
    HandsOut Allowed state next := by
  have whole : packetExceedsMtu payload.length config.mtu = false →
      ∀ header, Allowed (packetBytes header payload) := by
    intro fits
    apply small
    rw [mtu, packetExceedsMtu, Option.any_some, decide_eq_false_iff_not] at fits
    exact Nat.le_of_not_lt fits
  rw [sendPacket] at sent
  dsimp only at sent
  split at sent
  · cases sent
    exact .refl state
  split at sent
  · rename_i split
    split at sent
    · cases sent
      exact emit_handsOut _ (by trivial) state
    · rename_i ranges found
      rcases packetSplitRanges_valid split found with rfl | valid
      · have noPart : ∀ part ∈ splitParts payload [], ∀ header,
            Allowed (packetBytes header part) := by
          intro part member
          cases member
        exact sendSplit_handsOut (Nat.zero_le _) noPart whole sent
      · exact sendSplit_handsOut valid.count
          (fun part member => small part (length_splitParts_le mtu valid member)) whole sent
  · rename_i unsplit
    have fits : packetExceedsMtu payload.length config.mtu = false := by
      rw [← Bool.not_eq_true]
      intro exceeds
      exact unsplit (shouldSplit_of_exceeds exceeds _ _ _ _)
    exact sendWhole_handsOut (whole fits) sent

theorem sendMpegTsChunks_handsOut {pieces : List Bytes}
    (chunks : chunkPaths config reads ≠ [] →
      ∀ chunk ∈ pieces, ∀ header, Allowed (packetBytes header chunk))
    (sent : sendMpegTsChunks config reads pieces state = some next) :
    HandsOut Allowed state next := by
  rw [sendMpegTsChunks_eq_plan] at sent
  by_cases selected : chunkPaths config reads = []
  · rw [chunkPlan_eq_nil selected] at sent
    cases sent
    exact .refl state
  · have planned := map_chunk_chunkPlan selected pieces
    apply ListLoops.foldlM_invariant _ sent (HandsOut.refl state)
    intro send isSend middle other stepped sofar
    have isChunk : send.chunk ∈ pieces := by
      rw [← planned]
      exact List.mem_map_of_mem isSend
    exact sofar.trans (sendChunk_handsOut (chunks selected send.chunk isChunk) stepped)

/-- What one call hands out, when its chunks and all short pieces are allowed. -/
theorem sendPayload_handsOut {maxPayload : Nat} (mtu : config.mtu = some maxPayload)
    (small : ∀ part : Bytes, part.length ≤ maxPayload →
      ∀ header, Allowed (packetBytes header part))
    (chunks : ∀ pieces, mpegTsChunks config payload = some pieces →
      chunkPaths config reads ≠ [] →
      ∀ chunk ∈ pieces, ∀ header, Allowed (packetBytes header chunk))
    (sent : sendPayload config reads payload state = some next) :
    HandsOut Allowed state next := by
  rw [sendPayload] at sent
  split at sent
  · rename_i pieces cut
    exact sendMpegTsChunks_handsOut (chunks pieces cut) sent
  · rcases Option.map_eq_some_iff.mp sent with ⟨packet, isSent, rfl⟩
    have ingested := ingested_handsOut Allowed state.seq payload state
    have all := ingested.trans (sendPacket_handsOut mtu small isSent)
    exact ⟨all.effects, all.held⟩

end Branches

/-- An answer hands out what the cache holds. -/
theorem answerRepair_handsOut {config : SendConfig} {request : RepairRequest} {now : Instant}
    {connected : Nat → PathConnection → Bool}
    (held : state.repairCache.Holds fun _ => Allowed)
    (answered : answerRepair config request now connected state = some next) :
    HandsOut Allowed state next := by
  rcases held.fragmentsFor now request with ⟨fragments, repairCache, answers, nextHeld, allowed⟩
  have resend : ∀ (indexed : List (CachedFragment × Nat)) (before : ClientState),
      (∀ item ∈ indexed, Allowed item.1.packet) →
      HandsOut Allowed before (indexed.foldl
        (fun state item =>
          state.sendOnPaths item.1.packet (config.paths.filter (connected item.2))) before) := by
    intro indexed
    induction indexed with
    | nil => exact fun before _ => .refl before
    | cons item rest induction =>
        intro before allowed
        have first := sendOnPaths_handsOut (allowed item List.mem_cons_self)
          (config.paths.filter (connected item.2)) before
        exact first.trans (induction _ fun other member =>
          allowed other (List.mem_cons_of_mem _ member))
  rw [answerRepair, answers] at answered
  cases answered
  have asked : HandsOut Allowed state { state with repairCache := repairCache } :=
    ⟨(HandsOut.refl state).effects, fun _ => nextHeld⟩
  exact asked.trans (resend fragments.zipIdx _ fun item member =>
    allowed item.1 (List.fst_mem_of_mem_zipIdx member))

/-! ## The limit -/

def FitsMtu (maxPayload : Nat) (packet : Bytes) : Prop := carriedBytes packet ≤ maxPayload

/-- No packet above the limit has been sent or cached. -/
structure WithinMtu (maxPayload : Nat) (state : ClientState) : Prop where
  effects : ∀ effect ∈ state.trace, effect.HandsOut (FitsMtu maxPayload)
  held : state.repairCache.Holds fun _ => FitsMtu maxPayload

theorem WithinMtu.handsOut {maxPayload : Nat} (within : WithinMtu maxPayload state)
    (stretch : HandsOut (FitsMtu maxPayload) state next) : WithinMtu maxPayload next := by
  rcases stretch.effects with ⟨added, traced, allowed⟩
  refine ⟨?_, stretch.held within.held⟩
  rw [traced]
  exact List.forall_mem_append.mpr ⟨within.effects, allowed⟩

theorem WithinMtu.sent {maxPayload : Nat} (within : WithinMtu maxPayload state)
    {sent : PathConnection × Bytes} (member : sent ∈ sentPackets state.trace) :
    FitsMtu maxPayload sent.2 := by
  rcases List.mem_filterMap.mp member with ⟨effect, isEffect, same⟩
  have allowed := within.effects effect isEffect
  cases effect with
  | send path packet =>
      cases same
      exact allowed
  | ingested _ _ | sendFec _ _ | cache _ _ | splitRefused _ _ => cases same

theorem WithinMtu.start (maxPayload : Nat) (fec : FecEncoder) (ttl : Duration)
    (maxPackets : Nat) : WithinMtu maxPayload ⟨0, fec, .new ttl maxPackets, []⟩ :=
  ⟨nofun, .new ttl maxPackets⟩

/-- A chunk is no longer than the chunk size, and some chunk is as long. -/
theorem length_chunks {size : Nat} (positive : 0 < size) {payload : Bytes}
    (long : size < payload.length) :
    (∀ chunk ∈ chunks size payload, chunk.length ≤ size) ∧
      ∃ chunk ∈ chunks size payload, chunk.length = size := by
  have lengths : ∀ span ∈ mtuChunks payload.length size,
      (span.slice payload).length = span.length := by
    intro span isSpan
    have inside := (mtuChunks_tiles payload.length positive).bounds isSpan
    rw [Span.slice, List.length_take, List.length_drop, Span.length]
    omega
  constructor
  · intro chunk member
    rcases List.mem_map.mp member with ⟨span, isSpan, rfl⟩
    rw [lengths span isSpan]
    exact (mtuChunks_bounded positive isSpan).2
  · have first : (⟨0 * size, min (0 * size + size) payload.length⟩ : Span) ∈
        mtuChunks payload.length size := by
      apply List.mem_map_of_mem
      rw [List.mem_range, Nat.lt_div_iff_mul_lt positive]
      omega
    refine ⟨_, List.mem_map_of_mem first, ?_⟩
    rw [lengths _ first, Span.length]
    simp only [Nat.zero_mul, Nat.zero_add, Nat.sub_zero]
    exact Nat.min_eq_left (Nat.le_of_lt long)

section Runs

variable {Rate Weight : Type} [Measure Rate] {config : SendConfig} {reads : Reads Rate Weight}
variable {payload : Bytes} {maxPayload : Nat}

/-- The payload is cut into chunks that are longer than the limit, and some path
takes them. -/
def OversizedChunks (maxPayload : Nat) (config : SendConfig) (reads : Reads Rate Weight)
    (payload : Bytes) : Prop :=
  ∃ chunkBytes, config.mpegTsChunkBytes = some chunkBytes ∧ maxPayload < chunkBytes ∧
    chunkBytes < payload.length ∧ isMpegTsPayload payload = true ∧ chunkPaths config reads ≠ []

def ClientEvent.Oversized (maxPayload : Nat) (config : SendConfig) :
    ClientEvent Rate Weight → Prop
  | .ingest payload reads => OversizedChunks maxPayload config reads payload
  | .repair _ _ _ => False

variable [Measure Weight] [Widen Rate Weight] [WeightShare Weight]

theorem sendPayload_fits (mtu : config.mtu = some maxPayload)
    (fits : ¬ OversizedChunks maxPayload config reads payload)
    (sent : sendPayload config reads payload state = some next) :
    HandsOut (FitsMtu maxPayload) state next := by
  apply sendPayload_handsOut mtu _ _ sent
  · intro part short header
    rw [FitsMtu, carriedBytes_packetBytes]
    exact short
  · intro pieces cut selected chunk member header
    rcases mpegTsChunks_eq_some cut with ⟨size, isSize, long, stream, rfl⟩
    have short := (length_chunks (config.chunk_valid size isSize).1 long).1 chunk member
    rw [FitsMtu, carriedBytes_packetBytes]
    apply Nat.le_trans short
    exact Nat.le_of_not_lt fun oversized =>
      fits ⟨size, isSize, oversized, long, stream, selected⟩

omit [Measure Rate] [Measure Weight] [Widen Rate Weight] [WeightShare Weight] in
/-- Each assigned chunk is sent to each of its paths. -/
theorem mem_numberedEffects {assigned : List (Bytes × List PathConnection)}
    {send : Bytes × List PathConnection} (member : send ∈ assigned) {path : PathConnection}
    (isPath : path ∈ send.2) (sequence : Nat) :
    ∃ header, ClientEffect.send path (packetBytes header send.1) ∈
      numberedEffects sequence assigned := by
  induction assigned generalizing sequence with
  | nil => cases member
  | cons head rest induction =>
      rw [numberedEffects]
      cases member with
      | head =>
          exact ⟨_, List.mem_append_left _ (List.mem_append_right _
            (List.mem_map_of_mem isPath))⟩
      | tail _ member =>
          rcases induction member (nextSequence sequence) with ⟨header, sends⟩
          exact ⟨header, List.mem_append_right _ sends⟩

/-- A call with oversized chunks sends one of them. -/
theorem sendPayload_oversized (gathering : state.fec.Gathering)
    (media : state.seq ≤ maxMediaSequence)
    (oversized : OversizedChunks maxPayload config reads payload)
    (sent : sendPayload config reads payload state = some next)
    {added : List ClientEffect} (traced : next.trace = state.trace ++ added) :
    ∃ path packet, ClientEffect.send path packet ∈ added ∧ ¬ FitsMtu maxPayload packet := by
  rcases oversized with ⟨size, isSize, above, long, stream, selected⟩
  rw [sendPayload, mpegTsChunks_of_stream isSize long stream] at sent
  rcases sendMpegTsChunks_numbers selected gathering media (chunks size payload) with
    ⟨other, otherSent, numbering⟩
  cases otherSent.symm.trans sent
  rcases numbering.effects with ⟨assigned, pieces, onPaths, effects⟩
  rcases (length_chunks (config.chunk_valid size isSize).1 long).2 with ⟨chunk, isChunk, length⟩
  rw [← pieces] at isChunk
  rcases List.mem_map.mp isChunk with ⟨send, isSend, rfl⟩
  rcases List.exists_mem_of_ne_nil _ (onPaths send isSend).1 with ⟨path, isPath⟩
  rcases mem_numberedEffects isSend isPath state.seq with ⟨header, sends⟩
  rw [traced, mediaEffects_append, List.append_cancel_left_eq] at effects
  rw [← effects] at sends
  refine ⟨path, _, List.mem_of_mem_filter sends, ?_⟩
  rw [FitsMtu, carriedBytes_packetBytes, length]
  exact Nat.not_le.mpr above

theorem sendPayload_adds (mtu : config.mtu = some maxPayload)
    (sent : sendPayload config reads payload state = some next) :
    ∃ added, next.trace = state.trace ++ added := by
  have anything : HandsOut (fun _ => True) state next :=
    sendPayload_handsOut mtu (fun _ _ _ => trivial) (fun _ _ _ _ _ _ => trivial) sent
  rcases anything.effects with ⟨added, traced, _⟩
  exact ⟨added, traced⟩

/-- One call keeps the limit exactly when it sends no oversized chunks. -/
theorem sendPayload_fits_iff (mtu : config.mtu = some maxPayload)
    (gathering : state.fec.Gathering) (media : state.seq ≤ maxMediaSequence)
    (sent : sendPayload config reads payload state = some next)
    {added : List ClientEffect} (traced : next.trace = state.trace ++ added) :
    (∀ effect ∈ added, effect.HandsOut (FitsMtu maxPayload)) ↔
      ¬ OversizedChunks maxPayload config reads payload := by
  constructor
  · intro fits oversized
    rcases sendPayload_oversized gathering media oversized sent traced with
      ⟨path, packet, isAdded, above⟩
    exact above (fits _ isAdded)
  · intro fits
    rcases (sendPayload_fits mtu fits sent).effects with ⟨others, sameTrace, allowed⟩
    rw [traced, List.append_cancel_left_eq] at sameTrace
    rw [sameTrace]
    exact allowed

variable {shipments : List Shipment}

theorem clientStep_mtu (mtu : config.mtu = some maxPayload) (shipped : Shipped shipments state)
    (event : ClientEvent Rate Weight) :
    ∃ used next, clientStep config state event = some next ∧
      Shipped (shipments ++ used) next ∧
      sentPackets state.trace ⊆ sentPackets next.trace ∧
      (WithinMtu maxPayload state → ¬ event.Oversized maxPayload config →
        WithinMtu maxPayload next) ∧
      (event.Oversized maxPayload config →
        ∃ sent ∈ sentPackets next.trace, ¬ FitsMtu maxPayload sent.2) := by
  cases event with
  | ingest payload reads =>
      rcases sendPayload_spec config reads shipped.faithful shipped.media payload with
        ⟨used, packets, next, sent, progress, _⟩
      refine ⟨used, next, sent, shipped.progress progress, ?_, ?_, ?_⟩
      · rw [progress.sent]
        exact List.subset_append_left _ _
      · exact fun within fits => within.handsOut (sendPayload_fits mtu fits sent)
      · intro oversized
        rcases sendPayload_adds mtu sent with ⟨added, traced⟩
        rcases sendPayload_oversized shipped.faithful.gathering shipped.media oversized sent
          traced with ⟨path, packet, isAdded, above⟩
        refine ⟨(path, packet), ?_, above⟩
        rw [traced, sentPackets_append]
        exact List.mem_append_right _ (List.mem_filterMap.mpr ⟨_, isAdded, rfl⟩)
  | repair request now connected =>
      rcases answerRepair_progress config shipped.faithful request now connected with
        ⟨packets, next, answered, progress⟩
      refine ⟨[], next, answered, shipped.progress progress, ?_, ?_, False.elim⟩
      · rw [progress.sent]
        exact List.subset_append_left _ _
      · exact fun within _ => within.handsOut (answerRepair_handsOut within.held answered)

theorem foldlM_clientStep_mtu (mtu : config.mtu = some maxPayload)
    (shipped : Shipped shipments state) (events : List (ClientEvent Rate Weight)) :
    ∃ used final, events.foldlM (clientStep config) state = some final ∧
      Shipped (shipments ++ used) final ∧
      sentPackets state.trace ⊆ sentPackets final.trace ∧
      (WithinMtu maxPayload state → (∀ event ∈ events, ¬ event.Oversized maxPayload config) →
        WithinMtu maxPayload final) ∧
      ((∃ event ∈ events, event.Oversized maxPayload config) →
        ∃ sent ∈ sentPackets final.trace, ¬ FitsMtu maxPayload sent.2) := by
  induction events generalizing shipments state with
  | nil =>
      refine ⟨[], state, rfl, ?_, List.Subset.refl _, fun within _ => within, by simp⟩
      rw [List.append_nil]
      exact shipped
  | cons event rest induction =>
      rcases clientStep_mtu mtu shipped event with
        ⟨used, next, stepped, nextShipped, kept, fits, exceeds⟩
      rcases induction nextShipped with
        ⟨more, final, finished, finalShipped, laterKept, laterFits, laterExceeds⟩
      refine ⟨used ++ more, final, ?_, ?_, List.Subset.trans kept laterKept, ?_, ?_⟩
      · rw [List.foldlM_cons, stepped]
        exact finished
      · rw [← List.append_assoc]
        exact finalShipped
      · intro within allFit
        rw [List.forall_mem_cons] at allFit
        exact laterFits (fits within allFit.1) allFit.2
      · intro oversized
        rcases oversized with ⟨other, member, oversized⟩
        cases member with
        | head =>
            rcases exceeds oversized with ⟨sent, isSent, above⟩
            exact ⟨sent, laterKept isSent, above⟩
        | tail _ member => exact laterExceeds ⟨other, member, oversized⟩

end Runs

/-- A run keeps the MTU exactly when no call of it sends chunks that are longer,
and so does every further call. -/
theorem mtu_kept_iff {Rate Weight : Type} [Measure Rate] [Measure Weight] [Widen Rate Weight]
    [WeightShare Weight] {config : SendConfig} {maxPayload : Nat}
    (mtu : config.mtu = some maxPayload) {disabled : Bool} {groupSize : Nat} {fec : FecEncoder}
    (created : FecEncoder.new disabled groupSize config.mtu = .ok fec) (ttl : Duration)
    (maxPackets : Nat) (events : List (ClientEvent Rate Weight)) :
    ∃ final, clientRun config fec (.new ttl maxPackets) events = some final ∧
      (WithinMtu maxPayload final ↔
        ∀ event ∈ events, ¬ event.Oversized maxPayload config) ∧
      ∀ (payload : Bytes) (reads : Reads Rate Weight),
        ∃ next added, sendPayload config reads payload final = some next ∧
          next.trace = final.trace ++ added ∧
          ((∀ effect ∈ added, effect.HandsOut (FitsMtu maxPayload)) ↔
            ¬ OversizedChunks maxPayload config reads payload) := by
  rcases foldlM_clientStep_mtu mtu (.start created ttl maxPackets) events with
    ⟨used, final, finished, shipped, _, fits, exceeds⟩
  refine ⟨final, finished, ?_, ?_⟩
  · constructor
    · intro within event member oversized
      rcases exceeds ⟨event, member, oversized⟩ with ⟨sent, isSent, above⟩
      exact above (within.sent isSent)
    · exact fits (.start maxPayload fec ttl maxPackets)
  · intro payload reads
    rcases sendPayload_spec config reads shipped.faithful shipped.media payload with
      ⟨_, _, next, sent, _⟩
    rcases sendPayload_adds mtu sent with ⟨added, traced⟩
    exact ⟨next, added, sent, traced,
      sendPayload_fits_iff mtu shipped.faithful.gathering shipped.media sent traced⟩

theorem oversizedChunks_two_packets :
    OversizedChunks 100 twoPathConfig (startReads .redundant) (List.replicate 376 0x47) := by
  have long : 188 < (List.replicate 376 (0x47 : UInt8)).length := by
    rw [List.length_replicate]
    decide
  have stream : isMpegTsPayload (List.replicate 376 0x47) = true :=
    isMpegTsPayload_sync (Nat.zero_lt_succ 375) (by decide)
  exact ⟨188, rfl, by decide, long, stream, by decide⟩

/-- Two transport packets are sent in chunks of 188 bytes under an MTU of 100. -/
theorem mtu_exceeded_two_packets :
    twoPathConfig.mtu = some 100 ∧
      clientRun twoPathConfig startSender.fec startSender.repairCache
        ([] : List (ClientEvent Float32 Float)) = some startSender ∧
      ∃ next sent, sendPayload twoPathConfig (startReads .redundant) (List.replicate 376 0x47)
          startSender = some next ∧
        sent ∈ newSends startSender next ∧ 100 < carriedBytes sent.2 := by
  have created : FecEncoder.new false 0 twoPathConfig.mtu = .ok startSender.fec := rfl
  have shipped : Shipped [] startSender := .start created 1000 8
  rcases sendPayload_spec twoPathConfig (startReads .redundant) shipped.faithful shipped.media
    (List.replicate 376 0x47) with ⟨_, _, next, sent, _⟩
  rcases sendPayload_adds rfl sent with ⟨added, traced⟩
  rcases sendPayload_oversized shipped.faithful.gathering shipped.media
    oversizedChunks_two_packets sent traced with ⟨path, packet, isAdded, above⟩
  refine ⟨rfl, rfl, next, (path, packet), sent, ?_, Nat.lt_of_not_le above⟩
  rw [newSends, traced, sentPackets_append, List.drop_left]
  exact List.mem_filterMap.mpr ⟨_, isAdded, rfl⟩

/-- A run that has sent one oversized payload. -/
theorem mtu_kept_iff_two_packets :
    ∃ final, clientRun twoPathConfig startSender.fec (.new 1000 8)
        [.ingest (List.replicate 376 0x47) (startReads .redundant)] = some final ∧
      (WithinMtu 100 final ↔
        ∀ event ∈ [ClientEvent.ingest (List.replicate 376 0x47) (startReads .redundant)],
          ¬ event.Oversized 100 twoPathConfig) ∧
      ∀ (payload : Bytes) (reads : Reads Float32 Float),
        ∃ next added, sendPayload twoPathConfig reads payload final = some next ∧
          next.trace = final.trace ++ added ∧
          ((∀ effect ∈ added, effect.HandsOut (FitsMtu 100)) ↔
            ¬ OversizedChunks 100 twoPathConfig reads payload) := by
  have created : FecEncoder.new false 0 twoPathConfig.mtu = .ok startSender.fec := rfl
  exact mtu_kept_iff rfl created 1000 8 _

end Irohsion.Client
