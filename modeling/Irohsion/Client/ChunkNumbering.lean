import Irohsion.Client.SilentDrops

/-! # Numbering of transport stream chunks

The chunks of one payload take consecutive sequences in the order of the
payload. The strategy and the weights only choose the path of each chunk.
-/

namespace Irohsion.Client

open Protocol

/-! ## Chunks of a transport stream -/

/-- Every transport packet of the payload begins with the sync byte. -/
theorem isMpegTsPayload_iff (payload : Bytes) :
    isMpegTsPayload payload = true ↔ payload ≠ [] ∧ mpegTsPacketSize ∣ payload.length ∧
      ∀ index, index * mpegTsPacketSize < payload.length →
        payload[index * mpegTsPacketSize]? = some 0x47 := by
  have packetStart : ∀ index, index * mpegTsPacketSize < payload.length →
      (Span.slice ⟨index * mpegTsPacketSize,
        min (index * mpegTsPacketSize + mpegTsPacketSize) payload.length⟩ payload).head? =
          payload[index * mpegTsPacketSize]? := by
    intro index inside
    have someByte : min (index * mpegTsPacketSize + mpegTsPacketSize) payload.length -
        index * mpegTsPacketSize ≠ 0 := by
      rw [mpegTsPacketSize] at inside ⊢
      omega
    rw [Span.slice, Span.length, List.head?_take, if_neg someByte, List.head?_drop]
  have positive : 0 < mpegTsPacketSize := by decide
  rw [isMpegTsPayload, Bool.and_eq_true, Bool.and_eq_true, chunks, mtuChunks]
  simp only [Bool.not_eq_true', List.isEmpty_eq_false_iff, decide_eq_true_eq, List.map_map,
    List.all_map, List.all_eq_true, List.mem_range, Function.comp_apply, and_assoc,
    Nat.dvd_iff_mod_eq_zero]
  apply and_congr_right
  intro _
  apply and_congr_right
  intro _
  constructor
  · intro synced index inside
    rw [← packetStart index inside]
    apply synced
    rw [Nat.lt_div_iff_mul_lt positive]
    omega
  · intro synced index inRange
    have inside := lt_of_lt_chunkCount positive inRange
    rw [packetStart index inside]
    exact synced index inside

/-- Sync bytes alone make up a stream. -/
theorem isMpegTsPayload_sync {length : Nat} (positive : 0 < length)
    (aligned : mpegTsPacketSize ∣ length) :
    isMpegTsPayload (List.replicate length 0x47) = true := by
  rw [isMpegTsPayload_iff, List.length_replicate]
  refine ⟨?_, aligned, ?_⟩
  · rw [← List.length_pos_iff, List.length_replicate]
    exact positive
  · intro index inside
    rw [List.getElem?_replicate, if_pos inside]

/-- A part between two packet boundaries is a transport stream of its own. -/
theorem isMpegTsPayload_slice {payload : Bytes} (stream : isMpegTsPayload payload = true)
    {span : Span} (nonempty : span.first < span.stop) (inside : span.stop ≤ payload.length)
    (firstAligned : mpegTsPacketSize ∣ span.first) (stopAligned : mpegTsPacketSize ∣ span.stop) :
    isMpegTsPayload (span.slice payload) = true := by
  have synced := ((isMpegTsPayload_iff payload).mp stream).2.2
  have length : (span.slice payload).length = span.stop - span.first := by
    rw [Span.slice, Span.length, List.length_take, List.length_drop]
    omega
  rw [isMpegTsPayload_iff, length]
  refine ⟨?_, Nat.dvd_sub stopAligned firstAligned, ?_⟩
  · rw [← List.length_pos_iff, length]
    exact Nat.sub_pos_of_lt nonempty
  · intro index bound
    rcases firstAligned with ⟨skipped, aligned⟩
    have position : span.first + index * mpegTsPacketSize =
        (skipped + index) * mpegTsPacketSize := by
      rw [aligned, Nat.add_mul, Nat.mul_comm mpegTsPacketSize]
    rw [Span.slice, Span.length, List.getElem?_take_of_lt bound, List.getElem?_drop, position]
    apply synced
    omega

/-- Chunks of whole transport packets are transport streams. -/
theorem isMpegTsPayload_chunk {payload : Bytes} (stream : isMpegTsPayload payload = true)
    {size : Nat} (positive : 0 < size) (aligned : mpegTsPacketSize ∣ size) {chunk : Bytes}
    (member : chunk ∈ chunks size payload) : isMpegTsPayload chunk = true := by
  rcases List.mem_map.mp member with ⟨span, isSpan, rfl⟩
  have nonempty := (mtuChunks_bounded positive isSpan).1
  have inside := ((mtuChunks_tiles payload.length positive).bounds isSpan).2.2
  have whole := ((isMpegTsPayload_iff payload).mp stream).2.1
  rcases List.mem_map.mp isSpan with ⟨index, _, rfl⟩
  have firstAligned : mpegTsPacketSize ∣ index * size := Nat.dvd_mul_left_of_dvd aligned index
  apply isMpegTsPayload_slice stream nonempty inside firstAligned
  dsimp only
  rcases Nat.le_total (index * size + size) payload.length with fits | cut
  · rw [Nat.min_eq_left fits]
    exact Nat.dvd_add firstAligned aligned
  · rw [Nat.min_eq_right cut]
    exact whole

theorem mpegTsChunks_of_stream {config : SendConfig} {chunkBytes : Nat}
    (size : config.mpegTsChunkBytes = some chunkBytes) {payload : Bytes}
    (long : chunkBytes < payload.length) (stream : isMpegTsPayload payload = true) :
    mpegTsChunks config payload = some (chunks chunkBytes payload) := by
  have applies : ¬ (payload.length ≤ chunkBytes ∨ isMpegTsPayload payload = false) := by
    rw [not_or, Bool.not_eq_false]
    exact ⟨Nat.not_le.mpr long, stream⟩
  rw [mpegTsChunks, size]
  exact if_neg applies

/-! ## The effects of the chunks -/

/-- Whether an effect belongs to a payload rather than to the parity of several. -/
def ClientEffect.isMedia : ClientEffect → Bool
  | .sendFec _ _ => false
  | .ingested _ _ | .send _ _ | .cache _ _ | .splitRefused _ _ => true

def mediaEffects (trace : List ClientEffect) : List ClientEffect :=
  trace.filter ClientEffect.isMedia

@[simp] theorem mediaEffects_append (first second : List ClientEffect) :
    mediaEffects (first ++ second) = mediaEffects first ++ mediaEffects second :=
  List.filter_append _ _

/-- A chunk is ingested, cached as a whole packet, and sent to its paths. -/
def chunkEffects (sequence : Nat) (chunk : Bytes) (paths : List PathConnection) :
    List ClientEffect :=
  [.ingested sequence chunk,
    .cache sequence [⟨packetBytes ⟨sequence, 0, 1⟩ chunk, chunk.length⟩]] ++
    paths.map (.send · (packetBytes ⟨sequence, 0, 1⟩ chunk))

/-- The effects of chunks that take the sequences from one on, each with its paths. -/
def numberedEffects : (sequence : Nat) → List (Bytes × List PathConnection) → List ClientEffect
  | _, [] => []
  | sequence, (chunk, paths) :: rest =>
      chunkEffects sequence chunk paths ++ numberedEffects (nextSequence sequence) rest

theorem ingestedPayloads_mediaEffects (trace : List ClientEffect) :
    ingestedPayloads (mediaEffects trace) = ingestedPayloads trace := by
  rw [ingestedPayloads, ingestedPayloads, mediaEffects, List.filterMap_filter]
  apply List.filterMap_congr
  intro effect _
  cases effect <;> rfl

theorem ingestedPayloads_chunkEffects (sequence : Nat) (chunk : Bytes)
    (paths : List PathConnection) :
    ingestedPayloads (chunkEffects sequence chunk paths) = [(sequence, chunk)] := by
  have onlySends : ingestedPayloads
      (paths.map (ClientEffect.send · (packetBytes ⟨sequence, 0, 1⟩ chunk))) = [] := by
    rw [ingestedPayloads, List.filterMap_eq_nil_iff]
    intro effect member
    rcases List.mem_map.mp member with ⟨path, _, rfl⟩
    rfl
  rw [chunkEffects, ingestedPayloads_append, onlySends]
  rfl

/-- The numbering does not depend on the paths. -/
theorem ingestedPayloads_numberedEffects (sequence : Nat)
    (assigned : List (Bytes × List PathConnection)) :
    ingestedPayloads (numberedEffects sequence assigned) =
      numbered sequence (assigned.map Prod.fst) := by
  induction assigned generalizing sequence with
  | nil => rfl
  | cons head rest induction =>
      rw [numberedEffects, ingestedPayloads_append, ingestedPayloads_chunkEffects, induction]
      rfl

/-! ## The loop over the plan -/

variable {Rate Weight : Type} [Measure Rate] {config : SendConfig} {reads : Reads Rate Weight}
variable {state : ClientState}

theorem trace_sendOnPaths (packet : Bytes) (paths : List PathConnection) (state : ClientState) :
    (state.sendOnPaths packet paths).trace = state.trace ++ paths.map (.send · packet) := by
  rw [ClientState.sendOnPaths]
  induction paths generalizing state with
  | nil => exact (List.append_nil _).symm
  | cons path rest induction =>
      rw [List.foldl_cons, induction, List.map_cons, ClientState.sendOnPath, ClientState.emit,
        List.append_assoc]
      rfl

theorem sendOnPaths_fec (packet : Bytes) (paths : List PathConnection) (state : ClientState) :
    (state.sendOnPaths packet paths).fec = state.fec := by
  rw [ClientState.sendOnPaths]
  induction paths generalizing state with
  | nil => rfl
  | cons path rest induction => exact induction (state.sendOnPath packet path)

/-- Parity adds no effect of a payload. -/
theorem recordFec_media (gathering : state.fec.Gathering) (config : SendConfig)
    (reads : Reads Rate Weight) (index : Nat) {sequence : Nat} (payload : Bytes)
    (media : sequence ≤ maxMediaSequence) :
    ∃ next, recordFec config reads index sequence payload state = some next ∧
      next.fec.Gathering ∧ mediaEffects next.trace = mediaEffects state.trace := by
  rcases FecEncoder.record_spec gathering (reads (.fecGroup index)).strategy
    (reads (.fecGroup index)).unixMs payload media with
    ⟨emitted, fec, recorded, nextGathering, _⟩
  refine ⟨_, by rw [recordFec, recorded]; rfl, nextGathering, ?_⟩
  rw [mediaEffects_append]
  have parityOnly : mediaEffects (emitted.flatMap fun frame =>
      (config.paths.filter (reads (.fecPaths index)).connected).map (.sendFec · frame)) = [] := by
    rw [mediaEffects, List.filter_eq_nil_iff]
    intro effect isEffect
    rcases List.mem_flatMap.mp isEffect with ⟨frame, _, sends⟩
    rcases List.mem_map.mp sends with ⟨path, _, rfl⟩
    exact Bool.false_ne_true
  rw [parityOnly, List.append_nil]

/-- One chunk takes the current sequence, whatever its paths. -/
theorem sendChunk_media (gathering : state.fec.Gathering) (media : state.seq ≤ maxMediaSequence)
    (config : SendConfig) (reads : Reads Rate Weight) (index : Nat)
    (paths : List PathConnection) (chunk : Bytes) :
    ∃ next, sendChunk config reads index paths chunk state = some next ∧
      next.seq = nextSequence state.seq ∧ next.fec.Gathering ∧
      mediaEffects next.trace = mediaEffects state.trace ++ chunkEffects state.seq chunk paths := by
  let sent := ((state.emit (.ingested state.seq chunk)).cacheRepairFragments
    (reads (.cache index)).now state.seq
    [⟨packetBytes ⟨state.seq, 0, 1⟩ chunk, chunk.length⟩]).sendOnPaths
      (packetBytes ⟨state.seq, 0, 1⟩ chunk) paths
  have traced : sent.trace = state.trace ++ chunkEffects state.seq chunk paths := by
    rw [trace_sendOnPaths, ClientState.cacheRepairFragments, ClientState.emit, chunkEffects,
      List.append_assoc, List.append_assoc]
    rfl
  have ungathered : sent.fec.Gathering := by
    rw [sendOnPaths_fec]
    exact gathering
  have allMedia : mediaEffects (chunkEffects state.seq chunk paths) =
      chunkEffects state.seq chunk paths := by
    rw [mediaEffects, List.filter_eq_self]
    intro effect member
    cases List.mem_append.mp member with
    | inl first =>
        simp only [List.mem_cons, List.not_mem_nil, or_false] at first
        cases first with
        | inl ingested => rw [ingested]; rfl
        | inr cached => rw [cached]; rfl
    | inr send =>
        rcases List.mem_map.mp send with ⟨path, _, rfl⟩
        rfl
  rcases recordFec_media ungathered config reads index chunk media with
    ⟨next, recorded, nextGathering, effects⟩
  refine ⟨{ next with seq := nextSequence state.seq }, ?_, rfl, nextGathering, ?_⟩
  · rw [sendChunk, singleFragmentPacket_eq media]
    dsimp only
    exact congrArg _ recorded
  · exact effects.trans (by rw [traced, mediaEffects_append, allMedia])

/-- The chunks of a payload are sent under the sequences from one on, each to
some of the paths. -/
structure SendsNumbered (sequence : Nat) (paths : List PathConnection) (pieces : List Bytes)
    (before after : ClientState) : Prop where
  seq : after.seq = sequenceAfter sequence pieces.length
  ingested : ingestedPayloads after.trace =
    ingestedPayloads before.trace ++ numbered sequence pieces
  effects : ∃ assigned : List (Bytes × List PathConnection),
    assigned.map Prod.fst = pieces ∧
    (∀ send ∈ assigned, send.2 ≠ [] ∧ send.2 ⊆ paths) ∧
    mediaEffects after.trace = mediaEffects before.trace ++ numberedEffects sequence assigned

def ChunkSend.assigned (send : ChunkSend) : Bytes × List PathConnection :=
  (send.chunk, send.paths)

theorem foldlM_sendPlanned (config : SendConfig) (reads : Reads Rate Weight)
    (plan : List ChunkSend) (gathering : state.fec.Gathering)
    (media : state.seq ≤ maxMediaSequence) :
    ∃ next, plan.foldlM (sendPlanned config reads) state = some next ∧
      next.seq = sequenceAfter state.seq plan.length ∧
      mediaEffects next.trace =
        mediaEffects state.trace ++ numberedEffects state.seq (plan.map ChunkSend.assigned) := by
  induction plan generalizing state with
  | nil => exact ⟨state, rfl, rfl, (List.append_nil _).symm⟩
  | cons send rest induction =>
      rcases sendChunk_media gathering media config reads send.index send.paths send.chunk with
        ⟨middle, sent, middleSeq, middleGathering, first⟩
      have middleMedia : middle.seq ≤ maxMediaSequence := by
        rw [middleSeq]
        exact sequenceAfter_le media 1
      rcases induction middleGathering middleMedia with ⟨next, finished, nextSeq, later⟩
      refine ⟨next, ?_, ?_, ?_⟩
      · rw [List.foldlM_cons, sendPlanned, sent]
        exact finished
      · rw [nextSeq, middleSeq]
        rfl
      · rw [later, first, middleSeq, List.append_assoc]
        rfl

section Numbering

variable [Measure Weight] [Widen Rate Weight] [WeightShare Weight]

/-- With a path to send on, the call numbers all chunks in order. -/
theorem sendMpegTsChunks_numbers (selected : chunkPaths config reads ≠ [])
    (gathering : state.fec.Gathering) (media : state.seq ≤ maxMediaSequence)
    (pieces : List Bytes) :
    ∃ next, sendMpegTsChunks config reads pieces state = some next ∧
      SendsNumbered state.seq (chunkPaths config reads) pieces state next := by
  have planned := map_chunk_chunkPlan selected pieces
  have inOrder : ((chunkPlan config reads pieces).map ChunkSend.assigned).map Prod.fst =
      pieces := by
    rw [List.map_map]
    exact planned
  rcases foldlM_sendPlanned config reads (chunkPlan config reads pieces) gathering media with
    ⟨next, sent, seq, effects⟩
  refine ⟨next, (sendMpegTsChunks_eq_plan config reads pieces state).trans sent, ?_, ?_,
    _, inOrder, ?_, effects⟩
  · rw [seq, ← List.length_map ChunkSend.chunk, planned]
  · rw [← ingestedPayloads_mediaEffects, effects, ingestedPayloads_append,
      ingestedPayloads_mediaEffects, ingestedPayloads_numberedEffects, inOrder]
  · intro assigned member
    rcases List.mem_map.mp member with ⟨send, isSend, rfl⟩
    exact chunkPlan_paths isSend

end Numbering

/-! ## Any two strategies -/

/-- Two calls that start with the same sequence number the chunks of a payload
alike, whatever strategies, weights and connections they find. -/
theorem chunkNumbering_independent {Rate Weight OtherRate OtherWeight : Type}
    [Measure Rate] [Measure Weight] [Widen Rate Weight] [WeightShare Weight]
    [Measure OtherRate] [Measure OtherWeight] [Widen OtherRate OtherWeight]
    [WeightShare OtherWeight] {config : SendConfig} {chunkBytes : Nat}
    (size : config.mpegTsChunkBytes = some chunkBytes) {payload : Bytes}
    (long : chunkBytes < payload.length) (stream : isMpegTsPayload payload = true)
    {reads : Reads Rate Weight} {others : Reads OtherRate OtherWeight}
    (selected : chunkPaths config reads ≠ []) (otherSelected : chunkPaths config others ≠ [])
    {state other : ClientState} (gathering : state.fec.Gathering)
    (otherGathering : other.fec.Gathering) {sequence : Nat} (starts : state.seq = sequence)
    (otherStarts : other.seq = sequence) (media : sequence ≤ maxMediaSequence) :
    ∃ pieces next otherNext, mpegTsChunks config payload = some pieces ∧
      pieces.flatten = payload ∧ (∀ chunk ∈ pieces, isMpegTsPayload chunk = true) ∧
      sendMpegTsChunks config reads pieces state = some next ∧
      sendMpegTsChunks config others pieces other = some otherNext ∧
      SendsNumbered sequence (chunkPaths config reads) pieces state next ∧
      SendsNumbered sequence (chunkPaths config others) pieces other otherNext := by
  have valid := config.chunk_valid chunkBytes size
  rcases sendMpegTsChunks_numbers selected gathering (starts ▸ media)
    (chunks chunkBytes payload) with ⟨next, sent, numbering⟩
  rcases sendMpegTsChunks_numbers otherSelected otherGathering (otherStarts ▸ media)
    (chunks chunkBytes payload) with ⟨otherNext, otherSent, otherNumbering⟩
  rw [starts] at numbering
  rw [otherStarts] at otherNumbering
  exact ⟨_, next, otherNext, mpegTsChunks_of_stream size long stream,
    flatten_chunks valid.1 payload,
    fun _ member => isMpegTsPayload_chunk stream valid.1 (Nat.dvd_of_mod_eq_zero valid.2) member,
    sent, otherSent, numbering, otherNumbering⟩

/-- Splitting and taking turns number two transport packets alike. -/
theorem chunkNumbering_two_packets :
    ∃ pieces next otherNext, mpegTsChunks twoPathConfig (List.replicate 376 0x47) = some pieces ∧
      pieces.flatten = List.replicate 376 0x47 ∧
      (∀ chunk ∈ pieces, isMpegTsPayload chunk = true) ∧
      sendMpegTsChunks twoPathConfig (startReads .split) pieces startSender = some next ∧
      sendMpegTsChunks twoPathConfig (startReads .roundRobin) pieces startSender =
        some otherNext ∧
      SendsNumbered 0 (chunkPaths twoPathConfig (startReads .split)) pieces startSender next ∧
      SendsNumbered 0 (chunkPaths twoPathConfig (startReads .roundRobin)) pieces startSender
        otherNext := by
  have created : FecEncoder.new false 0 twoPathConfig.mtu = .ok startSender.fec := rfl
  have gathering := (FecEncoder.new_gathering created).1
  have long : 188 < (List.replicate 376 (0x47 : UInt8)).length := by
    rw [List.length_replicate]
    decide
  have selected : chunkPaths twoPathConfig (startReads .split) ≠ [] := by decide
  have inTurn : chunkPaths twoPathConfig (startReads .roundRobin) ≠ [] := by decide
  have stream : isMpegTsPayload (List.replicate 376 0x47) = true :=
    isMpegTsPayload_sync (Nat.zero_lt_succ 375) (by decide)
  exact chunkNumbering_independent rfl long stream selected inTurn gathering gathering rfl rfl
    (Nat.zero_le _)

end Irohsion.Client
