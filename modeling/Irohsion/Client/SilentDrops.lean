import Irohsion.Client.SenderRuns

/-! # Silent drops

When some path is connected and the pieces of a datagram fit, the sender hands
over all of them or nothing at all. It hands over nothing exactly when no path
may carry what it splits, or when an empty datagram is split.
-/

namespace Irohsion.Client

open Protocol

/-! ## Pieces of a datagram -/

theorem flatten_chunks {size : Nat} (positive : 0 < size) (payload : Bytes) :
    (chunks size payload).flatten = payload :=
  (mtuChunks_tiles payload.length positive).flatten_slices_whole

/-- Exactly the transport streams above the chunk size are cut. -/
theorem mpegTsChunks_eq_some {config : SendConfig} {payload : Bytes} {pieces : List Bytes}
    (cut : mpegTsChunks config payload = some pieces) :
    ∃ size, config.mpegTsChunkBytes = some size ∧ size < payload.length ∧
      isMpegTsPayload payload = true ∧ pieces = chunks size payload := by
  rw [mpegTsChunks] at cut
  split at cut
  · cases cut
  · rename_i size isSize
    split at cut
    · cases cut
    · rename_i applies
      cases cut
      rw [not_or, Nat.not_le, Bool.not_eq_false] at applies
      exact ⟨size, isSize, applies.1, applies.2, rfl⟩

/-- The pieces are the datagram, and there is at least one. -/
theorem datagramPieces_whole (config : SendConfig) (payload : Bytes) :
    (datagramPieces config payload).flatten = payload ∧ datagramPieces config payload ≠ [] := by
  rw [datagramPieces]
  cases cut : mpegTsChunks config payload with
  | none => exact ⟨by simp, List.cons_ne_nil _ _⟩
  | some pieces =>
      rcases mpegTsChunks_eq_some cut with ⟨size, isSize, longer, -, rfl⟩
      have positive := (config.chunk_valid size isSize).1
      have whole := flatten_chunks positive payload
      refine ⟨whole, ?_⟩
      intro noPieces
      rw [Option.getD_some] at noPieces
      rw [noPieces, List.flatten_nil] at whole
      rw [← whole] at longer
      cases longer

/-! ## Delivery -/

/-- The packets that the sender has sent since an earlier state. -/
def newSends (before after : ClientState) : List (PathConnection × Bytes) :=
  (sentPackets after.trace).drop (sentPackets before.trace).length

variable {Rate Weight : Type}

/-- From what connected paths got, every piece of the datagram can be put
together. -/
structure Delivers (config : SendConfig) (reads : Reads Rate Weight) (sequence : Nat)
    (payload : Bytes) (packets : List (PathConnection × Bytes)) : Prop where
  onSeen : ∀ sent ∈ packets, sent.1 ∈ seenPaths config reads
  whole : (datagramPieces config payload).flatten = payload
  pieces : ∀ piece ∈ numbered sequence (datagramPieces config payload),
    Reassembles (packets.map Prod.snd) piece.1 piece.2

theorem not_delivers_nil {config : SendConfig} {reads : Reads Rate Weight} {sequence : Nat}
    {payload : Bytes} : ¬ Delivers config reads sequence payload [] := by
  intro delivers
  have pieces := delivers.pieces
  cases cut : datagramPieces config payload with
  | nil => exact (datagramPieces_whole config payload).2 cut
  | cons piece rest =>
      rw [cut] at pieces
      exact not_reassembles_nil _ _ (pieces (sequence, piece) List.mem_cons_self)

variable {shipments used : List Shipment}
variable {packets : List (PathConnection × Bytes)} {state next : ClientState}

theorem Progress.newSends_eq (progress : Progress shipments used packets state next) :
    newSends state next = packets := by
  rw [newSends, progress.sent, List.drop_left]

theorem Progress.delivers {config : SendConfig} {reads : Reads Rate Weight} {payload : Bytes}
    (progress : Progress shipments used packets state next)
    (pieces : used.map Shipment.payload = datagramPieces config payload)
    (handed : Handed (seenPaths config reads) used packets) :
    Delivers config reads state.seq payload packets where
  onSeen := handed.1
  whole := (datagramPieces_whole config payload).1
  pieces piece member := by
    rw [← pieces, ← progress.numbered] at member
    rcases List.mem_map.mp member with ⟨shipment, isUsed, rfl⟩
    exact handed.2 shipment isUsed

variable [Measure Rate] [Measure Weight] [Widen Rate Weight] [WeightShare Weight]

/-- In every state of a run, a call delivers the datagram unless it is dropped
without an error. -/
theorem delivered_iff_not_dropped (config : SendConfig) {disabled : Bool} {groupSize : Nat}
    {fec : FecEncoder} (created : FecEncoder.new disabled groupSize config.mtu = .ok fec)
    {ttl : Duration} {maxPackets : Nat} {events : List (ClientEvent Rate Weight)}
    (reached : clientRun config fec (.new ttl maxPackets) events = some state)
    (reads : Reads Rate Weight) (payload : Bytes) (active : activePaths config reads ≠ [])
    (fits : ∀ piece ∈ datagramPieces config payload, FitsFragments config piece.length) :
    (∃ next, sendPayload config reads payload state = some next ∧
        Delivers config reads state.seq payload (newSends state next)) ↔
      ¬ DropsSilently config reads payload := by
  rcases clientRun_shipped config created ttl maxPackets events with
    ⟨shipments, final, finished, shipped⟩
  rw [finished] at reached
  cases reached
  rcases sendPayload_spec config reads shipped.faithful shipped.media payload with
    ⟨used, packets, next, sent, progress, all, nothing⟩
  constructor
  · intro delivered dropped
    rcases delivered with ⟨after, sentAfter, delivers⟩
    rw [sent] at sentAfter
    cases sentAfter
    rw [progress.newSends_eq, nothing dropped] at delivers
    exact not_delivers_nil delivers
  · intro kept
    rcases all active fits kept with ⟨pieces, handed⟩
    refine ⟨next, sent, ?_⟩
    rw [progress.newSends_eq]
    exact progress.delivers pieces handed

/-! ## Drops at the start -/

/-- Modes, and datagrams that are dropped in them. -/
def startDrops : List (StrategyMode × Bytes) :=
  [(.auto, List.replicate 101 0), (.auto, List.replicate 376 0x47), (.split, [])]

/-- Seven fragments of 100 bytes are enough for any piece. -/
theorem fitsFragments_twoPathConfig {payload : Bytes} (short : payload.length ≤ 700) :
    ∀ piece ∈ datagramPieces twoPathConfig payload,
      FitsFragments twoPathConfig piece.length := by
  intro piece isPiece maxPayload isMtu
  have part := (List.sublist_flatten_of_mem isPiece).length_le
  rw [(datagramPieces_whole twoPathConfig payload).1] at part
  cases isMtu
  rw [maxFragments]
  omega

theorem pathGroups_start : pathGroups twoPathConfig (startReads .auto) =
    ([], ["first", "second"]) := by
  decide

theorem dropsSilently_start {entry : StrategyMode × Bytes} (member : entry ∈ startDrops) :
    DropsSilently twoPathConfig (startReads entry.1) entry.2 := by
  have noSplitPath : ∀ path : PathConnection,
      path.displayName ∉ (pathGroups twoPathConfig (startReads .auto)).1 := by
    intro path
    rw [pathGroups_start]
    exact List.not_mem_nil
  simp only [startDrops, List.mem_cons, List.not_mem_nil, or_false] at member
  rcases member with rfl | rfl | rfl
  · have uncut : mpegTsChunks twoPathConfig (List.replicate 101 0) = none := by decide +kernel
    rw [DropsSilently, uncut]
    exact Or.inl ⟨by decide +kernel, fun path _ _ => noSplitPath path⟩
  · have cut : mpegTsChunks twoPathConfig (List.replicate 376 0x47) =
        some (chunks 188 (List.replicate 376 0x47)) := by
      decide +kernel
    rw [DropsSilently, cut]
    exact ⟨rfl, rfl, fun path _ => noSplitPath path⟩
  · exact Or.inr ⟨rfl, rfl, by decide⟩

/-- The first call of a sender drops each of them, although both paths are
connected and all pieces fit. -/
theorem start_drops_silently :
    clientRun twoPathConfig startSender.fec startSender.repairCache
        ([] : List (ClientEvent Float32 Float)) = some startSender ∧
      ∀ entry ∈ startDrops,
        activePaths twoPathConfig (startReads entry.1) = twoPathConfig.paths ∧
        (∀ piece ∈ datagramPieces twoPathConfig entry.2,
          FitsFragments twoPathConfig piece.length) ∧
        ¬ ∃ next, sendPayload twoPathConfig (startReads entry.1) entry.2 startSender = some next ∧
          Delivers twoPathConfig (startReads entry.1) 0 entry.2 (newSends startSender next) := by
  have created : FecEncoder.new false 0 twoPathConfig.mtu = .ok startSender.fec := rfl
  have shipped : Shipped [] startSender := .start created 1000 8
  have short : ∀ entry ∈ startDrops, entry.2.length ≤ 700 := by decide +kernel
  refine ⟨rfl, ?_⟩
  intro entry member
  refine ⟨rfl, fitsFragments_twoPathConfig (short entry member), ?_⟩
  · intro delivered
    rcases delivered with ⟨next, sent, delivers⟩
    rcases sendPayload_spec twoPathConfig (startReads entry.1) shipped.faithful shipped.media
      entry.2 with ⟨used, packets, after, sentAfter, progress, _, nothing⟩
    rw [sentAfter] at sent
    cases sent
    rw [progress.newSends_eq, nothing (dropsSilently_start member)] at delivers
    exact not_delivers_nil delivers

/-- In the redundant mode the same sender delivers an oversized datagram. -/
theorem delivered_iff_not_dropped_redundant :
    ∃ next, sendPayload twoPathConfig (startReads .redundant) (List.replicate 101 0)
        startSender = some next ∧
      Delivers twoPathConfig (startReads .redundant) 0 (List.replicate 101 0)
        (newSends startSender next) := by
  have created : FecEncoder.new false 0 twoPathConfig.mtu = .ok startSender.fec := rfl
  have reached : clientRun twoPathConfig startSender.fec (.new 1000 8)
      ([] : List (ClientEvent Float32 Float)) = some startSender := rfl
  have uncut : mpegTsChunks twoPathConfig (List.replicate 101 0) = none := by decide +kernel
  apply (delivered_iff_not_dropped twoPathConfig created reached (startReads .redundant) _
    (List.cons_ne_nil _ _) (fitsFragments_twoPathConfig (by decide +kernel))).mpr
  rw [DropsSilently, uncut]
  intro dropped
  cases dropped with
  | inl long => exact long.2 ⟨0, "first"⟩ List.mem_cons_self rfl List.mem_cons_self
  | inr empty => cases empty.2.1

end Irohsion.Client
