import Irohsion.Client.Progress
import Irohsion.Foundation.ListLoops

/-! # Calls of the send loop

What one call of `send_payload` uses and sends, in every branch. No call panics.
A datagram for which no branch finds a path is dropped, and the conditions for
this are stated on what the call reads.
-/

namespace Irohsion.Client

open Protocol

variable {Rate Weight : Type} (config : SendConfig) (reads : Reads Rate Weight)

/-! ## Paths -/

/-- The paths that the call has found connected. -/
def seenPaths : List PathConnection :=
  config.paths.filter fun path =>
    (reads .activePaths).connected path || (reads .splitPaths).connected path

theorem activePaths_subset : activePaths config reads ⊆ seenPaths config reads := by
  intro path member
  rcases List.mem_filter.mp member with ⟨configured, connected⟩
  exact List.mem_filter.mpr ⟨configured, by rw [connected, Bool.true_or]⟩

/-- The path in turn is one of the paths. -/
theorem roundRobinPath_of_ne_nil (chunk : Nat) {paths : List PathConnection}
    (nonempty : paths ≠ []) :
    ∃ path, roundRobinPath reads chunk paths = some path ∧ path ∈ paths := by
  have positive := List.length_pos_iff.mpr nonempty
  have bound : (reads (.roundRobin chunk)).strategy.nextRoundRobinIndex paths.length <
      paths.length := by
    rw [StrategyState.nextRoundRobinIndex, if_neg (Nat.ne_of_gt positive)]
    exact Nat.mod_lt _ positive
  exact ⟨_, List.getElem?_eq_getElem bound, List.getElem_mem bound⟩

variable [Measure Rate]

theorem packetSplitPaths_subset : packetSplitPaths config reads ⊆ seenPaths config reads := by
  intro path member
  rcases List.mem_filter.mp (List.mem_of_mem_filter member) with ⟨configured, connected⟩
  exact List.mem_filter.mpr ⟨configured, by rw [connected, Bool.or_true]⟩

theorem length_packetSplitPaths_le : (packetSplitPaths config reads).length ≤ maxFragments :=
  Nat.le_trans (List.length_filter_le _ _)
    (Nat.le_trans (List.length_filter_le _ _) config.paths_le)

/-- Unless the automatic mode splits, every path may be split. -/
theorem pathGroups_of_not_auto
    (notAuto : ¬ (readMode reads = .auto ∧ readEffective reads = .split)) :
    pathGroups config reads = (config.pathNames, []) := if_neg notAuto

/-! ## Transport stream chunks -/

/-- The automatic mode splits, but lets no active path carry chunks. -/
def ChunksDropped : Prop :=
  readMode reads = .auto ∧ readEffective reads = .split ∧
    ∀ path ∈ activePaths config reads, path.displayName ∉ (pathGroups config reads).1

theorem chunkSplitPaths_eq_nil_iff :
    chunkSplitPaths config reads = [] ↔
      ∀ path ∈ activePaths config reads, path.displayName ∉ (pathGroups config reads).1 := by
  rw [chunkSplitPaths, List.filter_eq_nil_iff]
  simp only [decide_eq_true_eq]

/-- A path is missing from the split paths only in the automatic mode. -/
theorem chunksDropped_of_no_split_path (active : activePaths config reads ≠ [])
    (none : chunkSplitPaths config reads = []) : ChunksDropped config reads := by
  have excluded := (chunkSplitPaths_eq_nil_iff config reads).mp none
  by_cases auto : readMode reads = .auto ∧ readEffective reads = .split
  · exact ⟨auto.1, auto.2, excluded⟩
  · rcases List.exists_mem_of_ne_nil _ active with ⟨path, member⟩
    apply absurd _ (excluded path member)
    rw [pathGroups_of_not_auto config reads auto]
    exact List.mem_map_of_mem (List.mem_of_mem_filter member)

/-- The paths that share the chunks of a payload. -/
def chunkPaths : List PathConnection :=
  if readEffective reads = .roundRobin ∨ readEffective reads = .redundant ∨
      readMode reads = .redundant then
    activePaths config reads
  else chunkSplitPaths config reads

theorem chunkSplitPaths_subset : chunkSplitPaths config reads ⊆ activePaths config reads :=
  List.filter_subset_self _

theorem chunkPaths_subset : chunkPaths config reads ⊆ activePaths config reads := by
  rw [chunkPaths]
  split
  · exact List.Subset.refl _
  · exact chunkSplitPaths_subset config reads

/-- Chunks find no path when none is active or the automatic mode drops them. -/
theorem chunkPaths_eq_nil_iff :
    chunkPaths config reads = [] ↔ activePaths config reads = [] ∨ ChunksDropped config reads := by
  constructor
  · intro none
    by_cases active : activePaths config reads = []
    · exact Or.inl active
    · rw [chunkPaths] at none
      split at none
      · exact absurd none active
      · exact Or.inr (chunksDropped_of_no_split_path config reads active none)
  · intro unused
    cases unused with
    | inl inactive =>
        apply List.eq_nil_of_subset_nil
        rw [← inactive]
        exact chunkPaths_subset config reads
    | inr dropped =>
        have splits : ¬ (readEffective reads = .roundRobin ∨ readEffective reads = .redundant ∨
            readMode reads = .redundant) := by
          rw [dropped.1, dropped.2.1]
          simp
        rw [chunkPaths, if_neg splits, chunkSplitPaths_eq_nil_iff]
        exact dropped.2.2

/-- The chunks in the order in which the split branch sends them. -/
def assignedChunks (paths : List PathConnection) (spans : List Span) (chunks : List Bytes) :
    List (PathConnection × Bytes × Nat) :=
  (paths.zip spans).flatMap fun (path, span) => (span.slice chunks.zipIdx).map (path, ·)

/-- The paths share out the chunks without changing their order. -/
theorem map_chunk_assignedChunks {paths : List PathConnection} {spans : List Span}
    {chunks : List Bytes} (sameLength : spans.length = paths.length)
    (tiles : Tiles 0 chunks.length spans) :
    (assignedChunks paths spans chunks).map (fun assigned => assigned.2.1) = chunks := by
  have tilesIndexed : Tiles 0 chunks.zipIdx.length spans := by
    rw [List.length_zipIdx]
    exact tiles
  have indexed : (assignedChunks paths spans chunks).map Prod.snd = chunks.zipIdx := by
    rw [assignedChunks, List.map_flatMap]
    simp only [List.map_map]
    have slices : (fun pair : PathConnection × Span =>
        (pair.2.slice chunks.zipIdx).map (Prod.snd ∘ (pair.1, ·))) =
          fun pair => pair.2.slice chunks.zipIdx := by
      funext pair
      exact List.map_id _
    rw [slices, ← List.flatMap_map Prod.snd fun span : Span => span.slice chunks.zipIdx,
      List.map_snd_zip (Nat.le_of_eq sameLength), List.flatMap_def,
      tilesIndexed.flatten_slices_whole]
  have projected : (assignedChunks paths spans chunks).map (fun assigned => assigned.2.1) =
      ((assignedChunks paths spans chunks).map Prod.snd).map Prod.fst := by
    rw [List.map_map]
    rfl
  rw [projected, indexed, List.zipIdx_map_fst]

variable {shipments : List Shipment} {state : ClientState}

/-- The call does not panic. Unless the chunks are dropped, it hands over all of
them. -/
def SendsChunks (shipments : List Shipment) (chunks : List Bytes) (state : ClientState)
    (result : Option ClientState) : Prop :=
  ∃ used packets next, result = some next ∧ Progress shipments used packets state next ∧
    (activePaths config reads ≠ [] → ¬ ChunksDropped config reads →
      used.map Shipment.payload = chunks ∧ Handed (activePaths config reads) used packets) ∧
    (ChunksDropped config reads → packets = [])

variable {config reads}

theorem SendsChunks.of_no_path (faithful : Faithful shipments state) (chunks : List Bytes)
    (dropped : activePaths config reads ≠ [] → ChunksDropped config reads) :
    SendsChunks config reads shipments chunks state (some state) :=
  ⟨[], [], state, rfl, .refl faithful, fun active kept => absurd (dropped active) kept,
    fun _ => rfl⟩

/-- A loop that sends each chunk on some active path sends them all. -/
theorem SendsChunks.of_foldlM {α : Type} {chunk : α → Bytes}
    {step : ClientState → α → Option ClientState} {items : List α}
    {chunks : List Bytes} (order : items.map chunk = chunks)
    (kept : ¬ ChunksDropped config reads)
    (sends : ∀ item ∈ items, ∃ index chosen, chosen ≠ [] ∧ chosen ⊆ activePaths config reads ∧
      ∀ state, step state item = sendChunk config reads index chosen (chunk item) state)
    (faithful : Faithful shipments state) (media : state.seq ≤ maxMediaSequence) :
    SendsChunks config reads shipments chunks state (items.foldlM step state) := by
  rcases foldlM_sendChunk_progress sends faithful media with
    ⟨used, packets, next, finished, progress, payloads, handed⟩
  exact ⟨used, packets, next, finished, progress, fun _ _ => ⟨payloads.trans order, handed⟩,
    fun dropped => absurd dropped kept⟩

variable (config reads)
variable [Measure Weight] [Widen Rate Weight]

@[simp] theorem length_splitPathWeights (paths : List PathConnection) :
    (splitPathWeights reads paths).length = paths.length := by
  rw [splitPathWeights, StrategyState.length_activeSplitWeights, List.length_map]

theorem splitPathWeights_ne_nil {paths : List PathConnection} (nonempty : paths ≠ []) :
    splitPathWeights reads paths ≠ [] := by
  rw [← List.length_pos_iff, length_splitPathWeights, List.length_pos_iff]
  exact nonempty

theorem splitPathWeights_eq_nil (onNone : packetSplitPaths config reads = []) :
    splitPathWeights reads (packetSplitPaths config reads) = [] := by
  rw [← List.length_eq_zero_iff, length_splitPathWeights, onNone, List.length_nil]

theorem length_packetSplitWeights_le :
    (splitPathWeights reads (packetSplitPaths config reads)).length ≤ maxFragments := by
  rw [length_splitPathWeights]
  exact length_packetSplitPaths_le config reads

variable [WeightShare Weight]

/-- The split branch sends every chunk on the path that it is assigned to. -/
theorem foldlM_splitPaths_eq (paths : List PathConnection) (chunks : List Bytes) :
    paths.zipIdx.foldlM
        (fun state (path, pathIndex) =>
          (weightedSplitRanges chunks.length (splitPathWeights reads paths))[pathIndex]?.bind
            fun span =>
              (span.slice chunks.zipIdx).foldlM
                (fun state (chunk, index) => sendChunk config reads index [path] chunk state)
                state)
        state =
      (assignedChunks paths (weightedSplitRanges chunks.length (splitPathWeights reads paths))
          chunks).foldlM
        (fun state (path, chunk, index) => sendChunk config reads index [path] chunk state)
        state := by
  have bound : 0 + paths.length ≤
      (weightedSplitRanges chunks.length (splitPathWeights reads paths)).length := by
    rw [length_weightedSplitRanges, length_splitPathWeights, Nat.zero_add]
  rw [ListLoops.foldlM_zipIdx_getElem?
    (fun state path (span : Span) => (span.slice chunks.zipIdx).foldlM
      (fun state item => sendChunk config reads item.2 [path] item.1 state) state)
    bound, assignedChunks, ListLoops.foldlM_flatMap, List.drop_zero]
  apply congrArg (List.foldlM · state _)
  funext state pair
  rw [List.foldlM_map]

/-- A chunk, where it stands in the payload, and the paths that it goes to. -/
structure ChunkSend where
  chunk : Bytes
  index : Nat
  paths : List PathConnection

/-- What the three loops over chunks send, in order. -/
def chunkPlan (chunks : List Bytes) : List ChunkSend :=
  let paths := chunkPaths config reads
  if paths.isEmpty then []
  else if readEffective reads = .roundRobin then
    chunks.zipIdx.map fun (chunk, index) =>
      ⟨chunk, index, (roundRobinPath reads index paths).toList⟩
  else if readEffective reads = .redundant ∨ readMode reads = .redundant then
    chunks.zipIdx.map fun (chunk, index) => ⟨chunk, index, paths⟩
  else
    (assignedChunks paths (weightedSplitRanges chunks.length (splitPathWeights reads paths))
      chunks).map fun (path, chunk, index) => ⟨chunk, index, [path]⟩

variable {config reads}

theorem chunkPlan_eq_nil (none : chunkPaths config reads = []) (chunks : List Bytes) :
    chunkPlan config reads chunks = [] := by
  rw [chunkPlan]
  exact if_pos (List.isEmpty_iff.mpr none)

/-- The plan holds every chunk once, in the order of the payload. -/
theorem map_chunk_chunkPlan (selected : chunkPaths config reads ≠ []) (chunks : List Bytes) :
    (chunkPlan config reads chunks).map ChunkSend.chunk = chunks := by
  have indexed : chunks.zipIdx.map Prod.fst = chunks := List.zipIdx_map_fst 0 chunks
  rw [chunkPlan]
  dsimp only
  rw [if_neg (mt List.isEmpty_iff.mp selected)]
  split
  · rw [List.map_map]
    exact indexed
  · split
    · rw [List.map_map]
      exact indexed
    · have ranges : (weightedSplitRanges chunks.length
          (splitPathWeights reads (chunkPaths config reads))).length =
            (chunkPaths config reads).length := by
        rw [length_weightedSplitRanges, length_splitPathWeights]
      rw [List.map_map]
      exact map_chunk_assignedChunks ranges (weightedSplitRanges_tiles chunks.length
        (splitPathWeights_ne_nil reads selected))

/-- Every chunk goes to some of the paths. -/
theorem chunkPlan_paths {chunks : List Bytes} {send : ChunkSend}
    (member : send ∈ chunkPlan config reads chunks) :
    send.paths ≠ [] ∧ send.paths ⊆ chunkPaths config reads := by
  rw [chunkPlan] at member
  dsimp only at member
  split at member
  · cases member
  · rename_i selected
    have nonempty := mt List.isEmpty_iff.mpr selected
    split at member
    · rcases List.mem_map.mp member with ⟨item, _, rfl⟩
      rcases roundRobinPath_of_ne_nil reads item.2 nonempty with ⟨path, inTurn, isPath⟩
      dsimp only
      rw [inTurn]
      exact ⟨List.cons_ne_nil _ _, List.cons_subset.mpr ⟨isPath, List.nil_subset _⟩⟩
    · split at member
      · rcases List.mem_map.mp member with ⟨item, _, rfl⟩
        exact ⟨nonempty, List.Subset.refl _⟩
      · rcases List.mem_map.mp member with ⟨assigned, isAssigned, rfl⟩
        rcases List.mem_flatMap.mp isAssigned with ⟨pair, isPair, isItem⟩
        rcases List.mem_map.mp isItem with ⟨item, _, rfl⟩
        have isPath := (List.of_mem_zip isPair).1
        exact ⟨List.cons_ne_nil _ _, List.cons_subset.mpr ⟨isPath, List.nil_subset _⟩⟩

variable (config reads)

def sendPlanned (state : ClientState) (send : ChunkSend) : Option ClientState :=
  sendChunk config reads send.index send.paths send.chunk state

/-- The three loops are one loop over the plan. -/
theorem sendMpegTsChunks_eq_plan (chunks : List Bytes) (state : ClientState) :
    sendMpegTsChunks config reads chunks state =
      (chunkPlan config reads chunks).foldlM (sendPlanned config reads) state := by
  rw [sendMpegTsChunks]
  dsimp only
  by_cases active : activePaths config reads = []
  · rw [if_pos (List.isEmpty_iff.mpr active),
      chunkPlan_eq_nil ((chunkPaths_eq_nil_iff config reads).mpr (Or.inl active))]
    rfl
  rw [if_neg (mt List.isEmpty_iff.mp active)]
  by_cases roundRobin : readEffective reads = .roundRobin
  · have paths : chunkPaths config reads = activePaths config reads := if_pos (Or.inl roundRobin)
    rw [if_pos roundRobin, chunkPlan, paths]
    dsimp only
    rw [if_neg (mt List.isEmpty_iff.mp active), if_pos roundRobin, List.foldlM_map]
    apply congrArg (List.foldlM · state _)
    funext state item
    rcases roundRobinPath_of_ne_nil reads item.2 active with ⟨path, inTurn, _⟩
    dsimp only [sendPlanned]
    rw [inTurn, Option.bind_some]
    rfl
  rw [if_neg roundRobin]
  by_cases redundant : readEffective reads = .redundant ∨ readMode reads = .redundant
  · have paths : chunkPaths config reads = activePaths config reads := if_pos (Or.inr redundant)
    rw [if_pos redundant, chunkPlan, paths]
    dsimp only
    rw [if_neg (mt List.isEmpty_iff.mp active), if_neg roundRobin, if_pos redundant,
      List.foldlM_map]
    rfl
  rw [if_neg redundant]
  have paths : chunkPaths config reads = chunkSplitPaths config reads :=
    if_neg (not_or.mpr ⟨roundRobin, redundant⟩)
  by_cases none : chunkSplitPaths config reads = []
  · rw [if_pos (List.isEmpty_iff.mpr none), chunkPlan_eq_nil (paths.trans none)]
    rfl
  · rw [if_neg (mt List.isEmpty_iff.mp none), foldlM_splitPaths_eq, chunkPlan, paths]
    dsimp only
    rw [if_neg (mt List.isEmpty_iff.mp none), if_neg roundRobin, if_neg redundant,
      List.foldlM_map]
    rfl

theorem sendMpegTsChunks_spec (faithful : Faithful shipments state)
    (media : state.seq ≤ maxMediaSequence) (chunks : List Bytes) :
    SendsChunks config reads shipments chunks state
      (sendMpegTsChunks config reads chunks state) := by
  rw [sendMpegTsChunks_eq_plan]
  by_cases none : chunkPaths config reads = []
  · rw [chunkPlan_eq_nil none]
    exact .of_no_path faithful chunks
      ((chunkPaths_eq_nil_iff config reads).mp none).resolve_left
  · have kept : ¬ ChunksDropped config reads := fun dropped =>
      none ((chunkPaths_eq_nil_iff config reads).mpr (Or.inr dropped))
    apply SendsChunks.of_foldlM (map_chunk_chunkPlan none chunks) kept _ faithful media
    intro send member
    rcases chunkPlan_paths member with ⟨nonempty, subset⟩
    exact ⟨send.index, send.paths, nonempty,
      List.Subset.trans subset (chunkPaths_subset config reads), fun _ => rfl⟩

end Irohsion.Client
