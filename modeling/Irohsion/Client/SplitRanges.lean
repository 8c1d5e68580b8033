import Irohsion.Foundation.ListLoops
import Irohsion.Foundation.Tiling
import Irohsion.Protocol.Packet

/-! # Split ranges

How the client cuts a payload, or a list of chunks, along the weights of its
paths. The weights are only accumulated and rounded, so any number type with
these operations will do.
-/

namespace Irohsion.Client

open Protocol

/-- The arithmetic of `weighted_split_ranges`. `share` is
`(packet_len as f64 * accumulated).round() as usize`. -/
class WeightShare (W : Type u) where
  share : (packetLen : Nat) → (accumulated : W) → Nat

instance floatWeightShare : WeightShare Float where
  share packetLen accumulated := (Float.ofNat packetLen * accumulated).round.toUInt64.toNat

/-- `usize::clamp`, which asserts that its bounds are ordered. -/
def clamp (value low high : Nat) (_ordered : low ≤ high) : Nat :=
  max low (min value high)

theorem le_clamp {value low high : Nat} (ordered : low ≤ high) :
    low ≤ clamp value low high ordered :=
  Nat.le_max_left _ _

theorem clamp_le {value low high : Nat} (ordered : low ≤ high) :
    clamp value low high ordered ≤ high := by
  rw [clamp]
  omega

/-- A range of payload positions, for the path at an index. -/
structure SplitRange where
  pathIndex : Nat
  span : Span
  deriving DecidableEq, Repr

variable {W : Type u} [Zero W] [Add W] [WeightShare W]

/-- The loop of `weighted_split_ranges` over the remaining weights. -/
def weightedRangesFrom (packetLen : Nat) :
    (start : Nat) → start ≤ packetLen → (accumulated : W) → List W → List Span
  | _, _, _, [] => []
  | start, inRange, accumulated, weight :: rest =>
      let accumulated := accumulated + weight
      if rest.isEmpty then
        ⟨start, packetLen⟩ :: weightedRangesFrom packetLen packetLen (Nat.le_refl _)
          accumulated rest
      else
        let stop := clamp (WeightShare.share packetLen accumulated) start packetLen inRange
        ⟨start, stop⟩ :: weightedRangesFrom packetLen stop (clamp_le inRange) accumulated rest

def weightedSplitRanges (packetLen : Nat) (weights : List W) : List Span :=
  weightedRangesFrom packetLen 0 (Nat.zero_le _) 0 weights

/-- `(0..packet_len).step_by(max_payload)`, each start with its end. -/
def mtuChunks (packetLen maxPayload : Nat) : List Span :=
  (List.range ((packetLen + maxPayload - 1) / maxPayload)).map fun index =>
    ⟨index * maxPayload, min (index * maxPayload + maxPayload) packetLen⟩

/-- The ranges of the path at an index, which takes a span of the chunks. -/
def pathChunks (chunks : List Span) (indexed : Span × Nat) : List SplitRange :=
  (indexed.1.slice chunks).map (⟨indexed.2, ·⟩)

def mtuChunkedSplitRanges (packetLen : Nat) (weights : List W) (maxPayload : Nat) :
    Option (List SplitRange) :=
  if maxPayload = 0 then none
  else
    let chunks := mtuChunks packetLen maxPayload
    if maxFragments < chunks.length then none
    else if chunks.isEmpty || weights.isEmpty then some []
    else
      some ((weightedSplitRanges chunks.length weights).zipIdx.flatMap (pathChunks chunks))

/-- The ranges of a payload that needs no chunks, without the empty ones. -/
def nonemptySplitRanges (spans : List Span) : List SplitRange :=
  (spans.zipIdx.filter fun (span, _) => span.first ≠ span.stop).map
    fun (span, pathIndex) => ⟨pathIndex, span⟩

def packetSplitRanges (packetLen : Nat) (weights : List W) (mtu : Option Nat) :
    Option (List SplitRange) :=
  match mtu.filter fun mtu => mtu < packetLen with
  | some maxPayload => mtuChunkedSplitRanges packetLen weights maxPayload
  | none =>
      let ranges := nonemptySplitRanges (weightedSplitRanges packetLen weights)
      if ranges.length ≤ maxFragments then some ranges else none

def packetExceedsMtu (packetLen : Nat) (mtu : Option Nat) : Bool :=
  mtu.any fun mtu => mtu < packetLen

/-! ## Weighted ranges -/

omit [Zero W] in
theorem weightedRangesFrom_tiles {packetLen start : Nat} (inRange : start ≤ packetLen)
    (accumulated : W) {weights : List W} (nonempty : weights ≠ []) :
    Tiles start packetLen (weightedRangesFrom packetLen start inRange accumulated weights) := by
  induction weights generalizing start accumulated with
  | nil => exact absurd rfl nonempty
  | cons weight rest induction =>
      rw [weightedRangesFrom]
      cases rest with
      | nil => exact ⟨rfl, inRange, rfl⟩
      | cons next rest =>
          exact ⟨rfl, le_clamp inRange, induction _ _ (List.cons_ne_nil _ _)⟩

/-- Every position is given to exactly one weight, in order. -/
theorem weightedSplitRanges_tiles (packetLen : Nat) {weights : List W}
    (nonempty : weights ≠ []) : Tiles 0 packetLen (weightedSplitRanges packetLen weights) :=
  weightedRangesFrom_tiles _ _ nonempty

omit [Zero W] in
theorem length_weightedRangesFrom {packetLen start : Nat} (inRange : start ≤ packetLen)
    (accumulated : W) (weights : List W) :
    (weightedRangesFrom packetLen start inRange accumulated weights).length =
      weights.length := by
  induction weights generalizing start accumulated with
  | nil => rfl
  | cons weight rest induction =>
      rw [weightedRangesFrom]
      split <;> rw [List.length_cons, induction, List.length_cons]

/-- There is one range for each weight. -/
@[simp] theorem length_weightedSplitRanges (packetLen : Nat) (weights : List W) :
    (weightedSplitRanges packetLen weights).length = weights.length :=
  length_weightedRangesFrom _ _ weights

/-! ## Chunks of the MTU -/

@[simp] theorem length_mtuChunks (packetLen maxPayload : Nat) :
    (mtuChunks packetLen maxPayload).length = (packetLen + maxPayload - 1) / maxPayload := by
  rw [mtuChunks, List.length_map, List.length_range]

/-- A chunk begins inside the payload. -/
theorem lt_of_lt_chunkCount {packetLen maxPayload index : Nat} (positive : 0 < maxPayload)
    (bound : index < (packetLen + maxPayload - 1) / maxPayload) :
    index * maxPayload < packetLen := by
  have reached := (Nat.le_div_iff_mul_le positive).mp bound
  rw [Nat.succ_mul] at reached
  omega

theorem le_chunkCount_mul {packetLen maxPayload : Nat} (positive : 0 < maxPayload) :
    packetLen ≤ (packetLen + maxPayload - 1) / maxPayload * maxPayload := by
  have remainder := Nat.div_add_mod (packetLen + maxPayload - 1) maxPayload
  have small := Nat.mod_lt (packetLen + maxPayload - 1) positive
  rw [Nat.mul_comm] at remainder
  omega

/-- The chunks cover the payload in order. -/
theorem mtuChunks_tiles (packetLen : Nat) {maxPayload : Nat} (positive : 0 < maxPayload) :
    Tiles 0 packetLen (mtuChunks packetLen maxPayload) := by
  let cut : Nat → Nat := fun index => min (index * maxPayload) packetLen
  have ordered : ∀ index, cut index ≤ cut (index + 1) := by
    intro index
    simp only [cut, Nat.succ_mul]
    omega
  have chunks : mtuChunks packetLen maxPayload =
      (List.range' 0 ((packetLen + maxPayload - 1) / maxPayload)).map fun index =>
        ⟨cut index, cut (index + 1)⟩ := by
    rw [mtuChunks, List.range_eq_range']
    apply List.map_congr_left
    intro index member
    have inside := lt_of_lt_chunkCount positive (by simpa using member)
    simp only [cut, Nat.succ_mul, Nat.min_eq_left (Nat.le_of_lt inside)]
  have tiles := Tiles.of_cuts ordered 0 ((packetLen + maxPayload - 1) / maxPayload)
  rw [← chunks] at tiles
  have firstCut : cut 0 = 0 := by simp [cut]
  have lastCut : cut (0 + (packetLen + maxPayload - 1) / maxPayload) = packetLen := by
    rw [Nat.zero_add]
    exact Nat.min_eq_right (le_chunkCount_mul positive)
  rw [firstCut, lastCut] at tiles
  exact tiles

/-- A chunk is not empty, and no longer than the MTU. -/
theorem mtuChunks_bounded {packetLen maxPayload : Nat} (positive : 0 < maxPayload) {chunk : Span}
    (member : chunk ∈ mtuChunks packetLen maxPayload) :
    chunk.first < chunk.stop ∧ chunk.length ≤ maxPayload := by
  rcases List.mem_map.mp member with ⟨index, inRange, rfl⟩
  have inside := lt_of_lt_chunkCount positive (List.mem_range.mp inRange)
  simp only [Span.length]
  omega

/-! ## Ranges for paths -/

/-- The pieces of a payload, one for each range. -/
def splitParts (payload : Bytes) (ranges : List SplitRange) : List Bytes :=
  ranges.map fun range => range.span.slice payload

theorem flatten_splitParts {payload : Bytes} {ranges : List SplitRange}
    (tiles : Tiles 0 payload.length (ranges.map SplitRange.span)) :
    (splitParts payload ranges).flatten = payload := by
  have whole := tiles.flatten_slices_whole
  rw [List.map_map] at whole
  exact whole

/-- What a split of a payload over a number of paths has to be. -/
structure ValidSplit (packetLen paths : Nat) (mtu : Option Nat) (ranges : List SplitRange) :
    Prop where
  count : ranges.length ≤ maxFragments
  tiles : Tiles 0 packetLen (ranges.map SplitRange.span)
  nonempty : ∀ range ∈ ranges, range.span.first < range.span.stop
  ordered : ranges.Pairwise fun left right => left.pathIndex ≤ right.pathIndex
  onPath : ∀ range ∈ ranges, range.pathIndex < paths
  withinMtu : ∀ maxPayload, mtu = some maxPayload → maxPayload < packetLen →
    ∀ range ∈ ranges, range.span.length ≤ maxPayload

theorem mem_pathChunks {chunks : List Span} {indexed : Span × Nat} {range : SplitRange}
    (member : range ∈ pathChunks chunks indexed) :
    range.pathIndex = indexed.2 ∧ range.span ∈ chunks := by
  rcases List.mem_map.mp member with ⟨chunk, taken, rfl⟩
  exact ⟨rfl, List.mem_of_mem_drop (List.mem_of_mem_take taken)⟩

/-- The chunks, in their order, are what the paths get. -/
theorem map_span_flatMap_pathChunks {chunks spans : List Span}
    (tiles : Tiles 0 chunks.length spans) :
    (spans.zipIdx.flatMap (pathChunks chunks)).map SplitRange.span = chunks := by
  have spansOf : ∀ indexed : Span × Nat,
      (pathChunks chunks indexed).map SplitRange.span = indexed.1.slice chunks := by
    intro indexed
    rw [pathChunks, List.map_map]
    exact List.map_id _
  rw [List.map_flatMap]
  simp only [spansOf]
  rw [← List.flatMap_map Prod.fst fun span : Span => span.slice chunks, List.zipIdx_map_fst,
    List.flatMap_def, tiles.flatten_slices_whole]

/-- The case of no chunks needs no treatment of its own. -/
theorem mtuChunkedSplitRanges_eq (packetLen : Nat) {weights : List W} (nonempty : weights ≠ [])
    {maxPayload : Nat} (positive : 0 < maxPayload) :
    mtuChunkedSplitRanges packetLen weights maxPayload =
      if maxFragments < (mtuChunks packetLen maxPayload).length then none
      else some ((weightedSplitRanges (mtuChunks packetLen maxPayload).length
        weights).zipIdx.flatMap (pathChunks (mtuChunks packetLen maxPayload))) := by
  have weighted : weights.isEmpty = false := by simpa using nonempty
  rw [mtuChunkedSplitRanges, if_neg (Nat.ne_of_gt positive)]
  dsimp only
  rw [weighted, Bool.or_false]
  cases mtuChunks packetLen maxPayload with
  | nil =>
      have nothing : ∀ indexed, pathChunks [] indexed = [] := by
        intro indexed
        simp [pathChunks, Span.slice]
      simp [nothing]
  | cons chunk rest => rfl

theorem mtuChunked_valid (packetLen : Nat) {weights : List W} (nonempty : weights ≠ [])
    {maxPayload : Nat} (positive : 0 < maxPayload)
    (few : (mtuChunks packetLen maxPayload).length ≤ maxFragments) :
    ValidSplit packetLen weights.length (some maxPayload)
      ((weightedSplitRanges (mtuChunks packetLen maxPayload).length
        weights).zipIdx.flatMap (pathChunks (mtuChunks packetLen maxPayload))) := by
  have spans := weightedSplitRanges_tiles (mtuChunks packetLen maxPayload).length nonempty
  have chunks := map_span_flatMap_pathChunks spans
  have isChunk : ∀ range ∈ (weightedSplitRanges (mtuChunks packetLen maxPayload).length
      weights).zipIdx.flatMap (pathChunks (mtuChunks packetLen maxPayload)),
      range.span ∈ mtuChunks packetLen maxPayload := by
    intro range member
    rw [← chunks]
    exact List.mem_map_of_mem member
  constructor
  · rw [← List.length_map SplitRange.span, chunks]
    exact few
  · rw [chunks]
    exact mtuChunks_tiles packetLen positive
  · intro range member
    exact (mtuChunks_bounded positive (isChunk range member)).1
  · rw [List.pairwise_flatMap]
    constructor
    · intro indexed _
      rw [pathChunks, List.pairwise_map]
      exact List.pairwise_of_forall fun _ _ => Nat.le_refl _
    · apply (ListLoops.pairwise_zipIdx _).imp
      intro left right earlier first firstMember second secondMember
      rw [(mem_pathChunks firstMember).1, (mem_pathChunks secondMember).1]
      exact Nat.le_of_lt earlier
  · intro range member
    rcases List.mem_flatMap.mp member with ⟨indexed, given, taken⟩
    rw [(mem_pathChunks taken).1, ← length_weightedSplitRanges]
    exact List.snd_lt_of_mem_zipIdx given
  · intro bound same _ range member
    cases same
    exact (mtuChunks_bounded positive (isChunk range member)).2

theorem map_span_nonemptySplitRanges (spans : List Span) :
    (nonemptySplitRanges spans).map SplitRange.span =
      spans.filter fun span => span.first ≠ span.stop := by
  have kept : (spans.zipIdx.map Prod.fst).filter (fun span => span.first ≠ span.stop) =
      (spans.zipIdx.filter fun (span, _) => span.first ≠ span.stop).map Prod.fst :=
    List.filter_map
  rw [List.zipIdx_map_fst] at kept
  rw [nonemptySplitRanges, List.map_map, kept]
  rfl

theorem nonemptySplitRanges_valid (packetLen : Nat) {weights : List W} (nonempty : weights ≠ [])
    (few : weights.length ≤ maxFragments) {mtu : Option Nat}
    (fits : ∀ maxPayload, mtu = some maxPayload → packetLen ≤ maxPayload) :
    ValidSplit packetLen weights.length mtu
      (nonemptySplitRanges (weightedSplitRanges packetLen weights)) := by
  have spans := weightedSplitRanges_tiles packetLen nonempty
  have kept := map_span_nonemptySplitRanges (weightedSplitRanges packetLen weights)
  have tiles : Tiles 0 packetLen ((nonemptySplitRanges
      (weightedSplitRanges packetLen weights)).map SplitRange.span) := by
    rw [kept]
    exact spans.filter_nonempty
  constructor
  · rw [← List.length_map SplitRange.span, kept]
    apply Nat.le_trans (List.length_filter_le _ _)
    rw [length_weightedSplitRanges]
    exact few
  · exact tiles
  · intro range member
    have spanMember : range.span ∈ (nonemptySplitRanges
        (weightedSplitRanges packetLen weights)).map SplitRange.span :=
      List.mem_map_of_mem member
    have ordered := (tiles.bounds spanMember).2.1
    rw [kept] at spanMember
    have different := (List.mem_filter.mp spanMember).2
    simp only [ne_eq, decide_not, Bool.not_eq_eq_eq_not, Bool.not_true,
      decide_eq_false_iff_not] at different
    omega
  · rw [nonemptySplitRanges, List.pairwise_map]
    apply ((ListLoops.pairwise_zipIdx _).filter _).imp
    intro left right earlier
    exact Nat.le_of_lt earlier
  · intro range member
    rcases List.mem_map.mp member with ⟨indexed, given, rfl⟩
    have bound := List.snd_lt_of_mem_zipIdx (List.mem_of_mem_filter given)
    rw [length_weightedSplitRanges] at bound
    exact bound
  · intro maxPayload same exceeds
    have fitting := fits maxPayload same
    omega

/-- The ranges are a split of the payload, unless it needs too many chunks. -/
theorem packetSplitRanges_cases (packetLen : Nat) {weights : List W} (nonempty : weights ≠ [])
    (few : weights.length ≤ maxFragments) {mtu : Option Nat}
    (positive : ∀ maxPayload, mtu = some maxPayload → 0 < maxPayload) :
    (packetSplitRanges packetLen weights mtu = none ∧ ∃ maxPayload, mtu = some maxPayload ∧
        maxPayload < packetLen ∧
        maxFragments < (packetLen + maxPayload - 1) / maxPayload) ∨
      (∃ ranges, packetSplitRanges packetLen weights mtu = some ranges ∧
        ValidSplit packetLen weights.length mtu ranges) ∧
      ∀ maxPayload, mtu = some maxPayload → maxPayload < packetLen →
        (packetLen + maxPayload - 1) / maxPayload ≤ maxFragments := by
  by_cases exceeds : ∃ maxPayload, mtu = some maxPayload ∧ maxPayload < packetLen
  · rcases exceeds with ⟨maxPayload, rfl, exceeds⟩
    have chunked : packetSplitRanges packetLen weights (some maxPayload) =
        mtuChunkedSplitRanges packetLen weights maxPayload := by
      rw [packetSplitRanges, Option.filter_some, if_pos (decide_eq_true exceeds)]
    have isPositive := positive maxPayload rfl
    rw [chunked, mtuChunkedSplitRanges_eq packetLen nonempty isPositive]
    by_cases many : maxFragments < (mtuChunks packetLen maxPayload).length
    · rw [if_pos many]
      rw [length_mtuChunks] at many
      exact Or.inl ⟨rfl, maxPayload, rfl, exceeds, many⟩
    · rw [if_neg many]
      apply Or.inr
      constructor
      · exact ⟨_, rfl, mtuChunked_valid packetLen nonempty isPositive (Nat.le_of_not_lt many)⟩
      · intro other same _
        cases same
        rw [length_mtuChunks] at many
        exact Nat.le_of_not_lt many
  · have fits : ∀ maxPayload, mtu = some maxPayload → packetLen ≤ maxPayload := by
      intro maxPayload same
      exact Nat.le_of_not_lt fun exceeding => exceeds ⟨maxPayload, same, exceeding⟩
    have valid := nonemptySplitRanges_valid packetLen nonempty few fits
    have unchunked : mtu.filter (fun mtu => mtu < packetLen) = none := by
      rw [Option.filter_eq_none_iff]
      intro maxPayload same
      have fitting := fits maxPayload same
      simpa using fitting
    apply Or.inr
    constructor
    · refine ⟨_, ?_, valid⟩
      rw [packetSplitRanges, unchunked]
      exact if_pos valid.count
    · intro maxPayload same exceeding
      exact absurd (fits maxPayload same) (Nat.not_le.mpr exceeding)

/-- A payload is left whole exactly when it needs too many chunks. -/
theorem packetSplitRanges_eq_none_iff (packetLen : Nat) {weights : List W} (nonempty : weights ≠ [])
    (few : weights.length ≤ maxFragments) {mtu : Option Nat}
    (positive : ∀ maxPayload, mtu = some maxPayload → 0 < maxPayload) :
    packetSplitRanges packetLen weights mtu = none ↔ ∃ maxPayload,
      mtu = some maxPayload ∧ maxPayload < packetLen ∧
        maxFragments < (packetLen + maxPayload - 1) / maxPayload := by
  rcases packetSplitRanges_cases packetLen nonempty few positive with
    ⟨refused, needsMany⟩ | ⟨⟨ranges, split, _⟩, fits⟩
  · exact iff_of_true refused needsMany
  · constructor
    · intro unsplit
      cases unsplit.symm.trans split
    · rintro ⟨maxPayload, same, exceeds, many⟩
      exact absurd (fits maxPayload same exceeds) (Nat.not_le.mpr many)

theorem validSplit_of_packetSplitRanges {packetLen : Nat} {weights : List W}
    (nonempty : weights ≠ []) (few : weights.length ≤ maxFragments) {mtu : Option Nat}
    (positive : ∀ maxPayload, mtu = some maxPayload → 0 < maxPayload)
    {ranges : List SplitRange} (split : packetSplitRanges packetLen weights mtu = some ranges) :
    ValidSplit packetLen weights.length mtu ranges := by
  rcases packetSplitRanges_cases packetLen nonempty few positive with
    ⟨refused, _⟩ | ⟨⟨other, same, valid⟩, _⟩
  · cases refused.symm.trans split
  · cases split.symm.trans same
    exact valid

end Irohsion.Client
