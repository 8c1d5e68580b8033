import Irohsion.Client.SendCalls

/-! # Calls for a single packet

`send_packet` sends a payload whole or in the parts of one split, with a whole
copy on the rescue paths.
-/

namespace Irohsion.Client

open Protocol

variable {Rate Weight : Type} (config : SendConfig) (reads : Reads Rate Weight)
variable {shipments : List Shipment} {state : ClientState}

/-! ## Fragments -/

theorem partPackets_splitParts (sequence : Nat) (payload : Bytes) (ranges : List SplitRange) :
    partPackets sequence (splitParts payload ranges) =
      ranges.zipIdx.map fun indexed =>
        packetBytes ⟨sequence, indexed.2, ranges.length⟩ (indexed.1.span.slice payload) := by
  rw [partPackets, splitParts, List.length_map, List.mapIdx_eq_zipIdx_map, List.zipIdx_map,
    List.map_map]
  rfl

/-- A split gives one packet for each part, each for one of the paths. -/
theorem fragmentSends_spec {sequence : Nat} (media : sequence ≤ maxMediaSequence)
    (payload : Bytes) {paths : List PathConnection} {ranges : List SplitRange}
    (few : ranges.length ≤ maxFragments)
    (onPath : ∀ range ∈ ranges, range.pathIndex < paths.length) :
    ∃ sends, fragmentSends paths sequence payload ranges = some sends ∧
      sends.map FragmentSend.packet = partPackets sequence (splitParts payload ranges) ∧
      ∀ send ∈ sends, send.path ∈ paths := by
  have noOverflow : ¬ 2 ^ 8 ≤ ranges.length := by
    have bound : maxFragments < 2 ^ 8 := by decide
    omega
  rw [fragmentSends, if_neg noOverflow, partPackets_splitParts]
  apply ListLoops.exists_mapM
  intro indexed member
  have inBounds := onPath indexed.1 (List.fst_mem_of_mem_zipIdx member)
  have index : indexed.2 < ranges.length := List.snd_lt_of_mem_zipIdx member
  have valid := fragment_valid (le_maxSequence media) index few
  dsimp only
  rw [List.getElem?_eq_getElem inBounds, Option.bind_some, encodePacket_of_valid valid]
  exact ⟨_, rfl, rfl, List.getElem_mem inBounds⟩

def FragmentSend.sent (send : FragmentSend) : PathConnection × Bytes := (send.path, send.packet)

/-- Every fragment goes to the path that was chosen for it. -/
theorem sendFragments_stretch (faithful : Faithful shipments state) {sequence : Nat}
    {sends : List FragmentSend} (ships : ∀ send ∈ sends, Ships shipments sequence send.packet) :
    Stretch shipments (sends.map FragmentSend.sent) state
      (sends.foldl (fun state send => state.sendOnPath send.packet send.path) state) := by
  induction sends generalizing state with
  | nil => exact .refl faithful
  | cons send rest induction =>
      have first := sendOnPath_stretch faithful (ships send List.mem_cons_self) send.path
      exact first.trans (induction first.faithful fun other member =>
        ships other (List.mem_cons_of_mem _ member))

/-! ## The branches of `send_packet` -/

variable [Measure Rate]

/-- The copies of the whole payload on the rescue paths. -/
def rescueCopies (sequence : Nat) (payload : Bytes) : List (PathConnection × Bytes) :=
  if packetExceedsMtu payload.length config.mtu then []
  else (rescuePaths config reads).map (·, packetBytes ⟨sequence, 0, 1⟩ payload)

theorem rescuePaths_subset : rescuePaths config reads ⊆ activePaths config reads := by
  rw [rescuePaths]
  split
  · exact List.nil_subset _
  · exact List.filter_subset_self _

theorem rescueCopies_subset {sequence : Nat} {payload : Bytes} {sent : PathConnection × Bytes}
    (member : sent ∈ rescueCopies config reads sequence payload) :
    sent.1 ∈ activePaths config reads := by
  rw [rescueCopies] at member
  split at member
  · cases member
  · rcases List.mem_map.mp member with ⟨path, isRescue, rfl⟩
    exact rescuePaths_subset config reads isRescue

theorem rescueCopies_eq_nil {payload : Bytes} (sequence : Nat)
    (nothing : rescuePaths config reads = [] ∨ packetExceedsMtu payload.length config.mtu = true) :
    rescueCopies config reads sequence payload = [] := by
  rw [rescueCopies]
  split
  · rfl
  · rename_i fits
    rw [nothing.resolve_right fits, List.map_nil]

theorem sendRescue_stretch (faithful : Faithful shipments state) {sequence : Nat}
    (media : sequence ≤ maxMediaSequence) (payload : Bytes)
    (ships : Ships shipments sequence (packetBytes ⟨sequence, 0, 1⟩ payload)) :
    ∃ next, sendRescue config reads sequence payload state = some next ∧
      Stretch shipments (rescueCopies config reads sequence payload) state next := by
  rw [sendRescue]
  split
  · rename_i rescued
    have cached := cacheWhole_stretch faithful (reads .rescueCache).now ships payload.length
    have sent := cached.trans (sendOnPaths_stretch cached.faithful ships
      (rescuePaths config reads))
    rw [Bool.and_eq_true, Bool.not_eq_true'] at rescued
    rw [singleFragmentPacket_eq media, rescueCopies, if_neg (by simpa using rescued.2)]
    exact ⟨_, rfl, sent⟩
  · rename_i nothing
    have copies : rescueCopies config reads sequence payload = [] := by
      apply rescueCopies_eq_nil
      simpa [or_iff_not_imp_left] using nothing
    rw [copies]
    exact ⟨state, rfl, .refl faithful⟩

/-- A split sends each part once, and the rescue copies besides. -/
theorem sendSplit_stretch (faithful : Faithful shipments state) {shipment : Shipment}
    (member : shipment ∈ shipments) {ranges : List SplitRange}
    (few : ranges.length ≤ maxFragments)
    (onPath : ∀ range ∈ ranges, range.pathIndex < (packetSplitPaths config reads).length)
    (parts : ranges = [] ∨ shipment.parts = splitParts shipment.payload ranges) :
    ∃ packets next,
      sendSplit config reads shipment.sequence shipment.payload ranges state = some next ∧
      Stretch shipments
        (packets ++ rescueCopies config reads shipment.sequence shipment.payload) state next ∧
      (∀ sent ∈ packets, sent.1 ∈ seenPaths config reads) ∧
      packets.map Prod.snd =
        partPackets shipment.sequence (splitParts shipment.payload ranges) := by
  rcases fragmentSends_spec shipment.media shipment.payload few onPath with
    ⟨sends, fragmented, packets, onPaths⟩
  have ships : ∀ send ∈ sends, Ships shipments shipment.sequence send.packet := by
    intro send isSend
    have isPart : send.packet ∈ partPackets shipment.sequence
        (splitParts shipment.payload ranges) := by
      rw [← packets]
      exact List.mem_map_of_mem isSend
    cases parts with
    | inl empty =>
        rw [empty] at isPart
        cases isPart
    | inr same =>
        rw [← same] at isPart
        exact ⟨shipment, member, rfl, Or.inr isPart⟩
  have whole : Ships shipments shipment.sequence
      (packetBytes ⟨shipment.sequence, 0, 1⟩ shipment.payload) :=
    ⟨shipment, member, rfl, Or.inl rfl⟩
  have count : (sends.map fun send => (⟨send.packet, send.payloadLen⟩ :
      CachedFragment)).length ≤ maxFragments := by
    have lengths := congrArg List.length packets
    rw [List.length_map, partPackets, List.length_mapIdx, splitParts, List.length_map] at lengths
    rw [List.length_map, lengths]
    exact few
  have cached := cacheRepairFragments_stretch faithful (reads (.cache 0)).now count
    (by
      intro fragment isFragment
      rcases List.mem_map.mp isFragment with ⟨send, isSend, rfl⟩
      exact ships send isSend)
  have sent := cached.trans (sendFragments_stretch cached.faithful ships)
  rcases sendRescue_stretch config reads sent.faithful shipment.media shipment.payload whole with
    ⟨rescued, isRescued, copies⟩
  rcases recordFec_stretch copies.faithful config reads 0 member with ⟨next, recorded, parity⟩
  refine ⟨sends.map FragmentSend.sent, next, ?_, ?_, ?_, ?_⟩
  · rw [sendSplit, fragmented]
    dsimp only
    rw [isRescued]
    exact recorded
  · have all := (sent.trans copies).trans parity
    rw [List.append_nil, List.nil_append] at all
    exact all
  · intro entry isPart
    rcases List.mem_map.mp isPart with ⟨send, isSend, rfl⟩
    exact packetSplitPaths_subset config reads (onPaths send isSend)
  · rw [List.map_map]
    exact packets

theorem sendWhole_stretch (faithful : Faithful shipments state) {shipment : Shipment}
    (member : shipment ∈ shipments) (active : activePaths config reads ≠ []) :
    ∃ chosen next, sendWhole config reads shipment.sequence shipment.payload state = some next ∧
      chosen ≠ [] ∧ chosen ⊆ activePaths config reads ∧
      Stretch shipments
        (chosen.map (·, packetBytes ⟨shipment.sequence, 0, 1⟩ shipment.payload)) state next := by
  have ships : Ships shipments shipment.sequence
      (packetBytes ⟨shipment.sequence, 0, 1⟩ shipment.payload) :=
    ⟨shipment, member, rfl, Or.inl rfl⟩
  have cached := cacheWhole_stretch faithful (reads (.cache 0)).now ships shipment.payload.length
  have onPaths : ∀ chosen, ∃ next,
      recordFec config reads 0 shipment.sequence shipment.payload
        ((state.cacheRepairFragments (reads (.cache 0)).now shipment.sequence
          [⟨packetBytes ⟨shipment.sequence, 0, 1⟩ shipment.payload,
            shipment.payload.length⟩]).sendOnPaths
          (packetBytes ⟨shipment.sequence, 0, 1⟩ shipment.payload) chosen) = some next ∧
      Stretch shipments
        (chosen.map (·, packetBytes ⟨shipment.sequence, 0, 1⟩ shipment.payload)) state next := by
    intro chosen
    have sent := cached.trans (sendOnPaths_stretch cached.faithful ships chosen)
    rcases recordFec_stretch sent.faithful config reads 0 member with ⟨next, recorded, parity⟩
    have all := sent.trans parity
    rw [List.append_nil, List.nil_append] at all
    exact ⟨next, recorded, all⟩
  rw [sendWhole]
  dsimp only
  rw [singleFragmentPacket_eq shipment.media]
  dsimp only
  split
  · rcases roundRobinPath_of_ne_nil reads 0 active with ⟨path, inTurn, isActive⟩
    rcases onPaths [path] with ⟨next, recorded, stretch⟩
    rw [inTurn]
    exact ⟨[path], next, recorded, List.cons_ne_nil _ _,
      List.cons_subset.mpr ⟨isActive, List.nil_subset _⟩, stretch⟩
  · rcases onPaths (activePaths config reads) with ⟨next, recorded, stretch⟩
    exact ⟨_, next, recorded, active, List.Subset.refl _, stretch⟩

/-! ## Dropped packets -/

/-- As many chunks of the MTU as a packet may have fragments hold the payload. -/
def FitsFragments (payloadLen : Nat) : Prop :=
  ∀ maxPayload, config.mtu = some maxPayload →
    (payloadLen + maxPayload - 1) / maxPayload ≤ maxFragments

/-- The payload is too long for a packet and no path may carry its parts, or it
is empty and split over several paths, which leaves no part. -/
def PacketDropped (payload : Bytes) : Prop :=
  (packetExceedsMtu payload.length config.mtu = true ∧
      ∀ path ∈ config.paths, (reads .splitPaths).connected path = true →
        path.displayName ∉ (pathGroups config reads).1) ∨
    (payload = [] ∧ readMode reads = .split ∧
      2 ≤ (config.paths.filter (reads .splitPaths).connected).length)

theorem packetSplitPaths_eq_nil_iff :
    packetSplitPaths config reads = [] ↔
      ∀ path ∈ config.paths, (reads .splitPaths).connected path = true →
        path.displayName ∉ (pathGroups config reads).1 := by
  rw [packetSplitPaths, List.filter_eq_nil_iff]
  simp only [List.mem_filter, decide_eq_true_eq, and_imp]

theorem packetSplitPaths_of_split (split : readMode reads = .split) :
    packetSplitPaths config reads = config.paths.filter (reads .splitPaths).connected := by
  have notAuto : ¬ (readMode reads = .auto ∧ readEffective reads = .split) := by
    rw [split]
    intro auto
    cases auto.1
  rw [packetSplitPaths, pathGroups_of_not_auto config reads notAuto, List.filter_eq_self]
  intro path member
  exact decide_eq_true (List.mem_map_of_mem (List.mem_of_mem_filter member))

theorem rescuePaths_of_split (split : readMode reads = .split) :
    rescuePaths config reads = [] := by
  have notAuto : ¬ (readMode reads = .auto ∧ readEffective reads = .split) := by
    rw [split]
    intro auto
    cases auto.1
  rw [rescuePaths, pathGroups_of_not_auto config reads notAuto]
  rfl

theorem packetExceedsMtu_zero (mtu : Option Nat) : packetExceedsMtu 0 mtu = false := by
  cases mtu <;> rfl

/-- An empty payload is split only in the split mode, over several paths. -/
theorem shouldSplit_zero (threshold mtu : Option Nat) (pathCount : Nat) (mode : StrategyMode)
    (strategy : PathStrategy) :
    shouldSplit 0 threshold mtu pathCount mode strategy = true ↔
      mode = .split ∧ 2 ≤ pathCount := by
  unfold shouldSplit
  rw [packetExceedsMtu_zero, if_neg Bool.false_ne_true]
  by_cases few : pathCount ≤ 1
  · rw [if_pos few]
    simp [Nat.not_le.mpr (Nat.lt_succ_of_le few)]
  · rw [if_neg few]
    cases mode <;> simp
    omega

theorem shouldSplit_of_exceeds {packetLen : Nat} {mtu : Option Nat}
    (exceeds : packetExceedsMtu packetLen mtu = true) (threshold : Option Nat) (pathCount : Nat)
    (mode : StrategyMode) (strategy : PathStrategy) :
    shouldSplit packetLen threshold mtu pathCount mode strategy = true := if_pos exceeds

/-- Without a path there is a split only for a payload that is too long. -/
theorem exceeds_of_shouldSplit {packetLen : Nat} {threshold mtu : Option Nat}
    {mode : StrategyMode} {strategy : PathStrategy}
    (split : shouldSplit packetLen threshold mtu 0 mode strategy = true) :
    packetExceedsMtu packetLen mtu = true := by
  by_cases exceeds : packetExceedsMtu packetLen mtu = true
  · exact exceeds
  · unfold shouldSplit at split
    rw [if_neg exceeds] at split
    cases split

theorem shouldSplit_of_dropped {payload : Bytes} (dropped : PacketDropped config reads payload) :
    shouldSplit payload.length config.splitThresholdBytes config.mtu
      (packetSplitPaths config reads).length (readMode reads) (readEffective reads) = true := by
  cases dropped with
  | inl long => exact shouldSplit_of_exceeds long.1 _ _ _ _
  | inr empty =>
      rw [empty.1, List.length_nil, shouldSplit_zero, packetSplitPaths_of_split _ _ empty.2.1]
      exact empty.2

/-- An empty payload has no range. -/
theorem ranges_eq_nil_of_valid {paths : Nat} {mtu : Option Nat} {ranges : List SplitRange}
    (valid : ValidSplit 0 paths mtu ranges) : ranges = [] := by
  cases ranges with
  | nil => rfl
  | cons range rest =>
      have nonempty := valid.nonempty range List.mem_cons_self
      have bounds := valid.tiles.bounds (List.mem_map_of_mem List.mem_cons_self)
      omega

theorem packetSplitRanges_nil {packetLen : Nat} {mtu : Option Nat} {ranges : List SplitRange}
    {Weight : Type} [Zero Weight] [Add Weight] [WeightShare Weight]
    (exceeds : packetExceedsMtu packetLen mtu = true)
    (split : packetSplitRanges packetLen ([] : List Weight) mtu = some ranges) :
    ranges = [] := by
  cases mtu with
  | none => cases exceeds
  | some maxPayload =>
      have tooLong : decide (maxPayload < packetLen) = true := exceeds
      rw [packetSplitRanges, Option.filter_some, if_pos tooLong] at split
      dsimp only at split
      rw [mtuChunkedSplitRanges] at split
      dsimp only at split
      rw [List.isEmpty_nil, Bool.or_true, if_pos rfl] at split
      split at split
      · cases split
      · split at split
        · cases split
        · cases split
          rfl

/-- The call does not panic and stays with one shipment. It hands the payload
over unless it is dropped or does not fit. -/
def SendsPacket (shipments : List Shipment) (sequence : Nat) (payload : Bytes)
    (state : ClientState) (result : Option ClientState) : Prop :=
  ∃ shipment packets next, result = some next ∧ shipment.sequence = sequence ∧
    shipment.payload = payload ∧ Stretch (shipments ++ [shipment]) packets state next ∧
    (activePaths config reads ≠ [] → FitsFragments config payload.length →
      ¬ PacketDropped config reads payload →
      Handed (seenPaths config reads) [shipment] packets) ∧
    (PacketDropped config reads payload → packets = [])

variable {config reads} {next : ClientState} {sequence : Nat} {payload : Bytes}

theorem SendsPacket.of_nothing {shipment : Shipment} (named : shipment.sequence = sequence)
    (carried : shipment.payload = payload)
    (stretch : Stretch (shipments ++ [shipment]) [] state next)
    (dropped : activePaths config reads ≠ [] → FitsFragments config payload.length →
      PacketDropped config reads payload) :
    SendsPacket config reads shipments sequence payload state (some next) :=
  ⟨shipment, [], next, rfl, named, carried, stretch,
    fun active fits kept => absurd (dropped active fits) kept, fun _ => rfl⟩

theorem splitRefused_stretch (faithful : Faithful shipments state) (payloadLen : Nat)
    (mtu : Option Nat) :
    Stretch shipments [] state (state.emit (.splitRefused payloadLen mtu)) where
  faithful := faithful.emit trivial
  sent := sentPackets_append _ _
  ingested := by
    rw [ClientState.emit, ingestedPayloads_append]
    exact List.append_nil _
  seq := rfl

/-- A payload that travels in the parts of a split. -/
def Shipment.split {paths : Nat} {mtu : Option Nat} {ranges : List SplitRange}
    (media : sequence ≤ maxMediaSequence)
    (valid : ValidSplit payload.length paths mtu ranges) : Shipment where
  sequence := sequence
  payload := payload
  parts := splitParts payload ranges
  media := media
  few := by
    rw [splitParts, List.length_map]
    exact valid.count
  flatten_parts := flatten_splitParts valid.tiles

/-- The split is over some path, and its ranges are valid. -/
theorem SendsPacket.of_split (faithful : Faithful shipments state)
    (media : sequence ≤ maxMediaSequence)
    (split : shouldSplit payload.length config.splitThresholdBytes config.mtu
      (packetSplitPaths config reads).length (readMode reads) (readEffective reads) = true)
    (onSome : packetSplitPaths config reads ≠ []) {ranges : List SplitRange}
    (valid : ValidSplit payload.length (packetSplitPaths config reads).length config.mtu ranges) :
    SendsPacket config reads shipments sequence payload state
      (sendSplit config reads sequence payload ranges state) := by
  have member : Shipment.split media valid ∈ shipments ++ [Shipment.split media valid] :=
    List.mem_append_right _ List.mem_cons_self
  rcases sendSplit_stretch config reads (faithful.of_subset (List.subset_append_left _ _)) member
    valid.count valid.onPath (Or.inr rfl) with
    ⟨packets, next, sent, stretch, onSeen, parts⟩
  refine ⟨_, packets ++ rescueCopies config reads sequence payload, next, sent, rfl, rfl, stretch,
    ?_, ?_⟩
  · intro _ _ kept
    have nonempty : payload ≠ [] := by
      intro empty
      rw [empty, List.length_nil, shouldSplit_zero] at split
      rw [packetSplitPaths_of_split _ _ split.1] at split
      exact kept (Or.inr ⟨empty, split⟩)
    refine ⟨?_, ?_⟩
    · intro entry isSent
      cases List.mem_append.mp isSent with
      | inl isPart => exact onSeen entry isPart
      | inr isCopy =>
          exact activePaths_subset config reads (rescueCopies_subset config reads isCopy)
    intro other isShipment
    rw [List.mem_singleton.mp isShipment]
    apply Reassembles.of_shipment nonempty
    rw [List.map_append, parts]
    exact List.subset_append_left _ _
  · intro dropped
    cases dropped with
    | inl long => exact absurd ((packetSplitPaths_eq_nil_iff config reads).mpr long.2) onSome
    | inr empty =>
        have noRanges : ranges = [] := by
          rw [empty.1] at valid
          exact ranges_eq_nil_of_valid valid
        have noParts : partPackets sequence (splitParts payload ranges) = [] := by
          rw [noRanges]
          rfl
        rw [List.map_eq_nil_iff.mp (parts.trans noParts), List.nil_append]
        exact rescueCopies_eq_nil config reads sequence
          (Or.inl (rescuePaths_of_split _ _ empty.2.1))

/-- The payload is too long, and there is no path for its parts. -/
theorem SendsPacket.of_no_split_path (faithful : Faithful shipments state)
    (media : sequence ≤ maxMediaSequence)
    (exceeds : packetExceedsMtu payload.length config.mtu = true)
    (onNone : packetSplitPaths config reads = []) :
    SendsPacket config reads shipments sequence payload state
      (sendSplit config reads sequence payload [] state) := by
  have member : Shipment.whole sequence payload media ∈
      shipments ++ [Shipment.whole sequence payload media] :=
    List.mem_append_right _ List.mem_cons_self
  have noRange : ∀ range ∈ ([] : List SplitRange),
      range.pathIndex < (packetSplitPaths config reads).length := by
    intro range isRange
    cases isRange
  rcases sendSplit_stretch config reads (faithful.of_subset (List.subset_append_left _ _)) member
    (Nat.zero_le _) noRange (Or.inl rfl) with
    ⟨packets, next, sent, stretch, _, parts⟩
  have noRescue := rescueCopies_eq_nil config reads sequence (Or.inr exceeds)
  rw [List.map_eq_nil_iff.mp parts, List.nil_append, Shipment.whole, noRescue] at stretch
  have dropped : PacketDropped config reads payload :=
    Or.inl ⟨exceeds, (packetSplitPaths_eq_nil_iff config reads).mp onNone⟩
  exact ⟨_, [], next, sent, rfl, rfl, stretch, fun _ _ kept => absurd dropped kept, fun _ => rfl⟩

variable (config reads) [Measure Weight] [Widen Rate Weight] [WeightShare Weight]

theorem sendPacket_spec (faithful : Faithful shipments state)
    (media : sequence ≤ maxMediaSequence) (payload : Bytes) :
    SendsPacket config reads shipments sequence payload state
      (sendPacket config reads payload sequence state) := by
  let whole := Shipment.whole sequence payload media
  have named : whole.sequence = sequence := rfl
  have member : whole ∈ shipments ++ [whole] := List.mem_append_right _ List.mem_cons_self
  have larger : Faithful (shipments ++ [whole]) state :=
    faithful.of_subset (List.subset_append_left _ _)
  rw [sendPacket]
  dsimp only
  by_cases active : activePaths config reads = []
  · rw [if_pos (List.isEmpty_iff.mpr active)]
    exact .of_nothing named rfl (.refl larger) fun nonempty _ => absurd active nonempty
  rw [if_neg (mt List.isEmpty_iff.mp active)]
  by_cases split : shouldSplit payload.length config.splitThresholdBytes config.mtu
      (packetSplitPaths config reads).length (readMode reads) (readEffective reads) = true
  · rw [if_pos split]
    by_cases onNone : packetSplitPaths config reads = []
    · have exceeds : packetExceedsMtu payload.length config.mtu = true := by
        rw [onNone] at split
        exact exceeds_of_shouldSplit split
      have dropped : PacketDropped config reads payload :=
        Or.inl ⟨exceeds, (packetSplitPaths_eq_nil_iff config reads).mp onNone⟩
      rw [splitPathWeights_eq_nil config reads onNone]
      cases result : packetSplitRanges payload.length ([] : List Weight) config.mtu with
      | none =>
          exact .of_nothing named rfl (splitRefused_stretch larger _ _) fun _ _ => dropped
      | some ranges =>
          rw [packetSplitRanges_nil exceeds result]
          exact .of_no_split_path faithful media exceeds onNone
    · rcases packetSplitRanges_cases payload.length (splitPathWeights_ne_nil reads onNone)
        (length_packetSplitWeights_le config reads) config.mtu_pos with
        ⟨result, maxPayload, isMtu, _, many⟩ | ⟨⟨ranges, result, valid⟩, _⟩
      · rw [result]
        exact .of_nothing named rfl (splitRefused_stretch larger _ _) fun _ fits =>
          absurd (fits maxPayload isMtu) (Nat.not_le.mpr many)
      · rw [result]
        rw [length_splitPathWeights] at valid
        exact .of_split faithful media split onNone valid
  · rw [if_neg split]
    have kept : ¬ PacketDropped config reads payload := fun dropped =>
      split (shouldSplit_of_dropped config reads dropped)
    rcases sendWhole_stretch config reads larger member active with
      ⟨chosen, next, sent, nonempty, onActive, stretch⟩
    refine ⟨whole, _, next, sent, rfl, rfl, stretch, ?_, fun dropped => absurd dropped kept⟩
    intro _ _ _
    have onSeen := List.Subset.trans onActive (activePaths_subset config reads)
    exact .whole nonempty onSeen payload media

end Irohsion.Client
