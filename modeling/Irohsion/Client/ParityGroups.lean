import Irohsion.Client.FecFrameSizes
import Irohsion.Client.SenderRuns
import Irohsion.Foundation.SpacedKeys

/-! # Parity groups of a run

Every parity frame of a run protects a group of its own. The groups follow one
another in the order of the ingested payloads, so no two frames share a member.
-/

namespace Irohsion.Client

open Protocol

/-! ## Groups one after the other -/

/-- Groups follow one another among the packets, before the ones that are still held. Each
has at most one frame, and the frames are in the order of their groups. -/
def GroupsOf (packets held : List FecSourcePacket) (emitted : List Bytes) : Prop :=
  ∃ groups : List (List FecSourcePacket), (groups.flatten ++ held).Sublist packets ∧
    (∀ group ∈ groups, FullFecGroup group) ∧ emitted.Sublist (groups.map groupDatagram)

variable {packets more held later : List FecSourcePacket} {emitted others : List Bytes}

theorem GroupsOf.none (kept : held.Sublist packets) : GroupsOf packets held [] :=
  ⟨[], by simpa using kept, by simp, by simp⟩

theorem GroupsOf.group (full : FullFecGroup packets) :
    GroupsOf packets [] [groupDatagram packets] :=
  ⟨[packets], by simp, by simpa using full, by simp⟩

theorem GroupsOf.mono (groups : GroupsOf packets held emitted)
    (within : packets.Sublist more) : GroupsOf more held emitted := by
  rcases groups with ⟨groups, inOrder, full, frames⟩
  exact ⟨groups, inOrder.trans within, full, frames⟩

/-- What is held is the front of the packets that the next groups come from. -/
theorem GroupsOf.trans (first : GroupsOf packets held emitted)
    (second : GroupsOf (held ++ more) later others) :
    GroupsOf (packets ++ more) later (emitted ++ others) := by
  rcases first with ⟨front, inFront, frontFull, frontFrames⟩
  rcases second with ⟨back, inBack, backFull, backFrames⟩
  refine ⟨front ++ back, ?_, ?_, ?_⟩
  · have behind := (List.Sublist.refl front.flatten).append inBack
    have before := inFront.append (List.Sublist.refl more)
    rw [List.flatten_append, List.append_assoc]
    rw [List.append_assoc] at before
    exact behind.trans before
  · rw [List.forall_mem_append]
    exact ⟨frontFull, backFull⟩
  · rw [List.map_append]
    exact frontFrames.append backFrames

/-- The group of the frame ends before the other one begins. -/
def EndsBefore (frame other : FecFrame) : Prop :=
  frame.baseSequence + frame.payloadLengths.length ≤ other.baseSequence

theorem endsBefore_groupFrame {group other : List FecSourcePacket} (full : FullFecGroup group)
    (otherFull : FullFecGroup other)
    (increasing : group.Pairwise fun earlier later => earlier.sequence < later.sequence)
    (before : ∀ packet ∈ group, ∀ later ∈ other, packet.sequence < later.sequence) :
    EndsBefore (groupFrame group) (groupFrame other) := by
  rcases group with _ | ⟨least, rest⟩
  · exact absurd full.several (by decide)
  rcases other with _ | ⟨next, others⟩
  · exact absurd otherFull.several (by decide)
  have numbers : ((least :: rest).map FecSourcePacket.sequence).Pairwise (· < ·) :=
    List.pairwise_map.mpr increasing
  have below : ∀ key ∈ (least :: rest).map FecSourcePacket.sequence, key < next.sequence := by
    rw [List.forall_mem_map]
    exact fun packet member => before packet member next List.mem_cons_self
  have room := Spaced.add_length_le numbers below
  simpa [EndsBefore, groupFrame] using room

/-- The same frame, or one over other positions. -/
def Apart (frame other : FecFrame) : Prop :=
  frame = other ∨ EndsBefore frame other ∨ EndsBefore other frame

instance : Std.Symm Apart where
  symm _ _ apart := apart.imp Eq.symm Or.symm

/-- As long as sequences do not repeat, the frames cover different positions. -/
theorem GroupsOf.apart (groups : GroupsOf packets held emitted)
    (increasing : packets.Pairwise fun earlier later => earlier.sequence < later.sequence) :
    ∃ frames : List FecFrame, (∀ frame ∈ frames, ∀ other ∈ frames, Apart frame other) ∧
      ∀ datagram ∈ emitted, ∃ frame ∈ frames, encodeFecFrame frame = some datagram := by
  rcases groups with ⟨groups, inOrder, full, frames⟩
  have ordered := List.pairwise_flatten.mp
    (increasing.sublist ((List.sublist_append_left _ _).trans inOrder))
  refine ⟨groups.map groupFrame, ?_, ?_⟩
  · have before : (groups.map groupFrame).Pairwise Apart := by
      rw [List.pairwise_map]
      apply ordered.2.imp_of_mem
      intro group other member otherMember before
      right
      left
      exact endsBefore_groupFrame (full _ member) (full _ otherMember) (ordered.1 _ member) before
    intro frame member other otherMember
    have itself : ∀ frame ∈ groups.map groupFrame, Apart frame frame := fun _ _ => Or.inl rfl
    exact before.forall_of_forall itself member otherMember
  · intro datagram sent
    rcases List.mem_map.mp (frames.subset sent) with ⟨group, member, rfl⟩
    exact ⟨groupFrame group, List.mem_map_of_mem member,
      encodeFecFrame_of_valid (full group member).frame_valid⟩

/-! ## One call of `record` -/

namespace FecEncoder

variable {Rate Weight : Type} [Measure Rate] {encoder next : FecEncoder}
variable {call : RecordCall Rate Weight}

theorem flush_groups (full : FullFecGroup encoder.packets)
    (flushed : encoder.flush = some (emitted, next)) :
    GroupsOf encoder.packets next.packets emitted := by
  have several := full.several
  rw [flush] at flushed
  split at flushed
  · rename_i empty
    rw [List.isEmpty_iff.mp empty] at several
    contradiction
  · dsimp only at flushed
    rw [frame_eq_groupFrame, encodeFecFrame_of_valid full.frame_valid] at flushed
    split at flushed
    · cases flushed
      exact .none (List.nil_sublist _)
    · cases flushed
      exact .group full

theorem flushOrClear_groups (gathering : encoder.Gathering)
    (flushed : encoder.flushOrClear = some (emitted, next)) :
    next = encoder.clear ∧ GroupsOf encoder.packets [] emitted := by
  have cleared := (@flushOrClear_fits _ _ _ 0 flushed).1
  rw [flushOrClear] at flushed
  split at flushed
  · rename_i several
    have groups := flush_groups ⟨gathering.group, several, Nat.le_of_lt gathering.few⟩ flushed
    rw [cleared] at groups
    exact ⟨cleared, groups⟩
  · cases flushed
    exact ⟨rfl, .none (List.nil_sublist _)⟩

theorem push_groups {groupSize : Nat} {packet : FecSourcePacket} (allowed : GroupSize groupSize)
    (few : encoder.packets.length < maxFecGroupPackets)
    (group : FecGroup (encoder.packets ++ [packet]))
    (pushed : encoder.push groupSize packet.sequence packet.payload = some (emitted, next)) :
    GroupsOf (encoder.packets ++ [packet]) next.packets emitted := by
  rw [push] at pushed
  dsimp only at pushed
  split at pushed
  · rename_i reached
    have full : FullFecGroup (encoder.packets ++ [packet]) := by
      refine ⟨group, Nat.le_trans allowed.1 reached, ?_⟩
      rw [List.length_append, List.length_singleton]
      exact few
    exact @flush_groups _ { encoder with packets := encoder.packets ++ [packet] } _ full pushed
  · cases pushed
    exact .none (List.Sublist.refl _)

/-- The packets that a call gathers can be members of one frame. -/
theorem gathered_group (gathering : encoder.Gathering)
    (media : call.packet.sequence ≤ maxMediaSequence) : FecGroup (encoder.gathered call) := by
  rw [gathered]
  split
  · exact .nil
  · split
    · exact .nil
    · rename_i joins
      have short := Nat.lt_of_not_le (not_or.mp joins).1
      split
      · exact FecGroup.nil.append_singleton (by simp) media short
      · rename_i together
        apply gathering.group.append_singleton _ media short
        intro last isLast
        by_contra different
        apply together
        rw [Option.any_eq_true]
        exact ⟨last, isLast, decide_eq_true (Ne.symm different)⟩

theorem record_gathering (gathering : encoder.Gathering)
    (media : call.packet.sequence ≤ maxMediaSequence)
    (recorded : encoder.record call.strategy call.now call.packet.sequence call.packet.payload =
      some (emitted, next)) : next.Gathering := by
  rcases record_spec gathering call.strategy call.now call.packet.payload media with
    ⟨again, encoder, same, kept, -⟩
  cases recorded.symm.trans same
  exact kept

/-- A call ends the group that is held or adds the packet to it; what it ends is behind
what it keeps. -/
theorem record_groups (gathering : encoder.Gathering)
    (media : call.packet.sequence ≤ maxMediaSequence)
    (recorded : encoder.record call.strategy call.now call.packet.sequence call.packet.payload =
      some (emitted, next)) :
    GroupsOf (encoder.packets ++ [call.packet]) next.packets emitted := by
  have earlier : encoder.packets.Sublist (encoder.packets ++ [call.packet]) :=
    List.sublist_append_left _ _
  have group := gathered_group gathering media
  rcases record_cases recorded with
    ⟨-, rfl, rfl⟩ | ⟨-, flushed⟩ |
      ⟨groupSize, target, -, ⟨alone, cut, cleared, full, flushed, pushed, rfl⟩ | ⟨joins, pushed⟩⟩
  · exact .none earlier
  · rcases flushOrClear_groups gathering flushed with ⟨rfl, groups⟩
    exact groups.mono earlier
  · rcases flushOrClear_groups gathering flushed with ⟨rfl, groups⟩
    have allowed := targetGroupSize_allowed target
    rw [alone] at group
    have started : GroupsOf (encoder.clear.packets ++ [call.packet]) next.packets full :=
      push_groups allowed (Nat.zero_lt_succ 31) group pushed
    exact groups.trans started
  · rw [joins] at group
    exact push_groups (targetGroupSize_allowed target) gathering.few group pushed

end FecEncoder

/-! ## States of the sender -/

/-- What the encoder could have recorded of the trace. -/
def ingestedSources (trace : List ClientEffect) : List FecSourcePacket :=
  (ingestedPayloads trace).map fun (sequence, payload) => ⟨sequence, payload⟩

/-- The parity frames that were handed to paths. -/
def paritySends (trace : List ClientEffect) : List (PathConnection × Bytes) :=
  trace.filterMap fun
    | .sendFec path frame => some (path, frame)
    | _ => none

@[simp] theorem paritySends_append (first second : List ClientEffect) :
    paritySends (first ++ second) = paritySends first ++ paritySends second :=
  List.filterMap_append

theorem mem_paritySends {trace : List ClientEffect} {path : PathConnection} {frame : Bytes} :
    (path, frame) ∈ paritySends trace ↔ ClientEffect.sendFec path frame ∈ trace := by
  simp only [paritySends, List.mem_filterMap]
  constructor
  · rintro ⟨effect, member, same⟩
    cases effect <;> cases same
    exact member
  · exact fun member => ⟨_, member, rfl⟩

/-- A frame on the paths that it is sent on. -/
structure FrameSend where
  paths : List PathConnection
  frame : Bytes

def FrameSend.sends (send : FrameSend) : List (PathConnection × Bytes) :=
  send.paths.map fun path => (path, send.frame)

theorem paritySends_flatMap (paths : List PathConnection) (emitted : List Bytes) :
    paritySends (emitted.flatMap fun frame => paths.map (.sendFec · frame)) =
      (emitted.map (FrameSend.mk paths)).flatMap FrameSend.sends := by
  simp [paritySends, List.filterMap_flatMap, List.filterMap_map, List.flatMap_map,
    FrameSend.sends]

theorem ingestedPayloads_sendFec (paths : List PathConnection) (emitted : List Bytes) :
    ingestedPayloads (emitted.flatMap fun frame => paths.map (.sendFec · frame)) = [] := by
  rw [ingestedPayloads, List.filterMap_eq_nil_iff]
  intro effect member
  rcases List.mem_flatMap.mp member with ⟨frame, -, sends⟩
  rcases List.mem_map.mp sends with ⟨path, -, rfl⟩
  rfl

/-- The frames so far protect groups of the packets, one after the other. Each was sent
once, on some of the paths. -/
structure GroupsIn (paths : List PathConnection) (packets : List FecSourcePacket)
    (state : ClientState) : Prop where
  gathering : state.fec.Gathering
  groups : ∃ frames : List FrameSend,
    paritySends state.trace = frames.flatMap FrameSend.sends ∧
    (∀ send ∈ frames, send.paths.Sublist paths) ∧
    GroupsOf packets state.fec.packets (frames.map FrameSend.frame)

/-- Between two calls of `send_payload`. -/
structure GroupsApart (paths : List PathConnection) (state : ClientState) : Prop where
  media : state.seq ≤ maxMediaSequence
  inside : GroupsIn paths (ingestedSources state.trace) state

/-- As long as sequences do not repeat, the frames that were sent cover different positions. -/
theorem GroupsApart.frames_apart {paths : List PathConnection} {state : ClientState}
    (groups : GroupsApart paths state)
    (increasing : (ingestedSources state.trace).Pairwise fun earlier later =>
      earlier.sequence < later.sequence) :
    ∃ frames : List FecFrame, (∀ frame ∈ frames, ∀ other ∈ frames, Apart frame other) ∧
      ∀ sent ∈ paritySends state.trace, ∃ frame ∈ frames, encodeFecFrame frame = some sent.2 := by
  rcases groups.inside.groups with ⟨sends, all, -, inOrder⟩
  rcases inOrder.apart increasing with ⟨frames, apart, covers⟩
  refine ⟨frames, apart, ?_⟩
  intro sent member
  rw [all] at member
  rcases List.mem_flatMap.mp member with ⟨send, isSend, onPath⟩
  rcases List.mem_map.mp onPath with ⟨path, -, rfl⟩
  exact covers send.frame (List.mem_map_of_mem isSend)

/-- A payload has been ingested but not yet been recorded. -/
structure Unrecorded (paths : List PathConnection) (sequence : Nat) (payload : Bytes)
    (state : ClientState) : Prop where
  media : state.seq ≤ maxMediaSequence
  inside : ∃ packets, ingestedSources state.trace = packets ++ [⟨sequence, payload⟩] ∧
    GroupsIn paths packets state

/-- Nothing is ingested and nothing recorded. -/
structure KeepsGroups (state next : ClientState) : Prop where
  seq : next.seq = state.seq
  fec : next.fec = state.fec
  ingested : ingestedPayloads next.trace = ingestedPayloads state.trace
  frames : paritySends next.trace = paritySends state.trace

variable {state middle next : ClientState} {sequence : Nat} {payload packet : Bytes}
variable {paths : List PathConnection}

theorem KeepsGroups.refl (state : ClientState) : KeepsGroups state state := ⟨rfl, rfl, rfl, rfl⟩

theorem KeepsGroups.trans (first : KeepsGroups state middle) (second : KeepsGroups middle next) :
    KeepsGroups state next where
  seq := second.seq.trans first.seq
  fec := second.fec.trans first.fec
  ingested := second.ingested.trans first.ingested
  frames := second.frames.trans first.frames

theorem GroupsIn.keeps (inside : GroupsIn paths packets state) (keeps : KeepsGroups state next) :
    GroupsIn paths packets next where
  gathering := by simpa [keeps.fec] using inside.gathering
  groups := by simpa [keeps.fec, keeps.frames] using inside.groups

theorem GroupsApart.keeps (apart : GroupsApart paths state) (keeps : KeepsGroups state next) :
    GroupsApart paths next where
  media := by simpa [keeps.seq] using apart.media
  inside := by simpa [ingestedSources, keeps.ingested] using apart.inside.keeps keeps

theorem Unrecorded.keeps (unrecorded : Unrecorded paths sequence payload state)
    (keeps : KeepsGroups state next) : Unrecorded paths sequence payload next where
  media := by simpa [keeps.seq] using unrecorded.media
  inside := by
    rcases unrecorded.inside with ⟨packets, all, inside⟩
    refine ⟨packets, ?_, inside.keeps keeps⟩
    simpa [ingestedSources, keeps.ingested] using all

/-- The payload may stay unrecorded. -/
theorem Unrecorded.dropped (unrecorded : Unrecorded paths sequence payload state) :
    GroupsApart paths state where
  media := unrecorded.media
  inside := by
    rcases unrecorded.inside with ⟨packets, all, inside⟩
    rw [all]
    rcases inside.groups with ⟨frames, sends, some, groups⟩
    exact ⟨inside.gathering, frames, sends, some, groups.mono (List.sublist_append_left _ _)⟩

theorem GroupsApart.ingest (apart : GroupsApart paths state) (sequence : Nat) (payload : Bytes) :
    Unrecorded paths sequence payload (state.emit (.ingested sequence payload)) where
  media := apart.media
  inside := by
    refine ⟨ingestedSources state.trace, ?_, apart.inside.gathering, ?_⟩
    · simp [ingestedSources, ClientState.emit, ingestedPayloads]
    · simpa [ClientState.emit, paritySends] using apart.inside.groups

theorem sendOnPaths_keepsGroups (packet : Bytes) (paths : List PathConnection)
    (state : ClientState) : KeepsGroups state (state.sendOnPaths packet paths) := by
  induction paths generalizing state with
  | nil => exact .refl state
  | cons path rest induction =>
      have first : KeepsGroups state (state.sendOnPath packet path) := by
        constructor <;> simp [ClientState.sendOnPath, ClientState.emit, ingestedPayloads,
          paritySends]
      exact first.trans (induction _)

theorem cacheRepairFragments_keepsGroups (now : Instant) (sequence : Nat)
    (fragments : List CachedFragment) (state : ClientState) :
    KeepsGroups state (state.cacheRepairFragments now sequence fragments) := by
  constructor <;> simp [ClientState.cacheRepairFragments, ingestedPayloads, paritySends]

/-! ## The branches of the send loop -/

section Branches

variable {Rate Weight : Type} [Measure Rate] {config : SendConfig} {reads : Reads Rate Weight}
variable {index : Nat} {paths : List PathConnection}

theorem recordFec_groups (unrecorded : Unrecorded config.paths sequence payload state)
    (media : sequence ≤ maxMediaSequence)
    (recorded : recordFec config reads index sequence payload state = some next) :
    GroupsApart config.paths next := by
  rcases Option.map_eq_some_iff.mp recorded with ⟨⟨emitted, fec⟩, records, rfl⟩
  rcases unrecorded.inside with ⟨packets, all, inside⟩
  let call : FecEncoder.RecordCall Rate Weight :=
    ⟨(reads (.fecGroup index)).strategy, (reads (.fecGroup index)).unixMs, ⟨sequence, payload⟩⟩
  have gathering := @FecEncoder.record_gathering _ _ _ _ _ _ call inside.gathering media records
  have groups := @FecEncoder.record_groups _ _ _ _ _ _ call inside.gathering media records
  rcases inside.groups with ⟨frames, sends, some, earlier⟩
  refine ⟨unrecorded.media, gathering, ?_⟩
  refine ⟨frames ++ emitted.map (.mk (config.paths.filter (reads (.fecPaths index)).connected)),
    ?_, ?_, ?_⟩
  · rw [paritySends_append, paritySends_flatMap, sends, List.flatMap_append]
  · rw [List.forall_mem_append, List.forall_mem_map]
    exact ⟨some, fun _ _ => List.filter_sublist⟩
  · have unchanged := ingestedPayloads_sendFec
      (config.paths.filter (reads (.fecPaths index)).connected) emitted
    rw [ingestedSources, ingestedPayloads_append, unchanged, List.append_nil, ← ingestedSources,
      all, List.map_append, List.map_map]
    have same : FrameSend.frame ∘ FrameSend.mk
        (config.paths.filter (reads (.fecPaths index)).connected) = id := rfl
    rw [same, List.map_id]
    exact earlier.trans groups

theorem sendChunk_groups (apart : GroupsApart config.paths state) {chunk : Bytes}
    (sent : sendChunk config reads index paths chunk state = some next) :
    GroupsApart config.paths next := by
  rw [sendChunk] at sent
  dsimp only at sent
  split at sent
  · cases sent
  · rename_i packet encoded
    rcases Option.map_eq_some_iff.mp sent with ⟨recorded, isRecorded, rfl⟩
    have unrecorded := ((apart.ingest state.seq chunk).keeps
      (cacheRepairFragments_keepsGroups (reads (.cache index)).now state.seq
        [⟨packet, chunk.length⟩] _)).keeps (sendOnPaths_keepsGroups packet paths _)
    have after := recordFec_groups unrecorded apart.media isRecorded
    exact ⟨nextSequence_le apart.media, after.inside.gathering, after.inside.groups⟩

theorem sendRescue_keepsGroups
    (rescued : sendRescue config reads sequence payload state = some next) :
    KeepsGroups state next := by
  rw [sendRescue] at rescued
  split at rescued
  · rcases Option.map_eq_some_iff.mp rescued with ⟨packet, -, rfl⟩
    exact (cacheRepairFragments_keepsGroups _ _ _ state).trans (sendOnPaths_keepsGroups _ _ _)
  · cases rescued
    exact .refl state

theorem sendFragments_keepsGroups (sends : List FragmentSend) (state : ClientState) :
    KeepsGroups state
      (sends.foldl (fun state send => state.sendOnPath send.packet send.path) state) := by
  induction sends generalizing state with
  | nil => exact .refl state
  | cons send rest induction =>
      exact (sendOnPaths_keepsGroups send.packet [send.path] state).trans (induction _)

theorem sendSplit_groups (unrecorded : Unrecorded config.paths sequence payload state)
    (media : sequence ≤ maxMediaSequence) {ranges : List SplitRange}
    (sent : sendSplit config reads sequence payload ranges state = some next) :
    GroupsApart config.paths next := by
  rw [sendSplit] at sent
  split at sent
  · cases sent
  · rename_i sends fragmented
    dsimp only at sent
    rcases Option.bind_eq_some_iff.mp sent with ⟨rescued, isRescued, recorded⟩
    have cached := unrecorded.keeps (cacheRepairFragments_keepsGroups (reads (.cache 0)).now
      sequence (sends.map fun send => ⟨send.packet, send.payloadLen⟩) state)
    have onPaths := cached.keeps (sendFragments_keepsGroups sends _)
    exact recordFec_groups (onPaths.keeps (sendRescue_keepsGroups isRescued)) media recorded

theorem sendWhole_groups (unrecorded : Unrecorded config.paths sequence payload state)
    (media : sequence ≤ maxMediaSequence)
    (sent : sendWhole config reads sequence payload state = some next) :
    GroupsApart config.paths next := by
  rw [sendWhole] at sent
  dsimp only at sent
  split at sent
  · cases sent
  · rename_i packet encoded
    have cached := unrecorded.keeps (cacheRepairFragments_keepsGroups (reads (.cache 0)).now
      sequence [⟨packet, payload.length⟩] state)
    split at sent
    · rcases Option.bind_eq_some_iff.mp sent with ⟨path, -, recorded⟩
      exact recordFec_groups (cached.keeps (sendOnPaths_keepsGroups packet [path] _)) media recorded
    · exact recordFec_groups (cached.keeps (sendOnPaths_keepsGroups packet _ _)) media sent

variable [Measure Weight] [Widen Rate Weight] [WeightShare Weight]

theorem sendPacket_groups (unrecorded : Unrecorded config.paths sequence payload state)
    (media : sequence ≤ maxMediaSequence)
    (sent : sendPacket config reads payload sequence state = some next) :
    GroupsApart config.paths next := by
  rw [sendPacket] at sent
  dsimp only at sent
  split at sent
  · cases sent
    exact unrecorded.dropped
  split at sent
  · split at sent
    · cases sent
      apply unrecorded.dropped.keeps
      constructor <;> simp [ClientState.emit, ingestedPayloads, paritySends]
    · exact sendSplit_groups unrecorded media sent
  · exact sendWhole_groups unrecorded media sent

theorem sendPayload_groups (apart : GroupsApart config.paths state)
    (sent : sendPayload config reads payload state = some next) :
    GroupsApart config.paths next := by
  rw [sendPayload] at sent
  split at sent
  · rw [sendMpegTsChunks_eq_plan] at sent
    apply ListLoops.foldlM_invariant _ sent apart
    intro send _ state next stepped apart
    exact sendChunk_groups apart stepped
  · rcases Option.map_eq_some_iff.mp sent with ⟨last, packetSent, rfl⟩
    have after := sendPacket_groups (apart.ingest state.seq payload) apart.media packetSent
    exact ⟨nextSequence_le apart.media, after.inside.gathering, after.inside.groups⟩

end Branches

/-! ## Runs -/

theorem answerRepair_keepsGroups {config : SendConfig} {request : RepairRequest} {now : Instant}
    {connected : Nat → PathConnection → Bool}
    (answered : answerRepair config request now connected state = some next) :
    KeepsGroups state next := by
  rcases Option.map_eq_some_iff.mp answered with ⟨⟨fragments, repairCache⟩, -, rfl⟩
  have resend : ∀ (indexed : List (CachedFragment × Nat)) (state : ClientState),
      KeepsGroups state (indexed.foldl
        (fun state item =>
          state.sendOnPaths item.1.packet (config.paths.filter (connected item.2))) state) := by
    intro indexed
    induction indexed with
    | nil => exact .refl
    | cons item rest induction =>
        exact fun state => (sendOnPaths_keepsGroups _ _ state).trans (induction _)
  have asked : KeepsGroups state { state with repairCache := repairCache } := ⟨rfl, rfl, rfl, rfl⟩
  exact asked.trans (resend fragments.zipIdx _)

variable {Rate Weight : Type} [Measure Rate] [Measure Weight] [Widen Rate Weight]
variable [WeightShare Weight] {config : SendConfig}

theorem clientStep_groups {event : ClientEvent Rate Weight} (apart : GroupsApart config.paths state)
    (stepped : clientStep config state event = some next) : GroupsApart config.paths next := by
  cases event with
  | ingest payload reads => exact sendPayload_groups apart stepped
  | repair request now connected => exact apart.keeps (answerRepair_keepsGroups stepped)

theorem GroupsApart.start {fec : FecEncoder} {disabled : Bool} {groupSize : Nat}
    {mtu : Option Nat} (created : FecEncoder.new disabled groupSize mtu = .ok fec)
    (ttl : Duration) (maxPackets : Nat) :
    GroupsApart config.paths ⟨0, fec, .new ttl maxPackets, []⟩ := by
  rcases FecEncoder.new_gathering created with ⟨gathering, fresh⟩
  refine ⟨Nat.zero_le _, gathering, [], rfl, List.forall_mem_nil _, .none ?_⟩
  rw [fresh]
  exact List.nil_sublist _

theorem clientRun_groups {fec : FecEncoder} {disabled : Bool} {groupSize : Nat}
    (created : FecEncoder.new disabled groupSize config.mtu = .ok fec) {ttl : Duration}
    {maxPackets : Nat} {events : List (ClientEvent Rate Weight)} {final : ClientState}
    (ran : clientRun config fec (.new ttl maxPackets) events = some final) :
    GroupsApart config.paths final := by
  apply ListLoops.foldlM_invariant _ ran (.start created ttl maxPackets)
  intro event _ state next stepped apart
  exact clientStep_groups apart stepped

/-- In every run the parity frames protect groups of the ingested payloads, one after the
other, and no frame is sent twice on a path. -/
theorem parityGroups_apart (config : SendConfig) {disabled : Bool} {groupSize : Nat}
    {fec : FecEncoder} (created : FecEncoder.new disabled groupSize config.mtu = .ok fec)
    (ttl : Duration) (maxPackets : Nat) (events : List (ClientEvent Rate Weight)) :
    ∃ sender, clientRun config fec (.new ttl maxPackets) events = some sender ∧
      ∃ frames : List FrameSend, paritySends sender.trace = frames.flatMap FrameSend.sends ∧
        (∀ send ∈ frames, send.paths.Sublist config.paths) ∧
        GroupsOf (ingestedSources sender.trace) sender.fec.packets
          (frames.map FrameSend.frame) := by
  rcases clientRun_shipped config created ttl maxPackets events with ⟨-, sender, finished, -⟩
  exact ⟨sender, finished, (clientRun_groups created finished).inside.groups⟩

/-- Parity over every two payloads. -/
def pairFec : FecEncoder := ⟨.fixed 2 (by decide), some 100, []⟩

theorem parityGroups_apart_pairs :
    ∃ sender, clientRun twoPathConfig pairFec (.new 1000 8)
        (List.replicate 5 (.ingest [1] (startReads .redundant))) = some sender ∧
      ∃ frames : List FrameSend, paritySends sender.trace = frames.flatMap FrameSend.sends ∧
        (∀ send ∈ frames, send.paths.Sublist twoPathConfig.paths) ∧
        GroupsOf (ingestedSources sender.trace) sender.fec.packets
          (frames.map FrameSend.frame) :=
  parityGroups_apart twoPathConfig (rfl : FecEncoder.new false 2 twoPathConfig.mtu = .ok pairFec)
    1000 8 (List.replicate 5 (.ingest [1] (startReads .redundant)))

end Irohsion.Client
