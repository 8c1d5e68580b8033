import Irohsion.Protocol.Content
import Irohsion.Server.LoopInvariant

/-! # Payload integrity

When every received frame agrees with one assignment of payloads to sequences,
the loop only ever forwards these payloads. They may arrive whole, in parts, or
be recovered from parity.
-/

namespace Irohsion.Server

open Protocol Std

/-- The frame agrees with the content. -/
inductive Honest (content : Content) : ReceivedFrame → Prop
  | whole {packet : ReceivedPacket} :
      packet.header.fragments = 1 →
      packet.payload = content.payload packet.header.sequence →
      Honest content (.packet packet)
  | part {packet : ReceivedPacket} :
      packet.header.fragments = (content.parts packet.header.sequence).length →
      (content.parts packet.header.sequence)[packet.header.fragment]? = some packet.payload →
      Honest content (.packet packet)
  | parity {fec : ReceivedFecFrame} : content.Covers fec.frame → Honest content (.fec fec)

/-- Known payloads that agree with the content are its members. -/
theorem members_of_known {content : Content} {known : Nat → Option Bytes} {baseSequence : Nat}
    (agrees : ∀ sequence payload, known sequence = some payload →
      payload = content.payload sequence) :
    ∀ {index : Nat} {payloadLengths : List Nat} {payloads : List Bytes},
      FecState.Known known baseSequence index payloadLengths payloads →
      payloads = content.members baseSequence index payloadLengths.length
  | _, [], [], _ => rfl
  | index, _ :: _, _ :: _, ⟨found, _, rest⟩ => by
      rw [List.length_cons, content.members_succ, ← members_of_known agrees rest,
        agrees _ _ found]

/-- Everything that the loop holds or has forwarded agrees with the content. -/
structure Intact (content : Content) (state : ReorderState) : Prop where
  buffered : ∀ {sequence : Nat} {packet : BufferedPacket},
    state.buffered[sequence]? = some packet → packet.payload = content.payload sequence
  cached : ∀ {sequence : Nat} {payload : Bytes},
    state.fecState.payloads[sequence]? = some payload → payload = content.payload sequence
  frames : ∀ {base : Nat} {frame : FecFrame},
    state.fecState.frames[base]? = some frame → content.Covers frame
  assemblies : ∀ {sequence : Nat} {assembly : FragmentAssembly},
    state.fragments[sequence]? = some assembly → assembly.Holds (content.parts sequence)
  forwarded : ∀ {sequence : Nat} {payload : Bytes},
    .forward sequence payload ∈ state.trace → payload = content.payload sequence

/-- The right payload for its sequence. -/
def Supplies (content : Content) (sequence : Nat) (payload : Bytes) : Prop :=
  payload = content.payload sequence

namespace Intact

variable {content : Content} {state : ReorderState}

theorem payloadFor (intact : Intact content state) {sequence : Nat} {payload : Bytes}
    (found : state.fecState.payloadFor state.buffered sequence = some payload) :
    payload = content.payload sequence := by
  rw [FecState.payloadFor] at found
  cases cached : state.fecState.payloads[sequence]? with
  | some stored =>
      rw [cached] at found
      cases found
      exact intact.cached cached
  | none =>
      rw [cached] at found
      rcases Option.map_eq_some_iff.mp found with ⟨packet, held, rfl⟩
      exact intact.buffered held

/-- What a parity frame gives back is the payload of its missing member. -/
theorem recovered (intact : Intact content state) {sequence : Nat} {payload : Bytes}
    (member : (sequence, payload) ∈
      (state.fecState.recoverReady state.nextSeq state.buffered).2) :
    Supplies content sequence payload := by
  rcases FecState.mem_recoverReady.mp member with
    ⟨base, frame, parity, expectedLen, stored, scan, _, rfl⟩
  rcases FecState.scanFrame_of_recovered scan with
    ⟨frontLengths, backLengths, front, back, split, frontKnown, atIndex, _, backKnown, rfl⟩
  rcases intact.frames stored with ⟨lengths, parityEq⟩
  have agrees : ∀ sequence payload,
      state.fecState.payloadFor state.buffered sequence = some payload →
      payload = content.payload sequence := fun _ _ found => intact.payloadFor found
  have frontEq := members_of_known agrees frontKnown
  have backEq := members_of_known agrees backKnown
  rw [Nat.zero_add] at atIndex backEq
  have group : content.members frame.baseSequence 0 frame.payloadLengths.length =
      front ++ content.payload sequence :: back := by
    rw [split, List.length_append, List.length_cons, content.members_add, content.members_succ,
      Nat.zero_add, ← frontEq, ← backEq, ← atIndex]
  have lengthEq : expectedLen = (content.payload sequence).length := by
    rw [group, split, List.map_append, List.map_cons] at lengths
    have sameFront : frontLengths.length = (front.map List.length).length := by
      rw [List.length_map, FecState.Known.length_eq frontKnown]
    exact (List.cons.inj (List.append_inj_right lengths sameFront)).1
  rw [Supplies, parityEq, group, lengthEq]
  exact Parity.take_foldl_overlay_parityOf front back _

/-- Storing the right payload in the cache. -/
theorem cached_insertPayload (intact : Intact content state) {sequence other : Nat}
    {payload stored : Bytes} (source : Supplies content sequence payload)
    (found : (state.fecState.insertPayload sequence payload).payloads[other]? = some stored) :
    stored = content.payload other := by
  rcases FecState.insertPayload_found found with ⟨rfl, rfl⟩ | found
  · exact source
  · exact intact.cached found

theorem frames_insertPayload (intact : Intact content state) {sequence base : Nat}
    {payload : Bytes} {frame : FecFrame}
    (found : (state.fecState.insertPayload sequence payload).frames[base]? = some frame) :
    content.Covers frame := by
  rw [FecState.insertPayload_frames] at found
  exact intact.frames found

/-- One more effect, which forwards the right payload if it forwards any. -/
theorem forwarded_append (intact : Intact content state) {effects : List Effect}
    (right : ∀ sequence payload, .forward sequence payload ∈ effects →
      payload = content.payload sequence)
    {sequence : Nat} {payload : Bytes}
    (member : .forward sequence payload ∈ state.trace ++ effects) :
    payload = content.payload sequence := by
  rcases List.mem_append.mp member with earlier | last
  · exact intact.forwarded earlier
  · exact right sequence payload last

theorem emit (intact : Intact content state) {effect : Effect}
    (right : ∀ sequence payload, effect = .forward sequence payload →
      payload = content.payload sequence) : Intact content (state.emit effect) where
  buffered := intact.buffered
  cached := intact.cached
  frames := intact.frames
  assemblies := intact.assemblies
  forwarded member := intact.forwarded_append
    (fun sequence payload last => right sequence payload (List.mem_singleton.mp last).symm) member

theorem drain (intact : Intact content state) {packet : BufferedPacket}
    (found : state.buffered[state.nextSeq]? = some packet) :
    Intact content (drainPacket packet state) where
  buffered held := intact.buffered (OrderedMap.getElem?_erase_eq_some.mp held).2
  cached := intact.cached_insertPayload (intact.buffered found)
  frames := intact.frames_insertPayload
  assemblies := intact.assemblies
  forwarded := by
    apply intact.forwarded_append
    intro sequence payload last
    cases List.mem_singleton.mp last
    exact intact.buffered found

theorem settle (intact : Intact content state) (now : Instant) {sequence : Nat}
    {payload : Bytes} (source : Supplies content sequence payload) :
    Intact content (settle now sequence payload state) := by
  have noted : Intact content (noteAccepted sequence payload (state.release sequence)) := by
    constructor
    · exact intact.buffered
    · exact intact.cached_insertPayload source
    · exact intact.frames_insertPayload
    · intro other assembly found
      exact intact.assemblies (OrderedMap.getElem?_erase_eq_some.mp found).2
    · apply intact.forwarded_append
      intro _ _ last
      cases List.mem_singleton.mp last
  unfold Server.settle
  dsimp only
  split
  · constructor
    · exact noted.buffered
    · exact noted.cached
    · exact noted.frames
    · exact noted.assemblies
    · apply noted.forwarded_append
      intro _ _ last
      cases List.mem_singleton.mp last
      exact source
  · constructor
    · intro other packet found
      rcases OrderedMap.getElem?_insert_eq_some found with ⟨rfl, rfl⟩ | earlier
      · exact source
      · exact intact.buffered earlier
    · exact noted.cached
    · exact noted.frames
    · exact noted.assemblies
    · exact noted.forwarded

theorem search (intact : Intact content state) :
    Intact content { state with
      fecState := (state.fecState.recoverReady state.nextSeq state.buffered).1 } where
  buffered := intact.buffered
  cached found := by
    rw [(FecState.recoverReady_searched _ _ _).payloads] at found
    exact intact.cached found
  frames found := intact.frames ((FecState.recoverReady_searched _ _ _).frames found)
  assemblies := intact.assemblies
  forwarded := intact.forwarded

theorem windowMove {config : ReorderConfig} {now : Instant} {after : ReorderState}
    (intact : Intact content state) (move : WindowMove config now (Supplies content) state after) :
    Intact content after := by
  cases move with
  | report sequence length => exact intact.emit nofun
  | drain found => exact intact.drain found
  | search => exact intact.search
  | settle _ _ source => exact intact.settle now source
  | request requests same =>
      constructor
      · exact intact.buffered
      · exact intact.cached
      · exact intact.frames
      · intro sequence assembly found
        rcases same.found found with ⟨earlier, stored, sameContent⟩
        have slots : earlier.fragments = assembly.fragments := congrArg Prod.fst sameContent
        have holds := intact.assemblies stored
        rw [FragmentAssembly.Holds, slots] at holds
        exact holds
      · apply intact.forwarded_append
        intro sequence payload member
        rcases List.mem_map.mp member with ⟨_, _, impossible⟩
        cases impossible
  | skipFragment _ _ _ =>
      constructor
      · exact intact.buffered
      · exact intact.cached
      · exact intact.frames
      · intro sequence assembly found
        exact intact.assemblies (OrderedMap.getElem?_erase_eq_some.mp found).2
      · apply intact.forwarded_append
        intro _ _ last
        cases List.mem_singleton.mp last
  | skipMissing _ _ _ _ =>
      constructor
      · exact intact.buffered
      · exact intact.cached
      · exact intact.frames
      · exact intact.assemblies
      · apply intact.forwarded_append
        intro _ _ last
        cases List.mem_singleton.mp last

/-- An honest fragment leaves its assembly with the right parts. -/
theorem fills (intact : Intact content state) {now : Instant} {packet : ReceivedPacket}
    {filled : FragmentAssembly} (honest : Honest content (.packet packet))
    (fills : Fills now packet state filled) :
    filled.Holds (content.parts packet.header.sequence) := by
  rcases honest with whole | ⟨slots, part⟩
  · exact absurd whole fills.several
  · have holds : (assemblyFor now packet state).Holds
        (content.parts packet.header.sequence) := by
      rw [assemblyFor]
      cases found : state.fragments[packet.header.sequence]? with
      | none =>
          rw [Option.getD_none, slots]
          exact FragmentAssembly.holds_new _ _
      | some assembly => exact intact.assemblies found
    rcases fills.fill with ⟨vacant, rfl⟩
    exact holds.fill part vacant

theorem of_cleared {fresh : ReorderState} (buffered : fresh.buffered = ∅)
    (fragments : fresh.fragments = ∅) (fecState : fresh.fecState = .empty)
    (forwarded : ∀ {sequence : Nat} {payload : Bytes},
      .forward sequence payload ∈ fresh.trace → payload = content.payload sequence) :
    Intact content fresh where
  buffered found := by simp [buffered] at found
  cached found := by simp [fecState, FecState.empty] at found
  frames found := by simp [fecState, FecState.empty] at found
  assemblies found := by simp [fragments] at found
  forwarded := forwarded

theorem roundMove {now : Instant} {after : ReorderState} (intact : Intact content state)
    (move : RoundMove now (Honest content) state after) : Intact content after := by
  cases move with
  | routes _ | observe _ | join _ =>
      exact ⟨intact.buffered, intact.cached, intact.frames, intact.assemblies, intact.forwarded⟩
  | duplicate _ | lateAfterSkip _ => exact intact.emit nofun
  | @start packet _ =>
      rw [startFlow]
      refine Intact.emit ?_ nofun
      exact ⟨intact.buffered, intact.cached, intact.frames, intact.assemblies, intact.forwarded⟩
  | @restart packet _ _ =>
      refine .of_cleared rfl rfl rfl (intact.forwarded_append ?_)
      intro _ _ last
      cases List.mem_singleton.mp last
  | @assemble packet filled honest _ _ fills _ =>
      constructor
      · exact intact.buffered
      · exact intact.cached
      · exact intact.frames
      · intro sequence assembly found
        rcases OrderedMap.getElem?_insert_eq_some found with ⟨rfl, rfl⟩ | earlier
        · exact intact.fills honest fills
        · exact intact.assemblies earlier
      · exact intact.forwarded
  | @store fec honest =>
      rcases honest with _ | _ | covers
      constructor
      · exact intact.buffered
      · intro sequence payload found
        rw [FecState.insertFrame_payloads] at found
        exact intact.cached found
      · intro base frame found
        rcases FecState.insertFrame_found found with ⟨_, rfl⟩ | found
        · exact covers
        · exact intact.frames found
      · exact intact.assemblies
      · exact intact.forwarded
  | idle _ pending =>
      rcases not_mem_of_hasPendingState pending with ⟨buffered, fragments, _⟩
      exact .of_cleared buffered fragments rfl intact.forwarded

/-- An honest whole packet carries the payload of its sequence. -/
theorem whole {packet : ReceivedPacket} (honest : Honest content (.packet packet))
    (single : packet.header.fragments = 1) :
    Supplies content packet.header.sequence packet.payload := by
  rcases honest with ⟨_, right⟩ | ⟨slots, part⟩
  · exact right
  · rw [single] at slots
    rcases List.length_eq_one_iff.mp slots.symm with ⟨only, onlyPart⟩
    have first : packet.header.fragment = 0 := by
      have bound := packet.valid.2.1
      omega
    have joined := content.flatten_parts packet.header.sequence
    rw [onlyPart, List.flatten_cons, List.flatten_nil, List.append_nil] at joined
    rw [onlyPart, first] at part
    exact (Option.some.inj part).symm.trans joined

end Intact

theorem intact_invariant (config : ReorderConfig) (content : Content) :
    LoopInvariant config (Honest content) (Supplies content) (Intact content) where
  round _ move intact := intact.roundMove move
  window now :=
    { move := fun _ _ move intact => intact.windowMove move
      recovered := fun _ intact member => intact.recovered member }
  whole honest single := Intact.whole honest single
  assembled := by
    intro now state packet filled payload wellFormed intact honest fills complete whole
    rw [FragmentAssembly.intoPayload_of_holds (intact.fills honest fills) complete] at whole
    exact (Option.some.inj whole).symm.trans (content.flatten_parts _)

/-- On honest frames every forwarded payload is the one of its sequence. -/
theorem forwarded_payload_eq (config : ReorderConfig) (content : Content)
    (inputs : List TimedInput) (honest : ∀ timed ∈ inputs, timed.Admitted (Honest content)) :
    ∃ final, reorderLoop config inputs = some final ∧
      ∀ sequence payload, .forward sequence payload ∈ final.trace →
        payload = content.payload sequence := by
  have initial : Intact content .initial := .of_cleared rfl rfl rfl nofun
  rcases (intact_invariant config content).reorderLoop initial honest with
    ⟨final, finished, _, intact⟩
  exact ⟨final, finished, fun _ _ member => intact.forwarded member⟩

/-- Each sequence has one byte, sent as one part. -/
def singleBytes : Content where
  payload sequence := [UInt8.ofNat sequence]
  parts sequence := [[UInt8.ofNat sequence]]
  flatten_parts _ := rfl

/-- A parity frame over two sequences, of which only the first arrives. -/
def recoveryRun : List TimedInput :=
  [⟨0, .frame (.fec ⟨"client", ⟨5, [1, 1], [3]⟩, by decide⟩)⟩,
    ⟨1, .frame (.packet ⟨"client", 0, ⟨5, 0, 1⟩, [5], by decide, by decide⟩)⟩]

theorem forwarded_payload_eq_recoveryRun :
    (reorderLoop ⟨none, 10, 10⟩ recoveryRun).map (fun final => final.trace.drop 1) =
        some [.accept 5 [5], .forward 5 [5], .fecRecovered 6 1, .accept 6 [6], .forward 6 [6]] ∧
      ∃ final, reorderLoop ⟨none, 10, 10⟩ recoveryRun = some final ∧
        ∀ sequence payload, .forward sequence payload ∈ final.trace →
          payload = singleBytes.payload sequence := by
  refine ⟨by decide +kernel, forwarded_payload_eq _ singleBytes recoveryRun ?_⟩
  intro timed member frame received
  simp only [recoveryRun, List.mem_cons, List.not_mem_nil, or_false] at member
  rcases member with rfl | rfl
  · cases received
    exact .parity ⟨rfl, rfl⟩
  · cases received
    exact .whole rfl rfl

end Irohsion.Server
