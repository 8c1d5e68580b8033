import Irohsion.Server.Arrivals
import Irohsion.Server.Delivery
import Irohsion.Server.Integrity
import Irohsion.Server.UnreadPast

/-! # Reused sequence numbers

A stream is longer than the sequence space, so the sender comes back to a
sequence under which the loop may still hold something of the pass before. As
long as it does not, every forwarded payload is that of the latest packet with
its sequence.
-/

namespace Irohsion.Server

open Protocol Std

/-! ## An unbounded stream -/

def sequenceOf (index : Nat) : Nat := index % (maxMediaSequence + 1)

theorem sequenceAfter_sequenceOf (index offset : Nat) :
    sequenceAfter (sequenceOf index) offset = sequenceOf (index + offset) := by
  rw [sequenceAfter_eq_iterate, nextSequence_eq_next]
  exact Cyclic.iterate_next_mod maxMediaSequence index offset

/-- The payloads of an unbounded stream, each with one fixed way to split it. -/
structure SenderStream where
  payload : Nat → Bytes
  parts : Nat → List Bytes
  flatten_parts : ∀ index, (parts index).flatten = payload index

namespace SenderStream

variable (stream : SenderStream)

/-- The payloads of a group of consecutive packets. -/
def group (first count : Nat) : List Bytes :=
  (List.range' first count).map stream.payload

/-- What each sequence stands for once the stream has come to packet `last`: the
latest packet that was sent with it, and some filler before there is one. -/
def upTo (filler : List Bytes) (last : Nat) : Content where
  payload sequence :=
    (Cyclic.latest maxMediaSequence sequence last).elim filler.flatten stream.payload
  parts sequence := (Cyclic.latest maxMediaSequence sequence last).elim filler stream.parts
  flatten_parts sequence := by
    cases Cyclic.latest maxMediaSequence sequence last with
    | none => rfl
    | some index => exact stream.flatten_parts index

/-- The payload was sent with the sequence, and the sequence was not used again
up to packet `last`. -/
def Current (last sequence : Nat) (payload : Bytes) : Prop :=
  ∃ index, index ≤ last ∧ sequenceOf index = sequence ∧
    (∀ later, index < later → later ≤ last → sequenceOf later ≠ sequence) ∧
    payload = stream.payload index

variable {stream}

theorem upTo_of_unsent {last sequence : Nat}
    (unsent : Cyclic.latest maxMediaSequence sequence last = none) (filler : List Bytes) :
    (stream.upTo filler last).payload sequence = filler.flatten ∧
      (stream.upTo filler last).parts sequence = filler := by
  simp only [upTo, unsent, Option.elim, and_self]

/-- What is right for a sequence whatever the filler is has been sent. -/
theorem current_of_upTo {last sequence : Nat} {payload : Bytes}
    (carried : ∀ filler, payload = (stream.upTo filler last).payload sequence) :
    stream.Current last sequence payload := by
  cases found : Cyclic.latest maxMediaSequence sequence last with
  | none =>
      have any : ∀ filler : List Bytes, payload = filler.flatten :=
        fun filler => (carried filler).trans (upTo_of_unsent found filler).1
      exact absurd ((any []).symm.trans (any [[0]])) (by decide)
  | some index =>
      rcases Cyclic.latest_eq_some found with ⟨sent, falls, unused⟩
      refine ⟨index, sent, falls, unused, (carried []).trans ?_⟩
      simp only [upTo, found, Option.elim]

theorem upTo_payload_self (filler : List Bytes) (index : Nat) :
    (stream.upTo filler index).payload (sequenceOf index) = stream.payload index := by
  show Option.elim _ _ _ = _
  rw [sequenceOf, Cyclic.latest_self]
  rfl

theorem upTo_parts_self (filler : List Bytes) (index : Nat) :
    (stream.upTo filler index).parts (sequenceOf index) = stream.parts index := by
  show Option.elim _ _ _ = _
  rw [sequenceOf, Cyclic.latest_self]
  rfl

/-- A group that is not longer than a pass is known by its sequences. -/
theorem upTo_members (filler : List Bytes) (first : Nat) {count : Nat}
    (short : count ≤ maxMediaSequence) :
    (stream.upTo filler (first + count)).members (sequenceOf first) 0 (count + 1) =
      stream.group first (count + 1) := by
  have shifted : List.range' first (count + 1) =
      (List.range' 0 (count + 1)).map (first + ·) :=
    (@List.map_add_range' first 0 (count + 1) 1).symm
  rw [Content.members, group, shifted, List.map_map]
  apply List.map_congr_left
  intro offset member
  have bound : offset < count + 1 := by simpa using member
  have recent := @Cyclic.latest_of_recent maxMediaSequence (first + offset) (first + count)
    (by omega) (by omega)
  show Option.elim _ _ _ = stream.payload (first + offset)
  rw [sequenceAfter_sequenceOf, sequenceOf, recent]
  rfl

/-- Up to the next use of a sequence it stands for the same packet. -/
theorem latest_eq {before after sequence : Nat} (later : before ≤ after)
    (unused : ∀ index, before < index → index ≤ after → sequenceOf index ≠ sequence) :
    Cyclic.latest maxMediaSequence sequence after =
      Cyclic.latest maxMediaSequence sequence before :=
  Cyclic.latest_eq_of_unused later unused

end SenderStream

/-! ## The network -/

/-- What may arrive once the network has come to packet `before`: a later packet
or part, or the parity of a group that ends later. Anything between is lost, and
nothing older arrives. -/
inductive Delivers (stream : SenderStream) (before : Nat) : Input → (after : Nat) → Prop
  | whole {packet : ReceivedPacket} {index : Nat} :
      before ≤ index →
      packet.header.sequence = sequenceOf index →
      packet.header.fragments = 1 →
      packet.payload = stream.payload index →
      Delivers stream before (.frame (.packet packet)) index
  | part {packet : ReceivedPacket} {index : Nat} :
      before ≤ index →
      packet.header.sequence = sequenceOf index →
      packet.header.fragments = (stream.parts index).length →
      (stream.parts index)[packet.header.fragment]? = some packet.payload →
      Delivers stream before (.frame (.packet packet)) index
  | parity {fec : ReceivedFecFrame} {first count : Nat} :
      before ≤ first + count →
      fec.frame.baseSequence = sequenceOf first →
      fec.frame.payloadLengths = (stream.group first (count + 1)).map List.length →
      fec.frame.parity = Parity.parityOf (stream.group first (count + 1)) →
      Delivers stream before (.frame (.fec fec)) (first + count)
  | timeout : Delivers stream before .timeout before

variable {config : ReorderConfig} {stream : SenderStream} {state next : ReorderState}
variable {before after : Nat} {timed : TimedInput}

theorem Delivers.before_le {input : Input} (delivers : Delivers stream before input after) :
    before ≤ after := by
  cases delivers with
  | whole later _ _ _ | part later _ _ _ | parity later _ _ _ => exact later
  | timeout => exact Nat.le_refl _

/-- What arrives agrees with the latest packets. -/
theorem Delivers.honest {frame : ReceivedFrame}
    (delivers : Delivers stream before (.frame frame) after) (filler : List Bytes) :
    Honest (stream.upTo filler after) frame := by
  cases delivers with
  | whole _ sequence single payload =>
      apply Honest.whole single
      rw [sequence, SenderStream.upTo_payload_self, payload]
  | part _ sequence slots payload =>
      apply Honest.part
      · rw [sequence, SenderStream.upTo_parts_self, slots]
      · rw [sequence, SenderStream.upTo_parts_self, payload]
  | @parity fec first count _ base lengths parity =>
      have several : fec.frame.payloadLengths.length = count + 1 := by
        rw [lengths, List.length_map, SenderStream.group, List.length_map, List.length_range']
      have narrow : maxFecGroupPackets ≤ maxMediaSequence := by decide
      have members := @SenderStream.upTo_members stream filler first count (by
        have short := fec.valid.2.1.2
        omega)
      apply Honest.parity
      rw [Content.Covers, base, several, members]
      exact ⟨lengths, parity⟩

/-! ## What is held -/

/-- The loop keeps something under the sequence. -/
inductive Held (state : ReorderState) (sequence : Nat) : Prop
  | buffered : sequence ∈ state.buffered → Held state sequence
  | assembly : sequence ∈ state.fragments → Held state sequence
  | cached : sequence ∈ state.fecState.payloads → Held state sequence
  | member {base offset : Nat} {frame : FecFrame} :
      state.fecState.frames[base]? = some frame →
      offset < frame.payloadLengths.length →
      sequence = sequenceAfter frame.baseSequence offset →
      Held state sequence

/-- Nothing is held under a sequence that the sender has used again on the way. -/
def Unreused (before after : Nat) (state : ReorderState) : Prop :=
  ∀ sequence, Held state sequence → ∀ index, before < index → index ≤ after →
    sequenceOf index ≠ sequence

/-- The state without its earlier effects. -/
def untraced (state : ReorderState) : ReorderState := { state with trace := [] }

/-- Contents that agree on what is held are kept alike. -/
theorem Intact.congr {content other : Content} (intact : Intact content (untraced state))
    (payload : ∀ sequence, Held state sequence →
      other.payload sequence = content.payload sequence)
    (parts : ∀ sequence, Held state sequence → other.parts sequence = content.parts sequence) :
    Intact other (untraced state) where
  buffered found := by
    rw [payload _ (.buffered (OrderedMap.mem_of_getElem? found))]
    exact intact.buffered found
  cached found := by
    rw [payload _ (.cached (OrderedMap.mem_of_getElem? found))]
    exact intact.cached found
  frames := by
    intro base frame found
    have members : other.members frame.baseSequence 0 frame.payloadLengths.length =
        content.members frame.baseSequence 0 frame.payloadLengths.length := by
      rw [Content.members, Content.members]
      apply List.map_congr_left
      intro offset member
      exact payload _ (.member found (by simpa using member) rfl)
    rw [Content.Covers, members]
    exact intact.frames found
  assemblies found := by
    rw [parts _ (.assembly (OrderedMap.mem_of_getElem? found))]
    exact intact.assemblies found
  forwarded member := absurd member List.not_mem_nil

theorem Intact.later {filler : List Bytes}
    (intact : Intact (stream.upTo filler before) (untraced state))
    (later : before ≤ after) (unreused : Unreused before after state) :
    Intact (stream.upTo filler after) (untraced state) := by
  apply intact.congr
  · intro sequence held
    exact congrArg (Option.elim · filler.flatten stream.payload)
      (SenderStream.latest_eq later (unreused sequence held))
  · intro sequence held
    exact congrArg (Option.elim · filler stream.parts)
      (SenderStream.latest_eq later (unreused sequence held))

/-! ## One round -/

/-- Whatever stands in for what is not sent yet, the held data is that of the
latest packets. -/
def UpToDate (stream : SenderStream) (last : Nat) (state : ReorderState) : Prop :=
  Consistent state ∧ ∀ filler, Intact (stream.upTo filler last) (untraced state)

theorem upToDate_initial (stream : SenderStream) (last : Nat) : UpToDate stream last .initial :=
  ⟨Consistent.initial, fun _ => .of_cleared rfl rfl rfl nofun⟩

theorem UpToDate.reorderStep (upToDate : UpToDate stream before state)
    (delivers : Delivers stream before timed.input after)
    (unreused : Unreused before after state) :
    ∃ next effects, reorderStep config state timed = some next ∧ UpToDate stream after next ∧
      next.trace = state.trace ++ effects ∧
      ∀ sequence payload, .forward sequence payload ∈ effects →
        stream.Current after sequence payload := by
  rcases upToDate with ⟨consistent, intact⟩
  have untracedConsistent : Consistent (untraced state) :=
    ⟨consistent.toWellFormed.congr rfl rfl rfl rfl rfl, consistent.idle_buffered,
      consistent.idle_fragments⟩
  rcases (consistent_invariant config).reorderStep (fun _ _ => trivial) untracedConsistent trivial
    with ⟨fresh, stepped, _⟩
  have kept : ∀ filler, Intact (stream.upTo filler after) fresh := by
    intro filler
    have admitted : timed.Admitted (Honest (stream.upTo filler after)) := by
      intro frame received
      rw [received] at delivers
      exact delivers.honest filler
    rcases (intact_invariant config _).reorderStep admitted untracedConsistent
      ((intact filler).later delivers.before_le unreused) with ⟨found, outcome, _, result⟩
    cases stepped.symm.trans outcome
    exact result
  have traced : Server.reorderStep config state timed = some (fresh.withPast state.trace id) := by
    have same : (untraced state).withPast state.trace id = state := by
      simp only [untraced, ReorderState.withPast, List.append_nil, id]
    have unread := @reorderStep_withPast state.trace config (untraced state) timed
    rw [same, stepped] at unread
    exact unread
  refine ⟨fresh.withPast state.trace id, fresh.trace, traced,
    ⟨consistent.reorderStep traced, ?_⟩, rfl, ?_⟩
  · intro filler
    exact ⟨(kept filler).buffered, (kept filler).cached, (kept filler).frames,
      (kept filler).assemblies, fun member => absurd member List.not_mem_nil⟩
  · intro sequence payload member
    exact SenderStream.current_of_upTo fun filler => (kept filler).forwarded member

/-- Nothing is held under a sequence that has not been sent. -/
theorem UpToDate.sent_of_held {last sequence : Nat} (upToDate : UpToDate stream last state)
    (held : Held state sequence) : ∃ index, index ≤ last ∧ sequenceOf index = sequence := by
  rcases upToDate with ⟨_, intact⟩
  cases found : Cyclic.latest maxMediaSequence sequence last with
  | some index =>
      rcases Cyclic.latest_eq_some found with ⟨sent, falls, _⟩
      exact ⟨index, sent, falls⟩
  | none =>
      -- Two fillers of different lengths cannot both fit.
      exfalso
      have carried := @SenderStream.upTo_of_unsent stream last sequence found
      cases held with
      | buffered member =>
          have held := ExtTreeMap.getElem?_eq_some_getElem member
          have any : ∀ filler : List Bytes, _ = filler.flatten :=
            fun filler => ((intact filler).buffered held).trans (carried filler).1
          exact absurd ((any []).symm.trans (any [[0]])) (by decide)
      | cached member =>
          have held := ExtTreeMap.getElem?_eq_some_getElem member
          have any : ∀ filler : List Bytes, _ = filler.flatten :=
            fun filler => ((intact filler).cached held).trans (carried filler).1
          exact absurd ((any []).symm.trans (any [[0]])) (by decide)
      | assembly member =>
          have held := ExtTreeMap.getElem?_eq_some_getElem member
          have any : ∀ filler : List Bytes, _ = filler.length :=
            fun filler => ((intact filler).assemblies held).1.trans
              (congrArg List.length (carried filler).2)
          exact absurd ((any []).symm.trans (any [[0]])) (by decide)
      | @member base offset frame stored within names =>
          have any : ∀ filler : List Bytes,
              frame.payloadLengths[offset]? = some filler.flatten.length := by
            intro filler
            rw [((intact filler).frames stored).1, Content.members, List.getElem?_map,
              List.getElem?_map, List.getElem?_range' within, Option.map_some, Option.map_some,
              Nat.one_mul, Nat.zero_add, ← names, (carried filler).1]
          exact absurd ((any []).symm.trans (any [[0]])) (by decide)

/-- In the first pass no sequence is reused. -/
theorem UpToDate.unreused_of_firstPass (upToDate : UpToDate stream before state)
    (firstPass : after ≤ maxMediaSequence) : Unreused before after state := by
  intro sequence held later above within same
  rcases upToDate.sent_of_held held with ⟨index, sent, names⟩
  have laterUnwrapped : sequenceOf later = later := Nat.mod_eq_of_lt (by omega)
  have indexUnwrapped : sequenceOf index = index := Nat.mod_eq_of_lt (by omega)
  omega

/-! ## Runs -/

/-- The packet that the stream has come to after the deliveries. -/
def position (before : Nat) (deliveries : List (TimedInput × Nat)) : Nat :=
  deliveries.foldl (fun _ delivery => delivery.2) before

/-- The inputs with the packets that they come to, in the order of the stream. -/
def InOrder (stream : SenderStream) : (before : Nat) → List (TimedInput × Nat) → Prop
  | _, [] => True
  | before, (timed, after) :: rest =>
      Delivers stream before timed.input after ∧ InOrder stream after rest

theorem forwards_current {deliveries : List (TimedInput × Nat)}
    (upToDate : UpToDate stream before state) (inOrder : InOrder stream before deliveries)
    (unreused : ∀ earlier timed after later reached,
      deliveries = earlier ++ (timed, after) :: later →
      (earlier.map Prod.fst).foldlM (reorderStep config) state = some reached →
      Unreused (position before earlier) after reached)
    {earlier later : List (TimedInput × Nat)} {reached : ReorderState}
    (split : deliveries = earlier ++ (timed, after) :: later)
    (ran : (earlier.map Prod.fst).foldlM (reorderStep config) state = some reached) :
    ∃ next effects, reorderStep config reached timed = some next ∧
      next.trace = reached.trace ++ effects ∧
      ∀ sequence payload, .forward sequence payload ∈ effects →
        stream.Current after sequence payload := by
  induction earlier generalizing before state deliveries with
  | nil =>
      cases split
      cases ran
      rcases upToDate.reorderStep inOrder.1 (unreused [] timed after later _ rfl rfl) with
        ⟨next, effects, stepped, _, trace, current⟩
      exact ⟨next, effects, stepped, trace, current⟩
  | cons first earlier induction =>
      rcases first with ⟨opening, opened⟩
      cases split
      rcases upToDate.reorderStep inOrder.1 (unreused [] opening opened _ state rfl rfl) with
        ⟨second, _, stepped, nextUpToDate, _⟩
      have prefixed : ∀ more : List (TimedInput × Nat),
          (((opening, opened) :: more).map Prod.fst).foldlM (reorderStep config) state =
            (more.map Prod.fst).foldlM (reorderStep config) second :=
        fun more => foldlM_reorderStep_cons stepped (more.map Prod.fst)
      apply induction nextUpToDate inOrder.2 _ rfl ((prefixed earlier).symm.trans ran)
      intro front input index back current divided run
      exact unreused ((opening, opened) :: front) input index back current
        (congrArg (List.cons _) divided) ((prefixed front).trans run)

/-- In the first pass what is held is always that of the latest packets. -/
theorem upToDate_of_firstPass {deliveries : List (TimedInput × Nat)} {final : ReorderState}
    (upToDate : UpToDate stream before state) (inOrder : InOrder stream before deliveries)
    (firstPass : ∀ delivery ∈ deliveries, delivery.2 ≤ maxMediaSequence)
    (ran : (deliveries.map Prod.fst).foldlM (reorderStep config) state = some final) :
    UpToDate stream (position before deliveries) final := by
  induction deliveries generalizing before state with
  | nil =>
      cases ran
      exact upToDate
  | cons first rest induction =>
      rcases first with ⟨timed, after⟩
      have unreused := upToDate.unreused_of_firstPass (firstPass _ List.mem_cons_self)
      rcases upToDate.reorderStep inOrder.1 unreused with ⟨next, _, stepped, nextUpToDate, _⟩
      rw [List.map_cons, foldlM_reorderStep_cons stepped] at ran
      exact induction nextUpToDate inOrder.2
        (fun delivery member => firstPass delivery (List.mem_cons_of_mem _ member)) ran

theorem InOrder.of_append {earlier later : List (TimedInput × Nat)}
    (inOrder : InOrder stream before (earlier ++ later)) : InOrder stream before earlier := by
  induction earlier generalizing before with
  | nil => trivial
  | cons first rest induction => exact ⟨inOrder.1, induction inOrder.2⟩

/-- A stream that is not longer than a pass is forwarded without any condition. -/
theorem forwarded_current_of_firstPass (config : ReorderConfig) (stream : SenderStream)
    {deliveries : List (TimedInput × Nat)} (inOrder : InOrder stream 0 deliveries)
    (firstPass : ∀ delivery ∈ deliveries, delivery.2 ≤ maxMediaSequence)
    {earlier later : List (TimedInput × Nat)}
    (split : deliveries = earlier ++ (timed, after) :: later)
    (reached : reorderLoop config (earlier.map Prod.fst) = some state) :
    ∃ next effects, reorderStep config state timed = some next ∧
      next.trace = state.trace ++ effects ∧
      ∀ sequence payload, .forward sequence payload ∈ effects →
        stream.Current after sequence payload := by
  apply forwards_current (upToDate_initial stream 0) inOrder _ split reached
  intro front input index back current divided run
  have frontInOrder : InOrder stream 0 front := (divided ▸ inOrder).of_append
  have inFirstPass : ∀ delivery ∈ front ++ (input, index) :: back,
      delivery.2 ≤ maxMediaSequence := divided ▸ firstPass
  have upToDate := upToDate_of_firstPass (upToDate_initial stream 0) frontInOrder
    (fun delivery member => inFirstPass delivery (List.mem_append_left _ member)) run
  exact upToDate.unreused_of_firstPass (inFirstPass (input, index)
    (List.mem_append_right _ List.mem_cons_self))

/-- Over a network that loses but neither reorders nor repeats, every payload that
is forwarded while no held sequence is reused is the one that the sender's latest
packet with its sequence has. -/
theorem forwarded_current_of_unreused (config : ReorderConfig) (stream : SenderStream)
    {deliveries : List (TimedInput × Nat)} (inOrder : InOrder stream 0 deliveries)
    (unreused : ∀ earlier timed after later state,
      deliveries = earlier ++ (timed, after) :: later →
      reorderLoop config (earlier.map Prod.fst) = some state →
      Unreused (position 0 earlier) after state) :
    ∃ final, reorderLoop config (deliveries.map Prod.fst) = some final ∧
      ∀ earlier timed after later state, deliveries = earlier ++ (timed, after) :: later →
        reorderLoop config (earlier.map Prod.fst) = some state →
        ∃ next effects, reorderStep config state timed = some next ∧
          next.trace = state.trace ++ effects ∧
          ∀ sequence payload, .forward sequence payload ∈ effects →
            stream.Current after sequence payload := by
  rcases reorderLoop_finishes config (deliveries.map Prod.fst) with ⟨final, finished⟩
  refine ⟨final, finished, ?_⟩
  intro earlier timed after later state split reached
  exact forwards_current (upToDate_initial stream 0) inOrder unreused split reached

/-! ## A lost packet and a lost pass -/

/-- One byte a packet: packet 2 differs from the rest of its pass, and so do all
later passes. -/
def twoPasses : SenderStream where
  payload index := if index = 2 then [4] else if index ≤ maxMediaSequence then [1] else [2]
  parts index := [if index = 2 then [4] else if index ≤ maxMediaSequence then [1] else [2]]
  flatten_parts _ := List.append_nil _

def packetZero : ReceivedPacket := .whole "client" 0 0 [1] (by decide)

def parityZeroOne : ReceivedFecFrame := ⟨"client", ⟨0, [1, 1], [0]⟩, by decide⟩

/-- Packet 1 is lost and recovered from its group. -/
def oneRecovered : List (TimedInput × Nat) :=
  [(arrival 0 packetZero, 0), (⟨1, .frame (.fec parityZeroOne)⟩, 1)]

theorem reorderLoop_packetZero :
    ∃ state, reorderLoop tolerant [arrival 0 packetZero] = some state ∧
      state.buffered.toList = [] ∧ state.fragments.toList = [] ∧
      state.fecState.frames.toList = [] ∧ state.fecState.payloads.toList = [(0, [1])] ∧
      .forward 1 [1] ∉ state.trace :=
  exists_of_any (by decide +kernel)

theorem reorderLoop_oneRecovered :
    ∃ final, reorderLoop tolerant (oneRecovered.map Prod.fst) = some final ∧
      .forward 1 [1] ∈ final.trace :=
  exists_of_any (by decide +kernel)

/-- With an empty window only the cache holds something. -/
theorem Quiet.cached_of_held {sequence : Nat} (quiet : Quiet state) (held : Held state sequence) :
    sequence ∈ state.fecState.payloads := by
  cases held with
  | buffered member => exact absurd (quiet.buffered ▸ member) ExtTreeMap.not_mem_empty
  | assembly member => exact absurd (quiet.fragments ▸ member) ExtTreeMap.not_mem_empty
  | cached member => exact member
  | member found _ _ =>
      have member := OrderedMap.mem_of_getElem? found
      exact absurd (quiet.frames ▸ member) ExtTreeMap.not_mem_empty

theorem unreused_initial (before after : Nat) : Unreused before after .initial := by
  intro sequence held
  have quiet : Quiet .initial := ⟨rfl, rfl, rfl⟩
  exact absurd (quiet.cached_of_held held) ExtTreeMap.not_mem_empty

theorem unreused_packetZero (quiet : Quiet state)
    (payloads : state.fecState.payloads.toList = [(0, [1])]) : Unreused 0 1 state := by
  intro sequence held index above within
  have entry := ExtTreeMap.mem_toList_iff_getElem?_eq_some.mpr
    (ExtTreeMap.getElem?_eq_some_getElem (quiet.cached_of_held held))
  rw [payloads, List.mem_singleton] at entry
  have zero : sequence = 0 := congrArg Prod.fst entry
  have one : index = 1 := by omega
  rw [zero, one]
  decide

theorem forwarded_current_of_unreused_recovered :
    ∃ final, reorderLoop tolerant (oneRecovered.map Prod.fst) = some final ∧
      .forward 1 [1] ∈ final.trace ∧ twoPasses.Current 1 1 [1] := by
  rcases reorderLoop_packetZero with
    ⟨state, reached, buffered, fragments, frames, payloads, unsent⟩
  rcases reorderLoop_oneRecovered with ⟨final, finished, forwarded⟩
  have inOrder : InOrder twoPasses 0 oneRecovered := by
    refine ⟨.whole (Nat.le_refl 0) rfl rfl rfl, ?_, trivial⟩
    exact @Delivers.parity twoPasses 0 parityZeroOne 0 1 (Nat.zero_le _) rfl rfl rfl
  have unreused : ∀ earlier timed after later state,
      oneRecovered = earlier ++ (timed, after) :: later →
      reorderLoop tolerant (earlier.map Prod.fst) = some state →
      Unreused (position 0 earlier) after state := by
    intro earlier timed after later other split ran
    rcases earlier with _ | ⟨first, _ | ⟨second, earlier⟩⟩
    · cases split
      cases ran
      exact unreused_initial _ _
    · cases split
      cases ran.symm.trans reached
      exact unreused_packetZero ⟨ExtTreeMap.toList_eq_nil_iff.mp buffered,
        ExtTreeMap.toList_eq_nil_iff.mp fragments, ExtTreeMap.toList_eq_nil_iff.mp frames⟩ payloads
    · simp [oneRecovered] at split
  rcases forwarded_current_of_unreused tolerant twoPasses inOrder unreused with ⟨_, _, current⟩
  rcases current [(arrival 0 packetZero, 0)] _ _ [] state rfl reached with
    ⟨next, effects, stepped, trace, isCurrent⟩
  cases stepped.symm.trans (reorderStep_of_reorderLoop reached finished)
  refine ⟨_, finished, forwarded, isCurrent 1 [1] ?_⟩
  rw [trace] at forwarded
  exact (List.mem_append.mp forwarded).resolve_left unsent

def parityTwoThree : ReceivedFecFrame := ⟨"client", ⟨2, [1, 1], [5]⟩, by decide⟩

/-- Packet 2 of the next pass. -/
def nextPassTwo : ReceivedPacket := .whole "client" 0 2 [2] (by decide)

/-- Packets 2 and 3 are lost and their parity is not, then a whole pass is lost. -/
def oneGroupLost : List (TimedInput × Nat) :=
  [(arrival 0 packetZero, 0), (⟨1, .frame (.fec parityTwoThree)⟩, 3),
    (arrival 2 nextPassTwo, maxMediaSequence + 3), (⟨12, .timeout⟩, maxMediaSequence + 3)]

theorem reorderLoop_oneGroupLost :
    ∃ final, reorderLoop ⟨none, 10, 10⟩ (oneGroupLost.map Prod.fst) = some final ∧
      .forward 3 [7] ∈ final.trace :=
  exists_of_any (by decide +kernel)

/-- The old parity and the new packet 2 give a packet 3 that was never sent. -/
theorem old_parity_fabricates :
    InOrder twoPasses 0 oneGroupLost ∧
      ∃ final, reorderLoop ⟨none, 10, 10⟩ (oneGroupLost.map Prod.fst) = some final ∧
        .forward 3 [7] ∈ final.trace ∧ ∀ index, twoPasses.payload index ≠ [7] := by
  refine ⟨⟨?_, ?_, ?_, .timeout, trivial⟩, ?_⟩
  · exact .whole (Nat.le_refl 0) rfl rfl rfl
  · exact @Delivers.parity twoPasses 0 parityTwoThree 2 1 (Nat.zero_le _) rfl rfl rfl
  · exact .whole (by decide) rfl rfl rfl
  · rcases reorderLoop_oneGroupLost with ⟨final, finished, forwarded⟩
    refine ⟨final, finished, forwarded, ?_⟩
    intro index same
    simp only [twoPasses] at same
    split at same
    · cases same
    · split at same <;> cases same

end Irohsion.Server
