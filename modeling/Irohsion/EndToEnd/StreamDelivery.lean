import Irohsion.Client.Consistency
import Irohsion.EndToEnd.RepairRoundTrip
import Irohsion.Server.GapExpiry
import Irohsion.Server.TimelyDelivery

/-! # The stream from the sender to the UDP destination

A sender run and a run of the reorder loop with a network between them, which
delivers what the sender has handed to its paths. Whatever the network does, each
flow forwards ingested payloads in the order in which they were ingested; when it
is only late, nothing is missing.
-/

namespace Irohsion.EndToEnd

open Protocol Client Server

/-- The datagram was handed to some path. -/
def HandedOut (trace : List ClientEffect) (datagram : Bytes) : Prop :=
  ∃ path, ClientEffect.send path datagram ∈ trace ∨ ClientEffect.sendFec path datagram ∈ trace

/-- The network alters nothing. It may lose, repeat, delay and reorder datagrams. -/
def FromSender (trace : List ClientEffect) (inputs : List TimedInput) : Prop :=
  ∀ timed ∈ inputs, timed.Admitted fun frame => ∃ datagram remote connectionId,
    HandedOut trace datagram ∧ parseFrame datagram remote connectionId = .ok frame

variable {content : Content} {sender : ClientState} {datagram : Bytes} {remote : String}
variable {connectionId sequence : Nat} {frame : ReceivedFrame}

/-! ## What a datagram is received as -/

/-- A packet that carries the content is received as such. -/
theorem honest_of_carries (media : sequence ≤ maxMediaSequence)
    (few : (content.parts sequence).length ≤ maxFragments)
    (carries : content.Carries sequence datagram)
    (parsed : parseFrame datagram remote connectionId = .ok frame) :
    Honest content frame ∧ frame.About (· = sequence) := by
  rcases carries with rfl | part
  · have valid := fragment_valid (le_maxSequence media) Nat.zero_lt_one one_le_maxFragments
    rw [parseFrame_of_media valid media (decodePacket_packetBytes valid _)] at parsed
    cases parsed
    exact ⟨.whole rfl rfl, rfl⟩
  · rcases List.getElem?_of_mem part with ⟨index, found⟩
    have receives : Receives datagram ⟨0, .frame frame⟩ :=
      ⟨remote, connectionId, frame, parsed, rfl⟩
    rcases receives_part media few found receives with ⟨packet, input, carries, -⟩
    cases input
    refine ⟨.part ?_ ?_, carries.sequence⟩
    · rw [carries.sequence]
      exact carries.count
    · rw [carries.sequence]
      exact carries.part

/-- A parity frame over the content is received as such. -/
theorem honest_of_protects {used : List Nat} (protects : ProtectsContent content used datagram)
    (parsed : parseFrame datagram remote connectionId = .ok frame) :
    Honest content frame ∧ frame.About (· ∈ used) := by
  rcases protects with ⟨fec, encoded, -, -, members, covers⟩
  have valid := valid_of_decodeFecFrame (decodeFecFrame_eq_ok_iff.mpr encoded)
  have received : parseFrame datagram remote connectionId = .ok (.fec ⟨remote, fec, valid⟩) :=
    parseFrame_eq_fec_iff.mpr ⟨rfl, encoded⟩
  cases received.symm.trans parsed
  exact ⟨.parity covers, members⟩

/-! ## The sender's stream -/

variable {shipments : List Shipment}

/-- Before the sequences repeat, the ingested payloads are the stream of the content. -/
theorem stream_eq_ingested (shipped : Shipped shipments sender)
    (few : shipments.length ≤ maxMediaSequence) :
    stream (contentOf shipments) shipments.length = ingestedPayloads sender.trace := by
  rw [shipped.ingested]
  apply List.ext_getElem?
  intro index
  rw [stream, List.getElem?_map, List.getElem?_map]
  cases present : shipments[index]? with
  | none =>
      rw [List.getElem?_eq_none]
      · rfl
      · simpa using List.getElem?_eq_none_iff.mp present
  | some shipment =>
      have bound := (List.getElem?_eq_some_iff.mp present).1
      have sequence := shipped.sequence_eq present
      rw [sequenceAfter_of_le (by omega), Nat.zero_add] at sequence
      have payload := (shipped.contentOf_of_mem (by omega) (List.mem_of_getElem? present)).1
      rw [List.getElem?_range bound, Option.map_some, Option.map_some, Shipment.ingest, ← sequence,
        payload]

theorem lt_of_mem_usedSequences (shipped : Shipped shipments sender)
    (few : shipments.length ≤ maxMediaSequence)
    (used : sequence ∈ usedSequences sender.trace) : sequence < shipments.length := by
  rw [usedSequences, ← stream_eq_ingested shipped few, stream, List.map_map] at used
  rcases List.mem_map.mp used with ⟨index, member, rfl⟩
  exact List.mem_range.mp member

/-- What arrives from the sender is its stream. -/
theorem fromStream_of_fromSender (shipped : Shipped shipments sender)
    (few : shipments.length ≤ maxMediaSequence) {inputs : List TimedInput}
    (network : FromSender sender.trace inputs) :
    ∀ timed ∈ inputs, timed.Admitted (FromStream (contentOf shipments) shipments.length) := by
  have consistent := shipped.consistent (Nat.le_succ_of_le few)
  have below := fun {sequence} => @lt_of_mem_usedSequences _ sequence _ shipped few
  intro timed member frame received
  rcases network timed member frame received with
    ⟨datagram, remote, connectionId, ⟨path, packet | parity⟩, parsed⟩
  · rcases consistent.sent path datagram packet with ⟨sequence, used, carries⟩
    have media : sequence ≤ maxMediaSequence :=
      Nat.le_trans (Nat.le_of_lt (below used)) few
    rcases honest_of_carries media (consistent.few sequence) carries parsed with ⟨honest, about⟩
    refine ⟨honest, about.mono ?_⟩
    rintro other rfl
    exact below used
  · rcases honest_of_protects (consistent.parity path datagram parity) parsed with
      ⟨honest, about⟩
    exact ⟨honest, about.mono fun _ used => below used⟩

/-! ## Four datagrams -/

/-- Four datagrams on both paths. -/
def fourIngests : List (ClientEvent Float32 Float) :=
  List.replicate 4 (.ingest [1] (startReads .redundant))

theorem fromSender_overtaken
    (sends : ∀ sequence < 4, ClientEffect.send ⟨0, "first"⟩ (packetBytes ⟨sequence, 0, 1⟩ [1]) ∈
      sender.trace) : FromSender sender.trace overtaken := by
  have received : ∀ (now : Instant) (sequence : Fin 16), sequence.val < 4 →
      (wholeAt now sequence).Admitted fun frame => ∃ datagram remote connectionId,
        HandedOut sender.trace datagram ∧ parseFrame datagram remote connectionId = .ok frame := by
    intro now sequence among frame received
    cases received
    refine ⟨packetBytes ⟨sequence, 0, 1⟩ [1], "client", 0, ⟨_, Or.inl (sends _ among)⟩, ?_⟩
    apply parseFrame_eq_packet_iff.mpr
    exact ⟨rfl, rfl, encodePacket_of_valid (ReceivedPacket.valid _) _⟩
  rw [FromSender, overtaken]
  simp only [List.forall_mem_cons]
  exact ⟨received _ _ (by decide), received _ _ (by decide), received _ _ (by decide),
    received _ _ (by decide), List.forall_mem_nil _⟩

theorem fourIngests_sent :
    ∃ sender, clientRun twoPathConfig startSender.fec (.new 1000 8) fourIngests = some sender ∧
      (usedSequences sender.trace).length = 4 ∧ FromSender sender.trace overtaken := by
  have evaluated : ((clientRun twoPathConfig startSender.fec (.new 1000 8) fourIngests).any
      fun sender => decide ((usedSequences sender.trace).length = 4 ∧
        ∀ sequence < 4, ClientEffect.send ⟨0, "first"⟩ (packetBytes ⟨sequence, 0, 1⟩ [1]) ∈
          sender.trace)) = true := by
    decide +kernel
  rcases (Option.any_eq_true _ _).mp evaluated with ⟨sender, finished, facts⟩
  rcases of_decide_eq_true facts with ⟨used, sends⟩
  exact ⟨sender, finished, used, fromSender_overtaken sends⟩

/-! ## Over any network -/

variable {Rate Weight : Type} [Measure Rate] [Measure Weight] [Widen Rate Weight]
variable [WeightShare Weight]

/-- Each flow forwards ingested payloads in the order of the sender and each once,
whatever arrives of what the sender has handed to its paths. -/
theorem ingested_inOrder (config : SendConfig) {disabled : Bool} {groupSize : Nat}
    {fec : FecEncoder} (created : FecEncoder.new disabled groupSize config.mtu = .ok fec)
    (ttl : Duration) (maxPackets : Nat) (events : List (ClientEvent Rate Weight)) :
    ∃ sender, clientRun config fec (.new ttl maxPackets) events = some sender ∧
      ((usedSequences sender.trace).length ≤ maxMediaSequence →
        ∀ (server : ReorderConfig) (inputs : List TimedInput), FromSender sender.trace inputs →
          ∃ final, reorderLoop server inputs = some final ∧
            ∀ earlier, earlier <+: final.trace →
              (flowForwards earlier).Sublist (ingestedPayloads sender.trace)) := by
  rcases clientRun_shipped config created ttl maxPackets events with
    ⟨shipments, sender, finished, shipped⟩
  refine ⟨sender, finished, ?_⟩
  intro few server inputs network
  rw [usedSequences, shipped.ingested, List.length_map, List.length_map] at few
  rw [← stream_eq_ingested shipped few]
  exact flows_inOrder server _ few (fromStream_of_fromSender shipped few network)

theorem ingested_inOrder_overtaken :
    ∃ sender final, clientRun twoPathConfig startSender.fec (.new 1000 8) fourIngests =
        some sender ∧
      FromSender sender.trace overtaken ∧ reorderLoop tolerant overtaken = some final ∧
      ∀ earlier, earlier <+: final.trace →
        (flowForwards earlier).Sublist (ingestedPayloads sender.trace) := by
  have created : FecEncoder.new false 0 twoPathConfig.mtu = .ok startSender.fec := rfl
  rcases fourIngests_sent with ⟨sender, finished, used, network⟩
  rcases ingested_inOrder twoPathConfig created 1000 8 fourIngests with ⟨same, again, delivers⟩
  cases finished.symm.trans again
  have few : (usedSequences sender.trace).length ≤ maxMediaSequence := by
    rw [used]
    decide
  rcases delivers few tolerant overtaken network with ⟨final, reached, inOrder⟩
  exact ⟨sender, final, finished, network, reached, inOrder⟩

/-! ## Over a network that is only late -/

/-- What a run forwards of the ingested payloads from position `first` on. -/
structure HandsOver (ingested : List (Nat × Bytes)) (first : Nat) (schedule : Schedule)
    (inputs : List TimedInput) (final : ReorderState) : Prop where
  prefixes : forwards final.trace = (ingested.take final.nextSeq).drop first
  unskipped : ∀ position reason, .skip position reason ∉ final.trace
  prompt : ∀ position,
    (∀ earlier, first ≤ earlier → earlier ≤ position → Complete inputs earlier) →
    position < final.nextSeq
  finished : (∀ position, first ≤ position → position ≤ schedule.last →
      Complete inputs position) →
    forwards final.trace = ingested.drop first ∧ final.hasPendingState = false

theorem between_eq_drop (broadcast : Broadcast) (first next count : Nat) (inRange : next ≤ count) :
    broadcast.between first next = ((stream broadcast.content count).take next).drop first := by
  have taken : (stream broadcast.content count).take next = stream broadcast.content next := by
    rw [stream, ← List.map_take, List.take_range, Nat.min_eq_left inRange]
    rfl
  rw [taken, stream, ← List.map_drop, Broadcast.between, List.range_eq_range', List.drop_range']
  simp

/-- What hides the lateness of the stream hands it over. -/
theorem handsOver_of_hidesLateness (shipped : Shipped shipments sender) {schedule : Schedule}
    {first : Nat} {inputs : List TimedInput} {final : ReorderState}
    (count : schedule.last + 1 = shipments.length)
    (hides : HidesLateness ⟨schedule, contentOf shipments⟩ first inputs final) :
    HandsOver (ingestedPayloads sender.trace) first schedule inputs final := by
  have few : shipments.length ≤ maxMediaSequence := by
    rw [← count]
    exact schedule.last_lt
  have drops := fun {next} => between_eq_drop ⟨schedule, contentOf shipments⟩ first next
    shipments.length
  rw [← stream_eq_ingested shipped few]
  constructor
  · rw [hides.forwarded]
    exact drops (count ▸ hides.position.2)
  · exact hides.unskipped
  · exact hides.prompt
  · intro complete
    rcases hides.finished complete with ⟨all, nothing⟩
    refine ⟨?_, nothing⟩
    rw [all, drops (Nat.le_of_eq count), ← count, List.take_of_length_le]
    simp [stream]

/-- Whatever the sender has ingested from the position of the first packet on is
forwarded, in its order and each once, at the latest when it and those before it
have arrived. -/
theorem ingested_onTime (config : SendConfig) {disabled : Bool} {groupSize : Nat}
    {fec : FecEncoder} (created : FecEncoder.new disabled groupSize config.mtu = .ok fec)
    (ttl : Duration) (maxPackets : Nat) (events : List (ClientEvent Rate Weight)) :
    ∃ sender, clientRun config fec (.new ttl maxPackets) events = some sender ∧
      ∀ (server : ReorderConfig) (schedule : Schedule) (first : Nat) (inputs : List TimedInput)
        (last : Instant) (final : ReorderState),
        schedule.last + 1 = (usedSequences sender.trace).length →
        FromSender sender.trace inputs →
        OnlyLate server schedule first inputs →
        TimedRun server 0 .initial inputs last final →
        HandsOver (ingestedPayloads sender.trace) first schedule inputs final := by
  rcases clientRun_shipped config created ttl maxPackets events with
    ⟨shipments, sender, finished, shipped⟩
  refine ⟨sender, finished, ?_⟩
  intro server schedule first inputs last final count network late run
  rw [usedSequences, shipped.ingested, List.length_map, List.length_map] at count
  have few : shipments.length ≤ maxMediaSequence := by
    rw [← count]
    exact schedule.last_lt
  have admitted := fromStream_of_fromSender shipped few network
  have honest : ∀ timed ∈ inputs, timed.Admitted (Honest (contentOf shipments)) :=
    fun timed member frame received => (admitted timed member frame received).1
  exact handsOver_of_hidesLateness shipped count (@OnlyLate.flowing server
    ⟨schedule, contentOf shipments⟩ first inputs last final run honest late).hidesLateness

theorem ingested_onTime_overtaken :
    ∃ sender final, clientRun twoPathConfig startSender.fec (.new 1000 8) fourIngests =
        some sender ∧
      TimedRun tolerant 0 .initial overtaken 14 final ∧
      HandsOver (ingestedPayloads sender.trace) 0 fourSent.toSchedule overtaken final := by
  have created : FecEncoder.new false 0 twoPathConfig.mtu = .ok startSender.fec := rfl
  rcases fourIngests_sent with ⟨sender, finished, used, network⟩
  rcases overtaken_run tolerant (by decide) with ⟨final, -, run⟩
  rcases ingested_onTime twoPathConfig created 1000 8 fourIngests with ⟨same, again, delivers⟩
  cases finished.symm.trans again
  exact ⟨sender, final, finished, run, delivers tolerant fourSent.toSchedule 0 overtaken 14 final
    used.symm network overtaken_onlyLate run⟩

end Irohsion.EndToEnd
