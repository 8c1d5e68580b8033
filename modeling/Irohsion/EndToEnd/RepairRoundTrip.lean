import Irohsion.Client.CachedPayloads
import Irohsion.Server.AwaitedRepairs
import Irohsion.Server.ParseFrame

/-! # Repair from request to completion

The requests of the server name exactly what it lacks, and what the repair cache
of the client answers completes the position with the cached payload.
-/

namespace Irohsion.EndToEnd

open Protocol Client Server

/-- The request can be sent, and it names nothing that the server has. -/
structure SoundRequest (state : ReorderState) (request : RepairRequest) : Prop where
  valid : request.Valid
  decodes : ∃ data, encodeRepairRequest request = some data ∧
    decodeRepairRequest data = .ok request
  fresh : state.Fresh request.sequence
  unheld : ∀ fragment, request.missingMask.testBit fragment = true →
    ¬ state.HoldsFragment request.sequence fragment

/-- The datagram is received on some connection. -/
def Receives (datagram : Bytes) (timed : TimedInput) : Prop :=
  ∃ remote connectionId frame, parseFrame datagram remote connectionId = .ok frame ∧
    timed.input = .frame frame

/-- The datagrams arrive in any order and with any repetitions, between timeouts. -/
structure Arrive (datagrams : List Bytes) (inputs : List TimedInput) : Prop where
  only : ∀ timed ∈ inputs, timed.input = .timeout ∨ ∃ datagram ∈ datagrams, Receives datagram timed
  all : ∀ datagram ∈ datagrams, ∃ timed ∈ inputs, Receives datagram timed

variable {state : ReorderState} {request : RepairRequest} {timed : TimedInput}
variable {sequence index : Nat} {parts : List Bytes} {datagram : Bytes}

theorem soundRequest_of_asks (asks : state.Asks request) (wellFormed : WellFormed state) :
    SoundRequest state request where
  valid := asks.valid wellFormed
  decodes := by
    apply decodeRepairRequest_encodeRepairRequest (asks.valid wellFormed)
    exact Nat.lt_of_le_of_lt (asks.fits wellFormed) (by decide)
  fresh := asks.fresh wellFormed
  unheld _ asked := asks.unheld asked

/-- A datagram of a split is received as the part under its index. -/
theorem receives_part (media : sequence ≤ maxMediaSequence) (few : parts.length ≤ maxFragments)
    (found : (partPackets sequence parts)[index]? = some datagram)
    (receives : Receives datagram timed) :
    ∃ packet, timed.input = .frame (.packet packet) ∧ CarriesPart sequence parts packet ∧
      packet.header.fragment = index := by
  rw [partPackets, List.getElem?_mapIdx, Option.map_eq_some_iff] at found
  rcases found with ⟨part, present, rfl⟩
  have bound := (List.getElem?_eq_some_iff.mp present).1
  have valid := fragment_valid (le_maxSequence media) bound few
  rcases receives with ⟨remote, connectionId, frame, parsed, input⟩
  rw [parseFrame_of_media valid media (decodePacket_packetBytes valid part)] at parsed
  cases parsed
  exact ⟨_, input, ⟨rfl, rfl, present⟩, rfl⟩

/-- The answer to a request that covers what the server lacks completes the position. -/
theorem completes_of_arrive {config : ReorderConfig} {base : ReorderState}
    {cache rest : RepairCache} {answered : List CachedFragment} {asked : Instant}
    {deliveries : List TimedInput} (caches : cache.Caches request.sequence parts)
    (answers : cache.fragmentsFor asked request = some (answered, rest)) (nonempty : answered ≠ [])
    (arrive : Arrive (answered.map CachedFragment.packet) deliveries)
    (covers : ∀ fragment, parts.length ≠ 1 → fragment < parts.length →
      base.HoldsFragment request.sequence fragment ∨ request.missingMask.testBit fragment = true)
    (spared : Active (Spared request.sequence parts base) state)
    (media : request.sequence ≤ maxMediaSequence) :
    ∃ final, deliveries.foldlM (reorderStep config) state = some final ∧
      (Skipped base final ∨
        CompletesWith config request.sequence parts.flatten state deliveries) := by
  have mem_answered := caches.mem_answered answers nonempty
  have received : ∀ {index datagram},
      (partPackets request.sequence parts)[index]? = some datagram →
      (parts.length = 1 ∨ request.missingMask.testBit index = true) →
      ∃ timed ∈ deliveries, ∃ packet, timed.input = .frame (.packet packet) ∧
        packet.header.fragment = index := by
    intro index datagram found named
    rcases arrive.all datagram ((mem_answered datagram).mpr ⟨index, found, named⟩) with
      ⟨timed, member, receives⟩
    rcases receives_part media caches.few found receives with ⟨packet, input, -, same⟩
    exact ⟨timed, member, packet, input, same⟩
  apply completes_of_spared config _ spared
  · rcases List.exists_mem_of_ne_nil answered nonempty with ⟨fragment, member⟩
    rcases (mem_answered fragment.packet).mp (List.mem_map_of_mem member) with
      ⟨index, found, named⟩
    rcases received found named with ⟨timed, member, packet, input, -⟩
    exact ⟨timed, member, packet, input⟩
  · intro fragment inBounds
    have found : (partPackets request.sequence parts)[fragment]? =
        some (packetBytes ⟨request.sequence, fragment, parts.length⟩ parts[fragment]) := by
      rw [partPackets, List.getElem?_mapIdx, List.getElem?_eq_getElem inBounds]
      rfl
    by_cases single : parts.length = 1
    · exact Or.inr (received found (Or.inl single))
    · exact (covers fragment single inBounds).imp_right fun asked => received found (Or.inr asked)
  · intro timed member
    rcases arrive.only timed member with waits | ⟨datagram, answer, receives⟩
    · exact Or.inl waits
    · rcases (mem_answered datagram).mp answer with ⟨index, found, -⟩
      rcases receives_part media caches.few found receives with ⟨packet, input, carries, -⟩
      exact Or.inr ⟨packet, input, carries⟩

/-- What `request_due_repairs` builds in any round is sound. After the round the
loop holds no less of a requested position, and the request covers the rest of
any split that fits what it holds. -/
theorem requests_of_round (config : ReorderConfig) {interval : Duration}
    (repairs : config.repairRequestInterval = some interval) {inputs : List TimedInput}
    (reached : reorderLoop config inputs = some state) {target : ReorderState}
    (called : advanceTarget state timed = some target) :
    ∃ (requested : ReorderState) (requests : List RepairRequest) (next : ReorderState),
      requestDueRepairs interval timed.now (recoverFecReady timed.now target) = some requested ∧
      requested.trace =
        (recoverFecReady timed.now target).trace ++ requests.map .repairRequest ∧
      reorderStep config state timed = some next ∧
      ∀ request ∈ requests,
        SoundRequest (recoverFecReady timed.now target) request ∧
        ∀ {parts : List Bytes}, parts.length ≤ maxFragments →
          (recoverFecReady timed.now target).FitsParts request.sequence parts →
          request.sequence ≤ maxMediaSequence ∧
            Active (Spared request.sequence parts (recoverFecReady timed.now target)) next ∧
            ∀ fragment, parts.length ≠ 1 → fragment < parts.length →
              (recoverFecReady timed.now target).HoldsFragment request.sequence fragment ∨
                request.missingMask.testBit fragment = true := by
  rcases reorderLoop_stuck reached with ⟨consistent, -⟩
  rcases active_advanceTarget consistent called with ⟨wellFormedTarget, activeTarget⟩
  have recovered : Active (fun _ => True) (recoverFecReady timed.now target) :=
    ((consistent_invariant config).window timed.now).toWindow.recoverFecReady
      ⟨wellFormedTarget, activeTarget, trivial⟩
  have stuck := recoverFecReady_stuck timed.now target
  rcases requestDueRepairs_eq interval timed.now recovered.1 with
    ⟨fragments, gapRepairRequests, requests, requested, same, asks⟩
  have stepped : reorderStep config state timed = some (drainReady (expireReorderGap config
      timed.now { recoverFecReady timed.now target with
        fragments := fragments
        gapRepairRequests := gapRepairRequests
        trace := (recoverFecReady timed.now target).trace ++ requests.map .repairRequest })) := by
    rw [reorderStep_of_target called, advanceReorderWindow, repairs]
    simp only [requested, Option.map_some]
  refine ⟨_, requests, _, requested, rfl, stepped, ?_⟩
  intro request member
  have asked := asks request member
  refine ⟨soundRequest_of_asks asked recovered.1, ?_⟩
  intro parts few fits
  have awaits := Awaits.of_asks asked recovered.1 fits
  exact ⟨awaits.media, awaits.afterRequests config timed.now recovered.1 recovered.2.1 stuck same,
    fun fragment several inBounds => asked.covers several few fits inBounds⟩

/-- What `request_due_repairs` builds in any round is sound, and when the answer
of the client arrives before a position expires, the requested position is
completed with the cached payload. -/
theorem repair_completes (config : ReorderConfig) {interval : Duration}
    (repairs : config.repairRequestInterval = some interval) {inputs : List TimedInput}
    (reached : reorderLoop config inputs = some state) {target : ReorderState}
    (called : advanceTarget state timed = some target) :
    ∃ (requested : ReorderState) (requests : List RepairRequest) (next : ReorderState),
      requestDueRepairs interval timed.now (recoverFecReady timed.now target) = some requested ∧
      requested.trace =
        (recoverFecReady timed.now target).trace ++ requests.map .repairRequest ∧
      reorderStep config state timed = some next ∧
      ∀ request ∈ requests,
        SoundRequest (recoverFecReady timed.now target) request ∧
        ∀ {cache rest : RepairCache} {parts : List Bytes} {answered : List CachedFragment}
          {asked : Instant} {deliveries : List TimedInput},
          cache.Caches request.sequence parts →
          (recoverFecReady timed.now target).FitsParts request.sequence parts →
          cache.fragmentsFor asked request = some (answered, rest) → answered ≠ [] →
          Arrive (answered.map CachedFragment.packet) deliveries →
          ∃ final, deliveries.foldlM (reorderStep config) next = some final ∧
            (Skipped (recoverFecReady timed.now target) final ∨
              CompletesWith config request.sequence parts.flatten next deliveries) := by
  rcases requests_of_round config repairs reached called with
    ⟨requested, requests, next, outcome, trace, stepped, sound⟩
  refine ⟨requested, requests, next, outcome, trace, stepped, ?_⟩
  intro request member
  rcases sound request member with ⟨isSound, spares⟩
  refine ⟨isSound, ?_⟩
  intro cache rest parts answered asked deliveries caches fits answers nonempty arrive
  rcases spares caches.few fits with ⟨media, spared, covers⟩
  exact completes_of_arrive caches answers nonempty arrive covers spared media

/-- The client of any run answers the requests of any round with a payload that
it ingested, and the server completes the position with this payload when what
it holds comes from the same split. -/
theorem repair_restores_ingested {Rate Weight : Type} [Measure Rate] [Measure Weight]
    [Widen Rate Weight] [WeightShare Weight] {sender : SendConfig} {fec : FecEncoder}
    {ttl : Duration} {maxPackets : Nat} {events : List (ClientEvent Rate Weight)}
    {client : ClientState}
    (ran : clientRun sender fec (.new ttl maxPackets) events = some client)
    (config : ReorderConfig) {interval : Duration}
    (repairs : config.repairRequestInterval = some interval) {inputs : List TimedInput}
    (reached : reorderLoop config inputs = some state) {target : ReorderState}
    (called : advanceTarget state timed = some target) :
    ∃ (requested : ReorderState) (requests : List RepairRequest) (next : ReorderState),
      requestDueRepairs interval timed.now (recoverFecReady timed.now target) = some requested ∧
      requested.trace =
        (recoverFecReady timed.now target).trace ++ requests.map .repairRequest ∧
      reorderStep config state timed = some next ∧
      ∀ request ∈ requests, ∀ {rest : RepairCache} {answered : List CachedFragment}
        {asked : Instant},
        client.repairCache.fragmentsFor asked request = some (answered, rest) → answered ≠ [] →
        ∃ parts : List Bytes,
          (request.sequence, parts.flatten) ∈ ingestedPayloads client.trace ∧
          ((recoverFecReady timed.now target).FitsParts request.sequence parts →
            ∀ deliveries, Arrive (answered.map CachedFragment.packet) deliveries →
              ∃ final, deliveries.foldlM (reorderStep config) next = some final ∧
                (Skipped (recoverFecReady timed.now target) final ∨
                  CompletesWith config request.sequence parts.flatten next deliveries)) := by
  rcases requests_of_round config repairs reached called with
    ⟨requested, requests, next, outcome, trace, stepped, sound⟩
  refine ⟨requested, requests, next, outcome, trace, stepped, ?_⟩
  intro request member rest answered asked answers nonempty
  rcases clientRun_answers ran answers nonempty with ⟨parts, caches, ingested, -⟩
  refine ⟨parts, ingested, ?_⟩
  intro fits deliveries arrive
  rcases (sound request member).2 caches.few fits with ⟨media, spared, covers⟩
  exact completes_of_arrive caches answers nonempty arrive covers spared media

def repairing : ReorderConfig := ⟨some 5, 100, 50⟩

/-- One of the two halves of a payload. -/
def halfPacket (index : Fin 2) (half : UInt8) : ReceivedPacket where
  remote := "client"
  connectionId := 0
  header := ⟨0, index, 2⟩
  payload := [half]
  valid := fragment_valid (Nat.zero_le _) index.isLt (by decide)
  media := Nat.zero_le _

def halvesCache : RepairCache where
  ttl := 1000
  maxPackets := 8
  packets := (∅ : Std.ExtTreeMap Nat CachedPacket).insert 0
    ⟨[⟨packetBytes ⟨0, 0, 2⟩ [1], 1⟩, ⟨packetBytes ⟨0, 1, 2⟩ [2], 1⟩], 0⟩
  order := [0]
  recentRequests := ∅
  requestOrder := []

theorem halvesCache_caches : halvesCache.Caches 0 [[1], [2]] where
  few := by decide
  entry := ⟨_, Std.ExtTreeMap.getElem?_insert_self, rfl⟩

theorem halvesCache_answers : ∃ rest, halvesCache.fragmentsFor 0 ⟨0, 2⟩ =
    some ([⟨packetBytes ⟨0, 1, 2⟩ [2], 1⟩], rest) := by
  have expired : (halvesCache.expireLocked 0).expireRecentRequestsLocked 0 = halvesCache := rfl
  have found : halvesCache.packets[0]? =
      some ⟨[⟨packetBytes ⟨0, 0, 2⟩ [1], 1⟩, ⟨packetBytes ⟨0, 1, 2⟩ [2], 1⟩], 0⟩ :=
    Std.ExtTreeMap.getElem?_insert_self
  have unasked : halvesCache.recentRequests[RepairRequest.mk 0 2]? = none :=
    Std.ExtHashMap.getElem?_empty
  refine ⟨halvesCache.noteRequest 0 ⟨0, 2⟩, ?_⟩
  simp only [RepairCache.fragmentsFor, expired, found, unasked]
  rfl

theorem arrive_secondHalf :
    Arrive [packetBytes ⟨0, 1, 2⟩ [2]] [arrival 1 (halfPacket 1 2)] := by
  have receives : Receives (packetBytes ⟨0, 1, 2⟩ [2]) (arrival 1 (halfPacket 1 2)) :=
    ⟨"client", 0, _, parseFrame_of_media (halfPacket 1 2).valid (Nat.zero_le _)
      (decodePacket_packetBytes (halfPacket 1 2).valid [2]), rfl⟩
  constructor
  · rw [List.forall_mem_singleton]
    exact Or.inr ⟨_, List.mem_singleton_self _, receives⟩
  · rw [List.forall_mem_singleton]
    exact ⟨_, List.mem_singleton_self _, receives⟩

/-- A lone first half fits the split of the payload. -/
theorem fitsParts_firstHalf
    (held : (state.fragments[0]?).map FragmentAssembly.fragments = some [some [1], none]) :
    state.FitsParts 0 [[1], [2]] := by
  intro assembly found
  rw [found, Option.map_some, Option.some_inj] at held
  right
  rw [FragmentAssembly.Holds, held]
  refine ⟨rfl, ?_⟩
  rintro (_ | _ | fragment) payload filled
  · exact Option.some.inj filled
  · cases filled
  · cases filled

/-- The second half is requested as soon as the first has arrived. -/
theorem repair_completes_halves :
    ∃ next, reorderStep repairing .initial (arrival 0 (halfPacket 0 1)) = some next ∧
      CompletesWith repairing 0 [1, 2] next [arrival 1 (halfPacket 1 2)] := by
  have facts : ∃ target, advanceTarget .initial (arrival 0 (halfPacket 0 1)) = some target ∧
      (((recoverFecReady 0 target).fragments[0]?).map FragmentAssembly.fragments =
          some [some [1], none] ∧
        (recoverFecReady 0 target).trace = [.flowStart 0] ∧
        (requestDueRepairs 5 0 (recoverFecReady 0 target)).map ReorderState.trace =
          some [.flowStart 0, .repairRequest ⟨0, 2⟩]) :=
    exists_of_any (by decide +kernel)
  have whole : ∃ final, reorderLoop repairing
      [arrival 0 (halfPacket 0 1), arrival 1 (halfPacket 1 2)] = some final ∧
      final.trace = [.flowStart 0, .repairRequest ⟨0, 2⟩, .accept 0 [1, 2], .forward 0 [1, 2]] :=
    exists_of_any (by decide +kernel)
  rcases facts with ⟨target, called, held, before, sent⟩
  rcases repair_completes repairing rfl
    (show reorderLoop repairing [] = some .initial from rfl) called with
    ⟨requested, requests, next, outcome, trace, stepped, sound⟩
  rw [show (arrival 0 (halfPacket 0 1)).now = 0 from rfl] at outcome trace sound
  rw [outcome, Option.map_some, Option.some_inj, trace, before, List.singleton_append,
    List.cons_inj_right] at sent
  have member : RepairRequest.mk 0 2 ∈ requests := by
    have mapped : Effect.repairRequest ⟨0, 2⟩ ∈ requests.map .repairRequest := by
      rw [sent]
      exact List.mem_singleton_self _
    rcases List.mem_map.mp mapped with ⟨request, member, same⟩
    cases same
    exact member
  rcases halvesCache_answers with ⟨rest, answers⟩
  rcases (sound _ member).2 halvesCache_caches (fitsParts_firstHalf held) answers
    (List.cons_ne_nil _ _) arrive_secondHalf with ⟨final, finished, skipped | completes⟩
  · exfalso
    rcases whole with ⟨last, ran, lastTrace⟩
    have same : final = last := by
      rw [reorderLoop, foldlM_reorderStep_cons stepped] at ran
      exact Option.some.inj (finished.symm.trans ran)
    rcases skipped with ⟨effects, appended, position, reason, member⟩
    rw [same, lastTrace, before, List.singleton_append, List.cons_inj_right] at appended
    rw [← appended] at member
    simp at member
  · exact ⟨next, stepped, completes⟩

end Irohsion.EndToEnd
