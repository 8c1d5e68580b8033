import Irohsion.Foundation.GrowingLogs
import Irohsion.Foundation.RecencyQueue
import Irohsion.Server.Registries
import Irohsion.Transport.HealthReport

/-! # Health reports

The tasks of the chat sources push into their logs and the tasks of the
connections count what they receive. `health_loop` drains the counts into a
report, to which it adds the newest chat messages.
-/

namespace Irohsion.Server

open Std Transport GrowingLog

/-! ## Chat logs -/

/-- `TwitchChat` and `KickChat`. -/
structure ChatLog where
  messages : List ChatMessage
  nextId : UInt64
  maxMessages : Nat

def ChatLog.new (maxMessages : Nat) : ChatLog := ⟨[], 1, maxMessages⟩

def ChatLog.push (log : ChatLog) (unixMs : UInt64) (user text : Text) : ChatLog :=
  { log with
    nextId := log.nextId + 1
    messages := Recency.popWhile (fun messages => decide (log.maxMessages < messages.length))
      (log.messages ++ [{ id := log.nextId, unixMs, user, text }]) }

inductive ChatSource
  | twitch
  | kick
  deriving DecidableEq, Repr

/-- The id that a message of the source has in a report. -/
def ChatSource.reportId : ChatSource → UInt64 → UInt64
  | .twitch, id => id <<< 1
  | .kick, id => id <<< 1 ||| 1

def ChatSource.reported (source : ChatSource) (message : ChatMessage) : ChatMessage :=
  { message with id := source.reportId message.id }

structure ChatSources where
  twitch : Option ChatLog
  kick : Option ChatLog

namespace ChatSources

def log (sources : ChatSources) : ChatSource → Option ChatLog
  | .twitch => sources.twitch
  | .kick => sources.kick

def push (sources : ChatSources) (source : ChatSource) (unixMs : UInt64) (user text : Text) :
    ChatSources :=
  match source with
  | .twitch => { sources with twitch := sources.twitch.map (·.push unixMs user text) }
  | .kick => { sources with kick := sources.kick.map (·.push unixMs user text) }

/-- What `recent_chat_messages` takes from the log of one source. -/
def recentMessages (sources : ChatSources) (source : ChatSource) : List ChatMessage :=
  match sources.log source with
  | none => []
  | some log => log.messages.map source.reported

end ChatSources

/-- The order by `(unix_ms, id)`. -/
def NotAfter (one two : ChatMessage) : Prop :=
  one.unixMs < two.unixMs ∨ one.unixMs = two.unixMs ∧ one.id ≤ two.id

instance decidableNotAfter : DecidableRel NotAfter :=
  fun one two => inferInstanceAs (Decidable (one.unixMs < two.unixMs ∨ _ ∧ _))

def maxChatMessagesPerHealthReport : Nat := 3

def recentChatMessages (twitch kick : List ChatMessage) : List ChatMessage :=
  let messages := (twitch ++ kick).insertionSort NotAfter
  if maxChatMessagesPerHealthReport < messages.length then
    messages.drop (messages.length - maxChatMessagesPerHealthReport)
  else messages

/-! ## Samples -/

structure EndpointSample where
  bytes : UInt64
  lastSeq : Option UInt64
  maxSeq : Option UInt64
  deriving DecidableEq, Repr

abbrev HealthStats := ExtTreeMap String EndpointSample

def saturatingAdd (left right : UInt64) : UInt64 :=
  UInt64.ofNat (min (left.toNat + right.toNat) (UInt64.size - 1))

namespace EndpointSample

def default : EndpointSample := ⟨0, none, none⟩

def add (sample : EndpointSample) (bytes seq : UInt64) : EndpointSample where
  bytes := saturatingAdd sample.bytes bytes
  lastSeq := some seq
  maxSeq := some (sample.maxSeq.elim seq fun current => max current seq)

end EndpointSample

def recordHealthSample (healthStats : HealthStats) (remote : String) (bytes seq : UInt64) :
    HealthStats :=
  healthStats.insert remote ((healthStats[remote]?.getD .default).add bytes seq)

def achievedMbps (bytes : UInt64) (intervalSecs : Float32) : Float32 :=
  bytes.toFloat32 * 8.0 / (if intervalSecs < 0.001 then 0.001 else intervalSecs) / 1000000.0

/-- One round of the loop of `build_health_report`. -/
def drainSample (intervalSecs : Float32) (drained : HealthStats × List EndpointHealth)
    (endpointId : String) : HealthStats × List EndpointHealth :=
  let sample := drained.1[endpointId]?.getD .default
  (drained.1.erase endpointId, drained.2 ++
    [{ endpointId := endpointId.toList
       achievedMbps := Server.achievedMbps sample.bytes intervalSecs
       lastSeq := sample.lastSeq
       maxSeq := sample.maxSeq }])

def drainSamples (intervalSecs : Float32) (healthStats : HealthStats)
    (endpointIds : List String) : List EndpointHealth :=
  (endpointIds.foldl (drainSample intervalSecs) (healthStats, [])).2

/-! ## The tasks -/

/-- A packet that `record_health_sample` has counted. -/
structure CountedPacket where
  remote : String
  bytes : UInt64
  seq : UInt64
  deriving DecidableEq, Repr

/-- A report in `build_health_report` after the log of Twitch has been read, with
the packets that were counted for it and the number of messages before. -/
structure HealthDraft where
  endpoints : List EndpointHealth
  unixMs : UInt64
  twitch : List ChatMessage
  counted : List CountedPacket
  endpointIds : List String
  known : Nat

/-- A report that was handed to the connections, with its draft and the number
of messages that were pushed before the log of Kick was read. -/
structure SentReport extends HealthDraft where
  report : HealthReport
  knownLast : Nat

/-- `chat_sources`, `health_stats`, the state of `health_loop` and what has
happened: the reports, the messages that were pushed as a report names them, and
the packets that were counted since the last drain. -/
structure HealthServer where
  chatSources : ChatSources
  healthStats : HealthStats
  seq : UInt64
  draft : Option HealthDraft
  sent : List SentReport
  pushed : List (ChatSource × ChatMessage)
  counted : List CountedPacket

inductive HealthEvent
  | push (source : ChatSource) (unixMs : UInt64) (user text : Text)
  | count (packet : CountedPacket)
  /-- The loop wakes up and begins a report. -/
  | tick (healthConnections : HealthConnections) (unixMs : UInt64)
  /-- The report is completed and handed to the connections. -/
  | send

namespace HealthServer

def initial (chatSources : ChatSources) : HealthServer where
  chatSources := chatSources
  healthStats := ∅
  seq := 0
  draft := none
  sent := []
  pushed := []
  counted := []

def push (source : ChatSource) (unixMs : UInt64) (user text : Text) (server : HealthServer) :
    HealthServer :=
  match server.chatSources.log source with
  | none => server
  | some log =>
      { server with
        chatSources := server.chatSources.push source unixMs user text
        pushed := server.pushed ++
          [(source, source.reported { id := log.nextId, unixMs, user, text })] }

def count (packet : CountedPacket) (server : HealthServer) : HealthServer :=
  { server with
    healthStats := recordHealthSample server.healthStats packet.remote packet.bytes packet.seq
    counted := server.counted ++ [packet] }

def tick (intervalSecs : Float32) (healthConnections : HealthConnections) (unixMs : UInt64)
    (server : HealthServer) : HealthServer :=
  if server.draft.isSome ∨ healthConnections.isEmpty then server
  else
    { server with
      healthStats := ∅
      counted := []
      draft := some
        { endpoints := drainSamples intervalSecs server.healthStats healthConnections.keys
          unixMs := unixMs
          twitch := server.chatSources.recentMessages .twitch
          counted := server.counted
          endpointIds := healthConnections.keys
          known := server.pushed.length } }

def send (server : HealthServer) : HealthServer :=
  match server.draft with
  | none => server
  | some draft =>
      { server with
        seq := server.seq + 1
        draft := none
        sent := server.sent ++
          [{ draft with
             report :=
               { seq := server.seq
                 unixMs := draft.unixMs
                 endpoints := draft.endpoints
                 chat := recentChatMessages draft.twitch
                  (server.chatSources.recentMessages .kick) }
             knownLast := server.pushed.length }] }

def step (intervalSecs : Float32) (server : HealthServer) : HealthEvent → HealthServer
  | .push source unixMs user text => server.push source unixMs user text
  | .count packet => server.count packet
  | .tick healthConnections unixMs => server.tick intervalSecs healthConnections unixMs
  | .send => server.send

def run (intervalSecs : Float32) (server : HealthServer) (events : List HealthEvent) :
    HealthServer :=
  events.foldl (step intervalSecs) server

end HealthServer

/-! ## What the samples count -/

section Samples

variable {counted packets : List CountedPacket} {intervalSecs : Float32}

def EndpointSample.count (sample : EndpointSample) (packet : CountedPacket) : EndpointSample :=
  sample.add packet.bytes packet.seq

def countAll (counted : List CountedPacket) : HealthStats :=
  counted.foldl (fun healthStats packet =>
    recordHealthSample healthStats packet.remote packet.bytes packet.seq) ∅

def packetsOf (counted : List CountedPacket) (endpointId : String) : List CountedPacket :=
  counted.filter fun packet => decide (packet.remote = endpointId)

theorem getElem?_countAll (counted : List CountedPacket) (endpointId : String) :
    (countAll counted)[endpointId]?.getD .default =
      (packetsOf counted endpointId).foldl EndpointSample.count .default := by
  induction counted using List.reverseRecOn with
  | nil => rw [countAll, List.foldl_nil, ExtTreeMap.getElem?_empty]; rfl
  | append_singleton earlier packet induction =>
      rw [countAll] at induction ⊢
      rw [packetsOf] at induction ⊢
      rw [List.foldl_append, List.foldl_cons, List.foldl_nil, List.filter_append,
        List.foldl_append, ← induction, recordHealthSample]
      by_cases same : packet.remote = endpointId
      · subst same
        rw [ExtTreeMap.getElem?_insert_self, List.filter_cons_of_pos (by simp)]
        rfl
      · rw [OrderedMap.getElem?_insert_of_ne same, List.filter_cons_of_neg (by simp [same])]
        rfl

theorem drainSamples_eq (healthStats : HealthStats) {endpointIds : List String}
    (distinct : endpointIds.Nodup) :
    drainSamples intervalSecs healthStats endpointIds = endpointIds.map fun endpointId =>
      let sample := healthStats[endpointId]?.getD .default
      { endpointId := endpointId.toList
        achievedMbps := achievedMbps sample.bytes intervalSecs
        lastSeq := sample.lastSeq
        maxSeq := sample.maxSeq } := by
  have drained : ∀ earlier : List EndpointHealth,
      (endpointIds.foldl (drainSample intervalSecs) (healthStats, earlier)).2 =
        earlier ++ endpointIds.map fun endpointId =>
          let sample := healthStats[endpointId]?.getD .default
          { endpointId := endpointId.toList
            achievedMbps := achievedMbps sample.bytes intervalSecs
            lastSeq := sample.lastSeq
            maxSeq := sample.maxSeq } := by
    induction endpointIds generalizing healthStats with
    | nil => exact fun earlier => (List.append_nil earlier).symm
    | cons endpointId rest induction =>
        intro earlier
        rw [List.nodup_cons] at distinct
        rw [List.foldl_cons, drainSample, induction _ distinct.2, List.append_assoc,
          List.singleton_append, List.map_cons]
        congr 2
        apply List.map_congr_left
        intro other member
        have different : endpointId ≠ other := fun same => distinct.1 (same ▸ member)
        have kept : (healthStats.erase endpointId)[other]? = healthStats[other]? := by
          rw [ExtTreeMap.getElem?_erase]
          simp [different]
        rw [kept]
  exact drained []

/-- The entry tells of exactly these packets: their bytes, up to the greatest
count, the last and the greatest sequence. -/
structure TellsOf (intervalSecs : Float32) (packets : List CountedPacket)
    (endpoint : EndpointHealth) : Prop where
  rate : endpoint.achievedMbps = achievedMbps (UInt64.ofNat
    (min (packets.map fun packet => packet.bytes.toNat).sum (UInt64.size - 1))) intervalSecs
  last : endpoint.lastSeq = packets.getLast?.map CountedPacket.seq
  max : endpoint.maxSeq = (packets.map CountedPacket.seq).max?

theorem toNat_saturated (count : Nat) :
    (UInt64.ofNat (min count (UInt64.size - 1))).toNat = min count (UInt64.size - 1) := by
  apply UInt64.toNat_ofNat_of_lt'
  exact (Nat.min_le_right _ _).trans_lt (by decide)

theorem bytes_foldl_count (packets : List CountedPacket) :
    (packets.foldl EndpointSample.count .default).bytes = UInt64.ofNat
      (min (packets.map fun packet => packet.bytes.toNat).sum (UInt64.size - 1)) := by
  induction packets using List.reverseRecOn with
  | nil => rfl
  | append_singleton earlier packet induction =>
      have capped : ∀ count more limit : Nat,
          min (min count limit + more) limit = min (count + more) limit := by
        intro count more limit
        omega
      rw [List.foldl_append, List.foldl_cons, List.foldl_nil, EndpointSample.count,
        EndpointSample.add, induction, saturatingAdd, toNat_saturated, capped, List.map_append,
        List.sum_append, List.map_singleton, List.sum_singleton]

theorem lastSeq_foldl_count (packets : List CountedPacket) :
    (packets.foldl EndpointSample.count .default).lastSeq =
      packets.getLast?.map CountedPacket.seq := by
  induction packets using List.reverseRecOn with
  | nil => rfl
  | append_singleton earlier packet _ =>
      rw [List.foldl_append, List.getLast?_concat]
      rfl

theorem maxSeq_foldl_count_of_some (packets : List CountedPacket) {sample : EndpointSample}
    {current : UInt64} (known : sample.maxSeq = some current) :
    (packets.foldl EndpointSample.count sample).maxSeq =
      some ((packets.map CountedPacket.seq).foldl max current) := by
  induction packets generalizing sample current with
  | nil => exact known
  | cons packet rest induction =>
      apply induction
      rw [EndpointSample.count, EndpointSample.add, known]
      rfl

theorem maxSeq_foldl_count (packets : List CountedPacket) :
    (packets.foldl EndpointSample.count .default).maxSeq =
      (packets.map CountedPacket.seq).max? := by
  cases packets with
  | nil => rfl
  | cons packet rest => exact maxSeq_foldl_count_of_some rest rfl

/-- Each entry tells of the packets of its endpoint. -/
theorem drainSamples_countAll (counted : List CountedPacket) {endpointIds : List String}
    (distinct : endpointIds.Nodup) :
    List.Forall₂ (fun endpointId endpoint => endpoint.endpointId = endpointId.toList ∧
        TellsOf intervalSecs (packetsOf counted endpointId) endpoint)
      endpointIds (drainSamples intervalSecs (countAll counted) endpointIds) := by
  rw [drainSamples_eq _ distinct, List.forall₂_map_right_iff, List.forall₂_same]
  intro endpointId _
  dsimp only
  rw [getElem?_countAll]
  refine ⟨rfl, ?_, lastSeq_foldl_count _, maxSeq_foldl_count _⟩
  rw [bytes_foldl_count]

theorem TellsOf.maxWithLast {endpoint : EndpointHealth}
    (tells : TellsOf intervalSecs packets endpoint) :
    endpoint.maxSeq = none → endpoint.lastSeq = none := by
  rw [tells.max, tells.last, List.max?_eq_none_iff, List.map_eq_nil_iff]
  rintro rfl
  rfl

end Samples

/-! ## Every packet counts for one report -/

section Counts

variable {intervalSecs : Float32} {server : HealthServer} {draft : HealthDraft}

def HealthEvent.counted : HealthEvent → Option CountedPacket
  | .count packet => some packet
  | .push .. | .tick .. | .send => none

/-- The entries of the draft are those of its endpoints, each told of the packets
that were counted for it. -/
structure Drained (intervalSecs : Float32) (draft : HealthDraft) : Prop where
  distinct : draft.endpointIds.Nodup
  entries : List.Forall₂ (fun endpointId endpoint => endpoint.endpointId = endpointId.toList ∧
      TellsOf intervalSecs (packetsOf draft.counted endpointId) endpoint)
    draft.endpointIds draft.endpoints

/-- The packets of the drafts and those that are still counted are all packets so
far, and the reports are numbered. A draft also clears the packets of endpoints
without a health connection at its tick, and has no entry for them. -/
structure Accounts (intervalSecs : Float32) (server : HealthServer)
    (packets : List CountedPacket) : Prop where
  stats : server.healthStats = countAll server.counted
  all : server.sent.flatMap (fun sent => sent.counted) ++
    server.draft.elim [] HealthDraft.counted ++ server.counted = packets
  draft : ∀ draft, server.draft = some draft → Drained intervalSecs draft
  sent : ∀ sent ∈ server.sent, Drained intervalSecs sent.toHealthDraft ∧
    sent.report.endpoints = sent.endpoints ∧ sent.report.unixMs = sent.unixMs
  seq : server.seq = UInt64.ofNat server.sent.length
  numbered : server.sent.map (fun sent => sent.report.seq) =
    (List.range server.sent.length).map UInt64.ofNat

theorem Accounts.initial (intervalSecs : Float32) (chatSources : ChatSources) :
    Accounts intervalSecs (.initial chatSources) [] where
  stats := rfl
  all := rfl
  draft := by
    intro draft impossible
    cases impossible
  sent := fun _ member => absurd member List.not_mem_nil
  seq := rfl
  numbered := rfl

variable {packets : List CountedPacket}

theorem Accounts.push (accounts : Accounts intervalSecs server packets) (source : ChatSource)
    (unixMs : UInt64) (user text : Text) :
    Accounts intervalSecs (server.push source unixMs user text) packets := by
  rw [HealthServer.push]
  split
  · exact accounts
  · exact ⟨accounts.stats, accounts.all, accounts.draft, accounts.sent, accounts.seq,
      accounts.numbered⟩

theorem Accounts.count (accounts : Accounts intervalSecs server packets)
    (packet : CountedPacket) :
    Accounts intervalSecs (server.count packet) (packets ++ [packet]) where
  stats := by
    rw [HealthServer.count, accounts.stats, countAll, countAll, List.foldl_append]
    rfl
  all := by
    rw [HealthServer.count, ← List.append_assoc]
    exact congrArg (· ++ [packet]) accounts.all
  draft := accounts.draft
  sent := accounts.sent
  seq := accounts.seq
  numbered := accounts.numbered

theorem Accounts.tick (accounts : Accounts intervalSecs server packets)
    (healthConnections : HealthConnections) (unixMs : UInt64) :
    Accounts intervalSecs (server.tick intervalSecs healthConnections unixMs) packets := by
  rw [HealthServer.tick]
  split
  · exact accounts
  · rename_i begins
    have idle : server.draft = none := by
      rw [← Option.not_isSome_iff_eq_none]
      exact fun busy => begins (Or.inl busy)
    have all := accounts.all
    rw [idle, Option.elim_none, List.append_nil] at all
    refine ⟨rfl, ?_, ?_, accounts.sent, accounts.seq, accounts.numbered⟩
    · rw [Option.elim_some, List.append_nil]
      exact all
    · rintro _ ⟨rfl⟩
      have distinct : healthConnections.keys.Nodup := ExtTreeMap.nodup_keys
      refine ⟨distinct, ?_⟩
      dsimp only
      rw [accounts.stats]
      exact drainSamples_countAll server.counted distinct

theorem Accounts.send (accounts : Accounts intervalSecs server packets) :
    Accounts intervalSecs server.send packets := by
  rw [HealthServer.send]
  split
  · exact accounts
  · rename_i draft busy
    have all := accounts.all
    rw [busy, Option.elim_some] at all
    refine ⟨accounts.stats, ?_, ?_, ?_, ?_, ?_⟩
    · rw [Option.elim_none, List.append_nil, List.flatMap_append, List.flatMap_singleton]
      exact all
    · intro draft impossible
      cases impossible
    · intro sent member
      rcases List.mem_append.mp member with earlier | last
      · exact accounts.sent sent earlier
      · rw [List.mem_singleton.mp last]
        exact ⟨accounts.draft draft busy, rfl, rfl⟩
    · dsimp only
      rw [accounts.seq, List.length_append, List.length_singleton, UInt64.ofNat_add]
      rfl
    · dsimp only
      rw [List.map_append, List.map_singleton, accounts.numbered, List.length_append,
        List.length_singleton, List.range_succ, List.map_append, List.map_singleton, accounts.seq]

theorem Accounts.step (accounts : Accounts intervalSecs server packets) (event : HealthEvent) :
    Accounts intervalSecs (server.step intervalSecs event) (packets ++ event.counted.toList) := by
  cases event with
  | push source unixMs user text =>
      rw [HealthEvent.counted, Option.toList_none, List.append_nil]
      exact accounts.push source unixMs user text
  | count packet => exact accounts.count packet
  | tick healthConnections unixMs =>
      rw [HealthEvent.counted, Option.toList_none, List.append_nil]
      exact accounts.tick healthConnections unixMs
  | send =>
      rw [HealthEvent.counted, Option.toList_none, List.append_nil]
      exact accounts.send

theorem healthReports_account (intervalSecs : Float32) (chatSources : ChatSources)
    (events : List HealthEvent) :
    Accounts intervalSecs ((HealthServer.initial chatSources).run intervalSecs events)
      (events.filterMap HealthEvent.counted) := by
  induction events using List.reverseRecOn with
  | nil => exact Accounts.initial intervalSecs chatSources
  | append_singleton events event induction =>
      rw [HealthServer.run] at induction ⊢
      rw [List.foldl_append, List.filterMap_append]
      have added : [event].filterMap HealthEvent.counted = event.counted.toList := by
        cases event <;> rfl
      rw [added]
      exact induction.step event

end Counts

end Irohsion.Server
