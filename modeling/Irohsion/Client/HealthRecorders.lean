import Irohsion.Client.PathStrategy
import Irohsion.Foundation.NewestStamp
import Irohsion.Foundation.OrderedMap
import Irohsion.Foundation.RecencyQueue
import Irohsion.Transport.HealthReport

/-! # The recorders of health reports

Each report is recorded twice: by the strategy, for every interface whose
endpoint it lists, and by the client context, which drops a report that is
older than one before. Reports arrive over several paths, in any order.
-/

namespace Irohsion.Client

open Std Transport Stamped

/-! ## The strategy -/

structure RecordedHealth extends InterfaceHealth Float32 where
  maxSeq : Option Nat

def recordedHealth (report : HealthReport) (endpoint : EndpointHealth) : RecordedHealth where
  lastSeq := endpoint.lastSeq.map UInt64.toNat
  maxSeq := endpoint.maxSeq.map UInt64.toNat
  serverMbps := endpoint.achievedMbps
  lastUnixMs := report.unixMs.toNat

/-- Of the rows of one endpoint the last one counts. -/
def reportedEndpoints (report : HealthReport) : ExtTreeMap Text EndpointHealth :=
  report.endpoints.foldl (fun endpoints endpoint => endpoints.insert endpoint.endpointId endpoint) ∅

def recordInterface (report : HealthReport) (health : ExtTreeMap String RecordedHealth)
    (interface : String) (endpointId : Text) : ExtTreeMap String RecordedHealth :=
  match (reportedEndpoints report)[endpointId]? with
  | some endpoint => health.insert interface (recordedHealth report endpoint)
  | none => health

/-- `StrategyState::record_health_report` on `health_by_interface`. -/
def recordHealthReport (endpointIdsByInterface : ExtTreeMap String Text)
    (healthByInterface : ExtTreeMap String RecordedHealth) (report : HealthReport) :
    ExtTreeMap String RecordedHealth :=
  endpointIdsByInterface.foldl (recordInterface report) healthByInterface

/-- The map after the reports have come in this order. -/
def recordHealthReports (endpointIdsByInterface : ExtTreeMap String Text)
    (reports : List HealthReport) : ExtTreeMap String RecordedHealth :=
  reports.foldl (recordHealthReport endpointIdsByInterface) ∅

/-! ## The client context -/

def maxChatMessages : Nat := 100

structure ClientCtx where
  lastHealthUnixMs : Option UInt64
  chatMessages : List ChatMessage

namespace ClientCtx

def initial : ClientCtx := ⟨none, []⟩

def recordChatMessages (messages stored : List ChatMessage) : List ChatMessage :=
  if messages.isEmpty then stored
  else
    let stored := messages.foldl (fun stored message =>
      if stored.any fun existing => existing.id == message.id then stored
      else stored ++ [message]) stored
    Recency.popWhile (fun stored => decide (maxChatMessages < stored.length)) stored

def recordHealthReport (ctx : ClientCtx) (report : HealthReport) : ClientCtx :=
  if ctx.lastHealthUnixMs.any fun current => decide (report.unixMs < current) then ctx
  else
    { lastHealthUnixMs := some report.unixMs
      chatMessages := recordChatMessages report.chat ctx.chatMessages }

def recordHealthReports (reports : List HealthReport) : ClientCtx :=
  reports.foldl recordHealthReport initial

end ClientCtx

/-! ## The last report of an interface counts -/

def mentions (endpointId : Text) (report : HealthReport) : Bool :=
  report.endpoints.any fun endpoint => decide (endpoint.endpointId = endpointId)

/-- The entry that the report has for the endpoint. -/
def mention (endpointId : Text) (report : HealthReport) : Option RecordedHealth :=
  (report.endpoints.filter fun endpoint => decide (endpoint.endpointId = endpointId)).getLast?.map
    (recordedHealth report)

variable {endpointIds : ExtTreeMap String Text} {interface : String} {endpointId : Text}
variable {report : HealthReport} {reports : List HealthReport} {entry : RecordedHealth}

theorem isSome_mention : (mention endpointId report).isSome = mentions endpointId report := by
  rw [mention, Option.isSome_map, Bool.eq_iff_iff, List.getLast?_isSome, Ne,
    List.filter_eq_nil_iff, mentions, List.any_eq_true]
  simp

theorem lastUnixMs_of_mention (mentioned : mention endpointId report = some entry) :
    entry.lastUnixMs = report.unixMs.toNat := by
  rcases Option.map_eq_some_iff.mp mentioned with ⟨endpoint, -, rfl⟩
  rfl

theorem getElem?_recordHealthReport (known : endpointIds[interface]? = some endpointId)
    (health : ExtTreeMap String RecordedHealth) :
    (recordHealthReport endpointIds health report)[interface]? =
      (mention endpointId report).or health[interface]? := by
  have reported : (reportedEndpoints report)[endpointId]? =
      (report.endpoints.filter fun endpoint =>
        decide (endpoint.endpointId = endpointId)).getLast? := by
    rw [reportedEndpoints, OrderedMap.getElem?_foldl_insert]
    simp
  apply @OrderedMap.getElem?_foldl _ _ _ _ _ _ _ _ _ _ ?_ known ((mention endpointId report).or ·)
  · intro written
    rw [recordInterface, reported, mention]
    cases (report.endpoints.filter _).getLast? with
    | none => rfl
    | some endpoint => exact ExtTreeMap.getElem?_insert_self
  · intro written other endpointId interface different
    rw [recordInterface]
    split
    · exact OrderedMap.getElem?_insert_of_ne different
    · rfl

theorem getElem?_recordHealthReports (known : endpointIds[interface]? = some endpointId)
    (reports : List HealthReport) :
    (recordHealthReports endpointIds reports)[interface]? =
      (reports.filterMap (mention endpointId)).getLast? := by
  induction reports using List.reverseRecOn with
  | nil => rw [recordHealthReports, List.foldl_nil, ExtTreeMap.getElem?_empty]; rfl
  | append_singleton earlier report induction =>
      rw [recordHealthReports] at induction ⊢
      rw [List.foldl_append, List.foldl_cons, List.foldl_nil, getElem?_recordHealthReport known,
        induction, List.filterMap_append, List.getLast?_append]
      congr 1
      cases mentioned : mention endpointId report with
      | none => rw [List.filterMap_cons_none mentioned]; rfl
      | some entry => rw [List.filterMap_cons_some mentioned]; rfl

/-! ## Health and time -/

/-- However many of the reports have come, the entry of the interface is from one
with the greatest time of those that mention its endpoint, and the recorded time
has not gone back. -/
structure KeepsNewest (endpointIds : ExtTreeMap String Text) (interface : String)
    (endpointId : Text) (reports : List HealthReport) : Prop where
  newest : ∀ received, received <+: reports →
    HoldsNewest (fun entry => entry.lastUnixMs) (received.filterMap (mention endpointId))
      (recordHealthReports endpointIds received)[interface]?
  monotone : ∀ received more first second, received <+: more → more <+: reports →
    (recordHealthReports endpointIds received)[interface]? = some first →
    (recordHealthReports endpointIds more)[interface]? = some second →
    first.lastUnixMs ≤ second.lastUnixMs

/-- The reports that mention the endpoint come in the order of their times. -/
def InOrder (endpointId : Text) (reports : List HealthReport) : Prop :=
  (reports.filter (mentions endpointId)).Pairwise fun earlier later =>
    earlier.unixMs ≤ later.unixMs

theorem inOrder_iff : InOrder endpointId reports ↔
    (reports.filterMap (mention endpointId)).Pairwise fun earlier later =>
      earlier.lastUnixMs ≤ later.lastUnixMs := by
  rw [InOrder, List.pairwise_filter, List.pairwise_filterMap]
  constructor
  · intro inOrder
    apply inOrder.imp
    intro earlier later ordered first mentionedFirst second mentionedSecond
    rw [lastUnixMs_of_mention mentionedFirst, lastUnixMs_of_mention mentionedSecond]
    apply UInt64.le_iff_toNat_le.mp
    apply ordered
    · rw [← isSome_mention, mentionedFirst, Option.isSome_some]
    · rw [← isSome_mention, mentionedSecond, Option.isSome_some]
  · intro inOrder
    apply inOrder.imp
    intro earlier later ordered mentionsFirst mentionsSecond
    rw [← isSome_mention, Option.isSome_iff_exists] at mentionsFirst mentionsSecond
    rcases mentionsFirst with ⟨first, mentionedFirst⟩
    rcases mentionsSecond with ⟨second, mentionedSecond⟩
    have atMost := ordered first mentionedFirst second mentionedSecond
    rw [lastUnixMs_of_mention mentionedFirst, lastUnixMs_of_mention mentionedSecond] at atMost
    exact UInt64.le_iff_toNat_le.mpr atMost

/-- The last mention is held, so it has to be a newest one. -/
theorem newest_iff_inOrder (known : endpointIds[interface]? = some endpointId) :
    (∀ received, received <+: reports →
      HoldsNewest (fun entry => entry.lastUnixMs) (received.filterMap (mention endpointId))
        (recordHealthReports endpointIds received)[interface]?) ↔ InOrder endpointId reports := by
  rw [inOrder_iff, ← getLast?_holdsNewest_iff]
  constructor
  · intro newest mentioned isPrefix
    rcases List.prefix_filterMap_iff.mp isPrefix with ⟨received, shorter, rfl⟩
    rw [← getElem?_recordHealthReports known]
    exact newest received shorter
  · intro newest received isPrefix
    rw [getElem?_recordHealthReports known]
    exact newest _ (isPrefix.filterMap (mention endpointId))

/-- The strategy keeps the newest health of an interface exactly when the
reports that mention its endpoint come in the order of their times. -/
theorem recordHealthReports_keepsNewest_iff (known : endpointIds[interface]? = some endpointId) :
    KeepsNewest endpointIds interface endpointId reports ↔ InOrder endpointId reports := by
  rw [← newest_iff_inOrder known]
  constructor
  · intro keeps
    exact keeps.newest
  · intro newest
    refine ⟨newest, ?_⟩
    intro received more first second earlier isPrefix held later
    have before := newest received (earlier.trans isPrefix)
    have after := newest more isPrefix
    rw [held] at before
    rw [later] at after
    exact before.mono after (earlier.filterMap (mention endpointId)).subset

/-- Reports of the one interface, with these times. -/
def reportsAt (times : List UInt64) : List HealthReport :=
  times.map fun unixMs => ⟨unixMs, unixMs, [⟨['x'], 0, none, none⟩], []⟩

def oneInterface : ExtTreeMap String Text := (∅ : ExtTreeMap String Text).insert "a" ['x']

theorem recordHealthReports_keepsNewest_iff_ordered :
    KeepsNewest oneInterface "a" ['x'] (reportsAt [1, 2, 2]) :=
  (recordHealthReports_keepsNewest_iff ExtTreeMap.getElem?_insert_self).mpr (by
    rw [InOrder]
    decide)

/-- The report with the time 1 comes last. The context drops it, and the
strategy has it replace the newer one. -/
theorem recordHealthReports_goes_back :
    ¬ KeepsNewest oneInterface "a" ['x'] (reportsAt [2, 1]) ∧
      ((recordHealthReports oneInterface (reportsAt [2, 1]))["a"]?.map fun entry =>
        entry.lastUnixMs) = some 1 ∧
      (ClientCtx.recordHealthReports (reportsAt [2, 1])).lastHealthUnixMs = some 2 := by
  have known : oneInterface["a"]? = some ['x'] := ExtTreeMap.getElem?_insert_self
  refine ⟨?_, ?_, rfl⟩
  · intro keeps
    have inOrder := (newest_iff_inOrder known).mp keeps.newest
    rw [InOrder] at inOrder
    revert inOrder
    decide
  · rw [getElem?_recordHealthReports known]
    rfl

/-- Two orders of the same reports, with distinct times, then leave the same entry. -/
theorem KeepsNewest.order_irrelevant {others : List HealthReport}
    (first : KeepsNewest endpointIds interface endpointId reports)
    (second : KeepsNewest endpointIds interface endpointId others) (permuted : reports.Perm others)
    (distinct : ∀ one ∈ reports, ∀ two ∈ reports, one.unixMs = two.unixMs → one = two) :
    (recordHealthReports endpointIds reports)[interface]? =
      (recordHealthReports endpointIds others)[interface]? := by
  have before := first.newest reports (List.prefix_refl reports)
  have after := second.newest others (List.prefix_refl others)
  apply before.unique after (permuted.filterMap (mention endpointId))
  intro one listedOne two listedTwo same
  rcases List.mem_filterMap.mp listedOne with ⟨reportOne, memberOne, mentionedOne⟩
  rcases List.mem_filterMap.mp listedTwo with ⟨reportTwo, memberTwo, mentionedTwo⟩
  rw [lastUnixMs_of_mention mentionedOne, lastUnixMs_of_mention mentionedTwo] at same
  have report := distinct reportOne memberOne reportTwo memberTwo (UInt64.toNat_inj.mp same)
  rw [report] at mentionedOne
  exact Option.some.inj (mentionedOne.symm.trans mentionedTwo)

/-! ## The client context keeps the newest -/

namespace ClientCtx

theorem lastHealthUnixMs_recordHealthReport (ctx : ClientCtx) (report : HealthReport) :
    (ctx.recordHealthReport report).lastHealthUnixMs =
      keep UInt64.toNat ctx.lastHealthUnixMs report.unixMs := by
  rw [recordHealthReport, keep]
  simp only [← UInt64.lt_iff_toNat_lt]
  split <;> rfl

/-- In whatever order the reports come, the context knows the greatest time. -/
theorem recordHealthReports_holdsNewest (reports : List HealthReport) :
    HoldsNewest UInt64.toNat (reports.map HealthReport.unixMs)
      (recordHealthReports reports).lastHealthUnixMs := by
  have kept : ∀ ctx : ClientCtx, (reports.foldl recordHealthReport ctx).lastHealthUnixMs =
      (reports.map HealthReport.unixMs).foldl (keep UInt64.toNat) ctx.lastHealthUnixMs := by
    induction reports with
    | nil => exact fun _ => rfl
    | cons report rest induction =>
        intro ctx
        rw [List.foldl_cons, induction, lastHealthUnixMs_recordHealthReport, List.map_cons,
          List.foldl_cons]
  rw [recordHealthReports, kept]
  exact foldl_keep_holdsNewest UInt64.toNat _

/-- Every stored message is kept once, and there are not too many. -/
structure ChatBounded (stored : List ChatMessage) : Prop where
  distinct : (stored.map ChatMessage.id).Nodup
  few : stored.length ≤ maxChatMessages

theorem nodup_addMessage {stored : List ChatMessage}
    (distinct : (stored.map ChatMessage.id).Nodup) (message : ChatMessage) :
    ((if stored.any fun existing => existing.id == message.id then stored
      else stored ++ [message]).map ChatMessage.id).Nodup := by
  split
  · exact distinct
  · rename_i unknown
    rw [List.map_append, List.map_singleton, ← List.concat_eq_append]
    apply List.Nodup.concat _ distinct
    intro again
    apply unknown
    rcases List.mem_map.mp again with ⟨existing, member, same⟩
    exact List.any_eq_true.mpr ⟨existing, member, beq_iff_eq.mpr same⟩

theorem ChatBounded.recordChatMessages {stored : List ChatMessage} (bounded : ChatBounded stored)
    (messages : List ChatMessage) : ChatBounded (recordChatMessages messages stored) := by
  rw [ClientCtx.recordChatMessages]
  split
  · exact bounded
  · rw [Recency.popWhile_beyond, List.rtake]
    constructor
    · apply List.Nodup.sublist ((List.drop_sublist _ _).map ChatMessage.id)
      exact @List.foldlRecOn _ _ (fun stored : List ChatMessage =>
        (stored.map ChatMessage.id).Nodup) messages _ _ bounded.distinct
        fun _ distinct message _ => nodup_addMessage distinct message
    · rw [List.length_drop]
      omega

theorem recordHealthReports_chatBounded (reports : List HealthReport) :
    ChatBounded (recordHealthReports reports).chatMessages := by
  apply @List.foldlRecOn _ _ (fun ctx : ClientCtx => ChatBounded ctx.chatMessages) reports
  · exact ⟨List.nodup_nil, Nat.zero_le _⟩
  · intro ctx bounded report _
    rw [recordHealthReport]
    split
    · exact bounded
    · exact bounded.recordChatMessages report.chat

end ClientCtx

end Irohsion.Client
