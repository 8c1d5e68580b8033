import Irohsion.Server.HealthReports
import Mathlib.Data.List.Pairwise
import Mathlib.Data.List.Range
import Mathlib.Order.RelClasses

/-! # Chat messages in health reports

The two logs are read one after the other and a report has the newest messages
of both. When nothing is pushed in between, that is the end of what has been
pushed, whichever log it went to.
-/

namespace Irohsion.Server

open Transport GrowingLog

/-! ## The order of the messages -/

instance total_notAfter : Std.Total NotAfter where
  total one two := by
    rw [NotAfter, NotAfter]
    rcases Nat.lt_trichotomy one.unixMs.toNat two.unixMs.toNat with earlier | same | later
    · exact Or.inl (Or.inl earlier)
    · rw [UInt64.toNat_inj] at same
      rcases UInt64.le_total one.id two.id with atMost | atLeast
      · exact Or.inl (Or.inr ⟨same, atMost⟩)
      · exact Or.inr (Or.inr ⟨same.symm, atLeast⟩)
    · exact Or.inr (Or.inl later)

instance trans_notAfter : IsTrans ChatMessage NotAfter where
  trans one two three := by
    rintro (first | ⟨first, idFirst⟩) (second | ⟨second, idSecond⟩)
    · exact Or.inl (UInt64.lt_trans first second)
    · exact Or.inl (second ▸ first)
    · exact Or.inl (first ▸ second)
    · exact Or.inr ⟨first.trans second, UInt64.le_trans idFirst idSecond⟩

/-- Every message is pushed after those with a smaller time and id. -/
def PushedInOrder (pushed : List (ChatSource × ChatMessage)) : Prop :=
  (pushed.map Prod.snd).Pairwise fun earlier later => ¬ NotAfter later earlier

theorem PushedInOrder.of_prefix {earlier pushed : List (ChatSource × ChatMessage)}
    (inOrder : PushedInOrder pushed) (isPrefix : earlier <+: pushed) : PushedInOrder earlier :=
  List.Pairwise.sublist (isPrefix.sublist.map Prod.snd) inOrder

/-! ## The logs -/

section Logs

variable {least : Nat} {pushed : List (ChatSource × ChatMessage)} {source : ChatSource}

def messagesOf (source : ChatSource) (pushed : List (ChatSource × ChatMessage)) :
    List ChatMessage :=
  (pushed.filter fun entry => decide (entry.1 = source)).map Prod.snd

theorem messagesOf_push (source other : ChatSource) (message : ChatMessage) :
    messagesOf source (pushed ++ [(other, message)]) =
      messagesOf source pushed ++ (if other = source then [message] else []) := by
  rw [messagesOf, List.filter_append, List.map_append, ← messagesOf]
  congr 1
  by_cases same : other = source
  · simp [same]
  · simp [same]

theorem messagesOf_subset (source : ChatSource) (pushed : List (ChatSource × ChatMessage)) :
    messagesOf source pushed ⊆ pushed.map Prod.snd :=
  (List.filter_sublist.map Prod.snd).subset

/-- At least so many of the newest messages of the source. -/
def Shows (least : Nat) (source : ChatSource) (pushed : List (ChatSource × ChatMessage))
    (messages : List ChatMessage) : Prop :=
  ∃ limit, least ≤ limit ∧ messages = (messagesOf source pushed).rtake limit

/-- The log has the newest messages of its source, under the next ids. -/
structure LogFollows (least : Nat) (sources : ChatSources)
    (pushed : List (ChatSource × ChatMessage)) (source : ChatSource) : Prop where
  absent : sources.log source = none → messagesOf source pushed = []
  enough : ∀ log, sources.log source = some log → least ≤ log.maxMessages
  kept : ∀ log, sources.log source = some log →
    log.messages.map source.reported = (messagesOf source pushed).rtake log.maxMessages
  nextId : ∀ log, sources.log source = some log →
    log.nextId = UInt64.ofNat ((messagesOf source pushed).length + 1)
  ids : (messagesOf source pushed).map ChatMessage.id =
    (List.range (messagesOf source pushed).length).map fun index =>
      source.reportId (UInt64.ofNat (index + 1))

theorem LogFollows.shows {sources : ChatSources}
    (follows : LogFollows least sources pushed source) :
    Shows least source pushed (sources.recentMessages source) := by
  rw [ChatSources.recentMessages]
  cases known : sources.log source with
  | none =>
      refine ⟨least, Nat.le_refl least, ?_⟩
      rw [follows.absent known, List.rtake_nil]
  | some log => exact ⟨log.maxMessages, follows.enough log known, follows.kept log known⟩

theorem log_push (sources : ChatSources) (source other : ChatSource) (unixMs : UInt64)
    (user text : Text) :
    (sources.push source unixMs user text).log other =
      if source = other then (sources.log other).map (·.push unixMs user text)
      else sources.log other := by
  cases source <;> cases other <;> rfl

/-- What a push adds to a log, under the id of its reports. -/
theorem reported_push {log : ChatLog} {messages : List ChatMessage}
    (kept : log.messages.map source.reported = messages.rtake log.maxMessages) (unixMs : UInt64)
    (user text : Text) :
    (log.push unixMs user text).messages.map source.reported =
      (messages ++ [source.reported { id := log.nextId, unixMs, user, text }]).rtake
        log.maxMessages := by
  rw [ChatLog.push, Recency.popWhile_beyond, List.rtake, List.map_drop, ← List.length_map,
    List.map_append, kept, List.map_singleton, ← List.rtake, rtake_append, rtake_append,
    rtake_rtake (Nat.sub_le _ _)]

theorem LogFollows.push {sources : ChatSources} {other : ChatSource} {log : ChatLog}
    (follows : LogFollows least sources pushed source) (known : sources.log other = some log)
    (unixMs : UInt64) (user text : Text) :
    LogFollows least (sources.push other unixMs user text)
      (pushed ++ [(other, other.reported { id := log.nextId, unixMs, user, text })]) source := by
  by_cases same : other = source
  · subst same
    have added := follows.nextId log known
    have after : (sources.push other unixMs user text).log other =
        some (log.push unixMs user text) := by
      rw [log_push, if_pos rfl, known, Option.map_some]
    refine ⟨?_, ?_, ?_, ?_, ?_⟩
    · intro impossible
      rw [after] at impossible
      cases impossible
    · intro next isNext
      cases after.symm.trans isNext
      exact follows.enough log known
    · intro next isNext
      cases after.symm.trans isNext
      rw [messagesOf_push, if_pos rfl]
      exact reported_push (follows.kept log known) unixMs user text
    · intro next isNext
      cases after.symm.trans isNext
      have next : (log.push unixMs user text).nextId = log.nextId + 1 := rfl
      rw [messagesOf_push, if_pos rfl, List.length_append, List.length_singleton, next, added]
      exact (UInt64.ofNat_add _ 1).symm
    · rw [messagesOf_push, if_pos rfl, List.map_append, follows.ids, List.length_append,
        List.length_singleton, List.range_succ, List.map_append, List.map_singleton,
        List.map_singleton, ChatSource.reported, added]
  · have unchanged : (sources.push other unixMs user text).log source = sources.log source := by
      rw [log_push, if_neg same]
    have others : messagesOf source
        (pushed ++ [(other, other.reported { id := log.nextId, unixMs, user, text })]) =
        messagesOf source pushed := by
      rw [messagesOf_push, if_neg same, List.append_nil]
    refine ⟨?_, ?_, ?_, ?_, ?_⟩
    · rw [unchanged, others]
      exact follows.absent
    · rw [unchanged]
      exact follows.enough
    · rw [unchanged, others]
      exact follows.kept
    · rw [unchanged, others]
      exact follows.nextId
    · rw [others]
      exact follows.ids

end Logs

/-! ## What a report shows -/

section Reports

variable {least : Nat} {pushed : List (ChatSource × ChatMessage)}

theorem recentChatMessages_eq (twitch kick : List ChatMessage) :
    recentChatMessages twitch kick =
      ((twitch ++ kick).insertionSort NotAfter).rtake maxChatMessagesPerHealthReport := by
  rw [recentChatMessages]
  split
  · rfl
  · rename_i few
    exact (rtake_of_length_le (Nat.le_of_not_lt few)).symm

/-- No two messages that were pushed in order have each other's place. -/
theorem PushedInOrder.antisymm (inOrder : PushedInOrder pushed) :
    ∀ one ∈ pushed, ∀ two ∈ pushed, NotAfter one.2 two.2 → NotAfter two.2 one.2 → one = two := by
  rw [PushedInOrder, List.pairwise_map] at inOrder
  have apart : pushed.Pairwise fun one two =>
      NotAfter one.2 two.2 → NotAfter two.2 one.2 → one = two :=
    inOrder.imp fun strict _ back => absurd back strict
  have symmetric : Std.Symm fun one two : ChatSource × ChatMessage =>
      NotAfter one.2 two.2 → NotAfter two.2 one.2 → one = two :=
    ⟨fun one two unique first second => (unique second first).symm⟩
  intro one isOne two isTwo
  exact apart.forall_of_forall (fun _ _ _ _ => rfl) isOne isTwo

/-- The newest messages of both logs are the end of what was pushed. -/
theorem recentChatMessages_of_shows (enough : maxChatMessagesPerHealthReport ≤ least)
    (inOrder : PushedInOrder pushed) {twitch kick : List ChatMessage}
    (showsTwitch : Shows least .twitch pushed twitch) (showsKick : Shows least .kick pushed kick) :
    recentChatMessages twitch kick =
      (pushed.map Prod.snd).rtake maxChatMessagesPerHealthReport := by
  rcases showsTwitch with ⟨first, firstKeeps, rfl⟩
  rcases showsKick with ⟨second, secondKeeps, rfl⟩
  let before := fun one two : ChatSource × ChatMessage => NotAfter one.2 two.2
  have rtake_map : ∀ (entries : List (ChatSource × ChatMessage)) (limit : Nat),
      (entries.map Prod.snd).rtake limit = (entries.rtake limit).map Prod.snd := by
    intro entries limit
    rw [List.rtake, List.rtake, List.map_drop, List.length_map]
  have total : Std.Total before := ⟨fun one two => total_notAfter.total one.2 two.2⟩
  have trans : IsTrans (ChatSource × ChatMessage) before :=
    ⟨fun one two three => trans_notAfter.trans one.2 two.2 three.2⟩
  have sorted : pushed.Pairwise before := by
    rw [PushedInOrder, List.pairwise_map] at inOrder
    exact inOrder.imp fun strict => (total_notAfter.total _ _).resolve_right strict
  have others : (pushed.filter fun entry => decide (entry.1 = .kick)) =
      pushed.filter fun entry => !decide (entry.1 = .twitch) := by
    apply List.filter_congr
    rintro ⟨source, message⟩ _
    cases source <;> rfl
  have merged := @rtake_insertionSort_split _ before _ total trans pushed
    (fun entry => decide (entry.1 = .twitch)) maxChatMessagesPerHealthReport first second sorted
    inOrder.antisymm (enough.trans firstKeeps) (enough.trans secondKeeps)
  rw [recentChatMessages_eq, messagesOf, messagesOf, others, rtake_map, rtake_map,
    ← List.map_append, ← List.map_insertionSort before NotAfter Prod.snd, rtake_map, rtake_map,
    merged]
  exact fun _ _ _ _ => Iff.rfl

theorem recentChatMessages_subset (twitch kick : List ChatMessage) :
    recentChatMessages twitch kick ⊆ twitch ++ kick := by
  intro message member
  rw [recentChatMessages_eq] at member
  exact (List.perm_insertionSort NotAfter _).subset ((rtake_suffix _ _).subset member)

theorem Shows.subset {source : ChatSource} {messages : List ChatMessage}
    (shown : Shows least source pushed messages) : messages ⊆ pushed.map Prod.snd := by
  rcases shown with ⟨limit, _, rfl⟩
  intro message member
  exact messagesOf_subset source pushed ((rtake_suffix _ _).subset member)

end Reports

/-! ## Runs of the server -/

section Runs

variable {least : Nat} {server : HealthServer} {intervalSecs : Float32}
variable {pushed more : List (ChatSource × ChatMessage)}

/-- The draft has the messages of Twitch that were there when it was begun. -/
structure DraftShows (least : Nat) (pushed : List (ChatSource × ChatMessage))
    (draft : HealthDraft) : Prop where
  known : draft.known ≤ pushed.length
  twitch : Shows least .twitch (pushed.take draft.known) draft.twitch

/-- The report has the newest of these and of the messages of Kick that were
there when it was completed. -/
structure SentShows (least : Nat) (pushed : List (ChatSource × ChatMessage))
    (sent : SentReport) : Prop where
  known : sent.known ≤ sent.knownLast
  knownLast : sent.knownLast ≤ pushed.length
  chat : ∃ twitch kick, Shows least .twitch (pushed.take sent.known) twitch ∧
    Shows least .kick (pushed.take sent.knownLast) kick ∧
    sent.report.chat = recentChatMessages twitch kick

theorem DraftShows.append {draft : HealthDraft} (shown : DraftShows least pushed draft) :
    DraftShows least (pushed ++ more) draft where
  known := by
    rw [List.length_append]
    exact shown.known.trans (Nat.le_add_right _ _)
  twitch := by
    rw [List.take_append_of_le_length shown.known]
    exact shown.twitch

theorem SentShows.append {sent : SentReport} (shown : SentShows least pushed sent) :
    SentShows least (pushed ++ more) sent where
  known := shown.known
  knownLast := by
    rw [List.length_append]
    exact shown.knownLast.trans (Nat.le_add_right _ _)
  chat := by
    rw [List.take_append_of_le_length shown.knownLast,
      List.take_append_of_le_length (shown.known.trans shown.knownLast)]
    exact shown.chat

theorem SentShows.subset {sent : SentReport} (shown : SentShows least pushed sent) :
    sent.report.chat ⊆ pushed.map Prod.snd := by
  rcases shown.chat with ⟨twitch, kick, showsTwitch, showsKick, chat⟩
  intro message member
  rw [chat] at member
  rcases List.mem_append.mp (recentChatMessages_subset twitch kick member) with ofTwitch | ofKick
  · exact ((List.take_sublist _ _).map Prod.snd).subset (showsTwitch.subset ofTwitch)
  · exact ((List.take_sublist _ _).map Prod.snd).subset (showsKick.subset ofKick)

structure ChatInvariant (least : Nat) (server : HealthServer) : Prop where
  logs : ∀ source, LogFollows least server.chatSources server.pushed source
  draft : ∀ draft, server.draft = some draft → DraftShows least server.pushed draft
  sent : ∀ sent ∈ server.sent, SentShows least server.pushed sent
  ordered : server.sent.Pairwise fun earlier later => earlier.knownLast ≤ later.knownLast

/-- The logs are empty and keep at least so many messages. -/
def StartsEmpty (least : Nat) (chatSources : ChatSources) : Prop :=
  ∀ source log, chatSources.log source = some log →
    ∃ maxMessages, least ≤ maxMessages ∧ log = .new maxMessages

theorem ChatInvariant.initial {chatSources : ChatSources}
    (startsEmpty : StartsEmpty least chatSources) : ChatInvariant least (.initial chatSources) where
  logs source := by
    have created : ∀ log, chatSources.log source = some log → least ≤ log.maxMessages ∧
        log.messages = [] ∧ log.nextId = 1 := by
      intro log known
      rcases startsEmpty source log known with ⟨maxMessages, enough, rfl⟩
      exact ⟨enough, rfl, rfl⟩
    refine ⟨fun _ => rfl, fun log known => (created log known).1, ?_, ?_, rfl⟩
    · intro log known
      rw [(created log known).2.1]
      exact (List.rtake_nil _).symm
    · exact fun log known => (created log known).2.2
  draft := by
    intro draft impossible
    cases impossible
  sent := fun _ member => absurd member List.not_mem_nil
  ordered := List.Pairwise.nil

theorem ChatInvariant.push (invariant : ChatInvariant least server) (source : ChatSource)
    (unixMs : UInt64) (user text : Text) :
    ChatInvariant least (server.push source unixMs user text) := by
  rw [HealthServer.push]
  split
  · exact invariant
  · rename_i log known
    refine ⟨?_, ?_, ?_, invariant.ordered⟩
    · exact fun other => (invariant.logs other).push known unixMs user text
    · exact fun draft begun => (invariant.draft draft begun).append
    · exact fun sent member => (invariant.sent sent member).append

theorem ChatInvariant.tick (invariant : ChatInvariant least server)
    (healthConnections : HealthConnections) (unixMs : UInt64) :
    ChatInvariant least (server.tick intervalSecs healthConnections unixMs) := by
  rw [HealthServer.tick]
  split
  · exact invariant
  · refine ⟨invariant.logs, ?_, invariant.sent, invariant.ordered⟩
    rintro _ ⟨rfl⟩
    refine ⟨Nat.le_refl _, ?_⟩
    rw [List.take_length]
    exact (invariant.logs .twitch).shows

theorem ChatInvariant.send (invariant : ChatInvariant least server) :
    ChatInvariant least server.send := by
  rw [HealthServer.send]
  split
  · exact invariant
  · rename_i draft busy
    have begun := invariant.draft draft busy
    refine ⟨invariant.logs, ?_, ?_, ?_⟩
    · intro draft impossible
      cases impossible
    · intro sent member
      rcases List.mem_append.mp member with earlier | last
      · exact invariant.sent sent earlier
      · rw [List.mem_singleton.mp last]
        refine ⟨begun.known, Nat.le_refl _, _, _, begun.twitch, ?_, rfl⟩
        rw [List.take_length]
        exact (invariant.logs .kick).shows
    · apply List.pairwise_append.mpr
      refine ⟨invariant.ordered, List.pairwise_singleton _ _, ?_⟩
      intro sent member last isLast
      rw [List.mem_singleton.mp isLast]
      exact (invariant.sent sent member).knownLast

theorem ChatInvariant.step (invariant : ChatInvariant least server) (event : HealthEvent) :
    ChatInvariant least (server.step intervalSecs event) := by
  cases event with
  | push source unixMs user text => exact invariant.push source unixMs user text
  | count packet => exact ⟨invariant.logs, invariant.draft, invariant.sent, invariant.ordered⟩
  | tick healthConnections unixMs => exact invariant.tick healthConnections unixMs
  | send => exact invariant.send

/-! ## What stays -/

theorem pushed_step (server : HealthServer) (event : HealthEvent) :
    ∃ more, (server.step intervalSecs event).pushed = server.pushed ++ more := by
  cases event with
  | push source unixMs user text =>
      rw [HealthServer.step, HealthServer.push]
      split
      · exact ⟨[], (List.append_nil _).symm⟩
      · exact ⟨_, rfl⟩
  | count packet => exact ⟨[], (List.append_nil _).symm⟩
  | tick healthConnections unixMs =>
      rw [HealthServer.step, HealthServer.tick]
      split <;> exact ⟨[], (List.append_nil _).symm⟩
  | send =>
      rw [HealthServer.step, HealthServer.send]
      split <;> exact ⟨[], (List.append_nil _).symm⟩

theorem sent_step (server : HealthServer) (event : HealthEvent) :
    ∃ more, (server.step intervalSecs event).sent = server.sent ++ more := by
  cases event with
  | push source unixMs user text =>
      rw [HealthServer.step, HealthServer.push]
      split <;> exact ⟨[], (List.append_nil _).symm⟩
  | count packet => exact ⟨[], (List.append_nil _).symm⟩
  | tick healthConnections unixMs =>
      rw [HealthServer.step, HealthServer.tick]
      split <;> exact ⟨[], (List.append_nil _).symm⟩
  | send =>
      rw [HealthServer.step, HealthServer.send]
      split
      · exact ⟨[], (List.append_nil _).symm⟩
      · exact ⟨_, rfl⟩

/-! ## Distinct ids -/

/-- No log has got more messages than there are ids of its kind. -/
def FewMessages (pushed : List (ChatSource × ChatMessage)) : Prop :=
  ∀ source, (messagesOf source pushed).length < UInt64.size / 2

def ChatSource.parity : ChatSource → Nat
  | .twitch => 0
  | .kick => 1

theorem toNat_reportId (source : ChatSource) {id : Nat} (small : id < UInt64.size / 2) :
    (source.reportId (UInt64.ofNat id)).toNat = 2 * id + source.parity := by
  have fits : id < UInt64.size := by omega
  have doubled : (UInt64.ofNat id <<< 1).toNat = 2 * id := by
    have noCarry : id * 2 < UInt64.size := by omega
    rw [UInt64.toNat_shiftLeft, UInt64.toNat_ofNat_of_lt' fits, Nat.shiftLeft_eq]
    exact (Nat.mod_eq_of_lt noCarry).trans (Nat.mul_comm id 2)
  cases source with
  | twitch => exact doubled
  | kick =>
      rw [ChatSource.reportId, UInt64.toNat_or, doubled]
      exact (@Nat.two_pow_add_eq_or_of_lt 1 1 (by decide) id).symm

theorem LogFollows.nodup {source : ChatSource} {sources : ChatSources}
    (follows : LogFollows least sources pushed source) (few : FewMessages pushed) :
    ((messagesOf source pushed).map ChatMessage.id).Nodup := by
  have small : ∀ index ∈ List.range (messagesOf source pushed).length,
      index + 1 < UInt64.size / 2 := by
    intro index member
    have inRange := List.mem_range.mp member
    have limited := few source
    omega
  rw [follows.ids]
  apply List.Nodup.map_on _ List.nodup_range
  intro one isOne two isTwo same
  have values := congrArg UInt64.toNat same
  rw [toNat_reportId source (small one isOne), toNat_reportId source (small two isTwo)] at values
  omega

theorem LogFollows.parity {source : ChatSource} {sources : ChatSources}
    (follows : LogFollows least sources pushed source) (few : FewMessages pushed) :
    ∀ id ∈ (messagesOf source pushed).map ChatMessage.id, id.toNat % 2 = source.parity := by
  intro id member
  rw [follows.ids] at member
  rcases List.mem_map.mp member with ⟨index, inRange, rfl⟩
  have limited := few source
  have inside := List.mem_range.mp inRange
  rw [toNat_reportId source (by omega)]
  cases source with
  | twitch => exact Nat.mul_mod_right 2 (index + 1)
  | kick => exact Nat.mul_add_mod 2 (index + 1) 1

/-- No two messages have the same id in the reports. -/
theorem ChatInvariant.nodup (invariant : ChatInvariant least server)
    (few : FewMessages server.pushed) :
    ((server.pushed.map Prod.snd).map ChatMessage.id).Nodup := by
  have others : (server.pushed.filter fun entry => !decide (entry.1 = .twitch)) =
      server.pushed.filter fun entry => decide (entry.1 = .kick) := by
    apply List.filter_congr
    rintro ⟨source, message⟩ _
    cases source <;> rfl
  have parts := List.filter_append_perm
    (fun entry : ChatSource × ChatMessage => decide (entry.1 = .twitch)) server.pushed
  rw [others] at parts
  have separated : (((messagesOf .twitch server.pushed).map ChatMessage.id) ++
      (messagesOf .kick server.pushed).map ChatMessage.id).Nodup := by
    apply ((invariant.logs .twitch).nodup few).append ((invariant.logs .kick).nodup few)
    intro id isTwitch isKick
    have even := (invariant.logs .twitch).parity few id isTwitch
    have odd := (invariant.logs .kick).parity few id isKick
    rw [even] at odd
    cases odd
  rw [messagesOf, messagesOf, ← List.map_append, ← List.map_append] at separated
  exact (((parts.map Prod.snd).map ChatMessage.id).nodup_iff).mp separated

end Runs

end Irohsion.Server
