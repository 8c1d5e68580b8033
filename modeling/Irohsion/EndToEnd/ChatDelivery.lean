import Irohsion.Client.HealthRecorders
import Irohsion.Server.ChatReports

/-! # Chat messages from the sources to the client

The server, the client and a network that may lose, repeat, delay and reorder
the reports. The client has only messages that were pushed. When the reports
have the order of their times, it has the newest of what the recorded ones show.
-/

namespace Irohsion.EndToEnd

open Transport Client Server GrowingLog

/-! ## The system -/

/-- The server, the client and the reports that the client has recorded. -/
structure ChatSystem where
  server : HealthServer
  client : ClientCtx
  recorded : List SentReport

inductive ChatEvent
  | server (event : HealthEvent)
  /-- A datagram arrives that has been sent, over any path. -/
  | arrive (index : Nat)

def isStale (client : ClientCtx) (report : HealthReport) : Bool :=
  client.lastHealthUnixMs.any fun current => decide (report.unixMs < current)

namespace ChatSystem

def initial (chatSources : ChatSources) : ChatSystem :=
  ⟨.initial chatSources, .initial, []⟩

def receive (sent : SentReport) (system : ChatSystem) : ChatSystem :=
  match decodeHealthReport (encodeHealthReport sent.report) with
  | .error _ => system
  | .ok report =>
      { system with
        client := system.client.recordHealthReport report
        recorded := if isStale system.client report then system.recorded
          else system.recorded ++ [sent] }

def step (intervalSecs : Float32) (system : ChatSystem) : ChatEvent → ChatSystem
  | .server event => { system with server := system.server.step intervalSecs event }
  | .arrive index =>
      match system.server.sent[index]? with
      | none => system
      | some sent => system.receive sent

def run (intervalSecs : Float32) (system : ChatSystem) (events : List ChatEvent) : ChatSystem :=
  events.foldl (step intervalSecs) system

def pushed (system : ChatSystem) : List ChatMessage :=
  system.server.pushed.map Prod.snd

theorem receive_server (sent : SentReport) (system : ChatSystem) :
    (system.receive sent).server = system.server := by
  rw [receive]
  split <;> rfl

def serverEvent : ChatEvent → Option HealthEvent
  | .server event => some event
  | .arrive _ => none

/-- The server does not depend on what arrives. -/
theorem run_server (intervalSecs : Float32) (system : ChatSystem) (events : List ChatEvent) :
    (system.run intervalSecs events).server =
      system.server.run intervalSecs (events.filterMap serverEvent) := by
  induction events generalizing system with
  | nil => rfl
  | cons event rest induction =>
      rw [run, List.foldl_cons, ← run, induction]
      cases event with
      | server event => rfl
      | arrive index =>
          have unchanged : (system.step intervalSecs (.arrive index)).server = system.server := by
            rw [step]
            split
            · rfl
            · exact receive_server _ system
          rw [unchanged]
          rfl

/-- What the server's steps and the arrivals keep holds after every run. -/
theorem run_invariant {Inv : ChatSystem → Prop} {intervalSecs : Float32} {start : ChatSystem}
    (starts : Inv start)
    (server : ∀ system event, Inv system →
      Inv { system with server := system.server.step intervalSecs event })
    (arrive : ∀ system sent, Inv system → sent ∈ system.server.sent → Inv (system.receive sent))
    (events : List ChatEvent) : Inv (start.run intervalSecs events) := by
  apply @List.foldlRecOn _ _ Inv events _ _ starts
  intro system holds event _
  cases event with
  | server event => exact server system event holds
  | arrive index =>
      rw [step]
      split
      · exact holds
      · rename_i sent found
        exact arrive system sent holds (List.mem_of_getElem? found)

end ChatSystem

/-! ## Reports on the wire -/

section Reports

variable {sent : SentReport} {intervalSecs : Float32} {server : HealthServer}

/-- An `EndpointId` is printed without tabs and line ends. -/
def Named (server : HealthServer) : Prop :=
  ∀ sent ∈ server.sent, ∀ endpointId ∈ sent.endpointIds, Text.IsField endpointId.toList

/-- A report arrives as it was built, with rounded rates. -/
theorem decode_sent (drained : Drained intervalSecs sent.toHealthDraft)
    (endpoints : sent.report.endpoints = sent.endpoints)
    (named : ∀ endpointId ∈ sent.endpointIds, Text.IsField endpointId.toList) :
    decodeHealthReport (encodeHealthReport sent.report) =
      .ok { sent.report with
        endpoints := sent.report.endpoints.map EndpointHealth.received } := by
  have entries : ∀ endpoint ∈ sent.endpoints, endpoint.endpointId.IsField ∧
      (endpoint.maxSeq = none → endpoint.lastSeq = none) := by
    intro endpoint member
    rcases List.forall₂_iff_get.mp drained.entries with ⟨sameLength, related⟩
    rcases List.getElem_of_mem member with ⟨index, bound, found⟩
    have entry := related index (sameLength ▸ bound) bound
    rw [List.get_eq_getElem, List.get_eq_getElem, found] at entry
    refine ⟨?_, entry.2.maxWithLast⟩
    rw [entry.1]
    exact named _ (List.getElem_mem _)
  rw [← endpoints] at entries
  have idFields := fun endpoint member => (entries endpoint member).1
  have maxWithLast := fun endpoint member => (entries endpoint member).2
  rw [decodeHealthReport_encodeHealthReport_rows idFields, HealthReport.rows, List.tail_cons,
    List.map_append, List.foldlM_append, foldlM_decodeRow_endpoints _ idFields maxWithLast, ok_bind,
    foldlM_decodeRow_chat, List.nil_append, List.nil_append]

end Reports

/-! ## The client has what was pushed -/

section Genuine

variable {least : Nat} {intervalSecs : Float32} {system : ChatSystem} {sent : SentReport}

/-- The server's part of every run. -/
structure ServerSound (least : Nat) (intervalSecs : Float32) (server : HealthServer) : Prop where
  chat : ChatInvariant least server
  accounts : ∃ packets, Accounts intervalSecs server packets

theorem ServerSound.initial {chatSources : ChatSources}
    (startsEmpty : StartsEmpty least chatSources) (intervalSecs : Float32) :
    ServerSound least intervalSecs (.initial chatSources) :=
  ⟨.initial startsEmpty, [], .initial intervalSecs chatSources⟩

theorem ServerSound.step {server : HealthServer} (sound : ServerSound least intervalSecs server)
    (event : HealthEvent) : ServerSound least intervalSecs (server.step intervalSecs event) := by
  rcases sound.accounts with ⟨packets, accounts⟩
  exact ⟨sound.chat.step event, _, accounts.step event⟩

/-- The client records a report as it was built, with rounded rates. -/
theorem receive_eq (sound : ServerSound least intervalSecs system.server)
    (named : Named system.server) (member : sent ∈ system.server.sent) :
    ∃ report, report.unixMs = sent.report.unixMs ∧ report.chat = sent.report.chat ∧
      system.receive sent = { system with
        client := system.client.recordHealthReport report
        recorded := if isStale system.client report then system.recorded
          else system.recorded ++ [sent] } := by
  rcases sound.accounts with ⟨packets, accounts⟩
  have drained := accounts.sent sent member
  have decoded := decode_sent drained.1 drained.2.1 (named sent member)
  refine ⟨{ sent.report with endpoints := sent.report.endpoints.map EndpointHealth.received },
    rfl, rfl, ?_⟩
  rw [ChatSystem.receive, decoded]

theorem eq_absorb :
    (fun (stored : List ChatMessage) (message : ChatMessage) =>
      if stored.any fun existing => existing.id == message.id then stored
      else stored ++ [message]) = absorb ChatMessage.id :=
  rfl

theorem recordChatMessages_eq {stored : List ChatMessage} (few : stored.length ≤ maxChatMessages)
    (messages : List ChatMessage) : ClientCtx.recordChatMessages messages stored =
      (messages.foldl (absorb ChatMessage.id) stored).rtake maxChatMessages := by
  rw [ClientCtx.recordChatMessages]
  split
  · rename_i empty
    rw [List.isEmpty_iff.mp empty, List.foldl_nil, rtake_of_length_le few]
  · rw [eq_absorb, Recency.popWhile_beyond]

/-- What the client stores has been pushed, each message once. -/
structure Genuine (system : ChatSystem) : Prop where
  pushed : system.client.chatMessages ⊆ system.pushed
  bounded : ClientCtx.ChatBounded system.client.chatMessages

theorem Genuine.receive (genuine : Genuine system)
    (sound : ServerSound least intervalSecs system.server) (named : Named system.server)
    (member : sent ∈ system.server.sent) : Genuine (system.receive sent) := by
  rcases receive_eq sound named member with ⟨report, -, chat, received⟩
  rw [received, ClientCtx.recordHealthReport]
  split
  · exact ⟨genuine.pushed, genuine.bounded⟩
  · refine ⟨?_, genuine.bounded.recordChatMessages report.chat⟩
    intro message stored
    dsimp only at stored
    rw [recordChatMessages_eq genuine.bounded.few] at stored
    rcases mem_foldl_absorb ((rtake_suffix _ _).subset stored) with earlier | reported
    · exact genuine.pushed earlier
    · rw [chat] at reported
      exact (sound.chat.sent sent member).subset reported

/-- What is pushed and sent stays, so later conditions hold before. -/
theorem named_of_step {server : HealthServer} {event : HealthEvent}
    (named : Named (server.step intervalSecs event)) : Named server := by
  rcases @sent_step intervalSecs server event with ⟨more, sent⟩
  intro report member
  apply named report
  rw [sent]
  exact List.mem_append_left _ member

theorem Genuine.serverStep (genuine : Genuine system) (event : HealthEvent) :
    Genuine { system with server := system.server.step intervalSecs event } := by
  rcases @pushed_step intervalSecs system.server event with ⟨more, pushed⟩
  refine ⟨?_, genuine.bounded⟩
  intro message stored
  rw [ChatSystem.pushed, pushed, List.map_append]
  exact List.mem_append_left _ (genuine.pushed stored)

end Genuine

/-- In whatever order messages are pushed, reports are put together and
datagrams arrive, the client has only messages that were pushed, each once and
not too many. -/
theorem chat_genuine {chatSources : ChatSources} (intervalSecs : Float32)
    (startsEmpty : StartsEmpty 0 chatSources) (events : List ChatEvent)
    (named : Named ((ChatSystem.initial chatSources).run intervalSecs events).server) :
    Genuine ((ChatSystem.initial chatSources).run intervalSecs events) := by
  have reached : Named ((ChatSystem.initial chatSources).run intervalSecs events).server →
      ServerSound 0 intervalSecs
        ((ChatSystem.initial chatSources).run intervalSecs events).server ∧
      Genuine ((ChatSystem.initial chatSources).run intervalSecs events) := by
    apply @ChatSystem.run_invariant fun system => Named system.server →
      ServerSound 0 intervalSecs system.server ∧ Genuine system
    · intro _
      refine ⟨.initial startsEmpty intervalSecs, List.nil_subset _, List.nodup_nil, ?_⟩
      exact Nat.zero_le _
    · intro system event reached named
      rcases reached (named_of_step named) with ⟨sound, genuine⟩
      exact ⟨sound.step event, genuine.serverStep event⟩
    · intro system sent reached member
      rw [ChatSystem.receive_server]
      intro named
      rcases reached named with ⟨sound, genuine⟩
      exact ⟨sound, genuine.receive sound named member⟩
  exact (reached named).2

/-! ## The client has all that the reports show -/

section Followed

variable {least : Nat} {intervalSecs : Float32} {system : ChatSystem} {sent : SentReport}
variable {pushed : List ChatMessage} {recorded : List SentReport} {known : Nat}

/-- How many messages had been pushed for the last report. -/
def lastKnown (known : Nat) (recorded : List SentReport) : Nat :=
  (recorded.getLast?.map SentReport.knownLast).getD known

/-- Each report shows the newest of what was pushed since the one before. -/
def shownFrom (pushed : List ChatMessage) : Nat → List SentReport → List ChatMessage
  | _, [] => []
  | known, sent :: later =>
      ((pushed.take sent.knownLast).drop known).rtake maxChatMessagesPerHealthReport ++
        shownFrom pushed sent.knownLast later

theorem lastKnown_cons (known : Nat) (sent : SentReport) (later : List SentReport) :
    lastKnown known (sent :: later) = lastKnown sent.knownLast later := by
  rw [lastKnown, lastKnown, List.getLast?_cons]
  cases later.getLast? <;> rfl

theorem shownFrom_append (pushed : List ChatMessage) (known : Nat) (recorded : List SentReport)
    (sent : SentReport) : shownFrom pushed known (recorded ++ [sent]) =
      shownFrom pushed known recorded ++
        ((pushed.take sent.knownLast).drop (lastKnown known recorded)).rtake
          maxChatMessagesPerHealthReport := by
  induction recorded generalizing known with
  | nil => exact List.append_nil _
  | cons first later induction =>
      rw [List.cons_append, shownFrom, induction, shownFrom, lastKnown_cons, List.append_assoc]

/-- Later messages do not matter to earlier reports. -/
theorem shownFrom_append_left (more : List ChatMessage)
    (before : ∀ sent ∈ recorded, sent.knownLast ≤ pushed.length) (known : Nat) :
    shownFrom (pushed ++ more) known recorded = shownFrom pushed known recorded := by
  induction recorded generalizing known with
  | nil => rfl
  | cons sent later induction =>
      rw [List.forall_mem_cons] at before
      rw [shownFrom, shownFrom, induction before.2, List.take_append_of_le_length before.1]

/-- What the client needs to follow the messages: they are pushed in the order of
their times and ids, and not too many, each report is put together without a push
in between, and later than the one before. -/
structure Paced (server : HealthServer) : Prop where
  inOrder : PushedInOrder server.pushed
  few : FewMessages server.pushed
  undisturbed : ∀ sent ∈ server.sent, sent.known = sent.knownLast
  later : server.sent.Pairwise fun earlier later => earlier.report.unixMs < later.report.unixMs
  named : Named server

theorem paced_of_step {server : HealthServer} {event : HealthEvent}
    (paced : Paced (server.step intervalSecs event)) : Paced server := by
  rcases @pushed_step intervalSecs server event with ⟨more, pushed⟩
  rcases @sent_step intervalSecs server event with ⟨moreSent, sent⟩
  have inOrder := paced.inOrder
  have later := paced.later
  rw [pushed] at inOrder
  rw [sent] at later
  refine ⟨inOrder.of_prefix (List.prefix_append _ _), ?_, ?_, (List.pairwise_append.mp later).1,
    named_of_step paced.named⟩
  · intro source
    have few := paced.few source
    rw [pushed, messagesOf, List.filter_append, List.map_append, List.length_append] at few
    exact (Nat.le_add_right _ _).trans_lt few
  · intro report member
    apply paced.undisturbed
    rw [sent]
    exact List.mem_append_left _ member

/-- The client has the newest of what the recorded reports show, which ends with
the window of the last one. -/
structure Follows (system : ChatSystem) : Prop where
  recorded : ∀ sent ∈ system.recorded, sent ∈ system.server.sent
  rising : (0 :: system.recorded.map SentReport.knownLast).IsChain (· ≤ ·)
  newest : system.client.lastHealthUnixMs =
    system.recorded.getLast?.map fun sent => sent.report.unixMs
  chat : system.client.chatMessages =
    (shownFrom system.pushed 0 system.recorded).rtake maxChatMessages
  ends : (system.pushed.take (lastKnown 0 system.recorded)).rtake maxChatMessagesPerHealthReport <:+
    shownFrom system.pushed 0 system.recorded
  once : (shownFrom system.pushed 0 system.recorded ++
    system.pushed.drop (lastKnown 0 system.recorded)).Sublist system.pushed

theorem Follows.initial (chatSources : ChatSources) : Follows (.initial chatSources) where
  recorded := fun _ member => absurd member List.not_mem_nil
  rising := List.isChain_singleton 0
  newest := rfl
  chat := rfl
  ends := List.suffix_refl _
  once := List.Sublist.refl _

theorem lastKnown_le (sound : ServerSound least intervalSecs system.server)
    (follows : Follows system) : lastKnown 0 system.recorded ≤ system.pushed.length := by
  rw [lastKnown]
  cases last : system.recorded.getLast? with
  | none => exact Nat.zero_le _
  | some sent =>
      have member := follows.recorded sent (List.mem_of_getLast? last)
      have known := (sound.chat.sent sent member).knownLast
      rw [ChatSystem.pushed, List.length_map]
      exact known

theorem Follows.serverStep (follows : Follows system)
    (sound : ServerSound least intervalSecs system.server) (event : HealthEvent) :
    Follows { system with server := system.server.step intervalSecs event } := by
  rcases @pushed_step intervalSecs system.server event with ⟨more, pushedStep⟩
  rcases @sent_step intervalSecs system.server event with ⟨moreSent, sentStep⟩
  have within := lastKnown_le sound follows
  have before : ∀ sent ∈ system.recorded, sent.knownLast ≤ system.pushed.length := by
    intro sent member
    rw [ChatSystem.pushed, List.length_map]
    exact (sound.chat.sent sent (follows.recorded sent member)).knownLast
  have pushed : ({ system with server := system.server.step intervalSecs event } :
      ChatSystem).pushed = system.pushed ++ more.map Prod.snd := by
    rw [ChatSystem.pushed, pushedStep, List.map_append]
    rfl
  refine ⟨?_, follows.rising, follows.newest, ?_, ?_, ?_⟩
  · intro sent member
    dsimp only
    rw [sentStep]
    exact List.mem_append_left _ (follows.recorded sent member)
  · rw [pushed, shownFrom_append_left _ before]
    exact follows.chat
  · rw [pushed, shownFrom_append_left _ before, List.take_append_of_le_length within]
    exact follows.ends
  · rw [pushed, shownFrom_append_left _ before, List.drop_append_of_le_length within,
      ← List.append_assoc]
    exact follows.once.append_right _

/-- A report shows the end of what was pushed before it. -/
theorem chat_eq_window (sound : ServerSound maxChatMessagesPerHealthReport intervalSecs
    system.server) (paced : Paced system.server) (member : sent ∈ system.server.sent) :
    sent.report.chat =
      (system.pushed.take sent.knownLast).rtake maxChatMessagesPerHealthReport := by
  have shown := sound.chat.sent sent member
  rcases shown.chat with ⟨twitch, kick, showsTwitch, showsKick, chat⟩
  rw [paced.undisturbed sent member] at showsTwitch
  have inOrder := paced.inOrder.of_prefix (List.take_prefix sent.knownLast _)
  rw [chat, recentChatMessages_of_shows (Nat.le_refl _) inOrder showsTwitch showsKick,
    ChatSystem.pushed, List.map_take]

/-- A report that is not older has been put together with no fewer messages. -/
theorem knownLast_le (sound : ServerSound least intervalSecs system.server)
    (paced : Paced system.server) {previous : SentReport}
    (isPrevious : previous ∈ system.server.sent) (member : sent ∈ system.server.sent)
    (notOlder : ¬ sent.report.unixMs < previous.report.unixMs) :
    previous.knownLast ≤ sent.knownLast := by
  let InStep := fun one two : SentReport =>
    (¬ two.report.unixMs < one.report.unixMs → one.knownLast ≤ two.knownLast) ∧
    (¬ one.report.unixMs < two.report.unixMs → two.knownLast ≤ one.knownLast)
  have inStep : system.server.sent.Pairwise InStep := by
    apply (sound.chat.ordered.and paced.later).imp
    rintro earlier later ⟨known, times⟩
    exact ⟨fun _ => known, fun notEarlier => absurd times notEarlier⟩
  have symmetric : Std.Symm InStep := ⟨fun one two both => ⟨both.2, both.1⟩⟩
  have reflexive : ∀ one ∈ system.server.sent, InStep one one :=
    fun one _ => ⟨fun _ => Nat.le_refl _, fun _ => Nat.le_refl _⟩
  exact (inStep.forall_of_forall reflexive isPrevious member).1 notOlder

theorem lastKnown_le_of_not_stale (follows : Follows system)
    (sound : ServerSound least intervalSecs system.server) (paced : Paced system.server)
    (member : sent ∈ system.server.sent) {report : HealthReport}
    (time : report.unixMs = sent.report.unixMs)
    (fresh : ¬ isStale system.client report = true) :
    lastKnown 0 system.recorded ≤ sent.knownLast := by
  rw [lastKnown]
  cases last : system.recorded.getLast? with
  | none => exact Nat.zero_le _
  | some previous =>
      have newest := follows.newest
      rw [last, Option.map_some] at newest
      rw [isStale, newest, Option.any_some, decide_eq_true_eq, time] at fresh
      exact knownLast_le sound paced (follows.recorded previous (List.mem_of_getLast? last))
        member fresh

theorem getLast?_known (known : Nat) (recorded : List SentReport) :
    (known :: recorded.map SentReport.knownLast).getLast? = some (lastKnown known recorded) := by
  rw [List.getLast?_cons, List.getLast?_map, lastKnown]

/-- The messages of the new report are those before the last one and the fresh ones. -/
theorem take_drop_known {first second : Nat} (further : first ≤ second)
    (within : first ≤ pushed.length) :
    pushed.take second = pushed.take first ++ (pushed.take second).drop first ∧
    pushed.drop first = (pushed.take second).drop first ++ pushed.drop second := by
  have covered : first ≤ (pushed.take second).length := by
    rw [List.length_take]
    exact le_min further within
  constructor
  · have parts := (List.take_append_drop first (pushed.take second)).symm
    rw [List.take_take, Nat.min_eq_left further] at parts
    exact parts
  · rw [← List.drop_append_of_le_length covered, List.take_append_drop]

theorem Follows.receive (follows : Follows system)
    (sound : ServerSound maxChatMessagesPerHealthReport intervalSecs system.server)
    (paced : Paced system.server) (member : sent ∈ system.server.sent) :
    Follows (system.receive sent) := by
  rcases receive_eq sound paced.named member with ⟨report, time, chat, received⟩
  rw [received, ClientCtx.recordHealthReport]
  by_cases stale : isStale system.client report = true
  · have dropped := stale
    rw [isStale] at dropped
    rw [if_pos stale, if_pos dropped]
    exact follows
  have further := lastKnown_le_of_not_stale follows sound paced member time stale
  have kept := stale
  rw [isStale] at kept
  rw [if_neg stale, if_neg kept]
  rcases take_drop_known further (lastKnown_le sound follows) with ⟨grown, rest⟩
  have once := follows.once
  rw [rest] at once
  have shows := shownFrom_append system.pushed 0 system.recorded sent
  have last : lastKnown 0 (system.recorded ++ [sent]) = sent.knownLast := by
    rw [lastKnown, List.getLast?_concat]
    rfl
  refine ⟨?_, ?_, ?_, ?_, ?_, ?_⟩
  · intro other isOther
    rcases List.mem_append.mp isOther with earlier | isLast
    · exact follows.recorded other earlier
    · exact List.mem_singleton.mp isLast ▸ member
  · rw [List.map_append, List.map_singleton, ← List.cons_append, List.isChain_append]
    refine ⟨follows.rising, List.isChain_singleton _, ?_⟩
    intro one isOne two isTwo
    rw [getLast?_known, Option.mem_some] at isOne
    rw [List.head?_cons, Option.mem_some] at isTwo
    rw [← isOne, ← isTwo]
    exact further
  · dsimp only
    rw [List.getLast?_concat, Option.map_some, time]
  · have distinct := (sound.chat.nodup paced.few).sublist
      (((List.sublist_append_left _ _).trans ((List.append_assoc _ _ _).symm ▸ once)).map
        ChatMessage.id)
    have few : system.client.chatMessages.length ≤ maxChatMessages := by
      rw [follows.chat]
      exact length_rtake_le _ _
    have absorbed := absorb_window (by decide : maxChatMessagesPerHealthReport ≤ maxChatMessages)
      follows.ends distinct
    dsimp only
    rw [recordChatMessages_eq few, chat, chat_eq_window sound paced member, grown, follows.chat]
    exact absorbed.trans (congrArg (·.rtake maxChatMessages) shows.symm)
  · have window := @window_suffix _ _ (system.pushed.take (lastKnown 0 system.recorded))
      ((system.pushed.take sent.knownLast).drop (lastKnown 0 system.recorded)) _ follows.ends
    rw [← grown, ← shows] at window
    dsimp only
    rw [last]
    exact window
  · have kept := (rtake_suffix ((system.pushed.take sent.knownLast).drop
      (lastKnown 0 system.recorded)) maxChatMessagesPerHealthReport).sublist
    have shorter := (kept.append_right (system.pushed.drop sent.knownLast)).append_left
      (shownFrom system.pushed 0 system.recorded)
    rw [← List.append_assoc, ← shows] at shorter
    dsimp only
    rw [last]
    exact shorter.trans once

/-- Between two recorded reports no more messages are pushed than a report shows. -/
def NoneLost (known : Nat) (recorded : List SentReport) : Prop :=
  (known :: recorded.map SentReport.knownLast).IsChain fun before after =>
    after ≤ before + maxChatMessagesPerHealthReport

theorem lastKnown_of_rising
    (rising : (known :: recorded.map SentReport.knownLast).IsChain (· ≤ ·)) :
    known ≤ lastKnown known recorded := by
  induction recorded generalizing known with
  | nil => exact Nat.le_refl known
  | cons sent later induction =>
      rw [List.map_cons, List.isChain_cons_cons] at rising
      rw [lastKnown_cons]
      exact rising.1.trans (induction rising.2)

theorem shownFrom_of_noneLost
    (rising : (known :: recorded.map SentReport.knownLast).IsChain (· ≤ ·))
    (noneLost : NoneLost known recorded) (within : lastKnown known recorded ≤ pushed.length) :
    shownFrom pushed known recorded = (pushed.take (lastKnown known recorded)).drop known := by
  induction recorded generalizing known with
  | nil =>
      rw [shownFrom, lastKnown, List.getLast?_nil, Option.map_none, Option.getD_none,
        List.drop_eq_nil_of_le (List.length_take_le _ _)]
  | cons sent later induction =>
      rw [NoneLost, List.map_cons, List.isChain_cons_cons] at noneLost
      rw [List.map_cons, List.isChain_cons_cons] at rising
      rw [lastKnown_cons] at within ⊢
      have further := lastKnown_of_rising rising.2
      have few : ((pushed.take sent.knownLast).drop known).length ≤
          maxChatMessagesPerHealthReport := by
        rw [List.length_drop, List.length_take]
        omega
      have covered : known ≤ (pushed.take sent.knownLast).length := by
        rw [List.length_take]
        exact le_min rising.1 ((rising.1.trans further).trans within)
      rw [shownFrom, rtake_of_length_le few, induction rising.2 noneLost.2 within,
        ← List.drop_append_of_le_length covered]
      have parts := List.take_append_drop sent.knownLast
        (pushed.take (lastKnown sent.knownLast later))
      rw [List.take_take, Nat.min_eq_left further] at parts
      rw [parts]

end Followed

/-- While the clock of the server goes on, the client has the newest of what the
recorded reports show, whatever was lost, repeated or overtaken. If no more
messages are pushed from one of them to the next than a report shows, it has the
newest of all messages before the last one. -/
theorem chat_followed {chatSources : ChatSources} (intervalSecs : Float32)
    (startsEmpty : StartsEmpty maxChatMessagesPerHealthReport chatSources)
    (events : List ChatEvent)
    (paced : Paced ((ChatSystem.initial chatSources).run intervalSecs events).server) :
    let system := (ChatSystem.initial chatSources).run intervalSecs events
    system.client.chatMessages =
      (shownFrom system.pushed 0 system.recorded).rtake maxChatMessages ∧
    (NoneLost 0 system.recorded → system.client.chatMessages =
      (system.pushed.take (lastKnown 0 system.recorded)).rtake maxChatMessages) := by
  have reached : Paced ((ChatSystem.initial chatSources).run intervalSecs events).server →
      ServerSound maxChatMessagesPerHealthReport intervalSecs
        ((ChatSystem.initial chatSources).run intervalSecs events).server ∧
      Follows ((ChatSystem.initial chatSources).run intervalSecs events) := by
    apply @ChatSystem.run_invariant fun system => Paced system.server →
      ServerSound maxChatMessagesPerHealthReport intervalSecs system.server ∧ Follows system
    · exact fun _ => ⟨.initial startsEmpty intervalSecs, .initial chatSources⟩
    · intro system event reached paced
      rcases reached (paced_of_step paced) with ⟨sound, follows⟩
      exact ⟨sound.step event, follows.serverStep sound event⟩
    · intro system sent reached member
      rw [ChatSystem.receive_server]
      intro paced
      rcases reached paced with ⟨sound, follows⟩
      exact ⟨sound, follows.receive sound paced member⟩
  rcases reached paced with ⟨sound, follows⟩
  refine ⟨follows.chat, ?_⟩
  intro noneLost
  rw [follows.chat,
    shownFrom_of_noneLost follows.rising noneLost (lastKnown_le sound follows), List.drop_zero]

/-! ## Four messages and their reports -/

def bothSources : ChatSources :=
  ⟨some (.new 3), some (.new 5)⟩

def oneConnection : HealthConnections :=
  (∅ : HealthConnections).insert "a" ⟨⟨"a", 0⟩, 0⟩

/-- Four messages and two reports. The second report arrives first and twice, and
then the first one, which is stale. -/
def crossedReports : List ChatEvent :=
  [.server (.push .kick 10 ['k'] ['1']), .server (.push .twitch 20 ['t'] ['2']),
    .server (.tick oneConnection 25), .server .send, .server (.push .twitch 30 ['t'] ['3']),
    .server (.push .kick 40 ['k'] ['4']), .server (.tick oneConnection 45), .server .send,
    .arrive 1, .arrive 1, .arrive 0]

/-- Four messages and three reports. The first report comes last and is stale,
the second one shows what it would have shown, and the third one arrives twice. -/
def overtakenReports : List ChatEvent :=
  [.server (.push .kick 10 ['k'] ['1']), .server (.tick oneConnection 15), .server .send,
    .server (.push .twitch 20 ['t'] ['2']), .server (.push .twitch 30 ['t'] ['3']),
    .server (.tick oneConnection 35), .server .send, .arrive 1,
    .server (.push .kick 40 ['k'] ['4']), .server (.tick oneConnection 45), .server .send,
    .arrive 2, .arrive 2, .arrive 0]

theorem startsEmpty_bothSources (least : Nat) (few : least ≤ 3) :
    StartsEmpty least bothSources := by
  rintro (_ | _) log ⟨rfl⟩
  · exact ⟨3, few, rfl⟩
  · exact ⟨5, by omega, rfl⟩

theorem paced_reports {events : List ChatEvent}
    (member : events ∈ [crossedReports, overtakenReports]) :
    Paced ((ChatSystem.initial bothSources).run 1 events).server := by
  rw [ChatSystem.run_server]
  rcases List.mem_pair.mp member with rfl | rfl
  all_goals
    refine ⟨?_, ?_, ?_, ?_, ?_⟩
    · rw [PushedInOrder]
      decide
    · rintro (_ | _) <;> decide
    · decide
    · decide
    · rw [Named]
      decide

theorem chat_genuine_crossed :
    Genuine ((ChatSystem.initial bothSources).run 1 crossedReports) :=
  chat_genuine 1 (startsEmpty_bothSources 0 (Nat.zero_le 3)) crossedReports
    (paced_reports List.mem_cons_self).named

/-- The client has all four messages. -/
theorem chat_followed_overtaken :
    ∃ system, system = (ChatSystem.initial bothSources).run 1 overtakenReports ∧
      system.recorded.map SentReport.knownLast = [3, 4, 4] ∧ NoneLost 0 system.recorded ∧
      system.client.chatMessages =
        (shownFrom system.pushed 0 system.recorded).rtake maxChatMessages ∧
      system.client.chatMessages =
        (system.pushed.take (lastKnown 0 system.recorded)).rtake maxChatMessages ∧
      system.client.chatMessages.length = 4 := by
  have evaluated : ((ChatSystem.initial bothSources).run 1 overtakenReports).recorded.map
        SentReport.knownLast = [3, 4, 4] ∧
      ((ChatSystem.initial bothSources).run 1 overtakenReports).client.chatMessages.length = 4 := by
    decide +kernel
  have noneLost : NoneLost 0
      ((ChatSystem.initial bothSources).run 1 overtakenReports).recorded := by
    rw [NoneLost, evaluated.1]
    decide
  have followed := chat_followed 1 (startsEmpty_bothSources 3 (Nat.le_refl 3)) overtakenReports
    (paced_reports (List.mem_cons_of_mem _ List.mem_cons_self))
  exact ⟨_, rfl, evaluated.1, noneLost, followed.1, followed.2 noneLost, evaluated.2⟩

end Irohsion.EndToEnd
