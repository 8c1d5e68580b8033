import Irohsion.Server.LiveConnections

/-! # Responses

`response_loop` hands each datagram from the destination to one connection of
the reply routes. It tries the connections in order until one takes the
datagram, while the other tasks register and remove connections.
-/

namespace Irohsion.Server

open Std

/-! ## What happens to a response -/

/-- A datagram of the destination: the routes when it was received, the routes
that were visited with the connections registered then, and the sends. -/
structure Response where
  routes : List String
  visits : List (String × List (Nat × Connection))
  tries : List (Connection × Bool)

namespace Response

def received (routes : List String) : Response := ⟨routes, [], []⟩

def visit (remote : String) (attempts : List (Nat × Connection)) (response : Response) :
    Response :=
  { response with visits := response.visits ++ [(remote, attempts)] }

def send (connection : Connection) (succeeds : Bool) (response : Response) : Response :=
  { response with tries := response.tries ++ [(connection, succeeds)] }

/-- The connections of the visited routes, in the order in which they are tried. -/
def offered (response : Response) : List Connection :=
  response.visits.flatMap fun visit => visit.2.map Prod.snd

end Response

/-- The responses that are done with, and the one in `response_loop`. -/
structure ResponseLog where
  finished : List Response
  current : Option Response

namespace ResponseLog

def empty : ResponseLog := ⟨[], none⟩

def all (log : ResponseLog) : List Response := log.finished ++ log.current.toList

def record (log : ResponseLog) : Registries × RegistryEvent → ResponseLog
  | (state, .receive) => { log with current := some (.received state.replyRoutes) }
  | (state, .visitRoute) =>
      match state.response with
      | .routing (remote :: _) =>
          { log with current := log.current.map (·.visit remote (state.attempts remote)) }
      | _ => log
  | (_, .sendResponse connection succeeds) =>
      { log with current := log.current.map (·.send connection succeeds) }
  | (_, .leaveRoutes) | (_, .pruneSent) => ⟨log.all, none⟩
  | _ => log

end ResponseLog

def responseLog (history : List (Registries × RegistryEvent)) : ResponseLog :=
  history.foldl ResponseLog.record .empty

/-! ## The order of the sends -/

namespace Response

/-- No send has succeeded. The remotes are still to be visited, and the
connections of the last visited route still to be tried. -/
structure Trying (remotes : List String) (attempts : List Connection) (response : Response) :
    Prop where
  visited : response.routes = response.visits.map Prod.fst ++ remotes
  tried : response.offered = response.tries.map Prod.fst ++ attempts
  failed : ∀ sent ∈ response.tries, sent.2 = false

/-- Only the last send has succeeded. -/
structure Sent (response : Response) : Prop where
  visited : response.visits.map Prod.fst <+: response.routes
  tried : response.tries.map Prod.fst <+: response.offered
  once : ∃ failures connection, response.tries = failures ++ [(connection, true)] ∧
    ∀ sent ∈ failures, sent.2 = false

/-- Every connection of every route has failed. -/
def Exhausted (response : Response) : Prop := response.Trying [] []

/-- The response is where `response_loop` is. -/
def At (response : Response) : ResponsePhase → Prop
  | .receiving => False
  | .routing remotes => response.Trying remotes []
  | .sending _ attempts _ remotes => response.Trying remotes (attempts.map Prod.snd)
  | .sent _ _ => response.Sent

variable {response : Response} {remote : String} {remotes : List String}
variable {connection : Connection} {attempts : List Connection}

theorem Trying.visit (trying : response.Trying (remote :: remotes) [])
    (registered : List (Nat × Connection)) :
    (response.visit remote registered).Trying remotes (registered.map Prod.snd) where
  visited := by simp [Response.visit, trying.visited]
  tried := by
    have tried := trying.tried
    rw [offered, List.append_nil] at tried
    simp [offered, Response.visit, tried]
  failed := trying.failed

theorem Trying.fail (trying : response.Trying remotes (connection :: attempts)) :
    (response.send connection false).Trying remotes attempts where
  visited := trying.visited
  tried := by
    have tried := trying.tried
    rw [offered] at tried
    simp [offered, send, tried]
  failed sent member := by
    rcases List.mem_append.mp member with earlier | last
    · exact trying.failed sent earlier
    · rw [List.mem_singleton.mp last]

theorem Trying.succeed (trying : response.Trying remotes (connection :: attempts)) :
    (response.send connection true).Sent where
  visited := ⟨remotes, trying.visited.symm⟩
  tried := by
    have tried := trying.tried
    rw [offered] at tried
    exact ⟨attempts, by simp [offered, send, tried]⟩
  once := ⟨response.tries, connection, rfl, trying.failed⟩

end Response

/-- A finished response has been sent once or could not be sent. -/
structure ResponseLog.Orderly (log : ResponseLog) (phase : ResponsePhase) : Prop where
  finished : ∀ response ∈ log.finished, response.Sent ∨ response.Exhausted
  idle : phase = .receiving → log.current = none
  busy : phase ≠ .receiving → ∃ response, log.current = some response ∧ response.At phase

namespace ResponseLog.Orderly

variable {log : ResponseLog} {state next : Registries} {event : RegistryEvent}

theorem empty : ResponseLog.empty.Orderly .receiving where
  finished _ member := absurd member List.not_mem_nil
  idle _ := rfl
  busy busy := absurd rfl busy

/-- The loop goes on with the current response. -/
theorem goOn (orderly : log.Orderly state.response) {phase : ResponsePhase} {response : Response}
    (isAt : response.At phase) :
    ({ log with current := some response } : ResponseLog).Orderly phase where
  finished := orderly.finished
  idle idle := by
    rw [idle] at isAt
    exact isAt.elim
  busy _ := ⟨response, rfl, isAt⟩

/-- The loop is done with the current response. -/
theorem finish (orderly : log.Orderly state.response) {response : Response}
    (current : log.current = some response) (done : response.Sent ∨ response.Exhausted) :
    (⟨log.all, none⟩ : ResponseLog).Orderly .receiving where
  finished other member := by
    rw [ResponseLog.all, current, Option.toList_some] at member
    rcases List.mem_append.mp member with earlier | last
    · exact orderly.finished other earlier
    · rw [List.mem_singleton.mp last]
      exact done
  idle _ := rfl
  busy busy := absurd rfl busy

/-- Each step of `response_loop` keeps the order, and the other tasks do not
touch it. -/
theorem step (orderly : log.Orderly state.response) (step : RegistryStep state event next) :
    (log.record (state, event)).Orderly next.response := by
  have current {phase : ResponsePhase} (here : state.response = phase)
      (busy : phase ≠ .receiving) :
      ∃ response, log.current = some response ∧ response.At phase := by
    rw [← here] at busy ⊢
    exact orderly.busy busy
  cases step with
  | receive _ =>
      apply orderly.goOn
      exact ⟨rfl, rfl, fun _ member => absurd member List.not_mem_nil⟩
  | leaveRoutes here =>
      rcases current here (by simp) with ⟨response, same, trying⟩
      exact orderly.finish same (Or.inr trying)
  | @visitRoute remote remotes here =>
      rcases current here (by simp) with ⟨response, same, trying⟩
      rw [ResponseLog.record, here, same]
      exact orderly.goOn (trying.visit _)
  | @sendResponse remote stableId connection attempts failed remotes succeeds here =>
      rcases current here (by simp) with ⟨response, same, trying⟩
      rw [ResponseLog.record, same]
      cases succeeds with
      | true =>
          have isAt : (response.send connection true).At (.sent remote failed) := trying.succeed
          exact orderly.goOn isAt
      | false =>
          have isAt : (response.send connection false).At
              (.sending remote attempts (failed ++ [stableId]) remotes) := trying.fail
          exact orderly.goOn isAt
  | @pruneFailed remote failed remotes here =>
      rcases current here (by simp) with ⟨response, same, trying⟩
      have isAt : response.At (.routing remotes) := trying
      have goesOn := orderly.goOn isAt
      rw [← same] at goesOn
      exact goesOn
  | pruneSent here =>
      rcases current here (by simp) with ⟨response, same, sent⟩
      exact orderly.finish same (Or.inl sent)
  | _ => exact orderly

theorem run {start final : Registries} {history : List (Registries × RegistryEvent)}
    (run : RegistryRun start history final) (orderly : log.Orderly start.response) :
    (history.foldl ResponseLog.record log).Orderly final.response := by
  induction run generalizing log with
  | done => exact orderly
  | step step _ induction => exact induction (orderly.step step)

end ResponseLog.Orderly

/-! ## The connections of a remote -/

variable {registry : ConnectionRegistry} {connection : Connection}
variable {state next : Registries} {event : RegistryEvent}

/-- The remote whose connections are tried, until its failed ones are removed. -/
def ResponsePhase.remote : ResponsePhase → Option String
  | receiving | routing _ => none
  | sending remote _ _ _ | sent remote _ => some remote

/-- Connections are registered, and tried, under their own remotes, those of
greater stable ids first. -/
structure Rooted (state : Registries) : Prop where
  sound : Sound state
  registered : ∀ {remote : String} {stableId : Nat} {connections : ExtTreeMap Nat Connection}
    {connection : Connection}, state.connections[remote]? = some connections →
    connections[stableId]? = some connection → connection.remote = remote
  attempts : ∀ attempt ∈ state.response.attempts,
    state.response.remote = some attempt.2.remote
  greatestFirst : state.response.attempts.Pairwise fun one two => two.1 < one.1

theorem Rooted.initial : Rooted .initial where
  sound := .initial
  registered found := by simp [Registries.initial] at found
  attempts _ member := absurd member List.not_mem_nil
  greatestFirst := List.Pairwise.nil

theorem mem_attempts {remote : String} {attempt : Nat × Connection}
    (member : attempt ∈ state.attempts remote) :
    ∃ connections : ExtTreeMap Nat Connection, state.connections[remote]? = some connections ∧
      connections[attempt.1]? = some attempt.2 := by
  rw [Registries.attempts, List.mem_reverse] at member
  have entry := ExtTreeMap.mem_toList_iff_getElem?_eq_some.mp member
  cases found : state.connections[remote]? with
  | none => simp [found] at entry
  | some connections =>
      rw [found, Option.getD_some] at entry
      exact ⟨connections, rfl, entry⟩

theorem pairwise_attempts (state : Registries) (remote : String) :
    (state.attempts remote).Pairwise fun one two => two.1 < one.1 := by
  rw [Registries.attempts, List.pairwise_reverse]
  exact ExtTreeMap.ordered_keys_toList.imp Nat.compare_eq_lt.mp

theorem Rooted.step (rooted : Rooted state) (step : RegistryStep state event next) :
    Rooted next where
  sound := rooted.sound.step step
  registered := by
    intro remote stableId connections connection found entry
    cases step with
    | accept _ =>
        rcases found_registerConnection found entry with ⟨rfl, rfl, -⟩ | ⟨earlier, found, entry⟩
        · rfl
        · exact rooted.registered found entry
    | unregister _ =>
        rcases found_withoutConnections found entry with ⟨earlier, found, entry⟩
        exact rooted.registered found entry
    | pruneFailed _ | pruneSent _ =>
        rcases found_removeFailed found entry with ⟨earlier, found, entry⟩
        exact rooted.registered found entry
    | _ => exact rooted.registered found entry
  attempts := by
    intro attempt member
    cases step with
    | visitRoute _ =>
        rcases mem_attempts member with ⟨connections, found, entry⟩
        exact congrArg some (rooted.registered found entry).symm
    | sendResponse succeeds here =>
        cases succeeds with
        | true => cases member
        | false =>
            have kept := rooted.attempts attempt
            rw [here] at kept
            exact kept (List.mem_cons_of_mem _ member)
    | receive _ | leaveRoutes _ | pruneFailed _ | pruneSent _ => cases member
    | _ => exact rooted.attempts attempt member
  greatestFirst := by
    have kept := rooted.greatestFirst
    cases step with
    | visitRoute _ => exact pairwise_attempts state _
    | sendResponse succeeds here =>
        rw [here] at kept
        cases succeeds with
        | true => exact List.Pairwise.nil
        | false => exact kept.of_cons
    | receive _ | leaveRoutes _ | pruneFailed _ | pruneSent _ => exact List.Pairwise.nil
    | _ => exact kept

/-! ## Failed connections -/

theorem getElem?_foldl_erase_of_mem {stableId : Nat} {stableIds : List Nat}
    (member : stableId ∈ stableIds) (connections : ExtTreeMap Nat Connection) :
    (stableIds.foldl (fun connections => connections.erase) connections)[stableId]? = none := by
  cases entry : (stableIds.foldl (fun connections => connections.erase) connections)[stableId]? with
  | none => rfl
  | some connection =>
      exfalso
      induction stableIds generalizing connections with
      | nil => cases member
      | cons first rest induction =>
          rcases List.mem_cons.mp member with rfl | later
          · have still : (connections.erase stableId)[stableId]? = some connection :=
              found_foldl_erase entry
            rw [ExtTreeMap.getElem?_erase_self] at still
            cases still
          · exact induction later _ entry

/-- What has failed on a remote is no longer registered under it. -/
theorem not_found_removeFailed {remote : String} {failed : List Nat} {stableId : Nat}
    (member : stableId ∈ failed) {connections : ExtTreeMap Nat Connection}
    (found : (removeFailed registry remote failed)[remote]? = some connections) :
    connections[stableId]? = none := by
  have some : ¬ failed.isEmpty = true := by
    intro empty
    rw [List.isEmpty_iff.mp empty] at member
    cases member
  rw [removeFailed, if_neg some, withoutConnections] at found
  split at found
  · rename_i absent
    rw [absent] at found
    cases found
  · dsimp only at found
    split at found
    · rw [ExtTreeMap.getElem?_erase_self] at found
      cases found
    · rw [ExtTreeMap.getElem?_insert_self] at found
      rw [← Option.some.inj found]
      exact getElem?_foldl_erase_of_mem member _

/-- The connection has failed: it is not to be tried, and its removal has
happened or is to come. -/
structure Failed (connection : Connection) (state : Registries) : Prop where
  rooted : Rooted state
  known : connection ∈ state.known
  untried : ∀ attempt ∈ state.response.attempts, attempt.2 ≠ connection
  removed : ∀ {remote : String} {stableId : Nat} {connections : ExtTreeMap Nat Connection},
    state.connections[remote]? = some connections → connections[stableId]? = some connection →
    connection.stableId ∈ state.response.failed ∧
      state.response.remote = some connection.remote

/-- A send that does not succeed makes its connection fail. -/
theorem Failed.begins (rooted : Rooted state)
    (step : RegistryStep state (.sendResponse connection false) next) :
    Failed connection next where
  rooted := rooted.step step
  known := by
    cases step with
    | sendResponse _ here =>
        have first := rooted.sound.attempts (_, connection) (by rw [here]; exact List.mem_cons_self)
        exact first.1
  untried := by
    intro attempt member same
    have attempts := rooted.sound.attempts
    have greatestFirst := rooted.greatestFirst
    cases step with
    | sendResponse _ here =>
        rw [here] at attempts greatestFirst
        have smaller := List.rel_of_pairwise_cons greatestFirst member
        have own := (attempts attempt (List.mem_cons_of_mem _ member)).2
        have first := (attempts _ List.mem_cons_self).2
        rw [own, same] at smaller
        dsimp only at smaller first
        omega
  removed := by
    intro remote stableId connections found entry
    have attempts := rooted.sound.attempts
    have remotes := rooted.attempts
    cases step with
    | sendResponse _ here =>
        rw [here] at attempts remotes
        have first := (attempts _ List.mem_cons_self).2
        refine ⟨?_, remotes _ List.mem_cons_self⟩
        apply List.mem_append_right
        rw [List.mem_singleton]
        exact first.symm

theorem Failed.untried_step (failed : Failed connection state)
    (step : RegistryStep state event next) :
    ∀ attempt ∈ next.response.attempts, attempt.2 ≠ connection := by
  intro attempt member
  have untried := failed.untried
  cases step with
  | visitRoute here =>
      rcases mem_attempts member with ⟨connections, found, entry⟩
      intro same
      rw [same] at entry
      have pending := (failed.removed found entry).2
      rw [here] at pending
      cases pending
  | sendResponse succeeds here =>
      rw [here] at untried
      cases succeeds with
      | true => cases member
      | false => exact untried attempt (List.mem_cons_of_mem _ member)
  | receive _ | leaveRoutes _ | pruneFailed _ | pruneSent _ => cases member
  | _ => exact untried attempt member

/-- It is never registered again. -/
theorem Failed.step (failed : Failed connection state) (step : RegistryStep state event next) :
    Failed connection next where
  rooted := failed.rooted.step step
  known := step.known_subset failed.known
  untried := failed.untried_step step
  removed := by
    intro remote stableId connections found entry
    cases step with
    | accept unused =>
        rcases found_registerConnection found entry with ⟨rfl, -, -⟩ | ⟨earlier, found, entry⟩
        · exact absurd rfl (unused connection failed.known)
        · exact failed.removed found entry
    | unregister _ =>
        rcases found_withoutConnections found entry with ⟨earlier, found, entry⟩
        exact failed.removed found entry
    | receive here | leaveRoutes here | visitRoute here =>
        have pending := (failed.removed found entry).2
        rw [here] at pending
        cases pending
    | sendResponse succeeds here =>
        rcases failed.removed found entry with ⟨member, pending⟩
        rw [here] at member pending
        cases succeeds with
        | true => exact ⟨member, pending⟩
        | false => exact ⟨List.mem_append_left _ member, pending⟩
    | pruneFailed here | pruneSent here =>
        exfalso
        rcases found_removeFailed found entry with ⟨earlier, foundEarlier, entryEarlier⟩
        rcases failed.removed foundEarlier entryEarlier with ⟨member, pending⟩
        rw [here] at member pending
        have own := failed.rooted.registered foundEarlier entryEarlier
        have sameId := (failed.rooted.sound.registered foundEarlier entryEarlier).2
        have sameRemote := Option.some.inj pending
        rw [← own, ← sameRemote] at found
        have absent := not_found_removeFailed member found
        rw [← sameId, entry] at absent
        cases absent
    | _ => exact failed.removed found entry

theorem Failed.run {start final : Registries} {history : List (Registries × RegistryEvent)}
    (run : RegistryRun start history final) (failed : Failed connection start) :
    ∀ entry ∈ history, ∀ succeeds, entry.2 ≠ .sendResponse connection succeeds := by
  induction run with
  | done => exact List.forall_mem_nil _
  | step step _ induction =>
      rw [List.forall_mem_cons]
      refine ⟨?_, induction (failed.step step)⟩
      rintro succeeds rfl
      have untried := failed.untried
      cases step with
      | sendResponse _ here =>
          rw [here] at untried
          exact untried _ List.mem_cons_self rfl

theorem Rooted.run {start final : Registries} {history : List (Registries × RegistryEvent)}
    (run : RegistryRun start history final) (rooted : Rooted start) : Rooted final := by
  induction run with
  | done => exact rooted
  | step step _ induction => exact induction (rooted.step step)

theorem RegistryRun.split {start final : Registries}
    {earlier later : List (Registries × RegistryEvent)}
    (run : RegistryRun start (earlier ++ later) final) :
    ∃ middle, RegistryRun start earlier middle ∧ RegistryRun middle later final := by
  induction earlier generalizing start with
  | nil => exact ⟨start, .done, run⟩
  | cons entry rest induction =>
      cases run with
      | step step rest =>
          rcases induction rest with ⟨middle, entered, left⟩
          exact ⟨middle, .step step entered, left⟩

/-- A connection on which a send has failed is not tried again. -/
theorem not_tried_of_failed {final : Registries} {earlier later : List (Registries × RegistryEvent)}
    (run : RegistryRun .initial
      (earlier ++ (state, .sendResponse connection false) :: later) final) :
    ∀ entry ∈ later, ∀ succeeds, entry.2 ≠ .sendResponse connection succeeds := by
  rcases run.split with ⟨middle, entered, left⟩
  cases left with
  | step step rest =>
      have rooted := Rooted.initial.run entered
      exact (Failed.begins rooted step).run rest

/-! ## Whole runs -/

/-- The connections of a visited route are its own, those of greater stable ids
first. -/
structure Rightful (visit : String × List (Nat × Connection)) : Prop where
  own : ∀ attempt ∈ visit.2, attempt.2.remote = visit.1
  greatestFirst : (visit.2.map fun attempt => attempt.2.stableId).Pairwise (· > ·)

theorem Rooted.rightful (rooted : Rooted state) (remote : String) :
    Rightful (remote, state.attempts remote) where
  own attempt member := by
    rcases mem_attempts member with ⟨connections, found, entry⟩
    exact rooted.registered found entry
  greatestFirst := by
    have ids : (state.attempts remote).map (fun attempt => attempt.2.stableId) =
        (state.attempts remote).map Prod.fst := by
      apply List.map_congr_left
      intro attempt member
      rcases mem_attempts member with ⟨connections, found, entry⟩
      exact (rooted.sound.registered found entry).2.symm
    rw [ids, List.pairwise_map]
    exact pairwise_attempts state remote

namespace ResponseLog

/-- A step only adds a visit of the route that it visits. -/
theorem mem_visits_record {log : ResponseLog} {response : Response}
    {visit : String × List (Nat × Connection)}
    (member : response ∈ (log.record (state, event)).all) (visited : visit ∈ response.visits) :
    (∃ earlier ∈ log.all, visit ∈ earlier.visits) ∨
      ∃ remote, visit = (remote, state.attempts remote) := by
  have kept {current : Option Response} (isIn : response ∈ log.finished ++ current.toList) :
      response ∈ log.all ∨ current = some response := by
    rcases List.mem_append.mp isIn with earlier | last
    · exact Or.inl (List.mem_append_left _ earlier)
    · exact Or.inr (Option.mem_toList.mp last)
  have known {other : Response} (current : log.current = some other) : other ∈ log.all := by
    rw [all, current]
    exact List.mem_append_right _ List.mem_cons_self
  cases event with
  | receive =>
      rcases kept member with earlier | last
      · exact Or.inl ⟨response, earlier, visited⟩
      · rw [← Option.some.inj last] at visited
        cases visited
  | visitRoute =>
      rw [record] at member
      split at member
      · rename_i remote remotes _
        rcases kept member with earlier | last
        · exact Or.inl ⟨response, earlier, visited⟩
        · rcases Option.map_eq_some_iff.mp last with ⟨other, current, rfl⟩
          rcases List.mem_append.mp visited with before | now
          · exact Or.inl ⟨other, known current, before⟩
          · exact Or.inr ⟨remote, List.mem_singleton.mp now⟩
      · exact Or.inl ⟨response, member, visited⟩
  | sendResponse connection succeeds =>
      rcases kept member with earlier | last
      · exact Or.inl ⟨response, earlier, visited⟩
      · rcases Option.map_eq_some_iff.mp last with ⟨other, current, rfl⟩
        exact Or.inl ⟨other, known current, visited⟩
  | leaveRoutes | pruneSent =>
      rw [record, all, Option.toList_none, List.append_nil] at member
      exact Or.inl ⟨response, member, visited⟩
  | _ => exact Or.inl ⟨response, member, visited⟩

theorem rightful_run {start final : Registries} {history : List (Registries × RegistryEvent)}
    {log : ResponseLog} (run : RegistryRun start history final) (rooted : Rooted start)
    (rightful : ∀ response ∈ log.all, ∀ visit ∈ response.visits, Rightful visit) :
    ∀ response ∈ (history.foldl record log).all, ∀ visit ∈ response.visits, Rightful visit := by
  induction run generalizing log with
  | done => exact rightful
  | @step state next final event history step _ induction =>
      apply induction (rooted.step step)
      intro response member visit visited
      rcases mem_visits_record member visited with ⟨earlier, known, same⟩ | ⟨remote, rfl⟩
      · exact rightful earlier known visit same
      · exact rooted.rightful remote

end ResponseLog

/-- In every interleaving: each response goes to at most one connection, the
connections of its routes are tried in order, and those that fail for good. -/
theorem responses_tried {history : List (Registries × RegistryEvent)} {final : Registries}
    (run : RegistryRun .initial history final) :
    (∀ response ∈ (responseLog history).finished, response.Sent ∨ response.Exhausted) ∧
      (∀ response, (responseLog history).current = some response →
        response.At final.response) ∧
      (∀ response ∈ (responseLog history).all, ∀ visit ∈ response.visits, Rightful visit) ∧
      ∀ earlier state connection later,
        history = earlier ++ (state, .sendResponse connection false) :: later →
        ∀ entry ∈ later, ∀ succeeds, entry.2 ≠ .sendResponse connection succeeds := by
  have orderly := ResponseLog.Orderly.run run .empty
  refine ⟨orderly.finished, ?_, ?_, ?_⟩
  · intro response current
    by_cases idle : final.response = .receiving
    · have none := orderly.idle idle
      rw [responseLog] at current
      rw [none] at current
      cases current
    · rcases orderly.busy idle with ⟨other, same, isAt⟩
      rw [responseLog, same] at current
      rw [← Option.some.inj current]
      exact isAt
  · apply ResponseLog.rightful_run run .initial
    intro response member
    cases member
  · rintro earlier state connection later rfl
    exact not_tried_of_failed run

def secondViewer : Connection := ⟨"viewer", 2⟩

/-- The connection of the greater stable id fails, and the other one takes the
response. -/
theorem responses_tried_viewer :
    ∃ history final, RegistryRun .initial history final ∧
      (∃ entry ∈ history, entry.2 = .sendResponse secondViewer false) ∧
      (∀ response ∈ (responseLog history).finished, response.Sent ∨ response.Exhausted) ∧
      (responseLog history).finished.map Response.tries =
        [[(secondViewer, false), (viewer, true)]] := by
  have unused : Registries.initial.Unused viewer :=
    fun _ member => absurd member (Finset.notMem_empty _)
  have secondUnused {state : Registries} (one : state.known = {viewer}) :
      state.Unused secondViewer := by
    intro other member
    rw [one, Finset.mem_singleton] at member
    rw [member]
    decide
  have run : RegistryRun .initial _ _ :=
    .step (.accept unused) (.step (.accept (secondUnused rfl))
      (.step (.setReplyRoutes [viewer.remote]) (.step (.receive rfl) (.step (.visitRoute rfl)
        (.step (@RegistryStep.sendResponse _ viewer.remote 2 secondViewer [(1, viewer)] [] [] false
          (by decide +kernel)) (.step (@RegistryStep.sendResponse _ viewer.remote 1 viewer [] [2]
            [] true (by decide +kernel)) (.step (@RegistryStep.pruneSent _ viewer.remote [2]
              (by decide +kernel)) .done)))))))
  exact ⟨_, _, run, by simp, (responses_tried run).1, rfl⟩

end Irohsion.Server
