import Irohsion.Client.CacheContents

/-! # The repair cache and its history

What the cache should hold, said from all insertions and accepted requests so
far, and the proof that it holds this at every time.
-/

namespace Irohsion.Client

open Protocol Recency

/-- All that was inserted and all requests that were accepted, newest first. -/
structure CacheHistory where
  inserted : List (Nat × CachedPacket)
  accepted : List (RepairRequest × Instant)

namespace CacheHistory

variable {ttl : Duration} {maxPackets : Nat} {before now : Instant} {history : CacheHistory}

/-- The newest sequences that are young enough, each with what was inserted for
it last. -/
def cached (ttl : Duration) (maxPackets : Nat) (now : Instant) (history : CacheHistory) :
    List (Nat × CachedPacket) :=
  ((latest history.inserted).filter (younger ttl now)).take maxPackets

/-- The newest requests that were accepted recently enough. -/
def recent (maxPackets : Nat) (now : Instant) (history : CacheHistory) :
    List (RepairRequest × Instant) :=
  (history.accepted.filter (withinWindow now)).take (max (maxPackets * 4) 1)

/-! ## Times -/

/-- The times do not increase along the list, from now on. -/
def NewestFirst (now : Instant) (times : List Instant) : Prop :=
  (now :: times).Pairwise fun later earlier => earlier ≤ later

theorem NewestFirst.cons {times : List Instant} (newest : NewestFirst before times)
    (later : before ≤ now) : NewestFirst now (now :: times) := by
  rcases List.pairwise_cons.mp newest with ⟨bounded, sorted⟩
  have atMost : ∀ time ∈ times, time ≤ now :=
    fun time member => Nat.le_trans (bounded time member) later
  apply List.pairwise_cons.mpr
  constructor
  · intro time member
    rcases List.mem_cons.mp member with rfl | member
    · exact Nat.le_refl _
    · exact atMost time member
  · exact List.pairwise_cons.mpr ⟨atMost, sorted⟩

theorem NewestFirst.mono {times : List Instant} (newest : NewestFirst before times)
    (later : before ≤ now) : NewestFirst now times := by
  have sorted := newest.cons later
  rw [NewestFirst, List.pairwise_cons, List.pairwise_cons] at sorted
  exact List.pairwise_cons.mpr sorted.2

/-- What is within a limit now is so at any time before, and with it all that is newer. -/
theorem freshFirst_of_newestFirst {α : Type} {entries : List α} {time : α → Instant}
    (newest : NewestFirst before (entries.map time)) (now : Instant) (limit : Duration) :
    FreshFirst (fun entry => decide ((time entry).elapsed now < limit)) entries := by
  have sorted := (List.pairwise_cons.mp newest).2
  rw [List.pairwise_map] at sorted
  apply sorted.imp
  intro newer older earlier isFresh
  apply decide_eq_true
  exact Nat.lt_of_le_of_lt (Instant.elapsed_anti earlier now) (of_decide_eq_true isFresh)

/-- The calls came one after the other, until now. -/
structure Timed (now : Instant) (history : CacheHistory) : Prop where
  inserted : NewestFirst now (history.inserted.map fun entry => entry.2.storedAt)
  accepted : NewestFirst now (history.accepted.map Prod.snd)

namespace Timed

theorem younger (timed : history.Timed before) (ttl : Duration) (now : Instant) :
    FreshFirst (younger ttl now) history.inserted :=
  freshFirst_of_newestFirst timed.inserted now ttl

theorem withinWindow (timed : history.Timed before) (now : Instant) :
    FreshFirst (withinWindow now) history.accepted :=
  freshFirst_of_newestFirst timed.accepted now repairRequestDedupWindow

theorem mono (timed : history.Timed before) (later : before ≤ now) : history.Timed now :=
  ⟨timed.inserted.mono later, timed.accepted.mono later⟩

end Timed

/-! ## What leaves as time passes -/

theorem dropWhile_cached (timed : history.Timed before) (later : before ≤ now) :
    (history.cached ttl maxPackets before).reverse.dropWhile
      (fun entry => !younger ttl now entry) = (history.cached ttl maxPackets now).reverse := by
  have first := (timed.younger ttl now).sublist (latest_sublist history.inserted)
  rw [cached, ((first.sublist List.filter_sublist).sublist
    (List.take_sublist _ _)).dropWhile_reverse, first.filter_take_filter, cached]
  intro entry young
  apply decide_eq_true
  exact Nat.lt_of_le_of_lt (Instant.elapsed_mono _ later) (of_decide_eq_true young)

theorem dropWhile_recent (timed : history.Timed before) {checked : Instant}
    (later : checked ≤ now) :
    (history.recent maxPackets checked).reverse.dropWhile
      (fun acceptance => !withinWindow now acceptance) =
        (history.recent maxPackets now).reverse := by
  have first := timed.withinWindow now
  rw [recent, ((first.sublist List.filter_sublist).sublist
    (List.take_sublist _ _)).dropWhile_reverse, first.filter_take_filter, recent]
  intro acceptance within
  apply decide_eq_true
  exact Nat.lt_of_le_of_lt (Instant.elapsed_mono _ later) (of_decide_eq_true within)

/-! ## What arrives -/

/-- The history after an insertion. -/
def insert (now : Instant) (sequence : Nat) (fragments : List CachedFragment)
    (history : CacheHistory) : CacheHistory :=
  { history with inserted := (sequence, ⟨fragments, now⟩) :: history.inserted }

/-- The history after a request was accepted. -/
def accept (now : Instant) (request : RepairRequest) (history : CacheHistory) : CacheHistory :=
  { history with accepted := (request, now) :: history.accepted }

theorem cached_insert (lives : 0 < ttl) (room : 0 < maxPackets) (sequence : Nat)
    (fragments : List CachedFragment) :
    (putLast (sequence, ⟨fragments, now⟩)
      (history.cached ttl maxPackets now).reverse).rtake maxPackets =
        ((history.insert now sequence fragments).cached ttl maxPackets now).reverse := by
  have young : younger ttl now (sequence, ⟨fragments, now⟩) = true := by
    apply decide_eq_true
    rw [Instant.elapsed_self]
    exact lives
  have distinct : (((latest history.inserted).filter (younger ttl now)).map Prod.fst).Nodup :=
    (nodup_latest history.inserted).sublist (List.filter_sublist.map Prod.fst)
  rcases Nat.exists_eq_succ_of_ne_zero (Nat.ne_of_gt room) with ⟨others, rfl⟩
  have kept := take_filter_key distinct sequence (others + 1)
  rw [Nat.add_sub_cancel, List.filter_comm] at kept
  rw [List.rtake_eq_reverse_take_reverse, putLast, List.reverse_append, List.filter_reverse,
    List.reverse_reverse, List.reverse_singleton, List.singleton_append, List.take_succ_cons,
    cached, kept, cached, insert, latest, List.filter_cons_of_pos young, List.take_succ_cons]

theorem recent_accept (request : RepairRequest) :
    ((history.recent maxPackets now).reverse ++ [(request, now)]).rtake (max (maxPackets * 4) 1) =
      ((history.accept now request).recent maxPackets now).reverse := by
  have within : withinWindow now (request, now) = true := by
    apply decide_eq_true
    rw [Instant.elapsed_self]
    decide
  have room : 0 < max (maxPackets * 4) 1 := Nat.lt_of_lt_of_le Nat.one_pos (Nat.le_max_right _ _)
  rw [List.rtake_eq_reverse_take_reverse, List.reverse_append, List.reverse_reverse,
    List.reverse_singleton, List.singleton_append, recent, recent, accept,
    List.filter_cons_of_pos within]
  rcases Nat.exists_eq_succ_of_ne_zero (Nat.ne_of_gt room) with ⟨others, limit⟩
  rw [limit, List.take_succ_cons, List.take_succ_cons, List.take_take,
    Nat.min_eq_left (Nat.le_succ others)]

end CacheHistory

/-! ## Runs -/

open RepairCache

/-- Runs of calls, with what was inserted and accepted and the time of the last
call. A sequence that is inserted is not cached at that time or was inserted
last. -/
inductive CacheRun (ttl : Duration) (maxPackets : Nat) :
    CacheHistory → Instant → RepairCache → Prop
  | new (now : Instant) : CacheRun ttl maxPackets ⟨[], []⟩ now (.new ttl maxPackets)
  | insert {history : CacheHistory} {before now : Instant} {cache : RepairCache} {sequence : Nat}
      {fragments : List CachedFragment} :
      CacheRun ttl maxPackets history before cache → before ≤ now → fragments ≠ [] →
      (sequence ∉ (cache.expireLocked now).packets ∨
        history.inserted.head?.map Prod.fst = some sequence) →
      CacheRun ttl maxPackets (history.insert now sequence fragments) now
        (cache.insert now sequence fragments)
  | request {history : CacheHistory} {before now : Instant} {cache next : RepairCache}
      {request : RepairRequest} {answer : List CachedFragment} :
      CacheRun ttl maxPackets history before cache → before ≤ now →
      cache.fragmentsFor now request = some (answer, next) →
      CacheRun ttl maxPackets
        (if cache.accepts now request then history.accept now request else history) now next

variable {ttl : Duration} {maxPackets : Nat} {before now : Instant} {history : CacheHistory}
variable {cache next : RepairCache}

/-- The cache holds what its history says. The requests were checked for their
age when the last request came. -/
structure Refines (ttl : Duration) (maxPackets : Nat) (history : CacheHistory) (now : Instant)
    (cache : RepairCache) : Prop where
  timed : history.Timed now
  contents : ∃ checked ≤ now, Contents ttl maxPackets
    (history.cached ttl maxPackets now).reverse (history.recent maxPackets checked).reverse cache

theorem Refines.new (ttl : Duration) (maxPackets : Nat) (now : Instant) :
    Refines ttl maxPackets ⟨[], []⟩ now (.new ttl maxPackets) where
  timed := ⟨List.pairwise_singleton _ _, List.pairwise_singleton _ _⟩
  contents := by
    refine ⟨now, Nat.le_refl now, ?_⟩
    simpa [CacheHistory.cached, CacheHistory.recent, latest] using Contents.new ttl maxPackets

/-- What was inserted last is cached last, as long as it is young enough. -/
theorem Refines.last_cached (refines : Refines ttl maxPackets history before cache)
    (room : 0 < maxPackets) {sequence : Nat}
    (last : history.inserted.head?.map Prod.fst = some sequence) (now : Instant) :
    sequence ∉ (history.cached ttl maxPackets now).reverse.map Prod.fst ∨
      ∃ front packet,
        (history.cached ttl maxPackets now).reverse = front ++ [(sequence, packet)] := by
  have first := (refines.timed.younger ttl now).sublist (latest_sublist history.inserted)
  rcases history with ⟨_ | ⟨⟨newest, packet⟩, older⟩, accepted⟩
  · cases last
  · have same : newest = sequence := Option.some.inj last
    subst same
    rcases Nat.exists_eq_succ_of_ne_zero (Nat.ne_of_gt room) with ⟨others, rfl⟩
    rw [CacheHistory.cached]
    rw [latest] at first ⊢
    by_cases young : younger ttl now (newest, packet) = true
    · rw [List.filter_cons_of_pos young, List.take_succ_cons, List.reverse_cons]
      exact Or.inr ⟨_, packet, rfl⟩
    · rw [List.filter_cons_of_neg young, first.filter_tail young]
      exact Or.inl List.not_mem_nil

theorem Refines.insert (refines : Refines ttl maxPackets history before cache)
    (lives : 0 < ttl) (room : 0 < maxPackets) (later : before ≤ now) {sequence : Nat}
    {fragments : List CachedFragment} (nonempty : fragments ≠ [])
    (place : sequence ∉ (cache.expireLocked now).packets ∨
      history.inserted.head?.map Prod.fst = some sequence) :
    Refines ttl maxPackets (history.insert now sequence fragments) now
      (cache.insert now sequence fragments) := by
  rcases refines.contents with ⟨checked, past, contents⟩
  refine ⟨⟨refines.timed.inserted.cons later, refines.timed.accepted.mono later⟩,
    checked, Nat.le_trans past later, ?_⟩
  have expired := @CacheHistory.dropWhile_cached ttl maxPackets _ _ _ refines.timed later
  have kept := contents.expireLocked now
  rw [expired] at kept
  rw [← CacheHistory.cached_insert lives room]
  apply contents.insert expired nonempty
  rcases place with absent | last
  · rw [kept.packets.mem_iff, kept.packets.order] at absent
    exact Or.inl absent
  · exact refines.last_cached room last now

/-- Before a request is looked at, the cache holds what is young enough now. -/
theorem Refines.expired (refines : Refines ttl maxPackets history before cache)
    (later : before ≤ now) :
    Contents ttl maxPackets (history.cached ttl maxPackets now).reverse
      (history.recent maxPackets now).reverse (cache.expired now) := by
  rcases refines.contents with ⟨checked, past, contents⟩
  have expired := (contents.expireLocked now).expireRecentRequestsLocked now
  rw [CacheHistory.dropWhile_cached refines.timed later,
    CacheHistory.dropWhile_recent refines.timed (Nat.le_trans past later)] at expired
  exact expired

/-- An accepted request is not one of those that are remembered. -/
theorem Refines.fresh (refines : Refines ttl maxPackets history before cache)
    (later : before ≤ now) {request : RepairRequest}
    (accepted : cache.accepts now request = true) :
    request ∉ (cache.expired now).recentRequests := by
  have expired := refines.expired later
  rw [accepts, Bool.and_eq_true, Bool.not_eq_true'] at accepted
  intro remembered
  rcases Option.isSome_iff_exists.mp (Std.ExtHashMap.mem_iff_isSome_getElem?.mp remembered)
    with ⟨last, found⟩
  have listed := (expired.requests.found request last).mp found
  have within := (List.mem_filter.mp (List.mem_of_mem_take (List.mem_reverse.mp listed))).2
  rw [found, Option.any_some] at accepted
  rw [withinWindow, accepted.2] at within
  cases within

theorem Refines.request (refines : Refines ttl maxPackets history before cache)
    (later : before ≤ now) {request : RepairRequest} {answer : List CachedFragment}
    (answered : cache.fragmentsFor now request = some (answer, next)) :
    Refines ttl maxPackets
      (if cache.accepts now request then history.accept now request else history) now next := by
  have expired := refines.expired later
  cases accepted : cache.accepts now request with
  | false =>
      rw [fragmentsFor_refused accepted] at answered
      cases answered
      exact ⟨refines.timed.mono later, now, Nat.le_refl now, expired⟩
  | true =>
      rcases fragmentsFor_accepted accepted with ⟨packet, -, answers⟩
      rw [answers] at answered
      rcases Option.map_eq_some_iff.mp answered with ⟨_, -, same⟩
      cases same
      refine ⟨⟨refines.timed.inserted.mono later, refines.timed.accepted.cons later⟩,
        now, Nat.le_refl now, ?_⟩
      have noted := expired.noteRequest now (refines.fresh later accepted)
      rw [CacheHistory.recent_accept] at noted
      exact noted

theorem CacheRun.refines (lives : 0 < ttl) (room : 0 < maxPackets)
    (run : CacheRun ttl maxPackets history now cache) :
    Refines ttl maxPackets history now cache := by
  induction run with
  | new now => exact Refines.new ttl maxPackets now
  | insert _ later nonempty place induction =>
      exact induction.insert lives room later nonempty place
  | request _ later answered induction => exact induction.request later answered

/-! ## What the cache answers -/

theorem Refines.found_iff (refines : Refines ttl maxPackets history now cache) (sequence : Nat)
    (packet : CachedPacket) :
    cache.packets[sequence]? = some packet ↔
      (sequence, packet) ∈ history.cached ttl maxPackets now := by
  rcases refines.contents with ⟨checked, -, contents⟩
  rw [← List.mem_reverse]
  exact contents.packets.found sequence packet

theorem Refines.order_eq (refines : Refines ttl maxPackets history now cache) :
    cache.order = ((history.cached ttl maxPackets now).map Prod.fst).reverse := by
  rcases refines.contents with ⟨checked, -, contents⟩
  rw [contents.packets.order, List.map_reverse]

theorem Refines.nodup_order (refines : Refines ttl maxPackets history now cache) :
    cache.order.Nodup := by
  rcases refines.contents with ⟨checked, -, contents⟩
  rw [contents.packets.order]
  exact contents.packets.distinct

/-- What is returned comes from a packet that is young enough. -/
theorem Refines.answer_young (refines : Refines ttl maxPackets history before cache)
    (later : before ≤ now) {request : RepairRequest} {answer : List CachedFragment}
    (answered : cache.fragmentsFor now request = some (answer, next)) :
    ∀ fragment ∈ answer, ∃ packet,
      (request.sequence, packet) ∈ history.cached ttl maxPackets now ∧
        packet.storedAt.elapsed now < ttl ∧ fragment ∈ packet.fragments := by
  intro fragment member
  have expired := refines.expired later
  cases accepted : cache.accepts now request with
  | false =>
      rw [fragmentsFor_refused accepted] at answered
      cases answered
      cases member
  | true =>
      rcases fragmentsFor_accepted accepted with ⟨packet, found, answers⟩
      rw [answers] at answered
      rcases Option.map_eq_some_iff.mp answered with ⟨_, chosen, same⟩
      cases same
      have listed := List.mem_reverse.mp ((expired.packets.found _ packet).mp found)
      have young := (List.mem_filter.mp (List.mem_of_mem_take listed)).2
      exact ⟨packet, listed, of_decide_eq_true young, selected_mem chosen fragment member⟩

/-- A request for a cached packet is left without an answer only as a repeat, or
when it asks for no fragment. -/
theorem Refines.unanswered (refines : Refines ttl maxPackets history before cache)
    (later : before ≤ now) {request : RepairRequest} {packet : CachedPacket}
    (listed : (request.sequence, packet) ∈ history.cached ttl maxPackets now)
    (unanswered : cache.fragmentsFor now request = some ([], next)) :
    (∃ last, (request, last) ∈ history.accepted ∧
      last.elapsed now < repairRequestDedupWindow) ∨
    packet.fragments.length ≠ 1 ∧
      ∀ index < packet.fragments.length, request.missingMask.testBit index = false := by
  have expired := refines.expired later
  have found := (expired.packets.found _ packet).mpr (List.mem_reverse.mpr listed)
  cases accepted : cache.accepts now request with
  | false =>
      left
      rw [accepts, decide_eq_true (OrderedMap.mem_of_getElem? found), Bool.true_and,
        Bool.not_eq_false', Option.any_eq_true] at accepted
      rcases accepted with ⟨last, remembered, within⟩
      have recent := List.mem_reverse.mp ((expired.requests.found request last).mp remembered)
      exact ⟨last, List.mem_of_mem_filter (List.mem_of_mem_take recent),
        of_decide_eq_true within⟩
  | true =>
      right
      rcases fragmentsFor_accepted accepted with ⟨other, foundOther, answers⟩
      have same : packet = other := Option.some.inj (found.symm.trans foundOther)
      subst same
      rw [answers] at unanswered
      rcases Option.map_eq_some_iff.mp unanswered with ⟨answer, chosen, same⟩
      cases same
      exact selected_nil chosen

/-- A request is answered, unless its packet has more fragments than a mask has
bits. -/
theorem Refines.answers (refines : Refines ttl maxPackets history before cache)
    (later : before ≤ now) {request : RepairRequest}
    (few : ∀ packet, (request.sequence, packet) ∈ history.cached ttl maxPackets now →
      packet.fragments.length ≤ 8) :
    (cache.fragmentsFor now request).isSome = true := by
  have expired := refines.expired later
  cases accepted : cache.accepts now request with
  | false =>
      rw [fragmentsFor_refused accepted]
      rfl
  | true =>
      rcases fragmentsFor_accepted accepted with ⟨packet, found, answers⟩
      have listed := List.mem_reverse.mp ((expired.packets.found _ packet).mp found)
      rw [answers, Option.isSome_map, selected]
      split
      · rfl
      · rw [requestedFragments, if_neg (Nat.not_lt_of_ge (few packet listed))]
        rfl

theorem Refines.requests_bounded (refines : Refines ttl maxPackets history now cache)
    (room : 0 < maxPackets) :
    (∀ request, request ∈ cache.recentRequests ↔ request ∈ cache.requestOrder) ∧
      cache.requestOrder.Nodup ∧ cache.requestOrder.length ≤ 4 * maxPackets ∧
      cache.recentRequests.size ≤ 4 * maxPackets := by
  rcases refines.contents with ⟨checked, -, contents⟩
  have bound : (history.recent maxPackets checked).reverse.length ≤ 4 * maxPackets := by
    rw [List.length_reverse, CacheHistory.recent, List.length_take]
    omega
  have distinct := contents.requests.distinct
  rw [← contents.requests.order] at distinct
  refine ⟨fun request => contents.requests.mem_iff, distinct, ?_, ?_⟩
  · rw [contents.requests.order, List.length_map]
    exact bound
  · rw [contents.requests.size]
    exact bound

/-- After any run the cache holds the newest packets that are young enough,
oldest first, returns nothing that is too old, refuses only repeats and empty
masks, and remembers a bounded number of requests. -/
theorem repairCache_refines (lives : 0 < ttl) (room : 0 < maxPackets)
    (run : CacheRun ttl maxPackets history now cache) :
    (∀ sequence packet, cache.packets[sequence]? = some packet ↔
      (sequence, packet) ∈ history.cached ttl maxPackets now) ∧
    (cache.order = ((history.cached ttl maxPackets now).map Prod.fst).reverse ∧
      cache.order.Nodup) ∧
    (∀ later request, now ≤ later →
      ((∀ packet, (request.sequence, packet) ∈ history.cached ttl maxPackets later →
        packet.fragments.length ≤ 8) → (cache.fragmentsFor later request).isSome = true) ∧
      ∀ answer next, cache.fragmentsFor later request = some (answer, next) →
        (∀ fragment ∈ answer, ∃ packet,
          (request.sequence, packet) ∈ history.cached ttl maxPackets later ∧
            packet.storedAt.elapsed later < ttl ∧ fragment ∈ packet.fragments) ∧
        (∀ packet, (request.sequence, packet) ∈ history.cached ttl maxPackets later →
          answer = [] →
          (∃ last, (request, last) ∈ history.accepted ∧
            last.elapsed later < repairRequestDedupWindow) ∨
          packet.fragments.length ≠ 1 ∧
            ∀ index < packet.fragments.length, request.missingMask.testBit index = false)) ∧
    (∀ request, request ∈ cache.recentRequests ↔ request ∈ cache.requestOrder) ∧
      cache.requestOrder.Nodup ∧ cache.requestOrder.length ≤ 4 * maxPackets ∧
      cache.recentRequests.size ≤ 4 * maxPackets := by
  have refines := run.refines lives room
  refine ⟨refines.found_iff, ⟨refines.order_eq, refines.nodup_order⟩, ?_,
    refines.requests_bounded room⟩
  intro later request past
  refine ⟨refines.answers past, ?_⟩
  intro answer next answered
  constructor
  · exact refines.answer_young past answered
  · rintro packet listed rfl
    exact refines.unanswered past listed answered

/-- A split packet, and its rescue copy after it. -/
theorem repairCache_refines_rescue :
    ∃ history cache, CacheRun 20 1 history 5 cache ∧
      cache.packets[7]? = some ⟨[⟨[1, 2], 2⟩], 5⟩ ∧ cache.order = [7] := by
  have fresh : 7 ∉ ((RepairCache.new 20 1).expireLocked 0).packets := by
    simp [RepairCache.new, expireLocked, BreakLoop.run, expireStep]
  have split : CacheRun 20 1 (CacheHistory.insert 0 7 [⟨[1], 1⟩, ⟨[2], 1⟩] ⟨[], []⟩) 0
      ((RepairCache.new 20 1).insert 0 7 [⟨[1], 1⟩, ⟨[2], 1⟩]) :=
    .insert (.new 0) (Nat.le_refl 0) (List.cons_ne_nil _ _) (Or.inl fresh)
  have rescued : CacheRun 20 1
      (CacheHistory.insert 5 7 [⟨[1, 2], 2⟩]
        (CacheHistory.insert 0 7 [⟨[1], 1⟩, ⟨[2], 1⟩] ⟨[], []⟩)) 5
      (((RepairCache.new 20 1).insert 0 7 [⟨[1], 1⟩, ⟨[2], 1⟩]).insert 5 7 [⟨[1, 2], 2⟩]) :=
    .insert split (Nat.zero_le 5) (List.cons_ne_nil _ _) (Or.inr rfl)
  rcases repairCache_refines (by decide) (by decide) rescued with ⟨found, ⟨order, -⟩, -⟩
  refine ⟨_, _, rescued, (found 7 _).mpr ?_, order⟩
  exact List.mem_singleton_self _

end Irohsion.Client
