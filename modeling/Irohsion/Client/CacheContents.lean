import Irohsion.Client.RepairCache
import Irohsion.Foundation.RecencyQueue

/-! # The contents of the repair cache

The cached packets and the requests that are remembered, as lists with the
oldest first, and what each operation of the cache does to the two lists.
-/

namespace Irohsion.Client

open Protocol Std Recency

/-- The packet is younger than the time to live. -/
def younger (ttl : Duration) (now : Instant) (entry : Nat × CachedPacket) : Bool :=
  decide (entry.2.storedAt.elapsed now < ttl)

/-- The request was accepted so recently that it is not answered again. -/
def withinWindow (now : Instant) (acceptance : RepairRequest × Instant) : Bool :=
  decide (acceptance.2.elapsed now < repairRequestDedupWindow)

namespace RepairCache

/-- The cache holds the packets and remembers the requests, oldest first. -/
structure Contents (ttl : Duration) (maxPackets : Nat) (packets : List (Nat × CachedPacket))
    (requests : List (RepairRequest × Instant)) (cache : RepairCache) : Prop where
  ttl : cache.ttl = ttl
  maxPackets : cache.maxPackets = maxPackets
  packets : TreeLists cache.order cache.packets packets
  requests : HashLists cache.requestOrder cache.recentRequests requests

variable {ttl : Duration} {maxPackets : Nat} {packets : List (Nat × CachedPacket)}
variable {requests : List (RepairRequest × Instant)} {cache : RepairCache}

namespace Contents

theorem new (ttl : Duration) (maxPackets : Nat) :
    Contents ttl maxPackets [] [] (.new ttl maxPackets) where
  ttl := rfl
  maxPackets := rfl
  packets := ⟨rfl, by simp [RepairCache.new], by simp [RepairCache.new], List.nodup_nil⟩
  requests := ⟨rfl, by simp [RepairCache.new], by simp [RepairCache.new], List.nodup_nil⟩

/-! ## Packets leave -/

theorem popPacket {head : Nat × CachedPacket} {rest : List (Nat × CachedPacket)}
    (contents : Contents ttl maxPackets (head :: rest) requests cache) :
    Contents ttl maxPackets rest requests
      { cache with
        order := rest.map Prod.fst
        packets := cache.packets.erase head.1 } := by
  have popped := contents.packets.pop
  rw [contents.packets.order] at popped
  exact ⟨contents.ttl, contents.maxPackets, popped, contents.requests⟩

theorem expireStep_cons {head : Nat × CachedPacket} {tail : List (Nat × CachedPacket)}
    (contents : Contents ttl maxPackets (head :: tail) requests cache) (now : Instant) :
    expireStep now cache =
      if younger ttl now head then .done cache
      else .yield { cache with
        order := tail.map Prod.fst
        packets := cache.packets.erase head.1 } := by
  have found : cache.packets[head.1]? = some head.2 := contents.packets.head
  rw [expireStep, contents.packets.order, List.map_cons]
  dsimp only
  rw [found, Option.all_some, contents.ttl, younger]
  by_cases young : head.2.storedAt.elapsed now < ttl
  · rw [if_neg (by simpa using young), if_pos (decide_eq_true young)]
  · rw [if_pos (by simpa using young), if_neg (by simpa using young)]

theorem expireLocked (contents : Contents ttl maxPackets packets requests cache)
    (now : Instant) :
    Contents ttl maxPackets (packets.dropWhile fun entry => !younger ttl now entry) requests
      (cache.expireLocked now) := by
  apply @run_dropWhile _ _ _ (fun cache packets => Contents ttl maxPackets packets requests cache)
  · intro cache contents
    rw [expireStep, contents.packets.order, List.map_nil]
  · intro cache head tail contents young
    rw [contents.expireStep_cons, if_pos (by simpa using young)]
  · intro cache head tail contents old
    rw [contents.expireStep_cons, if_neg (by simpa using old)]
    exact ⟨_, rfl, contents.popPacket⟩
  · exact contents
  · rw [contents.packets.order, List.length_map]
    exact Nat.lt_succ_self _

theorem enforceLimitLocked (contents : Contents ttl maxPackets packets requests cache) :
    Contents ttl maxPackets (packets.rtake maxPackets) requests
      cache.enforceLimitLocked := by
  apply @run_rtake _ _ _ (fun cache packets => Contents ttl maxPackets packets requests cache)
  · intro cache packets contents within
    rw [← contents.packets.size, ← contents.maxPackets] at within
    exact if_pos within
  · intro cache head tail contents beyond
    rw [← contents.packets.size, ← contents.maxPackets] at beyond
    rw [enforceLimitStep, if_neg (Nat.not_le_of_gt beyond), contents.packets.order]
    exact ⟨_, rfl, contents.popPacket⟩
  · exact contents
  · rw [contents.packets.order, List.length_map]
    exact Nat.lt_succ_self _

/-! ## Requests leave -/

theorem popRequest {head : RepairRequest × Instant} {rest : List (RepairRequest × Instant)}
    (contents : Contents ttl maxPackets packets (head :: rest) cache) :
    Contents ttl maxPackets packets rest
      { cache with
        requestOrder := rest.map Prod.fst
        recentRequests := cache.recentRequests.erase head.1 } := by
  have popped := contents.requests.pop
  rw [contents.requests.order] at popped
  exact ⟨contents.ttl, contents.maxPackets, contents.packets, popped⟩

theorem expireRequestStep_cons {head : RepairRequest × Instant}
    {tail : List (RepairRequest × Instant)}
    (contents : Contents ttl maxPackets packets (head :: tail) cache) (now : Instant) :
    expireRequestStep now cache =
      if withinWindow now head then .done cache
      else .yield { cache with
        requestOrder := tail.map Prod.fst
        recentRequests := cache.recentRequests.erase head.1 } := by
  have found : cache.recentRequests[head.1]? = some head.2 := contents.requests.head
  rw [expireRequestStep, contents.requests.order, List.map_cons]
  dsimp only
  rw [found, Option.all_some, withinWindow]
  by_cases recent : head.2.elapsed now < repairRequestDedupWindow
  · rw [if_neg (by simpa using recent), if_pos (decide_eq_true recent)]
  · rw [if_pos (by simpa using recent), if_neg (by simpa using recent)]

theorem expireRecentRequestsLocked (contents : Contents ttl maxPackets packets requests cache)
    (now : Instant) :
    Contents ttl maxPackets packets
      (requests.dropWhile fun acceptance => !withinWindow now acceptance)
      (cache.expireRecentRequestsLocked now) := by
  apply @run_dropWhile _ _ _ (fun cache requests => Contents ttl maxPackets packets requests cache)
  · intro cache contents
    rw [expireRequestStep, contents.requests.order, List.map_nil]
  · intro cache head tail contents recent
    rw [contents.expireRequestStep_cons, if_pos (by simpa using recent)]
  · intro cache head tail contents old
    rw [contents.expireRequestStep_cons, if_neg (by simpa using old)]
    exact ⟨_, rfl, contents.popRequest⟩
  · exact contents
  · rw [contents.requests.order, List.length_map]
    exact Nat.lt_succ_self _

theorem enforceRecentRequestLimitLocked
    (contents : Contents ttl maxPackets packets requests cache) :
    Contents ttl maxPackets packets (requests.rtake (max (maxPackets * 4) 1))
      cache.enforceRecentRequestLimitLocked := by
  apply @run_rtake _ _ _ (fun cache requests => Contents ttl maxPackets packets requests cache)
  · intro cache requests contents within
    rw [← contents.requests.size, ← contents.maxPackets] at within
    exact if_pos within
  · intro cache head tail contents beyond
    rw [← contents.requests.size, ← contents.maxPackets] at beyond
    rw [enforceRequestStep, if_neg (Nat.not_le_of_gt beyond), contents.requests.order]
    exact ⟨_, rfl, contents.popRequest⟩
  · exact contents
  · rw [contents.requests.order, List.length_map]
    exact Nat.lt_succ_self _

/-! ## Packets and requests arrive -/

/-- A new sequence goes to the end of the queue, and the one inserted last stays there. -/
theorem insert (contents : Contents ttl maxPackets packets requests cache) {now : Instant}
    {sequence : Nat} {fragments : List CachedFragment} {kept : List (Nat × CachedPacket)}
    (expired : (packets.dropWhile fun entry => !younger ttl now entry) = kept)
    (nonempty : fragments ≠ [])
    (place : sequence ∉ kept.map Prod.fst ∨ ∃ front packet, kept = front ++ [(sequence, packet)]) :
    Contents ttl maxPackets ((putLast (sequence, ⟨fragments, now⟩) kept).rtake maxPackets) requests
      (cache.insert now sequence fragments) := by
  have before := contents.expireLocked now
  rw [expired] at before
  have some : ¬ fragments.isEmpty = true := by simpa using nonempty
  rw [RepairCache.insert, if_neg some]
  dsimp only
  apply enforceLimitLocked
  refine ⟨before.ttl, before.maxPackets, ?_, before.requests⟩
  by_cases there : sequence ∈ (cache.expireLocked now).packets
  · rw [if_pos there]
    have listed := before.packets.mem_iff.mp there
    rw [before.packets.order] at listed
    rcases place with absent | ⟨front, packet, rfl⟩
    · exact absurd listed absent
    · rw [putLast_of_last before.packets.distinct]
      exact before.packets.refresh
  · rw [if_neg there]
    have absent := mt before.packets.mem_iff.mpr there
    rw [before.packets.order] at absent
    rw [putLast_of_absent absent]
    exact before.packets.push there

theorem noteRequest (contents : Contents ttl maxPackets packets requests cache) (now : Instant)
    {request : RepairRequest} (fresh : request ∉ cache.recentRequests) :
    Contents ttl maxPackets packets
      ((requests ++ [(request, now)]).rtake (max (maxPackets * 4) 1))
      (cache.noteRequest now request) := by
  rw [RepairCache.noteRequest, if_neg fresh]
  apply enforceRecentRequestLimitLocked
  exact ⟨contents.ttl, contents.maxPackets, contents.packets, contents.requests.push fresh⟩

end Contents

/-! ## Answers -/

/-- The cache as `fragments_for` sees it, without what is too old. -/
def expired (now : Instant) (cache : RepairCache) : RepairCache :=
  (cache.expireLocked now).expireRecentRequestsLocked now

instance repairRequestEquivBEq : EquivBEq RepairRequest := inferInstance

instance repairRequestLawfulHashable : LawfulHashable RepairRequest := inferInstance

/-- The request is for a cached packet and does not repeat one too soon, so that
it is noted. -/
def accepts (now : Instant) (request : RepairRequest) (cache : RepairCache) : Bool :=
  decide (request.sequence ∈ (cache.expired now).packets) &&
    !(cache.expired now).recentRequests[request]?.any fun last =>
      decide (last.elapsed now < repairRequestDedupWindow)

/-- The fragments that the request asks for. -/
def selected (missingMask : Nat) (fragments : List CachedFragment) :
    Option (List CachedFragment) :=
  if fragments.length = 1 then some fragments else requestedFragments missingMask fragments

theorem selected_mem {missingMask : Nat} {fragments answer : List CachedFragment}
    (answered : selected missingMask fragments = some answer) :
    ∀ fragment ∈ answer, fragment ∈ fragments := by
  rw [selected] at answered
  split at answered
  · cases answered
    exact fun _ member => member
  · rw [requestedFragments] at answered
    split at answered
    · cases answered
    · cases answered
      intro fragment member
      rcases List.mem_map.mp member with ⟨indexed, kept, rfl⟩
      rw [← List.zipIdx_map_fst 0 fragments]
      exact List.mem_map_of_mem (List.mem_of_mem_filter kept)

/-- Only a mask without the bit of any fragment selects nothing. -/
theorem selected_nil {missingMask : Nat} {fragments : List CachedFragment}
    (nothing : selected missingMask fragments = some []) :
    fragments.length ≠ 1 ∧ ∀ index < fragments.length, missingMask.testBit index = false := by
  rw [selected] at nothing
  split at nothing
  · rename_i single
    cases nothing
    cases single
  · rename_i several
    refine ⟨several, ?_⟩
    intro index inside
    rw [requestedFragments] at nothing
    split at nothing
    · cases nothing
    · have none := List.map_eq_nil_iff.mp (Option.some.inj nothing)
      have unset := List.filter_eq_nil_iff.mp none (fragments.get ⟨index, inside⟩, index)
        (List.mk_mem_zipIdx_iff_getElem?.mpr (List.getElem?_eq_getElem inside))
      exact Bool.eq_false_iff.mpr unset

theorem fragmentsFor_accepted {now : Instant} {request : RepairRequest}
    (accepted : cache.accepts now request = true) :
    ∃ packet, (cache.expired now).packets[request.sequence]? = some packet ∧
      cache.fragmentsFor now request = (selected request.missingMask packet.fragments).map
        (·, (cache.expired now).noteRequest now request) := by
  rw [accepts, Bool.and_eq_true, decide_eq_true_iff, Bool.not_eq_true'] at accepted
  rcases OrderedMap.mem_iff_getElem?.mp accepted.1 with ⟨packet, found⟩
  refine ⟨packet, found, ?_⟩
  have fresh := accepted.2
  rw [expired] at found fresh
  rw [fragmentsFor]
  dsimp only
  rw [found]
  dsimp only
  rw [fresh, if_neg Bool.false_ne_true, selected, expired]
  split <;> rfl

theorem fragmentsFor_refused {now : Instant} {request : RepairRequest}
    (refused : cache.accepts now request = false) :
    cache.fragmentsFor now request = some ([], cache.expired now) := by
  rw [fragmentsFor]
  dsimp only
  cases found : (cache.expired now).packets[request.sequence]? with
  | none =>
      rw [expired] at found
      rw [found]
      rfl
  | some packet =>
      have present := OrderedMap.mem_of_getElem? found
      rw [accepts, decide_eq_true present, Bool.true_and, Bool.not_eq_false'] at refused
      rw [expired] at found refused
      rw [found]
      exact if_pos refused

end RepairCache

end Irohsion.Client
