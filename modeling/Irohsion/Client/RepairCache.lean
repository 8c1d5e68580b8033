import Irohsion.Foundation.BreakLoop
import Irohsion.Foundation.Clock
import Irohsion.Foundation.OrderedMap
import Irohsion.Protocol.RepairRequest
import Std.Data.ExtHashMap

/-! # The repair cache

The packets that were sent last, kept for repair requests. Entries leave when
they are too old or too many, and a request that repeats too soon is not
answered.
-/

namespace Irohsion.Client

open Protocol Std

deriving instance Hashable for RepairRequest

/-- 10 ms, where a tick of the clock is a millisecond. -/
def repairRequestDedupWindow : Duration := 10

structure CachedFragment where
  packet : Bytes
  payloadLen : Nat
  deriving DecidableEq, Repr

structure CachedPacket where
  fragments : List CachedFragment
  storedAt : Instant

structure RepairCache where
  ttl : Duration
  maxPackets : Nat
  packets : ExtTreeMap Nat CachedPacket
  order : List Nat
  recentRequests : ExtHashMap RepairRequest Instant
  requestOrder : List RepairRequest

namespace RepairCache

def new (ttl : Duration) (maxPackets : Nat) : RepairCache := ⟨ttl, maxPackets, ∅, [], ∅, []⟩

def expireStep (now : Instant) (cache : RepairCache) : ForInStep RepairCache :=
  match cache.order with
  | [] => .done cache
  | sequence :: rest =>
      if cache.packets[sequence]?.all fun packet => cache.ttl ≤ packet.storedAt.elapsed now then
        .yield { cache with order := rest, packets := cache.packets.erase sequence }
      else .done cache

def expireLocked (now : Instant) (cache : RepairCache) : RepairCache :=
  BreakLoop.run (expireStep now) (cache.order.length + 1) cache

def enforceLimitStep (cache : RepairCache) : ForInStep RepairCache :=
  if cache.packets.size ≤ cache.maxPackets then .done cache
  else
    match cache.order with
    | [] => .done cache
    | sequence :: rest =>
        .yield { cache with order := rest, packets := cache.packets.erase sequence }

def enforceLimitLocked (cache : RepairCache) : RepairCache :=
  BreakLoop.run enforceLimitStep (cache.order.length + 1) cache

def insert (now : Instant) (sequence : Nat) (fragments : List CachedFragment)
    (cache : RepairCache) : RepairCache :=
  if fragments.isEmpty then cache
  else
    let cache := cache.expireLocked now
    let order :=
      if sequence ∈ cache.packets then cache.order else cache.order ++ [sequence]
    enforceLimitLocked
      { cache with order := order, packets := cache.packets.insert sequence ⟨fragments, now⟩ }

def expireRequestStep (now : Instant) (cache : RepairCache) : ForInStep RepairCache :=
  match cache.requestOrder with
  | [] => .done cache
  | request :: rest =>
      if cache.recentRequests[request]?.all fun last =>
          repairRequestDedupWindow ≤ last.elapsed now then
        .yield
          { cache with
            requestOrder := rest
            recentRequests := cache.recentRequests.erase request }
      else .done cache

def expireRecentRequestsLocked (now : Instant) (cache : RepairCache) : RepairCache :=
  BreakLoop.run (expireRequestStep now) (cache.requestOrder.length + 1) cache

def enforceRequestStep (cache : RepairCache) : ForInStep RepairCache :=
  if cache.recentRequests.size ≤ max (cache.maxPackets * 4) 1 then .done cache
  else
    match cache.requestOrder with
    | [] => .done cache
    | request :: rest =>
        .yield
          { cache with
            requestOrder := rest
            recentRequests := cache.recentRequests.erase request }

def enforceRecentRequestLimitLocked (cache : RepairCache) : RepairCache :=
  BreakLoop.run enforceRequestStep (cache.requestOrder.length + 1) cache

def noteRequest (now : Instant) (request : RepairRequest) (cache : RepairCache) : RepairCache :=
  let order :=
    if request ∈ cache.recentRequests then cache.requestOrder
    else cache.requestOrder ++ [request]
  enforceRecentRequestLimitLocked
    { cache with
      requestOrder := order
      recentRequests := cache.recentRequests.insert request now }

/-- The fragments whose bit is set in the mask, which is a `u8`: a shift by
eight or more panics. -/
def requestedFragments (missingMask : Nat) (fragments : List CachedFragment) :
    Option (List CachedFragment) :=
  if 8 < fragments.length then none
  else some ((fragments.zipIdx.filter fun (_, index) => missingMask.testBit index).map Prod.fst)

def fragmentsFor (now : Instant) (request : RepairRequest) (cache : RepairCache) :
    Option (List CachedFragment × RepairCache) :=
  let cache := (cache.expireLocked now).expireRecentRequestsLocked now
  match cache.packets[request.sequence]? with
  | none => some ([], cache)
  | some packet =>
      if cache.recentRequests[request]?.any fun last =>
          last.elapsed now < repairRequestDedupWindow then
        some ([], cache)
      else
        let noted := cache.noteRequest now request
        if packet.fragments.length = 1 then some (packet.fragments, noted)
        else (requestedFragments request.missingMask packet.fragments).map (·, noted)

/-! ## The loops leave by `break` -/

theorem expireLocked_breaks (now : Instant) (cache : RepairCache) :
    BreakLoop.run? (expireStep now) (cache.order.length + 1) cache =
      some (cache.expireLocked now) := by
  apply BreakLoop.run?_queue order
  intro cache next yields
  rw [expireStep] at yields
  split at yields
  · cases yields
  · rename_i queued
    split at yields
    · cases yields
      simp [queued]
    · cases yields

theorem enforceLimitLocked_breaks (cache : RepairCache) :
    BreakLoop.run? enforceLimitStep (cache.order.length + 1) cache =
      some cache.enforceLimitLocked := by
  apply BreakLoop.run?_queue order
  intro cache next yields
  rw [enforceLimitStep] at yields
  split at yields
  · cases yields
  · split at yields
    · cases yields
    · rename_i queued
      cases yields
      simp [queued]

theorem expireRecentRequestsLocked_breaks (now : Instant) (cache : RepairCache) :
    BreakLoop.run? (expireRequestStep now) (cache.requestOrder.length + 1) cache =
      some (cache.expireRecentRequestsLocked now) := by
  apply BreakLoop.run?_queue requestOrder
  intro cache next yields
  rw [expireRequestStep] at yields
  split at yields
  · cases yields
  · rename_i queued
    split at yields
    · cases yields
      simp [queued]
    · cases yields

theorem enforceRecentRequestLimitLocked_breaks (cache : RepairCache) :
    BreakLoop.run? enforceRequestStep (cache.requestOrder.length + 1) cache =
      some cache.enforceRecentRequestLimitLocked := by
  apply BreakLoop.run?_queue requestOrder
  intro cache next yields
  rw [enforceRequestStep] at yields
  split at yields
  · cases yields
  · split at yields
    · cases yields
    · rename_i queued
      cases yields
      simp [queued]

/-! ## What the cache holds -/

/-- Every cached fragment belongs to the sequence that it is stored under. -/
def Holds (Belongs : Nat → Bytes → Prop) (cache : RepairCache) : Prop :=
  ∀ (sequence : Nat) (packet : CachedPacket), cache.packets[sequence]? = some packet →
    packet.fragments.length ≤ maxFragments ∧
      ∀ fragment ∈ packet.fragments, Belongs sequence fragment.packet

variable {Belongs : Nat → Bytes → Prop} {cache : RepairCache}

theorem Holds.new (ttl : Duration) (maxPackets : Nat) : Holds Belongs (.new ttl maxPackets) := by
  intro sequence packet found
  simp [RepairCache.new] at found

/-- Removing packets keeps what is held. -/
theorem Holds.erase (holds : cache.Holds Belongs) (order : List Nat) (sequence : Nat) :
    Holds Belongs { cache with order := order, packets := cache.packets.erase sequence } :=
  fun other packet found => holds other packet (OrderedMap.getElem?_erase_eq_some.mp found).2

theorem Holds.expireLocked (holds : cache.Holds Belongs) (now : Instant) :
    (cache.expireLocked now).Holds Belongs := by
  apply BreakLoop.run_invariant _ _ _ holds
  intro cache holds
  rw [expireStep]
  split
  · exact holds
  · split
    · exact holds.erase _ _
    · exact holds

theorem Holds.insert (holds : cache.Holds Belongs) (now : Instant) {sequence : Nat}
    {fragments : List CachedFragment} (few : fragments.length ≤ maxFragments)
    (belong : ∀ fragment ∈ fragments, Belongs sequence fragment.packet) :
    (cache.insert now sequence fragments).Holds Belongs := by
  rw [RepairCache.insert]
  split
  · exact holds
  · apply BreakLoop.run_invariant
    · intro cache holds
      rw [enforceLimitStep]
      split
      · exact holds
      · split
        · exact holds
        · exact holds.erase _ _
    · intro other packet found
      rcases OrderedMap.getElem?_insert_eq_some found with ⟨rfl, rfl⟩ | earlier
      · exact ⟨few, belong⟩
      · exact holds.expireLocked now other packet earlier

theorem expireRecentRequestsLocked_packets (now : Instant) (cache : RepairCache) :
    (cache.expireRecentRequestsLocked now).packets = cache.packets := by
  apply BreakLoop.run_unchanged RepairCache.packets
  intro cache
  rw [expireRequestStep]
  split
  · rfl
  · split <;> rfl

theorem noteRequest_packets (now : Instant) (request : RepairRequest) (cache : RepairCache) :
    (cache.noteRequest now request).packets = cache.packets := by
  apply BreakLoop.run_unchanged RepairCache.packets
  intro cache
  rw [enforceRequestStep]
  split
  · rfl
  · split <;> rfl

theorem requestedFragments_spec (missingMask : Nat) {fragments : List CachedFragment}
    (few : fragments.length ≤ maxFragments) :
    ∃ requested, requestedFragments missingMask fragments = some requested ∧
      ∀ fragment ∈ requested, fragment ∈ fragments := by
  have noOverflow : ¬ 8 < fragments.length := by
    have bound : maxFragments < 8 := by decide
    omega
  refine ⟨_, if_neg noOverflow, ?_⟩
  intro fragment member
  rcases List.mem_map.mp member with ⟨indexed, kept, rfl⟩
  have indexedMember := List.mem_of_mem_filter kept
  rw [← List.zipIdx_map_fst 0 fragments]
  exact List.mem_map_of_mem indexedMember

/-- A request never panics, and is answered with what is held. -/
theorem Holds.fragmentsFor (holds : cache.Holds Belongs) (now : Instant)
    (request : RepairRequest) :
    ∃ fragments next, cache.fragmentsFor now request = some (fragments, next) ∧
      next.Holds Belongs ∧
      ∀ fragment ∈ fragments, Belongs request.sequence fragment.packet := by
  have expired : ((cache.expireLocked now).expireRecentRequestsLocked now).Holds Belongs := by
    intro sequence packet found
    rw [expireRecentRequestsLocked_packets] at found
    exact holds.expireLocked now sequence packet found
  have noted : (((cache.expireLocked now).expireRecentRequestsLocked now).noteRequest now
      request).Holds Belongs := by
    intro sequence packet found
    rw [noteRequest_packets] at found
    exact expired sequence packet found
  rw [RepairCache.fragmentsFor]
  dsimp only
  cases found :
      ((cache.expireLocked now).expireRecentRequestsLocked now).packets[request.sequence]? with
  | none => exact ⟨[], _, rfl, expired, nofun⟩
  | some packet =>
      rcases expired _ _ found with ⟨few, belong⟩
      dsimp only
      split
      · exact ⟨[], _, rfl, expired, nofun⟩
      · split
        · exact ⟨packet.fragments, _, rfl, noted, belong⟩
        · rcases requestedFragments_spec request.missingMask few with
            ⟨requested, answered, members⟩
          refine ⟨requested, _, ?_, noted, fun fragment member =>
            belong fragment (members fragment member)⟩
          rw [answered]
          rfl

end RepairCache

end Irohsion.Client
