import Irohsion.Foundation.SpacedKeys
import Irohsion.Server.FecStores
import Irohsion.Server.TimelyRounds

/-! # Payloads that are still cached

The payload cache drops its oldest entry when it is full. While only few positions
are sent within the reorder delay, the dropped positions are far behind, so what is
settled and recent is cached.
-/

namespace Irohsion.Server

open Protocol Std Queued

/-- At most `width` positions are under way at a time, and the cache has room for
them and for the groups they belong to. -/
structure Pace (config : ReorderConfig) (schedule : Schedule) (width : Nat) : Prop where
  rate : ∀ sequence, sequence + width ≤ schedule.last →
    schedule.sentAt sequence + config.maxReorderDelay < schedule.sentAt (sequence + width)
  remembered : 2 * width + maxFecGroupPackets ≤ fecPayloadTrackLimit

/-- How far behind the sender the cache reaches. -/
def reach (width : Nat) : Nat := fecPayloadTrackLimit - width

variable {config : ReorderConfig} {broadcast : Broadcast} {schedule : Schedule}
variable {first width : Nat} {since now : Instant} {state before after : ReorderState}

theorem Pace.width_le (pace : Pace config schedule width) : width ≤ reach width := by
  have room := pace.remembered
  rw [reach]
  omega

theorem Pace.bound (pace : Pace config schedule width) :
    width < fecPayloadTrackLimit ∧ reach width + width = fecPayloadTrackLimit := by
  have room := pace.remembered
  rw [reach]
  have positive : 0 < maxFecGroupPackets := by decide
  omega

/-- What is sent is at most `width` ahead of a position that is not due. -/
theorem Pace.narrow (pace : Pace config schedule width) {position sequence : Nat}
    (early : now < schedule.sentAt position + config.maxReorderDelay)
    (sent : schedule.Sent now sequence) : sequence < position + width := by
  by_contra ahead
  have ahead := Nat.le_of_not_lt ahead
  have rate := pace.rate position (Nat.le_trans ahead sent.1)
  exact absurd (Nat.lt_trans early rate) (Nat.not_lt.mpr (sent.earlier ahead).2)

/-- The cache holds what is settled and not too far behind. -/
structure Remembers (broadcast : Broadcast) (first width : Nat) (now : Instant)
    (state : ReorderState) : Prop where
  narrow : ∀ sequence, broadcast.Sent now sequence → sequence < state.nextSeq + width
  aged : ∃ arrivals, state.fecState.payloadStore.Aged arrivals
  bounded : state.fecState.payloadOrder.length ≤ fecPayloadTrackLimit
  settled : ∀ sequence ∈ state.fecState.payloadOrder,
    broadcast.Sent now sequence ∧ state.Settled sequence
  spread : state.fecState.payloadOrder.Pairwise fun earlier later => earlier < later + width
  kept : ∀ sequence, first ≤ sequence → state.Settled sequence →
    sequence ∈ state.fecState.payloads ∨ broadcast.Sent now (sequence + reach width)

namespace Remembers

theorem mem_iff (remembers : Remembers broadcast first width now state) (sequence : Nat) :
    sequence ∈ state.fecState.payloadOrder ↔ sequence ∈ state.fecState.payloads := by
  rcases remembers.aged with ⟨arrivals, aged⟩
  exact aged.mem_iff sequence

/-- A position that is settled now was before, and the cache is the same. -/
theorem same (remembers : Remembers broadcast first width now before)
    (later : before.nextSeq ≤ after.nextSeq)
    (store : after.fecState.payloadStore = before.fecState.payloadStore)
    (kept : ∀ sequence, before.Settled sequence → after.Settled sequence)
    (earlier : ∀ sequence, after.Settled sequence → before.Settled sequence) :
    Remembers broadcast first width now after := by
  have order : after.fecState.payloadOrder = before.fecState.payloadOrder :=
    congrArg Store.order store
  have payloads : after.fecState.payloads = before.fecState.payloads := congrArg Store.map store
  constructor
  · intro sequence sent
    exact Nat.lt_of_lt_of_le (remembers.narrow sequence sent) (Nat.add_le_add_right later width)
  · rw [store]
    exact remembers.aged
  · rw [order]
    exact remembers.bounded
  · intro sequence member
    rw [order] at member
    exact ⟨(remembers.settled sequence member).1, kept _ (remembers.settled sequence member).2⟩
  · rw [order]
    exact remembers.spread
  · intro sequence within settled
    rw [payloads]
    exact remembers.kept sequence within (earlier sequence settled)

/-- A buffered position at the head is cached. -/
theorem cached_head (remembers : Remembers broadcast first width now state)
    (pace : Pace config broadcast.toSchedule width)
    (within : first ≤ state.nextSeq) (held : state.nextSeq ∈ state.buffered) :
    state.nextSeq ∈ state.fecState.payloads := by
  rcases remembers.kept _ within (Or.inr held) with cached | far
  · exact cached
  · have ahead := remembers.narrow _ far
    have wide := pace.width_le
    omega

theorem drain (remembers : Remembers broadcast first width now state)
    (pace : Pace config broadcast.toSchedule width)
    (onTime : OnTime config broadcast first now state)
    {packet : BufferedPacket} (found : state.buffered[state.nextSeq]? = some packet) :
    Remembers broadcast first width now (drainPacket packet state) := by
  have held : state.nextSeq ∈ state.buffered := OrderedMap.mem_of_getElem? found
  have cached := remembers.cached_head pace onTime.first_le held
  have sent := (onTime.pending (Or.inl ⟨packet, found, rfl⟩)).1
  have position : (drainPacket packet state).nextSeq = state.nextSeq + 1 :=
    broadcast.nextSequence_eq sent.1
  have unchanged : state.fecState.insertPayload state.nextSeq packet.payload = state.fecState :=
    if_pos (Or.inr cached)
  apply remembers.same
  · exact position ▸ Nat.le_succ _
  · show (state.fecState.insertPayload state.nextSeq packet.payload).payloadStore = _
    rw [unchanged]
  · intro sequence settled
    rcases settled with passed | member
    · exact Or.inl (position ▸ Nat.lt_succ_of_lt passed)
    · by_cases here : sequence = state.nextSeq
      · exact Or.inl (position ▸ here ▸ Nat.lt_succ_self _)
      · exact Or.inr (OrderedMap.mem_erase_iff.mpr ⟨here, member⟩)
  · intro sequence settled
    rcases settled with passed | member
    · rw [position, Nat.lt_succ_iff_lt_or_eq] at passed
      rcases passed with passed | rfl
      · exact Or.inl passed
      · exact Or.inr held
    · exact Or.inr (OrderedMap.mem_erase_iff.mp member).2

end Remembers

/-- Of a full cache the first entry goes, which is far behind one of the others. -/
theorem Pace.dropped_far (pace : Pace config broadcast.toSchedule width) {dropped : Nat}
    {others : List Nat} (full : others.length = fecPayloadTrackLimit) (nodup : others.Nodup)
    (sent : ∀ other ∈ others, broadcast.Sent now other)
    (spread : ∀ other ∈ others, dropped < other + width) :
    broadcast.Sent now (dropped + reach width) := by
  have bound := pace.bound
  have above : ∀ other ∈ others, dropped + 1 - width ≤ other := by
    intro other member
    have apart := spread other member
    omega
  have many : fecPayloadTrackLimit - 1 < others.length := by
    rw [full]
    exact Nat.sub_one_lt_of_lt bound.1
  rcases Spaced.exists_far nodup above many with ⟨other, member, far⟩
  exact (sent other member).earlier (by omega)

theorem settle_fecState (now : Instant) (sequence : Nat) (payload : Bytes) (state : ReorderState) :
    (settle now sequence payload state).fecState =
      state.fecState.insertPayload sequence payload := by
  by_cases expected : sequence = state.nextSeq
  · rw [settle_of_expected now payload expected]
    rfl
  · rw [settle_of_ahead now payload expected]
    rfl

/-- Only the accepted position is newly settled. -/
theorem settled_of_settle {sequence other : Nat} {payload : Bytes}
    (last : sequence ≤ broadcast.last)
    (settled : (settle now sequence payload state).Settled other) :
    other = sequence ∨ state.Settled other := by
  by_cases expected : sequence = state.nextSeq
  · rw [settle_of_expected now payload expected] at settled
    rcases settled with passed | held
    · have position : nextSequence state.nextSeq = state.nextSeq + 1 :=
        broadcast.nextSequence_eq (expected ▸ last)
      have passed : other < nextSequence state.nextSeq := passed
      rw [position, Nat.lt_succ_iff_lt_or_eq] at passed
      rcases passed with passed | same
      · exact Or.inr (Or.inl passed)
      · exact Or.inl (same.trans expected.symm)
    · exact Or.inr (Or.inr held)
  · rw [settle_of_ahead now payload expected] at settled
    rcases settled with passed | held
    · exact Or.inr (Or.inl passed)
    · exact (OrderedMap.mem_insert_iff.mp held).imp_right Or.inr

namespace Remembers

theorem settle (remembers : Remembers broadcast first width now state)
    (pace : Pace config broadcast.toSchedule width)
    {sequence : Nat} {payload : Bytes} (fresh : state.Fresh sequence)
    (sent : broadcast.Sent now sequence)
    (later : state.nextSeq ≤ (Server.settle now sequence payload state).nextSeq)
    (kept : ∀ other, state.Settled other →
      (Server.settle now sequence payload state).Settled other) :
    Remembers broadcast first width now (Server.settle now sequence payload state) := by
  have unsettled : ¬ state.Settled sequence := by
    rintro (passed | held)
    · exact fresh (Or.inl passed)
    · exact fresh (Or.inr (Or.inr held))
  have uncached : sequence ∉ state.fecState.payloads := by
    intro cached
    exact unsettled (remembers.settled sequence ((remembers.mem_iff sequence).mpr cached)).2
  have media : ¬ maxMediaSequence < sequence :=
    Nat.not_lt.mpr (Nat.le_of_lt (Nat.lt_of_le_of_lt sent.1 broadcast.last_lt))
  have store := FecState.payloadStore_insertPayload payload (not_or.mpr ⟨media, uncached⟩)
  rw [← settle_fecState now sequence payload state] at store
  rcases remembers.aged with ⟨arrivals, aged⟩
  have put := aged.put sequence payload
  have place : (state.fecState.payloadStore.put sequence payload).order =
      state.fecState.payloadOrder ++ [sequence] := if_neg uncached
  rcases put.evict fecPayloadTrackLimit with ⟨evicted, order⟩
  rw [← store] at evicted order
  rw [place] at order
  have order : (Server.settle now sequence payload state).fecState.payloadOrder = _ := order
  have settled : (Server.settle now sequence payload state).Settled sequence := by
    apply settled_settle
    rw [broadcast.nextSequence_eq sent.1]
    exact Nat.lt_succ_self _
  have members : ∀ other ∈ state.fecState.payloadOrder ++ [sequence],
      broadcast.Sent now other ∧ (Server.settle now sequence payload state).Settled other := by
    rw [List.forall_mem_append, List.forall_mem_singleton]
    refine ⟨?_, sent, settled⟩
    intro other member
    exact (remembers.settled other member).imp_right (kept other)
  have spread : (state.fecState.payloadOrder ++ [sequence]).Pairwise
      fun earlier later => earlier < later + width := by
    rw [List.pairwise_append]
    refine ⟨remembers.spread, List.pairwise_singleton _ _, ?_⟩
    intro other member last lastMember
    rw [List.mem_singleton.mp lastMember]
    have narrow := remembers.narrow other (remembers.settled other member).1
    have ahead : state.nextSeq ≤ sequence := Nat.le_of_not_lt fun passed =>
      unsettled (Or.inl passed)
    exact Nat.lt_of_lt_of_le narrow (Nat.add_le_add_right ahead width)
  have nodup : (state.fecState.payloadOrder ++ [sequence]).Nodup := place ▸ put.nodup
  constructor
  · intro other otherSent
    exact Nat.lt_of_lt_of_le (remembers.narrow other otherSent) (Nat.add_le_add_right later width)
  · exact ⟨_, evicted⟩
  · rw [order, List.length_drop]
    omega
  · intro other member
    rw [order] at member
    exact members other (List.mem_of_mem_drop member)
  · rw [order]
    exact spread.sublist (List.drop_sublist _ _)
  · intro other within otherSettled
    have known : other ∈ state.fecState.payloadOrder ++ [sequence] ∨
        broadcast.Sent now (other + reach width) := by
      rcases settled_of_settle sent.1 otherSettled with rfl | earlier
      · exact Or.inl (List.mem_append_right _ (List.mem_singleton_self _))
      · apply (remembers.kept other within earlier).imp_left
        intro cached
        exact List.mem_append_left _ ((remembers.mem_iff other).mpr cached)
    rcases known with member | far
    · by_cases stays : other ∈ (Server.settle now sequence payload state).fecState.payloadOrder
      · exact Or.inl ((evicted.mem_iff other).mp stays)
      · right
        rw [order] at stays
        have bounded : (state.fecState.payloadOrder ++ [sequence]).length ≤
            fecPayloadTrackLimit + 1 := by
          rw [List.length_append, List.length_singleton]
          exact Nat.succ_le_succ remembers.bounded
        by_cases fits : (state.fecState.payloadOrder ++ [sequence]).length ≤ fecPayloadTrackLimit
        · rw [Nat.sub_eq_zero_of_le fits, List.drop_zero] at stays
          exact absurd member stays
        · -- The queue was full, and the position was its first entry.
          have excess : (state.fecState.payloadOrder ++ [sequence]).length =
              fecPayloadTrackLimit + 1 := Nat.le_antisymm bounded (Nat.lt_of_not_le fits)
          rw [excess, Nat.add_sub_cancel_left] at stays
          cases queue : state.fecState.payloadOrder ++ [sequence] with
          | nil =>
              rw [queue] at member
              cases member
          | cons dropped rest =>
              rw [queue] at stays member nodup members spread excess
              rcases List.mem_cons.mp member with rfl | later
              · apply pace.dropped_far (Nat.succ.inj excess) (List.nodup_cons.mp nodup).2
                · exact fun other member => (members other (List.mem_cons_of_mem _ member)).1
                · exact (List.pairwise_cons.mp spread).1
              · exact absurd later stays
    · exact Or.inr far

end Remembers

/-- The calls of a round keep the cache in this order. -/
theorem remembers_phase (pace : Pace config broadcast.toSchedule width) :
    PhaseInvariant config broadcast first now (Remembers broadcast first width now) where
  untouched {before after} same remembers := by
    have settled : ∀ sequence, before.Settled sequence ↔ after.Settled sequence := by
      intro sequence
      rw [ReorderState.Settled, ReorderState.Settled, same.nextSeq, same.buffered]
    apply remembers.same (Nat.le_of_eq same.nextSeq.symm)
    · rw [same.fecState]
    · exact fun sequence => (settled sequence).mp
    · exact fun sequence => (settled sequence).mpr
  assemble _ remembers :=
    remembers.same (Nat.le_refl _) rfl (fun _ settled => settled) fun _ settled => settled
  move {before after} wellFormed onTime later move remembers := by
    have kept : ∀ sequence, before.Settled sequence → after.Settled sequence :=
      fun sequence settled => move.settled settled later
    cases move with
    | drain found => exact remembers.drain pace onTime found
    | settle _ fresh offered => exact remembers.settle pace fresh offered.1 later kept
    | search =>
        have searched := before.fecState.recoverReady_searched before.nextSeq before.buffered
        apply remembers.same later _ kept fun _ settled => settled
        rw [FecState.payloadStore, FecState.payloadStore, searched.payloads, searched.payloadOrder]
    | report _ _ | request _ _ => exact remembers.same later rfl kept fun _ settled => settled
    | skipFragment absent found old =>
        exact absurd old (onTime.not_skips wellFormed absent (Or.inr ⟨_, found, rfl⟩))
    | skipMissing absent _ pending old =>
        rcases exists_pending_of_oldest pending with ⟨position, pending⟩
        exact absurd old (onTime.not_skips wellFormed absent pending)

namespace Remembers

/-- When the head position is not due, the window is narrow again. -/
theorem later (remembers : Remembers broadcast first width since state) (later : since ≤ now)
    (pace : Pace config broadcast.toSchedule width)
    (early : state.nextSeq ≤ broadcast.last →
      now < broadcast.sentAt state.nextSeq + config.maxReorderDelay) :
    Remembers broadcast first width now state where
  narrow sequence sent := by
    by_cases within : state.nextSeq ≤ broadcast.last
    · exact pace.narrow (early within) sent
    · have last := sent.1
      omega
  aged := remembers.aged
  bounded := remembers.bounded
  settled sequence member := (remembers.settled sequence member).imp_left (·.later later)
  spread := remembers.spread
  kept sequence within settled :=
    (remembers.kept sequence within settled).imp_right (·.later later)

/-- Storing a parity frame does not touch the cache. -/
theorem store (remembers : Remembers broadcast first width now state) (frame : FecFrame) :
    Remembers broadcast first width now
      { state with fecState := state.fecState.insertFrame frame } :=
  remembers.same (Nat.le_refl _) (FecState.payloadStore_insertFrame _ _)
    (fun _ settled => settled) fun _ settled => settled

/-- Nothing has been cached before the flow starts. -/
theorem of_empty (pace : Pace config broadcast.toSchedule width) (position : state.nextSeq = first)
    (early : now < broadcast.sentAt first + config.maxReorderDelay)
    (store : state.fecState.payloadStore = Store.empty) (buffered : state.buffered = ∅) :
    Remembers broadcast first width now state := by
  have order : state.fecState.payloadOrder = [] := congrArg Store.order store
  constructor
  · intro sequence sent
    rw [position]
    exact pace.narrow early sent
  · rw [store]
    exact ⟨[], .empty []⟩
  · rw [order]
    exact Nat.zero_le _
  · rw [order]
    exact List.forall_mem_nil _
  · rw [order]
    exact List.Pairwise.nil
  · intro sequence within settled
    rcases settled with passed | held
    · rw [position] at passed
      exact absurd passed (Nat.not_lt.mpr within)
    · rw [buffered] at held
      exact absurd held ExtTreeMap.not_mem_empty

end Remembers

end Irohsion.Server
