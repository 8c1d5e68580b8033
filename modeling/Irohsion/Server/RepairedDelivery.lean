import Irohsion.Server.LossyDelivery
import Irohsion.Server.RepairNotes

/-! # Requests that are answered in time

When every request is answered within the round trip delay, and the positions that are
lost follow each other slowly enough for one request after the other, the loop hides
the losses: whatever is missing at the head of the window has been asked for whenever
anything waits for it after a round.
-/

namespace Irohsion.Server

open Protocol Std

variable {config : ReorderConfig} {broadcast : Broadcast} {schedule : Schedule} {first : Nat}
variable {now since last : Instant} {before after state target next final : ReorderState}
variable {arrived inputs rest : List TimedInput} {timed : TimedInput} {sequence : Nat}

/-! ## The head position is asked for -/

theorem acceptCompletePayload_drained (payload : Bytes)
    (drained : state.nextSeq ∉ state.buffered) :
    (acceptCompletePayload now sequence payload state).nextSeq ∉
      (acceptCompletePayload now sequence payload state).buffered := by
  rw [acceptCompletePayload]
  split
  · exact drainReady_drained _
  · rename_i ahead
    intro held
    rcases OrderedMap.mem_insert_iff.mp held with same | earlier
    · exact ahead same.symm
    · exact drained earlier

theorem foldl_acceptRecovered_drained {recovered : List (Nat × Bytes)}
    {progress : ReorderState × Bool} (drained : progress.1.nextSeq ∉ progress.1.buffered) :
    (recovered.foldl (acceptRecovered now) progress).1.nextSeq ∉
      (recovered.foldl (acceptRecovered now) progress).1.buffered := by
  induction recovered generalizing progress with
  | nil => exact drained
  | cons pair rest induction =>
      apply induction
      simp only [acceptRecovered]
      split
      · exact drained
      · exact acceptCompletePayload_drained _ drained

theorem recoverFecReady_drained (drained : state.nextSeq ∉ state.buffered) :
    (recoverFecReady now state).nextSeq ∉ (recoverFecReady now state).buffered := by
  refine @BreakLoop.run_invariant _ (fun state => state.nextSeq ∉ state.buffered) _ ?_ _ state
    drained
  intro state drained
  rw [recoverStep]
  split
  rename_i fec recovered _
  dsimp only
  split
  · exact drained
  · have accepted := @foldl_acceptRecovered_drained now recovered
      ({ state with fecState := fec }, false) drained
    split
    · rename_i outcome
      rw [outcome] at accepted
      exact accepted
    · rename_i outcome
      rw [outcome] at accepted
      exact accepted

theorem Phase.drained (phase : Phase config broadcast now before after)
    (drained : before.nextSeq ∉ before.buffered) : after.nextSeq ∉ after.buffered := by
  cases phase with
  | untouched same _ _ =>
      rw [same.nextSeq, same.buffered]
      exact drained
  | assemble _ _ _ _ _ => exact drained
  | accept _ _ _ => exact acceptCompletePayload_drained _ drained
  | recover => exact recoverFecReady_drained drained
  | advance advanced => exact advanceReorderWindow_drained advanced

theorem Phases.drained (phases : Phases config broadcast now before after)
    (drained : before.nextSeq ∉ before.buffered) : after.nextSeq ∉ after.buffered := by
  induction phases with
  | refl => exact drained
  | tail _ phase induction => exact phase.drained induction

/-- A window that is on time skips nothing. -/
theorem OnTime.expireReorderGap_eq (onTime : OnTime config broadcast first now state)
    (wellFormed : WellFormed state) (drained : state.nextSeq ∉ state.buffered) :
    expireReorderGap config now state = state := by
  have done : expireStep config now state = .done state := by
    rcases expireStep_cases config now (fun _ _ => True) state with done | ⟨next, yields, -⟩
    · exact done
    · rcases expireStep_skips yields with
        ⟨-, ⟨assembly, found, old, -⟩ | ⟨-, oldest, waits, old, -⟩⟩
      · exact absurd old
          (onTime.not_skips wellFormed drained (Or.inr ⟨assembly, found, rfl⟩))
      · rcases exists_pending_of_oldest waits with ⟨position, pending⟩
        exact absurd old (onTime.not_skips wellFormed drained pending)
  rw [expireReorderGap, BreakLoop.run, done]

/-- After an advance that leaves something pending, the head position is noted. -/
theorem advanceReorderWindow_notes {interval : Duration}
    (repairs : config.repairRequestInterval = some interval)
    (active : Active (OnTime config broadcast first now) target)
    (drained : target.nextSeq ∉ target.buffered)
    (advanced : advanceReorderWindow config now target = some next)
    (pending : next.hasPendingState = true) : next.Noted next.nextSeq := by
  have recovered := onTime_invariant.toWindow.recoverFecReady active
  have absent := @recoverFecReady_drained now _ drained
  rcases requestDueRepairs_move config interval now (broadcast.Offers now) recovered.1 with
    ⟨requested, outcome, move⟩
  rcases onTime_invariant.toWindow.move move recovered with ⟨wellFormed, -, onTime⟩
  rcases requestDueRepairs_outcome outcome with ⟨fragments, sent, request, same⟩
  have nextSeq : requested.nextSeq = (recoverFecReady now target).nextSeq := by rw [same]
  have buffered : requested.buffered = (recoverFecReady now target).buffered := by rw [same]
  have still : requested.nextSeq ∉ requested.buffered := by
    rw [nextSeq, buffered]
    exact absent
  have result : next = requested := by
    rw [advanceReorderWindow, repairs] at advanced
    simp only [outcome, Option.map_some, Option.some.injEq] at advanced
    rw [onTime.expireReorderGap_eq wellFormed still, drainReady_of_absent still] at advanced
    exact advanced.symm
  rw [result] at pending ⊢
  rw [nextSeq]
  apply requestDueRepairs_head recovered.1 absent _ outcome
  by_contra idle
  rcases not_mem_of_hasPendingState (Bool.eq_false_iff.mpr idle) with
    ⟨none, unassembled, unseen⟩
  -- Without assemblies there is no request that could change one.
  rw [unassembled] at request
  cases request
  rw [same] at pending
  simp [ReorderState.hasPendingState, none, unseen] at pending

/-- A round notes the head position when it leaves something pending, unless it leaves
everything untouched. -/
theorem Ends.notes {interval : Duration} (ends : Ends config broadcast now state next)
    (repairs : config.repairRequestInterval = some interval)
    (active : Active (OnTime config broadcast first now) state)
    (drained : state.nextSeq ∉ state.buffered) :
    Untouched state next ∨ (next.hasPendingState = true → next.Noted next.nextSeq) := by
  rcases ends with untouched | ⟨target, phases, advanced⟩
  · exact Or.inl untouched
  · exact Or.inr (advanceReorderWindow_notes repairs (OnTime.phases phases active)
      (phases.drained drained) advanced)

theorem Untouched.hasPendingState (same : Untouched before after) :
    after.hasPendingState = before.hasPendingState := by
  simp only [ReorderState.hasPendingState, same.buffered, same.fragments, same.seen]

theorem storeReceived_held :
    (storeReceived timed state).nextSeq = state.nextSeq ∧
      (storeReceived timed state).buffered = state.buffered ∧
      (storeReceived timed state).fragments = state.fragments ∧
      (storeReceived timed state).hasPendingState = state.hasPendingState := by
  rw [storeReceived]
  split <;> exact ⟨rfl, rfl, rfl, rfl⟩

theorem passed_phase (position : Nat) :
    PhaseInvariant config broadcast first now fun state => position ≤ state.nextSeq where
  untouched same passed := same.nextSeq.symm ▸ passed
  assemble _ passed := passed
  move _ _ later _ passed := Nat.le_trans passed later

/-! ## What is held has arrived -/

/-- The filled slots are those of parts that have arrived. -/
def HeldArrived (inputs : List TimedInput) (state : ReorderState) : Prop :=
  ∀ (sequence : Nat) (assembly : FragmentAssembly), state.fragments[sequence]? = some assembly →
    ∀ (fragment : Nat) (payload : Bytes), assembly.fragments[fragment]? = some (some payload) →
      Arrived inputs ⟨sequence, fragment, assembly.fragments.length⟩

theorem HeldArrived.of_empty (none : state.fragments = ∅) : HeldArrived inputs state := by
  intro sequence assembly found
  simp [none] at found

theorem HeldArrived.roundMove (held : HeldArrived inputs before) (consistent : Consistent before)
    (move : RoundMove now (fun frame => ∃ timed ∈ inputs, timed.input = .frame frame) before
      after) : HeldArrived inputs after := by
  cases move with
  | routes _ | observe _ | join _ | duplicate _ | lateAfterSkip _ | store _ | idle _ _ =>
      exact held
  | start idle => exact .of_empty (consistent.idle_fragments idle)
  | restart _ _ => exact .of_empty rfl
  | @assemble packet filled received _ _ fills _ =>
      intro sequence assembly found fragment payload present
      rcases OrderedMap.getElem?_insert_eq_some found with ⟨rfl, rfl⟩ | earlier
      · rw [fills.length]
        have slots := fills.slots
        rcases fills.fill with ⟨vacant, rfl⟩
        rcases received with ⟨timed, member, receives⟩
        by_cases same : packet.header.fragment = fragment
        · exact ⟨timed, member, packet, receives, by rw [← same]⟩
        · have present := (List.getElem?_set_ne same).symm.trans present
          rw [assemblyFor] at present slots
          cases stored : before.fragments[packet.header.sequence]? with
          | none =>
              rw [stored, Option.getD_none, FragmentAssembly.new_fragments,
                List.getElem?_replicate] at present
              split at present <;> cases present
          | some assembly =>
              rw [stored, Option.getD_some] at present slots
              rw [← slots]
              exact held _ assembly stored fragment payload present
      · exact held sequence assembly earlier fragment payload present

theorem heldArrived_invariant (config : ReorderConfig) (inputs : List TimedInput) :
    LoopInvariant config (fun frame => ∃ timed ∈ inputs, timed.input = .frame frame)
      (fun _ _ => True) (HeldArrived inputs) where
  round consistent move held := held.roundMove consistent move
  window now :=
    { move := by
        intro before after _ _ move held sequence assembly found
        rcases move.assembly found with ⟨earlier, present, content⟩
        have slots : earlier.fragments = assembly.fragments := congrArg Prod.fst content
        rw [← slots]
        exact held sequence earlier present
      recovered := fun _ _ _ => trivial }
  whole _ _ := trivial
  assembled _ _ _ _ _ _ := trivial

theorem reorderLoop_heldArrived (reached : reorderLoop config inputs = some state) :
    HeldArrived inputs state :=
  ((heldArrived_invariant config inputs).of_reached (.of_empty rfl)
    (fun timed member _ received => ⟨timed, member, received⟩) reached).2

/-! ## Answers -/

/-- The parts that the request names have arrived, or the whole payload has. -/
def Supplied (content : Content) (inputs : List TimedInput) (request : RepairRequest) : Prop :=
  Arrived inputs ⟨request.sequence, 0, 1⟩ ∨
    content.parts request.sequence ≠ [] ∧
      ∀ fragment < (content.parts request.sequence).length,
        request.missingMask.testBit fragment = true →
        Arrived inputs
          ⟨request.sequence, fragment, (content.parts request.sequence).length⟩

/-- Whatever has been asked for arrives within the delay. -/
def Answered (config : ReorderConfig) (content : Content) (delay : Duration)
    (inputs : List TimedInput) : Prop :=
  ∀ earlier timed later, inputs = earlier ++ timed :: later →
    ∀ state request, reorderLoop config (earlier ++ [timed]) = some state →
      .repairRequest request ∈ state.trace →
      ∀ round ∈ inputs, timed.now + delay ≤ round.now →
        Supplied content (inputs.filter fun other => other.now < timed.now + delay) request

/-- A packet of the position or of a later one has arrived. -/
def Noticed (inputs : List TimedInput) (now : Instant) (sequence : Nat) : Prop :=
  ∃ timed ∈ inputs, timed.now ≤ now ∧
    ∃ packet, timed.input = .frame (.packet packet) ∧ sequence ≤ packet.header.sequence

/-- The network may lose, repeat and reorder frames. `reachedBy` says when the window
is to reach a position. The position before it has arrived by then, or a round trip is
left from when that one is noticed to be missing and the window has reached it, so
positions that are lost together are repaired one round trip after another. -/
structure Repairable (config : ReorderConfig) (schedule : Schedule) (delay : Duration)
    (reachedBy : Nat → Instant) (first : Nat) (inputs : List TimedInput) : Prop where
  opens : ∃ earlier opening packet later, inputs = earlier ++ opening :: later ∧
    (∀ timed ∈ earlier, ∀ other, timed.input ≠ .frame (.packet other)) ∧
    opening.input = .frame (.packet packet) ∧ packet.header.sequence = first
  sent : ∀ timed ∈ inputs, timed.Admitted (ReceivedFrame.About (schedule.Sent timed.now))
  recent : ∀ timed ∈ inputs, ∀ packet, timed.input = .frame (.packet packet) → ∀ later,
    schedule.Sent timed.now later → later + 1 < packet.header.sequence + restartBackwardGap
  steady : NeverSilent config inputs
  repairs : config.repairRequestInterval ≠ none
  delayed : 0 < delay
  ordered : ∀ sequence, reachedBy sequence ≤ reachedBy (sequence + 1)
  inTime : ∀ sequence, first ≤ sequence → sequence ≤ schedule.last →
    reachedBy (sequence + 1) ≤ schedule.sentAt sequence + config.maxReorderDelay
  reaches : ∀ timed ∈ inputs, ∀ sequence, first ≤ sequence → sequence ≤ schedule.last →
    reachedBy (sequence + 1) ≤ timed.now →
    Complete (inputs.filter fun other => other.now < reachedBy (sequence + 1)) sequence ∨
      ∃ noticed, Noticed inputs noticed sequence ∧ reachedBy sequence ≤ noticed ∧
        noticed + delay ≤ reachedBy (sequence + 1)

/-- What is missing at the head has been asked for, as early as the timetable needs it. -/
structure Awaiting (delay : Duration) (reachedBy : Nat → Instant) (inputs : List TimedInput)
    (now : Instant) (state : ReorderState) : Prop where
  asked : state.hasPendingState = true → state.AskedFor state.nextSeq
  early : state.hasPendingState = true → ∃ asked ≤ now,
    (∀ round ∈ inputs, asked + delay ≤ round.now →
      Complete (inputs.filter fun other => other.now < asked + delay) state.nextSeq) ∧
    ∀ noticed, reachedBy state.nextSeq ≤ noticed → Noticed inputs noticed state.nextSeq →
      asked ≤ noticed

variable {delay : Duration} {reachedBy : Nat → Instant} {limit : Instant}

theorem reorderLoop_concat (ran : reorderLoop config arrived = some state)
    (stepped : reorderStep config state timed = some next) :
    reorderLoop config (arrived ++ [timed]) = some next := by
  rw [reorderLoop, List.foldlM_append, ← reorderLoop, ran]
  simpa using stepped

theorem Arrived.mono {fewer more : List TimedInput} {header : PacketHeader}
    (received : Arrived fewer header) (within : ∀ timed ∈ fewer, timed ∈ more) :
    Arrived more header := by
  rcases received with ⟨timed, member, packet, receives, same⟩
  exact ⟨timed, within timed member, packet, receives, same⟩

theorem Complete.mono {fewer more : List TimedInput} (complete : Complete fewer sequence)
    (within : ∀ timed ∈ fewer, timed ∈ more) : Complete more sequence := by
  rcases complete with ⟨fragments, some, all⟩
  exact ⟨fragments, some, fun fragment inBounds => (all fragment inBounds).mono within⟩

theorem complete_of_whole (received : Arrived inputs ⟨sequence, 0, 1⟩) :
    Complete inputs sequence := by
  refine ⟨1, Nat.one_pos, ?_⟩
  intro fragment first
  rw [Nat.lt_one_iff.mp first]
  exact received

/-- Together with what is held, the answers complete a position that has been asked for. -/
theorem complete_of_asked {content : Content} {more : List TimedInput}
    (ran : reorderLoop config inputs = some state) (intact : Intact content state)
    (asked : state.AskedFor sequence) (within : ∀ timed ∈ inputs, timed ∈ more)
    (answers : ∀ request, .repairRequest request ∈ state.trace →
      Supplied content more request) : Complete more sequence := by
  rcases asked with ⟨mask, sent, all, covered⟩
  rcases answers _ sent with whole | ⟨nonempty, parts⟩
  · exact complete_of_whole whole
  · have some := List.length_pos_iff.mpr nonempty
    refine ⟨_, some, ?_⟩
    intro fragment inBounds
    cases found : state.fragments[sequence]? with
    | none =>
        rw [all found] at parts
        have few : (content.parts sequence).length ≤ maxFragments := by
          rcases parts 0 some (repairAllFragmentsMask_testBit 0 (by decide)) with
            ⟨timed, -, packet, -, header⟩
          have valid := packet.valid.2.2
          rw [header] at valid
          exact valid
        apply parts fragment inBounds
        exact repairAllFragmentsMask_testBit fragment (Nat.lt_of_lt_of_le inBounds few)
    | some assembly =>
        have slots : assembly.fragments.length = (content.parts sequence).length :=
          (intact.assemblies found).1
        rcases covered assembly found fragment (slots ▸ inBounds) with named | ⟨payload, held⟩
        · exact parts fragment inBounds named
        · have arrives := reorderLoop_heldArrived ran sequence assembly found fragment payload held
          rw [slots] at arrives
          exact arrives.mono within

/-- Whoever notices that the head position is missing holds something. -/
theorem Flowing.pending_of_noticed
    (flowing : Flowing config broadcast first arrived since state)
    (noticed : Noticed arrived now state.nextSeq) : state.hasPendingState = true := by
  rcases noticed with ⟨timed, member, -, packet, receives, ahead⟩
  have took := flowing.taken.took packet.header ⟨timed, member, packet, receives, rfl⟩
  rcases took with (passed | held) | ⟨-, assembly, -, found, -⟩
  · exact absurd passed (Nat.not_lt.mpr ahead)
  · exact hasPendingState_of_held (Or.inl held)
  · exact hasPendingState_of_held (Or.inr (OrderedMap.mem_of_getElem? found))

/-- Time does not go back. -/
theorem TimedRun.le_of_split (run : TimedRun config since state inputs last final)
    {later : List TimedInput} (split : inputs = arrived ++ timed :: later) :
    ∀ other ∈ arrived ++ [timed], other.now ≤ timed.now := by
  rw [split] at run
  rcases run.split with ⟨middle, reached, before, onwards⟩
  cases onwards with
  | round later _ _ _ _ =>
      rw [List.forall_mem_append, List.forall_mem_singleton]
      exact ⟨fun other member => Nat.le_trans (before.le_last.2 other member) later, Nat.le_refl _⟩

namespace Repairable

/-- The window keeps to the timetable. -/
theorem reached (repairable : Repairable config broadcast.toSchedule delay reachedBy first inputs)
    (flowing : Flowing config broadcast first arrived since state)
    (awaiting : Awaiting delay reachedBy inputs since state)
    (received : ∀ other ∈ inputs, other.now < limit → other ∈ arrived)
    (running : ∃ round ∈ inputs, limit ≤ round.now)
    (inRange : sequence ≤ broadcast.last) (due : reachedBy (sequence + 1) ≤ limit) :
    sequence < state.nextSeq := by
  by_contra behind
  have head : state.nextSeq ≤ sequence := Nat.le_of_not_lt behind
  have dueHead : reachedBy (state.nextSeq + 1) ≤ limit :=
    Nat.le_trans (monotone_nat_of_le_succ repairable.ordered (Nat.succ_le_succ head)) due
  have missing : ∀ {bound : Instant}, bound ≤ limit →
      ¬ Complete (inputs.filter fun other => other.now < bound) state.nextSeq := by
    intro bound inLimit complete
    have arrives : Complete arrived state.nextSeq := by
      apply complete.mono
      intro other member
      rcases List.mem_filter.mp member with ⟨member, before⟩
      exact received other member (Nat.lt_of_lt_of_le (of_decide_eq_true before) inLimit)
    rcases flowing.complete arrives with passed | held
    · exact Nat.lt_irrefl _ passed
    · exact flowing.drained held
  rcases running with ⟨round, member, begins⟩
  rcases repairable.reaches round member state.nextSeq flowing.onTime.first_le
    (Nat.le_trans head inRange) (Nat.le_trans dueHead begins) with
    complete | ⟨noticed, ⟨other, otherMember, noticing, aboutHead⟩, timely, answered⟩
  · exact missing dueHead complete
  · have positive := repairable.delayed
    have answeredBy : noticed + delay ≤ limit := Nat.le_trans answered dueHead
    have before : other.now < limit := by
      have instants : (other.now : Nat) ≤ noticed := noticing
      exact Nat.lt_of_le_of_lt instants
        (Nat.lt_of_lt_of_le (Nat.lt_add_of_pos_right positive) answeredBy)
    have pending := flowing.pending_of_noticed
      ⟨other, received other otherMember before, noticing, aboutHead⟩
    rcases awaiting.early pending with ⟨asked, -, answers, early⟩
    have asked_le := early noticed timely ⟨other, otherMember, noticing, aboutHead⟩
    have inLimit := Nat.le_trans (Nat.add_le_add_right asked_le delay) answeredBy
    exact missing inLimit (answers round member (Nat.le_trans inLimit begins))

/-- A round that asks for the head position is early enough. -/
theorem asks (repairable : Repairable config broadcast.toSchedule delay reachedBy first inputs)
    (answered : Answered config broadcast.content delay inputs)
    (run : TimedRun config 0 .initial inputs last final)
    {later : List TimedInput} (split : inputs = arrived ++ timed :: later)
    (ran : reorderLoop config (arrived ++ [timed]) = some next)
    (intact : Intact broadcast.content next)
    (asked : next.hasPendingState = true → next.AskedFor next.nextSeq)
    (unnoticed : ∀ noticed, reachedBy next.nextSeq ≤ noticed →
      Noticed inputs noticed next.nextSeq → timed.now ≤ noticed) :
    Awaiting delay reachedBy inputs timed.now next where
  asked := asked
  early pending := by
    refine ⟨timed.now, Nat.le_refl _, ?_, unnoticed⟩
    intro round member begins
    apply complete_of_asked ran intact (asked pending)
    · intro other arrives
      have earlier := run.le_of_split split other arrives
      rw [List.append_cons] at split
      refine List.mem_filter.mpr ⟨by rw [split]; exact List.mem_append_left _ arrives, ?_⟩
      exact decide_eq_true
        (Nat.lt_of_le_of_lt earlier (Nat.lt_add_of_pos_right repairable.delayed))
    · intro request sent
      exact answered arrived timed later split next request ran sent round member begins

/-- Whatever is pending after a round, the head position has been asked for. -/
theorem round_asks
    (repairable : Repairable config broadcast.toSchedule delay reachedBy first inputs)
    (ran : reorderLoop config (arrived ++ [timed]) = some next)
    (stepped : reorderStep config state timed = some next)
    (flowing : Flowing config broadcast first arrived since state)
    (asked : state.hasPendingState = true → state.AskedFor state.nextSeq)
    (round : FlowRound config broadcast timed state next)
    (stored : Active (OnTime config broadcast first timed.now) (storeReceived timed state))
    (flows : Flowing config broadcast first (arrived ++ [timed]) timed.now next) :
    next.hasPendingState = true → next.AskedFor next.nextSeq := by
  intro pending
  rcases @storeReceived_held state timed with ⟨position, buffered, fragments, held⟩
  have drained : (storeReceived timed state).nextSeq ∉ (storeReceived timed state).buffered := by
    rw [position, buffered]
    exact flowing.drained
  rcases Option.ne_none_iff_exists'.mp repairable.repairs with ⟨interval, repairs⟩
  rcases round.ends.notes repairs stored drained with untouched | noted
  · rw [untouched.hasPendingState, held] at pending
    rw [untouched.nextSeq, position]
    apply (asked pending).stays
    · exact untouched.fragments.trans fragments
    · exact mem_trace_of_reorderStep flowing.consistent stepped
  · exact (reorderLoop_notedAsked ran).askedFor flows.consistent.toWellFormed (noted pending)

/-- A round keeps the requests for the head position timely. -/
theorem awaits (repairable : Repairable config broadcast.toSchedule delay reachedBy first inputs)
    (answered : Answered config broadcast.content delay inputs)
    (run : TimedRun config 0 .initial inputs last final)
    {rest : List TimedInput} (split : inputs = arrived ++ timed :: rest)
    (ran : reorderLoop config (arrived ++ [timed]) = some next)
    (received : ∀ other ∈ inputs, other.now < timed.now → other ∈ arrived)
    (flowing : Flowing config broadcast first arrived since state) (later : since ≤ timed.now)
    (awaiting : Awaiting delay reachedBy inputs since state)
    (asked : next.hasPendingState = true → next.AskedFor next.nextSeq)
    (round : FlowRound config broadcast timed state next)
    (stored : Active (OnTime config broadcast first timed.now) (storeReceived timed state))
    (flows : Flowing config broadcast first (arrived ++ [timed]) timed.now next) :
    Awaiting delay reachedBy inputs timed.now next := by
  have member : timed ∈ inputs := by
    rw [split]
    exact List.mem_append_right _ List.mem_cons_self
  by_cases waits : next.nextSeq = state.nextSeq ∧ state.hasPendingState = true
  · refine ⟨asked, ?_⟩
    intro _
    rw [waits.1]
    rcases awaiting.early waits.2 with ⟨asked, before, answers⟩
    exact ⟨asked, Nat.le_trans before later, answers⟩
  · apply repairable.asks answered run split ran flows.onTime.intact asked
    intro noticed timely notices
    by_contra early
    have before : noticed < timed.now := Nat.lt_of_not_le early
    rcases notices with ⟨other, otherMember, noticing, about⟩
    have earlier : Noticed arrived noticed next.nextSeq :=
      ⟨other, received other otherMember (Nat.lt_of_le_of_lt noticing before), noticing, about⟩
    by_cases same : next.nextSeq = state.nextSeq
    · exact waits ⟨same, flowing.pending_of_noticed (same ▸ earlier)⟩
    · -- The timetable has the window at this position before the round.
      have kept := ((passed_phase state.nextSeq).phases round.phases
        ⟨stored.1, stored.2.1, stored.2.2, Nat.le_of_eq storeReceived_held.1.symm⟩).2.2.2
      have further := Nat.lt_of_le_of_ne kept (Ne.symm same)
      rcases Nat.exists_eq_add_one_of_ne_zero (Nat.ne_of_gt (Nat.zero_lt_of_lt further)) with
        ⟨front, next_eq⟩
      rw [next_eq] at timely further
      have inRange := flows.onTime.nextSeq_le_last
      rw [next_eq] at inRange
      have reached := repairable.reached flowing awaiting received
        ⟨timed, member, Nat.le_refl _⟩ (Nat.le_of_succ_le_succ inRange)
        (Nat.le_trans timely (Nat.le_of_lt before))
      exact Nat.not_lt.mpr (Nat.le_of_lt_succ further) reached

/-- The rounds of the flow keep to the timetable. -/
theorem run (repairable : Repairable config broadcast.toSchedule delay reachedBy first inputs)
    (answered : Answered config broadcast.content delay inputs)
    (whole : TimedRun config 0 .initial inputs last final)
    (honest : ∀ timed ∈ inputs, timed.Admitted (Honest broadcast.content))
    {middle : Instant} {reached : ReorderState} {beyond : List TimedInput}
    (run : TimedRun config since state rest middle reached)
    (ran : reorderLoop config arrived = some state) (split : inputs = arrived ++ (rest ++ beyond))
    (onward : Onward config broadcast since rest)
    (flowing : Flowing config broadcast first arrived since state)
    (awaiting : Awaiting delay reachedBy inputs since state) :
    Flowing config broadcast first (arrived ++ rest) middle reached ∧
      Awaiting delay reachedBy inputs middle reached := by
  induction run generalizing arrived with
  | done =>
      rw [List.append_nil]
      exact ⟨flowing, awaiting⟩
  | @round since _ state next _ timed rest later _ expires stepped _ induction =>
      have member : timed ∈ inputs := by
        rw [split]
        exact List.mem_append_right _ List.mem_cons_self
      have received : ∀ other ∈ inputs, other.now < timed.now → other ∈ arrived :=
        fun other => whole.arrived_before split
      have settled : ∀ sequence, first ≤ sequence →
          Overdue config broadcast.toSchedule timed.now sequence → state.Settled sequence := by
        intro sequence within overdue
        left
        exact repairable.reached flowing awaiting received ⟨timed, member, Nat.le_refl _⟩ overdue.1
          (Nat.le_trans (repairable.inTime sequence within overdue.1) overdue.2)
      have active := flowing.later later settled
      have stored := active_storeReceived active (honest timed member)
        (repairable.sent timed member)
      rcases flowing.reorderStep onward later expires settled stepped with ⟨round, flows⟩
      have ran := reorderLoop_concat ran stepped
      have asked := repairable.round_asks ran stepped flowing awaiting.asked round stored flows
      have awaits := repairable.awaits answered whole split ran received flowing later awaiting
        asked round stored flows
      rw [List.cons_append, List.append_cons] at split
      rw [List.append_cons]
      exact induction ran split onward.tail flows awaits

/-- The round that opens the flow asks for what it leaves missing. -/
theorem opens_awaiting
    (repairable : Repairable config broadcast.toSchedule delay reachedBy first inputs)
    (answered : Answered config broadcast.content delay inputs)
    (run : TimedRun config 0 .initial inputs last final)
    {packet : ReceivedPacket} (split : inputs = arrived ++ timed :: rest)
    (ran : reorderLoop config (arrived ++ [timed]) = some next)
    (silent : ∀ other ∈ inputs, other.now < timed.now →
      ∀ packet, other.input ≠ .frame (.packet packet))
    (waiting : Waiting broadcast since state)
    (started : Active (OnTime config broadcast first timed.now) (startFlow packet state))
    (flows : Flowing config broadcast first (arrived ++ [timed]) timed.now next)
    (ends : Ends config broadcast timed.now (startFlow packet state) next) :
    Awaiting delay reachedBy inputs timed.now next := by
  have idle : (startFlow packet state).hasPendingState = false := waiting.nothing_pending
  have drained : (startFlow packet state).nextSeq ∉ (startFlow packet state).buffered := by
    rw [(not_mem_of_hasPendingState idle).1]
    exact ExtTreeMap.not_mem_empty
  rcases Option.ne_none_iff_exists'.mp repairable.repairs with ⟨interval, repairs⟩
  apply repairable.asks answered run split ran flows.onTime.intact
  · intro pending
    rcases ends.notes repairs started drained with untouched | noted
    · rw [untouched.hasPendingState, idle] at pending
      cases pending
    · exact (reorderLoop_notedAsked ran).askedFor flows.consistent.toWellFormed (noted pending)
  · rintro noticed - ⟨other, member, noticing, packet, receives, -⟩
    by_contra early
    exact silent other member (Nat.lt_of_le_of_lt noticing (Nat.lt_of_not_le early)) packet receives

/-- The first packet arrives in time, since nothing can have noticed its position before. -/
theorem opens_early (repairable : Repairable config schedule delay reachedBy first inputs)
    (run : TimedRun config 0 .initial inputs last final)
    {packet : ReceivedPacket} (split : inputs = arrived ++ timed :: rest)
    (silent : ∀ other ∈ arrived, ∀ packet, other.input ≠ .frame (.packet packet))
    (receives : timed.input = .frame (.packet packet))
    (isFirst : packet.header.sequence = first) :
    timed.now < schedule.sentAt first + config.maxReorderDelay := by
  have member : timed ∈ inputs := by
    rw [split]
    exact List.mem_append_right _ List.mem_cons_self
  have unheard : ∀ other ∈ inputs, other.now < timed.now →
      ∀ packet, other.input ≠ .frame (.packet packet) :=
    fun other member before => silent other (run.arrived_before split member before)
  have opens : schedule.Sent timed.now first :=
    isFirst ▸ repairable.sent timed member _ receives
  by_contra expired
  have due := Nat.le_trans (repairable.inTime _ (Nat.le_refl _) opens.1)
    (Nat.le_of_not_lt expired)
  rcases repairable.reaches timed member _ (Nat.le_refl _) opens.1 due with
    ⟨fragments, some, all⟩ |
      ⟨noticed, ⟨other, present, noticing, packet, receives, -⟩, -, answered⟩
  · rcases all 0 some with ⟨other, inTime, packet, receives, -⟩
    rcases List.mem_filter.mp inTime with ⟨present, before⟩
    exact unheard other present (Nat.lt_of_lt_of_le (of_decide_eq_true before) due) packet
      receives
  · have passed := Nat.lt_of_lt_of_le (Nat.lt_add_of_pos_right repairable.delayed) answered
    exact unheard other present
      (Nat.lt_of_le_of_lt noticing (Nat.lt_of_lt_of_le passed due)) packet receives

/-- A run whose losses are repaired in time keeps to the timetable, up to any of the
rounds from the first packet on. -/
theorem flowing_upTo
    (repairable : Repairable config broadcast.toSchedule delay reachedBy first inputs)
    (answered : Answered config broadcast.content delay inputs)
    (whole : TimedRun config 0 .initial inputs last final)
    (honest : ∀ timed ∈ inputs, timed.Admitted (Honest broadcast.content))
    {packet : ReceivedPacket} {earlier beyond : List TimedInput}
    (split : inputs = earlier ++ timed :: (rest ++ beyond))
    (silent : ∀ other ∈ earlier, ∀ packet, other.input ≠ .frame (.packet packet))
    (receives : timed.input = .frame (.packet packet))
    (isFirst : packet.header.sequence = first) {middle : Instant} {reached : ReorderState}
    (run : TimedRun config 0 .initial (earlier ++ timed :: rest) middle reached) :
    Flowing config broadcast first (earlier ++ timed :: rest) middle reached ∧
      Awaiting delay reachedBy inputs middle reached := by
  have early := repairable.opens_early whole split silent receives isFirst
  have unheard : ∀ other ∈ inputs, other.now < timed.now →
      ∀ packet, other.input ≠ .frame (.packet packet) :=
    fun other member before => silent other (whole.arrived_before split member before)
  have sent := repairable.sent
  have recent := repairable.recent
  have steady := repairable.steady earlier timed packet (rest ++ beyond) split receives
  have truthful := honest
  rw [split] at sent recent truthful
  simp only [List.forall_mem_append, List.forall_mem_cons] at sent recent truthful
  rw [← List.cons_append, List.map_append] at steady
  subst isFirst
  have opens := sent.2.1 _ receives
  rcases run.split with ⟨since, state, before, onwards⟩
  have waiting := (waiting_initial broadcast).run before truthful.1 sent.1 silent
  cases onwards with
  | @round _ _ _ next _ _ _ later _ _ stepped others =>
      have started := waiting.started later opens early
      rcases waiting.opens later silent truthful.1 receives (truthful.2.1 _ receives) opens early
        stepped with ⟨⟨-, ends⟩, flowing⟩
      have ran := reorderLoop_concat before.foldlM stepped
      have onward : Onward config broadcast timed.now rest :=
        ⟨truthful.2.2.1, sent.2.2.1, recent.2.2.1, steady.left_of_append⟩
      have awaiting := repairable.opens_awaiting answered whole split ran unheard waiting started
        flowing ends
      rw [List.append_cons] at split ⊢
      exact repairable.run answered whole honest others ran split onward flowing awaiting

/-- A run whose losses are repaired in time keeps to the timetable. -/
theorem flowing (repairable : Repairable config broadcast.toSchedule delay reachedBy first inputs)
    (answered : Answered config broadcast.content delay inputs)
    (run : TimedRun config 0 .initial inputs last final)
    (honest : ∀ timed ∈ inputs, timed.Admitted (Honest broadcast.content)) :
    Flowing config broadcast first inputs last final ∧
      Awaiting delay reachedBy inputs last final := by
  rcases repairable.opens with ⟨earlier, opening, packet, rest, split, silent, receives, isFirst⟩
  have same := split
  rw [← List.append_nil rest] at split
  rw [same] at run
  have flows := repairable.flowing_upTo answered (same ▸ run) honest split silent receives isFirst
    run
  rw [← same] at flows
  exact flows

/-- Whenever anything is pending, the head position has been asked for. -/
theorem asked_upTo
    (repairable : Repairable config broadcast.toSchedule delay reachedBy first inputs)
    (answered : Answered config broadcast.content delay inputs)
    (run : TimedRun config 0 .initial inputs last final)
    (honest : ∀ timed ∈ inputs, timed.Admitted (Honest broadcast.content))
    {front beyond : List TimedInput} (upTo : inputs = front ++ beyond)
    (ran : reorderLoop config front = some state) (pending : state.hasPendingState = true) :
    state.AskedFor state.nextSeq := by
  rcases repairable.opens with ⟨earlier, opening, packet, rest, split, silent, receives, isFirst⟩
  have whole := run
  rw [upTo] at run
  rcases run.split with ⟨middle, reached, before, -⟩
  cases ran.symm.trans before.foldlM
  have unopened : front <+: earlier → state.hasPendingState = false := by
    intro within
    have known : ∀ timed ∈ front, timed ∈ inputs := by
      intro timed member
      rw [upTo]
      exact List.mem_append_left _ member
    exact ((waiting_initial broadcast).run before (fun timed member => honest timed (known timed
      member)) (fun timed member => repairable.sent timed (known timed member))
      fun timed member => silent timed (within.subset member)).nothing_pending
  rcases List.append_eq_append_iff.mp (upTo.symm.trans split) with
    ⟨back, isEarlier, -⟩ | ⟨back, isFront, others⟩
  · rw [unopened ⟨back, isEarlier.symm⟩] at pending
    cases pending
  · cases back with
    | nil =>
        rw [List.append_nil] at isFront
        rw [unopened (isFront ▸ List.prefix_refl _)] at pending
        cases pending
    | cons timed back =>
        rw [List.cons_append, List.cons.injEq] at others
        rcases others with ⟨rfl, rfl⟩
        subst isFront
        exact (repairable.flowing_upTo answered whole honest split silent receives isFirst
          before).2.asked pending

end Repairable

/-- What the loop makes of the flow: it is never later than the timetable, and whenever
anything waits after a round it has asked for all that the head position lacks. -/
structure KeepsTimetable (config : ReorderConfig) (broadcast : Broadcast)
    (reachedBy : Nat → Instant) (first : Nat) (inputs : List TimedInput)
    (final : ReorderState) : Prop extends HidesLateness broadcast first inputs final where
  reached : ∀ timed ∈ inputs, ∀ sequence, first ≤ sequence → sequence ≤ broadcast.last →
    reachedBy (sequence + 1) ≤ timed.now →
    (sequence, broadcast.content.payload sequence) ∈ forwards final.trace
  asked : ∀ earlier later state, inputs = earlier ++ later →
    reorderLoop config earlier = some state → state.hasPendingState = true →
    state.AskedFor state.nextSeq

/-- When every loss is repaired in time the loop hides it. -/
theorem repairs_keepTimetable (run : TimedRun config 0 .initial inputs last final)
    (honest : ∀ timed ∈ inputs, timed.Admitted (Honest broadcast.content))
    (repairable : Repairable config broadcast.toSchedule delay reachedBy first inputs)
    (answered : Answered config broadcast.content delay inputs) :
    KeepsTimetable config broadcast reachedBy first inputs final := by
  rcases repairable.flowing answered run honest with ⟨flowing, awaiting⟩
  refine ⟨flowing.hidesLateness, ?_, ?_⟩
  · intro timed member sequence within inRange due
    have passed := repairable.reached flowing awaiting (fun other member _ => member)
      ⟨timed, member, Nat.le_refl _⟩ inRange due
    rw [flowing.onTime.forwarded, Broadcast.between]
    apply List.mem_map_of_mem
    rw [List.mem_range'_1]
    omega
  · intro earlier later state split ran pending
    exact repairable.asked_upTo answered run honest split ran pending

/-! ## A payload that is repaired -/

/-- The times of `tolerant`, with repair requests. -/
def asking : ReorderConfig := ⟨some 10, 100, 10⟩

/-- The window waits for the second payload until two ticks after the third. -/
def waitingForSecond : Nat → Instant
  | 0 => 0
  | 1 => 1
  | 2 => 9
  | 3 => 9
  | _ => 15

def Effect.requested : Effect → Option RepairRequest
  | .repairRequest request => some request
  | _ => none

/-- The third packet has the loop ask for the second payload, and nothing else. -/
theorem overtaken_requests (count : Fin 5) :
    (reorderLoop asking (overtaken.take count)).map
        (fun state => state.trace.filterMap Effect.requested) =
      some (if 2 ≤ count.val then [⟨1, repairAllFragmentsMask⟩] else []) := by
  revert count
  decide +kernel

theorem overtaken_asks {earlier later : List TimedInput} (split : overtaken = earlier ++ later)
    (ran : reorderLoop asking earlier = some state) (request : RepairRequest) :
    .repairRequest request ∈ state.trace ↔
      2 ≤ earlier.length ∧ request = ⟨1, repairAllFragmentsMask⟩ := by
  have length := congrArg List.length split
  have four : overtaken.length = 4 := rfl
  rw [List.length_append] at length
  have within : earlier.length < 5 := by omega
  have taken : overtaken.take earlier.length = earlier := by rw [split, List.take_left]
  have requests := overtaken_requests ⟨earlier.length, within⟩
  simp only [taken, ran, Option.map_some, Option.some.injEq] at requests
  have traced : .repairRequest request ∈ state.trace ↔
      request ∈ state.trace.filterMap Effect.requested := by
    rw [List.mem_filterMap]
    constructor
    · exact fun member => ⟨_, member, rfl⟩
    · rintro ⟨effect, member, same⟩
      cases effect <;> cases same
      exact member
  rw [traced, requests]
  split <;> simp [*]

theorem overtaken_answered : Answered asking fourSent.content 2 overtaken := by
  intro earlier timed later split state request ran member round roundMember answered
  have whole := split
  rw [List.append_cons] at whole
  rcases (overtaken_asks whole ran request).mp member with ⟨second, rfl⟩
  rw [List.length_append] at second
  have late : ∀ other ∈ overtaken.drop 1, 7 ≤ other.now := by decide
  have timely : 7 ≤ timed.now := by
    apply late timed
    rw [split, List.drop_append_of_le_length (Nat.le_of_succ_le_succ second)]
    exact List.mem_append_right _ List.mem_cons_self
  left
  refine ⟨wholeAt 8 1, List.mem_filter.mpr ⟨by simp [overtaken], decide_eq_true ?_⟩, _, rfl, rfl⟩
  exact Nat.lt_of_lt_of_le (by decide) (Nat.add_le_add_right timely 2)

theorem overtaken_repairable :
    Repairable asking fourSent.toSchedule 2 waitingForSecond 0 overtaken where
  opens := overtaken_onlyLate.opens
  sent := overtaken_onlyLate.sent
  recent := overtaken_onlyLate.recent
  steady := overtaken_onlyLate.steady
  repairs := Option.some_ne_none _
  delayed := Nat.two_pos
  ordered := by
    rintro (_ | _ | _ | _ | sequence)
    · decide
    · decide
    · decide
    · decide
    · exact Nat.le_refl _
  inTime := by
    rintro (_ | _ | _ | _ | sequence) _ inRange
    · decide
    · decide
    · decide
    · decide
    · exact absurd inRange (Nat.not_le.mpr (Nat.le_add_left 4 sequence))
  reaches := by
    have latest : ∀ timed ∈ overtaken, timed.now ≤ 14 := by decide
    have never : ¬ (15 : Instant) ≤ 14 := by decide
    rintro timed member (_ | _ | _ | _ | sequence) _ _ due
    · left
      apply @complete_wholeAt _ 0 0
      exact List.mem_filter.mpr ⟨List.mem_cons_self, by decide⟩
    · -- The third payload shows that the second is missing.
      right
      refine ⟨7, ⟨wholeAt 7 2, by simp [overtaken], Nat.le_refl _, _, rfl, ?_⟩, ?_, Nat.le_refl _⟩
      · decide
      · decide
    · left
      apply @complete_wholeAt _ 7 2
      exact List.mem_filter.mpr ⟨by simp [overtaken], by decide⟩
    · exact absurd (Nat.le_trans due (latest timed member)) never
    · exact absurd (Nat.le_trans due (latest timed member)) never

/-- The second payload is asked for, and forwarded before anything is skipped. -/
theorem repairs_keepTimetable_overtaken :
    ∃ final, reorderLoop asking overtaken = some final ∧
      KeepsTimetable asking fourSent waitingForSecond 0 overtaken final := by
  rcases overtaken_run asking (by decide) with ⟨final, finished, run⟩
  exact ⟨final, finished, repairs_keepTimetable run overtaken_honest overtaken_repairable
    overtaken_answered⟩

end Irohsion.Server
