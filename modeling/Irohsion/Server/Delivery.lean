import Irohsion.Foundation.InOrderDelivery
import Irohsion.Server.LoopInvariant

/-! # The reorder loop delivers in order

Read as events of the abstract receiver, the effects of every run are
transitions of it: its position is `next_seq` and it holds the payloads in
`buffered`.
-/

namespace Irohsion.Server

open Protocol Std

/-- What an effect means to the abstract receiver. -/
def Effect.delivery : Effect → Option (InOrder.Event Nat Bytes)
  | .flowStart sequence => some (.start sequence)
  | .flowReset sequence discarded => some (.restart sequence discarded)
  | .accept sequence payload => some (.accept sequence payload)
  | .forward sequence payload => some (.forward sequence payload)
  | .skip sequence _ => some (.skip sequence)
  | _ => none

def deliveries (trace : List Effect) : List (InOrder.Event Nat Bytes) :=
  trace.filterMap Effect.delivery

theorem deliveries_append (trace later : List Effect) :
    deliveries (trace ++ later) = deliveries trace ++ deliveries later :=
  List.filterMap_append

/-- The bag of payloads in `buffered`. -/
def ReorderState.held (state : ReorderState) : Multiset (Nat × Bytes) :=
  Multiset.ofList state.heldPayloads

/-- The start of a receiver, before any flow. -/
def idleReceiver : InOrder.Receiver Nat Bytes := ⟨0, 0⟩

/-- The receiver with the given position that holds what is buffered. -/
structure Refines (state : ReorderState) (receiver : InOrder.Receiver Nat Bytes) : Prop where
  transitions : InOrder.Transitions nextSequence idleReceiver (deliveries state.trace) receiver
  held : receiver.held = state.held
  position : state.initialized = true → receiver.position = state.nextSeq
  flow : state.initialized = true → ∃ current, InOrder.flow (deliveries state.trace) = some current

def InOrderState (state : ReorderState) : Prop := ∃ receiver, Refines state receiver

theorem held_eq (state : ReorderState) :
    state.held =
      (OrderedMap.entries state.buffered).map fun entry => (entry.1, entry.2.payload) := rfl

theorem held_of_found {state : ReorderState} {sequence : Nat} {packet : BufferedPacket}
    (found : state.buffered[sequence]? = some packet) {after : ReorderState}
    (erased : after.buffered = state.buffered.erase sequence) :
    state.held = (sequence, packet.payload) ::ₘ after.held := by
  rw [held_eq, held_eq, OrderedMap.entries_erase found, Multiset.map_cons, erased]

theorem held_of_fresh {state after : ReorderState} {sequence : Nat} {packet : BufferedPacket}
    (fresh : sequence ∉ state.buffered)
    (inserted : after.buffered = state.buffered.insert sequence packet) :
    after.held = (sequence, packet.payload) ::ₘ state.held := by
  rw [held_eq, held_eq, inserted, OrderedMap.entries_insert fresh, Multiset.map_cons]

theorem held_of_empty {state : ReorderState} (empty : state.buffered = ∅) : state.held = 0 := by
  rw [held_eq, empty, OrderedMap.entries_empty, Multiset.map_zero]

theorem free_of_not_mem {state : ReorderState} {receiver : InOrder.Receiver Nat Bytes}
    {sequence : Nat} (held : receiver.held = state.held) (absent : sequence ∉ state.buffered) :
    receiver.Free sequence := by
  intro payload member
  rw [held, held_eq, Multiset.mem_map] at member
  rcases member with ⟨entry, member, equal⟩
  rcases entry with ⟨key, packet⟩
  cases equal
  exact absent (OrderedMap.mem_of_getElem? (OrderedMap.mem_entries.mp member))

theorem flow_append {log : List (InOrder.Event Nat Bytes)} {current : Nat × List Nat}
    (found : InOrder.flow log = some current) (event : InOrder.Event Nat Bytes) :
    ∃ later, InOrder.flow (log ++ [event]) = some later := by
  rw [InOrder.flow] at found
  rw [InOrder.flow, List.foldl_append, found]
  cases event <;> exact ⟨_, rfl⟩

namespace Refines

variable {state after : ReorderState} {receiver final : InOrder.Receiver Nat Bytes}

/-- Effects that the receiver does not see. -/
theorem silent (refines : Refines state receiver) {effects : List Effect}
    (trace : after.trace = state.trace ++ effects) (unseen : deliveries effects = [])
    (buffered : after.buffered = state.buffered) (nextSeq : after.nextSeq = state.nextSeq)
    (initialized : after.initialized = state.initialized) : Refines after receiver where
  transitions := by
    rw [trace, deliveries_append, unseen, List.append_nil]
    exact refines.transitions
  held := by rw [refines.held, held_eq, held_eq, buffered]
  position active := by rw [nextSeq]; exact refines.position (initialized ▸ active)
  flow active := by
    rw [trace, deliveries_append, unseen, List.append_nil]
    exact refines.flow (initialized ▸ active)

/-- An effect that is one event of the receiver. -/
theorem event (refines : Refines state receiver) (active : state.initialized = true)
    {effect : Effect} {seen : InOrder.Event Nat Bytes} (delivery : effect.delivery = some seen)
    (trace : after.trace = state.trace ++ [effect])
    (step : InOrder.Step nextSequence receiver seen final) (held : final.held = after.held)
    (position : final.position = after.nextSeq) : Refines after final := by
  have log : deliveries after.trace = deliveries state.trace ++ [seen] := by
    rw [trace, deliveries_append]
    simp [deliveries, delivery]
  constructor
  · rw [log]
    exact refines.transitions.snoc step
  · exact held
  · exact fun _ => position
  · intro _
    rcases refines.flow active with ⟨current, found⟩
    rw [log]
    exact flow_append found seen

theorem drain (refines : Refines state receiver) (active : state.initialized = true)
    {packet : BufferedPacket} (found : state.buffered[state.nextSeq]? = some packet) :
    ∃ final, Refines (drainPacket packet state) final := by
  have held := held_of_found found (rfl : (drainPacket packet state).buffered = _)
  have position := refines.position active
  refine ⟨⟨nextSequence state.nextSeq, (drainPacket packet state).held⟩,
    refines.event active rfl rfl ?_ rfl rfl⟩
  rcases receiver with ⟨current, waiting⟩
  rw [show waiting = _ from refines.held, show current = _ from position, held]
  exact InOrder.Step.forward

theorem skip (refines : Refines state receiver) (active : state.initialized = true)
    (absent : state.nextSeq ∉ state.buffered) (reason : SkipReason)
    (trace : after.trace = state.trace ++ [.skip state.nextSeq reason])
    (buffered : after.buffered = state.buffered)
    (nextSeq : after.nextSeq = nextSequence state.nextSeq) :
    ∃ final, Refines after final := by
  have position := refines.position active
  have free := free_of_not_mem refines.held absent
  have step : InOrder.Step nextSequence receiver (.skip receiver.position) _ :=
    InOrder.Step.skip (by rw [position]; exact free)
  rw [position] at step
  refine ⟨_, refines.event active rfl trace step ?_ nextSeq.symm⟩
  show receiver.held = after.held
  rw [refines.held, held_eq, held_eq, buffered]

/-- Noting a payload as accepted puts it into the bag. -/
theorem note (refines : Refines state receiver) {sequence : Nat} (payload : Bytes)
    (fresh : state.Fresh sequence) :
    InOrder.Step nextSequence receiver (.accept sequence payload)
      ⟨receiver.position, (sequence, payload) ::ₘ state.held⟩ := by
  rw [← refines.held]
  refine InOrder.Step.accept (free_of_not_mem refines.held ?_)
  exact fun member => fresh (Or.inr (Or.inr member))

theorem settle (refines : Refines state receiver) (active : state.initialized = true)
    (now : Instant) {sequence : Nat} (payload : Bytes) (fresh : state.Fresh sequence) :
    ∃ final, Refines (settle now sequence payload state) final := by
  have absent : sequence ∉ state.buffered := fun member => fresh (Or.inr (Or.inr member))
  have position := refines.position active
  have accept := refines.note payload fresh
  by_cases expected : sequence = state.nextSeq
  · have outcome := settle_of_expected now payload expected
    have log : deliveries (Server.settle now sequence payload state).trace =
        deliveries state.trace ++ [.accept sequence payload] ++ [.forward sequence payload] := by
      rw [outcome]
      simp [forwardAccepted, noteAccepted, ReorderState.release, deliveries, Effect.delivery]
    have forward : InOrder.Step nextSequence
        ⟨sequence, (sequence, payload) ::ₘ state.held⟩ (.forward sequence payload)
        ⟨nextSequence sequence, state.held⟩ := InOrder.Step.forward
    rw [position, ← expected] at accept
    refine ⟨⟨nextSequence sequence, state.held⟩, ?_, ?_, ?_, ?_⟩
    · rw [log]
      exact (refines.transitions.snoc accept).snoc forward
    · rw [outcome]
      rfl
    · intro _
      rw [outcome, expected]
      rfl
    · intro _
      rcases refines.flow active with ⟨current, found⟩
      rcases flow_append found (.accept sequence payload) with ⟨later, found⟩
      rw [log]
      exact flow_append found _
  · have outcome := settle_of_ahead now payload expected
    have delivery : Effect.delivery (.accept sequence payload) =
        some (.accept sequence payload) := rfl
    have inserted : (Server.settle now sequence payload state).buffered =
        state.buffered.insert sequence ⟨payload, now⟩ := by
      rw [outcome]
      rfl
    refine ⟨_, refines.event active delivery ?_ accept ?_ ?_⟩
    · rw [outcome]
      rfl
    · exact (held_of_fresh absent inserted).symm
    · rw [outcome]
      exact position

theorem windowMove {config : ReorderConfig} {now : Instant} {Source : Nat → Bytes → Prop}
    (refines : Refines state receiver) (active : state.initialized = true)
    (move : WindowMove config now Source state after) : InOrderState after := by
  cases move with
  | report sequence length => exact ⟨receiver, refines.silent rfl rfl rfl rfl rfl⟩
  | drain found => exact refines.drain active found
  | search =>
      exact ⟨receiver, refines.silent (List.append_nil _).symm rfl rfl rfl rfl⟩
  | settle _ fresh _ => exact refines.settle active now _ fresh
  | request requests _ =>
      refine ⟨receiver, refines.silent rfl ?_ rfl rfl rfl⟩
      simp [deliveries, List.filterMap_map, Effect.delivery]
  | skipFragment absent _ _ => exact refines.skip active absent _ rfl rfl rfl
  | skipMissing absent _ _ _ => exact refines.skip active absent _ rfl rfl rfl

theorem start (refines : Refines state receiver) (empty : state.buffered = ∅)
    (packet : ReceivedPacket) :
    Refines (startFlow packet state) ⟨packet.header.sequence, 0⟩ := by
  have log : deliveries (startFlow packet state).trace =
      deliveries state.trace ++ [.start packet.header.sequence] := by
    simp [startFlow, ReorderState.emit, ReorderState.setReplyRoutes, deliveries,
      Effect.delivery]
  have nothing : receiver.held = 0 := refines.held.trans (held_of_empty empty)
  constructor
  · rw [log]
    apply refines.transitions.snoc
    rcases receiver with ⟨current, waiting⟩
    rw [show waiting = 0 from nothing]
    exact InOrder.Step.start
  · exact (held_of_empty empty).symm
  · exact fun _ => rfl
  · intro _
    rw [log, InOrder.flow, List.foldl_append]
    exact ⟨_, rfl⟩

theorem restart (refines : Refines state receiver) (packet : ReceivedPacket) :
    Refines (restartFlow packet state) ⟨packet.header.sequence, 0⟩ := by
  have log : deliveries (restartFlow packet state).trace =
      deliveries state.trace ++ [.restart packet.header.sequence state.heldPayloads] := by
    simp [restartFlow, ReorderState.emit, ReorderState.setReplyRoutes, deliveries,
      Effect.delivery]
  constructor
  · rw [log]
    apply refines.transitions.snoc
    rcases receiver with ⟨current, waiting⟩
    rw [show waiting = Multiset.ofList state.heldPayloads from refines.held]
    exact InOrder.Step.restart
  · exact (held_of_empty rfl).symm
  · exact fun _ => rfl
  · intro _
    rw [log, InOrder.flow, List.foldl_append]
    exact ⟨_, rfl⟩

theorem roundMove {now : Instant} {Admissible : ReceivedFrame → Prop}
    (refines : Refines state receiver) (consistent : Consistent state)
    (move : RoundMove now Admissible state after) : InOrderState after := by
  cases move with
  | routes _ | observe _ | join _ | assemble _ _ _ _ _ | store _ =>
      exact ⟨receiver, refines.silent (List.append_nil _).symm rfl rfl rfl rfl⟩
  | duplicate _ | lateAfterSkip _ => exact ⟨receiver, refines.silent rfl rfl rfl rfl rfl⟩
  | start idle => exact ⟨_, refines.start (consistent.idle_buffered idle) _⟩
  | restart _ _ => exact ⟨_, refines.restart _⟩
  | idle _ pending =>
      refine ⟨receiver, refines.transitions, refines.held, ?_, ?_⟩ <;>
        (intro impossible; cases impossible)

end Refines

theorem inOrderState_initial : InOrderState .initial := by
  refine ⟨idleReceiver, .nil, (held_of_empty rfl).symm, ?_, ?_⟩ <;>
    (intro impossible; cases impossible)

theorem inOrderState_invariant (config : ReorderConfig) :
    LoopInvariant config (fun _ => True) (fun _ _ => True) InOrderState where
  round := by
    intro now before after consistent move refinement
    rcases refinement with ⟨receiver, refines⟩
    exact refines.roundMove consistent move
  window now :=
    { move := by
        intro before after wellFormed active move refinement
        rcases refinement with ⟨receiver, refines⟩
        exact refines.windowMove active move
      recovered := fun _ _ _ => trivial }
  whole _ _ := trivial
  assembled _ _ _ _ _ _ := trivial

/-- In every run the loop refines the receiver. -/
theorem reorderLoop_refines {config : ReorderConfig} {inputs : List TimedInput}
    {state : ReorderState} (reached : reorderLoop config inputs = some state) :
    Consistent state ∧ InOrderState state :=
  (inOrderState_invariant config).of_reached inOrderState_initial (fun _ _ _ _ => trivial) reached

/-- No run panics. -/
theorem reorderLoop_finishes (config : ReorderConfig) (inputs : List TimedInput) :
    ∃ final, reorderLoop config inputs = some final := by
  rcases (inOrderState_invariant config).reorderLoop inOrderState_initial
    (fun timed (_ : timed ∈ inputs) _ _ => trivial) with ⟨final, finished, _⟩
  exact ⟨final, finished⟩

/-! ## What the call sites hand over -/

/-- The payloads that are logged as accepted, in order. -/
def Effect.accepted : Effect → Option (Nat × Bytes)
  | .accept sequence payload => some (sequence, payload)
  | _ => none

def accepts (trace : List Effect) : List (Nat × Bytes) :=
  trace.filterMap Effect.accepted

theorem drainReady_accepts (state : ReorderState) :
    accepts (drainReady state).trace = accepts state.trace := by
  apply BreakLoop.run_unchanged fun state => accepts (ReorderState.trace state)
  intro state
  rw [drainStep]
  split
  · rfl
  · simp [ForInStep.value, drainPacket, accepts, Effect.accepted]

/-- Each call logs what it is called with, and nothing else. -/
theorem acceptCompletePayload_accepts (now : Instant) (sequence : Nat) (payload : Bytes)
    (state : ReorderState) :
    accepts (acceptCompletePayload now sequence payload state).trace =
      accepts state.trace ++ [(sequence, payload)] := by
  rw [acceptCompletePayload]
  split
  · rw [drainReady_accepts]
    simp [forwardAccepted, noteAccepted, accepts, Effect.accepted]
  · simp [bufferAccepted, noteAccepted, accepts, Effect.accepted]

/-- A recovered payload is handed over if it is fresh. -/
theorem acceptRecovered_accepts (now : Instant) (progress : ReorderState × Bool)
    (pair : Nat × Bytes) :
    (progress.1.Fresh pair.1 ∧ accepts (acceptRecovered now progress pair).1.trace =
        accepts progress.1.trace ++ [pair]) ∨
      (¬ progress.1.Fresh pair.1 ∧ (acceptRecovered now progress pair).1 = progress.1) := by
  simp only [acceptRecovered, ReorderState.Fresh]
  split
  · rename_i stale
    exact Or.inr ⟨not_not_intro stale, rfl⟩
  · rename_i fresh
    refine Or.inl ⟨fresh, ?_⟩
    rw [acceptCompletePayload_accepts]
    simp [ReorderState.emit, accepts, Effect.accepted]

/-- A completed payload is handed over under its own position, and before whatever
can be recovered with it. -/
theorem processAdmitted_accepts {config : ReorderConfig} {now : Instant}
    {packet : ReceivedPacket} {state taken : ReorderState} {payload : Bytes}
    (wellFormed : WellFormed state) (fresh : state.Fresh packet.header.sequence)
    (completes : reassemble now packet state = some (.complete payload taken)) :
    ∃ accepted, processAdmitted config now packet state =
        advanceReorderWindow config now (recoverFecReady now accepted) ∧
      accepts accepted.trace = accepts state.trace ++ [(packet.header.sequence, payload)] := by
  have unlogged : taken = takeComplete packet.header.sequence state := by
    by_cases whole : packet.header.fragments = 1
    · rw [reassemble_whole whole] at completes
      cases completes
      rfl
    · rcases reassemble_cases now wellFormed whole with
        ⟨-, outcome⟩ | ⟨filled, -, ⟨-, outcome⟩ | ⟨-, other, -, outcome⟩⟩
      · cases outcome.symm.trans completes
      · cases outcome.symm.trans completes
      · cases outcome.symm.trans completes
        rfl
  refine ⟨acceptCompletePayload now packet.header.sequence payload taken, ?_, ?_⟩
  · rw [processAdmitted, if_neg fresh, completes]
  · rw [acceptCompletePayload_accepts, unlogged, takeComplete]

/-! ## Whole runs -/

/-- What the loop forwards and skips since the last flow start is exactly the
sequence of positions from there to `next_seq`, and every accepted payload is
forwarded once, still buffered or discarded by a restart, and never skipped. -/
theorem reorderLoop_delivers_in_order (config : ReorderConfig) (inputs : List TimedInput) :
    ∃ final, reorderLoop config inputs = some final ∧
      (final.initialized = true → ∃ origin passed,
        InOrder.flow (deliveries final.trace) = some (origin, passed) ∧
          final.nextSeq = nextSequence^[passed.length] origin) ∧
      (∀ origin passed, InOrder.flow (deliveries final.trace) = some (origin, passed) →
        passed = List.iterate nextSequence origin passed.length) ∧
      InOrder.accepted (deliveries final.trace) =
        InOrder.forwarded (deliveries final.trace) + InOrder.discarded (deliveries final.trace) +
          final.held ∧
      ∀ before sequence reason after, final.trace = before ++ .skip sequence reason :: after →
        ∀ payload, (InOrder.accepted (deliveries before)).count (sequence, payload) =
          (InOrder.forwarded (deliveries before)).count (sequence, payload) +
            (InOrder.discarded (deliveries before)).count (sequence, payload) := by
  rcases reorderLoop_finishes config inputs with ⟨final, finished⟩
  rcases reorderLoop_refines finished with ⟨_, receiver, refines⟩
  refine ⟨final, finished, ?_, ?_, ?_, ?_⟩
  · intro active
    rcases refines.flow active with ⟨⟨origin, passed⟩, found⟩
    rw [← refines.position active]
    exact ⟨origin, passed, found, (refines.transitions.inStep _ found).2⟩
  · intro origin passed found
    exact (refines.transitions.inStep _ found).1
  · have balance := refines.transitions.conservation
    rw [refines.held] at balance
    rw [← balance, idleReceiver, zero_add]
  · intro before sequence reason after trace payload
    have transitions := refines.transitions
    rw [trace, deliveries_append] at transitions
    exact InOrder.Transitions.skip_free rfl transitions

end Irohsion.Server
