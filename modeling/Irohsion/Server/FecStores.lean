import Irohsion.Foundation.QueuedStore
import Irohsion.Server.StuckFrames

/-! # The two stores of the FEC state

Any sequence of calls on `FecState`, with the history of what it stored. The
payload cache always lists its keys by age. `recover_ready` takes frames out of
`frames` but not out of `frame_order`, so the frame store does so only as long
as every search finds all frames waiting for two members.
-/

namespace Irohsion.Server

open Protocol Std Queued

namespace FecState

/-! ## Searches -/

variable {fec : FecState} {nextSeq : Nat} {buffered : Buffered}

theorem foldl_recoverFrame_of_waits
    (waits : ∀ (base : Nat) (frame : FecFrame), fec.frames[base]? = some frame →
      fec.Waits buffered frame) (bases : List Nat) (recovered : List (Nat × Bytes)) :
    bases.foldl (recoverFrame nextSeq buffered) (fec, recovered) = (fec, recovered) := by
  induction bases with
  | nil => rfl
  | cons base rest induction =>
      have same : recoverFrame nextSeq buffered (fec, recovered) base = (fec, recovered) := by
        cases found : fec.frames[base]? with
        | none => simp only [recoverFrame, found]
        | some frame =>
            simp only [recoverFrame, found, waits_iff_scanFrame.mp (waits base frame found)]
      rw [List.foldl_cons, same, induction]

/-- A search changes nothing when all frames wait. -/
theorem recoverReady_of_waits
    (waits : ∀ (base : Nat) (frame : FecFrame), fec.frames[base]? = some frame →
      fec.Waits buffered frame) :
    fec.recoverReady nextSeq buffered = (fec, []) :=
  foldl_recoverFrame_of_waits waits _ _

theorem foldl_recoverFrame_frameOrder (bases : List Nat) (recovered : List (Nat × Bytes)) :
    (bases.foldl (recoverFrame nextSeq buffered) (fec, recovered)).1.frameOrder =
      fec.frameOrder := by
  induction bases generalizing fec recovered with
  | nil => rfl
  | cons base rest induction =>
      rw [List.foldl_cons]
      rcases recoverFrame_eq nextSeq buffered fec recovered base with ⟨same, -⟩ | ⟨-, erased⟩
      · rw [same, induction]
      · rw [erased, induction]

theorem recoverReady_frameOrder (fec : FecState) (nextSeq : Nat) (buffered : Buffered) :
    (fec.recoverReady nextSeq buffered).1.frameOrder = fec.frameOrder :=
  foldl_recoverFrame_frameOrder _ _

/-! ## Both stores -/

def frameStore (fec : FecState) : Store Nat FecFrame compare := ⟨fec.frameOrder, fec.frames⟩

def payloadStore (fec : FecState) : Store Nat Bytes compare := ⟨fec.payloadOrder, fec.payloads⟩

theorem frameStore_enforceFrameLimit (fec : FecState) :
    fec.enforceFrameLimit.frameStore = fec.frameStore.evict fecFrameTrackLimit := by
  apply Store.run_view frameStore
  · intro state fits
    exact if_pos fits
  · intro state excess empty
    have order : state.frameOrder = [] := empty
    exact (if_neg excess).trans (by rw [order])
  · intro state key rest excess front
    have order : state.frameOrder = key :: rest := front
    exact ⟨_, (if_neg excess).trans (by rw [order]), rfl⟩

theorem payloadStore_enforcePayloadLimit (fec : FecState) :
    fec.enforcePayloadLimit.payloadStore = fec.payloadStore.evict fecPayloadTrackLimit := by
  apply Store.run_view payloadStore
  · intro state fits
    exact if_pos fits
  · intro state excess empty
    have order : state.payloadOrder = [] := empty
    exact (if_neg excess).trans (by rw [order])
  · intro state key rest excess front
    have order : state.payloadOrder = key :: rest := front
    exact ⟨_, (if_neg excess).trans (by rw [order]), rfl⟩

theorem enforceFrameLimit_payloadStore (fec : FecState) :
    fec.enforceFrameLimit.payloadStore = fec.payloadStore := by
  apply BreakLoop.run_unchanged payloadStore
  intro state
  rw [enforceFrameStep]
  split
  · rfl
  · split <;> rfl

theorem enforcePayloadLimit_frameStore (fec : FecState) :
    fec.enforcePayloadLimit.frameStore = fec.frameStore := by
  apply BreakLoop.run_unchanged frameStore
  intro state
  rw [enforcePayloadStep]
  split
  · rfl
  · split <;> rfl

theorem frameStore_insertFrame (fec : FecState) (frame : FecFrame) :
    (fec.insertFrame frame).frameStore =
      (fec.frameStore.put frame.baseSequence frame).evict fecFrameTrackLimit :=
  frameStore_enforceFrameLimit _

theorem payloadStore_insertFrame (fec : FecState) (frame : FecFrame) :
    (fec.insertFrame frame).payloadStore = fec.payloadStore :=
  enforceFrameLimit_payloadStore _

theorem payloadStore_insertPayload {sequence : Nat} (payload : Bytes)
    (stores : ¬ (maxMediaSequence < sequence ∨ sequence ∈ fec.payloads)) :
    (fec.insertPayload sequence payload).payloadStore =
      (fec.payloadStore.put sequence payload).evict fecPayloadTrackLimit := by
  have fresh : sequence ∉ fec.payloadStore.map := fun member => stores (Or.inr member)
  rw [insertPayload, if_neg stores, payloadStore_enforcePayloadLimit, Store.put, if_neg fresh]
  rfl

theorem frameStore_insertPayload (fec : FecState) (sequence : Nat) (payload : Bytes) :
    (fec.insertPayload sequence payload).frameStore = fec.frameStore := by
  rw [insertPayload]
  split
  · rfl
  · exact enforcePayloadLimit_frameStore _

end FecState

/-! ## Sequences of calls -/

inductive FecCall
  | insertFrame (frame : FecFrame)
  | insertPayload (sequence : Nat) (payload : Bytes)
  | recoverReady (nextSeq : Nat) (buffered : Buffered)
  | clear

namespace FecCall

def apply (fec : FecState) : FecCall → FecState
  | .insertFrame frame => fec.insertFrame frame
  | .insertPayload sequence payload => fec.insertPayload sequence payload
  | .recoverReady nextSeq buffered => (fec.recoverReady nextSeq buffered).1
  | .clear => .empty

/-- The base under which a call stores a frame where none was stored. A frame
that comes again while it is stored replaces the entry and keeps its age. -/
def newFrame (fec : FecState) : FecCall → List Nat
  | .insertFrame frame => if frame.baseSequence ∈ fec.frames then [] else [frame.baseSequence]
  | .insertPayload _ _ | .recoverReady _ _ | .clear => []

/-- The sequence under which a call stores a payload. -/
def newPayload (fec : FecState) : FecCall → List Nat
  | .insertPayload sequence _ =>
      if maxMediaSequence < sequence ∨ sequence ∈ fec.payloads then [] else [sequence]
  | .insertFrame _ | .recoverReady _ _ | .clear => []

end FecCall

/-- The state together with what has entered each store so far, in order. -/
structure FecHistory where
  fec : FecState
  frameArrivals : List Nat
  payloadArrivals : List Nat

namespace FecHistory

def start : FecHistory := ⟨.empty, [], []⟩

def call (history : FecHistory) (next : FecCall) : FecHistory where
  fec := next.apply history.fec
  frameArrivals := history.frameArrivals ++ next.newFrame history.fec
  payloadArrivals := history.payloadArrivals ++ next.newPayload history.fec

def after (calls : List FecCall) : FecHistory := calls.foldl call start

/-- The queues list exactly the keys of their maps, each once, oldest first, and
keep to the limits. -/
structure InStep (history : FecHistory) : Prop where
  frames : history.fec.frameOrder = byAge history.fec.frames.contains history.frameArrivals
  frames_mem : ∀ base, base ∈ history.fec.frameOrder ↔ base ∈ history.fec.frames
  frames_bounded : history.fec.frameOrder.length ≤ fecFrameTrackLimit
  payloads : history.fec.payloadOrder =
    byAge history.fec.payloads.contains history.payloadArrivals
  payloads_mem : ∀ sequence,
    sequence ∈ history.fec.payloadOrder ↔ sequence ∈ history.fec.payloads
  payloads_bounded : history.fec.payloadOrder.length ≤ fecPayloadTrackLimit

/-- Of what is stored before an insertion and the new entry, by age, the store
keeps the newest entries, as many as the limit allows. -/
def EvictsOldest (history : FecHistory) : FecCall → Prop
  | .insertFrame frame =>
      let held := byAge
        (fun base => decide (base = frame.baseSequence) || history.fec.frames.contains base)
        (history.call (.insertFrame frame)).frameArrivals
      byAge (history.fec.insertFrame frame).frames.contains
          (history.call (.insertFrame frame)).frameArrivals =
        held.drop (held.length - fecFrameTrackLimit)
  | .insertPayload sequence payload =>
      let held := byAge
        (fun other => decide (other ∈ (FecCall.insertPayload sequence payload).newPayload
          history.fec) || history.fec.payloads.contains other)
        (history.call (.insertPayload sequence payload)).payloadArrivals
      byAge (history.fec.insertPayload sequence payload).payloads.contains
          (history.call (.insertPayload sequence payload)).payloadArrivals =
        held.drop (held.length - fecPayloadTrackLimit)
  | .recoverReady _ _ | .clear => True

/-! ## What calls keep -/

structure AgedFrames (history : FecHistory) : Prop where
  aged : history.fec.frameStore.Aged history.frameArrivals
  bounded : history.fec.frameOrder.length ≤ fecFrameTrackLimit

structure AgedPayloads (history : FecHistory) : Prop where
  aged : history.fec.payloadStore.Aged history.payloadArrivals
  bounded : history.fec.payloadOrder.length ≤ fecPayloadTrackLimit

/-- Only a search in which some frame does not wait gets the frame store out of
step. -/
def LeavesFrames (history : FecHistory) : FecCall → Prop
  | .recoverReady _ buffered => ∀ (base : Nat) (frame : FecFrame),
      history.fec.frames[base]? = some frame → history.fec.Waits buffered frame
  | .insertFrame _ | .insertPayload _ _ | .clear => True

variable {history : FecHistory} {next : FecCall}

theorem AgedFrames.same (aged : AgedFrames history) {fec : FecState} {payloadArrivals : List Nat}
    (store : fec.frameStore = history.fec.frameStore) :
    AgedFrames ⟨fec, history.frameArrivals, payloadArrivals⟩ where
  aged := store ▸ aged.aged
  bounded := by
    have order : fec.frameOrder = history.fec.frameOrder := congrArg Store.order store
    rw [order]
    exact aged.bounded

theorem AgedFrames.call (aged : AgedFrames history) (leaves : history.LeavesFrames next) :
    AgedFrames (history.call next) := by
  cases next with
  | insertFrame frame =>
      have put := aged.aged.put frame.baseSequence frame
      have store := history.fec.frameStore_insertFrame frame
      constructor
      · rw [FecHistory.call, FecCall.apply, store]
        exact (put.evict fecFrameTrackLimit).1
      · have bounded := put.length_evict_le fecFrameTrackLimit
        rw [← store] at bounded
        exact bounded
  | insertPayload sequence payload =>
      rw [FecHistory.call, FecCall.newFrame, List.append_nil]
      exact aged.same (history.fec.frameStore_insertPayload sequence payload)
  | recoverReady nextSeq buffered =>
      rw [FecHistory.call, FecCall.newFrame, List.append_nil, FecCall.apply,
        FecState.recoverReady_of_waits leaves]
      exact aged.same rfl
  | clear =>
      exact ⟨.empty _, Nat.zero_le _⟩

theorem AgedPayloads.same (aged : AgedPayloads history) {fec : FecState}
    {frameArrivals : List Nat} (store : fec.payloadStore = history.fec.payloadStore) :
    AgedPayloads ⟨fec, frameArrivals, history.payloadArrivals⟩ where
  aged := store ▸ aged.aged
  bounded := by
    have order : fec.payloadOrder = history.fec.payloadOrder := congrArg Store.order store
    rw [order]
    exact aged.bounded

theorem AgedPayloads.call (aged : AgedPayloads history) (next : FecCall) :
    AgedPayloads (history.call next) := by
  cases next with
  | insertFrame frame =>
      rw [FecHistory.call, FecCall.newPayload, List.append_nil]
      exact aged.same (history.fec.payloadStore_insertFrame frame)
  | insertPayload sequence payload =>
      rw [FecHistory.call, FecCall.newPayload]
      by_cases stores : maxMediaSequence < sequence ∨ sequence ∈ history.fec.payloads
      · rw [if_pos stores, List.append_nil, FecCall.apply, FecState.insertPayload, if_pos stores]
        exact aged.same rfl
      · have fresh : sequence ∉ history.fec.payloadStore.map :=
          fun member => stores (Or.inr member)
        have put := aged.aged.put sequence payload
        have store := FecState.payloadStore_insertPayload payload stores
        rw [if_neg fresh] at put
        rw [if_neg stores]
        constructor
        · rw [FecCall.apply, store]
          exact (put.evict fecPayloadTrackLimit).1
        · have bounded := put.length_evict_le fecPayloadTrackLimit
          rw [← store] at bounded
          exact bounded
  | recoverReady nextSeq buffered =>
      rw [FecHistory.call, FecCall.newPayload, List.append_nil]
      apply aged.same
      have searched := FecState.recoverReady_searched history.fec nextSeq buffered
      rw [FecCall.apply, FecState.payloadStore, FecState.payloadStore, searched.payloads,
        searched.payloadOrder]
  | clear => exact ⟨.empty _, Nat.zero_le _⟩

theorem inStep_of_aged (frames : AgedFrames history) (payloads : AgedPayloads history) :
    history.InStep :=
  ⟨frames.aged.order_eq, frames.aged.mem_iff, frames.bounded, payloads.aged.order_eq,
    payloads.aged.mem_iff, payloads.bounded⟩

theorem evictsOldest_of_aged (frames : AgedFrames history) (payloads : AgedPayloads history)
    (next : FecCall) : history.EvictsOldest next := by
  cases next with
  | insertFrame frame =>
      have kept := frames.aged.byAge_evict_put frame.baseSequence frame fecFrameTrackLimit
      rw [← FecState.frameStore_insertFrame] at kept
      exact kept
  | insertPayload sequence payload =>
      rw [EvictsOldest, FecHistory.call, FecCall.newPayload]
      by_cases stores : maxMediaSequence < sequence ∨ sequence ∈ history.fec.payloads
      · have short : (byAge history.fec.payloads.contains history.payloadArrivals).length -
            fecPayloadTrackLimit = 0 := by
          have order : history.fec.payloadOrder = _ := payloads.aged.order_eq
          exact Nat.sub_eq_zero_of_le (Nat.le_trans (Nat.le_of_eq (congrArg _ order.symm))
            payloads.bounded)
        rw [FecState.insertPayload, if_pos stores, if_pos stores, List.append_nil]
        simp only [List.not_mem_nil, decide_false, Bool.false_or]
        exact (congrArg (List.drop · _) short).symm
      · have fresh : sequence ∉ history.fec.payloadStore.map :=
          fun member => stores (Or.inr member)
        have kept := payloads.aged.byAge_evict_put sequence payload fecPayloadTrackLimit
        rw [← FecState.payloadStore_insertPayload payload stores, if_neg fresh] at kept
        rw [if_neg stores]
        simp only [List.mem_singleton]
        exact kept
  | recoverReady _ _ | clear => trivial

theorem after_append (calls : List FecCall) (next : FecCall) :
    after (calls ++ [next]) = (after calls).call next :=
  List.foldl_concat _ _ _ _

/-- The payload cache is in step after any calls. -/
theorem agedPayloads_after (calls : List FecCall) : (after calls).AgedPayloads := by
  induction calls using List.reverseRecOn with
  | nil => exact ⟨.empty [], Nat.zero_le _⟩
  | append_singleton earlier next induction =>
      rw [after_append]
      exact induction.call next

theorem agedFrames_after {calls : List FecCall}
    (leaves : ∀ earlier next, earlier ++ [next] <+: calls → (after earlier).LeavesFrames next) :
    (after calls).AgedFrames := by
  induction calls using List.reverseRecOn with
  | nil => exact ⟨.empty [], Nat.zero_le _⟩
  | append_singleton earlier next induction =>
      rw [after_append]
      apply (induction _).call (leaves earlier next (List.prefix_refl _))
      intro before other front
      exact leaves before other (front.trans (List.prefix_append earlier [next]))

/-- A search that takes a frame out leaves its base in the queue. -/
theorem leaves_of_inStep (before : history.InStep) (later : (history.call next).InStep) :
    history.LeavesFrames next := by
  cases next with
  | recoverReady nextSeq buffered =>
      intro base frame found
      have listed := (before.frames_mem base).mpr (OrderedMap.mem_of_getElem? found)
      have unchanged := history.fec.recoverReady_frameOrder nextSeq buffered
      have stored := (later.frames_mem base).mp (by
        rw [FecHistory.call, FecCall.apply, unchanged]
        exact listed)
      rcases OrderedMap.mem_iff_getElem?.mp stored with ⟨kept, keptFound⟩
      have same := (FecState.recoverReady_searched history.fec nextSeq buffered).frames keptFound
      cases found.symm.trans same
      exact FecState.waits_of_kept keptFound
  | insertFrame _ | insertPayload _ _ | clear => trivial

/-- Over any calls, both stores stay in step and evict the oldest exactly when
every search is made while all stored frames wait for two members. -/
theorem inStep_iff_waits (calls : List FecCall) :
    (∀ earlier, earlier <+: calls → (after earlier).InStep ∧
        ∀ next, earlier ++ [next] <+: calls → (after earlier).EvictsOldest next) ↔
      ∀ earlier nextSeq buffered, earlier ++ [.recoverReady nextSeq buffered] <+: calls →
        ∀ (base : Nat) (frame : FecFrame), (after earlier).fec.frames[base]? = some frame →
          (after earlier).fec.Waits buffered frame := by
  constructor
  · intro inStep earlier nextSeq buffered front
    have before := (inStep earlier ((List.prefix_append _ _).trans front)).1
    have later := (inStep _ front).1
    rw [after_append] at later
    exact leaves_of_inStep before later
  · intro waits earlier front
    have leaves : ∀ before next, before ++ [next] <+: earlier →
        (after before).LeavesFrames next := by
      intro before next nextFront
      cases next with
      | recoverReady nextSeq buffered => exact waits before nextSeq buffered (nextFront.trans front)
      | insertFrame _ | insertPayload _ _ | clear => trivial
    have frames := agedFrames_after leaves
    have payloads := agedPayloads_after earlier
    exact ⟨inStep_of_aged frames payloads, fun next _ => evictsOldest_of_aged frames payloads next⟩

/-- The frame that a search uses up stays in the queue. -/
theorem recovered_stays_queued :
    (after [.insertFrame ⟨0, [1], [5]⟩, .recoverReady 0 ∅]).fec.frameOrder = [0] ∧
      (after [.insertFrame ⟨0, [1], [5]⟩, .recoverReady 0 ∅]).fec.frames.toList = [] ∧
      ¬ (after [.insertFrame ⟨0, [1], [5]⟩, .recoverReady 0 ∅]).InStep := by
  have order : (after [.insertFrame ⟨0, [1], [5]⟩, .recoverReady 0 ∅]).fec.frameOrder = [0] := by
    decide +kernel
  have frames : (after [.insertFrame ⟨0, [1], [5]⟩, .recoverReady 0 ∅]).fec.frames.toList =
      [] := by decide +kernel
  refine ⟨order, frames, ?_⟩
  intro inStep
  have listed := (inStep.frames_mem 0).mp (by rw [order]; exact List.mem_singleton_self 0)
  rw [ExtTreeMap.toList_eq_nil_iff.mp frames] at listed
  exact ExtTreeMap.not_mem_empty listed

end FecHistory

end Irohsion.Server
