import Irohsion.Server.ReorderState

/-! # The reorder loop

`reorder_loop` and the functions that it calls, on an explicit state. The clock
is read once for each received frame or timeout. Functions that may panic
return an `Option`; sends to the UDP destination succeed.
-/

namespace Irohsion.Server

open Protocol Std

def maxRepairRequestsPerTick : Nat := 64

/-! ## Draining and skipping -/

/-- The body of `drain_ready` once a packet has been removed. -/
def drainPacket (packet : BufferedPacket) (state : ReorderState) : ReorderState :=
  { state with
    buffered := state.buffered.erase state.nextSeq
    gapRepairRequests := state.gapRepairRequests.erase state.nextSeq
    fecState := state.fecState.insertPayload state.nextSeq packet.payload
    trace := state.trace ++ [.forward state.nextSeq packet.payload]
    seen := state.seen.erase state.nextSeq
    nextSeq := nextSequence state.nextSeq }

def drainStep (state : ReorderState) : ForInStep ReorderState :=
  match state.buffered[state.nextSeq]? with
  | none => .done state
  | some packet => .yield (drainPacket packet state)

def drainReady (state : ReorderState) : ReorderState :=
  BreakLoop.run drainStep (state.buffered.size + 1) state

def skipSequence (reason : SkipReason) (state : ReorderState) : ReorderState :=
  { state with
    nextSeq := nextSequence state.nextSeq
    gapRepairRequests := state.gapRepairRequests.erase state.nextSeq
    skippedSequences := state.skippedSequences.insert state.nextSeq
    trace := state.trace ++ [.skip state.nextSeq reason] }

/-- The assembly at `next_seq` is given up before its position is skipped. -/
def dropHeadAssembly (state : ReorderState) : ReorderState :=
  { state with
    fragments := state.fragments.erase state.nextSeq
    seen := state.seen.erase state.nextSeq }

def oldestPending (state : ReorderState) : Option Instant :=
  (state.buffered.toList.map (fun entry => entry.2.receivedAt) ++
    state.fragments.toList.map fun entry => entry.2.firstSeen).min?

def expireStep (config : ReorderConfig) (now : Instant) (state : ReorderState) :
    ForInStep ReorderState :=
  if state.nextSeq ∈ state.buffered then .done state
  else
    match state.fragments[state.nextSeq]? with
    | some assembly =>
        if assembly.firstSeen.elapsed now < config.maxReorderDelay then .done state
        else .yield (skipSequence .fragmentIncomplete (dropHeadAssembly state))
    | none =>
        match oldestPending state with
        | none => .done state
        | some oldest =>
            if oldest.elapsed now < config.maxReorderDelay then .done state
            else .yield (skipSequence .neverReceived state)

/-- The bound exceeds the number of positions, which is more rounds than the
loop can take. -/
def expireReorderGap (config : ReorderConfig) (now : Instant) (state : ReorderState) :
    ReorderState :=
  BreakLoop.run (expireStep config now) (maxMediaSequence + 2) state

/-! ## Accepting complete payloads -/

/-- `accept_complete_payload` for the expected sequence, up to `drain_ready`. -/
def forwardAccepted (sequence : Nat) (payload : Bytes) (state : ReorderState) : ReorderState :=
  { state with
    gapRepairRequests := state.gapRepairRequests.erase sequence
    trace := state.trace ++ [.forward sequence payload]
    seen := state.seen.erase sequence
    nextSeq := nextSequence state.nextSeq }

def bufferAccepted (now : Instant) (sequence : Nat) (payload : Bytes) (state : ReorderState) :
    ReorderState :=
  { state with buffered := state.buffered.insert sequence ⟨payload, now⟩ }

/-- The first two statements of `accept_complete_payload`. -/
def noteAccepted (sequence : Nat) (payload : Bytes) (state : ReorderState) : ReorderState :=
  { state with
    seen := insert sequence state.seen
    fecState := state.fecState.insertPayload sequence payload
    trace := state.trace ++ [.accept sequence payload] }

def acceptCompletePayload (now : Instant) (sequence : Nat) (payload : Bytes)
    (state : ReorderState) : ReorderState :=
  let noted := noteAccepted sequence payload state
  if sequence = noted.nextSeq then drainReady (forwardAccepted sequence payload noted)
  else bufferAccepted now sequence payload noted

/-! ## FEC recovery -/

/-- The body of the inner `for` of `recover_fec_ready`, with its `accepted`
flag. -/
def acceptRecovered (now : Instant) (progress : ReorderState × Bool)
    (pair : Nat × Bytes) : ReorderState × Bool :=
  let (state, accepted) := progress
  let (sequence, payload) := pair
  if sequence < state.nextSeq ∨ sequence ∈ state.seen ∨ sequence ∈ state.buffered then
    (state, accepted)
  else
    let dropped := { state with fragments := state.fragments.erase sequence }
    (acceptCompletePayload now sequence payload
      (dropped.emit (.fecRecovered sequence payload.length)), true)

def recoverStep (now : Instant) (state : ReorderState) : ForInStep ReorderState :=
  let (fec, recovered) := state.fecState.recoverReady state.nextSeq state.buffered
  let searched := { state with fecState := fec }
  if recovered.isEmpty then .done searched
  else
    match recovered.foldl (acceptRecovered now) (searched, false) with
    | (final, true) => .yield final
    | (final, false) => .done final

/-- Every yielding round uses up at least one stored frame. -/
def recoverFecReady (now : Instant) (state : ReorderState) : ReorderState :=
  BreakLoop.run (recoverStep now) (state.fecState.frames.size + 1) state

/-! ## Repair requests -/

/-- The loop of `request_due_repairs` over the remaining assemblies. -/
def requestFragmentRepairs (interval : Duration) (now : Instant) :
    List (Nat × FragmentAssembly) →
    ExtTreeMap Nat FragmentAssembly × List RepairRequest →
    Option (ExtTreeMap Nat FragmentAssembly × List RepairRequest)
  | [], progress => some progress
  | (sequence, assembly) :: rest, (fragments, requests) =>
      if maxRepairRequestsPerTick ≤ requests.length then some (fragments, requests)
      else if assembly.lastRepairRequest.any fun last => last.elapsed now < interval then
        requestFragmentRepairs interval now rest (fragments, requests)
      else
        match assembly.missingMask with
        | none => none
        | some 0 => requestFragmentRepairs interval now rest (fragments, requests)
        | some missingMask =>
            requestFragmentRepairs interval now rest
              (fragments.insert sequence { assembly with lastRepairRequest := some now },
                requests ++ [⟨sequence, missingMask⟩])

/-- Whether the missing head position is due for a request. -/
def gapRepairDue (interval : Duration) (now : Instant) (state : ReorderState) : Bool :=
  !state.buffered.contains state.nextSeq && !state.fragments.contains state.nextSeq &&
    (!state.buffered.isEmpty || !state.fragments.isEmpty) &&
    state.gapRepairRequests[state.nextSeq]?.all fun last => interval ≤ last.elapsed now

/-- `RepairControl::send` encodes each request, which asserts that it is valid. -/
def sendRepairRequests (requests : List RepairRequest) (state : ReorderState) :
    Option ReorderState :=
  if requests.all fun request => (encodeRepairRequest request).isSome then
    some { state with trace := state.trace ++ requests.map .repairRequest }
  else none

def requestDueRepairs (interval : Duration) (now : Instant) (state : ReorderState) :
    Option ReorderState :=
  let due := gapRepairDue interval now state
  let gapRepairRequests :=
    if due then state.gapRepairRequests.insert state.nextSeq now else state.gapRepairRequests
  let requests := if due then [⟨state.nextSeq, repairAllFragmentsMask⟩] else []
  match requestFragmentRepairs interval now state.fragments.toList
      (state.fragments, requests) with
  | none => none
  | some (fragments, requests) =>
      sendRepairRequests requests
        { state with fragments := fragments, gapRepairRequests := gapRepairRequests }

def advanceReorderWindow (config : ReorderConfig) (now : Instant) (state : ReorderState) :
    Option ReorderState :=
  let recovered := recoverFecReady now state
  let requested :=
    match config.repairRequestInterval with
    | none => some recovered
    | some interval => requestDueRepairs interval now recovered
  requested.map fun state => drainReady (expireReorderGap config now state)

/-! ## Received packets -/

/-- The first packet of a flow. -/
def startFlow (packet : ReceivedPacket) (state : ReorderState) : ReorderState :=
  let started : ReorderState :=
    { state with
      initialized := true
      nextSeq := packet.header.sequence
      flowConnections := insert packet.connectionId state.flowConnections }
  (started.setReplyRoutes packet.remote true).emit (.flowStart packet.header.sequence)

/-- The `if initialized` at the head of the packet branch. -/
def openFlow (packet : ReceivedPacket) (state : ReorderState) : ReorderState :=
  if state.initialized then state.setReplyRoutes packet.remote false
  else startFlow packet state

/-- The branch of a confirmed restart. -/
def restartFlow (packet : ReceivedPacket) (state : ReorderState) : ReorderState :=
  let restarted : ReorderState :=
    { state with
      buffered := ∅
      fragments := ∅
      seen := ∅
      skippedSequences := .empty
      gapRepairRequests := ∅
      fecState := .empty
      flowConnections := {packet.connectionId}
      nextSeq := packet.header.sequence }
  (restarted.setReplyRoutes packet.remote true).emit
    (.flowReset packet.header.sequence state.heldPayloads)

/-- Whether the loop body goes on with a packet or continues with the next. -/
inductive Admission
  | continue (state : ReorderState)
  | proceed (state : ReorderState)

/-- A packet behind `next_seq` that restarts nothing. -/
def rejectLate (packet : ReceivedPacket) (state : ReorderState) : ReorderState :=
  if state.skippedSequences.contains packet.header.sequence then
    state.emit (.lateAfterSkip packet.header.sequence)
  else state.emit (.duplicate packet.header.sequence)

/-- A packet that is not behind `next_seq`. -/
def joinFlow (packet : ReceivedPacket) (state : ReorderState) : ReorderState :=
  { state with
    restartDetector := .cleared
    flowConnections := insert packet.connectionId state.flowConnections }

def admitPacket (packet : ReceivedPacket) (state : ReorderState) : Admission :=
  if packet.header.sequence < state.nextSeq then
    if packet.connectionId ∈ state.flowConnections then .continue (rejectLate packet state)
    else
      let (detector, confirmed) :=
        state.restartDetector.observe packet.header.sequence state.nextSeq
      let observed := { state with restartDetector := detector }
      if confirmed then .proceed (restartFlow packet observed)
      else .continue (rejectLate packet observed)
  else .proceed (joinFlow packet state)

/-- The outcome of the `let payload = ...` block. -/
inductive Reassembly
  | duplicate (state : ReorderState)
  | incomplete (state : ReorderState)
  | complete (payload : Bytes) (state : ReorderState)

/-- A whole packet, or an assembly that was just completed, leaves `fragments`. -/
def takeComplete (sequence : Nat) (state : ReorderState) : ReorderState :=
  { state with
    fragments := state.fragments.erase sequence
    seen := insert sequence state.seen }

def reassemble (now : Instant) (packet : ReceivedPacket) (state : ReorderState) :
    Option Reassembly :=
  let sequence := packet.header.sequence
  if packet.header.fragments = 1 then
    some (.complete packet.payload (takeComplete sequence state))
  else
    let entry := state.fragments[sequence]?.getD (.new packet.header.fragments now)
    let opened := { state with fragments := state.fragments.insert sequence entry }
    match entry.countFragments with
    | none => none
    | some count =>
        if count ≠ packet.header.fragments then
          some (.duplicate (opened.emit (.duplicate sequence)))
        else
          match entry.insert packet.header.fragment packet.payload with
          | none => none
          | some (_, false) => some (.duplicate (opened.emit (.duplicate sequence)))
          | some (filled, true) =>
              let updated :=
                { opened with fragments := opened.fragments.insert sequence filled }
              if filled.isComplete then
                match filled.intoPayload with
                | none => none
                | some payload => some (.complete payload (takeComplete sequence updated))
              else some (.incomplete updated)

def processAdmitted (config : ReorderConfig) (now : Instant) (packet : ReceivedPacket)
    (state : ReorderState) : Option ReorderState :=
  let sequence := packet.header.sequence
  if sequence < state.nextSeq ∨ sequence ∈ state.seen ∨ sequence ∈ state.buffered then
    some (state.emit (.duplicate sequence))
  else
    match reassemble now packet state with
    | none => none
    | some (.duplicate final) => some final
    | some (.incomplete updated) => advanceReorderWindow config now updated
    | some (.complete payload taken) =>
        advanceReorderWindow config now
          (recoverFecReady now (acceptCompletePayload now sequence payload taken))

def onPacket (config : ReorderConfig) (now : Instant) (packet : ReceivedPacket)
    (state : ReorderState) : Option ReorderState :=
  match admitPacket packet (openFlow packet state) with
  | .continue final => some final
  | .proceed admitted => processAdmitted config now packet admitted

/-! ## FEC frames and timeouts -/

def onFec (config : ReorderConfig) (now : Instant) (fec : ReceivedFecFrame)
    (state : ReorderState) : Option ReorderState :=
  let stored := { state with fecState := state.fecState.insertFrame fec.frame }
  if stored.initialized then
    advanceReorderWindow config now
      (recoverFecReady now (stored.setReplyRoutes fec.remote false))
  else some stored

def idleReset (state : ReorderState) : ReorderState :=
  { state with
    initialized := false
    nextSeq := 0
    restartDetector := .cleared
    skippedSequences := .empty
    gapRepairRequests := ∅
    flowConnections := ∅
    fecState := .empty }

def onTimeout (config : ReorderConfig) (now : Instant) (state : ReorderState) :
    Option ReorderState :=
  if !state.initialized then some state
  else if state.hasPendingState then advanceReorderWindow config now state
  else some (idleReset state)

/-! ## Runs -/

/-- What one round of the loop waits for. -/
inductive Input
  | frame (frame : ReceivedFrame)
  | timeout

structure TimedInput where
  now : Instant
  input : Input

def reorderStep (config : ReorderConfig) (state : ReorderState) (timed : TimedInput) :
    Option ReorderState :=
  match timed.input with
  | .frame (.packet packet) => onPacket config timed.now packet state
  | .frame (.fec fec) => onFec config timed.now fec state
  | .timeout => onTimeout config timed.now state

/-- The loop from its initial state; `none` when some round panics. -/
def reorderLoop (config : ReorderConfig) (inputs : List TimedInput) : Option ReorderState :=
  inputs.foldlM (reorderStep config) .initial

end Irohsion.Server
