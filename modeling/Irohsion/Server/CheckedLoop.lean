import Irohsion.Protocol.SliceBounds
import Irohsion.Server.LoopBounds
import Irohsion.Server.LoopInvariant
import Irohsion.Server.ParseFrame

/-! # The server on arbitrary datagrams

The functions of the server once more, with `none` at every place where the
source would panic that the plain definitions leave out: slices of a datagram,
the parity index, and the addition in `next_sequence`. On whatever arrives they
agree with the plain functions, so no datagram makes the server panic.
-/

namespace Irohsion.Server

open Protocol Std

/-! ## Sequence arithmetic -/

/-- `next_sequence` on a `u64`. -/
def nextSequenceChecked (sequence : Nat) : Option Nat :=
  if sequence = maxMediaSequence then some 0
  else if sequence + 1 < 2 ^ 64 then some (sequence + 1)
  else none

def sequenceAfterChecked (sequence : Nat) : (offset : Nat) → Option Nat
  | 0 => some sequence
  | offset + 1 => do sequenceAfterChecked (← nextSequenceChecked sequence) offset

/-! ## FEC recovery -/

/-- `parity[byte_index] ^= *byte` for every byte of the payload. -/
def xorInto (parity payload : Bytes) : Option Bytes :=
  payload.zipIdx.foldlM (fun parity (byte, index) =>
    parity[index]?.map fun symbol => parity.set index (symbol ^^^ byte)) parity

namespace FecState

def scanFrameChecked (known : Nat → Option Bytes) (baseSequence : Nat) :
    (index : Nat) → (payloadLengths : List Nat) → (parity : Bytes) →
    (missing : Option (Nat × Nat)) → Option FrameScan
  | _, [], parity, missing => some (.scanned parity missing)
  | index, expectedLen :: rest, parity, missing =>
      (sequenceAfterChecked baseSequence index).bind fun sequence =>
        if parity.length < expectedLen then some .unusable
        else
          match known sequence with
          | some payload =>
              if payload.length ≠ expectedLen ∨ parity.length < payload.length then
                some .unusable
              else
                (xorInto parity payload).bind fun parity =>
                  scanFrameChecked known baseSequence (index + 1) rest parity missing
          | none =>
              match missing with
              | none => scanFrameChecked known baseSequence (index + 1) rest parity
                  (some (sequence, expectedLen))
              | some _ => some .multipleMissing

/-- A stored frame is scanned with the checks before its result is used. -/
def recoverFrameChecked (nextSeq : Nat) (buffered : Buffered)
    (progress : FecState × List (Nat × Bytes)) (base : Nat) :
    Option (FecState × List (Nat × Bytes)) :=
  match progress.1.frames[base]? with
  | none => some progress
  | some frame =>
      (scanFrameChecked (progress.1.payloadFor buffered) frame.baseSequence 0
        frame.payloadLengths frame.parity none).map fun _ =>
          recoverFrame nextSeq buffered progress base

def recoverReadyChecked (fec : FecState) (nextSeq : Nat) (buffered : Buffered) :
    Option (FecState × List (Nat × Bytes)) :=
  fec.frames.keys.foldlM (recoverFrameChecked nextSeq buffered) (fec, [])

end FecState

/-! ## The window functions -/

def drainStepChecked (state : ReorderState) : Option (ForInStep ReorderState) :=
  match state.buffered[state.nextSeq]? with
  | none => some (.done state)
  | some packet =>
      (nextSequenceChecked state.nextSeq).map fun _ => .yield (drainPacket packet state)

def drainReadyChecked (state : ReorderState) : Option ReorderState :=
  BreakLoop.runChecked drainStepChecked (state.buffered.size + 1) state

/-- A round that skips a position advances `next_seq`. -/
def expireStepChecked (config : ReorderConfig) (now : Instant) (state : ReorderState) :
    Option (ForInStep ReorderState) :=
  match expireStep config now state with
  | .done final => some (.done final)
  | .yield next => (nextSequenceChecked state.nextSeq).map fun _ => .yield next

def expireReorderGapChecked (config : ReorderConfig) (now : Instant) (state : ReorderState) :
    Option ReorderState :=
  BreakLoop.runChecked (expireStepChecked config now) (maxMediaSequence + 2) state

def acceptCompletePayloadChecked (now : Instant) (sequence : Nat) (payload : Bytes)
    (state : ReorderState) : Option ReorderState :=
  let noted := noteAccepted sequence payload state
  if sequence = noted.nextSeq then
    (nextSequenceChecked noted.nextSeq).bind fun _ =>
      drainReadyChecked (forwardAccepted sequence payload noted)
  else some (bufferAccepted now sequence payload noted)

def acceptRecoveredChecked (now : Instant) (progress : ReorderState × Bool)
    (pair : Nat × Bytes) : Option (ReorderState × Bool) :=
  let (state, accepted) := progress
  let (sequence, payload) := pair
  if sequence < state.nextSeq ∨ sequence ∈ state.seen ∨ sequence ∈ state.buffered then
    some (state, accepted)
  else
    let dropped := { state with fragments := state.fragments.erase sequence }
    (acceptCompletePayloadChecked now sequence payload
      (dropped.emit (.fecRecovered sequence payload.length))).map fun accepted => (accepted, true)

def recoverStepChecked (now : Instant) (state : ReorderState) :
    Option (ForInStep ReorderState) := do
  let (fec, recovered) ← state.fecState.recoverReadyChecked state.nextSeq state.buffered
  let searched := { state with fecState := fec }
  if recovered.isEmpty then some (.done searched)
  else
    match ← recovered.foldlM (acceptRecoveredChecked now) (searched, false) with
    | (final, true) => some (.yield final)
    | (final, false) => some (.done final)

def recoverFecReadyChecked (now : Instant) (state : ReorderState) : Option ReorderState :=
  BreakLoop.runChecked (recoverStepChecked now) (state.fecState.frames.size + 1) state

def advanceReorderWindowChecked (config : ReorderConfig) (now : Instant)
    (state : ReorderState) : Option ReorderState := do
  let recovered ← recoverFecReadyChecked now state
  let requested ←
    match config.repairRequestInterval with
    | none => some recovered
    | some interval => requestDueRepairs interval now recovered
  drainReadyChecked (← expireReorderGapChecked config now requested)

/-! ## The loop body -/

def processAdmittedChecked (config : ReorderConfig) (now : Instant) (packet : ReceivedPacket)
    (state : ReorderState) : Option ReorderState :=
  let sequence := packet.header.sequence
  if sequence < state.nextSeq ∨ sequence ∈ state.seen ∨ sequence ∈ state.buffered then
    some (state.emit (.duplicate sequence))
  else
    match reassemble now packet state with
    | none => none
    | some (.duplicate final) => some final
    | some (.incomplete updated) => advanceReorderWindowChecked config now updated
    | some (.complete payload taken) => do
        let accepted ← acceptCompletePayloadChecked now sequence payload taken
        advanceReorderWindowChecked config now (← recoverFecReadyChecked now accepted)

def onPacketChecked (config : ReorderConfig) (now : Instant) (packet : ReceivedPacket)
    (state : ReorderState) : Option ReorderState :=
  match admitPacket packet (openFlow packet state) with
  | .continue final => some final
  | .proceed admitted => processAdmittedChecked config now packet admitted

def onFecChecked (config : ReorderConfig) (now : Instant) (fec : ReceivedFecFrame)
    (state : ReorderState) : Option ReorderState :=
  let stored := { state with fecState := state.fecState.insertFrame fec.frame }
  if stored.initialized then do
    let recovered ← recoverFecReadyChecked now (stored.setReplyRoutes fec.remote false)
    advanceReorderWindowChecked config now recovered
  else some stored

def onTimeoutChecked (config : ReorderConfig) (now : Instant) (state : ReorderState) :
    Option ReorderState :=
  if !state.initialized then some state
  else if state.hasPendingState then advanceReorderWindowChecked config now state
  else some (idleReset state)

def reorderStepChecked (config : ReorderConfig) (state : ReorderState) (timed : TimedInput) :
    Option ReorderState :=
  match timed.input with
  | .frame (.packet packet) => onPacketChecked config timed.now packet state
  | .frame (.fec fec) => onFecChecked config timed.now fec state
  | .timeout => onTimeoutChecked config timed.now state

/-! ## Datagrams -/

/-- `parse_frame` behind the accesses of the decoders that it calls. -/
def parseFrameChecked (data : Bytes) (remote : String) (connectionId : Nat) :
    Option (Except ParseError ReceivedFrame) := do
  match ← decodePacketChecked data with
  | .error error => some (.error (.packet error))
  | .ok packet =>
      if packet.header.sequence = fecSequence then
        (decodeFecFrameChecked data).map fun _ => parseFrame data remote connectionId
      else some (parseFrame data remote connectionId)

/-- What reaches the server: a datagram on some connection, or a timeout of the
reorder loop. -/
inductive NetworkEvent
  | datagram (data : Bytes) (remote : String) (connectionId : Nat)
  | timeout

structure TimedEvent where
  now : Instant
  event : NetworkEvent

/-- The read loop of a connection drops a datagram that does not parse. -/
def serverStepChecked (config : ReorderConfig) (state : ReorderState) (timed : TimedEvent) :
    Option ReorderState :=
  match timed.event with
  | .timeout => reorderStepChecked config state ⟨timed.now, .timeout⟩
  | .datagram data remote connectionId =>
      match parseFrameChecked data remote connectionId with
      | none => none
      | some (.error _) => some state
      | some (.ok frame) => reorderStepChecked config state ⟨timed.now, .frame frame⟩

def serverRunChecked (config : ReorderConfig) (events : List TimedEvent) : Option ReorderState :=
  events.foldlM (serverStepChecked config) .initial

/-! ## Agreement with the plain functions -/

theorem nextSequenceChecked_eq {sequence : Nat} (media : sequence ≤ maxMediaSequence) :
    nextSequenceChecked sequence = some (nextSequence sequence) := by
  have small : maxMediaSequence + 1 < 2 ^ 64 := by decide
  rw [nextSequenceChecked, nextSequence]
  split
  · rfl
  · rw [if_pos (by omega)]

theorem sequenceAfterChecked_eq {sequence : Nat} (media : sequence ≤ maxMediaSequence)
    (offset : Nat) :
    sequenceAfterChecked sequence offset = some (sequenceAfter sequence offset) := by
  induction offset generalizing sequence with
  | zero => rfl
  | succ offset induction =>
      rw [sequenceAfterChecked, nextSequenceChecked_eq media]
      exact induction (nextSequence_le media)

/-- The loop has combined the bytes before `offset` into `front`. -/
theorem foldlM_xor {payload parity : Bytes} (front : Bytes)
    (fits : payload.length ≤ parity.length) :
    (payload.zipIdx front.length).foldlM (fun (parity : Bytes) (byte, index) =>
      parity[index]?.map fun symbol => parity.set index (symbol ^^^ byte)) (front ++ parity) =
      some (front ++ Parity.overlay parity payload) := by
  induction payload generalizing front parity with
  | nil => rw [Parity.overlay_nil]; rfl
  | cons byte rest induction =>
      cases parity with
      | nil => exact absurd fits (Nat.not_succ_le_zero _)
      | cons symbol parity =>
          have found : (front ++ symbol :: parity)[front.length]? = some symbol := by simp
          have written : (front ++ symbol :: parity).set front.length (symbol ^^^ byte) =
              (front ++ [symbol ^^^ byte]) ++ parity := by simp
          have remaining := induction (front ++ [symbol ^^^ byte]) (Nat.le_of_succ_le_succ fits)
          rw [List.length_append, List.length_singleton] at remaining
          rw [List.zipIdx_cons, List.foldlM_cons]
          dsimp only
          rw [found, Option.map_some, written]
          exact remaining.trans (by rw [List.append_assoc]; rfl)

theorem xorInto_eq {parity payload : Bytes} (fits : payload.length ≤ parity.length) :
    xorInto parity payload = some (Parity.overlay parity payload) :=
  foldlM_xor [] fits

theorem FecState.scanFrameChecked_eq (known : Nat → Option Bytes) {baseSequence : Nat}
    (media : baseSequence ≤ maxMediaSequence) {payloadLengths : List Nat} {index : Nat}
    {parity : Bytes} {missing : Option (Nat × Nat)} :
    scanFrameChecked known baseSequence index payloadLengths parity missing =
      some (scanFrame known baseSequence index payloadLengths parity missing) := by
  induction payloadLengths generalizing index parity missing with
  | nil => rfl
  | cons expectedLen rest induction =>
      rw [scanFrameChecked.eq_def, scanFrame.eq_def]
      dsimp only
      rw [sequenceAfterChecked_eq media, Option.bind_some]
      apply ite_some
      intro _
      cases known (sequenceAfter baseSequence index) with
      | some payload =>
          apply ite_some
          intro usable
          rw [xorInto_eq (by omega), Option.bind_some, induction]
      | none =>
          cases missing with
          | none => exact induction
          | some _ => rfl

theorem FecState.foldlM_recoverFrameChecked {nextSeq : Nat} {buffered : Buffered}
    (bases : List Nat) {progress : FecState × List (Nat × Bytes)}
    (valid : ∀ {base : Nat} {frame : FecFrame}, progress.1.frames[base]? = some frame →
      frame.Valid) :
    bases.foldlM (recoverFrameChecked nextSeq buffered) progress =
      some (bases.foldl (recoverFrame nextSeq buffered) progress) := by
  induction bases generalizing progress with
  | nil => rfl
  | cons base rest induction =>
      rcases progress with ⟨fec, recovered⟩
      have checked : recoverFrameChecked nextSeq buffered (fec, recovered) base =
          some (recoverFrame nextSeq buffered (fec, recovered) base) := by
        rw [recoverFrameChecked]
        split
        · rename_i missing
          simp only [recoverFrame, missing]
        · rename_i frame found
          rw [scanFrameChecked_eq _ (valid found).1, Option.map_some]
      have searched := recoverFrame_searched nextSeq buffered fec recovered base
      rw [List.foldlM_cons, checked, List.foldl_cons]
      exact induction fun found => valid (searched.frames found)

theorem FecState.recoverReadyChecked_eq {fec : FecState}
    (valid : ∀ {base : Nat} {frame : FecFrame}, fec.frames[base]? = some frame → frame.Valid)
    (nextSeq : Nat) (buffered : Buffered) :
    fec.recoverReadyChecked nextSeq buffered = some (fec.recoverReady nextSeq buffered) :=
  foldlM_recoverFrameChecked _ valid

section Window

variable {config : ReorderConfig} {now : Instant} {state : ReorderState}

theorem wellFormed_window (config : ReorderConfig) (now : Instant) :
    WindowInvariant config now (fun _ _ => True) WellFormed where
  move move wellFormed := wellFormed.windowMove move
  recovered wellFormed member := ⟨wellFormed.recovered_media member, trivial⟩

theorem drainReadyChecked_eq (wellFormed : WellFormed state) :
    drainReadyChecked state = some (drainReady state) := by
  refine @BreakLoop.runChecked_eq _ WellFormed _ _ ?_ ?_ _ state wellFormed
  · intro state wellFormed
    rw [drainStepChecked, drainStep, nextSequenceChecked_eq wellFormed.nextSeq_le]
    cases state.buffered[state.nextSeq]? <;> rfl
  · intro state wellFormed
    exact (wellFormed_window ⟨none, 0, 0⟩ 0).drainStep wellFormed

theorem expireReorderGapChecked_eq (wellFormed : WellFormed state) :
    expireReorderGapChecked config now state = some (expireReorderGap config now state) := by
  refine @BreakLoop.runChecked_eq _ WellFormed _ _ ?_ ?_ _ state wellFormed
  · intro state wellFormed
    rw [expireStepChecked, nextSequenceChecked_eq wellFormed.nextSeq_le]
    cases expireStep config now state <;> rfl
  · intro state wellFormed
    exact (wellFormed_window config now).expireStep wellFormed

/-- Accepting needs a window that is well-formed once the payload is forwarded. -/
theorem acceptCompletePayloadChecked_eq {sequence : Nat} {payload : Bytes}
    (position : state.nextSeq ≤ maxMediaSequence)
    (forwarded : sequence = state.nextSeq →
      WellFormed (forwardAccepted sequence payload (noteAccepted sequence payload state))) :
    acceptCompletePayloadChecked now sequence payload state =
      some (acceptCompletePayload now sequence payload state) := by
  have unmoved : (noteAccepted sequence payload state).nextSeq = state.nextSeq := rfl
  rw [acceptCompletePayloadChecked, acceptCompletePayload, unmoved]
  split
  · rename_i expected
    rw [nextSequenceChecked_eq position, Option.bind_some,
      drainReadyChecked_eq (forwarded expected)]
  · rfl

theorem acceptRecoveredChecked_eq {accepted : Bool} {pair : Nat × Bytes}
    (wellFormed : WellFormed state) :
    acceptRecoveredChecked now (state, accepted) pair =
      some (acceptRecovered now (state, accepted) pair) := by
  rcases pair with ⟨sequence, payload⟩
  rw [acceptRecoveredChecked, acceptRecovered]
  dsimp only
  apply ite_some
  intro fresh
  have reported := wellFormed.emit (.fecRecovered sequence payload.length)
  have accepts := @acceptCompletePayloadChecked_eq now
    ((state.emit (.fecRecovered sequence payload.length)).release sequence) sequence payload
    wellFormed.nextSeq_le (reported.forward fresh)
  exact congrArg (Option.map fun accepted => (accepted, true)) accepts

theorem foldlM_acceptRecoveredChecked {recovered : List (Nat × Bytes)}
    (media : ∀ pair ∈ recovered, pair.1 ≤ maxMediaSequence) {progress : ReorderState × Bool}
    (wellFormed : WellFormed progress.1) :
    recovered.foldlM (acceptRecoveredChecked now) progress =
      some (recovered.foldl (acceptRecovered now) progress) := by
  induction recovered generalizing progress with
  | nil => rfl
  | cons pair rest induction =>
      have window := wellFormed_window ⟨none, 0, 0⟩ now
      have source := media pair List.mem_cons_self
      rw [List.foldlM_cons, List.foldl_cons, acceptRecoveredChecked_eq wellFormed]
      exact induction (fun other member => media other (List.mem_cons_of_mem pair member))
        (window.acceptRecovered ⟨source, trivial⟩ wellFormed)

theorem recoverFecReadyChecked_eq (wellFormed : WellFormed state) :
    recoverFecReadyChecked now state = some (recoverFecReady now state) := by
  have window := wellFormed_window ⟨none, 0, 0⟩ now
  refine @BreakLoop.runChecked_eq _ WellFormed _ _ ?_ ?_ _ state wellFormed
  · intro state wellFormed
    have searched := wellFormed.search
    have media := fun (pair : Nat × Bytes) => @WellFormed.recovered_media _ wellFormed pair.1 pair.2
    rw [recoverStepChecked, recoverStep,
      FecState.recoverReadyChecked_eq wellFormed.frame_valid]
    simp only [Option.bind_eq_bind, Option.bind_some]
    apply ite_some
    intro _
    rw [foldlM_acceptRecoveredChecked media searched, Option.bind_some]
    rcases List.foldl (acceptRecovered now) _ _ with ⟨final, accepted⟩
    cases accepted <;> rfl
  · exact fun _ wellFormed => window.recoverStep wellFormed

theorem advanceReorderWindowChecked_eq (wellFormed : WellFormed state) :
    advanceReorderWindowChecked config now state = advanceReorderWindow config now state := by
  have window := wellFormed_window config now
  have recovered := window.recoverFecReady wellFormed
  have rest : ∀ requested, WellFormed requested →
      ((expireReorderGapChecked config now requested).bind drainReadyChecked) =
        some (drainReady (expireReorderGap config now requested)) := by
    intro requested wellFormed
    rw [expireReorderGapChecked_eq wellFormed, Option.bind_some,
      drainReadyChecked_eq (window.expireReorderGap wellFormed)]
  rw [advanceReorderWindowChecked, advanceReorderWindow, recoverFecReadyChecked_eq wellFormed]
  cases config.repairRequestInterval with
  | none => exact rest _ recovered
  | some interval =>
      rcases requestDueRepairs_move config interval now (fun _ _ => True) recovered with
        ⟨requested, request, move⟩
      simp only [Option.bind_eq_bind, Option.bind_some, request, Option.map_some]
      exact rest requested (recovered.windowMove move)

/-- A fresh complete payload is accepted, and the rest of the round follows. -/
theorem acceptCompleteChecked_eq {sequence : Nat} {payload : Bytes} (wellFormed : WellFormed state)
    (media : sequence ≤ maxMediaSequence) (fresh : state.Fresh sequence) :
    ((acceptCompletePayloadChecked now sequence payload (takeComplete sequence state)).bind
        fun accepted => (recoverFecReadyChecked now accepted).bind
          (advanceReorderWindowChecked config now)) =
      advanceReorderWindow config now (recoverFecReady now
        (acceptCompletePayload now sequence payload (takeComplete sequence state))) := by
  have window := wellFormed_window config now
  have accepted := @WindowInvariant.acceptCompletePayload _ _ _ _ window _ _ payload media fresh
    trivial wellFormed
  have forwarded : sequence = state.nextSeq → WellFormed (forwardAccepted sequence payload
      (noteAccepted sequence payload (takeComplete sequence state))) := by
    intro expected
    rw [noteAccepted_takeComplete]
    exact wellFormed.forward fresh expected
  have accepts := @acceptCompletePayloadChecked_eq now (takeComplete sequence state) sequence
    payload wellFormed.nextSeq_le forwarded
  rw [← acceptCompletePayload_takeComplete] at accepted
  rw [accepts, Option.bind_some, recoverFecReadyChecked_eq accepted, Option.bind_some,
    advanceReorderWindowChecked_eq (window.recoverFecReady accepted)]

theorem processAdmittedChecked_eq {packet : ReceivedPacket} (wellFormed : WellFormed state) :
    processAdmittedChecked config now packet state = processAdmitted config now packet state := by
  rw [processAdmittedChecked, processAdmitted]
  split
  · rfl
  · rename_i fresh
    have complete := fun payload => @acceptCompleteChecked_eq config now state
      packet.header.sequence payload wellFormed packet.media fresh
    by_cases whole : packet.header.fragments = 1
    · rw [reassemble_whole whole]
      exact complete packet.payload
    · rcases reassemble_cases now wellFormed whole with
        ⟨_, duplicate⟩ |
          ⟨filled, fills, ⟨incomplete, outcome⟩ | ⟨_, payload, _, outcome⟩⟩
      · rw [duplicate]
      · rw [outcome]
        exact advanceReorderWindowChecked_eq (wellFormed.assemble fresh fills incomplete)
      · rw [outcome]
        exact complete payload

end Window

/-! ## Rounds and runs -/

section Runs

variable {config : ReorderConfig} {state : ReorderState}

theorem onPacketChecked_eq (consistent : Consistent state) (now : Instant)
    (packet : ReceivedPacket) :
    onPacketChecked config now packet state = onPacket config now packet state := by
  have rule := consistent_invariant config
  have admitted := rule.admitPacket packet (rule.openFlow packet consistent trivial)
  rw [onPacketChecked, onPacket]
  revert admitted
  rcases admitPacket packet (openFlow packet state) with final | proceeding
  · exact fun _ => rfl
  · exact fun admitted => processAdmittedChecked_eq admitted.1

theorem onFecChecked_eq (consistent : Consistent state) (now : Instant) (fec : ReceivedFecFrame) :
    onFecChecked config now fec state = onFec config now fec state := by
  have stored := consistent.toWellFormed.storeFrame fec
  have routed := @WellFormed.congr _ (ReorderState.setReplyRoutes fec.remote false
    { state with fecState := state.fecState.insertFrame fec.frame }) stored rfl rfl rfl rfl rfl
  rw [onFecChecked, onFec]
  dsimp only
  split
  · rw [recoverFecReadyChecked_eq routed]
    exact advanceReorderWindowChecked_eq ((wellFormed_window config now).recoverFecReady routed)
  · rfl

theorem onTimeoutChecked_eq (consistent : Consistent state) (now : Instant) :
    onTimeoutChecked config now state = onTimeout config now state := by
  rw [onTimeoutChecked, onTimeout, advanceReorderWindowChecked_eq consistent.toWellFormed]

theorem reorderStepChecked_eq (consistent : Consistent state) (timed : TimedInput) :
    reorderStepChecked config state timed = reorderStep config state timed := by
  rcases timed with ⟨now, (packet | fec) | _⟩
  · exact onPacketChecked_eq consistent now packet
  · exact onFecChecked_eq consistent now fec
  · exact onTimeoutChecked_eq consistent now

theorem parseFrameChecked_eq (data : Bytes) (remote : String) (connectionId : Nat) :
    parseFrameChecked data remote connectionId = some (parseFrame data remote connectionId) := by
  rw [parseFrameChecked, decodePacketChecked_eq, decodeFecFrameChecked_eq]
  rcases decodePacket_cases data with ⟨error, decoded⟩ | ⟨header, payload, valid, decoded⟩
  · rw [decoded, parseFrame_of_error decoded]
    rfl
  · rw [decoded]
    exact ite_self _

/-- The inputs of the reorder loop that the events give. -/
def TimedEvent.received (timed : TimedEvent) : Option TimedInput :=
  match timed.event with
  | .timeout => some ⟨timed.now, .timeout⟩
  | .datagram data remote connectionId =>
      (parseFrame data remote connectionId).toOption.map fun frame => ⟨timed.now, .frame frame⟩

theorem serverStepChecked_eq (consistent : Consistent state) (timed : TimedEvent) :
    serverStepChecked config state timed =
      timed.received.elim (some state) (reorderStep config state) := by
  rcases timed with ⟨now, ⟨data, remote, connectionId⟩ | _⟩
  · simp only [serverStepChecked, TimedEvent.received, parseFrameChecked_eq]
    cases parseFrame data remote connectionId with
    | error error => rfl
    | ok frame => exact reorderStepChecked_eq consistent ⟨now, .frame frame⟩
  · exact reorderStepChecked_eq consistent ⟨now, .timeout⟩

theorem foldlM_serverStepChecked (events : List TimedEvent) (consistent : Consistent state) :
    events.foldlM (serverStepChecked config) state =
      (events.filterMap TimedEvent.received).foldlM (reorderStep config) state := by
  induction events generalizing state with
  | nil => rfl
  | cons timed rest induction =>
      rw [List.foldlM_cons, serverStepChecked_eq consistent]
      cases received : timed.received with
      | none =>
          rw [List.filterMap_cons_none received]
          exact induction consistent
      | some input =>
          have rule := consistent_invariant config
          rcases rule.reorderStep (fun _ _ => trivial) consistent trivial with
            ⟨next, stepped, nextConsistent, _⟩
          rw [List.filterMap_cons_some received, List.foldlM_cons, Option.elim, stepped]
          exact induction nextConsistent

/-- Whatever datagrams arrive and whenever the loop times out, no access, shift,
`expect`, assertion or addition of the server fails: parsing gives a result, and
the run is that of the reorder loop on the frames that parse. -/
theorem serverRunChecked_finishes (config : ReorderConfig) (events : List TimedEvent) :
    (∀ data remote connectionId, parseFrameChecked data remote connectionId =
      some (parseFrame data remote connectionId)) ∧
    ∃ final, serverRunChecked config events = some final ∧
      reorderLoop config (events.filterMap TimedEvent.received) = some final := by
  refine ⟨parseFrameChecked_eq, ?_⟩
  rcases (consistent_invariant config).reorderLoop trivial (fun timed member _ _ => trivial) with
    ⟨final, finished, _⟩
  exact ⟨final, (foldlM_serverStepChecked events .initial).trans finished, finished⟩

end Runs

end Irohsion.Server
