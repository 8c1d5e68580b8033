import Irohsion.Server.FecRecovery
import Irohsion.Server.ReorderLoop

/-! # Moves of the reorder window

The functions of the loop move the window in seven ways only. What every move
preserves, `drain_ready`, `accept_complete_payload`, `recover_fec_ready`,
`expire_reorder_gap` and `advance_reorder_window` preserve.
-/

namespace Irohsion.Server

open Protocol Std

namespace ReorderState

/-- The position is neither behind the window nor complete already. -/
def Fresh (state : ReorderState) (sequence : Nat) : Prop :=
  ¬ (sequence < state.nextSeq ∨ sequence ∈ state.seen ∨ sequence ∈ state.buffered)

/-- The assembly of a position, if any, is dropped. -/
def release (sequence : Nat) (state : ReorderState) : ReorderState :=
  { state with fragments := state.fragments.erase sequence }

end ReorderState

/-- A complete payload leaves its assembly and is accepted, up to `drain_ready`. -/
def settle (now : Instant) (sequence : Nat) (payload : Bytes) (state : ReorderState) :
    ReorderState :=
  let noted := noteAccepted sequence payload (state.release sequence)
  if sequence = noted.nextSeq then forwardAccepted sequence payload noted
  else bufferAccepted now sequence payload noted

theorem settle_of_expected (now : Instant) (payload : Bytes) {sequence : Nat}
    {state : ReorderState} (expected : sequence = state.nextSeq) :
    settle now sequence payload state =
      forwardAccepted sequence payload
        (noteAccepted sequence payload (state.release sequence)) :=
  if_pos expected

theorem settle_of_ahead (now : Instant) (payload : Bytes) {sequence : Nat}
    {state : ReorderState} (ahead : sequence ≠ state.nextSeq) :
    settle now sequence payload state =
      bufferAccepted now sequence payload
        (noteAccepted sequence payload (state.release sequence)) :=
  if_neg ahead

/-- The slots and the age of an assembly, without its last repair request. -/
def FragmentAssembly.content (assembly : FragmentAssembly) : List (Option Bytes) × Instant :=
  (assembly.fragments, assembly.firstSeen)

def SameContent (before after : ExtTreeMap Nat FragmentAssembly) : Prop :=
  ∀ sequence : Nat,
    after[sequence]?.map FragmentAssembly.content = before[sequence]?.map FragmentAssembly.content

/-- `Source` says which complete payloads may be accepted. -/
inductive WindowMove (config : ReorderConfig) (now : Instant) (Source : Nat → Bytes → Prop)
    (state : ReorderState) : ReorderState → Prop
  | report (sequence length : Nat) :
      WindowMove config now Source state (state.emit (.fecRecovered sequence length))
  | drain {packet : BufferedPacket} :
      state.buffered[state.nextSeq]? = some packet →
      WindowMove config now Source state (drainPacket packet state)
  | search :
      WindowMove config now Source state
        { state with fecState := (state.fecState.recoverReady state.nextSeq state.buffered).1 }
  | settle {sequence : Nat} {payload : Bytes} :
      sequence ≤ maxMediaSequence →
      state.Fresh sequence →
      Source sequence payload →
      WindowMove config now Source state (settle now sequence payload state)
  | request {fragments : ExtTreeMap Nat FragmentAssembly}
      {gapRepairRequests : ExtTreeMap Nat Instant} (requests : List RepairRequest) :
      SameContent state.fragments fragments →
      WindowMove config now Source state
        { state with
          fragments := fragments
          gapRepairRequests := gapRepairRequests
          trace := state.trace ++ requests.map .repairRequest }
  | skipFragment {assembly : FragmentAssembly} :
      state.nextSeq ∉ state.buffered →
      state.fragments[state.nextSeq]? = some assembly →
      config.maxReorderDelay ≤ assembly.firstSeen.elapsed now →
      WindowMove config now Source state
        (skipSequence .fragmentIncomplete (dropHeadAssembly state))
  | skipMissing {oldest : Instant} :
      state.nextSeq ∉ state.buffered →
      state.fragments[state.nextSeq]? = none →
      oldestPending state = some oldest →
      config.maxReorderDelay ≤ oldest.elapsed now →
      WindowMove config now Source state (skipSequence .neverReceived state)

theorem WindowMove.mono {config : ReorderConfig} {now : Instant} {Source Wider : Nat → Bytes → Prop}
    {before after : ReorderState} (wider : ∀ {sequence payload}, Source sequence payload →
      Wider sequence payload) (move : WindowMove config now Source before after) :
    WindowMove config now Wider before after := by
  cases move with
  | report sequence length => exact .report sequence length
  | drain found => exact .drain found
  | search => exact .search
  | settle media fresh source => exact .settle media fresh (wider source)
  | request requests same => exact .request requests same
  | skipFragment absent found old => exact .skipFragment absent found old
  | skipMissing absent missing pending old => exact .skipMissing absent missing pending old

/-- An invariant of all moves under which every recovered payload may be
accepted. -/
structure WindowInvariant (config : ReorderConfig) (now : Instant)
    (Source : Nat → Bytes → Prop) (Invariant : ReorderState → Prop) : Prop where
  move : ∀ {before after}, WindowMove config now Source before after →
    Invariant before → Invariant after
  recovered : ∀ {state sequence payload}, Invariant state →
    (sequence, payload) ∈ (state.fecState.recoverReady state.nextSeq state.buffered).2 →
    sequence ≤ maxMediaSequence ∧ Source sequence payload

/-! ## The loops are moves -/

theorem expireStep_cases (config : ReorderConfig) (now : Instant)
    (Source : Nat → Bytes → Prop) (state : ReorderState) :
    expireStep config now state = .done state ∨
      ∃ next, expireStep config now state = .yield next ∧
        WindowMove config now Source state next := by
  rw [expireStep]
  split
  · exact Or.inl rfl
  · rename_i absent
    split
    · rename_i assembly found
      split
      · exact Or.inl rfl
      · rename_i old
        exact Or.inr ⟨_, rfl, .skipFragment absent found (Nat.le_of_not_lt old)⟩
    · rename_i missing
      split
      · exact Or.inl rfl
      · rename_i oldest pending
        split
        · exact Or.inl rfl
        · rename_i old
          exact Or.inr ⟨_, rfl, .skipMissing absent missing pending (Nat.le_of_not_lt old)⟩

/-- A round that repeats skips the head position: its assembly is old, or nothing
is held there and something else is old. -/
theorem expireStep_skips {config : ReorderConfig} {now : Instant} {state next : ReorderState}
    (yields : expireStep config now state = .yield next) :
    state.nextSeq ∉ state.buffered ∧
      ((∃ assembly : FragmentAssembly, state.fragments[state.nextSeq]? = some assembly ∧
          config.maxReorderDelay ≤ assembly.firstSeen.elapsed now ∧
          next = skipSequence .fragmentIncomplete (dropHeadAssembly state)) ∨
        (state.fragments[state.nextSeq]? = none ∧ ∃ oldest, oldestPending state = some oldest ∧
          config.maxReorderDelay ≤ oldest.elapsed now ∧
          next = skipSequence .neverReceived state)) := by
  rw [expireStep] at yields
  split at yields
  · cases yields
  · rename_i absent
    refine ⟨absent, ?_⟩
    split at yields
    · rename_i assembly found
      split at yields
      · cases yields
      · rename_i old
        cases yields
        exact Or.inl ⟨assembly, found, Nat.le_of_not_lt old, rfl⟩
    · rename_i missing
      split at yields
      · cases yields
      · rename_i oldest pending
        split at yields
        · cases yields
        · rename_i old
          cases yields
          exact Or.inr ⟨missing, oldest, pending, Nat.le_of_not_lt old, rfl⟩

theorem acceptCompletePayload_eq (now : Instant) (sequence : Nat) (payload : Bytes)
    (state : ReorderState) :
    acceptCompletePayload now sequence payload (state.release sequence) =
      if sequence = state.nextSeq then drainReady (settle now sequence payload state)
      else settle now sequence payload state := by
  have unmoved : (noteAccepted sequence payload (state.release sequence)).nextSeq =
      state.nextSeq := rfl
  by_cases expected : sequence = state.nextSeq
  · simp only [acceptCompletePayload, settle, unmoved, if_pos expected]
  · simp only [acceptCompletePayload, settle, unmoved, if_neg expected]

/-- Taking a complete assembly marks it as seen, which accepting it repeats. -/
theorem noteAccepted_takeComplete (sequence : Nat) (payload : Bytes) (state : ReorderState) :
    noteAccepted sequence payload (takeComplete sequence state) =
      noteAccepted sequence payload (state.release sequence) := by
  simp only [noteAccepted, takeComplete, ReorderState.release, Finset.insert_idem]

theorem acceptCompletePayload_takeComplete (now : Instant) (sequence : Nat) (payload : Bytes)
    (state : ReorderState) :
    acceptCompletePayload now sequence payload (takeComplete sequence state) =
      acceptCompletePayload now sequence payload (state.release sequence) := by
  rw [acceptCompletePayload, acceptCompletePayload, noteAccepted_takeComplete]

namespace WindowInvariant

variable {config : ReorderConfig} {now : Instant} {Source : Nat → Bytes → Prop}
variable {Invariant : ReorderState → Prop}

theorem drainStep (rule : WindowInvariant config now Source Invariant) {state : ReorderState}
    (holds : Invariant state) : Invariant (drainStep state).value := by
  rw [Server.drainStep]
  split
  · exact holds
  · rename_i packet found
    exact rule.move (.drain found) holds

theorem drainReady (rule : WindowInvariant config now Source Invariant) {state : ReorderState}
    (holds : Invariant state) : Invariant (drainReady state) :=
  BreakLoop.run_invariant (fun _ holds => rule.drainStep holds) _ state holds

theorem acceptCompletePayload (rule : WindowInvariant config now Source Invariant)
    {state : ReorderState} {sequence : Nat} {payload : Bytes}
    (media : sequence ≤ maxMediaSequence) (fresh : state.Fresh sequence)
    (source : Source sequence payload) (holds : Invariant state) :
    Invariant (acceptCompletePayload now sequence payload (state.release sequence)) := by
  have settled := rule.move (.settle media fresh source) holds
  rw [acceptCompletePayload_eq]
  split
  · exact rule.drainReady settled
  · exact settled

theorem acceptRecovered (rule : WindowInvariant config now Source Invariant)
    {progress : ReorderState × Bool} {pair : Nat × Bytes}
    (source : pair.1 ≤ maxMediaSequence ∧ Source pair.1 pair.2)
    (holds : Invariant progress.1) :
    Invariant (acceptRecovered now progress pair).1 := by
  rcases progress with ⟨state, accepted⟩
  rcases pair with ⟨sequence, payload⟩
  simp only [Server.acceptRecovered]
  split
  · exact holds
  · rename_i fresh
    have reported := rule.move (.report sequence payload.length) holds
    exact @acceptCompletePayload _ _ _ _ rule (state.emit _) _ _ source.1 fresh source.2 reported

theorem foldl_acceptRecovered (rule : WindowInvariant config now Source Invariant)
    {recovered : List (Nat × Bytes)}
    (source : ∀ pair ∈ recovered, pair.1 ≤ maxMediaSequence ∧ Source pair.1 pair.2)
    {progress : ReorderState × Bool} (holds : Invariant progress.1) :
    Invariant (recovered.foldl (Server.acceptRecovered now) progress).1 := by
  induction recovered generalizing progress with
  | nil => exact holds
  | cons pair rest induction =>
      apply induction
      · intro other member
        exact source other (List.mem_cons_of_mem pair member)
      · exact rule.acceptRecovered (source pair List.mem_cons_self) holds

theorem recoverStep (rule : WindowInvariant config now Source Invariant)
    {state : ReorderState} (holds : Invariant state) :
    Invariant (recoverStep now state).value := by
  have searched := rule.move .search holds
  rw [Server.recoverStep]
  split
  rename_i fec recovered found
  have first : (state.fecState.recoverReady state.nextSeq state.buffered).1 = fec := by
    rw [found]
  have pairs : (state.fecState.recoverReady state.nextSeq state.buffered).2 = recovered := by
    rw [found]
  rw [first] at searched
  dsimp only
  split
  · exact searched
  · have accepted := @foldl_acceptRecovered _ _ _ _ rule recovered
      (fun pair member => rule.recovered holds (by rw [pairs]; exact member))
      ({ state with fecState := fec }, false) searched
    split
    · rename_i final outcome
      rw [outcome] at accepted
      exact accepted
    · rename_i final outcome
      rw [outcome] at accepted
      exact accepted

theorem recoverFecReady (rule : WindowInvariant config now Source Invariant)
    {state : ReorderState} (holds : Invariant state) :
    Invariant (recoverFecReady now state) :=
  BreakLoop.run_invariant (fun _ holds => rule.recoverStep holds) _ state holds

theorem expireStep (rule : WindowInvariant config now Source Invariant)
    {state : ReorderState} (holds : Invariant state) :
    Invariant (expireStep config now state).value := by
  rcases expireStep_cases config now Source state with done | ⟨next, yields, move⟩
  · rw [done]
    exact holds
  · rw [yields]
    exact rule.move move holds

theorem expireReorderGap (rule : WindowInvariant config now Source Invariant)
    {state : ReorderState} (holds : Invariant state) :
    Invariant (expireReorderGap config now state) :=
  BreakLoop.run_invariant (fun _ holds => rule.expireStep holds) _ state holds

end WindowInvariant

end Irohsion.Server
