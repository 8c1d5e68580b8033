import Irohsion.Remote.StatusTransfer

/-! # Preview transfer

The page reads the latest frame of the preview as it reads the status. It knows
how long the frame was when it read the status, and frames may be published or
removed between its requests.
-/

namespace Irohsion.Remote

open ChunkedReading

/-! ## The characteristics of the client -/

def previewChunkBytes : Nat := 500

/-- The longest chunk that a read of the preview returns. -/
def previewMaxLen (mtu : Nat) : Nat := min (max (mtu - 1) 1) previewChunkBytes

structure PreviewServer where
  offset : Nat
  snapshot : Bytes

namespace PreviewServer

/-- A read of the preview, which is empty while there is no frame. -/
def readPreview (mtu : Nat) (latestJpeg : Bytes) (server : PreviewServer) :
    Bytes × PreviewServer :=
  let snapshot := if server.snapshot.isEmpty then latestJpeg else server.snapshot
  (chunkBytes snapshot server.offset (previewMaxLen mtu), { server with snapshot := snapshot })

def writeOffset (value : Bytes) (latestJpeg : Bytes) (server : PreviewServer) :
    Except ReqError PreviewServer :=
  match parseU32Offset value with
  | .error error => .error error
  | .ok offset => .ok ⟨offset, if offset = 0 then latestJpeg else server.snapshot⟩

end PreviewServer

structure PreviewTransfer where
  server : PreviewServer
  page : PageState

/-- The next request of the page, or a read of the preview by another central,
with the latest frame at that time. -/
inductive PreviewStep
  | page (latestJpeg : Bytes)
  | otherRead (mtu : Nat) (latestJpeg : Bytes)

namespace PreviewStep

def isPage : PreviewStep → Bool
  | .page _ => true
  | .otherRead _ _ => false

def latestJpeg : PreviewStep → Bytes
  | .page latestJpeg | .otherRead _ latestJpeg => latestJpeg

end PreviewStep

/-- Every request is handled in one step. -/
def previewStep (mtu : Nat) (expectedBytes : Option Nat) (state : PreviewTransfer) :
    PreviewStep → PreviewTransfer
  | .otherRead otherMtu latestJpeg =>
      { state with server := (state.server.readPreview otherMtu latestJpeg).2 }
  | .page latestJpeg =>
      match state.page with
      | .writing progress =>
          match state.server.writeOffset (littleEndian 4 progress.offset) latestJpeg with
          | .ok server => ⟨server, .reading progress⟩
          | .error error => { state with page := .failed error }
      | .reading progress =>
          let (chunk, server) := state.server.readPreview mtu latestJpeg
          if chunk.isEmpty then ⟨server, .done progress.chunks.flatten⟩
          else ⟨server, loopHead expectedBytes (progress.push chunk)⟩
      | .done _ | .failed _ => state

def startPreview (expectedBytes : Option Nat) (server : PreviewServer) : PreviewTransfer :=
  ⟨server, loopHead expectedBytes ⟨[], 0, 0⟩⟩

/-! ## Requests -/

theorem previewMaxLen_pos (mtu : Nat) : 0 < previewMaxLen mtu := by
  rw [previewMaxLen, previewChunkBytes]
  omega

theorem previewMaxLen_le (mtu : Nat) : previewMaxLen mtu ≤ previewChunkBytes :=
  Nat.min_le_right _ _

variable {server : PreviewServer} {progress : PageReads} {mtu : Nat} {frame latestJpeg : Bytes}

theorem PreviewServer.writeOffset_littleEndian {offset : Nat} (fits : offset < 2 ^ 32)
    (latestJpeg : Bytes) (server : PreviewServer) :
    server.writeOffset (littleEndian 4 offset) latestJpeg =
      .ok ⟨offset, if offset = 0 then latestJpeg else server.snapshot⟩ := by
  rw [writeOffset, parseU32Offset_littleEndian fits]

/-- A snapshot that has been taken answers every read. -/
theorem PreviewServer.readPreview_of_snapshot (taken : server.snapshot ≠ []) (mtu : Nat)
    (latestJpeg : Bytes) :
    server.readPreview mtu latestJpeg =
      (chunkAt (previewMaxLen mtu) server.snapshot server.offset, server) := by
  have present : server.snapshot.isEmpty = false := List.isEmpty_eq_false_iff.mpr taken
  rw [readPreview, present, if_neg Bool.false_ne_true, chunkBytes_eq_chunkAt]

/-- Without a snapshot a read takes one. -/
theorem PreviewServer.readPreview_of_empty (untaken : server.snapshot = []) (mtu : Nat)
    (latestJpeg : Bytes) :
    server.readPreview mtu latestJpeg =
      (chunkAt (previewMaxLen mtu) latestJpeg server.offset, ⟨server.offset, latestJpeg⟩) := by
  have absent : server.snapshot.isEmpty = true := List.isEmpty_iff.mpr untaken
  rw [readPreview, absent, if_pos rfl, chunkBytes_eq_chunkAt]

/-! ## What the page has read -/

/-- The page has read the first chunks of a frame and goes on. -/
structure Part (mtu : Nat) (frame : Bytes) (progress : PageReads) : Prop where
  more : progress.reads < maxReads
  offset : progress.offset = progress.chunks.flatten.length
  chunks : progress.chunks.flatten = frame.take (progress.reads * previewMaxLen mtu)

/-- What the page ends with: the beginning of a frame. It has stopped early when
it had as many bytes as it expected or had read as often as it may. -/
structure Image (mtu : Nat) (expectedBytes : Option Nat) (frame bytes : Bytes) : Prop where
  begins : bytes <+: frame
  stopped : bytes = frame ∨ (∃ expected, expectedBytes = some expected ∧ expected ≤ bytes.length) ∨
    bytes.length = maxReads * previewMaxLen mtu

theorem Part.start (mtu : Nat) (frame : Bytes) : Part mtu frame ⟨[], 0, 0⟩ where
  more := by decide
  offset := rfl
  chunks := by rw [Nat.zero_mul, List.take_zero, List.flatten_nil]

/-- An offset fits four bytes. -/
theorem Part.fits (part : Part mtu frame progress) : progress.offset < 2 ^ 32 := by
  have more := part.more
  have short := previewMaxLen_le mtu
  have length : progress.offset ≤ progress.reads * previewMaxLen mtu := by
    rw [part.offset, part.chunks]
    exact List.length_take_le _ _
  have few : progress.reads * previewMaxLen mtu ≤ maxReads * previewChunkBytes :=
    Nat.mul_le_mul (Nat.le_of_lt more) short
  rw [maxReads, previewChunkBytes] at few
  omega

/-- An empty chunk is behind the end of the frame. -/
theorem Part.ended (part : Part mtu frame progress) (expectedBytes : Option Nat)
    (empty : chunkAt (previewMaxLen mtu) frame progress.offset = []) :
    Image mtu expectedBytes frame progress.chunks.flatten := by
  have past := (chunkAt_eq_nil_iff (previewMaxLen_pos mtu) _ _).mp empty
  have begins : progress.chunks.flatten <+: frame := by
    rw [part.chunks]
    exact List.take_prefix _ _
  rw [part.offset] at past
  exact ⟨begins, Or.inl (begins.eq_of_length_le past)⟩

/-- A chunk is the next one of the frame. -/
theorem Part.chunks_push (part : Part mtu frame progress)
    (some : chunkAt (previewMaxLen mtu) frame progress.offset ≠ []) :
    (progress.push (chunkAt (previewMaxLen mtu) frame progress.offset)).chunks.flatten =
      frame.take ((progress.reads + 1) * previewMaxLen mtu) := by
  have inside : progress.offset < frame.length := by
    rw [← Nat.not_le, ← chunkAt_eq_nil_iff (previewMaxLen_pos mtu)]
    exact some
  have offset : progress.offset = progress.reads * previewMaxLen mtu := by
    have length := part.offset
    rw [part.chunks, List.length_take] at length
    omega
  rw [PageReads.push, List.flatten_append, List.flatten_singleton, part.chunks, Nat.succ_mul,
    List.take_add, chunkAt, offset]

/-- Behind a chunk the loop goes on with the frame or ends. -/
theorem Part.next (part : Part mtu frame progress) (expectedBytes : Option Nat)
    (some : chunkAt (previewMaxLen mtu) frame progress.offset ≠ []) {pushed : PageReads}
    (pushes : pushed = progress.push (chunkAt (previewMaxLen mtu) frame progress.offset)) :
    (loopHead expectedBytes pushed = .writing pushed ∧ 0 < pushed.offset ∧
        Part mtu frame pushed) ∨
      loopHead expectedBytes pushed = .done pushed.chunks.flatten ∧
        Image mtu expectedBytes frame pushed.chunks.flatten := by
  have chunks := part.chunks_push some
  rw [← pushes] at chunks
  have reads : pushed.reads = progress.reads + 1 := by
    rw [pushes]
    rfl
  have offset : pushed.offset = pushed.chunks.flatten.length := by
    rw [pushes, PageReads.push, List.flatten_append, List.flatten_singleton, List.length_append,
      part.offset]
  have positive : 0 < pushed.offset := by
    rw [pushes, PageReads.push]
    exact Nat.lt_of_lt_of_le (List.length_pos_iff.mpr some) (Nat.le_add_left _ _)
  rw [← reads] at chunks
  rw [loopHead]
  split
  · rename_i goesOn
    rw [Bool.and_eq_true, decide_eq_true_eq] at goesOn
    exact Or.inl ⟨rfl, positive, goesOn.2, offset, chunks⟩
  · rename_i ends
    right
    refine ⟨rfl, ?_, ?_⟩
    · rw [chunks]
      exact List.take_prefix _ _
    · rw [Bool.and_eq_true, decide_eq_true_eq, not_and_or] at ends
      rcases ends with enough | often
      · right; left
        cases expectedBytes with
        | none => exact absurd rfl enough
        | some expected =>
            rw [Option.all_some, decide_eq_true_eq, offset] at enough
            exact ⟨expected, rfl, Nat.not_lt.mp enough⟩
      · have more := part.more
        have last : pushed.reads = maxReads := by omega
        rw [chunks, last]
        by_cases whole : frame.length ≤ maxReads * previewMaxLen mtu
        · exact Or.inl (List.take_of_length_le whole)
        · exact Or.inr (Or.inr (List.length_take_of_le (Nat.le_of_not_le whole)))

/-! ## Steps and runs -/

variable {source : Bytes → Prop} {expectedBytes : Option Nat} {state : PreviewTransfer}

/-- The page has read a part of the snapshot, which is a frame. -/
structure Holding (source : Bytes → Prop) (mtu : Nat) (server : PreviewServer)
    (progress : PageReads) : Prop where
  shown : source server.snapshot
  taken : server.snapshot ≠ []
  part : Part mtu server.snapshot progress

/-- Before its first chunk the page has nothing of any frame, and from then on
only parts of the snapshot. -/
def Previewing (source : Bytes → Prop) (mtu : Nat) (expectedBytes : Option Nat)
    (state : PreviewTransfer) : Prop :=
  match state.page with
  | .writing progress =>
      progress = ⟨[], 0, 0⟩ ∨
        0 < progress.offset ∧ Holding source mtu state.server progress
  | .reading progress =>
      state.server.offset = progress.offset ∧
        (progress = ⟨[], 0, 0⟩ ∧ state.server.snapshot = [] ∨
          Holding source mtu state.server progress)
  | .done bytes => bytes = [] ∨ ∃ frame, source frame ∧ Image mtu expectedBytes frame bytes
  | .failed _ => False

theorem previewing_start (source : Bytes → Prop) (mtu : Nat) (expectedBytes : Option Nat)
    (server : PreviewServer) :
    Previewing source mtu expectedBytes (startPreview expectedBytes server) := by
  rw [Previewing, startPreview, loopHead]
  split
  · rename_i progress same
    split at same
    · exact Or.inl (PageState.writing.inj same).symm
    · cases same
  · rename_i same
    split at same <;> cases same
  · rename_i bytes same
    split at same
    · cases same
    · exact Or.inl (PageState.done.inj same).symm
  · rename_i same
    split at same <;> cases same

/-- A snapshot that is taken before the first chunk is a frame, or there is none. -/
theorem holding_start (shown : source latestJpeg) (offset : Nat) :
    latestJpeg = [] ∨ Holding source mtu ⟨offset, latestJpeg⟩ ⟨[], 0, 0⟩ := by
  by_cases empty : latestJpeg = []
  · exact Or.inl empty
  · exact Or.inr ⟨shown, empty, .start mtu latestJpeg⟩

theorem previewing_otherRead (previewing : Previewing source mtu expectedBytes state)
    (shown : source latestJpeg) (otherMtu : Nat) :
    Previewing source mtu expectedBytes
      (previewStep mtu expectedBytes state (.otherRead otherMtu latestJpeg)) := by
  rcases state with ⟨server, page⟩
  rw [previewStep]
  by_cases untaken : server.snapshot = []
  · rw [server.readPreview_of_empty untaken]
    cases page with
    | writing progress =>
        rcases previewing with fresh | ⟨_, holding⟩
        · exact Or.inl fresh
        · exact absurd untaken holding.taken
    | reading progress =>
        rcases previewing with ⟨offset, ⟨rfl, _⟩ | holding⟩
        · refine ⟨offset, ?_⟩
          rcases holding_start shown server.offset with empty | holding
          · exact Or.inl ⟨rfl, empty⟩
          · exact Or.inr holding
        · exact absurd untaken holding.taken
    | done bytes => exact previewing
    | failed error => exact previewing
  · rw [server.readPreview_of_snapshot untaken]
    exact previewing

theorem previewing_read (offset : server.offset = progress.offset)
    (holding : Holding source mtu server progress) (expectedBytes : Option Nat)
    (latestJpeg : Bytes) :
    Previewing source mtu expectedBytes
      (previewStep mtu expectedBytes ⟨server, .reading progress⟩ (.page latestJpeg)) := by
  rw [previewStep]
  dsimp only
  rw [server.readPreview_of_snapshot holding.taken, offset]
  dsimp only
  split
  · rename_i empty
    exact Or.inr ⟨_, holding.shown, holding.part.ended _ (List.isEmpty_iff.mp empty)⟩
  · rename_i some
    rcases holding.part.next expectedBytes (mt List.isEmpty_iff.mpr some) rfl with
      ⟨goesOn, positive, part⟩ | ⟨ends, image⟩
    · rw [goesOn]
      exact Or.inr ⟨positive, holding.shown, holding.taken, part⟩
    · rw [ends]
      exact Or.inr ⟨_, holding.shown, image⟩

/-- A step keeps that the page has parts of one frame only. -/
theorem previewing_step (previewing : Previewing source mtu expectedBytes state)
    (step : PreviewStep) (shown : source step.latestJpeg) :
    Previewing source mtu expectedBytes (previewStep mtu expectedBytes state step) := by
  cases step with
  | otherRead otherMtu latestJpeg => exact previewing_otherRead previewing shown otherMtu
  | page latestJpeg =>
      rcases state with ⟨server, page⟩
      cases page with
      | writing progress =>
          rw [previewStep]
          dsimp only
          rcases previewing with rfl | ⟨positive, holding⟩
          · rw [server.writeOffset_littleEndian (Part.start mtu []).fits]
            refine ⟨rfl, ?_⟩
            rcases holding_start shown 0 with empty | holding
            · exact Or.inl ⟨rfl, empty⟩
            · exact Or.inr holding
          · rw [server.writeOffset_littleEndian holding.part.fits,
              if_neg (Nat.ne_of_gt positive)]
            exact ⟨rfl, Or.inr ⟨holding.shown, holding.taken, holding.part⟩⟩
      | reading progress =>
          rcases previewing with ⟨offset, ⟨rfl, untaken⟩ | holding⟩
          · have begins : latestJpeg = [] ∨
                Holding source mtu ⟨server.offset, latestJpeg⟩ ⟨[], 0, 0⟩ :=
              holding_start shown server.offset
            rcases begins with rfl | holding
            · rw [previewStep]
              dsimp only
              rw [server.readPreview_of_empty untaken, chunkAt, List.drop_nil, List.take_nil]
              exact Or.inl rfl
            · have same : server.readPreview mtu latestJpeg =
                  PreviewServer.readPreview mtu latestJpeg ⟨server.offset, latestJpeg⟩ := by
                rw [server.readPreview_of_empty untaken,
                  PreviewServer.readPreview_of_snapshot holding.taken]
              have first : (PreviewServer.mk server.offset latestJpeg).offset =
                  (PageReads.mk [] 0 0).offset := offset
              have read := previewing_read first holding expectedBytes latestJpeg
              rw [previewStep] at read ⊢
              dsimp only at read ⊢
              rw [same]
              exact read
          · exact previewing_read offset holding expectedBytes latestJpeg
      | done bytes => exact previewing
      | failed error => exact previewing

theorem previewStep_remaining (mtu : Nat) (expectedBytes : Option Nat) (state : PreviewTransfer)
    (step : PreviewStep) :
    (previewStep mtu expectedBytes state step).page.remaining ≤
      state.page.remaining - if step.isPage then 1 else 0 := by
  rcases state with ⟨server, page⟩
  cases step with
  | otherRead otherMtu latestJpeg => exact Nat.le_refl _
  | page latestJpeg =>
      rw [PreviewStep.isPage, if_pos rfl]
      cases page with
      | writing progress =>
          rw [previewStep]
          dsimp only
          split
          · exact Nat.le_refl _
          · exact Nat.zero_le _
      | reading progress =>
          rw [previewStep]
          dsimp only
          split
          · exact Nat.zero_le _
          · apply Nat.le_trans (remaining_loopHead expectedBytes _)
            simp only [PageReads.push, PageState.remaining]
            omega
      | done bytes => exact Nat.zero_le _
      | failed error => exact Nat.zero_le _

/-- A page that may not make another request has ended. -/
theorem Previewing.done (previewing : Previewing source mtu expectedBytes state)
    (ended : state.page.remaining = 0) : ∃ bytes, state.page = .done bytes := by
  rcases state with ⟨server, page⟩
  have starts : (0 : Nat) < maxReads := by decide
  cases page with
  | writing progress =>
      simp only [PageState.remaining] at ended
      rcases previewing with rfl | ⟨_, holding⟩
      · dsimp only at ended
        omega
      · have more := holding.part.more
        omega
  | reading progress =>
      simp only [PageState.remaining] at ended
      rcases previewing with ⟨_, ⟨rfl, _⟩ | holding⟩
      · dsimp only at ended
        omega
      · have more := holding.part.more
        omega
  | done bytes => exact ⟨bytes, rfl⟩
  | failed error => exact previewing.elim

theorem Previewing.mono {wider : Bytes → Prop} (widens : ∀ frame, source frame → wider frame)
    (previewing : Previewing source mtu expectedBytes state) :
    Previewing wider mtu expectedBytes state := by
  have held {server : PreviewServer} {progress : PageReads}
      (holding : Holding source mtu server progress) : Holding wider mtu server progress :=
    ⟨widens _ holding.shown, holding.taken, holding.part⟩
  rcases state with ⟨server, page⟩
  cases page with
  | writing progress =>
      rcases previewing with fresh | ⟨positive, holding⟩
      · exact Or.inl fresh
      · exact Or.inr ⟨positive, held holding⟩
  | reading progress =>
      rcases previewing with ⟨offset, fresh | holding⟩
      · exact ⟨offset, Or.inl fresh⟩
      · exact ⟨offset, Or.inr (held holding)⟩
  | done bytes =>
      rcases previewing with empty | ⟨frame, shown, image⟩
      · exact Or.inl empty
      · exact Or.inr ⟨frame, widens frame shown, image⟩
  | failed error => exact previewing

end Irohsion.Remote
