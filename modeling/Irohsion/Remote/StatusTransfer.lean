import Irohsion.Foundation.ChunkedReading
import Irohsion.Foundation.LittleEndian
import Irohsion.Foundation.Tiling

/-! # Status transfer

A central reads the status over Bluetooth in chunks. The client keeps an offset
and a snapshot of the status, which is taken anew when the offset becomes zero.
The page writes the offset of each chunk before it reads the chunk, and stops at
an empty chunk or after a fixed number of reads.
-/

namespace Irohsion.Remote

open ChunkedReading

/-! ## The characteristics of the client -/

def statusChunkBytes : Nat := 500

/-- A status in JSON, which has at least its braces. -/
structure StatusPayload where
  bytes : Bytes
  nonempty : bytes ≠ []

inductive ReqError
  | invalidValueLength
  deriving DecidableEq, Repr

def parseU32Offset (value : Bytes) : Except ReqError Nat :=
  if value.length = 4 then .ok (ofLittleEndian value) else .error .invalidValueLength

def chunkBytes (bytes : Bytes) (offset maxLen : Nat) : Bytes :=
  if bytes.length ≤ offset then []
  else Span.slice ⟨offset, min (offset + maxLen) bytes.length⟩ bytes

/-- The longest chunk that a read of the status returns. -/
def maxLen (mtu : Nat) : Nat := min (max (mtu - 1) 1) statusChunkBytes

structure StatusServer where
  offset : Nat
  snapshot : Bytes

namespace StatusServer

/-- A read of the status, at which the status is `live`. -/
def readStatus (mtu : Nat) (live : StatusPayload) (server : StatusServer) :
    Bytes × StatusServer :=
  let snapshot := if server.snapshot.isEmpty then live.bytes else server.snapshot
  (chunkBytes snapshot server.offset (maxLen mtu), { server with snapshot := snapshot })

/-- A write of the status offset, at which the status is `live`. -/
def writeOffset (value : Bytes) (live : StatusPayload) (server : StatusServer) :
    Except ReqError StatusServer :=
  match parseU32Offset value with
  | .error error => .error error
  | .ok offset => .ok ⟨offset, if offset = 0 then live.bytes else server.snapshot⟩

end StatusServer

/-! ## The loop of the page -/

def maxReads : Nat := 128

/-- The variables of `readChunkedCharacteristic`. The number of bytes so far is
the length of the chunks. -/
structure PageReads where
  chunks : List Bytes
  offset : Nat
  reads : Nat

def PageReads.push (chunk : Bytes) (progress : PageReads) : PageReads :=
  ⟨progress.chunks ++ [chunk], progress.offset + chunk.length, progress.reads + 1⟩

/-- Where the page is: it writes an offset or reads a chunk next, or has ended. -/
inductive PageState
  | writing (progress : PageReads)
  | reading (progress : PageReads)
  | done (bytes : Bytes)
  | failed (error : ReqError)

/-- The condition of the loop. -/
def loopHead (expectedBytes : Option Nat) (progress : PageReads) : PageState :=
  if expectedBytes.all (progress.offset < ·) && progress.reads < maxReads then .writing progress
  else .done progress.chunks.flatten

structure Transfer where
  server : StatusServer
  page : PageState

/-- The next request of the page, or a read of the status by another central. -/
inductive TransferStep
  | page (live : StatusPayload)
  | otherRead (mtu : Nat) (live : StatusPayload)

def TransferStep.isPage : TransferStep → Bool
  | .page _ => true
  | .otherRead _ _ => false

/-- Every request is handled in one step. The page sends `setUint32` of its offset. -/
def transferStep (mtu : Nat) (expectedBytes : Option Nat) (state : Transfer) :
    TransferStep → Transfer
  | .otherRead otherMtu live =>
      { state with server := (state.server.readStatus otherMtu live).2 }
  | .page live =>
      match state.page with
      | .writing progress =>
          match state.server.writeOffset (littleEndian 4 progress.offset) live with
          | .ok server => ⟨server, .reading progress⟩
          | .error error => { state with page := .failed error }
      | .reading progress =>
          let (chunk, server) := state.server.readStatus mtu live
          if chunk.isEmpty then ⟨server, .done progress.chunks.flatten⟩
          else ⟨server, loopHead expectedBytes (progress.push chunk)⟩
      | .done _ | .failed _ => state

def transferRun (mtu : Nat) (expectedBytes : Option Nat) (server : StatusServer)
    (steps : List TransferStep) : Transfer :=
  steps.foldl (transferStep mtu expectedBytes) ⟨server, loopHead expectedBytes ⟨[], 0, 0⟩⟩

/-! ## Requests -/

theorem maxLen_pos (mtu : Nat) : 0 < maxLen mtu := by
  rw [maxLen, statusChunkBytes]
  omega

theorem maxLen_le (mtu : Nat) : maxLen mtu ≤ statusChunkBytes := Nat.min_le_right _ _

theorem chunkBytes_eq_chunkAt (bytes : Bytes) (offset maxLen : Nat) :
    chunkBytes bytes offset maxLen = chunkAt maxLen bytes offset := by
  rw [chunkBytes, chunkAt]
  split
  · rename_i past
    rw [List.drop_of_length_le past, List.take_nil]
  · rw [Span.slice, Span.length]
    dsimp only
    by_cases inside : offset + maxLen ≤ bytes.length
    · rw [Nat.min_eq_left inside, Nat.add_sub_cancel_left]
    · -- Both lengths reach behind the end.
      have short : (bytes.drop offset).length ≤ min (offset + maxLen) bytes.length - offset := by
        rw [List.length_drop]
        omega
      have cut : (bytes.drop offset).length ≤ maxLen := by
        rw [List.length_drop]
        omega
      rw [List.take_of_length_le short, List.take_of_length_le cut]

/-- Offsets that fit four bytes arrive as they are. -/
theorem parseU32Offset_littleEndian {offset : Nat} (fits : offset < 2 ^ 32) :
    parseU32Offset (littleEndian 4 offset) = .ok offset := by
  have fourBytes : offset < 256 ^ 4 := by omega
  rw [parseU32Offset, if_pos (length_littleEndian 4 offset),
    ofLittleEndian_littleEndian_of_lt fourBytes]

theorem writeOffset_littleEndian {offset : Nat} (fits : offset < 2 ^ 32) (live : StatusPayload)
    (server : StatusServer) :
    server.writeOffset (littleEndian 4 offset) live =
      .ok ⟨offset, if offset = 0 then live.bytes else server.snapshot⟩ := by
  rw [StatusServer.writeOffset, parseU32Offset_littleEndian fits]

/-- A snapshot that has been taken answers every read. -/
theorem readStatus_of_snapshot {server : StatusServer} (taken : server.snapshot ≠ [])
    (mtu : Nat) (live : StatusPayload) :
    server.readStatus mtu live =
      (chunkAt (maxLen mtu) server.snapshot server.offset, server) := by
  have present : server.snapshot.isEmpty = false := List.isEmpty_eq_false_iff.mpr taken
  rw [StatusServer.readStatus, present, if_neg Bool.false_ne_true, chunkBytes_eq_chunkAt]

/-! ## What is still to be read -/

/-- Together with what the remaining reads gather, the chunks are what all reads
gather from the snapshot. -/
structure Pending (mtu : Nat) (snapshot : StatusPayload) (progress : PageReads) : Prop where
  more : progress.reads < maxReads
  offset : progress.offset ≤ progress.reads * statusChunkBytes
  gathers : progress.chunks.flatten ++
      gather (maxLen mtu) snapshot.bytes (maxReads - progress.reads) progress.offset =
    gather (maxLen mtu) snapshot.bytes maxReads 0

/-- The transfer of a snapshot after it has been taken. -/
def Transferring (mtu : Nat) (snapshot : StatusPayload) (state : Transfer) : Prop :=
  state.server.snapshot = snapshot.bytes ∧
    match state.page with
    | .writing progress => Pending mtu snapshot progress ∧ 0 < progress.offset
    | .reading progress => Pending mtu snapshot progress ∧ state.server.offset = progress.offset
    | .done bytes => bytes = gather (maxLen mtu) snapshot.bytes maxReads 0
    | .failed _ => False

variable {mtu : Nat} {snapshot : StatusPayload} {progress : PageReads} {state : Transfer}

theorem Pending.start (mtu : Nat) (snapshot : StatusPayload) :
    Pending mtu snapshot ⟨[], 0, 0⟩ where
  more := by decide
  offset := Nat.zero_le _
  gathers := by rw [List.flatten_nil, List.nil_append, Nat.sub_zero]

/-- An offset fits four bytes. -/
theorem Pending.fits (pending : Pending mtu snapshot progress) : progress.offset < 2 ^ 32 := by
  have more := pending.more
  have offset := pending.offset
  rw [maxReads] at more
  rw [statusChunkBytes] at offset
  omega

/-- A read takes the first chunk of what is still to be gathered. -/
theorem Pending.gather_eq (pending : Pending mtu snapshot progress) :
    gather (maxLen mtu) snapshot.bytes (maxReads - progress.reads) progress.offset =
      chunkAt (maxLen mtu) snapshot.bytes progress.offset ++
        gather (maxLen mtu) snapshot.bytes (maxReads - (progress.reads + 1))
          (progress.offset + (chunkAt (maxLen mtu) snapshot.bytes progress.offset).length) := by
  have more := pending.more
  have reads : maxReads - progress.reads = maxReads - (progress.reads + 1) + 1 := by omega
  rw [reads, gather]

/-- An empty chunk ends the transfer: there is nothing behind it. -/
theorem Pending.done (pending : Pending mtu snapshot progress)
    (empty : chunkAt (maxLen mtu) snapshot.bytes progress.offset = []) :
    progress.chunks.flatten = gather (maxLen mtu) snapshot.bytes maxReads 0 := by
  have past := (chunkAt_eq_nil_iff (maxLen_pos mtu) _ _).mp empty
  have gathers := pending.gathers
  rw [gather_of_length_le _ past, List.append_nil] at gathers
  exact gathers

/-- Behind a chunk the loop goes on, or has read as often as it may. -/
theorem Pending.next (pending : Pending mtu snapshot progress) {server : StatusServer}
    (taken : server.snapshot = snapshot.bytes)
    (some : chunkAt (maxLen mtu) snapshot.bytes progress.offset ≠ []) :
    Transferring mtu snapshot ⟨server, loopHead none
      (progress.push (chunkAt (maxLen mtu) snapshot.bytes progress.offset))⟩ := by
  have gathers := pending.gathers
  rw [pending.gather_eq, ← List.append_assoc] at gathers
  have chunks : (progress.push
      (chunkAt (maxLen mtu) snapshot.bytes progress.offset)).chunks.flatten =
        progress.chunks.flatten ++ chunkAt (maxLen mtu) snapshot.bytes progress.offset := by
    rw [PageReads.push, List.flatten_append, List.flatten_singleton]
  have short : (chunkAt (maxLen mtu) snapshot.bytes progress.offset).length ≤
      statusChunkBytes := Nat.le_trans (List.length_take_le _ _) (maxLen_le mtu)
  have positive := List.length_pos_iff.mpr some
  refine ⟨taken, ?_⟩
  by_cases more : progress.reads + 1 < maxReads
  · have goesOn : loopHead none
        (progress.push (chunkAt (maxLen mtu) snapshot.bytes progress.offset)) = .writing _ :=
      if_pos (decide_eq_true more)
    rw [goesOn]
    refine ⟨⟨more, ?_, ?_⟩, Nat.lt_of_lt_of_le positive (Nat.le_add_left _ _)⟩
    · rw [PageReads.push, Nat.succ_mul]
      exact Nat.add_le_add pending.offset short
    · rw [chunks]
      exact gathers
  · have ends : loopHead none
        (progress.push (chunkAt (maxLen mtu) snapshot.bytes progress.offset)) = .done _ :=
      if_neg fun goesOn => more (of_decide_eq_true goesOn)
    have noneLeft : maxReads - (progress.reads + 1) = 0 := by omega
    rw [ends]
    dsimp only
    rw [noneLeft, gather, List.append_nil] at gathers
    rw [chunks]
    exact gathers

/-! ## Steps and runs -/

/-- The page writes its offset, and zero makes the client take a snapshot. -/
theorem transferStep_writing (mtu : Nat) {progress : PageReads}
    (fits : progress.offset < 2 ^ 32) (server : StatusServer) (live : StatusPayload) :
    transferStep mtu none ⟨server, .writing progress⟩ (.page live) =
      ⟨⟨progress.offset, if progress.offset = 0 then live.bytes else server.snapshot⟩,
        .reading progress⟩ := by
  rw [transferStep]
  dsimp only
  rw [writeOffset_littleEndian fits]

/-- The page reads a chunk of the snapshot. -/
theorem transferStep_reading (mtu : Nat) {server : StatusServer} (present : server.snapshot ≠ [])
    (progress : PageReads) (live : StatusPayload) :
    transferStep mtu none ⟨server, .reading progress⟩ (.page live) =
      if (chunkAt (maxLen mtu) server.snapshot server.offset).isEmpty then
        ⟨server, .done progress.chunks.flatten⟩
      else ⟨server, loopHead none
        (progress.push (chunkAt (maxLen mtu) server.snapshot server.offset))⟩ := by
  rw [transferStep]
  dsimp only
  rw [readStatus_of_snapshot present]

/-- A step keeps the snapshot and what the transfer will bring. -/
theorem transferStep_transferring (transferring : Transferring mtu snapshot state)
    (step : TransferStep) : Transferring mtu snapshot (transferStep mtu none state step) := by
  rcases state with ⟨server, page⟩
  rcases transferring with ⟨taken, phase⟩
  have present : server.snapshot ≠ [] := by
    rw [taken]
    exact snapshot.nonempty
  cases step with
  | otherRead otherMtu live =>
      rw [transferStep, readStatus_of_snapshot present]
      exact ⟨taken, phase⟩
  | page live =>
      cases page with
      | writing progress =>
          rcases phase with ⟨pending, positive⟩
          rw [transferStep_writing mtu pending.fits, if_neg (Nat.ne_of_gt positive)]
          exact ⟨taken, pending, rfl⟩
      | reading progress =>
          rcases phase with ⟨pending, same⟩
          dsimp only at taken same
          rw [transferStep_reading mtu present, taken, same]
          split
          · rename_i empty
            exact ⟨taken, pending.done (List.isEmpty_iff.mp empty)⟩
          · rename_i some
            exact pending.next taken (mt List.isEmpty_iff.mpr some)
      | done bytes => exact ⟨taken, phase⟩
      | failed error => exact ⟨taken, phase⟩

theorem foldl_transferring (transferring : Transferring mtu snapshot state)
    (steps : List TransferStep) :
    Transferring mtu snapshot (steps.foldl (transferStep mtu none) state) := by
  induction steps generalizing state with
  | nil => exact transferring
  | cons step rest induction =>
      exact induction (transferStep_transferring transferring step)

/-- A bound on the requests that the page still makes. -/
def PageState.remaining : PageState → Nat
  | .writing progress => 2 * (maxReads - progress.reads)
  | .reading progress => 2 * (maxReads - progress.reads) - 1
  | .done _ | .failed _ => 0

theorem remaining_loopHead (expectedBytes : Option Nat) (progress : PageReads) :
    (loopHead expectedBytes progress).remaining ≤ 2 * (maxReads - progress.reads) := by
  rw [loopHead]
  split
  · exact Nat.le_refl _
  · exact Nat.zero_le _

theorem transferStep_remaining (mtu : Nat) (state : Transfer) (step : TransferStep) :
    (transferStep mtu none state step).page.remaining ≤
      state.page.remaining - if step.isPage then 1 else 0 := by
  rcases state with ⟨server, page⟩
  cases step with
  | otherRead otherMtu live => exact Nat.le_refl _
  | page live =>
      rw [TransferStep.isPage, if_pos rfl]
      cases page with
      | writing progress =>
          rw [transferStep]
          dsimp only
          split
          · exact Nat.le_refl _
          · exact Nat.zero_le _
      | reading progress =>
          rw [transferStep]
          dsimp only
          split
          · exact Nat.zero_le _
          · apply Nat.le_trans (remaining_loopHead none _)
            simp only [PageReads.push, PageState.remaining]
            omega
      | done bytes => exact Nat.zero_le _
      | failed error => exact Nat.zero_le _

theorem foldl_remaining (mtu : Nat) (state : Transfer) (steps : List TransferStep) :
    (steps.foldl (transferStep mtu none) state).page.remaining ≤
      state.page.remaining - steps.countP TransferStep.isPage := by
  induction steps generalizing state with
  | nil => exact Nat.le_refl _
  | cons step rest induction =>
      have first := transferStep_remaining mtu state step
      have later := induction (transferStep mtu none state step)
      rw [List.foldl_cons, List.countP_cons]
      omega

/-- A transfer ends once the page has made enough requests. -/
theorem Transferring.done (transferring : Transferring mtu snapshot state)
    (ended : state.page.remaining = 0) :
    state.page = .done (gather (maxLen mtu) snapshot.bytes maxReads 0) := by
  rcases state with ⟨server, page⟩
  rcases transferring with ⟨_, phase⟩
  cases page with
  | writing progress =>
      have more := phase.1.more
      simp only [PageState.remaining] at ended
      omega
  | reading progress =>
      have more := phase.1.more
      simp only [PageState.remaining] at ended
      omega
  | done bytes => exact congrArg PageState.done phase
  | failed error => exact phase.elim

/-- Reads by others leave the page alone. -/
theorem foldl_otherReads (mtu : Nat) (others : List (Nat × StatusPayload)) (state : Transfer) :
    ((others.map fun other => TransferStep.otherRead other.1 other.2).foldl
      (transferStep mtu none) state).page = state.page := by
  induction others generalizing state with
  | nil => rfl
  | cons other rest induction => exact induction _

/-- Whatever others read before and after, the page gets what its reads gather
from the status at its first write. -/
theorem transferRun_transferring (mtu : Nat) (server : StatusServer)
    (before : List (Nat × StatusPayload)) (snapshot : StatusPayload)
    (later : List TransferStep) :
    ∃ final, transferRun mtu none server ((before.map fun other =>
        TransferStep.otherRead other.1 other.2) ++ .page snapshot :: later) = final ∧
      Transferring mtu snapshot final ∧
      (2 * maxReads ≤ later.countP TransferStep.isPage + 1 → final.page.remaining = 0) := by
  have untouched := foldl_otherReads mtu before ⟨server, .writing ⟨[], 0, 0⟩⟩
  rcases started : (before.map fun other => TransferStep.otherRead other.1 other.2).foldl
    (transferStep mtu none) ⟨server, .writing ⟨[], 0, 0⟩⟩ with ⟨middle, page⟩
  rw [started] at untouched
  dsimp only at untouched
  have first := transferStep_writing mtu (Pending.start mtu snapshot).fits middle snapshot
  rw [if_pos rfl] at first
  have taken : Transferring mtu snapshot ⟨⟨0, snapshot.bytes⟩, .reading ⟨[], 0, 0⟩⟩ :=
    ⟨rfl, .start mtu snapshot, rfl⟩
  refine ⟨_, rfl, ?_⟩
  have runs : transferRun mtu none server ((before.map fun other =>
      TransferStep.otherRead other.1 other.2) ++ .page snapshot :: later) =
        later.foldl (transferStep mtu none) ⟨⟨0, snapshot.bytes⟩, .reading ⟨[], 0, 0⟩⟩ := by
    have begins : loopHead none ⟨[], 0, 0⟩ = .writing ⟨[], 0, 0⟩ := rfl
    rw [transferRun, begins, List.foldl_append, started, untouched, List.foldl_cons, first]
  rw [runs]
  refine ⟨foldl_transferring taken later, ?_⟩
  intro enough
  have bound := foldl_remaining mtu ⟨⟨0, snapshot.bytes⟩, .reading ⟨[], 0, 0⟩⟩ later
  have asked : (PageState.reading ⟨[], 0, 0⟩).remaining = 2 * maxReads - 1 := rfl
  rw [asked] at bound
  omega

/-- The page ends with the first bytes of the snapshot that its reads can bring,
which are the snapshot exactly when it is short enough. -/
theorem statusTransfer_exact (mtu : Nat) (server : StatusServer)
    (before : List (Nat × StatusPayload)) (snapshot : StatusPayload)
    (later : List TransferStep) :
    ∃ final, transferRun mtu none server ((before.map fun other =>
        TransferStep.otherRead other.1 other.2) ++ .page snapshot :: later) = final ∧
      (2 * maxReads ≤ later.countP TransferStep.isPage + 1 →
        ∃ bytes, final.page = .done bytes) ∧
      ∀ bytes, final.page = .done bytes →
        bytes = snapshot.bytes.take (maxReads * maxLen mtu) ∧
          (bytes = snapshot.bytes ↔ snapshot.bytes.length ≤ maxReads * maxLen mtu) := by
  rcases transferRun_transferring mtu server before snapshot later with
    ⟨final, ran, transferring, ends⟩
  refine ⟨final, ran, ?_, ?_⟩
  · exact fun enough => ⟨_, transferring.done (ends enough)⟩
  · intro bytes done
    have gathered := transferring.2
    rw [done] at gathered
    dsimp only at gathered
    rw [gathered]
    constructor
    · rw [gather_eq_take, List.drop_zero]
    · exact gather_eq_self_iff _ _ _

/-! ## A long status -/

def chatEntry (id : Char) (length : Nat) : List Char :=
  "\x7b\"id\":".toList ++ [id] ++ ",\"text\":\"".toList ++ List.replicate length 'a' ++
    "\",\"unix_ms\":1,\"user\":\"viewer\"\x7d".toList

/-- The JSON text of a status with three chat messages. -/
def longStatusText : List Char :=
  "\x7b\"kind\":\"irohsion-client-remote\",\"endpoint\":\"".toList ++ List.replicate 64 'a' ++
    "\",\"addrs\":[],\"relays\":[],\"control\":\x7b\"effective_strategy\":\"split\",".toList ++
    "\"interfaces\":[],\"mode\":\"auto\",\"monitor_packets\":true,\"packets\":0,".toList ++
    "\"payload_bytes\":0\x7d,\"preview\":\x7b\"enabled\":false,\"decoding\":false,".toList ++
    "\"jpeg_bytes\":0,\"characteristic\":\"8b4f82c8-4f5a-4e26-8f29-d1f0c0d10004\",".toList ++
    "\"offset_characteristic\":\"8b4f82c8-4f5a-4e26-8f29-d1f0c0d10005\",".toList ++
    "\"chunk_bytes\":500\x7d,\"chat\":[".toList ++
    [','].intercalate [chatEntry '1' 700, chatEntry '2' 700, chatEntry '3' 812] ++ "]\x7d".toList

theorem length_longStatusText : longStatusText.length = 2817 := by decide +kernel

theorem longStatusText_ne_nil : longStatusText ≠ [] :=
  List.ne_nil_of_length_eq_add_one length_longStatusText

/-- Each character of the text is one byte. -/
def longStatus : StatusPayload where
  bytes := longStatusText.map fun character => UInt8.ofNat character.toNat
  nonempty := mt List.map_eq_nil_iff.mp longStatusText_ne_nil

theorem length_longStatus : longStatus.bytes.length = 2817 :=
  (List.length_map _).trans length_longStatusText

/-- With the default MTU of the attribute protocol a status of 2817 bytes loses its last byte. -/
theorem long_status_truncated :
    maxLen 23 = 22 ∧ ∃ bytes,
      (transferRun 23 none ⟨0, []⟩ (List.replicate 256 (.page longStatus))).page = .done bytes ∧
      bytes.length = 2816 ∧ bytes ≠ longStatus.bytes := by
  rcases transferRun_transferring 23 ⟨0, []⟩ [] longStatus
    (List.replicate 255 (.page longStatus)) with ⟨final, ran, transferring, ends⟩
  have enough : 2 * maxReads ≤ (List.replicate 255 (TransferStep.page longStatus)).countP
      TransferStep.isPage + 1 := by
    rw [List.countP_replicate]
    decide
  have done := transferring.done (ends enough)
  have length : (gather (maxLen 23) longStatus.bytes maxReads 0).length = 2816 := by
    rw [gather_eq_take, List.drop_zero, List.length_take, length_longStatus]
    decide
  refine ⟨by decide, _, ?_, length, ?_⟩
  · have steps : List.replicate 256 (TransferStep.page longStatus) =
        .page longStatus :: List.replicate 255 (.page longStatus) := List.replicate_succ
    rw [← done, ← ran, steps, List.map_nil, List.nil_append]
  · intro whole
    rw [whole, length_longStatus] at length
    omega

end Irohsion.Remote
