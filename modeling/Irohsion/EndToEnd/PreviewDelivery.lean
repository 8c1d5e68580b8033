import Irohsion.Client.Preview
import Irohsion.Remote.PreviewTransfer

/-! # Frames from the decoder to the page

The decoder, `read_frames`, the latest frame and the page. Frames are published
and removed, and decoders are replaced, between any two requests of the page.
-/

namespace Irohsion.EndToEnd

open Client Remote RecordCutting

/-! ## The system -/

/-- `decoded` are the reads from the decoder that runs, `earlier` those from the
decoders before it. Frames that are still to be written to `latestJpeg` are
`unwritten`. -/
structure PreviewSystem where
  earlier : List (List Bytes)
  decoded : List Bytes
  reader : FrameReader
  unwritten : List Bytes
  latestJpeg : Bytes
  transfer : PreviewTransfer

inductive PreviewEvent
  | decode (bytes : Bytes)
  /-- The next frame is written to `latest_jpeg`. -/
  | publish
  /-- The decoder is stopped, and another one is started. -/
  | restart
  /-- The preview is disabled. -/
  | disable
  | page
  | otherRead (mtu : Nat)
  deriving DecidableEq

namespace PreviewSystem

def initial (expectedBytes : Option Nat) (server : PreviewServer) : PreviewSystem where
  earlier := []
  decoded := []
  reader := .start
  unwritten := []
  latestJpeg := []
  transfer := startPreview expectedBytes server

def decode (maxJpegBytes : Nat) (bytes : Bytes) (system : PreviewSystem) : PreviewSystem :=
  let reader := system.reader.read maxJpegBytes bytes
  { system with
    decoded := system.decoded ++ [bytes]
    reader := reader
    unwritten := system.unwritten ++
      reader.published.drop system.reader.published.length }

def publish (system : PreviewSystem) : PreviewSystem :=
  match system.unwritten with
  | [] => system
  | frame :: later => { system with unwritten := later, latestJpeg := frame }

/-- A reader that is aborted may still write the frames that it has taken. -/
def restart (system : PreviewSystem) : PreviewSystem :=
  { system with
    earlier := system.earlier ++ [system.decoded]
    decoded := []
    reader := .start }

def step (maxJpegBytes mtu : Nat) (expectedBytes : Option Nat) (system : PreviewSystem) :
    PreviewEvent → PreviewSystem
  | .decode bytes => system.decode maxJpegBytes bytes
  | .publish => system.publish
  | .restart => system.restart
  | .disable => { system with latestJpeg := [] }
  | .page =>
      { system with
        transfer := previewStep mtu expectedBytes system.transfer (.page system.latestJpeg) }
  | .otherRead otherMtu =>
      { system with
        transfer := previewStep mtu expectedBytes system.transfer
          (.otherRead otherMtu system.latestJpeg) }

def run (maxJpegBytes mtu : Nat) (expectedBytes : Option Nat) (server : PreviewServer)
    (events : List PreviewEvent) : PreviewSystem :=
  events.foldl (step maxJpegBytes mtu expectedBytes) (initial expectedBytes server)

/-! ## Where frames come from -/

/-- What each decoder has written. -/
def outputs (system : PreviewSystem) : List Bytes :=
  (system.earlier ++ [system.decoded]).map List.flatten

variable {maxJpegBytes mtu : Nat} {expectedBytes : Option Nat} {system : PreviewSystem}

/-- A small JPEG that one decoder has written. -/
def Decoded (maxJpegBytes : Nat) (system : PreviewSystem) (frame : Bytes) : Prop :=
  frame.length ≤ maxJpegBytes ∧ (∃ jpeg : Jpeg, frame = jpeg.bytes) ∧
    ∃ output ∈ system.outputs, frame <:+: output

/-- What can be found in `latest_jpeg`. -/
def Shown (maxJpegBytes : Nat) (system : PreviewSystem) (frame : Bytes) : Prop :=
  frame = [] ∨ system.Decoded maxJpegBytes frame

structure Sound (maxJpegBytes mtu : Nat) (expectedBytes : Option Nat) (system : PreviewSystem) :
    Prop where
  reads : system.reader = readFrames maxJpegBytes system.decoded
  unwritten : ∀ frame ∈ system.unwritten, system.Decoded maxJpegBytes frame
  latest : system.Shown maxJpegBytes system.latestJpeg
  previewing : Previewing (system.Shown maxJpegBytes) mtu expectedBytes system.transfer

theorem Sound.initial (maxJpegBytes mtu : Nat) (expectedBytes : Option Nat)
    (server : PreviewServer) :
    (PreviewSystem.initial expectedBytes server).Sound maxJpegBytes mtu expectedBytes where
  reads := rfl
  unwritten _ member := absurd member List.not_mem_nil
  latest := Or.inl rfl
  previewing := previewing_start _ mtu expectedBytes server

/-- Outputs only grow. -/
theorem Decoded.of_outputs {later : PreviewSystem} {frame : Bytes}
    (grows : ∀ output ∈ system.outputs, ∃ longer ∈ later.outputs, output <+: longer)
    (decoded : system.Decoded maxJpegBytes frame) : later.Decoded maxJpegBytes frame := by
  rcases decoded with ⟨small, jpeg, output, member, inside⟩
  rcases grows output member with ⟨longer, memberLonger, begins⟩
  exact ⟨small, jpeg, longer, memberLonger, inside.trans begins.isInfix⟩

theorem outputs_decode (maxJpegBytes : Nat) (bytes : Bytes) (system : PreviewSystem) :
    ∀ output ∈ system.outputs,
      ∃ longer ∈ (system.decode maxJpegBytes bytes).outputs, output <+: longer := by
  intro output member
  simp only [outputs, List.map_append, List.mem_append, List.map_singleton,
    List.mem_singleton] at member
  rcases member with before | rfl
  · refine ⟨output, ?_, List.prefix_refl _⟩
    simp only [outputs, decode, List.map_append, List.mem_append]
    exact Or.inl before
  · refine ⟨(system.decoded ++ [bytes]).flatten, ?_, ?_⟩
    · simp [outputs, decode]
    · rw [List.flatten_append]
      exact List.prefix_append _ _

theorem outputs_restart (system : PreviewSystem) :
    ∀ output ∈ system.outputs, ∃ longer ∈ system.restart.outputs, output <+: longer := by
  intro output member
  refine ⟨output, ?_, List.prefix_refl _⟩
  rw [outputs, restart, List.map_append]
  exact List.mem_append_left _ member

theorem decoded_of_published {frame : Bytes}
    (reads : system.reader = readFrames maxJpegBytes system.decoded)
    (member : frame ∈ system.reader.published) : system.Decoded maxJpegBytes frame := by
  rw [reads] at member
  rcases published_jpeg member with ⟨small, jpeg⟩
  rcases published_inOrder maxJpegBytes system.decoded with ⟨past, same, inOrder⟩
  refine ⟨small, jpeg, system.decoded.flatten, by simp [outputs], ?_⟩
  rw [same]
  exact (inOrder.infix_of_mem member).trans (List.prefix_append _ _).isInfix

/-! ## Steps and runs -/

theorem Sound.step (sound : system.Sound maxJpegBytes mtu expectedBytes) (event : PreviewEvent) :
    (system.step maxJpegBytes mtu expectedBytes event).Sound maxJpegBytes mtu expectedBytes := by
  cases event with
  | decode bytes =>
      have kept {frame : Bytes} (decoded : system.Decoded maxJpegBytes frame) :=
        decoded.of_outputs (outputs_decode maxJpegBytes bytes system)
      have reads : (system.decode maxJpegBytes bytes).reader =
          readFrames maxJpegBytes (system.decoded ++ [bytes]) := by
        rw [decode, readFrames, List.foldl_append, sound.reads]
        rfl
      refine ⟨reads, ?_, ?_, ?_⟩
      · intro frame member
        rcases List.mem_append.mp member with before | now
        · exact kept (sound.unwritten frame before)
        · exact decoded_of_published reads (List.mem_of_mem_drop now)
      · exact sound.latest.imp_right kept
      · exact sound.previewing.mono fun frame shown => shown.imp_right kept
  | publish =>
      rw [PreviewSystem.step, publish]
      split
      · exact sound
      · rename_i frame later same
        have unwritten := sound.unwritten
        rw [same, List.forall_mem_cons] at unwritten
        exact ⟨sound.reads, unwritten.2, Or.inr unwritten.1, sound.previewing⟩
  | restart =>
      have kept {frame : Bytes} (decoded : system.Decoded maxJpegBytes frame) :=
        decoded.of_outputs (outputs_restart system)
      refine ⟨rfl, ?_, ?_, ?_⟩
      · exact fun frame member => kept (sound.unwritten frame member)
      · exact sound.latest.imp_right kept
      · exact sound.previewing.mono fun frame shown => shown.imp_right kept
  | disable => exact ⟨sound.reads, sound.unwritten, Or.inl rfl, sound.previewing⟩
  | page =>
      exact ⟨sound.reads, sound.unwritten, sound.latest,
        previewing_step sound.previewing (.page system.latestJpeg) sound.latest⟩
  | otherRead otherMtu =>
      exact ⟨sound.reads, sound.unwritten, sound.latest,
        previewing_step sound.previewing (.otherRead otherMtu system.latestJpeg) sound.latest⟩

theorem Sound.foldl (sound : system.Sound maxJpegBytes mtu expectedBytes)
    (events : List PreviewEvent) :
    (events.foldl (PreviewSystem.step maxJpegBytes mtu expectedBytes) system).Sound
      maxJpegBytes mtu expectedBytes := by
  induction events generalizing system with
  | nil => exact sound
  | cons event rest induction => exact induction (sound.step event)

theorem step_remaining (maxJpegBytes mtu : Nat) (expectedBytes : Option Nat)
    (system : PreviewSystem) (event : PreviewEvent) :
    (system.step maxJpegBytes mtu expectedBytes event).transfer.page.remaining ≤
      system.transfer.page.remaining - if event == .page then 1 else 0 := by
  cases event with
  | page => exact previewStep_remaining mtu expectedBytes system.transfer (.page _)
  | otherRead otherMtu =>
      exact previewStep_remaining mtu expectedBytes system.transfer (.otherRead otherMtu _)
  | publish =>
      rw [step, publish]
      split <;> exact Nat.le_refl _
  | _ => exact Nat.le_refl _

theorem foldl_remaining (maxJpegBytes mtu : Nat) (expectedBytes : Option Nat)
    (system : PreviewSystem) (events : List PreviewEvent) :
    (events.foldl (step maxJpegBytes mtu expectedBytes) system).transfer.page.remaining ≤
      system.transfer.page.remaining - events.count .page := by
  induction events generalizing system with
  | nil => exact Nat.le_refl _
  | cons event rest induction =>
      have first := step_remaining maxJpegBytes mtu expectedBytes system event
      have later := induction (system.step maxJpegBytes mtu expectedBytes event)
      rw [List.foldl_cons, List.count_cons]
      omega

end PreviewSystem

end Irohsion.EndToEnd
