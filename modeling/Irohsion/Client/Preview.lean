import Irohsion.Foundation.LittleEndian
import Irohsion.Foundation.RecordCutting
import Irohsion.Foundation.Tiling
import Mathlib.Algebra.Order.Ring.Nat

/-! # Frames of the preview

The preview decoder writes JPEGs to a pipe. `read_frames` takes them out of what
it has read, publishes those that are small enough, and forgets what it has kept
when that gets too long.
-/

namespace Irohsion.Client

open RecordCutting

/-! ## The reader -/

def startMarker : Bytes := [0xff, 0xd8]

def endMarker : Bytes := [0xff, 0xd9]

/-- The first frame and how many bytes it uses up. -/
def takeJpegFrame (data : Bytes) : Option (Bytes × Nat) := do
  let start ← position startMarker data
  let found ← position endMarker (data.drop (start + 2))
  let stop := found + start + 4
  some (Span.slice ⟨start, stop⟩ data, stop)

example : takeJpegFrame [0, 1, 0xff, 0xd8, 4, 5, 0xff, 0xd9, 9] =
    some ([0xff, 0xd8, 4, 5, 0xff, 0xd9], 8) := by decide

/-- The stream that `read_frames` keeps, and what it has written to
`latest_jpeg`, oldest first. -/
structure FrameReader where
  stream : Bytes
  published : List Bytes

namespace FrameReader

def start : FrameReader := ⟨[], []⟩

def publish (maxJpegBytes : Nat) (frame : Bytes) (reader : FrameReader) : FrameReader :=
  if frame.length ≤ maxJpegBytes then { reader with published := reader.published ++ [frame] }
  else reader

/-- The inner loop, for at most `fuel` frames. -/
def takeFrames (maxJpegBytes : Nat) : Nat → FrameReader → FrameReader
  | 0, reader => reader
  | fuel + 1, reader =>
      match takeJpegFrame reader.stream with
      | none => reader
      | some (frame, consumed) =>
          let published := reader.publish maxJpegBytes frame
          takeFrames maxJpegBytes fuel { published with stream := reader.stream.drop consumed }

/-- `max_jpeg_bytes.saturating_mul(2)` -/
def streamLimit (maxJpegBytes : Nat) : Nat := min (maxJpegBytes * 2) (2 ^ 64 - 1)

/-- What the loop does with the bytes of one read. -/
def read (maxJpegBytes : Nat) (reader : FrameReader) (bytes : Bytes) : FrameReader :=
  let extended := { reader with stream := reader.stream ++ bytes }
  let taken := takeFrames maxJpegBytes extended.stream.length extended
  if streamLimit maxJpegBytes < taken.stream.length then { taken with stream := [] } else taken

end FrameReader

/-- The loop over the reads from the decoder. -/
def readFrames (maxJpegBytes : Nat) (reads : List Bytes) : FrameReader :=
  reads.foldl (FrameReader.read maxJpegBytes) .start

/-! ## What a frame is -/

/-- The body of a JPEG has no end marker. -/
structure Jpeg where
  body : Bytes
  unended : ¬ endMarker <:+: body

def Jpeg.bytes (jpeg : Jpeg) : Bytes := startMarker ++ jpeg.body ++ endMarker

theorem Jpeg.bytes_ne_nil (jpeg : Jpeg) : jpeg.bytes ≠ [] := by
  simp [Jpeg.bytes, startMarker]

/-- The first byte of a marker cannot complete one. -/
theorem marker_infix_concat {last : UInt8} (different : last ≠ 0xff) (data : Bytes) :
    [0xff, last] <:+: data ++ [0xff] ↔ [0xff, last] <:+: data := by
  rw [List.infix_concat_iff, List.suffix_concat_iff]
  constructor
  · rintro ((empty | ⟨front, same, _⟩) | inside)
    · cases empty
    · have lastOf := congrArg List.getLast? same
      rw [List.getLast?_concat] at lastOf
      exact absurd (Option.some.inj lastOf) different
    · exact inside
  · exact Or.inr

/-- A frame is the first JPEG behind bytes without a start marker. -/
theorem takeJpegFrame_eq_some_iff {data frame : Bytes} {consumed : Nat} :
    takeJpegFrame data = some (frame, consumed) ↔
      ∃ before, ∃ jpeg : Jpeg, ∃ after, data = before ++ jpeg.bytes ++ after ∧
        ¬ startMarker <:+: before ∧ frame = jpeg.bytes ∧
        consumed = (before ++ jpeg.bytes).length := by
  have starts (before : Bytes) : startMarker <:+: before ++ startMarker.dropLast ↔
      startMarker <:+: before := marker_infix_concat (by decide) before
  have ends (body : Bytes) : endMarker <:+: body ++ endMarker.dropLast ↔
      endMarker <:+: body := marker_infix_concat (by decide) body
  have behind (before rest : Bytes) :
      (before ++ startMarker ++ rest).drop (before.length + 2) = rest := by
    have length : before.length + 2 = (before ++ startMarker).length := by simp [startMarker]
    rw [length, List.drop_left]
  simp only [takeJpegFrame, Option.bind_eq_bind, Option.bind_eq_some_iff, Option.some.injEq,
    Prod.mk.injEq]
  constructor
  · rintro ⟨start, begins, found, stops, rfl, rfl⟩
    rcases (position_eq_some_iff (by decide)).mp begins with ⟨before, rest, rfl, rfl, fresh⟩
    rw [behind] at stops
    rcases (position_eq_some_iff (by decide)).mp stops with ⟨body, after, rfl, rfl, unended⟩
    rw [starts] at fresh
    rw [ends] at unended
    have whole : before ++ startMarker ++ (body ++ endMarker ++ after) =
        before ++ (Jpeg.mk body unended).bytes ++ after := by simp [Jpeg.bytes]
    have stop : body.length + before.length + 4 =
        (before ++ (Jpeg.mk body unended).bytes).length := by
      simp [Jpeg.bytes, startMarker, endMarker]
      omega
    rw [whole, stop]
    exact ⟨before, ⟨body, unended⟩, after, rfl, fresh, Span.slice_middle _ _ _, rfl⟩
  · rintro ⟨before, jpeg, after, rfl, fresh, rfl, rfl⟩
    have whole : before ++ jpeg.bytes ++ after =
        before ++ startMarker ++ (jpeg.body ++ endMarker ++ after) := by simp [Jpeg.bytes]
    have stop : jpeg.body.length + before.length + 4 = (before ++ jpeg.bytes).length := by
      simp [Jpeg.bytes, startMarker, endMarker]
      omega
    refine ⟨before.length, ?_, jpeg.body.length, ?_, ?_, stop⟩
    · rw [position_eq_some_iff (by decide)]
      exact ⟨before, _, whole, rfl, mt (starts before).mp fresh⟩
    · rw [whole, behind, position_eq_some_iff (by decide)]
      exact ⟨jpeg.body, after, rfl, rfl, mt (ends jpeg.body).mp jpeg.unended⟩
    · rw [stop]
      exact Span.slice_middle _ _ _

/-- What comes behind a frame does not change it. -/
def jpegCutter : Cutter UInt8 where
  cut := takeJpegFrame
  nonempty cut := by
    rcases takeJpegFrame_eq_some_iff.mp cut with ⟨_, jpeg, _, _, _, rfl, _⟩
    exact jpeg.bytes_ne_nil
  found cut := by
    rcases takeJpegFrame_eq_some_iff.mp cut with ⟨before, jpeg, after, same, _, rfl, consumed⟩
    exact ⟨before, after, same, consumed⟩
  stable cut more := by
    rcases takeJpegFrame_eq_some_iff.mp cut with ⟨before, jpeg, after, rfl, fresh, rfl, consumed⟩
    rw [takeJpegFrame_eq_some_iff]
    exact ⟨before, jpeg, after ++ more, List.append_assoc _ _ _, fresh, rfl, consumed⟩

/-! ## What the reader does -/

namespace FrameReader

variable {maxJpegBytes : Nat}

def small (maxJpegBytes : Nat) (frames : List Bytes) : List Bytes :=
  frames.filter fun frame => frame.length ≤ maxJpegBytes

/-- The inner loop cuts, and publishes what is small. -/
theorem takeFrames_eq (maxJpegBytes fuel : Nat) (reader : FrameReader) :
    takeFrames maxJpegBytes fuel reader =
      ⟨(jpegCutter.cutUpTo fuel reader.stream).2,
        reader.published ++ small maxJpegBytes (jpegCutter.cutUpTo fuel reader.stream).1⟩ := by
  induction fuel generalizing reader with
  | zero => simp [takeFrames, Cutter.cutUpTo, small]
  | succ fuel induction =>
      rw [takeFrames, Cutter.cutUpTo, show jpegCutter.cut = takeJpegFrame from rfl]
      cases takeJpegFrame reader.stream with
      | none => simp [small]
      | some found =>
          dsimp only
          rw [induction]
          dsimp only
          rw [publish]
          split <;> simp_all [small]

/-- The reader publishes what is small among what a cutting reader finds. -/
def Refines (maxJpegBytes : Nat) (reader : FrameReader) (cutting : Reader UInt8) : Prop :=
  reader = ⟨cutting.buffer, small maxJpegBytes cutting.records⟩

theorem Refines.read {reader : FrameReader} {cutting : Reader UInt8}
    (refines : Refines maxJpegBytes reader cutting) (bytes : Bytes) :
    Refines maxJpegBytes (reader.read maxJpegBytes bytes)
      (cutting.feed jpegCutter (streamLimit maxJpegBytes) bytes) := by
  rw [Refines] at refines ⊢
  subst refines
  rw [FrameReader.read, Reader.feed]
  dsimp only
  rw [takeFrames_eq, Cutter.cutAll]
  dsimp only
  split <;> simp [small]

theorem foldl_refines {reader : FrameReader} {cutting : Reader UInt8}
    (refines : Refines maxJpegBytes reader cutting) (reads : List Bytes) :
    Refines maxJpegBytes (reads.foldl (FrameReader.read maxJpegBytes) reader)
      (reads.foldl (Reader.feed jpegCutter (streamLimit maxJpegBytes)) cutting) := by
  induction reads generalizing reader cutting with
  | nil => exact refines
  | cons bytes rest induction => exact induction (refines.read bytes)

end FrameReader

theorem readFrames_refines (maxJpegBytes : Nat) (reads : List Bytes) :
    FrameReader.Refines maxJpegBytes (readFrames maxJpegBytes reads)
      (reads.foldl (Reader.feed jpegCutter (FrameReader.streamLimit maxJpegBytes)) .start) := by
  have begins : FrameReader.Refines maxJpegBytes .start .start := rfl
  exact FrameReader.foldl_refines begins reads

theorem readFrames_settled (maxJpegBytes : Nat) (reads : List Bytes) :
    (reads.foldl (Reader.feed jpegCutter (FrameReader.streamLimit maxJpegBytes)) .start).Settled
      jpegCutter (FrameReader.streamLimit maxJpegBytes) :=
  Reader.foldl_settled reads (Reader.Settled.start _ _)

theorem published_jpeg {maxJpegBytes : Nat} {reads : List Bytes} {frame : Bytes}
    (member : frame ∈ (readFrames maxJpegBytes reads).published) :
    frame.length ≤ maxJpegBytes ∧ ∃ jpeg : Jpeg, frame = jpeg.bytes := by
  rw [readFrames_refines maxJpegBytes reads] at member
  rcases List.mem_filter.mp member with ⟨found, small⟩
  rcases (readFrames_settled maxJpegBytes reads).cut frame found with ⟨rest, used, cut⟩
  rcases takeJpegFrame_eq_some_iff.mp cut with ⟨_, jpeg, _, _, _, same, _⟩
  exact ⟨of_decide_eq_true small, jpeg, same⟩

theorem published_inOrder (maxJpegBytes : Nat) (reads : List Bytes) :
    ∃ past, reads.flatten = past ++ (readFrames maxJpegBytes reads).stream ∧
      InOrder (readFrames maxJpegBytes reads).published past := by
  have startsEmpty : (Reader.start : Reader UInt8).Follows [] := ⟨[], rfl, trivial⟩
  rcases Reader.foldl_follows jpegCutter (FrameReader.streamLimit maxJpegBytes) reads
    startsEmpty with ⟨past, same, inOrder⟩
  rw [List.nil_append] at same
  rw [readFrames_refines maxJpegBytes reads]
  exact ⟨past, same, inOrder.sublist List.filter_sublist⟩

/-- Whatever arrives, and however it is split: each frame is a JPEG that is small
enough, the frames are behind each other in what has arrived, and what is kept
is short and has no frame. -/
theorem readFrames_publishes (maxJpegBytes : Nat) (reads : List Bytes) :
    (∀ frame ∈ (readFrames maxJpegBytes reads).published,
      frame.length ≤ maxJpegBytes ∧ ∃ jpeg : Jpeg, frame = jpeg.bytes) ∧
    (∃ past, reads.flatten = past ++ (readFrames maxJpegBytes reads).stream ∧
      InOrder (readFrames maxJpegBytes reads).published past) ∧
    takeJpegFrame (readFrames maxJpegBytes reads).stream = none ∧
    (readFrames maxJpegBytes reads).stream.length ≤ FrameReader.streamLimit maxJpegBytes := by
  have settled := readFrames_settled maxJpegBytes reads
  refine ⟨?_, published_inOrder maxJpegBytes reads, ?_, ?_⟩
  · exact fun frame member => published_jpeg member
  · rw [readFrames_refines maxJpegBytes reads]
    exact settled.waits
  · rw [readFrames_refines maxJpegBytes reads]
    exact settled.short

/-! ## Streams of frames -/

/-- A JPEG and the bytes in front of it. -/
structure Piece where
  gap : Bytes
  silent : ¬ startMarker <:+: gap
  jpeg : Jpeg

def Piece.bytes (piece : Piece) : Bytes := piece.gap ++ piece.jpeg.bytes

/-- The pieces of a stream that are complete in its first bytes. -/
def completePieces : List Piece → Nat → List Piece
  | [], _ => []
  | piece :: later, received =>
      if piece.bytes.length ≤ received then
        piece :: completePieces later (received - piece.bytes.length)
      else []

theorem Piece.cut (piece : Piece) (more : Bytes) :
    jpegCutter.cut (piece.bytes ++ more) = some (piece.jpeg.bytes, piece.bytes.length) :=
  takeJpegFrame_eq_some_iff.mpr ⟨piece.gap, piece.jpeg, more, rfl, piece.silent, rfl, rfl⟩

/-- A piece that is incomplete has no frame yet. -/
theorem Piece.cut_of_prefix (piece : Piece) {front : Bytes} (begins : front <+: piece.bytes)
    (short : front.length < piece.bytes.length) : jpegCutter.cut front = none := by
  cases cut : jpegCutter.cut front with
  | none => rfl
  | some found =>
      rcases begins with ⟨more, whole⟩
      have later := jpegCutter.stable cut more
      have atWhole := piece.cut []
      rw [List.append_nil, ← whole, later] at atWhole
      have used := Cutter.used_le cut
      have same := congrArg Prod.snd (Option.some.inj atWhole)
      rw [whole] at same
      omega

/-- What has been cut from the beginning of a stream are the complete pieces,
and what is left begins the next one. -/
theorem cutAll_pieces {pieces : List Piece} {front : Bytes}
    (begins : front <+: pieces.flatMap Piece.bytes) :
    (jpegCutter.cutAll front).1 =
        (completePieces pieces front.length).map (fun piece => piece.jpeg.bytes) ∧
      front = (completePieces pieces front.length).flatMap Piece.bytes ++
        (jpegCutter.cutAll front).2 ∧
      ((jpegCutter.cutAll front).2 = [] ∨
        ∃ piece ∈ pieces, (jpegCutter.cutAll front).2.length < piece.bytes.length) := by
  induction pieces generalizing front with
  | nil =>
      have empty := List.prefix_nil.mp begins
      subst empty
      rw [Cutter.cutAll_of_none jpegCutter.cut_nil]
      exact ⟨rfl, rfl, Or.inl rfl⟩
  | cons piece later induction =>
      rw [List.flatMap_cons] at begins
      rw [completePieces]
      split
      · rename_i whole
        have within := List.prefix_of_prefix_length_le (List.prefix_append _ _) begins whole
        rcases within with ⟨rest, rfl⟩
        have restBegins := (List.prefix_append_right_inj piece.bytes).mp begins
        rw [Cutter.cutAll_of_some (piece.cut rest), List.drop_left, List.length_append,
          Nat.add_sub_cancel_left]
        rcases induction restBegins with ⟨cut, split, next⟩
        refine ⟨congrArg (piece.jpeg.bytes :: ·) cut, ?_, ?_⟩
        · rw [List.flatMap_cons, List.append_assoc]
          exact congrArg (piece.bytes ++ ·) split
        · rcases next with empty | ⟨other, member, short⟩
          · exact Or.inl empty
          · exact Or.inr ⟨other, List.mem_cons_of_mem _ member, short⟩
      · rename_i short
        have short := Nat.not_le.mp short
        have within := List.prefix_of_prefix_length_le begins (List.prefix_append _ _)
          (Nat.le_of_lt short)
        rw [Cutter.cutAll_of_none (piece.cut_of_prefix within short)]
        exact ⟨rfl, rfl, Or.inr ⟨piece, List.mem_cons_self, short⟩⟩

/-- However a stream is split, its frames are published as soon as they are
complete, but for those that are too long. -/
theorem readFrames_pieces (maxJpegBytes : Nat) (pieces : List Piece)
    (fit : ∀ piece ∈ pieces, piece.bytes.length ≤ FrameReader.streamLimit maxJpegBytes + 1)
    (reads : List Bytes) (begins : reads.flatten <+: pieces.flatMap Piece.bytes) :
    (readFrames maxJpegBytes reads).published =
        ((completePieces pieces reads.flatten.length).map (fun piece => piece.jpeg.bytes)).filter
          (fun frame => frame.length ≤ maxJpegBytes) ∧
      reads.flatten = (completePieces pieces reads.flatten.length).flatMap Piece.bytes ++
        (readFrames maxJpegBytes reads).stream := by
  have startsExact : (Reader.start : Reader UInt8).Exact jpegCutter [] := by
    rw [Reader.Exact, Cutter.cutAll_of_none jpegCutter.cut_nil]
    rfl
  -- What is left of a piece is too short to be forgotten.
  have short : ∀ front, front <+: reads.flatten →
      (jpegCutter.cutAll ([] ++ front)).2.length ≤ FrameReader.streamLimit maxJpegBytes := by
    intro front within
    rw [List.nil_append]
    rcases cutAll_pieces (within.trans begins) with ⟨_, _, empty | ⟨piece, member, short⟩⟩
    · rw [empty]
      exact Nat.zero_le _
    · have fits := fit piece member
      omega
  have exact := Reader.foldl_exact reads startsExact short
  have refines := readFrames_refines maxJpegBytes reads
  rw [List.nil_append, Reader.Exact] at exact
  rw [exact] at refines
  rcases cutAll_pieces begins with ⟨cut, split, _⟩
  rw [refines, ← cut]
  exact ⟨rfl, split⟩

def shortPiece : Piece := ⟨[0], by decide, ⟨[4, 5], by decide⟩⟩

theorem readFrames_pieces_twoReads :
    (∀ piece ∈ [shortPiece, shortPiece],
        piece.bytes.length ≤ FrameReader.streamLimit 6 + 1) ∧
      [[0, 0xff, 0xd8, 4, 5, 0xff], [0xd9, 0, 0xff]].flatten <+:
        [shortPiece, shortPiece].flatMap Piece.bytes ∧
      (readFrames 6 [[0, 0xff, 0xd8, 4, 5, 0xff], [0xd9, 0, 0xff]]).published =
        [[0xff, 0xd8, 4, 5, 0xff, 0xd9]] := by
  have fit : ∀ piece ∈ [shortPiece, shortPiece],
      piece.bytes.length ≤ FrameReader.streamLimit 6 + 1 := by decide
  have begins : [[0, 0xff, 0xd8, 4, 5, 0xff], [0xd9, 0, 0xff]].flatten <+:
      [shortPiece, shortPiece].flatMap Piece.bytes := by decide
  exact ⟨fit, begins, (readFrames_pieces 6 [shortPiece, shortPiece] fit _ begins).1⟩

end Irohsion.Client
