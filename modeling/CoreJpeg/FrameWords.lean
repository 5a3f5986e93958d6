import CoreJpeg.OutputFrame
import CoreJpeg.RgbRepacker
import CoreJpeg.TopFifos

namespace CoreJpeg

/-!
# The words of the frame

The repacker turns the pixels of a frame into bus words.  `jpeg_top` writes the
words of the output FIFO in chunks of as many bytes as the FIFO holds, but not
more than the image has left.  If the frame has the bytes of the image, every
chunk ends on a word.
-/

open Clocked Framing

namespace JpegTop

variable {config : Config}

theorem wordsBytes_eq_sum (words : List (Keep config)) :
    wordsBytes words = (words.map axisKeepCount).sum := by
  induction words with
  | nil =>
      rfl
  | cons word rest inductionHypothesis =>
      rw [wordsBytes, inductionHypothesis, List.map_cons, List.sum_cons]

/-- All bytes of some words end on their last word. -/
theorem coversWords_self (words : List (Keep config)) :
    coversWords words (wordsBytes words) = true := by
  induction words with
  | nil =>
      rfl
  | cons word rest inductionHypothesis =>
      cases bytes : wordsBytes (word :: rest) with
      | zero =>
          rfl
      | succ left =>
          rw [wordsBytes] at bytes
          have behind : left + 1 - axisKeepCount word = wordsBytes rest := by
            omega
          rw [coversWords, behind, inductionHypothesis, Bool.and_true,
            decide_eq_true_eq]
          omega

theorem coversWords_of_leads
    {front words : List (Keep config)}
    (leads : front <+: words) :
    coversWords words (wordsBytes front) = true := by
  obtain ⟨more, rfl⟩ := leads
  exact coversWords_append (coversWords_self front) more

/--
Whichever of some words were written and whichever of them wait in the output
FIFO, the chunk chosen for an image of this many bytes ends on a word.
-/
def ChunksEndOnWords (imageBytes : Nat) (words : List (Keep config)) : Prop :=
  ∀ written held, words = written ++ held →
    wordsBytes written ≤ imageBytes →
      coversWords held
        (min (imageBytes - wordsBytes written) (wordsBytes held)) = true

/-- Chunks end on words if the image does, or if it has no fewer bytes. -/
theorem chunksEndOnWords_of_boundary
    {imageBytes : Nat}
    {words : List (Keep config)}
    (boundary :
      wordsBytes words ≤ imageBytes ∨
        ∃ front, front <+: words ∧ wordsBytes front = imageBytes) :
    ChunksEndOnWords imageBytes words := by
  rintro written held rfl within
  rcases boundary with whole | ⟨front, leads, ends⟩
  · rw [wordsBytes_append] at whole
    rw [Nat.min_eq_right (by omega)]
    exact coversWords_self held
  · rcases List.prefix_or_prefix_of_prefix leads
      (List.prefix_append written held) with ⟨more, inFront⟩ | ⟨rest, behind⟩
    · -- the image ends within the written words
      have bytes := congrArg wordsBytes inFront
      rw [wordsBytes_append, ends] at bytes
      rw [show imageBytes - wordsBytes written = 0 by omega, Nat.zero_min]
      exact coversWords_of_leads (List.nil_prefix (l := held))
    · obtain ⟨beyond, split⟩ := leads
      rw [← behind, List.append_assoc] at split
      have shape := List.append_cancel_left split
      have bytes : wordsBytes written + wordsBytes rest = imageBytes := by
        rw [← wordsBytes_append, behind, ends]
      have total : wordsBytes rest + wordsBytes beyond = wordsBytes held := by
        rw [← wordsBytes_append, shape]
      rw [Nat.min_eq_left (by omega),
        show imageBytes - wordsBytes written = wordsBytes rest by omega]
      exact coversWords_of_leads ⟨beyond, shape⟩

end JpegTop

namespace JpegRgbRepacker

open JpegTop

variable {config : Config} {inputs : List Input}

/-- `m_axis_tkeep` of the word given out in a cycle. -/
def givenKeep (s : State config.strbWidth) (i : Input) :
    List (Keep config) :=
  if s.outputFire i then [s.mAxisTkeep] else []

/-- The mask of a word counts its bytes. -/
theorem givenKeep_count (s : State config.strbWidth) (i : Input) :
    (givenKeep s i).map axisKeepCount =
      (acceptedWord s i).map fun word => word.cells.length := by
  unfold givenKeep acceptedWord
  split
  · simp [axisKeepCount, keptBytes]
  · rfl

/-- The masks of the words given out count their bytes. -/
theorem givenKeeps_counts
    (s : State config.strbWidth) (inputs : List Input) :
    (observe step givenKeep s inputs).map axisKeepCount =
      (observe step acceptedWord s inputs).map
        fun word => word.cells.length := by
  rw [← observe_map, ← observe_map]
  congr 1
  funext s i
  exact givenKeep_count s i

/-- The first words given out have the bytes of their masks. -/
theorem wordsBytes_front
    {s : State config.strbWidth}
    {front : List (Beat (BitVec 8))}
    (leads : front <+: observe step acceptedWord s inputs) :
    ∃ keeps, keeps <+: observe step givenKeep s inputs ∧
      wordsBytes keeps = (cellsOf front).length := by
  refine ⟨_, List.take_prefix front.length _, ?_⟩
  rw [wordsBytes_eq_sum, List.map_take, givenKeeps_counts, ← List.map_take,
    ← List.prefix_iff_eq_take.mp leads, cellsOf, List.length_flatMap]

/-- Some pixels taken in have three bytes each. -/
theorem length_cells_pixels
    {s : State config.strbWidth}
    {front : List (Beat (BitVec 8))}
    (leads : front <+: observe step acceptedPixel s inputs) :
    (cellsOf front).length = 3 * front.length := by
  have three (s : State config.strbWidth) (inputs : List Input) :
      ∀ pixel ∈ observe step acceptedPixel s inputs,
        pixel.cells.length = 3 := by
    induction inputs generalizing s with
    | nil =>
        intro pixel taken
        simp at taken
    | cons i rest inductionHypothesis =>
        intro pixel taken
        rw [observe_cons, List.mem_append] at taken
        rcases taken with now | later
        · unfold acceptedPixel at now
          split at now
          · rw [List.mem_singleton.mp now]
            exact length_bytesOf i.sAxisTdata 3
          · simp at now
        · exact inductionHypothesis _ pixel later
  have all := List.map_eq_replicate_iff.mpr fun pixel member =>
    three s inputs pixel (leads.subset member)
  rw [cellsOf, List.length_flatMap, all, List.sum_replicate_nat,
    Nat.mul_comm]

/-- The chunks of a frame end on words. -/
theorem frame_chunksEndOnWords
    (wide : 4 ≤ config.strbWidth)
    (running : ∀ i ∈ inputs, i.rst = false)
    {marks : List Bool}
    (marked :
      (observe step acceptedPixel (reset config.strbWidth) inputs).map
          Beat.last <+: marks) :
    ChunksEndOnWords (3 * (marks.findIdx id + 1))
      (observe step (@givenKeep config) (reset config.strbWidth) inputs) := by
  have same := (repacks_stream wide running rfl).2.1
  have pixels := length_cells_pixels
    (firstFrame_leads
      (observe step acceptedPixel (reset config.strbWidth) inputs))
  obtain ⟨few, exactly⟩ := length_firstFrame marked
  apply chunksEndOnWords_of_boundary
  rcases firstFrame_of_add same with within | ⟨ends, cut⟩
  · left
    rw [wordsBytes_eq_sum, givenKeeps_counts, ← List.length_flatMap]
    exact within.trans (by omega)
  · right
    obtain ⟨keeps, leads, bytes⟩ := wordsBytes_front
      (firstFrame_leads
        (observe step acceptedWord (reset config.strbWidth) inputs))
    refine ⟨keeps, leads, ?_⟩
    rw [bytes, cut, pixels, exactly ends]

end JpegRgbRepacker

namespace JpegOutput

open McuProc
/--
When all blocks of an image have been delivered in the order of the scan, the
frame has the pixels of the image, and the bytes that `jpeg_top` waits for,
exactly if the pixels of the image end the last block they need and their bytes
are counted in 32 bits.  It is moreover the last thing delivered exactly if the
MCUs are whole.  If the frame is exact, every chunk of the words that the
repacker makes of its pixels ends on a word.
-/
theorem frame_exact_iff
    (mode : ImageMode)
    (supported : mode ≠ .unsupported)
    (width height : BitVec 16)
    (widthPositive : 0 < width.toNat)
    (heightPositive : 0 < height.toNat)
    (after : List (BitVec 32))
    (afterImage : ∀ id ∈ after, typeOf id = BlockType.eof.code)
    (s : State)
    (cleared : Cleared s)
    (nothing : s.validQ = false)
    (cycles : List Input)
    (along :
      Clocked.Along Fed.step
        (Fed.Feeds mode (scanIds mode width height ++ after)) ⟨s, 0, 0⟩
        cycles)
    (delivered :
      (Clocked.observe Fed.step Fed.passed ⟨s, 0, 0⟩ cycles).length =
        64 * lumaCount mode width height) :
    (ExactFrame width height
        (Clocked.observe Fed.step Fed.passed ⟨s, 0, 0⟩ cycles) ↔
      FillsBlocks mode width height ∧ BytesFit width height) ∧
    (ExactFrame width height
        (Clocked.observe Fed.step Fed.passed ⟨s, 0, 0⟩ cycles) ∧
      framePixels width height
          (Clocked.observe Fed.step Fed.passed ⟨s, 0, 0⟩ cycles) =
        (Clocked.observe Fed.step Fed.passed ⟨s, 0, 0⟩ cycles).length ↔
      WholeMcus mode width height ∧ BytesFit width height) ∧
    (ExactFrame width height
        (Clocked.observe Fed.step Fed.passed ⟨s, 0, 0⟩ cycles) →
      ∀ (config : JpegTop.Config) (pixels : List JpegRgbRepacker.Input),
        4 ≤ config.strbWidth →
        (∀ i ∈ pixels, i.rst = false) →
        (Clocked.observe JpegRgbRepacker.step JpegRgbRepacker.acceptedPixel
              (JpegRgbRepacker.reset config.strbWidth) pixels).map
            Framing.Beat.last <+:
          (Clocked.observe Fed.step Fed.passed ⟨s, 0, 0⟩ cycles).map
            (isLast width height) →
        JpegTop.ChunksEndOnWords (JpegTop.imageBytes width height).toNat
          (Clocked.observe JpegRgbRepacker.step
            (@JpegRgbRepacker.givenKeep config)
            (JpegRgbRepacker.reset config.strbWidth) pixels)) := by
  have passed :=
    passed_frame supported afterImage cleared nothing along delivered
  have filled :=
    exactFrame_frame_iff mode widthPositive heightPositive
  rw [passed]
  refine ⟨filled, ?_, ?_⟩
  · rw [filled, framePixels_frame mode widthPositive heightPositive, frame,
      List.length_map, List.length_range,
      lastSample_last_iff widthPositive heightPositive]
    constructor
    · rintro ⟨⟨_, bytes⟩, whole⟩
      exact ⟨whole, bytes⟩
    · rintro ⟨whole, bytes⟩
      exact ⟨⟨whole.fillsBlocks, bytes⟩, whole⟩
  · intro exactFrame config pixels wide running marked
    have ends :=
      JpegRgbRepacker.frame_chunksEndOnWords wide running marked
    rw [List.findIdx_map] at ends
    rwa [← exactFrame.bytes]

/-- A cycle of a grey image of one block, with or without a sample. -/
def blockCycle (width height : BitVec 16) (sample : Option (BitVec 6)) :
    Input where
  rst := false
  imgStart := false
  imgWidth := width
  imgHeight := height
  imgMode := .monochrome
  inportValid := sample.isSome
  inportData := 0
  inportIdx := sample.getD 0
  inportId := 0
  outportAccept := true

/-- The samples of one block, and time to read them. -/
def blockCycles (width height : BitVec 16) : List Input :=
  (List.range 64).map
      (fun sample => blockCycle width height (some (BitVec.ofNat 6 sample))) ++
    List.replicate 67 (blockCycle width height none)

/-- The stage is cleared after `rst_i`. -/
theorem cleared_reset : Cleared reset :=
  ⟨rfl, rfl, rfl, rfl, rfl, rfl, rfl⟩

/-- The frame of a grey image of 8 × 8 pixels. -/
theorem frame_exact_block :
    ExactFrame 8 8
      (Clocked.observe Fed.step Fed.passed ⟨reset, 0, 0⟩
        (blockCycles 8 8)) :=
  (frame_exact_iff .monochrome (by decide) 8 8 (by decide) (by decide) []
    (by simp) reset cleared_reset rfl (blockCycles 8 8)
    (by decide +kernel) (by decide +kernel)).1.mpr
    (by decide +kernel)

/--
A grey image of one column and two rows has two pixels, but the frame ends only
with the ninth pixel of its block.
-/
theorem column_frame_too_long :
    ¬ ∀ (mode : ImageMode) (width height : BitVec 16),
      mode ≠ .unsupported →
      0 < width.toNat →
      0 < height.toNat →
      ∀ (s : State) (cycles : List Input),
        Cleared s →
        s.validQ = false →
        Clocked.Along Fed.step
          (Fed.Feeds mode (scanIds mode width height)) ⟨s, 0, 0⟩ cycles →
        (Clocked.observe Fed.step Fed.passed ⟨s, 0, 0⟩ cycles).length =
          64 * lumaCount mode width height →
        ExactFrame width height
          (Clocked.observe Fed.step Fed.passed ⟨s, 0, 0⟩ cycles) := by
  intro claimed
  have isExact :=
    claimed .monochrome 1 2 (by decide) (by decide) (by decide) reset
      (blockCycles 1 2) cleared_reset rfl (by decide +kernel)
      (by decide +kernel)
  have long :
      framePixels 1 2
        (Clocked.observe Fed.step Fed.passed ⟨reset, 0, 0⟩
          (blockCycles 1 2)) = 9 := by
    decide +kernel
  have two := isExact.pixels
  rw [long] at two
  exact absurd two (by decide)

end JpegOutput

end CoreJpeg
