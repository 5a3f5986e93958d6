import Mathlib.Algebra.Order.Group.Int
import CoreJpeg.Raster
import CoreJpeg.SoftwareModel

namespace CoreJpeg.Software

/-!
# Where the software decoder puts its pixels

`DecodeImage` converts each decoded block to RGB and writes it into the
destination as soon as its MCU is complete.  In 4:2:0 the four luma blocks of
an MCU go to the block numbers `block_num / 2` plus 0, 1, the blocks of a row,
and one more; `block_num` skips a row of blocks whenever `loop` reaches half of
them.  This module transcribes the placement and says for which widths every
pixel comes from the MCU that covers it.
-/

/-! ## `WriteRgbPixel` and `ConvertBlock` -/

/-- The destination buffer. -/
structure Destination where
  bytes : Nat → Byte
  capacity : Nat

/-- The samples of an MCU: `y_dct_out`, `cb_dct_out` and `cr_dct_out`. -/
structure McuOutput where
  yDctOut : Nat → Int
  cbDctOut : Nat → Int
  crDctOut : Nat → Int

/--
The floating-point sums of `ConvertBlock`.  Without chrominance they are exact.
-/
structure RgbConversion where
  toRgb : Int → Int → Int → Int × Int × Int
  grey :
    ∀ luma, -128 ≤ luma → luma ≤ 127 →
      toRgb luma 0 0 = (128 + luma, 128 + luma, 128 + luma)

/-- `std::clamp` to a byte. -/
def clampByte (value : Int) : Byte := BitVec.ofInt 8 (max 0 (min value 255))

/-- The three bytes of a colour. -/
def colour (rgb : Int × Int × Int) : Byte × Byte × Byte :=
  (clampByte rgb.1, clampByte rgb.2.1, clampByte rgb.2.2)

/-- `WriteRgbPixel`; the coordinates are never negative. -/
def writeRgbPixel
    (width height x y : Nat)
    (rgb : Int × Int × Int)
    (dst : Destination) : Option Destination :=
  if width ≤ x ∨ height ≤ y then some dst
  else
    let offset := (y * width + x) * 3
    if dst.capacity ≤ offset + 2 then none
    else
      some { dst with
        bytes := fun place =>
          if place = offset + 2 then clampByte rgb.2.2
          else if place = offset + 1 then clampByte rgb.2.1
          else if place = offset then clampByte rgb.1
          else dst.bytes place }

/-- `x_blocks` and `mcu_width`: the blocks that cover a row. -/
def xBlocks (width : Nat) : Nat :=
  width / 8 + if width % 8 = 0 then 0 else 1

/-- The channels of a sample before clamping. -/
def channels (conversion : RgbConversion) (mode : ImageMode)
    (luma cb cr : Int) : Int × Int × Int :=
  if mode = .monochrome then (128 + luma, 128 + luma, 128 + luma)
  else conversion.toRgb luma cb cr

/-- `ConvertBlock`. -/
def convertBlock
    (conversion : RgbConversion)
    (mode : ImageMode)
    (width height blockNum : Nat)
    (y cb cr : Nat → Int)
    (dst : Destination) : Option Destination :=
  let xStart := blockNum % xBlocks width * 8
  let yStart := blockNum / xBlocks width * 8
  (List.range 64).foldlM
    (fun dst i =>
      writeRgbPixel width height (xStart + i % 8) (yStart + i / 8)
        (channels conversion mode (y i) (cb i) (cr i)) dst)
    dst

/-! ## The placement in `DecodeImage` -/

/-- `sub_idx`: the chrominance sample of a luma sample in one of four blocks. -/
def subIdx (block i : Nat) : Nat :=
  match block with
  | 0 => i / 16 * 8 + i % 8 / 2
  | 1 => i / 16 * 8 + 4 + i % 8 / 2
  | 2 => 32 + i / 16 * 8 + i % 8 / 2
  | _ => 32 + i / 16 * 8 + 4 + i % 8 / 2

/-- The variables of `DecodeImage` that concern the output. -/
structure ImageOutput where
  dst : Destination
  blockNum : Nat
  loop : Nat

/-- One luma block of a 4:2:0 MCU with its expanded chrominance. -/
def convertQuarter
    (conversion : RgbConversion)
    (width height : Nat)
    (mcu : McuOutput)
    (block blockNum : Nat)
    (dst : Destination) : Option Destination :=
  convertBlock conversion .ycbcr420 width height blockNum
    (fun i => mcu.yDctOut (block * 64 + i))
    (fun i => mcu.cbDctOut (subIdx block i))
    (fun i => mcu.crDctOut (subIdx block i)) dst

/-- `block_num` and `loop` after a 4:2:0 MCU. -/
def nextPosition (width blockNum loop : Nat) : Nat × Nat :=
  if loop + 1 = xBlocks width / 2 then
    (blockNum + 4 + xBlocks width * 2, 0)
  else (blockNum + 4, loop + 1)

/-- The output of one MCU. -/
def outputMcu
    (conversion : RgbConversion)
    (mode : ImageMode)
    (width height : Nat)
    (s : ImageOutput)
    (mcu : McuOutput) : Option ImageOutput :=
  match mode with
  | .ycbcr420 => do
      let first := s.blockNum / 2
      let dst ← convertQuarter conversion width height mcu 0 first s.dst
      let dst ← convertQuarter conversion width height mcu 1 (first + 1) dst
      let dst ←
        convertQuarter conversion width height mcu 2
          (first + xBlocks width) dst
      let dst ←
        convertQuarter conversion width height mcu 3
          (first + xBlocks width + 1) dst
      let next := nextPosition width s.blockNum s.loop
      some { dst := dst, blockNum := next.1, loop := next.2 }
  | .ycbcr444 | .monochrome => do
      let dst ←
        convertBlock conversion mode width height s.blockNum mcu.yDctOut
          mcu.cbDctOut mcu.crDctOut s.dst
      some { dst := dst, blockNum := s.blockNum + 1, loop := s.loop }
  | .unsupported => none

/-- The output of the decoded MCUs of an image. -/
def outputMcus
    (conversion : RgbConversion)
    (mode : ImageMode)
    (width height : Nat)
    (mcus : List McuOutput)
    (dst : Destination) : Option ImageOutput :=
  mcus.foldlM (outputMcu conversion mode width height)
    { dst := dst, blockNum := 0, loop := 0 }

/-! ## The property -/

/-- The colour stored for a pixel. -/
def Destination.pixel (dst : Destination) (width x y : Nat) :
    Byte × Byte × Byte :=
  (dst.bytes ((y * width + x) * 3), dst.bytes ((y * width + x) * 3 + 1),
    dst.bytes ((y * width + x) * 3 + 2))

/-- The colour of a pixel in the MCU that covers it. -/
def pixelOf (conversion : RgbConversion) (mcu : McuOutput) (x y : Nat) :
    Byte × Byte × Byte :=
  let luma := (2 * (y % 16 / 8) + x % 16 / 8) * 64 + (y % 8 * 8 + x % 8)
  let chroma := y % 16 / 2 * 8 + x % 16 / 2
  colour
    (conversion.toRgb (mcu.yDctOut luma) (mcu.cbDctOut chroma)
      (mcu.crDctOut chroma))

/-- The pixels of an image are those of the MCUs that cover them. -/
def ShowsMcus (conversion : RgbConversion) (width height : Nat)
    (mcus : List McuOutput) (dst : Destination) : Prop :=
  ∀ x y, x < width → y < height →
    ∃ mcu ∈ mcus[y / 16 * units width 16 + x / 16]?,
      dst.pixel width x y = pixelOf conversion mcu x y

/-- Every 4:2:0 image of a size is placed completely. -/
def PlacesPixels (conversion : RgbConversion) (width height : Nat) : Prop :=
  ∀ (dst : Destination) (mcus : List McuOutput),
    width * height * 3 ≤ dst.capacity →
    mcus.length = units width 16 * units height 16 →
    ∃ final,
      outputMcus conversion .ycbcr420 width height mcus dst = some final ∧
        ShowsMcus conversion width height mcus final.dst

/-! ## Loops that may fail -/

/-- A loop keeps an invariant of the number of elements it has consumed. -/
theorem foldlM_invariant
    {Accumulator Element : Type}
    (body : Accumulator → Element → Option Accumulator)
    (elements : List Element)
    {motive : Nat → Accumulator → Prop}
    (preserved :
      ∀ index element accumulator,
        elements[index]? = some element → motive index accumulator →
          ∃ next,
            body accumulator element = some next ∧ motive (index + 1) next)
    {start : Accumulator}
    (initially : motive 0 start) :
    ∃ final,
      elements.foldlM body start = some final ∧
        motive elements.length final := by
  induction elements generalizing motive start with
  | nil => exact ⟨start, rfl, initially⟩
  | cons first rest inductionHypothesis =>
      obtain ⟨next, stepped, holds⟩ := preserved 0 first start rfl initially
      obtain ⟨final, ran, atEnd⟩ :=
        inductionHypothesis (motive := fun index => motive (index + 1))
          (fun index element accumulator found =>
            preserved (index + 1) element accumulator found)
          holds
      refine ⟨final, ?_, atEnd⟩
      rw [List.foldlM_cons, stepped]
      exact ran

/-! ## Writing a pixel and a block -/

section Write

variable {width height : Nat}

/-- `WriteRgbPixel` changes the pixel it names and no other. -/
theorem writeRgbPixel_pixel
    {dst : Destination}
    (enough : width * height * 3 ≤ dst.capacity)
    (x y : Nat) (rgb : Int × Int × Int) :
    ∃ next,
      writeRgbPixel width height x y rgb dst = some next ∧
        next.capacity = dst.capacity ∧
        ∀ x' y', x' < width → y' < height →
          next.pixel width x' y' =
            if x' = x ∧ y' = y then colour rgb else dst.pixel width x' y' := by
  by_cases outside : width ≤ x ∨ height ≤ y
  · refine ⟨dst, if_pos outside, rfl, fun x' y' inRow inColumn => ?_⟩
    rw [if_neg]
    rintro ⟨rfl, rfl⟩
    rcases outside with right | below
    · exact Nat.not_le_of_lt inRow right
    · exact Nat.not_le_of_lt inColumn below
  · obtain ⟨inRow, inColumn⟩ : x < width ∧ y < height := by omega
    have inside := raster_lt inRow inColumn
    have fits : ¬ dst.capacity ≤ (y * width + x) * 3 + 2 := by omega
    refine ⟨_, (if_neg outside).trans (if_neg fits), rfl, ?_⟩
    intro x' y' inRow' inColumn'
    by_cases same : x' = x ∧ y' = y
    · obtain ⟨rfl, rfl⟩ := same
      simp [Destination.pixel, colour]
    · have apart : y' * width + x' ≠ y * width + x := fun equal =>
        same (raster_injective inRow' inRow equal)
      rw [if_neg same]
      simp only [Destination.pixel, Prod.mk.injEq]
      refine ⟨?_, ?_, ?_⟩
      · rw [if_neg (by omega), if_neg (by omega), if_neg (by omega)]
      · rw [if_neg (by omega), if_neg (by omega), if_neg (by omega)]
      · rw [if_neg (by omega), if_neg (by omega), if_neg (by omega)]

/-- A width has at least one block. -/
theorem xBlocks_pos
    (positive : 0 < width) :
    0 < xBlocks width := by
  unfold xBlocks
  split <;> omega

/-- The blocks of a row cover it. -/
theorem column_lt_xBlocks
    {x : Nat}
    (inRow : x < width) :
    x / 8 < xBlocks width := by
  unfold xBlocks
  split <;> omega

/-- The number of the block of a pixel. -/
def blockOf (width x y : Nat) : Nat := y / 8 * xBlocks width + x / 8

/-- A block number gives the column and the row of the block. -/
theorem blockOf_eq_iff
    {x y block : Nat}
    (inRow : x < width) :
    blockOf width x y = block ↔
      x / 8 = block % xBlocks width ∧ y / 8 = block / xBlocks width := by
  have positive : 0 < xBlocks width := Nat.zero_lt_of_lt
    (column_lt_xBlocks inRow)
  constructor
  · intro same
    have split : y / 8 * xBlocks width + x / 8 =
        block / xBlocks width * xBlocks width + block % xBlocks width := by
      rw [Nat.div_add_mod']
      exact same
    exact raster_injective (column_lt_xBlocks inRow)
      (Nat.mod_lt block positive) split
  · rintro ⟨column, row⟩
    rw [blockOf, column, row, Nat.div_add_mod']

/-- A loop that writes the samples of a block in turn paints the block. -/
theorem blockLoop_pixel
    (width height : Nat)
    {State : Type}
    (pixel : State → Nat → Nat → Byte × Byte × Byte)
    (kept : State → Prop)
    (body : State → Nat → Option State)
    (blockNum : Nat)
    (colours : Nat → Byte × Byte × Byte)
    (writes :
      ∀ i state, i < 64 → kept state →
        ∃ next, body state i = some next ∧ kept next ∧
          ∀ x' y', x' < width → y' < height →
            pixel next x' y' =
              if x' = blockNum % xBlocks width * 8 + i % 8 ∧
                  y' = blockNum / xBlocks width * 8 + i / 8 then
                colours i
              else pixel state x' y')
    {start : State}
    (initially : kept start) :
    ∃ final, (List.range 64).foldlM body start = some final ∧ kept final ∧
      ∀ x' y', x' < width → y' < height →
        pixel final x' y' =
          if blockOf width x' y' = blockNum then
            colours (y' % 8 * 8 + x' % 8)
          else pixel start x' y' := by
  -- After `count` samples the first `count` pixels of the block are written.
  obtain ⟨final, reached, holds, shown⟩ :=
    foldlM_invariant body (List.range 64)
      (motive := fun count state =>
        kept state ∧
          ∀ x' y', x' < width → y' < height →
            pixel state x' y' =
              if blockOf width x' y' = blockNum ∧
                  y' % 8 * 8 + x' % 8 < count then
                colours (y' % 8 * 8 + x' % 8)
              else pixel start x' y')
      (fun count i before counted known => by
        obtain ⟨small, rfl⟩ : count < 64 ∧ count = i := by
          simpa [List.getElem?_eq_some_iff] using counted
        obtain ⟨holds, shown⟩ := known
        obtain ⟨next, wrote, holdsNext, pixels⟩ :=
          writes count before small holds
        refine ⟨next, wrote, holdsNext, ?_⟩
        intro x' y' inRow inColumn
        rw [pixels x' y' inRow inColumn, shown x' y' inRow inColumn]
        by_cases inBlock : blockOf width x' y' = blockNum
        · obtain ⟨column, row⟩ := (blockOf_eq_iff inRow).mp inBlock
          by_cases here : y' % 8 * 8 + x' % 8 = count
          · rw [if_pos (by omega), if_pos ⟨inBlock, by omega⟩, here]
          · rw [if_neg (by omega)]
            by_cases earlier : y' % 8 * 8 + x' % 8 < count
            · rw [if_pos ⟨inBlock, earlier⟩, if_pos ⟨inBlock, by omega⟩]
            · rw [if_neg (by omega), if_neg (by omega)]
        · have elsewhere :
              ¬ (x' = blockNum % xBlocks width * 8 + count % 8 ∧
                y' = blockNum / xBlocks width * 8 + count / 8) := by
            rintro ⟨column, row⟩
            apply inBlock
            rw [blockOf_eq_iff inRow]
            omega
          rw [if_neg elsewhere, if_neg (fun both => inBlock both.1),
            if_neg (fun both => inBlock both.1)])
      (show kept start ∧ _ from ⟨initially, by simp⟩)
  refine ⟨final, reached, holds, fun x' y' inRow inColumn => ?_⟩
  have last : y' % 8 * 8 + x' % 8 < (List.range 64).length := by
    rw [List.length_range]
    omega
  rw [shown x' y' inRow inColumn]
  simp only [last, and_true]

/-- `ConvertBlock` changes the pixels of its block and no other. -/
theorem convertBlock_pixel
    {dst : Destination}
    (conversion : RgbConversion) (mode : ImageMode)
    (enough : width * height * 3 ≤ dst.capacity)
    (blockNum : Nat) (y cb cr : Nat → Int) :
    ∃ next,
      convertBlock conversion mode width height blockNum y cb cr dst =
          some next ∧
        next.capacity = dst.capacity ∧
        ∀ x' y', x' < width → y' < height →
          next.pixel width x' y' =
            if blockOf width x' y' = blockNum then
              colour
                (channels conversion mode (y (y' % 8 * 8 + x' % 8))
                  (cb (y' % 8 * 8 + x' % 8)) (cr (y' % 8 * 8 + x' % 8)))
            else dst.pixel width x' y' := by
  unfold convertBlock
  exact blockLoop_pixel width height (Destination.pixel · width)
    (fun next => next.capacity = dst.capacity) _ blockNum
    (fun i => colour (channels conversion mode (y i) (cb i) (cr i)))
    (fun i before _ kept => by
      obtain ⟨next, wrote, capacity, pixels⟩ :=
        writeRgbPixel_pixel (kept ▸ enough)
          (blockNum % xBlocks width * 8 + i % 8)
          (blockNum / xBlocks width * 8 + i / 8)
          (channels conversion mode (y i) (cb i) (cr i))
      exact ⟨next, wrote, capacity.trans kept, pixels⟩)
    rfl

end Write

/-! ## Placing an MCU -/

section Place

variable {conversion : RgbConversion} {width height : Nat}
variable {mcus : List McuOutput}

/-- The colour that one luma block of an MCU has for a pixel. -/
def quarterColour (conversion : RgbConversion) (mcu : McuOutput)
    (block x y : Nat) : Byte × Byte × Byte :=
  let i := y % 8 * 8 + x % 8
  colour
    (conversion.toRgb (mcu.yDctOut (block * 64 + i))
      (mcu.cbDctOut (subIdx block i)) (mcu.crDctOut (subIdx block i)))

/-- The luma block of an MCU that covers a pixel has its colour. -/
theorem quarterColour_eq (mcu : McuOutput) (x y : Nat) :
    quarterColour conversion mcu (2 * (y % 16 / 8) + x % 16 / 8) x y =
      pixelOf conversion mcu x y := by
  have chroma :
      subIdx (2 * (y % 16 / 8) + x % 16 / 8) (y % 8 * 8 + x % 8) =
        y % 16 / 2 * 8 + x % 16 / 2 := by
    rcases Nat.lt_or_ge (y % 16) 8 with upper | lower
    · rcases Nat.lt_or_ge (x % 16) 8 with left | right
      · rw [Nat.div_eq_of_lt upper, Nat.div_eq_of_lt left]
        simp only [subIdx]
        omega
      · rw [Nat.div_eq_of_lt upper, show x % 16 / 8 = 1 by omega]
        simp only [subIdx]
        omega
    · rcases Nat.lt_or_ge (x % 16) 8 with left | right
      · rw [show y % 16 / 8 = 1 by omega, Nat.div_eq_of_lt left]
        simp only [subIdx]
        omega
      · rw [show y % 16 / 8 = 1 by omega, show x % 16 / 8 = 1 by omega]
        simp only [subIdx]
        omega
  simp only [quarterColour, pixelOf, chroma]

/-- A 4:2:0 MCU paints four blocks, the later ones over the earlier ones. -/
theorem outputMcu_pixel
    (conversion : RgbConversion)
    (s : ImageOutput)
    (mcu : McuOutput)
    (enough : width * height * 3 ≤ s.dst.capacity) :
    ∃ next,
      outputMcu conversion .ycbcr420 width height s mcu = some next ∧
        next.dst.capacity = s.dst.capacity ∧
        (next.blockNum, next.loop) =
          nextPosition width s.blockNum s.loop ∧
        ∀ x y, x < width → y < height →
          next.dst.pixel width x y =
            if blockOf width x y =
                s.blockNum / 2 + xBlocks width + 1 then
              quarterColour conversion mcu 3 x y
            else if blockOf width x y = s.blockNum / 2 + xBlocks width then
              quarterColour conversion mcu 2 x y
            else if blockOf width x y = s.blockNum / 2 + 1 then
              quarterColour conversion mcu 1 x y
            else if blockOf width x y = s.blockNum / 2 then
              quarterColour conversion mcu 0 x y
            else s.dst.pixel width x y := by
  obtain ⟨first, wroteFirst, keptFirst, pixelsFirst⟩ :=
    convertBlock_pixel conversion .ycbcr420 enough (s.blockNum / 2)
      (fun i => mcu.yDctOut (0 * 64 + i))
      (fun i => mcu.cbDctOut (subIdx 0 i))
      (fun i => mcu.crDctOut (subIdx 0 i))
  obtain ⟨second, wroteSecond, keptSecond, pixelsSecond⟩ :=
    convertBlock_pixel conversion .ycbcr420 (keptFirst ▸ enough)
      (s.blockNum / 2 + 1)
      (fun i => mcu.yDctOut (1 * 64 + i))
      (fun i => mcu.cbDctOut (subIdx 1 i))
      (fun i => mcu.crDctOut (subIdx 1 i))
  have stillSecond := keptSecond.trans keptFirst
  obtain ⟨third, wroteThird, keptThird, pixelsThird⟩ :=
    convertBlock_pixel conversion .ycbcr420 (stillSecond ▸ enough)
      (s.blockNum / 2 + xBlocks width)
      (fun i => mcu.yDctOut (2 * 64 + i))
      (fun i => mcu.cbDctOut (subIdx 2 i))
      (fun i => mcu.crDctOut (subIdx 2 i))
  have stillThird := keptThird.trans stillSecond
  obtain ⟨fourth, wroteFourth, keptFourth, pixelsFourth⟩ :=
    convertBlock_pixel conversion .ycbcr420 (stillThird ▸ enough)
      (s.blockNum / 2 + xBlocks width + 1)
      (fun i => mcu.yDctOut (3 * 64 + i))
      (fun i => mcu.cbDctOut (subIdx 3 i))
      (fun i => mcu.crDctOut (subIdx 3 i))
  refine ⟨⟨fourth, (nextPosition width s.blockNum s.loop).1,
    (nextPosition width s.blockNum s.loop).2⟩, ?_,
    keptFourth.trans stillThird, rfl, fun x y inRow inColumn => ?_⟩
  · simp only [outputMcu, convertQuarter, wroteFirst, wroteSecond,
      wroteThird, wroteFourth, Option.bind_eq_bind, Option.bind_some]
  · rw [pixelsFourth x y inRow inColumn, pixelsThird x y inRow inColumn,
      pixelsSecond x y inRow inColumn, pixelsFirst x y inRow inColumn]
    rfl

/-! ### Widths of one or an even number of blocks -/

/-- The blocks of a row are one block or pairs of blocks. -/
def PairedBlocks (width : Nat) : Prop :=
  xBlocks width = 1 ∨ xBlocks width % 2 = 0

instance (width : Nat) : Decidable (PairedBlocks width) := by
  unfold PairedBlocks
  infer_instance

/-- The MCUs of a row in blocks. -/
theorem units_sixteen (width : Nat) :
    units width 16 = (xBlocks width + 1) / 2 := by
  unfold units xBlocks
  split <;> omega

/-- The output after a number of MCUs. -/
structure OutputSoFar (conversion : RgbConversion) (width height : Nat)
    (mcus : List McuOutput) (count : Nat) (s : ImageOutput) : Prop where
  enough : width * height * 3 ≤ s.dst.capacity
  blockNum :
    s.blockNum =
      4 * (count / units width 16 * xBlocks width +
        count % units width 16)
  loop : xBlocks width ≠ 1 → s.loop = count % units width 16
  shown :
    ∀ x y, x < width → y < height →
      y / 16 * units width 16 + x / 16 < count →
        ∃ mcu ∈ mcus[y / 16 * units width 16 + x / 16]?,
          s.dst.pixel width x y = pixelOf conversion mcu x y

/-- The position of the next MCU. -/
theorem OutputSoFar.position
    {count : Nat} {s : ImageOutput}
    (known : OutputSoFar conversion width height mcus count s)
    (positive : 0 < width)
    (paired : PairedBlocks width) :
    (nextPosition width s.blockNum s.loop).1 =
        4 * ((count + 1) / units width 16 * xBlocks width +
          (count + 1) % units width 16) ∧
      (xBlocks width ≠ 1 →
        (nextPosition width s.blockNum s.loop).2 =
          (count + 1) % units width 16) := by
  have columns := units_sixteen width
  have hasColumns := xBlocks_pos positive
  rcases paired with one | even
  · have single : units width 16 = 1 := by omega
    have never : s.loop + 1 ≠ xBlocks width / 2 := by omega
    refine ⟨?_, fun more => absurd one more⟩
    rw [nextPosition, if_neg never, known.blockNum, single, one]
    omega
  · have half : units width 16 = xBlocks width / 2 := by omega
    have whole : xBlocks width = 2 * units width 16 := by omega
    have several : xBlocks width ≠ 1 := by omega
    have loop := known.loop several
    have columnsPositive : 0 < units width 16 := by omega
    by_cases last : count % units width 16 + 1 = units width 16
    · have turn : s.loop + 1 = xBlocks width / 2 := by omega
      obtain ⟨row, column⟩ := count_wrap columnsPositive last
      rw [nextPosition, if_pos turn, row, column, known.blockNum,
        Nat.add_one_mul (count / units width 16)]
      refine ⟨?_, fun _ => rfl⟩
      dsimp only
      omega
    · have within : count % units width 16 + 1 < units width 16 :=
        Nat.lt_of_le_of_ne
          (Nat.succ_le_of_lt (Nat.mod_lt count columnsPositive)) last
      have inRow : s.loop + 1 ≠ xBlocks width / 2 := by omega
      obtain ⟨row, column⟩ := count_within within
      rw [nextPosition, if_neg inRow, row, column, known.blockNum]
      refine ⟨?_, fun _ => ?_⟩
      · dsimp only
        omega
      · dsimp only
        omega

/-- A pixel that an earlier MCU covers is not painted again. -/
theorem blockOf_earlier
    {count x y : Nat}
    (paired : PairedBlocks width)
    (inRow : x < width)
    (earlier : y / 16 * units width 16 + x / 16 < count) :
    blockOf width x y ≠
        2 * (count / units width 16 * xBlocks width +
          count % units width 16) ∧
      blockOf width x y ≠
        2 * (count / units width 16 * xBlocks width +
          count % units width 16) + 1 ∧
      blockOf width x y ≠
        2 * (count / units width 16 * xBlocks width +
          count % units width 16) + xBlocks width ∧
      blockOf width x y ≠
        2 * (count / units width 16 * xBlocks width +
          count % units width 16) + xBlocks width + 1 := by
  have columns := units_sixteen width
  have column := column_lt_xBlocks inRow
  have positive : 0 < units width 16 := by omega
  have split := Nat.div_add_mod' count (units width 16)
  have remainder := Nat.mod_lt count positive
  generalize count / units width 16 = row at split ⊢
  generalize count % units width 16 = place at split remainder ⊢
  have notBelow : y / 16 ≤ row := by
    by_contra below
    have rows : (row + 1) * units width 16 ≤ y / 16 * units width 16 :=
      Nat.mul_le_mul_right _ (Nat.lt_of_not_le below)
    rw [Nat.add_one_mul] at rows
    omega
  rcases Nat.lt_or_eq_of_le notBelow with above | level
  · have rows : (y / 8 + 1) * xBlocks width ≤ 2 * row * xBlocks width :=
      Nat.mul_le_mul_right _ (by omega)
    rw [Nat.add_one_mul, Nat.mul_assoc] at rows
    rw [blockOf]
    omega
  · have left : x / 16 < place := by
      rw [level] at earlier
      omega
    rcases Nat.mod_two_eq_zero_or_one (y / 8) with upper | lower
    · rw [blockOf, show y / 8 = 2 * row by omega, Nat.mul_assoc]
      omega
    · rw [blockOf, show y / 8 = 2 * row + 1 by omega, Nat.add_one_mul,
        Nat.mul_assoc]
      rcases paired with one | even
      · omega
      · omega

/-- The MCU that covers a pixel paints it with its colour. -/
theorem blockOf_covered
    {count x y : Nat}
    (inRow : x < width)
    (covers : y / 16 * units width 16 + x / 16 = count) :
    blockOf width x y =
      2 * (count / units width 16 * xBlocks width +
          count % units width 16) +
        (y % 16 / 8 * xBlocks width + x % 16 / 8) := by
  have columns := units_sixteen width
  have column := column_lt_xBlocks inRow
  have inColumns : x / 16 < units width 16 := by omega
  have place : count / units width 16 = y / 16 ∧
      count % units width 16 = x / 16 := by
    rw [← covers, Nat.mul_comm]
    exact ⟨by rw [Nat.mul_add_div (by omega), Nat.div_eq_of_lt inColumns,
      Nat.add_zero], by rw [Nat.mul_add_mod, Nat.mod_eq_of_lt inColumns]⟩
  rw [place.1, place.2, blockOf]
  rcases Nat.lt_or_ge (y % 16) 8 with upper | lower
  · rw [Nat.div_eq_of_lt upper, show y / 8 = 2 * (y / 16) by omega,
      Nat.mul_assoc]
    omega
  · rw [show y % 16 / 8 = 1 by omega,
      show y / 8 = 2 * (y / 16) + 1 by omega, Nat.add_one_mul,
      Nat.mul_assoc]
    omega

/-- One more MCU. -/
theorem OutputSoFar.next
    {count : Nat} {s : ImageOutput} {mcu : McuOutput}
    (known : OutputSoFar conversion width height mcus count s)
    (positive : 0 < width)
    (paired : PairedBlocks width)
    (present : mcus[count]? = some mcu) :
    ∃ next,
      outputMcu conversion .ycbcr420 width height s mcu = some next ∧
        OutputSoFar conversion width height mcus (count + 1) next := by
  obtain ⟨next, wrote, capacity, moved, pixels⟩ :=
    outputMcu_pixel conversion s mcu known.enough
  obtain ⟨blockNum, loop⟩ := known.position positive paired
  rw [← moved] at blockNum loop
  refine ⟨next, wrote, capacity ▸ known.enough, blockNum, loop, ?_⟩
  intro x y inRow inColumn begun
  have first : s.blockNum / 2 =
      2 * (count / units width 16 * xBlocks width +
        count % units width 16) := by
    rw [known.blockNum]
    omega
  rw [pixels x y inRow inColumn, first]
  rcases Nat.lt_or_eq_of_le (Nat.le_of_lt_succ begun) with earlier | covers
  · obtain ⟨notFirst, notSecond, notThird, notFourth⟩ :=
      blockOf_earlier paired inRow earlier
    rw [if_neg notFourth, if_neg notThird, if_neg notSecond,
      if_neg notFirst]
    exact known.shown x y inRow inColumn earlier
  · have block := blockOf_covered inRow covers
    refine ⟨mcu, by rw [covers, present]; rfl, ?_⟩
    have inBlocks := column_lt_xBlocks inRow
    rw [block, ← quarterColour_eq]
    rcases Nat.lt_or_ge (y % 16) 8 with upper | lower
    · rw [Nat.div_eq_of_lt upper, Nat.zero_mul]
      rcases Nat.lt_or_ge (x % 16) 8 with left | right
      · rw [Nat.div_eq_of_lt left, if_neg (by omega), if_neg (by omega),
          if_neg (by omega), if_pos (by omega)]
      · have several : 2 ≤ xBlocks width := by omega
        have even := paired.resolve_left (by omega)
        rw [show x % 16 / 8 = 1 by omega, if_neg (by omega)]
        rw [if_neg (by omega), if_pos (by omega)]
    · rw [show y % 16 / 8 = 1 by omega, Nat.one_mul]
      rcases Nat.lt_or_ge (x % 16) 8 with left | right
      · rw [Nat.div_eq_of_lt left, if_neg (by omega), if_pos (by omega)]
      · rw [show x % 16 / 8 = 1 by omega, if_pos (by omega)]

/-- Nothing has been placed before the first MCU. -/
theorem outputSoFar_zero
    (conversion : RgbConversion)
    (mcus : List McuOutput)
    {dst : Destination}
    (enough : width * height * 3 ≤ dst.capacity) :
    OutputSoFar conversion width height mcus 0
      { dst := dst, blockNum := 0, loop := 0 } where
  enough := enough
  blockNum := by simp
  loop := by simp
  shown := fun _ _ _ _ early => absurd early (Nat.not_lt_zero _)

/-- Every MCU of a scan is placed. -/
theorem placesPixels_of_paired
    (conversion : RgbConversion)
    (height : Nat)
    (positive : 0 < width)
    (paired : PairedBlocks width) :
    PlacesPixels conversion width height := by
  intro dst mcus enough whole
  obtain ⟨final, ran, known⟩ :=
    foldlM_invariant
      (outputMcu conversion .ycbcr420 width height) mcus
      (motive := OutputSoFar conversion width height mcus)
      (fun _ _ _ present known => known.next positive paired present)
      (outputSoFar_zero conversion mcus enough)
  refine ⟨final, ran, fun x y inRow inColumn => ?_⟩
  refine known.shown x y inRow inColumn ?_
  rw [whole]
  refine raster_lt ?_ ?_
  · rw [units]
    omega
  · rw [units]
    omega

/-! ### Widths of an odd number of blocks -/

/-- The last block of a row begins inside the row. -/
theorem corner_lt
    (several : 1 < xBlocks width) :
    (xBlocks width - 1) * 8 < width := by
  unfold xBlocks at several ⊢
  split at several
  · rw [if_pos ‹_›]
    omega
  · rw [if_neg ‹_›]
    omega

/-- While the last block of the first row has not been painted. -/
structure CornerSkipped (width height : Nat)
    (untouched : Byte × Byte × Byte) (count : Nat) (s : ImageOutput) :
    Prop where
  enough : width * height * 3 ≤ s.dst.capacity
  kept : s.dst.pixel width ((xBlocks width - 1) * 8) 0 = untouched
  early :
    count < xBlocks width / 2 → s.blockNum = 4 * count ∧ s.loop = count
  late :
    xBlocks width / 2 ≤ count → 4 * xBlocks width ≤ s.blockNum + 2

/-- Before the first MCU nothing has been painted. -/
theorem cornerSkipped_zero
    {untouched : Byte × Byte × Byte}
    (dst : Destination)
    (several : 1 < xBlocks width)
    (enough : width * height * 3 ≤ dst.capacity)
    (kept : dst.pixel width ((xBlocks width - 1) * 8) 0 = untouched) :
    CornerSkipped width height untouched 0
      { dst := dst, blockNum := 0, loop := 0 } where
  enough := enough
  kept := kept
  early := fun _ => ⟨rfl, rfl⟩
  late := fun none => by omega

/-- No MCU paints the last block of the first row. -/
theorem CornerSkipped.next
    {untouched : Byte × Byte × Byte} {count : Nat} {s : ImageOutput}
    (known : CornerSkipped width height untouched count s)
    (conversion : RgbConversion)
    (mcu : McuOutput)
    (heightPositive : 0 < height)
    (unpaired : ¬ PairedBlocks width) :
    ∃ next,
      outputMcu conversion .ycbcr420 width height s mcu = some next ∧
        CornerSkipped width height untouched (count + 1) next := by
  obtain ⟨several, odd⟩ : xBlocks width ≠ 1 ∧ xBlocks width % 2 = 1 := by
    simp only [PairedBlocks, not_or] at unpaired
    omega
  obtain ⟨next, wrote, capacity, moved, pixels⟩ :=
    outputMcu_pixel conversion s mcu known.enough
  have blockNum : next.blockNum =
      (nextPosition width s.blockNum s.loop).1 := congrArg Prod.fst moved
  have loop : next.loop =
      (nextPosition width s.blockNum s.loop).2 := congrArg Prod.snd moved
  have more : 1 < xBlocks width := by omega
  have inRow := corner_lt more
  have corner : blockOf width ((xBlocks width - 1) * 8) 0 =
      xBlocks width - 1 := by
    rw [blockOf]
    omega
  have painted := pixels ((xBlocks width - 1) * 8) 0 inRow heightPositive
  rw [corner] at painted
  refine ⟨next, wrote, capacity ▸ known.enough, ?_, ?_, ?_⟩
  · rw [painted, ← known.kept]
    rcases Nat.lt_or_ge count (xBlocks width / 2) with early | late
    · have place := (known.early early).1
      rw [if_neg (by omega), if_neg (by omega), if_neg (by omega),
        if_neg (by omega)]
    · have place := known.late late
      rw [if_neg (by omega), if_neg (by omega), if_neg (by omega),
        if_neg (by omega)]
  · intro early
    obtain ⟨place, turn⟩ := known.early (by omega)
    have within : s.loop + 1 ≠ xBlocks width / 2 := by omega
    rw [nextPosition, if_neg within] at blockNum loop
    exact ⟨by rw [blockNum, place, Nat.mul_succ], by rw [loop, turn]⟩
  · intro late
    rcases Nat.lt_or_ge count (xBlocks width / 2) with early | before
    · obtain ⟨place, turn⟩ := known.early early
      rw [nextPosition, if_pos (by omega)] at blockNum
      dsimp only at blockNum
      omega
    · have place := known.late before
      have grows : s.blockNum ≤ next.blockNum := by
        rw [blockNum, nextPosition]
        split
        · dsimp only
          omega
        · dsimp only
          omega
      omega

/-- An MCU of white samples. -/
def whiteMcu : McuOutput where
  yDctOut := fun _ => 127
  cbDctOut := fun _ => 0
  crDctOut := fun _ => 0

/-- An image with an odd number of blocks in a row is not placed. -/
theorem paired_of_placesPixels
    (conversion : RgbConversion)
    (positive : 0 < width)
    (heightPositive : 0 < height)
    (places : PlacesPixels conversion width height) :
    PairedBlocks width := by
  by_contra unpaired
  let black : Destination := ⟨fun _ => 0, width * height * 3⟩
  have several : 1 < xBlocks width := by
    have hasColumns := xBlocks_pos positive
    simp only [PairedBlocks, not_or] at unpaired
    omega
  obtain ⟨final, ran, skipped⟩ :=
    foldlM_invariant
      (outputMcu conversion .ycbcr420 width height)
      (List.replicate (units width 16 * units height 16) whiteMcu)
      (motive := CornerSkipped width height (0, 0, 0))
      (fun _ mcu _ _ known =>
        known.next conversion mcu heightPositive unpaired)
      (cornerSkipped_zero black several (Nat.le_refl _) rfl)
  obtain ⟨shown, sameRun, holds⟩ :=
    places black
      (List.replicate (units width 16 * units height 16) whiteMcu)
      (Nat.le_refl _) List.length_replicate
  have same : shown = final :=
    Option.some.inj (sameRun.symm.trans ran)
  have inRow := corner_lt several
  obtain ⟨mcu, found, white⟩ :=
    holds ((xBlocks width - 1) * 8) 0 inRow heightPositive
  have isWhite : mcu = whiteMcu :=
    (List.mem_replicate.mp (List.mem_of_getElem? found)).2
  rw [same, skipped.kept, isWhite, pixelOf] at white
  simp only [whiteMcu] at white
  rw [conversion.grey 127 (by decide) (by decide)] at white
  exact absurd white (by decide)

end Place

/--
The software decoder gives every pixel of a 4:2:0 image the colour of the MCU
that covers it exactly if a row has one block or an even number of blocks.
-/
theorem placesPixels_iff
    (conversion : RgbConversion)
    (width height : BitVec 16)
    (widthPositive : 0 < width.toNat)
    (heightPositive : 0 < height.toNat) :
    PlacesPixels conversion width.toNat height.toNat ↔
      PairedBlocks width.toNat :=
  ⟨paired_of_placesPixels conversion widthPositive heightPositive,
    placesPixels_of_paired conversion height.toNat widthPositive⟩

/-- The sums of `ConvertBlock` without rounding, truncated towards zero. -/
def unroundedConversion : RgbConversion where
  toRgb luma cb cr :=
    ((100000 * (128 + luma) + 140200 * cr).tdiv 100000,
      (100000 * (128 + luma) - 34414 * cb - 71414 * cr).tdiv 100000,
      (100000 * (128 + luma) + 177200 * cb).tdiv 100000)
  grey := by
    intro luma _ _
    simp

/-- A row of one block is placed completely. -/
theorem placesPixels_single_block :
    PlacesPixels unroundedConversion 8 32 :=
  (placesPixels_iff unroundedConversion 8 32 (by decide) (by decide)).mpr
    (by decide)

/--
In a 4:2:0 image of three blocks the third block is never painted: the second
MCU of the row goes to the next row of blocks.
-/
theorem third_block_unpainted :
    ¬ PlacesPixels unroundedConversion 17 1 := by
  intro places
  obtain ⟨final, ran, holds⟩ :=
    places ⟨fun _ => 0, 51⟩ [whiteMcu, whiteMcu] (by decide) (by decide)
  have unpainted :
      (outputMcus unroundedConversion .ycbcr420 17 1 [whiteMcu, whiteMcu]
        ⟨fun _ => 0, 51⟩).map (fun s => s.dst.pixel 17 16 0) =
          some (0, 0, 0) := by
    decide +kernel
  rw [ran, Option.map_some, Option.some.injEq] at unpainted
  obtain ⟨mcu, found, white⟩ := holds 16 0 (by decide) (by decide)
  have isWhite : mcu = whiteMcu := (Option.some.inj found).symm
  rw [unpainted, isWhite] at white
  exact absurd white (by decide)

end CoreJpeg.Software
