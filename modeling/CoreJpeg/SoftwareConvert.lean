import CoreJpeg.OutputColour
import CoreJpeg.SoftwareOverflow

namespace CoreJpeg.Software

open JpegOutput

/-!
# One block in the C model and in the software decoder

`ConvertYUV2RGB` of the C model stores a block in three planes,
`ConvertBlock` of the software decoder in one buffer of RGB bytes.  The C model
computes the place of a pixel before it looks whether the pixel lies in the
image, and does not look at all in a monochrome image.  This module transcribes
both in the `int` they compute in and tells when they paint the same pixels.
-/

/-! ## `ConvertYUV2RGB` -/

/-- `m_output_r`, `m_output_g` and `m_output_b`. -/
structure Planes where
  r : Nat → Byte
  g : Nat → Byte
  b : Nat → Byte
  /-- The bytes of each, `m_height * m_width` when they are allocated. -/
  size : Nat

/-- `m_output_r[offset] = r`, and so on; outside the planes it is a fault. -/
def Planes.store (planes : Planes) (offset : Int)
    (bytes : Byte × Byte × Byte) : Option Planes :=
  if 0 ≤ offset ∧ offset < planes.size then
    some { planes with
      r := fun place =>
        if place = offset.toNat then bytes.1 else planes.r place
      g := fun place =>
        if place = offset.toNat then bytes.2.1 else planes.g place
      b := fun place =>
        if place = offset.toNat then bytes.2.2 else planes.b place }
  else none

/-- What the planes hold for a pixel. -/
def Planes.pixel (planes : Planes) (width x y : Nat) : Byte × Byte × Byte :=
  (planes.r (y * width + x), planes.g (y * width + x),
    planes.b (y * width + x))

/-- The sums of both converters, which are small for small samples. -/
structure IntConversion extends RgbConversion where
  bounded :
    ∀ luma cb cr, |luma| ≤ 2 ^ 20 → |cb| ≤ 2 ^ 20 → |cr| ≤ 2 ^ 20 →
      |(toRgb luma cb cr).1| ≤ 2 ^ 23 ∧ |(toRgb luma cb cr).2.1| ≤ 2 ^ 23 ∧
        |(toRgb luma cb cr).2.2| ≤ 2 ^ 23

/-- The three bytes that the C model makes of a colour. -/
def modelColour (rgb : Int × Int × Int) : Byte × Byte × Byte :=
  (modelByte rgb.1, modelByte rgb.2.1, modelByte rgb.2.2)

/-- One iteration of the loops of `ConvertYUV2RGB`. -/
def convertYuvPixel (conversion : RgbConversion) (mode : ImageMode)
    (width height : Nat) (xStart yStart : Int) (y cb cr : Nat → Int)
    (planes : Planes) (i : Nat) : Option Planes := do
  let column ← int32 (xStart + (i % 8 : Nat))
  let row ← int32 (yStart + (i / 8 : Nat))
  let offset ← int32 ((← int32 (row * width)) + column)
  let bytes := modelColour (channels conversion mode (y i) (cb i) (cr i))
  -- the monochrome loop stores without the test
  if mode = .monochrome ∨ column < width ∧ row < height then
    planes.store offset bytes
  else some planes

/-- `ConvertYUV2RGB`; `none` is a fault. -/
def convertYuv2Rgb (conversion : RgbConversion) (mode : ImageMode)
    (width height blockNum : Nat) (y cb cr : Nat → Int)
    (planes : Planes) : Option Planes :=
  if xBlocks width = 0 then none
  else do
    let xStart ← int32 ((blockNum % xBlocks width : Nat) * 8)
    let yStart ← int32 ((blockNum / xBlocks width : Nat) * 8)
    (List.range 64).foldlM
      (convertYuvPixel conversion mode width height xStart yStart y cb cr)
      planes

/-! ## `ConvertBlock` in `int` -/

/-- One iteration of the loop of `ConvertBlock`. -/
def convertBlockPixel (conversion : RgbConversion) (mode : ImageMode)
    (width height : Nat) (xStart yStart : Int) (y cb cr : Nat → Int)
    (dst : Destination) (i : Nat) : Option Destination := do
  let px ← int32 (xStart + (i % 8 : Nat))
  let py ← int32 (yStart + (i / 8 : Nat))
  writeRgbPixel width height px.toNat py.toNat
    (channels conversion mode (y i) (cb i) (cr i)) dst

/-- `ConvertBlock`; `none` is a fault or an error. -/
def convertBlock32 (conversion : RgbConversion) (mode : ImageMode)
    (width height blockNum : Nat) (y cb cr : Nat → Int)
    (dst : Destination) : Option Destination :=
  if xBlocks width = 0 then none
  else do
    let xStart ← int32 ((blockNum % xBlocks width : Nat) * 8)
    let yStart ← int32 ((blockNum / xBlocks width : Nat) * 8)
    (List.range 64).foldlM
      (convertBlockPixel conversion mode width height xStart yStart y cb cr)
      dst

/-! ## The property -/

/-- The samples of a block are below `2 ^ 20`. -/
def SamplesSmall (y cb cr : Nat → Int) : Prop :=
  ∀ i < 64, |y i| < 2 ^ 20 ∧ |cb i| < 2 ^ 20 ∧ |cr i| < 2 ^ 20

/-- The pixels of a block have its clamped colours, all others are as before. -/
def Paints (conversion : RgbConversion) (mode : ImageMode)
    (width height blockNum : Nat) (y cb cr : Nat → Int)
    (before after : Nat → Nat → Byte × Byte × Byte) : Prop :=
  ∀ column row, column < width → row < height →
    after column row =
      if blockOf width column row = blockNum then
        colour
          (channels conversion mode (y (row % 8 * 8 + column % 8))
            (cb (row % 8 * 8 + column % 8)) (cr (row % 8 * 8 + column % 8)))
      else before column row

/-- Whatever they find, both converters paint the block and nothing else. -/
def ConvertsAlike (conversion : RgbConversion) (mode : ImageMode)
    (width height blockNum : Nat) (y cb cr : Nat → Int) : Prop :=
  ∀ (planes : Planes) (dst : Destination),
    planes.size = width * height → width * height * 3 ≤ dst.capacity →
      ∃ planes' dst',
        convertYuv2Rgb conversion mode width height blockNum y cb cr planes =
            some planes' ∧
          convertBlock32 conversion mode width height blockNum y cb cr dst =
            some dst' ∧
          Paints conversion mode width height blockNum y cb cr
            (planes.pixel width) (planes'.pixel width) ∧
          Paints conversion mode width height blockNum y cb cr
            (dst.pixel width) (dst'.pixel width) ∧
          ∀ place, width * height * 3 ≤ place →
            dst'.bytes place = dst.bytes place

/--
The place of the last pixel of the block is an `int`, and a monochrome block
lies wholly inside the image.
-/
def BlockFits (mode : ImageMode) (width height blockNum : Nat) : Prop :=
  (blockNum / xBlocks width * 8 + 7) * width +
        (blockNum % xBlocks width * 8 + 7) < 2 ^ 31 ∧
    (mode = .monochrome →
      blockNum % xBlocks width * 8 + 8 ≤ width ∧
        blockNum / xBlocks width * 8 + 8 ≤ height)

/-! ## One pixel -/

section Pixel

variable {conversion : RgbConversion} {mode : ImageMode}
variable {width height blockNum i : Nat} {y cb cr : Nat → Int}
variable {planes : Planes}

/-- A colour stored for a pixel is shown there and nowhere else. -/
theorem Planes.store_pixel
    {column row : Nat}
    (sized : planes.size = width * height)
    (inRow : column < width)
    (inColumn : row < height)
    (bytes : Byte × Byte × Byte) :
    ∃ next,
      planes.store ((row * width + column : Nat) : Int) bytes = some next ∧
        next.size = planes.size ∧
        ∀ x' y', x' < width → y' < height →
          next.pixel width x' y' =
            if x' = column ∧ y' = row then bytes
            else planes.pixel width x' y' := by
  have inside := raster_lt inRow inColumn
  have held :
      0 ≤ ((row * width + column : Nat) : Int) ∧
        ((row * width + column : Nat) : Int) < planes.size := by
    omega
  refine ⟨_, if_pos held, rfl, fun x' y' inRow' _ => ?_⟩
  by_cases same : x' = column ∧ y' = row
  · obtain ⟨rfl, rfl⟩ := same
    simp only [Planes.pixel, Int.toNat_natCast, and_self, ↓reduceIte]
  · have apart : y' * width + x' ≠ row * width + column := fun equal =>
      same (raster_injective inRow' inRow equal)
    rw [if_neg same]
    simp only [Planes.pixel, Int.toNat_natCast, if_neg apart]

/-- The clamps of both programs agree on the sums of small samples. -/
theorem modelColour_eq
    {conversion : IntConversion}
    (small : SamplesSmall y cb cr)
    (inBlock : i < 64) :
    modelColour
        (channels conversion.toRgbConversion mode (y i) (cb i) (cr i)) =
      colour
        (channels conversion.toRgbConversion mode (y i) (cb i) (cr i)) := by
  obtain ⟨luma, blue, red⟩ := small i inBlock
  unfold channels
  split
  · have sum : |128 + y i| ≤ 2 ^ 23 := by
      rw [abs_lt] at luma
      rw [abs_le]
      omega
    simp only [modelColour, colour, modelByte_eq_clampByte sum]
  · obtain ⟨redSum, greenSum, blueSum⟩ :=
      conversion.bounded _ _ _ luma.le blue.le red.le
    simp only [modelColour, colour, modelByte_eq_clampByte redSum,
      modelByte_eq_clampByte greenSum, modelByte_eq_clampByte blueSum]

/-- The numbers of an iteration whose block has its places in `int`. -/
theorem place_fits
    {xStart yStart : Nat}
    (positive : 0 < width)
    (fits : (yStart + 7) * width + (xStart + 7) < 2 ^ 31)
    (inBlock : i < 64) :
    int32 ((xStart : Int) + (i % 8 : Nat)) =
        some ((xStart + i % 8 : Nat) : Int) ∧
      int32 ((yStart : Int) + (i / 8 : Nat)) =
        some ((yStart + i / 8 : Nat) : Int) ∧
      int32 (((yStart + i / 8 : Nat) : Int) * width) =
        some (((yStart + i / 8) * width : Nat) : Int) ∧
      int32 ((((yStart + i / 8) * width : Nat) : Int) +
          ((xStart + i % 8 : Nat) : Int)) =
        some (((yStart + i / 8) * width + (xStart + i % 8) : Nat) : Int) := by
  have rows : (yStart + i / 8) * width ≤ (yStart + 7) * width :=
    Nat.mul_le_mul_right width (by omega)
  have tall : yStart + i / 8 ≤ (yStart + i / 8) * width :=
    Nat.le_mul_of_pos_right _ positive
  have column : InInt32 ((xStart + i % 8 : Nat) : Int) :=
    ⟨by omega, by omega⟩
  have row : InInt32 ((yStart + i / 8 : Nat) : Int) := ⟨by omega, by omega⟩
  have line : InInt32 (((yStart + i / 8) * width : Nat) : Int) :=
    ⟨by omega, by omega⟩
  have place :
      InInt32 (((yStart + i / 8) * width + (xStart + i % 8) : Nat) : Int) :=
    ⟨by omega, by omega⟩
  rw [← Nat.cast_add, ← Nat.cast_add, ← Nat.cast_mul, ← Nat.cast_add]
  exact ⟨int32_of_inInt32 column, int32_of_inInt32 row, int32_of_inInt32 line,
    int32_of_inInt32 place⟩

/-- What an iteration of `ConvertYUV2RGB` does when its place is an `int`. -/
theorem convertYuvPixel_eq
    {xStart yStart : Nat}
    (positive : 0 < width)
    (fits : (yStart + 7) * width + (xStart + 7) < 2 ^ 31)
    (inBlock : i < 64) :
    convertYuvPixel conversion mode width height xStart yStart y cb cr
        planes i =
      if mode = .monochrome ∨
          xStart + i % 8 < width ∧ yStart + i / 8 < height then
        planes.store
          (((yStart + i / 8) * width + (xStart + i % 8) : Nat) : Int)
          (modelColour (channels conversion mode (y i) (cb i) (cr i)))
      else some planes := by
  obtain ⟨column, row, line, place⟩ := place_fits positive fits inBlock
  unfold convertYuvPixel
  simp only [column, row, line, place, Option.bind_eq_bind, Option.bind_some,
    Nat.cast_lt]

/-- What an iteration of `ConvertBlock` does when its place is an `int`. -/
theorem convertBlockPixel_eq
    {xStart yStart : Nat}
    {dst : Destination}
    (positive : 0 < width)
    (fits : (yStart + 7) * width + (xStart + 7) < 2 ^ 31)
    (inBlock : i < 64) :
    convertBlockPixel conversion mode width height xStart yStart y cb cr
        dst i =
      writeRgbPixel width height (xStart + i % 8) (yStart + i / 8)
        (channels conversion mode (y i) (cb i) (cr i)) dst := by
  obtain ⟨column, row, -, -⟩ := place_fits positive fits inBlock
  unfold convertBlockPixel
  simp only [column, row, Option.bind_eq_bind, Option.bind_some,
    Int.toNat_natCast]

/-- `WriteRgbPixel` leaves what lies behind the image. -/
theorem writeRgbPixel_behind
    {column row place : Nat}
    {rgb : Int × Int × Int}
    {dst next : Destination}
    (wrote : writeRgbPixel width height column row rgb dst = some next)
    (behind : width * height * 3 ≤ place) :
    next.bytes place = dst.bytes place := by
  rw [writeRgbPixel] at wrote
  split at wrote
  · rw [← Option.some.inj wrote]
  · rename_i inside
    have bound : row * width + column < width * height :=
      raster_lt (by omega) (by omega)
    simp only at wrote
    split at wrote
    · cases wrote
    · rw [← Option.some.inj wrote]
      simp only
      rw [if_neg (by omega), if_neg (by omega), if_neg (by omega)]

end Pixel

/-! ## One block -/

section Block

variable {conversion : RgbConversion} {mode : ImageMode}
variable {width height blockNum : Nat} {y cb cr : Nat → Int}

/-- The first pixel of a block whose last place is an `int`. -/
theorem start_fits
    (positive : 0 < width)
    (fits :
      (blockNum / xBlocks width * 8 + 7) * width +
        (blockNum % xBlocks width * 8 + 7) < 2 ^ 31) :
    int32 ((blockNum % xBlocks width : Nat) * 8) =
        some ((blockNum % xBlocks width * 8 : Nat) : Int) ∧
      int32 ((blockNum / xBlocks width : Nat) * 8) =
        some ((blockNum / xBlocks width * 8 : Nat) : Int) := by
  have tall :
      blockNum / xBlocks width * 8 + 7 ≤
        (blockNum / xBlocks width * 8 + 7) * width :=
    Nat.le_mul_of_pos_right _ positive
  have column : InInt32 ((blockNum % xBlocks width * 8 : Nat) : Int) :=
    ⟨by omega, by omega⟩
  have row : InInt32 ((blockNum / xBlocks width * 8 : Nat) : Int) :=
    ⟨by omega, by omega⟩
  rw [← int32_of_inInt32 column, ← int32_of_inInt32 row]
  push_cast
  exact ⟨rfl, rfl⟩

/-- `ConvertYUV2RGB` as a loop over the samples. -/
theorem convertYuv2Rgb_eq
    {planes : Planes}
    (positive : 0 < width)
    (fits :
      (blockNum / xBlocks width * 8 + 7) * width +
        (blockNum % xBlocks width * 8 + 7) < 2 ^ 31) :
    convertYuv2Rgb conversion mode width height blockNum y cb cr planes =
      (List.range 64).foldlM
        (convertYuvPixel conversion mode width height
          (blockNum % xBlocks width * 8 : Nat)
          (blockNum / xBlocks width * 8 : Nat) y cb cr)
        planes := by
  obtain ⟨column, row⟩ := start_fits positive fits
  rw [convertYuv2Rgb, if_neg (Nat.ne_of_gt (xBlocks_pos positive)), column,
    row]
  rfl

/-- `ConvertBlock` as a loop over the samples. -/
theorem convertBlock32_eq
    {dst : Destination}
    (positive : 0 < width)
    (fits :
      (blockNum / xBlocks width * 8 + 7) * width +
        (blockNum % xBlocks width * 8 + 7) < 2 ^ 31) :
    convertBlock32 conversion mode width height blockNum y cb cr dst =
      (List.range 64).foldlM
        (convertBlockPixel conversion mode width height
          (blockNum % xBlocks width * 8 : Nat)
          (blockNum / xBlocks width * 8 : Nat) y cb cr)
        dst := by
  obtain ⟨column, row⟩ := start_fits positive fits
  rw [convertBlock32, if_neg (Nat.ne_of_gt (xBlocks_pos positive)), column,
    row]
  rfl

/-- A block that fits is painted by the C model. -/
theorem convertYuv2Rgb_paints
    {conversion : IntConversion}
    {planes : Planes}
    (positive : 0 < width)
    (small : SamplesSmall y cb cr)
    (fits : BlockFits mode width height blockNum)
    (sized : planes.size = width * height) :
    ∃ planes',
      convertYuv2Rgb conversion.toRgbConversion mode width height blockNum y
          cb cr planes = some planes' ∧
        Paints conversion.toRgbConversion mode width height blockNum y cb cr
          (planes.pixel width) (planes'.pixel width) := by
  rw [convertYuv2Rgb_eq positive fits.1]
  obtain ⟨final, reached, -, shown⟩ :=
    blockLoop_pixel width height
      (Planes.pixel · width) (fun next => next.size = width * height)
      (convertYuvPixel conversion.toRgbConversion mode width height
        (blockNum % xBlocks width * 8 : Nat)
        (blockNum / xBlocks width * 8 : Nat) y cb cr)
      blockNum
      (fun i =>
        colour (channels conversion.toRgbConversion mode (y i) (cb i) (cr i)))
      (fun i before inBlock kept => by
        rw [convertYuvPixel_eq positive fits.1 inBlock,
          modelColour_eq small inBlock]
        by_cases inside :
            blockNum % xBlocks width * 8 + i % 8 < width ∧
              blockNum / xBlocks width * 8 + i / 8 < height
        · rw [if_pos (.inr inside)]
          obtain ⟨next, stored, same, shown⟩ :=
            Planes.store_pixel kept inside.1 inside.2 _
          exact ⟨next, stored, same.trans kept, shown⟩
        · have coloured : ¬mode = .monochrome := by
            intro grey
            have lies := fits.2 grey
            omega
          rw [if_neg (by simp [coloured, inside])]
          refine ⟨before, rfl, kept, fun x' y' inRow inColumn => ?_⟩
          rw [if_neg (by omega)])
      sized
  exact ⟨final, reached, shown⟩

/-- A block that fits is painted by the software decoder. -/
theorem convertBlock32_paints
    {dst : Destination}
    (positive : 0 < width)
    (fits : BlockFits mode width height blockNum)
    (enough : width * height * 3 ≤ dst.capacity) :
    ∃ dst',
      convertBlock32 conversion mode width height blockNum y cb cr dst =
          some dst' ∧
        Paints conversion mode width height blockNum y cb cr
          (dst.pixel width) (dst'.pixel width) ∧
        ∀ place, width * height * 3 ≤ place →
          dst'.bytes place = dst.bytes place := by
  rw [convertBlock32_eq positive fits.1]
  obtain ⟨final, reached, ⟨-, behind⟩, shown⟩ :=
    blockLoop_pixel width height
      (Destination.pixel · width)
      (fun next =>
        next.capacity = dst.capacity ∧
          ∀ place, width * height * 3 ≤ place →
            next.bytes place = dst.bytes place)
      (convertBlockPixel conversion mode width height
        (blockNum % xBlocks width * 8 : Nat)
        (blockNum / xBlocks width * 8 : Nat) y cb cr)
      blockNum
      (fun i => colour (channels conversion mode (y i) (cb i) (cr i)))
      (fun i before inBlock kept => by
        rw [convertBlockPixel_eq positive fits.1 inBlock]
        obtain ⟨next, wrote, capacity, pixels⟩ :=
          writeRgbPixel_pixel (kept.1 ▸ enough)
            (blockNum % xBlocks width * 8 + i % 8)
            (blockNum / xBlocks width * 8 + i / 8)
            (channels conversion mode (y i) (cb i) (cr i))
        refine ⟨next, wrote, ⟨capacity.trans kept.1, ?_⟩, pixels⟩
        intro place beyond
        rw [writeRgbPixel_behind wrote beyond, kept.2 place beyond])
      ⟨rfl, fun _ _ => rfl⟩
  exact ⟨final, reached, shown, behind⟩

/-- The last iteration of a loop that ends without a fault. -/
theorem foldlM_range_succ
    {State : Type}
    {body : State → Nat → Option State}
    {count : Nat}
    {start final : State}
    (ran : (List.range (count + 1)).foldlM body start = some final) :
    ∃ before, (List.range count).foldlM body start = some before ∧
      body before count = some final := by
  rw [List.range_succ, List.foldlM_append, Option.bind_eq_bind,
    Option.bind_eq_some_iff] at ran
  obtain ⟨before, reached, last⟩ := ran
  refine ⟨before, reached, ?_⟩
  simpa using last

/-- The numbers of an iteration that does not fault. -/
theorem convertYuvPixel_some
    {xStart yStart i : Nat}
    {planes next : Planes}
    (ran :
      convertYuvPixel conversion mode width height xStart yStart y cb cr
        planes i = some next) :
    (yStart + i / 8) * width + (xStart + i % 8) < 2 ^ 31 ∧
      next.size = planes.size := by
  unfold convertYuvPixel at ran
  simp only [Option.bind_eq_bind, Option.bind_eq_some_iff] at ran
  obtain ⟨column, isColumn, row, isRow, line, isLine, place, isPlace, stored⟩ :=
    ran
  obtain ⟨-, rfl⟩ := int32_eq_some isColumn
  obtain ⟨-, rfl⟩ := int32_eq_some isRow
  obtain ⟨-, rfl⟩ := int32_eq_some isLine
  obtain ⟨⟨-, bound⟩, -⟩ := int32_eq_some isPlace
  constructor
  · have small :
        (((yStart + i / 8) * width + (xStart + i % 8) : Nat) : Int) ≤
          2147483647 := by
      push_cast
      push_cast at bound
      exact bound
    omega
  · split at stored
    · rw [Planes.store] at stored
      split at stored
      · rw [← Option.some.inj stored]
      · cases stored
    · rw [Option.some.inj stored]

/-- The planes keep their size. -/
theorem convertYuvLoop_size
    {xStart yStart count : Nat}
    {planes final : Planes}
    (ran :
      (List.range count).foldlM
        (convertYuvPixel conversion mode width height xStart yStart y cb cr)
        planes = some final) :
    final.size = planes.size := by
  induction count generalizing final with
  | zero =>
      rw [Option.some.inj ran]
  | succ count inductionHypothesis =>
      obtain ⟨before, reached, last⟩ := foldlM_range_succ ran
      rw [(convertYuvPixel_some last).2, inductionHypothesis reached]

/-- The last iteration of `ConvertYUV2RGB` when it does not fault. -/
theorem convertYuv2Rgb_some
    {planes final : Planes}
    (ran :
      convertYuv2Rgb conversion mode width height blockNum y cb cr planes =
        some final) :
    ∃ before : Planes, before.size = planes.size ∧
      convertYuvPixel conversion mode width height
        (blockNum % xBlocks width * 8 : Nat)
        (blockNum / xBlocks width * 8 : Nat) y cb cr before 63 =
        some final := by
  rw [convertYuv2Rgb] at ran
  split at ran
  · cases ran
  · simp only [Option.bind_eq_bind, Option.bind_eq_some_iff] at ran
    obtain ⟨xStart, isColumn, yStart, isRow, loop⟩ := ran
    obtain ⟨-, rfl⟩ := int32_eq_some isColumn
    obtain ⟨-, rfl⟩ := int32_eq_some isRow
    obtain ⟨before, reached, last⟩ := foldlM_range_succ loop
    have start (blocks : Nat) : (blocks : Int) * 8 = (blocks * 8 : Nat) := by
      push_cast
      rfl
    rw [start, start] at reached last
    exact ⟨before, convertYuvLoop_size reached, last⟩

/-- A place below a block is a pixel of no row of the block. -/
theorem not_inBlock_of_below
    {column row : Nat}
    (inRow : column < width)
    (below : blockNum / xBlocks width * 8 + 8 ≤ row) :
    blockOf width column row ≠ blockNum := by
  intro inBlock
  have rows := ((blockOf_eq_iff inRow).mp inBlock).2
  omega

/-- Planes that hold one colour everywhere. -/
def Planes.uniform (size : Nat) (bytes : Byte × Byte × Byte) : Planes where
  r := fun _ => bytes.1
  g := fun _ => bytes.2.1
  b := fun _ => bytes.2.2
  size := size

/--
A monochrome block that is painted lies inside the image: otherwise its last
pixel goes below the image or below the block.
-/
theorem blockFits_of_paints
    {planes final : Planes}
    (positive : 0 < width)
    (grey : mode = .monochrome)
    (sized : planes.size = width * height)
    (ran :
      convertYuv2Rgb conversion mode width height blockNum y cb cr planes =
        some final)
    (paints :
      Paints conversion mode width height blockNum y cb cr
        (planes.pixel width) (final.pixel width))
    (differs :
      ∀ place, planes.r place ≠
        (modelColour (channels conversion mode (y 63) (cb 63) (cr 63))).1) :
    blockNum % xBlocks width * 8 + 8 ≤ width ∧
      blockNum / xBlocks width * 8 + 8 ≤ height := by
  obtain ⟨before, sameSize, last⟩ := convertYuv2Rgb_some ran
  have fits := (convertYuvPixel_some last).1
  rw [convertYuvPixel_eq positive fits (by decide), if_pos (.inl grey),
    Planes.store] at last
  generalize isPlace :
    (blockNum / xBlocks width * 8 + 63 / 8) * width +
      (blockNum % xBlocks width * 8 + 63 % 8) = place at last
  simp only [Nat.reduceDiv, Nat.reduceMod] at isPlace
  split at last
  · rename_i inside
    have bound : place < width * height := by omega
    have row : place / width < height := Nat.div_lt_of_lt_mul bound
    have column : place % width < width := Nat.mod_lt _ positive
    have rowLeast : blockNum / xBlocks width * 8 + 7 ≤ place / width := by
      rw [Nat.le_div_iff_mul_le positive]
      omega
    refine ⟨?_, by omega⟩
    by_contra beyond
    have below : blockNum / xBlocks width * 8 + 8 ≤ place / width := by
      rw [Nat.le_div_iff_mul_le positive, Nat.add_mul]
      have line : (blockNum / xBlocks width * 8 + 7) * width + width =
          blockNum / xBlocks width * 8 * width + 8 * width := by
        ring
      omega
    have shown := paints _ _ column row
    rw [if_neg (not_inBlock_of_below column below)] at shown
    have isPixel : place / width * width + place % width = place :=
      Nat.div_add_mod' place width
    have red := congrArg (·.1) shown
    simp only [Planes.pixel, isPixel, ← Option.some.inj last,
      Int.toNat_natCast, ↓reduceIte] at red
    exact differs place red.symm
  · cases last

/--
Both converters paint the same pixels, and nothing else, exactly when the
places of the block are `int`s and a monochrome block lies in the image.
-/
theorem convertsAlike_iff
    (conversion : IntConversion)
    (mode : ImageMode)
    {width height blockNum : Nat}
    (positive : 0 < width)
    {y cb cr : Nat → Int}
    (small : SamplesSmall y cb cr) :
    ConvertsAlike conversion.toRgbConversion mode width height blockNum y cb
        cr ↔
      BlockFits mode width height blockNum := by
  constructor
  · intro alike
    let bytes :=
      modelColour
        (channels conversion.toRgbConversion mode (y 63) (cb 63) (cr 63))
    obtain ⟨planes', dst', ran, -, paints, -, -⟩ :=
      alike (.uniform (width * height) (bytes.1 + 1, 0, 0))
        { bytes := fun _ => 0, capacity := width * height * 3 } rfl
        (Nat.le_refl _)
    obtain ⟨before, -, last⟩ := convertYuv2Rgb_some ran
    refine ⟨(convertYuvPixel_some last).1, fun grey => ?_⟩
    refine blockFits_of_paints positive grey rfl ran paints ?_
    intro place same
    have grows : bytes.1 + 1 = bytes.1 := same
    exact absurd grows (by simp)
  · intro fits planes dst sized enough
    obtain ⟨planes', ran, paints⟩ :=
      convertYuv2Rgb_paints positive small fits sized
    obtain ⟨dst', ran', paints', behind⟩ :=
      convertBlock32_paints positive fits enough
    exact ⟨planes', dst', ran, ran', paints, paints', behind⟩

/-- The sums of both converters over the rational numbers. -/
def exactIntConversion : IntConversion where
  toRgbConversion := exactConversion
  bounded := fun _ _ _ luma blue red => exactRgb_bounds luma blue red

theorem samplesSmall_zero :
    SamplesSmall (fun _ => 0) (fun _ => 0) (fun _ => 0) := by
  intro i _
  simp

/-- A ramp of samples stays small. -/
theorem samplesSmall_ramp :
    SamplesSmall (fun i => 3 * i - 96) (fun i => 64 - 2 * i) (fun i => i) := by
  intro i inBlock
  simp only [abs_lt]
  omega

/-- The sixth block of a colour image whose right block is cut. -/
theorem convertsAlike_iff_ramp :
    ConvertsAlike exactIntConversion.toRgbConversion .ycbcr444 21 16 5
        (fun i => 3 * i - 96) (fun i => 64 - 2 * i) (fun i => i) ∧
      BlockFits .ycbcr444 21 16 5 :=
  have fits : BlockFits .ycbcr444 21 16 5 := ⟨by decide, nofun⟩
  ⟨(convertsAlike_iff exactIntConversion .ycbcr444 (by decide)
    samplesSmall_ramp).mpr fits, fits⟩

/-- In a monochrome image of one pixel the second sample leaves the planes. -/
theorem convertYuv2Rgb_unclipped :
    ¬∀ (conversion : IntConversion) (mode : ImageMode)
        (width height blockNum : Nat) (y cb cr : Nat → Int),
      1 ≤ width ∧ width ≤ 65535 → 1 ≤ height ∧ height ≤ 65535 →
        blockNum < 2 ^ 31 → SamplesSmall y cb cr →
          ConvertsAlike conversion.toRgbConversion mode width height
            blockNum y cb cr := by
  intro claim
  have alike :=
    claim exactIntConversion .monochrome 1 1 0 (fun _ => 0) (fun _ => 0)
      (fun _ => 0) (by decide) (by decide) (by decide) samplesSmall_zero
  obtain ⟨planes', -, ran, -⟩ :=
    alike (.uniform 1 (0, 0, 0)) { bytes := fun _ => 0, capacity := 3 } rfl
      (by decide)
  have fault :
      (convertYuv2Rgb exactConversion .monochrome 1 1 0 (fun _ => 0)
        (fun _ => 0) (fun _ => 0) (.uniform 1 (0, 0, 0))).isNone = true := by
    decide +kernel
  have returns :
      (convertYuv2Rgb exactConversion .monochrome 1 1 0 (fun _ => 0)
        (fun _ => 0) (fun _ => 0) (.uniform 1 (0, 0, 0))) = some planes' :=
    ran
  rw [returns] at fault
  cases fault

end Block

end CoreJpeg.Software
