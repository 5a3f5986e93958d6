import CoreJpeg.McuPosition
import CoreJpeg.OutputStream
import CoreJpeg.TopModel

namespace CoreJpeg.JpegOutput

/-!
# The frame that the pixels make

`jpeg_output` presents whole blocks in the order of the scan.  The wrapper ends
the frame at the pixel with the largest coordinates of the image, while
`jpeg_top` waits for three bytes for each pixel of the image.  This module
compares the number of pixels up to the end of the frame with the number of
pixels of the image.
-/

open McuProc

/-! ## The blocks of an image in the order of the scan -/

/-- The luma blocks of an image. -/
def lumaCount (mode : ImageMode) (width height : BitVec 16) : Nat :=
  if mode = .ycbcr420 then
    4 * (units width.toNat 16 * units height.toNat 16)
  else units width.toNat 8 * units height.toNat 8

/-- The row and the column of a luma block of the scan. -/
def lumaPosition (mode : ImageMode) (width : BitVec 16) (block : Nat) :
    Nat × Nat :=
  if mode = .ycbcr420 then
    (2 * (block / 4 / units width.toNat 16) + block % 4 / 2,
      2 * (block / 4 % units width.toNat 16) + block % 4 % 2)
  else (block / units width.toNat 8, block % units width.toNat 8)

/-- The id of a luma block of the scan. -/
def lumaId (mode : ImageMode) (width : BitVec 16) (block : Nat) : BitVec 32 :=
  idOf .y (lumaPosition mode width block).1 (lumaPosition mode width block).2

/-- The ids of the luma blocks of an image. -/
def scanIds (mode : ImageMode) (width height : BitVec 16) :
    List (BitVec 32) :=
  (List.range (lumaCount mode width height)).map (lumaId mode width)

/-- The place of a sample of the image. -/
def framePlace (mode : ImageMode) (width : BitVec 16) (sample : Nat) :
    Place :=
  placeOf (lumaId mode width (sample / 64)) (sample % 64)

/-! ## The property -/

/-- The pixel is marked `core_out_last`. -/
def isLast (width height : BitVec 16) (place : Place) : Bool :=
  coreOutLast width height place.1 place.2

/-- The number of pixels up to the first one marked `core_out_last`. -/
def framePixels (width height : BitVec 16) (places : List Place) : Nat :=
  places.findIdx (isLast width height) + 1

/--
A pixel is marked, the pixels up to it are as many as those of the image, and
their bytes are those that `jpeg_top` waits for.
-/
structure ExactFrame (width height : BitVec 16) (places : List Place) :
    Prop where
  marked : ∃ place ∈ places, isLast width height place = true
  pixels : framePixels width height places = width.toNat * height.toNat
  bytes :
    3 * framePixels width height places =
      (JpegTop.imageBytes width height).toNat

/-- The bytes of an image are counted in 32 bits. -/
def BytesFit (width height : BitVec 16) : Prop :=
  3 * (width.toNat * height.toNat) < 2 ^ 32

/-- The pixels of an image end its frame. -/
def FillsBlocks (mode : ImageMode) (width height : BitVec 16) : Prop :=
  if mode = .ycbcr420 then
    (width.toNat % 16 = 0 ∧ height.toNat % 16 = 0) ∨
      (width.toNat = 16 ∧ height.toNat % 16 = 8) ∨
      (width.toNat ≤ 8 ∧ height.toNat ≤ 8 ∧
        (width.toNat = 8 ∨ height.toNat = 1))
  else
    (width.toNat % 8 = 0 ∨ height.toNat = 1) ∧
      (height.toNat % 8 = 0 ∨ width.toNat ≤ 8)

/-- The sides of an image are whole numbers of MCUs. -/
def WholeMcus (mode : ImageMode) (width height : BitVec 16) : Prop :=
  width.toNat % mcuSize mode = 0 ∧ height.toNat % mcuSize mode = 0

instance (mode : ImageMode) (width height : BitVec 16) :
    Decidable (FillsBlocks mode width height) := by
  unfold FillsBlocks
  infer_instance

instance (width height : BitVec 16) : Decidable (BytesFit width height) := by
  unfold BytesFit
  infer_instance

/-! ## The places of a scan -/

section Places

variable {mode : ImageMode} {width height : BitVec 16}

/-- The type of a luma block. -/
theorem typeOf_lumaId (block : Nat) :
    typeOf (lumaId mode width block) = BlockType.y.code :=
  code_of_id _ _ _

/-- The coordinates of a sample of a luma block inside 16 bits. -/
theorem placeOf_idOf
    {row column sample : Nat}
    (rowSmall : row < 8192)
    (columnSmall : column < 8192)
    (inBlock : sample < 64) :
    (placeOf (idOf .y row column) sample).1.toNat =
        8 * column + sample % 8 ∧
      (placeOf (idOf .y row column) sample).2.toNat =
        8 * row + sample / 8 := by
  have low : (idOf .y row column).extractLsb' 0 16 =
      BitVec.ofNat 16 column :=
    BitVec.extractLsb'_append_eq_right
  have middle : (idOf .y row column).extractLsb' 16 14 =
      BitVec.ofNat 14 row := by
    rw [idOf, BitVec.extractLsb'_append_eq_of_le (by decide)]
    exact BitVec.extractLsb'_append_eq_right
  constructor
  · simp only [placeOf, pixelX, low]
    simp [BitVec.toNat_add, BitVec.toNat_mul, BitVec.toNat_umod]
    omega
  · simp only [placeOf, pixelY, middle]
    simp [BitVec.toNat_add, BitVec.toNat_mul, BitVec.toNat_udiv]
    omega

/-- The number of the luma block at a row and a column. -/
def blockAt (mode : ImageMode) (width : BitVec 16) (row column : Nat) : Nat :=
  if mode = .ycbcr420 then
    4 * (row / 2 * units width.toNat 16 + column / 2) +
      (2 * (row % 2) + column % 2)
  else row * units width.toNat 8 + column

/-- The columns of luma blocks that a scan has. -/
def lumaColumns (mode : ImageMode) (width : BitVec 16) : Nat :=
  if mode = .ycbcr420 then 2 * units width.toNat 16
  else units width.toNat 8

/-- The number of a block gives its place, and the place its number. -/
theorem blockAt_lumaPosition (mode : ImageMode) (width : BitVec 16)
    (block : Nat) :
    blockAt mode width (lumaPosition mode width block).1
      (lumaPosition mode width block).2 = block := by
  unfold blockAt lumaPosition
  split
  · have split := Nat.div_add_mod' (block / 4) (units width.toNat 16)
    have row : (2 * (block / 4 / units width.toNat 16) +
        block % 4 / 2) / 2 = block / 4 / units width.toNat 16 := by
      omega
    have column : (2 * (block / 4 % units width.toNat 16) +
        block % 4 % 2) / 2 = block / 4 % units width.toNat 16 := by
      omega
    dsimp only
    rw [row, column, split]
    omega
  · exact Nat.div_add_mod' block (units width.toNat 8)

/-- The place of a block inside the scan gives its number. -/
theorem lumaPosition_blockAt
    (row : Nat) {column : Nat}
    (inRow : column < lumaColumns mode width) :
    lumaPosition mode width (blockAt mode width row column) =
      (row, column) := by
  unfold blockAt lumaPosition
  unfold lumaColumns at inRow
  split
  · next subsampled =>
      rw [if_pos subsampled] at inRow
      have inColumns : column / 2 < units width.toNat 16 := by omega
      have mcu : (4 * (row / 2 * units width.toNat 16 + column / 2) +
          (2 * (row % 2) + column % 2)) / 4 =
            row / 2 * units width.toNat 16 + column / 2 := by
        omega
      have inMcu : (4 * (row / 2 * units width.toNat 16 + column / 2) +
          (2 * (row % 2) + column % 2)) % 4 =
            2 * (row % 2) + column % 2 := by
        omega
      rw [mcu, inMcu, Nat.mul_comm (row / 2), Nat.mul_add_div (by omega),
        Nat.mul_add_mod, Nat.div_eq_of_lt inColumns,
        Nat.mod_eq_of_lt inColumns, Prod.mk.injEq]
      omega
  · next full =>
      rw [if_neg full] at inRow
      rw [Nat.mul_comm, Nat.mul_add_div (by omega), Nat.mul_add_mod,
        Nat.div_eq_of_lt inRow, Nat.mod_eq_of_lt inRow, Nat.add_zero]

/-- The blocks of a scan are numbered inside 13 bits in each direction. -/
theorem lumaPosition_lt
    (block : Nat)
    (inScan : block < lumaCount mode width height) :
    (lumaPosition mode width block).1 < 8192 ∧
      (lumaPosition mode width block).2 < 8192 := by
  have widthSmall := width.isLt
  have heightSmall := height.isLt
  unfold lumaPosition
  unfold lumaCount at inScan
  split
  · next subsampled =>
      rw [if_pos subsampled] at inScan
      have inMcus : block / 4 <
          units width.toNat 16 * units height.toNat 16 := by
        omega
      have column := Nat.mod_lt (block / 4)
        (Nat.pos_of_mul_pos_right (Nat.zero_lt_of_lt inMcus))
      have row := Nat.div_lt_of_lt_mul inMcus
      have columns : units width.toNat 16 ≤ 4096 := by
        unfold units
        omega
      have rows : units height.toNat 16 ≤ 4096 := by
        unfold units
        omega
      dsimp only
      omega
  · next full =>
      rw [if_neg full] at inScan
      have column := Nat.mod_lt block
        (Nat.pos_of_mul_pos_right (Nat.zero_lt_of_lt inScan))
      have row := Nat.div_lt_of_lt_mul inScan
      have columns : units width.toNat 8 ≤ 8192 := by
        unfold units
        omega
      have rows : units height.toNat 8 ≤ 8192 := by
        unfold units
        omega
      dsimp only
      omega

/-- The number of the sample that ends the frame. -/
def lastSample (mode : ImageMode) (width height : BitVec 16) : Nat :=
  64 * blockAt mode width ((height.toNat - 1) / 8) ((width.toNat - 1) / 8) +
    (8 * ((height.toNat - 1) % 8) + (width.toNat - 1) % 8)

/-- The last pixel of an image lies in one of its blocks. -/
theorem lastSample_lt
    (mode : ImageMode)
    (widthPositive : 0 < width.toNat)
    (heightPositive : 0 < height.toNat) :
    lastSample mode width height < 64 * lumaCount mode width height := by
  have inScan :
      blockAt mode width ((height.toNat - 1) / 8) ((width.toNat - 1) / 8) <
        lumaCount mode width height := by
    unfold blockAt lumaCount
    split
    · have inside : (height.toNat - 1) / 8 / 2 * units width.toNat 16 +
          (width.toNat - 1) / 8 / 2 <
            units width.toNat 16 * units height.toNat 16 := by
        refine raster_lt ?_ ?_ <;> unfold units <;> omega
      omega
    · refine raster_lt ?_ ?_ <;> unfold units <;> omega
  unfold lastSample
  omega

/-- Only one sample of the scan is marked as the last one. -/
theorem isLast_framePlace
    (widthPositive : 0 < width.toNat)
    (heightPositive : 0 < height.toNat)
    {sample : Nat}
    (inScan : sample < 64 * lumaCount mode width height) :
    isLast width height (framePlace mode width sample) = true ↔
      sample = lastSample mode width height := by
  have block : sample / 64 < lumaCount mode width height := by omega
  have bounds := lumaPosition_lt (sample / 64) block
  obtain ⟨column, row⟩ :=
    placeOf_idOf bounds.1 bounds.2 (Nat.mod_lt sample (by decide : 0 < 64))
  have one {side : BitVec 16} (positive : 0 < side.toNat) :
      (side - 1).toNat = side.toNat - 1 :=
    BitVec.toNat_sub_of_le (by rw [BitVec.le_def]; exact positive)
  rw [isLast, coreOutLast, Bool.and_eq_true, beq_iff_eq, beq_iff_eq,
    ← BitVec.toNat_inj, ← BitVec.toNat_inj, one widthPositive,
    one heightPositive]
  change (placeOf (lumaId mode width (sample / 64)) (sample % 64)).1.toNat =
      _ ∧
    (placeOf (lumaId mode width (sample / 64)) (sample % 64)).2.toNat = _ ↔ _
  rw [lumaId, column, row]
  constructor
  · rintro ⟨right, bottom⟩
    have block := blockAt_lumaPosition mode width (sample / 64)
    have rowOf : (lumaPosition mode width (sample / 64)).1 =
        (height.toNat - 1) / 8 := by
      omega
    have columnOf : (lumaPosition mode width (sample / 64)).2 =
        (width.toNat - 1) / 8 := by
      omega
    rw [rowOf, columnOf] at block
    unfold lastSample
    omega
  · intro last
    have inRow : (width.toNat - 1) / 8 < lumaColumns mode width := by
      unfold lumaColumns units
      split <;> omega
    have place := lumaPosition_blockAt ((height.toNat - 1) / 8) inRow
    have block : sample / 64 = blockAt mode width ((height.toNat - 1) / 8)
        ((width.toNat - 1) / 8) := by
      rw [last, lastSample]
      omega
    have inBlock : sample % 64 =
        8 * ((height.toNat - 1) % 8) + (width.toNat - 1) % 8 := by
      rw [last, lastSample]
      omega
    rw [block, place, inBlock]
    dsimp only
    omega

end Places

/-! ## Counting the pixels of the frame -/

section Count

/-- In whole blocks the frame has a surplus over the pixels of the image. -/
theorem surplus_full
    (X Y : Nat)
    {p q right below above : Nat}
    (inColumn : p + right = 8)
    (inRow : q + below = 8)
    (first : q = above + 1) :
    64 * (Y * (X + 1) + X) + 8 * above + p =
      (8 * X + p) * (8 * Y + q) +
        (8 * (X * below) + 8 * (Y * right) + right * above) := by
  zify at inColumn inRow first ⊢
  have rightOf : (right : ℤ) = 8 - p := by linarith
  have belowOf : (below : ℤ) = 8 - q := by linarith
  have aboveOf : (above : ℤ) = q - 1 := by linarith
  rw [rightOf, belowOf, aboveOf]
  ring

/-- In whole 4:2:0 MCUs the surplus is counted up to the last MCU. -/
theorem surplus_subsampled
    (X Y : Nat)
    {p q right below : Nat}
    (inColumn : p + right = 16)
    (inRow : q + below = 16) :
    256 * (Y * (X + 1) + X) + p * q =
      (16 * X + p) * (16 * Y + q) +
        (16 * (X * below) + 16 * (Y * right)) := by
  zify at inColumn inRow ⊢
  have rightOf : (right : ℤ) = 16 - p := by linarith
  have belowOf : (below : ℤ) = 16 - q := by linarith
  rw [rightOf, belowOf]
  ring

/-- The samples of the last MCU up to the last pixel of the image. -/
theorem inLastMcu :
    ∀ p < 16, ∀ q < 16,
      (p + 1) * (q + 1) ≤
          64 * (2 * (q / 8) + p / 8) + (8 * (q % 8) + p % 8) + 1 ∧
        (64 * (2 * (q / 8) + p / 8) + (8 * (q % 8) + p % 8) + 1 =
            (p + 1) * (q + 1) ↔
          (p = 15 ∧ q = 15) ∨ (p = 15 ∧ q = 7) ∨
            (p < 8 ∧ q < 8 ∧ (p = 7 ∨ q = 0))) := by
  decide +kernel

variable {mode : ImageMode} {width height : BitVec 16}

/-- A positive number is one more than a number split by a divisor. -/
theorem split_pos
    {number divisor : Nat}
    (positive : 0 < number)
    (divides : 0 < divisor) :
    ∃ quotient remainder, remainder < divisor ∧
      number - 1 = divisor * quotient + remainder ∧
      number = divisor * quotient + (remainder + 1) := by
  have split := Nat.div_add_mod (number - 1) divisor
  exact ⟨_, _, Nat.mod_lt (number - 1) divides, split.symm, by omega⟩

/-- The sides of an image whose last MCU is filled. -/
theorem subsampled_sides_iff
    {X Y p q : Nat}
    (column : p < 16)
    (row : q < 16) :
    ((X = 0 ∨ q = 15) ∧ (Y = 0 ∨ p = 15) ∧
        ((p = 15 ∧ q = 15) ∨ (p = 15 ∧ q = 7) ∨
          (p < 8 ∧ q < 8 ∧ (p = 7 ∨ q = 0)))) ↔
      ((16 * X + (p + 1)) % 16 = 0 ∧ (16 * Y + (q + 1)) % 16 = 0) ∨
        (16 * X + (p + 1) = 16 ∧ (16 * Y + (q + 1)) % 16 = 8) ∨
        (16 * X + (p + 1) ≤ 8 ∧ 16 * Y + (q + 1) ≤ 8 ∧
          (16 * X + (p + 1) = 8 ∨ 16 * Y + (q + 1) = 1)) := by
  rw [Nat.mul_add_mod, Nat.mul_add_mod]
  rcases (by omega : p = 15 ∨ p < 15) with rfl | narrow
  · rcases (by omega : q = 15 ∨ q < 15) with rfl | short
    · simp
    · omega
  · omega

/-- The frame has as many pixels as the image if these fill their blocks. -/
theorem lastSample_eq_iff
    (widthPositive : 0 < width.toNat)
    (heightPositive : 0 < height.toNat) :
    lastSample mode width height + 1 = width.toNat * height.toNat ↔
      FillsBlocks mode width height := by
  by_cases subsampled : mode = .ycbcr420
  · obtain ⟨X, p, column, lastX, widthOf⟩ :=
      split_pos widthPositive (by decide : 0 < 16)
    obtain ⟨Y, q, row, lastY, heightOf⟩ :=
      split_pos heightPositive (by decide : 0 < 16)
    obtain ⟨atLeast, equal⟩ := inLastMcu p column q row
    have surplus := surplus_subsampled X Y
      (show p + 1 + (15 - p) = 16 by omega)
      (show q + 1 + (15 - q) = 16 by omega)
    have columns : units width.toNat 16 = X + 1 := by
      rw [units]
      omega
    have last : lastSample mode width height + 1 =
        256 * (Y * (X + 1) + X) +
          (64 * (2 * (q / 8) + p / 8) + (8 * (q % 8) + p % 8) + 1) := by
      rw [lastSample, blockAt, if_pos subsampled, columns, lastX, lastY,
        show (16 * Y + q) / 8 / 2 = Y by omega,
        show (16 * X + p) / 8 / 2 = X by omega]
      omega
    have below : X * (15 - q) = 0 ↔ X = 0 ∨ q = 15 := by
      rw [Nat.mul_eq_zero]
      omega
    have right : Y * (15 - p) = 0 ↔ Y = 0 ∨ p = 15 := by
      rw [Nat.mul_eq_zero]
      omega
    have noSurplus : lastSample mode width height + 1 =
          width.toNat * height.toNat ↔
        (X = 0 ∨ q = 15) ∧ (Y = 0 ∨ p = 15) ∧
          ((p = 15 ∧ q = 15) ∨ (p = 15 ∧ q = 7) ∨
            (p < 8 ∧ q < 8 ∧ (p = 7 ∨ q = 0))) := by
      rw [last, ← equal, ← below, ← right, widthOf, heightOf]
      omega
    rw [noSurplus, FillsBlocks, if_pos subsampled, widthOf, heightOf]
    exact subsampled_sides_iff column row
  · obtain ⟨X, p, column, lastX, widthOf⟩ :=
      split_pos widthPositive (by decide : 0 < 8)
    obtain ⟨Y, q, row, lastY, heightOf⟩ :=
      split_pos heightPositive (by decide : 0 < 8)
    have surplus := surplus_full X Y
      (show p + 1 + (7 - p) = 8 by omega)
      (show q + 1 + (7 - q) = 8 by omega) rfl
    have columns : units width.toNat 8 = X + 1 := by
      rw [units]
      omega
    have last : lastSample mode width height + 1 =
        64 * (Y * (X + 1) + X) + 8 * q + (p + 1) := by
      rw [lastSample, blockAt, if_neg subsampled, columns, lastX, lastY,
        show (8 * Y + q) / 8 = Y by omega,
        show (8 * X + p) / 8 = X by omega]
      omega
    have below : X * (7 - q) = 0 ↔ X = 0 ∨ q = 7 := by
      rw [Nat.mul_eq_zero]
      omega
    have right : Y * (7 - p) = 0 ↔ Y = 0 ∨ p = 7 := by
      rw [Nat.mul_eq_zero]
      omega
    have corner : (7 - p) * q = 0 ↔ p = 7 ∨ q = 0 := by
      rw [Nat.mul_eq_zero]
      omega
    have noSurplus : lastSample mode width height + 1 =
          width.toNat * height.toNat ↔
        (X = 0 ∨ q = 7) ∧ (Y = 0 ∨ p = 7) ∧ (p = 7 ∨ q = 0) := by
      rw [last, ← below, ← right, ← corner, widthOf, heightOf]
      omega
    rw [noSurplus, FillsBlocks, if_neg subsampled, widthOf, heightOf]
    omega

/-- The frame ends with the last sample if the MCUs are whole. -/
theorem lastSample_last_iff
    (widthPositive : 0 < width.toNat)
    (heightPositive : 0 < height.toNat) :
    lastSample mode width height + 1 = 64 * lumaCount mode width height ↔
      WholeMcus mode width height := by
  by_cases subsampled : mode = .ycbcr420
  · obtain ⟨X, p, column, lastX, widthOf⟩ :=
      split_pos widthPositive (by decide : 0 < 16)
    obtain ⟨Y, q, row, lastY, heightOf⟩ :=
      split_pos heightPositive (by decide : 0 < 16)
    have columns : units width.toNat 16 = X + 1 := by
      rw [units]
      omega
    have rows : units height.toNat 16 = Y + 1 := by
      rw [units]
      omega
    have size : (X + 1) * (Y + 1) = Y * (X + 1) + X + 1 := by ring
    rw [lastSample, lumaCount, if_pos subsampled, blockAt,
      if_pos subsampled, columns, rows, size, lastX, lastY,
      show (16 * Y + q) / 8 / 2 = Y by omega,
      show (16 * X + p) / 8 / 2 = X by omega, WholeMcus, subsampled,
      widthOf, heightOf, mcuSize]
    omega
  · obtain ⟨X, p, column, lastX, widthOf⟩ :=
      split_pos widthPositive (by decide : 0 < 8)
    obtain ⟨Y, q, row, lastY, heightOf⟩ :=
      split_pos heightPositive (by decide : 0 < 8)
    have columns : units width.toNat 8 = X + 1 := by
      rw [units]
      omega
    have rows : units height.toNat 8 = Y + 1 := by
      rw [units]
      omega
    have size : (X + 1) * (Y + 1) = Y * (X + 1) + X + 1 := by ring
    have side : mcuSize mode = 8 := by
      cases mode <;> first | rfl | exact absurd rfl subsampled
    rw [lastSample, lumaCount, if_neg subsampled, blockAt,
      if_neg subsampled, columns, rows, size, lastX, lastY,
      show (8 * Y + q) / 8 = Y by omega,
      show (8 * X + p) / 8 = X by omega, WholeMcus, side, widthOf, heightOf]
    omega

/-- The bytes of the image that `jpeg_top` waits for. -/
theorem imageBytes_eq_iff (width height : BitVec 16) :
    3 * (width.toNat * height.toNat) =
        (JpegTop.imageBytes width height).toNat ↔
      BytesFit width height := by
  have product : (JpegTop.imageBytes width height).toNat =
      3 * (width.toNat * height.toNat) % 2 ^ 32 := by
    simp [JpegTop.imageBytes, BitVec.toNat_mul, Nat.mul_comm]
  rw [product, BytesFit]
  omega

end Count

/-! ## The frame of a run -/

section Frame

variable {mode : ImageMode} {width height : BitVec 16}
variable {after : List (BitVec 32)}

/-- The pixels of an image, in the order of its blocks. -/
def frame (mode : ImageMode) (width height : BitVec 16) : List Place :=
  (List.range (64 * lumaCount mode width height)).map
    (framePlace mode width)

/-- The first pixel marked as the last one ends the frame. -/
theorem framePixels_frame
    (mode : ImageMode)
    (widthPositive : 0 < width.toNat)
    (heightPositive : 0 < height.toNat) :
    framePixels width height (frame mode width height) =
      lastSample mode width height + 1 := by
  have inFrame :=
    lastSample_lt mode widthPositive heightPositive
  have length : lastSample mode width height <
      (frame mode width height).length := by
    simpa [frame] using inFrame
  rw [framePixels, (List.findIdx_eq length).mpr]
  refine ⟨?_, fun sample before => ?_⟩
  · simp only [frame, List.getElem_map, List.getElem_range]
    exact (isLast_framePlace widthPositive heightPositive inFrame).mpr rfl
  · simp only [frame, List.getElem_map, List.getElem_range]
    rw [Bool.eq_false_iff]
    intro marked
    have last := (isLast_framePlace widthPositive heightPositive
      (before.trans inFrame)).mp marked
    exact Nat.ne_of_lt before last

/-- Some pixel of an image is marked. -/
theorem marked_frame
    (mode : ImageMode)
    (widthPositive : 0 < width.toNat)
    (heightPositive : 0 < height.toNat) :
    ∃ place ∈ frame mode width height, isLast width height place = true :=
  have inFrame :=
    lastSample_lt mode widthPositive heightPositive
  ⟨framePlace mode width (lastSample mode width height),
    List.mem_map.mpr ⟨_, List.mem_range.mpr inFrame, rfl⟩,
    (isLast_framePlace widthPositive heightPositive inFrame).mpr rfl⟩

/-- The frame of an image is exact if its pixels fill their blocks. -/
theorem exactFrame_frame_iff
    (mode : ImageMode)
    (widthPositive : 0 < width.toNat)
    (heightPositive : 0 < height.toNat) :
    ExactFrame width height (frame mode width height) ↔
      FillsBlocks mode width height ∧ BytesFit width height := by
  have pixels := framePixels_frame mode widthPositive heightPositive
  rw [← lastSample_eq_iff widthPositive heightPositive,
    ← imageBytes_eq_iff]
  constructor
  · intro isExact
    have count := isExact.pixels
    have bytes := isExact.bytes
    rw [count] at bytes
    rw [pixels] at count
    exact ⟨count, bytes⟩
  · rintro ⟨count, bytes⟩
    rw [← pixels] at count
    exact ⟨marked_frame mode widthPositive heightPositive, count,
      by rw [count, bytes]⟩

/-- Whole MCUs are filled by the pixels of the image. -/
theorem WholeMcus.fillsBlocks
    (whole : WholeMcus mode width height) :
    FillsBlocks mode width height := by
  obtain ⟨columns, rows⟩ := whole
  unfold FillsBlocks
  split
  · next subsampled =>
      rw [subsampled] at columns rows
      exact .inl ⟨columns, rows⟩
  · next full =>
      have side : mcuSize mode = 8 := by
        cases mode <;> first | rfl | exact absurd rfl full
      rw [side] at columns rows
      exact ⟨.inl columns, .inl rows⟩

/-- The places of a scan, whatever blocks after the image follow it. -/
theorem samplePlaces_scan
    (afterImage : ∀ id ∈ after, typeOf id = BlockType.eof.code)
    (sample : Nat) :
    samplePlaces (scanIds mode width height ++ after) sample =
      if sample < 64 * lumaCount mode width height then
        [framePlace mode width sample]
      else [] := by
  have size : (scanIds mode width height).length =
      lumaCount mode width height := by
    simp [scanIds]
  by_cases inImage : sample < 64 * lumaCount mode width height
  · have block : sample / 64 < lumaCount mode width height := by omega
    have id : (scanIds mode width height ++ after)[sample / 64]? =
        some (lumaId mode width (sample / 64)) := by
      rw [List.getElem?_append_left (by rw [size]; exact block)]
      simp [scanIds, block]
    have luma : (typeOf (lumaId mode width (sample / 64)) ==
        BlockType.eof.code) = false := by
      rw [typeOf_lumaId]
      rfl
    simp only [samplePlaces, id, luma, Bool.false_eq_true, if_false,
      if_pos inImage]
    rfl
  · rw [if_neg inImage, samplePlaces,
      List.getElem?_append_right (by rw [size]; omega)]
    cases found : after[sample / 64 - (scanIds mode width height).length]? with
    | none => rfl
    | some id =>
        have blockType := afterImage id (List.mem_of_getElem? found)
        simp [blockType]

/-- The first samples of a scan make the beginning of its frame. -/
theorem samplePlaces_range
    (afterImage : ∀ id ∈ after, typeOf id = BlockType.eof.code)
    (count : Nat) :
    (List.range count).flatMap
        (samplePlaces (scanIds mode width height ++ after)) =
      (List.range (min count (64 * lumaCount mode width height))).map
        (framePlace mode width) := by
  induction count with
  | zero => simp
  | succ count inductionHypothesis =>
      rw [List.range_succ, List.flatMap_append, inductionHypothesis,
        List.flatMap_singleton, samplePlaces_scan afterImage]
      by_cases inImage : count < 64 * lumaCount mode width height
      · rw [if_pos inImage, Nat.min_eq_left (Nat.le_of_lt inImage),
          Nat.min_eq_left inImage, List.range_succ, List.map_append]
        rfl
      · have full := Nat.le_of_not_lt inImage
        rw [if_neg inImage, Nat.min_eq_right full,
          Nat.min_eq_right (Nat.le_succ_of_le full), List.append_nil]

/-- A run that passes all pixels of the image passes its frame. -/
theorem passed_frame
    (supported : mode ≠ .unsupported)
    (afterImage : ∀ id ∈ after, typeOf id = BlockType.eof.code)
    {s : State}
    (cleared : Cleared s)
    (nothing : s.validQ = false)
    {cycles : List Input}
    (along :
      Clocked.Along Fed.step
        (Fed.Feeds mode (scanIds mode width height ++ after)) ⟨s, 0, 0⟩
        cycles)
    (delivered :
      (Clocked.observe Fed.step Fed.passed ⟨s, 0, 0⟩ cycles).length =
        64 * lumaCount mode width height) :
    Clocked.observe Fed.step Fed.passed ⟨s, 0, 0⟩ cycles =
      frame mode width height := by
  have places := (passed_places supported cleared nothing along).1
  rw [samplePlaces_range afterImage] at places
  have size := congrArg List.length places
  rw [List.length_append, List.length_map, List.length_range, delivered]
    at size
  have all : min (Clocked.run Fed.step ⟨s, 0, 0⟩ cycles).popped
      (64 * lumaCount mode width height) =
        64 * lumaCount mode width height := by
    omega
  have nothingShown : presented
      (Clocked.run Fed.step ⟨s, 0, 0⟩ cycles).output = [] := by
    apply List.eq_nil_of_length_eq_zero
    omega
  rwa [nothingShown, List.append_nil, all] at places

end Frame

end CoreJpeg.JpegOutput
