import CoreJpeg.McuFrame
import CoreJpeg.Raster

namespace CoreJpeg.McuProc

/-!
# The place of a block in its image

`jpeg_mcu_id` keeps the column and the row of the present block position and,
for subsampled images, a second pair of counters over the luminance blocks.
This module says what these registers hold at every block of an image whose
sides are whole numbers of MCUs, and when the end of the image is inferred.
-/

/-- The side of an MCU. -/
def mcuSize : ImageMode → Nat
  | .ycbcr420 => 16
  | _ => 8

/-- The blocks of an MCU. -/
def mcuBlocks : ImageMode → Nat
  | .ycbcr444 => 3
  | .ycbcr420 => 6
  | _ => 1

/-- An image whose sides are whole numbers of MCUs. -/
structure Image where
  mode : ImageMode
  width : BitVec 16
  height : BitVec 16
  supported : mode ≠ .unsupported
  widthPositive : 0 < width.toNat
  heightPositive : 0 < height.toNat
  widthWhole : mcuSize mode ∣ width.toNat
  heightWhole : mcuSize mode ∣ height.toNat

namespace Image

/-- The MCUs of a row. -/
def columns (image : Image) : Nat := image.width.toNat / mcuSize image.mode

/-- The rows of MCUs. -/
def rows (image : Image) : Nat := image.height.toNat / mcuSize image.mode

/-- The blocks of an image. -/
def blockCount (image : Image) : Nat :=
  image.columns * image.rows * mcuBlocks image.mode

theorem columns_eq (image : Image) :
    image.columns * mcuSize image.mode = image.width.toNat :=
  Nat.div_mul_cancel image.widthWhole

theorem rows_eq (image : Image) :
    image.rows * mcuSize image.mode = image.height.toNat :=
  Nat.div_mul_cancel image.heightWhole

theorem columns_pos (image : Image) : 0 < image.columns := by
  have whole := image.columns_eq
  have positive := image.widthPositive
  rcases Nat.eq_zero_or_pos image.columns with isZero | isPositive
  · rw [isZero] at whole
    omega
  · exact isPositive

theorem rows_pos (image : Image) : 0 < image.rows := by
  have whole := image.rows_eq
  have positive := image.heightPositive
  rcases Nat.eq_zero_or_pos image.rows with isZero | isPositive
  · rw [isZero] at whole
    omega
  · exact isPositive

/-- An image has blocks. -/
theorem blockCount_pos (image : Image) : 0 < image.blockCount := by
  have blocks : 0 < mcuBlocks image.mode := by
    cases image.mode <;> simp [mcuBlocks]
  exact Nat.mul_pos (Nat.mul_pos image.columns_pos image.rows_pos) blocks

end Image

/--
The last of a number of blocks is the last of its MCU, which is the last of its
row, which is the last row.
-/
theorem last_block_iff
    {index columns rows blocks : Nat}
    (inImage : index < columns * rows * blocks) :
    index + 1 = columns * rows * blocks ↔
      index % blocks + 1 = blocks ∧
        index / blocks % columns + 1 = columns ∧
        index / blocks / columns + 1 = rows := by
  have blocksPositive : 0 < blocks := by
    rcases Nat.eq_zero_or_pos blocks with rfl | positive
    · simp at inImage
    · exact positive
  have mcuSmall : index / blocks < columns * rows := by
    rw [Nat.div_lt_iff_lt_mul blocksPositive]
    exact inImage
  have columnsPositive : 0 < columns := by
    rcases Nat.eq_zero_or_pos columns with rfl | positive
    · simp at mcuSmall
    · exact positive
  have rowSmall : index / blocks / columns < rows := by
    rw [Nat.div_lt_iff_lt_mul columnsPositive, Nat.mul_comm]
    exact mcuSmall
  have inMcu := Nat.mod_lt index blocksPositive
  have inRow := Nat.mod_lt (index / blocks) columnsPositive
  have mcuSplit := Nat.div_add_mod index blocks
  have rowSplit := Nat.div_add_mod (index / blocks) columns
  constructor
  · intro last
    have mcuLast : index / blocks + 1 = columns * rows := by
      have upper : blocks * (index / blocks + 1) ≤ blocks * (columns * rows) :=
        Nat.mul_le_mul_left blocks mcuSmall
      have lower : blocks * (columns * rows) ≤ blocks * (index / blocks + 1) := by
        rw [Nat.mul_comm blocks (columns * rows), ← last, Nat.mul_succ]
        omega
      exact Nat.eq_of_mul_eq_mul_left blocksPositive
        (Nat.le_antisymm upper lower)
    have rowLast : index / blocks / columns + 1 = rows := by
      have upper :
          columns * (index / blocks / columns + 1) ≤ columns * rows :=
        Nat.mul_le_mul_left columns rowSmall
      have lower :
          columns * rows ≤ columns * (index / blocks / columns + 1) := by
        rw [← mcuLast, Nat.mul_succ]
        omega
      exact Nat.eq_of_mul_eq_mul_left columnsPositive
        (Nat.le_antisymm upper lower)
    refine ⟨?_, ?_, rowLast⟩
    · have all : blocks * (index / blocks + 1) = index + 1 := by
        rw [mcuLast, last, Nat.mul_comm]
      rw [Nat.mul_succ] at all
      omega
    · have all :
          columns * (index / blocks / columns + 1) = index / blocks + 1 := by
        rw [rowLast, mcuLast]
      rw [Nat.mul_succ] at all
      omega
  · rintro ⟨mcuLast, columnLast, rowLast⟩
    have mcus : index / blocks + 1 = columns * rows := by
      rw [← rowLast, Nat.mul_succ]
      omega
    rw [← mcus, Nat.mul_comm, Nat.mul_succ]
    omega

/-! ## The counters -/

/-- The luminance blocks begun before or with a block of a subsampled image. -/
def lumaBegun (index : Nat) (begun : Bool) : Nat :=
  4 * (index / 6) + min (index % 6 + begun.toNat) 4

/--
The counters while a block of the image is due or, once begun, being decoded.
-/
structure Placed
    (image : Image)
    (index : Nat)
    (begun : Bool)
    (s : IdState) : Prop where
  column :
    image.mode ≠ .ycbcr420 →
      s.blockXQ.toNat = index / mcuBlocks image.mode % image.columns
  row :
    image.mode ≠ .ycbcr420 →
      s.blockYQ.toNat = index / mcuBlocks image.mode / image.columns
  lumaColumn :
    image.mode = .ycbcr420 →
      s.xIdxQ.toNat = lumaBegun index begun % (4 * image.columns)
  lumaRow :
    image.mode = .ycbcr420 →
      s.yIdxQ.toNat = 2 * (lumaBegun index begun / (4 * image.columns))
  chroma :
    image.mode = .ycbcr420 → 4 ≤ index % 6 + begun.toNat →
      s.blockXQ.toNat = 2 * (index / 6 % image.columns) + 1 ∧
        s.blockYQ.toNat = 2 * (index / 6 / image.columns) + 1
  ended :
    s.endOfImageQ = true ↔
      index = image.blockCount ∨
        (image.mode = .ycbcr420 ∧ begun = true ∧
          index + 1 = image.blockCount)

/-- `jpeg_mcu_id` decides in this cycle whether the image has ended. -/
def IdState.decides (s : IdState) (i : IdInput) : Bool :=
  (if s.endsPosition i then true
    else i.startOfBlock && i.imgMode == .ycbcr420 && s.blockTypeQ == .cr) &&
    s.lastInRow i

/-- `img_end_i` is high at a decision exactly in the last row of blocks. -/
def EndsInLastRow (image : Image) (s : IdState) (i : IdInput) : Prop :=
  s.decides i = true →
    (i.imgEnd = true ↔ (s.blockYQ.toNat + 1) * 8 = image.height.toNat)

/-- The pins of `jpeg_mcu_id` while an image is decoded. -/
structure ImagePins (image : Image) (i : IdInput) : Prop where
  running : (i.rst || i.imgStart) = false
  modeKept : i.imgMode = image.mode
  widthKept : i.imgWidth = image.width

section Counters

variable {image : Image} {index : Nat} {begun : Bool}
variable {s : IdState} {i : IdInput}

/-- The counters after `rst_i`. -/
theorem reset_placed (image : Image) : Placed image 0 false .reset where
  column := fun _ => by simp [IdState.reset]
  row := fun _ => by simp [IdState.reset]
  lumaColumn := fun _ => by simp [IdState.reset, lumaBegun]
  lumaRow := fun _ => by simp [IdState.reset, lumaBegun]
  chroma := fun _ many => by simp at many
  ended := by
    have blocks := image.blockCount_pos
    simp [IdState.reset]
    omega

/-- The width of the image in 8-by-8 blocks. -/
theorem blockXMax_toNat (image : Image) :
    (IdState.blockXMax image.width).toNat = image.width.toNat / 8 := by
  have small := image.width.isLt
  have whole : 8 ∣ image.width.toNat := by
    have mcu := image.widthWhole
    cases mode : image.mode <;> rw [mode] at mcu <;>
      simp only [mcuSize] at mcu <;> omega
  simp [IdState.blockXMax, IdState.widthRnd]
  omega

/-- The width of a subsampled image in luminance blocks of an MCU row. -/
theorem imgWDiv4_toNat
    (image : Image)
    (subsampled : image.mode = .ycbcr420) :
    (IdState.imgWDiv4 image.width).toNat = 4 * image.columns := by
  have small := image.width.isLt
  have whole := image.columns_eq
  rw [subsampled] at whole
  simp only [mcuSize] at whole
  simp [IdState.imgWDiv4, IdState.widthRnd]
  omega

/-- Reading the comparison of the row end as numbers. -/
theorem lastInRow_iff
    (pins : ImagePins image i)
    (small : s.blockXQ.toNat < image.width.toNat) :
    s.lastInRow i = true ↔ s.blockXQ.toNat + 1 = image.width.toNat / 8 := by
  have widthSmall := image.width.isLt
  have limit := blockXMax_toNat image
  have next : (s.blockXNext).toNat = s.blockXQ.toNat + 1 := by
    simp [IdState.blockXNext]
    omega
  rw [IdState.lastInRow, beq_iff_eq, pins.widthKept, ← BitVec.toNat_inj,
    next, limit]

/-- The counters move only at a position's end or at a subsampled start. -/
theorem Placed.transfer
    {after : IdState}
    (placed : Placed image index begun s)
    (columnKept : after.blockXQ = s.blockXQ)
    (rowKept : after.blockYQ = s.blockYQ)
    (lumaColumnKept : after.xIdxQ = s.xIdxQ)
    (lumaRowKept : after.yIdxQ = s.yIdxQ)
    (endKept : after.endOfImageQ = s.endOfImageQ) :
    Placed image index begun after where
  column := by rw [columnKept]; exact placed.column
  row := by rw [rowKept]; exact placed.row
  lumaColumn := by rw [lumaColumnKept]; exact placed.lumaColumn
  lumaRow := by rw [lumaRowKept]; exact placed.lumaRow
  chroma := by rw [columnKept, rowKept]; exact placed.chroma
  ended := by rw [endKept]; exact placed.ended

/-- A cycle that neither ends a position nor begins a subsampled block. -/
theorem Placed.kept
    (placed : Placed image index begun s)
    (pins : ImagePins image i)
    (noPosition : s.endsPosition i = false)
    (noBegin : (i.startOfBlock && i.imgMode == .ycbcr420) = false) :
    Placed image index begun (s.step i) := by
  apply placed.transfer <;>
    simp [IdState.step, pins.running, noPosition, noBegin]

/-- A cycle that neither begins nor ends a block keeps the counters. -/
theorem Placed.stay
    (placed : Placed image index begun s)
    (pins : ImagePins image i)
    (noBegin : i.startOfBlock = false)
    (noEnd : i.endOfBlock = false) :
    Placed image index begun (s.step i) := by
  apply placed.kept pins
  · simp [IdState.endsPosition, noEnd]
  · simp [noBegin]

/-- The blocks of an image are counted by its MCUs. -/
theorem blockCount_eq (image : Image) :
    image.blockCount =
      image.columns * image.rows * mcuBlocks image.mode := rfl

/-- Beginning a block where no chroma is subsampled moves no counter. -/
theorem Placed.begin_full
    (placed : Placed image index false s)
    (pins : ImagePins image i)
    (full : image.mode ≠ .ycbcr420)
    (noEnd : i.endOfBlock = false) :
    Placed image index true (s.step i) := by
  have kept :=
    placed.kept pins (by simp [IdState.endsPosition, noEnd])
      (by rw [pins.modeKept]; simp [full])
  exact
    { column := kept.column
      row := kept.row
      lumaColumn := fun subsampled => absurd subsampled full
      lumaRow := fun subsampled => absurd subsampled full
      chroma := fun subsampled => absurd subsampled full
      ended := by
        rw [kept.ended]
        simp [full] }

/-- The rows and columns of a subsampled image. -/
theorem subsampled_sides
    (subsampled : image.mode = .ycbcr420) :
    16 * image.columns = image.width.toNat ∧
      16 * image.rows = image.height.toNat ∧
      image.blockCount = image.columns * image.rows * 6 := by
  have width := image.columns_eq
  have height := image.rows_eq
  have count := blockCount_eq image
  rw [subsampled] at width height count
  simp only [mcuSize, mcuBlocks] at width height count
  exact ⟨by omega, by omega, count⟩

/-- Masking the two low bits rounds down to a multiple of four. -/
theorem toNat_and_mask (x : BitVec 16) :
    (x &&& 65532#16).toNat = x.toNat / 4 * 4 := by
  have shifted : x &&& 65532#16 = (x >>> 2) <<< 2 := by
    apply BitVec.eq_of_getLsbD_eq
    intro bit inWord
    interval_cases bit <;> simp
  rw [shifted]
  simp [Nat.shiftRight_eq_div_pow, Nat.shiftLeft_eq]
  omega

/-- Beginning a luminance block of a subsampled image counts it. -/
theorem Placed.begin_luma
    (placed : Placed image index false s)
    (pins : ImagePins image i)
    (subsampled : image.mode = .ycbcr420)
    (inImage : index < image.blockCount)
    (atBlock : s.AtBlock image.mode index)
    (luma : index % 6 < 4)
    (begins : i.startOfBlock = true)
    (noEnd : i.endOfBlock = false) :
    Placed image index true (s.step i) := by
  obtain ⟨width, height, count⟩ := subsampled_sides subsampled
  have widthSmall := image.width.isLt
  have heightSmall := image.height.isLt
  have columnsPositive := image.columns_pos
  have kind : s.blockTypeQ = .y := by
    rw [atBlock.typed, subsampled]
    simp [componentOrder, luma, BlockType.ofComponent]
  have place : s.typeIdxQ.toNat = index % 6 := atBlock.indexed subsampled
  have early : s.typeIdxQ < 4#3 := by
    change s.typeIdxQ.toNat < 4
    omega
  have limit := imgWDiv4_toNat image subsampled
  have column := placed.lumaColumn subsampled
  have row := placed.lumaRow subsampled
  have before : lumaBegun index false = 4 * (index / 6) + index % 6 := by
    simp [lumaBegun]
    omega
  have after : lumaBegun index true = lumaBegun index false + 1 := by
    simp [lumaBegun]
    omega
  have mcuSmall : index / 6 < image.columns * image.rows := by
    rw [count] at inImage
    omega
  have rowSmall : lumaBegun index false / (4 * image.columns) < image.rows := by
    rw [Nat.div_lt_iff_lt_mul (by omega), before]
    have swap : image.rows * (4 * image.columns) =
        4 * (image.columns * image.rows) := by
      ring
    omega
  have inRow := Nat.mod_lt (lumaBegun index false)
    (show 0 < 4 * image.columns by omega)
  have wraps :
      (s.xIdxQ + 1 == IdState.imgWDiv4 i.imgWidth) =
        decide
          (lumaBegun index false % (4 * image.columns) + 1 =
            4 * image.columns) := by
    have next : (s.xIdxQ + 1).toNat =
        lumaBegun index false % (4 * image.columns) + 1 := by
      simp
      omega
    rw [Bool.eq_iff_iff, beq_iff_eq, decide_eq_true_iff, pins.widthKept,
      ← BitVec.toNat_inj, next, limit]
  have stepped :
      (s.step i).xIdxQ =
          (if s.xIdxQ + 1 == IdState.imgWDiv4 i.imgWidth then 0
            else s.xIdxQ + 1) ∧
        (s.step i).yIdxQ =
          (if s.xIdxQ + 1 == IdState.imgWDiv4 i.imgWidth then s.yIdxQ + 2
            else s.yIdxQ) ∧
        (s.step i).blockXQ =
          (s.xIdxQ &&& 65532#16) / 2#16 +
            (if s.typeIdxQ.getLsbD 0 then 1#16 else 0#16) ∧
        (s.step i).blockYQ =
          s.yIdxQ + (if s.typeIdxQ.getLsbD 1 then 1 else 0) ∧
        (s.step i).endOfImageQ = s.endOfImageQ := by
    simp [IdState.step, pins.running, IdState.endsPosition, noEnd, begins,
      pins.modeKept, subsampled, kind, early]
  obtain ⟨xAfter, yAfter, columnAfter, rowAfter, endAfter⟩ := stepped
  refine ⟨?_, ?_, ?_, ?_, ?_, ?_⟩
  · exact fun full => absurd subsampled full
  · exact fun full => absurd subsampled full
  · intro _
    rw [xAfter, wraps, after]
    by_cases last :
        lumaBegun index false % (4 * image.columns) + 1 = 4 * image.columns
    · rw [(count_wrap (by omega) last).2]
      simp [last]
    · rw [(count_within (by omega)).2]
      simp [last]
      omega
  · intro _
    rw [yAfter, wraps, after]
    by_cases last :
        lumaBegun index false % (4 * image.columns) + 1 = 4 * image.columns
    · rw [(count_wrap (by omega) last).1]
      simp [last]
      omega
    · rw [(count_within (by omega)).1]
      simp [last, row]
  · intro _ many
    have fourth : index % 6 = 3 := by
      simp only [Bool.toNat_true] at many
      omega
    have typeIdx : s.typeIdxQ = 3 := by
      apply BitVec.eq_of_toNat_eq
      rw [place, fourth]
      rfl
    have luma4 : lumaBegun index false = 4 * (index / 6) + 3 := by
      omega
    have inMcu : s.xIdxQ.toNat = 4 * (index / 6 % image.columns) + 3 := by
      rw [column, luma4, Nat.mod_mul]
      have quarter : (4 * (index / 6) + 3) / 4 = index / 6 := by
        omega
      rw [quarter]
      omega
    have rowOf : lumaBegun index false / (4 * image.columns) =
        index / 6 / image.columns := by
      rw [luma4, ← Nat.div_div_eq_div_mul]
      congr 1
      omega
    have columnSmall := Nat.mod_lt (index / 6) columnsPositive
    constructor
    · have half : ((s.xIdxQ &&& 65532#16) / 2#16).toNat =
          2 * (index / 6 % image.columns) := by
        rw [BitVec.toNat_udiv, toNat_and_mask, inMcu]
        simp
        omega
      have odd : s.typeIdxQ.getLsbD 0 = true := by
        rw [typeIdx]
        rfl
      rw [columnAfter, odd, if_pos rfl, BitVec.toNat_add, half]
      simp
      omega
    · rw [rowAfter, typeIdx]
      simp [row, rowOf]
      omega
  · rw [endAfter, placed.ended]
    have notLast : index + 1 ≠ image.blockCount := by
      intro last
      have ends := (last_block_iff (by rw [← count]; exact inImage)).mp
        (by rw [← count]; exact last)
      omega
    simp [notLast]

/-- A block that is not the last of its MCU is not the last of the image. -/
theorem not_last_block
    (inImage : index < image.blockCount)
    (inMcu : index % mcuBlocks image.mode + 1 ≠ mcuBlocks image.mode) :
    index + 1 ≠ image.blockCount := by
  intro last
  exact inMcu ((last_block_iff inImage).mp last).1

/-- Beginning a chrominance block of a subsampled image. -/
theorem Placed.begin_chroma
    (placed : Placed image index false s)
    (pins : ImagePins image i)
    (subsampled : image.mode = .ycbcr420)
    (inImage : index < image.blockCount)
    (atBlock : s.AtBlock image.mode index)
    (chroma : 4 ≤ index % 6)
    (begins : i.startOfBlock = true)
    (noEnd : i.endOfBlock = false)
    (decided : EndsInLastRow image s i) :
    Placed image index true (s.step i) := by
  obtain ⟨width, height, count⟩ := subsampled_sides subsampled
  have widthSmall := image.width.isLt
  obtain ⟨column, row⟩ := placed.chroma subsampled (by omega)
  have columnSmall := Nat.mod_lt (index / 6) image.columns_pos
  have same : lumaBegun index true = lumaBegun index false := by
    simp [lumaBegun]
    omega
  have openBefore : s.endOfImageQ = false := by
    rw [← Bool.not_eq_true, placed.ended]
    simp
    omega
  have kept :
      (s.step i).blockXQ = s.blockXQ ∧ (s.step i).blockYQ = s.blockYQ ∧
        (s.step i).xIdxQ = s.xIdxQ ∧ (s.step i).yIdxQ = s.yIdxQ ∧
        (s.step i).endOfImageQ =
          (s.blockTypeQ == .cr && i.imgEnd && s.lastInRow i) := by
    have typed := atBlock.typed
    rw [subsampled] at typed
    rcases Nat.lt_or_ge 4 (index % 6) with last | notLast
    · have kind : s.blockTypeQ = .cr := by
        rw [typed]
        simp [componentOrder, show ¬ index % 6 < 4 by omega,
          show ¬ index % 6 = 4 by omega, BlockType.ofComponent]
      simp [IdState.step, pins.running, IdState.endsPosition, noEnd, begins,
        pins.modeKept, subsampled, kind, openBefore]
    · have kind : s.blockTypeQ = .cb := by
        rw [typed]
        simp [componentOrder, show index % 6 = 4 by omega,
          BlockType.ofComponent]
      simp [IdState.step, pins.running, IdState.endsPosition, noEnd, begins,
        pins.modeKept, subsampled, kind, openBefore]
  obtain ⟨columnKept, rowKept, xKept, yKept, endAfter⟩ := kept
  refine ⟨fun full => absurd subsampled full,
    fun full => absurd subsampled full, ?_, ?_, ?_, ?_⟩
  · rw [xKept, same]
    exact placed.lumaColumn
  · rw [yKept, same]
    exact placed.lumaRow
  · rw [columnKept, rowKept]
    exact fun _ _ => ⟨column, row⟩
  · have rowEnd := lastInRow_iff pins (s := s) (by omega)
    have last := last_block_iff (count ▸ inImage)
    rw [← count] at last
    have kind : s.blockTypeQ = .cr ↔ index % 6 = 5 := by
      rw [atBlock.typed, subsampled]
      rcases Nat.lt_or_ge 4 (index % 6) with five | four
      · simp [componentOrder, show ¬ index % 6 < 4 by omega,
          show ¬ index % 6 = 4 by omega, BlockType.ofComponent]
        omega
      · simp [componentOrder, show index % 6 = 4 by omega,
          BlockType.ofComponent]
    rw [endAfter]
    simp only [Bool.and_eq_true, beq_iff_eq]
    constructor
    · rintro ⟨⟨atCr, ends⟩, atEnd⟩
      have deciding : s.decides i = true := by
        simp [IdState.decides, begins, pins.modeKept, subsampled, atCr, atEnd]
      have lastRow := (decided deciding).mp ends
      have columnEnd := rowEnd.mp atEnd
      exact .inr ⟨subsampled, trivial,
        last.mpr ⟨by rw [kind.mp atCr], by omega, by omega⟩⟩
    · rintro (past | ⟨-, -, ends⟩)
      · omega
      · obtain ⟨inMcu, inColumn, inRow⟩ := last.mp ends
        have atCr := kind.mpr (by omega)
        have atEnd : s.lastInRow i = true := rowEnd.mpr (by omega)
        have deciding : s.decides i = true := by
          simp [IdState.decides, begins, pins.modeKept, subsampled, atCr,
            atEnd]
        exact ⟨⟨atCr, (decided deciding).mpr (by omega)⟩, atEnd⟩

/-- Beginning a block of the image. -/
theorem Placed.begin_
    (placed : Placed image index false s)
    (pins : ImagePins image i)
    (inImage : index < image.blockCount)
    (atBlock : s.AtBlock image.mode index)
    (begins : i.startOfBlock = true)
    (noEnd : i.endOfBlock = false)
    (decided : EndsInLastRow image s i) :
    Placed image index true (s.step i) := by
  by_cases subsampled : image.mode = .ycbcr420
  · rcases Nat.lt_or_ge (index % 6) 4 with luma | chroma
    · exact placed.begin_luma pins subsampled inImage atBlock luma begins
        noEnd
    · exact placed.begin_chroma pins subsampled inImage atBlock chroma begins
        noEnd decided
  · exact placed.begin_full pins subsampled noEnd

/-- Ending a block of a subsampled image moves no counter. -/
theorem Placed.end_subsampled
    (placed : Placed image index true s)
    (pins : ImagePins image i)
    (subsampled : image.mode = .ycbcr420)
    (inImage : index < image.blockCount)
    (noBegin : i.startOfBlock = false) :
    Placed image (index + 1) false (s.step i) := by
  have kept :=
    placed.kept pins
      (by simp [IdState.endsPosition, pins.modeKept, subsampled])
      (by simp [noBegin])
  have same : lumaBegun (index + 1) false = lumaBegun index true := by
    simp [lumaBegun]
    omega
  refine ⟨fun full => absurd subsampled full,
    fun full => absurd subsampled full, ?_, ?_, ?_, ?_⟩
  · rw [same]
    exact kept.lumaColumn
  · rw [same]
    exact kept.lumaRow
  · intro _ many
    simp only [Bool.toNat_false, Nat.add_zero] at many
    have within : (index + 1) / 6 = index / 6 := by
      omega
    rw [within]
    exact kept.chroma subsampled (by simp; omega)
  · rw [kept.ended]
    simp [subsampled]
    omega

/-- Ending a block where no chroma is subsampled. -/
theorem Placed.end_full
    (placed : Placed image index true s)
    (pins : ImagePins image i)
    (full : image.mode ≠ .ycbcr420)
    (inImage : index < image.blockCount)
    (atBlock : s.AtBlock image.mode index)
    (ends : i.endOfBlock = true)
    (noBegin : i.startOfBlock = false)
    (decided : EndsInLastRow image s i) :
    Placed image (index + 1) false (s.step i) := by
  have supported := image.supported
  have side : mcuSize image.mode = 8 := by
    cases mode : image.mode <;> simp_all [mcuSize]
  have width := image.columns_eq
  have height := image.rows_eq
  rw [side] at width height
  have widthSmall := image.width.isLt
  have column := placed.column full
  have row := placed.row full
  have columnsPositive := image.columns_pos
  have blocksPositive : 0 < mcuBlocks image.mode := by
    cases image.mode <;> simp [mcuBlocks]
  have columnSmall :=
    Nat.mod_lt (index / mcuBlocks image.mode) columnsPositive
  have openBefore : s.endOfImageQ = false := by
    rw [← Bool.not_eq_true, placed.ended]
    simp [full]
    omega
  have position :
      s.endsPosition i =
        decide (index % mcuBlocks image.mode + 1 = mcuBlocks image.mode) := by
    have typed := atBlock.typed
    cases mode : image.mode with
    | monochrome =>
        simp [IdState.endsPosition, ends, pins.modeKept, mode, mcuBlocks]
        omega
    | ycbcr444 =>
        rw [mode] at typed
        have third : index % 3 = 0 ∨ index % 3 = 1 ∨ index % 3 = 2 := by
          omega
        rcases third with here | here | here <;>
          simp [IdState.endsPosition, ends, pins.modeKept, mode, mcuBlocks,
            typed, componentOrder, here, BlockType.ofComponent]
    | ycbcr420 => exact absurd mode full
    | unsupported => exact absurd mode supported
  have rowSmall :
      index / mcuBlocks image.mode / image.columns < image.rows := by
    rw [Nat.div_lt_iff_lt_mul columnsPositive,
      Nat.div_lt_iff_lt_mul blocksPositive, Nat.mul_comm image.rows]
    exact inImage
  have heightSmall := image.height.isLt
  by_cases mcuEnd :
      index % mcuBlocks image.mode + 1 = mcuBlocks image.mode
  · have ended : s.endsPosition i = true := by
      rw [position]
      simpa using mcuEnd
    have counted := count_wrap blocksPositive mcuEnd
    have rowEnd := lastInRow_iff pins (s := s) (by omega)
    have last := last_block_iff inImage
    rw [← blockCount_eq] at last
    have stepped :
        (s.step i).blockXQ =
            (if s.lastInRow i then 0#16 else s.blockXNext) ∧
          (s.step i).blockYQ =
            (if s.lastInRow i then s.blockYQ + 1#16 else s.blockYQ) ∧
          (s.step i).endOfImageQ = (i.imgEnd && s.lastInRow i) := by
      simp [IdState.step, pins.running, ended, openBefore]
    obtain ⟨columnAfter, rowAfter, endAfter⟩ := stepped
    have columnNext : (s.blockXNext).toNat = s.blockXQ.toNat + 1 := by
      simp [IdState.blockXNext]
      omega
    refine ⟨?_, ?_, fun subsampled => absurd subsampled full,
      fun subsampled => absurd subsampled full,
      fun subsampled => absurd subsampled full, ?_⟩
    · intro _
      rw [columnAfter, counted.1]
      cases atEnd : s.lastInRow i with
      | true =>
          have columnEnd := rowEnd.mp atEnd
          rw [(count_wrap columnsPositive (by omega)).2]
          rfl
      | false =>
          have notEnd : ¬ (s.blockXQ.toNat + 1 = image.width.toNat / 8) := by
            rw [← rowEnd, atEnd]
            simp
          rw [(count_within (by omega)).2, ← column]
          exact columnNext
    · intro _
      rw [rowAfter, counted.1]
      cases atEnd : s.lastInRow i with
      | true =>
          have columnEnd := rowEnd.mp atEnd
          rw [(count_wrap columnsPositive (by omega)).1]
          simp
          omega
      | false =>
          have notEnd : ¬ (s.blockXQ.toNat + 1 = image.width.toNat / 8) := by
            rw [← rowEnd, atEnd]
            simp
          rw [(count_within (by omega)).1, ← row]
          rfl
    · rw [endAfter, Bool.and_eq_true]
      constructor
      · rintro ⟨imgEnds, atEnd⟩
        have deciding : s.decides i = true := by
          simp [IdState.decides, ended, atEnd]
        have lastRow := (decided deciding).mp imgEnds
        have columnEnd := rowEnd.mp atEnd
        exact .inl (last.mpr ⟨mcuEnd, by omega, by omega⟩)
      · rintro (final | ⟨subsampled, -⟩)
        · obtain ⟨-, inColumn, inRow⟩ := last.mp final
          have atEnd : s.lastInRow i = true := rowEnd.mpr (by omega)
          have deciding : s.decides i = true := by
            simp [IdState.decides, ended, atEnd]
          exact ⟨(decided deciding).mpr (by omega), atEnd⟩
        · exact absurd subsampled full
  · have notEnded : s.endsPosition i = false := by
      rw [position]
      simpa using mcuEnd
    have kept := placed.kept pins notEnded (by simp [noBegin])
    have inMcu := Nat.mod_lt index blocksPositive
    have counted :=
      @count_within index (mcuBlocks image.mode) (by omega)
    refine ⟨?_, ?_, fun subsampled => absurd subsampled full,
      fun subsampled => absurd subsampled full,
      fun subsampled => absurd subsampled full, ?_⟩
    · rw [counted.1]
      exact kept.column
    · rw [counted.1]
      exact kept.row
    · have notLast := not_last_block inImage mcuEnd
      rw [kept.ended]
      simp [full, notLast]
      omega

end Counters

end CoreJpeg.McuProc
