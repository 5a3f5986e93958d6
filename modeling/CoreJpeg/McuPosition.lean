import CoreJpeg.McuImage

namespace CoreJpeg.McuProc

open Clocked EntropyCode

/-!
# The number and the place of a block

While `img_end_i` is low the decoder goes on from block to block, and
`jpeg_mcu_id` names each of them by component, row and column.  Its column
counters wrap at limits derived from the width in 16 bits.  This module says
which period they really have, which id the n-th block gets, and for which
images that is the id the scan order prescribes.
-/

/-! ## Counters that wrap at a limit -/

/-- The number of values of a counter that wraps when it reaches a limit. -/
def period (limit : BitVec 16) : Nat := (limit - 1).toNat + 1

/-- A positive limit is its own period. -/
theorem period_of_pos
    {limit : BitVec 16}
    (positive : 0 < limit.toNat) :
    period limit = limit.toNat := by
  have one : (1 : BitVec 16) ≤ limit := by
    rw [BitVec.le_def]
    exact positive
  rw [period, BitVec.toNat_sub_of_le one]
  exact Nat.sub_add_cancel positive

/-- The counter holds a count modulo its period, and each wrap is a turn. -/
theorem counter_next
    {column limit : BitVec 16} {count : Nat}
    (here : column.toNat = count % period limit) :
    (if column + 1 == limit then 0 else column + 1).toNat =
        (count + 1) % period limit ∧
      (count + 1) / period limit =
        count / period limit + (column + 1 == limit).toNat := by
  have positive : 0 < period limit := Nat.succ_pos _
  by_cases last : column + 1 = limit
  · have top : count % period limit + 1 = period limit := by
      rw [← here, period, ← last, BitVec.add_sub_cancel]
    have wrapped := count_wrap positive top
    have reached : (column + 1 == limit) = true := by
      simpa using last
    rw [reached, wrapped.1, wrapped.2]
    exact ⟨rfl, rfl⟩
  · have notTop : count % period limit + 1 ≠ period limit := by
      intro top
      rw [← here, period] at top
      apply last
      rw [BitVec.eq_of_toNat_eq (Nat.succ_injective top),
        BitVec.sub_add_cancel]
    have inTurn := Nat.mod_lt count positive
    have within := count_within
      (Nat.lt_of_le_of_ne (Nat.succ_le_of_lt inTurn) notTop)
    have small : column.toNat + 1 < 2 ^ 16 := by
      have most : period limit ≤ 2 ^ 16 := (limit - 1).isLt
      rw [here]
      exact Nat.lt_of_lt_of_le
        (Nat.lt_of_le_of_ne (Nat.succ_le_of_lt inTurn) notTop) most
    have next : (column + 1).toNat = column.toNat + 1 := by
      rw [BitVec.toNat_add]
      exact Nat.mod_eq_of_lt small
    have other : (column + 1 == limit) = false := by
      simpa using last
    rw [other, within.1, within.2, ← here]
    exact ⟨next, rfl⟩

/-! ## The scan order -/

/-- The MCUs of a row. -/
def mcuColumns (mode : ImageMode) (width : BitVec 16) : Nat :=
  units width.toNat (mcuSize mode)

/-- The blocks of a scan. -/
def scanBlocks (mode : ImageMode) (width height : BitVec 16) : Nat :=
  mcuColumns mode width * units height.toNat (mcuSize mode) *
    mcuBlocks mode

/-- The id of a block: component, row modulo 2^14 and column. -/
def idOf (component : Component) (row column : Nat) : BitVec 32 :=
  (BlockType.ofComponent component).code ++ BitVec.ofNat 14 row ++
    BitVec.ofNat 16 column

/--
The id baseline prescribes for a block of a scan; the place of a subsampled
chrominance block is left open.
-/
def Prescribed (mode : ImageMode) (width : BitVec 16) (index : Nat)
    (id : BitVec 32) : Prop :=
  let mcu := index / mcuBlocks mode
  let columns := mcuColumns mode width
  let component := componentOrder mode index
  if mode = .ycbcr420 then
    if index % 6 < 4 then
      id = idOf component (2 * (mcu / columns) + index % 6 / 2)
        (2 * (mcu % columns) + index % 6 % 2)
    else id.extractLsb' 30 2 = (BlockType.ofComponent component).code
  else id = idOf component (mcu / columns) (mcu % columns)

instance (mode : ImageMode) (width : BitVec 16) (index : Nat)
    (id : BitVec 32) : Decidable (Prescribed mode width index id) := by
  unfold Prescribed
  infer_instance

/-! ## The decoder with its block number -/

/-- The decoder and the number of blocks it has ended. -/
structure Numbered where
  decoder : State
  index : Nat

namespace Numbered

/-- One clock edge. -/
def step (numbered : Numbered) (i : Input) : Numbered where
  decoder := McuProc.step numbered.decoder i
  index := numbered.index + (nextBlock numbered.decoder).toNat

/-- The pins of one image while `img_end_i` is low. -/
structure ScanPins (mode : ImageMode) (width : BitVec 16) (i : Input) :
    Prop where
  rst : i.rst = false
  imgStart : i.imgStart = false
  imgEnd : i.imgEnd = false
  imgMode : i.imgMode = mode
  imgWidth : i.imgWidth = width

/-- The block being decoded shows the id prescribed for its number. -/
def ShowsPrescribed (mode : ImageMode) (width height : BitVec 16)
    (numbered : Numbered) : Prop :=
  numbered.decoder.stateQ ≠ .idle →
    numbered.index < scanBlocks mode width height →
      Prescribed mode width numbered.index (outportId numbered.decoder)

instance (mode : ImageMode) (width height : BitVec 16)
    (numbered : Numbered) :
    Decidable (ShowsPrescribed mode width height numbered) := by
  unfold ShowsPrescribed
  infer_instance

end Numbered

/--
In every run of one image in which `img_end_i` is low, every block of the scan
shows the prescribed id while it is decoded.
-/
def IdsFollowScan (mode : ImageMode) (width height : BitVec 16) : Prop :=
  ∀ (s : State) (cycles : List Input),
    s.id = .reset →
    s.stateQ = .idle →
    Clocked.Along Numbered.step
      (fun _ i => Numbered.ScanPins mode width i) ⟨s, 0⟩ cycles →
    Numbered.ShowsPrescribed mode width height
      (Clocked.run Numbered.step ⟨s, 0⟩ cycles)

/-- The registers of `jpeg_mcu_id` at a block, whatever the width. -/
structure Counted (mode : ImageMode) (width : BitVec 16) (index : Nat)
    (begun : Bool) (s : IdState) : Prop extends s.AtBlock mode index where
  column :
    mode ≠ .ycbcr420 →
      s.blockXQ.toNat =
        index / mcuBlocks mode % period (IdState.blockXMax width)
  row :
    mode ≠ .ycbcr420 →
      s.blockYQ = BitVec.ofNat 16
        (index / mcuBlocks mode / period (IdState.blockXMax width))
  lumaColumn :
    mode = .ycbcr420 →
      s.xIdxQ.toNat =
        lumaBegun index begun % period (IdState.imgWDiv4 width)
  lumaRow :
    mode = .ycbcr420 →
      s.yIdxQ = BitVec.ofNat 16
        (2 * (lumaBegun index begun / period (IdState.imgWDiv4 width)))
  luma :
    mode = .ycbcr420 → begun = true → index % 6 < 4 →
      s.blockXQ.toNat =
          2 * (lumaBegun index false % period (IdState.imgWDiv4 width) / 4) +
            index % 6 % 2 ∧
        s.blockYQ = BitVec.ofNat 16
          (2 * (lumaBegun index false / period (IdState.imgWDiv4 width)) +
            index % 6 / 2)
  imageOpen : s.endOfImageQ = false

/-- The pins of `jpeg_mcu_id` in one image while `img_end_i` is low. -/
structure IdPins (mode : ImageMode) (width : BitVec 16) (i : IdInput) :
    Prop where
  running : (i.rst || i.imgStart) = false
  imgEnd : i.imgEnd = false
  modeKept : i.imgMode = mode
  widthKept : i.imgWidth = width

section Cycle

variable {mode : ImageMode} {width : BitVec 16} {index : Nat}
variable {begun : Bool} {s : IdState} {i : IdInput}

/-- The counters after `rst_i` or `img_start_i`. -/
theorem reset_counted (mode : ImageMode) (width : BitVec 16) :
    Counted mode width 0 false .reset where
  toAtBlock := IdState.reset_atBlock mode
  column := by simp [IdState.reset]
  row := by simp [IdState.reset]
  lumaColumn := by simp [IdState.reset, lumaBegun]
  lumaRow := by simp [IdState.reset, lumaBegun]
  luma := by simp
  imageOpen := rfl

/-- Where neither a position ends nor a subsampled luma block begins. -/
theorem Counted.transfer
    (counted : Counted mode width index begun s)
    (pins : IdPins mode width i)
    (noPosition : s.endsPosition i = false)
    (noLuma :
      (i.startOfBlock && i.imgMode == .ycbcr420 &&
        s.blockTypeQ == .y) = false) :
    (s.step i).blockXQ = s.blockXQ ∧ (s.step i).blockYQ = s.blockYQ ∧
      (s.step i).xIdxQ = s.xIdxQ ∧ (s.step i).yIdxQ = s.yIdxQ ∧
      (s.step i).endOfImageQ = false := by
  have stillOpen := counted.imageOpen
  unfold IdState.step
  rw [pins.running, noPosition, noLuma]
  simp only [Bool.false_eq_true, if_false]
  split <;> simp [pins.imgEnd, stillOpen]

/-- A cycle that neither begins nor ends a block changes nothing. -/
theorem Counted.keep
    (counted : Counted mode width index begun s)
    (pins : IdPins mode width i)
    (noBegin : i.startOfBlock = false)
    (noEnd : i.endOfBlock = false) :
    Counted mode width index begun (s.step i) := by
  obtain ⟨column, row, lumaColumn, lumaRow, stillOpen⟩ :=
    counted.transfer pins (by simp [IdState.endsPosition, noEnd])
      (by simp [noBegin])
  refine ⟨counted.toAtBlock.keep pins.running pins.modeKept noEnd
    (by simp [noBegin]), ?_, ?_, ?_, ?_, ?_, stillOpen⟩
  · rw [column]
    exact counted.column
  · rw [row]
    exact counted.row
  · rw [lumaColumn]
    exact counted.lumaColumn
  · rw [lumaRow]
    exact counted.lumaRow
  · rw [column, row]
    exact counted.luma

/-- Beginning a block counts it if it is a subsampled luma block. -/
theorem lumaBegun_luma
    (luma : index % 6 < 4) :
    lumaBegun index false = 4 * (index / 6) + index % 6 ∧
      lumaBegun index true = lumaBegun index false + 1 := by
  constructor <;> simp [lumaBegun] <;> omega

/-- Beginning another block than a subsampled luma block. -/
theorem Counted.begin_other
    (counted : Counted mode width index false s)
    (pins : IdPins mode width i)
    (noEnd : i.endOfBlock = false)
    (other : mode = .ycbcr420 → 4 ≤ index % 6) :
    Counted mode width index true (s.step i) := by
  have noLuma : (i.startOfBlock && i.imgMode == .ycbcr420 &&
      s.blockTypeQ == .y) = false := by
    by_cases subsampled : mode = .ycbcr420
    · have chroma := other subsampled
      have kind : s.blockTypeQ ≠ .y := by
        rw [counted.typed, subsampled]
        simp only [componentOrder]
        split_ifs with luma second
        · omega
        · exact fun same => BlockType.noConfusion same
        · exact fun same => BlockType.noConfusion same
      simp [kind]
    · simp [pins.modeKept, subsampled]
  obtain ⟨column, row, lumaColumn, lumaRow, stillOpen⟩ :=
    counted.transfer pins (by simp [IdState.endsPosition, noEnd]) noLuma
  have same : mode = .ycbcr420 →
      lumaBegun index true = lumaBegun index false := by
    intro subsampled
    have chroma := other subsampled
    simp [lumaBegun]
    omega
  refine ⟨counted.toAtBlock.keep pins.running pins.modeKept noEnd
    (by simp [counted.imageOpen]), ?_, ?_, ?_, ?_, ?_, stillOpen⟩
  · rw [column]
    exact counted.column
  · rw [row]
    exact counted.row
  · intro subsampled
    rw [lumaColumn, same subsampled]
    exact counted.lumaColumn subsampled
  · intro subsampled
    rw [lumaRow, same subsampled]
    exact counted.lumaRow subsampled
  · intro subsampled _ luma
    have chroma := other subsampled
    omega

/-- Beginning a subsampled luma block places it and counts it. -/
theorem Counted.begin_luma
    (counted : Counted mode width index false s)
    (pins : IdPins mode width i)
    (begins : i.startOfBlock = true)
    (noEnd : i.endOfBlock = false)
    (subsampled : mode = .ycbcr420)
    (luma : index % 6 < 4) :
    Counted mode width index true (s.step i) := by
  have kind : s.blockTypeQ = .y := by
    rw [counted.typed, subsampled]
    simp [componentOrder, luma, BlockType.ofComponent]
  have place : s.typeIdxQ.toNat = index % 6 := counted.indexed subsampled
  have early : s.typeIdxQ < 4#3 := by
    change s.typeIdxQ.toNat < 4
    omega
  have column := counted.lumaColumn subsampled
  have row := counted.lumaRow subsampled
  have after := (lumaBegun_luma luma).2
  obtain ⟨columnNext, turns⟩ := counter_next column
  have stepped :
      (s.step i).xIdxQ =
          (if s.xIdxQ + 1 == IdState.imgWDiv4 width then 0
            else s.xIdxQ + 1) ∧
        (s.step i).yIdxQ =
          (if s.xIdxQ + 1 == IdState.imgWDiv4 width then s.yIdxQ + 2
            else s.yIdxQ) ∧
        (s.step i).blockXQ =
          (s.xIdxQ &&& 65532#16) / 2#16 +
            (if s.typeIdxQ.getLsbD 0 then 1#16 else 0#16) ∧
        (s.step i).blockYQ =
          s.yIdxQ + (if s.typeIdxQ.getLsbD 1 then 1#16 else 0#16) ∧
        (s.step i).endOfImageQ = false := by
    simp [IdState.step, pins.running, IdState.endsPosition, noEnd, begins,
      pins.modeKept, pins.widthKept, subsampled, kind, early,
      counted.imageOpen]
  obtain ⟨xAfter, yAfter, columnAfter, rowAfter, openAfter⟩ := stepped
  -- The two bits of the index in the MCU are its column and its row.
  have bits :
      (if s.typeIdxQ.getLsbD 0 then 1#16 else 0#16).toNat =
          index % 6 % 2 ∧
        (if s.typeIdxQ.getLsbD 1 then 1#16 else 0#16) =
          BitVec.ofNat 16 (index % 6 / 2) := by
    have value : s.typeIdxQ = BitVec.ofNat 3 (index % 6) := by
      rw [← place, BitVec.ofNat_toNat, BitVec.setWidth_eq]
    rw [value]
    generalize index % 6 = inMcu at luma
    interval_cases inMcu <;> decide
  have small := column ▸ s.xIdxQ.isLt
  refine ⟨counted.toAtBlock.keep pins.running pins.modeKept noEnd
    (by simp [counted.imageOpen]), fun full => absurd subsampled full,
    fun full => absurd subsampled full, ?_, ?_, ?_, openAfter⟩
  · intro _
    rw [xAfter, after, columnNext]
  · intro _
    rw [yAfter, after, turns, row]
    cases s.xIdxQ + 1 == IdState.imgWDiv4 width with
    | false => simp
    | true =>
        rw [Bool.toNat_true, Nat.mul_add, BitVec.ofNat_add]
        rfl
  · intro _ _ _
    constructor
    · have half : ((s.xIdxQ &&& 65532#16) / 2#16).toNat =
          2 * (lumaBegun index false %
            period (IdState.imgWDiv4 width) / 4) := by
        rw [BitVec.toNat_udiv, toNat_and_mask, column]
        simp
        omega
      rw [columnAfter, BitVec.toNat_add, half, bits.1]
      omega
    · rw [rowAfter, row, bits.2, ← BitVec.ofNat_add]

/-- Ending a block that is not the last component of its position. -/
theorem Counted.end_kept
    (counted : Counted mode width index true s)
    (pins : IdPins mode width i)
    (supported : mode ≠ .unsupported)
    (ends : i.endOfBlock = true)
    (noBegin : i.startOfBlock = false)
    (inside :
      mode ≠ .ycbcr420 →
        index % mcuBlocks mode + 1 < mcuBlocks mode) :
    Counted mode width (index + 1) false (s.step i) := by
  have noPosition : s.endsPosition i = false := by
    have typed := counted.typed
    cases mode with
    | monochrome => simp [mcuBlocks] at inside
    | unsupported => exact absurd rfl supported
    | ycbcr420 => simp [IdState.endsPosition, pins.modeKept]
    | ycbcr444 =>
        have early : index % 3 + 1 < 3 := inside (by decide)
        have kind : s.blockTypeQ ≠ .cr := by
          rw [typed]
          simp only [componentOrder]
          split_ifs
          · exact fun same => BlockType.noConfusion same
          · exact fun same => BlockType.noConfusion same
          · omega
        simp [IdState.endsPosition, pins.modeKept, kind]
  obtain ⟨column, row, lumaColumn, lumaRow, stillOpen⟩ :=
    counted.transfer pins noPosition (by simp [noBegin])
  have same : lumaBegun (index + 1) false = lumaBegun index true := by
    simp [lumaBegun]
    omega
  refine ⟨counted.toAtBlock.next supported pins.running pins.modeKept ends
    noBegin, ?_, ?_, ?_, ?_, fun _ begun _ => Bool.noConfusion begun,
    stillOpen⟩
  · intro full
    rw [column, (count_within (inside full)).1]
    exact counted.column full
  · intro full
    rw [row, (count_within (inside full)).1]
    exact counted.row full
  · rw [lumaColumn, same]
    exact counted.lumaColumn
  · rw [lumaRow, same]
    exact counted.lumaRow

/-- Ending the last component of a position moves to the next position. -/
theorem Counted.end_position
    (counted : Counted mode width index true s)
    (pins : IdPins mode width i)
    (supported : mode ≠ .unsupported)
    (ends : i.endOfBlock = true)
    (noBegin : i.startOfBlock = false)
    (full : mode ≠ .ycbcr420)
    (last : index % mcuBlocks mode + 1 = mcuBlocks mode) :
    Counted mode width (index + 1) false (s.step i) := by
  have position : s.endsPosition i = true := by
    have typed := counted.typed
    cases mode with
    | monochrome => simp [IdState.endsPosition, pins.modeKept, ends]
    | unsupported => exact absurd rfl supported
    | ycbcr420 => exact absurd rfl full
    | ycbcr444 =>
        have third : index % 3 + 1 = 3 := last
        have kind : s.blockTypeQ = .cr := by
          rw [typed]
          simp only [componentOrder]
          split_ifs
          · omega
          · omega
          · rfl
        simp [IdState.endsPosition, pins.modeKept, ends, kind]
  have column := counted.column full
  have row := counted.row full
  obtain ⟨columnNext, turns⟩ := counter_next column
  have moved :=
    (count_wrap (by rw [← last]; exact Nat.succ_pos _) last).1
  have stepped :
      (s.step i).blockXQ =
          (if s.blockXQ + 1 == IdState.blockXMax width then 0
            else s.blockXQ + 1) ∧
        (s.step i).blockYQ =
          (if s.blockXQ + 1 == IdState.blockXMax width then s.blockYQ + 1
            else s.blockYQ) ∧
        (s.step i).endOfImageQ = false := by
    simp [IdState.step, pins.running, position, pins.widthKept,
      IdState.lastInRow, IdState.blockXNext, pins.imgEnd, counted.imageOpen]
  obtain ⟨columnAfter, rowAfter, openAfter⟩ := stepped
  refine ⟨counted.toAtBlock.next supported pins.running pins.modeKept ends
    noBegin, fun _ => ?_, fun _ => ?_, fun subsampled => absurd subsampled full,
    fun subsampled => absurd subsampled full,
    fun subsampled => absurd subsampled full, openAfter⟩
  · rw [columnAfter, moved, columnNext]
  · rw [rowAfter, moved, turns, row]
    cases s.blockXQ + 1 == IdState.blockXMax width with
    | false => simp
    | true =>
        rw [Bool.toNat_true, BitVec.ofNat_add]
        rfl

end Cycle

/-! ## The decoder -/

/-- The decoder is between blocks or in the block with its number. -/
structure InScan (mode : ImageMode) (width : BitVec 16)
    (numbered : Numbered) : Prop where
  counted :
    Counted mode width numbered.index
      (numbered.decoder.stateQ != .idle) numbered.decoder.id
  notEnded : numbered.decoder.stateQ ≠ .eof

section Decoder

variable {mode : ImageMode} {width : BitVec 16} {numbered : Numbered}
variable {i : Input}

/-- The pins of `u_id` in a scan. -/
theorem idPins_of_scan
    (pins : Numbered.ScanPins mode width i)
    (s : State) :
    IdPins mode width (idInput s i) where
  running := by simp [idInput, pins.rst, pins.imgStart]
  imgEnd := pins.imgEnd
  modeKept := pins.imgMode
  widthKept := pins.imgWidth

/-- One cycle of the scan. -/
theorem InScan.step
    (known : InScan mode width numbered)
    (supported : mode ≠ .unsupported)
    (pins : Numbered.ScanPins mode width i) :
    InScan mode width (numbered.step i) := by
  have idPins := idPins_of_scan pins numbered.decoder
  have decoder : (numbered.step i).decoder =
      McuProc.step numbered.decoder i := rfl
  have id : (McuProc.step numbered.decoder i).id =
      numbered.decoder.id.step (idInput numbered.decoder i) := by
    simp [McuProc.step, pins.rst]
  have state : (McuProc.step numbered.decoder i).stateQ =
      nextStateR numbered.decoder i := by
    simp [McuProc.step, pins.rst]
  have counted := known.counted
  cases fsm : numbered.decoder.stateQ with
  | eof => exact absurd fsm known.notEnded
  | idle =>
      have index : (numbered.step i).index = numbered.index := by
        simp [Numbered.step, nextBlock, fsm]
      have noEnd : (idInput numbered.decoder i).endOfBlock = false := by
        simp [idInput, nextBlock, fsm]
      have next : nextStateR numbered.decoder i = .idle ∨
          nextStateR numbered.decoder i = .fetchWord := by
        simp only [nextStateR, pins.imgStart, fsm, counted.imageOpen,
          Bool.false_and, Bool.false_eq_true, if_false]
        split <;> simp
      rw [fsm] at counted
      rcases next with waits | begins
      · have noBegin :
            (idInput numbered.decoder i).startOfBlock = false := by
          simp [idInput, startBlock, waits]
        refine ⟨?_, ?_⟩
        · rw [decoder, index, id, state, waits]
          exact counted.keep idPins noBegin noEnd
        · rw [decoder, state, waits]
          exact fun same => FsmState.noConfusion same
      · have begin_ :
            (idInput numbered.decoder i).startOfBlock = true := by
          simp [idInput, startBlock, fsm, begins]
        refine ⟨?_, ?_⟩
        · rw [decoder, index, id, state, begins]
          by_cases luma :
              mode = .ycbcr420 ∧ numbered.index % 6 < 4
          · exact counted.begin_luma idPins begin_ noEnd luma.1 luma.2
          · refine counted.begin_other idPins noEnd fun subsampled => ?_
            exact Nat.le_of_not_lt fun small => luma ⟨subsampled, small⟩
        · rw [decoder, state, begins]
          exact fun same => FsmState.noConfusion same
  | eob =>
      have index : (numbered.step i).index = numbered.index + 1 := by
        simp [Numbered.step, nextBlock, fsm]
      have ends : (idInput numbered.decoder i).endOfBlock = true := by
        simp [idInput, nextBlock, fsm]
      have noBegin : (idInput numbered.decoder i).startOfBlock = false := by
        simp [idInput, startBlock, fsm]
      have next : nextStateR numbered.decoder i = .idle := by
        simp [nextStateR, fsm]
      rw [fsm] at counted
      refine ⟨?_, ?_⟩
      · rw [decoder, index, id, state, next]
        by_cases last : mode ≠ .ycbcr420 ∧
            numbered.index % mcuBlocks mode + 1 = mcuBlocks mode
        · exact counted.end_position idPins supported ends noBegin last.1
            last.2
        · refine counted.end_kept idPins supported ends noBegin fun full => ?_
          have positive : 0 < mcuBlocks mode := by
            cases mode <;> decide
          have small := Nat.mod_lt numbered.index positive
          exact Nat.lt_of_le_of_ne (Nat.succ_le_of_lt small)
            fun same => last ⟨full, same⟩
      · rw [decoder, state, next]
        exact fun same => FsmState.noConfusion same
  | fetchWord | huffLookup | output =>
      have index : (numbered.step i).index = numbered.index := by
        simp [Numbered.step, nextBlock, fsm]
      have noEnd : (idInput numbered.decoder i).endOfBlock = false := by
        simp [idInput, nextBlock, fsm]
      have noBegin : (idInput numbered.decoder i).startOfBlock = false := by
        simp [idInput, startBlock, fsm]
      have next : nextStateR numbered.decoder i ≠ .idle ∧
          nextStateR numbered.decoder i ≠ .eof := by
        simp only [nextStateR, pins.imgStart, fsm, Bool.false_eq_true,
          if_false]
        repeat' split
        all_goals simp
      have busy : (nextStateR numbered.decoder i != .idle) = true := by
        simpa using next.1
      rw [fsm] at counted
      refine ⟨?_, ?_⟩
      · rw [decoder, index, id, state, busy]
        exact counted.keep idPins noBegin noEnd
      · rw [decoder, state]
        exact next.2

/-- The number of a block gives its id. -/
theorem Counted.id_full
    {index : Nat} {begun : Bool} {s : IdState}
    (counted : Counted mode width index begun s)
    (full : mode ≠ .ycbcr420) :
    s.blockId =
      idOf (componentOrder mode index)
        (index / mcuBlocks mode / period (IdState.blockXMax width))
        (index / mcuBlocks mode % period (IdState.blockXMax width)) := by
  rw [IdState.blockId, idOf, counted.typed, counted.row full,
    BitVec.setWidth_ofNat_of_le (by decide), ← counted.column full,
    BitVec.ofNat_toNat, BitVec.setWidth_eq]

/-- The number of a subsampled luma block gives its id. -/
theorem Counted.id_luma
    {index : Nat} {s : IdState}
    (counted : Counted mode width index true s)
    (subsampled : mode = .ycbcr420)
    (luma : index % 6 < 4) :
    s.blockId =
      idOf .y
        (2 * ((4 * (index / 6) + index % 6) /
            period (IdState.imgWDiv4 width)) + index % 6 / 2)
        (2 * ((4 * (index / 6) + index % 6) %
            period (IdState.imgWDiv4 width) / 4) + index % 6 % 2) := by
  have kind : s.blockTypeQ = BlockType.ofComponent .y := by
    rw [counted.typed, subsampled]
    simp [componentOrder, luma]
  obtain ⟨column, row⟩ := counted.luma subsampled rfl luma
  rw [(lumaBegun_luma luma).1] at column row
  rw [IdState.blockId, idOf, kind, row,
    BitVec.setWidth_ofNat_of_le (by decide), ← column, BitVec.ofNat_toNat,
    BitVec.setWidth_eq]

end Decoder

/-! ## The images that are counted right -/

/--
The rounded width fits 16 bits or the image has one row of MCUs, and a
subsampled image has an even number of luma blocks in a row.
-/
def CountsRows (mode : ImageMode) (width height : BitVec 16) : Prop :=
  (width.toNat ≤ 65528 ∨ height.toNat ≤ mcuSize mode) ∧
    (mode = .ycbcr420 → units width.toNat 8 % 2 = 0)

instance (mode : ImageMode) (width height : BitVec 16) :
    Decidable (CountsRows mode width height) := by
  unfold CountsRows
  infer_instance

section Period

variable {width : BitVec 16}

/-- A width that rounds up within 16 bits gives its own periods. -/
theorem period_narrow
    (positive : 0 < width.toNat)
    (narrow : width.toNat ≤ 65528) :
    period (IdState.blockXMax width) = units width.toNat 8 ∧
      period (IdState.imgWDiv4 width) = 2 * units width.toNat 8 := by
  have columns : (IdState.blockXMax width).toNat = units width.toNat 8 := by
    simp [IdState.blockXMax, IdState.widthRnd, units]
    omega
  have quarters : (IdState.imgWDiv4 width).toNat =
      2 * units width.toNat 8 := by
    simp [IdState.imgWDiv4, IdState.widthRnd, units]
    omega
  have some : 0 < units width.toNat 8 := by
    simp only [units]
    omega
  refine ⟨?_, ?_⟩
  · rw [period_of_pos (by omega), columns]
  · rw [period_of_pos (by omega), quarters]

/-- A wider image has limits of zero, which no counter reaches early. -/
theorem period_wide
    (wide : 65528 < width.toNat) :
    period (IdState.blockXMax width) = 65536 ∧
      period (IdState.imgWDiv4 width) = 65536 ∧
      units width.toNat 8 = 8192 ∧ units width.toNat 16 = 4096 := by
  have small := width.isLt
  have rounded : IdState.widthRnd width = 0 := by
    apply BitVec.eq_of_toNat_eq
    simp [IdState.widthRnd]
    omega
  refine ⟨?_, ?_, ?_, ?_⟩
  · rw [IdState.blockXMax, rounded]
    rfl
  · rw [IdState.imgWDiv4, rounded]
    rfl
  · simp only [units]
    omega
  · simp only [units]
    omega

end Period

section Sufficient

variable {mode : ImageMode} {width height : BitVec 16} {index : Nat}
variable {s : IdState}

/-- A block of the scan belongs to an MCU of the scan. -/
theorem mcu_lt
    (inScan : index < scanBlocks mode width height) :
    index / mcuBlocks mode <
      mcuColumns mode width * units height.toNat (mcuSize mode) := by
  have positive : 0 < mcuBlocks mode := by
    cases mode <;> decide
  rw [Nat.div_lt_iff_lt_mul positive]
  exact inScan

/-- Images that are counted right get the prescribed ids. -/
theorem Counted.prescribed
    (counted : Counted mode width index true s)
    (widthPositive : 0 < width.toNat)
    (heightPositive : 0 < height.toNat)
    (counts : CountsRows mode width height)
    (inScan : index < scanBlocks mode width height) :
    Prescribed mode width index s.blockId := by
  have inRows := mcu_lt inScan
  have small := width.isLt
  by_cases subsampled : mode = .ycbcr420
  · by_cases luma : index % 6 < 4
    · have even := counts.2 subsampled
      have kind : componentOrder mode index = .y := by
        simp [componentOrder, subsampled, luma]
      have columns : mcuColumns mode width = units width.toNat 16 := by
        simp [mcuColumns, subsampled, mcuSize]
      have blocks : mcuBlocks mode = 6 := by
        simp [mcuBlocks, subsampled]
      simp only [Prescribed, if_pos subsampled, if_pos luma]
      rw [counted.id_luma subsampled luma, kind, columns, blocks]
      rw [columns, blocks] at inRows
      rcases Nat.lt_or_ge 65528 width.toNat with wide | narrow
      · obtain ⟨_, quarters, _, sixteenths⟩ := period_wide wide
        have oneRow : units height.toNat (mcuSize mode) = 1 :=
          units_low heightPositive (counts.1.resolve_left (by omega))
        rw [oneRow, sixteenths] at inRows
        rw [quarters, sixteenths]
        congr 1
        · omega
        · omega
      · have quarters := (period_narrow widthPositive narrow).2
        have double : 2 * units width.toNat 8 =
            4 * units width.toNat 16 := by
          simp only [units] at even ⊢
          omega
        have fourth : (4 * (index / 6) + index % 6) / 4 = index / 6 := by
          omega
        rw [quarters, double, Nat.mod_mul, ← Nat.div_div_eq_div_mul, fourth]
        congr 2
        omega
    · simp only [Prescribed, if_pos subsampled, if_neg luma]
      rw [IdState.blockId, ← counted.typed]
      exact code_of_id _ _ _
  · have blocks := counted.id_full subsampled
    have columns : mcuColumns mode width = units width.toNat 8 := by
      cases mode <;> simp_all [mcuColumns, mcuSize]
    simp only [Prescribed, if_neg subsampled]
    rw [blocks, columns]
    rw [columns] at inRows
    rcases Nat.lt_or_ge 65528 width.toNat with wide | narrow
    · obtain ⟨eighths, _, units8, _⟩ := period_wide wide
      have oneRow : units height.toNat (mcuSize mode) = 1 :=
        units_low heightPositive (counts.1.resolve_left (by omega))
      rw [oneRow, units8] at inRows
      rw [eighths, units8]
      generalize index / mcuBlocks mode = mcu at inRows ⊢
      rw [Nat.div_eq_of_lt (by omega), Nat.div_eq_of_lt (by omega),
        Nat.mod_eq_of_lt (by omega), Nat.mod_eq_of_lt (by omega)]
    · rw [(period_narrow widthPositive narrow).1]

end Sufficient

/-! ## A run that reaches every block -/

/-- A cycle in which nothing stalls and every lookup answers the code 0. -/
def promptInput (mode : ImageMode) (width : BitVec 16) : Input where
  rst := false
  imgStart := false
  imgEnd := false
  imgWidth := width
  imgMode := mode
  inportValid := true
  inportData := 0
  lookupValid := true
  lookupWidth := 2
  lookupValue := 0
  outportBlkSpace := true

section Reach

variable {mode : ImageMode} {width : BitVec 16} {numbered : Numbered}

/-- The pins of the prompt cycle are those of the scan. -/
theorem promptInput_pins (mode : ImageMode) (width : BitVec 16) :
    Numbered.ScanPins mode width (promptInput mode width) :=
  ⟨rfl, rfl, rfl, rfl, rfl⟩

/-- Any number of prompt cycles is a run of the scan. -/
theorem promptInput_along
    (mode : ImageMode) (width : BitVec 16) (count : Nat) :
    Clocked.Along Numbered.step
      (fun _ i => Numbered.ScanPins mode width i) numbered
      (List.replicate count (promptInput mode width)) := by
  induction count generalizing numbered with
  | zero => trivial
  | succ count inductionHypothesis =>
      exact ⟨promptInput_pins mode width, inductionHypothesis⟩

/-- The decoder is about to start the block with a number. -/
structure AtStart (mode : ImageMode) (width : BitVec 16) (index : Nat)
    (numbered : Numbered) : Prop where
  known : InScan mode width numbered
  numberedBy : numbered.index = index
  idle : numbered.decoder.stateQ = .idle
  noCoefficients : numbered.decoder.coeffIdxQ = 0

/-- A prompt block takes nine cycles. -/
theorem AtStart.block
    {index : Nat}
    (start : AtStart mode width index numbered)
    (supported : mode ≠ .unsupported) :
    AtStart mode width (index + 1)
      (Clocked.run Numbered.step numbered
        (List.replicate 9 (promptInput mode width))) := by
  have known :=
    Clocked.run_invariant
      (fun numbered i known pins => InScan.step known supported pins)
      start.known (promptInput_along mode width 9)
  have stillOpen := start.known.counted.imageOpen
  have idle := start.idle
  have first := start.noCoefficients
  have control :
      (Clocked.run Numbered.step numbered
          (List.replicate 9 (promptInput mode width))).index =
          numbered.index + 1 ∧
        (Clocked.run Numbered.step numbered
          (List.replicate 9 (promptInput mode width))).decoder.stateQ =
            .idle ∧
        (Clocked.run Numbered.step numbered
          (List.replicate 9 (promptInput mode width))).decoder.coeffIdxQ =
            0 := by
    simp [List.replicate, Clocked.run, Numbered.step, McuProc.step,
      nextStateR, nextBlock, coeffIdxNext, promptInput, stillOpen, idle,
      first]
    rfl
  exact ⟨known, by rw [control.1, start.numberedBy], control.2.1,
    control.2.2⟩

/-- Resetting the counters prepares the first block of a scan. -/
theorem inScan_initial
    {s : State}
    (counters : s.id = .reset)
    (idle : s.stateQ = .idle) :
    InScan mode width ⟨s, 0⟩ where
  counted := by
    simp only [counters, idle]
    exact reset_counted mode width
  notEnded := by simp [idle]

/-- Prompt cycles reach every block of the scan. -/
theorem atStart_reached
    (width : BitVec 16)
    (supported : mode ≠ .unsupported)
    (index : Nat) :
    ∃ count,
      AtStart mode width index
        (Clocked.run Numbered.step ⟨McuProc.reset, 0⟩
          (List.replicate count (promptInput mode width))) := by
  induction index with
  | zero => exact ⟨0, inScan_initial rfl rfl, rfl, rfl, rfl⟩
  | succ index inductionHypothesis =>
      obtain ⟨count, start⟩ := inductionHypothesis
      refine ⟨count + 9, ?_⟩
      rw [List.replicate_add, Clocked.run_append]
      exact start.block supported

/-- A prompt cycle begins the block that is about to start. -/
theorem AtStart.begins
    {index : Nat}
    (start : AtStart mode width index numbered) :
    (numbered.step (promptInput mode width)).decoder.stateQ = .fetchWord ∧
      (numbered.step (promptInput mode width)).index = index := by
  have stillOpen := start.known.counted.imageOpen
  have idle := start.idle
  constructor
  · simp [Numbered.step, McuProc.step, nextStateR, promptInput, idle,
      stillOpen]
  · simp [Numbered.step, nextBlock, idle, start.numberedBy]

/-- If every run shows the prescribed ids, so does the count of each block. -/
theorem prescribed_of_follows
    {height : BitVec 16}
    (supported : mode ≠ .unsupported)
    (follows : IdsFollowScan mode width height)
    {index : Nat}
    (inScan : index < scanBlocks mode width height) :
    ∃ s, Counted mode width index true s ∧
      Prescribed mode width index s.blockId := by
  obtain ⟨count, start⟩ := atStart_reached width supported index
  have shown :=
    follows McuProc.reset _ rfl rfl
      (promptInput_along mode width (count + 1))
  rw [List.replicate_succ', Clocked.run_append, Clocked.run_cons,
    Clocked.run_nil] at shown
  have known :=
    start.known.step supported (promptInput_pins mode width)
  obtain ⟨busy, same⟩ := start.begins
  have counted := known.counted
  rw [busy, same] at counted
  have prescribed := shown (by simp [busy]) (by rw [same]; exact inScan)
  rw [same] at prescribed
  exact ⟨_, counted, prescribed⟩

end Reach

/-! ## Images that are not counted right -/

section Necessary

variable {mode : ImageMode} {width height : BitVec 16}

/-- The ids of a prescription with one component have one row and column. -/
theorem idOf_injective
    {component : Component} {row row' column column' : Nat}
    (same : idOf component row column = idOf component row' column') :
    row % 2 ^ 14 = row' % 2 ^ 14 ∧ column % 2 ^ 16 = column' % 2 ^ 16 := by
  have columns := congrArg (BitVec.setWidth 16) same
  have rows := congrArg (BitVec.setWidth 14 ∘ BitVec.extractLsb' 16 16) same
  simp only [idOf, BitVec.setWidth_append_eq_right, Function.comp_apply,
    BitVec.extractLsb'_append_eq_left] at columns rows
  exact ⟨by simpa using congrArg BitVec.toNat rows,
    by simpa using congrArg BitVec.toNat columns⟩

/-- A wide image with a second row of MCUs names its first block wrongly. -/
theorem narrow_of_prescribed
    (supported : mode ≠ .unsupported)
    (prescribed :
      ∀ index, index < scanBlocks mode width height →
        ∃ s, Counted mode width index true s ∧
          Prescribed mode width index s.blockId) :
    width.toNat ≤ 65528 ∨ height.toNat ≤ mcuSize mode := by
  by_contra fails
  have wide : 65528 < width.toNat := by omega
  have high : mcuSize mode < height.toNat := by omega
  obtain ⟨eighths, quarters, units8, units16⟩ := period_wide wide
  have rows : 2 ≤ units height.toNat (mcuSize mode) :=
    two_le_units (by cases mode <;> decide) high
  by_cases subsampled : mode = .ycbcr420
  · have columns : mcuColumns mode width = 4096 := by
      rw [mcuColumns, subsampled]
      exact units16
    have blocks : mcuBlocks mode = 6 := by
      rw [subsampled]
      rfl
    obtain ⟨s, counted, shown⟩ := prescribed (6 * 4096) (by
      rw [scanBlocks, columns, blocks]
      omega)
    have kind : componentOrder mode (6 * 4096) = .y := by
      rw [subsampled]
      rfl
    simp only [Prescribed, if_pos subsampled, columns, blocks, kind] at shown
    rw [if_pos (by decide), counted.id_luma subsampled (by decide),
      quarters] at shown
    have column := (idOf_injective shown).2
    omega
  · have columns : mcuColumns mode width = 8192 := by
      rw [← units8]
      cases mode <;> simp_all [mcuColumns, mcuSize]
    have positive : 0 < mcuBlocks mode := by
      cases mode <;> decide
    obtain ⟨s, counted, shown⟩ := prescribed (8192 * mcuBlocks mode) (by
      rw [scanBlocks, columns]
      exact Nat.mul_lt_mul_of_pos_right (by omega) positive)
    have mcu : 8192 * mcuBlocks mode / mcuBlocks mode = 8192 :=
      Nat.mul_div_cancel 8192 positive
    simp only [Prescribed, if_neg subsampled, columns, mcu] at shown
    rw [counted.id_full subsampled, mcu, eighths] at shown
    have column := (idOf_injective shown).2
    omega

/-- A subsampled image with an odd block column names a luma block wrongly. -/
theorem even_of_prescribed
    (subsampled : mode = .ycbcr420)
    (widthPositive : 0 < width.toNat)
    (heightPositive : 0 < height.toNat)
    (prescribed :
      ∀ index, index < scanBlocks mode width height →
        ∃ s, Counted mode width index true s ∧
          Prescribed mode width index s.blockId) :
    units width.toNat 8 % 2 = 0 := by
  by_contra odd
  have narrow : width.toNat ≤ 65528 := by
    by_contra wide
    have even := (period_wide (Nat.lt_of_not_le wide)).2.2.1
    omega
  have quarters := (period_narrow widthPositive narrow).2
  have columns : mcuColumns mode width = units width.toNat 16 := by
    rw [mcuColumns, subsampled]
    rfl
  have blocks : mcuBlocks mode = 6 := by
    rw [subsampled]
    rfl
  have halves :
      units width.toNat 8 + 1 = 2 * units width.toNat 16 := by
    simp only [units] at odd ⊢
    omega
  have rows : 1 ≤ units height.toNat (mcuSize mode) := by
    rw [units, Nat.le_div_iff_mul_le (by rw [subsampled]; decide)]
    omega
  -- The third luma block of the last MCU of the first row.
  obtain ⟨before, last⟩ : ∃ before, units width.toNat 16 = before + 1 :=
    ⟨units width.toNat 16 - 1, by omega⟩
  obtain ⟨s, counted, shown⟩ := prescribed (6 * before + 2) (by
    rw [scanBlocks, columns, blocks, last]
    nlinarith)
  have inMcu : (6 * before + 2) % 6 = 2 := by omega
  have mcu : (6 * before + 2) / 6 = before := by omega
  have kind : componentOrder mode (6 * before + 2) = .y := by
    simp [componentOrder, subsampled, inMcu]
  have turned : (4 * before + 2) / (2 * units width.toNat 8) = 1 := by
    rw [Nat.div_eq_iff (by omega)]
    omega
  have inRow : before / (before + 1) = 0 := Nat.div_eq_of_lt (by omega)
  simp only [Prescribed, if_pos subsampled, columns, blocks, kind, inMcu,
    mcu, last, inRow] at shown
  rw [if_pos (by decide), counted.id_luma subsampled (by omega), inMcu, mcu,
    quarters, turned] at shown
  have row := (idOf_injective shown).1
  omega

end Necessary

/--
While `img_end_i` is low, the blocks of an image get the prescribed ids in
every run exactly when its rows are counted right.
-/
theorem ids_follow_scan_iff
    (mode : ImageMode)
    (supported : mode ≠ .unsupported)
    (width height : BitVec 16)
    (widthPositive : 0 < width.toNat)
    (heightPositive : 0 < height.toNat) :
    IdsFollowScan mode width height ↔ CountsRows mode width height := by
  constructor
  · intro follows
    have prescribed :=
      fun index (inScan : index < scanBlocks mode width height) =>
        prescribed_of_follows supported follows inScan
    exact ⟨narrow_of_prescribed supported prescribed,
      fun subsampled =>
        even_of_prescribed subsampled widthPositive heightPositive
          prescribed⟩
  · intro counts s cycles counters idle along busy inScan
    have known :=
      Clocked.run_invariant
        (fun numbered i known pins => InScan.step known supported pins)
        (inScan_initial counters idle) along
    have counted := known.counted
    have begun :
        ((Clocked.run Numbered.step ⟨s, 0⟩ cycles).decoder.stateQ !=
          .idle) = true := by
      simpa using busy
    rw [begun] at counted
    exact counted.prescribed widthPositive heightPositive counts inScan

/-- The four luma blocks of a 16 × 16 image are placed as prescribed. -/
theorem ids_follow_scan_one_mcu : IdsFollowScan .ycbcr420 16 16 :=
  (ids_follow_scan_iff .ycbcr420 (by decide) 16 16 (by decide)
    (by decide)).mpr (by decide)

/--
In a 4:2:0 image of width 8 the counter of luma blocks wraps after two of
them: the third gets row 3 instead of row 1.
-/
theorem single_column_misplaced : ¬ IdsFollowScan .ycbcr420 8 8 := by
  intro follows
  have shown :=
    follows McuProc.reset (List.replicate 19 (promptInput .ycbcr420 8)) rfl
      rfl (promptInput_along .ycbcr420 8 19)
  have misplaced :
      ¬ Numbered.ShowsPrescribed .ycbcr420 8 8
        (Clocked.run Numbered.step ⟨McuProc.reset, 0⟩
          (List.replicate 19 (promptInput .ycbcr420 8))) := by
    decide +kernel
  exact misplaced shown

end CoreJpeg.McuProc
