import CoreJpeg.Clocked
import CoreJpeg.DqtLoad
import CoreJpeg.IdctRamModel
import CoreJpeg.McuModel
import CoreJpeg.SoftwareIdct

namespace CoreJpeg.CoefficientChain

/-!
# Coefficients on their way to the inverse transform

`jpeg_mcu_proc` emits the coefficients of a block and an end pulse without
waiting for anybody; `jpeg_dqt` takes two cycles to multiply them, and
`jpeg_idct_ram` puts them in the block's slot.  The only thing the decoder
looks at is a space flag, in the cycle in which it starts a block.  This module
closes the three with each other and states what has to become of the
coefficients of every block.
-/

open Clocked McuProc

/-! ## The chain -/

/-- What the frame header fixes for a scan, in registers of `jpeg_input`. -/
structure Frame where
  imgWidth : BitVec 16
  imgMode : ImageMode
  imgDqtTableY : BitVec 2
  imgDqtTableCb : BitVec 2
  imgDqtTableCr : BitVec 2
  deriving Repr, DecidableEq

/-- What the surroundings do in one clock cycle. -/
structure Cycle where
  rst : Bool
  imgStart : Bool
  imgEnd : Bool
  /-- The bit buffer: `inport_valid_i` and `inport_data_i`. -/
  inportValid : Bool
  inportData : BitVec 32
  /-- The answer of the Huffman tables. -/
  lookupValid : Bool
  lookupWidth : BitVec 5
  lookupValue : BitVec 8
  /-- The configuration port of `jpeg_dqt`. -/
  cfgValid : Bool
  cfgData : Byte
  cfgLast : Bool
  /-- `outport_ready_i` of `jpeg_idct_ram`. -/
  outportReady : Bool
  deriving Repr, DecidableEq

/-- The registers of the three modules. -/
structure State where
  mcu : McuProc.State
  dqt : JpegDqt.State
  ram : JpegIdctRam.State

namespace State

variable (frame : Frame) (s : State) (cycle : Cycle)

/-- The pins of `jpeg_dqt`. -/
def dqtInput : JpegDqt.Input where
  rst := cycle.rst
  imgStart := cycle.imgStart
  imgDqtTableY := frame.imgDqtTableY
  imgDqtTableCb := frame.imgDqtTableCb
  imgDqtTableCr := frame.imgDqtTableCr
  cfgValid := cycle.cfgValid
  cfgData := cycle.cfgData
  cfgLast := cycle.cfgLast
  inportValid := outportValid s.mcu
  inportData := outportData s.mcu
  inportIdx := outportIdx s.mcu
  inportId := outportId s.mcu
  inportEob := outportEob s.mcu
  outportAccept := JpegIdctRam.inportAccept s.ram

/-- The pins of `jpeg_mcu_proc`. -/
def mcuInput : McuProc.Input where
  rst := cycle.rst
  imgStart := cycle.imgStart
  imgEnd := cycle.imgEnd
  imgWidth := frame.imgWidth
  imgMode := frame.imgMode
  inportValid := cycle.inportValid
  inportData := cycle.inportData
  lookupValid := cycle.lookupValid
  lookupWidth := cycle.lookupWidth
  lookupValue := cycle.lookupValue
  outportBlkSpace := JpegDqt.inportBlkSpace s.dqt (s.dqtInput frame cycle)

/-- The pins of `jpeg_idct_ram`. -/
def ramInput : JpegIdctRam.Input where
  rst := cycle.rst
  imgStart := cycle.imgStart
  inportValid := s.dqt.outport.validQ
  inportData := s.dqt.outport.dataQ
  inportIdx := s.dqt.outport.idxQ
  inportEob := s.dqt.outport.eobQ
  outportReady := cycle.outportReady

/-- The registers after the clock edge. -/
def step : State where
  mcu := McuProc.step s.mcu (s.mcuInput frame cycle)
  dqt := JpegDqt.step s.dqt (s.dqtInput frame cycle)
  ram := JpegIdctRam.step s.ram (s.ramInput cycle)

/--
Nothing of a block is under way: the decoder waits for the first block of an
image, both stages of the multiplication and all slots are empty.
-/
structure Clean : Prop where
  firstBlock : s.mcu.id = .reset
  waiting : s.mcu.stateQ = .idle
  noPush : s.mcu.pushQ = false
  noCoeff : s.mcu.coeffIdxQ = 0
  inportEmpty : s.dqt.inport.validQ = false ∧ s.dqt.inport.eobQ = false
  outportEmpty : s.dqt.outport.validQ = false ∧ s.dqt.outport.eobQ = false
  noneReady : ∀ block, s.ram.blockReadyQ block = false
  noneStored : ∀ block idx, JpegIdctRam.stored s.ram block idx = none
  notReading : s.ram.stateQ = .idle

end State

/-! ## Runs -/

/--
A run of the chain with `img_start_i` low and without writes to the
quantisation tables.
-/
structure Scan where
  frame : Frame
  first : State
  cycles : Nat → Cycle
  clean : first.Clean
  noReset : ∀ n, (cycles n).rst = false
  noStart : ∀ n, (cycles n).imgStart = false
  noWrite :
    ∀ n, JpegDqt.dqtWrite (trace (State.step frame) first cycles n).dqt.loader
      ((trace (State.step frame) first cycles n).dqtInput frame (cycles n)) =
        false

namespace Scan

variable (scan : Scan)

/-- The registers before the `n`-th cycle. -/
def stateAt (n : Nat) : State :=
  trace (State.step scan.frame) scan.first scan.cycles n

/-- `start_block_w` in the `n`-th cycle. -/
def startsAt (n : Nat) : Bool :=
  startBlock (scan.stateAt n).mcu
    ((scan.stateAt n).mcuInput scan.frame (scan.cycles n))

/-- The block that starts in a cycle goes on until the next one starts. -/
def InBlock (start n : Nat) : Prop :=
  start < n ∧ ∀ m, start < m → m < n → scan.startsAt m = false

/-- The type of the block that starts in a cycle. -/
def blockType (start : Nat) : BlockType :=
  (scan.stateAt (start + 1)).mcu.id.blockTypeQ

/-- A block that is not `BLOCK_EOF` starts in a cycle. -/
def Begins (start : Nat) : Prop :=
  scan.startsAt start = true ∧ scan.blockType start ≠ .eof

/-- The id of the block that starts in a cycle. -/
def blockId (start : Nat) : BitVec 32 :=
  outportId (scan.stateAt (start + 1)).mcu

/-- A sample leaves the decoder in the `n`-th cycle. -/
def emits (n : Nat) : Bool := outportValid (scan.stateAt n).mcu

/-- The sample that leaves the decoder, as the software keeps it. -/
def sampleAt (n : Nat) : Option Software.Sample :=
  if scan.emits n then
    some
      { coeff := (outportIdx (scan.stateAt n).mcu).toNat
        value := outportData (scan.stateAt n).mcu }
  else none

/-- The samples of a block up to and including a cycle. -/
def samples (start n : Nat) : List Software.Sample :=
  (List.range' (start + 1) (n - start)).filterMap scan.sampleAt

/-- An end-of-block pulse leaves the decoder in the `n`-th cycle. -/
def ends (n : Nat) : Bool := outportEob (scan.stateAt n).mcu

/-- The quantisation table of a component. -/
def dqtTable : BlockType → BitVec 2
  | .y => scan.frame.imgDqtTableY
  | .cb => scan.frame.imgDqtTableCb
  | .cr => scan.frame.imgDqtTableCr
  | .eof => 0

/-- The quantisation tables, as the software keeps them. -/
def tables : Software.DqtTables := fun table position =>
  scan.first.dqt.loader.entry (BitVec.ofNat 2 table) position

/-- The quantiser of a block's component for an index. -/
def quantiser (start : Nat) (idx : BitVec 6) : Byte :=
  scan.first.dqt.loader.entry (scan.dqtTable (scan.blockType start)) idx.toNat

/-- `jpeg_idct_ram` takes its inputs in the `n`-th cycle. -/
def accepts (n : Nat) : Bool := JpegIdctRam.inportAccept (scan.stateAt n).ram

/-- The slot that `jpeg_idct_ram` fills in the `n`-th cycle. -/
def slotAt (n : Nat) : BitVec 2 := (scan.stateAt n).ram.blockWrQ

/-- A sample enters a slot in the `n`-th cycle. -/
def Enters (slot : BitVec 2) (n : Nat) : Prop :=
  (scan.stateAt n).dqt.outport.validQ = true ∧ scan.accepts n = true ∧
    scan.slotAt n = slot

/-- The `n`-th cycle ends the read-out of a slot. -/
def ReadOut (slot : BitVec 2) (n : Nat) : Prop :=
  JpegIdctRam.blockDone (scan.stateAt n).ram = true ∧
    (scan.stateAt n).ram.blockRdQ = slot

/-- A slot is not read out in the cycles from one to another. -/
def Unread (slot : BitVec 2) (first last : Nat) : Prop :=
  ∀ n, first ≤ n → n < last → ¬ scan.ReadOut slot n

/-- The coefficient that a slot holds before the `n`-th cycle. -/
def storedAt (slot : BitVec 2) (n : Nat) (idx : BitVec 6) :
    Option (BitVec 16) :=
  JpegIdctRam.stored (scan.stateAt n).ram slot idx

/--
What becomes of the block that starts in a cycle, with the slot that
`jpeg_idct_ram` has for it.
-/
structure Delivered (start : Nat) (slot : BitVec 2) : Prop where
  /-- Every sample arrives, multiplied, in a cycle that accepts it. -/
  sampleArrives :
    ∀ n, scan.InBlock start n → scan.emits n = true →
      scan.Enters slot (n + 2) ∧
        (scan.stateAt (n + 2)).dqt.outport.idxQ =
          JpegDqt.dezigzag (outportIdx (scan.stateAt n).mcu) ∧
        (scan.stateAt (n + 2)).dqt.outport.dataQ =
          outportData (scan.stateAt n).mcu *
            (scan.quantiser start (outportIdx (scan.stateAt n).mcu)).setWidth
              16
  /-- The id that goes with the samples and the end pulse does not change. -/
  idKept :
    ∀ n, scan.InBlock start n →
      scan.emits n = true ∨ scan.ends n = true →
        outportId (scan.stateAt n).mcu = scan.blockId start
  /-- The end pulse arrives with the block's id in a cycle that accepts it. -/
  endArrives :
    ∀ n, scan.InBlock start n → scan.ends n = true →
      (scan.stateAt (n + 2)).dqt.outport.eobQ = true ∧
        scan.accepts (n + 2) = true ∧ scan.slotAt (n + 2) = slot ∧
        (scan.stateAt (n + 2)).dqt.outport.idQ = scan.blockId start
  /-- Until the slot is read out, only samples of the block enter it. -/
  slotKept :
    ∀ n, start ≤ n → scan.Unread slot start n → scan.Enters slot n →
      ∃ sent, n = sent + 2 ∧ scan.InBlock start sent ∧
        scan.emits sent = true
  /-- The slot is not read out before the end pulse has arrived. -/
  readBehindEnd :
    ∀ n, start ≤ n → scan.ReadOut slot n →
      ∃ sent, sent + 2 < n ∧ scan.InBlock start sent ∧ scan.ends sent = true
  /-- Until then every sample is stored at its place, multiplied. -/
  stored :
    ∀ sent, scan.InBlock start sent → scan.emits sent = true →
      ∀ n, sent + 2 < n → scan.Unread slot start n →
        scan.storedAt slot n
            (JpegDqt.dezigzag (outportIdx (scan.stateAt sent).mcu)) =
          some (outportData (scan.stateAt sent).mcu *
            (scan.quantiser start
              (outportIdx (scan.stateAt sent).mcu)).setWidth 16)
  /--
  From the end pulse on the slot holds what `process_samples` makes of the
  block's samples, in 16 bits.
  -/
  processed :
    ∀ sent, scan.InBlock start sent → scan.ends sent = true →
      ∃ blockOut,
        Software.processSamples scan.tables
            (scan.dqtTable (scan.blockType start)).toNat
            (scan.samples start sent) = .ok blockOut ∧
          ∀ n, sent + 2 < n → scan.Unread slot start n →
            ∀ idx : BitVec 6,
              (scan.storedAt slot n idx).getD 0 =
                  BitVec.ofInt 16 (blockOut idx.toNat) ∧
                (-2 ^ 15 ≤ blockOut idx.toNat →
                  blockOut idx.toNat < 2 ^ 15 →
                  ((scan.storedAt slot n idx).getD 0).toInt =
                    blockOut idx.toNat)

end Scan

end CoreJpeg.CoefficientChain
