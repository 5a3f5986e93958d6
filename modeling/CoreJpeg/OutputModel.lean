import CoreJpeg.McuModel
import CoreJpeg.RingBuffer

namespace CoreJpeg.JpegOutput

/-!
# The output stage

`jpeg_output` stores the samples of each component in a memory of its own and
the ids of the luma blocks in a queue of depth 8.  When the memories hold a
block (in 4:2:0 an MCU) it reads the three components in step, converts each
sample to RGB and presents it with the coordinates that the id of its block
gives.  This module transcribes the registers of the stage and its memories.
-/

/-! ## `jpeg_output_fifo` -/

/-- The registers of a FIFO of depth `2 ^ ADDR_W`. -/
structure Fifo (addrWidth : Nat) (Cell : Type) where
  ramQ : BitVec addrWidth → Cell
  rdPtrQ : BitVec addrWidth
  wrPtrQ : BitVec addrWidth
  countQ : BitVec (addrWidth + 1)

namespace Fifo

variable {addrWidth : Nat} {Cell : Type}

/-- Register values after `rst_i` or `flush_i`, which keep the memory. -/
def flushed (s : Fifo addrWidth Cell) : Fifo addrWidth Cell :=
  { s with rdPtrQ := 0, wrPtrQ := 0, countQ := 0 }

/-- `valid_o`. -/
def validO (s : Fifo addrWidth Cell) : Bool := s.countQ != 0

/-- `accept_o`. -/
def acceptO (s : Fifo addrWidth Cell) : Bool :=
  s.countQ != BitVec.ofNat (addrWidth + 1) (2 ^ addrWidth)

/-- `data_out_o`. -/
def dataOutO (s : Fifo addrWidth Cell) : Cell := s.ramQ s.rdPtrQ

/-- The item stored in a cycle. -/
def stored (s : Fifo addrWidth Cell) (push : Option Cell) : Option Cell :=
  if s.acceptO then push else none

/-- The registers after the clock edge without `rst_i` and `flush_i`. -/
def step (s : Fifo addrWidth Cell) (push : Option Cell) (pop : Bool) :
    Fifo addrWidth Cell where
  ramQ := fun address =>
    if address = s.wrPtrQ then (s.stored push).getD (s.ramQ address)
    else s.ramQ address
  wrPtrQ := if (s.stored push).isSome then s.wrPtrQ + 1 else s.wrPtrQ
  rdPtrQ := if pop && s.validO then s.rdPtrQ + 1 else s.rdPtrQ
  countQ :=
    RingBuffer.recount s.countQ (s.stored push).isSome (pop && s.validO)

end Fifo

/-! ## `jpeg_output_y_ram` -/

/-- The input pins of a sample memory. -/
structure RamInput where
  clear : Bool
  push : Bool
  wrIdx : BitVec 6
  dataIn : BitVec 32
  pop : Bool

/-- The registers of `jpeg_output_y_ram`. -/
structure YRam where
  rdPtrQ : BitVec 9
  wrPtrQ : BitVec 9
  rdQ : Bool
  rdSkidQ : Bool
  rdSkidDataQ : BitVec 32
  ram : BitVec 9 → BitVec 32
  ramRead1Q : BitVec 32
  countQ : BitVec 32

namespace YRam

/-- Register values after `rst_i`. -/
def reset : YRam where
  rdPtrQ := 0
  wrPtrQ := 0
  rdQ := false
  rdSkidQ := false
  rdSkidDataQ := 0
  ram := fun _ => 0
  ramRead1Q := 0
  countQ := 0

/-- `valid_o`. -/
def validO (s : YRam) : Bool := s.rdSkidQ || s.rdQ

/-- `data_out_o`. -/
def dataOutO (s : YRam) : BitVec 32 :=
  if s.rdSkidQ then s.rdSkidDataQ else s.ramRead1Q

/-- `read_ok_w`. -/
def readOk (s : YRam) : Bool := s.wrPtrQ != s.rdPtrQ

/-- The read side goes on to the next address. -/
def reads (s : YRam) (i : RamInput) : Bool :=
  s.readOk && (!s.validO || (s.validO && i.pop))

/-- The address written. -/
def wrAddr (s : YRam) (i : RamInput) : BitVec 9 :=
  s.wrPtrQ.extractLsb' 6 3 ++ i.wrIdx

/-- `count_r`. -/
def countR (s : YRam) (i : RamInput) : BitVec 32 :=
  s.countQ - (if i.pop && s.validO then 1 else 0) +
    (if i.push then 1 else 0)

/-- The registers after the clock edge. -/
def step (s : YRam) (i : RamInput) : YRam where
  rdPtrQ :=
    if i.clear then 0 else if s.reads i then s.rdPtrQ + 1 else s.rdPtrQ
  wrPtrQ :=
    if i.clear then 0 else if i.push then s.wrPtrQ + 1 else s.wrPtrQ
  rdQ := !i.clear && s.readOk
  rdSkidQ := !i.clear && (s.validO && !i.pop)
  rdSkidDataQ :=
    if !i.clear && (s.validO && !i.pop) then s.dataOutO else 0
  ram := fun address =>
    if i.push && address == s.wrAddr i then i.dataIn else s.ram address
  ramRead1Q := s.ram s.rdPtrQ
  countQ := if i.clear then 0 else s.countR i

end YRam

/-! ## `jpeg_output_cx_ram` -/

/-- `cx_rd_ptr_r`: the chrominance samples of an MCU in the order of luma. -/
def cxRdPtrTable : List Nat :=
  [0, 1, 1, 2, 2, 3, 3, 0, 0, 1, 1, 2, 2, 3, 3, 8,
   8, 9, 9, 10, 10, 11, 11, 8, 8, 9, 9, 10, 10, 11, 11, 16,
   16, 17, 17, 18, 18, 19, 19, 16, 16, 17, 17, 18, 18, 19, 19, 24,
   24, 25, 25, 26, 26, 27, 27, 24, 24, 25, 25, 26, 26, 27, 27, 4,
   4, 5, 5, 6, 6, 7, 7, 4, 4, 5, 5, 6, 6, 7, 7, 12,
   12, 13, 13, 14, 14, 15, 15, 12, 12, 13, 13, 14, 14, 15, 15, 20,
   20, 21, 21, 22, 22, 23, 23, 20, 20, 21, 21, 22, 22, 23, 23, 28,
   28, 29, 29, 30, 30, 31, 31, 28, 28, 29, 29, 30, 30, 31, 31, 32,
   32, 33, 33, 34, 34, 35, 35, 32, 32, 33, 33, 34, 34, 35, 35, 40,
   40, 41, 41, 42, 42, 43, 43, 40, 40, 41, 41, 42, 42, 43, 43, 48,
   48, 49, 49, 50, 50, 51, 51, 48, 48, 49, 49, 50, 50, 51, 51, 56,
   56, 57, 57, 58, 58, 59, 59, 56, 56, 57, 57, 58, 58, 59, 59, 36,
   36, 37, 37, 38, 38, 39, 39, 36, 36, 37, 37, 38, 38, 39, 39, 44,
   44, 45, 45, 46, 46, 47, 47, 44, 44, 45, 45, 46, 46, 47, 47, 52,
   52, 53, 53, 54, 54, 55, 55, 52, 52, 53, 53, 54, 54, 55, 55, 60,
   60, 61, 61, 62, 62, 63, 63, 60, 60, 61, 61, 62, 62, 63, 63, 0]

/-- The registers of `jpeg_output_cx_ram`. -/
structure CxRam where
  rdPtrQ : BitVec 8
  wrPtrQ : BitVec 8
  rdQ : Bool
  cxIdxQ : BitVec 8
  cxHalfQ : BitVec 2
  cxRdPtrQ : BitVec 6
  rdSkidQ : Bool
  rdSkidDataQ : BitVec 32
  ram : BitVec 8 → BitVec 32
  ramRead1Q : BitVec 32
  countQ : BitVec 32

namespace CxRam

/-- Register values after `rst_i`. -/
def reset : CxRam where
  rdPtrQ := 0
  wrPtrQ := 0
  rdQ := false
  cxIdxQ := 0
  cxHalfQ := 0
  cxRdPtrQ := 0
  rdSkidQ := false
  rdSkidDataQ := 0
  ram := fun _ => 0
  ramRead1Q := 0
  countQ := 0

/-- `valid_o`. -/
def validO (s : CxRam) : Bool := s.rdSkidQ || s.rdQ

/-- `data_out_o`. -/
def dataOutO (s : CxRam) : BitVec 32 :=
  if s.rdSkidQ then s.rdSkidDataQ else s.ramRead1Q

/-- `read_ok_w`. -/
def readOk (s : CxRam) : Bool := 1 < s.countQ

/-- The read side goes on to the next address. -/
def reads (s : CxRam) (i : RamInput) : Bool :=
  s.readOk && (!s.validO || (s.validO && i.pop))

/-- `cx_rd_ptr_r`. -/
def cxRdPtrR (s : CxRam) : BitVec 6 :=
  BitVec.ofNat 6 (cxRdPtrTable.getD s.cxIdxQ.toNat 0)

/-- `rd_addr_w`. -/
def rdAddr (s : CxRam) (mode420 : Bool) : BitVec 8 :=
  if mode420 then s.cxHalfQ ++ s.cxRdPtrQ else s.rdPtrQ

/-- The address written. -/
def wrAddr (s : CxRam) (i : RamInput) : BitVec 8 :=
  s.wrPtrQ.extractLsb' 6 2 ++ i.wrIdx

/-- `count_r`. -/
def countR (s : CxRam) (mode420 : Bool) (i : RamInput) : BitVec 32 :=
  s.countQ - (if i.pop && s.validO then 1 else 0) +
    (if i.push then (if mode420 then 4 else 1) else 0)

/--
The registers after the clock edge.  `rst` is the part of `clear` that also
clears `cx_rd_ptr_q`.
-/
def step (s : CxRam) (rst mode420 : Bool) (i : RamInput) : CxRam where
  rdPtrQ :=
    if i.clear then 0 else if s.reads i then s.rdPtrQ + 1 else s.rdPtrQ
  wrPtrQ :=
    if i.clear then 0 else if i.push then s.wrPtrQ + 1 else s.wrPtrQ
  rdQ := !i.clear && s.readOk
  cxIdxQ :=
    if i.clear then 0 else if s.reads i then s.cxIdxQ + 1 else s.cxIdxQ
  cxHalfQ :=
    if i.clear then 0
    else if s.reads i && s.cxIdxQ == 255 then s.cxHalfQ + 1
    else s.cxHalfQ
  cxRdPtrQ :=
    if rst then 0 else if s.reads i then s.cxRdPtrR else s.cxRdPtrQ
  rdSkidQ := !i.clear && (s.validO && !i.pop)
  rdSkidDataQ :=
    if !i.clear && (s.validO && !i.pop) then s.dataOutO else 0
  ram := fun address =>
    if i.push && address == s.wrAddr i then i.dataIn else s.ram address
  ramRead1Q := s.ram (s.rdAddr mode420)
  countQ := if i.clear then 0 else s.countR mode420 i

end CxRam

/-! ## `jpeg_output` -/

/-- The input pins sampled in one clock cycle. -/
structure Input where
  rst : Bool
  imgStart : Bool
  imgWidth : BitVec 16
  imgHeight : BitVec 16
  imgMode : ImageMode
  inportValid : Bool
  inportData : BitVec 32
  inportIdx : BitVec 6
  inportId : BitVec 32
  outportAccept : Bool

/-- The registers of the output stage. -/
structure State where
  uRamY : YRam
  uRamCb : CxRam
  uRamCr : CxRam
  uInfo : Fifo 3 (BitVec 32)
  idxQ : BitVec 6
  subsmplQ : BitVec 2
  activeQ : Bool
  validQ : Bool
  pixelXQ : BitVec 16
  pixelYQ : BitVec 16
  pixelRQ : BitVec 8
  pixelGQ : BitVec 8
  pixelBQ : BitVec 8
  idleQ : Bool

/-- Register values after `rst_i`. -/
def reset : State where
  uRamY := .reset
  uRamCb := .reset
  uRamCr := .reset
  uInfo := ⟨fun _ => 0, 0, 0, 0⟩
  idxQ := 0
  subsmplQ := 0
  activeQ := false
  validQ := false
  pixelXQ := 0
  pixelYQ := 0
  pixelRQ := 0
  pixelGQ := 0
  pixelBQ := 0
  idleQ := true

/-- The bits of an id that give the component of its block. -/
def typeOf (id : BitVec 32) : BitVec 2 := id.extractLsb' 30 2

/-- The id is of a component's block or of one after the image. -/
def isFor (blockType : McuProc.BlockType) (id : BitVec 32) : Bool :=
  typeOf id == blockType.code || typeOf id == McuProc.BlockType.eof.code

/-- `push_i` of the memory of a component. -/
def pushes (blockType : McuProc.BlockType) (i : Input) : Bool :=
  i.inportValid && isFor blockType i.inportId

/-- `output_space_w`. -/
def outputSpace (s : State) (i : Input) : Bool :=
  !s.validQ || i.outportAccept

/-- `y_pop_w`, `cb_pop_w` and `cr_pop_w`. -/
def pops (s : State) (i : Input) : Bool := outputSpace s i && s.activeQ

/-- `id_pop_w`. -/
def idPop (s : State) (i : Input) : Bool :=
  outputSpace s i && s.idxQ == 63

/-- `id_value_w`. -/
def idValue (s : State) : BitVec 32 := s.uInfo.dataOutO

/-- The pins of the memory of a component. -/
def ramInput (blockType : McuProc.BlockType) (s : State) (i : Input) :
    RamInput where
  clear := i.rst || i.imgStart
  push := pushes blockType i
  wrIdx := i.inportIdx
  dataIn := i.inportData
  pop := pops s i

/-- The id pushed in a cycle. -/
def idPush (i : Input) : Option (BitVec 32) :=
  if pushes .y i && i.inportIdx == 0 then some i.inportId else none

/-- `inport_accept_o`. -/
def inportAccept (s : State) : Bool :=
  (s.uRamY.countQ ≤ 384 && s.uRamCr.countQ ≤ 128) || s.idleQ

/-- The memories hold enough samples to begin a block. -/
def begins (s : State) (mode : ImageMode) : Bool :=
  match mode with
  | .monochrome => 64 ≤ s.uRamY.countQ
  | .ycbcr444 =>
      64 ≤ s.uRamY.countQ && 64 ≤ s.uRamCb.countQ && 64 ≤ s.uRamCr.countQ
  | _ =>
      if s.subsmplQ != 0 then true
      else
        256 ≤ s.uRamY.countQ && 256 ≤ s.uRamCb.countQ &&
          256 ≤ s.uRamCr.countQ

/-- `pixel_x_q`: the column of a sample of a block. -/
def pixelX (id : BitVec 32) (idx : BitVec 6) : BitVec 16 :=
  id.extractLsb' 0 16 * 8 + (idx % 8).setWidth 16

/-- `pixel_y_q`: the row of a sample of a block. -/
def pixelY (id : BitVec 32) (idx : BitVec 6) : BitVec 16 :=
  (id.extractLsb' 16 14).setWidth 16 * 8 + (idx / 8).setWidth 16

/-- A product with a fixed-point factor (`>>> 12` of a signed number). -/
def scaled (value : BitVec 32) (factor : BitVec 32) : BitVec 32 :=
  (value * factor).sshiftRight 12

/-- `r_conv_r`, `g_conv_r` and `b_conv_r`. -/
def conv (mode : ImageMode) (y cb cr : BitVec 32) :
    BitVec 32 × BitVec 32 × BitVec 32 :=
  if mode = .monochrome then (128 + y, 128 + y, 128 + y)
  else
    (128 + y + scaled cr 5743,
      128 + y - scaled cb 1410 - scaled cr 2925,
      128 + y + scaled cb 7258)

/-- `pixel_r_q`: the byte of a channel, saturated by its sign. -/
def channel (value : BitVec 32) : BitVec 8 :=
  if value.extractLsb' 8 24 != 0 then value.extractLsb' 24 8 ^^^ 0xFF
  else value.extractLsb' 0 8

/-- The registers after the clock edge. -/
def step (s : State) (i : Input) : State :=
  let clear := i.rst || i.imgStart
  let space := outputSpace s i
  let rgb :=
    conv i.imgMode s.uRamY.dataOutO s.uRamCb.dataOutO s.uRamCr.dataOutO
  { uRamY := s.uRamY.step (ramInput .y s i)
    uRamCb :=
      s.uRamCb.step i.rst (i.imgMode == .ycbcr420) (ramInput .cb s i)
    uRamCr :=
      s.uRamCr.step i.rst (i.imgMode == .ycbcr420) (ramInput .cr s i)
    uInfo :=
      if clear then s.uInfo.flushed
      else s.uInfo.step (idPush i) (idPop s i)
    idxQ := if clear then 0 else if pops s i then s.idxQ + 1 else s.idxQ
    subsmplQ :=
      if clear then 0
      else if pops s i && i.imgMode == .ycbcr420 && s.idxQ == 63 then
        s.subsmplQ + 1
      else s.subsmplQ
    activeQ :=
      if clear then false
      else if !s.activeQ then begins s i.imgMode
      else if pops s i && s.idxQ == 63 then false
      else s.activeQ
    validQ :=
      if i.rst then false
      else if space then
        s.activeQ && typeOf (idValue s) != McuProc.BlockType.eof.code
      else s.validQ
    pixelXQ :=
      if i.rst then 0
      else if space then pixelX (idValue s) s.idxQ
      else s.pixelXQ
    pixelYQ :=
      if i.rst then 0
      else if space then pixelY (idValue s) s.idxQ
      else s.pixelYQ
    pixelRQ :=
      if i.rst then 0 else if space then channel rgb.1 else s.pixelRQ
    pixelGQ :=
      if i.rst then 0 else if space then channel rgb.2.1 else s.pixelGQ
    pixelBQ :=
      if i.rst then 0 else if space then channel rgb.2.2 else s.pixelBQ
    idleQ :=
      if i.rst then true
      else if i.imgStart then false
      else if s.uInfo.validO &&
          typeOf (idValue s) == McuProc.BlockType.eof.code then true
      else s.idleQ }

/-- `core_out_last` of `jpeg_core_wrapper`. -/
def coreOutLast (width height : BitVec 16) (x y : BitVec 16) : Bool :=
  x == width - 1 && y == height - 1

end CoreJpeg.JpegOutput
