import CoreJpeg.Clocked
import Mathlib.Algebra.Group.Nat.Defs

namespace CoreJpeg.JpegTop

/-!
# The decoder slots and the shared DMA engine

`jpeg_top` holds a FIFO of committed descriptors and a number of decoder
slots.  One arbiter hands descriptors to idle slots, one issues read
descriptors that refill the input FIFOs, one issues write descriptors that
drain the output FIFOs, and one lifecycle process keeps the book of addresses
and lengths.  This module transcribes their registers.  The register file
behind the MMIO port, the DMA engine, the FIFOs and the cores are inputs.
-/

/-- `$clog2`: the bits that count up to, but not including, a number. -/
def clog2 (count : Nat) : Nat :=
  if count ≤ 1 then 0 else (count - 1).log2 + 1

/-- So many bits do count up to the number. -/
theorem le_two_pow_clog2 (count : Nat) : count ≤ 2 ^ clog2 count := by
  unfold clog2
  split
  · omega
  · have below := Nat.lt_log2_self (n := count - 1)
    omega

/-- The parameters of `jpeg_top`; counts that must be powers of two by log. -/
structure Config where
  decoderIdxWidth : Nat
  strbWidthLog2 : Nat
  descFifoDepthLog2 : Nat
  inputFifoSlots : Nat
  outputFifoSlots : Nat
  addrWidth : Nat
  severalDecoders : 0 < decoderIdxWidth

namespace Config

/-- `AXI_DMA_STRB_WIDTH`: the bytes of one bus word. -/
def strbWidth (config : Config) : Nat := 2 ^ config.strbWidthLog2

/-- `InputFifoDepthBytes`. -/
def inputFifoDepthBytes (config : Config) : Nat :=
  config.inputFifoSlots * config.strbWidth

/-- `OutputFifoDepthBytes`. -/
def outputFifoDepthBytes (config : Config) : Nat :=
  config.outputFifoSlots * config.strbWidth

/-- `AxiDmaLenWidth`. -/
def lenWidth (config : Config) : Nat :=
  clog2 (max config.inputFifoDepthBytes config.outputFifoDepthBytes + 1)

/-- `InputFifoOccWidth`. -/
def inputOccWidth (config : Config) : Nat :=
  clog2 config.inputFifoDepthBytes + 1

/-- `OutputFifoOccWidth`. -/
def outputOccWidth (config : Config) : Nat :=
  clog2 config.outputFifoDepthBytes + 1

end Config

/-- A decoder slot index; increments wrap at the number of decoders. -/
abbrev Decoder (config : Config) := Fin (2 ^ config.decoderIdxWidth)

/-- The byte enables of one bus word. -/
abbrev Keep (config : Config) := BitVec config.strbWidth

/-- `axis_keep_count`: the bytes of a bus word. -/
def axisKeepCount {config : Config} (keep : Keep config) : Nat :=
  ((List.range config.strbWidth).filter keep.getLsbD).length

/-- One entry of the descriptor FIFO. -/
structure Descriptor where
  srcAddr : BitVec 64
  srcLen : BitVec 64
  dstAddr : BitVec 64
  id : BitVec 16
  deriving Repr, DecidableEq

/-- `decoder_slot_state_t`. -/
inductive SlotState where
  | idle
  | run
  | resetPulse
  | resetHold
  deriving Repr, DecidableEq

/-- The registers of one decoder slot. -/
structure Slot (config : Config) where
  slotState : SlotState
  haveDimensions : Bool
  coreResetPulse : Bool
  taskSrcAddr : BitVec config.addrWidth
  taskSrcLen : BitVec 32
  taskDstAddr : BitVec config.addrWidth
  writeBytesRemaining : BitVec 32
  taskId : BitVec 16
  imgWidth : BitVec 16
  imgHeight : BitVec 16
  inputFifoOccupiedLen : BitVec config.inputOccWidth
  outputFifoOccupiedLen : BitVec config.outputOccWidth
  deriving DecidableEq

/-- The pins of one decoder slot sampled in one clock cycle. -/
structure SlotInput (config : Config) where
  /-- `input_fifo_tready`. -/
  inputFifoTready : Bool
  /-- `core_in_tvalid && core_in_tready`, with the byte enables of the word. -/
  coreInPop : Option (Keep config)
  /-- `core_out_tvalid && core_out_tready`, with the byte enables. -/
  coreOutPush : Option (Keep config)
  /-- `output_fifo_tvalid`, with the byte enables of the first word. -/
  outputFifo : Option (Keep config)
  /-- `core_dims_valid`, with `core_out_width` and `core_out_height`. -/
  coreDims : Option (BitVec 16 × BitVec 16)

/-- The pins sampled in one clock cycle. -/
structure Input (config : Config) where
  rst : Bool
  mmioResetPulse : Bool
  /-- `desc_fifo_push`, with the MMIO descriptor registers. -/
  descFifoPush : Option Descriptor
  slots : Decoder config → SlotInput config
  dmaReadDescReady : Bool
  /-- `dma_read_data_tvalid`, with the byte enables and the last flag. -/
  dmaReadData : Option (Keep config × Bool)
  dmaWriteDescReady : Bool
  dmaWriteDataTready : Bool
  dmaWriteDescStatusValid : Bool

/-- The registers of the slots, the arbiters and the descriptor FIFO. -/
structure State (config : Config) where
  slots : Decoder config → Slot config
  descFifo : BitVec config.descFifoDepthLog2 → Descriptor
  descFifoWrPtr : BitVec config.descFifoDepthLog2
  descFifoRdPtr : BitVec config.descFifoDepthLog2
  descFifoCount : BitVec (config.descFifoDepthLog2 + 1)
  descAssignValid : Bool
  descAssignDecoder : Decoder config
  dmaReadDescValid : Bool
  dmaReadDecoder : Decoder config
  dmaReadDescLen : BitVec config.lenWidth
  dmaReadDescAddr : BitVec config.addrWidth
  dmaWriteDescValid : Bool
  dmaWriteDescDecoder : Decoder config
  dmaWriteDescLen : BitVec config.lenWidth
  dmaWriteDescAddr : BitVec config.addrWidth
  readServiceActive : Bool
  readServiceDecoder : Decoder config
  readRrPtr : Decoder config
  writeServiceActive : Bool
  writeServiceDecoder : Decoder config
  writeRrPtr : Decoder config
  writeChunkDataDone : Bool
  writeChunkBytesSent : BitVec config.lenWidth

/-- An idle slot after reset. -/
def Slot.reset (config : Config) : Slot config where
  slotState := .idle
  haveDimensions := false
  coreResetPulse := false
  taskSrcAddr := 0
  taskSrcLen := 0
  taskDstAddr := 0
  writeBytesRemaining := 0
  taskId := 0
  imgWidth := 0
  imgHeight := 0
  inputFifoOccupiedLen := 0
  outputFifoOccupiedLen := 0

/-- An entry of the descriptor FIFO after reset. -/
def Descriptor.reset : Descriptor where
  srcAddr := 0
  srcLen := 0
  dstAddr := 0
  id := 0

section Circuit

variable {config : Config}

/--
Register values after a reset.  The descriptor assignment has no reset of its
own, so its registers are given.
-/
def State.reset
    (descAssign : Option (Decoder config)) : State config where
  slots := fun _ => .reset config
  descFifo := fun _ => .reset
  descFifoWrPtr := 0
  descFifoRdPtr := 0
  descFifoCount := 0
  descAssignValid := descAssign.isSome
  descAssignDecoder := descAssign.getD 0
  dmaReadDescValid := false
  dmaReadDecoder := 0
  dmaReadDescLen := 0
  dmaReadDescAddr := 0
  dmaWriteDescValid := false
  dmaWriteDescDecoder := 0
  dmaWriteDescLen := 0
  dmaWriteDescAddr := 0
  readServiceActive := false
  readServiceDecoder := 0
  readRrPtr := 0
  writeServiceActive := false
  writeServiceDecoder := 0
  writeRrPtr := 0
  writeChunkDataDone := false
  writeChunkBytesSent := 0

/-! ## Descriptor FIFO -/

def descFifoFull (s : State config) : Bool :=
  s.descFifoCount == BitVec.ofNat _ (2 ^ config.descFifoDepthLog2)

def descFifoEmpty (s : State config) : Bool := s.descFifoCount == 0

/-- The pop strobe: the registered assignment. -/
def descFifoPop (s : State config) : Bool := s.descAssignValid

/-- The next idle slot that takes a descriptor, unless one was just picked. -/
def descAssignNext (s : State config) : Option (Decoder config) :=
  if s.descAssignValid || descFifoEmpty s then none
  else (List.finRange _).find? fun decoder =>
    (s.slots decoder).slotState == .idle

/-- The descriptor at the read pointer. -/
def descFifoHead (s : State config) : Descriptor :=
  s.descFifo s.descFifoRdPtr

/-- `desc_fifo_push && !desc_fifo_full`, with the entry. -/
def descFifoStore (s : State config) (i : Input config) :
    Option Descriptor :=
  if descFifoFull s then none else i.descFifoPush

def descFifoCountNext (s : State config) (i : Input config) :
    BitVec (config.descFifoDepthLog2 + 1) :=
  match (descFifoStore s i).isSome, descFifoPop s && !descFifoEmpty s with
  | true, false => s.descFifoCount + 1
  | false, true => s.descFifoCount - 1
  | _, _ => s.descFifoCount

/-! ## Arbitration -/

/-- All decoders in round-robin order from a pointer. -/
def roundRobin (pointer : Decoder config) : List (Decoder config) :=
  (List.finRange _).map fun offset => pointer + offset

/-- `input_fifo_free_bytes`: the free input bytes in whole bus words. -/
def inputFifoFreeBytes (slot : Slot config) :
    BitVec config.inputOccWidth :=
  ((BitVec.ofNat 32 config.inputFifoDepthBytes -
      slot.inputFifoOccupiedLen.setWidth 32) &&&
    ~~~ BitVec.ofNat 32 (config.strbWidth - 1)).setWidth _

def canIssueRead (slot : Slot config) : Bool :=
  slot.slotState == .run && slot.taskSrcLen != 0 &&
    inputFifoFreeBytes slot != 0

/-- The transfer size of a read: the source left, at most the free bytes. -/
def readLen (slot : Slot config) : BitVec config.lenWidth :=
  if (inputFifoFreeBytes slot).toNat < slot.taskSrcLen.toNat then
    (inputFifoFreeBytes slot).setWidth _
  else slot.taskSrcLen.setWidth _

/-- The decoder a read descriptor is chosen for in this cycle. -/
def dmaReadChoice (s : State config) : Option (Decoder config) :=
  if s.readServiceActive then none
  else (roundRobin s.readRrPtr).find? fun decoder =>
    canIssueRead (s.slots decoder)

def canIssueWrite (slot : Slot config) : Bool :=
  slot.slotState == .run && slot.haveDimensions &&
    slot.writeBytesRemaining != 0 && slot.outputFifoOccupiedLen != 0

/-- The transfer size of a write: the image left, at most the output bytes. -/
def writeLen (slot : Slot config) : BitVec config.lenWidth :=
  if slot.writeBytesRemaining.toNat < slot.outputFifoOccupiedLen.toNat then
    slot.writeBytesRemaining.setWidth _
  else slot.outputFifoOccupiedLen.setWidth _

/-- The decoder a write descriptor is chosen for in this cycle. -/
def dmaWriteChoice (s : State config) : Option (Decoder config) :=
  if s.writeServiceActive then none
  else (roundRobin s.writeRrPtr).find? fun decoder =>
    canIssueWrite (s.slots decoder)

/-- `dma_read_desc_len` after this cycle: re-chosen while no read is served. -/
def dmaReadDescLenNext (s : State config) : BitVec config.lenWidth :=
  match dmaReadChoice s with
  | some decoder => readLen (s.slots decoder)
  | none => s.dmaReadDescLen

/-- `dma_write_desc_len` after this cycle, re-chosen in the same way. -/
def dmaWriteDescLenNext (s : State config) : BitVec config.lenWidth :=
  match dmaWriteChoice s with
  | some decoder => writeLen (s.slots decoder)
  | none => s.dmaWriteDescLen

def dmaReadDescFire (s : State config) (i : Input config) : Bool :=
  s.dmaReadDescValid && i.dmaReadDescReady

def dmaWriteDescFire (s : State config) (i : Input config) : Bool :=
  s.dmaWriteDescValid && i.dmaWriteDescReady

/-! ## Data routing -/

/-- The read word offered to one input FIFO, with its last flag. -/
def inputFifoOffer (s : State config) (i : Input config)
    (decoder : Decoder config) : Option (Keep config × Bool) :=
  if s.readServiceActive && decoder == s.readServiceDecoder then
    i.dmaReadData
  else none

/-- `dma_read_data_fire`: the read word taken by the served input FIFO. -/
def dmaReadDataFire (s : State config) (i : Input config) :
    Option (Keep config × Bool) :=
  if s.readServiceActive &&
      (i.slots s.readServiceDecoder).inputFifoTready then
    i.dmaReadData
  else none

/-- The last read word of a descriptor is taken. -/
def dmaReadDataLast (s : State config) (i : Input config) : Bool :=
  (dmaReadDataFire s i).any fun word => word.2

/-- `dma_write_data_fire`: the output word taken by the DMA engine. -/
def dmaWriteDataFire (s : State config) (i : Input config) :
    Option (Keep config) :=
  if s.writeServiceActive && !s.writeChunkDataDone &&
      i.dmaWriteDataTready then
    (i.slots s.writeServiceDecoder).outputFifo
  else none

/-- `dma_write_data_tlast` for a word. -/
def dmaWriteDataTlast (s : State config) (keep : Keep config) : Bool :=
  !s.writeChunkDataDone &&
    s.writeChunkBytesSent + BitVec.ofNat _ (axisKeepCount keep) ==
      s.dmaWriteDescLen

/-- The last output word of a descriptor is taken. -/
def dmaWriteDataLast (s : State config) (i : Input config) : Bool :=
  (dmaWriteDataFire s i).any (dmaWriteDataTlast s)

/-- `write_status_is_final`: the status of the descriptor that ends an image. -/
def writeStatusIsFinal (s : State config) (i : Input config) : Bool :=
  i.dmaWriteDescStatusValid &&
    (s.slots s.writeServiceDecoder).writeBytesRemaining ==
      s.dmaWriteDescLen.setWidth 32

/-- A completion record, as pushed to the completion FIFO. -/
structure Completion where
  taskId : BitVec 16
  imgWidth : BitVec 16
  imgHeight : BitVec 16
  deriving Repr, DecidableEq

/-- `cpl_fifo_push_data` with its push strobe. -/
def cplFifoPush (s : State config) (i : Input config) :
    Option Completion :=
  if writeStatusIsFinal s i then
    some {
      taskId := (s.slots s.writeServiceDecoder).taskId
      imgWidth := (s.slots s.writeServiceDecoder).imgWidth
      imgHeight := (s.slots s.writeServiceDecoder).imgHeight
    }
  else none

/-! ## Slot lifecycle -/

/-- The word taken by one input FIFO. -/
def inputFifoPush (s : State config) (i : Input config)
    (decoder : Decoder config) : Option (Keep config) :=
  if (i.slots decoder).inputFifoTready then
    (inputFifoOffer s i decoder).map fun word => word.1
  else none

/-- The word that leaves one output FIFO. -/
def outputFifoPop (s : State config) (i : Input config)
    (decoder : Decoder config) : Option (Keep config) :=
  if decoder == s.writeServiceDecoder then dmaWriteDataFire s i else none

/-- The bytes of a word that may be absent, in a counter's width. -/
def wordBytes (width : Nat) (word : Option (Keep config)) :
    BitVec width :=
  BitVec.ofNat width ((word.map axisKeepCount).getD 0)

/-- The image bytes of a frame, in the 32 bits of the counter. -/
def imageBytes (width height : BitVec 16) : BitVec 32 :=
  width.setWidth 32 * height.setWidth 32 * 3

/-- A task is over: no image byte and no source byte is left. -/
def taskDone (s : State config) (decoder : Decoder config) : Bool :=
  (s.slots decoder).slotState == .run &&
    (s.slots decoder).haveDimensions &&
    (s.slots decoder).writeBytesRemaining == 0 &&
    (s.slots decoder).taskSrcLen == 0 &&
    !s.readServiceActive && !s.writeServiceActive

/-- The slot state after the per-slot part of the lifecycle. -/
def slotStateLoop (s : State config) (decoder : Decoder config) :
    SlotState :=
  if taskDone s decoder then .resetPulse
  else match (s.slots decoder).slotState with
    | .resetPulse => .resetHold
    | .resetHold => .idle
    | other => other

/-- The per-slot part of the lifecycle: counters, reset and dimensions. -/
def slotLoop (s : State config) (i : Input config)
    (decoder : Decoder config) : Slot config :=
  let slot := s.slots decoder
  let kept : Slot config := { slot with
    slotState := slotStateLoop s decoder
    coreResetPulse := slot.slotState == .resetPulse
    inputFifoOccupiedLen := slot.inputFifoOccupiedLen +
      wordBytes _ (inputFifoPush s i decoder) -
      wordBytes _ (i.slots decoder).coreInPop
    outputFifoOccupiedLen := slot.outputFifoOccupiedLen +
      wordBytes _ (i.slots decoder).coreOutPush -
      wordBytes _ (outputFifoPop s i decoder) }
  match (i.slots decoder).coreDims with
  | some (width, height) => { kept with
      haveDimensions := true
      imgWidth := width
      imgHeight := height
      writeBytesRemaining := imageBytes width height }
  | none => kept

/-- The later part of the lifecycle when a descriptor is popped for a slot. -/
def slotAssign (desc : Descriptor) (slot : Slot config) : Slot config :=
  { slot with
    slotState := .run
    haveDimensions := false
    inputFifoOccupiedLen := 0
    outputFifoOccupiedLen := 0
    taskSrcAddr := desc.srcAddr.setWidth _
    taskSrcLen := desc.srcLen.setWidth _
    taskDstAddr := desc.dstAddr.setWidth _
    writeBytesRemaining := 0
    taskId := desc.id
    imgWidth := 0
    imgHeight := 0 }

/-- The later part when the last read word of the served slot is taken. -/
def slotReadDone (s : State config) (slot : Slot config) : Slot config :=
  let served := s.slots s.readServiceDecoder
  { slot with
    taskSrcAddr := served.taskSrcAddr + s.dmaReadDescLen.setWidth _
    taskSrcLen := served.taskSrcLen - s.dmaReadDescLen.setWidth _ }

/-- The later part when the write of the served slot is reported. -/
def slotWriteDone (s : State config) (slot : Slot config) : Slot config :=
  let served := s.slots s.writeServiceDecoder
  { slot with
    taskDstAddr := served.taskDstAddr + s.dmaWriteDescLen.setWidth _
    writeBytesRemaining :=
      served.writeBytesRemaining - s.dmaWriteDescLen.setWidth _ }

/-- A descriptor is popped for this slot. -/
def assignsTo (s : State config) (decoder : Decoder config) : Bool :=
  descFifoPop s && decoder == s.descAssignDecoder

/-- The last read word of this slot's descriptor is taken. -/
def readDoneFor (s : State config) (i : Input config)
    (decoder : Decoder config) : Bool :=
  dmaReadDataLast s i && decoder == s.readServiceDecoder

/-- The write of this slot is reported. -/
def writeDoneFor (s : State config) (i : Input config)
    (decoder : Decoder config) : Bool :=
  i.dmaWriteDescStatusValid && decoder == s.writeServiceDecoder

/-- A slot's registers after one cycle; later assignments take precedence. -/
def slotNext (s : State config) (i : Input config)
    (decoder : Decoder config) : Slot config :=
  let looped := slotLoop s i decoder
  let assigned :=
    if assignsTo s decoder then slotAssign (descFifoHead s) looped
    else looped
  let read :=
    if readDoneFor s i decoder then slotReadDone s assigned else assigned
  if writeDoneFor s i decoder then slotWriteDone s read else read

/-- The reset of one core and its FIFOs (`core_rst`). -/
def coreRst (s : State config) (i : Input config)
    (decoder : Decoder config) : Bool :=
  i.rst || i.mmioResetPulse || (s.slots decoder).coreResetPulse

/-- One clock edge. -/
def step (s : State config) (i : Input config) : State config :=
  if i.rst || i.mmioResetPulse then .reset (descAssignNext s)
  else {
    slots := slotNext s i
    descFifo := fun entry =>
      if entry = s.descFifoWrPtr then
        (descFifoStore s i).getD (s.descFifo entry)
      else s.descFifo entry
    descFifoWrPtr :=
      if (descFifoStore s i).isSome then s.descFifoWrPtr + 1
      else s.descFifoWrPtr
    descFifoRdPtr :=
      if descFifoPop s && !descFifoEmpty s then s.descFifoRdPtr + 1
      else s.descFifoRdPtr
    descFifoCount := descFifoCountNext s i
    descAssignValid := (descAssignNext s).isSome
    descAssignDecoder := (descAssignNext s).getD 0
    dmaReadDescValid := (dmaReadChoice s).isSome
    dmaReadDecoder := (dmaReadChoice s).getD s.dmaReadDecoder
    dmaReadDescLen := dmaReadDescLenNext s
    dmaReadDescAddr :=
      ((dmaReadChoice s).map fun decoder =>
        (s.slots decoder).taskSrcAddr).getD s.dmaReadDescAddr
    dmaWriteDescValid := (dmaWriteChoice s).isSome
    dmaWriteDescDecoder := (dmaWriteChoice s).getD s.dmaWriteDescDecoder
    dmaWriteDescLen := dmaWriteDescLenNext s
    dmaWriteDescAddr :=
      ((dmaWriteChoice s).map fun decoder =>
        (s.slots decoder).taskDstAddr).getD s.dmaWriteDescAddr
    readServiceActive :=
      if dmaReadDataLast s i then false
      else if dmaReadDescFire s i then true
      else s.readServiceActive
    readServiceDecoder :=
      if dmaReadDescFire s i then s.dmaReadDecoder
      else s.readServiceDecoder
    readRrPtr :=
      if dmaReadDescFire s i then s.dmaReadDecoder + 1 else s.readRrPtr
    writeServiceActive :=
      if i.dmaWriteDescStatusValid then false
      else if dmaWriteDescFire s i then true
      else s.writeServiceActive
    writeServiceDecoder :=
      if dmaWriteDescFire s i then s.dmaWriteDescDecoder
      else s.writeServiceDecoder
    writeRrPtr :=
      if dmaWriteDescFire s i then s.dmaWriteDescDecoder + 1
      else s.writeRrPtr
    writeChunkDataDone :=
      if i.dmaWriteDescStatusValid then false
      else if dmaWriteDataLast s i then true
      else s.writeChunkDataDone
    writeChunkBytesSent :=
      if i.dmaWriteDescStatusValid then 0
      else s.writeChunkBytesSent +
        wordBytes _ (dmaWriteDataFire s i)
  }

end Circuit

end CoreJpeg.JpegTop
