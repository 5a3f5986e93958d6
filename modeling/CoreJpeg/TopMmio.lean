import CoreJpeg.RingBuffer
import CoreJpeg.TopCompletion

namespace CoreJpeg.JpegTop

open Clocked

/-!
# The register file and the completion FIFO

The host reaches `jpeg_top` through an AXI-Lite port: writes fill the
descriptor registers, commit a descriptor or pulse the reset, reads return the
free descriptor count and pop the completion FIFO.  This module transcribes
both paths and the completion FIFO and puts them around the slots with their
surroundings.  Of the addresses only the low byte is looked at.
-/

/-- `axil_wr_state_t`. -/
inductive AxilWrState where
  | idle
  | resp
  deriving Repr, DecidableEq

/-- `axil_rd_state_t`. -/
inductive AxilRdState where
  | idle
  | resp
  deriving Repr, DecidableEq

def regDescRscAddr : BitVec 8 := 0x00
def regDescSrcLen : BitVec 8 := 0x08
def regDescDstAddr : BitVec 8 := 0x10
def regDescId : BitVec 8 := 0x18
def regDescCommit : BitVec 8 := 0x20
def regDescFree : BitVec 8 := 0x28
def regCplStatus : BitVec 8 := 0x30
def regReset : BitVec 8 := 0x38
def regClockGateEnable : BitVec 8 := 0x40

/-- The registers of the AXI-Lite write path. -/
structure WritePath where
  sAxilBvalid : Bool
  axilWrState : AxilWrState
  descFifoPush : Bool
  mmioResetPulse : Bool
  mmioDescSrcAddrReg : BitVec 64
  mmioDescSrcLenReg : BitVec 64
  mmioDescDstAddrReg : BitVec 64
  mmioDescIdReg : BitVec 16
  mmioClkGateEnableReg : Bool
  awStored : Bool
  wStored : Bool
  awaddrHold : BitVec 8
  wdataHold : BitVec 64
  wstrbHold : BitVec 8
  deriving Repr, DecidableEq

/-- The registers of the AXI-Lite read path. -/
structure ReadPath where
  sAxilArready : Bool
  sAxilRdata : BitVec 64
  sAxilRvalid : Bool
  axilRdState : AxilRdState
  cplFifoPop : Bool
  deriving Repr, DecidableEq

/-- The completion FIFO. -/
structure CplFifo (config : Config) where
  data : BitVec config.descFifoDepthLog2 → BitVec 64
  wrPtr : BitVec config.descFifoDepthLog2
  rdPtr : BitVec config.descFifoDepthLog2
  count : BitVec (config.descFifoDepthLog2 + 1)

/-- The AXI-Lite pins the host drives in one clock cycle. -/
structure AxilInput where
  /-- `s_axil_awvalid`, with the low byte of `s_axil_awaddr`. -/
  aw : Option (BitVec 8)
  /-- `s_axil_wvalid`, with `s_axil_wdata` and `s_axil_wstrb`. -/
  w : Option (BitVec 64 × BitVec 8)
  bready : Bool
  /-- `s_axil_arvalid`, with the low byte of `s_axil_araddr`. -/
  ar : Option (BitVec 8)
  rready : Bool
  deriving Repr, DecidableEq

/-- The write path after reset. -/
def WritePath.reset : WritePath where
  sAxilBvalid := false
  axilWrState := .idle
  descFifoPush := false
  mmioResetPulse := false
  mmioDescSrcAddrReg := 0
  mmioDescSrcLenReg := 0
  mmioDescDstAddrReg := 0
  mmioDescIdReg := 0
  mmioClkGateEnableReg := false
  awStored := false
  wStored := false
  awaddrHold := 0
  wdataHold := 0
  wstrbHold := 0

/-- The read path after reset. -/
def ReadPath.reset : ReadPath where
  sAxilArready := false
  sAxilRdata := 0
  sAxilRvalid := false
  axilRdState := .idle
  cplFifoPop := false

/-- The completion FIFO after reset. -/
def CplFifo.reset (config : Config) : CplFifo config where
  data := fun _ => 0
  wrPtr := 0
  rdPtr := 0
  count := 0

/-! ## Write path -/

/-- The bits of the bytes that are written. -/
def strobeMask (strobe : BitVec 8) : BitVec 64 :=
  (List.range 8).foldl
    (fun mask byte =>
      if strobe.getLsbD byte then mask ||| (0xFF <<< (8 * byte)) else mask)
    0

/-- A register with the written bytes replaced. -/
def strobed {width : Nat} (register : BitVec width) (path : WritePath) :
    BitVec width :=
  let mask := strobeMask path.wstrbHold
  (register &&& ~~~ mask.setWidth width) |||
    (path.wdataHold &&& mask).setWidth width

namespace WritePath

/-- `s_axil_awready`, with the address. -/
def takesAddress (path : WritePath) (rst : Bool) (axil : AxilInput) :
    Option (BitVec 8) :=
  if !rst && path.axilWrState == .idle && !path.awStored then axil.aw
  else none

/-- `s_axil_wready`, with the data. -/
def takesData (path : WritePath) (rst : Bool) (axil : AxilInput) :
    Option (BitVec 64 × BitVec 8) :=
  if !rst && path.axilWrState == .idle && !path.wStored then axil.w
  else none

/-- A write with both of its parts is executed. -/
def executes (path : WritePath) : Bool :=
  path.axilWrState == .idle && path.awStored && path.wStored

/-- The descriptor in the MMIO registers. -/
def descriptor (path : WritePath) : Descriptor where
  srcAddr := path.mmioDescSrcAddrReg
  srcLen := path.mmioDescSrcLenReg
  dstAddr := path.mmioDescDstAddrReg
  id := path.mmioDescIdReg

/-- A write to `RegDescCommit` is executed. -/
def commits (path : WritePath) : Bool :=
  path.executes && path.awaddrHold == regDescCommit

/-- The write response is acknowledged on the B channel. -/
def acknowledged (path : WritePath) (axil : AxilInput) : Bool :=
  path.axilWrState == .resp && axil.bready

/-- The registers after the write in hold is executed. -/
def executed (path : WritePath) (descFifoFull : Bool) : WritePath :=
  let addr := path.awaddrHold
  if addr = regDescRscAddr then
    { path with
      mmioDescSrcAddrReg := strobed path.mmioDescSrcAddrReg path }
  else if addr = regDescSrcLen then
    { path with
      mmioDescSrcLenReg := strobed path.mmioDescSrcLenReg path }
  else if addr = regDescDstAddr then
    { path with
      mmioDescDstAddrReg := strobed path.mmioDescDstAddrReg path }
  else if addr = regDescId then
    { path with mmioDescIdReg := strobed path.mmioDescIdReg path }
  else if addr = regDescCommit then
    { path with descFifoPush := !descFifoFull }
  else if addr = regReset then
    { path with mmioResetPulse := path.wdataHold != 0 }
  else if addr = regClockGateEnable then
    { path with
      mmioClkGateEnableReg :=
        if path.wstrbHold.getLsbD 0 then path.wdataHold.getLsbD 0
        else path.mmioClkGateEnableReg }
  else path

/-- The write path after one clock edge. -/
def next (path : WritePath) (rst descFifoFull : Bool)
    (axil : AxilInput) : WritePath :=
  if rst then .reset
  else
    let quiet := { path with
      descFifoPush := false
      mmioResetPulse := false }
    match path.axilWrState with
    | .idle =>
        let held := { quiet with
          sAxilBvalid := false
          awaddrHold :=
            (path.takesAddress rst axil).getD path.awaddrHold
          awStored :=
            path.awStored || (path.takesAddress rst axil).isSome
          wdataHold :=
            ((path.takesData rst axil).map (·.1)).getD path.wdataHold
          wstrbHold :=
            ((path.takesData rst axil).map (·.2)).getD path.wstrbHold
          wStored := path.wStored || (path.takesData rst axil).isSome }
        if path.awStored && path.wStored then
          { held.executed descFifoFull with
            sAxilBvalid := true
            axilWrState := .resp }
        else held
    | .resp =>
        if axil.bready then
          { quiet with
            sAxilBvalid := false
            axilWrState := .idle
            awStored := false
            wStored := false }
        else quiet

end WritePath

/-! ## Read path and completion FIFO -/

/-- `cpl_fifo_push_data`. -/
def Completion.word (record : Completion) : BitVec 64 :=
  (record.imgHeight ++ record.imgWidth ++ record.taskId ++
    (1 : BitVec 16)).setWidth 64

/-- `DescFifoDepth`. -/
def Config.descFifoDepth (config : Config) : Nat :=
  2 ^ config.descFifoDepthLog2

namespace CplFifo

variable {config : Config}

def full (fifo : CplFifo config) : Bool :=
  fifo.count == BitVec.ofNat _ config.descFifoDepth

def empty (fifo : CplFifo config) : Bool := fifo.count == 0

/-- `cpl_fifo_push && !cpl_fifo_full`, with the record. -/
def store (fifo : CplFifo config) (push : Option Completion) :
    Option Completion :=
  if fifo.full then none else push

/-- The completion FIFO after one clock edge outside reset. -/
def next (fifo : CplFifo config) (push : Option Completion)
    (pop : Bool) : CplFifo config where
  data := fun entry =>
    if entry = fifo.wrPtr then
      ((fifo.store push).map Completion.word).getD (fifo.data entry)
    else fifo.data entry
  wrPtr :=
    if (fifo.store push).isSome then fifo.wrPtr + 1 else fifo.wrPtr
  rdPtr := if pop && !fifo.empty then fifo.rdPtr + 1 else fifo.rdPtr
  count :=
    match (fifo.store push).isSome, pop && !fifo.empty with
    | true, false => fifo.count + 1
    | false, true => fifo.count - 1
    | _, _ => fifo.count

end CplFifo

section Paths

variable {config : Config}

/-- The value of a register when it is read. -/
def mmioRead (path : WritePath) (top : State config)
    (fifo : CplFifo config) (addr : BitVec 8) : BitVec 64 :=
  if addr = regDescRscAddr then path.mmioDescSrcAddrReg
  else if addr = regDescSrcLen then path.mmioDescSrcLenReg
  else if addr = regDescDstAddr then path.mmioDescDstAddrReg
  else if addr = regDescId then path.mmioDescIdReg.setWidth 64
  else if addr = regDescFree then
    BitVec.ofNat 64 config.descFifoDepth - top.descFifoCount.setWidth 64
  else if addr = regCplStatus then
    if fifo.empty then 0 else fifo.data fifo.rdPtr
  else if addr = regClockGateEnable then
    (BitVec.ofBool path.mmioClkGateEnableReg).setWidth 64
  else 0

/-- The read path after one clock edge outside reset. -/
def ReadPath.next (read : ReadPath) (path : WritePath)
    (top : State config) (fifo : CplFifo config)
    (axil : AxilInput) : ReadPath :=
  match read.axilRdState with
  | .idle =>
      match axil.ar with
      | some addr => {
          sAxilArready := true
          sAxilRdata := mmioRead path top fifo addr
          sAxilRvalid := true
          axilRdState := .resp
          cplFifoPop := addr == regCplStatus && !fifo.empty }
      | none => { read with
          sAxilArready := true
          sAxilRvalid := false
          cplFifoPop := false }
  | .resp => { read with
      sAxilArready := false
      sAxilRvalid := read.sAxilRvalid && !axil.rready
      axilRdState := if axil.rready then .idle else .resp
      cplFifoPop := false }

end Paths

/-! ## The device -/

/-- `jpeg_top` with its surroundings. -/
structure Device (config : Config) where
  write : WritePath
  read : ReadPath
  cplFifo : CplFifo config
  sys : System config

/-- All pins sampled in one clock cycle. -/
structure DeviceInput (config : Config) where
  axil : AxilInput
  /-- The other pins; the strobes of the register file are overridden. -/
  pins : Input config

namespace Device

variable {config : Config}

/-- A device after reset. -/
def start (config : Config) : Device config where
  write := .reset
  read := .reset
  cplFifo := .reset config
  sys := .start config

/-- The inputs of the slots, with the strobes of the register file. -/
def topInput (device : Device config) (i : DeviceInput config) :
    Input config :=
  { i.pins with
    mmioResetPulse := device.write.mmioResetPulse
    descFifoPush :=
      if device.write.descFifoPush then some device.write.descriptor
      else none }

/-- `rst || mmio_reset_pulse`. -/
def inReset (device : Device config) (i : DeviceInput config) : Bool :=
  i.pins.rst || device.write.mmioResetPulse

/-- One clock edge. -/
def step (device : Device config) (i : DeviceInput config) :
    Device config where
  write :=
    device.write.next i.pins.rst (descFifoFull device.sys.top) i.axil
  read :=
    if device.inReset i then .reset
    else device.read.next device.write device.sys.top device.cplFifo i.axil
  cplFifo :=
    if device.inReset i then .reset config
    else device.cplFifo.next
      (JpegTop.cplFifoPush device.sys.top (device.topInput i))
      device.read.cplFifoPop
  sys := device.sys.step (device.topInput i)

end Device

end CoreJpeg.JpegTop
