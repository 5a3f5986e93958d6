import CoreJpeg.InputModel

namespace CoreJpeg.JpegDqt

/-!
# The quantisation tables

`jpeg_dqt` takes the payload of a DQT segment byte by byte into one RAM, and
multiplies each coefficient on its way to the inverse transform by the
quantiser of its block's component.  The multiplication takes two cycles, and
both configuration and reading use the one port of the RAM.  This module
transcribes its registers and wires.
-/

/-- The input pins sampled in one clock cycle. -/
structure Input where
  rst : Bool
  imgStart : Bool
  imgDqtTableY : BitVec 2
  imgDqtTableCb : BitVec 2
  imgDqtTableCr : BitVec 2
  cfgValid : Bool
  cfgData : Byte
  cfgLast : Bool
  inportValid : Bool
  inportData : BitVec 16
  inportIdx : BitVec 6
  inportId : BitVec 32
  inportEob : Bool
  outportAccept : Bool
  deriving Repr, DecidableEq

/-- The registers of the configuration port and the table RAM. -/
structure Loader where
  idxQ : BitVec 8
  cfgTableQ : BitVec 2
  tableDqtQ : BitVec 8 → Byte

/-- One stage of the multiplication pipeline. -/
structure Stage where
  validQ : Bool
  dataQ : BitVec 16
  idxQ : BitVec 6
  idQ : BitVec 32
  eobQ : Bool
  deriving Repr, DecidableEq

/-- The registers and the table RAM. -/
structure State where
  loader : Loader
  dqtEntryQ : Byte
  inport : Stage
  outport : Stage

/-- A stage after reset. -/
def Stage.reset : Stage where
  validQ := false
  dataQ := 0
  idxQ := 0
  idQ := 0
  eobQ := false

/-- Register values after `rst_i`; the RAM and its read register have none. -/
def reset (tableDqtQ : BitVec 8 → Byte) (dqtEntryQ : Byte) : State where
  loader := { idxQ := 0xFF, cfgTableQ := 0, tableDqtQ := tableDqtQ }
  dqtEntryQ := dqtEntryQ
  inport := .reset
  outport := .reset

/-! ## The configuration port -/

/-- `dqt_write_w`. -/
def dqtWrite (s : Loader) (i : Input) : Bool :=
  i.cfgValid && s.idxQ != 0xFF

/-- `cfg_table_addr_w`. -/
def cfgTableAddr (s : Loader) : BitVec 8 :=
  s.cfgTableQ ++ s.idxQ.extractLsb' 0 6

/-- `table_src_w` of a block's type. -/
def tableSrc (i : Input) (id : BitVec 32) : BitVec 2 :=
  match (id.extractLsb' 30 2).toNat with
  | 0 => i.imgDqtTableY
  | 1 => i.imgDqtTableCb
  | 2 => i.imgDqtTableCr
  | _ => 0

/-- `table_rd_idx_w`. -/
def tableRdIdx (i : Input) : BitVec 8 := tableSrc i i.inportId ++ i.inportIdx

/-- `dqt_table_addr_w`. -/
def dqtTableAddr (s : Loader) (i : Input) : BitVec 8 :=
  if dqtWrite s i then cfgTableAddr s else tableRdIdx i

/-- The configuration registers and the RAM after the clock edge. -/
def Loader.step (s : Loader) (i : Input) : Loader where
  idxQ :=
    if i.rst then 0xFF
    else if i.cfgValid && i.cfgLast then 0xFF
    else if i.cfgValid then s.idxQ + 1
    else s.idxQ
  cfgTableQ :=
    if i.rst then 0
    else if i.cfgValid && s.idxQ == 0xFF then i.cfgData.extractLsb' 0 2
    else s.cfgTableQ
  tableDqtQ := fun address =>
    if dqtWrite s i && address == dqtTableAddr s i then i.cfgData
    else s.tableDqtQ address

/-! ## The pipeline -/

/-- `dezigzag`. -/
def dezigzag (idx : BitVec 6) : BitVec 6 :=
  BitVec.ofNat 6 (
    [ 0,  1,  8, 16,  9,  2,  3, 10,
     17, 24, 32, 25, 18, 11,  4,  5,
     12, 19, 26, 33, 40, 48, 41, 34,
     27, 20, 13,  6,  7, 14, 21, 28,
     35, 42, 49, 56, 57, 50, 43, 36,
     29, 22, 15, 23, 30, 37, 44, 51,
     58, 59, 52, 45, 38, 31, 39, 46,
     53, 60, 61, 54, 47, 55, 62].getD idx.toNat 63)

/-- The registers and the RAM after the clock edge. -/
def step (s : State) (i : Input) : State where
  loader := s.loader.step i
  dqtEntryQ := s.loader.tableDqtQ (dqtTableAddr s.loader i)
  inport :=
    if i.rst then .reset
    else {
      validQ := i.inportValid && !i.imgStart
      dataQ := i.inportData
      idxQ := i.inportIdx
      idQ := if i.inportValid then i.inportId else s.inport.idQ
      eobQ := i.inportEob }
  outport :=
    if i.rst then .reset
    else {
      validQ := s.inport.validQ && !i.imgStart
      dataQ := s.inport.dataQ * s.dqtEntryQ.setWidth 16
      idxQ := dezigzag s.inport.idxQ
      idQ := s.inport.idQ
      eobQ := s.inport.eobQ }

/-- The first stage takes what is on the pins. -/
theorem inport_step
    (s : State) {i : Input}
    (running : i.rst = false)
    (noStart : i.imgStart = false) :
    (step s i).inport =
      { validQ := i.inportValid
        dataQ := i.inportData
        idxQ := i.inportIdx
        idQ := if i.inportValid then i.inportId else s.inport.idQ
        eobQ := i.inportEob } := by
  simp [step, running, noStart]

/-- The second stage takes the product of the first. -/
theorem outport_step
    (s : State) {i : Input}
    (running : i.rst = false)
    (noStart : i.imgStart = false) :
    (step s i).outport =
      { validQ := s.inport.validQ
        dataQ := s.inport.dataQ * s.dqtEntryQ.setWidth 16
        idxQ := dezigzag s.inport.idxQ
        idQ := s.inport.idQ
        eobQ := s.inport.eobQ } := by
  simp [step, running, noStart]

/-- `inport_blk_space_o`. -/
def inportBlkSpace (s : State) (i : Input) : Bool :=
  i.outportAccept && !(s.outport.eobQ || s.inport.eobQ)

end CoreJpeg.JpegDqt
