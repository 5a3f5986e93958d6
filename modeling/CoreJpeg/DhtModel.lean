import CoreJpeg.InputModel

namespace CoreJpeg.JpegDht

/-!
# The writable Huffman tables

`jpeg_dht` with `SUPPORT_WRITABLE_DHT` takes the payload of a DHT segment byte
by byte.  Of each code length of a table it keeps the first code word, the
number after the last one and the RAM address of the first symbol; a lookup
picks the first length at which the window is below the latter.  This module
transcribes its registers and wires.
-/

/-- The tables of the decoder (`DHT_TABLE_*`). -/
inductive TableName where
  | yDc
  | yAc
  | cxDc
  | cxAc
  deriving Repr, DecidableEq

/-- `*_min_code_q`, `*_max_code_q` and `*_ptr_q` of one table. -/
structure TableRegs where
  minCodeQ : BitVec 4 → BitVec 16
  maxCodeQ : BitVec 4 → BitVec 16
  ptrQ : BitVec 4 → BitVec 10

/-- The input pins sampled in one clock cycle. -/
structure Input where
  rst : Bool
  cfgValid : Bool
  cfgData : Byte
  cfgLast : Bool
  lookupReq : Bool
  lookupTable : BitVec 2
  lookupInput : BitVec 16
  deriving Repr, DecidableEq

/-- The registers and the symbol RAM. -/
structure State where
  idxQ : BitVec 12
  cfgTableQ : Byte
  numEntriesQ : BitVec 4 → Byte
  hasEntriesQ : BitVec 16
  totalEntriesQ : BitVec 12
  iQ : BitVec 4
  jQ : BitVec 8
  codeQ : BitVec 16
  nextPtrQ : BitVec 10
  tables : TableName → TableRegs
  lookupWidthQ : BitVec 4
  lookupTableQ : BitVec 2
  ram : BitVec 10 → Byte
  dataValueQ : Byte
  lookupValidQ : Bool
  lookupValid2Q : Bool
  lookupWidth2Q : BitVec 5

/-- A table after reset. -/
def TableRegs.reset : TableRegs where
  minCodeQ := fun _ => 0
  maxCodeQ := fun _ => 0
  ptrQ := fun _ => 0

/-- The table that a `cfg_table_q` selects. -/
def cfgTable (info : Byte) : TableName :=
  if info = 0x00 then .yDc
  else if info = 0x10 then .yAc
  else if info = 0x01 then .cxDc
  else .cxAc

/-- The table that a `lookup_table_i` selects. -/
def lookupTable (index : BitVec 2) : TableName :=
  if index = 0 then .yDc
  else if index = 1 then .yAc
  else if index = 2 then .cxDc
  else .cxAc

/-! ## Handshaking -/

/-- `idx_q` is ahead of the symbols: at the table byte or at the counts. -/
def inHeader (s : State) : Bool := s.idxQ < 16 || s.idxQ == 0xFFF

def cfgAcceptO (s : State) : Bool :=
  s.hasEntriesQ.getLsbD s.iQ.toNat || inHeader s

/-- A configuration byte is taken in this cycle. -/
def accepts (s : State) (i : Input) : Bool := i.cfgValid && cfgAcceptO s

/-- `cfg_last_w`: the last byte of the segment or of a table. -/
def cfgLastW (s : State) (i : Input) : Bool :=
  i.cfgLast || (s.totalEntriesQ == s.idxQ && 16 ≤ s.idxQ)

/-- A table ends in this cycle. -/
def ends (s : State) (i : Input) : Bool := accepts s i && cfgLastW s i

/-- `alloc_entry_w`: the byte is a symbol. -/
def allocEntryW (s : State) (i : Input) : Bool :=
  accepts s i && (16 ≤ s.idxQ && s.idxQ != 0xFFF)

/-! ## Loading -/

def idxNext (s : State) (i : Input) : BitVec 12 :=
  if ends s i then 0xFFF
  else if accepts s i then s.idxQ + 1
  else s.idxQ

def cfgTableNext (s : State) (i : Input) : Byte :=
  if accepts s i && s.idxQ == 0xFFF then i.cfgData else s.cfgTableQ

/-- The byte is the symbol count of a code length. -/
def counting (s : State) (i : Input) : Bool := accepts s i && s.idxQ < 16

def numEntriesNext (s : State) (i : Input) : BitVec 4 → Byte :=
  if counting s i then fun length =>
    if length = s.idxQ.setWidth 4 then i.cfgData else s.numEntriesQ length
  else if ends s i then fun _ => 0
  else s.numEntriesQ

def hasEntriesNext (s : State) (i : Input) : BitVec 16 :=
  if counting s i then
    let bit := BitVec.twoPow 16 (s.idxQ.setWidth 4).toNat
    if i.cfgData != 0 then s.hasEntriesQ ||| bit
    else s.hasEntriesQ &&& ~~~ bit
  else if ends s i then 0
  else s.hasEntriesQ

def totalEntriesNext (s : State) (i : Input) : BitVec 12 :=
  if counting s i then s.totalEntriesQ + i.cfgData.setWidth 12
  else if ends s i then 15
  else s.totalEntriesQ

/-- The last symbol of the present code length. -/
def lastOfLength (s : State) : Bool := s.jQ + 1 == s.numEntriesQ s.iQ

def iNext (s : State) (i : Input) : BitVec 4 :=
  if inHeader s then 0
  else if accepts s i then (if lastOfLength s then s.iQ + 1 else s.iQ)
  -- an empty code length is passed while the byte waits
  else if i.cfgValid then s.iQ + 1
  else s.iQ

def jNext (s : State) (i : Input) : BitVec 8 :=
  if inHeader s then 0
  else if accepts s i then (if lastOfLength s then 0 else s.jQ + 1)
  else s.jQ

def codeNext (s : State) (i : Input) : BitVec 16 :=
  if inHeader s then 0
  else if accepts s i then
    (if lastOfLength s then (s.codeQ + 1) <<< 1 else s.codeQ + 1)
  else if i.cfgValid then s.codeQ <<< 1
  else s.codeQ

/-- The registers of the present code length are written. -/
def TableRegs.fill (regs : TableRegs) (s : State) : TableRegs where
  minCodeQ := fun length =>
    if length = s.iQ then s.codeQ else regs.minCodeQ length
  maxCodeQ := fun length =>
    if length = s.iQ then s.codeQ + (s.numEntriesQ s.iQ).setWidth 16
    else regs.maxCodeQ length
  ptrQ := fun length =>
    if length = s.iQ then s.nextPtrQ else regs.ptrQ length

def tablesNext (s : State) (i : Input) : TableName → TableRegs :=
  if !inHeader s && accepts s i && s.jQ == 0 then fun table =>
    if table = cfgTable s.cfgTableQ then (s.tables table).fill s
    else s.tables table
  else s.tables

def nextPtrNext (s : State) (i : Input) : BitVec 10 :=
  if allocEntryW s i then s.nextPtrQ + 1 else s.nextPtrQ

def ramNext (s : State) (i : Input) : BitVec 10 → Byte :=
  if allocEntryW s i then fun address =>
    if address = s.nextPtrQ then i.cfgData else s.ram address
  else s.ram

/-! ## Lookup -/

/-- `*_width_r`: the first length at which the window is below the end. -/
def widthR (regs : TableRegs) (window : BitVec 16) : BitVec 4 :=
  BitVec.ofNat 4
    (((List.range 15).find? fun length =>
      window >>> (15 - length) <
        regs.maxCodeQ (BitVec.ofNat 4 length)).getD 15)

/-- `lookup_addr_r`. -/
def lookupAddrR (s : State) (i : Input) : BitVec 16 :=
  let regs := s.tables (lookupTable s.lookupTableQ)
  let inputCode := i.lookupInput >>> (15 - s.lookupWidthQ.toNat)
  inputCode - regs.minCodeQ s.lookupWidthQ +
    (regs.ptrQ s.lookupWidthQ).setWidth 16

def lookupValidO (s : State) : Bool := s.lookupValid2Q

def lookupWidthO (s : State) : BitVec 5 := s.lookupWidth2Q

def lookupValueO (s : State) : Byte := s.dataValueQ

/-! ## Clock edge -/

/-- Register values after a reset; the RAM and its output have none. -/
def reset (s : State) (i : Input) : State where
  idxQ := 0xFFF
  cfgTableQ := 0
  numEntriesQ := fun _ => 0
  hasEntriesQ := 0
  totalEntriesQ := 15
  iQ := 0
  jQ := 0
  codeQ := 0
  nextPtrQ := 0
  tables := fun _ => .reset
  lookupWidthQ := 0
  lookupTableQ := 0
  ram := ramNext s i
  dataValueQ := s.ram ((lookupAddrR s i).setWidth 10)
  lookupValidQ := false
  lookupValid2Q := false
  lookupWidth2Q := 0

/-- One clock edge. -/
def step (s : State) (i : Input) : State :=
  if i.rst then reset s i
  else {
    idxQ := idxNext s i
    cfgTableQ := cfgTableNext s i
    numEntriesQ := numEntriesNext s i
    hasEntriesQ := hasEntriesNext s i
    totalEntriesQ := totalEntriesNext s i
    iQ := iNext s i
    jQ := jNext s i
    codeQ := codeNext s i
    nextPtrQ := nextPtrNext s i
    tables := tablesNext s i
    lookupWidthQ :=
      widthR (s.tables (lookupTable i.lookupTable)) i.lookupInput
    lookupTableQ := i.lookupTable
    ram := ramNext s i
    dataValueQ := s.ram ((lookupAddrR s i).setWidth 10)
    lookupValidQ := i.lookupReq
    lookupValid2Q := s.lookupValidQ
    lookupWidth2Q := s.lookupWidthQ.setWidth 5 + 1
  }

end CoreJpeg.JpegDht
