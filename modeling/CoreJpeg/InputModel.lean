import CoreJpeg.Clocked

namespace CoreJpeg

/-!
# The JPEG byte-stream front end

`jpeg_input` takes 32-bit words, walks their byte lanes, recognises markers in
adjacent bytes and steers the bytes of each segment to the quantisation
tables, the Huffman tables, the frame header registers or the bit buffer.
This module transcribes its registers and wires.  The software decoder's
`SkipSegment`, which advances over a segment by its length field, is
transcribed beside it.
-/

/-- One byte of a JPEG stream. -/
abbrev Byte := BitVec 8

/-- Component layouts a frame header can select (`JPEG_*` of the RTL). -/
inductive ImageMode where
  | monochrome
  | ycbcr444
  | ycbcr420
  | unsupported
  deriving Repr, DecidableEq

namespace JpegInput

/-- The states of the front-end FSM (`STATE_*` of `jpeg_input.v`). -/
inductive FsmState where
  | idle
  | active
  | uxpLenh
  | uxpLenl
  | uxpData
  | dqtLenh
  | dqtLenl
  | dqtData
  | dhtLenh
  | dhtLenl
  | dhtData
  | imgLenh
  | imgLenl
  | imgSos
  | imgData
  | sofLenh
  | sofLenl
  | sofData
  deriving Repr, DecidableEq

/-- The input pins sampled in one clock cycle. -/
structure Input where
  rst : Bool
  inportValid : Bool
  inportData : BitVec 32
  inportStrb : BitVec 4
  inportLast : Bool
  dqtCfgAccept : Bool
  dhtCfgAccept : Bool
  dataAccept : Bool
  deriving Repr, DecidableEq

/-- The registers of the front end. -/
structure State where
  byteIdxQ : BitVec 2
  lastBQ : Byte
  stateQ : FsmState
  lengthQ : BitVec 16
  dataValidQ : Bool
  dataDataQ : Byte
  idxQ : BitVec 6
  imgPrecisionQ : Byte
  imgHeightQ : BitVec 16
  imgWidthQ : BitVec 16
  imgNumCompQ : Byte
  imgYFactorQ : Byte
  imgYDqtTableQ : BitVec 2
  imgCbFactorQ : Byte
  imgCbDqtTableQ : BitVec 2
  imgCrFactorQ : Byte
  imgCrDqtTableQ : BitVec 2
  imgModeQ : ImageMode
  eofQ : Bool
  startQ : Bool
  deriving Repr, DecidableEq

/-- Register values after `rst_i`. -/
def reset : State where
  byteIdxQ := 0
  lastBQ := 0
  stateQ := .idle
  lengthQ := 0
  dataValidQ := false
  dataDataQ := 0
  idxQ := 0
  imgPrecisionQ := 0
  imgHeightQ := 0
  imgWidthQ := 0
  imgNumCompQ := 0
  imgYFactorQ := 0
  imgYDqtTableQ := 0
  imgCbFactorQ := 0
  imgCbDqtTableQ := 0
  imgCrFactorQ := 0
  imgCrDqtTableQ := 0
  imgModeQ := .unsupported
  eofQ := true
  startQ := false

/-- Data mux: the strobed byte of the lane selected by the read index. -/
def dataR (s : State) (i : Input) : Byte :=
  match s.byteIdxQ.toNat with
  | 1 => if i.inportStrb[1] then i.inportData.extractLsb' 8 8 else 0
  | 2 => if i.inportStrb[2] then i.inportData.extractLsb' 16 8 else 0
  | 3 => if i.inportStrb[3] then i.inportData.extractLsb' 24 8 else 0
  | _ => if i.inportStrb[0] then i.inportData.extractLsb' 0 8 else 0

/-! ## Token decoder -/

/-- The two most recent bytes are `FF` and the given marker code. -/
def tokenW (code : Byte) (s : State) (i : Input) : Bool :=
  s.lastBQ == 0xFF && dataR s i == code

/-- The two most recent bytes are `FF` and a marker code in a range. -/
def tokenRangeW (low high : Byte) (s : State) (i : Input) : Bool :=
  s.lastBQ == 0xFF && (low ≤ dataR s i && dataR s i ≤ high)

def tokenSoiW : State → Input → Bool := tokenW 0xD8
def tokenSof0W : State → Input → Bool := tokenW 0xC0
def tokenDqtW : State → Input → Bool := tokenW 0xDB
def tokenDhtW : State → Input → Bool := tokenW 0xC4
def tokenEoiW : State → Input → Bool := tokenW 0xD9
def tokenSosW : State → Input → Bool := tokenW 0xDA
def tokenPadW : State → Input → Bool := tokenW 0x00
def tokenSof2W : State → Input → Bool := tokenW 0xC2
def tokenDriW : State → Input → Bool := tokenW 0xDD
def tokenRstW : State → Input → Bool := tokenRangeW 0xD0 0xD7
def tokenAppW : State → Input → Bool := tokenRangeW 0xE0 0xEF
def tokenComW : State → Input → Bool := tokenW 0xFE

/-! ## Handshaking -/

/-- `inport_accept_w`: the current byte is consumed when it is valid. -/
def inportAcceptW (s : State) (i : Input) : Bool :=
  match s.stateQ with
  | .dqtData => i.dqtCfgAccept
  | .dhtData => i.dhtCfgAccept
  | .imgData => i.dataAccept || tokenPadW s i
  | _ => true

/-- The last lane of the word is being read. -/
def lastByteW (s : State) (i : Input) : Bool :=
  s.byteIdxQ == 3 || i.inportLast

/-- `inport_accept_o`: the whole word is consumed. -/
def inportAcceptO (s : State) (i : Input) : Bool :=
  lastByteW s i && inportAcceptW s i

/-- The current byte is valid and consumed in this cycle. -/
def accepts (s : State) (i : Input) : Bool :=
  i.inportValid && inportAcceptW s i

/-! ## FSM -/

/-- The marker transitions of `STATE_ACTIVE`, in priority order. -/
def activeNextR (s : State) (i : Input) : FsmState :=
  if tokenEoiW s i then .idle
  else if tokenDqtW s i then .dqtLenh
  else if tokenDhtW s i then .dhtLenh
  else if tokenSosW s i then .imgLenh
  else if tokenSof0W s i then .sofLenh
  else if tokenSof2W s i || tokenDriW s i || tokenRstW s i ||
      tokenAppW s i || tokenComW s i then .uxpLenh
  else .active

/-- The transitions before the end-of-stream override. -/
def caseNextR (s : State) (i : Input) : FsmState :=
  match s.stateQ with
  | .idle => if tokenSoiW s i then .active else .idle
  | .active => activeNextR s i
  | .imgLenh => if i.inportValid then .imgLenl else .imgLenh
  | .imgLenl => if i.inportValid then .imgSos else .imgLenl
  | .imgSos =>
      if i.inportValid && s.lengthQ ≤ 1 then .imgData else .imgSos
  | .imgData => if tokenEoiW s i then .idle else .imgData
  | .dqtLenh => if i.inportValid then .dqtLenl else .dqtLenh
  | .dqtLenl => if i.inportValid then .dqtData else .dqtLenl
  | .dqtData =>
      if accepts s i && s.lengthQ ≤ 1 then .active else .dqtData
  | .sofLenh => if i.inportValid then .sofLenl else .sofLenh
  | .sofLenl => if i.inportValid then .sofData else .sofLenl
  | .sofData =>
      if accepts s i && s.lengthQ ≤ 1 then .active else .sofData
  | .dhtLenh => if i.inportValid then .dhtLenl else .dhtLenh
  | .dhtLenl => if i.inportValid then .dhtData else .dhtLenl
  | .dhtData =>
      if accepts s i && s.lengthQ ≤ 1 then .active else .dhtData
  | .uxpLenh => if i.inportValid then .uxpLenl else .uxpLenh
  | .uxpLenl => if i.inportValid then .uxpData else .uxpLenl
  | .uxpData =>
      if accepts s i && s.lengthQ ≤ 1 then .active else .uxpData

/-- `next_state_r`: the end of the data stream returns to idle. -/
def nextStateR (s : State) (i : Input) : FsmState :=
  if accepts s i && i.inportLast then .idle else caseNextR s i

/-! ## Configuration ports -/

def dqtCfgValidO (s : State) (i : Input) : Bool :=
  s.stateQ == .dqtData && i.inportValid

def dqtCfgDataO (s : State) (i : Input) : Byte := dataR s i

def dqtCfgLastO (s : State) (i : Input) : Bool :=
  i.inportLast || s.lengthQ == 1

def dhtCfgValidO (s : State) (i : Input) : Bool :=
  s.stateQ == .dhtData && i.inportValid

def dhtCfgDataO (s : State) (i : Input) : Byte := dataR s i

def dhtCfgLastO (s : State) (i : Input) : Bool :=
  i.inportLast || s.lengthQ == 1

/-! ## Scan data port -/

def dataValidO (s : State) (i : Input) : Bool :=
  s.dataValidQ && i.inportValid && !tokenEoiW s i

def dataDataO (s : State) : Byte := s.dataDataQ

def dataLastO (s : State) (i : Input) : Bool :=
  s.dataValidQ && i.inportValid && tokenEoiW s i

/-! ## Image outputs -/

def imgStartO (s : State) : Bool := s.startQ

def imgEndO (s : State) (i : Input) : Bool :=
  s.eofQ || (i.inportValid && tokenEoiW s i)

/-! ## Register updates -/

def byteIdxNext (s : State) (i : Input) : BitVec 2 :=
  if accepts s i && i.inportLast then 0
  else if accepts s i then s.byteIdxQ + 1
  else s.byteIdxQ

def lastBNext (s : State) (i : Input) : Byte :=
  if accepts s i then (if i.inportLast then 0 else dataR s i)
  else s.lastBQ

/-- The length counter: two loads, a decrement per payload byte. -/
def lengthNext (s : State) (i : Input) : BitVec 16 :=
  match s.stateQ with
  | .uxpLenh | .dqtLenh | .dhtLenh | .imgLenh | .sofLenh =>
      dataR s i ++ (0 : BitVec 8)
  | .uxpLenl | .dqtLenl | .dhtLenl | .imgLenl | .sofLenl =>
      -- the low byte replaces the high byte loaded one state earlier
      (dataR s i).setWidth 16 - 2
  | .uxpData | .dqtData | .dhtData | .sofData | .imgSos =>
      if accepts s i then s.lengthQ - 1 else s.lengthQ
  | _ => s.lengthQ

def dataValidNext (s : State) (i : Input) : Bool :=
  if i.inportValid && i.dataAccept then
    s.stateQ == .imgData &&
      (i.inportValid && !tokenPadW s i && !tokenEoiW s i)
  else if s.stateQ != .imgData then false
  else s.dataValidQ

def dataDataNext (s : State) (i : Input) : Byte :=
  if i.inportValid && i.dataAccept then dataR s i else s.dataDataQ

def idxNext (s : State) (i : Input) : BitVec 6 :=
  if accepts s i && s.stateQ == .sofData then s.idxQ + 1
  else if s.stateQ == .sofLenh then 0
  else s.idxQ

/--
A frame-header capture register: cleared by the SOF0 token, loaded in the
header's data state at one capture index.
-/
def captureNext {α : Type}
    (index : BitVec 6) (cleared loaded held : α)
    (s : State) (i : Input) : α :=
  if tokenSof0W s i then cleared
  else if s.stateQ == .sofData && s.idxQ == index then loaded
  else held

/-- A 16-bit capture register loaded in two byte steps. -/
def captureWordNext
    (index : BitVec 6) (held : BitVec 16)
    (s : State) (i : Input) : BitVec 16 :=
  if tokenSof0W s i then 0
  else if s.stateQ == .sofData && s.idxQ == index then
    dataR s i ++ (0 : BitVec 8)
  else if s.stateQ == .sofData && s.idxQ == index + 1 then
    held.extractLsb' 8 8 ++ dataR s i
  else held

def imgPrecisionNext (s : State) (i : Input) : Byte :=
  captureNext 0 0 (dataR s i) s.imgPrecisionQ s i

def imgHeightNext (s : State) (i : Input) : BitVec 16 :=
  captureWordNext 1 s.imgHeightQ s i

def imgWidthNext (s : State) (i : Input) : BitVec 16 :=
  captureWordNext 3 s.imgWidthQ s i

def imgNumCompNext (s : State) (i : Input) : Byte :=
  captureNext 5 0 (dataR s i) s.imgNumCompQ s i

def imgYFactorNext (s : State) (i : Input) : Byte :=
  captureNext 7 0 (dataR s i) s.imgYFactorQ s i

def imgYDqtTableNext (s : State) (i : Input) : BitVec 2 :=
  captureNext 8 0 ((dataR s i).extractLsb' 0 2) s.imgYDqtTableQ s i

def imgCbFactorNext (s : State) (i : Input) : Byte :=
  captureNext 10 0 (dataR s i) s.imgCbFactorQ s i

def imgCbDqtTableNext (s : State) (i : Input) : BitVec 2 :=
  captureNext 11 0 ((dataR s i).extractLsb' 0 2) s.imgCbDqtTableQ s i

def imgCrFactorNext (s : State) (i : Input) : Byte :=
  captureNext 13 0 (dataR s i) s.imgCrFactorQ s i

def imgCrDqtTableNext (s : State) (i : Input) : BitVec 2 :=
  captureNext 14 0 ((dataR s i).extractLsb' 0 2) s.imgCrDqtTableQ s i

def horizFactor (factor : Byte) : BitVec 4 := factor.extractLsb' 4 4

def vertFactor (factor : Byte) : BitVec 4 := factor.extractLsb' 0 4

/-- The mode derived from the captured component count and factors. -/
def imgModeNext (s : State) (i : Input) : ImageMode :=
  if tokenSof0W s i then .unsupported
  else if s.stateQ == .sofData && nextStateR s i == .active then
    if s.imgNumCompQ == 1 then .monochrome
    else if s.imgNumCompQ == 3 then
      if horizFactor s.imgYFactorQ == 1 && vertFactor s.imgYFactorQ == 1 &&
          horizFactor s.imgCbFactorQ == 1 &&
          vertFactor s.imgCbFactorQ == 1 &&
          horizFactor s.imgCrFactorQ == 1 &&
          vertFactor s.imgCrFactorQ == 1 then .ycbcr444
      else if horizFactor s.imgYFactorQ == 2 &&
          vertFactor s.imgYFactorQ == 2 &&
          horizFactor s.imgCbFactorQ == 1 &&
          vertFactor s.imgCbFactorQ == 1 &&
          horizFactor s.imgCrFactorQ == 1 &&
          vertFactor s.imgCrFactorQ == 1 then .ycbcr420
      else s.imgModeQ
    else s.imgModeQ
  else s.imgModeQ

def eofNext (s : State) (i : Input) : Bool :=
  if s.stateQ == .idle && tokenSoiW s i then false
  else if imgEndO s i then true
  else s.eofQ

def startNext (s : State) (i : Input) : Bool :=
  if i.inportValid && tokenSosW s i then false
  else if s.stateQ == .idle && tokenSoiW s i then true
  else s.startQ

/-- One clock edge of the front end. -/
def step (s : State) (i : Input) : State :=
  if i.rst then reset
  else {
    byteIdxQ := byteIdxNext s i
    lastBQ := lastBNext s i
    stateQ := nextStateR s i
    lengthQ := lengthNext s i
    dataValidQ := dataValidNext s i
    dataDataQ := dataDataNext s i
    idxQ := idxNext s i
    imgPrecisionQ := imgPrecisionNext s i
    imgHeightQ := imgHeightNext s i
    imgWidthQ := imgWidthNext s i
    imgNumCompQ := imgNumCompNext s i
    imgYFactorQ := imgYFactorNext s i
    imgYDqtTableQ := imgYDqtTableNext s i
    imgCbFactorQ := imgCbFactorNext s i
    imgCbDqtTableQ := imgCbDqtTableNext s i
    imgCrFactorQ := imgCrFactorNext s i
    imgCrDqtTableQ := imgCrDqtTableNext s i
    imgModeQ := imgModeNext s i
    eofQ := eofNext s i
    startQ := startNext s i
  }

/-- The byte consumed in one cycle, if any. -/
def acceptedByte (s : State) (i : Input) : List Byte :=
  if accepts s i then [dataR s i] else []

/-- The DQT transfer of one cycle: its byte and its last flag. -/
def dqtTransfer (s : State) (i : Input) : List (Byte × Bool) :=
  if dqtCfgValidO s i && i.dqtCfgAccept then
    [(dqtCfgDataO s i, dqtCfgLastO s i)]
  else []

/-- The DHT transfer of one cycle: its byte and its last flag. -/
def dhtTransfer (s : State) (i : Input) : List (Byte × Bool) :=
  if dhtCfgValidO s i && i.dhtCfgAccept then
    [(dhtCfgDataO s i, dhtCfgLastO s i)]
  else []

/-- The scan transfer of one cycle. -/
def dataTransfer (s : State) (i : Input) : List Byte :=
  if dataValidO s i && i.dataAccept then [dataDataO s] else []

end JpegInput

namespace SoftwareDecoder

/-- `GetWord`: two bytes, most significant first. -/
def getWord (src : List Byte) (idx : Nat) : Nat :=
  (src.getD idx 0).toNat * 256 + (src.getD (idx + 1) 0).toNat

/--
`SkipSegment`: the index after the segment whose length field starts at
`idx`, or a failure for a truncated or malformed one.
-/
def skipSegment (src : List Byte) (idx : Nat) : Option Nat :=
  if src.length < idx + 2 then none
  else if getWord src idx < 2 then none
  else if src.length < idx + getWord src idx then none
  else some (idx + getWord src idx)

end SoftwareDecoder

end CoreJpeg
