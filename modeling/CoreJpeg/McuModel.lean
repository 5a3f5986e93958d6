import CoreJpeg.InputModel

namespace CoreJpeg.McuProc

/-!
# The entropy decoder

`jpeg_mcu_proc` decodes one block after the other.  A cycle with a valid window
asks the Huffman tables for the code at the front of the window; the answer
gives the code's width and symbol, and the bits behind it the coefficient.
`jpeg_mcu_id` inside it counts the blocks, names the component of the present
one and infers the end of the image.  This module transcribes the registers of
both.
-/

/-- The component of a block (`BLOCK_*`); `eof` marks blocks after the image. -/
inductive BlockType where
  | y
  | cb
  | cr
  | eof
  deriving Repr, DecidableEq

namespace BlockType

/-- The two-bit code of a block type. -/
def code : BlockType → BitVec 2
  | .y => 0
  | .cb => 1
  | .cr => 2
  | .eof => 3

/-- `block_type_q + 2'd1`. -/
def succ : BlockType → BlockType
  | .y => .cb
  | .cb => .cr
  | .cr => .eof
  | .eof => .y

end BlockType

/-! ## `jpeg_mcu_id` -/

/-- The input pins of `jpeg_mcu_id`. -/
structure IdInput where
  rst : Bool
  imgStart : Bool
  imgEnd : Bool
  imgWidth : BitVec 16
  imgMode : ImageMode
  startOfBlock : Bool
  endOfBlock : Bool
  deriving Repr, DecidableEq

/-- The registers of `jpeg_mcu_id`. -/
structure IdState where
  blockTypeQ : BlockType
  typeIdxQ : BitVec 3
  blockXQ : BitVec 16
  blockYQ : BitVec 16
  xIdxQ : BitVec 16
  yIdxQ : BitVec 16
  endOfImageQ : Bool
  deriving Repr, DecidableEq

namespace IdState

/-- Register values after `rst_i`. -/
def reset : IdState where
  blockTypeQ := .y
  typeIdxQ := 0
  blockXQ := 0
  blockYQ := 0
  xIdxQ := 0
  yIdxQ := 0
  endOfImageQ := false

/-- `width_rnd_w`. -/
def widthRnd (imgWidth : BitVec 16) : BitVec 16 :=
  BitVec.ofNat 16 ((imgWidth.toNat + 7) / 8 * 8)

/-- `block_x_max_w`. -/
def blockXMax (imgWidth : BitVec 16) : BitVec 16 := widthRnd imgWidth / 8

/-- `img_w_div4_w`. -/
def imgWDiv4 (imgWidth : BitVec 16) : BitVec 16 := widthRnd imgWidth / 4

/-- `block_x_next_w`. -/
def blockXNext (s : IdState) : BitVec 16 := s.blockXQ + 1

/-- The component after the present block's, with the index in its MCU. -/
def typeNext (s : IdState) (i : IdInput) : BlockType × BitVec 3 :=
  if i.startOfBlock && s.endOfImageQ then (.eof, 0)
  else if i.imgMode == .monochrome then (.y, s.typeIdxQ)
  else if i.imgMode == .ycbcr444 && i.endOfBlock then
    (if s.blockTypeQ == .cr then .y else s.blockTypeQ.succ, s.typeIdxQ)
  else if i.imgMode == .ycbcr420 && i.endOfBlock then
    match s.typeIdxQ.toNat with
    | 3 => (.cb, s.typeIdxQ + 1)
    | 4 => (.cr, s.typeIdxQ + 1)
    | 5 => (.y, 0)
    | _ => (.y, s.typeIdxQ + 1)
  else (s.blockTypeQ, s.typeIdxQ)

/-- The block ends the present block position. -/
def endsPosition (s : IdState) (i : IdInput) : Bool :=
  i.endOfBlock &&
    (i.imgMode == .monochrome ||
      (i.imgMode == .ycbcr444 && s.blockTypeQ == .cr))

/-- The present block position is the last one of its row. -/
def lastInRow (s : IdState) (i : IdInput) : Bool :=
  s.blockXNext == blockXMax i.imgWidth

/-- The registers after the clock edge. -/
def step (s : IdState) (i : IdInput) : IdState :=
  if i.rst || i.imgStart then reset
  else
    let typed :=
      { s with
        blockTypeQ := (typeNext s i).1
        typeIdxQ := (typeNext s i).2 }
    if endsPosition s i then
      { typed with
        blockXQ := if lastInRow s i then 0 else s.blockXNext
        blockYQ := if lastInRow s i then s.blockYQ + 1 else s.blockYQ
        endOfImageQ := s.endOfImageQ || (i.imgEnd && lastInRow s i) }
    else if i.startOfBlock && i.imgMode == .ycbcr420 &&
        s.blockTypeQ == .y then
      { typed with
        blockXQ :=
          (s.xIdxQ &&& 0xFFFC) / 2 + (if s.typeIdxQ.getLsbD 0 then 1 else 0)
        blockYQ := s.yIdxQ + (if s.typeIdxQ.getLsbD 1 then 1 else 0)
        xIdxQ :=
          if s.typeIdxQ < 4 then
            if s.xIdxQ + 1 == imgWDiv4 i.imgWidth then 0 else s.xIdxQ + 1
          else s.xIdxQ
        yIdxQ :=
          if s.typeIdxQ < 4 && s.xIdxQ + 1 == imgWDiv4 i.imgWidth then
            s.yIdxQ + 2
          else s.yIdxQ }
    else if i.startOfBlock && i.imgMode == .ycbcr420 &&
        s.blockTypeQ == .cr then
      { typed with
        endOfImageQ := s.endOfImageQ || (i.imgEnd && lastInRow s i) }
    else typed

/-- The next component is the one `typeNext` chooses. -/
theorem step_blockTypeQ
    (s : IdState)
    {i : IdInput}
    (running : (i.rst || i.imgStart) = false) :
    (step s i).blockTypeQ = (typeNext s i).1 := by
  unfold step
  rw [running]
  simp only [Bool.false_eq_true, ↓reduceIte]
  split
  · rfl
  · split
    · rfl
    · split <;> rfl

/-- The next index in the MCU is the one `typeNext` chooses. -/
theorem step_typeIdxQ
    (s : IdState)
    {i : IdInput}
    (running : (i.rst || i.imgStart) = false) :
    (step s i).typeIdxQ = (typeNext s i).2 := by
  unfold step
  rw [running]
  simp only [Bool.false_eq_true, ↓reduceIte]
  split
  · rfl
  · split
    · rfl
    · split <;> rfl

/-- `block_id_o`: type, row and column of the block. -/
def blockId (s : IdState) : BitVec 32 :=
  s.blockTypeQ.code ++ s.blockYQ.setWidth 14 ++ s.blockXQ

end IdState

/-! ## `jpeg_mcu_proc` -/

/-- The states of the decoder FSM (`STATE_*` of `jpeg_mcu_proc.v`). -/
inductive FsmState where
  | idle
  | fetchWord
  | huffLookup
  | output
  | eob
  | eof
  deriving Repr, DecidableEq

/-- The Huffman tables a lookup can name (`DHT_TABLE_*_IDX`). -/
inductive DhtTable where
  | yDc
  | yAc
  | cxDc
  | cxAc
  deriving Repr, DecidableEq

/-- The input pins sampled in one clock cycle. -/
structure Input where
  rst : Bool
  imgStart : Bool
  imgEnd : Bool
  imgWidth : BitVec 16
  imgMode : ImageMode
  inportValid : Bool
  inportData : BitVec 32
  lookupValid : Bool
  lookupWidth : BitVec 5
  lookupValue : BitVec 8
  outportBlkSpace : Bool
  deriving Repr, DecidableEq

/-- The registers of the decoder. -/
structure State where
  id : IdState
  stateQ : FsmState
  firstQ : Bool
  codeQ : BitVec 8
  lookupWidthQ : BitVec 5
  inputDataQ : BitVec 16
  prevDcCoeffQ : BlockType → BitVec 16
  dcCoeffQ : BitVec 16
  coeffQ : BitVec 16
  coeffIdxQ : BitVec 8
  pushQ : Bool

/-- Register values after `rst_i`. -/
def reset : State where
  id := .reset
  stateQ := .idle
  firstQ := true
  codeQ := 0
  lookupWidthQ := 0
  inputDataQ := 0
  prevDcCoeffQ := fun _ => 0
  dcCoeffQ := 0
  coeffQ := 0
  coeffIdxQ := 0
  pushQ := false

/-- `next_state_r`. -/
def nextStateR (s : State) (i : Input) : FsmState :=
  if i.imgStart then .idle
  else
    match s.stateQ with
    | .idle =>
        if s.id.endOfImageQ && i.outportBlkSpace then .eof
        else if i.inportValid && i.outportBlkSpace then .fetchWord
        else .idle
    | .fetchWord =>
        if 63 ≤ s.coeffIdxQ then .eob
        else if i.inportValid then .huffLookup
        else .fetchWord
    | .huffLookup => if i.lookupValid then .output else .huffLookup
    | .output => .fetchWord
    | .eob => .idle
    | .eof => if i.imgEnd then .eof else .idle

/-- `start_block_w`. -/
def startBlock (s : State) (i : Input) : Bool :=
  s.stateQ == .idle && nextStateR s i != .idle

/-- `next_block_w`. -/
def nextBlock (s : State) : Bool := s.stateQ == .eob

/-- The pins of `u_id`. -/
def idInput (s : State) (i : Input) : IdInput where
  rst := i.rst
  imgStart := i.imgStart
  imgEnd := i.imgEnd
  imgWidth := i.imgWidth
  imgMode := i.imgMode
  startOfBlock := startBlock s i
  endOfBlock := nextBlock s

/-- `coef_bits_w`. -/
def coefBits (s : State) : BitVec 5 := (s.codeQ.extractLsb' 0 4).setWidth 5

/-- `inport_pop_o`: the bits dropped from the bit buffer. -/
def inportPop (s : State) : BitVec 6 :=
  if s.stateQ == .output then
    if s.coeffIdxQ == 0 then
      s.lookupWidthQ.setWidth 6 + (coefBits s).setWidth 6
    else if s.codeQ == 0 || s.codeQ == 0xF0 then s.lookupWidthQ.setWidth 6
    else s.lookupWidthQ.setWidth 6 + (coefBits s).setWidth 6
  else 0

/-- `lookup_req_o`. -/
def lookupReq (s : State) (i : Input) : Bool :=
  s.stateQ == .fetchWord && i.inportValid

/-- `lookup_input_o`. -/
def lookupInput (i : Input) : BitVec 16 := i.inportData.extractLsb' 16 16

/-- `lookup_table_o`. -/
def lookupTable (s : State) : DhtTable :=
  if s.firstQ then
    if s.id.blockTypeQ == .y then .yDc else .cxDc
  else
    if s.id.blockTypeQ == .y then .yAc else .cxAc

/-- `decode_number`: a number from its magnitude bits. -/
def decodeNumber (w : BitVec 16) (bits : BitVec 5) : BitVec 16 :=
  if (w.setWidth 32 &&& ((1 : BitVec 32) <<< (bits - 1))) == 0 &&
      bits != 0 then
    (w ||| (~~~(0 : BitVec 16) <<< bits)) + 1
  else w

/-- `coeff_r`. -/
def coeffR (s : State) : BitVec 16 :=
  let number :=
    decodeNumber (s.inputDataQ >>> (16 - (coefBits s).toNat)) (coefBits s)
  if s.coeffIdxQ == 0 then number + s.prevDcCoeffQ s.id.blockTypeQ
  else number

/-- `input_shift_w`. -/
def inputShift (i : Input) : BitVec 32 :=
  i.inportData >>> ((16 : BitVec 5) - i.lookupWidth)

/-- `coeff_idx_q` after the clock edge. -/
def coeffIdxNext (s : State) (i : Input) : BitVec 8 :=
  if s.stateQ == .eob || i.imgStart then 0
  else if s.stateQ == .fetchWord && !s.firstQ && i.inportValid then
    s.coeffIdxQ + 1
  else if s.stateQ == .output then
    if s.coeffIdxQ == 0 then s.coeffIdxQ
    else if s.codeQ == 0 then 64
    else if s.codeQ == 0xF0 then s.coeffIdxQ + 15
    else s.coeffIdxQ + (s.codeQ.extractLsb' 4 4).setWidth 8
  else s.coeffIdxQ

/-- The registers after the clock edge. -/
def step (s : State) (i : Input) : State :=
  if i.rst then reset
  else
    let answered := s.stateQ == .huffLookup && i.lookupValid
    { id := s.id.step (idInput s i)
      stateQ := nextStateR s i
      firstQ :=
        if s.stateQ == .idle then true
        else if s.stateQ == .output then false
        else s.firstQ
      codeQ := if answered then i.lookupValue else s.codeQ
      lookupWidthQ := if answered then i.lookupWidth else s.lookupWidthQ
      inputDataQ :=
        if answered then (inputShift i).setWidth 16 else s.inputDataQ
      prevDcCoeffQ :=
        if i.imgStart then fun _ => 0
        else if s.stateQ == .eob then
          fun component =>
            if component = s.id.blockTypeQ then s.dcCoeffQ
            else s.prevDcCoeffQ component
        else s.prevDcCoeffQ
      dcCoeffQ :=
        if s.stateQ == .output && s.coeffIdxQ == 0 then coeffR s
        else s.dcCoeffQ
      coeffQ := if s.stateQ == .output then coeffR s else s.coeffQ
      coeffIdxQ := coeffIdxNext s i
      pushQ := s.stateQ == .output || s.stateQ == .eof }

/-- `outport_valid_o`. -/
def outportValid (s : State) : Bool := s.pushQ && s.coeffIdxQ < 64

/-- `outport_data_o`. -/
def outportData (s : State) : BitVec 16 := s.coeffQ

/-- `outport_idx_o`. -/
def outportIdx (s : State) : BitVec 6 := s.coeffIdxQ.setWidth 6

/-- `outport_id_o`. -/
def outportId (s : State) : BitVec 32 := s.id.blockId

/-- The two highest bits of an id are the code of its component. -/
theorem code_of_id (code : BitVec 2) (row : BitVec 14) (column : BitVec 16) :
    (code ++ row ++ column).extractLsb' 30 2 = code := by
  rw [BitVec.extractLsb'_append_eq_of_le (by decide)]
  exact BitVec.extractLsb'_append_eq_left

/-- The type bits of a block's identifier name its component. -/
theorem outportId_type (s : State) :
    (outportId s).extractLsb' 30 2 = s.id.blockTypeQ.code :=
  code_of_id _ _ _

/-- `outport_eob_o`. -/
def outportEob (s : State) : Bool :=
  s.stateQ == .eob || (s.stateQ == .eof && s.pushQ)

end CoreJpeg.McuProc
