import CoreJpeg.DqtModel

namespace CoreJpeg.JpegIdct

/-!
# One pass of the inverse transform

`jpeg_idct_x` transforms rows and `jpeg_idct_y` columns.  Both modules have the
same registers: five shared multipliers, sums that are reused from step to step
of a line, and eight output registers that are read seven cycles later.  They
differ in the width of their inputs, in the last shift and in the order in
which the output index counts.  This module transcribes the registers once and
both modules as instances.
-/

/-- The operands of the multipliers and the sum in front of the fifth. -/
structure Operands where
  i0 : BitVec 32
  mul0A : BitVec 32
  mul0B : BitVec 32
  mul1A : BitVec 32
  mul1B : BitVec 32
  mul2A : BitVec 32
  mul2B : BitVec 32
  mul3A : BitVec 32
  mul3B : BitVec 32
  mul4A : BitVec 32
  mul4B : BitVec 32
  deriving Repr, DecidableEq

/-- The products, in both of their pipeline registers. -/
structure Products where
  mul0 : BitVec 32
  mul1 : BitVec 32
  mul2 : BitVec 32
  mul3 : BitVec 32
  mul4 : BitVec 32
  deriving Repr, DecidableEq

/-- `out_stg*_valid_q` and `out_stg*_idx_q`. -/
structure Stage where
  validQ : Bool
  idxQ : BitVec 3
  deriving Repr, DecidableEq

/-- The registers `o_*` of a line. -/
structure Sums where
  oS5 : BitVec 32
  oS6 : BitVec 32
  oS7 : BitVec 32
  oT0 : BitVec 32
  oT1 : BitVec 32
  oT2 : BitVec 32
  oT3 : BitVec 32
  oT4 : BitVec 32
  oT5 : BitVec 32
  oT6 : BitVec 32
  oT7 : BitVec 32
  oT6_5 : BitVec 32
  oT5_6 : BitVec 32
  deriving Repr, DecidableEq

/-- The registers of a pass. -/
structure Pass where
  operands : Operands
  mulQ : Products
  mul : Products
  stg0 : Stage
  stg1 : Stage
  stg2 : Stage
  sums : Sums
  stg3 : Stage
  blockOut : BitVec 3 → BitVec 32
  blockOutTmp : BitVec 32
  validQ : BitVec 8
  ptrQ : BitVec 6

/-- The pins of a pass; the data are `block_in_0_1` to `block_in_6_7`. -/
structure PassInput where
  rst : Bool
  imgStart : Bool
  inportValid : Bool
  blockIn : BitVec 2 → BitVec 32
  inportIdx : BitVec 3

namespace Pass

/-- Register values after `rst_i`. -/
def reset : Pass where
  operands := ⟨0, 0, 0, 0, 0, 0, 0, 0, 0, 0, 0⟩
  mulQ := ⟨0, 0, 0, 0, 0⟩
  mul := ⟨0, 0, 0, 0, 0⟩
  stg0 := ⟨false, 0⟩
  stg1 := ⟨false, 0⟩
  stg2 := ⟨false, 0⟩
  sums := ⟨0, 0, 0, 0, 0, 0, 0, 0, 0, 0, 0, 0, 0⟩
  stg3 := ⟨false, 0⟩
  blockOut := fun _ => 0
  blockOutTmp := 0
  validQ := 0
  ptrQ := 0

/-- `outport_valid_o`. -/
def outportValid (s : Pass) : Bool := s.validQ.getLsbD 6

/-- `outport_data_o`. -/
def outportData (s : Pass) : BitVec 32 :=
  s.blockOut (s.ptrQ.extractLsb' 0 3)

/-! ## Registers -/

/-- The operands after the clock edge; the constants are `C1_16` to `C7_16`. -/
def operandsNext (o : Operands) (i : PassInput) : Operands :=
  match i.inportIdx.toNat with
  | 0 => { o with
      i0 := i.blockIn 0 + i.blockIn 2
      mul0A := i.blockIn 1
      mul0B := 3784
      mul1A := i.blockIn 3
      mul1B := 1567 }
  | 1 => { o with
      mul0A := i.blockIn 0
      mul0B := 4017
      mul1A := i.blockIn 3
      mul1B := 799
      mul2A := i.blockIn 2
      mul2B := 2276
      mul3A := i.blockIn 1
      mul3B := 3406
      mul4A := o.i0
      mul4B := 2896 }
  | 2 => { o with i0 := i.blockIn 0 - i.blockIn 2 }
  | 3 => { o with
      mul0A := i.blockIn 0
      mul0B := 799
      mul1A := i.blockIn 3
      mul1B := 4017
      mul2A := i.blockIn 2
      mul2B := 3406
      mul3A := i.blockIn 1
      mul3B := 2276 }
  | 4 => { o with
      mul0A := i.blockIn 0
      mul0B := 799
      mul1A := i.blockIn 3
      mul1B := 4017
      mul2A := i.blockIn 2
      mul2B := 3406
      mul3A := i.blockIn 1
      mul3B := 2276 }
  | 5 => { o with
      mul0A := i.blockIn 1
      mul0B := 1567
      mul1A := i.blockIn 3
      mul1B := 3784
      mul4A := o.i0
      mul4B := 2896 }
  | _ => o

/-- `mul0_q` to `mul4_q` after the clock edge. -/
def mulQNext (o : Operands) : Products where
  mul0 := o.mul0A * o.mul0B
  mul1 := o.mul1A * o.mul1B
  mul2 := o.mul2A * o.mul2B
  mul3 := o.mul3A * o.mul3B
  mul4 := o.mul4A * o.mul4B

/-- The sums after the clock edge. -/
def sumsNext (o : Sums) (mul : Products) (idx : BitVec 3) : Sums :=
  match idx.toNat with
  | 0 => { o with oT3 := mul.mul0 + mul.mul1 }
  | 1 => { o with
      oS7 := mul.mul0 + mul.mul1
      oS6 := mul.mul2 + mul.mul3
      oT0 := mul.mul4 }
  | 2 => { o with
      oT0 := o.oT0 + o.oT3
      oT3 := o.oT0 - o.oT3
      oT7 := o.oS6 + o.oS7 }
  | 3 => { o with oT4 := (mul.mul0 - mul.mul1) + (mul.mul2 - mul.mul3) }
  | 4 => { o with
      oT0 := mul.mul0 - mul.mul1
      oS5 := mul.mul2 - mul.mul3 }
  | 5 => { o with
      oT3 := mul.mul0 - mul.mul1
      oT4 := mul.mul4
      oT5 := o.oT0 - o.oS5
      oT6 := o.oS7 - o.oS6 }
  | 6 => { o with
      oT1 := o.oT4 + o.oT3
      oT2 := o.oT4 - o.oT3
      oT6_5 := o.oT6 - o.oT5
      oT5_6 := o.oT5 + o.oT6 }
  | _ => { o with
      oS5 := (o.oT6_5 * 181).sdiv 256
      oS6 := (o.oT5_6 * 181).sdiv 256 }

/-- `block_out` after the clock edge. -/
def blockOutNext (shift : Nat) (s : Pass) (entry : BitVec 3) : BitVec 32 :=
  let o := s.sums
  if s.stg3.validQ then
    match s.stg3.idxQ.toNat, entry.toNat with
    | 3, 0 => (o.oT0 + o.oT7).sshiftRight shift
    | 3, 3 => (o.oT3 + o.oT4).sshiftRight shift
    | 3, 4 => (o.oT3 - o.oT4).sshiftRight shift
    | 6, 7 => s.blockOutTmp
    | 7, 2 => (o.oT2 + o.oS5).sshiftRight shift
    | 7, 5 => (o.oT2 - o.oS5).sshiftRight shift
    | 7, 1 => (o.oT1 + o.oS6).sshiftRight shift
    | 7, 6 => (o.oT1 - o.oS6).sshiftRight shift
    | _, _ => s.blockOut entry
  else s.blockOut entry

/-- `block_out_tmp` after the clock edge. -/
def blockOutTmpNext (shift : Nat) (s : Pass) : BitVec 32 :=
  if s.stg3.validQ && s.stg3.idxQ == 3 then
    (s.sums.oT0 - s.sums.oT7).sshiftRight shift
  else s.blockOutTmp

/-- The registers after the clock edge. -/
def step (shift : Nat) (s : Pass) (i : PassInput) : Pass :=
  if i.rst then reset
  else {
    operands := operandsNext s.operands i
    mulQ := mulQNext s.operands
    mul := s.mulQ
    stg0 := ⟨i.inportValid, i.inportIdx⟩
    stg1 := s.stg0
    stg2 := s.stg1
    sums := sumsNext s.sums s.mul s.stg2.idxQ
    stg3 := s.stg2
    blockOut := blockOutNext shift s
    blockOutTmp := blockOutTmpNext shift s
    validQ :=
      if i.imgStart then 0
      else s.validQ.extractLsb' 0 7 ++ BitVec.ofBool s.stg3.validQ
    ptrQ :=
      if i.imgStart then 0
      else if outportValid s then s.ptrQ + 1
      else s.ptrQ
  }

end Pass

/-! ## `jpeg_idct_x` -/

/-- The pins of `jpeg_idct_x`. -/
structure XInput where
  rst : Bool
  imgStart : Bool
  inportValid : Bool
  inportData : BitVec 2 → BitVec 16
  inportIdx : BitVec 3

/-- The inputs are sign-extended. -/
def XInput.pass (i : XInput) : PassInput where
  rst := i.rst
  imgStart := i.imgStart
  inportValid := i.inportValid
  blockIn lane := (i.inportData lane).signExtend 32
  inportIdx := i.inportIdx

/-- The registers of `jpeg_idct_x` after the clock edge. -/
def xStep (s : Pass) (i : XInput) : Pass := s.step 11 i.pass

/-- `outport_idx_o` of `jpeg_idct_x`. -/
def xOutportIdx (s : Pass) : BitVec 6 := s.ptrQ

/-! ## `jpeg_idct_y` -/

/-- The registers of `jpeg_idct_y` after the clock edge. -/
def yStep (s : Pass) (i : PassInput) : Pass := s.step 15 i

/-- `ptr_conv`. -/
def ptrConvTable : List Nat :=
  [0, 8, 16, 24, 32, 40, 48, 56, 1, 9, 17, 25, 33, 41, 49, 57,
   2, 10, 18, 26, 34, 42, 50, 58, 3, 11, 19, 27, 35, 43, 51, 59,
   4, 12, 20, 28, 36, 44, 52, 60, 5, 13, 21, 29, 37, 45, 53, 61,
   6, 14, 22, 30, 38, 46, 54, 62, 7, 15, 23, 31, 39, 47, 55, 63]

/-- `ptr_conv(idx)`. -/
def ptrConv (idx : BitVec 6) : BitVec 6 :=
  BitVec.ofNat 6 (ptrConvTable.getD idx.toNat 63)

/-- `outport_idx_o` of `jpeg_idct_y`. -/
def yOutportIdx (s : Pass) : BitVec 6 := ptrConv s.ptrQ

end CoreJpeg.JpegIdct
