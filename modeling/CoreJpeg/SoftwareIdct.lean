import CoreJpeg.SoftwareTables

namespace CoreJpeg.Software

/-!
# From samples to blocks in software

`jpeg_dqt` multiplies the samples of a block with its quantisers and puts them
in their places; `jpeg_idct` transforms rows and then columns.  Integers are
unbounded here.
-/

/-! ## `jpeg_dqt` -/

/-- `m_table_dqt`: the quantisers of each table by zigzag index. -/
abbrev DqtTables := Nat → Nat → Byte

/-- `m_table_dqt[table_num][x] = *buf++`. -/
def storeQuantiser (data : List Byte) (tableNum : Nat) (tables : DqtTables)
    (x : Nat) : Except Fault DqtTables := do
  let qv ← byteAt data (1 + x)
  .ok fun table position =>
    if table = tableNum ∧ position = x then qv else tables table position

/-- `jpeg_dqt::process`: the selector and 64 quantisers, whatever `len` is. -/
def dqtProcess (data : List Byte) (tables : DqtTables) :
    Except Fault DqtTables := do
  let selector ← byteAt data 0
  (List.range 64).foldlM (storeQuantiser data (selector &&& 0x3).toNat) tables

/-- `m_zigzag_table`. -/
def zigzagTable : List Nat :=
  [ 0,  1,  8, 16,  9,  2,  3, 10,
   17, 24, 32, 25, 18, 11,  4,  5,
   12, 19, 26, 33, 40, 48, 41, 34,
   27, 20, 13,  6,  7, 14, 21, 28,
   35, 42, 49, 56, 57, 50, 43, 36,
   29, 22, 15, 23, 30, 37, 44, 51,
   58, 59, 52, 45, 38, 31, 39, 46,
   53, 60, 61, 54, 47, 55, 62, 63,
    0]

/-- `jpeg_dqt::lookup`. -/
def dqtLookup (tables : DqtTables) (tableNum position : Nat) :
    Except Fault Byte :=
  if tableNum < 4 ∧ position < 64 then .ok (tables tableNum position)
  else .error .quantiser

/-- One sample of `process_samples`. -/
def processSample (tables : DqtTables) (quantTable : Nat)
    (blockOut : Nat → Int) (sample : Sample) : Except Fault (Nat → Int) := do
  let quantiser ← dqtLookup tables quantTable sample.coeff
  let place := zigzagTable.getD sample.coeff 0
  .ok fun index =>
    if index = place then sample.value.toInt * quantiser.toNat
    else blockOut index

/-- `process_samples`; coefficients without a sample are zero. -/
def processSamples (tables : DqtTables) (quantTable : Nat)
    (samples : List Sample) : Except Fault (Nat → Int) :=
  samples.foldlM (processSample tables quantTable) fun _ => 0

/-! ## `jpeg_idct` -/

/-- The eight sums of a row or a column, before the last shift. -/
def butterfly (d : Nat → Int) : Nat → Int :=
  let s0 := (d 0 + d 4) * 2896
  let s1 := (d 0 - d 4) * 2896
  let s3 := d 2 * 3784 + d 6 * 1567
  let s2 := d 2 * 1567 - d 6 * 3784
  let s7 := d 1 * 4017 + d 7 * 799
  let s4 := d 1 * 799 - d 7 * 4017
  let s6 := d 5 * 2276 + d 3 * 3406
  let s5 := d 5 * 3406 - d 3 * 2276
  let t0 := s0 + s3
  let t3 := s0 - s3
  let t1 := s1 + s2
  let t2 := s1 - s2
  let t4 := s4 + s5
  let t5 := s4 - s5
  let t7 := s7 + s6
  let t6 := s7 - s6
  let r6 := ((t5 + t6) * 181).tdiv 256
  let r5 := ((t6 - t5) * 181).tdiv 256
  fun
    | 0 => t0 + t7
    | 1 => t1 + r6
    | 2 => t2 + r5
    | 3 => t3 + t4
    | 4 => t3 - t4
    | 5 => t2 - r5
    | 6 => t1 - r6
    | _ => t0 - t7

/-- `jpeg_idct::process`: the rows, then the columns. -/
def idctProcess (dataIn : Nat → Int) : Nat → Int :=
  let workingBuf (place : Nat) : Int :=
    butterfly (fun x => dataIn (place / 8 * 8 + x)) (place % 8) >>> (11 : Nat)
  fun place =>
    butterfly (fun y => workingBuf (y * 8 + place % 8)) (place / 8) >>>
      (15 : Nat)

end CoreJpeg.Software
