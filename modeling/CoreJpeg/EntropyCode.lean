import CoreJpeg.BitString
import CoreJpeg.PrefixCode
import Mathlib.Data.Nat.Size
import Mathlib.Tactic.Linarith

namespace CoreJpeg

/-!
# Baseline entropy coding

What a baseline scan says, independently of any decoder.  A number is coded by
its size and as many magnitude bits; a block is the category of its DC
difference and run/size symbols for its AC coefficients, in zigzag order; an
end-of-block symbol is omitted only when index 63 is coded.  The DC value of a
block is the running sum of the differences of its component.
-/

namespace EntropyCode

open BitString

/-- A Huffman table: code words of one to sixteen bits for byte symbols. -/
structure Table extends PrefixCode (BitVec 8) where
  widths :
    ∀ entry ∈ entries, 1 ≤ entry.1.length ∧ entry.1.length ≤ 16

/-! ## Numbers -/

/-- The category of a number: the bits its magnitude needs. -/
def category (number : Int) : Nat :=
  number.natAbs.size

/-- What the magnitude bits of a number spell. -/
def magnitude (number : Int) : Nat :=
  if 0 ≤ number then number.toNat
  else (number + 2 ^ category number - 1).toNat

/-- The magnitude bits of a number. -/
def magnitudeBits (number : Int) : List Bool :=
  toBits (category number) (magnitude number)

/-- The number a category and its magnitude bits stand for. -/
def extend (size raw : Nat) : Int :=
  if 2 * raw < 2 ^ size ∧ size ≠ 0 then (raw : Int) - 2 ^ size + 1 else raw

@[simp] theorem length_magnitudeBits (number : Int) :
    (magnitudeBits number).length = category number := by
  simp [magnitudeBits]

@[simp] theorem category_zero : category 0 = 0 := rfl

/-- A number is bounded by the power of its category. -/
theorem natAbs_lt_category (number : Int) :
    number.natAbs < 2 ^ category number :=
  Nat.lt_size_self number.natAbs

/-- A number other than zero reaches half the power of its category. -/
theorem category_le_natAbs
    {number : Int}
    (nonzero : number ≠ 0) :
    2 ^ category number ≤ 2 * number.natAbs := by
  have positive : 0 < category number := by
    rw [category, Nat.size_pos]
    exact Int.natAbs_pos.mpr nonzero
  have half : 2 ^ (category number - 1) ≤ number.natAbs :=
    Nat.lt_size.mp (by rw [category] at positive ⊢; omega)
  calc 2 ^ category number
      = 2 * 2 ^ (category number - 1) := by
        rw [← pow_succ']
        congr 1
        omega
    _ ≤ 2 * number.natAbs := Nat.mul_le_mul_left 2 half

/-- Only zero has category zero. -/
theorem category_pos
    {number : Int}
    (nonzero : number ≠ 0) :
    0 < category number := by
  rw [category, Nat.size_pos]
  exact Int.natAbs_pos.mpr nonzero

/-- The magnitude fits the category. -/
theorem magnitude_lt (number : Int) :
    magnitude number < 2 ^ category number := by
  have small := natAbs_lt_category number
  have cast : ((2 ^ category number : Nat) : Int) = 2 ^ category number := by
    push_cast
    rfl
  unfold magnitude
  split <;> omega

/-- The magnitude bits spell the magnitude. -/
theorem ofBits_magnitudeBits (number : Int) :
    ofBits (magnitudeBits number) = magnitude number :=
  ofBits_toBits (magnitude_lt number)

/-- Extending the magnitude recovers the number. -/
theorem extend_magnitude (number : Int) :
    extend (category number) (magnitude number) = number := by
  have small := natAbs_lt_category number
  have cast : ((2 ^ category number : Nat) : Int) = 2 ^ category number := by
    push_cast
    rfl
  rcases eq_or_ne number 0 with rfl | nonzero
  · rfl
  have large := category_le_natAbs nonzero
  have positive := category_pos nonzero
  rcases le_or_gt 0 number with nonnegative | negative
  · have plain : magnitude number = number.toNat := if_pos nonnegative
    rw [extend, plain, if_neg (by omega)]
    omega
  · have shifted :
        magnitude number = (number + 2 ^ category number - 1).toNat :=
      if_neg (by omega)
    rw [extend, shifted, if_pos ⟨by omega, by omega⟩]
    omega

/-! ## Blocks -/

/-- One AC symbol with the number it carries. -/
inductive AcSymbol where
  | zeros
  | value (run : Nat) (number : Int)
  deriving Repr, DecidableEq

/-- The symbol byte of a zero run and a category. -/
def runSize (run size : Nat) : BitVec 8 := BitVec.ofNat 8 (16 * run + size)

/-- The end-of-block symbol. -/
def endOfBlock : BitVec 8 := 0x00

/-- The symbol of sixteen zero coefficients. -/
def zeroRun : BitVec 8 := 0xF0

/--
The bits that code AC symbols from a zigzag index on, through the end of the
block.
-/
inductive AcCode (table : Table) : Nat → List AcSymbol → List Bool → Prop
  | full : AcCode table 64 [] []
  | endOfBlock
      {position : Nat}
      {word : List Bool}
      (inBlock : position ≤ 63)
      (codes : table.Codes word endOfBlock) :
      AcCode table position [] word
  | zeros
      {position : Nat}
      {word bits : List Bool}
      {rest : List AcSymbol}
      (inBlock : position + 16 ≤ 63)
      (codes : table.Codes word zeroRun)
      (coded : AcCode table (position + 16) rest bits) :
      AcCode table position (.zeros :: rest) (word ++ bits)
  | value
      {position run : Nat}
      {number : Int}
      {word bits : List Bool}
      {rest : List AcSymbol}
      (runSmall : run ≤ 15)
      (inBlock : position + run ≤ 63)
      (nonzero : number ≠ 0)
      (categorySmall : category number ≤ 15)
      (codes : table.Codes word (runSize run (category number)))
      (coded : AcCode table (position + run + 1) rest bits) :
      AcCode table position (.value run number :: rest)
        (word ++ (magnitudeBits number ++ bits))

/-- The coefficient that AC symbols from an index on put at a zigzag index. -/
def acCoefficient : Nat → List AcSymbol → Nat → BitVec 16
  | _, [], _ => 0
  | position, .zeros :: rest, index =>
      acCoefficient (position + 16) rest index
  | position, .value run number :: rest, index =>
      if index = position + run then BitVec.ofInt 16 number
      else acCoefficient (position + run + 1) rest index

/-- AC symbols leave the coefficients before their index unwritten. -/
theorem acCoefficient_before
    {position index : Nat}
    (symbols : List AcSymbol)
    (before : index < position) :
    acCoefficient position symbols index = 0 := by
  induction symbols generalizing position with
  | nil =>
      rfl
  | cons symbol rest inductionHypothesis =>
      cases symbol with
      | zeros =>
          exact inductionHypothesis (by omega)
      | value run number =>
          rw [acCoefficient, if_neg (by omega)]
          exact inductionHypothesis (by omega)

/-- What a scan says of one block. -/
structure Block where
  difference : Int
  symbols : List AcSymbol
  deriving Repr, DecidableEq

/-- The bits that code a block with a DC and an AC table. -/
structure BlockCode
    (dcTable acTable : Table)
    (block : Block)
    (word acBits : List Bool) : Prop where
  categorySmall : category block.difference ≤ 15
  codes : dcTable.Codes word (runSize 0 (category block.difference))
  coded : AcCode acTable 1 block.symbols acBits

/-! ## Scans -/

/-- The colour components of a scan. -/
inductive Component where
  | y
  | cb
  | cr
  deriving Repr, DecidableEq

/-- The four tables of a scan: the chrominance components share theirs. -/
structure Tables where
  yDc : Table
  yAc : Table
  cxDc : Table
  cxAc : Table

/-- The DC table of a component. -/
def Tables.dc (tables : Tables) : Component → Table
  | .y => tables.yDc
  | _ => tables.cxDc

/-- The AC table of a component. -/
def Tables.ac (tables : Tables) : Component → Table
  | .y => tables.yAc
  | _ => tables.cxAc

/-- A block with the bits that code it. -/
structure CodedBlock where
  block : Block
  dcWord : List Bool
  acBits : List Bool
  deriving Repr, DecidableEq

namespace CodedBlock

/-- All bits of a coded block. -/
def bits (coded : CodedBlock) : List Bool :=
  coded.dcWord ++ (magnitudeBits coded.block.difference ++ coded.acBits)

end CodedBlock

/-- The blocks of a scan in the order of their components, with their bits. -/
structure Scan where
  order : Nat → Component
  tables : Tables
  blocks : List CodedBlock
  coded :
    ∀ (index : Nat) (coded : CodedBlock),
      blocks[index]? = some coded →
        BlockCode (tables.dc (order index)) (tables.ac (order index))
          coded.block coded.dcWord coded.acBits

namespace Scan

/-- The entropy-coded bits of a scan. -/
def bits (scan : Scan) : List Bool :=
  scan.blocks.flatMap CodedBlock.bits

/-- The entropy-coded bits of the blocks from an index on. -/
def bitsFrom (scan : Scan) (index : Nat) : List Bool :=
  (scan.blocks.drop index).flatMap CodedBlock.bits

/-- The bits from a block on start with the block's bits. -/
theorem bitsFrom_eq
    {scan : Scan}
    {index : Nat}
    {coded : CodedBlock}
    (here : scan.blocks[index]? = some coded) :
    scan.bitsFrom index = coded.bits ++ scan.bitsFrom (index + 1) := by
  obtain ⟨inScan, block⟩ := List.getElem?_eq_some_iff.mp here
  rw [bitsFrom, List.drop_eq_getElem_cons inScan, block, List.flatMap_cons]
  rfl

/-- The DC difference of a block; zero past the end of the scan. -/
def difference (scan : Scan) (index : Nat) : BitVec 16 :=
  (scan.blocks[index]?.map
    fun coded => BitVec.ofInt 16 coded.block.difference).getD 0

/-- The DC value of the last block of a component before a block. -/
def predictor (scan : Scan) : Nat → Component → BitVec 16
  | 0, _ => 0
  | index + 1, component =>
      if scan.order index = component then
        scan.difference index + predictor scan index component
      else
        predictor scan index component

/-- The DC value of a block, modulo `2 ^ 16`. -/
def dcValue (scan : Scan) (index : Nat) : BitVec 16 :=
  scan.difference index + scan.predictor index (scan.order index)

/-- The coefficients of a block in zigzag order. -/
def coefficient (scan : Scan) (index position : Nat) : BitVec 16 :=
  if position = 0 then scan.dcValue index
  else
    (scan.blocks[index]?.map
      fun coded => acCoefficient 1 coded.block.symbols position).getD 0

end Scan

end EntropyCode

end CoreJpeg
