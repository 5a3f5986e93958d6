import CoreJpeg.IdctRamRead
import CoreJpeg.IdctTranspose
import CoreJpeg.OutputModel

namespace CoreJpeg.JpegIdct

/-!
# The inverse transform

`jpeg_idct` chains the coefficient buffer, the pass over the rows, the
transpose buffer and the pass over the columns, and keeps the ids of the blocks
in a queue of its own, `jpeg_idct_fifo`, which has the registers of
`jpeg_output_fifo`.  None of the stages behind the coefficient buffer can be
stalled: `outport_accept_i` only holds back the start of a block.
-/

/-- The input pins sampled in one clock cycle. -/
structure Input where
  rst : Bool
  imgStart : Bool
  inportValid : Bool
  inportData : BitVec 16
  inportIdx : BitVec 6
  inportEob : Bool
  inportId : BitVec 32
  outportAccept : Bool
  deriving Repr, DecidableEq

/-- The registers of `u_input`, `u_idct_x`, `u_transpose`, `u_idct_y` and `u_id_fifo`. -/
structure State where
  ram : JpegIdctRam.State
  x : Pass
  transpose : JpegIdctTranspose.State
  y : Pass
  idFifo : JpegOutput.Fifo 3 (BitVec 32)

/-! ## Wires -/

/-- The pins of `u_input`. -/
def Input.ram (i : Input) : JpegIdctRam.Input where
  rst := i.rst
  imgStart := i.imgStart
  inportValid := i.inportValid
  inportData := i.inportData
  inportIdx := i.inportIdx
  inportEob := i.inportEob
  outportReady := i.outportAccept

namespace State

variable (s : State) (i : Input)

/-- The pins of `u_idct_x`. -/
def xInput : XInput where
  rst := i.rst
  imgStart := i.imgStart
  inportValid := JpegIdctRam.outportValid s.ram
  inportData := JpegIdctRam.outportData s.ram
  inportIdx := JpegIdctRam.outportIdx s.ram

/-- The pins of `u_transpose`; `transpose_ready_w` is constant. -/
def transposeInput : JpegIdctTranspose.Input where
  rst := i.rst
  imgStart := i.imgStart
  inportValid := s.x.outportValid
  inportData := s.x.outportData
  inportIdx := xOutportIdx s.x
  outportReady := true

/-- The pins of `u_idct_y`. -/
def yInput : PassInput where
  rst := i.rst
  imgStart := i.imgStart
  inportValid := JpegIdctTranspose.outportValid s.transpose
  blockIn := JpegIdctTranspose.outportData s.transpose
  inportIdx := JpegIdctTranspose.outportIdx s.transpose

/-- `inport_accept_o`. -/
def inportAccept : Bool := JpegIdctRam.inportAccept s.ram

/-- `outport_valid_o`. -/
def outportValid : Bool := s.y.outportValid

/-- `outport_data_o`. -/
def outportData : BitVec 32 := s.y.outportData

/-- `outport_idx_o`. -/
def outportIdx : BitVec 6 := yOutportIdx s.y

/-- `outport_id_o`. -/
def outportId : BitVec 32 := s.idFifo.dataOutO

/-- The last sample of a block is shown, so that its id is dropped. -/
def idPop : Bool := s.outportValid && s.outportIdx == 63

/-- `u_id_fifo` after the clock edge. -/
def idFifoNext : JpegOutput.Fifo 3 (BitVec 32) :=
  if i.rst || i.imgStart then s.idFifo.flushed
  else s.idFifo.step (if i.inportEob then some i.inportId else none) s.idPop

/-- The registers after the clock edge. -/
def step : State where
  ram := JpegIdctRam.step s.ram i.ram
  x := xStep s.x (s.xInput i)
  transpose := JpegIdctTranspose.step s.transpose (s.transposeInput i)
  y := yStep s.y (s.yInput i)
  idFifo := s.idFifoNext i

/-- Nothing is under way in the transform. -/
structure Empty : Prop where
  ram : JpegIdctRam.Empty s.ram
  x : s.x.Empty
  transpose : JpegIdctTranspose.Empty s.transpose
  y : s.y.Empty
  rdPtrQ : s.idFifo.rdPtrQ = 0
  wrPtrQ : s.idFifo.wrPtrQ = 0
  countQ : s.idFifo.countQ = 0

/-- Register values after `rst_i`; the memories have none. -/
def reset (ram : BitVec 2 → BitVec 6 → BitVec 16)
    (ramRead1Q : BitVec 2 → BitVec 16)
    (transposeRam : BitVec 2 → BitVec 5 → BitVec 32)
    (transposeRead1Q : BitVec 2 → BitVec 32)
    (ids : BitVec 3 → BitVec 32) : State where
  ram := JpegIdctRam.reset ram ramRead1Q
  x := .reset
  transpose := JpegIdctTranspose.reset transposeRam transposeRead1Q
  y := .reset
  idFifo := { ramQ := ids, rdPtrQ := 0, wrPtrQ := 0, countQ := 0 }

/-- Nothing is under way after reset. -/
theorem empty_reset
    (ram : BitVec 2 → BitVec 6 → BitVec 16)
    (ramRead1Q : BitVec 2 → BitVec 16)
    (transposeRam : BitVec 2 → BitVec 5 → BitVec 32)
    (transposeRead1Q : BitVec 2 → BitVec 32)
    (ids : BitVec 3 → BitVec 32) :
    (reset ram ramRead1Q transposeRam transposeRead1Q ids).Empty where
  ram := ⟨fun _ => rfl, fun _ _ => rfl, rfl, rfl, rfl, rfl⟩
  x := ⟨rfl, rfl, rfl, rfl, rfl, rfl⟩
  transpose := ⟨fun _ => rfl, rfl, rfl, rfl⟩
  y := ⟨rfl, rfl, rfl, rfl, rfl, rfl⟩
  rdPtrQ := rfl
  wrPtrQ := rfl
  countQ := rfl

/-- No item is about to enter a pass or in its first three stages. -/
structure Quiet : Prop where
  ram : JpegIdctRam.outportValid s.ram = false
  x : s.x.stg0.validQ = false ∧ s.x.stg1.validQ = false ∧
    s.x.stg2.validQ = false
  transpose : JpegIdctTranspose.outportValid s.transpose = false
  y : s.y.stg0.validQ = false ∧ s.y.stg1.validQ = false ∧
    s.y.stg2.validQ = false

/--
`img_start_i` empties the pipeline unless an item is entering a pass: the first
stages of the passes are not cleared by it.
-/
theorem empty_flushed_iff
    {s : State} {i : Input}
    (noReset : i.rst = false)
    (start : i.imgStart = true) :
    (s.step i).Empty ↔ s.Quiet := by
  constructor
  · intro empty
    have x := empty.x
    have y := empty.y
    simp only [step, xStep, yStep, Pass.step, XInput.pass, xInput, yInput,
      noReset, Bool.false_eq_true, if_false] at x y
    exact ⟨x.stg0, ⟨x.stg1, x.stg2, x.stg3⟩, y.stg0, y.stg1, y.stg2, y.stg3⟩
  · rintro ⟨ram, ⟨x0, x1, x2⟩, transpose, y0, y1, y2⟩
    refine ⟨⟨?_, ?_, ?_, ?_, ?_, ?_⟩, ⟨?_, ?_, ?_, ?_, ?_, ?_⟩,
      ⟨?_, ?_, ?_, ?_⟩, ⟨?_, ?_, ?_, ?_, ?_, ?_⟩, ?_, ?_, ?_⟩ <;>
    simp [step, JpegIdctRam.step, JpegIdctRam.stored, JpegIdctRam.laneNext,
      JpegIdctRam.nextStateR, JpegIdctTranspose.step,
      JpegIdctTranspose.nextStateR, xStep, yStep, Pass.step, XInput.pass,
      xInput, yInput, transposeInput, Input.ram, idFifoNext,
      JpegOutput.Fifo.flushed, noReset, start, ram, x0, x1, x2, transpose,
      y0, y1, y2]

end State

/-! ## Blocks -/

/-- A sample at the output with its place in the block and the block's id. -/
structure Sample where
  idx : BitVec 6
  data : BitVec 32
  id : BitVec 32
  deriving Repr, DecidableEq

/-- A block that was written with its end pulse. -/
structure Block where
  coeffs : JpegIdctRam.Coefficients
  id : BitVec 32

/-- The pins of `u_input` in a run. -/
abbrev ramPins (i : Nat → Input) (n : Nat) : JpegIdctRam.Input := (i n).ram

/-- The registers of `u_input` in a run. -/
abbrev ramAt (s : Nat → State) (n : Nat) : JpegIdctRam.State := (s n).ram

/-- The blocks whose end pulse was accepted before the `n`-th cycle. -/
def blocksAt (s : Nat → State) (i : Nat → Input) : Nat → List Block
  | 0 => []
  | n + 1 =>
      if JpegIdctRam.closes (ramAt s n) (ramPins i n) then
        blocksAt s i n ++
          [{ coeffs :=
               JpegIdctRam.filled
                 (JpegIdctRam.openedAt (ramAt s) (ramPins i) n) (ramAt s n)
                 (ramPins i n)
             id := (i n).inportId }]
      else blocksAt s i n

/-- The coefficient at a place, as a word; a place not written counts as zero. -/
def word (coeffs : JpegIdctRam.Coefficients) (place : Nat) : BitVec 32 :=
  ((coeffs (BitVec.ofNat 6 place)).getD 0).signExtend 32

/-- The `m`-th sample of a block, which leaves column by column. -/
def Block.sample (block : Block) (m : Nat) : Sample :=
  let idx := ptrConv (BitVec.ofNat 6 m)
  { idx := idx
    data := Software.idctProcessWrap (word block.coeffs) idx.toNat
    id := block.id }

/-- The transformed block in the order in which it leaves. -/
def Block.samples (block : Block) : List Sample :=
  (List.range 64).map block.sample

/-- The sample shown in a cycle. -/
def State.sample (s : State) : Option Sample :=
  if s.outportValid then
    some { idx := s.outportIdx, data := s.outportData, id := s.outportId }
  else none

/-- The samples shown before the `n`-th cycle. -/
def samplesAt (s : Nat → State) : Nat → List Sample
  | 0 => []
  | n + 1 => samplesAt s n ++ (s n).sample.toList

/-- A run from an empty pipeline with `rst_i` and `img_start_i` low. -/
structure Run (s : Nat → State) (i : Nat → Input) : Prop where
  initially : (s 0).Empty
  next : ∀ n, s (n + 1) = (s n).step (i n)
  noReset : ∀ n, (i n).rst = false
  noStart : ∀ n, (i n).imgStart = false

/--
Before the `n`-th cycle samples and end pulses come in cycles with
`inport_accept_o` high.
-/
def Heeds (s : Nat → State) (i : Nat → Input) (n : Nat) : Prop :=
  ∀ m < n, (i m).inportValid = true ∨ (i m).inportEob = true →
    (s m).inportAccept = true

theorem Heeds.before
    {s : Nat → State} {i : Nat → Input}
    {n m : Nat}
    (heeds : Heeds s i n)
    (earlier : m ≤ n) :
    Heeds s i m :=
  fun k inside => heeds k (by omega)

end CoreJpeg.JpegIdct
