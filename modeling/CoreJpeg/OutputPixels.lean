import CoreJpeg.McuSystem
import CoreJpeg.OutputBlocks
import CoreJpeg.OutputStream

namespace CoreJpeg.JpegOutput

open EntropyCode Clocked McuProc

/-!
# Pixels of a 4:4:4 image

The samples of a 4:4:4 image arrive block after block, luminance, blue and red
in turn; blocks after the image are written to all three memories.  The three
memories are read in step.  As long as no block arrives before there is room
for it, every pixel is converted from the three samples of its place, and the
pixels leave in the order of the blocks.
-/

/-! ## Samples that arrive -/

/-- The place of a component in the order of the blocks. -/
def turn : Component → Nat
  | .y => 0
  | .cb => 1
  | .cr => 2

/-- A sample is written to the memory of a component. -/
def takes (mcus : Nat) (component : Component) (arrived : Nat) : Bool :=
  192 * mcus ≤ arrived || arrived / 64 % 3 == turn component

/-- The samples of a component among the first samples that arrive. -/
def written (mcus : Nat) (component : Component) (arrived : Nat) : Nat :=
  if arrived < 192 * mcus then
    64 * (arrived / 192) + min (arrived % 192 - 64 * turn component) 64
  else 64 * mcus + (arrived - 192 * mcus)

theorem takes_iff (mcus : Nat) (component : Component) (arrived : Nat) :
    takes mcus component arrived = true ↔
      192 * mcus ≤ arrived ∨ arrived / 64 % 3 = turn component := by
  rw [takes, Bool.or_eq_true, decide_eq_true_iff, beq_iff_eq]

/-- Another sample is counted where it is written. -/
theorem written_succ (mcus : Nat) (component : Component) (arrived : Nat) :
    written mcus component (arrived + 1) =
      written mcus component arrived +
        (takes mcus component arrived).toNat := by
  have small : turn component ≤ 2 := by cases component <;> decide
  have isTaken := takes_iff mcus component arrived
  unfold written
  cases taken : takes mcus component arrived with
  | true =>
      rw [Bool.toNat_true]
      have here := isTaken.mp taken
      split_ifs <;> omega
  | false =>
      rw [Bool.toNat_false]
      rw [taken] at isTaken
      simp only [Bool.false_eq_true, false_iff, not_or] at isTaken
      split_ifs <;> omega

/-- A sample that is written is at its place in its block. -/
theorem written_mod
    {mcus : Nat} {component : Component} {arrived : Nat}
    (isTaken : takes mcus component arrived = true) :
    written mcus component arrived % 64 = arrived % 64 := by
  have small : turn component ≤ 2 := by cases component <;> decide
  have here := (takes_iff mcus component arrived).mp isTaken
  unfold written
  split_ifs <;> omega

/-- The block to which a sample of the image is written. -/
theorem written_block
    {mcus : Nat} {component : Component} {arrived : Nat}
    (inImage : arrived < 192 * mcus)
    (isTaken : takes mcus component arrived = true) :
    written mcus component arrived / 64 = arrived / 192 ∧
      arrived / 64 = 3 * (arrived / 192) + turn component := by
  have small : turn component ≤ 2 := by cases component <;> decide
  have here := (takes_iff mcus component arrived).mp isTaken
  rw [written, if_pos inImage]
  omega

/-- The block to which a sample behind the image is written. -/
theorem written_behind
    {mcus : Nat} {component : Component} {arrived : Nat}
    (behind : 192 * mcus ≤ arrived) :
    written mcus component arrived / 64 =
      mcus + (arrived - 192 * mcus) / 64 := by
  rw [written, if_neg (Nat.not_lt.mpr behind)]
  omega

/-- No component has more samples in the image than there are pixels. -/
theorem written_le
    {mcus arrived : Nat}
    (inImage : arrived ≤ 192 * mcus)
    (component : Component) :
    written mcus component arrived ≤ 64 * mcus := by
  unfold written
  split_ifs <;> omega

theorem written_mono (mcus : Nat) (component : Component) :
    Monotone (written mcus component) :=
  monotone_nat_of_le_succ fun arrived => by
    rw [written_succ]
    exact Nat.le_add_right _ _

/-- The red samples come last, less than a block behind the others. -/
theorem written_cr_le (mcus : Nat) (component : Component) (arrived : Nat) :
    written mcus .cr arrived ≤ written mcus component arrived ∧
      written mcus component arrived ≤ written mcus .cr arrived + 64 := by
  have small : turn component ≤ 2 := by cases component <;> decide
  have last : turn .cr = 2 := rfl
  unfold written
  split_ifs <;> omega

/-! ## The stage with its history -/

/-- What arrives: the samples of the blocks, and the ids of the luma blocks. -/
structure Arrivals where
  mcus : Nat
  blocks : Component → Nat → BitVec 6 → BitVec 32
  id : Nat → BitVec 32

/-- The ids that are queued while the image is read. -/
def Arrivals.ids (a : Arrivals) : List (BitVec 32) :=
  (List.range (a.mcus + 4)).map a.id

/-- The output stage with the samples that arrived and those that were read. -/
structure Arrived where
  output : State
  arrived : Nat
  popped : Nat

namespace Arrived

/-- One clock edge. -/
def step (f : Arrived) (i : Input) : Arrived where
  output := JpegOutput.step f.output i
  arrived := f.arrived + i.inportValid.toNat
  popped := f.popped + (pops f.output i).toNat

/--
The pins of a cycle: a sample that arrives belongs to the blocks and is written
where its block is due; no block arrives before there is room for it.
-/
structure Delivers (a : Arrivals) (f : Arrived) (i : Input) : Prop where
  rst : i.rst = false
  imgStart : i.imgStart = false
  imgMode : i.imgMode = .ycbcr444
  kind :
    ∀ component,
      pushes (.ofComponent component) i =
        (i.inportValid && takes a.mcus component f.arrived)
  idx : i.inportValid = true → i.inportIdx = orderIdx (f.arrived % 64)
  data :
    ∀ component, pushes (.ofComponent component) i = true →
      i.inportData =
        a.blocks component (written a.mcus component f.arrived / 64)
          i.inportIdx
  id :
    pushes .y i = true →
      i.inportId = a.id (written a.mcus .y f.arrived / 64)
  room :
    ∀ component, pushes (.ofComponent component) i = true →
      written a.mcus component f.arrived / 64 < f.popped / 64 + 4
  reading : f.popped / 64 ≤ a.mcus

/-- What the registers hold when some samples arrived and were read. -/
structure Filled (a : Arrivals) (f : Arrived) : Prop where
  stream :
    Streaming .ycbcr444 a.ids
      ⟨f.output, written a.mcus .y f.arrived, f.popped⟩
  luma :
    BlockFed.Holding (a.blocks .y)
      ⟨f.output.uRamY.blocks, written a.mcus .y f.arrived, f.popped⟩
  blue :
    BlockFed.Holding (a.blocks .cb)
      ⟨f.output.uRamCb.blocks, written a.mcus .cb f.arrived, f.popped⟩
  red :
    BlockFed.Holding (a.blocks .cr)
      ⟨f.output.uRamCr.blocks, written a.mcus .cr f.arrived, f.popped⟩
  stored :
    f.output.activeQ = true →
      64 * (f.popped / 64 + 1) ≤ written a.mcus .cr f.arrived

end Arrived

section Cycle

open Arrived

variable {a : Arrivals} {f : Arrived} {i : Input}

/-- A cycle moves the number of samples written to a memory. -/
theorem Arrived.Delivers.written_step
    (pins : Delivers a f i)
    (component : Component) :
    written a.mcus component (f.step i).arrived =
      written a.mcus component f.arrived +
        (pushes (.ofComponent component) i).toNat := by
  have arrived : (f.step i).arrived = f.arrived + i.inportValid.toNat := rfl
  rw [arrived, pins.kind]
  cases i.inportValid with
  | false => simp
  | true => rw [Bool.toNat_true, Bool.true_and, written_succ]

/-- The pins of the memory of a component. -/
theorem Arrived.Delivers.feeds
    {slots : Nat}
    (pins : Delivers a f i)
    (known : Filled a f)
    (component : Component)
    (fits : 4 ≤ 2 ^ slots)
    (ram : BlockRam slots) :
    BlockFed.Feeds (a.blocks component)
      ⟨ram, written a.mcus component f.arrived, f.popped⟩
      (ramInput (.ofComponent component) f.output i) where
  index push := by
    have isPushed : pushes (.ofComponent component) i = true := push
    have both := isPushed
    rw [pins.kind, Bool.and_eq_true] at both
    change i.inportIdx = _
    rw [written_mod both.2, pins.idx both.1]
  data push := pins.data component push
  free push := by
    have room := pins.room component push
    change written a.mcus component f.arrived / 64 < f.popped / 64 + 2 ^ slots
    omega
  begins pop := by
    have isPop : pops f.output i = true := pop
    rw [pops, Bool.and_eq_true] at isPop
    exact (known.stored isPop.2).trans
      (written_cr_le a.mcus component f.arrived).1

/-- A luma sample is the first of its block where its index is zero. -/
theorem Arrived.Delivers.first_iff
    (pins : Delivers a f i)
    (push : pushes .y i = true) :
    i.inportIdx = 0 ↔ written a.mcus .y f.arrived % 64 = 0 := by
  have kind : pushes .y i = _ := pins.kind .y
  rw [kind, Bool.and_eq_true] at push
  rw [pins.idx push.1, written_mod push.2]
  have small : f.arrived % 64 < 64 := Nat.mod_lt _ (by decide)
  constructor
  · intro zero
    exact orderIdx_injective _ small 0 (by decide) (by rw [zero]; decide)
  · intro zero
    rw [zero]
    decide

/-- The pins of the luma stream. -/
theorem Arrived.Delivers.fed
    (pins : Delivers a f i)
    (known : Filled a f) :
    Fed.Feeds .ycbcr444 a.ids
      ⟨f.output, written a.mcus .y f.arrived, f.popped⟩ i where
  rst := pins.rst
  imgStart := pins.imgStart
  imgMode := pins.imgMode
  inOrder push := by
    have room := pins.room .y push
    have reading := pins.reading
    change a.ids[written a.mcus .y f.arrived / 64]? = _
    rw [pins.id push, Arrivals.ids, List.getElem?_map,
      List.getElem?_range (by omega)]
    rfl
  firstIndex := pins.first_iff
  idSpace push := by
    have isPushed : pushes .y i = true ∧ i.inportIdx = 0 := by
      by_contra otherwise
      simp only [idPush, Bool.and_eq_true, beq_iff_eq, otherwise, if_false] at push
      cases push
    have first := (pins.first_iff isPushed.1).mp isPushed.2
    have room : written a.mcus .y f.arrived / 64 < f.popped / 64 + 4 :=
      pins.room .y isPushed.1
    have stream := known.stream
    have size : f.output.uInfo.countQ.toNat =
        (written a.mcus .y f.arrived + 63) / 64 - f.popped / 64 := by
      have lengths := congrArg List.length stream.queue
      rwa [RingBuffer.length_contents, length_queued stream.inIds] at lengths
    rw [Fifo.acceptO, bne_iff_ne]
    intro full
    rw [full] at size
    change 8 = _ at size
    omega

/-- A block is read when all of its samples are stored. -/
theorem Arrived.Filled.stored_step
    (known : Filled a f)
    (pins : Delivers a f i)
    (active : (f.step i).output.activeQ = true) :
    64 * ((f.step i).popped / 64 + 1) ≤
      written a.mcus .cr (f.step i).arrived := by
  have stream := known.stream
  have popped : (f.step i).popped =
      f.popped + (pops f.output i).toNat := rfl
  have next : (f.step i).output.activeQ =
      if f.output.activeQ then
        !(pops f.output i && decide (f.popped % 64 = 63))
      else begins f.output .ycbcr444 :=
    stream.active_step (pins.fed known)
  have grows := pins.written_step .cr
  rw [next] at active
  rw [popped]
  cases wasActive : f.output.activeQ with
  | false =>
      rw [wasActive] at active
      have begun : begins f.output .ycbcr444 = true := active
      simp only [begins, Bool.and_eq_true, decide_eq_true_eq, BitVec.le_def]
        at begun
      have enough : 64 ≤ f.output.uRamCr.countQ.toNat := begun.2
      have level : f.output.uRamCr.countQ.toNat + f.popped =
          written a.mcus .cr f.arrived :=
        known.red.level
      have whole : f.popped % 64 = 0 := stream.whole wasActive
      have noPop : pops f.output i = false := by simp [pops, wasActive]
      rw [noPop, Bool.toNat_false]
      omega
  | true =>
      have stored := known.stored wasActive
      rw [wasActive] at active
      simp only [if_true, Bool.not_eq_true', Bool.and_eq_false_iff,
        decide_eq_false_iff_not] at active
      rcases active with noPop | inside
      · rw [noPop, Bool.toNat_false]
        omega
      · have atMost := Bool.toNat_le (pops f.output i)
        have same : (f.popped + (pops f.output i).toNat) / 64 =
            f.popped / 64 := by
          omega
        rw [same]
        omega

/-- One cycle of the stage. -/
theorem Arrived.Filled.step
    (known : Filled a f)
    (pins : Delivers a f i) :
    Filled a (f.step i) := by
  have running (blockType : BlockType) :
      (ramInput blockType f.output i).clear = false := by
    simp [ramInput, pins.rst, pins.imgStart]
  have mode420 : (i.imgMode == ImageMode.ycbcr420) = false := by
    rw [pins.imgMode]
    rfl
  have chroma (ram : CxRam) (component : Component) :
      (ram.step i.rst (i.imgMode == .ycbcr420)
          (ramInput (.ofComponent component) f.output i)).blocks =
        ram.blocks.step ram.readOk
          (ramInput (.ofComponent component) f.output i) := by
    rw [pins.rst, mode420]
    exact ram.blocks_step (running _)
  have stored := fun active => known.stored_step pins active
  have stream := known.stream.step (by decide) (pins.fed known)
  have luma := known.luma.step (by decide)
    (pins.feeds known .y (by decide) _) (YRam.readOk_of_holding known.luma)
  have blue := known.blue.step (by decide)
    (pins.feeds known .cb (by decide) _) (CxRam.readOk_of_holding known.blue)
  have red := known.red.step (by decide)
    (pins.feeds known .cr (by decide) _) (CxRam.readOk_of_holding known.red)
  rw [BlockFed.step] at luma blue red
  refine ⟨?_, ?_, ?_, ?_, stored⟩
  · rw [pins.written_step]
    exact stream
  · rw [pins.written_step]
    rw [← f.output.uRamY.blocks_step (running _)] at luma
    exact luma
  · rw [pins.written_step]
    rw [← chroma] at blue
    exact blue
  · rw [pins.written_step]
    rw [← chroma] at red
    exact red

/-- The stage after the start of an image. -/
structure Fresh (s : State) : Prop extends Cleared s where
  rdPtrY : s.uRamY.rdPtrQ = 0
  blue :
    s.uRamCb.validO = false ∧ s.uRamCb.countQ = 0 ∧ s.uRamCb.rdPtrQ = 0 ∧
      s.uRamCb.wrPtrQ = 0
  red :
    s.uRamCr.validO = false ∧ s.uRamCr.countQ = 0 ∧ s.uRamCr.rdPtrQ = 0 ∧
      s.uRamCr.wrPtrQ = 0

/-- The start of an image brings this about. -/
theorem fresh_step
    (s : State)
    {i : Input}
    (clear : (i.rst || i.imgStart) = true) :
    Fresh (JpegOutput.step s i) := by
  refine ⟨cleared_step s clear, ?_, ⟨?_, ?_, ?_, ?_⟩, ?_, ?_, ?_, ?_⟩ <;>
    simp [JpegOutput.step, YRam.step, CxRam.step, CxRam.validO, ramInput,
      clear]

/-- A fresh stage holds nothing. -/
theorem filled_fresh
    {s : State}
    (fresh : Fresh s)
    (a : Arrivals) :
    Filled a ⟨s, 0, 0⟩ := by
  have nothingWritten (component : Component) : written a.mcus component 0 = 0 := by
    cases component <;> simp [written]
  refine ⟨?_, ?_, ?_, ?_, ?_⟩
  · rw [nothingWritten]
    exact streaming_cleared fresh.toCleared _ _
  · rw [nothingWritten]
    exact holding_empty fresh.nothing fresh.empty fresh.rdPtrY
      (fresh.pointers.trans fresh.rdPtrY)
  · rw [nothingWritten]
    exact holding_empty fresh.blue.1 fresh.blue.2.1 fresh.blue.2.2.1
      fresh.blue.2.2.2
  · rw [nothingWritten]
    exact holding_empty fresh.red.1 fresh.red.2.1 fresh.red.2.2.1
      fresh.red.2.2.2
  · simp [fresh.inactive]

end Cycle

/-! ## Pixels -/

/-- A pixel with its coordinates. -/
structure Pixel where
  x : BitVec 16
  y : BitVec 16
  r : Byte
  g : Byte
  b : Byte
  deriving Repr, DecidableEq

/-- The pixel at the output pins. -/
def shownPixel (s : State) : List Pixel :=
  if s.validQ then
    [{ x := s.pixelXQ
       y := s.pixelYQ
       r := s.pixelRQ
       g := s.pixelGQ
       b := s.pixelBQ }]
  else []

/-- The pixel of a place, from the samples of the three components. -/
def Arrivals.pixel (a : Arrivals) (place : Nat) : Pixel :=
  let block := place / 64
  let idx := BitVec.ofNat 6 (place % 64)
  let rgb :=
    conv .ycbcr444 (a.blocks .y block idx) (a.blocks .cb block idx)
      (a.blocks .cr block idx)
  { x := pixelX (a.id block) idx
    y := pixelY (a.id block) idx
    r := channel rgb.1
    g := channel rgb.2.1
    b := channel rgb.2.2 }

/-- A place behind the image has no pixel. -/
def Arrivals.pixels (a : Arrivals) (place : Nat) : List Pixel :=
  if typeOf (a.id (place / 64)) == BlockType.eof.code then []
  else [a.pixel place]

namespace Arrived

/-- The pixel that is read in a cycle. -/
def readPixels (a : Arrivals) (f : Arrived) (i : Input) : List Pixel :=
  if pops f.output i then a.pixels f.popped else []

/-- The pixel that is accepted in a cycle. -/
def passedPixels (f : Arrived) (i : Input) : List Pixel :=
  if i.outportAccept then shownPixel f.output else []

end Arrived

section Pixels

open Arrived

variable {a : Arrivals} {f : Arrived} {i : Input}

/-- What is converted in a cycle that reads. -/
theorem Arrived.Filled.converted
    (known : Filled a f)
    (pins : Delivers a f i)
    (pop : pops f.output i = true) :
    idValue f.output = a.id (f.popped / 64) ∧
      f.output.idxQ = BitVec.ofNat 6 (f.popped % 64) ∧
      f.output.uRamY.dataOutO =
        a.blocks .y (f.popped / 64) (BitVec.ofNat 6 (f.popped % 64)) ∧
      f.output.uRamCb.dataOutO =
        a.blocks .cb (f.popped / 64) (BitVec.ofNat 6 (f.popped % 64)) ∧
      f.output.uRamCr.dataOutO =
        a.blocks .cr (f.popped / 64) (BitVec.ofNat 6 (f.popped % 64)) := by
  have stream := known.stream
  have front : a.ids[f.popped / 64]? = some (idValue f.output) :=
    stream.idValue_eq (stream.present pop).1
  have reading := pins.reading
  rw [Arrivals.ids, List.getElem?_map, List.getElem?_range (by omega),
    Option.map_some, Option.some.injEq] at front
  have index : f.output.idxQ.toNat = f.popped % 64 := stream.index
  refine ⟨front.symm, ?_, ?_, ?_, ?_⟩
  · rw [← index, BitVec.ofNat_toNat, BitVec.setWidth_eq]
  · exact known.luma.shown
      (known.luma.valid_of_pop (pins.feeds known .y (by decide) _) pop)
  · exact known.blue.shown
      (known.blue.valid_of_pop (pins.feeds known .cb (by decide) _) pop)
  · exact known.red.shown
      (known.red.valid_of_pop (pins.feeds known .cr (by decide) _) pop)

/-- A pixel is shown until it is accepted, then the next one that is read. -/
theorem Arrived.Filled.balanced
    (known : Filled a f)
    (pins : Delivers a f i) :
    shownPixel f.output ++ readPixels a f i =
      passedPixels f i ++ shownPixel (f.step i).output := by
  have next : shownPixel (f.step i).output =
      if outputSpace f.output i then readPixels a f i
      else shownPixel f.output := by
    cases space : outputSpace f.output i with
    | false =>
        simp [shownPixel, Arrived.step, JpegOutput.step, pins.rst, space]
    | true =>
        cases active : f.output.activeQ with
        | false =>
            simp [shownPixel, readPixels, pops, Arrived.step, JpegOutput.step,
              pins.rst, space, active]
        | true =>
            have pop : pops f.output i = true := by
              simp [pops, space, active]
            obtain ⟨id, index, luma, blue, red⟩ := known.converted pins pop
            cases isEof : typeOf (a.id (f.popped / 64)) ==
                BlockType.eof.code <;>
              simp [shownPixel, readPixels, pop, Arrivals.pixels,
                Arrivals.pixel, Arrived.step, JpegOutput.step, pins.rst,
                pins.imgMode, space, active, id, index, luma, blue, red,
                isEof, bne]
  rw [next, passedPixels]
  cases held : f.output.validQ with
  | false => simp [shownPixel, held, outputSpace]
  | true =>
      cases accept : i.outportAccept with
      | false =>
          simp [shownPixel, held, outputSpace, accept, readPixels, pops]
      | true => simp [shownPixel, held, outputSpace, accept]

/-! ## How far the stage has read -/

/-- The steps of the stage up to now: one for a sample, one to begin a block. -/
def phase (f : Arrived) : Nat :=
  65 * (f.popped / 64) + f.popped % 64 + f.output.activeQ.toNat

theorem phase_le (f : Arrived) : phase f ≤ 65 * (f.popped / 64) + 64 := by
  have inBlock : f.popped % 64 < 64 := Nat.mod_lt _ (by decide)
  have atMost := Bool.toNat_le f.output.activeQ
  rw [phase]
  omega

/-- The stage begins a block when its samples are stored. -/
theorem Arrived.Filled.begins_of_stored
    (known : Filled a f)
    (inactive : f.output.activeQ = false)
    (stored : 64 * (f.popped / 64 + 1) ≤ written a.mcus .cr f.arrived) :
    begins f.output .ycbcr444 = true := by
  have whole : f.popped % 64 = 0 := known.stream.whole inactive
  have luma : f.output.uRamY.countQ.toNat + f.popped = _ := known.luma.level
  have blue : f.output.uRamCb.countQ.toNat + f.popped = _ := known.blue.level
  have red : f.output.uRamCr.countQ.toNat + f.popped = _ := known.red.level
  have lumaMore := (written_cr_le a.mcus .y f.arrived).1
  have blueMore := (written_cr_le a.mcus .cb f.arrived).1
  simp only [begins, Bool.and_eq_true, decide_eq_true_eq, BitVec.le_def]
  change (64 ≤ f.output.uRamY.countQ.toNat ∧
    64 ≤ f.output.uRamCb.countQ.toNat) ∧ 64 ≤ f.output.uRamCr.countQ.toNat
  simp only at luma blue red
  omega

/-- The stage makes a step when it has a stored block and is not stalled. -/
theorem Arrived.Filled.phase_step
    (known : Filled a f)
    (pins : Delivers a f i) :
    phase (f.step i) =
      phase f +
        (if f.output.activeQ then outputSpace f.output i
          else begins f.output .ycbcr444).toNat := by
  have next : (f.step i).output.activeQ =
      if f.output.activeQ then
        !(pops f.output i && decide (f.popped % 64 = 63))
      else begins f.output .ycbcr444 :=
    known.stream.active_step (pins.fed known)
  have popped : (f.step i).popped =
      f.popped + (pops f.output i).toNat := rfl
  rw [phase, phase, next, popped]
  cases active : f.output.activeQ with
  | false =>
      have noPop : pops f.output i = false := by simp [pops, active]
      have whole : f.popped % 64 = 0 := known.stream.whole active
      rw [noPop]
      simp [whole]
  | true =>
      have isPop : pops f.output i = outputSpace f.output i := by
        simp [pops, active]
      rw [isPop]
      cases space : outputSpace f.output i with
      | false => simp
      | true =>
          by_cases last : f.popped % 64 = 63
          · simp only [last, decide_true, Bool.and_true, Bool.not_true,
              if_true, Bool.toNat_true, Bool.toNat_false]
            omega
          · simp only [last, decide_false, Bool.and_false, Bool.not_false,
              if_true, Bool.toNat_true]
            omega

end Pixels

/-! ## Runs -/

section Runs

open Arrived

variable {a : Arrivals} {s : Nat → Arrived} {i : Nat → Input}
variable (next : ∀ n, s (n + 1) = (s n).step (i n))

/-- The pixels that were accepted before the `n`-th cycle. -/
def pixelsAt (s : Nat → Arrived) (i : Nat → Input) : Nat → List Pixel
  | 0 => []
  | n + 1 => pixelsAt s i n ++ passedPixels (s n) (i n)

include next

/-- The stage is filled as long as samples arrive as they should. -/
theorem filled_run
    (initially : Filled a (s 0))
    {n : Nat}
    (delivers : ∀ m < n, Delivers a (s m) (i m)) :
    Filled a (s n) := by
  induction n with
  | zero => exact initially
  | succ n inductionHypothesis =>
      rw [next]
      exact (inductionHypothesis fun m before =>
        delivers m (by omega)).step (delivers n (Nat.lt_succ_self n))

/-- The pixels accepted, with the one that is shown, are those read so far. -/
theorem pixels_run
    (initially : Filled a (s 0))
    (nothing : (s 0).output.validQ = false)
    (unread : (s 0).popped = 0)
    {n : Nat}
    (delivers : ∀ m < n, Delivers a (s m) (i m)) :
    pixelsAt s i n ++ shownPixel (s n).output =
      (List.range (s n).popped).flatMap a.pixels := by
  induction n with
  | zero => simp [pixelsAt, shownPixel, nothing, unread]
  | succ n inductionHypothesis =>
      have before := inductionHypothesis fun m earlier =>
        delivers m (by omega)
      have pins := delivers n (Nat.lt_succ_self n)
      have known := filled_run next initially fun m earlier =>
        delivers m (Nat.lt_succ_of_lt earlier)
      have popped : ((s n).step (i n)).popped =
          (s n).popped + (pops (s n).output (i n)).toNat := rfl
      rw [pixelsAt, List.append_assoc, next, ← known.balanced pins,
        ← List.append_assoc, before, popped, readPixels]
      cases pops (s n).output (i n) with
      | false => simp
      | true => simp [List.range_succ]

end Runs

end CoreJpeg.JpegOutput
