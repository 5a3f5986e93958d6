import CoreJpeg.BitBuffer
import CoreJpeg.Clocked
import CoreJpeg.EntropyCode
import CoreJpeg.McuModel

namespace CoreJpeg.McuProc

/-!
# The entropy decoder between its neighbours

The decoder pops the bit buffer, which a source fills byte by byte, and asks
Huffman tables that answer one or more cycles later.  This module closes the
decoder with both, fixes what the neighbours promise, and collects what one
block leaves on the pins between two end-of-block pulses.
-/

open EntropyCode BitString

/-- A lookup that waits for its answer. -/
structure Request where
  table : DhtTable
  input : BitVec 16
  deriving Repr, DecidableEq

/-- The decoder, its bit buffer, the waiting lookups and the bytes to come. -/
structure System where
  mcu : State
  buffer : BitBuffer.State
  pending : List Request
  source : List Byte

/-- What the surroundings do in one clock cycle. -/
structure Cycle where
  rst : Bool
  imgStart : Bool
  imgEnd : Bool
  imgWidth : BitVec 16
  imgMode : ImageMode
  /-- The source offers its next byte. -/
  sourceValid : Bool
  /-- `inport_last_i` of the bit buffer. -/
  sourceLast : Bool
  /-- `lookup_valid_i`, with the width and the symbol of the code. -/
  answer : Option (BitVec 5 × BitVec 8)
  outportBlkSpace : Bool
  deriving Repr, DecidableEq

namespace System

/-- The state after `rst_i`, before any byte of the scan. -/
def initial (ramQ : BitVec 3 → Byte) (source : List Byte) : System where
  mcu := reset
  buffer := BitBuffer.cleared ramQ
  pending := []
  source := source

/-- The pins of the decoder. -/
def mcuInput (system : System) (cycle : Cycle) : Input where
  rst := cycle.rst
  imgStart := cycle.imgStart
  imgEnd := cycle.imgEnd
  imgWidth := cycle.imgWidth
  imgMode := cycle.imgMode
  inportValid := BitBuffer.outportValid system.buffer
  inportData := BitBuffer.outportData system.buffer
  lookupValid := cycle.answer.isSome
  lookupWidth := (cycle.answer.map Prod.fst).getD 0
  lookupValue := (cycle.answer.map Prod.snd).getD 0
  outportBlkSpace := cycle.outportBlkSpace

/-- The pins of the bit buffer. -/
def bufferInput (system : System) (cycle : Cycle) : BitBuffer.Input where
  rst := cycle.rst
  imgStart := cycle.imgStart
  inportValid := cycle.sourceValid && !system.source.isEmpty
  inportData := system.source.headD 0
  inportLast := cycle.sourceLast
  outportPop := inportPop system.mcu

/-- The lookup a cycle asks, if it asks one. -/
def asked (system : System) (cycle : Cycle) : List Request :=
  if lookupReq system.mcu (system.mcuInput cycle) then
    [{ table := lookupTable system.mcu
       input := lookupInput (system.mcuInput cycle) }]
  else []

/-- The lookups that still wait when a cycle's answer is in. -/
def unanswered (system : System) (cycle : Cycle) : List Request :=
  if cycle.answer.isSome then system.pending.tail else system.pending

/-- The bytes the source still holds after a cycle. -/
def sourceNext (system : System) (cycle : Cycle) : List Byte :=
  if BitBuffer.pushes system.buffer (system.bufferInput cycle) then
    system.source.tail
  else system.source

/-- The system after the clock edge. -/
def step (system : System) (cycle : Cycle) : System where
  mcu := McuProc.step system.mcu (system.mcuInput cycle)
  buffer := BitBuffer.step system.buffer (system.bufferInput cycle)
  pending := system.unanswered cycle ++ system.asked cycle
  source := system.sourceNext cycle

end System

/-! ## Promises -/

/-- The Huffman table a lookup names. -/
def tableOf (tables : Tables) : DhtTable → Table
  | .yDc => tables.yDc
  | .yAc => tables.yAc
  | .cxDc => tables.cxDc
  | .cxAc => tables.cxAc

/-- An answer gives width and symbol of the code that starts the input. -/
def Answers
    (tables : Tables)
    (request : Request)
    (answer : BitVec 5 × BitVec 8) : Prop :=
  ∀ entry ∈ (tableOf tables request.table).entries,
    entry.1 <+: bitsOf request.input →
      answer = (BitVec.ofNat 5 entry.1.length, entry.2)

instance
    (tables : Tables)
    (request : Request)
    (answer : BitVec 5 × BitVec 8) :
    Decidable (Answers tables request answer) := by
  unfold Answers
  infer_instance

/-- The answer of a cycle, if any, is right for the oldest waiting lookup. -/
def AnswerRight
    (tables : Tables)
    (pending : List Request) :
    Option (BitVec 5 × BitVec 8) → Prop
  | none => True
  | some answer =>
      match pending with
      | [] => False
      | request :: _ => Answers tables request answer

instance
    (tables : Tables)
    (pending : List Request)
    (answer : Option (BitVec 5 × BitVec 8)) :
    Decidable (AnswerRight tables pending answer) := by
  unfold AnswerRight
  split
  · infer_instance
  · split <;> infer_instance

/-- What the neighbours promise in every cycle of a scan. -/
structure Promised
    (tables : Tables)
    (mode : ImageMode)
    (system : System)
    (cycle : Cycle) : Prop where
  noReset : cycle.rst = false
  noStart : cycle.imgStart = false
  modeKept : cycle.imgMode = mode
  lastAfterAll :
    cycle.sourceLast = true → system.sourceNext cycle = []
  answerRight : AnswerRight tables system.pending cycle.answer

instance
    (tables : Tables)
    (mode : ImageMode)
    (system : System)
    (cycle : Cycle) :
    Decidable (Promised tables mode system cycle) :=
  decidable_of_iff
    (cycle.rst = false ∧ cycle.imgStart = false ∧ cycle.imgMode = mode ∧
      (cycle.sourceLast = true → system.sourceNext cycle = []) ∧
      AnswerRight tables system.pending cycle.answer)
    ⟨fun ⟨first, second, third, fourth, fifth⟩ =>
      ⟨first, second, third, fourth, fifth⟩,
      fun promised =>
        ⟨promised.noReset, promised.noStart, promised.modeKept,
          promised.lastAfterAll, promised.answerRight⟩⟩

/--
A lookup is answered at the latest in the cycle of the next one.
-/
def AnsweredInTime (system : System) (cycle : Cycle) : Prop :=
  system.asked cycle = [] ∨ system.unanswered cycle = []

instance (system : System) (cycle : Cycle) :
    Decidable (AnsweredInTime system cycle) := by
  unfold AnsweredInTime
  infer_instance

/-- The end of the image has not been inferred. -/
def ImageOpen (system : System) (_ : Cycle) : Prop :=
  system.mcu.id.endOfImageQ = false

instance (system : System) (cycle : Cycle) :
    Decidable (ImageOpen system cycle) := by
  unfold ImageOpen
  infer_instance

/-! ## What a block leaves on the pins -/

/-- One sample on the output pins. -/
structure Sample where
  idx : BitVec 6
  data : BitVec 16
  id : BitVec 32
  deriving Repr, DecidableEq

/-- What a cycle shows: a sample, bits popped, the end of a block. -/
inductive Event where
  | sample (sample : Sample)
  | popped (bits : List Bool)
  | endOfBlock
  deriving Repr, DecidableEq

/-- The sample on the output pins, if one is valid. -/
def shownSample (s : State) : List Sample :=
  if outportValid s then
    [{ idx := outportIdx s, data := outportData s, id := outportId s }]
  else []

/-- The bits popped from the bit buffer. -/
def poppedBits (system : System) (cycle : Cycle) : List Bool :=
  (bitsOf (BitBuffer.outportData system.buffer)).take
    (BitBuffer.popped system.buffer (system.bufferInput cycle))

/-- What a cycle shows, the end of a block last. -/
def events (system : System) (cycle : Cycle) : List Event :=
  (shownSample system.mcu).map .sample ++
    .popped (poppedBits system cycle) ::
      (if outportEob system.mcu then [.endOfBlock] else [])

/-- The samples and the popped bits of one block. -/
structure Group where
  samples : List Sample
  popped : List Bool
  deriving Repr, DecidableEq

/-- The finished groups and the one being collected. -/
structure Record where
  finished : List Group
  current : Group
  deriving Repr, DecidableEq

namespace Record

/-- Nothing has been shown. -/
def empty : Record where
  finished := []
  current := ⟨[], []⟩

/-- Add one event; an end-of-block pulse finishes the group. -/
def add (record : Record) : Event → Record
  | .sample sample =>
      { record with
        current :=
          { record.current with
            samples := record.current.samples ++ [sample] } }
  | .popped bits =>
      { record with
        current :=
          { record.current with popped := record.current.popped ++ bits } }
  | .endOfBlock =>
      { finished := record.finished ++ [record.current]
        current := ⟨[], []⟩ }

end Record

/-- The record of the events of a run. -/
def recordOf (shown : List Event) : Record :=
  shown.foldl Record.add .empty

/-- The groups between consecutive end-of-block pulses of a run. -/
def blockGroups (system : System) (cycles : List Cycle) : List Group :=
  (recordOf (Clocked.observe System.step events system cycles)).finished

/-- Samples read as a map from index to value; the last sample counts. -/
def readSamples (samples : List Sample) (index : Nat) : BitVec 16 :=
  samples.foldl
    (fun value sample =>
      if sample.idx.toNat = index then sample.data else value) 0

/-! ## What a block should leave -/

/-- The block type of a component. -/
def BlockType.ofComponent : Component → BlockType
  | .y => .y
  | .cb => .cb
  | .cr => .cr

/-- The component of each block of a scan. -/
def componentOrder (mode : ImageMode) (index : Nat) : Component :=
  match mode with
  | .ycbcr444 =>
      if index % 3 = 0 then .y else if index % 3 = 1 then .cb else .cr
  | .ycbcr420 =>
      if index % 6 < 4 then .y else if index % 6 = 4 then .cb else .cr
  | _ => .y

/-- A group is what the block of a scan with the same number leaves. -/
structure Group.Shows (group : Group) (scan : Scan) (index : Nat) : Prop where
  coefficients :
    ∀ position < 64,
      readSamples group.samples position = scan.coefficient index position
  component :
    ∀ sample ∈ group.samples,
      sample.id.extractLsb' 30 2 =
        (BlockType.ofComponent (scan.order index)).code
  encoding :
    scan.blocks[index]?.map CodedBlock.bits = some group.popped

end CoreJpeg.McuProc
