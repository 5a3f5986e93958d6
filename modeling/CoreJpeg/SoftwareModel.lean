import CoreJpeg.EntropyCode
import CoreJpeg.InputModel

namespace CoreJpeg.Software

/-!
# The software entropy decoder

The C model and the software decoder share `jpeg_bit_buffer`, `jpeg_dht` and
`jpeg_mcu_block`, and their `DecodeImage` loops agree.  A scan is pushed byte
by byte until a marker; MCUs are then decoded until the bit buffer says that it
is exhausted.  This module transcribes these functions up to the coefficients
of each block, with offsets that are natural numbers.  In the program the read
offset is an `int`: its sums are checked where the memory of the bit buffer is,
and a run is compared with the program only as far as they fit.
-/

open EntropyCode BitString

/-! ## `jpeg_bit_buffer` -/

/-- The fields of `jpeg_bit_buffer`. -/
structure BitBuffer where
  buffer : Nat → Byte
  last : Byte
  wrOffset : Nat
  rdOffset : Nat

namespace BitBuffer

/-- `reset`: the memory is zeroed. -/
def reset : BitBuffer where
  buffer := fun _ => 0
  last := 0
  wrOffset := 0
  rdOffset := 0

/-- `push`: store a byte, skip a stuffed zero, refuse a marker. -/
def push (s : BitBuffer) (b : Byte) : Bool × BitBuffer :=
  if s.last = 0xFF ∧ b = 0x00 then (true, { s with last := b })
  else if s.last = 0xFF ∧ b ≠ 0x00 then
    (false, { s with wrOffset := s.wrOffset - 1 })
  else
    (true,
      { s with
        buffer := fun index => if index = s.wrOffset then b else s.buffer index
        wrOffset := s.wrOffset + 1
        last := b })

/-- Push bytes until one is refused. -/
def pushScan : BitBuffer → List Byte → BitBuffer
  | s, [] => s
  | s, b :: rest =>
      match push s b with
      | (true, next) => pushScan next rest
      | (false, next) => next

/-- `eof`. -/
def eof (s : BitBuffer) : Bool := s.wrOffset ≤ (s.rdOffset + 7) / 8

/-- `read_word`: up to 32 bits, aligned to the top. -/
def readWord (s : BitBuffer) : BitVec 32 :=
  if eof s then 0
  else
    let byte := s.rdOffset / 8
    let bit := s.rdOffset % 8
    let gathered : BitVec 64 :=
      (List.range 5).foldl
        (fun w x => (w ||| (s.buffer (byte + x)).setWidth 64) <<< 8) 0
    ((gathered <<< bit) >>> 16).setWidth 32

/-- `advance`. -/
def advance (s : BitBuffer) (bits : Nat) : BitBuffer :=
  { s with rdOffset := s.rdOffset + bits }

end BitBuffer

/-! ## `jpeg_dht` -/

/-- One entry of a Huffman table. -/
structure DhtEntry where
  code : BitVec 16
  codeLen : Nat
  value : BitVec 8
  deriving Repr, DecidableEq

/-- The entries that hold a table's code words. -/
def dhtEntries (table : Table) : List DhtEntry :=
  table.entries.map fun entry =>
    { code := BitVec.ofNat 16 (ofBits entry.1)
      codeLen := entry.1.length
      value := entry.2 }

/-- `lookup`: width and value of the first matching entry. -/
def lookup (entries : List DhtEntry) (w : BitVec 16) : Nat × BitVec 8 :=
  match entries.find? fun entry =>
      w >>> (16 - entry.codeLen) == entry.code with
  | some entry => (entry.codeLen, entry.value)
  | none => (0, 0)

/-! ## `jpeg_mcu_block` -/

/-- `decode_number`. -/
def decodeNumber (code : BitVec 16) (bits : Nat) : BitVec 16 :=
  if (code.setWidth 32 &&& ((1 : BitVec 32) <<< (bits - 1))) == 0 &&
      bits != 0 then
    (code ||| (~~~(0 : BitVec 16) <<< bits)) + 1
  else code

/-- A coefficient with its zigzag index, as packed into `block_out`. -/
structure Sample where
  coeff : Nat
  value : BitVec 16
  deriving Repr, DecidableEq

/-- What `decode` works on: the bits, the component's DC and its output. -/
structure BlockState where
  bits : BitBuffer
  olddccoeff : BitVec 16
  samples : List Sample

namespace BlockState

/-- `m_bit_buffer->advance`. -/
def advance (s : BlockState) (count : Nat) : BlockState :=
  { s with bits := s.bits.advance count }

/-- `block_out[samples++] = ...`. -/
def emit (s : BlockState) (coeff : Nat) (value : BitVec 16) : BlockState :=
  { s with samples := s.samples ++ [{ coeff := coeff, value := value }] }

end BlockState

/--
The loop of `decode` over `coeff`.  Every iteration raises `coeff`, so the
first argument, the iterations left, never ends a loop that starts with 64.  A
DC symbol above 16 makes the program shift by a negative amount; here the shift
is zero, which decides nothing but the value, and runs that meet such a symbol
are told apart where a scan is recovered.
-/
def decodeLoop (dc ac : List DhtEntry) :
    Nat → Nat → BlockState → BlockState
  | 0, _, s => s
  | left + 1, coeff, s =>
      if 64 ≤ coeff then s
      else
        let inputWord := s.bits.readWord
        let found :=
          lookup (if coeff = 0 then dc else ac)
            ((inputWord >>> 16).setWidth 16)
        let codeWidth := found.1
        let code := found.2
        let coefBits := (code &&& 0xF).toNat
        let inputData : BitVec 16 :=
          (inputWord >>> (16 - codeWidth)).setWidth 16
        if coeff = 0 then
          let number := decodeNumber (inputData >>> (16 - code.toNat)) coefBits
          let dcoeff := number + s.olddccoeff
          decodeLoop dc ac left 1
            (({ s with olddccoeff := dcoeff }.advance
              (codeWidth + coefBits)).emit 0 dcoeff)
        else if code = 0 then s.advance codeWidth
        else if code = 0xF0 then
          decodeLoop dc ac left (coeff + 16) (s.advance codeWidth)
        else
          let place :=
            if 15 < code.toNat then coeff + (code >>> 4).toNat else coeff
          let acoeff := decodeNumber (inputData >>> (16 - coefBits)) coefBits
          let advanced := s.advance (codeWidth + coefBits)
          decodeLoop dc ac left (place + 1)
            (if place < 64 then advanced.emit place acoeff else advanced)

/-! ## `DecodeImage` -/

/-- The state of `DecodeImage`: the bit buffer and three DC predictors. -/
structure ImageState where
  bits : BitBuffer
  dcCoeff : Component → BitVec 16

/-- A decoded block: its component and its samples. -/
structure DecodedBlock where
  component : Component
  samples : List Sample
  deriving Repr, DecidableEq

/-- `mcu_dec_.decode` for the next block of a component. -/
def decodeBlock
    (tables : Tables)
    (component : Component)
    (s : ImageState) : DecodedBlock × ImageState :=
  let result :=
    decodeLoop (dhtEntries (tables.dc component))
      (dhtEntries (tables.ac component)) 64 0
      { bits := s.bits
        olddccoeff := s.dcCoeff component
        samples := [] }
  ({ component := component, samples := result.samples },
    { bits := result.bits
      dcCoeff := fun other =>
        if other = component then result.olddccoeff else s.dcCoeff other })

/-- The blocks of a list of components, one after the other. -/
def decodeBlocks (tables : Tables) :
    List Component → ImageState → List DecodedBlock × ImageState
  | [], s => ([], s)
  | component :: rest, s =>
      let (block, next) := decodeBlock tables component s
      let (blocks, final) := decodeBlocks tables rest next
      (block :: blocks, final)

/-- The components of an MCU in the order of `DecodeImage`. -/
def mcuComponents : ImageMode → List Component
  | .ycbcr420 => [.y, .y, .y, .y, .cb, .cr]
  | .ycbcr444 => [.y, .cb, .cr]
  | .monochrome => [.y]
  | .unsupported => []

/-- The MCUs that `DecodeImage` decodes, if the fuel suffices. -/
def decodeImage (tables : Tables) (mode : ImageMode) :
    Nat → ImageState → Option (List (List DecodedBlock))
  | 0, _ => none
  | fuel + 1, s =>
      if s.bits.eof then some []
      else
        let (mcu, next) := decodeBlocks tables (mcuComponents mode) s
        (decodeImage tables mode fuel next).map (mcu :: ·)

/-- The state in which `DecodeImage` starts on the pushed bytes of a scan. -/
def imageStart (file : List Byte) : ImageState where
  bits := BitBuffer.reset.pushScan file
  dcCoeff := fun _ => 0

/-- `process_samples` without quantisation: unwritten coefficients are zero. -/
def coefficients (samples : List Sample) (index : Nat) : BitVec 16 :=
  samples.foldl
    (fun value sample => if sample.coeff = index then sample.value else value)
    0

end CoreJpeg.Software
