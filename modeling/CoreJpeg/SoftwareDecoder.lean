import CoreJpeg.Iteration
import CoreJpeg.SoftwareImage

namespace CoreJpeg.SoftwareJpegDecoder

open EntropyCode Iteration Software

/-!
# The software decoder

`SoftwareJpegDecoder::Decode` walks the source byte by byte, parses the
segments behind the markers that it knows and decodes an image behind each
start of scan.  This module transcribes it as a machine: a step is one
iteration of the marker loop or one iteration of `DecodeImage`.  Sizes are
natural numbers; the bit offset, an `int`, is checked where it is added to.
-/

/-! ## Reading the source -/

/-- `if (!condition) return false;`. -/
def require (condition : Prop) [Decidable condition] : Except Stop Unit :=
  if condition then .ok () else .error (.returns false)

/-- `GetByte`. -/
def getByte (src : List Byte) (idx : Nat) : Except Stop Byte :=
  orFault (byteAt src idx)

/-- `GetWord`. -/
def getWord (src : List Byte) (idx : Nat) : Except Stop Nat := do
  let hi ← getByte src idx
  let lo ← getByte src (idx + 1)
  .ok (hi.toNat * 256 + lo.toNat)

/-- `GetByte` a number of times, without using the bytes. -/
def skipBytes (src : List Byte) : (idx count : Nat) → Except Stop Unit
  | _, 0 => .ok ()
  | idx, count + 1 => do
      let _ ← getByte src idx
      skipBytes src (idx + 1) count

/-! ## `SkipSegment` and the parsers -/

/-- `SkipSegment`. -/
def skipSegment (src : List Byte) (idx : Nat) : Except Stop Nat := do
  require (idx + 2 ≤ src.length)
  let segLen ← getWord src idx
  require (2 ≤ segLen)
  require (idx + segLen ≤ src.length)
  .ok (idx + segLen)

/-- `comp_id`, the sampling factors and the quantisation table. -/
structure SofComponent where
  compId : Byte
  horizFactor : Byte
  vertFactor : Byte
  dqtTable : Byte
  deriving Repr, DecidableEq

/-- The loop over the components of a frame header. -/
def sofComponents (src : List Byte) :
    (idx count : Nat) → Except Stop (List SofComponent)
  | _, 0 => .ok []
  | idx, count + 1 => do
      let compId ← getByte src idx
      let sampleFactor ← getByte src (idx + 1)
      let dqtTable ← getByte src (idx + 2)
      let rest ← sofComponents src (idx + 3) count
      .ok ({ compId := compId
             horizFactor := sampleFactor >>> 4
             vertFactor := sampleFactor &&& 0xF
             dqtTable := dqtTable } :: rest)

/-- `mode_` of the components. -/
def sofMode : List SofComponent → ImageMode
  | [_] => .monochrome
  | [y, cb, cr] =>
      if y.compId = 1 ∧ cb.compId = 2 ∧ cr.compId = 3 ∧
          cb.horizFactor = 1 ∧ cb.vertFactor = 1 ∧
          cr.horizFactor = 1 ∧ cr.vertFactor = 1 then
        if y.horizFactor = 1 ∧ y.vertFactor = 1 then .ycbcr444
        else if y.horizFactor = 2 ∧ y.vertFactor = 2 then .ycbcr420
        else .unsupported
      else .unsupported
  | _ => .unsupported

/-- `ParseSof0`. -/
def parseSof0 (src : List Byte) (dstCapacity : Nat) (d : Decoder)
    (idx : Nat) : Except Stop (Nat × Decoder) := do
  require (idx + 2 ≤ src.length)
  let segLen ← getWord src idx
  require (8 ≤ segLen ∧ idx + segLen ≤ src.length)
  require (idx + 2 + (segLen - 2) ≤ src.length)
  let _precision ← getByte src (idx + 2)
  let height ← getWord src (idx + 3)
  let width ← getWord src (idx + 5)
  let numComps ← getByte src (idx + 7)
  require (numComps.toNat ≤ 3)
  require (width * height * 3 ≤ dstCapacity)
  let components ← sofComponents src (idx + 8) numComps.toNat
  .ok (idx + segLen,
    { d with
      width := width
      height := height
      mode := sofMode components
      dqtTable := fun x =>
        (components[x.val]?.map SofComponent.dqtTable).getD (d.dqtTable x) })

/-- `ParseDqt`. -/
def parseDqt (src : List Byte) (d : Decoder) (idx : Nat) :
    Except Stop (Nat × Decoder) := do
  require (idx + 2 ≤ src.length)
  let segLen ← getWord src idx
  require (2 ≤ segLen ∧ idx + segLen ≤ src.length)
  let dqt ← orFault (dqtProcess (src.drop (idx + 2)) d.dqt)
  .ok (idx + segLen, { d with dqt := dqt })

/-- `ParseDht`. -/
def parseDht (src : List Byte) (d : Decoder) (idx : Nat) :
    Except Stop (Nat × Decoder) := do
  require (idx + 2 ≤ src.length)
  let segLen ← getWord src idx
  require (2 ≤ segLen ∧ idx + segLen ≤ src.length)
  let processed ←
    orFault (dhtProcess (src.drop (idx + 2)) (segLen - 2) d.dht)
  .ok (idx + segLen, { d with dht := processed.2 })

/-- `jpeg_bit_buffer::reset`: `m_max_size` of an `int` argument. -/
def bufferSize (srcLen : Nat) : Nat :=
  let maxSize := (BitVec.ofNat 32 srcLen).toInt
  if maxSize ≤ 0 then 2 ^ 20 else maxSize.toNat

/-- `jpeg_bit_buffer::push`, with its assertion. -/
def push (maxSize : Nat) (s : BitBuffer) (b : Byte) :
    Except Fault (Bool × BitBuffer) :=
  if s.last ≠ 0xFF ∧ maxSize ≤ s.wrOffset then .error .bitBuffer
  else .ok (s.push b)

/-- The loop of `ParseSos` over the rest of the source. -/
def pushScan (maxSize : Nat) :
    List Byte → Nat → BitBuffer → Except Fault (Nat × BitBuffer)
  | [], idx, s => .ok (idx, s)
  | b :: rest, idx, s => do
      let pushed ← push maxSize s b
      if pushed.1 then pushScan maxSize rest (idx + 1) pushed.2
      else .ok (idx - 1, pushed.2)

/-- `ParseSos`. -/
def parseSos (src : List Byte) (d : Decoder) (idx : Nat) :
    Except Stop (Nat × Decoder × BitBuffer) := do
  require (d.mode ≠ .unsupported)
  require (idx + 2 ≤ src.length)
  let segLen ← getWord src idx
  require (2 ≤ segLen ∧ idx + segLen ≤ src.length)
  require (idx + 2 + (segLen - 2) ≤ src.length)
  let compCount ← getByte src (idx + 2)
  skipBytes src (idx + 3) (2 * compCount.toNat)
  skipBytes src (idx + 3 + 2 * compCount.toNat) 3
  let maxSize := bufferSize src.length
  let scan ←
    orFault (pushScan maxSize (src.drop (idx + segLen)) (idx + segLen) .reset)
  .ok (scan.1, { d with maxSize := maxSize }, scan.2)

/-! ## `Decode` -/

/-- The loop that the decoder is in. -/
inductive Phase where
  | markers
  | image (run : ImageRun)

/-- The decoder with the variables of `Decode`. -/
structure Machine where
  decoder : Decoder
  dst : Destination
  i : Nat
  lastB : Byte
  decodeDone : Bool
  phase : Phase

/-- A marker with a segment that is skipped. -/
def skipped (b : Byte) : Prop :=
  b = 0xDD ∨ 0xD0 ≤ b ∧ b ≤ 0xD7 ∨ 0xE0 ≤ b ∧ b ≤ 0xEF ∨ b = 0xFE

instance : DecidablePred skipped := fun b =>
  inferInstanceAs
    (Decidable (b = 0xDD ∨ 0xD0 ≤ b ∧ b ≤ 0xD7 ∨ 0xE0 ≤ b ∧ b ≤ 0xEF ∨
      b = 0xFE))

/-- An iteration of the marker loop at a byte that it has just read. -/
def atByte (src : List Byte) (m : Machine) (b : Byte) :
    Except Stop Machine := do
  let read := { m with i := m.i + 1, lastB := b }
  if m.lastB = 0xFF ∧ b = 0xD8 then .ok read
  else if m.lastB = 0xFF ∧ b = 0xC0 then
    let parsed ← parseSof0 src m.dst.capacity m.decoder (m.i + 1)
    .ok { read with i := parsed.1, decoder := parsed.2 }
  else if m.lastB = 0xFF ∧ b = 0xDB then
    let parsed ← parseDqt src m.decoder (m.i + 1)
    .ok { read with i := parsed.1, decoder := parsed.2 }
  else if m.lastB = 0xFF ∧ b = 0xC4 then
    let parsed ← parseDht src m.decoder (m.i + 1)
    .ok { read with i := parsed.1, decoder := parsed.2 }
  else if m.lastB = 0xFF ∧ b = 0xDA then
    let parsed ← parseSos src m.decoder (m.i + 1)
    .ok { read with
      i := parsed.1
      decoder := parsed.2.1
      phase := .image (imageStart parsed.2.2 m.dst) }
  else if m.lastB = 0xFF ∧ b = 0xD9 then .error (.returns m.decodeDone)
  else if m.lastB = 0xFF ∧ b = 0xC2 then .error (.returns false)
  else if m.lastB = 0xFF ∧ skipped b then
    let next ← skipSegment src (m.i + 1)
    .ok { read with i := next }
  else .ok read

/-- One iteration of the loop that the decoder is in. -/
def step (conversion : RgbConversion) (src : List Byte) (m : Machine) :
    Except Stop Machine :=
  match m.phase with
  | .markers =>
      if m.i < src.length then do
        let b ← getByte src m.i
        atByte src m b
      else .error (.returns m.decodeDone)
  | .image run => do
      let ended ← orFault (eof run.state.bits)
      if ended then
        .ok { m with
          dst := run.output.dst, decodeDone := true, phase := .markers }
      else do
        let next ← imageStep conversion m.decoder run
        .ok { m with phase := .image next }

/-- The decoder after a number of iterations, unless it has ended before. -/
def after (conversion : RgbConversion) (src : List Byte) :
    Nat → Machine → Except Stop Machine :=
  iterate (step conversion src)

/-- The decoder at the beginning of `Decode`. -/
def start (dst : Destination) : Machine where
  decoder := {
    width := 0
    height := 0
    mode := .unsupported
    dqtTable := fun _ => 0
    dqt := fun _ _ => 0
    dht := fun _ => []
    maxSize := 2 ^ 20 }
  dst := dst
  i := 0
  lastB := 0
  decodeDone := false
  phase := .markers

/-- `SoftwareDecodeJpeg` for a number of iterations. -/
def decode (conversion : RgbConversion) (src : List Byte) (dst : Destination)
    (count : Nat) : Except Stop Machine := do
  require (src ≠ [] ∧ dst.capacity ≠ 0)
  after conversion src count (start dst)

/-! ## Computations that end well -/

section Ends

variable {Result : Type}

theorem require_eq_ok {condition : Prop} [Decidable condition]
    {value : Unit} :
    require condition = .ok value ↔ condition := by
  rw [require]
  split <;> simp_all

theorem orFault_eq_ok {attempt : Except Fault Result} {result : Result} :
    orFault attempt = .ok result ↔ attempt = .ok result := by
  cases attempt <;> simp [orFault]

end Ends

/-! ## Where a parser leaves the source -/

section Parsers

variable {src : List Byte} {d after : Decoder} {idx next : Nat}

theorem skipSegment_of_ok
    (isNext : skipSegment src idx = .ok next) :
    idx + 2 ≤ next := by
  simp only [skipSegment, bind_eq_ok, require_eq_ok, Except.ok.injEq]
    at isNext
  obtain ⟨-, -, segLen, -, -, long, -, -, rfl⟩ := isNext
  omega

theorem parseSof0_of_ok
    {capacity : Nat}
    (isNext : parseSof0 src capacity d idx = .ok (next, after)) :
    idx + 2 ≤ next ∧ after.dht = d.dht ∧
      after.width * after.height * 3 ≤ capacity := by
  simp only [parseSof0, bind_eq_ok, require_eq_ok, Except.ok.injEq,
    Prod.mk.injEq] at isNext
  obtain ⟨-, -, segLen, -, -, ⟨long, -⟩, -, -, -, -, height, -, width, -, -,
    -, -, -, -, enough, -, -, rfl, rfl⟩ := isNext
  exact ⟨by omega, rfl, enough⟩

theorem parseDqt_of_ok
    (isNext : parseDqt src d idx = .ok (next, after)) :
    idx + 2 ≤ next ∧ ∃ dqt, after = { d with dqt := dqt } := by
  simp only [parseDqt, bind_eq_ok, require_eq_ok, Except.ok.injEq,
    Prod.mk.injEq] at isNext
  obtain ⟨-, -, segLen, -, -, ⟨long, -⟩, dqt, -, rfl, rfl⟩ := isNext
  exact ⟨by omega, dqt, rfl⟩

theorem parseDht_of_ok
    (isNext : parseDht src d idx = .ok (next, after)) :
    idx + 2 ≤ next ∧ ∃ data len processed,
      dhtProcess data len d.dht = .ok processed ∧
        after = { d with dht := processed.2 } := by
  simp only [parseDht, bind_eq_ok, require_eq_ok, orFault_eq_ok,
    Except.ok.injEq, Prod.mk.injEq] at isNext
  obtain ⟨-, -, segLen, -, -, ⟨long, -⟩, processed, isProcessed, rfl, rfl⟩ :=
    isNext
  exact ⟨by omega, _, _, processed, isProcessed, rfl⟩

theorem push_of_ok
    {maxSize : Nat} {s : BitBuffer} {b : Byte} {pushed : Bool × BitBuffer}
    (isPushed : push maxSize s b = .ok pushed) :
    pushed.2.wrOffset ≤ s.wrOffset + 1 ∧ pushed.2.rdOffset = s.rdOffset := by
  rw [push] at isPushed
  split at isPushed
  · cases isPushed
  · obtain rfl := Except.ok.inj isPushed
    rw [BitBuffer.push]
    split
    · exact ⟨Nat.le_succ _, rfl⟩
    split
    · exact ⟨(Nat.sub_le _ _).trans (Nat.le_succ _), rfl⟩
    · exact ⟨Nat.le_refl _, rfl⟩

/-- The scan adds a byte to the bit buffer for each of its own at most. -/
theorem pushScan_of_ok
    {maxSize : Nat} {bytes : List Byte} {s : BitBuffer}
    {scan : Nat × BitBuffer}
    (isPushed : pushScan maxSize bytes idx s = .ok scan) :
    idx ≤ scan.1 + 1 ∧ scan.2.wrOffset ≤ s.wrOffset + bytes.length ∧
      scan.2.rdOffset = s.rdOffset := by
  induction bytes generalizing idx s with
  | nil =>
      obtain rfl := Except.ok.inj isPushed
      exact ⟨Nat.le_succ _, Nat.le_refl _, rfl⟩
  | cons b rest inductionHypothesis =>
      simp only [pushScan, bind_eq_ok] at isPushed
      obtain ⟨pushed, one, goes⟩ := isPushed
      obtain ⟨written, sameRead⟩ := push_of_ok one
      rw [List.length_cons]
      cases accepted : pushed.1 with
      | true =>
          rw [if_pos accepted] at goes
          obtain ⟨further, atMost, kept⟩ := inductionHypothesis goes
          exact ⟨by omega, by omega, kept.trans sameRead⟩
      | false =>
          rw [if_neg (by simp [accepted])] at goes
          obtain rfl := Except.ok.inj goes
          exact ⟨by simp only; omega, by simp only; omega, sameRead⟩

theorem parseSos_of_ok
    {bits : BitBuffer}
    (isNext : parseSos src d idx = .ok (next, after, bits)) :
    d.mode ≠ .unsupported ∧ idx + 1 ≤ next ∧
      after = { d with maxSize := bufferSize src.length } ∧
        bits.wrOffset + idx + 2 ≤ src.length ∧ bits.rdOffset = 0 := by
  simp only [parseSos, bind_eq_ok, require_eq_ok, orFault_eq_ok,
    Except.ok.injEq, Prod.mk.injEq] at isNext
  obtain ⟨-, supported, -, -, segLen, -, -, ⟨long, inside⟩, -, -, -, -, -, -,
    -, -, scan, isPushed, rfl, rfl, rfl⟩ := isNext
  obtain ⟨further, written, sameRead⟩ := pushScan_of_ok isPushed
  rw [List.length_drop] at written
  have empty : BitBuffer.reset.wrOffset = 0 := rfl
  exact ⟨supported, by omega, rfl, by omega, sameRead⟩

theorem fillLength_of_ok
    {data : List Byte} {codeLen symbols : Nat} {s filled : Filling}
    (isLength : 0 < codeLen ∧ codeLen ≤ 16)
    (lengths : LegalLengths s.entries)
    (isFilled : fillLength data codeLen symbols s = .ok filled) :
    LegalLengths filled.entries := by
  induction symbols generalizing s with
  | zero =>
      obtain rfl := Except.ok.inj isFilled
      exact lengths
  | succ symbols inductionHypothesis =>
      simp only [fillLength, bind_eq_ok] at isFilled
      obtain ⟨dhtVal, -, goes⟩ := isFilled
      refine inductionHypothesis ?_ goes
      intro entry member
      rw [List.mem_append, List.mem_singleton] at member
      rcases member with old | rfl
      · exact lengths entry old
      · exact isLength

/-- There are counts for the code lengths up to sixteen. -/
theorem fillLengths_of_ok
    {data counts : List Byte} {codeLen : Nat} {s filled : Filling}
    (positive : 0 < codeLen)
    (few : codeLen + counts.length ≤ 17)
    (lengths : LegalLengths s.entries)
    (isFilled : fillLengths data codeLen counts s = .ok filled) :
    LegalLengths filled.entries := by
  induction counts generalizing codeLen s with
  | nil =>
      obtain rfl := Except.ok.inj isFilled
      exact lengths
  | cons count counts inductionHypothesis =>
      rw [List.length_cons] at few
      simp only [fillLengths, bind_eq_ok] at isFilled
      obtain ⟨one, isOne, goes⟩ := isFilled
      have oneLengths :=
        fillLength_of_ok ⟨positive, by omega⟩ lengths isOne
      refine inductionHypothesis (Nat.succ_pos codeLen) ?_ ?_ goes
      · omega
      · exact oneLengths

theorem symbCount_of_ok
    {data counts : List Byte} {buf count : Nat}
    (isRead : symbCount data buf count = .ok counts) :
    counts.length = count := by
  induction count generalizing buf counts with
  | zero =>
      obtain rfl := Except.ok.inj isRead
      rfl
  | succ count inductionHypothesis =>
      simp only [symbCount, bind_eq_ok] at isRead
      obtain ⟨first, -, rest, isRest, isList⟩ := isRead
      obtain rfl := Except.ok.inj isList
      rw [List.length_cons, inductionHypothesis isRest]

theorem processTables_of_ok
    {data : List Byte} {len iterations consumed : Nat}
    {tables : DhtTables} {processed : Nat × DhtTables}
    (lengths : ∀ index, LegalLengths (tables index))
    (isProcessed :
      processTables data len iterations consumed tables = .ok processed) :
    ∀ index, LegalLengths (processed.2 index) := by
  induction iterations generalizing consumed tables with
  | zero =>
      obtain rfl := Except.ok.inj isProcessed
      exact lengths
  | succ iterations inductionHypothesis =>
      rw [processTables] at isProcessed
      split at isProcessed
      · simp only [bind_eq_ok] at isProcessed
        obtain ⟨next, isNext, goes⟩ := isProcessed
        refine inductionHypothesis ?_ goes
        simp only [processTable, bind_eq_ok] at isNext
        obtain ⟨-, -, selected, -, counts, isCounts, filled, isFilled, ends⟩ :=
          isNext
        have sixteen := symbCount_of_ok isCounts
        have filledLengths :=
          fillLengths_of_ok Nat.zero_lt_one (by omega)
            (by simp [LegalLengths]) isFilled
        split at ends
        · obtain rfl := Except.ok.inj ends
          intro index
          simp only
          split
          · exact filledLengths
          · exact lengths index
        · cases ends
      · obtain rfl := Except.ok.inj isProcessed
        exact lengths

end Parsers

/-! ## What every run keeps -/

/-- What the machine promises to each iteration. -/
structure Sound (src : List Byte) (capacity : Nat) (m : Machine) : Prop where
  lengths : ∀ index, LegalLengths (m.decoder.dht index)
  enough :
    m.decoder.mode ≠ .unsupported →
      m.decoder.width * m.decoder.height * 3 ≤ capacity
  marker : m.lastB ≠ 0 → 1 ≤ m.i
  phase :
    match m.phase with
    | .markers => m.dst.capacity = capacity
    | .image run =>
        m.decoder.mode ≠ .unsupported ∧
          run.output.dst.capacity = capacity ∧
            m.decoder.maxSize = bufferSize src.length ∧
              run.state.bits.wrOffset + 4 ≤ src.length ∧
                run.state.bits.rdOffset ≤
                  8 * run.state.bits.wrOffset + 1984 * 6

/-- An iteration of the marker loop goes on behind the byte it has read. -/
structure Reads (src : List Byte) (capacity : Nat) (m next : Machine) :
    Prop where
  sound : Sound src capacity next
  further : m.i < next.i
  phase :
    match next.phase with
    | .markers => True
    | .image run => run.state.bits.rdOffset = 0

section Machines

variable {src : List Byte} {capacity : Nat} {m next : Machine}
variable {conversion : RgbConversion} {b : Byte}

theorem Sound.accepted
    (sound : Sound src capacity m)
    {run : ImageRun}
    (decoding : m.phase = .image run) :
    Accepted m.decoder capacity ∧ run.output.dst.capacity = capacity := by
  have phase := sound.phase
  rw [decoding] at phase
  exact ⟨⟨sound.lengths, phase.1, sound.enough phase.1⟩, phase.2.1⟩

/-- The marker loop goes on with another decoder. -/
theorem Sound.reads
    (sound : Sound src capacity m)
    (isMarkers : m.phase = .markers)
    {d : Decoder} {idx : Nat}
    (lengths : ∀ index, LegalLengths (d.dht index))
    (enough : d.mode ≠ .unsupported → d.width * d.height * 3 ≤ capacity)
    (further : m.i < idx) :
    Reads src capacity m { m with i := idx, lastB := b, decoder := d } := by
  have isCapacity := sound.phase
  rw [isMarkers] at isCapacity
  refine ⟨⟨lengths, enough, fun _ => by simp only; omega, ?_⟩, further, ?_⟩
  · simpa only [isMarkers] using isCapacity
  · simp only [isMarkers]

theorem atByte_of_ok
    (sound : Sound src capacity m)
    (isMarkers : m.phase = .markers)
    (isNext : atByte src m b = .ok next) :
    Reads src capacity m next := by
  have isCapacity := sound.phase
  rw [isMarkers] at isCapacity
  have keeps {idx : Nat} (further : m.i < idx) :
      Reads src capacity m { m with i := idx, lastB := b } :=
    sound.reads isMarkers sound.lengths sound.enough further
  rw [atByte] at isNext
  split at isNext
  next =>
    obtain rfl := Except.ok.inj isNext
    exact keeps (Nat.lt_succ_self _)
  split at isNext
  next =>
    obtain ⟨parsed, isParsed, goes⟩ := bind_eq_ok.mp isNext
    obtain rfl := Except.ok.inj goes
    obtain ⟨further, sameDht, enough⟩ := parseSof0_of_ok isParsed
    refine sound.reads isMarkers ?_ ?_ (by omega)
    · rw [sameDht]
      exact sound.lengths
    · rw [isCapacity] at enough
      exact fun _ => enough
  split at isNext
  next =>
    obtain ⟨parsed, isParsed, goes⟩ := bind_eq_ok.mp isNext
    obtain rfl := Except.ok.inj goes
    obtain ⟨further, dqt, isDecoder⟩ := parseDqt_of_ok isParsed
    rw [isDecoder]
    exact sound.reads isMarkers sound.lengths sound.enough (by omega)
  split at isNext
  next =>
    obtain ⟨parsed, isParsed, goes⟩ := bind_eq_ok.mp isNext
    obtain rfl := Except.ok.inj goes
    obtain ⟨further, data, len, processed, isProcessed, isDecoder⟩ :=
      parseDht_of_ok isParsed
    rw [isDecoder]
    refine sound.reads isMarkers ?_ sound.enough (by omega)
    exact processTables_of_ok sound.lengths isProcessed
  split at isNext
  next isSos =>
    obtain ⟨⟨idx, d, bits⟩, isParsed, goes⟩ := bind_eq_ok.mp isNext
    obtain rfl := Except.ok.inj goes
    obtain ⟨supported, further, isDecoder, written, unread⟩ :=
      parseSos_of_ok isParsed
    have behind : 1 ≤ m.i := by
      refine sound.marker ?_
      rw [isSos.1]
      decide
    subst isDecoder
    refine ⟨⟨sound.lengths, sound.enough, fun _ => by simp only; omega, ?_⟩,
      by simp only; omega, unread⟩
    refine ⟨supported, isCapacity, rfl, ?_, ?_⟩
    · simp only [imageStart]
      omega
    · simp only [imageStart, unread, Nat.zero_le]
  split at isNext
  next =>
    cases isNext
  split at isNext
  next =>
    cases isNext
  split at isNext
  next =>
    obtain ⟨idx, isParsed, goes⟩ := bind_eq_ok.mp isNext
    obtain rfl := Except.ok.inj goes
    have further := skipSegment_of_ok isParsed
    exact keeps (by omega)
  next =>
    obtain rfl := Except.ok.inj isNext
    exact keeps (Nat.lt_succ_self _)

/-- An iteration of the marker loop has read a byte and goes on behind it. -/
theorem step_markers
    (sound : Sound src capacity m)
    (isMarkers : m.phase = .markers)
    (isNext : step conversion src m = .ok next) :
    m.i < src.length ∧ Reads src capacity m next := by
  rw [step, isMarkers] at isNext
  simp only at isNext
  split at isNext
  next inside =>
    obtain ⟨b, -, goes⟩ := bind_eq_ok.mp isNext
    exact ⟨inside, atByte_of_ok sound isMarkers goes⟩
  next =>
    cases isNext

/-- An iteration of `DecodeImage` ends it or decodes an MCU. -/
theorem step_image
    {run : ImageRun}
    (decoding : m.phase = .image run)
    (isNext : step conversion src m = .ok next) :
    run.eof = true ∧
        next = { m with
          dst := run.output.dst, decodeDone := true, phase := .markers } ∨
      run.eof = false ∧ ∃ after,
        imageStep conversion m.decoder run = .ok after ∧
          next = { m with phase := .image after } := by
  rw [step, decoding] at isNext
  obtain ⟨ended, asked, goes⟩ := bind_eq_ok.mp isNext
  obtain ⟨-, isEof⟩ := eof_of_ok (orFault_eq_ok.mp asked)
  have same : run.eof = ended := isEof.symm
  cases ended with
  | true =>
      exact .inl ⟨same, (Except.ok.inj goes).symm⟩
  | false =>
      obtain ⟨after, stepped, isAfter⟩ := bind_eq_ok.mp goes
      exact .inr ⟨same, after, stepped, (Except.ok.inj isAfter).symm⟩

theorem unread_of_eof
    {bits : BitBuffer}
    (more : bits.eof = false) :
    bits.rdOffset < 8 * bits.wrOffset := by
  simp only [BitBuffer.eof, decide_eq_false_iff_not, Nat.not_le] at more
  omega

theorem Sound.step
    (sound : Sound src capacity m)
    (isNext : step conversion src m = .ok next) :
    Sound src capacity next := by
  cases isPhase : m.phase with
  | markers =>
      exact (step_markers sound isPhase isNext).2.sound
  | image run =>
      obtain ⟨accepted, isCapacity⟩ := sound.accepted isPhase
      have phase := sound.phase
      rw [isPhase] at phase
      rcases step_image isPhase isNext with
        ⟨-, rfl⟩ | ⟨more, after, stepped, rfl⟩
      · exact ⟨sound.lengths, sound.enough, sound.marker, isCapacity⟩
      · obtain ⟨-, -, uses, kept⟩ :=
          imageStep_of_ok accepted isCapacity stepped
        obtain ⟨used, few, advanced⟩ := uses.advanced
        have unread := unread_of_eof more
        have blocks := length_mcuComponents_le m.decoder.mode
        refine ⟨sound.lengths, sound.enough, sound.marker, phase.1, kept,
          phase.2.2.1, ?_⟩
        rw [advanced]
        refine ⟨phase.2.2.2.1, ?_⟩
        simp only [BitBuffer.advance]
        omega

theorem sound_start (dst : Destination) :
    Sound src dst.capacity (start dst) where
  lengths := by
    intro index entry member
    simp [start] at member
  enough := fun supported => absurd rfl supported
  marker := fun nonempty => absurd rfl nonempty
  phase := rfl

end Machines

/-- Every machine that `Decode` reaches is sound. -/
theorem sound_decode
    {conversion : RgbConversion} {src : List Byte} {dst : Destination}
    {count : Nat} {m : Machine}
    (isReached : decode conversion src dst count = .ok m) :
    Sound src dst.capacity m := by
  obtain ⟨-, -, goes⟩ := bind_eq_ok.mp isReached
  exact
    iterate_invariant (fun _ _ sound isNext => sound.step isNext)
      (sound_start dst) goes

end CoreJpeg.SoftwareJpegDecoder
