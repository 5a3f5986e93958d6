import CoreJpeg.SoftwareIdct
import CoreJpeg.SoftwarePlacement

namespace CoreJpeg.SoftwareJpegDecoder

open EntropyCode Software

/-!
# Decoding an image in software

One iteration of `SoftwareJpegDecoder::DecodeImage` decodes, dequantises and
transforms the blocks of an MCU, converts them to RGB and writes the pixels.
This module transcribes it with the places that each step reads and writes: a
place outside its memory ends in a fault.
-/

/-- How the decoder ends. -/
inductive Stop where
  | returns (success : Bool)
  | fault (fault : Fault)
  deriving Repr, DecidableEq

/-- The part of a computation that may only fault. -/
def orFault {Result : Type} : Except Fault Result → Except Stop Result
  | .ok result => .ok result
  | .error fault => .error (.fault fault)

/-- The fields of `SoftwareJpegDecoder` and of its bit buffer's memory. -/
structure Decoder where
  width : Nat
  height : Nat
  mode : ImageMode
  dqtTable : Fin 3 → Byte
  dqt : DqtTables
  dht : DhtTables
  /-- `m_max_size`: the bytes of `m_buffer`. -/
  maxSize : Nat

/-! ## `jpeg_bit_buffer` -/

/-- The sum of two values of type `int` that are not negative. -/
def intSum (first second : Nat) : Except Fault Nat :=
  if first + second < 2 ^ 31 then .ok (first + second)
  else .error .intOverflow

/-- `eof`. -/
def eof (s : BitBuffer) : Except Fault Bool := do
  let rounded ← intSum s.rdOffset 7
  .ok (s.wrOffset ≤ rounded / 8)

/-- `read_word`; the last one of the five bytes has the highest index. -/
def readWord (maxSize : Nat) (s : BitBuffer) : Except Fault (BitVec 32) := do
  let ended ← eof s
  if ended then .ok 0
  else if s.rdOffset / 8 + 4 < maxSize then .ok s.readWord
  else .error .bitBuffer

/-- `advance`. -/
def advance (s : BitBuffer) (bits : Nat) : Except Fault BitBuffer := do
  let rdOffset ← intSum s.rdOffset bits
  .ok { s with rdOffset := rdOffset }

/-! ## `jpeg_mcu_block::decode` -/

/-- `block_out[samples++] = ...`. -/
def emit (s : BlockState) (coeff : Nat) (value : BitVec 16) :
    Except Fault BlockState :=
  if s.samples.length < 64 then .ok (s.emit coeff value)
  else .error .samples

/-- The loop of `decode` over `coeff`; the first argument never ends it. -/
def decodeLoop (maxSize : Nat) (dc ac : List DhtEntry) :
    Nat → Nat → BlockState → Except Fault BlockState
  | 0, _, s => .ok s
  | left + 1, coeff, s =>
      if 64 ≤ coeff then .ok s
      else do
        let inputWord ← readWord maxSize s.bits
        let found :=
          lookup (if coeff = 0 then dc else ac)
            ((inputWord >>> 16).setWidth 16)
        let codeWidth := found.1
        let code := found.2
        let coefBits := (code &&& 0xF).toNat
        let inputData : BitVec 16 :=
          (inputWord >>> (16 - codeWidth)).setWidth 16
        if coeff = 0 then
          let bits ← advance s.bits (codeWidth + coefBits)
          let number := decodeNumber (inputData >>> (16 - code.toNat)) coefBits
          let dcoeff := number + s.olddccoeff
          let next ←
            emit { s with bits := bits, olddccoeff := dcoeff } 0 dcoeff
          decodeLoop maxSize dc ac left 1 next
        else if code = 0 then
          let bits ← advance s.bits codeWidth
          .ok { s with bits := bits }
        else if code = 0xF0 then
          let bits ← advance s.bits codeWidth
          decodeLoop maxSize dc ac left (coeff + 16) { s with bits := bits }
        else
          let bits ← advance s.bits (codeWidth + coefBits)
          let place :=
            if 15 < code.toNat then coeff + (code >>> 4).toNat else coeff
          let acoeff := decodeNumber (inputData >>> (16 - coefBits)) coefBits
          let next ←
            if place < 64 then emit { s with bits := bits } place acoeff
            else .ok { s with bits := bits }
          decodeLoop maxSize dc ac left (place + 1) next

/-- The quantisation table of a component in `dqt_table_`. -/
def dqtIdx : Component → Fin 3
  | .y => 0
  | .cb => 1
  | .cr => 2

/-- `mcu_dec_.decode` for a component. -/
def decodeSamples (d : Decoder) (component : Component) (s : ImageState) :
    Except Fault (List Sample × ImageState) := do
  let result ←
    decodeLoop d.maxSize (d.dht (dcTableIdx component))
      (d.dht (acTableIdx component)) 64 0
      { bits := s.bits
        olddccoeff := s.dcCoeff component
        samples := [] }
  .ok (result.samples,
    { bits := result.bits
      dcCoeff := fun other =>
        if other = component then result.olddccoeff else s.dcCoeff other })

/-- A block of a component: decoded, dequantised and transformed. -/
def decodeBlock (d : Decoder) (component : Component) (s : ImageState) :
    Except Fault ((Nat → Int) × ImageState) := do
  let decoded ← decodeSamples d component s
  let blockOut ←
    processSamples d.dqt (d.dqtTable (dqtIdx component)).toNat decoded.1
  .ok (idctProcess blockOut, decoded.2)

/-- The blocks of a list of components, one after the other. -/
def decodeBlocks (d : Decoder) :
    List Component → ImageState → Except Fault (List (Nat → Int) × ImageState)
  | [], s => .ok ([], s)
  | component :: rest, s => do
      let first ← decodeBlock d component s
      let others ← decodeBlocks d rest first.2
      .ok (first.1 :: others.1, others.2)

/-- `y_dct_out`, `cb_dct_out` and `cr_dct_out`; the luma blocks come first. -/
def mcuOutput (mode : ImageMode) (blocks : List (Nat → Int)) : McuOutput :=
  let luma := if mode = .ycbcr420 then 4 else 1
  { yDctOut := fun i => blocks.getD (i / 64) (fun _ => 0) (i % 64)
    cbDctOut := blocks.getD luma fun _ => 0
    crDctOut := blocks.getD (luma + 1) fun _ => 0 }

/-! ## `WriteRgbPixel` and `ConvertBlock` -/

/-- `dst_bytes_[place] = ...`. -/
def storeByte (dst : Destination) (place : Nat) (value : Byte) :
    Except Stop Destination :=
  if place < dst.capacity then
    .ok { dst with
      bytes := fun other => if other = place then value else dst.bytes other }
  else .error (.fault .destination)

/-- `WriteRgbPixel`; the coordinates are never negative. -/
def writeRgbPixel (d : Decoder) (x y : Nat) (rgb : Int × Int × Int)
    (dst : Destination) : Except Stop Destination :=
  if d.width ≤ x ∨ d.height ≤ y then .ok dst
  else
    let offset := (y * d.width + x) * 3
    if dst.capacity ≤ offset + 2 then .error (.returns false)
    else do
      let dst ← storeByte dst (offset + 0) (clampByte rgb.1)
      let dst ← storeByte dst (offset + 1) (clampByte rgb.2.1)
      storeByte dst (offset + 2) (clampByte rgb.2.2)

/-- `ConvertBlock`; `block_num` is divided by `x_blocks`. -/
def convertBlock (conversion : RgbConversion) (d : Decoder) (blockNum : Nat)
    (y cb cr : Nat → Int) (dst : Destination) : Except Stop Destination :=
  if xBlocks d.width = 0 then .error (.fault .division)
  else
    let xStart := blockNum % xBlocks d.width * 8
    let yStart := blockNum / xBlocks d.width * 8
    (List.range 64).foldlM
      (fun dst i =>
        writeRgbPixel d (xStart + i % 8) (yStart + i / 8)
          (channels conversion d.mode (y i) (cb i) (cr i)) dst)
      dst

/-- One luma block of a 4:2:0 MCU with its expanded chrominance. -/
def convertQuarter (conversion : RgbConversion) (d : Decoder)
    (mcu : McuOutput) (block blockNum : Nat) (dst : Destination) :
    Except Stop Destination :=
  convertBlock conversion d blockNum
    (fun i => mcu.yDctOut (block * 64 + i))
    (fun i => mcu.cbDctOut (subIdx block i))
    (fun i => mcu.crDctOut (subIdx block i)) dst

/-- The output of one MCU. -/
def outputMcu (conversion : RgbConversion) (d : Decoder) (s : ImageOutput)
    (mcu : McuOutput) : Except Stop ImageOutput :=
  match d.mode with
  | .ycbcr420 => do
      let first := s.blockNum / 2
      let below := first + xBlocks d.width
      let dst ← convertQuarter conversion d mcu 0 (first + 0) s.dst
      let dst ← convertQuarter conversion d mcu 1 (first + 1) dst
      let dst ← convertQuarter conversion d mcu 2 (below + 0) dst
      let dst ← convertQuarter conversion d mcu 3 (below + 1) dst
      let next := nextPosition d.width s.blockNum s.loop
      .ok { dst := dst, blockNum := next.1, loop := next.2 }
  | .ycbcr444 | .monochrome => do
      let dst ←
        convertBlock conversion d s.blockNum mcu.yDctOut mcu.cbDctOut
          mcu.crDctOut s.dst
      .ok { dst := dst, blockNum := s.blockNum + 1, loop := s.loop }
  | .unsupported => .error (.returns false)

/-! ## The loop of `DecodeImage` -/

/-- The local variables of `DecodeImage`. -/
structure ImageRun where
  state : ImageState
  output : ImageOutput

/-- `bit_buffer_.eof()`. -/
def ImageRun.eof (s : ImageRun) : Bool := s.state.bits.eof

/-- An iteration of the loop. -/
def imageStep (conversion : RgbConversion) (d : Decoder) (s : ImageRun) :
    Except Stop ImageRun := do
  let blocks ← orFault (decodeBlocks d (mcuComponents d.mode) s.state)
  let output ←
    outputMcu conversion d s.output (mcuOutput d.mode blocks.1)
  .ok { state := blocks.2, output := output }

/-- The local variables at the beginning of `DecodeImage`. -/
def imageStart (bits : BitBuffer) (dst : Destination) : ImageRun where
  state := { bits := bits, dcCoeff := fun _ => 0 }
  output := { dst := dst, blockNum := 0, loop := 0 }

/-! ## Reading stays inside the bit buffer -/

theorem advance_advance (bits : BitBuffer) (first second : Nat) :
    (bits.advance first).advance second = bits.advance (first + second) := by
  simp [BitBuffer.advance, Nat.add_assoc]

/-- The offset is so far from the end of `int` that `eof` can be asked. -/
def OffsetFits (bits : BitBuffer) : Prop := bits.rdOffset + 7 < 2 ^ 31

section Offsets

variable {bits next : BitBuffer} {maxSize count : Nat}

theorem intSum_eq {first second : Nat} (small : first + second < 2 ^ 31) :
    intSum first second = .ok (first + second) :=
  if_pos small

theorem intSum_of_ok
    {first second sum : Nat}
    (isSum : intSum first second = .ok sum) :
    first + second < 2 ^ 31 ∧ sum = first + second := by
  rw [intSum] at isSum
  split at isSum
  next small => exact ⟨small, (Except.ok.inj isSum).symm⟩
  next => cases isSum

theorem OffsetFits.before
    (fits : OffsetFits (bits.advance count)) :
    OffsetFits bits :=
  Nat.lt_of_le_of_lt (Nat.add_le_add_right (Nat.le_add_right _ count) 7) fits

theorem eof_eq (fits : OffsetFits bits) : eof bits = .ok bits.eof := by
  rw [eof, intSum_eq fits]
  rfl

theorem eof_of_ok
    {ended : Bool}
    (isEof : eof bits = .ok ended) :
    OffsetFits bits ∧ ended = bits.eof := by
  rw [eof] at isEof
  cases isSum : intSum bits.rdOffset 7 with
  | error fault =>
      rw [isSum] at isEof
      cases isEof
  | ok rounded =>
      have fits : OffsetFits bits := (intSum_of_ok isSum).1
      refine ⟨fits, ?_⟩
      rw [intSum_eq fits] at isEof
      exact (Except.ok.inj isEof).symm

theorem advance_eq
    (bits : BitBuffer)
    (fits : OffsetFits (bits.advance count)) :
    advance bits count = .ok (bits.advance count) := by
  rw [advance, intSum_eq ((Nat.le_add_right _ 7).trans_lt fits)]
  rfl

theorem advance_of_ok (isNext : advance bits count = .ok next) :
    next = bits.advance count := by
  rw [advance] at isNext
  cases isSum : intSum bits.rdOffset count with
  | error fault =>
      rw [isSum] at isNext
      cases isNext
  | ok rdOffset =>
      obtain ⟨-, rfl⟩ := intSum_of_ok isSum
      rw [isSum] at isNext
      exact (Except.ok.inj isNext).symm

theorem readWord_eq
    (room : bits.wrOffset + 4 ≤ maxSize)
    (fits : OffsetFits bits) :
    readWord maxSize bits = .ok bits.readWord := by
  rw [readWord, eof_eq fits]
  cases ended : bits.eof with
  | true =>
      simp [BitBuffer.readWord, ended, bind, Except.bind]
  | false =>
      have inside : bits.rdOffset / 8 + 4 < maxSize := by
        simp only [BitBuffer.eof, decide_eq_false_iff_not, Nat.not_le] at ended
        omega
      simp [inside, bind, Except.bind]

theorem readWord_of_ok
    {word : BitVec 32}
    (isRead : readWord maxSize bits = .ok word) :
    OffsetFits bits ∧ word = bits.readWord := by
  rw [readWord] at isRead
  cases asked : eof bits with
  | error fault =>
      rw [asked] at isRead
      cases isRead
  | ok ended =>
      obtain ⟨fits, isEof⟩ := eof_of_ok asked
      rw [asked] at isRead
      refine ⟨fits, ?_⟩
      cases ended with
      | true =>
          rw [BitBuffer.readWord, if_pos isEof.symm]
          exact (Except.ok.inj isRead).symm
      | false =>
          simp only [bind, Except.bind, Bool.false_eq_true, if_false] at isRead
          split at isRead
          · exact (Except.ok.inj isRead).symm
          · cases isRead

end Offsets

section Decoding

variable {dc ac : List DhtEntry} {maxSize left coeff : Nat} {s : BlockState}

/-- The sixteen bits that a lookup compares. -/
def window (bits : BitBuffer) : BitVec 16 :=
  (bits.readWord >>> 16).setWidth 16

/-- What an iteration of `decode` does: it advances and emits one sample. -/
structure Iterates (found : Nat × Byte) (coeff : Nat) (s next : BlockState) :
    Prop where
  bits :
    ∃ extra ≤ 15, (found.2 = 0 → extra = 0) ∧
      next.bits = s.bits.advance (found.1 + extra)
  samples :
    next.samples = s.samples ∧ coeff ≠ 0 ∨
      ∃ sample, sample.coeff < 64 ∧ next.samples = s.samples ++ [sample]

/-- An iteration of `decode` ends the block or goes on behind it. -/
theorem decodeLoop_iterates
    (dc ac : List DhtEntry) (left : Nat)
    (inside : coeff < 64)
    {found : Nat × Byte}
    (isFound : lookup (if coeff = 0 then dc else ac) (window s.bits) = found) :
    ∃ next, Iterates found coeff s next ∧
      (found.2 = 0 ∧ coeff ≠ 0 ∧
          Software.decodeLoop dc ac (left + 1) coeff s = next ∨
        ∃ later, coeff < later ∧ (coeff = 0 → later = 1) ∧
          (found.2 = 0 → coeff = 0) ∧
          Software.decodeLoop dc ac (left + 1) coeff s =
            Software.decodeLoop dc ac left later next) := by
  rw [window] at isFound
  rw [Software.decodeLoop, if_neg (by omega)]
  simp only [isFound]
  have coefBits : (found.2 &&& 0xF).toNat ≤ 15 := by
    rw [BitVec.toNat_and]
    exact Nat.and_le_right
  by_cases first : coeff = 0
  · rw [if_pos first]
    refine ⟨_, ⟨⟨_, coefBits, ?_, rfl⟩, .inr ⟨_, ?_, rfl⟩⟩,
      .inr ⟨1, by omega, fun _ => rfl, fun _ => first, rfl⟩⟩
    · intro nothing
      simp [nothing]
    · exact Nat.zero_lt_succ 63
  · rw [if_neg first]
    by_cases ends : found.2 = 0
    · exact
        ⟨s.advance found.1,
          ⟨⟨0, Nat.zero_le _, fun _ => rfl, rfl⟩, .inl ⟨rfl, first⟩⟩,
          .inl ⟨ends, first, if_pos ends⟩⟩
    · rw [if_neg ends]
      by_cases zeros : found.2 = 0xF0
      · exact
          ⟨s.advance found.1,
          ⟨⟨0, Nat.zero_le _, fun _ => rfl, rfl⟩, .inl ⟨rfl, first⟩⟩,
            .inr ⟨coeff + 16, by omega, fun isZero => absurd isZero first,
              fun none => absurd none ends, if_pos zeros⟩⟩
      · rw [if_neg zeros]
        generalize isPlace : (if 15 < BitVec.toNat _ then _ else coeff) =
          place
        have grows : coeff ≤ place := by
          rw [← isPlace]
          split <;> omega
        refine ⟨_, ⟨?_, ?_⟩, .inr ⟨place + 1, by omega,
          fun isZero => absurd isZero first, fun none => absurd none ends,
          rfl⟩⟩
        · refine
            ⟨(found.2 &&& 0xF).toNat, coefBits,
              fun none => absurd none ends, ?_⟩
          split <;> rfl
        · split
          next below => exact .inr ⟨_, below, rfl⟩
          next => exact .inl ⟨rfl, first⟩

/-- A block only advances the bits. -/
theorem decodeLoop_used (dc ac : List DhtEntry) (left coeff : Nat)
    (s : BlockState) :
    ∃ used,
      (Software.decodeLoop dc ac left coeff s).bits = s.bits.advance used := by
  induction left generalizing coeff s with
  | zero =>
      exact ⟨0, rfl⟩
  | succ left inductionHypothesis =>
      by_cases done : 64 ≤ coeff
      · rw [Software.decodeLoop, if_pos done]
        exact ⟨0, rfl⟩
      obtain ⟨next, iterates, goes⟩ :=
        decodeLoop_iterates dc ac left (s := s)
          (show coeff < 64 by omega) rfl
      obtain ⟨extra, -, -, advanced⟩ := iterates.bits
      rcases goes with ⟨-, -, ended⟩ | ⟨later, -, -, -, continued⟩
      · rw [ended]
        exact ⟨_, advanced⟩
      · obtain ⟨used, further⟩ := inductionHypothesis later next
        rw [continued, further, advanced]
        exact ⟨_, advance_advance _ _ _⟩

/-- Where the offset behind a block fits, those inside do. -/
theorem decodeLoop_fits
    (fits : OffsetFits (Software.decodeLoop dc ac left coeff s).bits) :
    OffsetFits s.bits := by
  obtain ⟨used, advanced⟩ := decodeLoop_used dc ac left coeff s
  rw [advanced] at fits
  exact fits.before

/--
In the memory of the bits, and as long as the offsets fit, a block is decoded
as with unbounded offsets; it has a sample for each coefficient at most.
-/
theorem decodeLoop_eq
    (room : s.bits.wrOffset + 4 ≤ maxSize)
    (few : s.samples.length ≤ coeff)
    (fits : OffsetFits (Software.decodeLoop dc ac left coeff s).bits) :
    decodeLoop maxSize dc ac left coeff s =
      .ok (Software.decodeLoop dc ac left coeff s) := by
  induction left generalizing coeff s with
  | zero =>
      rfl
  | succ left inductionHypothesis =>
      have here := decodeLoop_fits fits
      rw [Software.decodeLoop] at fits
      rw [decodeLoop, Software.decodeLoop]
      by_cases done : 64 ≤ coeff
      · rw [if_pos done, if_pos done]
      rw [if_neg done] at fits
      rw [if_neg done, if_neg done, readWord_eq room here]
      simp only [bind, Except.bind]
      by_cases first : coeff = 0
      · subst first
        have none : s.samples.length < 64 := by
          omega
        simp only [if_true] at fits ⊢
        have between := decodeLoop_fits fits
        rw [advance_eq s.bits between]
        simp only [emit, none, if_true]
        refine inductionHypothesis room ?_ fits
        simpa [BlockState.emit] using few
      · simp only [if_neg first] at fits ⊢
        split
        next ends =>
          rw [if_pos ends] at fits
          rw [advance_eq s.bits fits]
          rfl
        next more =>
          rw [if_neg more] at fits
          split
          next zeros =>
            rw [if_pos zeros] at fits
            rw [advance_eq s.bits (decodeLoop_fits fits)]
            exact inductionHypothesis room (few.trans (Nat.le_add_right _ 16))
              fits
          next value =>
            rw [if_neg value] at fits
            generalize isPlace : (if 15 < BitVec.toNat _ then _ else coeff) =
              place at fits ⊢
            have grows : coeff ≤ place := by
              rw [← isPlace]
              split <;> omega
            by_cases inside : place < 64
            · have none : s.samples.length < 64 := by
                omega
              simp only [if_pos inside] at fits ⊢
              rw [advance_eq s.bits (decodeLoop_fits fits)]
              simp only [emit, none, if_true]
              refine inductionHypothesis room ?_ fits
              simp only [BlockState.emit, List.length_append,
                List.length_singleton]
              omega
            · simp only [if_neg inside] at fits ⊢
              rw [advance_eq s.bits (decodeLoop_fits fits)]
              exact inductionHypothesis room
                (few.trans (grows.trans (Nat.le_succ _))) fits

theorem emit_of_ok
    {value : BitVec 16} {next : BlockState}
    (isEmitted : emit s coeff value = .ok next) :
    next = s.emit coeff value := by
  rw [emit] at isEmitted
  split at isEmitted
  · exact (Except.ok.inj isEmitted).symm
  · cases isEmitted

/-- What `decode` returns when nothing faults. -/
theorem decodeLoop_of_ok
    {result : BlockState}
    (isDecoded : decodeLoop maxSize dc ac left coeff s = .ok result) :
    result = Software.decodeLoop dc ac left coeff s := by
  induction left generalizing coeff s with
  | zero =>
      exact (Except.ok.inj isDecoded).symm
  | succ left inductionHypothesis =>
      rw [decodeLoop] at isDecoded
      rw [Software.decodeLoop]
      by_cases done : 64 ≤ coeff
      · rw [if_pos done] at isDecoded ⊢
        exact (Except.ok.inj isDecoded).symm
      rw [if_neg done] at isDecoded ⊢
      cases isRead : readWord maxSize s.bits with
      | error fault =>
          simp [isRead, bind, Except.bind] at isDecoded
      | ok word =>
          obtain ⟨-, rfl⟩ := readWord_of_ok isRead
          simp only [isRead, bind, Except.bind] at isDecoded
          by_cases first : coeff = 0
          · simp only [if_pos first] at isDecoded ⊢
            split at isDecoded
            next => cases isDecoded
            next bits advanced =>
              obtain rfl := advance_of_ok advanced
              split at isDecoded
              next => cases isDecoded
              next next emitted =>
                rw [emit_of_ok emitted] at isDecoded
                exact inductionHypothesis isDecoded
          · simp only [if_neg first] at isDecoded ⊢
            split
            next ends =>
              rw [if_pos ends] at isDecoded
              split at isDecoded
              next => cases isDecoded
              next bits advanced =>
                obtain rfl := advance_of_ok advanced
                exact (Except.ok.inj isDecoded).symm
            next more =>
              rw [if_neg more] at isDecoded
              split
              next zeros =>
                rw [if_pos zeros] at isDecoded
                split at isDecoded
                next => cases isDecoded
                next bits advanced =>
                  obtain rfl := advance_of_ok advanced
                  exact inductionHypothesis isDecoded
              next value =>
                rw [if_neg value] at isDecoded
                split at isDecoded
                next => cases isDecoded
                next bits advanced =>
                  obtain rfl := advance_of_ok advanced
                  generalize (if 15 < BitVec.toNat _ then _ else coeff) =
                    place at isDecoded ⊢
                  by_cases inside : place < 64
                  · simp only [if_pos inside] at isDecoded ⊢
                    split at isDecoded
                    next => cases isDecoded
                    next next emitted =>
                      rw [emit_of_ok emitted] at isDecoded
                      exact inductionHypothesis isDecoded
                  · simp only [if_neg inside] at isDecoded ⊢
                    exact inductionHypothesis isDecoded

theorem Iterates.legal
    {found : Nat × Byte} {next : BlockState}
    (iterates : Iterates found coeff s next)
    (legal : ∀ sample ∈ s.samples, sample.coeff < 64) :
    ∀ sample ∈ next.samples, sample.coeff < 64 := by
  rcases iterates.samples with ⟨same, -⟩ | ⟨added, isLegal, more⟩
  · rw [same]
    exact legal
  · intro sample member
    rw [more, List.mem_append, List.mem_singleton] at member
    rcases member with old | rfl
    · exact legal sample old
    · exact isLegal

/-- A block only adds samples with legal indices. -/
theorem decodeLoop_keeps
    (dc ac : List DhtEntry) (left coeff : Nat)
    (legal : ∀ sample ∈ s.samples, sample.coeff < 64) :
    (∀ sample ∈ (Software.decodeLoop dc ac left coeff s).samples,
      sample.coeff < 64) ∧
    s.samples.length ≤
      (Software.decodeLoop dc ac left coeff s).samples.length := by
  induction left generalizing coeff s with
  | zero =>
      exact ⟨legal, Nat.le_refl _⟩
  | succ left inductionHypothesis =>
      by_cases done : 64 ≤ coeff
      · rw [Software.decodeLoop, if_pos done]
        exact ⟨legal, Nat.le_refl _⟩
      obtain ⟨next, iterates, goes⟩ :=
        decodeLoop_iterates dc ac left (s := s)
          (show coeff < 64 by omega) rfl
      have nextLegal := iterates.legal legal
      have grows : s.samples.length ≤ next.samples.length := by
        rcases iterates.samples with ⟨same, -⟩ | ⟨added, -, more⟩
        · rw [same]
        · rw [more]
          simp
      rcases goes with ⟨-, -, ended⟩ | ⟨later, -, -, -, continued⟩
      · rw [ended]
        exact ⟨nextLegal, grows⟩
      · obtain ⟨allLegal, longer⟩ := inductionHypothesis later nextLegal
        rw [continued]
        exact ⟨allLegal, grows.trans longer⟩

/-! ## What a block uses -/

/-- Every entry has a code word of one to sixteen bits. -/
def LegalLengths (entries : List DhtEntry) : Prop :=
  ∀ entry ∈ entries, 0 < entry.codeLen ∧ entry.codeLen ≤ 16

/-- The next bits begin with the code word of an entry. -/
def StartsCode (entries : List DhtEntry) (bits : BitBuffer) : Prop :=
  ∃ entry ∈ entries, window bits >>> (16 - entry.codeLen) = entry.code

theorem lookup_of_startsCode
    {entries : List DhtEntry} {bits : BitBuffer}
    (lengths : LegalLengths entries)
    (starts : StartsCode entries bits) :
    0 < (lookup entries (window bits)).1 := by
  rw [lookup]
  cases found : entries.find? fun entry =>
      window bits >>> (16 - entry.codeLen) == entry.code with
  | none =>
      obtain ⟨entry, member, isMatch⟩ := starts
      have nothing := List.find?_eq_none.mp found entry member
      simp [isMatch] at nothing
  | some entry =>
      exact (lengths entry (List.mem_of_find?_eq_some found)).1

theorem lookup_le
    {entries : List DhtEntry} {w : BitVec 16}
    (lengths : LegalLengths entries) :
    (lookup entries w).1 ≤ 16 := by
  rw [lookup]
  cases found : entries.find? fun entry =>
      w >>> (16 - entry.codeLen) == entry.code with
  | none => exact Nat.zero_le 16
  | some entry => exact (lengths entry (List.mem_of_find?_eq_some found)).2

/-- An iteration takes a code word and fifteen more bits at most. -/
theorem decodeLoop_near
    (dcLengths : LegalLengths dc)
    (acLengths : LegalLengths ac)
    (left coeff : Nat) (s : BlockState) :
    (Software.decodeLoop dc ac left coeff s).bits.rdOffset ≤
      s.bits.rdOffset + 31 * left := by
  induction left generalizing coeff s with
  | zero =>
      exact Nat.le_refl _
  | succ left inductionHypothesis =>
      by_cases done : 64 ≤ coeff
      · rw [Software.decodeLoop, if_pos done]
        exact Nat.le_add_right _ _
      obtain ⟨next, iterates, goes⟩ :=
        decodeLoop_iterates dc ac left (s := s)
          (show coeff < 64 by omega) rfl
      obtain ⟨extra, small, -, advanced⟩ := iterates.bits
      have width : (lookup (if coeff = 0 then dc else ac)
          (window s.bits)).1 ≤ 16 := by
        split
        · exact lookup_le dcLengths
        · exact lookup_le acLengths
      have moved : next.bits.rdOffset ≤ s.bits.rdOffset + 31 := by
        rw [advanced]
        simp only [BitBuffer.advance]
        omega
      rcases goes with ⟨-, -, ended⟩ | ⟨later, -, -, -, continued⟩
      · rw [ended]
        omega
      · have further := inductionHypothesis later next
        rw [continued]
        omega

theorem lookup_of_not_startsCode
    {entries : List DhtEntry} {bits : BitBuffer}
    (starts : ¬ StartsCode entries bits) :
    lookup entries (window bits) = (0, 0) := by
  have nothing :
      (entries.find? fun entry =>
        window bits >>> (16 - entry.codeLen) == entry.code) = none := by
    rw [List.find?_eq_none]
    intro entry member isMatch
    exact starts ⟨entry, member, by simpa using isMatch⟩
  rw [lookup, nothing]

/-- A block decodes its DC coefficient and goes on with the first AC one. -/
theorem decodeLoop_first (dc ac : List DhtEntry) (s : BlockState) :
    ∃ next,
      Iterates (lookup dc (window s.bits)) 0 s next ∧
        Software.decodeLoop dc ac 64 0 s =
          Software.decodeLoop dc ac 63 1 next := by
  obtain ⟨next, iterates, ⟨-, notFirst, -⟩ | ⟨later, -, isOne, -, goes⟩⟩ :=
    decodeLoop_iterates dc ac 63 (s := s)
      (show 0 < 64 by omega) rfl
  · exact absurd rfl notFirst
  · rw [isOne rfl] at goes
    exact ⟨next, iterates, goes⟩

/-- The DC coefficient is always a sample. -/
theorem decodeLoop_samples_ne_nil
    (fresh : s.samples = []) :
    (Software.decodeLoop dc ac 64 0 s).samples ≠ [] := by
  obtain ⟨next, iterates, goes⟩ :=
    decodeLoop_first dc ac s
  rcases iterates.samples with ⟨-, notFirst⟩ | ⟨sample, legal, more⟩
  · exact absurd rfl notFirst
  · rw [fresh, List.nil_append] at more
    have nextLegal : ∀ sample ∈ next.samples, sample.coeff < 64 := by
      rw [more]
      simpa using legal
    have grows :=
      (decodeLoop_keeps dc ac 63 1 nextLegal).2
    rw [← goes, more, List.length_singleton] at grows
    exact List.length_pos_iff.mp grows

/-- A block that finds no code word at all uses no bits. -/
theorem decodeLoop_stays
    (noDc : ¬ StartsCode dc s.bits)
    (noAc : ¬ StartsCode ac s.bits) :
    (Software.decodeLoop dc ac 64 0 s).bits = s.bits := by
  obtain ⟨next, iterates, goes⟩ :=
    decodeLoop_first dc ac s
  rw [lookup_of_not_startsCode noDc] at iterates
  obtain ⟨extra, -, none, advanced⟩ := iterates.bits
  rw [none rfl] at advanced
  have same : next.bits = s.bits := advanced
  rw [← same] at noAc
  obtain ⟨last, iterates, ⟨-, -, ended⟩ | ⟨-, -, -, isFirst, -⟩⟩ :=
    decodeLoop_iterates dc ac 62 (s := next)
      (show 1 < 64 by omega) (lookup_of_not_startsCode noAc)
  · obtain ⟨extra, -, none, advanced⟩ := iterates.bits
    rw [none rfl] at advanced
    rw [goes, ended, ← same]
    exact advanced
  · exact absurd (isFirst rfl) (by decide)

/-- A block that finds a code word uses its bits. -/
theorem decodeLoop_advances
    (dcLengths : LegalLengths dc)
    (acLengths : LegalLengths ac)
    (starts : StartsCode dc s.bits ∨ StartsCode ac s.bits) :
    s.bits.rdOffset < (Software.decodeLoop dc ac 64 0 s).bits.rdOffset := by
  obtain ⟨next, iterates, goes⟩ :=
    decodeLoop_first dc ac s
  obtain ⟨extra, -, none, advanced⟩ := iterates.bits
  by_cases startsDc : StartsCode dc s.bits
  · have uses := lookup_of_startsCode dcLengths startsDc
    obtain ⟨used, further⟩ := decodeLoop_used dc ac 63 1 next
    rw [goes, further, advanced]
    simp only [BitBuffer.advance]
    omega
  · rw [lookup_of_not_startsCode startsDc] at none advanced
    rw [none rfl] at advanced
    have same : next.bits = s.bits := advanced
    have startsAc : StartsCode ac next.bits := by
      rw [same]
      exact starts.resolve_left startsDc
    have uses := lookup_of_startsCode acLengths startsAc
    obtain ⟨last, iterates, ends⟩ :=
      decodeLoop_iterates dc ac 62 (s := next)
        (show 1 < 64 by omega) rfl
    obtain ⟨more, -, -, moved⟩ := iterates.bits
    simp only [Nat.one_ne_zero, if_false] at moved
    rw [goes, ← same]
    rcases ends with ⟨-, -, ended⟩ | ⟨later, -, -, -, continued⟩
    · rw [ended, moved]
      simp only [BitBuffer.advance]
      omega
    · obtain ⟨used, further⟩ := decodeLoop_used dc ac 62 later last
      rw [continued, further, moved]
      simp only [BitBuffer.advance]
      omega

end Decoding

/-! ## The writes -/

/-- A computation that can only return false. -/
def ofOption {Result : Type} : Option Result → Except Stop Result
  | some result => .ok result
  | none => .error (.returns false)

section Writing

variable {d : Decoder} {dst : Destination}

/-- Every byte that `WriteRgbPixel` stores is inside the destination. -/
theorem writeRgbPixel_eq (x y : Nat) (rgb : Int × Int × Int) :
    writeRgbPixel d x y rgb dst =
      ofOption (Software.writeRgbPixel d.width d.height x y rgb dst) := by
  rw [writeRgbPixel, Software.writeRgbPixel]
  by_cases outside : d.width ≤ x ∨ d.height ≤ y
  · rw [if_pos outside, if_pos outside]
    rfl
  · rw [if_neg outside, if_neg outside]
    by_cases behind : dst.capacity ≤ (y * d.width + x) * 3 + 2
    · simp only [if_pos behind, ofOption]
    · have inside (place : Nat)
          (before : place ≤ (y * d.width + x) * 3 + 2) :
          place < dst.capacity := by
        omega
      simp only [if_neg behind, storeByte,
        inside ((y * d.width + x) * 3 + 0) (by omega),
        inside ((y * d.width + x) * 3 + 1) (by omega),
        inside ((y * d.width + x) * 3 + 2) (by omega), if_true, ofOption,
        bind, Except.bind]
      rfl

theorem foldlM_ofOption
    {Accumulator Element : Type}
    (body : Accumulator → Element → Option Accumulator)
    (elements : List Element)
    (start : Accumulator) :
    elements.foldlM (fun accumulator element =>
        ofOption (body accumulator element)) start =
      ofOption (elements.foldlM body start) := by
  induction elements generalizing start with
  | nil =>
      rfl
  | cons first rest inductionHypothesis =>
      rw [List.foldlM_cons, List.foldlM_cons]
      cases body start first with
      | none => rfl
      | some next => exact inductionHypothesis next

theorem convertBlock_eq
    (conversion : RgbConversion)
    (hasColumns : xBlocks d.width ≠ 0)
    (blockNum : Nat) (y cb cr : Nat → Int) :
    convertBlock conversion d blockNum y cb cr dst =
      ofOption (Software.convertBlock conversion d.mode d.width d.height
        blockNum y cb cr dst) := by
  rw [convertBlock, if_neg hasColumns, Software.convertBlock]
  simp only [writeRgbPixel_eq]
  exact foldlM_ofOption _ _ _

/-- A block of an image with columns is converted. -/
theorem convertBlock_ok
    (conversion : RgbConversion)
    (hasColumns : xBlocks d.width ≠ 0)
    (enough : d.width * d.height * 3 ≤ dst.capacity)
    (blockNum : Nat) (y cb cr : Nat → Int) :
    ∃ next, convertBlock conversion d blockNum y cb cr dst = .ok next ∧
      next.capacity = dst.capacity := by
  obtain ⟨next, converted, kept, -⟩ :=
    convertBlock_pixel conversion d.mode enough blockNum y cb cr
  refine ⟨next, ?_, kept⟩
  rw [convertBlock_eq conversion hasColumns, converted]
  rfl

theorem xBlocks_eq_zero {width : Nat} : xBlocks width = 0 ↔ width = 0 := by
  rw [xBlocks]
  split <;> omega

/-- An MCU of an image with columns is written. -/
theorem outputMcu_ok
    (conversion : RgbConversion)
    {s : ImageOutput}
    (supported : d.mode ≠ .unsupported)
    (hasWidth : d.width ≠ 0)
    (enough : d.width * d.height * 3 ≤ s.dst.capacity)
    (mcu : McuOutput) :
    ∃ next, outputMcu conversion d s mcu = .ok next ∧
      next.dst.capacity = s.dst.capacity := by
  have blocks : xBlocks d.width ≠ 0 := by
    simpa [xBlocks_eq_zero] using hasWidth
  have converts {dst : Destination}
      (same : dst.capacity = s.dst.capacity) :=
    convertBlock_ok conversion blocks
      (show d.width * d.height * 3 ≤ dst.capacity by rw [same]; exact enough)
  rw [outputMcu]
  cases isMode : d.mode with
  | unsupported =>
      exact absurd isMode supported
  | monochrome =>
      obtain ⟨next, converted, kept⟩ :=
        converts rfl s.blockNum mcu.yDctOut mcu.cbDctOut mcu.crDctOut
      simp only [converted, bind, Except.bind]
      exact ⟨_, rfl, kept⟩
  | ycbcr444 =>
      obtain ⟨next, converted, kept⟩ :=
        converts rfl s.blockNum mcu.yDctOut mcu.cbDctOut mcu.crDctOut
      simp only [converted, bind, Except.bind]
      exact ⟨_, rfl, kept⟩
  | ycbcr420 =>
      simp only [convertQuarter]
      obtain ⟨first, wroteFirst, keptFirst⟩ :=
        converts rfl (s.blockNum / 2 + 0)
          (fun i => mcu.yDctOut (0 * 64 + i))
          (fun i => mcu.cbDctOut (subIdx 0 i))
          (fun i => mcu.crDctOut (subIdx 0 i))
      obtain ⟨second, wroteSecond, keptSecond⟩ :=
        converts keptFirst (s.blockNum / 2 + 1)
          (fun i => mcu.yDctOut (1 * 64 + i))
          (fun i => mcu.cbDctOut (subIdx 1 i))
          (fun i => mcu.crDctOut (subIdx 1 i))
      obtain ⟨third, wroteThird, keptThird⟩ :=
        converts (keptSecond.trans keptFirst)
          (s.blockNum / 2 + xBlocks d.width + 0)
          (fun i => mcu.yDctOut (2 * 64 + i))
          (fun i => mcu.cbDctOut (subIdx 2 i))
          (fun i => mcu.crDctOut (subIdx 2 i))
      obtain ⟨fourth, wroteFourth, keptFourth⟩ :=
        converts (keptThird.trans (keptSecond.trans keptFirst))
          (s.blockNum / 2 + xBlocks d.width + 1)
          (fun i => mcu.yDctOut (3 * 64 + i))
          (fun i => mcu.cbDctOut (subIdx 3 i))
          (fun i => mcu.crDctOut (subIdx 3 i))
      simp only [wroteFirst, wroteSecond, wroteThird, wroteFourth, bind,
        Except.bind]
      exact ⟨_, rfl,
        keptFourth.trans (keptThird.trans (keptSecond.trans keptFirst))⟩

/-- Without columns the first block is divided by zero. -/
theorem outputMcu_division
    (conversion : RgbConversion)
    {s : ImageOutput}
    (supported : d.mode ≠ .unsupported)
    (empty : d.width = 0)
    (mcu : McuOutput) :
    outputMcu conversion d s mcu = .error (.fault .division) := by
  have blocks : xBlocks d.width = 0 := xBlocks_eq_zero.mpr empty
  rw [outputMcu]
  cases isMode : d.mode with
  | unsupported =>
      exact absurd isMode supported
  | monochrome | ycbcr444 | ycbcr420 =>
      simp [convertQuarter, convertBlock, blocks, bind, Except.bind]

end Writing

/-! ## An MCU -/

/-- The quantisation tables of the components of an MCU exist. -/
def Selects (d : Decoder) (components : List Component) : Prop :=
  ∀ component ∈ components, (d.dqtTable (dqtIdx component)).toNat < 4

/-- The next bits begin with a code word of a component. -/
def StartsBlock (d : Decoder) (bits : BitBuffer) (component : Component) :
    Prop :=
  StartsCode (d.dht (dcTableIdx component)) bits ∨
    StartsCode (d.dht (acTableIdx component)) bits

section Mcu

variable {d : Decoder} {component : Component} {components : List Component}

/-- Samples with legal indices are dequantised when their table exists. -/
theorem processSamples_ok
    (tables : DqtTables) {quantTable : Nat}
    (tableExists : quantTable < 4)
    {samples : List Sample}
    (legal : ∀ sample ∈ samples, sample.coeff < 64) :
    ∃ blockOut, processSamples tables quantTable samples = .ok blockOut := by
  rw [processSamples]
  generalize (fun _ => 0 : Nat → Int) = blockOut
  induction samples generalizing blockOut with
  | nil =>
      exact ⟨blockOut, rfl⟩
  | cons first rest inductionHypothesis =>
      have inside := legal first List.mem_cons_self
      obtain ⟨next, processed⟩ :
          ∃ next,
            processSample tables quantTable blockOut first = .ok next := by
        rw [processSample, dqtLookup, if_pos ⟨tableExists, inside⟩]
        exact ⟨_, rfl⟩
      rw [List.foldlM_cons, processed]
      exact inductionHypothesis
        (fun sample member => legal sample (List.mem_cons_of_mem _ member))
        next

/-- The first sample faults when its quantisation table does not exist. -/
theorem processSamples_fault
    (tables : DqtTables) {quantTable : Nat}
    (missing : ¬ quantTable < 4)
    {samples : List Sample}
    (hasSamples : samples ≠ []) :
    processSamples tables quantTable samples = .error .quantiser := by
  cases samples with
  | nil =>
      exact absurd rfl hasSamples
  | cons first rest =>
      rw [processSamples, List.foldlM_cons, processSample, dqtLookup,
        if_neg fun both => missing both.1]
      rfl

/-- What some blocks do to the bits: each takes 64 times 31 at most. -/
structure Uses (starts : Prop) (blocks : Nat) (bits after : BitBuffer) :
    Prop where
  advanced : ∃ used ≤ 1984 * blocks, after = bits.advance used
  some : starts → bits.rdOffset < after.rdOffset
  none : ¬ starts → after = bits

/-- What two parts of an MCU do to the bits, one after the other. -/
theorem Uses.cons
    {starts : BitBuffer → Component → Prop} {bits between after : BitBuffer}
    {blocks : Nat}
    (first : Uses (starts bits component) 1 bits between)
    (second :
      Uses (∃ other ∈ components, starts between other) blocks between
        after) :
    Uses (∃ other ∈ component :: components, starts bits other) (blocks + 1)
      bits after := by
  obtain ⟨used, few, advanced⟩ := first.advanced
  obtain ⟨more, fewMore, later⟩ := second.advanced
  refine ⟨⟨used + more, by omega, ?_⟩, ?_, ?_⟩
  · rw [later, advanced, advance_advance]
  · rintro ⟨other, member, here⟩
    have atLeast : between.rdOffset ≤ after.rdOffset := by
      rw [later]
      exact Nat.le_add_right _ _
    by_cases atFirst : starts bits component
    · exact (first.some atFirst).trans_le atLeast
    · have same := first.none atFirst
      rcases List.mem_cons.mp member with rfl | inRest
      · exact absurd here atFirst
      · rw [same] at second
        exact second.some ⟨other, inRest, here⟩
  · intro nothing
    have notFirst : ¬ starts bits component := fun here =>
      nothing ⟨component, List.mem_cons_self, here⟩
    have same := first.none notFirst
    rw [same] at second
    refine second.none ?_
    rintro ⟨other, member, here⟩
    exact nothing ⟨other, List.mem_cons_of_mem _ member, here⟩

/-- What the samples of a block are, and what they use. -/
theorem decodeSamples_of_ok
    {s next : ImageState} {samples : List Sample}
    (lengths : ∀ index, LegalLengths (d.dht index))
    (isDecoded : decodeSamples d component s = .ok (samples, next)) :
    samples ≠ [] ∧ (∀ sample ∈ samples, sample.coeff < 64) ∧
      Uses (StartsBlock d s.bits component) 1 s.bits next.bits := by
  rw [decodeSamples] at isDecoded
  generalize isBlock :
    ({ bits := s.bits, olddccoeff := s.dcCoeff component, samples := [] } :
      BlockState) = block at isDecoded
  have bits : block.bits = s.bits := by
    rw [← isBlock]
  have fresh : block.samples = [] := by
    rw [← isBlock]
  have legal : ∀ sample ∈ block.samples, sample.coeff < 64 := by
    simp [fresh]
  cases looped :
      decodeLoop d.maxSize (d.dht (dcTableIdx component))
        (d.dht (acTableIdx component)) 64 0 block with
  | error fault =>
      simp [looped, bind, Except.bind] at isDecoded
  | ok result =>
      simp only [looped, bind, Except.bind, Except.ok.injEq,
        Prod.mk.injEq] at isDecoded
      obtain ⟨rfl, rfl⟩ := isDecoded
      obtain rfl := decodeLoop_of_ok looped
      obtain ⟨allLegal, -⟩ :=
        decodeLoop_keeps (d.dht (dcTableIdx component))
          (d.dht (acTableIdx component)) 64 0 legal
      obtain ⟨used, advanced⟩ :=
        decodeLoop_used (d.dht (dcTableIdx component))
          (d.dht (acTableIdx component)) 64 0 block
      have near :=
        decodeLoop_near (lengths (dcTableIdx component))
          (lengths (acTableIdx component)) 64 0 block
      rw [advanced] at near
      have few : used ≤ 1984 * 1 := Nat.le_of_add_le_add_left near
      refine ⟨decodeLoop_samples_ne_nil fresh, allLegal, ?_⟩
      rw [← bits]
      refine ⟨⟨used, few, advanced⟩, ?_, ?_⟩
      · intro starts
        exact decodeLoop_advances (lengths _) (lengths _) starts
      · intro nothing
        rw [StartsBlock, not_or] at nothing
        exact decodeLoop_stays nothing.1 nothing.2

/--
The samples of a block are decoded inside the memory of the bits, far from the
end of `int`.
-/
theorem decodeSamples_ok
    (component : Component)
    {s : ImageState}
    (lengths : ∀ index, LegalLengths (d.dht index))
    (room : s.bits.wrOffset + 4 ≤ d.maxSize)
    (near : s.bits.rdOffset + 1984 + 7 < 2 ^ 31) :
    ∃ samples next, decodeSamples d component s = .ok (samples, next) := by
  generalize isBlock :
    ({ bits := s.bits, olddccoeff := s.dcCoeff component, samples := [] } :
      BlockState) = block
  have bits : block.bits = s.bits := by
    rw [← isBlock]
  have fresh : block.samples.length ≤ 0 := by
    rw [← isBlock]
    exact Nat.le_refl 0
  have moved :=
    decodeLoop_near (lengths (dcTableIdx component))
      (lengths (acTableIdx component)) 64 0 block
  rw [← bits] at room near
  have fits : OffsetFits (Software.decodeLoop (d.dht (dcTableIdx component))
      (d.dht (acTableIdx component)) 64 0 block).bits := by
    rw [OffsetFits]
    omega
  rw [decodeSamples, isBlock, decodeLoop_eq room fresh fits]
  exact ⟨_, _, rfl⟩

/-- A block ends well when its samples do and its table exists. -/
theorem decodeBlock_ok
    {s next : ImageState} {samples : List Sample}
    (lengths : ∀ index, LegalLengths (d.dht index))
    (isDecoded : decodeSamples d component s = .ok (samples, next))
    (tableExists : (d.dqtTable (dqtIdx component)).toNat < 4) :
    ∃ block, decodeBlock d component s = .ok (block, next) := by
  obtain ⟨-, legal, -⟩ := decodeSamples_of_ok lengths isDecoded
  obtain ⟨blockOut, processed⟩ :=
    processSamples_ok d.dqt tableExists legal
  refine ⟨idctProcess blockOut, ?_⟩
  rw [decodeBlock]
  simp only [isDecoded, processed, bind, Except.bind]

theorem decodeBlock_fault
    {s next : ImageState} {samples : List Sample}
    (lengths : ∀ index, LegalLengths (d.dht index))
    (isDecoded : decodeSamples d component s = .ok (samples, next))
    (missing : ¬ (d.dqtTable (dqtIdx component)).toNat < 4) :
    decodeBlock d component s = .error .quantiser := by
  obtain ⟨hasSamples, -, -⟩ := decodeSamples_of_ok lengths isDecoded
  have processed := processSamples_fault d.dqt missing hasSamples
  rw [decodeBlock]
  simp only [isDecoded, processed, bind, Except.bind]

/-- A block that ends well has a quantisation table. -/
theorem decodeBlock_of_ok
    {s next : ImageState} {block : Nat → Int}
    (lengths : ∀ index, LegalLengths (d.dht index))
    (isDecoded : decodeBlock d component s = .ok (block, next)) :
    (d.dqtTable (dqtIdx component)).toNat < 4 ∧
      ∃ samples, decodeSamples d component s = .ok (samples, next) := by
  cases decoded : decodeSamples d component s with
  | error fault =>
      simp [decodeBlock, decoded, bind, Except.bind] at isDecoded
  | ok result =>
      obtain ⟨samples, after⟩ := result
      by_cases tableExists : (d.dqtTable (dqtIdx component)).toNat < 4
      · obtain ⟨other, isOther⟩ := decodeBlock_ok lengths decoded tableExists
        rw [isOther] at isDecoded
        obtain ⟨-, rfl⟩ := Prod.mk.inj (Except.ok.inj isDecoded)
        exact ⟨tableExists, samples, rfl⟩
      · rw [decodeBlock_fault lengths decoded tableExists] at isDecoded
        cases isDecoded

/-- The blocks of an MCU use bits when one of them finds a code word. -/
theorem decodeBlocks_of_ok
    {s final : ImageState} {blocks : List (Nat → Int)}
    (lengths : ∀ index, LegalLengths (d.dht index))
    (isDecoded : decodeBlocks d components s = .ok (blocks, final)) :
    Selects d components ∧
      Uses (∃ component ∈ components, StartsBlock d s.bits component)
        components.length s.bits final.bits := by
  induction components generalizing s blocks with
  | nil =>
      obtain ⟨-, rfl⟩ := Prod.mk.inj (Except.ok.inj isDecoded)
      refine ⟨by simp [Selects], ⟨0, Nat.zero_le _, rfl⟩, ?_, fun _ => rfl⟩
      rintro ⟨component, member, -⟩
      simp at member
  | cons component rest inductionHypothesis =>
      cases decoded : decodeBlock d component s with
      | error fault =>
          simp [decodeBlocks, decoded, bind, Except.bind] at isDecoded
      | ok first =>
          obtain ⟨block, next⟩ := first
          cases others : decodeBlocks d rest next with
          | error fault =>
              simp [decodeBlocks, decoded, others, bind, Except.bind]
                at isDecoded
          | ok later =>
              simp only [decodeBlocks, decoded, others, bind, Except.bind,
                Except.ok.injEq, Prod.mk.injEq] at isDecoded
              obtain ⟨-, rfl⟩ := isDecoded
              obtain ⟨tableExists, samples, sampled⟩ :=
                decodeBlock_of_ok lengths decoded
              obtain ⟨-, -, uses⟩ := decodeSamples_of_ok lengths sampled
              obtain ⟨selects, further⟩ := inductionHypothesis others
              exact
                ⟨List.forall_mem_cons.mpr ⟨tableExists, selects⟩,
                  uses.cons further⟩

/-- The blocks of an MCU are decoded inside the memory of the bits. -/
theorem decodeBlocks_ok
    {s : ImageState}
    (lengths : ∀ index, LegalLengths (d.dht index))
    (room : s.bits.wrOffset + 4 ≤ d.maxSize)
    (near : s.bits.rdOffset + 1984 * components.length + 7 < 2 ^ 31)
    (selects : Selects d components) :
    ∃ blocks next, decodeBlocks d components s = .ok (blocks, next) := by
  induction components generalizing s with
  | nil =>
      exact ⟨[], s, rfl⟩
  | cons component rest inductionHypothesis =>
      rw [List.length_cons, Nat.mul_succ, ← Nat.add_assoc] at near
      have nearHere : s.bits.rdOffset + 1984 + 7 < 2 ^ 31 := by
        omega
      obtain ⟨samples, next, sampled⟩ :=
        decodeSamples_ok component lengths room nearHere
      obtain ⟨-, -, uses⟩ := decodeSamples_of_ok lengths sampled
      obtain ⟨used, few, advanced⟩ := uses.advanced
      have nearNext :
          next.bits.rdOffset + 1984 * rest.length + 7 < 2 ^ 31 := by
        rw [advanced]
        simp only [BitBuffer.advance]
        omega
      have roomNext : next.bits.wrOffset + 4 ≤ d.maxSize := by
        rw [advanced]
        exact room
      obtain ⟨block, decoded⟩ :=
        decodeBlock_ok lengths sampled (selects component List.mem_cons_self)
      obtain ⟨blocks, final, others⟩ :=
        inductionHypothesis roomNext nearNext fun other member =>
          selects other (List.mem_cons_of_mem _ member)
      refine ⟨block :: blocks, final, ?_⟩
      simp only [decodeBlocks, decoded, others, bind, Except.bind]

/-- A block whose quantisation table does not exist faults. -/
theorem decodeBlocks_fault
    {s : ImageState}
    (lengths : ∀ index, LegalLengths (d.dht index))
    (room : s.bits.wrOffset + 4 ≤ d.maxSize)
    (near : s.bits.rdOffset + 1984 * components.length + 7 < 2 ^ 31)
    (missing : ¬ Selects d components) :
    decodeBlocks d components s = .error .quantiser := by
  induction components generalizing s with
  | nil =>
      exact absurd (by simp [Selects]) missing
  | cons component rest inductionHypothesis =>
      rw [List.length_cons, Nat.mul_succ, ← Nat.add_assoc] at near
      have nearHere : s.bits.rdOffset + 1984 + 7 < 2 ^ 31 := by
        omega
      obtain ⟨samples, next, sampled⟩ :=
        decodeSamples_ok component lengths room nearHere
      by_cases tableExists : (d.dqtTable (dqtIdx component)).toNat < 4
      · obtain ⟨-, -, uses⟩ := decodeSamples_of_ok lengths sampled
        obtain ⟨used, few, advanced⟩ := uses.advanced
        have nearNext :
            next.bits.rdOffset + 1984 * rest.length + 7 < 2 ^ 31 := by
          rw [advanced]
          simp only [BitBuffer.advance]
          omega
        have roomNext : next.bits.wrOffset + 4 ≤ d.maxSize := by
          rw [advanced]
          exact room
        obtain ⟨block, decoded⟩ := decodeBlock_ok lengths sampled tableExists
        have others := inductionHypothesis roomNext nearNext fun selects =>
          missing (List.forall_mem_cons.mpr ⟨tableExists, selects⟩)
        simp only [decodeBlocks, decoded, others, bind, Except.bind]
      · have faults := decodeBlock_fault lengths sampled tableExists
        simp only [decodeBlocks, faults, bind, Except.bind]

end Mcu

/-! ## An iteration of `DecodeImage` -/

/-- The next bits begin with a code word of the MCU. -/
def StartsMcu (d : Decoder) (bits : BitBuffer) : Prop :=
  ∃ component ∈ mcuComponents d.mode, StartsBlock d bits component

/-- What the accepted headers promise to `DecodeImage`. -/
structure Accepted (d : Decoder) (capacity : Nat) : Prop where
  lengths : ∀ index, LegalLengths (d.dht index)
  supported : d.mode ≠ .unsupported
  enough : d.width * d.height * 3 ≤ capacity

section Iteration

variable {d : Decoder} {capacity : Nat} {s next : ImageRun}
variable {conversion : RgbConversion}

theorem length_mcuComponents_le (mode : ImageMode) :
    (mcuComponents mode).length ≤ 6 := by
  cases mode <;> decide

theorem imageStep_ok
    (conversion : RgbConversion)
    (accepted : Accepted d capacity)
    (isCapacity : s.output.dst.capacity = capacity)
    (columns : d.width ≠ 0)
    {blocks : List (Nat → Int) × ImageState}
    (decoded :
      decodeBlocks d (mcuComponents d.mode) s.state = .ok blocks) :
    ∃ next, imageStep conversion d s = .ok next := by
  obtain ⟨output, written, -⟩ :=
    outputMcu_ok conversion (s := s.output) accepted.supported columns
      (by rw [isCapacity]; exact accepted.enough)
      (mcuOutput d.mode blocks.1)
  refine ⟨{ state := blocks.2, output := output }, ?_⟩
  simp only [imageStep, decoded, orFault, written, bind, Except.bind]

/-- An iteration that ends well uses the bits of the code words it finds. -/
theorem imageStep_of_ok
    (accepted : Accepted d capacity)
    (isCapacity : s.output.dst.capacity = capacity)
    (isNext : imageStep conversion d s = .ok next) :
    d.width ≠ 0 ∧ Selects d (mcuComponents d.mode) ∧
      Uses (StartsMcu d s.state.bits) (mcuComponents d.mode).length
        s.state.bits next.state.bits ∧
      next.output.dst.capacity = capacity := by
  cases decoded : decodeBlocks d (mcuComponents d.mode) s.state with
  | error fault =>
      simp [imageStep, decoded, orFault, bind, Except.bind] at isNext
  | ok result =>
      obtain ⟨blocks, after⟩ := result
      obtain ⟨selects, uses⟩ := decodeBlocks_of_ok accepted.lengths decoded
      have columns : d.width ≠ 0 := by
        intro empty
        have divided :=
          outputMcu_division conversion (s := s.output) accepted.supported
            empty (mcuOutput d.mode blocks)
        simp [imageStep, decoded, orFault, divided, bind, Except.bind]
          at isNext
      obtain ⟨output, written, kept⟩ :=
        outputMcu_ok conversion (s := s.output) accepted.supported columns
          (by rw [isCapacity]; exact accepted.enough)
          (mcuOutput d.mode blocks)
      simp only [imageStep, decoded, orFault, written, bind, Except.bind,
        Except.ok.injEq] at isNext
      rw [← isNext]
      exact ⟨columns, selects, uses, kept.trans isCapacity⟩

end Iteration

end CoreJpeg.SoftwareJpegDecoder
