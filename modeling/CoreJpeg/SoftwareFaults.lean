import CoreJpeg.SoftwareDecoder

namespace CoreJpeg.SoftwareJpegDecoder

open EntropyCode Software

/-!
# Can the decoding of an image fault?

`ParseSos` checks that the mode is supported, and the frame header has been
checked against the destination.  Nothing checks the quantisation selectors or
that the image has columns.  This module shows that these two decide whether
`DecodeImage` uses anything outside its memory.
-/

section Property

/-- `DecodeImage` for a number of iterations. -/
def decodeImage (conversion : RgbConversion) (d : Decoder) :
    Nat → ImageRun → Except Stop ImageRun
  | 0, run => .ok run
  | count + 1, run => do
      let ended ← orFault (eof run.state.bits)
      if ended then .ok run
      else do
        let next ← imageStep conversion d run
        decodeImage conversion d count next

/-- The bytes of a slot of `SrcBufferPool`, which hold a loaded source. -/
def srcSlotBytes : Nat := 4096 * 4096 * 3 / 2

/-- `ParseSos` has returned true; the decoder goes on with `DecodeImage`. -/
structure EntersImage (conversion : RgbConversion) (src : List Byte)
    (dst : Destination) (m : Machine) (run : ImageRun) : Prop where
  reached :
    ∃ count before, decode conversion src dst count = .ok before ∧
      before.phase = .markers ∧ step conversion src before = .ok m
  phase : m.phase = .image run

/--
`DecodeImage` never leaves its tables, its sample buffer, the bit buffer or
the destination, and never divides by zero.
-/
def NeverFaults (conversion : RgbConversion) (m : Machine)
    (run : ImageRun) : Prop :=
  ∀ count fault,
    decodeImage conversion m.decoder count run ≠ .error (.fault fault)

/-- The image has columns and its quantisation selectors are tables. -/
structure Decodable (d : Decoder) : Prop where
  columns : d.width ≠ 0
  selects : Selects d (mcuComponents d.mode)

end Property

/-! ## An iteration -/

/-- The memory of the bit buffer has a byte for each byte of the source. -/
theorem bufferSize_eq
    {srcLen : Nat}
    (hasBytes : 0 < srcLen)
    (small : srcLen ≤ srcSlotBytes) :
    bufferSize srcLen = srcLen := by
  have bound : srcLen < 2 ^ 31 := by
    rw [srcSlotBytes] at small
    omega
  have isInt : (BitVec.ofNat 32 srcLen).toInt = srcLen := by
    have same : (BitVec.ofNat 32 srcLen).toNat = srcLen :=
      Nat.mod_eq_of_lt (by omega)
    rw [BitVec.toInt_eq_toNat_of_lt (by omega), same]
  rw [bufferSize, isInt, if_neg (by omega), Int.toNat_natCast]

section Iteration

variable {d : Decoder} {capacity : Nat} {run next : ImageRun}
variable {conversion : RgbConversion}

/-- What `DecodeImage` keeps from its first iteration on. -/
structure Decoding (d : Decoder) (capacity : Nat) (run : ImageRun) :
    Prop where
  accepted : Accepted d capacity
  isCapacity : run.output.dst.capacity = capacity
  room : run.state.bits.wrOffset + 4 ≤ d.maxSize
  small : run.state.bits.wrOffset ≤ srcSlotBytes
  near : run.state.bits.rdOffset ≤ 8 * run.state.bits.wrOffset + 1984 * 6

/-- The bits of a slot and of the blocks of an MCU can be counted. -/
theorem Decoding.eof_eq
    (decoding : Decoding d capacity run) :
    orFault (eof run.state.bits) = .ok run.eof := by
  have small := decoding.small
  have near := decoding.near
  have fits : OffsetFits run.state.bits := by
    rw [srcSlotBytes] at small
    rw [OffsetFits]
    omega
  rw [SoftwareJpegDecoder.eof_eq fits]
  rfl

theorem Decoding.step
    (decoding : Decoding d capacity run)
    (more : run.eof = false)
    (isNext : imageStep conversion d run = .ok next) :
    Decoding d capacity next := by
  obtain ⟨-, -, uses, kept⟩ :=
    imageStep_of_ok decoding.accepted decoding.isCapacity isNext
  obtain ⟨used, few, advanced⟩ := uses.advanced
  have unread := unread_of_eof more
  have blocks := length_mcuComponents_le d.mode
  have near :
      (run.state.bits.advance used).rdOffset ≤
        8 * run.state.bits.wrOffset + 1984 * 6 := by
    simp only [BitBuffer.advance]
    omega
  rw [← advanced] at near
  have written : next.state.bits.wrOffset = run.state.bits.wrOffset := by
    rw [advanced]
    rfl
  rw [← written] at near
  refine ⟨decoding.accepted, kept, ?_, ?_, near⟩
  · rw [written]
    exact decoding.room
  · rw [written]
    exact decoding.small

/-- The blocks of an MCU end before the offset overflows. -/
theorem Decoding.mcu_near
    (decoding : Decoding d capacity run)
    (more : run.eof = false) :
    run.state.bits.rdOffset + 1984 * (mcuComponents d.mode).length + 7 <
      2 ^ 31 := by
  have unread := unread_of_eof more
  have blocks := length_mcuComponents_le d.mode
  have small := decoding.small
  rw [srcSlotBytes] at small
  omega

/-- An iteration of a decodable image ends well. -/
theorem Decoding.goesOn
    (conversion : RgbConversion)
    (decoding : Decoding d capacity run)
    (more : run.eof = false)
    (decodable : Decodable d) :
    ∃ next, imageStep conversion d run = .ok next := by
  obtain ⟨blocks, after, decoded⟩ :=
    decodeBlocks_ok decoding.accepted.lengths decoding.room
      (decoding.mcu_near more) decodable.selects
  exact
    imageStep_ok conversion decoding.accepted decoding.isCapacity decodable.columns
      decoded

/-- Without a table or a column the first MCU faults. -/
theorem Decoding.faults
    (conversion : RgbConversion)
    (decoding : Decoding d capacity run)
    (more : run.eof = false)
    (undecodable : ¬ Decodable d) :
    ∃ fault, imageStep conversion d run = .error (.fault fault) := by
  by_cases selects : Selects d (mcuComponents d.mode)
  · have empty : d.width = 0 := by
      by_contra columns
      exact undecodable ⟨columns, selects⟩
    obtain ⟨blocks, after, decoded⟩ :=
      decodeBlocks_ok decoding.accepted.lengths decoding.room
        (decoding.mcu_near more) selects
    have divided :=
      outputMcu_division conversion (s := run.output)
        decoding.accepted.supported empty (mcuOutput d.mode blocks)
    refine ⟨.division, ?_⟩
    simp only [imageStep, decoded, orFault, divided, bind, Except.bind]
  · have missing :=
      decodeBlocks_fault (s := run.state) decoding.accepted.lengths
        decoding.room (decoding.mcu_near more) selects
    refine ⟨.quantiser, ?_⟩
    simp only [imageStep, missing, orFault, bind, Except.bind]

/-- The iterations of a decodable image end well. -/
theorem Decoding.runs
    (conversion : RgbConversion)
    (decoding : Decoding d capacity run)
    (decodable : Decodable d)
    (count : Nat) :
    ∃ final, decodeImage conversion d count run = .ok final := by
  induction count generalizing run with
  | zero =>
      exact ⟨run, rfl⟩
  | succ count inductionHypothesis =>
      rw [decodeImage, decoding.eof_eq]
      cases ended : run.eof with
      | true =>
          exact ⟨run, rfl⟩
      | false =>
          obtain ⟨next, isNext⟩ :=
            decoding.goesOn conversion ended decodable
          obtain ⟨final, isFinal⟩ :=
            inductionHypothesis (decoding.step ended isNext)
          refine ⟨final, ?_⟩
          simp only [bind, Except.bind, Bool.false_eq_true, if_false, isNext]
          exact isFinal

end Iteration

/-! ## Every image -/

section Image

variable {conversion : RgbConversion} {src : List Byte} {dst : Destination}
variable {m : Machine} {run : ImageRun}

/-- A machine that decodes an image has room for it. -/
theorem Sound.decoding
    {capacity : Nat}
    (sound : Sound src capacity m)
    (isPhase : m.phase = .image run)
    (small : src.length ≤ srcSlotBytes) :
    Decoding m.decoder capacity run := by
  obtain ⟨accepted, isCapacity⟩ := sound.accepted isPhase
  have phase := sound.phase
  rw [isPhase] at phase
  obtain ⟨-, -, isSize, written, near⟩ := phase
  refine ⟨accepted, isCapacity, ?_, ?_, near⟩
  · rw [isSize, bufferSize_eq (by omega) small]
    exact written
  · omega

theorem EntersImage.decoding
    (enters : EntersImage conversion src dst m run)
    (small : src.length ≤ srcSlotBytes) :
    Decoding m.decoder dst.capacity run := by
  obtain ⟨count, before, isReached, -, stepped⟩ := enters.reached
  exact
    ((sound_decode isReached).step stepped).decoding enters.phase small

/--
`DecodeImage` faults unless its scan is empty, or the image has columns and
the quantisation selectors of its components are tables.
-/
theorem decodeImage_neverFaults_iff
    (conversion : RgbConversion) (src : List Byte) (dst : Destination)
    (m : Machine) (run : ImageRun)
    (small : src.length ≤ srcSlotBytes)
    (enters : EntersImage conversion src dst m run) :
    NeverFaults conversion m run ↔
      run.eof = true ∨ Decodable m.decoder := by
  have decoding := enters.decoding small
  constructor
  · intro never
    by_contra faulty
    rw [not_or, Bool.not_eq_true] at faulty
    obtain ⟨fault, isFault⟩ :=
      decoding.faults conversion faulty.1 faulty.2
    refine never 1 fault ?_
    rw [decodeImage, decoding.eof_eq, faulty.1]
    simp only [bind, Except.bind, Bool.false_eq_true, if_false, isFault]
  · rintro (ended | decodable) count fault isFault
    · cases count with
      | zero =>
          cases isFault
      | succ count =>
          rw [decodeImage, decoding.eof_eq, ended] at isFault
          cases isFault
    · obtain ⟨final, isFinal⟩ :=
        decoding.runs conversion decodable count
      rw [isFinal] at isFault
      cases isFault

end Image

/-! ## A grey image -/

/-- A grey image of 8 by 8 pixels with a quantisation selector. -/
def greyImage (selector : Byte) : List Byte :=
  [0xFF, 0xC0, 0x00, 0x0B, 0x08, 0x00, 0x08, 0x00, 0x08, 0x01, 0x01, 0x11,
    selector, 0xFF, 0xDA, 0x00, 0x08, 0x01, 0x01, 0x00, 0x00, 0x3F, 0x00,
    0x12]

/-- Room for 8 by 8 pixels. -/
def greyBuffer : Destination where
  bytes := fun _ => 0
  capacity := 192

set_option maxRecDepth 4000 in
/-- The fourth byte that `Decode` reads starts the scan. -/
theorem greyImage_enters (selector : Byte) :
    ∃ m run,
      EntersImage unroundedConversion (greyImage selector) greyBuffer m run ∧
        m.decoder.width = 8 ∧ m.decoder.mode = .monochrome ∧
          m.decoder.dqtTable 0 = selector ∧
            run.state.bits.rdOffset = 0 ∧ run.state.bits.wrOffset = 1 :=
  ⟨_, _, ⟨⟨3, _, rfl, rfl, rfl⟩, rfl⟩, rfl, rfl, rfl, rfl, rfl⟩

/-- The first table decodes the image. -/
theorem decodeImage_neverFaults_first :
    ∃ m run,
      EntersImage unroundedConversion (greyImage 0) greyBuffer m run ∧
        NeverFaults unroundedConversion m run := by
  obtain ⟨m, run, enters, width, mode, selector, -, -⟩ := greyImage_enters 0
  have decodable : Decodable m.decoder := by
    refine ⟨by omega, ?_⟩
    simp [Selects, mode, mcuComponents, dqtIdx, selector]
  refine ⟨m, run, enters, ?_⟩
  exact
    (decodeImage_neverFaults_iff unroundedConversion (greyImage 0) greyBuffer
      m run (by decide) enters).mpr (.inr decodable)

/-- A selector that is no table is used for a lookup. -/
theorem decodeImage_faults_selector :
    ¬ ∀ conversion src dst m run, src.length ≤ srcSlotBytes →
      EntersImage conversion src dst m run →
        NeverFaults conversion m run := by
  intro claimed
  obtain ⟨m, run, enters, -, mode, selector, unread, written⟩ :=
    greyImage_enters 4
  have more : run.eof = false := by
    simp [ImageRun.eof, BitBuffer.eof, unread, written]
  have undecodable : ¬ Decodable m.decoder := by
    intro decodable
    have selects := decodable.selects
    simp [Selects, mode, mcuComponents, dqtIdx, selector] at selects
  have decoding := enters.decoding (by decide)
  obtain ⟨fault, isFault⟩ :=
    decoding.faults unroundedConversion more undecodable
  have never :=
    claimed unroundedConversion (greyImage 4) greyBuffer m run (by decide)
      enters
  refine never 1 fault ?_
  rw [decodeImage, decoding.eof_eq, more]
  simp only [bind, Except.bind, Bool.false_eq_true, if_false, isFault]

end CoreJpeg.SoftwareJpegDecoder
