import CoreJpeg.McuDecode
import CoreJpeg.SoftwareImage
import CoreJpeg.SoftwareRead

namespace CoreJpeg.Software

open EntropyCode BitString

/-!
# Decoding a block in software

A word of the bit buffer serves a code and the number behind it at every
alignment, because a code has sixteen bits at most and a number fifteen.  Each
iteration of `decode` therefore takes one coded symbol off the bits, and by
induction over the symbols of a block the loop returns what was coded.
-/

/-! ## One word -/

section Word

variable {bytes : List Byte} {s : BitBuffer}

/-- `decode_number` extends the magnitude bits of a category. -/
theorem decodeNumber_extend
    {size : Nat}
    (sizeSmall : size ≤ 15)
    {raw : BitVec 16}
    (fits : raw.toNat < 2 ^ size) :
    decodeNumber raw size = BitVec.ofInt 16 (extend size raw.toNat) := by
  rw [← McuProc.decodeNumber_eq sizeSmall fits]
  have sizeNat : (BitVec.ofNat 5 size).toNat = size := by
    rw [BitVec.toNat_ofNat]
    omega
  rcases Nat.eq_zero_or_pos size with rfl | positive
  · simp [decodeNumber, McuProc.decodeNumber]
  have lowered : (BitVec.ofNat 5 size - 1).toNat = size - 1 := by
    bv_omega
  have someBits : (BitVec.ofNat 5 size != 0) = (size != 0) := by
    rw [Bool.eq_iff_iff, bne_iff_ne, bne_iff_ne]
    bv_omega
  rw [decodeNumber, McuProc.decodeNumber, BitVec.shiftLeft_eq',
    BitVec.shiftLeft_eq', lowered, sizeNat, someBits]

/-- With eight bits left the buffer is not exhausted. -/
theorem notEof_of_more
    (loaded : Loaded bytes s)
    {taken rest : List Bool}
    (more : 8 ≤ rest.length)
    (starts : (streamOf bytes).drop s.rdOffset = taken ++ rest) :
    s.eof = false := by
  have lengths := congrArg List.length starts
  simp only [List.length_drop, length_streamOf, List.length_append] at lengths
  rw [Bool.eq_false_iff]
  intro ended
  have few := (eof_iff loaded).mp ended
  omega

/-- A word that starts with a coded symbol shows it and what follows. -/
theorem read_symbol
    (loaded : Loaded bytes s)
    (notEof : s.eof = false)
    {table : Table}
    {word field rest : List Bool}
    {symbol : BitVec 8}
    (codes : table.Codes word symbol)
    (short : field.length ≤ 15)
    (starts : (streamOf bytes).drop s.rdOffset = word ++ (field ++ rest)) :
    lookup (dhtEntries table) ((s.readWord >>> 16).setWidth 16) =
        (word.length, symbol) ∧
      field <+:
        bitsOf ((s.readWord >>> (16 - word.length)).setWidth 16 :
          BitVec 16) := by
  have widths : 1 ≤ word.length ∧ word.length ≤ 16 :=
    table.widths _ codes
  have shown : word ++ field <+: bitsOf s.readWord := by
    apply prefix_readWord loaded notEof
    · rw [List.length_append]
      omega
    · rw [starts, ← List.append_assoc]
      exact List.prefix_append _ rest
  constructor
  · have upper := bitsOf_field s.readWord (by decide : 0 + 16 ≤ 32)
    have starts16 : word <+:
        bitsOf ((s.readWord >>> 16).setWidth 16 : BitVec 16) := by
      rw [upper, List.drop_zero, List.prefix_take_iff]
      exact ⟨(List.prefix_append word field).trans shown, widths.2⟩
    rw [lookup_dhtEntries, PrefixCode.lookup_of_codes codes starts16]
  · have lower := bitsOf_field s.readWord
      (show word.length + 16 ≤ 32 by omega)
    have amount : 32 - word.length - 16 = 16 - word.length := by omega
    rw [amount] at lower
    rw [lower, List.prefix_take_iff]
    refine ⟨?_, by omega⟩
    have behind := shown.drop word.length
    rwa [List.drop_left] at behind

/-- The number behind a code is the coded one. -/
theorem decodeNumber_magnitude
    {number : Int} {inputData : BitVec 16}
    (small : category number ≤ 15)
    (behind : magnitudeBits number <+: bitsOf inputData) :
    decodeNumber (inputData >>> (16 - category number)) (category number) =
      BitVec.ofInt 16 number := by
  have spelled := ofBits_take inputData (category number) (by omega)
  have field := List.prefix_iff_eq_take.mp behind
  rw [length_magnitudeBits] at field
  rw [← field, ofBits_magnitudeBits] at spelled
  have raw : (inputData >>> (16 - category number)).toNat =
      magnitude number := by
    rw [BitVec.toNat_ushiftRight, spelled]
  rw [decodeNumber_extend small (by rw [raw]; exact magnitude_lt number), raw,
    extend_magnitude]

end Word

/-! ## One symbol -/

section Symbols

theorem runSize_toNat
    {run size : Nat}
    (runSmall : run ≤ 15)
    (sizeSmall : size ≤ 15) :
    (runSize run size).toNat = 16 * run + size := by
  rw [runSize, BitVec.toNat_ofNat]
  omega

/-- The low digit of a symbol is the size of its number. -/
theorem coefBits_runSize
    {run size : Nat}
    (runSmall : run ≤ 15)
    (sizeSmall : size ≤ 15) :
    (runSize run size &&& 0xF).toNat = size := by
  have mask : (0xF : BitVec 8).toNat = 2 ^ 4 - 1 := rfl
  rw [BitVec.toNat_and, runSize_toNat runSmall sizeSmall, mask,
    Nat.and_two_pow_sub_one_eq_mod]
  omega

/-- What a block state is after some bits gave some samples. -/
def BlockState.after (s : BlockState) (count : Nat) (samples : List Sample) :
    BlockState :=
  { s with
    bits := s.bits.advance count
    samples := s.samples ++ samples }

/-- The samples of AC symbols from an index on. -/
def acSamples : Nat → List AcSymbol → List Sample
  | _, [] => []
  | position, .zeros :: rest => acSamples (position + 16) rest
  | position, .value run number :: rest =>
      ⟨position + run, BitVec.ofInt 16 number⟩ ::
        acSamples (position + run + 1) rest

/-- The samples of AC symbols are in the order of their indices. -/
theorem acSamples_ordered (position : Nat) (symbols : List AcSymbol) :
    (∀ sample ∈ acSamples position symbols, position ≤ sample.coeff) ∧
      ((acSamples position symbols).map Sample.coeff).Pairwise (· < ·) := by
  induction symbols generalizing position with
  | nil =>
      simp [acSamples]
  | cons symbol rest inductionHypothesis =>
      cases symbol with
      | zeros =>
          obtain ⟨above, ordered⟩ := inductionHypothesis (position + 16)
          refine ⟨?_, ordered⟩
          intro sample member
          have later := above sample member
          omega
      | value run number =>
          obtain ⟨above, ordered⟩ := inductionHypothesis (position + run + 1)
          refine ⟨?_, ?_⟩
          · intro sample member
            rcases List.mem_cons.mp member with rfl | later
            · exact Nat.le_add_right position run
            · have beyond := above sample later
              omega
          · rw [acSamples, List.map_cons, List.pairwise_cons]
            refine ⟨?_, ordered⟩
            intro index member
            obtain ⟨sample, later, rfl⟩ := List.mem_map.mp member
            exact above sample later

end Symbols

/-! ## The loop -/

section Loop

variable {dcTable acTable : Table} {bytes : List Byte} {rest : List Bool}

theorem BlockState.after_nil (s : BlockState) : s.after 0 [] = s := by
  simp [BlockState.after, BitBuffer.advance]

theorem BlockState.after_after
    (s : BlockState)
    (first second : Nat)
    (samples later : List Sample) :
    (s.after first samples).after second later =
      s.after (first + second) (samples ++ later) := by
  simp [BlockState.after, BitBuffer.advance, Nat.add_assoc]

theorem loaded_after
    {s : BlockState}
    (loaded : Loaded bytes s.bits)
    (count : Nat)
    (samples : List Sample) :
    Loaded bytes (s.after count samples).bits :=
  ⟨loaded.written, loaded.stored⟩

/-- The bits behind those that were taken. -/
theorem drop_after
    {s : BlockState} {taken left : List Bool}
    {samples : List Sample}
    (starts : (streamOf bytes).drop s.bits.rdOffset = taken ++ left) :
    (streamOf bytes).drop (s.after taken.length samples).bits.rdOffset =
      left := by
  have split : (s.after taken.length samples).bits.rdOffset =
      s.bits.rdOffset + taken.length := rfl
  rw [split, ← List.drop_drop, starts, List.drop_left]

/-- An end of block ends the loop. -/
theorem decodeLoop_endOfBlock
    {position left : Nat} {s : BlockState} {word : List Bool}
    (loaded : Loaded bytes s.bits)
    (notEof : s.bits.eof = false)
    (positive : 1 ≤ position)
    (inBlock : position ≤ 63)
    (codes : acTable.Codes word endOfBlock)
    (starts : (streamOf bytes).drop s.bits.rdOffset = word ++ rest) :
    decodeLoop (dhtEntries dcTable) (dhtEntries acTable) (left + 1) position
        s =
      s.after word.length [] := by
  have shown := (read_symbol loaded notEof codes (by simp)
    (by simpa using starts) : _ ∧ [] <+: _).1
  rw [decodeLoop, if_neg (by omega : ¬ 64 ≤ position)]
  simp only [if_neg (by omega : ¬ position = 0), shown]
  rw [if_pos (by decide : EntropyCode.endOfBlock = 0)]
  simp [BlockState.advance, BlockState.after]

/-- A run of sixteen zeros moves the loop on. -/
theorem decodeLoop_zeros
    {position left : Nat} {s : BlockState} {word : List Bool}
    (loaded : Loaded bytes s.bits)
    (notEof : s.bits.eof = false)
    (positive : 1 ≤ position)
    (inBlock : position ≤ 63)
    (codes : acTable.Codes word zeroRun)
    (starts : (streamOf bytes).drop s.bits.rdOffset = word ++ rest) :
    decodeLoop (dhtEntries dcTable) (dhtEntries acTable) (left + 1) position
        s =
      decodeLoop (dhtEntries dcTable) (dhtEntries acTable) left
        (position + 16) (s.after word.length []) := by
  have shown := (read_symbol loaded notEof codes (by simp)
    (by simpa using starts) : _ ∧ [] <+: _).1
  rw [decodeLoop, if_neg (by omega : ¬ 64 ≤ position)]
  simp only [if_neg (by omega : ¬ position = 0), shown]
  rw [if_neg (by decide : zeroRun ≠ 0), if_pos (by decide : zeroRun = 0xF0)]
  simp [BlockState.advance, BlockState.after]

/-- A coded number is emitted behind its run of zeros. -/
theorem decodeLoop_value
    {position left run : Nat} {number : Int} {s : BlockState}
    {word : List Bool}
    (loaded : Loaded bytes s.bits)
    (notEof : s.bits.eof = false)
    (positive : 1 ≤ position)
    (runSmall : run ≤ 15)
    (inBlock : position + run ≤ 63)
    (nonzero : number ≠ 0)
    (categorySmall : category number ≤ 15)
    (codes : acTable.Codes word (runSize run (category number)))
    (starts :
      (streamOf bytes).drop s.bits.rdOffset =
        word ++ (magnitudeBits number ++ rest)) :
    decodeLoop (dhtEntries dcTable) (dhtEntries acTable) (left + 1) position
        s =
      decodeLoop (dhtEntries dcTable) (dhtEntries acTable) left
        (position + run + 1)
        (s.after (word ++ magnitudeBits number).length
          [⟨position + run, BitVec.ofInt 16 number⟩]) := by
  obtain ⟨shown, behind⟩ := read_symbol loaded notEof codes
    (by rw [length_magnitudeBits]; exact categorySmall) starts
  have size := category_pos nonzero
  have symbolNat := runSize_toNat runSmall categorySmall
  have coefBits := coefBits_runSize runSmall categorySmall
  have notEnd : runSize run (category number) ≠ 0 := by
    intro same
    rw [same] at symbolNat
    change 0 = _ at symbolNat
    omega
  have notZeros : runSize run (category number) ≠ 0xF0 := by
    intro same
    rw [same] at symbolNat
    change 240 = _ at symbolNat
    omega
  have place : (if 15 < (runSize run (category number)).toNat then
      position + (runSize run (category number) >>> 4).toNat
      else position) = position + run := by
    rw [BitVec.toNat_ushiftRight, symbolNat, Nat.shiftRight_eq_div_pow]
    split <;> omega
  rw [decodeLoop, if_neg (by omega : ¬ 64 ≤ position)]
  simp only [if_neg (by omega : ¬ position = 0), shown]
  rw [if_neg notEnd, if_neg notZeros, place, coefBits,
    decodeNumber_magnitude categorySmall behind,
    if_pos (by omega : position + run < 64)]
  have taken : (word ++ magnitudeBits number).length =
      word.length + category number := by
    rw [List.length_append, length_magnitudeBits]
  rw [taken]
  rfl

/-- The loop takes the coded DC difference off the bits first. -/
theorem decodeLoop_dc
    {difference : Int} {s : BlockState} {word : List Bool}
    (loaded : Loaded bytes s.bits)
    (notEof : s.bits.eof = false)
    (categorySmall : category difference ≤ 15)
    (codes : dcTable.Codes word (runSize 0 (category difference)))
    (starts :
      (streamOf bytes).drop s.bits.rdOffset =
        word ++ (magnitudeBits difference ++ rest)) :
    let dcoeff := s.olddccoeff + BitVec.ofInt 16 difference
    decodeLoop (dhtEntries dcTable) (dhtEntries acTable) 64 0 s =
      decodeLoop (dhtEntries dcTable) (dhtEntries acTable) 63 1
        ({ s with olddccoeff := dcoeff }.after
          (word ++ magnitudeBits difference).length [⟨0, dcoeff⟩]) := by
  intro dcoeff
  obtain ⟨shown, behind⟩ := read_symbol loaded notEof codes
    (by rw [length_magnitudeBits]; exact categorySmall) starts
  have symbolNat := runSize_toNat (Nat.zero_le 15) categorySmall
  rw [Nat.mul_zero, Nat.zero_add] at symbolNat
  rw [decodeLoop, if_neg (by decide : ¬ 64 ≤ 0)]
  simp only [if_true, shown]
  rw [coefBits_runSize (Nat.zero_le 15) categorySmall, symbolNat,
    decodeNumber_magnitude categorySmall behind, BitVec.add_comm,
    List.length_append, length_magnitudeBits]
  rfl

/-- The loop takes the coded AC symbols of a block off the bits. -/
theorem decodeLoop_ac
    {position : Nat} {symbols : List AcSymbol} {bits : List Bool}
    (coded : AcCode acTable position symbols bits)
    {left : Nat} {s : BlockState}
    (enough : 64 ≤ left + position)
    (positive : 1 ≤ position)
    (loaded : Loaded bytes s.bits)
    (more : 8 ≤ rest.length)
    (starts : (streamOf bytes).drop s.bits.rdOffset = bits ++ rest) :
    decodeLoop (dhtEntries dcTable) (dhtEntries acTable) left position s =
      s.after bits.length (acSamples position symbols) := by
  have notEof := notEof_of_more loaded more starts
  induction coded generalizing left s with
  | full =>
      rw [acSamples, List.length_nil, BlockState.after_nil]
      cases left <;> simp [decodeLoop]
  | @endOfBlock position word inBlock codes =>
      obtain ⟨before, rfl⟩ : ∃ before, left = before + 1 :=
        ⟨left - 1, by omega⟩
      exact decodeLoop_endOfBlock loaded notEof positive inBlock codes starts
  | @zeros position word bits symbols inBlock codes coded
      inductionHypothesis =>
      obtain ⟨before, rfl⟩ : ∃ before, left = before + 1 :=
        ⟨left - 1, by omega⟩
      rw [List.append_assoc] at starts
      have held := loaded_after loaded word.length []
      have behind : (streamOf bytes).drop
          (s.after word.length []).bits.rdOffset = bits ++ rest :=
        drop_after starts
      rw [decodeLoop_zeros loaded notEof positive (by omega) codes starts,
        inductionHypothesis (by omega) (by omega) held behind
          (notEof_of_more held more behind),
        BlockState.after_after, List.length_append]
      rfl
  | @value position run number word bits symbols runSmall inBlock nonzero
      categorySmall codes coded inductionHypothesis =>
      obtain ⟨before, rfl⟩ : ∃ before, left = before + 1 :=
        ⟨left - 1, by omega⟩
      rw [List.append_assoc, List.append_assoc] at starts
      have held := loaded_after loaded (word ++ magnitudeBits number).length
        [⟨position + run, BitVec.ofInt 16 number⟩]
      have behind : (streamOf bytes).drop
          (s.after (word ++ magnitudeBits number).length
            [⟨position + run, BitVec.ofInt 16 number⟩]).bits.rdOffset =
            bits ++ rest :=
        drop_after (by rw [List.append_assoc]; exact starts)
      rw [decodeLoop_value loaded notEof positive runSmall inBlock nonzero
          categorySmall codes starts,
        inductionHypothesis (by omega) (by omega) held behind
          (notEof_of_more held more behind),
        BlockState.after_after]
      simp [acSamples, Nat.add_assoc]

/--
`decode` takes exactly the bits of a block off the buffer, whatever the memory
behind the bits and the offset, as long as `eof` can be asked behind the block
in the type `int`; it returns the coded pairs.
-/
theorem decode_inverts
    {block : Block} {word acBits : List Bool}
    (coded : BlockCode dcTable acTable block word acBits)
    {s : BlockState} {maxSize : Nat}
    (none : s.samples = [])
    (loaded : Loaded bytes s.bits)
    (allocated : bytes.length + 4 ≤ maxSize)
    (more : 8 ≤ rest.length)
    (starts :
      (streamOf bytes).drop s.bits.rdOffset =
        word ++ (magnitudeBits block.difference ++ (acBits ++ rest)))
    (fits :
      s.bits.rdOffset +
        (word ++ (magnitudeBits block.difference ++ acBits)).length + 7 <
          2 ^ 31) :
    let dcoeff := s.olddccoeff + BitVec.ofInt 16 block.difference
    let samples := ⟨0, dcoeff⟩ :: acSamples 1 block.symbols
    SoftwareJpegDecoder.decodeLoop maxSize (dhtEntries dcTable)
        (dhtEntries acTable) 64 0 s =
      .ok
        { bits :=
            s.bits.advance
              (word ++ (magnitudeBits block.difference ++ acBits)).length
          olddccoeff := dcoeff
          samples := samples } ∧
      (samples.map Sample.coeff).Pairwise (· < ·) := by
  intro dcoeff samples
  let start : BlockState := { s with olddccoeff := dcoeff }
  have loadedStart : Loaded bytes start.bits := loaded
  have room : s.bits.wrOffset + 4 ≤ maxSize := by
    rw [loaded.written]
    exact allocated
  have grouped := starts
  rw [← List.append_assoc, ← List.append_assoc] at grouped
  have notEof := notEof_of_more loaded more grouped
  have first : decodeLoop (dhtEntries dcTable) (dhtEntries acTable) 64 0 s =
      decodeLoop (dhtEntries dcTable) (dhtEntries acTable) 63 1
        (start.after (word ++ magnitudeBits block.difference).length
          [⟨0, dcoeff⟩]) :=
    decodeLoop_dc loaded notEof coded.categorySmall coded.codes starts
  have others : decodeLoop (dhtEntries dcTable) (dhtEntries acTable) 63 1
      (start.after (word ++ magnitudeBits block.difference).length
        [⟨0, dcoeff⟩]) =
      (start.after (word ++ magnitudeBits block.difference).length
        [⟨0, dcoeff⟩]).after acBits.length (acSamples 1 block.symbols) :=
    decodeLoop_ac coded.coded (by decide) (by decide)
      (loaded_after loadedStart _ _) more
      (drop_after (by rw [List.append_assoc]; exact starts))
  have whole : decodeLoop (dhtEntries dcTable) (dhtEntries acTable) 64 0 s =
      { bits :=
          s.bits.advance
            (word ++ (magnitudeBits block.difference ++ acBits)).length
        olddccoeff := dcoeff
        samples := samples } := by
    rw [first, others, BlockState.after_after, BlockState.after, none]
    simp only [List.length_append, Nat.add_assoc]
    rfl
  constructor
  · rw [← whole]
    refine SoftwareJpegDecoder.decodeLoop_eq room (by simp [none]) ?_
    rw [whole]
    exact fits
  · obtain ⟨above, ordered⟩ := acSamples_ordered 1 block.symbols
    rw [List.map_cons, List.pairwise_cons]
    refine ⟨?_, ordered⟩
    intro index member
    obtain ⟨sample, later, rfl⟩ := List.mem_map.mp member
    exact above sample later

/-- Two bytes, of which the first bit was read. -/
def twoBytes : BlockState where
  bits := ⟨fun index => [0x87, 0xFF].getD index 0, 0, 2, 1⟩
  olddccoeff := 10
  samples := []

theorem decode_inverts_two_bytes :
    (SoftwareJpegDecoder.decodeLoop 6
        (dhtEntries (McuProc.bitTable 0x02 0x00))
        (dhtEntries (McuProc.bitTable 0x11 0x00)) 64 0 twoBytes).map
        BlockState.samples =
      .ok [⟨0, 7⟩, ⟨2, 1⟩] := by
  have codes : BlockCode (McuProc.bitTable 0x02 0x00)
      (McuProc.bitTable 0x11 0x00) ⟨-3, [.value 1 1]⟩ [false]
      [false, true, true] :=
    { categorySmall := by decide
      codes := by decide
      coded := .value (by decide) (by decide) (by decide) (by decide)
        (by decide : (McuProc.bitTable 0x11 0x00).Codes [false] _)
        (.endOfBlock (by decide)
          (by decide : (McuProc.bitTable 0x11 0x00).Codes [true] _)) }
  have loaded : Loaded [0x87, 0xFF] twoBytes.bits :=
    { written := rfl
      stored := by
        intro index inBytes
        match index with
        | 0 => rfl
        | 1 => rfl }
  have decoded := decode_inverts codes rfl loaded (by decide : _ ≤ 6)
    (by decide : 8 ≤ (List.replicate 9 true).length) (by decide) (by decide)
  rw [decoded.1]
  rfl

/-! ## An offset near the end of `int` -/

theorem streamOf_zeros (count : Nat) :
    streamOf (List.replicate count 0) = List.replicate (8 * count) false := by
  induction count with
  | zero => rfl
  | succ count inductionHypothesis =>
      rw [List.replicate_succ, streamOf, List.flatMap_cons, ← streamOf,
        inductionHypothesis, Nat.mul_succ, Nat.add_comm, List.replicate_add]
      rfl

/-- A little more than a quarter of a gigabyte of zeros, read to its end. -/
def farBlock : BlockState where
  bits := ⟨fun _ => 0, 0, 2 ^ 28 + 1, 2 ^ 31 - 8⟩
  olddccoeff := 0
  samples := []

/-- The bit behind the first one is too far for `eof`. -/
theorem decodeLoop_farBlock :
    SoftwareJpegDecoder.decodeLoop (2 ^ 28 + 5)
        (dhtEntries (McuProc.bitTable 0x00 0x01))
        (dhtEntries (McuProc.bitTable 0x00 0x01)) 64 0 farBlock =
      .error .intOverflow := by
  rfl

/-- A block of two bits overflows the offset between its bits. -/
theorem decode_overflows_offset :
    ¬ ∀ (dcTable acTable : Table) (bytes : List Byte) (rest : List Bool)
        (block : Block) (word acBits : List Bool) (s : BlockState)
        (maxSize : Nat),
      BlockCode dcTable acTable block word acBits → s.samples = [] →
      Loaded bytes s.bits → bytes.length + 4 ≤ maxSize → maxSize < 2 ^ 31 →
      8 ≤ rest.length →
      (streamOf bytes).drop s.bits.rdOffset =
        word ++ (magnitudeBits block.difference ++ (acBits ++ rest)) →
      s.bits.rdOffset +
          (word ++ (magnitudeBits block.difference ++ acBits)).length <
        2 ^ 31 →
        SoftwareJpegDecoder.decodeLoop maxSize (dhtEntries dcTable)
            (dhtEntries acTable) 64 0 s =
          .ok
            { bits :=
                s.bits.advance
                  (word ++ (magnitudeBits block.difference ++ acBits)).length
              olddccoeff := s.olddccoeff + BitVec.ofInt 16 block.difference
              samples :=
                ⟨0, s.olddccoeff + BitVec.ofInt 16 block.difference⟩ ::
                  acSamples 1 block.symbols } := by
  intro claimed
  obtain ⟨count, isCount⟩ : ∃ count, count = 2 ^ 28 + 1 := ⟨_, rfl⟩
  have codes : BlockCode (McuProc.bitTable 0x00 0x01)
      (McuProc.bitTable 0x00 0x01) ⟨0, []⟩ [false] [false] :=
    { categorySmall := by decide
      codes := by decide
      coded := .endOfBlock (by decide)
        (by decide : (McuProc.bitTable 0x00 0x01).Codes [false] _) }
  have loaded : Loaded (List.replicate count 0) farBlock.bits :=
    { written := by
        rw [List.length_replicate, isCount]
        rfl
      stored := by
        intro index inBytes
        rw [List.getElem_replicate]
        rfl }
  obtain ⟨left, isLeft⟩ : ∃ left, 8 * count - (2 ^ 31 - 8) = left + 2 :=
    ⟨8 * count - (2 ^ 31 - 8) - 2, by omega⟩
  have starts :
      (streamOf (List.replicate count 0)).drop farBlock.bits.rdOffset =
        [false] ++ (magnitudeBits 0 ++
          ([false] ++ List.replicate left false)) := by
    rw [streamOf_zeros, List.drop_replicate]
    change List.replicate (8 * count - (2 ^ 31 - 8)) false = _
    rw [isLeft]
    rfl
  have decoded :=
    claimed _ _ _ _ _ _ _ farBlock (2 ^ 28 + 5) codes rfl loaded
      (by rw [List.length_replicate]; omega) (by decide)
      (by rw [List.length_replicate]; omega) starts (by decide)
  rw [decodeLoop_farBlock] at decoded
  cases decoded

end Loop

end CoreJpeg.Software
