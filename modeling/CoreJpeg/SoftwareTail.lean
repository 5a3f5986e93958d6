import CoreJpeg.SoftwareBlock

namespace CoreJpeg.Software

open EntropyCode BitString

/-!
# Decoding across the end of a scan

`eof` compares the bit offset, rounded up to bytes, with the bytes that were
pushed, and the bit buffer reads as zero from there on.  A code that starts
within the last seven bits of the scan is therefore not read: it is taken for
the code word that zeros start with.  This module says what `decode` takes for
a block whose codes reach into these bits.
-/

/-! ## What zeros say -/

section Zeros

/-- The symbol of the code word that an endless run of zeros starts with. -/
def zeroSymbol (table : Table) : BitVec 8 :=
  match table.lookup (List.replicate 16 false) with
  | some entry => entry.2
  | none => 0

/-- The number that zeros say behind a symbol. -/
def zeroNumber (symbol : BitVec 8) : BitVec 16 :=
  BitVec.ofInt 16 (extend (symbol &&& 0xF).toNat 0)

/-- The coefficient that zeros say at an index, from another one on. -/
def zeroCoefficient (table : Table) (start position : Nat) : BitVec 16 :=
  let run := (zeroSymbol table >>> 4).toNat
  if (position - start) % (run + 1) = run then zeroNumber (zeroSymbol table)
  else 0

/-- The width of the code word that starts some bits. -/
def codeWidth (table : Table) (bits : List Bool) : Nat :=
  match table.lookup bits with
  | some entry => entry.1.length
  | none => 0

/-- The width of the code word that zeros start with. -/
def zeroWidth (table : Table) : Nat :=
  codeWidth table (List.replicate 16 false)

/-- The bits that a DC difference takes from zeros. -/
def zeroDcBits (table : Table) : Nat :=
  zeroWidth table + (zeroSymbol table &&& 0xF).toNat

/-- The bits that the AC coefficients from an index on take from zeros. -/
def zeroAcBits (table : Table) (start : Nat) : Nat :=
  let symbol := zeroSymbol table
  let run := (symbol >>> 4).toNat
  if symbol = 0 then if start < 64 then zeroWidth table else 0
  else
    (64 - start + run) / (run + 1) *
      (zeroWidth table + (symbol &&& 0xF).toNat)

/--
The index that AC symbols have reached where their codes come to a number of
bits; 64 if the last of them starts before.
-/
def acReached (table : Table) :
    Nat → Nat → List AcSymbol → List Bool → Nat
  | 0, position, _, _ => position
  | _ + 1, _, [], _ => 64
  | room + 1, position, .zeros :: rest, bits =>
      acReached table (room + 1 - codeWidth table bits) (position + 16) rest
        (bits.drop (codeWidth table bits))
  | room + 1, position, .value run number :: rest, bits =>
      acReached table
        (room + 1 - (codeWidth table bits + category number))
        (position + run + 1) rest
        (bits.drop (codeWidth table bits + category number))

/--
The bits that the loop takes for AC symbols: their own up to a number of bits,
and those of zeros for the symbols that start behind.
-/
def acTaken (table : Table) :
    Nat → Nat → List AcSymbol → List Bool → Nat
  | 0, position, _, _ => zeroAcBits table position
  | _ + 1, _, [], bits => bits.length
  | room + 1, position, .zeros :: rest, bits =>
      codeWidth table bits +
        acTaken table (room + 1 - codeWidth table bits) (position + 16) rest
          (bits.drop (codeWidth table bits))
  | room + 1, position, .value run number :: rest, bits =>
      codeWidth table bits + category number +
        acTaken table
          (room + 1 - (codeWidth table bits + category number))
          (position + run + 1) rest
          (bits.drop (codeWidth table bits + category number))

end Zeros

/-! ## Reading behind the end -/

section Behind

variable {dcTable acTable : Table}

/-- Later samples of other indices do not change a coefficient. -/
theorem coefficients_append_left
    {first second : List Sample} {position : Nat}
    (others : ∀ sample ∈ second, sample.coeff ≠ position) :
    coefficients (first ++ second) position = coefficients first position := by
  rw [coefficients, coefficients, List.foldl_append]
  induction second using List.reverseRecOn with
  | nil => rfl
  | append_singleton before last inductionHypothesis =>
      rw [List.foldl_append, List.foldl_cons, List.foldl_nil,
        if_neg (others last (by simp))]
      exact inductionHypothesis fun sample member =>
        others sample (by simp [member])

/-- A coefficient without a sample is zero. -/
theorem coefficients_absent
    {samples : List Sample} {position : Nat}
    (others : ∀ sample ∈ samples, sample.coeff ≠ position) :
    coefficients samples position = 0 := by
  have none := @coefficients_append_left [] samples position others
  rw [List.nil_append] at none
  exact none

/-- Earlier samples of other indices do not change a coefficient. -/
theorem coefficients_append_right
    {first second : List Sample} {position : Nat}
    (others : ∀ sample ∈ first, sample.coeff ≠ position) :
    coefficients (first ++ second) position =
      coefficients second position := by
  rw [coefficients, List.foldl_append]
  have none := coefficients_absent others
  rw [coefficients] at none
  rw [none]
  rfl

/-- A sample in front of those of later indices gives its coefficient. -/
theorem coefficients_cons
    {samples : List Sample} {place index : Nat} {value : BitVec 16}
    (above : ∀ sample ∈ samples, place + 1 ≤ sample.coeff) :
    coefficients (⟨place, value⟩ :: samples) index =
      if index = place then value else coefficients samples index := by
  rw [← List.singleton_append]
  by_cases here : index = place
  · subst here
    rw [if_pos rfl, coefficients_append_left]
    · simp [coefficients]
    · intro sample member
      have later := above sample member
      omega
  · rw [if_neg here, coefficients_append_right]
    intro sample member
    rw [List.mem_singleton.mp member]
    exact fun same => here same.symm

/-- A lookup at zeros finds the code word of zeros. -/
theorem lookup_zeros (table : Table) :
    lookup (dhtEntries table) 0 = (zeroWidth table, zeroSymbol table) := by
  have zeros : bitsOf (0 : BitVec 16) = List.replicate 16 false := by
    decide
  rw [lookup_dhtEntries, zeros, zeroSymbol, zeroWidth, codeWidth]
  cases table.lookup (List.replicate 16 false) <;> rfl

/-- The number behind a code that is read from zeros. -/
theorem decodeNumber_zeros (symbol : BitVec 8) :
    decodeNumber 0 (symbol &&& 0xF).toNat = zeroNumber symbol := by
  have small : (symbol &&& 0xF).toNat ≤ 15 := by
    rw [BitVec.toNat_and]
    exact Nat.and_le_right
  exact decodeNumber_extend small (Nat.two_pow_pos _)

/-- What a loop from an index on adds to a state, and the bits it takes. -/
structure Adds (s r : BlockState) (position : Nat) (added : List Sample)
    (count : Nat) : Prop where
  old : r.olddccoeff = s.olddccoeff
  bits : r.bits = s.bits.advance count
  samples : r.samples = s.samples ++ added
  above : ∀ sample ∈ added, position ≤ sample.coeff

/-- A loop that goes on behind other samples adds both. -/
theorem Adds.behind
    {s r : BlockState} {position next count more : Nat}
    {first added : List Sample}
    (adds : Adds (s.after count first) r next added more)
    (above : ∀ sample ∈ first, position ≤ sample.coeff)
    (later : position ≤ next) :
    Adds s r position (first ++ added) (count + more) where
  old := adds.old
  bits := by
    rw [adds.bits]
    simp [BlockState.after, BitBuffer.advance, Nat.add_assoc]
  samples := by
    rw [adds.samples, ← List.append_assoc]
    rfl
  above := by
    intro sample member
    rcases List.mem_append.mp member with isFirst | isAdded
    · exact above sample isFirst
    · exact Nat.le_trans later (adds.above sample isAdded)

/-- The end stays reached. -/
theorem eof_advance
    {s : BitBuffer}
    (atEnd : s.eof = true)
    (count : Nat) :
    (s.advance count).eof = true := by
  simp only [BitBuffer.eof, decide_eq_true_eq] at atEnd ⊢
  change s.wrOffset ≤ (s.rdOffset + count + 7) / 8
  omega

/-- Behind the end an iteration takes the code word of zeros. -/
theorem decodeLoop_atEnd
    {left position : Nat} {s : BlockState}
    (positive : 1 ≤ position)
    (inBlock : position < 64)
    (atEnd : s.bits.eof = true) :
    let symbol := zeroSymbol acTable
    let width := zeroWidth acTable
    let place := position + (symbol >>> 4).toNat
    decodeLoop (dhtEntries dcTable) (dhtEntries acTable) (left + 1) position
        s =
      if symbol = 0 then s.after width []
      else if symbol = 0xF0 then
        decodeLoop (dhtEntries dcTable) (dhtEntries acTable) left
          (position + 16) (s.after width [])
      else
        decodeLoop (dhtEntries dcTable) (dhtEntries acTable) left (place + 1)
          (s.after (width + (symbol &&& 0xF).toNat)
            (if place < 64 then [⟨place, zeroNumber symbol⟩] else [])) := by
  intro symbol width place
  have word : s.bits.readWord = 0 := by
    simp [BitBuffer.readWord, atEnd]
  have upper : ((0 : BitVec 32) >>> 16).setWidth 16 = (0 : BitVec 16) := by
    decide
  have found : lookup (dhtEntries acTable) 0 = (width, symbol) :=
    lookup_zeros acTable
  have run : (if 15 < symbol.toNat then position + (symbol >>> 4).toNat
      else position) = place := by
    have half : (symbol >>> 4).toNat = symbol.toNat / 16 := by
      rw [BitVec.toNat_ushiftRight, Nat.shiftRight_eq_div_pow]
    simp only [place, half]
    split <;> omega
  have number : decodeNumber
      ((((0 : BitVec 32) >>> (16 - width)).setWidth 16 : BitVec 16) >>>
        (16 - (symbol &&& 0xF).toNat)) (symbol &&& 0xF).toNat =
      zeroNumber symbol := by
    rw [← decodeNumber_zeros]
    simp
  rw [decodeLoop, if_neg (by omega : ¬ 64 ≤ position)]
  simp only [if_neg (by omega : ¬ position = 0), word, upper, found, run,
    number]
  split
  · simp [BlockState.advance, BlockState.after]
  · split
    · simp [BlockState.advance, BlockState.after]
    · congr 1
      split <;>
        simp [BlockState.advance, BlockState.after, BlockState.emit]

/-- Behind the end the DC difference is that of the code word of zeros. -/
theorem decodeLoop_dcAtEnd
    {s : BlockState}
    (atEnd : s.bits.eof = true) :
    let dcoeff := s.olddccoeff + zeroNumber (zeroSymbol dcTable)
    decodeLoop (dhtEntries dcTable) (dhtEntries acTable) 64 0 s =
      decodeLoop (dhtEntries dcTable) (dhtEntries acTable) 63 1
        ({ s with olddccoeff := dcoeff }.after (zeroDcBits dcTable)
          [⟨0, dcoeff⟩]) := by
  intro dcoeff
  have word : s.bits.readWord = 0 := by
    simp [BitBuffer.readWord, atEnd]
  have upper : ((0 : BitVec 32) >>> 16).setWidth 16 = (0 : BitVec 16) := by
    decide
  have number : decodeNumber
      ((((0 : BitVec 32) >>> (16 - zeroWidth dcTable)).setWidth 16 :
          BitVec 16) >>> (16 - (zeroSymbol dcTable).toNat))
        (zeroSymbol dcTable &&& 0xF).toNat =
      zeroNumber (zeroSymbol dcTable) := by
    rw [← decodeNumber_zeros]
    simp
  rw [decodeLoop, if_neg (by decide : ¬ 64 ≤ 0)]
  simp only [if_true, word, upper, lookup_zeros, number]
  rw [BitVec.add_comm]
  rfl

/-- The bits that zeros take, one code word at a time. -/
theorem zeroAcBits_step
    {table : Table} {position : Nat}
    (inBlock : position < 64)
    (value : zeroSymbol table ≠ 0) :
    zeroAcBits table position =
      zeroDcBits table +
        zeroAcBits table (position + (zeroSymbol table >>> 4).toNat + 1) := by
  obtain ⟨run, isRun⟩ : ∃ run, (zeroSymbol table >>> 4).toNat = run :=
    ⟨_, rfl⟩
  have steps : (64 - position + run) / (run + 1) =
      (64 - (position + run + 1) + run) / (run + 1) + 1 := by
    rw [← Nat.add_div_right _ (Nat.succ_pos run)]
    rcases Nat.lt_or_ge (64 - position) (run + 1) with last | more
    · have ended : 64 - (position + run + 1) = 0 := by
        omega
      rw [ended, Nat.zero_add,
        Nat.div_eq_of_lt_le (k := 1) (by omega) (by omega),
        Nat.div_eq_of_lt_le (k := 1) (by omega) (by omega)]
    · congr 1
      omega
  simp only [zeroAcBits, if_neg value, isRun, steps, zeroDcBits]
  rw [Nat.succ_mul, Nat.add_comm]

theorem zeroAcBits_done
    {table : Table} {position : Nat}
    (done : 64 ≤ position) :
    zeroAcBits table position = 0 := by
  have none : 64 - position = 0 := by
    omega
  simp only [zeroAcBits, none, Nat.zero_add, Nat.not_lt.mpr done, if_false]
  split
  · rfl
  · rw [Nat.div_eq_of_lt (Nat.lt_succ_self _), Nat.zero_mul]

/-- The coefficients that zeros say, one code word at a time. -/
theorem zeroCoefficient_step
    {table : Table} {position index : Nat}
    (later : position ≤ index) :
    let place := position + (zeroSymbol table >>> 4).toNat
    zeroCoefficient table position index =
      if index < place then 0
      else if index = place then zeroNumber (zeroSymbol table)
      else zeroCoefficient table (place + 1) index := by
  intro place
  obtain ⟨run, isRun⟩ : ∃ run, (zeroSymbol table >>> 4).toNat = run :=
    ⟨_, rfl⟩
  simp only [zeroCoefficient, place, isRun]
  by_cases before : index < position + run
  · rw [if_pos before, Nat.mod_eq_of_lt (by omega), if_neg (by omega)]
  by_cases here : index = position + run
  · subst here
    rw [if_neg before, if_pos rfl, Nat.mod_eq_of_lt (by omega),
      if_pos (by omega)]
  · have split : index - position =
        index - (position + run + 1) + (run + 1) := by
      omega
    rw [if_neg before, if_neg here, split, Nat.add_mod_right]

/-- A symbol without a size says zero. -/
theorem zeroCoefficient_sizeless
    {table : Table} {start position : Nat}
    (sizeless : zeroSymbol table &&& 0xF = 0) :
    zeroCoefficient table start position = 0 := by
  have number : zeroNumber (zeroSymbol table) = 0 := by
    rw [zeroNumber, sizeless]
    decide
  rw [zeroCoefficient, number]
  split <;> rfl

/-- Behind the end the loop takes the code word of zeros again and again. -/
theorem decodeLoop_zeroTail
    {left position : Nat} {s : BlockState}
    (enough : 64 ≤ left + position)
    (positive : 1 ≤ position)
    (atEnd : s.bits.eof = true) :
    ∃ samples,
      Adds s
          (decodeLoop (dhtEntries dcTable) (dhtEntries acTable) left position
            s)
          position samples (zeroAcBits acTable position) ∧
        ∀ index, position ≤ index → index < 64 →
          coefficients samples index =
            zeroCoefficient acTable position index := by
  induction left generalizing position s with
  | zero =>
      refine ⟨[], ⟨rfl, ?_, by simp [decodeLoop], by simp⟩, ?_⟩
      · rw [zeroAcBits_done (by omega)]
        rfl
      · intro index later inBlock
        omega
  | succ left inductionHypothesis =>
      rcases Nat.lt_or_ge position 64 with inBlock | done
      swap
      · have ended : decodeLoop (dhtEntries dcTable) (dhtEntries acTable)
            (left + 1) position s = s := by
          rw [decodeLoop, if_pos done]
        rw [ended, zeroAcBits_done done]
        refine ⟨[], ⟨rfl, rfl, by simp, by simp⟩, ?_⟩
        intro index later inBlock
        omega
      have stays (count : Nat) (samples : List Sample) :
          (s.after count samples).bits.eof = true :=
        eof_advance atEnd count
      rw [decodeLoop_atEnd positive inBlock atEnd]
      split
      next isEnd =>
        refine ⟨[], ⟨rfl, ?_, rfl, by simp⟩, ?_⟩
        · simp only [zeroAcBits, if_pos isEnd, if_pos inBlock]
          rfl
        · intro index _ _
          rw [zeroCoefficient_sizeless (by rw [isEnd]; decide)]
          rfl
      next more =>
        rw [zeroAcBits_step inBlock more]
        split
        next isZeros =>
          obtain ⟨samples, adds, coded⟩ :=
            @inductionHypothesis (position + 16) (s.after _ []) (by omega)
              (by omega) (stays _ [])
          have width : zeroDcBits acTable = zeroWidth acTable := by
            rw [zeroDcBits, isZeros]
            rfl
          have run : (zeroSymbol acTable >>> 4).toNat = 15 := by
            rw [isZeros]
            decide
          rw [width, run]
          refine ⟨[] ++ samples, adds.behind (by simp) (by omega), ?_⟩
          intro index later inBlock
          have sizeless : zeroSymbol acTable &&& 0xF = 0 := by
            rw [isZeros]
            decide
          rw [zeroCoefficient_sizeless sizeless]
          by_cases before : index < position + 16
          · rw [List.nil_append]
            refine coefficients_absent fun sample member => ?_
            have above := adds.above sample member
            omega
          · rw [List.nil_append, coded index (by omega) inBlock,
              zeroCoefficient_sizeless sizeless]
        next value =>
          obtain ⟨samples, adds, coded⟩ :=
            @inductionHypothesis
              (position + (zeroSymbol acTable >>> 4).toNat + 1)
              (s.after _ _) (by omega) (by omega) (stays _ _)
          have behind : ∀ sample ∈
              (if position + (zeroSymbol acTable >>> 4).toNat < 64 then
                [(⟨position + (zeroSymbol acTable >>> 4).toNat,
                  zeroNumber (zeroSymbol acTable)⟩ : Sample)]
              else []),
              position ≤ sample.coeff := by
            intro sample member
            split at member
            · rw [List.mem_singleton.mp member]
              exact Nat.le_add_right _ _
            · cases member
          refine ⟨_, adds.behind behind (by omega), ?_⟩
          intro index later inBlock
          rw [zeroCoefficient_step later]
          split
          next inside =>
            rw [List.singleton_append, coefficients_cons adds.above]
            split
            next here =>
              rw [if_neg (by omega)]
            next elsewhere =>
              split
              next before =>
                refine coefficients_absent fun sample member => ?_
                have above := adds.above sample member
                omega
              next behind =>
                exact coded index (by omega) inBlock
          next outside =>
            rw [if_pos (by omega), List.nil_append]
            refine coefficients_absent fun sample member => ?_
            have above := adds.above sample member
            omega

end Behind

/-! ## Reading up to the end and on -/

section Reading

variable {dcTable acTable : Table} {bytes : List Byte} {rest : List Bool}

/-- A buffer has been read up to an offset, or both are behind the end. -/
def InStep (bytes : List Byte) (offset : Nat) (s : BitBuffer) : Prop :=
  s.rdOffset = offset ∨
    8 * bytes.length ≤ offset + 7 ∧ 8 * bytes.length ≤ s.rdOffset + 7

theorem InStep.eof_iff
    {offset : Nat} {s : BitBuffer}
    (inStep : InStep bytes offset s)
    (loaded : Loaded bytes s) :
    s.eof = true ↔ 8 * bytes.length ≤ offset + 7 := by
  rw [Software.eof_iff loaded]
  rcases inStep with same | ended
  · rw [same]
  · exact ⟨fun _ => ended.1, fun _ => ended.2⟩

/-- Behind the end the offsets need not agree. -/
theorem InStep.behind
    {offset : Nat} {s : BitBuffer}
    (inStep : InStep bytes offset s)
    (ended : 8 * bytes.length ≤ offset + 7)
    (width count : Nat) :
    InStep bytes (offset + width) (s.advance count) := by
  right
  change _ ∧ _ ≤ s.rdOffset + count + 7
  rcases inStep with same | both <;> omega

/-- Before the end they do. -/
theorem InStep.before
    {offset : Nat} {s : BitBuffer}
    (inStep : InStep bytes offset s)
    (loaded : Loaded bytes s)
    (notEof : s.eof = false) :
    s.rdOffset = offset := by
  rcases inStep with same | both
  · exact same
  · have ended := (Software.eof_iff loaded).mpr both.2
    rw [notEof] at ended
    cases ended

/-- A code word has its own width. -/
theorem codeWidth_of_codes
    {table : Table} {word bits : List Bool} {symbol : BitVec 8}
    (codes : table.Codes word symbol) :
    codeWidth table (word ++ bits) = word.length := by
  rw [codeWidth,
    PrefixCode.lookup_of_codes codes (List.prefix_append word bits)]

/-- The index that AC symbols have reached is not before their first. -/
theorem le_acReached
    {position : Nat} {symbols : List AcSymbol} {bits : List Bool}
    (coded : AcCode acTable position symbols bits)
    (room : Nat) (shown : List Bool) :
    position ≤ acReached acTable room position symbols shown := by
  induction coded generalizing room shown with
  | full =>
      cases room <;> exact Nat.le_refl 64
  | endOfBlock inBlock codes =>
      cases room with
      | zero => exact Nat.le_refl _
      | succ room =>
          rw [acReached]
          omega
  | zeros inBlock codes coded inductionHypothesis =>
      cases room with
      | zero => exact Nat.le_refl _
      | succ room =>
          rw [acReached]
          exact (Nat.le_add_right _ 16).trans (inductionHypothesis _ _)
  | value runSmall inBlock nonzero categorySmall codes coded
      inductionHypothesis =>
      cases room with
      | zero => exact Nat.le_refl _
      | succ room =>
          rw [acReached]
          exact Nat.le_trans (by omega) (inductionHypothesis _ _)

/-- What the loop takes for AC symbols that start at an offset. -/
structure TakesAc
    (acTable : Table) (bytes : List Byte) (offset position : Nat)
    (symbols : List AcSymbol) (bits : List Bool) (s result : BlockState) :
    Prop where
  inStep : InStep bytes (offset + bits.length) result.bits
  adds :
    let room := 8 * bytes.length - 7 - offset
    let reached := acReached acTable room position symbols bits
    ∃ samples,
      Adds s result position samples
          (acTaken acTable room position symbols bits) ∧
        ∀ index, position ≤ index → index < 64 →
          coefficients samples index =
            if index < reached then acCoefficient position symbols index
            else zeroCoefficient acTable reached index

/-- Behind the end the loop takes zeros, whatever is coded. -/
theorem takesAc_atEnd
    {position left offset : Nat} {symbols : List AcSymbol}
    {bits : List Bool} {s : BlockState}
    (enough : 64 ≤ left + position)
    (positive : 1 ≤ position)
    (loaded : Loaded bytes s.bits)
    (inStep : InStep bytes offset s.bits)
    (atEnd : s.bits.eof = true) :
    TakesAc acTable bytes offset position symbols bits s
      (decodeLoop (dhtEntries dcTable) (dhtEntries acTable) left position
        s) := by
  have ended := (inStep.eof_iff loaded).mp atEnd
  have noRoom : 8 * bytes.length - 7 - offset = 0 := by
    omega
  obtain ⟨samples, adds, said⟩ :=
    @decodeLoop_zeroTail dcTable acTable left position s enough positive
      atEnd
  refine ⟨?_, samples, ?_, ?_⟩
  · rw [adds.bits]
    exact inStep.behind ended _ _
  · rw [noRoom, acTaken]
    exact adds
  · intro index later inBlock
    rw [noRoom, acReached, if_neg (by omega)]
    exact said index later inBlock

/-- Before the end there is room, and less behind a code. -/
theorem room_before
    {s : BitBuffer}
    (loaded : Loaded bytes s)
    (notEof : s.eof = false) :
    ∃ room,
      8 * bytes.length - 7 - s.rdOffset = room + 1 ∧
        ∀ width,
          8 * bytes.length - 7 - (s.rdOffset + width) = room + 1 - width := by
  have more : ¬ 8 * bytes.length ≤ s.rdOffset + 7 := by
    rw [← Software.eof_iff loaded, notEof]
    decide
  exact ⟨8 * bytes.length - 8 - s.rdOffset, by omega, by omega⟩

/--
The loop takes the coded AC symbols up to the end, and zeros from there on.
-/
theorem decodeLoop_tail
    {position : Nat} {symbols : List AcSymbol} {bits : List Bool}
    (coded : AcCode acTable position symbols bits)
    {left offset : Nat} {s : BlockState}
    (enough : 64 ≤ left + position)
    (positive : 1 ≤ position)
    (loaded : Loaded bytes s.bits)
    (inStep : InStep bytes offset s.bits)
    (starts : (streamOf bytes).drop offset = bits ++ rest) :
    TakesAc acTable bytes offset position symbols bits s
      (decodeLoop (dhtEntries dcTable) (dhtEntries acTable) left position
        s) := by
  induction coded generalizing left offset s with
  | full =>
      have stays : decodeLoop (dhtEntries dcTable) (dhtEntries acTable) left
          64 s = s := by
        cases left <;> simp [decodeLoop]
      have nothing (room : Nat) : acTaken acTable room 64 [] [] = 0 := by
        cases room with
        | zero => exact zeroAcBits_done (Nat.le_refl 64)
        | succ room => rfl
      rw [stays]
      refine ⟨inStep, [], ⟨rfl, ?_, by simp, by simp⟩, ?_⟩
      · rw [nothing]
        rfl
      · intro index later inBlock
        omega
  | @endOfBlock position word inBlock codes =>
      cases ended : s.bits.eof with
      | true => exact takesAc_atEnd enough positive loaded inStep ended
      | false =>
          obtain rfl := inStep.before loaded ended
          obtain ⟨before, rfl⟩ : ∃ before, left = before + 1 :=
            ⟨left - 1, by omega⟩
          rw [decodeLoop_endOfBlock loaded ended positive inBlock codes
            starts]
          obtain ⟨room, isRoom, _⟩ := room_before loaded ended
          refine ⟨.inl rfl, [], ⟨rfl, ?_, rfl, by simp⟩, ?_⟩
          · rw [isRoom, acTaken]
            rfl
          · intro index later inside
            rw [isRoom, acReached, if_pos inside]
            rfl
  | @zeros position word bits symbols inBlock codes coded
      inductionHypothesis =>
      cases ended : s.bits.eof with
      | true => exact takesAc_atEnd enough positive loaded inStep ended
      | false =>
          obtain rfl := inStep.before loaded ended
          obtain ⟨before, rfl⟩ : ∃ before, left = before + 1 :=
            ⟨left - 1, by omega⟩
          obtain ⟨room, isRoom, less⟩ := room_before loaded ended
          rw [List.append_assoc] at starts
          rw [decodeLoop_zeros loaded ended positive (by omega) codes starts]
          have behind : (streamOf bytes).drop (s.bits.rdOffset + word.length) =
              bits ++ rest :=
            @drop_after bytes s word (bits ++ rest) [] starts
          obtain ⟨reached, samples, adds, said⟩ :=
            @inductionHypothesis before (s.bits.rdOffset + word.length)
              (s.after word.length []) (by omega) (by omega)
              (loaded_after loaded _ _) (.inl rfl) behind
          refine ⟨?_, [] ++ samples, ?_, ?_⟩
          · rw [List.length_append, ← Nat.add_assoc]
            exact reached
          · rw [isRoom, acTaken, codeWidth_of_codes codes, List.drop_left,
              ← less]
            exact adds.behind (by simp) (by omega)
          · intro index later inside
            rw [isRoom, acReached, codeWidth_of_codes codes,
              List.drop_left, ← less, List.nil_append]
            by_cases skipped : index < position + 16
            · have sooner := Nat.lt_of_lt_of_le skipped
                (le_acReached coded
                  (8 * bytes.length - 7 - (s.bits.rdOffset + word.length))
                  bits)
              rw [if_pos sooner, acCoefficient,
                acCoefficient_before symbols skipped]
              refine coefficients_absent fun sample member => ?_
              have above := adds.above sample member
              omega
            · exact said index (by omega) inside
  | @value position run number word bits symbols runSmall inBlock nonzero
      categorySmall codes coded inductionHypothesis =>
      cases ended : s.bits.eof with
      | true => exact takesAc_atEnd enough positive loaded inStep ended
      | false =>
          obtain rfl := inStep.before loaded ended
          obtain ⟨before, rfl⟩ : ∃ before, left = before + 1 :=
            ⟨left - 1, by omega⟩
          obtain ⟨room, isRoom, less⟩ := room_before loaded ended
          have width : (word ++ magnitudeBits number).length =
              word.length + category number := by
            rw [List.length_append, length_magnitudeBits]
          have shown : word ++ (magnitudeBits number ++ bits) =
              (word ++ magnitudeBits number) ++ bits :=
            (List.append_assoc _ _ _).symm
          have behind : (streamOf bytes).drop
              (s.bits.rdOffset + (word ++ magnitudeBits number).length) =
              bits ++ rest :=
            @drop_after bytes s _ (bits ++ rest) []
              (by rw [starts, shown, List.append_assoc])
          rw [List.append_assoc, List.append_assoc] at starts
          rw [decodeLoop_value loaded ended positive runSmall inBlock nonzero
            categorySmall codes starts]
          obtain ⟨reached, samples, adds, said⟩ :=
            @inductionHypothesis before
              (s.bits.rdOffset + (word ++ magnitudeBits number).length)
              (s.after (word ++ magnitudeBits number).length
                [⟨position + run, BitVec.ofInt 16 number⟩])
              (by omega) (by omega) (loaded_after loaded _ _) (.inl rfl)
              behind
          refine ⟨?_, [⟨position + run, BitVec.ofInt 16 number⟩] ++ samples,
            ?_, ?_⟩
          · rw [shown, List.length_append, ← Nat.add_assoc]
            exact reached
          · rw [isRoom, acTaken, codeWidth_of_codes codes, ← width, shown,
              List.drop_left, ← less]
            exact adds.behind (by simp) (by omega)
          · intro index later inside
            have sooner := le_acReached coded
              (8 * bytes.length - 7 -
                (s.bits.rdOffset + (word ++ magnitudeBits number).length))
              bits
            rw [isRoom, acReached, codeWidth_of_codes codes, ← width, shown,
              List.drop_left, ← less, List.singleton_append,
              coefficients_cons adds.above, acCoefficient]
            by_cases here : index = position + run
            · rw [if_pos here, if_pos here, if_pos (by omega)]
            rw [if_neg here, if_neg here]
            by_cases skipped : index < position + run
            · rw [if_pos (by omega), acCoefficient_before symbols (by omega)]
              refine coefficients_absent fun sample member => ?_
              have above := adds.above sample member
              omega
            · exact said index (by omega) inside

/-- The loop takes a DC difference first: the coded one, or zeros. -/
theorem decodeLoop_first
    {difference : Int} {word acBits : List Bool}
    {offset : Nat} {s : BlockState}
    (categorySmall : category difference ≤ 15)
    (codes : dcTable.Codes word (runSize 0 (category difference)))
    (loaded : Loaded bytes s.bits)
    (inStep : InStep bytes offset s.bits)
    (starts :
      (streamOf bytes).drop offset =
        word ++ (magnitudeBits difference ++ (acBits ++ rest))) :
    let dcoeff :=
      s.olddccoeff +
        if offset + 7 < 8 * bytes.length then BitVec.ofInt 16 difference
        else zeroNumber (zeroSymbol dcTable)
    let count :=
      if offset + 7 < 8 * bytes.length then word.length + category difference
      else zeroDcBits dcTable
    InStep bytes (offset + (word.length + category difference))
        (s.bits.advance count) ∧
      decodeLoop (dhtEntries dcTable) (dhtEntries acTable) 64 0 s =
        decodeLoop (dhtEntries dcTable) (dhtEntries acTable) 63 1
          ({ s with olddccoeff := dcoeff }.after count [⟨0, dcoeff⟩]) := by
  intro dcoeff count
  have ends := inStep.eof_iff loaded
  cases ended : s.bits.eof with
  | true =>
      have behind := ends.mp ended
      refine ⟨inStep.behind behind _ _, ?_⟩
      simp only [dcoeff, count,
        if_neg (by omega : ¬ offset + 7 < 8 * bytes.length)]
      exact decodeLoop_dcAtEnd ended
  | false =>
      obtain rfl := inStep.before loaded ended
      have more : s.bits.rdOffset + 7 < 8 * bytes.length := by
        rw [ended] at ends
        simpa using ends
      have width : (word ++ magnitudeBits difference).length =
          word.length + category difference := by
        rw [List.length_append, length_magnitudeBits]
      simp only [dcoeff, count, if_pos more, ← width]
      exact
        ⟨.inl rfl, decodeLoop_dc loaded ended categorySmall codes starts⟩

/-- `decode` takes the codes of a block up to the end, and zeros from there. -/
theorem decode_tail
    {block : Block} {word acBits : List Bool}
    (coded : BlockCode dcTable acTable block word acBits)
    {offset : Nat} {s : BlockState}
    (none : s.samples = [])
    (loaded : Loaded bytes s.bits)
    (inStep : InStep bytes offset s.bits)
    (starts :
      (streamOf bytes).drop offset =
        word ++ (magnitudeBits block.difference ++ (acBits ++ rest))) :
    let result :=
      decodeLoop (dhtEntries dcTable) (dhtEntries acTable) 64 0 s
    let dcWidth := word.length + category block.difference
    let dcoeff :=
      s.olddccoeff +
        if offset + 7 < 8 * bytes.length then BitVec.ofInt 16 block.difference
        else zeroNumber (zeroSymbol dcTable)
    let dcTaken :=
      if offset + 7 < 8 * bytes.length then dcWidth else zeroDcBits dcTable
    let room := 8 * bytes.length - 7 - (offset + dcWidth)
    let reached := acReached acTable room 1 block.symbols acBits
    InStep bytes (offset + (dcWidth + acBits.length)) result.bits ∧
      Loaded bytes result.bits ∧
      result.bits.rdOffset =
        s.bits.rdOffset +
          (dcTaken + acTaken acTable room 1 block.symbols acBits) ∧
      result.olddccoeff = dcoeff ∧
      ∀ position < 64,
        coefficients result.samples position =
          if position = 0 then dcoeff
          else if position < reached then
            acCoefficient 1 block.symbols position
          else zeroCoefficient acTable reached position := by
  intro result dcWidth dcoeff dcTaken room reached
  obtain ⟨atAc, first⟩ :=
    @decodeLoop_first dcTable acTable _ _ _ _ _ _ _ coded.categorySmall
      coded.codes loaded inStep starts
  have behind : (streamOf bytes).drop (offset + dcWidth) = acBits ++ rest := by
    have width : dcWidth = (word ++ magnitudeBits block.difference).length := by
      rw [List.length_append, length_magnitudeBits]
    rw [← List.drop_drop, starts, width, ← List.append_assoc, List.drop_left]
  let start : BlockState := { s with olddccoeff := dcoeff }
  have loadedStart : Loaded bytes start.bits := loaded
  have taken : TakesAc acTable bytes (offset + dcWidth) 1 block.symbols acBits
      (start.after dcTaken [⟨0, dcoeff⟩]) result := by
    change decodeLoop _ _ 64 0 s = decodeLoop _ _ 63 1
      (start.after dcTaken [⟨0, dcoeff⟩]) at first
    simp only [result, first]
    exact decodeLoop_tail coded.coded (by decide) (by decide)
      (loaded_after loadedStart dcTaken _) atAc behind
  obtain ⟨samples, adds, said⟩ := taken.adds
  refine ⟨?_, ?_, ?_, adds.old, ?_⟩
  · rw [← Nat.add_assoc]
    exact taken.inStep
  · rw [adds.bits]
    exact ⟨loaded.written, loaded.stored⟩
  · rw [adds.bits]
    exact Nat.add_assoc s.bits.rdOffset dcTaken _
  · intro position inBlock
    have isSamples : result.samples = ⟨0, dcoeff⟩ :: samples := by
      rw [adds.samples, BlockState.after, none]
      rfl
    rw [isSamples, coefficients_cons adds.above]
    split
    · rfl
    · exact said position (by omega) inBlock

end Reading

end CoreJpeg.Software
