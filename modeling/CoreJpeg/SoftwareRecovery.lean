import CoreJpeg.Iteration
import CoreJpeg.SoftwareTail

namespace CoreJpeg.Software

open EntropyCode BitString Iteration

/-!
# Does `DecodeImage` recover a scan?

The loop counts no MCUs: it ends when an MCU would start within the last seven
bits of the scan, and an MCU that starts before is decoded with zeros for
these bits.  By induction over the blocks and the MCUs this says what the loop
takes for every block, and so for which scans it recovers all of them.  The
bits that it takes are counted in an `int`, so it also says for which scans
their number leaves that type.
-/

/-! ## The loop with its checks -/

namespace Checked

/--
`decode`; the DC coefficient is shifted by 16 less its symbol, and a shift by
a negative number has no result.
-/
def decode (maxSize : Nat) (dc ac : List DhtEntry) (s : BlockState) :
    Except Fault BlockState :=
  if 16 < (lookup dc (SoftwareJpegDecoder.window s.bits)).2.toNat then
    .error .negativeShift
  else SoftwareJpegDecoder.decodeLoop maxSize dc ac 64 0 s

/-- `mcu_dec_.decode` for the next block of a component. -/
def decodeBlock
    (maxSize : Nat)
    (tables : Tables)
    (component : Component)
    (s : ImageState) : Except Fault (DecodedBlock × ImageState) := do
  let result ←
    decode maxSize (dhtEntries (tables.dc component))
      (dhtEntries (tables.ac component))
      { bits := s.bits
        olddccoeff := s.dcCoeff component
        samples := [] }
  .ok
    ({ component := component, samples := result.samples },
      { bits := result.bits
        dcCoeff := fun other =>
          if other = component then result.olddccoeff else s.dcCoeff other })

/-- The blocks of a list of components, one after the other. -/
def decodeBlocks (maxSize : Nat) (tables : Tables) :
    List Component → ImageState →
      Except Fault (List DecodedBlock × ImageState)
  | [], s => .ok ([], s)
  | component :: rest, s => do
      let first ← decodeBlock maxSize tables component s
      let others ← decodeBlocks maxSize tables rest first.2
      .ok (first.1 :: others.1, others.2)

/-- The MCUs that `DecodeImage` decodes, if the fuel suffices. -/
def decodeImage (maxSize : Nat) (tables : Tables) (mode : ImageMode) :
    Nat → ImageState → Except Fault (Option (List (List DecodedBlock)))
  | 0, _ => .ok none
  | fuel + 1, s => do
      let ended ← SoftwareJpegDecoder.eof s.bits
      if ended then .ok (some [])
      else do
        let mcu ← decodeBlocks maxSize tables (mcuComponents mode) s
        let rest ← decodeImage maxSize tables mode fuel mcu.2
        .ok (rest.map (mcu.1 :: ·))

end Checked

/-! ## What is asked -/

section Property

/-- The bit offset of a block in its scan. -/
def blockOffset (scan : Scan) (index : Nat) : Nat :=
  ((scan.blocks.take index).flatMap CodedBlock.bits).length

/-- `DecodeImage` decodes every MCU of a scan, and then stops. -/
def Recovers (scan : Scan) (mode : ImageMode) (mcus maxSize : Nat)
    (file : List Byte) : Prop :=
  ∃ fuel decoded,
    Checked.decodeImage maxSize scan.tables mode fuel (imageStart file) =
        .ok (some decoded) ∧
      decoded.length = mcus ∧
      decoded.flatten.length = scan.blocks.length ∧
      ∀ index block,
        decoded.flatten[index]? = some block →
          block.component = scan.order index ∧
            ∀ position < 64,
              coefficients block.samples position =
                scan.coefficient index position

/-- A scan of whole MCUs, packed into bytes with one bits at the end. -/
structure Packed (scan : Scan) (mode : ImageMode) (mcus : Nat)
    (bytes : List Byte) : Prop where
  supported : mode ≠ .unsupported
  inOrder : scan.order = McuProc.componentOrder mode
  someMcus : 1 ≤ mcus
  wholeMcus : scan.blocks.length = mcus * (mcuComponents mode).length
  padded :
    ∃ count ≤ 7,
      streamOf bytes = scan.bits ++ List.replicate count true

end Property

/-! ## The end of a scan -/

section End

/-- The index that the AC symbols of a block have reached at the end. -/
def blockReached
    (scan : Scan)
    (bytes : List Byte)
    (index : Nat)
    (coded : CodedBlock) : Nat :=
  let dcWidth := coded.dcWord.length + category coded.block.difference
  acReached (scan.tables.ac (scan.order index))
    (8 * bytes.length - 7 - (blockOffset scan index + dcWidth)) 1
    coded.block.symbols coded.acBits

/--
What the codes within the last seven bits say is what zeros say there: the DC
differences and the AC coefficients that are coded there are those of the
tables' code words of zeros.
-/
structure SaysZeros (scan : Scan) (bytes : List Byte) : Prop where
  differences :
    ∀ index coded,
      scan.blocks[index]? = some coded →
        8 * bytes.length ≤ blockOffset scan index + 7 →
          BitVec.ofInt 16 coded.block.difference =
            zeroNumber (zeroSymbol (scan.tables.dc (scan.order index)))
  acCoefficients :
    ∀ index coded,
      scan.blocks[index]? = some coded →
        ∀ position < 64,
          blockReached scan bytes index coded ≤ position →
            acCoefficient 1 coded.block.symbols position =
              zeroCoefficient (scan.tables.ac (scan.order index))
                (blockReached scan bytes index coded) position

/-- The bits that the loop takes for a block. -/
def takenBits (scan : Scan) (bytes : List Byte) (index : Nat)
    (coded : CodedBlock) : Nat :=
  let dcTable := scan.tables.dc (scan.order index)
  let dcWidth := coded.dcWord.length + category coded.block.difference
  (if blockOffset scan index + 7 < 8 * bytes.length then dcWidth
    else zeroDcBits dcTable) +
    acTaken (scan.tables.ac (scan.order index))
      (8 * bytes.length - 7 - (blockOffset scan index + dcWidth)) 1
      coded.block.symbols coded.acBits

/-- The bit offset at which the loop comes to a block. -/
def takenOffset (scan : Scan) (bytes : List Byte) : Nat → Nat
  | 0 => 0
  | index + 1 =>
      takenOffset scan bytes index +
        (scan.blocks[index]?.map (takenBits scan bytes index)).getD 0

/-- What is taken for a block's DC difference is shifted by no less than 0. -/
def ShiftsRight (scan : Scan) (bytes : List Byte) (index : Nat) : Prop :=
  8 * bytes.length ≤ blockOffset scan index + 7 →
    (zeroSymbol (scan.tables.dc (scan.order index))).toNat ≤ 16

/--
A scan's last MCU starts before its last seven bits, which say zeros; the bits
that are taken can be counted, and no DC difference among the last bits is
shifted by a negative number.
-/
structure ZeroTail (scan : Scan) (mode : ImageMode) (mcus : Nat)
    (bytes : List Byte) : Prop extends SaysZeros scan bytes where
  lastMcu :
    blockOffset scan ((mcus - 1) * (mcuComponents mode).length) + 7 <
      8 * bytes.length
  countable : takenOffset scan bytes scan.blocks.length + 7 < 2 ^ 31
  shiftsRight :
    ∀ index < scan.blocks.length, ShiftsRight scan bytes index

end End

/-! ## Blocks -/

section Blocks

variable {scan : Scan} {bytes : List Byte} {padding : List Bool}

/-- The DC difference that `decode` takes for a block. -/
def takenDifference (scan : Scan) (bytes : List Byte) (index : Nat) :
    BitVec 16 :=
  if blockOffset scan index + 7 < 8 * bytes.length then
    scan.difference index
  else zeroNumber (zeroSymbol (scan.tables.dc (scan.order index)))

/-- The DC predictor that the taken differences make. -/
def takenPredictor (scan : Scan) (bytes : List Byte) :
    Nat → Component → BitVec 16
  | 0, _ => 0
  | index + 1, component =>
      if scan.order index = component then
        takenDifference scan bytes index +
          takenPredictor scan bytes index component
      else takenPredictor scan bytes index component

/-- The coefficient that `decode` takes for a block. -/
def takenCoefficient
    (scan : Scan)
    (bytes : List Byte)
    (index : Nat)
    (coded : CodedBlock)
    (position : Nat) : BitVec 16 :=
  if position = 0 then
    takenDifference scan bytes index +
      takenPredictor scan bytes index (scan.order index)
  else if position < blockReached scan bytes index coded then
    acCoefficient 1 coded.block.symbols position
  else
    zeroCoefficient (scan.tables.ac (scan.order index))
      (blockReached scan bytes index coded) position

/-- `DecodeImage` has come to a block. -/
structure ComesTo
    (scan : Scan)
    (bytes : List Byte)
    (index : Nat)
    (s : ImageState) : Prop where
  loaded : Loaded bytes s.bits
  inStep : InStep bytes (blockOffset scan index) s.bits
  offset : s.bits.rdOffset = takenOffset scan bytes index
  predicts :
    ∀ component, s.dcCoeff component = takenPredictor scan bytes index component

/-- A decoded block is what `decode` takes for a block of the scan. -/
structure Takes
    (scan : Scan)
    (bytes : List Byte)
    (index : Nat)
    (coded : CodedBlock)
    (block : DecodedBlock) : Prop where
  component : block.component = scan.order index
  coefficients :
    ∀ position < 64,
      coefficients block.samples position =
        takenCoefficient scan bytes index coded position

theorem blockOffset_succ
    {index : Nat} {coded : CodedBlock}
    (here : scan.blocks[index]? = some coded) :
    blockOffset scan (index + 1) =
      blockOffset scan index + coded.bits.length := by
  rw [blockOffset, blockOffset, List.take_add_one, here]
  simp

theorem drop_blockOffset
    (packed : streamOf bytes = scan.bits ++ padding)
    (index : Nat) :
    (streamOf bytes).drop (blockOffset scan index) =
      scan.bitsFrom index ++ padding := by
  have split : scan.bits =
      (scan.blocks.take index).flatMap CodedBlock.bits ++
        scan.bitsFrom index := by
    rw [Scan.bits, Scan.bitsFrom, ← List.flatMap_append,
      List.take_append_drop]
  rw [packed, split, List.append_assoc, blockOffset, List.drop_left]

/-- A block is taken where `DecodeImage` comes to it. -/
theorem decodeBlock_takes
    (packed : streamOf bytes = scan.bits ++ padding)
    {index : Nat} {coded : CodedBlock} {s : ImageState}
    (here : scan.blocks[index]? = some coded)
    (comes : ComesTo scan bytes index s) :
    let result := decodeBlock scan.tables (scan.order index) s
    Takes scan bytes index coded result.1 ∧
      ComesTo scan bytes (index + 1) result.2 := by
  intro result
  have code := scan.coded index coded here
  have starts := drop_blockOffset packed index
  rw [Scan.bitsFrom_eq here, CodedBlock.bits] at starts
  simp only [List.append_assoc] at starts
  have isDifference : (if blockOffset scan index + 7 < 8 * bytes.length then
      BitVec.ofInt 16 coded.block.difference
      else zeroNumber (zeroSymbol (scan.tables.dc (scan.order index)))) =
      takenDifference scan bytes index := by
    rw [takenDifference, Scan.difference, here]
    rfl
  have predicted :
      s.dcCoeff (scan.order index) + takenDifference scan bytes index =
        takenDifference scan bytes index +
          takenPredictor scan bytes index (scan.order index) := by
    rw [comes.predicts, BitVec.add_comm]
  obtain ⟨inStep, loaded, taken, isDc, said⟩ :=
    @decode_tail _ _ bytes _ _ _ _ code _
      { bits := s.bits
        olddccoeff := s.dcCoeff (scan.order index)
        samples := [] }
      rfl comes.loaded comes.inStep starts
  simp only [isDifference, predicted] at isDc said
  refine ⟨⟨rfl, said⟩, loaded, ?_, ?_, ?_⟩
  · have width : coded.bits.length =
        coded.dcWord.length + category coded.block.difference +
          coded.acBits.length := by
      simp [CodedBlock.bits, Nat.add_assoc]
    rw [blockOffset_succ here, width]
    exact inStep
  · rw [takenOffset, here, ← comes.offset]
    exact taken
  · intro component
    rw [takenPredictor]
    split
    next same =>
      subst same
      exact (if_pos rfl).trans isDc
    next other =>
      exact (if_neg (Ne.symm other)).trans (comes.predicts component)

/-- Decoded blocks are what `decode` takes for the blocks from an index on. -/
def TakesAll
    (scan : Scan)
    (bytes : List Byte)
    (index : Nat)
    (blocks : List DecodedBlock) : Prop :=
  ∀ offset block,
    blocks[offset]? = some block →
      ∃ coded,
        scan.blocks[index + offset]? = some coded ∧
          Takes scan bytes (index + offset) coded block

theorem TakesAll.append
    {index : Nat} {first second : List DecodedBlock}
    (takesFirst : TakesAll scan bytes index first)
    (takesSecond : TakesAll scan bytes (index + first.length) second) :
    TakesAll scan bytes index (first ++ second) := by
  intro offset block here
  rcases Nat.lt_or_ge offset first.length with inFirst | inSecond
  · rw [List.getElem?_append_left inFirst] at here
    exact takesFirst offset block here
  · rw [List.getElem?_append_right inSecond] at here
    have found := takesSecond (offset - first.length) block here
    rwa [Nat.add_assoc, Nat.add_sub_cancel' inSecond] at found

/-- The blocks of a list of components are taken one after the other. -/
theorem decodeBlocks_takes
    (packed : streamOf bytes = scan.bits ++ padding)
    {components : List Component} {index : Nat} {s : ImageState}
    (inOrder :
      ∀ offset component,
        components[offset]? = some component →
          scan.order (index + offset) = component)
    (inScan : index + components.length ≤ scan.blocks.length)
    (comes : ComesTo scan bytes index s) :
    let result := decodeBlocks scan.tables components s
    result.1.length = components.length ∧
      TakesAll scan bytes index result.1 ∧
      ComesTo scan bytes (index + components.length) result.2 := by
  induction components generalizing index s with
  | nil =>
      exact ⟨rfl, by simp [TakesAll, decodeBlocks], comes⟩
  | cons component rest inductionHypothesis =>
      rw [List.length_cons] at inScan
      have isComponent : scan.order index = component := inOrder 0 _ rfl
      subst isComponent
      have here := List.getElem?_eq_getElem
        (show index < scan.blocks.length by omega)
      obtain ⟨takes, comesNext⟩ := decodeBlock_takes packed here comes
      obtain ⟨lengths, takesAll, comesLast⟩ :=
        @inductionHypothesis (index + 1) _
          (by
            intro offset other found
            rw [Nat.add_assoc, Nat.add_comm 1]
            exact inOrder (offset + 1) other found)
          (by omega) comesNext
      have single : TakesAll scan bytes index
          [(decodeBlock scan.tables (scan.order index) s).1] := by
        intro offset block found
        cases offset with
        | zero =>
            obtain rfl := Option.some.inj found
            exact ⟨_, here, takes⟩
        | succ offset => simp at found
      refine ⟨?_, single.append takesAll, ?_⟩
      · simpa [decodeBlocks] using lengths
      · rw [List.length_cons, Nat.add_comm rest.length, ← Nat.add_assoc]
        exact comesLast

end Blocks

/-! ## MCUs -/

section Mcus

variable {scan : Scan} {mode : ImageMode} {mcus : Nat} {bytes : List Byte}

/-- The order of a scan repeats the components of an MCU. -/
theorem componentOrder_mcuComponents
    (supported : mode ≠ .unsupported)
    (mcu : Nat)
    {offset : Nat} {component : Component}
    (found : (mcuComponents mode)[offset]? = some component) :
    McuProc.componentOrder mode
        (mcu * (mcuComponents mode).length + offset) =
      component := by
  have inMcu := (List.getElem?_eq_some_iff.mp found).1
  cases mode with
  | unsupported => exact absurd rfl supported
  | monochrome =>
      simp only [mcuComponents, List.length_singleton] at inMcu found ⊢
      obtain rfl : offset = 0 := by
        omega
      simpa [McuProc.componentOrder] using found
  | ycbcr444 =>
      simp only [mcuComponents, List.length_cons, List.length_nil] at inMcu ⊢
      have place : (mcu * (0 + 1 + 1 + 1) + offset) % 3 = offset := by
        omega
      simp only [McuProc.componentOrder, place]
      interval_cases offset <;> simpa [mcuComponents] using found
  | ycbcr420 =>
      simp only [mcuComponents, List.length_cons, List.length_nil] at inMcu ⊢
      have place :
          (mcu * (0 + 1 + 1 + 1 + 1 + 1 + 1) + offset) % 6 = offset := by
        omega
      simp only [McuProc.componentOrder, place]
      interval_cases offset <;> simpa [mcuComponents] using found

/-- The blocks of an MCU end where the next one starts. -/
theorem Packed.mcu
    (packed : Packed scan mode mcus bytes)
    {mcu : Nat}
    (inScan : mcu < mcus) :
    mcu * (mcuComponents mode).length + (mcuComponents mode).length ≤
        scan.blocks.length ∧
      ∀ offset component,
        (mcuComponents mode)[offset]? = some component →
          scan.order (mcu * (mcuComponents mode).length + offset) =
            component := by
  constructor
  · rw [← Nat.succ_mul, packed.wholeMcus]
    exact Nat.mul_le_mul_right _ inScan
  · intro offset component found
    rw [packed.inOrder]
    exact componentOrder_mcuComponents packed.supported mcu found

/-- Behind the last MCU the loop is at the end. -/
theorem Packed.atEnd
    (packed : Packed scan mode mcus bytes)
    {s : ImageState}
    (comes : ComesTo scan bytes scan.blocks.length s) :
    s.bits.eof = true := by
  obtain ⟨count, few, padded⟩ := packed.padded
  have all : blockOffset scan scan.blocks.length = scan.bits.length := by
    rw [blockOffset, Scan.bits, List.take_length]
  have lengths := congrArg List.length padded
  rw [length_streamOf, List.length_append, List.length_replicate] at lengths
  rw [comes.inStep.eof_iff comes.loaded]
  omega

/-- More fuel gives the same MCUs. -/
theorem decodeImage_unique
    {tables : Tables} {first second : Nat} {s : ImageState}
    {decoded others : List (List DecodedBlock)}
    (isDecoded : decodeImage tables mode first s = some decoded)
    (isOthers : decodeImage tables mode second s = some others) :
    decoded = others := by
  induction first generalizing second s decoded others with
  | zero => cases isDecoded
  | succ first inductionHypothesis =>
      cases second with
      | zero => cases isOthers
      | succ second =>
          rw [decodeImage] at isDecoded isOthers
          split at isDecoded
          next ended =>
            rw [if_pos ended] at isOthers
            rw [← Option.some.inj isDecoded, ← Option.some.inj isOthers]
          next more =>
            rw [if_neg more] at isOthers
            obtain ⟨rest, isRest, rfl⟩ := Option.map_eq_some_iff.mp isDecoded
            obtain ⟨last, isLast, rfl⟩ := Option.map_eq_some_iff.mp isOthers
            rw [inductionHypothesis isRest isLast]

theorem blockOffset_mono
    {first second : Nat}
    (later : first ≤ second) :
    blockOffset scan first ≤ blockOffset scan second := by
  have start := (List.take_prefix_take_left later :
    scan.blocks.take first <+: scan.blocks.take second)
  obtain ⟨rest, isRest⟩ := start
  rw [blockOffset, blockOffset, ← isRest, List.flatMap_append,
    List.length_append]
  exact Nat.le_add_right _ _

/-- The MCUs that start before the end are taken, and then it stops. -/
theorem decodeImage_takes
    (packed : Packed scan mode mcus bytes)
    {left mcu : Nat} {s : ImageState}
    (total : mcu + left = mcus)
    (comes : ComesTo scan bytes (mcu * (mcuComponents mode).length) s) :
    ∃ decoded,
      decodeImage scan.tables mode (left + 1) s = some decoded ∧
        TakesAll scan bytes (mcu * (mcuComponents mode).length)
          decoded.flatten ∧
        decoded.flatten.length =
          decoded.length * (mcuComponents mode).length ∧
        (decoded.length = left ↔
          left = 0 ∨
            blockOffset scan ((mcus - 1) * (mcuComponents mode).length) + 7 <
              8 * bytes.length) := by
  obtain ⟨count, few, padded⟩ := packed.padded
  induction left generalizing mcu s with
  | zero =>
      obtain rfl : mcu = mcus := total
      have atEnd := packed.atEnd (by rw [packed.wholeMcus]; exact comes)
      refine ⟨[], by rw [decodeImage, if_pos atEnd], by simp [TakesAll],
        by simp, by simp⟩
  | succ left inductionHypothesis =>
      have ends := comes.inStep.eof_iff comes.loaded
      cases atEnd : s.bits.eof with
      | true =>
          have behind := ends.mp atEnd
          have later := @blockOffset_mono scan
            (mcu * (mcuComponents mode).length)
            ((mcus - 1) * (mcuComponents mode).length)
            (Nat.mul_le_mul_right _ (by omega))
          refine ⟨[], by rw [decodeImage, if_pos atEnd], by simp [TakesAll],
            by simp, ?_⟩
          rw [List.length_nil]
          omega
      | false =>
          have before :
              blockOffset scan (mcu * (mcuComponents mode).length) + 7 <
                8 * bytes.length := by
            rw [atEnd] at ends
            simpa using ends
          have place : mcu * (mcuComponents mode).length +
              (mcuComponents mode).length =
              (mcu + 1) * (mcuComponents mode).length :=
            (Nat.succ_mul _ _).symm
          obtain ⟨inScan, inOrder⟩ :=
            packed.mcu (show mcu < mcus by omega)
          obtain ⟨lengths, takesFirst, comesNext⟩ :=
            decodeBlocks_takes padded inOrder inScan comes
          rw [place] at comesNext
          obtain ⟨rest, isRest, takesRest, restLength, complete⟩ :=
            inductionHypothesis (by omega) comesNext
          let blocks := decodeBlocks scan.tables (mcuComponents mode) s
          have goesOn : decodeImage scan.tables mode (left + 1 + 1) s =
              (decodeImage scan.tables mode (left + 1) blocks.2).map
                (blocks.1 :: ·) := by
            rw [decodeImage, if_neg (by simp [atEnd])]
          refine ⟨blocks.1 :: rest, by rw [goesOn, isRest]; rfl, ?_, ?_, ?_⟩
          · rw [List.flatten_cons]
            refine takesFirst.append ?_
            rw [lengths, place]
            exact takesRest
          · rw [List.flatten_cons, List.length_append, restLength, lengths,
              List.length_cons, Nat.succ_mul, Nat.add_comm]
          · rw [List.length_cons, Nat.add_right_cancel_iff, complete]
            rcases Nat.eq_zero_or_pos left with rfl | positive
            · have last : mcus - 1 = mcu := by
                omega
              rw [last]
              exact iff_of_true (.inl rfl) (.inr before)
            · omega

/-- `DecodeImage` comes to the first block with the pushed bytes. -/
theorem imageStart_comes
    (scan : Scan)
    (bytes : List Byte)
    {marker : Byte}
    (noStuffing : marker ≠ 0#8)
    (tail : List Byte) :
    ComesTo scan bytes 0
      (imageStart (stuff bytes ++ 0xFF :: marker :: tail)) := by
  obtain ⟨loaded, offset⟩ := imageStart_loaded bytes noStuffing tail
  exact ⟨loaded, .inl offset, offset, fun _ => rfl⟩

end Mcus

/-! ## The checks -/

section Checks

variable {scan : Scan} {mode : ImageMode} {mcus maxSize : Nat}
variable {bytes : List Byte} {padding : List Bool}

theorem takenOffset_mono
    {first second : Nat}
    (later : first ≤ second) :
    takenOffset scan bytes first ≤ takenOffset scan bytes second := by
  induction second, later using Nat.le_induction with
  | base => exact Nat.le_refl _
  | succ second later inductionHypothesis =>
      exact inductionHypothesis.trans (Nat.le_add_right _ _)

/-- `decode` ends well where its bits can be counted and its shift is one. -/
theorem Checked.decode_eq
    {dc ac : List DhtEntry} {s : BlockState}
    (room : s.bits.wrOffset + 4 ≤ maxSize)
    (none : s.samples = [])
    (shifts : (lookup dc (SoftwareJpegDecoder.window s.bits)).2.toNat ≤ 16)
    (fits : SoftwareJpegDecoder.OffsetFits (decodeLoop dc ac 64 0 s).bits) :
    Checked.decode maxSize dc ac s = .ok (decodeLoop dc ac 64 0 s) := by
  rw [Checked.decode, if_neg (Nat.not_lt.mpr shifts)]
  exact SoftwareJpegDecoder.decodeLoop_eq room (by simp [none]) fits

theorem Checked.decode_of_ok
    {dc ac : List DhtEntry} {s result : BlockState}
    (isDecoded : Checked.decode maxSize dc ac s = .ok result) :
    result = decodeLoop dc ac 64 0 s ∧
      (lookup dc (SoftwareJpegDecoder.window s.bits)).2.toNat ≤ 16 := by
  rw [Checked.decode] at isDecoded
  split at isDecoded
  · cases isDecoded
  next shifts =>
    exact
      ⟨SoftwareJpegDecoder.decodeLoop_of_ok isDecoded,
        Nat.not_lt.mp shifts⟩

theorem Checked.decodeBlock_of_ok
    {tables : Tables} {component : Component} {s : ImageState}
    {result : DecodedBlock × ImageState}
    (isDecoded : Checked.decodeBlock maxSize tables component s = .ok result) :
    result = Software.decodeBlock tables component s ∧
      (lookup (dhtEntries (tables.dc component))
        (SoftwareJpegDecoder.window s.bits)).2.toNat ≤ 16 := by
  obtain ⟨decoded, isBlock, isResult⟩ :=
    bind_eq_ok.mp isDecoded
  obtain ⟨rfl, shifts⟩ := Checked.decode_of_ok isBlock
  exact ⟨(Except.ok.inj isResult).symm, shifts⟩

theorem Checked.decodeBlocks_of_ok
    {tables : Tables} {components : List Component} {s : ImageState}
    {result : List DecodedBlock × ImageState}
    (isDecoded :
      Checked.decodeBlocks maxSize tables components s = .ok result) :
    result = Software.decodeBlocks tables components s := by
  induction components generalizing s result with
  | nil =>
      exact (Except.ok.inj isDecoded).symm
  | cons component rest inductionHypothesis =>
      obtain ⟨first, isFirst, goes⟩ :=
        bind_eq_ok.mp isDecoded
      obtain ⟨others, isOthers, isResult⟩ :=
        bind_eq_ok.mp goes
      obtain ⟨rfl, -⟩ := Checked.decodeBlock_of_ok isFirst
      obtain rfl := inductionHypothesis isOthers
      exact (Except.ok.inj isResult).symm

theorem Checked.decodeImage_of_ok
    {tables : Tables} {fuel : Nat} {s : ImageState}
    {decoded : List (List DecodedBlock)}
    (isDecoded :
      Checked.decodeImage maxSize tables mode fuel s = .ok (some decoded)) :
    Software.decodeImage tables mode fuel s = some decoded := by
  induction fuel generalizing s decoded with
  | zero =>
      cases isDecoded
  | succ fuel inductionHypothesis =>
      obtain ⟨ended, asked, goes⟩ :=
        bind_eq_ok.mp isDecoded
      obtain ⟨-, rfl⟩ := SoftwareJpegDecoder.eof_of_ok asked
      rw [Software.decodeImage]
      split at goes
      next ended =>
        rw [if_pos ended]
        exact Except.ok.inj goes
      next more =>
        rw [if_neg more]
        obtain ⟨mcu, isMcu, goes⟩ := bind_eq_ok.mp goes
        obtain ⟨rest, isRest, goes⟩ := bind_eq_ok.mp goes
        obtain rfl := Checked.decodeBlocks_of_ok isMcu
        obtain ⟨others, rfl, rfl⟩ :=
          Option.map_eq_some_iff.mp (Except.ok.inj goes)
        simp only [inductionHypothesis isRest, Option.map_some]

/-- Where the loop comes to a block, its DC symbol is the coded one or zeros. -/
theorem ComesTo.shifts_iff
    (packed : streamOf bytes = scan.bits ++ padding)
    {index : Nat} {coded : CodedBlock} {s : ImageState}
    (here : scan.blocks[index]? = some coded)
    (comes : ComesTo scan bytes index s) :
    (lookup (dhtEntries (scan.tables.dc (scan.order index)))
        (SoftwareJpegDecoder.window s.bits)).2.toNat ≤ 16 ↔
      ShiftsRight scan bytes index := by
  have ends := comes.inStep.eof_iff comes.loaded
  cases ended : s.bits.eof with
  | true =>
      have window : SoftwareJpegDecoder.window s.bits = 0 := by
        rw [SoftwareJpegDecoder.window, BitBuffer.readWord, if_pos ended]
        decide
      rw [window, lookup_zeros, ShiftsRight, imp_iff_right (ends.mp ended)]
  | false =>
      have before : ¬ 8 * bytes.length ≤ blockOffset scan index + 7 := by
        rw [← ends, ended]
        decide
      have code := scan.coded index coded here
      have starts := drop_blockOffset packed index
      rw [Scan.bitsFrom_eq here, CodedBlock.bits,
        ← comes.inStep.before comes.loaded ended] at starts
      simp only [List.append_assoc] at starts
      obtain ⟨shown, -⟩ :=
        read_symbol comes.loaded ended code.codes
          (by rw [length_magnitudeBits]; exact code.categorySmall) starts
      have symbolNat := runSize_toNat (Nat.zero_le 15) code.categorySmall
      have small := code.categorySmall
      rw [SoftwareJpegDecoder.window, shown]
      refine iff_of_true ?_ fun behind => absurd behind before
      simp only
      omega

theorem decodeBlock_bits
    (tables : Tables) (component : Component) (s : ImageState) :
    (decodeBlock tables component s).2.bits =
      (decodeLoop (dhtEntries (tables.dc component))
        (dhtEntries (tables.ac component)) 64 0
        { bits := s.bits
          olddccoeff := s.dcCoeff component
          samples := [] }).bits := rfl

/-- A block whose bits can be counted is decoded as without the checks. -/
theorem ComesTo.decodeBlock_eq
    (packed : streamOf bytes = scan.bits ++ padding)
    (room : bytes.length + 4 ≤ maxSize)
    {index : Nat} {coded : CodedBlock} {s : ImageState}
    (here : scan.blocks[index]? = some coded)
    (comes : ComesTo scan bytes index s)
    (countable : takenOffset scan bytes (index + 1) + 7 < 2 ^ 31)
    (shifts : ShiftsRight scan bytes index) :
    Checked.decodeBlock maxSize scan.tables (scan.order index) s =
      .ok (decodeBlock scan.tables (scan.order index) s) := by
  obtain ⟨-, next⟩ := decodeBlock_takes packed here comes
  let start : BlockState :=
    { bits := s.bits
      olddccoeff := s.dcCoeff (scan.order index)
      samples := [] }
  have offset := next.offset
  rw [decodeBlock_bits] at offset
  have fits : SoftwareJpegDecoder.OffsetFits
      (decodeLoop (dhtEntries (scan.tables.dc (scan.order index)))
        (dhtEntries (scan.tables.ac (scan.order index))) 64 0 start).bits := by
    rw [SoftwareJpegDecoder.OffsetFits, offset]
    exact countable
  have enough : start.bits.wrOffset + 4 ≤ maxSize := by
    change s.bits.wrOffset + 4 ≤ maxSize
    rw [comes.loaded.written]
    exact room
  have decoded :=
    Checked.decode_eq (s := start) enough rfl
      ((comes.shifts_iff packed here).mpr shifts) fits
  simp only [start] at decoded
  simp only [Checked.decodeBlock, decoded, decodeBlock, bind, Except.bind]

/-- The blocks of an MCU are decoded as without the checks. -/
theorem ComesTo.decodeBlocks_eq
    (packed : streamOf bytes = scan.bits ++ padding)
    (room : bytes.length + 4 ≤ maxSize)
    {components : List Component} {index : Nat} {s : ImageState}
    (inOrder :
      ∀ offset component,
        components[offset]? = some component →
          scan.order (index + offset) = component)
    (inScan : index + components.length ≤ scan.blocks.length)
    (comes : ComesTo scan bytes index s)
    (countable : takenOffset scan bytes scan.blocks.length + 7 < 2 ^ 31)
    (shifts : ∀ index < scan.blocks.length, ShiftsRight scan bytes index) :
    Checked.decodeBlocks maxSize scan.tables components s =
      .ok (decodeBlocks scan.tables components s) := by
  induction components generalizing index s with
  | nil =>
      rfl
  | cons component rest inductionHypothesis =>
      rw [List.length_cons] at inScan
      have isComponent : scan.order index = component := inOrder 0 _ rfl
      subst isComponent
      have here := List.getElem?_eq_getElem
        (show index < scan.blocks.length by omega)
      have before :=
        @takenOffset_mono scan bytes (index + 1) scan.blocks.length (by omega)
      have first := comes.decodeBlock_eq packed room here (by omega)
        (shifts index (by omega))
      have others :=
        @inductionHypothesis (index + 1) _
          (by
            intro offset other found
            rw [Nat.add_assoc, Nat.add_comm 1]
            exact inOrder (offset + 1) other found)
          (by omega) (decodeBlock_takes packed here comes).2
      rw [Checked.decodeBlocks, first]
      simp only [bind, Except.bind, others, decodeBlocks]

/-- What the DC differences of an MCU have been shifted by. -/
theorem ComesTo.shifts_of_ok
    (packed : streamOf bytes = scan.bits ++ padding)
    {components : List Component} {index : Nat} {s : ImageState}
    (inOrder :
      ∀ offset component,
        components[offset]? = some component →
          scan.order (index + offset) = component)
    (inScan : index + components.length ≤ scan.blocks.length)
    (comes : ComesTo scan bytes index s)
    {result : List DecodedBlock × ImageState}
    (isDecoded :
      Checked.decodeBlocks maxSize scan.tables components s = .ok result)
    {offset : Nat}
    (inside : offset < components.length) :
    ShiftsRight scan bytes (index + offset) := by
  induction components generalizing index s result offset with
  | nil =>
      simp at inside
  | cons component rest inductionHypothesis =>
      rw [List.length_cons] at inScan inside
      have isComponent : scan.order index = component := inOrder 0 _ rfl
      subst isComponent
      have here := List.getElem?_eq_getElem
        (show index < scan.blocks.length by omega)
      obtain ⟨first, isFirst, goes⟩ :=
        bind_eq_ok.mp isDecoded
      obtain ⟨others, isOthers, -⟩ :=
        bind_eq_ok.mp goes
      obtain ⟨rfl, shifts⟩ := Checked.decodeBlock_of_ok isFirst
      cases offset with
      | zero =>
          exact (comes.shifts_iff packed here).mp shifts
      | succ offset =>
          have later :=
            @inductionHypothesis (index + 1) _
              (by
                intro place other found
                rw [Nat.add_assoc, Nat.add_comm 1]
                exact inOrder (place + 1) other found)
              (by omega) (decodeBlock_takes packed here comes).2 _ isOthers
              offset (by omega)
          rwa [Nat.add_assoc, Nat.add_comm 1] at later

/-- A scan whose bits can be counted is decoded as without the checks. -/
theorem Packed.decodeImage_eq
    (packed : Packed scan mode mcus bytes)
    (room : bytes.length + 4 ≤ maxSize)
    (countable : takenOffset scan bytes scan.blocks.length + 7 < 2 ^ 31)
    (shifts : ∀ index < scan.blocks.length, ShiftsRight scan bytes index)
    {left mcu : Nat} {s : ImageState}
    (total : mcu + left = mcus)
    (comes : ComesTo scan bytes (mcu * (mcuComponents mode).length) s) :
    Checked.decodeImage maxSize scan.tables mode (left + 1) s =
      .ok (decodeImage scan.tables mode (left + 1) s) := by
  obtain ⟨count, few, padded⟩ := packed.padded
  induction left generalizing mcu s with
  | zero =>
      obtain rfl : mcu = mcus := total
      rw [← packed.wholeMcus] at comes
      have fits : SoftwareJpegDecoder.OffsetFits s.bits := by
        rw [SoftwareJpegDecoder.OffsetFits, comes.offset]
        exact countable
      rw [Checked.decodeImage, SoftwareJpegDecoder.eof_eq fits,
        packed.atEnd comes, decodeImage, if_pos (packed.atEnd comes)]
      rfl
  | succ left inductionHypothesis =>
      obtain ⟨inScan, inOrder⟩ :=
        packed.mcu (show mcu < mcus by omega)
      have before :=
        @takenOffset_mono scan bytes (mcu * (mcuComponents mode).length)
          scan.blocks.length (by omega)
      have fits : SoftwareJpegDecoder.OffsetFits s.bits := by
        rw [SoftwareJpegDecoder.OffsetFits, comes.offset]
        omega
      obtain ⟨-, -, next⟩ := decodeBlocks_takes padded inOrder inScan comes
      rw [← Nat.succ_mul] at next
      have blocks :=
        comes.decodeBlocks_eq padded room inOrder inScan countable shifts
      rw [Checked.decodeImage, SoftwareJpegDecoder.eof_eq fits, decodeImage]
      cases ended : s.bits.eof with
      | true => rfl
      | false =>
          simp only [bind, Except.bind, Bool.false_eq_true, if_false, blocks,
            inductionHypothesis (show mcu + 1 + left = mcus by omega) next]

/-- A scan that is decoded with the checks can be counted. -/
theorem Packed.checks_of_ok
    (packed : Packed scan mode mcus bytes)
    {left mcu fuel : Nat} {s : ImageState}
    {decoded : List (List DecodedBlock)}
    (total : mcu + left = mcus)
    (comes : ComesTo scan bytes (mcu * (mcuComponents mode).length) s)
    (isDecoded :
      Checked.decodeImage maxSize scan.tables mode fuel s =
        .ok (some decoded))
    (complete : decoded.length = left) :
    takenOffset scan bytes scan.blocks.length + 7 < 2 ^ 31 ∧
      ∀ index < scan.blocks.length,
        mcu * (mcuComponents mode).length ≤ index →
          ShiftsRight scan bytes index := by
  obtain ⟨count, few, padded⟩ := packed.padded
  induction left generalizing mcu fuel s decoded with
  | zero =>
      obtain rfl : mcu = mcus := total
      rw [← packed.wholeMcus] at comes ⊢
      cases fuel with
      | zero => cases isDecoded
      | succ fuel =>
          obtain ⟨ended, asked, -⟩ :=
            bind_eq_ok.mp isDecoded
          obtain ⟨fits, -⟩ := SoftwareJpegDecoder.eof_of_ok asked
          rw [SoftwareJpegDecoder.OffsetFits, comes.offset] at fits
          exact ⟨fits, fun index inside behind => by omega⟩
  | succ left inductionHypothesis =>
      cases fuel with
      | zero => cases isDecoded
      | succ fuel =>
          obtain ⟨inScan, inOrder⟩ :=
            packed.mcu (show mcu < mcus by omega)
          obtain ⟨-, -, next⟩ := decodeBlocks_takes padded inOrder inScan comes
          rw [← Nat.succ_mul] at next
          obtain ⟨ended, -, goes⟩ :=
            bind_eq_ok.mp isDecoded
          split at goes
          · obtain rfl := Option.some.inj (Except.ok.inj goes)
            cases complete
          · obtain ⟨blocks, isBlocks, goes⟩ :=
              bind_eq_ok.mp goes
            obtain ⟨rest, isRest, goes⟩ :=
              bind_eq_ok.mp goes
            obtain ⟨others, rfl, rfl⟩ :=
              Option.map_eq_some_iff.mp (Except.ok.inj goes)
            have here {offset : Nat} (inMcu : offset < _) :=
              comes.shifts_of_ok padded inOrder inScan isBlocks inMcu
            obtain rfl := Checked.decodeBlocks_of_ok isBlocks
            obtain ⟨countable, later⟩ :=
              inductionHypothesis (show mcu + 1 + left = mcus by omega) next
                isRest (Nat.succ.inj complete)
            refine ⟨countable, fun index inside behind => ?_⟩
            rcases Nat.lt_or_ge index
              ((mcu + 1) * (mcuComponents mode).length) with inMcu | further
            · rw [Nat.succ_mul] at inMcu
              have shifts :=
                @here (index - mcu * (mcuComponents mode).length) (by omega)
              rwa [Nat.add_sub_cancel' behind] at shifts
            · exact later index inside further

end Checks

/-! ## What is recovered -/

section Recovered

variable {scan : Scan} {bytes : List Byte}

/-- Equal differences make equal predictors. -/
theorem takenPredictor_eq
    {index : Nat}
    (same :
      ∀ earlier < index,
        takenDifference scan bytes earlier = scan.difference earlier)
    (component : Component) :
    takenPredictor scan bytes index component =
      scan.predictor index component := by
  induction index with
  | zero => rfl
  | succ index inductionHypothesis =>
      rw [takenPredictor, Scan.predictor, same index (Nat.lt_succ_self index),
        inductionHypothesis fun earlier sooner =>
          same earlier (Nat.lt_succ_of_lt sooner)]

/-- Where the DC coefficients are recovered, so are the differences. -/
theorem takenDifference_eq
    (recovered :
      ∀ index coded,
        scan.blocks[index]? = some coded →
          takenCoefficient scan bytes index coded 0 = scan.coefficient index 0)
    {index : Nat}
    (inScan : index < scan.blocks.length) :
    takenDifference scan bytes index = scan.difference index := by
  induction index using Nat.strong_induction_on with
  | _ index inductionHypothesis =>
      have predictors := @takenPredictor_eq scan bytes index
        (fun earlier sooner =>
          inductionHypothesis earlier sooner (sooner.trans inScan))
        (scan.order index)
      have value := recovered index _ (List.getElem?_eq_getElem inScan)
      rw [takenCoefficient, Scan.coefficient, if_pos rfl, if_pos rfl,
        Scan.dcValue, predictors] at value
      exact (BitVec.add_left_inj _).mp value

/-- Every coefficient is recovered just if the end says what zeros say. -/
theorem recovers_iff
    (scan : Scan) (bytes : List Byte) :
    (∀ index coded,
        scan.blocks[index]? = some coded →
          ∀ position < 64,
            takenCoefficient scan bytes index coded position =
              scan.coefficient index position) ↔
      SaysZeros scan bytes := by
  have inside {index : Nat} {coded : CodedBlock}
      (here : scan.blocks[index]? = some coded) :
      index < scan.blocks.length :=
    (List.getElem?_eq_some_iff.mp here).1
  have difference {index : Nat} {coded : CodedBlock}
      (here : scan.blocks[index]? = some coded) :
      scan.difference index = BitVec.ofInt 16 coded.block.difference := by
    rw [Scan.difference, here]
    rfl
  have others {index position : Nat} {coded : CodedBlock}
      (here : scan.blocks[index]? = some coded)
      (positive : position ≠ 0) :
      scan.coefficient index position =
        acCoefficient 1 coded.block.symbols position := by
    rw [Scan.coefficient, if_neg positive, here]
    rfl
  have reaches {index : Nat} {coded : CodedBlock}
      (here : scan.blocks[index]? = some coded) :
      1 ≤ blockReached scan bytes index coded :=
    le_acReached (scan.coded index coded here).coded _ _
  constructor
  · intro recovered
    refine ⟨?_, ?_⟩
    · intro index coded here behind
      have same := takenDifference_eq
        (fun index coded here => recovered index coded here 0 (by decide))
        (inside here)
      rw [takenDifference, if_neg (by omega), difference here] at same
      exact same.symm
    · intro index coded here position inBlock reached
      have positive : position ≠ 0 := by
        have first := reaches here
        omega
      have same := recovered index coded here position inBlock
      rw [takenCoefficient, if_neg positive, if_neg (by omega),
        others here positive] at same
      exact same.symm
  · intro zeros index coded here position inBlock
    have differences (other : Nat) (inScan : other < scan.blocks.length) :
        takenDifference scan bytes other = scan.difference other := by
      have found := List.getElem?_eq_getElem inScan
      rw [takenDifference]
      split
      · rfl
      · rw [difference found, zeros.differences other _ found (by omega)]
    rw [takenCoefficient]
    split
    next first =>
      rw [first, Scan.coefficient, if_pos rfl, Scan.dcValue,
        differences index (inside here),
        takenPredictor_eq fun earlier sooner =>
          differences earlier (sooner.trans (inside here))]
    next positive =>
      rw [others here positive]
      split
      · rfl
      · exact (zeros.acCoefficients index coded here position inBlock
          (by omega)).symm

/--
`DecodeImage` recovers a scan exactly if its last MCU starts before the last
seven bits of its bytes, the codes within these bits say what zeros say, and
the bits that are taken can be counted in an `int`.
-/
theorem decodeImage_recovers
    {mode : ImageMode} {mcus maxSize : Nat}
    (packed : Packed scan mode mcus bytes)
    (room : bytes.length + 4 ≤ maxSize)
    {marker : Byte}
    (noStuffing : marker ≠ 0#8)
    (tail : List Byte) :
    Recovers scan mode mcus maxSize (stuff bytes ++ 0xFF :: marker :: tail) ↔
      ZeroTail scan mode mcus bytes := by
  have comes := imageStart_comes scan bytes noStuffing tail
  rw [← Nat.zero_mul (mcuComponents mode).length] at comes
  obtain ⟨decoded, isDecoded, takes, flat, complete⟩ :=
    decodeImage_takes packed (Nat.zero_add mcus) comes
  rw [Nat.zero_mul] at takes
  have someMcus := packed.someMcus
  constructor
  · rintro ⟨fuel, others, isOthers, mcuCount, blockCount, isRight⟩
    obtain ⟨countable, shifts⟩ :=
      packed.checks_of_ok (Nat.zero_add mcus) comes isOthers mcuCount
    obtain rfl :=
      decodeImage_unique (Checked.decodeImage_of_ok isOthers) isDecoded
    refine ⟨(recovers_iff scan bytes).mp ?_, ?_, countable,
      fun index inside => shifts index inside (by omega)⟩
    · intro index coded here position inBlock
      have inFlat : index < others.flatten.length := by
        rw [blockCount]
        exact (List.getElem?_eq_some_iff.mp here).1
      have found := List.getElem?_eq_getElem inFlat
      obtain ⟨other, isOther, taken⟩ := takes index _ found
      rw [Nat.zero_add] at isOther taken
      obtain rfl := Option.some.inj (here.symm.trans isOther)
      rw [← taken.coefficients position inBlock]
      exact (isRight index _ found).2 position inBlock
    · rcases complete.mp mcuCount with empty | before
      · omega
      · exact before
  · intro zeros
    have mcuCount := complete.mpr (.inr zeros.lastMcu)
    have checked :=
      packed.decodeImage_eq room zeros.countable zeros.shiftsRight
        (Nat.zero_add mcus) comes
    rw [isDecoded] at checked
    refine ⟨mcus + 1, decoded, checked, mcuCount, ?_, ?_⟩
    · rw [flat, mcuCount, packed.wholeMcus]
    · intro index block found
      obtain ⟨coded, here, taken⟩ := takes index block found
      rw [Nat.zero_add] at here taken
      refine ⟨taken.component, fun position inBlock => ?_⟩
      rw [taken.coefficients position inBlock]
      exact (recovers_iff scan bytes).mpr zeros.toSaysZeros index coded here
        position inBlock

end Recovered

/-! ## One grey block -/

section OneBlock

/-- A table with the code words `0` and `10`. -/
def twoWords (zero oneZero : BitVec 8) : Table where
  entries := [([false], zero), ([true, false], oneZero)]
  prefixFree := by
    intro first firstIn second secondIn
    simp only [List.mem_cons, List.not_mem_nil, or_false] at firstIn secondIn
    rcases firstIn with rfl | rfl <;> rcases secondIn with rfl | rfl <;>
      simp
  widths := by
    intro entry member
    simp only [List.mem_cons, List.not_mem_nil, or_false] at member
    rcases member with rfl | rfl <;> simp

/-- A grey image of one block without coefficients. -/
def greyBlock
    (acTable : Table)
    (word : List Bool)
    (codes : acTable.Codes word endOfBlock) : Scan where
  order := McuProc.componentOrder .monochrome
  tables :=
    { yDc := twoWords 0x00 0x01
      yAc := acTable
      cxDc := twoWords 0x00 0x01
      cxAc := acTable }
  blocks := [⟨⟨0, []⟩, [false], word⟩]
  coded := by
    intro index coded here
    have only : coded = ⟨⟨0, []⟩, [false], word⟩ := by
      simpa using List.mem_of_getElem? here
    subst only
    have dcCode : (twoWords 0x00 0x01).Codes [false] (runSize 0 0) := by
      decide
    exact
      { categorySmall := Nat.zero_le 15
        codes := dcCode
        coded := .endOfBlock (by decide) codes }

/-- Where the code word of zeros ends a block, the block is recovered. -/
theorem decodeImage_recovers_grey :
    Recovers
      (greyBlock (twoWords 0x00 0x01) [false] (by decide))
      .monochrome 1 5 [0x3F, 0xFF, 0xD9] := by
  have packed : Packed (greyBlock (twoWords 0x00 0x01) [false] (by decide))
      .monochrome 1 [0x3F] :=
    { supported := by decide
      inOrder := rfl
      someMcus := by decide
      wholeMcus := rfl
      padded := ⟨6, by decide, by decide⟩ }
  refine (decodeImage_recovers packed (by decide : [(0x3F : Byte)].length + 4 ≤ 5)
    (by decide : (0xD9 : Byte) ≠ 0#8) []).mpr ?_
  refine ⟨⟨?_, ?_⟩, by decide, by decide, ?_⟩
  · intro index coded here behind
    cases index with
    | zero => exact absurd behind (by decide)
    | succ index => simp [greyBlock] at here
  · intro index coded here
    cases index with
    | zero =>
        obtain rfl := Option.some.inj here
        decide +kernel
    | succ index => simp [greyBlock] at here
  · intro index inside
    have first : index = 0 := by
      simpa [greyBlock] using inside
    subst first
    exact fun behind => absurd behind (by decide)

/--
A block is not recovered when the code word of zeros does not end it: the loop
takes zeros for the last code and decodes coefficients that are not there.
-/
theorem decodeImage_spoils_block :
    ¬ ∀ (scan : Scan) (mode : ImageMode) (mcus maxSize : Nat)
        (bytes : List Byte) (marker : Byte) (tail : List Byte),
      Packed scan mode mcus bytes → bytes.length + 4 ≤ maxSize →
      marker ≠ 0#8 →
      Recovers scan mode mcus maxSize
        (stuff bytes ++ 0xFF :: marker :: tail) := by
  intro claimed
  have packed : Packed (greyBlock (twoWords 0x01 0x00) [true, false] (by decide))
      .monochrome 1 [0x5F] :=
    { supported := by decide
      inOrder := rfl
      someMcus := by decide
      wholeMcus := rfl
      padded := ⟨5, by decide, by decide⟩ }
  obtain ⟨fuel, decoded, isChecked, _, blockCount, isRight⟩ :=
    claimed _ _ _ 5 _ 0xD9 [] packed (by decide) (by decide)
  have isDecoded := Checked.decodeImage_of_ok isChecked
  have run :
      (decodeImage
          (greyBlock (twoWords 0x01 0x00) [true, false] (by decide)).tables
          .monochrome 2 (imageStart [0x5F, 0xFF, 0xD9])).map
        (fun decoded =>
          decoded.flatten[0]?.map fun block => coefficients block.samples 1) =
        some (some 0xFFFF) := by
    decide +kernel
  obtain ⟨others, isOthers, value⟩ := Option.map_eq_some_iff.mp run
  obtain rfl := decodeImage_unique isDecoded isOthers
  obtain ⟨block, found, isValue⟩ := Option.map_eq_some_iff.mp value
  have coefficient := (isRight 0 block found).2 1 (by decide)
  rw [isValue] at coefficient
  exact absurd coefficient (by decide +kernel)

end OneBlock

end CoreJpeg.Software
