import CoreJpeg.McuFrame

namespace CoreJpeg.McuProc

/-!
# Every block is decoded as it was coded

The decoding invariant follows the FSM through one block: the code that is due,
the lookup that waits, the answer that is in, the block that is complete.  One
lemma a state shows what a cycle makes of it; together they show that each
group between end-of-block pulses is the block of the scan with the same
number, for every stall of the neighbours.
-/

open EntropyCode BitString

/-! ## Stages of a block -/

/-- The code that is due: the DC code, or an AC code at a zigzag index. -/
inductive Stage where
  | dc
  | ac (position : Nat) (symbols : List AcSymbol)

namespace Stage

/-- `coeff_idx_q` once the code of a stage has been asked for. -/
def index : Stage → Nat
  | dc => 0
  | ac position _ => position

/-- `coeff_idx_q` before the code of a stage is asked for. -/
def fetchIndex : Stage → Nat
  | dc => 0
  | ac position _ => position - 1

end Stage

/--
The samples shown are the coefficients before a zigzag index, and the symbols
to come code the others.
-/
structure Progress
    (scan : Scan)
    (index : Nat)
    (samples : List Sample)
    (position : Nat)
    (symbols : List AcSymbol) : Prop where
  positive : 1 ≤ position
  written :
    ∀ place < position,
      readSamples samples place = scan.coefficient index place
  unwritten : ∀ place, position ≤ place → readSamples samples place = 0
  remaining :
    ∀ place, position ≤ place →
      scan.coefficient index place = acCoefficient position symbols place
  typed :
    ∀ sample ∈ samples,
      sample.id.extractLsb' 30 2 =
        (BlockType.ofComponent (scan.order index)).code

/-- What holds of the shown samples and the block's bits left at a stage. -/
def Reached
    (scan : Scan)
    (index : Nat)
    (coded : CodedBlock)
    (mcu : State)
    (samples : List Sample)
    (rest : List Bool) : Stage → Prop
  | .dc => mcu.firstQ = true ∧ samples = [] ∧ rest = coded.bits
  | .ac position symbols =>
      mcu.firstQ = false ∧ position ≤ 63 ∧
        mcu.dcCoeffQ = scan.dcValue index ∧
        Progress scan index samples position symbols ∧
        AcCode (scan.tables.ac (scan.order index)) position symbols rest

/-- The block being decoded, with its bits that are left. -/
structure InBlock
    (scan : Scan)
    (mode : ImageMode)
    (padding : List Bool)
    (index : Nat)
    (coded : CodedBlock)
    (rest : List Bool)
    (system : System)
    (record : Record) : Prop where
  frame :
    Frame scan mode index
      (rest ++ (scan.bitsFrom (index + 1) ++ padding)) system record
  here : scan.blocks[index]? = some coded
  popped : record.current.popped ++ rest = coded.bits

/-- A new word of the input starts with what is left of the block. -/
def Shows16 (rest : List Bool) (input : BitVec 16) : Prop :=
  ∀ bits : List Bool, bits <+: rest → bits.length ≤ 16 →
    bits <+: bitsOf input

/-! ## The states of the FSM -/

section Phases

variable (scan : Scan) (mode : ImageMode) (padding : List Bool)
variable (index : Nat) (coded : CodedBlock)
variable (system : System) (record : Record)

/-- `STATE_IDLE` between two blocks. -/
structure Between : Prop where
  frame :
    Frame scan mode index (scan.bitsFrom index ++ padding) system record
  state : system.mcu.stateQ = .idle
  idx : system.mcu.coeffIdxQ = 0
  quiet : system.mcu.pushQ = false
  empty : record.current = ⟨[], []⟩

/-- `STATE_FETCH_WORD` with a code due. -/
structure Fetching (stage : Stage) (rest : List Bool) : Prop where
  block : InBlock scan mode padding index coded rest system record
  state : system.mcu.stateQ = .fetchWord
  idx : system.mcu.coeffIdxQ.toNat = stage.fetchIndex
  reached :
    Reached scan index coded system.mcu
      (record.current.samples ++ shownSample system.mcu) rest stage

/-- `STATE_HUFF_LOOKUP`. -/
structure Looking (stage : Stage) (rest : List Bool) : Prop where
  block : InBlock scan mode padding index coded rest system record
  state : system.mcu.stateQ = .huffLookup
  idx : system.mcu.coeffIdxQ.toNat = stage.index
  quiet : system.mcu.pushQ = false
  valid : BitBuffer.outportValid system.buffer = true
  waiting :
    ∃ input, Shows16 rest input ∧
      system.pending = [{ table := lookupTable system.mcu, input := input }]
  reached :
    Reached scan index coded system.mcu record.current.samples rest stage

/-- `STATE_OUTPUT`. -/
structure Answered
    (stage : Stage)
    (rest word : List Bool)
    (symbol : BitVec 8) : Prop where
  block : InBlock scan mode padding index coded rest system record
  state : system.mcu.stateQ = .output
  idx : system.mcu.coeffIdxQ.toNat = stage.index
  quiet : system.mcu.pushQ = false
  valid : BitBuffer.outportValid system.buffer = true
  codes : (tableOf scan.tables (lookupTable system.mcu)).Codes word symbol
  starts : word <+: rest
  code : system.mcu.codeQ = symbol
  width : system.mcu.lookupWidthQ.toNat = word.length
  behind :
    ∀ field : List Bool, word ++ field <+: rest → field.length ≤ 15 →
      field <+: bitsOf system.mcu.inputDataQ
  reached :
    Reached scan index coded system.mcu record.current.samples rest stage

/-- `STATE_FETCH_WORD` when the block is complete. -/
structure Closed : Prop where
  block : InBlock scan mode padding index coded [] system record
  state : system.mcu.stateQ = .fetchWord
  idx : 63 ≤ system.mcu.coeffIdxQ.toNat
  dcKept : system.mcu.dcCoeffQ = scan.dcValue index
  shown :
    Group.Shows
      { samples := record.current.samples ++ shownSample system.mcu
        popped := record.current.popped }
      scan index

/-- `STATE_EOB`. -/
structure Ending : Prop where
  block : InBlock scan mode padding index coded [] system record
  state : system.mcu.stateQ = .eob
  quiet : system.mcu.pushQ = false
  dcKept : system.mcu.dcCoeffQ = scan.dcValue index
  shown :
    Group.Shows
      { samples := record.current.samples ++ shownSample system.mcu
        popped := record.current.popped }
      scan index

/-- A block of the scan is due or being decoded. -/
inductive Decoding : Prop
  | between (phase : Between scan mode padding index system record)
  | fetching (stage : Stage) (rest : List Bool)
      (phase :
        Fetching scan mode padding index coded system record stage rest)
  | looking (stage : Stage) (rest : List Bool)
      (phase :
        Looking scan mode padding index coded system record stage rest)
  | answered (stage : Stage) (rest word : List Bool) (symbol : BitVec 8)
      (phase :
        Answered scan mode padding index coded system record stage rest word
          symbol)
  | closed (phase : Closed scan mode padding index coded system record)
  | ending (phase : Ending scan mode padding index coded system record)

end Phases

/-! ## Registers after a cycle -/

section Registers

variable {tables : Tables} {mode : ImageMode}
variable {system : System} {cycle : Cycle}

/-- The FSM moves to the state `nextStateR` chooses. -/
theorem step_stateQ
    (promised : Promised tables mode system cycle) :
    (system.step cycle).mcu.stateQ =
      nextStateR system.mcu (system.mcuInput cycle) := by
  simp [System.step, step, System.mcuInput, promised.noReset]

/-- The coefficient index moves to the one `coeffIdxNext` chooses. -/
theorem step_coeffIdxQ
    (promised : Promised tables mode system cycle) :
    (system.step cycle).mcu.coeffIdxQ =
      coeffIdxNext system.mcu (system.mcuInput cycle) := by
  simp [System.step, step, System.mcuInput, promised.noReset]

/-- A sample is pushed from the output state and after the image. -/
theorem step_pushQ
    (promised : Promised tables mode system cycle) :
    (system.step cycle).mcu.pushQ =
      (system.mcu.stateQ == .output || system.mcu.stateQ == .eof) := by
  simp [System.step, step, System.mcuInput, promised.noReset]

/-- The first code of a block is due from the idle state to its output. -/
theorem step_firstQ
    (promised : Promised tables mode system cycle) :
    (system.step cycle).mcu.firstQ =
      if system.mcu.stateQ == .idle then true
      else if system.mcu.stateQ == .output then false
      else system.mcu.firstQ := by
  simp [System.step, step, System.mcuInput, promised.noReset]

/-- The DC register changes only in the output state. -/
theorem step_dcCoeffQ
    (promised : Promised tables mode system cycle) :
    (system.step cycle).mcu.dcCoeffQ =
      if system.mcu.stateQ == .output && system.mcu.coeffIdxQ == 0 then
        coeffR system.mcu
      else system.mcu.dcCoeffQ := by
  simp [System.step, step, System.mcuInput, promised.noReset]

/-- The coefficient register changes only in the output state. -/
theorem step_coeffQ
    (promised : Promised tables mode system cycle) :
    (system.step cycle).mcu.coeffQ =
      if system.mcu.stateQ == .output then coeffR system.mcu
      else system.mcu.coeffQ := by
  simp [System.step, step, System.mcuInput, promised.noReset]

/-- The bit buffer stays valid while nothing is popped. -/
theorem step_valid
    (promised : Promised tables mode system cycle)
    (sound : BitBuffer.Sound system.buffer)
    (valid : BitBuffer.outportValid system.buffer = true)
    (popsNothing : system.popped cycle = 0) :
    BitBuffer.outportValid (system.step cycle).buffer = true := by
  apply BitBuffer.outportValid_step sound
  · simp [System.bufferInput, promised.noReset, promised.noStart]
  · exact valid
  · exact popsNothing

end Registers

/-! ## Lookups -/

section Lookups

variable {scan : Scan} {mode : ImageMode} {padding : List Bool}
variable {index : Nat} {coded : CodedBlock} {stage : Stage}
variable {rest : List Bool} {samples : List Sample}
variable {system : System} {record : Record} {cycle : Cycle}

/-- What is known at a stage depends on two registers of the decoder. -/
theorem Reached.transfer
    {before after : State}
    (reached : Reached scan index coded before samples rest stage)
    (firstKept : after.firstQ = before.firstQ)
    (dcKept : after.dcCoeffQ = before.dcCoeffQ) :
    Reached scan index coded after samples rest stage := by
  cases stage with
  | dc =>
      exact ⟨by rw [firstKept]; exact reached.1, reached.2⟩
  | ac position symbols =>
      obtain ⟨first, inBlock, dc, progress, code⟩ := reached
      exact ⟨by rw [firstKept]; exact first, inBlock,
        by rw [dcKept]; exact dc, progress, code⟩

/-- The first code of a block is looked up in the component's DC table. -/
theorem tableOf_lookupTable_dc
    {mcu : State}
    (first : mcu.firstQ = true)
    {component : Component}
    (typed : mcu.id.blockTypeQ = BlockType.ofComponent component)
    (tables : Tables) :
    tableOf tables (lookupTable mcu) = tables.dc component := by
  cases component <;>
    simp [lookupTable, first, typed, BlockType.ofComponent, tableOf,
      Tables.dc]

/-- The other codes of a block are looked up in its AC table. -/
theorem tableOf_lookupTable_ac
    {mcu : State}
    (notFirst : mcu.firstQ = false)
    {component : Component}
    (typed : mcu.id.blockTypeQ = BlockType.ofComponent component)
    (tables : Tables) :
    tableOf tables (lookupTable mcu) = tables.ac component := by
  cases component <;>
    simp [lookupTable, notFirst, typed, BlockType.ofComponent, tableOf,
      Tables.ac]

/-- At every stage a code of the table in use starts the block's bits. -/
theorem Reached.codeDue
    {mcu : State}
    (reached : Reached scan index coded mcu samples rest stage)
    (here : scan.blocks[index]? = some coded)
    (typed :
      mcu.id.blockTypeQ = BlockType.ofComponent (scan.order index)) :
    ∃ word symbol,
      (tableOf scan.tables (lookupTable mcu)).Codes word symbol ∧
        word <+: rest := by
  cases stage with
  | dc =>
      obtain ⟨first, -, bits⟩ := reached
      have code := scan.coded index coded here
      refine
        ⟨coded.dcWord, runSize 0 (category coded.block.difference), ?_, ?_⟩
      · rw [tableOf_lookupTable_dc first typed]
        exact code.codes
      · rw [bits]
        exact List.prefix_append _ _
  | ac position symbols =>
      obtain ⟨notFirst, inBlock, -, -, code⟩ := reached
      rw [tableOf_lookupTable_ac notFirst typed]
      cases code with
      | full =>
          omega
      | endOfBlock _ codes =>
          exact ⟨_, _, codes, List.prefix_refl _⟩
      | zeros _ codes _ =>
          exact ⟨_, _, codes, List.prefix_append _ _⟩
      | value _ _ _ _ codes _ =>
          exact ⟨_, _, codes, List.prefix_append _ _⟩

/-- A code word has one to sixteen bits. -/
theorem word_length
    {table : Table}
    {word : List Bool}
    {symbol : BitVec 8}
    (codes : table.Codes word symbol) :
    1 ≤ word.length ∧ word.length ≤ 16 :=
  table.widths (word, symbol) codes

/-- The lookup input shows what is left of the block. -/
theorem InBlock.shows16
    (block : InBlock scan mode padding index coded rest system record)
    (valid : BitBuffer.outportValid system.buffer = true) :
    Shows16 rest (lookupInput (system.mcuInput cycle)) := by
  intro bits starts short
  have undecoded : bits <+: system.undecoded := by
    rw [block.frame.undecoded]
    exact starts.trans (List.prefix_append _ _)
  have inWindow :=
    (System.starts_window block.frame.drained valid (by omega) undecoded).2
  have upper :
      bitsOf (lookupInput (system.mcuInput cycle)) =
        (bitsOf (BitBuffer.outportData system.buffer)).take 16 := by
    have field := bitsOf_field (BitBuffer.outportData system.buffer)
      (show 0 + 16 ≤ 32 by omega)
    rw [List.drop_zero] at field
    rw [← field]
    rfl
  rw [upper]
  exact List.prefix_take_iff.mpr ⟨inWindow, short⟩

end Lookups

/-! ## One cycle in each state -/

section Cycles

variable {scan : Scan} {mode : ImageMode} {padding : List Bool}
variable {index : Nat} {coded : CodedBlock} {stage : Stage}
variable {rest word : List Bool} {symbol : BitVec 8}
variable {system : System} {record : Record} {cycle : Cycle}

/-- Without an end-of-block pulse the sample on the pins is collected. -/
theorem after_samples
    (notEob : system.mcu.stateQ ≠ .eob)
    (notEof : system.mcu.stateQ ≠ .eof) :
    (record.after system cycle).current.samples =
      record.current.samples ++ shownSample system.mcu := by
  rw [record.after_running (by simp [outportEob, notEob, notEof])]

/-- Nothing is on the pins when nothing was pushed. -/
theorem shownSample_quiet
    {mcu : State}
    (quiet : mcu.pushQ = false) :
    shownSample mcu = [] := by
  simp [shownSample, outportValid, quiet]

/-- A cycle that pops nothing keeps the block and its bits. -/
theorem InBlock.quiet
    (block : InBlock scan mode padding index coded rest system record)
    (promised : Promised scan.tables mode system cycle)
    (imageOpen : OpenAtStart system)
    (notEob : system.mcu.stateQ ≠ .eob)
    (notEof : system.mcu.stateQ ≠ .eof)
    (notOutput : system.mcu.stateQ ≠ .output) :
    InBlock scan mode padding index coded rest (system.step cycle)
      (record.after system cycle) := by
  have popsNothing := popped_eq_zero notOutput cycle
  refine ⟨?_, block.here, ?_⟩
  · exact block.frame.quiet promised imageOpen notEob notEof popsNothing
  · rw [record.after_running (by simp [outportEob, notEob, notEof]),
      poppedBits_eq_nil popsNothing, List.append_nil]
    exact block.popped

/-- `STATE_IDLE`: the decoder waits or begins the next block. -/
theorem Between.advance
    (between : Between scan mode padding index system record)
    (here : scan.blocks[index]? = some coded)
    (promised : Promised scan.tables mode system cycle)
    (imageOpen : OpenAtStart system) :
    Decoding scan mode padding index coded (system.step cycle)
      (record.after system cycle) := by
  have state := between.state
  have openNow := imageOpen state
  have frame :=
    between.frame.quiet promised imageOpen (by simp [state])
      (by simp [state]) (popped_eq_zero (by simp [state]) cycle)
  have empty : (record.after system cycle).current = ⟨[], []⟩ := by
    rw [record.after_running (by simp [outportEob, state]),
      poppedBits_eq_nil (popped_eq_zero (by simp [state]) cycle),
      between.empty, shownSample_quiet between.quiet]
    rfl
  have idx : (system.step cycle).mcu.coeffIdxQ = 0 := by
    rw [step_coeffIdxQ promised]
    simp [coeffIdxNext, state, System.mcuInput, promised.noStart,
      between.idx]
  have quiet : (system.step cycle).mcu.pushQ = false := by
    rw [step_pushQ promised]
    simp [state]
  by_cases begins :
      BitBuffer.outportValid system.buffer && cycle.outportBlkSpace
  · refine .fetching .dc coded.bits ⟨⟨?_, here, ?_⟩, ?_, ?_, ?_, ?_, ?_⟩
    · rw [Scan.bitsFrom_eq here, List.append_assoc] at frame
      exact frame
    · rw [empty]
      rfl
    · rw [step_stateQ promised]
      simp [nextStateR, state, System.mcuInput, promised.noStart, openNow,
        begins]
    · rw [idx]
      rfl
    · rw [step_firstQ promised]
      simp [state]
    · rw [empty, shownSample_quiet quiet]
      rfl
    · rfl
  · refine .between ⟨frame, ?_, idx, quiet, empty⟩
    rw [step_stateQ promised]
    simp [nextStateR, state, System.mcuInput, promised.noStart, openNow,
      begins]

/-- The decoder keeps what it knows at a stage over a quiet cycle. -/
theorem Reached.quiet
    {samples : List Sample}
    (reached : Reached scan index coded system.mcu samples rest stage)
    (promised : Promised scan.tables mode system cycle)
    (notIdle : system.mcu.stateQ ≠ .idle)
    (notOutput : system.mcu.stateQ ≠ .output) :
    Reached scan index coded (system.step cycle).mcu samples rest stage := by
  apply reached.transfer
  · rw [step_firstQ promised]
    simp [notIdle, notOutput]
  · rw [step_dcCoeffQ promised]
    simp [notOutput]

/-- While a code is due the coefficient index is not the last. -/
theorem Fetching.notLast
    (fetching :
      Fetching scan mode padding index coded system record stage rest) :
    system.mcu.coeffIdxQ < 63#8 := by
  have idx := fetching.idx
  have known := fetching.reached
  change system.mcu.coeffIdxQ.toNat < 63
  cases stage with
  | dc =>
      simp only [Stage.fetchIndex] at idx
      omega
  | ac position symbols =>
      have inBlock := known.2.1
      have positive := known.2.2.2.1.positive
      simp only [Stage.fetchIndex] at idx
      omega

/-- `STATE_FETCH_WORD`: the decoder waits for a window or asks for a code. -/
theorem Fetching.advance
    (fetching :
      Fetching scan mode padding index coded system record stage rest)
    (promised : Promised scan.tables mode system cycle)
    (inTime : AnsweredInTime system cycle) :
    Decoding scan mode padding index coded (system.step cycle)
      (record.after system cycle) := by
  have state := fetching.state
  have imageOpen : OpenAtStart system := by
    simp [OpenAtStart, state]
  have block :=
    fetching.block.quiet promised imageOpen (by simp [state])
      (by simp [state]) (by simp [state])
  have reached :=
    fetching.reached.quiet promised (by simp [state]) (by simp [state])
  have samples :=
    @after_samples system record cycle (by simp [state]) (by simp [state])
  rw [← samples] at reached
  have quiet : (system.step cycle).mcu.pushQ = false := by
    rw [step_pushQ promised]
    simp [state]
  have notLast := fetching.notLast
  have idxNext :
      (system.step cycle).mcu.coeffIdxQ.toNat =
        if BitBuffer.outportValid system.buffer then stage.index
        else stage.fetchIndex := by
    rw [step_coeffIdxQ promised]
    have idx := fetching.idx
    have known := fetching.reached
    cases stage with
    | dc =>
        have first := known.1
        simp only [Stage.fetchIndex] at idx
        simp [coeffIdxNext, state, System.mcuInput, promised.noStart, first,
          idx, Stage.index, Stage.fetchIndex]
    | ac position symbols =>
        have notFirst := known.1
        have inBlock := known.2.1
        have positive := known.2.2.2.1.positive
        simp only [Stage.fetchIndex] at idx
        cases valid : BitBuffer.outportValid system.buffer with
        | false =>
            simp [coeffIdxNext, state, System.mcuInput, promised.noStart,
              valid, idx, Stage.fetchIndex]
        | true =>
            simp [coeffIdxNext, state, System.mcuInput, promised.noStart,
              notFirst, valid, idx, Stage.index]
            omega
  cases valid : BitBuffer.outportValid system.buffer with
  | false =>
      rw [valid] at idxNext
      refine .fetching stage rest ⟨block, ?_, idxNext, ?_⟩
      · rw [step_stateQ promised]
        simp [nextStateR, state, System.mcuInput, promised.noStart, notLast,
          valid]
      · rwa [shownSample_quiet quiet, List.append_nil]
  | true =>
      rw [valid] at idxNext
      have asks : system.asked cycle =
          [{ table := lookupTable system.mcu
             input := lookupInput (system.mcuInput cycle) }] := by
        simp [System.asked, lookupReq, state, System.mcuInput, valid]
      have answered : system.unanswered cycle = [] := by
        rcases inTime with unasked | answered
        · rw [asks] at unasked
          exact absurd unasked (List.cons_ne_nil _ _)
        · exact answered
      have sameTable :
          lookupTable (system.step cycle).mcu = lookupTable system.mcu := by
        have firstKept :
            (system.step cycle).mcu.firstQ = system.mcu.firstQ := by
          rw [step_firstQ promised]
          simp [state]
        have typeKept :
            (system.step cycle).mcu.id.blockTypeQ =
              system.mcu.id.blockTypeQ := by
          rw [block.frame.atBlock.typed,
            fetching.block.frame.atBlock.typed]
        simp [lookupTable, firstKept, typeKept]
      refine .looking stage rest ⟨block, ?_, idxNext, quiet, ?_, ?_, reached⟩
      · rw [step_stateQ promised]
        simp [nextStateR, state, System.mcuInput, promised.noStart, notLast,
          valid]
      · exact step_valid promised fetching.block.frame.sound valid
          (popped_eq_zero (by simp [state]) cycle)
      · refine
          ⟨lookupInput (system.mcuInput cycle),
            fetching.block.shows16 valid, ?_⟩
        rw [sameTable, ← asks]
        simp [System.step, answered]

/-- The input register holds the 16 bits behind the code. -/
theorem bitsOf_inputShift
    {i : Input}
    (width : i.lookupWidth.toNat = word.length)
    (short : 1 ≤ word.length ∧ word.length ≤ 16) :
    bitsOf ((inputShift i).setWidth 16) =
      ((bitsOf i.inportData).drop word.length).take 16 := by
  have amount : ((16 : BitVec 5) - i.lookupWidth).toNat =
      32 - word.length - 16 := by
    bv_omega
  have field := bitsOf_field i.inportData
    (show word.length + 16 ≤ 32 by omega)
  rw [← field, inputShift, BitVec.ushiftRight_eq', amount]

/-- `STATE_HUFF_LOOKUP`: the decoder waits or takes the answer in. -/
theorem Looking.advance
    (looking :
      Looking scan mode padding index coded system record stage rest)
    (promised : Promised scan.tables mode system cycle)
    (inOrder : scan.order = componentOrder mode) :
    Decoding scan mode padding index coded (system.step cycle)
      (record.after system cycle) := by
  have state := looking.state
  have imageOpen : OpenAtStart system := by
    simp [OpenAtStart, state]
  have block :=
    looking.block.quiet promised imageOpen (by simp [state])
      (by simp [state]) (by simp [state])
  have reached :=
    looking.reached.quiet promised (by simp [state]) (by simp [state])
  have samples :=
    @after_samples system record cycle (by simp [state]) (by simp [state])
  rw [shownSample_quiet looking.quiet, List.append_nil] at samples
  rw [← samples] at reached
  have quiet : (system.step cycle).mcu.pushQ = false := by
    rw [step_pushQ promised]
    simp [state]
  have idx : (system.step cycle).mcu.coeffIdxQ.toNat = stage.index := by
    rw [step_coeffIdxQ promised, ← looking.idx]
    simp [coeffIdxNext, state, System.mcuInput, promised.noStart]
  have sameTable :
      lookupTable (system.step cycle).mcu = lookupTable system.mcu := by
    have firstKept :
        (system.step cycle).mcu.firstQ = system.mcu.firstQ := by
      rw [step_firstQ promised]
      simp [state]
    have typeKept :
        (system.step cycle).mcu.id.blockTypeQ =
          system.mcu.id.blockTypeQ := by
      rw [block.frame.atBlock.typed, looking.block.frame.atBlock.typed]
    simp [lookupTable, firstKept, typeKept]
  have valid :=
    step_valid promised looking.block.frame.sound looking.valid
      (popped_eq_zero (by simp [state]) cycle)
  obtain ⟨input, shows16, waiting⟩ := looking.waiting
  cases answer : cycle.answer with
  | none =>
      refine .looking stage rest
        ⟨block, ?_, idx, quiet, valid, ⟨input, shows16, ?_⟩, reached⟩
      · rw [step_stateQ promised]
        simp [nextStateR, state, System.mcuInput, promised.noStart, answer]
      · rw [sameTable, ← waiting]
        simp [System.step, System.unanswered, answer, System.asked,
          lookupReq, state]
  | some given =>
      have typed := looking.block.frame.atBlock.typed
      rw [← inOrder] at typed
      obtain ⟨word, symbol, codes, starts⟩ :=
        looking.reached.codeDue looking.block.here typed
      have short := word_length codes
      have right := promised.answerRight
      rw [answer, waiting] at right
      have matched := right (word, symbol) codes
        (shows16 word starts short.2)
      refine .answered stage rest word symbol
        ⟨block, ?_, idx, quiet, valid, ?_, starts, ?_, ?_, ?_, reached⟩
      · rw [step_stateQ promised]
        simp [nextStateR, state, System.mcuInput, promised.noStart, answer]
      · rw [sameTable]
        exact codes
      · simp [System.step, step, System.mcuInput, promised.noReset, state,
          answer, matched]
      · simp [System.step, step, System.mcuInput, promised.noReset, state,
          answer, matched]
        omega
      · intro field inRest fieldShort
        have register :
            (system.step cycle).mcu.inputDataQ =
              (inputShift (system.mcuInput cycle)).setWidth 16 := by
          simp [System.step, step, promised.noReset, state, answer,
            System.mcuInput]
        have width :
            (system.mcuInput cycle).lookupWidth.toNat = word.length := by
          simp [System.mcuInput, answer, matched]
          omega
        have undecoded : word ++ field <+: system.undecoded := by
          rw [looking.block.frame.undecoded]
          exact inRest.trans (List.prefix_append _ _)
        have inWindow :=
          (System.starts_window looking.block.frame.drained looking.valid
            (by rw [List.length_append]; omega) undecoded).2
        rw [register, bitsOf_inputShift width short]
        have behind := inWindow.drop word.length
        rw [List.drop_left] at behind
        exact List.prefix_take_iff.mpr ⟨behind, by omega⟩

/-- `STATE_FETCH_WORD` of a complete block: the block ends. -/
theorem Closed.advance
    (closed : Closed scan mode padding index coded system record)
    (promised : Promised scan.tables mode system cycle) :
    Ending scan mode padding index coded (system.step cycle)
      (record.after system cycle) := by
  have state := closed.state
  have imageOpen : OpenAtStart system := by
    simp [OpenAtStart, state]
  have block :=
    closed.block.quiet promised imageOpen (by simp [state])
      (by simp [state]) (by simp [state])
  have quiet : (system.step cycle).mcu.pushQ = false := by
    rw [step_pushQ promised]
    simp [state]
  have last : 63#8 ≤ system.mcu.coeffIdxQ := closed.idx
  refine ⟨block, ?_, quiet, ?_, ?_⟩
  · rw [step_stateQ promised]
    simp [nextStateR, state, System.mcuInput, promised.noStart, last]
  · rw [step_dcCoeffQ promised, ← closed.dcKept]
    simp [state]
  · rw [shownSample_quiet quiet, List.append_nil,
      record.after_running (by simp [outportEob, state]),
      poppedBits_eq_nil (popped_eq_zero (by simp [state]) cycle),
      List.append_nil]
    exact closed.shown

/-- `STATE_EOB`: the next block is due. -/
theorem Ending.advance
    (ending : Ending scan mode padding index coded system record)
    (supported : mode ≠ .unsupported)
    (inOrder : scan.order = componentOrder mode)
    (promised : Promised scan.tables mode system cycle) :
    Between scan mode padding (index + 1) (system.step cycle)
      (record.after system cycle) := by
  have state := ending.state
  obtain ⟨frame, empty⟩ :=
    ending.block.frame.next supported inOrder promised state ending.dcKept
      ending.shown
  refine ⟨frame, ?_, ?_, ?_, empty⟩
  · rw [step_stateQ promised]
    simp [nextStateR, state, System.mcuInput, promised.noStart]
  · rw [step_coeffIdxQ promised]
    simp [coeffIdxNext, state]
  · rw [step_pushQ promised]
    simp [state]

end Cycles

/-! ## The output state -/

/-- One more sample overrides the value at its index. -/
theorem readSamples_concat
    (samples : List Sample)
    (sample : Sample)
    (place : Nat) :
    readSamples (samples ++ [sample]) place =
      if sample.idx.toNat = place then sample.data
      else readSamples samples place := by
  simp [readSamples, List.foldl_append]

/-- A sample at a later index skips coefficients that are zero. -/
theorem Progress.extend
    {scan : Scan}
    {index position place : Nat}
    {samples : List Sample}
    {symbols later : List AcSymbol}
    (progress : Progress scan index samples position symbols)
    (ahead : position ≤ place)
    {sample : Sample}
    (here : sample.idx.toNat = place)
    (right : sample.data = scan.coefficient index place)
    (skipped :
      ∀ between, position ≤ between → between < place →
        scan.coefficient index between = 0)
    (remaining :
      ∀ further, place < further →
        scan.coefficient index further =
          acCoefficient (place + 1) later further)
    (typed :
      sample.id.extractLsb' 30 2 =
        (BlockType.ofComponent (scan.order index)).code) :
    Progress scan index (samples ++ [sample]) (place + 1) later where
  positive := by omega
  written := by
    intro earlier before
    rw [readSamples_concat, here]
    split
    · rename_i same
      rw [right, same]
    · rcases Nat.lt_or_ge earlier position with old | skip
      · exact progress.written earlier old
      · rw [progress.unwritten earlier skip,
          skipped earlier skip (by omega)]
  unwritten := by
    intro further beyond
    rw [readSamples_concat, if_neg (by omega)]
    exact progress.unwritten further (by omega)
  remaining := fun further beyond => remaining further (by omega)
  typed := by
    intro shown member
    rcases List.mem_append.mp member with old | new
    · exact progress.typed shown old
    · rw [List.mem_singleton.mp new]
      exact typed

/-- The samples of a block without symbols to come are its coefficients. -/
theorem Progress.showsBlock
    {scan : Scan}
    {index position : Nat}
    {samples : List Sample}
    (progress : Progress scan index samples position [])
    {coded : CodedBlock}
    (here : scan.blocks[index]? = some coded)
    {popped : List Bool}
    (all : popped = coded.bits) :
    Group.Shows { samples := samples, popped := popped } scan index where
  coefficients := by
    intro place _
    rcases Nat.lt_or_ge place position with before | beyond
    · exact progress.written place before
    · rw [progress.remaining place beyond, progress.unwritten place beyond]
      rfl
  component := progress.typed
  encoding := by
    rw [here, all]
    rfl

section Output

variable {scan : Scan} {mode : ImageMode} {padding : List Bool}
variable {index : Nat} {coded : CodedBlock} {stage : Stage}
variable {rest word field left : List Bool} {symbol : BitVec 8}
variable {system : System} {record : Record} {cycle : Cycle}

/-- The output state pops the code and the bits behind it. -/
theorem Answered.pops
    (answered :
      Answered scan mode padding index coded system record stage rest word
        symbol)
    (promised : Promised scan.tables mode system cycle)
    (split : rest = word ++ (field ++ left))
    (short : field.length ≤ 15)
    (count :
      (inportPop system.mcu).toNat = word.length + field.length) :
    InBlock scan mode padding index coded left (system.step cycle)
        (record.after system cycle) ∧
      (record.after system cycle).current.samples =
        record.current.samples ∧
      (system.step cycle).undecoded.length < system.undecoded.length := by
  have state := answered.state
  have wordLength := word_length answered.codes
  have popped : system.popped cycle = (word ++ field).length := by
    simp [System.popped, BitBuffer.popped, BitBuffer.pops, answered.valid,
      System.bufferInput, count]
    intro zero
    rw [zero] at count
    exact count
  have undecoded : word ++ field <+: system.undecoded := by
    rw [answered.block.frame.undecoded, split]
    exact ⟨left ++ (scan.bitsFrom (index + 1) ++ padding), by simp⟩
  have window :=
    System.starts_window answered.block.frame.drained answered.valid
      (by rw [List.length_append]; omega) undecoded
  have enough :
      system.popped cycle ≤ (BitBuffer.queue system.buffer).length := by
    rw [popped]
    exact window.1.length_le
  have bits : poppedBits system cycle = word ++ field := by
    have taken := List.prefix_iff_eq_take.mp window.2
    rw [poppedBits]
    change (bitsOf (BitBuffer.outportData system.buffer)).take
      (system.popped cycle) = _
    rw [popped, ← taken]
  have running : outportEob system.mcu = false := by
    simp [outportEob, state]
  refine ⟨⟨?_, answered.block.here, ?_⟩, ?_, ?_⟩
  · have kept :=
      answered.block.frame.keep promised (by simp [OpenAtStart, state])
        (by simp [state]) (by simp [state]) enough
    have dropped :
        (rest ++ (scan.bitsFrom (index + 1) ++ padding)).drop
            (system.popped cycle) =
          left ++ (scan.bitsFrom (index + 1) ++ padding) := by
      rw [popped, split, ← List.append_assoc word, List.append_assoc,
        List.drop_left]
    rwa [dropped] at kept
  · rw [record.after_running running, bits]
    have all := answered.block.popped
    rw [split] at all
    simpa using all
  · rw [record.after_running running, shownSample_quiet answered.quiet,
      List.append_nil]
  · have held := undecoded.length_le
    rw [System.undecoded_step answered.block.frame.sound promised.noReset
      promised.noStart enough, List.length_drop, popped]
    simp only [List.length_append] at held ⊢
    omega

/-- The pop count of a code that carries a number. -/
theorem inportPop_number
    {mcu : State}
    (state : mcu.stateQ = .output)
    (carries :
      mcu.coeffIdxQ = 0#8 ∨ (mcu.codeQ ≠ 0#8 ∧ mcu.codeQ ≠ 240#8))
    (width : mcu.lookupWidthQ.toNat ≤ 16) :
    (inportPop mcu).toNat =
      mcu.lookupWidthQ.toNat + mcu.codeQ.toNat % 16 := by
  have sum :
      inportPop mcu =
        mcu.lookupWidthQ.setWidth 6 + (coefBits mcu).setWidth 6 := by
    unfold inportPop
    rcases carries with first | ⟨notEnd, notZeros⟩
    · simp [state, first]
    · simp [state, notEnd, notZeros]
  rw [sum]
  simp [coefBits]
  omega

/-- The pop count of an end of block or a zero run. -/
theorem inportPop_plain
    {mcu : State}
    (state : mcu.stateQ = .output)
    (notFirst : mcu.coeffIdxQ ≠ 0#8)
    (plain : mcu.codeQ = 0#8 ∨ mcu.codeQ = 240#8) :
    (inportPop mcu).toNat = mcu.lookupWidthQ.toNat := by
  have width : inportPop mcu = mcu.lookupWidthQ.setWidth 6 := by
    unfold inportPop
    rcases plain with ends | zeros
    · simp [state, notFirst, ends]
    · simp [state, notFirst, zeros]
  rw [width]
  simp
  omega

/-- The number behind a code is the one its magnitude bits stand for. -/
theorem decodeNumber_field
    {mcu : State}
    (behind : field <+: bitsOf mcu.inputDataQ)
    (short : field.length ≤ 15)
    (size : mcu.codeQ.toNat % 16 = field.length) :
    decodeNumber (mcu.inputDataQ >>> (16 - (coefBits mcu).toNat))
        (coefBits mcu) =
      BitVec.ofInt 16 (extend field.length (ofBits field)) := by
  have bits : coefBits mcu = BitVec.ofNat 5 field.length := by
    apply BitVec.eq_of_toNat_eq
    simp [coefBits]
    omega
  have bitsNat : (BitVec.ofNat 5 field.length).toNat = field.length := by
    simp
    omega
  have raw :
      (mcu.inputDataQ >>> (16 - field.length)).toNat = ofBits field := by
    have spelled := ofBits_take mcu.inputDataQ field.length (by omega)
    rw [← List.prefix_iff_eq_take.mp behind] at spelled
    rw [spelled, BitVec.toNat_ushiftRight]
  rw [bits, bitsNat, decodeNumber_eq short, raw]
  rw [raw]
  exact ofBits_lt field

/-- After the output state the coefficient is on the pins. -/
theorem shownSample_output
    (promised : Promised scan.tables mode system cycle)
    (state : system.mcu.stateQ = .output)
    {place : Nat}
    (idx : (system.step cycle).mcu.coeffIdxQ.toNat = place)
    (inBlock : place < 64) :
    shownSample (system.step cycle).mcu =
        [{ idx := outportIdx (system.step cycle).mcu
           data := coeffR system.mcu
           id := outportId (system.step cycle).mcu }] ∧
      (outportIdx (system.step cycle).mcu).toNat = place := by
  have pushes : (system.step cycle).mcu.pushQ = true := by
    rw [step_pushQ promised]
    simp [state]
  have data : outportData (system.step cycle).mcu = coeffR system.mcu := by
    rw [outportData, step_coeffQ promised]
    simp [state]
  have small : (system.step cycle).mcu.coeffIdxQ < 64#8 := by
    change (system.step cycle).mcu.coeffIdxQ.toNat < 64
    omega
  constructor
  · rw [← data]
    simp [shownSample, outportValid, pushes, small]
  · simp [outportIdx, idx]
    omega

/-- The entry an answer gives is the one that codes the block. -/
theorem Answered.entry
    (answered :
      Answered scan mode padding index coded system record stage rest word
        symbol)
    {dueWord : List Bool}
    {dueSymbol : BitVec 8}
    (codes :
      (tableOf scan.tables (lookupTable system.mcu)).Codes dueWord
        dueSymbol)
    (starts : dueWord <+: rest) :
    dueWord = word ∧ dueSymbol = system.mcu.codeQ := by
  have same :=
    PrefixCode.entry_unique codes answered.codes starts answered.starts
  rw [answered.code]
  exact Prod.mk.inj same

/-- `STATE_OUTPUT` with the DC code: the AC codes are due. -/
theorem Answered.advance_dc
    (answered :
      Answered scan mode padding index coded system record .dc rest word
        symbol)
    (inOrder : scan.order = componentOrder mode)
    (promised : Promised scan.tables mode system cycle) :
    Decoding scan mode padding index coded (system.step cycle)
        (record.after system cycle) ∧
      (system.step cycle).undecoded.length < system.undecoded.length := by
  have state := answered.state
  have here := answered.block.here
  have code := scan.coded index coded here
  have typed := answered.block.frame.atBlock.typed
  rw [← inOrder] at typed
  obtain ⟨first, noSamples, bits⟩ := answered.reached
  have firstIdx : system.mcu.coeffIdxQ = 0#8 :=
    BitVec.eq_of_toNat_eq answered.idx
  have entry :=
    answered.entry
      (by rw [tableOf_lookupTable_dc first typed]; exact code.codes)
      (by rw [bits]; exact List.prefix_append _ _)
  have split :
      rest =
        word ++ (magnitudeBits coded.block.difference ++ coded.acBits) := by
    rw [bits, ← entry.1]
    rfl
  have size :
      system.mcu.codeQ.toNat % 16 =
        (magnitudeBits coded.block.difference).length := by
    have small := code.categorySmall
    rw [← entry.2, length_magnitudeBits]
    simp [runSize]
    omega
  have short : (magnitudeBits coded.block.difference).length ≤ 15 := by
    rw [length_magnitudeBits]
    exact code.categorySmall
  have width := answered.width
  have wordLength := word_length answered.codes
  obtain ⟨block, samples, shorter⟩ :=
    answered.pops promised split short (by
      rw [inportPop_number state (.inl firstIdx) (by omega), size, width])
  have number :=
    decodeNumber_field
      (answered.behind _ (by rw [split, ← List.append_assoc]
                             exact List.prefix_append _ _) short)
      short size
  rw [ofBits_magnitudeBits, length_magnitudeBits, extend_magnitude] at number
  have value : coeffR system.mcu = scan.dcValue index := by
    have previous := answered.block.frame.predicted (scan.order index)
    rw [← typed] at previous
    simp only [coeffR, number]
    rw [if_pos (by simp [firstIdx]), previous, Scan.dcValue,
      Scan.difference, here]
    rfl
  have idx : (system.step cycle).mcu.coeffIdxQ.toNat = 0 := by
    rw [step_coeffIdxQ promised]
    simp [coeffIdxNext, state, System.mcuInput, promised.noStart, firstIdx]
  obtain ⟨shown, shownIdx⟩ :=
    shownSample_output promised state idx (by omega)
  refine ⟨?_, shorter⟩
  refine .fetching (.ac 1 coded.block.symbols) coded.acBits
    ⟨block, ?_, idx, ?_, by omega, ?_, ?_, code.coded⟩
  · rw [step_stateQ promised]
    simp [nextStateR, state, System.mcuInput, promised.noStart]
  · rw [step_firstQ promised]
    simp [state]
  · rw [step_dcCoeffQ promised, ← value]
    simp [state, firstIdx]
  · have typedAfter := block.frame.atBlock.typed
    rw [← inOrder] at typedAfter
    rw [samples, noSamples, shown, value]
    refine ⟨by omega, ?_, ?_, ?_, ?_⟩
    · intro place before
      have zero : place = 0 := by omega
      rw [zero, readSamples_concat, if_pos shownIdx]
      rfl
    · intro place beyond
      have elsewhere : (outportIdx (system.step cycle).mcu).toNat ≠ place := by
        omega
      rw [readSamples_concat, if_neg elsewhere]
      rfl
    · intro place beyond
      rw [Scan.coefficient, if_neg (by omega), here]
      rfl
    · intro sample member
      rw [List.nil_append, List.mem_singleton] at member
      rw [member, outportId_type, typedAfter]

/-- What an AC code leaves is complete or due at a later index. -/
theorem decoding_of_progress
    {position : Nat}
    {symbols : List AcSymbol}
    (block :
      InBlock scan mode padding index coded left system record)
    (state : system.mcu.stateQ = .fetchWord)
    (notFirst : system.mcu.firstQ = false)
    (idx : system.mcu.coeffIdxQ.toNat + 1 = position)
    (dcKept : system.mcu.dcCoeffQ = scan.dcValue index)
    (progress :
      Progress scan index (record.current.samples ++ shownSample system.mcu)
        position symbols)
    (code :
      AcCode (scan.tables.ac (scan.order index)) position symbols left)
    (inBlock : position ≤ 64) :
    Decoding scan mode padding index coded system record := by
  rcases Nat.lt_or_ge position 64 with due | full
  · refine .fetching (.ac position symbols) left
      ⟨block, state, ?_, notFirst, by omega, dcKept, progress, code⟩
    simp only [Stage.fetchIndex]
    omega
  · cases code with
    | full =>
        have all := block.popped
        rw [List.append_nil] at all
        exact .closed
          ⟨block, state, by omega, dcKept,
            progress.showsBlock block.here all⟩
    | endOfBlock small => omega
    | zeros small => omega
    | value _ small => omega

/-- `STATE_OUTPUT` with an AC code: the block goes on or is complete. -/
theorem Answered.advance_ac
    {position : Nat}
    {symbols : List AcSymbol}
    (answered :
      Answered scan mode padding index coded system record
        (.ac position symbols) rest word symbol)
    (inOrder : scan.order = componentOrder mode)
    (promised : Promised scan.tables mode system cycle) :
    Decoding scan mode padding index coded (system.step cycle)
        (record.after system cycle) ∧
      (system.step cycle).undecoded.length < system.undecoded.length := by
  have state := answered.state
  have here := answered.block.here
  have typed := answered.block.frame.atBlock.typed
  rw [← inOrder] at typed
  obtain ⟨notFirst, inBlock, dcKept, progress, code⟩ := answered.reached
  have table := tableOf_lookupTable_ac notFirst typed scan.tables
  have idx : system.mcu.coeffIdxQ.toNat = position := answered.idx
  have notZero : system.mcu.coeffIdxQ ≠ 0#8 := by
    have positive := progress.positive
    intro zero
    rw [zero] at idx
    simp at idx
    omega
  have width := answered.width
  have wordLength := word_length answered.codes
  have stateAfter : (system.step cycle).mcu.stateQ = .fetchWord := by
    rw [step_stateQ promised]
    simp [nextStateR, state, System.mcuInput, promised.noStart]
  have notFirstAfter : (system.step cycle).mcu.firstQ = false := by
    rw [step_firstQ promised]
    simp [state]
  have dcAfter : (system.step cycle).mcu.dcCoeffQ = scan.dcValue index := by
    rw [step_dcCoeffQ promised, ← dcKept]
    simp [notZero]
  have idxAfter :
      (system.step cycle).mcu.coeffIdxQ =
        if system.mcu.codeQ == 0 then 64
        else if system.mcu.codeQ == 0xF0 then system.mcu.coeffIdxQ + 15
        else
          system.mcu.coeffIdxQ +
            (system.mcu.codeQ.extractLsb' 4 4).setWidth 8 := by
    rw [step_coeffIdxQ promised]
    simp [coeffIdxNext, state, System.mcuInput, promised.noStart, notZero]
  cases code with
  | full =>
      omega
  | endOfBlock _ codes =>
      have entry := answered.entry (by rw [table]; exact codes)
        (List.prefix_refl _)
      have ends : system.mcu.codeQ = 0#8 := entry.2.symm
      have split : rest = word ++ ([] ++ []) := by
        simp [entry.1]
      obtain ⟨block, samples, shorter⟩ :=
        answered.pops promised split (by simp) (by
          rw [inportPop_plain state notZero (.inl ends), width]
          rfl)
      have nothing : shownSample (system.step cycle).mcu = [] := by
        simp [shownSample, outportValid, idxAfter, ends]
      have all := block.popped
      rw [List.append_nil] at all
      refine ⟨?_, shorter⟩
      refine .closed ⟨block, stateAfter, ?_, dcAfter, ?_⟩
      · rw [idxAfter, if_pos (by simp [ends])]
        decide
      · rw [nothing, List.append_nil, samples]
        exact progress.showsBlock here all
  | @zeros _ dueWord bits later small codes coded_ =>
      have entry := answered.entry (by rw [table]; exact codes)
        (List.prefix_append _ _)
      have zeros : system.mcu.codeQ = 240#8 := entry.2.symm
      have split : dueWord ++ bits = word ++ ([] ++ bits) := by
        simp [entry.1]
      obtain ⟨block, samples, shorter⟩ :=
        answered.pops promised split (by simp) (by
          rw [inportPop_plain state notZero (.inr zeros), width]
          rfl)
      have idxNext :
          (system.step cycle).mcu.coeffIdxQ.toNat = position + 15 := by
        rw [idxAfter, zeros]
        simp [idx]
        omega
      obtain ⟨shown, shownIdx⟩ :=
        shownSample_output promised state idxNext (by omega)
      have value : coeffR system.mcu = 0 := by
        have number :=
          @decodeNumber_field [] system.mcu (List.nil_prefix) (by simp)
            (by rw [zeros]; rfl)
        simp only [coeffR, number]
        rw [if_neg (by simp [notZero])]
        rfl
      have typedAfter := block.frame.atBlock.typed
      rw [← inOrder] at typedAfter
      have zeroBetween :
          ∀ between, position ≤ between → between < position + 16 →
            scan.coefficient index between = 0 := by
        intro between above before
        rw [progress.remaining between above, acCoefficient,
          acCoefficient_before later before]
      refine ⟨?_, shorter⟩
      refine decoding_of_progress block stateAfter notFirstAfter
        (by rw [idxNext]) dcAfter ?_ coded_ (by omega)
      rw [samples, shown]
      exact progress.extend (by omega) shownIdx
        (by rw [zeroBetween (position + 15) (by omega) (by omega)]; exact value)
        (fun between above before => zeroBetween between above (by omega))
        (fun further beyond => progress.remaining further (by omega))
        (by rw [outportId_type, typedAfter])
  | @value _ run number dueWord bits later runSmall small nonzero
      categorySmall codes coded_ =>
      have entry := answered.entry (by rw [table]; exact codes)
        (List.prefix_append _ _)
      have positive := category_pos nonzero
      have codeNat : system.mcu.codeQ.toNat = 16 * run + category number := by
        rw [← entry.2]
        simp [runSize]
        omega
      have notEnd : system.mcu.codeQ ≠ 0#8 := by
        intro zero
        rw [zero] at codeNat
        simp at codeNat
        omega
      have notZeros : system.mcu.codeQ ≠ 240#8 := by
        intro zeros
        rw [zeros] at codeNat
        simp at codeNat
        omega
      have split :
          dueWord ++ (magnitudeBits number ++ bits) =
            word ++ (magnitudeBits number ++ bits) := by
        rw [entry.1]
      have size :
          system.mcu.codeQ.toNat % 16 = (magnitudeBits number).length := by
        rw [length_magnitudeBits]
        omega
      have short : (magnitudeBits number).length ≤ 15 := by
        rw [length_magnitudeBits]
        exact categorySmall
      obtain ⟨block, samples, shorter⟩ :=
        answered.pops promised split short (by
          rw [inportPop_number state (.inr ⟨notEnd, notZeros⟩) (by omega),
            size, width])
      have idxNext :
          (system.step cycle).mcu.coeffIdxQ.toNat = position + run := by
        rw [idxAfter, if_neg (by simp [notEnd]), if_neg (by simp [notZeros])]
        simp [idx, codeNat, Nat.shiftRight_eq_div_pow]
        omega
      obtain ⟨shown, shownIdx⟩ :=
        shownSample_output promised state idxNext (by omega)
      have decoded :=
        decodeNumber_field
          (answered.behind _ (by rw [split, ← List.append_assoc]
                                 exact List.prefix_append _ _) short)
          short size
      rw [ofBits_magnitudeBits, length_magnitudeBits, extend_magnitude]
        at decoded
      have value : coeffR system.mcu = BitVec.ofInt 16 number := by
        simp only [coeffR, decoded]
        rw [if_neg (by simp [notZero])]
      have typedAfter := block.frame.atBlock.typed
      rw [← inOrder] at typedAfter
      refine ⟨?_, shorter⟩
      refine decoding_of_progress block stateAfter notFirstAfter
        (by rw [idxNext]) dcAfter ?_ coded_ (by omega)
      rw [samples, shown]
      refine progress.extend (by omega) shownIdx ?_ ?_ ?_
        (by rw [outportId_type, typedAfter])
      · rw [progress.remaining _ (by omega), acCoefficient, if_pos rfl]
        exact value
      · intro between above before
        rw [progress.remaining between above, acCoefficient,
          if_neg (by omega), acCoefficient_before later (by omega)]
      · intro further beyond
        rw [progress.remaining further (by omega), acCoefficient,
          if_neg (by omega)]

end Output

/-! ## Runs -/

section Runs

variable {scan : Scan} {mode : ImageMode} {padding : List Bool}
variable {system : System} {record : Record} {cycle : Cycle}

/-- Every earlier group is the block of the scan with its number. -/
def ShownRight (scan : Scan) (record : Record) : Prop :=
  ∀ (index : Nat) (group : Group),
    record.finished[index]? = some group → index < scan.blocks.length →
      group.Shows scan index

/-- Decoding is under way, or all blocks of the scan have been shown. -/
inductive Decoded
    (scan : Scan)
    (mode : ImageMode)
    (padding : List Bool)
    (system : System)
    (record : Record) : Prop
  | under_way
      (index : Nat)
      (coded : CodedBlock)
      (here : scan.blocks[index]? = some coded)
      (decoding :
        Decoding scan mode padding index coded system record)
  | finished
      (all : scan.blocks.length ≤ record.finished.length)
      (right : ShownRight scan record)

/-- The frame holds in every state of decoding a block. -/
theorem Decoding.frame
    {index : Nat}
    {coded : CodedBlock}
    (decoding : Decoding scan mode padding index coded system record) :
    ∃ bits, Frame scan mode index bits system record := by
  cases decoding with
  | between phase => exact ⟨_, phase.frame⟩
  | fetching stage rest phase => exact ⟨_, phase.block.frame⟩
  | looking stage rest phase => exact ⟨_, phase.block.frame⟩
  | answered stage rest word symbol phase => exact ⟨_, phase.block.frame⟩
  | closed phase => exact ⟨_, phase.block.frame⟩
  | ending phase => exact ⟨_, phase.block.frame⟩

/-- Decoding a block never rests in the state after the image. -/
theorem Decoding.notEof
    {index : Nat}
    {coded : CodedBlock}
    (decoding : Decoding scan mode padding index coded system record) :
    system.mcu.stateQ ≠ .eof := by
  cases decoding with
  | between phase => simp [phase.state]
  | fetching stage rest phase => simp [phase.state]
  | looking stage rest phase => simp [phase.state]
  | answered stage rest word symbol phase => simp [phase.state]
  | closed phase => simp [phase.state]
  | ending phase => simp [phase.state]

/-- Until the end of a block every cycle goes on with it. -/
theorem Decoding.advance
    {index : Nat}
    {coded : CodedBlock}
    (decoding : Decoding scan mode padding index coded system record)
    (here : scan.blocks[index]? = some coded)
    (inOrder : scan.order = componentOrder mode)
    (promised : Promised scan.tables mode system cycle)
    (inTime : AnsweredInTime system cycle)
    (imageOpen : OpenAtStart system)
    (notEob : system.mcu.stateQ ≠ .eob) :
    Decoding scan mode padding index coded (system.step cycle)
      (record.after system cycle) := by
  cases decoding with
  | between phase =>
      exact phase.advance here promised imageOpen
  | fetching stage rest phase =>
      exact phase.advance promised inTime
  | looking stage rest phase =>
      exact phase.advance promised inOrder
  | answered stage rest word symbol phase =>
      cases stage with
      | dc =>
          exact (phase.advance_dc inOrder promised).1
      | ac position symbols =>
          exact (phase.advance_ac inOrder promised).1
  | closed phase =>
      exact .ending (phase.advance promised)
  | ending phase =>
      exact absurd phase.state notEob

/-- The end of a block leads to the next one. -/
theorem Decoding.next
    {index : Nat}
    {coded : CodedBlock}
    (decoding : Decoding scan mode padding index coded system record)
    (supported : mode ≠ .unsupported)
    (inOrder : scan.order = componentOrder mode)
    (promised : Promised scan.tables mode system cycle)
    (atEob : system.mcu.stateQ = .eob) :
    Between scan mode padding (index + 1) (system.step cycle)
      (record.after system cycle) := by
  cases decoding with
  | ending phase =>
      exact phase.advance supported inOrder promised
  | between phase => simp [phase.state] at atEob
  | fetching stage rest phase => simp [phase.state] at atEob
  | looking stage rest phase => simp [phase.state] at atEob
  | answered stage rest word symbol phase => simp [phase.state] at atEob
  | closed phase => simp [phase.state] at atEob

/-- A group, once finished, stays as it is. -/
theorem finished_prefix_after
    (record : Record)
    (system : System)
    (cycle : Cycle) :
    record.finished <+: (record.after system cycle).finished := by
  cases ends : outportEob system.mcu with
  | false =>
      rw [record.after_running ends]
  | true =>
      rw [record.after_endOfBlock ends]
      exact List.prefix_append _ _

/-- The decoding invariant holds after every cycle of an open image. -/
theorem Decoded.advance
    (decoded : Decoded scan mode padding system record)
    (supported : mode ≠ .unsupported)
    (inOrder : scan.order = componentOrder mode)
    (promised : Promised scan.tables mode system cycle)
    (inTime : AnsweredInTime system cycle)
    (imageOpen : OpenAtStart system) :
    Decoded scan mode padding (system.step cycle)
      (record.after system cycle) := by
  cases decoded with
  | under_way index coded here decoding =>
      by_cases atEob : system.mcu.stateQ = .eob
      · have next := decoding.next supported inOrder promised atEob
        cases due : scan.blocks[index + 1]? with
        | some following =>
            exact .under_way (index + 1) following due (.between next)
        | none =>
            refine .finished ?_ ?_
            · rw [next.frame.counted]
              exact List.getElem?_eq_none_iff.mp due
            · intro earlier group found _
              exact next.frame.shown earlier group found
      · exact .under_way index coded here
          (decoding.advance here inOrder promised inTime imageOpen atEob)
  | finished all right =>
      have kept := finished_prefix_after record system cycle
      refine .finished (Nat.le_trans all kept.length_le) ?_
      intro index group found inScan
      apply right index group _ inScan
      obtain ⟨further, grown⟩ := kept
      rwa [← grown, List.getElem?_append_left (by omega)] at found

/-- What the decoding invariant says of the finished groups. -/
theorem Decoded.shownRight
    (decoded : Decoded scan mode padding system record) :
    ShownRight scan record := by
  cases decoded with
  | finished _ right => exact right
  | under_way index coded here decoding =>
      obtain ⟨bits, frame⟩ := decoding.frame
      intro earlier group found _
      exact frame.shown earlier group found

/-- Before the first byte the first block is due. -/
theorem between_initial
    {source : List Byte}
    (mode : ImageMode)
    (ramQ : BitVec 3 → Byte)
    (spelled : source.flatMap bitsOf = scan.bits ++ padding) :
    Between scan mode padding 0 (System.initial ramQ source) .empty where
  frame :=
    { sound := BitBuffer.cleared_sound ramQ
      drained := by simp [System.initial, BitBuffer.cleared]
      undecoded := by
        simp [System.undecoded, System.initial, spelled, Scan.bits,
          Scan.bitsFrom]
      atBlock := IdState.reset_atBlock mode
      predicted := fun _ => rfl
      counted := rfl
      shown := by simp [Record.empty] }
  state := rfl
  idx := rfl
  quiet := rfl
  empty := rfl

/-- The decoding invariant holds before the first byte. -/
theorem decoded_initial
    {source : List Byte}
    (mode : ImageMode)
    (ramQ : BitVec 3 → Byte)
    (spelled : source.flatMap bitsOf = scan.bits ++ padding) :
    Decoded scan mode padding (System.initial ramQ source) .empty := by
  cases due : scan.blocks[0]? with
  | some coded =>
      exact .under_way 0 coded due
        (.between (between_initial mode ramQ spelled))
  | none =>
      refine .finished ?_ ?_
      · exact List.getElem?_eq_none_iff.mp due
      · simp [ShownRight, Record.empty]

/--
As long as the end of the image is not inferred, each group of samples and bits
between end-of-block pulses is the block of the scan with the same number,
provided every lookup is answered by the cycle of the next one.
-/
theorem blockGroups_show_blocks
    (scan : Scan)
    (mode : ImageMode)
    (supported : mode ≠ .unsupported)
    (inOrder : scan.order = componentOrder mode)
    (padding : List Bool)
    (source : List Byte)
    (spelled : source.flatMap bitsOf = scan.bits ++ padding)
    (ramQ : BitVec 3 → Byte)
    (cycles : List Cycle)
    (promised :
      Clocked.Along System.step (Promised scan.tables mode)
        (System.initial ramQ source) cycles)
    (inTime :
      Clocked.Along System.step AnsweredInTime
        (System.initial ramQ source) cycles)
    (imageOpen :
      Clocked.Along System.step ImageOpen
        (System.initial ramQ source) cycles)
    (index : Nat)
    (group : Group)
    (found :
      (blockGroups (System.initial ramQ source) cycles)[index]? =
        some group)
    (inScan : index < scan.blocks.length) :
    group.Shows scan index := by
  have decoded :=
    Clocked.run_induction
      (motive := fun past system =>
        Decoded scan mode padding system
          (recordOf
            (Clocked.observe System.step events
              (System.initial ramQ source) past)))
      (decoded_initial mode ramQ spelled)
      (fun past cycle _ allowed before => by
        rw [recordOf_observe_concat]
        exact before.advance supported inOrder allowed.1.1 allowed.1.2
          (fun _ => allowed.2))
      cycles ((promised.both inTime).both imageOpen)
  exact decoded.shownRight index group found inScan

end Runs

/-! ## A late answer -/

/-- A table with one code of each bit. -/
def bitTable (zero one : BitVec 8) : Table where
  entries := [([false], zero), ([true], one)]
  prefixFree := by
    intro first firstIn second secondIn
    simp only [List.mem_cons, List.not_mem_nil, or_false] at firstIn secondIn
    rcases firstIn with rfl | rfl <;> rcases secondIn with rfl | rfl <;>
      simp
  widths := by
    intro entry member
    simp only [List.mem_cons, List.not_mem_nil, or_false] at member
    rcases member with rfl | rfl <;> simp

/-- Tables whose AC code for one bit differs from the DC code. -/
def bitTables : Tables where
  yDc := bitTable 0x01 0x00
  yAc := bitTable 0x00 0x01
  cxDc := bitTable 0x01 0x00
  cxAc := bitTable 0x00 0x01

/-- A block without any coefficient, in two bits. -/
def emptyBlock : CodedBlock where
  block := { difference := 0, symbols := [] }
  dcWord := [true]
  acBits := [false]

/-- Two empty blocks of a monochrome image. -/
def emptyScan : Scan where
  order := componentOrder .monochrome
  tables := bitTables
  blocks := [emptyBlock, emptyBlock]
  coded := by
    intro index coded here
    have member := List.mem_of_getElem? here
    have only : coded = emptyBlock := by
      simpa using member
    subst only
    have dcCode : bitTables.yDc.Codes [true] (runSize 0 0) := by decide
    have acCode : bitTables.yAc.Codes [false] endOfBlock := by decide
    exact
      { categorySmall := by decide
        codes := dcCode
        coded := .endOfBlock (by decide) acCode }

/-- A cycle of a monochrome image with an answer or without. -/
def scanCycle
    (sourceLast : Bool)
    (answer : Option (BitVec 5 × BitVec 8)) : Cycle where
  rst := false
  imgStart := false
  imgEnd := false
  imgWidth := 8
  imgMode := .monochrome
  sourceValid := true
  sourceLast := sourceLast
  answer := answer
  outportBlkSpace := true

/-- Every lookup is answered in the cycle after it. -/
def promptCycles : List Cycle :=
  scanCycle false none ::
    [none, none, none, some (1, 0x00), none, none, some (1, 0x00), none,
      none, some (1, 0x01), none, none, some (1, 0x00), none, none,
      some (1, 0x00), none, none, none].map (scanCycle true)

/-- The lookup made while the first block closes is answered four cycles on. -/
def lateCycles : List Cycle :=
  scanCycle false none ::
    [none, none, none, some (1, 0x00), none, none, some (1, 0x00), none,
      none, none, none, none, some (1, 0x01), none, none, some (1, 0x00),
      some (1, 0x01), none, none].map (scanCycle true)

/-- The state before the byte that spells both blocks. -/
def emptyStart : System := System.initial (fun _ => 0) [0xAF]

/-- Tables with a DC code for three bits and an AC code for one. -/
def wideTables : Tables := { bitTables with yDc := bitTable 0x03 0x00 }

/-- A block of five, with minus one and one behind it. -/
def firstCoded : CodedBlock where
  block := { difference := 5, symbols := [.value 0 (-1), .value 0 1] }
  dcWord := [false]
  acBits := [true, false, true, true, false]

/-- A block of six less than the one before, with one behind it. -/
def secondCoded : CodedBlock where
  block := { difference := -6, symbols := [.value 0 1] }
  dcWord := [false]
  acBits := [true, true, false]

theorem acCode_one : wideTables.yAc.Codes [true] (runSize 0 1) := by
  decide

theorem acCode_end : wideTables.yAc.Codes [false] endOfBlock := by decide

/-- Two blocks of a monochrome image, with AC coefficients in both. -/
def texturedScan : Scan where
  order := componentOrder .monochrome
  tables := wideTables
  blocks := [firstCoded, secondCoded]
  coded := by
    intro index coded here
    have member := List.mem_of_getElem? here
    rw [List.mem_pair] at member
    rcases member with rfl | rfl
    · exact
        { categorySmall := by decide
          codes := show wideTables.yDc.Codes [false] (runSize 0 3) by decide
          coded :=
            @AcCode.value _ 1 0 (-1) [true] _ _ (by decide) (by decide)
              (by decide) (by decide) acCode_one
              (@AcCode.value _ 2 0 1 [true] _ _ (by decide) (by decide)
                (by decide) (by decide) acCode_one
                (.endOfBlock (by decide) acCode_end)) }
    · exact
        { categorySmall := by decide
          codes := show wideTables.yDc.Codes [false] (runSize 0 3) by decide
          coded :=
            @AcCode.value _ 1 0 1 [true] _ _ (by decide) (by decide)
              (by decide) (by decide) acCode_one
              (.endOfBlock (by decide) acCode_end) }

/-- The state before the two bytes that spell both blocks. -/
def texturedStart : System := System.initial (fun _ => 0) [0x5B, 0x0E]

/-- Its lookups are answered in the cycle after them. -/
def texturedCycles : List Cycle :=
  scanCycle false none :: scanCycle false none ::
    [none, none, none, some (1, 0x03), none, none, some (1, 0x01), none,
      none, some (1, 0x01), none, none, some (1, 0x00), none, none,
      some (1, 0x00), none, none, some (1, 0x03), none, none,
      some (1, 0x01), none, none, some (1, 0x00), none, none,
      none].map (scanCycle true)

/-- With prompt answers the second of the two blocks is shown. -/
theorem blockGroups_show_blocks_textured :
    ∃ group,
      (blockGroups texturedStart texturedCycles)[1]? = some group ∧
        group.Shows texturedScan 1 :=
  ⟨{ samples :=
      [{ idx := 0, data := 0xFFFF, id := 0x00010000 },
        { idx := 1, data := 1, id := 0x00010000 }]
     popped := [false, false, false, true, true, true, false] },
    by decide +kernel,
    blockGroups_show_blocks texturedScan .monochrome (by decide) rfl []
      [0x5B, 0x0E] (by decide +kernel) (fun _ => 0) texturedCycles
      (by decide +kernel) (by decide +kernel) (by decide +kernel) 1 _
      (by decide +kernel) (by decide)⟩

/--
Answers that may be arbitrarily late do not suffice: the answer to the lookup
made while a block closes is taken for the DC code of the next block.
-/
theorem late_answer_spoils_block :
    ¬ ∀ (scan : Scan) (mode : ImageMode) (padding : List Bool)
        (source : List Byte) (ramQ : BitVec 3 → Byte) (cycles : List Cycle),
      mode ≠ .unsupported → scan.order = componentOrder mode →
      source.flatMap bitsOf = scan.bits ++ padding →
      Clocked.Along System.step (Promised scan.tables mode)
        (System.initial ramQ source) cycles →
      Clocked.Along System.step ImageOpen
        (System.initial ramQ source) cycles →
      ∀ (index : Nat) (group : Group),
        (blockGroups (System.initial ramQ source) cycles)[index]? =
          some group →
        index < scan.blocks.length → group.Shows scan index := by
  intro claimed
  have showsBlock :=
    claimed emptyScan .monochrome [true, true, true, true] [0xAF]
      (fun _ => 0) lateCycles (by decide) rfl (by decide +kernel)
      (by decide +kernel) (by decide +kernel) 1
      { samples := [{ idx := 0, data := 0xFFFF, id := 0x00010000 }]
        popped := [true, false, true] }
      (by decide +kernel) (by decide)
  exact absurd showsBlock.encoding (by decide +kernel)

end CoreJpeg.McuProc
