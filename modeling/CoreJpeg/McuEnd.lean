import CoreJpeg.McuDecode
import CoreJpeg.McuImage

namespace CoreJpeg.McuProc

/-!
# The end of the image

The decoder infers the end of the image from `img_end_i` at the last block of a
row of blocks.  When that level is high in the last row and low in every
earlier one, all blocks of the image are emitted before the end-of-image state
and that state is entered after them, within a number of cycles in which the
neighbours do not stall that the scan bounds.
-/

open EntropyCode BitString

/-! ## Cycles of an image -/

/-- What the neighbours do while the scan of an image is decoded. -/
structure ImageCycle
    (tables : Tables)
    (image : Image)
    (system : System)
    (cycle : Cycle) : Prop where
  promised : Promised tables image.mode system cycle
  inTime : AnsweredInTime system cycle
  widthKept : cycle.imgWidth = image.width
  endsInLastRow :
    EndsInLastRow image system.mcu.id
      (idInput system.mcu (system.mcuInput cycle))

instance (image : Image) (s : IdState) (i : IdInput) :
    Decidable (EndsInLastRow image s i) := by
  unfold EndsInLastRow
  infer_instance

instance
    (tables : Tables)
    (image : Image)
    (system : System)
    (cycle : Cycle) :
    Decidable (ImageCycle tables image system cycle) :=
  decidable_of_iff
    (Promised tables image.mode system cycle ∧ AnsweredInTime system cycle ∧
      cycle.imgWidth = image.width ∧
      EndsInLastRow image system.mcu.id
        (idInput system.mcu (system.mcuInput cycle)))
    ⟨fun ⟨first, second, third, fourth⟩ => ⟨first, second, third, fourth⟩,
      fun allowed =>
        ⟨allowed.promised, allowed.inTime, allowed.widthKept,
          allowed.endsInLastRow⟩⟩

/-- All blocks have been shown and none is begun any more. -/
structure Done (scan : Scan) (system : System) (record : Record) : Prop where
  all : scan.blocks.length ≤ record.finished.length
  right : ShownRight scan record
  sound : BitBuffer.Sound system.buffer
  ended : system.mcu.id.endOfImageQ = true
  state : system.mcu.stateQ = .idle ∨ system.mcu.stateQ = .eof

/-- A block is being decoded at its place in the image, or all are done. -/
inductive Emitting
    (scan : Scan)
    (image : Image)
    (padding : List Bool)
    (system : System)
    (record : Record) : Prop
  | under_way
      (index : Nat)
      (coded : CodedBlock)
      (here : scan.blocks[index]? = some coded)
      (decoding :
        Decoding scan image.mode padding index coded system record)
      (placed :
        Placed image index (system.mcu.stateQ != .idle) system.mcu.id)
  | done (done : Done scan system record)

section Cycles

variable {scan : Scan} {image : Image} {padding : List Bool}
variable {system : System} {record : Record} {cycle : Cycle}

/-- The pins of `jpeg_mcu_id` in a cycle of an image. -/
theorem ImageCycle.pins
    (allowed : ImageCycle scan.tables image system cycle) :
    ImagePins image (idInput system.mcu (system.mcuInput cycle)) where
  running := by
    simp [idInput, System.mcuInput, allowed.promised.noReset,
      allowed.promised.noStart]
  modeKept := allowed.promised.modeKept
  widthKept := allowed.widthKept

/-- `jpeg_mcu_id` takes its own step in every cycle. -/
theorem step_id
    (allowed : ImageCycle scan.tables image system cycle) :
    (system.step cycle).mcu.id =
      system.mcu.id.step (idInput system.mcu (system.mcuInput cycle)) := by
  simp [System.step, step, System.mcuInput, allowed.promised.noReset]

/-- An earlier block than the last does not end the image at its start. -/
theorem Placed.openAtStart
    {index : Nat}
    (placed :
      Placed image index (system.mcu.stateQ != .idle) system.mcu.id)
    (inImage : index < image.blockCount) :
    OpenAtStart system := by
  intro atIdle
  rw [← Bool.not_eq_true, placed.ended]
  simp [atIdle]
  omega

/-- The counters follow the block being decoded. -/
theorem Placed.advance
    {index : Nat}
    (placed :
      Placed image index (system.mcu.stateQ != .idle) system.mcu.id)
    (inImage : index < image.blockCount)
    (atBlock : system.mcu.id.AtBlock image.mode index)
    (allowed : ImageCycle scan.tables image system cycle)
    (notEob : system.mcu.stateQ ≠ .eob)
    (notEof : system.mcu.stateQ ≠ .eof) :
    Placed image index ((system.step cycle).mcu.stateQ != .idle)
      (system.step cycle).mcu.id := by
  have noEnd :
      (idInput system.mcu (system.mcuInput cycle)).endOfBlock = false := by
    simp [idInput, nextBlock, notEob]
  rw [step_id allowed, step_stateQ allowed.promised]
  by_cases atIdle : system.mcu.stateQ = .idle
  · rw [atIdle] at placed
    cases begins : nextStateR system.mcu (system.mcuInput cycle) != .idle with
    | false =>
        exact placed.stay allowed.pins
          (by simp [idInput, startBlock, begins]) noEnd
    | true =>
        exact placed.begin_ allowed.pins inImage atBlock
          (by simp [idInput, startBlock, atIdle, begins]) noEnd
          allowed.endsInLastRow
  · have noBegin :
        (idInput system.mcu (system.mcuInput cycle)).startOfBlock =
          false := by
      simp [idInput, startBlock, atIdle]
    have goesOn :
        nextStateR system.mcu (system.mcuInput cycle) ≠ .idle := by
      cases state : system.mcu.stateQ <;>
        simp_all [nextStateR, System.mcuInput, allowed.promised.noStart] <;>
        split_ifs <;> simp
    have before : (system.mcu.stateQ != .idle) = true := by
      simp [atIdle]
    have after :
        (nextStateR system.mcu (system.mcuInput cycle) != .idle) = true := by
      simp [goesOn]
    rw [before] at placed
    rw [after]
    exact placed.stay allowed.pins noBegin noEnd

/-- The counters move on at the end of a block. -/
theorem Placed.next
    {index : Nat}
    (placed :
      Placed image index (system.mcu.stateQ != .idle) system.mcu.id)
    (inImage : index < image.blockCount)
    (atBlock : system.mcu.id.AtBlock image.mode index)
    (allowed : ImageCycle scan.tables image system cycle)
    (atEob : system.mcu.stateQ = .eob) :
    Placed image (index + 1) false (system.step cycle).mcu.id := by
  have ends :
      (idInput system.mcu (system.mcuInput cycle)).endOfBlock = true := by
    simp [idInput, nextBlock, atEob]
  have noBegin :
      (idInput system.mcu (system.mcuInput cycle)).startOfBlock = false := by
    simp [idInput, startBlock, atEob]
  rw [atEob] at placed
  rw [step_id allowed]
  by_cases subsampled : image.mode = .ycbcr420
  · exact placed.end_subsampled allowed.pins subsampled inImage noBegin
  · exact placed.end_full allowed.pins subsampled inImage atBlock ends
      noBegin allowed.endsInLastRow

/-- Once all blocks are shown no block is begun. -/
theorem Done.advance
    (done : Done scan system record)
    (allowed : ImageCycle scan.tables image system cycle) :
    Done scan (system.step cycle) (record.after system cycle) := by
  have promised := allowed.promised
  have kept := finished_prefix_after record system cycle
  have notOutput : system.mcu.stateQ ≠ .output := by
    rcases done.state with idle | eof <;> simp [*]
  refine ⟨Nat.le_trans done.all kept.length_le, ?_, ?_, ?_, ?_⟩
  · intro index group found inScan
    apply done.right index group _ inScan
    obtain ⟨further, grown⟩ := kept
    have all := done.all
    rwa [← grown, List.getElem?_append_left (by omega)] at found
  · have popsNothing := popped_eq_zero notOutput cycle
    exact BitBuffer.step_sound done.sound
      (by simp [System.bufferInput, promised.noReset, promised.noStart])
      (by
        change system.popped cycle ≤ _
        omega)
  · rw [step_id allowed]
    have running := allowed.pins.running
    unfold IdState.step
    rw [running]
    simp only [Bool.false_eq_true, ↓reduceIte, done.ended, Bool.true_or]
    split_ifs <;> simp
  · rw [step_stateQ promised]
    rcases done.state with idle | eof
    · simp [nextStateR, idle, System.mcuInput, promised.noStart, done.ended]
      cases cycle.outportBlkSpace <;> simp
    · simp [nextStateR, eof, System.mcuInput, promised.noStart]

/-- Every cycle of an image goes on emitting it. -/
theorem Emitting.advance
    (emitting : Emitting scan image padding system record)
    (inOrder : scan.order = componentOrder image.mode)
    (whole : scan.blocks.length = image.blockCount)
    (allowed : ImageCycle scan.tables image system cycle) :
    Emitting scan image padding (system.step cycle)
      (record.after system cycle) := by
  cases emitting with
  | done done => exact .done (done.advance allowed)
  | under_way index coded here decoding placed =>
      have inImage : index < image.blockCount := by
        rw [← whole]
        exact (List.getElem?_eq_some_iff.mp here).1
      obtain ⟨bits, frame⟩ := decoding.frame
      have imageOpen := placed.openAtStart inImage
      by_cases atEob : system.mcu.stateQ = .eob
      · have next :=
          decoding.next image.supported inOrder allowed.promised atEob
        have moved := placed.next inImage frame.atBlock allowed atEob
        cases due : scan.blocks[index + 1]? with
        | some following =>
            refine .under_way (index + 1) following due (.between next) ?_
            rw [next.state]
            exact moved
        | none =>
            have count : index + 1 = image.blockCount := by
              have beyond := List.getElem?_eq_none_iff.mp due
              omega
            refine .done ⟨?_, ?_, next.frame.sound, ?_, .inl next.state⟩
            · rw [next.frame.counted, whole, count]
            · intro earlier group found _
              exact next.frame.shown earlier group found
            · exact moved.ended.mpr (.inl count)
      · exact .under_way index coded here
          (decoding.advance here inOrder allowed.promised allowed.inTime
            imageOpen atEob)
          (placed.advance inImage frame.atBlock allowed atEob
            decoding.notEof)

end Cycles

/-! ## Progress -/

/-- No neighbour stalls in this cycle. -/
def eager (system : System) (cycle : Cycle) : Bool :=
  cycle.sourceValid &&
    (cycle.sourceLast || !(system.sourceNext cycle).isEmpty) &&
    (cycle.answer.isSome || system.pending.isEmpty) &&
    cycle.outportBlkSpace

/-- The next byte of the scan is offered, and its end told behind it. -/
def supplied (system : System) (cycle : Cycle) : Bool :=
  cycle.sourceValid &&
    (cycle.sourceLast || !(system.sourceNext cycle).isEmpty)

/-- The decoder is given what it waits for in its state. -/
def served (system : System) (cycle : Cycle) : Bool :=
  match system.mcu.stateQ with
  | .idle =>
      if BitBuffer.outportValid system.buffer then cycle.outportBlkSpace
      else supplied system cycle
  | .fetchWord =>
      BitBuffer.outportValid system.buffer || supplied system cycle
  | .huffLookup => cycle.answer.isSome
  | .output => true
  | .eob => true
  | .eof => false

/-- The states of the FSM left until the next bits are popped. -/
def stateWeight (s : State) : Nat :=
  match s.stateQ with
  | .idle => 3
  | .fetchWord => if 63 ≤ s.coeffIdxQ then 5 else 2
  | .huffLookup => 1
  | .output => 0
  | .eob => 4
  | .eof => 0

/-- The bytes the source holds, and whether its end is to be told. -/
def supplyLeft (system : System) : Nat :=
  system.source.length + (!system.buffer.drainQ).toNat

/-- What cycles without a stall use up until the image is emitted. -/
def workLeft (system : System) : Nat :=
  8 * system.undecoded.length + stateWeight system.mcu + supplyLeft system

section Progress

variable {scan : Scan} {image : Image} {padding : List Bool}
variable {system : System} {record : Record} {cycle : Cycle}

/-- The supply never grows. -/
theorem supplyLeft_step
    (promised : Promised scan.tables image.mode system cycle) :
    supplyLeft (system.step cycle) ≤ supplyLeft system := by
  have drain :
      (system.step cycle).buffer.drainQ =
        (system.buffer.drainQ || cycle.sourceLast) := by
    simp [System.step, BitBuffer.step, System.bufferInput, promised.noReset,
      promised.noStart]
  have shorter :
      (system.step cycle).source.length ≤ system.source.length := by
    simp only [System.step, System.sourceNext]
    split <;> simp
  unfold supplyLeft
  rw [drain]
  cases system.buffer.drainQ <;> cases cycle.sourceLast <;> simp <;> omega

/-- What is supplied for an invalid window uses up supply. -/
theorem supplyLeft_supplied
    (promised : Promised scan.tables image.mode system cycle)
    (isSupplied : supplied system cycle = true)
    (invalid : BitBuffer.outportValid system.buffer = false)
    (left : system.undecoded ≠ []) :
    supplyLeft (system.step cycle) + 1 ≤ supplyLeft system := by
  rw [supplied, Bool.and_eq_true] at isSupplied
  obtain ⟨offers, tells⟩ := isSupplied
  have drain :
      (system.step cycle).buffer.drainQ =
        (system.buffer.drainQ || cycle.sourceLast) := by
    simp [System.step, BitBuffer.step, System.bufferInput, promised.noReset,
      promised.noStart]
  simp only [BitBuffer.outportValid, Bool.or_eq_false_iff,
    decide_eq_false_iff_not] at invalid
  have room : BitBuffer.inportAccept system.buffer = true := by
    have few := invalid.1
    simp only [BitBuffer.inportAccept, decide_eq_true_eq]
    bv_omega
  unfold supplyLeft
  rw [drain]
  cases source : system.source with
  | cons byte rest =>
      have taken :
          BitBuffer.pushes system.buffer (system.bufferInput cycle) =
            true := by
        simp [BitBuffer.pushes, System.bufferInput, offers, source, room]
      have next : (system.step cycle).source = rest := by
        simp [System.step, System.sourceNext, taken, source]
      rw [next]
      cases system.buffer.drainQ <;> cases cycle.sourceLast <;> simp
  | nil =>
      have next : system.sourceNext cycle = [] := by
        simp [System.sourceNext, source]
      have told : cycle.sourceLast = true := by
        simpa [next] using tells
      have notDrained : system.buffer.drainQ = false := by
        cases drained : system.buffer.drainQ with
        | false => rfl
        | true =>
            have empty : system.buffer.countQ = 0#7 := by
              simpa [drained] using invalid.2
            apply absurd _ left
            simp [System.undecoded, source, BitBuffer.queue, empty]
      have nextSource : (system.step cycle).source = [] := next
      simp [nextSource, told, notDrained]

/-- The undecoded bits never grow, and shrink when bits are popped. -/
theorem undecoded_length_step
    (promised : Promised scan.tables image.mode system cycle)
    (sound : BitBuffer.Sound system.buffer)
    (enough : system.popped cycle ≤ (BitBuffer.queue system.buffer).length) :
    (system.step cycle).undecoded.length =
      system.undecoded.length - system.popped cycle := by
  rw [System.undecoded_step sound promised.noReset promised.noStart enough,
    List.length_drop]

/-- A block that is not complete has bits to come. -/
theorem undecoded_ne_nil
    {index : Nat}
    {coded : CodedBlock}
    (here : scan.blocks[index]? = some coded)
    {rest : List Bool}
    (bits : system.undecoded = coded.bits ++ rest) :
    system.undecoded ≠ [] := by
  have code := (scan.coded index coded here).codes
  have long := (word_length code).1
  intro noBits
  have lengths := congrArg List.length (bits.symm.trans noBits)
  simp only [CodedBlock.bits, List.length_append, List.length_nil] at lengths
  omega

/-- Between two blocks work is used up by beginning the next one. -/
theorem Between.uses
    {index : Nat}
    {coded : CodedBlock}
    (between : Between scan image.mode padding index system record)
    (here : scan.blocks[index]? = some coded)
    (promised : Promised scan.tables image.mode system cycle)
    (imageOpen : OpenAtStart system) :
    (served system cycle).toNat + workLeft (system.step cycle) ≤
      workLeft system := by
  have state := between.state
  have openNow := imageOpen state
  have popsNothing : system.popped cycle = 0 :=
    popped_eq_zero (by simp [state]) cycle
  have bits :=
    undecoded_length_step promised between.frame.sound (by omega)
  have supply := supplyLeft_step promised
  have left : system.undecoded ≠ [] := by
    apply undecoded_ne_nil here
    rw [between.frame.undecoded, Scan.bitsFrom_eq here, List.append_assoc]
  have next := step_stateQ promised
  have idx : (system.step cycle).mcu.coeffIdxQ = 0#8 := by
    rw [step_coeffIdxQ promised]
    simp [coeffIdxNext, state, System.mcuInput, promised.noStart,
      between.idx]
  unfold workLeft
  cases valid : BitBuffer.outportValid system.buffer with
  | false =>
      have stays : (system.step cycle).mcu.stateQ = .idle := by
        rw [next]
        simp [nextStateR, state, System.mcuInput, promised.noStart, openNow,
          valid]
      have weight : stateWeight (system.step cycle).mcu = 3 := by
        simp [stateWeight, stays]
      have weightBefore : stateWeight system.mcu = 3 := by
        simp [stateWeight, state]
      have waitsFor : served system cycle = supplied system cycle := by
        simp [served, state, valid]
      rw [waitsFor]
      cases isSupplied : supplied system cycle with
      | false =>
          simp only [Bool.toNat_false]
          omega
      | true =>
          have used := supplyLeft_supplied promised isSupplied valid left
          simp only [Bool.toNat_true]
          omega
  | true =>
      have weightBefore : stateWeight system.mcu = 3 := by
        simp [stateWeight, state]
      cases space : cycle.outportBlkSpace with
      | false =>
          have stays : (system.step cycle).mcu.stateQ = .idle := by
            rw [next]
            simp [nextStateR, state, System.mcuInput, promised.noStart,
              space]
          have weight : stateWeight (system.step cycle).mcu = 3 := by
            simp [stateWeight, stays]
          have stalled : served system cycle = false := by
            simp [served, state, valid, space]
          rw [stalled, Bool.toNat_false]
          omega
      | true =>
          have begins : (system.step cycle).mcu.stateQ = .fetchWord := by
            rw [next]
            simp [nextStateR, state, System.mcuInput, promised.noStart,
              openNow, valid, space]
          have weight : stateWeight (system.step cycle).mcu = 2 := by
            simp [stateWeight, begins, idx]
          have one := Bool.toNat_le (served system cycle)
          omega

/-- A cycle that pops nothing uses up work when the FSM moves on. -/
theorem workLeft_of_weight
    {productive : Bool}
    (promised : Promised scan.tables image.mode system cycle)
    (sound : BitBuffer.Sound system.buffer)
    (notOutput : system.mcu.stateQ ≠ .output)
    (movesOn :
      productive.toNat + stateWeight (system.step cycle).mcu ≤
        stateWeight system.mcu) :
    productive.toNat + workLeft (system.step cycle) ≤ workLeft system := by
  have popsNothing := popped_eq_zero notOutput cycle
  have bits := undecoded_length_step promised sound (by omega)
  have supply := supplyLeft_step promised
  unfold workLeft
  omega

/-- A due code is asked for, or supply is used up. -/
theorem Fetching.uses
    {index : Nat}
    {coded : CodedBlock}
    {stage : Stage}
    {rest : List Bool}
    (fetching :
      Fetching scan image.mode padding index coded system record stage rest)
    (inOrder : scan.order = componentOrder image.mode)
    (promised : Promised scan.tables image.mode system cycle) :
    (served system cycle).toNat + workLeft (system.step cycle) ≤
      workLeft system := by
  have state := fetching.state
  have frame := fetching.block.frame
  have notLast := fetching.notLast
  have next := step_stateQ promised
  have weightBefore : stateWeight system.mcu = 2 := by
    simp [stateWeight, state, notLast]
  cases valid : BitBuffer.outportValid system.buffer with
  | true =>
      have looks : (system.step cycle).mcu.stateQ = .huffLookup := by
        rw [next]
        simp [nextStateR, state, System.mcuInput, promised.noStart, notLast,
          valid]
      have weight : stateWeight (system.step cycle).mcu = 1 := by
        simp [stateWeight, looks]
      have one := Bool.toNat_le (served system cycle)
      exact workLeft_of_weight promised frame.sound (by simp [state])
        (by omega)
  | false =>
      have waits : (system.step cycle).mcu.stateQ = .fetchWord := by
        rw [next]
        simp [nextStateR, state, System.mcuInput, promised.noStart, notLast,
          valid]
      have sameIdx :
          (system.step cycle).mcu.coeffIdxQ = system.mcu.coeffIdxQ := by
        rw [step_coeffIdxQ promised]
        simp [coeffIdxNext, state, System.mcuInput, promised.noStart, valid]
      have weight : stateWeight (system.step cycle).mcu = 2 := by
        simp [stateWeight, waits, sameIdx, notLast]
      have waitsFor : served system cycle = supplied system cycle := by
        simp [served, state, valid]
      rw [waitsFor]
      cases isSupplied : supplied system cycle with
      | false =>
          exact workLeft_of_weight promised frame.sound (by simp [state])
            (by rw [Bool.toNat_false]; omega)
      | true =>
          have typed := frame.atBlock.typed
          rw [← inOrder] at typed
          obtain ⟨word, symbol, codes, starts⟩ :=
            fetching.reached.codeDue fetching.block.here typed
          have long := (word_length codes).1
          have left : system.undecoded ≠ [] := by
            rw [frame.undecoded]
            intro noBits
            have inRest := starts.length_le
            have lengths := congrArg List.length noBits
            simp only [List.length_append, List.length_nil] at lengths
            omega
          have used := supplyLeft_supplied promised isSupplied valid left
          have bits :=
            undecoded_length_step promised frame.sound
              (by rw [popped_eq_zero (by simp [state]) cycle]; omega)
          unfold workLeft
          simp only [Bool.toNat_true]
          omega

/-- A waiting lookup is answered. -/
theorem Looking.uses
    {index : Nat}
    {coded : CodedBlock}
    {stage : Stage}
    {rest : List Bool}
    (looking :
      Looking scan image.mode padding index coded system record stage rest)
    (promised : Promised scan.tables image.mode system cycle) :
    (served system cycle).toNat + workLeft (system.step cycle) ≤
      workLeft system := by
  have state := looking.state
  have next := step_stateQ promised
  apply workLeft_of_weight promised looking.block.frame.sound
    (by simp [state])
  have weightBefore : stateWeight system.mcu = 1 := by
    simp [stateWeight, state]
  cases answer : cycle.answer with
  | none =>
      have stalled : served system cycle = false := by
        simp [served, state, answer]
      have waits : (system.step cycle).mcu.stateQ = .huffLookup := by
        rw [next]
        simp [nextStateR, state, System.mcuInput, promised.noStart, answer]
      have weight : stateWeight (system.step cycle).mcu = 1 := by
        simp [stateWeight, waits]
      rw [stalled, Bool.toNat_false]
      omega
  | some given =>
      have outputs : (system.step cycle).mcu.stateQ = .output := by
        rw [next]
        simp [nextStateR, state, System.mcuInput, promised.noStart, answer]
      have weight : stateWeight (system.step cycle).mcu = 0 := by
        simp [stateWeight, outputs]
      have one := Bool.toNat_le (served system cycle)
      omega

/-- An answered code pops at least one bit. -/
theorem Answered.uses
    {index : Nat}
    {coded : CodedBlock}
    {stage : Stage}
    {rest word : List Bool}
    {symbol : BitVec 8}
    (answered :
      Answered scan image.mode padding index coded system record stage rest
        word symbol)
    (inOrder : scan.order = componentOrder image.mode)
    (promised : Promised scan.tables image.mode system cycle) :
    (served system cycle).toNat + workLeft (system.step cycle) ≤
      workLeft system := by
  have state := answered.state
  have supply := supplyLeft_step promised
  have next : (system.step cycle).mcu.stateQ = .fetchWord := by
    rw [step_stateQ promised]
    simp [nextStateR, state, System.mcuInput, promised.noStart]
  have shorter :
      (system.step cycle).undecoded.length < system.undecoded.length := by
    cases stage with
    | dc => exact (answered.advance_dc inOrder promised).2
    | ac position symbols =>
        exact (answered.advance_ac inOrder promised).2
  have weight : stateWeight (system.step cycle).mcu ≤ 5 := by
    simp only [stateWeight, next]
    split <;> omega
  have one := Bool.toNat_le (served system cycle)
  unfold workLeft
  omega

/-- A complete block ends, and an ended one makes room for the next. -/
theorem Closed.uses
    {index : Nat}
    {coded : CodedBlock}
    (closed : Closed scan image.mode padding index coded system record)
    (promised : Promised scan.tables image.mode system cycle) :
    (served system cycle).toNat + workLeft (system.step cycle) ≤
      workLeft system := by
  have state := closed.state
  have last : 63#8 ≤ system.mcu.coeffIdxQ := closed.idx
  have ends : (system.step cycle).mcu.stateQ = .eob := by
    rw [step_stateQ promised]
    simp [nextStateR, state, System.mcuInput, promised.noStart, last]
  apply workLeft_of_weight promised closed.block.frame.sound (by simp [state])
  have one := Bool.toNat_le (served system cycle)
  simp [stateWeight, state, ends, last]
  omega

theorem Ending.uses
    {index : Nat}
    {coded : CodedBlock}
    (ending : Ending scan image.mode padding index coded system record)
    (promised : Promised scan.tables image.mode system cycle) :
    (served system cycle).toNat + workLeft (system.step cycle) ≤
      workLeft system := by
  have state := ending.state
  have rests : (system.step cycle).mcu.stateQ = .idle := by
    rw [step_stateQ promised]
    simp [nextStateR, state, System.mcuInput, promised.noStart]
  apply workLeft_of_weight promised ending.block.frame.sound (by simp [state])
  have one := Bool.toNat_le (served system cycle)
  simp [stateWeight, state, rests]
  omega

/-- While a block is decoded its cycles use up work. -/
theorem Decoding.uses
    {index : Nat}
    {coded : CodedBlock}
    (decoding :
      Decoding scan image.mode padding index coded system record)
    (here : scan.blocks[index]? = some coded)
    (inOrder : scan.order = componentOrder image.mode)
    (promised : Promised scan.tables image.mode system cycle)
    (imageOpen : OpenAtStart system) :
    (served system cycle).toNat + workLeft (system.step cycle) ≤
      workLeft system := by
  cases decoding with
  | between phase => exact phase.uses here promised imageOpen
  | fetching stage rest phase => exact phase.uses inOrder promised
  | looking stage rest phase => exact phase.uses promised
  | answered stage rest word symbol phase =>
      exact phase.uses inOrder promised
  | closed phase => exact phase.uses promised
  | ending phase => exact phase.uses promised

/-- Neighbours that do not stall serve a decoder that is at a block. -/
theorem Decoding.served_of_eager
    {index : Nat}
    {coded : CodedBlock}
    (decoding :
      Decoding scan image.mode padding index coded system record)
    (cycle : Cycle) :
    (eager system cycle).toNat ≤ (served system cycle).toNat := by
  cases noStall : eager system cycle with
  | false => exact Nat.zero_le _
  | true =>
      have isServed : served system cycle = true := by
        simp only [eager, Bool.and_eq_true] at noStall
        obtain ⟨⟨⟨offers, tells⟩, answered⟩, space⟩ := noStall
        have isSupplied : supplied system cycle = true := by
          rw [supplied, offers, tells]
          rfl
        unfold served
        cases decoding with
        | between phase => simp [phase.state, isSupplied, space]
        | fetching stage rest phase => simp [phase.state, isSupplied]
        | looking stage rest phase =>
            obtain ⟨input, -, waiting⟩ := phase.waiting
            simpa [phase.state, waiting] using answered
        | answered stage rest word symbol phase => simp [phase.state]
        | closed phase => simp [phase.state, isSupplied]
        | ending phase => simp [phase.state]
      rw [isServed]

/-- With all blocks shown the state after the image is entered. -/
theorem Done.uses
    (done : Done scan system record)
    (promised : Promised scan.tables image.mode system cycle)
    (notEof : system.mcu.stateQ ≠ .eof) :
    (eager system cycle).toNat + workLeft (system.step cycle) ≤
      workLeft system := by
  have state : system.mcu.stateQ = .idle :=
    done.state.resolve_right notEof
  have next := step_stateQ promised
  apply workLeft_of_weight promised done.sound (by simp [state])
  have weightBefore : stateWeight system.mcu = 3 := by
    simp [stateWeight, state]
  have one := Bool.toNat_le (eager system cycle)
  cases space : cycle.outportBlkSpace with
  | true =>
      have ends : (system.step cycle).mcu.stateQ = .eof := by
        rw [next]
        simp [nextStateR, state, System.mcuInput, promised.noStart, space,
          done.ended]
      have weight : stateWeight (system.step cycle).mcu = 0 := by
        simp [stateWeight, ends]
      omega
  | false =>
      have stays : (system.step cycle).mcu.stateQ = .idle := by
        rw [next]
        simp [nextStateR, state, System.mcuInput, promised.noStart, space]
      have weight : stateWeight (system.step cycle).mcu = 3 := by
        simp [stateWeight, stays]
      have stalled : eager system cycle = false := by
        simp [eager, space]
      rw [stalled, Bool.toNat_false]
      omega

/-- Every cycle before the end-of-image state uses up work, if eager. -/
theorem Emitting.uses
    (emitting : Emitting scan image padding system record)
    (inOrder : scan.order = componentOrder image.mode)
    (whole : scan.blocks.length = image.blockCount)
    (promised : Promised scan.tables image.mode system cycle)
    (notEof : system.mcu.stateQ ≠ .eof) :
    (eager system cycle).toNat + workLeft (system.step cycle) ≤
      workLeft system := by
  cases emitting with
  | done done => exact done.uses promised notEof
  | under_way index coded here decoding placed =>
      have inImage : index < image.blockCount := by
        rw [← whole]
        exact (List.getElem?_eq_some_iff.mp here).1
      have used :=
        decoding.uses here inOrder promised (placed.openAtStart inImage)
      have served_ := decoding.served_of_eager cycle
      omega

end Progress

/-! ## Runs -/

/-- The decoder rests in the state after the image. -/
def AtEof (system : System) : Prop := system.mcu.stateQ = .eof

instance (system : System) : Decidable (AtEof system) := by
  unfold AtEof
  infer_instance

/-- A run emits every block of the scan before the end of the image. -/
structure EmitsScan
    (scan : Scan)
    (start : System)
    (cycles : List Cycle) : Prop where
  /-- Every group of a block of the scan shows that block. -/
  shown :
    ∀ (index : Nat) (group : Group),
      (blockGroups start cycles)[index]? = some group →
        index < scan.blocks.length → group.Shows scan index
  /-- No block is missing when the end of the image shows. -/
  beforeEof :
    AtEof (Clocked.run System.step start cycles) ∨
        (Clocked.run System.step start cycles).mcu.id.blockTypeQ = .eof →
      scan.blocks.length ≤ (blockGroups start cycles).length
  /-- After the last block the next cycle with space ends the image. -/
  afterLast :
    scan.blocks.length ≤ (blockGroups start cycles).length →
      AtEof (Clocked.run System.step start cycles) ∨
        ∀ cycle : Cycle,
          cycle.rst = false → cycle.imgStart = false →
          cycle.outportBlkSpace = true →
            AtEof ((Clocked.run System.step start cycles).step cycle)
  /-- The end is reached within a bounded number of cycles without stall. -/
  reached :
    Clocked.Along System.step (fun system _ => ¬ AtEof system) start cycles →
      Clocked.tally System.step eager start cycles ≤ workLeft start

/-- A block is due or being decoded while fewer have been shown. -/
theorem Emitting.emits
    {scan : Scan}
    {image : Image}
    {padding : List Bool}
    {system : System}
    {record : Record}
    (emitting : Emitting scan image padding system record) :
    ShownRight scan record ∧
      (AtEof system ∨ system.mcu.id.blockTypeQ = .eof →
        scan.blocks.length ≤ record.finished.length) ∧
      (scan.blocks.length ≤ record.finished.length →
        Done scan system record) := by
  cases emitting with
  | done done => exact ⟨done.right, fun _ => done.all, fun _ => done⟩
  | under_way index coded here decoding placed =>
      obtain ⟨bits, frame⟩ := decoding.frame
      have inScan := (List.getElem?_eq_some_iff.mp here).1
      refine ⟨fun earlier group found _ => frame.shown earlier group found,
        ?_, ?_⟩
      · rintro (atEof | typed)
        · exact absurd atEof decoding.notEof
        · rw [frame.atBlock.typed] at typed
          cases component : componentOrder image.mode index <;>
            simp [component, BlockType.ofComponent] at typed
      · intro all
        have counted := frame.counted
        omega

/--
When `img_end_i` is high at the last decision of `jpeg_mcu_id` and low at every
earlier one, a run emits every block of the scan before the end of the image
and then ends it.
-/
theorem emits_every_block
    (image : Image)
    (scan : Scan)
    (inOrder : scan.order = componentOrder image.mode)
    (whole : scan.blocks.length = image.blockCount)
    (padding : List Bool)
    (source : List Byte)
    (spelled : source.flatMap bitsOf = scan.bits ++ padding)
    (ramQ : BitVec 3 → Byte)
    (cycles : List Cycle)
    (allowed :
      Clocked.Along System.step (ImageCycle scan.tables image)
        (System.initial ramQ source) cycles) :
    EmitsScan scan (System.initial ramQ source) cycles := by
  have initially :
      Emitting scan image padding (System.initial ramQ source) .empty := by
    have first : 0 < scan.blocks.length := by
      rw [whole]
      exact image.blockCount_pos
    exact .under_way 0 scan.blocks[0] (List.getElem?_eq_getElem first)
      (.between (between_initial image.mode ramQ spelled))
      (reset_placed image)
  have emitting :=
    Clocked.run_induction
      (motive := fun past system =>
        Emitting scan image padding system
          (recordOf
            (Clocked.observe System.step events
              (System.initial ramQ source) past)))
      initially
      (fun past cycle _ now before => by
        rw [recordOf_observe_concat]
        exact before.advance inOrder whole now)
      cycles allowed
  obtain ⟨right, beforeEof, finished⟩ := emitting.emits
  refine ⟨right, beforeEof, ?_, ?_⟩
  · intro all
    have done := finished all
    rcases done.state with idle | eof
    · right
      intro cycle noReset noStart space
      simp [AtEof, System.step, step, System.mcuInput, noReset, nextStateR,
        idle, noStart, space, done.ended]
    · exact .inl eof
  · intro notEof
    have preserved :
        ∀ (system : System) (cycle : Cycle),
          (∃ record, Emitting scan image padding system record) →
            ImageCycle scan.tables image system cycle ∧ ¬ AtEof system →
              ∃ record, Emitting scan image padding (system.step cycle)
                record :=
      by
        rintro system cycle ⟨record, before⟩ now
        exact ⟨record.after system cycle, before.advance inOrder whole now.1⟩
    refine
      Clocked.tally_le_potential preserved ?_ ⟨.empty, initially⟩
        (allowed.both notEof)
    rintro system cycle ⟨record, before⟩ now
    exact before.uses inOrder whole now.1.promised now.2

/-! ## An early end -/

/-- A monochrome image of two blocks, one above the other. -/
def columnImage : Image where
  mode := .monochrome
  width := 8
  height := 16
  supported := by decide
  widthPositive := by decide
  heightPositive := by decide
  widthWhole := by decide
  heightWhole := by decide

/-- The cycles of a run in which `img_end_i` rises at a given cycle. -/
def endingAt (rise : Nat) (cycles : List Cycle) : List Cycle :=
  cycles.zipIdx.map fun (cycle, number) =>
    { cycle with imgEnd := decide (rise ≤ number) }

/-- The end is seen while the second block is decoded. -/
def lateEndCycles : List Cycle :=
  endingAt 12 (promptCycles ++ [scanCycle true none])

/-- The end is seen before the first block is decoded. -/
def earlyEndCycles : List Cycle :=
  endingAt 3 (promptCycles.take 12)

/-- With the end seen in the second row, both blocks are emitted. -/
theorem emits_every_block_column :
    EmitsScan emptyScan emptyStart lateEndCycles ∧
      AtEof (Clocked.run System.step emptyStart lateEndCycles) :=
  ⟨emits_every_block columnImage emptyScan rfl (by decide)
    [true, true, true, true] [0xAF] (by decide +kernel) (fun _ => 0)
    lateEndCycles (by decide +kernel),
    by decide +kernel⟩

/--
The level of `img_end_i` alone does not suffice: it may be high before the
first row is decoded, and the decoder then stops after that row.
-/
theorem early_end_loses_block :
    ¬ ∀ (image : Image) (scan : Scan) (padding : List Bool)
        (source : List Byte) (ramQ : BitVec 3 → Byte) (cycles : List Cycle),
      scan.order = componentOrder image.mode →
      scan.blocks.length = image.blockCount →
      padding.length ≤ 7 →
      source.flatMap bitsOf = scan.bits ++ padding →
      Clocked.Along System.step (Promised scan.tables image.mode)
        (System.initial ramQ source) cycles →
      Clocked.Along System.step AnsweredInTime
        (System.initial ramQ source) cycles →
      (∀ cycle ∈ cycles, cycle.imgWidth = image.width) →
      Clocked.Along System.step
        (fun system cycle => cycle.imgEnd = true → system.source = [])
        (System.initial ramQ source) cycles →
      cycles.Pairwise
        (fun earlier later => earlier.imgEnd = true → later.imgEnd = true) →
      EmitsScan scan (System.initial ramQ source) cycles := by
  intro claimed
  have emits :=
    claimed columnImage emptyScan [true, true, true, true] [0xAF]
      (fun _ => 0) earlyEndCycles rfl (by decide) (by decide)
      (by decide +kernel) (by decide +kernel) (by decide +kernel)
      (by decide +kernel) (by decide +kernel) (by decide +kernel)
  have few : ¬ 2 ≤
      (blockGroups (System.initial (fun _ => 0) [0xAF])
        earlyEndCycles).length := by
    decide +kernel
  exact few (emits.beforeEof (by decide +kernel))

end CoreJpeg.McuProc
