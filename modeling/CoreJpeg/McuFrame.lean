import CoreJpeg.McuSystem

namespace CoreJpeg.McuProc

/-!
# One cycle of the entropy decoder

What a cycle does to the parts the decoding invariant speaks about: the bits
that are not decoded yet, the record of the pins, the component of the block
and the numbers the decoder computes.  The frame collects what holds in every
state of the FSM; it survives every cycle that pops nothing and ends no block.
-/

open EntropyCode BitString

/-! ## Numbers -/

/-- `decode_number` extends the magnitude bits of a category. -/
theorem decodeNumber_eq
    {size : Nat}
    (sizeSmall : size ≤ 15)
    {raw : BitVec 16}
    (fits : raw.toNat < 2 ^ size) :
    decodeNumber raw (BitVec.ofNat 5 size) =
      BitVec.ofInt 16 (extend size raw.toNat) := by
  have sizeNat : (BitVec.ofNat 5 size).toNat = size := by
    simp
    omega
  rcases Nat.eq_zero_or_pos size with rfl | positive
  · simp [decodeNumber, extend]
  have lowered : (BitVec.ofNat 5 size - 1).toNat = size - 1 := by
    bv_omega
  have half : 2 ^ size = 2 * 2 ^ (size - 1) := by
    rw [← pow_succ']
    congr 1
    omega
  have topBit :
      raw.getLsbD (size - 1) = decide (2 ^ (size - 1) ≤ raw.toNat) := by
    rw [BitVec.getLsbD, Nat.testBit_eq_decide_div_mod_eq, decide_eq_decide]
    constructor
    · intro odd
      by_contra small
      rw [Nat.div_eq_of_lt (by omega)] at odd
      omega
    · intro large
      have one : raw.toNat / 2 ^ (size - 1) = 1 := by
        apply Nat.div_eq_of_lt_le <;> omega
      omega
  have masked :
      (raw.setWidth 32 &&&
          ((1 : BitVec 32) <<< (BitVec.ofNat 5 size - 1))) =
        if raw.getLsbD (size - 1) then BitVec.twoPow 32 (size - 1)
        else 0 := by
    have shifted :
        (1 : BitVec 32) <<< (size - 1) = BitVec.twoPow 32 (size - 1) :=
      (BitVec.twoPow_eq 32 (size - 1)).symm
    rw [BitVec.shiftLeft_eq', lowered, shifted, BitVec.and_twoPow,
      BitVec.getLsbD_setWidth]
    simp [show size - 1 < 32 by omega]
  have someBits : (BitVec.ofNat 5 size != 0) = true := by
    rw [bne_iff_ne]
    bv_omega
  have power : BitVec.twoPow 32 (size - 1) ≠ 0 := by
    intro zero
    have value := congrArg BitVec.toNat zero
    rw [BitVec.toNat_twoPow_of_lt (by omega)] at value
    exact absurd value (Nat.two_pow_pos _).ne'
  unfold decodeNumber
  rcases Nat.lt_or_ge raw.toNat (2 ^ (size - 1)) with small | large
  · have clear : raw.getLsbD (size - 1) = false := by
      rw [topBit]
      simpa using small
    have extended : extend size raw.toNat = (raw.toNat : Int) - 2 ^ size + 1 :=
      if_pos ⟨by omega, by omega⟩
    have filled := toNat_or_high_ones (by omega) fits
    rw [masked, clear, someBits]
    simp only [Bool.false_eq_true, ↓reduceIte, Bool.and_true, beq_self_eq_true]
    rw [extended, BitVec.shiftLeft_eq', sizeNat]
    apply BitVec.eq_of_toNat_eq
    rw [BitVec.toNat_add, filled, BitVec.toNat_ofInt]
    have below : 2 ^ size ≤ 2 ^ 15 := Nat.pow_le_pow_right (by decide) sizeSmall
    have cast : ((2 ^ size : Nat) : Int) = 2 ^ size := by push_cast; rfl
    rw [← cast]
    simp
    omega
  · have set : raw.getLsbD (size - 1) = true := by
      rw [topBit]
      simpa using large
    have extended : extend size raw.toNat = raw.toNat :=
      if_neg (by omega)
    have unequal : (BitVec.twoPow 32 (size - 1) == 0) = false :=
      beq_eq_false_iff_ne.mpr power
    rw [masked, set, extended, if_pos rfl, unequal]
    simp
/-! ## Undecoded bits -/

namespace System

/-- The bits of the scan that have not been popped. -/
def undecoded (system : System) : List Bool :=
  BitBuffer.queue system.buffer ++ system.source.flatMap bitsOf

/-- The bits a cycle pops. -/
def popped (system : System) (cycle : Cycle) : Nat :=
  BitBuffer.popped system.buffer (system.bufferInput cycle)

/-- The byte a cycle pushes leaves the source. -/
theorem pushed_append_sourceNext (system : System) (cycle : Cycle) :
    BitBuffer.pushed system.buffer (system.bufferInput cycle) ++
        (system.sourceNext cycle).flatMap bitsOf =
      system.source.flatMap bitsOf := by
  unfold sourceNext BitBuffer.pushed
  cases taken : BitBuffer.pushes system.buffer (system.bufferInput cycle) with
  | false =>
      simp
  | true =>
      have offered : system.source ≠ [] := by
        simp only [BitBuffer.pushes, bufferInput, Bool.and_eq_true,
          Bool.not_eq_true', List.isEmpty_eq_false_iff] at taken
        exact taken.1.2
      obtain ⟨byte, rest, source⟩ := List.exists_cons_of_ne_nil offered
      simp [bufferInput, source]

/-- A cycle drops the popped bits from the undecoded ones. -/
theorem undecoded_step
    {system : System}
    (sound : BitBuffer.Sound system.buffer)
    {cycle : Cycle}
    (noReset : cycle.rst = false)
    (noStart : cycle.imgStart = false)
    (enough : system.popped cycle ≤ (BitBuffer.queue system.buffer).length) :
    (system.step cycle).undecoded =
      system.undecoded.drop (system.popped cycle) := by
  have queue :=
    BitBuffer.queue_step sound (i := system.bufferInput cycle)
      (by simp [bufferInput, noReset, noStart])
      (by simpa [popped] using enough)
  unfold undecoded
  rw [List.drop_append_of_le_length enough]
  simp only [step]
  rw [queue, List.append_assoc, pushed_append_sourceNext]
  rfl

/-- What starts the undecoded bits starts a valid window. -/
theorem starts_window
    {system : System}
    (drained : system.buffer.drainQ = true → system.source = [])
    (valid : BitBuffer.outportValid system.buffer = true)
    {bits : List Bool}
    (fits : bits.length ≤ 32)
    (starts : bits <+: system.undecoded) :
    bits <+: BitBuffer.queue system.buffer ∧
      bits <+: bitsOf (BitBuffer.outportData system.buffer) := by
  have inQueue : bits <+: BitBuffer.queue system.buffer := by
    rcases BitBuffer.held_of_outportValid valid with full | drain
    · exact List.prefix_of_prefix_length_le starts
        (List.prefix_append _ _) (by omega)
    · simpa [undecoded, drained drain] using starts
  exact ⟨inQueue, BitBuffer.prefix_window inQueue fits⟩

end System

/-! ## The record -/

namespace Record

/-- The record after the events of one more cycle. -/
def after (record : Record) (system : System) (cycle : Cycle) : Record :=
  (events system cycle).foldl add record

/-- Adding samples appends them to the current group. -/
theorem foldl_add_samples (record : Record) (samples : List Sample) :
    (samples.map Event.sample).foldl add record =
      { record with
        current :=
          { record.current with
            samples := record.current.samples ++ samples } } := by
  induction samples generalizing record with
  | nil =>
      simp
  | cons sample rest inductionHypothesis =>
      simp [inductionHypothesis, add]

/-- A cycle without an end-of-block pulse adds to the current group. -/
theorem after_running
    (record : Record)
    {system : System}
    {cycle : Cycle}
    (running : outportEob system.mcu = false) :
    record.after system cycle =
      { record with
        current :=
          { samples := record.current.samples ++ shownSample system.mcu
            popped := record.current.popped ++ poppedBits system cycle } } := by
  simp [after, events, running, foldl_add_samples, add]

/-- An end-of-block pulse finishes the current group. -/
theorem after_endOfBlock
    (record : Record)
    {system : System}
    {cycle : Cycle}
    (ends : outportEob system.mcu = true) :
    record.after system cycle =
      { finished :=
          record.finished ++
            [{ samples := record.current.samples ++ shownSample system.mcu
               popped :=
                record.current.popped ++ poppedBits system cycle }]
        current := ⟨[], []⟩ } := by
  simp [after, events, ends, foldl_add_samples, add]

end Record

/-- The record of a run extended by one cycle. -/
theorem recordOf_observe_concat
    (system : System)
    (past : List Cycle)
    (cycle : Cycle) :
    recordOf (Clocked.observe System.step events system (past ++ [cycle])) =
      (recordOf (Clocked.observe System.step events system past)).after
        (Clocked.run System.step system past) cycle := by
  simp [recordOf, Record.after, List.foldl_append]

/-! ## The component of the block -/

namespace IdState

/-- The registers name the component of the block with a number. -/
structure AtBlock (mode : ImageMode) (index : Nat) (s : IdState) : Prop where
  typed :
    s.blockTypeQ = BlockType.ofComponent (componentOrder mode index)
  indexed : mode = .ycbcr420 → s.typeIdxQ.toNat = index % 6

theorem reset_atBlock (mode : ImageMode) : AtBlock mode 0 reset where
  typed := by cases mode <;> rfl
  indexed := fun _ => rfl

/-- Within a block the component stays. -/
theorem AtBlock.keep
    {mode : ImageMode}
    {index : Nat}
    {s : IdState}
    (atBlock : AtBlock mode index s)
    {i : IdInput}
    (running : (i.rst || i.imgStart) = false)
    (modeKept : i.imgMode = mode)
    (within : i.endOfBlock = false)
    (imageOpen : (i.startOfBlock && s.endOfImageQ) = false) :
    AtBlock mode index (step s i) := by
  have kept :
      (typeNext s i).1 = s.blockTypeQ ∧ (typeNext s i).2 = s.typeIdxQ := by
    have typed := atBlock.typed
    unfold typeNext
    rw [imageOpen, within, modeKept]
    cases mode <;> simp [typed, componentOrder, BlockType.ofComponent]
  constructor
  · rw [step_blockTypeQ s running, kept.1, atBlock.typed]
  · intro subsampled
    rw [step_typeIdxQ s running, kept.2, atBlock.indexed subsampled]

/-- The end of a block moves to the component of the next one. -/
theorem AtBlock.next
    {mode : ImageMode}
    (supported : mode ≠ .unsupported)
    {index : Nat}
    {s : IdState}
    (atBlock : AtBlock mode index s)
    {i : IdInput}
    (running : (i.rst || i.imgStart) = false)
    (modeKept : i.imgMode = mode)
    (ends : i.endOfBlock = true)
    (within : i.startOfBlock = false) :
    AtBlock mode (index + 1) (step s i) := by
  have typed := atBlock.typed
  have moved :
      (typeNext s i).1 =
          BlockType.ofComponent (componentOrder mode (index + 1)) ∧
        (mode = .ycbcr420 → (typeNext s i).2.toNat = (index + 1) % 6) := by
    unfold typeNext
    rw [within, ends, modeKept]
    cases mode with
    | monochrome =>
        simp [componentOrder, BlockType.ofComponent]
    | unsupported =>
        exact absurd rfl supported
    | ycbcr444 =>
        have third : index % 3 = 0 ∨ index % 3 = 1 ∨ index % 3 = 2 := by
          omega
        rcases third with first | second | last
        · have after : (index + 1) % 3 = 1 := by omega
          simp [typed, componentOrder, BlockType.ofComponent, first, after,
            BlockType.succ]
        · have after : (index + 1) % 3 = 2 := by omega
          simp [typed, componentOrder, BlockType.ofComponent, second, after,
            BlockType.succ]
        · have after : (index + 1) % 3 = 0 := by omega
          simp [typed, componentOrder, BlockType.ofComponent, last, after]
    | ycbcr420 =>
        have place := atBlock.indexed rfl
        have sixth : index % 6 = 0 ∨ index % 6 = 1 ∨ index % 6 = 2 ∨
            index % 6 = 3 ∨ index % 6 = 4 ∨ index % 6 = 5 := by
          omega
        have after : (index + 1) % 6 = (index % 6 + 1) % 6 := by
          omega
        rcases sixth with here | here | here | here | here | here <;>
          rw [here] at place <;>
          simp [place, componentOrder, BlockType.ofComponent, after, here]
  constructor
  · rw [step_blockTypeQ s running, moved.1]
  · intro subsampled
    rw [step_typeIdxQ s running, moved.2 subsampled]

end IdState

/-! ## The frame -/

/--
What holds in every state of the FSM while a block is decoded: the undecoded
bits, the component and the predictors are those of the block, and all earlier
blocks have been shown.
-/
structure Frame
    (scan : Scan)
    (mode : ImageMode)
    (index : Nat)
    (bits : List Bool)
    (system : System)
    (record : Record) : Prop where
  sound : BitBuffer.Sound system.buffer
  drained : system.buffer.drainQ = true → system.source = []
  undecoded : system.undecoded = bits
  atBlock : system.mcu.id.AtBlock mode index
  predicted :
    ∀ component,
      system.mcu.prevDcCoeffQ (.ofComponent component) =
        scan.predictor index component
  counted : record.finished.length = index
  shown :
    ∀ (earlier : Nat) (group : Group),
      record.finished[earlier]? = some group → group.Shows scan earlier

/-- No new block is begun once the end of the image is inferred. -/
def OpenAtStart (system : System) : Prop :=
  system.mcu.stateQ = .idle → system.mcu.id.endOfImageQ = false

/-- A block begun while the image is open does not end the image. -/
theorem startBlock_open
    {system : System}
    (imageOpen : OpenAtStart system)
    (cycle : Cycle) :
    (startBlock system.mcu (system.mcuInput cycle) &&
      system.mcu.id.endOfImageQ) = false := by
  unfold startBlock
  cases atIdle : system.mcu.stateQ == .idle with
  | false =>
      simp
  | true =>
      simp [imageOpen (by simpa using atIdle)]

section FrameCycle

variable {tables : Tables} {scan : Scan} {mode : ImageMode} {index : Nat}
variable {bits : List Bool} {system : System} {record : Record}
variable {cycle : Cycle}

/-- The bit buffer stays sound and drains only an empty source. -/
theorem Frame.buffer_step
    (frame : Frame scan mode index bits system record)
    (promised : Promised tables mode system cycle)
    (enough : system.popped cycle ≤ (BitBuffer.queue system.buffer).length) :
    BitBuffer.Sound (system.step cycle).buffer ∧
      ((system.step cycle).buffer.drainQ = true →
        (system.step cycle).source = []) ∧
      (system.step cycle).undecoded = bits.drop (system.popped cycle) := by
  have running :
      ((system.bufferInput cycle).rst ||
        (system.bufferInput cycle).imgStart) = false := by
    simp [System.bufferInput, promised.noReset, promised.noStart]
  refine ⟨?_, ?_, ?_⟩
  · exact BitBuffer.step_sound frame.sound running
      (by simpa [System.popped] using enough)
  · intro drain
    have after :
        (system.step cycle).buffer.drainQ =
          (system.buffer.drainQ || cycle.sourceLast) := by
      simp [System.step, BitBuffer.step, running]
      rfl
    have either :
        system.buffer.drainQ = true ∨ cycle.sourceLast = true := by
      rwa [after, Bool.or_eq_true] at drain
    rcases either with before | last
    · simp [System.step, System.sourceNext, frame.drained before]
    · exact promised.lastAfterAll last
  · rw [System.undecoded_step frame.sound promised.noReset promised.noStart
      enough, frame.undecoded]

/-- A cycle within a block keeps the frame and drops the popped bits. -/
theorem Frame.keep
    (frame : Frame scan mode index bits system record)
    (promised : Promised tables mode system cycle)
    (imageOpen : OpenAtStart system)
    (notEob : system.mcu.stateQ ≠ .eob)
    (notEof : system.mcu.stateQ ≠ .eof)
    (enough : system.popped cycle ≤ (BitBuffer.queue system.buffer).length) :
    Frame scan mode index (bits.drop (system.popped cycle))
      (system.step cycle) (record.after system cycle) := by
  obtain ⟨sound, drained, undecoded⟩ := frame.buffer_step promised enough
  have noEnd : outportEob system.mcu = false := by
    simp [outportEob, notEob, notEof]
  refine ⟨sound, drained, undecoded, ?_, ?_, ?_, ?_⟩
  · have kept :=
      frame.atBlock.keep
        (i := idInput system.mcu (system.mcuInput cycle))
        (by simp [idInput, System.mcuInput, promised.noReset,
          promised.noStart])
        promised.modeKept
        (by simp [idInput, nextBlock, notEob])
        (startBlock_open imageOpen cycle)
    simpa [System.step, step, System.mcuInput, promised.noReset] using kept
  · intro component
    rw [← frame.predicted component]
    simp [System.step, step, System.mcuInput, promised.noReset,
      promised.noStart, notEob]
  · rw [record.after_running noEnd]
    exact frame.counted
  · rw [record.after_running noEnd]
    exact frame.shown

/-- A cycle that pops nothing keeps the frame with all its bits. -/
theorem Frame.quiet
    (frame : Frame scan mode index bits system record)
    (promised : Promised tables mode system cycle)
    (imageOpen : OpenAtStart system)
    (notEob : system.mcu.stateQ ≠ .eob)
    (notEof : system.mcu.stateQ ≠ .eof)
    (popsNothing : system.popped cycle = 0) :
    Frame scan mode index bits (system.step cycle)
      (record.after system cycle) := by
  have kept :=
    frame.keep promised imageOpen notEob notEof (by omega)
  rwa [popsNothing, List.drop_zero] at kept

/-- The decoder pops bits only in its output state. -/
theorem popped_eq_zero
    (notOutput : system.mcu.stateQ ≠ .output)
    (cycle : Cycle) :
    system.popped cycle = 0 := by
  simp [System.popped, BitBuffer.popped, BitBuffer.pops, System.bufferInput,
    inportPop, notOutput]

/-- A cycle that pops nothing shows no popped bits. -/
theorem poppedBits_eq_nil
    (popsNothing : system.popped cycle = 0) :
    poppedBits system cycle = [] := by
  have nothing :
      BitBuffer.popped system.buffer (system.bufferInput cycle) = 0 :=
    popsNothing
  simp [poppedBits, nothing]

/-- The end of a block moves the frame to the next block. -/
theorem Frame.next
    (frame : Frame scan mode index bits system record)
    (supported : mode ≠ .unsupported)
    (inOrder : scan.order = componentOrder mode)
    (promised : Promised tables mode system cycle)
    (atEob : system.mcu.stateQ = .eob)
    (dcKept : system.mcu.dcCoeffQ = scan.dcValue index)
    (isShown :
      Group.Shows
        { samples := record.current.samples ++ shownSample system.mcu
          popped := record.current.popped }
        scan index) :
    Frame scan mode (index + 1) bits (system.step cycle)
        (record.after system cycle) ∧
      (record.after system cycle).current = ⟨[], []⟩ := by
  have popsNothing : system.popped cycle = 0 :=
    popped_eq_zero (by simp [atEob]) cycle
  obtain ⟨sound, drained, undecoded⟩ :=
    frame.buffer_step promised (by omega)
  rw [popsNothing, List.drop_zero] at undecoded
  have ends : outportEob system.mcu = true := by
    simp [outportEob, atEob]
  have after := @Record.after_endOfBlock record system cycle ends
  rw [poppedBits_eq_nil popsNothing, List.append_nil] at after
  refine ⟨⟨sound, drained, undecoded, ?_, ?_, ?_, ?_⟩, by rw [after]⟩
  · have moved :=
      frame.atBlock.next supported
        (i := idInput system.mcu (system.mcuInput cycle))
        (by simp [idInput, System.mcuInput, promised.noReset,
          promised.noStart])
        promised.modeKept
        (by simp [idInput, nextBlock, atEob])
        (by simp [idInput, startBlock, atEob])
    simpa [System.step, step, System.mcuInput, promised.noReset] using moved
  · intro component
    have typed := frame.atBlock.typed
    rw [← inOrder] at typed
    have stored :
        (system.step cycle).mcu.prevDcCoeffQ (.ofComponent component) =
          if BlockType.ofComponent component = system.mcu.id.blockTypeQ then
            system.mcu.dcCoeffQ
          else system.mcu.prevDcCoeffQ (.ofComponent component) := by
      simp [System.step, step, System.mcuInput, promised.noReset,
        promised.noStart, atEob]
    rw [stored, typed, dcKept, frame.predicted component, Scan.predictor]
    rcases eq_or_ne (scan.order index) component with same | different
    · subst component
      simp [Scan.dcValue]
    · rw [if_neg different, if_neg]
      intro sameType
      apply different
      cases component <;> cases order : scan.order index <;>
        simp_all [BlockType.ofComponent]
  · rw [after, List.length_append, frame.counted]
    rfl
  · intro earlier group found
    rw [after] at found
    rcases Nat.lt_or_ge earlier record.finished.length with before | last
    · rw [List.getElem?_append_left before] at found
      exact frame.shown earlier group found
    · rw [List.getElem?_append_right last] at found
      have here : earlier = index := by
        have bound := (List.getElem?_eq_some_iff.mp found).1
        have counted := frame.counted
        simp only [List.length_singleton] at bound
        omega
      subst here
      rw [frame.counted, Nat.sub_self] at found
      simp only [List.getElem?_cons_zero, Option.some.injEq] at found
      rw [← found]
      exact isShown

end FrameCycle

end CoreJpeg.McuProc
