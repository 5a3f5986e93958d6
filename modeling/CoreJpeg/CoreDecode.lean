import CoreJpeg.CoreModel

namespace CoreJpeg.JpegCore

open BitString Clocked CoefficientChain McuProc

/-!
# From the bits of a scan to samples

The tables answer every lookup rightly and in time, so the entropy decoder
shows the blocks of the coded scan; the chain behind it multiplies and
transforms what it shows.  Whatever the source and the output stall, the
samples that leave are those of the blocks that were coded, in their order.
-/

/-- The bytes of a run spell a coded scan whose tables the circuit has. -/
structure Carries (run : Run) (scan : EntropyCode.Scan)
    (padding : List Bool) : Prop where
  supported : run.frame.imgMode ≠ .unsupported
  inOrder : scan.order = componentOrder run.frame.imgMode
  spelled : run.source.flatMap bitsOf = scan.bits ++ padding
  serves : run.first.dht.Serves scan.tables

/-- What the entropy decoder has shown before the `n`-th cycle. -/
def Run.recordAt (run : Run) : Nat → Record
  | 0 => .empty
  | n + 1 =>
      (run.recordAt n).after (run.stateAt n).decoder (run.decoderCycle n)

section Decode

variable {run : Run} {scan : EntropyCode.Scan} {padding : List Bool}

/-- As many groups are finished as blocks were ended. -/
theorem finished_length (run : Run) (n : Nat) :
    (run.recordAt n).finished.length = run.blocksEnded n := by
  induction n with
  | zero => rfl
  | succ n inductionHypothesis =>
      rw [Run.recordAt, Run.blocksEnded, ← inductionHypothesis]
      cases ends : outportEob (run.stateAt n).decoder.mcu with
      | false =>
          rw [Record.after_running _ ends]
          rfl
      | true =>
          rw [Record.after_endOfBlock _ ends, List.length_append]
          rfl

/-- A lookup finds all the time what it found first. -/
theorem find_kept (n : Nat) :
    (run.stateAt n).dht.find = run.first.dht.find := by
  induction n with
  | zero => rfl
  | succ n inductionHypothesis =>
      rw [← inductionHypothesis]
      exact JpegDht.Circuit.find_step (run.noReset n) (run.noDht n)

theorem Carries.serves_at
    (carries : Carries run scan padding)
    (n : Nat) :
    (run.stateAt n).dht.Serves scan.tables := by
  intro request
  rw [find_kept]
  exact carries.serves request

/-- A lookup is under way or none, and the decoder is at a block. -/
structure Underway (run : Run) (scan : EntropyCode.Scan)
    (padding : List Bool) (n : Nat) : Prop where
  decoded :
    Decoded scan run.frame.imgMode padding (run.stateAt n).decoder
      (run.recordAt n)
  serving :
    run.blocksEnded n < scan.blocks.length →
      JpegDht.Serving (run.stateAt n).dht (run.stateAt n).decoder

/-- The neighbours keep what the entropy decoder is promised. -/
theorem Underway.promised
    {n : Nat}
    (carries : Carries run scan padding)
    (serving :
      JpegDht.Serving (run.stateAt n).dht (run.stateAt n).decoder) :
    Promised scan.tables run.frame.imgMode (run.stateAt n).decoder
        (run.decoderCycle n) ∧
      AnsweredInTime (run.stateAt n).decoder (run.decoderCycle n) := by
  have isAnswer :
      (run.decoderCycle n).answer = (run.stateAt n).dht.answer := rfl
  obtain ⟨right, inTime⟩ := serving.promises (carries.serves_at n) isAnswer
  exact ⟨⟨run.noReset n, run.noStart n, rfl, run.lastAfterAll n, right⟩,
    inTime⟩

/-- One cycle of the decoder and its tables. -/
theorem Underway.step
    {n : Nat}
    (underway : Underway run scan padding n)
    (carries : Carries run scan padding)
    (imageOpen : OpenAtStart (run.stateAt n).decoder) :
    Underway run scan padding (n + 1) := by
  have counted := finished_length run n
  cases isDecoded : underway.decoded with
  | finished all right =>
      have kept := finished_prefix_after (run.recordAt n)
        (run.stateAt n).decoder (run.decoderCycle n)
      have later := finished_length run (n + 1)
      rw [Run.recordAt] at later
      have grows := kept.length_le
      refine ⟨.finished (all.trans grows) ?_, fun more => by omega⟩
      intro index group found inScan
      apply right index group _ inScan
      obtain ⟨further, grown⟩ := kept
      rw [Run.recordAt] at found
      rwa [← grown, List.getElem?_append_left (by omega)] at found
  | under_way index coded here decoding =>
      obtain ⟨bits, frame⟩ := decoding.frame
      have inScan := (List.getElem?_eq_some_iff.mp here).1
      have serving := underway.serving (by
        rw [← counted, frame.counted]
        exact inScan)
      obtain ⟨promised, inTime⟩ := Underway.promised carries serving
      refine ⟨underway.decoded.advance carries.supported carries.inOrder
        promised inTime imageOpen, fun _ => ?_⟩
      refine serving.step
        ⟨run.noReset n, run.noDht n, rfl, rfl, rfl⟩ (run.noReset n)
        (run.noStart n) rfl fun requested => ?_
      rw [lookupReq, Bool.and_eq_true, beq_iff_eq] at requested
      exact JpegDht.window_held frame.sound frame.drained (run.noReset n)
        (run.noStart n) requested.2
        (popped_eq_zero (by simp [requested.1]) _)

/-- While the image is open the decoder follows the scan. -/
theorem underway
    (carries : Carries run scan padding)
    {n : Nat}
    (imageOpen : run.ImageOpen n) :
    Underway run scan padding n := by
  induction n with
  | zero =>
      obtain ⟨ramQ, isInitial⟩ := run.ready.decoder
      constructor
      · have initially :=
          decoded_initial run.frame.imgMode ramQ carries.spelled
        rwa [← isInitial] at initially
      · refine fun _ => .quiet run.ready.dht ?_
        rw [Run.stateAt, trace, isInitial]
        rfl
  | succ n inductionHypothesis =>
      exact (inductionHypothesis fun m before =>
        imageOpen m (by omega)).step carries (imageOpen n (by omega))

/-- The end of a block of the scan closes the group of its samples. -/
theorem block_ended
    (carries : Carries run scan padding)
    {n : Nat}
    (imageOpen : run.ImageOpen n)
    (inScan : run.blocksEnded n < scan.blocks.length)
    (ended : outportEob (run.stateAt n).decoder.mcu = true) :
    Group.Shows
      { samples := (run.recordAt n).current.samples ++
          shownSample (run.stateAt n).decoder.mcu
        popped := (run.recordAt n).current.popped }
      scan (run.blocksEnded n) := by
  have counted := finished_length run n
  cases (underway carries imageOpen).decoded with
  | finished all right => omega
  | under_way index coded here decoding =>
      obtain ⟨bits, frame⟩ := decoding.frame
      have isIndex := frame.counted
      have notEof := decoding.notEof
      have ending : (run.stateAt n).decoder.mcu.stateQ = .eob := by
        rw [outportEob, Bool.or_eq_true, Bool.and_eq_true, beq_iff_eq,
          beq_iff_eq] at ended
        exact ended.resolve_right fun both => notEof both.1
      rw [← counted, isIndex]
      cases decoding with
      | ending phase => exact phase.shown
      | between phase => simp [phase.state] at ending
      | fetching stage rest phase => simp [phase.state] at ending
      | looking stage rest phase => simp [phase.state] at ending
      | answered stage rest word symbol phase => simp [phase.state] at ending
      | closed phase => simp [phase.state] at ending

/-! ## The block that ends -/

/-- A decoder that is not idle began a block. -/
theorem begun
    {chain : CoefficientChain.Scan}
    {n : Nat}
    (busy : (chain.stateAt n).mcu.stateQ ≠ .idle) :
    ∃ start, chain.startsAt start = true ∧ chain.InBlock start n := by
  induction n with
  | zero => exact absurd chain.clean.waiting busy
  | succ n inductionHypothesis =>
      by_cases isIdle : (chain.stateAt n).mcu.stateQ = .idle
      · refine ⟨n, ?_, Nat.lt_succ_self n, fun m after before => by omega⟩
        have next : (chain.stateAt (n + 1)).mcu.stateQ =
            nextStateR (chain.stateAt n).mcu (chain.mcuPins n) := by
          rw [Scan.mcu_succ]
          simp [McuProc.step, (chain.runs n).noReset]
        rw [next] at busy
        change startBlock (chain.stateAt n).mcu (chain.mcuPins n) = true
        simpa [startBlock, isIdle] using busy
      · obtain ⟨start, starts, after, quiet⟩ := inductionHypothesis isIdle
        refine ⟨start, starts, by omega, fun m later before => ?_⟩
        rcases Nat.lt_succ_iff_lt_or_eq.mp before with inside | rfl
        · exact quiet m later inside
        · rw [Bool.eq_false_iff]
          exact fun startsToo => isIdle (idle_of_start startsToo)

/-- A sample as the software keeps it. -/
def kept (sample : McuProc.Sample) : Software.Sample where
  coeff := sample.idx.toNat
  value := sample.data

theorem shownSample_kept (n : Nat) :
    (shownSample (run.stateAt n).decoder.mcu).map kept =
      (run.chain.sampleAt n).toList := by
  rw [shownSample, Scan.sampleAt, Scan.emits, run.chain_stateAt, State.chain]
  split_ifs <;> rfl

/-- What the record holds of a block are the block's samples. -/
theorem record_samples
    {start n : Nat}
    (begins : run.chain.Begins start)
    (fresh : (run.recordAt start).current = ⟨[], []⟩)
    (after : start ≤ n)
    (noEnd : ∀ m, start < m → m ≤ n → run.chain.ends m = false) :
    (run.recordAt (n + 1)).current.samples.map kept =
      run.chain.samples start n := by
  have running (m : Nat) (quiet : run.chain.ends m = false) :
      (run.recordAt (m + 1)).current.samples =
        (run.recordAt m).current.samples ++
          shownSample (run.stateAt m).decoder.mcu := by
    rw [Scan.ends, run.chain_stateAt] at quiet
    rw [Run.recordAt, Record.after_running _ quiet]
  induction after with
  | refl =>
      have prepared := begins.prepared
      obtain ⟨noSample, noEnd⟩ :=
        Scan.idle_silent prepared.imageOpen prepared.isIdle
      have silent :
          (shownSample (run.stateAt start).decoder.mcu).map kept = _ :=
        shownSample_kept start
      rw [Scan.sampleAt, noSample] at silent
      rw [running start noEnd, fresh, List.nil_append, silent, Scan.samples,
        Nat.sub_self]
      rfl
  | step later inductionHypothesis =>
      rename_i m
      have before := inductionHypothesis fun k first last =>
        noEnd k first (by omega)
      rw [running (m + 1) (noEnd (m + 1) (Nat.lt_succ_of_le later)
          (Nat.le_refl _)),
        List.map_append, before, shownSample_kept, Scan.samples_succ later]

/-! ## Coefficients -/

/-- The coefficients of a block, multiplied and in the order of the image. -/
def dequantised (coefficient : Nat → BitVec 16) (quantiser : Nat → Byte)
    (place : Nat) : Int :=
  if place < 64 then
    let position := Software.zigzagTable.idxOf place
    (coefficient position).toInt * (quantiser position).toNat
  else 0

/-- The place of a zigzag index has no other one. -/
theorem zigzag_place :
    ∀ position < 64, ∀ place < 64,
      (place = Software.zigzagTable.getD position 0 ↔
        Software.zigzagTable.idxOf place = position) := by
  decide +kernel

theorem zigzag_inside :
    ∀ position < 64, Software.zigzagTable.getD position 0 < 64 := by
  decide +kernel

/-- `process_samples` multiplies the coefficients that the samples give. -/
theorem processSamples_kept
    (tables : Software.DqtTables)
    {table : Nat}
    (isTable : table < 4)
    (samples : List McuProc.Sample) :
    Software.processSamples tables table (samples.map kept) =
      .ok (dequantised (readSamples samples) (tables table)) := by
  induction samples using List.reverseRecOn with
  | nil =>
      refine congrArg Except.ok (funext fun place => ?_)
      simp [dequantised, readSamples]
  | append_singleton samples sample inductionHypothesis =>
      rw [Software.processSamples] at inductionHypothesis
      rw [List.map_append, List.map_singleton, Software.processSamples,
        List.foldlM_append, inductionHypothesis]
      have inside : sample.idx.toNat < 64 := sample.idx.isLt
      have one : Software.processSample tables table
          (dequantised (readSamples samples) (tables table)) (kept sample) =
            .ok fun place =>
              if place = Software.zigzagTable.getD sample.idx.toNat 0 then
                sample.data.toInt *
                  ((tables table sample.idx.toNat).toNat : Int)
              else dequantised (readSamples samples) (tables table) place := by
        simp only [Software.processSample, Software.dqtLookup, kept, isTable,
          inside, and_self, if_true, bind, Except.bind]
        rfl
      have folded := one
      rw [← bind_pure (Software.processSample tables table _ _)] at folded
      refine folded.trans (congrArg Except.ok (funext fun place => ?_))
      rcases Nat.lt_or_ge place 64 with isPlace | outside
      · have same := zigzag_place _ inside place isPlace
        simp only [dequantised, isPlace, if_true, readSamples_concat, same,
          eq_comm (a := sample.idx.toNat)]
        split_ifs with here
        · rw [here]
        · rfl
      · have apart : place ≠ Software.zigzagTable.getD sample.idx.toNat 0 := by
          have small := zigzag_inside _ inside
          omega
        simp only [dequantised, if_neg apart, if_neg (Nat.not_lt.mpr outside)]

theorem zigzag_position :
    ∀ place < 64, Software.zigzagTable.idxOf place < 64 := by
  decide +kernel

/-- Only coefficients and quantisers of the block count. -/
theorem dequantised_congr
    {coefficient other : Nat → BitVec 16}
    (same : ∀ position < 64, coefficient position = other position)
    (quantiser : Nat → Byte) :
    dequantised coefficient quantiser = dequantised other quantiser := by
  funext place
  unfold dequantised
  split_ifs with inside
  · simp only [same _ (zigzag_position place inside)]
  · rfl

/-! ## Every block of the scan -/

/-- The quantiser of a component for a zigzag index. -/
def Run.quantiser (run : Run) (component : EntropyCode.Component)
    (position : Nat) : Byte :=
  let table :=
    match component with
    | .y => run.frame.imgDqtTableY
    | .cb => run.frame.imgDqtTableCb
    | .cr => run.frame.imgDqtTableCr
  run.first.dqt.loader.entry table position

theorem chain_tables (run : Run) (component : EntropyCode.Component) :
    run.chain.tables
        (run.chain.dqtTable (.ofComponent component)).toNat =
      run.quantiser component := by
  funext position
  rw [Scan.tables, BitVec.ofNat_toNat, BitVec.setWidth_eq]
  cases component <;> rfl

theorem endsBefore_eq (run : Run) (n : Nat) :
    run.chain.endsBefore n = run.blocksEnded n := by
  induction n with
  | zero => rfl
  | succ n inductionHypothesis =>
      rw [Scan.endsBefore, Run.blocksEnded, inductionHypothesis, Scan.ends,
        run.chain_stateAt]
      rfl

/-- Without end pulses in between as many blocks have ended. -/
theorem blocksEnded_kept
    {start n : Nat}
    (after : start ≤ n)
    (noEnd : ∀ m, start ≤ m → m < n → run.chain.ends m = false) :
    run.blocksEnded n = run.blocksEnded start := by
  induction after with
  | refl => rfl
  | step later inductionHypothesis =>
      rename_i m
      have quiet := noEnd m later (Nat.lt_succ_self m)
      rw [Scan.ends, run.chain_stateAt] at quiet
      rw [Run.blocksEnded, inductionHypothesis fun k first last =>
        noEnd k first (by omega)]
      simp only [State.chain] at quiet
      simp [quiet]

/-- The block of the scan that ends in a cycle. -/
structure Ends (run : Run) (scan : EntropyCode.Scan) (sent index : Nat) :
    Prop where
  ended : outportEob (run.stateAt sent).decoder.mcu = true
  counted : run.blocksEnded sent = index
  inScan : index < scan.blocks.length
  imageOpen : run.ImageOpen (sent + 1)

theorem Ends.chainEnds
    {sent index : Nat}
    (ends : Ends run scan sent index) :
    run.chain.ends sent = true := by
  rw [Scan.ends, run.chain_stateAt]
  exact ends.ended

theorem blocksEnded_mono
    {n later : Nat}
    (before : n ≤ later) :
    run.blocksEnded n ≤ run.blocksEnded later := by
  induction before with
  | refl => exact Nat.le_refl _
  | step _ inductionHypothesis =>
      exact inductionHypothesis.trans (Nat.le_add_right _ _)

/-- Before the end of a block of the scan the decoder is at one. -/
theorem Ends.atBlock
    {sent index n : Nat}
    (ends : Ends run scan sent index)
    (carries : Carries run scan padding)
    (before : n ≤ sent) :
    ∃ coded,
      Decoding scan run.frame.imgMode padding (run.blocksEnded n) coded
        (run.stateAt n).decoder (run.recordAt n) := by
  have counted := finished_length run n
  have fewer : run.blocksEnded n ≤ run.blocksEnded sent :=
    blocksEnded_mono before
  have inScan := ends.inScan
  rw [← ends.counted] at inScan
  have imageOpen : run.ImageOpen n := fun m inside =>
    ends.imageOpen m (by omega)
  cases (underway carries imageOpen).decoded with
  | finished all right => omega
  | under_way atIndex coded here decoding =>
      obtain ⟨bits, frame⟩ := decoding.frame
      have isIndex := frame.counted
      rw [counted] at isIndex
      exact ⟨coded, isIndex ▸ decoding⟩

/-- A block that ends was begun as the block of the scan with its number. -/
theorem Ends.started
    {sent index : Nat}
    (ends : Ends run scan sent index)
    (carries : Carries run scan padding) :
    ∃ start, run.chain.Begins start ∧ run.chain.InBlock start sent ∧
      run.chain.blockType start = .ofComponent (scan.order index) ∧
      (run.recordAt start).current = ⟨[], []⟩ := by
  have chainEnds := ends.chainEnds
  have busy : (run.chain.stateAt sent).mcu.stateQ ≠ .idle := by
    rcases Scan.ending_or_eof chainEnds with state | state <;> simp [state]
  obtain ⟨start, starts, inBlock⟩ := begun busy
  have isIdle := idle_of_start starts
  obtain ⟨coded, decoding⟩ :=
    ends.atBlock carries (Nat.succ_le_of_lt inBlock.1)
  obtain ⟨bits, frame⟩ := decoding.frame
  have type : run.chain.blockType start =
      .ofComponent (scan.order (run.blocksEnded (start + 1))) := by
    rw [Scan.blockType, run.chain_stateAt, carries.inOrder]
    exact frame.atBlock.typed
  have begins : run.chain.Begins start := by
    refine ⟨starts, ?_⟩
    rw [type]
    cases scan.order (run.blocksEnded (start + 1)) <;>
      simp [BlockType.ofComponent]
  have same : run.blocksEnded sent = run.blocksEnded (start + 1) :=
    blocksEnded_kept (Nat.succ_le_of_lt inBlock.1) fun m first last =>
      Scan.before_end begins inBlock (.inr chainEnds) m first last
  refine ⟨start, begins, inBlock, ?_, ?_⟩
  · rw [type, ← same, ends.counted]
  · obtain ⟨coded, decoding⟩ := ends.atBlock carries inBlock.1.le
    rw [run.chain_stateAt] at isIdle
    have state : (run.stateAt start).decoder.mcu.stateQ = .idle := isIdle
    cases decoding with
    | between phase => exact phase.empty
    | fetching stage rest phase => simp [phase.state] at state
    | looking stage rest phase => simp [phase.state] at state
    | answered stage rest word symbol phase => simp [phase.state] at state
    | closed phase => simp [phase.state] at state
    | ending phase => simp [phase.state] at state

/-- The samples that end with a block give its coefficients. -/
theorem Ends.coefficients
    {sent index : Nat}
    (ends : Ends run scan sent index)
    (carries : Carries run scan padding)
    {start : Nat}
    (begins : run.chain.Begins start)
    (inBlock : run.chain.InBlock start sent)
    (fresh : (run.recordAt start).current = ⟨[], []⟩) :
    ∃ samples : List McuProc.Sample,
      run.chain.samples start sent = samples.map kept ∧
        ∀ position < 64,
          readSamples samples position = scan.coefficient index position := by
  have noEnd := Scan.before_end begins inBlock (.inr ends.chainEnds)
  have after := inBlock.1
  obtain ⟨n, rfl⟩ : ∃ n, sent = n + 1 := ⟨sent - 1, by omega⟩
  have inScan := ends.inScan
  rw [← ends.counted] at inScan
  have shown := block_ended carries
    (fun m inside => ends.imageOpen m (by omega)) inScan ends.ended
  rw [ends.counted] at shown
  refine ⟨_, ?_, shown.coefficients⟩
  rw [List.map_append, shownSample_kept,
    record_samples begins fresh (by omega) fun m first last =>
      noEnd m first (by omega),
    ← Scan.samples_succ (by omega)]

/-- The transform behind the run is that of the decoder. -/
theorem idctRun (run : Run) :
    JpegIdct.Run (run.chain.idctAt run.first.idct) run.chain.idctPins :=
  Scan.idctRun run.ready.idct

theorem chain_samplesAt (run : Run) :
    JpegIdct.samplesAt (run.chain.idctAt run.first.idct) = run.samplesAt := by
  funext n
  rw [Run.samplesAt]
  exact congrArg (fun s => JpegIdct.samplesAt s n) (funext run.chain_idctAt)

/-- What the scan says of a block, multiplied by its quantisers. -/
def Run.blockOf (run : Run) (scan : EntropyCode.Scan) (index : Nat) :
    Nat → Int :=
  dequantised (scan.coefficient index) (run.quantiser (scan.order index))

/-- A block that ends goes by the id that the decoder shows then. -/
theorem Ends.blockId_eq
    {sent index start : Nat}
    (ends : Ends run scan sent index)
    (begins : run.chain.Begins start)
    (inBlock : run.chain.InBlock start sent) :
    run.chain.blockId start = outportId (run.stateAt sent).decoder.mcu := by
  rw [← (Scan.id_kept begins inBlock (.inr ends.chainEnds)).1,
    run.chain_stateAt]
  rfl

/-- That id names the component of the block. -/
theorem Ends.typed
    {sent index : Nat}
    (ends : Ends run scan sent index)
    (carries : Carries run scan padding) :
    (outportId (run.stateAt sent).decoder.mcu).extractLsb' 30 2 =
      (BlockType.ofComponent (scan.order index)).code := by
  obtain ⟨start, begins, inBlock, type, -⟩ := ends.started carries
  rw [← ends.blockId_eq begins inBlock, Scan.blockId, outportId_type]
  exact congrArg BlockType.code type

/-- The block that ends is handed to the transform with all it needs. -/
theorem Ends.closed
    {sent index : Nat}
    (ends : Ends run scan sent index)
    (carries : Carries run scan padding) :
    ∃ block,
      (JpegIdct.blocksAt (run.chain.idctAt run.first.idct)
          run.chain.idctPins (sent + 3))[index]? = some block ∧
        JpegIdct.Heeds (run.chain.idctAt run.first.idct) run.chain.idctPins
            (sent + 3) ∧
          block.id = outportId (run.stateAt sent).decoder.mcu ∧
            ∀ place < 64,
              JpegIdct.word block.coeffs place =
                Scan.wordOf (run.blockOf scan index) place := by
  obtain ⟨start, begins, inBlock, type, fresh⟩ := ends.started carries
  obtain ⟨samples, isSamples, coefficients⟩ :=
    ends.coefficients carries begins inBlock fresh
  have chainEnds := ends.chainEnds
  obtain ⟨block, blockOut, isBlock, processed, isId, words⟩ :=
    Scan.block_closed run.ready.idct rfl begins inBlock chainEnds
  rw [endsBefore_eq, ends.counted] at isBlock
  have same : blockOut = run.blockOf scan index := by
    rw [isSamples, processSamples_kept _ (BitVec.isLt _), type,
      Except.ok.injEq, chain_tables] at processed
    rw [← processed]
    exact dequantised_congr coefficients _
  rw [same] at words
  exact ⟨block, isBlock, Scan.heeds rfl begins inBlock chainEnds,
    isId.trans (ends.blockId_eq begins inBlock), words⟩

/-- What leaves in the place of a block is the transformed block. -/
theorem Ends.sample
    {sent index : Nat}
    (ends : Ends run scan sent index)
    (carries : Carries run scan padding)
    {time m : Nat}
    (inside : m < 64)
    {sample : JpegIdct.Sample}
    (isSample : (run.samplesAt time)[64 * index + m]? = some sample) :
    sample.id = outportId (run.stateAt sent).decoder.mcu ∧
      sample.idx = JpegIdct.ptrConv (BitVec.ofNat 6 m) ∧
      sample.data =
        Software.idctProcessWrap (Scan.wordOf (run.blockOf scan index))
          sample.idx.toNat := by
  obtain ⟨block, isBlock, inTime, isId, words⟩ := ends.closed carries
  rw [← chain_samplesAt] at isSample
  have here := (idctRun run).block_samples inTime isBlock inside isSample
  refine ⟨by rw [here]; exact isId, by rw [here]; rfl, ?_⟩
  rw [here]
  exact Software.idctProcessWrap_congr words

/-- A block that ended leaves when samples are not refused for ever. -/
theorem Ends.leaves
    {sent index : Nat}
    (ends : Ends run scan sent index)
    (carries : Carries run scan padding)
    (fair : ∀ n, ∃ wait, (run.cycles (n + wait)).outportAccept = true) :
    ∃ time, 64 * index + 64 ≤ (run.samplesAt time).length := by
  obtain ⟨block, isBlock, -⟩ := ends.closed carries
  rw [← chain_samplesAt]
  exact (idctRun run).block_leaves fair (List.getElem?_eq_some_iff.mp isBlock).1

/--
From bits to samples: the block of the scan that ends leaves in its place, with
the code of its component.  Its samples are the software's transform of the
coefficients that were coded, multiplied by the quantisers of its component;
where no rotated sum of the transform leaves 32 bits they are exact.  When
`jpeg_output` does not refuse samples for ever, all of them leave.
-/
theorem scan_transformed
    (run : Run)
    (scan : EntropyCode.Scan)
    (padding : List Bool)
    (carries : Carries run scan padding)
    {sent index : Nat}
    (ends : Ends run scan sent index) :
    (∀ time, ∀ m < 64, ∀ sample,
      (run.samplesAt time)[64 * index + m]? = some sample →
        sample.id.extractLsb' 30 2 =
            (BlockType.ofComponent (scan.order index)).code ∧
          sample.idx = JpegIdct.ptrConv (BitVec.ofNat 6 m) ∧
          sample.data =
            Software.idctProcessWrap (Scan.wordOf (run.blockOf scan index))
              sample.idx.toNat ∧
          (Software.Baseline (run.blockOf scan index) →
            Software.RotationsFit (run.blockOf scan index) →
              sample.data.toInt =
                Software.idctProcess (run.blockOf scan index)
                  sample.idx.toNat)) ∧
      ((∀ n, ∃ wait, (run.cycles (n + wait)).outportAccept = true) →
        ∃ time, 64 * index + 64 ≤ (run.samplesAt time).length) := by
  refine ⟨fun time m inside sample isSample => ?_, ends.leaves carries⟩
  obtain ⟨isId, isIdx, data⟩ := ends.sample carries inside isSample
  refine ⟨isId ▸ ends.typed carries, isIdx, data, fun baseline fits => ?_⟩
  rw [data]
  exact Scan.transform_exact baseline fits sample.idx

end Decode

/-! ## Two blocks -/

/-- A block with two coefficients behind its mean. -/
def brightBlock : EntropyCode.CodedBlock where
  block := { difference := 5, symbols := [.value 1 2, .value 0 (-1)] }
  dcWord := [true, false, false]
  acBits :=
    [true, true, false, true, true, true, false, false, false, false,
      true, false, true, false]

theorem bright_coded :
    EntropyCode.BlockCode
      ((JpegDht.builtIn .yDc).code (JpegDht.builtIn_kraft .yDc))
      ((JpegDht.builtIn .yAc).code (JpegDht.builtIn_kraft .yAc))
      brightBlock.block brightBlock.dcWord brightBlock.acBits where
  categorySmall := by decide
  codes := by decide +kernel
  coded :=
    have first :
        ((JpegDht.builtIn .yAc).code (JpegDht.builtIn_kraft .yAc)).Codes
          [true, true, false, true, true] (EntropyCode.runSize 1 2) := by
      decide +kernel
    have second :
        ((JpegDht.builtIn .yAc).code (JpegDht.builtIn_kraft .yAc)).Codes
          [false, false] (EntropyCode.runSize 0 1) := by
      decide +kernel
    have ended :
        ((JpegDht.builtIn .yAc).code (JpegDht.builtIn_kraft .yAc)).Codes
          [true, false, true, false] EntropyCode.endOfBlock := by
      decide +kernel
    @EntropyCode.AcCode.value _ 1 1 2 _ _ _ (by decide) (by decide)
      (by decide) (by decide) first
      (@EntropyCode.AcCode.value _ 3 0 (-1) _ _ _ (by decide) (by decide)
        (by decide) (by decide) second (.endOfBlock (by decide) ended))

/-- A darker block with one coefficient. -/
def darkBlock : EntropyCode.CodedBlock where
  block := { difference := -3, symbols := [.value 1 1] }
  dcWord := [false, true, true]
  acBits := [true, true, false, false, true, true, false, true, false]

theorem dark_coded :
    EntropyCode.BlockCode
      ((JpegDht.builtIn .yDc).code (JpegDht.builtIn_kraft .yDc))
      ((JpegDht.builtIn .yAc).code (JpegDht.builtIn_kraft .yAc))
      darkBlock.block darkBlock.dcWord darkBlock.acBits where
  categorySmall := by decide
  codes := by decide +kernel
  coded :=
    have first :
        ((JpegDht.builtIn .yAc).code (JpegDht.builtIn_kraft .yAc)).Codes
          [true, true, false, false] (EntropyCode.runSize 1 1) := by
      decide +kernel
    have ended :
        ((JpegDht.builtIn .yAc).code (JpegDht.builtIn_kraft .yAc)).Codes
          [true, false, true, false] EntropyCode.endOfBlock := by
      decide +kernel
    @EntropyCode.AcCode.value _ 1 1 1 _ _ _ (by decide) (by decide)
      (by decide) (by decide) first (.endOfBlock (by decide) ended)

/-- A monochrome image of two blocks in the tables of the standard. -/
def pairScan : EntropyCode.Scan where
  order := componentOrder .monochrome
  tables := JpegDht.codesOf JpegDht.builtIn JpegDht.builtIn_kraft
  blocks := [brightBlock, darkBlock]
  coded := by
    intro index coded here
    have member := List.mem_of_getElem? here
    rw [List.mem_pair] at member
    rcases member with rfl | rfl
    · exact bright_coded
    · exact dark_coded

/-- The frame of an image of two blocks side by side. -/
def pairFrame : CoefficientChain.Frame where
  imgWidth := 16
  imgMode := .monochrome
  imgDqtTableY := 0
  imgDqtTableCb := 0
  imgDqtTableCr := 0

/-- Five bytes hold both blocks; the quantisers differ. -/
def pairFirst : State where
  decoder := .initial (fun _ => 0) [0x97, 0x70, 0xA6, 0x66, 0x80]
  dht := .standard ⟨false, 0, 0⟩
  dqt := JpegDqt.reset (fun address => address + 2) 0
  idct :=
    .reset (fun _ _ => 0) (fun _ => 0) (fun _ _ => 0) (fun _ => 0) fun _ => 0

/-- Nothing stalls, and the end is told with the last byte. -/
def pairCycle (n : Nat) : Cycle where
  rst := false
  imgStart := false
  imgEnd := true
  sourceValid := true
  sourceLast := decide (4 ≤ n)
  dhtCfgValid := false
  dhtCfgData := 0
  dhtCfgLast := false
  dqtCfgValid := false
  dqtCfgData := 0
  dqtCfgLast := false
  outportAccept := true

/-- Every cycle takes a byte as long as there is one. -/
theorem pair_taken (n : Nat) :
    let s := trace (State.step pairFrame) pairFirst pairCycle (n + 4)
    s.decoder.sourceNext (s.decoderCycle pairFrame (pairCycle (n + 4))) =
      [] := by
  induction n with
  | zero => decide +kernel
  | succ n inductionHypothesis =>
      rw [Nat.add_right_comm]
      intro s
      have taken : s.decoder.source = [] := inductionHypothesis
      simp [System.sourceNext, taken]

/-- A run over the two blocks. -/
def pairRun : Run where
  frame := pairFrame
  source := [0x97, 0x70, 0xA6, 0x66, 0x80]
  first := pairFirst
  cycles := pairCycle
  ready :=
    { decoder := ⟨_, rfl⟩
      dht := rfl
      inportEmpty := ⟨rfl, rfl⟩
      outportEmpty := ⟨rfl, rfl⟩
      idct := JpegIdct.State.empty_reset _ _ _ _ _ }
  noReset _ := rfl
  noStart _ := rfl
  noDht _ := rfl
  noDqt _ := rfl
  lastAfterAll n last := by
    obtain ⟨m, rfl⟩ := Nat.exists_eq_add_of_le' (of_decide_eq_true last)
    exact pair_taken m

theorem pairRun_carries :
    Carries pairRun pairScan (List.replicate 6 false) where
  supported := by decide
  inOrder := rfl
  spelled := by decide +kernel
  serves := JpegDht.Circuit.standard_serves _

theorem pairRun_ends : Ends pairRun pairScan 32 1 where
  ended := by decide +kernel
  counted := by decide +kernel
  inScan := by decide
  imageOpen := by
    unfold Run.ImageOpen OpenAtStart
    decide +kernel

/-- The second block leaves with all its samples. -/
theorem scan_transformed_pair :
    Ends pairRun pairScan 32 1 ∧
      ∃ time, 64 * 1 + 64 ≤ (pairRun.samplesAt time).length :=
  ⟨pairRun_ends,
    (scan_transformed pairRun pairScan (List.replicate 6 false)
      pairRun_carries pairRun_ends).2 fun _ => ⟨0, rfl⟩⟩

end CoreJpeg.JpegCore
