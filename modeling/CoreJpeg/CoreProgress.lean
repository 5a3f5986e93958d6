import CoreJpeg.CoreDecode
import CoreJpeg.McuEnd

namespace CoreJpeg.JpegCore

open Clocked CoefficientChain McuProc

/-!
# Every block of an image is decoded

The decoder waits for bytes, for the answers of its tables and for a free slot
of the transform.  None of them stays away: the tables answer within two
cycles, and behind a decoder that waits for a slot the transform runs empty.
When the source and the output are not blocked for ever, the samples of a whole
image leave.
-/

/-- The bytes of a run spell an image whose end is told in its last row. -/
structure CarriesImage (run : Run) (image : Image) (scan : EntropyCode.Scan)
    (padding : List Bool) : Prop where
  carries : Carries run scan padding
  modeKept : run.frame.imgMode = image.mode
  widthKept : run.frame.imgWidth = image.width
  whole : scan.blocks.length = image.blockCount
  endsInLastRow :
    ∀ n,
      EndsInLastRow image (run.stateAt n).decoder.mcu.id
        (idInput (run.stateAt n).decoder.mcu
          ((run.stateAt n).decoder.mcuInput (run.decoderCycle n)))

section Image

variable {run : Run} {image : Image} {scan : EntropyCode.Scan}
variable {padding : List Bool}

/-! ## The decoder at the blocks of an image -/

/-- The decoder is at a block of the image, and its tables serve it. -/
structure AtBlock (run : Run) (image : Image) (scan : EntropyCode.Scan)
    (padding : List Bool) (n index : Nat) (coded : EntropyCode.CodedBlock) :
    Prop where
  here : scan.blocks[index]? = some coded
  decoding :
    Decoding scan image.mode padding index coded (run.stateAt n).decoder
      (run.recordAt n)
  placed :
    Placed image index ((run.stateAt n).decoder.mcu.stateQ != .idle)
      (run.stateAt n).decoder.mcu.id
  serving : JpegDht.Serving (run.stateAt n).dht (run.stateAt n).decoder

namespace AtBlock

variable {n index : Nat} {coded : EntropyCode.CodedBlock}
variable (atBlock : AtBlock run image scan padding n index coded)
variable (carriesImage : CarriesImage run image scan padding)

include atBlock

theorem openAtStart (carriesImage : CarriesImage run image scan padding) :
    OpenAtStart (run.stateAt n).decoder := by
  apply atBlock.placed.openAtStart
  rw [← carriesImage.whole]
  exact (List.getElem?_eq_some_iff.mp atBlock.here).1

include carriesImage

/-- What the neighbours keep while the decoder is at a block. -/
theorem allowed :
    ImageCycle scan.tables image (run.stateAt n).decoder
      (run.decoderCycle n) := by
  obtain ⟨promised, inTime⟩ :=
    Underway.promised carriesImage.carries atBlock.serving
  rw [carriesImage.modeKept] at promised
  exact ⟨promised, inTime, carriesImage.widthKept,
    carriesImage.endsInLastRow n⟩

/-- What the decoder waits for uses up work when it comes. -/
theorem uses :
    (served (run.stateAt n).decoder (run.decoderCycle n)).toNat +
        workLeft (run.stateAt (n + 1)).decoder ≤
      workLeft (run.stateAt n).decoder := by
  have inOrder := carriesImage.carries.inOrder
  rw [carriesImage.modeKept] at inOrder
  exact atBlock.decoding.uses atBlock.here inOrder
    (atBlock.allowed carriesImage).promised
    (atBlock.openAtStart carriesImage)

end AtBlock

/-- As long as blocks are missing the decoder is at one of them. -/
theorem CarriesImage.atBlock
    (carriesImage : CarriesImage run image scan padding)
    {n : Nat}
    (more : run.blocksEnded n < scan.blocks.length) :
    run.ImageOpen (n + 1) ∧
      ∃ index coded, AtBlock run image scan padding n index coded := by
  have carries := carriesImage.carries
  have inOrder := carries.inOrder
  rw [carriesImage.modeKept] at inOrder
  induction n with
  | zero =>
      obtain ⟨ramQ, isInitial⟩ := run.ready.decoder
      have state : (run.stateAt 0).decoder = .initial ramQ run.source :=
        isInitial
      have first : 0 < scan.blocks.length := by
        rw [carriesImage.whole]
        exact image.blockCount_pos
      have atFirst : AtBlock run image scan padding 0 0 scan.blocks[0] := by
        refine ⟨List.getElem?_eq_getElem first, ?_, ?_, ?_⟩
        · rw [state]
          exact .between (between_initial image.mode ramQ carries.spelled)
        · rw [state]
          exact reset_placed image
        · exact (underway carries fun m before => by omega).serving more
      refine ⟨fun m before => ?_, 0, _, atFirst⟩
      obtain rfl : m = 0 := by omega
      exact atFirst.openAtStart carriesImage
  | succ n inductionHypothesis =>
      have moreBefore : run.blocksEnded n < scan.blocks.length :=
        Nat.lt_of_le_of_lt (blocksEnded_mono n.le_succ) more
      obtain ⟨imageOpen, index, coded, atBlock⟩ :=
        inductionHypothesis moreBefore
      have emitting :
          Emitting scan image padding (run.stateAt (n + 1)).decoder
            (run.recordAt (n + 1)) :=
        Emitting.advance
          (.under_way index coded atBlock.here atBlock.decoding
            atBlock.placed)
          inOrder carriesImage.whole (atBlock.allowed carriesImage)
      cases emitting with
      | done done =>
          have all := done.all
          rw [finished_length] at all
          omega
      | under_way next following here decoding placed =>
          have atNext : AtBlock run image scan padding (n + 1) next
              following :=
            ⟨here, decoding, placed, (underway carries imageOpen).serving more⟩
          refine ⟨fun m before => ?_, next, following, atNext⟩
          rcases Nat.lt_succ_iff_lt_or_eq.mp before with earlier | rfl
          · exact imageOpen m earlier
          · exact atNext.openAtStart carriesImage

/-- A block that was counted was ended in some cycle. -/
theorem ended_of_counted
    {n index : Nat}
    (counted : index < run.blocksEnded n) :
    ∃ sent, outportEob (run.stateAt sent).decoder.mcu = true ∧
      run.blocksEnded sent = index := by
  induction n with
  | zero => exact absurd counted (Nat.not_lt_zero index)
  | succ n inductionHypothesis =>
      by_cases before : index < run.blocksEnded n
      · exact inductionHypothesis before
      · rw [Run.blocksEnded] at counted
        cases ends : outportEob (run.stateAt n).decoder.mcu with
        | false =>
            rw [ends, Bool.toNat_false] at counted
            omega
        | true =>
            rw [ends, Bool.toNat_true] at counted
            exact ⟨n, ends, by omega⟩

/-- A block of the image that was counted ended as a block of the scan. -/
theorem CarriesImage.ends_of_counted
    (carriesImage : CarriesImage run image scan padding)
    {n index : Nat}
    (inScan : index < scan.blocks.length)
    (counted : index < run.blocksEnded n) :
    ∃ sent, Ends run scan sent index := by
  obtain ⟨sent, ended, same⟩ := ended_of_counted counted
  exact ⟨sent, ended, same, inScan,
    (carriesImage.atBlock (by rw [same]; exact inScan)).1⟩

/-! ## A decoder that gets nothing -/

/-- From some time on blocks are missing and the decoder gets nothing. -/
structure Starved (run : Run) (scan : EntropyCode.Scan) (first : Nat) :
    Prop where
  more : ∀ n, first ≤ n → run.blocksEnded n < scan.blocks.length
  unserved :
    ∀ n, first ≤ n →
      served (run.stateAt n).decoder (run.decoderCycle n) = false

section Starved

variable {first : Nat} (starved : Starved run scan first)
variable (carriesImage : CarriesImage run image scan padding)

include starved carriesImage

/-- A decoder that gets nothing waits where it is. -/
theorem Starved.stays
    {n : Nat}
    (after : first ≤ n) :
    (run.stateAt (n + 1)).decoder.mcu.stateQ =
      (run.stateAt n).decoder.mcu.stateQ := by
  obtain ⟨-, index, coded, atBlock⟩ :=
    carriesImage.atBlock (starved.more n after)
  have promised := (atBlock.allowed carriesImage).promised
  have imageOpen := atBlock.openAtStart carriesImage
  have unserved := starved.unserved n after
  have next : (run.stateAt (n + 1)).decoder.mcu.stateQ =
      nextStateR (run.stateAt n).decoder.mcu
        ((run.stateAt n).decoder.mcuInput (run.decoderCycle n)) :=
    step_stateQ promised
  have later := starved.unserved (n + 1) (Nat.le_succ_of_le after)
  rw [next]
  cases state : (run.stateAt n).decoder.mcu.stateQ with
  | idle =>
      have openNow := imageOpen state
      cases valid : BitBuffer.outportValid (run.stateAt n).decoder.buffer with
      | false =>
          simp [nextStateR, state, System.mcuInput, promised.noStart, openNow,
            valid]
      | true =>
          have noSpace : (run.decoderCycle n).outportBlkSpace = false := by
            simpa [served, state, valid] using unserved
          simp [nextStateR, state, System.mcuInput, promised.noStart, noSpace]
  | fetchWord =>
      have invalid :
          BitBuffer.outportValid (run.stateAt n).decoder.buffer = false := by
        simp only [served, state, Bool.or_eq_false_iff] at unserved
        exact unserved.1
      -- a complete block would end, and its end is served
      have notLast : ¬ 63#8 ≤ (run.stateAt n).decoder.mcu.coeffIdxQ := by
        intro last
        have ends : (run.stateAt (n + 1)).decoder.mcu.stateQ = .eob := by
          rw [next]
          simp [nextStateR, state, System.mcuInput, promised.noStart, last]
        simp [served, ends] at later
      simp [nextStateR, state, System.mcuInput, promised.noStart, notLast,
        invalid]
  | huffLookup =>
      have noAnswer : (run.decoderCycle n).answer.isSome = false := by
        simpa [served, state] using unserved
      simp [nextStateR, state, System.mcuInput, promised.noStart, noAnswer]
  | output => simp [served, state] at unserved
  | eob => simp [served, state] at unserved
  | eof => exact absurd state atBlock.decoding.notEof

theorem Starved.kept
    {n : Nat}
    (after : first ≤ n) :
    (run.stateAt n).decoder.mcu.stateQ =
      (run.stateAt first).decoder.mcu.stateQ := by
  induction after with
  | refl => rfl
  | step later inductionHypothesis =>
      rw [starved.stays carriesImage later]
      exact inductionHypothesis

/-- A lookup is answered in the cycle behind it or in the next one. -/
theorem Starved.notLooking :
    (run.stateAt first).decoder.mcu.stateQ ≠ .huffLookup := by
  intro state
  obtain ⟨-, index, coded, atBlock⟩ :=
    carriesImage.atBlock (starved.more first (Nat.le_refl first))
  have unanswered (n : Nat) (after : first ≤ n) :
      (run.stateAt n).dht.answer.isSome = false := by
    have unserved := starved.unserved n after
    have same := starved.kept carriesImage after
    rw [state] at same
    simp only [served, same] at unserved
    exact unserved
  cases atBlock.serving with
  | quiet isQuiet nothing =>
      cases atBlock.decoding with
      | looking stage rest phase =>
          obtain ⟨input, -, waiting⟩ := phase.waiting
          simp [nothing] at waiting
      | between phase => simp [phase.state] at state
      | fetching stage rest phase => simp [phase.state] at state
      | answered stage rest word symbol phase =>
          simp [phase.state] at state
      | closed phase => simp [phase.state] at state
      | ending phase => simp [phase.state] at state
  | halfway request isHalfway waiting held waits =>
      have notFetch :
          (run.stateAt first).decoder.mcu.stateQ ≠ .fetchWord := by
        simp [state]
      obtain ⟨noRequest, -⟩ :=
        JpegDht.asked_eq_nil notFetch (run.decoderCycle first)
      have answered : (run.stateAt (first + 1)).dht.Answered request :=
        isHalfway.finishes
          (i := (run.stateAt first).dhtInput run.frame (run.cycles first))
          (run.noReset first) (run.noDht first) noRequest held
      have noAnswer := unanswered (first + 1) (Nat.le_succ first)
      rw [answered.1] at noAnswer
      cases noAnswer
  | answered request isAnswered waiting waits =>
      have noAnswer := unanswered first (Nat.le_refl first)
      rw [isAnswered.1] at noAnswer
      cases noAnswer

/-- A window is filled up. -/
theorem Starved.notFetching
    (fairSource :
      ∀ n, ∃ wait,
        supplied (run.stateAt (n + wait)).decoder
          (run.decoderCycle (n + wait)) = true) :
    (run.stateAt first).decoder.mcu.stateQ ≠ .fetchWord := by
  intro state
  obtain ⟨wait, isSupplied⟩ := fairSource first
  have unserved := starved.unserved (first + wait) (Nat.le_add_right _ _)
  have same := starved.kept carriesImage (Nat.le_add_right first wait)
  rw [state] at same
  simp [served, same, isSupplied] at unserved

/-- A decoder that waits for a block sends no end pulse. -/
theorem Starved.silent
    (idle : (run.stateAt first).decoder.mcu.stateQ = .idle)
    {n : Nat}
    (after : first ≤ n) :
    run.chain.ends n = false := by
  have same := starved.kept carriesImage after
  rw [idle] at same
  rw [Scan.ends, run.chain_stateAt]
  simp [State.chain, outportEob, same]

/-- Behind such a decoder the buffer of the transform gets no more blocks. -/
theorem Starved.blocks_kept
    (idle : (run.stateAt first).decoder.mcu.stateQ = .idle)
    {n : Nat}
    (after : first + 2 ≤ n) :
    (JpegIdct.blocksAt (run.chain.idctAt run.first.idct) run.chain.idctPins
        n).length =
      (JpegIdct.blocksAt (run.chain.idctAt run.first.idct) run.chain.idctPins
        (first + 2)).length := by
  induction after with
  | refl => rfl
  | step later inductionHypothesis =>
      rename_i m
      obtain ⟨n, rfl⟩ := Nat.exists_eq_add_of_le' later
      have noPulse : (run.chain.stateAt (n + first + 2)).dqt.outport.eobQ =
          false := by
        rw [(run.chain.arrives (n + first)).2]
        exact starved.silent carriesImage idle (Nat.le_add_left _ _)
      have notClosed : JpegIdctRam.closes
          (JpegIdct.ramAt (run.chain.idctAt run.first.idct) (n + (first + 2)))
          (JpegIdct.ramPins run.chain.idctPins (n + (first + 2))) = false := by
        rw [← Nat.add_assoc]
        simp [JpegIdctRam.closes, JpegIdct.Input.ram, Scan.idctPins, noPulse]
      rw [← inductionHypothesis, JpegIdct.blocksAt, notClosed]
      rfl

/-- The transform runs empty, so that there is space from some time on. -/
theorem Starved.space
    (idle : (run.stateAt first).decoder.mcu.stateQ = .idle)
    (fairSink : ∀ n, ∃ wait, (run.cycles (n + wait)).outportAccept = true) :
    ∃ ready, ∀ n, ready ≤ n →
      (run.decoderCycle n).outportBlkSpace = true := by
  have transform := idctRun run
  obtain ⟨ready, after, counted⟩ :=
    transform.popped_reaches fairSink (first + 2) _ (Nat.le_refl _)
  refine ⟨ready, fun n later => ?_⟩
  have behind : first + 2 ≤ n := Nat.le_trans after later
  have kept := starved.blocks_kept carriesImage idle behind
  have slots := transform.ramRun.slots n
  have read : JpegIdct.Run.popped (run.chain.idctAt run.first.idct) ready ≤
      JpegIdctRam.poppedAt (JpegIdct.ramAt (run.chain.idctAt run.first.idct))
        n :=
    JpegIdct.Run.popped_mono later
  rw [JpegIdct.Run.length_blocksAt] at kept
  have accepts : JpegIdctRam.inportAccept (run.stateAt n).idct.ram = true := by
    rw [← run.chain_idctAt]
    exact slots.accepts_iff.mpr (by omega)
  obtain ⟨m, rfl⟩ := Nat.exists_eq_add_of_le' behind
  have silent (k : Nat) (here : first ≤ k) :=
    starved.silent carriesImage idle here
  have noPulse :
      (run.chain.stateAt (m + first + 2)).dqt.outport.eobQ = false ∧
        (run.chain.stateAt (m + first + 2)).dqt.inport.eobQ = false := by
    rw [(run.chain.arrives (m + first)).2, run.chain.inport_succ]
    exact ⟨silent _ (by omega), silent _ (by omega)⟩
  rw [run.chain_stateAt] at noPulse
  have space : (run.decoderCycle (m + (first + 2))).outportBlkSpace =
      (JpegIdctRam.inportAccept (run.stateAt (m + (first + 2))).idct.ram &&
        !((run.stateAt (m + first + 2)).dqt.outport.eobQ ||
          (run.stateAt (m + first + 2)).dqt.inport.eobQ)) := rfl
  rw [space, accepts]
  simpa [State.chain] using noPulse

/-- A block begins when there is space for it. -/
theorem Starved.notIdle
    (fairSource :
      ∀ n, ∃ wait,
        supplied (run.stateAt (n + wait)).decoder
          (run.decoderCycle (n + wait)) = true)
    (fairSink : ∀ n, ∃ wait, (run.cycles (n + wait)).outportAccept = true) :
    (run.stateAt first).decoder.mcu.stateQ ≠ .idle := by
  intro state
  obtain ⟨ready, space⟩ := starved.space carriesImage state fairSink
  obtain ⟨wait, isSupplied⟩ := fairSource (first + ready)
  have unserved := starved.unserved (first + ready + wait) (by omega)
  have same := starved.kept carriesImage
    (show first ≤ first + ready + wait by omega)
  rw [state] at same
  simp [served, same, isSupplied, space (first + ready + wait) (by omega)]
    at unserved

end Starved

/-! ## Whole images -/

section Whole

variable (carriesImage : CarriesImage run image scan padding)
variable
  (fairSource :
    ∀ n, ∃ wait,
      supplied (run.stateAt (n + wait)).decoder
        (run.decoderCycle (n + wait)) = true)
  (fairSink : ∀ n, ∃ wait, (run.cycles (n + wait)).outportAccept = true)

include carriesImage fairSource fairSink

/-- While blocks are missing the decoder gets what it waits for. -/
theorem not_starved (first : Nat) :
    ¬ Starved run scan first := by
  intro starved
  have unserved := starved.unserved first (Nat.le_refl first)
  cases state : (run.stateAt first).decoder.mcu.stateQ with
  | idle =>
      exact starved.notIdle carriesImage fairSource fairSink state
  | fetchWord => exact starved.notFetching carriesImage fairSource state
  | huffLookup => exact starved.notLooking carriesImage state
  | output => simp [served, state] at unserved
  | eob => simp [served, state] at unserved
  | eof =>
      obtain ⟨-, index, coded, atBlock⟩ :=
        carriesImage.atBlock (starved.more first (Nat.le_refl first))
      exact atBlock.decoding.notEof state

/-- As long as blocks are missing the work that is left gets less. -/
theorem work_falls (n : Nat) :
    ∃ later, n ≤ later ∧
      (scan.blocks.length ≤ run.blocksEnded later ∨
        workLeft (run.stateAt later).decoder <
          workLeft (run.stateAt n).decoder) := by
  by_contra stuck
  simp only [not_exists, not_and, not_or, Nat.not_le, Nat.not_lt] at stuck
  have uses (later : Nat) (after : n ≤ later) :
      (served (run.stateAt later).decoder (run.decoderCycle later)).toNat +
          workLeft (run.stateAt (later + 1)).decoder ≤
        workLeft (run.stateAt later).decoder := by
    obtain ⟨-, index, coded, atBlock⟩ :=
      carriesImage.atBlock (stuck later after).1
    exact atBlock.uses carriesImage
  have noMore (later : Nat) (after : n ≤ later) :
      workLeft (run.stateAt later).decoder ≤
        workLeft (run.stateAt n).decoder := by
    induction after with
    | refl => exact Nat.le_refl _
    | step before inductionHypothesis =>
        rename_i m
        have used := uses m before
        change workLeft (run.stateAt (m + 1)).decoder ≤ _
        omega
  apply not_starved carriesImage fairSource fairSink n
  refine ⟨fun later after => (stuck later after).1, fun later after => ?_⟩
  have used := uses later after
  have before := noMore later after
  have kept := (stuck (later + 1) (by omega)).2
  cases isServed :
      served (run.stateAt later).decoder (run.decoderCycle later) with
  | false => rfl
  | true =>
      rw [isServed, Bool.toNat_true] at used
      omega

/-- Every block of the image is ended. -/
theorem all_ended : ∃ n, scan.blocks.length ≤ run.blocksEnded n := by
  obtain ⟨n, -, all⟩ :=
    reaches_of_rank
      (fun n _ => work_falls carriesImage fairSource fairSink n) 0
  exact ⟨n, all⟩

/-- Every block of the image ends as a block of the scan. -/
theorem every_block_ends
    {index : Nat}
    (inScan : index < scan.blocks.length) :
    ∃ sent, Ends run scan sent index := by
  obtain ⟨n, all⟩ := all_ended carriesImage fairSource fairSink
  exact carriesImage.ends_of_counted inScan (Nat.lt_of_lt_of_le inScan all)

end Whole

/-- A sample with the component that its id names. -/
structure ImageSample where
  code : BitVec 2
  idx : BitVec 6
  data : BitVec 32
  deriving Repr, DecidableEq

/-- A sample on the pins of `jpeg_output`. -/
def ImageSample.ofSample (sample : JpegIdct.Sample) : ImageSample where
  code := sample.id.extractLsb' 30 2
  idx := sample.idx
  data := sample.data

/-- The `m`-th sample of a block as the software computes it. -/
def Run.imageSample (run : Run) (scan : EntropyCode.Scan) (index m : Nat) :
    ImageSample :=
  let idx := JpegIdct.ptrConv (BitVec.ofNat 6 m)
  { code := (BlockType.ofComponent (scan.order index)).code
    idx := idx
    data :=
      Software.idctProcessWrap (Scan.wordOf (run.blockOf scan index))
        idx.toNat }

/-- The samples of a scan in the order in which they leave. -/
def Run.imageSamples (run : Run) (scan : EntropyCode.Scan) :
    List ImageSample :=
  (List.range (64 * scan.blocks.length)).map fun place =>
    run.imageSample scan (place / 64) (place % 64)

/--
From the bits of a whole image to its samples: when the source and
`jpeg_output` are not blocked for ever, the samples of all blocks leave, each
in its place with the code of its component, as the software transforms what
was coded.
-/
theorem image_transformed
    (run : Run)
    (image : Image)
    (scan : EntropyCode.Scan)
    (padding : List Bool)
    (carriesImage : CarriesImage run image scan padding)
    (fairSource :
      ∀ n, ∃ wait,
        supplied (run.stateAt (n + wait)).decoder
          (run.decoderCycle (n + wait)) = true)
    (fairSink : ∀ n, ∃ wait, (run.cycles (n + wait)).outportAccept = true) :
    ∃ time,
      ((run.samplesAt time).take (64 * image.blockCount)).map
          ImageSample.ofSample =
        run.imageSamples scan := by
  have ends {index : Nat} (inScan : index < scan.blocks.length) :=
    every_block_ends carriesImage fairSource fairSink inScan
  have whole := carriesImage.whole
  have blocks := image.blockCount_pos
  obtain ⟨last, endsLast⟩ := ends (show scan.blocks.length - 1 < _ by omega)
  obtain ⟨time, all⟩ := endsLast.leaves carriesImage.carries fairSink
  refine ⟨time, List.ext_getElem? fun place => ?_⟩
  rw [Run.imageSamples, List.getElem?_map, List.getElem?_map,
    List.getElem?_take, whole]
  rcases Nat.lt_or_ge place (64 * image.blockCount) with inside | outside
  · obtain ⟨sample, isSample⟩ :
        ∃ sample, (run.samplesAt time)[place]? = some sample :=
      ⟨_, List.getElem?_eq_getElem (by omega)⟩
    have atBlock := isSample
    rw [← Nat.div_add_mod place 64] at atBlock
    obtain ⟨sent, endsHere⟩ := ends (show place / 64 < _ by omega)
    have here := endsHere.sample carriesImage.carries
      (Nat.mod_lt place (by decide)) atBlock
    have typed := endsHere.typed carriesImage.carries
    rw [if_pos inside, isSample, List.getElem?_range inside,
      Option.map_some, Option.map_some, Option.some.injEq]
    simp only [ImageSample.ofSample, Run.imageSample, here, typed]
  · rw [if_neg (Nat.not_lt.mpr outside),
      List.getElem?_eq_none (by simpa using outside)]
    rfl

end Image

/-! ## An image of one row -/

section OneRow

/-- The counters of an image of one row whose end is told all the time. -/
def OneRow (s : McuProc.State) : Prop :=
  (s.id.endOfImageQ = false ∧ s.id.blockYQ = 0) ∨
    (s.id.endOfImageQ = true ∧ (s.stateQ = .idle ∨ s.stateQ = .eof))

/-- The last MCU of the row ends the image. -/
theorem OneRow.step
    {s : McuProc.State} {i : McuProc.Input}
    (oneRow : OneRow s)
    (running : i.rst = false ∧ i.imgStart = false)
    (full : (i.imgMode == .ycbcr420) = false)
    (ended : i.imgEnd = true) :
    OneRow (McuProc.step s i) := by
  obtain ⟨noReset, noStart⟩ := running
  have next : (McuProc.step s i).stateQ = nextStateR s i := by
    simp [McuProc.step, noReset]
  have id : (McuProc.step s i).id = s.id.step (idInput s i) := by
    simp [McuProc.step, noReset]
  have quiet : ((idInput s i).rst || (idInput s i).imgStart) = false := by
    simp [idInput, noReset, noStart]
  have notSubsampled : ((idInput s i).imgMode == .ycbcr420) = false := full
  have told : (idInput s i).imgEnd = true := ended
  rw [OneRow, next, id]
  rcases oneRow with ⟨imageOpen, row⟩ | ⟨closed, resting⟩
  · cases ends : s.id.endsPosition (idInput s i) with
    | false =>
        left
        simp [IdState.step, quiet, notSubsampled, ends, imageOpen, row]
    | true =>
        cases last : s.id.lastInRow (idInput s i) with
        | false =>
            left
            simp [IdState.step, quiet, ends, last, imageOpen, row]
        | true =>
            right
            have atEnd : s.stateQ = .eob := by
              rw [IdState.endsPosition, Bool.and_eq_true] at ends
              exact beq_iff_eq.mp ends.1
            exact ⟨by simp [IdState.step, quiet, ends, last, told],
              .inl (by simp [nextStateR, noStart, atEnd])⟩
  · right
    have noEnd : s.id.endsPosition (idInput s i) = false := by
      rcases resting with state | state <;>
        simp [IdState.endsPosition, idInput, nextBlock, state]
    refine ⟨by simp [IdState.step, quiet, notSubsampled, noEnd, closed], ?_⟩
    rcases resting with state | state
    · simp [nextStateR, noStart, state, closed]
      cases i.outportBlkSpace <;> simp
    · simp [nextStateR, noStart, state]

/-- Such an image ends in its last row, which is its first one. -/
theorem OneRow.endsInLastRow
    {s : McuProc.State} {i : McuProc.Input} {image : Image}
    (oneRow : OneRow s)
    (full : (i.imgMode == .ycbcr420) = false)
    (ended : i.imgEnd = true)
    (height : image.height = 8) :
    EndsInLastRow image s.id (idInput s i) := by
  have notSubsampled : ((idInput s i).imgMode == .ycbcr420) = false := full
  intro decides
  rcases oneRow with ⟨-, row⟩ | ⟨-, resting⟩
  · have told : (idInput s i).imgEnd = true := ended
    simp [told, row, height]
  · have noEnd : s.id.endsPosition (idInput s i) = false := by
      rcases resting with state | state <;>
        simp [IdState.endsPosition, idInput, nextBlock, state]
    simp [IdState.decides, noEnd, notSubsampled] at decides

end OneRow

theorem pair_supported : ImageMode.monochrome ≠ .unsupported := by decide

theorem pair_width : 0 < (16 : BitVec 16).toNat := by decide

theorem pair_height : 0 < (8 : BitVec 16).toNat := by decide

theorem pair_columns : mcuSize .monochrome ∣ (16 : BitVec 16).toNat := by
  decide

theorem pair_rows : mcuSize .monochrome ∣ (8 : BitVec 16).toNat := by decide

/-- The image of the two blocks. -/
def pairImage : Image where
  mode := .monochrome
  width := 16
  height := 8
  supported := pair_supported
  widthPositive := pair_width
  heightPositive := pair_height
  widthWhole := pair_columns
  heightWhole := pair_rows

theorem pair_oneRow (n : Nat) :
    OneRow (pairRun.stateAt n).decoder.mcu := by
  induction n with
  | zero => exact .inl ⟨rfl, rfl⟩
  | succ n inductionHypothesis =>
      exact inductionHypothesis.step ⟨rfl, rfl⟩ rfl rfl

theorem pairRun_carriesImage :
    CarriesImage pairRun pairImage pairScan (List.replicate 6 false) where
  carries := pairRun_carries
  modeKept := rfl
  widthKept := rfl
  whole := by decide
  endsInLastRow n := (pair_oneRow n).endsInLastRow rfl rfl rfl

/-- The whole image of the two blocks leaves. -/
theorem image_transformed_pair :
    ∃ time,
      ((pairRun.samplesAt time).take (64 * pairImage.blockCount)).map
          ImageSample.ofSample =
        pairRun.imageSamples pairScan :=
  image_transformed pairRun pairImage pairScan (List.replicate 6 false)
    pairRun_carriesImage
    (fun n => ⟨4, by
      have told : (pairRun.decoderCycle (n + 4)).sourceLast = true :=
        decide_eq_true (Nat.le_add_left 4 n)
      have offered : (pairRun.decoderCycle (n + 4)).sourceValid = true := rfl
      rw [supplied, told, offered]
      rfl⟩)
    fun _ => ⟨0, rfl⟩

end CoreJpeg.JpegCore
