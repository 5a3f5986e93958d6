import CoreJpeg.CoreSamples
import CoreJpeg.OutputPixels

namespace CoreJpeg.JpegCore

open Clocked CoefficientChain McuProc

/-!
# The decoder with its output stage

`jpeg_output` takes the samples of the inverse transform, and its
`inport_accept_o` is what stalls them.  The decoder in front of it is the one of
the module above, with the output stage as its surroundings; what is left
outside is the source of the bytes and the receiver of the pixels.
-/

/-- The registers of the decoder and of `jpeg_output`. -/
structure Joined where
  core : State
  output : JpegOutput.State

namespace Joined

variable (frame : CoefficientChain.Frame) (imgHeight : BitVec 16)
variable (s : Joined) (cycle : Cycle)

/-- What the decoder sees of a cycle: `jpeg_output` accepts its samples. -/
def coreCycle : Cycle :=
  { cycle with outportAccept := JpegOutput.inportAccept s.output }

/-- The pins of `jpeg_output`. -/
def outputInput : JpegOutput.Input where
  rst := cycle.rst
  imgStart := cycle.imgStart
  imgWidth := frame.imgWidth
  imgHeight := imgHeight
  imgMode := frame.imgMode
  inportValid := s.core.idct.outportValid
  inportData := s.core.idct.outportData
  inportIdx := s.core.idct.outportIdx
  inportId := s.core.idct.outportId
  outportAccept := cycle.outportAccept

/-- The registers after the clock edge. -/
def step : Joined where
  core := s.core.step frame (s.coreCycle cycle)
  output := JpegOutput.step s.output (s.outputInput frame imgHeight cycle)

end Joined

/--
A run over the bytes of a scan from the start of an image on.  The
`outportAccept` of a cycle is now the pin of `jpeg_core`.
-/
structure JoinedRun where
  frame : CoefficientChain.Frame
  imgHeight : BitVec 16
  source : List Byte
  first : Joined
  cycles : Nat → Cycle
  ready : first.core.Ready source
  fresh : JpegOutput.Fresh first.output
  shownNothing : first.output.validQ = false
  started : first.output.idleQ = false
  noReset : ∀ n, (cycles n).rst = false
  noStart : ∀ n, (cycles n).imgStart = false
  noDht : ∀ n, (cycles n).dhtCfgValid = false
  noDqt : ∀ n, (cycles n).dqtCfgValid = false
  lastAfterAll :
    ∀ n, (cycles n).sourceLast = true →
      let s := trace (Joined.step frame imgHeight) first cycles n
      s.core.decoder.sourceNext
        (s.core.decoderCycle frame (s.coreCycle (cycles n))) = []

namespace JoinedRun

variable (run : JoinedRun)

/-- The registers before the `n`-th cycle. -/
def stateAt (n : Nat) : Joined :=
  trace (Joined.step run.frame run.imgHeight) run.first run.cycles n

/-- What the decoder sees of the `n`-th cycle. -/
def coreCycles (n : Nat) : Cycle :=
  (run.stateAt n).coreCycle (run.cycles n)

theorem core_trace (n : Nat) :
    trace (State.step run.frame) run.first.core run.coreCycles n =
      (run.stateAt n).core := by
  induction n with
  | zero => rfl
  | succ n inductionHypothesis =>
      rw [trace, inductionHypothesis]
      rfl

/-- The run of the decoder. -/
def core : Run where
  frame := run.frame
  source := run.source
  first := run.first.core
  cycles := run.coreCycles
  ready := run.ready
  noReset := run.noReset
  noStart := run.noStart
  noDht := run.noDht
  noDqt := run.noDqt
  lastAfterAll n last := by
    rw [core_trace]
    exact run.lastAfterAll n last

theorem core_stateAt (n : Nat) :
    run.core.stateAt n = (run.stateAt n).core :=
  run.core_trace n

/-- The pins of `jpeg_output` in the `n`-th cycle. -/
def outputPins (n : Nat) : JpegOutput.Input :=
  (run.stateAt n).outputInput run.frame run.imgHeight (run.cycles n)

/-- The output stage with the samples that arrived and were read. -/
def arrivedAt : Nat → JpegOutput.Arrived
  | 0 => ⟨run.first.output, 0, 0⟩
  | n + 1 => (arrivedAt n).step (run.outputPins n)

/-- The pixels that the receiver accepted before the `n`-th cycle. -/
def pixelsAt (n : Nat) : List JpegOutput.Pixel :=
  JpegOutput.pixelsAt run.arrivedAt run.outputPins n

theorem arrived_next (n : Nat) :
    (run.arrivedAt (n + 1)).arrived =
      (run.arrivedAt n).arrived + (run.outputPins n).inportValid.toNat :=
  rfl

/-- At most one sample arrives in a cycle. -/
theorem arrived_next_le (n : Nat) :
    (run.arrivedAt (n + 1)).arrived ≤ (run.arrivedAt n).arrived + 1 := by
  rw [arrived_next]
  exact Nat.add_le_add_left (Bool.toNat_le _) _

/-- Samples that arrived stay counted. -/
theorem arrived_mono : Monotone fun n => (run.arrivedAt n).arrived :=
  monotone_nat_of_le_succ fun _ => Nat.le_add_right _ _

theorem popped_next (n : Nat) :
    (run.arrivedAt (n + 1)).popped =
      (run.arrivedAt n).popped +
        (JpegOutput.pops (run.arrivedAt n).output
          (run.outputPins n)).toNat :=
  rfl

/-- At most one sample of a component is read in a cycle. -/
theorem popped_next_le (n : Nat) :
    (run.arrivedAt (n + 1)).popped ≤ (run.arrivedAt n).popped + 1 := by
  rw [popped_next]
  exact Nat.add_le_add_left (Bool.toNat_le _) _

/-- Samples that were read stay counted. -/
theorem popped_mono : Monotone fun n => (run.arrivedAt n).popped :=
  monotone_nat_of_le_succ fun _ => Nat.le_add_right _ _

theorem arrivedAt_output (n : Nat) :
    (run.arrivedAt n).output = (run.stateAt n).output := by
  induction n with
  | zero => rfl
  | succ n inductionHypothesis =>
      rw [arrivedAt, JpegOutput.Arrived.step, inductionHypothesis]
      rfl

/-- What arrived are the samples that left the decoder. -/
theorem arrivedAt_arrived (n : Nat) :
    (run.arrivedAt n).arrived = (run.core.samplesAt n).length := by
  induction n with
  | zero => rfl
  | succ n inductionHypothesis =>
      rw [arrivedAt, JpegOutput.Arrived.step, inductionHypothesis,
        Run.samplesAt, Run.samplesAt, JpegIdct.samplesAt, List.length_append,
        JpegIdct.State.sample, core_stateAt]
      simp only [outputPins, Joined.outputInput]
      cases (run.stateAt n).core.idct.outportValid <;> rfl

/-! ## What arrives -/

/--
The samples of a 4:4:4 image by component and block, with those that leave
behind it up to a time.
-/
def arrivals (image : Image) (scan : EntropyCode.Scan) (horizon : Nat)
    (id : BitVec 32) : JpegOutput.Arrivals where
  mcus := image.columns * image.rows
  blocks component block idx :=
    if block < image.columns * image.rows then
      Software.idctProcessWrap
        (Scan.wordOf
          (run.core.blockOf scan (3 * block + JpegOutput.turn component)))
        idx.toNat
    else
      (((run.core.samplesAt horizon)[64 * (3 * (image.columns * image.rows)) +
          (64 * (block - image.columns * image.rows) +
            (JpegOutput.orderIdx idx.toNat).toNat)]?).map
        JpegIdct.Sample.data).getD 0
  id block :=
    if block < image.columns * image.rows then
      idOf .y (block / image.columns) (block % image.columns)
    else id

end JoinedRun

/-- A 4:4:4 image is decoded. -/
structure CarriesColour (run : JoinedRun) (image : Image)
    (scan : EntropyCode.Scan) (padding : List Bool) : Prop where
  carriesImage : CarriesImage run.core image scan padding
  colour : image.mode = .ycbcr444

/-- What the sample shows that arrives in a cycle. -/
structure Shows (run : JoinedRun) (image : Image) (scan : EntropyCode.Scan)
    (id : BitVec 32) (n : Nat) : Prop where
  idx :
    (run.outputPins n).inportIdx =
      JpegOutput.orderIdx ((run.arrivedAt n).arrived % 64)
  inImage :
    ∀ mcu component,
      (run.arrivedAt n).arrived / 64 = 3 * mcu + JpegOutput.turn component →
        mcu < image.columns * image.rows →
          (run.outputPins n).inportId =
              idOf component (mcu / image.columns) (mcu % image.columns) ∧
            (run.outputPins n).inportData =
              Software.idctProcessWrap
                (Scan.wordOf
                  (run.core.blockOf scan
                    (3 * mcu + JpegOutput.turn component)))
                (run.outputPins n).inportIdx.toNat
  behind :
    64 * (3 * (image.columns * image.rows)) ≤ (run.arrivedAt n).arrived →
      (run.outputPins n).inportId = id

/-- Every number is the turn of a component in its MCU. -/
theorem exists_turn (index : Nat) :
    ∃ component,
      index = 3 * (index / 3) + JpegOutput.turn component := by
  rcases (by omega : index % 3 = 0 ∨ index % 3 = 1 ∨ index % 3 = 2) with
    here | here | here
  · exact ⟨.y, by change index = 3 * (index / 3) + 0; omega⟩
  · exact ⟨.cb, by change index = 3 * (index / 3) + 1; omega⟩
  · exact ⟨.cr, by change index = 3 * (index / 3) + 2; omega⟩

/-- A sample is written where its id says. -/
theorem isFor_idOf
    (component other : EntropyCode.Component) (row column : Nat) :
    JpegOutput.isFor (.ofComponent component) (idOf other row column) =
      (JpegOutput.turn other == JpegOutput.turn component) := by
  have typed : JpegOutput.typeOf (idOf other row column) =
      (BlockType.ofComponent other).code :=
    code_of_id _ _ _
  rw [JpegOutput.isFor, typed]
  cases component <;> cases other <;> rfl

theorem isFor_eof
    {id : BitVec 32}
    (isEof : JpegOutput.typeOf id = BlockType.eof.code)
    (blockType : BlockType) :
    JpegOutput.isFor blockType id = true := by
  rw [JpegOutput.isFor, isEof]
  exact Bool.or_true _

section Delivers

variable {run : JoinedRun} {image : Image} {scan : EntropyCode.Scan}
variable {id : BitVec 32} {n : Nat}

/-- A sample that arrives is written where its block is due. -/
theorem Shows.isFor_eq
    (showsScan : Shows run image scan id n)
    (isEof : JpegOutput.typeOf id = BlockType.eof.code)
    (component : EntropyCode.Component) :
    JpegOutput.isFor (.ofComponent component) (run.outputPins n).inportId =
      JpegOutput.takes (image.columns * image.rows) component
        (run.arrivedAt n).arrived := by
  rw [JpegOutput.takes]
  by_cases behind :
      192 * (image.columns * image.rows) ≤ (run.arrivedAt n).arrived
  · rw [showsScan.behind (by omega), isFor_eof isEof, decide_eq_true behind]
    rfl
  · obtain ⟨other, isTurn⟩ := exists_turn ((run.arrivedAt n).arrived / 64)
    have small : JpegOutput.turn other ≤ 2 := by cases other <;> decide
    rw [(showsScan.inImage _ other isTurn (by omega)).1, isFor_idOf,
      decide_eq_false behind, Bool.false_or]
    congr 1
    omega

/-- A sample that arrives belongs to the block to which it is written. -/
theorem Shows.data_eq
    (showsScan : Shows run image scan id n)
    (valid : (run.outputPins n).inportValid = true)
    {horizon : Nat}
    (before : n < horizon)
    {component : EntropyCode.Component}
    (isTaken :
      JpegOutput.takes (image.columns * image.rows) component
        (run.arrivedAt n).arrived = true) :
    (run.outputPins n).inportData =
      (run.arrivals image scan horizon id).blocks component
        (JpegOutput.written (image.columns * image.rows) component
          (run.arrivedAt n).arrived / 64)
        (run.outputPins n).inportIdx := by
  rw [JoinedRun.arrivals]
  by_cases behind :
      192 * (image.columns * image.rows) ≤ (run.arrivedAt n).arrived
  · have leaves : (run.core.stateAt n).idct.outportValid = true := by
      rw [run.core_stateAt]
      exact valid
    have counted : (run.core.samplesAt horizon)[
        (run.core.samplesAt n).length]? = _ :=
      JpegIdct.Run.samplesAt_kept
        (s := fun m => (run.core.stateAt m).idct) leaves before
    have inBlock : (run.arrivedAt n).arrived % 64 < 64 :=
      Nat.mod_lt _ (by decide)
    have place :
        (JpegOutput.orderIdx (run.outputPins n).inportIdx.toNat).toNat =
          (run.arrivedAt n).arrived % 64 := by
      rw [showsScan.idx, JpegOutput.orderIdx_orderIdx _ inBlock,
        BitVec.toNat_ofNat]
      omega
    have number : 64 * (3 * (image.columns * image.rows)) +
        (64 * (image.columns * image.rows +
            ((run.arrivedAt n).arrived -
              192 * (image.columns * image.rows)) / 64 -
          image.columns * image.rows) +
          (run.arrivedAt n).arrived % 64) = (run.core.samplesAt n).length := by
      rw [← run.arrivedAt_arrived]
      omega
    simp only [JpegOutput.written_behind behind]
    rw [if_neg (by omega), place, number, counted]
    change (run.stateAt n).core.idct.outportData =
      (run.core.stateAt n).idct.outportData
    rw [run.core_stateAt]
  · obtain ⟨block, index⟩ :=
      JpegOutput.written_block (Nat.lt_of_not_le behind) isTaken
    have inImage : (run.arrivedAt n).arrived / 192 <
        image.columns * image.rows := by
      omega
    simp only [block]
    rw [if_pos inImage]
    exact (showsScan.inImage _ component index inImage).2

/-- A luma sample comes with the id of the block to which it is written. -/
theorem Shows.id_eq
    (showsScan : Shows run image scan id n)
    (isTaken :
      JpegOutput.takes (image.columns * image.rows) .y
        (run.arrivedAt n).arrived = true)
    (horizon : Nat) :
    (run.outputPins n).inportId =
      (run.arrivals image scan horizon id).id
        (JpegOutput.written (image.columns * image.rows) .y
          (run.arrivedAt n).arrived / 64) := by
  rw [JoinedRun.arrivals]
  by_cases behind :
      192 * (image.columns * image.rows) ≤ (run.arrivedAt n).arrived
  · simp only [JpegOutput.written_behind behind]
    rw [if_neg (by omega), showsScan.behind (by omega)]
  · obtain ⟨block, index⟩ :=
      JpegOutput.written_block (Nat.lt_of_not_le behind) isTaken
    have inImage : (run.arrivedAt n).arrived / 192 <
        image.columns * image.rows := by
      omega
    simp only [block]
    rw [if_pos inImage]
    exact (showsScan.inImage _ .y index inImage).1

/-- The pins of `jpeg_output` deliver the image when there is room. -/
theorem pins_deliver
    (showsScan :
      (run.outputPins n).inportValid = true → Shows run image scan id n)
    (isEof : JpegOutput.typeOf id = BlockType.eof.code)
    (colour : run.frame.imgMode = .ycbcr444)
    {horizon : Nat}
    (before : n < horizon)
    (room :
      ∀ component,
        JpegOutput.pushes (.ofComponent component) (run.outputPins n) = true →
          JpegOutput.written (image.columns * image.rows) component
              (run.arrivedAt n).arrived / 64 <
            (run.arrivedAt n).popped / 64 + 4)
    (reading :
      (run.arrivedAt n).popped / 64 ≤ image.columns * image.rows) :
    JpegOutput.Arrived.Delivers (run.arrivals image scan horizon id)
      (run.arrivedAt n) (run.outputPins n) := by
  have kind (component : EntropyCode.Component) :
      JpegOutput.pushes (.ofComponent component) (run.outputPins n) =
        ((run.outputPins n).inportValid &&
          JpegOutput.takes (image.columns * image.rows) component
            (run.arrivedAt n).arrived) := by
    rw [JpegOutput.pushes]
    cases valid : (run.outputPins n).inportValid with
    | false => rfl
    | true => rw [(showsScan valid).isFor_eq isEof]
  have taken (component : EntropyCode.Component)
      (push : JpegOutput.pushes (.ofComponent component) (run.outputPins n) =
        true) :
      (run.outputPins n).inportValid = true ∧
        JpegOutput.takes (image.columns * image.rows) component
          (run.arrivedAt n).arrived = true := by
    rw [kind, Bool.and_eq_true] at push
    exact push
  exact
    { rst := run.noReset n
      imgStart := run.noStart n
      imgMode := colour
      kind := kind
      idx := fun valid => (showsScan valid).idx
      data := fun component push =>
        (showsScan (taken component push).1).data_eq (taken component push).1
          before (taken component push).2
      id := fun push =>
        (showsScan (taken .y push).1).id_eq (taken .y push).2 horizon
      room := room
      reading := reading }

end Delivers

section Colour

variable {run : JoinedRun} {image : Image} {scan : EntropyCode.Scan}
variable {padding : List Bool}
variable (carries : CarriesColour run image scan padding)

include carries

theorem CarriesColour.length_blocks :
    scan.blocks.length = 3 * (image.columns * image.rows) := by
  rw [carries.carriesImage.whole, Image.blockCount, carries.colour]
  exact Nat.mul_comm _ _

/-- The component of a block of a 4:4:4 image. -/
theorem CarriesColour.order_eq
    (mcu : Nat) (component : EntropyCode.Component) :
    scan.order (3 * mcu + JpegOutput.turn component) = component := by
  have order := carries.carriesImage.carries.inOrder
  rw [carries.carriesImage.modeKept, carries.colour] at order
  rw [order]
  have inMcu : (3 * mcu + JpegOutput.turn component) % 3 =
      JpegOutput.turn component := by
    have small : JpegOutput.turn component ≤ 2 := by
      cases component <;> decide
    omega
  simp only [componentOrder, inMcu]
  cases component <;> rfl

/-- Every sample shows what it should. -/
theorem CarriesColour.shows :
    ∃ id, JpegOutput.typeOf id = BlockType.eof.code ∧
      ∀ n, (run.outputPins n).inportValid = true →
        Shows run image scan id n := by
  have blocks := carries.length_blocks
  obtain ⟨id, isEof, behind⟩ := carries.carriesImage.behind carries.colour
  refine ⟨id, isEof, fun n valid => ?_⟩
  have leaves : (run.core.stateAt n).idct.outportValid = true := by
    rw [run.core_stateAt]
    exact valid
  constructor
  · rw [run.arrivedAt_arrived]
    have idx := (idct_runs run.core).outportIdx_eq leaves
    rw [run.core_stateAt] at idx
    exact idx
  · intro mcu component isIndex inImage
    rw [run.arrivedAt_arrived] at isIndex
    have small : JpegOutput.turn component ≤ 2 := by cases component <;> decide
    have showsScan := carries.carriesImage.sample_shows
      (by simp [carries.colour]) leaves isIndex (by omega)
    have inMcu : (3 * mcu + JpegOutput.turn component) / 3 = mcu := by omega
    rw [carries.order_eq, carries.colour, mcuBlocks, inMcu,
      run.core_stateAt] at showsScan
    exact showsScan
  · intro after
    rw [run.arrivedAt_arrived] at after
    have shown := behind n leaves (by rw [blocks]; exact after)
    rw [run.core_stateAt] at shown
    exact shown

end Colour

end CoreJpeg.JpegCore
