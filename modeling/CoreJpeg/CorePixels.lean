import CoreJpeg.CoreOutput
import CoreJpeg.OutputFrame

namespace CoreJpeg.JpegCore

open Clocked CoefficientChain McuProc

/-!
# From the bits of a 4:4:4 image to its pixels

A block is begun while the memories of `jpeg_output` hold at most two blocks of
the last component, and at most two blocks are under way then.  So there is room
for every block of the image when it arrives, whatever the receiver stalls, and
the pixels leave in the order of the blocks.  While the gate is closed a block
is stored, so that a receiver that does not refuse for ever opens it again; then
all samples of the image arrive.
-/

section Image

variable {run : JoinedRun} {image : Image} {scan : EntropyCode.Scan}
variable {padding : List Bool} {id : BitVec 32} {horizon n : Nat}

/-! ## Room for the blocks -/

/-- What is known of the output stage before a cycle of the image. -/
structure Following (run : JoinedRun) (image : Image)
    (scan : EntropyCode.Scan) (id : BitVec 32) (horizon n : Nat) : Prop where
  filled :
    JpegOutput.Arrived.Filled (run.arrivals image scan horizon id)
      (run.arrivedAt n)
  busy : (run.arrivedAt n).output.idleQ = false

theorem Following.luma_level
    (known : Following run image scan id horizon n) :
    (run.arrivedAt n).output.uRamY.countQ.toNat + (run.arrivedAt n).popped =
      JpegOutput.written (image.columns * image.rows) .y
        (run.arrivedAt n).arrived :=
  known.filled.luma.level

theorem Following.red_level
    (known : Following run image scan id horizon n) :
    (run.arrivedAt n).output.uRamCr.countQ.toNat + (run.arrivedAt n).popped =
      JpegOutput.written (image.columns * image.rows) .cr
        (run.arrivedAt n).arrived :=
  known.filled.red.level

/-- A sample that arrives was let in when the red memory was half empty. -/
theorem let_in
    (following : ∀ m < n, Following run image scan id horizon m)
    (valid : (run.outputPins n).inportValid = true) :
    JpegOutput.written (image.columns * image.rows) .cr
        (64 * ((run.arrivedAt n).arrived / 64) - 128) ≤
      (run.arrivedAt n).popped + 128 := by
  have leaves : (run.core.stateAt n).idct.outportValid = true := by
    rw [run.core_stateAt]
    exact valid
  have transform := idct_runs run.core
  obtain ⟨before, rfl, active, counted, -⟩ := transform.sample_leaves leaves
  have inside := transform.bursts.inside before
  have isBusy : (run.core.stateAt before).idct.ram.stateQ ≠ .idle := by
    intro isIdle
    simp [JpegIdct.Run.active, JpegIdctRam.outportValid, isIdle] at active
  obtain ⟨begun, earlier, accepted, same⟩ := transform.begun_accepted isBusy
  have known := following begun (by omega)
  have gate : JpegOutput.inportAccept (run.stateAt begun).output = true :=
    accepted
  rw [← run.arrivedAt_output] at gate
  have half : (run.arrivedAt begun).output.uRamCr.countQ.toNat ≤ 128 := by
    simp only [JpegOutput.inportAccept, known.busy, Bool.or_false,
      Bool.and_eq_true, decide_eq_true_eq, BitVec.le_def] at gate
    exact gate.2
  have level := known.red_level
  have left := transform.popped_left begun
  have arrived (m : Nat) : (run.arrivedAt m).arrived =
      (JpegIdct.samplesAt (fun k => (run.core.stateAt k).idct) m).length :=
    run.arrivedAt_arrived m
  have read : (run.arrivedAt begun).popped ≤
      (run.arrivedAt (before + 88)).popped :=
    run.popped_mono (by omega)
  rw [← arrived] at counted left
  have behind : 64 * ((run.arrivedAt (before + 88)).arrived / 64) - 128 ≤
      (run.arrivedAt begun).arrived := by
    omega
  have grows := JpegOutput.written_mono (image.columns * image.rows) .cr behind
  omega

/-- There is room for a block of the image, and for the first one behind it. -/
theorem room
    (following : ∀ m < n, Following run image scan id horizon m)
    (valid : (run.outputPins n).inportValid = true)
    (inImage :
      (run.arrivedAt n).arrived / 64 ≤ 3 * (image.columns * image.rows))
    {component : EntropyCode.Component}
    (isTaken :
      JpegOutput.takes (image.columns * image.rows) component
        (run.arrivedAt n).arrived = true) :
    JpegOutput.written (image.columns * image.rows) component
        (run.arrivedAt n).arrived / 64 <
      (run.arrivedAt n).popped / 64 + 4 := by
  have early := let_in following valid
  have block : JpegOutput.written (image.columns * image.rows) component
      (run.arrivedAt n).arrived / 64 = (run.arrivedAt n).arrived / 192 := by
    by_cases behind :
        192 * (image.columns * image.rows) ≤ (run.arrivedAt n).arrived
    · rw [JpegOutput.written_behind behind]
      omega
    · exact (JpegOutput.written_block (Nat.lt_of_not_le behind) isTaken).1
  have turn : JpegOutput.turn .cr = 2 := rfl
  rw [block]
  rw [JpegOutput.written, turn] at early
  split_ifs at early <;> omega

/-! ## While the image arrives -/

/-- Only samples of the image have been read. -/
theorem Following.read_le
    (known : Following run image scan id horizon n)
    (inImage :
      (run.arrivedAt n).arrived ≤ 192 * (image.columns * image.rows)) :
    (run.arrivedAt n).popped ≤ 64 * (image.columns * image.rows) := by
  have level := known.red_level
  have few := JpegOutput.written_le inImage .cr
  omega

/-- The id at the front of the queue is that of a block of the image. -/
theorem Following.front_luma
    (known : Following run image scan id horizon n)
    (inImage :
      (run.arrivedAt n).arrived ≤ 192 * (image.columns * image.rows))
    (valid : (run.arrivedAt n).output.uInfo.validO = true) :
    JpegOutput.typeOf (JpegOutput.idValue (run.arrivedAt n).output) =
      BlockType.y.code := by
  have stream := known.filled.stream
  have idQueued := (JpegIdct.Run.validO_iff _).mp valid
  have size : (run.arrivedAt n).output.uInfo.countQ.toNat =
      (JpegOutput.written (image.columns * image.rows) .y
        (run.arrivedAt n).arrived + 63) / 64 -
          (run.arrivedAt n).popped / 64 := by
    have lengths := congrArg List.length stream.queue
    rwa [RingBuffer.length_contents, JpegOutput.length_queued stream.inIds]
      at lengths
  have few := JpegOutput.written_le inImage .y
  have left : (run.arrivedAt n).popped <
      JpegOutput.written (image.columns * image.rows) .y
        (run.arrivedAt n).arrived := by
    cases active : (run.arrivedAt n).output.activeQ with
    | false =>
        have whole : (run.arrivedAt n).popped % 64 = 0 := stream.whole active
        omega
    | true =>
        have stored : 64 * ((run.arrivedAt n).popped / 64 + 1) ≤
            JpegOutput.written (image.columns * image.rows) .cr
              (run.arrivedAt n).arrived :=
          known.filled.stored active
        have more := (JpegOutput.written_cr_le (image.columns * image.rows) .y
          (run.arrivedAt n).arrived).1
        omega
  have front : (run.arrivals image scan horizon id).ids[
      (run.arrivedAt n).popped / 64]? =
        some (JpegOutput.idValue (run.arrivedAt n).output) :=
    stream.idValue_eq left
  have inIds : (run.arrivedAt n).popped / 64 <
      (run.arrivals image scan horizon id).mcus + 4 := by
    change _ < image.columns * image.rows + 4
    omega
  have isId : (run.arrivals image scan horizon id).id
      ((run.arrivedAt n).popped / 64) =
        JpegOutput.idValue (run.arrivedAt n).output := by
    rw [JpegOutput.Arrivals.ids, List.getElem?_map,
      List.getElem?_range inIds] at front
    exact Option.some.inj front
  rw [← isId, JoinedRun.arrivals]
  simp only
  rw [if_pos (by omega)]
  exact code_of_id _ _ _

/-- The stage is not idle as long as its ids are those of the image. -/
theorem Following.busy_step
    (known : Following run image scan id horizon n)
    (inImage :
      (run.arrivedAt n).arrived ≤ 192 * (image.columns * image.rows)) :
    (run.arrivedAt (n + 1)).output.idleQ = false := by
  have filled := known.filled
  have stream := filled.stream
  have notEof : ((run.arrivedAt n).output.uInfo.validO &&
      JpegOutput.typeOf (JpegOutput.idValue (run.arrivedAt n).output) ==
        BlockType.eof.code) = false := by
    cases valid : (run.arrivedAt n).output.uInfo.validO with
    | false => rfl
    | true =>
        rw [known.front_luma inImage valid]
        rfl
  have next : (run.arrivedAt (n + 1)).output.idleQ =
      (JpegOutput.step (run.arrivedAt n).output (run.outputPins n)).idleQ :=
    rfl
  have noReset : (run.outputPins n).rst = false := run.noReset n
  have noStart : (run.outputPins n).imgStart = false := run.noStart n
  rw [next]
  simp [JpegOutput.step, noReset, noStart, notEof, known.busy]

/-- Until the image has arrived the stage follows it, whatever is stalled. -/
theorem following
    (showsScan :
      ∀ n, (run.outputPins n).inportValid = true → Shows run image scan id n)
    (isEof : JpegOutput.typeOf id = BlockType.eof.code)
    (colour : run.frame.imgMode = .ycbcr444)
    (before : n ≤ horizon)
    (inImage :
      (run.arrivedAt n).arrived ≤ 192 * (image.columns * image.rows)) :
    (∀ m ≤ n, Following run image scan id horizon m) ∧
      ∀ m < n,
        JpegOutput.Arrived.Delivers (run.arrivals image scan horizon id)
          (run.arrivedAt m) (run.outputPins m) := by
  induction n with
  | zero =>
      refine ⟨fun m early => ?_, fun m early => by omega⟩
      obtain rfl : m = 0 := by omega
      exact ⟨JpegOutput.filled_fresh run.fresh _, run.started⟩
  | succ n inductionHypothesis =>
      have earlier : (run.arrivedAt n).arrived ≤
          192 * (image.columns * image.rows) :=
        (run.arrived_mono n.le_succ).trans inImage
      obtain ⟨follows, delivered⟩ :=
        inductionHypothesis (by omega) earlier
      have known := follows n (Nat.le_refl n)
      have read := known.read_le earlier
      have arrived := run.arrived_next n
      have pins := pins_deliver (showsScan n) isEof colour
        (show n < horizon by omega)
        (fun component push => by
          rw [JpegOutput.pushes, Bool.and_eq_true] at push
          rw [push.1, Bool.toNat_true] at arrived
          have isTaken := push.2
          rw [(showsScan n push.1).isFor_eq isEof] at isTaken
          exact room (fun m early => follows m (by omega)) push.1 (by omega)
            isTaken)
        (by omega)
      refine ⟨fun m early => ?_, fun m early => ?_⟩
      · rcases Nat.lt_or_eq_of_le early with inside | rfl
        · exact follows m (by omega)
        · exact ⟨known.filled.step pins, known.busy_step earlier⟩
      · rcases Nat.lt_succ_iff_lt_or_eq.mp early with inside | rfl
        · exact delivered m inside
        · exact pins

end Image

/-! ## The gate opens again -/

section Stored

variable {run : JoinedRun} {image : Image} {scan : EntropyCode.Scan}
variable {id : BitVec 32}

/-- A step of the output stage: it goes on where it has a block in store. -/
theorem phase_next
    {horizon n : Nat}
    (filled :
      JpegOutput.Arrived.Filled (run.arrivals image scan horizon id)
        (run.arrivedAt n))
    (pins :
      JpegOutput.Arrived.Delivers (run.arrivals image scan horizon id)
        (run.arrivedAt n) (run.outputPins n))
    (stored :
      64 * ((run.arrivedAt n).popped / 64 + 1) ≤
        JpegOutput.written (image.columns * image.rows) .cr
          (run.arrivedAt n).arrived) :
    JpegOutput.phase (run.arrivedAt n) ≤
        JpegOutput.phase (run.arrivedAt (n + 1)) ∧
      ((run.cycles n).outportAccept = true →
        JpegOutput.phase (run.arrivedAt (n + 1)) =
          JpegOutput.phase (run.arrivedAt n) + 1) := by
  have next : JpegOutput.phase (run.arrivedAt (n + 1)) = _ :=
    filled.phase_step pins
  rw [next]
  cases active : (run.arrivedAt n).output.activeQ with
  | false =>
      rw [filled.begins_of_stored active stored]
      exact ⟨Nat.le_add_right _ _, fun _ => rfl⟩
  | true =>
      refine ⟨Nat.le_add_right _ _, fun accept => ?_⟩
      have space : JpegOutput.outputSpace (run.arrivedAt n).output
          (run.outputPins n) = true := by
        rw [JpegOutput.outputSpace]
        change (_ || (run.cycles n).outportAccept) = true
        rw [accept, Bool.or_true]
      rw [if_pos rfl, space, Bool.toNat_true]

/-- A closed gate has a block in store behind it. -/
theorem Following.stored_of_closed
    {horizon n : Nat}
    (known : Following run image scan id horizon n)
    (closed : JpegOutput.inportAccept (run.arrivedAt n).output = false) :
    64 * ((run.arrivedAt n).popped / 64 + 1) ≤
      JpegOutput.written (image.columns * image.rows) .cr
        (run.arrivedAt n).arrived := by
  have luma := known.luma_level
  have red := known.red_level
  have near := (JpegOutput.written_cr_le (image.columns * image.rows) .y
    (run.arrivedAt n).arrived).2
  simp only [JpegOutput.inportAccept, known.busy, Bool.or_false,
    Bool.and_eq_false_iff, decide_eq_false_iff_not, BitVec.le_def] at closed
  rcases closed with full | full
  · change ¬ (run.arrivedAt n).output.uRamY.countQ.toNat ≤ 384 at full
    omega
  · change ¬ (run.arrivedAt n).output.uRamCr.countQ.toNat ≤ 128 at full
    omega

end Stored

section Fair

variable {run : JoinedRun} {image : Image} {scan : EntropyCode.Scan}
variable {padding : List Bool}
variable (carries : CarriesColour run image scan padding)
variable
  (fairReceiver : ∀ n, ∃ wait, (run.cycles (n + wait)).outportAccept = true)

include carries fairReceiver

/-- An image that never arrives as a whole finds the gate open again. -/
theorem gate_opens
    (never :
      ∀ n, (run.arrivedAt n).arrived < 192 * (image.columns * image.rows))
    (n : Nat) :
    ∃ wait, (run.coreCycles (n + wait)).outportAccept = true := by
  obtain ⟨id, isEof, showsScan⟩ := carries.shows
  have mode : run.frame.imgMode = .ycbcr444 :=
    carries.carriesImage.modeKept.trans carries.colour
  have known (m : Nat) :=
    following showsScan isEof mode (Nat.le_refl (m + 1))
      (never (m + 1)).le
  by_contra shut
  simp only [not_exists, Bool.not_eq_true] at shut
  have closed (m : Nat) (after : n ≤ m) :
      JpegOutput.inportAccept (run.arrivedAt m).output = false := by
    rw [run.arrivedAt_output]
    have here := shut (m - n)
    rwa [Nat.add_sub_cancel' after] at here
  have grows (m : Nat) (after : n ≤ m) :=
    phase_next ((known m).1 m m.le_succ).filled
      ((known m).2 m (Nat.lt_succ_self m))
      (((known m).1 m m.le_succ).stored_of_closed (closed m after))
  have mono {first later : Nat} (after : n ≤ first) (before : first ≤ later) :
      JpegOutput.phase (run.arrivedAt first) ≤
        JpegOutput.phase (run.arrivedAt later) := by
    induction before with
    | refl => exact Nat.le_refl _
    | step between inductionHypothesis =>
        exact inductionHypothesis.trans (grows _ (after.trans between)).1
  have reaches (count : Nat) :
      ∃ m, n ≤ m ∧ count ≤ JpegOutput.phase (run.arrivedAt m) := by
    induction count with
    | zero => exact ⟨n, Nat.le_refl n, Nat.zero_le _⟩
    | succ count inductionHypothesis =>
        obtain ⟨m, after, counted⟩ := inductionHypothesis
        obtain ⟨wait, accepted⟩ := fairReceiver m
        have next := (grows (m + wait) (by omega)).2 accepted
        have kept := mono after (Nat.le_add_right m wait)
        exact ⟨m + wait + 1, by omega, by omega⟩
  obtain ⟨m, after, many⟩ := reaches (65 * (image.columns * image.rows) + 65)
  have few := JpegOutput.phase_le (run.arrivedAt m)
  have read := ((known m).1 m m.le_succ).read_le (never m).le
  omega

/-- All samples of the image arrive. -/
theorem image_arrives
    (fairSource :
      ∀ n, ∃ wait,
        supplied (run.core.stateAt (n + wait)).decoder
          (run.core.decoderCycle (n + wait)) = true) :
    ∃ n, (run.arrivedAt n).arrived =
      192 * (image.columns * image.rows) := by
  by_contra missed
  simp only [not_exists] at missed
  have blocks := carries.length_blocks
  have positive := image.blockCount_pos
  rw [← carries.carriesImage.whole] at positive
  have never (n : Nat) :
      (run.arrivedAt n).arrived < 192 * (image.columns * image.rows) := by
    induction n with
    | zero =>
        change 0 < _
        omega
    | succ n inductionHypothesis =>
        have next := run.arrived_next_le n
        have other := missed (n + 1)
        omega
  have fairSink (n : Nat) := gate_opens carries fairReceiver never n
  obtain ⟨sent, ends⟩ := every_block_ends carries.carriesImage fairSource
    fairSink (show scan.blocks.length - 1 < scan.blocks.length by omega)
  obtain ⟨time, leaves⟩ := ends.leaves carries.carriesImage.carries fairSink
  have few := never time
  rw [run.arrivedAt_arrived] at few
  omega

end Fair

/-! ## The pixels of the image -/

/-- The sample of a component at a place, as the software transforms it. -/
def JoinedRun.sample (run : JoinedRun) (scan : EntropyCode.Scan)
    (component : EntropyCode.Component) (place : Nat) : BitVec 32 :=
  Software.idctProcessWrap
    (Scan.wordOf
      (run.core.blockOf scan
        (3 * (place / 64) + JpegOutput.turn component)))
    (place % 64)

/-- The pixel of a place in the order of the blocks. -/
def JoinedRun.pixel (run : JoinedRun) (image : Image)
    (scan : EntropyCode.Scan) (place : Nat) : JpegOutput.Pixel :=
  let mcu := place / 64
  let rgb :=
    JpegOutput.conv .ycbcr444 (run.sample scan .y place)
      (run.sample scan .cb place) (run.sample scan .cr place)
  { x := BitVec.ofNat 16 (8 * (mcu % image.columns) + place % 8)
    y := BitVec.ofNat 16 (8 * (mcu / image.columns) + place % 64 / 8)
    r := JpegOutput.channel rgb.1
    g := JpegOutput.channel rgb.2.1
    b := JpegOutput.channel rgb.2.2 }

/-- The pixels of a 4:4:4 image in the order of its blocks. -/
def JoinedRun.pixels (run : JoinedRun) (image : Image)
    (scan : EntropyCode.Scan) : List JpegOutput.Pixel :=
  (List.range (64 * (image.columns * image.rows))).map
    (run.pixel image scan)

section Pixels

variable {run : JoinedRun} {image : Image} {scan : EntropyCode.Scan}
variable {padding : List Bool} {id : BitVec 32} {horizon : Nat}

/-- What is read at a place of the image is its pixel. -/
theorem pixels_eq
    (colour : image.mode = .ycbcr444)
    {place : Nat}
    (inImage : place < 64 * (image.columns * image.rows)) :
    (run.arrivals image scan horizon id).pixels place =
      [run.pixel image scan place] := by
  have isMcu : place / 64 < image.columns * image.rows := by omega
  have columns := image.columns_eq
  have rows := image.rows_eq
  have size : mcuSize .ycbcr444 = 8 := rfl
  rw [colour, size] at columns rows
  have width := image.width.isLt
  have height := image.height.isLt
  have column : place / 64 % image.columns < image.columns :=
    Nat.mod_lt _ image.columns_pos
  have row : place / 64 / image.columns < image.rows :=
    Nat.div_lt_of_lt_mul isMcu
  have idx : (BitVec.ofNat 6 (place % 64)).toNat = place % 64 := by
    rw [BitVec.toNat_ofNat]
    omega
  have isId : (run.arrivals image scan horizon id).id (place / 64) =
      idOf .y (place / 64 / image.columns) (place / 64 % image.columns) :=
    if_pos isMcu
  have blocks (component : EntropyCode.Component) :
      (run.arrivals image scan horizon id).blocks component (place / 64)
          (BitVec.ofNat 6 (place % 64)) =
        run.sample scan component place := by
    rw [JoinedRun.arrivals]
    simp only
    rw [if_pos isMcu, idx]
    rfl
  have typed : (JpegOutput.typeOf (idOf .y (place / 64 / image.columns)
      (place / 64 % image.columns)) == BlockType.eof.code) = false := by
    rw [show JpegOutput.typeOf (idOf .y _ _) = BlockType.y.code from
      code_of_id _ _ _]
    rfl
  obtain ⟨x, y⟩ := JpegOutput.placeOf_idOf
    (show place / 64 / image.columns < 8192 by omega)
    (show place / 64 % image.columns < 8192 by omega)
    (Nat.mod_lt place (by decide : 0 < 64))
  rw [JpegOutput.Arrivals.pixels, isId, typed]
  simp only [Bool.false_eq_true, if_false, JpegOutput.Arrivals.pixel, isId,
    blocks, JoinedRun.pixel]
  congr 2
  · apply BitVec.eq_of_toNat_eq
    refine x.trans ?_
    rw [BitVec.toNat_ofNat]
    omega
  · apply BitVec.eq_of_toNat_eq
    refine y.trans ?_
    rw [BitVec.toNat_ofNat]
    omega

/-- What has been read of the image are its first pixels. -/
theorem pixels_read
    (colour : image.mode = .ycbcr444)
    {count : Nat}
    (inImage : count ≤ 64 * (image.columns * image.rows)) :
    (List.range count).flatMap (run.arrivals image scan horizon id).pixels =
      (run.pixels image scan).take count := by
  rw [JoinedRun.pixels, ← List.map_take, List.take_range,
    Nat.min_eq_left inImage, List.map_eq_flatMap]
  refine List.flatMap_congr fun place isPlace => ?_
  exact pixels_eq colour
    (Nat.lt_of_lt_of_le (List.mem_range.mp isPlace) inImage)

end Pixels

/--
From the bits of a 4:4:4 image to its pixels: until something arrives at the
output that is behind the image, the pixels that the receiver has accepted are
the first ones of the image, in the order of its blocks, each at its place and
converted from the three samples that the software's transform gives there.
The source and the receiver may stall as they like.
-/
theorem pixels_in_order
    (run : JoinedRun)
    (image : Image)
    (scan : EntropyCode.Scan)
    (padding : List Bool)
    (carries : CarriesColour run image scan padding)
    (n : Nat)
    (inImage : (run.core.samplesAt n).length ≤ 64 * image.blockCount) :
    run.pixelsAt n <+: run.pixels image scan := by
  obtain ⟨id, isEof, showsScan⟩ := carries.shows
  have blocks := carries.length_blocks
  rw [carries.carriesImage.whole] at blocks
  rw [← run.arrivedAt_arrived] at inImage
  have mode : run.frame.imgMode = .ycbcr444 :=
    carries.carriesImage.modeKept.trans carries.colour
  obtain ⟨follows, delivered⟩ :=
    following showsScan isEof mode (Nat.le_refl n) (by omega)
  have known := follows n (Nat.le_refl n)
  have read := JpegOutput.pixels_run (s := run.arrivedAt)
    (i := run.outputPins) (fun _ => rfl)
    (JpegOutput.filled_fresh run.fresh _) run.shownNothing rfl delivered
  rw [pixels_read carries.colour (known.read_le (by omega))] at read
  exact (List.prefix_append _ _).trans (read ▸ List.take_prefix _ _)

/-! ## A colour image of two MCUs -/

/-- A chrominance block with two coefficients behind its mean. -/
def blueBlock : EntropyCode.CodedBlock where
  block := { difference := 2, symbols := [.value 0 (-1), .value 1 1] }
  dcWord := [true, false]
  acBits :=
    [false, true, false, true, false, true, true, true, false, false]

theorem blue_coded :
    EntropyCode.BlockCode
      ((JpegDht.builtIn .cxDc).code (JpegDht.builtIn_kraft .cxDc))
      ((JpegDht.builtIn .cxAc).code (JpegDht.builtIn_kraft .cxAc))
      blueBlock.block blueBlock.dcWord blueBlock.acBits where
  categorySmall := by decide
  codes := by decide +kernel
  coded :=
    have first :
        ((JpegDht.builtIn .cxAc).code (JpegDht.builtIn_kraft .cxAc)).Codes
          [false, true] (EntropyCode.runSize 0 1) := by
      decide +kernel
    have second :
        ((JpegDht.builtIn .cxAc).code (JpegDht.builtIn_kraft .cxAc)).Codes
          [true, false, true, true] (EntropyCode.runSize 1 1) := by
      decide +kernel
    have ended :
        ((JpegDht.builtIn .cxAc).code (JpegDht.builtIn_kraft .cxAc)).Codes
          [false, false] EntropyCode.endOfBlock := by
      decide +kernel
    @EntropyCode.AcCode.value _ 1 0 (-1) [false, true] _ _ (by decide)
      (by decide) (by decide) (by decide) first
      (@EntropyCode.AcCode.value _ 2 1 1 _ _ _ (by decide) (by decide)
        (by decide) (by decide) second (.endOfBlock (by decide) ended))

/-- A chrominance block with one coefficient. -/
def redBlock : EntropyCode.CodedBlock where
  block := { difference := -1, symbols := [.value 0 3] }
  dcWord := [false, true]
  acBits := [true, false, false, true, true, false, false]

theorem red_coded :
    EntropyCode.BlockCode
      ((JpegDht.builtIn .cxDc).code (JpegDht.builtIn_kraft .cxDc))
      ((JpegDht.builtIn .cxAc).code (JpegDht.builtIn_kraft .cxAc))
      redBlock.block redBlock.dcWord redBlock.acBits where
  categorySmall := by decide
  codes := by decide +kernel
  coded :=
    have first :
        ((JpegDht.builtIn .cxAc).code (JpegDht.builtIn_kraft .cxAc)).Codes
          [true, false, false] (EntropyCode.runSize 0 2) := by
      decide +kernel
    have ended :
        ((JpegDht.builtIn .cxAc).code (JpegDht.builtIn_kraft .cxAc)).Codes
          [false, false] EntropyCode.endOfBlock := by
      decide +kernel
    @EntropyCode.AcCode.value _ 1 0 3 _ _ _ (by decide) (by decide)
      (by decide) (by decide) first (.endOfBlock (by decide) ended)

theorem colour_coded (index : Nat) (coded : EntropyCode.CodedBlock)
    (here :
      [brightBlock, blueBlock, redBlock, darkBlock, blueBlock, redBlock][
        index]? = some coded) :
    EntropyCode.BlockCode
      ((JpegDht.codesOf JpegDht.builtIn JpegDht.builtIn_kraft).dc
        (componentOrder .ycbcr444 index))
      ((JpegDht.codesOf JpegDht.builtIn JpegDht.builtIn_kraft).ac
        (componentOrder .ycbcr444 index))
      coded.block coded.dcWord coded.acBits := by
  rcases index with _ | _ | _ | _ | _ | _ | index
  · obtain rfl : brightBlock = coded := Option.some.inj here
    exact bright_coded
  · obtain rfl : blueBlock = coded := Option.some.inj here
    exact blue_coded
  · obtain rfl : redBlock = coded := Option.some.inj here
    exact red_coded
  · obtain rfl : darkBlock = coded := Option.some.inj here
    exact dark_coded
  · obtain rfl : blueBlock = coded := Option.some.inj here
    exact blue_coded
  · obtain rfl : redBlock = coded := Option.some.inj here
    exact red_coded
  · cases here

/-- A 4:4:4 image of two MCUs in the tables of the standard. -/
def colourScan : EntropyCode.Scan where
  order := componentOrder .ycbcr444
  tables := JpegDht.codesOf JpegDht.builtIn JpegDht.builtIn_kraft
  blocks := [brightBlock, blueBlock, redBlock, darkBlock, blueBlock, redBlock]
  coded := colour_coded

theorem colour_supported : ImageMode.ycbcr444 ≠ .unsupported := by decide

theorem colour_columns : mcuSize .ycbcr444 ∣ (16 : BitVec 16).toNat := by
  decide

theorem colour_rows : mcuSize .ycbcr444 ∣ (8 : BitVec 16).toNat := by decide

/-- Its frame. -/
def colourImage : Image where
  mode := .ycbcr444
  width := 16
  height := 8
  supported := colour_supported
  widthPositive := pair_width
  heightPositive := pair_height
  widthWhole := colour_columns
  heightWhole := colour_rows

/-- What the registers of `jpeg_input` say of it. -/
def colourFrame : CoefficientChain.Frame where
  imgWidth := 16
  imgMode := .ycbcr444
  imgDqtTableY := 0
  imgDqtTableCb := 1
  imgDqtTableCr := 1

/-- The bytes of the six blocks. -/
def colourSource : List Byte :=
  [0x97, 0x70, 0xAA, 0x57, 0x14, 0xC6, 0x66, 0xA9, 0x5C, 0x53, 0x00]

/-- The six blocks are in the source; the output stage has started. -/
def colourFirst : Joined where
  core := { pairFirst with decoder := .initial (fun _ => 0) colourSource }
  output := { JpegOutput.reset with idleQ := false }

/-- Nothing stalls, and the end is told when all bytes are taken. -/
def colourCycle (n : Nat) : Cycle :=
  { pairCycle n with sourceLast := decide (30 ≤ n) }

/-- The bytes left behind a cycle. -/
def colourLeft (n : Nat) : List Byte :=
  let s := trace (Joined.step colourFrame 8) colourFirst colourCycle n
  s.core.decoder.sourceNext
    (s.core.decoderCycle colourFrame (s.coreCycle (colourCycle n)))

/-- All bytes are taken after 30 cycles. -/
theorem colour_taken (n : Nat) : colourLeft (n + 30) = [] := by
  induction n with
  | zero => decide +kernel
  | succ n inductionHypothesis =>
      rw [Nat.add_right_comm]
      generalize n + 30 = before at inductionHypothesis ⊢
      have taken : (trace (Joined.step colourFrame 8) colourFirst colourCycle
          (before + 1)).core.decoder.source = [] := inductionHypothesis
      simp only [colourLeft, System.sourceNext, taken, List.tail_nil,
        ite_self]

theorem colour_fresh : JpegOutput.Fresh colourFirst.output := by
  refine ⟨⟨rfl, rfl, rfl, rfl, rfl, rfl, rfl⟩, rfl, ⟨rfl, rfl, rfl, rfl⟩,
    rfl, rfl, rfl, rfl⟩

theorem colour_lastAfterAll
    (n : Nat)
    (last : (colourCycle n).sourceLast = true) :
    colourLeft n = [] := by
  obtain ⟨m, rfl⟩ := Nat.exists_eq_add_of_le' (of_decide_eq_true last)
  exact colour_taken m

/-- A run over the colour image, with a receiver that never stalls. -/
def colourRun : JoinedRun where
  frame := colourFrame
  imgHeight := 8
  source := colourSource
  first := colourFirst
  cycles := colourCycle
  ready :=
    { decoder := ⟨_, rfl⟩
      dht := rfl
      inportEmpty := ⟨rfl, rfl⟩
      outportEmpty := ⟨rfl, rfl⟩
      idct := JpegIdct.State.empty_reset _ _ _ _ _ }
  fresh := colour_fresh
  shownNothing := rfl
  started := rfl
  noReset _ := rfl
  noStart _ := rfl
  noDht _ := rfl
  noDqt _ := rfl
  lastAfterAll := colour_lastAfterAll

theorem colour_oneRow (n : Nat) :
    OneRow (colourRun.core.stateAt n).decoder.mcu := by
  induction n with
  | zero => exact .inl ⟨rfl, rfl⟩
  | succ n inductionHypothesis =>
      exact inductionHypothesis.step ⟨rfl, rfl⟩ rfl rfl

theorem colour_carries :
    CarriesColour colourRun colourImage colourScan
      (List.replicate 6 false) where
  carriesImage :=
    { carries :=
        { supported := by decide
          inOrder := rfl
          spelled := by decide +kernel
          serves := JpegDht.Circuit.standard_serves _ }
      modeKept := rfl
      widthKept := rfl
      whole := by decide
      endsInLastRow := fun n => (colour_oneRow n).endsInLastRow rfl rfl rfl }
  colour := rfl

theorem colour_supplied (n : Nat) :
    ∃ wait,
      supplied (colourRun.core.stateAt (n + wait)).decoder
        (colourRun.core.decoderCycle (n + wait)) = true := by
  refine ⟨30, ?_⟩
  have told : (colourRun.core.decoderCycle (n + 30)).sourceLast = true :=
    decide_eq_true (Nat.le_add_left 30 n)
  have offered : (colourRun.core.decoderCycle (n + 30)).sourceValid = true :=
    rfl
  rw [supplied, told, offered]
  rfl

/-- When all samples of the colour image have arrived its pixels are in order. -/
theorem pixels_in_order_colour :
    ∃ n, (colourRun.core.samplesAt n).length = 64 * colourImage.blockCount ∧
      colourRun.pixelsAt n <+: colourRun.pixels colourImage colourScan := by
  obtain ⟨n, all⟩ := image_arrives colour_carries (fun _ => ⟨0, rfl⟩)
    colour_supplied
  rw [colourRun.arrivedAt_arrived] at all
  have count : 64 * colourImage.blockCount = 384 := by decide
  have mcus : 192 * (colourImage.columns * colourImage.rows) = 384 := by decide
  refine ⟨n, by omega, ?_⟩
  exact pixels_in_order colourRun colourImage colourScan
    (List.replicate 6 false) colour_carries n (by omega)

end CoreJpeg.JpegCore
