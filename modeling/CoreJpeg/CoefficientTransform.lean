import CoreJpeg.CoefficientSlots
import CoreJpeg.IdctOrder

namespace CoreJpeg.CoefficientChain

open Clocked

/-!
# From coefficients to samples

`jpeg_idct_ram` is the first stage of `jpeg_idct`.  Behind a scan this module
runs the other stages: every block of the image that was decoded leaves the
transform in its turn, as `process_samples` and `jpeg_idct::process` make it
from the coefficients that the decoder emitted.
-/

namespace Scan

/-- The pins of `jpeg_idct` in a cycle. -/
def idctPins (scan : Scan) (n : Nat) : JpegIdct.Input where
  rst := (scan.cycles n).rst
  imgStart := (scan.cycles n).imgStart
  inportValid := (scan.stateAt n).dqt.outport.validQ
  inportData := (scan.stateAt n).dqt.outport.dataQ
  inportIdx := (scan.stateAt n).dqt.outport.idxQ
  inportEob := (scan.stateAt n).dqt.outport.eobQ
  inportId := (scan.stateAt n).dqt.outport.idQ
  outportAccept := (scan.cycles n).outportReady

/-- The registers of `jpeg_idct` before the `n`-th cycle. -/
def idctAt (scan : Scan) (first : JpegIdct.State) (n : Nat) :
    JpegIdct.State :=
  trace JpegIdct.State.step first scan.idctPins n

/-- The number of end pulses that left the decoder before the `n`-th cycle. -/
def endsBefore (scan : Scan) : Nat → Nat
  | 0 => 0
  | n + 1 => scan.endsBefore n + (scan.ends n).toNat

section Transform

variable {scan : Scan} {first : JpegIdct.State}
variable (empty : first.Empty) (same : first.ram = scan.first.ram)

include same in
/-- The coefficient buffer of the transform is that of the chain. -/
theorem idctAt_ram (n : Nat) :
    (scan.idctAt first n).ram = (scan.stateAt n).ram := by
  induction n with
  | zero => exact same
  | succ n inductionHypothesis =>
      have next : (scan.idctAt first (n + 1)).ram =
          JpegIdctRam.step (scan.idctAt first n).ram (scan.idctPins n).ram :=
        rfl
      rw [next, inductionHypothesis]
      rfl

include empty in
/-- The transform runs behind the scan. -/
theorem idctRun : JpegIdct.Run (scan.idctAt first) scan.idctPins where
  initially := empty
  next _ := rfl
  noReset := scan.noReset
  noStart := scan.noStart

/-! ## End pulses -/

/-- Before the end of the image what arrives is accepted. -/
theorem accepts_of_open
    {n : Nat}
    (imageOpen : ImageOpen scan n)
    (arrived :
      (scan.stateAt n).dqt.outport.validQ = true ∨
        (scan.stateAt n).dqt.outport.eobQ = true) :
    scan.accepts n = true := by
  apply (handed imageOpen).accepting
  by_contra busy
  simp only [not_or, not_not, Bool.not_eq_true] at busy
  obtain ⟨isIdle, noEnd, noEndOut⟩ := busy
  rw [outport_silent imageOpen isIdle noEnd noEndOut, noEndOut] at arrived
  simp at arrived

/-- The image was open in every earlier cycle. -/
theorem ImageOpen.earlier
    {n m : Nat}
    (imageOpen : ImageOpen scan n)
    (before : m ≤ n) :
    ImageOpen scan m := by
  obtain ⟨k, rfl⟩ := Nat.exists_eq_add_of_le before
  induction k with
  | zero => exact imageOpen
  | succ k inductionHypothesis =>
      exact inductionHypothesis imageOpen.before (Nat.le_add_right m k)

include same in
/-- Up to the end of a block samples and end pulses come when accepted. -/
theorem heeds
    {start sent : Nat}
    (begins : scan.Begins start)
    (inBlock : scan.InBlock start sent)
    (ended : scan.ends sent = true) :
    JpegIdct.Heeds (scan.idctAt first) scan.idctPins (sent + 3) := by
  intro m inside arrived
  have accepts : scan.accepts m = true := by
    rcases Nat.lt_or_ge m start with before | after
    · exact accepts_of_open (begins.prepared.imageOpen.earlier before.le)
        arrived
    · obtain ⟨other, rfl, behind, isSample, isEnd⟩ :=
        arrival begins after arrived
      have noEnd := before_end begins inBlock (.inr ended)
      have inOther := inBlock_until begins behind fun k early late =>
        noEnd k early (by omega)
      rcases arrived with sample | pulse
      · exact (sample_enters begins inOther (isSample.trans sample)).2.1
      · exact (end_enters begins inOther (isEnd.trans pulse)).2.1
  rw [JpegIdct.State.inportAccept, idctAt_ram same]
  exact accepts

omit empty same in
/-- An end pulse that is accepted closes a block. -/
theorem blocks_succ
    {n : Nat}
    (heeds : JpegIdct.Heeds (scan.idctAt first) scan.idctPins (n + 1)) :
    (JpegIdct.blocksAt (scan.idctAt first) scan.idctPins (n + 1)).length =
      (JpegIdct.blocksAt (scan.idctAt first) scan.idctPins n).length +
        (scan.stateAt n).dqt.outport.eobQ.toNat := by
  have closes : JpegIdctRam.closes
      (JpegIdct.ramAt (scan.idctAt first) n)
      (JpegIdct.ramPins scan.idctPins n) =
        (scan.stateAt n).dqt.outport.eobQ := by
    cases pulse : (scan.stateAt n).dqt.outport.eobQ with
    | false => simp [JpegIdctRam.closes, JpegIdct.Input.ram, idctPins, pulse]
    | true =>
        have accepts := heeds n (Nat.lt_succ_self n) (.inr pulse)
        rw [JpegIdctRam.closes, Bool.and_eq_true]
        exact ⟨pulse, accepts⟩
  rw [JpegIdct.blocksAt, closes]
  split_ifs with pulse <;> simp [pulse]

omit empty same in
/-- Every end pulse that was accepted has closed a block. -/
theorem blocks_counted
    {n : Nat}
    (heeds : JpegIdct.Heeds (scan.idctAt first) scan.idctPins (n + 2)) :
    (JpegIdct.blocksAt (scan.idctAt first) scan.idctPins (n + 2)).length =
      scan.endsBefore n := by
  induction n with
  | zero =>
      have noEndPulse : (scan.stateAt 0).dqt.outport.eobQ = false :=
        scan.clean.outportEmpty.2
      have noneToo : (scan.stateAt 1).dqt.outport.eobQ = false := by
        rw [outport_succ]
        exact scan.clean.inportEmpty.2
      rw [blocks_succ heeds, blocks_succ (heeds.before (by decide)), noEndPulse,
        noneToo]
      rfl
  | succ n inductionHypothesis =>
      have counted := inductionHypothesis (heeds.before (Nat.le_succ _))
      rw [show n + 1 + 2 = n + 2 + 1 by omega] at heeds ⊢
      rw [blocks_succ heeds, counted, (scan.arrives n).2]
      rfl

omit empty same in
/-- No block is closed without an end pulse. -/
theorem blocks_le (n : Nat) :
    (JpegIdct.blocksAt (scan.idctAt first) scan.idctPins (n + 2)).length ≤
      scan.endsBefore n := by
  have grows (m : Nat) :
      (JpegIdct.blocksAt (scan.idctAt first) scan.idctPins (m + 1)).length ≤
        (JpegIdct.blocksAt (scan.idctAt first) scan.idctPins m).length +
          (scan.stateAt m).dqt.outport.eobQ.toNat := by
    rw [JpegIdct.blocksAt]
    split_ifs with closes
    · have pulse : (scan.stateAt m).dqt.outport.eobQ = true :=
        Bool.and_elim_left closes
      rw [List.length_append, List.length_singleton, pulse, Bool.toNat_true]
    · exact Nat.le_add_right _ _
  induction n with
  | zero =>
      have noEndPulse : (scan.stateAt 0).dqt.outport.eobQ = false :=
        scan.clean.outportEmpty.2
      have noneToo : (scan.stateAt 1).dqt.outport.eobQ = false := by
        rw [outport_succ]
        exact scan.clean.inportEmpty.2
      have first := grows 0
      have second := grows 1
      rw [noEndPulse] at first
      rw [noneToo] at second
      exact second.trans first
  | succ n inductionHypothesis =>
      have next := grows (n + 2)
      rw [(scan.arrives n).2] at next
      exact next.trans (Nat.add_le_add_right inductionHypothesis _)

/-! ## One block -/

/-- What the transform reads for a block that the software multiplied. -/
def wordOf (blockOut : Nat → Int) (place : Nat) : BitVec 32 :=
  (BitVec.ofInt 16 (blockOut place)).signExtend 32

include empty same

/-- The block that an end pulse closes is the one that the software computes. -/
theorem block_closed
    {start sent : Nat}
    (begins : scan.Begins start)
    (inBlock : scan.InBlock start sent)
    (ended : scan.ends sent = true) :
    ∃ block blockOut,
      (JpegIdct.blocksAt (scan.idctAt first) scan.idctPins (sent + 3))[
          scan.endsBefore sent]? = some block ∧
        Software.processSamples scan.tables
            (scan.dqtTable (scan.blockType start)).toNat
            (scan.samples start sent) = .ok blockOut ∧
          block.id = scan.blockId start ∧
            ∀ place < 64,
              JpegIdct.word block.coeffs place = wordOf blockOut place := by
  have inTime := heeds same begins inBlock ended
  obtain ⟨blockOut, processed, holds⟩ :=
    processed_so_far begins (Nat.le_of_lt inBlock.1)
      (before_end begins inBlock (.inr ended))
  obtain ⟨pulse, accepts, slot⟩ := end_enters begins inBlock ended
  have counted := blocks_counted (inTime.before (Nat.le_succ _))
  have ram (n : Nat) := idctAt_ram same n
  have run : JpegIdct.Run (scan.idctAt first) scan.idctPins := idctRun empty
  have closes : JpegIdctRam.closes
      (JpegIdct.ramAt (scan.idctAt first) (sent + 2))
      (JpegIdct.ramPins scan.idctPins (sent + 2)) = true := by
    rw [JpegIdctRam.closes, Bool.and_eq_true]
    exact ⟨pulse, inTime (sent + 2) (Nat.lt_succ_self _) (.inr pulse)⟩
  obtain ⟨block, isBlock, isId, coeffs⟩ :=
    run.block_closed closes
  rw [counted] at isBlock
  refine ⟨block, blockOut, isBlock, processed,
    isId.trans (end_id begins inBlock ended), fun place inside => ?_⟩
  have held := holds (BitVec.ofNat 6 place)
  rw [BitVec.toNat_ofNat, Nat.mod_eq_of_lt inside] at held
  have isSlot : (scan.stateAt (sent + 2)).ram.blockWrQ = scan.slotAt start :=
    slot
  rw [JpegIdct.word, coeffs, ram, ram, isSlot, wordOf, ← held]
  rfl

omit empty same in
/-- In the range of baseline JPEG the words are the software's integers. -/
theorem wordOf_stands
    {blockOut : Nat → Int}
    (baseline : Software.Baseline blockOut)
    (place : Nat)
    (inside : place < 64) :
    Software.Stands (wordOf blockOut place) (blockOut place) := by
  obtain ⟨low, high⟩ := baseline place inside
  rw [Software.Stands, wordOf, BitVec.toInt_signExtend_of_le (by decide)]
  exact BitVec.toInt_ofInt_eq_self (by decide) (by omega) (by omega)

omit empty same in
/-- Where no rotated sum leaves 32 bits the transform is exact. -/
theorem transform_exact
    {blockOut : Nat → Int}
    (baseline : Software.Baseline blockOut)
    (fits : Software.RotationsFit blockOut)
    (idx : BitVec 6) :
    (Software.idctProcessWrap (wordOf blockOut) idx.toNat).toInt =
      Software.idctProcess blockOut idx.toNat := by
  obtain ⟨out, computed, exactOut⟩ :=
    Software.idctProcess32_of_fits baseline fits
  have stands := Software.idctProcess32_stands
    (wordOf_stands baseline) computed idx.toNat
  rw [stands, exactOut _ idx.isLt]

/--
Every block of the image leaves the transform in its turn.  When its end pulse
is the `k`-th, the samples from `64 * k` on are, with its id and place by place,
the software's transform of the coefficients that `process_samples` makes of
its samples; where no rotated sum of the transform leaves 32 bits they are the
exact integers.  When `outport_accept_i` does not stay low, all of them leave.
-/
theorem block_transformed
    {start sent : Nat}
    (begins : scan.Begins start)
    (inBlock : scan.InBlock start sent)
    (ended : scan.ends sent = true) :
    ∃ blockOut,
      Software.processSamples scan.tables
          (scan.dqtTable (scan.blockType start)).toNat
          (scan.samples start sent) = .ok blockOut ∧
        (∀ time, ∀ m < 64, ∀ sample,
          (JpegIdct.samplesAt (scan.idctAt first) time)[
              64 * scan.endsBefore sent + m]? = some sample →
            sample.id = scan.blockId start ∧
              sample.idx = JpegIdct.ptrConv (BitVec.ofNat 6 m) ∧
              sample.data = Software.idctProcessWrap (wordOf blockOut)
                sample.idx.toNat ∧
              (Software.Baseline blockOut → Software.RotationsFit blockOut →
                sample.data.toInt =
                  Software.idctProcess blockOut sample.idx.toNat)) ∧
        ((∀ n, ∃ wait, (scan.cycles (n + wait)).outportReady = true) →
          ∃ time, 64 * scan.endsBefore sent + 64 ≤
            (JpegIdct.samplesAt (scan.idctAt first) time).length) := by
  obtain ⟨block, blockOut, isBlock, processed, isId, words⟩ :=
    block_closed empty same begins inBlock ended
  have run : JpegIdct.Run (scan.idctAt first) scan.idctPins := idctRun empty
  have inTime := heeds same begins inBlock ended
  refine ⟨blockOut, processed, ?_, fun fair =>
    run.block_leaves fair (List.getElem?_eq_some_iff.mp isBlock).1⟩
  intro time m inside sample isSample
  have here := run.block_samples inTime isBlock inside isSample
  have data : sample.data =
      Software.idctProcessWrap (wordOf blockOut) sample.idx.toNat := by
    rw [here]
    exact Software.idctProcessWrap_congr words
  refine ⟨by rw [here]; exact isId, by rw [here]; rfl, data,
    fun baseline fits => ?_⟩
  rw [data]
  exact transform_exact baseline fits sample.idx

end Transform

/-- A transform behind reset. -/
def freshTransform : JpegIdct.State :=
  .reset (fun _ _ => 0) (fun _ => 0) (fun _ _ => 0) (fun _ => 0) fun _ => 0

/-- The first block of the textured scan leaves with 64 samples. -/
theorem block_transformed_textured :
    texturedBlocks.ends 17 = true ∧
      ∃ blockOut,
        Software.processSamples texturedBlocks.tables
            (texturedBlocks.dqtTable (texturedBlocks.blockType 0)).toNat
            (texturedBlocks.samples 0 17) = .ok blockOut ∧
          ∃ time, 64 * texturedBlocks.endsBefore 17 + 64 ≤
            (JpegIdct.samplesAt (texturedBlocks.idctAt freshTransform)
              time).length := by
  have ended : texturedBlocks.ends 17 = true := by decide +kernel
  have one : ∀ m < 17, 0 < m → texturedBlocks.startsAt m = false := by
    decide +kernel
  have inBlock : texturedBlocks.InBlock 0 17 :=
    ⟨by decide, fun m after before => one m before after⟩
  obtain ⟨blockOut, processed, -, leaves⟩ :=
    @block_transformed texturedBlocks freshTransform
      (JpegIdct.State.empty_reset _ _ _ _ _) rfl 0 17 ⟨rfl, by decide⟩
      inBlock ended
  exact ⟨ended, blockOut, processed, leaves fun _ => ⟨0, rfl⟩⟩

end Scan

end CoreJpeg.CoefficientChain
