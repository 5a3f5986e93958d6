import CoreJpeg.CorePixels

namespace CoreJpeg.JpegCore

open Clocked CoefficientChain McuProc

/-!
# All pixels of a 4:4:4 image leave

Behind the samples of an image come blocks for which the output stage has no
use, and they are let in by the same gate.  At most three MCUs of the image are
left to be read when they come; when these are read without a stall, each of the
blocks still finds room.
-/

/-! ## Behind the image -/

/-- The last sample of the image arrived in the cycle before. -/
structure Complete (run : JoinedRun) (image : Image) (n : Nat) : Prop where
  all :
    (run.arrivedAt (n + 1)).arrived = 192 * (image.columns * image.rows)
  last :
    (run.arrivedAt n).arrived + 1 = 192 * (image.columns * image.rows)

/-- The part of the image that is left when the image is complete. -/
structure Draining (run : JoinedRun) (image : Image)
    (scan : EntropyCode.Scan) (id : BitVec 32) (horizon n k : Nat) :
    Prop where
  filled :
    JpegOutput.Arrived.Filled (run.arrivals image scan horizon id)
      (run.arrivedAt (n + 1 + k))
  unread :
    (run.arrivedAt (n + 1 + k)).popped < 64 * (image.columns * image.rows)
  steps :
    65 * (image.columns * image.rows) + k ≤
      JpegOutput.phase (run.arrivedAt (n + 1 + k)) + 195
  delivered :
    ∀ m < n + 1 + k,
      JpegOutput.Arrived.Delivers (run.arrivals image scan horizon id)
        (run.arrivedAt m) (run.outputPins m)

section Behind

variable {run : JoinedRun} {image : Image} {scan : EntropyCode.Scan}
variable {id : BitVec 32} {horizon n k : Nat}

/-- A sample arrived in that cycle. -/
theorem Complete.valid
    (complete : Complete run image n) :
    (run.outputPins n).inportValid = true := by
  have next := run.arrived_next n
  have all := complete.all
  have last := complete.last
  cases shown : (run.outputPins n).inportValid with
  | true => rfl
  | false =>
      rw [shown, Bool.toNat_false] at next
      omega

/-- From then on everything is behind the image. -/
theorem Complete.behind
    (complete : Complete run image n)
    (k : Nat) :
    192 * (image.columns * image.rows) ≤
      (run.arrivedAt (n + 1 + k)).arrived := by
  rw [← complete.all]
  exact run.arrived_mono (Nat.le_add_right _ _)

/-- A block behind the image arrives when one of the image has been read. -/
theorem Draining.room
    (draining : Draining run image scan id horizon n k)
    (complete : Complete run image n)
    (valid : (run.outputPins (n + 1 + k)).inportValid = true)
    (component : EntropyCode.Component) :
    JpegOutput.written (image.columns * image.rows) component
        (run.arrivedAt (n + 1 + k)).arrived / 64 <
      (run.arrivedAt (n + 1 + k)).popped / 64 + 4 := by
  have arrived (m : Nat) : (run.arrivedAt m).arrived =
      (JpegIdct.samplesAt (fun j => (run.core.stateAt j).idct) m).length :=
    run.arrivedAt_arrived m
  have all := complete.all
  have last := complete.last
  have leaves : (run.core.stateAt n).idct.outportValid = true := by
    rw [run.core_stateAt]
    exact complete.valid
  have leavesToo : (run.core.stateAt (n + (1 + k))).idct.outportValid =
      true := by
    rw [run.core_stateAt, ← Nat.add_assoc]
    exact valid
  have apart := (idct_runs run.core).blocks_apart
    (n := n) (k := 1 + k) leaves leavesToo
  rw [← arrived, ← arrived, ← Nat.add_assoc] at apart
  have behind := complete.behind k
  have reached := JpegOutput.phase_le (run.arrivedAt (n + 1 + k))
  have steps := draining.steps
  rw [JpegOutput.written_behind behind]
  omega

/-- While the image is read the blocks behind it are delivered. -/
theorem Draining.pins
    (draining : Draining run image scan id horizon n k)
    (complete : Complete run image n)
    (showsScan :
      ∀ n, (run.outputPins n).inportValid = true → Shows run image scan id n)
    (isEof : JpegOutput.typeOf id = BlockType.eof.code)
    (colour : run.frame.imgMode = .ycbcr444)
    (before : n + 1 + k < horizon) :
    JpegOutput.Arrived.Delivers (run.arrivals image scan horizon id)
      (run.arrivedAt (n + 1 + k)) (run.outputPins (n + 1 + k)) := by
  have unread := draining.unread
  refine pins_deliver (showsScan _) isEof colour before (fun component push => ?_)
    (by omega)
  rw [JpegOutput.pushes, Bool.and_eq_true] at push
  exact draining.room complete push.1 component

/-- A cycle without a stall brings the stage a step further. -/
theorem Draining.next
    (draining : Draining run image scan id horizon n k)
    (complete : Complete run image n)
    (pins :
      JpegOutput.Arrived.Delivers (run.arrivals image scan horizon id)
        (run.arrivedAt (n + 1 + k)) (run.outputPins (n + 1 + k)))
    (accepted : (run.cycles (n + 1 + k)).outportAccept = true)
    (unread :
      (run.arrivedAt (n + 1 + (k + 1))).popped <
        64 * (image.columns * image.rows)) :
    Draining run image scan id horizon n (k + 1) := by
  have behind := complete.behind k
  have stored : 64 * ((run.arrivedAt (n + 1 + k)).popped / 64 + 1) ≤
      JpegOutput.written (image.columns * image.rows) .cr
        (run.arrivedAt (n + 1 + k)).arrived := by
    have left := draining.unread
    rw [JpegOutput.written, if_neg (Nat.not_lt.mpr behind)]
    omega
  have step := (phase_next draining.filled pins stored).2 accepted
  have steps := draining.steps
  refine ⟨draining.filled.step pins, unread, ?_, fun m early => ?_⟩
  · rw [← Nat.add_assoc (n + 1), step]
    omega
  · rcases Nat.lt_succ_iff_lt_or_eq.mp early with inside | rfl
    · exact draining.delivered m inside
    · exact pins

/-- At most three MCUs are left when the image is complete. -/
theorem draining_start
    (complete : Complete run image n)
    (follows : ∀ m ≤ n + 1, Following run image scan id horizon m)
    (delivered :
      ∀ m < n + 1,
        JpegOutput.Arrived.Delivers (run.arrivals image scan horizon id)
          (run.arrivedAt m) (run.outputPins m))
    (unread :
      (run.arrivedAt (n + 1)).popped < 64 * (image.columns * image.rows)) :
    Draining run image scan id horizon n 0 := by
  have all := complete.all
  have last := complete.last
  have early := let_in (fun m before => follows m (by omega)) complete.valid
  have read : (run.arrivedAt n).popped ≤ (run.arrivedAt (n + 1)).popped :=
    run.popped_mono n.le_succ
  refine ⟨(follows (n + 1) (Nat.le_refl _)).filled, unread, ?_, delivered⟩
  have turn : JpegOutput.turn .cr = 2 := rfl
  rw [JpegOutput.written, turn] at early
  change _ ≤ JpegOutput.phase (run.arrivedAt (n + 1)) + 195
  rw [JpegOutput.phase, Nat.add_zero]
  split_ifs at early <;> omega

/-- Without a stall the image has been read after 195 cycles. -/
theorem drains
    (complete : Complete run image n)
    (showsScan :
      ∀ n, (run.outputPins n).inportValid = true → Shows run image scan id n)
    (isEof : JpegOutput.typeOf id = BlockType.eof.code)
    (colour : run.frame.imgMode = .ycbcr444)
    (noStall : ∀ j < 195, (run.cycles (n + 1 + j)).outportAccept = true) :
    ∃ later,
      (run.arrivedAt later).popped = 64 * (image.columns * image.rows) ∧
        ∀ m < later,
          JpegOutput.Arrived.Delivers
            (run.arrivals image scan (n + 197) id)
            (run.arrivedAt m) (run.outputPins m) := by
  obtain ⟨follows, delivered⟩ :=
    following showsScan isEof colour (show n + 1 ≤ n + 197 by omega)
      complete.all.le
  by_contra never
  simp only [not_exists, not_and] at never
  have drainingAt (k : Nat) (inside : k ≤ 195) :
      Draining run image scan id (n + 197) n k := by
    induction k with
    | zero =>
        refine draining_start complete follows delivered ?_
        have read := (follows (n + 1) (Nat.le_refl _)).read_le complete.all.le
        exact Nat.lt_of_le_of_ne read fun same => never _ same delivered
    | succ k inductionHypothesis =>
        have draining := inductionHypothesis (by omega)
        have pins := draining.pins complete showsScan isEof colour (by omega)
        have delivers (m : Nat) (before : m < n + 1 + (k + 1)) :
            JpegOutput.Arrived.Delivers
              (run.arrivals image scan (n + 197) id) (run.arrivedAt m)
              (run.outputPins m) := by
          rcases Nat.lt_succ_iff_lt_or_eq.mp before with earlier | rfl
          · exact draining.delivered m earlier
          · exact pins
        have next : (run.arrivedAt (n + 1 + (k + 1))).popped ≤
            (run.arrivedAt (n + 1 + k)).popped + 1 :=
          run.popped_next_le (n + 1 + k)
        have unread := draining.unread
        exact draining.next complete pins (noStall k (by omega))
          (Nat.lt_of_le_of_ne (by omega) fun same => never _ same delivers)
  have last := drainingAt 195 (Nat.le_refl _)
  have unread := last.unread
  have steps := last.steps
  have reached := JpegOutput.phase_le (run.arrivedAt (n + 1 + 195))
  omega

/-- A pixel leaves when the receiver accepts it. -/
theorem pixels_pass
    {n : Nat}
    (accepted : (run.outputPins n).outportAccept = true) :
    run.pixelsAt (n + 1) =
      run.pixelsAt n ++ JpegOutput.shownPixel (run.arrivedAt n).output := by
  rw [JoinedRun.pixelsAt, JpegOutput.pixelsAt,
    JpegOutput.Arrived.passedPixels, accepted]
  rfl

theorem pixels_wait
    {n : Nat}
    (stalled : (run.outputPins n).outportAccept = false) :
    run.pixelsAt (n + 1) = run.pixelsAt n := by
  rw [JoinedRun.pixelsAt, JpegOutput.pixelsAt,
    JpegOutput.Arrived.passedPixels, stalled]
  exact List.append_nil _

/-- The pixel that is shown is accepted at last. -/
theorem shown_passes
    (fairReceiver : ∀ n, ∃ wait, (run.cycles (n + wait)).outportAccept = true)
    (n : Nat) :
    ∃ later,
      run.pixelsAt later =
        run.pixelsAt n ++ JpegOutput.shownPixel (run.arrivedAt n).output := by
  cases valid : (run.arrivedAt n).output.validQ with
  | false => exact ⟨n, by simp [JpegOutput.shownPixel, valid]⟩
  | true =>
      obtain ⟨wait, accepted⟩ := fairReceiver n
      induction wait generalizing n with
      | zero => exact ⟨n + 1, pixels_pass accepted⟩
      | succ wait inductionHypothesis =>
          cases now : (run.outputPins n).outportAccept with
          | true => exact ⟨n + 1, pixels_pass now⟩
          | false =>
              have full : JpegOutput.outputSpace (run.arrivedAt n).output
                  (run.outputPins n) = false := by
                rw [JpegOutput.outputSpace, valid, now]
                rfl
              have noReset : (run.outputPins n).rst = false := run.noReset n
              have kept : JpegOutput.shownPixel
                  (run.arrivedAt (n + 1)).output =
                    JpegOutput.shownPixel (run.arrivedAt n).output := by
                simp [JoinedRun.arrivedAt, JpegOutput.Arrived.step,
                  JpegOutput.step, JpegOutput.shownPixel, full, noReset]
              have still : (run.arrivedAt (n + 1)).output.validQ = true := by
                simp [JoinedRun.arrivedAt, JpegOutput.Arrived.step,
                  JpegOutput.step, full, noReset, valid]
              obtain ⟨later, passes⟩ := inductionHypothesis (n + 1) still
                (by rwa [Nat.add_right_comm, Nat.add_assoc])
              refine ⟨later, passes.trans ?_⟩
              rw [kept, pixels_wait now]

end Behind

/--
From the bits of a 4:4:4 image to all of its pixels: when the source and the
receiver are not blocked for ever, and the receiver does not stall in the 195
cycles behind the last sample of the image, every pixel of the image leaves, in
its place and none of them twice.  A stall in these cycles may lose pixels,
since `jpeg_output` does not hold back the blocks that follow the image.
-/
theorem pixels_leave
    (run : JoinedRun)
    (image : Image)
    (scan : EntropyCode.Scan)
    (padding : List Bool)
    (carries : CarriesColour run image scan padding)
    (fairSource :
      ∀ n, ∃ wait,
        supplied (run.core.stateAt (n + wait)).decoder
          (run.core.decoderCycle (n + wait)) = true)
    (fairReceiver : ∀ n, ∃ wait, (run.cycles (n + wait)).outportAccept = true)
    (noStall :
      ∀ n, 64 * image.blockCount ≤ (run.core.samplesAt n).length →
        (run.core.samplesAt (n - 195)).length < 64 * image.blockCount →
          (run.cycles n).outportAccept = true) :
    ∃ n, run.pixelsAt n = run.pixels image scan := by
  classical
  obtain ⟨id, isEof, showsScan⟩ := carries.shows
  have blocks := carries.length_blocks
  have positive := image.blockCount_pos
  rw [carries.carriesImage.whole] at blocks
  have mode : run.frame.imgMode = .ycbcr444 :=
    carries.carriesImage.modeKept.trans carries.colour
  have arrives := image_arrives carries fairReceiver fairSource
  obtain ⟨n, complete⟩ : ∃ n, Complete run image n := by
    have isFirst := Nat.find_spec arrives
    cases first : Nat.find arrives with
    | zero =>
        rw [first] at isFirst
        change 0 = _ at isFirst
        omega
    | succ n =>
        have before := Nat.find_min arrives (show n < _ by omega)
        rw [first] at isFirst
        have next := run.arrived_next_le n
        have kept : (run.arrivedAt n).arrived ≤
            (run.arrivedAt (n + 1)).arrived :=
          run.arrived_mono n.le_succ
        exact ⟨n, isFirst, by omega⟩
  have all := complete.all
  have last := complete.last
  obtain ⟨later, read, delivered⟩ :=
    drains complete showsScan isEof mode fun j inside => by
      have after : (run.arrivedAt (n + 1)).arrived ≤
          (run.arrivedAt (n + 1 + j)).arrived :=
        run.arrived_mono (Nat.le_add_right _ _)
      have before : (run.arrivedAt (n + 1 + j - 195)).arrived ≤
          (run.arrivedAt n).arrived :=
        run.arrived_mono (by omega)
      refine noStall (n + 1 + j) ?_ ?_
      · rw [← run.arrivedAt_arrived]
        omega
      · rw [← run.arrivedAt_arrived]
        omega
  have passed := JpegOutput.pixels_run (s := run.arrivedAt)
    (i := run.outputPins) (fun _ => rfl)
    (JpegOutput.filled_fresh run.fresh _) run.shownNothing rfl delivered
  rw [read, pixels_read carries.colour (Nat.le_refl _),
    List.take_of_length_le (by simp [JoinedRun.pixels])] at passed
  obtain ⟨time, whole⟩ := shown_passes fairReceiver later
  exact ⟨time, whole.trans passed⟩

/-- All 128 pixels of the colour image leave. -/
theorem pixels_leave_colour :
    ∃ n, colourRun.pixelsAt n = colourRun.pixels colourImage colourScan :=
  pixels_leave colourRun colourImage colourScan (List.replicate 6 false)
    colour_carries colour_supplied (fun _ => ⟨0, rfl⟩) fun _ _ _ => rfl

end CoreJpeg.JpegCore
