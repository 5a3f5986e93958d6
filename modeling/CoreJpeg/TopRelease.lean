import CoreJpeg.TopCompletion

namespace CoreJpeg.JpegTop

open Clocked

/-!
# The source buffer after the completion

The completion looks at written bytes only.  When the accepted reads cover all
source bytes a slot has left in the cycle its completion is pushed, no further
read descriptor is accepted for it before it is assigned again.
-/

section Property

variable {config : Config}

namespace System

/-- The source bytes of a slot that an accepted read will take off. -/
def covered (sys : System config) (decoder : Decoder config) : BitVec 32 :=
  if sys.top.readServiceActive && decoder == sys.top.readServiceDecoder then
    sys.top.dmaReadDescLen.setWidth 32
  else 0

/-- The same, with a read that is accepted in this cycle. -/
def coveredNow (sys : System config) (i : Input config)
    (decoder : Decoder config) : BitVec 32 :=
  if dmaReadDescFire sys.top i && decoder == sys.top.dmaReadDecoder then
    (dmaReadDescLenNext sys.top).setWidth 32
  else sys.covered decoder

/-- An image ends when accepted reads cover the source bytes left. -/
def SourceSpent (sys : System config) (i : Input config) : Prop :=
  writeStatusIsFinal sys.top i = true →
    (sys.top.slots sys.top.writeServiceDecoder).taskSrcLen =
      sys.coveredNow i sys.top.writeServiceDecoder

/-- A read is accepted for a task that is not completed. -/
def ReadsOpenTask (sys : System config) (i : Input config) : Prop :=
  dmaReadDescFire sys.top i = true →
    (sys.tasks sys.top.dmaReadDecoder).completions = []

instance (sys : System config) (i : Input config) :
    Decidable (sys.SourceSpent i) := by
  unfold SourceSpent
  infer_instance

instance (sys : System config) (i : Input config) :
    Decidable (sys.ReadsOpenTask i) := by
  unfold ReadsOpenTask
  infer_instance

end System

/-- Of a completed task no source byte is left to be read. -/
structure SourceReleased (sys : System config) : Prop
    extends ReadSound sys where
  released :
    ∀ decoder, (sys.tasks decoder).completions ≠ [] →
      (sys.top.slots decoder).taskSrcLen = sys.covered decoder

end Property

section Cycle

variable {config : Config} {sys : System config} {i : Input config}

/-- A read is accepted for a slot with source bytes no read covers. -/
theorem SourceReleased.readsOpenTask
    (known : SourceReleased sys)
    (promised : sys.ReadPromised i) :
    sys.ReadsOpenTask i := by
  intro fire
  by_contra completed
  have quiet := known.toReadSound.fire promised fire
  have left :=
    (known.offered (Bool.and_eq_true_iff.mp fire).1).2.1
  have spent := known.released _ completed
  rw [System.covered, quiet.2, Bool.false_and] at spent
  exact left (by simpa using spent)

/-- Reads that cover a slot's source bytes still do after a cycle. -/
theorem ReadSound.covered_next
    (sound : ReadSound sys)
    (promised : sys.ReadPromised i)
    (outside : (i.rst || i.mmioResetPulse) = false)
    {decoder : Decoder config}
    (notAssigned : assignsTo sys.top decoder = false)
    (spent :
      (sys.top.slots decoder).taskSrcLen = sys.coveredNow i decoder) :
    ((JpegTop.step sys.top i).slots decoder).taskSrcLen =
      (sys.step i).covered decoder := by
  have top : (sys.step i).top = JpegTop.step sys.top i := by
    simp [System.step, outside]
  rw [step_slots outside, slotNext_taskSrcLen, notAssigned, spent,
    System.covered, top]
  cases fire : dmaReadDescFire sys.top i with
  | true =>
      -- A read is accepted while none is in service.
      have quiet := (sound.fire promised fire).2
      have notLast : dmaReadDataLast sys.top i = false := by
        by_contra last
        have active := dmaReadDataLast_active (by simpa using last)
        simp [quiet] at active
      by_cases mine : decoder = sys.top.dmaReadDecoder
      · simp [System.coveredNow, fire, mine, readDoneFor, notLast,
          JpegTop.step, outside]
      · simp [System.coveredNow, System.covered, fire, mine, readDoneFor,
          notLast, quiet, JpegTop.step, outside]
  | false =>
      cases served : sys.top.readServiceActive &&
          decoder == sys.top.readServiceDecoder with
      | true =>
          obtain ⟨active, mine⟩ := Bool.and_eq_true_iff.mp served
          have mine := beq_iff_eq.mp mine
          have sameLen :
              dmaReadDescLenNext sys.top = sys.top.dmaReadDescLen := by
            simp [dmaReadDescLenNext, dmaReadChoice, active]
          cases last : dmaReadDataLast sys.top i with
          | true =>
              simp [System.coveredNow, System.covered, fire, mine,
                readDoneFor, last, JpegTop.step, outside, active]
          | false =>
              simp [System.coveredNow, System.covered, fire, mine,
                readDoneFor, last, JpegTop.step, outside, active, sameLen]
      | false =>
          have notDone : readDoneFor sys.top i decoder = false := by
            by_contra done
            have done : readDoneFor sys.top i decoder = true := by
              simpa using done
            have active :=
              dmaReadDataLast_active (Bool.and_eq_true_iff.mp done).1
            simp [active, eq_of_readDoneFor done] at served
          have stillNot :
              ((JpegTop.step sys.top i).readServiceActive &&
                decoder == (JpegTop.step sys.top i).readServiceDecoder) =
                  false := by
            simp only [JpegTop.step, outside, fire, Bool.false_eq_true,
              if_false]
            split
            · simp
            · exact served
          rw [stillNot]
          simp [System.coveredNow, System.covered, fire, served, notDone]

/-- After reset no task is completed. -/
theorem sourceReleased_reset
    (descAssign : Option (Decoder config)) :
    SourceReleased
      { System.start config with top := .reset descAssign } where
  toReadSound := readSound_reset descAssign
  released := by simp [System.start, TaskLog.assigned]

/-- One cycle keeps completed tasks without source bytes to read. -/
theorem SourceReleased.step
    (known : SourceReleased sys)
    (promised : sys.ReadPromised i)
    (spent : sys.SourceSpent i) :
    SourceReleased (sys.step i) := by
  cases outside : i.rst || i.mmioResetPulse with
  | true =>
      simpa [System.step, JpegTop.step, outside] using
        sourceReleased_reset (descAssignNext sys.top)
  | false =>
      refine ⟨known.toReadSound.step i, ?_⟩
      intro decoder completed
      have top : (sys.step i).top = JpegTop.step sys.top i := by
        simp [System.step, outside]
      have log : (sys.step i).tasks decoder = sys.taskNext i decoder := by
        simp [System.step, outside]
      rw [log, System.taskNext] at completed
      cases assigned : assignsTo sys.top decoder with
      | true => simp [assigned, TaskLog.assigned] at completed
      | false =>
          simp only [assigned, Bool.false_eq_true, if_false, ne_eq,
            List.append_eq_nil_iff, not_and_or] at completed
          rw [top]
          refine known.covered_next promised outside assigned ?_
          rcases completed with before | now
          · -- No read is accepted for a task that was completed before.
            have closed := known.readsOpenTask promised
            have notMine : (dmaReadDescFire sys.top i &&
                decoder == sys.top.dmaReadDecoder) = false := by
              by_contra accepted
              simp only [Bool.not_eq_false, Bool.and_eq_true,
                beq_iff_eq] at accepted
              obtain ⟨fire, rfl⟩ := accepted
              exact before (closed fire)
            rw [System.coveredNow, notMine, known.released decoder before]
            simp
          · unfold System.completion at now
            split at now
            · rename_i served
              have served := beq_iff_eq.mp served
              subst served
              refine spent ?_
              unfold cplFifoPush at now
              split at now
              · assumption
              · exact absurd rfl now
            · exact absurd rfl now

end Cycle

/--
In every run in which each image ends when accepted reads cover the source
bytes its slot has left, no read descriptor is accepted for a slot from its
completion to its next assignment.
-/
theorem reads_end_at_completion
    (config : Config)
    (cycles : List (Input config))
    (promised :
      Along System.step System.ReadPromised (System.start config) cycles)
    (spent :
      Along System.step System.SourceSpent (System.start config) cycles) :
    Along System.step System.ReadsOpenTask (System.start config) cycles :=
  along_invariant
    (fun _ _ known now => SourceReleased.step known now.1 now.2)
    (fun _ _ known now => known.readsOpenTask now.1)
    (sourceReleased_reset none) (promised.both spent)

/-- The four source bytes of a one-pixel image are read before it ends. -/
theorem reads_end_at_completion_word :
    Along System.step System.ReadsOpenTask (System.start smallConfig)
      (assignCycles smallConfig 4 ++
        [.quiet smallConfig, .quiet smallConfig,
          readWord smallConfig true] ++
        pixelCycles smallConfig) :=
  reads_end_at_completion smallConfig _ (by decide +kernel)
    (by decide +kernel)

/--
Sixteen source bytes do not fit into the input FIFO at once.  The image is
completed after the first eight were read, and when the core takes a word the
other bytes are read.
-/
theorem trailing_source_is_read :
    ¬ ∀ config cycles,
      Along System.step System.ReadPromised (System.start config) cycles →
      Along System.step System.WritePromised (System.start config) cycles →
      Along System.step System.ReadsOpenTask (System.start config)
        cycles := by
  intro claimed
  exact absurd
    (claimed smallConfig
      (assignCycles smallConfig 16 ++
        [.quiet smallConfig, .quiet smallConfig,
          readWord smallConfig false, readWord smallConfig true] ++
        pixelCycles smallConfig ++
        [popWord smallConfig, .quiet smallConfig, .quiet smallConfig])
      (by decide +kernel) (by decide +kernel))
    (by decide +kernel)

end CoreJpeg.JpegTop
