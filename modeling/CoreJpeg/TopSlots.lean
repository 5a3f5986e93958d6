import CoreJpeg.TopSystem

namespace CoreJpeg.JpegTop

open Clocked

/-!
# The registers of a slot and the offered descriptors

Each register of a slot is written by a few of the lifecycle's assignments;
one equation per register says which of them takes precedence.  From these
equations follow the facts every later result starts from: a descriptor is
only popped for an idle slot, an offered descriptor belongs to a running slot
and still shows that slot's address, and a service has a job at the engine.
-/

section Registers

variable {config : Config} {s : State config} {i : Input config}
variable {decoder : Decoder config}

theorem eq_of_readDoneFor (done : readDoneFor s i decoder = true) :
    decoder = s.readServiceDecoder := by
  simp only [readDoneFor, Bool.and_eq_true, beq_iff_eq] at done
  exact done.2

theorem eq_of_writeDoneFor (done : writeDoneFor s i decoder = true) :
    decoder = s.writeServiceDecoder := by
  simp only [writeDoneFor, Bool.and_eq_true, beq_iff_eq] at done
  exact done.2

theorem slotNext_slotState :
    (slotNext s i decoder).slotState =
      if assignsTo s decoder then .run else slotStateLoop s decoder := by
  simp only [slotNext, slotLoop]
  split_ifs <;> cases (i.slots decoder).coreDims <;>
    simp [slotAssign, slotReadDone, slotWriteDone]

theorem slotNext_coreResetPulse :
    (slotNext s i decoder).coreResetPulse =
      ((s.slots decoder).slotState == .resetPulse) := by
  simp only [slotNext, slotLoop]
  split_ifs <;> cases (i.slots decoder).coreDims <;>
    simp [slotAssign, slotReadDone, slotWriteDone]

theorem slotNext_taskSrcAddr :
    (slotNext s i decoder).taskSrcAddr =
      if readDoneFor s i decoder then
        (s.slots decoder).taskSrcAddr + s.dmaReadDescLen.setWidth _
      else if assignsTo s decoder then (descFifoHead s).srcAddr.setWidth _
      else (s.slots decoder).taskSrcAddr := by
  simp only [slotNext, slotLoop]
  split_ifs <;> cases (i.slots decoder).coreDims <;>
    first
    | simp [slotAssign, slotReadDone, slotWriteDone,
        eq_of_readDoneFor (by assumption)]
    | simp [slotAssign, slotWriteDone]

theorem slotNext_taskSrcLen :
    (slotNext s i decoder).taskSrcLen =
      if readDoneFor s i decoder then
        (s.slots decoder).taskSrcLen - s.dmaReadDescLen.setWidth _
      else if assignsTo s decoder then (descFifoHead s).srcLen.setWidth _
      else (s.slots decoder).taskSrcLen := by
  simp only [slotNext, slotLoop]
  split_ifs <;> cases (i.slots decoder).coreDims <;>
    first
    | simp [slotAssign, slotReadDone, slotWriteDone,
        eq_of_readDoneFor (by assumption)]
    | simp [slotAssign, slotWriteDone]

theorem slotNext_taskDstAddr :
    (slotNext s i decoder).taskDstAddr =
      if writeDoneFor s i decoder then
        (s.slots decoder).taskDstAddr + s.dmaWriteDescLen.setWidth _
      else if assignsTo s decoder then (descFifoHead s).dstAddr.setWidth _
      else (s.slots decoder).taskDstAddr := by
  simp only [slotNext, slotLoop]
  split_ifs <;> cases (i.slots decoder).coreDims <;>
    first
    | simp [slotAssign, slotReadDone, slotWriteDone,
        eq_of_writeDoneFor (by assumption)]
    | simp [slotAssign, slotReadDone]

/-- Reported dimensions reload the counter unless another write is later. -/
theorem slotNext_writeBytesRemaining :
    (slotNext s i decoder).writeBytesRemaining =
      if writeDoneFor s i decoder then
        (s.slots decoder).writeBytesRemaining -
          s.dmaWriteDescLen.setWidth _
      else if assignsTo s decoder then 0
      else ((i.slots decoder).coreDims.map fun dims =>
        imageBytes dims.1 dims.2).getD
          (s.slots decoder).writeBytesRemaining := by
  simp only [slotNext, slotLoop]
  split_ifs <;> cases (i.slots decoder).coreDims <;>
    first
    | simp [slotAssign, slotReadDone, slotWriteDone,
        eq_of_writeDoneFor (by assumption)]
    | simp [slotAssign, slotReadDone]

theorem slotNext_inputFifoOccupiedLen :
    (slotNext s i decoder).inputFifoOccupiedLen =
      if assignsTo s decoder then 0
      else (s.slots decoder).inputFifoOccupiedLen +
        wordBytes _ (inputFifoPush s i decoder) -
        wordBytes _ (i.slots decoder).coreInPop := by
  simp only [slotNext, slotLoop]
  split_ifs <;> cases (i.slots decoder).coreDims <;>
    simp [slotAssign, slotReadDone, slotWriteDone]

theorem slotNext_outputFifoOccupiedLen :
    (slotNext s i decoder).outputFifoOccupiedLen =
      if assignsTo s decoder then 0
      else (s.slots decoder).outputFifoOccupiedLen +
        wordBytes _ (i.slots decoder).coreOutPush -
        wordBytes _ (outputFifoPop s i decoder) := by
  simp only [slotNext, slotLoop]
  split_ifs <;> cases (i.slots decoder).coreDims <;>
    simp [slotAssign, slotReadDone, slotWriteDone]

theorem slotNext_haveDimensions :
    (slotNext s i decoder).haveDimensions =
      if assignsTo s decoder then false
      else ((s.slots decoder).haveDimensions ||
        (i.slots decoder).coreDims.isSome) := by
  simp only [slotNext, slotLoop]
  split_ifs <;> cases (i.slots decoder).coreDims <;>
    simp_all [slotAssign, slotReadDone, slotWriteDone]

theorem slotNext_image :
    ((slotNext s i decoder).imgWidth, (slotNext s i decoder).imgHeight) =
      if assignsTo s decoder then (0, 0)
      else (i.slots decoder).coreDims.getD
        ((s.slots decoder).imgWidth, (s.slots decoder).imgHeight) := by
  simp only [slotNext, slotLoop]
  split_ifs <;> cases (i.slots decoder).coreDims <;>
    simp_all [slotAssign, slotReadDone, slotWriteDone]

/-- A running slot keeps running until its task is over. -/
theorem slotStateLoop_run
    (running : (s.slots decoder).slotState = .run)
    (notDone : taskDone s decoder = false) :
    slotStateLoop s decoder = .run := by
  simp [slotStateLoop, notDone, running]

/-- An idle slot waits for a descriptor. -/
theorem slotStateLoop_idle
    (waiting : (s.slots decoder).slotState = .idle) :
    slotStateLoop s decoder = .idle := by
  simp [slotStateLoop, taskDone, waiting]

end Registers

/-! ## Slots and their resets -/

/-- Descriptors are popped for idle slots; cores are reset between tasks. -/
structure SlotsSound {config : Config} (s : State config) : Prop where
  assignIdle :
    ∀ decoder, assignsTo s decoder = true →
      (s.slots decoder).slotState = .idle
  resetHold :
    ∀ decoder, (s.slots decoder).coreResetPulse = true →
      (s.slots decoder).slotState = .resetHold

section Sound

variable {config : Config} {s : State config} {i : Input config}

theorem slotsSound_reset (descAssign : Option (Decoder config)) :
    SlotsSound (.reset descAssign) where
  assignIdle := fun _ _ => rfl
  resetHold := by simp [State.reset, Slot.reset]

/-- Outside reset every slot loads its next registers. -/
theorem step_slots
    (running : (i.rst || i.mmioResetPulse) = false)
    (decoder : Decoder config) :
    (step s i).slots decoder = slotNext s i decoder := by
  simp [step, running]

/-- A descriptor picked in this cycle is popped for an idle slot. -/
theorem descAssignNext_idle
    {decoder : Decoder config}
    (picked : descAssignNext s = some decoder) :
    s.descAssignValid = false ∧
      (s.slots decoder).slotState = .idle := by
  unfold descAssignNext at picked
  split at picked
  · simp at picked
  · rename_i free
    simp only [Bool.or_eq_true, not_or, Bool.not_eq_true] at free
    exact ⟨free.1, by simpa using List.find?_some picked⟩

/-- One cycle keeps the slots sound. -/
theorem SlotsSound.step
    (sound : SlotsSound s)
    (i : Input config) :
    SlotsSound (JpegTop.step s i) := by
  cases running : i.rst || i.mmioResetPulse with
  | true =>
      simpa [JpegTop.step, running] using slotsSound_reset (descAssignNext s)
  | false =>
      constructor
      · intro decoder assigned
        have picked : descAssignNext s = some decoder := by
          simp only [assignsTo, descFifoPop, JpegTop.step, running,
            Bool.false_eq_true, if_false, Bool.and_eq_true,
            beq_iff_eq] at assigned
          cases next : descAssignNext s with
          | none => simp [next] at assigned
          | some picked => simp [next, assigned.2]
        have idle := descAssignNext_idle picked
        rw [step_slots running, slotNext_slotState]
        simp [assignsTo, descFifoPop, idle.1, slotStateLoop_idle idle.2]
      · intro decoder pulse
        rw [step_slots running, slotNext_coreResetPulse, beq_iff_eq] at pulse
        have notAssigned : assignsTo s decoder = false := by
          by_contra assigned
          have idle := sound.assignIdle decoder (by simpa using assigned)
          simp [idle] at pulse
        rw [step_slots running, slotNext_slotState]
        simp [notAssigned, slotStateLoop, taskDone, pulse]

/-- A running slot is not assigned a descriptor. -/
theorem SlotsSound.notAssigned
    (sound : SlotsSound s)
    {decoder : Decoder config}
    (running : (s.slots decoder).slotState = .run) :
    assignsTo s decoder = false := by
  by_contra assigned
  have idle := sound.assignIdle decoder (by simpa using assigned)
  simp [idle] at running

/-- Outside reset a core is only reset while its slot is held. -/
theorem SlotsSound.coreRst_eq_false
    (sound : SlotsSound s)
    (outside : (i.rst || i.mmioResetPulse) = false)
    {decoder : Decoder config}
    (free : (s.slots decoder).slotState ≠ .resetHold) :
    coreRst s i decoder = false := by
  rw [coreRst, outside, Bool.false_or]
  by_contra pulse
  exact free (sound.resetHold decoder (by simpa using pulse))

/-- A task with bytes left or a transfer in service is not over. -/
theorem taskDone_eq_false
    {decoder : Decoder config}
    (busy :
      (s.slots decoder).taskSrcLen ≠ 0 ∨
        (s.slots decoder).writeBytesRemaining ≠ 0 ∨
        s.readServiceActive = true ∨ s.writeServiceActive = true) :
    taskDone s decoder = false := by
  rcases busy with source | image | reading | writing
  · simp only [taskDone, beq_eq_false_iff_ne.mpr source, Bool.and_false,
      Bool.false_and]
  · simp only [taskDone, beq_eq_false_iff_ne.mpr image, Bool.and_false,
      Bool.false_and]
  · simp [taskDone, reading]
  · simp [taskDone, writing]

/-- A running slot whose task is not over runs on. -/
theorem SlotsSound.runsOn
    (sound : SlotsSound s)
    (outside : (i.rst || i.mmioResetPulse) = false)
    {decoder : Decoder config}
    (running : (s.slots decoder).slotState = .run)
    (notDone : taskDone s decoder = false) :
    ((JpegTop.step s i).slots decoder).slotState = .run := by
  rw [step_slots outside, slotNext_slotState, sound.notAssigned running,
    slotStateLoop_run running notDone]
  simp

/-- Read data is only taken while a read is served. -/
theorem dmaReadDataFire_active
    {word : Keep config × Bool}
    (taken : dmaReadDataFire s i = some word) :
    s.readServiceActive = true ∧ i.dmaReadData = some word := by
  unfold dmaReadDataFire at taken
  split at taken
  · rename_i served
    exact ⟨(Bool.and_eq_true_iff.mp served).1, taken⟩
  · simp at taken

theorem dmaReadDataLast_active
    (last : dmaReadDataLast s i = true) :
    s.readServiceActive = true := by
  cases taken : dmaReadDataFire s i with
  | none => simp [dmaReadDataLast, taken] at last
  | some word => exact (dmaReadDataFire_active taken).1

/-- Write data is only taken from the served output FIFO. -/
theorem dmaWriteDataFire_active
    {keep : Keep config}
    (taken : dmaWriteDataFire s i = some keep) :
    s.writeServiceActive = true ∧ s.writeChunkDataDone = false ∧
      (i.slots s.writeServiceDecoder).outputFifo = some keep := by
  unfold dmaWriteDataFire at taken
  split at taken
  · rename_i served
    simp only [Bool.and_eq_true, Bool.not_eq_true'] at served
    exact ⟨served.1.1, served.1.2, taken⟩
  · simp at taken

/-- A read is chosen for a running slot with source bytes left. -/
theorem dmaReadChoice_slot
    {decoder : Decoder config}
    (chosen : dmaReadChoice s = some decoder) :
    s.readServiceActive = false ∧
      (s.slots decoder).slotState = .run ∧
      (s.slots decoder).taskSrcLen ≠ 0 := by
  unfold dmaReadChoice at chosen
  split at chosen
  · simp at chosen
  · rename_i idle
    have issues := List.find?_some chosen
    simp only [canIssueRead, Bool.and_eq_true, beq_iff_eq,
      bne_iff_ne] at issues
    exact ⟨by simpa using idle, issues.1.1, issues.1.2⟩

/-- A write is chosen for a running slot with known dimensions. -/
theorem dmaWriteChoice_slot
    {decoder : Decoder config}
    (chosen : dmaWriteChoice s = some decoder) :
    s.writeServiceActive = false ∧
      (s.slots decoder).slotState = .run ∧
      (s.slots decoder).haveDimensions = true ∧
      (s.slots decoder).writeBytesRemaining ≠ 0 := by
  unfold dmaWriteChoice at chosen
  split at chosen
  · simp at chosen
  · rename_i idle
    have issues := List.find?_some chosen
    simp only [canIssueWrite, Bool.and_eq_true, beq_iff_eq,
      bne_iff_ne] at issues
    exact ⟨by simpa using idle, issues.1.1.1, issues.1.1.2, issues.1.2⟩

/-- The read length never exceeds the source bytes left. -/
theorem readLen_le (slot : Slot config) :
    (readLen slot).toNat ≤ slot.taskSrcLen.toNat := by
  unfold readLen
  split
  · rename_i small
    rw [BitVec.toNat_setWidth]
    exact Nat.le_trans (Nat.mod_le _ _) (Nat.le_of_lt small)
  · rw [BitVec.toNat_setWidth]
    exact Nat.mod_le _ _

/-- The write length never exceeds the output bytes either. -/
theorem writeLen_le_output (slot : Slot config) :
    (writeLen slot).toNat ≤ slot.outputFifoOccupiedLen.toNat := by
  unfold writeLen
  split
  · rename_i small
    rw [BitVec.toNat_setWidth]
    exact Nat.le_trans (Nat.mod_le _ _) (Nat.le_of_lt small)
  · rw [BitVec.toNat_setWidth]
    exact Nat.mod_le _ _

/-- The write length never exceeds the image bytes left. -/
theorem writeLen_le (slot : Slot config) :
    (writeLen slot).toNat ≤ slot.writeBytesRemaining.toNat := by
  unfold writeLen
  split
  · rw [BitVec.toNat_setWidth]
    exact Nat.mod_le _ _
  · rename_i large
    rw [BitVec.toNat_setWidth]
    exact Nat.le_trans (Nat.mod_le _ _) (Nat.not_lt.mp large)

end Sound

end CoreJpeg.JpegTop
