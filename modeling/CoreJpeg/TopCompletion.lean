import CoreJpeg.TopWrite

namespace CoreJpeg.JpegTop

open Clocked

/-!
# One completion per task, inside its image

The image bytes left of a slot are loaded whenever its core reports pixel
(0, 0), although the destination keeps advancing and the slot keeps running
while source bytes are left.  When the core reports one image per task, and no
write is booked with more bytes than its image has left, a task is completed
at most once and every write it was given lies inside the completed image.
-/

section Property

variable {config : Config}

/-- A write descriptor that lies inside a range of bytes from an address on. -/
def InsideRange
    (base : BitVec config.addrWidth) (bytes : Nat)
    (write : BitVec config.addrWidth × BitVec config.lenWidth) : Prop :=
  ∃ offset, write.1 = base + BitVec.ofNat _ offset ∧
    offset + write.2.toNat ≤ bytes

namespace System

/--
A task was completed at most once, and every write accepted for it lies inside
the three bytes per pixel of the completed image.
-/
def CompletedOnce (sys : System config) : Prop :=
  ∀ decoder,
    (sys.tasks decoder).completions.length ≤ 1 ∧
      ∀ record ∈ (sys.tasks decoder).completions,
        ∀ write ∈ (sys.tasks decoder).writes,
          InsideRange
            ((sys.tasks decoder).descriptor.dstAddr.setWidth _)
            (3 * record.imgWidth.toNat * record.imgHeight.toNat) write

/--
A core reports dimensions at most once per assignment, and the length chosen
again when a write is accepted is within the image bytes its slot has left.
-/
def SingleImage (sys : System config) (i : Input config) : Prop :=
  (∀ decoder, (i.slots decoder).coreDims.isSome = true →
    (sys.top.slots decoder).haveDimensions = false) ∧
  (dmaWriteDescFire sys.top i = true →
    (dmaWriteDescLenNext sys.top).toNat ≤
      (sys.top.slots
        sys.top.dmaWriteDescDecoder).writeBytesRemaining.toNat)

instance (sys : System config) (i : Input config) :
    Decidable (sys.SingleImage i) := by
  unfold SingleImage
  infer_instance

end System

end Property

/-! ## The image of a task -/

/-- A slot's image registers and log agree with one image per task. -/
structure ImageKept {config : Config} (sys : System config)
    (decoder : Decoder config) : Prop where
  unknown :
    (sys.top.slots decoder).haveDimensions = false →
      (sys.top.slots decoder).writeBytesRemaining = 0 ∧
        (sys.tasks decoder).writes = [] ∧
        (sys.tasks decoder).completions = [] ∧
        (sys.top.slots decoder).taskDstAddr =
          (sys.tasks decoder).descriptor.dstAddr.setWidth _
  within :
    (sys.top.slots decoder).haveDimensions = true →
      let slot := sys.top.slots decoder
      let bytes := (imageBytes slot.imgWidth slot.imgHeight).toNat
      slot.writeBytesRemaining.toNat ≤ bytes ∧
        slot.taskDstAddr =
          (sys.tasks decoder).descriptor.dstAddr.setWidth _ +
            BitVec.ofNat _ (bytes - slot.writeBytesRemaining.toNat) ∧
        ∀ write ∈ (sys.tasks decoder).writes,
          InsideRange
            ((sys.tasks decoder).descriptor.dstAddr.setWidth _) bytes write
  completed :
    (sys.tasks decoder).completions = [] ∨
      (sys.top.slots decoder).writeBytesRemaining = 0 ∧
        ∃ record, (sys.tasks decoder).completions = [record] ∧
          record.imgWidth = (sys.top.slots decoder).imgWidth ∧
          record.imgHeight = (sys.top.slots decoder).imgHeight

/-- A slot that is written knows its image and has bytes of it left. -/
def Writable {config : Config} (slot : Slot config)
    (length : BitVec config.lenWidth) : Prop :=
  slot.haveDimensions = true ∧ slot.writeBytesRemaining ≠ 0 ∧
    length.toNat ≤ slot.writeBytesRemaining.toNat

/-- Every task has one image, and its writes stay inside. -/
structure CompletionKept {config : Config} (sys : System config) : Prop
    extends WriteSound sys where
  offeredImage :
    sys.top.dmaWriteDescValid = true →
      Writable (sys.top.slots sys.top.dmaWriteDescDecoder)
        sys.top.dmaWriteDescLen
  pendingImage :
    ∀ job ∈ sys.writeJob,
      Writable (sys.top.slots job.decoder) sys.top.dmaWriteDescLen
  tasks : ∀ decoder, ImageKept sys decoder

section Completions

variable {config : Config} {sys : System config} {i : Input config}

/-- The 32-bit image size never exceeds three bytes per pixel. -/
theorem imageBytes_le (width height : BitVec 16) :
    (imageBytes width height).toNat ≤
      3 * width.toNat * height.toNat := by
  have product : (imageBytes width height).toNat =
      width.toNat * height.toNat * 3 % 2 ^ 32 := by
    simp [imageBytes, BitVec.toNat_mul]
  rw [product]
  refine (Nat.mod_le _ _).trans (le_of_eq ?_)
  rw [Nat.mul_comm, Nat.mul_assoc]

/-- A running slot with a known image keeps it in a cycle without status. -/
theorem image_next
    (slots : SlotsSound sys.top)
    (single : sys.SingleImage i)
    (outside : (i.rst || i.mmioResetPulse) = false)
    {decoder : Decoder config}
    (running : (sys.top.slots decoder).slotState = .run)
    (known : (sys.top.slots decoder).haveDimensions = true)
    (noStatus : writeDoneFor sys.top i decoder = false) :
    ((JpegTop.step sys.top i).slots decoder).haveDimensions = true ∧
      ((JpegTop.step sys.top i).slots decoder).writeBytesRemaining =
        (sys.top.slots decoder).writeBytesRemaining := by
  have noDims : (i.slots decoder).coreDims = none := by
    by_contra reported
    have missing := single.1 decoder (Option.isSome_iff_ne_none.mpr reported)
    rw [known] at missing
    exact Bool.noConfusion missing
  rw [step_slots outside, slotNext_haveDimensions,
    slotNext_writeBytesRemaining, slots.notAssigned running, noStatus]
  simp [known, noDims]

/-- An offered write is writable, and so is the accepted one. -/
theorem CompletionKept.writable_next
    (known : CompletionKept sys)
    (promised : sys.WritePromised i)
    (single : sys.SingleImage i)
    (outside : (i.rst || i.mmioResetPulse) = false) :
    ((JpegTop.step sys.top i).dmaWriteDescValid = true →
      Writable
        ((JpegTop.step sys.top i).slots
          (JpegTop.step sys.top i).dmaWriteDescDecoder)
        (JpegTop.step sys.top i).dmaWriteDescLen) ∧
      ∀ job ∈ sys.writeJobNext i,
        Writable ((JpegTop.step sys.top i).slots job.decoder)
          (JpegTop.step sys.top i).dmaWriteDescLen := by
  have lenNext : (JpegTop.step sys.top i).dmaWriteDescLen =
      dmaWriteDescLenNext sys.top := by
    simp [JpegTop.step, outside]
  constructor
  · intro valid
    cases chosen : dmaWriteChoice sys.top with
    | none => simp [JpegTop.step, outside, chosen] at valid
    | some decoder =>
        have choice := dmaWriteChoice_slot chosen
        have noStatus : i.dmaWriteDescStatusValid = false := by
          by_contra status
          obtain ⟨job, pending, _⟩ :=
            known.toWriteSound.status promised (by simpa using status)
          have active := known.active
          simp [choice.1, pending] at active
        have decoderNext :
            (JpegTop.step sys.top i).dmaWriteDescDecoder = decoder := by
          simp [JpegTop.step, outside, chosen]
        have image := image_next known.slots single outside choice.2.1
          choice.2.2.1 (by simp [writeDoneFor, noStatus])
        rw [decoderNext, Writable, image.1, image.2, lenNext]
        refine ⟨rfl, choice.2.2.2, ?_⟩
        simpa [dmaWriteDescLenNext, chosen] using
          writeLen_le (sys.top.slots decoder)
  · intro job pending
    unfold System.writeJobNext at pending
    split at pending
    · simp at pending
    · rename_i noStatus
      have notDone (decoder : Decoder config) :
          writeDoneFor sys.top i decoder = false := by
        simp [writeDoneFor, noStatus]
      split at pending
      · rename_i fire
        simp only [Option.mem_def, Option.some.injEq] at pending
        subst pending
        have valid := (Bool.and_eq_true_iff.mp fire).1
        have offered := known.offered valid
        have writable := known.offeredImage valid
        have image := image_next known.slots single outside offered.1
          writable.1 (notDone _)
        rw [Writable, image.1, image.2, lenNext]
        exact ⟨rfl, writable.2.1, single.2 fire⟩
      · obtain ⟨before, wasPending, rfl⟩ :=
          Option.map_eq_some_iff.mp pending
        have active : sys.top.writeServiceActive = true := by
          rw [known.active, wasPending, Option.isSome_some]
        have sameLen :
            dmaWriteDescLenNext sys.top = sys.top.dmaWriteDescLen := by
          simp [dmaWriteDescLenNext, dmaWriteChoice, active]
        have writable := known.pendingImage before wasPending
        have image := image_next known.slots single outside
          (known.pending before wasPending).2.2 writable.1 (notDone _)
        rw [Writable, image.1, image.2, lenNext, sameLen]
        exact ⟨rfl, writable.2⟩

/-- Without a status a slot pushes no completion. -/
theorem completion_none
    {decoder : Decoder config}
    (notDone : writeDoneFor sys.top i decoder = false) :
    sys.completion i decoder = [] := by
  unfold System.completion
  split
  · rename_i served
    have noStatus : i.dmaWriteDescStatusValid = false := by
      simpa [writeDoneFor, served] using notDone
    simp [cplFifoPush, writeStatusIsFinal, noStatus]
  · rfl

/-- A slot whose image is unknown is neither written nor completed. -/
theorem CompletionKept.quiet
    (known : CompletionKept sys)
    (promised : sys.WritePromised i)
    {decoder : Decoder config}
    (unknown : (sys.top.slots decoder).haveDimensions = false) :
    sys.acceptedWrite i decoder = [] ∧ sys.completion i decoder = [] ∧
      writeDoneFor sys.top i decoder = false := by
  have other : ∀ job ∈ sys.writeJob, job.decoder ≠ decoder := by
    rintro job pending rfl
    simp [(known.pendingImage job pending).1] at unknown
  have notDone := (known.toWriteSound.other promised other).2
  refine ⟨?_, ?_, notDone⟩
  · unfold System.acceptedWrite
    split
    · rename_i accepted
      obtain ⟨fire, mine⟩ := Bool.and_eq_true_iff.mp accepted
      have writable := known.offeredImage (Bool.and_eq_true_iff.mp fire).1
      rw [← beq_iff_eq.mp mine] at writable
      exact absurd writable.1 (by simp [unknown])
    · rfl
  · exact completion_none notDone

/-- A slot with a known image and no status keeps its registers. -/
theorem image_held
    (single : sys.SingleImage i)
    {decoder : Decoder config}
    (notAssigned : assignsTo sys.top decoder = false)
    (image : (sys.top.slots decoder).haveDimensions = true) :
    (slotNext sys.top i decoder).haveDimensions = true ∧
      (slotNext sys.top i decoder).imgWidth =
        (sys.top.slots decoder).imgWidth ∧
      (slotNext sys.top i decoder).imgHeight =
        (sys.top.slots decoder).imgHeight ∧
      (slotNext sys.top i decoder).writeBytesRemaining =
        (if writeDoneFor sys.top i decoder then
          (sys.top.slots decoder).writeBytesRemaining -
            sys.top.dmaWriteDescLen.setWidth _
        else (sys.top.slots decoder).writeBytesRemaining) := by
  have noDims : (i.slots decoder).coreDims = none := by
    by_contra reported
    have missing := single.1 decoder (Option.isSome_iff_ne_none.mpr reported)
    rw [image] at missing
    exact Bool.noConfusion missing
  have size := @slotNext_image config sys.top i decoder
  simp only [notAssigned, noDims, Bool.false_eq_true, if_false,
    Option.getD_none, Prod.mk.injEq] at size
  refine ⟨?_, size.1, size.2, ?_⟩
  · simp [slotNext_haveDimensions, notAssigned, image]
  · simp [slotNext_writeBytesRemaining, notAssigned, noDims]

/-- A reported write takes its length off the image bytes left. -/
theorem booked_next
    {decoder : Decoder config}
    (fits :
      sys.top.dmaWriteDescLen.toNat ≤
        (sys.top.slots decoder).writeBytesRemaining.toNat)
    (done : writeDoneFor sys.top i decoder = true) :
    (slotNext sys.top i decoder).writeBytesRemaining.toNat =
      (sys.top.slots decoder).writeBytesRemaining.toNat -
        sys.top.dmaWriteDescLen.toNat := by
  have inRange : (sys.top.dmaWriteDescLen.setWidth 32).toNat =
      sys.top.dmaWriteDescLen.toNat := by
    rw [BitVec.toNat_setWidth,
      Nat.mod_eq_of_lt (fits.trans_lt (BitVec.isLt _))]
  have le : sys.top.dmaWriteDescLen.setWidth 32 ≤
      (sys.top.slots decoder).writeBytesRemaining := by
    rw [BitVec.le_def, inRange]
    exact fits
  rw [slotNext_writeBytesRemaining, if_pos done,
    BitVec.toNat_sub_of_le le, inRange]

/-- A completion record shows the image whose last bytes were written. -/
theorem completion_final
    {decoder : Decoder config}
    (held :
      (slotNext sys.top i decoder).imgWidth =
          (sys.top.slots decoder).imgWidth ∧
        (slotNext sys.top i decoder).imgHeight =
          (sys.top.slots decoder).imgHeight ∧
        (slotNext sys.top i decoder).writeBytesRemaining =
          (sys.top.slots decoder).writeBytesRemaining -
            sys.top.dmaWriteDescLen.setWidth _) :
    sys.completion i decoder = [] ∨
      (slotNext sys.top i decoder).writeBytesRemaining = 0 ∧
        ∃ record, sys.completion i decoder = [record] ∧
          record.imgWidth = (slotNext sys.top i decoder).imgWidth ∧
          record.imgHeight = (slotNext sys.top i decoder).imgHeight := by
  unfold System.completion cplFifoPush
  split
  · rename_i served
    have served := beq_iff_eq.mp served
    split
    · rename_i final
      simp only [writeStatusIsFinal, ← served, Bool.and_eq_true,
        beq_iff_eq] at final
      refine .inr ⟨?_, _, rfl, ?_, ?_⟩
      · simp [held.2.2, final.2]
      · rw [held.1, served]
      · rw [held.2.1, served]
    · exact .inl rfl
  · exact .inl rfl

/-- A write accepted at the destination lies inside the image. -/
theorem CompletionKept.write_inside
    (known : CompletionKept sys)
    {decoder : Decoder config}
    {base : BitVec config.addrWidth} {bytes : Nat}
    (left :
      (sys.top.slots decoder).writeBytesRemaining.toNat ≤ bytes)
    (address :
      (sys.top.slots decoder).taskDstAddr = base +
        BitVec.ofNat _
          (bytes - (sys.top.slots decoder).writeBytesRemaining.toNat))
    (inside :
      ∀ write ∈ (sys.tasks decoder).writes, InsideRange base bytes write)
    {write : BitVec config.addrWidth × BitVec config.lenWidth}
    (accepted :
      write ∈ (sys.tasks decoder).writes ++ sys.acceptedWrite i decoder) :
    InsideRange base bytes write := by
  rcases List.mem_append.mp accepted with before | now
  · exact inside write before
  · unfold System.acceptedWrite at now
    split at now
    · rename_i fires
      obtain ⟨fire, mine⟩ := Bool.and_eq_true_iff.mp fires
      have mine := beq_iff_eq.mp mine
      have valid := (Bool.and_eq_true_iff.mp fire).1
      have writable := known.offeredImage valid
      have offered := (known.offered valid).2
      rw [← mine] at writable offered
      rw [List.mem_singleton] at now
      subst now
      refine ⟨_, offered.trans address, ?_⟩
      have fits := writable.2.2
      simp only
      omega
    · simp at now

/-- One cycle keeps the image and log of a slot in agreement. -/
theorem CompletionKept.tasks_next
    (known : CompletionKept sys)
    (promised : sys.WritePromised i)
    (single : sys.SingleImage i)
    (outside : (i.rst || i.mmioResetPulse) = false)
    (decoder : Decoder config) :
    ImageKept (sys.step i) decoder := by
  have top : (sys.step i).top.slots decoder = slotNext sys.top i decoder := by
    simp [System.step, outside, step_slots]
  have log : (sys.step i).tasks decoder = sys.taskNext i decoder := by
    simp [System.step, outside]
  have task := known.tasks decoder
  cases assigned : assignsTo sys.top decoder with
  | true =>
      have idle := known.slots.assignIdle decoder assigned
      have other : ∀ job ∈ sys.writeJob, job.decoder ≠ decoder := by
        rintro job pending rfl
        simp [(known.pending job pending).2.2] at idle
      have notDone := (known.toWriteSound.other promised other).2
      have missing : (slotNext sys.top i decoder).haveDimensions = false := by
        simp [slotNext_haveDimensions, assigned]
      refine ⟨fun _ => ?_, fun image => ?_, .inl ?_⟩
      · simp [top, log, System.taskNext, assigned, TaskLog.assigned,
          slotNext_writeBytesRemaining, slotNext_taskDstAddr, notDone]
      · rw [top, missing] at image
        exact Bool.noConfusion image
      · simp [log, System.taskNext, assigned, TaskLog.assigned]
  | false =>
      simp only [System.taskNext, assigned, Bool.false_eq_true,
        if_false] at log
      cases image : (sys.top.slots decoder).haveDimensions with
      | false =>
          have quiet := known.quiet promised image
          obtain ⟨nothing, noWrites, noCompletions, base⟩ :=
            task.unknown image
          have noEntry : (sys.step i).tasks decoder =
              { sys.tasks decoder with
                source :=
                  (sys.tasks decoder).source ++ sys.delivery i decoder } := by
            simp [log, quiet.1, quiet.2.1]
          have sameDst : (slotNext sys.top i decoder).taskDstAddr =
              (sys.tasks decoder).descriptor.dstAddr.setWidth _ := by
            simp [slotNext_taskDstAddr, quiet.2.2, assigned, base]
          have size := @slotNext_image config sys.top i decoder
          refine ⟨fun missing => ?_, fun present => ?_, .inl ?_⟩ <;>
            simp only [top, noEntry]
          · have noDims : (i.slots decoder).coreDims = none := by
              simpa [top, slotNext_haveDimensions, assigned, image] using
                missing
            refine ⟨?_, noWrites, noCompletions, sameDst⟩
            simp [slotNext_writeBytesRemaining, quiet.2.2, assigned, noDims,
              nothing]
          · cases reported : (i.slots decoder).coreDims with
            | none =>
                simp [top, slotNext_haveDimensions, assigned, image,
                  reported] at present
            | some dims =>
                simp only [assigned, reported, Bool.false_eq_true, if_false,
                  Option.getD_some] at size
                have loaded :
                    (slotNext sys.top i decoder).writeBytesRemaining =
                      imageBytes dims.1 dims.2 := by
                  simp [slotNext_writeBytesRemaining, quiet.2.2, assigned,
                    reported]
                simp [loaded, ← size, sameDst, noWrites]
          · exact noCompletions
      | true =>
          have held := image_held single assigned image
          obtain ⟨left, address, inside⟩ := task.within image
          cases done : writeDoneFor sys.top i decoder with
          | false =>
              have sameDst : (slotNext sys.top i decoder).taskDstAddr =
                  (sys.top.slots decoder).taskDstAddr := by
                simp [slotNext_taskDstAddr, done, assigned]
              rw [done] at held
              refine ⟨fun missing => ?_, fun _ => ?_, ?_⟩
              · rw [top, held.1] at missing
                exact Bool.noConfusion missing
              · simp only [top, log, held, sameDst, Bool.false_eq_true,
                  if_false]
                exact ⟨left, address, fun write accepted =>
                  known.write_inside left address inside accepted⟩
              · simpa [top, log, held, completion_none done] using
                  task.completed
          | true =>
              have status := (Bool.and_eq_true_iff.mp done).1
              obtain ⟨job, pending, _, mine⟩ :=
                known.toWriteSound.status promised status
              have same : job.decoder = decoder :=
                mine.trans (eq_of_writeDoneFor done).symm
              obtain ⟨_, nonzero, fits⟩ := known.pendingImage job pending
              rw [same] at nonzero fits
              have noneReported : (sys.tasks decoder).completions = [] := by
                rcases task.completed with nothing | ⟨zero, _⟩
                · exact nothing
                · exact absurd zero nonzero
              have booked := booked_next fits done
              simp only [done, if_true] at held
              refine ⟨fun missing => ?_, fun _ => ?_, ?_⟩
              · rw [top, held.1] at missing
                exact Bool.noConfusion missing
              · simp only [top, log, held.2.1, held.2.2.1]
                refine ⟨by omega, ?_, fun write accepted =>
                  known.write_inside left address inside accepted⟩
                have extended :
                    sys.top.dmaWriteDescLen.setWidth config.addrWidth =
                      BitVec.ofNat _ sys.top.dmaWriteDescLen.toNat :=
                  (BitVec.ofNat_toNat _ _).symm
                rw [slotNext_taskDstAddr, if_pos done, address,
                  BitVec.add_assoc, extended, ← BitVec.ofNat_add]
                congr 2
                omega
              · simp only [top, log, noneReported, List.nil_append]
                exact completion_final held.2

/-- After reset no image is known. -/
theorem completionKept_reset
    (descAssign : Option (Decoder config)) :
    CompletionKept
      { System.start config with top := .reset descAssign } where
  toWriteSound := writeSound_reset descAssign
  offeredImage := by simp [State.reset]
  pendingImage := by simp [System.start]
  tasks := fun decoder => {
    unknown := by
      simp [State.reset, Slot.reset, System.start, TaskLog.assigned,
        Descriptor.reset]
    within := by simp [State.reset, Slot.reset]
    completed := by simp [System.start, TaskLog.assigned] }

/-- One cycle with a single image keeps the images right. -/
theorem CompletionKept.step
    (known : CompletionKept sys)
    (promised : sys.WritePromised i)
    (single : sys.SingleImage i) :
    CompletionKept (sys.step i) := by
  cases outside : i.rst || i.mmioResetPulse with
  | true =>
      simpa [System.step, JpegTop.step, outside] using
        completionKept_reset (descAssignNext sys.top)
  | false =>
      have notDone (fire : dmaWriteDescFire sys.top i = true) :
          taskDone sys.top sys.top.dmaWriteDescDecoder = false :=
        taskDone_eq_false (.inr (.inl
          (known.offeredImage (Bool.and_eq_true_iff.mp fire).1).2.1))
      have writable := known.writable_next promised single outside
      refine ⟨known.toWriteSound.step promised notDone outside, ?_, ?_,
        known.tasks_next promised single outside⟩
      · simpa [System.step, outside] using writable.1
      · simpa [System.step, outside] using writable.2

/-- Right images complete once, around all writes. -/
theorem CompletionKept.completedOnce
    (known : CompletionKept sys) :
    sys.CompletedOnce := by
  intro decoder
  have task := known.tasks decoder
  rcases task.completed with nothing | ⟨_, record, once, width, height⟩
  · simp [nothing]
  · rw [once]
    refine ⟨le_rfl, fun found member write accepted => ?_⟩
    rw [List.mem_singleton] at member
    subst member
    cases image : (sys.top.slots decoder).haveDimensions with
    | false =>
        simp [(task.unknown image).2.2.1] at once
    | true =>
        obtain ⟨offset, address, inside⟩ :=
          (task.within image).2.2 write accepted
        refine ⟨offset, address, inside.trans ?_⟩
        rw [width, height]
        exact imageBytes_le _ _

end Completions

/--
In every run in which each core reports one image per assignment and no write
is booked with more bytes than its image has left, every task is completed at
most once and its writes lie inside the completed image.
-/
theorem task_completed_once
    (config : Config)
    (cycles : List (Input config))
    (promised :
      Along System.step System.WritePromised (System.start config) cycles)
    (single :
      Along System.step System.SingleImage (System.start config) cycles) :
    (run System.step (System.start config) cycles).CompletedOnce :=
  (run_invariant
    (fun _ _ known allowed =>
      CompletionKept.step known allowed.1 allowed.2)
    (completionKept_reset none) (promised.both single)).completedOnce

/-- The core of decoder 0 reports a 1 x 1 image and outputs its three bytes. -/
def pixelCycle (config : Config) : Input config :=
  .atFirst config { SlotInput.quiet config with
    coreOutPush := some 7
    coreDims := some (1, 1) }

/-- The three bytes of decoder 0 are taken by the DMA engine. -/
def drainPixel (config : Config) : Input config :=
  { Input.atFirst config { SlotInput.quiet config with
      outputFifo := some 7 } with
    dmaWriteDescReady := false }

/-- One pixel is reported, written and completed. -/
def pixelCycles (config : Config) : List (Input config) :=
  [pixelCycle config, .quiet config, .quiet config, drainPixel config,
    statusCycle config]

/-- A one-pixel image completes once. -/
theorem task_completed_once_pixel :
    (run System.step (System.start smallConfig)
      (assignCycles smallConfig 8 ++
        pixelCycles smallConfig)).CompletedOnce :=
  task_completed_once smallConfig _ (by decide +kernel) (by decide +kernel)

/--
A source with two one-pixel images is completed twice: while source bytes are
left the slot keeps running, and the second report reloads the counter.
-/
theorem second_image_completes_again :
    ¬ ∀ config cycles,
      Along System.step System.WritePromised (System.start config) cycles →
      (run System.step (System.start config) cycles).CompletedOnce := by
  intro claimed
  have once := claimed smallConfig
    (assignCycles smallConfig 8 ++ pixelCycles smallConfig ++
      pixelCycles smallConfig)
    (by decide +kernel) 0
  exact absurd once.1 (by decide +kernel)

end CoreJpeg.JpegTop
