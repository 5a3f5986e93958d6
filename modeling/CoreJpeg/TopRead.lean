import CoreJpeg.TopSlots

namespace CoreJpeg.JpegTop

open Clocked

/-!
# Do read descriptors cover the source?

A read descriptor is offered with the length chosen one cycle earlier, and
the arbiter chooses again in the very cycle the descriptor is accepted.  The
later choice is the length the book is kept with.  This module proves that the
source is read in order, each byte once, in every run whose acceptances find
the length unchanged.
-/

section Property

variable {config : Config}

/-- The first bytes of a descriptor's source, by address. -/
def sourceAddresses (desc : Descriptor) (count : Nat) :
    List (BitVec config.addrWidth) :=
  (List.range count).map fun offset =>
    desc.srcAddr.setWidth _ + BitVec.ofNat _ offset

namespace System

/--
In one cycle, words go to the input FIFO of the decoder whose read was
accepted, and the last word moves that decoder's source by exactly the
accepted length.
-/
def ReadExact (sys : System config) (i : Input config) : Prop :=
  (∀ decoder, (inputFifoPush sys.top i decoder).isSome = true →
    ∃ job ∈ sys.readJob, job.decoder = decoder) ∧
  ((i.rst || i.mmioResetPulse) = false →
    dmaReadDataLast sys.top i = true →
      ∃ job ∈ sys.readJob,
        let before := sys.top.slots job.decoder
        let after := (sys.step i).top.slots job.decoder
        after.taskSrcAddr = before.taskSrcAddr + job.length.setWidth _ ∧
          after.taskSrcLen.toNat + job.length.toNat =
            before.taskSrcLen.toNat)

/--
Each task has been given a prefix of its source range, in order and each byte
once; the whole range when no source byte is left.
-/
def SourceInOrder (sys : System config) : Prop :=
  ∀ decoder, ∃ count,
    (sys.tasks decoder).source =
        sourceAddresses (sys.tasks decoder).descriptor count ∧
      count ≤ (sys.tasks decoder).descriptor.srcLen.toNat ∧
      ((sys.top.slots decoder).taskSrcLen = 0 →
        count = (sys.tasks decoder).descriptor.srcLen.toNat)

/--
When a read descriptor is accepted, the length chosen again in that cycle is
the accepted one; and a popped source length fits the 32-bit register.
-/
def ReadLengthKept (sys : System config) (i : Input config) : Prop :=
  (dmaReadDescFire sys.top i = true →
    dmaReadDescLenNext sys.top = sys.top.dmaReadDescLen) ∧
  (descFifoPop sys.top = true →
    (descFifoHead sys.top).srcLen.toNat < 2 ^ 32)

instance (sys : System config) (i : Input config) :
    Decidable (sys.ReadExact i) := by
  unfold ReadExact
  infer_instance

instance (sys : System config) (i : Input config) :
    Decidable (sys.ReadLengthKept i) := by
  unfold ReadLengthKept
  infer_instance

end System

end Property

/-! ## Offered and accepted reads -/

/-- The invariant of the read service in every run. -/
structure ReadSound {config : Config} (sys : System config) : Prop where
  slots : SlotsSound sys.top
  offered :
    sys.top.dmaReadDescValid = true →
      let slot := sys.top.slots sys.top.dmaReadDecoder
      slot.slotState = .run ∧ slot.taskSrcLen ≠ 0 ∧
        sys.top.dmaReadDescAddr = slot.taskSrcAddr ∧
        sys.top.dmaReadDescLen.toNat ≤ slot.taskSrcLen.toNat
  active : sys.top.readServiceActive = sys.readJob.isSome
  pending :
    ∀ job ∈ sys.readJob,
      (sys.top.dmaReadDescValid = true → job.fresh = true) ∧
        job.decoder = sys.top.readServiceDecoder ∧
        (sys.top.slots job.decoder).slotState = .run

/-- Bytes of the pending read that one input FIFO was already given. -/
def System.inFlight {config : Config} (sys : System config)
    (decoder : Decoder config) : Nat :=
  match sys.readJob with
  | some job => if job.decoder = decoder then job.delivered else 0
  | none => 0

/-- A slot's source registers and log agree with its descriptor. -/
structure SourceKept {config : Config} (sys : System config)
    (decoder : Decoder config) : Prop where
  fits : (sys.tasks decoder).descriptor.srcLen.toNat < 2 ^ 32
  left :
    (sys.top.slots decoder).taskSrcLen.toNat ≤
      (sys.tasks decoder).descriptor.srcLen.toNat
  address :
    (sys.top.slots decoder).taskSrcAddr =
      (sys.tasks decoder).descriptor.srcAddr.setWidth _ +
        BitVec.ofNat _
          ((sys.tasks decoder).descriptor.srcLen.toNat -
            (sys.top.slots decoder).taskSrcLen.toNat)
  source :
    (sys.tasks decoder).source =
      sourceAddresses (sys.tasks decoder).descriptor
        ((sys.tasks decoder).descriptor.srcLen.toNat -
          (sys.top.slots decoder).taskSrcLen.toNat +
          sys.inFlight decoder)

/-- The accepted read is the one the book is kept for. -/
structure ReadKept {config : Config} (sys : System config) : Prop
    extends ReadSound sys where
  kept :
    ∀ job ∈ sys.readJob,
      job.length = sys.top.dmaReadDescLen ∧
        job.address = (sys.top.slots job.decoder).taskSrcAddr ∧
        job.length.toNat ≤
          (sys.top.slots job.decoder).taskSrcLen.toNat ∧
        job.delivered ≤ job.length.toNat
  tasks : ∀ decoder, SourceKept sys decoder

section Reads

variable {config : Config} {sys : System config} {i : Input config}

/-- The engine takes no second descriptor while it works on one. -/
theorem ReadSound.fire
    (sound : ReadSound sys)
    (promised : sys.ReadPromised i)
    (fire : dmaReadDescFire sys.top i = true) :
    sys.readJob = none ∧ sys.top.readServiceActive = false := by
  simp only [dmaReadDescFire, Bool.and_eq_true] at fire
  cases job : sys.readJob with
  | none => exact ⟨rfl, by simp [sound.active, job]⟩
  | some pending =>
      have fresh := (sound.pending pending (by simp [job])).1 fire.1
      have refused := promised.1 (by simp [job, fresh])
      simp [refused] at fire

/-- The last word belongs to the pending job. -/
theorem ReadSound.last
    (sound : ReadSound sys)
    (last : dmaReadDataLast sys.top i = true) :
    ∃ job, sys.readJob = some job ∧
      job.decoder = sys.top.readServiceDecoder := by
  have active := dmaReadDataLast_active last
  rw [sound.active, Option.isSome_iff_exists] at active
  obtain ⟨job, pending⟩ := active
  exact ⟨job, pending, (sound.pending job (by simp [pending])).2.1⟩

/-- A chosen read is offered with its slot's registers. -/
theorem offered_next
    (slots : SlotsSound sys.top)
    (outside : (i.rst || i.mmioResetPulse) = false)
    {decoder : Decoder config}
    (chosen : dmaReadChoice sys.top = some decoder) :
    let slot := (JpegTop.step sys.top i).slots decoder
    slot.slotState = .run ∧ slot.taskSrcLen ≠ 0 ∧
      (JpegTop.step sys.top i).dmaReadDescAddr = slot.taskSrcAddr ∧
      (JpegTop.step sys.top i).dmaReadDescLen.toNat ≤
        slot.taskSrcLen.toNat := by
  have choice := dmaReadChoice_slot chosen
  have notDone : readDoneFor sys.top i decoder = false := by
    by_contra done
    simp only [readDoneFor, Bool.not_eq_false, Bool.and_eq_true] at done
    simp [dmaReadDataLast_active done.1] at choice
  have notAssigned := slots.notAssigned choice.2.1
  have sameAddr : ((JpegTop.step sys.top i).slots decoder).taskSrcAddr =
      (sys.top.slots decoder).taskSrcAddr := by
    rw [step_slots outside, slotNext_taskSrcAddr, notDone, notAssigned]
    simp
  have sameLen : ((JpegTop.step sys.top i).slots decoder).taskSrcLen =
      (sys.top.slots decoder).taskSrcLen := by
    rw [step_slots outside, slotNext_taskSrcLen, notDone, notAssigned]
    simp
  have working := taskDone_eq_false (.inl choice.2.2)
  refine ⟨slots.runsOn outside choice.2.1 working, ?_, ?_, ?_⟩
  · rw [sameLen]
    exact choice.2.2
  · rw [sameAddr]
    simp [JpegTop.step, outside, chosen]
  · rw [sameLen]
    simpa [JpegTop.step, outside, chosen, dmaReadDescLenNext] using
      readLen_le (sys.top.slots decoder)

/-- After reset no read is offered and none is in service. -/
theorem readSound_reset
    (descAssign : Option (Decoder config)) :
    ReadSound { System.start config with top := .reset descAssign } where
  slots := slotsSound_reset descAssign
  offered := by simp [State.reset]
  active := rfl
  pending := by simp [System.start]

/-- The job after a cycle is fresh or was not offered a successor. -/
theorem ReadSound.pending_next
    (sound : ReadSound sys)
    (outside : (i.rst || i.mmioResetPulse) = false)
    {job : ReadJob config}
    (pending : job ∈ sys.readJobNext i) :
    ((JpegTop.step sys.top i).dmaReadDescValid = true →
        job.fresh = true) ∧
      job.decoder = (JpegTop.step sys.top i).readServiceDecoder ∧
      ((JpegTop.step sys.top i).slots job.decoder).slotState = .run := by
  unfold System.readJobNext at pending
  split at pending
  · simp at pending
  · split at pending
    · rename_i notLast fire
      simp only [Option.mem_def, Option.some.injEq] at pending
      subst pending
      have offered := sound.offered (Bool.and_eq_true_iff.mp fire).1
      exact ⟨fun _ => rfl, by simp [JpegTop.step, outside, fire],
        sound.slots.runsOn outside offered.1
          (taskDone_eq_false (.inl offered.2.1))⟩
    · rename_i notLast noFire
      obtain ⟨before, wasPending, rfl⟩ := Option.map_eq_some_iff.mp pending
      have known := sound.pending before wasPending
      have active : sys.top.readServiceActive = true := by
        rw [sound.active, Option.mem_def.mp wasPending, Option.isSome_some]
      refine ⟨?_, ?_, ?_⟩
      · intro valid
        have silent : dmaReadChoice sys.top = none := by
          simp [dmaReadChoice, active]
        simp [JpegTop.step, outside, silent] at valid
      · simp [JpegTop.step, outside, noFire, known.2.1]
      · exact sound.slots.runsOn outside known.2.2
          (taskDone_eq_false (.inr (.inr (.inl active))))

/-- One cycle keeps the read service sound. -/
theorem ReadSound.step
    (sound : ReadSound sys)
    (i : Input config) :
    ReadSound (sys.step i) := by
  cases outside : i.rst || i.mmioResetPulse with
  | true =>
      simpa [System.step, JpegTop.step, outside] using
        readSound_reset (descAssignNext sys.top)
  | false =>
      have top : (sys.step i).top = JpegTop.step sys.top i := by
        simp [System.step, outside]
      have readJob : (sys.step i).readJob = sys.readJobNext i := by
        simp [System.step, outside]
      refine ⟨?_, ?_, ?_, ?_⟩
      · rw [top]
        exact sound.slots.step i
      · intro valid
        rw [top] at valid ⊢
        cases chosen : dmaReadChoice sys.top with
        | none => simp [JpegTop.step, outside, chosen] at valid
        | some decoder =>
            have decoderNext :
                (JpegTop.step sys.top i).dmaReadDecoder = decoder := by
              simp [JpegTop.step, outside, chosen]
            rw [decoderNext]
            exact offered_next sound.slots outside chosen
      · rw [top, readJob]
        simp only [JpegTop.step, outside, System.readJobNext]
        split_ifs <;> simp_all [sound.active]
      · rw [top, readJob]
        intro job pending
        exact sound.pending_next outside pending

/-- The words of an input FIFO are the read words its service takes. -/
theorem inputFifoPush_eq (decoder : Decoder config) :
    inputFifoPush sys.top i decoder =
      if decoder = sys.top.readServiceDecoder then
        (dmaReadDataFire sys.top i).map fun word => word.1
      else none := by
  unfold inputFifoPush inputFifoOffer dmaReadDataFire
  by_cases served : decoder = sys.top.readServiceDecoder
  · subst served
    cases sys.top.readServiceActive <;>
      cases (i.slots sys.top.readServiceDecoder).inputFifoTready <;> simp
  · simp [served]

/-- Consecutive reads extend the source prefix. -/
theorem sourceAddresses_append
    {desc : Descriptor} {job : ReadJob config} {base : Nat}
    (address : job.address = desc.srcAddr.setWidth _ + BitVec.ofNat _ base)
    (count : Nat) :
    sourceAddresses desc (base + job.delivered) ++ job.addresses count =
      sourceAddresses desc (base + (job.delivered + count)) := by
  rw [← Nat.add_assoc]
  simp only [sourceAddresses, ReadJob.addresses, address,
    @List.range_add (base + job.delivered) count, List.map_append,
    List.map_map, List.range'_eq_map_range, Function.comp_def,
    BitVec.ofNat_add, BitVec.add_assoc]

/-- A taken read word belongs to the pending job and stays in its length. -/
theorem ReadSound.taken
    (sound : ReadSound sys)
    (promised : sys.ReadPromised i)
    {word : Keep config × Bool}
    (taken : dmaReadDataFire sys.top i = some word) :
    ∃ job, sys.readJob = some job ∧
      job.decoder = sys.top.readServiceDecoder ∧
      job.delivered + axisKeepCount word.1 ≤ job.length.toNat ∧
      (word.2 = true ↔
        job.delivered + axisKeepCount word.1 = job.length.toNat) := by
  have shown := (dmaReadDataFire_active taken).2
  obtain ⟨job, pending, inside, atEnd⟩ := promised.2 word (by simp [shown])
  exact ⟨job, pending, (sound.pending job pending).2.1, inside, atEnd⟩

/-- The kept length is the accepted one until the read is done. -/
theorem ReadKept.kept_next
    (known : ReadKept sys)
    (promised : sys.ReadPromised i)
    (steady : sys.ReadLengthKept i)
    (outside : (i.rst || i.mmioResetPulse) = false)
    {job : ReadJob config}
    (pending : job ∈ sys.readJobNext i) :
    job.length = (JpegTop.step sys.top i).dmaReadDescLen ∧
      job.address =
        ((JpegTop.step sys.top i).slots job.decoder).taskSrcAddr ∧
      job.length.toNat ≤
        ((JpegTop.step sys.top i).slots job.decoder).taskSrcLen.toNat ∧
      job.delivered ≤ job.length.toNat := by
  have lenNext : (JpegTop.step sys.top i).dmaReadDescLen =
      dmaReadDescLenNext sys.top := by
    simp [JpegTop.step, outside]
  unfold System.readJobNext at pending
  split at pending
  · simp at pending
  · rename_i notLast
    have notDone (decoder : Decoder config) :
        readDoneFor sys.top i decoder = false := by
      simp [readDoneFor, notLast]
    split at pending
    · rename_i fire
      simp only [Option.mem_def, Option.some.injEq] at pending
      subst pending
      have offered := known.offered (Bool.and_eq_true_iff.mp fire).1
      have notAssigned := known.slots.notAssigned offered.1
      simp only [lenNext, steady.1 fire, step_slots outside,
        slotNext_taskSrcAddr, slotNext_taskSrcLen, notDone, notAssigned,
        Bool.false_eq_true, if_false]
      exact ⟨trivial, offered.2.2.1, offered.2.2.2, Nat.zero_le _⟩
    · obtain ⟨before, wasPending, rfl⟩ := Option.map_eq_some_iff.mp pending
      have kept := known.kept before wasPending
      have running := (known.pending before wasPending).2.2
      have notAssigned := known.slots.notAssigned running
      have active : sys.top.readServiceActive = true := by
        rw [known.active, wasPending, Option.isSome_some]
      have sameLen :
          dmaReadDescLenNext sys.top = sys.top.dmaReadDescLen := by
        simp [dmaReadDescLenNext, dmaReadChoice, active]
      simp only [lenNext, sameLen, step_slots outside,
        slotNext_taskSrcAddr, slotNext_taskSrcLen, notDone, notAssigned,
        Bool.false_eq_true, if_false]
      refine ⟨kept.1, kept.2.1, kept.2.2.1, ?_⟩
      cases taken : dmaReadDataFire sys.top i with
      | none => simpa using kept.2.2.2
      | some word =>
          obtain ⟨job, same, _, inside, _⟩ :=
            known.toReadSound.taken promised taken
          rw [wasPending, Option.some.injEq] at same
          subst same
          simpa using inside

/-- The bytes one input FIFO takes in a cycle. -/
def deliveredBytes (s : State config) (i : Input config)
    (decoder : Decoder config) : Nat :=
  ((inputFifoPush s i decoder).map axisKeepCount).getD 0

/-- Only the decoder of the pending read is given bytes. -/
theorem ReadSound.delivered_other
    (sound : ReadSound sys)
    {decoder : Decoder config}
    (other : ∀ job ∈ sys.readJob, job.decoder ≠ decoder) :
    inputFifoPush sys.top i decoder = none ∧
      readDoneFor sys.top i decoder = false := by
  cases active : sys.top.readServiceActive with
  | false =>
      have silent : dmaReadDataFire sys.top i = none := by
        simp [dmaReadDataFire, active]
      simp [inputFifoPush_eq, readDoneFor, dmaReadDataLast, silent]
  | true =>
      obtain ⟨job, pending⟩ := Option.isSome_iff_exists.mp
        (sound.active.symm.trans active)
      have known := sound.pending job pending
      have differs : decoder ≠ sys.top.readServiceDecoder := by
        rw [← known.2.1]
        exact (other job pending).symm
      simp [inputFifoPush_eq, readDoneFor, differs]

/-- A read that is not done this cycle has delivered the bytes just taken. -/
theorem ReadSound.inFlight_next
    (sound : ReadSound sys)
    (promised : sys.ReadPromised i)
    (outside : (i.rst || i.mmioResetPulse) = false)
    {decoder : Decoder config}
    (notDone : readDoneFor sys.top i decoder = false) :
    (sys.step i).inFlight decoder =
      sys.inFlight decoder + deliveredBytes sys.top i decoder := by
  have readJob : (sys.step i).readJob = sys.readJobNext i := by
    simp [System.step, outside]
  by_cases mine : ∃ job, sys.readJob = some job ∧ job.decoder = decoder
  · obtain ⟨job, pending, rfl⟩ := mine
    have known := sound.pending job pending
    have notLast : dmaReadDataLast sys.top i = false := by
      simpa [readDoneFor, known.2.1] using notDone
    have noFire : dmaReadDescFire sys.top i = false := by
      by_contra fire
      have free := sound.fire promised (by simpa using fire)
      simp [pending] at free
    simp [System.inFlight, readJob, System.readJobNext, notLast, noFire,
      pending, deliveredBytes, inputFifoPush_eq, known.2.1,
      Function.comp_def]
  · have other : ∀ job ∈ sys.readJob, job.decoder ≠ decoder :=
      fun job pending same => mine ⟨job, pending, same⟩
    have before : sys.inFlight decoder = 0 := by
      unfold System.inFlight
      split
      · rename_i job pending
        simp [other job pending]
      · rfl
    have after : (sys.step i).inFlight decoder = 0 := by
      simp only [System.inFlight, readJob, System.readJobNext]
      split_ifs
      · rfl
      · simp
      · cases pending : sys.readJob with
        | none => rfl
        | some job => simp [other job pending]
    simp [before, after, deliveredBytes,
      (sound.delivered_other (i := i) other).1]

/-- The source log grows by the bytes delivered. -/
theorem ReadKept.source_next
    (known : ReadKept sys)
    (promised : sys.ReadPromised i)
    (decoder : Decoder config) :
    (sys.tasks decoder).source ++ sys.delivery i decoder =
      sourceAddresses (sys.tasks decoder).descriptor
        ((sys.tasks decoder).descriptor.srcLen.toNat -
          (sys.top.slots decoder).taskSrcLen.toNat +
          (sys.inFlight decoder + deliveredBytes sys.top i decoder)) := by
  have task := known.tasks decoder
  cases pushed : inputFifoPush sys.top i decoder with
  | none =>
      simp [System.delivery, deliveredBytes, pushed, task.source]
  | some keep =>
      rw [inputFifoPush_eq] at pushed
      split at pushed
      · rename_i served
        obtain ⟨word, taken, rfl⟩ := Option.map_eq_some_iff.mp pushed
        obtain ⟨job, pending, mine, _⟩ :=
          known.toReadSound.taken promised taken
        have same : job.decoder = decoder := mine.trans served.symm
        subst same
        have address := (known.kept job pending).2.1.trans task.address
        rw [task.source]
        simpa [System.delivery, deliveredBytes, inputFifoPush_eq, served,
          taken, System.inFlight, pending] using
            sourceAddresses_append address (axisKeepCount word.1)
      · simp at pushed

/-- The last word moves the source by the accepted length, in full. -/
theorem ReadKept.done
    (known : ReadKept sys)
    (promised : sys.ReadPromised i)
    {decoder : Decoder config}
    (done : readDoneFor sys.top i decoder = true) :
    ∃ job, sys.readJob = some job ∧ job.decoder = decoder ∧
      sys.inFlight decoder + deliveredBytes sys.top i decoder =
        job.length.toNat ∧
      (slotNext sys.top i decoder).taskSrcAddr =
        (sys.top.slots decoder).taskSrcAddr + job.length.setWidth _ ∧
      (slotNext sys.top i decoder).taskSrcLen.toNat + job.length.toNat =
        (sys.top.slots decoder).taskSrcLen.toNat := by
  have served := eq_of_readDoneFor done
  have last : dmaReadDataLast sys.top i = true :=
    (Bool.and_eq_true_iff.mp done).1
  cases taken : dmaReadDataFire sys.top i with
  | none => simp [dmaReadDataLast, taken] at last
  | some word =>
      obtain ⟨job, pending, mine, _, atEnd⟩ :=
        known.toReadSound.taken promised taken
      have same : job.decoder = decoder := mine.trans served.symm
      subst same
      have kept := known.kept job pending
      have small : job.length.toNat < 2 ^ 32 :=
        kept.2.2.1.trans_lt (BitVec.isLt _)
      refine ⟨job, pending, rfl, ?_, ?_, ?_⟩
      · have reached := atEnd.mp (by simpa [dmaReadDataLast, taken] using last)
        simpa [System.inFlight, pending, deliveredBytes, inputFifoPush_eq,
          served, taken] using reached
      · simp [slotNext_taskSrcAddr, done, kept.1]
      · have inRange :
            (job.length.setWidth 32).toNat = job.length.toNat := by
          rw [BitVec.toNat_setWidth, Nat.mod_eq_of_lt small]
        have le : job.length.setWidth 32 ≤
            (sys.top.slots job.decoder).taskSrcLen := by
          rw [BitVec.le_def, inRange]
          exact kept.2.2.1
        rw [slotNext_taskSrcLen, if_pos done, ← kept.1,
          BitVec.toNat_sub_of_le le, inRange]
        exact Nat.sub_add_cancel kept.2.2.1

/-- One cycle keeps a slot's source registers and log in agreement. -/
theorem ReadKept.tasks_next
    (known : ReadKept sys)
    (promised : sys.ReadPromised i)
    (steady : sys.ReadLengthKept i)
    (outside : (i.rst || i.mmioResetPulse) = false)
    (decoder : Decoder config) :
    SourceKept (sys.step i) decoder := by
  have top : (sys.step i).top.slots decoder = slotNext sys.top i decoder := by
    simp [System.step, outside, step_slots]
  have log : (sys.step i).tasks decoder = sys.taskNext i decoder := by
    simp [System.step, outside]
  cases assigned : assignsTo sys.top decoder with
  | true =>
      have idle := known.slots.assignIdle decoder assigned
      have other : ∀ job ∈ sys.readJob, job.decoder ≠ decoder := by
        rintro job pending rfl
        simp [(known.pending job pending).2.2] at idle
      have silent := known.toReadSound.delivered_other (i := i) other
      have before : sys.inFlight decoder = 0 := by
        unfold System.inFlight
        split
        · rename_i job pending
          simp [other job pending]
        · rfl
      have flight := known.toReadSound.inFlight_next promised outside silent.2
      have fits := steady.2 (Bool.and_eq_true_iff.mp assigned).1
      have whole :
          ((descFifoHead sys.top).srcLen.setWidth 32).toNat =
            (descFifoHead sys.top).srcLen.toNat := by
        rw [BitVec.toNat_setWidth, Nat.mod_eq_of_lt fits]
      refine ⟨?_, ?_, ?_, ?_⟩ <;>
        simp only [log, top, flight, before, System.taskNext, assigned,
          TaskLog.assigned, slotNext_taskSrcLen, slotNext_taskSrcAddr,
          silent.2, Bool.false_eq_true, if_false, if_true, whole, Nat.sub_self]
      · exact fits
      · exact le_rfl
      · simp
      · simp [deliveredBytes, silent.1, sourceAddresses]
  | false =>
      have task := known.tasks decoder
      have grown := known.source_next promised decoder
      cases done : readDoneFor sys.top i decoder with
      | false =>
          have flight := known.toReadSound.inFlight_next promised outside done
          refine ⟨?_, ?_, ?_, ?_⟩ <;>
            simp only [log, top, flight, System.taskNext, assigned,
              slotNext_taskSrcLen, slotNext_taskSrcAddr, done,
              Bool.false_eq_true, if_false]
          · exact task.fits
          · exact task.left
          · exact task.address
          · exact grown
      | true =>
          obtain ⟨job, pending, rfl, whole, address, left⟩ :=
            known.done promised done
          have last : dmaReadDataLast sys.top i = true :=
            (Bool.and_eq_true_iff.mp done).1
          have flight : (sys.step i).inFlight job.decoder = 0 := by
            simp [System.inFlight, System.step, outside,
              System.readJobNext, last]
          have bound := task.left
          refine ⟨?_, ?_, ?_, ?_⟩ <;>
            simp only [log, top, flight, System.taskNext, assigned,
              Bool.false_eq_true, if_false]
          · exact task.fits
          · omega
          · have extended : job.length.setWidth config.addrWidth =
                BitVec.ofNat _ job.length.toNat :=
              (BitVec.ofNat_toNat _ _).symm
            rw [address, task.address, BitVec.add_assoc, extended,
              ← BitVec.ofNat_add]
            congr 2
            omega
          · rw [grown, whole]
            congr 1
            omega

/-- After reset every log starts over. -/
theorem readKept_reset
    (descAssign : Option (Decoder config)) :
    ReadKept { System.start config with top := .reset descAssign } where
  toReadSound := readSound_reset descAssign
  kept := by simp [System.start]
  tasks := fun _ => {
    fits := by simp [System.start, TaskLog.assigned, Descriptor.reset]
    left := by simp [State.reset, Slot.reset]
    address := by
      simp [State.reset, Slot.reset, System.start, TaskLog.assigned,
        Descriptor.reset]
    source := by
      simp [State.reset, Slot.reset, System.start, TaskLog.assigned,
        Descriptor.reset, System.inFlight, sourceAddresses] }

/-- One cycle with a kept length keeps the book right. -/
theorem ReadKept.step
    (known : ReadKept sys)
    (promised : sys.ReadPromised i)
    (steady : sys.ReadLengthKept i) :
    ReadKept (sys.step i) := by
  cases outside : i.rst || i.mmioResetPulse with
  | true =>
      simpa [System.step, JpegTop.step, outside] using
        readKept_reset (descAssignNext sys.top)
  | false =>
      refine ⟨known.toReadSound.step i, ?_, ?_⟩
      · intro job pending
        simp only [System.step, outside, Bool.false_eq_true,
          if_false] at pending ⊢
        exact known.kept_next promised steady outside pending
      · exact known.tasks_next promised steady outside

/-- A cycle of a right book is exact. -/
theorem ReadKept.exact
    (known : ReadKept sys)
    (promised : sys.ReadPromised i) :
    sys.ReadExact i := by
  constructor
  · intro decoder pushed
    by_contra none
    have other : ∀ job ∈ sys.readJob, job.decoder ≠ decoder :=
      fun job pending same => none ⟨job, pending, same⟩
    simp [(known.toReadSound.delivered_other (i := i) other).1] at pushed
  · intro outside last
    obtain ⟨job, pending, mine⟩ := known.toReadSound.last last
    have done : readDoneFor sys.top i job.decoder = true := by
      simp [readDoneFor, last, mine]
    obtain ⟨same, pending', _, _, address, left⟩ :=
      known.done promised done
    rw [pending, Option.some.injEq] at pending'
    subst pending'
    refine ⟨job, pending, ?_⟩
    simpa [System.step, outside, step_slots] using ⟨address, left⟩

/-- A right book has the source read in order. -/
theorem ReadKept.inOrder
    (known : ReadKept sys) :
    sys.SourceInOrder := by
  intro decoder
  have task := known.tasks decoder
  have flight : sys.inFlight decoder ≤
      (sys.top.slots decoder).taskSrcLen.toNat := by
    unfold System.inFlight
    split
    · rename_i job pending
      split
      · rename_i mine
        have kept := known.kept job pending
        rw [mine] at kept
        exact kept.2.2.2.trans kept.2.2.1
      · exact Nat.zero_le _
    · exact Nat.zero_le _
  have bound := task.left
  refine ⟨_, task.source, by omega, ?_⟩
  intro finished
  rw [finished] at flight ⊢
  have zero : (0 : BitVec 32).toNat = 0 := rfl
  omega

end Reads

/--
In every run in which each accepted read keeps its length, every read moves
its decoder's source by exactly the accepted bytes, and every task is given
its source range in order, each byte once.
-/
theorem reads_cover_source
    (config : Config)
    (cycles : List (Input config))
    (promised :
      Along System.step System.ReadPromised (System.start config) cycles)
    (kept :
      Along System.step System.ReadLengthKept
        (System.start config) cycles) :
    Along System.step System.ReadExact (System.start config) cycles ∧
      (run System.step (System.start config) cycles).SourceInOrder := by
  have initially : ReadKept (System.start config) := readKept_reset none
  have preserved (sys : System config) (i : Input config)
      (known : ReadKept sys)
      (allowed : sys.ReadPromised i ∧ sys.ReadLengthKept i) :
      ReadKept (sys.step i) :=
    known.step allowed.1 allowed.2
  exact ⟨along_invariant preserved
      (fun _ _ known allowed => known.exact allowed.1)
      initially (promised.both kept),
    (run_invariant preserved initially (promised.both kept)).inOrder⟩

/-- Two decoders with four-byte words and input FIFOs of two words. -/
def smallConfig : Config where
  decoderIdxWidth := 1
  strbWidthLog2 := 2
  descFifoDepthLog2 := 1
  inputFifoSlots := 2
  outputFifoSlots := 2
  addrWidth := 8
  severalDecoders := by decide

/-- A cycle in which the pins of one slot show nothing. -/
def SlotInput.quiet (config : Config) : SlotInput config where
  inputFifoTready := true
  coreInPop := none
  coreOutPush := none
  outputFifo := none
  coreDims := none

/-- A cycle in which the DMA engine is ready and nothing else happens. -/
def Input.quiet (config : Config) : Input config where
  rst := false
  mmioResetPulse := false
  descFifoPush := none
  slots := fun _ => .quiet config
  dmaReadDescReady := true
  dmaReadData := none
  dmaWriteDescReady := true
  dmaWriteDataTready := true
  dmaWriteDescStatusValid := false

/-- A cycle with other pins of decoder 0. -/
def Input.atFirst (config : Config) (slot : SlotInput config) :
    Input config :=
  { Input.quiet config with
    slots := fun decoder =>
      if decoder.val = 0 then slot else .quiet config }

/-- A descriptor of the given source length is pushed and popped. -/
def assignCycles (config : Config) (srcLen : BitVec 64) :
    List (Input config) :=
  [{ Input.quiet config with
      descFifoPush := some ⟨0x10, srcLen, 0x80, 1⟩ },
    .quiet config, .quiet config]

/-- A read word of all bytes, with the last flag. -/
def readWord (config : Config) (last : Bool) : Input config :=
  { Input.quiet config with
    dmaReadDescReady := false
    dmaReadData := some (BitVec.allOnes _, last) }

/-- The core of decoder 0 takes a full word while the engine is busy. -/
def popWord (config : Config) : Input config :=
  { Input.atFirst config { SlotInput.quiet config with
      coreInPop := some (BitVec.allOnes _) } with
    dmaReadDescReady := false }

/-- Eight source bytes are read with one descriptor. -/
theorem reads_cover_source_eight :
    Along System.step System.ReadExact (System.start smallConfig)
        (assignCycles smallConfig 8 ++
          [.quiet smallConfig, .quiet smallConfig,
            readWord smallConfig false, readWord smallConfig true]) ∧
      (run System.step (System.start smallConfig)
        (assignCycles smallConfig 8 ++
          [.quiet smallConfig, .quiet smallConfig,
            readWord smallConfig false,
            readWord smallConfig true])).SourceInOrder :=
  reads_cover_source smallConfig _ (by decide +kernel) (by decide +kernel)

/--
After a first read of eight bytes the core takes one word, so four bytes are
offered, and another, so eight are chosen when the four are accepted: the
source moves by eight.
-/
theorem popped_word_skips_source :
    ¬ ∀ config cycles,
      Along System.step System.ReadPromised (System.start config) cycles →
      Along System.step System.ReadExact (System.start config) cycles ∧
        (run System.step (System.start config) cycles).SourceInOrder := by
  intro claimed
  exact absurd
    (claimed smallConfig
      (assignCycles smallConfig 16 ++
        [.quiet smallConfig, .quiet smallConfig,
          readWord smallConfig false, readWord smallConfig true,
          popWord smallConfig, popWord smallConfig, .quiet smallConfig,
          readWord smallConfig true])
      (by decide +kernel)).1
    (by decide +kernel)

end CoreJpeg.JpegTop
