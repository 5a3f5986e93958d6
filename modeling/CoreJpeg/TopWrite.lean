import CoreJpeg.TopRead

namespace CoreJpeg.JpegTop

open Clocked

/-!
# Do write descriptors cover the destination?

The write arbiter chooses again in the cycle its descriptor is accepted, like
the read arbiter, and the register it overwrites places the last flag, moves
the destination and decides the completion.  In every run whose acceptances
find the length unchanged, on a word boundary and within the image, the data
words match the descriptors and the descriptors follow each other without gap
or overlap.
-/

/-- The first words of a FIFO carry exactly this many bytes. -/
def coversWords {config : Config} : List (Keep config) → Nat → Bool
  | _, 0 => true
  | [], _ + 1 => false
  | keep :: rest, left + 1 =>
      axisKeepCount keep ≤ left + 1 &&
        coversWords rest (left + 1 - axisKeepCount keep)

section Property

variable {config : Config}

/-- Write descriptors that follow each other from an address on. -/
def Contiguous :
    BitVec config.addrWidth →
      List (BitVec config.addrWidth × BitVec config.lenWidth) → Prop
  | _, [] => True
  | next, (address, length) :: rest =>
      address = next ∧ Contiguous (next + length.setWidth _) rest

/-- The address behind write descriptors that follow each other. -/
def writesEnd :
    BitVec config.addrWidth →
      List (BitVec config.addrWidth × BitVec config.lenWidth) →
        BitVec config.addrWidth
  | next, [] => next
  | next, (_, length) :: rest => writesEnd (next + length.setWidth _) rest

namespace System

/--
In one cycle, a data word belongs to the accepted write and carries the last
flag exactly when it completes the accepted length; the status of a write
finds all its bytes sent and moves the destination and the image bytes left
by exactly the accepted length.
-/
def WriteExact (sys : System config) (i : Input config) : Prop :=
  (∀ keep ∈ dmaWriteDataFire sys.top i,
    ∃ job ∈ sys.writeJob,
      job.decoder = sys.top.writeServiceDecoder ∧
        job.received + axisKeepCount keep ≤ job.length.toNat ∧
        (dmaWriteDataTlast sys.top keep = true ↔
          job.received + axisKeepCount keep = job.length.toNat)) ∧
  ((i.rst || i.mmioResetPulse) = false →
    i.dmaWriteDescStatusValid = true →
      ∃ job ∈ sys.writeJob,
        let before := sys.top.slots job.decoder
        let after := (sys.step i).top.slots job.decoder
        job.received = job.length.toNat ∧
          after.taskDstAddr = before.taskDstAddr + job.length.setWidth _ ∧
          after.writeBytesRemaining.toNat + job.length.toNat =
            before.writeBytesRemaining.toNat)

/-- The writes of every task follow each other from its destination on. -/
def DestinationInOrder (sys : System config) : Prop :=
  ∀ decoder,
    Contiguous ((sys.tasks decoder).descriptor.dstAddr.setWidth _)
      (sys.tasks decoder).writes

/--
When a write descriptor is accepted, the length chosen again in that cycle is
the accepted one, at least one byte, at most the image bytes left and on a
word boundary of the output FIFO; and at its status the image bytes left have
not become fewer.
-/
def WriteLengthKept (sys : System config) (i : Input config) : Prop :=
  (dmaWriteDescFire sys.top i = true →
    let decoder := sys.top.dmaWriteDescDecoder
    let length := sys.top.dmaWriteDescLen.toNat
    dmaWriteDescLenNext sys.top = sys.top.dmaWriteDescLen ∧
      0 < length ∧
      length ≤ (sys.top.slots decoder).writeBytesRemaining.toNat ∧
      coversWords (sys.outputWords decoder) length = true) ∧
  (i.dmaWriteDescStatusValid = true →
    sys.top.dmaWriteDescLen.toNat ≤
      (sys.top.slots sys.top.writeServiceDecoder).writeBytesRemaining.toNat)

/--
When a write is accepted, the length chosen again in that cycle is at least
one byte and ends on a word of its decoder's output FIFO, and the decoder's
task is not over.
-/
def ChoosesHeldWords (sys : System config) (i : Input config) : Prop :=
  dmaWriteDescFire sys.top i = true →
    let decoder := sys.top.dmaWriteDescDecoder
    let length := (dmaWriteDescLenNext sys.top).toNat
    0 < length ∧
      coversWords (sys.outputWords decoder) length = true ∧
      taskDone sys.top decoder = false

instance (sys : System config) (i : Input config) :
    Decidable (sys.WriteExact i) := by
  unfold WriteExact
  infer_instance

instance (sys : System config) (i : Input config) :
    Decidable (sys.WriteLengthKept i) := by
  unfold WriteLengthKept
  infer_instance

instance (sys : System config) (i : Input config) :
    Decidable (sys.ChoosesHeldWords i) := by
  unfold ChoosesHeldWords
  infer_instance

end System

end Property

/-! ## Word boundaries -/

section Words

variable {config : Config}

/-- More words behind do not move the boundary. -/
theorem coversWords_append
    {words : List (Keep config)} {bytes : Nat}
    (covers : coversWords words bytes = true)
    (more : List (Keep config)) :
    coversWords (words ++ more) bytes = true := by
  induction words generalizing bytes with
  | nil =>
      cases bytes with
      | zero => simp [coversWords]
      | succ left => simp [coversWords] at covers
  | cons keep rest inductionHypothesis =>
      cases bytes with
      | zero => simp [coversWords]
      | succ left =>
          simp only [coversWords, List.cons_append, Bool.and_eq_true,
            decide_eq_true_eq] at covers ⊢
          exact ⟨covers.1, inductionHypothesis covers.2⟩

/-- A first word stays within a boundary that is not reached yet. -/
theorem coversWords_cons
    {keep : Keep config} {rest : List (Keep config)} {bytes : Nat}
    (covers : coversWords (keep :: rest) bytes = true)
    (bytesLeft : 0 < bytes) :
    axisKeepCount keep ≤ bytes ∧
      coversWords rest (bytes - axisKeepCount keep) = true := by
  cases bytes with
  | zero => simp at bytesLeft
  | succ left =>
      simpa only [coversWords, Bool.and_eq_true,
        decide_eq_true_eq] using covers

/-- One more descriptor continues a row when it starts at its end. -/
theorem contiguous_append
    (next address : BitVec config.addrWidth)
    (length : BitVec config.lenWidth)
    (writes : List (BitVec config.addrWidth × BitVec config.lenWidth)) :
    Contiguous next (writes ++ [(address, length)]) ↔
      Contiguous next writes ∧ address = writesEnd next writes := by
  induction writes generalizing next with
  | nil =>
      simp [Contiguous, writesEnd]
  | cons write rest inductionHypothesis =>
      simp [Contiguous, writesEnd, inductionHypothesis, and_assoc]

/-- The end of a row moves by the length of one more descriptor. -/
theorem writesEnd_append
    (next address : BitVec config.addrWidth)
    (length : BitVec config.lenWidth)
    (writes : List (BitVec config.addrWidth × BitVec config.lenWidth)) :
    writesEnd next (writes ++ [(address, length)]) =
      writesEnd next writes + length.setWidth _ := by
  induction writes generalizing next with
  | nil =>
      rfl
  | cons write rest inductionHypothesis =>
      exact inductionHypothesis _

end Words

/-! ## Offered and accepted writes -/

/-- The invariant of the write service. -/
structure WriteSound {config : Config} (sys : System config) : Prop where
  slots : SlotsSound sys.top
  offered :
    sys.top.dmaWriteDescValid = true →
      let slot := sys.top.slots sys.top.dmaWriteDescDecoder
      slot.slotState = .run ∧
        sys.top.dmaWriteDescAddr = slot.taskDstAddr
  active : sys.top.writeServiceActive = sys.writeJob.isSome
  pending :
    ∀ job ∈ sys.writeJob,
      (sys.top.dmaWriteDescValid = true → job.fresh = true) ∧
        job.decoder = sys.top.writeServiceDecoder ∧
        (sys.top.slots job.decoder).slotState = .run

/-- Bytes of the pending write that belong to one slot. -/
def System.writing {config : Config} (sys : System config)
    (decoder : Decoder config) : BitVec config.lenWidth :=
  match sys.writeJob with
  | some job => if job.decoder = decoder then job.length else 0
  | none => 0

/--
The words of the accepted write are in the output path, up to the one that
completes the length in the register.
-/
structure ChunkHeld {config : Config} (sys : System config) : Prop
    extends WriteSound sys where
  silent :
    sys.writeJob = none →
      sys.top.writeChunkBytesSent = 0 ∧ sys.top.writeChunkDataDone = false
  chunk :
    ∀ job ∈ sys.writeJob,
      let length := sys.top.dmaWriteDescLen.toNat
      let sent := sys.top.writeChunkBytesSent.toNat
      sys.top.writeChunkDataDone = job.complete ∧
        (job.complete = false →
          sent < length ∧
            coversWords (sys.outputWords job.decoder) (length - sent) = true)

/-- The accepted write is the one the book is kept for. -/
structure WriteKept {config : Config} (sys : System config) : Prop
    extends WriteSound sys where
  silent :
    sys.writeJob = none →
      sys.top.writeChunkBytesSent = 0 ∧ sys.top.writeChunkDataDone = false
  kept :
    ∀ job ∈ sys.writeJob,
      job.length = sys.top.dmaWriteDescLen ∧
        sys.top.writeChunkBytesSent.toNat = job.received ∧
        sys.top.writeChunkDataDone = job.complete
  sent :
    ∀ job ∈ sys.writeJob,
      (job.complete = true → job.received = job.length.toNat) ∧
        (job.complete = false →
          job.received < job.length.toNat ∧
            coversWords (sys.outputWords job.decoder)
              (job.length.toNat - job.received) = true)
  writes :
    ∀ decoder,
      let base : BitVec config.addrWidth :=
        (sys.tasks decoder).descriptor.dstAddr.setWidth _
      Contiguous base (sys.tasks decoder).writes ∧
        writesEnd base (sys.tasks decoder).writes =
          (sys.top.slots decoder).taskDstAddr +
            (sys.writing decoder).setWidth _

section Writes

variable {config : Config} {sys : System config} {i : Input config}

/-- The engine takes no second descriptor while it works on one. -/
theorem WriteSound.fire
    (sound : WriteSound sys)
    (promised : sys.WritePromised i)
    (fire : dmaWriteDescFire sys.top i = true) :
    sys.writeJob = none ∧ sys.top.writeServiceActive = false := by
  simp only [dmaWriteDescFire, Bool.and_eq_true] at fire
  cases job : sys.writeJob with
  | none => exact ⟨rfl, by simp [sound.active, job]⟩
  | some pending =>
      have fresh := (sound.pending pending (by simp [job])).1 fire.1
      have refused := promised.1 (by simp [job, fresh])
      simp [refused] at fire

/-- A status belongs to the pending job, which has all its words. -/
theorem WriteSound.status
    (sound : WriteSound sys)
    (promised : sys.WritePromised i)
    (status : i.dmaWriteDescStatusValid = true) :
    ∃ job, sys.writeJob = some job ∧ job.complete = true ∧
      job.decoder = sys.top.writeServiceDecoder := by
  have complete := promised.2.1 status
  rw [Option.any_eq_true] at complete
  obtain ⟨job, pending, whole⟩ := complete
  exact ⟨job, pending, whole, (sound.pending job pending).2.1⟩

/-- Without a status the destination of a running slot stays. -/
theorem dst_next
    (slots : SlotsSound sys.top)
    (outside : (i.rst || i.mmioResetPulse) = false)
    {decoder : Decoder config}
    (running : (sys.top.slots decoder).slotState = .run)
    (noStatus : i.dmaWriteDescStatusValid = false) :
    ((JpegTop.step sys.top i).slots decoder).taskDstAddr =
      (sys.top.slots decoder).taskDstAddr := by
  rw [step_slots outside, slotNext_taskDstAddr,
    slots.notAssigned running]
  simp [writeDoneFor, noStatus]

/-- A job after a cycle was accepted in it or was already pending. -/
theorem WriteSound.step
    (sound : WriteSound sys)
    (promised : sys.WritePromised i)
    (notDone :
      dmaWriteDescFire sys.top i = true →
        taskDone sys.top sys.top.dmaWriteDescDecoder = false)
    (outside : (i.rst || i.mmioResetPulse) = false) :
    WriteSound (sys.step i) := by
  have top : (sys.step i).top = JpegTop.step sys.top i := by
    simp [System.step, outside]
  have writeJob : (sys.step i).writeJob = sys.writeJobNext i := by
    simp [System.step, outside]
  refine ⟨?_, ?_, ?_, ?_⟩
  · rw [top]
    exact sound.slots.step i
  · intro valid
    rw [top] at valid ⊢
    cases chosen : dmaWriteChoice sys.top with
    | none => simp [JpegTop.step, outside, chosen] at valid
    | some decoder =>
        have choice := dmaWriteChoice_slot chosen
        have noStatus : i.dmaWriteDescStatusValid = false := by
          by_contra status
          obtain ⟨job, pending, _⟩ :=
            sound.status promised (by simpa using status)
          have active := sound.active
          simp [choice.1, pending] at active
        have decoderNext :
            (JpegTop.step sys.top i).dmaWriteDescDecoder = decoder := by
          simp [JpegTop.step, outside, chosen]
        simp only [decoderNext]
        refine ⟨sound.slots.runsOn outside choice.2.1
          (taskDone_eq_false (.inr (.inl choice.2.2.2))), ?_⟩
        rw [dst_next sound.slots outside choice.2.1 noStatus]
        simp [JpegTop.step, outside, chosen]
  · rw [top, writeJob]
    simp only [JpegTop.step, outside, System.writeJobNext]
    split_ifs <;> simp_all [sound.active]
  · rw [top, writeJob]
    intro job pending
    unfold System.writeJobNext at pending
    split at pending
    · simp at pending
    · split at pending
      · rename_i noStatus fire
        simp only [Option.mem_def, Option.some.injEq] at pending
        subst pending
        have offered := sound.offered (Bool.and_eq_true_iff.mp fire).1
        exact ⟨fun _ => rfl, by simp [JpegTop.step, outside, fire],
          sound.slots.runsOn outside offered.1 (notDone fire)⟩
      · rename_i noStatus noFire
        obtain ⟨before, wasPending, rfl⟩ :=
          Option.map_eq_some_iff.mp pending
        have known := sound.pending before wasPending
        have active : sys.top.writeServiceActive = true := by
          rw [sound.active, wasPending, Option.isSome_some]
        refine ⟨?_, ?_, ?_⟩
        · intro valid
          have silent : dmaWriteChoice sys.top = none := by
            simp [dmaWriteChoice, active]
          simp [JpegTop.step, outside, silent] at valid
        · simp [JpegTop.step, outside, noFire, known.2.1]
        · exact sound.slots.runsOn outside known.2.2
            (taskDone_eq_false (.inr (.inr (.inr active))))

/-- After reset no write is offered and none is in service. -/
theorem writeSound_reset
    (descAssign : Option (Decoder config)) :
    WriteSound { System.start config with top := .reset descAssign } where
  slots := slotsSound_reset descAssign
  offered := by simp [State.reset]
  active := rfl
  pending := by simp [System.start]

/-- A slot keeps its words until they are taken or it is reset. -/
theorem outputWords_next
    (slots : SlotsSound sys.top)
    (outside : (i.rst || i.mmioResetPulse) = false)
    {decoder : Decoder config}
    (free : (sys.top.slots decoder).slotState ≠ .resetHold) :
    (sys.step i).outputWords decoder =
      (if (outputFifoPop sys.top i decoder).isSome then
        (sys.outputWords decoder).tail
      else sys.outputWords decoder) ++
        (i.slots decoder).coreOutPush.toList := by
  simp [System.step, outside, System.outputWordsNext,
    slots.coreRst_eq_false outside free]

/-- A taken word is the first of its FIFO and fits the length. -/
theorem ChunkHeld.taken
    (held : ChunkHeld sys)
    (promised : sys.WritePromised i)
    {keep : Keep config}
    (taken : dmaWriteDataFire sys.top i = some keep) :
    let length := sys.top.dmaWriteDescLen.toNat
    let sent := sys.top.writeChunkBytesSent.toNat
    ∃ job, sys.writeJob = some job ∧
      job.decoder = sys.top.writeServiceDecoder ∧
      job.complete = false ∧
      ∃ rest, sys.outputWords job.decoder = keep :: rest ∧
        sent + axisKeepCount keep ≤ length ∧
        coversWords rest (length - (sent + axisKeepCount keep)) = true ∧
        (dmaWriteDataTlast sys.top keep = true ↔
          sent + axisKeepCount keep = length) := by
  intro length sent
  obtain ⟨active, notDone, shown⟩ := dmaWriteDataFire_active taken
  rw [held.active, Option.isSome_iff_exists] at active
  obtain ⟨job, pending⟩ := active
  have mine := (held.pending job pending).2.1
  obtain ⟨done, left⟩ := held.chunk job pending
  have incomplete : job.complete = false := done.symm.trans notDone
  obtain ⟨inside, covers⟩ := left incomplete
  have first := promised.2.2 sys.top.writeServiceDecoder keep shown
  rw [← mine] at first
  obtain ⟨rest, words⟩ := List.head?_eq_some_iff.mp first
  rw [words] at covers
  obtain ⟨fits, after⟩ := coversWords_cons covers (by omega)
  have whole : sent + axisKeepCount keep ≤ length := by
    omega
  refine ⟨job, pending, mine, incomplete, rest, words, whole, ?_, ?_⟩
  · rwa [Nat.sub_sub] at after
  · have bound := sys.top.dmaWriteDescLen.isLt
    simp only [dmaWriteDataTlast, notDone, Bool.not_false, Bool.true_and,
      beq_iff_eq]
    rw [← BitVec.toNat_inj, BitVec.toNat_add, BitVec.toNat_ofNat,
      Nat.add_mod_mod, Nat.mod_eq_of_lt (by omega)]

/-- The registers of a write that is not reported in this cycle. -/
theorem chunkRegisters_next
    (s : State config)
    (outside : (i.rst || i.mmioResetPulse) = false)
    (noStatus : i.dmaWriteDescStatusValid = false) :
    (JpegTop.step s i).dmaWriteDescLen =
        dmaWriteDescLenNext s ∧
      (JpegTop.step s i).writeChunkBytesSent =
        s.writeChunkBytesSent +
          wordBytes _ (dmaWriteDataFire s i) ∧
      (JpegTop.step s i).writeChunkDataDone =
        (dmaWriteDataLast s i || s.writeChunkDataDone) := by
  cases last : dmaWriteDataLast s i <;>
    simp [JpegTop.step, outside, noStatus, last]

/-- While a write is served its length stays in the register. -/
theorem WriteSound.length_stays
    (sound : WriteSound sys)
    {job : WriteJob config}
    (pending : sys.writeJob = some job) :
    dmaWriteDescLenNext sys.top = sys.top.dmaWriteDescLen := by
  have active : sys.top.writeServiceActive = true := by
    rw [sound.active, pending, Option.isSome_some]
  simp [dmaWriteDescLenNext, dmaWriteChoice, active]

/-- Without a pending write nothing is sent. -/
theorem WriteSound.silent_next
    (sound : WriteSound sys)
    (silent :
      sys.writeJob = none →
        sys.top.writeChunkBytesSent = 0 ∧
          sys.top.writeChunkDataDone = false)
    (outside : (i.rst || i.mmioResetPulse) = false)
    (nothing : sys.writeJobNext i = none) :
    (JpegTop.step sys.top i).writeChunkBytesSent = 0 ∧
      (JpegTop.step sys.top i).writeChunkDataDone = false := by
  unfold System.writeJobNext at nothing
  split at nothing
  · rename_i status
    simp [JpegTop.step, outside, status]
  · rename_i noStatus
    split at nothing
    · simp at nothing
    · rw [Option.map_eq_none_iff] at nothing
      have silent := silent nothing
      have idle : sys.top.writeServiceActive = false := by
        simp [sound.active, nothing]
      have noData : dmaWriteDataFire sys.top i = none := by
        simp [dmaWriteDataFire, idle]
      simp [JpegTop.step, outside, noStatus, silent, noData, wordBytes,
        dmaWriteDataLast]

/-- One cycle keeps the words of a write in the output path. -/
theorem ChunkHeld.chunk_next
    (held : ChunkHeld sys)
    (promised : sys.WritePromised i)
    (chooses : sys.ChoosesHeldWords i)
    (outside : (i.rst || i.mmioResetPulse) = false)
    {job : WriteJob config}
    (pending : job ∈ sys.writeJobNext i) :
    let length := (JpegTop.step sys.top i).dmaWriteDescLen.toNat
    let sent := (JpegTop.step sys.top i).writeChunkBytesSent.toNat
    (JpegTop.step sys.top i).writeChunkDataDone = job.complete ∧
      (job.complete = false →
        sent < length ∧
          coversWords ((sys.step i).outputWords job.decoder)
            (length - sent) = true) := by
  unfold System.writeJobNext at pending
  split at pending
  · simp at pending
  · rename_i noStatus
    obtain ⟨lengthNext, sentNext, doneNext⟩ :=
      chunkRegisters_next sys.top outside (by simpa using noStatus)
    rw [lengthNext, sentNext, doneNext]
    split at pending
    · rename_i fire
      simp only [Option.mem_def, Option.some.injEq] at pending
      subst pending
      have idle := held.fire promised fire
      have silent := held.silent idle.1
      have offered := held.offered (Bool.and_eq_true_iff.mp fire).1
      obtain ⟨positive, covers, -⟩ := chooses fire
      have noData : dmaWriteDataFire sys.top i = none := by
        simp [dmaWriteDataFire, idle.2]
      have noPop : outputFifoPop sys.top i sys.top.dmaWriteDescDecoder =
          none := by
        simp [outputFifoPop, noData]
      rw [outputWords_next held.slots outside (by simp [offered.1]), noPop]
      have nothing : (sys.top.writeChunkBytesSent +
          wordBytes _ (dmaWriteDataFire sys.top i)).toNat = 0 := by
        simp [silent.1, noData, wordBytes]
      simp only [nothing]
      refine ⟨by simp [silent.2, noData, dmaWriteDataLast], fun _ => ?_⟩
      exact ⟨positive, coversWords_append covers _⟩
    · obtain ⟨before, wasPending, rfl⟩ := Option.map_eq_some_iff.mp pending
      have service := held.pending before wasPending
      have words : (sys.step i).outputWords before.decoder = _ :=
        outputWords_next held.slots outside (by simp [service.2.2])
      have pop : outputFifoPop sys.top i before.decoder =
          dmaWriteDataFire sys.top i := by
        simp [outputFifoPop, service.2.1]
      obtain ⟨done, left⟩ := held.chunk before wasPending
      rw [held.length_stays wasPending, done]
      refine ⟨Bool.or_comm _ _, ?_⟩
      rw [pop] at words
      simp only [words]
      cases taken : dmaWriteDataFire sys.top i with
      | none =>
          simp only [dmaWriteDataLast, taken, Option.any_none,
            Bool.or_false, wordBytes, Option.map_none, Option.getD_none,
            BitVec.add_zero, Option.isSome_none, Bool.false_eq_true,
            if_false]
          exact fun incomplete => ⟨(left incomplete).1,
            coversWords_append (left incomplete).2 _⟩
      | some keep =>
          obtain ⟨job, same, _, incomplete, rest, first, inside, covers,
            last⟩ := held.taken promised taken
          rw [wasPending, Option.some.injEq] at same
          subst same
          have bound := sys.top.dmaWriteDescLen.isLt
          have sent : (sys.top.writeChunkBytesSent +
              wordBytes _ (some keep)).toNat =
                sys.top.writeChunkBytesSent.toNat + axisKeepCount keep := by
            simp only [wordBytes, Option.map_some, Option.getD_some]
            rw [BitVec.toNat_add, BitVec.toNat_ofNat, Nat.add_mod_mod,
              Nat.mod_eq_of_lt (by omega)]
          simp only [sent, dmaWriteDataLast, taken, Option.any_some,
            incomplete, Bool.false_or, Option.isSome_some, if_true, first,
            List.tail_cons]
          intro notLast
          refine ⟨lt_of_le_of_ne inside fun reached => ?_,
            coversWords_append covers _⟩
          rw [last.mpr reached] at notLast
          exact Bool.noConfusion notLast

/-- After reset no word is awaited. -/
theorem chunkHeld_reset
    (descAssign : Option (Decoder config)) :
    ChunkHeld { System.start config with top := .reset descAssign } where
  toWriteSound := writeSound_reset descAssign
  silent := fun _ => ⟨rfl, rfl⟩
  chunk := by simp [System.start]

/-- One cycle with a held length keeps the words in the output path. -/
theorem ChunkHeld.step
    (held : ChunkHeld sys)
    (promised : sys.WritePromised i)
    (chooses : sys.ChoosesHeldWords i) :
    ChunkHeld (sys.step i) := by
  cases outside : i.rst || i.mmioResetPulse with
  | true =>
      simpa [System.step, JpegTop.step, outside] using
        chunkHeld_reset (descAssignNext sys.top)
  | false =>
      have top : (sys.step i).top = JpegTop.step sys.top i := by
        simp [System.step, outside]
      have writeJob : (sys.step i).writeJob = sys.writeJobNext i := by
        simp [System.step, outside]
      refine ⟨held.toWriteSound.step promised
        (fun fire => (chooses fire).2.2) outside, ?_, ?_⟩
      · rw [writeJob, top]
        exact held.silent_next held.silent outside
      · rw [writeJob, top]
        intro job pending
        exact held.chunk_next promised chooses outside pending

/-- A write whose book is kept has its words in the output path. -/
theorem WriteKept.held
    (known : WriteKept sys) :
    ChunkHeld sys where
  toWriteSound := known.toWriteSound
  silent := known.silent
  chunk := by
    intro job pending
    obtain ⟨length, bytes, done⟩ := known.kept job pending
    obtain ⟨-, left⟩ := known.sent job pending
    rw [length, ← bytes] at left
    exact ⟨done, left⟩

/-- A kept length ends on a word of its decoder. -/
theorem System.WriteLengthKept.chooses
    (steady : sys.WriteLengthKept i) :
    sys.ChoosesHeldWords i := by
  intro fire
  obtain ⟨same, positive, inside, covers⟩ := steady.1 fire
  refine ⟨by rwa [same], by rwa [same], taskDone_eq_false (.inr (.inl ?_))⟩
  intro zero
  rw [zero] at inside
  exact absurd inside (Nat.not_le.mpr positive)

/-- A taken word is the first of its FIFO and fits the accepted length. -/
theorem WriteKept.taken
    (known : WriteKept sys)
    (promised : sys.WritePromised i)
    {keep : Keep config}
    (taken : dmaWriteDataFire sys.top i = some keep) :
    ∃ job, sys.writeJob = some job ∧
      job.decoder = sys.top.writeServiceDecoder ∧
      job.received + axisKeepCount keep ≤ job.length.toNat ∧
      (dmaWriteDataTlast sys.top keep = true ↔
        job.received + axisKeepCount keep = job.length.toNat) := by
  obtain ⟨job, pending, mine, _, _, _, inside, _, last⟩ :=
    known.held.taken promised taken
  obtain ⟨length, bytes, _⟩ := known.kept job pending
  rw [← length, bytes] at inside last
  exact ⟨job, pending, mine, inside, last⟩

/-- One cycle with a kept length keeps the registers of a write right. -/
theorem WriteKept.kept_next
    (known : WriteKept sys)
    (promised : sys.WritePromised i)
    (steady : sys.WriteLengthKept i)
    (outside : (i.rst || i.mmioResetPulse) = false)
    {job : WriteJob config}
    (pending : job ∈ sys.writeJobNext i) :
    job.length = (JpegTop.step sys.top i).dmaWriteDescLen ∧
      (JpegTop.step sys.top i).writeChunkBytesSent.toNat = job.received ∧
      (job.complete = true → job.received = job.length.toNat) := by
  unfold System.writeJobNext at pending
  split at pending
  · simp at pending
  · rename_i noStatus
    obtain ⟨lengthNext, sentNext, -⟩ :=
      chunkRegisters_next sys.top outside (by simpa using noStatus)
    rw [lengthNext, sentNext]
    split at pending
    · rename_i fire
      simp only [Option.mem_def, Option.some.injEq] at pending
      subst pending
      have idle := known.fire promised fire
      have silent := known.silent idle.1
      have noData : dmaWriteDataFire sys.top i = none := by
        simp [dmaWriteDataFire, idle.2]
      simp [(steady.1 fire).1, silent, noData, wordBytes]
    · obtain ⟨before, wasPending, rfl⟩ := Option.map_eq_some_iff.mp pending
      obtain ⟨length, bytes, -⟩ := known.kept before wasPending
      have whole := (known.sent before wasPending).1
      refine ⟨length.trans (known.length_stays wasPending).symm, ?_⟩
      cases taken : dmaWriteDataFire sys.top i with
      | none =>
          simpa [wordBytes, bytes, dmaWriteDataLast, taken] using whole
      | some keep =>
          obtain ⟨job, same, _, inside, last⟩ :=
            known.taken promised taken
          rw [wasPending, Option.some.injEq] at same
          subst same
          have bound := before.length.isLt
          simp only [wordBytes, Option.map_some, Option.getD_some,
            dmaWriteDataLast, taken, Option.any_some, Bool.or_eq_true]
          constructor
          · rw [BitVec.toNat_add, bytes, BitVec.toNat_ofNat,
              Nat.add_mod_mod, Nat.mod_eq_of_lt (by omega)]
          · rintro (complete | reached)
            · have := whole complete
              omega
            · exact last.mp reached

/-- The write of another slot is none of this slot's. -/
theorem WriteSound.other
    (sound : WriteSound sys)
    (promised : sys.WritePromised i)
    {decoder : Decoder config}
    (other : ∀ job ∈ sys.writeJob, job.decoder ≠ decoder) :
    sys.writing decoder = 0 ∧ writeDoneFor sys.top i decoder = false := by
  constructor
  · unfold System.writing
    split
    · rename_i job pending
      rw [if_neg (other job pending)]
    · rfl
  · by_contra done
    have done : writeDoneFor sys.top i decoder = true := by
      simpa using done
    obtain ⟨job, pending, _, mine⟩ :=
      sound.status promised (Bool.and_eq_true_iff.mp done).1
    exact other job pending (mine.trans (eq_of_writeDoneFor done).symm)

/-- A slot's pending bytes stay without an acceptance or a status. -/
theorem WriteSound.writing_next
    (sound : WriteSound sys)
    (promised : sys.WritePromised i)
    (outside : (i.rst || i.mmioResetPulse) = false)
    {decoder : Decoder config}
    (notDone : writeDoneFor sys.top i decoder = false)
    (notAccepted :
      (dmaWriteDescFire sys.top i &&
        decoder == sys.top.dmaWriteDescDecoder) = false) :
    (sys.step i).writing decoder = sys.writing decoder := by
  have writeJob : (sys.step i).writeJob = sys.writeJobNext i := by
    simp [System.step, outside]
  simp only [System.writing, writeJob, System.writeJobNext]
  split_ifs with status fire
  · obtain ⟨job, pending, _, mine⟩ := sound.status promised status
    have other : job.decoder ≠ decoder := by
      rintro rfl
      simp [writeDoneFor, status, mine] at notDone
    simp [pending, other]
  · have idle := sound.fire promised fire
    have other : sys.top.dmaWriteDescDecoder ≠ decoder := by
      rintro rfl
      simp [fire] at notAccepted
    simp [idle.1, other]
  · cases sys.writeJob <;> rfl

/-- One cycle keeps a slot's destination register and log in agreement. -/
theorem WriteKept.writes_next
    (known : WriteKept sys)
    (promised : sys.WritePromised i)
    (outside : (i.rst || i.mmioResetPulse) = false)
    (decoder : Decoder config) :
    let base : BitVec config.addrWidth :=
      ((sys.taskNext i) decoder).descriptor.dstAddr.setWidth _
    Contiguous base (sys.taskNext i decoder).writes ∧
      writesEnd base (sys.taskNext i decoder).writes =
        (slotNext sys.top i decoder).taskDstAddr +
          ((sys.step i).writing decoder).setWidth _ := by
  have writeJob : (sys.step i).writeJob = sys.writeJobNext i := by
    simp [System.step, outside]
  have before := known.writes decoder
  rw [slotNext_taskDstAddr]
  cases assigned : assignsTo sys.top decoder with
  | true =>
      have idle := known.slots.assignIdle decoder assigned
      have notWriting : ∀ job ∈ sys.writeJob, job.decoder ≠ decoder := by
        rintro job pending rfl
        simp [(known.pending job pending).2.2] at idle
      have other := known.toWriteSound.other promised notWriting
      have notOffered :
          dmaWriteDescFire sys.top i = true →
            sys.top.dmaWriteDescDecoder ≠ decoder := by
        rintro fire rfl
        have offered := known.offered (Bool.and_eq_true_iff.mp fire).1
        simp [offered.1] at idle
      have after : (sys.step i).writing decoder = 0 := by
        simp only [System.writing, writeJob, System.writeJobNext]
        split_ifs with status fire
        · rfl
        · simp [notOffered fire]
        · cases pending : sys.writeJob with
          | none => rfl
          | some job => simp [notWriting job pending]
      simp [System.taskNext, assigned, TaskLog.assigned, Contiguous,
        writesEnd, other.2, after]
  | false =>
      simp only [System.taskNext, assigned, Bool.false_eq_true, if_false]
      cases done : writeDoneFor sys.top i decoder with
      | true =>
          have status := (Bool.and_eq_true_iff.mp done).1
          obtain ⟨job, pending, _, mine⟩ :=
            known.toWriteSound.status promised status
          have same : job.decoder = decoder :=
            mine.trans (eq_of_writeDoneFor done).symm
          have noFire : dmaWriteDescFire sys.top i = false := by
            by_contra fire
            have free := known.fire promised (by simpa using fire)
            simp [pending] at free
          have length := (known.kept job pending).1
          have writing : sys.writing decoder = sys.top.dmaWriteDescLen := by
            simp [System.writing, pending, same, length]
          have after : (sys.step i).writing decoder = 0 := by
            simp [System.writing, writeJob, System.writeJobNext, status]
          rw [writing] at before
          simpa [System.acceptedWrite, noFire, after] using before
      | false =>
          cases accepted : dmaWriteDescFire sys.top i &&
              decoder == sys.top.dmaWriteDescDecoder with
          | true =>
              obtain ⟨fire, mine⟩ := Bool.and_eq_true_iff.mp accepted
              have mine := beq_iff_eq.mp mine
              have idle := known.fire promised fire
              have address :=
                (known.offered (Bool.and_eq_true_iff.mp fire).1).2
              have noStatus : i.dmaWriteDescStatusValid = false := by
                by_contra status
                obtain ⟨job, pending, _⟩ := known.toWriteSound.status
                  promised (by simpa using status)
                simp [idle.1] at pending
              have silentSlot : sys.writing decoder = 0 := by
                simp [System.writing, idle.1]
              have after : (sys.step i).writing decoder =
                  sys.top.dmaWriteDescLen := by
                simp [System.writing, writeJob, System.writeJobNext,
                  noStatus, fire, mine]
              simp only [silentSlot, BitVec.ofNat_eq_ofNat,
                BitVec.setWidth_zero, BitVec.add_zero] at before
              simp only [System.acceptedWrite, accepted, if_true, after,
                contiguous_append, writesEnd_append, before.2]
              exact ⟨⟨before.1, mine ▸ address⟩, rfl⟩
          | false =>
              have same : (sys.step i).writing decoder =
                  sys.writing decoder :=
                known.toWriteSound.writing_next promised outside done
                  accepted
              simpa [System.acceptedWrite, accepted, same] using before

/-- After reset every log starts over. -/
theorem writeKept_reset
    (descAssign : Option (Decoder config)) :
    WriteKept { System.start config with top := .reset descAssign } where
  toWriteSound := writeSound_reset descAssign
  silent := fun _ => ⟨rfl, rfl⟩
  kept := by simp [System.start]
  sent := by simp [System.start]
  writes := by
    simp [System.start, TaskLog.assigned, Contiguous, writesEnd,
      System.writing, State.reset, Slot.reset, Descriptor.reset]

/-- One cycle with a kept length keeps the book right. -/
theorem WriteKept.step
    (known : WriteKept sys)
    (promised : sys.WritePromised i)
    (steady : sys.WriteLengthKept i) :
    WriteKept (sys.step i) := by
  cases outside : i.rst || i.mmioResetPulse with
  | true =>
      simpa [System.step, JpegTop.step, outside] using
        writeKept_reset (descAssignNext sys.top)
  | false =>
      have held := known.held.step promised steady.chooses
      have top : (sys.step i).top = JpegTop.step sys.top i := by
        simp [System.step, outside]
      have writeJob : (sys.step i).writeJob = sys.writeJobNext i := by
        simp [System.step, outside]
      have kept (job : WriteJob config)
          (pending : job ∈ (sys.step i).writeJob) :=
        known.kept_next promised steady outside (writeJob ▸ pending)
      refine ⟨held.toWriteSound, held.silent, ?_, ?_, ?_⟩
      · intro job pending
        rw [top]
        obtain ⟨length, bytes, -⟩ := kept job pending
        exact ⟨length, bytes, top ▸ (held.chunk job pending).1⟩
      · intro job pending
        obtain ⟨length, bytes, whole⟩ := kept job pending
        have left := (held.chunk job pending).2
        rw [top] at left
        rw [length] at whole ⊢
        rw [← bytes] at whole ⊢
        exact ⟨whole, left⟩
      · intro decoder
        have log : (sys.step i).tasks decoder = sys.taskNext i decoder := by
          simp [System.step, outside]
        have slot : (sys.step i).top.slots decoder =
            slotNext sys.top i decoder := by
          simp [System.step, outside, step_slots]
        rw [log, slot]
        exact known.writes_next promised outside decoder

/-- A cycle of a right book is exact. -/
theorem WriteKept.exact
    (known : WriteKept sys)
    (promised : sys.WritePromised i)
    (steady : sys.WriteLengthKept i) :
    sys.WriteExact i := by
  constructor
  · intro keep taken
    exact known.taken promised taken
  · intro outside status
    obtain ⟨job, pending, complete, mine⟩ :=
      known.toWriteSound.status promised status
    have done : writeDoneFor sys.top i job.decoder = true := by
      simp [writeDoneFor, status, mine]
    have length := (known.kept job pending).1
    have inside := steady.2 status
    rw [← mine, ← length] at inside
    have inRange : (job.length.setWidth 32).toNat = job.length.toNat := by
      rw [BitVec.toNat_setWidth,
        Nat.mod_eq_of_lt (inside.trans_lt (BitVec.isLt _))]
    have le : job.length.setWidth 32 ≤
        (sys.top.slots job.decoder).writeBytesRemaining := by
      rw [BitVec.le_def, inRange]
      exact inside
    refine ⟨job, pending, (known.sent job pending).1 complete, ?_, ?_⟩ <;>
      simp only [System.step, outside, Bool.false_eq_true, if_false,
        step_slots outside]
    · rw [slotNext_taskDstAddr, if_pos done, length]
    · rw [slotNext_writeBytesRemaining, if_pos done, ← length,
        BitVec.toNat_sub_of_le le, inRange]
      exact Nat.sub_add_cancel inside

end Writes

/--
In every run in which each accepted write keeps its length on a word boundary
within its image, every word and every status matches the accepted write, and
the writes of every task follow each other from its destination on.
-/
theorem writes_cover_destination
    (config : Config)
    (cycles : List (Input config))
    (promised :
      Along System.step System.WritePromised (System.start config) cycles)
    (kept :
      Along System.step System.WriteLengthKept
        (System.start config) cycles) :
    Along System.step System.WriteExact (System.start config) cycles ∧
      (run System.step (System.start config) cycles).DestinationInOrder := by
  have initially : WriteKept (System.start config) := writeKept_reset none
  have preserved (sys : System config) (i : Input config)
      (known : WriteKept sys)
      (allowed : sys.WritePromised i ∧ sys.WriteLengthKept i) :
      WriteKept (sys.step i) :=
    known.step allowed.1 allowed.2
  exact ⟨along_invariant preserved
      (fun _ _ known allowed => known.exact allowed.1 allowed.2)
      initially (promised.both kept),
    fun decoder => ((run_invariant preserved initially
      (promised.both kept)).writes decoder).1⟩

/-- The core of decoder 0 reports a 2 x 2 image and outputs a full word. -/
def outputCycle (config : Config) (dims : Bool) : Input config :=
  .atFirst config { SlotInput.quiet config with
    coreOutPush := some (BitVec.allOnes _)
    coreDims := if dims then some (2, 2) else none }

/-- The first word of decoder 0 is taken by the DMA engine. -/
def drainCycle (config : Config) : Input config :=
  { Input.atFirst config { SlotInput.quiet config with
      outputFifo := some (BitVec.allOnes _) } with
    dmaWriteDescReady := false }

/-- The DMA engine reports a write. -/
def statusCycle (config : Config) : Input config :=
  { Input.quiet config with dmaWriteDescStatusValid := true }

/-- One word of a 2 x 2 image is written with one descriptor. -/
theorem writes_cover_destination_word :
    Along System.step System.WriteExact (System.start smallConfig)
        (assignCycles smallConfig 8 ++
          [outputCycle smallConfig true, .quiet smallConfig,
            .quiet smallConfig, drainCycle smallConfig,
            statusCycle smallConfig]) ∧
      (run System.step (System.start smallConfig)
        (assignCycles smallConfig 8 ++
          [outputCycle smallConfig true, .quiet smallConfig,
            .quiet smallConfig, drainCycle smallConfig,
            statusCycle smallConfig])).DestinationInOrder :=
  writes_cover_destination smallConfig _ (by decide +kernel)
    (by decide +kernel)

/--
Four bytes are offered, and the core outputs a second word before they are
accepted: eight are chosen in the cycle the four are accepted, so the word
that completes the four carries no last flag.
-/
theorem pushed_word_misses_last :
    ¬ ∀ config cycles,
      Along System.step System.WritePromised (System.start config) cycles →
      Along System.step System.WriteExact (System.start config) cycles ∧
        (run System.step (System.start config)
          cycles).DestinationInOrder := by
  intro claimed
  exact absurd
    (claimed smallConfig
      (assignCycles smallConfig 8 ++
        [outputCycle smallConfig true, outputCycle smallConfig false,
          .quiet smallConfig, drainCycle smallConfig])
      (by decide +kernel)).1
    (by decide +kernel)

end CoreJpeg.JpegTop
