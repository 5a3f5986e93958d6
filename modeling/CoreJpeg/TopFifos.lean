import CoreJpeg.TopWrite

namespace CoreJpeg.JpegTop

open Clocked

/-!
# Do the FIFOs hold what the DMA engine moves?

A read descriptor is sized by the free bytes of an input FIFO and a write
descriptor by the bytes of an output FIFO, so that the shared engine need not
wait for a core.  This module keeps the words of the input FIFOs next to the
counters of the slots.  Room and bytes are reserved in every run, and slots
are assigned with empty FIFOs.  A write still waits for its core when the
length chosen again at its acceptance is not the one of its decoder.
-/

/-- The bytes that the words of a FIFO carry. -/
def wordsBytes {config : Config} : List (Keep config) → Nat
  | [] => 0
  | word :: rest => axisKeepCount word + wordsBytes rest

/-- The system with its input FIFOs and the cores that took a word. -/
structure FedSystem (config : Config) extends System config where
  inputWords : Decoder config → List (Keep config)
  /-- The core took a word since its last reset. -/
  coreFed : Decoder config → Bool

section Property

variable {config : Config}

/-- Bytes of the accepted read for one decoder that are not delivered yet. -/
def System.undelivered (sys : System config) (decoder : Decoder config) :
    Nat :=
  match sys.readJob with
  | some job =>
      if job.decoder = decoder then job.length.toNat - job.delivered else 0
  | none => 0

namespace FedSystem

/-- After reset all FIFOs are empty. -/
def start (config : Config) : FedSystem config where
  toSystem := .start config
  inputWords := fun _ => []
  coreFed := fun _ => false

def inputWordsNext (sys : FedSystem config) (i : Input config)
    (decoder : Decoder config) : List (Keep config) :=
  if coreRst sys.top i decoder then []
  else
    (if (i.slots decoder).coreInPop.isSome then
      (sys.inputWords decoder).tail
    else sys.inputWords decoder) ++
      (inputFifoPush sys.top i decoder).toList

def coreFedNext (sys : FedSystem config) (i : Input config)
    (decoder : Decoder config) : Bool :=
  !coreRst sys.top i decoder &&
    (sys.coreFed decoder || (i.slots decoder).coreInPop.isSome)

/-- One clock edge of the system and its input FIFOs. -/
def step (sys : FedSystem config) (i : Input config) :
    FedSystem config where
  toSystem := sys.toSystem.step i
  inputWords := sys.inputWordsNext i
  coreFed := sys.coreFedNext i

/--
The DMA engine and the output FIFOs keep their promises, the input FIFOs hand
out their words in order, and a core outputs nothing before it took a word.
-/
def Promised (sys : FedSystem config) (i : Input config) : Prop :=
  sys.ReadPromised i ∧ sys.WritePromised i ∧
    ∀ decoder,
      (∀ word ∈ (i.slots decoder).coreInPop,
        (sys.inputWords decoder).head? = some word) ∧
      ((i.slots decoder).coreOutPush.isSome = true →
        sys.coreFed decoder = true)

/--
Each input counter covers the words of its FIFO and leaves room for the bytes
of the accepted read that are still to come.
-/
def ReadsReserved (sys : FedSystem config) : Prop :=
  ∀ decoder,
    let occupied :=
      (sys.top.slots decoder).inputFifoOccupiedLen.toNat
    wordsBytes (sys.inputWords decoder) ≤ occupied ∧
      occupied + sys.undelivered decoder ≤ config.inputFifoDepthBytes

/-- The bytes of a write are in the output path when it is accepted. -/
def WriteHeld (sys : FedSystem config) (i : Input config) : Prop :=
  dmaWriteDescFire sys.top i = true →
    sys.top.dmaWriteDescLen.toNat ≤
      wordsBytes (sys.outputWords sys.top.dmaWriteDescDecoder)

/-- Both FIFOs of a slot are empty at both ends of its assignment. -/
def AssignsEmpty (sys : FedSystem config) (i : Input config) : Prop :=
  ∀ decoder, assignsTo sys.top decoder = true →
    let slot := (sys.step i).top.slots decoder
    sys.inputWords decoder = [] ∧ sys.outputWords decoder = [] ∧
      (sys.step i).inputWords decoder = [] ∧
      (sys.step i).outputWords decoder = [] ∧
      slot.inputFifoOccupiedLen = 0 ∧ slot.outputFifoOccupiedLen = 0

/--
The DMA engine need not wait for a core: the input FIFO of the accepted read
has room for all words to come, and the words of the accepted write up to the
one with the last flag are in the output path.
-/
def EngineFree (sys : FedSystem config) : Prop :=
  (∀ job ∈ sys.readJob,
    wordsBytes (sys.inputWords job.decoder) +
      (job.length.toNat - job.delivered) ≤ config.inputFifoDepthBytes) ∧
  ∀ job ∈ sys.writeJob, job.complete = false →
    let length := sys.top.dmaWriteDescLen.toNat
    let sent := sys.top.writeChunkBytesSent.toNat
    sent < length ∧
      coversWords (sys.outputWords job.decoder) (length - sent) = true

instance (sys : FedSystem config) (i : Input config) :
    Decidable (sys.Promised i) := by
  unfold Promised
  infer_instance

instance (sys : FedSystem config) : Decidable sys.ReadsReserved := by
  unfold ReadsReserved
  infer_instance

instance (sys : FedSystem config) (i : Input config) :
    Decidable (sys.WriteHeld i) := by
  unfold WriteHeld
  infer_instance

instance (sys : FedSystem config) (i : Input config) :
    Decidable (sys.AssignsEmpty i) := by
  unfold AssignsEmpty
  infer_instance

instance (sys : FedSystem config) : Decidable sys.EngineFree := by
  unfold EngineFree
  exact @instDecidableAnd _ _ (Option.decidableForallMem _) inferInstance

end FedSystem

end Property

/-! ## Words and counters -/

section Words

variable {config : Config}

theorem wordsBytes_append
    (words more : List (Keep config)) :
    wordsBytes (words ++ more) = wordsBytes words + wordsBytes more := by
  induction words with
  | nil =>
      simp [wordsBytes]
  | cons word rest inductionHypothesis =>
      simp [wordsBytes, inductionHypothesis, Nat.add_assoc]

theorem wordsBytes_toList
    (word : Option (Keep config)) :
    wordsBytes word.toList = (word.map axisKeepCount).getD 0 := by
  cases word <;> simp [wordsBytes]

/-- A FIFO hands out its first word. -/
theorem wordsBytes_pop
    {words : List (Keep config)}
    {popped : Option (Keep config)}
    (first : ∀ word ∈ popped, words.head? = some word) :
    wordsBytes (if popped.isSome then words.tail else words) +
        (popped.map axisKeepCount).getD 0 =
      wordsBytes words := by
  cases popped with
  | none => simp
  | some word =>
      obtain ⟨rest, shape⟩ := List.head?_eq_some_iff.mp (first word rfl)
      rw [shape, wordsBytes]
      simp [Nat.add_comm]

/-- A counter without overflow. -/
theorem toNat_counter
    {width : Nat}
    (counter : BitVec width)
    (push pop : Nat)
    (fits : counter.toNat + push < 2 ^ width)
    (held : pop ≤ counter.toNat + push) :
    (counter + BitVec.ofNat width push - BitVec.ofNat width pop).toNat =
      counter.toNat + push - pop := by
  have pushed :
      (counter + BitVec.ofNat width push).toNat = counter.toNat + push := by
    rw [BitVec.toNat_add, BitVec.toNat_ofNat, Nat.add_mod_mod,
      Nat.mod_eq_of_lt fits]
  have popped : (BitVec.ofNat width pop).toNat = pop := by
    rw [BitVec.toNat_ofNat, Nat.mod_eq_of_lt (by omega)]
  have le : BitVec.ofNat width pop ≤ counter + BitVec.ofNat width push := by
    rw [BitVec.le_def, pushed, popped]
    exact held
  rw [BitVec.toNat_sub_of_le le, pushed, popped]

/-- The counter of an input FIFO can hold its depth. -/
theorem inputFifoDepthBytes_lt (config : Config) :
    config.inputFifoDepthBytes < 2 ^ config.inputOccWidth := by
  have room := le_two_pow_clog2 config.inputFifoDepthBytes
  have positive := Nat.two_pow_pos (clog2 config.inputFifoDepthBytes)
  rw [Config.inputOccWidth, Nat.pow_succ]
  omega

/-- A read is not longer than the bytes that are free. -/
theorem readLen_le_free
    (slot : Slot config)
    (inside :
      slot.inputFifoOccupiedLen.toNat ≤ config.inputFifoDepthBytes) :
    (readLen slot).toNat ≤
      config.inputFifoDepthBytes - slot.inputFifoOccupiedLen.toNat := by
  have free : (inputFifoFreeBytes slot).toNat ≤
      config.inputFifoDepthBytes - slot.inputFifoOccupiedLen.toNat := by
    have masked : (inputFifoFreeBytes slot).toNat ≤
        (BitVec.ofNat 32 config.inputFifoDepthBytes -
          slot.inputFifoOccupiedLen.setWidth 32).toNat := by
      rw [inputFifoFreeBytes, BitVec.toNat_setWidth, BitVec.toNat_and]
      exact (Nat.mod_le _ _).trans Nat.and_le_left
    rw [BitVec.toNat_sub, BitVec.toNat_ofNat, BitVec.toNat_setWidth] at masked
    omega
  rw [readLen]
  split
  · rw [BitVec.toNat_setWidth]
    exact (Nat.mod_le _ _).trans free
  · rename_i large
    rw [BitVec.toNat_setWidth]
    exact (Nat.mod_le _ _).trans ((Nat.not_lt.mp large).trans free)

end Words

/-! ## Reserved room and bytes -/

/-- The invariant of the FIFOs in every run. -/
structure FifosSound {config : Config} (sys : FedSystem config) : Prop where
  reads : ReadSound sys.toSystem
  pulse :
    ∀ decoder, (sys.top.slots decoder).slotState = .resetHold →
      (sys.top.slots decoder).coreResetPulse = true
  empty :
    ∀ decoder, (sys.top.slots decoder).slotState = .idle →
      sys.inputWords decoder = [] ∧ sys.outputWords decoder = [] ∧
        sys.coreFed decoder = false
  reserved : sys.ReadsReserved
  offeredRead :
    sys.top.dmaReadDescValid = true → sys.readJob = none →
      (sys.top.slots sys.top.dmaReadDecoder).inputFifoOccupiedLen.toNat +
          sys.top.dmaReadDescLen.toNat ≤
        config.inputFifoDepthBytes
  active : sys.top.writeServiceActive = sys.writeJob.isSome
  fresh :
    ∀ job ∈ sys.writeJob,
      sys.top.dmaWriteDescValid = true → job.fresh = true
  counted :
    ∀ decoder, (sys.top.slots decoder).slotState = .run →
      (sys.top.slots decoder).outputFifoOccupiedLen =
        BitVec.ofNat _ (wordsBytes (sys.outputWords decoder))
  offeredWrite :
    sys.top.dmaWriteDescValid = true → sys.writeJob = none →
      sys.top.dmaWriteDescLen.toNat ≤
        wordsBytes (sys.outputWords sys.top.dmaWriteDescDecoder)

section Fifos

variable {config : Config} {sys : FedSystem config} {i : Input config}
variable {decoder : Decoder config}

theorem fifosSound_reset
    (descAssign : Option (Decoder config)) :
    FifosSound { FedSystem.start config with top := .reset descAssign } where
  reads := readSound_reset descAssign
  pulse := by simp [State.reset, Slot.reset]
  empty := by simp [FedSystem.start, System.start]
  reserved := by
    intro decoder
    simp [FedSystem.start, System.start, State.reset, Slot.reset,
      wordsBytes, System.undelivered]
  offeredRead := by simp [State.reset]
  active := rfl
  fresh := by simp [FedSystem.start, System.start]
  counted := by simp [State.reset, Slot.reset]
  offeredWrite := by simp [State.reset]

/-- The words of an idle slot do not move. -/
theorem FifosSound.idle_pins
    (sound : FifosSound sys)
    (promised : sys.Promised i)
    (idle : (sys.top.slots decoder).slotState = .idle) :
    inputFifoPush sys.top i decoder = none ∧
      (i.slots decoder).coreInPop = none ∧
      (i.slots decoder).coreOutPush = none := by
  obtain ⟨noInput, -, unfed⟩ := sound.empty decoder idle
  obtain ⟨pops, pushes⟩ := promised.2.2 decoder
  refine ⟨?_, ?_, ?_⟩
  · refine (sound.reads.delivered_other (i := i) ?_).1
    rintro job pending rfl
    rw [(sound.reads.pending job pending).2.2] at idle
    cases idle
  · cases popped : (i.slots decoder).coreInPop with
    | none => rfl
    | some word =>
        have first := pops word (by rw [popped]; rfl)
        rw [noInput] at first
        cases first
  · cases pushed : (i.slots decoder).coreOutPush with
    | none => rfl
    | some word =>
        have fed := pushes (by rw [pushed]; rfl)
        rw [unfed] at fed
        cases fed

/-- The words of an idle slot stay away. -/
theorem FifosSound.idle_next
    (sound : FifosSound sys)
    (promised : sys.Promised i)
    (outside : (i.rst || i.mmioResetPulse) = false)
    (idle : (sys.top.slots decoder).slotState = .idle) :
    (sys.step i).inputWords decoder = [] ∧
      (sys.step i).outputWords decoder = [] ∧
      (sys.step i).coreFed decoder = false := by
  obtain ⟨noInput, noOutput, unfed⟩ := sound.empty decoder idle
  obtain ⟨noPush, noPop, noOut⟩ := sound.idle_pins promised idle
  refine ⟨?_, ?_, ?_⟩
  · simp [FedSystem.step, FedSystem.inputWordsNext, noInput, noPush]
  · simp [FedSystem.step, System.step, outside, System.outputWordsNext,
      noOutput, noOut]
  · simp [FedSystem.step, FedSystem.coreFedNext, unfed, noPop]

/-- No byte is outstanding for an idle slot. -/
theorem FifosSound.undelivered_idle
    (sound : FifosSound sys)
    (idle : (sys.top.slots decoder).slotState = .idle) :
    sys.undelivered decoder = 0 := by
  rw [System.undelivered]
  split
  · rename_i job pending
    rw [if_neg]
    rintro rfl
    rw [(sound.reads.pending job pending).2.2] at idle
    cases idle
  · rfl

/-- Delivered bytes are no longer outstanding. -/
theorem FifosSound.undelivered_next
    (sound : FifosSound sys)
    (promised : sys.Promised i)
    (outside : (i.rst || i.mmioResetPulse) = false)
    (noFire : dmaReadDescFire sys.top i = false)
    (decoder : Decoder config) :
    (sys.step i).undelivered decoder + deliveredBytes sys.top i decoder ≤
      sys.undelivered decoder := by
  have readJob : (sys.step i).readJob = sys.readJobNext i := by
    simp [FedSystem.step, System.step, outside]
  by_cases mine : ∃ job, sys.readJob = some job ∧ job.decoder = decoder
  · obtain ⟨job, pending, rfl⟩ := mine
    have served := (sound.reads.pending job pending).2.1
    have bytes : deliveredBytes sys.top i job.decoder =
        ((dmaReadDataFire sys.top i).map fun word =>
          axisKeepCount word.1).getD 0 := by
      rw [deliveredBytes, inputFifoPush_eq, if_pos served, Option.map_map]
      rfl
    have inside : job.delivered + deliveredBytes sys.top i job.decoder ≤
          job.length.toNat ∨
        deliveredBytes sys.top i job.decoder = 0 := by
      cases taken : dmaReadDataFire sys.top i with
      | none => exact .inr (by simp [bytes, taken])
      | some word =>
          obtain ⟨same, isPending, -, fits, -⟩ :=
            sound.reads.taken promised.1 taken
          rw [pending, Option.some.injEq] at isPending
          subst isPending
          exact .inl (by simpa [bytes, taken] using fits)
    simp only [System.undelivered, readJob, System.readJobNext, pending,
      noFire, Bool.false_eq_true, if_false, if_true]
    split
    · rename_i last later
      split at later
      · cases later
      · simp only [Option.map_some, Option.some.injEq] at later
        subst later
        rw [if_pos rfl, ← bytes]
        show job.length.toNat -
            (job.delivered + deliveredBytes sys.top i job.decoder) + _ ≤ _
        omega
    · omega
  · have other : ∀ job ∈ sys.readJob, job.decoder ≠ decoder :=
      fun job pending same => mine ⟨job, pending, same⟩
    have nothing : deliveredBytes sys.top i decoder = 0 := by
      rw [deliveredBytes, (sound.reads.delivered_other other).1]
      rfl
    have after : (sys.step i).undelivered decoder = 0 := by
      simp only [System.undelivered, readJob, System.readJobNext, noFire,
        Bool.false_eq_true, if_false]
      split
      · rename_i job pending
        split at pending
        · cases pending
        · obtain ⟨before, wasPending, rfl⟩ :=
            Option.map_eq_some_iff.mp pending
          rw [if_neg (other before wasPending)]
      · rfl
    omega

/-- An accepted read is outstanding for its decoder. -/
theorem FifosSound.undelivered_fire
    (sound : FifosSound sys)
    (promised : sys.Promised i)
    (outside : (i.rst || i.mmioResetPulse) = false)
    (fire : dmaReadDescFire sys.top i = true)
    (decoder : Decoder config) :
    deliveredBytes sys.top i decoder = 0 ∧
      (sys.step i).undelivered decoder =
        if sys.top.dmaReadDecoder = decoder then
          sys.top.dmaReadDescLen.toNat
        else 0 := by
  obtain ⟨idle, inactive⟩ := sound.reads.fire promised.1 fire
  have noData : dmaReadDataFire sys.top i = none := by
    simp [dmaReadDataFire, inactive]
  constructor
  · simp [deliveredBytes, inputFifoPush_eq, noData]
  · simp [System.undelivered, FedSystem.step, System.step, outside,
      System.readJobNext, dmaReadDataLast, noData, fire]

/-- The counter of an input FIFO whose slot is not assigned. -/
theorem FifosSound.inputCounter_next
    (sound : FifosSound sys)
    (promised : sys.Promised i)
    (outside : (i.rst || i.mmioResetPulse) = false)
    (notAssigned : assignsTo sys.top decoder = false)
    (fits : deliveredBytes sys.top i decoder ≤ sys.undelivered decoder) :
    ((sys.step i).top.slots decoder).inputFifoOccupiedLen.toNat +
        ((i.slots decoder).coreInPop.map axisKeepCount).getD 0 =
      (sys.top.slots decoder).inputFifoOccupiedLen.toNat +
        deliveredBytes sys.top i decoder := by
  obtain ⟨held, room⟩ := sound.reserved decoder
  have popped := wordsBytes_pop (promised.2.2 decoder).1
  have wide := inputFifoDepthBytes_lt config
  have slot : (sys.step i).top.slots decoder = slotNext sys.top i decoder := by
    simp [FedSystem.step, System.step, outside, step_slots]
  rw [slot, slotNext_inputFifoOccupiedLen, notAssigned,
    if_neg (by simp), wordBytes, wordBytes]
  have next := toNat_counter
    (sys.top.slots decoder).inputFifoOccupiedLen
    (deliveredBytes sys.top i decoder)
    (((i.slots decoder).coreInPop.map axisKeepCount).getD 0)
    (by omega) (by omega)
  rw [deliveredBytes] at next ⊢
  rw [next]
  omega

/-- One cycle keeps the room of the input FIFOs reserved. -/
theorem FifosSound.reserved_next
    (sound : FifosSound sys)
    (promised : sys.Promised i)
    (outside : (i.rst || i.mmioResetPulse) = false) :
    (sys.step i).ReadsReserved := by
  intro decoder
  obtain ⟨held, room⟩ := sound.reserved decoder
  have slot : (sys.step i).top.slots decoder = slotNext sys.top i decoder := by
    simp [FedSystem.step, System.step, outside, step_slots]
  cases assigned : assignsTo sys.top decoder with
  | true =>
      have idle := sound.reads.slots.assignIdle decoder assigned
      have words := (sound.idle_next promised outside idle).1
      have counter :
          ((sys.step i).top.slots decoder).inputFifoOccupiedLen = 0 := by
        rw [slot, slotNext_inputFifoOccupiedLen, if_pos assigned]
      have nothing : (sys.step i).undelivered decoder = 0 := by
        cases fire : dmaReadDescFire sys.top i with
        | false =>
            have left :=
              sound.undelivered_next promised outside fire decoder
            rw [sound.undelivered_idle idle] at left
            omega
        | true =>
            rw [(sound.undelivered_fire promised outside fire decoder).2,
              if_neg]
            rintro rfl
            have offered := sound.reads.offered
              (Bool.and_eq_true_iff.mp fire).1
            rw [offered.1] at idle
            cases idle
      simp only [words, counter, nothing]
      exact ⟨Nat.le_refl 0, Nat.zero_le _⟩
  | false =>
      have words : wordsBytes ((sys.step i).inputWords decoder) ≤
          wordsBytes (if (i.slots decoder).coreInPop.isSome then
              (sys.inputWords decoder).tail
            else sys.inputWords decoder) +
            deliveredBytes sys.top i decoder := by
        show wordsBytes (sys.inputWordsNext i decoder) ≤ _
        rw [FedSystem.inputWordsNext]
        split
        · exact Nat.zero_le _
        · rw [wordsBytes_append, wordsBytes_toList, deliveredBytes]
      have popped := wordsBytes_pop (promised.2.2 decoder).1
      cases fire : dmaReadDescFire sys.top i with
      | false =>
          have left := sound.undelivered_next promised outside fire decoder
          have counter := sound.inputCounter_next promised outside assigned
            (by omega)
          simp only
          omega
      | true =>
          obtain ⟨nothing, left⟩ :=
            sound.undelivered_fire promised outside fire decoder
          have counter := sound.inputCounter_next promised outside assigned
            (by omega)
          have free := (sound.reads.fire promised.1 fire).1
          have offered := sound.offeredRead
            (Bool.and_eq_true_iff.mp fire).1 free
          simp only [left]
          refine ⟨by omega, ?_⟩
          split
          · rename_i mine
            subst mine
            omega
          · omega

/-- A chosen read fits the free bytes when it is offered. -/
theorem FifosSound.offeredRead_next
    (sound : FifosSound sys)
    (promised : sys.Promised i)
    (outside : (i.rst || i.mmioResetPulse) = false)
    (valid : (sys.step i).top.dmaReadDescValid = true) :
    ((sys.step i).top.slots
          (sys.step i).top.dmaReadDecoder).inputFifoOccupiedLen.toNat +
        (sys.step i).top.dmaReadDescLen.toNat ≤
      config.inputFifoDepthBytes := by
  have top : (sys.step i).top = JpegTop.step sys.top i := by
    simp [FedSystem.step, System.step, outside]
  cases chosen : dmaReadChoice sys.top with
  | none => simp [top, JpegTop.step, outside, chosen] at valid
  | some decoder =>
      have choice := dmaReadChoice_slot chosen
      obtain ⟨-, room⟩ := sound.reserved decoder
      have length := readLen_le_free (sys.top.slots decoder) (by omega)
      have noData : dmaReadDataFire sys.top i = none := by
        simp [dmaReadDataFire, choice.1]
      have nothing : deliveredBytes sys.top i decoder = 0 := by
        simp [deliveredBytes, inputFifoPush_eq, noData]
      have counter := sound.inputCounter_next promised outside
        (sound.reads.slots.notAssigned choice.2.1) (by omega)
      have decoderNext : (sys.step i).top.dmaReadDecoder = decoder := by
        simp [top, JpegTop.step, outside, chosen]
      have lengthNext : (sys.step i).top.dmaReadDescLen =
          readLen (sys.top.slots decoder) := by
        simp [top, JpegTop.step, outside, dmaReadDescLenNext, chosen]
      rw [decoderNext, lengthNext]
      omega

/-- The words of an output FIFO that is not reset. -/
theorem FifosSound.outputWords_bytes
    (sound : FifosSound sys)
    (promised : sys.Promised i)
    (outside : (i.rst || i.mmioResetPulse) = false)
    (running : (sys.top.slots decoder).slotState = .run) :
    wordsBytes ((sys.step i).outputWords decoder) +
        ((outputFifoPop sys.top i decoder).map axisKeepCount).getD 0 =
      wordsBytes (sys.outputWords decoder) +
        ((i.slots decoder).coreOutPush.map axisKeepCount).getD 0 := by
  have first : ∀ word ∈ outputFifoPop sys.top i decoder,
      (sys.outputWords decoder).head? = some word := by
    intro word popped
    rw [outputFifoPop] at popped
    split at popped
    · rename_i served
      have shown := (dmaWriteDataFire_active popped).2.2
      rw [← beq_iff_eq.mp served] at shown
      exact promised.2.1.2.2 decoder word shown
    · cases popped
  have popped := wordsBytes_pop first
  have words : (sys.step i).outputWords decoder = _ :=
    outputWords_next sound.reads.slots outside (by simp [running])
  rw [words, wordsBytes_append, wordsBytes_toList]
  omega

/-- One cycle keeps the counter of a running slot's output FIFO. -/
theorem FifosSound.counted_next
    (sound : FifosSound sys)
    (promised : sys.Promised i)
    (outside : (i.rst || i.mmioResetPulse) = false)
    (runs : ((sys.step i).top.slots decoder).slotState = .run) :
    ((sys.step i).top.slots decoder).outputFifoOccupiedLen =
      BitVec.ofNat _ (wordsBytes ((sys.step i).outputWords decoder)) := by
  have slot : (sys.step i).top.slots decoder = slotNext sys.top i decoder := by
    simp [FedSystem.step, System.step, outside, step_slots]
  rw [slot] at runs ⊢
  rw [slotNext_slotState] at runs
  rw [slotNext_outputFifoOccupiedLen]
  cases assigned : assignsTo sys.top decoder with
  | true =>
      have idle := sound.reads.slots.assignIdle decoder assigned
      rw [if_pos rfl, (sound.idle_next promised outside idle).2.1]
      rfl
  | false =>
      rw [assigned, if_neg (by simp)] at runs
      have running : (sys.top.slots decoder).slotState = .run := by
        rw [slotStateLoop] at runs
        split at runs
        · cases runs
        · cases state : (sys.top.slots decoder).slotState <;> simp_all
      have bytes := sound.outputWords_bytes promised outside running
      rw [if_neg (by simp), sound.counted decoder running, wordBytes,
        wordBytes, ← BitVec.ofNat_add, ← bytes, BitVec.ofNat_add,
        BitVec.add_sub_cancel]

/-- A chosen write fits the bytes in the output path when it is offered. -/
theorem FifosSound.offeredWrite_next
    (sound : FifosSound sys)
    (promised : sys.Promised i)
    (outside : (i.rst || i.mmioResetPulse) = false)
    (valid : (sys.step i).top.dmaWriteDescValid = true) :
    (sys.step i).top.dmaWriteDescLen.toNat ≤
      wordsBytes ((sys.step i).outputWords
        (sys.step i).top.dmaWriteDescDecoder) := by
  have top : (sys.step i).top = JpegTop.step sys.top i := by
    simp [FedSystem.step, System.step, outside]
  cases chosen : dmaWriteChoice sys.top with
  | none => simp [top, JpegTop.step, outside, chosen] at valid
  | some decoder =>
      have choice := dmaWriteChoice_slot chosen
      have noPop : outputFifoPop sys.top i decoder = none := by
        simp [outputFifoPop, dmaWriteDataFire, choice.1]
      have bytes := sound.outputWords_bytes promised outside choice.2.1
      rw [noPop] at bytes
      have length := writeLen_le_output (sys.top.slots decoder)
      rw [sound.counted decoder choice.2.1, BitVec.toNat_ofNat] at length
      have counter := Nat.mod_le (wordsBytes (sys.outputWords decoder))
        (2 ^ config.outputOccWidth)
      have decoderNext : (sys.step i).top.dmaWriteDescDecoder = decoder := by
        simp [top, JpegTop.step, outside, chosen]
      have lengthNext : (sys.step i).top.dmaWriteDescLen =
          writeLen (sys.top.slots decoder) := by
        simp [top, JpegTop.step, outside, dmaWriteDescLenNext, chosen]
      rw [decoderNext, lengthNext]
      simp only [Option.map_none, Option.getD_none] at bytes
      omega

/-- A slot that becomes idle has been reset. -/
theorem FifosSound.empty_next
    (sound : FifosSound sys)
    (promised : sys.Promised i)
    (outside : (i.rst || i.mmioResetPulse) = false)
    (idle : ((sys.step i).top.slots decoder).slotState = .idle) :
    (sys.step i).inputWords decoder = [] ∧
      (sys.step i).outputWords decoder = [] ∧
      (sys.step i).coreFed decoder = false := by
  have slot : (sys.step i).top.slots decoder = slotNext sys.top i decoder := by
    simp [FedSystem.step, System.step, outside, step_slots]
  rw [slot, slotNext_slotState] at idle
  split at idle
  · cases idle
  · rw [slotStateLoop] at idle
    split at idle
    · cases idle
    · cases state : (sys.top.slots decoder).slotState with
      | idle => exact sound.idle_next promised outside state
      | resetHold =>
          have pulse : coreRst sys.top i decoder = true := by
            simp [coreRst, sound.pulse decoder state]
          simp [FedSystem.step, FedSystem.inputWordsNext,
            FedSystem.coreFedNext, System.step, outside,
            System.outputWordsNext, pulse]
      | run => simp [state] at idle
      | resetPulse => simp [state] at idle

/-- A held slot has its core in reset. -/
theorem FifosSound.pulse_next
    (outside : (i.rst || i.mmioResetPulse) = false)
    (hold : ((sys.step i).top.slots decoder).slotState = .resetHold) :
    ((sys.step i).top.slots decoder).coreResetPulse = true := by
  have slot : (sys.step i).top.slots decoder = slotNext sys.top i decoder := by
    simp [FedSystem.step, System.step, outside, step_slots]
  rw [slot] at hold ⊢
  rw [slotNext_slotState, slotStateLoop] at hold
  rw [slotNext_coreResetPulse]
  split_ifs at hold
  cases state : (sys.top.slots decoder).slotState <;> simp_all

/-- An offered write has no job or one that was just accepted. -/
theorem FifosSound.fresh_next
    (sound : FifosSound sys)
    (outside : (i.rst || i.mmioResetPulse) = false)
    {job : WriteJob config}
    (pending : job ∈ (sys.step i).writeJob)
    (valid : (sys.step i).top.dmaWriteDescValid = true) :
    job.fresh = true := by
  have writeJob : (sys.step i).writeJob = sys.writeJobNext i := by
    simp [FedSystem.step, System.step, outside]
  rw [writeJob, System.writeJobNext] at pending
  split_ifs at pending
  · cases pending
  · cases pending
    rfl
  · obtain ⟨before, wasPending, -⟩ := Option.map_eq_some_iff.mp pending
    have active : sys.top.writeServiceActive = true := by
      rw [sound.active, wasPending, Option.isSome_some]
    have silent : dmaWriteChoice sys.top = none := by
      simp [dmaWriteChoice, active]
    simp [FedSystem.step, System.step, JpegTop.step, outside,
      silent] at valid

/-- One cycle keeps the FIFOs sound. -/
theorem FifosSound.step
    (sound : FifosSound sys)
    (promised : sys.Promised i) :
    FifosSound (sys.step i) := by
  cases outside : i.rst || i.mmioResetPulse with
  | true =>
      have reset : sys.step i = { FedSystem.start config with
          top := .reset (descAssignNext sys.top) } := by
        simp [FedSystem.step, FedSystem.start, System.step, JpegTop.step,
          outside, funext_iff, FedSystem.inputWordsNext,
          FedSystem.coreFedNext, coreRst]
      rw [reset]
      exact fifosSound_reset _
  | false =>
      have active :
          (sys.step i).top.writeServiceActive =
            (sys.step i).writeJob.isSome := by
        simp only [FedSystem.step, System.step, JpegTop.step, outside,
          System.writeJobNext]
        split_ifs <;> simp_all [sound.active]
      exact {
        reads := sound.reads.step i
        pulse := fun _ => FifosSound.pulse_next outside
        empty := fun _ => sound.empty_next promised outside
        reserved := sound.reserved_next promised outside
        offeredRead := fun valid _ =>
          sound.offeredRead_next promised outside valid
        active
        fresh := fun _ pending => sound.fresh_next outside pending
        counted := fun _ => sound.counted_next promised outside
        offeredWrite := fun valid _ =>
          sound.offeredWrite_next promised outside valid }

/-- The bytes of an accepted write are in the output path. -/
theorem FifosSound.writeHeld
    (sound : FifosSound sys)
    (promised : sys.Promised i) :
    sys.WriteHeld i := by
  intro fire
  obtain ⟨valid, ready⟩ := Bool.and_eq_true_iff.mp fire
  refine sound.offeredWrite valid ?_
  cases pending : sys.writeJob with
  | none => rfl
  | some job =>
      have fresh := sound.fresh job pending valid
      have refused := promised.2.1.1 (by simp [pending, fresh])
      rw [ready] at refused
      cases refused

/-- A slot is assigned with empty FIFOs. -/
theorem FifosSound.assignsEmpty
    (sound : FifosSound sys)
    (promised : sys.Promised i) :
    sys.AssignsEmpty i := by
  intro decoder assigned slot
  have idle := sound.reads.slots.assignIdle decoder assigned
  obtain ⟨noInput, noOutput, -⟩ := sound.empty decoder idle
  refine ⟨noInput, noOutput, ?_⟩
  cases outside : i.rst || i.mmioResetPulse with
  | true =>
      simp [slot, FedSystem.step, FedSystem.inputWordsNext, System.step,
        System.start, JpegTop.step, State.reset, Slot.reset, outside,
        coreRst]
  | false =>
      have after := sound.idle_next promised outside idle
      have same : slot = slotNext sys.top i decoder := by
        simp [slot, FedSystem.step, System.step, outside, step_slots]
      refine ⟨after.1, after.2.1, ?_, ?_⟩
      · rw [same, slotNext_inputFifoOccupiedLen, if_pos assigned]
      · rw [same, slotNext_outputFifoOccupiedLen, if_pos assigned]

/-- Reserved room and held words leave the engine free. -/
theorem FifosSound.engineFree
    (sound : FifosSound sys)
    (held : ChunkHeld sys.toSystem) :
    sys.EngineFree := by
  constructor
  · intro job pending
    obtain ⟨words, room⟩ := sound.reserved job.decoder
    have outstanding : sys.undelivered job.decoder =
        job.length.toNat - job.delivered := by
      simp [System.undelivered, Option.mem_def.mp pending]
    omega
  · exact fun job pending => (held.chunk job pending).2

end Fifos

/--
In every run the input FIFOs keep room for the accepted reads, the bytes of an
accepted write are in the output path, and slots are assigned with empty FIFOs.
If each length chosen again at an acceptance ends on a word of its decoder,
the DMA engine never waits for a core.
-/
theorem fifos_serve_engine
    (config : Config)
    (cycles : List (Input config))
    (promised :
      Along FedSystem.step FedSystem.Promised (FedSystem.start config)
        cycles) :
    Along FedSystem.step
        (fun sys i => sys.ReadsReserved ∧ sys.WriteHeld i ∧
          sys.AssignsEmpty i)
        (FedSystem.start config) cycles ∧
      (run FedSystem.step (FedSystem.start config) cycles).ReadsReserved ∧
      (Along FedSystem.step (fun sys i => sys.ChoosesHeldWords i)
          (FedSystem.start config) cycles →
        Along FedSystem.step (fun sys _ => sys.EngineFree)
            (FedSystem.start config) cycles ∧
          (run FedSystem.step (FedSystem.start config)
            cycles).EngineFree) := by
  have initially : FifosSound (FedSystem.start config) :=
    fifosSound_reset none
  have preserved (sys : FedSystem config) (i : Input config)
      (sound : FifosSound sys) (allowed : sys.Promised i) :
      FifosSound (sys.step i) :=
    sound.step allowed
  refine ⟨along_invariant preserved
      (fun _ _ sound allowed => ⟨sound.reserved, sound.writeHeld allowed,
        sound.assignsEmpty allowed⟩) initially promised,
    (run_invariant preserved initially promised).reserved, ?_⟩
  intro chooses
  have bothInitially : FifosSound (FedSystem.start config) ∧
      ChunkHeld (FedSystem.start config).toSystem :=
    ⟨initially, chunkHeld_reset none⟩
  have bothPreserved (sys : FedSystem config) (i : Input config)
      (known : FifosSound sys ∧ ChunkHeld sys.toSystem)
      (allowed : sys.Promised i ∧ sys.ChoosesHeldWords i) :
      FifosSound (sys.step i) ∧ ChunkHeld (sys.step i).toSystem :=
    ⟨known.1.step allowed.1, known.2.step allowed.1.2.1 allowed.2⟩
  obtain ⟨sound, held⟩ := run_invariant bothPreserved bothInitially
    (promised.both chooses)
  exact ⟨along_invariant bothPreserved
      (fun _ _ known _ => known.1.engineFree known.2) bothInitially
      (promised.both chooses), sound.engineFree held⟩

/-- Eight source bytes are read and one word of a 2 x 2 image is written. -/
def servedCycles : List (Input smallConfig) :=
  assignCycles smallConfig 8 ++
    [.quiet smallConfig, .quiet smallConfig, readWord smallConfig false,
      readWord smallConfig true, popWord smallConfig,
      outputCycle smallConfig true, .quiet smallConfig, .quiet smallConfig,
      drainCycle smallConfig, statusCycle smallConfig]

/-- The engine need not wait while it serves one decoder. -/
theorem fifos_serve_engine_word :
    Along FedSystem.step
        (fun sys i => sys.ReadsReserved ∧ sys.WriteHeld i ∧
          sys.AssignsEmpty i)
        (FedSystem.start smallConfig) servedCycles ∧
      (run FedSystem.step (FedSystem.start smallConfig)
        servedCycles).ReadsReserved ∧
      Along FedSystem.step (fun sys _ => sys.EngineFree)
        (FedSystem.start smallConfig) servedCycles ∧
      (run FedSystem.step (FedSystem.start smallConfig)
        servedCycles).EngineFree := by
  obtain ⟨reserved, finally_, serves⟩ :=
    fifos_serve_engine smallConfig servedCycles (by decide +kernel)
  exact ⟨reserved, finally_, serves (by decide +kernel)⟩

/-- A cycle with other pins of decoder 1. -/
def Input.atSecond (slot : SlotInput smallConfig) : Input smallConfig :=
  { Input.quiet smallConfig with
    slots := fun decoder =>
      if decoder.val = 1 then slot else .quiet smallConfig }

/-- Both decoders are assigned four source bytes, and their cores take them. -/
def fedCycles : List (Input smallConfig) :=
  [{ Input.quiet smallConfig with
      descFifoPush := some ⟨0x10, 4, 0x80, 1⟩ },
    { Input.quiet smallConfig with
      descFifoPush := some ⟨0x20, 4, 0x90, 2⟩ },
    .quiet smallConfig, .quiet smallConfig, .quiet smallConfig,
    readWord smallConfig true, .quiet smallConfig, .quiet smallConfig,
    readWord smallConfig true,
    { Input.quiet smallConfig with
      slots := fun _ => { SlotInput.quiet smallConfig with
        coreInPop := some (BitVec.allOnes _) } }]

/--
The core of decoder 1 outputs its 1 x 1 image; before the write of its three
bytes is accepted, the core of decoder 0 outputs a full word.
-/
def overtakenCycles : List (Input smallConfig) :=
  [.atSecond { SlotInput.quiet smallConfig with
      coreOutPush := some 7
      coreDims := some (1, 1) },
    outputCycle smallConfig true, .quiet smallConfig,
    { Input.atSecond { SlotInput.quiet smallConfig with
        outputFifo := some 7 } with
      dmaWriteDescReady := false }]

/--
Three bytes of decoder 1 are accepted in the cycle four are chosen for decoder
0: all three are taken without a last flag, and a fourth is awaited.
-/
theorem overtaken_write_waits :
    ¬ ∀ config cycles,
      Along FedSystem.step FedSystem.Promised (FedSystem.start config)
          cycles →
        Along FedSystem.step
            (fun sys i => sys.ReadsReserved ∧ sys.WriteHeld i ∧
              sys.AssignsEmpty i)
            (FedSystem.start config) cycles ∧
          (run FedSystem.step (FedSystem.start config)
            cycles).ReadsReserved ∧
          (run FedSystem.step (FedSystem.start config)
            cycles).EngineFree := by
  intro claimed
  exact absurd
    (claimed smallConfig (fedCycles ++ overtakenCycles)
      (by decide +kernel)).2.2
    (by decide +kernel)

end CoreJpeg.JpegTop
