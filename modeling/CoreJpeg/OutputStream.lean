import CoreJpeg.Clocked
import CoreJpeg.OutputModel
import CoreJpeg.Raster

namespace CoreJpeg.JpegOutput

/-!
# The pixels of a stream of blocks

While one image is decoded, the luma samples enter the output stage block after
block and leave it in the same order; the id of a block stands at the front of
the id queue as long as its samples are read.  This module follows the numbers
of samples written and read through a run: the pixels presented are those of
the blocks written, in their order, whatever the receiver does.
-/

/-! ## The luma memory -/

namespace YRam

/--
The samples not yet read stand between the pointers; one more may be held at
the output.
-/
structure Reading (unread : Nat) (s : YRam) : Prop where
  level : s.countQ.toNat = unread + s.validO.toNat
  behind : s.wrPtrQ = s.rdPtrQ + BitVec.ofNat 9 unread
  small : unread < 512
  late : s.validO = false → unread ≤ 1

/-- The memory after `rst_i` or `flush_i`. -/
theorem reading_cleared
    {s : YRam}
    (pointers : s.wrPtrQ = s.rdPtrQ)
    (nothing : s.validO = false)
    (empty : s.countQ = 0) :
    Reading 0 s where
  level := by rw [empty, nothing]; rfl
  behind := by simp [pointers]
  small := by decide
  late := fun _ => Nat.zero_le _

section Cycle

variable {s : YRam} {i : RamInput} {unread : Nat}

/-- There is something to read when a sample is unread. -/
theorem Reading.readOk_eq
    (reading : Reading unread s) :
    s.readOk = decide (0 < unread) := by
  have small := reading.small
  rw [readOk, reading.behind]
  cases unread with
  | zero => simp
  | succ before =>
      have moved : s.rdPtrQ + BitVec.ofNat 9 (before + 1) ≠ s.rdPtrQ := by
        intro same
        have zero :
            s.rdPtrQ + BitVec.ofNat 9 (before + 1) =
              s.rdPtrQ + BitVec.ofNat 9 0 := by
          simpa using same
        exact absurd (RingBuffer.offset_injective small (by decide) zero)
          (Nat.succ_ne_zero before)
      simpa using moved

/-- The output stays valid while it is not read or something is unread. -/
theorem validO_step
    (running : i.clear = false) :
    (s.step i).validO = (s.validO && !i.pop || s.readOk) := by
  simp [step, validO, running]

/-- The level counts the samples written and read. -/
theorem Reading.level_next
    (reading : Reading unread s)
    (running : i.clear = false) :
    (s.step i).countQ.toNat =
      s.countQ.toNat - (i.pop && s.validO).toNat + i.push.toNat := by
  have small := reading.small
  have count : (s.step i).countQ = s.countR i := by
    simp [step, running]
  rw [count, countR]
  cases valid : s.validO with
  | false =>
      have level : s.countQ.toNat = unread := by
        simpa [valid] using reading.level
      cases i.push
      · simp
      · simp [BitVec.toNat_add]
        omega
  | true =>
      have level : s.countQ.toNat = unread + 1 := by
        simpa [valid] using reading.level
      have held : (1 : BitVec 32) ≤ s.countQ := by
        rw [BitVec.le_def]
        change 1 ≤ s.countQ.toNat
        rw [level]
        exact Nat.le_add_left 1 unread
      have fewer := BitVec.toNat_sub_of_le held
      cases i.pop
      · cases i.push
        · simp
        · simp [BitVec.toNat_add]
          omega
      · cases i.push
        · simpa using fewer
        · simp only [Bool.and_self, if_true, BitVec.toNat_add, fewer]
          simp
          omega

/-- A sample leaves the memory for the output, which may be read. -/
theorem Reading.fetched
    (reading : Reading unread s)
    (running : i.clear = false) :
    (s.reads i).toNat ≤ unread ∧
      unread - (s.reads i).toNat + (s.step i).validO.toNat =
        unread + s.validO.toNat - (i.pop && s.validO).toNat ∧
      ((s.step i).validO = false → unread - (s.reads i).toNat = 0) := by
  have reads : s.reads i =
      (decide (0 < unread) && (!s.validO || (s.validO && i.pop))) := by
    rw [YRam.reads, reading.readOk_eq]
  have kept : (s.step i).validO =
      (s.validO && !i.pop || decide (0 < unread)) := by
    rw [validO_step running, reading.readOk_eq]
  rw [reads, kept]
  rcases Nat.eq_zero_or_pos unread with none | unreadLeft
  · subst none
    cases s.validO <;> cases i.pop <;> simp
  · have present : decide (0 < unread) = true := decide_eq_true unreadLeft
    rw [present]
    cases s.validO <;> cases i.pop <;> simp <;> omega

/-- One cycle of a memory that does not overflow. -/
theorem Reading.next
    (reading : Reading unread s)
    (running : i.clear = false)
    (room : i.push = true → s.countQ.toNat < 512) :
    Reading (unread - (s.reads i).toNat + i.push.toNat) (s.step i) := by
  have level := reading.level
  have small := reading.small
  have counted := reading.level_next running
  obtain ⟨enough, held, empty⟩ := reading.fetched running
  have write : (s.step i).wrPtrQ =
      s.wrPtrQ + BitVec.ofNat 9 i.push.toNat := by
    cases push : i.push <;> simp [step, running, push]
  have read : (s.step i).rdPtrQ =
      s.rdPtrQ + BitVec.ofNat 9 (s.reads i).toNat := by
    cases reads : s.reads i <;> simp [step, running, reads]
  refine ⟨?_, ?_, ?_, ?_⟩
  · have popped : (i.pop && s.validO).toNat ≤ s.validO.toNat := by
      cases i.pop <;> simp
    omega
  · rw [write, read, reading.behind, BitVec.add_assoc, BitVec.add_assoc,
      ← BitVec.ofNat_add, ← BitVec.ofNat_add]
    congr 2
    omega
  · cases push : i.push with
    | false =>
        rw [Bool.toNat_false]
        omega
    | true =>
        have less := room push
        cases valid : s.validO with
        | false =>
            have few := reading.late valid
            rw [Bool.toNat_true]
            omega
        | true =>
            rw [valid, Bool.toNat_true] at level
            rw [Bool.toNat_true]
            omega
  · intro invalid
    rw [empty invalid, Nat.zero_add]
    exact Bool.toNat_le i.push

end Cycle

end YRam

/-! ## Counting the samples -/

/-- The output stage with the luma samples written and the samples read. -/
structure Fed where
  output : State
  pushed : Nat
  popped : Nat

namespace Fed

/-- One clock edge. -/
def step (f : Fed) (i : Input) : Fed where
  output := JpegOutput.step f.output i
  pushed := f.pushed + (pushes .y i).toNat
  popped := f.popped + (pops f.output i).toNat

/--
The pins of one image: the luma samples are those of the blocks with the given
ids, block after block and the sample of index 0 first, and no id is pushed
into a full queue.
-/
structure Feeds (mode : ImageMode) (ids : List (BitVec 32))
    (f : Fed) (i : Input) : Prop where
  rst : i.rst = false
  imgStart : i.imgStart = false
  imgMode : i.imgMode = mode
  inOrder : pushes .y i = true → ids[f.pushed / 64]? = some i.inportId
  firstIndex : pushes .y i = true → (i.inportIdx = 0 ↔ f.pushed % 64 = 0)
  idSpace : (idPush i).isSome = true → f.output.uInfo.acceptO = true

instance (mode : ImageMode) (ids : List (BitVec 32)) (f : Fed) (i : Input) :
    Decidable (Feeds mode ids f i) :=
  decidable_of_iff
    (i.rst = false ∧ i.imgStart = false ∧ i.imgMode = mode ∧
      (pushes .y i = true → ids[f.pushed / 64]? = some i.inportId) ∧
      (pushes .y i = true → (i.inportIdx = 0 ↔ f.pushed % 64 = 0)) ∧
      ((idPush i).isSome = true → f.output.uInfo.acceptO = true))
    ⟨fun ⟨rst, imgStart, imgMode, inOrder, firstIndex, idSpace⟩ =>
      ⟨rst, imgStart, imgMode, inOrder, firstIndex, idSpace⟩,
      fun ⟨rst, imgStart, imgMode, inOrder, firstIndex, idSpace⟩ =>
      ⟨rst, imgStart, imgMode, inOrder, firstIndex, idSpace⟩⟩

end Fed

/-- The samples that are read without asking for the levels again. -/
def groupSize (mode : ImageMode) : Nat :=
  if mode = .monochrome ∨ mode = .ycbcr444 then 64 else 256

/-- The ids in the queue: those of blocks begun and not read to their end. -/
def queued (ids : List (BitVec 32)) (pushed popped : Nat) :
    List (BitVec 32) :=
  (ids.take ((pushed + 63) / 64)).drop (popped / 64)

/-- The registers when a stream of blocks has been written and read in part. -/
structure Streaming (mode : ImageMode) (ids : List (BitVec 32))
    (f : Fed) : Prop where
  level : f.output.uRamY.countQ.toNat + f.popped = f.pushed
  reading : ∃ unread, f.output.uRamY.Reading unread
  inIds : f.pushed ≤ 64 * ids.length
  pointers :
    RingBuffer.Consistent f.output.uInfo.wrPtrQ f.output.uInfo.rdPtrQ
      f.output.uInfo.countQ
  queue :
    RingBuffer.contents f.output.uInfo.ramQ f.output.uInfo.rdPtrQ
      f.output.uInfo.countQ.toNat = queued ids f.pushed f.popped
  index : f.output.idxQ.toNat = f.popped % 64
  subsample : mode = .ycbcr420 → f.output.subsmplQ.toNat = f.popped / 64 % 4
  whole : f.output.activeQ = false → f.popped % 64 = 0
  group :
    f.output.activeQ = true ∨ f.popped % groupSize mode ≠ 0 →
      groupSize mode * (f.popped / groupSize mode + 1) ≤ f.pushed ∧
        f.output.uRamY.validO = true

section Stream

variable {mode : ImageMode} {ids : List (BitVec 32)} {f : Fed} {i : Input}

/-- The length of the queue. -/
theorem length_queued
    {pushed popped : Nat}
    (inIds : pushed ≤ 64 * ids.length) :
    (queued ids pushed popped).length =
      (pushed + 63) / 64 - popped / 64 := by
  rw [queued, List.length_drop, List.length_take]
  omega

/-- A sample is only read while it is there. -/
theorem Streaming.present
    (known : Streaming mode ids f)
    (reads : pops f.output i = true) :
    f.popped < f.pushed ∧ f.output.uRamY.validO = true := by
  simp only [pops, Bool.and_eq_true] at reads
  obtain ⟨written, valid⟩ := known.group (.inl reads.2)
  have positive : 0 < groupSize mode := by
    unfold groupSize
    split <;> decide
  have inGroup := Nat.lt_mul_div_succ f.popped positive
  exact ⟨by omega, valid⟩

/-- The index tells the last sample of a block. -/
theorem Streaming.last_eq
    (known : Streaming mode ids f) :
    (f.output.idxQ == 63) = decide (f.popped % 64 = 63) := by
  rw [← known.index, Bool.eq_iff_iff, beq_iff_eq, decide_eq_true_eq,
    ← BitVec.toNat_inj]
  rfl

/-- The id is popped with the last sample of its block. -/
theorem Streaming.idPop_eq
    (known : Streaming mode ids f) :
    idPop f.output i =
      (pops f.output i && decide (f.popped % 64 = 63)) := by
  rw [idPop, pops, known.last_eq]
  cases active : f.output.activeQ with
  | true => simp
  | false =>
      have whole := known.whole active
      simp [whole]

/-- The queue of ids is not empty while samples are left. -/
theorem Streaming.id_present
    (known : Streaming mode ids f)
    (unreadLeft : f.popped < f.pushed) :
    0 < f.output.uInfo.countQ.toNat := by
  have size := congrArg List.length known.queue
  rw [RingBuffer.length_contents, length_queued known.inIds] at size
  omega

/-- The id at the front of the queue is that of the sample to be read. -/
theorem Streaming.idValue_eq
    (known : Streaming mode ids f)
    (unreadLeft : f.popped < f.pushed) :
    ids[f.popped / 64]? = some (idValue f.output) := by
  have inQueue := known.id_present unreadLeft
  have first := congrArg (·[0]?) known.queue
  simp only [queued, List.getElem?_drop, Nat.add_zero] at first
  rw [List.getElem?_take_of_lt (by omega)] at first
  rw [← first, List.getElem?_eq_getElem (by simpa using inQueue)]
  simp [idValue, Fifo.dataOutO]

/-- One cycle without reset clears nothing. -/
theorem Fed.Feeds.running
    (pins : Fed.Feeds mode ids f i)
    (blockType : McuProc.BlockType) :
    (ramInput blockType f.output i).clear = false := by
  simp [ramInput, pins.rst, pins.imgStart]

/-- The first sample of a block pushes its id. -/
theorem Fed.Feeds.idPush_eq
    (pins : Fed.Feeds mode ids f i) :
    idPush i =
      if pushes .y i = true ∧ f.pushed % 64 = 0 then some i.inportId
      else none := by
  rw [idPush]
  by_cases pushed : pushes .y i = true
  · have first := pins.firstIndex pushed
    simp only [pushed, Bool.true_and, beq_iff_eq, first, true_and]
  · simp [pushed]

/-- An id that is pushed is stored. -/
theorem Fed.Feeds.stored_eq
    (pins : Fed.Feeds mode ids f i) :
    f.output.uInfo.stored (idPush i) = idPush i := by
  rw [Fifo.stored]
  split
  · rfl
  · next full =>
      cases push : idPush i with
      | none => rfl
      | some id =>
          exact absurd (pins.idSpace (by rw [push]; rfl)) full

/-- The id queue has room for the id of a block that begins. -/
theorem Streaming.idRoom
    (known : Streaming mode ids f)
    (pins : Fed.Feeds mode ids f i)
    (push : (idPush i).isSome = true) :
    f.output.uInfo.countQ.toNat < 8 := by
  have fits : f.output.uInfo.countQ.toNat ≤ 8 := known.pointers.fits
  have accepts := pins.idSpace push
  simp only [Fifo.acceptO, bne_iff_ne, ne_eq, ← BitVec.toNat_inj] at accepts
  exact Nat.lt_of_le_of_ne fits accepts

/-- The luma memory has room for every sample of the queued blocks. -/
theorem Streaming.room
    (known : Streaming mode ids f)
    (pins : Fed.Feeds mode ids f i)
    (push : pushes .y i = true) :
    f.output.uRamY.countQ.toNat < 512 := by
  have level := known.level
  have fits : f.output.uInfo.countQ.toNat ≤ 8 := known.pointers.fits
  have size := congrArg List.length known.queue
  rw [RingBuffer.length_contents, length_queued known.inIds] at size
  by_cases first : f.pushed % 64 = 0
  · have less := known.idRoom pins (by rw [pins.idPush_eq]; simp [push, first])
    omega
  · omega

/-- The queue of ids after one cycle. -/
theorem queued_step
    {pushed popped : Nat} {id : BitVec 32} {push pop : Bool}
    (inOrder : popped ≤ pushed)
    (inIds : push = true → ids[pushed / 64]? = some id)
    (written : pop = true → popped < pushed) :
    (queued ids pushed popped).drop
          (pop && decide (popped % 64 = 63)).toNat ++
        (if push = true ∧ pushed % 64 = 0 then [id] else []) =
      queued ids (pushed + push.toNat) (popped + pop.toNat) := by
  have front : (popped + pop.toNat) / 64 =
      popped / 64 + (pop && decide (popped % 64 = 63)).toNat := by
    cases pop with
    | false => simp
    | true =>
        by_cases last : popped % 64 = 63
        · simp only [last, decide_true, Bool.and_self, Bool.toNat_true]
          omega
        · simp only [last, decide_false, Bool.and_false, Bool.toNat_true,
            Bool.toNat_false]
          omega
  have kept : (popped + pop.toNat) / 64 ≤ (pushed + 63) / 64 := by
    cases pop with
    | false =>
        simp only [Bool.toNat_false]
        omega
    | true =>
        have less := written rfl
        simp only [Bool.toNat_true]
        omega
  simp only [queued, List.drop_drop]
  rw [← front]
  by_cases begins : push = true ∧ pushed % 64 = 0
  · obtain ⟨push_, first⟩ := begins
    have back : (pushed + push.toNat + 63) / 64 = pushed / 64 + 1 := by
      rw [push_, Bool.toNat_true]
      omega
    have before : (pushed + 63) / 64 = pushed / 64 := by omega
    have found := inIds push_
    rw [before] at kept ⊢
    rw [if_pos ⟨push_, first⟩, back, List.take_add_one, found,
      List.drop_append_of_le_length, Option.toList_some]
    rw [List.length_take]
    have inList := (List.getElem?_eq_some_iff.mp found).1
    omega
  · have back : (pushed + push.toNat + 63) / 64 = (pushed + 63) / 64 := by
      cases push with
      | false => rfl
      | true =>
          have notFirst : pushed % 64 ≠ 0 := fun first =>
            begins ⟨rfl, first⟩
          rw [Bool.toNat_true]
          omega
    rw [if_neg begins, back, List.append_nil]

/-- The level after one cycle. -/
theorem Streaming.level_step
    (known : Streaming mode ids f)
    (pins : Fed.Feeds mode ids f i) :
    (f.step i).output.uRamY.countQ.toNat =
      f.output.uRamY.countQ.toNat - (pops f.output i).toNat +
        (pushes .y i).toNat := by
  obtain ⟨unread, reading⟩ := known.reading
  have counted := reading.level_next (pins.running .y)
  have read : ((ramInput .y f.output i).pop && f.output.uRamY.validO) =
      pops f.output i := by
    cases pop : pops f.output i with
    | false => simp [ramInput, pop]
    | true => simp [ramInput, pop, (known.present pop).2]
  rw [read] at counted
  exact counted

/-- A block is begun when its group is stored and can be read. -/
theorem Streaming.begins_group
    (known : Streaming mode ids f)
    (supported : mode ≠ .unsupported)
    (inactive : f.output.activeQ = false)
    (begun : begins f.output mode = true) :
    groupSize mode * (f.popped / groupSize mode + 1) ≤ f.pushed ∧
      f.output.uRamY.validO = true := by
  obtain ⟨unread, reading⟩ := known.reading
  have level := known.level
  have whole := known.whole inactive
  have valid (enough : 64 ≤ f.output.uRamY.countQ.toNat) :
      f.output.uRamY.validO = true := by
    by_contra invalid
    have few := reading.late (by simpa using invalid)
    have unreadLevel := reading.level
    have held := Bool.toNat_le f.output.uRamY.validO
    omega
  by_cases small : mode = .monochrome ∨ mode = .ycbcr444
  · have enough : 64 ≤ f.output.uRamY.countQ.toNat := by
      rcases small with mono | full
      · rw [mono] at begun
        simpa [begins, BitVec.le_def] using begun
      · rw [full] at begun
        simp only [begins, Bool.and_eq_true, decide_eq_true_eq,
          BitVec.le_def] at begun
        exact begun.1.1
    rw [groupSize, if_pos small]
    exact ⟨by omega, valid enough⟩
  · have subsampled : mode = .ycbcr420 := by
      cases mode <;> simp_all
    have quarter := known.subsample subsampled
    by_cases inGroup : f.popped % groupSize mode = 0
    · rw [groupSize, if_neg small] at inGroup ⊢
      have first : (f.output.subsmplQ != 0) = false := by
        rw [bne_eq_false_iff_eq, ← BitVec.toNat_inj, quarter]
        change f.popped / 64 % 4 = 0
        omega
      rw [subsampled] at begun
      simp only [begins, first, Bool.false_eq_true, if_false,
        Bool.and_eq_true, decide_eq_true_eq, BitVec.le_def] at begun
      have enough : 256 ≤ f.output.uRamY.countQ.toNat := begun.1.1
      exact ⟨by omega, valid (by omega)⟩
    · exact known.group (.inr inGroup)

/-- When the stage reads a block. -/
theorem Streaming.active_step
    (known : Streaming mode ids f)
    (pins : Fed.Feeds mode ids f i) :
    (f.step i).output.activeQ =
      if f.output.activeQ then
        !(pops f.output i && decide (f.popped % 64 = 63))
      else begins f.output mode := by
  simp only [Fed.step, JpegOutput.step, pins.rst, pins.imgStart,
    pins.imgMode, known.last_eq, Bool.or_self, Bool.false_eq_true, if_false]
  cases f.output.activeQ with
  | false => rfl
  | true =>
      cases pops f.output i && decide (f.popped % 64 = 63) <;> rfl

/-- A group is stored and readable as long as it is being read. -/
theorem Streaming.group_step
    (known : Streaming mode ids f)
    (supported : mode ≠ .unsupported)
    (pins : Fed.Feeds mode ids f i)
    (inGroup :
      (f.step i).output.activeQ = true ∨
        (f.step i).popped % groupSize mode ≠ 0) :
    groupSize mode * ((f.step i).popped / groupSize mode + 1) ≤
        (f.step i).pushed ∧
      (f.step i).output.uRamY.validO = true := by
  obtain ⟨unread, reading⟩ := known.reading
  have level := known.level
  have unreadLevel := reading.level
  have kept : (f.step i).output.uRamY.validO =
      (f.output.uRamY.validO && !pops f.output i ||
        decide (0 < unread)) := by
    rw [← reading.readOk_eq]
    exact YRam.validO_step (pins.running .y)
  have popped : (f.step i).popped =
      f.popped + (pops f.output i).toNat := rfl
  have pushed : f.pushed ≤ (f.step i).pushed := Nat.le_add_right _ _
  have activeNext := known.active_step pins
  cases pop : pops f.output i with
  | false =>
      rw [pop, Bool.toNat_false, Nat.add_zero] at popped
      have before : groupSize mode * (f.popped / groupSize mode + 1) ≤
            f.pushed ∧
          f.output.uRamY.validO = true := by
        rcases inGroup with active | rest
        · cases wasActive : f.output.activeQ with
          | true => exact known.group (.inl wasActive)
          | false =>
              rw [activeNext, wasActive] at active
              exact known.begins_group supported wasActive active
        · rw [popped] at rest
          exact known.group (.inr rest)
      rw [popped, kept, pop, before.2]
      exact ⟨Nat.le_trans before.1 pushed, rfl⟩
  | true =>
      have present := known.present pop
      have active : f.output.activeQ = true := by
        simp only [pops, Bool.and_eq_true] at pop
        exact pop.2
      have before := (known.group (.inl active)).1
      rw [pop, Bool.toNat_true] at popped
      have positive : 0 < groupSize mode := by
        unfold groupSize
        split <;> decide
      have inside : f.popped % groupSize mode + 1 ≠ groupSize mode := by
        intro last
        rcases inGroup with stays | rest
        · have inBlock : f.popped % 64 = 63 := by
            unfold groupSize at last
            split at last <;> omega
          rw [activeNext, active, pop, inBlock] at stays
          exact absurd stays Bool.false_ne_true
        · rw [popped] at rest
          exact rest (count_wrap positive last).2
      have within : f.popped % groupSize mode + 1 < groupSize mode :=
        Nat.lt_of_le_of_ne
          (Nat.succ_le_of_lt (Nat.mod_lt f.popped positive)) inside
      have split := Nat.div_add_mod f.popped (groupSize mode)
      rw [popped, (count_within within).1, kept]
      rw [Nat.mul_succ] at before ⊢
      refine ⟨Nat.le_trans before pushed, ?_⟩
      have more : 0 < unread := by
        rw [present.2, Bool.toNat_true] at unreadLevel
        omega
      simp [more]

/-- A cycle of a stream keeps the account of its samples. -/
theorem Streaming.step
    (known : Streaming mode ids f)
    (supported : mode ≠ .unsupported)
    (pins : Fed.Feeds mode ids f i) :
    Streaming mode ids (f.step i) := by
  obtain ⟨unread, reading⟩ := known.reading
  have level := known.level
  have counted := known.level_step pins
  have index := known.index
  have present : pops f.output i = true → f.popped < f.pushed :=
    fun pop => (known.present pop).1
  have popped : (f.step i).popped =
      f.popped + (pops f.output i).toNat := rfl
  have pushed : (f.step i).pushed =
      f.pushed + (pushes .y i).toNat := rfl
  have fifo : (f.step i).output.uInfo =
      f.output.uInfo.step (idPush i) (idPop f.output i) := by
    simp [Fed.step, JpegOutput.step, pins.rst, pins.imgStart]
  have idPresent : idPop f.output i = true →
      0 < f.output.uInfo.countQ.toNat := by
    intro pop
    rw [known.idPop_eq, Bool.and_eq_true] at pop
    exact known.id_present (present pop.1)
  have validId : (idPop f.output i && f.output.uInfo.validO) =
      idPop f.output i := by
    cases pop : idPop f.output i with
    | false => rfl
    | true =>
        have idLeft := idPresent pop
        have notZero : f.output.uInfo.countQ ≠ 0 := by
          intro zero
          rw [zero] at idLeft
          exact Nat.lt_irrefl 0 idLeft
        simpa [Fifo.validO] using notZero
  refine ⟨?_, ⟨_, reading.next (pins.running .y) (known.room pins)⟩, ?_, ?_,
    ?_, ?_, ?_, ?_, known.group_step supported pins⟩
  · rw [counted, popped, pushed]
    cases pop : pops f.output i with
    | false =>
        simp only [Bool.toNat_false]
        omega
    | true =>
        have less := present pop
        simp only [Bool.toNat_true]
        omega
  · rw [pushed]
    have inIds := known.inIds
    cases push : pushes .y i with
    | false => simpa using inIds
    | true =>
        have found :=
          (List.getElem?_eq_some_iff.mp (pins.inOrder push)).1
        rw [Bool.toNat_true]
        omega
  · rw [fifo]
    simp only [Fifo.step, validId, pins.stored_eq]
    exact known.pointers.next (known.idRoom pins) idPresent
  · rw [fifo]
    simp only [Fifo.step, validId, pins.stored_eq]
    rw [RingBuffer.contents_next _ known.pointers (known.idRoom pins)
      idPresent, known.queue, known.idPop_eq, pins.idPush_eq, pushed, popped,
      ← queued_step (by omega) pins.inOrder present]
    congr 1
    split <;> rfl
  · rw [popped]
    have idx : (f.step i).output.idxQ =
        if pops f.output i then f.output.idxQ + 1 else f.output.idxQ := by
      simp [Fed.step, JpegOutput.step, pins.rst, pins.imgStart]
    rw [idx]
    cases pops f.output i with
    | false => simpa using index
    | true =>
        simp only [if_true, BitVec.toNat_add, index, Bool.toNat_true]
        exact Nat.mod_add_mod f.popped 64 1
  · intro subsampled
    have quarter := known.subsample subsampled
    have subsmpl : (f.step i).output.subsmplQ =
        if pops f.output i && decide (f.popped % 64 = 63) then
          f.output.subsmplQ + 1
        else f.output.subsmplQ := by
      rw [← known.last_eq]
      simp [Fed.step, JpegOutput.step, pins.rst, pins.imgStart,
        pins.imgMode, subsampled]
    rw [subsmpl, popped]
    cases pops f.output i with
    | false => simpa using quarter
    | true =>
        by_cases last : f.popped % 64 = 63
        · simp only [last, decide_true, Bool.and_self, if_true,
            BitVec.toNat_add, quarter, Bool.toNat_true]
          change (f.popped / 64 % 4 + 1) % 4 = _
          omega
        · simp only [last, decide_false, Bool.and_false,
            Bool.false_eq_true, if_false, quarter, Bool.toNat_true]
          omega
  · intro inactive
    rw [known.active_step pins] at inactive
    rw [popped]
    cases active : f.output.activeQ with
    | false =>
        have whole := known.whole active
        simpa [pops, active] using whole
    | true =>
        rw [active] at inactive
        simp only [if_true, Bool.not_eq_false', Bool.and_eq_true,
          decide_eq_true_eq] at inactive
        rw [inactive.1, Bool.toNat_true]
        omega

end Stream

/-! ## The pixels presented -/

/-- The coordinates of a pixel. -/
abbrev Place := BitVec 16 × BitVec 16

/-- The place of a sample of a block, with the sample's index in the block. -/
def placeOf (id : BitVec 32) (sample : Nat) : Place :=
  (pixelX id (BitVec.ofNat 6 sample), pixelY id (BitVec.ofNat 6 sample))

/-- The place of a sample of a stream; a block after the image has none. -/
def samplePlaces (ids : List (BitVec 32)) (sample : Nat) : List Place :=
  match ids[sample / 64]? with
  | some id =>
      if typeOf id == McuProc.BlockType.eof.code then []
      else [placeOf id (sample % 64)]
  | none => []

/-- The place at the output pins. -/
def presented (s : State) : List Place :=
  if s.validQ then [(s.pixelXQ, s.pixelYQ)] else []

namespace Fed

/-- The pixel accepted in a cycle. -/
def passed (f : Fed) (i : Input) : List Place :=
  if i.outportAccept then presented f.output else []

/-- The pixel of the sample read in a cycle. -/
def read (ids : List (BitVec 32)) (f : Fed) (i : Input) : List Place :=
  if pops f.output i then samplePlaces ids f.popped else []

end Fed

/-- The registers after `rst_i` or `img_start_i`. -/
structure Cleared (s : State) : Prop where
  pointers : s.uRamY.wrPtrQ = s.uRamY.rdPtrQ
  nothing : s.uRamY.validO = false
  empty : s.uRamY.countQ = 0
  info : s.uInfo = s.uInfo.flushed
  index : s.idxQ = 0
  subsample : s.subsmplQ = 0
  inactive : s.activeQ = false

/-- The start of an image clears the stage. -/
theorem cleared_step
    (s : State)
    {i : Input}
    (clear : (i.rst || i.imgStart) = true) :
    Cleared (step s i) := by
  constructor <;>
    simp [step, YRam.step, YRam.validO, ramInput, Fifo.flushed, clear]

section Pixels

variable {mode : ImageMode} {ids : List (BitVec 32)} {f : Fed} {i : Input}

/-- A cleared stage has written and read nothing. -/
theorem streaming_cleared
    {s : State}
    (cleared : Cleared s)
    (mode : ImageMode) (ids : List (BitVec 32)) :
    Streaming mode ids ⟨s, 0, 0⟩ where
  level := by simp [cleared.empty]
  reading :=
    ⟨0, YRam.reading_cleared cleared.pointers cleared.nothing cleared.empty⟩
  inIds := Nat.zero_le _
  pointers := by
    rw [cleared.info]
    exact RingBuffer.consistent_empty
  queue := by
    rw [cleared.info]
    simp [queued, Fifo.flushed]
  index := by simp [cleared.index]
  subsample := fun _ => by simp [cleared.subsample]
  whole := fun _ => rfl
  group := by simp [cleared.inactive]

/-- A pixel is presented until it is accepted, then the next one read. -/
theorem Streaming.balanced
    (known : Streaming mode ids f)
    (pins : Fed.Feeds mode ids f i) :
    presented f.output ++ Fed.read ids f i =
      Fed.passed f i ++ presented (f.step i).output := by
  have valid : (f.step i).output.validQ =
      if outputSpace f.output i then
        f.output.activeQ &&
          typeOf (idValue f.output) != McuProc.BlockType.eof.code
      else f.output.validQ := by
    simp [Fed.step, JpegOutput.step, pins.rst]
  have place : ((f.step i).output.pixelXQ, (f.step i).output.pixelYQ) =
      if outputSpace f.output i then
        (pixelX (idValue f.output) f.output.idxQ,
          pixelY (idValue f.output) f.output.idxQ)
      else (f.output.pixelXQ, f.output.pixelYQ) := by
    simp only [Fed.step, JpegOutput.step, pins.rst, Bool.false_eq_true,
      if_false]
    split <;> rfl
  have next : presented (f.step i).output =
      if outputSpace f.output i then Fed.read ids f i
      else presented f.output := by
    rw [presented, valid, place]
    cases space : outputSpace f.output i with
    | false => rfl
    | true =>
        cases active : f.output.activeQ with
        | false => simp [Fed.read, pops, space, active]
        | true =>
            have pop : pops f.output i = true := by
              simp [pops, space, active]
            have front := known.idValue_eq (known.present pop).1
            have index : f.output.idxQ =
                BitVec.ofNat 6 (f.popped % 64) := by
              rw [← known.index, BitVec.ofNat_toNat, BitVec.setWidth_eq]
            simp only [Fed.read, pop, samplePlaces, front, if_true,
              Bool.true_and, placeOf, index, bne]
            cases typeOf (idValue f.output) ==
              McuProc.BlockType.eof.code <;> rfl
  rw [next, Fed.passed]
  cases held : f.output.validQ with
  | false => simp [presented, held, outputSpace]
  | true =>
      cases accept : i.outportAccept with
      | false => simp [presented, held, outputSpace, accept, Fed.read, pops]
      | true => simp [presented, held, outputSpace, accept]

/-- The samples read along a run are the first ones of the stream. -/
theorem observe_read
    (s : State)
    (cycles : List Input) :
    Clocked.observe Fed.step (Fed.read ids) ⟨s, 0, 0⟩ cycles =
      (List.range (Clocked.run Fed.step ⟨s, 0, 0⟩ cycles).popped).flatMap
        (samplePlaces ids) := by
  induction cycles using List.reverseRecOn with
  | nil => rfl
  | append_singleton past cycle inductionHypothesis =>
      rw [Clocked.observe_append, inductionHypothesis, Clocked.run_append]
      simp only [Clocked.observe_cons, Clocked.observe_nil, List.append_nil,
        Clocked.run_cons, Clocked.run_nil, Fed.step, Fed.read]
      cases pops (Clocked.run Fed.step ⟨s, 0, 0⟩ past).output cycle with
      | false => simp
      | true =>
          simp [List.range_succ]

/--
The pixels accepted in a run, with the one still presented, are those of the
samples read: the samples of the blocks written, in their order.
-/
theorem passed_places
    (supported : mode ≠ .unsupported)
    {s : State}
    (cleared : Cleared s)
    (nothing : s.validQ = false)
    {cycles : List Input}
    (along :
      Clocked.Along Fed.step (Fed.Feeds mode ids) ⟨s, 0, 0⟩ cycles) :
    Clocked.observe Fed.step Fed.passed ⟨s, 0, 0⟩ cycles ++
        presented (Clocked.run Fed.step ⟨s, 0, 0⟩ cycles).output =
      (List.range (Clocked.run Fed.step ⟨s, 0, 0⟩ cycles).popped).flatMap
        (samplePlaces ids) ∧
      (Clocked.run Fed.step ⟨s, 0, 0⟩ cycles).popped ≤ 64 * ids.length := by
  have initially := streaming_cleared cleared mode ids
  have known :
      Streaming mode ids (Clocked.run Fed.step ⟨s, 0, 0⟩ cycles) :=
    Clocked.run_invariant
      (fun f i known pins => Streaming.step known supported pins)
      initially along
  have conserved :=
    Clocked.conserved (fun f : Fed => presented f.output) (Fed.read ids)
      Fed.passed
      (fun f i known pins => Streaming.step known supported pins)
      (fun f i known pins => Streaming.balanced known pins)
      initially along
  rw [observe_read] at conserved
  have empty : presented s = [] := by
    simp [presented, nothing]
  rw [empty, List.nil_append] at conserved
  have level := known.level
  have inIds := known.inIds
  exact ⟨conserved.symm, by omega⟩

end Pixels

end CoreJpeg.JpegOutput
