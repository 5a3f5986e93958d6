import CoreJpeg.Clocked
import CoreJpeg.IdctPipeline

namespace CoreJpeg.JpegIdct

open Bursts

/-!
# Blocks leave with their ids, and all of them do

The id of a block is queued with its end pulse and dropped with its last
sample.  Between the two lie the four slots of the coefficient buffer and the
two blocks that are on their way through the passes, so that the queue of eight
ids never fills up.  With the queue in step the samples that leave are the
blocks that were written, each in its order and none of them twice; and when
`outport_accept_i` does not stay low, none is left behind.
-/

namespace Run

variable {s : Nat → State} {i : Nat → Input}

/-- The number of blocks whose last sample has left. -/
abbrev shown (s : Nat → State) (n : Nat) : Nat := delayed 88 0 (popped s) n

/-- The number of items that the coefficient buffer has shown. -/
def progress (s : Nat → State) (n : Nat) : Nat :=
  64 * popped s n + place s n

section Counts

variable (run : Run s i)

include run

/-! ## Blocks that were shown -/

omit run in
theorem blockDone_iff (n : Nat) :
    JpegIdctRam.blockDone (s n).ram = true ↔
      active s n = true ∧ place s n = 63 := by
  rw [JpegIdctRam.blockDone, Bool.and_eq_true, beq_iff_eq]
  refine and_congr_right fun _ => ?_
  constructor
  · intro last
    rw [place, last]
    rfl
  · exact fun last => BitVec.eq_of_toNat_eq last

omit run in
/-- Blocks that were shown stay counted. -/
theorem popped_mono
    {n later : Nat}
    (before : n ≤ later) :
    popped s n ≤ popped s later := by
  induction before with
  | refl => exact Nat.le_refl _
  | step _ inductionHypothesis =>
      exact inductionHypothesis.trans (Nat.le_add_right _ _)

/-- In 66 cycles at most one block is finished. -/
theorem popped_near
    {n k : Nat}
    (near : k ≤ 66) :
    popped s (n + k) ≤ popped s n + 1 ∧
      (popped s (n + k) = popped s n + 1 →
        ∃ last, n ≤ last ∧ last < n + k ∧
          JpegIdctRam.blockDone (s last).ram = true) := by
  induction k with
  | zero => simp
  | succ k inductionHypothesis =>
      obtain ⟨below, finished⟩ := inductionHypothesis (by omega)
      have next : popped s (n + (k + 1)) =
          popped s (n + k) +
            (JpegIdctRam.blockDone (s (n + k)).ram).toNat := rfl
      cases done : JpegIdctRam.blockDone (s (n + k)).ram with
      | false =>
          rw [next, done]
          refine ⟨below, fun reached => ?_⟩
          obtain ⟨last, after, before, isLast⟩ := finished reached
          exact ⟨last, after, by omega, isLast⟩
      | true =>
          have fresh : popped s (n + k) ≠ popped s n + 1 := by
            intro reached
            obtain ⟨last, after, before, isLast⟩ := finished reached
            obtain ⟨valid, isPlace⟩ := (blockDone_iff last).mp isLast
            obtain ⟨validToo, isPlaceToo⟩ :=
              (blockDone_iff (n + k)).mp done
            obtain ⟨reaches, starts⟩ := run.bursts.started (by decide) valid
            obtain ⟨reachesToo, startsToo⟩ :=
              run.bursts.started (by decide) validToo
            have apart := run.bursts.apart starts startsToo (by omega)
            omega
          rw [next, done, Bool.toNat_true]
          exact ⟨by omega, fun _ => ⟨n + k, by omega, by omega, done⟩⟩

/-- At most two blocks are behind the coefficient buffer. -/
theorem popped_shown (n : Nat) :
    popped s n ≤ shown s n + 2 := by
  have reach (m k : Nat) (near : k ≤ 132) :
      popped s (m + k) ≤ popped s m + 2 := by
    have first := (run.popped_near (n := m) (k := k / 2) (by omega)).1
    have second :=
      (run.popped_near (n := m + k / 2) (k := k - k / 2) (by omega)).1
    rw [show m + k / 2 + (k - k / 2) = m + k by omega] at second
    omega
  rcases Nat.lt_or_ge n 88 with early | late
  · have near := reach 0 n (by omega)
    rw [Nat.zero_add] at near
    have nonePopped : popped s 0 = 0 := rfl
    omega
  · obtain ⟨before, rfl⟩ := Nat.exists_eq_add_of_le' late
    rw [shown, delayed_add]
    exact reach before 88 (by decide)

/-! ## The queue of ids -/

omit run in
theorem ptrConv_last :
    ∀ m < 64, ptrConv (BitVec.ofNat 6 m) = 63 ↔ m = 63 := by
  decide +kernel

/-- An id is dropped 88 cycles behind the last item of its block. -/
theorem idPop_eq (n : Nat) :
    (s (n + 88)).idPop = JpegIdctRam.blockDone (s n).ram := by
  obtain ⟨valid, idx⟩ := run.outport_eq n
  rw [Bool.eq_iff_iff, blockDone_iff, State.idPop, Bool.and_eq_true,
    beq_iff_eq, valid, idx, ptrConv_last _ (run.bursts.inside n)]

/-- Before the first block has passed nothing is shown. -/
theorem outport_early
    {n : Nat}
    (early : n < 88) :
    (s n).outportValid = false := by
  have valid := congrFun run.outportValid_eq n
  rwa [delayed_early early] at valid

omit run in
theorem shown_early
    {n : Nat}
    (early : n ≤ 88) :
    shown s n = 0 := by
  rcases Nat.lt_or_eq_of_le early with before | rfl
  · exact delayed_early before
  · exact delayed_add 0

theorem shown_succ (n : Nat) :
    shown s (n + 1) = shown s n + (s n).idPop.toNat := by
  rcases Nat.lt_or_ge n 88 with early | late
  · rw [State.idPop, run.outport_early early, shown_early early.le,
      shown_early early]
    rfl
  · obtain ⟨before, rfl⟩ := Nat.exists_eq_add_of_le' late
    rw [run.idPop_eq before, Nat.add_right_comm, shown, delayed_add, shown,
      delayed_add]
    rfl

omit run in
/-- The blocks are those of the coefficient buffer. -/
theorem blocksAt_coeffs (n : Nat) :
    (blocksAt s i n).map Block.coeffs =
      JpegIdctRam.closedAt (ramAt s) (ramPins i) n := by
  induction n with
  | zero => rfl
  | succ n inductionHypothesis =>
      rw [blocksAt, JpegIdctRam.closedAt, JpegIdctRam.closedNext,
        ← inductionHypothesis]
      split_ifs <;> simp

omit run in
theorem length_blocksAt (n : Nat) :
    (blocksAt s i n).length =
      (JpegIdctRam.closedAt (ramAt s) (ramPins i) n).length := by
  rw [← blocksAt_coeffs, List.length_map]

omit run in
/-- The blocks closed so far are kept. -/
theorem blocksAt_mono (n k : Nat) :
    blocksAt s i n <+: blocksAt s i (n + k) := by
  induction k with
  | zero => exact List.prefix_rfl
  | succ k inductionHypothesis =>
      refine inductionHypothesis.trans ?_
      rw [← Nat.add_assoc, blocksAt]
      split_ifs
      · exact List.prefix_append _ _
      · exact List.prefix_rfl

omit run in
theorem blocksAt_kept
    {n j : Nat}
    {block : Block}
    (isClosed : (blocksAt s i n)[j]? = some block)
    (k : Nat) :
    (blocksAt s i (n + k))[j]? = some block := by
  obtain ⟨later, isLater⟩ := blocksAt_mono (s := s) (i := i) n k
  have inside := (List.getElem?_eq_some_iff.mp isClosed).1
  rw [← isLater, List.getElem?_append_left inside, isClosed]

/-- A block that is closed is the one that its slot holds. -/
theorem block_closed
    {n : Nat}
    (closes : JpegIdctRam.closes (ramAt s n) (ramPins i n) = true) :
    ∃ block, (blocksAt s i (n + 1))[(blocksAt s i n).length]? = some block ∧
      block.id = (i n).inportId ∧
        ∀ idx, block.coeffs idx =
          JpegIdctRam.stored (s (n + 1)).ram (s n).ram.blockWrQ idx := by
  have slots := run.ramRun.slots n
  have reading := run.ramRun.reading n
  have accepts := closes
  rw [JpegIdctRam.closes, Bool.and_eq_true] at accepts
  have room := slots.accepts_iff.mp accepts.2
  have fresh : ¬ (JpegIdctRam.blockDone (ramAt s n) = true ∧
      (JpegIdctRam.closedAt (ramAt s) (ramPins i) n).length =
        JpegIdctRam.poppedAt (ramAt s) n) := by
    rintro ⟨done, same⟩
    have present := slots.rd_ready (reading.ready.done done)
    omega
  refine ⟨_, by rw [blocksAt, if_pos closes, List.getElem?_concat_length],
    rfl, fun idx => ?_⟩
  have held := JpegIdctRam.content_step (i := ramPins i n)
    (run.ramRun.noReset n) (run.ramRun.noStart n) slots
    _ slots.behind room fresh idx
  rw [JpegIdctRam.content_next, if_pos rfl, ← slots.wr] at held
  rw [run.next]
  exact held.symm

/-- A block is shown only when it was closed. -/
theorem popped_lt
    {n : Nat}
    (valid : active s n = true) :
    popped s n < (blocksAt s i n).length := by
  obtain ⟨block, isNext, -⟩ := run.ramRun.shows_block valid
  rw [length_blocksAt]
  exact (List.getElem?_eq_some_iff.mp isNext).1

/-- An id is queued with an end pulse. -/
def idPush (i : Input) : Option (BitVec 32) :=
  if i.inportEob then some i.inportId else none

/-- The ids that were queued before the `n`-th cycle. -/
def idsAt (s : Nat → State) (i : Nat → Input) : Nat → List (BitVec 32)
  | 0 => []
  | n + 1 => idsAt s i n ++ ((s n).idFifo.stored (idPush (i n))).toList

/-- The number of ids that were dropped before the `n`-th cycle. -/
def droppedAt (s : Nat → State) : Nat → Nat
  | 0 => 0
  | n + 1 => droppedAt s n + ((s n).idPop && (s n).idFifo.validO).toNat

/-- Where a block may end, few blocks have not left. -/
theorem room
    {n : Nat}
    (accepts : (s n).inportAccept = true) :
    (blocksAt s i n).length - shown s n < 6 := by
  have slots := (run.ramRun.slots n).accepts_iff.mp accepts
  have behind : JpegIdctRam.poppedAt (ramAt s) n ≤ shown s n + 2 :=
    run.popped_shown n
  rw [length_blocksAt]
  omega

/-- A block that loses its id is one that was closed. -/
theorem shown_lt
    {n : Nat}
    (pops : (s n).idPop = true) :
    shown s n < (blocksAt s i n).length := by
  rcases Nat.lt_or_ge n 88 with early | late
  · rw [State.idPop, run.outport_early early] at pops
    cases pops
  · obtain ⟨before, rfl⟩ := Nat.exists_eq_add_of_le' late
    rw [run.idPop_eq, blockDone_iff] at pops
    have present := run.popped_lt pops.1
    have kept := (blocksAt_mono (s := s) (i := i) before 88).length_le
    rw [shown, delayed_add]
    omega

/-- The queue of ids at a time. -/
structure IdQueue (s : Nat → State) (i : Nat → Input) (n : Nat) : Prop where
  pointers :
    RingBuffer.Consistent (s n).idFifo.wrPtrQ (s n).idFifo.rdPtrQ
      (s n).idFifo.countQ
  queue :
    RingBuffer.contents (s n).idFifo.ramQ (s n).idFifo.rdPtrQ
        (s n).idFifo.countQ.toNat =
      (idsAt s i n).drop (droppedAt s n)
  behind : droppedAt s n ≤ (idsAt s i n).length

section IdQueue

variable {n : Nat} (known : IdQueue s i n)

include known

omit run in
/-- The queue holds the ids that were queued and not dropped. -/
theorem IdQueue.count_eq :
    (s n).idFifo.countQ.toNat = (idsAt s i n).length - droppedAt s n := by
  have size := congrArg List.length known.queue
  simpa using size

omit run in
theorem IdQueue.room
    {push : Option (BitVec 32)}
    (isPush : ((s n).idFifo.stored push).isSome = true) :
    (s n).idFifo.countQ.toNat < 2 ^ 3 := by
  have fits := known.pointers.fits
  rw [JpegOutput.Fifo.stored] at isPush
  split at isPush
  · next accepts =>
      rw [JpegOutput.Fifo.acceptO, bne_iff_ne] at accepts
      have notFull := mt BitVec.eq_of_toNat_eq accepts
      exact Nat.lt_of_le_of_ne fits notFull
  · cases isPush

omit run known in
theorem acceptO_of_room
    {fifo : JpegOutput.Fifo 3 (BitVec 32)}
    (space : fifo.countQ.toNat < 6) :
    fifo.acceptO = true := by
  rw [JpegOutput.Fifo.acceptO, bne_iff_ne]
  intro full
  rw [full] at space
  exact absurd space (by decide)

omit run known in
theorem validO_iff (fifo : JpegOutput.Fifo 3 (BitVec 32)) :
    fifo.validO = true ↔ 0 < fifo.countQ.toNat := by
  rw [JpegOutput.Fifo.validO, bne_iff_ne, Nat.pos_iff_ne_zero, ne_eq, ne_eq,
    ← BitVec.toNat_inj]
  rfl

/-- A cycle queues an id that is accepted and drops that of a block that left. -/
theorem IdQueue.step : IdQueue s i (n + 1) := by
  have next : (s (n + 1)).idFifo =
      (s n).idFifo.step (idPush (i n)) (s n).idPop := by
    rw [run.next]
    simp [State.step, State.idFifoNext, run.noReset, run.noStart, idPush]
  have present (pops : ((s n).idPop && (s n).idFifo.validO) = true) :
      0 < (s n).idFifo.countQ.toNat := by
    rw [Bool.and_eq_true] at pops
    exact (validO_iff _).mp pops.2
  have reaches : droppedAt s (n + 1) ≤ (idsAt s i n).length := by
    rw [droppedAt]
    cases pops : (s n).idPop && (s n).idFifo.validO with
    | false => exact known.behind
    | true =>
        have idQueued := present pops
        rw [known.count_eq] at idQueued
        rw [Bool.toNat_true]
        omega
  constructor
  · rw [next, JpegOutput.Fifo.step]
    exact known.pointers.next known.room present
  · rw [next, JpegOutput.Fifo.step]
    simp only
    rw [RingBuffer.contents_next _ known.pointers known.room present,
      known.queue, List.drop_drop, idsAt,
      List.drop_append_of_le_length reaches]
    rfl
  · rw [idsAt, List.length_append]
    omega

end IdQueue

/-- The queue of ids is a queue in every cycle. -/
theorem idQueue (n : Nat) : IdQueue s i n := by
  induction n with
  | zero =>
      obtain ⟨-, -, -, -, rdPtrQ, wrPtrQ, countQ⟩ := run.initially
      constructor
      · rw [rdPtrQ, wrPtrQ, countQ]
        exact RingBuffer.consistent_empty
      · simp [countQ, idsAt]
      · simp [droppedAt]
  | succ n inductionHypothesis =>
      exact inductionHypothesis.step run

/-! ## Ids in step with the blocks -/

/--
While end pulses come when they are accepted, an id is queued for every block
and dropped with its last sample.
-/
theorem ids_eq
    {n : Nat}
    (heeds : Heeds s i n) :
    idsAt s i n = (blocksAt s i n).map Block.id ∧
      droppedAt s n = shown s n := by
  induction n with
  | zero => exact ⟨rfl, rfl⟩
  | succ n inductionHypothesis =>
      obtain ⟨ids, dropped⟩ :=
        inductionHypothesis (heeds.before (Nat.le_succ n))
      have count := (run.idQueue n).count_eq
      rw [ids, dropped, List.length_map] at count
      constructor
      · rw [idsAt, ids, blocksAt, idPush]
        cases ended : (i n).inportEob with
        | false =>
            have noClose :
                JpegIdctRam.closes (ramAt s n) (ramPins i n) = false := by
              rw [JpegIdctRam.closes]
              exact Bool.and_eq_false_imp.mpr fun pulse =>
                absurd (ended.symm.trans pulse) (by decide)
            simp [noClose, JpegOutput.Fifo.stored]
        | true =>
            have accepts := heeds n (Nat.lt_succ_self n) (.inr ended)
            have closes :
                JpegIdctRam.closes (ramAt s n) (ramPins i n) = true := by
              rw [JpegIdctRam.closes, Bool.and_eq_true]
              exact ⟨ended, accepts⟩
            have space := run.room accepts
            rw [← count] at space
            simp [closes, JpegOutput.Fifo.stored, acceptO_of_room space]
      · rw [droppedAt, run.shown_succ, dropped]
        cases pops : (s n).idPop with
        | false => rfl
        | true =>
            have idQueued := run.shown_lt pops
            rw [(validO_iff _).mpr (by omega)]
            rfl

/-- The queue accepts the id of every block that ends in time. -/
theorem idFifo_accepts
    {n : Nat}
    (heeds : Heeds s i (n + 1))
    (ended : (i n).inportEob = true) :
    (s n).idFifo.acceptO = true := by
  obtain ⟨ids, dropped⟩ := run.ids_eq (heeds.before (Nat.le_succ n))
  have count := (run.idQueue n).count_eq
  have space := run.room (heeds n (Nat.lt_succ_self n) (.inr ended))
  rw [ids, dropped, List.length_map] at count
  exact acceptO_of_room (count ▸ space)

/-- Later end pulses do not come between the blocks and their ids. -/
theorem ids_later
    {n : Nat}
    (heeds : Heeds s i n)
    (k : Nat) :
    (blocksAt s i n).map Block.id <+: idsAt s i (n + k) ∧
      (shown s (n + k) ≤ (blocksAt s i n).length →
        droppedAt s (n + k) = shown s (n + k)) := by
  induction k with
  | zero =>
      obtain ⟨ids, dropped⟩ := run.ids_eq heeds
      exact ⟨ids ▸ List.prefix_rfl, fun _ => dropped⟩
  | succ k inductionHypothesis =>
      obtain ⟨ids, dropped⟩ := inductionHypothesis
      refine ⟨ids.trans (List.prefix_append _ _), fun inside => ?_⟩
      have next := run.shown_succ (n + k)
      rw [← Nat.add_assoc] at inside ⊢
      have same := dropped (by omega)
      rw [droppedAt, next, same]
      cases pops : (s (n + k)).idPop with
      | false => rfl
      | true =>
          have count := (run.idQueue (n + k)).count_eq
          have size := ids.length_le
          rw [List.length_map] at size
          rw [pops, Bool.toNat_true] at next
          rw [(validO_iff _).mpr (by omega)]
          rfl

/-- The id at the front of the queue is that of the block that leaves. -/
theorem outportId_eq
    {n k : Nat}
    (heeds : Heeds s i n)
    {block : Block}
    (isNext : (blocksAt s i n)[shown s (n + k)]? = some block) :
    (s (n + k)).outportId = block.id := by
  obtain ⟨⟨later, ids⟩, dropped⟩ := run.ids_later heeds k
  have inside := (List.getElem?_eq_some_iff.mp isNext).1
  have known := run.idQueue (n + k)
  have count := known.count_eq
  have first := congrArg (·[0]?) known.queue
  rw [dropped inside.le] at count first
  rw [← ids, List.length_append, List.length_map] at count
  simp only [List.getElem?_drop, Nat.add_zero, ← ids] at first
  rw [List.getElem?_append_left (by rwa [List.length_map]),
    List.getElem?_map, isNext, List.getElem?_eq_getElem
      (by rw [RingBuffer.length_contents]; omega)] at first
  simpa [State.outportId, JpegOutput.Fifo.dataOutO] using first

/-! ## Samples -/

omit run in
/-- Two lists of closed blocks agree. -/
theorem blocks_agree
    {n m j : Nat}
    {block other : Block}
    (isBlock : (blocksAt s i n)[j]? = some block)
    (isOther : (blocksAt s i m)[j]? = some other) :
    block = other := by
  rcases Nat.le_total n m with before | behind
  · obtain ⟨k, rfl⟩ := Nat.exists_eq_add_of_le before
    have kept := blocksAt_kept isBlock k
    exact Option.some.inj (kept.symm.trans isOther)
  · obtain ⟨k, rfl⟩ := Nat.exists_eq_add_of_le behind
    have kept := blocksAt_kept isOther k
    exact Option.some.inj (isBlock.symm.trans kept)

/-- The item that the coefficient buffer shows leaves 88 cycles later. -/
theorem sample_shown
    {n time : Nat}
    (heeds : Heeds s i n)
    (valid : active s time = true)
    {block : Block}
    (isNext : (blocksAt s i n)[popped s time]? = some block) :
    (s (time + 88)).sample = some (block.sample (place s time)) := by
  have present := run.popped_lt valid
  have inside := run.bursts.inside time
  obtain ⟨reaches, starts⟩ := run.bursts.started (by decide) valid
  have same : time - place s time + place s time = time :=
    Nat.sub_add_cancel reaches
  have kept := run.popped_kept starts inside
  obtain ⟨coeffs, isShown, -⟩ := run.ramRun.shows_block starts.1
  have data := run.block_shown starts isShown inside
  have still := closedAt_kept isShown (place s time)
  rw [same] at kept data still
  change popped s time = JpegIdctRam.poppedAt _ _ at kept
  have here := List.getElem?_eq_getElem present
  obtain rfl := blocks_agree isNext here
  rw [← kept, ← blocksAt_coeffs, List.getElem?_map, here, Option.map_some,
    Option.some.injEq] at still
  obtain ⟨validShown, idx⟩ := run.outport_eq time
  have id : (s (time + 88)).outportId =
      (blocksAt s i time)[popped s time].id := by
    rcases Nat.le_total n (time + 88) with before | behind
    · obtain ⟨k, isTime⟩ := Nat.exists_eq_add_of_le before
      rw [isTime]
      refine run.outportId_eq heeds ?_
      rw [← isTime, shown, delayed_add]
      exact isNext
    · refine run.outportId_eq (k := 0) (heeds.before behind) ?_
      rw [Nat.add_zero, shown, delayed_add]
      exact blocksAt_kept here 88
  rw [State.sample, validShown, valid, if_pos rfl, Block.sample, still, idx, data,
    id]

/-! ## Order -/

omit run in
theorem length_samples (block : Block) : block.samples.length = 64 := by
  simp [Block.samples]

omit run in
/-- The samples of the blocks of a list, counted through. -/
theorem getElem?_samples
    (blocks : List Block)
    (k : Nat)
    {m : Nat}
    (inside : m < 64) :
    (blocks.flatMap Block.samples)[64 * k + m]? =
      (blocks[k]?).map fun block => block.sample m := by
  induction blocks generalizing k with
  | nil => simp
  | cons block blocks inductionHypothesis =>
      rw [List.flatMap_cons]
      cases k with
      | zero =>
          rw [List.getElem?_append_left (by rw [length_samples]; omega)]
          simp [Block.samples, inside]
      | succ k =>
          rw [List.getElem?_append_right (by rw [length_samples]; omega),
            length_samples, show 64 * (k + 1) + m - 64 = 64 * k + m by omega,
            inductionHypothesis, List.getElem?_cons_succ]

omit run in
theorem length_flatMap_samples (blocks : List Block) :
    (blocks.flatMap Block.samples).length = 64 * blocks.length := by
  induction blocks with
  | nil => rfl
  | cons block blocks inductionHypothesis =>
      rw [List.flatMap_cons, List.length_append, length_samples,
        inductionHypothesis, List.length_cons]
      omega

/-- A cycle that shows an item is progress by one. -/
theorem progress_succ (n : Nat) :
    progress s (n + 1) = progress s n + (active s n).toNat := by
  have next := run.bursts.place_succ n
  have done := blockDone_iff (s := s) n
  have pops : popped s (n + 1) =
      popped s n + (JpegIdctRam.blockDone (s n).ram).toNat := rfl
  rw [progress, progress, next, pops]
  cases valid : active s n with
  | false =>
      have notDone : JpegIdctRam.blockDone (s n).ram = false := by
        rw [← Bool.not_eq_true, done, valid]
        simp
      simp [notDone]
  | true =>
      have inside := run.bursts.inside n
      by_cases last : place s n = 63
      · have isDone := done.mpr ⟨valid, last⟩
        simp [isDone, last]
        omega
      · have notDone : JpegIdctRam.blockDone (s n).ram = false := by
          rw [← Bool.not_eq_true, done]
          exact fun both => last both.2
        simp [notDone]
        omega

/-- What is shown belongs to the closed blocks. -/
theorem progress_le (n : Nat) :
    progress s n ≤ 64 * (blocksAt s i n).length := by
  have inside := run.bursts.inside n
  cases valid : active s n with
  | false =>
      have fresh := (run.bursts.quiet n valid).1
      have behind : popped s n ≤ _ := (run.ramRun.slots n).behind
      rw [← length_blocksAt] at behind
      rw [progress, fresh]
      omega
  | true =>
      have present := run.popped_lt valid
      rw [progress]
      omega

theorem samplesAt_early
    {n : Nat}
    (early : n ≤ 88) :
    samplesAt s n = [] := by
  induction n with
  | zero => rfl
  | succ n inductionHypothesis =>
      rw [samplesAt, inductionHypothesis (by omega), State.sample,
        run.outport_early early]
      rfl

theorem progress_zero : progress s 0 = 0 := by
  have fresh := run.bursts.first
  simp [progress, JpegIdctRam.poppedAt, fresh]

theorem length_samplesAt (n : Nat) :
    (samplesAt s (n + 88)).length = progress s n := by
  induction n with
  | zero => rw [run.samplesAt_early (by decide), run.progress_zero]; rfl
  | succ n inductionHypothesis =>
      have validShown := (run.outport_eq n).1
      rw [Nat.add_right_comm, samplesAt, List.length_append,
        inductionHypothesis, run.progress_succ, State.sample, validShown]
      cases active s n <;> rfl

/-- The samples of the blocks that left are the first ones of the blocks. -/
theorem samplesAt_eq
    {n : Nat}
    (heeds : Heeds s i n)
    (time : Nat) :
    (samplesAt s (time + 88)).take (64 * (blocksAt s i n).length) =
      ((blocksAt s i n).flatMap Block.samples).take (progress s time) := by
  have size := length_flatMap_samples (blocksAt s i n)
  induction time with
  | zero => simp [run.samplesAt_early, run.progress_zero]
  | succ time inductionHypothesis =>
      have reached := run.length_samplesAt time
      rw [Nat.add_right_comm, samplesAt, run.progress_succ]
      rcases Nat.lt_or_ge (progress s time)
        (64 * (blocksAt s i n).length) with inside | behind
      · rw [List.take_of_length_le (by omega)] at inductionHypothesis
        have validShown := (run.outport_eq time).1
        cases valid : active s time with
        | false =>
            rw [State.sample, validShown, valid]
            simp [← inductionHypothesis, reached, inside.le]
        | true =>
            have placed := run.bursts.inside time
            have present : popped s time < (blocksAt s i n).length := by
              rw [progress] at inside
              omega
            have isNext := List.getElem?_eq_getElem present
            have here := getElem?_samples (blocksAt s i n) (popped s time)
              placed
            rw [isNext, Option.map_some] at here
            rw [run.sample_shown heeds valid isNext, inductionHypothesis,
              Bool.toNat_true, List.take_add_one, progress, here,
              List.take_of_length_le]
            have fits := List.length_take_le (progress s time)
              ((blocksAt s i n).flatMap Block.samples)
            rw [progress] at inside fits
            simp only [Option.toList_some, List.length_append,
              List.length_singleton]
            omega
      · rw [List.take_append_of_le_length (by omega), inductionHypothesis,
          List.take_of_length_le (by omega), List.take_of_length_le (by omega)]

/-! ## Progress -/

/-- A block that is shown is finished. -/
theorem popped_of_active
    {n : Nat}
    (valid : active s n = true) :
    ∃ later, n < later ∧ popped s n < popped s later := by
  obtain ⟨reaches, starts⟩ := run.bursts.started (by decide) valid
  have inside := run.bursts.inside n
  have same : n - place s n + place s n = n := Nat.sub_add_cancel reaches
  have kept := run.popped_kept starts inside
  have last := run.bursts.of_starts starts (k := 63) (by decide)
  have keptToo := run.popped_kept starts (m := 63) (by decide)
  have done := (blockDone_iff (s := s) (n - place s n + 63)).mpr last
  have next : popped s (n - place s n + 63 + 1) =
      popped s (n - place s n + 63) + 1 := by
    rw [popped, JpegIdctRam.poppedAt, done]
    rfl
  rw [same] at kept
  exact ⟨n - place s n + 63 + 1, by omega, by omega⟩

/-- A read-out that was begun is finished. -/
theorem popped_of_busy
    {n : Nat}
    (busy : (s n).ram.stateQ ≠ .idle) :
    ∃ later, n < later ∧ popped s n < popped s later := by
  cases state : (s n).ram.stateQ with
  | idle => exact absurd state busy
  | active =>
      exact run.popped_of_active (by
        simp [active, JpegIdctRam.outportValid, state])
  | setup =>
      have next := JpegIdctRam.stateQ_step (s := (s n).ram) (i := (i n).ram)
        (run.noReset n) (run.noStart n)
      have valid : active s (n + 1) = true := by
        rw [active, run.next, State.step, JpegIdctRam.outportValid, next, state]
        rfl
      obtain ⟨later, after, grows⟩ := run.popped_of_active valid
      have kept : popped s n ≤ popped s (n + 1) := Nat.le_add_right _ _
      exact ⟨later, by omega, by omega⟩

/-- A closed block is shown once `outport_accept_i` is high. -/
theorem popped_of_present
    {n wait : Nat}
    (present : popped s n < (blocksAt s i n).length)
    (accepted : (i (n + wait)).outportAccept = true) :
    ∃ later, n < later ∧ popped s n < popped s later := by
  induction wait generalizing n with
  | zero =>
      by_cases busy : (s n).ram.stateQ ≠ .idle
      · exact run.popped_of_busy busy
      · have slots := run.ramRun.slots n
        have ready : (s n).ram.blockReadyQ (s n).ram.blockRdQ = true := by
          rw [length_blocksAt] at present
          rw [slots.rd]
          exact (slots.ready _ (Nat.le_refl _) (by omega)).mpr present
        have isIdle := not_not.mp busy
        have next := JpegIdctRam.stateQ_step (s := (s n).ram)
          (i := (i n).ram) (run.noReset n) (run.noStart n)
        have begun : (s (n + 1)).ram.stateQ ≠ .idle := by
          have isReady : (i n).ram.outportReady = true := accepted
          rw [run.next, State.step, next, isIdle, ready, isReady]
          simp
        obtain ⟨later, after, grows⟩ := run.popped_of_busy begun
        have kept : popped s n ≤ popped s (n + 1) := Nat.le_add_right _ _
        exact ⟨later, by omega, by omega⟩
  | succ wait inductionHypothesis =>
      by_cases busy : (s n).ram.stateQ ≠ .idle
      · exact run.popped_of_busy busy
      · have isIdle := not_not.mp busy
        have same : popped s (n + 1) = popped s n := by
          have notDone : JpegIdctRam.blockDone (s n).ram = false := by
            simp [JpegIdctRam.blockDone, JpegIdctRam.outportValid, isIdle]
          rw [popped, JpegIdctRam.poppedAt, notDone]
          rfl
        have grows := (blocksAt_mono (s := s) (i := i) n 1).length_le
        obtain ⟨later, after, more⟩ := inductionHypothesis (n := n + 1)
          (by omega) (by rwa [Nat.add_right_comm])
        exact ⟨later, by omega, by omega⟩

/-- As many blocks as were closed are shown in the end. -/
theorem popped_reaches
    (fair : ∀ n, ∃ wait, (i (n + wait)).outportAccept = true)
    (n count : Nat)
    (closed : count ≤ (blocksAt s i n).length) :
    ∃ later, n ≤ later ∧ count ≤ popped s later := by
  induction count with
  | zero => exact ⟨n, Nat.le_refl n, Nat.zero_le _⟩
  | succ count inductionHypothesis =>
      obtain ⟨reached, after, counted⟩ := inductionHypothesis (by omega)
      by_cases more : count < popped s reached
      · exact ⟨reached, after, more⟩
      · obtain ⟨wait, accepted⟩ := fair reached
        have grows := (blocksAt_mono (s := s) (i := i) n (reached - n)).length_le
        rw [Nat.add_sub_cancel' after] at grows
        obtain ⟨later, behind, counts⟩ :=
          run.popped_of_present (by omega) accepted
        exact ⟨later, by omega, by omega⟩

/-! ## Blocks that leave -/

/-- The samples of the closed blocks leave in order. -/
theorem taken_samples
    {n : Nat}
    (heeds : Heeds s i n)
    (time : Nat) :
    (samplesAt s time).take (64 * (blocksAt s i n).length) <+:
      (blocksAt s i n).flatMap Block.samples := by
  rcases Nat.lt_or_ge time 88 with early | late
  · rw [run.samplesAt_early early.le, List.take_nil]
    exact List.nil_prefix
  · obtain ⟨before, rfl⟩ := Nat.exists_eq_add_of_le' late
    rw [run.samplesAt_eq heeds]
    exact List.take_prefix _ _

/-- No more samples leave than the closed blocks have. -/
theorem length_samplesAt_le (time : Nat) :
    (samplesAt s time).length ≤ 64 * (blocksAt s i time).length := by
  rcases Nat.lt_or_ge time 88 with early | late
  · rw [run.samplesAt_early early.le]
    exact Nat.zero_le _
  · obtain ⟨before, rfl⟩ := Nat.exists_eq_add_of_le' late
    have shown := run.progress_le before
    have grows := (blocksAt_mono (s := s) (i := i) before 88).length_le
    rw [run.length_samplesAt]
    omega

/-- What leaves in the place of a closed block is a sample of it. -/
theorem block_samples
    {n k m time : Nat}
    (heeds : Heeds s i n)
    {block : Block}
    (isBlock : (blocksAt s i n)[k]? = some block)
    (inside : m < 64)
    {sample : Sample}
    (isSample : (samplesAt s time)[64 * k + m]? = some sample) :
    sample = block.sample m := by
  have present := (List.getElem?_eq_some_iff.mp isBlock).1
  obtain ⟨later, isLater⟩ := run.taken_samples heeds time
  rw [← List.getElem?_take_of_lt (show 64 * k + m <
    64 * (blocksAt s i n).length by omega)] at isSample
  have here := getElem?_samples (blocksAt s i n) k inside
  have reaches := (List.getElem?_eq_some_iff.mp isSample).1
  rw [← isLater, List.getElem?_append_left reaches, isSample, isBlock,
    Option.map_some, Option.some.injEq] at here
  exact here

/-- A closed block leaves when `outport_accept_i` does not stay low. -/
theorem block_leaves
    (fair : ∀ n, ∃ wait, (i (n + wait)).outportAccept = true)
    {n k : Nat}
    (closed : k < (blocksAt s i n).length) :
    ∃ time, 64 * k + 64 ≤ (samplesAt s time).length := by
  obtain ⟨time, -, counted⟩ := run.popped_reaches fair n (k + 1) closed
  refine ⟨time + 88, ?_⟩
  rw [run.length_samplesAt, progress]
  omega

/--
The samples that leave are the transformed blocks in the order of their end
pulses, each with the id of its block.  The stages without back-pressure lose
nothing: the transpose buffer accepts every item that the first pass shows, and
the queue of ids accepts every id.  Samples and end pulses are looked at up to
a cycle `n`; what comes later does not change what becomes of these blocks.  No
more samples leave than the closed blocks have, and every item that the
coefficient buffer shows leaves 88 cycles later: what is missing of a shown
block is on its way through the passes.
-/
theorem transforms_blocks
    {n : Nat}
    (heeds : Heeds s i n)
    (time : Nat) :
    (samplesAt s time).take (64 * (blocksAt s i n).length) <+:
        (blocksAt s i n).flatMap Block.samples ∧
      ((s time).x.outportValid = true →
        JpegIdctTranspose.inportAccept (s time).transpose = true) ∧
      (time < n → (i time).inportEob = true →
        (s time).idFifo.acceptO = true) ∧
      (samplesAt s time).length ≤ 64 * (blocksAt s i time).length ∧
      (samplesAt s (time + 88)).length = progress s time :=
  ⟨run.taken_samples heeds time, fun _ => run.transpose_accepts time,
    fun before => run.idFifo_accepts (heeds.before before),
    run.length_samplesAt_le time, run.length_samplesAt time⟩

end Counts

/-- One block with one coefficient and its end pulse, in the first cycle. -/
def oneBlock (n : Nat) : Input where
  rst := false
  imgStart := false
  inportValid := n == 0
  inportData := 800
  inportIdx := 0
  inportEob := n == 0
  inportId := 7
  outportAccept := true

/-- The run behind reset. -/
def oneBlockAt : Nat → State :=
  Clocked.trace State.step
    (State.reset (fun _ _ => 0) (fun _ => 0) (fun _ _ => 0) (fun _ => 0)
      fun _ => 0) oneBlock

theorem oneBlock_run : Run oneBlockAt oneBlock where
  initially := State.empty_reset _ _ _ _ _
  next _ := rfl
  noReset _ := rfl
  noStart _ := rfl

theorem oneBlock_heeds : Heeds oneBlockAt oneBlock 1 := by
  intro m inside _
  obtain rfl : m = 0 := by omega
  rfl

/-- The only block leaves from the 91st cycle on. -/
theorem transforms_blocks_one :
    (blocksAt oneBlockAt oneBlock 1).length = 1 ∧
      (samplesAt oneBlockAt 155).take
          (64 * (blocksAt oneBlockAt oneBlock 1).length) <+:
        (blocksAt oneBlockAt oneBlock 1).flatMap Block.samples :=
  ⟨rfl, (transforms_blocks oneBlock_run oneBlock_heeds 155).1⟩

section Leaving

variable (run : Run s i)

include run

/--
When `outport_accept_i` does not stay low, every block whose end pulse came
leaves with all its samples.
-/
theorem blocks_leave
    {n : Nat}
    (heeds : Heeds s i n)
    (fair : ∀ n, ∃ wait, (i (n + wait)).outportAccept = true) :
    ∃ time, (blocksAt s i n).flatMap Block.samples <+: samplesAt s time := by
  obtain ⟨time, -, counted⟩ := run.popped_reaches fair n _ (Nat.le_refl _)
  refine ⟨time + 88, ?_⟩
  have all := run.samplesAt_eq heeds time
  rw [List.take_of_length_le (l := (blocksAt s i n).flatMap Block.samples)
    (by rw [length_flatMap_samples, progress]; omega)] at all
  rw [← all]
  exact List.take_prefix _ _

end Leaving

/-- With the output always ready the only block leaves. -/
theorem blocks_leave_one :
    ∃ time, (blocksAt oneBlockAt oneBlock 1).flatMap Block.samples <+:
      samplesAt oneBlockAt time :=
  blocks_leave oneBlock_run oneBlock_heeds fun _ => ⟨0, rfl⟩

end Run

end CoreJpeg.JpegIdct
