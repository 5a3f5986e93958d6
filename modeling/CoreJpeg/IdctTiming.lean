import CoreJpeg.IdctOrder

namespace CoreJpeg.JpegIdct

open Bursts

/-!
# When blocks leave

`outport_accept_i` is looked at when the coefficient buffer begins a block; the
block then leaves, whatever becomes of the pin.  At most two blocks are under
way at that time, and blocks begin at least 66 cycles apart.  End pulses that
come behind the last block in time fill up the queue of ids, but do not bring it
out of step.
-/

namespace Run

variable {s : Nat → State} {i : Nat → Input}

section Timing

variable (run : Run s i)

include run

/-! ## Where a block begins -/

/-- A block that is read out was begun while its samples were accepted. -/
theorem begun_accepted
    {n : Nat}
    (busy : (s n).ram.stateQ ≠ .idle) :
    ∃ begun < n, (i begun).outportAccept = true ∧
      popped s begun = popped s n := by
  induction n with
  | zero => exact absurd run.initially.ram.notReading busy
  | succ n inductionHypothesis =>
      have next := JpegIdctRam.stateQ_step (s := (s n).ram) (i := (i n).ram)
        (run.noReset n) (run.noStart n)
      rw [run.next, State.step, next] at busy
      have counted : popped s (n + 1) =
          popped s n + (JpegIdctRam.blockDone (s n).ram).toNat := rfl
      cases before : (s n).ram.stateQ with
      | idle =>
          have notDone : JpegIdctRam.blockDone (s n).ram = false := by
            simp [JpegIdctRam.blockDone, JpegIdctRam.outportValid, before]
          rw [before] at busy
          have both : ((s n).ram.blockReadyQ (s n).ram.blockRdQ &&
              (i n).outportAccept) = true := by
            by_contra closed
            simp [Input.ram, Bool.not_eq_true _ ▸ closed] at busy
          rw [Bool.and_eq_true] at both
          exact ⟨n, Nat.lt_succ_self n, both.2, by rw [counted, notDone]; rfl⟩
      | setup =>
          have notDone : JpegIdctRam.blockDone (s n).ram = false := by
            simp [JpegIdctRam.blockDone, JpegIdctRam.outportValid, before]
          obtain ⟨begun, earlier, accepted, same⟩ :=
            inductionHypothesis (by simp [before])
          exact ⟨begun, by omega, accepted, by rw [counted, notDone, same]; rfl⟩
      | active =>
          have notDone : JpegIdctRam.blockDone (s n).ram = false := by
            by_contra done
            rw [Bool.not_eq_false] at done
            simp [before, done] at busy
          obtain ⟨begun, earlier, accepted, same⟩ :=
            inductionHypothesis (by simp [before])
          exact ⟨begun, by omega, accepted, by rw [counted, notDone, same]; rfl⟩

/-- Blocks are finished at least 66 cycles apart. -/
theorem popped_far (n k : Nat) :
    popped s (n + k) ≤ popped s n + (k + 65) / 66 := by
  induction k using Nat.strong_induction_on with
  | _ k inductionHypothesis =>
      rcases Nat.eq_zero_or_pos k with rfl | positive
      · simp
      · have before := inductionHypothesis (k - min k 66) (by omega)
        have last := (run.popped_near (n := n + (k - min k 66))
          (k := min k 66) (Nat.min_le_right k 66)).1
        rw [show n + (k - min k 66) + min k 66 = n + k by omega] at last
        omega

/-! ## Samples that leave -/

/-- A sample that leaves was shown by the coefficient buffer. -/
theorem sample_leaves
    {n : Nat}
    (leaves : (s n).outportValid = true) :
    ∃ before, n = before + 88 ∧ active s before = true ∧
      (samplesAt s n).length = 64 * popped s before + place s before ∧
        (s n).outportIdx = ptrConv (BitVec.ofNat 6 (place s before)) := by
  rcases Nat.lt_or_ge n 88 with early | late
  · rw [run.outport_early early] at leaves
    cases leaves
  · obtain ⟨before, rfl⟩ := Nat.exists_eq_add_of_le' late
    obtain ⟨valid, idx⟩ := run.outport_eq before
    exact ⟨before, rfl, valid ▸ leaves, run.length_samplesAt before, idx⟩

/-- The sample that leaves is counted at its place in its block. -/
theorem outportIdx_eq
    {n : Nat}
    (leaves : (s n).outportValid = true) :
    (s n).outportIdx =
      ptrConv (BitVec.ofNat 6 ((samplesAt s n).length % 64)) := by
  obtain ⟨before, -, -, counted, idx⟩ := run.sample_leaves leaves
  have inside := run.bursts.inside before
  rw [idx, counted]
  congr 2
  omega

omit run in
/-- A sample that leaves keeps its number. -/
theorem samplesAt_kept
    {n later : Nat}
    (leaves : (s n).outportValid = true)
    (after : n < later) :
    (samplesAt s later)[(samplesAt s n).length]? =
      some
        { idx := (s n).outportIdx
          data := (s n).outportData
          id := (s n).outportId } := by
  induction after with
  | refl =>
      rw [samplesAt, State.sample, leaves]
      exact List.getElem?_concat_length
  | step _ inductionHypothesis =>
      rw [samplesAt, List.getElem?_append_left
        (List.getElem?_eq_some_iff.mp inductionHypothesis).1]
      exact inductionHypothesis

/-- All but two of the blocks that were shown have left. -/
theorem popped_left (n : Nat) :
    64 * popped s n ≤ (samplesAt s n).length + 128 := by
  have near := run.popped_shown n
  rcases Nat.lt_or_ge n 88 with early | late
  · rw [shown_early early.le] at near
    omega
  · obtain ⟨before, rfl⟩ := Nat.exists_eq_add_of_le' late
    rw [run.length_samplesAt, progress]
    rw [shown, delayed_add] at near
    omega

/-- Samples of later blocks leave 66 cycles later for every block. -/
theorem blocks_apart
    {n k : Nat}
    (leaves : (s n).outportValid = true)
    (later : (s (n + k)).outportValid = true) :
    (samplesAt s (n + k)).length / 64 ≤
      (samplesAt s n).length / 64 + (k + 65) / 66 := by
  obtain ⟨before, rfl, -, counted, -⟩ := run.sample_leaves leaves
  obtain ⟨after, same, -, countedToo, -⟩ := run.sample_leaves later
  obtain rfl : after = before + k := by omega
  have far := run.popped_far before k
  have inside := run.bursts.inside before
  have insideToo := run.bursts.inside (before + k)
  rw [counted, countedToo]
  change place s before < 64 at inside
  change place s (before + k) < 64 at insideToo
  omega

/-- The block of a sample that leaves was closed. -/
theorem closed_of_leaves
    {n : Nat}
    (leaves : (s n).outportValid = true) :
    (samplesAt s n).length / 64 < (blocksAt s i n).length := by
  obtain ⟨before, rfl, valid, counted, -⟩ := run.sample_leaves leaves
  have present := run.popped_lt valid
  have kept := (blocksAt_mono (s := s) (i := i) before 88).length_le
  have inside := run.bursts.inside before
  change place s before < 64 at inside
  omega

/-! ## Ids behind the last block in time -/

/-- The queue of ids when only one id is queued any more. -/
structure OneId (s : Nat → State) (i : Nat → Input) (id : BitVec 32)
    (n later : Nat) : Prop where
  enough : (blocksAt s i later).length ≤ (idsAt s i later).length
  dropped : droppedAt s later = shown s later
  same :
    ∀ index, (blocksAt s i n).length ≤ index →
      index < (idsAt s i later).length → (idsAt s i later)[index]? = some id

/-- A block that is closed when the queue is full has an id already. -/
theorem OneId.step
    {id : BitVec 32} {n later : Nat}
    (known : OneId s i id n later)
    (isId : (i later).inportEob = true → (i later).inportId = id) :
    OneId s i id n (later + 1) := by
  have count := (run.idQueue later).count_eq
  have ids : idsAt s i (later + 1) =
      idsAt s i later ++
        ((s later).idFifo.stored (idPush (i later))).toList := rfl
  constructor
  · rw [ids, List.length_append, blocksAt]
    split_ifs with closes
    · rw [List.length_append, List.length_singleton]
      have pulse := closes
      rw [JpegIdctRam.closes, Bool.and_eq_true] at pulse
      have push : idPush (i later) = some (i later).inportId := by
        exact if_pos pulse.1
      have room : (blocksAt s i later).length - shown s later < 6 :=
        run.room pulse.2
      rw [JpegOutput.Fifo.stored, push]
      cases accepts : (s later).idFifo.acceptO with
      | true =>
          have enough := known.enough
          simpa using enough
      | false =>
          have full : (s later).idFifo.countQ.toNat = 8 := by
            simp [JpegOutput.Fifo.acceptO] at accepts
            rw [accepts]
            rfl
          have dropped := known.dropped
          simp only [Bool.false_eq_true, if_false, Option.toList_none,
            List.length_nil, Nat.add_zero]
          omega
    · have enough := known.enough
      omega
  · rw [droppedAt, run.shown_succ, known.dropped]
    cases pops : (s later).idPop with
    | false => rfl
    | true =>
        have closed := run.shown_lt pops
        have enough := known.enough
        have dropped := known.dropped
        rw [(validO_iff _).mpr (by omega)]
        rfl
  · intro index behind inside
    rw [ids] at inside ⊢
    rcases Nat.lt_or_ge index (idsAt s i later).length with before | fresh
    · rw [List.getElem?_append_left before]
      exact known.same index behind before
    · rw [List.getElem?_append_right fresh]
      rw [List.length_append] at inside
      rw [JpegOutput.Fifo.stored, idPush] at inside ⊢
      cases pulse : (i later).inportEob with
      | false => simp [pulse] at inside; omega
      | true =>
          cases accepts : (s later).idFifo.acceptO with
          | false => simp [accepts] at inside; omega
          | true =>
              simp [pulse, accepts] at inside
              simp [isId pulse, show index - (idsAt s i later).length = 0 by
                omega]

/-- Behind blocks that came in time only one id is queued. -/
theorem oneId
    {id : BitVec 32} {n : Nat}
    (heeds : Heeds s i n)
    (isId : ∀ m, n ≤ m → (i m).inportEob = true → (i m).inportId = id)
    {later : Nat}
    (behind : n ≤ later) :
    OneId s i id n later := by
  induction behind with
  | refl =>
      obtain ⟨ids, dropped⟩ := run.ids_eq heeds
      refine ⟨by rw [ids, List.length_map], dropped,
        fun index after inside => ?_⟩
      rw [ids, List.length_map] at inside
      omega
  | step earlier inductionHypothesis =>
      exact inductionHypothesis.step run (isId _ earlier)

/-- The samples behind these blocks leave with that id. -/
theorem outportId_behind
    {id : BitVec 32} {n later : Nat}
    (heeds : Heeds s i n)
    (isId : ∀ m, n ≤ m → (i m).inportEob = true → (i m).inportId = id)
    (leaves : (s later).outportValid = true)
    (behind : 64 * (blocksAt s i n).length ≤ (samplesAt s later).length) :
    (s later).outportId = id := by
  obtain ⟨before, rfl, valid, counted, -⟩ := run.sample_leaves leaves
  have present := run.popped_lt valid
  have inside := run.bursts.inside before
  change place s before < 64 at inside
  have number : (blocksAt s i n).length ≤ popped s before := by omega
  have after : n ≤ before + 88 := by
    by_contra early
    have kept := (blocksAt_mono (s := s) (i := i) before
      (n - before)).length_le
    rw [Nat.add_sub_cancel' (by omega)] at kept
    omega
  have known := run.oneId heeds isId after
  have isShown : shown s (before + 88) = popped s before := delayed_add before
  have closed := (blocksAt_mono (s := s) (i := i) before 88).length_le
  have enough := known.enough
  have front := known.same (popped s before) number (by omega)
  have queue := congrArg (·[0]?) (run.idQueue (before + 88)).queue
  have count := (run.idQueue (before + 88)).count_eq
  rw [known.dropped, isShown] at queue count
  simp only [List.getElem?_drop, Nat.add_zero, front] at queue
  rw [List.getElem?_eq_getElem
    (by rw [RingBuffer.length_contents]; omega)] at queue
  simpa [State.outportId, JpegOutput.Fifo.dataOutO] using queue

end Timing

end Run

end CoreJpeg.JpegIdct
