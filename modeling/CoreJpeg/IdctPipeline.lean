import CoreJpeg.IdctModel

namespace CoreJpeg.JpegIdct

open Bursts

/-!
# Blocks leave the inverse transform in order

Behind the coefficient buffer the stages cannot be stalled, so that every
history in the pipeline is the history of that buffer some cycles later: the
first pass shows its items after 11 cycles, the transpose buffer after 66 more
and the second pass after another 11.  From the bursts of the first stage this
module follows a block through the others and compares what leaves with the
software's transform.
-/

namespace Run

variable {s : Nat → State} {i : Nat → Input}

/-- The coefficient buffer shows an item. -/
abbrev active (s : Nat → State) (n : Nat) : Bool :=
  JpegIdctRam.outportValid (s n).ram

/-- The place of that item in its block. -/
abbrev place (s : Nat → State) (n : Nat) : Nat := (s n).ram.rdIdxQ.toNat

/-- The number of blocks that the coefficient buffer has shown. -/
abbrev popped (s : Nat → State) (n : Nat) : Nat :=
  JpegIdctRam.poppedAt (ramAt s) n

section Stages

variable (run : Run s i)

include run

/-! ## The stages -/

theorem ramRun : JpegIdctRam.Run (ramAt s) (ramPins i) where
  initially := run.initially.ram
  next n := by rw [ramAt, run.next]; rfl
  noReset := run.noReset
  noStart := run.noStart

theorem bursts : Bursts 64 2 (active s) (place s) := run.ramRun.bursts

theorem xRun :
    PassRun 11 (fun n => (s n).x) fun n => ((s n).xInput (i n)).pass where
  initially := run.initially.x
  next n := by rw [run.next]; rfl
  noReset := run.noReset
  noStart := run.noStart

omit run in
theorem xCounts (n : Nat) :
    ((s n).xInput (i n)).pass.inportIdx = BitVec.ofNat 3 (place s n) := by
  apply BitVec.eq_of_toNat_eq
  simp [XInput.pass, State.xInput, JpegIdctRam.outportIdx,
    BitVec.extractLsb'_toNat]

theorem xValid :
    (fun n => (s n).x.outportValid) = delayed 11 false (active s) :=
  run.xRun.outportValid_eq

theorem transposeRun :
    JpegIdctTranspose.Run (fun n => (s n).transpose)
      (fun n => (s n).transposeInput (i n)) (delayed 11 0 (place s)) where
  initially := run.initially.transpose
  next n := by rw [run.next]; rfl
  noReset := run.noReset
  noStart := run.noStart
  ready _ := rfl
  bursts := by
    have later := run.bursts.delayed 11
    rwa [← run.xValid] at later
  counts n _ := run.xRun.ptrQ_eq run.bursts n

/-- The transpose buffer accepts every item of the first pass. -/
theorem transpose_accepts (n : Nat) :
    JpegIdctTranspose.inportAccept (s n).transpose = true :=
  (run.transposeRun.control n).accepts

theorem yRun :
    PassRun 15 (fun n => (s n).y) fun n => (s n).yInput (i n) where
  initially := run.initially.y
  next n := by rw [run.next]; rfl
  noReset := run.noReset
  noStart := run.noStart

theorem yShown :
    (fun n => ((s n).yInput (i n)).inportValid) =
      delayed 77 false (active s) := by
  have shown := run.transposeRun.outportValid_eq
  have valid := run.xValid
  simp only [State.transposeInput] at shown
  rw [valid, delayed_delayed] at shown
  exact shown

theorem yBursts :
    Bursts 64 2 (fun n => ((s n).yInput (i n)).inportValid)
      (delayed 77 0 (place s)) := by
  have later := run.bursts.delayed 77
  rwa [← run.yShown] at later

theorem yCounts (n : Nat)
    (valid : ((s n).yInput (i n)).inportValid = true) :
    ((s n).yInput (i n)).inportIdx =
      BitVec.ofNat 3 (delayed 77 0 (place s) n) := by
  have idx := run.transposeRun.rdIdx_eq valid
  rw [delayed_delayed, show 11 + 66 = 77 from rfl] at idx
  apply BitVec.eq_of_toNat_eq
  simp only [State.yInput, JpegIdctTranspose.outportIdx, idx,
    BitVec.extractLsb'_toNat, BitVec.toNat_ofNat, Nat.shiftRight_zero]
  omega

theorem outportValid_eq :
    (fun n => (s n).outportValid) = delayed 88 false (active s) := by
  have shown := run.yRun.outportValid_eq
  rw [run.yShown, delayed_delayed] at shown
  exact shown

/-- What comes out is what the coefficient buffer showed 88 cycles earlier. -/
theorem outport_eq (n : Nat) :
    (s (n + 88)).outportValid = active s n ∧
      (s (n + 88)).outportIdx = ptrConv (BitVec.ofNat 6 (place s n)) := by
  have valid := congrFun run.outportValid_eq (n + 88)
  have ptr := run.yRun.ptrQ_eq run.yBursts (n + 88)
  rw [delayed_delayed, show 77 + 11 = 88 from rfl, delayed_add] at ptr
  rw [delayed_add] at valid
  exact ⟨valid, by rw [State.outportIdx, yOutportIdx, ptr]⟩

/-! ## A block in the stages -/

/-- The coefficient buffer shows the same block up to its last item. -/
theorem popped_kept
    {start m : Nat}
    (starts : Starts (active s) (place s) start)
    (inside : m < 64) :
    popped s (start + m) = popped s start := by
  induction m with
  | zero => rfl
  | succ m inductionHypothesis =>
      have here := (run.bursts.of_starts starts (k := m) (by omega)).2
      have notDone : JpegIdctRam.blockDone (s (start + m)).ram = false := by
        rw [← Bool.not_eq_true, JpegIdctRam.blockDone, Bool.and_eq_true,
          beq_iff_eq]
        rintro ⟨-, last⟩
        rw [place, last] at here
        simp at here
        omega
      rw [← inductionHypothesis (by omega), ← Nat.add_assoc, popped,
        JpegIdctRam.poppedAt, notDone]
      rfl

end Stages

theorem ptrConv_toNat :
    ∀ m < 64,
      (ptrConv (BitVec.ofNat 6 m)).toNat = 8 * (m % 8) + m / 8 := by
  decide +kernel

/-- The blocks closed so far are kept. -/
theorem closedAt_kept
    {s : Nat → JpegIdctRam.State}
    {i : Nat → JpegIdctRam.Input}
    {n j : Nat}
    {block : JpegIdctRam.Coefficients}
    (isClosed : (JpegIdctRam.closedAt s i n)[j]? = some block)
    (k : Nat) :
    (JpegIdctRam.closedAt s i (n + k))[j]? = some block := by
  induction k with
  | zero => exact isClosed
  | succ k inductionHypothesis =>
      rw [← Nat.add_assoc, JpegIdctRam.closedAt, JpegIdctRam.closedNext]
      split_ifs
      · have inside := (List.getElem?_eq_some_iff.mp inductionHypothesis).1
        rw [List.getElem?_append_left inside]
        exact inductionHypothesis
      · exact inductionHypothesis

section Block

variable (run : Run s i)
variable {start : Nat} (starts : Starts (active s) (place s) start)
variable {block : JpegIdctRam.Coefficients}
variable
  (isNext :
    (JpegIdctRam.closedAt (ramAt s) (ramPins i) start)[popped s start]? =
      some block)

include run starts isNext

/-- The coefficient buffer shows the rows of the block. -/
theorem shows_row
    {row : Nat}
    (isRow : row < 8) :
    ShowsLine (fun n => ((s n).xInput (i n)).pass)
      (fun x => word block (8 * row + x)) (start + 8 * row) := by
  have here (k : Nat) (inLine : k < 8) :=
    run.bursts.of_starts starts (k := 8 * row + k) (by omega)
  constructor
  · intro k inLine
    rw [Nat.add_assoc]
    exact (here k inLine).1
  · intro k inLine
    rw [xCounts, Nat.add_assoc, (here k inLine).2]
    apply BitVec.eq_of_toNat_eq
    simp only [BitVec.toNat_ofNat]
    omega
  · intro k inLine lane
    obtain ⟨active, isPlace⟩ := here k inLine
    obtain ⟨shown, isShown, data⟩ := run.ramRun.shows_block active
    have same : popped s (start + (8 * row + k)) = popped s start :=
      run.popped_kept starts (by omega)
    have isBlock := closedAt_kept isNext (8 * row + k)
    rw [← same] at isBlock
    obtain rfl : block = shown :=
      Option.some.inj (isBlock.symm.trans isShown)
    rw [place] at isPlace
    rw [Nat.add_assoc]
    simp only [XInput.pass, State.xInput, data, lineStep, word]
    rw [JpegIdctRam.readIdx_eq, isPlace, show (8 * row + k) / 8 = row by omega,
      show (8 * row + k) % 8 = k by omega]

/-- The transpose buffer gets the rows transformed. -/
theorem shows_column
    {column : Nat}
    (isColumn : column < 8) :
    ShowsLine (fun n => (s n).yInput (i n))
      (fun y => (Software.butterflyWrap
        (fun x => word block (8 * y + x)) column).sshiftRight 11)
      (start + 77 + 8 * column) := by
  have startsToo : Starts (fun n => ((s n).transposeInput (i n)).inportValid)
      (delayed 11 0 (place s)) (start + 11) := by
    have later := (starts_delayed 11).mpr starts
    rwa [← run.xValid] at later
  have here (k : Nat) (inLine : k < 8) :=
    run.transposeRun.transposes startsToo isColumn inLine
  have same (k : Nat) : start + 11 + 8 * column + k + 66 =
      start + 77 + 8 * column + k := by omega
  simp only [same] at here
  constructor
  · exact fun k inLine => (here k inLine).1
  · exact fun k inLine => (here k inLine).2.1
  · intro k inLine lane
    have near : half k ≤ 1 := by
      unfold half
      split_ifs <;> omega
    have isRow : 2 * lane.toNat + half k < 8 := by omega
    have first :
        8 ∣ place s (start + 8 * (2 * lane.toNat + half k)) := by
      rw [(run.bursts.of_starts starts (by omega)).2]
      exact Nat.dvd_mul_right 8 _
    have out := run.xRun.transforms_line run.bursts (by decide)
      (fun n _ => xCounts n) (run.shows_row starts isNext isRow)
      first isColumn
    have time : start + 11 + (8 * (2 * lane.toNat + half k) + column) =
        start + 8 * (2 * lane.toNat + half k) + column + 11 := by omega
    exact ((here k inLine).2.2 lane).trans (time ▸ out.2)

/-- The block leaves as the software transforms it. -/
theorem block_shown
    {m : Nat}
    (inside : m < 64) :
    (s (start + m + 88)).outportData =
      Software.idctProcessWrap (word block)
        (ptrConv (BitVec.ofNat 6 m)).toNat := by
  have isColumn : m / 8 < 8 := by omega
  have first : 8 ∣ delayed 77 0 (place s) (start + 77 + 8 * (m / 8)) := by
    have here := (run.bursts.of_starts starts (k := 8 * (m / 8))
      (by omega)).2
    rw [show start + 77 + 8 * (m / 8) = start + 8 * (m / 8) + 77 by omega,
      delayed_add, here]
    exact Nat.dvd_mul_right 8 _
  have out := (run.yRun.transforms_line run.yBursts (by decide) run.yCounts
    (run.shows_column starts isNext isColumn) first
    (Nat.mod_lt m (by decide : 0 < 8))).2
  rw [show start + 77 + 8 * (m / 8) + m % 8 + 11 = start + m + 88 by omega]
    at out
  rw [State.outportData, out, ptrConv_toNat m inside,
    Software.idctProcessWrap]
  have isRow : (8 * (m % 8) + m / 8) / 8 = m % 8 := by omega
  have isPlace : (8 * (m % 8) + m / 8) % 8 = m / 8 := by omega
  simp only [isRow, isPlace]
  congr 2
  funext y
  rw [show (y * 8 + m / 8) / 8 = y by omega,
    show (y * 8 + m / 8) % 8 = m / 8 by omega]
  simp only [Nat.mul_comm 8 y]

end Block

end Run

end CoreJpeg.JpegIdct
