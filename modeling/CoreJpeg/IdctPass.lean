import CoreJpeg.Bursts
import CoreJpeg.IdctPassModel
import CoreJpeg.SoftwareWrap

namespace CoreJpeg.JpegIdct

/-!
# A pass transforms lines

The entries of a line are shown to a pass in eight cycles, four at a time and
some of them more than once; the entries of the transformed line leave it in the eight cycles that
start eleven cycles later.  The shared registers are traced step by step: each
is read before the next step of the line, or of the next line, writes it.
-/

/-- No entry of a line is under way in a pass. -/
structure Pass.Empty (s : Pass) : Prop where
  stg0 : s.stg0.validQ = false
  stg1 : s.stg1.validQ = false
  stg2 : s.stg2.validQ = false
  stg3 : s.stg3.validQ = false
  validQ : s.validQ = 0
  ptrQ : s.ptrQ = 0

/-- A run of a pass with `rst_i` and `img_start_i` low. -/
structure PassRun (shift : Nat) (s : Nat → Pass) (i : Nat → PassInput) :
    Prop where
  initially : (s 0).Empty
  next : ∀ n, s (n + 1) = (s n).step shift (i n)
  noReset : ∀ n, (i n).rst = false
  noStart : ∀ n, (i n).imgStart = false

/-- The half of a line that is shown with an index; `1` are the odd entries. -/
def half (idx : Nat) : Nat :=
  if idx = 1 ∨ idx = 3 ∨ idx = 4 ∨ idx = 6 then 1 else 0

/-- The pins in the `k`-th cycle of a line. -/
def lineStep (line : Nat → BitVec 32) (k : Nat) : PassInput where
  rst := false
  imgStart := false
  inportValid := true
  blockIn lane := line (2 * lane.toNat + half k)
  inportIdx := BitVec.ofNat 3 k

/-- In the eight cycles from `first` on a line is shown. -/
structure ShowsLine (i : Nat → PassInput) (line : Nat → BitVec 32)
    (first : Nat) : Prop where
  valid : ∀ k < 8, (i (first + k)).inportValid = true
  idx : ∀ k < 8, (i (first + k)).inportIdx = BitVec.ofNat 3 k
  data :
    ∀ k < 8, ∀ lane,
      (i (first + k)).blockIn lane = (lineStep line k).blockIn lane

namespace PassRun

variable {shift : Nat} {s : Nat → Pass} {i : Nat → PassInput}

/-! ## Registers -/

section Registers

variable (run : PassRun shift s i) (n : Nat)

include run

theorem operands_succ :
    (s (n + 1)).operands = Pass.operandsNext (s n).operands (i n) := by
  simp [run.next, Pass.step, run.noReset]

theorem mul_succ_succ :
    (s (n + 2)).mul = Pass.mulQNext (s n).operands := by
  simp [run.next, Pass.step, run.noReset]

theorem sums_succ :
    (s (n + 1)).sums =
      Pass.sumsNext (s n).sums (s n).mul (s n).stg2.idxQ := by
  simp [run.next, Pass.step, run.noReset]

theorem blockOut_succ :
    (s (n + 1)).blockOut = Pass.blockOutNext shift (s n) := by
  simp [run.next, Pass.step, run.noReset]

theorem blockOutTmp_succ :
    (s (n + 1)).blockOutTmp = Pass.blockOutTmpNext shift (s n) := by
  simp [run.next, Pass.step, run.noReset]

theorem stg2_add :
    (s (n + 3)).stg2 = ⟨(i n).inportValid, (i n).inportIdx⟩ := by
  simp [run.next, Pass.step, run.noReset]

theorem stg3_add :
    (s (n + 4)).stg3 = ⟨(i n).inportValid, (i n).inportIdx⟩ := by
  simp [run.next, Pass.step, run.noReset]

end Registers

/-! ## Flags and the output index -/

section Flags

variable (run : PassRun shift s i)

include run

/-- The fourth stage shows the valid flag four cycles later. -/
theorem stg3_validQ (n : Nat) :
    (s n).stg3.validQ =
      delayed 4 false (fun n => (i n).inportValid) n := by
  have stg0 (n : Nat) : (s n).stg0.validQ =
      delayed 1 false (fun n => (i n).inportValid) n :=
    eq_delayed_succ (fun n => (s n).stg0.validQ) run.initially.stg0
      (fun n => by simp [run.next, Pass.step, run.noReset, delayed]) n
  have stg1 (n : Nat) : (s n).stg1.validQ =
      delayed 2 false (fun n => (i n).inportValid) n :=
    eq_delayed_succ (fun n => (s n).stg1.validQ) run.initially.stg1
      (fun n => by simpa [run.next, Pass.step, run.noReset] using stg0 n) n
  have stg2 (n : Nat) : (s n).stg2.validQ =
      delayed 3 false (fun n => (i n).inportValid) n :=
    eq_delayed_succ (fun n => (s n).stg2.validQ) run.initially.stg2
      (fun n => by simpa [run.next, Pass.step, run.noReset] using stg1 n) n
  exact eq_delayed_succ (fun n => (s n).stg3.validQ) run.initially.stg3
    (fun n => by simpa [run.next, Pass.step, run.noReset] using stg2 n) n

/-- `valid_q` shifts by one bit. -/
theorem validQ_succ (n : Nat) :
    (s (n + 1)).validQ =
      (s n).validQ.extractLsb' 0 7 ++ BitVec.ofBool (s n).stg3.validQ := by
  simp [run.next, Pass.step, run.noReset, run.noStart]

/-- The bits of `valid_q` show the flag one cycle after another. -/
theorem validQ_bit
    {bit : Nat}
    (inWord : bit < 8)
    (n : Nat) :
    (s n).validQ.getLsbD bit =
      delayed (bit + 5) false (fun n => (i n).inportValid) n := by
  induction bit generalizing n with
  | zero =>
      refine eq_delayed_succ (fun n => (s n).validQ.getLsbD 0)
        (by simp [run.initially.validQ]) (fun n => ?_) n
      rw [run.validQ_succ, BitVec.getLsbD_append, if_pos (by decide),
        ← run.stg3_validQ]
      cases (s n).stg3.validQ <;> rfl
  | succ bit inductionHypothesis =>
      refine eq_delayed_succ (fun n => (s n).validQ.getLsbD (bit + 1))
        (by simp [run.initially.validQ]) (fun n => ?_) n
      rw [run.validQ_succ, BitVec.getLsbD_append, if_neg (by omega),
        Nat.add_sub_cancel, BitVec.getLsbD_extractLsb', Nat.zero_add,
        decide_eq_true (by omega : bit < 7), Bool.true_and]
      exact inductionHypothesis (by omega) n

/-- What is shown to a pass is shown by it eleven cycles later. -/
theorem outportValid_eq :
    (fun n => (s n).outportValid) =
      delayed 11 false fun n => (i n).inportValid := by
  funext n
  exact run.validQ_bit (by decide) n

/-- The output index counts the places of the delayed bursts. -/
theorem ptrQ_eq
    {gap : Nat}
    {place : Nat → Nat}
    (bursts : Bursts 64 gap (fun n => (i n).inportValid) place)
    (n : Nat) :
    (s n).ptrQ = BitVec.ofNat 6 (delayed 11 0 place n) := by
  induction n with
  | zero => simp [run.initially.ptrQ, delayed]
  | succ n inductionHypothesis =>
      have counts := (bursts.delayed 11).place_succ n
      have valid := congrFun run.outportValid_eq n
      beta_reduce at valid
      rw [counts, run.next, Pass.step, if_neg (by simp [run.noReset])]
      simp only [run.noStart, Bool.false_eq_true, if_false]
      rw [← valid, inductionHypothesis]
      cases (s n).outportValid with
      | false => simp
      | true =>
          apply BitVec.eq_of_toNat_eq
          simp [BitVec.toNat_add]

end Flags

/-! ## The sums of a line -/

section Line

variable (run : PassRun shift s i)
variable {line : Nat → BitVec 32} {first : Nat}
variable (showsLine : ShowsLine i line first)

/-- What the sums of a line are before the outputs `0`, `3`, `4` and `7`. -/
def EarlySums (line : Nat → BitVec 32) (o : Sums) : Prop :=
  let s0 := (line 0 + line 4) * 2896
  let s3 := line 2 * 3784 + line 6 * 1567
  let s7 := line 1 * 4017 + line 7 * 799
  let s4 := line 1 * 799 - line 7 * 4017
  let s6 := line 5 * 2276 + line 3 * 3406
  let s5 := line 5 * 3406 - line 3 * 2276
  o.oT0 = s0 + s3 ∧ o.oT3 = s0 - s3 ∧ o.oT4 = s4 + s5 ∧
    o.oT7 = s7 + s6 ∧ o.oS6 = s6 ∧ o.oS7 = s7

/-- What the sums of a line are before the outputs `1`, `2`, `5` and `6`. -/
def LateSums (line : Nat → BitVec 32) (o : Sums) : Prop :=
  let s1 := (line 0 - line 4) * 2896
  let s2 := line 2 * 1567 - line 6 * 3784
  let s7 := line 1 * 4017 + line 7 * 799
  let s4 := line 1 * 799 - line 7 * 4017
  let s6 := line 5 * 2276 + line 3 * 3406
  let s5 := line 5 * 3406 - line 3 * 2276
  let t5 := s4 - s5
  let t6 := s7 - s6
  o.oT1 = s1 + s2 ∧ o.oT2 = s1 - s2 ∧
    o.oS5 = ((t6 - t5) * 181).sdiv 256 ∧
    o.oS6 = ((t5 + t6) * 181).sdiv 256

include run showsLine

/-- The operands of the `k`-th step of a line. -/
theorem operands_line
    (k : Nat)
    (inLine : k < 8) :
    (s (first + k + 1)).operands =
      Pass.operandsNext (s (first + k)).operands (lineStep line k) := by
  have data : (i (first + k)).blockIn = (lineStep line k).blockIn :=
    funext (showsLine.data k inLine)
  have idx : (i (first + k)).inportIdx = (lineStep line k).inportIdx :=
    showsLine.idx k inLine
  rw [run.operands_succ]
  unfold Pass.operandsNext
  rw [data, idx]

/-- The sum in front of the fifth multiplier. -/
theorem i0_line :
    (s (first + 1)).operands.i0 = line 0 + line 4 ∧
      (s (first + 5)).operands.i0 = line 0 - line 4 := by
  have step0 : (s (first + 1)).operands = _ :=
    operands_line run showsLine 0 (by decide)
  have step2 := operands_line run showsLine 2 (by decide)
  have step3 := operands_line run showsLine 3 (by decide)
  have step4 := operands_line run showsLine 4 (by decide)
  constructor
  · rw [step0]
    rfl
  · rw [step4, step3, step2]
    rfl

/-- The products of the steps before the early outputs. -/
theorem mul_early :
    let mul0 := (s (first + 3)).mul
    let mul1 := (s (first + 4)).mul
    let mul3 := (s (first + 6)).mul
    (mul0.mul0 = line 2 * 3784 ∧ mul0.mul1 = line 6 * 1567) ∧
      (mul1.mul0 = line 1 * 4017 ∧ mul1.mul1 = line 7 * 799 ∧
        mul1.mul2 = line 5 * 2276 ∧ mul1.mul3 = line 3 * 3406 ∧
        mul1.mul4 = (line 0 + line 4) * 2896) ∧
      (mul3.mul0 = line 1 * 799 ∧ mul3.mul1 = line 7 * 4017 ∧
        mul3.mul2 = line 5 * 3406 ∧ mul3.mul3 = line 3 * 2276) := by
  have step0 : (s (first + 1)).operands = _ :=
    operands_line run showsLine 0 (by decide)
  have step1 := operands_line run showsLine 1 (by decide)
  have step3 := operands_line run showsLine 3 (by decide)
  have sum := (i0_line run showsLine).1
  rw [run.mul_succ_succ (first + 1), run.mul_succ_succ (first + 2),
    run.mul_succ_succ (first + 4), step0, step1, step3]
  refine ⟨⟨rfl, rfl⟩, ⟨rfl, rfl, rfl, rfl, ?_⟩, rfl, rfl, rfl, rfl⟩
  rw [← sum]
  rfl

/-- The products of the steps before the late outputs. -/
theorem mul_late :
    let mul4 := (s (first + 7)).mul
    let mul5 := (s (first + 8)).mul
    (mul4.mul0 = line 1 * 799 ∧ mul4.mul1 = line 7 * 4017 ∧
        mul4.mul2 = line 5 * 3406 ∧ mul4.mul3 = line 3 * 2276) ∧
      (mul5.mul0 = line 2 * 1567 ∧ mul5.mul1 = line 6 * 3784 ∧
        mul5.mul4 = (line 0 - line 4) * 2896) := by
  have step4 := operands_line run showsLine 4 (by decide)
  have step5 := operands_line run showsLine 5 (by decide)
  have difference := (i0_line run showsLine).2
  rw [run.mul_succ_succ (first + 5), run.mul_succ_succ (first + 6), step4,
    step5]
  refine ⟨⟨rfl, rfl, rfl, rfl⟩, rfl, rfl, ?_⟩
  rw [← difference]
  rfl

/-- The sums of the `k`-th step of a line. -/
theorem sums_line
    (k : Nat)
    (inLine : k < 8) :
    (s (first + k + 4)).sums =
      Pass.sumsNext (s (first + k + 3)).sums (s (first + k + 3)).mul
        (BitVec.ofNat 3 k) := by
  rw [run.sums_succ, run.stg2_add, showsLine.idx k inLine]

/-- Four steps into a line the early sums are there. -/
theorem sums_early :
    EarlySums line (s (first + 7)).sums := by
  have step0 : (s (first + 4)).sums = _ :=
    sums_line run showsLine 0 (by decide)
  have step1 := sums_line run showsLine 1 (by decide)
  have step2 := sums_line run showsLine 2 (by decide)
  have step3 := sums_line run showsLine 3 (by decide)
  obtain ⟨⟨a0, a1⟩, ⟨b0, b1, b2, b3, b4⟩, c0, c1, c2, c3⟩ :=
    mul_early run showsLine
  rw [step3, step2, step1, step0]
  refine ⟨?_, ?_, ?_, ?_, ?_, ?_⟩
  · rw [← a0, ← a1, ← b4]
    rfl
  · rw [← a0, ← a1, ← b4]
    rfl
  · rw [← c0, ← c1, ← c2, ← c3]
    rfl
  · rw [← b0, ← b1, ← b2, ← b3]
    exact BitVec.add_comm _ _
  · rw [← b2, ← b3]
    rfl
  · rw [← b0, ← b1]
    rfl

/-- At the end of a line the late sums are there. -/
theorem sums_late :
    LateSums line (s (first + 11)).sums := by
  have step4 := sums_line run showsLine 4 (by decide)
  have step5 := sums_line run showsLine 5 (by decide)
  have step6 := sums_line run showsLine 6 (by decide)
  have step7 := sums_line run showsLine 7 (by decide)
  obtain ⟨-, -, -, -, s6, s7⟩ := sums_early run showsLine
  obtain ⟨⟨a0, a1, a2, a3⟩, b0, b1, b4⟩ := mul_late run showsLine
  rw [step7, step6, step5, step4]
  refine ⟨?_, ?_, ?_, ?_⟩
  · rw [← b0, ← b1, ← b4]
    rfl
  · rw [← b0, ← b1, ← b4]
    rfl
  · rw [← a0, ← a1, ← a2, ← a3, ← s6, ← s7]
    rfl
  · rw [← a0, ← a1, ← a2, ← a3, ← s6, ← s7]
    rfl

end Line

/-! ## The output registers -/

/-- The step of a line whose sums an output register takes. -/
def turn (entry : Nat) : Nat :=
  if entry = 0 ∨ entry = 3 ∨ entry = 4 then 3
  else if entry = 7 then 6 else 7

theorem blockOutNext_kept
    {p : Pass}
    {entry : BitVec 3}
    (kept :
      p.stg3.validQ = true → p.stg3.idxQ.toNat ≠ turn entry.toNat) :
    Pass.blockOutNext shift p entry = p.blockOut entry := by
  unfold Pass.blockOutNext
  split
  · rename_i valid
    have kept := kept valid
    split <;> first | rfl | simp_all [turn]
  · rfl

section Outputs

variable (run : PassRun shift s i)
variable {line : Nat → BitVec 32} {first : Nat}
variable {gap : Nat} {place : Nat → Nat}

include run

/-- An output register keeps its entry until its turn comes again. -/
theorem blockOut_until
    (entry : BitVec 3)
    (lower count : Nat)
    (quiet :
      ∀ n, lower ≤ n + 4 → n + 4 < lower + count →
        (i n).inportValid = true →
          (i n).inportIdx.toNat ≠ turn entry.toNat)
    (begun : 4 ≤ lower) :
    (s (lower + count)).blockOut entry = (s lower).blockOut entry := by
  induction count with
  | zero => rfl
  | succ count inductionHypothesis =>
      rw [← Nat.add_assoc, run.blockOut_succ, blockOutNext_kept,
        inductionHypothesis fun n after before =>
          quiet n after (by omega)]
      have same : lower + count = lower + count - 4 + 4 := by omega
      rw [same, run.stg3_add]
      exact quiet _ (by omega) (by omega)

/-- The entries of a line when their registers have just been written. -/
theorem blockOut_written
    (showsLine : ShowsLine i line first)
    (entry : Nat)
    (inLine : entry < 8) :
    (s (first + turn entry + 5)).blockOut (BitVec.ofNat 3 entry) =
      (Software.butterflyWrap line entry).sshiftRight shift := by
  have stage (k : Nat) (inLine : k < 8) :
      (s (first + k + 4)).stg3 = ⟨true, BitVec.ofNat 3 k⟩ := by
    rw [run.stg3_add, showsLine.valid k inLine, showsLine.idx k inLine]
  obtain ⟨t0, t3, t4, t7, -, -⟩ := sums_early run showsLine
  obtain ⟨t1, t2, s5, s6⟩ := sums_late run showsLine
  have stage3 := stage 3 (by decide)
  have stage6 := stage 6 (by decide)
  have stage7 := stage 7 (by decide)
  have tmp : (s (first + 10)).blockOutTmp =
      (Software.butterflyWrap line 7).sshiftRight shift := by
    rw [run.blockOutTmp_succ (first + 9), Pass.blockOutTmpNext,
      stage 5 (by decide), run.blockOutTmp_succ (first + 8),
      Pass.blockOutTmpNext, stage 4 (by decide),
      run.blockOutTmp_succ (first + 7), Pass.blockOutTmpNext, stage3, t0, t7]
    rfl
  match entry with
  | 0 =>
      rw [show first + turn 0 + 5 = first + 7 + 1 from rfl, run.blockOut_succ]
      simp only [Pass.blockOutNext, stage3, t0, t7]
      rfl
  | 1 =>
      rw [show first + turn 1 + 5 = first + 11 + 1 from rfl,
        run.blockOut_succ]
      simp only [Pass.blockOutNext, stage7, t1, s6]
      rfl
  | 2 =>
      rw [show first + turn 2 + 5 = first + 11 + 1 from rfl,
        run.blockOut_succ]
      simp only [Pass.blockOutNext, stage7, t2, s5]
      rfl
  | 3 =>
      rw [show first + turn 3 + 5 = first + 7 + 1 from rfl, run.blockOut_succ]
      simp only [Pass.blockOutNext, stage3, t3, t4]
      rfl
  | 4 =>
      rw [show first + turn 4 + 5 = first + 7 + 1 from rfl, run.blockOut_succ]
      simp only [Pass.blockOutNext, stage3, t3, t4]
      rfl
  | 5 =>
      rw [show first + turn 5 + 5 = first + 11 + 1 from rfl,
        run.blockOut_succ]
      simp only [Pass.blockOutNext, stage7, t2, s5]
      rfl
  | 6 =>
      rw [show first + turn 6 + 5 = first + 11 + 1 from rfl,
        run.blockOut_succ]
      simp only [Pass.blockOutNext, stage7, t1, s6]
      rfl
  | 7 =>
      rw [show first + turn 7 + 5 = first + 10 + 1 from rfl,
        run.blockOut_succ]
      simp only [Pass.blockOutNext, stage6, tmp]
      rfl

/-- An entry is still in its register seven cycles after its step. -/
theorem blockOut_line
    (bursts : Bursts 64 gap (fun n => (i n).inportValid) place)
    (hasGap : 0 < gap)
    (counts :
      ∀ n, (i n).inportValid = true →
        (i n).inportIdx = BitVec.ofNat 3 (place n))
    (showsLine : ShowsLine i line first)
    (aligned : 8 ∣ place first)
    {entry : Nat}
    (inLine : entry < 8) :
    (s (first + entry + 11)).blockOut (BitVec.ofNat 3 entry) =
      (Software.butterflyWrap line entry).sshiftRight shift := by
  have isEntry : (BitVec.ofNat 3 entry).toNat = entry := by
    rw [BitVec.toNat_ofNat, Nat.mod_eq_of_lt inLine]
  have late : turn entry ≤ entry + 6 := by
    unfold turn
    split_ifs <;> omega
  have isLater : ∀ k, k + 2 ≤ entry → k < turn entry := by
    unfold turn
    split_ifs <;> omega
  have same : first + entry + 11 =
      first + turn entry + 5 + (entry + 6 - turn entry) := by
    omega
  rw [same, run.blockOut_until _ _ _ ?_ (by omega),
    run.blockOut_written showsLine entry inLine]
  intro n after before valid again
  rw [isEntry] at again
  have now : (i first).inportValid = true := showsLine.valid 0 (by decide)
  rcases Nat.lt_or_ge n (first + 8) with inThis | inNext
  · -- a later step of the same line
    obtain ⟨k, rfl⟩ := Nat.exists_eq_add_of_le (show first ≤ n by omega)
    rw [showsLine.idx k (by omega), BitVec.toNat_ofNat,
      Nat.mod_eq_of_lt (by omega)] at again
    omega
  · -- an early step of the next line
    obtain ⟨k, rfl⟩ := Nat.exists_eq_add_of_le inNext
    have grows := bursts.next_line hasGap (by decide) now aligned
      (show k < 8 by omega) valid
    rw [counts _ valid, BitVec.toNat_ofNat] at again
    have := isLater k (by omega)
    omega

/--
The entries of a line leave the pass transformed, one a cycle, in the places
of the cycles in which the line was shown.
-/
theorem transforms_line
    (bursts : Bursts 64 gap (fun n => (i n).inportValid) place)
    (hasGap : 0 < gap)
    (counts :
      ∀ n, (i n).inportValid = true →
        (i n).inportIdx = BitVec.ofNat 3 (place n))
    (showsLine : ShowsLine i line first)
    (aligned : 8 ∣ place first)
    {entry : Nat}
    (inLine : entry < 8) :
    let out := s (first + entry + 11)
    out.ptrQ = BitVec.ofNat 6 (place first + entry) ∧
      out.outportData =
        (Software.butterflyWrap line entry).sshiftRight shift := by
  have now : (i first).inportValid = true := showsLine.valid 0 (by decide)
  have inside := bursts.inside first
  have here := (bursts.goes_on now (k := entry) (by omega)).2
  have ptr : (s (first + entry + 11)).ptrQ =
      BitVec.ofNat 6 (place first + entry) := by
    rw [run.ptrQ_eq bursts, delayed_add, here]
  refine ⟨ptr, ?_⟩
  have low : (BitVec.ofNat 6 (place first + entry)).extractLsb' 0 3 =
      BitVec.ofNat 3 entry := by
    apply BitVec.eq_of_toNat_eq
    simp only [BitVec.extractLsb'_toNat, BitVec.toNat_ofNat,
      Nat.shiftRight_zero]
    omega
  rw [Pass.outportData, ptr, low]
  exact run.blockOut_line bursts hasGap counts showsLine aligned inLine

end Outputs

end PassRun

end CoreJpeg.JpegIdct
