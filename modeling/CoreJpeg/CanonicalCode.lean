import Mathlib.Algebra.BigOperators.Intervals
import Mathlib.Algebra.BigOperators.Ring.Finset
import Mathlib.Algebra.Order.BigOperators.Group.Finset
import Mathlib.Algebra.Order.Ring.Nat

namespace CoreJpeg.CanonicalCode

/-!
# Canonical prefix codes

A canonical code is given by the number of its code words of each length.  The
code words are numbered through in order of length: those of one length are
consecutive numbers, and the first one of the next length is twice the number
after the last one.  Lengths are counted from zero, so that the code words of
length index `length` have `length + 1` bits.
-/

variable {counts : Nat → Nat} {limit length longer index window : Nat}

/-- The number of the first code word of a length. -/
def firstCode (counts : Nat → Nat) : Nat → Nat
  | 0 => 0
  | length + 1 => 2 * (firstCode counts length + counts length)

/-- The number after the last code word of a length. -/
def endCode (counts : Nat → Nat) (length : Nat) : Nat :=
  firstCode counts length + counts length

/-- How many code words are shorter than a length. -/
def offset (counts : Nat → Nat) (length : Nat) : Nat :=
  (Finset.range length).sum counts

/-- Kraft's inequality for the lengths up to a limit. -/
def Kraft (counts : Nat → Nat) (limit : Nat) : Prop :=
  (Finset.range limit).sum
    (fun length => counts length * 2 ^ (limit - (length + 1))) ≤ 2 ^ limit

/-- The number that the first bits of a window of `limit` bits spell. -/
def leading (limit window length : Nat) : Nat :=
  window / 2 ^ (limit - (length + 1))

/-- A window begins with the code word at an index among those of a length. -/
structure Begins (counts : Nat → Nat) (limit window length index : Nat) :
    Prop where
  fits : length < limit
  counted : index < counts length
  spelled : leading limit window length = firstCode counts length + index

@[simp] theorem offset_zero : offset counts 0 = 0 := by
  simp [offset]

theorem offset_succ (counts : Nat → Nat) (length : Nat) :
    offset counts (length + 1) = offset counts length + counts length := by
  simp [offset, Finset.sum_range_succ]

theorem firstCode_succ :
    firstCode counts (length + 1) = 2 * endCode counts length := rfl

theorem offset_le (counts : Nat → Nat) (atMost : length ≤ longer) :
    offset counts length ≤ offset counts longer := by
  refine Finset.sum_le_sum_of_subset_of_nonneg ?_ fun _ _ _ =>
    Nat.zero_le _
  simpa using atMost

/-- The code words of a length, doubled up to a longer length, are passed. -/
theorem endCode_le_firstCode (shorter : length < longer) :
    endCode counts length * 2 ^ (longer - length) ≤
      firstCode counts longer := by
  obtain ⟨extra, rfl⟩ := Nat.exists_eq_add_of_lt shorter
  induction extra with
  | zero =>
      simp [firstCode_succ, Nat.mul_comm]
  | succ extra inductionHypothesis =>
      have before := inductionHypothesis (by omega)
      have doubled :
          2 ^ (length + (extra + 1) + 1 - length) =
            2 * 2 ^ (length + extra + 1 - length) := by
        rw [← Nat.pow_succ']
        congr 1
        omega
      calc
        endCode counts length * 2 ^ (length + (extra + 1) + 1 - length)
            = 2 * (endCode counts length *
                2 ^ (length + extra + 1 - length)) := by
              rw [doubled]
              ac_rfl
        _ ≤ 2 * firstCode counts (length + extra + 1) :=
              Nat.mul_le_mul_left 2 before
        _ ≤ 2 * endCode counts (length + extra + 1) :=
              Nat.mul_le_mul_left 2 (Nat.le_add_right _ _)

/-- The code words up to a length take their share of the code space. -/
theorem endCode_eq_sum :
    endCode counts length =
      (Finset.range (length + 1)).sum
        (fun shorter => counts shorter * 2 ^ (length - shorter)) := by
  induction length with
  | zero =>
      simp [endCode, firstCode]
  | succ length inductionHypothesis =>
      have doubled :
          ∀ shorter ∈ Finset.range (length + 1),
            counts shorter * 2 ^ (length + 1 - shorter) =
              2 * (counts shorter * 2 ^ (length - shorter)) := by
        intro shorter inRange
        have atMost : shorter ≤ length := by
          simpa [Nat.lt_succ_iff] using inRange
        rw [Nat.succ_sub atMost, Nat.pow_succ']
        ac_rfl
      rw [Finset.sum_range_succ, Finset.sum_congr rfl doubled,
        ← Finset.mul_sum, ← inductionHypothesis, endCode, firstCode_succ]
      simp

/-- Under Kraft's inequality the code words of a length fit their bits. -/
theorem Kraft.endCode_le
    (kraft : Kraft counts limit)
    (fits : length < limit) :
    endCode counts length ≤ 2 ^ (length + 1) := by
  have scaled :
      endCode counts length * 2 ^ (limit - (length + 1)) ≤
        (Finset.range limit).sum
          (fun other => counts other * 2 ^ (limit - (other + 1))) := by
    rw [endCode_eq_sum, Finset.sum_mul]
    calc
      (Finset.range (length + 1)).sum
          (fun shorter => counts shorter * 2 ^ (length - shorter) *
            2 ^ (limit - (length + 1)))
          = (Finset.range (length + 1)).sum
              (fun shorter => counts shorter *
                2 ^ (limit - (shorter + 1))) := by
            refine Finset.sum_congr rfl fun shorter inRange => ?_
            have atMost : shorter ≤ length := by
              simpa [Nat.lt_succ_iff] using inRange
            rw [Nat.mul_assoc, ← Nat.pow_add]
            congr 2
            omega
      _ ≤ _ := by
            refine Finset.sum_le_sum_of_subset_of_nonneg ?_ fun _ _ _ =>
              Nat.zero_le _
            simpa using fits
  have space : 2 ^ limit = 2 ^ (length + 1) * 2 ^ (limit - (length + 1)) := by
    rw [← Nat.pow_add]
    congr 1
    omega
  have bounded := scaled.trans kraft
  rw [space] at bounded
  exact Nat.le_of_mul_le_mul_right bounded (Nat.two_pow_pos _)

/-- The first bits of a window, from a longer to a shorter part of it. -/
theorem leading_div
    (shorter : length ≤ longer)
    (fits : longer < limit) :
    leading limit window longer / 2 ^ (longer - length) =
      leading limit window length := by
  rw [leading, leading, Nat.div_div_eq_div_mul, ← Nat.pow_add]
  congr 2
  omega

/-- A window that begins with a code word has passed every shorter length. -/
theorem Begins.endCode_le_leading
    (begins : Begins counts limit window longer index)
    (shorter : length < longer) :
    endCode counts length ≤ leading limit window length := by
  rw [← leading_div shorter.le begins.fits,
    Nat.le_div_iff_mul_le (Nat.two_pow_pos _), begins.spelled]
  exact (endCode_le_firstCode shorter).trans (Nat.le_add_right _ _)

/-- Every code word has a window that begins with it. -/
theorem Kraft.exists_begins
    (kraft : Kraft counts limit)
    (fits : length < limit)
    (counted : index < counts length) :
    ∃ window, window < 2 ^ limit ∧
      Begins counts limit window length index := by
  have bounded := kraft.endCode_le fits
  rw [endCode] at bounded
  refine
    ⟨(firstCode counts length + index) * 2 ^ (limit - (length + 1)), ?_,
      fits, counted, Nat.mul_div_cancel _ (Nat.two_pow_pos _)⟩
  calc
    (firstCode counts length + index) * 2 ^ (limit - (length + 1))
        < 2 ^ (length + 1) * 2 ^ (limit - (length + 1)) := by
          refine Nat.mul_lt_mul_of_pos_right ?_ (Nat.two_pow_pos _)
          omega
    _ = 2 ^ limit := by
          rw [← Nat.pow_add]
          congr 1
          omega

/-- Behind empty lengths the first code word is only made longer. -/
theorem firstCode_of_empty
    (shorter : length ≤ longer)
    (empty : ∀ between, length ≤ between → between < longer →
      counts between = 0) :
    firstCode counts longer =
      firstCode counts length * 2 ^ (longer - length) := by
  induction longer, shorter using Nat.le_induction with
  | base =>
      simp
  | succ longer shorter inductionHypothesis =>
      have before := inductionHypothesis fun between above below =>
        empty between above (by omega)
      have none := empty longer shorter (by omega)
      rw [firstCode_succ, endCode, none, before, Nat.succ_sub shorter,
        Nat.pow_succ']
      simp
      ac_rfl

/-- A code word behind empty lengths begins with their first code word. -/
theorem Begins.leading_of_empty
    (begins : Begins counts limit window longer 0)
    (shorter : length ≤ longer)
    (empty : ∀ between, length ≤ between → between < longer →
      counts between = 0) :
    leading limit window length = firstCode counts length := by
  rw [← leading_div shorter begins.fits, begins.spelled, Nat.add_zero,
    firstCode_of_empty shorter empty,
    Nat.mul_div_cancel _ (Nat.two_pow_pos _)]

/-- A window begins with one code word at most. -/
theorem Begins.unique
    {other : Nat}
    {otherIndex : Nat}
    (begins : Begins counts limit window length index)
    (alsoBegins : Begins counts limit window other otherIndex) :
    length = other ∧ index = otherIndex := by
  rcases Nat.lt_trichotomy length other with shorter | same | longer
  · have passed := alsoBegins.endCode_le_leading shorter
    have spelled := begins.spelled
    have counted := begins.counted
    rw [endCode] at passed
    omega
  · subst same
    have spelled := begins.spelled
    have alsoSpelled := alsoBegins.spelled
    omega
  · have passed := begins.endCode_le_leading longer
    have spelled := alsoBegins.spelled
    have counted := alsoBegins.counted
    rw [endCode] at passed
    omega

end CoreJpeg.CanonicalCode
