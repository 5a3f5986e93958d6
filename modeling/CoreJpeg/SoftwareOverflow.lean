import CoreJpeg.SoftwareIdct

namespace CoreJpeg.Software

/-!
# The machine integers of `jpeg_idct`

`jpeg_idct::process` computes in `int`.  Here every sum, difference and product
of the transform is checked against the 32-bit range, and the blocks on which
none of them leaves it are told by the coefficients alone.
-/

/-! ## Checked arithmetic -/

/-- The values of an `int`. -/
def InInt32 (value : Int) : Prop :=
  -2147483648 ≤ value ∧ value ≤ 2147483647

instance : DecidablePred InInt32 := fun value => by
  unfold InInt32
  infer_instance

/-- The result of an `int` operation; `none` is a signed overflow. -/
def int32 (value : Int) : Option Int :=
  if InInt32 value then some value else none

/-- `(x + y) * constant`. -/
def sumTimes (x y constant : Int) : Option Int := do
  int32 ((← int32 (x + y)) * constant)

/-- `(x - y) * constant`. -/
def differenceTimes (x y constant : Int) : Option Int := do
  int32 ((← int32 (x - y)) * constant)

/-- `x * first + y * second`. -/
def productSum (x first y second : Int) : Option Int := do
  int32 ((← int32 (x * first)) + (← int32 (y * second)))

/-- `x * first - y * second`. -/
def productDifference (x first y second : Int) : Option Int := do
  int32 ((← int32 (x * first)) - (← int32 (y * second)))

/-- The last eight sums, from `t0` to `t7` and the rotated `r5` and `r6`. -/
def outputs32 (t0 t1 t2 t3 t4 t7 r5 r6 : Int) : Option (Nat → Int) := do
  let o0 ← int32 (t0 + t7)
  let o1 ← int32 (t1 + r6)
  let o2 ← int32 (t2 + r5)
  let o3 ← int32 (t3 + t4)
  let o4 ← int32 (t3 - t4)
  let o5 ← int32 (t2 - r5)
  let o6 ← int32 (t1 - r6)
  let o7 ← int32 (t0 - t7)
  some fun
    | 0 => o0
    | 1 => o1
    | 2 => o2
    | 3 => o3
    | 4 => o4
    | 5 => o5
    | 6 => o6
    | _ => o7

/-- From `s0` to `s7`: the sums `t0` to `t7`, the rotation, the outputs. -/
def combine32 (s0 s1 s2 s3 s4 s5 s6 s7 : Int) : Option (Nat → Int) := do
  let t0 ← int32 (s0 + s3)
  let t3 ← int32 (s0 - s3)
  let t1 ← int32 (s1 + s2)
  let t2 ← int32 (s1 - s2)
  let t4 ← int32 (s4 + s5)
  let t5 ← int32 (s4 - s5)
  let t7 ← int32 (s7 + s6)
  let t6 ← int32 (s7 - s6)
  -- the factor 181 comes before the division by 256
  let r6 := (← sumTimes t5 t6 181).tdiv 256
  let r5 := (← differenceTimes t6 t5 181).tdiv 256
  outputs32 t0 t1 t2 t3 t4 t7 r5 r6

/-- The eight sums of a row or a column, every operation checked. -/
def butterfly32 (d : Nat → Int) : Option (Nat → Int) := do
  let s0 ← sumTimes (d 0) (d 4) 2896
  let s1 ← differenceTimes (d 0) (d 4) 2896
  let s3 ← productSum (d 2) 3784 (d 6) 1567
  let s2 ← productDifference (d 2) 1567 (d 6) 3784
  let s7 ← productSum (d 1) 4017 (d 7) 799
  let s4 ← productDifference (d 1) 799 (d 7) 4017
  let s6 ← productSum (d 5) 2276 (d 3) 3406
  let s5 ← productDifference (d 5) 3406 (d 3) 2276
  combine32 s0 s1 s2 s3 s4 s5 s6 s7

/-- One butterfly for each of the eight rows or columns. -/
def butterflies32 (lines : Nat → Nat → Int) : Option (Nat → Nat → Int) := do
  let results ← (List.range 8).mapM fun line => butterfly32 (lines line)
  some fun line => results.getD line fun _ => 0

/-- `jpeg_idct::process`, every operation checked. -/
def idctProcess32 (dataIn : Nat → Int) : Option (Nat → Int) := do
  let rows ← butterflies32 fun row x => dataIn (row * 8 + x)
  let columns ← butterflies32 fun column y =>
    rows y column >>> (11 : Nat)
  some fun place => columns (place % 8) (place / 8) >>> (15 : Nat)

/-! ## The transform by its coefficients -/

/-- `t5 + t6` by the odd coefficients of a row or a column. -/
def oddSum (d : Nat → Int) : Int :=
  4816 * d 1 - 1130 * d 3 - 5682 * d 5 - 3218 * d 7

/-- `t6 - t5` by the odd coefficients of a row or a column. -/
def oddDifference (d : Nat → Int) : Int :=
  3218 * d 1 - 5682 * d 3 + 1130 * d 5 + 4816 * d 7

/-- What the even coefficients give to entries `x` and `7 - x`. -/
def evenPart (d : Nat → Int) : Nat → Int
  | 0 => 2896 * d 0 + 3784 * d 2 + 2896 * d 4 + 1567 * d 6
  | 1 => 2896 * d 0 + 1567 * d 2 - 2896 * d 4 - 3784 * d 6
  | 2 => 2896 * d 0 - 1567 * d 2 - 2896 * d 4 + 3784 * d 6
  | _ => 2896 * d 0 - 3784 * d 2 + 2896 * d 4 - 1567 * d 6

/-- What the odd coefficients add to entry `x` and take from `7 - x`. -/
def oddPart (d : Nat → Int) : Nat → Int
  | 0 => 4017 * d 1 + 3406 * d 3 + 2276 * d 5 + 799 * d 7
  | 1 => (181 * oddSum d).tdiv 256
  | 2 => (181 * oddDifference d).tdiv 256
  | _ => 799 * d 1 - 2276 * d 3 + 3406 * d 5 - 4017 * d 7

/-- Entry `x` of a transformed line before the shift. -/
def lineEntry (d : Nat → Int) (x : Nat) : Int :=
  if x < 4 then evenPart d x + oddPart d x
  else evenPart d (7 - x) - oddPart d (7 - x)

/-- The two rotated sums of a line stay in range after the factor 181. -/
def RotationFits (d : Nat → Int) : Prop :=
  InInt32 (181 * oddSum d) ∧ InInt32 (181 * oddDifference d)

instance : DecidablePred RotationFits := fun d => by
  unfold RotationFits
  infer_instance

/-- Entry `y` of column `column` after the row pass. -/
def exactColumn (dataIn : Nat → Int) (column y : Nat) : Int :=
  lineEntry (fun x => dataIn (y * 8 + x)) column / 2048

/-- The rotated sums fit in every row and then in every column. -/
def RotationsFit (dataIn : Nat → Int) : Prop :=
  (∀ row < 8, RotationFits fun x => dataIn (row * 8 + x)) ∧
    ∀ column < 8, RotationFits (exactColumn dataIn column)

instance : DecidablePred RotationsFit := fun dataIn => by
  unfold RotationsFit
  infer_instance

/-- Eight values no larger than a row of the transform can hold. -/
def Moderate (d : Nat → Int) : Prop :=
  ∀ x < 8, -21642 ≤ d x ∧ d x ≤ 21642

/-! ## One butterfly -/

@[simp]
theorem int32_of_inInt32
    {value : Int}
    (fits : InInt32 value) :
    int32 value = some value :=
  if_pos fits

/-- A result is within the range and is the exact one. -/
theorem int32_eq_some
    {value result : Int}
    (computed : int32 value = some result) :
    InInt32 value ∧ result = value := by
  rw [int32] at computed
  split at computed
  · rename_i fits
    exact ⟨fits, (Option.some.inj computed).symm⟩
  · cases computed

theorem int32_eq_none
    {value : Int}
    (overflows : ¬InInt32 value) :
    int32 value = none :=
  if_neg overflows

/-- The exact operations of a moderate line that can never leave the range. -/
theorem sumTimes_of_moderate
    {x y : Int}
    (xBounds : -21642 ≤ x ∧ x ≤ 21642)
    (yBounds : -21642 ≤ y ∧ y ≤ 21642) :
    sumTimes x y 2896 = some ((x + y) * 2896) := by
  have inner : InInt32 (x + y) := by
    unfold InInt32
    omega
  have outer : InInt32 ((x + y) * 2896) := by
    unfold InInt32
    omega
  simp [sumTimes, inner, outer]

theorem differenceTimes_of_moderate
    {x y : Int}
    (xBounds : -21642 ≤ x ∧ x ≤ 21642)
    (yBounds : -21642 ≤ y ∧ y ≤ 21642) :
    differenceTimes x y 2896 = some ((x - y) * 2896) := by
  have inner : InInt32 (x - y) := by
    unfold InInt32
    omega
  have outer : InInt32 ((x - y) * 2896) := by
    unfold InInt32
    omega
  simp [differenceTimes, inner, outer]

/-- A moderate value times a constant of the transform. -/
theorem product_bounds
    {x factor : Int}
    (xBounds : -21642 ≤ x ∧ x ≤ 21642)
    (factorBounds : 0 ≤ factor ∧ factor ≤ 4017) :
    -86935914 ≤ x * factor ∧ x * factor ≤ 86935914 := by
  constructor
  · nlinarith [xBounds.1, factorBounds.1, factorBounds.2]
  · nlinarith [xBounds.2, factorBounds.1, factorBounds.2]

theorem productSum_of_moderate
    {x y first second : Int}
    (xBounds : -21642 ≤ x ∧ x ≤ 21642)
    (yBounds : -21642 ≤ y ∧ y ≤ 21642)
    (firstBounds : 0 ≤ first ∧ first ≤ 4017)
    (secondBounds : 0 ≤ second ∧ second ≤ 4017) :
    productSum x first y second = some (x * first + y * second) := by
  have left := product_bounds xBounds firstBounds
  have right := product_bounds yBounds secondBounds
  have leftFits : InInt32 (x * first) := by
    unfold InInt32
    omega
  have rightFits : InInt32 (y * second) := by
    unfold InInt32
    omega
  have sumFits : InInt32 (x * first + y * second) := by
    unfold InInt32
    omega
  simp [productSum, leftFits, rightFits, sumFits]

theorem productDifference_of_moderate
    {x y first second : Int}
    (xBounds : -21642 ≤ x ∧ x ≤ 21642)
    (yBounds : -21642 ≤ y ∧ y ≤ 21642)
    (firstBounds : 0 ≤ first ∧ first ≤ 4017)
    (secondBounds : 0 ≤ second ∧ second ≤ 4017) :
    productDifference x first y second = some (x * first - y * second) := by
  have left := product_bounds xBounds firstBounds
  have right := product_bounds yBounds secondBounds
  have leftFits : InInt32 (x * first) := by
    unfold InInt32
    omega
  have rightFits : InInt32 (y * second) := by
    unfold InInt32
    omega
  have differenceFits : InInt32 (x * first - y * second) := by
    unfold InInt32
    omega
  simp [productDifference, leftFits, rightFits, differenceFits]

/-- Sums of this size stay in range up to the rotation. -/
theorem combine32_eq
    {s0 s1 s2 s3 s4 s5 s6 s7 : Int}
    (fits0 : InInt32 (s0 + s3))
    (fits1 : InInt32 (s1 + s2))
    (fits2 : InInt32 (s1 - s2))
    (fits3 : InInt32 (s0 - s3))
    (b4 : -173871828 ≤ s4 ∧ s4 ≤ 173871828)
    (b5 : -173871828 ≤ s5 ∧ s5 ≤ 173871828)
    (b6 : -173871828 ≤ s6 ∧ s6 ≤ 173871828)
    (b7 : -173871828 ≤ s7 ∧ s7 ≤ 173871828) :
    combine32 s0 s1 s2 s3 s4 s5 s6 s7 =
      (int32 ((s4 - s5 + (s7 - s6)) * 181)).bind fun sum =>
        (int32 ((s7 - s6 - (s4 - s5)) * 181)).bind fun difference =>
          outputs32 (s0 + s3) (s1 + s2) (s1 - s2) (s0 - s3) (s4 + s5)
            (s7 + s6) (difference.tdiv 256) (sum.tdiv 256) := by
  have fits4 : InInt32 (s4 + s5) := ⟨by omega, by omega⟩
  have fits5 : InInt32 (s4 - s5) := ⟨by omega, by omega⟩
  have fits7 : InInt32 (s7 + s6) := ⟨by omega, by omega⟩
  have fits6 : InInt32 (s7 - s6) := ⟨by omega, by omega⟩
  have fitsSum : InInt32 (s4 - s5 + (s7 - s6)) := ⟨by omega, by omega⟩
  have fitsDifference : InInt32 (s7 - s6 - (s4 - s5)) :=
    ⟨by omega, by omega⟩
  simp only [combine32, sumTimes, differenceTimes, Option.bind_eq_bind,
    Option.bind_some, int32_of_inInt32 fits0, int32_of_inInt32 fits1,
    int32_of_inInt32 fits2, int32_of_inInt32 fits3, int32_of_inInt32 fits4,
    int32_of_inInt32 fits5, int32_of_inInt32 fits6, int32_of_inInt32 fits7,
    int32_of_inInt32 fitsSum, int32_of_inInt32 fitsDifference]

/-- Division by 256 towards zero. -/
theorem tdiv_bounds
    {value bound : Int}
    (low : -(bound * 256) ≤ value)
    (high : value ≤ bound * 256) :
    -bound ≤ value.tdiv 256 ∧ value.tdiv 256 ≤ bound := by
  rw [Int.tdiv_eq_ediv]
  split
  · omega
  · rename_i negative
    have : value < 0 := by omega
    rw [Int.sign_eq_one_of_pos (by omega)]
    omega

theorem evenPart_bounds
    {d : Nat → Int}
    {bound : Int}
    (bounds : ∀ x < 8, -bound ≤ d x ∧ d x ≤ bound)
    (x : Nat) :
    -(bound * 11143) ≤ evenPart d x ∧ evenPart d x ≤ bound * 11143 := by
  have b0 := bounds 0 (by omega)
  have b2 := bounds 2 (by omega)
  have b4 := bounds 4 (by omega)
  have b6 := bounds 6 (by omega)
  unfold evenPart
  split <;> omega

theorem oddPart_bounds
    {d : Nat → Int}
    {bound : Int}
    (bounds : ∀ x < 8, -bound ≤ d x ∧ d x ≤ bound)
    (x : Nat) :
    -(bound * 10498) ≤ oddPart d x ∧ oddPart d x ≤ bound * 10498 := by
  have b1 := bounds 1 (by omega)
  have b3 := bounds 3 (by omega)
  have b5 := bounds 5 (by omega)
  have b7 := bounds 7 (by omega)
  unfold oddPart oddSum oddDifference
  split
  · omega
  · exact tdiv_bounds (by omega) (by omega)
  · exact tdiv_bounds (by omega) (by omega)
  · omega

/-! The sums `t0` to `t7` as the code builds them. -/

theorem evenPart_zero
    (d : Nat → Int) :
    evenPart d 0 =
      (d 0 + d 4) * 2896 + (d 2 * 3784 + d 6 * 1567) := by
  simp only [evenPart]
  ring

theorem evenPart_one
    (d : Nat → Int) :
    evenPart d 1 =
      (d 0 - d 4) * 2896 + (d 2 * 1567 - d 6 * 3784) := by
  simp only [evenPart]
  ring

theorem evenPart_two
    (d : Nat → Int) :
    evenPart d 2 =
      (d 0 - d 4) * 2896 - (d 2 * 1567 - d 6 * 3784) := by
  simp only [evenPart]
  ring

theorem evenPart_three
    (d : Nat → Int) :
    evenPart d 3 =
      (d 0 + d 4) * 2896 - (d 2 * 3784 + d 6 * 1567) := by
  simp only [evenPart]
  ring

theorem oddPart_zero
    (d : Nat → Int) :
    oddPart d 0 =
      d 1 * 4017 + d 7 * 799 + (d 5 * 2276 + d 3 * 3406) := by
  simp only [oddPart]
  ring

theorem oddPart_three
    (d : Nat → Int) :
    oddPart d 3 =
      d 1 * 799 - d 7 * 4017 + (d 5 * 3406 - d 3 * 2276) := by
  simp only [oddPart]
  ring

theorem oddSum_eq
    (d : Nat → Int) :
    181 * oddSum d =
      (d 1 * 799 - d 7 * 4017 - (d 5 * 3406 - d 3 * 2276) +
        (d 1 * 4017 + d 7 * 799 - (d 5 * 2276 + d 3 * 3406))) * 181 := by
  unfold oddSum
  ring

theorem oddDifference_eq
    (d : Nat → Int) :
    181 * oddDifference d =
      (d 1 * 4017 + d 7 * 799 - (d 5 * 2276 + d 3 * 3406) -
        (d 1 * 799 - d 7 * 4017 - (d 5 * 3406 - d 3 * 2276))) * 181 := by
  unfold oddDifference
  ring

/-- A product sum of two moderate values, as `combine32` takes it. -/
theorem productSum_bounds
    {x y first second : Int}
    (xBounds : -21642 ≤ x ∧ x ≤ 21642)
    (yBounds : -21642 ≤ y ∧ y ≤ 21642)
    (firstBounds : 0 ≤ first ∧ first ≤ 4017)
    (secondBounds : 0 ≤ second ∧ second ≤ 4017) :
    (-173871828 ≤ x * first + y * second ∧
        x * first + y * second ≤ 173871828) ∧
      -173871828 ≤ x * first - y * second ∧
        x * first - y * second ≤ 173871828 := by
  have left := product_bounds xBounds firstBounds
  have right := product_bounds yBounds secondBounds
  omega

/-- A moderate line completes all but the rotation. -/
theorem butterfly32_eq
    {d : Nat → Int}
    (moderate : Moderate d) :
    butterfly32 d =
      (int32 (181 * oddSum d)).bind fun sum =>
        (int32 (181 * oddDifference d)).bind fun difference =>
          outputs32 (evenPart d 0) (evenPart d 1) (evenPart d 2)
            (evenPart d 3) (oddPart d 3) (oddPart d 0)
            (difference.tdiv 256) (sum.tdiv 256) := by
  have b0 := moderate 0 (by decide)
  have b1 := moderate 1 (by decide)
  have b2 := moderate 2 (by decide)
  have b3 := moderate 3 (by decide)
  have b4 := moderate 4 (by decide)
  have b5 := moderate 5 (by decide)
  have b6 := moderate 6 (by decide)
  have b7 := moderate 7 (by decide)
  have evenFits (x : Nat) : InInt32 (evenPart d x) := by
    have := evenPart_bounds moderate x
    exact ⟨by omega, by omega⟩
  unfold butterfly32
  rw [sumTimes_of_moderate b0 b4, differenceTimes_of_moderate b0 b4,
    productSum_of_moderate b2 b6 (by decide) (by decide),
    productDifference_of_moderate b2 b6 (by decide) (by decide),
    productSum_of_moderate b1 b7 (by decide) (by decide),
    productDifference_of_moderate b1 b7 (by decide) (by decide),
    productSum_of_moderate b5 b3 (by decide) (by decide),
    productDifference_of_moderate b5 b3 (by decide) (by decide)]
  -- the kernel must not unfold `combine32` to see these steps
  simp -implicitDefEqProofs only [Option.bind_eq_bind, Option.bind_some]
  rw [oddSum_eq, oddDifference_eq, oddPart_zero, oddPart_three,
    evenPart_zero, evenPart_one, evenPart_two, evenPart_three]
  exact combine32_eq
    (evenPart_zero d ▸ evenFits 0) (evenPart_one d ▸ evenFits 1)
    (evenPart_two d ▸ evenFits 2) (evenPart_three d ▸ evenFits 3)
    (productSum_bounds b1 b7 (by decide) (by decide)).2
    (productSum_bounds b5 b3 (by decide) (by decide)).2
    (productSum_bounds b5 b3 (by decide) (by decide)).1
    (productSum_bounds b1 b7 (by decide) (by decide)).1

/-- `butterfly` by the parts of the even and of the odd coefficients. -/
theorem butterfly_eq
    (d : Nat → Int) :
    butterfly d = lineEntry d := by
  have sum : oddPart d 1 = _ := congrArg (Int.tdiv · 256) (oddSum_eq d)
  have difference : oddPart d 2 = _ :=
    congrArg (Int.tdiv · 256) (oddDifference_eq d)
  funext x
  match x with
  | 0 => exact (congrArg₂ (· + ·) (evenPart_zero d) (oddPart_zero d)).symm
  | 1 => exact (congrArg₂ (· + ·) (evenPart_one d) sum).symm
  | 2 => exact (congrArg₂ (· + ·) (evenPart_two d) difference).symm
  | 3 => exact (congrArg₂ (· + ·) (evenPart_three d) (oddPart_three d)).symm
  | 4 => exact (congrArg₂ (· - ·) (evenPart_three d) (oddPart_three d)).symm
  | 5 => exact (congrArg₂ (· - ·) (evenPart_two d) difference).symm
  | 6 => exact (congrArg₂ (· - ·) (evenPart_one d) sum).symm
  | x + 7 =>
      have entry : lineEntry d (x + 7) = evenPart d 0 - oddPart d 0 := by
        rw [lineEntry, if_neg (by omega), show 7 - (x + 7) = 0 by omega]
      rw [entry, evenPart_zero, oddPart_zero]
      rfl

/-- The last sums of a moderate line, its rotated sums at hand. -/
theorem outputs32_eq
    {d : Nat → Int}
    (moderate : Moderate d) :
    outputs32 (evenPart d 0) (evenPart d 1) (evenPart d 2) (evenPart d 3)
        (oddPart d 3) (oddPart d 0) (oddPart d 2) (oddPart d 1) =
      some (lineEntry d) := by
  have addFits (x : Nat) : InInt32 (evenPart d x + oddPart d x) := by
    have := evenPart_bounds moderate x
    have := oddPart_bounds moderate x
    exact ⟨by omega, by omega⟩
  have subtractFits (x : Nat) : InInt32 (evenPart d x - oddPart d x) := by
    have := evenPart_bounds moderate x
    have := oddPart_bounds moderate x
    exact ⟨by omega, by omega⟩
  simp only [outputs32, Option.bind_eq_bind, Option.bind_some,
    int32_of_inInt32 (addFits _), int32_of_inInt32 (subtractFits _)]
  congr 1
  funext x
  match x with
  | 0 => rfl
  | 1 => rfl
  | 2 => rfl
  | 3 => rfl
  | 4 => rfl
  | 5 => rfl
  | 6 => rfl
  | x + 7 =>
      have entry : lineEntry d (x + 7) = evenPart d 0 - oddPart d 0 := by
        rw [lineEntry, if_neg (by omega), show 7 - (x + 7) = 0 by omega]
      exact entry.symm

/-- A moderate line overflows exactly when a rotated sum does. -/
theorem butterfly32_of_moderate
    {d : Nat → Int}
    (moderate : Moderate d) :
    butterfly32 d =
      if RotationFits d then some (lineEntry d) else none := by
  rw [butterfly32_eq moderate]
  split
  · rename_i fits
    rw [int32_of_inInt32 fits.1, int32_of_inInt32 fits.2]
    exact outputs32_eq moderate
  · rename_i overflows
    by_cases sumFits : InInt32 (181 * oddSum d)
    · have differenceOverflows : ¬InInt32 (181 * oddDifference d) :=
        fun differenceFits => overflows ⟨sumFits, differenceFits⟩
      rw [int32_of_inInt32 sumFits, int32_eq_none differenceOverflows]
      rfl
    · rw [int32_eq_none sumFits]
      rfl

/-! ## Eight butterflies -/

/-- A map that succeeds on every element succeeds on the list. -/
theorem mapM_eq_some_map
    {lines : List α}
    {transform : α → Option β}
    {exact : α → β}
    (succeeds : ∀ line ∈ lines, transform line = some (exact line)) :
    lines.mapM transform = some (lines.map exact) := by
  induction lines with
  | nil => rfl
  | cons first rest inductionHypothesis =>
      rw [List.mapM_cons, succeeds first (by simp),
        inductionHypothesis fun line member =>
          succeeds line (List.mem_cons_of_mem first member)]
      rfl

/-- A map that fails on one element fails on the list. -/
theorem mapM_eq_none
    {lines : List α}
    {transform : α → Option β}
    {bad : α}
    (member : bad ∈ lines)
    (fails : transform bad = none) :
    lines.mapM transform = none := by
  induction lines with
  | nil => simp at member
  | cons first rest inductionHypothesis =>
      rw [List.mapM_cons]
      rcases List.mem_cons.mp member with isFirst | inRest
      · rw [← isFirst, fails]
        rfl
      · rw [inductionHypothesis inRest]
        cases transform first <;> rfl

/-- Eight moderate lines whose rotated sums fit are transformed exactly. -/
theorem butterflies32_of_fits
    {lines : Nat → Nat → Int}
    (moderate : ∀ line < 8, Moderate (lines line))
    (fits : ∀ line < 8, RotationFits (lines line)) :
    ∃ results, butterflies32 lines = some results ∧
      ∀ line < 8, results line = lineEntry (lines line) := by
  have succeeds :
      ∀ line ∈ List.range 8,
        butterfly32 (lines line) = some (lineEntry (lines line)) := by
    intro line member
    have bound := List.mem_range.mp member
    rw [butterfly32_of_moderate (moderate line bound),
      if_pos (fits line bound)]
  refine ⟨fun line =>
    ((List.range 8).map fun line => lineEntry (lines line)).getD line
      fun _ => 0, ?_, ?_⟩
  · rw [butterflies32, mapM_eq_some_map succeeds]
    rfl
  · intro line bound
    simp [List.getD_eq_getElem?_getD, bound]

/-- One line whose rotated sums do not fit is enough. -/
theorem butterflies32_eq_none
    {lines : Nat → Nat → Int}
    {line : Nat}
    (bound : line < 8)
    (moderate : Moderate (lines line))
    (overflows : ¬RotationFits (lines line)) :
    butterflies32 lines = none := by
  have fails : butterfly32 (lines line) = none := by
    rw [butterfly32_of_moderate moderate, if_neg overflows]
  rw [butterflies32, mapM_eq_none (List.mem_range.mpr bound) fails]
  rfl

/-! ## The transform of a block -/

/-- The dequantised coefficients of baseline JPEG. -/
def Baseline (dataIn : Nat → Int) : Prop :=
  ∀ place < 64, -2048 ≤ dataIn place ∧ dataIn place ≤ 2047

/-- The rows of a baseline block are moderate. -/
theorem rows_moderate
    {dataIn : Nat → Int}
    (baseline : Baseline dataIn)
    {row : Nat}
    (bound : row < 8) :
    Moderate fun x => dataIn (row * 8 + x) := by
  intro x xBound
  have := baseline (row * 8 + x) (by omega)
  show -21642 ≤ dataIn (row * 8 + x) ∧ dataIn (row * 8 + x) ≤ 21642
  omega

/-- The columns of the exact row pass are moderate as well. -/
theorem exactColumn_moderate
    {dataIn : Nat → Int}
    (baseline : Baseline dataIn)
    (column : Nat) :
    Moderate (exactColumn dataIn column) := by
  intro y yBound
  have small :
      ∀ x < 8, -2048 ≤ dataIn (y * 8 + x) ∧ dataIn (y * 8 + x) ≤ 2048 := by
    intro x xBound
    have := baseline (y * 8 + x) (by omega)
    omega
  have entry :
      -(2048 * 21641) ≤ lineEntry (fun x => dataIn (y * 8 + x)) column ∧
        lineEntry (fun x => dataIn (y * 8 + x)) column ≤ 2048 * 21641 := by
    unfold lineEntry
    split
    · have even := evenPart_bounds small column
      have odd := oddPart_bounds small column
      omega
    · have even := evenPart_bounds small (7 - column)
      have odd := oddPart_bounds small (7 - column)
      omega
  unfold exactColumn
  omega

/-- A line is transformed by its eight values. -/
theorem lineEntry_congr
    {d e : Nat → Int}
    (agree : ∀ x < 8, d x = e x) :
    lineEntry d = lineEntry e := by
  have even : evenPart d = evenPart e := by
    funext x
    simp only [evenPart, agree 0 (by decide), agree 2 (by decide),
      agree 4 (by decide), agree 6 (by decide)]
  have odd : oddPart d = oddPart e := by
    funext x
    simp only [oddPart, oddSum, oddDifference, agree 1 (by decide),
      agree 3 (by decide), agree 5 (by decide), agree 7 (by decide)]
  funext x
  rw [lineEntry, lineEntry, even, odd]

theorem rotationFits_congr
    {d e : Nat → Int}
    (agree : ∀ x < 8, d x = e x) :
    RotationFits d ↔ RotationFits e := by
  simp only [RotationFits, oddSum, oddDifference, agree 1 (by decide),
    agree 3 (by decide), agree 5 (by decide), agree 7 (by decide)]

theorem moderate_congr
    {d e : Nat → Int}
    (agree : ∀ x < 8, d x = e x)
    (moderate : Moderate e) :
    Moderate d := by
  intro x bound
  rw [agree x bound]
  exact moderate x bound

/-- `idctProcess` over the exact columns. -/
theorem idctProcess_eq
    (dataIn : Nat → Int)
    (place : Nat) :
    idctProcess dataIn place =
      lineEntry (exactColumn dataIn (place % 8)) (place / 8) >>>
        (15 : Nat) := by
  have agree :
      ∀ y < 8,
        butterfly
            (fun x => dataIn ((y * 8 + place % 8) / 8 * 8 + x))
            ((y * 8 + place % 8) % 8) >>> (11 : Nat) =
          exactColumn dataIn (place % 8) y := by
    intro y _
    have row : (y * 8 + place % 8) / 8 = y := by omega
    have column : (y * 8 + place % 8) % 8 = place % 8 := by omega
    rw [row, column, butterfly_eq, Int.shiftRight_eq_div_pow]
    rfl
  show butterfly _ _ >>> (15 : Nat) = _
  rw [butterfly_eq, lineEntry_congr agree]

/-- The row pass on its own. -/
theorem idctProcess32_of_rows
    {dataIn : Nat → Int}
    {rows : Nat → Nat → Int}
    (rowsRun :
      butterflies32 (fun row x => dataIn (row * 8 + x)) = some rows) :
    idctProcess32 dataIn =
      (butterflies32 fun column y => rows y column >>> (11 : Nat)).bind
        fun columns => some fun place =>
          columns (place % 8) (place / 8) >>> (15 : Nat) := by
  rw [idctProcess32, rowsRun, Option.bind_eq_bind, Option.bind_some]

/-- After the row pass the columns are the exact ones. -/
theorem shiftedRows_eq
    {dataIn : Nat → Int}
    {rows : Nat → Nat → Int}
    (rowsExact :
      ∀ row < 8, rows row = lineEntry fun x => dataIn (row * 8 + x))
    (column : Nat) :
    ∀ y < 8, rows y column >>> (11 : Nat) = exactColumn dataIn column y := by
  intro y bound
  rw [rowsExact y bound, Int.shiftRight_eq_div_pow]
  rfl

/-- The sums fit: the transform returns the exact outputs. -/
theorem idctProcess32_of_fits
    {dataIn : Nat → Int}
    (baseline : Baseline dataIn)
    (fits : RotationsFit dataIn) :
    ∃ dataOut, idctProcess32 dataIn = some dataOut ∧
      ∀ place < 64, dataOut place = idctProcess dataIn place := by
  obtain ⟨rows, rowsRun, rowsExact⟩ :=
    butterflies32_of_fits (fun _ => rows_moderate baseline) fits.1
  have agree := shiftedRows_eq rowsExact
  obtain ⟨columns, columnsRun, columnsExact⟩ :=
    butterflies32_of_fits
      (fun column _ =>
        moderate_congr (agree column) (exactColumn_moderate baseline column))
      (fun column bound =>
        (rotationFits_congr (agree column)).mpr (fits.2 column bound))
  refine ⟨fun place => columns (place % 8) (place / 8) >>> (15 : Nat),
    ?_, ?_⟩
  · rw [idctProcess32_of_rows rowsRun, columnsRun, Option.bind_some]
  · intro place _
    show columns (place % 8) (place / 8) >>> (15 : Nat) = _
    rw [columnsExact (place % 8) (Nat.mod_lt _ (by decide)),
      lineEntry_congr (agree (place % 8)), idctProcess_eq]

/-- One sum does not fit: the transform overflows. -/
theorem idctProcess32_eq_none
    {dataIn : Nat → Int}
    (baseline : Baseline dataIn)
    (overflows : ¬RotationsFit dataIn) :
    idctProcess32 dataIn = none := by
  by_cases rowsFit : ∀ row < 8, RotationFits fun x => dataIn (row * 8 + x)
  · obtain ⟨rows, rowsRun, rowsExact⟩ :=
      butterflies32_of_fits (fun _ => rows_moderate baseline) rowsFit
    have columnOverflows :
        ¬∀ column < 8, RotationFits (exactColumn dataIn column) :=
      fun columnsFit => overflows ⟨rowsFit, columnsFit⟩
    simp only [not_forall] at columnOverflows
    obtain ⟨column, bound, columnOverflows⟩ := columnOverflows
    have agree := shiftedRows_eq rowsExact column
    have columnsRun :
        butterflies32 (fun column y => rows y column >>> (11 : Nat)) = none :=
      butterflies32_eq_none bound
        (moderate_congr agree (exactColumn_moderate baseline column))
        fun columnFits =>
          columnOverflows ((rotationFits_congr agree).mp columnFits)
    rw [idctProcess32_of_rows rowsRun, columnsRun, Option.bind_none]
  · simp only [not_forall] at rowsFit
    obtain ⟨row, bound, rowOverflows⟩ := rowsFit
    have rowsRun :
        butterflies32 (fun row x => dataIn (row * 8 + x)) = none :=
      butterflies32_eq_none bound (rows_moderate baseline bound) rowOverflows
    rw [idctProcess32, rowsRun, Option.bind_eq_bind, Option.bind_none]

/--
On a baseline block `jpeg_idct::process` stays within `int` exactly when the
rotated sums of its rows and columns do, and then its outputs are exact.
-/
theorem idctProcess32_isSome_iff
    {dataIn : Nat → Int}
    (baseline : Baseline dataIn) :
    ((idctProcess32 dataIn).isSome ↔ RotationsFit dataIn) ∧
      ∀ dataOut, idctProcess32 dataIn = some dataOut →
        ∀ place < 64, dataOut place = idctProcess dataIn place := by
  by_cases fits : RotationsFit dataIn
  · obtain ⟨exact, run, exactOut⟩ := idctProcess32_of_fits baseline fits
    rw [run]
    refine ⟨⟨fun _ => fits, fun _ => rfl⟩, ?_⟩
    intro dataOut same
    rw [← Option.some.inj same]
    exact exactOut
  · rw [idctProcess32_eq_none baseline fits]
    exact ⟨⟨nofun, fun holds => absurd holds fits⟩, nofun⟩

/-- A baseline block with coefficients in its first and its last row. -/
def texturedBlock : Nat → Int
  | 0 => -300
  | 1 => 45
  | 8 => -17
  | 63 => 5
  | _ => 0

/-- The textured block goes through. -/
theorem idctProcess32_isSome_iff_textured :
    (idctProcess32 texturedBlock).isSome ∧
      ∀ dataOut, idctProcess32 texturedBlock = some dataOut →
        ∀ place < 64, dataOut place = idctProcess texturedBlock place :=
  have baseline : Baseline texturedBlock := by
    intro place _
    unfold texturedBlock
    split <;> decide
  have exactly := idctProcess32_isSome_iff baseline
  ⟨exactly.1.mpr (by decide +kernel), exactly.2⟩

/-- A baseline block with four extreme coefficients in its first row. -/
def extremeBlock : Nat → Int
  | 1 => 2047
  | 3 => -2048
  | 5 => -2048
  | 7 => -2048
  | _ => 0

/-- Its first row overflows in `(t5 + t6) * 181`. -/
theorem idctProcess32_overflows :
    ¬∀ dataIn, Baseline dataIn → (idctProcess32 dataIn).isSome := by
  intro claim
  have baseline : Baseline extremeBlock := by
    intro place _
    unfold extremeBlock
    split <;> decide
  have returns := claim extremeBlock baseline
  have overflows : idctProcess32 extremeBlock = none := by decide +kernel
  rw [overflows] at returns
  exact absurd returns (by decide)

end CoreJpeg.Software
