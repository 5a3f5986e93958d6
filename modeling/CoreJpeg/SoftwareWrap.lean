import CoreJpeg.SoftwareOverflow

namespace CoreJpeg.Software

/-!
# `jpeg_idct` in wrapping integers

A circuit cannot fail on an overflow; it computes modulo `2 ^ 32`.  Here
`jpeg_idct::process` is written with 32-bit words, every sum and product
wrapping.  On every block on which the checked transform returns, the words
stand for the integers that it returns.
-/

/-- `butterfly` with wrapping sums and products. -/
def butterflyWrap (d : Nat → BitVec 32) : Nat → BitVec 32 :=
  let s0 := (d 0 + d 4) * 2896
  let s1 := (d 0 - d 4) * 2896
  let s3 := d 2 * 3784 + d 6 * 1567
  let s2 := d 2 * 1567 - d 6 * 3784
  let s7 := d 1 * 4017 + d 7 * 799
  let s4 := d 1 * 799 - d 7 * 4017
  let s6 := d 5 * 2276 + d 3 * 3406
  let s5 := d 5 * 3406 - d 3 * 2276
  let t0 := s0 + s3
  let t3 := s0 - s3
  let t1 := s1 + s2
  let t2 := s1 - s2
  let t4 := s4 + s5
  let t5 := s4 - s5
  let t7 := s7 + s6
  let t6 := s7 - s6
  let r6 := ((t5 + t6) * 181).sdiv 256
  let r5 := ((t6 - t5) * 181).sdiv 256
  fun
    | 0 => t0 + t7
    | 1 => t1 + r6
    | 2 => t2 + r5
    | 3 => t3 + t4
    | 4 => t3 - t4
    | 5 => t2 - r5
    | 6 => t1 - r6
    | _ => t0 - t7

/-- `jpeg_idct::process` with wrapping sums and products. -/
def idctProcessWrap (dataIn : Nat → BitVec 32) : Nat → BitVec 32 :=
  let workingBuf (place : Nat) : BitVec 32 :=
    (butterflyWrap (fun x => dataIn (place / 8 * 8 + x))
      (place % 8)).sshiftRight 11
  fun place =>
    (butterflyWrap (fun y => workingBuf (y * 8 + place % 8))
      (place / 8)).sshiftRight 15

/-! ## Words for integers -/

/-- A word stands for the integer that its signed value is. -/
def Stands (word : BitVec 32) (value : Int) : Prop := word.toInt = value

theorem bmod_of_inInt32
    {value : Int}
    (fits : InInt32 value) :
    value.bmod (2 ^ 32) = value := by
  obtain ⟨low, high⟩ := fits
  exact Int.bmod_eq_of_le (by omega) (by omega)

section Words

variable {a b : BitVec 32} {x y result constant : Int}

theorem stands_add
    (left : Stands a x)
    (right : Stands b y)
    (computed : int32 (x + y) = some result) :
    Stands (a + b) result := by
  obtain ⟨fits, rfl⟩ := int32_eq_some computed
  rw [Stands, BitVec.toInt_add, left, right, bmod_of_inInt32 fits]

theorem stands_sub
    (left : Stands a x)
    (right : Stands b y)
    (computed : int32 (x - y) = some result) :
    Stands (a - b) result := by
  obtain ⟨fits, rfl⟩ := int32_eq_some computed
  rw [Stands, BitVec.toInt_sub, left, right, bmod_of_inInt32 fits]

theorem stands_mul
    (left : Stands a x)
    (right : Stands b y)
    (computed : int32 (x * y) = some result) :
    Stands (a * b) result := by
  obtain ⟨fits, rfl⟩ := int32_eq_some computed
  rw [Stands, BitVec.toInt_mul, left, right, bmod_of_inInt32 fits]

theorem stands_sumTimes
    (left : Stands a x)
    (right : Stands b y)
    {factor : BitVec 32}
    (isConstant : Stands factor constant)
    (computed : sumTimes x y constant = some result) :
    Stands ((a + b) * factor) result := by
  obtain ⟨sum, sumComputed, product⟩ := Option.bind_eq_some_iff.mp computed
  exact stands_mul (stands_add left right sumComputed) isConstant product

theorem stands_differenceTimes
    (left : Stands a x)
    (right : Stands b y)
    {factor : BitVec 32}
    (isConstant : Stands factor constant)
    (computed : differenceTimes x y constant = some result) :
    Stands ((a - b) * factor) result := by
  obtain ⟨sum, sumComputed, product⟩ := Option.bind_eq_some_iff.mp computed
  exact stands_mul (stands_sub left right sumComputed) isConstant product

theorem stands_productSum
    (left : Stands a x)
    (right : Stands b y)
    {first second : Int}
    {firstWord secondWord : BitVec 32}
    (isFirst : Stands firstWord first)
    (isSecond : Stands secondWord second)
    (computed : productSum x first y second = some result) :
    Stands (a * firstWord + b * secondWord) result := by
  obtain ⟨p, pComputed, rest⟩ := Option.bind_eq_some_iff.mp computed
  obtain ⟨q, qComputed, sum⟩ := Option.bind_eq_some_iff.mp rest
  exact stands_add (stands_mul left isFirst pComputed)
    (stands_mul right isSecond qComputed) sum

theorem stands_productDifference
    (left : Stands a x)
    (right : Stands b y)
    {first second : Int}
    {firstWord secondWord : BitVec 32}
    (isFirst : Stands firstWord first)
    (isSecond : Stands secondWord second)
    (computed : productDifference x first y second = some result) :
    Stands (a * firstWord - b * secondWord) result := by
  obtain ⟨p, pComputed, rest⟩ := Option.bind_eq_some_iff.mp computed
  obtain ⟨q, qComputed, difference⟩ := Option.bind_eq_some_iff.mp rest
  exact stands_sub (stands_mul left isFirst pComputed)
    (stands_mul right isSecond qComputed) difference

/-- Division by 256 towards zero stays in range. -/
theorem stands_div
    (left : Stands a x) :
    Stands (a.sdiv 256) (x.tdiv 256) := by
  have range := BitVec.toInt_lt (x := a)
  have low := BitVec.le_toInt a
  rw [Stands] at left
  rw [left] at range low
  have bounds : -8388608 ≤ x.tdiv 256 ∧ x.tdiv 256 ≤ 8388608 :=
    tdiv_bounds (by omega) (by omega)
  have divisor : (256 : BitVec 32).toInt = 256 := rfl
  rw [Stands, BitVec.toInt_sdiv, left, divisor]
  exact bmod_of_inInt32 ⟨by omega, by omega⟩

end Words

/-! ## The transform -/

/-- The last eight sums of a line. -/
theorem outputs32_stands
    {t0 t1 t2 t3 t4 t7 r5 r6 : Int}
    {w0 w1 w2 w3 w4 w7 v5 v6 : BitVec 32}
    (h0 : Stands w0 t0)
    (h1 : Stands w1 t1)
    (h2 : Stands w2 t2)
    (h3 : Stands w3 t3)
    (h4 : Stands w4 t4)
    (h7 : Stands w7 t7)
    (h5 : Stands v5 r5)
    (h6 : Stands v6 r6)
    {out : Nat → Int}
    (computed : outputs32 t0 t1 t2 t3 t4 t7 r5 r6 = some out)
    (x : Nat) :
    Stands
      (match x with
        | 0 => w0 + w7
        | 1 => w1 + v6
        | 2 => w2 + v5
        | 3 => w3 + w4
        | 4 => w3 - w4
        | 5 => w2 - v5
        | 6 => w1 - v6
        | _ => w0 - w7)
      (out x) := by
  obtain ⟨o0, c0, computed⟩ := Option.bind_eq_some_iff.mp computed
  obtain ⟨o1, c1, computed⟩ := Option.bind_eq_some_iff.mp computed
  obtain ⟨o2, c2, computed⟩ := Option.bind_eq_some_iff.mp computed
  obtain ⟨o3, c3, computed⟩ := Option.bind_eq_some_iff.mp computed
  obtain ⟨o4, c4, computed⟩ := Option.bind_eq_some_iff.mp computed
  obtain ⟨o5, c5, computed⟩ := Option.bind_eq_some_iff.mp computed
  obtain ⟨o6, c6, computed⟩ := Option.bind_eq_some_iff.mp computed
  obtain ⟨o7, c7, computed⟩ := Option.bind_eq_some_iff.mp computed
  cases computed
  match x with
  | 0 => exact stands_add h0 h7 c0
  | 1 => exact stands_add h1 h6 c1
  | 2 => exact stands_add h2 h5 c2
  | 3 => exact stands_add h3 h4 c3
  | 4 => exact stands_sub h3 h4 c4
  | 5 => exact stands_sub h2 h5 c5
  | 6 => exact stands_sub h1 h6 c6
  | _ + 7 => exact stands_sub h0 h7 c7

/-- A line on which no operation leaves the range. -/
theorem butterfly32_stands
    {d : Nat → BitVec 32}
    {e : Nat → Int}
    (inputs : ∀ x < 8, Stands (d x) (e x))
    {out : Nat → Int}
    (computed : butterfly32 e = some out)
    (x : Nat) :
    Stands (butterflyWrap d x) (out x) := by
  have input (x : Nat) (bound : x < 8 := by decide) := inputs x bound
  have h181 : Stands 181 181 := rfl
  obtain ⟨s0, c0, computed⟩ := Option.bind_eq_some_iff.mp computed
  obtain ⟨s1, c1, computed⟩ := Option.bind_eq_some_iff.mp computed
  obtain ⟨s3, c3, computed⟩ := Option.bind_eq_some_iff.mp computed
  obtain ⟨s2, c2, computed⟩ := Option.bind_eq_some_iff.mp computed
  obtain ⟨s7, c7, computed⟩ := Option.bind_eq_some_iff.mp computed
  obtain ⟨s4, c4, computed⟩ := Option.bind_eq_some_iff.mp computed
  obtain ⟨s6, c6, computed⟩ := Option.bind_eq_some_iff.mp computed
  obtain ⟨s5, c5, computed⟩ := Option.bind_eq_some_iff.mp computed
  have h0 := stands_sumTimes (input 0) (input 4)
    (show Stands 2896 2896 from rfl) c0
  have h1 := stands_differenceTimes (input 0) (input 4)
    (show Stands 2896 2896 from rfl) c1
  have h3 := stands_productSum (input 2) (input 6)
    (show Stands 3784 3784 from rfl) (show Stands 1567 1567 from rfl) c3
  have h2 := stands_productDifference (input 2) (input 6)
    (show Stands 1567 1567 from rfl) (show Stands 3784 3784 from rfl) c2
  have h7 := stands_productSum (input 1) (input 7)
    (show Stands 4017 4017 from rfl) (show Stands 799 799 from rfl) c7
  have h4 := stands_productDifference (input 1) (input 7)
    (show Stands 799 799 from rfl) (show Stands 4017 4017 from rfl) c4
  have h6 := stands_productSum (input 5) (input 3)
    (show Stands 2276 2276 from rfl) (show Stands 3406 3406 from rfl) c6
  have h5 := stands_productDifference (input 5) (input 3)
    (show Stands 3406 3406 from rfl) (show Stands 2276 2276 from rfl) c5
  obtain ⟨t0, d0, computed⟩ := Option.bind_eq_some_iff.mp computed
  obtain ⟨t3, d3, computed⟩ := Option.bind_eq_some_iff.mp computed
  obtain ⟨t1, d1, computed⟩ := Option.bind_eq_some_iff.mp computed
  obtain ⟨t2, d2, computed⟩ := Option.bind_eq_some_iff.mp computed
  obtain ⟨t4, d4, computed⟩ := Option.bind_eq_some_iff.mp computed
  obtain ⟨t5, d5, computed⟩ := Option.bind_eq_some_iff.mp computed
  obtain ⟨t7, d7, computed⟩ := Option.bind_eq_some_iff.mp computed
  obtain ⟨t6, d6, computed⟩ := Option.bind_eq_some_iff.mp computed
  obtain ⟨r6, e6, computed⟩ := Option.bind_eq_some_iff.mp computed
  obtain ⟨r5, e5, computed⟩ := Option.bind_eq_some_iff.mp computed
  have g5 := stands_sub h4 h5 d5
  have g6 := stands_sub h7 h6 d6
  have sum := stands_div (stands_sumTimes g5 g6 h181 e6)
  have difference := stands_div (stands_differenceTimes g6 g5 h181 e5)
  have shown := outputs32_stands (stands_add h0 h3 d0)
    (stands_add h1 h2 d1) (stands_sub h1 h2 d2) (stands_sub h0 h3 d3)
    (stands_add h4 h5 d4) (stands_add h7 h6 d7) difference sum computed x
  unfold butterflyWrap
  exact shown

/-- One butterfly for each of eight lines. -/
theorem butterflies32_line
    {lines results : Nat → Nat → Int}
    (computed : butterflies32 lines = some results)
    {line : Nat}
    (bound : line < 8) :
    butterfly32 (lines line) = some (results line) := by
  obtain ⟨list, run, returned⟩ := Option.bind_eq_some_iff.mp computed
  have succeeds :
      ∀ other ∈ List.range 8, butterfly32 (lines other) =
        some ((butterfly32 (lines other)).getD fun _ => 0) := by
    intro other member
    cases result : butterfly32 (lines other) with
    | some out => rfl
    | none =>
        rw [mapM_eq_none member result] at run
        cases run
  rw [mapM_eq_some_map succeeds, Option.some.injEq] at run
  have same : results line =
      (butterfly32 (lines line)).getD fun _ => 0 := by
    cases returned
    rw [← run]
    simp [List.getD_eq_getElem?_getD, bound]
  rw [same]
  exact succeeds line (List.mem_range.mpr bound)

/-- The wrapping butterfly looks at eight words only. -/
theorem butterflyWrap_congr
    {d e : Nat → BitVec 32}
    (agree : ∀ x < 8, d x = e x) :
    butterflyWrap d = butterflyWrap e := by
  have agreeAt (x : Nat) (inside : x < 8 := by decide) := agree x inside
  simp only [butterflyWrap, agreeAt 0, agreeAt 1, agreeAt 2, agreeAt 3, agreeAt 4, agreeAt 5, agreeAt 6,
    agreeAt 7]

/-- The wrapping transform looks at the 64 places of a block only. -/
theorem idctProcessWrap_congr
    {words others : Nat → BitVec 32}
    (agree : ∀ place < 64, words place = others place)
    {place : Nat} :
    idctProcessWrap words place = idctProcessWrap others place := by
  refine congrArg (fun line => (line (place / 8)).sshiftRight 15)
    (butterflyWrap_congr fun y isRow => ?_)
  refine congrArg
    (fun line => (line ((y * 8 + place % 8) % 8)).sshiftRight 11)
    (butterflyWrap_congr fun x inLine => agree _ ?_)
  omega

/-- A shifted word stands for the shifted integer. -/
theorem stands_shift
    {a : BitVec 32}
    {x : Int}
    (left : Stands a x)
    (shift : Nat) :
    Stands (a.sshiftRight shift) (x >>> shift) := by
  rw [Stands, BitVec.toInt_sshiftRight, left]

/--
On a block on which the checked transform returns, the wrapping transform
stands for what it returns.
-/
theorem idctProcess32_stands
    {words : Nat → BitVec 32}
    {dataIn : Nat → Int}
    (inputs : ∀ place < 64, Stands (words place) (dataIn place))
    {out : Nat → Int}
    (computed : idctProcess32 dataIn = some out)
    (place : Nat) :
    Stands (idctProcessWrap words place) (out place) := by
  obtain ⟨rows, rowsRun, computed⟩ := Option.bind_eq_some_iff.mp computed
  obtain ⟨columns, columnsRun, computed⟩ :=
    Option.bind_eq_some_iff.mp computed
  cases computed
  refine stands_shift (butterfly32_stands (fun y yBound => ?_)
    (butterflies32_line columnsRun (Nat.mod_lt _ (by decide))) _) 15
  have row : (y * 8 + place % 8) / 8 = y := by omega
  have column : (y * 8 + place % 8) % 8 = place % 8 := by omega
  beta_reduce
  rw [row, column]
  exact stands_shift (butterfly32_stands
    (fun x xBound => inputs (y * 8 + x) (by omega))
    (butterflies32_line rowsRun yBound) _) 11

end CoreJpeg.Software
