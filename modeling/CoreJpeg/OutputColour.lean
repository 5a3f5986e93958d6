import CoreJpeg.OutputModel
import CoreJpeg.SoftwarePlacement
import Mathlib.Data.Rat.Floor
import Mathlib.Tactic.NormNum
import Mathlib.Tactic.Linarith
import Mathlib.Tactic.Ring

namespace CoreJpeg.JpegOutput

open Software

/-!
# How close is the fixed-point colour conversion?

The circuit multiplies with factors of twelve fractional bits and shifts each
product down, the software truncates one sum of real products, and both bring
the result into a byte.  The sums are linear in the samples, so their distance
before the clamp follows from the ranges of the samples, and the clamp does
not increase it.
-/

/-! ## The software's sums, evaluated exactly -/

/-- `static_cast<int>`: a number truncated toward zero. -/
def truncate (value : ℚ) : ℤ := if 0 ≤ value then ⌊value⌋ else ⌈value⌉

/-- `r`, `g` and `b` of `ConvertYUV2RGB` and `ConvertBlock`. -/
def exactRgb (y cb cr : ℤ) : ℤ × ℤ × ℤ :=
  (truncate (128 + y + cr * (1402 / 1000)),
    truncate (128 + y - cb * (34414 / 100000) - cr * (71414 / 100000)),
    truncate (128 + y + cb * (1772 / 1000)))

/-- The clamp of the C model, on an `int` that is stored in a byte. -/
def modelByte (value : ℤ) : Byte :=
  let v : BitVec 32 := .ofInt 32 value
  (if v &&& 0xFFFFFF00 ≠ 0 then v.sshiftRight 24 ^^^ 0xFF else v).setWidth 8

/-- The bytes that `ConvertYUV2RGB` stores. -/
def modelBytes (y cb cr : ℤ) : Byte × Byte × Byte :=
  let rgb := exactRgb y cb cr
  (modelByte rgb.1, modelByte rgb.2.1, modelByte rgb.2.2)

/-- A value brought into the range of a byte. -/
def clamped (value : ℤ) : ℤ := max 0 (min value 255)

/-! ## The clamps -/

section Clamps

/-- The bit trick of the circuit clamps numbers of 24 bits and a sign. -/
theorem channel_eq_clamped
    {value : BitVec 32}
    (least : -2 ^ 24 ≤ value.toInt)
    (most : value.toInt < 2 ^ 24) :
    ((channel value).toNat : ℤ) = clamped value.toInt := by
  have bound := value.isLt
  have zero : (0 : BitVec 24).toNat = 0 := rfl
  have high : value.extractLsb' 8 24 = 0 ↔ value.toNat < 256 := by
    rw [← BitVec.toNat_inj, BitVec.extractLsb'_toNat, zero,
      Nat.shiftRight_eq_div_pow]
    omega
  have top : (value.extractLsb' 24 8).toNat = value.toNat / 2 ^ 24 := by
    rw [BitVec.extractLsb'_toNat, Nat.shiftRight_eq_div_pow]
    omega
  rw [BitVec.toInt_eq_toNat_cond] at least most ⊢
  unfold channel clamped
  by_cases small : value.toNat < 256
  · rw [if_neg (by simpa using high.mpr small), BitVec.extractLsb'_toNat,
      Nat.shiftRight_zero]
    omega
  · rw [if_pos (by simpa using fun isZero => small (high.mp isZero))]
    by_cases negative : 2 ^ 31 ≤ value.toNat
    · have ones : value.extractLsb' 24 8 = 0xFF := by
        apply BitVec.eq_of_toNat_eq
        rw [top]
        simp
        omega
      rw [ones]
      simp
      omega
    · have zeros : value.extractLsb' 24 8 = 0 := by
        apply BitVec.eq_of_toNat_eq
        rw [top]
        simp
        omega
      rw [zeros]
      simp
      omega

/-- The C model clamps as the circuit does. -/
theorem modelByte_eq_channel (value : ℤ) :
    modelByte value = channel (.ofInt 32 value) := by
  have mask : ∀ bit < 32,
      (0xFFFFFF00 : BitVec 32).getLsbD bit = decide (8 ≤ bit) := by
    decide
  have parts (v : BitVec 32) :
      v &&& 0xFFFFFF00 = v.extractLsb' 8 24 ++ (0 : BitVec 8) := by
    apply BitVec.eq_of_getLsbD_eq
    intro bit inside
    rw [BitVec.getLsbD_and, mask bit inside, BitVec.getLsbD_append]
    by_cases low : bit < 8
    · simp [low]
    · have place : 8 + (bit - 8) = bit := by omega
      have short : bit - 8 < 24 := by omega
      simp [low, place, short]
      omega
  have zero (v : BitVec 32) :
      v &&& 0xFFFFFF00 = 0 ↔ v.extractLsb' 8 24 = 0 := by
    rw [parts]
    constructor
    · intro isZero
      have part := congrArg BitVec.toNat isZero
      rw [BitVec.toNat_append, ← Nat.shiftLeft_add_eq_or_of_lt (by decide),
        Nat.shiftLeft_eq] at part
      apply BitVec.eq_of_toNat_eq
      have none : BitVec.toNat (0 : BitVec 32) = 0 := rfl
      have noneShort : BitVec.toNat (0 : BitVec 24) = 0 := rfl
      omega
    · intro isZero
      rw [isZero]
      rfl
  have top (v : BitVec 32) :
      (v.sshiftRight 24 ^^^ 0xFF).setWidth 8 =
        v.extractLsb' 24 8 ^^^ 0xFF := by
    rw [BitVec.setWidth_xor]
    congr 1
    apply BitVec.eq_of_getLsbD_eq
    intro bit inside
    have here : 24 + bit < 32 := by omega
    have short : bit < 32 := by omega
    rw [BitVec.getLsbD_setWidth, BitVec.getLsbD_sshiftRight,
      BitVec.getLsbD_extractLsb', if_pos here]
    simp only [inside, not_le.mpr short, decide_true, decide_false,
      Bool.not_false, Bool.true_and]
  have low (v : BitVec 32) : v.setWidth 8 = v.extractLsb' 0 8 := by
    apply BitVec.eq_of_getLsbD_eq
    intro bit inside
    simp
  rw [modelByte, channel]
  by_cases small : (BitVec.ofInt 32 value).extractLsb' 8 24 = 0
  · simp only [ne_eq, zero, small, not_true_eq_false, if_false,
      bne_self_eq_false, Bool.false_eq_true, low]
  · simp only [ne_eq, zero, small, not_false_eq_true, if_true, bne_iff_ne,
      top]

/-- The software decoder clamps as the C model does. -/
theorem clampByte_eq (value : ℤ) :
    ((clampByte value).toNat : ℤ) = clamped value := by
  have inRange : 0 ≤ clamped value ∧ clamped value ≤ 255 := by
    unfold clamped
    omega
  have same : clampByte value = BitVec.ofInt 8 (clamped value) := rfl
  rw [same, BitVec.toNat_ofInt]
  omega

end Clamps

/-! ## The sums -/

section Sums

/-- A truncated fraction is within one of the fraction, toward zero. -/
theorem truncate_spec (numerator : ℤ) {denominator : ℤ}
    (positive : 0 < denominator) :
    let quotient := truncate ((numerator : ℚ) / denominator)
    (0 ≤ numerator →
      quotient * denominator ≤ numerator ∧
        numerator < (quotient + 1) * denominator) ∧
    (numerator < 0 →
      numerator ≤ quotient * denominator ∧
        (quotient - 1) * denominator < numerator) := by
  have scale : (0 : ℚ) < denominator := by exact_mod_cast positive
  intro quotient
  constructor
  · intro atLeast
    have sign : (0 : ℚ) ≤ (numerator : ℚ) / denominator :=
      div_nonneg (by exact_mod_cast atLeast) scale.le
    have isFloor : quotient = ⌊(numerator : ℚ) / denominator⌋ := if_pos sign
    have below := Int.floor_le ((numerator : ℚ) / denominator)
    have above := Int.lt_floor_add_one ((numerator : ℚ) / denominator)
    rw [← isFloor] at below above
    rw [le_div_iff₀ scale] at below
    rw [div_lt_iff₀ scale] at above
    exact ⟨by exact_mod_cast below, by exact_mod_cast above⟩
  · intro below
    have sign : ¬ (0 : ℚ) ≤ (numerator : ℚ) / denominator := by
      rw [not_le]
      exact div_neg_of_neg_of_pos (by exact_mod_cast below) scale
    have isCeil : quotient = ⌈(numerator : ℚ) / denominator⌉ := if_neg sign
    have above := Int.le_ceil ((numerator : ℚ) / denominator)
    have under := Int.ceil_lt_add_one ((numerator : ℚ) / denominator)
    rw [← isCeil] at above under
    rw [div_le_iff₀ scale] at above
    rw [← sub_lt_iff_lt_add, lt_div_iff₀ scale] at under
    exact ⟨by exact_mod_cast above, by exact_mod_cast under⟩

/-- A product with a factor of twelve fractional bits is shifted down. -/
theorem scaled_toInt
    {value number : ℤ} {factor : BitVec 32}
    (isNumber : factor.toInt = number)
    (fits : 0 ≤ number ∧ number < 8192)
    (small : |value| ≤ 2048) :
    (scaled (.ofInt 32 value) factor).toInt = value * number / 4096 := by
  obtain ⟨least, most⟩ := abs_le.mp small
  have magnitude : -(2048 * 8192) ≤ value * number ∧
      value * number ≤ 2048 * 8192 := by
    constructor <;> nlinarith
  have sample : (BitVec.ofInt 32 value).toInt = value := by
    rw [BitVec.toInt_ofInt, Int.bmod_eq_of_le (by omega) (by omega)]
  rw [scaled, BitVec.toInt_sshiftRight, BitVec.toInt_mul, sample, isNumber,
    Int.bmod_eq_of_le (by omega) (by omega), Int.shiftRight_eq_div_pow]
  rfl

/-- A sum that fits a signed word is not reduced. -/
theorem toInt_sum
    {first second : BitVec 32}
    (least : -2 ^ 31 ≤ first.toInt + second.toInt)
    (most : first.toInt + second.toInt < 2 ^ 31) :
    (first + second).toInt = first.toInt + second.toInt := by
  rw [BitVec.toInt_add, Int.bmod_eq_of_le (by omega) (by omega)]

/-- A difference that fits a signed word is not reduced. -/
theorem toInt_difference
    {first second : BitVec 32}
    (least : -2 ^ 31 ≤ first.toInt - second.toInt)
    (most : first.toInt - second.toInt < 2 ^ 31) :
    (first - second).toInt = first.toInt - second.toInt := by
  rw [BitVec.toInt_sub, Int.bmod_eq_of_le (by omega) (by omega)]

/-- The circuit's sums, as integers. -/
theorem conv_toInt
    {mode : ImageMode} {y cb cr : ℤ}
    (coloured : mode ≠ .monochrome)
    (lumaSmall : |y| ≤ 2 ^ 20)
    (blueSmall : |cb| ≤ 2048)
    (redSmall : |cr| ≤ 2048) :
    let rgb := conv mode (.ofInt 32 y) (.ofInt 32 cb) (.ofInt 32 cr)
    rgb.1.toInt = 128 + y + cr * 5743 / 4096 ∧
      rgb.2.1.toInt = 128 + y - cb * 1410 / 4096 - cr * 2925 / 4096 ∧
      rgb.2.2.toInt = 128 + y + cb * 7258 / 4096 := by
  have red : (scaled (.ofInt 32 cr) 5743).toInt = cr * 5743 / 4096 :=
    scaled_toInt rfl (by decide) redSmall
  have greenBlue : (scaled (.ofInt 32 cb) 1410).toInt = cb * 1410 / 4096 :=
    scaled_toInt rfl (by decide) blueSmall
  have greenRed : (scaled (.ofInt 32 cr) 2925).toInt = cr * 2925 / 4096 :=
    scaled_toInt rfl (by decide) redSmall
  have blue : (scaled (.ofInt 32 cb) 7258).toInt = cb * 7258 / 4096 :=
    scaled_toInt rfl (by decide) blueSmall
  rw [abs_le] at lumaSmall blueSmall redSmall
  have half : (128 : BitVec 32).toInt = 128 := rfl
  have sample : (BitVec.ofInt 32 y).toInt = y := by
    rw [BitVec.toInt_ofInt, Int.bmod_eq_of_le (by omega) (by omega)]
  have luma : (128 + BitVec.ofInt 32 y : BitVec 32).toInt = 128 + y := by
    rw [toInt_sum (by omega) (by omega), half, sample]
  have green : (128 + BitVec.ofInt 32 y - scaled (.ofInt 32 cb) 1410 :
      BitVec 32).toInt = 128 + y - cb * 1410 / 4096 := by
    rw [toInt_difference (by omega) (by omega), luma, greenBlue]
  simp only [conv, if_neg coloured]
  refine ⟨?_, ?_, ?_⟩
  · rw [toInt_sum (by omega) (by omega), luma, red]
  · rw [toInt_difference (by omega) (by omega), green, greenRed]
  · rw [toInt_sum (by omega) (by omega), luma, blue]

/-- The software's sums are truncated fractions. -/
theorem exactRgb_eq (y cb cr : ℤ) :
    exactRgb y cb cr =
      (truncate (((128 + y) * 1000 + cr * 1402 : ℤ) / (1000 : ℤ)),
        truncate (((128 + y) * 100000 - (cb * 34414 + cr * 71414) : ℤ) /
          (100000 : ℤ)),
        truncate (((128 + y) * 1000 + cb * 1772 : ℤ) / (1000 : ℤ))) := by
  rw [exactRgb]
  congr 2
  · push_cast
    ring
  · congr 1
    push_cast
    ring
  · congr 1
    push_cast
    ring

/--
One rounded-down product: the circuit's sum is at most one from the truncated
one when the unrounded sums are less than one apart.
-/
theorem one_product_close
    (base : ℤ) {product exact : ℤ}
    (near : |product * 1000 - exact * 4096| < 4096 * 1000) :
    |clamped (base + product / 4096) -
        clamped (truncate ((base * 1000 + exact : ℤ) / (1000 : ℤ)))| ≤ 1 := by
  have bounds := truncate_spec (base * 1000 + exact)
    (by decide : (0 : ℤ) < 1000)
  rw [abs_lt] at near
  rw [abs_le]
  unfold clamped
  omega

/--
Two rounded-down products are subtracted, so the circuit's sum is too large by
up to two more.
-/
theorem two_products_between
    (base : ℤ) {first second exact : ℤ}
    (near : |(first + second) * 100000 - exact * 4096| < 4096 * 100000) :
    let difference :=
      clamped (base - first / 4096 - second / 4096) -
        clamped (truncate ((base * 100000 - exact : ℤ) / (100000 : ℤ)))
    0 ≤ difference ∧ difference ≤ 3 := by
  have bounds := truncate_spec (base * 100000 - exact)
    (by decide : (0 : ℤ) < 100000)
  rw [abs_lt] at near
  unfold clamped
  omega

/-- A factor in 4096ths is near a factor in thousandths. -/
theorem product_near
    {chroma factor fraction : ℤ}
    (small : |chroma| ≤ 2048)
    (nearFactor : |factor * 1000 - fraction * 4096| < 2000) :
    |chroma * factor * 1000 - chroma * fraction * 4096| < 4096 * 1000 := by
  have split : chroma * factor * 1000 - chroma * fraction * 4096 =
      chroma * (factor * 1000 - fraction * 4096) := by ring
  have nonneg := abs_nonneg (factor * 1000 - fraction * 4096)
  rw [split, abs_mul]
  nlinarith

/-- The two factors of green are near those of the software. -/
theorem products_near
    {cb cr : ℤ}
    (blueSmall : |cb| ≤ 2048)
    (redSmall : |cr| ≤ 2048) :
    |(cb * 1410 + cr * 2925) * 100000 -
        (cb * 34414 + cr * 71414) * 4096| < 4096 * 100000 := by
  rw [abs_le] at blueSmall redSmall
  rw [abs_lt]
  omega

/-- The software's sums are far below the range of `int`. -/
theorem exactRgb_bounds
    {y cb cr : ℤ}
    (lumaSmall : |y| ≤ 2 ^ 20)
    (blueSmall : |cb| ≤ 2 ^ 20)
    (redSmall : |cr| ≤ 2 ^ 20) :
    let rgb := exactRgb y cb cr
    |rgb.1| ≤ 2 ^ 23 ∧ |rgb.2.1| ≤ 2 ^ 23 ∧ |rgb.2.2| ≤ 2 ^ 23 := by
  have red := truncate_spec ((128 + y) * 1000 + cr * 1402)
    (by decide : (0 : ℤ) < 1000)
  have green := truncate_spec ((128 + y) * 100000 - (cb * 34414 + cr * 71414))
    (by decide : (0 : ℤ) < 100000)
  have blue := truncate_spec ((128 + y) * 1000 + cb * 1772)
    (by decide : (0 : ℤ) < 1000)
  rw [abs_le] at lumaSmall blueSmall redSmall
  simp only [exactRgb_eq, abs_le]
  refine ⟨?_, ?_, ?_⟩
  · clear green blue
    omega
  · clear red blue
    omega
  · clear red green
    omega

end Sums

/-! ## The registered pixel -/

section Pixels

/-- The conversion of `ConvertBlock`, evaluated exactly. -/
def exactConversion : RgbConversion where
  toRgb := exactRgb
  grey := by
    intro luma _ _
    have whole (value : ℤ) : truncate (value : ℚ) = value := by
      simp [truncate]
    have sum : truncate (128 + luma) = 128 + luma := by
      have cast := whole (128 + luma)
      push_cast at cast
      exact cast
    simp [exactRgb, sum]

/-- The C model clamps every sum that a signed word of 24 bits holds. -/
theorem modelByte_eq_clamped
    {value : ℤ}
    (small : |value| ≤ 2 ^ 23) :
    ((modelByte value).toNat : ℤ) = clamped value := by
  obtain ⟨least, most⟩ := abs_le.mp small
  have same : (BitVec.ofInt 32 value).toInt = value := by
    rw [BitVec.toInt_ofInt, Int.bmod_eq_of_le (by omega) (by omega)]
  rw [modelByte_eq_channel, channel_eq_clamped, same]
  · omega
  · omega

/-- On such sums the C model and the software decoder agree. -/
theorem modelByte_eq_clampByte
    {value : ℤ}
    (small : |value| ≤ 2 ^ 23) :
    modelByte value = clampByte value := by
  have model := modelByte_eq_clamped small
  have software := clampByte_eq value
  apply BitVec.eq_of_toNat_eq
  omega

/--
The pixel that the circuit registers for three samples, the pixel of the C
model and that of the software decoder.
-/
theorem registered_pixel_close
    {s : State} {i : Input} {y cb cr : ℤ}
    (running : i.rst = false)
    (space : outputSpace s i = true)
    (coloured : i.imgMode ≠ .monochrome)
    (luma : s.uRamY.dataOutO = .ofInt 32 y)
    (blueSample : s.uRamCb.dataOutO = .ofInt 32 cb)
    (redSample : s.uRamCr.dataOutO = .ofInt 32 cr)
    (lumaSmall : |y| ≤ 2 ^ 20)
    (blueSmall : |cb| ≤ 2048)
    (redSmall : |cr| ≤ 2048) :
    let next := step s i
    let sums :=
      conv i.imgMode s.uRamY.dataOutO s.uRamCb.dataOutO s.uRamCr.dataOutO
    let exact := exactRgb y cb cr
    let software := colour (channels exactConversion i.imgMode y cb cr)
    modelBytes y cb cr = software ∧
      |(next.pixelRQ.toNat : ℤ) - software.1.toNat| ≤ 1 ∧
      (0 ≤ (next.pixelGQ.toNat : ℤ) - software.2.1.toNat ∧
        (next.pixelGQ.toNat : ℤ) - software.2.1.toNat ≤ 3) ∧
      |(next.pixelBQ.toNat : ℤ) - software.2.2.toNat| ≤ 1 ∧
      (next.pixelRQ.toNat : ℤ) = clamped sums.1.toInt ∧
      (next.pixelGQ.toNat : ℤ) = clamped sums.2.1.toInt ∧
      (next.pixelBQ.toNat : ℤ) = clamped sums.2.2.toInt ∧
      ((modelByte exact.1).toNat : ℤ) = clamped exact.1 ∧
      ((modelByte exact.2.1).toNat : ℤ) = clamped exact.2.1 ∧
      ((modelByte exact.2.2).toNat : ℤ) = clamped exact.2.2 := by
  intro next sums exact software
  have samples : sums =
      conv i.imgMode (.ofInt 32 y) (.ofInt 32 cb) (.ofInt 32 cr) := by
    rw [← luma, ← blueSample, ← redSample]
  have isExact : software = colour exact :=
    congrArg colour (if_neg coloured)
  have registers : next.pixelRQ = channel sums.1 ∧
      next.pixelGQ = channel sums.2.1 ∧ next.pixelBQ = channel sums.2.2 := by
    simp [next, sums, step, running, space]
  obtain ⟨red, green, blue⟩ :=
    conv_toInt coloured lumaSmall blueSmall redSmall
  rw [← samples] at red green blue
  obtain ⟨redExact, greenExact, blueExact⟩ :=
    exactRgb_bounds lumaSmall (blueSmall.trans (by decide))
      (redSmall.trans (by decide))
  have redByte := clampByte_eq exact.1
  have greenByte := clampByte_eq exact.2.1
  have blueByte := clampByte_eq exact.2.2
  have redClose := one_product_close (128 + y)
    (product_near redSmall (by decide : |(5743 : ℤ) * 1000 - 1402 * 4096| < _))
  have blueClose := one_product_close (128 + y)
    (product_near blueSmall (by decide : |(7258 : ℤ) * 1000 - 1772 * 4096| < _))
  have greenBetween := two_products_between (128 + y)
    (products_near blueSmall redSmall)
  rw [abs_le] at lumaSmall blueSmall redSmall
  have redClamp : ((channel sums.1).toNat : ℤ) = clamped sums.1.toInt :=
    channel_eq_clamped (by omega) (by omega)
  have greenClamp : ((channel sums.2.1).toNat : ℤ) = clamped sums.2.1.toInt :=
    channel_eq_clamped (by omega) (by omega)
  have blueClamp : ((channel sums.2.2).toNat : ℤ) = clamped sums.2.2.toInt :=
    channel_eq_clamped (by omega) (by omega)
  rw [isExact, registers.1, registers.2.1, registers.2.2]
  refine ⟨?_, ?_, ?_, ?_, redClamp, greenClamp, blueClamp,
    modelByte_eq_clamped redExact, modelByte_eq_clamped greenExact,
    modelByte_eq_clamped blueExact⟩
  · simp only [modelBytes, colour, modelByte_eq_clampByte redExact,
      modelByte_eq_clampByte greenExact, modelByte_eq_clampByte blueExact,
      exact]
  · rw [redClamp, red, colour, redByte]
    simpa only [exact, exactRgb_eq] using redClose
  · rw [greenClamp, green, colour, greenByte]
    simpa only [exact, exactRgb_eq] using greenBetween
  · rw [blueClamp, blue, colour, blueByte]
    simpa only [exact, exactRgb_eq] using blueClose

/-- A stage that is about to register the pixel of three samples. -/
def holding (y cb cr : ℤ) : State :=
  { reset with
    uRamY := { YRam.reset with ramRead1Q := .ofInt 32 y }
    uRamCb := { CxRam.reset with ramRead1Q := .ofInt 32 cb }
    uRamCr := { CxRam.reset with ramRead1Q := .ofInt 32 cr }
    activeQ := true }

/-- A cycle that takes a pixel in colour. -/
def takingPixel : Input where
  rst := false
  imgStart := false
  imgWidth := 8
  imgHeight := 8
  imgMode := .ycbcr444
  inportValid := false
  inportData := 0
  inportIdx := 0
  inportId := 0
  outportAccept := true

theorem registered_pixel_close_holding :
    let next := step (holding 20 (-30) 2000) takingPixel
    let software :=
      colour (channels exactConversion .ycbcr444 20 (-30) 2000)
    |(next.pixelRQ.toNat : ℤ) - software.1.toNat| ≤ 1 ∧
      (0 ≤ (next.pixelGQ.toNat : ℤ) - software.2.1.toNat ∧
        (next.pixelGQ.toNat : ℤ) - software.2.1.toNat ≤ 3) := by
  have close := registered_pixel_close
    (rfl : takingPixel.rst = false)
    (rfl : outputSpace (holding 20 (-30) 2000) takingPixel = true)
    (by decide)
    (rfl : _ = BitVec.ofInt 32 20)
    (rfl : _ = BitVec.ofInt 32 (-30))
    (rfl : _ = BitVec.ofInt 32 2000)
    (by decide) (by decide) (by decide)
  exact ⟨close.2.1, close.2.2.1⟩

end Pixels

end CoreJpeg.JpegOutput
