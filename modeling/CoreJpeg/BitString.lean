import Mathlib.Data.List.Infix
import Mathlib.Data.List.TakeDrop
import Mathlib.Tactic.Ring

namespace CoreJpeg

/-!
# Words as bit strings

A word is read most significant bit first.  A bit string is also a number, and
a field of a word is the number that shifting and masking the word yields.
-/

namespace BitString

/-- The bits of a word, most significant bit first. -/
def bitsOf {width : Nat} (word : BitVec width) : List Bool :=
  (List.range width).map word.getMsbD

/-- The number a bit string spells, most significant bit first. -/
def ofBits (bits : List Bool) : Nat :=
  bits.foldl (fun value bit => 2 * value + bit.toNat) 0

/-- The bit string of a given length that spells a number. -/
def toBits (width value : Nat) : List Bool :=
  bitsOf (BitVec.ofNat width value)

@[simp] theorem length_bitsOf {width : Nat} (word : BitVec width) :
    (bitsOf word).length = width := by
  simp [bitsOf]

@[simp] theorem getElem_bitsOf
    {width : Nat}
    (word : BitVec width)
    (index : Nat)
    (inWord : index < (bitsOf word).length) :
    (bitsOf word)[index] = word.getMsbD index := by
  simp [bitsOf]

@[simp] theorem length_toBits (width value : Nat) :
    (toBits width value).length = width := by
  simp [toBits]

@[simp] theorem ofBits_nil : ofBits [] = 0 := rfl

/-- Appending one bit doubles the number and adds the bit. -/
theorem ofBits_concat (bits : List Bool) (bit : Bool) :
    ofBits (bits ++ [bit]) = 2 * ofBits bits + bit.toNat := by
  simp [ofBits, List.foldl_append]

/-- A bit string spells a number that fits its length. -/
theorem ofBits_lt (bits : List Bool) :
    ofBits bits < 2 ^ bits.length := by
  induction bits using List.reverseRecOn with
  | nil =>
      simp
  | append_singleton bits bit inductionHypothesis =>
      have bitSmall := Bool.toNat_lt bit
      rw [ofBits_concat, List.length_append, List.length_singleton, pow_succ]
      omega

/-- The first bits of a word spell the word shifted right. -/
theorem ofBits_take
    {width : Nat}
    (word : BitVec width)
    (count : Nat)
    (inWord : count ≤ width) :
    ofBits ((bitsOf word).take count) = word.toNat >>> (width - count) := by
  induction count with
  | zero =>
      simp [Nat.shiftRight_eq_div_pow, Nat.div_eq_of_lt word.isLt]
  | succ count inductionHypothesis =>
      have here : count < (bitsOf word).length := by
        rw [length_bitsOf]
        exact inWord
      have shorter : width - count = (width - (count + 1)) + 1 := by
        omega
      rw [List.take_succ_eq_append_getElem here, ofBits_concat,
        inductionHypothesis (by omega), getElem_bitsOf, shorter,
        Nat.shiftRight_succ]
      have bitAt :
          word.getMsbD count =
            (word.toNat >>> (width - (count + 1))).testBit 0 := by
        rw [Nat.testBit_shiftRight, Nat.add_zero, BitVec.testBit_toNat,
          BitVec.getMsbD_eq_getLsbD]
        have sameBit : width - 1 - count = width - (count + 1) := by
          omega
        simp [sameBit, show count < width by omega]
      rw [bitAt, Nat.testBit_zero]
      have parity :=
        Nat.mod_two_eq_zero_or_one (word.toNat >>> (width - (count + 1)))
      rcases parity with even | odd
      · simp only [even, zero_ne_one, decide_false, Bool.toNat_false]
        omega
      · simp only [odd, decide_true, Bool.toNat_true]
        omega

/-- All bits of a word spell the word. -/
@[simp] theorem ofBits_bitsOf {width : Nat} (word : BitVec width) :
    ofBits (bitsOf word) = word.toNat := by
  have whole := ofBits_take word width (Nat.le_refl width)
  rwa [List.take_of_length_le (by simp), Nat.sub_self,
    Nat.shiftRight_zero] at whole

/-- A number that fits is spelled by its bit string. -/
theorem ofBits_toBits
    {width value : Nat}
    (fits : value < 2 ^ width) :
    ofBits (toBits width value) = value := by
  rw [toBits, ofBits_bitsOf, BitVec.toNat_ofNat, Nat.mod_eq_of_lt fits]

/-- A field of a word, shifted down and cut out, has the bits of the field. -/
theorem bitsOf_field
    {width : Nat}
    (word : BitVec width)
    {lead count : Nat}
    (inWord : lead + count ≤ width) :
    bitsOf ((word >>> (width - lead - count)).setWidth count) =
      ((bitsOf word).drop lead).take count := by
  apply List.ext_getElem
  · simp
    omega
  · intro index left right
    rw [length_bitsOf] at left
    have position :
        width - lead - count + (count - 1 - index) =
          width - 1 - (lead + index) := by
      omega
    rw [List.getElem_take, List.getElem_drop, getElem_bitsOf,
      getElem_bitsOf, BitVec.getMsbD_eq_getLsbD, BitVec.getMsbD_eq_getLsbD,
      BitVec.getLsbD_setWidth, BitVec.getLsbD_ushiftRight, position]
    simp [left, show lead + index < width by omega,
      show count - 1 - index < count by omega]

/-- Setting all bits above a number that fits `size` bits adds them. -/
theorem toNat_or_high_ones
    {size : Nat}
    (sizeSmall : size ≤ 16)
    {raw : BitVec 16}
    (fits : raw.toNat < 2 ^ size) :
    (raw ||| (~~~(0 : BitVec 16) <<< size)).toNat =
      2 ^ 16 - 2 ^ size + raw.toNat := by
  have split : 2 ^ 16 = 2 ^ size * 2 ^ (16 - size) := by
    rw [← pow_add]
    congr 1
    omega
  have positive : 1 ≤ 2 ^ (16 - size) := Nat.one_le_two_pow
  have high :
      (~~~(0 : BitVec 16) <<< size).toNat =
        2 ^ size * (2 ^ (16 - size) - 1) := by
    have all : (~~~(0 : BitVec 16)).toNat = 2 ^ 16 - 1 := rfl
    rw [BitVec.toNat_shiftLeft, all, Nat.shiftLeft_eq, Nat.mul_comm]
    have more : 2 ^ size * (2 ^ 16 - 1) =
        2 ^ size * (2 ^ (16 - size) - 1) + 2 ^ 16 * (2 ^ size - 1) := by
      have one : 1 ≤ 2 ^ size := Nat.one_le_two_pow
      rw [Nat.mul_sub, Nat.mul_sub, Nat.mul_sub, ← split]
      have le : 2 ^ 16 ≤ 2 ^ 16 * 2 ^ size := Nat.le_mul_of_pos_right _ one
      have le' : 2 ^ size ≤ 2 ^ 16 := Nat.pow_le_pow_right (by decide) sizeSmall
      rw [Nat.mul_comm (2 ^ size) (2 ^ 16)]
      omega
    rw [more, Nat.add_mul_mod_self_left]
    apply Nat.mod_eq_of_lt
    rw [Nat.mul_sub, ← split]
    have one : 1 ≤ 2 ^ size := Nat.one_le_two_pow
    omega
  rw [BitVec.toNat_or, high, Nat.or_comm,
    ← Nat.two_pow_add_eq_or_of_lt fits, Nat.mul_sub, ← split, Nat.mul_one]

end BitString

end CoreJpeg
