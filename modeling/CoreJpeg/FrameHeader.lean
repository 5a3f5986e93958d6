import CoreJpeg.InputStructure

namespace CoreJpeg.JpegInput

open Clocked

/-!
# The frame header in the circuit

`jpeg_input` captures the fields of a frame header by an index of six bits that
counts the payload of the segment, clears them when it sees `FF C0`, and takes
the mode in the cycle of the last byte.  While no byte is shown, the register
of the next byte takes the zero lane.  This module says which bytes of a
payload are left in the registers behind its last byte.
-/

/-! ## The bytes that are left -/

/-- The last position of a payload at which the index has a value. -/
def lastAt (size index : Nat) : Nat :=
  index + 64 * ((size - 1 - index) / 64)

/-- The bytes `FF C0` end at a position of the payload. -/
def clearsAt (payload : List Byte) (position : Nat) : Prop :=
  position ≠ 0 ∧ payload[position - 1]? = some 0xFF ∧
    payload[position]? = some 0xC0

instance (payload : List Byte) (position : Nat) :
    Decidable (clearsAt payload position) := by
  unfold clearsAt
  infer_instance

/-- The byte at a position is not cleared until the end of the payload. -/
def Survives (payload : List Byte) (position : Nat) : Prop :=
  ∀ later < payload.length, position ≤ later → ¬clearsAt payload later

instance (payload : List Byte) (position : Nat) :
    Decidable (Survives payload position) := by
  unfold Survives
  infer_instance

/-- The byte that is left of those captured at an index. -/
def leftByte (payload : List Byte) (index : Nat) : Byte :=
  if index < payload.length ∧
      Survives payload (lastAt payload.length index) then
    payload.getD (lastAt payload.length index) 0
  else 0

/--
The word that is left of those captured at an index and the next one; its low
byte goes when the high byte is captured once more.
-/
def leftWord (payload : List Byte) (index : Nat) : BitVec 16 :=
  leftByte payload index ++
    if lastAt payload.length index < lastAt payload.length (index + 1) then
      leftByte payload (index + 1)
    else 0

/-- The mode of a component count and three pairs of sampling factors. -/
def layout (count y cb cr : Byte) : ImageMode :=
  if count = 1 then .monochrome
  else if count = 3 ∧ cb = 0x11 ∧ cr = 0x11 then
    if y = 0x11 then .ycbcr444
    else if y = 0x22 then .ycbcr420
    else .unsupported
  else .unsupported

/-- A byte that is left, or zero where a pause before the next byte shows it. -/
def heldByte (payload : List Byte) (stalls : Bool) (index : Nat) : Byte :=
  if stalls = true ∧ payload.length % 64 = index then 0
  else leftByte payload index

/-- The word that is left, or zero where a pause shows its high byte. -/
def heldWord (payload : List Byte) (stalls : Bool) (index : Nat) :
    BitVec 16 :=
  if stalls = true ∧ payload.length % 64 = index then 0
  else leftWord payload index

/-- The bytes of a payload end with the pair `FF C0`. -/
def endsCleared (payload : List Byte) : Prop :=
  clearsAt payload (payload.length - 1)

instance (payload : List Byte) : Decidable (endsCleared payload) := by
  unfold endsCleared
  infer_instance

/-- The mode that is taken with the last byte of a payload. -/
def leftMode (payload : List Byte) (ended hesitated : Bool) : ImageMode :=
  if ended = true ∨ endsCleared payload then .unsupported
  else
    layout (heldByte payload.dropLast hesitated 5)
      (heldByte payload.dropLast hesitated 7)
      (heldByte payload.dropLast hesitated 10)
      (heldByte payload.dropLast hesitated 13)

/-! ## One more byte -/

section Bytes

variable {payload : List Byte} {byte : Byte} {index : Nat}

theorem lastAt_of_mod
    (byte : Byte)
    (small : index < 64)
    (here : payload.length % 64 = index) :
    lastAt (payload ++ [byte]).length index = payload.length := by
  rw [lastAt, List.length_append, List.length_singleton]
  omega

theorem lastAt_of_ne
    (small : index < 64)
    (elsewhere : payload.length % 64 ≠ index) :
    lastAt (payload ++ [byte]).length index =
      lastAt payload.length index := by
  rw [lastAt, lastAt, List.length_append, List.length_singleton]
  omega

theorem lastAt_lt
    (inside : index < payload.length) :
    lastAt payload.length index < payload.length := by
  rw [lastAt]
  omega

theorem clearsAt_append
    {position : Nat}
    (inside : position < payload.length) :
    clearsAt (payload ++ [byte]) position ↔ clearsAt payload position := by
  unfold clearsAt
  rw [List.getElem?_append_left inside,
    List.getElem?_append_left (by omega)]

/-- One more byte keeps a byte unless it ends a pair. -/
theorem survives_append
    {position : Nat}
    (inside : position ≤ payload.length) :
    Survives (payload ++ [byte]) position ↔
      Survives payload position ∧
        ¬clearsAt (payload ++ [byte]) payload.length := by
  have length : (payload ++ [byte]).length = payload.length + 1 := by
    rw [List.length_append, List.length_singleton]
  constructor
  · intro survives
    refine ⟨fun later bound behind clears => ?_, ?_⟩
    · exact survives later (by omega) behind
        ((clearsAt_append bound).mpr clears)
    · exact survives payload.length (by omega) inside
  · rintro ⟨survives, last⟩ later bound behind clears
    rcases Nat.lt_or_ge later payload.length with earlier | here
    · exact survives later earlier behind ((clearsAt_append earlier).mp clears)
    · have isLast : later = payload.length := by omega
      exact last (isLast ▸ clears)

theorem leftByte_of_outside
    (outside : ¬index < payload.length) :
    leftByte payload index = 0 :=
  if_neg fun both => outside both.1

/-- The byte left at an index after one more byte. -/
theorem leftByte_append
    (small : index < 64) :
    leftByte (payload ++ [byte]) index =
      if clearsAt (payload ++ [byte]) payload.length then 0
      else if payload.length % 64 = index then byte
      else leftByte payload index := by
  have length : (payload ++ [byte]).length = payload.length + 1 := by
    rw [List.length_append, List.length_singleton]
  by_cases clears : clearsAt (payload ++ [byte]) payload.length
  · rw [if_pos clears, leftByte, if_neg]
    rintro ⟨inside, survives⟩
    have bound := lastAt_lt inside
    exact ((survives_append (by omega)).mp survives).2 clears
  · rw [if_neg clears]
    by_cases here : payload.length % 64 = index
    · have last := lastAt_of_mod byte small here
      have nothing : Survives payload payload.length := by
        intro later bound behind
        omega
      rw [if_pos here, leftByte, last,
        if_pos ⟨by omega, (survives_append (Nat.le_refl _)).mpr
          ⟨nothing, clears⟩⟩]
      simp
    · rw [if_neg here, leftByte, leftByte]
      by_cases inside : index < payload.length
      · have bound := lastAt_lt inside
        have same :
            (index < (payload ++ [byte]).length ∧
                Survives (payload ++ [byte])
                  (lastAt (payload ++ [byte]).length index)) ↔
              index < payload.length ∧
                Survives payload (lastAt payload.length index) := by
          rw [lastAt_of_ne small here, survives_append (by omega)]
          simp [clears, inside]
          omega
        simp only [same]
        rw [lastAt_of_ne small here, List.getD_eq_getElem?_getD,
          List.getD_eq_getElem?_getD, List.getElem?_append_left bound]
      · have outside : ¬index < (payload ++ [byte]).length := by
          intro short
          have isLast : index = payload.length := by omega
          exact here (by omega)
        rw [if_neg (fun both => outside both.1),
          if_neg (fun both => inside both.1)]

/-- The word left at an index after one more byte. -/
theorem leftWord_append
    (small : index + 1 < 64) :
    leftWord (payload ++ [byte]) index =
      if clearsAt (payload ++ [byte]) payload.length then 0
      else if payload.length % 64 = index then byte ++ (0 : Byte)
      else if payload.length % 64 = index + 1 then
        leftByte payload index ++ byte
      else leftWord payload index := by
  by_cases clears : clearsAt (payload ++ [byte]) payload.length
  · rw [leftWord, leftByte_append (by omega), leftByte_append small]
    simp [clears]
  · rw [if_neg clears, leftWord, leftByte_append (by omega),
      leftByte_append small, if_neg clears, if_neg clears]
    by_cases here : payload.length % 64 = index
    · have next : ¬payload.length % 64 = index + 1 := by omega
      have last := lastAt_of_mod byte (by omega) here
      rw [if_pos here, if_pos here, if_neg next]
      congr 1
      split
      · rename_i later
        rw [last, lastAt_of_ne small next] at later
        refine leftByte_of_outside ?_
        intro inside
        have bound := lastAt_lt inside
        omega
      · rfl
    · rw [if_neg here, if_neg here]
      by_cases next : payload.length % 64 = index + 1
      · have ordered :
            lastAt (payload ++ [byte]).length index <
              lastAt (payload ++ [byte]).length (index + 1) := by
          rw [lastAt_of_mod byte small next, lastAt_of_ne (by omega) here]
          exact lastAt_lt (by omega)
        rw [if_pos next, if_pos next, if_pos ordered]
      · rw [if_neg next, if_neg next, lastAt_of_ne (by omega) here,
          lastAt_of_ne small next]
        rfl

end Bytes

/-! ## One cycle of a capture register -/

section Registers

variable {payload : List Byte} {stalls : Bool} {index : Nat}
variable {s : State} {i : Input} {low : Byte}

/-- The payload state with the payload that has been taken. -/
structure InData (low : Byte) (payload : List Byte) (s : State) : Prop where
  state : s.stateQ = .sofData
  idx : s.idxQ = BitVec.ofNat 6 payload.length
  last : s.lastBQ = payload.getLast?.getD low

theorem InData.idx_beq
    (inData : InData low payload s)
    (small : index < 64) :
    (s.idxQ == BitVec.ofNat 6 index) =
      decide (payload.length % 64 = index) := by
  rw [inData.idx, Bool.eq_iff_iff, beq_iff_eq, decide_eq_true_eq,
    ← BitVec.toNat_inj, BitVec.toNat_ofNat, BitVec.toNat_ofNat]
  omega

/-- A pause shows no marker. -/
theorem tokenSof0W_of_pause
    (pauses : dataR s i = 0) :
    tokenSof0W s i = false := by
  simp [tokenSof0W, tokenW, pauses]

/-- Behind the first byte the token is seen with the pair `FF C0`. -/
theorem InData.token_iff
    (inData : InData low payload s) :
    clearsAt (payload ++ [dataR s i]) payload.length ↔
      tokenSof0W s i = true ∧ payload ≠ [] := by
  rw [tokenSof0W, tokenW, Bool.and_eq_true, beq_iff_eq, beq_iff_eq,
    inData.last, clearsAt]
  rcases List.eq_nil_or_concat payload with rfl | ⟨before, final, rfl⟩
  · simp
  · simp

/-- A register captured at one index, in a pause. -/
theorem InData.capture_pause
    {α : Type}
    {held : α}
    (inData : InData low payload s)
    (field : Byte → α)
    (small : index < 64)
    (pauses : dataR s i = 0)
    (holds : held = field (heldByte payload stalls index)) :
    captureNext (BitVec.ofNat 6 index) (field 0) (field (dataR s i)) held
        s i =
      field (heldByte payload true index) := by
  rw [captureNext, tokenSof0W_of_pause pauses, inData.idx_beq small,
    inData.state, pauses, holds, heldByte, heldByte]
  by_cases here : payload.length % 64 = index
  · simp [here]
  · simp [here]

/-- A register captured at one index, when a byte is taken. -/
theorem InData.capture_accept
    {α : Type}
    {held : α}
    (inData : InData low payload s)
    (field : Byte → α)
    (positive : 0 < index)
    (small : index < 64)
    (holds : held = field (heldByte payload stalls index)) :
    captureNext (BitVec.ofNat 6 index) (field 0) (field (dataR s i)) held
        s i =
      field (heldByte (payload ++ [dataR s i]) false index) := by
  have after :
      heldByte (payload ++ [dataR s i]) false index =
        leftByte (payload ++ [dataR s i]) index :=
    if_neg (by simp)
  rw [after, leftByte_append small, captureNext, inData.idx_beq small,
    inData.state, holds, heldByte]
  by_cases token : tokenSof0W s i = true
  · rw [if_pos token]
    by_cases first : payload = []
    · have nothing : leftByte ([] : List Byte) index = 0 :=
        leftByte_of_outside (by simp)
      have other : ¬([] : List Byte).length % 64 = index := by
        simp
        omega
      subst first
      rw [if_neg other, nothing]
      split <;> rfl
    · rw [if_pos (inData.token_iff.mpr ⟨token, first⟩)]
  · have stays : ¬clearsAt (payload ++ [dataR s i]) payload.length :=
      fun clears => token (inData.token_iff.mp clears).1
    rw [if_neg token, if_neg stays]
    by_cases here : payload.length % 64 = index
    · simp [here]
    · simp [here]

/-- Behind its high byte a word has no low byte yet. -/
theorem leftWord_of_high
    (behind : payload.length % 64 = index + 1) :
    leftWord payload index = leftByte payload index ++ (0 : Byte) := by
  rw [leftWord]
  split
  · rename_i ordered
    have outside : ¬index + 1 < payload.length := by
      intro inside
      rw [lastAt, lastAt] at ordered
      omega
    rw [leftByte_of_outside outside]
  · rfl

theorem highHalf_append
    {size : Nat}
    (high low : BitVec size) :
    (high ++ low).extractLsb' size size = high := by
  rw [BitVec.extractLsb'_append_eq_of_le (Nat.le_refl size), Nat.sub_self,
    BitVec.extractLsb'_eq_self]

theorem highByte_append
    (high low : Byte) :
    (high ++ low).extractLsb' 8 8 = high :=
  highHalf_append high low

theorem lowHalf_append
    {size : Nat}
    (high low : BitVec size) :
    (high ++ low).extractLsb' 0 size = low := by
  rw [BitVec.extractLsb'_append_eq_of_add_le (by omega),
    BitVec.extractLsb'_eq_self]

/-- A word captured at two indices, in a pause. -/
theorem InData.captureWord_pause
    {held : BitVec 16}
    (inData : InData low payload s)
    (small : index + 1 < 64)
    (pauses : dataR s i = 0)
    (holds : held = heldWord payload stalls index) :
    captureWordNext (BitVec.ofNat 6 index) held s i =
      heldWord payload true index := by
  have next :
      BitVec.ofNat 6 index + 1 = BitVec.ofNat 6 (index + 1) := by
    rw [BitVec.ofNat_add]
    rfl
  rw [captureWordNext, tokenSof0W_of_pause pauses, next,
    inData.idx_beq (by omega), inData.idx_beq small, inData.state, pauses,
    holds, heldWord, heldWord]
  by_cases here : payload.length % 64 = index
  · simp [here]
  · by_cases behind : payload.length % 64 = index + 1
    · simp [behind, leftWord_of_high behind, highByte_append]
    · simp [here, behind]

/-- A word captured at two indices, when a byte is taken. -/
theorem InData.captureWord_accept
    {held : BitVec 16}
    (inData : InData low payload s)
    (positive : 0 < index)
    (small : index + 1 < 64)
    (holds : held = heldWord payload stalls index) :
    captureWordNext (BitVec.ofNat 6 index) held s i =
      heldWord (payload ++ [dataR s i]) false index := by
  have next :
      BitVec.ofNat 6 index + 1 = BitVec.ofNat 6 (index + 1) := by
    rw [BitVec.ofNat_add]
    rfl
  have after :
      heldWord (payload ++ [dataR s i]) false index =
        leftWord (payload ++ [dataR s i]) index :=
    if_neg (by simp)
  rw [after, leftWord_append small, captureWordNext, next,
    inData.idx_beq (by omega), inData.idx_beq small, inData.state, holds,
    heldWord]
  by_cases token : tokenSof0W s i = true
  · rw [if_pos token]
    by_cases first : payload = []
    · subst first
      have high : leftByte ([] : List Byte) index = 0 :=
        leftByte_of_outside (by simp)
      have low : leftByte ([] : List Byte) (index + 1) = 0 :=
        leftByte_of_outside (by simp)
      have nothing : leftWord ([] : List Byte) index = 0 := by
        rw [leftWord, high, low]
        split <;> rfl
      have other : ¬([] : List Byte).length % 64 = index := by
        simp
        omega
      have later : ¬([] : List Byte).length % 64 = index + 1 := by
        simp
      rw [if_neg other, if_neg later, nothing]
      split <;> rfl
    · rw [if_pos (inData.token_iff.mpr ⟨token, first⟩)]
  · have stays : ¬clearsAt (payload ++ [dataR s i]) payload.length :=
      fun clears => token (inData.token_iff.mp clears).1
    rw [if_neg token, if_neg stays]
    by_cases here : payload.length % 64 = index
    · simp [here]
    · by_cases behind : payload.length % 64 = index + 1
      · simp [behind, leftWord_of_high behind, highByte_append]
      · simp [here, behind]

/-- The two bits of a table selector. -/
def selector (byte : Byte) : BitVec 2 := byte.extractLsb' 0 2

/-- The frame-header registers hold what is left of a payload. -/
structure Holds (payload : List Byte) (stalls : Bool) (s : State) :
    Prop where
  height : s.imgHeightQ = heldWord payload stalls 1
  width : s.imgWidthQ = heldWord payload stalls 3
  count : s.imgNumCompQ = heldByte payload stalls 5
  yFactor : s.imgYFactorQ = heldByte payload stalls 7
  yTable : s.imgYDqtTableQ = selector (heldByte payload stalls 8)
  cbFactor : s.imgCbFactorQ = heldByte payload stalls 10
  cbTable : s.imgCbDqtTableQ = selector (heldByte payload stalls 11)
  crFactor : s.imgCrFactorQ = heldByte payload stalls 13
  crTable : s.imgCrDqtTableQ = selector (heldByte payload stalls 14)

/-- A pause shows a zero to the register of the next byte. -/
theorem Holds.pause
    (holds : Holds payload stalls s)
    (inData : InData low payload s)
    (running : i.rst = false)
    (pauses : dataR s i = 0) :
    Holds payload true (step s i) := by
  rw [step, if_neg (by simp [running])]
  exact {
    height := inData.captureWord_pause (by decide) pauses holds.height
    width := inData.captureWord_pause (by decide) pauses holds.width
    count := inData.capture_pause id (by decide) pauses holds.count
    yFactor := inData.capture_pause id (by decide) pauses holds.yFactor
    yTable := inData.capture_pause selector (by decide) pauses holds.yTable
    cbFactor := inData.capture_pause id (by decide) pauses holds.cbFactor
    cbTable := inData.capture_pause selector (by decide) pauses holds.cbTable
    crFactor := inData.capture_pause id (by decide) pauses holds.crFactor
    crTable := inData.capture_pause selector (by decide) pauses holds.crTable }

/-- A byte that is taken goes to the register of its index. -/
theorem Holds.accept
    (holds : Holds payload stalls s)
    (inData : InData low payload s)
    (running : i.rst = false) :
    Holds (payload ++ [dataR s i]) false (step s i) := by
  rw [step, if_neg (by simp [running])]
  exact {
    height := inData.captureWord_accept (by decide) (by decide) holds.height
    width := inData.captureWord_accept (by decide) (by decide) holds.width
    count := inData.capture_accept id (by decide) (by decide) holds.count
    yFactor := inData.capture_accept id (by decide) (by decide) holds.yFactor
    yTable :=
      inData.capture_accept selector (by decide) (by decide) holds.yTable
    cbFactor := inData.capture_accept id (by decide) (by decide) holds.cbFactor
    cbTable :=
      inData.capture_accept selector (by decide) (by decide) holds.cbTable
    crFactor := inData.capture_accept id (by decide) (by decide) holds.crFactor
    crTable :=
      inData.capture_accept selector (by decide) (by decide) holds.crTable }

/-- Outside the payload the registers stay, unless the token is seen. -/
theorem Holds.stay
    (holds : Holds payload stalls s)
    (outside : s.stateQ ≠ .sofData)
    (running : i.rst = false)
    (noToken : tokenSof0W s i = false) :
    Holds payload stalls (step s i) ∧
      (step s i).imgModeQ = s.imgModeQ := by
  have notData : (s.stateQ == FsmState.sofData) = false := by
    simpa using outside
  rw [step, if_neg (by simp [running])]
  constructor
  · constructor <;>
      simp [imgHeightNext, imgWidthNext, imgNumCompNext, imgYFactorNext,
        imgYDqtTableNext, imgCbFactorNext, imgCbDqtTableNext,
        imgCrFactorNext, imgCrDqtTableNext, captureNext, captureWordNext,
        noToken, notData, holds.height, holds.width, holds.count,
        holds.yFactor, holds.yTable, holds.cbFactor, holds.cbTable,
        holds.crFactor, holds.crTable]
  · simp [imgModeNext, noToken, notData]

/-- The token clears the registers. -/
theorem holds_of_token
    (running : i.rst = false)
    (token : tokenSof0W s i = true) :
    Holds [] false (step s i) ∧ (step s i).imgModeQ = .unsupported := by
  rw [step, if_neg (by simp [running])]
  constructor
  · constructor <;>
      simp only [imgHeightNext, imgWidthNext, imgNumCompNext, imgYFactorNext,
        imgYDqtTableNext, imgCbFactorNext, imgCbDqtTableNext,
        imgCrFactorNext, imgCrDqtTableNext, captureNext, captureWordNext,
        token, if_true] <;>
      decide
  · simp [imgModeNext, token]

end Registers

/-! ## A segment that is shown -/

/-- The front end with the bytes that are still to be shown. -/
structure Feed where
  front : State
  rest : List Byte
  /-- No byte was taken in the last cycle. -/
  stalls : Bool
  /-- There was a pause right before the byte that was taken last. -/
  hesitated : Bool

namespace Feed

/-- One clock edge. -/
def step (feed : Feed) (i : Input) : Feed where
  front := JpegInput.step feed.front i
  rest := restAfter feed.rest feed.front i
  stalls := !accepts feed.front i
  hesitated :=
    if accepts feed.front i then feed.stalls else feed.hesitated

/--
A cycle shows the next byte or a zero lane.  The end of the stream is shown
with the last byte, if at all.
-/
def Shows (ended : Bool) (feed : Feed) (i : Input) : Prop :=
  i.rst = false ∧
    if i.inportValid then
      feed.rest.head? = some (dataR feed.front i) ∧
        i.inportLast = (ended && feed.rest.length == 1)
    else dataR feed.front i = 0

instance (ended : Bool) (feed : Feed) (i : Input) :
    Decidable (feed.Shows ended i) := by
  unfold Shows
  infer_instance

end Feed

/-- Where the front end is in a frame header. -/
inductive InHeader (low : Byte) (payload : List Byte) (ended : Bool)
    (feed : Feed) : Prop where
  | marker
      (rest : feed.rest = 0xC0 :: 0 :: low :: payload)
      (state : feed.front.stateQ = .active)
      (last : feed.front.lastBQ = 0xFF)
  | lengthHigh
      (rest : feed.rest = 0 :: low :: payload)
      (state : feed.front.stateQ = .sofLenh)
      (last : feed.front.lastBQ = 0xC0)
      (holds : Holds [] false feed.front)
      (mode : feed.front.imgModeQ = .unsupported)
  | lengthLow
      (rest : feed.rest = low :: payload)
      (state : feed.front.stateQ = .sofLenl)
      (last : feed.front.lastBQ = 0)
      (idx : feed.front.idxQ = 0)
      (holds : Holds [] false feed.front)
      (mode : feed.front.imgModeQ = .unsupported)
  | data
      (taken : List Byte)
      (whole : payload = taken ++ feed.rest)
      (more : feed.rest ≠ [])
      (inData : InData low taken feed.front)
      (length : feed.front.lengthQ = BitVec.ofNat 16 feed.rest.length)
      (holds : Holds taken feed.stalls feed.front)
      (mode : feed.front.imgModeQ = .unsupported)
  | behind
      (rest : feed.rest = [])
      (state :
        feed.front.stateQ = .active ∨ feed.front.stateQ = .idle)
      (holds : Holds payload false feed.front)
      (mode : feed.front.imgModeQ = leftMode payload ended feed.hesitated)

/-! ## One cycle of a frame header -/

section Cycle

variable {low : Byte} {payload : List Byte} {ended : Bool} {feed : Feed}
variable {i : Input}

/-- A pause keeps the rest of the segment. -/
theorem Feed.step_pause
    (pauses : accepts feed.front i = false) :
    feed.step i = {
      front := JpegInput.step feed.front i
      rest := feed.rest
      stalls := true
      hesitated := feed.hesitated } := by
  simp [Feed.step, restAfter, pauses]

/-- A byte that is taken is the next one. -/
theorem Feed.step_accept
    (takes : accepts feed.front i = true) :
    feed.step i = {
      front := JpegInput.step feed.front i
      rest := feed.rest.tail
      stalls := false
      hesitated := feed.stalls } := by
  simp [Feed.step, restAfter, takes]

/-- A byte that is shown is the next one. -/
theorem Feed.Shows.byte
    {next : Byte}
    {later : List Byte}
    (shown : feed.Shows ended i)
    (valid : i.inportValid = true)
    (rest : feed.rest = next :: later) :
    dataR feed.front i = next ∧
      i.inportLast = (ended && later.isEmpty) := by
  obtain ⟨-, lane⟩ := shown
  rw [if_pos valid, rest] at lane
  refine ⟨(Option.some.inj lane.1).symm, lane.2.trans ?_⟩
  cases later <;> simp

/-- A pause shows zero. -/
theorem Feed.Shows.zero
    (shown : feed.Shows ended i)
    (pauses : i.inportValid = false) :
    dataR feed.front i = 0 := by
  obtain ⟨-, lane⟩ := shown
  rwa [if_neg (by simp [pauses])] at lane

/-- The registers that steer the front end, in a pause. -/
theorem control_pause
    {s : State}
    (pauses : accepts s i = false)
    (running : i.rst = false) :
    (step s i).stateQ = caseNextR s i ∧ (step s i).lastBQ = s.lastBQ := by
  simp [step, running, nextStateR, lastBNext, pauses]

/-- The registers that steer the front end, when a byte is taken. -/
theorem control_accept
    {s : State}
    (takes : accepts s i = true)
    (running : i.rst = false)
    (notLast : i.inportLast = false) :
    (step s i).stateQ = caseNextR s i ∧ (step s i).lastBQ = dataR s i := by
  simp [step, running, nextStateR, lastBNext, takes, notLast]

/-- The token leads from the markers to the length field. -/
theorem inHeader_marker
    (shown : feed.Shows ended i)
    (rest : feed.rest = 0xC0 :: 0 :: low :: payload)
    (state : feed.front.stateQ = .active)
    (last : feed.front.lastBQ = 0xFF) :
    InHeader low payload ended (feed.step i) := by
  have running := shown.1
  have free : accepts feed.front i = i.inportValid :=
    accepts_of_state (by simp [state])
  cases valid : i.inportValid with
  | false =>
      have zero := shown.zero valid
      rw [valid] at free
      obtain ⟨next, kept⟩ := control_pause free running
      rw [Feed.step_pause free]
      refine .marker rest (next.trans ?_) (kept.trans last)
      simp [caseNextR, activeNextR, state, tokenEoiW, tokenDqtW, tokenDhtW,
        tokenSosW, tokenSof0W, tokenSof2W, tokenDriW, tokenRstW, tokenAppW,
        tokenComW, tokenW, tokenRangeW, zero]
  | true =>
      obtain ⟨byte, flag⟩ := shown.byte valid rest
      have notLast : i.inportLast = false := by simpa using flag
      rw [valid] at free
      obtain ⟨next, kept⟩ := control_accept free running notLast
      have token : tokenSof0W feed.front i = true := by
        simp [tokenSof0W, tokenW, last, byte]
      obtain ⟨holds, mode⟩ := holds_of_token running token
      rw [Feed.step_accept free, rest]
      refine .lengthHigh rfl (next.trans ?_) (kept.trans byte) holds mode
      simp [caseNextR, activeNextR, state, tokenEoiW, tokenDqtW, tokenDhtW,
        tokenSosW, tokenSof0W, tokenW, last, byte]

/-- The first length byte is zero. -/
theorem inHeader_lengthHigh
    (shown : feed.Shows ended i)
    (rest : feed.rest = 0 :: low :: payload)
    (state : feed.front.stateQ = .sofLenh)
    (last : feed.front.lastBQ = 0xC0)
    (holds : Holds [] false feed.front)
    (mode : feed.front.imgModeQ = .unsupported) :
    InHeader low payload ended (feed.step i) := by
  have running := shown.1
  have free : accepts feed.front i = i.inportValid :=
    accepts_of_state (by simp [state])
  have noToken : tokenSof0W feed.front i = false := by
    simp [tokenSof0W, tokenW, last]
  obtain ⟨held, sameMode⟩ := holds.stay (by simp [state]) running noToken
  cases valid : i.inportValid with
  | false =>
      rw [valid] at free
      obtain ⟨next, kept⟩ := control_pause free running
      rw [Feed.step_pause free]
      refine .lengthHigh rest (next.trans ?_) (kept.trans last) held
        (sameMode.trans mode)
      simp [caseNextR, state, valid]
  | true =>
      obtain ⟨byte, flag⟩ := shown.byte valid rest
      have notLast : i.inportLast = false := by simpa using flag
      rw [valid] at free
      obtain ⟨next, kept⟩ := control_accept free running notLast
      rw [Feed.step_accept free, rest]
      refine .lengthLow rfl (next.trans ?_) (kept.trans byte) ?_ held
        (sameMode.trans mode)
      · simp [caseNextR, state, valid]
      · simp [JpegInput.step, running, idxNext, state]

/-- The second length byte sets the counter. -/
theorem inHeader_lengthLow
    (shown : feed.Shows ended i)
    (lowSize : low.toNat = payload.length + 2)
    (long : 2 ≤ payload.length)
    (rest : feed.rest = low :: payload)
    (state : feed.front.stateQ = .sofLenl)
    (last : feed.front.lastBQ = 0)
    (idx : feed.front.idxQ = 0)
    (holds : Holds [] false feed.front)
    (mode : feed.front.imgModeQ = .unsupported) :
    InHeader low payload ended (feed.step i) := by
  have running := shown.1
  have free : accepts feed.front i = i.inportValid :=
    accepts_of_state (by simp [state])
  have noToken : tokenSof0W feed.front i = false := by
    simp [tokenSof0W, tokenW, last]
  obtain ⟨held, sameMode⟩ := holds.stay (by simp [state]) running noToken
  have sameIdx : (JpegInput.step feed.front i).idxQ = 0 := by
    simp [JpegInput.step, running, idxNext, state, idx]
  cases valid : i.inportValid with
  | false =>
      rw [valid] at free
      obtain ⟨next, kept⟩ := control_pause free running
      rw [Feed.step_pause free]
      refine .lengthLow rest (next.trans ?_) (kept.trans last) sameIdx held
        (sameMode.trans mode)
      simp [caseNextR, state, valid]
  | true =>
      have notNil : payload ≠ [] := by
        rintro rfl
        simp at long
      obtain ⟨byte, flag⟩ := shown.byte valid rest
      have notEmpty : payload.isEmpty = false := by simpa using notNil
      have notLast : i.inportLast = false := by simpa [notEmpty] using flag
      rw [valid] at free
      obtain ⟨next, kept⟩ := control_accept free running notLast
      rw [Feed.step_accept free, rest]
      refine .data [] rfl notNil
        ⟨next.trans ?_, sameIdx, kept.trans byte⟩ ?_ held
        (sameMode.trans mode)
      · simp [caseNextR, state, valid]
      · have counter :
            (JpegInput.step feed.front i).lengthQ = low.setWidth 16 - 2 := by
          simp [JpegInput.step, running, lengthNext, state, byte]
        rw [counter]
        show low.setWidth 16 - 2 = BitVec.ofNat 16 payload.length
        bv_omega

/-- Two sampling factors in a byte. -/
theorem factors_iff
    (factor : Byte)
    (horiz vert : BitVec 4) :
    horizFactor factor = horiz ∧ vertFactor factor = vert ↔
      factor = horiz ++ vert := by
  constructor
  · rintro ⟨rfl, rfl⟩
    exact (@BitVec.extractLsb'_append_extractLsb' 4 4 factor).symm
  · rintro rfl
    constructor
    · exact highHalf_append horiz vert
    · exact lowHalf_append horiz vert

/-- The mode that the circuit takes from its registers. -/
theorem imgModeNext_of_completes
    {s : State}
    (noToken : tokenSof0W s i = false)
    (state : s.stateQ = .sofData)
    (completes : nextStateR s i = .active)
    (mode : s.imgModeQ = .unsupported) :
    imgModeNext s i =
      layout s.imgNumCompQ s.imgYFactorQ s.imgCbFactorQ s.imgCrFactorQ := by
  have ones (factor : Byte) :
      horizFactor factor = 1 ∧ vertFactor factor = 1 ↔ factor = 0x11 :=
    factors_iff factor 1 1
  have twos (factor : Byte) :
      horizFactor factor = 2 ∧ vertFactor factor = 2 ↔ factor = 0x22 :=
    factors_iff factor 2 2
  have simple :
      (horizFactor s.imgYFactorQ == 1 && vertFactor s.imgYFactorQ == 1 &&
          horizFactor s.imgCbFactorQ == 1 && vertFactor s.imgCbFactorQ == 1 &&
          horizFactor s.imgCrFactorQ == 1 &&
          vertFactor s.imgCrFactorQ == 1) =
        decide (s.imgYFactorQ = 0x11 ∧ s.imgCbFactorQ = 0x11 ∧
          s.imgCrFactorQ = 0x11) := by
    rw [Bool.eq_iff_iff, decide_eq_true_eq, ← ones, ← ones, ← ones]
    simp [and_assoc]
  have double :
      (horizFactor s.imgYFactorQ == 2 && vertFactor s.imgYFactorQ == 2 &&
          horizFactor s.imgCbFactorQ == 1 && vertFactor s.imgCbFactorQ == 1 &&
          horizFactor s.imgCrFactorQ == 1 &&
          vertFactor s.imgCrFactorQ == 1) =
        decide (s.imgYFactorQ = 0x22 ∧ s.imgCbFactorQ = 0x11 ∧
          s.imgCrFactorQ = 0x11) := by
    rw [Bool.eq_iff_iff, decide_eq_true_eq, ← twos, ← ones, ← ones]
    simp [and_assoc]
  unfold imgModeNext layout
  simp only [noToken, state, completes, mode, simple, double, beq_self_eq_true,
    Bool.and_self, Bool.false_eq_true, if_false, if_true, beq_iff_eq,
    decide_eq_true_eq]
  by_cases one : s.imgNumCompQ = 1
  · rw [if_pos one, if_pos one]
  · by_cases chroma : s.imgCbFactorQ = 0x11 ∧ s.imgCrFactorQ = 0x11
    · simp only [one, chroma, and_self, and_true, if_false]
    · have first : ¬(s.imgYFactorQ = 0x11 ∧ s.imgCbFactorQ = 0x11 ∧
          s.imgCrFactorQ = 0x11) := fun all => chroma all.2
      have second : ¬(s.imgYFactorQ = 0x22 ∧ s.imgCbFactorQ = 0x11 ∧
          s.imgCrFactorQ = 0x11) := fun all => chroma all.2
      rw [if_neg one, if_neg one, if_neg first, if_neg second, ite_self,
        if_neg (fun all => chroma all.2)]

/-- The index and the counter in the payload. -/
theorem dataControl_pause
    {s : State}
    (state : s.stateQ = .sofData)
    (pauses : accepts s i = false)
    (running : i.rst = false) :
    (step s i).stateQ = .sofData ∧ (step s i).lastBQ = s.lastBQ ∧
      (step s i).idxQ = s.idxQ ∧ (step s i).lengthQ = s.lengthQ := by
  obtain ⟨next, kept⟩ := control_pause pauses running
  refine ⟨next.trans ?_, kept, ?_, ?_⟩
  · simp [caseNextR, state, pauses]
  · simp [step, running, idxNext, state, pauses]
  · simp [step, running, lengthNext, state, pauses]

theorem dataControl_accept
    {s : State}
    (state : s.stateQ = .sofData)
    (takes : accepts s i = true)
    (running : i.rst = false) :
    (step s i).idxQ = s.idxQ + 1 ∧
      (step s i).lengthQ = s.lengthQ - 1 := by
  constructor
  · simp [step, running, idxNext, state, takes]
  · simp [step, running, lengthNext, state, takes]

/-- Before the last byte the mode is the one of a token. -/
theorem imgModeNext_of_stays
    {s : State}
    (stays : nextStateR s i ≠ .active)
    (mode : s.imgModeQ = .unsupported) :
    imgModeNext s i = .unsupported := by
  unfold imgModeNext
  have other : (nextStateR s i == FsmState.active) = false := by
    simpa using stays
  rw [other, Bool.and_false]
  simp [mode]

/-- The mode after the last byte. -/
theorem imgMode_accept_last
    {taken : List Byte}
    {final : Byte}
    {s : State}
    {stalls : Bool}
    (inData : InData low taken s)
    (holds : Holds taken stalls s)
    (mode : s.imgModeQ = .unsupported)
    (running : i.rst = false)
    (takes : accepts s i = true)
    (byte : dataR s i = final)
    (notFirst : taken ≠ [])
    (counter : s.lengthQ = 1)
    (flag : i.inportLast = ended) :
    (step s i).imgModeQ = leftMode (taken ++ [final]) ended stalls := by
  have next : nextStateR s i = if ended then .idle else .active := by
    simp [nextStateR, takes, flag, caseNextR, inData.state, counter]
  have cleared :
      endsCleared (taken ++ [final]) ↔ tokenSof0W s i = true := by
    have token := inData.token_iff (i := i)
    rw [byte] at token
    rw [endsCleared, List.length_append, List.length_singleton,
      Nat.add_sub_cancel, token, and_iff_left notFirst]
  rw [step, if_neg (by simp [running])]
  show imgModeNext s i = _
  rw [leftMode, List.dropLast_concat]
  by_cases token : tokenSof0W s i = true
  · rw [if_pos (.inr (cleared.mpr token)), imgModeNext, if_pos token]
  · cases ended with
    | true =>
        rw [if_pos (.inl rfl)]
        exact imgModeNext_of_stays (by simp [next]) mode
    | false =>
        rw [if_neg (by simp [cleared, token]),
          imgModeNext_of_completes (by simpa using token) inData.state
            next mode, holds.count, holds.yFactor, holds.cbFactor,
          holds.crFactor]

/-- The payload is counted and captured. -/
theorem inHeader_data
    {taken : List Byte}
    (shown : feed.Shows ended i)
    (bounded : payload.length < 2 ^ 16)
    (long : 2 ≤ payload.length)
    (whole : payload = taken ++ feed.rest)
    (more : feed.rest ≠ [])
    (inData : InData low taken feed.front)
    (length : feed.front.lengthQ = BitVec.ofNat 16 feed.rest.length)
    (holds : Holds taken feed.stalls feed.front)
    (mode : feed.front.imgModeQ = .unsupported) :
    InHeader low payload ended (feed.step i) := by
  have running := shown.1
  have free : accepts feed.front i = i.inportValid :=
    accepts_of_state (by simp [inData.state])
  cases valid : i.inportValid with
  | false =>
      have zero := shown.zero valid
      rw [valid] at free
      obtain ⟨next, kept, sameIdx, sameLength⟩ :=
        dataControl_pause inData.state free running
      have pausedMode :
          (JpegInput.step feed.front i).imgModeQ = .unsupported := by
        rw [JpegInput.step, if_neg (by simp [running])]
        refine imgModeNext_of_stays ?_ mode
        simp [nextStateR, free, caseNextR, inData.state]
      rw [Feed.step_pause free]
      exact .data taken whole more
        ⟨next, sameIdx.trans inData.idx, kept.trans inData.last⟩
        (sameLength.trans length) (holds.pause inData running zero)
        pausedMode
  | true =>
      obtain ⟨byte, later, rest⟩ := List.exists_cons_of_ne_nil more
      obtain ⟨shows, flag⟩ := shown.byte valid rest
      rw [valid] at free
      obtain ⟨nextIdx, nextLength⟩ :=
        dataControl_accept inData.state free running
      have captured := holds.accept inData running
      rw [shows] at captured
      have total : payload = (taken ++ [byte]) ++ later := by
        rw [whole, rest, List.append_assoc, List.singleton_append]
      have size : payload.length = taken.length + 1 + later.length := by
        rw [total, List.length_append, List.length_append,
          List.length_singleton]
      rw [rest, List.length_cons] at length
      rw [Feed.step_accept free, rest]
      cases later with
      | nil =>
          rw [List.append_nil] at total
          have notFirst : taken ≠ [] := by
            rintro rfl
            simp at size
            omega
          have last : i.inportLast = ended := by simpa using flag
          have final := imgMode_accept_last inData holds mode running free
            shows notFirst length last
          rw [← total] at captured final
          refine .behind rfl ?_ captured final
          have next : nextStateR feed.front i =
              if ended then .idle else .active := by
            have one : feed.front.lengthQ = 1 := length
            simp [nextStateR, free, last, caseNextR, inData.state, one]
          show (JpegInput.step feed.front i).stateQ = .active ∨ _ = _
          rw [JpegInput.step, if_neg (by simp [running])]
          show nextStateR feed.front i = .active ∨ _ = _
          rw [next]
          cases ended with
          | true => exact .inr rfl
          | false => exact .inl rfl
      | cons second others =>
          have notLast : i.inportLast = false := by simpa using flag
          rw [List.length_cons] at length size
          have counts : (1 : BitVec 16) < feed.front.lengthQ := by
            rw [length, BitVec.lt_def, BitVec.toNat_ofNat]
            simp
            omega
          have next : caseNextR feed.front i = .sofData := by
            simpa [caseNextR, free, inData.state] using counts
          have stays : nextStateR feed.front i ≠ .active := by
            simp [nextStateR, notLast, next]
          obtain ⟨state, kept⟩ := control_accept free running notLast
          have sameMode :
              (JpegInput.step feed.front i).imgModeQ = .unsupported := by
            rw [JpegInput.step, if_neg (by simp [running])]
            exact imgModeNext_of_stays stays mode
          refine .data (taken ++ [byte]) total (by simp)
            ⟨state.trans next, ?_, ?_⟩ ?_ captured sameMode
          · rw [nextIdx, inData.idx, List.length_append,
              List.length_singleton, BitVec.ofNat_add]
            rfl
          · rw [kept, shows, List.getLast?_concat]
            rfl
          · rw [nextLength, length, BitVec.ofNat_add]
            exact BitVec.add_sub_cancel _ _

/-- Behind the segment the registers stay. -/
theorem inHeader_behind
    (shown : feed.Shows ended i)
    (rest : feed.rest = [])
    (state : feed.front.stateQ = .active ∨ feed.front.stateQ = .idle)
    (holds : Holds payload false feed.front)
    (mode : feed.front.imgModeQ = leftMode payload ended feed.hesitated) :
    InHeader low payload ended (feed.step i) := by
  have running := shown.1
  have pauses : i.inportValid = false := by
    cases valid : i.inportValid with
    | false => rfl
    | true =>
        obtain ⟨-, lane⟩ := shown
        rw [if_pos valid, rest] at lane
        cases lane.1
  have zero := shown.zero pauses
  have free : accepts feed.front i = false := by simp [accepts, pauses]
  have outside : feed.front.stateQ ≠ .sofData := by
    rcases state with state | state <;> simp [state]
  obtain ⟨held, sameMode⟩ :=
    holds.stay outside running (tokenSof0W_of_pause zero)
  obtain ⟨next, -⟩ := control_pause free running
  rw [Feed.step_pause free]
  refine .behind rest ?_ held (sameMode.trans mode)
  rcases state with state | state
  · refine .inl (next.trans ?_)
    simp [caseNextR, activeNextR, state, tokenEoiW, tokenDqtW, tokenDhtW,
      tokenSosW, tokenSof0W, tokenSof2W, tokenDriW, tokenRstW, tokenAppW,
      tokenComW, tokenW, tokenRangeW, zero]
  · refine .inr (next.trans ?_)
    simp [caseNextR, state, tokenSoiW, tokenW, zero]

/-- In a frame header every byte that is shown is taken. -/
theorem InHeader.accepts_eq
    (inside : InHeader low payload ended feed) :
    accepts feed.front i = i.inportValid := by
  refine accepts_of_state ?_
  cases inside with
  | marker _ state _ => simp [state]
  | lengthHigh _ state _ _ _ => simp [state]
  | lengthLow _ state _ _ _ _ => simp [state]
  | data _ _ _ inData _ _ _ => simp [inData.state]
  | behind _ state _ _ => rcases state with state | state <;> simp [state]

/-- One cycle keeps the position in the frame header. -/
theorem InHeader.step
    (lowSize : low.toNat = payload.length + 2)
    (long : 2 ≤ payload.length)
    (inside : InHeader low payload ended feed)
    (shown : feed.Shows ended i) :
    InHeader low payload ended (feed.step i) := by
  have bounded : payload.length < 2 ^ 16 := by
    have := low.isLt
    omega
  cases inside with
  | marker rest state last =>
      exact inHeader_marker shown rest state last
  | lengthHigh rest state last holds mode =>
      exact inHeader_lengthHigh shown rest state last holds mode
  | lengthLow rest state last idx holds mode =>
      exact inHeader_lengthLow shown lowSize long rest state last idx holds
        mode
  | data taken whole more inData length holds mode =>
      exact inHeader_data shown bounded long whole more inData length holds
        mode
  | behind rest state holds mode =>
      exact inHeader_behind shown rest state holds mode

end Cycle

/-! ## The whole segment -/

/-- What the pauses so far leave: one in the last cycle, one before a byte. -/
def pausesAfter (pauses : Bool × Bool) (i : Input) : Bool × Bool :=
  if i.inportValid then (false, pauses.1) else (true, pauses.2)

/-- A pause comes right before the last byte that is shown. -/
def hesitates (cycles : List Input) : Bool :=
  (cycles.foldl pausesAfter (false, false)).2

/-- The front end before the second byte of a frame header's marker. -/
def Feed.start (front : State) (segment : List Byte) : Feed where
  front := front
  rest := 0xC0 :: segment
  stalls := false
  hesitated := false

theorem Feed.run_front
    (feed : Feed)
    (cycles : List Input) :
    (run Feed.step feed cycles).front =
      run JpegInput.step feed.front cycles :=
  run_projected Feed.front (fun _ _ => rfl) feed cycles

section Segment

variable {low : Byte} {payload : List Byte} {ended : Bool}

/-- Every run keeps the position, and the pauses are those of its inputs. -/
theorem InHeader.run
    (lowSize : low.toNat = payload.length + 2)
    (long : 2 ≤ payload.length)
    {feed : Feed}
    {cycles : List Input}
    (inside : InHeader low payload ended feed)
    (shown : Along Feed.step (Feed.Shows ended) feed cycles) :
    InHeader low payload ended (Clocked.run Feed.step feed cycles) ∧
      (Clocked.run Feed.step feed cycles).hesitated =
        (cycles.foldl pausesAfter (feed.stalls, feed.hesitated)).2 := by
  induction cycles generalizing feed with
  | nil =>
      exact ⟨inside, rfl⟩
  | cons cycle rest inductionHypothesis =>
      obtain ⟨final, pauses⟩ :=
        inductionHypothesis (inside.step lowSize long shown.1) shown.2
      have once :
          ((feed.step cycle).stalls, (feed.step cycle).hesitated) =
            pausesAfter (feed.stalls, feed.hesitated) cycle := by
        rw [Feed.step, inside.accepts_eq, pausesAfter]
        cases cycle.inportValid <;> rfl
      rw [once] at pauses
      exact ⟨final, pauses⟩

/-- Behind the segment the registers hold what is left of its payload. -/
theorem holds_behind
    (front : State)
    (cycles : List Input)
    (lowSize : low.toNat = payload.length + 2)
    (long : 2 ≤ payload.length)
    (state : front.stateQ = .active)
    (last : front.lastBQ = 0xFF)
    (shown :
      Along Feed.step (Feed.Shows ended)
        (Feed.start front (0 :: low :: payload)) cycles)
    (whole :
      (run Feed.step (Feed.start front (0 :: low :: payload)) cycles).rest =
        []) :
    Holds payload false (run step front cycles) ∧
      (run step front cycles).imgModeQ =
        leftMode payload ended (hesitates cycles) := by
  have inside :
      InHeader low payload ended
        (Feed.start front (0 :: low :: payload)) :=
    .marker rfl state last
  obtain ⟨final, pauses⟩ := inside.run lowSize long shown
  have same := Feed.run_front (Feed.start front (0 :: low :: payload)) cycles
  cases final with
  | marker rest => cases whole.symm.trans rest
  | lengthHigh rest => cases whole.symm.trans rest
  | lengthLow rest => cases whole.symm.trans rest
  | data _ _ more => exact absurd whole more
  | behind _ _ holds mode =>
      rw [pauses] at mode
      rw [same] at holds mode
      exact ⟨holds, mode⟩

end Segment

end CoreJpeg.JpegInput
