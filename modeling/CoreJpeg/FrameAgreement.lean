import CoreJpeg.FrameHeader
import CoreJpeg.InputOpacity
import CoreJpeg.SoftwareReads

namespace CoreJpeg.JpegInput

open Clocked EntropyCode Software SoftwareJpegDecoder

/-!
# The frame header in the circuit and in the software

`ParseSof0` reads the fields of a frame header in order, looks at the
identifiers of three components and skips the rest of the segment.  The circuit
ignores the identifiers and keeps what its index has left.  This module reads
the software's fields off the payload and says when the circuit holds the same
ones behind the segment, whatever the pauses.
-/

/-! ## The fields of a payload -/

/-- The segment behind a marker, with its length field. -/
def segmentAt (src : List Byte) (idx next : Nat) : List Byte :=
  (src.drop idx).take (next - idx)

/-- The payload of a segment. -/
def payloadAt (src : List Byte) (idx next : Nat) : List Byte :=
  (src.drop (idx + 2)).take (next - (idx + 2))

/-- A word of a payload. -/
def headerWord (payload : List Byte) (position : Nat) : BitVec 16 :=
  payload.getD position 0 ++ payload.getD (position + 1) 0

/-- Three components have the identifiers 1, 2 and 3. -/
def KnownIds (payload : List Byte) : Prop :=
  payload.getD 5 0 = 3 →
    payload.getD 6 0 = 1 ∧ payload.getD 9 0 = 2 ∧ payload.getD 12 0 = 3

instance (payload : List Byte) : Decidable (KnownIds payload) := by
  unfold KnownIds
  infer_instance

/-- The mode that the software takes from a payload. -/
def headerMode (payload : List Byte) : ImageMode :=
  if KnownIds payload then
    layout (payload.getD 5 0) (payload.getD 7 0) (payload.getD 10 0)
      (payload.getD 13 0)
  else .unsupported

/-- The position of a component's table selector. -/
def tableAt : Component → Nat
  | .y => 8
  | .cb => 11
  | .cr => 14

/-- `img_dqt_table_y_o`, `img_dqt_table_cb_o` and `img_dqt_table_cr_o`. -/
def imgDqtTableO (s : State) : Component → BitVec 2
  | .y => s.imgYDqtTableQ
  | .cb => s.imgCbDqtTableQ
  | .cr => s.imgCrDqtTableQ

/-- The circuit and the software hold the same frame header. -/
structure ReadAlike (s : State) (d : Decoder) : Prop where
  width : s.imgWidthQ.toNat = d.width
  height : s.imgHeightQ.toNat = d.height
  mode : s.imgModeQ = d.mode
  tables :
    ∀ component ∈ mcuComponents d.mode,
      (imgDqtTableO s component).toNat =
        (d.dqtTable (dqtIdx component)).toNat

/--
What the circuit keeps of a payload is the payload's header: the words of its
size, the mode that is taken with the last byte and the selectors of the
components of that mode.
-/
structure HeaderKept (payload : List Byte) (ended hesitated : Bool) :
    Prop where
  width : leftWord payload 3 = headerWord payload 3
  height : leftWord payload 1 = headerWord payload 1
  mode : leftMode payload ended hesitated = headerMode payload
  tables :
    ∀ component ∈ mcuComponents (headerMode payload),
      selector (leftByte payload (tableAt component)) =
        selector (payload.getD (tableAt component) 0)

/-- The software has read the header of a payload. -/
structure HeaderRead (payload : List Byte) (d : Decoder) : Prop where
  width : d.width = (headerWord payload 3).toNat
  height : d.height = (headerWord payload 1).toNat
  mode : d.mode = headerMode payload
  tables :
    ∀ component ∈ mcuComponents (headerMode payload),
      d.dqtTable (dqtIdx component) = payload.getD (tableAt component) 0

/-! ## What the software reads -/

section Reading

variable {src : List Byte} {idx next : Nat}

/-- The bytes of the component at a place of the source. -/
def componentAt (src : List Byte) (idx : Nat) : SofComponent where
  compId := src.getD idx 0
  horizFactor := src.getD (idx + 1) 0 >>> 4
  vertFactor := src.getD (idx + 1) 0 &&& 0xF
  dqtTable := src.getD (idx + 2) 0

theorem sofComponents_eq_map
    {count : Nat}
    (inside : idx + 3 * count ≤ src.length) :
    sofComponents src idx count =
      .ok ((List.range count).map fun x => componentAt src (idx + 3 * x)) := by
  induction count generalizing idx with
  | zero =>
      rfl
  | succ count inductionHypothesis =>
      rw [sofComponents, getByte_eq (by omega), getByte_eq (by omega),
        getByte_eq (by omega),
        @inductionHypothesis (idx + 3) (by omega), List.range_succ_eq_map,
        List.map_cons, List.map_map]
      have shifted (x : Nat) : idx + 3 + 3 * x = idx + 3 * (x + 1) := by
        omega
      simp only [shifted]
      rfl

/-- A byte of the payload is one of the source. -/
theorem payloadAt_getD
    {position : Nat}
    (inside : idx + 2 + position < next) :
    (payloadAt src idx next).getD position 0 =
      src.getD (idx + 2 + position) 0 := by
  rw [payloadAt, List.getD_eq_getElem?_getD, List.getD_eq_getElem?_getD,
    List.getElem?_take_of_lt (by omega), List.getElem?_drop]

/-- A short segment begins with its length in the second byte. -/
theorem segmentAt_eq
    (inside : next ≤ src.length)
    (room : idx + 2 ≤ next)
    (length : wordAt src idx = next - idx)
    (short : next - idx ≤ 255) :
    ∃ low, segmentAt src idx next = 0 :: low :: payloadAt src idx next ∧
      low.toNat = (payloadAt src idx next).length + 2 := by
  rw [wordAt] at length
  have high : src.getD idx 0 = 0 := by
    rw [← BitVec.toNat_inj]
    show _ = 0
    omega
  have size : (payloadAt src idx next).length = next - (idx + 2) := by
    rw [payloadAt, List.length_take, List.length_drop]
    omega
  refine ⟨src.getD (idx + 1) 0, ?_, ?_⟩
  · have two : next - idx = next - (idx + 2) + 1 + 1 := by omega
    rw [segmentAt, payloadAt, two,
      List.drop_eq_getElem_cons (by omega : idx < src.length),
      List.drop_eq_getElem_cons (by omega : idx + 1 < src.length),
      List.take_succ_cons, List.take_succ_cons, ← high,
      List.getD_eq_getElem?_getD, List.getD_eq_getElem?_getD,
      List.getElem?_eq_getElem (by omega : idx < src.length),
      List.getElem?_eq_getElem (by omega : idx + 1 < src.length),
      Option.getD_some, Option.getD_some]
  · have none : (src.getD idx 0).toNat = 0 := by
      rw [high]
      rfl
    omega

/-- The two sampling factors of a byte in the software. -/
theorem nibbles_iff
    (factor : Byte)
    (nibble : Nat)
    (small : nibble < 16) :
    factor >>> 4 = BitVec.ofNat 8 nibble ∧
        factor &&& 0xF = BitVec.ofNat 8 nibble ↔
      factor = BitVec.ofNat 8 (17 * nibble) := by
  have low : (factor &&& 0xF).toNat = factor.toNat % 16 := by
    rw [BitVec.toNat_and]
    exact Nat.and_two_pow_sub_one_eq_mod factor.toNat 4
  have high : (factor >>> 4).toNat = factor.toNat / 16 := by
    rw [BitVec.toNat_ushiftRight, Nat.shiftRight_eq_div_pow]
  rw [← BitVec.toNat_inj, ← BitVec.toNat_inj, ← BitVec.toNat_inj, low, high,
    BitVec.toNat_ofNat, BitVec.toNat_ofNat,
    Nat.mod_eq_of_lt (by omega : nibble < 2 ^ 8),
    Nat.mod_eq_of_lt (by omega : 17 * nibble < 2 ^ 8)]
  omega

/-- The mode of three components. -/
theorem sofMode_three
    (y cb cr : Nat) :
    sofMode [componentAt src y, componentAt src cb, componentAt src cr] =
      if src.getD y 0 = 1 ∧ src.getD cb 0 = 2 ∧ src.getD cr 0 = 3 then
        layout 3 (src.getD (y + 1) 0) (src.getD (cb + 1) 0)
          (src.getD (cr + 1) 0)
      else .unsupported := by
  have ones (factor : Byte) :
      factor >>> 4 = 1 ∧ factor &&& 0xF = 1 ↔ factor = 0x11 :=
    nibbles_iff factor 1 (by decide)
  have twos (factor : Byte) :
      factor >>> 4 = 2 ∧ factor &&& 0xF = 2 ↔ factor = 0x22 :=
    nibbles_iff factor 2 (by decide)
  have guard :
      (src.getD y 0 = 1 ∧ src.getD cb 0 = 2 ∧ src.getD cr 0 = 3 ∧
          src.getD (cb + 1) 0 >>> 4 = 1 ∧ src.getD (cb + 1) 0 &&& 0xF = 1 ∧
          src.getD (cr + 1) 0 >>> 4 = 1 ∧ src.getD (cr + 1) 0 &&& 0xF = 1) ↔
        (src.getD y 0 = 1 ∧ src.getD cb 0 = 2 ∧ src.getD cr 0 = 3) ∧
          src.getD (cb + 1) 0 = 0x11 ∧ src.getD (cr + 1) 0 = 0x11 := by
    rw [← ones (src.getD (cb + 1) 0), ← ones (src.getD (cr + 1) 0)]
    simp only [and_assoc]
  simp only [sofMode, componentAt, guard]
  simp only [ones, twos]
  by_cases known :
      src.getD y 0 = 1 ∧ src.getD cb 0 = 2 ∧ src.getD cr 0 = 3
  · have notOne : ¬(3 : Byte) = 1 := by decide
    rw [if_pos known, layout, if_neg notOne]
    simp only [known, true_and, and_self]
  · rw [if_neg known, if_neg fun both => known both.1]

/-- The mode of the components behind a component count. -/
theorem sofMode_components
    (few : (src.getD (idx + 7) 0).toNat ≤ 3)
    (complete : idx + 8 + 3 * (src.getD (idx + 7) 0).toNat ≤ next)
    (room : idx + 8 ≤ next) :
    sofMode ((List.range (src.getD (idx + 7) 0).toNat).map fun x =>
        componentAt src (idx + 8 + 3 * x)) =
      if (src.getD (idx + 7) 0).toNat = 0 then .unsupported
      else headerMode (payloadAt src idx next) := by
  have count : (payloadAt src idx next).getD 5 0 = src.getD (idx + 7) 0 :=
    payloadAt_getD (by omega)
  simp only [headerMode, KnownIds, count]
  generalize numComps : src.getD (idx + 7) 0 = byte at *
  have byMode :
      byte.toNat = 0 ∨ byte = 1 ∨ byte = 2 ∨ byte = 3 := by
    rw [← BitVec.toNat_inj, ← BitVec.toNat_inj, ← BitVec.toNat_inj]
    show _ ∨ _ = 1 ∨ _ = 2 ∨ _ = 3
    omega
  rcases byMode with none | rfl | rfl | rfl
  · rw [if_pos none, none]
    rfl
  · rfl
  · rfl
  · have three : (3 : Byte).toNat = 3 := rfl
    rw [three] at complete ⊢
    have read (position : Nat) (inside : position < 15) :
        (payloadAt src idx next).getD position 0 =
          src.getD (idx + 2 + position) 0 :=
      payloadAt_getD (by omega)
    rw [if_neg (by decide), read 6 (by decide), read 9 (by decide),
      read 12 (by decide), read 7 (by decide), read 10 (by decide),
      read 13 (by decide)]
    exact (sofMode_three (idx + 8) (idx + 11) (idx + 14)).trans (by simp)

/-- A word of the payload is one of the source. -/
theorem headerWord_toNat
    (position : Nat)
    (inside : idx + 2 + position + 1 < next) :
    (headerWord (payloadAt src idx next) position).toNat =
      wordAt src (idx + 2 + position) := by
  rw [headerWord, payloadAt_getD (by omega), payloadAt_getD (by omega),
    BitVec.toNat_append, ← Nat.shiftLeft_add_eq_or_of_lt (BitVec.isLt _),
    Nat.shiftLeft_eq, wordAt]
  rfl

theorem tableAt_eq
    (component : Component) :
    tableAt component = 8 + 3 * (dqtIdx component).val := by
  cases component <;> rfl

/-- The components of the mode are among those of the header. -/
theorem dqtIdx_lt_of_coded
    {payload : List Byte}
    {component : Component}
    (hasComponents : 1 ≤ (payload.getD 5 0).toNat)
    (coded : component ∈ mcuComponents (headerMode payload)) :
    (dqtIdx component).val < (payload.getD 5 0).toNat := by
  rw [headerMode, layout] at coded
  split at coded
  · split at coded
    · obtain rfl := List.mem_singleton.mp coded
      exact hasComponents
    · split at coded
      · rename_i three
        rw [three.1]
        exact (dqtIdx component).isLt
      · cases coded
  · cases coded

/-- `ParseSof0` accepts a segment that passes its checks. -/
theorem parseSof0_of_checks
    (capacity : Nat)
    (d : Decoder)
    (segment : HasSegment src idx 8)
    (few : (src.getD (idx + 7) 0).toNat ≤ 3)
    (enough : wordAt src (idx + 5) * wordAt src (idx + 3) * 3 ≤ capacity)
    (complete :
      idx + 8 + 3 * (src.getD (idx + 7) 0).toNat ≤ idx + wordAt src idx) :
    ∃ after,
      parseSof0 src capacity d idx = .ok (idx + wordAt src idx, after) := by
  have room := segment.1
  have long := segment.2.1
  have inside := segment.2.2
  rw [parseSof0, segment_bind, if_pos segment, require_bind,
    if_pos (by omega), getByte_eq (by omega), ok_bind, getWord_eq (by omega),
    ok_bind, getWord_eq (by omega), ok_bind, getByte_eq (by omega), ok_bind,
    require_bind, if_pos few, require_bind, if_pos enough,
    sofComponents_eq_map (by omega)]
  exact ⟨_, rfl⟩

/-- `ParseSof0` reads the header of the payload. -/
theorem parseSof0_headerRead
    {capacity : Nat}
    {d after : Decoder}
    (accepted : parseSof0 src capacity d idx = .ok (next, after))
    (hasComponents : 1 ≤ (src.getD (idx + 7) 0).toNat)
    (complete : idx + 8 + 3 * (src.getD (idx + 7) 0).toNat ≤ next) :
    next ≤ src.length ∧ wordAt src idx = next - idx ∧
      HeaderRead (payloadAt src idx next) after := by
  simp only [parseSof0, Iteration.bind_eq_ok, require_eq_ok, Except.ok.injEq,
    Prod.mk.injEq] at accepted
  obtain ⟨-, room, segLen, isLength, -, ⟨long, inside⟩, -, -, -, -, height,
    isHeight, width, isWidth, numComps, isCount, -, few, -, -, components,
    isComponents, rfl, rfl⟩ := accepted
  rw [getWord_eq room] at isLength
  obtain rfl := Except.ok.inj isLength
  rw [getWord_eq (by omega)] at isHeight isWidth
  obtain rfl := Except.ok.inj isHeight
  obtain rfl := Except.ok.inj isWidth
  rw [getByte_eq (by omega)] at isCount
  obtain rfl := Except.ok.inj isCount
  rw [sofComponents_eq_map (by omega)] at isComponents
  obtain rfl := Except.ok.inj isComponents
  have mode := sofMode_components few complete (by omega)
  rw [if_neg (by omega)] at mode
  refine ⟨inside, by omega, ?_, ?_, mode, ?_⟩
  · exact (headerWord_toNat 3 (by omega)).symm
  · exact (headerWord_toNat 1 (by omega)).symm
  · intro component coded
    have count :
        (payloadAt src idx (idx + wordAt src idx)).getD 5 0 =
          src.getD (idx + 7) 0 :=
      payloadAt_getD (by omega)
    have known := dqtIdx_lt_of_coded (count ▸ hasComponents) coded
    rw [count] at known
    rw [tableAt_eq, payloadAt_getD (by omega)]
    simp only [List.getElem?_map, List.getElem?_range known,
      Option.map_some, Option.getD_some, componentAt]
    congr 1
    omega

end Reading

/-! ## When they agree -/

section Agreement

variable {payload : List Byte} {ended hesitated : Bool}
variable {s : State} {d : Decoder}

theorem selector_toNat
    {byte : Byte}
    (small : byte.toNat ≤ 3) :
    (selector byte).toNat = byte.toNat := by
  rw [selector, BitVec.extractLsb'_toNat, Nat.shiftRight_zero]
  omega

/-- A table that is left, without a pause behind the payload. -/
theorem Holds.table
    (holds : Holds payload false s)
    (component : Component) :
    imgDqtTableO s component =
      selector (leftByte payload (tableAt component)) := by
  have left (index : Nat) : heldByte payload false index =
      leftByte payload index := if_neg (by simp)
  cases component with
  | y => rw [imgDqtTableO, holds.yTable, left, tableAt]
  | cb => rw [imgDqtTableO, holds.cbTable, left, tableAt]
  | cr => rw [imgDqtTableO, holds.crTable, left, tableAt]

/-- The two sides agree when what is left is the header. -/
theorem readAlike_iff_kept
    (holds : Holds payload false s)
    (mode : s.imgModeQ = leftMode payload ended hesitated)
    (read : HeaderRead payload d)
    (selectors :
      ∀ component ∈ mcuComponents (headerMode payload),
        (payload.getD (tableAt component) 0).toNat ≤ 3) :
    ReadAlike s d ↔ HeaderKept payload ended hesitated := by
  have width : s.imgWidthQ = leftWord payload 3 :=
    holds.width.trans (if_neg (by simp))
  have height : s.imgHeightQ = leftWord payload 1 :=
    holds.height.trans (if_neg (by simp))
  have tables :
      (∀ component ∈ mcuComponents (headerMode payload),
          (imgDqtTableO s component).toNat =
            (d.dqtTable (dqtIdx component)).toNat) ↔
        ∀ component ∈ mcuComponents (headerMode payload),
          selector (leftByte payload (tableAt component)) =
            selector (payload.getD (tableAt component) 0) := by
    refine forall₂_congr fun component coded => ?_
    rw [holds.table, read.tables component coded,
      ← selector_toNat (selectors component coded), BitVec.toNat_inj]
  constructor
  · intro alike
    have same := alike.tables
    rw [read.mode] at same
    exact {
      width := BitVec.eq_of_toNat_eq
        (by rw [← width, alike.width, read.width])
      height := BitVec.eq_of_toNat_eq
        (by rw [← height, alike.height, read.height])
      mode := by rw [← mode, alike.mode, read.mode]
      tables := tables.mp same }
  · intro kept
    exact {
      width := by rw [width, kept.width, read.width]
      height := by rw [height, kept.height, read.height]
      mode := by rw [mode, kept.mode, read.mode]
      tables := by
        rw [read.mode]
        exact tables.mpr kept.tables }

end Agreement

/-! ## Short segments -/

section Short

variable {payload : List Byte} {index : Nat}

theorem lastAt_of_short
    {size : Nat}
    (short : size ≤ index + 64) :
    lastAt size index = index := by
  rw [lastAt]
  omega

/-- Without a pair `FF C0` a byte is left unless its index comes again. -/
theorem leftByte_of_short
    (noPair : ∀ position < payload.length, ¬clearsAt payload position)
    (short : payload.length ≤ index + 64) :
    leftByte payload index = payload.getD index 0 := by
  rw [leftByte, lastAt_of_short short]
  by_cases inside : index < payload.length
  · exact if_pos ⟨inside, fun later bound _ => noPair later bound⟩
  · rw [if_neg fun both => inside both.1, List.getD_eq_getElem?_getD,
      List.getElem?_eq_none (by omega)]
    rfl

theorem leftWord_of_short
    (noPair : ∀ position < payload.length, ¬clearsAt payload position)
    (short : payload.length ≤ index + 64) :
    leftWord payload index = headerWord payload index := by
  have ordered :
      lastAt payload.length index < lastAt payload.length (index + 1) := by
    rw [lastAt_of_short short, lastAt_of_short (by omega)]
    omega
  rw [leftWord, if_pos ordered, leftByte_of_short noPair short,
    leftByte_of_short noPair (by omega), headerWord]

/-- Before the last byte the bytes so far are held, whatever the pauses. -/
theorem heldByte_dropLast
    {hesitated : Bool}
    (noPair : ∀ position < payload.length, ¬clearsAt payload position)
    (inside : index + 1 < payload.length)
    (short : payload.length ≤ index + 64) :
    heldByte payload.dropLast hesitated index = payload.getD index 0 := by
  have size : payload.dropLast.length = payload.length - 1 :=
    List.length_dropLast
  have same (position : Nat) (before : position + 1 < payload.length) :
      payload.dropLast[position]? = payload[position]? := by
    rw [List.getElem?_dropLast, if_pos (by omega)]
  have quiet :
      ∀ position < payload.dropLast.length,
        ¬clearsAt payload.dropLast position := by
    intro position before clears
    rw [clearsAt, same _ (by omega), same _ (by omega)] at clears
    exact noPair position (by omega) clears
  rw [heldByte, if_neg (by omega),
    leftByte_of_short quiet (by omega), List.getD_eq_getElem?_getD,
    same index inside, List.getD_eq_getElem?_getD]

/--
Of a header without a pair `FF C0` in at most 65 payload bytes everything is
kept, whatever the pauses, if the identifiers are the usual ones and the stream
does not end with it.
-/
theorem headerKept_of_short
    {hesitated : Bool}
    (ids : KnownIds payload)
    (long : 9 ≤ payload.length)
    (complete : payload.getD 5 0 = 3 → 15 ≤ payload.length)
    (short : payload.length ≤ 65)
    (noPair : ∀ position < payload.length, ¬clearsAt payload position) :
    HeaderKept payload false hesitated where
  width := leftWord_of_short noPair (by omega)
  height := leftWord_of_short noPair (by omega)
  mode := by
    have runs : ¬(false = true ∨ endsCleared payload) := by
      rintro (ends | clears)
      · cases ends
      · exact noPair _ (by omega) clears
    rw [leftMode, if_neg runs, headerMode, if_pos ids,
      heldByte_dropLast noPair (by omega) (by omega)]
    by_cases three : payload.getD 5 0 = 3
    · have enough := complete three
      rw [heldByte_dropLast noPair (by omega) (by omega),
        heldByte_dropLast noPair (by omega) (by omega),
        heldByte_dropLast noPair (by omega) (by omega)]
    · simp only [layout, three, false_and, if_false]
  tables := by
    intro component _
    have bound : 8 ≤ tableAt component := by
      cases component <;> decide
    rw [leftByte_of_short noPair (by omega)]

end Short

/-! ## A segment on both sides -/

/--
Behind a frame header that the parser accepts, with one to three components and
at most 255 bytes, the circuit and the software hold the same fields exactly
when the circuit keeps the header of the payload.
-/
theorem frameHeader_readAlike_iff
    (src : List Byte)
    (capacity : Nat)
    (d after : Decoder)
    (idx next : Nat)
    (front : State)
    (ended : Bool)
    (cycles : List Input)
    (accepted : parseSof0 src capacity d idx = .ok (next, after))
    (hasComponents : 1 ≤ (src.getD (idx + 7) 0).toNat)
    (complete : idx + 8 + 3 * (src.getD (idx + 7) 0).toNat ≤ next)
    (short : next - idx ≤ 255)
    (selectors :
      ∀ x < (src.getD (idx + 7) 0).toNat,
        (src.getD (idx + 8 + 3 * x + 2) 0).toNat ≤ 3)
    (active : front.stateQ = .active)
    (marker : front.lastBQ = 0xFF)
    (shown :
      Along Feed.step (Feed.Shows ended)
        (Feed.start front (segmentAt src idx next)) cycles)
    (whole :
      (run Feed.step (Feed.start front (segmentAt src idx next)) cycles).rest =
        []) :
    ReadAlike (run step front cycles) after ↔
      HeaderKept (payloadAt src idx next) ended (hesitates cycles) := by
  obtain ⟨inside, length, read⟩ :=
    parseSof0_headerRead accepted hasComponents complete
  obtain ⟨low, segment, lowSize⟩ :=
    segmentAt_eq inside (by omega) length short
  have size : (payloadAt src idx next).length = next - (idx + 2) := by
    rw [payloadAt, List.length_take, List.length_drop]
    omega
  rw [segment] at shown whole
  obtain ⟨holds, mode⟩ :=
    holds_behind front cycles lowSize (by omega) active marker shown whole
  refine readAlike_iff_kept holds mode read fun component coded => ?_
  have count : (payloadAt src idx next).getD 5 0 = src.getD (idx + 7) 0 :=
    payloadAt_getD (by omega)
  have known := dqtIdx_lt_of_coded (count ▸ hasComponents) coded
  rw [count] at known
  have bound := selectors _ known
  rw [tableAt_eq, payloadAt_getD (by omega)]
  have place : idx + 2 + (8 + 3 * (dqtIdx component).val) =
      idx + 8 + 3 * (dqtIdx component).val + 2 := by
    omega
  rwa [place]

/-- The front end behind the marker of a stream and the first byte `FF`. -/
def behindStart : State :=
  run step reset ([0xFF, 0xD8, 0xFF].map present)

/-- A header of 16 lines of 16 pixels in one component. -/
def greyHeader : List Byte :=
  [0, 11, 8, 0, 16, 0, 16, 1, 1, 0x11, 0]

/-- A header of 16 lines of 16 pixels in red, green and blue. -/
def rgbHeader : List Byte :=
  [0, 17, 8, 0, 16, 0, 16, 3, 82, 0x11, 0, 71, 0x11, 0, 66, 0x11, 0]

/-- The decoder before its first header. -/
def freshDecoder : Decoder :=
  (SoftwareJpegDecoder.start { bytes := fun _ => 0, capacity := 768 }).decoder

theorem frameHeader_readAlike_iff_grey :
    ∃ after,
      parseSof0 greyHeader 768 freshDecoder 0 = .ok (11, after) ∧
        ReadAlike (run step behindStart ((0xC0 :: greyHeader).map present))
          after := by
  obtain ⟨after, accepted⟩ :=
    parseSof0_of_checks 768 freshDecoder
      (by decide : HasSegment greyHeader 0 8) (by decide) (by decide)
      (by decide)
  have kept : HeaderKept (payloadAt greyHeader 0 11) false false :=
    headerKept_of_short (by decide) (by decide) (by decide) (by decide)
      (by decide)
  refine ⟨after, accepted, ?_⟩
  exact (frameHeader_readAlike_iff greyHeader 768 freshDecoder after 0 11
    behindStart false _ accepted (by decide) (by decide) (by decide)
    (by decide) (by decide +kernel) (by decide +kernel) (by decide +kernel)
    (by decide +kernel)).mpr kept

/-- The circuit takes red, green and blue for luminance and chrominance. -/
theorem frameHeader_rgb_differs :
    ¬∀ (src : List Byte) (capacity : Nat) (d after : Decoder)
      (idx next : Nat) (front : State) (ended : Bool) (cycles : List Input),
      parseSof0 src capacity d idx = .ok (next, after) →
      1 ≤ (src.getD (idx + 7) 0).toNat →
      idx + 8 + 3 * (src.getD (idx + 7) 0).toNat ≤ next →
      next - idx ≤ 255 →
      (∀ x < (src.getD (idx + 7) 0).toNat,
        (src.getD (idx + 8 + 3 * x + 2) 0).toNat ≤ 3) →
      front.stateQ = .active → front.lastBQ = 0xFF →
      Along Feed.step (Feed.Shows ended)
        (Feed.start front (segmentAt src idx next)) cycles →
      (run Feed.step (Feed.start front (segmentAt src idx next)) cycles).rest =
        [] →
      ReadAlike (run step front cycles) after := by
  intro claimed
  obtain ⟨after, accepted⟩ :=
    parseSof0_of_checks 768 freshDecoder
      (by decide : HasSegment rgbHeader 0 8) (by decide) (by decide)
      (by decide)
  have alike :=
    claimed rgbHeader 768 freshDecoder after 0 17 behindStart false
      ((0xC0 :: rgbHeader).map present) accepted (by decide) (by decide)
      (by decide) (by decide) (by decide +kernel) (by decide +kernel)
      (by decide +kernel) (by decide +kernel)
  obtain ⟨-, -, read⟩ :=
    parseSof0_headerRead accepted (by decide) (by decide)
  have software : after.mode = .unsupported := by
    rw [read.mode]
    decide
  have circuit :
      (run step behindStart ((0xC0 :: rgbHeader).map present)).imgModeQ =
        .ycbcr444 := by
    decide +kernel
  have mode := alike.mode
  rw [software, circuit] at mode
  cases mode

end CoreJpeg.JpegInput
