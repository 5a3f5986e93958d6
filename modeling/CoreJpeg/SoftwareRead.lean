import CoreJpeg.SoftwareModel
import CoreJpeg.McuFrame
import Mathlib.Tactic.IntervalCases

namespace CoreJpeg.Software

/-!
# Reading the bit buffer

What the bit buffer shows after the bytes of a scan have been pushed: the scan
without its stuffed zeros, 32 bits at a time, and zero once fewer than eight
bits are left.  The Huffman lookup and the number decoding are put in terms of
the bits they look at.
-/

open EntropyCode BitString

/-! ## Pushing a scan -/

/-- Byte stuffing: a zero byte behind every `FF`. -/
def stuff (bytes : List Byte) : List Byte :=
  bytes.flatMap fun b => if b = 0xFF then [0xFF, 0x00] else [b]

/-- The bit buffer holds these bytes. -/
structure Loaded (bytes : List Byte) (s : BitBuffer) : Prop where
  written : s.wrOffset = bytes.length
  stored :
    ∀ (index : Nat) (inBytes : index < bytes.length),
      s.buffer index = bytes[index]

/-- Storing one more byte extends the loaded bytes. -/
theorem Loaded.store
    {bytes : List Byte}
    {s : BitBuffer}
    (loaded : Loaded bytes s)
    (b last : Byte) :
    Loaded (bytes ++ [b])
      { s with
        buffer := fun index =>
          if index = s.wrOffset then b else s.buffer index
        wrOffset := s.wrOffset + 1
        last := last } where
  written := by simp [loaded.written]
  stored := by
    intro index inBytes
    simp only [loaded.written]
    rcases Nat.lt_or_ge index bytes.length with old | new
    · rw [if_neg (by omega), List.getElem_append_left old]
      exact loaded.stored index old
    · have last : index = bytes.length := by
        rw [List.length_append, List.length_singleton] at inBytes
        omega
      subst last
      simp

/-- Pushing stuffed bytes stores them without the stuffed zeros. -/
theorem pushScan_stuff
    {before : List Byte}
    {s : BitBuffer}
    (loaded : Loaded before s)
    (fresh : s.last ≠ 255#8)
    (bytes tail : List Byte) :
    ∃ after : BitBuffer,
      s.pushScan (stuff bytes ++ tail) = after.pushScan tail ∧
        Loaded (before ++ bytes) after ∧ after.last ≠ 255#8 ∧
        after.rdOffset = s.rdOffset := by
  induction bytes generalizing before s with
  | nil =>
      exact ⟨s, rfl, by simpa using loaded, fresh, rfl⟩
  | cons b rest inductionHypothesis =>
      by_cases marker : b = 255#8
      · subst marker
        obtain ⟨after, pushed, held, last, offset⟩ :=
          inductionHypothesis (loaded.store 0xFF 0x00)
            (show (0x00 : Byte) ≠ 255#8 by decide)
        refine ⟨after, ?_, by simpa using held, last, offset⟩
        rw [← pushed]
        simp [stuff, BitBuffer.pushScan, BitBuffer.push, fresh]
      · obtain ⟨after, pushed, held, last, offset⟩ :=
          inductionHypothesis (loaded.store b b) marker
        refine ⟨after, ?_, by simpa using held, last, offset⟩
        rw [← pushed]
        simp [stuff, marker, BitBuffer.pushScan, BitBuffer.push, fresh]

/-- A stuffed scan before a marker leaves the scan in the bit buffer. -/
theorem imageStart_loaded
    (bytes : List Byte)
    {marker : Byte}
    (noStuffing : marker ≠ 0#8)
    (tail : List Byte) :
    Loaded bytes (imageStart (stuff bytes ++ 0xFF :: marker :: tail)).bits ∧
      (imageStart (stuff bytes ++ 0xFF :: marker :: tail)).bits.rdOffset =
        0 := by
  have empty : Loaded [] BitBuffer.reset :=
    { written := rfl
      stored := by simp }
  obtain ⟨after, pushed, loaded, fresh, offset⟩ :=
    pushScan_stuff empty (by decide) bytes (0xFF :: marker :: tail)
  have final :
      (imageStart (stuff bytes ++ 0xFF :: marker :: tail)).bits =
        { after with
          buffer := fun index =>
            if index = after.wrOffset then 0xFF else after.buffer index
          last := 0xFF } := by
    rw [imageStart, pushed]
    simp [BitBuffer.pushScan, BitBuffer.push, fresh, noStuffing]
  rw [final]
  refine ⟨⟨by simpa using loaded.written, ?_⟩, offset⟩
  intro index inBytes
  have written := loaded.written
  rw [List.nil_append] at written
  have stored := loaded.stored index (by simpa using inBytes)
  simp only [List.nil_append] at stored
  rw [← stored]
  exact if_neg (by omega)

/-! ## The window -/

/-- The bits of the pushed bytes. -/
def streamOf (bytes : List Byte) : List Bool := bytes.flatMap bitsOf

@[simp] theorem length_streamOf (bytes : List Byte) :
    (streamOf bytes).length = 8 * bytes.length := by
  induction bytes with
  | nil =>
      rfl
  | cons b rest inductionHypothesis =>
      simp only [streamOf, List.flatMap_cons, List.length_append,
        length_bitsOf, List.length_cons] at inductionHypothesis ⊢
      omega

/-- A bit of the stream is a bit of one of the bytes. -/
theorem getElem?_streamOf
    (bytes : List Byte)
    (byte : Nat)
    {bit : Nat}
    (inByte : bit < 8) :
    (streamOf bytes)[8 * byte + bit]? =
      bytes[byte]?.map fun b => b.getMsbD bit := by
  induction bytes generalizing byte with
  | nil =>
      simp [streamOf]
  | cons b rest inductionHypothesis =>
      cases byte with
      | zero =>
          simp only [streamOf, List.flatMap_cons, Nat.mul_zero, Nat.zero_add]
          rw [List.getElem?_append_left (by simpa using inByte)]
          simp [inByte]
      | succ byte =>
          have position : 8 * (byte + 1) + bit - (bitsOf b).length =
              8 * byte + bit := by
            rw [length_bitsOf]
            omega
          rw [streamOf, List.flatMap_cons,
            List.getElem?_append_right (by rw [length_bitsOf]; omega),
            position]
          exact inductionHypothesis byte

/-- Reading stops when fewer than eight bits are left. -/
theorem eof_iff
    {bytes : List Byte}
    {s : BitBuffer}
    (loaded : Loaded bytes s) :
    s.eof = true ↔ 8 * bytes.length ≤ s.rdOffset + 7 := by
  simp only [BitBuffer.eof, decide_eq_true_eq, loaded.written]
  omega

/-- The five gathered bytes follow each other. -/
theorem getLsbD_gathered
    (cells : Nat → Byte)
    {byte bit : Nat}
    (byteSmall : byte < 5)
    (bitSmall : bit < 8) :
    ((List.range 5).foldl
        (fun w x => (w ||| (cells x).setWidth 64) <<< 8)
        (0 : BitVec 64)).getLsbD (47 - (8 * byte + bit)) =
      (cells byte).getMsbD bit := by
  simp only [List.range_succ_eq_map, List.range_zero, List.map_nil,
    List.map_cons, List.foldl_cons, List.foldl_nil]
  interval_cases byte <;> interval_cases bit <;>
    simp [BitVec.getMsbD_eq_getLsbD]

/-- A word read before the end shows the cells from its position on. -/
theorem getMsbD_readWord
    {s : BitBuffer}
    (notEof : s.eof = false)
    {offset : Nat}
    (inWord : offset < 32) :
    (s.readWord).getMsbD offset =
      (s.buffer ((s.rdOffset + offset) / 8)).getMsbD
        ((s.rdOffset + offset) % 8) := by
  have split := Nat.div_add_mod (s.rdOffset % 8 + offset) 8
  have byteSmall : (s.rdOffset % 8 + offset) / 8 < 5 := by omega
  have bitSmall := Nat.mod_lt (s.rdOffset % 8 + offset) (show 0 < 8 by decide)
  have gathered :=
    getLsbD_gathered (fun x => s.buffer (s.rdOffset / 8 + x)) byteSmall
      bitSmall
  have byteAt :
      (s.rdOffset + offset) / 8 =
        s.rdOffset / 8 + (s.rdOffset % 8 + offset) / 8 := by
    omega
  have bitAt :
      (s.rdOffset + offset) % 8 = (s.rdOffset % 8 + offset) % 8 := by
    omega
  rw [split] at gathered
  rw [byteAt, bitAt, ← gathered]
  unfold BitBuffer.readWord
  rw [notEof]
  simp only [Bool.false_eq_true, ↓reduceIte]
  rw [BitVec.getMsbD_eq_getLsbD, BitVec.getLsbD_setWidth,
    BitVec.getLsbD_ushiftRight, BitVec.getLsbD_shiftLeft]
  have position :
      16 + (32 - 1 - offset) - s.rdOffset % 8 =
        47 - (s.rdOffset % 8 + offset) := by
    omega
  rw [position]
  simp [inWord, show 32 - 1 - offset < 32 by omega,
    show 16 + (32 - 1 - offset) < 64 by omega,
    show ¬ 16 + (32 - 1 - offset) < s.rdOffset % 8 by omega]

/-- What starts the rest of the stream starts a word read before the end. -/
theorem prefix_readWord
    {bytes : List Byte}
    {s : BitBuffer}
    (loaded : Loaded bytes s)
    (notEof : s.eof = false)
    {bits : List Bool}
    (fits : bits.length ≤ 32)
    (starts : bits <+: (streamOf bytes).drop s.rdOffset) :
    bits <+: bitsOf s.readWord := by
  have inStream := starts.length_le
  rw [List.length_drop, length_streamOf] at inStream
  rw [List.prefix_iff_eq_take]
  apply List.ext_getElem
  · simp
    omega
  · intro index left right
    rw [List.getElem_take, getElem_bitsOf,
      getMsbD_readWord notEof (by omega)]
    have here := starts.getElem left
    have split := Nat.div_add_mod (s.rdOffset + index) 8
    have bitSmall := Nat.mod_lt (s.rdOffset + index) (show 0 < 8 by decide)
    have inBytes : (s.rdOffset + index) / 8 < bytes.length := by omega
    have streamBit :=
      getElem?_streamOf bytes ((s.rdOffset + index) / 8) bitSmall
    rw [split, List.getElem?_eq_getElem inBytes, Option.map_some,
      ← loaded.stored _ inBytes] at streamBit
    rw [here, List.getElem_drop]
    exact (List.getElem?_eq_some_iff.mp streamBit).2

/-! ## Lookups -/

/-- Equal tests of the members find the same member. -/
theorem find?_congr_mem
    {Entry : Type}
    {first second : Entry → Bool}
    {entries : List Entry}
    (same : ∀ entry ∈ entries, first entry = second entry) :
    entries.find? first = entries.find? second := by
  induction entries with
  | nil =>
      rfl
  | cons entry rest inductionHypothesis =>
      have tails : rest.find? first = rest.find? second := by
        apply inductionHypothesis
        intro other member
        exact same other (List.mem_cons_of_mem _ member)
      rw [List.find?_cons, List.find?_cons, same entry (by simp), tails]

/-- Bit strings of one length that spell one number are equal. -/
theorem ofBits_injective
    {first second : List Bool}
    (lengths : first.length = second.length)
    (same : ofBits first = ofBits second) :
    first = second := by
  induction first using List.reverseRecOn generalizing second with
  | nil =>
      simpa using lengths.symm
  | append_singleton bits bit inductionHypothesis =>
      rcases List.eq_nil_or_concat second with rfl | ⟨others, other, rfl⟩
      · simp at lengths
      · rw [List.concat_eq_append] at lengths same ⊢
        rw [ofBits_concat, ofBits_concat] at same
        have bitSmall := Bool.toNat_lt bit
        have otherSmall := Bool.toNat_lt other
        have sameBit : bit = other := by
          have lowest : bit.toNat = other.toNat := by
            omega
          cases bit <;> cases other <;> simp_all
        have sameBits : bits = others := by
          subst sameBit
          apply inductionHypothesis
          · simpa using lengths
          · omega
        rw [sameBits, sameBit]

/-- The shifted input equals a code when the code word starts the input. -/
theorem shift_eq_code
    {word : List Bool}
    (short : word.length ≤ 16)
    (w : BitVec 16) :
    (w >>> (16 - word.length) == BitVec.ofNat 16 (ofBits word)) =
      word.isPrefixOf (bitsOf w) := by
  have small := ofBits_lt word
  have below : 2 ^ word.length ≤ 2 ^ 16 :=
    Nat.pow_le_pow_right (by decide) short
  have taken := ofBits_take w word.length short
  rw [Bool.eq_iff_iff, beq_iff_eq, List.isPrefixOf_iff_prefix,
    ← BitVec.toNat_inj, BitVec.toNat_ushiftRight, BitVec.toNat_ofNat,
    Nat.mod_eq_of_lt (by omega), ← taken, List.prefix_iff_eq_take]
  constructor
  · intro same
    exact (ofBits_injective (by simp [short]) same).symm
  · intro same
    rw [← same]

/-- A lookup finds the entry whose code word starts the input. -/
theorem lookup_dhtEntries (table : Table) (w : BitVec 16) :
    lookup (dhtEntries table) w =
      match table.lookup (bitsOf w) with
      | some entry => (entry.1.length, entry.2)
      | none => (0, 0) := by
  have found :
      (dhtEntries table).find?
          (fun entry => w >>> (16 - entry.codeLen) == entry.code) =
        (table.lookup (bitsOf w)).map fun entry =>
          { code := BitVec.ofNat 16 (ofBits entry.1)
            codeLen := entry.1.length
            value := entry.2 } := by
    rw [dhtEntries, List.find?_map, PrefixCode.lookup]
    congr 1
    apply find?_congr_mem
    intro entry member
    exact shift_eq_code (table.widths entry member).2 w
  rw [lookup, found]
  cases table.lookup (bitsOf w) <;> rfl

end CoreJpeg.Software
