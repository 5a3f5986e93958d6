import CoreJpeg.SoftwareDecoder
import CoreJpeg.SoftwareRead
import Mathlib.Data.List.Chain

namespace CoreJpeg.SoftwareJpegDecoder

open BitString Software

/-!
# What the bit buffer represents

`push` remembers one byte: a zero behind an `FF` is dropped, any other byte
behind one is a marker, for which the `FF` that is already stored is taken
back.  This module says which bytes are left when a scan has been pushed, and
that every word that is read before the end shows their bits, without leaving
the memory.
-/

/-! ## The unstuffed scan -/

/-- A byte behind another one is a marker code. -/
def IsMarker (last b : Byte) : Prop := last = 0xFF ∧ b ≠ 0x00

instance (last b : Byte) : Decidable (IsMarker last b) :=
  inferInstanceAs (Decidable (_ ∧ _))

/-- The bytes before the first marker. -/
def beforeMarker : List Byte → List Byte
  | [] => []
  | [b] => [b]
  | b :: next :: rest =>
      if IsMarker b next then [] else b :: beforeMarker (next :: rest)

/-- The bytes without each zero behind an `FF`; one byte came before. -/
def withoutStuffing : Byte → List Byte → List Byte
  | _, [] => []
  | last, b :: rest =>
      if last = 0xFF ∧ b = 0x00 then withoutStuffing b rest
      else b :: withoutStuffing b rest

/-- The bytes of a scan that was pushed until a marker. -/
def scanBytes (bytes : List Byte) : List Byte :=
  withoutStuffing 0 (beforeMarker bytes)

/-- No byte is a marker code behind the one before it. -/
def Unmarked (bytes : List Byte) : Prop :=
  bytes.IsChain fun last b => ¬ IsMarker last b

section Unstuffed

variable {before rest : List Byte} {b : Byte}

theorem withoutStuffing_concat (first : Byte) (bytes : List Byte) (b : Byte) :
    withoutStuffing first (bytes ++ [b]) =
      withoutStuffing first bytes ++
        if bytes.getLastD first = 0xFF ∧ b = 0x00 then [] else [b] := by
  induction bytes generalizing first with
  | nil =>
      by_cases stuffed : first = 0xFF ∧ b = 0x00 <;>
        simp [withoutStuffing, stuffed]
  | cons c rest inductionHypothesis =>
      rw [List.cons_append, withoutStuffing, withoutStuffing,
        inductionHypothesis, List.getLastD_cons]
      split
      · rfl
      · rfl

theorem length_withoutStuffing_le (first : Byte) (bytes : List Byte) :
    (withoutStuffing first bytes).length ≤ bytes.length := by
  induction bytes generalizing first with
  | nil => exact Nat.le_refl 0
  | cons c rest inductionHypothesis =>
      have shorter := inductionHypothesis c
      rw [withoutStuffing]
      split
      · exact shorter.trans (Nat.le_succ _)
      · exact Nat.succ_le_succ shorter

/-- Bytes without a marker are all before it. -/
theorem beforeMarker_unmarked
    (unmarked : Unmarked before) :
    beforeMarker before = before := by
  induction before with
  | nil => rfl
  | cons first others inductionHypothesis =>
      cases others with
      | nil => rfl
      | cons next others =>
          have link := List.isChain_cons_cons.mp unmarked
          rw [beforeMarker, if_neg link.1, inductionHypothesis link.2]

/-- A marker ends the scan; its `FF` does not belong to it. -/
theorem beforeMarker_marker
    (unmarked : Unmarked before)
    (isMarker : IsMarker (before.getLastD 0) b)
    (rest : List Byte) :
    beforeMarker (before ++ b :: rest) = before.dropLast := by
  induction before with
  | nil => exact absurd isMarker.1 (by decide)
  | cons first others inductionHypothesis =>
      cases others with
      | nil =>
          have here : IsMarker first b := isMarker
          rw [List.singleton_append, beforeMarker, if_pos here]
          rfl
      | cons next others =>
          have link := List.isChain_cons_cons.mp unmarked
          have later := inductionHypothesis link.2 isMarker
          rw [List.cons_append] at later
          rw [List.cons_append, List.cons_append, beforeMarker,
            if_neg link.1, later]
          rfl

theorem Unmarked.concat
    (unmarked : Unmarked before)
    (noMarker : ¬ IsMarker (before.getLastD 0) b) :
    Unmarked (before ++ [b]) := by
  refine List.isChain_append.mpr ⟨unmarked, .singleton b, ?_⟩
  intro last isLast first isFirst
  obtain rfl : b = first := by
    simpa using isFirst
  rw [List.getLastD_eq_getLast?, Option.mem_def.mp isLast] at noMarker
  exact noMarker

end Unstuffed

/-! ## Pushing until a marker -/

section Push

variable {before : List Byte} {s : BitBuffer} {maxSize : Nat}

/-- What is known when bytes without a marker have been pushed. -/
structure Pushed (before : List Byte) (s : BitBuffer) : Prop where
  unmarked : Unmarked before
  loaded : Loaded (withoutStuffing 0 before) s
  last : s.last = before.getLastD 0

theorem pushed_reset : Pushed [] .reset where
  unmarked := .nil
  loaded := ⟨rfl, by simp [withoutStuffing]⟩
  last := rfl

/-- A byte that is not a marker code is stored, or dropped as stuffing. -/
theorem Pushed.step
    (pushed : Pushed before s)
    (room : before.length < maxSize)
    {b : Byte}
    (noMarker : ¬ IsMarker (before.getLastD 0) b) :
    ∃ next,
      push maxSize s b = .ok (true, next) ∧ Pushed (before ++ [b]) next ∧
        next.rdOffset = s.rdOffset := by
  have inside : s.wrOffset < maxSize := by
    rw [pushed.loaded.written]
    exact (length_withoutStuffing_le 0 before).trans_lt room
  have unmarked := pushed.unmarked.concat noMarker
  rw [← pushed.last] at noMarker
  have isPush : push maxSize s b = .ok (s.push b) := by
    rw [SoftwareJpegDecoder.push, if_neg (by omega)]
  by_cases afterFF : s.last = 0xFF
  · have zero : b = 0x00 := by
      by_contra nonzero
      exact noMarker ⟨afterFF, nonzero⟩
    rw [isPush, BitBuffer.push, if_pos ⟨afterFF, zero⟩]
    refine ⟨_, rfl, ⟨unmarked, ?_, by simp⟩, rfl⟩
    rw [withoutStuffing_concat, ← pushed.last, if_pos ⟨afterFF, zero⟩,
      List.append_nil]
    exact ⟨pushed.loaded.written, pushed.loaded.stored⟩
  · rw [isPush, BitBuffer.push, if_neg fun both => afterFF both.1,
      if_neg fun both => afterFF both.1]
    refine ⟨_, rfl, ⟨unmarked, ?_, by simp⟩, rfl⟩
    rw [withoutStuffing_concat, ← pushed.last,
      if_neg fun both => afterFF both.1]
    exact pushed.loaded.store b b

/-- A marker code is refused and the `FF` before it is taken back. -/
theorem Pushed.refuse
    (pushed : Pushed before s)
    {b : Byte}
    (isMarker : IsMarker (before.getLastD 0) b)
    (maxSize : Nat) :
    ∃ next,
      push maxSize s b = .ok (false, next) ∧
        Loaded (withoutStuffing 0 before.dropLast) next ∧
        next.rdOffset = s.rdOffset := by
  rw [← pushed.last] at isMarker
  obtain ⟨afterFF, nonzero⟩ := isMarker
  rw [SoftwareJpegDecoder.push, if_neg fun both => both.1 afterFF,
    BitBuffer.push, if_neg fun both => nonzero both.2,
    if_pos ⟨afterFF, nonzero⟩]
  refine ⟨_, rfl, ?_, rfl⟩
  rcases List.eq_nil_or_concat before with rfl | ⟨front, final, rfl⟩
  · rw [pushed.last] at afterFF
    exact absurd afterFF (by decide)
  have isFinal : final = 0xFF := by
    rw [← afterFF, pushed.last]
    simp
  have held := pushed.loaded
  rw [List.concat_eq_append, withoutStuffing_concat, isFinal,
    if_neg fun both => absurd both.2 (by decide)] at held
  rw [List.concat_eq_append, List.dropLast_concat]
  refine ⟨?_, ?_⟩
  · have written := held.written
    rw [List.length_append, List.length_singleton] at written
    simp only [written, Nat.add_sub_cancel]
  · intro index inside
    have stored := held.stored index (by
      rw [List.length_append]
      omega)
    rw [stored, List.getElem_append_left inside]

/-- Pushing until a marker stores the bytes of the scan. -/
theorem Pushed.pushScan
    (pushed : Pushed before s)
    (rest : List Byte)
    (room : (before ++ rest).length ≤ maxSize)
    (idx : Nat) :
    ∃ stop next,
      pushScan maxSize rest idx s = .ok (stop, next) ∧
        Loaded (scanBytes (before ++ rest)) next ∧
        next.rdOffset = s.rdOffset := by
  induction rest generalizing before s idx with
  | nil =>
      refine ⟨idx, s, rfl, ?_, rfl⟩
      rw [List.append_nil, scanBytes, beforeMarker_unmarked pushed.unmarked]
      exact pushed.loaded
  | cons b rest inductionHypothesis =>
      by_cases isMarker : IsMarker (before.getLastD 0) b
      · obtain ⟨next, refused, loaded, offset⟩ := pushed.refuse isMarker maxSize
        refine ⟨idx - 1, next, ?_, ?_, offset⟩
        · simp [SoftwareJpegDecoder.pushScan, bind, Except.bind, refused]
        · rw [scanBytes, beforeMarker_marker pushed.unmarked isMarker]
          exact loaded
      · rw [List.length_append, List.length_cons] at room
        obtain ⟨next, taken, pushedNext, offset⟩ :=
          pushed.step (show before.length < maxSize by omega) isMarker
        obtain ⟨stop, final, ran, loaded, finalOffset⟩ :=
          inductionHypothesis pushedNext
            (by
              simp only [List.length_append, List.length_singleton]
              omega)
            (idx + 1)
        refine ⟨stop, final, ?_, ?_, finalOffset.trans offset⟩
        · simp [SoftwareJpegDecoder.pushScan, bind, Except.bind, taken, ran]
        · rw [List.append_assoc, List.singleton_append] at loaded
          exact loaded

end Push

/-! ## Reading what was pushed -/

theorem length_beforeMarker_le (bytes : List Byte) :
    (beforeMarker bytes).length ≤ bytes.length := by
  induction bytes using beforeMarker.induct with
  | case1 => exact Nat.le_refl 0
  | case2 b => exact Nat.le_refl 1
  | case3 b next rest isMarker =>
      rw [beforeMarker, if_pos isMarker]
      exact Nat.zero_le _
  | case4 b next rest noMarker inductionHypothesis =>
      rw [beforeMarker, if_neg noMarker]
      exact Nat.succ_le_succ inductionHypothesis

theorem length_scanBytes_le (bytes : List Byte) :
    (scanBytes bytes).length ≤ bytes.length :=
  (length_withoutStuffing_le 0 _).trans (length_beforeMarker_le bytes)

section Offsets

variable {bits : BitBuffer} {bytes : List Byte}

/-- Two steps are one, and overflow together. -/
theorem advance_bind (bits : BitBuffer) (first second : Nat) :
    (advance bits first >>= fun next => advance next second) =
      advance bits (first + second) := by
  rw [advance, advance]
  by_cases small : bits.rdOffset + first < 2 ^ 31
  · have sums : intSum bits.rdOffset (first + second) =
        intSum (bits.rdOffset + first) second := by
      rw [intSum, intSum, Nat.add_assoc]
    rw [intSum_eq small, sums]
    rfl
  · rw [intSum, if_neg small, intSum, if_neg (by omega)]
    rfl

/-- A word that is read before the end shows the bits of the bytes. -/
theorem getElem?_of_readWord
    (loaded : Loaded bytes bits)
    (notEof : bits.eof = false)
    {bit : Nat}
    (inWord : bit < 32)
    (inScan : bits.rdOffset + bit < 8 * bits.wrOffset) :
    (streamOf bytes)[bits.rdOffset + bit]? =
      some (bits.readWord.getMsbD bit) := by
  rw [loaded.written] at inScan
  have split := Nat.div_add_mod (bits.rdOffset + bit) 8
  have inByte := Nat.mod_lt (bits.rdOffset + bit) (show 0 < 8 by decide)
  have inBytes : (bits.rdOffset + bit) / 8 < bytes.length := by
    omega
  have stored := loaded.stored _ inBytes
  have streamBit :=
    getElem?_streamOf bytes ((bits.rdOffset + bit) / 8) inByte
  rw [split, List.getElem?_eq_getElem inBytes, Option.map_some] at streamBit
  rw [streamBit, getMsbD_readWord notEof inWord, ← stored]

end Offsets

/--
A scan that is pushed until a marker, into a memory that is four bytes longer,
is represented without its stuffing: the memory holds its bytes, steps of the
offset add up, and at every offset that `eof` can round up in the type `int` a
word is read inside the memory, which before the end shows the scan's bits.
-/
theorem bitBuffer_represents
    (bytes : List Byte)
    {maxSize : Nat}
    (room : bytes.length + 4 ≤ maxSize)
    (idx : Nat) :
    ∃ stop s,
      pushScan maxSize bytes idx .reset = .ok (stop, s) ∧
        s.wrOffset = (scanBytes bytes).length ∧
        (∀ (index : Nat) (inScan : index < (scanBytes bytes).length),
          s.buffer index = (scanBytes bytes)[index]) ∧
        (∀ offset first second,
          (advance (s.advance offset) first >>= fun next =>
              advance next second) =
            advance (s.advance offset) (first + second)) ∧
        ∀ offset, offset + 7 < 2 ^ 31 →
          ∃ ahead ended word,
            advance s offset = .ok ahead ∧ eof ahead = .ok ended ∧
              readWord maxSize ahead = .ok word ∧
              (ended = false → ∀ bit < 32,
                offset + bit < 8 * s.wrOffset →
                  (streamOf (scanBytes bytes))[offset + bit]? =
                    some (word.getMsbD bit)) := by
  obtain ⟨stop, s, pushed, loaded, start⟩ :=
    pushed_reset.pushScan bytes
      (show ([] ++ bytes).length ≤ maxSize by
        rw [List.nil_append]
        omega)
      idx
  rw [List.nil_append] at loaded
  have start : s.rdOffset = 0 := start
  refine ⟨stop, s, pushed, loaded.written, loaded.stored,
    fun offset => advance_bind (s.advance offset), ?_⟩
  intro offset small
  have short := length_scanBytes_le bytes
  have ahead : (s.advance offset).rdOffset = offset := by
    simp [BitBuffer.advance, start]
  have fits : OffsetFits (s.advance offset) := by
    rw [OffsetFits, ahead]
    exact small
  have inside : (s.advance offset).wrOffset + 4 ≤ maxSize := by
    change s.wrOffset + 4 ≤ maxSize
    rw [loaded.written]
    omega
  refine ⟨_, _, _, advance_eq s fits, eof_eq fits, readWord_eq inside fits, ?_⟩
  intro notEof bit inWord inScan
  have held : Loaded (scanBytes bytes) (s.advance offset) :=
    ⟨loaded.written, loaded.stored⟩
  have shown :=
    getElem?_of_readWord held notEof inWord (by rw [ahead]; exact inScan)
  rw [ahead] at shown
  exact shown

/-- A stuffed byte, a marker and a byte behind it. -/
theorem bitBuffer_represents_marker :
    ∃ stop s,
      pushScan 10 [0xFF, 0x00, 0x12, 0xFF, 0xD9, 0x34] 0 .reset =
        .ok (stop, s) ∧
        s.wrOffset = [0xFF, 0x12].length ∧
        (∀ (index : Nat) (inScan : index < 2),
          s.buffer index = [0xFF, 0x12][index]) ∧
        ∃ ahead word, advance s 4 = .ok ahead ∧
          readWord 10 ahead = .ok word ∧ word.getMsbD 7 = true := by
  obtain ⟨stop, s, pushed, written, stored, -, reads⟩ :=
    bitBuffer_represents [0xFF, 0x00, 0x12, 0xFF, 0xD9, 0x34]
      (show [0xFF, 0x00, 0x12, 0xFF, 0xD9, 0x34].length + 4 ≤ 10 by decide) 0
  obtain ⟨ahead, ended, word, advanced, isEof, isRead, shows⟩ :=
    reads 4 (by decide)
  refine ⟨stop, s, pushed, written, stored, ahead, word, advanced, isRead, ?_⟩
  obtain ⟨-, isEnded⟩ := eof_of_ok isEof
  have notEof : ended = false := by
    have isStart : s.rdOffset = 0 := by
      have same := Prod.mk.inj (Except.ok.inj pushed)
      rw [← same.2]
      rfl
    rw [isEnded, advance_of_ok advanced, BitBuffer.eof]
    simp [BitBuffer.advance, isStart, written, scanBytes, beforeMarker,
      withoutStuffing, IsMarker]
  have shown := shows notEof 7 (by decide) (by
    rw [written]
    decide)
  exact (Option.some.inj shown).symm

/-! ## An offset near the end of `int` -/

theorem withoutStuffing_zeros (count : Nat) :
    withoutStuffing 0 (List.replicate count 0) = List.replicate count 0 := by
  induction count with
  | zero => rfl
  | succ count inductionHypothesis =>
      rw [List.replicate_succ, withoutStuffing, if_neg (by decide),
        inductionHypothesis]

theorem scanBytes_zeros (count : Nat) :
    scanBytes (List.replicate count 0) = List.replicate count 0 := by
  have unmarked : Unmarked (List.replicate count 0) :=
    List.isChain_replicate_of_rel count (by decide)
  rw [scanBytes, beforeMarker_unmarked unmarked, withoutStuffing_zeros]

/-- Seven bits before the end of `int` the offset cannot be rounded up. -/
theorem readWord_overflows_offset :
    ¬ ∀ (bytes : List Byte) (maxSize idx : Nat),
      bytes.length + 4 ≤ maxSize → maxSize < 2 ^ 31 →
        ∃ stop s,
          pushScan maxSize bytes idx .reset = .ok (stop, s) ∧
            s.wrOffset = (scanBytes bytes).length ∧
            ∀ offset < 2 ^ 31, (offset + 7) / 8 < s.wrOffset →
              ∃ ahead word, advance s offset = .ok ahead ∧
                readWord maxSize ahead = .ok word := by
  intro claimed
  obtain ⟨count, isCount⟩ : ∃ count, count = 2 ^ 28 + 1 := ⟨_, rfl⟩
  obtain ⟨stop, s, -, written, reads⟩ :=
    claimed (List.replicate count 0) (2 ^ 28 + 5) 0
      (by rw [List.length_replicate]; omega) (by decide)
  rw [scanBytes_zeros, List.length_replicate] at written
  obtain ⟨ahead, word, advanced, isRead⟩ :=
    reads (2 ^ 31 - 7) (by decide) (by rw [written, isCount]; decide)
  obtain ⟨fits, -⟩ := readWord_of_ok isRead
  rw [advance_of_ok advanced, OffsetFits] at fits
  simp only [BitBuffer.advance] at fits
  omega

end CoreJpeg.SoftwareJpegDecoder
