import CoreJpeg.DhtRefinement
import CoreJpeg.SoftwareRead

namespace CoreJpeg.Software

open BitString CanonicalCode JpegDht

/-!
# The canonical code words in software

`jpeg_dht::process` assigns consecutive numbers to the symbols of one code
length and doubles the number for the next one.  Under Kraft's inequality these
numbers fit their lengths, although the sixteen bits of `code` may wrap behind
the last one, and no code word begins another.  `lookup` therefore finds the
code word that a window begins with, wherever it stands in the table.
-/

/-- The code word of an entry. -/
def DhtEntry.word (entry : DhtEntry) : List Bool :=
  toBits entry.codeLen entry.code.toNat

/-- Entries of a prefix code, with what `lookup` makes of them. -/
structure Canonical (entries : List DhtEntry) : Prop where
  fit :
    ∀ entry ∈ entries,
      1 ≤ entry.codeLen ∧ entry.codeLen ≤ 16 ∧
        entry.code.toNat < 2 ^ entry.codeLen
  prefixFree :
    entries.Pairwise fun first second =>
      ¬ first.word <+: second.word ∧
        ¬ second.word <+: first.word
  found :
    ∀ (window : BitVec 16) (length : Nat) (value : Byte),
      length ≠ 0 →
        (lookup entries window = (length, value) ↔
          ∃ entry ∈ entries,
            entry.word <+: bitsOf window ∧
              entry.codeLen = length ∧ entry.value = value)
  absent :
    ∀ window : BitVec 16,
      (lookup entries window).1 = 0 ↔
        ∀ entry ∈ entries, ¬ entry.word <+: bitsOf window

/-- The entries of a table behind some definitions: the last one wins. -/
def latestEntries
    (tables : List TableDef)
    (before : List DhtEntry)
    (index : Fin 4) : List DhtEntry :=
  match tables.reverse.find? fun table => tableIdx table.info = .ok index with
  | some table => table.entries
  | none => before

/-! ## The words of a definition -/

section Words

variable {table : TableDef} {length index : Nat}

/-- The entry of a code word of a definition. -/
def entryAt (table : TableDef) (length index : Nat) : DhtEntry where
  code := BitVec.ofNat 16 (firstCode table.count length + index)
  codeLen := length + 1
  value := table.symbols.getD (offset table.count length + index) 0

/-- The number of a code word fits its length. -/
theorem code_fits
    (kraft : Kraft table.count 16)
    (fits : length < 16)
    (counted : index < table.count length) :
    (entryAt table length index).code.toNat =
        firstCode table.count length + index ∧
      firstCode table.count length + index < 2 ^ (length + 1) := by
  have bounded := kraft.endCode_le fits
  have grows : 2 ^ (length + 1) ≤ 2 ^ 16 :=
    Nat.pow_le_pow_right (by decide) (by omega)
  rw [endCode] at bounded
  refine ⟨?_, by omega⟩
  rw [entryAt, BitVec.toNat_ofNat, Nat.mod_eq_of_lt (by omega)]

/-- A window begins with a code word just if the definition spells it so. -/
theorem word_prefix_iff
    (kraft : Kraft table.count 16)
    (fits : length < 16)
    (counted : index < table.count length)
    (window : BitVec 16) :
    (entryAt table length index).word <+: bitsOf window ↔
      table.Spells window length index := by
  obtain ⟨code, below⟩ := code_fits kraft fits counted
  have spelled :
      ofBits ((entryAt table length index).word) =
        firstCode table.count length + index := by
    rw [DhtEntry.word, code]
    exact ofBits_toBits below
  have width :
      ((entryAt table length index).word).length = length + 1 := by
    simp [DhtEntry.word, entryAt]
  have compared :=
    shift_eq_code
      (show (entryAt table length index).word.length ≤ 16 by
        rw [width]
        omega)
      window
  rw [← List.isPrefixOf_iff_prefix, ← compared, beq_iff_eq, width, spelled]
  exact matches_iff kraft fits counted

/-- Different code words do not begin each other. -/
theorem word_prefix_unique
    (kraft : Kraft table.count 16)
    {otherLength otherIndex : Nat}
    (fits : length < 16)
    (counted : index < table.count length)
    (otherFits : otherLength < 16)
    (otherCounted : otherIndex < table.count otherLength)
    (begins :
      (entryAt table length index).word <+:
        (entryAt table otherLength otherIndex).word) :
    length = otherLength ∧ index = otherIndex := by
  obtain ⟨value, small, spells⟩ := kraft.exists_begins otherFits otherCounted
  have isValue : (BitVec.ofNat 16 value).toNat = value := by
    rw [BitVec.toNat_ofNat, Nat.mod_eq_of_lt small]
  have otherSpells :
      table.Spells (BitVec.ofNat 16 value) otherLength otherIndex := by
    rw [TableDef.Spells, isValue]
    exact spells
  have otherBegins :=
    (word_prefix_iff kraft otherFits otherCounted _).mpr otherSpells
  have alsoSpells :=
    (word_prefix_iff kraft fits counted _).mp (begins.trans otherBegins)
  exact Begins.unique alsoSpells otherSpells

/-- The code words of a definition are prefix-free. -/
theorem entries_prefixFree
    (kraft : Kraft table.count 16) :
    table.entries.Pairwise fun first second =>
      ¬ first.word <+: second.word ∧ ¬ second.word <+: first.word := by
  rw [TableDef.entries, TableDef.entriesBelow, List.pairwise_flatMap]
  refine ⟨?_, ?_⟩
  · intro length inRange
    have fits := List.mem_range.mp inRange
    rw [TableDef.entriesOf, List.pairwise_map]
    refine List.pairwise_lt_range.imp_of_mem ?_
    intro first second firstIn secondIn earlier
    have firstCounted := List.mem_range.mp firstIn
    have secondCounted := List.mem_range.mp secondIn
    refine ⟨fun begins => ?_, fun begins => ?_⟩
    · have same := word_prefix_unique kraft fits firstCounted fits
        secondCounted begins
      omega
    · have same := word_prefix_unique kraft fits secondCounted fits
        firstCounted begins
      omega
  · refine List.pairwise_lt_range.imp_of_mem ?_
    intro short long shortIn longIn shorter first firstIn second secondIn
    have shortFits := List.mem_range.mp shortIn
    have longFits := List.mem_range.mp longIn
    obtain ⟨index, inRange, rfl⟩ := List.mem_map.mp firstIn
    obtain ⟨other, otherInRange, rfl⟩ := List.mem_map.mp secondIn
    have counted := List.mem_range.mp inRange
    have otherCounted := List.mem_range.mp otherInRange
    refine ⟨fun begins => ?_, fun begins => ?_⟩
    · have same := word_prefix_unique kraft shortFits counted longFits
        otherCounted begins
      omega
    · have same := word_prefix_unique kraft longFits otherCounted shortFits
        counted begins
      omega

/-- A lookup that no entry matches returns zero. -/
theorem lookup_of_absent
    (kraft : Kraft table.count 16)
    {window : BitVec 16}
    (absent : ∀ entry ∈ table.entries, ¬ entry.word <+: bitsOf window) :
    lookup table.entries window = (0, 0) := by
  have nothing : (table.entries.find? fun entry =>
      window >>> (16 - entry.codeLen) == entry.code) = none := by
    rw [List.find?_eq_none]
    intro entry member isMatch
    refine absent entry member ?_
    obtain ⟨length, index, fits, counted, rfl⟩ := mem_entries.mp member
    exact (word_prefix_iff kraft fits counted window).mpr
      ((matches_iff kraft fits counted).mp (beq_iff_eq.mp isMatch))
  rw [lookup, nothing]

/-- A lookup that an entry matches returns it. -/
theorem lookup_of_word
    (kraft : Kraft table.count 16)
    {window : BitVec 16}
    {entry : DhtEntry}
    (member : entry ∈ table.entries)
    (begins : entry.word <+: bitsOf window) :
    lookup table.entries window = (entry.codeLen, entry.value) := by
  obtain ⟨length, index, fits, counted, rfl⟩ := mem_entries.mp member
  exact lookup_entries kraft
    ((word_prefix_iff kraft fits counted window).mp begins)

/-- Under Kraft's inequality `process` leaves a prefix code. -/
theorem canonical_entries
    (kraft : Kraft table.count 16) :
    Canonical table.entries where
  fit := by
    intro entry member
    obtain ⟨length, index, fits, counted, rfl⟩ := mem_entries.mp member
    obtain ⟨code, below⟩ := code_fits kraft fits counted
    refine ⟨Nat.le_add_left 1 length, fits, ?_⟩
    exact code.trans_lt below
  prefixFree := entries_prefixFree kraft
  found := by
    intro window length value differs
    constructor
    · intro isFound
      by_contra nowhere
      have absent : ∀ entry ∈ table.entries,
          ¬ entry.word <+: bitsOf window := by
        intro entry member begins
        have isEntry := lookup_of_word kraft member begins
        rw [isFound, Prod.mk.injEq] at isEntry
        exact nowhere ⟨entry, member, begins, isEntry.1.symm, isEntry.2.symm⟩
      rw [lookup_of_absent kraft absent, Prod.mk.injEq] at isFound
      exact differs isFound.1.symm
    · rintro ⟨entry, member, begins, rfl, rfl⟩
      exact lookup_of_word kraft member begins
  absent := by
    intro window
    constructor
    · intro notFound entry member begins
      rw [lookup_of_word kraft member begins] at notFound
      obtain ⟨length, index, fits, counted, rfl⟩ := mem_entries.mp member
      exact Nat.succ_ne_zero length notFound
    · intro absent
      rw [lookup_of_absent kraft absent]

end Words

/-! ## The tables of a payload -/

/-- The last definition of each id is left, and other tables are kept. -/
theorem foldl_defineSoftware
    (tables : List TableDef)
    (software : DhtTables)
    (index : Fin 4) :
    tables.foldl defineSoftware software index =
      latestEntries tables (software index) index := by
  induction tables using List.reverseRecOn with
  | nil => rfl
  | append_singleton earlier table inductionHypothesis =>
      rw [List.foldl_append, List.foldl_cons, List.foldl_nil, latestEntries,
        List.reverse_append, List.reverse_singleton, List.singleton_append,
        List.find?_cons]
      by_cases named : tableIdx table.info = .ok index
      · simp [defineSoftware, named]
      · simp only [defineSoftware, named, decide_false]
        exact inductionHypothesis

/--
`process` consumes the payload of well-formed tables exactly, whether it is
given the length of the payload or that of the segment, leaves the last
definition of each id, and each one is a prefix code that `lookup` decodes.
-/
theorem dhtProcess_canonical
    {header : Nat}
    (isHeader : header = 0 ∨ header = 2)
    {tables : List TableDef}
    (legal : ∀ table ∈ tables, table.Legal)
    (small : ∀ table ∈ tables, table.size ≤ 255)
    (kraft : ∀ table ∈ tables, Kraft table.count 16)
    (after : List Byte)
    (software : DhtTables) :
    ∃ defined,
      dhtProcess (payload tables ++ after) ((payload tables).length + header)
          software =
        .ok ((payload tables).length, defined) ∧
        (∀ index,
          defined index = latestEntries tables (software index) index) ∧
        ∀ table ∈ tables, Canonical table.entries := by
  have short : header ≤ 2 := by
    omega
  exact ⟨_, dhtProcess_payload short small legal after software,
    foldl_defineSoftware tables software,
    fun table member => canonical_entries (kraft table member)⟩

/-- A payload of two tables in front of a marker. -/
theorem dhtProcess_canonical_two :
    let tables := [oneSymbol 0x00 5, longSymbol 0x10 7]
    ∃ defined,
      dhtProcess (payload tables ++ [0xFF, 0xDA])
          ((payload tables).length + 2) (fun _ => []) =
        .ok ((payload tables).length, defined) ∧
        (∀ index, defined index = latestEntries tables [] index) ∧
        ∀ table ∈ tables, Canonical table.entries := by
  have wellFormed :
      ∀ table ∈ [oneSymbol 0x00 5, longSymbol 0x10 7], table.WellFormed := by
    simp only [List.mem_cons, List.not_mem_nil, or_false]
    rintro table (rfl | rfl)
    · exact oneSymbol_wellFormed 0x00 5
    · exact longSymbol_wellFormed 0x10 7
  exact dhtProcess_canonical (.inr rfl)
    (by simp [TableDef.Legal, oneSymbol, longSymbol, tableIdx])
    (fun table member => (wellFormed table member).small)
    (fun table member => (wellFormed table member).kraft)
    [0xFF, 0xDA] fun _ => []

end CoreJpeg.Software
