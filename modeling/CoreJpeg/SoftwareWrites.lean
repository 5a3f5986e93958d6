import CoreJpeg.SoftwareReads

namespace CoreJpeg.Software

open SoftwareJpegDecoder

/-!
# Where does `jpeg_dht::process` write?

The index of an entry is the running sum of sixteen counts of the source, and
the arrays of a table have 255 entries.  This module follows the loops over
whatever bytes lie behind the pointer, records every store, and shows for
which bytes all stores stay inside the arrays.
-/

/-- The stores of an iteration to `code`, `code_len` and `value`. -/
structure EntryWrite where
  table : Fin 4
  entry : Nat
  stored : DhtEntry
  deriving Repr, DecidableEq

/-- The variables of the loops over the symbols, with the stores so far. -/
structure Storing where
  buf : Nat
  code : BitVec 16
  entry : Nat
  writes : List EntryWrite
  deriving Repr, DecidableEq

section Loops

variable (memory : Nat → Byte) (table : Fin 4)

/-- The loop over the symbols of one code length. -/
def storeLength (codeLen : Nat) : Nat → Storing → Storing
  | 0, s => s
  | symbols + 1, s =>
      storeLength codeLen symbols {
        buf := s.buf + 1
        code := s.code + 1
        entry := s.entry + 1
        writes := s.writes ++ [{
          table := table
          entry := s.entry
          stored := {
            code := s.code, codeLen := codeLen, value := memory s.buf } }] }

/-- The loop over the code lengths. -/
def storeLengths : (codeLen : Nat) → List Byte → Storing → Storing
  | _, [], s => s
  | codeLen, count :: counts, s =>
      let filled := storeLength memory table codeLen count.toNat s
      storeLengths (codeLen + 1) counts
        { filled with code := filled.code <<< 1 }

/-- `symb_count` of the table at a place. -/
def storedCounts (buf : Nat) : List Byte :=
  (List.range 16).map fun x => memory (buf + 1 + x)

/-- The body of the loop over the tables, behind the choice of the table. -/
def storeTable (buf : Nat) : Storing :=
  storeLengths memory table 1 (storedCounts memory buf)
    { buf := buf + 17, code := 0, entry := 0, writes := [] }

/-- The stores of the loop over the tables; a bad table byte ends it. -/
def storeTables (len : Nat) : (iterations consumed : Nat) → List EntryWrite
  | 0, _ => []
  | iterations + 1, consumed =>
      if consumed + 17 ≤ len then
        match tableIdx (memory consumed) with
        | .error _ => []
        | .ok table =>
            let stored := storeTable memory table consumed
            stored.writes ++ storeTables len iterations stored.buf
      else []

/-- All stores of `jpeg_dht::process` to the arrays of its tables. -/
def dhtWrites (len : Nat) : List EntryWrite :=
  storeTables memory len len 0

/-- Every store goes to one of the 255 entries of the selected table. -/
def WritesInside (len : Nat) : Prop :=
  ∀ write ∈ dhtWrites memory len, write.entry < 255

/-- The symbols that the counts of a table announce. -/
def announcedSymbols (buf : Nat) : Nat :=
  ((storedCounts memory buf).map BitVec.toNat).sum

/-- No table that the loop comes to announces more than 255 symbols. -/
def TablesFit (len : Nat) : (iterations consumed : Nat) → Prop
  | 0, _ => True
  | iterations + 1, consumed =>
      consumed + 17 ≤ len →
        ∀ table, tableIdx (memory consumed) = .ok table →
          announcedSymbols memory consumed ≤ 255 ∧
            TablesFit len iterations
              (consumed + 17 + announcedSymbols memory consumed)

end Loops

/-! ## The entries of a table -/

section Entries

variable {memory : Nat → Byte} {table : Fin 4}

/-- The entries stored so far are numbered from zero on. -/
def Storing.Numbered (s : Storing) : Prop :=
  s.writes.map EntryWrite.entry = List.range s.entry

/-- The loop over the symbols numbers their entries. -/
theorem storeLength_numbered
    {codeLen symbols : Nat} {s : Storing}
    (numbered : s.Numbered) :
    (storeLength memory table codeLen symbols s).Numbered ∧
      (storeLength memory table codeLen symbols s).entry =
        s.entry + symbols ∧
      (storeLength memory table codeLen symbols s).buf = s.buf + symbols := by
  induction symbols generalizing s with
  | zero =>
      exact ⟨numbered, rfl, rfl⟩
  | succ symbols inductionHypothesis =>
      obtain ⟨later, entry, buf⟩ := inductionHypothesis (s := {
          buf := s.buf + 1
          code := s.code + 1
          entry := s.entry + 1
          writes := s.writes ++ [{
            table := table
            entry := s.entry
            stored := {
              code := s.code, codeLen := codeLen
              value := memory s.buf } }] })
        (by
          unfold Storing.Numbered at numbered ⊢
          simp [numbered, List.range_succ])
      refine ⟨later, ?_, ?_⟩
      · rw [storeLength, entry, Nat.add_assoc, Nat.add_comm 1]
      · rw [storeLength, buf, Nat.add_assoc, Nat.add_comm 1]

/-- The loop over the lengths numbers the entries of all symbols. -/
theorem storeLengths_numbered
    {codeLen : Nat} {counts : List Byte} {s : Storing}
    (numbered : s.Numbered) :
    (storeLengths memory table codeLen counts s).Numbered ∧
      (storeLengths memory table codeLen counts s).entry =
        s.entry + (counts.map BitVec.toNat).sum ∧
      (storeLengths memory table codeLen counts s).buf =
        s.buf + (counts.map BitVec.toNat).sum := by
  induction counts generalizing codeLen s with
  | nil =>
      exact ⟨numbered, rfl, rfl⟩
  | cons count counts inductionHypothesis =>
      obtain ⟨filled, filledEntry, filledBuf⟩ :=
        @storeLength_numbered memory table codeLen count.toNat s numbered
      obtain ⟨later, entry, buf⟩ :=
        @inductionHypothesis (codeLen + 1)
          { storeLength memory table codeLen count.toNat s with
            code := (storeLength memory table codeLen
              count.toNat s).code <<< 1 }
          filled
      refine ⟨later, ?_, ?_⟩
      · rw [storeLengths, entry, filledEntry]
        simp [Nat.add_assoc]
      · rw [storeLengths, buf, filledBuf]
        simp [Nat.add_assoc]

/-- A table's stores go to as many entries as its counts announce. -/
theorem storeTable_entries (buf : Nat) :
    (storeTable memory table buf).writes.map EntryWrite.entry =
        List.range (announcedSymbols memory buf) ∧
      (storeTable memory table buf).buf =
        buf + 17 + announcedSymbols memory buf := by
  obtain ⟨numbered, entry, atEnd⟩ :=
    @storeLengths_numbered memory table 1 (storedCounts memory buf)
      { buf := buf + 17, code := 0, entry := 0, writes := [] } rfl
  rw [Nat.zero_add] at entry
  refine ⟨?_, atEnd⟩
  rw [storeTable, numbered, entry, announcedSymbols]

/-- A table stays inside its arrays when it announces at most 255 symbols. -/
theorem storeTable_inside_iff {buf : Nat} :
    (∀ write ∈ (storeTable memory table buf).writes, write.entry < 255) ↔
      announcedSymbols memory buf ≤ 255 := by
  have entries := (@storeTable_entries memory table buf).1
  have inside : (∀ write ∈ (storeTable memory table buf).writes,
        write.entry < 255) ↔
      ∀ entry ∈ List.range (announcedSymbols memory buf), entry < 255 := by
    rw [← entries]
    simp
  rw [inside]
  simp only [List.mem_range]
  constructor
  · intro below
    by_contra many
    exact absurd (below 255 (by omega)) (by omega)
  · intro few entry isEntry
    omega

/-- The stores of the loop stay inside when every table fits. -/
theorem storeTables_inside_iff {len iterations consumed : Nat} :
    (∀ write ∈ storeTables memory len iterations consumed,
        write.entry < 255) ↔
      TablesFit memory len iterations consumed := by
  induction iterations generalizing consumed with
  | zero =>
      simp [storeTables, TablesFit]
  | succ iterations inductionHypothesis =>
      rw [storeTables, TablesFit]
      by_cases header : consumed + 17 ≤ len
      · rw [if_pos header]
        cases isTable : tableIdx (memory consumed) with
        | error fault =>
            simp
        | ok table =>
            simp only [List.forall_mem_append, storeTable_inside_iff,
              storeTable_entries, inductionHypothesis, Except.ok.injEq,
              forall_eq', header, forall_const]
      · simp [header]

end Entries

/--
Whatever bytes lie behind the pointer, `process` writes only inside the arrays
of the tables it selects exactly when no table that it comes to announces more
than 255 symbols.
-/
theorem writes_inside_iff
    (memory : Nat → Byte)
    (len : Nat) :
    WritesInside memory len ↔ TablesFit memory len len 0 :=
  storeTables_inside_iff

/-- A table of 255 codes of eight bits and one of nine, with its symbols. -/
def fullTable (place : Nat) : Byte :=
  if place = 8 then 255 else if place = 9 then 1 else 0

/-- The last of 256 symbols is stored behind the arrays of its table. -/
theorem symbol_256_behind_table :
    ¬ ∀ memory len, WritesInside memory len := by
  intro claimed
  have fits := storeTables_inside_iff.mp (claimed fullTable (17 + 256))
  exact absurd (fits (by decide) 0 (by decide)).1 (by decide)

/-! ## The transcription with faults -/

section Faults

variable {data : List Byte}

/-- The bytes of a buffer; what lies behind them does not matter. -/
def memoryOf (data : List Byte) (place : Nat) : Byte := data.getD place 0

theorem announcedSymbols_memoryOf (buf : Nat) :
    announcedSymbols (memoryOf data) buf = symbolTotal data buf := by
  rw [announcedSymbols, storedCounts, symbolTotal, List.map_map]
  rfl

/-- A segment with no bad table fits the arrays. -/
theorem tablesFit_of_fault_none
    {limit len iterations consumed : Nat}
    (sound : tablesFault data limit len iterations consumed = none) :
    TablesFit (memoryOf data) len iterations consumed := by
  induction iterations generalizing consumed with
  | zero =>
      trivial
  | succ iterations inductionHypothesis =>
      intro header table isTable
      rw [tablesFault, if_pos header] at sound
      rw [show data.getD consumed 0 = memoryOf data consumed from rfl,
        isTable] at sound
      simp only at sound
      split_ifs at sound with behind many
      rw [announcedSymbols_memoryOf]
      exact ⟨Nat.not_lt.mp many, inductionHypothesis sound⟩

/-- A `process` that ends well has written inside its tables. -/
theorem writesInside_of_dhtProcess
    {len : Nat} {tables : DhtTables} {result : Nat × DhtTables}
    (payload : len ≤ data.length)
    (isResult : dhtProcess data len tables = .ok result) :
    WritesInside (memoryOf data) len := by
  refine (storeTables_inside_iff).mpr
    (@tablesFit_of_fault_none _ data.length _ _ _ ?_)
  cases bad : tablesFault data data.length len len 0 with
  | none => rfl
  | some fault =>
      have fails :=
        (@processTables_fault data len len 0 tables fault payload).mpr bad
      rw [dhtProcess, fails] at isResult
      cases isResult

end Faults

end CoreJpeg.Software
