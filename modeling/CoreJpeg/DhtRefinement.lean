import CoreJpeg.DhtHistory
import CoreJpeg.SoftwareTables

namespace CoreJpeg.JpegDht

open CanonicalCode Clocked Software

/-!
# Do the circuit and the software find the same symbols?

`jpeg_dht::process` keeps an entry for each code word of a definition and
`jpeg_dht::lookup` scans them.  This module shows which entries a definition
leaves in software, and that both decoders find the same length and symbol for
every code word when each table is defined once behind a reset.
-/

/-! ## The entries of a definition -/

namespace TableDef

/-- The entries of one code length. -/
def entriesOf (table : TableDef) (length : Nat) : List DhtEntry :=
  (List.range (table.count length)).map fun index =>
    { code := BitVec.ofNat 16 (firstCode table.count length + index)
      codeLen := length + 1
      value := table.symbols.getD (offset table.count length + index) 0 }

/-- The entries of the code lengths below one. -/
def entriesBelow (table : TableDef) (length : Nat) : List DhtEntry :=
  (List.range length).flatMap table.entriesOf

/-- The entries of a definition. -/
def entries (table : TableDef) : List DhtEntry := table.entriesBelow 16

variable {table : TableDef} {length index : Nat}

theorem entriesBelow_succ :
    table.entriesBelow (length + 1) =
      table.entriesBelow length ++ table.entriesOf length := by
  simp [entriesBelow, List.range_succ]

@[simp] theorem length_entriesBelow :
    (table.entriesBelow length).length = offset table.count length := by
  induction length with
  | zero =>
      rfl
  | succ length inductionHypothesis =>
      rw [entriesBelow_succ, List.length_append, inductionHypothesis,
        offset_succ]
      simp [entriesOf]

end TableDef

/-! ## What `process` leaves -/

section Process

variable {table : TableDef} {data before after : List Byte}

/-- The bytes of a definition inside a buffer. -/
theorem getD_inside
    (split : data = before ++ (table.bytes ++ after))
    {number : Nat} {byte : Byte}
    (isByte : table.bytes[number]? = some byte) :
    data.getD (before.length + number) 0 = byte := by
  have inside := (List.getElem?_eq_some_iff.mp isByte).1
  rw [split, List.getD_eq_getElem?_getD,
    List.getElem?_append_right (by omega), Nat.add_sub_cancel_left,
    List.getElem?_append_left inside, isByte]
  rfl

theorem length_inside
    (split : data = before ++ (table.bytes ++ after)) :
    before.length + (17 + table.size) ≤ data.length := by
  rw [split]
  simp

theorem symbCount_inside
    (split : data = before ++ (table.bytes ++ after)) :
    symbCount data (before.length + 1) 16 = .ok table.counts := by
  have fits := length_inside split
  rw [symbCount_eq (by omega)]
  congr 1
  refine List.ext_getElem (by simp [table.sixteen]) ?_
  intro number inRange inCounts
  have isCount := table.bytes_count number (by simpa using inRange)
  have isByte := getD_inside split isCount
  rw [List.getElem_map, List.getElem_range, Nat.add_assoc, isByte]
  simp [inCounts]

theorem code_shift (number : Nat) :
    BitVec.ofNat 16 number <<< 1 = BitVec.ofNat 16 (2 * number) := by
  apply BitVec.eq_of_toNat_eq
  simp [Nat.shiftLeft_eq]
  omega

/-- The entries of one code length are read. -/
theorem fillLength_inside
    (split : data = before ++ (table.bytes ++ after))
    {length : Nat}
    (inside : length < 16) :
    fillLength data (length + 1) (table.count length) {
        buf := before.length + 17 + offset table.count length
        code := BitVec.ofNat 16 (firstCode table.count length)
        entries := table.entriesBelow length } =
      .ok {
        buf := before.length + 17 + offset table.count (length + 1)
        code := BitVec.ofNat 16 (endCode table.count length)
        entries := table.entriesBelow (length + 1) } := by
  have fits := length_inside split
  have atMost := CanonicalCode.offset_le table.count
    (show length + 1 ≤ 16 from inside)
  rw [TableDef.offset_sixteen, offset_succ] at atMost
  rw [fillLength_eq (by simp only; omega)]
  have entries :
      lengthEntries data (length + 1) (table.count length) {
          buf := before.length + 17 + offset table.count length
          code := BitVec.ofNat 16 (firstCode table.count length)
          entries := table.entriesBelow length } =
        table.entriesOf length := by
    refine List.map_congr_left ?_
    intro index inRange
    have counted := List.mem_range.mp inRange
    have symbol :=
      getD_inside split
        (table.bytes_symbol (offset table.count length + index)
          (by omega))
    rw [← symbol, BitVec.ofNat_add]
    simp [Nat.add_assoc]
  rw [entries, TableDef.entriesBelow_succ, offset_succ, endCode,
    BitVec.ofNat_add, Nat.add_assoc (before.length + 17)]

/-- The code lengths from one on are read. -/
theorem fillLengths_inside
    (split : data = before ++ (table.bytes ++ after))
    {counts : List Byte}
    {length : Nat}
    (isRest : table.counts.drop length = counts)
    (atMost : length ≤ 16) :
    ∃ code,
      fillLengths data (length + 1) counts {
          buf := before.length + 17 + offset table.count length
          code := BitVec.ofNat 16 (firstCode table.count length)
          entries := table.entriesBelow length } =
        .ok {
          buf := before.length + (17 + table.size)
          code := code
          entries := table.entries } := by
  induction counts generalizing length with
  | nil =>
      have atEnd : length = 16 := by
        rw [List.drop_eq_nil_iff, table.sixteen] at isRest
        omega
      subst atEnd
      rw [TableDef.offset_sixteen, Nat.add_assoc]
      exact ⟨_, rfl⟩
  | cons count counts inductionHypothesis =>
      have inside : length < table.counts.length := by
        by_contra beyond
        rw [List.drop_of_length_le (by omega)] at isRest
        cases isRest
      rw [List.drop_eq_getElem_cons inside] at isRest
      obtain ⟨isCount, isRest⟩ := List.cons.inj isRest
      have counted : count.toNat = table.count length := by
        simp [TableDef.count, inside, isCount]
      rw [table.sixteen] at inside
      obtain ⟨code, later⟩ := inductionHypothesis isRest (by omega)
      refine ⟨code, ?_⟩
      rw [fillLengths, counted, fillLength_inside split inside]
      simp only [bind, Except.bind, code_shift]
      exact later

/-- The software tables behind a definition. -/
def defineSoftware (tables : DhtTables) (table : TableDef) : DhtTables :=
  fun index =>
    if tableIdx table.info = .ok index then table.entries else tables index

/-- The ids that the standard and `DHT_TABLE_*` know. -/
def TableDef.Legal (table : TableDef) : Prop :=
  ∃ index, tableIdx table.info = .ok index

theorem processTable_inside
    (split : data = before ++ (table.bytes ++ after))
    (small : table.size ≤ 255)
    (legal : table.Legal)
    (tables : DhtTables) :
    processTable data before.length tables =
      .ok (before.length + (17 + table.size),
        defineSoftware tables table) := by
  have fits := length_inside split
  have isInfo := getD_inside split table.bytes_zero
  rw [Nat.add_zero] at isInfo
  obtain ⟨index, isIndex⟩ := legal
  obtain ⟨code, filled⟩ :=
    fillLengths_inside split rfl (Nat.zero_le 16)
  have fromZero :
      fillLengths data 1 table.counts
          { buf := before.length + 17, code := 0, entries := [] } =
        .ok {
          buf := before.length + (17 + table.size)
          code := code
          entries := table.entries } := filled
  rw [processTable, byteAt_eq (by omega), isInfo]
  have room : table.entries.length ≤ 255 := by
    rw [TableDef.entries, TableDef.length_entriesBelow,
      TableDef.offset_sixteen]
    exact small
  simp only [bind, Except.bind, isIndex, symbCount_inside split, fromZero,
    if_pos room]
  congr 2
  funext other
  simp [defineSoftware, isIndex, eq_comm]

end Process

/-- All definitions of a payload are processed. -/
theorem processTables_payload
    {header : Nat}
    (short : header ≤ 2)
    {tables : List TableDef}
    (small : ∀ table ∈ tables, table.size ≤ 255)
    (legal : ∀ table ∈ tables, table.Legal)
    {data before after : List Byte}
    (split : data = before ++ (payload tables ++ after))
    {len iterations : Nat}
    (isLen : len = before.length + (payload tables).length + header)
    (enough : tables.length ≤ iterations)
    (software : DhtTables) :
    processTables data len iterations before.length software =
      .ok (before.length + (payload tables).length,
        tables.foldl defineSoftware software) := by
  induction tables generalizing before iterations software with
  | nil =>
      have atEnd : len = before.length + header := by
        simpa [payload] using isLen
      cases iterations with
      | zero => rfl
      | succ iterations =>
          rw [processTables, if_neg (by omega)]
          rfl
  | cons table rest inductionHypothesis =>
      have here : data = before ++ (table.bytes ++ (payload rest ++ after)) := by
        rw [split]
        simp [payload]
      have sizes : (payload (table :: rest)).length =
          17 + table.size + (payload rest).length := by
        simp [payload]
      have isNext : before.length + (17 + table.size) =
          (before ++ table.bytes).length := by
        simp
      cases iterations with
      | zero =>
          simp at enough
      | succ iterations =>
          have later := inductionHypothesis
            (fun other member => small other (List.mem_cons_of_mem _ member))
            (fun other member => legal other (List.mem_cons_of_mem _ member))
            (show data = (before ++ table.bytes) ++ (payload rest ++ after) by
              rw [here]
              simp)
            (show len = (before ++ table.bytes).length +
                (payload rest).length + header by
              rw [isLen, sizes, ← isNext]
              omega)
            (Nat.le_of_succ_le_succ enough) (defineSoftware software table)
          rw [processTables, if_pos (by omega),
            processTable_inside here (small table List.mem_cons_self)
              (legal table List.mem_cons_self) software]
          simp only [bind, Except.bind, isNext]
          rw [later, sizes, ← isNext]
          simp only [List.foldl_cons, Nat.add_assoc]

theorem length_payload (tables : List TableDef) :
    tables.length ≤ (payload tables).length := by
  induction tables with
  | nil =>
      exact Nat.zero_le _
  | cons first rest inductionHypothesis =>
      have split : payload (first :: rest) = first.bytes ++ payload rest := by
        simp [payload]
      rw [split, List.length_append, TableDef.length_bytes, List.length_cons]
      omega

/-- `process` consumes the payload and leaves its definitions. -/
theorem dhtProcess_payload
    {header : Nat}
    (short : header ≤ 2)
    {tables : List TableDef}
    (small : ∀ table ∈ tables, table.size ≤ 255)
    (legal : ∀ table ∈ tables, table.Legal)
    (after : List Byte)
    (software : DhtTables) :
    dhtProcess (payload tables ++ after) ((payload tables).length + header)
        software =
      .ok ((payload tables).length,
        tables.foldl defineSoftware software) := by
  have processed :=
    processTables_payload short small legal
      (List.nil_append (payload tables ++ after)).symm
      (show (payload tables).length + header = _ by simp)
      ((length_payload tables).trans (Nat.le_add_right _ header)) software
  simpa [dhtProcess] using processed

/--
The tables that `process` leaves behind a segment.  The software decoder calls
it with the length of the payload, the C model with that of the segment.
-/
def readSegment (header : Nat) (tables : DhtTables)
    (segment : List TableDef) : Except Fault DhtTables := do
  let processed ←
    dhtProcess (payload segment) ((payload segment).length + header) tables
  .ok processed.2

/-- The tables behind consecutive segments. -/
def readSegments (header : Nat) (segments : List (List TableDef)) :
    Except Fault DhtTables :=
  segments.foldlM (readSegment header) fun _ => []

theorem readSegment_eq
    {header : Nat}
    (short : header ≤ 2)
    {tables : List TableDef}
    (sized : ∀ table ∈ tables, table.Sized)
    (legal : ∀ table ∈ tables, table.Legal)
    (software : DhtTables) :
    readSegment header software tables =
      .ok (tables.foldl defineSoftware software) := by
  have processed :=
    dhtProcess_payload short (fun table member => (sized table member).small)
      legal [] software
  rw [List.append_nil] at processed
  rw [readSegment, processed]
  rfl

theorem foldlM_readSegment
    {header : Nat}
    (short : header ≤ 2)
    {segments : List (List TableDef)}
    (sized : ∀ table ∈ segments.flatten, table.Sized)
    (legal : ∀ table ∈ segments.flatten, table.Legal)
    (software : DhtTables) :
    segments.foldlM (readSegment header) software =
      .ok (segments.flatten.foldl defineSoftware software) := by
  induction segments generalizing software with
  | nil =>
      rfl
  | cons segment rest inductionHypothesis =>
      rw [List.flatten_cons] at sized legal
      have here := readSegment_eq short
        (fun table member => sized table (List.mem_append_left _ member))
        (fun table member => legal table (List.mem_append_left _ member))
        software
      have later := inductionHypothesis
        (fun table member => sized table (List.mem_append_right _ member))
        (fun table member => legal table (List.mem_append_right _ member))
        (segment.foldl defineSoftware software)
      rw [List.foldlM_cons, here, List.flatten_cons, List.foldl_append]
      exact later

/-- Only the latest definition of a table is in the software tables. -/
theorem defineSoftware_latest
    {past later : List TableDef} {table : TableDef} {index : Fin 4}
    (isIndex : tableIdx table.info = .ok index)
    (others : ∀ other ∈ later, tableIdx other.info ≠ .ok index)
    (software : DhtTables) :
    (past ++ table :: later).foldl defineSoftware software index =
      table.entries := by
  induction later using List.reverseRecOn with
  | nil =>
      simp [defineSoftware, isIndex]
  | append_singleton later other inductionHypothesis =>
      have kept := inductionHypothesis fun other member =>
        others other (by simp [member])
      have apart := others other (by simp)
      rw [← List.cons_append, ← List.append_assoc, List.foldl_append,
        List.foldl_cons, List.foldl_nil, defineSoftware, if_neg apart]
      exact kept

/-! ## What `lookup` finds -/

section Lookup

variable {table : TableDef} {length index : Nat} {window : BitVec 16}

theorem mem_entries :
    ∀ {entry : DhtEntry}, entry ∈ table.entries ↔
      ∃ length index, length < 16 ∧ index < table.count length ∧
        entry =
          { code := BitVec.ofNat 16 (firstCode table.count length + index)
            codeLen := length + 1
            value :=
              table.symbols.getD (offset table.count length + index) 0 } := by
  intro entry
  simp only [TableDef.entries, TableDef.entriesBelow, TableDef.entriesOf,
    List.mem_flatMap, List.mem_map, List.mem_range]
  constructor
  · rintro ⟨length, fits, index, counted, rfl⟩
    exact ⟨length, index, fits, counted, rfl⟩
  · rintro ⟨length, index, fits, counted, rfl⟩
    exact ⟨length, fits, index, counted, rfl⟩

/-- The comparison of `lookup` asks whether the window begins with a code. -/
theorem matches_iff
    (kraft : Kraft table.count 16)
    (fits : length < 16)
    (counted : index < table.count length) :
    window >>> (16 - (length + 1)) =
        BitVec.ofNat 16 (firstCode table.count length + index) ↔
      table.Spells window length index := by
  have bounded := kraft.endCode_le fits
  have grows : 2 ^ (length + 1) ≤ 2 ^ 16 :=
    Nat.pow_le_pow_right (by omega) (by omega)
  rw [endCode] at bounded
  have code :
      (BitVec.ofNat 16 (firstCode table.count length + index)).toNat =
        firstCode table.count length + index := by
    rw [BitVec.toNat_ofNat, Nat.mod_eq_of_lt (by omega)]
  rw [← BitVec.toNat_inj, BitVec.toNat_ushiftRight, code,
    Nat.shiftRight_eq_div_pow]
  exact ⟨fun spelled => ⟨fits, counted, spelled⟩, fun spells => spells.spelled⟩

/-- An element that alone meets a condition is the first one to do so. -/
theorem find?_of_unique
    {Item : Type} {items : List Item} {item : Item} {meets : Item → Bool}
    (member : item ∈ items)
    (here : meets item = true)
    (unique : ∀ other ∈ items, meets other = true → other = item) :
    items.find? meets = some item := by
  cases found : items.find? meets with
  | none =>
      have nothing := List.find?_eq_none.mp found item member
      exact absurd here nothing
  | some first =>
      have same :=
        unique first (List.mem_of_find?_eq_some found)
          (List.find?_some found)
      rw [same]

/-- The software finds the code word that a window begins with. -/
theorem lookup_entries
    (kraft : Kraft table.count 16)
    (spells : table.Spells window length index) :
    lookup table.entries window =
      (length + 1,
        table.symbols.getD (offset table.count length + index) 0) := by
  have found :
      (table.entries.find? fun entry =>
        window >>> (16 - entry.codeLen) == entry.code) =
      some {
        code := BitVec.ofNat 16 (firstCode table.count length + index)
        codeLen := length + 1
        value := table.symbols.getD (offset table.count length + index) 0 } := by
    refine find?_of_unique ?_ ?_ ?_
    · exact mem_entries.mpr
        ⟨length, index, spells.fits, spells.counted, rfl⟩
    · exact beq_iff_eq.mpr
        ((matches_iff kraft spells.fits spells.counted).mpr spells)
    · intro other member isMatch
      obtain ⟨otherLength, otherIndex, fits, counted, rfl⟩ :=
        mem_entries.mp member
      have alsoSpells :=
        (matches_iff kraft fits counted).mp (beq_iff_eq.mp isMatch)
      obtain ⟨rfl, rfl⟩ := Begins.unique spells alsoSpells
      rfl
  rw [lookup, found]

end Lookup

/-! ## Tables that are defined once -/

/-- Definitions of distinct legal tables, each of 1 to 255 symbols. -/
structure OnceEach (tables : List TableDef) : Prop where
  legal : ∀ table ∈ tables, table.Legal
  distinct : (tables.map TableDef.info).Nodup
  wellFormed : ∀ table ∈ tables, table.WellFormed

/-- The id of a table index. -/
def legalInfo : Fin 4 → Byte
  | 0 => 0x00
  | 1 => 0x10
  | 2 => 0x01
  | 3 => 0x11

theorem legalInfo_of_tableIdx
    {info : Byte} {index : Fin 4}
    (isIndex : tableIdx info = .ok index) :
    info = legalInfo index := by
  grind [tableIdx, legalInfo]

theorem cfgTable_legalInfo :
    ∀ index : Fin 4,
      cfgTable (legalInfo index) = lookupTable (.ofFin index) := by
  decide

theorem lookupTable_injective : Function.Injective lookupTable := by
  unfold Function.Injective
  decide

/-- Legal ids select different tables of the circuit. -/
theorem info_eq_of_cfgTable
    {table other : TableDef}
    (legal : table.Legal)
    (alsoLegal : other.Legal)
    (same : cfgTable table.info = cfgTable other.info) :
    table.info = other.info := by
  obtain ⟨index, isIndex⟩ := legal
  obtain ⟨otherIndex, isOther⟩ := alsoLegal
  have isInfo := legalInfo_of_tableIdx isIndex
  have isOtherInfo := legalInfo_of_tableIdx isOther
  rw [isInfo, isOtherInfo, cfgTable_legalInfo, cfgTable_legalInfo] at same
  have sameIndex : index = otherIndex :=
    congrArg BitVec.toFin (lookupTable_injective same)
  rw [isInfo, isOtherInfo, sameIndex]

/-- Nothing is left of a table that was not defined. -/
theorem leftEnd_of_others
    {name : TableName} {length : Nat} {past : List TableDef}
    (others : ∀ other ∈ past, cfgTable other.info ≠ name) :
    leftEnd name length past = 0 := by
  induction past using List.reverseRecOn with
  | nil =>
      rfl
  | append_singleton past table inductionHypothesis =>
      have apart := others table (by simp)
      rw [leftEnd_concat, if_neg fun both => apart both.1]
      exact inductionHypothesis fun other member => others other (by simp [member])

theorem length_symbolsOf_le
    {tables : List TableDef}
    (sized : ∀ table ∈ tables, table.Sized) :
    (symbolsOf tables).length ≤ 255 * tables.length := by
  induction tables with
  | nil =>
      exact Nat.zero_le _
  | cons first rest inductionHypothesis =>
      have later := inductionHypothesis fun table member =>
        sized table (List.mem_cons_of_mem _ member)
      have small := (sized first List.mem_cons_self).small
      have split : symbolsOf (first :: rest) =
          first.symbols ++ symbolsOf rest := by
        simp [symbolsOf]
      rw [TableDef.size] at small
      rw [split, List.length_append, List.length_cons]
      omega

/-- There are four ids. -/
theorem OnceEach.length_le
    {tables : List TableDef}
    (once : OnceEach tables) :
    tables.length ≤ 4 := by
  have legal :
      tables.map TableDef.info ⊆ (List.finRange 4).map legalInfo := by
    intro info member
    obtain ⟨table, inTables, rfl⟩ := List.mem_map.mp member
    obtain ⟨index, isIndex⟩ := once.legal table inTables
    exact List.mem_map.mpr
      ⟨index, List.mem_finRange index, (legalInfo_of_tableIdx isIndex).symm⟩
  have atMost := (once.distinct.subperm legal).length_le
  simpa using atMost

/-- The other definitions are of other tables. -/
theorem OnceEach.others
    {past later : List TableDef} {table : TableDef}
    (once : OnceEach (past ++ table :: later)) :
    ∀ other ∈ past ++ later, cfgTable other.info ≠ cfgTable table.info := by
  intro other member same
  have inTables : other ∈ past ++ table :: later := by
    rcases List.mem_append.mp member with before | behind
    · exact List.mem_append_left _ before
    · exact List.mem_append_right _ (List.mem_cons_of_mem _ behind)
  have sameInfo :=
    info_eq_of_cfgTable (once.legal other inTables)
      (once.legal table (by simp)) same
  have distinct := once.distinct
  rw [List.map_append, List.map_cons, List.nodup_middle, List.nodup_cons,
    ← List.map_append, ← sameInfo] at distinct
  exact distinct.1 (List.mem_map_of_mem member)

/-- Tables that are defined once are kept. -/
theorem OnceEach.keeps
    {past later : List TableDef} {table : TableDef}
    (once : OnceEach (past ++ table :: later)) :
    Keeps past table later := by
  have inPast :
      ∀ other ∈ past, cfgTable other.info ≠ cfgTable table.info :=
    fun other member => once.others other (List.mem_append_left _ member)
  refine ⟨?_, ?_⟩
  · intro length _ _ _
    rw [leftEnd_of_others inPast]
    exact Nat.zero_le _
  · intro number inside
    have sized :
        ∀ other ∈ past ++ table :: later, other.Sized :=
      fun other member => (once.wellFormed other member).toSized
    have fits := length_symbolsOf_le sized
    have atMost := once.length_le
    have split :
        symbolsOf (past ++ table :: later) =
          symbolsOf past ++ (table.symbols ++ symbolsOf later) := by
      simp [symbolsOf]
    rw [TableDef.size] at inside
    rw [lastAt_of_fits (by omega) (by rw [split]; simp; omega), split]
    rw [List.getD_eq_getElem?_getD, List.getElem?_append_right (by omega),
      Nat.add_sub_cancel_left, List.getElem?_append_left inside,
      List.getD_eq_getElem?_getD]

/-! ## The result -/

/-- The tables of the software when each one is defined once. -/
theorem OnceEach.readSegments
    {header : Nat}
    (short : header ≤ 2)
    {segments : List (List TableDef)}
    (once : OnceEach segments.flatten) :
    ∃ software, readSegments header segments = .ok software ∧
      ∀ table ∈ segments.flatten, ∀ index,
        tableIdx table.info = .ok index → software index = table.entries := by
  refine ⟨_, foldlM_readSegment short
    (fun table member => (once.wellFormed table member).toSized)
    once.legal _, ?_⟩
  intro table member index isIndex
  obtain ⟨past, later, split⟩ := List.append_of_mem member
  rw [split] at once
  rw [split]
  refine defineSoftware_latest isIndex ?_ _
  intro other inLater isOther
  refine once.others other (List.mem_append_right _ inLater) ?_
  rw [legalInfo_of_tableIdx isIndex, legalInfo_of_tableIdx isOther]

/--
Behind a reset and segments that define each table once, a lookup that begins
with a code word shows two cycles later what the software finds.
-/
theorem lookup_refines_software
    (s : State)
    (resetting : Input)
    (segments : List (List TableDef))
    (once : OnceEach segments.flatten)
    (cycles : List Input)
    (complete :
      (run System.step (.fresh s resetting segments) cycles).left = [])
    (header : Nat)
    (short : header ≤ 2) :
    ∃ software, readSegments header segments = .ok software ∧
      ∀ table ∈ segments.flatten, ∀ index,
        tableIdx table.info = .ok index →
          ∀ window length number, table.Spells window length number →
            ∀ first second,
              let after :=
                (run System.step (.fresh s resetting segments) cycles).lookup
                  (.ofFin index) window first second
              ((lookupWidthO after.dht).toNat, lookupValueO after.dht) =
                  lookup (software index) window ∧
                lookupValidO after.dht = first.lookupReq := by
  obtain ⟨software, isRead, entries⟩ := once.readSegments short
  refine ⟨software, isRead, ?_⟩
  intro table member index isIndex window length number spells first second
  have wellFormed := once.wellFormed table member
  obtain ⟨past, later, split⟩ := List.append_of_mem member
  obtain ⟨ram, isStore⟩ :=
    store_loaded
      (fun table member => (once.wellFormed table member).toSized) s
      resetting complete
  have named : cfgTable table.info = lookupTable (.ofFin index) := by
    rw [legalInfo_of_tableIdx isIndex, cfgTable_legalInfo]
  have kraft : ∀ other ∈ past ++ [table], Kraft other.count 16 := by
    intro other inPast
    refine (once.wellFormed other ?_).kraft
    rw [split]
    simp only [List.mem_append, List.mem_singleton] at inPast
    rcases inPast with before | isTable
    · simp [before]
    · simp [isTable]
  rw [split] at once isStore
  have found :=
    once.keeps.find ram
      (fun other inLater =>
        once.others other (List.mem_append_right _ inLater))
      kraft spells
  rw [← isStore, named,
    ← shown_lookup complete (.ofFin index) window first second] at found
  have width :=
    congrArg (fun shown : BitVec 5 × Byte => shown.1.toNat) found
  have value := congrArg (fun shown : BitVec 5 × Byte => shown.2) found
  have fits := spells.fits
  refine ⟨?_, lookupValidO_lookup complete _ _ _ _⟩
  rw [entries table member index isIndex,
    lookup_entries wellFormed.kraft spells]
  refine Prod.ext ?_ value
  refine width.trans ?_
  simp only [TableDef.entry, BitVec.toNat_ofNat]
  omega

/-- Two tables of one segment are found as in software. -/
theorem lookup_refines_software_two :
    ∃ software,
      readSegments 0 [[oneSymbol 0x00 5, longSymbol 0x10 7]] =
          .ok software ∧
        ∀ table ∈ [[oneSymbol 0x00 5, longSymbol 0x10 7]].flatten, ∀ index,
          tableIdx table.info = .ok index →
            ∀ window length number, table.Spells window length number →
              ∀ first second,
                let after :=
                  (run System.step
                    (.fresh cleared offering
                      [[oneSymbol 0x00 5, longSymbol 0x10 7]])
                    (.replicate 576 offering)).lookup (.ofFin index) window
                      first second
                ((lookupWidthO after.dht).toNat, lookupValueO after.dht) =
                    lookup (software index) window ∧
                  lookupValidO after.dht = first.lookupReq :=
  have once : OnceEach [[oneSymbol 0x00 5, longSymbol 0x10 7]].flatten := {
    legal := by
      simp [TableDef.Legal, oneSymbol, longSymbol, tableIdx]
    distinct := by simp [oneSymbol, longSymbol]
    wellFormed := by simp [oneSymbol_wellFormed, longSymbol_wellFormed] }
  lookup_refines_software cleared offering
    [[oneSymbol 0x00 5, longSymbol 0x10 7]] once (.replicate 576 offering)
    (fresh_complete
      (fun table member => (once.wellFormed table member).toSized) cleared
      offering (by rw [List.countP_replicate]; decide))
    0 (by decide)

end CoreJpeg.JpegDht
