import CoreJpeg.CanonicalCode
import CoreJpeg.DhtModel

namespace CoreJpeg.JpegDht

open CanonicalCode Clocked

/-!
# Loading Huffman tables

A DHT segment is a sequence of table definitions: the table byte, sixteen
symbol counts and the symbols.  The abstract loader walks a definition by code
length and symbol and writes its tables and its RAM as it goes; this module
shows that the registers of `jpeg_dht` follow it, for every definition and
every pattern of waiting.
-/

/-! ## Definitions and segments -/

/-- A table definition as a DHT segment holds it. -/
structure TableDef where
  info : Byte
  counts : List Byte
  symbols : List Byte
  sixteen : counts.length = 16
  sized : symbols.length = (counts.map BitVec.toNat).sum
  deriving DecidableEq

namespace TableDef

/-- How many symbols have codes of a length. -/
def count (table : TableDef) (length : Nat) : Nat :=
  (table.counts.getD length 0).toNat

/-- How many symbols the definition has. -/
def size (table : TableDef) : Nat := table.symbols.length

/-- The bytes of the definition. -/
def bytes (table : TableDef) : List Byte :=
  table.info :: (table.counts ++ table.symbols)

/-- The bytes of the definition; the last one may end the segment. -/
def flagged (table : TableDef) (last : Bool) : List (Byte × Bool) :=
  table.bytes.zipIdx.map fun (byte, number) =>
    (byte, last && number + 1 == table.bytes.length)

end TableDef

/-- The payloads of consecutive segments, with the flag of each last byte. -/
def stream (tables : List (TableDef × Bool)) : List (Byte × Bool) :=
  tables.flatMap fun (table, last) => table.flagged last

/-- The definitions of one segment; the last one ends it. -/
def segment : List TableDef → List (TableDef × Bool)
  | [] => []
  | [table] => [(table, true)]
  | table :: next :: rest => (table, false) :: segment (next :: rest)

/-! ## The loader with its master -/

/-- The circuit, the bytes its master still holds and how long it waits. -/
structure System where
  dht : State
  left : List (Byte × Bool)
  /-- Cycles the present byte has been refused in. -/
  stalled : Nat

namespace System

/-- The pins of a cycle: a valid byte is the first one the master holds. -/
def pins (sys : System) (i : Input) : Input :=
  match sys.left with
  | (byte, last) :: _ =>
      if i.cfgValid then
        { i with rst := false, cfgData := byte, cfgLast := last }
      else { i with rst := false }
  | [] => { i with rst := false, cfgValid := false }

/-- One clock edge: an accepted byte is not held any longer. -/
def step (sys : System) (i : Input) : System where
  dht := JpegDht.step sys.dht (sys.pins i)
  left := if accepts sys.dht (sys.pins i) then sys.left.tail else sys.left
  stalled :=
    if accepts sys.dht (sys.pins i) then 0
    else if (sys.pins i).cfgValid then sys.stalled + 1
    else sys.stalled

end System

/-! ## The abstract loader -/

/-- What a lookup depends on. -/
@[ext] structure Store where
  tables : TableName → TableRegs
  ram : BitVec 10 → Byte
  nextPtr : BitVec 10

/-- The part of the registers that a lookup depends on. -/
def State.store (s : State) : Store where
  tables := s.tables
  ram := s.ram
  nextPtr := s.nextPtrQ

namespace Store

/-- The registers of a code length, at the RAM address of its first symbol. -/
def putLength (store : Store) (table : TableDef) (length : Nat) :
    Store :=
  { store with tables := fun name =>
      if name = cfgTable table.info then {
        minCodeQ := fun other =>
          if other.toNat = length then
            BitVec.ofNat 16 (firstCode table.count length)
          else (store.tables name).minCodeQ other
        maxCodeQ := fun other =>
          if other.toNat = length then
            BitVec.ofNat 16 (endCode table.count length)
          else (store.tables name).maxCodeQ other
        ptrQ := fun other =>
          if other.toNat = length then store.nextPtr
          else (store.tables name).ptrQ other }
      else store.tables name }

/-- A symbol at the next RAM address. -/
def putSymbol (store : Store) (symbol : Byte) : Store where
  tables := store.tables
  ram := fun address =>
    if address = store.nextPtr then symbol else store.ram address
  nextPtr := store.nextPtr + 1

/-- The symbol at an index among those of a code length. -/
def put (store : Store) (table : TableDef) (length index : Nat) : Store :=
  let filled := if index = 0 then store.putLength table length else store
  filled.putSymbol (table.symbols.getD (offset table.count length + index) 0)

end Store

/-- Where in its definitions the loader is. -/
inductive Place where
  /-- At the table byte. -/
  | between
  /-- At the count of a code length. -/
  | counting (table : TableDef) (last : Bool) (length : Nat)
  /-- At a symbol of a code length. -/
  | filling (table : TableDef) (last : Bool) (length index : Nat)
  /-- At a symbol of a definition that has none. -/
  | stuck (table : TableDef) (last : Bool)

/-- The abstract loader: its place, the definitions to come and the memory. -/
structure Loader where
  place : Place
  rest : List (TableDef × Bool)
  store : Store

namespace Loader

/-- The bytes that are still to come. -/
def left (loader : Loader) : List (Byte × Bool) :=
  match loader.place with
  | .between => stream loader.rest
  | .counting table last length =>
      (table.flagged last).drop (1 + length) ++ stream loader.rest
  | .filling table last length index =>
      (table.flagged last).drop (17 + offset table.count length + index) ++
        stream loader.rest
  | .stuck _ _ => stream loader.rest

/-- The present byte is taken when it is presented. -/
def takes (loader : Loader) : Bool :=
  match loader.place with
  | .between | .counting .. => true
  | .filling table _ length _ => table.count length != 0
  | .stuck _ _ => false

/-- The place after the last count of a definition. -/
def afterCounts (table : TableDef) (last : Bool) : Place :=
  if table.size = 0 then
    (if last then .between else .stuck table last)
  else .filling table last 0 0

/-- A presented byte is taken or an empty code length is passed. -/
def advance (loader : Loader) : Loader :=
  match loader.place, loader.rest with
  | .between, [] => loader
  | .between, (table, last) :: rest =>
      { loader with place := .counting table last 0, rest := rest }
  | .counting table last length, _ =>
      { loader with place :=
          if length + 1 = 16 then afterCounts table last
          else .counting table last (length + 1) }
  | .filling table last length index, _ =>
      let position := offset table.count length + index
      if table.count length = 0 then
        { loader with place := .filling table last (length + 1) 0 }
      else { loader with
        place :=
          if position + 1 = table.size then .between
          else if index + 1 = table.count length then
            .filling table last (length + 1) 0
          else .filling table last length (index + 1)
        -- the index of the 4080th symbol is the one of the table byte
        store :=
          if position = 4079 then loader.store
          else loader.store.put table length index }
  | .stuck _ _, _ => loader

end Loader

/-! ## The registers at a place -/

/-- Nothing of a definition has been taken (`idx_q = FFF`, counts cleared). -/
structure LoaderIdle (s : State) : Prop where
  index : s.idxQ = 0xFFF
  entries : ∀ length, s.numEntriesQ length = 0
  bitmap : s.hasEntriesQ = 0
  total : s.totalEntriesQ = 15

/-- The table byte and the first counts are in the registers. -/
structure Counted (table : TableDef) (length : Nat) (s : State) : Prop where
  selected : s.cfgTableQ = table.info
  entries :
    ∀ other, (s.numEntriesQ other).toNat =
      if other.toNat < length then table.count other.toNat else 0
  bitmap :
    ∀ other, other < 16 → s.hasEntriesQ.getLsbD other =
      decide (other < length ∧ table.count other ≠ 0)
  total :
    s.totalEntriesQ = BitVec.ofNat 12 (15 + offset table.count length)
  walk : s.iQ = 0 ∧ s.jQ = 0 ∧ s.codeQ = 0

/-- The table byte and the first counts have been taken. -/
structure AtCount (table : TableDef) (length : Nat) (s : State) : Prop
    extends Counted table length s where
  index : s.idxQ = BitVec.ofNat 12 length

/-- The symbols before one of a code length have been taken. -/
structure AtSymbol (table : TableDef) (length index : Nat) (s : State) :
    Prop where
  position : s.idxQ = BitVec.ofNat 12 (16 + (offset table.count length + index))
  selected : s.cfgTableQ = table.info
  entries : ∀ other, (s.numEntriesQ other).toNat = table.count other.toNat
  bitmap :
    ∀ other, other < 16 → s.hasEntriesQ.getLsbD other =
      decide (table.count other ≠ 0)
  total : s.totalEntriesQ = BitVec.ofNat 12 (15 + table.size)
  more : offset table.count length + index < table.size
  inside : index = 0 ∨ index < table.count length
  walk :
    offset table.count length + index ≠ 4079 →
      s.iQ = BitVec.ofNat 4 length ∧ s.jQ = BitVec.ofNat 8 index ∧
        s.codeQ = BitVec.ofNat 16 (firstCode table.count length + index)

/-- The registers agree with a place. -/
def Place.Holds : Place → State → Prop
  | .between, s => LoaderIdle s
  | .counting table _ length, s => length < 16 ∧ AtCount table length s
  | .filling table _ length index, s => AtSymbol table length index s
  | .stuck table last, s =>
      table.size = 0 ∧ last = false ∧ s.idxQ = 16 ∧ s.hasEntriesQ = 0

/-- The circuit with its master follows an abstract loader. -/
structure Follows (loader : Loader) (sys : System) : Prop where
  holds : loader.place.Holds sys.dht
  store : sys.dht.store = loader.store
  left : sys.left = loader.left

/-! ## Sizes -/

namespace TableDef

variable {table : TableDef} {length index : Nat}

theorem count_le (table : TableDef) (length : Nat) :
    table.count length ≤ 255 := by
  have small := (table.counts.getD length 0).isLt
  rw [count]
  omega

theorem count_beyond (beyond : 16 ≤ length) : table.count length = 0 := by
  have none : table.counts[length]? = none := by
    rw [List.getElem?_eq_none_iff, table.sixteen]
    exact beyond
  simp [count, List.getD_eq_getElem?_getD, none]

theorem offset_le (table : TableDef) (length : Nat) :
    offset table.count length ≤ 255 * length := by
  induction length with
  | zero =>
      simp
  | succ length inductionHypothesis =>
      have atMost := table.count_le length
      rw [offset_succ]
      omega

/-- The counts up to a length, added up. -/
theorem offset_eq_sum
    (atMost : length ≤ 16) :
    offset table.count length =
      ((table.counts.take length).map BitVec.toNat).sum := by
  induction length with
  | zero =>
      simp
  | succ length inductionHypothesis =>
      have inside : length < table.counts.length := by
        rw [table.sixteen]
        omega
      rw [offset_succ, inductionHypothesis (by omega),
        List.take_succ_eq_append_getElem inside]
      simp [count, inside]

theorem offset_sixteen : offset table.count 16 = table.size := by
  rw [offset_eq_sum (Nat.le_refl 16), size, table.sized,
    List.take_of_length_le table.sixteen.le]

theorem offset_beyond (beyond : 16 ≤ length) :
    offset table.count length = table.size := by
  induction length, beyond using Nat.le_induction with
  | base =>
      exact offset_sixteen
  | succ length beyond inductionHypothesis =>
      rw [offset_succ, inductionHypothesis, count_beyond beyond]
      rfl

theorem size_le : table.size ≤ 4080 := by
  rw [← offset_sixteen]
  exact table.offset_le 16

/-- A symbol belongs to one of the sixteen code lengths. -/
theorem length_lt
    (more : offset table.count length + index < table.size) :
    length < 16 := by
  by_contra beyond
  rw [offset_beyond (by omega)] at more
  omega

@[simp] theorem length_bytes : table.bytes.length = 17 + table.size := by
  simp [bytes, table.sixteen, size]
  omega

@[simp] theorem length_flagged (last : Bool) :
    (table.flagged last).length = 17 + table.size := by
  simp [flagged]

/-- The bytes from one on begin with that byte. -/
theorem drop_flagged
    (last : Bool)
    {number : Nat}
    {byte : Byte}
    (atNumber : table.bytes[number]? = some byte) :
    (table.flagged last).drop number =
      (byte, last && number + 1 == 17 + table.size) ::
        (table.flagged last).drop (number + 1) := by
  obtain ⟨inside, isByte⟩ := List.getElem?_eq_some_iff.mp atNumber
  have insideFlagged : number < (table.flagged last).length := by
    simpa using inside
  rw [List.drop_eq_getElem_cons insideFlagged]
  simp [flagged, isByte]

theorem bytes_zero : table.bytes[0]? = some table.info := rfl

theorem bytes_count (length : Nat) (inside : length < 16) :
    table.bytes[1 + length]? = some (table.counts.getD length 0) := by
  have counted : length < table.counts.length := by
    rw [table.sixteen]
    exact inside
  rw [bytes, Nat.add_comm, List.getElem?_cons_succ,
    List.getElem?_append_left counted]
  simp [counted]

theorem bytes_symbol (index : Nat) (inside : index < table.size) :
    table.bytes[17 + index]? = some (table.symbols.getD index 0) := by
  have counted : index < table.symbols.length := inside
  rw [bytes, show 17 + index = (16 + index) + 1 by omega,
    List.getElem?_cons_succ,
    List.getElem?_append_right (by rw [table.sixteen]; omega),
    table.sixteen, Nat.add_sub_cancel_left]
  simp [counted]

/-- After its last byte a definition has none left. -/
theorem drop_flagged_all (last : Bool) :
    (table.flagged last).drop (17 + table.size) = [] := by
  rw [List.drop_eq_nil_iff]
  simp

end TableDef

theorem stream_cons
    (table : TableDef) (last : Bool) (rest : List (TableDef × Bool)) :
    stream ((table, last) :: rest) = table.flagged last ++ stream rest := by
  simp [stream]

/-! ## One cycle at each place -/

section Cycles

variable {s : State} {i : Input} {table : TableDef} {length index : Nat}

theorem inHeader_eq
    {number : Nat}
    (isNumber : s.idxQ = BitVec.ofNat 12 number)
    (small : number < 4096) :
    inHeader s = decide (number < 16 ∨ number = 4095) := by
  have value : s.idxQ.toNat = number := by
    rw [isNumber, BitVec.toNat_ofNat, Nat.mod_eq_of_lt small]
  have atLast : (s.idxQ == 0xFFF) = decide (number = 4095) := by
    rw [beq_eq_decide, decide_eq_decide, ← BitVec.toNat_inj, value]
    rfl
  have before : decide (s.idxQ < 16) = decide (number < 16) := by
    rw [decide_eq_decide, BitVec.lt_def, value]
    rfl
  rw [inHeader, atLast, before, Bool.decide_or]

theorem LoaderIdle.inHeader (idle : LoaderIdle s) : inHeader s = true := by
  simp [JpegDht.inHeader, idle.index]

theorem AtCount.inHeader
    (atEntry : AtCount table length s)
    (inside : length < 16) :
    inHeader s = true := by
  rw [inHeader_eq atEntry.index (by omega)]
  simp [inside]

theorem AtSymbol.inHeader
    (atEntry : AtSymbol table length index s) :
    inHeader s = decide (offset table.count length + index = 4079) := by
  have more := atEntry.more
  have most := table.size_le
  rw [inHeader_eq atEntry.position (by omega), decide_eq_decide]
  omega

/-- A byte of the header is taken at once. -/
theorem accepts_of_inHeader (header : inHeader s = true) :
    accepts s i = i.cfgValid := by
  simp [accepts, cfgAcceptO, header]

/-- The bytes behind the header are the symbols. -/
theorem allocEntryW_eq : allocEntryW s i = (accepts s i && !inHeader s) := by
  have notBefore : decide (16 ≤ s.idxQ) = !decide (s.idxQ < 16) := by
    rw [← decide_not, decide_eq_decide, BitVec.not_lt]
  simp only [allocEntryW, inHeader, notBefore, bne, Bool.not_or]

/-- A cycle without a byte keeps a place. -/
theorem LoaderIdle.wait
    (idle : LoaderIdle s)
    (running : i.rst = false)
    (nothing : i.cfgValid = false) :
    LoaderIdle (step s i) := by
  constructor <;>
    simp [step, running, idxNext, numEntriesNext, hasEntriesNext,
      totalEntriesNext, counting, ends, accepts, nothing, idle.index,
      idle.entries, idle.bitmap, idle.total]

theorem AtCount.wait
    (atEntry : AtCount table length s)
    (running : i.rst = false)
    (nothing : i.cfgValid = false) :
    AtCount table length (step s i) := by
  refine ⟨⟨?_, ?_, ?_, ?_, ?_⟩, ?_⟩
  · simp [step, running, cfgTableNext, accepts, nothing, atEntry.selected]
  · simpa [step, running, numEntriesNext, counting, ends, accepts, nothing]
      using atEntry.entries
  · simpa [step, running, hasEntriesNext, counting, ends, accepts, nothing]
      using atEntry.bitmap
  · simp [step, running, totalEntriesNext, counting, ends, accepts, nothing,
      atEntry.total]
  · simp [step, running, iNext, jNext, codeNext, accepts, nothing, atEntry.walk]
  · simp [step, running, idxNext, ends, accepts, nothing, atEntry.index]

theorem AtSymbol.wait
    (atEntry : AtSymbol table length index s)
    (running : i.rst = false)
    (nothing : i.cfgValid = false) :
    AtSymbol table length index (step s i) where
  position := by
    simp [step, running, idxNext, ends, accepts, nothing, atEntry.position]
  selected := by
    simp [step, running, cfgTableNext, accepts, nothing, atEntry.selected]
  entries := by
    simpa [step, running, numEntriesNext, counting, ends, accepts, nothing]
      using atEntry.entries
  bitmap := by
    simpa [step, running, hasEntriesNext, counting, ends, accepts, nothing]
      using atEntry.bitmap
  total := by
    simp [step, running, totalEntriesNext, counting, ends, accepts, nothing,
      atEntry.total]
  more := atEntry.more
  inside := atEntry.inside
  walk := by
    intro notLast
    have header : JpegDht.inHeader s = false := by
      simpa [atEntry.inHeader] using notLast
    simpa [step, running, iNext, jNext, codeNext, accepts, nothing, header]
      using atEntry.walk notLast

/-- Nothing is stored in a cycle without a symbol. -/
theorem store_kept
    (running : i.rst = false)
    (noSymbol : accepts s i = true → inHeader s = true) :
    (step s i).store = s.store := by
  have noAlloc : allocEntryW s i = false := by
    rw [allocEntryW_eq]
    cases taken : accepts s i with
    | false =>
        rfl
    | true =>
        rw [noSymbol taken]
        rfl
  have noFill : (!inHeader s && accepts s i && s.jQ == 0) = false := by
    cases taken : accepts s i with
    | false =>
        simp
    | true =>
        simp [noSymbol taken]
  simp only [State.store, step, running, tablesNext, ramNext, nextPtrNext,
    noAlloc, noFill, Bool.false_eq_true, if_false]

/-- One bit of a bitmap is set or cleared. -/
theorem getLsbD_marked
    {bitmap : BitVec 16}
    {bit other : Nat}
    {mark : Bool}
    (inside : other < 16) :
    (if mark then bitmap ||| BitVec.twoPow 16 bit
      else bitmap &&& ~~~ BitVec.twoPow 16 bit).getLsbD other =
      if other = bit then mark else bitmap.getLsbD other := by
  have isBit :
      (BitVec.twoPow 16 bit).getLsbD other = decide (other = bit) := by
    rw [BitVec.getLsbD_twoPow, ← Bool.decide_and, decide_eq_decide]
    omega
  by_cases same : other = bit
  · cases mark <;> simp [BitVec.getLsbD_or, same]
    omega
  · cases mark <;> simp [isBit, same]
    omega

/-- The table byte is taken. -/
theorem LoaderIdle.takeInfo
    (idle : LoaderIdle s)
    (running : i.rst = false)
    (valid : i.cfgValid = true)
    (isInfo : i.cfgData = table.info)
    (notLast : i.cfgLast = false) :
    accepts s i = true ∧ AtCount table 0 (step s i) := by
  have taken : accepts s i = true := by
    rw [accepts_of_inHeader idle.inHeader, valid]
  have notEnds : ends s i = false := by
    simp [ends, cfgLastW, notLast, idle.total, idle.index]
  have notCounting : counting s i = false := by
    simp [counting, idle.index]
  refine ⟨taken, ⟨?_, ?_, ?_, ?_, ?_⟩, ?_⟩
  · simp [step, running, cfgTableNext, taken, idle.index, isInfo]
  · simp [step, running, numEntriesNext, notCounting, notEnds, idle.entries]
  · simp [step, running, hasEntriesNext, notCounting, notEnds, idle.bitmap]
  · simp [step, running, totalEntriesNext, notCounting, notEnds, idle.total]
  · simp [step, running, iNext, jNext, codeNext, idle.inHeader]
  · simp [step, running, idxNext, notEnds, taken, idle.index]

theorem AtCount.before
    (atEntry : AtCount table length s)
    (inside : length < 16) :
    s.idxQ < 16#12 := by
  rw [BitVec.lt_def, atEntry.index, BitVec.toNat_ofNat,
    Nat.mod_eq_of_lt (by omega)]
  exact inside

/-- A count is taken into the registers. -/
theorem AtCount.takeCount
    (atEntry : AtCount table length s)
    (inside : length < 16)
    (running : i.rst = false)
    (valid : i.cfgValid = true)
    (isCount : i.cfgData = table.counts.getD length 0) :
    accepts s i = true ∧ Counted table (length + 1) (step s i) := by
  have header := atEntry.inHeader inside
  have before := atEntry.before inside
  have taken : accepts s i = true := by
    rw [accepts_of_inHeader header, valid]
  have isCounting : counting s i = true := by
    simp [counting, taken, before]
  have lane : (s.idxQ.setWidth 4).toNat = length := by
    rw [atEntry.index, BitVec.toNat_setWidth, BitVec.toNat_ofNat]
    omega
  have counted : i.cfgData.toNat = table.count length := by
    rw [isCount, TableDef.count]
  refine ⟨taken, ?_⟩
  constructor
  · have notFirst : s.idxQ ≠ 4095#12 := by
      intro isFirst
      rw [isFirst] at before
      exact absurd before (by decide)
    simp [step, running, cfgTableNext, taken, notFirst, atEntry.selected]
  · intro other
    have same : other = s.idxQ.setWidth 4 ↔ other.toNat = length := by
      rw [← BitVec.toNat_inj, lane]
    simp only [step, running, numEntriesNext, isCounting, same,
      Bool.false_eq_true, if_false, if_true]
    by_cases isLength : other.toNat = length
    · rw [if_pos isLength, counted, if_pos (by omega), isLength]
    · rw [if_neg isLength, atEntry.entries other]
      by_cases earlier : other.toNat < length
      · rw [if_pos earlier, if_pos (by omega)]
      · rw [if_neg earlier, if_neg (by omega)]
  · intro other isLength
    have nonzero : (i.cfgData != 0) = decide (table.count length ≠ 0) := by
      rw [← counted, bne, beq_eq_decide, ← decide_not, decide_eq_decide,
        ← BitVec.toNat_inj]
      rfl
    simp only [step, running, hasEntriesNext, isCounting, nonzero, lane,
      Bool.false_eq_true, if_false, if_true]
    rw [getLsbD_marked isLength, atEntry.bitmap other isLength]
    by_cases isOne : other = length
    · simp [isOne]
    · have outside : other < length + 1 ↔ other < length := by
        omega
      simp [isOne, outside]
  · rw [offset_succ]
    simp only [step, running, totalEntriesNext, isCounting,
      Bool.false_eq_true, if_false, if_true, atEntry.total]
    rw [← Nat.add_assoc, BitVec.ofNat_add _ _, ← counted,
      ← BitVec.toNat_inj]
    simp
  · simp [step, running, iNext, jNext, codeNext, header]

/-- Behind a count that does not end the segment is the next byte. -/
theorem AtCount.takeCount_more
    (atEntry : AtCount table length s)
    (inside : length < 16)
    (running : i.rst = false)
    (valid : i.cfgValid = true)
    (isCount : i.cfgData = table.counts.getD length 0)
    (notLast : i.cfgLast = false) :
    AtCount table (length + 1) (step s i) := by
  obtain ⟨taken, counted⟩ := atEntry.takeCount inside running valid isCount
  have notEnds : ends s i = false := by
    simp [ends, cfgLastW, notLast, atEntry.before inside]
  refine ⟨counted, ?_⟩
  simp [step, running, idxNext, notEnds, taken, atEntry.index, BitVec.ofNat_add]

/-- The last count of a definition without symbols ends the segment. -/
theorem AtCount.takeCount_last
    (atEntry : AtCount table 15 s)
    (empty : table.size = 0)
    (running : i.rst = false)
    (valid : i.cfgValid = true)
    (isCount : i.cfgData = table.counts.getD 15 0)
    (last : i.cfgLast = true) :
    LoaderIdle (step s i) := by
  obtain ⟨taken, counted⟩ :=
    atEntry.takeCount (by decide) running valid isCount
  have noCount (length : Nat) : table.count length = 0 := by
    have sum := offset_succ table.count length
    rcases Nat.lt_or_ge length 16 with inside | beyond
    · have atMost := CanonicalCode.offset_le table.count
        (show length + 1 ≤ 16 by omega)
      rw [TableDef.offset_sixteen] at atMost
      omega
    · exact TableDef.count_beyond beyond
  constructor
  · simp [step, running, idxNext, ends, cfgLastW, last, taken]
  · intro length
    have value := counted.entries length
    rw [noCount, ite_self] at value
    exact BitVec.eq_of_toNat_eq value
  · apply BitVec.eq_of_getLsbD_eq
    intro length inside
    rw [counted.bitmap length inside]
    simp [noCount]
  · rw [counted.total, TableDef.offset_sixteen, empty]
    rfl

/-- Behind the counts is the first symbol. -/
theorem AtCount.atSymbol
    (atEntry : AtCount table 16 s)
    (filled : table.size ≠ 0) :
    AtSymbol table 0 0 s where
  position := by
    simpa using atEntry.index
  selected := atEntry.selected
  entries := by
    intro other
    rw [atEntry.entries other, if_pos other.isLt]
  bitmap := by
    intro other inside
    rw [atEntry.bitmap other inside]
    simp [inside]
  total := by
    rw [atEntry.total, TableDef.offset_sixteen]
  more := by
    simp only [offset_zero, Nat.add_zero]
    exact Nat.pos_of_ne_zero filled
  inside := .inl rfl
  walk := by
    intro _
    simpa [firstCode] using atEntry.walk

/-- The bitmap tells whether the present code length has symbols. -/
theorem AtSymbol.hasEntries
    (atEntry : AtSymbol table length index s)
    (notLast : offset table.count length + index ≠ 4079) :
    s.hasEntriesQ.getLsbD s.iQ.toNat = decide (table.count length ≠ 0) := by
  have inside := TableDef.length_lt atEntry.more
  rw [(atEntry.walk notLast).1, BitVec.toNat_ofNat, Nat.mod_eq_of_lt inside]
  exact atEntry.bitmap length inside

/-- Only symbols of the last code length have the index of the table byte. -/
theorem AtSymbol.count_ne_zero
    (atEntry : AtSymbol table length index s)
    (isLast : offset table.count length + index = 4079) :
    table.count length ≠ 0 := by
  have inside := TableDef.length_lt atEntry.more
  have atMost := table.offset_le length
  rcases atEntry.inside with isZero | counted
  · omega
  · omega

/-- A symbol is taken when the present code length has one. -/
theorem AtSymbol.accepts_eq
    (atEntry : AtSymbol table length index s) :
    accepts s i = (i.cfgValid && decide (table.count length ≠ 0)) := by
  by_cases isLast : offset table.count length + index = 4079
  · have header : JpegDht.inHeader s = true := by
      simp [atEntry.inHeader, isLast]
    simp [accepts_of_inHeader header, atEntry.count_ne_zero isLast]
  · have header : JpegDht.inHeader s = false := by
      simp [atEntry.inHeader, isLast]
    rw [accepts, cfgAcceptO, atEntry.hasEntries isLast, header, Bool.or_false]

/-- An empty code length is passed while the byte waits. -/
theorem AtSymbol.pass
    (atEntry : AtSymbol table length index s)
    (running : i.rst = false)
    (valid : i.cfgValid = true)
    (empty : table.count length = 0) :
    AtSymbol table (length + 1) 0 (step s i) := by
  have refused : accepts s i = false := by
    simp [atEntry.accepts_eq, empty]
  have isZero : index = 0 := by
    rcases atEntry.inside with isZero | counted
    · exact isZero
    · omega
  have same : offset table.count (length + 1) = offset table.count length := by
    rw [offset_succ, empty, Nat.add_zero]
  subst isZero
  have more := atEntry.more
  constructor
  · simpa [step, running, idxNext, ends, refused, same] using atEntry.position
  · simp [step, running, cfgTableNext, refused, atEntry.selected]
  · simpa [step, running, numEntriesNext, counting, ends, refused]
      using atEntry.entries
  · simpa [step, running, hasEntriesNext, counting, ends, refused]
      using atEntry.bitmap
  · simp [step, running, totalEntriesNext, counting, ends, refused,
      atEntry.total]
  · rw [same]
    exact more
  · exact .inl rfl
  · rw [same]
    intro notLast
    obtain ⟨atLength, atIndex, atCode⟩ := atEntry.walk notLast
    have header : JpegDht.inHeader s = false := by
      simpa [atEntry.inHeader] using notLast
    refine ⟨?_, ?_, ?_⟩
    · simp [step, running, iNext, refused, valid, header, atLength,
        BitVec.ofNat_add]
    · simp [step, running, jNext, refused, header, atIndex]
    · simp only [step, running, codeNext, refused, valid, header, atCode,
        Bool.false_eq_true, if_false, if_true, firstCode_succ, endCode,
        empty, Nat.add_zero]
      rw [← BitVec.toNat_inj]
      simp [Nat.shiftLeft_eq, Nat.mul_comm]

/-- The running count is met at the last symbol. -/
theorem AtSymbol.cfgLastW_eq
    (atEntry : AtSymbol table length index s) :
    cfgLastW s i =
      (i.cfgLast ||
        decide (offset table.count length + index + 1 = table.size)) := by
  have more := atEntry.more
  have most := table.size_le
  have behind : 16 ≤ s.idxQ := by
    rw [BitVec.le_def, atEntry.position, BitVec.toNat_ofNat,
      Nat.mod_eq_of_lt (by omega)]
    exact Nat.le_add_right _ _
  have met :
      (s.totalEntriesQ == s.idxQ) =
        decide (offset table.count length + index + 1 = table.size) := by
    rw [atEntry.total, atEntry.position, beq_eq_decide, decide_eq_decide,
      ← BitVec.toNat_inj, BitVec.toNat_ofNat, BitVec.toNat_ofNat,
      Nat.mod_eq_of_lt (by omega), Nat.mod_eq_of_lt (by omega)]
    omega
  rw [cfgLastW, met, decide_eq_true behind, Bool.and_true]

/-- Behind the last symbol the loader starts over. -/
theorem AtSymbol.takeLast
    (atEntry : AtSymbol table length index s)
    (running : i.rst = false)
    (valid : i.cfgValid = true)
    (counted : table.count length ≠ 0)
    (last : offset table.count length + index + 1 = table.size) :
    LoaderIdle (step s i) := by
  have taken : accepts s i = true := by
    simp [atEntry.accepts_eq, valid, counted]
  have isLast : ends s i = true := by
    simp [ends, taken, atEntry.cfgLastW_eq, last]
  have notCounting : counting s i = false := by
    have more := atEntry.more
    have most := table.size_le
    have behind : ¬ s.idxQ < 16#12 := by
      rw [BitVec.lt_def, atEntry.position, BitVec.toNat_ofNat,
        Nat.mod_eq_of_lt (by omega)]
      exact Nat.not_lt.mpr (Nat.le_add_right _ _)
    simp [counting, behind]
  constructor <;>
    simp [step, running, idxNext, numEntriesNext, hasEntriesNext,
      totalEntriesNext, isLast, notCounting]

/-- Behind another symbol is the next one, of this or the next length. -/
theorem AtSymbol.takeMore
    (atEntry : AtSymbol table length index s)
    (running : i.rst = false)
    (valid : i.cfgValid = true)
    (counted : index < table.count length)
    (notLast : i.cfgLast = false)
    (more : offset table.count length + index + 1 < table.size) :
    if index + 1 = table.count length then
      AtSymbol table (length + 1) 0 (step s i)
    else AtSymbol table length (index + 1) (step s i) := by
  have most := table.size_le
  have few := table.count_le length
  have before : offset table.count length + index ≠ 4079 := by
    omega
  obtain ⟨atLength, atIndex, atCode⟩ := atEntry.walk before
  have header : JpegDht.inHeader s = false := by
    simp [atEntry.inHeader, before]
  have taken : accepts s i = true := by
    simp [atEntry.accepts_eq, valid]
    omega
  have notEnds : ends s i = false := by
    simp [ends, atEntry.cfgLastW_eq, notLast]
    omega
  have behind : s.idxQ ≠ 4095#12 ∧ ¬ s.idxQ < 16#12 := by
    simp only [JpegDht.inHeader, Bool.or_eq_false_iff, decide_eq_false_iff_not,
      beq_eq_false_iff_ne] at header
    exact ⟨header.2, header.1⟩
  have notCounting : counting s i = false := by
    simp [counting, behind]
  have lastHere :
      lastOfLength s = decide (index + 1 = table.count length) := by
    have inside := TableDef.length_lt atEntry.more
    have entries := atEntry.entries s.iQ
    rw [atLength, BitVec.toNat_ofNat, Nat.mod_eq_of_lt inside] at entries
    rw [lastOfLength, beq_eq_decide, decide_eq_decide, ← BitVec.toNat_inj,
      atLength, entries, atIndex, BitVec.toNat_add, BitVec.toNat_ofNat]
    simp only [BitVec.ofNat_eq_ofNat, BitVec.toNat_ofNat]
    omega
  have position :
      (step s i).idxQ =
        BitVec.ofNat 12 (16 + (offset table.count length + (index + 1))) := by
    simp only [step, running, idxNext, notEnds, taken, atEntry.position,
      Bool.false_eq_true, if_false, if_true]
    rw [← Nat.add_assoc, ← Nat.add_assoc, ← Nat.add_assoc,
      BitVec.ofNat_add _ 1]
    rfl
  have selected : (step s i).cfgTableQ = table.info := by
    simp [step, running, cfgTableNext, behind, atEntry.selected]
  have entries :
      ∀ other, ((step s i).numEntriesQ other).toNat =
        table.count other.toNat := by
    simpa [step, running, numEntriesNext, notCounting, notEnds]
      using atEntry.entries
  have bitmap :
      ∀ other, other < 16 → (step s i).hasEntriesQ.getLsbD other =
        decide (table.count other ≠ 0) := by
    simpa [step, running, hasEntriesNext, notCounting, notEnds]
      using atEntry.bitmap
  have total :
      (step s i).totalEntriesQ = BitVec.ofNat 12 (15 + table.size) := by
    simp [step, running, totalEntriesNext, notCounting, notEnds, atEntry.total]
  split
  next atEnd =>
    have next :
        offset table.count (length + 1) + 0 =
          offset table.count length + (index + 1) := by
      rw [offset_succ, atEnd, Nat.add_zero]
    rw [← next] at position
    refine ⟨position, selected, entries, bitmap, total, by omega, .inl rfl,
      fun _ => ⟨?_, ?_, ?_⟩⟩
    · simp [step, running, iNext, header, taken, lastHere, atEnd, atLength,
        BitVec.ofNat_add]
    · simp [step, running, jNext, header, taken, lastHere, atEnd]
    · have lastOne : lastOfLength s = true := by
        simp [lastHere, atEnd]
      simp only [step, running, codeNext, header, taken, lastOne, atCode,
        firstCode_succ, endCode, Bool.false_eq_true, if_false, if_true]
      rw [← atEnd, ← BitVec.toNat_inj]
      simp only [BitVec.toNat_shiftLeft, BitVec.toNat_add,
        BitVec.toNat_ofNat, BitVec.ofNat_eq_ofNat, Nat.shiftLeft_eq]
      omega
  next notEnd =>
    refine ⟨position, selected, entries, bitmap, total, by omega,
      .inr (by omega), fun _ => ⟨?_, ?_, ?_⟩⟩
    · simp [step, running, iNext, header, taken, lastHere, notEnd, atLength]
    · simp [step, running, jNext, header, taken, lastHere, notEnd, atIndex,
        BitVec.ofNat_add]
    · simp [step, running, codeNext, header, taken, lastHere, notEnd, atCode,
        BitVec.ofNat_add, BitVec.add_assoc]

/-- A taken symbol is stored, unless it has the index of the table byte. -/
theorem AtSymbol.store_take
    (atEntry : AtSymbol table length index s)
    (running : i.rst = false)
    (valid : i.cfgValid = true)
    (counted : table.count length ≠ 0)
    (isSymbol :
      i.cfgData =
        table.symbols.getD (offset table.count length + index) 0) :
    (step s i).store =
      if offset table.count length + index = 4079 then s.store
      else s.store.put table length index := by
  have taken : accepts s i = true := by
    simp [atEntry.accepts_eq, valid, counted]
  split
  next isLast =>
    apply store_kept running
    intro _
    simp [atEntry.inHeader, isLast]
  next notLast =>
    obtain ⟨atLength, atIndex, atCode⟩ := atEntry.walk notLast
    have few := table.count_le length
    have inside := TableDef.length_lt atEntry.more
    have header : JpegDht.inHeader s = false := by
      simp [atEntry.inHeader, notLast]
    have isEntry : allocEntryW s i = true := by
      rw [allocEntryW_eq, taken, header]
      rfl
    have firstOfLength : (s.jQ == 0) = decide (index = 0) := by
      have small : index < 256 := by
        rcases atEntry.inside with isZero | below <;> omega
      rw [beq_eq_decide, decide_eq_decide, atIndex, ← BitVec.toNat_inj,
        BitVec.toNat_ofNat, Nat.mod_eq_of_lt small]
      rfl
    have atIt (other : BitVec 4) : other = s.iQ ↔ other.toNat = length := by
      rw [atLength, ← BitVec.toNat_inj, BitVec.toNat_ofNat,
        Nat.mod_eq_of_lt inside]
    have ending :
        index = 0 →
          s.codeQ + (s.numEntriesQ s.iQ).setWidth 16 =
            BitVec.ofNat 16 (endCode table.count length) := by
      intro isZero
      have entries := atEntry.entries s.iQ
      rw [(atIt s.iQ).mp rfl] at entries
      rw [atCode, isZero, ← BitVec.toNat_inj, endCode]
      simp [entries]
    simp only [State.store, step, running, tablesNext, ramNext, nextPtrNext,
      isEntry, header, taken, firstOfLength, isSymbol, atEntry.selected,
      Bool.not_false, Bool.true_and, Bool.false_eq_true, if_false, if_true,
      Store.put]
    by_cases isZero : index = 0
    · simp only [isZero, decide_true, if_true, Store.putSymbol,
        Store.putLength, Store.mk.injEq, and_true]
      funext name
      by_cases isTable : name = cfgTable table.info
      · rw [if_pos isTable, if_pos isTable, TableRegs.fill, ending isZero]
        simp only [atIt, atCode, isZero, Nat.add_zero]
      · rw [if_neg isTable, if_neg isTable]
    · simp only [isZero, decide_false, Bool.false_eq_true, if_false,
        Store.putSymbol]

end Cycles

/-! ## Following the abstract loader -/

section Following

variable {loader : Loader} {sys : System} {i : Input}

theorem pins_running : (sys.pins i).rst = false := by
  rw [System.pins]
  split
  next => split <;> rfl
  next => rfl

/-- A presented byte is the first one the master holds. -/
theorem pins_presented
    {byte : Byte} {last : Bool} {later : List (Byte × Bool)}
    (held : sys.left = (byte, last) :: later)
    (valid : (sys.pins i).cfgValid = true) :
    (sys.pins i).cfgData = byte ∧ (sys.pins i).cfgLast = last := by
  rw [System.pins, held] at valid ⊢
  by_cases offered : i.cfgValid = true
  · simp [offered]
  · simp [offered] at valid

/-- Without a presented byte nothing happens to the loader. -/
theorem Follows.wait
    (follows : Follows loader sys)
    (nothing : (sys.pins i).cfgValid = false) :
    Follows loader (sys.step i) := by
  have refused : accepts sys.dht (sys.pins i) = false := by
    simp [accepts, nothing]
  refine ⟨?_, ?_, ?_⟩
  · have holds := follows.holds
    cases place : loader.place with
    | between =>
        rw [place] at holds
        exact LoaderIdle.wait holds pins_running nothing
    | counting table last length =>
        rw [place] at holds
        exact ⟨holds.1, holds.2.wait pins_running nothing⟩
    | filling table last length index =>
        rw [place] at holds
        exact AtSymbol.wait holds pins_running nothing
    | stuck table last =>
        rw [place] at holds
        obtain ⟨empty, notLast, atEnd, cleared⟩ := holds
        refine ⟨empty, notLast, ?_, ?_⟩
        · simp [System.step, step, pins_running, idxNext, ends, refused,
            atEnd]
        · simp [System.step, step, pins_running, hasEntriesNext, counting,
            ends, refused, cleared]
  · rw [← follows.store]
    apply store_kept pins_running
    simp [refused]
  · simp [System.step, refused, follows.left]

/-- The present byte of a loader that is not stuck. -/
def Loader.present (loader : Loader) : Option (Byte × Bool) :=
  match loader.place, loader.rest with
  | .between, [] => none
  | .between, (table, _) :: _ => some (table.info, false)
  | .counting table last length, _ =>
      some (table.counts.getD length 0,
        last && length + 2 == 17 + table.size)
  | .filling table last length index, _ =>
      let position := offset table.count length + index
      some (table.symbols.getD position 0, last && position + 1 == table.size)
  | .stuck _ _, rest => (stream rest).head?

/-- The bytes to come begin with the present one. -/
theorem Follows.left_head
    (follows : Follows loader sys) :
    loader.left.head? = loader.present := by
  have holds := follows.holds
  rcases loader with ⟨place, rest, store⟩
  cases place with
  | between =>
      cases rest with
      | nil =>
          rfl
      | cons first rest =>
          obtain ⟨table, last⟩ := first
          have bytes := table.drop_flagged last table.bytes_zero
          rw [List.drop_zero] at bytes
          have notLast : (0 + 1 == 17 + table.size) = false := by
            simp
            omega
          simp only [Loader.left, Loader.present, stream_cons]
          rw [bytes, notLast]
          simp
  | counting table last length =>
      have bytes := table.drop_flagged last (table.bytes_count _ holds.1)
      simp only [Loader.left, Loader.present]
      rw [bytes]
      simp [Nat.add_comm, Nat.add_left_comm]
  | filling table last length index =>
      have symbol := table.bytes_symbol _ holds.more
      have bytes := table.drop_flagged last symbol
      simp only [Loader.left, Loader.present]
      rw [← Nat.add_assoc] at bytes
      rw [bytes]
      simp [Nat.add_assoc, beq_eq_decide]
  | stuck table last =>
      rfl

/-- Taking the present byte leaves the bytes behind it. -/
theorem Follows.left_advance
    (follows : Follows loader sys) :
    loader.advance.left =
      if loader.takes then loader.left.tail else loader.left := by
  have holds := follows.holds
  rcases loader with ⟨place, rest, store⟩
  cases place with
  | between =>
      cases rest with
      | nil =>
          rfl
      | cons first rest =>
          obtain ⟨table, last⟩ := first
          have bytes := table.drop_flagged last table.bytes_zero
          rw [List.drop_zero] at bytes
          simp only [Loader.left, Loader.advance, Loader.takes, stream_cons,
            if_true]
          rw [bytes]
          simp
  | counting table last length =>
      obtain ⟨inside, atEntry⟩ := holds
      have bytes := table.drop_flagged last (table.bytes_count _ inside)
      simp only [Loader.left, Loader.advance, Loader.takes, if_true]
      rw [bytes]
      by_cases atEnd : length + 1 = 16
      · have number : 1 + length + 1 = 17 := by
          omega
        rw [if_pos atEnd, Loader.afterCounts, number]
        by_cases empty : table.size = 0
        · have none := table.drop_flagged_all last
          rw [empty] at none
          rw [if_pos empty, none]
          cases last <;> simp
        · simp [empty]
      · simp [atEnd, Nat.add_assoc]
  | filling table last length index =>
      have bytes :=
        table.drop_flagged last (table.bytes_symbol _ holds.more)
      rw [← Nat.add_assoc] at bytes
      simp only [Loader.left, Loader.advance, Loader.takes]
      by_cases empty : table.count length = 0
      · have isZero : index = 0 := by
          have inside := holds.inside
          omega
        simp [empty, isZero, offset_succ]
      · rw [bytes]
        by_cases atEnd :
          offset table.count length + index + 1 = table.size
        · have none := table.drop_flagged_all last
          rw [← atEnd, ← Nat.add_assoc, ← Nat.add_assoc] at none
          simp [empty, atEnd, none]
        · by_cases ofLength : index + 1 = table.count length
          · have next :
                17 + offset table.count (length + 1) =
                  17 + offset table.count length + index + 1 := by
              rw [offset_succ, ← ofLength]
              omega
            simp [empty, atEnd, ofLength, next]
          · rw [if_neg empty, if_neg atEnd, if_neg ofLength]
            simp [empty, Nat.add_assoc]
  | stuck table last =>
      simp [Loader.left, Loader.advance, Loader.takes]

/-- The registers follow a presented byte. -/
structure Advances (loader : Loader) (s : State) (i : Input) : Prop where
  taken : accepts s i = loader.takes
  holds : loader.advance.place.Holds (step s i)
  store : (step s i).store = loader.advance.store

section Places

variable {s : State} {table : TableDef} {ending : Bool}
variable {length index : Nat} {rest : List (TableDef × Bool)}

theorem LoaderIdle.advances
    (idle : LoaderIdle s)
    (running : i.rst = false)
    (valid : i.cfgValid = true)
    (isInfo : i.cfgData = table.info)
    (notLast : i.cfgLast = false) :
    Advances ⟨.between, (table, ending) :: rest, s.store⟩ s i := by
  obtain ⟨taken, next⟩ := idle.takeInfo running valid isInfo notLast
  exact ⟨taken, ⟨by decide, next⟩, store_kept running fun _ => idle.inHeader⟩

/-- Behind the last count is a symbol, the next table or nothing. -/
theorem AtCount.afterCounts
    (atEntry : AtCount table 15 s)
    (running : i.rst = false)
    (valid : i.cfgValid = true)
    (isCount : i.cfgData = table.counts.getD 15 0)
    (isLast : i.cfgLast = (ending && decide (table.size = 0))) :
    (Loader.afterCounts table ending).Holds (step s i) := by
  rw [Loader.afterCounts]
  by_cases empty : table.size = 0
  · rw [if_pos empty]
    simp only [empty, decide_true, Bool.and_true] at isLast
    cases ending with
    | true =>
        exact atEntry.takeCount_last empty running valid isCount isLast
    | false =>
        have next :=
          atEntry.takeCount_more (by decide) running valid isCount isLast
        refine ⟨empty, rfl, next.index, ?_⟩
        apply BitVec.eq_of_getLsbD_eq
        intro other inLengths
        have none : table.count other = 0 := by
          have atMost := CanonicalCode.offset_le table.count
            (show other + 1 ≤ 16 by omega)
          rw [TableDef.offset_sixteen, offset_succ] at atMost
          omega
        rw [next.bitmap other inLengths]
        simp [none]
  · rw [if_neg empty]
    simp only [empty, decide_false, Bool.and_false] at isLast
    have next :=
      atEntry.takeCount_more (by decide) running valid isCount isLast
    exact next.atSymbol empty

theorem AtCount.advances
    (atEntry : AtCount table length s)
    (inside : length < 16)
    (running : i.rst = false)
    (valid : i.cfgValid = true)
    (isCount : i.cfgData = table.counts.getD length 0)
    (isLast :
      i.cfgLast = (ending && length + 2 == 17 + table.size)) :
    Advances ⟨.counting table ending length, rest, s.store⟩ s i := by
  obtain ⟨taken, -⟩ := atEntry.takeCount inside running valid isCount
  refine ⟨taken, ?_, store_kept running fun _ => atEntry.inHeader inside⟩
  simp only [Loader.advance]
  by_cases atEnd : length + 1 = 16
  · have isFifteen : length = 15 := by
      omega
    subst isFifteen
    rw [if_pos atEnd]
    refine atEntry.afterCounts running valid isCount ?_
    rw [isLast, beq_eq_decide]
    congr 2
    simp only [eq_iff_iff]
    omega
  · rw [if_neg atEnd]
    refine
      ⟨by omega, atEntry.takeCount_more inside running valid isCount ?_⟩
    rw [isLast]
    simp
    omega

theorem AtSymbol.advances
    (atEntry : AtSymbol table length index s)
    (running : i.rst = false)
    (valid : i.cfgValid = true)
    (isSymbol :
      i.cfgData =
        table.symbols.getD (offset table.count length + index) 0)
    (isLast :
      i.cfgLast =
        (ending && offset table.count length + index + 1 == table.size)) :
    Advances ⟨.filling table ending length index, rest, s.store⟩ s i := by
  have accepted := atEntry.accepts_eq (i := i)
  rw [valid, Bool.true_and] at accepted
  by_cases empty : table.count length = 0
  · refine ⟨?_, ?_, ?_⟩
    · simp [accepted, Loader.takes, empty]
    · simp only [Loader.advance, if_pos empty]
      exact atEntry.pass running valid empty
    · simp only [Loader.advance, if_pos empty]
      exact store_kept running (by simp [accepted, empty])
  · refine ⟨?_, ?_, ?_⟩
    · simp [accepted, Loader.takes, empty]
    · simp only [Loader.advance, if_neg empty]
      by_cases atEnd : offset table.count length + index + 1 = table.size
      · rw [if_pos atEnd]
        exact atEntry.takeLast running valid empty atEnd
      · have more := atEntry.more
        have below : index < table.count length := by
          have inside := atEntry.inside
          omega
        have next :=
          atEntry.takeMore running valid below
            (by simp [isLast, atEnd])
            (by omega)
        rw [if_neg atEnd]
        by_cases ofLength : index + 1 = table.count length
        · rw [if_pos ofLength] at next ⊢
          exact next
        · rw [if_neg ofLength] at next ⊢
          exact next
    · simp only [Loader.advance, if_neg empty]
      exact atEntry.store_take running valid empty isSymbol

/-- A loader at a symbol that its definition does not have stays there. -/
theorem advances_stuck
    (empty : table.size = 0)
    (notLast : ending = false)
    (atEnd : s.idxQ = 16)
    (cleared : s.hasEntriesQ = 0)
    (running : i.rst = false) :
    Advances ⟨.stuck table ending, rest, s.store⟩ s i := by
  have refused : accepts s i = false := by
    simp [accepts, cfgAcceptO, cleared, inHeader, atEnd]
  refine ⟨refused, ⟨empty, notLast, ?_, ?_⟩, ?_⟩
  · simp [step, running, idxNext, ends, refused, atEnd]
  · simp [step, running, hasEntriesNext, counting, ends, refused, cleared]
  · exact store_kept running (by simp [refused])

end Places

/-- A presented byte advances the registers. -/
theorem Follows.advances
    (follows : Follows loader sys)
    (valid : (sys.pins i).cfgValid = true)
    (present :
      loader.present = some ((sys.pins i).cfgData, (sys.pins i).cfgLast)) :
    Advances loader sys.dht (sys.pins i) := by
  have holds := follows.holds
  have store := follows.store
  obtain ⟨place, rest, kept⟩ := loader
  obtain rfl : sys.dht.store = kept := store
  cases place with
  | between =>
      cases rest with
      | nil =>
          simp [Loader.present] at present
      | cons first rest =>
          simp only [Loader.present, Option.some.injEq,
            Prod.mk.injEq] at present
          exact
            LoaderIdle.advances holds pins_running valid present.1.symm
              present.2.symm
  | counting table ending length =>
      simp only [Loader.present, Option.some.injEq,
        Prod.mk.injEq] at present
      exact
        holds.2.advances holds.1 pins_running valid present.1.symm
          present.2.symm
  | filling table ending length index =>
      simp only [Loader.present, Option.some.injEq,
        Prod.mk.injEq] at present
      exact
        AtSymbol.advances holds pins_running valid present.1.symm
          present.2.symm
  | stuck table ending =>
      exact
        advances_stuck holds.1 holds.2.1 holds.2.2.1 holds.2.2.2
          pins_running

/-- A presented byte advances the loader. -/
theorem Follows.present
    (follows : Follows loader sys)
    (valid : (sys.pins i).cfgValid = true) :
    accepts sys.dht (sys.pins i) = loader.takes ∧
      Follows loader.advance (sys.step i) := by
  obtain ⟨byte, last, later, held⟩ :
      ∃ byte last later, sys.left = (byte, last) :: later := by
    cases held : sys.left with
    | nil =>
        simp [System.pins, held] at valid
    | cons first later =>
        exact ⟨first.1, first.2, later, rfl⟩
  obtain ⟨isByte, isLast⟩ := pins_presented held valid
  have present :
      loader.present = some ((sys.pins i).cfgData, (sys.pins i).cfgLast) := by
    rw [← follows.left_head, ← follows.left, held, isByte, isLast]
    rfl
  have advances := follows.advances valid present
  refine ⟨advances.taken, advances.holds, advances.store, ?_⟩
  rw [follows.left_advance, ← follows.left, ← advances.taken]
  rfl

end Following

end CoreJpeg.JpegDht
