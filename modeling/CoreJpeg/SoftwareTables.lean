import CoreJpeg.SoftwareModel

namespace CoreJpeg.Software

open EntropyCode

/-!
# Reading tables in software

`jpeg_dht::process` and `jpeg_dqt::process` walk the payload of a segment with
a pointer.  This module transcribes them over the bytes that are left of a
buffer.  A read behind the last of them, a write behind the arrays of a table
and a failed assertion end in a fault.
-/

/-- What a program does that has no defined result. -/
inductive Fault where
  /-- A byte behind the source buffer is read. -/
  | outOfBounds
  /-- An entry behind the arrays of a Huffman table is written. -/
  | overflow
  /-- `assert(!"ERROR: Bad JPEG")`. -/
  | badTable
  /-- A place outside the memory of the bit buffer is read or written. -/
  | bitBuffer
  /-- A sample behind `block_out` is written. -/
  | samples
  /-- A quantiser or a coefficient outside its table is used. -/
  | quantiser
  /-- `x_blocks` is zero. -/
  | division
  /-- A byte behind the destination buffer is written. -/
  | destination
  /-- The sum of two values of type `int` is not one. -/
  | intOverflow
  /-- A value is shifted by a negative number. -/
  | negativeShift
  deriving Repr, DecidableEq

/-- A byte of a buffer. -/
def byteAt (data : List Byte) (index : Nat) : Except Fault Byte :=
  match data[index]? with
  | some byte => .ok byte
  | none => .error .outOfBounds

/-! ## `jpeg_dht::process` -/

/-- `table_idx` of a `table_info`. -/
def tableIdx (tableInfo : Byte) : Except Fault (Fin 4) :=
  if tableInfo = 0x00 then .ok 0
  else if tableInfo = 0x10 then .ok 1
  else if tableInfo = 0x01 then .ok 2
  else if tableInfo = 0x11 then .ok 3
  else .error .badTable

/-- `DHT_TABLE_Y_DC_IDX` and `DHT_TABLE_CX_DC_IDX`. -/
def dcTableIdx : Component → Fin 4
  | .y => 0
  | .cb | .cr => 2

/-- `DHT_TABLE_Y_AC_IDX` and `DHT_TABLE_CX_AC_IDX`. -/
def acTableIdx : Component → Fin 4
  | .y => 1
  | .cb | .cr => 3

/-- `m_dht_table`: the entries of each table. -/
abbrev DhtTables := Fin 4 → List DhtEntry

/-- `symb_count`, read from a pointer on. -/
def symbCount (data : List Byte) : (buf count : Nat) → Except Fault (List Byte)
  | _, 0 => .ok []
  | buf, count + 1 => do
      let first ← byteAt data buf
      let rest ← symbCount data (buf + 1) count
      .ok (first :: rest)

/-- The variables of the loops over the symbols. -/
structure Filling where
  buf : Nat
  code : BitVec 16
  entries : List DhtEntry
  deriving Repr, DecidableEq

/-- The loop over the symbols of one code length. -/
def fillLength (data : List Byte) (codeLen : Nat) :
    Nat → Filling → Except Fault Filling
  | 0, s => .ok s
  | symbols + 1, s => do
      let dhtVal ← byteAt data s.buf
      fillLength data codeLen symbols {
        buf := s.buf + 1
        code := s.code + 1
        entries := s.entries ++
          [{ code := s.code, codeLen := codeLen, value := dhtVal }] }

/-- The loop over the code lengths. -/
def fillLengths (data : List Byte) :
    (codeLen : Nat) → List Byte → Filling → Except Fault Filling
  | _, [], s => .ok s
  | codeLen, count :: counts, s => do
      let filled ← fillLength data codeLen count.toNat s
      fillLengths data (codeLen + 1) counts
        { filled with code := filled.code <<< 1 }

/--
The body of the loop over the tables of a segment.  The arrays have 255
entries; what happens behind a table that has more is undefined.
-/
def processTable (data : List Byte) (buf : Nat) (tables : DhtTables) :
    Except Fault (Nat × DhtTables) := do
  let tableInfo ← byteAt data buf
  let index ← tableIdx tableInfo
  let counts ← symbCount data (buf + 1) 16
  let filled ← fillLengths data 1 counts
    { buf := buf + 17, code := 0, entries := [] }
  if filled.entries.length ≤ 255 then
    .ok (filled.buf,
      fun other => if other = index then filled.entries else tables other)
  else .error .overflow

/-- The loop over the tables; every iteration consumes seventeen bytes. -/
def processTables (data : List Byte) (len : Nat) :
    (iterations consumed : Nat) → DhtTables → Except Fault (Nat × DhtTables)
  | 0, consumed, tables => .ok (consumed, tables)
  | iterations + 1, consumed, tables =>
      if consumed + 17 ≤ len then do
        let next ← processTable data consumed tables
        processTables data len iterations next.1 next.2
      else .ok (consumed, tables)

/-- `jpeg_dht::process`; there are no more iterations than bytes. -/
def dhtProcess (data : List Byte) (len : Nat) (tables : DhtTables) :
    Except Fault (Nat × DhtTables) :=
  processTables data len len 0 tables

/-! ## Reading symbols -/

section Reading

variable {data : List Byte} {index : Nat}

theorem byteAt_eq
    (inside : index < data.length) :
    byteAt data index = .ok (data.getD index 0) := by
  simp [byteAt, inside]

theorem byteAt_behind
    (behind : data.length ≤ index) :
    byteAt data index = .error .outOfBounds := by
  rw [byteAt, List.getElem?_eq_none behind]

/-- The counts are read when they are inside the buffer. -/
theorem symbCount_eq
    {buf count : Nat}
    (inside : buf + count ≤ data.length) :
    symbCount data buf count =
      .ok ((List.range count).map fun offset =>
        data.getD (buf + offset) 0) := by
  induction count generalizing buf with
  | zero =>
      rfl
  | succ count inductionHypothesis =>
      rw [symbCount, byteAt_eq (by omega),
        @inductionHypothesis (buf + 1) (by omega),
        List.range_succ_eq_map]
      simp [bind, Except.bind, Nat.add_comm, Nat.add_left_comm,
        Function.comp_def]

/-- The entries of one code length. -/
def lengthEntries (data : List Byte) (codeLen symbols : Nat) (s : Filling) :
    List DhtEntry :=
  (List.range symbols).map fun offset =>
    { code := s.code + BitVec.ofNat 16 offset
      codeLen := codeLen
      value := data.getD (s.buf + offset) 0 }

/-- The symbols of a code length are read when they are inside the buffer. -/
theorem fillLength_eq
    {codeLen symbols : Nat}
    {s : Filling}
    (inside : s.buf + symbols ≤ data.length) :
    fillLength data codeLen symbols s =
      .ok {
        buf := s.buf + symbols
        code := s.code + BitVec.ofNat 16 symbols
        entries := s.entries ++ lengthEntries data codeLen symbols s } := by
  induction symbols generalizing s with
  | zero =>
      simp [fillLength, lengthEntries]
  | succ symbols inductionHypothesis =>
      rw [fillLength, byteAt_eq (by omega)]
      have later := inductionHypothesis (s := {
          buf := s.buf + 1
          code := s.code + 1
          entries := s.entries ++
            [{ code := s.code, codeLen := codeLen
               value := data.getD s.buf 0 }] })
        (by simp only; omega)
      simp only [bind, Except.bind, later]
      simp [lengthEntries, List.range_succ_eq_map, Function.comp_def,
        Nat.add_comm, Nat.add_left_comm, BitVec.ofNat_add, BitVec.add_comm]
      constructor
      · ac_rfl
      · intro offset _
        ac_rfl

end Reading

end CoreJpeg.Software
