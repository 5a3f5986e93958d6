import CoreJpeg.SoftwareDecoder

namespace CoreJpeg.SoftwareJpegDecoder

open EntropyCode Iteration Software

/-!
# Does the software decoder read behind its source?

The parsers check the length of a segment once and then read as many bytes as
other fields of the source say.  This module gives for each parser the bytes
that it reads, shows that the decoder stays inside the source exactly when
those bytes are there in every segment that it comes to, and that it refuses
every malformed segment exactly when none is malformed behind its length.
-/

section Property

variable (src : List Byte)

/-- The word at a place of the source. -/
def wordAt (idx : Nat) : Nat :=
  (src.getD idx 0).toNat * 256 + (src.getD (idx + 1) 0).toNat

/-- The length field of a segment is there and does not leave the source. -/
def HasSegment (idx least : Nat) : Prop :=
  idx + 2 ≤ src.length ∧ least ≤ wordAt src idx ∧
    idx + wordAt src idx ≤ src.length

instance (idx least : Nat) : Decidable (HasSegment src idx least) :=
  inferInstanceAs (Decidable (_ ∧ _ ∧ _))

/-- The components that `ParseSof0` reads end before a limit. -/
def Sof0Fits (limit dstCapacity idx : Nat) : Prop :=
  HasSegment src idx 8 → (src.getD (idx + 7) 0).toNat ≤ 3 →
    wordAt src (idx + 5) * wordAt src (idx + 3) * 3 ≤ dstCapacity →
      8 + 3 * (src.getD (idx + 7) 0).toNat ≤ limit

/-- The selector and the 64 quantisers that `ParseDqt` reads. -/
def DqtFits (limit idx : Nat) : Prop :=
  HasSegment src idx 2 → 2 + 65 ≤ limit

/-- The symbols of a table, from its table byte on. -/
def symbolTotal (data : List Byte) (consumed : Nat) : Nat :=
  ((List.range 16).map fun offset =>
    (data.getD (consumed + 1 + offset) 0).toNat).sum

/-- What is wrong with the first bad table that `process` comes to. -/
def tablesFault (data : List Byte) (limit len : Nat) :
    (iterations consumed : Nat) → Option Fault
  | 0, _ => none
  | iterations + 1, consumed =>
      if consumed + 17 ≤ len then
        match tableIdx (data.getD consumed 0) with
        | .error fault => some fault
        | .ok _ =>
            let next := consumed + 17 + symbolTotal data consumed
            if limit < next then some .outOfBounds
            else if 255 < symbolTotal data consumed then some .overflow
            else tablesFault data limit len iterations next
      else none

/-- What is wrong with the tables of a DHT segment. -/
def dhtFault (limit idx : Nat) : Option Fault :=
  tablesFault (src.drop (idx + 2)) (limit - 2) (wordAt src idx - 2)
    (wordAt src idx - 2) 0

/-- The tables that `ParseDht` reads end before a limit. -/
def DhtFits (limit idx : Nat) : Prop :=
  HasSegment src idx 2 → dhtFault src limit idx ≠ some .outOfBounds

/-- The selectors and the three bytes behind them that `ParseSos` reads. -/
def SosFits (limit idx : Nat) : Prop :=
  HasSegment src idx 2 →
    3 + 2 * (src.getD (idx + 2) 0).toNat + 3 ≤ limit

/-- The next iteration comes to a marker. -/
structure AtMarker (m : Machine) (marker : Byte) : Prop where
  phase : m.phase = .markers
  inside : m.i < src.length
  last : m.lastB = 0xFF
  byte : src.getD m.i 0 = marker

/-- What the parser of the next iteration reads ends before a limit. -/
structure Fits (limit : Nat → Nat) (m : Machine) : Prop where
  sof0 :
    AtMarker src m 0xC0 →
      Sof0Fits src (limit (m.i + 1)) m.dst.capacity (m.i + 1)
  dqt : AtMarker src m 0xDB → DqtFits src (limit (m.i + 1)) (m.i + 1)
  dht : AtMarker src m 0xC4 → DhtFits src (limit (m.i + 1)) (m.i + 1)
  sos :
    AtMarker src m 0xDA → m.decoder.mode ≠ .unsupported →
      SosFits src (limit (m.i + 1)) (m.i + 1)

/-- What the parser of the next iteration reads is in the source. -/
abbrev FitsSource (m : Machine) : Prop :=
  Fits src (fun idx => src.length - idx) m

/-- The segment of the next iteration holds what its fields announce. -/
structure WellFormed (m : Machine) : Prop where
  fits : Fits src (wordAt src) m
  tables :
    AtMarker src m 0xC4 → HasSegment src (m.i + 1) 2 →
      dhtFault src (wordAt src (m.i + 1)) (m.i + 1) = none

/-- The segment of the next iteration has no length or leaves the source. -/
def Truncated (m : Machine) : Prop :=
  AtMarker src m 0xC0 ∧ ¬ HasSegment src (m.i + 1) 8 ∨
    ∃ marker, AtMarker src m marker ∧
      (marker ∈ [0xDB, 0xC4, 0xDA] ∨ skipped marker) ∧
        ¬ HasSegment src (m.i + 1) 2

/-- No iteration reads a byte behind the source. -/
def ReadsInside (conversion : RgbConversion) (dst : Destination) : Prop :=
  ∀ count, decode conversion src dst count ≠ .error (.fault .outOfBounds)

/-- A malformed or truncated segment makes the decoder return false. -/
def Refuses (conversion : RgbConversion) (dst : Destination) : Prop :=
  ∀ count m, decode conversion src dst count = .ok m →
    Truncated src m ∨ ¬ WellFormed src m →
      step conversion src m = .error (.returns false)

end Property

/-! ## Reading -/

section Reading

variable {Result : Type} {src : List Byte} {idx count : Nat}

theorem require_bind
    {condition : Prop} [Decidable condition]
    (rest : Unit → Except Stop Result) :
    (require condition >>= rest) =
      if condition then rest () else .error (.returns false) := by
  rw [require]
  split <;> rfl

theorem returns_ne_fault {success : Bool} {fault : Fault} :
    (Except.error (.returns success) : Except Stop Result) ≠
      .error (.fault fault) := by
  simp

theorem ok_ne_fault {result : Result} {fault : Fault} :
    (Except.ok result : Except Stop Result) ≠ .error (.fault fault) := by
  simp

theorem ok_bind {Failure Value : Type}
    (value : Value) (rest : Value → Except Failure Result) :
    (Except.ok value >>= rest) = rest value := rfl

/-- A failure that no part of a computation has. -/
theorem bind_avoids {Failure Value Result : Type}
    {failure : Failure} {first : Except Failure Value}
    {rest : Value → Except Failure Result}
    (avoidsFirst : first ≠ .error failure)
    (avoidsRest : ∀ value, rest value ≠ .error failure) :
    (first >>= rest) ≠ .error failure := by
  cases first with
  | error other =>
      rintro ⟨⟩
      exact avoidsFirst rfl
  | ok value =>
      exact avoidsRest value

theorem foldlM_avoids {Failure Value Element : Type}
    {failure : Failure} {body : Value → Element → Except Failure Value}
    (avoids : ∀ value element, body value element ≠ .error failure)
    (elements : List Element) (value : Value) :
    elements.foldlM body value ≠ .error failure := by
  induction elements generalizing value with
  | nil =>
      simp [pure, Except.pure]
  | cons first rest inductionHypothesis =>
      rw [List.foldlM_cons]
      exact bind_avoids (avoids value first) inductionHypothesis

/-- What comes behind a parser does not stop. -/
theorem bind_ok_iff {Value : Type}
    {attempt : Except Stop Value} {rest : Value → Result} {stop : Stop} :
    (attempt >>= fun value => .ok (rest value)) = .error stop ↔
      attempt = .error stop := by
  cases attempt <;> simp [bind, Except.bind]

theorem orFault_accepts
    {attempt : Except Fault Result} {success : Bool} :
    orFault attempt ≠ .error (.returns success) := by
  cases attempt <;> simp [orFault]

theorem orFault_avoids
    {attempt : Except Fault Result} {fault : Fault}
    (avoids : attempt ≠ .error fault) :
    orFault attempt ≠ .error (.fault fault) := by
  cases attempt with
  | ok result => simp [orFault]
  | error other => simpa [orFault] using avoids

theorem getByte_accepts {success : Bool} :
    getByte src idx ≠ .error (.returns success) :=
  orFault_accepts

theorem getByte_eq (inside : idx < src.length) :
    getByte src idx = .ok (src.getD idx 0) := by
  rw [getByte, byteAt_eq inside]
  rfl

theorem getByte_behind (behind : src.length ≤ idx) :
    getByte src idx = .error (.fault .outOfBounds) := by
  rw [getByte, byteAt_behind behind]
  rfl

theorem getWord_eq (inside : idx + 2 ≤ src.length) :
    getWord src idx = .ok (wordAt src idx) := by
  rw [getWord, getByte_eq (by omega), getByte_eq (by omega)]
  rfl

theorem skipBytes_eq (inside : idx + count ≤ src.length) :
    skipBytes src idx count = .ok () := by
  induction count generalizing idx with
  | zero =>
      rfl
  | succ count inductionHypothesis =>
      rw [skipBytes, getByte_eq (by omega)]
      exact inductionHypothesis (by omega)

theorem skipBytes_accepts {success : Bool} :
    skipBytes src idx count ≠ .error (.returns success) := by
  induction count generalizing idx with
  | zero =>
      simp [skipBytes]
  | succ count inductionHypothesis =>
      exact bind_avoids getByte_accepts fun _ => inductionHypothesis

theorem skipBytes_behind
    (hasEntries : 0 < count)
    (behind : src.length < idx + count) :
    skipBytes src idx count = .error (.fault .outOfBounds) := by
  induction count generalizing idx with
  | zero =>
      omega
  | succ count inductionHypothesis =>
      rw [skipBytes]
      by_cases here : idx < src.length
      · rw [getByte_eq here]
        exact inductionHypothesis (by omega) (by omega)
      · rw [getByte_behind (by omega)]
        rfl

theorem sofComponents_eq (inside : idx + 3 * count ≤ src.length) :
    ∃ components, sofComponents src idx count = .ok components := by
  induction count generalizing idx with
  | zero =>
      exact ⟨[], rfl⟩
  | succ count inductionHypothesis =>
      obtain ⟨rest, isRest⟩ := @inductionHypothesis (idx + 3) (by omega)
      rw [sofComponents, getByte_eq (by omega), getByte_eq (by omega),
        getByte_eq (by omega), isRest]
      exact ⟨_, rfl⟩

theorem sofComponents_accepts {success : Bool} :
    sofComponents src idx count ≠ .error (.returns success) := by
  induction count generalizing idx with
  | zero =>
      simp [sofComponents]
  | succ count inductionHypothesis =>
      exact bind_avoids getByte_accepts fun _ =>
        bind_avoids getByte_accepts fun _ =>
          bind_avoids getByte_accepts fun _ =>
            bind_avoids inductionHypothesis fun _ => by simp

theorem sofComponents_behind
    (hasEntries : 0 < count)
    (behind : src.length < idx + 3 * count) :
    sofComponents src idx count = .error (.fault .outOfBounds) := by
  induction count generalizing idx with
  | zero =>
      omega
  | succ count inductionHypothesis =>
      rw [sofComponents]
      by_cases first : idx < src.length
      · by_cases second : idx + 1 < src.length
        · by_cases third : idx + 2 < src.length
          · have later :=
              @inductionHypothesis (idx + 3) (by omega) (by omega)
            rw [getByte_eq first, getByte_eq second, getByte_eq third, later]
            rfl
          · rw [getByte_eq first, getByte_eq second,
              getByte_behind (by omega)]
            rfl
        · rw [getByte_eq first, getByte_behind (by omega)]
          rfl
      · rw [getByte_behind (by omega)]
        rfl

end Reading

/-! ## What the parsers read -/

section Parsers

variable {Result : Type} {src : List Byte} {d : Decoder} {idx : Nat}

/-- The checks that the parsers begin with. -/
theorem segment_bind
    (least : Nat)
    (rest : Nat → Except Stop Result) :
    (do
      require (idx + 2 ≤ src.length)
      let segLen ← getWord src idx
      require (least ≤ segLen ∧ idx + segLen ≤ src.length)
      rest segLen) =
      if HasSegment src idx least then rest (wordAt src idx)
      else .error (.returns false) := by
  rw [require_bind]
  by_cases room : idx + 2 ≤ src.length
  · rw [if_pos room, getWord_eq room, ok_bind, require_bind]
    by_cases fits : least ≤ wordAt src idx ∧ idx + wordAt src idx ≤ src.length
    · rw [if_pos fits, if_pos ⟨room, fits⟩]
    · rw [if_neg fits, if_neg fun segment => fits segment.2]
  · rw [if_neg room, if_neg fun segment => room segment.1]

theorem skipSegment_refuses
    (malformed : ¬ HasSegment src idx 2) :
    skipSegment src idx = .error (.returns false) := by
  rw [skipSegment, require_bind]
  by_cases room : idx + 2 ≤ src.length
  · rw [if_pos room, getWord_eq room, ok_bind, require_bind]
    by_cases long : 2 ≤ wordAt src idx
    · have outside : ¬ idx + wordAt src idx ≤ src.length := fun inside =>
        malformed ⟨room, long, inside⟩
      rw [if_pos long, require_bind, if_neg outside]
    · rw [if_neg long]
  · rw [if_neg room]

theorem skipSegment_reads :
    skipSegment src idx ≠ .error (.fault .outOfBounds) := by
  rw [skipSegment, require_bind]
  split
  next room =>
    rw [getWord_eq room, ok_bind, require_bind]
    split
    · rw [require_bind]
      split
      · exact ok_ne_fault
      · exact returns_ne_fault
    · exact returns_ne_fault
  next =>
    exact returns_ne_fault

/-- This is the `SkipSegment` that the front end is compared with. -/
theorem skipSegment_eq_ok
    {next : Nat} :
    skipSegment src idx = .ok next ↔
      SoftwareDecoder.skipSegment src idx = some next := by
  have sameWord : SoftwareDecoder.getWord src idx = wordAt src idx := rfl
  rw [skipSegment, require_bind, SoftwareDecoder.skipSegment, sameWord]
  by_cases room : idx + 2 ≤ src.length
  · rw [if_pos room, getWord_eq room, ok_bind, require_bind,
      if_neg (Nat.not_lt.mpr room)]
    by_cases long : 2 ≤ wordAt src idx
    · rw [if_pos long, require_bind, if_neg (Nat.not_lt.mpr long)]
      by_cases inside : idx + wordAt src idx ≤ src.length
      · rw [if_pos inside, if_neg (Nat.not_lt.mpr inside)]
        simp
      · rw [if_neg inside, if_pos (Nat.not_le.mp inside)]
        simp
    · rw [if_neg long, if_pos (Nat.not_le.mp long)]
      simp
  · rw [if_neg room, if_pos (Nat.not_le.mp room)]
    simp

theorem parseSof0_refuses
    {capacity : Nat}
    (malformed : ¬ HasSegment src idx 8) :
    parseSof0 src capacity d idx = .error (.returns false) := by
  rw [parseSof0, segment_bind, if_neg malformed]

/-- A frame header that passes the checks ends with its components. -/
theorem parseSof0_eq
    {capacity : Nat}
    (segment : HasSegment src idx 8)
    (few : (src.getD (idx + 7) 0).toNat ≤ 3)
    (enough : wordAt src (idx + 5) * wordAt src (idx + 3) * 3 ≤ capacity) :
    ∃ parsed : List SofComponent → Nat × Decoder,
      parseSof0 src capacity d idx =
        (sofComponents src (idx + 8) (src.getD (idx + 7) 0).toNat >>=
          fun components => .ok (parsed components)) := by
  have room := segment.1
  have long := segment.2.1
  have inside := segment.2.2
  rw [parseSof0, segment_bind, if_pos segment, require_bind,
    if_pos (by omega), getByte_eq (by omega), ok_bind, getWord_eq (by omega),
    ok_bind, getWord_eq (by omega), ok_bind, getByte_eq (by omega), ok_bind,
    require_bind, if_pos few, require_bind, if_pos enough]
  exact ⟨_, rfl⟩

theorem parseSof0_reads
    {capacity : Nat} :
    parseSof0 src capacity d idx = .error (.fault .outOfBounds) ↔
      ¬ Sof0Fits src (src.length - idx) capacity idx := by
  by_cases passes :
    HasSegment src idx 8 ∧ (src.getD (idx + 7) 0).toNat ≤ 3 ∧
      wordAt src (idx + 5) * wordAt src (idx + 3) * 3 ≤ capacity
  · obtain ⟨segment, few, enough⟩ := passes
    have long := segment.2.1
    have inside := segment.2.2
    obtain ⟨parsed, isParsed⟩ := parseSof0_eq (d := d) segment few enough
    rw [isParsed, bind_ok_iff, Sof0Fits, imp_iff_right segment,
      imp_iff_right few, imp_iff_right enough]
    by_cases fits : idx + 8 + 3 * (src.getD (idx + 7) 0).toNat ≤ src.length
    · obtain ⟨components, isRead⟩ := sofComponents_eq fits
      rw [isRead]
      exact iff_of_false ok_ne_fault (not_not_intro (by omega))
    · rw [sofComponents_behind (by omega) (by omega)]
      exact iff_of_true rfl (by omega)
  · have fits : Sof0Fits src (src.length - idx) capacity idx :=
      fun segment few enough => absurd ⟨segment, few, enough⟩ passes
    refine iff_of_false ?_ (not_not_intro fits)
    rw [parseSof0, segment_bind]
    split
    next segment =>
      have long := segment.2.1
      have inside := segment.2.2
      rw [require_bind, if_pos (by omega), getByte_eq (by omega), ok_bind,
        getWord_eq (by omega), ok_bind, getWord_eq (by omega), ok_bind,
        getByte_eq (by omega), ok_bind, require_bind]
      split
      next few =>
        rw [require_bind,
          if_neg fun enough => passes ⟨segment, few, enough⟩]
        exact returns_ne_fault
      next =>
        exact returns_ne_fault
    next =>
      exact returns_ne_fault

/-- A frame header with too many components for a limit is not refused. -/
theorem parseSof0_accepts
    {limit capacity : Nat} {success : Bool}
    (misfit : ¬ Sof0Fits src limit capacity idx) :
    parseSof0 src capacity d idx ≠ .error (.returns success) := by
  simp only [Sof0Fits, not_forall] at misfit
  obtain ⟨segment, few, enough, -⟩ := misfit
  obtain ⟨parsed, isParsed⟩ := parseSof0_eq (d := d) segment few enough
  rw [isParsed, ne_eq, bind_ok_iff]
  exact sofComponents_accepts

/-- What faults behind a read is what the read faults with. -/
theorem orFault_bind_fault
    {Value : Type}
    {attempt : Except Fault Value} {rest : Value → Result} {fault : Fault} :
    (orFault attempt >>= fun value => .ok (rest value)) =
        .error (.fault fault) ↔
      attempt = .error fault := by
  cases attempt <;> simp [orFault, bind, Except.bind]

theorem storeQuantisers_reads
    {data : List Byte} {tables : DqtTables} {tableNum : Nat}
    (positions : List Nat) :
    positions.foldlM (storeQuantiser data tableNum) tables =
        .error .outOfBounds ↔
      ∃ x ∈ positions, data.length ≤ 1 + x := by
  induction positions generalizing tables with
  | nil =>
      simp [pure, Except.pure]
  | cons first rest inductionHypothesis =>
      rw [List.foldlM_cons, storeQuantiser]
      by_cases inside : 1 + first < data.length
      · rw [byteAt_eq inside, ok_bind, ok_bind, inductionHypothesis]
        simp [Nat.not_le.mpr inside]
      · rw [byteAt_behind (by omega)]
        exact iff_of_true rfl ⟨first, List.mem_cons_self, by omega⟩

theorem dqtProcess_reads
    {data : List Byte} {tables : DqtTables} :
    dqtProcess data tables = .error .outOfBounds ↔ data.length < 65 := by
  rw [dqtProcess]
  by_cases hasEntries : 0 < data.length
  · rw [byteAt_eq hasEntries, ok_bind, storeQuantisers_reads]
    constructor
    · rintro ⟨x, member, behind⟩
      have inRange := List.mem_range.mp member
      omega
    · intro short
      exact ⟨63, List.mem_range.mpr (by omega), by omega⟩
  · rw [byteAt_behind (by omega)]
    exact iff_of_true rfl (by omega)

theorem parseDqt_refuses
    (malformed : ¬ HasSegment src idx 2) :
    parseDqt src d idx = .error (.returns false) := by
  rw [parseDqt, segment_bind, if_neg malformed]

theorem parseDqt_reads :
    parseDqt src d idx = .error (.fault .outOfBounds) ↔
      ¬ DqtFits src (src.length - idx) idx := by
  rw [parseDqt, segment_bind]
  by_cases segment : HasSegment src idx 2
  · have room := segment.1
    rw [if_pos segment, DqtFits, imp_iff_right segment, orFault_bind_fault,
      dqtProcess_reads, List.length_drop]
    omega
  · rw [if_neg segment]
    exact iff_of_false returns_ne_fault
      (not_not_intro fun segment' => absurd segment' segment)

/-- A quantisation table that is too short for a limit is not refused. -/
theorem parseDqt_accepts
    {limit : Nat} {success : Bool}
    (misfit : ¬ DqtFits src limit idx) :
    parseDqt src d idx ≠ .error (.returns success) := by
  obtain ⟨segment, -⟩ := Classical.not_imp.mp misfit
  rw [parseDqt, segment_bind, if_pos segment, ne_eq, bind_ok_iff]
  exact orFault_accepts

theorem push_reads
    {maxSize : Nat} (bytes : List Byte) (s : BitBuffer) :
    pushScan maxSize bytes idx s ≠ .error .outOfBounds := by
  induction bytes generalizing idx s with
  | nil =>
      simp [pushScan]
  | cons b rest inductionHypothesis =>
      rw [pushScan, push]
      split
      · simp [bind, Except.bind]
      · rw [ok_bind]
        split
        · exact inductionHypothesis _
        · simp

theorem parseSos_refuses
    (malformed : ¬ HasSegment src idx 2) :
    parseSos src d idx = .error (.returns false) := by
  rw [parseSos, require_bind]
  split
  · rw [segment_bind, if_neg malformed]
  · rfl

theorem parseSos_reads :
    parseSos src d idx = .error (.fault .outOfBounds) ↔
      d.mode ≠ .unsupported ∧ ¬ SosFits src (src.length - idx) idx := by
  rw [parseSos, require_bind]
  by_cases supported : d.mode ≠ .unsupported
  · rw [if_pos supported, segment_bind]
    by_cases segment : HasSegment src idx 2
    · have long := segment.2.1
      have inside := segment.2.2
      rw [if_pos segment, require_bind, if_pos (by omega), SosFits,
        imp_iff_right segment]
      by_cases counted : idx + 2 < src.length
      · rw [getByte_eq counted, ok_bind]
        by_cases selected :
          idx + 3 + 2 * (src.getD (idx + 2) 0).toNat ≤ src.length
        · rw [skipBytes_eq selected, ok_bind]
          by_cases spectral :
            idx + 3 + 2 * (src.getD (idx + 2) 0).toNat + 3 ≤ src.length
          · rw [skipBytes_eq spectral, ok_bind, orFault_bind_fault]
            refine iff_of_false (push_reads _ _) ?_
            omega
          · rw [skipBytes_behind (by omega) (by omega)]
            exact iff_of_true rfl ⟨supported, by omega⟩
        · rw [skipBytes_behind (by omega) (by omega)]
          exact iff_of_true rfl ⟨supported, by omega⟩
      · rw [getByte_behind (by omega)]
        exact iff_of_true rfl ⟨supported, by omega⟩
    · rw [if_neg segment]
      exact iff_of_false returns_ne_fault
        fun both => both.2 fun segment' => absurd segment' segment
  · rw [if_neg supported]
    exact iff_of_false returns_ne_fault fun both => supported both.1

/-- A scan header that is too short for a limit is not refused. -/
theorem parseSos_accepts
    {limit : Nat} {success : Bool}
    (supported : d.mode ≠ .unsupported)
    (misfit : ¬ SosFits src limit idx) :
    parseSos src d idx ≠ .error (.returns success) := by
  obtain ⟨segment, -⟩ := Classical.not_imp.mp misfit
  have long := segment.2.1
  have inside := segment.2.2
  rw [parseSos, require_bind, if_pos supported, segment_bind,
    if_pos segment, require_bind, if_pos (by omega)]
  exact bind_avoids getByte_accepts fun _ =>
    bind_avoids skipBytes_accepts fun _ =>
      bind_avoids skipBytes_accepts fun _ =>
        bind_avoids orFault_accepts fun _ => by simp

/-! ## The tables of a DHT segment -/

/-- The loop over the symbols of one code length reads them all. -/
theorem fillLength_reads
    {data : List Byte} {codeLen symbols : Nat} {s : Filling}
    (hasEntries : 0 < symbols)
    (behind : data.length < s.buf + symbols) :
    fillLength data codeLen symbols s = .error .outOfBounds := by
  induction symbols generalizing s with
  | zero =>
      omega
  | succ symbols inductionHypothesis =>
      rw [fillLength]
      by_cases inside : s.buf < data.length
      · rw [byteAt_eq inside, ok_bind]
        refine inductionHypothesis ?_ ?_
        · omega
        · simp only
          omega
      · rw [byteAt_behind (by omega)]
        rfl

/-- The loop over the code lengths reads the symbols that are counted. -/
theorem fillLengths_reads
    {data : List Byte} (counts : List Byte) (codeLen : Nat) {s : Filling}
    (inside : s.buf ≤ data.length) :
    (s.buf + (counts.map BitVec.toNat).sum ≤ data.length →
      ∃ filled, fillLengths data codeLen counts s = .ok filled ∧
        filled.buf = s.buf + (counts.map BitVec.toNat).sum ∧
        filled.entries.length =
          s.entries.length + (counts.map BitVec.toNat).sum) ∧
    (data.length < s.buf + (counts.map BitVec.toNat).sum →
      fillLengths data codeLen counts s = .error .outOfBounds) := by
  induction counts generalizing codeLen s with
  | nil =>
      refine ⟨fun _ => ⟨s, rfl, rfl, rfl⟩, fun behind => ?_⟩
      simp at behind
      omega
  | cons count counts inductionHypothesis =>
      rw [List.map_cons, List.sum_cons, fillLengths]
      by_cases here : s.buf + count.toNat ≤ data.length
      · rw [fillLength_eq here, ok_bind]
        have later := inductionHypothesis (codeLen + 1) (s := {
            buf := s.buf + count.toNat
            code := (s.code + BitVec.ofNat 16 count.toNat) <<< 1
            entries :=
              s.entries ++ lengthEntries data codeLen count.toNat s })
          here
        simp only [List.length_append, lengthEntries, List.length_map,
          List.length_range] at later
        rw [← Nat.add_assoc, ← Nat.add_assoc]
        exact later
      · refine ⟨fun fits => ?_, fun behind => ?_⟩
        · omega
        · rw [fillLength_reads (by omega) (by omega)]
          rfl

theorem symbolTotal_eq (data : List Byte) (consumed : Nat) :
    (((List.range 16).map fun offset =>
      data.getD (consumed + 1 + offset) 0).map BitVec.toNat).sum =
      symbolTotal data consumed := by
  rw [symbolTotal, List.map_map]
  rfl

/-- What an iteration of `process` reads, and where it goes on. -/
theorem processTable_reads
    {data : List Byte} {consumed : Nat} (tables : DhtTables)
    {index : Fin 4}
    (header : consumed + 17 ≤ data.length)
    (isIndex : tableIdx (data.getD consumed 0) = .ok index) :
    (consumed + 17 + symbolTotal data consumed ≤ data.length →
      symbolTotal data consumed ≤ 255 ∧
          (∃ next, processTable data consumed tables =
            .ok (consumed + 17 + symbolTotal data consumed, next)) ∨
        255 < symbolTotal data consumed ∧
          processTable data consumed tables = .error .overflow) ∧
    (data.length < consumed + 17 + symbolTotal data consumed →
      processTable data consumed tables = .error .outOfBounds) := by
  have reads :=
    fillLengths_reads
      ((List.range 16).map fun offset => data.getD (consumed + 1 + offset) 0) 1
      (s := { buf := consumed + 17, code := 0, entries := [] }) header
  rw [symbolTotal_eq] at reads
  rw [processTable, byteAt_eq (by omega), ok_bind, isIndex, ok_bind,
    symbCount_eq (by omega), ok_bind]
  refine ⟨fun fits => ?_, fun behind => ?_⟩
  · obtain ⟨filled, isFilled, atEnd, entries⟩ := reads.1 fits
    rw [isFilled, ok_bind, entries]
    simp only [List.length_nil, Nat.zero_add]
    by_cases small : symbolTotal data consumed ≤ 255
    · rw [if_pos small, atEnd]
      exact .inl ⟨small, _, rfl⟩
    · rw [if_neg small]
      exact .inr ⟨by omega, rfl⟩
  · rw [reads.2 behind]
    rfl

/-- `process` ends with what is wrong with the tables it comes to. -/
theorem processTables_fault
    {data : List Byte} {len iterations consumed : Nat} {tables : DhtTables}
    {fault : Fault}
    (payload : len ≤ data.length) :
    processTables data len iterations consumed tables = .error fault ↔
      tablesFault data data.length len iterations consumed = some fault := by
  induction iterations generalizing consumed tables with
  | zero =>
      simp [processTables, tablesFault]
  | succ iterations inductionHypothesis =>
      rw [processTables, tablesFault]
      by_cases header : consumed + 17 ≤ len
      · rw [if_pos header, if_pos header]
        cases isIndex : tableIdx (data.getD consumed 0) with
        | error other =>
            rw [processTable, byteAt_eq (by omega), ok_bind, isIndex]
            simp [bind, Except.bind]
        | ok index =>
            obtain ⟨fits, behind⟩ :=
              processTable_reads tables
                (show consumed + 17 ≤ data.length by omega) isIndex
            simp only
            by_cases whole :
              consumed + 17 + symbolTotal data consumed ≤ data.length
            · rw [if_neg (by omega)]
              rcases fits whole with ⟨few, next, isNext⟩ | ⟨many, overflows⟩
              · rw [isNext, ok_bind, inductionHypothesis, if_neg (by omega)]
              · rw [overflows, if_pos many]
                simp [bind, Except.bind]
            · rw [behind (by omega), if_pos (by omega)]
              simp [bind, Except.bind]
      · rw [if_neg header, if_neg header]
        simp

theorem parseDht_refuses
    (malformed : ¬ HasSegment src idx 2) :
    parseDht src d idx = .error (.returns false) := by
  rw [parseDht, segment_bind, if_neg malformed]

/-- `ParseDht` faults with what is wrong with its tables. -/
theorem parseDht_fault {fault : Fault} :
    parseDht src d idx = .error (.fault fault) ↔
      HasSegment src idx 2 ∧
        dhtFault src (src.length - idx) idx = some fault := by
  rw [parseDht, segment_bind]
  by_cases segment : HasSegment src idx 2
  · have inside := segment.2.2
    have size : (src.drop (idx + 2)).length = src.length - idx - 2 := by
      rw [List.length_drop]
      omega
    rw [if_pos segment, orFault_bind_fault, dhtProcess,
      processTables_fault (by omega), size, dhtFault]
    exact (and_iff_right segment).symm
  · rw [if_neg segment]
    exact iff_of_false returns_ne_fault fun both => segment both.1

theorem parseDht_reads :
    parseDht src d idx = .error (.fault .outOfBounds) ↔
      ¬ DhtFits src (src.length - idx) idx := by
  rw [parseDht_fault, DhtFits, Classical.not_imp, not_not]

/-- Tables that have a length are not refused. -/
theorem parseDht_accepts
    {success : Bool}
    (segment : HasSegment src idx 2) :
    parseDht src d idx ≠ .error (.returns success) := by
  rw [parseDht, segment_bind, if_pos segment, ne_eq, bind_ok_iff]
  exact orFault_accepts

end Parsers

/-! ## `DecodeImage` -/

section Image

variable {d : Decoder} {conversion : RgbConversion}

theorem intSum_avoids {first second : Nat} :
    intSum first second ≠ .error .outOfBounds := by
  rw [intSum]
  split <;> simp

theorem eof_avoids {bits : BitBuffer} :
    eof bits ≠ .error .outOfBounds :=
  bind_avoids intSum_avoids fun rounded => by simp

theorem advance_avoids {bits : BitBuffer} {count : Nat} :
    advance bits count ≠ .error .outOfBounds :=
  bind_avoids intSum_avoids fun rdOffset => by simp

theorem readWord_avoids {maxSize : Nat} {bits : BitBuffer} :
    readWord maxSize bits ≠ .error .outOfBounds := by
  refine bind_avoids eof_avoids fun ended => ?_
  split
  · simp
  · split <;> simp

theorem emit_avoids {s : BlockState} {coeff : Nat} {value : BitVec 16} :
    emit s coeff value ≠ .error .outOfBounds := by
  rw [emit]
  split <;> simp

theorem decodeLoop_avoids
    {maxSize left coeff : Nat} {dc ac : List DhtEntry} {s : BlockState} :
    decodeLoop maxSize dc ac left coeff s ≠ .error .outOfBounds := by
  induction left generalizing coeff s with
  | zero =>
      simp [decodeLoop]
  | succ left inductionHypothesis =>
      rw [decodeLoop]
      split
      · simp
      · refine bind_avoids readWord_avoids fun word => ?_
        dsimp only
        split
        · exact bind_avoids advance_avoids fun bits =>
            bind_avoids emit_avoids fun next => inductionHypothesis
        split
        · exact bind_avoids advance_avoids fun bits => by simp
        split
        · exact bind_avoids advance_avoids fun bits => inductionHypothesis
        · refine bind_avoids advance_avoids fun bits => ?_
          generalize (if 15 < BitVec.toNat _ then _ else coeff) = place
          split
          · exact bind_avoids emit_avoids fun next => inductionHypothesis
          · exact inductionHypothesis

theorem processSamples_avoids
    {tables : DqtTables} {quantTable : Nat} {samples : List Sample} :
    processSamples tables quantTable samples ≠ .error .outOfBounds := by
  rw [processSamples]
  refine foldlM_avoids (fun blockOut sample => ?_) _ _
  rw [processSample, dqtLookup]
  split <;> simp [bind, Except.bind]

theorem decodeBlocks_avoids
    (components : List Component) (s : ImageState) :
    decodeBlocks d components s ≠ .error .outOfBounds := by
  induction components generalizing s with
  | nil =>
      simp [decodeBlocks]
  | cons component rest inductionHypothesis =>
      have block : decodeBlock d component s ≠ .error .outOfBounds := by
        refine bind_avoids ?_ fun decoded =>
          bind_avoids processSamples_avoids fun blockOut => by simp
        exact bind_avoids decodeLoop_avoids fun result => by simp
      exact bind_avoids block fun first =>
        bind_avoids (inductionHypothesis first.2) fun others => by simp

theorem convertBlock_avoids
    {blockNum : Nat} {y cb cr : Nat → Int} {dst : Destination} :
    convertBlock conversion d blockNum y cb cr dst ≠
      .error (.fault .outOfBounds) := by
  rw [convertBlock]
  split
  · simp
  · refine foldlM_avoids (fun dst i => ?_) _ _
    rw [writeRgbPixel_eq]
    cases Software.writeRgbPixel _ _ _ _ _ dst <;> simp [ofOption]

theorem outputMcu_avoids
    {s : ImageOutput} {mcu : McuOutput} :
    outputMcu conversion d s mcu ≠ .error (.fault .outOfBounds) := by
  rw [outputMcu]
  split
  · exact bind_avoids convertBlock_avoids fun _ =>
      bind_avoids convertBlock_avoids fun _ =>
        bind_avoids convertBlock_avoids fun _ =>
          bind_avoids convertBlock_avoids fun _ => by simp
  · exact bind_avoids convertBlock_avoids fun _ => by simp
  · exact bind_avoids convertBlock_avoids fun _ => by simp
  · simp

/-- The source is not read while an image is decoded. -/
theorem imageStep_avoids {s : ImageRun} :
    imageStep conversion d s ≠ .error (.fault .outOfBounds) := by
  refine bind_avoids ?_ fun blocks =>
    bind_avoids outputMcu_avoids fun output => by simp
  exact orFault_avoids (decodeBlocks_avoids (mcuComponents d.mode) s.state)

end Image

/-! ## Runs -/

section Runs

variable {src : List Byte} {conversion : RgbConversion} {m : Machine}

/-- A byte that is not behind `0xFF` is only read. -/
theorem atByte_plain
    {b : Byte}
    (notLast : m.lastB ≠ 0xFF) :
    atByte src m b = .ok { m with i := m.i + 1, lastB := b } := by
  simp only [atByte, notLast, false_and, if_false]

theorem AtMarker.same
    {first second : Byte}
    (atFirst : AtMarker src m first)
    (atSecond : AtMarker src m second) :
    first = second :=
  atFirst.byte.symm.trans atSecond.byte

theorem step_atMarker
    {marker : Byte}
    (atMarker : AtMarker src m marker) :
    step conversion src m = atByte src m marker := by
  rw [step, atMarker.phase]
  simp only
  rw [if_pos atMarker.inside, getByte_eq atMarker.inside, ok_bind,
    atMarker.byte]

/-! An iteration at the marker of a segment stops as its parser does. -/

theorem step_sof0
    (atSof0 : AtMarker src m 0xC0) {stop : Stop} :
    step conversion src m = .error stop ↔
      parseSof0 src m.dst.capacity m.decoder (m.i + 1) = .error stop := by
  rw [step_atMarker atSof0]
  simp only [atByte, atSof0.last, true_and]
  rw [if_neg (by decide), if_pos trivial, bind_ok_iff]

theorem step_dqt
    (atDqt : AtMarker src m 0xDB) {stop : Stop} :
    step conversion src m = .error stop ↔
      parseDqt src m.decoder (m.i + 1) = .error stop := by
  rw [step_atMarker atDqt]
  simp only [atByte, atDqt.last, true_and]
  rw [if_neg (by decide), if_neg (by decide), if_pos trivial, bind_ok_iff]

theorem step_dht
    (atDht : AtMarker src m 0xC4) {stop : Stop} :
    step conversion src m = .error stop ↔
      parseDht src m.decoder (m.i + 1) = .error stop := by
  rw [step_atMarker atDht]
  simp only [atByte, atDht.last, true_and]
  rw [if_neg (by decide), if_neg (by decide), if_neg (by decide),
    if_pos trivial, bind_ok_iff]

theorem step_sos
    (atSos : AtMarker src m 0xDA) {stop : Stop} :
    step conversion src m = .error stop ↔
      parseSos src m.decoder (m.i + 1) = .error stop := by
  rw [step_atMarker atSos]
  simp only [atByte, atSos.last, true_and]
  rw [if_neg (by decide), if_neg (by decide), if_neg (by decide),
    if_neg (by decide), if_pos trivial, bind_ok_iff]

theorem step_skipped
    {marker : Byte}
    (atMarker : AtMarker src m marker)
    (isSkipped : skipped marker) {stop : Stop} :
    step conversion src m = .error stop ↔
      skipSegment src (m.i + 1) = .error stop := by
  have isNot {other : Byte} (notSkipped : ¬ skipped other) :
      marker ≠ other :=
    fun same => notSkipped (same ▸ isSkipped)
  rw [step_atMarker atMarker]
  simp only [atByte, atMarker.last, true_and]
  rw [if_neg (isNot (by decide)), if_neg (isNot (by decide)),
    if_neg (isNot (by decide)), if_neg (isNot (by decide)),
    if_neg (isNot (by decide)), if_neg (isNot (by decide)),
    if_neg (isNot (by decide)), if_pos isSkipped, bind_ok_iff]

/-- An iteration of the marker loop that calls no parser skips a segment. -/
theorem step_elsewhere
    {fault : Fault}
    (isMarkers : m.phase = .markers)
    (skips : skipSegment src (m.i + 1) ≠ .error (.fault fault))
    (notSof0 : ¬ AtMarker src m 0xC0)
    (notDqt : ¬ AtMarker src m 0xDB)
    (notDht : ¬ AtMarker src m 0xC4)
    (notSos : ¬ AtMarker src m 0xDA) :
    step conversion src m ≠ .error (.fault fault) := by
  by_cases inside : m.i < src.length
  · by_cases last : m.lastB = 0xFF
    · have atMarker : AtMarker src m (src.getD m.i 0) :=
        ⟨isMarkers, inside, last, rfl⟩
      have isNot {marker : Byte} (elsewhere : ¬ AtMarker src m marker) :
          src.getD m.i 0 ≠ marker :=
        fun same => elsewhere (same ▸ atMarker)
      rw [step_atMarker atMarker]
      simp only [atByte, last, true_and]
      split
      · exact ok_ne_fault
      rw [if_neg (isNot notSof0), if_neg (isNot notDqt),
        if_neg (isNot notDht), if_neg (isNot notSos)]
      split
      · exact returns_ne_fault
      split
      · exact returns_ne_fault
      split
      · rw [ne_eq, bind_ok_iff]
        exact skips
      · exact ok_ne_fault
    · rw [step, isMarkers]
      simp only
      rw [if_pos inside, getByte_eq inside, ok_bind, atByte_plain last]
      exact ok_ne_fault
  · rw [step, isMarkers]
    simp only
    rw [if_neg inside]
    exact returns_ne_fault

theorem step_image_reads
    {run : ImageRun}
    (isImage : m.phase = .image run) :
    step conversion src m ≠ .error (.fault .outOfBounds) := by
  rw [step, isImage]
  refine bind_avoids (orFault_avoids eof_avoids) fun ended => ?_
  split
  · exact ok_ne_fault
  · rw [ne_eq, bind_ok_iff]
    exact imageStep_avoids

/-- An iteration reads behind the source when its parser does not fit. -/
theorem step_reads (conversion : RgbConversion) :
    step conversion src m ≠ .error (.fault .outOfBounds) ↔
      FitsSource src m := by
  constructor
  · intro inside
    refine ⟨fun atSof0 => ?_, fun atDqt => ?_, fun atDht => ?_,
      fun atSos supported => ?_⟩
    · rw [ne_eq, step_sof0 atSof0, parseSof0_reads, not_not] at inside
      exact inside
    · rw [ne_eq, step_dqt atDqt, parseDqt_reads, not_not] at inside
      exact inside
    · rw [ne_eq, step_dht atDht, parseDht_reads, not_not] at inside
      exact inside
    · rw [ne_eq, step_sos atSos, parseSos_reads, not_and, not_not] at inside
      exact inside supported
  · intro fits
    by_cases atSof0 : AtMarker src m 0xC0
    · rw [ne_eq, step_sof0 atSof0, parseSof0_reads, not_not]
      exact fits.sof0 atSof0
    by_cases atDqt : AtMarker src m 0xDB
    · rw [ne_eq, step_dqt atDqt, parseDqt_reads, not_not]
      exact fits.dqt atDqt
    by_cases atDht : AtMarker src m 0xC4
    · rw [ne_eq, step_dht atDht, parseDht_reads, not_not]
      exact fits.dht atDht
    by_cases atSos : AtMarker src m 0xDA
    · rw [ne_eq, step_sos atSos, parseSos_reads, not_and, not_not]
      exact fits.sos atSos
    cases isPhase : m.phase with
    | markers =>
        exact step_elsewhere isPhase skipSegment_reads atSof0 atDqt atDht atSos
    | image run =>
        exact step_image_reads isPhase

/-- A truncated segment ends the decoder. -/
theorem step_truncated
    (truncated : Truncated src m) :
    step conversion src m = .error (.returns false) := by
  rcases truncated with
    ⟨atSof0, noSegment⟩ | ⟨marker, atMarker, listed | isSkipped, noSegment⟩
  · rw [step_sof0 atSof0]
    exact parseSof0_refuses noSegment
  · simp only [List.mem_cons, List.not_mem_nil, or_false] at listed
    rcases listed with rfl | rfl | rfl
    · rw [step_dqt atMarker]
      exact parseDqt_refuses noSegment
    · rw [step_dht atMarker]
      exact parseDht_refuses noSegment
    · rw [step_sos atMarker]
      exact parseSos_refuses noSegment
  · rw [step_skipped atMarker isSkipped]
    exact skipSegment_refuses noSegment

/-- What announces more than its segment holds is not refused. -/
theorem wellFormed_of_returns
    {success : Bool}
    (returns : step conversion src m = .error (.returns success)) :
    WellFormed src m := by
  refine ⟨⟨fun atSof0 => ?_, fun atDqt => ?_, fun atDht => ?_,
    fun atSos supported => ?_⟩, fun atDht segment => ?_⟩
  · by_contra misfit
    exact parseSof0_accepts misfit ((step_sof0 atSof0).mp returns)
  · by_contra misfit
    exact parseDqt_accepts misfit ((step_dqt atDqt).mp returns)
  · intro segment
    exact absurd ((step_dht atDht).mp returns) (parseDht_accepts segment)
  · by_contra misfit
    exact parseSos_accepts supported misfit ((step_sos atSos).mp returns)
  · exact absurd ((step_dht atDht).mp returns) (parseDht_accepts segment)

theorem decode_succ
    {dst : Destination} (count : Nat) :
    decode conversion src dst (count + 1) =
      (decode conversion src dst count >>= step conversion src) := by
  rw [decode, decode, require_bind, require_bind]
  split
  · exact iterate_succ count
  · rfl

/--
No run reads behind the source if and only if every parser that it comes to
reads inside; every malformed or truncated segment makes it return false if
and only if the segments that it comes to hold what their fields announce.
-/
theorem reads_inside_iff
    (conversion : RgbConversion) (src : List Byte) (dst : Destination) :
    (ReadsInside src conversion dst ↔
      ∀ count m, decode conversion src dst count = .ok m →
        FitsSource src m) ∧
    (Refuses src conversion dst ↔
      ∀ count m, decode conversion src dst count = .ok m →
        WellFormed src m) := by
  refine ⟨⟨?_, ?_⟩, ⟨?_, ?_⟩⟩
  · intro inside count m reached
    rw [← step_reads conversion]
    intro behind
    refine inside (count + 1) ?_
    rw [decode_succ, reached]
    exact behind
  · intro fits count behind
    rw [decode, require_bind] at behind
    split at behind
    next given =>
      obtain ⟨before, last, reached, stops⟩ := last_of_ended behind
      refine (step_reads conversion).mpr (fits before last ?_) stops
      rw [decode, require_bind, if_pos given]
      exact reached
    next =>
      simp at behind
  · intro refuses count m reached
    by_contra malformed
    exact malformed
      (wellFormed_of_returns (refuses count m reached (.inr malformed)))
  · intro wellFormed count m reached malformed
    rcases malformed with truncated | malformed
    · exact step_truncated truncated
    · exact absurd (wellFormed count m reached) malformed

end Runs

/-! ## A frame header without its components -/

/-- A frame header of three components that ends before them. -/
def withoutComponents : List Byte :=
  [0xFF, 0xC0, 0x00, 0x08, 0x08, 0x00, 0x01, 0x00, 0x01, 0x03]

/-- Room for one pixel. -/
def onePixel : Destination where
  bytes := fun _ => 0
  capacity := 3

/-- The first component is read behind the source. -/
theorem reads_component_behind :
    ¬ ∀ conversion src dst,
      ReadsInside src conversion dst ∧ Refuses src conversion dst := by
  intro claimed
  obtain ⟨inside, -⟩ := claimed unroundedConversion withoutComponents onePixel
  exact inside 2 rfl

end CoreJpeg.SoftwareJpegDecoder
