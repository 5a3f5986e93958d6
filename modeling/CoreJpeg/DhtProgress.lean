import CoreJpeg.DhtLoad

namespace CoreJpeg.JpegDht

open CanonicalCode Clocked

/-!
# Does the loader ever stall?

The loader passes an empty code length while a byte waits, and a definition
ends with its last symbol.  A definition without symbols ends only with its
segment: in front of another one the loader refuses the next byte forever.
This module shows that nothing else stalls it.
-/

section Property

/-- The byte that is taken at the configuration port. -/
def takenByte (sys : System) (i : Input) : List Byte :=
  if accepts sys.dht (sys.pins i) then [(sys.pins i).cfgData] else []

/-- A byte is presented at the configuration port. -/
def presented (sys : System) (i : Input) : Bool := (sys.pins i).cfgValid

/-- The payload of a segment. -/
def payload (tables : List TableDef) : List Byte :=
  tables.flatMap TableDef.bytes

/-- The loader and its master at the beginning of a segment. -/
def System.start (s : State) (tables : List (TableDef × Bool)) : System where
  dht := s
  left := stream tables
  stalled := 0

/--
In one run no byte is refused sixteen times, each byte is taken once and in
order, only so many bytes are presented, and behind the last one the loader is
idle.
-/
structure LoadsSegment (s : State) (tables : List TableDef)
    (cycles : List Input) : Prop where
  patient :
    (run System.step (.start s (segment tables)) cycles).stalled < 16
  once :
    observe System.step takenByte (.start s (segment tables)) cycles ++
        (run System.step (.start s (segment tables)) cycles).left.map
          (fun byte => byte.1) =
      payload tables
  finite :
    tally System.step presented (.start s (segment tables)) cycles ≤
      16 * (payload tables).length
  restored :
    (run System.step (.start s (segment tables)) cycles).left = [] →
      LoaderIdle (run System.step (.start s (segment tables)) cycles).dht

end Property

/-! ## Empty definitions -/

/-- A definition without symbols ends its segment. -/
def EndsEmpty (entry : TableDef × Bool) : Prop :=
  entry.1.size = 0 → entry.2 = true

/-- No definition without symbols is in front of another one. -/
structure Loader.Fits (loader : Loader) : Prop where
  rest : ∀ entry ∈ loader.rest, EndsEmpty entry
  place :
    match loader.place with
    | .between => True
    | .counting table last _ => EndsEmpty (table, last)
    | .filling .. => True
    | .stuck .. => False

theorem Loader.Fits.advance
    {loader : Loader}
    (fits : loader.Fits) :
    loader.advance.Fits := by
  obtain ⟨rest, here⟩ := fits
  obtain ⟨place, remaining, store⟩ := loader
  cases place with
  | between =>
      cases remaining with
      | nil =>
          exact ⟨rest, trivial⟩
      | cons first later =>
          refine ⟨fun entry member => rest entry ?_, rest first ?_⟩
          · exact List.mem_cons_of_mem _ member
          · exact List.mem_cons_self
  | counting table last length =>
      refine ⟨rest, ?_⟩
      simp only [Loader.advance]
      by_cases atEnd : length + 1 = 16
      · rw [if_pos atEnd, Loader.afterCounts]
        by_cases empty : table.size = 0
        · have ending : last = true := here empty
          simp [empty, ending]
        · simp [empty]
      · rw [if_neg atEnd]
        exact here
  | filling table last length index =>
      simp only [Loader.advance]
      by_cases empty : table.count length = 0
      · rw [if_pos empty]
        exact ⟨rest, trivial⟩
      · rw [if_neg empty]
        refine ⟨rest, ?_⟩
        by_cases atEnd : offset table.count length + index + 1 = table.size
        · simp [atEnd]
        · by_cases ofLength : index + 1 = table.count length <;>
            simp [atEnd, ofLength]
  | stuck table last =>
      exact ⟨rest, here⟩

/-- How often the present byte may have been refused. -/
def Loader.refusals (loader : Loader) : Nat :=
  match loader.place with
  | .filling _ _ length _ => length
  | _ => 0

/-- The circuit follows a loader that fits, and its byte waits not too long. -/
structure Runs (loader : Loader) (sys : System) : Prop
    extends Follows loader sys where
  fits : loader.Fits
  waiting : sys.stalled ≤ loader.refusals

theorem Runs.patient
    {loader : Loader}
    {sys : System}
    (runs : Runs loader sys) :
    sys.stalled < 16 := by
  have waiting := runs.waiting
  have holds := runs.holds
  rw [Loader.refusals] at waiting
  split at waiting
  next table last length index atPlace =>
    rw [atPlace] at holds
    have inside := TableDef.length_lt (AtSymbol.more holds)
    omega
  next =>
    omega

/-- When no byte is left the loader is between two definitions. -/
theorem Runs.restored
    {loader : Loader}
    {sys : System}
    (runs : Runs loader sys)
    (nothing : sys.left = []) :
    LoaderIdle sys.dht := by
  have head := runs.left_head
  have holds := runs.holds
  have here := runs.fits.place
  rw [← runs.left, nothing] at head
  obtain ⟨place, rest, store⟩ := loader
  cases place with
  | between =>
      exact holds
  | counting table last length =>
      simp [Loader.present] at head
  | filling table last length index =>
      simp [Loader.present] at head
  | stuck table last =>
      exact here.elim

/-- Each cycle keeps the loader going. -/
theorem Runs.step
    {loader : Loader}
    {sys : System}
    (runs : Runs loader sys)
    (i : Input) :
    ∃ next, Runs next (sys.step i) := by
  cases valid : (sys.pins i).cfgValid with
  | false =>
      refine ⟨loader, runs.toFollows.wait valid, runs.fits, ?_⟩
      simpa [System.step, accepts, valid] using runs.waiting
  | true =>
      obtain ⟨taken, follows⟩ := runs.toFollows.present valid
      refine ⟨loader.advance, follows, runs.fits.advance, ?_⟩
      have waiting := runs.waiting
      have here := runs.fits.place
      cases takes : loader.takes with
      | true =>
          simp [System.step, taken, takes]
      | false =>
          simp only [System.step, taken, takes, valid, Bool.false_eq_true,
            if_false, if_true]
          obtain ⟨place, rest, store⟩ := loader
          cases place with
          | between =>
              simp [Loader.takes] at takes
          | counting table last length =>
              simp [Loader.takes] at takes
          | filling table last length index =>
              have empty : table.count length = 0 := by
                simpa [Loader.takes] using takes
              simp only [Loader.advance, if_pos empty, Loader.refusals]
                at waiting ⊢
              omega
          | stuck table last =>
              exact here.elim

/-- How often the bytes that are left may still be presented. -/
def System.patience (sys : System) : Nat :=
  16 * sys.left.length - sys.stalled

/-- A refused byte and a taken one both use up patience. -/
theorem Runs.uses
    {loader : Loader}
    {sys : System}
    (runs : Runs loader sys)
    (i : Input) :
    (presented sys i).toNat + (sys.step i).patience ≤ sys.patience := by
  obtain ⟨next, after⟩ := runs.step i
  have before := runs.patient
  have later := after.patient
  cases valid : (sys.pins i).cfgValid with
  | false =>
      simp [presented, System.patience, System.step, accepts, valid]
  | true =>
      have held : 0 < sys.left.length := by
        rw [List.length_pos_iff]
        intro nothing
        simp [System.pins, nothing] at valid
      cases taken : accepts sys.dht (sys.pins i) with
      | true =>
          simp only [presented, System.patience, System.step, taken, valid,
            if_true, Bool.toNat_true, List.length_tail]
          omega
      | false =>
          simp only [presented, System.patience, System.step, taken, valid,
            Bool.false_eq_true, if_false, if_true, Bool.toNat_true]
            at later ⊢
          omega

/-! ## Segments -/

theorem flagged_bytes (table : TableDef) (last : Bool) :
    (table.flagged last).map (fun byte => byte.1) = table.bytes := by
  simp [TableDef.flagged, Function.comp_def]

theorem stream_bytes (tables : List (TableDef × Bool)) :
    (stream tables).map (fun byte => byte.1) =
      payload (tables.map fun entry => entry.1) := by
  induction tables with
  | nil =>
      rfl
  | cons first rest inductionHypothesis =>
      rw [stream_cons first.1 first.2, List.map_append, flagged_bytes,
        inductionHypothesis]
      rfl

theorem segment_tables (tables : List TableDef) :
    (segment tables).map (fun entry => entry.1) = tables := by
  induction tables using segment.induct with
  | case1 => rfl
  | case2 table => rfl
  | case3 table next rest inductionHypothesis =>
      rw [segment, List.map_cons, inductionHypothesis]

theorem segment_endsEmpty_iff (tables : List TableDef) :
    (∀ entry ∈ segment tables, EndsEmpty entry) ↔
      ∀ table ∈ tables.dropLast, table.symbols ≠ [] := by
  induction tables using segment.induct with
  | case1 => simp [segment]
  | case2 table => simp [segment, EndsEmpty]
  | case3 table next rest inductionHypothesis =>
      have here :
          EndsEmpty (table, false) ↔ table.symbols ≠ [] := by
        simp [EndsEmpty, TableDef.size]
      rw [segment, List.forall_mem_cons, inductionHypothesis, here,
        List.dropLast_cons_of_ne_nil (List.cons_ne_nil _ _),
        List.forall_mem_cons]

/-- A definition that is not the last one of its segment has a successor. -/
theorem segment_split
    {tables : List TableDef}
    {table : TableDef}
    (member : (table, false) ∈ segment tables) :
    ∃ before after, after ≠ [] ∧
      segment tables = before ++ (table, false) :: after := by
  induction tables using segment.induct with
  | case1 => simp [segment] at member
  | case2 only => simp [segment] at member
  | case3 first next rest inductionHypothesis =>
      rw [segment] at member ⊢
      rcases List.mem_cons.mp member with isFirst | later
      · refine ⟨[], segment (next :: rest), ?_, by rw [isFirst]; rfl⟩
        intro nothing
        have tables := segment_tables (next :: rest)
        simp [nothing] at tables
      · obtain ⟨before, after, more, split⟩ := inductionHypothesis later
        exact ⟨(first, false) :: before, after, more, by rw [split]; rfl⟩

theorem stream_ne_nil
    {tables : List (TableDef × Bool)}
    (hasTables : tables ≠ []) :
    stream tables ≠ [] := by
  cases tables with
  | nil =>
      exact absurd rfl hasTables
  | cons first rest =>
      rw [stream_cons first.1 first.2]
      intro nothing
      have length := congrArg List.length nothing
      simp at length

/-! ## A definition without symbols in front of another one -/

/-- The loader is at or before a definition it will be stuck at. -/
inductive Blocked : Loader → Prop where
  | ahead {loader : Loader} (table : TableDef)
      (before after : List (TableDef × Bool))
      (empty : table.size = 0) (more : after ≠ [])
      (split : loader.rest = before ++ (table, false) :: after) :
      Blocked loader
  | counting (table : TableDef) (length : Nat)
      (rest : List (TableDef × Bool)) (store : Store)
      (empty : table.size = 0) (more : rest ≠ []) :
      Blocked ⟨.counting table false length, rest, store⟩
  | stuck (table : TableDef)
      (rest : List (TableDef × Bool)) (store : Store) (more : rest ≠ []) :
      Blocked ⟨.stuck table false, rest, store⟩

theorem Blocked.advance
    {loader : Loader}
    (blocked : Blocked loader) :
    Blocked loader.advance := by
  cases blocked with
  | ahead table before after empty more split =>
      obtain ⟨place, rest, store⟩ := loader
      simp only at split
      subst split
      cases place with
      | between =>
          cases before with
          | nil =>
              exact .counting table 0 after store empty more
          | cons first before =>
              exact .ahead table before after empty more rfl
      | counting other last length =>
          exact .ahead table before after empty more rfl
      | filling other last length index =>
          refine .ahead table before after empty more ?_
          simp only [Loader.advance]
          split <;> rfl
      | stuck other last =>
          exact .ahead table before after empty more rfl
  | counting table length rest store empty more =>
      simp only [Loader.advance, Loader.afterCounts, empty, if_true,
        Bool.false_eq_true, if_false]
      split
      next => exact .stuck table rest store more
      next => exact .counting table (length + 1) rest store empty more
  | stuck table rest store more =>
      exact .stuck table rest store more

/-- There is always a byte left that is not taken. -/
theorem Blocked.left_ne_nil
    {loader : Loader}
    (blocked : Blocked loader) :
    loader.left ≠ [] := by
  have later : stream loader.rest ≠ [] := by
    apply stream_ne_nil
    cases blocked with
    | ahead table before after empty more split =>
        simp [split]
    | counting table length rest store empty more =>
        exact more
    | stuck table rest store more =>
        exact more
  rw [Loader.left]
  split <;> simp [later]

/-- A cycle in which the master presents its byte. -/
def offering : Input where
  rst := false
  cfgValid := true
  cfgData := 0
  cfgLast := false
  lookupReq := false
  lookupTable := 0
  lookupInput := 0

/-- A blocked loader is presented a byte as often as its master likes. -/
theorem Blocked.tally_offering
    {loader : Loader}
    {sys : System}
    (blocked : Blocked loader)
    (follows : Follows loader sys)
    (count : Nat) :
    tally System.step presented sys (List.replicate count offering) =
      count := by
  induction count generalizing loader sys with
  | zero =>
      rfl
  | succ count inductionHypothesis =>
      have valid : (sys.pins offering).cfgValid = true := by
        have left := blocked.left_ne_nil
        rw [← follows.left] at left
        rw [System.pins]
        split
        next => rfl
        next nothing => exact absurd nothing left
      have later :=
        inductionHypothesis blocked.advance (follows.present valid).2
      rw [List.replicate_succ, tally, later, presented, valid]
      exact Nat.add_comm 1 count

/-! ## The result -/

/-- The loader that the registers follow at the beginning of a segment. -/
theorem follows_start
    {s : State}
    (idle : LoaderIdle s)
    (tables : List (TableDef × Bool)) :
    Follows ⟨.between, tables, s.store⟩ (.start s tables) :=
  ⟨idle, rfl, rfl⟩

/-- The bytes taken and the bytes left are those that were to come. -/
theorem once_taken (sys : System) (cycles : List Input) :
    observe System.step takenByte sys cycles ++
        (run System.step sys cycles).left.map (fun byte => byte.1) =
      sys.left.map (fun byte => byte.1) := by
  induction cycles generalizing sys with
  | nil =>
      rfl
  | cons cycle rest inductionHypothesis =>
      rw [observe_cons, run_cons, List.append_assoc, inductionHypothesis]
      cases taken : accepts sys.dht (sys.pins cycle) with
      | false =>
          simp [takenByte, System.step, taken]
      | true =>
          cases held : sys.left with
          | nil =>
              simp [System.pins, held, accepts] at taken
          | cons first later =>
              have valid : (sys.pins cycle).cfgValid = true := by
                simp only [accepts, Bool.and_eq_true] at taken
                exact taken.1
              have byte : (sys.pins cycle).cfgData = first.1 :=
                (pins_presented held valid).1
              simp [takenByte, System.step, taken, byte, held]

/--
A segment is loaded in every run exactly when each of its definitions but the
last one has a symbol.
-/
theorem loads_segment_iff
    (s : State)
    (idle : LoaderIdle s)
    (tables : List TableDef) :
    (∀ cycles, LoadsSegment s tables cycles) ↔
      ∀ table ∈ tables.dropLast, table.symbols ≠ [] := by
  have start := follows_start idle (segment tables)
  have bytes :
      (stream (segment tables)).map (fun byte => byte.1) =
        payload tables := by
    rw [stream_bytes, segment_tables]
  have long : (stream (segment tables)).length = (payload tables).length := by
    rw [← bytes, List.length_map]
  constructor
  · intro loads
    rw [← segment_endsEmpty_iff]
    intro entry member
    obtain ⟨table, last⟩ := entry
    cases last with
    | true =>
        exact fun _ => rfl
    | false =>
        intro empty
        obtain ⟨before, after, more, split⟩ := segment_split member
        have blocked : Blocked ⟨.between, segment tables, s.store⟩ :=
          .ahead table before after empty more split
        have finite :=
          (loads (.replicate (16 * (payload tables).length + 1)
            offering)).finite
        rw [blocked.tally_offering start] at finite
        omega
  · intro filled cycles
    have initially :
        ∃ loader, Runs loader (.start s (segment tables)) :=
      ⟨_, start, ⟨(segment_endsEmpty_iff tables).mpr filled, trivial⟩,
        Nat.le_refl 0⟩
    have preserved (sys : System) (i : Input) :
        (∃ loader, Runs loader sys) →
          ∃ loader, Runs loader (sys.step i) := by
      rintro ⟨loader, runs⟩
      exact runs.step i
    obtain ⟨loader, runs⟩ :=
      run_always preserved initially cycles
    refine ⟨runs.patient, ?_, ?_, runs.restored⟩
    · rw [once_taken, ← bytes]
      rfl
    · have uses (sys : System) (i : Input) :
          (∃ loader, Runs loader sys) → True →
            (presented sys i).toNat + (sys.step i).patience ≤
              sys.patience := by
        rintro ⟨_, before⟩ -
        exact before.uses i
      have used :=
        tally_le_potential
          (fun sys i before _ => preserved sys i before) uses initially
          (along_true (System.start s (segment tables)) cycles)
      rw [← long]
      exact used.trans (Nat.sub_le _ _)

/-! ## Two tables in one segment -/

/-- A definition of one symbol with the code word `0`. -/
def oneSymbol (info symbol : Byte) : TableDef where
  info := info
  counts := [1, 0, 0, 0, 0, 0, 0, 0, 0, 0, 0, 0, 0, 0, 0, 0]
  symbols := [symbol]
  sixteen := rfl
  sized := rfl

/-- A definition of one symbol with the code word `00`. -/
def longSymbol (info symbol : Byte) : TableDef where
  info := info
  counts := [0, 1, 0, 0, 0, 0, 0, 0, 0, 0, 0, 0, 0, 0, 0, 0]
  symbols := [symbol]
  sixteen := rfl
  sized := rfl

/-- A definition without symbols. -/
def noSymbol (info : Byte) : TableDef where
  info := info
  counts := List.replicate 16 0
  symbols := []
  sixteen := rfl
  sized := rfl

/-- The registers after a reset, with a cleared RAM. -/
def cleared : State where
  idxQ := 0xFFF
  cfgTableQ := 0
  numEntriesQ := fun _ => 0
  hasEntriesQ := 0
  totalEntriesQ := 15
  iQ := 0
  jQ := 0
  codeQ := 0
  nextPtrQ := 0
  tables := fun _ => .reset
  lookupWidthQ := 0
  lookupTableQ := 0
  ram := fun _ => 0
  dataValueQ := 0
  lookupValidQ := false
  lookupValid2Q := false
  lookupWidth2Q := 0

theorem loaderIdle_cleared : LoaderIdle cleared := by
  constructor <;> simp [cleared]

/-- An empty table at the end of a segment does not stall the loader. -/
theorem loads_segment_two :
    LoadsSegment cleared [oneSymbol 0x00 5, noSymbol 0x10]
      (.replicate 40 offering) :=
  (loads_segment_iff cleared loaderIdle_cleared
    [oneSymbol 0x00 5, noSymbol 0x10]).mpr (by decide) _

/-- With an empty table in front the next table byte is refused. -/
theorem empty_table_stalls :
    ¬ ∀ s tables cycles, LoaderIdle s → LoadsSegment s tables cycles := by
  intro claimed
  have loads :=
    claimed cleared [noSymbol 0x00, oneSymbol 0x10 5]
      (.replicate 33 offering) loaderIdle_cleared
  exact absurd loads.patient (by decide +kernel)

end CoreJpeg.JpegDht
