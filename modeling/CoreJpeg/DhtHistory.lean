import CoreJpeg.DhtLookup

namespace CoreJpeg.JpegDht

open CanonicalCode Clocked

/-!
# Does a lookup depend on the latest definition alone?

A history of segments is loaded behind one reset.  A lookup afterwards agrees
with the latest definition of its table exactly when that definition is kept:
this module connects the circuit to the memory behind its history and compares
histories that end in the same definition of a table.
-/

/-! ## Histories -/

/-- The loader and its master behind a reset. -/
def System.fresh (s : State) (i : Input) (segments : List (List TableDef)) :
    System :=
  .start (JpegDht.step s { i with rst := true }) (segments.flatMap segment)

/-- Segments that are loaded behind a reset, with any waiting in between. -/
structure History where
  s : State
  resetting : Input
  segments : List (List TableDef)
  cycles : List Input
  wellFormed : ∀ table ∈ segments.flatten, table.WellFormed
  complete : (run System.step (.fresh s resetting segments) cycles).left = []

namespace History

/-- The definitions of a history. -/
def tables (history : History) : List TableDef := history.segments.flatten

/-- The loader and its master behind a history. -/
def after (history : History) : System :=
  run System.step (.fresh history.s history.resetting history.segments)
    history.cycles

end History

/-- The latest definition of a table. -/
def latest (name : TableName) (tables : List TableDef) : Option TableDef :=
  tables.reverse.find? fun table => cfgTable table.info = name

/-- The latest definition of its table is kept. -/
def KeepsLatest (tables : List TableDef) (table : TableDef) : Prop :=
  ∃ past later, tables = past ++ table :: later ∧
    (∀ other ∈ later, cfgTable other.info ≠ cfgTable table.info) ∧
      Keeps past table later

/-! ## Asking for a window -/

/-- The window and the table are held at the pins. -/
def Input.asking (i : Input) (table : BitVec 2) (window : BitVec 16) :
    Input :=
  { i with lookupTable := table, lookupInput := window }

/-- The circuit after the two cycles of a lookup. -/
def System.lookup (sys : System) (table : BitVec 2) (window : BitVec 16)
    (first second : Input) : System :=
  run System.step sys
    [first.asking table window, second.asking table window]

/-- What the circuit shows of a lookup. -/
def System.shown (sys : System) : BitVec 5 × Byte :=
  (lookupWidthO sys.dht, lookupValueO sys.dht)

theorem pins_done {sys : System} {i : Input} (nothing : sys.left = []) :
    sys.pins i = { i with rst := false, cfgValid := false } := by
  rw [System.pins, nothing]

/-- Nothing is loaded when no byte is left. -/
theorem step_done {sys : System} {i : Input} (nothing : sys.left = []) :
    (sys.step i).dht.store = sys.dht.store ∧ (sys.step i).left = [] := by
  have refused : accepts sys.dht (sys.pins i) = false := by
    simp [accepts, pins_done nothing]
  constructor
  · exact store_kept pins_running (by simp [refused])
  · simp [System.step, refused, nothing]

/-- A lookup shows two cycles later what it finds in the memory. -/
theorem shown_lookup
    {sys : System}
    (nothing : sys.left = [])
    (table : BitVec 2)
    (window : BitVec 16)
    (first second : Input) :
    (sys.lookup table window first second).shown =
      sys.dht.store.find (lookupTable table) window := by
  have between := step_done (i := first.asking table window) nothing
  have selected :
      (sys.step (first.asking table window)).dht.lookupWidthQ =
          widthR (sys.dht.tables (lookupTable table)) window ∧
        (sys.step (first.asking table window)).dht.lookupTableQ = table := by
    simp [System.step, JpegDht.step, pins_done nothing, Input.asking]
  have tables :
      (sys.step (first.asking table window)).dht.tables = sys.dht.tables :=
    congrArg Store.tables between.1
  have memory :
      (sys.step (first.asking table window)).dht.ram = sys.dht.ram :=
    congrArg Store.ram between.1
  simp only [System.lookup, run_cons, run_nil, System.shown]
  generalize sys.step (first.asking table window) = half at *
  simp only [System.step, JpegDht.step, pins_done between.2, Input.asking,
    lookupWidthO, lookupValueO, lookupAddrR, selected, tables, memory,
    Store.find, State.store]
  rfl

/-- A lookup is acknowledged two cycles later. -/
theorem lookupValidO_lookup
    {sys : System}
    (nothing : sys.left = [])
    (table : BitVec 2)
    (window : BitVec 16)
    (first second : Input) :
    lookupValidO (sys.lookup table window first second).dht =
      first.lookupReq := by
  have between := (step_done (i := first.asking table window) nothing).2
  have asked :
      (sys.step (first.asking table window)).dht.lookupValidQ =
        first.lookupReq := by
    simp [System.step, JpegDht.step, pins_done nothing, Input.asking]
  simp only [System.lookup, run_cons, run_nil]
  generalize sys.step (first.asking table window) = half at *
  simp only [System.step, JpegDht.step, pins_done between, Input.asking,
    lookupValidO, asked]
  rfl

/-! ## Every segment can be loaded -/

/-- A run that leaves bytes has used up patience with every offer. -/
theorem Runs.used
    {loader : Loader} {sys : System}
    (runs : Runs loader sys)
    (cycles : List Input)
    (something : (run System.step sys cycles).left ≠ []) :
    cycles.countP Input.cfgValid < sys.patience := by
  induction cycles generalizing loader sys with
  | nil =>
      have patient := runs.patient
      have held := List.length_pos_iff.mpr something
      simp only [run_nil] at held
      simp only [List.countP_nil, System.patience]
      omega
  | cons cycle rest inductionHypothesis =>
      obtain ⟨next, after⟩ := runs.step cycle
      have later := inductionHypothesis after something
      have uses := runs.uses cycle
      have held : sys.left ≠ [] := by
        intro nothing
        have done (sys : System) (i : Input) :
            sys.left = [] → (sys.step i).left = [] :=
          fun nothing => (step_done nothing).2
        exact something
          (run_always done nothing (cycle :: rest))
      have offers : presented sys cycle = cycle.cfgValid := by
        rw [presented, System.pins]
        split
        next => cases cycle.cfgValid <;> rfl
        next nothing => exact absurd nothing held
      rw [offers] at uses
      rw [List.countP_cons]
      cases valid : cycle.cfgValid <;> simp [valid] at uses ⊢ <;> omega

/-- Definitions that are offered long enough are all taken. -/
theorem complete_of_offered
    {s : State}
    (idle : LoaderIdle s)
    {tables : List (TableDef × Bool)}
    (filled : ∀ entry ∈ tables, EndsEmpty entry)
    {cycles : List Input}
    (enough :
      16 * (stream tables).length ≤ cycles.countP Input.cfgValid) :
    (run System.step (.start s tables) cycles).left = [] := by
  by_contra something
  have runs : Runs ⟨.between, tables, s.store⟩ (.start s tables) :=
    ⟨follows_start idle tables, ⟨filled, trivial⟩, Nat.le_refl 0⟩
  have used := runs.used cycles something
  simp only [System.patience, System.start] at used
  omega

/-! ## The memory behind a history -/

theorem loaderIdle_reset (s : State) (i : Input) :
    LoaderIdle (JpegDht.step s { i with rst := true }) := by
  constructor <;> simp [JpegDht.step, reset]

theorem store_reset (s : State) (i : Input) :
    ∃ ram, (JpegDht.step s { i with rst := true }).store =
      .cleared ram :=
  ⟨_, rfl⟩

theorem segments_tables (segments : List (List TableDef)) :
    (segments.flatMap segment).map Prod.fst = segments.flatten := by
  induction segments with
  | nil =>
      rfl
  | cons first rest inductionHypothesis =>
      rw [List.flatMap_cons, List.map_append, inductionHypothesis,
        List.flatten_cons]
      exact congrArg (· ++ rest.flatten) (segment_tables first)

/-- The memory behind a run that loads segments after a reset. -/
theorem store_loaded
    {segments : List (List TableDef)}
    (sized : ∀ table ∈ segments.flatten, table.Sized)
    (s : State)
    (resetting : Input)
    {cycles : List Input}
    (complete :
      (run System.step (.fresh s resetting segments) cycles).left = []) :
    ∃ ram,
      (run System.step (.fresh s resetting segments) cycles).dht.store =
        (Store.cleared ram).defineAll segments.flatten := by
  obtain ⟨ram, isCleared⟩ := store_reset s resetting
  have every :
      ∀ entry ∈ segments.flatMap segment, entry.1.Sized := by
    intro entry member
    refine sized entry.1 ?_
    rw [← segments_tables]
    exact List.mem_map_of_mem member
  have reached :=
    store_of_run (loaderIdle_reset s resetting) every complete
  rw [segments_tables, isCleared] at reached
  exact ⟨ram, reached⟩

theorem latest_split
    {name : TableName} {tables : List TableDef} {table : TableDef}
    (isLatest : latest name tables = some table) :
    cfgTable table.info = name ∧
      ∃ past later, tables = past ++ table :: later ∧
        ∀ other ∈ later, cfgTable other.info ≠ name := by
  rw [latest, List.find?_eq_some_iff_append] at isLatest
  obtain ⟨named, later, past, split, others⟩ := isLatest
  refine ⟨by simpa using named, past.reverse, later.reverse, ?_, ?_⟩
  · rw [← List.reverse_inj, split]
    simp
  · intro other member
    simpa using others other (by simpa using member)

/-- Segments that are offered long enough behind a reset are loaded. -/
theorem fresh_complete
    {segments : List (List TableDef)}
    (sized : ∀ table ∈ segments.flatten, table.Sized)
    (s : State)
    (resetting : Input)
    {cycles : List Input}
    (enough :
      16 * (stream (segments.flatMap segment)).length ≤
        cycles.countP Input.cfgValid) :
    (run System.step (.fresh s resetting segments) cycles).left = [] := by
  refine complete_of_offered (loaderIdle_reset s resetting) ?_ enough
  intro entry member empty
  have inTables : entry.1 ∈ segments.flatten := by
    rw [← segments_tables]
    exact List.mem_map_of_mem member
  have filled := (sized entry.1 inTables).filled
  rw [TableDef.size, List.length_eq_zero_iff] at empty
  exact absurd empty filled

/-- A lookup behind a history finds what its definitions left. -/
theorem History.shown_lookup (history : History) :
    ∃ ram, ∀ index window first second,
      (history.after.lookup index window first second).shown =
        ((Store.cleared ram).defineAll history.tables).find
          (lookupTable index) window := by
  obtain ⟨ram, isStore⟩ :=
    store_loaded (fun table member => (history.wellFormed table member).toSized)
      history.s history.resetting history.complete
  refine ⟨ram, fun index window first second => ?_⟩
  have shown :=
    JpegDht.shown_lookup history.complete index window first second
  refine shown.trans ?_
  exact congrArg (fun store => store.find (lookupTable index) window) isStore

/-- Every code word of the definition is found. -/
def History.Finds (history : History) (index : BitVec 2) (table : TableDef) :
    Prop :=
  ∀ window length number, table.Spells window length number →
    ∀ first second,
      (history.after.lookup index window first second).shown =
        table.entry length number

/-- A history keeps a definition exactly when its code words are found. -/
theorem History.finds_iff
    (history : History)
    {index : BitVec 2}
    {table : TableDef}
    (isLatest : latest (lookupTable index) history.tables = some table) :
    history.Finds index table ↔ KeepsLatest history.tables table := by
  have kraft :
      ∀ past later, history.tables = past ++ table :: later →
        ∀ other ∈ past ++ [table], Kraft other.count 16 := by
    intro past later split other member
    refine (history.wellFormed other ?_).kraft
    rw [← History.tables, split]
    simp only [List.mem_append, List.mem_singleton] at member
    rcases member with before | isTable
    · simp [before]
    · simp [isTable]
  obtain ⟨named, past, later, split, others⟩ := latest_split isLatest
  obtain ⟨ram, shown⟩ := history.shown_lookup
  constructor
  · intro finds
    rw [← named] at others
    refine ⟨past, later, split, others, ?_⟩
    refine keeps_of_find ram others (kraft past later split) ?_
    intro window length number spells
    rw [← split, named, ← shown index window history.resetting
      history.resetting]
    exact finds window length number spells _ _
  · rintro ⟨before, behind, split, others, keeps⟩
    intro window length number spells first second
    rw [shown, split, ← named]
    exact keeps.find _ others (kraft before behind split) spells

/-! ## Two histories of one definition -/

/-- Two histories let every code word of a definition be found alike. -/
def Agree (history other : History) (index : BitVec 2) (table : TableDef) :
    Prop :=
  ∀ window length number, table.Spells window length number →
    ∀ first second otherFirst otherSecond,
      (history.after.lookup index window first second).shown =
        (other.after.lookup index window otherFirst otherSecond).shown

/-- Histories that agree find a definition both or neither. -/
theorem Agree.finds
    {history other : History} {index : BitVec 2} {table : TableDef}
    (agree : Agree history other index table)
    (finds : history.Finds index table) :
    other.Finds index table := by
  intro window length number spells first second
  rw [← agree window length number spells first second first second]
  exact finds window length number spells first second

theorem Agree.symm
    {history other : History} {index : BitVec 2} {table : TableDef}
    (agree : Agree history other index table) :
    Agree other history index table :=
  fun window length number spells _ _ _ _ =>
    (agree window length number spells _ _ _ _).symm

/--
Histories that end in the same definition of a table let its code words be
found alike when both keep it; and when they are found alike, the definition
is kept by both or by neither.
-/
theorem latest_definition_suffices_iff
    (history other : History)
    (index : BitVec 2)
    (table : TableDef)
    (isLatest : latest (lookupTable index) history.tables = some table)
    (alsoLatest : latest (lookupTable index) other.tables = some table) :
    (KeepsLatest history.tables table → KeepsLatest other.tables table →
        Agree history other index table) ∧
      (Agree history other index table →
        (KeepsLatest history.tables table ↔
          KeepsLatest other.tables table)) := by
  rw [← history.finds_iff isLatest, ← other.finds_iff alsoLatest]
  constructor
  · intro finds alsoFinds window length number spells _ _ _ _
    rw [finds window length number spells,
      alsoFinds window length number spells]
  · intro agree
    exact ⟨agree.finds, agree.symm.finds⟩

/-! ## A code length that the latest definition leaves empty -/

theorem oneSymbol_wellFormed (info symbol : Byte) :
    (oneSymbol info symbol).WellFormed where
  filled := List.cons_ne_nil _ _
  small := by simp [TableDef.size, oneSymbol]
  kraft := by simp [Kraft, Finset.sum_range_succ, TableDef.count, oneSymbol]

theorem longSymbol_wellFormed (info symbol : Byte) :
    (longSymbol info symbol).WellFormed where
  filled := List.cons_ne_nil _ _
  small := by simp [TableDef.size, longSymbol]
  kraft := by simp [Kraft, Finset.sum_range_succ, TableDef.count, longSymbol]

/-- A definition alone is kept. -/
theorem keepsLatest_alone
    {table : TableDef}
    (small : table.size ≤ 255) :
    KeepsLatest [table] table := by
  refine ⟨[], [], rfl, by simp, fun length _ _ _ => Nat.zero_le _, ?_⟩
  intro number inside
  have all : symbolsOf ([] ++ [table]) = table.symbols := by
    simp [symbolsOf]
  rw [TableDef.size] at small inside
  have fits : table.symbols.length ≤ 1024 := by
    omega
  have here := lastAt_of_fits fits inside
  rw [all]
  simpa [symbolsOf] using here

/-- A history in which a master offers bytes as long as it takes. -/
def History.offered (segments : List (List TableDef))
    (wellFormed : ∀ table ∈ segments.flatten, table.WellFormed) :
    History where
  s := cleared
  resetting := offering
  segments := segments
  cycles :=
    .replicate (16 * (stream (segments.flatMap segment)).length) offering
  wellFormed := wellFormed
  complete :=
    fresh_complete (fun table member => (wellFormed table member).toSized)
      cleared offering (by simp [List.countP_replicate, offering])

/-- One definition of a table. -/
def definedOnce : History :=
  .offered [[longSymbol 0x00 7]] (by simp [longSymbol_wellFormed])

/-- A definition of a table behind one with a shorter code word. -/
def definedAgain : History :=
  .offered [[oneSymbol 0x00 5], [longSymbol 0x00 7]]
    (by simp [oneSymbol_wellFormed, longSymbol_wellFormed])

/-- The histories of one definition agree with each other. -/
theorem latest_definition_suffices_once :
    Agree definedOnce definedOnce 0 (longSymbol 0x00 7) :=
  (latest_definition_suffices_iff definedOnce definedOnce 0
    (longSymbol 0x00 7) (by decide) (by decide)).1
      (keepsLatest_alone (by decide)) (keepsLatest_alone (by decide))

/-- The end of the shorter code word is left and found first. -/
theorem earlier_definition_found :
    ¬ ∀ (history other : History) (index : BitVec 2) (table : TableDef),
      latest (lookupTable index) history.tables = some table →
        latest (lookupTable index) other.tables = some table →
          Agree history other index table := by
  intro claimed
  have isLatest :
      latest (lookupTable 0) definedOnce.tables =
        some (longSymbol 0x00 7) := by
    decide
  have alsoLatest :
      latest (lookupTable 0) definedAgain.tables =
        some (longSymbol 0x00 7) := by
    decide
  have agree := claimed definedOnce definedAgain 0 _ isLatest alsoLatest
  have finds :=
    (definedOnce.finds_iff isLatest).mpr (keepsLatest_alone (by decide))
  obtain ⟨past, later, split, -, keeps⟩ :=
    (definedAgain.finds_iff alsoLatest).mp (agree.finds finds)
  have isPast : past = [oneSymbol 0x00 5] := by
    have both :
        [oneSymbol 0x00 5, longSymbol 0x00 7] =
          past ++ longSymbol 0x00 7 :: later := split
    rcases past with _ | ⟨first, _ | ⟨second, rest⟩⟩
    · exact absurd (List.cons.inj both).1 (by decide)
    · rw [(List.cons.inj both).1]
    · have lengths := congrArg List.length both
      simp at lengths
  have left := keeps.ends 0 (by decide) (by decide) (by decide)
  rw [isPast] at left
  exact absurd left (by decide)

end CoreJpeg.JpegDht
