import CoreJpeg.DhtProgress

namespace CoreJpeg.JpegDht

open CanonicalCode Clocked

/-!
# What a lookup finds

The registers keep what earlier definitions wrote at code lengths that the
latest definition of a table leaves empty, and the RAM pointer runs through
all definitions since the last reset.  This module follows both through a
history of definitions and shows when a lookup still finds the codes of the
latest definition of its table.
-/

/-! ## The memory after a history -/

namespace Store

/-- The symbols at the next RAM addresses. -/
def putSymbols (store : Store) (symbols : List Byte) : Store :=
  symbols.foldl putSymbol store

/-- The memory when some symbols of a definition have been taken. -/
def loaded (store : Store) (table : TableDef) (count : Nat) : Store :=
  { store.putSymbols (table.symbols.take count) with
    tables := fun name =>
      if name = cfgTable table.info then {
        minCodeQ := fun length =>
          if table.count length.toNat ≠ 0 ∧
              offset table.count length.toNat < count then
            BitVec.ofNat 16 (firstCode table.count length.toNat)
          else (store.tables name).minCodeQ length
        maxCodeQ := fun length =>
          if table.count length.toNat ≠ 0 ∧
              offset table.count length.toNat < count then
            BitVec.ofNat 16 (endCode table.count length.toNat)
          else (store.tables name).maxCodeQ length
        ptrQ := fun length =>
          if table.count length.toNat ≠ 0 ∧
              offset table.count length.toNat < count then
            store.nextPtr +
              BitVec.ofNat 10 (offset table.count length.toNat)
          else (store.tables name).ptrQ length }
      else store.tables name }

/-- The memory behind a definition. -/
def define (store : Store) (table : TableDef) : Store :=
  store.loaded table table.size

theorem putSymbols_append (store : Store) (first second : List Byte) :
    store.putSymbols (first ++ second) =
      (store.putSymbols first).putSymbols second := by
  simp [putSymbols]

@[simp] theorem putSymbols_tables (store : Store) (symbols : List Byte) :
    (store.putSymbols symbols).tables = store.tables := by
  induction symbols generalizing store with
  | nil =>
      rfl
  | cons symbol rest inductionHypothesis =>
      exact inductionHypothesis (store.putSymbol symbol)

@[simp] theorem putSymbols_nextPtr (store : Store) (symbols : List Byte) :
    (store.putSymbols symbols).nextPtr =
      store.nextPtr + BitVec.ofNat 10 symbols.length := by
  induction symbols generalizing store with
  | nil =>
      simp [putSymbols]
  | cons symbol rest inductionHypothesis =>
      have later := inductionHypothesis (store.putSymbol symbol)
      rw [putSymbols, List.foldl_cons, ← putSymbols, later, putSymbol,
        List.length_cons, Nat.add_comm, BitVec.ofNat_add, BitVec.add_assoc]
      rfl

/-- A code length that has symbols is the one a symbol belongs to. -/
theorem offset_lt_succ_iff
    {table : TableDef} {length index other : Nat}
    (counted : index < table.count length)
    (hasCodes : table.count other ≠ 0) :
    offset table.count other < offset table.count length + index + 1 ↔
      offset table.count other < offset table.count length + index ∨
        other = length ∧ index = 0 := by
  rcases Nat.lt_trichotomy other length with shorter | same | longer
  · have passed := CanonicalCode.offset_le table.count
      (show other + 1 ≤ length from shorter)
    rw [offset_succ] at passed
    omega
  · subst same
    omega
  · have passed := CanonicalCode.offset_le table.count
      (show length + 1 ≤ other from longer)
    rw [offset_succ] at passed
    omega

/-- The registers of a code length are filled with its first symbol. -/
theorem loaded_tables
    (store : Store)
    {table : TableDef} {length index : Nat}
    (counted : index < table.count length)
    (more : offset table.count length + index < table.size) :
    (store.loaded table (offset table.count length + index + 1)).tables =
      if index = 0 then
        ((store.loaded table (offset table.count length + index)).putLength
          table length).tables
      else
        (store.loaded table (offset table.count length + index)).tables := by
  have taken : offset table.count length ≤ table.symbols.length := by
    rw [TableDef.size] at more
    omega
  have filled :
      ∀ other : BitVec 4,
        (table.count other.toNat ≠ 0 ∧
          offset table.count other.toNat <
            offset table.count length + index + 1) ↔
        (other.toNat = length ∧ index = 0) ∨
          table.count other.toNat ≠ 0 ∧
            offset table.count other.toNat <
              offset table.count length + index := by
    intro other
    by_cases hasCodes : table.count other.toNat = 0
    · have apart : other.toNat ≠ length := by
        rintro rfl
        omega
      simp [hasCodes, apart]
    · rw [offset_lt_succ_iff counted hasCodes]
      simp [hasCodes, or_comm]
  funext name
  by_cases named : name = cfgTable table.info
  · simp only [loaded, if_pos named, filled]
    by_cases first : index = 0
    · subst first
      simp only [and_true, putLength, if_pos named, if_true]
      congr 1 <;> funext other <;>
        by_cases atLength : other.toNat = length <;>
        simp [atLength, named, Nat.min_eq_left taken]
    · simp [first, named]
  · split
    · simp [loaded, putLength, named]
    · simp [loaded, named]

/-- A symbol is put where the definition has it. -/
theorem loaded_put
    (store : Store)
    {table : TableDef} {length index : Nat}
    (counted : index < table.count length)
    (more : offset table.count length + index < table.size) :
    (store.loaded table (offset table.count length + index)).put table
        length index =
      store.loaded table (offset table.count length + index + 1) := by
  have symbols :
      table.symbols.take (offset table.count length + index + 1) =
        table.symbols.take (offset table.count length + index) ++
          [table.symbols.getD (offset table.count length + index) 0] := by
    rw [List.take_succ_eq_append_getElem more]
    simp [List.getElem?_eq_getElem more]
  have memory :
      store.putSymbols
          (table.symbols.take (offset table.count length + index + 1)) =
        (store.putSymbols
          (table.symbols.take (offset table.count length + index))).putSymbol
            (table.symbols.getD (offset table.count length + index) 0) := by
    rw [symbols, putSymbols_append]
    rfl
  have tables := store.loaded_tables counted more
  by_cases first : index = 0
  · rw [if_pos first] at tables
    rw [put, if_pos first]
    refine Store.ext ?_ ?_ ?_
    · exact tables.symm
    · exact (congrArg ram memory).symm
    · exact (congrArg nextPtr memory).symm
  · rw [if_neg first] at tables
    rw [put, if_neg first]
    refine Store.ext ?_ ?_ ?_
    · exact tables.symm
    · exact (congrArg ram memory).symm
    · exact (congrArg nextPtr memory).symm

/-- The memory behind consecutive definitions. -/
def defineAll (store : Store) (tables : List TableDef) : Store :=
  tables.foldl define store

@[simp] theorem defineAll_nil (store : Store) :
    store.defineAll [] = store := rfl

@[simp] theorem defineAll_cons
    (store : Store) (first : TableDef) (rest : List TableDef) :
    store.defineAll (first :: rest) = (store.define first).defineAll rest :=
  rfl

@[simp] theorem defineAll_append
    (store : Store) (first second : List TableDef) :
    store.defineAll (first ++ second) =
      (store.defineAll first).defineAll second := by
  simp [defineAll]

@[simp] theorem loaded_zero (store : Store) (table : TableDef) :
    store.loaded table 0 = store := by
  refine Store.ext ?_ ?_ ?_
  · funext name
    by_cases named : name = cfgTable table.info <;> simp [loaded, named]
  · rfl
  · simp [loaded, putSymbols]

end Store

/-! ## The memory behind a run -/

/-- A definition of 1 to 255 symbols. -/
structure TableDef.Sized (table : TableDef) : Prop where
  filled : table.symbols ≠ []
  small : table.size ≤ 255

/-- A loader whose memory becomes a given one with its last definition. -/
structure Loader.Reaches (final : Store) (loader : Loader) : Prop where
  sized : ∀ entry ∈ loader.rest, entry.1.Sized
  place :
    match loader.place with
    | .between =>
        loader.store.defineAll (loader.rest.map Prod.fst) = final
    | .counting table _ _ =>
        table.Sized ∧
          (loader.store.define table).defineAll
            (loader.rest.map Prod.fst) = final
    | .filling table _ length index =>
        table.Sized ∧
          ∃ before : Store,
            loader.store =
                before.loaded table (offset table.count length + index) ∧
              (before.define table).defineAll
                (loader.rest.map Prod.fst) = final
    | .stuck .. => False

theorem Loader.Reaches.advance
    {final : Store} {loader : Loader} {s : State}
    (reaches : loader.Reaches final)
    (holds : loader.place.Holds s) :
    loader.advance.Reaches final := by
  obtain ⟨sized, here⟩ := reaches
  obtain ⟨place, rest, store⟩ := loader
  cases place with
  | between =>
      cases rest with
      | nil =>
          exact ⟨sized, here⟩
      | cons first later =>
          exact ⟨fun entry member => sized entry (List.mem_cons_of_mem _ member),
            sized first List.mem_cons_self, here⟩
  | counting table last length =>
      refine ⟨sized, ?_⟩
      simp only [Loader.advance]
      by_cases atEnd : length + 1 = 16
      · have hasCodes : table.size ≠ 0 := by
          simpa [TableDef.size] using here.1.filled
        rw [if_pos atEnd, Loader.afterCounts, if_neg hasCodes]
        exact ⟨here.1, store, by simp, here.2⟩
      · rw [if_neg atEnd]
        exact here
  | filling table last length index =>
      obtain ⟨fits, before, isLoaded, reached⟩ := here
      have more : offset table.count length + index < table.size := holds.more
      have inside : index = 0 ∨ index < table.count length := holds.inside
      simp only [Loader.advance]
      by_cases empty : table.count length = 0
      · have first : index = 0 := by
          omega
        rw [if_pos empty]
        refine ⟨sized, fits, before, ?_, reached⟩
        rw [offset_succ, empty]
        simpa [first] using isLoaded
      · have notWrapped : offset table.count length + index ≠ 4079 := by
          have small := fits.small
          omega
        have put := before.loaded_put (show index < table.count length by omega)
          more
        rw [← isLoaded] at put
        rw [if_neg empty, if_neg notWrapped, put]
        refine ⟨sized, ?_⟩
        by_cases atEnd : offset table.count length + index + 1 = table.size
        · simp only [if_pos atEnd]
          rw [atEnd]
          exact reached
        · simp only [if_neg atEnd]
          by_cases ofLength : index + 1 = table.count length
          · rw [if_pos ofLength]
            refine ⟨fits, before, ?_, reached⟩
            rw [offset_succ, ← ofLength]
            rfl
          · rw [if_neg ofLength]
            exact ⟨fits, before, rfl, reached⟩
  | stuck table last =>
      exact here.elim

/-- The circuit follows a loader that reaches a memory. -/
structure Loads (final : Store) (loader : Loader) (sys : System) : Prop
    extends Follows loader sys where
  reaches : loader.Reaches final

theorem Loads.step
    {final : Store} {loader : Loader} {sys : System}
    (loads : Loads final loader sys)
    (i : Input) :
    ∃ next, Loads final next (sys.step i) := by
  by_cases valid : (sys.pins i).cfgValid = true
  · exact
      ⟨loader.advance, (loads.toFollows.present valid).2,
        loads.reaches.advance loads.holds⟩
  · have nothing : (sys.pins i).cfgValid = false := by
      simpa using valid
    exact ⟨loader, loads.toFollows.wait nothing, loads.reaches⟩

/-- When no byte is left the memory is reached and the loader is idle. -/
theorem Loads.reached
    {final : Store} {loader : Loader} {sys : System}
    (loads : Loads final loader sys)
    (nothing : sys.left = []) :
    sys.dht.store = final ∧ LoaderIdle sys.dht := by
  have none : loader.present = none := by
    rw [← loads.toFollows.left_head, ← loads.left, nothing]
    rfl
  have place := loads.reaches.place
  have holds := loads.holds
  have store := loads.store
  obtain ⟨atEntry, rest, kept⟩ := loader
  cases atEntry with
  | between =>
      cases rest with
      | nil =>
          exact ⟨store.trans place, holds⟩
      | cons first later =>
          simp [Loader.present] at none
  | counting table last length =>
      simp [Loader.present] at none
  | filling table last length index =>
      simp [Loader.present] at none
  | stuck table last =>
      exact place.elim

/-- The memory behind every run that takes all bytes of its definitions. -/
theorem store_of_run
    {s : State}
    (idle : LoaderIdle s)
    {tables : List (TableDef × Bool)}
    (sized : ∀ entry ∈ tables, entry.1.Sized)
    {cycles : List Input}
    (nothing : (run System.step (.start s tables) cycles).left = []) :
    (run System.step (.start s tables) cycles).dht.store =
      s.store.defineAll (tables.map Prod.fst) := by
  have initially :
      ∃ loader,
        Loads (s.store.defineAll (tables.map Prod.fst)) loader
          (.start s tables) :=
    ⟨_, follows_start idle tables, sized, rfl⟩
  have preserved (sys : System) (i : Input) :
      (∃ loader, Loads (s.store.defineAll (tables.map Prod.fst)) loader
          sys) →
        ∃ loader, Loads (s.store.defineAll (tables.map Prod.fst)) loader
          (sys.step i) := by
    rintro ⟨loader, loads⟩
    exact loads.step i
  obtain ⟨loader, loads⟩ := run_always preserved initially cycles
  exact (loads.reached nothing).1

/-! ## What is kept of a history -/

/-- The number after the last code word that earlier definitions of a table
left at a code length. -/
def leftEnd (name : TableName) (length : Nat) (past : List TableDef) : Nat :=
  past.foldl (fun kept table =>
    if cfgTable table.info = name ∧ table.count length ≠ 0 then
      endCode table.count length
    else kept) 0

/-- All symbols of a history. -/
def symbolsOf (tables : List TableDef) : List Byte :=
  tables.flatMap TableDef.symbols

/-- The last of the symbols that are put at the RAM address of one. -/
def lastAt (symbols : List Byte) (number : Nat) : Option Byte :=
  symbols.zipIdx.foldl (fun kept entry =>
    if entry.2 % 1024 = number % 1024 then some entry.1 else kept) none

/-- The memory after a reset. -/
def Store.cleared (ram : BitVec 10 → Byte) : Store where
  tables := fun _ => .reset
  ram := ram
  nextPtr := 0

/--
The code words of a definition are kept: nothing that an earlier definition
left at a length without code words is above them, and no other symbol is
behind theirs at their RAM addresses.
-/
structure Keeps (past : List TableDef) (table : TableDef)
    (later : List TableDef) : Prop where
  ends :
    ∀ length < 15, table.count length = 0 →
      (∃ longer < 16, length < longer ∧ table.count longer ≠ 0) →
        leftEnd (cfgTable table.info) length past ≤
          firstCode table.count length
  cells :
    ∀ number < table.size,
      lastAt (symbolsOf (past ++ table :: later))
          ((symbolsOf past).length + number) =
        some (table.symbols.getD number 0)

section Memory

variable {ram : BitVec 10 → Byte} {name : TableName}
variable {past later tables : List TableDef} {table : TableDef}
variable {length number : Nat}

theorem leftEnd_concat :
    leftEnd name length (past ++ [table]) =
      if cfgTable table.info = name ∧ table.count length ≠ 0 then
        endCode table.count length
      else leftEnd name length past := by
  simp [leftEnd]

theorem lastAt_concat (symbols : List Byte) (symbol : Byte) :
    lastAt (symbols ++ [symbol]) number =
      if symbols.length % 1024 = number % 1024 then some symbol
      else lastAt symbols number := by
  simp [lastAt, List.zipIdx_append]

/-- Something is put at the RAM address of every symbol. -/
theorem lastAt_isSome (symbols : List Byte) (number : Nat)
    (inside : number < symbols.length) :
    ∃ symbol, lastAt symbols number = some symbol := by
  induction symbols using List.reverseRecOn with
  | nil =>
      simp at inside
  | append_singleton symbols symbol inductionHypothesis =>
      rw [lastAt_concat]
      by_cases here : symbols.length % 1024 = number % 1024
      · exact ⟨symbol, by rw [if_pos here]⟩
      · rw [if_neg here]
        refine inductionHypothesis ?_
        rw [List.length_append, List.length_singleton] at inside
        have apart : number ≠ symbols.length := by
          rintro rfl
          exact here rfl
        omega

/-- Symbols that fit the RAM stay there. -/
theorem lastAt_of_fits
    {symbols : List Byte} {number : Nat}
    (fits : symbols.length ≤ 1024)
    (inside : number < symbols.length) :
    lastAt symbols number = some (symbols.getD number 0) := by
  induction symbols using List.reverseRecOn with
  | nil =>
      simp at inside
  | append_singleton symbols symbol inductionHypothesis =>
      rw [List.length_append, List.length_singleton] at fits inside
      rw [lastAt_concat]
      by_cases last : number = symbols.length
      · subst last
        simp
      · have before : number < symbols.length := by
          omega
        rw [if_neg (by omega), inductionHypothesis (by omega) before]
        simp [List.getElem?_append_left before]

namespace Store

/-- The RAM holds at an address the last symbol that is put there. -/
theorem putSymbols_ram (symbols : List Byte) (address : BitVec 10) :
    ((cleared ram).putSymbols symbols).ram address =
      (lastAt symbols address.toNat).getD (ram address) := by
  induction symbols using List.reverseRecOn with
  | nil =>
      rfl
  | append_singleton symbols symbol inductionHypothesis =>
      have pointer :
          address = ((cleared ram).putSymbols symbols).nextPtr ↔
            symbols.length % 1024 = address.toNat % 1024 := by
        have small := address.isLt
        rw [putSymbols_nextPtr, ← BitVec.toNat_inj]
        simp [cleared]
        omega
      rw [lastAt_concat, putSymbols_append]
      simp only [putSymbols, List.foldl_cons, List.foldl_nil] at *
      rw [putSymbol]
      simp only [pointer]
      split
      · rfl
      · exact inductionHypothesis

/-- The registers have no part in what symbols are put where. -/
theorem putSymbols_congr (store other : Store)
    (sameRam : store.ram = other.ram)
    (samePointer : store.nextPtr = other.nextPtr)
    (symbols : List Byte) :
    (store.putSymbols symbols).ram = (other.putSymbols symbols).ram ∧
      (store.putSymbols symbols).nextPtr =
        (other.putSymbols symbols).nextPtr := by
  induction symbols generalizing store other with
  | nil =>
      exact ⟨sameRam, samePointer⟩
  | cons symbol rest inductionHypothesis =>
      refine inductionHypothesis _ _ ?_ ?_
      · simp only [putSymbol, sameRam, samePointer]
      · simp only [putSymbol, samePointer]

/-- The RAM and its pointer run through the symbols. -/
theorem defineAll_memory (store : Store) (tables : List TableDef) :
    (store.defineAll tables).ram =
        (store.putSymbols (symbolsOf tables)).ram ∧
      (store.defineAll tables).nextPtr =
        (store.putSymbols (symbolsOf tables)).nextPtr := by
  induction tables generalizing store with
  | nil =>
      exact ⟨rfl, rfl⟩
  | cons first rest inductionHypothesis =>
      have all : first.symbols.take first.size = first.symbols :=
        List.take_length
      have here := putSymbols_congr
        (store.define first) (store.putSymbols first.symbols)
        (by simp [define, loaded, all]) (by simp [define, loaded, all])
        (symbolsOf rest)
      have later := inductionHypothesis (store.define first)
      have split : symbolsOf (first :: rest) =
          first.symbols ++ symbolsOf rest := by
        simp [symbolsOf]
      rw [defineAll_cons, split, putSymbols_append]
      exact ⟨later.1.trans here.1, later.2.trans here.2⟩

/-- The registers behind a definition. -/
theorem define_tables (store : Store) :
    (store.define table).tables name =
      if name = cfgTable table.info then {
        minCodeQ := fun length =>
          if table.count length.toNat ≠ 0 then
            BitVec.ofNat 16 (firstCode table.count length.toNat)
          else (store.tables name).minCodeQ length
        maxCodeQ := fun length =>
          if table.count length.toNat ≠ 0 then
            BitVec.ofNat 16 (endCode table.count length.toNat)
          else (store.tables name).maxCodeQ length
        ptrQ := fun length =>
          if table.count length.toNat ≠ 0 then
            store.nextPtr + BitVec.ofNat 10 (offset table.count length.toNat)
          else (store.tables name).ptrQ length }
      else store.tables name := by
  have inside (length : BitVec 4) :
      (table.count length.toNat ≠ 0 ∧
        offset table.count length.toNat < table.size) ↔
      table.count length.toNat ≠ 0 := by
    refine and_iff_left_of_imp fun hasCodes => ?_
    have atMost := CanonicalCode.offset_le table.count
      (show length.toNat + 1 ≤ 16 from length.isLt)
    rw [TableDef.offset_sixteen, offset_succ] at atMost
    omega
  simp only [define, loaded, inside]

/-- Definitions of other tables leave the registers of a table alone. -/
theorem defineAll_tables_other (store : Store)
    (others : ∀ other ∈ later, cfgTable other.info ≠ name) :
    (store.defineAll later).tables name = store.tables name := by
  induction later generalizing store with
  | nil =>
      rfl
  | cons first rest inductionHypothesis =>
      have apart := others first List.mem_cons_self
      have kept := inductionHypothesis (store.define first)
        fun other member => others other (List.mem_cons_of_mem _ member)
      rw [defineAll_cons, kept, define_tables, if_neg (Ne.symm apart)]

/-- The registers keep the last end at every code length. -/
theorem defineAll_maxCodeQ (inside : length < 16) :
    (((cleared ram).defineAll past).tables name).maxCodeQ
        (BitVec.ofNat 4 length) =
      BitVec.ofNat 16 (leftEnd name length past) := by
  induction past using List.reverseRecOn with
  | nil =>
      rfl
  | append_singleton past table inductionHypothesis =>
      have value : (BitVec.ofNat 4 length).toNat = length := by
        rw [BitVec.toNat_ofNat]
        omega
      rw [leftEnd_concat, defineAll_append, defineAll_cons, defineAll_nil,
        define_tables]
      by_cases named : name = cfgTable table.info
      · by_cases hasCodes : table.count length = 0
        · simp [named, value, hasCodes] at inductionHypothesis ⊢
          exact inductionHypothesis
        · simp [named, value, hasCodes]
      · simpa [named, Ne.symm named] using inductionHypothesis

end Store

end Memory

/-! ## The lookup -/

/-- What a lookup finds in a memory: the width and the symbol. -/
def Store.find (store : Store) (name : TableName) (window : BitVec 16) :
    BitVec 5 × Byte :=
  let width := widthR (store.tables name) window
  let address :=
    window >>> (15 - width.toNat) - (store.tables name).minCodeQ width +
      ((store.tables name).ptrQ width).setWidth 16
  (width.setWidth 5 + 1, store.ram (address.setWidth 10))

section Widths

variable {regs : TableRegs} {window : BitVec 16} {length : Nat}

/-- The first bits of the window are below the end at a code length. -/
theorem below_iff (regs : TableRegs) (fits : length < 16) :
    window >>> (15 - length) < regs.maxCodeQ (BitVec.ofNat 4 length) ↔
      leading 16 window.toNat length <
        (regs.maxCodeQ (BitVec.ofNat 4 length)).toNat := by
  have bits : 16 - (length + 1) = 15 - length := by
    omega
  rw [BitVec.lt_def, BitVec.toNat_ushiftRight, Nat.shiftRight_eq_div_pow,
    leading, bits]

/-- No length beyond one whose end is above the window is selected. -/
theorem widthR_le
    (short : length < 15)
    (below :
      leading 16 window.toNat length <
        (regs.maxCodeQ (BitVec.ofNat 4 length)).toNat) :
    (widthR regs window).toNat ≤ length := by
  have selects := (below_iff regs (by omega)).mpr below
  cases found : (List.range 15).find? fun length =>
      window >>> (15 - length) < regs.maxCodeQ (BitVec.ofNat 4 length) with
  | none =>
      have nothing := List.find?_eq_none.mp found length
        (List.mem_range.mpr short)
      simp only [decide_eq_true_eq] at nothing
      exact absurd selects nothing
  | some first =>
      have before := (List.find?_range_eq_some.mp found).2.2
      have atMost : first ≤ length := by
        by_contra beyond
        have passed := before length (by omega)
        simp [selects] at passed
      have small : first % 16 ≤ length := (Nat.mod_le _ _).trans atMost
      simpa [widthR, found] using small

/-- The first length whose end is above the window is selected. -/
theorem widthR_eq
    (fits : length < 16)
    (passed :
      ∀ shorter < length,
        (regs.maxCodeQ (BitVec.ofNat 4 shorter)).toNat ≤
          leading 16 window.toNat shorter)
    (below :
      length < 15 →
        leading 16 window.toNat length <
          (regs.maxCodeQ (BitVec.ofNat 4 length)).toNat) :
    widthR regs window = BitVec.ofNat 4 length := by
  have before :
      ∀ shorter < length,
        ¬ window >>> (15 - shorter) <
          regs.maxCodeQ (BitVec.ofNat 4 shorter) := by
    intro shorter isShorter
    rw [below_iff _ (by omega), Nat.not_lt]
    exact passed shorter isShorter
  rw [widthR]
  congr 1
  by_cases last : length = 15
  · have nothing :
        ((List.range 15).find? fun length =>
          decide (window >>> (15 - length) <
            regs.maxCodeQ (BitVec.ofNat 4 length))) = none := by
      rw [List.find?_eq_none]
      intro shorter member
      have isShorter : shorter < length := by
        rw [last]
        exact List.mem_range.mp member
      simpa using before shorter isShorter
    rw [nothing, last]
    rfl
  · have found :
        ((List.range 15).find? fun length =>
          decide (window >>> (15 - length) <
            regs.maxCodeQ (BitVec.ofNat 4 length))) = some length := by
      rw [List.find?_range_eq_some]
      refine ⟨?_, List.mem_range.mpr (by omega), ?_⟩
      · simpa using (below_iff _ fits).mpr (below (by omega))
      · intro shorter isShorter
        simpa using before shorter isShorter
    rw [found]
    rfl

end Widths

/-! ## The lookup behind a history -/

/-- A definition of 1 to 255 symbols with a canonical prefix code. -/
structure TableDef.WellFormed (table : TableDef) : Prop
    extends table.Sized where
  kraft : Kraft table.count 16

/-- The code word of a definition that a window begins with. -/
def TableDef.Spells (table : TableDef) (window : BitVec 16)
    (length index : Nat) : Prop :=
  Begins table.count 16 window.toNat length index

/-- What a definition says of a code word: its length and its symbol. -/
def TableDef.entry (table : TableDef) (length index : Nat) :
    BitVec 5 × Byte :=
  (BitVec.ofNat 5 (length + 1),
    table.symbols.getD (offset table.count length + index) 0)

section History

variable {ram : BitVec 10 → Byte} {window : BitVec 16}
variable {past later : List TableDef} {table : TableDef}
variable {length index : Nat}

theorem Store.defineAll_maxCodeQ_latest
    (others : ∀ other ∈ later, cfgTable other.info ≠ cfgTable table.info)
    (fits : length < 16) :
    (((cleared ram).defineAll (past ++ table :: later)).tables
        (cfgTable table.info)).maxCodeQ (BitVec.ofNat 4 length) =
      BitVec.ofNat 16
        (if table.count length ≠ 0 then endCode table.count length
        else leftEnd (cfgTable table.info) length past) := by
  have behind := defineAll_tables_other
    ((cleared ram).defineAll (past ++ [table])) others
  have split : past ++ table :: later = past ++ [table] ++ later := by
    simp
  rw [split, defineAll_append, behind, defineAll_maxCodeQ fits,
    leftEnd_concat]
  simp

/-- The registers at a code length that the latest definition fills. -/
theorem Store.defineAll_filled
    (ram : BitVec 10 → Byte) (past : List TableDef)
    (others : ∀ other ∈ later, cfgTable other.info ≠ cfgTable table.info)
    (fits : length < 16)
    (hasCodes : table.count length ≠ 0) :
    (((cleared ram).defineAll (past ++ table :: later)).tables
          (cfgTable table.info)).minCodeQ (BitVec.ofNat 4 length) =
        BitVec.ofNat 16 (firstCode table.count length) ∧
      (((cleared ram).defineAll (past ++ table :: later)).tables
          (cfgTable table.info)).ptrQ (BitVec.ofNat 4 length) =
        BitVec.ofNat 10
          ((symbolsOf past).length + offset table.count length) := by
  have value : (BitVec.ofNat 4 length).toNat = length := by
    rw [BitVec.toNat_ofNat]
    omega
  have behind := defineAll_tables_other
    (((cleared ram).defineAll past).define table) others
  have pointer := (defineAll_memory (cleared ram) past).2
  have fromZero : (cleared ram).nextPtr = 0#10 := rfl
  rw [putSymbols_nextPtr, fromZero, BitVec.zero_add] at pointer
  rw [defineAll_append, defineAll_cons, behind, define_tables]
  simp [value, hasCodes, pointer, BitVec.ofNat_add]

theorem endCode_lt
    (kraft : Kraft table.count 16)
    (short : length < 15) :
    endCode table.count length < 2 ^ 16 := by
  have bounded := kraft.endCode_le (show length < 16 by omega)
  have grows : 2 ^ (length + 1) ≤ 2 ^ 15 :=
    Nat.pow_le_pow_right (by omega) (by omega)
  omega

theorem leftEnd_lt
    {name : TableName}
    (kraft : ∀ other ∈ past, Kraft other.count 16)
    (short : length < 15) :
    leftEnd name length past < 2 ^ 16 := by
  induction past using List.reverseRecOn with
  | nil =>
      simp [leftEnd]
  | append_singleton past table inductionHypothesis =>
      rw [leftEnd_concat]
      split
      · exact endCode_lt (kraft table (by simp)) short
      · exact inductionHypothesis fun other member =>
          kraft other (by simp [member])

/-- The end that a lookup compares with at a code length. -/
theorem Store.maxCodeQ_toNat
    (others : ∀ other ∈ later, cfgTable other.info ≠ cfgTable table.info)
    (kraft : ∀ other ∈ past ++ [table], Kraft other.count 16)
    (short : length < 15) :
    ((((cleared ram).defineAll (past ++ table :: later)).tables
        (cfgTable table.info)).maxCodeQ (BitVec.ofNat 4 length)).toNat =
      if table.count length ≠ 0 then endCode table.count length
      else leftEnd (cfgTable table.info) length past := by
  rw [defineAll_maxCodeQ_latest others (by omega), BitVec.toNat_ofNat,
    Nat.mod_eq_of_lt]
  split
  · exact endCode_lt (kraft table (by simp)) short
  · exact leftEnd_lt (fun other member => kraft other (by simp [member])) short

theorem lastAt_mod (symbols : List Byte) (number : Nat) :
    lastAt symbols (number % 1024) = lastAt symbols number := by
  simp [lastAt]

/-- The symbol that is read when the right length is selected. -/
theorem Store.find_of_width
    (others : ∀ other ∈ later, cfgTable other.info ≠ cfgTable table.info)
    (spells : table.Spells window length index)
    (selected :
      widthR (((cleared ram).defineAll (past ++ table :: later)).tables
        (cfgTable table.info)) window = BitVec.ofNat 4 length) :
    ∃ kept,
      lastAt (symbolsOf (past ++ table :: later))
          ((symbolsOf past).length + (offset table.count length + index)) =
        some kept ∧
      ((cleared ram).defineAll (past ++ table :: later)).find
          (cfgTable table.info) window =
        (BitVec.ofNat 5 (length + 1), kept) := by
  have fits := spells.fits
  have counted := spells.counted
  have hasCodes : table.count length ≠ 0 := by
    omega
  have atMost := CanonicalCode.offset_le table.count
    (show length + 1 ≤ 16 from fits)
  rw [TableDef.offset_sixteen, offset_succ, TableDef.size] at atMost
  obtain ⟨kept, isKept⟩ :=
    lastAt_isSome (symbolsOf (past ++ table :: later))
      ((symbolsOf past).length + (offset table.count length + index))
      (by simp [symbolsOf]; omega)
  obtain ⟨isMin, isPtr⟩ :=
    defineAll_filled ram past others fits hasCodes
  have memory := (defineAll_memory (cleared ram) (past ++ table :: later)).1
  have narrow : (BitVec.ofNat 4 length).toNat = length := by
    rw [BitVec.toNat_ofNat]
    omega
  have bits : window >>> (15 - length) =
      BitVec.ofNat 16 (firstCode table.count length) +
        BitVec.ofNat 16 index := by
    have spelled := spells.spelled
    have same : 16 - (length + 1) = 15 - length := by
      omega
    rw [leading, same] at spelled
    rw [← BitVec.ofNat_add, ← spelled]
    apply BitVec.eq_of_toNat_eq
    rw [BitVec.toNat_ushiftRight, Nat.shiftRight_eq_div_pow,
      BitVec.toNat_ofNat, Nat.mod_eq_of_lt]
    exact (Nat.div_le_self _ _).trans_lt window.isLt
  have address :
      ((BitVec.ofNat 16 (firstCode table.count length) +
            BitVec.ofNat 16 index -
          BitVec.ofNat 16 (firstCode table.count length) +
          (BitVec.ofNat 10 ((symbolsOf past).length +
            offset table.count length)).setWidth 16).setWidth 10).toNat =
        ((symbolsOf past).length + (offset table.count length + index)) %
          1024 := by
    rw [BitVec.add_comm (BitVec.ofNat 16 (firstCode table.count length)),
      BitVec.add_sub_cancel]
    simp
    omega
  refine ⟨kept, isKept, ?_⟩
  simp only [find, selected, narrow, isMin, isPtr, bits, memory,
    putSymbols_ram, address, lastAt_mod, isKept]
  refine Prod.ext ?_ rfl
  apply BitVec.eq_of_toNat_eq
  simp
  omega

/-- The code words that are kept are found. -/
theorem Keeps.find
    (ram : BitVec 10 → Byte)
    (keeps : Keeps past table later)
    (others : ∀ other ∈ later, cfgTable other.info ≠ cfgTable table.info)
    (kraft : ∀ other ∈ past ++ [table], Kraft other.count 16)
    (spells : table.Spells window length index) :
    ((Store.cleared ram).defineAll (past ++ table :: later)).find
        (cfgTable table.info) window =
      table.entry length index := by
  have fits := spells.fits
  have counted := spells.counted
  have selected :
      widthR (((Store.cleared ram).defineAll
        (past ++ table :: later)).tables (cfgTable table.info)) window =
          BitVec.ofNat 4 length := by
    refine widthR_eq fits ?_ ?_
    · intro shorter isShorter
      have passed := spells.endCode_le_leading isShorter
      rw [Store.maxCodeQ_toNat others kraft (by omega)]
      by_cases empty : table.count shorter = 0
      · have kept := keeps.ends shorter (by omega) empty
          ⟨length, fits, isShorter, by omega⟩
        rw [endCode, empty] at passed
        rw [if_neg (by simpa using empty)]
        exact kept.trans passed
      · rw [if_pos empty]
        exact passed
    · intro short
      rw [Store.maxCodeQ_toNat others kraft short, if_pos (by omega),
        spells.spelled, endCode]
      omega
  obtain ⟨kept, isKept, found⟩ :=
    Store.find_of_width others spells selected
  have atMost := CanonicalCode.offset_le table.count
    (show length + 1 ≤ 16 from fits)
  rw [TableDef.offset_sixteen, offset_succ] at atMost
  rw [keeps.cells _ (by omega)] at isKept
  rw [found, TableDef.entry]
  simpa using isKept.symm

/-- The length that is selected for an entry that is found. -/
theorem Store.width_of_find
    {store : Store} {name : TableName}
    (fits : length < 16)
    (found : store.find name window = table.entry length index) :
    (widthR (store.tables name) window).toNat = length := by
  have width := congrArg (fun entry => entry.1.toNat) found
  have one : (1 : BitVec 5).toNat = 1 := rfl
  simp only [find, TableDef.entry, BitVec.toNat_add, BitVec.toNat_setWidth,
    BitVec.toNat_ofNat, one] at width
  omega

/-- Behind an end that was left, the first longer code word is not found. -/
theorem ends_of_find
    (others : ∀ other ∈ later, cfgTable other.info ≠ cfgTable table.info)
    (kraft : ∀ other ∈ past ++ [table], Kraft other.count 16)
    (finds :
      ∀ window length index, table.Spells window length index →
        ((Store.cleared ram).defineAll (past ++ table :: later)).find
            (cfgTable table.info) window =
          table.entry length index)
    (short : length < 15)
    (empty : table.count length = 0)
    (more : ∃ longer < 16, length < longer ∧ table.count longer ≠ 0) :
    leftEnd (cfgTable table.info) length past ≤
      firstCode table.count length := by
  by_contra above
  classical
  obtain ⟨fits, isLonger, hasCodes⟩ := Nat.find_spec more
  have between :
      ∀ between, length ≤ between → between < Nat.find more →
        table.count between = 0 := by
    intro between beyond below
    by_cases here : between = length
    · rw [here]
      exact empty
    · by_contra hasCodes
      exact Nat.find_min more below ⟨by omega, by omega, hasCodes⟩
  obtain ⟨value, inRange, begins⟩ :=
    (kraft table (by simp)).exists_begins fits
      (Nat.pos_of_ne_zero hasCodes)
  have isValue : (BitVec.ofNat 16 value).toNat = value := by
    rw [BitVec.toNat_ofNat, Nat.mod_eq_of_lt inRange]
  have leads := begins.leading_of_empty isLonger.le between
  have selected :
      (widthR (((Store.cleared ram).defineAll
        (past ++ table :: later)).tables (cfgTable table.info))
          (BitVec.ofNat 16 value)).toNat ≤ length := by
    refine widthR_le short ?_
    rw [Store.maxCodeQ_toNat others kraft short, if_neg (by simpa using empty),
      isValue, leads]
    omega
  have spells :
      table.Spells (BitVec.ofNat 16 value) (Nat.find more) 0 := by
    rw [TableDef.Spells, isValue]
    exact begins
  have width := Store.width_of_find fits (finds _ _ _ spells)
  omega

/-- Every symbol of a definition has a code word. -/
theorem TableDef.exists_code
    {number : Nat}
    (inside : number < table.size) :
    ∃ length index, length < 16 ∧ index < table.count length ∧
      offset table.count length + index = number := by
  have reach : ∃ limit, number < offset table.count limit :=
    ⟨16, by rw [offset_sixteen]; exact inside⟩
  classical
  have spec := Nat.find_spec reach
  cases least : Nat.find reach with
  | zero =>
      rw [least] at spec
      simp at spec
  | succ length =>
      have before := Nat.find_min reach (m := length) (by omega)
      rw [least, offset_succ] at spec
      refine ⟨length, number - offset table.count length, ?_, by omega,
        by omega⟩
      by_contra beyond
      rw [count_beyond (by omega)] at spec
      omega

/-- What is found of every code word is kept. -/
theorem keeps_of_find
    (ram : BitVec 10 → Byte)
    (others : ∀ other ∈ later, cfgTable other.info ≠ cfgTable table.info)
    (kraft : ∀ other ∈ past ++ [table], Kraft other.count 16)
    (finds :
      ∀ window length index, table.Spells window length index →
        ((Store.cleared ram).defineAll (past ++ table :: later)).find
            (cfgTable table.info) window =
          table.entry length index) :
    Keeps past table later := by
  refine ⟨fun length short empty more =>
    ends_of_find others kraft finds short empty more, ?_⟩
  intro number inside
  obtain ⟨length, index, fits, counted, isNumber⟩ :=
    TableDef.exists_code inside
  obtain ⟨value, inRange, begins⟩ :=
    (kraft table (by simp)).exists_begins fits counted
  have isValue : (BitVec.ofNat 16 value).toNat = value := by
    rw [BitVec.toNat_ofNat, Nat.mod_eq_of_lt inRange]
  have spells : table.Spells (BitVec.ofNat 16 value) length index := by
    rw [TableDef.Spells, isValue]
    exact begins
  have found := finds _ length index spells
  have selected :
      widthR (((Store.cleared ram).defineAll
        (past ++ table :: later)).tables (cfgTable table.info))
          (BitVec.ofNat 16 value) = BitVec.ofNat 4 length := by
    apply BitVec.eq_of_toNat_eq
    rw [Store.width_of_find fits found, BitVec.toNat_ofNat,
      Nat.mod_eq_of_lt fits]
  obtain ⟨kept, isKept, isFound⟩ :=
    Store.find_of_width others spells selected
  rw [found, TableDef.entry, Prod.mk.injEq] at isFound
  rw [← isNumber, isKept, isFound.2]

end History

end CoreJpeg.JpegDht
