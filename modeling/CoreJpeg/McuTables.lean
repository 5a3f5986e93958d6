import CoreJpeg.DhtStandard
import CoreJpeg.McuDecode

namespace CoreJpeg.JpegDht

open BitString

/-!
# Huffman tables that answer the entropy decoder

The entropy decoder asks for a code while it fetches a word and then waits.
`jpeg_dht` answers two cycles later with writable tables, which look at the
window a second time, and one cycle later with the tables that are built in.
Either way the oldest lookup is answered rightly and before the next one is
asked, also when the decoder has closed the block and does not wait.
-/

/-! ## Both circuits -/

/-- `jpeg_dht` with `SUPPORT_WRITABLE_DHT` at one or at zero. -/
inductive Circuit where
  | writable (s : State)
  | standard (s : StdState)

/-- The index that `jpeg_mcu_proc` gives a table (`DHT_TABLE_*_IDX`). -/
def tableIndex : McuProc.DhtTable → BitVec 2
  | .yDc => 0
  | .yAc => 1
  | .cxDc => 2
  | .cxAc => 3

namespace Circuit

/-- One clock edge. -/
def step : Circuit → Input → Circuit
  | writable s, i => .writable (JpegDht.step s i)
  | standard s, i => .standard (s.step i)

/-- `lookup_valid_o` with `lookup_width_o` and `lookup_value_o`. -/
def answer : Circuit → Option (BitVec 5 × Byte)
  | writable s =>
      if lookupValidO s then some (lookupWidthO s, lookupValueO s) else none
  | standard s =>
      if s.lookupValidQ then some (s.lookupWidthQ, s.lookupValueQ) else none

/-- What a lookup finds. -/
def find : Circuit → McuProc.DhtTable → BitVec 16 → BitVec 5 × Byte
  | writable s, table, window =>
      s.store.find (lookupTable (tableIndex table)) window
  | standard _, table, window => stdFind (lookupTable (tableIndex table)) window

/-- Every code word of some tables is found. -/
def Serves (circuit : Circuit) (tables : EntropyCode.Tables) : Prop :=
  ∀ request : McuProc.Request,
    McuProc.Answers tables request (circuit.find request.table request.input)

/-- No lookup is under way. -/
def Quiet : Circuit → Prop
  | writable s => s.lookupValidQ = false ∧ s.lookupValid2Q = false
  | standard s => s.lookupValidQ = false

/-- A lookup is half way through the writable tables. -/
def Halfway (circuit : Circuit) (request : McuProc.Request) : Prop :=
  match circuit with
  | writable s =>
      s.lookupValidQ = true ∧ s.lookupValid2Q = false ∧
        s.lookupTableQ = tableIndex request.table ∧
        s.lookupWidthQ =
          widthR (s.tables (lookupTable (tableIndex request.table)))
            request.input
  | standard _ => False

/-- The answer to a lookup is at the pins, and no other one follows it. -/
def Answered (circuit : Circuit) (request : McuProc.Request) : Prop :=
  circuit.answer = some (circuit.find request.table request.input) ∧
    match circuit with
    | writable s => s.lookupValidQ = false
    | standard _ => True

end Circuit

/-! ## One clock edge -/

section Edge

variable {circuit : Circuit} {i : Input} {request : McuProc.Request}

/-- Without a configuration byte a lookup finds what it found before. -/
theorem Circuit.find_step
    (running : i.rst = false)
    (noLoad : i.cfgValid = false) :
    (circuit.step i).find = circuit.find := by
  cases circuit with
  | standard s => rfl
  | writable s =>
      have kept : (JpegDht.step s i).store = s.store :=
        store_kept running fun taken => by simp [accepts, noLoad] at taken
      funext table window
      exact congrArg
        (fun store => store.find (lookupTable (tableIndex table)) window) kept

/-- Without a request a circuit stays quiet. -/
theorem Circuit.Quiet.stays
    (quiet : circuit.Quiet)
    (running : i.rst = false)
    (noRequest : i.lookupReq = false) :
    (circuit.step i).Quiet := by
  cases circuit with
  | standard s => simp [step, StdState.step, Quiet, running, noRequest]
  | writable s =>
      simp [step, JpegDht.step, Quiet, running, noRequest, quiet.1]

/-- A request is taken. -/
theorem Circuit.Quiet.takes
    (quiet : circuit.Quiet)
    (running : i.rst = false)
    (noLoad : i.cfgValid = false)
    (requested : i.lookupReq = true)
    (isTable : i.lookupTable = tableIndex request.table)
    (isInput : i.lookupInput = request.input) :
    (circuit.step i).Halfway request ∨ (circuit.step i).Answered request := by
  cases circuit with
  | standard s =>
      right
      simp [step, StdState.step, Answered, answer, find, running, requested,
        isTable, isInput]
  | writable s =>
      left
      have kept : (JpegDht.step s i).store = s.store :=
        store_kept running fun taken => by simp [accepts, noLoad] at taken
      have tables : (JpegDht.step s i).tables = s.tables :=
        congrArg Store.tables kept
      refine ⟨?_, ?_, ?_, ?_⟩
      · simp [JpegDht.step, running, requested]
      · simp [JpegDht.step, running, quiet.1]
      · simp [JpegDht.step, running, isTable]
      · rw [tables]
        simp [JpegDht.step, running, isTable, isInput]

/-- The second look at the window reads the symbol. -/
theorem Circuit.Halfway.finishes
    (halfway : circuit.Halfway request)
    (running : i.rst = false)
    (noLoad : i.cfgValid = false)
    (noRequest : i.lookupReq = false)
    (held : i.lookupInput = request.input) :
    (circuit.step i).Answered request := by
  cases circuit with
  | standard s => exact halfway.elim
  | writable s =>
      obtain ⟨valid, -, isTable, isWidth⟩ := halfway
      have next : (JpegDht.step s i).lookupValidQ = false := by
        simp [JpegDht.step, running, noRequest]
      refine ⟨?_, next⟩
      rw [find_step running noLoad]
      simp only [step, answer, find, JpegDht.step, running, lookupValidO,
        lookupWidthO, lookupValueO, valid, lookupAddrR, isTable, isWidth, held,
        Bool.false_eq_true, if_false, if_true, Store.find, State.store]

/-- An answer is shown for one cycle. -/
theorem Circuit.Answered.leaves
    (answered : circuit.Answered request)
    (running : i.rst = false)
    (noRequest : i.lookupReq = false) :
    (circuit.step i).Quiet := by
  cases circuit with
  | standard s => simp [step, StdState.step, Quiet, running, noRequest]
  | writable s =>
      simp [step, JpegDht.step, Quiet, running, noRequest, answered.2]

theorem Circuit.Quiet.answer_eq
    (quiet : circuit.Quiet) :
    circuit.answer = none := by
  cases circuit with
  | standard s =>
      have noneWaiting : s.lookupValidQ = false := quiet
      simp [answer, noneWaiting]
  | writable s => simp [answer, lookupValidO, quiet.2]

theorem Circuit.Halfway.answer_eq
    (halfway : circuit.Halfway request) :
    circuit.answer = none := by
  cases circuit with
  | standard s => exact halfway.elim
  | writable s => simp [answer, lookupValidO, halfway.2.1]

end Edge

/-! ## Lookups under way -/

/-- The pins of `jpeg_dht` while no table is defined. -/
structure Asked (i : Input) (system : McuProc.System) (cycle : McuProc.Cycle) :
    Prop where
  running : i.rst = false
  noLoad : i.cfgValid = false
  request : i.lookupReq = McuProc.lookupReq system.mcu (system.mcuInput cycle)
  table : i.lookupTable = tableIndex (McuProc.lookupTable system.mcu)
  window : i.lookupInput = McuProc.lookupInput (system.mcuInput cycle)

/-- The lookup that is under way, if one is, is the one that waits. -/
inductive Serving (circuit : Circuit) (system : McuProc.System) : Prop
  | quiet
      (isQuiet : circuit.Quiet)
      (nothing : system.pending = [])
  | halfway
      (request : McuProc.Request)
      (isHalfway : circuit.Halfway request)
      (waiting : system.pending = [request])
      (held :
        (BitBuffer.outportData system.buffer).extractLsb' 16 16 =
          request.input)
      (state : system.mcu.stateQ = .huffLookup ∨ system.mcu.stateQ = .eob)
  | answered
      (request : McuProc.Request)
      (isAnswered : circuit.Answered request)
      (waiting : system.pending = [request])
      (state : system.mcu.stateQ ≠ .fetchWord)

section Serving

variable {circuit : Circuit} {system : McuProc.System} {i : Input}
variable {cycle : McuProc.Cycle} {tables : EntropyCode.Tables}

/-- Outside `STATE_FETCH_WORD` nothing is asked. -/
theorem asked_eq_nil
    (state : system.mcu.stateQ ≠ .fetchWord)
    (cycle : McuProc.Cycle) :
    McuProc.lookupReq system.mcu (system.mcuInput cycle) = false ∧
      system.asked cycle = [] := by
  have noRequest :
      McuProc.lookupReq system.mcu (system.mcuInput cycle) = false := by
    simp [McuProc.lookupReq, state]
  exact ⟨noRequest, by simp [McuProc.System.asked, noRequest]⟩

/-- What the entropy decoder is promised of its tables holds. -/
theorem Serving.promises
    (serving : Serving circuit system)
    (serves : circuit.Serves tables)
    (isAnswer : cycle.answer = circuit.answer) :
    McuProc.AnswerRight tables system.pending cycle.answer ∧
      McuProc.AnsweredInTime system cycle := by
  rw [isAnswer]
  cases serving with
  | quiet isQuiet nothing =>
      rw [isQuiet.answer_eq]
      refine ⟨trivial, .inr ?_⟩
      simp [McuProc.System.unanswered, nothing]
  | halfway request isHalfway waiting held state =>
      rw [isHalfway.answer_eq]
      refine ⟨trivial, .inl (asked_eq_nil ?_ cycle).2⟩
      rcases state with state | state <;> simp [state]
  | answered request isAnswered waiting state =>
      rw [isAnswered.1, waiting]
      exact ⟨serves request, .inl (asked_eq_nil state cycle).2⟩

/-- The decoder waits or closes its block behind a lookup. -/
theorem state_behind_request
    (noReset : cycle.rst = false)
    (noStart : cycle.imgStart = false)
    (requested :
      McuProc.lookupReq system.mcu (system.mcuInput cycle) = true) :
    (system.step cycle).mcu.stateQ = .huffLookup ∨
      (system.step cycle).mcu.stateQ = .eob := by
  rw [McuProc.lookupReq, Bool.and_eq_true, beq_iff_eq] at requested
  obtain ⟨isFetch, valid⟩ := requested
  have isValid : BitBuffer.outportValid system.buffer = true := valid
  have next : (system.step cycle).mcu.stateQ =
      if 63 ≤ system.mcu.coeffIdxQ then .eob else .huffLookup := by
    simp [McuProc.System.step, McuProc.step, McuProc.nextStateR,
      McuProc.System.mcuInput, noReset, noStart, isFetch, isValid]
  rw [next]
  split_ifs <;> simp

/-- While it waits without an answer the decoder fetches nothing. -/
theorem state_behind_waiting
    (noReset : cycle.rst = false)
    (noStart : cycle.imgStart = false)
    (unanswered : cycle.answer = none)
    (state : system.mcu.stateQ = .huffLookup ∨ system.mcu.stateQ = .eob) :
    (system.step cycle).mcu.stateQ ≠ .fetchWord := by
  rcases state with state | state <;>
    simp [McuProc.System.step, McuProc.step, McuProc.nextStateR,
      McuProc.System.mcuInput, noReset, noStart, unanswered, state]

/--
One clock edge: a lookup that is asked is taken, and one that waits comes
closer to its answer.  Behind a lookup the window stays for another cycle.
-/
theorem Serving.step
    (serving : Serving circuit system)
    (asked : Asked i system cycle)
    (noReset : cycle.rst = false)
    (noStart : cycle.imgStart = false)
    (isAnswer : cycle.answer = circuit.answer)
    (windowHeld :
      McuProc.lookupReq system.mcu (system.mcuInput cycle) = true →
        BitBuffer.outportData (system.step cycle).buffer =
          BitBuffer.outportData system.buffer) :
    Serving (circuit.step i) (system.step cycle) := by
  cases serving with
  | quiet isQuiet nothing =>
      have noneWaiting : system.unanswered cycle = [] := by
        simp [McuProc.System.unanswered, nothing]
      cases requested :
          McuProc.lookupReq system.mcu (system.mcuInput cycle) with
      | false =>
          refine .quiet (isQuiet.stays asked.running
            (asked.request.trans requested)) ?_
          simp [McuProc.System.step, McuProc.System.asked, noneWaiting, requested]
      | true =>
          have state := state_behind_request noReset noStart requested
          obtain ⟨request, isRequest⟩ : ∃ request : McuProc.Request,
              request =
                { table := McuProc.lookupTable system.mcu
                  input := McuProc.lookupInput (system.mcuInput cycle) } :=
            ⟨_, rfl⟩
          have waiting : (system.step cycle).pending = [request] := by
            simp [McuProc.System.step, McuProc.System.asked, noneWaiting, requested,
              isRequest]
          have taken :
              (circuit.step i).Halfway request ∨
                (circuit.step i).Answered request :=
            isQuiet.takes asked.running asked.noLoad
              (asked.request.trans requested) (isRequest ▸ asked.table)
              (isRequest ▸ asked.window)
          rcases taken with isHalfway | isAnswered
          · refine .halfway request isHalfway waiting ?_ state
            rw [windowHeld requested, isRequest]
            rfl
          · refine .answered request isAnswered waiting ?_
            rcases state with state | state <;> simp [state]
  | halfway request isHalfway waiting held state =>
      have notFetch : system.mcu.stateQ ≠ .fetchWord := by
        rcases state with state | state <;> simp [state]
      obtain ⟨noRequest, nothing⟩ := asked_eq_nil notFetch cycle
      have unanswered : cycle.answer = none :=
        isAnswer.trans isHalfway.answer_eq
      refine .answered request ?_ ?_
        (state_behind_waiting noReset noStart unanswered state)
      · exact isHalfway.finishes asked.running asked.noLoad
          (asked.request.trans noRequest) (asked.window.trans held)
      · simp [McuProc.System.step, McuProc.System.unanswered, unanswered,
          waiting, nothing]
  | answered request isAnswered waiting state =>
      obtain ⟨noRequest, nothing⟩ := asked_eq_nil state cycle
      refine .quiet (isAnswered.leaves asked.running
        (asked.request.trans noRequest)) ?_
      simp [McuProc.System.step, McuProc.System.unanswered, isAnswer,
        isAnswered.1, waiting, nothing]

end Serving

/-! ## Tables of definitions -/

/-- No code word of a definition begins another one. -/
theorem TableDef.prefixFree_entries
    {table : TableDef}
    (kraft : CanonicalCode.Kraft table.count 16) :
    ∀ first ∈ table.entries.map fun entry => (entry.word, entry.value),
      ∀ second ∈ table.entries.map fun entry => (entry.word, entry.value),
        first.1 <+: second.1 → first = second := by
  simp only [List.mem_map]
  rintro _ ⟨first, firstIn, rfl⟩ _ ⟨second, secondIn, rfl⟩ begins
  obtain ⟨length, index, fits, counted, rfl⟩ := mem_entries.mp firstIn
  obtain ⟨other, otherIndex, otherFits, otherCounted, rfl⟩ :=
    mem_entries.mp secondIn
  obtain ⟨rfl, rfl⟩ :=
    Software.word_prefix_unique kraft fits counted otherFits otherCounted
      begins
  rfl

/-- The code words of a definition have 1 to 16 bits. -/
theorem TableDef.widths_entries (table : TableDef) :
    ∀ entry ∈ table.entries.map fun entry => (entry.word, entry.value),
      1 ≤ entry.1.length ∧ entry.1.length ≤ 16 := by
  simp only [List.mem_map]
  rintro _ ⟨entry, member, rfl⟩
  obtain ⟨length, index, fits, counted, rfl⟩ := mem_entries.mp member
  simp only [Software.DhtEntry.word, length_toBits]
  omega

/-- The canonical code of a definition. -/
def TableDef.code (table : TableDef)
    (kraft : CanonicalCode.Kraft table.count 16) : EntropyCode.Table where
  entries := table.entries.map fun entry => (entry.word, entry.value)
  prefixFree := TableDef.prefixFree_entries kraft
  widths := table.widths_entries

/-- The codes of four definitions. -/
def codesOf
    (definitions : McuProc.DhtTable → TableDef)
    (kraft : ∀ table, CanonicalCode.Kraft (definitions table).count 16) :
    EntropyCode.Tables where
  yDc := (definitions .yDc).code (kraft .yDc)
  yAc := (definitions .yAc).code (kraft .yAc)
  cxDc := (definitions .cxDc).code (kraft .cxDc)
  cxAc := (definitions .cxAc).code (kraft .cxAc)

theorem tableOf_codesOf
    (definitions : McuProc.DhtTable → TableDef)
    (kraft : ∀ table, CanonicalCode.Kraft (definitions table).count 16)
    (table : McuProc.DhtTable) :
    McuProc.tableOf (codesOf definitions kraft) table =
      (definitions table).code (kraft table) := by
  cases table <;> rfl

/-- A circuit that finds every code word of four definitions serves them. -/
theorem Circuit.serves_of_finds
    {circuit : Circuit}
    {definitions : McuProc.DhtTable → TableDef}
    (kraft : ∀ table, CanonicalCode.Kraft (definitions table).count 16)
    (finds :
      ∀ table window length index,
        (definitions table).Spells window length index →
          circuit.find table window = (definitions table).entry length index) :
    circuit.Serves (codesOf definitions kraft) := by
  intro request entry member begins
  rw [tableOf_codesOf] at member
  obtain ⟨found, inEntries, rfl⟩ := List.mem_map.mp member
  obtain ⟨length, index, fits, counted, rfl⟩ := mem_entries.mp inEntries
  have spells :=
    (Software.word_prefix_iff (kraft request.table) fits counted
      request.input).mp begins
  rw [finds _ _ _ _ spells]
  simp [TableDef.entry, Software.DhtEntry.word]

/-- The definition of a table that is built in. -/
def builtIn (table : McuProc.DhtTable) : TableDef :=
  stdDefinition (lookupTable (tableIndex table))

theorem builtIn_kraft (table : McuProc.DhtTable) :
    CanonicalCode.Kraft (builtIn table).count 16 :=
  (stdDefinition_wellFormed _).kraft

/-- Without writable tables a circuit serves the tables of the standard. -/
theorem Circuit.standard_serves (s : StdState) :
    (standard s).Serves (codesOf builtIn builtIn_kraft) := by
  exact serves_of_finds builtIn_kraft fun _ _ _ _ spells =>
    stdFind_of_spells spells

/-- Behind segments that define each table once, a circuit serves them. -/
theorem Circuit.writable_serves
    {s : State}
    {resetting : Input}
    {segments : List (List TableDef)}
    (once : OnceEach segments.flatten)
    {cycles : List Input}
    (complete :
      (Clocked.run System.step (.fresh s resetting segments) cycles).left = [])
    {definitions : McuProc.DhtTable → TableDef}
    (defined :
      ∀ table, definitions table ∈ segments.flatten ∧
        cfgTable (definitions table).info = lookupTable (tableIndex table)) :
    (writable
      (Clocked.run System.step (.fresh s resetting segments) cycles).dht).Serves
        (codesOf definitions fun table =>
          (once.wellFormed _ (defined table).1).kraft) := by
  obtain ⟨ram, isStore⟩ :=
    store_loaded
      (fun table member => (once.wellFormed table member).toSized) s
      resetting complete
  refine serves_of_finds _ fun table window length index spells => ?_
  rw [find, isStore, ← (defined table).2]
  exact once.find ram (defined table).1 spells

/-! ## The window behind a lookup -/

/-- Without a pop a valid window does not change. -/
theorem window_held
    {system : McuProc.System} {cycle : McuProc.Cycle}
    (sound : BitBuffer.Sound system.buffer)
    (drained : system.buffer.drainQ = true → system.source = [])
    (noReset : cycle.rst = false)
    (noStart : cycle.imgStart = false)
    (valid : BitBuffer.outportValid system.buffer = true)
    (popsNothing : system.popped cycle = 0) :
    BitBuffer.outportData (system.step cycle).buffer =
      BitBuffer.outportData system.buffer := by
  have running : ((system.bufferInput cycle).rst ||
      (system.bufferInput cycle).imgStart) = false := by
    simp [McuProc.System.bufferInput, noReset, noStart]
  have nothing :
      BitBuffer.popped system.buffer (system.bufferInput cycle) = 0 :=
    popsNothing
  rcases BitBuffer.held_of_outportValid valid with full | drain
  · have queue := BitBuffer.queue_step sound running (by omega)
    rw [nothing, List.drop_zero] at queue
    have bits : ((BitBuffer.queue system.buffer).take 32).length = 32 := by
      rw [List.length_take]
      omega
    have before := BitBuffer.prefix_window
      (List.take_prefix 32 (BitBuffer.queue system.buffer)) bits.le
    have after : (BitBuffer.queue system.buffer).take 32 <+:
        bitsOf (BitBuffer.outportData (system.step cycle).buffer) := by
      refine BitBuffer.prefix_window ?_ bits.le
      have grown : BitBuffer.queue (system.step cycle).buffer = _ := queue
      rw [grown]
      exact (List.take_prefix 32 _).trans (List.prefix_append _ _)
    have same :
        bitsOf (BitBuffer.outportData (system.step cycle).buffer) =
          bitsOf (BitBuffer.outportData system.buffer) :=
      (after.eq_of_length (by rw [bits, length_bitsOf])).symm.trans
        (before.eq_of_length (by rw [bits, length_bitsOf]))
    apply BitVec.eq_of_toNat_eq
    rw [← ofBits_bitsOf, same, ofBits_bitsOf]
  · have noByte :
        BitBuffer.pushes system.buffer (system.bufferInput cycle) = false := by
      simp [BitBuffer.pushes, McuProc.System.bufferInput, drained drain]
    have rdPtr : (system.step cycle).buffer.rdPtrQ =
        system.buffer.rdPtrQ := by
      have moved := BitBuffer.rdPtr_step (s := system.buffer) running
      rw [nothing] at moved
      exact moved.trans (BitVec.add_zero _)
    have ram : (system.step cycle).buffer.ramQ = system.buffer.ramQ := by
      simp [McuProc.System.step, BitBuffer.step, running, noByte]
    rw [BitBuffer.outportData, BitBuffer.outportData, BitBuffer.fifoDataR,
      BitBuffer.fifoDataR, rdPtr, ram]

end CoreJpeg.JpegDht
