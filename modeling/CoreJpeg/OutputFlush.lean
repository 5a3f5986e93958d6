import CoreJpeg.Clocked
import CoreJpeg.OutputModel

namespace CoreJpeg.JpegOutput

open Clocked

/-!
# Does a flush forget the old image?

`flush_i` resets the registers of the sample memories that `rst_i` resets, but
in `jpeg_output_cx_ram` one register is left out.  This module lets a memory
go on once behind a flush and once behind a reset, marks the samples that were
pushed since then, and compares what the two show.
-/

/-! ## The two branches of each register -/

/-- The registers of `jpeg_output_y_ram` after the clock edge. -/
def YRam.edge (s : YRam) (rst flush : Bool) (i : RamInput) : YRam where
  rdPtrQ :=
    if rst then 0
    else if flush then 0
    else if s.reads i then s.rdPtrQ + 1
    else s.rdPtrQ
  wrPtrQ :=
    if rst then 0
    else if flush then 0
    else if i.push then s.wrPtrQ + 1
    else s.wrPtrQ
  rdQ := if rst then false else if flush then false else s.readOk
  rdSkidQ :=
    if rst then false else if flush then false else s.validO && !i.pop
  rdSkidDataQ :=
    if rst then 0
    else if flush then 0
    else if s.validO && !i.pop then s.dataOutO
    else 0
  ram := fun address =>
    if i.push && address == s.wrAddr i then i.dataIn else s.ram address
  ramRead1Q := s.ram s.rdPtrQ
  countQ := if rst then 0 else if flush then 0 else s.countR i

/-- The registers of `jpeg_output_cx_ram` after the clock edge. -/
def CxRam.edge (s : CxRam) (rst flush mode420 : Bool) (i : RamInput) :
    CxRam where
  rdPtrQ :=
    if rst then 0
    else if flush then 0
    else if s.reads i then s.rdPtrQ + 1
    else s.rdPtrQ
  wrPtrQ :=
    if rst then 0
    else if flush then 0
    else if i.push then s.wrPtrQ + 1
    else s.wrPtrQ
  rdQ := if rst then false else if flush then false else s.readOk
  cxIdxQ :=
    if rst then 0
    else if flush then 0
    else if s.reads i then s.cxIdxQ + 1
    else s.cxIdxQ
  cxHalfQ :=
    if rst then 0
    else if flush then 0
    else if s.reads i && s.cxIdxQ == 255 then s.cxHalfQ + 1
    else s.cxHalfQ
  -- the only register without a branch for `flush_i`
  cxRdPtrQ :=
    if rst then 0 else if s.reads i then s.cxRdPtrR else s.cxRdPtrQ
  rdSkidQ :=
    if rst then false else if flush then false else s.validO && !i.pop
  rdSkidDataQ :=
    if rst then 0
    else if flush then 0
    else if s.validO && !i.pop then s.dataOutO
    else 0
  ram := fun address =>
    if i.push && address == s.wrAddr i then i.dataIn else s.ram address
  ramRead1Q := s.ram (s.rdAddr mode420)
  countQ := if rst then 0 else if flush then 0 else s.countR mode420 i

/-- The branches of `jpeg_output_y_ram` for its two resets agree. -/
theorem YRam.edge_eq (s : YRam) (rst flush : Bool) (i : RamInput) :
    s.edge rst flush i = s.step { i with clear := rst || flush } := by
  cases rst <;> cases flush <;> rfl

/-- Those of `jpeg_output_cx_ram` agree in all registers but one. -/
theorem CxRam.edge_eq (s : CxRam) (rst flush mode420 : Bool)
    (i : RamInput) :
    s.edge rst flush mode420 i =
      s.step rst mode420 { i with clear := rst || flush } := by
  cases rst <;> cases flush <;> rfl

/-! ## What a memory shows behind a clear -/

/-- A sample memory with marks on the samples pushed since the last clear. -/
structure Marked (Ram Address : Type) where
  ram : Ram
  pushed : Address → Bool
  /-- The sample read last is marked. -/
  readQ : Bool
  /-- The sample in the skid register is marked. -/
  rdSkidQ : Bool

/-- Nothing has been pushed since the clear. -/
def Marked.start {Ram Address : Type} (ram : Ram) : Marked Ram Address where
  ram := ram
  pushed := fun _ => false
  readQ := false
  rdSkidQ := false

/-- What a memory shows: `valid_o`, `level_o` and `data_out_o` with its mark. -/
structure Shown where
  validO : Bool
  levelO : BitVec 32
  dataOutO : BitVec 32
  marked : Bool
  deriving Repr, DecidableEq

/-- Two memories agree, in the data where a marked sample is valid. -/
def Shown.Agrees (first second : Shown) : Prop :=
  first.validO = second.validO ∧ first.levelO = second.levelO ∧
    (first.validO = true → first.marked = true ∨ second.marked = true →
      first.dataOutO = second.dataOutO)

instance (first second : Shown) : Decidable (first.Agrees second) := by
  unfold Shown.Agrees
  infer_instance

section YRam

/-- A marked `jpeg_output_y_ram`. -/
abbrev MarkedY := Marked YRam (BitVec 9)

namespace MarkedY

/-- What the memory shows. -/
def shown (s : MarkedY) : Shown where
  validO := s.ram.validO
  levelO := s.ram.countQ
  dataOutO := s.ram.dataOutO
  marked := if s.ram.rdSkidQ then s.rdSkidQ else s.readQ

/-- A cycle without clear. -/
def step (s : MarkedY) (i : RamInput) : MarkedY where
  ram := s.ram.edge false false i
  pushed := fun address =>
    s.pushed address || (i.push && address == s.ram.wrAddr i)
  readQ := s.pushed s.ram.rdPtrQ
  rdSkidQ := s.shown.marked

end MarkedY

/-- Behind a flush the memory shows what it shows behind a reset. -/
def YRam.FlushResets (s : YRam) (i : RamInput) : Prop :=
  ∀ later : List RamInput,
    (run MarkedY.step (.start (s.edge false true i)) later).shown.Agrees
      (run MarkedY.step (.start (s.edge true false i)) later).shown

end YRam

section CxRam

/-- A marked `jpeg_output_cx_ram`. -/
abbrev MarkedCx := Marked CxRam (BitVec 8)

namespace MarkedCx

/-- What the memory shows. -/
def shown (s : MarkedCx) : Shown where
  validO := s.ram.validO
  levelO := s.ram.countQ
  dataOutO := s.ram.dataOutO
  marked := if s.ram.rdSkidQ then s.rdSkidQ else s.readQ

/-- A cycle without clear. -/
def step (mode420 : Bool) (s : MarkedCx) (i : RamInput) : MarkedCx where
  ram := s.ram.edge false false mode420 i
  pushed := fun address =>
    s.pushed address || (i.push && address == s.ram.wrAddr i)
  readQ := s.pushed (s.ram.rdAddr mode420)
  rdSkidQ := s.shown.marked

end MarkedCx

/-- Behind a flush the memory shows what it shows behind a reset. -/
def CxRam.FlushResets (s : CxRam) (mode420 : Bool) (i : RamInput) : Prop :=
  ∀ (laterMode420 : Bool) (later : List RamInput),
    (run (MarkedCx.step laterMode420)
        (.start (s.edge false true mode420 i)) later).shown.Agrees
      (run (MarkedCx.step laterMode420)
        (.start (s.edge true false mode420 i)) later).shown

/-- The read side goes on to the first sample, or stands at it. -/
def CxRam.ReadsFirst (s : CxRam) (i : RamInput) : Prop :=
  (if s.reads i then s.cxRdPtrR else s.cxRdPtrQ) = 0

instance (s : CxRam) (i : RamInput) : Decidable (s.ReadsFirst i) := by
  unfold CxRam.ReadsFirst
  infer_instance

end CxRam

section Flush

/-- A memory agrees with itself. -/
theorem Shown.agrees_self (shown : Shown) : shown.Agrees shown :=
  ⟨rfl, rfl, fun _ _ => rfl⟩

/-- A cycle of a memory that pushes a sample. -/
def RamInput.pushed (wrIdx : BitVec 6) (dataIn : BitVec 32) : RamInput where
  clear := false
  push := true
  wrIdx := wrIdx
  dataIn := dataIn
  pop := false

/-- A cycle of a memory in which nothing happens. -/
def RamInput.quiet : RamInput where
  clear := false
  push := false
  wrIdx := 0
  dataIn := 0
  pop := false

/-- Behind a flush and a reset only the read address may differ. -/
theorem CxRam.edge_flush
    (s : CxRam) (mode420 : Bool) (i : RamInput) :
    s.edge false true mode420 i =
      { s.edge true false mode420 i with
        cxRdPtrQ := if s.reads i then s.cxRdPtrR else s.cxRdPtrQ } := by
  simp [CxRam.edge]

/-- The first address of a chrominance memory. -/
theorem append_eq_zero :
    ∀ address : BitVec 6, (0#2 ++ address = 0#8) ↔ address = 0 := by
  decide

/--
When the first sample is pushed behind a clear, the memory shows the sample
at the address that its read side stands at.
-/
theorem CxRam.shows_first
    (s : CxRam) (mode420 : Bool) (i : RamInput) (data : BitVec 32)
    (address : BitVec 6) :
    let cleared : CxRam :=
      { s.edge true false mode420 i with cxRdPtrQ := address }
    let shown := (run (MarkedCx.step true) (.start cleared)
      [.pushed 0 data, .quiet]).shown
    shown.validO = true ∧ shown.marked = (address == 0) ∧
      shown.dataOutO =
        if address = 0 then data else cleared.ram (0#2 ++ address) := by
  simp [MarkedCx.shown, MarkedCx.step, Marked.start, CxRam.edge,
    CxRam.dataOutO, CxRam.validO, CxRam.readOk, CxRam.reads, CxRam.rdAddr,
    CxRam.wrAddr, CxRam.countR, RamInput.pushed, RamInput.quiet,
    append_eq_zero]

/-- Behind a flush the next image is read from where the old one stood. -/
theorem CxRam.readsFirst_of_flushResets
    {s : CxRam} {mode420 : Bool} {i : RamInput}
    (resets : s.FlushResets mode420 i) :
    s.ReadsFirst i := by
  by_contra stands
  unfold CxRam.ReadsFirst at stands
  obtain ⟨address, isAddress⟩ : ∃ address : BitVec 6,
      address = if s.reads i then s.cxRdPtrR else s.cxRdPtrQ := ⟨_, rfl⟩
  rw [← isAddress] at stands
  -- the first sample of the next image differs from the one shown instead
  let old : BitVec 32 := (s.edge true false mode420 i).ram (0#2 ++ address)
  obtain ⟨valid, -, oldShown⟩ :=
    s.shows_first mode420 i (old + 1) address
  obtain ⟨-, marked, newShown⟩ := s.shows_first mode420 i (old + 1) 0
  have agrees := resets true [.pushed 0 (old + 1), .quiet]
  rw [s.edge_flush mode420 i, ← isAddress] at agrees
  have same := (agrees.2.2 valid (.inr marked)).symm.trans oldShown
  rw [if_neg stands] at same
  have shown : old + 1 = old := newShown.symm.trans same
  simp at shown

/-- Behind a flush that leaves the read side at the start, all is as reset. -/
theorem CxRam.flushResets_of_readsFirst
    {s : CxRam} {mode420 : Bool} {i : RamInput}
    (first : s.ReadsFirst i) :
    s.FlushResets mode420 i := by
  intro laterMode420 later
  have same : s.edge false true mode420 i = s.edge true false mode420 i := by
    unfold CxRam.ReadsFirst at first
    rw [s.edge_flush, first]
    rfl
  rw [same]
  exact Shown.agrees_self _

end Flush

/--
For every state, a flush of `jpeg_output_y_ram` is a reset, and a flush of
`jpeg_output_cx_ram` is one exactly when it leaves the read side at the first
sample.
-/
theorem flush_resets_iff
    (y : YRam)
    (cx : CxRam)
    (mode420 : Bool)
    (i : RamInput) :
    y.FlushResets i ∧ (cx.FlushResets mode420 i ↔ cx.ReadsFirst i) :=
  ⟨fun _ => Shown.agrees_self _,
    CxRam.readsFirst_of_flushResets, CxRam.flushResets_of_readsFirst⟩

/--
Two samples of an old image are pushed and one is taken: behind the flush
the first sample of the new image is not shown.
-/
theorem flush_shows_old_sample :
    ¬ ∀ (past : List RamInput) (i : RamInput),
      (run (fun s i => s.edge false false true i) CxRam.reset
        past).FlushResets true i := by
  intro claimed
  have agrees := claimed
    [.pushed 0 10, .pushed 1 11, .quiet, { RamInput.quiet with pop := true },
      .quiet] .quiet true [.pushed 0 20, .quiet]
  revert agrees
  decide

end CoreJpeg.JpegOutput
