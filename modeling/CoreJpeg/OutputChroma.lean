import CoreJpeg.Clocked
import CoreJpeg.OutputModel
import CoreJpeg.SoftwarePlacement
import Mathlib.Tactic.IntervalCases

namespace CoreJpeg.JpegOutput

open Clocked

/-!
# The chrominance of an MCU in the order of luma

In 4:2:0 the memory of a chrominance component reads every sample four times,
in the order of the luma samples of its MCU.  The read address runs one sample
ahead of the output and the level counts four for each sample written.  This
module counts the samples written and popped and derives from the two numbers
what every register holds.
-/

/-! ## The order of the reads -/

/-- The chrominance sample of a luma sample of an MCU. -/
def chromaIndex (place : Nat) : Nat :=
  place / 64 / 2 * 32 + place % 64 / 16 * 8 + place / 64 % 2 * 4 +
    place % 8 / 2

/-- The expansion loops of the software read the same samples. -/
theorem chromaIndex_eq_subIdx :
    ∀ block < 4, ∀ i < 64,
      chromaIndex (block * 64 + i) = Software.subIdx block i := by
  intro block inMcu i inBlock
  have quarter : (block * 64 + i) / 64 = block := by omega
  have sample : (block * 64 + i) % 64 = i := by omega
  have column : (block * 64 + i) % 8 = i % 8 := by omega
  rw [chromaIndex, quarter, sample, column]
  interval_cases block <;> simp [Software.subIdx]

/-- The table holds the sample behind the one that is addressed. -/
theorem cxRdPtrTable_eq :
    ∀ place < 256,
      cxRdPtrTable.getD place 0 = chromaIndex ((place + 1) % 256) := by
  decide +kernel

/-! ## The memory with its history -/

/--
The samples that are pushed: the index of each push, and the samples of each
block.
-/
structure ChromaBlocks where
  order : Nat → BitVec 6
  sample : Nat → BitVec 6 → BitVec 32
  first : ∀ block, order (64 * block) = 0
  once :
    ∀ block index, ∃ place, (place < 64 ∧ order (64 * block + place) = index) ∧
      ∀ other, other < 64 → order (64 * block + other) = index → other = place

namespace ChromaBlocks

variable (blocks : ChromaBlocks)

/-- The data of a push. -/
def pushed (push : Nat) : BitVec 32 :=
  blocks.sample (push / 64) (blocks.order push)

/-- The sample of a pop: that of the expanded block. -/
def expanded (pop : Nat) : BitVec 32 :=
  blocks.sample (pop / 256) (BitVec.ofNat 6 (chromaIndex (pop % 256)))

end ChromaBlocks

/-- A chrominance memory with the samples pushed and popped. -/
structure ChromaFed where
  ram : CxRam
  pushed : Nat
  popped : Nat

namespace ChromaFed

/-- The memory after reset. -/
def start : ChromaFed := ⟨.reset, 0, 0⟩

/-- One clock edge in 4:2:0. -/
def step (f : ChromaFed) (i : RamInput) : ChromaFed where
  ram := f.ram.step false true i
  pushed := f.pushed + i.push.toNat
  popped := f.popped + i.pop.toNat

/--
The pins of a cycle: pushes follow the blocks, of which at most four are
outstanding, and a run of 256 pops begins at a level of 256.
-/
structure Feeds (blocks : ChromaBlocks) (f : ChromaFed) (i : RamInput) :
    Prop where
  running : i.clear = false
  index : i.push = true → i.wrIdx = blocks.order f.pushed
  data : i.push = true → i.dataIn = blocks.pushed f.pushed
  outstanding :
    (f.step i).pushed ≤ 64 * ((f.step i).popped / 256 + 4)
  begins : i.pop = true → f.popped % 256 = 0 → 256 ≤ f.ram.countQ.toNat

instance (blocks : ChromaBlocks) (f : ChromaFed) (i : RamInput) :
    Decidable (Feeds blocks f i) :=
  decidable_of_iff
    (i.clear = false ∧ (i.push = true → i.wrIdx = blocks.order f.pushed) ∧
      (i.push = true → i.dataIn = blocks.pushed f.pushed) ∧
      (f.step i).pushed ≤ 64 * ((f.step i).popped / 256 + 4) ∧
      (i.pop = true → f.popped % 256 = 0 → 256 ≤ f.ram.countQ.toNat))
    ⟨fun ⟨running, index, data, outstanding, begins⟩ =>
      ⟨running, index, data, outstanding, begins⟩,
      fun ⟨running, index, data, outstanding, begins⟩ =>
      ⟨running, index, data, outstanding, begins⟩⟩

/-- The sample popped in a cycle. -/
def poppedSample (f : ChromaFed) (i : RamInput) : List (BitVec 32) :=
  if i.pop then [f.ram.dataOutO] else []

end ChromaFed

/-! ## The invariant -/

/-- The samples that were taken from the memory for the output. -/
def ChromaFed.fetched (f : ChromaFed) : Nat := f.popped + f.ram.validO.toNat

/-- What the registers hold when some samples were pushed and popped. -/
structure Expanding (blocks : ChromaBlocks) (f : ChromaFed) : Prop where
  level : f.ram.countQ.toNat + f.popped = 4 * f.pushed
  small : f.pushed ≤ 64 * (f.popped / 256 + 4)
  group : f.popped % 256 ≠ 0 → 64 * (f.popped / 256 + 1) ≤ f.pushed
  late :
    f.ram.validO = false → f.popped % 256 = 0 ∧ f.ram.countQ.toNat < 8
  shown :
    f.ram.validO = true → f.ram.dataOutO = blocks.expanded f.popped
  write : f.ram.wrPtrQ = BitVec.ofNat 8 f.pushed
  index : f.ram.cxIdxQ = BitVec.ofNat 8 f.fetched
  half : f.ram.cxHalfQ = BitVec.ofNat 2 (f.fetched / 256)
  address :
    f.ram.cxRdPtrQ = BitVec.ofNat 6 (chromaIndex (f.fetched % 256))
  stored :
    ∀ push < f.pushed, f.pushed ≤ 64 * (push / 64 + 4) →
      f.ram.ram (BitVec.ofNat 2 (push / 64) ++ blocks.order push) =
        blocks.pushed push

section Cycle

variable {blocks : ChromaBlocks} {f : ChromaFed} {i : RamInput}

theorem expanding_start (blocks : ChromaBlocks) :
    Expanding blocks ChromaFed.start where
  level := rfl
  small := Nat.zero_le _
  group := by simp [ChromaFed.start]
  late := fun _ => ⟨rfl, by decide⟩
  shown := by simp [ChromaFed.start, CxRam.validO, CxRam.reset]
  write := rfl
  index := rfl
  half := rfl
  address := rfl
  stored := by simp [ChromaFed.start]

/-- Every pop finds a sample. -/
theorem Expanding.valid_of_pop
    (known : Expanding blocks f)
    (pins : ChromaFed.Feeds blocks f i)
    (pop : i.pop = true) :
    f.ram.validO = true := by
  cases valid : f.ram.validO with
  | true =>
      rfl
  | false =>
      obtain ⟨whole, few⟩ := known.late valid
      have enough := pins.begins pop whole
      omega

/-- A run of pops does not outrun the samples of its block. -/
theorem Expanding.group_next
    (known : Expanding blocks f)
    (pins : ChromaFed.Feeds blocks f i)
    (inside : (f.step i).popped % 256 ≠ 0) :
    64 * ((f.step i).popped / 256 + 1) ≤ f.pushed := by
  have level := known.level
  cases pop : i.pop with
  | false =>
      have same : (f.step i).popped = f.popped := by
        simp [ChromaFed.step, pop]
      rw [same] at inside ⊢
      exact known.group inside
  | true =>
      have next : (f.step i).popped = f.popped + 1 := by
        simp [ChromaFed.step, pop]
      rw [next] at inside ⊢
      by_cases whole : f.popped % 256 = 0
      · have enough := pins.begins pop whole
        omega
      · have goesOn := known.group whole
        omega

/-- A popped sample is counted. -/
theorem Expanding.level_pos
    (known : Expanding blocks f)
    (pins : ChromaFed.Feeds blocks f i)
    (pop : i.pop = true) :
    0 < f.ram.countQ.toNat := by
  have level := known.level
  by_cases whole : f.popped % 256 = 0
  · have enough := pins.begins pop whole
    omega
  · have goesOn := known.group whole
    omega

/-- The sample that is addressed was written and is not overwritten. -/
theorem Expanding.addressed
    (known : Expanding blocks f)
    (pins : ChromaFed.Feeds blocks f i)
    (reads : f.ram.reads i = true) :
    f.ram.ram (f.ram.rdAddr true) = blocks.expanded f.fetched := by
  have level := known.level
  have small := known.small
  have fetched : f.fetched = f.popped + f.ram.validO.toNat := rfl
  simp only [CxRam.reads, CxRam.readOk, Bool.and_eq_true, decide_eq_true_eq,
    BitVec.lt_def] at reads
  obtain ⟨readOk, advances⟩ := reads
  change 1 < f.ram.countQ.toNat at readOk
  obtain ⟨place, inBlock, isIndex, written⟩ :
      ∃ place < 64,
        blocks.order (64 * (f.fetched / 256) + place) =
            BitVec.ofNat 6 (chromaIndex (f.fetched % 256)) ∧
          64 * (f.fetched / 256) + place < f.pushed := by
    by_cases first : f.fetched % 256 = 0
    · refine ⟨0, by decide, ?_, ?_⟩
      · rw [first]
        exact blocks.first (f.fetched / 256)
      · have few := Bool.toNat_le f.ram.validO
        omega
    · obtain ⟨place, ⟨inBlock, isIndex⟩, -⟩ :=
        blocks.once (f.fetched / 256)
          (BitVec.ofNat 6 (chromaIndex (f.fetched % 256)))
      refine ⟨place, inBlock, isIndex, ?_⟩
      cases valid : f.ram.validO with
      | false =>
          have whole := (known.late valid).1
          rw [valid, Bool.toNat_false] at fetched
          omega
      | true =>
          have pop : i.pop = true := by
            simpa [valid] using advances
          have next : (f.step i).popped = f.fetched := by
            simp [ChromaFed.step, pop, fetched, valid]
          have group := known.group_next pins (by rw [next]; exact first)
          rw [next] at group
          omega
  have block : (64 * (f.fetched / 256) + place) / 64 = f.fetched / 256 := by
    omega
  have stored := known.stored _ written (by omega)
  rw [block, isIndex] at stored
  rw [CxRam.rdAddr, if_pos rfl, known.half, known.address, stored,
    ChromaBlocks.pushed, block, isIndex]
  rfl

/-- The level counts four for a push and one for a pop. -/
theorem Expanding.level_step
    (known : Expanding blocks f)
    (pins : ChromaFed.Feeds blocks f i) :
    (f.step i).ram.countQ.toNat + (f.step i).popped =
      4 * (f.step i).pushed := by
  have level := known.level
  have small := known.small
  have bound := f.ram.countQ.isLt
  have one : (1 : BitVec 32).toNat = 1 := rfl
  have four : (4 : BitVec 32).toNat = 4 := rfl
  have count : (f.step i).ram.countQ = f.ram.countR true i := by
    simp [ChromaFed.step, CxRam.step, pins.running]
  rw [count, CxRam.countR]
  cases pop : i.pop with
  | false =>
      cases push : i.push
      · simp [ChromaFed.step, pop, push, level]
      · simp [ChromaFed.step, pop, push, BitVec.toNat_add]
        omega
  | true =>
      have valid := known.valid_of_pop pins pop
      have positive := known.level_pos pins pop
      have fewer : (f.ram.countQ - 1).toNat = f.ram.countQ.toNat - 1 :=
        BitVec.toNat_sub_of_le (by rw [BitVec.le_def, one]; omega)
      cases push : i.push
      · simp [ChromaFed.step, pop, push, valid]
        omega
      · simp [ChromaFed.step, pop, push, valid, BitVec.toNat_add]
        omega

/-- Whether a sample is shown after a cycle. -/
theorem validO_chroma
    (running : i.clear = false) :
    (f.step i).ram.validO = (f.ram.validO && !i.pop || f.ram.readOk) := by
  simp [ChromaFed.step, CxRam.step, CxRam.validO, running]

/-- The number of samples taken for the output moves with the read pointer. -/
theorem Expanding.fetched_step
    (known : Expanding blocks f)
    (pins : ChromaFed.Feeds blocks f i) :
    (f.step i).fetched = f.fetched + (f.ram.reads i).toNat := by
  have popped : (f.step i).popped = f.popped + i.pop.toNat := rfl
  have pops := known.valid_of_pop pins
  rw [ChromaFed.fetched, ChromaFed.fetched, validO_chroma pins.running,
    popped, CxRam.reads]
  cases valid : f.ram.validO with
  | false =>
      have kept : i.pop = false := by
        cases pop : i.pop with
        | false => rfl
        | true => rw [pops pop] at valid; contradiction
      simp [kept]
  | true =>
      cases i.pop <;> cases f.ram.readOk <;> simp

/-- The block of a push in the memory. -/
theorem extractLsb'_block (push : Nat) :
    (BitVec.ofNat 8 push).extractLsb' 6 2 = BitVec.ofNat 2 (push / 64) := by
  apply BitVec.eq_of_toNat_eq
  simp [Nat.shiftRight_eq_div_pow]
  omega

/-- Each push has a place of its own while its block is outstanding. -/
theorem ChromaBlocks.place_injective
    (blocks : ChromaBlocks)
    {push later : Nat}
    (before : push < later)
    (outstanding : later < 64 * (push / 64 + 4)) :
    (BitVec.ofNat 2 (push / 64) ++ blocks.order push : BitVec 8) ≠
      BitVec.ofNat 2 (later / 64) ++ blocks.order later := by
  intro same
  have number := congrArg BitVec.toNat same
  have orderSmall := (blocks.order push).isLt
  have laterSmall := (blocks.order later).isLt
  rw [BitVec.toNat_append, BitVec.toNat_append,
    ← Nat.shiftLeft_add_eq_or_of_lt orderSmall,
    ← Nat.shiftLeft_add_eq_or_of_lt laterSmall, Nat.shiftLeft_eq,
    Nat.shiftLeft_eq, BitVec.toNat_ofNat, BitVec.toNat_ofNat] at number
  have sameBlock : later / 64 = push / 64 := by omega
  obtain ⟨place, -, only⟩ :=
    blocks.once (push / 64) (blocks.order push)
  have first := only (push % 64) (Nat.mod_lt push (by decide))
    (by rw [Nat.div_add_mod])
  have second := only (later % 64) (Nat.mod_lt later (by decide))
    (by
      rw [← sameBlock, Nat.div_add_mod]
      exact BitVec.eq_of_toNat_eq (by omega))
  omega

/-- What is shown after a cycle. -/
theorem Expanding.shown_step
    (known : Expanding blocks f)
    (pins : ChromaFed.Feeds blocks f i)
    (valid : (f.step i).ram.validO = true) :
    (f.step i).ram.dataOutO = blocks.expanded (f.step i).popped := by
  have popped : (f.step i).popped = f.popped + i.pop.toNat := rfl
  have data : (f.step i).ram.dataOutO =
      if f.ram.validO && !i.pop then f.ram.dataOutO
      else f.ram.ram (f.ram.rdAddr true) := by
    simp only [ChromaFed.step, CxRam.step, CxRam.dataOutO, pins.running,
      Bool.not_false, Bool.true_and]
    split <;> simp_all
  rw [validO_chroma pins.running] at valid
  rw [data, popped]
  cases held : f.ram.validO && !i.pop with
  | true =>
      simp only [Bool.and_eq_true, Bool.not_eq_true'] at held
      rw [if_pos rfl, held.2, known.shown held.1]
      rfl
  | false =>
      rw [held, Bool.false_or] at valid
      have advances : (!f.ram.validO || (f.ram.validO && i.pop)) = true := by
        cases shown : f.ram.validO <;> simp_all
      have reads : f.ram.reads i = true := by
        rw [CxRam.reads, valid, advances]
        rfl
      have same : f.popped + i.pop.toNat = f.fetched := by
        rw [ChromaFed.fetched]
        cases pop : i.pop with
        | true =>
            rw [known.valid_of_pop pins pop]
        | false =>
            simp [pop] at held
            rw [held]
      rw [if_neg Bool.false_ne_true, known.addressed pins reads, same]

/-- What is stored after a cycle. -/
theorem Expanding.stored_step
    (known : Expanding blocks f)
    (pins : ChromaFed.Feeds blocks f i)
    {push : Nat}
    (before : push < (f.step i).pushed)
    (outstanding : (f.step i).pushed ≤ 64 * (push / 64 + 4)) :
    (f.step i).ram.ram (BitVec.ofNat 2 (push / 64) ++ blocks.order push) =
      blocks.pushed push := by
  have written : (f.step i).ram.ram = fun address =>
      if i.push && address == f.ram.wrAddr i then i.dataIn
      else f.ram.ram address := rfl
  have number : (f.step i).pushed = f.pushed + i.push.toNat := rfl
  rw [written]
  cases pushes : i.push with
  | false =>
      rw [number, pushes, Bool.toNat_false] at before outstanding
      simpa using known.stored push before outstanding
  | true =>
      rw [number, pushes, Bool.toNat_true] at before outstanding
      have address : f.ram.wrAddr i =
          BitVec.ofNat 2 (f.pushed / 64) ++ blocks.order f.pushed := by
        rw [CxRam.wrAddr, known.write, extractLsb'_block, pins.index pushes]
      rw [address]
      rcases Nat.lt_succ_iff_lt_or_eq.mp before with earlier | now
      · have other := blocks.place_injective earlier (by omega)
        simpa [other] using known.stored push earlier (by omega)
      · subst now
        simpa using pins.data pushes

/-- One cycle of the memory. -/
theorem Expanding.step
    (known : Expanding blocks f)
    (pins : ChromaFed.Feeds blocks f i) :
    Expanding blocks (f.step i) := by
  have level := known.level
  have fetched := known.fetched_step pins
  have levelAfter := known.level_step pins
  have pushed : (f.step i).pushed = f.pushed + i.push.toNat := rfl
  have popped : (f.step i).popped = f.popped + i.pop.toNat := rfl
  have indexNat : f.ram.cxIdxQ.toNat = f.fetched % 256 := by
    rw [known.index, BitVec.toNat_ofNat]
  refine ⟨levelAfter, pins.outstanding, ?_, ?_, known.shown_step pins, ?_, ?_,
    ?_, ?_, fun push => known.stored_step pins⟩
  · intro inside
    have group := known.group_next pins inside
    omega
  · intro invalid
    rw [validO_chroma pins.running, Bool.or_eq_false_iff] at invalid
    have few : f.ram.countQ.toNat ≤ 1 := by
      have none := invalid.2
      simp only [CxRam.readOk, decide_eq_false_iff_not, BitVec.lt_def] at none
      exact Nat.le_of_not_lt none
    have atMost := Bool.toNat_le i.push
    refine ⟨?_, by omega⟩
    cases pop : i.pop with
    | false =>
        have nothing : f.ram.validO = false := by
          simpa [pop] using invalid.1
        rw [popped, pop]
        exact (known.late nothing).1
    | true =>
        by_contra inside
        have group := known.group_next pins inside
        rw [popped, pop, Bool.toNat_true] at group
        omega
  · have write : (f.step i).ram.wrPtrQ =
        f.ram.wrPtrQ + BitVec.ofNat 8 i.push.toNat := by
      cases push : i.push <;>
        simp [ChromaFed.step, CxRam.step, pins.running, push]
    rw [write, known.write, pushed, BitVec.ofNat_add]
  · have index : (f.step i).ram.cxIdxQ =
        f.ram.cxIdxQ + BitVec.ofNat 8 (f.ram.reads i).toNat := by
      cases reads : f.ram.reads i <;>
        simp [ChromaFed.step, CxRam.step, pins.running, reads]
    rw [index, known.index, fetched, BitVec.ofNat_add]
  · have half : (f.step i).ram.cxHalfQ =
        if f.ram.reads i && f.ram.cxIdxQ == 255 then f.ram.cxHalfQ + 1
        else f.ram.cxHalfQ := by
      simp [ChromaFed.step, CxRam.step, pins.running]
    have last : (f.ram.cxIdxQ == 255) = decide (f.fetched % 256 = 255) := by
      rw [Bool.eq_iff_iff, beq_iff_eq, decide_eq_true_eq, ← indexNat,
        ← BitVec.toNat_inj]
      rfl
    rw [half, last, known.half, fetched]
    cases f.ram.reads i with
    | false =>
        rfl
    | true =>
        by_cases ends : f.fetched % 256 = 255
        · have next : (f.fetched + 1) / 256 = f.fetched / 256 + 1 := by omega
          simp [ends, next, BitVec.ofNat_add]
        · have next : (f.fetched + 1) / 256 = f.fetched / 256 := by omega
          simp [ends, next]
  · have address : (f.step i).ram.cxRdPtrQ =
        if f.ram.reads i then f.ram.cxRdPtrR else f.ram.cxRdPtrQ := by
      simp [ChromaFed.step, CxRam.step]
    rw [address, fetched]
    cases f.ram.reads i with
    | false =>
        exact known.address
    | true =>
        have inTable := Nat.mod_lt f.fetched (by decide : 0 < 256)
        rw [if_pos rfl, CxRam.cxRdPtrR, indexNat,
          cxRdPtrTable_eq _ inTable, Nat.mod_add_mod]
        rfl

end Cycle

/-! ## Runs -/

theorem run_expanding
    {blocks : ChromaBlocks}
    {inputs : List RamInput}
    (feeds :
      Along ChromaFed.step (ChromaFed.Feeds blocks) ChromaFed.start inputs) :
    Expanding blocks (run ChromaFed.step ChromaFed.start inputs) :=
  run_invariant (fun _ _ known pins => Expanding.step known pins)
    (expanding_start blocks) feeds

/-- The samples popped in a run are the first ones of the expanded blocks. -/
theorem observe_expanded
    {blocks : ChromaBlocks}
    {inputs : List RamInput}
    (feeds :
      Along ChromaFed.step (ChromaFed.Feeds blocks) ChromaFed.start inputs) :
    observe ChromaFed.step ChromaFed.poppedSample ChromaFed.start inputs =
      (List.range (run ChromaFed.step ChromaFed.start inputs).popped).map
        blocks.expanded := by
  induction inputs using List.reverseRecOn with
  | nil =>
      rfl
  | append_singleton past i inductionHypothesis =>
      rw [along_append, along_cons] at feeds
      have known := run_expanding feeds.1
      have pins := feeds.2.1
      have popped :
          (run ChromaFed.step ChromaFed.start (past ++ [i])).popped =
            (run ChromaFed.step ChromaFed.start past).popped +
              i.pop.toNat := by
        rw [run_append]
        rfl
      rw [observe_append, inductionHypothesis feeds.1, observe_cons,
        observe_nil, List.append_nil, ChromaFed.poppedSample, popped]
      cases pop : i.pop with
      | false =>
          simp
      | true =>
          have shown := known.shown (known.valid_of_pop pins pop)
          simp [List.range_succ, shown]

/--
Every pop finds a sample, and the samples popped are those of the blocks in
the order of the software's expansion.
-/
theorem chroma_expanded
    {blocks : ChromaBlocks}
    {inputs : List RamInput}
    (feeds :
      Along ChromaFed.step (ChromaFed.Feeds blocks) ChromaFed.start inputs) :
    Along ChromaFed.step
        (fun f i => i.pop = true → f.ram.validO = true)
        ChromaFed.start inputs ∧
      observe ChromaFed.step ChromaFed.poppedSample ChromaFed.start inputs =
        (List.range (run ChromaFed.step ChromaFed.start inputs).popped).map
          (fun n =>
            let q := n % 256 / 64
            let i := n % 64
            blocks.sample (n / 256)
              (BitVec.ofNat 6
                (q / 2 * 32 + i / 16 * 8 + q % 2 * 4 + i % 8 / 2))) ∧
      ∀ q < 4, ∀ i < 64,
        Software.subIdx q i =
          q / 2 * 32 + i / 16 * 8 + q % 2 * 4 + i % 8 / 2 := by
  refine ⟨?_, ?_, ?_⟩
  · apply along_invariant _ _ (expanding_start blocks) feeds
    · intro f i known pins
      exact known.step pins
    · intro f i known pins
      exact known.valid_of_pop pins
  · rw [observe_expanded feeds]
    apply List.map_congr_left
    intro n _
    have place : n % 256 % 64 = n % 64 := by omega
    have column : n % 256 % 8 = n % 64 % 8 := by omega
    have index : chromaIndex (n % 256) =
        n % 256 / 64 / 2 * 32 + n % 64 / 16 * 8 + n % 256 / 64 % 2 * 4 +
          n % 64 % 8 / 2 := by
      rw [chromaIndex, place, column]
    rw [ChromaBlocks.expanded, index]
  · intro q inMcu i inBlock
    have quarter : (q * 64 + i) / 64 = q := by omega
    have sample : (q * 64 + i) % 64 = i := by omega
    have column : (q * 64 + i) % 8 = i % 8 := by omega
    rw [← chromaIndex_eq_subIdx q inMcu i inBlock, chromaIndex, quarter,
      sample, column]

/-- Blocks pushed in the order of their indices, which are the samples. -/
def ascending : ChromaBlocks where
  order := BitVec.ofNat 6
  sample := fun _ index => index.setWidth 32
  first := by
    intro block
    apply BitVec.eq_of_toNat_eq
    simp
  once := by
    intro block index
    have small := index.isLt
    refine ⟨index.toNat, ⟨small, ?_⟩, ?_⟩
    · apply BitVec.eq_of_toNat_eq
      rw [BitVec.toNat_ofNat]
      omega
    · intro other inBlock same
      rw [← same, BitVec.toNat_ofNat]
      omega

/-- A block is pushed, then two samples are popped with a stall between. -/
def blockAndPops : List RamInput :=
  (List.range 64).map (fun push =>
      ⟨false, true, BitVec.ofNat 6 push, BitVec.ofNat 32 push, false⟩) ++
    [⟨false, false, 0, 0, true⟩, ⟨false, false, 0, 0, false⟩,
      ⟨false, false, 0, 0, true⟩]

theorem chroma_expanded_block :
    Along ChromaFed.step (fun f i => i.pop = true → f.ram.validO = true)
      ChromaFed.start blockAndPops :=
  (chroma_expanded
    (by decide +kernel :
      Along ChromaFed.step (ChromaFed.Feeds ascending) ChromaFed.start
        blockAndPops)).1

end CoreJpeg.JpegOutput
