import CoreJpeg.Clocked
import CoreJpeg.IdctPassModel
import CoreJpeg.OutputModel

namespace CoreJpeg.JpegOutput

/-!
# Blocks that are read row by row

Outside of 4:2:0 the sample memories of all components work alike.  A block is
written column by column, as the inverse transform shows it, at the addresses
that the write pointer and the index of the sample give; the read pointer goes
through the rows.  As long as no block is written over one that is still to be
read, the samples leave in the order of the rows.
-/

/-! ## What the memories have in common -/

/-- The registers of a memory of `2 ^ slots` blocks that take part in this. -/
structure BlockRam (slots : Nat) where
  rdPtrQ : BitVec (slots + 6)
  wrPtrQ : BitVec (slots + 6)
  rdQ : Bool
  rdSkidQ : Bool
  rdSkidDataQ : BitVec 32
  ram : BitVec (slots + 6) → BitVec 32
  ramRead1Q : BitVec 32
  countQ : BitVec 32

namespace BlockRam

variable {slots : Nat} (s : BlockRam slots) (readOk : Bool) (i : RamInput)

/-- `valid_o`. -/
def validO : Bool := s.rdSkidQ || s.rdQ

/-- `data_out_o`. -/
def dataOutO : BitVec 32 := if s.rdSkidQ then s.rdSkidDataQ else s.ramRead1Q

/-- The read side goes on to the next address. -/
def reads : Bool := readOk && (!s.validO || (s.validO && i.pop))

/-- The address written. -/
def wrAddr : BitVec (slots + 6) := s.wrPtrQ.extractLsb' 6 slots ++ i.wrIdx

/-- The registers after a clock edge without `flush_i`. -/
def step : BlockRam slots where
  rdPtrQ := if s.reads readOk i then s.rdPtrQ + 1 else s.rdPtrQ
  wrPtrQ := if i.push then s.wrPtrQ + 1 else s.wrPtrQ
  rdQ := readOk
  rdSkidQ := s.validO && !i.pop
  rdSkidDataQ := if s.validO && !i.pop then s.dataOutO else 0
  ram := fun address =>
    if i.push && address == s.wrAddr i then i.dataIn else s.ram address
  ramRead1Q := s.ram s.rdPtrQ
  countQ :=
    s.countQ - (if i.pop && s.validO then 1 else 0) + (if i.push then 1 else 0)

end BlockRam

/-- The luma memory has room for eight blocks. -/
def YRam.blocks (s : YRam) : BlockRam 3 where
  rdPtrQ := s.rdPtrQ
  wrPtrQ := s.wrPtrQ
  rdQ := s.rdQ
  rdSkidQ := s.rdSkidQ
  rdSkidDataQ := s.rdSkidDataQ
  ram := s.ram
  ramRead1Q := s.ramRead1Q
  countQ := s.countQ

/-- A chrominance memory has room for four. -/
def CxRam.blocks (s : CxRam) : BlockRam 2 where
  rdPtrQ := s.rdPtrQ
  wrPtrQ := s.wrPtrQ
  rdQ := s.rdQ
  rdSkidQ := s.rdSkidQ
  rdSkidDataQ := s.rdSkidDataQ
  ram := s.ram
  ramRead1Q := s.ramRead1Q
  countQ := s.countQ

theorem YRam.blocks_step
    (s : YRam) {i : RamInput}
    (running : i.clear = false) :
    (s.step i).blocks = s.blocks.step s.readOk i := by
  simp only [YRam.step, running]
  rfl

theorem CxRam.blocks_step
    (s : CxRam) {i : RamInput}
    (running : i.clear = false) :
    (s.step false false i).blocks = s.blocks.step s.readOk i := by
  simp only [CxRam.step, running]
  rfl

/-! ## The memory with its history -/

/-- A memory with the samples pushed and popped. -/
structure BlockFed (slots : Nat) where
  ram : BlockRam slots
  pushed : Nat
  popped : Nat

/-- The index of a sample of a block in the order of the inverse transform. -/
def orderIdx (m : Nat) : BitVec 6 := JpegIdct.ptrConv (BitVec.ofNat 6 m)

/-- The rows and columns change places. -/
theorem orderIdx_orderIdx :
    ∀ m < 64, orderIdx (orderIdx m).toNat = BitVec.ofNat 6 m := by
  decide +kernel

theorem orderIdx_injective :
    ∀ m < 64, ∀ other < 64, orderIdx m = orderIdx other → m = other := by
  decide +kernel

namespace BlockFed

variable {slots : Nat}

/-- One clock edge. -/
def step (f : BlockFed slots) (readOk : Bool) (i : RamInput) :
    BlockFed slots where
  ram := f.ram.step readOk i
  pushed := f.pushed + i.push.toNat
  popped := f.popped + i.pop.toNat

/-- The samples that were taken from the memory for the output. -/
def fetched (f : BlockFed slots) : Nat := f.popped + f.ram.validO.toNat

/--
The pins of a cycle: blocks are pushed into free slots, and the pops of a block
begin when it is stored.
-/
structure Feeds (blocks : Nat → BitVec 6 → BitVec 32) (f : BlockFed slots)
    (i : RamInput) : Prop where
  index : i.push = true → i.wrIdx = orderIdx (f.pushed % 64)
  data : i.push = true → i.dataIn = blocks (f.pushed / 64) i.wrIdx
  free : i.push = true → f.pushed / 64 < f.popped / 64 + 2 ^ slots
  begins : i.pop = true → 64 * (f.popped / 64 + 1) ≤ f.pushed

/-- What the registers hold when some samples were pushed and popped. -/
structure Holding (blocks : Nat → BitVec 6 → BitVec 32) (f : BlockFed slots) :
    Prop where
  level : f.ram.countQ.toNat + f.popped = f.pushed
  small : f.pushed ≤ 64 * (f.popped / 64 + 2 ^ slots)
  late :
    f.ram.validO = false → f.popped % 64 = 0 ∧ f.ram.countQ.toNat ≤ 2
  inside : f.fetched ≤ f.pushed
  shown :
    f.ram.validO = true →
      f.ram.dataOutO = blocks (f.popped / 64) (BitVec.ofNat 6 (f.popped % 64))
  write : f.ram.wrPtrQ = BitVec.ofNat (slots + 6) f.pushed
  read : f.ram.rdPtrQ = BitVec.ofNat (slots + 6) f.fetched
  stored :
    ∀ push < f.pushed, f.pushed ≤ 64 * (push / 64 + 2 ^ slots) →
      f.ram.ram (BitVec.ofNat slots (push / 64) ++ orderIdx (push % 64)) =
        blocks (push / 64) (orderIdx (push % 64))

/--
`read_ok_w`: only what was pushed and not yet taken is read, and two samples
are enough.
-/
structure ReadOk (f : BlockFed slots) (readOk : Bool) : Prop where
  sound : readOk = true → f.fetched < f.pushed
  enough : f.popped + 2 ≤ f.pushed → readOk = true

end BlockFed

section Cycle

open BlockFed

variable {slots : Nat} {blocks : Nat → BitVec 6 → BitVec 32}
variable {f : BlockFed slots} {i : RamInput} {readOk : Bool}

/-- The registers of an empty memory. -/
theorem holding_empty
    {ram : BlockRam slots}
    (nothing : ram.validO = false)
    (empty : ram.countQ = 0)
    (rdPtr : ram.rdPtrQ = 0)
    (wrPtr : ram.wrPtrQ = 0) :
    Holding blocks ⟨ram, 0, 0⟩ where
  level := by simp [empty]
  small := Nat.zero_le _
  late := fun _ => by simp [empty]
  inside := by simp [fetched, nothing]
  shown := by simp [nothing]
  write := by simp [wrPtr]
  read := by simp [fetched, nothing, rdPtr]
  stored := by simp

/-- Every pop finds a sample. -/
theorem BlockFed.Holding.valid_of_pop
    (known : Holding blocks f)
    (pins : Feeds blocks f i)
    (pop : i.pop = true) :
    f.ram.validO = true := by
  have level := known.level
  cases valid : f.ram.validO with
  | true => rfl
  | false =>
      obtain ⟨whole, few⟩ := known.late valid
      have stored := pins.begins pop
      omega

/-- The level counts the samples pushed and popped. -/
theorem BlockFed.Holding.level_step
    (known : Holding blocks f)
    (few : slots < 16)
    (pins : Feeds blocks f i) :
    (f.step readOk i).ram.countQ.toNat + (f.step readOk i).popped =
      (f.step readOk i).pushed := by
  have level := known.level
  have small := known.small
  have slotsFew : 2 ^ slots ≤ 2 ^ 16 :=
    Nat.pow_le_pow_right (by decide) (Nat.le_of_lt few)
  have one : (1 : BitVec 32).toNat = 1 := rfl
  cases pop : i.pop with
  | false =>
      cases push : i.push
      · simp [step, BlockRam.step, pop, push, level]
      · simp [step, BlockRam.step, pop, push, BitVec.toNat_add]
        omega
  | true =>
      have valid := known.valid_of_pop pins pop
      have stored := pins.begins pop
      have fewer : (f.ram.countQ - 1).toNat = f.ram.countQ.toNat - 1 :=
        BitVec.toNat_sub_of_le (by rw [BitVec.le_def, one]; omega)
      cases push : i.push
      · simp [step, BlockRam.step, pop, push, valid]
        omega
      · simp [step, BlockRam.step, pop, push, valid]
        omega

/-- Whether a sample is shown after a cycle. -/
theorem BlockFed.validO_step (f : BlockFed slots) :
    (f.step readOk i).ram.validO = (f.ram.validO && !i.pop || readOk) := rfl

/-- The number of samples taken for the output moves with the read pointer. -/
theorem BlockFed.Holding.fetched_step
    (known : Holding blocks f)
    (pins : Feeds blocks f i) :
    (f.step readOk i).fetched =
      f.fetched + (f.ram.reads readOk i).toNat := by
  have popped : (f.step readOk i).popped = f.popped + i.pop.toNat := rfl
  have pops := known.valid_of_pop pins
  rw [fetched, fetched, validO_step, popped, BlockRam.reads]
  cases valid : f.ram.validO with
  | false =>
      have kept : i.pop = false := by
        cases pop : i.pop with
        | false => rfl
        | true => rw [pops pop] at valid; contradiction
      simp [kept]
  | true => cases i.pop <;> cases readOk <;> simp

/-- A place is a slot and an index. -/
theorem ofNat_place (place : Nat) :
    BitVec.ofNat (slots + 6) place =
      BitVec.ofNat slots (place / 64) ++ BitVec.ofNat 6 (place % 64) := by
  apply BitVec.eq_of_toNat_eq
  have inBlock : place % 64 % 2 ^ 6 < 2 ^ 6 := Nat.mod_lt _ (by decide)
  have width : (2 : Nat) ^ 6 = 64 := rfl
  rw [BitVec.toNat_append, BitVec.toNat_ofNat, BitVec.toNat_ofNat,
    BitVec.toNat_ofNat, ← Nat.shiftLeft_add_eq_or_of_lt inBlock,
    Nat.shiftLeft_eq, Nat.pow_add, Nat.mul_comm (2 ^ slots) (2 ^ 6),
    Nat.mod_mul, width]
  omega

/-- The slot of a place. -/
theorem extractLsb'_slot (place : Nat) :
    (BitVec.ofNat (slots + 6) place).extractLsb' 6 slots =
      BitVec.ofNat slots (place / 64) := by
  apply BitVec.eq_of_toNat_eq
  rw [BitVec.extractLsb'_toNat, BitVec.toNat_ofNat, BitVec.toNat_ofNat,
    Nat.shiftRight_eq_div_pow, Nat.pow_add, Nat.mul_comm (2 ^ slots) (2 ^ 6),
    Nat.mod_mul_right_div_self, Nat.mod_mod]

/-- Samples have places of their own while their blocks are outstanding. -/
theorem place_injective
    {push later : Nat}
    (before : push < later)
    (outstanding : later < 64 * (push / 64 + 2 ^ slots)) :
    (BitVec.ofNat slots (push / 64) ++ orderIdx (push % 64) :
        BitVec (slots + 6)) ≠
      BitVec.ofNat slots (later / 64) ++ orderIdx (later % 64) := by
  intro same
  have sameSlot := congrArg (BitVec.extractLsb' 6 slots) same
  have sameIdx := congrArg (BitVec.extractLsb' 0 6) same
  rw [BitVec.extractLsb'_append_eq_left, BitVec.extractLsb'_append_eq_left]
    at sameSlot
  rw [BitVec.extractLsb'_append_eq_right, BitVec.extractLsb'_append_eq_right]
    at sameIdx
  have samePlace := orderIdx_injective _ (Nat.mod_lt push (by decide)) _
    (Nat.mod_lt later (by decide)) sameIdx
  have behind : 0 = later / 64 - push / 64 := by
    have offsets :
        BitVec.ofNat slots (push / 64) + BitVec.ofNat slots 0 =
          BitVec.ofNat slots (push / 64) +
            BitVec.ofNat slots (later / 64 - push / 64) := by
      rw [← BitVec.ofNat_add, ← BitVec.ofNat_add, Nat.add_zero, sameSlot]
      congr 1
      omega
    exact RingBuffer.offset_injective (Nat.two_pow_pos slots) (by omega)
      offsets
  omega

/-- The sample that is addressed was written and is not overwritten. -/
theorem BlockFed.Holding.addressed
    (known : Holding blocks f)
    (pins : Feeds blocks f i)
    (ok : ReadOk f readOk)
    (reads : f.ram.reads readOk i = true) :
    f.ram.ram f.ram.rdPtrQ =
      blocks (f.fetched / 64) (BitVec.ofNat 6 (f.fetched % 64)) := by
  have small := known.small
  have fetched : f.fetched = f.popped + f.ram.validO.toNat := rfl
  rw [BlockRam.reads, Bool.and_eq_true] at reads
  obtain ⟨isOk, advances⟩ := reads
  have behind := ok.sound isOk
  have inBlock : (orderIdx (f.fetched % 64)).toNat < 64 :=
    (orderIdx (f.fetched % 64)).isLt
  have written :
      64 * (f.fetched / 64) + (orderIdx (f.fetched % 64)).toNat < f.pushed := by
    by_cases first : f.fetched % 64 = 0
    · have zero : (orderIdx 0).toNat = 0 := by decide
      rw [first, zero]
      omega
    · cases valid : f.ram.validO with
      | false =>
          have whole := (known.late valid).1
          rw [valid, Bool.toNat_false] at fetched
          omega
      | true =>
          have pop : i.pop = true := by simpa [valid] using advances
          have stored := pins.begins pop
          rw [valid, Bool.toNat_true] at fetched
          omega
  have stored := known.stored _ written (by omega)
  have block : (64 * (f.fetched / 64) +
      (orderIdx (f.fetched % 64)).toNat) / 64 = f.fetched / 64 := by
    omega
  have index : (64 * (f.fetched / 64) +
      (orderIdx (f.fetched % 64)).toNat) % 64 =
        (orderIdx (f.fetched % 64)).toNat := by
    omega
  rw [block, index, orderIdx_orderIdx _ (Nat.mod_lt f.fetched (by decide))]
    at stored
  rw [known.read, ofNat_place, stored]

/-- What is shown after a cycle. -/
theorem BlockFed.Holding.shown_step
    (known : Holding blocks f)
    (pins : Feeds blocks f i)
    (ok : ReadOk f readOk)
    (valid : (f.step readOk i).ram.validO = true) :
    (f.step readOk i).ram.dataOutO =
      blocks ((f.step readOk i).popped / 64)
        (BitVec.ofNat 6 ((f.step readOk i).popped % 64)) := by
  have popped : (f.step readOk i).popped = f.popped + i.pop.toNat := rfl
  have data : (f.step readOk i).ram.dataOutO =
      if f.ram.validO && !i.pop then f.ram.dataOutO
      else f.ram.ram f.ram.rdPtrQ := by
    simp only [step, BlockRam.step, BlockRam.dataOutO]
    split <;> simp_all
  rw [validO_step] at valid
  rw [data, popped]
  cases held : f.ram.validO && !i.pop with
  | true =>
      simp only [Bool.and_eq_true, Bool.not_eq_true'] at held
      rw [if_pos rfl, held.2, known.shown held.1]
      rfl
  | false =>
      rw [held, Bool.false_or] at valid
      have advances : (!f.ram.validO || (f.ram.validO && i.pop)) = true := by
        cases shown : f.ram.validO <;> simp_all
      have reads : f.ram.reads readOk i = true := by
        rw [BlockRam.reads, valid, advances]
        rfl
      have same : f.popped + i.pop.toNat = f.fetched := by
        rw [fetched]
        cases pop : i.pop with
        | true => rw [known.valid_of_pop pins pop]
        | false =>
            simp [pop] at held
            rw [held]
      rw [if_neg Bool.false_ne_true, known.addressed pins ok reads, same]

/-- What is stored after a cycle. -/
theorem BlockFed.Holding.stored_step
    (known : Holding blocks f)
    (pins : Feeds blocks f i)
    {push : Nat}
    (before : push < (f.step readOk i).pushed)
    (outstanding :
      (f.step readOk i).pushed ≤ 64 * (push / 64 + 2 ^ slots)) :
    (f.step readOk i).ram.ram
        (BitVec.ofNat slots (push / 64) ++ orderIdx (push % 64)) =
      blocks (push / 64) (orderIdx (push % 64)) := by
  have written : (f.step readOk i).ram.ram = fun address =>
      if i.push && address == f.ram.wrAddr i then i.dataIn
      else f.ram.ram address := rfl
  have number : (f.step readOk i).pushed = f.pushed + i.push.toNat := rfl
  rw [written]
  cases pushes : i.push with
  | false =>
      rw [number, pushes, Bool.toNat_false] at before outstanding
      simpa using known.stored push before outstanding
  | true =>
      rw [number, pushes, Bool.toNat_true] at before outstanding
      have address : f.ram.wrAddr i =
          BitVec.ofNat slots (f.pushed / 64) ++ orderIdx (f.pushed % 64) := by
        rw [BlockRam.wrAddr, known.write, extractLsb'_slot, pins.index pushes]
      rw [address]
      rcases Nat.lt_succ_iff_lt_or_eq.mp before with earlier | now
      · have other := @place_injective slots _ _ earlier (by omega)
        simpa [other] using known.stored push earlier (by omega)
      · subst now
        simpa [pins.index pushes] using pins.data pushes

/-- One cycle of the memory. -/
theorem BlockFed.Holding.step
    (known : Holding blocks f)
    (few : slots < 16)
    (pins : Feeds blocks f i)
    (ok : ReadOk f readOk) :
    Holding blocks (f.step readOk i) := by
  have level := known.level
  have small := known.small
  have inside := known.inside
  have fetched : (f.step readOk i).fetched =
      f.fetched + (f.ram.reads readOk i).toNat :=
    known.fetched_step pins
  have levelAfter : (f.step readOk i).ram.countQ.toNat +
      (f.step readOk i).popped = (f.step readOk i).pushed :=
    known.level_step few pins
  have pushed : (f.step readOk i).pushed = f.pushed + i.push.toNat := rfl
  have popped : (f.step readOk i).popped = f.popped + i.pop.toNat := rfl
  have atMost := Bool.toNat_le i.push
  refine ⟨levelAfter, ?_, ?_, ?_, known.shown_step pins ok, ?_, ?_,
    fun push => known.stored_step pins⟩
  · have grows : f.popped / 64 ≤ (f.step readOk i).popped / 64 :=
      Nat.div_le_div_right (Nat.le_add_right _ _)
    cases push : i.push with
    | false =>
        rw [pushed, push, Bool.toNat_false]
        omega
    | true =>
        have free := pins.free push
        rw [pushed, push, Bool.toNat_true]
        omega
  · intro invalid
    rw [validO_step, Bool.or_eq_false_iff] at invalid
    have few : f.pushed < f.popped + 2 := by
      by_contra many
      have isOk := ok.enough (Nat.le_of_not_lt many)
      rw [invalid.2] at isOk
      cases isOk
    refine ⟨?_, by omega⟩
    cases pop : i.pop with
    | false =>
        have nothing : f.ram.validO = false := by
          simpa [pop] using invalid.1
        rw [popped, pop]
        exact (known.late nothing).1
    | true =>
        have stored := pins.begins pop
        rw [popped, pop, Bool.toNat_true]
        omega
  · rw [fetched, pushed]
    cases reads : f.ram.reads readOk i with
    | false =>
        rw [Bool.toNat_false]
        omega
    | true =>
        rw [BlockRam.reads, Bool.and_eq_true] at reads
        have behind := ok.sound reads.1
        rw [Bool.toNat_true]
        omega
  · have write : (f.step readOk i).ram.wrPtrQ =
        f.ram.wrPtrQ + BitVec.ofNat (slots + 6) i.push.toNat := by
      cases push : i.push <;> simp [BlockFed.step, BlockRam.step, push]
    rw [write, known.write, pushed, BitVec.ofNat_add]
  · have read : (f.step readOk i).ram.rdPtrQ =
        f.ram.rdPtrQ +
          BitVec.ofNat (slots + 6) (f.ram.reads readOk i).toNat := by
      cases reads : f.ram.reads readOk i <;>
        simp [BlockFed.step, BlockRam.step, reads]
    rw [read, known.read, fetched, BitVec.ofNat_add]

end Cycle

/-! ## The two kinds of memories -/

section Memories

open BlockFed

variable {blocks : Nat → BitVec 6 → BitVec 32} {pushed popped : Nat}

/-- The luma memory reads while its pointers differ. -/
theorem YRam.readOk_of_holding
    {s : YRam}
    (known : Holding blocks ⟨s.blocks, pushed, popped⟩) :
    ReadOk ⟨s.blocks, pushed, popped⟩ s.readOk := by
  have inside : fetched ⟨s.blocks, pushed, popped⟩ ≤ pushed := known.inside
  have small : pushed ≤ 64 * (popped / 64 + 2 ^ 3) := known.small
  have counted : fetched ⟨s.blocks, pushed, popped⟩ =
      popped + s.blocks.validO.toNat := rfl
  have level : s.blocks.countQ.toNat + popped = pushed := known.level
  have wr : s.wrPtrQ = BitVec.ofNat 9 pushed := known.write
  have rd : s.rdPtrQ =
      BitVec.ofNat 9 (fetched ⟨s.blocks, pushed, popped⟩) :=
    known.read
  constructor
  · intro isOk
    rw [readOk, bne_iff_ne, wr, rd] at isOk
    exact Nat.lt_of_le_of_ne inside fun same => isOk (by rw [same])
  · intro two
    change popped + 2 ≤ pushed at two
    have near : pushed - fetched ⟨s.blocks, pushed, popped⟩ < 2 ^ 9 := by
      cases valid : s.blocks.validO with
      | false =>
          have few : s.blocks.countQ.toNat ≤ 2 := (known.late valid).2
          omega
      | true =>
          rw [valid, Bool.toNat_true] at counted
          omega
    have atMost := Bool.toNat_le s.blocks.validO
    rw [readOk, bne_iff_ne, wr, rd]
    intro same
    have offsets :
        BitVec.ofNat 9 (fetched ⟨s.blocks, pushed, popped⟩) +
            BitVec.ofNat 9 (pushed - fetched ⟨s.blocks, pushed, popped⟩) =
          BitVec.ofNat 9 (fetched ⟨s.blocks, pushed, popped⟩) +
            BitVec.ofNat 9 0 := by
      rw [← BitVec.ofNat_add, ← BitVec.ofNat_add, Nat.add_sub_cancel' inside,
        Nat.add_zero]
      exact same
    have nothing :=
      RingBuffer.offset_injective near (by decide) offsets
    omega

/-- A chrominance memory reads while more than one sample is counted. -/
theorem CxRam.readOk_of_holding
    {s : CxRam}
    (known : Holding blocks ⟨s.blocks, pushed, popped⟩) :
    ReadOk ⟨s.blocks, pushed, popped⟩ s.readOk := by
  have level : s.countQ.toNat + popped = pushed := known.level
  have atMost := Bool.toNat_le s.blocks.validO
  have isOk : s.readOk = true ↔ 1 < s.countQ.toNat := by
    rw [readOk, decide_eq_true_iff, BitVec.lt_def]
    rfl
  constructor
  · intro ok
    have two := isOk.mp ok
    change popped + s.blocks.validO.toNat < pushed
    omega
  · intro two
    change popped + 2 ≤ pushed at two
    exact isOk.mpr (by omega)

end Memories

end CoreJpeg.JpegOutput
