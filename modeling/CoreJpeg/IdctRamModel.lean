import CoreJpeg.DqtModel

namespace CoreJpeg.JpegIdctRam

/-!
# The coefficient buffer

`jpeg_idct_ram` keeps the coefficients of up to four blocks in four RAMs, one
for every two columns, and hands each block to the inverse transform in 64
cycles.  A coefficient that no sample was written to is marked by a clear valid
bit and read as zero.  This module transcribes its registers, with the RAMs of
`jpeg_idct_ram_dp`.
-/

/-- The states of the reading FSM (`STATE_*` of `jpeg_idct_ram.v`). -/
inductive FsmState where
  | idle
  | setup
  | active
  deriving Repr, DecidableEq

/-- The input pins sampled in one clock cycle. -/
structure Input where
  rst : Bool
  imgStart : Bool
  inportValid : Bool
  inportData : BitVec 16
  inportIdx : BitVec 6
  inportEob : Bool
  outportReady : Bool
  deriving Repr, DecidableEq

/-- One RAM with its read register, and the valid bits that belong to it. -/
structure Lane where
  ram : BitVec 6 → BitVec 16
  ramRead1Q : BitVec 16
  dataValidQ : BitVec 6 → Bool
  dataValQ : Bool

/-- The registers and the RAMs; `u_ram0` to `u_ram3` are the four lanes. -/
structure State where
  lanes : BitVec 2 → Lane
  blockReadyQ : BitVec 2 → Bool
  blockWrQ : BitVec 2
  blockRdQ : BitVec 2
  stateQ : FsmState
  rdIdxQ : BitVec 6
  rdAddrQ : BitVec 4

/-- Register values after `rst_i`; the RAMs and their read registers have none. -/
def reset (ram : BitVec 2 → BitVec 6 → BitVec 16)
    (ramRead1Q : BitVec 2 → BitVec 16) : State where
  lanes lane :=
    { ram := ram lane
      ramRead1Q := ramRead1Q lane
      dataValidQ := fun _ => false
      dataValQ := false }
  blockReadyQ := fun _ => false
  blockWrQ := 0
  blockRdQ := 0
  stateQ := .idle
  rdIdxQ := 0
  rdAddrQ := 0

/-! ## Wires -/

/-- `inport_accept_o`. -/
def inportAccept (s : State) : Bool := !s.blockReadyQ s.blockWrQ

/-- `wr_ptr_w`, the address of an index in a block's lane. -/
def wrPtr (block : BitVec 2) (idx : BitVec 6) : BitVec 6 :=
  block ++ (idx.extractLsb' 3 3 ++ idx.extractLsb' 0 1)

/-- The columns of a lane. -/
def laneHas (lane : BitVec 2) (idx : BitVec 6) : Bool :=
  idx.extractLsb' 0 3 == lane.setWidth 3 * 2 ||
    idx.extractLsb' 0 3 == lane.setWidth 3 * 2 + 1

/-- `wr0_w` to `wr3_w`. -/
def wr (s : State) (i : Input) (lane : BitVec 2) : Bool :=
  i.inportValid && inportAccept s && laneHas lane i.inportIdx

/-- `outport_valid_o`. -/
def outportValid (s : State) : Bool := s.stateQ == .active

/-- `outport_idx_o`. -/
def outportIdx (s : State) : BitVec 3 := s.rdIdxQ.extractLsb' 0 3

/-- `outport_data0_o` to `outport_data3_o`. -/
def outportData (s : State) (lane : BitVec 2) : BitVec 16 :=
  if (s.lanes lane).dataValQ then (s.lanes lane).ramRead1Q else 0

/-- The cycle ends the read-out of a block. -/
def blockDone (s : State) : Bool := outportValid s && s.rdIdxQ == 63

/-- `next_state_r`. -/
def nextStateR (s : State) (i : Input) : FsmState :=
  if i.imgStart then .idle
  else
    match s.stateQ with
    | .idle =>
        if s.blockReadyQ s.blockRdQ && i.outportReady then .setup else .idle
    | .setup => .active
    | .active => if blockDone s then .idle else .active

/-! ## Registers -/

/-- `data_valid0_r` to `data_valid3_r`. -/
def dataValidR (s : State) (i : Input) (lane : BitVec 2)
    (address : BitVec 6) : Bool :=
  if wr s i lane && address == wrPtr s.blockWrQ i.inportIdx then true
  else if blockDone s && address.extractLsb' 4 2 == s.blockRdQ then false
  else (s.lanes lane).dataValidQ address

/-- A RAM, its read register and its valid bits after the clock edge. -/
def laneNext (s : State) (i : Input) (lane : BitVec 2) : Lane where
  ram address :=
    if wr s i lane && address == wrPtr s.blockWrQ i.inportIdx then
      i.inportData
    else (s.lanes lane).ram address
  ramRead1Q := (s.lanes lane).ram (s.blockRdQ ++ s.rdAddrQ)
  dataValidQ address :=
    !i.rst && !i.imgStart && dataValidR s i lane address
  dataValQ :=
    !i.rst && (s.lanes lane).dataValidQ (s.blockRdQ ++ s.rdAddrQ)

/-- `block_ready_q` after the clock edge. -/
def blockReadyNext (s : State) (i : Input) (block : BitVec 2) : Bool :=
  if blockDone s && block == s.blockRdQ then false
  else if i.inportEob && inportAccept s && block == s.blockWrQ then true
  else s.blockReadyQ block

/-- `rd_addr_q` after the clock edge. -/
def rdAddrNext (s : State) : BitVec 4 :=
  match s.stateQ with
  | .idle => 0
  | .setup => 1
  | .active =>
      match (s.rdIdxQ.extractLsb' 0 3).toNat with
      | 0 => s.rdAddrQ - 1
      | 1 => s.rdAddrQ + 1
      | 2 => s.rdAddrQ
      | 3 => s.rdAddrQ - 1
      | 4 => s.rdAddrQ + 1
      | 5 => s.rdAddrQ - 1
      | 6 => s.rdAddrQ + 2
      | _ => s.rdAddrQ + 1

/-- The registers and the RAMs after the clock edge. -/
def step (s : State) (i : Input) : State where
  lanes := laneNext s i
  blockReadyQ block :=
    !i.rst && !i.imgStart && blockReadyNext s i block
  blockWrQ :=
    if i.rst || i.imgStart then 0
    else if i.inportEob && inportAccept s then s.blockWrQ + 1
    else s.blockWrQ
  blockRdQ :=
    if i.rst || i.imgStart then 0
    else if blockDone s then s.blockRdQ + 1
    else s.blockRdQ
  stateQ := if i.rst then .idle else nextStateR s i
  rdIdxQ :=
    if i.rst || i.imgStart then 0
    else if s.stateQ == .active then s.rdIdxQ + 1
    else s.rdIdxQ
  rdAddrQ := if i.rst then 0 else rdAddrNext s

/-! ## Coefficients -/

/-- The lane of an index. -/
def laneOf (idx : BitVec 6) : BitVec 2 := idx.extractLsb' 1 2

/-- The coefficient at an index of a block, if one was written. -/
def stored (s : State) (block : BitVec 2) (idx : BitVec 6) :
    Option (BitVec 16) :=
  if (s.lanes (laneOf idx)).dataValidQ (wrPtr block idx) then
    some ((s.lanes (laneOf idx)).ram (wrPtr block idx))
  else none

/-- An index belongs to the columns of its lane only. -/
theorem laneHas_iff (lane : BitVec 2) (idx : BitVec 6) :
    laneHas lane idx = true ↔ lane = laneOf idx := by
  revert lane idx
  decide +kernel

/-- The block of an address. -/
@[simp] theorem wrPtr_block (block : BitVec 2) (idx : BitVec 6) :
    (wrPtr block idx).extractLsb' 4 2 = block := by
  revert block idx
  decide +kernel

/-- An index is told by its lane and its address. -/
theorem wrPtr_idx (block : BitVec 2) (idx : BitVec 6) :
    (wrPtr block idx).extractLsb' 1 3 ++
        (laneOf idx ++ (wrPtr block idx).extractLsb' 0 1) = idx := by
  revert block idx
  decide +kernel

/-- Blocks and indices of one lane have addresses of their own. -/
theorem wrPtr_inj
    {block other : BitVec 2} {idx index : BitVec 6}
    (lane : laneOf idx = laneOf index) :
    wrPtr block idx = wrPtr other index ↔ block = other ∧ idx = index := by
  constructor
  · intro same
    constructor
    · rw [← wrPtr_block block idx, same, wrPtr_block]
    · rw [← wrPtr_idx block idx, lane, same, wrPtr_idx]
  · rintro ⟨rfl, rfl⟩
    rfl

/-- The sample of a cycle is written to this coefficient. -/
def Writes (s : State) (i : Input) (block : BitVec 2) (idx : BitVec 6) :
    Prop :=
  i.inportValid = true ∧ inportAccept s = true ∧ block = s.blockWrQ ∧
    idx = i.inportIdx

/-- A write reaches the coefficient's lane and address. -/
theorem writes_iff
    (s : State) (i : Input) (block : BitVec 2) (idx : BitVec 6) :
    (wr s i (laneOf idx) &&
        wrPtr block idx == wrPtr s.blockWrQ i.inportIdx) = true ↔
      Writes s i block idx := by
  simp only [wr, Writes, Bool.and_eq_true, beq_iff_eq, laneHas_iff]
  constructor
  · rintro ⟨⟨⟨valid, accepts⟩, lane⟩, address⟩
    exact ⟨valid, accepts, (wrPtr_inj lane).mp address⟩
  · rintro ⟨valid, accepts, rfl, rfl⟩
    exact ⟨⟨⟨valid, accepts⟩, rfl⟩, rfl⟩

/--
A cycle writes its sample, clears the block that it finishes reading, and
keeps every other coefficient.
-/
theorem stored_step
    (s : State) {i : Input}
    (running : i.rst = false)
    (noStart : i.imgStart = false)
    (block : BitVec 2) (idx : BitVec 6) :
    (Writes s i block idx →
        stored (step s i) block idx = some i.inportData) ∧
      (¬ Writes s i block idx → blockDone s = true ∧ block = s.blockRdQ →
        stored (step s i) block idx = none) ∧
      (¬ Writes s i block idx → ¬ (blockDone s = true ∧ block = s.blockRdQ) →
        stored (step s i) block idx = stored s block idx) := by
  have written := writes_iff s i block idx
  simp only [stored, step, laneNext, dataValidR, running, noStart,
    Bool.not_false, Bool.true_and, wrPtr_block]
  cases here : wr s i (laneOf idx) &&
      wrPtr block idx == wrPtr s.blockWrQ i.inportIdx with
  | true =>
      rw [here] at written
      exact ⟨fun _ => by simp, fun noWrite => absurd (written.mp rfl) noWrite,
        fun noWrite => absurd (written.mp rfl) noWrite⟩
  | false =>
      rw [here] at written
      refine ⟨fun writes => absurd (written.mpr writes) (by simp),
        fun _ done => by simp [done], fun _ notDone => ?_⟩
      have kept : (blockDone s && block == s.blockRdQ) = false := by
        rw [Bool.eq_false_iff]
        simpa using notDone
      simp only [kept, Bool.false_eq_true, if_false]

/-! ## Slots -/

/-- Without an end pulse the next samples go to the same slot. -/
theorem blockWrQ_step
    (s : State) {i : Input}
    (running : i.rst = false)
    (noStart : i.imgStart = false) :
    (step s i).blockWrQ =
      if i.inportEob && inportAccept s then s.blockWrQ + 1
      else s.blockWrQ := by
  simp [step, running, noStart]

/-- A slot becomes ready with its end pulse and free with its last read. -/
theorem blockReadyQ_step
    (s : State) {i : Input}
    (running : i.rst = false)
    (noStart : i.imgStart = false)
    (block : BitVec 2) :
    (step s i).blockReadyQ block = blockReadyNext s i block := by
  simp [step, running, noStart]

/-- A slot that is being read is ready. -/
def ReadsReady (s : State) : Prop :=
  s.stateQ ≠ .idle → s.blockReadyQ s.blockRdQ = true

/-- Only ready slots are read. -/
theorem ReadsReady.step
    {s : State} {i : Input}
    (ready : ReadsReady s)
    (running : i.rst = false)
    (noStart : i.imgStart = false) :
    ReadsReady (step s i) := by
  intro reads
  have state : (JpegIdctRam.step s i).stateQ = nextStateR s i := by
    simp [JpegIdctRam.step, running]
  have pointer : (JpegIdctRam.step s i).blockRdQ =
      if blockDone s then s.blockRdQ + 1 else s.blockRdQ := by
    simp [JpegIdctRam.step, running, noStart]
  rw [state, nextStateR, noStart] at reads
  have going : blockDone s = false ∧ s.blockReadyQ s.blockRdQ = true := by
    cases here : s.stateQ with
    | idle =>
        have notDone : blockDone s = false := by
          simp [blockDone, outportValid, here]
        rw [here] at reads
        refine ⟨notDone, ?_⟩
        by_contra notReady
        simp [notReady] at reads
    | setup =>
        exact ⟨by simp [blockDone, outportValid, here],
          ready (by simp [here])⟩
    | active =>
        rw [here] at reads
        refine ⟨?_, ready (by simp [here])⟩
        rw [Bool.eq_false_iff]
        intro done
        simp [done] at reads
  rw [pointer, blockReadyQ_step s running noStart, blockReadyNext, going.1]
  simp [going.2]

/-- The last read of a slot leaves a ready slot. -/
theorem ReadsReady.done
    {s : State}
    (ready : ReadsReady s)
    (done : blockDone s = true) :
    s.blockReadyQ s.blockRdQ = true := by
  apply ready
  intro isIdle
  simp [blockDone, outportValid, isIdle] at done

end CoreJpeg.JpegIdctRam
