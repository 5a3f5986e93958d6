import CoreJpeg.IdctPass
import CoreJpeg.IdctRamModel

namespace CoreJpeg.JpegIdctTranspose

open Bursts
open JpegIdctRam (FsmState)
open JpegIdct (half)

/-!
# The transpose buffer

`jpeg_idct_transpose` keeps two blocks of transformed rows in four RAMs, one
for every two rows, and hands each block to the second pass by columns.  The
first pass does not look at its accept signal.  This module transcribes the
registers and proves that the signal is never low: with two cycles between the
blocks that come in, one block is read out just before its half of the RAMs is
written again.
-/

/-- The input pins sampled in one clock cycle. -/
structure Input where
  rst : Bool
  imgStart : Bool
  inportValid : Bool
  inportData : BitVec 32
  inportIdx : BitVec 6
  outportReady : Bool
  deriving Repr, DecidableEq

/-- The registers and the RAMs `u_ram0` to `u_ram3`. -/
structure State where
  ram : BitVec 2 → BitVec 5 → BitVec 32
  ramRead1Q : BitVec 2 → BitVec 32
  blockReadyQ : BitVec 1 → Bool
  blockWrQ : BitVec 1
  blockRdQ : BitVec 1
  stateQ : FsmState
  rdIdxQ : BitVec 6
  rdAddrQ : BitVec 4

/-- Register values after `rst_i`; the RAMs and their read registers have none. -/
def reset (ram : BitVec 2 → BitVec 5 → BitVec 32)
    (ramRead1Q : BitVec 2 → BitVec 32) : State where
  ram := ram
  ramRead1Q := ramRead1Q
  blockReadyQ := fun _ => false
  blockWrQ := 0
  blockRdQ := 0
  stateQ := .idle
  rdIdxQ := 0
  rdAddrQ := 0

/-! ## Wires -/

/-- `inport_accept_o`. -/
def inportAccept (s : State) : Bool := !s.blockReadyQ s.blockWrQ

/-- `wr_ptr_w`. -/
def wrPtr (block : BitVec 1) (idx : BitVec 6) : BitVec 5 :=
  block ++ idx.extractLsb' 0 4

/-- `wr0_w` to `wr3_w`. -/
def wr (s : State) (i : Input) (lane : BitVec 2) : Bool :=
  i.inportValid && inportAccept s && i.inportIdx.extractLsb' 4 2 == lane

/-- `outport_valid_o`. -/
def outportValid (s : State) : Bool := s.stateQ == .active

/-- `outport_idx_o`. -/
def outportIdx (s : State) : BitVec 3 := s.rdIdxQ.extractLsb' 0 3

/-- `outport_data0_o` to `outport_data3_o`. -/
def outportData (s : State) (lane : BitVec 2) : BitVec 32 := s.ramRead1Q lane

/-- The last item of a block is written in the cycle. -/
def blockWritten (s : State) (i : Input) : Bool :=
  i.inportValid && i.inportIdx == 63 && inportAccept s

/-- The cycle ends the read-out of a block. -/
def blockDone (s : State) : Bool := outportValid s && s.rdIdxQ == 63

/-- `next_state_r`. -/
def nextStateR (s : State) (i : Input) : FsmState :=
  if i.imgStart then .idle
  else
    match s.stateQ with
    | .idle =>
        if s.blockReadyQ s.blockRdQ && i.outportReady then .setup else .idle
    | .setup => .active
    | .active => if blockDone s then .idle else .active

/-! ## Registers -/

/-- `block_ready_q` after the clock edge. -/
def blockReadyNext (s : State) (i : Input) (block : BitVec 1) : Bool :=
  if blockDone s && block == s.blockRdQ then false
  else if blockWritten s i && block == s.blockWrQ then true
  else s.blockReadyQ block

/-- `rd_addr_q` behind a cycle of `STATE_ACTIVE`. -/
def rdAddrActive (rdIdxQ : BitVec 6) (rdAddrQ : BitVec 4) : BitVec 4 :=
  match (rdIdxQ.extractLsb' 0 3).toNat with
  | 0 => rdAddrQ - 8
  | 1 => rdAddrQ + 8
  | 2 => rdAddrQ
  | 3 => rdAddrQ - 8
  | 4 => rdAddrQ + 8
  | 5 => rdAddrQ - 8
  | 6 => rdAddrQ + 1
  | _ => rdAddrQ + 8

/-- `rd_addr_q` after the clock edge. -/
def rdAddrNext (s : State) : BitVec 4 :=
  match s.stateQ with
  | .idle => 0
  | .setup => 8
  | .active => rdAddrActive s.rdIdxQ s.rdAddrQ

/-- The registers and the RAMs after the clock edge. -/
def step (s : State) (i : Input) : State where
  ram lane address :=
    if wr s i lane && address == wrPtr s.blockWrQ i.inportIdx then
      i.inportData
    else s.ram lane address
  ramRead1Q lane := s.ram lane (s.blockRdQ ++ s.rdAddrQ)
  blockReadyQ block := !i.rst && !i.imgStart && blockReadyNext s i block
  blockWrQ :=
    if i.rst || i.imgStart then 0
    else if blockWritten s i then ~~~s.blockWrQ
    else s.blockWrQ
  blockRdQ :=
    if i.rst || i.imgStart then 0
    else if blockDone s then ~~~s.blockRdQ
    else s.blockRdQ
  stateQ := if i.rst then .idle else nextStateR s i
  rdIdxQ :=
    if i.rst || i.imgStart then 0
    else if s.stateQ == .active then s.rdIdxQ + 1
    else s.rdIdxQ
  rdAddrQ := if i.rst then 0 else rdAddrNext s

/-! ## Runs -/

/-- No block is in the buffer. -/
structure Empty (s : State) : Prop where
  noneReady : ∀ block, s.blockReadyQ block = false
  pointers : s.blockWrQ = s.blockRdQ
  notReading : s.stateQ = .idle
  rdIdxQ : s.rdIdxQ = 0

/--
A run with `rst_i` and `img_start_i` low, the output always ready and blocks
of 64 items coming in with a gap of two cycles.
-/
structure Run (s : Nat → State) (i : Nat → Input)
    (place : Nat → Nat) : Prop where
  initially : Empty (s 0)
  next : ∀ n, s (n + 1) = step (s n) (i n)
  noReset : ∀ n, (i n).rst = false
  noStart : ∀ n, (i n).imgStart = false
  ready : ∀ n, (i n).outportReady = true
  bursts : Bursts 64 2 (fun n => (i n).inportValid) place
  counts :
    ∀ n, (i n).inportValid = true →
      (i n).inportIdx = BitVec.ofNat 6 (place n)

namespace Run

variable {s : Nat → State} {i : Nat → Input} {place : Nat → Nat}

/-- A block started to come in between so many and so many cycles ago. -/
abbrev In (i : Nat → Input) (place : Nat → Nat)
    (lower upper n : Nat) : Prop :=
  Within (fun n => (i n).inportValid) place lower upper n

/-- The control registers at a time, told by the blocks that came in. -/
structure Control (s : Nat → State) (i : Nat → Input) (place : Nat → Nat)
    (n : Nat) : Prop where
  setup : (s n).stateQ = .setup ↔ In i place 65 66 n
  active : (s n).stateQ = .active ↔ In i place 66 130 n
  rdIdx :
    ∀ start, Starts (fun n => (i n).inportValid) place start →
      start + 66 ≤ n → n < start + 130 →
        (s n).rdIdxQ = BitVec.ofNat 6 (n - (start + 66))
  fresh : (s n).stateQ ≠ .active → (s n).rdIdxQ = 0
  full : (s n).blockReadyQ (s n).blockRdQ = true ↔ In i place 64 130 n
  other : (s n).blockReadyQ (~~~(s n).blockRdQ) = false
  written :
    (s n).blockWrQ =
      if (s n).blockReadyQ (s n).blockRdQ then ~~~(s n).blockRdQ
      else (s n).blockRdQ

section Control

variable {n : Nat}

/-- The half of the RAMs that is written is free. -/
theorem Control.accepts
    (control : Control s i place n) :
    inportAccept (s n) = true := by
  rw [inportAccept, control.written]
  cases full : (s n).blockReadyQ (s n).blockRdQ with
  | true => simp [control.other]
  | false => simp [full]

variable (run : Run s i place)

include run

/-- The last item of a block comes in 63 cycles after its first. -/
theorem blockWritten_iff
    (control : Control s i place n) :
    blockWritten (s n) (i n) = true ↔ In i place 63 64 n := by
  rw [blockWritten, control.accepts, Bool.and_true, Bool.and_eq_true,
    beq_iff_eq]
  constructor
  · rintro ⟨valid, last⟩
    obtain ⟨reaches, starts⟩ := run.bursts.started (by decide) valid
    have inside := run.bursts.inside n
    rw [run.counts n valid] at last
    have isLast := congrArg BitVec.toNat last
    rw [BitVec.toNat_ofNat, Nat.mod_eq_of_lt inside] at isLast
    have isLast : place n = 63 := isLast
    exact ⟨n - place n, starts, by omega, by omega⟩
  · rintro ⟨start, starts, after, before⟩
    have here := run.bursts.of_starts starts (k := 63) (by decide)
    rw [show start + 63 = n by omega] at here
    refine ⟨here.1, ?_⟩
    rw [run.counts n here.1, here.2]
    rfl

omit run in
/-- The read-out of a block ends 129 cycles after its first item. -/
theorem blockDone_iff
    (control : Control s i place n) :
    blockDone (s n) = true ↔ In i place 129 130 n := by
  rw [blockDone, outportValid, Bool.and_eq_true, beq_iff_eq, beq_iff_eq,
    control.active]
  constructor
  · rintro ⟨⟨start, starts, after, before⟩, last⟩
    rw [control.rdIdx start starts after before] at last
    have isLast := congrArg BitVec.toNat last
    rw [BitVec.toNat_ofNat, Nat.mod_eq_of_lt (by omega)] at isLast
    have isLast : n - (start + 66) = 63 := isLast
    exact ⟨start, starts, by omega, by omega⟩
  · rintro ⟨start, starts, after, before⟩
    refine ⟨⟨start, starts, by omega, before⟩, ?_⟩
    rw [control.rdIdx start starts (by omega) before,
      show n - (start + 66) = 63 by omega]
    rfl

/-- A block has come in completely only when the one before is read out. -/
theorem done_of_written
    (control : Control s i place n)
    (full : (s n).blockReadyQ (s n).blockRdQ = true)
    (written : blockWritten (s n) (i n) = true) :
    blockDone (s n) = true := by
  obtain ⟨start, starts, after, before⟩ := control.full.mp full
  obtain ⟨other, startsToo, afterToo, beforeToo⟩ :=
    (run.blockWritten_iff control).mp written
  have apart := run.bursts.apart starts startsToo (by omega)
  exact (blockDone_iff control).mpr ⟨start, starts, by omega, before⟩

omit run in
/-- A block is read while its half of the RAMs is full. -/
theorem full_of_in
    (control : Control s i place n)
    {lower upper : Nat}
    (isIn : In i place lower upper n)
    (above : 64 ≤ lower)
    (below : upper ≤ 130) :
    (s n).blockReadyQ (s n).blockRdQ = true := by
  obtain ⟨start, starts, after, before⟩ := isIn
  exact control.full.mpr ⟨start, starts, by omega, by omega⟩

/-- The read-out of a block begins in the cycle behind its last item. -/
theorem setup_succ
    (control : Control s i place n) :
    (s (n + 1)).stateQ = .setup ↔ In i place 65 66 (n + 1) := by
  have moves : (s (n + 1)).stateQ = .setup ↔
      (s n).stateQ = .idle ∧
        (s n).blockReadyQ (s n).blockRdQ = true := by
    rw [run.next]
    simp only [step, run.noReset, nextStateR, run.noStart, run.ready,
      Bool.and_true, Bool.false_eq_true, if_false]
    cases (s n).stateQ <;> simp
    split_ifs <;> simp
  have later : In i place 65 66 (n + 1) ↔ In i place 64 65 n :=
    within_one_succ 64 n
  rw [moves, later, control.full]
  constructor
  · rintro ⟨isIdle, start, starts, after, before⟩
    have notSetup := mt control.setup.mpr (by simp [isIdle])
    have notActive := mt control.active.mpr (by simp [isIdle])
    refine ⟨start, starts, after, ?_⟩
    by_contra late
    rcases Nat.lt_or_ge n (start + 66) with inSetup | inActive
    · exact notSetup ⟨start, starts, by omega, inSetup⟩
    · exact notActive ⟨start, starts, inActive, before⟩
  · rintro ⟨start, starts, after, before⟩
    have window (lower upper : Nat) (above : 64 ≤ lower)
        (below : upper ≤ 130) :=
      run.bursts.within_iff 64 starts after (by omega) above below
    have notSetup := mt ((window 65 66 (by omega) (by omega)).mp ∘
      control.setup.mp) (by omega)
    have notActive := mt ((window 66 130 (by omega) (by omega)).mp ∘
      control.active.mp) (by omega)
    refine ⟨?_, start, starts, after, by omega⟩
    cases state : (s n).stateQ with
    | idle => rfl
    | setup => exact absurd state notSetup
    | active => exact absurd state notActive

/-- The read-out of a block takes 64 cycles. -/
theorem active_succ
    (control : Control s i place n) :
    (s (n + 1)).stateQ = .active ↔ In i place 66 130 (n + 1) := by
  have moves : (s (n + 1)).stateQ = .active ↔
      (s n).stateQ = .setup ∨
        ((s n).stateQ = .active ∧ ¬ blockDone (s n) = true) := by
    rw [run.next]
    simp only [step, run.noReset, nextStateR, run.noStart,
      Bool.false_eq_true, if_false]
    cases (s n).stateQ <;> simp
    split_ifs <;> simp
  have later : In i place 66 130 (n + 1) ↔
      In i place 65 66 n ∨ (In i place 66 130 n ∧ ¬ In i place 129 130 n) :=
    run.bursts.within_succ (by decide) (by decide) n
  rw [moves, later, control.setup, control.active, blockDone_iff control]

/-- The read index counts the cycles of a read-out. -/
theorem rdIdx_succ
    (control : Control s i place n)
    {start : Nat}
    (starts : Starts (fun n => (i n).inportValid) place start)
    (after : start + 66 ≤ n + 1)
    (before : n + 1 < start + 130) :
    (s (n + 1)).rdIdxQ = BitVec.ofNat 6 (n + 1 - (start + 66)) := by
  have counts : (s (n + 1)).rdIdxQ =
      if (s n).stateQ == .active then (s n).rdIdxQ + 1
      else (s n).rdIdxQ := by
    simp [run.next, step, run.noReset, run.noStart]
  rw [counts]
  rcases Nat.lt_or_ge n (start + 66) with now | later
  · have state := control.setup.mpr ⟨start, starts, by omega, now⟩
    rw [control.fresh (by simp [state]), state,
      show n + 1 - (start + 66) = 0 by omega]
    rfl
  · have state := control.active.mpr ⟨start, starts, later, by omega⟩
    rw [state, control.rdIdx start starts later (by omega),
      show n + 1 - (start + 66) = n - (start + 66) + 1 by omega]
    simp [BitVec.ofNat_add]

/-- Outside a read-out the read index is back at zero. -/
theorem fresh_succ
    (control : Control s i place n)
    (notActive : (s (n + 1)).stateQ ≠ .active) :
    (s (n + 1)).rdIdxQ = 0 := by
  rw [run.next] at notActive ⊢
  simp only [step, run.noReset, run.noStart, nextStateR,
    Bool.false_eq_true, if_false, Bool.or_self] at notActive ⊢
  cases state : (s n).stateQ with
  | idle => simp [control.fresh (by simp [state])]
  | setup => simp [control.fresh (by simp [state])]
  | active =>
      rw [state] at notActive
      have done : blockDone (s n) = true := by
        by_contra notDone
        simp [notDone] at notActive
      have last : (s n).rdIdxQ = 63 := by
        rw [blockDone, Bool.and_eq_true, beq_iff_eq] at done
        exact done.2
      rw [last]
      rfl

omit run in
theorem complement_ne (block : BitVec 1) : ~~~block ≠ block := by
  revert block
  decide

/-- The halves of the RAMs after a cycle. -/
theorem halves_succ
    (control : Control s i place n) :
    let after := s (n + 1)
    after.blockReadyQ after.blockRdQ =
        (blockWritten (s n) (i n) ||
          (s n).blockReadyQ (s n).blockRdQ && !blockDone (s n)) ∧
      after.blockReadyQ (~~~after.blockRdQ) = false ∧
      after.blockWrQ =
        if after.blockReadyQ after.blockRdQ then ~~~after.blockRdQ
        else after.blockRdQ := by
  have ready (block : BitVec 1) : (s (n + 1)).blockReadyQ block =
      blockReadyNext (s n) (i n) block := by
    simp [run.next, step, run.noReset, run.noStart]
  have rd : (s (n + 1)).blockRdQ =
      if blockDone (s n) then ~~~(s n).blockRdQ else (s n).blockRdQ := by
    simp [run.next, step, run.noReset, run.noStart]
  have wr : (s (n + 1)).blockWrQ =
      if blockWritten (s n) (i n) then ~~~(s n).blockWrQ
      else (s n).blockWrQ := by
    simp [run.next, step, run.noReset, run.noStart]
  have notSame := complement_ne (s n).blockRdQ
  have excluded := run.done_of_written control
  have fullOfDone : blockDone (s n) = true →
      (s n).blockReadyQ (s n).blockRdQ = true := fun done =>
    full_of_in control ((blockDone_iff control).mp done) (by decide)
      (by decide)
  have written := control.written
  have other := control.other
  simp only [ready, rd, wr, blockReadyNext]
  cases done : blockDone (s n) <;>
    cases full : (s n).blockReadyQ (s n).blockRdQ <;>
    cases whole : blockWritten (s n) (i n) <;>
    simp_all

/-- The control registers after a cycle. -/
theorem Control.step
    (control : Control s i place n) :
    Control s i place (n + 1) := by
  obtain ⟨full, other, written⟩ := run.halves_succ control
  refine
    { setup := run.setup_succ control
      active := run.active_succ control
      rdIdx := fun start starts => run.rdIdx_succ control starts
      fresh := run.fresh_succ control
      full := ?_
      other := other
      written := written }
  have later : In i place 64 130 (n + 1) ↔
      In i place 63 64 n ∨
        (In i place 64 130 n ∧ ¬ In i place 129 130 n) :=
    run.bursts.within_succ (by decide) (by decide) n
  rw [full, later, Bool.or_eq_true, Bool.and_eq_true, Bool.not_eq_true',
    ← Bool.not_eq_true, run.blockWritten_iff control, blockDone_iff control,
    control.full]

end Control

/-- The control registers follow the blocks in every cycle. -/
theorem control
    (run : Run s i place)
    (n : Nat) :
    Control s i place n := by
  induction n with
  | zero =>
      obtain ⟨noneReady, pointers, notReading, rdIdxQ⟩ := run.initially
      have noneYet (lower upper : Nat) (positive : 0 < lower) :
          ¬ In i place lower upper 0 := by
        rintro ⟨start, -, after, -⟩
        omega
      constructor <;>
        simp [noneReady, pointers, notReading, rdIdxQ, noneYet]
  | succ n inductionHypothesis =>
      exact inductionHypothesis.step run

section Blocks

variable (run : Run s i place)

include run

/-- What comes in starts to be read out 66 cycles later. -/
theorem outportValid_eq :
    (fun n => outportValid (s n)) =
      delayed 66 false fun n => (i n).inportValid := by
  funext n
  rw [Bool.eq_iff_iff, outportValid, beq_iff_eq, (run.control n).active]
  rcases Nat.lt_or_ge n 66 with early | late
  · rw [delayed_early early]
    constructor
    · rintro ⟨start, -, after, -⟩
      omega
    · exact fun nothing => absurd nothing (by decide)
  · obtain ⟨before, rfl⟩ := Nat.exists_eq_add_of_le' late
    rw [delayed_add, run.bursts.valid_iff (by decide)]
    constructor <;>
    · rintro ⟨start, starts, after, inside⟩
      exact ⟨start, starts, by omega, by omega⟩

/-- The read index counts the places of the delayed blocks. -/
theorem rdIdx_eq
    {n : Nat}
    (valid : outportValid (s n) = true) :
    (s n).rdIdxQ = BitVec.ofNat 6 (delayed 66 0 place n) := by
  rw [outportValid, beq_iff_eq, (run.control n).active] at valid
  obtain ⟨start, starts, after, before⟩ := valid
  have here := (run.bursts.of_starts starts (k := n - (start + 66))
    (by omega)).2
  rw [(run.control n).rdIdx start starts after before, delayed,
    if_neg (by omega), show n - 66 = start + (n - (start + 66)) by omega,
    here]

/-! ## The read address -/

/-- The word of a half that is read for the `m`-th output of a block. -/
def cell (m : Nat) : Nat := m / 8 + 8 * half (m % 8)

omit run in
theorem rdAddrActive_cell :
    ∀ m < 64,
      rdAddrActive (BitVec.ofNat 6 m) (BitVec.ofNat 4 (cell (m + 1))) =
        BitVec.ofNat 4 (cell (m + 2)) := by
  decide +kernel

/-- The read address is at the start of a half when a read-out begins. -/
theorem rdAddr_setup
    {n : Nat}
    (state : (s n).stateQ = .setup) :
    (s n).rdAddrQ = 0 := by
  cases n with
  | zero =>
      simp [run.initially.notReading] at state
  | succ n =>
      rw [run.next] at state ⊢
      simp only [step, run.noReset, run.noStart, nextStateR, rdAddrNext,
        Bool.false_eq_true, if_false] at state ⊢
      cases before : (s n).stateQ with
      | idle => rfl
      | setup =>
          rw [before] at state
          cases state
      | active =>
          rw [before] at state
          split_ifs at state

/-- The read address runs through the words one cycle ahead. -/
theorem rdAddr_eq
    {start m : Nat}
    (starts : Starts (fun n => (i n).inportValid) place start)
    (inside : m < 65) :
    (s (start + 65 + m)).rdAddrQ = BitVec.ofNat 4 (cell m) := by
  induction m with
  | zero =>
      exact run.rdAddr_setup
        ((run.control _).setup.mpr ⟨start, starts, by omega, by omega⟩)
  | succ m inductionHypothesis =>
      have address : (s (start + 65 + m + 1)).rdAddrQ =
          rdAddrNext (s (start + 65 + m)) := by
        simp [run.next, step, run.noReset]
      rw [← Nat.add_assoc, address, rdAddrNext]
      cases m with
      | zero =>
          have state := (run.control (start + 65 + 0)).setup.mpr
            ⟨start, starts, by omega, by omega⟩
          rw [state]
          rfl
      | succ m =>
          have state := (run.control (start + 65 + (m + 1))).active.mpr
            ⟨start, starts, by omega, by omega⟩
          have idx := (run.control (start + 65 + (m + 1))).rdIdx start starts
            (by omega) (by omega)
          rw [state, inductionHypothesis (by omega), idx,
            show start + 65 + (m + 1) - (start + 66) = m by omega]
          exact rdAddrActive_cell m (by omega)

/-! ## The words of a block -/

/-- A block is written to one half of the RAMs. -/
theorem blockWr_kept
    {start p : Nat}
    (starts : Starts (fun n => (i n).inportValid) place start)
    (inside : p < 64) :
    (s (start + p)).blockWrQ = (s start).blockWrQ := by
  induction p with
  | zero => rfl
  | succ p inductionHypothesis =>
      have notWhole : ¬ blockWritten (s (start + p)) (i (start + p)) = true :=
        mt ((run.bursts.within_iff 0 starts (by omega) (by omega)
          (by decide) (by decide)).mp ∘
            (run.blockWritten_iff (run.control _)).mp) (by omega)
      rw [← inductionHypothesis (by omega), ← Nat.add_assoc, run.next]
      simp [step, run.noReset, run.noStart, notWhole]

/-- A block is read from the half that it was written to. -/
theorem blockRd_eq
    {start m : Nat}
    (starts : Starts (fun n => (i n).inportValid) place start)
    (inside : m < 66) :
    (s (start + 64 + m)).blockRdQ = (s start).blockWrQ := by
  induction m with
  | zero =>
      have whole : blockWritten (s (start + 63)) (i (start + 63)) = true :=
        (run.blockWritten_iff (run.control _)).mpr
          ⟨start, starts, by omega, by omega⟩
      have wr : (s (start + 63 + 1)).blockWrQ =
          ~~~(s (start + 63)).blockWrQ := by
        rw [run.next]
        simp [step, run.noReset, run.noStart, whole]
      have full := (run.control (start + 64)).full.mpr
        ⟨start, starts, by omega, by omega⟩
      have written := (run.control (start + 64)).written
      rw [full, if_pos rfl, wr, run.blockWr_kept starts (by decide)] at written
      exact (BitVec.not_inj.mp written).symm
  | succ m inductionHypothesis =>
      have notDone : ¬ blockDone (s (start + 64 + m)) = true :=
        mt ((run.bursts.within_iff 64 starts (by omega) (by omega)
          (by decide) (by decide)).mp ∘
            (blockDone_iff (run.control _)).mp) (by omega)
      rw [← inductionHypothesis (by omega), ← Nat.add_assoc, run.next]
      simp [step, run.noReset, run.noStart, notDone]

omit run in
/-- The half of an address. -/
theorem wrPtr_block (block : BitVec 1) (idx : BitVec 6) :
    (wrPtr block idx).extractLsb' 4 1 = block := by
  revert block idx
  decide +kernel

omit run in
/-- An index is told by its RAM and its address. -/
theorem wrPtr_idx (block : BitVec 1) (idx : BitVec 6) :
    idx.extractLsb' 4 2 ++ (wrPtr block idx).extractLsb' 0 4 = idx := by
  revert block idx
  decide +kernel

/-- The word of an item of a block is only written by that item. -/
theorem word_kept
    {start p n : Nat}
    (starts : Starts (fun n => (i n).inportValid) place start)
    (inside : p < 64)
    (after : start + p < n)
    (before : n < start + 130) :
    let word := BitVec.ofNat 6 p
    (wr (s n) (i n) (word.extractLsb' 4 2) &&
      wrPtr (s start).blockWrQ word ==
        wrPtr (s n).blockWrQ (i n).inportIdx) = false := by
  intro word
  rw [← Bool.not_eq_true, wr, Bool.and_eq_true, Bool.and_eq_true,
    Bool.and_eq_true, beq_iff_eq, beq_iff_eq]
  rintro ⟨⟨⟨valid, -⟩, lane⟩, address⟩
  rcases Nat.lt_or_ge n (start + 64) with same | later
  · -- another item of the same block
    have isIdx : (i n).inportIdx = word := by
      rw [← wrPtr_idx (s n).blockWrQ (i n).inportIdx, lane, ← address,
        wrPtr_idx]
    have here := (run.bursts.of_starts starts (k := n - start)
      (by omega)).2
    rw [show start + (n - start) = n by omega] at here
    rw [run.counts n valid, here] at isIdx
    have isPlace := congrArg BitVec.toNat isIdx
    rw [BitVec.toNat_ofNat, BitVec.toNat_ofNat, Nat.mod_eq_of_lt (by omega),
      Nat.mod_eq_of_lt (by omega)] at isPlace
    omega
  · -- an item of the next block, which goes to the other half
    obtain ⟨m, rfl⟩ := Nat.exists_eq_add_of_le later
    have full := (run.control (start + 64 + m)).full.mpr
      ⟨start, starts, by omega, by omega⟩
    have written := (run.control (start + 64 + m)).written
    have isHalf := congrArg (BitVec.extractLsb' 4 1) address
    rw [wrPtr_block, wrPtr_block, written, full, if_pos rfl,
      run.blockRd_eq starts (by omega)] at isHalf
    exact complement_ne _ isHalf.symm

/-- A block stays in its half until it is read out. -/
theorem ram_eq
    {start p n : Nat}
    (starts : Starts (fun n => (i n).inportValid) place start)
    (inside : p < 64)
    (after : start + p < n)
    (before : n ≤ start + 130) :
    let word := BitVec.ofNat 6 p
    (s n).ram (word.extractLsb' 4 2) (wrPtr (s start).blockWrQ word) =
      (i (start + p)).inportData := by
  intro word
  obtain ⟨k, rfl⟩ := Nat.exists_eq_add_of_lt after
  induction k with
  | zero =>
      obtain ⟨valid, here⟩ := run.bursts.of_starts starts inside
      have idx : (i (start + p)).inportIdx = word := by
        rw [run.counts _ valid, here]
      rw [Nat.add_zero, run.next, step]
      simp [wr, valid, (run.control _).accepts, idx,
        run.blockWr_kept starts inside]
  | succ k inductionHypothesis =>
      rw [show start + p + (k + 1) + 1 = start + p + k + 1 + 1 by omega,
        run.next, step]
      have kept := run.word_kept starts inside (n := start + p + k + 1)
        (by omega) (by omega)
      simp only [word] at kept ⊢
      rw [kept, if_neg (by decide)]
      exact inductionHypothesis (by omega) (by omega)

omit run in
theorem cell_word :
    ∀ lane : BitVec 2, ∀ m < 64,
      (BitVec.ofNat 6 (16 * lane.toNat + cell m)).extractLsb' 4 2 = lane ∧
        (BitVec.ofNat 6 (16 * lane.toNat + cell m)).extractLsb' 0 4 =
          BitVec.ofNat 4 (cell m) := by
  decide +kernel

/--
A block that comes in row by row leaves the buffer column by column, four
items a cycle, in the order in which a pass reads a line.
-/
theorem transposes
    {start c k : Nat}
    (starts : Starts (fun n => (i n).inportValid) place start)
    (isColumn : c < 8)
    (inLine : k < 8) :
    let out := s (start + 8 * c + k + 66)
    outportValid out = true ∧ outportIdx out = BitVec.ofNat 3 k ∧
      ∀ lane, outportData out lane =
        (i (start + (8 * (2 * lane.toNat + half k) + c))).inportData := by
  have state := (run.control (start + 8 * c + k + 66)).active.mpr
    ⟨start, starts, by omega, by omega⟩
  have idx := (run.control (start + 8 * c + k + 66)).rdIdx start starts
    (by omega) (by omega)
  refine ⟨by simp [outportValid, state], ?_, fun lane => ?_⟩
  · rw [outportIdx, idx]
    apply BitVec.eq_of_toNat_eq
    simp only [BitVec.extractLsb'_toNat, BitVec.toNat_ofNat,
      Nat.shiftRight_zero]
    omega
  · have read : (s (start + 8 * c + k + 65 + 1)).ramRead1Q lane =
        (s (start + 8 * c + k + 65)).ram lane
          ((s (start + 8 * c + k + 65)).blockRdQ ++
            (s (start + 8 * c + k + 65)).rdAddrQ) := by
      rw [run.next]
      rfl
    have address := run.rdAddr_eq starts (m := 8 * c + k) (by omega)
    have half_ := run.blockRd_eq starts (m := 8 * c + k + 1) (by omega)
    have isCell : cell (8 * c + k) = 8 * half k + c := by
      unfold cell
      rw [show (8 * c + k) / 8 = c by omega,
        show (8 * c + k) % 8 = k by omega, Nat.add_comm]
    have near : half k ≤ 1 := by
      unfold half
      split_ifs <;> omega
    have word := cell_word lane (8 * c + k) (by omega)
    have kept := run.ram_eq starts (p := 16 * lane.toNat + cell (8 * c + k))
      (n := start + 8 * c + k + 65) (by omega) (by omega) (by omega)
    rw [show start + 65 + (8 * c + k) = start + 8 * c + k + 65 by omega]
      at address
    rw [show start + 64 + (8 * c + k + 1) = start + 8 * c + k + 65 by omega]
      at half_
    simp only [wrPtr, word.1, word.2] at kept
    rw [outportData, read, half_, address, kept, isCell]
    congr 3
    omega

end Blocks

end Run

end CoreJpeg.JpegIdctTranspose
