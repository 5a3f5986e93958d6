import CoreJpeg.IdctPass
import CoreJpeg.IdctRamModel

namespace CoreJpeg.JpegIdctRam

open Bursts
open JpegIdct (half)

/-!
# Blocks behind each other in the coefficient buffer

The four slots of `jpeg_idct_ram` are a queue of blocks: the writing side opens
a slot with the first sample of a block and closes it with its end pulse, the
reading side hands the closed blocks on in order and clears their valid bits.
This module proves that each block is shown as it was written, row by row, in
64 cycles in a row, and that at least two cycles lie between two blocks.
-/

/-! ## The blocks that are written -/

/-- The coefficients of a block, where one was written. -/
abbrev Coefficients := BitVec 6 → Option (BitVec 16)

/--
A block with the sample of a cycle, if it is accepted; a later sample replaces
an earlier one.
-/
def filled (opened : Coefficients) (s : State) (i : Input) : Coefficients :=
  fun idx =>
    if i.inportValid && inportAccept s && idx == i.inportIdx then
      some i.inportData
    else opened idx

/-- The end pulse of a block is accepted in the cycle. -/
def closes (s : State) (i : Input) : Bool := i.inportEob && inportAccept s

/-- The open block after a cycle. -/
def openedNext (opened : Coefficients) (s : State) (i : Input) :
    Coefficients :=
  if closes s i then fun _ => none else filled opened s i

/-- The closed blocks after a cycle. -/
def closedNext (opened : Coefficients) (closed : List Coefficients)
    (s : State) (i : Input) : List Coefficients :=
  if closes s i then closed ++ [filled opened s i] else closed

/-- What was written behind the last end pulse before the `n`-th cycle. -/
def openedAt (s : Nat → State) (i : Nat → Input) : Nat → Coefficients
  | 0 => fun _ => none
  | n + 1 => openedNext (openedAt s i n) (s n) (i n)

/-- The blocks whose end pulse came before the `n`-th cycle. -/
def closedAt (s : Nat → State) (i : Nat → Input) : Nat → List Coefficients
  | 0 => []
  | n + 1 => closedNext (openedAt s i n) (closedAt s i n) (s n) (i n)

/-- The number of blocks read out before the `n`-th cycle. -/
def poppedAt (s : Nat → State) : Nat → Nat
  | 0 => 0
  | n + 1 => poppedAt s n + (blockDone (s n)).toNat

/-- No block is in the buffer. -/
structure Empty (s : State) : Prop where
  noneReady : ∀ block, s.blockReadyQ block = false
  noneStored : ∀ block idx, stored s block idx = none
  blockWrQ : s.blockWrQ = 0
  blockRdQ : s.blockRdQ = 0
  notReading : s.stateQ = .idle
  rdIdxQ : s.rdIdxQ = 0

/-- A run from an empty buffer with `rst_i` and `img_start_i` low. -/
structure Run (s : Nat → State) (i : Nat → Input) : Prop where
  initially : Empty (s 0)
  next : ∀ n, s (n + 1) = step (s n) (i n)
  noReset : ∀ n, (i n).rst = false
  noStart : ∀ n, (i n).imgStart = false

/-! ## Reading -/

/-- The word of a block that is read for the `m`-th output. -/
def cell (m : Nat) : Nat := 2 * (m / 8) + half (m % 8)

/-- The index of the coefficient that a lane shows with a read index. -/
def readIdx (rdIdxQ : BitVec 6) (lane : BitVec 2) : BitVec 6 :=
  rdIdxQ.extractLsb' 3 3 ++
    (lane ++ BitVec.ofNat 1 (half (rdIdxQ.extractLsb' 0 3).toNat))

theorem readIdx_cell :
    ∀ rdIdxQ : BitVec 6, ∀ lane,
      laneOf (readIdx rdIdxQ lane) = lane ∧
        ∀ block, wrPtr block (readIdx rdIdxQ lane) =
          block ++ BitVec.ofNat 4 (cell rdIdxQ.toNat) := by
  decide +kernel

theorem readIdx_eq :
    ∀ rdIdxQ : BitVec 6, ∀ lane,
      readIdx rdIdxQ lane =
        BitVec.ofNat 6 (8 * (rdIdxQ.toNat / 8) +
          (2 * lane.toNat + half (rdIdxQ.toNat % 8))) := by
  decide +kernel

/-- Before its last cycle the read index of a read-out goes up by one. -/
theorem succ_toNat
    {s : State}
    (active : s.stateQ = .active)
    (notDone : blockDone s = false) :
    (s.rdIdxQ + 1).toNat = s.rdIdxQ.toNat + 1 := by
  have notLast : s.rdIdxQ ≠ 63 := by
    simpa [blockDone, outportValid, active] using notDone
  revert notLast
  generalize s.rdIdxQ = rdIdxQ
  revert rdIdxQ
  decide

/-- What the reading side keeps to. -/
structure Reading (s : State) : Prop where
  fresh : s.stateQ ≠ .active → s.rdIdxQ = 0
  addrSetup : s.stateQ = .setup → s.rdAddrQ = 0
  addrActive :
    s.stateQ = .active →
      s.rdAddrQ = BitVec.ofNat 4 (cell (s.rdIdxQ.toNat + 1))
  ready : ReadsReady s
  showsBlock :
    s.stateQ = .active →
      ∀ lane, outportData s lane =
        (stored s s.blockRdQ (readIdx s.rdIdxQ lane)).getD 0

/-- A read-out that goes on after a cycle, and the word that the cycle reads. -/
structure GoesOn (s : State) (i : Input) : Prop where
  notIdle : s.stateQ ≠ .idle
  notDone : blockDone s = false
  rdIdx :
    (step s i).rdIdxQ =
      if s.stateQ == .active then s.rdIdxQ + 1 else s.rdIdxQ
  reads :
    s.rdAddrQ = BitVec.ofNat 4 (cell (step s i).rdIdxQ.toNat)

section Step

variable {s : State} {i : Input}
variable (running : i.rst = false) (noStart : i.imgStart = false)

include running noStart

theorem stateQ_step :
    (step s i).stateQ =
      match s.stateQ with
      | .idle =>
          if s.blockReadyQ s.blockRdQ && i.outportReady then .setup
          else .idle
      | .setup => .active
      | .active => if blockDone s then .idle else .active := by
  cases state : s.stateQ <;>
    simp [step, nextStateR, running, noStart, state]

theorem rdIdxQ_step :
    (step s i).rdIdxQ =
      if s.stateQ == .active then s.rdIdxQ + 1 else s.rdIdxQ := by
  simp [step, running, noStart]

theorem blockRdQ_step :
    (step s i).blockRdQ =
      if blockDone s then s.blockRdQ + 1 else s.blockRdQ := by
  simp [step, running, noStart]

omit noStart in
theorem rdAddrQ_step : (step s i).rdAddrQ = rdAddrNext s := by
  simp [step, running]

theorem Reading.goesOn
    (reading : Reading s)
    (active : (step s i).stateQ = .active) :
    GoesOn s i := by
  have rdIdx := rdIdxQ_step (s := s) running noStart
  rw [stateQ_step running noStart] at active
  cases state : s.stateQ with
  | idle =>
      rw [state] at active
      split_ifs at active
  | setup =>
      refine ⟨by simp [state], by simp [blockDone, outportValid, state],
        rdIdx, ?_⟩
      rw [rdIdx, state, reading.addrSetup state,
        reading.fresh (by simp [state])]
      rfl
  | active =>
      rw [state] at active
      have notDone : blockDone s = false := by
        rw [← Bool.not_eq_true]
        intro done
        simp [done] at active
      refine ⟨by simp [state], notDone, rdIdx, ?_⟩
      rw [rdIdx, state, reading.addrActive state]
      simp only [beq_self_eq_true, if_true, succ_toNat state notDone]

omit noStart in
/-- The lanes show what the last cycle read. -/
theorem outportData_step
    (lane : BitVec 2) (idx : BitVec 6)
    (isLane : laneOf idx = lane)
    (isWord : wrPtr s.blockRdQ idx = s.blockRdQ ++ s.rdAddrQ) :
    outportData (step s i) lane = (stored s s.blockRdQ idx).getD 0 := by
  simp only [outportData, step, laneNext, running, Bool.not_false,
    Bool.true_and, stored, isLane, isWord]
  split_ifs <;> rfl

omit running noStart in
/-- Behind a cycle of a read-out the address is two words ahead of it. -/
theorem rdAddrNext_cell
    (state : s.stateQ = .active)
    (address : s.rdAddrQ = BitVec.ofNat 4 (cell (s.rdIdxQ.toNat + 1))) :
    rdAddrNext s = BitVec.ofNat 4 (cell (s.rdIdxQ.toNat + 2)) := by
  rw [rdAddrNext, state, address]
  generalize s.rdIdxQ = rdIdxQ
  revert rdIdxQ
  decide +kernel

omit running noStart in
/-- The slot that is read is not written. -/
theorem notWrites_reading
    (reading : Reading s)
    (notIdle : s.stateQ ≠ .idle)
    (idx : BitVec 6) :
    ¬ Writes s i s.blockRdQ idx := by
  rintro ⟨-, accepts, same, -⟩
  have ready := reading.ready notIdle
  rw [same] at ready
  simp [inportAccept, ready] at accepts

/-- The reading side keeps to it in every cycle. -/
theorem Reading.step
    (reading : Reading s) :
    Reading (step s i) := by
  have state := stateQ_step (s := s) running noStart
  have rdIdx := rdIdxQ_step (s := s) running noStart
  have rdAddr := rdAddrQ_step (s := s) running
  constructor
  · intro notActive
    rw [state] at notActive
    rw [rdIdx]
    cases before : s.stateQ with
    | idle => simp [reading.fresh (by simp [before])]
    | setup => simp [before] at notActive
    | active =>
        rw [before] at notActive
        have done : blockDone s = true := by
          by_contra notDone
          simp [notDone] at notActive
        have last : s.rdIdxQ = 63 := by
          rw [blockDone, Bool.and_eq_true, beq_iff_eq] at done
          exact done.2
        rw [last]
        rfl
  · intro setup
    rw [state] at setup
    rw [rdAddr, rdAddrNext]
    cases before : s.stateQ with
    | idle => rfl
    | setup => simp [before] at setup
    | active =>
        rw [before] at setup
        split_ifs at setup
  · intro active
    have goesOn := reading.goesOn running noStart active
    rw [rdAddr]
    cases before : s.stateQ with
    | idle => exact absurd before goesOn.notIdle
    | setup =>
        rw [rdIdx, before, rdAddrNext, before, reading.fresh (by simp [before])]
        rfl
    | active =>
        rw [rdAddrNext_cell before (reading.addrActive before), rdIdx, before]
        simp only [beq_self_eq_true, if_true,
          succ_toNat before goesOn.notDone]
  · exact reading.ready.step running noStart
  · intro active lane
    have goesOn := reading.goesOn running noStart active
    have word := readIdx_cell (JpegIdctRam.step s i).rdIdxQ lane
    have same : (JpegIdctRam.step s i).blockRdQ = s.blockRdQ := by
      rw [blockRdQ_step running noStart, goesOn.notDone]
      rfl
    have kept := (stored_step s running noStart s.blockRdQ
      (readIdx (JpegIdctRam.step s i).rdIdxQ lane)).2.2
        (notWrites_reading reading goesOn.notIdle _)
        (by simp [goesOn.notDone])
    rw [same, kept]
    exact outportData_step running lane _ word.1
      (by rw [word.2, goesOn.reads])

end Step

namespace Run

variable {s : Nat → State} {i : Nat → Input}
variable (run : Run s i)

include run

theorem reading (n : Nat) : Reading (s n) := by
  induction n with
  | zero =>
      have notReading := run.initially.notReading
      constructor <;> simp [notReading, run.initially.rdIdxQ, ReadsReady]
  | succ n inductionHypothesis =>
      rw [run.next]
      exact inductionHypothesis.step (run.noReset n) (run.noStart n)

/-- Blocks are shown in 64 cycles in a row, two or more cycles apart. -/
theorem bursts :
    Bursts 64 2 (fun n => outportValid (s n)) fun n =>
      (s n).rdIdxQ.toNat := by
  have state (n : Nat) := stateQ_step (s := s n) (run.noReset n)
    (run.noStart n)
  have rdIdx (n : Nat) := rdIdxQ_step (s := s n) (run.noReset n)
    (run.noStart n)
  simp only [← run.next] at state rdIdx
  constructor
  · simp [run.initially.rdIdxQ]
  · exact fun n => (s n).rdIdxQ.isLt
  · intro n invalid
    have notActive : (s n).stateQ ≠ .active := by
      simpa [outportValid] using invalid
    have fresh := (run.reading n).fresh notActive
    have next := rdIdx n
    rw [if_neg (by simpa using notActive), fresh] at next
    simp [fresh, next]
  · intro n active more
    rw [outportValid, beq_iff_eq] at active
    have notDone : blockDone (s n) = false := by
      rw [← Bool.not_eq_true, blockDone, Bool.and_eq_true, beq_iff_eq]
      rintro ⟨-, last⟩
      simp [last] at more
    refine ⟨by simp [outportValid, state, active, notDone], ?_⟩
    simp only [rdIdx, active, beq_self_eq_true, if_true]
    exact succ_toNat active notDone
  · intro n active last
    rw [outportValid, beq_iff_eq] at active
    have isLast : (s n).rdIdxQ = 63 := BitVec.eq_of_toNat_eq (by
      simpa using last)
    have done : blockDone (s n) = true := by
      simp [blockDone, outportValid, active, isLast]
    have isIdle : (s (n + 1)).stateQ = .idle := by
      rw [state, active]
      simp [done]
    refine ⟨by simp [rdIdx, active, isLast], fun k near => ?_⟩
    rcases Nat.eq_zero_or_pos k with rfl | positive
    · simp [outportValid, isIdle]
    · obtain rfl : k = 1 := by omega
      rw [outportValid, state, isIdle]
      split_ifs <;> rfl

end Run

/-! ## The queue of slots -/

/-- What the slot of the `j`-th block holds. -/
def content (opened : Coefficients) (closed : List Coefficients) (j : Nat) :
    Coefficients :=
  if j = closed.length then opened
  else (closed[j]?).getD fun _ => none

/-- The slots are a queue of blocks, the last of them still open. -/
structure Slots (s : State) (opened : Coefficients)
    (closed : List Coefficients) (popped : Nat) : Prop where
  wr : s.blockWrQ = BitVec.ofNat 2 closed.length
  rd : s.blockRdQ = BitVec.ofNat 2 popped
  behind : popped ≤ closed.length
  near : closed.length ≤ popped + 4
  ready :
    ∀ j, popped ≤ j → j < popped + 4 →
      (s.blockReadyQ (BitVec.ofNat 2 j) = true ↔ j < closed.length)
  holds_ :
    ∀ j, popped ≤ j → j < popped + 4 →
      ∀ idx, stored s (BitVec.ofNat 2 j) idx = content opened closed j idx
  unopened :
    popped + 4 ≤ closed.length → ∀ idx, opened idx = none

section Slots

variable {s : State} {i : Input} {opened : Coefficients}
variable {closed : List Coefficients} {popped : Nat}

/-- Four blocks behind each other have slots of their own. -/
theorem slot_inj
    {a b : Nat}
    (aAbove : popped ≤ a)
    (aBelow : a < popped + 4)
    (bAbove : popped ≤ b)
    (bBelow : b < popped + 4) :
    BitVec.ofNat 2 a = BitVec.ofNat 2 b ↔ a = b := by
  constructor
  · intro same
    have sameNat := congrArg BitVec.toNat same
    simp only [BitVec.toNat_ofNat] at sameNat
    omega
  · rintro rfl
    rfl

/-- The fifth block has the slot of the first. -/
theorem slot_add_four (j : Nat) :
    BitVec.ofNat 2 (j + 4) = BitVec.ofNat 2 j := by
  apply BitVec.eq_of_toNat_eq
  simp

/-- The writing side waits when all slots are closed. -/
theorem Slots.accepts_iff
    (slots : Slots s opened closed popped) :
    inportAccept s = true ↔ closed.length < popped + 4 := by
  have behind := slots.behind
  have near := slots.near
  rw [inportAccept, slots.wr, Bool.not_eq_true']
  rcases Nat.lt_or_ge closed.length (popped + 4) with room | full
  · have ready := slots.ready closed.length behind room
    simp only [room, iff_true]
    rw [← Bool.not_eq_true, ready]
    exact Nat.lt_irrefl _
  · have isFull : closed.length = popped + 4 := by omega
    have ready := slots.ready popped (Nat.le_refl _) (by omega)
    rw [isFull, slot_add_four, ready.mpr (by omega)]
    simp

/-- The reading side shows the block that is next. -/
theorem Slots.rd_ready
    (slots : Slots s opened closed popped)
    (ready : s.blockReadyQ s.blockRdQ = true) :
    popped < closed.length := by
  rw [slots.rd] at ready
  exact (slots.ready popped (Nat.le_refl _) (by omega)).mp ready

/-- A cycle changes the content of the open block only. -/
theorem content_next (j : Nat) :
    content (openedNext opened s i) (closedNext opened closed s i) j =
      if j = closed.length then filled opened s i
      else content opened closed j := by
  cases ended : closes s i with
  | false =>
      simp only [content, openedNext, closedNext, ended, Bool.false_eq_true,
        if_false]
      split_ifs <;> rfl
  | true =>
      simp only [content, openedNext, closedNext, ended, if_true,
        List.length_append, List.length_singleton]
      rcases Nat.lt_trichotomy j closed.length with earlier | rfl | later
      · rw [if_neg (by omega), if_neg (by omega), if_neg (by omega),
          List.getElem?_append_left earlier]
      · simp
      · rw [if_neg (show j ≠ closed.length by omega),
          if_neg (show j ≠ closed.length by omega),
          List.getElem?_eq_none (l := closed) (by omega)]
        split_ifs with next
        · rfl
        · rw [List.getElem?_eq_none (by simp; omega)]

/-- A cycle that accepts nothing leaves the open block as it is. -/
theorem openedNext_full
    (full : inportAccept s = false) :
    openedNext opened s i = opened := by
  funext idx
  simp [openedNext, closes, filled, full]

variable (running : i.rst = false) (noStart : i.imgStart = false)
variable (reading : Reading s) (slots : Slots s opened closed popped)

include running noStart reading slots

omit reading in
/-- A block is closed in a slot of its own. -/
theorem ready_next
    (j : Nat)
    (above : popped ≤ j)
    (below : j < popped + 4)
    (kept : ¬ (blockDone s = true ∧ j = popped)) :
    (step s i).blockReadyQ (BitVec.ofNat 2 j) = true ↔
      j < (closedNext opened closed s i).length := by
  have behind := slots.behind
  have notDone : (blockDone s && BitVec.ofNat 2 j == s.blockRdQ) = false := by
    rw [← Bool.not_eq_true, Bool.and_eq_true, beq_iff_eq, slots.rd,
      slot_inj above below (Nat.le_refl _) (by omega)]
    exact kept
  rw [blockReadyQ_step s running noStart, blockReadyNext, notDone]
  simp only [Bool.false_eq_true, if_false]
  cases ended : closes s i with
  | false =>
      have noPulse : (i.inportEob && inportAccept s &&
          BitVec.ofNat 2 j == s.blockWrQ) = false := by
        rw [closes] at ended
        rw [ended, Bool.false_and]
      rw [noPulse, closedNext, ended]
      exact slots.ready j above below
  | true =>
      have both := ended
      rw [closes, Bool.and_eq_true] at both
      obtain ⟨pulse, accepts⟩ := both
      have room := slots.accepts_iff.mp accepts
      have same : BitVec.ofNat 2 j = s.blockWrQ ↔ j = closed.length := by
        rw [slots.wr, slot_inj above below behind room]
      simp only [accepts, pulse, closedNext, ended, if_true,
        List.length_append, List.length_singleton, Bool.true_and, beq_iff_eq,
        same]
      have ready := slots.ready j above below
      split_ifs with isOpen
      · simp [isOpen]
      · rw [ready]
        omega

omit reading in
/-- What a slot holds that is not cleared in a cycle. -/
theorem content_step
    (j : Nat)
    (above : popped ≤ j)
    (below : j < popped + 4)
    (kept : ¬ (blockDone s = true ∧ j = popped))
    (idx : BitVec 6) :
    stored (step s i) (BitVec.ofNat 2 j) idx =
      content (openedNext opened s i) (closedNext opened closed s i) j
        idx := by
  have behind := slots.behind
  have held := slots.holds_ j above below idx
  have notCleared :
      ¬ (blockDone s = true ∧ BitVec.ofNat 2 j = s.blockRdQ) := by
    rw [slots.rd, slot_inj above below (Nat.le_refl _) (by omega)]
    exact kept
  have steps := stored_step s running noStart (BitVec.ofNat 2 j) idx
  rw [content_next]
  by_cases writes : Writes s i (BitVec.ofNat 2 j) idx
  · have stored_ := steps.1 writes
    obtain ⟨valid, accepts, same, isIdx⟩ := writes
    have room := slots.accepts_iff.mp accepts
    rw [slots.wr, slot_inj above below behind room] at same
    rw [stored_, if_pos same, filled, valid, accepts, isIdx]
    simp
  · rw [steps.2.2 writes notCleared, held]
    by_cases isOpen : j = closed.length
    · have others :
          (i.inportValid && inportAccept s && idx == i.inportIdx) =
            false := by
        rw [← Bool.not_eq_true, Bool.and_eq_true, Bool.and_eq_true,
          beq_iff_eq]
        rintro ⟨⟨valid, accepts⟩, isIdx⟩
        exact writes ⟨valid, accepts, by rw [slots.wr, isOpen], isIdx⟩
      rw [if_pos isOpen, content, if_pos isOpen, filled, others]
      rfl
    · rw [if_neg isOpen]

/-- The queue after a cycle. -/
theorem Slots.step :
    Slots (step s i) (openedNext opened s i) (closedNext opened closed s i)
      (popped + (blockDone s).toNat) := by
  have behind := slots.behind
  have near := slots.near
  have wr := blockWrQ_step s running noStart
  have rd := blockRdQ_step (s := s) running noStart
  have grows : (closedNext opened closed s i).length =
      closed.length + (closes s i).toNat := by
    cases ended : closes s i <;> simp [closedNext, ended]
  have room (ended : closes s i = true) : closed.length < popped + 4 := by
    rw [closes, Bool.and_eq_true] at ended
    exact slots.accepts_iff.mp ended.2
  have present : blockDone s = true → popped < closed.length :=
    fun done => slots.rd_ready (reading.ready.done done)
  have cleared : blockDone s = true → ∀ idx,
      stored (JpegIdctRam.step s i) (BitVec.ofNat 2 popped) idx = none := by
    intro done idx
    have notIdle : s.stateQ ≠ .idle := by
      intro isIdle
      simp [blockDone, outportValid, isIdle] at done
    have noWrite := notWrites_reading reading notIdle (i := i) idx
    rw [← slots.rd]
    exact (stored_step s running noStart _ idx).2.1 noWrite ⟨done, rfl⟩
  have unopened : popped + 4 ≤ (closedNext opened closed s i).length →
      ∀ idx, openedNext opened s i idx = none := by
    intro full idx
    cases ended : closes s i with
    | true => simp [openedNext, ended]
    | false =>
        rw [grows, ended, Bool.toNat_false, Nat.add_zero] at full
        have notAccepts : inportAccept s = false := by
          rw [← Bool.not_eq_true, slots.accepts_iff]
          omega
        rw [openedNext_full notAccepts]
        exact slots.unopened full idx
  have fits : (closedNext opened closed s i).length ≤ popped + 4 := by
    rw [grows]
    cases ended : closes s i with
    | false => simpa using near
    | true => have := room ended; simp; omega
  constructor
  · rw [wr, grows, slots.wr]
    change (if closes s i = true then _ else _) = _
    cases closes s i <;> simp [BitVec.ofNat_add]
  · rw [rd, slots.rd]
    cases blockDone s <;> simp [BitVec.ofNat_add]
  · rw [grows]
    cases done : blockDone s with
    | false => simp; omega
    | true => have := present done; simp; omega
  · omega
  · intro j above below
    by_cases inQueue : j < popped + 4
    · refine ready_next running noStart slots j (by omega) inQueue ?_
      rintro ⟨done, rfl⟩
      simp [done] at above
    · -- the slot of the block that has just been read
      have done : blockDone s = true := by
        by_contra notDone
        rw [Bool.not_eq_true] at notDone
        rw [notDone, Bool.toNat_false] at below
        omega
      have isNew : j = popped + 4 := by
        rw [done, Bool.toNat_true] at below
        omega
      rw [isNew, slot_add_four, ← slots.rd, blockReadyQ_step s running noStart,
        blockReadyNext, done]
      simpa using fits
  · intro j above below idx
    by_cases inQueue : j < popped + 4
    · refine content_step running noStart slots j (by omega)
        inQueue ?_ idx
      rintro ⟨done, rfl⟩
      simp [done] at above
    · have done : blockDone s = true := by
        by_contra notDone
        rw [Bool.not_eq_true] at notDone
        rw [notDone, Bool.toNat_false] at below
        omega
      have isNew : j = popped + 4 := by
        rw [done, Bool.toNat_true] at below
        omega
      rw [isNew, slot_add_four, cleared done, content]
      split_ifs with isOpen
      · rw [unopened (by omega)]
      · rw [List.getElem?_eq_none (by omega)]
        rfl
  · intro full
    exact unopened (by omega)

end Slots

namespace Run

variable {s : Nat → State} {i : Nat → Input}
variable (run : Run s i)

include run

/-- The slots are the queue of the blocks written and not yet read. -/
theorem slots (n : Nat) :
    Slots (s n) (openedAt s i n) (closedAt s i n) (poppedAt s n) := by
  induction n with
  | zero =>
      have initially := run.initially
      have empty (j : Nat) (idx : BitVec 6) :
          content (fun _ => none) [] j idx = none := by
        rw [content]
        split_ifs <;> rfl
      constructor <;>
        simp [initially.noneReady, initially.noneStored, initially.blockWrQ,
          initially.blockRdQ, openedAt, closedAt, poppedAt, empty]
  | succ n inductionHypothesis =>
      rw [run.next]
      exact inductionHypothesis.step (run.noReset n) (run.noStart n)
        (run.reading n)

/-- The block that is read in a cycle is the next one that was closed. -/
theorem shows_block
    {n : Nat}
    (active : outportValid (s n) = true) :
    ∃ block, (closedAt s i n)[poppedAt s n]? = some block ∧
      ∀ lane, outportData (s n) lane =
        (block (readIdx (s n).rdIdxQ lane)).getD 0 := by
  have reading := run.reading n
  have slots := run.slots n
  rw [outportValid, beq_iff_eq] at active
  have ready := reading.ready (by simp [active])
  have present := slots.rd_ready ready
  refine ⟨_, List.getElem?_eq_getElem present, fun lane => ?_⟩
  rw [reading.showsBlock active, slots.rd,
    slots.holds_ _ (Nat.le_refl _) (by omega), content,
    if_neg (by omega), List.getElem?_eq_getElem present]
  rfl

end Run

end CoreJpeg.JpegIdctRam
