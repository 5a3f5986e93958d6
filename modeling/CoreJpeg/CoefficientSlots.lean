import CoreJpeg.CoefficientChain
import CoreJpeg.McuBlock

namespace CoreJpeg.CoefficientChain

/-!
# Does every coefficient reach its slot?

A block starts only when no end pulse is under way and the slot to be filled is
free.  From then on nothing but the block's own end pulse can move the slot on,
and a free slot is not read, so this one look ahead is enough.  This module
follows a block from its start to the end of its read-out and shows that all of
its samples arrive, alone, in one slot.
-/

open Clocked McuProc

/-! ## Where a scan may begin -/

section Clean

/-- Nothing is under way after reset, whatever the memories hold. -/
theorem clean_reset
    (loader : JpegDqt.Loader) (dqtEntryQ : Byte)
    (ram : BitVec 2 → BitVec 6 → BitVec 16)
    (ramRead1Q : BitVec 2 → BitVec 16) :
    State.Clean
      { mcu := McuProc.reset
        dqt :=
          { loader := loader
            dqtEntryQ := dqtEntryQ
            inport := .reset
            outport := .reset }
        ram := JpegIdctRam.reset ram ramRead1Q } where
  firstBlock := rfl
  waiting := rfl
  noPush := rfl
  noCoeff := rfl
  inportEmpty := ⟨rfl, rfl⟩
  outportEmpty := ⟨rfl, rfl⟩
  noneReady _ := rfl
  noneStored _ _ := rfl
  notReading := rfl

/--
Nothing comes under way while the headers are read, with the start of the image
and the quantisation tables among them.
-/
theorem State.Clean.header
    {frame : Frame} {s : State} {cycle : Cycle}
    (clean : s.Clean)
    (noReset : cycle.rst = false)
    (noBits : cycle.inportValid = false) :
    (s.step frame cycle).Clean := by
  have imageOpen : s.mcu.id.endOfImageQ = false := by
    rw [clean.firstBlock]
    rfl
  have waits : nextStateR s.mcu (s.mcuInput frame cycle) = .idle := by
    simp [nextStateR, clean.waiting, imageOpen, State.mcuInput, noBits]
  have notStart : startBlock s.mcu (s.mcuInput frame cycle) = false := by
    simp [startBlock, waits]
  have firstBlock : s.mcu.id.step (idInput s.mcu (s.mcuInput frame cycle)) =
      .reset := by
    cases start : cycle.imgStart with
    | true => simp [IdState.step, idInput, State.mcuInput, start]
    | false =>
        rw [id_within noReset start notStart
          (by simp [idInput, nextBlock, clean.waiting])
          (fun _ => by rw [clean.firstBlock]; rfl), clean.firstBlock]
  have noSample : outportValid s.mcu = false := by
    simp [outportValid, clean.noPush]
  have noEnd : outportEob s.mcu = false := by
    simp [outportEob, clean.waiting]
  have notDone : JpegIdctRam.blockDone s.ram = false := by
    simp [JpegIdctRam.blockDone, JpegIdctRam.outportValid, clean.notReading]
  constructor
  · rw [← firstBlock]
    simp [State.step, McuProc.step, State.mcuInput, noReset]
  · rw [← waits]
    simp [State.step, McuProc.step, State.mcuInput, noReset]
  · simp [State.step, McuProc.step, State.mcuInput, noReset, clean.waiting]
  · simp [State.step, McuProc.step, State.mcuInput, noReset, coeffIdxNext,
      clean.waiting, clean.noCoeff]
  · simp [State.step, JpegDqt.step, State.dqtInput, noReset, noSample, noEnd]
  · simp [State.step, JpegDqt.step, State.dqtInput, noReset,
      clean.inportEmpty]
  · simp [State.step, JpegIdctRam.step, JpegIdctRam.blockReadyNext,
      State.ramInput, notDone, clean.outportEmpty.2, clean.noneReady]
  · intro block idx
    cases start : cycle.imgStart with
    | true =>
        simp [State.step, JpegIdctRam.stored, JpegIdctRam.step,
          JpegIdctRam.laneNext, State.ramInput, start]
    | false =>
        have kept := (JpegIdctRam.stored_step s.ram
          (show (s.ramInput cycle).rst = false from noReset)
          (show (s.ramInput cycle).imgStart = false from start)
          block idx).2.2
        refine (kept (fun writes => ?_) fun done => ?_).trans
          (clean.noneStored block idx)
        · have valid := writes.1
          rw [show (s.ramInput cycle).inportValid = false from
            clean.outportEmpty.1] at valid
          cases valid
        · rw [notDone] at done
          cases done.1
  · simp [State.step, JpegIdctRam.step, JpegIdctRam.nextStateR,
      State.ramInput, noReset, clean.notReading, clean.noneReady]

end Clean

namespace Scan

variable (scan : Scan)

/-! ## Cycles -/

section Cycles

/-- The pins of the decoder in a cycle. -/
def mcuPins (n : Nat) : McuProc.Input :=
  (scan.stateAt n).mcuInput scan.frame (scan.cycles n)

/-- Every cycle of a scan is one of the decoder's. -/
theorem runs (n : Nat) : Runs scan.frame.imgMode (scan.mcuPins n) :=
  ⟨scan.noReset n, scan.noStart n, rfl⟩

theorem mcu_succ (n : Nat) :
    (scan.stateAt (n + 1)).mcu =
      McuProc.step (scan.stateAt n).mcu (scan.mcuPins n) := rfl

/-- The decoder's registers are in order in every cycle. -/
theorem ordered (n : Nat) :
    Ordered scan.frame.imgMode (scan.stateAt n).mcu := by
  have clean := scan.clean
  have type : scan.first.mcu.id.blockTypeQ = .y := by
    rw [clean.firstBlock]
    rfl
  have initially : Ordered scan.frame.imgMode scan.first.mcu := by
    refine ⟨?_, ?_, ?_, ?_, ?_, ?_, ?_, ?_⟩ <;>
      simp [type, clean.waiting, clean.noPush, clean.noCoeff]
  exact @trace_invariant State Cycle (State.step scan.frame)
    (fun s => Ordered scan.frame.imgMode s.mcu) scan.first scan.cycles
    initially (fun m before => before.step (scan.runs m)) n

/-- The first stage holds what the decoder shows. -/
theorem inport_succ (n : Nat) :
    (scan.stateAt (n + 1)).dqt.inport =
      { validQ := scan.emits n
        dataQ := outportData (scan.stateAt n).mcu
        idxQ := outportIdx (scan.stateAt n).mcu
        idQ :=
          if scan.emits n then outportId (scan.stateAt n).mcu
          else (scan.stateAt n).dqt.inport.idQ
        eobQ := scan.ends n } :=
  JpegDqt.inport_step _ (scan.noReset n) (scan.noStart n)

/-- The second stage holds the product of the first. -/
theorem outport_succ (n : Nat) :
    (scan.stateAt (n + 1)).dqt.outport =
      { validQ := (scan.stateAt n).dqt.inport.validQ
        dataQ :=
          (scan.stateAt n).dqt.inport.dataQ *
            (scan.stateAt n).dqt.dqtEntryQ.setWidth 16
        idxQ := JpegDqt.dezigzag (scan.stateAt n).dqt.inport.idxQ
        idQ := (scan.stateAt n).dqt.inport.idQ
        eobQ := (scan.stateAt n).dqt.inport.eobQ } :=
  JpegDqt.outport_step _ (scan.noReset n) (scan.noStart n)

/-- The quantisation tables do not change. -/
theorem tables_kept (n : Nat) :
    (scan.stateAt n).dqt.loader.tableDqtQ =
      scan.first.dqt.loader.tableDqtQ := by
  induction n with
  | zero =>
      rfl
  | succ n inductionHypothesis =>
      rw [← inductionHypothesis]
      have noWrite := scan.noWrite n
      funext address
      simp [stateAt, trace, State.step, JpegDqt.step, JpegDqt.Loader.step,
        noWrite]

/-- The quantiser that is read for the index and the component shown. -/
theorem dqtEntry_succ (n : Nat) :
    (scan.stateAt (n + 1)).dqt.dqtEntryQ =
      scan.first.dqt.loader.entry
        (scan.dqtTable (scan.stateAt n).mcu.id.blockTypeQ)
        (outportIdx (scan.stateAt n).mcu).toNat := by
  have noWrite := scan.noWrite n
  have source : JpegDqt.tableSrc
        ((scan.stateAt n).dqtInput scan.frame (scan.cycles n))
        (outportId (scan.stateAt n).mcu) =
      scan.dqtTable (scan.stateAt n).mcu.id.blockTypeQ := by
    rw [JpegDqt.tableSrc, outportId_type]
    cases (scan.stateAt n).mcu.id.blockTypeQ <;> rfl
  have address : JpegDqt.dqtTableAddr (scan.stateAt n).dqt.loader
        ((scan.stateAt n).dqtInput scan.frame (scan.cycles n)) =
      scan.dqtTable (scan.stateAt n).mcu.id.blockTypeQ ++
        outportIdx (scan.stateAt n).mcu := by
    rw [← source]
    exact if_neg (Bool.eq_false_iff.mp noWrite)
  calc (scan.stateAt (n + 1)).dqt.dqtEntryQ
      = (scan.stateAt n).dqt.loader.tableDqtQ
          (JpegDqt.dqtTableAddr (scan.stateAt n).dqt.loader
            ((scan.stateAt n).dqtInput scan.frame (scan.cycles n))) := rfl
    _ = _ := by
        rw [address, tables_kept, JpegDqt.Loader.entry, BitVec.ofNat_toNat,
          BitVec.setWidth_eq]

/-- What arrives at the buffer was emitted two cycles before. -/
theorem arrives (n : Nat) :
    (scan.stateAt (n + 2)).dqt.outport.validQ = scan.emits n ∧
      (scan.stateAt (n + 2)).dqt.outport.eobQ = scan.ends n := by
  rw [outport_succ, inport_succ]
  exact ⟨rfl, rfl⟩

end Cycles

/-! ## Before a block -/

section Before

variable {scan}

/-- The image is not over in a cycle. -/
def ImageOpen (scan : Scan) (n : Nat) : Prop :=
  (scan.stateAt n).mcu.id.endOfImageQ = false

/-- The image was not over before. -/
theorem ImageOpen.before
    {n : Nat}
    (imageOpen : ImageOpen scan (n + 1)) :
    ImageOpen scan n := by
  rw [ImageOpen, Bool.eq_false_iff]
  intro ended
  have stays : (scan.stateAt (n + 1)).mcu.id.endOfImageQ = true := by
    rw [mcu_succ, step_counter (scan.runs n)]
    exact endOfImageQ_step (scan.noReset n) (scan.noStart n) ended
  rw [imageOpen] at stays
  cases stays

/-- An idle decoder emits nothing before the end of the image. -/
theorem idle_silent
    {n : Nat}
    (imageOpen : ImageOpen scan n)
    (isIdle : (scan.stateAt n).mcu.stateQ = .idle) :
    scan.emits n = false ∧ scan.ends n = false := by
  have noPush : (scan.stateAt n).mcu.pushQ = false := by
    rw [Bool.eq_false_iff]
    intro push
    have ended := ((scan.ordered n).idle isIdle).2 push
    rw [imageOpen] at ended
    cases ended
  exact ⟨by simp [emits, outportValid, noPush],
    by simp [ends, outportEob, isIdle]⟩

/-- An idle decoder without an end pulse behind it was idle before. -/
theorem idle_before
    {n : Nat}
    (imageOpen : ImageOpen scan (n + 1))
    (isIdle : (scan.stateAt (n + 1)).mcu.stateQ = .idle)
    (noEnd : scan.ends n = false) :
    (scan.stateAt n).mcu.stateQ = .idle := by
  rw [mcu_succ] at isIdle
  cases moves (s := (scan.stateAt n).mcu) (scan.runs n) with
  | wait here => exact here
  | start here => exact here
  | startEof here => exact here
  | close here =>
      simp [ends, outportEob, here] at noEnd
  | leave here =>
      have ended := ((scan.ordered n).behind here).2
      rw [imageOpen.before] at ended
      cases ended
  | fill _ there | starve _ there | lookUp _ there | emit _ there =>
      rw [isIdle] at there
      cases there
  | seek _ there =>
      rw [isIdle] at there
      rcases there with there | there <;> cases there

/-- Without an end pulse in the first stage there is no sample there. -/
theorem inport_silent
    {n : Nat}
    (imageOpen : ImageOpen scan n)
    (isIdle : (scan.stateAt n).mcu.stateQ = .idle)
    (noEnd : (scan.stateAt n).dqt.inport.eobQ = false) :
    (scan.stateAt n).dqt.inport.validQ = false := by
  cases n with
  | zero => exact scan.clean.inportEmpty.1
  | succ n =>
      rw [inport_succ] at noEnd ⊢
      exact (idle_silent imageOpen.before
        (idle_before imageOpen isIdle noEnd)).1

/-- Without an end pulse in either stage there is no sample in them. -/
theorem outport_silent
    {n : Nat}
    (imageOpen : ImageOpen scan n)
    (isIdle : (scan.stateAt n).mcu.stateQ = .idle)
    (noEnd : (scan.stateAt n).dqt.inport.eobQ = false)
    (noEndOut : (scan.stateAt n).dqt.outport.eobQ = false) :
    (scan.stateAt n).dqt.outport.validQ = false := by
  cases n with
  | zero => exact scan.clean.outportEmpty.1
  | succ n =>
      rw [inport_succ] at noEnd
      rw [outport_succ] at noEndOut ⊢
      exact inport_silent imageOpen.before
        (idle_before imageOpen isIdle noEnd) noEndOut

end Before

/-! ## During a block -/

section During

variable {scan} {start n : Nat}

/-- What a block finds where it starts. -/
structure Prepared (scan : Scan) (start : Nat) : Prop where
  imageOpen : ImageOpen scan start
  isIdle : (scan.stateAt start).mcu.stateQ = .idle
  accepts : scan.accepts start = true
  inportEmpty :
    (scan.stateAt start).dqt.inport.validQ = false ∧
      (scan.stateAt start).dqt.inport.eobQ = false
  outportEmpty :
    (scan.stateAt start).dqt.outport.validQ = false ∧
      (scan.stateAt start).dqt.outport.eobQ = false
  busy : Busy (scan.stateAt (start + 1)).mcu

/-- A block finds the pipeline empty and its slot free. -/
theorem Begins.prepared (begins : scan.Begins start) :
    Prepared scan start := by
  have isIdle := idle_of_start begins.1
  obtain ⟨busy, imageOpen, space, -⟩ :=
    start_of_unmarked (scan.ordered start) (scan.runs start) begins.1
      begins.2
  have flag : (JpegIdctRam.inportAccept (scan.stateAt start).ram &&
      !((scan.stateAt start).dqt.outport.eobQ ||
        (scan.stateAt start).dqt.inport.eobQ)) = true := space
  rw [Bool.and_eq_true, Bool.not_eq_true', Bool.or_eq_false_iff] at flag
  obtain ⟨accepts, noEndOut, noEnd⟩ := flag
  exact
    { imageOpen := imageOpen
      isIdle := isIdle
      accepts := accepts
      inportEmpty := ⟨inport_silent imageOpen isIdle noEnd, noEnd⟩
      outportEmpty :=
        ⟨outport_silent imageOpen isIdle noEnd noEndOut, noEndOut⟩
      busy := busy }

/-- Without an end pulse a block is not at its end. -/
theorem notEnding_of_quiet (quiet : scan.ends n = false) :
    (scan.stateAt n).mcu.stateQ ≠ .eob := by
  intro ending
  simp [ends, outportEob, ending] at quiet

/-- An end pulse is that of a block or of the blocks behind the image. -/
theorem ending_or_eof (ended : scan.ends n = true) :
    (scan.stateAt n).mcu.stateQ = .eob ∨
      (scan.stateAt n).mcu.stateQ = .eof := by
  rw [ends, outportEob, Bool.or_eq_true, Bool.and_eq_true, beq_iff_eq,
    beq_iff_eq] at ended
  exact ended.imp id And.left

/-- A block of the image gives its end pulse at its end. -/
theorem ending_of_busy
    (busy : Busy (scan.stateAt n).mcu)
    (ended : scan.ends n = true) :
    (scan.stateAt n).mcu.stateQ = .eob := by
  rcases ending_or_eof ended with ending | isEof
  · exact ending
  · simp [Busy, isEof] at busy

/-- A block goes on under its id until its end pulse. -/
theorem busy_until
    (begins : scan.Begins start)
    (after : start < n)
    (noEnd : ∀ m, start < m → m < n → scan.ends m = false) :
    Busy (scan.stateAt n).mcu ∧
      (scan.stateAt n).mcu.id = (scan.stateAt (start + 1)).mcu.id := by
  induction after with
  | refl => exact ⟨begins.prepared.busy, rfl⟩
  | step later inductionHypothesis =>
      rename_i m
      obtain ⟨busy, sameId⟩ :=
        inductionHypothesis fun k first last => noEnd k first (by omega)
      have next := busy.step (scan.ordered m) (scan.runs m)
        (notEnding_of_quiet (noEnd m later (by omega)))
      exact ⟨next.1, next.2.trans sameId⟩

/-- No block starts before the end pulse of another. -/
theorem inBlock_until
    (begins : scan.Begins start)
    (after : start < n)
    (noEnd : ∀ m, start < m → m < n → scan.ends m = false) :
    scan.InBlock start n := by
  refine ⟨after, fun m first last => ?_⟩
  have busy := (busy_until begins first fun k early late =>
    noEnd k early (by omega)).1
  rw [Bool.eq_false_iff]
  intro starts
  have isIdle := idle_of_start starts
  simp [Busy, isIdle] at busy

/-- The first end pulse behind the start of a block is the block's. -/
theorem first_end
    (begins : scan.Begins start)
    (after : start < n)
    (ended : scan.ends n = true) :
    ∃ sent, sent ≤ n ∧ scan.InBlock start sent ∧ scan.ends sent = true ∧
      ∀ m, start < m → m < sent → scan.ends m = false := by
  have endsSomewhere : ∃ sent, start < sent ∧ scan.ends sent = true :=
    ⟨n, after, ended⟩
  have noEnd : ∀ m, start < m → m < Nat.find endsSomewhere →
      scan.ends m = false := by
    intro m first last
    rw [Bool.eq_false_iff]
    exact fun isEnd => Nat.find_min endsSomewhere last ⟨first, isEnd⟩
  exact ⟨Nat.find endsSomewhere, Nat.find_min' endsSomewhere ⟨after, ended⟩,
    inBlock_until begins (Nat.find_spec endsSomewhere).1 noEnd,
    (Nat.find_spec endsSomewhere).2, noEnd⟩

/-- Behind its end pulse a block is silent. -/
theorem silent_behind
    {sent : Nat}
    (begins : scan.Begins start)
    (inBlock : scan.InBlock start n)
    (sentAfter : start < sent)
    (ended : scan.ends sent = true)
    (noEnd : ∀ m, start < m → m < sent → scan.ends m = false)
    (behind : sent < n) :
    (scan.stateAt n).mcu.stateQ = .idle ∧
      (scan.stateAt n).mcu.pushQ = false := by
  have ending :=
    ending_of_busy (busy_until begins sentAfter noEnd).1 ended
  induction behind with
  | refl => exact idle_of_ending (scan.runs sent) ending
  | step later inductionHypothesis =>
      rename_i m
      have reached : sent < m := later
      have before := inductionHypothesis
        ⟨by omega, fun k first last => inBlock.2 k first (by omega)⟩
      exact idle_of_wait (scan.runs m) before.1
        (inBlock.2 m (by omega) (by omega))

/-- What a block emits it emits before or with its end pulse. -/
theorem before_end
    (begins : scan.Begins start)
    (inBlock : scan.InBlock start n)
    (event : scan.emits n = true ∨ scan.ends n = true) :
    ∀ m, start < m → m < n → scan.ends m = false := by
  intro m first last
  rw [Bool.eq_false_iff]
  intro isEnd
  obtain ⟨sent, early, inside, ended, noEnd⟩ := first_end begins first isEnd
  obtain ⟨isIdle, noPush⟩ :=
    silent_behind begins inBlock inside.1 ended noEnd (by omega)
  rcases event with isSample | isEnd
  · simp [emits, outportValid, noPush] at isSample
  · simp [ends, outportEob, isIdle] at isEnd

/-- What arrives behind the start of a block was emitted behind it. -/
theorem arrival
    (begins : scan.Begins start)
    (after : start ≤ n)
    (arrived :
      (scan.stateAt n).dqt.outport.validQ = true ∨
        (scan.stateAt n).dqt.outport.eobQ = true) :
    ∃ sent, n = sent + 2 ∧ start < sent ∧
      scan.emits sent = (scan.stateAt n).dqt.outport.validQ ∧
      scan.ends sent = (scan.stateAt n).dqt.outport.eobQ := by
  have prepared := begins.prepared
  obtain ⟨distance, rfl⟩ := Nat.exists_eq_add_of_le after
  match distance with
  | 0 =>
      rw [Nat.add_zero, prepared.outportEmpty.1,
        prepared.outportEmpty.2] at arrived
      simp at arrived
  | 1 =>
      rw [outport_succ] at arrived
      simp only [prepared.inportEmpty, Bool.false_eq_true,
        or_self] at arrived
  | distance + 2 =>
      obtain ⟨sample, pulse⟩ := scan.arrives (start + distance)
      refine ⟨start + distance, rfl, ?_, sample.symm, pulse.symm⟩
      rcases Nat.eq_zero_or_pos distance with rfl | positive
      · have silent : scan.emits (start + 0) = false ∧
            scan.ends (start + 0) = false :=
          idle_silent prepared.imageOpen prepared.isIdle
        rw [Nat.zero_add, sample, pulse, silent.1, silent.2] at arrived
        simp at arrived
      · omega

end During

/-! ## Slots -/

section Slots

variable {scan} {start n : Nat}

/-- The pins of the buffer in a cycle. -/
def ramPins (scan : Scan) (n : Nat) : JpegIdctRam.Input :=
  (scan.stateAt n).ramInput (scan.cycles n)

/-- The slot to be filled moves on with an end pulse that is accepted. -/
theorem slotAt_succ (n : Nat) :
    scan.slotAt (n + 1) =
      if (scan.stateAt n).dqt.outport.eobQ && scan.accepts n then
        scan.slotAt n + 1
      else scan.slotAt n :=
  JpegIdctRam.blockWrQ_step _ (scan.noReset n) (scan.noStart n)

/-- A slot is ready from its end pulse to its last read. -/
theorem ready_succ (n : Nat) (slot : BitVec 2) :
    (scan.stateAt (n + 1)).ram.blockReadyQ slot =
      JpegIdctRam.blockReadyNext (scan.stateAt n).ram (scan.ramPins n)
        slot :=
  JpegIdctRam.blockReadyQ_step _ (scan.noReset n) (scan.noStart n) slot

/-- Only ready slots are read. -/
theorem readsReady (n : Nat) :
    JpegIdctRam.ReadsReady (scan.stateAt n).ram :=
  @trace_invariant State Cycle (State.step scan.frame)
    (fun s => JpegIdctRam.ReadsReady s.ram) scan.first scan.cycles
    (fun reads => absurd scan.clean.notReading reads)
    (fun m ready => ready.step (scan.noReset m) (scan.noStart m)) n

/-- A slot that is read out was ready. -/
theorem ReadOut.ready
    {slot : BitVec 2}
    (readOut : scan.ReadOut slot n) :
    (scan.stateAt n).ram.blockReadyQ slot = true := by
  rw [← readOut.2]
  exact (readsReady n).done readOut.1

/-- The buffer accepts while the slot to be filled is not ready. -/
theorem accepts_iff :
    scan.accepts n = true ↔
      (scan.stateAt n).ram.blockReadyQ (scan.slotAt n) = false := by
  simp [accepts, JpegIdctRam.inportAccept, slotAt]

/-- A slot that no end pulse reaches stays free. -/
theorem free_succ
    {slot : BitVec 2}
    (free : (scan.stateAt n).ram.blockReadyQ slot = false)
    (noPulse :
      ¬ ((scan.stateAt n).dqt.outport.eobQ = true ∧
        scan.accepts n = true ∧ slot = scan.slotAt n)) :
    (scan.stateAt (n + 1)).ram.blockReadyQ slot = false := by
  rw [ready_succ, JpegIdctRam.blockReadyNext]
  split
  · rfl
  · split
    · rename_i pulse
      simp only [Bool.and_eq_true, beq_iff_eq, and_assoc] at pulse
      exact absurd pulse noPulse
    · exact free

/-- A slot that is not read out stays ready. -/
theorem ready_kept
    {slot : BitVec 2}
    (ready : (scan.stateAt n).ram.blockReadyQ slot = true)
    (unread : ¬ scan.ReadOut slot n) :
    (scan.stateAt (n + 1)).ram.blockReadyQ slot = true := by
  rw [ready_succ, JpegIdctRam.blockReadyNext]
  split
  · rename_i done
    rw [Bool.and_eq_true, beq_iff_eq] at done
    exact absurd ⟨done.1, done.2.symm⟩ unread
  · split
    · rfl
    · exact ready

/-- The slot of an end pulse that is accepted becomes ready. -/
theorem ready_of_pulse
    (pulse : (scan.stateAt n).dqt.outport.eobQ = true)
    (accepts : scan.accepts n = true) :
    (scan.stateAt (n + 1)).ram.blockReadyQ (scan.slotAt n) = true := by
  have unread : ¬ scan.ReadOut (scan.slotAt n) n := by
    intro readOut
    have ready := readOut.ready
    rw [accepts_iff.mp accepts] at ready
    cases ready
  rw [ready_succ, JpegIdctRam.blockReadyNext]
  split
  · rename_i done
    rw [Bool.and_eq_true, beq_iff_eq] at done
    exact absurd ⟨done.1, done.2.symm⟩ unread
  · refine if_pos ?_
    simp only [Bool.and_eq_true, beq_iff_eq]
    exact ⟨⟨pulse, accepts⟩, rfl⟩

/-- Until its end pulse arrives a block's slot accepts its samples. -/
theorem slot_open
    (begins : scan.Begins start)
    (after : start ≤ n)
    (noEnd : ∀ m, start < m → m + 2 < n → scan.ends m = false) :
    scan.accepts n = true ∧ scan.slotAt n = scan.slotAt start := by
  induction after with
  | refl => exact ⟨begins.prepared.accepts, rfl⟩
  | step later inductionHypothesis =>
      rename_i m
      have reached : start ≤ m := later
      obtain ⟨accepts, same⟩ :=
        inductionHypothesis fun k first last => noEnd k first (by omega)
      have noPulse : (scan.stateAt m).dqt.outport.eobQ = false := by
        rw [Bool.eq_false_iff]
        intro pulse
        obtain ⟨sent, rfl, behind, -, isEnd⟩ :=
          arrival begins reached (.inr pulse)
        rw [noEnd sent behind (by omega), pulse] at isEnd
        cases isEnd
      have slot : scan.slotAt (m + 1) = scan.slotAt m := by
        rw [slotAt_succ, noPulse]
        rfl
      refine ⟨?_, slot.trans same⟩
      rw [accepts_iff, slot]
      refine free_succ (accepts_iff.mp accepts) fun pulse => ?_
      rw [noPulse] at pulse
      cases pulse.1

end Slots

/-! ## Coefficients in the slots -/

section Coefficients

variable {scan} {start n : Nat} {slot : BitVec 2} {idx : BitVec 6}

/-- The sample that arrives is written to this coefficient. -/
theorem writes_iff :
    JpegIdctRam.Writes (scan.stateAt n).ram (scan.ramPins n) slot idx ↔
      scan.Enters slot n ∧ idx = (scan.stateAt n).dqt.outport.idxQ := by
  constructor
  · rintro ⟨valid, accepts, rfl, isIdx⟩
    exact ⟨⟨valid, accepts, rfl⟩, isIdx⟩
  · rintro ⟨⟨valid, accepts, rfl⟩, isIdx⟩
    exact ⟨valid, accepts, rfl, isIdx⟩

/-- A sample that enters a slot is stored at its index. -/
theorem stored_entered (enters : scan.Enters slot n) :
    scan.storedAt slot (n + 1) (scan.stateAt n).dqt.outport.idxQ =
      some (scan.stateAt n).dqt.outport.dataQ :=
  (JpegIdctRam.stored_step _ (scan.noReset n) (scan.noStart n) slot _).1
    (writes_iff.mpr ⟨enters, rfl⟩)

/-- Other coefficients of a slot that is not read out stay as they are. -/
theorem stored_kept
    (other :
      ¬ (scan.Enters slot n ∧
        idx = (scan.stateAt n).dqt.outport.idxQ))
    (unread : ¬ scan.ReadOut slot n) :
    scan.storedAt slot (n + 1) idx = scan.storedAt slot n idx := by
  refine (JpegIdctRam.stored_step _ (scan.noReset n) (scan.noStart n) slot
    idx).2.2 (mt writes_iff.mp other) fun done => ?_
  exact unread ⟨done.1, done.2.symm⟩

/-- A slot without coefficients has none behind a cycle without samples. -/
theorem empty_succ
    (noSample : ¬ scan.Enters slot n)
    (before :
      scan.ReadOut slot n ∨ ∀ idx, scan.storedAt slot n idx = none) :
    ∀ idx, scan.storedAt slot (n + 1) idx = none := by
  intro idx
  by_cases readOut : scan.ReadOut slot n
  · exact (JpegIdctRam.stored_step _ (scan.noReset n) (scan.noStart n) slot
      idx).2.1 (fun writes => noSample (writes_iff.mp writes).1)
      ⟨readOut.1, readOut.2.symm⟩
  · rcases before with isReadOut | empty
    · exact absurd isReadOut readOut
    · rw [stored_kept (fun enters => noSample enters.1) readOut, empty idx]

/-! ## Between blocks -/

/-- Before the end of the image: end pulses are apart and find free slots. -/
structure Handed (scan : Scan) (n : Nat) : Prop where
  accepting :
    (scan.stateAt n).mcu.stateQ ≠ .idle ∨
        (scan.stateAt n).dqt.inport.eobQ = true ∨
        (scan.stateAt n).dqt.outport.eobQ = true →
      scan.accepts n = true
  inportEnd :
    (scan.stateAt n).dqt.inport.eobQ = true →
      (scan.stateAt n).mcu.stateQ = .idle ∧
        (scan.stateAt n).dqt.outport.eobQ = false
  outportEnd :
    (scan.stateAt n).dqt.outport.eobQ = true →
      (scan.stateAt n).mcu.stateQ = .idle ∧
        (scan.stateAt n).dqt.inport.eobQ = false

/-- A block that starts before the end of the image has space. -/
theorem space_of_busy
    (imageOpen : ImageOpen scan n)
    (isIdle : (scan.stateAt n).mcu.stateQ = .idle)
    (notIdle : (scan.stateAt (n + 1)).mcu.stateQ ≠ .idle) :
    scan.accepts n = true ∧ (scan.stateAt n).dqt.outport.eobQ = false ∧
      (scan.stateAt n).dqt.inport.eobQ = false := by
  have space : (JpegIdctRam.inportAccept (scan.stateAt n).ram &&
      !((scan.stateAt n).dqt.outport.eobQ ||
        (scan.stateAt n).dqt.inport.eobQ)) = true := by
    cases moves (s := (scan.stateAt n).mcu) (scan.runs n) with
    | start _ _ _ _ space => exact space
    | wait _ there => exact absurd there notIdle
    | startEof _ _ _ ended =>
        rw [imageOpen] at ended
        cases ended
    | fill here | starve here | lookUp here | seek here | emit here
    | close here | leave here =>
        rw [isIdle] at here
        cases here
  rw [Bool.and_eq_true, Bool.not_eq_true', Bool.or_eq_false_iff] at space
  exact space

/-- An end pulse before the end of the image is the one of a block. -/
theorem ending_of_ends
    (imageOpen : ImageOpen scan n)
    (ended : scan.ends n = true) :
    (scan.stateAt n).mcu.stateQ = .eob := by
  rcases ending_or_eof ended with ending | isEof
  · exact ending
  · have past := ((scan.ordered n).behind isEof).2
    rw [imageOpen] at past
    cases past

/-- End pulses stay apart and find free slots. -/
theorem handed (imageOpen : ImageOpen scan n) : Handed scan n := by
  induction n with
  | zero =>
      have clean := scan.clean
      refine ⟨fun _ => accepts_iff.mpr (clean.noneReady _), fun pulse => ?_,
        fun pulse => ?_⟩
      · rw [show (scan.stateAt 0).dqt.inport.eobQ = false from
          clean.inportEmpty.2] at pulse
        cases pulse
      · rw [show (scan.stateAt 0).dqt.outport.eobQ = false from
          clean.outportEmpty.2] at pulse
        cases pulse
  | succ n inductionHypothesis =>
      have before := inductionHypothesis imageOpen.before
      have first : (scan.stateAt (n + 1)).dqt.inport.eobQ = scan.ends n := by
        rw [inport_succ]
      have second : (scan.stateAt (n + 1)).dqt.outport.eobQ =
          (scan.stateAt n).dqt.inport.eobQ := by
        rw [outport_succ]
      have waits (busy : (scan.stateAt n).dqt.outport.eobQ = true ∨
          (scan.stateAt n).dqt.inport.eobQ = true)
          (isIdle : (scan.stateAt n).mcu.stateQ = .idle) :
          (scan.stateAt (n + 1)).mcu.stateQ = .idle := by
        by_contra notIdle
        obtain ⟨-, noOut, noIn⟩ :=
          space_of_busy imageOpen.before isIdle notIdle
        rw [noOut, noIn] at busy
        simp at busy
      refine ⟨fun underway => ?_, fun pulse => ?_, fun pulse => ?_⟩
      · rw [first, second] at underway
        have noPulse : (scan.stateAt n).dqt.outport.eobQ = false := by
          rw [Bool.eq_false_iff]
          intro pulse
          obtain ⟨isIdle, noIn⟩ := before.outportEnd pulse
          rw [waits (.inl pulse) isIdle, noIn,
            (idle_silent imageOpen.before isIdle).2] at underway
          simp at underway
        have accepts : scan.accepts n = true := by
          by_cases isIdle : (scan.stateAt n).mcu.stateQ = .idle
          · rcases underway with notIdle | isEnd | isIn
            · exact (space_of_busy imageOpen.before isIdle notIdle).1
            · rw [(idle_silent imageOpen.before isIdle).2] at isEnd
              cases isEnd
            · exact before.accepting (.inr (.inl isIn))
          · exact before.accepting (.inl isIdle)
        rw [accepts_iff, slotAt_succ, noPulse]
        refine free_succ (accepts_iff.mp accepts) fun pulse => ?_
        rw [noPulse] at pulse
        cases pulse.1
      · have ending := ending_of_ends imageOpen.before (first.symm.trans pulse)
        refine ⟨(idle_of_ending (scan.runs n) ending).1, ?_⟩
        rw [second, Bool.eq_false_iff]
        intro isIn
        rw [(before.inportEnd isIn).1] at ending
        cases ending
      · rw [second] at pulse
        have isIdle := (before.inportEnd pulse).1
        refine ⟨waits (.inr pulse) isIdle, ?_⟩
        rw [first]
        exact (idle_silent imageOpen.before isIdle).2

/-- Before the end of the image: free slots are empty. -/
structure Swept (scan : Scan) (n : Nat) : Prop where
  others :
    ∀ slot, slot ≠ scan.slotAt n →
      (scan.stateAt n).ram.blockReadyQ slot = false →
        ∀ idx, scan.storedAt slot n idx = none
  /-- The slot to be filled is empty as long as no block is under way. -/
  own :
    (scan.stateAt n).mcu.stateQ = .idle →
      (scan.stateAt n).dqt.inport.eobQ = false →
      (scan.stateAt n).dqt.outport.eobQ = false →
      scan.accepts n = true →
        ∀ idx, scan.storedAt (scan.slotAt n) n idx = none

/-- A slot other than the one to be filled is empty when it becomes free. -/
theorem Swept.other_succ
    (swept : Swept scan n)
    (other : slot ≠ scan.slotAt n)
    (free : (scan.stateAt (n + 1)).ram.blockReadyQ slot = false) :
    ∀ idx, scan.storedAt slot (n + 1) idx = none := by
  refine empty_succ (fun enters => other enters.2.2.symm) ?_
  by_cases readOut : scan.ReadOut slot n
  · exact .inl readOut
  · refine .inr (swept.others slot other ?_)
    rw [Bool.eq_false_iff]
    intro ready
    rw [ready_kept ready readOut] at free
    cases free

/-- Free slots are empty until the end of the image. -/
theorem swept (imageOpen : ImageOpen scan n) : Swept scan n := by
  induction n with
  | zero =>
      exact ⟨fun slot _ _ idx => scan.clean.noneStored slot idx,
        fun _ _ _ _ idx => scan.clean.noneStored _ idx⟩
  | succ n inductionHypothesis =>
      have before := inductionHypothesis imageOpen.before
      have hand := handed imageOpen.before
      by_cases moves : (scan.stateAt n).dqt.outport.eobQ = true ∧
          scan.accepts n = true
      · have next : scan.slotAt (n + 1) = scan.slotAt n + 1 := by
          rw [slotAt_succ, moves.1, moves.2]
          rfl
        have behind : scan.slotAt n + 1 ≠ scan.slotAt n := by
          generalize scan.slotAt n = slot
          revert slot
          decide
        constructor
        · intro slot other free
          refine before.other_succ ?_ free
          rintro rfl
          rw [ready_of_pulse moves.1 moves.2] at free
          cases free
        · intro _ _ _ accepts
          rw [accepts_iff, next] at accepts
          rw [next]
          exact before.other_succ behind accepts
      · have same : scan.slotAt (n + 1) = scan.slotAt n := by
          rw [slotAt_succ]
          refine if_neg ?_
          rwa [Bool.and_eq_true]
        constructor
        · intro slot other free
          rw [same] at other
          exact before.other_succ other free
        · intro isIdle noIn noOut accepts
          rw [inport_succ] at noIn
          rw [outport_succ] at noOut
          have wasIdle := idle_before imageOpen isIdle noIn
          have noPulse : (scan.stateAt n).dqt.outport.eobQ = false := by
            rw [Bool.eq_false_iff]
            exact fun pulse =>
              moves ⟨pulse, hand.accepting (.inr (.inr pulse))⟩
          have silent :=
            outport_silent imageOpen.before wasIdle noOut noPulse
          rw [same]
          refine empty_succ (fun enters => ?_) ?_
          · have valid := enters.1
            rw [silent] at valid
            cases valid
          · by_cases readOut : scan.ReadOut (scan.slotAt n) n
            · exact .inl readOut
            · refine .inr (before.own wasIdle noOut noPulse ?_)
              rw [accepts_iff, Bool.eq_false_iff]
              intro ready
              rw [accepts_iff, same, ready_kept ready readOut] at accepts
              cases accepts

end Coefficients

/-! ## One block -/

section OneBlock

variable {scan} {start : Nat}

/-- A slot that is unread for some time is unread for a shorter one. -/
theorem Unread.shorter
    {slot : BitVec 2} {first last n : Nat}
    (unread : scan.Unread slot first last)
    (earlier : n ≤ last) :
    scan.Unread slot first n :=
  fun m after before => unread m after (by omega)

/-- A sample of a block arrives in its slot. -/
theorem sample_enters
    (begins : scan.Begins start)
    {n : Nat}
    (inBlock : scan.InBlock start n)
    (isSample : scan.emits n = true) :
    scan.Enters (scan.slotAt start) (n + 2) := by
  have noEnd := before_end begins inBlock (.inl isSample)
  obtain ⟨accepts, slot⟩ := slot_open begins (n := n + 2)
    (by have after := inBlock.1; omega)
    fun m first last => noEnd m first (by omega)
  exact ⟨(scan.arrives n).1.trans isSample, accepts, slot⟩

/-- The end pulse of a block arrives in its slot. -/
theorem end_enters
    (begins : scan.Begins start)
    {n : Nat}
    (inBlock : scan.InBlock start n)
    (ended : scan.ends n = true) :
    (scan.stateAt (n + 2)).dqt.outport.eobQ = true ∧
      scan.accepts (n + 2) = true ∧
      scan.slotAt (n + 2) = scan.slotAt start := by
  have noEnd := before_end begins inBlock (.inr ended)
  obtain ⟨accepts, slot⟩ := slot_open begins (n := n + 2)
    (by have after := inBlock.1; omega)
    fun m first last => noEnd m first (by omega)
  exact ⟨(scan.arrives n).2.trans ended, accepts, slot⟩

/-- Behind the end pulse the slot is ready until it is read out. -/
theorem ready_behind
    (begins : scan.Begins start)
    {sent n : Nat}
    (inBlock : scan.InBlock start sent)
    (ended : scan.ends sent = true)
    (behind : sent + 2 < n)
    (unread : scan.Unread (scan.slotAt start) start n) :
    (scan.stateAt n).ram.blockReadyQ (scan.slotAt start) = true := by
  obtain ⟨pulse, accepts, slot⟩ := end_enters begins inBlock ended
  have first := ready_of_pulse pulse accepts
  rw [slot] at first
  have after := inBlock.1
  exact @trace_until State Cycle (State.step scan.frame)
    (fun s => s.ram.blockReadyQ (scan.slotAt start) = true)
    (fun m => ¬ scan.ReadOut (scan.slotAt start) m)
    scan.first scan.cycles (sent + 3) n first
    (fun m _ notRead ready => ready_kept ready notRead) behind
    fun m early late => unread m (by omega) late

/-- Only samples of the block enter its slot before it is read out. -/
theorem slot_kept
    (begins : scan.Begins start)
    {n : Nat}
    (after : start ≤ n)
    (unread : scan.Unread (scan.slotAt start) start n)
    (enters : scan.Enters (scan.slotAt start) n) :
    ∃ sent, n = sent + 2 ∧ scan.InBlock start sent ∧
      scan.emits sent = true := by
  obtain ⟨sent, rfl, behind, isSample, -⟩ :=
    arrival begins after (.inl enters.1)
  refine ⟨sent, rfl, inBlock_until begins behind fun m first last => ?_,
    isSample.trans enters.1⟩
  rw [Bool.eq_false_iff]
  intro ended
  obtain ⟨pulse, early, inBlock, isEnd, -⟩ := first_end begins first ended
  have ready := ready_behind begins inBlock isEnd (by omega) unread
  have accepts := accepts_iff.mp enters.2.1
  rw [enters.2.2, ready] at accepts
  cases accepts

/-- The slot is not read out before the end pulse has arrived. -/
theorem read_behind_end
    (begins : scan.Begins start)
    {n : Nat}
    (after : start ≤ n)
    (readOut : scan.ReadOut (scan.slotAt start) n) :
    ∃ sent, sent + 2 < n ∧ scan.InBlock start sent ∧
      scan.ends sent = true := by
  by_contra endless
  have noEnd : ∀ m, start < m → m + 2 < n → scan.ends m = false := by
    intro m first last
    rw [Bool.eq_false_iff]
    intro ended
    obtain ⟨sent, early, inBlock, isEnd, -⟩ := first_end begins first ended
    exact endless ⟨sent, by omega, inBlock, isEnd⟩
  obtain ⟨accepts, slot⟩ := slot_open begins after noEnd
  have free := accepts_iff.mp accepts
  rw [slot, readOut.ready] at free
  cases free

/-! ## Values -/

/-- What a block emits carries its id. -/
theorem id_kept
    (begins : scan.Begins start)
    {n : Nat}
    (inBlock : scan.InBlock start n)
    (event : scan.emits n = true ∨ scan.ends n = true) :
    outportId (scan.stateAt n).mcu = scan.blockId start ∧
      (scan.stateAt n).mcu.id.blockTypeQ = scan.blockType start := by
  have same := (busy_until begins inBlock.1
    (before_end begins inBlock event)).2
  exact ⟨congrArg IdState.blockId same, congrArg IdState.blockTypeQ same⟩

/-- A sample arrives at its place, multiplied by its quantiser. -/
theorem product_arrives
    (begins : scan.Begins start)
    {n : Nat}
    (inBlock : scan.InBlock start n)
    (isSample : scan.emits n = true) :
    (scan.stateAt (n + 2)).dqt.outport.idxQ =
        JpegDqt.dezigzag (outportIdx (scan.stateAt n).mcu) ∧
      (scan.stateAt (n + 2)).dqt.outport.dataQ =
        outportData (scan.stateAt n).mcu *
          (scan.quantiser start (outportIdx (scan.stateAt n).mcu)).setWidth
            16 := by
  have type := (id_kept begins inBlock (.inl isSample)).2
  rw [outport_succ, inport_succ, dqtEntry_succ, type]
  exact ⟨rfl, rfl⟩

/--
From the sample behind its first code on, the first stage holds the id of the
block.
-/
theorem id_held
    {n : Nat}
    (busy : Busy (scan.stateAt n).mcu)
    (later : (scan.stateAt n).mcu.firstQ = false)
    (behind :
      (scan.stateAt n).mcu.pushQ = true →
        (scan.stateAt n).mcu.coeffIdxQ ≠ 0) :
    (scan.stateAt n).dqt.inport.idQ = outportId (scan.stateAt n).mcu := by
  induction n with
  | zero =>
      rw [Busy, show (scan.stateAt 0).mcu.stateQ = .idle from
        scan.clean.waiting] at busy
      simp at busy
  | succ n inductionHypothesis =>
      have held (wasBusy : Busy (scan.stateAt n).mcu)
          (notEnding : (scan.stateAt n).mcu.stateQ ≠ .eob)
          (wasLater : (scan.stateAt n).mcu.firstQ = false) :
          (scan.stateAt (n + 1)).dqt.inport.idQ =
            outportId (scan.stateAt (n + 1)).mcu := by
        have same := (wasBusy.step (scan.ordered n) (scan.runs n)
          notEnding).2
        have sameId : outportId (scan.stateAt (n + 1)).mcu =
            outportId (scan.stateAt n).mcu :=
          congrArg IdState.blockId same
        rw [inport_succ, sameId]
        cases isSample : scan.emits n with
        | true => rfl
        | false =>
            refine inductionHypothesis wasBusy wasLater fun push isZero => ?_
            simp [emits, outportValid, push, isZero] at isSample
      cases moves (s := (scan.stateAt n).mcu) (scan.runs n) with
      | wait _ there | startEof _ there | close _ there =>
          rw [Busy, mcu_succ, there] at busy
          simp at busy
      | leave _ there =>
          rw [Busy, mcu_succ] at busy
          rcases there with there | there <;> simp [there] at busy
      | start _ _ _ _ _ _ _ first =>
          rw [mcu_succ, first] at later
          cases later
      | fill here _ _ _ first | starve here _ _ _ first
      | lookUp here _ _ _ _ first =>
          rw [mcu_succ, first] at later
          exact held (.inl here) (by simp [here]) later
      | seek here _ _ _ first =>
          rw [mcu_succ, first] at later
          exact held (.inr (.inl here)) (by simp [here]) later
      | emit here _ dc _ push _ =>
          refine held (.inr (.inr (.inl here))) (by simp [here]) ?_
          rw [Bool.eq_false_iff]
          intro isFirst
          have isZero := ((scan.ordered n).code (.inr here)).2.2.1 isFirst
          exact behind push (dc isZero)

/-- The end pulse arrives with the id of its block. -/
theorem end_id
    (begins : scan.Begins start)
    {n : Nat}
    (inBlock : scan.InBlock start n)
    (ended : scan.ends n = true) :
    (scan.stateAt (n + 2)).dqt.outport.idQ = scan.blockId start := by
  have busy := (busy_until begins inBlock.1
    (before_end begins inBlock (.inr ended))).1
  obtain ⟨noPush, later⟩ :=
    (scan.ordered n).ending (ending_of_busy busy ended)
  have noSample : scan.emits n = false := by
    simp [emits, outportValid, noPush]
  rw [outport_succ, inport_succ, noSample,
    ← (id_kept begins inBlock (.inr ended)).1]
  refine id_held busy later fun push => ?_
  rw [noPush] at push
  cases push

/-- The samples of a block have growing indices. -/
theorem indices_grow
    (begins : scan.Begins start)
    {early late : Nat}
    (inEarly : scan.InBlock start early)
    (inLate : scan.InBlock start late)
    (isEarly : scan.emits early = true)
    (isLate : scan.emits late = true)
    (behind : early < late) :
    (outportIdx (scan.stateAt early).mcu).toNat <
      (outportIdx (scan.stateAt late).mcu).toNat := by
  have noEnd := before_end begins inLate (.inl isLate)
  have busyAt {m : Nat} (after : start < m) (before : m ≤ late) :
      Busy (scan.stateAt m).mcu :=
    (busy_until begins after fun k first last =>
      noEnd k first (by omega)).1
  have passed : Passed (scan.stateAt early).mcu.coeffIdxQ.toNat
      (scan.stateAt late).mcu := by
    refine @trace_until State Cycle (State.step scan.frame)
      (fun s => Passed (scan.stateAt early).mcu.coeffIdxQ.toNat s.mcu)
      (fun m => m < late) scan.first scan.cycles (early + 1) late ?_ ?_ behind
      fun m _ before => before
    · exact passed_of_emits (scan.ordered early) (scan.runs early)
        (busyAt inEarly.1 (by omega)) isEarly
    · intro m after before passed
      have inside : start < m := by
        have first := inEarly.1
        omega
      exact passed.step (scan.ordered m) (scan.runs m)
        (busyAt inside (by omega))
        (notEnding_of_quiet (noEnd m inside before))
  rw [outportIdx_toNat isEarly]
  exact passed.sample (scan.ordered late) (busyAt inLate.1 (le_refl _)) isLate

end OneBlock

/-! ## The slot's contents -/

section Contents

variable {scan} {start : Nat}

/-- `dezigzag` is the table of the software. -/
theorem dezigzag_toNat (idx : BitVec 6) :
    (JpegDqt.dezigzag idx).toNat = Software.zigzagTable.getD idx.toNat 0 := by
  revert idx
  decide +kernel

/-- Different indices have different places. -/
theorem dezigzag_inj
    {first second : BitVec 6}
    (same : JpegDqt.dezigzag first = JpegDqt.dezigzag second) :
    first = second := by
  have undo (idx : BitVec 6) :
      Software.zigzagTable.idxOf (JpegDqt.dezigzag idx).toNat = idx.toNat := by
    revert idx
    decide +kernel
  exact BitVec.eq_of_toNat_eq (by rw [← undo first, same, undo])

/-- A stored sample stays in the slot until the slot is read out. -/
theorem stored_until
    (begins : scan.Begins start)
    {sent n : Nat}
    (inBlock : scan.InBlock start sent)
    (isSample : scan.emits sent = true)
    (behind : sent + 2 < n)
    (unread : scan.Unread (scan.slotAt start) start n) :
    scan.storedAt (scan.slotAt start) n
        (JpegDqt.dezigzag (outportIdx (scan.stateAt sent).mcu)) =
      some (outportData (scan.stateAt sent).mcu *
        (scan.quantiser start
          (outportIdx (scan.stateAt sent).mcu)).setWidth 16) := by
  obtain ⟨place, product⟩ := product_arrives begins inBlock isSample
  have after := inBlock.1
  refine @trace_until State Cycle (State.step scan.frame)
    (fun s => JpegIdctRam.stored s.ram (scan.slotAt start)
        (JpegDqt.dezigzag (outportIdx (scan.stateAt sent).mcu)) =
      some (outportData (scan.stateAt sent).mcu *
        (scan.quantiser start
          (outportIdx (scan.stateAt sent).mcu)).setWidth 16))
    (fun m => scan.Unread (scan.slotAt start) start (m + 1))
    scan.first scan.cycles (sent + 3) n ?_ ?_ behind
    fun m _ before => unread.shorter before
  · rw [← place, ← product]
    exact stored_entered (sample_enters begins inBlock isSample)
  · intro m later notRead holds
    refine (stored_kept ?_ (notRead m (by omega) (by omega))).trans holds
    -- a later sample of the block has a greater index
    rintro ⟨enters, samePlace⟩
    obtain ⟨other, rfl, inOther, isOther⟩ :=
      slot_kept begins (by omega) (notRead.shorter (by omega)) enters
    rw [(product_arrives begins inOther isOther).1] at samePlace
    have grows := indices_grow begins inBlock inOther isSample isOther
      (by omega)
    rw [dezigzag_inj samePlace] at grows
    exact Nat.lt_irrefl _ grows

/-- The slot of a block is empty until the first of its samples arrives. -/
theorem empty_early
    (begins : scan.Begins start)
    {n : Nat}
    (after : start ≤ n)
    (early : n ≤ start + 3) :
    ∀ idx, scan.storedAt (scan.slotAt start) n idx = none := by
  induction after with
  | refl =>
      have prepared := begins.prepared
      exact (swept prepared.imageOpen).own prepared.isIdle
        prepared.inportEmpty.2 prepared.outportEmpty.2 prepared.accepts
  | step later inductionHypothesis =>
      refine empty_succ (fun enters => ?_)
        (.inr (inductionHypothesis (by omega)))
      obtain ⟨sent, rfl, behind, -, -⟩ := arrival begins later (.inl enters.1)
      omega

/-- The samples of a block up to the next cycle. -/
theorem samples_succ
    {n : Nat}
    (after : start ≤ n) :
    scan.samples start (n + 1) =
      scan.samples start n ++ (scan.sampleAt (n + 1)).toList := by
  have count : n + 1 - start = n - start + 1 := by
    omega
  have last : start + 1 + (n - start) = n + 1 := by
    omega
  rw [samples, samples, count, List.range'_1_concat, List.filterMap_append,
    last]
  cases isSample : scan.sampleAt (n + 1) <;> simp [isSample]

/-- One sample of `process_samples` in 16 bits. -/
theorem processSample_ofInt
    (table : BitVec 2) (idx : BitVec 6) (value : BitVec 16)
    (blockOut : Nat → Int) :
    ∃ next,
      Software.processSample scan.tables table.toNat blockOut
          { coeff := idx.toNat, value := value } = .ok next ∧
        ∀ index : BitVec 6,
          BitVec.ofInt 16 (next index.toNat) =
            if index = JpegDqt.dezigzag idx then
              value *
                (scan.first.dqt.loader.entry table idx.toNat).setWidth 16
            else BitVec.ofInt 16 (blockOut index.toNat) := by
  have inside : table.toNat < 4 ∧ idx.toNat < 64 := ⟨table.isLt, idx.isLt⟩
  have quantiser : scan.tables table.toNat idx.toNat =
      scan.first.dqt.loader.entry table idx.toNat := by
    rw [tables, BitVec.ofNat_toNat, BitVec.setWidth_eq]
  have one : Software.processSample scan.tables table.toNat blockOut
      { coeff := idx.toNat, value := value } =
        .ok fun index =>
          if index = Software.zigzagTable.getD idx.toNat 0 then
            value.toInt *
              ((scan.first.dqt.loader.entry table idx.toNat).toNat : Int)
          else blockOut index := by
    simp only [Software.processSample, Software.dqtLookup, inside,
      and_self, if_true, quantiser, bind, Except.bind]
  refine ⟨_, one, fun index => ?_⟩
  simp only [← dezigzag_toNat, BitVec.toNat_inj]
  split
  · rw [BitVec.ofInt_mul, BitVec.ofInt_toInt, BitVec.ofInt_natCast,
      BitVec.ofNat_toNat]
  · rfl

/--
Up to the end pulse, the slot holds what `process_samples` makes of the
samples that have arrived.
-/
theorem processed_so_far
    (begins : scan.Begins start)
    {n : Nat}
    (after : start ≤ n)
    (noEnd : ∀ m, start < m → m < n → scan.ends m = false) :
    ∃ blockOut,
      Software.processSamples scan.tables
          (scan.dqtTable (scan.blockType start)).toNat
          (scan.samples start n) = .ok blockOut ∧
        ∀ idx : BitVec 6,
          (scan.storedAt (scan.slotAt start) (n + 3) idx).getD 0 =
            BitVec.ofInt 16 (blockOut idx.toNat) := by
  induction after with
  | refl =>
      refine ⟨fun _ => 0, ?_, fun idx => ?_⟩
      · rw [samples, Nat.sub_self]
        rfl
      · rw [empty_early begins (by omega) (le_refl _)]
        rfl
  | step later inductionHypothesis =>
      rename_i n
      have reached : start ≤ n := later
      obtain ⟨blockOut, processed, holds⟩ :=
        inductionHypothesis fun m first last => noEnd m first (by omega)
      have unread : ¬ scan.ReadOut (scan.slotAt start) (n + 3) := by
        intro readOut
        obtain ⟨sent, early, inBlock, ended⟩ :=
          read_behind_end begins (by omega) readOut
        rw [noEnd sent inBlock.1 (by omega)] at ended
        cases ended
      have parts : scan.samples start (n + 1) =
          scan.samples start n ++ (scan.sampleAt (n + 1)).toList :=
        samples_succ reached
      cases isSample : scan.emits (n + 1) with
      | true =>
          have inBlock := inBlock_until begins (by omega) noEnd
          obtain ⟨next, one, written⟩ := @processSample_ofInt scan
            (scan.dqtTable (scan.blockType start))
            (outportIdx (scan.stateAt (n + 1)).mcu)
            (outportData (scan.stateAt (n + 1)).mcu) blockOut
          obtain ⟨place, product⟩ := product_arrives begins inBlock isSample
          have enters := sample_enters begins inBlock isSample
          refine ⟨next, ?_, fun idx => ?_⟩
          · rw [parts, sampleAt, if_pos isSample, Option.toList_some,
              Software.processSamples, List.foldlM_append]
            rw [Software.processSamples] at processed
            simp only [processed, bind, Except.bind, List.foldlM_cons,
              List.foldlM_nil, one, pure, Except.pure]
          · rw [written idx]
            split
            · rename_i here
              rw [here, ← place, stored_entered enters, product]
              rfl
            · rename_i elsewhere
              rw [← place] at elsewhere
              rw [stored_kept (fun write => elsewhere write.2) unread]
              exact holds idx
      | false =>
          refine ⟨blockOut, ?_, fun idx => ?_⟩
          · rw [parts, sampleAt, isSample]
            simpa using processed
          · rw [stored_kept (fun write => ?_) unread]
            · exact holds idx
            · have valid := write.1.1
              rw [(scan.arrives (n + 1)).1, isSample] at valid
              cases valid

/-- Behind the end pulse the slot stays what `process_samples` makes of it. -/
theorem processed_until
    (begins : scan.Begins start)
    {sent : Nat}
    (inBlock : scan.InBlock start sent)
    (ended : scan.ends sent = true) :
    ∃ blockOut,
      Software.processSamples scan.tables
          (scan.dqtTable (scan.blockType start)).toNat
          (scan.samples start sent) = .ok blockOut ∧
        ∀ n, sent + 2 < n → scan.Unread (scan.slotAt start) start n →
          ∀ idx : BitVec 6,
            (scan.storedAt (scan.slotAt start) n idx).getD 0 =
              BitVec.ofInt 16 (blockOut idx.toNat) := by
  have after := inBlock.1
  obtain ⟨blockOut, processed, holds⟩ :=
    processed_so_far begins (Nat.le_of_lt after)
      (before_end begins inBlock (.inr ended))
  refine ⟨blockOut, processed, fun n behind unread => ?_⟩
  refine @trace_until State Cycle (State.step scan.frame)
    (fun s => ∀ idx : BitVec 6,
      (JpegIdctRam.stored s.ram (scan.slotAt start) idx).getD 0 =
        BitVec.ofInt 16 (blockOut idx.toNat))
    (fun m => scan.Unread (scan.slotAt start) start (m + 1))
    scan.first scan.cycles (sent + 3) n holds ?_ behind
    fun m _ before => unread.shorter before
  intro m later notRead before idx
  have silent : ¬ scan.Enters (scan.slotAt start) m := by
    intro enters
    obtain ⟨other, rfl, inOther, isOther⟩ :=
      slot_kept begins (by omega) (notRead.shorter (by omega)) enters
    have quiet := before_end begins inOther (.inl isOther) sent after
      (by omega)
    rw [ended] at quiet
    cases quiet
  have same : scan.storedAt (scan.slotAt start) (m + 1) idx =
      scan.storedAt (scan.slotAt start) m idx :=
    stored_kept (fun write => silent write.1)
      (notRead m (by omega) (by omega))
  exact (congrArg (·.getD 0) same).trans (before idx)

end Contents

/-! ## Every block -/

/--
Every block of the image is delivered to one of the four slots, whatever the
bit stream, the Huffman tables and the inverse transform do.
-/
theorem delivers
    (scan : Scan)
    (start : Nat)
    (begins : scan.Begins start) :
    scan.Delivered start (scan.slotAt start) where
  sampleArrives _ inBlock isSample :=
    ⟨sample_enters begins inBlock isSample,
      product_arrives begins inBlock isSample⟩
  idKept _ inBlock event := (id_kept begins inBlock event).1
  endArrives _ inBlock ended := by
    obtain ⟨pulse, accepts, slot⟩ := end_enters begins inBlock ended
    exact ⟨pulse, accepts, slot, end_id begins inBlock ended⟩
  slotKept _ after unread enters := slot_kept begins after unread enters
  readBehindEnd _ after readOut := read_behind_end begins after readOut
  stored _ inBlock isSample _ behind unread :=
    stored_until begins inBlock isSample behind unread
  processed sent inBlock ended := by
    obtain ⟨blockOut, processed, holds⟩ :=
      processed_until begins inBlock ended
    refine ⟨blockOut, processed, fun n behind unread idx =>
      ⟨holds n behind unread idx, fun low high => ?_⟩⟩
    rw [holds n behind unread idx]
    exact BitVec.toInt_ofInt_eq_self (by decide) low high

/--
A grey scan from reset whose code words have two bits: a DC code of three bits
and three AC codes behind one zero each, and blocks of one AC code and none
later on.
-/
def texturedBlocks : Scan where
  frame :=
    { imgWidth := 8
      imgMode := .monochrome
      imgDqtTableY := 0
      imgDqtTableCb := 0
      imgDqtTableCr := 0 }
  first :=
    { mcu := McuProc.reset
      dqt := JpegDqt.reset (fun address => address.setWidth 8 + 2) 0
      ram := JpegIdctRam.reset (fun _ _ => 0) fun _ => 0 }
  cycles n :=
    { rst := false
      imgStart := false
      imgEnd := false
      inportValid := true
      inportData := 0xA5C3A5C3
      lookupValid := true
      lookupWidth := 2
      lookupValue := if n < 5 then 0x03 else if n < 14 then 0x12 else 0
      cfgValid := false
      cfgData := 0
      cfgLast := false
      outportReady := true }
  clean := clean_reset _ _ _ _
  noReset _ := rfl
  noStart _ := rfl
  noWrite _ := rfl

/-- The first block has four samples and ends in the 18th cycle. -/
theorem delivers_textured_block :
    texturedBlocks.Delivered 0 (texturedBlocks.slotAt 0) ∧
      texturedBlocks.samples 0 17 =
        [⟨0, 4⟩, ⟨2, 2⟩, ⟨4, 2⟩, ⟨6, 2⟩] ∧
      texturedBlocks.ends 17 = true :=
  ⟨delivers texturedBlocks 0 ⟨rfl, by decide⟩, by decide +kernel,
    by decide +kernel⟩

end Scan

end CoreJpeg.CoefficientChain
