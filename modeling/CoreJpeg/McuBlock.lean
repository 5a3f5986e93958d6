import CoreJpeg.McuModel

namespace CoreJpeg.McuProc

/-!
# A block in the decoder

What the decoder does from the start of a block to its end pulse, whatever the
bit stream and the Huffman tables answer: it goes through one move in every
cycle, keeps the block's id, and emits samples with growing indices.
-/

/-! ## The block counter -/

section BlockCounter

variable {id : IdState} {i : IdInput}

/-- Once the end of the image is inferred it stays so. -/
theorem endOfImageQ_step
    (running : i.rst = false)
    (noStart : i.imgStart = false)
    (ended : id.endOfImageQ = true) :
    (id.step i).endOfImageQ = true := by
  simp only [IdState.step, running, noStart, Bool.or_self,
    Bool.false_eq_true, if_false]
  split
  · simp [ended]
  · split
    · exact ended
    · split
      · simp [ended]
      · exact ended

/-- A block is marked only when it starts behind the image. -/
theorem typeNext_eof
    (marked : (id.typeNext i).1 = .eof) :
    (i.startOfBlock = true ∧ id.endOfImageQ = true) ∨
      id.blockTypeQ = .eof := by
  rw [IdState.typeNext] at marked
  split at marked
  · rename_i starts
    exact .inl (by simpa using starts)
  · right
    split at marked
    · cases marked
    · split at marked
      · cases type : id.blockTypeQ <;>
          simp [type, BlockType.succ] at marked ⊢
      · split at marked
        · split at marked <;> cases marked
        · exact marked

/-- Within a block the component and the position stay as they are. -/
theorem id_within
    (running : i.rst = false)
    (noStart : i.imgStart = false)
    (notStart : i.startOfBlock = false)
    (notEnd : i.endOfBlock = false)
    (grey : i.imgMode = .monochrome → id.blockTypeQ = .y) :
    id.step i = id := by
  have type : id.typeNext i = (id.blockTypeQ, id.typeIdxQ) := by
    rw [IdState.typeNext, notStart, notEnd]
    cases mode : i.imgMode with
    | monochrome => simp [grey mode]
    | ycbcr444 => simp
    | ycbcr420 => simp
    | unsupported => simp
  simp [IdState.step, IdState.endsPosition, running, noStart, notStart,
    notEnd, type]

end BlockCounter

/-! ## The decoder -/

section Decoder

variable {mode : ImageMode} {s : State} {i : Input}

/-- A cycle of a scan, without reset and without the start of an image. -/
structure Runs (mode : ImageMode) (i : Input) : Prop where
  noReset : i.rst = false
  noStart : i.imgStart = false
  modeKept : i.imgMode = mode

/-- The decoder works on a block of the image. -/
def Busy (s : State) : Prop :=
  s.stateQ = .fetchWord ∨ s.stateQ = .huffLookup ∨ s.stateQ = .output ∨
    s.stateQ = .eob

/-- How the component, the index and the push flag go with the state. -/
structure Ordered (mode : ImageMode) (s : State) : Prop where
  marked : s.id.blockTypeQ = .eof → s.id.endOfImageQ = true
  unmarked : Busy s → s.id.blockTypeQ ≠ .eof
  grey :
    mode = .monochrome → s.id.blockTypeQ = .y ∨ s.id.blockTypeQ = .eof
  idle :
    s.stateQ = .idle →
      s.coeffIdxQ = 0 ∧ (s.pushQ = true → s.id.endOfImageQ = true)
  fetch :
    s.stateQ = .fetchWord →
      s.coeffIdxQ.toNat ≤ 78 ∧
        (s.firstQ = true → s.coeffIdxQ = 0 ∧ s.pushQ = false)
  code :
    s.stateQ = .huffLookup ∨ s.stateQ = .output →
      s.coeffIdxQ.toNat ≤ 63 ∧ s.pushQ = false ∧
        (s.firstQ = true → s.coeffIdxQ = 0) ∧
        (s.firstQ = false → 0 < s.coeffIdxQ.toNat)
  ending : s.stateQ = .eob → s.pushQ = false ∧ s.firstQ = false
  behind :
    s.stateQ = .eof → s.coeffIdxQ = 0 ∧ s.id.endOfImageQ = true

/-- What a cycle of a scan does to the state, the index and the flags. -/
inductive Move (s : State) (i : Input) (next : State) : Prop
  | wait
      (here : s.stateQ = .idle)
      (there : next.stateQ = .idle)
      (notStart : startBlock s i = false)
      (index : next.coeffIdxQ = s.coeffIdxQ)
      (push : next.pushQ = false)
  | start
      (here : s.stateQ = .idle)
      (there : next.stateQ = .fetchWord)
      (isStart : startBlock s i = true)
      (imageOpen : s.id.endOfImageQ = false)
      (space : i.outportBlkSpace = true)
      (index : next.coeffIdxQ = s.coeffIdxQ)
      (push : next.pushQ = false)
      (first : next.firstQ = true)
  | startEof
      (here : s.stateQ = .idle)
      (there : next.stateQ = .eof)
      (isStart : startBlock s i = true)
      (imageEnded : s.id.endOfImageQ = true)
      (index : next.coeffIdxQ = s.coeffIdxQ)
      (push : next.pushQ = false)
  | fill
      (here : s.stateQ = .fetchWord)
      (there : next.stateQ = .eob)
      (full : 63 ≤ s.coeffIdxQ.toNat)
      (push : next.pushQ = false)
      (first : next.firstQ = s.firstQ)
  | starve
      (here : s.stateQ = .fetchWord)
      (there : next.stateQ = .fetchWord)
      (index : next.coeffIdxQ = s.coeffIdxQ)
      (push : next.pushQ = false)
      (first : next.firstQ = s.firstQ)
  | lookUp
      (here : s.stateQ = .fetchWord)
      (there : next.stateQ = .huffLookup)
      (room : s.coeffIdxQ.toNat < 63)
      (index :
        next.coeffIdxQ.toNat =
          s.coeffIdxQ.toNat + if s.firstQ then 0 else 1)
      (push : next.pushQ = false)
      (first : next.firstQ = s.firstQ)
  | seek
      (here : s.stateQ = .huffLookup)
      (there : next.stateQ = .huffLookup ∨ next.stateQ = .output)
      (index : next.coeffIdxQ = s.coeffIdxQ)
      (push : next.pushQ = false)
      (first : next.firstQ = s.firstQ)
  | emit
      (here : s.stateQ = .output)
      (there : next.stateQ = .fetchWord)
      (dc : s.coeffIdxQ = 0 → next.coeffIdxQ = 0)
      (ac :
        s.coeffIdxQ.toNat ≤ 63 →
          s.coeffIdxQ.toNat ≤ next.coeffIdxQ.toNat ∧
            next.coeffIdxQ.toNat ≤ 78)
      (push : next.pushQ = true)
      (first : next.firstQ = false)
  | close
      (here : s.stateQ = .eob)
      (there : next.stateQ = .idle)
      (index : next.coeffIdxQ = 0)
      (push : next.pushQ = false)
  | leave
      (here : s.stateQ = .eof)
      (there : next.stateQ = .idle ∨ next.stateQ = .eof)
      (index : next.coeffIdxQ = s.coeffIdxQ)
      (push : next.pushQ = true)

/-- Behind a symbol the index stands at or behind its coefficient. -/
theorem coeffIdxNext_output
    (noStart : i.imgStart = false)
    (here : s.stateQ = .output)
    (small : s.coeffIdxQ.toNat ≤ 63) :
    s.coeffIdxQ.toNat ≤ (coeffIdxNext s i).toNat ∧
      (coeffIdxNext s i).toNat ≤ 78 := by
  have run := (s.codeQ.extractLsb' 4 4).isLt
  have index : coeffIdxNext s i =
      if s.coeffIdxQ == 0 then s.coeffIdxQ
      else if s.codeQ == 0 then 64
      else if s.codeQ == 0xF0 then s.coeffIdxQ + 15
      else s.coeffIdxQ + (s.codeQ.extractLsb' 4 4).setWidth 8 := by
    simp [coeffIdxNext, here, noStart]
  rw [index]
  split
  · omega
  · split
    · exact ⟨by simpa using by omega, by decide⟩
    · have fifteen : (15 : BitVec 8).toNat = 15 := rfl
      split
      · rw [BitVec.toNat_add, fifteen]
        omega
      · rw [BitVec.toNat_add, BitVec.toNat_setWidth]
        omega

/-- Every cycle of a scan is one of the moves. -/
theorem moves (runs : Runs mode i) : Move s i (step s i) := by
  have state : (step s i).stateQ = nextStateR s i := by
    simp [step, runs.noReset]
  have index : (step s i).coeffIdxQ = coeffIdxNext s i := by
    simp [step, runs.noReset]
  have push : (step s i).pushQ =
      (s.stateQ == .output || s.stateQ == .eof) := by
    simp [step, runs.noReset]
  have first : (step s i).firstQ =
      if s.stateQ == .idle then true
      else if s.stateQ == .output then false
      else s.firstQ := by
    simp [step, runs.noReset]
  cases here : s.stateQ with
  | idle =>
      have idle : (step s i).coeffIdxQ = s.coeffIdxQ := by
        simp [index, coeffIdxNext, here, runs.noStart]
      rw [here] at push first
      rw [nextStateR, runs.noStart, here] at state
      simp only [Bool.false_eq_true, if_false] at state
      split at state
      · rename_i ended
        rw [Bool.and_eq_true] at ended
        refine .startEof here state ?_ ended.1 idle push
        simp [startBlock, nextStateR, here, runs.noStart, ended]
      · rename_i notEnded
        split at state
        · rename_i valid
          rw [Bool.and_eq_true] at valid
          have imageOpen : s.id.endOfImageQ = false := by
            simpa [valid.2] using notEnded
          refine .start here state ?_ imageOpen valid.2 idle push first
          simp [startBlock, nextStateR, here, runs.noStart, imageOpen, valid]
        · rename_i notValid
          refine .wait here state ?_ idle push
          simp [startBlock, nextStateR, here, runs.noStart, notEnded,
            notValid]
  | fetchWord =>
      rw [here] at push first
      rw [nextStateR, runs.noStart, here] at state
      simp only [Bool.false_eq_true, if_false] at state
      have limit : 63 ≤ s.coeffIdxQ ↔ 63 ≤ s.coeffIdxQ.toNat := Iff.rfl
      split at state
      · rename_i full
        exact .fill here state (limit.mp full) push first
      · rename_i room
        rw [limit, Nat.not_le] at room
        split at state
        · rename_i valid
          refine .lookUp here state room ?_ push first
          have next : coeffIdxNext s i =
              if s.firstQ then s.coeffIdxQ else s.coeffIdxQ + 1 := by
            cases isFirst : s.firstQ <;>
              simp [coeffIdxNext, here, runs.noStart, valid, isFirst]
          have one : (1 : BitVec 8).toNat = 1 := rfl
          rw [index, next]
          cases s.firstQ with
          | true => rfl
          | false =>
              simp only [Bool.false_eq_true, if_false, BitVec.toNat_add, one]
              omega
        · rename_i starved
          refine .starve here state ?_ push first
          simp [index, coeffIdxNext, here, runs.noStart, starved]
  | huffLookup =>
      rw [here] at push first
      rw [nextStateR, runs.noStart, here] at state
      simp only [Bool.false_eq_true, if_false] at state
      refine .seek here ?_ ?_ push first
      · split at state
        · exact .inr state
        · exact .inl state
      · simp [index, coeffIdxNext, here, runs.noStart]
  | output =>
      rw [here] at push first
      rw [nextStateR, runs.noStart, here] at state
      refine .emit here state (fun dc => ?_) (fun small => ?_) push first
      · simp [index, coeffIdxNext, here, runs.noStart, dc]
      · rw [index]
        exact coeffIdxNext_output runs.noStart here small
  | eob =>
      rw [here] at push
      rw [nextStateR, runs.noStart, here] at state
      refine .close here state ?_ push
      simp [index, coeffIdxNext, here]
  | eof =>
      rw [here] at push
      rw [nextStateR, runs.noStart, here] at state
      simp only [Bool.false_eq_true, if_false] at state
      refine .leave here ?_ ?_ push
      · split at state
        · exact .inr state
        · exact .inl state
      · simp [index, coeffIdxNext, here, runs.noStart]

/-- A block starts in the idle state only. -/
theorem idle_of_start (starts : startBlock s i = true) :
    s.stateQ = .idle := by
  rw [startBlock, Bool.and_eq_true, beq_iff_eq] at starts
  exact starts.1

/-- The registers of the block counter after a cycle of a scan. -/
theorem step_counter (runs : Runs mode i) :
    (step s i).id = s.id.step (idInput s i) := by
  simp [step, runs.noReset]

/-- The order of the registers is kept by every cycle of a scan. -/
theorem Ordered.step
    (ordered : Ordered mode s)
    (runs : Runs mode i) :
    Ordered mode (step s i) := by
  have typed : (McuProc.step s i).id.blockTypeQ =
      (s.id.typeNext (idInput s i)).1 := by
    rw [step_counter runs]
    exact IdState.step_blockTypeQ _ (by simp [idInput, runs.noReset,
      runs.noStart])
  have ended (now : s.id.endOfImageQ = true) :
      (McuProc.step s i).id.endOfImageQ = true := by
    rw [step_counter runs]
    exact endOfImageQ_step runs.noReset runs.noStart now
  have within (unmarked : s.id.blockTypeQ ≠ .eof)
      (notBehind : startBlock s i = false ∨ s.id.endOfImageQ = false) :
      (McuProc.step s i).id.blockTypeQ ≠ .eof := by
    rw [typed]
    intro marked
    rcases typeNext_eof marked with ⟨starts, now⟩ | marked
    · rcases notBehind with notStart | imageOpen
      · rw [idInput, notStart] at starts
        cases starts
      · rw [imageOpen] at now
        cases now
    · exact unmarked marked
  have notStart (other : s.stateQ ≠ .idle) : startBlock s i = false := by
    rw [Bool.eq_false_iff]
    exact fun starts => other (idle_of_start starts)
  have marked : (McuProc.step s i).id.blockTypeQ = .eof →
      (McuProc.step s i).id.endOfImageQ = true := by
    intro marked
    rw [typed] at marked
    rcases typeNext_eof marked with starts | marked
    · exact ended starts.2
    · exact ended (ordered.marked marked)
  have grey : mode = .monochrome →
      (McuProc.step s i).id.blockTypeQ = .y ∨
        (McuProc.step s i).id.blockTypeQ = .eof := by
    intro isGrey
    have isMode : (idInput s i).imgMode = .monochrome :=
      runs.modeKept.trans isGrey
    rw [typed, IdState.typeNext, isMode]
    split
    · exact .inr rfl
    · exact .inl rfl
  cases moves (s := s) runs with
  | wait here there _ index push =>
      refine ⟨marked, ?_, grey, ?_, ?_, ?_, ?_, ?_⟩ <;>
        simp [Busy, there, index, push, (ordered.idle here).1]
  | start here there _ imageOpen _ index push first =>
      have unmarked : s.id.blockTypeQ ≠ .eof := by
        intro isEof
        have ended := ordered.marked isEof
        rw [imageOpen] at ended
        cases ended
      refine ⟨marked, fun _ => within unmarked (.inr imageOpen), grey,
        ?_, ?_, ?_, ?_, ?_⟩ <;>
        simp [there, index, push, (ordered.idle here).1]
  | startEof here there _ imageEnded index push =>
      refine ⟨marked, ?_, grey, ?_, ?_, ?_, ?_, ?_⟩ <;>
        simp [Busy, there, index, (ordered.idle here).1, ended imageEnded]
  | fill here there full push first =>
      have later : s.firstQ = false := by
        rw [Bool.eq_false_iff]
        intro isFirst
        rw [((ordered.fetch here).2 isFirst).1] at full
        simp at full
      refine ⟨marked, fun _ => within (ordered.unmarked (.inl here))
        (.inl (notStart (by simp [here]))), grey, ?_, ?_, ?_, ?_, ?_⟩ <;>
        simp [there, push, first, later]
  | starve here there index push first =>
      have fetch := ordered.fetch here
      refine ⟨marked, fun _ => within (ordered.unmarked (.inl here))
        (.inl (notStart (by simp [here]))), grey, ?_, ?_, ?_, ?_, ?_⟩ <;>
        simp only [there, index, push, first, reduceCtorEq, forall_const,
          IsEmpty.forall_iff, or_self]
      exact ⟨fetch.1, fun isFirst => ⟨(fetch.2 isFirst).1, trivial⟩⟩
  | lookUp here there room index push first =>
      have fetch := ordered.fetch here
      refine ⟨marked, fun _ => within (ordered.unmarked (.inl here))
        (.inl (notStart (by simp [here]))), grey, ?_, ?_, ?_, ?_, ?_⟩ <;>
        simp only [there, push, first, reduceCtorEq, forall_const,
          IsEmpty.forall_iff, or_false]
      refine ⟨by rw [index]; split <;> omega, trivial, fun isFirst => ?_,
        fun isLater => ?_⟩
      · apply BitVec.eq_of_toNat_eq
        rw [index, isFirst, (fetch.2 isFirst).1]
        rfl
      · rw [index, isLater]
        exact Nat.succ_pos _
  | seek here there index push first =>
      have code := ordered.code (.inl here)
      refine ⟨marked, fun _ => within (ordered.unmarked (.inr (.inl here)))
        (.inl (notStart (by simp [here]))), grey, ?_, ?_, ?_, ?_, ?_⟩
      · rcases there with there | there <;> simp [there]
      · rcases there with there | there <;> simp [there]
      · intro _
        rw [index, push, first]
        exact ⟨code.1, rfl, code.2.2⟩
      · rcases there with there | there <;> simp [there]
      · rcases there with there | there <;> simp [there]
  | emit here there dc ac push first =>
      have code := ordered.code (.inr here)
      refine ⟨marked, fun _ => within
        (ordered.unmarked (.inr (.inr (.inl here))))
        (.inl (notStart (by simp [here]))), grey, ?_, ?_, ?_, ?_, ?_⟩ <;>
        simp [there, first, (ac code.1).2]
  | close here there index push =>
      refine ⟨marked, ?_, grey, ?_, ?_, ?_, ?_, ?_⟩ <;>
        simp [Busy, there, index, push]
  | leave here there index push =>
      have behind := ordered.behind here
      refine ⟨marked, ?_, grey, ?_, ?_, ?_, ?_, ?_⟩
      all_goals rcases there with there | there <;>
        simp [Busy, there, index, behind.1, ended behind.2]

/-- Until its end pulse a block goes on under the same id. -/
theorem Busy.step
    (ordered : Ordered mode s)
    (runs : Runs mode i)
    (busy : Busy s)
    (notEnding : s.stateQ ≠ .eob) :
    Busy (McuProc.step s i) ∧ (McuProc.step s i).id = s.id := by
  constructor
  · cases moves (s := s) runs with
    | wait here => simp [Busy, here] at busy
    | start here => simp [Busy, here] at busy
    | startEof here => simp [Busy, here] at busy
    | fill _ there => exact .inr (.inr (.inr there))
    | starve _ there => exact .inl there
    | lookUp _ there => exact .inr (.inl there)
    | seek _ there =>
        rcases there with there | there
        · exact .inr (.inl there)
        · exact .inr (.inr (.inl there))
    | emit _ there => exact .inl there
    | close here => exact absurd here notEnding
    | leave here => simp [Busy, here] at busy
  · have notIdle : s.stateQ ≠ .idle := by
      intro isIdle
      simp [Busy, isIdle] at busy
    rw [step_counter runs]
    refine id_within runs.noReset runs.noStart ?_ ?_ fun isGrey => ?_
    · rw [idInput, Bool.eq_false_iff]
      exact fun starts => notIdle (idle_of_start starts)
    · simpa [idInput, nextBlock] using notEnding
    · rcases ordered.grey (runs.modeKept.symm.trans isGrey) with isY | isEof
      · exact isY
      · exact absurd isEof (ordered.unmarked busy)

/-- Behind its end pulse a block leaves the decoder idle. -/
theorem idle_of_ending
    (runs : Runs mode i)
    (ending : s.stateQ = .eob) :
    (step s i).stateQ = .idle ∧ (step s i).pushQ = false := by
  cases moves (s := s) runs with
  | close _ there _ push => exact ⟨there, push⟩
  | wait here | start here | startEof here | fill here | starve here
  | lookUp here | seek here | emit here | leave here =>
      rw [ending] at here
      cases here

/-- The decoder stays idle until a block starts. -/
theorem idle_of_wait
    (runs : Runs mode i)
    (isIdle : s.stateQ = .idle)
    (notStart : startBlock s i = false) :
    (step s i).stateQ = .idle ∧ (step s i).pushQ = false := by
  cases moves (s := s) runs with
  | wait _ there _ _ push => exact ⟨there, push⟩
  | start _ _ isStart | startEof _ _ isStart =>
      rw [notStart] at isStart
      cases isStart
  | fill here | starve here | lookUp here | seek here | emit here
  | close here | leave here =>
      rw [isIdle] at here
      cases here

/-- A block of the image starts with space for it, before the image's end. -/
theorem start_of_unmarked
    (ordered : Ordered mode s)
    (runs : Runs mode i)
    (starts : startBlock s i = true)
    (unmarked : (step s i).id.blockTypeQ ≠ .eof) :
    Busy (step s i) ∧ s.id.endOfImageQ = false ∧
      i.outportBlkSpace = true ∧ s.pushQ = false := by
  have isIdle := idle_of_start starts
  cases moves (s := s) runs with
  | start _ there _ imageOpen space =>
      refine ⟨.inl there, imageOpen, space, ?_⟩
      rw [Bool.eq_false_iff]
      intro push
      have ended := (ordered.idle isIdle).2 push
      rw [imageOpen] at ended
      cases ended
  | startEof _ _ _ imageEnded =>
      refine absurd ?_ unmarked
      rw [step_counter runs, IdState.step_blockTypeQ _
        (by simp [idInput, runs.noReset, runs.noStart]), IdState.typeNext]
      simp [idInput, starts, imageEnded]
  | wait _ _ notStart =>
      rw [starts] at notStart
      cases notStart
  | fill here | starve here | lookUp here | seek here | emit here
  | close here | leave here =>
      rw [isIdle] at here
      cases here

/-! ## Indices -/

/-- The samples that a block has still to emit lie behind an index. -/
def Passed (index : Nat) (s : State) : Prop :=
  s.firstQ = false ∧
    (s.stateQ = .eob ∨
      s.stateQ = .fetchWord ∧ s.pushQ = false ∧
        index ≤ s.coeffIdxQ.toNat ∨
      Busy s ∧ index < s.coeffIdxQ.toNat)

/-- The index of a sample is the coefficient index. -/
theorem outportIdx_toNat (valid : outportValid s = true) :
    (outportIdx s).toNat = s.coeffIdxQ.toNat := by
  rw [outportValid, Bool.and_eq_true, decide_eq_true_eq] at valid
  have small : s.coeffIdxQ.toNat < 64 := valid.2
  rw [outportIdx, BitVec.toNat_setWidth]
  omega

/-- A block emits its samples before the code of the next one is read. -/
theorem emits_fetching
    (ordered : Ordered mode s)
    (busy : Busy s)
    (valid : outportValid s = true) :
    s.stateQ = .fetchWord ∧ s.pushQ = true ∧ s.firstQ = false := by
  rw [outportValid, Bool.and_eq_true] at valid
  have fetching : s.stateQ = .fetchWord := by
    rcases busy with here | here | here | here
    · exact here
    · rw [(ordered.code (.inl here)).2.1] at valid
      cases valid.1
    · rw [(ordered.code (.inr here)).2.1] at valid
      cases valid.1
    · rw [(ordered.ending here).1] at valid
      cases valid.1
  refine ⟨fetching, valid.1, ?_⟩
  rw [Bool.eq_false_iff]
  intro isFirst
  rw [((ordered.fetch fetching).2 isFirst).2] at valid
  cases valid.1

/-- Behind a sample its index is passed. -/
theorem passed_of_emits
    (ordered : Ordered mode s)
    (runs : Runs mode i)
    (busy : Busy s)
    (valid : outportValid s = true) :
    Passed s.coeffIdxQ.toNat (step s i) := by
  obtain ⟨fetching, -, later⟩ := emits_fetching ordered busy valid
  cases moves (s := s) runs with
  | fill _ there _ _ first => exact ⟨first.trans later, .inl there⟩
  | starve _ there index push first =>
      refine ⟨first.trans later, .inr (.inl ⟨there, push, ?_⟩)⟩
      exact Nat.le_of_eq (congrArg BitVec.toNat index.symm)
  | lookUp _ there _ index _ first =>
      refine ⟨first.trans later, .inr (.inr ⟨.inr (.inl there), ?_⟩)⟩
      rw [index, later]
      exact Nat.lt_succ_self _
  | wait here | start here | startEof here | seek here | emit here
  | close here | leave here =>
      rw [fetching] at here
      cases here

/-- An index that is passed stays passed until the end pulse. -/
theorem Passed.step
    {index : Nat}
    (ordered : Ordered mode s)
    (runs : Runs mode i)
    (busy : Busy s)
    (notEnding : s.stateQ ≠ .eob)
    (passed : Passed index s) :
    Passed index (McuProc.step s i) := by
  obtain ⟨later, place⟩ := passed
  have atLeast : index ≤ s.coeffIdxQ.toNat ∧
      (s.stateQ ≠ .fetchWord → index < s.coeffIdxQ.toNat) := by
    rcases place with here | ⟨here, -, reached⟩ | ⟨-, beyond⟩
    · exact absurd here notEnding
    · exact ⟨reached, fun other => absurd here other⟩
    · exact ⟨Nat.le_of_lt beyond, fun _ => beyond⟩
  cases moves (s := s) runs with
  | fill _ there _ _ first => exact ⟨first.trans later, .inl there⟩
  | starve _ there same push first =>
      refine ⟨first.trans later, .inr (.inl ⟨there, push, ?_⟩)⟩
      rw [same]
      exact atLeast.1
  | lookUp _ there _ next _ first =>
      refine ⟨first.trans later, .inr (.inr ⟨.inr (.inl there), ?_⟩)⟩
      rw [next, later]
      exact Nat.lt_succ_of_le atLeast.1
  | seek here there same _ first =>
      refine ⟨first.trans later, .inr (.inr ⟨?_, ?_⟩)⟩
      · rcases there with there | there
        · exact .inr (.inl there)
        · exact .inr (.inr (.inl there))
      · rw [same]
        exact atLeast.2 (by simp [here])
  | emit here there _ ac _ first =>
      have beyond := atLeast.2 (by simp [here])
      have kept := (ac (ordered.code (.inr here)).1).1
      exact ⟨first, .inr (.inr ⟨.inl there, Nat.lt_of_lt_of_le beyond kept⟩)⟩
  | wait here | start here | startEof here | leave here =>
      simp [Busy, here] at busy
  | close here => exact absurd here notEnding

/-- A sample behind a passed index has a greater one. -/
theorem Passed.sample
    {index : Nat}
    (ordered : Ordered mode s)
    (busy : Busy s)
    (passed : Passed index s)
    (valid : outportValid s = true) :
    index < (outportIdx s).toNat := by
  obtain ⟨fetching, push, -⟩ := emits_fetching ordered busy valid
  rw [outportIdx_toNat valid]
  rcases passed.2 with here | ⟨-, noPush, -⟩ | ⟨-, beyond⟩
  · rw [fetching] at here
    cases here
  · rw [push] at noPush
    cases noPush
  · exact beyond

end Decoder

end CoreJpeg.McuProc
