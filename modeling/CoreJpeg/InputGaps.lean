import CoreJpeg.FrameHeader

namespace CoreJpeg.JpegInput

open Clocked

/-!
# Cycles without a valid word

While no word is valid the byte lane is decoded all the same: the marker
transitions and the capture registers look at it.  This module compares a run
with the run without these cycles and says when they leave no trace in what
the front end delivers and captures.
-/

/-! ## Words and gaps -/

/-- A word of the input stream. -/
structure Word where
  data : BitVec 32
  strb : BitVec 4
  last : Bool
  deriving Repr, DecidableEq

/-- The word on the pins. -/
def Input.word (i : Input) : Word where
  data := i.inportData
  strb := i.inportStrb
  last := i.inportLast

/-- No word is valid. -/
def isGap (i : Input) : Bool := !i.inportValid && !i.rst

/-- The front end with the words that are still to be accepted. -/
structure Bus where
  front : State
  words : List Word

namespace Bus

/-- One clock edge; an accepted word makes room for the next one. -/
def step (bus : Bus) (i : Input) : Bus where
  front := JpegInput.step bus.front i
  words :=
    if i.inportValid && inportAcceptO bus.front i then bus.words.tail
    else bus.words

/-- A valid word is the next one of the stream. -/
def Presents (bus : Bus) (i : Input) : Prop :=
  i.inportValid = true → bus.words.head? = some i.word

instance (bus : Bus) (i : Input) : Decidable (bus.Presents i) := by
  unfold Presents
  infer_instance

/-- The front end after reset, before a stream of words. -/
def start (words : List Word) : Bus where
  front := reset
  words := words

end Bus

/-! ## What a gap must not do -/

/-- The registers of the frame header are cleared. -/
structure HeaderCleared (s : State) : Prop where
  height : s.imgHeightQ = 0
  width : s.imgWidthQ = 0
  count : s.imgNumCompQ = 0
  yFactor : s.imgYFactorQ = 0
  yTable : s.imgYDqtTableQ = 0
  cbFactor : s.imgCbFactorQ = 0
  cbTable : s.imgCbDqtTableQ = 0
  crFactor : s.imgCrFactorQ = 0
  crTable : s.imgCrDqtTableQ = 0
  mode : s.imgModeQ = .unsupported

instance (s : State) : Decidable (HeaderCleared s) :=
  decidable_of_iff
    (s.imgHeightQ = 0 ∧ s.imgWidthQ = 0 ∧ s.imgNumCompQ = 0 ∧
      s.imgYFactorQ = 0 ∧ s.imgYDqtTableQ = 0 ∧ s.imgCbFactorQ = 0 ∧
      s.imgCbDqtTableQ = 0 ∧ s.imgCrFactorQ = 0 ∧ s.imgCrDqtTableQ = 0 ∧
      s.imgModeQ = .unsupported)
    ⟨fun ⟨height, width, count, yFactor, yTable, cbFactor, cbTable, crFactor,
        crTable, mode⟩ =>
      ⟨height, width, count, yFactor, yTable, cbFactor, cbTable, crFactor,
        crTable, mode⟩,
    fun cleared =>
      ⟨cleared.height, cleared.width, cleared.count, cleared.yFactor,
        cleared.yTable, cleared.cbFactor, cleared.cbTable, cleared.crFactor,
        cleared.crTable, cleared.mode⟩⟩

/-- The lane in the register of the index, before the next byte is taken. -/
def laneAt (index : BitVec 6) (held : Byte) (s : State) (i : Input) : Byte :=
  if s.idxQ = index then dataR s i else held

/--
The byte lane of a gap completes no marker that the state acts on, clears no
frame header and does not change the mode that the last byte of a header is
about to take; the scan's last byte, if it still waits outside the scan, is the
`FF` of a marker.
-/
structure Quiet (s : State) (i : Input) : Prop where
  idle : s.stateQ = .idle → tokenSoiW s i = false
  active : s.stateQ = .active → activeNextR s i = .active
  scan : s.stateQ = .imgData → tokenEoiW s i = false
  header : tokenSof0W s i = true → HeaderCleared s
  mode :
    s.stateQ = .sofData → s.lengthQ ≤ 1 →
      layout (laneAt 5 s.imgNumCompQ s i) (laneAt 7 s.imgYFactorQ s i)
          (laneAt 10 s.imgCbFactorQ s i) (laneAt 13 s.imgCrFactorQ s i) =
        layout s.imgNumCompQ s.imgYFactorQ s.imgCbFactorQ s.imgCrFactorQ
  waiting : s.stateQ = .idle → s.dataValidQ = true → s.lastBQ = 0xFF

/-- Every gap is quiet. -/
def QuietGap (s : State) (i : Input) : Prop := isGap i = true → Quiet s i

instance (s : State) (i : Input) : Decidable (Quiet s i) :=
  decidable_of_iff
    ((s.stateQ = .idle → tokenSoiW s i = false) ∧
      (s.stateQ = .active → activeNextR s i = .active) ∧
      (s.stateQ = .imgData → tokenEoiW s i = false) ∧
      (tokenSof0W s i = true → HeaderCleared s) ∧
      (s.stateQ = .sofData → s.lengthQ ≤ 1 →
        layout (laneAt 5 s.imgNumCompQ s i) (laneAt 7 s.imgYFactorQ s i)
            (laneAt 10 s.imgCbFactorQ s i) (laneAt 13 s.imgCrFactorQ s i) =
          layout s.imgNumCompQ s.imgYFactorQ s.imgCbFactorQ
            s.imgCrFactorQ) ∧
      (s.stateQ = .idle → s.dataValidQ = true → s.lastBQ = 0xFF))
    ⟨fun ⟨idle, active, scan, header, mode, waiting⟩ =>
      ⟨idle, active, scan, header, mode, waiting⟩,
    fun quiet =>
      ⟨quiet.idle, quiet.active, quiet.scan, quiet.header, quiet.mode,
        quiet.waiting⟩⟩

instance (s : State) (i : Input) : Decidable (QuietGap s i) := by
  unfold QuietGap
  infer_instance

/-! ## The state machine -/

/-- The states in which the length counter takes the byte lane. -/
def loadsLength : FsmState → Bool
  | .uxpLenh | .dqtLenh | .dhtLenh | .imgLenh | .sofLenh => true
  | .uxpLenl | .dqtLenl | .dhtLenl | .imgLenl | .sofLenl => true
  | _ => false

/-- The same position in the same bytes, up to what the next byte replaces. -/
structure SameControl (s c : State) : Prop where
  byteIdx : s.byteIdxQ = c.byteIdxQ
  lastB : s.lastBQ = c.lastBQ
  state : s.stateQ = c.stateQ
  length : loadsLength c.stateQ = false → s.lengthQ = c.lengthQ
  idx : c.stateQ ≠ .sofLenh → s.idxQ = c.idxQ

section Control

variable {s c : State} {i : Input}

theorem isGap_pauses
    (gap : isGap i = true) :
    i.inportValid = false ∧ i.rst = false := by
  cases valid : i.inportValid <;> simp_all [isGap]

theorem SameControl.dataR_eq
    (same : SameControl s c) :
    dataR s i = dataR c i := by
  rw [dataR, dataR, same.byteIdx]

theorem SameControl.tokenW_eq
    (same : SameControl s c)
    (code : Byte) :
    tokenW code s i = tokenW code c i := by
  rw [tokenW, tokenW, same.lastB, same.dataR_eq]

theorem SameControl.tokenRangeW_eq
    (same : SameControl s c)
    (low high : Byte) :
    tokenRangeW low high s i = tokenRangeW low high c i := by
  rw [tokenRangeW, tokenRangeW, same.lastB, same.dataR_eq]

theorem SameControl.accepts_eq
    (same : SameControl s c) :
    accepts s i = accepts c i := by
  rw [accepts, accepts, inportAcceptW, inportAcceptW, same.state, tokenPadW,
    same.tokenW_eq]

theorem SameControl.activeNextR_eq
    (same : SameControl s c) :
    activeNextR s i = activeNextR c i := by
  simp only [activeNextR, tokenEoiW, tokenDqtW, tokenDhtW, tokenSosW,
    tokenSof0W, tokenSof2W, tokenDriW, tokenRstW, tokenAppW, tokenComW,
    same.tokenW_eq, same.tokenRangeW_eq]
  rfl

theorem SameControl.nextStateR_eq
    (same : SameControl s c) :
    nextStateR s i = nextStateR c i := by
  have length := same.length
  rw [nextStateR, nextStateR, caseNextR, caseNextR, same.accepts_eq,
    same.activeNextR_eq, same.state, tokenSoiW, tokenEoiW, same.tokenW_eq,
    same.tokenW_eq]
  cases state : c.stateQ <;> simp [state, loadsLength] at length ⊢ <;>
    simp [length]

/-- A byte that is shown to both keeps them in step. -/
theorem SameControl.step
    (same : SameControl s c) :
    SameControl (step s i) (step c i) := by
  have length := same.length
  have idx := same.idx
  by_cases reset_ : i.rst = true
  · have both : JpegInput.step s i = JpegInput.step c i := by
      simp [JpegInput.step, reset_]
    rw [both]
    exact ⟨rfl, rfl, rfl, fun _ => rfl, fun _ => rfl⟩
  · rw [JpegInput.step, JpegInput.step, if_neg reset_, if_neg reset_]
    refine ⟨?_, ?_, same.nextStateR_eq, fun _ => ?_, fun _ => ?_⟩
    · simp only [byteIdxNext, same.accepts_eq, same.byteIdx]
    · simp only [lastBNext, same.accepts_eq, same.lastB, same.dataR_eq]
    · simp only [lengthNext, same.accepts_eq, same.dataR_eq, same.state]
      cases state : c.stateQ <;>
        simp [state, loadsLength] at length ⊢ <;> simp [length]
    · simp only [idxNext, same.accepts_eq, same.state]
      by_cases loads : c.stateQ = .sofLenh
      · simp [loads]
      · rw [idx loads]

/-- A quiet gap keeps the state. -/
theorem Quiet.stays
    (quiet : Quiet s i)
    (gap : isGap i = true) :
    nextStateR s i = s.stateQ := by
  have pauses := (isGap_pauses gap).1
  have free : accepts s i = false := by simp [accepts, pauses]
  have idle := quiet.idle
  have active := quiet.active
  have scan := quiet.scan
  rw [nextStateR, free, caseNextR]
  cases state : s.stateQ <;> simp_all

/-- A quiet gap keeps the position. -/
theorem SameControl.gap
    (same : SameControl s c)
    (quiet : Quiet s i)
    (gap : isGap i = true) :
    SameControl (JpegInput.step s i) c := by
  have pauses := isGap_pauses gap
  have free : accepts s i = false := by simp [accepts, pauses.1]
  have stays := quiet.stays gap
  have length := same.length
  have idx := same.idx
  have state := same.state
  rw [JpegInput.step, if_neg (by simp [pauses.2])]
  refine ⟨?_, ?_, stays.trans state, fun loads => ?_, fun notFirst => ?_⟩
  · simp [byteIdxNext, free, same.byteIdx]
  · simp [lastBNext, free, same.lastB]
  · rw [← length loads]
    simp only [lengthNext, free, state]
    cases fsm : c.stateQ <;> simp_all [loadsLength]
  · rw [← idx notFirst]
    simp [idxNext, free, state, notFirst]

end Control

/-! ## The captured registers -/

/-- The state captures the byte of an index. -/
def Captures (c : State) (index : BitVec 6) : Prop :=
  c.stateQ = .sofData ∧ c.idxQ = index

/-- Two registers are the same, unless the next byte replaces them. -/
def SameByte {α : Type} (c : State) (index : BitVec 6) (left right : α) :
    Prop :=
  Captures c index ∨ left = right

/-- Two words are the same, up to what the next byte replaces. -/
def SameWord (c : State) (index : BitVec 6) (left right : BitVec 16) : Prop :=
  Captures c index ∨
    (Captures c (index + 1) ∧
      left.extractLsb' 8 8 = right.extractLsb' 8 8) ∨
    left = right

/-- The states of a frame header behind its marker. -/
def inSof : FsmState → Bool
  | .sofLenh | .sofLenl | .sofData => true
  | _ => false

/-- The same frame header, up to what the next byte replaces. -/
structure SameHeader (s c : State) : Prop where
  height : SameWord c 1 s.imgHeightQ c.imgHeightQ
  width : SameWord c 3 s.imgWidthQ c.imgWidthQ
  count : SameByte c 5 s.imgNumCompQ c.imgNumCompQ
  yFactor : SameByte c 7 s.imgYFactorQ c.imgYFactorQ
  yTable : SameByte c 8 s.imgYDqtTableQ c.imgYDqtTableQ
  cbFactor : SameByte c 10 s.imgCbFactorQ c.imgCbFactorQ
  cbTable : SameByte c 11 s.imgCbDqtTableQ c.imgCbDqtTableQ
  crFactor : SameByte c 13 s.imgCrFactorQ c.imgCrFactorQ
  crTable : SameByte c 14 s.imgCrDqtTableQ c.imgCrDqtTableQ
  mode : s.imgModeQ = c.imgModeQ
  /-- A header that is being read has no mode yet. -/
  reading : inSof c.stateQ = true → c.imgModeQ = .unsupported
  /-- The mode that the last byte takes. -/
  decided :
    c.stateQ = .sofData → c.lengthQ ≤ 1 →
      layout s.imgNumCompQ s.imgYFactorQ s.imgCbFactorQ s.imgCrFactorQ =
        layout c.imgNumCompQ c.imgYFactorQ c.imgCbFactorQ c.imgCrFactorQ

section Header

variable {s c : State} {i : Input} {index : BitVec 6}

/-- A captured register after a byte that is shown to both. -/
theorem SameByte.captureNext_eq
    {α : Type}
    {held held' cleared loaded : α}
    (same : SameByte c index held held')
    (control : SameControl s c) :
    captureNext index cleared loaded held s i =
      captureNext index cleared loaded held' c i := by
  rw [captureNext, captureNext, tokenSof0W, control.tokenW_eq, control.state]
  by_cases data : c.stateQ = .sofData
  · rw [control.idx (by simp [data])]
    rcases same with captures | equal
    · simp [captures.1, captures.2]
    · rw [equal]
  · have elsewhere : (c.stateQ == FsmState.sofData) = false := by
      simpa using data
    rcases same with captures | equal
    · exact absurd captures.1 data
    · simp only [elsewhere, Bool.false_and, equal]

theorem SameWord.captureWordNext_eq
    {held held' : BitVec 16}
    (same : SameWord c index held held')
    (control : SameControl s c) :
    captureWordNext index held s i = captureWordNext index held' c i := by
  rw [captureWordNext, captureWordNext, tokenSof0W, control.tokenW_eq,
    control.state, control.dataR_eq]
  by_cases data : c.stateQ = .sofData
  · rw [control.idx (by simp [data])]
    rcases same with captures | ⟨captures, high⟩ | equal
    · simp [captures.1, captures.2]
    · simp only [captures.2, high]
      simp [captures.1]
    · rw [equal]
  · have elsewhere : (c.stateQ == FsmState.sofData) = false := by
      simpa using data
    rcases same with captures | ⟨captures, -⟩ | equal
    · exact absurd captures.1 data
    · exact absurd captures.1 data
    · simp only [elsewhere, Bool.false_and, equal]

/-- A captured register after a gap. -/
theorem SameByte.gap
    {α : Type}
    {held held' cleared loaded : α}
    (same : SameByte c index held held')
    (control : SameControl s c)
    (kept : tokenSof0W s i = true → held = cleared) :
    SameByte c index (captureNext index cleared loaded held s i) held' := by
  rw [captureNext]
  by_cases token : tokenSof0W s i = true
  · rw [if_pos token, ← kept token]
    exact same
  · rw [if_neg token, control.state]
    by_cases captures : Captures c index
    · exact .inl captures
    · have skips : (c.stateQ == FsmState.sofData && s.idxQ == index) =
          false := by
        by_cases data : c.stateQ = .sofData
        · have other : c.idxQ ≠ index := fun here => captures ⟨data, here⟩
          rw [control.idx (by simp [data])]
          simp [other]
        · simp [data]
      rw [skips]
      exact same

theorem SameWord.gap
    {held held' : BitVec 16}
    (same : SameWord c index held held')
    (control : SameControl s c)
    (kept : tokenSof0W s i = true → held = 0) :
    SameWord c index (captureWordNext index held s i) held' := by
  rw [captureWordNext]
  by_cases token : tokenSof0W s i = true
  · rw [if_pos token, ← kept token]
    exact same
  · rw [if_neg token, control.state]
    by_cases data : c.stateQ = .sofData
    · rw [control.idx (by simp [data])]
      by_cases first : c.idxQ = index
      · exact .inl ⟨data, first⟩
      · by_cases second : c.idxQ = index + 1
        · have high :
              held.extractLsb' 8 8 = held'.extractLsb' 8 8 := by
            rcases same with captures | ⟨-, high⟩ | equal
            · exact absurd captures.2 first
            · exact high
            · rw [equal]
          refine .inr (.inl ⟨⟨data, second⟩, ?_⟩)
          simp [data, second, highByte_append, high]
        · simp only [data, beq_self_eq_true, Bool.true_and, beq_iff_eq,
            first, second, if_false]
          exact same
    · simpa [data] using same

theorem inSof_activeNextR
    (enters : inSof (activeNextR c i) = true) :
    tokenSof0W c i = true := by
  rw [activeNextR] at enters
  split_ifs at enters <;> first | assumption | cases enters

/-- A frame header is entered with its token. -/
theorem inSof_nextStateR
    (enters : inSof (nextStateR c i) = true) :
    tokenSof0W c i = true ∨ inSof c.stateQ = true := by
  rw [nextStateR] at enters
  split at enters
  · cases enters
  · rw [caseNextR] at enters
    cases state : c.stateQ <;> simp only [state] at enters <;>
      first
      | exact .inr rfl
      | exact .inl (inSof_activeNextR enters)
      | split at enters <;> cases enters

/-- A header ends with the last byte of its length. -/
theorem completes_length
    (state : c.stateQ = .sofData)
    (completes : nextStateR c i = .active) :
    c.lengthQ ≤ 1 := by
  rw [nextStateR] at completes
  split at completes
  · cases completes
  · rw [caseNextR] at completes
    simp only [state] at completes
    split at completes
    · rename_i ends
      simp only [Bool.and_eq_true, decide_eq_true_eq] at ends
      exact ends.2
    · cases completes

/-- The mode after a byte that is shown to both. -/
theorem SameHeader.imgModeNext_eq
    (same : SameHeader s c)
    (control : SameControl s c) :
    imgModeNext s i = imgModeNext c i := by
  have tokens : tokenSof0W s i = tokenSof0W c i := control.tokenW_eq 0xC0
  by_cases token : tokenSof0W c i = true
  · rw [imgModeNext, imgModeNext, tokens, if_pos token, if_pos token]
  · have noToken : tokenSof0W c i = false := by simpa using token
    by_cases takes :
        c.stateQ = .sofData ∧ nextStateR c i = .active
    · obtain ⟨data, completes⟩ := takes
      have none := same.reading (by rw [data]; rfl)
      rw [imgModeNext_of_completes noToken data completes none,
        imgModeNext_of_completes (tokens.trans noToken)
          (control.state.trans data) (control.nextStateR_eq.trans completes)
          (same.mode.trans none)]
      exact same.decided data (completes_length data completes)
    · have keeps : (c.stateQ == FsmState.sofData &&
          nextStateR c i == FsmState.active) = false := by
        simpa using takes
      unfold imgModeNext
      rw [tokens, control.state, control.nextStateR_eq, keeps, same.mode,
        noToken]
      simp

/-- A byte that is shown to both keeps the header the same. -/
theorem SameHeader.step
    (same : SameHeader s c)
    (control : SameControl s c) :
    SameHeader (step s i) (step c i) := by
  by_cases reset_ : i.rst = true
  · have both : JpegInput.step s i = reset ∧ JpegInput.step c i = reset := by
      simp [JpegInput.step, reset_]
    rw [both.1, both.2]
    exact ⟨.inr (.inr rfl), .inr (.inr rfl), .inr rfl, .inr rfl, .inr rfl,
      .inr rfl, .inr rfl, .inr rfl, .inr rfl, rfl, fun _ => rfl,
      fun _ _ => rfl⟩
  · rw [JpegInput.step, JpegInput.step, if_neg reset_, if_neg reset_]
    have count : imgNumCompNext s i = imgNumCompNext c i := by
      rw [imgNumCompNext, control.dataR_eq]
      exact same.count.captureNext_eq control
    have yFactor : imgYFactorNext s i = imgYFactorNext c i := by
      rw [imgYFactorNext, control.dataR_eq]
      exact same.yFactor.captureNext_eq control
    have cbFactor : imgCbFactorNext s i = imgCbFactorNext c i := by
      rw [imgCbFactorNext, control.dataR_eq]
      exact same.cbFactor.captureNext_eq control
    have crFactor : imgCrFactorNext s i = imgCrFactorNext c i := by
      rw [imgCrFactorNext, control.dataR_eq]
      exact same.crFactor.captureNext_eq control
    exact {
      height := .inr (.inr (same.height.captureWordNext_eq control))
      width := .inr (.inr (same.width.captureWordNext_eq control))
      count := .inr count
      yFactor := .inr yFactor
      yTable := by
        refine .inr ?_
        show imgYDqtTableNext s i = imgYDqtTableNext c i
        rw [imgYDqtTableNext, control.dataR_eq]
        exact same.yTable.captureNext_eq control
      cbFactor := .inr cbFactor
      cbTable := by
        refine .inr ?_
        show imgCbDqtTableNext s i = imgCbDqtTableNext c i
        rw [imgCbDqtTableNext, control.dataR_eq]
        exact same.cbTable.captureNext_eq control
      crFactor := .inr crFactor
      crTable := by
        refine .inr ?_
        show imgCrDqtTableNext s i = imgCrDqtTableNext c i
        rw [imgCrDqtTableNext, control.dataR_eq]
        exact same.crTable.captureNext_eq control
      mode := same.imgModeNext_eq control
      reading := by
        intro reads
        show imgModeNext c i = .unsupported
        rw [imgModeNext]
        by_cases token : tokenSof0W c i = true
        · rw [if_pos token]
        · have before := (inSof_nextStateR reads).resolve_left token
          have goesOn : (nextStateR c i == FsmState.active) = false := by
            cases next : nextStateR c i <;> simp_all [inSof]
          rw [if_neg token, goesOn, Bool.and_false, if_neg (by simp)]
          exact same.reading before
      decided := by
        intro _ _
        simp only [count, yFactor, cbFactor, crFactor] }

/-- A quiet gap keeps the header the same. -/
theorem SameHeader.gap
    (same : SameHeader s c)
    (control : SameControl s c)
    (quiet : Quiet s i)
    (gap : isGap i = true) :
    SameHeader (JpegInput.step s i) c := by
  have pauses := isGap_pauses gap
  have stays := quiet.stays gap
  have cleared := quiet.header
  rw [JpegInput.step, if_neg (by simp [pauses.2])]
  have mode : imgModeNext s i = s.imgModeQ := by
    rw [imgModeNext, stays]
    by_cases token : tokenSof0W s i = true
    · rw [if_pos token, (cleared token).mode]
    · have goesOn : (s.stateQ == FsmState.sofData &&
          s.stateQ == FsmState.active) = false := by
        cases state : s.stateQ <;> simp
      rw [if_neg token, goesOn, if_neg (by simp)]
  exact {
    height := same.height.gap control fun token => (cleared token).height
    width := same.width.gap control fun token => (cleared token).width
    count := same.count.gap control fun token => (cleared token).count
    yFactor := same.yFactor.gap control fun token => (cleared token).yFactor
    yTable := same.yTable.gap control fun token => (cleared token).yTable
    cbFactor := same.cbFactor.gap control fun token => (cleared token).cbFactor
    cbTable := same.cbTable.gap control fun token => (cleared token).cbTable
    crFactor := same.crFactor.gap control fun token => (cleared token).crFactor
    crTable := same.crTable.gap control fun token => (cleared token).crTable
    mode := mode.trans same.mode
    reading := same.reading
    decided := by
      intro data last
      rw [← same.decided data last]
      have state := control.state.trans data
      have length : s.lengthQ ≤ 1 := by
        rwa [control.length (by rw [data]; rfl)]
      show layout (imgNumCompNext s i) (imgYFactorNext s i)
          (imgCbFactorNext s i) (imgCrFactorNext s i) = _
      by_cases token : tokenSof0W s i = true
      · have none := cleared token
        simp only [imgNumCompNext, imgYFactorNext, imgCbFactorNext,
          imgCrFactorNext, captureNext, token, if_true, none.count,
          none.yFactor, none.cbFactor, none.crFactor]
      · rw [← quiet.mode state length]
        simp only [imgNumCompNext, imgYFactorNext, imgCbFactorNext,
          imgCrFactorNext, captureNext, token, state, laneAt,
          beq_self_eq_true, Bool.true_and, beq_iff_eq, Bool.false_eq_true,
          if_false] }

end Header

/-! ## The scan port -/

/-- The pending byte of the scan, with what a gap outside the scan drops. -/
structure SameScan (bus : Bus) (c : State) : Prop where
  data : bus.front.dataDataQ = c.dataDataQ
  valid :
    bus.front.dataValidQ = c.dataValidQ ∨
      (bus.front.dataValidQ = false ∧ c.stateQ = .idle ∧ c.lastBQ = 0xFF)
  /-- Behind the scan a byte only waits in front of the end marker. -/
  waiting :
    c.dataValidQ = true → c.stateQ ≠ .imgData →
      c.stateQ = .idle ∧
        (c.lastBQ = 0xFF →
          ∀ i : Input, bus.words.head? = some i.word → dataR c i = 0xD9)

section Scan

variable {bus : Bus} {c : State} {i : Input}

theorem dataR_of_word
    {j : Input}
    (same : i.word = j.word) :
    dataR c i = dataR c j := by
  obtain ⟨data, strb, -⟩ := Word.mk.inj same
  rw [dataR, dataR, data, strb]

/-- The scan port behind a byte that is shown to both. -/
theorem dataValidNext_eq
    (scan : SameScan bus c)
    (control : SameControl bus.front c) :
    dataValidNext bus.front i = dataValidNext c i := by
  rw [dataValidNext, dataValidNext, tokenPadW, tokenEoiW,
    control.tokenW_eq, control.tokenW_eq, control.state]
  by_cases inScan : c.stateQ = .imgData
  · rcases scan.valid with same | ⟨-, idle, -⟩
    · rw [same]
    · rw [idle] at inScan
      cases inScan
  · simp [inScan]

/-- A byte that waits behind the scan waits in front of the end marker. -/
theorem waiting_step
    (presented : bus.Presents i)
    (control : SameControl bus.front c)
    (valid : i.inportValid = true)
    (running : i.rst = false)
    (waits : (step c i).dataValidQ = true)
    (outside : (step c i).stateQ ≠ .imgData) :
    (step c i).stateQ = .idle ∧
      ((step c i).lastBQ = 0xFF →
        ∀ j : Input, (bus.step i).words.head? = some j.word →
          dataR (step c i) j = 0xD9) := by
  rw [step, if_neg (by simp [running])] at waits outside ⊢
  simp only [dataValidNext, valid, Bool.true_and] at waits
  have inScan : c.stateQ = .imgData := by
    by_cases inScan : c.stateQ = .imgData
    · exact inScan
    · simp [inScan] at waits
  have idle : nextStateR c i = .idle := by
    revert outside
    simp only [nextStateR, caseNextR, inScan]
    split_ifs <;> simp
  refine ⟨idle, fun marker j shown => ?_⟩
  by_cases takes : accepts c i = true
  · -- a byte that is taken ends the scan only with the stream
    simp only [lastBNext, takes, if_true] at marker
    simp only [nextStateR, caseNextR, inScan, takes, Bool.true_and] at idle
    split at marker
    · cases marker
    · rename_i notLast
      rw [if_neg notLast] at idle
      have ends : tokenEoiW c i = true := by
        by_cases ends : tokenEoiW c i = true
        · exact ends
        · simp [ends] at idle
      simp only [tokenEoiW, tokenW, Bool.and_eq_true, beq_iff_eq] at ends
      simp [ends.2] at marker
  · have stalls : accepts c i = false := by simpa using takes
    have ends : tokenEoiW c i = true := by
      simp only [nextStateR, caseNextR, inScan, stalls, Bool.false_and] at idle
      by_cases ends : tokenEoiW c i = true
      · exact ends
      · simp [ends] at idle
    have kept : (bus.step i).words = bus.words := by
      rw [accepts, valid, Bool.true_and] at stalls
      have blocked : inportAcceptW bus.front i = false := by
        have same := control.accepts_eq (i := i)
        rw [accepts, accepts, valid, Bool.true_and, Bool.true_and,
          stalls] at same
        exact same
      simp [Bus.step, inportAcceptO, blocked]
    rw [kept, presented valid] at shown
    have lane : dataR c i = 0xD9 := by
      simp only [tokenEoiW, tokenW, Bool.and_eq_true, beq_iff_eq] at ends
      exact ends.2
    have sameIdx : byteIdxNext c i = c.byteIdxQ := by
      simp [byteIdxNext, stalls]
    rw [← lane, dataR_of_word (Option.some.inj shown), dataR, dataR, sameIdx]

/-- A byte that is shown to both keeps the scan port the same. -/
theorem SameScan.step
    (scan : SameScan bus c)
    (presented : bus.Presents i)
    (control : SameControl bus.front c)
    (shown : isGap i = false) :
    SameScan (bus.step i) (step c i) := by
  by_cases reset_ : i.rst = true
  · have both : (bus.step i).front = reset ∧ JpegInput.step c i = reset := by
      simp [Bus.step, JpegInput.step, reset_]
    refine ⟨?_, .inl ?_, fun waits => ?_⟩
    · rw [both.1, both.2]
    · rw [both.1, both.2]
    · rw [both.2] at waits
      cases waits
  · have running : i.rst = false := by simpa using reset_
    have valid : i.inportValid = true := by simpa [isGap, running] using shown
    refine ⟨?_, .inl ?_,
      waiting_step presented control valid running⟩
    · simp [Bus.step, JpegInput.step, running, dataDataNext,
        control.dataR_eq, scan.data]
    · simpa [Bus.step, JpegInput.step, running] using
        dataValidNext_eq scan control

/-- A quiet gap only drops what the end marker drops. -/
theorem SameScan.gap
    (scan : SameScan bus c)
    (control : SameControl bus.front c)
    (quiet : Quiet bus.front i)
    (gap : isGap i = true) :
    SameScan (bus.step i) c := by
  have pauses := isGap_pauses gap
  have sameWords : (bus.step i).words = bus.words := by
    simp [Bus.step, pauses.1]
  refine ⟨?_, ?_, by rw [sameWords]; exact scan.waiting⟩
  · simp [Bus.step, JpegInput.step, pauses, dataDataNext, scan.data]
  · have next : (bus.step i).front.dataValidQ =
        (c.stateQ == .imgData && bus.front.dataValidQ) := by
      simp only [Bus.step, JpegInput.step, pauses, dataValidNext,
        Bool.false_and, Bool.false_eq_true, if_false, control.state]
      by_cases inScan : c.stateQ = .imgData <;> simp [inScan]
    rw [next]
    by_cases inScan : c.stateQ = .imgData
    · rw [inScan]
      rcases scan.valid with same | ⟨-, idle, -⟩
      · exact .inl (by simpa using same)
      · simp [idle] at inScan
    · have outside : (c.stateQ == FsmState.imgData) = false := by
        simpa using inScan
      rw [outside, Bool.false_and]
      cases waits : c.dataValidQ with
      | false => exact .inl rfl
      | true =>
          obtain ⟨idle, -⟩ := scan.waiting waits inScan
          refine .inr ⟨rfl, idle, ?_⟩
          rcases scan.valid with same | ⟨-, -, marker⟩
          · rw [← control.lastB]
            exact quiet.waiting (control.state.trans idle)
              (same.trans waits)
          · exact marker

/-- The scan port delivers the same byte on both sides. -/
theorem dataTransfer_eq
    (scan : SameScan bus c)
    (control : SameControl bus.front c)
    (presented : bus.Presents i) :
    dataTransfer bus.front i = dataTransfer c i := by
  have same : dataValidO bus.front i = dataValidO c i := by
    rw [dataValidO, dataValidO, tokenEoiW, control.tokenW_eq]
    rcases scan.valid with equal | ⟨dropped, idle, marker⟩
    · rw [equal]
    · rw [dropped]
      cases valid : i.inportValid with
      | false => simp
      | true =>
          cases waits : c.dataValidQ with
          | false => rfl
          | true =>
              obtain ⟨-, ends⟩ := scan.waiting waits (by simp [idle])
              have lane := ends marker i (presented valid)
              simp [tokenW, marker, lane]
  rw [dataTransfer, dataTransfer, same, dataDataO, dataDataO, scan.data]

end Scan

/-! ## Runs with and without gaps -/

/-- The front end with gaps beside the one without. -/
structure GapAlike (bus : Bus) (c : State) : Prop where
  control : SameControl bus.front c
  header : SameHeader bus.front c
  scan : SameScan bus c

/-- What is asked of a cycle: a valid word is the next one, a gap is quiet. -/
def Admits (bus : Bus) (i : Input) : Prop :=
  bus.Presents i ∧ QuietGap bus.front i

/-- The registers of the image parameters. -/
structure ImageParameters where
  mode : ImageMode
  width : BitVec 16
  height : BitVec 16
  yTable : BitVec 2
  cbTable : BitVec 2
  crTable : BitVec 2
  deriving Repr, DecidableEq

/-- The image parameters, unless the payload of a header is being captured. -/
def settledParameters (s : State) : Option ImageParameters :=
  if s.stateQ = .sofData then none
  else some {
    mode := s.imgModeQ
    width := s.imgWidthQ
    height := s.imgHeightQ
    yTable := s.imgYDqtTableQ
    cbTable := s.imgCbDqtTableQ
    crTable := s.imgCrDqtTableQ }

section Runs

variable {bus : Bus} {c : State} {i : Input}

theorem gapAlike_start
    (words : List Word) :
    GapAlike (Bus.start words) reset where
  control := ⟨rfl, rfl, rfl, fun _ => rfl, fun _ => rfl⟩
  header := ⟨.inr (.inr rfl), .inr (.inr rfl), .inr rfl, .inr rfl, .inr rfl,
    .inr rfl, .inr rfl, .inr rfl, .inr rfl, rfl, fun _ => rfl, fun _ _ => rfl⟩
  scan := ⟨rfl, .inl rfl, fun waits => by cases waits⟩

/-- A gap is seen on one side only. -/
theorem GapAlike.gap
    (alike : GapAlike bus c)
    (admitted : Admits bus i)
    (gap : isGap i = true) :
    GapAlike (bus.step i) c where
  control := alike.control.gap (admitted.2 gap) gap
  header := alike.header.gap alike.control (admitted.2 gap) gap
  scan := alike.scan.gap alike.control (admitted.2 gap) gap

/-- Every other cycle is seen on both sides. -/
theorem GapAlike.step
    (alike : GapAlike bus c)
    (admitted : Admits bus i)
    (shown : isGap i = false) :
    GapAlike (bus.step i) (step c i) where
  control := alike.control.step
  header := alike.header.step alike.control
  scan := alike.scan.step admitted.1 alike.control shown

/-- Outside the payload of a header the parameters are the same. -/
theorem GapAlike.settledParameters_eq
    (alike : GapAlike bus c) :
    settledParameters bus.front = settledParameters c := by
  have header := alike.header
  rw [settledParameters, settledParameters, alike.control.state]
  by_cases data : c.stateQ = .sofData
  · rw [if_pos data, if_pos data]
  · have byte {α : Type} {index : BitVec 6} {left right : α}
        (same : SameByte c index left right) : left = right :=
      same.resolve_left fun captures => data captures.1
    have word {index : BitVec 6} {left right : BitVec 16}
        (same : SameWord c index left right) : left = right :=
      (same.resolve_left fun captures => data captures.1).resolve_left
        fun captures => data captures.1.1
    rw [if_neg data, if_neg data, header.mode, word header.width,
      word header.height, byte header.yTable, byte header.cbTable,
      byte header.crTable]

/-- The configuration ports deliver the same bytes on both sides. -/
theorem dqtTransfer_eq
    (control : SameControl bus.front c) :
    dqtTransfer bus.front i = dqtTransfer c i := by
  have length := control.length
  rw [dqtTransfer, dqtTransfer, dqtCfgValidO, dqtCfgValidO, dqtCfgDataO,
    dqtCfgDataO, dqtCfgLastO, dqtCfgLastO, control.state, control.dataR_eq]
  by_cases data : c.stateQ = .dqtData
  · rw [length (by rw [data]; rfl)]
  · simp [data]

theorem dhtTransfer_eq
    (control : SameControl bus.front c) :
    dhtTransfer bus.front i = dhtTransfer c i := by
  have length := control.length
  rw [dhtTransfer, dhtTransfer, dhtCfgValidO, dhtCfgValidO, dhtCfgDataO,
    dhtCfgDataO, dhtCfgLastO, dhtCfgLastO, control.state, control.dataR_eq]
  by_cases data : c.stateQ = .dhtData
  · rw [length (by rw [data]; rfl)]
  · simp [data]

theorem admits_of_quiet
    {words : List Word}
    {cycles : List Input}
    (presented : Along Bus.step Bus.Presents (Bus.start words) cycles)
    (quiet : Along step QuietGap reset cycles) :
    Along Bus.step Admits (Bus.start words) cycles :=
  presented.both
    ((along_projected Bus.front (fun _ _ => rfl) (Bus.start words)
      cycles).mpr quiet)

/-- What is delivered in valid cycles only is delivered without the gaps. -/
theorem observe_without_gaps
    {Observation : Type}
    (observation : State → Input → List Observation)
    (silent : ∀ s i, i.inportValid = false → observation s i = [])
    (shown :
      ∀ bus c i, GapAlike bus c → bus.Presents i →
        observation bus.front i = observation c i)
    {words : List Word}
    {cycles : List Input}
    (admitted : Along Bus.step Admits (Bus.start words) cycles) :
    observe step observation reset cycles =
      observe step observation reset
        (cycles.filter fun i => !isGap i) := by
  have projected :
      observe Bus.step (fun bus i => observation bus.front i)
          (Bus.start words) cycles =
        observe step observation reset cycles :=
    observe_projected Bus.front (fun _ _ => rfl) (Bus.start words) cycles
  rw [← projected]
  exact observe_without_hidden
    (fun _ _ _ alike now gap => alike.gap now gap)
    (fun _ _ _ alike now shown => alike.step now shown)
    (fun bus i gap => silent bus.front i (isGap_pauses gap).1)
    (fun bus c i alike now _ => shown bus c i alike now.1)
    (gapAlike_start words) admitted

/-- The parameters that are captured are captured without the gaps. -/
theorem settledParameters_without_gaps
    {words : List Word}
    {cycles : List Input}
    (admitted : Along Bus.step Admits (Bus.start words) cycles) :
    settledParameters (run step reset cycles) =
      settledParameters
        (run step reset (cycles.filter fun i => !isGap i)) := by
  have alike :
      GapAlike (run Bus.step (Bus.start words) cycles)
        (run step reset (cycles.filter fun i => !isGap i)) :=
    related_without_hidden
      (fun _ _ _ alike now gap => alike.gap now gap)
      (fun _ _ _ alike now shown => alike.step now shown)
      (gapAlike_start words) admitted
  have projected :
      (run Bus.step (Bus.start words) cycles).front =
        run step reset cycles :=
    run_projected Bus.front (fun _ _ => rfl) (Bus.start words) cycles
  rw [← projected]
  exact alike.settledParameters_eq

/-- A run delivers and captures what it does without its quiet gaps. -/
theorem run_without_gaps
    {words : List Word}
    {cycles : List Input}
    (admitted : Along Bus.step Admits (Bus.start words) cycles) :
    (observe step dqtTransfer reset cycles =
        observe step dqtTransfer reset (cycles.filter fun i => !isGap i) ∧
      observe step dhtTransfer reset cycles =
        observe step dhtTransfer reset (cycles.filter fun i => !isGap i) ∧
      observe step dataTransfer reset cycles =
        observe step dataTransfer reset (cycles.filter fun i => !isGap i)) ∧
      settledParameters (run step reset cycles) =
        settledParameters
          (run step reset (cycles.filter fun i => !isGap i)) := by
  refine ⟨⟨?_, ?_, ?_⟩, settledParameters_without_gaps admitted⟩
  · exact observe_without_gaps dqtTransfer
      (fun s i pauses => by simp [dqtTransfer, dqtCfgValidO, pauses])
      (fun _ _ _ alike _ => dqtTransfer_eq alike.control) admitted
  · exact observe_without_gaps dhtTransfer
      (fun s i pauses => by simp [dhtTransfer, dhtCfgValidO, pauses])
      (fun _ _ _ alike _ => dhtTransfer_eq alike.control) admitted
  · exact observe_without_gaps dataTransfer
      (fun s i pauses => by simp [dataTransfer, dataValidO, pauses])
      (fun _ _ _ alike presented =>
        dataTransfer_eq alike.scan alike.control presented) admitted

end Runs

/-! ## Two runs of one stream -/

/--
Two runs that present the same words and differ only in their gaps deliver the
same bytes on the three ports and capture the same image parameters, if every
gap of both is quiet.
-/
theorem gaps_leave_no_trace
    (words : List Word)
    (first second : List Input)
    (same :
      (first.filter fun i => !isGap i) = second.filter fun i => !isGap i)
    (firstPresented : Along Bus.step Bus.Presents (Bus.start words) first)
    (secondPresented : Along Bus.step Bus.Presents (Bus.start words) second)
    (firstQuiet : Along step QuietGap reset first)
    (secondQuiet : Along step QuietGap reset second) :
    (observe step dqtTransfer reset first =
        observe step dqtTransfer reset second ∧
      observe step dhtTransfer reset first =
        observe step dhtTransfer reset second ∧
      observe step dataTransfer reset first =
        observe step dataTransfer reset second) ∧
      settledParameters (run step reset first) =
        settledParameters (run step reset second) := by
  obtain ⟨⟨dqt, dht, data⟩, parameters⟩ :=
    run_without_gaps (admits_of_quiet firstPresented firstQuiet)
  obtain ⟨⟨dqt', dht', data'⟩, parameters'⟩ :=
    run_without_gaps (admits_of_quiet secondPresented secondQuiet)
  rw [same] at dqt dht data parameters
  exact ⟨⟨dqt.trans dqt'.symm, dht.trans dht'.symm, data.trans data'.symm⟩,
    parameters.trans parameters'.symm⟩

/-- A word on the pins, with every lane strobed and every handshake raised. -/
def pins (valid : Bool) (data : BitVec 32) : Input where
  rst := false
  inportValid := valid
  inportData := data
  inportStrb := 0xF
  inportLast := false
  dqtCfgAccept := true
  dhtCfgAccept := true
  dataAccept := true

/-- The cycles of a stream of words, a byte in each. -/
def wordCycles (words : List (BitVec 32)) : List Input :=
  (words.map fun data => List.replicate 4 (pins true data)).flatten

/-- A start marker and a comment whose last byte stands before an `FF`. -/
def commentWords : List (BitVec 32) := [0xFEFFD8FF, 0x42410700, 0xFF4443C4]

/-- The rest of a table definition. -/
def tableWords : List (BitVec 32) := [0x004300DB, 0x10101010]

/-- The words as a stream. -/
def tableStream : List Word :=
  (commentWords ++ tableWords).map fun data =>
    { data := data, strb := 0xF, last := false }

theorem gaps_leave_no_trace_zero :
    let first := wordCycles (commentWords ++ tableWords)
    let second :=
      wordCycles commentWords ++ pins false 0 :: wordCycles tableWords
    (observe step dqtTransfer reset first =
        observe step dqtTransfer reset second ∧
      observe step dhtTransfer reset first =
        observe step dhtTransfer reset second ∧
      observe step dataTransfer reset first =
        observe step dataTransfer reset second) ∧
      settledParameters (run step reset first) =
        settledParameters (run step reset second) :=
  gaps_leave_no_trace tableStream _ _ (by decide +kernel)
    (by decide +kernel) (by decide +kernel) (by decide +kernel)
    (by decide +kernel)

/--
The last word of the comment stays on the pins for a cycle: its first byte
`C4` makes a Huffman table of the quantisation table.
-/
theorem stale_word_acts :
    ¬∀ (words : List Word) (first second : List Input),
      (first.filter fun i => !isGap i) =
          (second.filter fun i => !isGap i) →
      Along Bus.step Bus.Presents (Bus.start words) first →
      Along Bus.step Bus.Presents (Bus.start words) second →
      (observe step dqtTransfer reset first =
          observe step dqtTransfer reset second ∧
        observe step dhtTransfer reset first =
          observe step dhtTransfer reset second ∧
        observe step dataTransfer reset first =
          observe step dataTransfer reset second) ∧
        settledParameters (run step reset first) =
          settledParameters (run step reset second) := by
  intro claimed
  obtain ⟨⟨dqt, -⟩, -⟩ :=
    claimed tableStream (wordCycles (commentWords ++ tableWords))
      (wordCycles commentWords ++
        pins false 0xFF4443C4 :: wordCycles tableWords)
      (by decide +kernel) (by decide +kernel) (by decide +kernel)
  revert dqt
  decide +kernel

end CoreJpeg.JpegInput
