import CoreJpeg.InputStructure
import Mathlib.Tactic.Simps.Basic

namespace CoreJpeg.JpegInput

open Clocked

/-!
# Are segment payloads opaque to the front end?

The token wires compare raw adjacent bytes in every state, so a byte pair
inside a payload can reach the start, end and frame-header registers.  This
module runs the front end on two streams that differ only in the payload of
skipped segments and states when the difference is invisible: the two streams
must agree on which of their payload pairs still have an effect.
-/

/-- Two streams of one structure that differ only in skipped payload. -/
def Variant : Walker → List Byte → List Byte → Prop
  | _, [], [] => True
  | walker, left :: leftRest, right :: rightRest =>
      walker.Admits left ∧
        (left = right ∨ walker.inSkipped = true) ∧
        Variant (walker.next left) leftRest rightRest
  | _, _, _ => False

instance decidableVariant :
    ∀ walker left right, Decidable (Variant walker left right)
  | _, [], [] => isTrue trivial
  | _, [], _ :: _ => isFalse id
  | _, _ :: _, [] => isFalse id
  | walker, left :: leftRest, _ :: rightRest =>
      have := decidableVariant (walker.next left) leftRest rightRest
      inferInstanceAs (Decidable (_ ∧ _ ∧ _))

/-- Two runs side by side, with their common position and the bytes left. -/
structure Twin where
  walker : Walker
  leftRest : List Byte
  rightRest : List Byte
  left : State
  right : State

namespace Twin

/-- Two streams presented from reset. -/
def start (leftRest rightRest : List Byte) : Twin where
  walker := .outside false
  leftRest := leftRest
  rightRest := rightRest
  left := reset
  right := reset

/-- One clock edge of both runs. -/
def step (twin : Twin) (cycle : Input × Input) : Twin where
  walker := walkerAfter twin.walker twin.left cycle.1
  leftRest := restAfter twin.leftRest twin.left cycle.1
  rightRest := restAfter twin.rightRest twin.right cycle.2
  left := JpegInput.step twin.left cycle.1
  right := JpegInput.step twin.right cycle.2

/-- Both runs are shown their streams under one stall pattern. -/
def Presented (twin : Twin) (cycle : Input × Input) : Prop :=
  Shows twin.leftRest twin.left cycle.1 ∧
    Shows twin.rightRest twin.right cycle.2 ∧
    cycle.1.inportValid = cycle.2.inportValid ∧
    cycle.1.dqtCfgAccept = cycle.2.dqtCfgAccept ∧
    cycle.1.dhtCfgAccept = cycle.2.dhtCfgAccept ∧
    cycle.1.dataAccept = cycle.2.dataAccept

instance (twin : Twin) (cycle : Input × Input) :
    Decidable (twin.Presented cycle) :=
  inferInstanceAs (Decidable (_ ∧ _ ∧ _ ∧ _ ∧ _ ∧ _))

end Twin

/-! ## What is observed -/

/-- The frame-header registers that are outputs. -/
def captured (s : State) :
    ImageMode × BitVec 16 × BitVec 16 × BitVec 2 × BitVec 2 × BitVec 2 :=
  (s.imgModeQ, s.imgWidthQ, s.imgHeightQ, s.imgYDqtTableQ,
    s.imgCbDqtTableQ, s.imgCrDqtTableQ)

/-- The frame-header registers read only by the mode decision. -/
def factors (s : State) : Byte × Byte × Byte × Byte × Byte :=
  (s.imgPrecisionQ, s.imgNumCompQ, s.imgYFactorQ, s.imgCbFactorQ,
    s.imgCrFactorQ)

/-- The registered image outputs. -/
def imageOutputs (s : State) :
    Bool ×
      (ImageMode × BitVec 16 × BitVec 16 ×
        BitVec 2 × BitVec 2 × BitVec 2) :=
  (imgStartO s, captured s)

/-- The end level and the bytes delivered in one cycle. -/
def cycleOutputs (s : State) (i : Input) :
    Bool × List (Byte × Bool) × List (Byte × Bool) × List Byte :=
  (imgEndO s i, dqtTransfer s i, dhtTransfer s i, dataTransfer s i)

/-- The registers with the previous byte forgotten: no pair is recognised. -/
@[simps] def muted (s : State) : State := { s with lastBQ := 0 }

/--
The byte pair of a cycle acts as a marker: it changes the end level or a
register other than the previous byte.
-/
def PairActs (s : State) (i : Input) : Prop :=
  imgEndO s i ≠ imgEndO (muted s) i ∨
    muted (step s i) ≠ muted (step (muted s) i)

instance (s : State) (i : Input) : Decidable (PairActs s i) :=
  inferInstanceAs (Decidable (_ ∨ _))

/--
What one cycle of two runs shows when payloads are opaque: every output
agrees, and no byte pair of a table or frame-header payload acts as a marker.
-/
def OpaqueCycle (now : Twin) (cycle : Input × Input) : Prop :=
  imageOutputs now.left = imageOutputs now.right ∧
    cycleOutputs now.left cycle.1 = cycleOutputs now.right cycle.2 ∧
    (now.walker.inTable = true →
      ¬ PairActs now.left cycle.1 ∧ ¬ PairActs now.right cycle.2)

instance (now : Twin) (cycle : Input × Input) :
    Decidable (OpaqueCycle now cycle) :=
  @instDecidableAnd _ _ inferInstance
    (@instDecidableAnd _ _ inferInstance inferInstance)

/-- Payloads are opaque along a pair of runs, up to the last clock edge. -/
def Opaque (twin : Twin) (cycles : List (Input × Input)) : Prop :=
  Along Twin.step OpaqueCycle twin cycles ∧
    imageOutputs (run Twin.step twin cycles).left =
      imageOutputs (run Twin.step twin cycles).right

instance (twin : Twin) (cycles : List (Input × Input)) :
    Decidable (Opaque twin cycles) :=
  inferInstanceAs (Decidable (_ ∧ _))

/-! ## When a payload pair has an effect -/

/-- `FF D9` is seen while no end marker was seen before. -/
def endEffect (s : State) (i : Input) : Bool :=
  i.inportValid && tokenEoiW s i && !s.eofQ

/-- `FF DA` is seen while the start level is raised. -/
def scanEffect (s : State) (i : Input) : Bool :=
  i.inportValid && tokenSosW s i && s.startQ

/-- `FF C0` is seen while a captured frame-header output is set. -/
def frameEffect (s : State) (i : Input) : Bool :=
  tokenSof0W s i && captured s != captured reset

/-- The capture indices at which the byte `C0` loads a non-zero value. -/
def loadsCapture (idx : BitVec 6) : Bool :=
  idx ≤ 5 || idx == 7 || idx == 10 || idx == 13

/-- `FF C0` is seen while a header register is set or loaded by the `C0`. -/
def headerEffect (s : State) (i : Input) : Bool :=
  tokenSof0W s i &&
    ((captured s != captured reset || factors s != factors reset) ||
      (s.stateQ == .sofData && loadsCapture s.idxQ))

/--
The payload pairs of one cycle of two runs are inert: in skipped payload the
two streams agree on the pairs that have an effect, and in table and
frame-header payload no pair has one.
-/
def InertCycle (now : Twin) (cycle : Input × Input) : Prop :=
  (now.walker.inSkipped = true →
    endEffect now.left cycle.1 = endEffect now.right cycle.2 ∧
      scanEffect now.left cycle.1 = scanEffect now.right cycle.2 ∧
      frameEffect now.left cycle.1 = frameEffect now.right cycle.2) ∧
  (now.walker.inTable = true →
    ∀ run ∈ [(now.left, cycle.1), (now.right, cycle.2)],
      endEffect run.1 run.2 = false ∧
        scanEffect run.1 run.2 = false ∧
        headerEffect run.1 run.2 = false)

instance (now : Twin) (cycle : Input × Input) :
    Decidable (InertCycle now cycle) := by
  unfold InertCycle
  infer_instance

/-- The payload pairs of two runs are inert in every cycle. -/
def PairsInert (twin : Twin) (cycles : List (Input × Input)) : Prop :=
  Along Twin.step InertCycle twin cycles

instance (twin : Twin) (cycles : List (Input × Input)) :
    Decidable (PairsInert twin cycles) :=
  inferInstanceAs (Decidable (Along _ _ _ _))

/-! ## Table and frame-header payload -/

section Tables

variable {s : State} {i : Input}

@[simp] theorem dataR_muted : dataR (muted s) i = dataR s i := rfl

@[simp] theorem tokenW_muted (code : Byte) :
    tokenW code (muted s) i = false := by
  simp [tokenW]

/-- Outside the scan no handshake depends on the previous byte. -/
theorem accepts_muted (notScan : s.stateQ ≠ .imgData) :
    accepts (muted s) i = accepts s i := by
  cases atState : s.stateQ <;> simp_all [accepts, inportAcceptW]

/-- The states that consume the payload of a skipped, table or frame segment. -/
def InPayload (s : State) : Prop :=
  s.stateQ = .dqtData ∨ s.stateQ = .dhtData ∨
    s.stateQ = .sofData ∨ s.stateQ = .uxpData

/-- In a payload the transitions do not depend on the previous byte. -/
theorem nextStateR_muted (inPayload : InPayload s) :
    nextStateR (muted s) i = nextStateR s i := by
  have sameAccepts : accepts (muted s) i = accepts s i :=
    accepts_muted (by rcases inPayload with h | h | h | h <;> simp [h])
  rcases inPayload with h | h | h | h <;>
    simp [nextStateR, caseNextR, h, sameAccepts]

/-- The SOF0 token loads the reset values; otherwise the pair is not seen. -/
theorem header_step
    (inPayload : InPayload s)
    (running : i.rst = false) :
    captured (step s i) =
        (if tokenSof0W s i then captured reset
          else captured (step (muted s) i)) ∧
      factors (step s i) =
        (if tokenSof0W s i then factors reset
          else factors (step (muted s) i)) := by
  have sameNext := nextStateR_muted (i := i) inPayload
  have notSeen : tokenSof0W (muted s) i = false := tokenW_muted _
  cases seen : tokenSof0W s i <;>
    simp [captured, factors, step, running, imgModeNext, imgWidthNext,
      imgHeightNext, imgYDqtTableNext, imgCbDqtTableNext,
      imgCrDqtTableNext, imgPrecisionNext, imgNumCompNext,
      imgYFactorNext, imgCbFactorNext, imgCrFactorNext, captureNext,
      captureWordNext, seen, notSeen, reset, sameNext]

/-- In a payload the other registers do not depend on the previous byte. -/
theorem control_step
    (inPayload : InPayload s)
    (running : i.rst = false) :
    (step s i).byteIdxQ = (step (muted s) i).byteIdxQ ∧
      (step s i).stateQ = (step (muted s) i).stateQ ∧
      (step s i).lengthQ = (step (muted s) i).lengthQ ∧
      (step s i).dataValidQ = (step (muted s) i).dataValidQ ∧
      (step s i).dataDataQ = (step (muted s) i).dataDataQ ∧
      (step s i).idxQ = (step (muted s) i).idxQ := by
  have sameNext := nextStateR_muted (i := i) inPayload
  have sameAccepts : accepts (muted s) i = accepts s i :=
    accepts_muted (by rcases inPayload with h | h | h | h <;> simp [h])
  rcases inPayload with h | h | h | h <;>
    simp [step, running, byteIdxNext, lengthNext, dataValidNext,
      dataDataNext, idxNext, sameNext, sameAccepts, h] <;>
    rfl

/-- In a payload the end and start levels move with their effects. -/
theorem levels_step
    (inPayload : InPayload s)
    (running : i.rst = false) :
    (step s i).eofQ = ((step (muted s) i).eofQ || endEffect s i) ∧
      (step s i).startQ = ((step (muted s) i).startQ && !scanEffect s i) ∧
      imgEndO s i = (imgEndO (muted s) i || endEffect s i) := by
  have notIdle : s.stateQ ≠ .idle := by
    rcases inPayload with h | h | h | h <;> simp [h]
  have notEnd : tokenEoiW (muted s) i = false := tokenW_muted _
  have notScan : tokenSosW (muted s) i = false := tokenW_muted _
  cases valid : i.inportValid <;> cases ended : s.eofQ <;>
    cases started : s.startQ <;> cases sos : tokenSosW s i <;>
    cases eoi : tokenEoiW s i <;>
    simp [step, running, eofNext, startNext, imgEndO, endEffect,
      scanEffect, notIdle, notEnd, notScan, valid, ended, started, sos, eoi]

/-- An effect on a level finds the level unset without the pair. -/
theorem effect_visible
    (inPayload : InPayload s)
    (running : i.rst = false) :
    (endEffect s i = true → imgEndO (muted s) i = false) ∧
      (scanEffect s i = true → (step (muted s) i).startQ = true) := by
  have notIdle : s.stateQ ≠ .idle := by
    rcases inPayload with h | h | h | h <;> simp [h]
  have notEnd : tokenEoiW (muted s) i = false := tokenW_muted _
  have notScan : tokenSosW (muted s) i = false := tokenW_muted _
  constructor
  · intro effect
    simp only [endEffect, Bool.and_eq_true, Bool.not_eq_true'] at effect
    simp [imgEndO, notEnd, effect.2]
  · intro effect
    simp only [scanEffect, Bool.and_eq_true] at effect
    simp [step, running, startNext, notScan, notIdle, effect.2]

/-- A state is determined by its registers grouped as above. -/
theorem muted_eq_iff (s t : State) :
    muted s = muted t ↔
      (s.byteIdxQ = t.byteIdxQ ∧ s.stateQ = t.stateQ ∧
        s.lengthQ = t.lengthQ ∧ s.dataValidQ = t.dataValidQ ∧
        s.dataDataQ = t.dataDataQ ∧ s.idxQ = t.idxQ) ∧
      (captured s = captured t ∧ factors s = factors t) ∧
      s.eofQ = t.eofQ ∧ s.startQ = t.startQ := by
  cases s
  cases t
  simp only [muted, captured, factors, State.mk.injEq, Prod.mk.injEq]
  tauto

/--
The capture index counts from the length bytes.  A table selector is captured
one byte after its sampling factors, so an `FF` before it was captured as the
factors.
-/
def FactorsFollow (s : State) : Prop :=
  (s.stateQ = .sofLenl → s.idxQ = 0) ∧
    (s.stateQ = .sofData →
      s.lastBQ = 0xFF →
        (s.idxQ = 8 → s.imgYFactorQ = 0xFF) ∧
          (s.idxQ = 11 → s.imgCbFactorQ = 0xFF) ∧
          (s.idxQ = 14 → s.imgCrFactorQ = 0xFF))

/-- Outside the frame header a payload leaves the header registers alone. -/
theorem header_held
    (inPayload : InPayload s)
    (notFrame : s.stateQ ≠ .sofData)
    (running : i.rst = false) :
    captured (step (muted s) i) = captured s ∧
      factors (step (muted s) i) = factors s := by
  have notSeen : tokenSof0W (muted s) i = false := tokenW_muted _
  rcases inPayload with h | h | h | h <;>
    simp_all [captured, factors, step, imgModeNext, imgWidthNext,
      imgHeightNext, imgYDqtTableNext, imgCbDqtTableNext,
      imgCrDqtTableNext, imgPrecisionNext, imgNumCompNext,
      imgYFactorNext, imgCbFactorNext, imgCrFactorNext, captureNext,
      captureWordNext]

/-- At a capture index the byte `C0` sets a frame-header register. -/
theorem header_loaded
    (atFrame : s.stateQ = .sofData)
    (running : i.rst = false)
    (lane : dataR s i = 0xC0)
    (loads : loadsCapture s.idxQ = true) :
    captured (step (muted s) i) ≠ captured reset ∨
      factors (step (muted s) i) ≠ factors reset := by
  have notSeen : tokenSof0W (muted s) i = false := tokenW_muted _
  have index :
      s.idxQ = 0 ∨ s.idxQ = 1 ∨ s.idxQ = 2 ∨ s.idxQ = 3 ∨ s.idxQ = 4 ∨
        s.idxQ = 5 ∨ s.idxQ = 7 ∨ s.idxQ = 10 ∨ s.idxQ = 13 := by
    simp only [loadsCapture, Bool.or_eq_true, decide_eq_true_eq,
      beq_iff_eq] at loads
    bv_omega
  have word (held : BitVec 8) : held ++ 192#8 ≠ 0#16 := by
    intro zero
    have whole := congrArg BitVec.toNat zero
    rw [BitVec.toNat_append] at whole
    simpa using (Nat.or_eq_zero_iff.mp whole).2
  simp only [captured, factors, step, running, imgWidthNext, imgHeightNext,
    imgPrecisionNext, imgNumCompNext, imgYFactorNext, imgCbFactorNext,
    imgCrFactorNext, captureNext, captureWordNext, notSeen, atFrame,
    muted_stateQ, muted_idxQ, dataR_muted, lane, reset, ne_eq,
    Prod.mk.injEq, not_and_or, Bool.false_eq_true, if_false]
  rcases index with h | h | h | h | h | h | h | h | h <;>
    simp [h, word]

/-- At the other indices a set header register stays set. -/
theorem header_kept
    (running : i.rst = false)
    (follow :
      (s.idxQ = 8 → s.imgYFactorQ = 0xFF) ∧
        (s.idxQ = 11 → s.imgCbFactorQ = 0xFF) ∧
        (s.idxQ = 14 → s.imgCrFactorQ = 0xFF))
    (idle : loadsCapture s.idxQ = false) :
    (captured (step (muted s) i) = captured reset ∧
        factors (step (muted s) i) = factors reset) ↔
      captured s = captured reset ∧ factors s = factors reset := by
  have notSeen : tokenSof0W (muted s) i = false := tokenW_muted _
  have index :
      s.idxQ ≠ 0#6 ∧ s.idxQ ≠ 1#6 ∧ s.idxQ ≠ 2#6 ∧ s.idxQ ≠ 3#6 ∧
        s.idxQ ≠ 4#6 ∧ s.idxQ ≠ 5#6 ∧ s.idxQ ≠ 7#6 ∧ s.idxQ ≠ 10#6 ∧
        s.idxQ ≠ 13#6 := by
    simp only [loadsCapture, Bool.or_eq_false_iff, decide_eq_false_iff_not,
      beq_eq_false_iff_ne] at idle
    bv_omega
  have heldFactors : factors (step (muted s) i) = factors s := by
    simp [factors, step, running, imgPrecisionNext, imgNumCompNext,
      imgYFactorNext, imgCbFactorNext, imgCrFactorNext, captureNext,
      notSeen, index]
  rw [heldFactors, and_congr_left_iff]
  intro cleared
  simp only [factors, reset, Prod.mk.injEq] at cleared
  have notTable : s.idxQ ≠ 8#6 ∧ s.idxQ ≠ 11#6 ∧ s.idxQ ≠ 14#6 := by
    refine ⟨?_, ?_, ?_⟩ <;> intro here <;> simp_all
  simp [captured, step, running, imgModeNext, imgWidthNext, imgHeightNext,
    imgYDqtTableNext, imgCbDqtTableNext, imgCrDqtTableNext, captureNext,
    captureWordNext, notSeen, index, notTable, cleared]

/-- Behind `FF` the header ends up cleared only if it was and stays so. -/
theorem header_cleared_iff
    (inPayload : InPayload s)
    (running : i.rst = false)
    (follow : FactorsFollow s)
    (seen : tokenSof0W s i = true) :
    (captured (step (muted s) i) = captured reset ∧
        factors (step (muted s) i) = factors reset) ↔
      (captured s = captured reset ∧ factors s = factors reset) ∧
        ¬ (s.stateQ = .sofData ∧ loadsCapture s.idxQ = true) := by
  obtain ⟨afterFF, lane⟩ : s.lastBQ = 0xFF ∧ dataR s i = 0xC0 := by
    simpa [tokenSof0W, tokenW] using seen
  by_cases atFrame : s.stateQ = .sofData
  · cases loads : loadsCapture s.idxQ with
    | true =>
        have loaded := header_loaded atFrame running lane loads
        simp only [atFrame, true_and, not_true, and_false, iff_false]
        tauto
    | false =>
        simp only [Bool.false_eq_true, and_false, not_false_eq_true,
          and_true]
        exact header_kept running (follow.2 atFrame afterFF) loads
  · have held := header_held inPayload atFrame running
    simp [held, atFrame]

/-- In a payload a pair acts exactly when it has an effect. -/
theorem pairActs_iff
    (inPayload : InPayload s)
    (running : i.rst = false)
    (follow : FactorsFollow s) :
    ¬ PairActs s i ↔
      endEffect s i = false ∧ scanEffect s i = false ∧
        headerEffect s i = false := by
  have header := header_step inPayload running
  have control := control_step inPayload running
  have levels := levels_step inPayload running
  have visible := effect_visible inPayload running
  rw [PairActs, not_or, not_not, not_not, muted_eq_iff]
  have sameHeader :
      (captured (step s i) = captured (step (muted s) i) ∧
          factors (step s i) = factors (step (muted s) i)) ↔
        headerEffect s i = false := by
    rw [header.1, header.2]
    cases seen : tokenSof0W s i with
    | false =>
        simp [headerEffect, seen]
    | true =>
        have cleared := header_cleared_iff inPayload running follow seen
        rw [if_pos rfl, if_pos rfl, eq_comm, @eq_comm _ (factors reset),
          cleared]
        simp only [headerEffect, seen, Bool.true_and, Bool.or_eq_false_iff,
          bne_eq_false_iff_eq, Bool.and_eq_false_iff,
          beq_eq_false_iff_ne, not_and, Bool.not_eq_true, imp_iff_not_or]
  rw [sameHeader]
  constructor
  · rintro ⟨sameEnd, _, noHeader, _, sameStart⟩
    refine ⟨?_, ?_, noHeader⟩
    · rw [levels.2.2] at sameEnd
      by_contra effect
      simp only [Bool.not_eq_false] at effect
      simp [visible.1 effect, effect] at sameEnd
    · rw [levels.2.1] at sameStart
      by_contra effect
      simp only [Bool.not_eq_false] at effect
      simp [visible.2 effect, effect] at sameStart
  · rintro ⟨noEnd, noScan, noHeader⟩
    exact ⟨by simp [levels, noEnd], control, noHeader,
      by simp [levels, noEnd], by simp [levels, noScan]⟩

end Tables

/-! ## Skipped payload -/

section Skipped

variable {s t : State} {i j : Input}

/-- In skipped payload only the three effects move an image register. -/
theorem skipped_step
    (atSkipped : s.stateQ = .uxpData)
    (streaming : Streaming s i) :
    captured (step s i) =
        (if frameEffect s i then captured reset else captured s) ∧
      (step s i).eofQ = (s.eofQ || endEffect s i) ∧
      (step s i).startQ = (s.startQ && !scanEffect s i) ∧
      imgEndO s i = (s.eofQ || endEffect s i) := by
  have inPayload : InPayload s := by simp [InPayload, atSkipped]
  have header := header_step inPayload streaming.1
  have levels := levels_step inPayload streaming.1
  have notSof0 : tokenSof0W (muted s) i = false := tokenW_muted _
  have notEnd : tokenEoiW (muted s) i = false := tokenW_muted _
  have notScan : tokenSosW (muted s) i = false := tokenW_muted _
  have held : captured (step (muted s) i) = captured s := by
    simp [captured, step, streaming.1, imgModeNext, imgWidthNext,
      imgHeightNext, imgYDqtTableNext, imgCbDqtTableNext,
      imgCrDqtTableNext, captureNext, captureWordNext, notSof0, atSkipped]
  have sameEnd : imgEndO (muted s) i = s.eofQ := by
    simp [imgEndO, notEnd]
  have heldLevels :
      (step (muted s) i).eofQ = s.eofQ ∧
        (step (muted s) i).startQ = s.startQ := by
    simp [step, streaming.1, eofNext, startNext, sameEnd, notScan,
      atSkipped]
  rw [held] at header
  rw [heldLevels.1, heldLevels.2, sameEnd] at levels
  refine ⟨?_, levels⟩
  rw [header.1, frameEffect]
  cases seen : tokenSof0W s i with
  | false =>
      simp
  | true =>
      by_cases cleared : captured s = captured reset <;> simp [cleared]

/-- An effect is visible against a register that the pair would change. -/
theorem effect_finds_register :
    (endEffect s i = true → s.eofQ = false) ∧
      (scanEffect s i = true → s.startQ = true) ∧
      (frameEffect s i = true → captured s ≠ captured reset) := by
  refine ⟨?_, ?_, ?_⟩ <;> intro effect <;>
    simp_all [endEffect, scanEffect, frameEffect]

/-- In skipped payload equal image registers stay equal with equal effects. -/
theorem skipped_same_iff
    (atSkipped : s.stateQ = .uxpData)
    (atSkipped' : t.stateQ = .uxpData)
    (streaming : Streaming s i)
    (streaming' : Streaming t j)
    (sameEof : s.eofQ = t.eofQ)
    (sameStart : s.startQ = t.startQ)
    (sameCaptured : captured s = captured t) :
    (imgEndO s i = imgEndO t j ∧
        imageOutputs (step s i) = imageOutputs (step t j)) ↔
      endEffect s i = endEffect t j ∧ scanEffect s i = scanEffect t j ∧
        frameEffect s i = frameEffect t j := by
  have left := skipped_step atSkipped streaming
  have right := skipped_step atSkipped' streaming'
  have leftFinds := @effect_finds_register s i
  have rightFinds := @effect_finds_register t j
  simp only [imageOutputs, imgStartO, Prod.mk.injEq]
  rw [left.1, left.2.2.1, left.2.2.2, right.1, right.2.2.1, right.2.2.2]
  constructor
  · rintro ⟨sameEnd, sameStartNext, sameCapturedNext⟩
    refine ⟨?_, ?_, ?_⟩
    · cases leftEffect : endEffect s i <;>
        cases rightEffect : endEffect t j <;> simp_all
    · cases leftEffect : scanEffect s i <;>
        cases rightEffect : scanEffect t j <;> simp_all
    · cases leftEffect : frameEffect s i <;>
        cases rightEffect : frameEffect t j <;> simp_all
  · rintro ⟨sameEnd, sameScan, sameFrame⟩
    rw [sameEnd, sameScan, sameFrame, sameEof, sameStart, sameCaptured]
    exact ⟨rfl, rfl, rfl⟩

end Skipped

/-! ## Two runs -/

namespace Walker

/-- The position lies inside a frame header, behind its marker. -/
def inFrame : Walker → Bool
  | .lengthHigh .frame | .lengthLow .frame _ | .payload .frame _ => true
  | _ => false

/-- The previous byte is common to all variants of a stream. -/
def previousCommon : Walker → Bool
  | .payload .skipped _ | .marker false => false
  | _ => true

end Walker

/-- What the registers of two runs on variants of one stream share. -/
structure Alike (twin : Twin) : Prop where
  variant : Variant twin.walker twin.leftRest twin.rightRest
  leftInStep : InStep twin.walker twin.leftRest twin.left
  rightInStep : InStep twin.walker twin.rightRest twin.right
  leftFollow : FactorsFollow twin.left
  rightFollow : FactorsFollow twin.right
  byteIdxQ : twin.left.byteIdxQ = twin.right.byteIdxQ
  stateQ : twin.left.stateQ = twin.right.stateQ
  lengthQ : twin.left.lengthQ = twin.right.lengthQ
  dataValidQ : twin.left.dataValidQ = twin.right.dataValidQ
  idxQ : twin.left.idxQ = twin.right.idxQ
  captured : captured twin.left = captured twin.right
  eofQ : twin.left.eofQ = twin.right.eofQ
  startQ : twin.left.startQ = twin.right.startQ
  dataDataQ :
    twin.left.dataValidQ = true →
      (twin.left.stateQ = .imgData ∨ twin.left.stateQ = .idle) ∧
        twin.left.dataDataQ = twin.right.dataDataQ
  factors :
    twin.walker.inFrame = true → factors twin.left = factors twin.right
  lastBQ :
    twin.walker.previousCommon = true →
      twin.left.lastBQ = twin.right.lastBQ

/-! ## One cycle of two runs -/

section Cycle

variable {s t : State} {i j : Input}

/-- The selectors follow their factors after one more cycle. -/
theorem FactorsFollow.cycle
    {rest : List Byte}
    (follow : FactorsFollow s)
    (presents : Shows rest s i) :
    FactorsFollow (step s i) := by
  obtain ⟨running, notLast, lane⟩ := presents
  have fromState : (step s i).stateQ = caseNextR s i := by
    simp [step, nextStateR, running, notLast]
  constructor
  · intro atLength
    rw [fromState] at atLength
    cases atState : s.stateQ <;>
      simp only [caseNextR, activeNextR, atState] at atLength <;>
      try (split_ifs at atLength)
    · simp [step, running, idxNext, atState]
    · have held := follow.1 atState
      simp [step, running, idxNext, atState, held]
  · intro atFrame afterFF
    rw [fromState] at atFrame
    cases atState : s.stateQ <;>
      simp only [caseNextR, activeNextR, atState] at atFrame <;>
      try (split_ifs at atFrame)
    · have held := follow.1 atState
      simp [step, running, idxNext, atState, held]
    · have consumes : accepts s i = i.inportValid :=
        accepts_of_state (by simp [atState])
      cases valid : i.inportValid with
      | false =>
          have same : (step s i).lastBQ = s.lastBQ := by
            simp [step, running, lastBNext, consumes, valid]
          have held := follow.2 atState (same.symm.trans afterFF)
          have zero : dataR s i = 0 := by simpa [valid] using lane
          have notSeen : tokenSof0W s i = false := by
            simp [tokenSof0W, tokenW, zero]
          refine ⟨?_, ?_, ?_⟩ <;> intro index <;>
            simp_all [step, idxNext, imgYFactorNext, imgCbFactorNext,
              imgCrFactorNext, captureNext]
      | true =>
          have fill : dataR s i = 0xFF := by
            simpa [step, running, lastBNext, consumes, valid, notLast]
              using afterFF
          have notSeen : tokenSof0W s i = false := by
            simp [tokenSof0W, tokenW, fill]
          have index : (step s i).idxQ = s.idxQ + 1 := by
            simp [step, running, idxNext, consumes, valid, atState]
          rw [index]
          refine ⟨?_, ?_, ?_⟩ <;> intro next
          · have here : s.idxQ = 7 := by bv_omega
            simp [step, running, imgYFactorNext, captureNext, notSeen,
              atState, here, fill]
          · have here : s.idxQ = 10 := by bv_omega
            simp [step, running, imgCbFactorNext, captureNext, notSeen,
              atState, here, fill]
          · have here : s.idxQ = 13 := by bv_omega
            simp [step, running, imgCrFactorNext, captureNext, notSeen,
              atState, here, fill]

/-- The two variants of a stream are left as variants. -/
theorem Variant.cycle
    {walker : Walker} {leftRest rightRest : List Byte}
    (variant : Variant walker leftRest rightRest)
    (leftShows : Shows leftRest s i)
    (rightShows : Shows rightRest t j)
    (sameAccepts : accepts s i = accepts t j) :
    Variant (walkerAfter walker s i)
      (restAfter leftRest s i) (restAfter rightRest t j) := by
  cases taken : accepts t j with
  | false =>
      simpa [walkerAfter, restAfter, sameAccepts, taken] using variant
  | true =>
      obtain ⟨leftLater, rfl⟩ :=
        leftShows.accepted (sameAccepts.trans taken)
      obtain ⟨rightLater, rfl⟩ := rightShows.accepted taken
      simpa [walkerAfter, restAfter, sameAccepts, taken] using variant.2.2

/-- Every position admits what a variant shows there. -/
theorem Variant.structured
    {walker : Walker} {leftRest rightRest : List Byte}
    (variant : Variant walker leftRest rightRest) :
    Structured walker leftRest := by
  induction leftRest generalizing walker rightRest with
  | nil => trivial
  | cons left leftRest inductionHypothesis =>
      cases rightRest with
      | nil => exact variant.elim
      | cons right rightRest =>
          exact ⟨variant.1, inductionHypothesis variant.2.2⟩

/-- Outside skipped payload both runs read the same byte lane. -/
theorem Variant.sameLane
    {walker : Walker} {leftRest rightRest : List Byte}
    (variant : Variant walker leftRest rightRest)
    (outside : walker.inSkipped = false)
    (leftShows : Shows leftRest s i)
    (rightShows : Shows rightRest t j)
    (sameValid : i.inportValid = j.inportValid) :
    dataR s i = dataR t j := by
  cases valid : j.inportValid with
  | false =>
      rw [leftShows.stalled (sameValid.trans valid),
        rightShows.stalled valid]
  | true =>
      have leftLane := leftShows.2.2
      have rightLane := rightShows.2.2
      rw [sameValid, if_pos valid] at leftLane
      rw [if_pos valid] at rightLane
      obtain ⟨leftLater, rfl⟩ := List.head?_eq_some_iff.mp leftLane
      obtain ⟨rightLater, rfl⟩ := List.head?_eq_some_iff.mp rightLane
      simpa [outside] using variant.2.1

/-- The position does not depend on skipped payload bytes. -/
theorem Walker.next_skipped
    {walker : Walker}
    (inside : walker.inSkipped = true)
    (left right : Byte) :
    walker.next left = walker.next right := by
  unfold Walker.inSkipped at inside
  split at inside
  · simp [Walker.next, Walker.afterPayload]
  · simp at inside

/-- Both runs stay at a common position. -/
theorem Variant.sameWalker
    {walker : Walker} {leftRest rightRest : List Byte}
    (variant : Variant walker leftRest rightRest)
    (leftShows : Shows leftRest s i)
    (rightShows : Shows rightRest t j)
    (sameValid : i.inportValid = j.inportValid)
    (sameAccepts : accepts s i = accepts t j) :
    walkerAfter walker s i = walkerAfter walker t j := by
  rw [walkerAfter, walkerAfter, sameAccepts]
  cases inside : walker.inSkipped with
  | false =>
      rw [variant.sameLane inside leftShows rightShows sameValid]
  | true =>
      rw [Walker.next_skipped inside (dataR s i) (dataR t j)]

/-- Both streams of a pair of variants are structured. -/
theorem Variant.structuredRight
    {walker : Walker} {leftRest rightRest : List Byte}
    (variant : Variant walker leftRest rightRest) :
    Structured walker rightRest := by
  induction leftRest generalizing walker rightRest with
  | nil =>
      cases rightRest with
      | nil => trivial
      | cons right rightRest => exact variant.elim
  | cons left leftRest inductionHypothesis =>
      cases rightRest with
      | nil => trivial
      | cons right rightRest =>
          obtain ⟨admitted, same | inside, later⟩ := variant
          · subst same
            exact ⟨admitted, inductionHypothesis later⟩
          · refine ⟨?_, inductionHypothesis ?_⟩
            · unfold Walker.inSkipped at inside
              split at inside
              · trivial
              · simp at inside
            · rwa [Walker.next_skipped inside right left]

/-- Outside the scan no byte is left for the bit buffer. -/
theorem dataValidQ_outside
    (outside : s.stateQ ≠ .imgData)
    (streaming : Streaming s i) :
    (step s i).dataValidQ = false := by
  have notImage : (s.stateQ == .imgData) = false :=
    beq_eq_false_iff_ne.mpr outside
  simp [step, dataValidNext, streaming.1, notImage, outside]

/--
Outside skipped payload the two runs are told apart by nothing they read: the
lane, the handshakes and every token that the present state acts on agree.
-/
structure SameView (s t : State) (i j : Input) : Prop where
  lane : dataR s i = dataR t j
  accepts : accepts s i = accepts t j
  token :
    ∀ code, code ≠ 0x00 → code ≠ 0xFF → tokenW code s i = tokenW code t j
  tokenRange :
    ∀ low high, 0x00 < low → high < 0xFF →
      tokenRangeW low high s i = tokenRangeW low high t j
  pad : s.stateQ = .imgData → tokenPadW s i = tokenPadW t j

/-- Equal previous bytes and lanes give equal views. -/
theorem SameView.of_previous
    (lane : dataR s i = dataR t j)
    (previous : s.lastBQ = t.lastBQ)
    (state : s.stateQ = t.stateQ)
    (valid : i.inportValid = j.inportValid)
    (dqt : i.dqtCfgAccept = j.dqtCfgAccept)
    (dht : i.dhtCfgAccept = j.dhtCfgAccept)
    (data : i.dataAccept = j.dataAccept) :
    SameView s t i j where
  lane := lane
  accepts := by
    simp [JpegInput.accepts, inportAcceptW, tokenPadW, tokenW, lane,
      previous, state, valid, dqt, dht, data]
  token := by simp [tokenW, lane, previous]
  tokenRange := by simp [tokenRangeW, lane, previous]
  pad := by simp [tokenPadW, tokenW, lane, previous]

/-- Between segments the lane is a fill byte or a stall, which no token is. -/
theorem SameView.of_fill
    (lane : dataR s i = dataR t j)
    (fill : dataR t j = 0xFF ∨ dataR t j = 0x00)
    (atActive : s.stateQ = .active)
    (state : s.stateQ = t.stateQ)
    (valid : i.inportValid = j.inportValid) :
    SameView s t i j where
  lane := lane
  accepts := by
    have atActive' := state.symm.trans atActive
    simp [JpegInput.accepts, inportAcceptW, atActive, atActive', valid]
  token := by
    intro code notZero notFill
    have differs : (dataR t j == code) = false := by
      rw [beq_eq_false_iff_ne]
      rcases fill with fill | fill <;> rw [fill]
      · exact notFill.symm
      · exact notZero.symm
    simp only [tokenW, lane, differs, Bool.and_false]
  tokenRange := by
    intro low high positive small
    have outside :
        (decide (low ≤ dataR t j) && decide (dataR t j ≤ high)) = false := by
      rw [Bool.and_eq_false_iff, decide_eq_false_iff_not,
        decide_eq_false_iff_not]
      rcases fill with fill | fill <;> rw [fill] <;> bv_omega
    simp only [tokenRangeW, lane, outside, Bool.and_false]
  pad := by simp [atActive]

/-- Runs with one view make one transition. -/
theorem SameView.nextStateR
    (view : SameView s t i j)
    (state : s.stateQ = t.stateQ)
    (counter : s.lengthQ = t.lengthQ)
    (valid : i.inportValid = j.inportValid)
    (leftLast : i.inportLast = false)
    (rightLast : j.inportLast = false) :
    JpegInput.nextStateR s i = JpegInput.nextStateR t j := by
  have soi := view.token 0xD8 (by decide) (by decide)
  have eoi := view.token 0xD9 (by decide) (by decide)
  have dqt := view.token 0xDB (by decide) (by decide)
  have dht := view.token 0xC4 (by decide) (by decide)
  have sos := view.token 0xDA (by decide) (by decide)
  have sof0 := view.token 0xC0 (by decide) (by decide)
  have sof2 := view.token 0xC2 (by decide) (by decide)
  have dri := view.token 0xDD (by decide) (by decide)
  have com := view.token 0xFE (by decide) (by decide)
  have rst := view.tokenRange 0xD0 0xD7 (by decide) (by decide)
  have app := view.tokenRange 0xE0 0xEF (by decide) (by decide)
  simp only [JpegInput.nextStateR, caseNextR, activeNextR, tokenSoiW,
    tokenEoiW, tokenDqtW, tokenDhtW, tokenSosW, tokenSof0W, tokenSof2W,
    tokenDriW, tokenComW, tokenRstW, tokenAppW, soi, eoi, dqt, dht, sos,
    sof0, sof2, dri, com, rst, app, view.accepts, state, counter, valid,
    leftLast, rightLast]
  rfl

/-- Runs with one view keep the registers of the walk and the levels alike. -/
theorem SameView.control
    (view : SameView s t i j)
    (leftStreaming : Streaming s i)
    (rightStreaming : Streaming t j)
    (byteIdx : s.byteIdxQ = t.byteIdxQ)
    (state : s.stateQ = t.stateQ)
    (counter : s.lengthQ = t.lengthQ)
    (dataValid : s.dataValidQ = t.dataValidQ)
    (index : s.idxQ = t.idxQ)
    (ended : s.eofQ = t.eofQ)
    (started : s.startQ = t.startQ)
    (valid : i.inportValid = j.inportValid)
    (data : i.dataAccept = j.dataAccept) :
    (step s i).byteIdxQ = (step t j).byteIdxQ ∧
      (step s i).stateQ = (step t j).stateQ ∧
      (step s i).lengthQ = (step t j).lengthQ ∧
      (step s i).dataValidQ = (step t j).dataValidQ ∧
      (step s i).idxQ = (step t j).idxQ ∧
      (step s i).eofQ = (step t j).eofQ ∧
      (step s i).startQ = (step t j).startQ ∧
      imgEndO s i = imgEndO t j := by
  have sameNext := view.nextStateR state counter valid
    leftStreaming.2 rightStreaming.2
  have soi := view.token 0xD8 (by decide) (by decide)
  have eoi := view.token 0xD9 (by decide) (by decide)
  have sos := view.token 0xDA (by decide) (by decide)
  have sameData : dataValidNext s i = dataValidNext t j := by
    simp only [dataValidNext, valid, data, state, dataValid, tokenEoiW, eoi]
    by_cases atImage : t.stateQ = .imgData
    · rw [view.pad (state.trans atImage)]
    · rw [beq_eq_false_iff_ne.mpr atImage, Bool.false_and, Bool.false_and]
  simp only [step, leftStreaming.1, rightStreaming.1, Bool.false_eq_true,
    if_false, byteIdxNext, lengthNext, idxNext, eofNext, startNext, imgEndO,
    tokenSoiW, tokenEoiW, tokenSosW, soi, eoi, sos, view.lane, view.accepts,
    leftStreaming.2, rightStreaming.2, byteIdx, state, counter, index,
    ended, started, valid, sameNext, sameData]
  exact ⟨trivial, trivial, trivial, trivial, trivial, rfl, rfl, trivial⟩

/-- Runs with one view keep the captured header outputs alike. -/
theorem SameView.header
    (view : SameView s t i j)
    (leftStreaming : Streaming s i)
    (rightStreaming : Streaming t j)
    (state : s.stateQ = t.stateQ)
    (counter : s.lengthQ = t.lengthQ)
    (index : s.idxQ = t.idxQ)
    (valid : i.inportValid = j.inportValid)
    (sameCaptured : captured s = captured t)
    (sameFactors : s.stateQ = .sofData → factors s = factors t) :
    captured (step s i) = captured (step t j) ∧
      (factors s = factors t ∨ tokenSof0W s i = true →
        factors (step s i) = factors (step t j)) := by
  have sameNext := view.nextStateR state counter valid
    leftStreaming.2 rightStreaming.2
  have sof0 : tokenSof0W s i = tokenSof0W t j :=
    view.token 0xC0 (by decide) (by decide)
  simp only [captured, Prod.mk.injEq] at sameCaptured
  obtain ⟨mode, width, height, yTable, cbTable, crTable⟩ := sameCaptured
  constructor
  · have sameMode : imgModeNext s i = imgModeNext t j := by
      by_cases atFrame : s.stateQ = .sofData
      · have same := sameFactors atFrame
        simp only [factors, Prod.mk.injEq] at same
        simp only [imgModeNext, sof0, sameNext, state, mode, same]
      · have atFrame' : t.stateQ ≠ .sofData := state ▸ atFrame
        simp [imgModeNext, sof0, atFrame, atFrame', mode]
    simp only [captured, step, leftStreaming.1, rightStreaming.1,
      Bool.false_eq_true, if_false, sameMode, imgWidthNext, imgHeightNext,
      imgYDqtTableNext, imgCbDqtTableNext, imgCrDqtTableNext, captureNext,
      captureWordNext, sof0, view.lane, state, index, width, height, yTable,
      cbTable, crTable]
  · intro known
    cases seen : tokenSof0W t j with
    | true =>
        simp [factors, step, leftStreaming.1, rightStreaming.1,
          imgPrecisionNext, imgNumCompNext, imgYFactorNext, imgCbFactorNext,
          imgCrFactorNext, captureNext, sof0, seen]
    | false =>
        have same : factors s = factors t := by
          simpa [sof0, seen] using known
        simp only [factors, Prod.mk.injEq] at same
        simp only [factors, step, leftStreaming.1, rightStreaming.1,
          Bool.false_eq_true, if_false, imgPrecisionNext, imgNumCompNext,
          imgYFactorNext, imgCbFactorNext, imgCrFactorNext, captureNext,
          sof0, view.lane, state, index, same]

end Cycle

section Runs

variable {twin : Twin} {cycle : Input × Input}

/-- Outside skipped payload alike runs have one view. -/
theorem Alike.view
    (alike : Alike twin)
    (presented : twin.Presented cycle)
    (outside : twin.walker.inSkipped = false) :
    SameView twin.left twin.right cycle.1 cycle.2 := by
  obtain ⟨leftShows, rightShows, valid, dqt, dht, data⟩ := presented
  have lane := alike.variant.sameLane outside leftShows rightShows valid
  cases common : twin.walker.previousCommon with
  | true =>
      exact .of_previous lane (alike.lastBQ common) alike.stateQ
        valid dqt dht data
  | false =>
      have atMarker : twin.walker = .marker false := by
        unfold Walker.previousCommon at common
        split at common <;> simp_all [Walker.inSkipped]
      have inStep := alike.leftInStep
      rw [atMarker] at inStep
      refine .of_fill lane ?_ inStep.1 alike.stateQ valid
      cases taken : cycle.2.inportValid with
      | false => exact .inr (rightShows.stalled taken)
      | true =>
          have consumes : accepts twin.right cycle.2 = true := by
            rw [accepts_of_state (by simp [← alike.stateQ, inStep.1]), taken]
          have admitted :=
            alike.variant.structuredRight.admits rightShows consumes
          rw [atMarker] at admitted
          exact .inl admitted

/-- In skipped payload both runs are in the skipping state. -/
theorem Alike.skipping
    (alike : Alike twin)
    (inside : twin.walker.inSkipped = true) :
    twin.left.stateQ = .uxpData ∧ twin.right.stateQ = .uxpData := by
  unfold Walker.inSkipped at inside
  split at inside
  · rename_i left atSkipped
    have leftInStep := alike.leftInStep
    have rightInStep := alike.rightInStep
    rw [atSkipped] at leftInStep rightInStep
    exact ⟨leftInStep.1, rightInStep.1⟩
  · simp at inside

/-- Alike runs consume their bytes in the same cycles. -/
theorem Alike.accepts
    (alike : Alike twin)
    (presented : twin.Presented cycle) :
    accepts twin.left cycle.1 = accepts twin.right cycle.2 := by
  cases inside : twin.walker.inSkipped with
  | false => exact (alike.view presented inside).accepts
  | true =>
      have skipping := alike.skipping inside
      rw [accepts_of_state (by simp [skipping.1]),
        accepts_of_state (by simp [skipping.2]), presented.2.2.1]

/-- The streams and positions of alike runs stay alike. -/
theorem Alike.positions
    (alike : Alike twin)
    (presented : twin.Presented cycle) :
    Variant (twin.step cycle).walker
        (twin.step cycle).leftRest (twin.step cycle).rightRest ∧
      InStep (twin.step cycle).walker
        (twin.step cycle).leftRest (twin.step cycle).left ∧
      InStep (twin.step cycle).walker
        (twin.step cycle).rightRest (twin.step cycle).right := by
  have sameAccepts := alike.accepts presented
  obtain ⟨leftShows, rightShows, valid, _⟩ := presented
  have sameWalker := alike.variant.sameWalker leftShows rightShows
    valid sameAccepts
  refine ⟨alike.variant.cycle leftShows rightShows sameAccepts,
    alike.leftInStep.cycle alike.variant.structured leftShows, ?_⟩
  simp only [Twin.step, sameWalker]
  exact alike.rightInStep.cycle alike.variant.structuredRight rightShows

/-- The position after a skipped payload byte shares nothing more. -/
theorem Walker.afterSkipped
    {walker : Walker} {s : State} {i : Input}
    (inside : walker.inSkipped = true) :
    (walkerAfter walker s i).inFrame = false ∧
      (walkerAfter walker s i).previousCommon = false := by
  unfold Walker.inSkipped at inside
  split at inside
  · simp only [walkerAfter, Walker.next, Walker.afterPayload]
    split_ifs <;> simp [Walker.inFrame, Walker.previousCommon]
  · simp at inside

/-- A skipped payload byte keeps the runs alike when its effects agree. -/
theorem Alike.cycle_skipped
    (alike : Alike twin)
    (presented : twin.Presented cycle)
    (inside : twin.walker.inSkipped = true)
    (sameImage :
      imageOutputs (twin.step cycle).left =
        imageOutputs (twin.step cycle).right)
    (sameEnd :
      imgEndO twin.left cycle.1 = imgEndO twin.right cycle.2) :
    Alike (twin.step cycle) := by
  have positions := alike.positions presented
  have skipping := alike.skipping inside
  have sameAccepts := alike.accepts presented
  obtain ⟨leftShows, rightShows, valid, _, _, data⟩ := presented
  have leftStreaming := leftShows.streaming
  have rightStreaming := rightShows.streaming
  have leftAtData : twin.left.stateQ = SegmentKind.skipped.data := skipping.1
  have rightAtData : twin.right.stateQ = SegmentKind.skipped.data := skipping.2
  have leftData := data_step leftAtData leftStreaming
  have rightData := data_step rightAtData rightStreaming
  have leftSilent : (step twin.left cycle.1).dataValidQ = false :=
    dataValidQ_outside (by simp [skipping.1]) leftStreaming
  have rightSilent : (step twin.right cycle.2).dataValidQ = false :=
    dataValidQ_outside (by simp [skipping.2]) rightStreaming
  have after := @Walker.afterSkipped twin.walker twin.left cycle.1 inside
  simp only [imageOutputs, imgStartO, Prod.mk.injEq] at sameImage
  refine {
    variant := positions.1
    leftInStep := positions.2.1
    rightInStep := positions.2.2
    leftFollow := alike.leftFollow.cycle leftShows
    rightFollow := alike.rightFollow.cycle rightShows
    byteIdxQ := ?_
    stateQ := ?_
    lengthQ := ?_
    dataValidQ := ?_
    idxQ := ?_
    captured := sameImage.2
    eofQ := ?_
    startQ := sameImage.1
    dataDataQ := ?_
    factors := by simp [Twin.step, after.1]
    lastBQ := by simp [Twin.step, after.2]
  }
  · simp [Twin.step, step, byteIdxNext, leftStreaming.1, leftStreaming.2,
      rightStreaming.1, rightStreaming.2, sameAccepts, alike.byteIdxQ]
  · simp only [Twin.step, leftData.1, rightData.1, sameAccepts,
      alike.lengthQ]
  · simp only [Twin.step, leftData.2, rightData.2, sameAccepts,
      alike.lengthQ]
  · simp only [Twin.step, leftSilent, rightSilent]
  · simp [Twin.step, step, idxNext, leftStreaming.1, rightStreaming.1,
      skipping, alike.idxQ]
  · simp [Twin.step, step, eofNext, leftStreaming.1, rightStreaming.1,
      skipping, sameEnd, alike.eofQ]
  · simp [Twin.step, leftSilent]

/-- The frame-header state is entered behind its marker only. -/
theorem InStep.inFrame
    {walker : Walker} {rest : List Byte} {s : State}
    (inStep : InStep walker rest s)
    (atFrame : s.stateQ = .sofData) :
    walker.inFrame = true := by
  cases walker with
  | lengthHigh kind =>
      cases kind <;> simp_all [InStep, SegmentKind.lenh]
  | lengthLow kind high =>
      cases kind <;> simp_all [InStep, SegmentKind.lenl]
  | payload kind left =>
      cases kind <;> simp_all [InStep, SegmentKind.data, Walker.inFrame]
  | _ => simp_all [InStep]

/-- A frame header starts with its marker code. -/
theorem Walker.inFrame_before
    {walker : Walker} {s : State} {i : Input}
    (after : (walkerAfter walker s i).inFrame = true) :
    walker.inFrame = true ∨
      (walker = .marker true ∧ dataR s i = 0xC0) := by
  unfold walkerAfter at after
  split at after
  · cases walker with
    | marker afterFF =>
        cases afterFF with
        | false => simp [Walker.next, Walker.inFrame] at after
        | true =>
            refine .inr ⟨rfl, ?_⟩
            simp only [Walker.next, Walker.afterMarker] at after
            split_ifs at after <;> simp_all [Walker.inFrame]
    | outside afterFF =>
        simp only [Walker.next] at after
        split_ifs at after <;> simp [Walker.inFrame] at after
    | entropy afterFF =>
        simp only [Walker.next] at after
        split_ifs at after <;> simp [Walker.inFrame] at after
    | payload kind left =>
        simp only [Walker.next] at after
        cases kind <;> split_ifs at after <;>
          simp_all [Walker.inFrame, Walker.afterPayload]
    | lengthHigh kind =>
        cases kind <;> simp_all [Walker.next, Walker.inFrame]
    | lengthLow kind high =>
        cases kind <;> simp_all [Walker.next, Walker.inFrame]
  · exact .inl after

/-- The byte waiting for the bit buffer is common to alike runs. -/
theorem Alike.waiting
    (alike : Alike twin)
    (presented : twin.Presented cycle)
    (outside : twin.walker.inSkipped = false)
    (waiting : (twin.step cycle).left.dataValidQ = true) :
    ((twin.step cycle).left.stateQ = .imgData ∨
        (twin.step cycle).left.stateQ = .idle) ∧
      (twin.step cycle).left.dataDataQ =
        (twin.step cycle).right.dataDataQ := by
  have view := alike.view presented outside
  obtain ⟨leftShows, rightShows, valid, _, _, data⟩ := presented
  have running := leftShows.1
  have atImage : twin.left.stateQ = .imgData := by
    by_contra outsideImage
    have silent := dataValidQ_outside outsideImage leftShows.streaming
    rw [show (twin.step cycle).left = step twin.left cycle.1 from rfl,
      silent] at waiting
    exact Bool.false_ne_true waiting
  constructor
  · have next : (twin.step cycle).left.stateQ =
        if tokenEoiW twin.left cycle.1 then .idle else .imgData := by
      simp [Twin.step, step, nextStateR, caseNextR, atImage, running,
        leftShows.2.1]
    rw [next]
    split
    · exact .inr rfl
    · exact .inl rfl
  · cases loads : cycle.2.inportValid && cycle.2.dataAccept with
    | true =>
        simp [Twin.step, step, dataDataNext, running, rightShows.1, valid,
          data, loads, view.lane]
    | false =>
        have held : twin.left.dataValidQ = true := by
          simpa [Twin.step, step, dataValidNext, running, valid, data,
            loads, atImage] using waiting
        simp [Twin.step, step, dataDataNext, running, rightShows.1, valid,
          data, loads, (alike.dataDataQ held).2]

/-- A cycle outside skipped payload keeps the runs alike. -/
theorem Alike.cycle_common
    (alike : Alike twin)
    (presented : twin.Presented cycle)
    (outside : twin.walker.inSkipped = false) :
    Alike (twin.step cycle) := by
  have positions := alike.positions presented
  have view := alike.view presented outside
  have waiting := alike.waiting presented outside
  obtain ⟨leftShows, rightShows, valid, _, _, data⟩ := presented
  have leftStreaming := leftShows.streaming
  have rightStreaming := rightShows.streaming
  obtain ⟨byteIdxQ, stateQ, lengthQ, dataValidQ, idxQ, eofQ, startQ, _⟩ :=
    view.control leftStreaming rightStreaming alike.byteIdxQ alike.stateQ
      alike.lengthQ alike.dataValidQ alike.idxQ alike.eofQ alike.startQ
      valid data
  have header := view.header leftStreaming rightStreaming alike.stateQ
    alike.lengthQ alike.idxQ valid alike.captured
    fun atFrame => alike.factors (alike.leftInStep.inFrame atFrame)
  refine {
    variant := positions.1
    leftInStep := positions.2.1
    rightInStep := positions.2.2
    leftFollow := alike.leftFollow.cycle leftShows
    rightFollow := alike.rightFollow.cycle rightShows
    byteIdxQ := byteIdxQ
    stateQ := stateQ
    lengthQ := lengthQ
    dataValidQ := dataValidQ
    idxQ := idxQ
    captured := header.1
    eofQ := eofQ
    startQ := startQ
    dataDataQ := waiting
    factors := ?_
    lastBQ := ?_
  }
  · intro inFrame
    apply header.2
    rcases Walker.inFrame_before inFrame with before | ⟨atMarker, code⟩
    · exact .inl (alike.factors before)
    · have inStep := alike.leftInStep
      rw [atMarker] at inStep
      right
      simp [tokenSof0W, tokenW, inStep.2 rfl, code]
  · intro common
    have sameLeft := lastBQ_step leftStreaming
    have sameRight := lastBQ_step rightStreaming
    simp only [Twin.step, sameLeft, sameRight, view.accepts, view.lane]
    split
    · rfl
    · rename_i waits
      apply alike.lastBQ
      simpa [Twin.step, walkerAfter, view.accepts, waits] using common

/-- Alike runs show the same image outputs. -/
theorem Alike.imageOutputs
    (alike : Alike twin) :
    imageOutputs twin.left = imageOutputs twin.right := by
  simp only [JpegInput.imageOutputs, imgStartO, alike.startQ,
    alike.captured]

/-- Alike runs deliver the same bytes in every cycle. -/
theorem Alike.delivered
    (alike : Alike twin)
    (presented : twin.Presented cycle) :
    dqtTransfer twin.left cycle.1 = dqtTransfer twin.right cycle.2 ∧
      dhtTransfer twin.left cycle.1 = dhtTransfer twin.right cycle.2 ∧
      dataTransfer twin.left cycle.1 = dataTransfer twin.right cycle.2 := by
  cases inside : twin.walker.inSkipped with
  | true =>
      have skipping := alike.skipping inside
      have leftSilent : twin.left.dataValidQ = false := by
        by_contra waiting
        simpa [skipping.1] using (alike.dataDataQ (by simpa using waiting)).1
      have rightSilent : twin.right.dataValidQ = false :=
        alike.dataValidQ.symm.trans leftSilent
      simp [dqtTransfer, dqtCfgValidO, dhtTransfer, dhtCfgValidO,
        dataTransfer, dataValidO, skipping, leftSilent, rightSilent]
  | false =>
      have view := alike.view presented inside
      obtain ⟨leftShows, rightShows, valid, dqt, dht, data⟩ := presented
      have eoi : tokenEoiW twin.left cycle.1 = tokenEoiW twin.right cycle.2 :=
        view.token 0xD9 (by decide) (by decide)
      refine ⟨?_, ?_, ?_⟩
      · simp only [dqtTransfer, dqtCfgValidO, dqtCfgDataO, dqtCfgLastO,
          alike.stateQ, alike.lengthQ, leftShows.2.1, rightShows.2.1, valid,
          dqt, view.lane]
      · simp only [dhtTransfer, dhtCfgValidO, dhtCfgDataO, dhtCfgLastO,
          alike.stateQ, alike.lengthQ, leftShows.2.1, rightShows.2.1, valid,
          dht, view.lane]
      · cases waiting : twin.left.dataValidQ with
        | false =>
            simp [dataTransfer, dataValidO, waiting,
              alike.dataValidQ.symm.trans waiting]
        | true =>
            simp only [dataTransfer, dataValidO, dataDataO, eoi, valid, data,
              alike.dataValidQ, (alike.dataDataQ waiting).2]
            rfl

/-- In a table or frame-header payload the front end is in its data state. -/
theorem InStep.inPayload
    {walker : Walker} {rest : List Byte} {s : State}
    (inStep : InStep walker rest s)
    (inside : walker.inTable = true) :
    InPayload s := by
  unfold Walker.inTable at inside
  split at inside <;>
    simp_all [InStep, SegmentKind.data, InPayload]

/-- One cycle of alike runs is opaque and stays alike when its pairs are inert. -/
theorem Alike.opaqueCycle_iff
    (alike : Alike twin)
    (presented : twin.Presented cycle) :
    OpaqueCycle twin cycle ∧
        JpegInput.imageOutputs (twin.step cycle).left =
          JpegInput.imageOutputs (twin.step cycle).right ↔
      InertCycle twin cycle ∧ Alike (twin.step cycle) := by
  have delivered := alike.delivered presented
  have sameOutputs :
      cycleOutputs twin.left cycle.1 = cycleOutputs twin.right cycle.2 ↔
        imgEndO twin.left cycle.1 = imgEndO twin.right cycle.2 := by
    simp only [cycleOutputs, delivered, and_true, Prod.mk.injEq]
  have tables :
      (twin.walker.inTable = true →
          ¬ PairActs twin.left cycle.1 ∧ ¬ PairActs twin.right cycle.2) ↔
        (twin.walker.inTable = true →
          ∀ run ∈ [(twin.left, cycle.1), (twin.right, cycle.2)],
            endEffect run.1 run.2 = false ∧
              scanEffect run.1 run.2 = false ∧
              headerEffect run.1 run.2 = false) := by
    refine imp_congr_right fun inside => ?_
    rw [pairActs_iff (alike.leftInStep.inPayload inside) presented.1.1
        alike.leftFollow,
      pairActs_iff (alike.rightInStep.inPayload inside) presented.2.1.1
        alike.rightFollow]
    simp
  rw [OpaqueCycle, InertCycle, sameOutputs, tables]
  cases inside : twin.walker.inSkipped with
  | false =>
      have view := alike.view presented inside
      have sameEnd := (view.control presented.1.streaming
        presented.2.1.streaming alike.byteIdxQ alike.stateQ alike.lengthQ
        alike.dataValidQ alike.idxQ alike.eofQ alike.startQ presented.2.2.1
        presented.2.2.2.2.2).2.2.2.2.2.2.2
      have after := alike.cycle_common presented inside
      simp [alike.imageOutputs, sameEnd, after, after.imageOutputs]
  | true =>
      have skipping := alike.skipping inside
      have same := skipped_same_iff skipping.1 skipping.2
        presented.1.streaming presented.2.1.streaming alike.eofQ
        alike.startQ alike.captured
      constructor
      · rintro ⟨⟨_, sameEnd, inert⟩, sameImage⟩
        exact ⟨⟨fun _ => same.mp ⟨sameEnd, sameImage⟩, inert⟩,
          alike.cycle_skipped presented inside sameImage sameEnd⟩
      · rintro ⟨⟨agree, inert⟩, after⟩
        exact ⟨⟨alike.imageOutputs, (same.mpr (agree rfl)).1, inert⟩,
          after.imageOutputs⟩

/-- An opaque pair of runs starts with equal image outputs. -/
theorem Opaque.head
    {cycles : List (Input × Input)}
    (hidden : Opaque twin cycles) :
    JpegInput.imageOutputs twin.left = JpegInput.imageOutputs twin.right := by
  cases cycles with
  | nil => exact hidden.2
  | cons cycle rest => exact hidden.1.1.1

/-- Alike runs are opaque exactly while their payload pairs are inert. -/
theorem Alike.opaque_iff
    (alike : Alike twin)
    {cycles : List (Input × Input)}
    (presented : Along Twin.step Twin.Presented twin cycles) :
    Opaque twin cycles ↔ PairsInert twin cycles := by
  induction cycles generalizing twin with
  | nil =>
      simp [Opaque, PairsInert, alike.imageOutputs]
  | cons cycle rest inductionHypothesis =>
      have now := alike.opaqueCycle_iff presented.1
      constructor
      · intro hidden
        have later : Opaque (twin.step cycle) rest :=
          ⟨hidden.1.2, hidden.2⟩
        have after := now.mp ⟨hidden.1.1, later.head⟩
        exact ⟨after.1,
          (inductionHypothesis after.2 presented.2).mp later⟩
      · rintro ⟨inert, laterInert⟩
        have after : Alike (twin.step cycle) := by
          cases inside : twin.walker.inSkipped with
          | false => exact alike.cycle_common presented.1 inside
          | true =>
              have skipping := alike.skipping inside
              have same := (skipped_same_iff skipping.1 skipping.2
                presented.1.1.streaming presented.1.2.1.streaming
                alike.eofQ alike.startQ alike.captured).mpr
                (inert.1 inside)
              exact alike.cycle_skipped presented.1 inside same.2 same.1
        have shown := now.mpr ⟨inert, after⟩
        have later :=
          (inductionHypothesis after presented.2).mpr laterInert
        exact ⟨⟨shown.1, later.1⟩, later.2⟩

end Runs

/-- Two variants of one stream are alike from reset. -/
theorem alike_start
    {leftRest rightRest : List Byte}
    (variant : Variant (.outside false) leftRest rightRest) :
    Alike (Twin.start leftRest rightRest) where
  variant := variant
  leftInStep := inStep_reset leftRest
  rightInStep := inStep_reset rightRest
  leftFollow := by simp [FactorsFollow, Twin.start, reset]
  rightFollow := by simp [FactorsFollow, Twin.start, reset]
  byteIdxQ := rfl
  stateQ := rfl
  lengthQ := rfl
  dataValidQ := rfl
  idxQ := rfl
  captured := rfl
  eofQ := rfl
  startQ := rfl
  dataDataQ := by simp [Twin.start, reset]
  factors := fun _ => rfl
  lastBQ := fun _ => rfl

/--
Two streams of one structure that differ only in skipped payload, presented
from reset under one stall pattern whose stalls show a zero lane: every output
agrees in every cycle and no table or frame-header pair acts as a marker,
exactly when in every cycle the payload pairs are inert.
-/
theorem payloads_opaque_iff
    (leftRest rightRest : List Byte)
    (cycles : List (Input × Input))
    (variant : Variant (.outside false) leftRest rightRest)
    (presented :
      Along Twin.step Twin.Presented
        (Twin.start leftRest rightRest) cycles) :
    Opaque (Twin.start leftRest rightRest) cycles ↔
      PairsInert (Twin.start leftRest rightRest) cycles :=
  (alike_start variant).opaque_iff presented

/-- Two comments of two bytes, without marker pairs, are told apart nowhere. -/
theorem payloads_opaque_comment :
    Opaque
      (Twin.start
        [0xFF, 0xD8, 0xFF, 0xFE, 0x00, 0x04, 0x41, 0x42, 0xFF, 0xD9]
        [0xFF, 0xD8, 0xFF, 0xFE, 0x00, 0x04, 0xFF, 0x00, 0xFF, 0xD9])
      ((List.zip
        [0xFF, 0xD8, 0xFF, 0xFE, 0x00, 0x04, 0x41, 0x42, 0xFF, 0xD9]
        [0xFF, 0xD8, 0xFF, 0xFE, 0x00, 0x04, 0xFF, 0x00, 0xFF, 0xD9]).map
        fun bytes => (present bytes.1, present bytes.2)) :=
  (payloads_opaque_iff _ _ _ (by decide +kernel) (by decide +kernel)).mpr
    (by decide +kernel)

/-- An end marker inside an application segment ends the image. -/
theorem application_payload_not_opaque :
    ¬ ∀ leftRest rightRest cycles,
      Variant (.outside false) leftRest rightRest →
      Along Twin.step Twin.Presented
        (Twin.start leftRest rightRest) cycles →
      Opaque (Twin.start leftRest rightRest) cycles := by
  intro claimed
  exact absurd
    (claimed
      [0xFF, 0xD8, 0xFF, 0xE0, 0x00, 0x04, 0xFF, 0xD9]
      [0xFF, 0xD8, 0xFF, 0xE0, 0x00, 0x04, 0x00, 0x00]
      ((List.zip
        [0xFF, 0xD8, 0xFF, 0xE0, 0x00, 0x04, 0xFF, 0xD9]
        [0xFF, 0xD8, 0xFF, 0xE0, 0x00, 0x04, 0x00, 0x00]).map
        fun bytes => (present bytes.1, present bytes.2))
      (by decide) (by decide +kernel))
    (by decide +kernel)

end CoreJpeg.JpegInput
