import CoreJpeg.InputSegment

namespace CoreJpeg.JpegInput

open Clocked

/-!
# The marker structure of a stream and the state of the front end

A stream is read against its marker/length structure by a small walker: it
looks for a start marker, then for markers, reads each length field, counts
the payload and reads entropy-coded data up to the end marker.  This module
shows that the front end stays in step with the walker on every stream whose
lengths lie between 3 and 255, for every stall pattern and every packing of
the stream into words.  A stalled source shows a zero byte lane.
-/

/-- Where a position lies in the marker/length structure of a stream. -/
inductive Walker where
  /-- Before a start marker; the flag is set after an `FF` byte. -/
  | outside (afterFF : Bool)
  /-- Between segments; the flag is set after an `FF` byte. -/
  | marker (afterFF : Bool)
  | lengthHigh (kind : SegmentKind)
  | lengthLow (kind : SegmentKind) (high : Byte)
  /-- Inside a payload with this many bytes left. -/
  | payload (kind : SegmentKind) (left : Nat)
  /-- Inside entropy-coded data; the flag is set after an `FF` byte. -/
  | entropy (afterFF : Bool)
  deriving Repr, DecidableEq

namespace Walker

/-- The position after a payload whose last byte is given. -/
def afterPayload (kind : SegmentKind) (byte : Byte) : Walker :=
  match kind with
  | .scan => .entropy (byte == 0xFF)
  | _ => .marker false

/-- The position after a marker code. -/
def afterMarker (code : Byte) : Walker :=
  if code = 0xFF then .marker true
  else if code = 0xD9 then .outside false
  else if code = 0xDB then .lengthHigh .dqt
  else if code = 0xC4 then .lengthHigh .dht
  else if code = 0xDA then .lengthHigh .scan
  else if code = 0xC0 then .lengthHigh .frame
  else if code = 0xC2 ∨ code = 0xDD ∨ (0xD0 ≤ code ∧ code ≤ 0xD7) ∨
      (0xE0 ≤ code ∧ code ≤ 0xEF) ∨ code = 0xFE then .lengthHigh .skipped
  else .marker false

/-- The position after one more byte. -/
def next : Walker → Byte → Walker
  | .outside afterFF, byte =>
      if afterFF = true ∧ byte = 0xD8 then .marker false
      else .outside (byte == 0xFF)
  | .marker false, _ => .marker true
  | .marker true, code => afterMarker code
  | .lengthHigh kind, high => .lengthLow kind high
  | .lengthLow kind high, low =>
      .payload kind (high.toNat * 256 + low.toNat - 2)
  | .payload kind left, byte =>
      if left ≤ 1 then afterPayload kind byte else .payload kind (left - 1)
  | .entropy afterFF, byte =>
      if afterFF = true ∧ byte = 0xD9 then .outside false
      else .entropy (byte == 0xFF)

/-- A byte the structure admits: markers start with `FF`, lengths are short. -/
def Admits : Walker → Byte → Prop
  | .marker false, byte => byte = 0xFF
  | .lengthLow _ high, low =>
      3 ≤ high.toNat * 256 + low.toNat ∧ high.toNat * 256 + low.toNat ≤ 255
  | _, _ => True

instance decidableAdmits (walker : Walker) (byte : Byte) :
    Decidable (walker.Admits byte) := by
  unfold Admits
  split <;> infer_instance

/-- The position lies inside the payload of a skipped segment. -/
def inSkipped : Walker → Bool
  | .payload .skipped _ => true
  | _ => false

/-- The position lies inside a table or frame-header payload. -/
def inTable : Walker → Bool
  | .payload .dqt _ | .payload .dht _ | .payload .frame _ => true
  | _ => false

end Walker

/-- A stream whose bytes the structure admits from a position on. -/
def Structured : Walker → List Byte → Prop
  | _, [] => True
  | walker, byte :: rest =>
      walker.Admits byte ∧ Structured (walker.next byte) rest

/-- The image source: stalls show a zero lane, valid cycles the next byte. -/
def Shows (rest : List Byte) (s : State) (i : Input) : Prop :=
  i.rst = false ∧ i.inportLast = false ∧
    if i.inportValid then rest.head? = some (dataR s i)
    else dataR s i = 0

instance decidableShows (rest : List Byte) (s : State) (i : Input) :
    Decidable (Shows rest s i) := by
  unfold Shows
  infer_instance

/-- The bytes left after one cycle. -/
def restAfter (rest : List Byte) (s : State) (i : Input) : List Byte :=
  if accepts s i then rest.tail else rest

/-- The position after one cycle. -/
def walkerAfter (walker : Walker) (s : State) (i : Input) : Walker :=
  if accepts s i then walker.next (dataR s i) else walker

/--
The front end is in step with the walker: its state is the one of the
position, its counter and previous byte are those of the position.  The end
marker of entropy-coded data is already recognised while its second byte is
not consumed.
-/
def InStep (walker : Walker) (rest : List Byte) (s : State) : Prop :=
  match walker with
  | .outside afterFF => s.stateQ = .idle ∧ afterFF = (s.lastBQ == 0xFF)
  | .marker afterFF =>
      s.stateQ = .active ∧ (afterFF = true → s.lastBQ = 0xFF)
  | .lengthHigh kind => s.stateQ = kind.lenh
  | .lengthLow kind _ => s.stateQ = kind.lenl
  | .payload kind left =>
      s.stateQ = kind.data ∧ s.lengthQ.toNat = left ∧ 0 < left
  | .entropy afterFF =>
      afterFF = (s.lastBQ == 0xFF) ∧
        (s.stateQ = .imgData ∨
          (s.stateQ = .idle ∧ s.lastBQ = 0xFF ∧ rest.head? = some 0xD9))

/-! ## One cycle -/

section Cycle

variable {rest : List Byte} {s : State} {i : Input}

theorem Shows.streaming (presents : Shows rest s i) : Streaming s i :=
  ⟨presents.1, presents.2.1⟩

/-- A consumed byte is the next byte of the stream. -/
theorem Shows.accepted
    (presents : Shows rest s i)
    (taken : accepts s i = true) :
    ∃ later, rest = dataR s i :: later := by
  obtain ⟨_, _, lane⟩ := presents
  have valid : i.inportValid = true := by
    simp only [accepts, Bool.and_eq_true] at taken
    exact taken.1
  rw [if_pos valid] at lane
  exact List.head?_eq_some_iff.mp lane

/-- A stalled source shows no marker code. -/
theorem Shows.stalled
    (presents : Shows rest s i)
    (stall : i.inportValid = false) :
    dataR s i = 0 := by
  obtain ⟨_, _, lane⟩ := presents
  simpa [stall] using lane

/-- The previous byte after one streaming cycle. -/
theorem lastBQ_step (streaming : Streaming s i) :
    (step s i).lastBQ = if accepts s i then dataR s i else s.lastBQ := by
  simp [step, lastBNext, streaming.1, streaming.2]

/-- Outside its handshaking states the front end consumes every valid byte. -/
theorem accepts_of_state
    (free :
      s.stateQ ≠ .dqtData ∧ s.stateQ ≠ .dhtData ∧ s.stateQ ≠ .imgData) :
    accepts s i = i.inportValid := by
  obtain ⟨notDqt, notDht, notImg⟩ := free
  cases atState : s.stateQ <;> simp_all [accepts, inportAcceptW]

/-- The bytes left stay admitted by the structure. -/
theorem Structured.cycle
    {walker : Walker}
    (structured : Structured walker rest)
    (presents : Shows rest s i) :
    Structured (walkerAfter walker s i) (restAfter rest s i) := by
  cases taken : accepts s i with
  | false =>
      simpa [walkerAfter, restAfter, taken] using structured
  | true =>
      obtain ⟨later, rfl⟩ := presents.accepted taken
      simpa [walkerAfter, restAfter, taken] using structured.2

/-- The next byte is admitted by the position it is consumed at. -/
theorem Structured.admits
    {walker : Walker}
    (structured : Structured walker rest)
    (presents : Shows rest s i)
    (taken : accepts s i = true) :
    walker.Admits (dataR s i) := by
  obtain ⟨later, rfl⟩ := presents.accepted taken
  exact structured.1

/-- Before a start marker the front end waits with the walker. -/
theorem inStep_outside
    {afterFF : Bool}
    (inStep : InStep (.outside afterFF) rest s)
    (presents : Shows rest s i) :
    InStep (walkerAfter (.outside afterFF) s i)
      (restAfter rest s i) (step s i) := by
  obtain ⟨atIdle, rfl⟩ := inStep
  have lastByte := lastBQ_step presents.streaming
  have consumes : accepts s i = i.inportValid :=
    accepts_of_state (by simp [atIdle])
  have next : (step s i).stateQ =
      if tokenSoiW s i then .active else .idle := by
    simp [step, nextStateR, caseNextR, atIdle, presents.1, presents.2.1]
  cases valid : i.inportValid with
  | false =>
      have lane := presents.stalled valid
      simp_all [walkerAfter, InStep, tokenSoiW, tokenW]
  | true =>
      simp only [walkerAfter, consumes, valid, if_true, Walker.next,
        beq_iff_eq]
      split
      · rename_i isStart
        simp_all [InStep, tokenSoiW, tokenW]
      · rename_i notStart
        simp_all [InStep, tokenSoiW, tokenW]

/-- A marker code after `FF` selects the state of its segment. -/
theorem inStep_afterMarker
    (atActive : s.stateQ = .active)
    (afterFF : s.lastBQ = 0xFF)
    (streaming : Streaming s i)
    (taken : accepts s i = true)
    (left : List Byte) :
    InStep (Walker.afterMarker (dataR s i)) left (step s i) := by
  have lastByte := lastBQ_step streaming
  rw [if_pos taken] at lastByte
  have next : (step s i).stateQ = activeNextR s i := by
    simp [step, nextStateR, caseNextR, atActive, streaming.1, streaming.2]
  simp only [activeNextR, tokenEoiW, tokenDqtW, tokenDhtW, tokenSosW,
    tokenSof0W, tokenSof2W, tokenDriW, tokenRstW, tokenAppW, tokenComW,
    tokenW, tokenRangeW, afterFF, beq_self_eq_true, Bool.true_and,
    beq_iff_eq] at next
  generalize dataR s i = code at next lastByte ⊢
  simp only [Walker.afterMarker]
  by_cases fill : code = 0xFF
  · subst fill
    simp_all [InStep]
  by_cases eoi : code = 0xD9
  · subst eoi
    simp_all [InStep]
  by_cases dqt : code = 0xDB
  · subst dqt
    simp_all [InStep, SegmentKind.lenh]
  by_cases dht : code = 0xC4
  · subst dht
    simp_all [InStep, SegmentKind.lenh]
  by_cases sos : code = 0xDA
  · subst sos
    simp_all [InStep, SegmentKind.lenh]
  by_cases sof0 : code = 0xC0
  · subst sof0
    simp_all [InStep, SegmentKind.lenh]
  rw [if_neg eoi, if_neg dqt, if_neg dht, if_neg sos, if_neg sof0] at next
  rw [if_neg fill, if_neg eoi, if_neg dqt, if_neg dht, if_neg sos,
    if_neg sof0]
  simp only [Bool.or_eq_true, Bool.and_eq_true, decide_eq_true_eq,
    beq_iff_eq, or_assoc] at next
  split
  · rename_i skipped
    rw [if_pos skipped] at next
    exact next
  · rename_i ignored
    rw [if_neg ignored] at next
    simp [InStep, next]

/-- Between segments the front end follows the walker to the next segment. -/
theorem inStep_marker
    {afterFF : Bool}
    (inStep : InStep (.marker afterFF) rest s)
    (structured : Structured (.marker afterFF) rest)
    (presents : Shows rest s i) :
    InStep (walkerAfter (.marker afterFF) s i)
      (restAfter rest s i) (step s i) := by
  obtain ⟨atActive, previous⟩ := inStep
  have lastByte := lastBQ_step presents.streaming
  have consumes : accepts s i = i.inportValid :=
    accepts_of_state (by simp [atActive])
  have next : (step s i).stateQ = activeNextR s i := by
    simp [step, nextStateR, caseNextR, atActive, presents.1, presents.2.1]
  cases valid : i.inportValid with
  | false =>
      have lane := presents.stalled valid
      simp_all [walkerAfter, InStep, activeNextR, tokenEoiW, tokenDqtW,
        tokenDhtW, tokenSosW, tokenSof0W, tokenSof2W, tokenDriW,
        tokenRstW, tokenAppW, tokenComW, tokenW, tokenRangeW]
  | true =>
      have admitted := structured.admits presents (consumes.trans valid)
      cases afterFF with
      | false =>
          have fill : dataR s i = 0xFF := admitted
          simp_all [walkerAfter, Walker.next, InStep, activeNextR, tokenEoiW,
            tokenDqtW, tokenDhtW, tokenSosW, tokenSof0W, tokenSof2W,
            tokenDriW, tokenRstW, tokenAppW, tokenComW, tokenW, tokenRangeW]
      | true =>
          rw [walkerAfter, if_pos (consumes.trans valid)]
          exact inStep_afterMarker atActive (previous rfl) presents.streaming
            (consumes.trans valid) _

/-- The length states are left with the walker, with the counter loaded. -/
theorem inStep_length
    {walker : Walker}
    (inLength :
      (∃ kind, walker = .lengthHigh kind) ∨
        ∃ kind high, walker = .lengthLow kind high)
    (inStep : InStep walker rest s)
    (structured : Structured walker rest)
    (presents : Shows rest s i) :
    InStep (walkerAfter walker s i) (restAfter rest s i) (step s i) := by
  rcases inLength with ⟨kind, rfl⟩ | ⟨kind, high, rfl⟩
  · have next := lenh_step inStep presents.streaming
    cases taken : accepts s i <;>
      simp_all [walkerAfter, Walker.next, InStep]
  · have next := lenl_step inStep presents.streaming
    cases taken : accepts s i with
    | false =>
        simp_all [walkerAfter, InStep]
    | true =>
        have admitted := structured.admits presents taken
        have lowBound := (dataR s i).isLt
        simp only [Walker.Admits] at admitted
        simp only [walkerAfter, taken, if_true, Walker.next, InStep,
          next.1, next.2, true_and]
        refine ⟨?_, by omega⟩
        bv_omega

/-- Inside a payload the counter holds the bytes left. -/
theorem inStep_payload
    {kind : SegmentKind} {left : Nat}
    (inStep : InStep (.payload kind left) rest s)
    (presents : Shows rest s i) :
    InStep (walkerAfter (.payload kind left) s i)
      (restAfter rest s i) (step s i) := by
  obtain ⟨atData, counter, positive⟩ := inStep
  have lastByte := lastBQ_step presents.streaming
  have next := data_step atData presents.streaming
  cases taken : accepts s i with
  | false =>
      simp_all [walkerAfter, InStep]
  | true =>
      rw [if_pos taken] at lastByte
      rw [taken] at next
      have lastOne : s.lengthQ ≤ 1 ↔ left ≤ 1 := by
        rw [BitVec.le_def, counter]
        rfl
      simp only [walkerAfter, taken, if_true, Walker.next]
      split
      · rename_i completing
        rw [if_pos ⟨rfl, lastOne.mpr completing⟩] at next
        cases kind <;>
          simp_all [Walker.afterPayload, InStep, SegmentKind.exit]
      · rename_i inside
        rw [if_neg fun leaving => inside (lastOne.mp leaving.2),
          if_pos rfl] at next
        refine ⟨next.1, ?_, by omega⟩
        rw [next.2]
        bv_omega

/-- Entropy-coded data ends with its end marker in both. -/
theorem inStep_entropy
    {afterFF : Bool}
    (inStep : InStep (.entropy afterFF) rest s)
    (presents : Shows rest s i) :
    InStep (walkerAfter (.entropy afterFF) s i)
      (restAfter rest s i) (step s i) := by
  have lastByte := lastBQ_step presents.streaming
  obtain ⟨rfl, atImage | ⟨atIdle, afterFF, pending⟩⟩ := inStep
  · have next : (step s i).stateQ =
        if tokenEoiW s i then .idle else .imgData := by
      simp [step, nextStateR, caseNextR, atImage, presents.1, presents.2.1]
    cases taken : accepts s i with
    | true =>
        rw [if_pos taken] at lastByte
        simp only [walkerAfter, taken, if_true, Walker.next, beq_iff_eq]
        split
        · rename_i isEnd
          simp_all [InStep, tokenEoiW, tokenW]
        · rename_i notEnd
          simp_all [InStep, tokenEoiW, tokenW]
    | false =>
        simp only [taken, Bool.false_eq_true, if_false] at lastByte
        simp only [walkerAfter, restAfter, taken, Bool.false_eq_true,
          if_false, InStep, lastByte, next, true_and]
        cases seen : tokenEoiW s i with
        | false =>
            simp
        | true =>
            -- the end marker is recognised before its second byte is taken
            simp only [tokenEoiW, tokenW, Bool.and_eq_true,
              beq_iff_eq] at seen
            have valid : i.inportValid = true := by
              by_contra stall
              have lane := presents.stalled (by simpa using stall)
              simp [lane] at seen
            have lane := presents.2.2
            rw [if_pos valid, seen.2] at lane
            exact Or.inr ⟨rfl, seen.1, lane⟩
  · have consumes : accepts s i = i.inportValid :=
      accepts_of_state (by simp [atIdle])
    have next : (step s i).stateQ =
        if tokenSoiW s i then .active else .idle := by
      simp [step, nextStateR, caseNextR, atIdle, presents.1, presents.2.1]
    have lane := presents.2.2
    cases valid : i.inportValid with
    | false =>
        simp_all [walkerAfter, restAfter, InStep, tokenSoiW, tokenW]
    | true =>
        rw [if_pos valid, pending] at lane
        replace lane : dataR s i = 0xD9 := (Option.some.inj lane).symm
        simp_all [walkerAfter, Walker.next, InStep, tokenSoiW, tokenW]

/-- One cycle of a structured stream keeps the front end in step. -/
theorem InStep.cycle
    {walker : Walker}
    (inStep : InStep walker rest s)
    (structured : Structured walker rest)
    (presents : Shows rest s i) :
    InStep (walkerAfter walker s i) (restAfter rest s i) (step s i) := by
  cases walker with
  | outside afterFF => exact inStep_outside inStep presents
  | marker afterFF => exact inStep_marker inStep structured presents
  | lengthHigh kind =>
      exact inStep_length (.inl ⟨kind, rfl⟩) inStep structured presents
  | lengthLow kind high =>
      exact inStep_length (.inr ⟨kind, high, rfl⟩) inStep structured presents
  | payload kind left => exact inStep_payload inStep presents
  | entropy afterFF => exact inStep_entropy inStep presents

end Cycle

/-- After reset the front end waits for a start marker. -/
theorem inStep_reset (rest : List Byte) :
    InStep (.outside false) rest reset := by
  simp [InStep, reset]

end CoreJpeg.JpegInput
