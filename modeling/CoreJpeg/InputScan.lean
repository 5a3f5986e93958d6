import CoreJpeg.InputStructure
import CoreJpeg.SoftwareRead

namespace CoreJpeg.JpegInput

open Clocked Software

/-!
# Unstuffing a scan

In the scan the front end holds back the last byte it took: the byte is given
to the bit buffer together with the arrival of the next one, so that the `FF`
of the end marker never is.  A stuffed zero may be consumed while the bit
buffer refuses data, and the end marker leaves the state before its second
byte is consumed.  This module follows the bytes left of the scan through all
of it and compares the bytes delivered with those that `push` stores.
-/

/-! ## The scan and its bytes -/

/-- Each `FF` is followed by a zero. -/
def EachStuffed (scan : List Byte) : Prop :=
  ∀ index : Nat, scan[index]? = some 0xFF → scan[index + 1]? = some 0x00

/-- Such a scan is the stuffing of some bytes. -/
theorem EachStuffed.eq_stuff :
    ∀ {scan : List Byte}, EachStuffed scan → ∃ bytes, scan = stuff bytes
  | [], _ => ⟨[], rfl⟩
  | b :: rest, stuffed => by
      by_cases marker : b = 0xFF
      · subst marker
        have zero := stuffed 0 rfl
        cases rest with
        | nil =>
            simp at zero
        | cons pad later =>
            have isZero : pad = 0x00 := by simpa using zero
            subst isZero
            have tail : EachStuffed later :=
              fun index found => stuffed (index + 2) found
            obtain ⟨bytes, isStuffed⟩ := tail.eq_stuff
            exact ⟨0xFF :: bytes, by simp [stuff, isStuffed]⟩
      · have tail : EachStuffed rest :=
          fun index found => stuffed (index + 1) found
        obtain ⟨bytes, isStuffed⟩ := tail.eq_stuff
        have single : stuff (b :: bytes) = b :: stuff bytes :=
          congrArg (· ++ stuff bytes) (if_neg marker)
        exact ⟨b :: bytes, by rw [single, isStuffed]⟩

/-- The bytes that the software's bit buffer holds. -/
def heldBytes (s : Software.BitBuffer) : List Byte :=
  (List.range s.wrOffset).map s.buffer

theorem heldBytes_eq
    {bytes : List Byte} {s : Software.BitBuffer}
    (loaded : Loaded bytes s) :
    heldBytes s = bytes := by
  apply List.ext_getElem
  · simp [heldBytes, loaded.written]
  · intro index inHeld inBytes
    simp [heldBytes, loaded.stored index inBytes]

/-- What `push` stores of a scan and its end marker. -/
theorem heldBytes_stuff (bytes : List Byte) :
    heldBytes (Software.BitBuffer.reset.pushScan (stuff bytes ++ [0xFF, 0xD9])) =
      bytes :=
  heldBytes_eq (imageStart_loaded bytes (by decide) []).1

/-! ## The front end with the bytes left -/

/-- The front end and the bytes of the scan that it did not consume yet. -/
structure Scan where
  front : State
  rest : List Byte

namespace Scan

def step (f : Scan) (i : Input) : Scan where
  front := JpegInput.step f.front i
  rest := restAfter f.rest f.front i

def Shows (f : Scan) (i : Input) : Prop :=
  JpegInput.Shows f.rest f.front i

instance (f : Scan) (i : Input) : Decidable (f.Shows i) :=
  inferInstanceAs (Decidable (JpegInput.Shows f.rest f.front i))

/-- The byte that the bit buffer takes. -/
def taken (f : Scan) (i : Input) : List Byte := dataTransfer f.front i

end Scan

/-- The byte that is held back. -/
def heldBack (s : State) : List Byte :=
  if s.dataValidQ then [s.dataDataQ] else []

/-- Where the front end is in a scan of some bytes. -/
inductive InScan (bytes delivered rest : List Byte) (s : State) : Prop where
  | inside (more : List Byte)
      (atImage : s.stateQ = .imgData)
      (previous : s.lastBQ ≠ 0xFF)
      (left : rest = stuff more ++ [0xFF, 0xD9])
      (split : bytes = delivered ++ heldBack s ++ more)
  | stuffing (more : List Byte)
      (atImage : s.stateQ = .imgData)
      (previous : s.lastBQ = 0xFF)
      (left : rest = 0x00 :: (stuff more ++ [0xFF, 0xD9]))
      (split : bytes = delivered ++ heldBack s ++ more)
  | ending
      (atEnd : s.stateQ = .imgData ∨ s.stateQ = .idle)
      (previous : s.lastBQ = 0xFF)
      (left : rest = [0xD9])
      (all : bytes = delivered)
  | ended
      (atIdle : s.stateQ = .idle)
      (nothing : s.dataValidQ = false)
      (left : rest = [] ∨ rest = [0xD9])
      (all : bytes = delivered)

section Cycle

variable {bytes delivered : List Byte} {f : Scan} {i : Input}

theorem stateQ_scan (presents : f.Shows i) :
    (f.step i).front.stateQ = caseNextR f.front i := by
  simp [Scan.step, step, nextStateR, presents.1, presents.2.1]

theorem heldBack_scan (presents : f.Shows i) :
    heldBack (f.step i).front =
      if dataValidNext f.front i then [dataDataNext f.front i] else [] := by
  simp [Scan.step, step, heldBack, presents.1]

/-- Without a valid byte nothing happens in the scan. -/
theorem Scan.Shows.quiet
    (presents : f.Shows i)
    (atImage : f.front.stateQ = .imgData)
    (stall : i.inportValid = false) :
    (f.step i).front.stateQ = .imgData ∧
      (f.step i).front.lastBQ = f.front.lastBQ ∧
      (f.step i).rest = f.rest ∧
      heldBack (f.step i).front = heldBack f.front ∧
      f.taken i = [] := by
  have lane := presents.stalled stall
  have refused : accepts f.front i = false := by
    simp [accepts, stall]
  refine ⟨?_, ?_, ?_, ?_, ?_⟩
  · rw [stateQ_scan presents, caseNextR, atImage]
    simp [tokenEoiW, tokenW, lane]
  · exact (lastBQ_step presents.streaming).trans (by rw [if_neg (by simp [refused])])
  · simp [Scan.step, restAfter, refused]
  · rw [heldBack_scan presents, dataValidNext, dataDataNext]
    simp [stall, atImage, heldBack]
  · simp [Scan.taken, dataTransfer, dataValidO, stall]

/-- The byte that is shown is the next one of the scan. -/
theorem Scan.Shows.shown
    (presents : f.Shows i)
    (valid : i.inportValid = true)
    {b : Byte} {later : List Byte}
    (left : f.rest = b :: later) :
    dataR f.front i = b := by
  have lane := presents.2.2
  rw [if_pos valid, left] at lane
  exact (Option.some.inj lane).symm

/-- A byte that the bit buffer takes brings the next one. -/
theorem Scan.Shows.takes
    (presents : f.Shows i)
    (atImage : f.front.stateQ = .imgData)
    (valid : i.inportValid = true)
    (accept : i.dataAccept = true)
    {b : Byte} {later : List Byte}
    (left : f.rest = b :: later)
    (notEnd : ¬ (f.front.lastBQ = 0xFF ∧ b = 0xD9)) :
    (f.step i).front.stateQ = .imgData ∧
      (f.step i).front.lastBQ = b ∧
      (f.step i).rest = later ∧
      heldBack (f.step i).front =
        (if f.front.lastBQ = 0xFF ∧ b = 0x00 then [] else [b]) ∧
      f.taken i = heldBack f.front := by
  have lane := presents.shown valid left
  have eoi : tokenEoiW f.front i = false := by
    simpa [tokenEoiW, tokenW, lane] using notEnd
  have accepted : accepts f.front i = true := by
    simp [accepts, inportAcceptW, atImage, valid, accept]
  refine ⟨?_, ?_, ?_, ?_, ?_⟩
  · rw [stateQ_scan presents, caseNextR, atImage]
    simp [eoi]
  · exact (lastBQ_step presents.streaming).trans
      (by rw [if_pos accepted, lane])
  · simp [Scan.step, restAfter, accepted, left]
  · rw [heldBack_scan presents, dataValidNext, dataDataNext]
    by_cases pad : f.front.lastBQ = 0xFF ∧ b = 0x00
    · simp [valid, accept, atImage, eoi, tokenPadW, tokenW, lane, pad]
    · have notPad : tokenPadW f.front i = false := by
        simpa [tokenPadW, tokenW, lane] using pad
      rw [if_neg pad]
      simp [valid, accept, atImage, eoi, notPad, lane]
  · simp [Scan.taken, dataTransfer, dataValidO, dataDataO, valid, accept, eoi,
      heldBack]

/-- A byte that the bit buffer refuses waits, unless it is a stuffed zero. -/
theorem Scan.Shows.refuses
    (presents : f.Shows i)
    (atImage : f.front.stateQ = .imgData)
    (valid : i.inportValid = true)
    (refuse : i.dataAccept = false)
    {b : Byte} {later : List Byte}
    (left : f.rest = b :: later)
    (notEnd : ¬ (f.front.lastBQ = 0xFF ∧ b = 0xD9)) :
    let skips := f.front.lastBQ = 0xFF ∧ b = 0x00
    (f.step i).front.stateQ = .imgData ∧
      (f.step i).front.lastBQ = (if skips then 0x00 else f.front.lastBQ) ∧
      (f.step i).rest = (if skips then later else f.rest) ∧
      heldBack (f.step i).front = heldBack f.front ∧
      f.taken i = [] := by
  intro skips
  have lane := presents.shown valid left
  have eoi : tokenEoiW f.front i = false := by
    simpa [tokenEoiW, tokenW, lane] using notEnd
  have accepted : accepts f.front i = decide skips := by
    rw [accepts, inportAcceptW, atImage, valid, refuse, Bool.eq_iff_iff,
      decide_eq_true_eq]
    simp only [Bool.true_and, Bool.false_or, tokenPadW, tokenW, lane,
      Bool.and_eq_true, beq_iff_eq, skips]
  refine ⟨?_, ?_, ?_, ?_, ?_⟩
  · rw [stateQ_scan presents, caseNextR, atImage]
    simp [eoi]
  · refine (lastBQ_step presents.streaming).trans ?_
    simp only [accepted, decide_eq_true_eq, lane]
    by_cases pad : skips
    · rw [if_pos pad, if_pos pad, pad.2]
    · rw [if_neg pad, if_neg pad]
  · simp [Scan.step, restAfter, accepted, left]
  · rw [heldBack_scan presents, dataValidNext, dataDataNext]
    simp [refuse, atImage, heldBack]
  · simp [Scan.taken, dataTransfer, refuse]

/-- Behind the scan the front end is idle and holds nothing back. -/
theorem Scan.Shows.idles
    (presents : f.Shows i)
    (atIdle : f.front.stateQ = .idle)
    (left : f.rest = [] ∨ f.rest = [0xD9]) :
    (f.step i).front.stateQ = .idle ∧
      (f.step i).front.dataValidQ = false ∧
      ((f.step i).rest = [] ∨ (f.step i).rest = [0xD9]) := by
  have lane : dataR f.front i = 0 ∨ dataR f.front i = 0xD9 := by
    cases valid : i.inportValid with
    | false =>
        exact .inl (presents.stalled valid)
    | true =>
        rcases left with none | last
        · have offered := presents.2.2
          rw [if_pos valid, none] at offered
          cases offered
        · exact .inr (presents.shown valid last)
  have soi : tokenSoiW f.front i = false := by
    rcases lane with zero | isEnd
    · rw [tokenSoiW, tokenW, zero]
      simp
    · rw [tokenSoiW, tokenW, isEnd]
      simp
  refine ⟨?_, ?_, ?_⟩
  · rw [stateQ_scan presents, caseNextR, atIdle]
    simp [soi]
  · simp [Scan.step, JpegInput.step, presents.1, dataValidNext, atIdle]
  · rw [Scan.step, restAfter]
    split
    · rcases left with none | last
      · exact .inl (by rw [none]; rfl)
      · exact .inl (by rw [last]; rfl)
    · exact left

/-- The last byte of the scan is held back while its end is recognised. -/
theorem Scan.Shows.ends
    (presents : f.Shows i)
    (atEnd : f.front.stateQ = .imgData ∨ f.front.stateQ = .idle)
    (previous : f.front.lastBQ = 0xFF)
    (left : f.rest = [0xD9])
    (all : bytes = delivered) :
    InScan bytes (delivered ++ f.taken i) (f.step i).rest
        (f.step i).front ∧ f.taken i = [] := by
  have taken : f.taken i = [] := by
    cases valid : i.inportValid with
    | false =>
        simp [Scan.taken, dataTransfer, dataValidO, valid]
    | true =>
        have lane := presents.shown valid left
        simp [Scan.taken, dataTransfer, dataValidO, tokenEoiW, tokenW, lane,
          previous]
  refine ⟨?_, taken⟩
  rw [taken, List.append_nil]
  rcases atEnd with atImage | atIdle
  · cases valid : i.inportValid with
    | false =>
        obtain ⟨state, last, rest, -, -⟩ := presents.quiet atImage valid
        exact .ending (.inl state) (by rw [last, previous])
          (by rw [rest, left]) all
    | true =>
        have lane := presents.shown valid left
        have eoi : tokenEoiW f.front i = true := by
          simp [tokenEoiW, tokenW, lane, previous]
        have state : (f.step i).front.stateQ = .idle := by
          rw [stateQ_scan presents, caseNextR, atImage]
          simp [eoi]
        have pad : tokenPadW f.front i = false := by
          rw [tokenPadW, tokenW, lane]
          simp
        have accepted : accepts f.front i = i.dataAccept := by
          simp [accepts, inportAcceptW, atImage, valid, pad]
        cases accept : i.dataAccept with
        | false =>
            -- the state is left before the second byte is consumed
            have waits : accepts f.front i ≠ true := by
              rw [accepted, accept]
              exact Bool.false_ne_true
            exact .ending (.inr state)
              ((lastBQ_step presents.streaming).trans
                (by rw [if_neg waits, previous]))
              (by rw [Scan.step, restAfter, if_neg waits, left]) all
        | true =>
            refine .ended state ?_ (.inl ?_) all
            · simp [Scan.step, JpegInput.step, presents.1, dataValidNext, valid,
                accept, eoi]
            · rw [Scan.step, restAfter, if_pos (accepted.trans accept), left]
              rfl
  · obtain ⟨state, nothing, rest⟩ := presents.idles atIdle (.inr left)
    exact .ended state nothing rest all

/-- One cycle of a scan. -/
theorem InScan.cycle
    (known : InScan bytes delivered f.rest f.front)
    (presents : f.Shows i) :
    InScan bytes (delivered ++ f.taken i) (f.step i).rest
        (f.step i).front ∧
      (dataLastO f.front i = true → bytes = delivered ∧ f.taken i = []) := by
  cases known with
  | inside more atImage previous left split =>
      have silent : tokenEoiW f.front i = false := by
        rw [tokenEoiW, tokenW, beq_eq_false_iff_ne.mpr previous,
          Bool.false_and]
      refine ⟨?_, by simp [dataLastO, silent]⟩
      cases valid : i.inportValid with
      | false =>
          obtain ⟨state, last, rest, held, taken⟩ := presents.quiet atImage valid
          rw [taken, List.append_nil]
          exact .inside more state (by rwa [last]) (by rw [rest, left])
            (by rw [held, split])
      | true =>
          have notEnd (b : Byte) : ¬ (f.front.lastBQ = 0xFF ∧ b = 0xD9) :=
            fun both => previous both.1
          have notPad (b : Byte) : ¬ (f.front.lastBQ = 0xFF ∧ b = 0x00) :=
            fun both => previous both.1
          obtain ⟨b, later, next⟩ : ∃ b later, f.rest = b :: later := by
            rw [left]
            cases stuff more <;> simp
          cases accept : i.dataAccept with
          | false =>
              obtain ⟨state, last, rest, held, taken⟩ :=
                presents.refuses atImage valid accept next (notEnd b)
              rw [if_neg (notPad b)] at last rest
              rw [taken, List.append_nil]
              exact .inside more state (by rwa [last]) (by rw [rest, left])
                (by rw [held, split])
          | true =>
              obtain ⟨state, last, rest, held, taken⟩ :=
                presents.takes atImage valid accept next (notEnd b)
              rw [if_neg (notPad b)] at held
              rw [taken]
              cases more with
              | nil =>
                  -- the byte taken is the `FF` of the end marker
                  obtain ⟨isMarker, isEnd⟩ : b = 0xFF ∧ later = [0xD9] := by
                    simpa [stuff, eq_comm] using left.symm.trans next
                  exact .ending (.inl state) (by rw [last, isMarker])
                    (by rw [rest, isEnd]) (by simpa using split)
              | cons first more =>
                  by_cases marker : first = 0xFF
                  · obtain ⟨isMarker, pad⟩ : b = 0xFF ∧
                        later = 0x00 :: (stuff more ++ [0xFF, 0xD9]) := by
                      subst marker
                      simpa [stuff, eq_comm] using left.symm.trans next
                    exact .stuffing more state (by rw [last, isMarker])
                      (by rw [rest, pad])
                      (by rw [split, held, isMarker, marker]; simp)
                  · have single : stuff (first :: more) = first :: stuff more :=
                      congrArg (· ++ stuff more) (if_neg marker)
                    obtain ⟨isFirst, goesOn⟩ : b = first ∧
                        later = stuff more ++ [0xFF, 0xD9] := by
                      rw [single] at left
                      simpa [eq_comm] using left.symm.trans next
                    exact .inside more state (by rwa [last, isFirst])
                      (by rw [rest, goesOn])
                      (by rw [split, held, isFirst]; simp)
  | stuffing more atImage previous left split =>
      have notEnd : ¬ (f.front.lastBQ = 0xFF ∧ (0x00 : Byte) = 0xD9) :=
        fun both => absurd both.2 (by decide)
      have isPad : f.front.lastBQ = 0xFF ∧ (0x00 : Byte) = 0x00 :=
        ⟨previous, rfl⟩
      cases valid : i.inportValid with
      | false =>
          obtain ⟨state, last, rest, held, taken⟩ := presents.quiet atImage valid
          rw [taken, List.append_nil]
          exact ⟨.stuffing more state (by rw [last, previous])
            (by rw [rest, left]) (by rw [held, split]),
            by simp [dataLastO, valid]⟩
      | true =>
          have lane := presents.shown valid left
          refine ⟨?_, by simp [dataLastO, tokenEoiW, tokenW, lane]⟩
          cases accept : i.dataAccept with
          | false =>
              -- the zero is skipped, the byte in front of it waits
              obtain ⟨state, last, rest, held, taken⟩ :=
                presents.refuses atImage valid accept left notEnd
              rw [if_pos isPad] at last rest
              rw [taken, List.append_nil]
              exact .inside more state (by rw [last]; decide) rest
                (by rw [held, split])
          | true =>
              obtain ⟨state, last, rest, held, taken⟩ :=
                presents.takes atImage valid accept left notEnd
              rw [if_pos isPad] at held
              rw [taken]
              exact .inside more state (by rw [last]; decide) rest
                (by rw [held, split]; simp)
  | ending atEnd previous left all =>
      obtain ⟨next, nothing⟩ := presents.ends atEnd previous left all
      exact ⟨next, fun _ => ⟨all, nothing⟩⟩
  | ended atIdle nothing left all =>
      obtain ⟨state, still, rest⟩ := presents.idles atIdle left
      have taken : f.taken i = [] := by
        simp [Scan.taken, dataTransfer, dataValidO, nothing]
      rw [taken, List.append_nil]
      exact ⟨.ended state still rest all, by simp [dataLastO, nothing]⟩

end Cycle

/-! ## Runs -/

section Runs

variable {bytes : List Byte} {f : Scan} {cycles : List Input}

/-- Where the front end is after a part of a scan. -/
theorem inScan_run
    (known : InScan bytes [] f.rest f.front)
    (presents : Along Scan.step Scan.Shows f cycles) :
    InScan bytes (observe Scan.step Scan.taken f cycles)
      (run Scan.step f cycles).rest (run Scan.step f cycles).front := by
  induction cycles using List.reverseRecOn with
  | nil =>
      exact known
  | append_singleton past i inductionHypothesis =>
      rw [along_append, along_cons] at presents
      have next := (inductionHypothesis presents.1).cycle presents.2.1
      rw [observe_append, run_append, observe_cons, observe_nil,
        List.append_nil]
      exact next.1

/-- What is delivered is a first part of the scan's bytes. -/
theorem InScan.delivered_starts
    {delivered rest : List Byte} {s : State}
    (known : InScan bytes delivered rest s) :
    delivered <+: bytes := by
  cases known with
  | inside more _ _ _ split =>
      exact ⟨_, by rw [split, List.append_assoc]⟩
  | stuffing more _ _ _ split =>
      exact ⟨_, by rw [split, List.append_assoc]⟩
  | ending _ _ _ all =>
      rw [all]
  | ended _ _ _ all =>
      rw [all]

/-- A scan that was consumed has been delivered. -/
theorem InScan.delivered_all
    {delivered : List Byte} {s : State}
    (known : InScan bytes delivered [] s) :
    bytes = delivered := by
  cases known with
  | inside more _ _ left _ =>
      simp at left
  | stuffing more _ _ left _ =>
      simp at left
  | ending _ _ left _ =>
      simp at left
  | ended _ _ _ all =>
      exact all

/--
The bytes that the bit buffer takes of a scan are those that `push` stores:
never more than a first part of them, all of them when the scan is consumed or
its end is announced, and none behind the announcement.
-/
theorem scan_unstuffed
    {before : State} {entry : Input} {scan : List Byte}
    (outside : before.stateQ ≠ .imgData)
    (enters : (step before entry).stateQ = .imgData)
    (header : (step before entry).lastBQ ≠ 0xFF)
    (stuffed : EachStuffed scan)
    {cycles : List Input}
    (presents :
      Along Scan.step Scan.Shows
        ⟨step before entry, scan ++ [0xFF, 0xD9]⟩ cycles) :
    let start : Scan := ⟨step before entry, scan ++ [0xFF, 0xD9]⟩
    let now := run Scan.step start cycles
    let delivered := observe Scan.step Scan.taken start cycles
    let stored :=
      heldBytes (Software.BitBuffer.reset.pushScan (scan ++ [0xFF, 0xD9]))
    delivered <+: stored ∧
      (now.rest = [] → delivered = stored) ∧
      ∀ i, now.Shows i → dataLastO now.front i = true →
        delivered = stored ∧
          ∀ later, Along Scan.step Scan.Shows now (i :: later) →
            observe Scan.step Scan.taken now (i :: later) = [] := by
  intro start now delivered stored
  obtain ⟨bytes, isStuffed⟩ := stuffed.eq_stuff
  have isStored : stored = bytes := by
    rw [← heldBytes_stuff bytes, ← isStuffed]
  have nothing : heldBack (step before entry) = [] := by
    by_cases reset_ : entry.rst
    · simp [step, reset_, heldBack, reset]
    · simp [step, reset_, heldBack, dataValidNext, outside]
  have initially : InScan bytes [] start.rest start.front :=
    .inside bytes enters header (by rw [← isStuffed]) (by rw [nothing]; rfl)
  have known := inScan_run initially presents
  rw [isStored]
  refine ⟨known.delivered_starts, ?_, ?_⟩
  · intro consumed
    have all : InScan bytes delivered now.rest now.front := known
    rw [consumed] at all
    exact all.delivered_all.symm
  · intro i shows_i announced
    have all := (known.cycle shows_i).2 announced
    refine ⟨all.1.symm, ?_⟩
    intro later goesOn
    have further : delivered ++ observe Scan.step Scan.taken now (i :: later) <+:
        bytes := by
      rw [← observe_append]
      exact (inScan_run initially
        ((along_append _ _ _).mpr ⟨presents, goesOn⟩)).delivered_starts
    have short := further.length_le
    have same : bytes.length = delivered.length := congrArg List.length all.1
    rw [List.length_append, same] at short
    exact List.length_eq_zero_iff.mp (by omega)

/-- The last byte of a scan header. -/
def headerEnd : State :=
  { reset with stateQ := .imgSos, lengthQ := 1, byteIdxQ := 3 }

/-- A byte on every lane, taken or not. -/
def lanes (byte : Byte) (accept : Bool) : Input where
  rst := false
  inportValid := true
  inportData := byte ++ byte ++ byte ++ byte
  inportStrb := 0xF
  inportLast := false
  dqtCfgAccept := true
  dhtCfgAccept := true
  dataAccept := accept

/-- A scan with a stuffed byte, refused bytes and its end marker. -/
def stuffedCycles : List Input :=
  [lanes 0x12 true, lanes 0xFF false, lanes 0xFF true, lanes 0x00 false,
    lanes 0x34 true, lanes 0xFF true, lanes 0xD9 false, lanes 0xD9 false]

theorem scan_unstuffed_three :
    observe Scan.step Scan.taken
        ⟨step headerEnd (lanes 0x3F true), [0x12, 0xFF, 0x00, 0x34, 0xFF, 0xD9]⟩
        stuffedCycles =
      heldBytes
        (Software.BitBuffer.reset.pushScan
          [0x12, 0xFF, 0x00, 0x34, 0xFF, 0xD9]) := by
  have stuffed : EachStuffed [0x12, 0xFF, 0x00, 0x34] := by
    intro index found
    match index with
    | 0 => simp at found
    | 1 => rfl
    | 2 => simp at found
    | 3 => simp at found
    | later + 4 => simp at found
  have delivered := scan_unstuffed
    (by decide : headerEnd.stateQ ≠ .imgData)
    (by decide : (step headerEnd (lanes 0x3F true)).stateQ = .imgData)
    (by decide) stuffed
    (by decide : Along Scan.step Scan.Shows _ stuffedCycles)
  exact delivered.2.1 (by decide)

end Runs

end CoreJpeg.JpegInput
