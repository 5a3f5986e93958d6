import CoreJpeg.Clocked
import CoreJpeg.Framing
import CoreJpeg.TopModel

namespace CoreJpeg.JpegRgbRepacker

open Clocked Framing

/-!
# Packing pixels into bus words

`jpeg_rgb_repacker` appends the three bytes of each pixel to a queue of bytes
and emits a word as soon as the queue holds one, or whatever the queue holds
when a frame ends.  The queue is a shift register that is a little longer than
a word.  Seen as framed streams of bytes, the pixels taken in are the words
given out and one pending beat, the bytes that are queued.
-/

variable {keepWidth : Nat}

/-! ## The registers -/

/-- `QUEUE_DATA_WIDTH`. -/
def queueDataWidth (keepWidth : Nat) : Nat := 8 * keepWidth + 24

/-- `COUNT_WIDTH`. -/
def countWidth (keepWidth : Nat) : Nat := JpegTop.clog2 (keepWidth + 4)

/-- The registers of the repacker. -/
structure State (keepWidth : Nat) where
  queueDataReg : BitVec (queueDataWidth keepWidth)
  byteCountReg : BitVec (countWidth keepWidth)
  frameLastReg : Bool

/-- Register values at power-up and after `rst`. -/
def reset (keepWidth : Nat) : State keepWidth := ⟨0, 0, false⟩

/-- The input pins sampled in one clock cycle. -/
structure Input where
  rst : Bool
  sAxisTdata : BitVec 24
  sAxisTvalid : Bool
  sAxisTlast : Bool
  mAxisTready : Bool

/-- `keep_mask`: the loop sets the bits below a count. -/
def keepMask (keepWidth count : Nat) : BitVec keepWidth :=
  (List.range keepWidth).foldl
    (fun mask i => if i < count then mask ||| BitVec.twoPow keepWidth i else mask)
    0

namespace State

variable (s : State keepWidth) (i : Input)

/-- `have_output` and `m_axis_tvalid`. -/
def haveOutput : Bool :=
  keepWidth ≤ s.byteCountReg.toNat ||
    (s.frameLastReg && s.byteCountReg != 0)

/-- `output_byte_count`. -/
def outputByteCount : BitVec (JpegTop.clog2 (keepWidth + 1)) :=
  if keepWidth ≤ s.byteCountReg.toNat then BitVec.ofNat _ keepWidth
  else s.byteCountReg.setWidth _

/-- `output_fire`. -/
def outputFire : Bool := s.haveOutput && i.mAxisTready

/-- `s_axis_tready`. -/
def sAxisTready : Bool :=
  !s.frameLastReg &&
    (s.byteCountReg.toNat ≤ keepWidth - 1 || s.outputFire i)

/-- `m_axis_tdata`. -/
def mAxisTdata : BitVec (8 * keepWidth) :=
  s.queueDataReg.extractLsb' 0 (8 * keepWidth)

/-- `m_axis_tkeep`. -/
def mAxisTkeep : BitVec keepWidth :=
  keepMask keepWidth s.outputByteCount.toNat

/-- `m_axis_tlast`. -/
def mAxisTlast : Bool :=
  s.frameLastReg && s.byteCountReg.toNat ≤ keepWidth

/-- `emitted_bytes` of a cycle that gives a word out. -/
def emittedBytes : Nat :=
  if keepWidth ≤ s.byteCountReg.toNat then keepWidth
  else s.byteCountReg.toNat

/-- The registers behind the word that is given out. -/
def emit : State keepWidth where
  queueDataReg := s.queueDataReg >>> (s.emittedBytes * 8)
  byteCountReg := s.byteCountReg - BitVec.ofNat _ s.emittedBytes
  frameLastReg := s.frameLastReg && !s.mAxisTlast

/-- `queue[base +: 24] = pixel`. -/
def partSelect
    {width : Nat}
    (queue : BitVec width)
    (base : Nat)
    (pixel : BitVec 24) : BitVec width :=
  (queue &&& ~~~((BitVec.allOnes 24).setWidth width <<< base)) |||
    (pixel.setWidth width <<< base)

/-- The registers with a pixel behind the queued bytes. -/
def store : State keepWidth where
  queueDataReg :=
    partSelect s.queueDataReg (s.byteCountReg.toNat * 8) i.sAxisTdata
  byteCountReg := s.byteCountReg + 3#_
  frameLastReg := i.sAxisTlast || s.frameLastReg

/-- The registers after the word of a cycle, if one is taken. -/
def drained : State keepWidth := if s.outputFire i then s.emit else s

end State

/-- The registers after the clock edge. -/
def step (s : State keepWidth) (i : Input) : State keepWidth :=
  if i.rst then reset keepWidth
  else if i.sAxisTvalid && s.sAxisTready i then (s.drained i).store i
  else s.drained i

/-! ## The two streams -/

/-- A byte of a vector; the first one has the lowest bits. -/
def byteOf {width : Nat} (vector : BitVec width) (place : Nat) : BitVec 8 :=
  vector.extractLsb' (8 * place) 8

/-- The first bytes of a vector. -/
def bytesOf {width : Nat} (vector : BitVec width) (count : Nat) :
    List (BitVec 8) :=
  (List.range count).map (byteOf vector)

/-- The pixel taken in a cycle. -/
def acceptedPixel (s : State keepWidth) (i : Input) : List (Beat (BitVec 8)) :=
  if i.sAxisTvalid && s.sAxisTready i then
    [⟨bytesOf i.sAxisTdata 3, i.sAxisTlast⟩]
  else []

/-- The bytes of the presented word that `m_axis_tkeep` selects. -/
def keptBytes (s : State keepWidth) : List (BitVec 8) :=
  ((List.range keepWidth).filter s.mAxisTkeep.getLsbD).map
    (byteOf s.mAxisTdata)

/-- The word given out in a cycle. -/
def acceptedWord (s : State keepWidth) (i : Input) : List (Beat (BitVec 8)) :=
  if s.outputFire i then [⟨keptBytes s, s.mAxisTlast⟩] else []

/-- The bytes that are queued. -/
def queued (s : State keepWidth) : List (BitVec 8) :=
  bytesOf s.queueDataReg s.byteCountReg.toNat

@[simp] theorem length_bytesOf
    {width : Nat} (vector : BitVec width) (count : Nat) :
    (bytesOf vector count).length = count := by
  simp [bytesOf]

/-! ## The shift register keeps a queue -/

section Queue

/-- The mask has the bits below the count. -/
theorem getLsbD_keepMask
    {count place : Nat}
    (inside : place < keepWidth) :
    (keepMask keepWidth count).getLsbD place = decide (place < count) := by
  have below (length : Nat) (short : length ≤ keepWidth) :
      ((List.range length).foldl
        (fun mask i =>
          if i < count then mask ||| BitVec.twoPow keepWidth i else mask)
        (0 : BitVec keepWidth)).getLsbD place =
          decide (place < length ∧ place < count) := by
    induction length with
    | zero =>
        simp
    | succ length inductionHypothesis =>
        rw [List.range_succ, List.foldl_append, List.foldl_cons,
          List.foldl_nil]
        have before := inductionHypothesis (by omega)
        split
        next counted =>
          rw [BitVec.getLsbD_or, before, BitVec.getLsbD_twoPow]
          by_cases here : length = place
          · subst here
            simp [inside, counted]
          · have other : place < length ↔ place < length + 1 := by omega
            simp [here, other]
        next beyond =>
          rw [before]
          by_cases here : length = place
          · subst here
            simp [beyond]
          · have other : place < length ↔ place < length + 1 := by omega
            simp [other]
  rw [keepMask, below keepWidth (Nat.le_refl keepWidth)]
  simp [inside]

/-- A byte of a shifted queue is a later byte of the queue. -/
theorem byteOf_shift
    {width : Nat} (queue : BitVec width) (shifted place : Nat) :
    byteOf (queue >>> (shifted * 8)) place = byteOf queue (shifted + place) := by
  apply BitVec.eq_of_getLsbD_eq
  intro bit _
  have position : shifted * 8 + (8 * place + bit) =
      8 * (shifted + place) + bit := by
    omega
  simp only [byteOf, BitVec.getLsbD_extractLsb', BitVec.getLsbD_ushiftRight,
    position]

/-- A pixel changes no byte in front of it. -/
theorem byteOf_partSelect_before
    {width : Nat} (queue : BitVec width) (pixel : BitVec 24)
    {place count : Nat}
    (before : place < count) :
    byteOf (State.partSelect queue (count * 8) pixel) place =
      byteOf queue place := by
  apply BitVec.eq_of_getLsbD_eq
  intro bit inside
  have low : 8 * place + bit < count * 8 := by omega
  simp only [byteOf, State.partSelect, BitVec.getLsbD_extractLsb',
    BitVec.getLsbD_or, BitVec.getLsbD_and, BitVec.getLsbD_not,
    BitVec.getLsbD_shiftLeft, low, inside, decide_true, Bool.not_true,
    Bool.and_false, Bool.false_and, Bool.not_false, Bool.and_true,
    Bool.or_false, Bool.true_and]
  by_cases fits : 8 * place + bit < width
  · simp [fits]
  · simp [fits, BitVec.getLsbD_of_ge queue _ (Nat.le_of_not_lt fits)]

/-- The three bytes of a pixel lie behind the queue. -/
theorem byteOf_partSelect_here
    {width : Nat} (queue : BitVec width) (pixel : BitVec 24)
    {place count : Nat}
    (fits : count * 8 + 24 ≤ width)
    (here : place < 3) :
    byteOf (State.partSelect queue (count * 8) pixel) (count + place) =
      byteOf pixel place := by
  apply BitVec.eq_of_getLsbD_eq
  intro bit inside
  have position : 8 * (count + place) + bit - count * 8 = 8 * place + bit := by
    omega
  have high : ¬ 8 * (count + place) + bit < count * 8 := by omega
  have low : 8 * (count + place) + bit < width := by omega
  have pixelBit : 8 * place + bit < 24 := by omega
  have wide : 8 * place + bit < width := by omega
  simp only [byteOf, State.partSelect, BitVec.getLsbD_extractLsb',
    BitVec.getLsbD_or, BitVec.getLsbD_and, BitVec.getLsbD_not,
    BitVec.getLsbD_shiftLeft, BitVec.getLsbD_setWidth,
    BitVec.getLsbD_allOnes, position, high, low, pixelBit, wide, inside,
    decide_true, decide_false, Bool.not_false, Bool.true_and,
    Bool.not_true, Bool.and_false, Bool.false_or]

/-- Bytes in front of a place, and those from it on. -/
theorem bytesOf_add
    {width : Nat} (vector : BitVec width) (front back : Nat) :
    bytesOf vector (front + back) =
      bytesOf vector front ++
        (List.range back).map fun place => byteOf vector (front + place) := by
  simp [bytesOf, List.range_add]

/-- A pixel goes behind the queue. -/
theorem bytesOf_partSelect
    {width : Nat} (queue : BitVec width) (pixel : BitVec 24)
    {count : Nat}
    (fits : count * 8 + 24 ≤ width) :
    bytesOf (State.partSelect queue (count * 8) pixel) (count + 3) =
      bytesOf queue count ++ bytesOf pixel 3 := by
  rw [bytesOf_add]
  congr 1
  · apply List.map_congr_left
    intro place member
    exact byteOf_partSelect_before queue pixel (List.mem_range.mp member)
  · apply List.map_congr_left
    intro place member
    exact byteOf_partSelect_here queue pixel fits (List.mem_range.mp member)

/-- Shifting the queue drops its first bytes. -/
theorem bytesOf_shift
    {width : Nat} (queue : BitVec width)
    {count shifted : Nat}
    (some : shifted ≤ count) :
    bytesOf queue shifted ++
        bytesOf (queue >>> (shifted * 8)) (count - shifted) =
      bytesOf queue count := by
  have split : count = shifted + (count - shifted) := by omega
  conv_rhs => rw [split, bytesOf_add]
  congr 1
  apply List.map_congr_left
  intro place _
  exact byteOf_shift queue shifted place

end Queue

/-! ## The invariant -/

/-- What holds of the registers in every state. -/
structure Bounded (s : State keepWidth) : Prop where
  count : s.byteCountReg.toNat ≤ keepWidth + 2
  rest : s.frameLastReg = true → 0 < s.byteCountReg.toNat

section Step

variable {s : State keepWidth} {i : Input}

theorem countWidth_fits {count : Nat} (small : count < keepWidth + 4) :
    count < 2 ^ countWidth keepWidth :=
  Nat.lt_of_lt_of_le small (JpegTop.le_two_pow_clog2 (keepWidth + 4))

/-- No more bytes are given out than the queue holds. -/
theorem emittedBytes_le (s : State keepWidth) :
    s.emittedBytes ≤ s.byteCountReg.toNat ∧ s.emittedBytes ≤ keepWidth := by
  unfold State.emittedBytes
  split <;> omega

/-- `output_byte_count` is wide enough for the bytes of a word. -/
theorem outputByteCount_toNat (s : State keepWidth) :
    s.outputByteCount.toNat = s.emittedBytes := by
  have wide := JpegTop.le_two_pow_clog2 (keepWidth + 1)
  unfold State.outputByteCount State.emittedBytes
  split
  · rw [BitVec.toNat_ofNat, Nat.mod_eq_of_lt (by omega)]
  · rw [BitVec.toNat_setWidth, Nat.mod_eq_of_lt (by omega)]

/-- The places below a count are the first of a range. -/
theorem filter_below {count length : Nat} (some : count ≤ length) :
    (List.range length).filter (fun place => decide (place < count)) =
      List.range count := by
  have split : length = count + (length - count) := by omega
  rw [split, List.range_add, List.filter_append,
    List.filter_eq_self.mpr (by simp), List.filter_eq_nil_iff.mpr (by simp),
    List.append_nil]

/-- The mask selects the front of the queue. -/
theorem keptBytes_eq (s : State keepWidth) :
    keptBytes s = bytesOf s.queueDataReg s.emittedBytes := by
  have emitted := (emittedBytes_le s).2
  have mask : ∀ place ∈ List.range keepWidth,
      s.mAxisTkeep.getLsbD place = decide (place < s.emittedBytes) := by
    intro place member
    rw [State.mAxisTkeep, outputByteCount_toNat,
      getLsbD_keepMask (List.mem_range.mp member)]
  rw [keptBytes, List.filter_congr mask, filter_below emitted, bytesOf]
  apply List.map_congr_left
  intro place member
  have inside := List.mem_range.mp member
  apply BitVec.eq_of_getLsbD_eq
  intro bit _
  have low : 8 * place + bit < 8 * keepWidth := by omega
  simp only [byteOf, State.mAxisTdata, BitVec.getLsbD_extractLsb', low,
    decide_true, Bool.true_and, Nat.zero_add]

theorem emit_byteCount (s : State keepWidth) :
    s.emit.byteCountReg.toNat = s.byteCountReg.toNat - s.emittedBytes := by
  have emitted := (emittedBytes_le s).1
  have bound := s.byteCountReg.isLt
  rw [State.emit, BitVec.toNat_sub_of_le, BitVec.toNat_ofNat,
    Nat.mod_eq_of_lt (by omega)]
  rw [BitVec.le_def, BitVec.toNat_ofNat, Nat.mod_eq_of_lt (by omega)]
  exact emitted

/-- The queue is the word given out and the queue behind it. -/
theorem keptBytes_queued_emit (s : State keepWidth) :
    keptBytes s ++ queued s.emit = queued s := by
  rw [keptBytes_eq, queued, emit_byteCount, queued]
  exact bytesOf_shift _ (emittedBytes_le s).1

/-- The beat that is still inside. -/
def pending (s : State keepWidth) : Beat (BitVec 8) :=
  ⟨queued s, s.frameLastReg⟩

/-- A word is a first part of the pending beat. -/
theorem add_emit (s : State keepWidth) (frames : Frames (BitVec 8)) :
    (frames.add ⟨keptBytes s, s.mAxisTlast⟩).add (pending s.emit) =
      frames.add (pending s) := by
  have parts := keptBytes_queued_emit s
  cases isLast : s.mAxisTlast with
  | false =>
      have keeps : s.emit.frameLastReg = s.frameLastReg := by
        simp [State.emit, isLast]
      rw [pending, keeps, Frames.add_add, parts]
      rfl
  | true =>
      obtain ⟨ends, whole⟩ : s.frameLastReg = true ∧
          s.byteCountReg.toNat ≤ keepWidth := by
        simpa [State.mAxisTlast] using isLast
      have frameOpen : s.emit.frameLastReg = false := by
        simp [State.emit, isLast]
      have all : s.emittedBytes = s.byteCountReg.toNat := by
        unfold State.emittedBytes
        split <;> omega
      have empty : queued s.emit = [] := by
        rw [queued, emit_byteCount, all, Nat.sub_self]
        rfl
      rw [empty, List.append_nil] at parts
      rw [pending, frameOpen, empty, Frames.add_empty, parts, pending, ends]

theorem store_byteCount
    (i : Input)
    (free : s.byteCountReg.toNat < keepWidth) :
    (s.store i).byteCountReg.toNat = s.byteCountReg.toNat + 3 := by
  have small : s.byteCountReg.toNat + 3 < keepWidth + 4 := by omega
  have fits := countWidth_fits small
  rw [State.store, BitVec.toNat_add, BitVec.toNat_ofNat,
    Nat.mod_eq_of_lt (by omega : 3 < 2 ^ countWidth keepWidth),
    Nat.mod_eq_of_lt fits]

/-- A pixel is a further part of the pending beat. -/
theorem add_store
    (frames : Frames (BitVec 8))
    (i : Input)
    (free : s.byteCountReg.toNat < keepWidth)
    (frameOpen : s.frameLastReg = false) :
    frames.add (pending (s.store i)) =
      (frames.add (pending s)).add ⟨bytesOf i.sAxisTdata 3, i.sAxisTlast⟩ := by
  have fits : s.byteCountReg.toNat * 8 + 24 ≤ queueDataWidth keepWidth := by
    unfold queueDataWidth
    omega
  have appended : queued (s.store i) =
      queued s ++ bytesOf i.sAxisTdata 3 := by
    rw [queued, store_byteCount i free]
    exact bytesOf_partSelect s.queueDataReg i.sAxisTdata fits
  have marked : (s.store i).frameLastReg = i.sAxisTlast := by
    simp [State.store, frameOpen]
  rw [pending, appended, marked, pending, frameOpen, Frames.add_add]

/-- A cycle that takes a pixel finds room for it behind the emitted word. -/
theorem drained_free
    (bounded : Bounded s)
    (wide : 4 ≤ keepWidth)
    (ready : s.sAxisTready i = true) :
    (s.drained i).byteCountReg.toNat < keepWidth ∧
      (s.drained i).frameLastReg = false := by
  have count := bounded.count
  simp only [State.sAxisTready, Bool.and_eq_true, Bool.not_eq_true',
    Bool.or_eq_true, decide_eq_true_eq] at ready
  obtain ⟨frameOpen, room⟩ := ready
  cases fires : s.outputFire i with
  | false =>
      simp only [fires, Bool.false_eq_true, or_false] at room
      simp only [State.drained, fires, Bool.false_eq_true, if_false]
      exact ⟨by omega, frameOpen⟩
  | true =>
      have whole : keepWidth ≤ s.byteCountReg.toNat := by
        simpa [State.outputFire, State.haveOutput, frameOpen] using
          (Bool.and_eq_true_iff.mp fires).1
      have emitted : s.emittedBytes = keepWidth := if_pos whole
      simp only [State.drained, fires, if_true]
      refine ⟨?_, by simp [State.emit, frameOpen]⟩
      rw [emit_byteCount, emitted]
      omega

/-- The bounds after a word is given out. -/
theorem emit_bounded (bounded : Bounded s) : Bounded s.emit := by
  have count := bounded.count
  refine ⟨by rw [emit_byteCount]; omega, ?_⟩
  intro ends
  have longer : keepWidth < s.byteCountReg.toNat := by
    simp only [State.emit, State.mAxisTlast, Bool.and_eq_true,
      Bool.not_eq_true', Bool.and_eq_false_iff, decide_eq_false_iff_not,
      Nat.not_le] at ends
    rcases ends with ⟨last, frameOpen | longer⟩
    · simp [last] at frameOpen
    · exact longer
  have emitted : s.emittedBytes = keepWidth := if_pos (Nat.le_of_lt longer)
  rw [emit_byteCount, emitted]
  omega

theorem drained_bounded (bounded : Bounded s) :
    Bounded (s.drained i) := by
  unfold State.drained
  split
  · exact emit_bounded bounded
  · exact bounded

/-- One cycle keeps the bounds. -/
theorem step_bounded
    (wide : 4 ≤ keepWidth)
    (bounded : Bounded s) :
    Bounded (step s i) := by
  unfold step
  split
  · exact ⟨Nat.zero_le _, by simp [reset]⟩
  split
  next taken =>
    have free :=
      (drained_free bounded wide (Bool.and_eq_true_iff.mp taken).2).1
    have count := store_byteCount i free
    exact ⟨by omega, fun _ => by omega⟩
  next =>
    exact drained_bounded bounded

/-- What one cycle does to the two streams. -/
theorem step_streams
    (wide : 4 ≤ keepWidth)
    (bounded : Bounded s)
    (running : i.rst = false)
    (frames : Frames (BitVec 8)) :
    (acceptedPixel s i).foldl Frames.add (frames.add (pending s)) =
      ((acceptedWord s i).foldl Frames.add frames).add
        (pending (step s i)) := by
  have word : frames.add (pending s) =
      ((acceptedWord s i).foldl Frames.add frames).add
        (pending (s.drained i)) := by
    unfold acceptedWord State.drained
    split
    · exact (add_emit s frames).symm
    · rfl
  unfold acceptedPixel step
  rw [running, if_neg Bool.false_ne_true, word]
  split
  next taken =>
    obtain ⟨free, frameOpen⟩ :=
      drained_free bounded wide (Bool.and_eq_true_iff.mp taken).2
    exact (add_store _ i free frameOpen).symm
  next =>
    rfl

/-- A word is full, or it ends a frame and is not empty. -/
theorem acceptedWord_filled
    {word : Beat (BitVec 8)}
    (wide : 4 ≤ keepWidth)
    (bounded : Bounded s)
    (given : word ∈ acceptedWord s i) :
    word.cells ≠ [] ∧ word.cells.length ≤ keepWidth ∧
      (word.last = false → word.cells.length = keepWidth) := by
  unfold acceptedWord at given
  split at given
  next fires =>
    rw [List.mem_singleton] at given
    subst given
    have offered : s.haveOutput = true := (Bool.and_eq_true_iff.mp fires).1
    simp only [State.haveOutput, Bool.or_eq_true, decide_eq_true_eq,
      Bool.and_eq_true, bne_iff_ne, ne_eq] at offered
    have length : (keptBytes s).length = s.emittedBytes := by
      rw [keptBytes_eq, length_bytesOf]
    have rest := bounded.rest
    have emitted : s.emittedBytes =
        if keepWidth ≤ s.byteCountReg.toNat then keepWidth
        else s.byteCountReg.toNat := rfl
    rw [← List.length_pos_iff_ne_nil, length]
    rcases offered with whole | ⟨ends, -⟩
    · rw [emitted, if_pos whole]
      exact ⟨by omega, Nat.le_refl _, fun _ => rfl⟩
    · have some := rest ends
      refine ⟨by split at emitted <;> omega, by split at emitted <;> omega, ?_⟩
      intro goesOn
      have longer : keepWidth < s.byteCountReg.toNat := by
        simpa [State.mAxisTlast, ends] using goesOn
      rw [emitted, if_pos (Nat.le_of_lt longer)]
  next =>
    simp at given

/-- A word that is not taken stays as it is. -/
theorem step_presented
    (wide : 4 ≤ keepWidth)
    (running : i.rst = false)
    (offered : s.haveOutput = true)
    (held : i.mAxisTready = false) :
    step s i = s := by
  have quiet : s.outputFire i = false := by
    simp [State.outputFire, held]
  have refused : s.sAxisTready i = false := by
    simp only [State.haveOutput, Bool.or_eq_true, decide_eq_true_eq,
      Bool.and_eq_true] at offered
    rcases offered with whole | ⟨ends, -⟩
    · have full : ¬ s.byteCountReg.toNat ≤ keepWidth - 1 := by omega
      simp [State.sAxisTready, quiet, full]
    · simp [State.sAxisTready, ends]
  simp [step, running, refused, State.drained, quiet]

end Step

/-! ## Runs -/

/-- The pins that present a word. -/
def presented (s : State keepWidth) :
    Bool × BitVec (8 * keepWidth) × BitVec keepWidth × Bool :=
  (s.haveOutput, s.mAxisTdata, s.mAxisTkeep, s.mAxisTlast)

section Runs

variable {inputs : List Input}

theorem run_bounded (wide : 4 ≤ keepWidth) (inputs : List Input) :
    Bounded (run step (reset keepWidth) inputs) :=
  run_always (fun _ _ bounded => step_bounded wide bounded)
    ⟨Nat.zero_le _, by simp [reset]⟩ inputs

/-- Every word of a run is filled. -/
theorem words_filled
    {s : State keepWidth}
    (wide : 4 ≤ keepWidth)
    (bounded : Bounded s) :
    ∀ word ∈ observe step acceptedWord s inputs,
      word.cells ≠ [] ∧ word.cells.length ≤ keepWidth ∧
        (word.last = false → word.cells.length = keepWidth) := by
  induction inputs generalizing s with
  | nil =>
      intro word given
      simp at given
  | cons i rest inductionHypothesis =>
      intro word given
      rw [observe_cons, List.mem_append] at given
      rcases given with now | later
      · exact acceptedWord_filled wide bounded now
      · exact inductionHypothesis (step_bounded wide bounded) word later

/-- What a run does to the two streams. -/
theorem run_streams
    {s : State keepWidth}
    (wide : 4 ≤ keepWidth)
    (bounded : Bounded s)
    (running : ∀ i ∈ inputs, i.rst = false)
    (frames : Frames (BitVec 8)) :
    (observe step acceptedPixel s inputs).foldl Frames.add
        (frames.add (pending s)) =
      ((observe step acceptedWord s inputs).foldl Frames.add frames).add
        (pending (run step s inputs)) := by
  induction inputs generalizing s frames with
  | nil =>
      rfl
  | cons i rest inductionHypothesis =>
      rw [observe_cons, observe_cons, List.foldl_append, List.foldl_append,
        step_streams wide bounded (running i (by simp)), run_cons]
      apply inductionHypothesis (step_bounded wide bounded)
      intro later member
      exact running later (by simp [member])

/--
The pixels taken in are, as frames of bytes, the words given out and the beat
that is still inside.
-/
theorem repacks_stream
    (wide : 4 ≤ keepWidth)
    (running : ∀ i ∈ inputs, i.rst = false)
    {s : State keepWidth}
    (reached : run step (reset keepWidth) inputs = s) :
    let pixels := observe step acceptedPixel (reset keepWidth) inputs
    let words := observe step acceptedWord (reset keepWidth) inputs
    cellsOf pixels = cellsOf words ++ queued s ∧
      framesOf pixels =
        (framesOf words).add ⟨queued s, s.frameLastReg⟩ ∧
      (∀ word ∈ words,
        word.cells ≠ [] ∧ word.cells.length ≤ keepWidth ∧
          (word.last = false → word.cells.length = keepWidth)) ∧
      (queued s).length ≤ keepWidth + 2 ∧
      (s.haveOutput = false →
        s.frameLastReg = false ∧ (queued s).length < keepWidth) ∧
      ∀ i : Input, i.rst = false → s.haveOutput = true →
        i.mAxisTready = false → presented (step s i) = presented s := by
  intro pixels words
  have bounded : Bounded s := by
    rw [← reached]
    exact run_bounded wide inputs
  have grouped : framesOf pixels = (framesOf words).add (pending s) := by
    rw [← reached]
    exact run_streams wide (run_bounded wide []) running ⟨[], []⟩
  refine ⟨?_, grouped, words_filled wide (run_bounded wide []), ?_, ?_, ?_⟩
  · rw [← cells_framesOf, grouped, Frames.cells_add, cells_framesOf]
    rfl
  · rw [queued, length_bytesOf]
    exact bounded.count
  · intro none
    rw [queued, length_bytesOf]
    have rest := bounded.rest
    simp only [State.haveOutput, Bool.or_eq_false_iff, decide_eq_false_iff_not,
      Nat.not_le, Bool.and_eq_false_iff, bne_eq_false_iff_eq] at none
    refine ⟨?_, none.1⟩
    rcases none.2 with frameOpen | empty
    · exact frameOpen
    · cases ends : s.frameLastReg with
      | false =>
          rfl
      | true =>
          have some := rest ends
          rw [empty] at some
          exact absurd some (Nat.lt_irrefl 0)
  · intro i noReset offered held
    rw [step_presented wide noReset offered held]

/-- A frame of two pixels and one of a single pixel, with stalls. -/
def twoFrames : List Input :=
  [⟨false, 0x030201, true, false, false⟩,
    ⟨false, 0x060504, true, true, false⟩,
    ⟨false, 0x090807, true, true, false⟩,
    ⟨false, 0x090807, true, true, true⟩,
    ⟨false, 0x090807, true, true, true⟩,
    ⟨false, 0x090807, true, true, true⟩,
    ⟨false, 0, false, false, true⟩]

theorem repacks_two_frames :
    framesOf (observe step acceptedPixel (reset 4) twoFrames) =
      (framesOf (observe step acceptedWord (reset 4) twoFrames)).add
        (pending (run step (reset 4) twoFrames)) :=
  (repacks_stream (by decide) (by decide) rfl).2.1

example :
    framesOf (observe step acceptedWord (reset 4) twoFrames) =
      ⟨[[1, 2, 3, 4, 5, 6], [7, 8, 9]], []⟩ := by decide

end Runs

end CoreJpeg.JpegRgbRepacker
