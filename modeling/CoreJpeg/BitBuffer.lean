import CoreJpeg.BitString
import CoreJpeg.Clocked
import CoreJpeg.RingBuffer
import Mathlib.Tactic.IntervalCases

namespace CoreJpeg.BitBuffer

/-!
# The bit buffer

`jpeg_bitbuffer` takes bytes of the scan and shows the entropy decoder the next
32 undecoded bits.  It is a circular memory of eight bytes that is read at bit
positions.  The registers refine a queue of bits: a byte is accepted while 56
bits or fewer are held, and a pop drops bits from the front.
-/

open BitString Clocked RingBuffer

/-- The input pins sampled in one clock cycle. -/
structure Input where
  rst : Bool
  imgStart : Bool
  inportValid : Bool
  inportData : BitVec 8
  inportLast : Bool
  outportPop : BitVec 6
  deriving Repr, DecidableEq

/-- The registers of the bit buffer. -/
structure State where
  ramQ : BitVec 3 → BitVec 8
  rdPtrQ : BitVec 6
  wrPtrQ : BitVec 6
  countQ : BitVec 7
  drainQ : Bool

/-- Register values after `rst_i`; the memory is not reset. -/
def cleared (ramQ : BitVec 3 → BitVec 8) : State where
  ramQ := ramQ
  rdPtrQ := 0
  wrPtrQ := 0
  countQ := 0
  drainQ := false

/-- `inport_accept_o`. -/
def inportAccept (s : State) : Bool := s.countQ ≤ 56

/-- `outport_valid_o`. -/
def outportValid (s : State) : Bool :=
  32 ≤ s.countQ || (s.drainQ && s.countQ != 0)

/-- `fifo_data_r`: five bytes from the one the read pointer is in. -/
def fifoDataR (s : State) : BitVec 40 :=
  let byte := s.rdPtrQ.extractLsb' 3 3
  s.ramQ byte ++ s.ramQ (byte + 1) ++ s.ramQ (byte + 2) ++
    s.ramQ (byte + 3) ++ s.ramQ (byte + 4)

/-- `outport_data_o`: 32 bits from the read pointer on. -/
def outportData (s : State) : BitVec 32 :=
  (fifoDataR s <<< (s.rdPtrQ.extractLsb' 0 3)).extractLsb' 8 32

/-- A byte is taken in this cycle. -/
def pushes (s : State) (i : Input) : Bool :=
  i.inportValid && inportAccept s

/-- Bits are dropped in this cycle. -/
def pops (s : State) (i : Input) : Bool :=
  outportValid s && i.outportPop != 0

/-- `count_r`. -/
def countR (s : State) (i : Input) : BitVec 7 :=
  let pushed := if pushes s i then s.countQ + 8 else s.countQ
  if pops s i then pushed - i.outportPop.setWidth 7 else pushed

/-- The registers after the clock edge. -/
def step (s : State) (i : Input) : State :=
  if i.rst || i.imgStart then cleared s.ramQ
  else
    { ramQ := fun address =>
        if pushes s i && address == s.wrPtrQ.extractLsb' 3 3 then
          i.inportData
        else s.ramQ address
      rdPtrQ := if pops s i then s.rdPtrQ + i.outportPop else s.rdPtrQ
      wrPtrQ := if pushes s i then s.wrPtrQ + 8 else s.wrPtrQ
      countQ := countR s i
      drainQ := s.drainQ || i.inportLast }

/-! ## The queue of bits -/

/-- The bit at a bit position of the memory. -/
def bitAt (ramQ : BitVec 3 → BitVec 8) (position : BitVec 6) : Bool :=
  (ramQ (position.extractLsb' 3 3)).getMsbD
    (position.extractLsb' 0 3).toNat

/-- The undecoded bits the buffer holds. -/
def queue (s : State) : List Bool :=
  contents (bitAt s.ramQ) s.rdPtrQ s.countQ.toNat

/-- Pointers and count describe the same bits, and bytes start at bytes. -/
structure Sound (s : State) : Prop where
  countSmall : s.countQ.toNat ≤ 64
  writeBehind : s.wrPtrQ = s.rdPtrQ + BitVec.ofNat 6 s.countQ.toNat
  byteAligned : s.wrPtrQ.extractLsb' 0 3 = 0#3

/-- The bits a cycle drops from the front. -/
def popped (s : State) (i : Input) : Nat :=
  if pops s i then i.outportPop.toNat else 0

/-- The bits a cycle adds to the back. -/
def pushed (s : State) (i : Input) : List Bool :=
  if pushes s i then bitsOf i.inportData else []

@[simp] theorem length_queue (s : State) :
    (queue s).length = s.countQ.toNat := by
  simp [queue]

theorem cleared_sound (ramQ : BitVec 3 → BitVec 8) :
    Sound (cleared ramQ) where
  countSmall := by simp [cleared]
  writeBehind := by simp [cleared]
  byteAligned := by simp [cleared]

@[simp] theorem queue_cleared (ramQ : BitVec 3 → BitVec 8) :
    queue (cleared ramQ) = [] := rfl

/-! ## The window -/

/-- A bit position a number of bits on lies in a byte and at a bit of it. -/
theorem position_split
    (position : BitVec 6)
    {offset byte bit : Nat}
    (bitSmall : bit < 8)
    (split :
      (position.extractLsb' 0 3).toNat + offset = 8 * byte + bit) :
    (position + BitVec.ofNat 6 offset).extractLsb' 3 3 =
        position.extractLsb' 3 3 + BitVec.ofNat 3 byte ∧
      ((position + BitVec.ofNat 6 offset).extractLsb' 0 3).toNat = bit := by
  have positionSmall := position.isLt
  have low : (position.extractLsb' 0 3).toNat = position.toNat % 8 := by
    simp
  rw [low] at split
  constructor
  · apply BitVec.eq_of_toNat_eq
    simp [Nat.shiftRight_eq_div_pow]
    omega
  · simp
    omega

/-- The five bytes of the window follow each other in the memory. -/
theorem getMsbD_fifoDataR
    (s : State)
    {byte bit : Nat}
    (byteSmall : byte < 5)
    (bitSmall : bit < 8) :
    (fifoDataR s).getMsbD (8 * byte + bit) =
      (s.ramQ (s.rdPtrQ.extractLsb' 3 3 + BitVec.ofNat 3 byte)).getMsbD
        bit := by
  unfold fifoDataR
  simp only [BitVec.getMsbD_append]
  interval_cases byte <;> simp <;> grind

/-- The window shows the 32 bits from the read pointer on. -/
theorem getMsbD_outportData
    (s : State)
    {offset : Nat}
    (inWindow : offset < 32) :
    (outportData s).getMsbD offset =
      bitAt s.ramQ (s.rdPtrQ + BitVec.ofNat 6 offset) := by
  have small := (s.rdPtrQ.extractLsb' 0 3).isLt
  have shifted :
      (outportData s).getMsbD offset =
        (fifoDataR s).getMsbD
          ((s.rdPtrQ.extractLsb' 0 3).toNat + offset) := by
    have amount :
        40 - (8 + 32 - offset) + (s.rdPtrQ.extractLsb' 0 3).toNat =
          (s.rdPtrQ.extractLsb' 0 3).toNat + offset := by
      omega
    rw [outportData, BitVec.getMsbD_extractLsb', BitVec.shiftLeft_eq',
      BitVec.getMsbD_shiftLeft, amount]
    simp [inWindow, show 8 + 32 - offset ≤ 40 by omega]
  obtain ⟨byte, bit, bitSmall, split⟩ :
      ∃ byte bit, bit < 8 ∧
        (s.rdPtrQ.extractLsb' 0 3).toNat + offset = 8 * byte + bit :=
    ⟨_, _, Nat.mod_lt _ (by decide), (Nat.div_add_mod _ 8).symm⟩
  have position := position_split s.rdPtrQ bitSmall split
  rw [shifted, split, getMsbD_fifoDataR s (by omega) bitSmall, bitAt,
    position.1, position.2]

/-- The held bits that fit the window start the window. -/
theorem queue_take_prefix_window (s : State) :
    (queue s).take 32 <+: bitsOf (outportData s) := by
  rw [List.prefix_iff_eq_take]
  apply List.ext_getElem
  · simp
  · intro index left right
    have inWindow : index < 32 := by
      simp only [List.length_take] at left
      omega
    simp only [List.getElem_take, getElem_bitsOf]
    rw [getMsbD_outportData s inWindow]
    simp [queue]

/-- A bit string that starts the queue and fits the window starts the window. -/
theorem prefix_window
    {s : State}
    {bits : List Bool}
    (starts : bits <+: queue s)
    (fits : bits.length ≤ 32) :
    bits <+: bitsOf (outportData s) := by
  have taken : bits <+: (queue s).take 32 :=
    List.prefix_take_iff.mpr ⟨starts, fits⟩
  exact taken.trans (queue_take_prefix_window s)

/-! ## One cycle -/

/-- A buffer that takes a byte has room for it. -/
theorem count_le_of_pushes
    {s : State}
    {i : Input}
    (taken : pushes s i = true) :
    s.countQ.toNat ≤ 56 := by
  simp only [pushes, inportAccept, Bool.and_eq_true, decide_eq_true_eq] at taken
  exact taken.2

/-- The bits held at the end of a cycle, before any are dropped. -/
theorem contents_pushed
    {s : State}
    (sound : Sound s)
    (i : Input)
    (running : (i.rst || i.imgStart) = false) :
    contents (bitAt (step s i).ramQ) s.rdPtrQ
        (s.countQ.toNat + (pushed s i).length) =
      queue s ++ pushed s i := by
  have countSmall := sound.countSmall
  have behind := sound.writeBehind
  have aligned := sound.byteAligned
  have ramAfter :
      (step s i).ramQ = fun address =>
        if pushes s i && address == s.wrPtrQ.extractLsb' 3 3 then
          i.inportData
        else s.ramQ address := by
    simp [step, running]
  rw [ramAfter]
  cases taken : pushes s i with
  | false =>
      simp [pushed, taken, queue]
  | true =>
      have room := count_le_of_pushes taken
      have items : pushed s i = bitsOf i.inportData := by
        simp [pushed, taken]
      rw [items, queue]
      apply contents_append
      · intro offset held
        have differ :
            (s.rdPtrQ + BitVec.ofNat 6 offset).extractLsb' 3 3 ≠
              s.wrPtrQ.extractLsb' 3 3 := by
          intro same
          have number := congrArg BitVec.toNat same
          have low := congrArg BitVec.toNat aligned
          rw [behind] at number low
          simp [Nat.shiftRight_eq_div_pow] at number low
          omega
        simp [bitAt, differ]
      · intro index inByte
        rw [length_bitsOf] at inByte
        have position :=
          @position_split s.wrPtrQ index 0 index inByte
            (by rw [aligned]; simp)
        have address :
            s.rdPtrQ + BitVec.ofNat 6 (s.countQ.toNat + index) =
              s.wrPtrQ + BitVec.ofNat 6 index := by
          rw [behind, BitVec.ofNat_add, BitVec.add_assoc]
        rw [address, bitAt, position.1, position.2]
        simp

/-- The count after a cycle that drops no more bits than are held. -/
theorem count_step
    {s : State}
    (sound : Sound s)
    {i : Input}
    (running : (i.rst || i.imgStart) = false)
    (enough : popped s i ≤ s.countQ.toNat) :
    (step s i).countQ.toNat =
      s.countQ.toNat + (pushed s i).length - popped s i := by
  have countSmall := sound.countSmall
  have popSmall := i.outportPop.isLt
  have after : (step s i).countQ = countR s i := by
    simp [step, running]
  rw [after]
  unfold popped at enough ⊢
  unfold countR pushed
  cases taken : pushes s i with
  | false =>
      cases dropped : pops s i with
      | false =>
          simp
      | true =>
          simp only [dropped, ↓reduceIte] at enough
          simp only [↓reduceIte, Bool.false_eq_true, List.length_nil]
          bv_omega
  | true =>
      have room := count_le_of_pushes taken
      cases dropped : pops s i with
      | false =>
          simp only [↓reduceIte, Bool.false_eq_true, length_bitsOf]
          bv_omega
      | true =>
          simp only [dropped, ↓reduceIte] at enough
          simp only [↓reduceIte, length_bitsOf]
          bv_omega

/-- The read pointer moves past the bits a cycle drops. -/
theorem rdPtr_step
    {s : State}
    {i : Input}
    (running : (i.rst || i.imgStart) = false) :
    (step s i).rdPtrQ = s.rdPtrQ + BitVec.ofNat 6 (popped s i) := by
  cases dropped : pops s i <;> simp [step, running, popped, dropped]

/-- A cycle drops bits from the front of the queue and adds a byte's bits. -/
theorem queue_step
    {s : State}
    (sound : Sound s)
    {i : Input}
    (running : (i.rst || i.imgStart) = false)
    (enough : popped s i ≤ s.countQ.toNat) :
    queue (step s i) = (queue s).drop (popped s i) ++ pushed s i := by
  have held := contents_pushed sound i running
  rw [queue, count_step sound running enough, rdPtr_step running,
    contents_advance, held, List.drop_append_of_le_length (by simpa)]

/-- Every cycle that drops no more bits than are held keeps the pointers. -/
theorem step_sound
    {s : State}
    (sound : Sound s)
    {i : Input}
    (running : (i.rst || i.imgStart) = false)
    (enough : popped s i ≤ s.countQ.toNat) :
    Sound (step s i) := by
  have countSmall := sound.countSmall
  have count := count_step sound running enough
  have writeAfter :
      (step s i).wrPtrQ =
        s.wrPtrQ + BitVec.ofNat 6 (pushed s i).length := by
    cases taken : pushes s i <;> simp [step, running, pushed, taken]
  have pushedLength : (pushed s i).length ≤ 64 - s.countQ.toNat ∧
      (pushed s i).length % 8 = 0 := by
    cases taken : pushes s i with
    | false =>
        simp [pushed, taken]
    | true =>
        have room := count_le_of_pushes taken
        simp [pushed, taken]
        omega
  refine ⟨by omega, ?_, ?_⟩
  · have moved :
        s.countQ.toNat + (pushed s i).length =
          popped s i + (step s i).countQ.toNat := by
      omega
    rw [writeAfter, rdPtr_step running, sound.writeBehind,
      BitVec.add_assoc, ← BitVec.ofNat_add, moved, BitVec.ofNat_add,
      BitVec.add_assoc]
  · have aligned := congrArg BitVec.toNat sound.byteAligned
    have eighth := pushedLength.2
    rw [writeAfter]
    apply BitVec.eq_of_toNat_eq
    simp only [BitVec.extractLsb'_toNat, BitVec.toNat_add,
      BitVec.toNat_ofNat, Nat.shiftRight_zero] at aligned ⊢
    omega

/-! ## Validity -/

/-- A valid window holds 32 bits, or all bits of the scan are in. -/
theorem held_of_outportValid
    {s : State}
    (valid : outportValid s = true) :
    32 ≤ (queue s).length ∨ s.drainQ = true := by
  simp only [outportValid, Bool.or_eq_true, decide_eq_true_eq,
    Bool.and_eq_true] at valid
  rw [length_queue]
  rcases valid with full | drained
  · left
    exact full
  · exact Or.inr drained.1

/-- A window stays valid while no bits are dropped. -/
theorem outportValid_step
    {s : State}
    (sound : Sound s)
    {i : Input}
    (running : (i.rst || i.imgStart) = false)
    (valid : outportValid s = true)
    (kept : popped s i = 0) :
    outportValid (step s i) = true := by
  have count := count_step sound running (by omega)
  have drain : (step s i).drainQ = (s.drainQ || i.inportLast) := by
    simp [step, running]
  have after : s.countQ.toNat ≤ (step s i).countQ.toNat := by
    omega
  simp only [outportValid, Bool.or_eq_true, decide_eq_true_eq,
    Bool.and_eq_true, bne_iff_ne, drain] at valid ⊢
  rcases valid with full | ⟨drained, held⟩
  · left
    exact Nat.le_trans full after
  · right
    refine ⟨Or.inl drained, ?_⟩
    bv_omega

/-! ## Runs -/

/--
The cycles of a scan: a pop drops fewer than 32 bits of a valid window, and
behind the last byte of the scan no more bits than are held.
-/
def Serves (s : State) (i : Input) : Prop :=
  i.rst = false ∧ i.imgStart = false ∧ i.outportPop.toNat ≤ 31 ∧
    (i.outportPop ≠ 0 → outportValid s = true) ∧
    (s.drainQ = true → i.outportPop.toNat ≤ s.countQ.toNat)

instance (s : State) (i : Input) : Decidable (Serves s i) :=
  inferInstanceAs (Decidable (_ ∧ _))

/-- The byte taken in a cycle. -/
def takenByte (s : State) (i : Input) : List (BitVec 8) :=
  if pushes s i then [i.inportData] else []

/-- The bits of the window that the decoder asks to drop in a cycle. -/
def readBits (s : State) (i : Input) : List Bool :=
  (bitsOf (outportData s)).take i.outportPop.toNat

section Runs

variable {s : State} {i : Input}

theorem pushed_eq (s : State) (i : Input) :
    pushed s i = (takenByte s i).flatMap bitsOf := by
  unfold pushed takenByte
  split <;> simp

theorem Serves.running (serves : Serves s i) :
    (i.rst || i.imgStart) = false := by
  simp [serves.1, serves.2.1]

/-- All bits that are asked for are dropped. -/
theorem Serves.popped_eq (serves : Serves s i) :
    popped s i = i.outportPop.toNat := by
  obtain ⟨-, -, -, valid, -⟩ := serves
  unfold popped pops
  by_cases nothing : i.outportPop = 0
  · simp [nothing]
  · have some : (i.outportPop != 0) = true := bne_iff_ne.mpr nothing
    rw [valid nothing, some, Bool.and_true, if_pos rfl]

theorem Serves.enough (serves : Serves s i) :
    popped s i ≤ s.countQ.toNat ∧ popped s i ≤ 32 := by
  obtain ⟨-, -, small, -, drained⟩ := serves
  unfold popped
  split
  next drops =>
    refine ⟨?_, by omega⟩
    rcases held_of_outportValid (Bool.and_eq_true_iff.mp drops).1 with
      full | last
    · rw [length_queue] at full
      omega
    · exact drained last
  next =>
    exact ⟨Nat.zero_le _, Nat.zero_le _⟩

/-- The bits dropped are the front of the queue. -/
theorem readBits_eq (serves : Serves s i) :
    readBits s i = (queue s).take (popped s i) := by
  obtain ⟨held, fits⟩ := serves.enough
  rw [readBits, ← serves.popped_eq]
  have starts : (queue s).take (popped s i) <+: bitsOf (outportData s) :=
    prefix_window (List.take_prefix _ _)
      (by rw [List.length_take, length_queue]; omega)
  have taken := List.prefix_iff_eq_take.mp starts
  rw [List.length_take, length_queue, Nat.min_eq_left held] at taken
  exact taken.symm

/-- A cycle writes no byte that holds an undecoded bit. -/
theorem bitAt_step
    (sound : Sound s)
    (running : (i.rst || i.imgStart) = false)
    {offset : Nat}
    (unread : offset < s.countQ.toNat) :
    bitAt (step s i).ramQ (s.rdPtrQ + BitVec.ofNat 6 offset) =
      bitAt s.ramQ (s.rdPtrQ + BitVec.ofNat 6 offset) := by
  have held := contents_pushed sound i running
  have bits := congrArg (·[offset]?) held
  simpa [queue, contents, unread, Nat.lt_add_right] using bits

/-- The bits pushed in a run are those of the bytes taken. -/
theorem observe_pushed (s : State) (inputs : List Input) :
    observe step pushed s inputs =
      (observe step takenByte s inputs).flatMap bitsOf := by
  induction inputs generalizing s with
  | nil =>
      rfl
  | cons i rest inductionHypothesis =>
      rw [observe_cons, observe_cons, List.flatMap_append, pushed_eq,
        inductionHypothesis]

/-- The buffer drains once the last byte of the scan was announced. -/
theorem drainQ_run
    {inputs : List Input}
    (serves : Along step Serves s inputs) :
    (run step s inputs).drainQ =
      (s.drainQ || inputs.any Input.inportLast) := by
  induction inputs generalizing s with
  | nil =>
      simp
  | cons i rest inductionHypothesis =>
      have drain : (step s i).drainQ = (s.drainQ || i.inportLast) := by
        simp [step, serves.1.running]
      rw [run_cons, inductionHypothesis serves.2, drain, List.any_cons,
        Bool.or_assoc]

/-- Every cycle of a scan keeps the pointers. -/
theorem serves_sound
    (s : State)
    (i : Input)
    (sound : Sound s)
    (serves : Serves s i) :
    Sound (step s i) :=
  step_sound sound serves.running serves.enough.1

/-- The bits of a scan are read in order, and the rest is held. -/
theorem conserved_bits
    {inputs : List Input}
    (sound : Sound s)
    (serves : Along step Serves s inputs) :
    queue s ++ observe step pushed s inputs =
      observe step readBits s inputs ++ queue (run step s inputs) := by
  apply conserved queue pushed readBits serves_sound _ sound serves
  intro s i sound serves
  rw [queue_step sound serves.running serves.enough.1,
    readBits_eq serves, ← List.append_assoc, List.take_append_drop]

/--
The buffer is a queue of bits: the window shows the unread bits of the bytes
taken, in order, and the count is their number.
-/
theorem serves_unread
    (ramQ : BitVec 3 → BitVec 8)
    {inputs : List Input}
    (serves : Along step Serves (cleared ramQ) inputs) :
    let s := run step (cleared ramQ) inputs
    let bytes := observe step takenByte (cleared ramQ) inputs
    let read := observe step readBits (cleared ramQ) inputs
    s.drainQ = inputs.any Input.inportLast ∧
      ∃ unread, bytes.flatMap bitsOf = read ++ unread ∧
        s.countQ.toNat = unread.length ∧
        s.countQ.toNat ≤ 64 ∧
        (bitsOf (outportData s)).take (min s.countQ.toNat 32) =
          unread.take 32 ∧
        ∀ i, Serves s i →
          i.outportPop.toNat ≤ s.countQ.toNat ∧
          (step s i).countQ.toNat =
            s.countQ.toNat + (pushed s i).length - i.outportPop.toNat ∧
          ∀ offset < s.countQ.toNat,
            bitAt s.ramQ (s.rdPtrQ + BitVec.ofNat 6 offset) =
                unread.getD offset false ∧
              bitAt (step s i).ramQ (s.rdPtrQ + BitVec.ofNat 6 offset) =
                unread.getD offset false := by
  intro s bytes read
  have sound : Sound s :=
    run_invariant serves_sound (cleared_sound ramQ) serves
  have split := conserved_bits (cleared_sound ramQ) serves
  rw [queue_cleared, List.nil_append, observe_pushed] at split
  have drained := drainQ_run serves
  rw [cleared, Bool.false_or] at drained
  refine ⟨drained, queue s, split, (length_queue s).symm, sound.countSmall,
    ?_, ?_⟩
  · have window := List.prefix_iff_eq_take.mp (queue_take_prefix_window s)
    rw [List.length_take, length_queue, Nat.min_comm] at window
    exact window.symm
  · intro i next
    rw [← next.popped_eq]
    refine ⟨next.enough.1, count_step sound next.running next.enough.1, ?_⟩
    intro offset unread
    have shown : bitAt s.ramQ (s.rdPtrQ + BitVec.ofNat 6 offset) =
        (queue s).getD offset false := by
      simp [queue, contents, List.getD_eq_getElem?_getD, unread]
    exact ⟨shown, (bitAt_step sound next.running unread).trans shown⟩

/-- Five bytes pass through, the last of them announced. -/
def fiveBytes : List Input :=
  [⟨false, false, true, 0x12, false, 0⟩,
    ⟨false, false, true, 0x34, false, 0⟩,
    ⟨false, false, true, 0x56, false, 0⟩,
    ⟨false, false, true, 0x78, false, 0⟩,
    ⟨false, false, true, 0x9A, true, 13⟩,
    ⟨false, false, false, 0, false, 27⟩]

theorem serves_unread_five_bytes :
    ∃ unread,
      (observe step takenByte (cleared fun _ => 0) fiveBytes).flatMap bitsOf =
        observe step readBits (cleared fun _ => 0) fiveBytes ++ unread :=
  have unread := (serves_unread (fun _ => 0)
    (by decide : Along step Serves (cleared fun _ => 0) fiveBytes)).2
  ⟨unread.choose, unread.choose_spec.1⟩

end Runs

end CoreJpeg.BitBuffer
