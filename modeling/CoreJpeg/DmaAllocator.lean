import CoreJpeg.Clocked
import Mathlib.Tactic.Linarith

namespace CoreJpeg.Dma

open Clocked

/-!
# The DMA buffer

The driver takes all of its buffers from one mapped region.  An allocation
rounds the offset of the free part up to the alignment and adds the size, in
64 bits, and one comparison with the size of the region decides.  This module
transcribes the allocator and says when the regions it hands out are sound.
-/

/-! ## The allocator -/

/-- `g_dma_buf`, `g_dma_buf_size`, `g_dma_buf_off` and `g_dma_phys_base`. -/
structure Allocator where
  gDmaBuf : BitVec 64
  gDmaBufSize : BitVec 64
  gDmaBufOff : BitVec 64
  gDmaPhysBase : BitVec 64
  deriving Repr, DecidableEq

/-- `DmaBufferRef`. -/
structure DmaBufferRef where
  vaddr : BitVec 64
  paddr : BitVec 64
  size : BitVec 64
  deriving Repr, DecidableEq

/-- The arguments of a call; `out` is null or points to a reference. -/
structure Call where
  size : BitVec 64
  alignment : BitVec 64
  out : Option DmaBufferRef
  deriving Repr, DecidableEq

/-- `AlignUp`. -/
def alignUp (value alignment : BitVec 64) : BitVec 64 :=
  (value + alignment - 1) &&& ~~~ (alignment - 1)

/-- `DmaBufAllocAligned`: the result, the globals and `*out`. -/
def dmaBufAllocAligned (s : Allocator) (call : Call) :
    Bool × Allocator × Option DmaBufferRef :=
  if s.gDmaBuf = 0 ∨ call.out = none then (false, s, call.out)
  else if call.alignment = 0 ∨
      call.alignment &&& (call.alignment - 1) ≠ 0 then (false, s, call.out)
  else if s.gDmaPhysBase &&& (call.alignment - 1) ≠ 0 then
    (false, s, call.out)
  else
    let alignedOff := alignUp s.gDmaBufOff call.alignment
    if s.gDmaBufSize < alignedOff + call.size then (false, s, call.out)
    else
      (true,
        { s with gDmaBufOff := alignedOff + call.size },
        some {
          vaddr := s.gDmaBuf + alignedOff
          paddr := s.gDmaPhysBase + alignedOff
          size := call.size })

/-- `kDefaultDmaAlignment`. -/
def kDefaultDmaAlignment : BitVec 64 := 1

/-- `DmaBufAlloc`. -/
def dmaBufAlloc (s : Allocator) (size : BitVec 64)
    (out : Option DmaBufferRef) : Bool × Allocator × Option DmaBufferRef :=
  dmaBufAllocAligned s
    { size := size, alignment := kDefaultDmaAlignment, out := out }

/-! ## Sequences of calls -/

/-- A region that was handed out, with the alignment that was asked for. -/
structure Grant where
  ref : DmaBufferRef
  alignment : BitVec 64
  deriving Repr, DecidableEq

/-- The allocator and the regions that it has handed out. -/
structure Session where
  allocator : Allocator
  granted : List Grant

/-- A session that has handed out nothing. -/
def Session.start (allocator : Allocator) : Session where
  allocator := allocator
  granted := []

/-- The session after a call. -/
def Session.step (session : Session) (call : Call) : Session :=
  match dmaBufAllocAligned session.allocator call with
  | (true, allocator, some ref) =>
      { allocator := allocator
        granted := session.granted ++ [⟨ref, call.alignment⟩] }
  | (_, allocator, _) => { session with allocator := allocator }

/-- An address belongs to a region. -/
def DmaBufferRef.Contains (ref : DmaBufferRef) (address : Nat) : Prop :=
  ref.vaddr.toNat ≤ address ∧ address < ref.vaddr.toNat + ref.size.toNat

/-- The buffer does not wrap the address space and is empty. -/
structure Allocator.Initial (s : Allocator) : Prop where
  empty : s.gDmaBufOff = 0
  mapped : s.gDmaBuf.toNat + s.gDmaBufSize.toNat < 2 ^ 64
  physical : s.gDmaPhysBase.toNat + s.gDmaBufSize.toNat < 2 ^ 64

/-- What is asked of the regions that a buffer hands out. -/
structure Sound (buffer : Allocator) (granted : List Grant) : Prop where
  inside :
    ∀ grant ∈ granted,
      buffer.gDmaBuf.toNat ≤ grant.ref.vaddr.toNat ∧
        grant.ref.vaddr.toNat + grant.ref.size.toNat ≤
          buffer.gDmaBuf.toNat + buffer.gDmaBufSize.toNat
  disjoint :
    granted.Pairwise fun first second =>
      ∀ address, ¬ (first.ref.Contains address ∧ second.ref.Contains address)
  aligned :
    ∀ grant ∈ granted, grant.alignment.toNat ∣ grant.ref.paddr.toNat
  translated :
    ∀ grant ∈ granted,
      grant.ref.paddr.toNat =
        buffer.gDmaPhysBase.toNat +
          (grant.ref.vaddr.toNat - buffer.gDmaBuf.toNat)

/-- A call that fails changes neither the allocator nor `*out`. -/
def FailsQuietly (session : Session) (call : Call) : Prop :=
  (dmaBufAllocAligned session.allocator call).1 = false →
    (dmaBufAllocAligned session.allocator call).2 =
      (session.allocator, call.out)

/-- The offset rounded up to the alignment, without a bound. -/
def roundUp (value alignment : Nat) : Nat :=
  (value + alignment - 1) / alignment * alignment

/-- The end of the region that a call asks for, without a bound. -/
def ending (s : Allocator) (call : Call) : Nat :=
  roundUp s.gDmaBufOff.toNat call.alignment.toNat + call.size.toNat

/-- The checks before the sum let a call pass. -/
def Compares (s : Allocator) (call : Call) : Prop :=
  ¬ (s.gDmaBuf = 0 ∨ call.out = none) ∧
    ¬ (call.alignment = 0 ∨ call.alignment &&& (call.alignment - 1) ≠ 0) ∧
      s.gDmaPhysBase &&& (call.alignment - 1) = 0

instance (s : Allocator) (call : Call) : Decidable (Compares s call) :=
  inferInstanceAs (Decidable (_ ∧ _ ∧ _))

/--
The end of a region that is compared with the buffer does not reach `2 ^ 64`,
unless the comparison refuses what is left of it in 64 bits.
-/
def Exact (session : Session) (call : Call) : Prop :=
  Compares session.allocator call →
    ending session.allocator call % 2 ^ 64 ≤
        session.allocator.gDmaBufSize.toNat →
      ending session.allocator call < 2 ^ 64

instance (session : Session) (call : Call) : Decidable (Exact session call) :=
  inferInstanceAs (Decidable (_ → _ → _))

/-! ## Rounding -/

section Rounding

variable {value exponent : Nat}

theorem le_roundUp (value : Nat) {alignment : Nat} (positive : 0 < alignment) :
    value ≤ roundUp value alignment := by
  have remainder := Nat.div_add_mod (value + alignment - 1) alignment
  have small := Nat.mod_lt (value + alignment - 1) positive
  rw [Nat.mul_comm] at remainder
  rw [roundUp]
  omega

theorem dvd_roundUp (value alignment : Nat) :
    alignment ∣ roundUp value alignment :=
  Nat.dvd_mul_left _ _

/-- The alignments that the check lets through are powers of two. -/
theorem alignment_pow
    {alignment : BitVec 64}
    (nonzero : alignment ≠ 0)
    (single : alignment &&& (alignment - 1) = 0) :
    ∃ exponent < 64, alignment.toNat = 2 ^ exponent := by
  have positive : alignment.toNat ≠ 0 := fun zero =>
    nonzero (BitVec.eq_of_toNat_eq zero)
  have minusOne : (alignment - 1).toNat = alignment.toNat - 1 := by
    bv_omega
  have noBit := congrArg BitVec.toNat single
  rw [BitVec.toNat_and, minusOne] at noBit
  obtain ⟨exponent, isPower⟩ :=
    (Nat.and_sub_one_eq_zero_iff_isPowerOfTwo positive).mp noBit
  refine ⟨exponent, ?_, isPower⟩
  have small := alignment.isLt
  rw [isPower] at small
  exact (Nat.pow_lt_pow_iff_right (by decide)).mp small

/-- Masking with a power of two rounds down. -/
theorem and_not_mask
    (value : BitVec 64)
    {alignment : BitVec 64}
    {exponent : Nat}
    (isPower : alignment.toNat = 2 ^ exponent) :
    (value &&& ~~~ (alignment - 1)).toNat =
      value.toNat / 2 ^ exponent * 2 ^ exponent := by
  have positive := Nat.two_pow_pos exponent
  have mask : (alignment - 1).toNat = 2 ^ exponent - 1 := by
    have small := alignment.isLt
    bv_omega
  refine Nat.eq_of_testBit_eq fun bit => ?_
  rw [← Nat.shiftRight_eq_div_pow, ← Nat.shiftLeft_eq,
    Nat.testBit_shiftLeft, Nat.testBit_shiftRight, BitVec.testBit_toNat,
    BitVec.getLsbD_and, BitVec.getLsbD_not, ← BitVec.testBit_toNat value,
    ← BitVec.testBit_toNat (alignment - 1), mask,
    Nat.testBit_two_pow_sub_one]
  by_cases below : bit < exponent
  · simp [below]
  · have back : exponent + (bit - exponent) = bit := by
      omega
    rcases Nat.lt_or_ge bit 64 with inWord | outside
    · simp [below, inWord, back, Nat.le_of_not_lt below]
    · have zero := Nat.testBit_lt_two_pow
        (value.isLt.trans_le (Nat.pow_le_pow_right (by decide) outside))
      simp [below, back, zero]

/-- `AlignUp` rounds up modulo `2 ^ 64`. -/
theorem toNat_alignUp
    (value : BitVec 64)
    {alignment : BitVec 64}
    {exponent : Nat}
    (small : exponent < 64)
    (isPower : alignment.toNat = 2 ^ exponent) :
    (alignUp value alignment).toNat =
      roundUp value.toNat alignment.toNat % 2 ^ 64 := by
  have positive := Nat.two_pow_pos exponent
  rw [← isPower] at positive
  have sum : (value + alignment - 1).toNat =
      (value.toNat + alignment.toNat - 1) % 2 ^ 64 := by
    bv_omega
  have factor : 2 ^ 64 = 2 ^ exponent * 2 ^ (64 - exponent) := by
    rw [← Nat.pow_add]
    congr 1
    omega
  rw [alignUp, and_not_mask _ isPower, sum, roundUp, isPower, factor,
    Nat.mod_mul_right_div_self, Nat.mul_comm, Nat.mul_comm (_ / _) (2 ^ exponent),
    Nat.mul_mod_mul_left]

end Rounding

/-! ## One call -/

section OneCall

variable {s : Allocator} {call : Call}

/-- A call fails and changes nothing, or hands out the region it computes. -/
theorem alloc_cases (s : Allocator) (call : Call) :
    let alignedOff := alignUp s.gDmaBufOff call.alignment
    dmaBufAllocAligned s call = (false, s, call.out) ∨
      Compares s call ∧
        (∃ exponent < 64, call.alignment.toNat = 2 ^ exponent) ∧
        alignedOff + call.size ≤ s.gDmaBufSize ∧
        dmaBufAllocAligned s call =
          (true,
            { s with gDmaBufOff := alignedOff + call.size },
            some {
              vaddr := s.gDmaBuf + alignedOff
              paddr := s.gDmaPhysBase + alignedOff
              size := call.size }) := by
  intro alignedOff
  rw [dmaBufAllocAligned]
  split
  · exact .inl rfl
  next given =>
    split
    · exact .inl rfl
    next valid =>
      have isPower := valid
      rw [not_or, not_not] at isPower
      split
      · exact .inl rfl
      next physical =>
        simp only
        split
        · exact .inl rfl
        next fits =>
          exact .inr ⟨⟨given, valid, not_not.mp physical⟩,
            alignment_pow isPower.1 isPower.2, BitVec.not_lt.mp fits, rfl⟩

/-- A call that fails is quiet. -/
theorem failsQuietly (session : Session) (call : Call) :
    FailsQuietly session call := by
  intro failed
  rcases alloc_cases session.allocator call with same | ⟨-, -, -, granted⟩
  · rw [same]
  · rw [granted] at failed
    cases failed

/-- A base whose low bits are zero is a multiple of the alignment. -/
theorem dvd_of_mask
    {base alignment : BitVec 64}
    {exponent : Nat}
    (isPower : alignment.toNat = 2 ^ exponent)
    (masked : base &&& (alignment - 1) = 0) :
    alignment.toNat ∣ base.toNat := by
  have positive := Nat.two_pow_pos exponent
  have mask : (alignment - 1).toNat = 2 ^ exponent - 1 := by
    have small := alignment.isLt
    bv_omega
  have low := congrArg BitVec.toNat masked
  rw [BitVec.toNat_and, mask, Nat.and_two_pow_sub_one_eq_mod] at low
  rw [isPower]
  exact Nat.dvd_of_mod_eq_zero low

/-- What an exact call hands out: the region behind the rounded offset. -/
structure Hands (s : Allocator) (call : Call) (start : Nat)
    (ref : DmaBufferRef) (next : Allocator) : Prop where
  behind : s.gDmaBufOff.toNat ≤ start
  inside : start + call.size.toNat ≤ s.gDmaBufSize.toNat
  offset : next.gDmaBufOff.toNat = start + call.size.toNat
  same :
    next.gDmaBuf = s.gDmaBuf ∧ next.gDmaBufSize = s.gDmaBufSize ∧
      next.gDmaPhysBase = s.gDmaPhysBase
  vaddr : ref.vaddr.toNat = s.gDmaBuf.toNat + start
  paddr : ref.paddr.toNat = s.gDmaPhysBase.toNat + start
  size : ref.size = call.size
  aligned : call.alignment.toNat ∣ ref.paddr.toNat

/-- An exact call fails or hands out a region of the free part. -/
theorem exact_step
    (mapped : s.gDmaBuf.toNat + s.gDmaBufSize.toNat < 2 ^ 64)
    (physical : s.gDmaPhysBase.toNat + s.gDmaBufSize.toNat < 2 ^ 64)
    {granted : List Grant}
    (exactCalls : Exact ⟨s, granted⟩ call) :
    Session.step ⟨s, granted⟩ call = ⟨s, granted⟩ ∨
      ∃ start ref next,
        Hands s call start ref next ∧
          Session.step ⟨s, granted⟩ call =
            ⟨next, granted ++ [⟨ref, call.alignment⟩]⟩ := by
  rcases alloc_cases s call with failed | ⟨compares, power, fits, handed⟩
  · left
    simp [Session.step, failed]
  right
  obtain ⟨exponent, small, isPower⟩ := power
  have rounded := toNat_alignUp s.gDmaBufOff small isPower
  have behind :=
    le_roundUp s.gDmaBufOff.toNat
      (show 0 < call.alignment.toNat by
        rw [isPower]
        exact Nat.two_pow_pos exponent)
  have multiple := dvd_roundUp s.gDmaBufOff.toNat call.alignment.toNat
  have base := dvd_of_mask isPower compares.2.2
  rw [Exact, ending] at exactCalls
  generalize roundUp s.gDmaBufOff.toNat call.alignment.toNat = start at *
  have sum : (alignUp s.gDmaBufOff call.alignment + call.size).toNat =
      (start + call.size.toNat) % 2 ^ 64 := by
    rw [BitVec.toNat_add, rounded, Nat.mod_add_mod]
  have compared := BitVec.le_def.mp fits
  rw [sum] at compared
  have ends := exactCalls compares compared
  rw [Nat.mod_eq_of_lt ends] at compared sum
  rw [Nat.mod_eq_of_lt (by omega)] at rounded
  have paddr : (s.gDmaPhysBase + alignUp s.gDmaBufOff call.alignment).toNat =
      s.gDmaPhysBase.toNat + start := by
    rw [BitVec.toNat_add, rounded, Nat.mod_eq_of_lt (by omega)]
  let ref : DmaBufferRef := {
    vaddr := s.gDmaBuf + alignUp s.gDmaBufOff call.alignment
    paddr := s.gDmaPhysBase + alignUp s.gDmaBufOff call.alignment
    size := call.size }
  let next : Allocator :=
    { s with gDmaBufOff := alignUp s.gDmaBufOff call.alignment + call.size }
  have stepped :
      Session.step ⟨s, granted⟩ call =
        ⟨next, granted ++ [⟨ref, call.alignment⟩]⟩ := by
    rw [Session.step, handed]
  refine ⟨start, ref, next,
    { behind := behind
      inside := compared
      offset := sum
      same := ⟨rfl, rfl, rfl⟩
      vaddr := ?_
      paddr := paddr
      size := rfl
      aligned := ?_ }, stepped⟩
  · rw [BitVec.toNat_add, rounded, Nat.mod_eq_of_lt (by omega)]
  · rw [paddr]
    exact Nat.dvd_add base multiple

end OneCall

/-! ## Sequences of calls -/

section Runs

variable {buffer : Allocator}

/-- The regions are sound and end before the free part of the buffer. -/
structure Keeps (buffer : Allocator) (session : Session) : Prop where
  same :
    session.allocator.gDmaBuf = buffer.gDmaBuf ∧
      session.allocator.gDmaBufSize = buffer.gDmaBufSize ∧
      session.allocator.gDmaPhysBase = buffer.gDmaPhysBase
  sound : Sound buffer session.granted
  taken :
    ∀ grant ∈ session.granted,
      grant.ref.vaddr.toNat + grant.ref.size.toNat ≤
        buffer.gDmaBuf.toNat + session.allocator.gDmaBufOff.toNat

theorem keeps_start (buffer : Allocator) : Keeps buffer (.start buffer) where
  same := ⟨rfl, rfl, rfl⟩
  sound :=
    { inside := by simp [Session.start]
      disjoint := .nil
      aligned := by simp [Session.start]
      translated := by simp [Session.start] }
  taken := by simp [Session.start]

/-- A region behind the others leaves them sound. -/
theorem Keeps.hand
    {session : Session} {call : Call} {start : Nat}
    {ref : DmaBufferRef} {next : Allocator}
    (keeps : Keeps buffer session)
    (hands : Hands session.allocator call start ref next) :
    Keeps buffer ⟨next, session.granted ++ [⟨ref, call.alignment⟩]⟩ := by
  obtain ⟨sameBuf, sameSize, sameBase⟩ := keeps.same
  obtain ⟨nextBuf, nextSize, nextBase⟩ := hands.same
  have behind := hands.behind
  have inside := hands.inside
  have vaddr := hands.vaddr
  have paddr := hands.paddr
  have size := congrArg BitVec.toNat hands.size
  rw [sameSize] at inside
  rw [sameBuf] at vaddr
  rw [sameBase] at paddr
  have sound := keeps.sound
  refine
    { same := ⟨nextBuf.trans sameBuf, nextSize.trans sameSize,
        nextBase.trans sameBase⟩
      sound :=
        { inside := ?_
          disjoint := ?_
          aligned := ?_
          translated := ?_ }
      taken := ?_ }
  · intro grant member
    rcases List.mem_append.mp member with old | isNew
    · exact sound.inside grant old
    · rw [List.mem_singleton.mp isNew]
      simp only
      omega
  · refine List.pairwise_append.mpr
      ⟨sound.disjoint, List.pairwise_singleton _ _, ?_⟩
    intro grant old other isNew address both
    rw [List.mem_singleton.mp isNew] at both
    have below := keeps.taken grant old
    obtain ⟨inOld, inNew⟩ := both
    have under := inOld.2
    have above : ref.vaddr.toNat ≤ address := inNew.1
    omega
  · intro grant member
    rcases List.mem_append.mp member with old | isNew
    · exact sound.aligned grant old
    · rw [List.mem_singleton.mp isNew]
      exact hands.aligned
  · intro grant member
    rcases List.mem_append.mp member with old | isNew
    · exact sound.translated grant old
    · rw [List.mem_singleton.mp isNew]
      simp only
      omega
  · intro grant member
    have offset := hands.offset
    rcases List.mem_append.mp member with old | isNew
    · have below := keeps.taken grant old
      simp only
      omega
    · rw [List.mem_singleton.mp isNew]
      simp only
      omega

/-- An exact call keeps the regions sound. -/
theorem Keeps.step
    (initial : buffer.Initial)
    {session : Session} {call : Call}
    (keeps : Keeps buffer session)
    (exactCalls : Exact session call) :
    Keeps buffer (session.step call) := by
  obtain ⟨sameBuf, sameSize, sameBase⟩ := keeps.same
  have mapped : session.allocator.gDmaBuf.toNat +
      session.allocator.gDmaBufSize.toNat < 2 ^ 64 := by
    rw [sameBuf, sameSize]
    exact initial.mapped
  have physical : session.allocator.gDmaPhysBase.toNat +
      session.allocator.gDmaBufSize.toNat < 2 ^ 64 := by
    rw [sameBase, sameSize]
    exact initial.physical
  rcases exact_step mapped physical exactCalls with same | handed
  · have unchanged : session.step call = session := same
    rw [unchanged]
    exact keeps
  · obtain ⟨start, ref, next, hands, stepped⟩ := handed
    have isNext : session.step call =
        ⟨next, session.granted ++ [⟨ref, call.alignment⟩]⟩ := stepped
    rw [isNext]
    exact keeps.hand hands

/--
Whatever calls are made, as long as the end of no accepted region is reduced
modulo `2 ^ 64`, the regions are sound, and calls that fail change nothing.
Calls that the checks before the sum refuse may ask for any size.
-/
theorem allocations_sound
    (buffer : Allocator)
    (initial : buffer.Initial)
    (calls : List Call)
    (exactCalls : Along Session.step Exact (.start buffer) calls) :
    Sound buffer (run Session.step (.start buffer) calls).granted ∧
      Along Session.step FailsQuietly (.start buffer) calls := by
  have kept : Keeps buffer (run Session.step (.start buffer) calls) :=
    run_invariant (fun session call keeps exactCall =>
      keeps.step initial exactCall) (keeps_start buffer) exactCalls
  have always : Along Session.step (fun _ _ => True) (.start buffer) calls :=
    along_true (Session.start buffer) calls
  have quiet := always.mono fun session call _ => failsQuietly session call
  exact ⟨kept.sound, quiet⟩

end Runs

/-! ## A size that wraps -/

section Wraps

/-- A buffer of 4096 bytes. -/
def page : Allocator where
  gDmaBuf := 0x10000
  gDmaBufSize := 4096
  gDmaBufOff := 0
  gDmaPhysBase := 0x80000000

/-- A call with an output argument. -/
def request (size alignment : BitVec 64) : Call where
  size := size
  alignment := alignment
  out := some { vaddr := 0, paddr := 0, size := 0 }

/--
Two allocations, one that does not fit any more, and one whose end is reduced
but whose alignment the base does not have.
-/
theorem allocations_sound_page :
    let calls :=
      [request 100 1, request 100 64, request 4096 1,
        request 0xFFFFFFFF0000000A 0x100000000]
    Sound page (run Session.step (.start page) calls).granted ∧
      Along Session.step FailsQuietly (.start page) calls :=
  allocations_sound page
    { empty := rfl
      mapped := by decide
      physical := by decide }
    _
    ⟨by decide +kernel, by decide +kernel, by decide +kernel,
      by decide +kernel, trivial⟩

/--
A size just below `2 ^ 64` passes the comparison: the second region reaches
far behind the buffer.
-/
theorem wrapping_size_leaves_buffer :
    ¬ ∀ (buffer : Allocator) (calls : List Call),
      buffer.Initial →
        Sound buffer (run Session.step (.start buffer) calls).granted ∧
          Along Session.step FailsQuietly (.start buffer) calls := by
  intro claimed
  have sound :=
    (claimed page [request 64 64, request (2 ^ 64 - 64) 64]
      { empty := rfl
        mapped := by decide
        physical := by decide }).1
  have second : (⟨⟨0x10040, 0x80000040, 2 ^ 64 - 64⟩, 64⟩ : Grant) ∈
      (run Session.step (.start page)
        [request 64 64, request (2 ^ 64 - 64) 64]).granted := by
    decide +kernel
  exact absurd (sound.inside _ second).2 (by decide +kernel)

end Wraps

end CoreJpeg.Dma
