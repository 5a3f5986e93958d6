import CoreJpeg.TopCompletion

namespace CoreJpeg.JpegTop

open Clocked

/-!
# The destination slot of a task

The driver hands out destination slots of one size, and a submitted descriptor
carries the address of its slot but not its size.  The software decoder
compares the image with the size before it decodes; the device takes whatever
size the core reports, in 32 bits.  When every reported image passes the check
of the software decoder, the device writes inside the slot too.
-/

/-! ## The driver -/

/-- `DmaBufferRef`. -/
structure DmaBufferRef where
  vaddr : BitVec 64
  paddr : BitVec 64
  size : BitVec 64
  deriving Repr, DecidableEq

/-- `DstBufferPool`'s slots: the tasks the driver has under way at most. -/
def dstSlotCount : Nat := 24

/-- `DstBufferPool`'s slot size: a 4096 x 4096 image. -/
def dstSlotSize : Nat := 4096 * 4096 * 3

/-- A destination pool in the memory the DMA engine can address. -/
structure DstBufferPool (config : Config) where
  bufferAt : Fin dstSlotCount → DmaBufferRef
  slotSize : ∀ slot, (bufferAt slot).size.toNat = dstSlotSize
  addressed :
    ∀ slot, (bufferAt slot).paddr.toNat + dstSlotSize ≤ 2 ^ config.addrWidth

/--
The descriptor that `HardwareDecoderManagerThreadMain` submits for a task with
its buffers, unless it rejects them.
-/
def submitDescriptor (src dst : DmaBufferRef) (imageIndex : BitVec 32) :
    Option Descriptor :=
  if src.vaddr = 0 ∨ src.paddr = 0 ∨ src.size = 0 ∨
      dst.vaddr = 0 ∨ dst.paddr = 0 ∨ dst.size = 0 then none
  else some {
    srcAddr := src.paddr
    srcLen := src.size
    dstAddr := dst.paddr
    id := imageIndex.setWidth 16 }

/-- `EnsureDstCapacity`, the check of the software decoder. -/
def ensureDstCapacity (width height : BitVec 16) (dstCapacity : Nat) :
    Bool :=
  width.toNat * height.toNat * 3 ≤ dstCapacity

/-! ## The property -/

section Property

variable {config : Config}

/-- The bytes of a write descriptor lie inside a destination buffer. -/
def InsideBuffer (buffer : DmaBufferRef)
    (write : BitVec config.addrWidth × BitVec config.lenWidth) : Prop :=
  ∀ byte < write.2.toNat,
    let address := (write.1 + BitVec.ofNat _ byte).toNat
    buffer.paddr.toNat ≤ address ∧
      address < buffer.paddr.toNat + buffer.size.toNat

namespace System

/-- Every write for a submitted task lies inside the task's slot. -/
def DestinationKept (sys : System config) (pool : DstBufferPool config) :
    Prop :=
  ∀ decoder src slot imageIndex,
    submitDescriptor src (pool.bufferAt slot) imageIndex =
        some (sys.tasks decoder).descriptor →
      ∀ write ∈ (sys.tasks decoder).writes,
        InsideBuffer (pool.bufferAt slot) write

/-- A reported image is counted whole and fits a slot. -/
def ImageFits (_ : System config) (i : Input config) : Prop :=
  ∀ decoder, ∀ dims ∈ (i.slots decoder).coreDims,
    (imageBytes dims.1 dims.2).toNat = dims.1.toNat * dims.2.toNat * 3 ∧
      (imageBytes dims.1 dims.2).toNat ≤ dstSlotSize

/-- A reported image passes the check of the software decoder. -/
def CapacityEnsured (_ : System config) (i : Input config) : Prop :=
  ∀ decoder, ∀ dims ∈ (i.slots decoder).coreDims,
    ensureDstCapacity dims.1 dims.2 dstSlotSize = true

instance (sys : System config) (i : Input config) :
    Decidable (sys.ImageFits i) := by
  unfold ImageFits
  exact @Nat.decidableForallFin _ _ fun _ =>
    Option.decidableForallMem _

instance (sys : System config) (i : Input config) :
    Decidable (sys.CapacityEnsured i) := by
  unfold CapacityEnsured
  exact @Nat.decidableForallFin _ _ fun _ =>
    Option.decidableForallMem _

end System

/-- Every image a slot holds fits a destination slot. -/
structure CapacityKept (sys : System config) : Prop
    extends CompletionKept sys where
  fits :
    ∀ decoder, (sys.top.slots decoder).haveDimensions = true →
      (imageBytes (sys.top.slots decoder).imgWidth
        (sys.top.slots decoder).imgHeight).toNat ≤ dstSlotSize

end Property

section Cycle

variable {config : Config} {sys : System config} {i : Input config}

/-- An image that passes the software check is counted in 32 bits. -/
theorem imageFits_of_capacity
    (ensured : sys.CapacityEnsured i) :
    sys.ImageFits i := by
  intro decoder dims reported
  have fits := ensured decoder dims reported
  simp only [ensureDstCapacity, decide_eq_true_eq] at fits
  have small : dims.1.toNat * dims.2.toNat * 3 < 2 ^ 32 :=
    fits.trans_lt (by decide)
  have whole : (imageBytes dims.1 dims.2).toNat =
      dims.1.toNat * dims.2.toNat * 3 := by
    have product : (imageBytes dims.1 dims.2).toNat =
        dims.1.toNat * dims.2.toNat * 3 % 2 ^ 32 := by
      simp [imageBytes, BitVec.toNat_mul]
    rw [product, Nat.mod_eq_of_lt small]
  exact ⟨whole, whole ▸ fits⟩

/-- After reset no image is held. -/
theorem capacityKept_reset
    (descAssign : Option (Decoder config)) :
    CapacityKept
      { System.start config with top := .reset descAssign } where
  toCompletionKept := completionKept_reset descAssign
  fits := by simp [State.reset, Slot.reset]

/-- One cycle with images that fit keeps the images in their slots. -/
theorem CapacityKept.step
    (known : CapacityKept sys)
    (promised : sys.WritePromised i)
    (single : sys.SingleImage i)
    (fitting : sys.ImageFits i) :
    CapacityKept (sys.step i) := by
  refine ⟨known.toCompletionKept.step promised single, ?_⟩
  cases outside : i.rst || i.mmioResetPulse with
  | true => simp [System.step, JpegTop.step, outside, State.reset, Slot.reset]
  | false =>
      intro decoder image
      have top : (sys.step i).top.slots decoder =
          slotNext sys.top i decoder := by
        simp [System.step, outside, step_slots]
      have size := @slotNext_image config sys.top i decoder
      rw [top] at image ⊢
      rw [slotNext_haveDimensions] at image
      cases assigned : assignsTo sys.top decoder with
      | true => simp [assigned] at image
      | false =>
          simp only [assigned, Bool.false_eq_true, if_false] at size image
          cases reported : (i.slots decoder).coreDims with
          | some dims =>
              rw [reported, Option.getD_some] at size
              have fits := (fitting decoder dims reported).2
              rwa [← size] at fits
          | none =>
              rw [reported, Option.getD_none] at size
              simp only [Prod.mk.injEq] at size
              rw [size.1, size.2]
              exact known.fits decoder (by simpa [reported] using image)

/-- A write inside the image of a submitted task lies inside its slot. -/
theorem insideBuffer_of_range
    {pool : DstBufferPool config} {slot : Fin dstSlotCount}
    {src : DmaBufferRef} {imageIndex : BitVec 32} {desc : Descriptor}
    (submitted :
      submitDescriptor src (pool.bufferAt slot) imageIndex = some desc)
    {bytes : Nat} (fits : bytes ≤ dstSlotSize)
    {write : BitVec config.addrWidth × BitVec config.lenWidth}
    (inside : InsideRange (desc.dstAddr.setWidth _) bytes write) :
    InsideBuffer (pool.bufferAt slot) write := by
  have address : desc.dstAddr = (pool.bufferAt slot).paddr := by
    unfold submitDescriptor at submitted
    split at submitted
    · simp at submitted
    · simp only [Option.some.injEq] at submitted
      rw [← submitted]
  obtain ⟨offset, start, last⟩ := inside
  intro byte inWrite
  have reach := pool.addressed slot
  have low : (pool.bufferAt slot).paddr.toNat < 2 ^ config.addrWidth := by
    omega
  have here : (write.1 + BitVec.ofNat _ byte).toNat =
      (pool.bufferAt slot).paddr.toNat + (offset + byte) := by
    rw [start, address, BitVec.add_assoc, ← BitVec.ofNat_add,
      BitVec.toNat_add, BitVec.toNat_setWidth, BitVec.toNat_ofNat,
      Nat.mod_eq_of_lt low, Nat.add_mod_mod, Nat.mod_eq_of_lt (by omega)]
  simp only [here, pool.slotSize slot]
  omega

/-- Images that fit keep every write of a submitted task in its slot. -/
theorem CapacityKept.destinationKept
    (known : CapacityKept sys)
    (pool : DstBufferPool config) :
    sys.DestinationKept pool := by
  intro decoder src slot imageIndex submitted write accepted
  cases image : (sys.top.slots decoder).haveDimensions with
  | false =>
      rw [((known.tasks decoder).unknown image).2.1] at accepted
      exact absurd accepted List.not_mem_nil
  | true =>
      exact insideBuffer_of_range submitted (known.fits decoder image)
        (((known.tasks decoder).within image).2.2 write accepted)

end Cycle

/--
In every run in which each core reports one image per task, no write is booked
with more bytes than its image has left, and every reported image passes the
check of the software decoder, images are counted whole, and every byte
written for a submitted task lies inside its destination slot.
-/
theorem writes_stay_in_slot
    (config : Config)
    (pool : DstBufferPool config)
    (cycles : List (Input config))
    (promised :
      Along System.step System.WritePromised (System.start config) cycles)
    (single :
      Along System.step System.SingleImage (System.start config) cycles)
    (ensured :
      Along System.step System.CapacityEnsured (System.start config)
        cycles) :
    Along System.step System.ImageFits (System.start config) cycles ∧
      (run System.step (System.start config) cycles).DestinationKept pool := by
  have fitting :
      Along System.step System.ImageFits (System.start config) cycles :=
    ensured.mono fun _ _ now => imageFits_of_capacity now
  refine ⟨fitting, CapacityKept.destinationKept ?_ pool⟩
  exact run_invariant
    (fun _ _ known now => CapacityKept.step known now.1 now.2.1 now.2.2)
    (capacityKept_reset none) (promised.both (single.both fitting))

/-- Two decoders with four-byte words and the addresses of the real bus. -/
def wideConfig : Config :=
  { smallConfig with addrWidth := 40 }

/-- A pool with its slots one after the other from the second 4 GiB on. -/
def contiguousPool : DstBufferPool wideConfig where
  bufferAt := fun slot => {
    vaddr := 0x7F0000000000
    paddr := BitVec.ofNat 64 (0x100000000 + slot * dstSlotSize)
    size := BitVec.ofNat 64 dstSlotSize }
  slotSize := by decide
  addressed := by decide

/-- A source buffer of four bytes. -/
def wordSource : DmaBufferRef where
  vaddr := 0x7F0000000000
  paddr := 0x80000000
  size := 4

/-- The descriptor of image 1 in the first destination slot. -/
def submittedCycle : Input wideConfig :=
  { Input.quiet wideConfig with
    descFifoPush :=
      submitDescriptor wordSource
        (contiguousPool.bufferAt ⟨0, by decide⟩) 1 }

/-- A submitted one-pixel image stays in its slot. -/
theorem writes_stay_in_slot_pixel :
    let cycles := [submittedCycle, .quiet wideConfig, .quiet wideConfig] ++
      pixelCycles wideConfig
    Along System.step System.ImageFits (System.start wideConfig) cycles ∧
      (run System.step (System.start wideConfig) cycles).DestinationKept
        contiguousPool :=
  writes_stay_in_slot wideConfig contiguousPool _ (by decide +kernel)
    (by decide +kernel) (by decide +kernel)

/-- The core of decoder 0 reports an image with one row too many. -/
def tallImageCycle : Input wideConfig :=
  .atFirst wideConfig { SlotInput.quiet wideConfig with
    coreOutPush := some (BitVec.allOnes _)
    coreDims := some (4096, 4097) }

/--
No capacity is submitted with a descriptor: the device accepts a 4096 x 4097
image, which is 12288 bytes larger than the slot it is written to.
-/
theorem tall_image_exceeds_slot :
    ¬ ∀ config pool cycles,
      Along System.step System.WritePromised (System.start config) cycles →
      Along System.step System.SingleImage (System.start config) cycles →
      Along System.step System.ImageFits (System.start config) cycles ∧
        (run System.step (System.start config) cycles).DestinationKept
          pool := by
  intro claimed
  exact absurd
    (claimed wideConfig contiguousPool
      [submittedCycle, .quiet wideConfig, .quiet wideConfig,
        tallImageCycle, .quiet wideConfig, .quiet wideConfig]
      (by decide +kernel) (by decide +kernel)).1
    (by decide +kernel)

end CoreJpeg.JpegTop
