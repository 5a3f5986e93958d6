import CoreJpeg.TopMmio

namespace CoreJpeg.JpegTop

open Clocked

/-!
# The device and its host

The host commits descriptors and reads statuses through the AXI-Lite port.
This module puts next to the device what the host has learned from the port,
how many tasks it has under way, and whether the last cycle was a reset that
picked a slot.  It names the events that the results about whole runs are
about: commits, slots that leave idle, completion records and the reads that
return them.
-/

namespace Device

variable {config : Config}

/-- The descriptor of a commit that is executed in this cycle. -/
def committed (device : Device config) (i : DeviceInput config) :
    List Descriptor :=
  if !i.pins.rst && device.write.commits then [device.write.descriptor]
  else []

/-- The descriptor of a commit that finds room in the descriptor FIFO. -/
def accepted (device : Device config) (i : DeviceInput config) :
    List Descriptor :=
  if descFifoFull device.sys.top then [] else device.committed i

/-- A slot leaves idle in this cycle. -/
def leavesIdle (device : Device config) (i : DeviceInput config)
    (decoder : Decoder config) : Bool :=
  (device.sys.top.slots decoder).slotState == .idle &&
    ((device.step i).sys.top.slots decoder).slotState != .idle

/-- The slots that leave idle in this cycle. -/
def leaving (device : Device config) (i : DeviceInput config) :
    List (Decoder config) :=
  (List.finRange _).filter (device.leavesIdle i)

/-- The completion record of a status that ends an image. -/
def recorded (device : Device config) (i : DeviceInput config) :
    List (BitVec 64) :=
  ((cplFifoPush device.sys.top (device.topInput i)).map
    Completion.word).toList

end Device

/-- What the host has learned from the AXI-Lite port. -/
structure Host where
  /-- The address of the read whose response is awaited. -/
  reading : Option (BitVec 8)
  /-- The last commit was acknowledged on the B channel. -/
  acknowledged : Bool
  /-- The awaited read asks for the free descriptors since then. -/
  asking : Bool
  /-- Such a read has returned a value greater than 0. -/
  mayCommit : Bool
  deriving Repr, DecidableEq

/-- Before the first commit nothing has to be acknowledged. -/
def Host.start : Host where
  reading := none
  acknowledged := true
  asking := false
  mayCommit := true

/-- The host after one clock edge outside reset. -/
def Host.next {config : Config} (host : Host) (device : Device config)
    (axil : AxilInput) : Host :=
  let commits := device.write.commits
  { reading :=
      match device.read.axilRdState with
      | .idle => axil.ar
      | .resp => if axil.rready then none else host.reading
    acknowledged := !commits && (host.acknowledged ||
      (device.write.acknowledged axil &&
        device.write.awaddrHold == regDescCommit))
    asking := !commits &&
      match device.read.axilRdState with
      | .idle => host.acknowledged && axil.ar == some regDescFree
      | .resp => host.asking && !axil.rready
    mayCommit := !commits && (host.mayCommit ||
      (host.asking && device.read.axilRdState == .resp && axil.rready &&
        device.read.sAxilRdata != 0)) }

/-- The device with its host and the tasks since the last reset. -/
structure Board (config : Config) where
  device : Device config
  host : Host
  /-- Commits that found room in the descriptor FIFO. -/
  accepted : Nat
  /-- Tasks loaded into a slot. -/
  loaded : Nat
  /-- Completion records returned to the host. -/
  returned : Nat
  /-- A slot was picked in the previous cycle, which was a reset. -/
  stale : Bool

namespace Board

variable {config : Config}

/-- A board after reset. -/
def start (config : Config) : Board config where
  device := .start config
  host := .start
  accepted := 0
  loaded := 0
  returned := 0
  stale := false

/-- The completion record a status read hands to the host in this cycle. -/
def handedOver (board : Board config) (i : DeviceInput config) :
    List (BitVec 64) :=
  let read := board.device.read
  if board.host.reading = some regCplStatus ∧
      read.axilRdState = .resp ∧ i.axil.rready = true ∧
      read.sAxilRdata ≠ 0 then [read.sAxilRdata]
  else []

/-- One clock edge. -/
def step (board : Board config) (i : DeviceInput config) :
    Board config :=
  if board.device.inReset i then
    { start config with
      device := board.device.step i
      stale := (descAssignNext board.device.sys.top).isSome }
  else {
    device := board.device.step i
    host := board.host.next board.device i.axil
    accepted := board.accepted + (board.device.accepted i).length
    loaded := board.loaded + (board.device.leaving i).length
    returned := board.returned + (board.handedOver i).length
    stale := false }

/-! ## Conditions on a cycle -/

/-- There is no reset. -/
def NoReset (board : Board config) (i : DeviceInput config) : Prop :=
  board.device.inReset i = false

/-- The DMA engine and the output FIFOs keep their promises. -/
def Promised (board : Board config) (i : DeviceInput config) : Prop :=
  board.device.sys.ReadPromised (board.device.topInput i) ∧
    board.device.sys.WritePromised (board.device.topInput i)

/--
The host commits after its last commit was acknowledged and a later read of
the free descriptors returned a value greater than 0.
-/
def CommitPermitted (board : Board config) (i : DeviceInput config) :
    Prop :=
  board.device.committed i ≠ [] → board.host.mayCommit = true

instance (board : Board config) (i : DeviceInput config) :
    Decidable (board.NoReset i) := by
  unfold NoReset
  infer_instance

instance (board : Board config) (i : DeviceInput config) :
    Decidable (board.Promised i) := by
  unfold Promised
  infer_instance

instance (board : Board config) (i : DeviceInput config) :
    Decidable (board.CommitPermitted i) := by
  unfold CommitPermitted
  infer_instance

end Board

end CoreJpeg.JpegTop
