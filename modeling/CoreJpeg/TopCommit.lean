import CoreJpeg.TopDescriptor

namespace CoreJpeg.JpegTop

open Clocked

/-!
# From the host's commits to the loaded tasks

A host that waits for the acknowledgement of its last commit and then for a
positive count of free descriptors never finds the FIFO full.  Its commits are
loaded in order, each into one idle slot, in the widths the slot has for them.
-/

section Loads

variable {config : Config}

/-- The task in the registers of a slot. -/
def Slot.task (slot : Slot config) : Descriptor where
  srcAddr := slot.taskSrcAddr.setWidth 64
  srcLen := slot.taskSrcLen.setWidth 64
  dstAddr := slot.taskDstAddr.setWidth 64
  id := slot.taskId

/-- A descriptor cut to the registers of a slot. -/
def Descriptor.cut (config : Config) (desc : Descriptor) : Descriptor where
  srcAddr := (desc.srcAddr.setWidth config.addrWidth).setWidth 64
  srcLen := (desc.srcLen.setWidth 32).setWidth 64
  dstAddr := (desc.dstAddr.setWidth config.addrWidth).setWidth 64
  id := desc.id

/-- The tasks loaded into the slots that leave idle in this cycle. -/
def Device.loads (device : Device config) (i : DeviceInput config) :
    List Descriptor :=
  (device.leaving i).map fun decoder =>
    ((device.step i).sys.top.slots decoder).task

namespace Board

/-- An accepted write still has image bytes to write. -/
def WritesImage (board : Board config) (i : DeviceInput config) : Prop :=
  dmaWriteDescFire board.device.sys.top (board.device.topInput i) = true →
    (board.device.sys.top.slots
      board.device.sys.top.dmaWriteDescDecoder).writeBytesRemaining ≠ 0

/-- A pop strobe loads one slot, which leaves idle. -/
def LoadsIdle (board : Board config) (i : DeviceInput config) : Prop :=
  descFifoPop board.device.sys.top = true →
    board.device.leaving i = [board.device.sys.top.descAssignDecoder]

instance (board : Board config) (i : DeviceInput config) :
    Decidable (board.WritesImage i) := by
  unfold WritesImage
  infer_instance

end Board

/-- What the host has learned from the port is still true of the FIFO. -/
structure CommitPath (board : Board config) : Prop
    extends DescPath board where
  writes : WriteSound board.device.sys
  reads : ReadSound board.device.sys
  fresh : board.stale = false
  acknowledged :
    board.host.acknowledged = true →
      board.device.write.descFifoPush = false
  asking :
    board.host.asking = true →
      board.device.read.axilRdState = .resp ∧
        board.host.acknowledged = true ∧
        (board.device.read.sAxilRdata ≠ 0 →
          board.device.sys.top.descFifoCount.toNat <
            2 ^ config.descFifoDepthLog2)
  mayCommit :
    board.host.mayCommit = true →
      board.host.acknowledged = true ∧
        board.device.sys.top.descFifoCount.toNat <
          2 ^ config.descFifoDepthLog2

end Loads

/-! ## One cycle -/

section Cycle

variable {config : Config} {board : Board config}
variable {i : DeviceInput config}

/-- Without a push the count of the FIFO does not grow. -/
theorem DescPath.count_le
    (known : DescPath board)
    (outside : board.device.inReset i = false)
    (quiet : board.device.write.descFifoPush = false) :
    (board.device.step i).sys.top.descFifoCount.toNat ≤
      board.device.sys.top.descFifoCount.toNat := by
  have length := congrArg List.length (known.queue_next outside)
  simp only [descQueue, Device.pushing, quiet, Bool.false_eq_true, if_false,
    List.append_nil, List.length_drop, RingBuffer.length_contents] at length
  rw [length]
  exact Nat.sub_le _ _

/-- A positive count of free descriptors is read while there is room. -/
theorem free_room
    {path : WritePath} {top : State config} {fifo : CplFifo config}
    (fits : top.descFifoCount.toNat ≤ 2 ^ config.descFifoDepthLog2)
    (free : mmioRead path top fifo regDescFree ≠ 0) :
    top.descFifoCount.toNat < 2 ^ config.descFifoDepthLog2 := by
  refine Nat.lt_of_le_of_ne fits fun full => free ?_
  have count : top.descFifoCount.setWidth 64 =
      BitVec.ofNat 64 config.descFifoDepth := by
    rw [Config.descFifoDepth, ← full, BitVec.ofNat_toNat]
  simp [mmioRead, regDescFree, regDescRscAddr, regDescSrcLen,
    regDescDstAddr, regDescId, count]

/-- A commit of the host finds room in the FIFO. -/
theorem CommitPath.accepted_eq
    (known : CommitPath board)
    (permitted : board.CommitPermitted i) :
    board.device.accepted i = board.device.committed i := by
  unfold Device.accepted
  by_cases full : descFifoFull board.device.sys.top = true
  · have none : board.device.committed i = [] := by
      by_contra some
      have room := (known.mayCommit (permitted some)).2
      exact absurd (descFifoFull_iff.mp full) (Nat.ne_of_lt room)
    rw [if_pos full, none]
  · rw [if_neg full]

/-- The loaded tasks are the popped descriptors in the slots' widths. -/
theorem CommitPath.loads_eq
    (known : CommitPath board)
    (outside : board.device.inReset i = false)
    (promised :
      board.device.sys.WritePromised (board.device.topInput i)) :
    board.device.loads i =
      (board.device.popped i).map (Descriptor.cut config) := by
  have noReset : ((board.device.topInput i).rst ||
      (board.device.topInput i).mmioResetPulse) = false := outside
  rw [Device.loads, Device.popped, List.map_map]
  refine List.map_congr_left fun decoder leaves => ?_
  have leaves := (List.mem_filter.mp leaves).2
  rw [leavesIdle_eq known.slots outside] at leaves
  have idle := known.slots.assignIdle decoder leaves
  have noRead : readDoneFor board.device.sys.top
      (board.device.topInput i) decoder = false := by
    by_contra done
    have done : readDoneFor board.device.sys.top
        (board.device.topInput i) decoder = true := by
      simpa using done
    obtain ⟨job, pending, mine⟩ :=
      known.reads.last (Bool.and_eq_true_iff.mp done).1
    have running := (known.reads.pending job pending).2.2
    rw [mine, ← eq_of_readDoneFor done, idle] at running
    exact SlotState.noConfusion running
  have noWrite : writeDoneFor board.device.sys.top
      (board.device.topInput i) decoder = false := by
    refine (known.writes.other promised ?_).2
    rintro job pending rfl
    have running := (known.writes.pending job pending).2.2
    rw [idle] at running
    exact SlotState.noConfusion running
  have next : (board.device.step i).sys.top.slots decoder =
      slotNext board.device.sys.top (board.device.topInput i) decoder := by
    simp [Device.step, System.step, noReset, step_slots]
  have id : (slotNext board.device.sys.top (board.device.topInput i)
      decoder).taskId = (descFifoHead board.device.sys.top).id := by
    simp [slotNext, leaves, noRead, noWrite, slotAssign]
  simp [Slot.task, next, slotNext_taskSrcAddr, slotNext_taskSrcLen,
    slotNext_taskDstAddr, noRead, noWrite, leaves, id, Descriptor.cut]

/-- After reset the host may commit once. -/
theorem commitPath_start : CommitPath (.start config) where
  toDescPath := descPath_reset
  writes := writeSound_reset none
  reads := readSound_reset none
  fresh := rfl
  acknowledged := by simp [Board.start, Device.start, WritePath.reset]
  asking := by simp [Board.start, Host.start]
  mayCommit may := ⟨may, Nat.two_pow_pos _⟩

/-- From the acknowledgement to the next commit the FIFO does not fill. -/
theorem CommitPath.count_acknowledged
    (known : CommitPath board)
    (outside : board.device.inReset i = false)
    (acknowledged : board.host.acknowledged = true) :
    (board.device.step i).sys.top.descFifoCount.toNat ≤
      board.device.sys.top.descFifoCount.toNat :=
  known.count_le outside (known.acknowledged acknowledged)

/-- A read that asks for the free descriptors is answered with their count. -/
theorem CommitPath.asking_next
    (known : CommitPath board)
    (outside : board.device.inReset i = false)
    (asking : (board.host.next board.device i.axil).asking = true) :
    (board.device.step i).read.axilRdState = .resp ∧
      board.host.acknowledged = true ∧
      ((board.device.step i).read.sAxilRdata ≠ 0 →
        (board.device.step i).sys.top.descFifoCount.toNat <
          2 ^ config.descFifoDepthLog2) := by
  have asking := (Bool.and_eq_true_iff.mp asking).2
  have read : (board.device.step i).read =
      board.device.read.next board.device.write board.device.sys.top
        board.device.cplFifo i.axil := by
    simp [Device.step, outside]
  cases state : board.device.read.axilRdState with
  | idle =>
      rw [state] at asking
      simp only [Bool.and_eq_true, beq_iff_eq] at asking
      obtain ⟨acknowledged, asked⟩ := asking
      refine ⟨by simp [read, ReadPath.next, state, asked], acknowledged, ?_⟩
      intro free
      have answer : (board.device.step i).read.sAxilRdata =
          mmioRead board.device.write board.device.sys.top
            board.device.cplFifo regDescFree := by
        simp [read, ReadPath.next, state, asked]
      rw [answer] at free
      exact Nat.lt_of_le_of_lt
        (known.count_acknowledged outside acknowledged)
        (free_room known.fifo.fits free)
  | resp =>
      rw [state] at asking
      simp only [Bool.and_eq_true, Bool.not_eq_true'] at asking
      obtain ⟨_, acknowledged, room⟩ := known.asking asking.1
      refine ⟨by simp [read, ReadPath.next, state, asking.2],
        acknowledged, fun free => ?_⟩
      have same : (board.device.step i).read.sAxilRdata =
          board.device.read.sAxilRdata := by
        simp [read, ReadPath.next, state]
      rw [same] at free
      exact Nat.lt_of_le_of_lt
        (known.count_acknowledged outside acknowledged) (room free)

/-- One cycle without reset keeps what the host has learned true. -/
theorem CommitPath.step
    (known : CommitPath board)
    (outside : board.NoReset i)
    (promised : board.Promised i)
    (left : board.WritesImage i) :
    CommitPath (board.step i) := by
  have next : board.step i = {
      device := board.device.step i
      host := board.host.next board.device i.axil
      accepted := board.accepted + (board.device.accepted i).length
      loaded := board.loaded + (board.device.leaving i).length
      returned := board.returned + (board.handedOver i).length
      stale := false } := by
    have outside : board.device.inReset i = false := outside
    simp [Board.step, outside]
  have rst := rst_of_outside outside
  refine ⟨known.toDescPath.step i, ?_, ?_, ?_, ?_, ?_, ?_⟩ <;> rw [next]
  · exact known.writes.step promised.2
      (fun fire => taskDone_eq_false (.inr (.inl (left fire)))) outside
  · exact known.reads.step _
  · intro acknowledged
    have noCommit := (Bool.and_eq_true_iff.mp acknowledged).1
    simp only [Bool.not_eq_true'] at noCommit
    simp [Device.step, rst, next_descFifoPush, noCommit]
  · intro asking
    obtain ⟨state, acknowledged, room⟩ := known.asking_next outside asking
    refine ⟨state, ?_, room⟩
    have noCommit := (Bool.and_eq_true_iff.mp asking).1
    simpa [Host.next, acknowledged] using noCommit
  · intro permitted
    obtain ⟨noCommit, granted⟩ := Bool.and_eq_true_iff.mp permitted
    have before : board.host.acknowledged = true ∧
        board.device.sys.top.descFifoCount.toNat <
          2 ^ config.descFifoDepthLog2 := by
      rcases Bool.or_eq_true_iff.mp granted with already | now
      · exact known.mayCommit already
      · simp only [Bool.and_eq_true, beq_iff_eq, bne_iff_ne] at now
        obtain ⟨_, acknowledged, room⟩ := known.asking now.1.1.1
        exact ⟨acknowledged, room now.2⟩
    refine ⟨?_, Nat.lt_of_le_of_lt
      (known.count_acknowledged outside before.1) before.2⟩
    simpa [Host.next, before.1] using noCommit

end Cycle

/-- A pop strobe loads the picked slot, which is idle. -/
theorem CommitPath.loadsIdle
    {config : Config} {board : Board config} {i : DeviceInput config}
    (known : CommitPath board)
    (outside : board.NoReset i) :
    board.LoadsIdle i := by
  intro popped
  have popped : board.device.sys.top.descAssignValid = true := popped
  rw [leaving_eq known.slots outside, if_pos popped]

/--
In every run without reset in which the host commits after an acknowledgement
and a positive count of free descriptors, and every accepted write has image
bytes left, the tasks loaded into slots that leave idle are the first ones
committed, in order and cut to the slots' registers, and every pop strobe
loads one idle slot.
-/
theorem loads_follow_commits
    (config : Config)
    (cycles : List (DeviceInput config))
    (noReset : Along Board.step Board.NoReset (Board.start config) cycles)
    (promised : Along Board.step Board.Promised (Board.start config) cycles)
    (left : Along Board.step Board.WritesImage (Board.start config) cycles)
    (permitted :
      Along Board.step Board.CommitPermitted (Board.start config) cycles) :
    observe Board.step (fun board => board.device.loads)
        (Board.start config) cycles <+:
      (observe Board.step (fun board => board.device.committed)
        (Board.start config) cycles).map (Descriptor.cut config) ∧
      Along Board.step Board.LoadsIdle (Board.start config) cycles := by
  have allowed := (noReset.both promised).both (left.both permitted)
  have preserved (board : Board config) (i : DeviceInput config)
      (known : CommitPath board)
      (now : (board.NoReset i ∧ board.Promised i) ∧
        board.WritesImage i ∧ board.CommitPermitted i) :
      CommitPath (board.step i) :=
    known.step now.1.1 now.1.2 now.2.1
  refine ⟨?_, along_invariant preserved
    (fun _ _ known now => known.loadsIdle now.1.1) commitPath_start allowed⟩
  have balance := conserved
    (fun board : Board config =>
      board.device.underway.map (Descriptor.cut config))
    (fun board i =>
      (board.device.committed i).map (Descriptor.cut config))
    (fun board => board.device.loads)
    preserved
    (fun board i known now => by
      have outside : board.device.inReset i = false := now.1.1
      have device : (board.step i).device = board.device.step i := by
        simp [Board.step, outside]
      rw [device, known.loads_eq outside now.1.2.2,
        ← known.accepted_eq now.2.2, ← List.map_append, ← List.map_append,
        known.balance outside known.fresh])
    commitPath_start allowed
  have empty : (Board.start config).device.underway = [] := by
    simp [Device.underway, descQueue, Device.pushing, Board.start,
      Device.start, System.start, State.reset, WritePath.reset]
  rw [empty, List.map_nil, List.nil_append, observe_map] at balance
  exact ⟨_, balance.symm⟩

/-- A register read is offered and its response is taken. -/
def readCycles (config : Config) (addr : BitVec 8) :
    List (DeviceInput config) :=
  [{ DeviceInput.quiet config with
      axil := { (DeviceInput.quiet config).axil with ar := some addr } },
    .quiet config]

/-- Two descriptors are committed with a look at the free count between. -/
def twoCommits (config : Config) : List (DeviceInput config) :=
  (writeCycles config regDescSrcLen 4 ++
    writeCycles config regDescCommit 0 ++ readCycles config regDescFree ++
    writeCycles config regDescSrcLen 8 ++
    writeCycles config regDescCommit 0 ++
    readCycles config regDescFree).map DeviceInput.holdReads

/-- The tasks of two commits are loaded in order. -/
theorem loads_follow_commits_two :
    observe Board.step (fun board => board.device.loads)
        (Board.start smallConfig) (twoCommits smallConfig) <+:
      (observe Board.step (fun board => board.device.committed)
        (Board.start smallConfig) (twoCommits smallConfig)).map
          (Descriptor.cut smallConfig) ∧
      Along Board.step Board.LoadsIdle (Board.start smallConfig)
        (twoCommits smallConfig) :=
  loads_follow_commits smallConfig _ (by decide +kernel)
    (by decide +kernel) (by decide +kernel) (by decide +kernel)

/-- A source length of 2^32 bytes is loaded as 0 bytes. -/
theorem long_source_is_cut :
    ¬ ∀ config cycles,
      Along Board.step Board.NoReset (Board.start config) cycles →
      Along Board.step Board.Promised (Board.start config) cycles →
      Along Board.step Board.CommitPermitted (Board.start config) cycles →
      observe Board.step (fun board => board.device.loads)
          (Board.start config) cycles <+:
        observe Board.step (fun board => board.device.committed)
          (Board.start config) cycles := by
  intro claimed
  exact absurd
    (claimed smallConfig
      (writeCycles smallConfig regDescSrcLen 0x100000000 ++
        writeCycles smallConfig regDescCommit 0 ++
        readCycles smallConfig regDescFree)
      (by decide +kernel) (by decide +kernel) (by decide +kernel))
    (by decide +kernel)

end CoreJpeg.JpegTop
