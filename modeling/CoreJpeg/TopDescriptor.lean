import CoreJpeg.TopBoard
import Mathlib.Data.List.FinRange

namespace CoreJpeg.JpegTop

open Clocked

/-!
# From the commit to the slot

A commit raises the push strobe for one cycle, the pushed descriptor waits in
the FIFO, a slot is picked for the oldest one, and in the cycle after that the
slot is loaded.  Three registers apart, the descriptors on their way are the
queue and the pushed one, and outside reset a cycle only moves them on.
-/

section Path

variable {config : Config}

/-- The descriptors in the FIFO, the oldest first. -/
def descQueue (s : State config) : List Descriptor :=
  RingBuffer.contents s.descFifo s.descFifoRdPtr s.descFifoCount.toNat

namespace Device

/-- The descriptor that is pushed into the FIFO in this cycle. -/
def pushing (device : Device config) : List Descriptor :=
  if device.write.descFifoPush then [device.write.descriptor] else []

/-- The descriptors that were committed and are not loaded yet. -/
def underway (device : Device config) : List Descriptor :=
  descQueue device.sys.top ++ device.pushing

/-- The descriptors at the front of the FIFO when slots leave idle. -/
def popped (device : Device config) (i : DeviceInput config) :
    List Descriptor :=
  (device.leaving i).map fun _ => descFifoHead device.sys.top

/--
Every slot that leaves idle does so alone and takes the oldest descriptor off
a FIFO that is not empty.
-/
def PopsDescriptor (device : Device config) (i : DeviceInput config) :
    Prop :=
  ∀ decoder, device.leavesIdle i decoder = true →
    device.leaving i = [decoder] ∧
      ∃ rest, descQueue device.sys.top =
          descFifoHead device.sys.top :: rest ∧
        descQueue (device.step i).sys.top = rest ++ device.pushing

end Device

/-- The registers between the commit and the slot agree with each other. -/
structure DescPath (board : Board config) : Prop where
  slots : SlotsSound board.device.sys.top
  fifo :
    RingBuffer.Consistent board.device.sys.top.descFifoWrPtr
      board.device.sys.top.descFifoRdPtr board.device.sys.top.descFifoCount
  assigned :
    board.device.sys.top.descAssignValid = true → board.stale = false →
      0 < board.device.sys.top.descFifoCount.toNat
  pushing :
    board.device.write.descFifoPush = true →
      board.device.write.axilWrState = .resp ∧
        board.device.sys.top.descFifoCount.toNat <
          2 ^ config.descFifoDepthLog2
  resetting :
    board.device.write.mmioResetPulse = true →
      board.device.write.axilWrState = .resp

end Path

/-! ## The write path -/

section Write

variable {path : WritePath} {full : Bool} {axil : AxilInput}

/-- Only the write of a commit raises the push strobe. -/
theorem executed_descFifoPush
    (quiet : path.descFifoPush = false) :
    (path.executed full).descFifoPush =
      (path.awaddrHold == regDescCommit && !full) := by
  by_cases commit : path.awaddrHold = regDescCommit
  · simp [WritePath.executed, commit, regDescRscAddr, regDescSrcLen,
      regDescDstAddr, regDescId, regDescCommit]
  · have other : (path.awaddrHold == regDescCommit) = false := by
      simp [commit]
    rw [other, Bool.false_and]
    simp only [WritePath.executed]
    split_ifs <;> exact quiet

/-- The push strobe follows a commit that finds room. -/
theorem next_descFifoPush :
    (path.next false full axil).descFifoPush =
      (path.commits && !full) := by
  unfold WritePath.next WritePath.commits WritePath.executes
  cases state : path.axilWrState with
  | resp => by_cases ready : axil.bready = true <;> simp [ready]
  | idle =>
      cases aw : path.awStored <;> cases w : path.wStored
      case true.true =>
        simp [executed_descFifoPush, WritePath.takesAddress, aw]
      all_goals simp

/-- A commit waits for its response and changes no descriptor register. -/
theorem next_commits
    (commits : path.commits = true) :
    (path.next false full axil).axilWrState = .resp ∧
      (path.next false full axil).descriptor = path.descriptor ∧
      (path.next false full axil).mmioResetPulse = false := by
  unfold WritePath.commits WritePath.executes at commits
  simp only [Bool.and_eq_true, beq_iff_eq] at commits
  obtain ⟨⟨⟨state, aw⟩, w⟩, addr⟩ := commits
  simp [WritePath.next, state, aw, w, WritePath.executed,
    WritePath.takesAddress, WritePath.takesData, addr,
    WritePath.descriptor, regDescRscAddr, regDescSrcLen, regDescDstAddr,
    regDescId, regDescCommit]

/-- The reset strobe is raised while its write waits for its response. -/
theorem next_mmioResetPulse
    (pulse : (path.next false full axil).mmioResetPulse = true) :
    (path.next false full axil).axilWrState = .resp := by
  revert pulse
  unfold WritePath.next
  cases state : path.axilWrState with
  | resp => by_cases ready : axil.bready = true <;> simp [ready]
  | idle =>
      by_cases both : (path.awStored && path.wStored) = true
      · simp [both]
      · simp [both]

/-- No commit is executed while a response is awaited. -/
theorem commits_idle
    (commits : path.commits = true) :
    path.axilWrState = .idle := by
  unfold WritePath.commits WritePath.executes at commits
  simp only [Bool.and_eq_true, beq_iff_eq] at commits
  exact commits.1.1.1

end Write

/-! ## The FIFO and the picked slot -/

section Fifo

variable {config : Config} {s : State config} {i : Input config}

/-- The FIFO is full when its count has reached the depth. -/
theorem descFifoFull_iff :
    descFifoFull s = true ↔
      s.descFifoCount.toNat = 2 ^ config.descFifoDepthLog2 :=
  RingBuffer.count_full_iff

/-- The FIFO is not empty when it counts a descriptor. -/
theorem descFifoEmpty_eq_false :
    descFifoEmpty s = false ↔ 0 < s.descFifoCount.toNat :=
  RingBuffer.count_empty_eq_false

/-- The count of the FIFO is kept as a queue's. -/
theorem descFifoCountNext_eq :
    descFifoCountNext s i =
      RingBuffer.recount s.descFifoCount (descFifoStore s i).isSome
        (descFifoPop s && !descFifoEmpty s) := by
  unfold descFifoCountNext RingBuffer.recount
  cases (descFifoStore s i).isSome <;>
    cases descFifoPop s && !descFifoEmpty s <;> rfl

/-- Outside reset the FIFO drops its popped front and adds what it stores. -/
theorem descQueue_step
    (fifo :
      RingBuffer.Consistent s.descFifoWrPtr s.descFifoRdPtr s.descFifoCount)
    (outside : (i.rst || i.mmioResetPulse) = false) :
    RingBuffer.Consistent (step s i).descFifoWrPtr
        (step s i).descFifoRdPtr (step s i).descFifoCount ∧
      descQueue (step s i) =
        (descQueue s).drop (descFifoPop s && !descFifoEmpty s).toNat ++
          (descFifoStore s i).toList := by
  have room : (descFifoStore s i).isSome = true →
      s.descFifoCount.toNat < 2 ^ config.descFifoDepthLog2 := by
    intro stored
    refine Nat.lt_of_le_of_ne fifo.fits fun full => ?_
    simp [descFifoStore, descFifoFull_iff.mpr full] at stored
  have present : (descFifoPop s && !descFifoEmpty s) = true →
      0 < s.descFifoCount.toNat := by
    intro popped
    have nonempty := (Bool.and_eq_true_iff.mp popped).2
    exact descFifoEmpty_eq_false.mp (by simpa using nonempty)
  refine ⟨?_, ?_⟩
  · simpa [step, outside, descFifoCountNext_eq] using
      fifo.next room present
  · simpa [descQueue, step, outside, descFifoCountNext_eq] using
      RingBuffer.contents_next s.descFifo fifo room present

/-- A queue that is not empty starts with the descriptor at the pointer. -/
theorem descQueue_head
    (nonempty : 0 < s.descFifoCount.toNat) :
    ∃ rest, descQueue s = descFifoHead s :: rest :=
  RingBuffer.contents_head nonempty

/-- A slot is picked for a descriptor that stays in the FIFO. -/
theorem descAssignNext_present
    (fifo :
      RingBuffer.Consistent s.descFifoWrPtr s.descFifoRdPtr s.descFifoCount)
    (outside : (i.rst || i.mmioResetPulse) = false)
    (picked : (descAssignNext s).isSome = true) :
    0 < (step s i).descFifoCount.toNat := by
  have free : s.descAssignValid = false ∧ descFifoEmpty s = false := by
    unfold descAssignNext at picked
    split at picked
    · simp at picked
    · rename_i free
      simpa using free
  have length := congrArg List.length (descQueue_step fifo outside).2
  have nonempty := descFifoEmpty_eq_false.mp free.2
  simp only [descQueue, descFifoPop, free.1, Bool.false_and,
    Bool.toNat_false, List.drop_zero, List.length_append,
    RingBuffer.length_contents] at length
  rw [length]
  exact Nat.lt_of_lt_of_le nonempty (Nat.le_add_right _ _)

end Fifo

section Leaving

variable {config : Config} {device : Device config}
variable {i : DeviceInput config}

/-- A slot leaves idle when a descriptor is popped for it. -/
theorem leavesIdle_eq
    (slots : SlotsSound device.sys.top)
    (outside : device.inReset i = false)
    (decoder : Decoder config) :
    device.leavesIdle i decoder = assignsTo device.sys.top decoder := by
  have next : (device.step i).sys.top.slots decoder =
      slotNext device.sys.top (device.topInput i) decoder := by
    have noReset : ((device.topInput i).rst ||
        (device.topInput i).mmioResetPulse) = false := outside
    simp [Device.step, System.step, noReset, step_slots]
  rw [Device.leavesIdle, next, slotNext_slotState]
  cases assigned : assignsTo device.sys.top decoder with
  | true => simp [slots.assignIdle decoder assigned]
  | false =>
      by_cases waiting :
          (device.sys.top.slots decoder).slotState = .idle
      · simp [waiting, slotStateLoop_idle]
      · simp [waiting]

/-- No slot leaves idle in a reset. -/
theorem leavesIdle_reset
    (reset : device.inReset i = true)
    (decoder : Decoder config) :
    device.leavesIdle i decoder = false := by
  have inReset : ((device.topInput i).rst ||
      (device.topInput i).mmioResetPulse) = true := reset
  simp [Device.leavesIdle, Device.step, System.step, JpegTop.step, inReset,
    State.reset, Slot.reset]

/-- The picked slot, and only it, leaves idle when the pop strobe is high. -/
theorem leaving_eq
    (slots : SlotsSound device.sys.top)
    (outside : device.inReset i = false) :
    device.leaving i =
      if device.sys.top.descAssignValid then
        [device.sys.top.descAssignDecoder]
      else [] := by
  have same : device.leavesIdle i = assignsTo device.sys.top :=
    funext (leavesIdle_eq slots outside)
  rw [Device.leaving, same]
  unfold assignsTo descFifoPop
  cases device.sys.top.descAssignValid with
  | false => simp
  | true =>
      simp only [Bool.true_and, if_true]
      rw [List.filter_beq, List.count_finRange, List.replicate_one]

end Leaving

/-! ## One cycle -/

section Cycle

variable {config : Config} {board : Board config}
variable {i : DeviceInput config}

/-- The condition of this result: no reset leaves a picked slot behind. -/
def Board.ResetForgets (board : Board config) (i : DeviceInput config) :
    Prop :=
  board.device.inReset i = false → board.stale = false

instance : Decidable (board.ResetForgets i) := by
  unfold Board.ResetForgets
  infer_instance

/-- Outside reset the write path moves on without its own reset. -/
theorem rst_of_outside
    (outside : board.device.inReset i = false) :
    i.pins.rst = false :=
  (Bool.or_eq_false_iff.mp outside).1

/-- The descriptor pushed next is the one accepted now. -/
theorem pushing_next
    (outside : board.device.inReset i = false) :
    (board.device.step i).pushing = board.device.accepted i := by
  have rst := rst_of_outside outside
  simp only [Device.pushing, Device.step, rst, next_descFifoPush,
    Device.accepted, Device.committed, Bool.not_false, Bool.true_and]
  cases commits : board.device.write.commits with
  | false => simp
  | true =>
      rw [(next_commits commits).2.1]
      cases descFifoFull board.device.sys.top <;> simp

/-- The FIFO stores the pushed descriptor. -/
theorem DescPath.stored
    (known : DescPath board) :
    (descFifoStore board.device.sys.top
        (board.device.topInput i)).toList = board.device.pushing := by
  cases push : board.device.write.descFifoPush with
  | false => simp [descFifoStore, Device.topInput, Device.pushing, push]
  | true =>
      have room := (known.pushing push).2
      have notFull : descFifoFull board.device.sys.top = false := by
        rw [Bool.eq_false_iff, ne_eq, descFifoFull_iff]
        exact Nat.ne_of_lt room
      simp [descFifoStore, Device.topInput, Device.pushing, push, notFull]

/-- Outside reset the queue moves on by the popped and pushed descriptors. -/
theorem DescPath.queue_next
    (known : DescPath board)
    (outside : board.device.inReset i = false) :
    descQueue (board.device.step i).sys.top =
      (descQueue board.device.sys.top).drop
          (descFifoPop board.device.sys.top &&
            !descFifoEmpty board.device.sys.top).toNat ++
        board.device.pushing := by
  have noReset : ((board.device.topInput i).rst ||
      (board.device.topInput i).mmioResetPulse) = false := outside
  have top : (board.device.step i).sys.top =
      JpegTop.step board.device.sys.top (board.device.topInput i) := by
    simp [Device.step, System.step, noReset]
  rw [top, (descQueue_step known.fifo noReset).2, known.stored]

/-- The push strobe belongs to a response that is awaited. -/
theorem DescPath.pushing_next
    (known : DescPath board)
    (push : (board.device.step i).write.descFifoPush = true) :
    (board.device.step i).write.axilWrState = .resp ∧
      (board.device.step i).sys.top.descFifoCount.toNat <
        2 ^ config.descFifoDepthLog2 := by
  cases rst : i.pins.rst with
  | true => simp [Device.step, WritePath.next, rst, WritePath.reset] at push
  | false =>
      simp only [Device.step, rst, next_descFifoPush, Bool.and_eq_true,
        Bool.not_eq_true'] at push
      refine ⟨?_, ?_⟩
      · simpa [Device.step, rst] using (next_commits push.1).1
      · cases outside : board.device.inReset i with
        | true =>
            have noReset : ((board.device.topInput i).rst ||
                (board.device.topInput i).mmioResetPulse) = true := outside
            have empty : (board.device.step i).sys.top.descFifoCount = 0 := by
              simp [Device.step, System.step, JpegTop.step, noReset,
                State.reset]
            rw [empty]
            exact Nat.two_pow_pos _
        | false =>
            have quiet : board.device.write.descFifoPush = false := by
              by_contra pushed
              have state := (known.pushing (by simpa using pushed)).1
              simp [commits_idle push.1] at state
            have length :=
              congrArg List.length (known.queue_next outside)
            simp only [descQueue, Device.pushing, quiet,
              Bool.false_eq_true, if_false, List.append_nil,
              List.length_drop, RingBuffer.length_contents] at length
            rw [length]
            refine Nat.lt_of_le_of_lt (Nat.sub_le _ _)
              (Nat.lt_of_le_of_ne known.fifo.fits fun full => ?_)
            rw [← descFifoFull_iff, push.2] at full
            exact Bool.noConfusion full

/-- After reset nothing is under way. -/
theorem descPath_reset :
    DescPath (.start config) where
  slots := slotsSound_reset none
  fifo := RingBuffer.consistent_empty
  assigned := by simp [Board.start, Device.start, System.start, State.reset]
  pushing := by simp [Board.start, Device.start, WritePath.reset]
  resetting := by simp [Board.start, Device.start, WritePath.reset]

/-- One cycle keeps the registers of the path in agreement. -/
theorem DescPath.step
    (known : DescPath board)
    (i : DeviceInput config) :
    DescPath (board.step i) := by
  have device : (board.step i).device = board.device.step i := by
    unfold Board.step
    split <;> rfl
  have top : (board.device.step i).sys.top =
      JpegTop.step board.device.sys.top (board.device.topInput i) := by
    simp only [Device.step, System.step]
    split <;> rfl
  refine ⟨?_, ?_, ?_, ?_, ?_⟩
  · rw [device, top]
    exact known.slots.step _
  · rw [device, top]
    cases outside : board.device.inReset i with
    | true =>
        have noReset : ((board.device.topInput i).rst ||
            (board.device.topInput i).mmioResetPulse) = true := outside
        simpa [JpegTop.step, noReset, State.reset] using
          RingBuffer.consistent_empty
    | false =>
        have noReset : ((board.device.topInput i).rst ||
            (board.device.topInput i).mmioResetPulse) = false := outside
        exact (descQueue_step known.fifo noReset).1
  · intro valid fresh
    rw [device, top] at valid ⊢
    cases outside : board.device.inReset i with
    | true =>
        have noReset : ((board.device.topInput i).rst ||
            (board.device.topInput i).mmioResetPulse) = true := outside
        simp only [Board.step, outside, if_true] at fresh
        simp [JpegTop.step, noReset, State.reset, fresh] at valid
    | false =>
        have noReset : ((board.device.topInput i).rst ||
            (board.device.topInput i).mmioResetPulse) = false := outside
        refine descAssignNext_present known.fifo noReset ?_
        simpa [JpegTop.step, noReset] using valid
  · rw [device]
    exact known.pushing_next
  · rw [device]
    cases rst : i.pins.rst with
    | true => simp [Device.step, WritePath.next, rst, WritePath.reset]
    | false =>
        simp only [Device.step, rst]
        exact next_mmioResetPulse

/-- The registers of the path agree after every run. -/
theorem descPath_run (cycles : List (DeviceInput config)) :
    DescPath (run Board.step (Board.start config) cycles) :=
  run_always
    (fun (board : Board config) i (known : DescPath board) => known.step i)
    descPath_reset cycles

/-- In a reset every descriptor under way is dropped. -/
theorem DescPath.underway_reset
    (known : DescPath board)
    (reset : board.device.inReset i = true) :
    (board.step i).device.underway = [] := by
  have inReset : ((board.device.topInput i).rst ||
      (board.device.topInput i).mmioResetPulse) = true := reset
  have noPush : (board.device.step i).write.descFifoPush = false := by
    cases rst : i.pins.rst with
    | true => simp [Device.step, WritePath.next, rst, WritePath.reset]
    | false =>
        have pulse : board.device.write.mmioResetPulse = true := by
          simpa [Device.inReset, rst] using reset
        have waits := known.resetting pulse
        simp only [Device.step, rst, next_descFifoPush]
        cases commits : board.device.write.commits with
        | false => rfl
        | true => simp [commits_idle commits] at waits
  have device : (board.step i).device = board.device.step i := by
    simp [Board.step, reset]
  rw [device, Device.underway, Device.pushing, noPush]
  simp [descQueue, Device.step, System.step, JpegTop.step, inReset,
    State.reset]

/-- A slot that leaves idle takes the oldest descriptor off the queue. -/
theorem DescPath.popsDescriptor
    (known : DescPath board)
    (forgets : board.ResetForgets i) :
    board.device.PopsDescriptor i := by
  intro decoder leaves
  cases outside : board.device.inReset i with
  | true =>
      rw [leavesIdle_reset outside] at leaves
      exact Bool.noConfusion leaves
  | false =>
      rw [leavesIdle_eq known.slots outside] at leaves
      obtain ⟨valid, mine⟩ := Bool.and_eq_true_iff.mp leaves
      have valid : board.device.sys.top.descAssignValid = true := valid
      have present := known.assigned valid (forgets outside)
      obtain ⟨rest, queue⟩ := descQueue_head present
      refine ⟨?_, rest, queue, ?_⟩
      · rw [leaving_eq known.slots outside, if_pos valid,
          beq_iff_eq.mp mine]
      · rw [known.queue_next outside, queue, descFifoPop, valid,
          descFifoEmpty_eq_false.mpr present]
        rfl

/-- Outside reset descriptors only move on from the commit to the slot. -/
theorem DescPath.balance
    (known : DescPath board)
    (outside : board.device.inReset i = false)
    (fresh : board.stale = false) :
    board.device.underway ++ board.device.accepted i =
      board.device.popped i ++ (board.device.step i).underway := by
  rw [Device.underway, Device.underway, JpegTop.pushing_next outside,
    ← List.append_assoc, known.queue_next outside, Device.popped,
    leaving_eq known.slots outside, descFifoPop]
  cases valid : board.device.sys.top.descAssignValid with
  | false => simp
  | true =>
      have present := known.assigned valid fresh
      obtain ⟨rest, queue⟩ := descQueue_head present
      simp [queue, descFifoEmpty_eq_false.mpr present]

end Cycle

/--
In every run in which no reset leaves a picked slot behind, each slot that
leaves idle takes exactly one descriptor off a FIFO that is not empty, and
after a reset slots leave idle for descriptors committed after it only.
-/
theorem reset_forgets
    (config : Config)
    (cycles : List (DeviceInput config))
    (forgets :
      Along Board.step Board.ResetForgets (Board.start config) cycles) :
    Along Board.step (fun board => board.device.PopsDescriptor)
        (Board.start config) cycles ∧
      ∀ past reset later, cycles = past ++ reset :: later →
        (run Board.step (Board.start config) past).device.inReset reset =
          true →
        let afterReset := run Board.step (Board.start config) (past ++ [reset])
        Along Board.step Board.NoReset afterReset later →
          observe Board.step (fun board => board.device.popped)
              afterReset later <+:
            observe Board.step (fun board => board.device.accepted)
              afterReset later := by
  refine ⟨along_invariant (fun _ i known _ => known.step i)
    (fun _ _ known allowed => known.popsDescriptor allowed)
    descPath_reset forgets, ?_⟩
  rintro past reset later rfl inReset afterReset noReset
  have known : DescPath afterReset := descPath_run (past ++ [reset])
  have rest : Along Board.step Board.ResetForgets afterReset later := by
    rw [List.append_cons, along_append] at forgets
    exact forgets.2
  have before := descPath_run past
  have nothing : afterReset.device.underway = [] := by
    simpa [afterReset] using before.underway_reset inReset
  have balance := conserved
    (fun board : Board config => board.device.underway)
    (fun board => board.device.accepted)
    (fun board => board.device.popped)
    (fun board i (known : DescPath board) _ => known.step i)
    (fun board i known allowed => by
      simpa [Board.step, show board.device.inReset i = false
        from allowed.1] using known.balance allowed.1 (allowed.2 allowed.1))
    known (noReset.both rest)
  rw [nothing, List.nil_append] at balance
  exact ⟨_, balance.symm⟩

/-- A cycle in which the host takes every response and offers nothing. -/
def DeviceInput.quiet (config : Config) : DeviceInput config where
  axil := {
    aw := none
    w := none
    bready := true
    ar := none
    rready := true }
  pins := .quiet config

/-- A quiet cycle on the AXI-Lite port. -/
def DeviceInput.ofPins {config : Config} (pins : Input config) :
    DeviceInput config :=
  { DeviceInput.quiet config with pins := pins }

/-- The DMA engine takes no read descriptor. -/
def DeviceInput.holdReads {config : Config} (i : DeviceInput config) :
    DeviceInput config :=
  { i with pins := { i.pins with dmaReadDescReady := false } }

/-- Both parts of a register write are offered. -/
def offerWrite (config : Config) (addr : BitVec 8) (data : BitVec 64) :
    DeviceInput config :=
  { DeviceInput.quiet config with
    axil := { (DeviceInput.quiet config).axil with
      aw := some addr
      w := some (data, 0xFF) } }

/-- A register write is offered, executed and acknowledged. -/
def writeCycles (config : Config) (addr : BitVec 8) (data : BitVec 64) :
    List (DeviceInput config) :=
  [offerWrite config addr data, .quiet config, .quiet config]

/-- One commit is loaded, a second one is dropped by a reset. -/
theorem reset_forgets_commit :
    let cycles := writeCycles smallConfig regDescCommit 0 ++
      writeCycles smallConfig regDescCommit 0 ++
      writeCycles smallConfig regReset 1 ++
      writeCycles smallConfig regDescCommit 0
    Along Board.step (fun board => board.device.PopsDescriptor)
        (Board.start smallConfig) cycles ∧
      ∀ past reset later, cycles = past ++ reset :: later →
        (run Board.step (Board.start smallConfig) past).device.inReset
          reset = true →
        let afterReset :=
          run Board.step (Board.start smallConfig) (past ++ [reset])
        Along Board.step Board.NoReset afterReset later →
          observe Board.step (fun board => board.device.popped)
              afterReset later <+:
            observe Board.step (fun board => board.device.accepted)
              afterReset later :=
  reset_forgets smallConfig _ (by decide +kernel)

/--
Three descriptors of four source bytes are committed for two slots.  The task
of slot 0 reads its bytes, reports one pixel and writes it, and in the cycle
in which its slot is idle again the reset strobe is high.
-/
def staleCycles (config : Config) : List (DeviceInput config) :=
  writeCycles config regDescSrcLen 4 ++
    writeCycles config regDescCommit 0 ++
    writeCycles config regDescCommit 0 ++
    [offerWrite config regDescCommit 0,
      .ofPins { pixelCycle config with
        dmaReadDescReady := false
        dmaReadData := some (BitVec.allOnes _, true) },
      .quiet config,
      (DeviceInput.quiet config).holdReads,
      (DeviceInput.ofPins (drainPixel config)).holdReads,
      (DeviceInput.ofPins (statusCycle config)).holdReads,
      (DeviceInput.quiet config).holdReads,
      (offerWrite config regReset 1).holdReads,
      (DeviceInput.quiet config).holdReads,
      (DeviceInput.quiet config).holdReads]

/--
The descriptor assignment has no reset: the slot picked in the reset cycle
leaves idle in the next cycle, although the FIFO was emptied.
-/
theorem reset_leaves_picked_slot :
    ¬ ∀ config cycles,
      Along Board.step Board.Promised (Board.start config) cycles →
      Along Board.step (fun board => board.device.PopsDescriptor)
        (Board.start config) cycles := by
  intro claimed
  have along := claimed smallConfig
    (staleCycles smallConfig ++ [.quiet smallConfig]) (by decide +kernel)
  obtain ⟨pops, _⟩ := (along_append _ _ _).mp along |>.2
  obtain ⟨_, rest, queue, _⟩ := pops 0 (by decide +kernel)
  have length := congrArg List.length queue
  have empty : (run Board.step (Board.start smallConfig)
      (staleCycles smallConfig)).device.sys.top.descFifoCount.toNat = 0 := by
    decide +kernel
  rw [descQueue, RingBuffer.length_contents, empty] at length
  exact absurd length.symm (Nat.succ_ne_zero _)

end CoreJpeg.JpegTop
