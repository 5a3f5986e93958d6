import CoreJpeg.TopCapacity
import CoreJpeg.TopCommit
import Mathlib.Algebra.BigOperators.Group.Finset.Piecewise
import Mathlib.Algebra.Order.BigOperators.Group.Finset

namespace CoreJpeg.JpegTop

open Clocked

/-!
# From the completion record to the host

A record is pushed when the last bytes of an image are written, waits in the
completion FIFO and is handed over by a status read.  The FIFO is not asked
whether it has room.  Every record belongs to a task that was loaded and not
completed before, so there is room as long as no more loaded tasks wait for
their return than the FIFO has entries.
-/

section Path

variable {config : Config}

/-- The words in the completion FIFO, the oldest first. -/
def CplFifo.queue (fifo : CplFifo config) : List (BitVec 64) :=
  RingBuffer.contents fifo.data fifo.rdPtr fifo.count.toNat

/-- The completion record of the awaited response. -/
def Board.awaited (board : Board config) : List (BitVec 64) :=
  if board.host.reading = some regCplStatus ∧
      board.device.read.sAxilRdata ≠ 0 then
    [board.device.read.sAxilRdata]
  else []

/-- The records that were pushed and not handed over yet. -/
def Board.pending (board : Board config) : List (BitVec 64) :=
  board.awaited ++
    board.device.cplFifo.queue.drop board.device.read.cplFifoPop.toNat

/-- A slot runs a task that is not completed yet. -/
def System.isOpen (sys : System config) (decoder : Decoder config) : Bool :=
  (sys.top.slots decoder).slotState == .run &&
    (sys.tasks decoder).completions.isEmpty

namespace Board

/-- The images of a cycle are single. -/
def SingleImage (board : Board config) (i : DeviceInput config) : Prop :=
  board.device.sys.SingleImage (board.device.topInput i)

/-- At most as many loaded tasks wait for their return as the FIFO has room. -/
def FewLoaded (board : Board config) (_ : DeviceInput config) : Prop :=
  board.loaded ≤ board.returned + config.descFifoDepth

/-- At most as many tasks are outstanding as the driver has slots for. -/
def FewOutstanding (board : Board config) (_ : DeviceInput config) :
    Prop :=
  board.accepted ≤ board.returned + dstSlotCount

/-- A pushed completion record finds room in the FIFO. -/
def RecordKept (board : Board config) (i : DeviceInput config) : Prop :=
  writeStatusIsFinal board.device.sys.top (board.device.topInput i) = true →
    board.device.cplFifo.full = false

instance (board : Board config) (i : DeviceInput config) :
    Decidable (board.SingleImage i) := by
  unfold SingleImage
  infer_instance

instance (board : Board config) (i : DeviceInput config) :
    Decidable (board.FewLoaded i) := by
  unfold FewLoaded
  infer_instance

instance (board : Board config) (i : DeviceInput config) :
    Decidable (board.FewOutstanding i) := by
  unfold FewOutstanding
  infer_instance

instance (board : Board config) (i : DeviceInput config) :
    Decidable (board.RecordKept i) := by
  unfold RecordKept
  infer_instance

end Board

/-- The completion FIFO, the read path and the tasks agree. -/
structure ReturnPath (board : Board config) : Prop
    extends CompletionKept board.device.sys where
  fifo :
    RingBuffer.Consistent board.device.cplFifo.wrPtr
      board.device.cplFifo.rdPtr board.device.cplFifo.count
  words : ∀ word ∈ board.device.cplFifo.queue, word ≠ 0
  popping :
    board.device.read.cplFifoPop = true →
      board.device.read.axilRdState = .resp ∧
        0 < board.device.cplFifo.count.toNat ∧
        board.host.reading = some regCplStatus ∧
        board.device.read.sAxilRdata ≠ 0
  reading :
    board.device.read.axilRdState = .idle → board.host.reading = none
  counted :
    board.returned + board.pending.length +
        ∑ decoder, (board.device.sys.isOpen decoder).toNat ≤
      board.loaded

end Path

/-! ## Open tasks -/

section Open

variable {config : Config} {sys : System config} {i : Input config}

/-- The task whose image ends is open. -/
theorem CompletionKept.open_of_final
    (known : CompletionKept sys)
    (promised : sys.WritePromised i)
    (final : writeStatusIsFinal sys.top i = true) :
    sys.isOpen sys.top.writeServiceDecoder = true := by
  obtain ⟨job, pending, _, mine⟩ :=
    known.toWriteSound.status promised (Bool.and_eq_true_iff.mp final).1
  have running := (known.pending job pending).2.2
  have nonzero := (known.pendingImage job pending).2.1
  rw [mine] at running nonzero
  have none : (sys.tasks sys.top.writeServiceDecoder).completions = [] := by
    rcases (known.tasks sys.top.writeServiceDecoder).completed with
      nothing | ⟨zero, _⟩
    · exact nothing
    · exact absurd zero nonzero
  simp [System.isOpen, running, none]

/-- A task that is open after a cycle was open or is loaded in it. -/
theorem CompletionKept.isOpen_next
    (known : CompletionKept sys)
    (promised : sys.WritePromised i)
    (outside : (i.rst || i.mmioResetPulse) = false)
    (decoder : Decoder config) :
    ((sys.step i).isOpen decoder).toNat +
        (sys.completion i decoder).length ≤
      (sys.isOpen decoder).toNat + (assignsTo sys.top decoder).toNat := by
  have top : (sys.step i).top.slots decoder = slotNext sys.top i decoder := by
    simp [System.step, outside, step_slots]
  have log : (sys.step i).tasks decoder = sys.taskNext i decoder := by
    simp [System.step, outside]
  have atMost : (sys.completion i decoder).length ≤
      (sys.isOpen decoder).toNat := by
    unfold System.completion cplFifoPush
    split
    · rename_i served
      split
      · rename_i final
        rw [beq_iff_eq.mp served, known.open_of_final promised final]
        simp
      · simp
    · simp
  cases assigned : assignsTo sys.top decoder with
  | true =>
      have idle := known.slots.assignIdle decoder assigned
      have closed : sys.isOpen decoder = false := by
        simp [System.isOpen, idle]
      rw [closed] at atMost ⊢
      have nothing : (sys.completion i decoder).length = 0 :=
        Nat.le_zero.mp atMost
      rw [nothing]
      cases (sys.step i).isOpen decoder <;> simp
  | false =>
      cases next : (sys.step i).isOpen decoder with
      | false => simpa using atMost
      | true =>
          simp only [System.isOpen, top, log, System.taskNext, assigned,
            slotNext_slotState, Bool.false_eq_true, if_false,
            Bool.and_eq_true, beq_iff_eq, List.isEmpty_iff,
            List.append_eq_nil_iff] at next
          obtain ⟨runs, before, now⟩ := next
          have running : (sys.top.slots decoder).slotState = .run := by
            unfold slotStateLoop at runs
            split at runs
            · exact SlotState.noConfusion runs
            · split at runs <;> simp_all
          simp [System.isOpen, running, before, now]

end Open

/-! ## One cycle -/

section Cycle

variable {config : Config} {board : Board config}
variable {i : DeviceInput config}

/-- Completions open no task, and every other open task was loaded. -/
theorem ReturnPath.open_next
    (known : ReturnPath board)
    (outside : board.device.inReset i = false)
    (promised : board.Promised i) :
    ∑ decoder, ((board.device.step i).sys.isOpen decoder).toNat +
        (board.device.recorded i).length ≤
      ∑ decoder, (board.device.sys.isOpen decoder).toNat +
        (board.device.leaving i).length := by
  have records :
      (board.device.recorded i).length =
        ∑ decoder, (board.device.sys.completion
          (board.device.topInput i) decoder).length := by
    simp only [System.completion, beq_iff_eq, apply_ite List.length,
      List.length_nil, Finset.sum_ite_eq', Finset.mem_univ, if_true]
    unfold Device.recorded
    cases cplFifoPush board.device.sys.top (board.device.topInput i) <;> rfl
  have leaves : (board.device.leaving i).length =
      ∑ decoder, (assignsTo board.device.sys.top decoder).toNat := by
    rw [leaving_eq known.slots outside]
    unfold assignsTo descFifoPop
    cases board.device.sys.top.descAssignValid with
    | false => simp
    | true => simp [Bool.toNat, Bool.cond_eq_ite]
  rw [records, leaves, ← Finset.sum_add_distrib, ← Finset.sum_add_distrib]
  exact Finset.sum_le_sum fun decoder _ =>
    known.toCompletionKept.isOpen_next promised.2 outside decoder

/-- A completion record is never zero. -/
theorem word_ne_zero (record : Completion) : record.word ≠ 0 := by
  have lowest : record.word.getLsbD 0 = true := by
    simp only [Completion.word, BitVec.getLsbD_setWidth,
      BitVec.getLsbD_append]
    rfl
  intro zero
  rw [zero] at lowest
  exact Bool.noConfusion lowest

/-- The FIFO is full when its count has reached the depth. -/
theorem cplFifo_full_iff {fifo : CplFifo config} :
    fifo.full = true ↔ fifo.count.toNat = config.descFifoDepth :=
  RingBuffer.count_full_iff

/-- The FIFO is not empty when it counts a record. -/
theorem cplFifo_empty_eq_false {fifo : CplFifo config} :
    fifo.empty = false ↔ 0 < fifo.count.toNat :=
  RingBuffer.count_empty_eq_false

/-- One cycle drops a popped record and adds a pushed one. -/
theorem cplFifo_next
    {fifo : CplFifo config} {push : Option Completion} {pop : Bool}
    (known : RingBuffer.Consistent fifo.wrPtr fifo.rdPtr fifo.count)
    (room : push.isSome = true → fifo.full = false)
    (present : pop = true → 0 < fifo.count.toNat) :
    RingBuffer.Consistent (fifo.next push pop).wrPtr
        (fifo.next push pop).rdPtr (fifo.next push pop).count ∧
      (fifo.next push pop).queue =
        fifo.queue.drop pop.toNat ++ (push.map Completion.word).toList := by
  have stored : fifo.store push = push := by
    unfold CplFifo.store
    cases push with
    | none => simp
    | some record => simp [room rfl]
  have popped : (pop && !fifo.empty) = pop := by
    cases pop with
    | false => rfl
    | true => simp [cplFifo_empty_eq_false.mpr (present rfl)]
  have space : (push.map Completion.word).isSome = true →
      fifo.count.toNat < 2 ^ config.descFifoDepthLog2 := by
    intro some
    refine Nat.lt_of_le_of_ne known.fits fun full => ?_
    have notFull := room (by simpa using some)
    rw [cplFifo_full_iff.mpr full] at notFull
    exact Bool.noConfusion notFull
  have count : (fifo.next push pop).count =
      RingBuffer.recount fifo.count (push.map Completion.word).isSome
        pop := by
    simp only [CplFifo.next, stored, popped, Option.isSome_map]
    cases push.isSome <;> cases pop <;> rfl
  refine ⟨?_, ?_⟩
  · rw [count]
    simpa [CplFifo.next, stored, popped] using known.next space present
  · rw [CplFifo.queue, count]
    simpa [CplFifo.next, CplFifo.queue, stored, popped] using
      RingBuffer.contents_next fifo.data known space present

/-- Nothing of the completion path is left after a reset. -/
theorem returnPath_start : ReturnPath (.start config) where
  toCompletionKept := completionKept_reset none
  fifo := RingBuffer.consistent_empty
  words := by
    simp [Board.start, Device.start, CplFifo.reset, CplFifo.queue]
  popping := by simp [Board.start, Device.start, ReadPath.reset]
  reading := fun _ => rfl
  counted := by
    simp [Board.start, Board.pending, Board.awaited, Host.start,
      Device.start, ReadPath.reset, CplFifo.reset, CplFifo.queue,
      show ∀ decoder, (System.start config).isOpen decoder = false
        from fun _ => rfl]

/-- A pushed record finds room while few loaded tasks wait for their return. -/
theorem ReturnPath.recordKept
    (known : ReturnPath board)
    (promised : board.Promised i)
    (few : board.FewLoaded i) :
    board.RecordKept i := by
  intro final
  have taskOpen :=
    known.toCompletionKept.open_of_final promised.2 final
  have one : 1 ≤
      ∑ decoder, (board.device.sys.isOpen decoder).toNat := by
    refine le_trans (le_of_eq ?_)
      (Finset.single_le_sum (fun _ _ => Nat.zero_le _)
        (Finset.mem_univ board.device.sys.top.writeServiceDecoder))
    rw [taskOpen, Bool.toNat_true]
  rw [Bool.eq_false_iff, ne_eq, cplFifo_full_iff]
  intro full
  have waiting : config.descFifoDepth ≤ board.pending.length := by
    rw [Board.pending, List.length_append, List.length_drop, CplFifo.queue,
      RingBuffer.length_contents, full]
    cases pops : board.device.read.cplFifoPop with
    | false => simp
    | true =>
        obtain ⟨_, _, asked, nonzero⟩ := known.popping pops
        simp only [Board.awaited, asked, nonzero, ne_eq, not_false_eq_true,
          and_self, if_true, List.length_singleton, Bool.toNat_true]
        omega
  have counted := known.counted
  have few : board.loaded ≤ board.returned + config.descFifoDepth := few
  omega

/-- Outside reset the FIFO drops its popped record and adds the pushed one. -/
theorem ReturnPath.queue_next
    (known : ReturnPath board)
    (outside : board.device.inReset i = false)
    (kept : board.RecordKept i) :
    RingBuffer.Consistent (board.device.step i).cplFifo.wrPtr
        (board.device.step i).cplFifo.rdPtr
        (board.device.step i).cplFifo.count ∧
      (board.device.step i).cplFifo.queue =
        board.device.cplFifo.queue.drop
            board.device.read.cplFifoPop.toNat ++
          board.device.recorded i := by
  have fifo : (board.device.step i).cplFifo =
      board.device.cplFifo.next
        (cplFifoPush board.device.sys.top (board.device.topInput i))
        board.device.read.cplFifoPop := by
    simp [Device.step, outside]
  rw [fifo]
  refine cplFifo_next known.fifo (fun pushed => kept ?_)
    fun popped => (known.popping popped).2.1
  unfold cplFifoPush at pushed
  split at pushed
  · assumption
  · simp at pushed

/-- The front of the FIFO is the word at the read pointer. -/
theorem cplFifo_head
    {fifo : CplFifo config}
    (nonempty : fifo.empty = false) :
    ∃ rest, fifo.queue = fifo.data fifo.rdPtr :: rest :=
  RingBuffer.contents_head (cplFifo_empty_eq_false.mp nonempty)

/-- The read path of a board after a cycle outside reset. -/
theorem read_next
    (outside : board.device.inReset i = false) :
    (board.step i).device = board.device.step i ∧
      (board.step i).host = board.host.next board.device i.axil ∧
      (board.device.step i).read =
        board.device.read.next board.device.write board.device.sys.top
          board.device.cplFifo i.axil := by
  simp [Board.step, Device.step, outside]

/-- A status read that is taken now awaits the front of the FIFO. -/
theorem ReturnPath.pending_taken
    (known : ReturnPath board)
    (outside : board.device.inReset i = false)
    (kept : board.RecordKept i)
    (state : board.device.read.axilRdState = .idle) :
    (board.step i).pending =
      board.device.cplFifo.queue ++ board.device.recorded i := by
  obtain ⟨device, host, read⟩ := read_next outside
  have noPop : board.device.read.cplFifoPop = false := by
    by_contra pops
    have waits := (known.popping (by simpa using pops)).1
    simp [state] at waits
  have queue := (known.queue_next outside kept).2
  rw [noPop, Bool.toNat_false, List.drop_zero] at queue
  rw [Board.pending, Board.awaited, device, host, read, queue]
  cases asked : i.axil.ar with
  | none => simp [Host.next, ReadPath.next, state, asked]
  | some addr =>
      by_cases status : addr = regCplStatus
      · subst status
        cases empty : board.device.cplFifo.empty with
        | true =>
            simp [Host.next, ReadPath.next, state, asked, mmioRead, empty,
              regCplStatus, regDescRscAddr, regDescSrcLen, regDescDstAddr,
              regDescId, regDescFree]
        | false =>
            obtain ⟨rest, front⟩ := cplFifo_head empty
            have nonzero :
                board.device.cplFifo.data board.device.cplFifo.rdPtr ≠
                  0#64 :=
              known.words _ (by simp [front])
            simp only [Host.next, ReadPath.next, state, asked, mmioRead,
              empty]
            simp [front, nonzero, regCplStatus, regDescRscAddr,
              regDescSrcLen, regDescDstAddr, regDescId, regDescFree]
      · have other : (addr == regCplStatus) = false := by
          simp [status]
        simp [Host.next, ReadPath.next, state, asked, status, other]

/-- Outside reset records only move on to the host. -/
theorem ReturnPath.balance
    (known : ReturnPath board)
    (outside : board.device.inReset i = false)
    (kept : board.RecordKept i) :
    board.pending ++ board.device.recorded i =
      board.handedOver i ++ (board.step i).pending := by
  cases state : board.device.read.axilRdState with
  | idle =>
      have notAsked := known.reading state
      have noPop : board.device.read.cplFifoPop = false := by
        by_contra pops
        have waits := (known.popping (by simpa using pops)).1
        simp [state] at waits
      rw [known.pending_taken outside kept state]
      simp [Board.pending, Board.awaited, Board.handedOver, notAsked, noPop]
  | resp =>
      obtain ⟨device, host, read⟩ := read_next outside
      have queue := (known.queue_next outside kept).2
      rw [Board.pending, Board.pending, Board.awaited, Board.awaited,
        Board.handedOver, device, host, read, queue]
      by_cases ready : i.axil.rready = true
      · simp [Host.next, ReadPath.next, state, ready]
      · simp [Host.next, ReadPath.next, state, ready]

/-- A status read in service was taken in the cycle before. -/
theorem ReturnPath.popping_next
    (known : ReturnPath board)
    (outside : board.device.inReset i = false)
    (kept : board.RecordKept i)
    (pops : (board.device.step i).read.cplFifoPop = true) :
    (board.device.step i).read.axilRdState = .resp ∧
      0 < (board.device.step i).cplFifo.count.toNat ∧
      (board.host.next board.device i.axil).reading = some regCplStatus ∧
      (board.device.step i).read.sAxilRdata ≠ 0 := by
  obtain ⟨_, _, read⟩ := read_next outside
  rw [read] at pops ⊢
  cases state : board.device.read.axilRdState with
  | resp => simp [ReadPath.next, state] at pops
  | idle =>
      cases asked : i.axil.ar with
      | none => simp [ReadPath.next, state, asked] at pops
      | some addr =>
          simp only [ReadPath.next, state, asked, Bool.and_eq_true,
            beq_iff_eq, Bool.not_eq_true'] at pops
          obtain ⟨rfl, empty⟩ := pops
          obtain ⟨rest, front⟩ := cplFifo_head empty
          have noPop : board.device.read.cplFifoPop = false := by
            by_contra pops
            have waits := (known.popping (by simpa using pops)).1
            simp [state] at waits
          have length :=
            congrArg List.length (known.queue_next outside kept).2
          rw [noPop, Bool.toNat_false, List.drop_zero, List.length_append,
            front, CplFifo.queue, RingBuffer.length_contents] at length
          refine ⟨by simp [ReadPath.next, state, asked], ?_,
            by simp [Host.next, state, asked], ?_⟩
          · rw [length]
            simp
          · have nonzero := known.words
              (board.device.cplFifo.data board.device.cplFifo.rdPtr)
              (by simp [front])
            simpa [ReadPath.next, state, asked, mmioRead, empty,
              regCplStatus, regDescRscAddr, regDescSrcLen, regDescDstAddr,
              regDescId, regDescFree] using nonzero

/-- One cycle without reset keeps the completion path in agreement. -/
theorem ReturnPath.step
    (known : ReturnPath board)
    (outside : board.NoReset i)
    (promised : board.Promised i)
    (single : board.SingleImage i)
    (few : board.FewLoaded i) :
    ReturnPath (board.step i) := by
  have outside : board.device.inReset i = false := outside
  have kept := known.recordKept promised few
  obtain ⟨device, host, read⟩ := read_next outside
  have queue := known.queue_next outside kept
  refine ⟨?_, ?_, ?_, ?_, ?_, ?_⟩
  · rw [device]
    exact known.toCompletionKept.step promised.2 single
  · rw [device]
    exact queue.1
  · rw [device, queue.2]
    intro word member
    rcases List.mem_append.mp member with before | now
    · exact known.words word (List.mem_of_mem_drop before)
    · simp only [Device.recorded, Option.mem_toList,
        Option.map_eq_some_iff] at now
      obtain ⟨record, _, rfl⟩ := now
      exact word_ne_zero record
  · rw [device, host]
    exact known.popping_next outside kept
  · rw [device, host, read]
    cases state : board.device.read.axilRdState with
    | idle => cases asked : i.axil.ar <;>
        simp [ReadPath.next, Host.next, state, asked]
    | resp => by_cases ready : i.axil.rready = true <;>
        simp [ReadPath.next, Host.next, state, ready]
  · have moved := congrArg List.length (known.balance outside kept)
    rw [List.length_append, List.length_append] at moved
    have opened := known.open_next outside promised
    have counted := known.counted
    have returned : (board.step i).returned =
        board.returned + (board.handedOver i).length := by
      simp [Board.step, outside]
    have loaded : (board.step i).loaded =
        board.loaded + (board.device.leaving i).length := by
      simp [Board.step, outside]
    rw [returned, loaded, device]
    omega

end Cycle

/--
In every run without reset in which each core reports one image per task and
at most as many loaded tasks wait for their return as the completion FIFO has
entries, every completion record finds room, and the records are handed over
by the status reads in completion order, each once; the rest still waits.
-/
theorem records_returned_in_order
    (config : Config)
    (cycles : List (DeviceInput config))
    (noReset : Along Board.step Board.NoReset (Board.start config) cycles)
    (promised : Along Board.step Board.Promised (Board.start config) cycles)
    (single : Along Board.step Board.SingleImage (Board.start config) cycles)
    (few : Along Board.step Board.FewLoaded (Board.start config) cycles) :
    Along Board.step Board.RecordKept (Board.start config) cycles ∧
      observe Board.step (fun board => board.device.recorded)
          (Board.start config) cycles =
        observe Board.step Board.handedOver (Board.start config) cycles ++
          (run Board.step (Board.start config) cycles).pending := by
  have allowed := (noReset.both promised).both (single.both few)
  have preserved (board : Board config) (i : DeviceInput config)
      (known : ReturnPath board)
      (now : (board.NoReset i ∧ board.Promised i) ∧
        board.SingleImage i ∧ board.FewLoaded i) :
      ReturnPath (board.step i) :=
    known.step now.1.1 now.1.2 now.2.1 now.2.2
  refine ⟨along_invariant preserved
    (fun _ _ known now => known.recordKept now.1.2 now.2.2)
    returnPath_start allowed, ?_⟩
  have balance := conserved Board.pending
    (fun board => board.device.recorded) Board.handedOver preserved
    (fun board i known now =>
      known.balance now.1.1 (known.recordKept now.1.2 now.2.2))
    returnPath_start allowed
  have empty : (Board.start config).pending = [] := by
    simp [Board.pending, Board.awaited, Board.start, Host.start,
      Device.start, ReadPath.reset, CplFifo.reset, CplFifo.queue]
  rwa [empty, List.nil_append] at balance

/-- A task of one word is committed, loaded, read, written and completed. -/
def taskCycles (config : Config) : List (DeviceInput config) :=
  writeCycles config regDescCommit 0 ++
    [.quiet config, .quiet config, .ofPins (pixelCycle config),
      .quiet config, .ofPins (readWord config true),
      .ofPins (drainPixel config), .ofPins (statusCycle config)]

/-- The record of a task is handed over by a status read. -/
theorem records_returned_in_order_one :
    let cycles := writeCycles smallConfig regDescSrcLen 4 ++
      taskCycles smallConfig ++ readCycles smallConfig regCplStatus
    Along Board.step Board.RecordKept (Board.start smallConfig) cycles ∧
      observe Board.step (fun board => board.device.recorded)
          (Board.start smallConfig) cycles =
        observe Board.step Board.handedOver (Board.start smallConfig)
            cycles ++
          (run Board.step (Board.start smallConfig) cycles).pending :=
  records_returned_in_order smallConfig _ (by decide +kernel)
    (by decide +kernel) (by decide +kernel) (by decide +kernel)

/-- Two decoders with four-byte words and the default FIFO depth of 16. -/
def deepConfig : Config :=
  { smallConfig with descFifoDepthLog2 := 4 }

/-- Seventeen tasks one after the other, with no status read. -/
def seventeenTasks : List (DeviceInput deepConfig) :=
  writeCycles deepConfig regDescSrcLen 4 ++
    (List.replicate 17 (taskCycles deepConfig)).flatten

/--
Seventeen tasks are completed before the host reads a status: fewer than the
24 the driver may have under way, but the FIFO has 16 entries, and the last
record is dropped.
-/
theorem seventeenth_record_dropped :
    ¬ ∀ config cycles,
      Along Board.step Board.NoReset (Board.start config) cycles →
      Along Board.step Board.Promised (Board.start config) cycles →
      Along Board.step Board.SingleImage (Board.start config) cycles →
      Along Board.step Board.FewOutstanding (Board.start config) cycles →
      Along Board.step Board.RecordKept (Board.start config) cycles := by
  intro claimed
  -- One evaluation of the run serves all conditions.
  have evaluated :
      Along Board.step
          (fun board i =>
            (board.NoReset i ∧ board.Promised i) ∧
              board.SingleImage i ∧ board.FewOutstanding i)
          (Board.start deepConfig) seventeenTasks ∧
        ¬ Along Board.step Board.RecordKept (Board.start deepConfig)
          seventeenTasks := by
    decide +kernel
  obtain ⟨allowed, dropped⟩ := evaluated
  exact dropped (claimed deepConfig seventeenTasks
    (allowed.mono fun _ _ all => all.1.1) (allowed.mono fun _ _ all => all.1.2)
    (allowed.mono fun _ _ all => all.2.1)
    (allowed.mono fun _ _ all => all.2.2))

end CoreJpeg.JpegTop
