import CoreJpeg.TopReturn

namespace CoreJpeg.JpegTop

open Clocked

/-!
# Requests and responses of the read channel

The read path acts on `s_axil_arvalid` alone, while the host sees a request
accepted when `s_axil_arready` is high as well.  This module logs what the
host sees next to what the read path does, and shows when every request that
is accepted has exactly one response.
-/

/-- A request that the read path has taken, with the value it returns. -/
structure TakenRead where
  addr : BitVec 8
  value : BitVec 64
  /-- The value is a record of the completion FIFO. -/
  fromFifo : Bool
  deriving Repr, DecidableEq

/-- What has happened on the read channel. -/
structure ReadLog where
  /-- The addresses of the requests that were accepted. -/
  asked : List (BitVec 8)
  /-- The requests that the read path has taken. -/
  taken : List TakenRead
  /-- The responses that were accepted. -/
  answered : List (BitVec 64)
  /-- The records that have left the completion FIFO for a read. -/
  popped : List (BitVec 64)
  /-- The request that the host presents until it is accepted. -/
  waiting : Option (BitVec 8)
  deriving Repr, DecidableEq

/-- The records among the values that are returned. -/
def recordsOf (reads : List TakenRead) : List (BitVec 64) :=
  (reads.filter TakenRead.fromFifo).map TakenRead.value

namespace Device

variable {config : Config}

/-- `s_axil_arvalid && s_axil_arready`, with the address. -/
def asks (device : Device config) (i : DeviceInput config) :
    List (BitVec 8) :=
  if device.read.sAxilArready then i.axil.ar.toList else []

/-- The read that the read path takes, with the value of its register. -/
def takes (device : Device config) (i : DeviceInput config) :
    List TakenRead :=
  if !device.inReset i && device.read.axilRdState == .idle then
    (i.axil.ar.map fun addr => {
      addr := addr
      value := mmioRead device.write device.sys.top device.cplFifo addr
      fromFifo := addr == regCplStatus && !device.cplFifo.empty }).toList
  else []

/-- `s_axil_rvalid && s_axil_rready`, with the data. -/
def answers (device : Device config) (i : DeviceInput config) :
    List (BitVec 64) :=
  if device.read.sAxilRvalid && i.axil.rready then [device.read.sAxilRdata]
  else []

/-- `cpl_fifo_pop && !cpl_fifo_empty`, with the record at the front. -/
def pops (device : Device config) : List (BitVec 64) :=
  if device.read.cplFifoPop && !device.cplFifo.empty then
    [device.cplFifo.data device.cplFifo.rdPtr]
  else []

end Device

/-- The device with the log of its read channel. -/
structure Reader (config : Config) where
  device : Device config
  log : ReadLog

namespace Reader

variable {config : Config}

/-- A reader after reset. -/
def start (config : Config) : Reader config where
  device := .start config
  log := {
    asked := []
    taken := []
    answered := []
    popped := []
    waiting := none }

/-- One clock edge. -/
def step (reader : Reader config) (i : DeviceInput config) :
    Reader config where
  device := reader.device.step i
  log := {
    asked := reader.log.asked ++ reader.device.asks i
    taken := reader.log.taken ++ reader.device.takes i
    answered := reader.log.answered ++ reader.device.answers i
    popped := reader.log.popped ++ reader.device.pops
    waiting := if reader.device.read.sAxilArready then none else i.axil.ar }

/-! ## Conditions on a cycle -/

/-- `s_axil_arvalid` and the address are held until the request is accepted. -/
def Held (reader : Reader config) (i : DeviceInput config) : Prop :=
  reader.log.waiting ≠ none → i.axil.ar = reader.log.waiting

/--
No request is accepted while the read path answers another one that was
accepted before.
-/
def NotOverrun (reader : Reader config) (i : DeviceInput config) : Prop :=
  reader.device.read.axilRdState = .resp →
    reader.log.asked.length = reader.log.taken.length →
      reader.device.asks i = []

/-- A reset leaves no request that was accepted without its response. -/
def ResetQuiet (reader : Reader config) (i : DeviceInput config) : Prop :=
  reader.device.inReset i = true →
    (reader.log.asked ++ reader.device.asks i).length =
      (reader.log.answered ++ reader.device.answers i).length

instance (reader : Reader config) (i : DeviceInput config) :
    Decidable (reader.Held i) := by
  unfold Held
  infer_instance

instance (reader : Reader config) (i : DeviceInput config) :
    Decidable (reader.NotOverrun i) := by
  unfold NotOverrun
  infer_instance

instance (reader : Reader config) (i : DeviceInput config) :
    Decidable (reader.ResetQuiet i) := by
  unfold ResetQuiet
  infer_instance

end Reader

/--
Every accepted request has one response, in order and with the value of the
register it addresses: all responses but the last one have been accepted, and
that one is presented.  The records that have left the completion FIFO are
the ones that are returned.
-/
structure Answered {config : Config} (reader : Reader config) : Prop where
  requests :
    reader.log.asked <+: reader.log.taken.map TakenRead.addr
  responses :
    reader.log.answered <+: reader.log.taken.map TakenRead.value
  single :
    reader.log.asked.length = reader.log.answered.length ∨
      reader.log.asked.length = reader.log.answered.length + 1 ∧
        reader.device.read.sAxilRvalid = true ∧
          reader.log.taken.map TakenRead.value =
            reader.log.answered ++ [reader.device.read.sAxilRdata]
  records :
    recordsOf reader.log.taken =
      reader.log.popped ++
        if reader.device.read.cplFifoPop then
          [reader.device.read.sAxilRdata]
        else []

/-! ## The invariant -/

section Invariant

variable {config : Config} {reader : Reader config}
variable {i : DeviceInput config}

/-- The read path waits for a request. -/
structure Idle (reader : Reader config) : Prop where
  state : reader.device.read.axilRdState = .idle
  noResponse : reader.device.read.sAxilRvalid = false
  noPop : reader.device.read.cplFifoPop = false
  asked : reader.log.asked = reader.log.taken.map TakenRead.addr
  answered : reader.log.answered = reader.log.taken.map TakenRead.value
  popped : reader.log.popped = recordsOf reader.log.taken

/-- The read path presents the response to the last read that it has taken. -/
structure Responds (reader : Reader config) (earlier : List TakenRead)
    (last : TakenRead) : Prop where
  state : reader.device.read.axilRdState = .resp
  response : reader.device.read.sAxilRvalid = true
  value : reader.device.read.sAxilRdata = last.value
  taken : reader.log.taken = earlier ++ [last]
  answered : reader.log.answered = earlier.map TakenRead.value
  asked :
    reader.log.asked = reader.log.taken.map TakenRead.addr ∨
      reader.device.read.sAxilArready = true ∧
        reader.log.asked = earlier.map TakenRead.addr ∧
          reader.log.waiting = some last.addr
  popped :
    if reader.device.read.cplFifoPop = true then
      last.fromFifo = true ∧ reader.log.popped = recordsOf earlier ∧
        reader.device.cplFifo.empty = false ∧
          reader.device.cplFifo.data reader.device.cplFifo.rdPtr = last.value
    else reader.log.popped = recordsOf reader.log.taken

/-- The read path, the completion FIFO and the log agree. -/
structure Reading (reader : Reader config) : Prop where
  fifo :
    RingBuffer.Consistent reader.device.cplFifo.wrPtr
      reader.device.cplFifo.rdPtr reader.device.cplFifo.count
  path : Idle reader ∨ ∃ earlier last, Responds reader earlier last

theorem recordsOf_append (first second : List TakenRead) :
    recordsOf (first ++ second) = recordsOf first ++ recordsOf second := by
  simp [recordsOf]

theorem reading_start : Reading (.start config) where
  fifo := RingBuffer.consistent_empty
  path := .inl ⟨rfl, rfl, rfl, rfl, rfl, rfl⟩

/-- The invariant says what the host sees. -/
theorem Reading.answered
    (reading : Reading reader) :
    Answered reader := by
  rcases reading.path with idle | ⟨earlier, last, responds⟩
  · refine ⟨?_, ?_, .inl ?_, ?_⟩
    · rw [idle.asked]
    · rw [idle.answered]
    · rw [idle.asked, idle.answered, List.length_map, List.length_map]
    · simp [idle.popped, idle.noPop]
  · have values : reader.log.taken.map TakenRead.value =
        reader.log.answered ++ [reader.device.read.sAxilRdata] := by
      simp [responds.taken, responds.answered, responds.value]
    refine ⟨?_, ?_, ?_, ?_⟩
    · rcases responds.asked with all | ⟨-, before, -⟩
      · rw [all]
      · rw [before, responds.taken, List.map_append]
        exact List.prefix_append _ _
    · rw [values]
      exact List.prefix_append _ _
    · rcases responds.asked with all | ⟨-, before, -⟩
      · refine .inr ⟨?_, responds.response, values⟩
        simp [all, responds.taken, responds.answered]
      · refine .inl ?_
        simp [before, responds.answered]
    · have popped := responds.popped
      split at popped
      next pops =>
        obtain ⟨isRecord, before, -, -⟩ := popped
        rw [if_pos pops, before, responds.taken, responds.value,
          recordsOf_append]
        simp [recordsOf, isRecord]
      next stays =>
        rw [if_neg stays, popped, List.append_nil]

/-! ## The completion FIFO -/

/-- A record that finds no room is not stored. -/
theorem cplFifo_stored
    (fifo : CplFifo config) (push : Option Completion) (pop : Bool) :
    fifo.next push pop = fifo.next (fifo.store push) pop ∧
      ((fifo.store push).isSome = true → fifo.full = false) := by
  cases isFull : fifo.full with
  | false =>
      have all : fifo.store push = push := by
        simp [CplFifo.store, isFull]
      rw [all]
      exact ⟨rfl, fun _ => rfl⟩
  | true =>
      have none (push : Option Completion) : fifo.store push = none := by
        simp [CplFifo.store, isFull]
      refine ⟨?_, ?_⟩
      · simp [CplFifo.next, none]
      · simp [none]

/-- A record at the front stays there until it is popped. -/
theorem cplFifo_front
    {fifo : CplFifo config} (push : Option Completion)
    (known : RingBuffer.Consistent fifo.wrPtr fifo.rdPtr fifo.count)
    (nonempty : fifo.empty = false) :
    (fifo.next push false).empty = false ∧
      (fifo.next push false).data (fifo.next push false).rdPtr =
        fifo.data fifo.rdPtr := by
  obtain ⟨stored, room⟩ := cplFifo_stored fifo push false
  obtain ⟨-, queue⟩ := @cplFifo_next _ fifo _ false known room (by simp)
  obtain ⟨rest, front⟩ := cplFifo_head nonempty
  rw [← stored, front] at queue
  have stays : (fifo.next push false).empty = false := by
    rw [cplFifo_empty_eq_false]
    have length := congrArg List.length queue
    simp only [CplFifo.queue, RingBuffer.length_contents] at length
    simp at length
    omega
  obtain ⟨later, isFront⟩ := cplFifo_head stays
  rw [isFront] at queue
  exact ⟨stays, (List.cons.inj queue).1⟩

/-- The pointers of the completion FIFO stay consistent. -/
theorem Reading.fifo_next
    (reading : Reading reader) :
    RingBuffer.Consistent (reader.device.step i).cplFifo.wrPtr
      (reader.device.step i).cplFifo.rdPtr
      (reader.device.step i).cplFifo.count := by
  have present :
      reader.device.read.cplFifoPop = true →
        0 < reader.device.cplFifo.count.toNat := by
    intro pops
    rw [← cplFifo_empty_eq_false]
    rcases reading.path with idle | ⟨earlier, last, responds⟩
    · rw [idle.noPop] at pops
      cases pops
    · have popped := responds.popped
      rw [if_pos pops] at popped
      exact popped.2.2.1
  rw [Device.step]
  simp only
  split
  · exact RingBuffer.consistent_empty
  · obtain ⟨stored, room⟩ :=
      cplFifo_stored reader.device.cplFifo
        (cplFifoPush reader.device.sys.top (reader.device.topInput i))
        reader.device.read.cplFifoPop
    rw [stored]
    exact (cplFifo_next reading.fifo room present).1

/-! ## One cycle -/

/-- The read path and the FIFO after a cycle outside reset. -/
theorem device_step
    (outside : reader.device.inReset i = false) :
    (reader.device.step i).read =
        reader.device.read.next reader.device.write reader.device.sys.top
          reader.device.cplFifo i.axil ∧
      (reader.device.step i).cplFifo =
        reader.device.cplFifo.next
          (cplFifoPush reader.device.sys.top (reader.device.topInput i))
          reader.device.read.cplFifoPop := by
  simp [Device.step, outside]

/-- A read path that waits takes the request that is presented. -/
theorem Idle.step
    (idle : Idle reader)
    (known : RingBuffer.Consistent reader.device.cplFifo.wrPtr
      reader.device.cplFifo.rdPtr reader.device.cplFifo.count)
    (outside : reader.device.inReset i = false) :
    Idle (reader.step i) ∨
      ∃ earlier last, Responds (reader.step i) earlier last := by
  obtain ⟨read, fifo⟩ := device_step outside
  have noAnswer : reader.device.answers i = [] := by
    simp [Device.answers, idle.noResponse]
  have noPop : reader.device.pops = [] := by
    simp [Device.pops, idle.noPop]
  cases presented : i.axil.ar with
  | none =>
      have noRequest : reader.device.asks i = [] := by
        simp [Device.asks, presented]
      have notTaken : reader.device.takes i = [] := by
        simp [Device.takes, presented]
      have same : (reader.device.step i).read = { reader.device.read with
          sAxilArready := true
          sAxilRvalid := false
          cplFifoPop := false } := by
        simp only [read, ReadPath.next, idle.state, presented]
      left
      refine ⟨?_, ?_, ?_, ?_, ?_, ?_⟩
      · simp only [Reader.step, same, idle.state]
      · simp only [Reader.step, same]
      · simp only [Reader.step, same]
      · simp only [Reader.step, noRequest, notTaken, List.append_nil,
          idle.asked]
      · simp only [Reader.step, noAnswer, notTaken, List.append_nil,
          idle.answered]
      · simp only [Reader.step, noPop, notTaken, List.append_nil,
          idle.popped]
  | some addr =>
      generalize isValue :
        mmioRead reader.device.write reader.device.sys.top
          reader.device.cplFifo addr = value at read
      generalize isRecord :
        (addr == regCplStatus && !reader.device.cplFifo.empty) = record
      have taken : reader.device.takes i = [⟨addr, value, record⟩] := by
        simp [Device.takes, outside, idle.state, presented, isValue, isRecord]
      have next : (reader.device.step i).read = {
          sAxilArready := true
          sAxilRdata := value
          sAxilRvalid := true
          axilRdState := .resp
          cplFifoPop := record } := by
        simp only [read, ReadPath.next, idle.state, presented, isValue,
          isRecord]
      right
      refine ⟨reader.log.taken, ⟨addr, value, record⟩,
        ?_, ?_, ?_, ?_, ?_, ?_, ?_⟩
      · simp only [Reader.step, next]
      · simp only [Reader.step, next]
      · simp only [Reader.step, next]
      · simp only [Reader.step, taken]
      · simp only [Reader.step, noAnswer, List.append_nil, idle.answered]
      · cases ready : reader.device.read.sAxilArready with
        | true =>
            left
            simp [Reader.step, Device.asks, ready, presented, taken,
              idle.asked]
        | false =>
            right
            simp [Reader.step, Device.asks, ready, presented, next,
              idle.asked]
      · simp only [Reader.step, next, noPop, List.append_nil, taken]
        cases record with
        | false =>
            simp [idle.popped, recordsOf]
        | true =>
            simp only [Bool.and_eq_true, beq_iff_eq, Bool.not_eq_true']
              at isRecord
            obtain ⟨isStatus, nonempty⟩ := isRecord
            rw [idle.noPop] at fifo
            obtain ⟨stays, front⟩ := cplFifo_front _ known nonempty
            rw [if_pos rfl, fifo, stays, front]
            refine ⟨rfl, idle.popped, rfl, ?_⟩
            rw [← isValue, isStatus]
            simp [mmioRead, nonempty, regCplStatus, regDescRscAddr,
              regDescSrcLen, regDescDstAddr, regDescId, regDescFree]

/-- What a cycle of a read path that responds adds to the log. -/
theorem Responds.log_next
    {earlier : List TakenRead} {last : TakenRead}
    (responds : Responds reader earlier last)
    (held : reader.Held i)
    (notOverrun : reader.NotOverrun i) :
    (reader.step i).log.taken = reader.log.taken ∧
      (reader.step i).log.asked =
        reader.log.taken.map TakenRead.addr ∧
      (reader.step i).log.answered =
        (if i.axil.rready = true then reader.log.taken else earlier).map
          TakenRead.value ∧
      (reader.step i).log.popped = recordsOf reader.log.taken := by
  refine ⟨?_, ?_, ?_, ?_⟩
  · simp [Reader.step, Device.takes, responds.state]
  · rcases responds.asked with all | ⟨ready, before, waiting⟩
    · have none := notOverrun responds.state (by simp [all])
      simp only [Reader.step, none, all, List.append_nil]
    · have presented : i.axil.ar = some last.addr := by
        rw [held (by simp [waiting]), waiting]
      simp [Reader.step, Device.asks, ready, presented, before,
        responds.taken]
  · cases accepted : i.axil.rready with
    | false =>
        simp [Reader.step, Device.answers, accepted, responds.answered]
    | true =>
        simp [Reader.step, Device.answers, accepted, responds.response,
          responds.answered, responds.taken, responds.value]
  · have popped := responds.popped
    split at popped
    next pops =>
      obtain ⟨isRecord, before, nonempty, front⟩ := popped
      simp [Reader.step, Device.pops, pops, nonempty, front, before,
        responds.taken, recordsOf, isRecord]
    next stays =>
      simp [Reader.step, Device.pops, stays, popped]

/-- A response is presented until it is accepted. -/
theorem Responds.step
    {earlier : List TakenRead} {last : TakenRead}
    (responds : Responds reader earlier last)
    (held : reader.Held i)
    (notOverrun : reader.NotOverrun i)
    (outside : reader.device.inReset i = false) :
    Idle (reader.step i) ∨
      ∃ earlier last, Responds (reader.step i) earlier last := by
  obtain ⟨read, -⟩ := device_step outside
  obtain ⟨taken, asked, answered, popped⟩ :=
    responds.log_next held notOverrun
  have next : (reader.device.step i).read = { reader.device.read with
      sAxilArready := false
      sAxilRvalid := !i.axil.rready
      axilRdState := if i.axil.rready then .idle else .resp
      cplFifoPop := false } := by
    simp [read, ReadPath.next, responds.state, responds.response]
  cases accepted : i.axil.rready with
  | true =>
      rw [accepted] at answered next
      left
      refine ⟨?_, ?_, ?_, ?_, ?_, ?_⟩
      · simp [Reader.step, next]
      · simp [Reader.step, next]
      · simp [Reader.step, next]
      · rw [asked, taken]
      · rw [answered, taken, if_pos rfl]
      · rw [popped, taken]
  | false =>
      rw [accepted] at answered next
      right
      refine ⟨earlier, last, ?_, ?_, ?_, ?_, ?_, .inl ?_, ?_⟩
      · simp [Reader.step, next]
      · simp [Reader.step, next]
      · simp [Reader.step, next, responds.value]
      · rw [taken, responds.taken]
      · rw [answered]
        rfl
      · rw [asked, taken]
      · rw [popped, taken]
        simp [Reader.step, next]

/-- A quiet reset leaves the read path idle and the log complete. -/
theorem Reading.reset
    (reading : Reading reader)
    (held : reader.Held i)
    (notOverrun : reader.NotOverrun i)
    (quiet : reader.ResetQuiet i)
    (inside : reader.device.inReset i = true) :
    Idle (reader.step i) := by
  have counted := quiet inside
  have next : (reader.device.step i).read = .reset := by
    simp [Device.step, inside]
  rcases reading.path with idle | ⟨earlier, last, responds⟩
  · have taken : reader.device.takes i = [] := by
      simp [Device.takes, inside]
    have answered : reader.device.answers i = [] := by
      simp [Device.answers, idle.noResponse]
    have popped : reader.device.pops = [] := by
      simp [Device.pops, idle.noPop]
    have asked : reader.device.asks i = [] := by
      rw [idle.asked, idle.answered, answered] at counted
      rw [← List.length_eq_zero_iff]
      simp only [List.length_append, List.length_map, List.length_nil]
        at counted
      omega
    refine ⟨?_, ?_, ?_, ?_, ?_, ?_⟩
    · simp [Reader.step, next, ReadPath.reset]
    · simp [Reader.step, next, ReadPath.reset]
    · simp [Reader.step, next, ReadPath.reset]
    · simp [Reader.step, asked, taken, idle.asked]
    · simp [Reader.step, answered, taken, idle.answered]
    · simp [Reader.step, popped, taken, idle.popped]
  · obtain ⟨taken, asked, answered, popped⟩ :=
      responds.log_next held notOverrun
    refine ⟨?_, ?_, ?_, ?_, ?_, ?_⟩
    · simp [Reader.step, next, ReadPath.reset]
    · simp [Reader.step, next, ReadPath.reset]
    · simp [Reader.step, next, ReadPath.reset]
    · rw [asked, taken]
    · change (reader.step i).log.asked.length =
        (reader.step i).log.answered.length at counted
      rw [asked, answered] at counted
      rw [answered, taken]
      split at counted
      next => rw [if_pos (by assumption)]
      next =>
        simp [responds.taken] at counted
    · rw [popped, taken]

theorem Reading.step
    (reading : Reading reader)
    (held : reader.Held i)
    (notOverrun : reader.NotOverrun i)
    (quiet : reader.ResetQuiet i) :
    Reading (reader.step i) := by
  refine ⟨reading.fifo_next, ?_⟩
  cases isReset : reader.device.inReset i with
  | true =>
      exact .inl (reading.reset held notOverrun quiet isReset)
  | false =>
      rcases reading.path with idle | ⟨earlier, last, responds⟩
      · exact idle.step reading.fifo isReset
      · exact responds.step held notOverrun isReset

/-! ## Every run -/

/-- A second request that is accepted is not among the reads. -/
theorem Answered.notOverrun
    (after : Answered (reader.step i)) :
    reader.NotOverrun i := by
  intro state all
  have requests := after.requests.length_le
  simp only [Reader.step, Device.takes, state, List.length_append,
    List.length_map] at requests
  rw [← List.length_eq_zero_iff]
  simp at requests
  omega

/-- After a reset there is no response to present. -/
theorem Answered.resetQuiet
    (after : Answered (reader.step i)) :
    reader.ResetQuiet i := by
  intro inside
  have noResponse : (reader.step i).device.read.sAxilRvalid = false := by
    simp [Reader.step, Device.step, inside, ReadPath.reset]
  rcases after.single with all | ⟨-, response, -⟩
  · exact all
  · rw [noResponse] at response
    cases response

/--
A host that holds its requests gets exactly one response to each of them if
and only if it has no request accepted while an earlier one is answered, and
no reset comes between a request and its response.
-/
theorem reads_answered_iff
    (config : Config)
    (cycles : List (DeviceInput config))
    (held : Along Reader.step Reader.Held (.start config) cycles) :
    Along Reader.step (fun reader i => Answered (reader.step i))
        (.start config) cycles ↔
      Along Reader.step
        (fun reader i => reader.NotOverrun i ∧ reader.ResetQuiet i)
        (.start config) cycles := by
  constructor
  · intro answered
    exact answered.mono fun reader i after =>
      ⟨after.notOverrun, after.resetQuiet⟩
  · intro allowed
    exact along_invariant
      (fun reader i reading allowed =>
        Reading.step reading allowed.1 allowed.2.1 allowed.2.2)
      (fun reader i reading allowed =>
        (reading.step allowed.1 allowed.2.1 allowed.2.2).answered)
      reading_start (held.both allowed)

end Invariant

/-! ## Two requests -/

/-- A read of the free descriptors, a reset and a read of the status. -/
def separateReads (config : Config) : List (DeviceInput config) :=
  .quiet config :: readCycles config regDescFree ++
    writeCycles config regReset 1 ++ [.quiet config, .quiet config] ++
    readCycles config regCplStatus

/-- Requests that wait for each other are answered. -/
theorem reads_answered_separate :
    Along Reader.step (fun reader i => Answered (reader.step i))
      (.start smallConfig) (separateReads smallConfig) :=
  (reads_answered_iff smallConfig (separateReads smallConfig)
    (by decide +kernel)).mpr (by decide +kernel)

/-- Two requests in consecutive cycles, after a cycle without one. -/
def consecutiveReads (config : Config) : List (DeviceInput config) :=
  .quiet config :: (readCycles config regDescFree).take 1 ++
    (readCycles config regCplStatus).take 1

/-- A request in the cycle behind an accepted one is never answered. -/
theorem second_read_unanswered :
    ¬ ∀ config cycles,
      Along Reader.step Reader.Held (.start config) cycles →
      Along Reader.step (fun reader i => Answered (reader.step i))
        (.start config) cycles := by
  intro claimed
  have answered :=
    claimed smallConfig (consecutiveReads smallConfig) (by decide +kernel)
  have both := answered.2.2.1.requests.length_le
  exact absurd both (by decide +kernel)

end CoreJpeg.JpegTop
