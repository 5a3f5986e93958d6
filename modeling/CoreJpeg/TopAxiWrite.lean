import CoreJpeg.TopReturn

namespace CoreJpeg.JpegTop

open Clocked

/-!
# Addresses, data and responses of the write channels

Addresses and data come in on two channels that do not wait for each other.
This module says what a sequence of writes does to a register file, logs what
is seen on the channels of the device, and shows that the device applies the
`i`-th address with the `i`-th data, each pair once and in order.
-/

/-! ## A register file -/

/-- The registers that a write can name. -/
inductive Register where
  | srcAddr
  | srcLen
  | dstAddr
  | id
  | commit
  | reset
  | clockGateEnable
  deriving Repr, DecidableEq

/-- The register at an address, if there is one that is written. -/
def register? (addr : BitVec 8) : Option Register :=
  if addr = regDescRscAddr then some .srcAddr
  else if addr = regDescSrcLen then some .srcLen
  else if addr = regDescDstAddr then some .dstAddr
  else if addr = regDescId then some .id
  else if addr = regDescCommit then some .commit
  else if addr = regReset then some .reset
  else if addr = regClockGateEnable then some .clockGateEnable
  else none

/-- One write: an address with its data and byte strobes. -/
structure MmioWrite where
  addr : BitVec 8
  data : BitVec 64
  strobe : BitVec 8
  deriving Repr, DecidableEq

/-- A register whose strobed bytes are replaced. -/
def writeBytes {width : Nat} (register : BitVec width) (write : MmioWrite) :
    BitVec width :=
  let bits := (List.range width).map fun bit =>
    if write.strobe.getLsbD (bit / 8) then write.data.getLsbD bit
    else register.getLsbD bit
  (BitVec.ofBoolListLE bits).setWidth width

/-- What the host can change, with everything it has set off so far. -/
structure RegisterFile where
  descriptor : Descriptor
  clockGateEnable : Bool
  /-- The descriptors that were committed while there was room. -/
  pushed : List Descriptor
  /-- How often a reset was asked for. -/
  resets : Nat

/-- The registers after power-on. -/
def RegisterFile.start : RegisterFile where
  descriptor := { srcAddr := 0, srcLen := 0, dstAddr := 0, id := 0 }
  clockGateEnable := false
  pushed := []
  resets := 0

/-- One write, with whether the descriptor FIFO is full at that moment. -/
def RegisterFile.apply (file : RegisterFile)
    (request : MmioWrite × Bool) : RegisterFile :=
  let write := request.1
  let descriptor := file.descriptor
  match register? write.addr with
  | some .srcAddr => { file with
      descriptor.srcAddr := writeBytes descriptor.srcAddr write }
  | some .srcLen => { file with
      descriptor.srcLen := writeBytes descriptor.srcLen write }
  | some .dstAddr => { file with
      descriptor.dstAddr := writeBytes descriptor.dstAddr write }
  | some .id => { file with
      descriptor.id := writeBytes descriptor.id write }
  | some .commit => { file with
      pushed := if request.2 then file.pushed
        else file.pushed ++ [descriptor] }
  | some .reset => { file with
      resets := if write.data = 0 then file.resets else file.resets + 1 }
  | some .clockGateEnable => { file with
      clockGateEnable := (writeBytes (BitVec.ofBool file.clockGateEnable)
        write).getLsbD 0 }
  | none => file

/-- The registers after a sequence of writes. -/
def RegisterFile.after (requests : List (MmioWrite × Bool)) : RegisterFile :=
  requests.foldl RegisterFile.apply .start

/-! ## What is seen on the channels -/

/-- What has happened on the write channels since the last `rst`. -/
structure WriteLog where
  /-- The addresses that were accepted. -/
  addresses : List (BitVec 8)
  /-- The data that were accepted, with their strobes. -/
  data : List (BitVec 64 × BitVec 8)
  /-- `desc_fifo_full` at every write that was applied. -/
  full : List Bool
  /-- The responses that were accepted. -/
  responses : Nat
  /-- The descriptors that `desc_fifo_push` has presented. -/
  pushed : List Descriptor
  /-- The cycles with `mmio_reset_pulse`. -/
  resets : Nat

/-- Nothing has happened. -/
def WriteLog.empty : WriteLog where
  addresses := []
  data := []
  full := []
  responses := 0
  pushed := []
  resets := 0

/-- The `i`-th address with the `i`-th data, in the order of acceptance. -/
def WriteLog.pairs (log : WriteLog) : List MmioWrite :=
  List.zipWith (fun addr data => ⟨addr, data.1, data.2⟩)
    log.addresses log.data

/-- The device with the log of its write channels. -/
structure Writer (config : Config) where
  device : Device config
  log : WriteLog

namespace Writer

variable {config : Config}

/-- A writer after reset. -/
def start (config : Config) : Writer config where
  device := .start config
  log := .empty

/-- One clock edge. -/
def step (writer : Writer config) (i : DeviceInput config) :
    Writer config where
  device := writer.device.step i
  log :=
    if i.pins.rst then .empty
    else
      let path := writer.device.write
      { addresses := writer.log.addresses ++
          (path.takesAddress i.pins.rst i.axil).toList
        data := writer.log.data ++
          (path.takesData i.pins.rst i.axil).toList
        full :=
          if path.executes then
            writer.log.full ++ [descFifoFull writer.device.sys.top]
          else writer.log.full
        responses :=
          if path.sAxilBvalid && i.axil.bready then writer.log.responses + 1
          else writer.log.responses
        pushed :=
          if path.descFifoPush then
            writer.log.pushed ++ [path.descriptor]
          else writer.log.pushed
        resets :=
          if path.mmioResetPulse then writer.log.resets + 1
          else writer.log.resets }

end Writer

/--
The registers are those after the pairs applied so far, every pulse of a
commit or a reset write is given or has been given, and every write applied
has its response, given or presented.
-/
structure Applied {config : Config} (writer : Writer config) : Prop where
  descriptor :
    writer.device.write.descriptor =
      (RegisterFile.after (writer.log.pairs.zip writer.log.full)).descriptor
  clockGateEnable :
    writer.device.write.mmioClkGateEnableReg =
      (RegisterFile.after
        (writer.log.pairs.zip writer.log.full)).clockGateEnable
  pushed :
    (RegisterFile.after (writer.log.pairs.zip writer.log.full)).pushed =
      writer.log.pushed ++
        if writer.device.write.descFifoPush then
          [writer.device.write.descriptor]
        else []
  resets :
    (RegisterFile.after (writer.log.pairs.zip writer.log.full)).resets =
      writer.log.resets + writer.device.write.mmioResetPulse.toNat
  /-- Only accepted writes are applied. -/
  accepted : writer.log.full.length ≤ writer.log.pairs.length
  responses :
    writer.log.full.length =
      writer.log.responses + writer.device.write.sAxilBvalid.toNat

/--
No write waits without end: an accepted pair is applied in the next cycle, a
response stays until it is accepted, and with all responses accepted both
channels that have no half of a pair are open.
-/
structure Proceeds {config : Config} (writer : Writer config)
    (i : DeviceInput config) : Prop where
  applies :
    i.pins.rst = false →
      writer.log.full.length < writer.log.pairs.length →
        (writer.step i).log.full.length = writer.log.full.length + 1
  responds :
    i.pins.rst = false → writer.device.write.sAxilBvalid = true →
      i.axil.bready = false →
        (writer.step i).device.write.sAxilBvalid = true
  takesAddress :
    i.pins.rst = false →
      writer.log.addresses.length = writer.log.responses →
        writer.device.write.takesAddress i.pins.rst i.axil = i.axil.aw
  takesData :
    i.pins.rst = false →
      writer.log.data.length = writer.log.responses →
        writer.device.write.takesData i.pins.rst i.axil = i.axil.w

/-! ## Byte strobes -/

/-- The mask of the first `count` byte lanes. -/
theorem strobeMask_bit_of_range
    (strobe : BitVec 8)
    (count bit : Nat)
    (inWord : bit < 64) :
    ((List.range count).foldl
        (fun mask byte =>
          if strobe.getLsbD byte then mask ||| (0xFF <<< (8 * byte))
          else mask)
        0 : BitVec 64).getLsbD bit =
      (decide (bit / 8 < count) && strobe.getLsbD (bit / 8)) := by
  induction count with
  | zero =>
      simp
  | succ count inductionHypothesis =>
      have lane :
          ((0xFF <<< (8 * count) : Nat) : BitVec 64).getLsbD bit =
            decide (bit / 8 = count) := by
        have ones : 0xFF = 2 ^ 8 - 1 := rfl
        rw [BitVec.natCast_eq_ofNat, BitVec.getLsbD_ofNat,
          Nat.testBit_shiftLeft, ones, Nat.testBit_two_pow_sub_one,
          Bool.eq_iff_iff]
        simp only [inWord, decide_true, Bool.true_and, Bool.and_eq_true,
          decide_eq_true_eq]
        omega
      rw [List.range_succ, List.foldl_append, List.foldl_cons, List.foldl_nil]
      split
      · rename_i selected
        rw [BitVec.getLsbD_or, inductionHypothesis, lane]
        by_cases isLane : bit / 8 = count
        · simp [isLane, selected]
        · have bound : bit / 8 < count + 1 ↔ bit / 8 < count := by omega
          simp [isLane, bound]
      · rename_i notSelected
        rw [inductionHypothesis]
        by_cases isLane : bit / 8 = count
        · simp [isLane, notSelected]
        · have bound : bit / 8 < count + 1 ↔ bit / 8 < count := by omega
          simp [bound]

theorem strobeMask_bit
    (strobe : BitVec 8)
    {bit : Nat}
    (inWord : bit < 64) :
    (strobeMask strobe).getLsbD bit = strobe.getLsbD (bit / 8) := by
  rw [strobeMask, strobeMask_bit_of_range strobe 8 bit inWord]
  have lane : bit / 8 < 8 := by omega
  simp [lane]

theorem writeBytes_bit
    {width : Nat}
    (register : BitVec width)
    (write : MmioWrite)
    {bit : Nat}
    (inRegister : bit < width) :
    (writeBytes register write).getLsbD bit =
      if write.strobe.getLsbD (bit / 8) then write.data.getLsbD bit
      else register.getLsbD bit := by
  rw [writeBytes, BitVec.getLsbD_setWidth, BitVec.getLsbD_ofBoolListLE]
  simp [inRegister, List.getD_eq_getElem?_getD]

/-- The write in hold. -/
def WritePath.held (path : WritePath) : MmioWrite where
  addr := path.awaddrHold
  data := path.wdataHold
  strobe := path.wstrbHold

/-- The masks of the write path replace the strobed bytes. -/
theorem strobed_eq
    {width : Nat}
    (fits : width ≤ 64)
    (register : BitVec width)
    (path : WritePath) :
    strobed register path = writeBytes register path.held := by
  apply BitVec.eq_of_getLsbD_eq
  intro bit inRegister
  have mask := strobeMask_bit path.wstrbHold (Nat.lt_of_lt_of_le inRegister fits)
  rw [writeBytes_bit _ _ inRegister]
  simp only [strobed, WritePath.held, BitVec.getLsbD_or,
    BitVec.getLsbD_and, BitVec.getLsbD_not, BitVec.getLsbD_setWidth,
    inRegister, mask, decide_true, Bool.true_and]
  by_cases selected : path.wstrbHold.getLsbD (bit / 8) = true
  · simp [selected]
  · simp [selected]

/-! ## One write -/

section Invariant

variable {config : Config} {writer : Writer config}
variable {i : DeviceInput config}

/-- The registers and pulses of a write path are those of a register file. -/
structure Represents (path : WritePath) (file : RegisterFile)
    (pushed : List Descriptor) (resets : Nat) : Prop where
  descriptor : path.descriptor = file.descriptor
  clockGateEnable : path.mmioClkGateEnableReg = file.clockGateEnable
  pushed :
    file.pushed =
      pushed ++ if path.descFifoPush then [path.descriptor] else []
  resets : file.resets = resets + path.mmioResetPulse.toNat

/-- The write in hold by the register it names. -/
theorem executed_eq
    (path : WritePath)
    (full : Bool) :
    path.executed full =
      match register? path.awaddrHold with
      | some .srcAddr => { path with
          mmioDescSrcAddrReg := writeBytes path.mmioDescSrcAddrReg path.held }
      | some .srcLen => { path with
          mmioDescSrcLenReg := writeBytes path.mmioDescSrcLenReg path.held }
      | some .dstAddr => { path with
          mmioDescDstAddrReg := writeBytes path.mmioDescDstAddrReg path.held }
      | some .id => { path with
          mmioDescIdReg := writeBytes path.mmioDescIdReg path.held }
      | some .commit => { path with descFifoPush := !full }
      | some .reset => { path with
          mmioResetPulse := path.wdataHold != 0 }
      | some .clockGateEnable => { path with
          mmioClkGateEnableReg :=
            (writeBytes (BitVec.ofBool path.mmioClkGateEnableReg)
              path.held).getLsbD 0 }
      | none => path := by
  have gate :
      (if path.wstrbHold.getLsbD 0 = true then path.wdataHold.getLsbD 0
        else path.mmioClkGateEnableReg) =
        (writeBytes (BitVec.ofBool path.mmioClkGateEnableReg)
          path.held).getLsbD 0 := by
    rw [writeBytes_bit _ _ (by decide)]
    simp [WritePath.held]
  unfold WritePath.executed register?
  rw [strobed_eq (by decide), strobed_eq (by decide), strobed_eq (by decide),
    strobed_eq (by decide), gate]
  simp only
  split_ifs <;> rfl

/-- Executing the write in hold applies it to the register file. -/
theorem Represents.executed
    {path : WritePath}
    {file : RegisterFile}
    {pushed : List Descriptor}
    {resets : Nat}
    (same : Represents path file pushed resets)
    (noPush : path.descFifoPush = false)
    (noReset : path.mmioResetPulse = false)
    (full : Bool) :
    Represents (path.executed full) (file.apply (path.held, full))
      pushed resets := by
  obtain ⟨descriptor, clockGateEnable, pushes, asked⟩ := same
  simp only [noPush, noReset, Bool.false_eq_true, if_false, List.append_nil,
    Bool.toNat_false, Nat.add_zero] at pushes asked
  have named : register? path.held.addr = register? path.awaddrHold := rfl
  rw [executed_eq]
  unfold RegisterFile.apply
  simp only [named, ← descriptor, ← clockGateEnable]
  cases register? path.awaddrHold with
  | none =>
      exact {
        descriptor := descriptor
        clockGateEnable := clockGateEnable
        pushed := by simp [noPush, pushes]
        resets := by simp [noReset, asked] }
  | some register =>
      cases register with
      | commit =>
          exact {
            descriptor := rfl
            clockGateEnable := rfl
            pushed := by cases full <;> simp [pushes, WritePath.descriptor]
            resets := by simp [noReset, asked] }
      | reset =>
          exact {
            descriptor := rfl
            clockGateEnable := rfl
            pushed := by simp [noPush, pushes]
            resets := by
              by_cases quiet : path.wdataHold = 0#64
              · simp [WritePath.held, quiet, asked]
              · have pulse : (path.wdataHold != 0#64) = true := by
                  simpa using quiet
                simp [WritePath.held, quiet, pulse, asked] }
      | srcAddr | srcLen | dstAddr | id | clockGateEnable =>
          exact {
            descriptor := rfl
            clockGateEnable := rfl
            pushed := by simp [noPush, pushes]
            resets := by simp [noReset, asked] }

/-- Pulses that have been seen are over. -/
theorem Represents.quiet
    {path : WritePath}
    {file : RegisterFile}
    {pushed : List Descriptor}
    {resets : Nat}
    (same : Represents path file pushed resets) :
    Represents
      { path with
        descFifoPush := false
        mmioResetPulse := false }
      file
      (if path.descFifoPush then pushed ++ [path.descriptor] else pushed)
      (if path.mmioResetPulse then resets + 1 else resets) where
  descriptor := same.descriptor
  clockGateEnable := same.clockGateEnable
  pushed := by
    rw [same.pushed]
    cases path.descFifoPush <;> simp
  resets := by
    rw [same.resets]
    cases path.mmioResetPulse <;> simp

/-! ## Pairs -/

/-- The half of a pair in hold does not change the writes applied. -/
theorem zip_pairs_append
    {addresses moreAddresses : List (BitVec 8)}
    {data moreData : List (BitVec 64 × BitVec 8)}
    {full : List Bool}
    (addressCount : addresses.length = full.length)
    (dataCount : data.length = full.length)
    (pair : BitVec 8 → BitVec 64 × BitVec 8 → MmioWrite) :
    (List.zipWith pair (addresses ++ moreAddresses)
        (data ++ moreData)).zip full =
      (List.zipWith pair addresses data).zip full := by
  have count : (List.zipWith pair addresses data).length = full.length := by
    simp [addressCount, dataCount]
  rw [List.zipWith_append (by omega)]
  conv_lhs => rw [← List.append_nil full]
  rw [List.zip_append count, List.zip_nil_right, List.append_nil]

/-- A pair in hold is the next write to be applied. -/
theorem zip_pairs_concat
    {addresses : List (BitVec 8)}
    {data : List (BitVec 64 × BitVec 8)}
    {full : List Bool}
    (addressCount : addresses.length = full.length)
    (dataCount : data.length = full.length)
    (pair : BitVec 8 → BitVec 64 × BitVec 8 → MmioWrite)
    (addr : BitVec 8)
    (word : BitVec 64 × BitVec 8)
    (isFull : Bool) :
    (List.zipWith pair (addresses ++ [addr])
        (data ++ [word])).zip (full ++ [isFull]) =
      (List.zipWith pair addresses data).zip full ++
        [(pair addr word, isFull)] := by
  have count : (List.zipWith pair addresses data).length = full.length := by
    simp [addressCount, dataCount]
  rw [List.zipWith_append (by omega), List.zip_append count]
  rfl

/-! ## The two states of the write path -/

/-- The register file after the writes that the log says were applied. -/
def Writer.file (writer : Writer config) : RegisterFile :=
  .after (writer.log.pairs.zip writer.log.full)

/-- The write path collects the two parts of the next write. -/
structure Collects (writer : Writer config)
    (addresses : List (BitVec 8)) (data : List (BitVec 64 × BitVec 8)) :
    Prop where
  state : writer.device.write.axilWrState = .idle
  noResponse : writer.device.write.sAxilBvalid = false
  noPush : writer.device.write.descFifoPush = false
  noReset : writer.device.write.mmioResetPulse = false
  addressCount : addresses.length = writer.log.full.length
  dataCount : data.length = writer.log.full.length
  addresses :
    writer.log.addresses =
      addresses ++ if writer.device.write.awStored then
        [writer.device.write.awaddrHold]
      else []
  data :
    writer.log.data =
      data ++ if writer.device.write.wStored then
        [(writer.device.write.wdataHold, writer.device.write.wstrbHold)]
      else []
  responses : writer.log.full.length = writer.log.responses
  represents :
    Represents writer.device.write writer.file writer.log.pushed
      writer.log.resets

/-- The write path answers the last write that was applied. -/
structure Responding (writer : Writer config) : Prop where
  state : writer.device.write.axilWrState = .resp
  response : writer.device.write.sAxilBvalid = true
  addressCount : writer.log.addresses.length = writer.log.full.length
  dataCount : writer.log.data.length = writer.log.full.length
  responses : writer.log.full.length = writer.log.responses + 1
  represents :
    Represents writer.device.write writer.file writer.log.pushed
      writer.log.resets

/-- The write path and the log agree. -/
def Writing (writer : Writer config) : Prop :=
  (∃ addresses data, Collects writer addresses data) ∨ Responding writer

theorem collects_start : Collects (.start config) [] [] where
  state := rfl
  noResponse := rfl
  noPush := rfl
  noReset := rfl
  addressCount := rfl
  dataCount := rfl
  addresses := rfl
  data := rfl
  responses := rfl
  represents := ⟨rfl, rfl, rfl, rfl⟩

/-! ## One cycle -/

theorem next_of_both
    {path : WritePath}
    (state : path.axilWrState = .idle)
    (noResponse : path.sAxilBvalid = false)
    (noPush : path.descFifoPush = false)
    (noReset : path.mmioResetPulse = false)
    (hasAddress : path.awStored = true)
    (hasData : path.wStored = true)
    (full : Bool)
    (axil : AxilInput) :
    path.next false full axil =
      { path.executed full with
        sAxilBvalid := true
        axilWrState := .resp } := by
  cases path
  cases state
  cases noResponse
  cases noPush
  cases noReset
  cases hasAddress
  cases hasData
  simp [WritePath.next, WritePath.takesAddress, WritePath.takesData]

/-- A write path that has both parts executes them. -/
theorem Collects.executes
    {addresses : List (BitVec 8)}
    {data : List (BitVec 64 × BitVec 8)}
    (collects : Collects writer addresses data)
    (outside : i.pins.rst = false)
    (hasAddress : writer.device.write.awStored = true)
    (hasData : writer.device.write.wStored = true) :
    Responding (writer.step i) ∧
      (writer.step i).log.full.length = writer.log.full.length + 1 := by
  generalize isFull : descFifoFull writer.device.sys.top = full
  have next :
      (writer.step i).device.write =
        { writer.device.write.executed full with
          sAxilBvalid := true
          axilWrState := .resp } := by
    have written :=
      next_of_both collects.state collects.noResponse collects.noPush
        collects.noReset hasAddress hasData full i.axil
    rw [← written, ← isFull, ← outside]
    rfl
  have execution : writer.device.write.executes = true := by
    simp [WritePath.executes, collects.state, hasAddress, hasData]
  have noAddress :
      writer.device.write.takesAddress false i.axil = none := by
    simp [WritePath.takesAddress, hasAddress]
  have noData : writer.device.write.takesData false i.axil = none := by
    simp [WritePath.takesData, hasData]
  have log :
      (writer.step i).log = { writer.log with
        full := writer.log.full ++ [full] } := by
    simp [Writer.step, outside, execution, noAddress, noData, isFull,
      collects.noResponse, collects.noPush, collects.noReset]
  have file :
      (writer.step i).file =
        writer.file.apply (writer.device.write.held, full) := by
    have before := collects.addresses
    have wordsBefore := collects.data
    rw [if_pos hasAddress] at before
    rw [if_pos hasData] at wordsBefore
    rw [Writer.file, Writer.file, log, WriteLog.pairs, WriteLog.pairs]
    simp only [before, wordsBefore]
    rw [zip_pairs_concat collects.addressCount collects.dataCount,
      zip_pairs_append collects.addressCount collects.dataCount,
      RegisterFile.after, List.foldl_append]
    rfl
  have executed :=
    collects.represents.executed collects.noPush collects.noReset full
  refine ⟨?_, ?_⟩
  · constructor
    · rw [next]
    · rw [next]
    · rw [log, collects.addresses, if_pos hasAddress]
      simp [collects.addressCount]
    · rw [log, collects.data, if_pos hasData]
      simp [collects.dataCount]
    · rw [log]
      simp [collects.responses]
    · rw [next, file, log]
      exact ⟨executed.descriptor, executed.clockGateEnable, executed.pushed,
        executed.resets⟩
  · rw [log]
    simp

theorem next_of_lacking
    {path : WritePath}
    (state : path.axilWrState = .idle)
    (noResponse : path.sAxilBvalid = false)
    (noPush : path.descFifoPush = false)
    (noReset : path.mmioResetPulse = false)
    (lacks : (path.awStored && path.wStored) = false)
    (full : Bool)
    (axil : AxilInput) :
    path.next false full axil =
      { path with
        awaddrHold :=
          (path.takesAddress false axil).getD path.awaddrHold
        awStored := path.awStored || (path.takesAddress false axil).isSome
        wdataHold :=
          ((path.takesData false axil).map (·.1)).getD path.wdataHold
        wstrbHold :=
          ((path.takesData false axil).map (·.2)).getD path.wstrbHold
        wStored := path.wStored || (path.takesData false axil).isSome } := by
  simp [WritePath.next, state, noResponse, noPush, noReset, lacks]

/-- A write path that lacks a part takes what it lacks. -/
theorem Collects.takes
    {addresses : List (BitVec 8)}
    {data : List (BitVec 64 × BitVec 8)}
    (collects : Collects writer addresses data)
    (outside : i.pins.rst = false)
    (lacks :
      (writer.device.write.awStored && writer.device.write.wStored) =
        false) :
    Collects (writer.step i) addresses data ∧
      (writer.step i).log.full = writer.log.full := by
  have execution : writer.device.write.executes = false := by
    rw [WritePath.executes, Bool.and_assoc, lacks, Bool.and_false]
  have next :
      (writer.step i).device.write =
        { writer.device.write with
          awaddrHold :=
            (writer.device.write.takesAddress false i.axil).getD
              writer.device.write.awaddrHold
          awStored :=
            writer.device.write.awStored ||
              (writer.device.write.takesAddress false i.axil).isSome
          wdataHold :=
            ((writer.device.write.takesData false i.axil).map (·.1)).getD
              writer.device.write.wdataHold
          wstrbHold :=
            ((writer.device.write.takesData false i.axil).map (·.2)).getD
              writer.device.write.wstrbHold
          wStored :=
            writer.device.write.wStored ||
              (writer.device.write.takesData false i.axil).isSome } := by
    have written :=
      next_of_lacking collects.state collects.noResponse collects.noPush
        collects.noReset lacks (descFifoFull writer.device.sys.top) i.axil
    rw [← written, ← outside]
    rfl
  have log :
      (writer.step i).log = { writer.log with
        addresses := writer.log.addresses ++
          (writer.device.write.takesAddress false i.axil).toList
        data := writer.log.data ++
          (writer.device.write.takesData false i.axil).toList } := by
    simp [Writer.step, outside, execution, collects.noResponse,
      collects.noPush, collects.noReset]
  have addressesNext :
      (writer.step i).log.addresses =
        addresses ++ if (writer.step i).device.write.awStored then
          [(writer.step i).device.write.awaddrHold]
        else [] := by
    rw [log, next, collects.addresses]
    cases stored : writer.device.write.awStored with
    | false =>
        cases taken : writer.device.write.takesAddress false i.axil <;> simp
    | true =>
        simp [WritePath.takesAddress, stored]
  have dataNext :
      (writer.step i).log.data =
        data ++ if (writer.step i).device.write.wStored then
          [((writer.step i).device.write.wdataHold,
            (writer.step i).device.write.wstrbHold)]
        else [] := by
    rw [log, next, collects.data]
    cases stored : writer.device.write.wStored with
    | false =>
        cases taken : writer.device.write.takesData false i.axil <;> simp
    | true =>
        simp [WritePath.takesData, stored]
  have file : (writer.step i).file = writer.file := by
    rw [Writer.file, Writer.file, WriteLog.pairs, WriteLog.pairs,
      addressesNext, dataNext, collects.addresses, collects.data, log,
      zip_pairs_append collects.addressCount collects.dataCount,
      zip_pairs_append collects.addressCount collects.dataCount]
  have sameFull : (writer.step i).log.full = writer.log.full := by
    rw [log]
  have represents := collects.represents
  refine ⟨?_, sameFull⟩
  exact {
    state := by rw [next, collects.state]
    noResponse := by rw [next, collects.noResponse]
    noPush := by rw [next, collects.noPush]
    noReset := by rw [next, collects.noReset]
    addressCount := by rw [sameFull, collects.addressCount]
    dataCount := by rw [sameFull, collects.dataCount]
    addresses := addressesNext
    data := dataNext
    responses := by rw [log, collects.responses]
    represents := by
      rw [file, next, log]
      exact ⟨represents.descriptor, represents.clockGateEnable,
        represents.pushed, represents.resets⟩ }

/-- A response stays until it is accepted; then the next write may come. -/
theorem Responding.step
    (responding : Responding writer)
    (outside : i.pins.rst = false) :
    (i.axil.bready = false → Responding (writer.step i)) ∧
      (i.axil.bready = true →
        Collects (writer.step i) writer.log.addresses writer.log.data) ∧
      (writer.step i).log.full = writer.log.full := by
  have execution : writer.device.write.executes = false := by
    simp [WritePath.executes, responding.state]
  have noAddress :
      writer.device.write.takesAddress false i.axil = none := by
    simp [WritePath.takesAddress, responding.state]
  have noData : writer.device.write.takesData false i.axil = none := by
    simp [WritePath.takesData, responding.state]
  have log :
      (writer.step i).log = { writer.log with
        responses :=
          if i.axil.bready then writer.log.responses + 1
          else writer.log.responses
        pushed :=
          if writer.device.write.descFifoPush then
            writer.log.pushed ++ [writer.device.write.descriptor]
          else writer.log.pushed
        resets :=
          if writer.device.write.mmioResetPulse then writer.log.resets + 1
          else writer.log.resets } := by
    simp [Writer.step, outside, execution, noAddress, noData,
      responding.response]
  have file : (writer.step i).file = writer.file := by
    rw [Writer.file, Writer.file, log]
    rfl
  have next :
      (writer.step i).device.write =
        writer.device.write.next false (descFifoFull writer.device.sys.top)
          i.axil := by
    rw [← outside]
    rfl
  have quiet := responding.represents.quiet
  refine ⟨?_, ?_, by rw [log]⟩
  · intro stalls
    have waits :
        (writer.step i).device.write = { writer.device.write with
          descFifoPush := false
          mmioResetPulse := false } := by
      rw [next]
      simp [WritePath.next, responding.state, stalls]
    exact {
      state := by rw [waits, responding.state]
      response := by rw [waits, responding.response]
      addressCount := by rw [log, responding.addressCount]
      dataCount := by rw [log, responding.dataCount]
      responses := by rw [log, responding.responses, stalls]; rfl
      represents := by
        rw [file, waits, log]
        exact quiet }
  · intro accepts
    have opens :
        (writer.step i).device.write = { writer.device.write with
          descFifoPush := false
          mmioResetPulse := false
          sAxilBvalid := false
          axilWrState := .idle
          awStored := false
          wStored := false } := by
      rw [next]
      simp [WritePath.next, responding.state, accepts]
    exact {
      state := by rw [opens]
      noResponse := by rw [opens]
      noPush := by rw [opens]
      noReset := by rw [opens]
      addressCount := by rw [log, responding.addressCount]
      dataCount := by rw [log, responding.dataCount]
      addresses := by simp [opens, log]
      data := by simp [opens, log]
      responses := by rw [log, responding.responses, accepts]; rfl
      represents := by
        rw [file, opens, log]
        exact ⟨quiet.descriptor, quiet.clockGateEnable, quiet.pushed,
          quiet.resets⟩ }

/-- `rst` empties the write path and the log. -/
theorem collects_reset
    (inside : i.pins.rst = true) :
    Collects (writer.step i) [] [] := by
  have log : (writer.step i).log = .empty := by
    simp [Writer.step, inside]
  have path : (writer.step i).device.write = .reset := by
    simp [Writer.step, Device.step, WritePath.next, inside]
  exact {
    state := by rw [path]; rfl
    noResponse := by rw [path]; rfl
    noPush := by rw [path]; rfl
    noReset := by rw [path]; rfl
    addressCount := by rw [log]; rfl
    dataCount := by rw [log]; rfl
    addresses := by rw [log, path]; rfl
    data := by rw [log, path]; rfl
    responses := by rw [log]; rfl
    represents := by
      rw [Writer.file, log, path]
      exact ⟨rfl, rfl, rfl, rfl⟩ }

/-- The write path and the log stay in agreement. -/
theorem Writing.step
    (writing : Writing writer) :
    Writing (writer.step i) := by
  cases reset : i.pins.rst with
  | true =>
      exact .inl ⟨[], [], collects_reset reset⟩
  | false =>
      rcases writing with ⟨addresses, data, collects⟩ | responding
      · cases lacks :
            writer.device.write.awStored && writer.device.write.wStored with
        | true =>
            obtain ⟨hasAddress, hasData⟩ := (Bool.and_eq_true _ _).mp lacks
            exact .inr (collects.executes reset hasAddress hasData).1
        | false =>
            exact .inl ⟨addresses, data, (collects.takes reset lacks).1⟩
      · obtain ⟨stalls, accepts, -⟩ := responding.step reset
        cases ready : i.axil.bready with
        | true => exact .inl ⟨_, _, accepts ready⟩
        | false => exact .inr (stalls ready)

/-! ## Every run -/

/-- The agreement says what the host sees. -/
theorem Writing.applied
    (writing : Writing writer) :
    Applied writer := by
  rcases writing with ⟨addresses, data, collects⟩ | responding
  · have represents := collects.represents
    exact {
      descriptor := represents.descriptor
      clockGateEnable := represents.clockGateEnable
      pushed := represents.pushed
      resets := represents.resets
      accepted := by
        rw [WriteLog.pairs, List.length_zipWith, collects.addresses,
          collects.data, List.length_append, List.length_append,
          collects.addressCount, collects.dataCount]
        omega
      responses := by
        rw [collects.noResponse, collects.responses]
        rfl }
  · have represents := responding.represents
    exact {
      descriptor := represents.descriptor
      clockGateEnable := represents.clockGateEnable
      pushed := represents.pushed
      resets := represents.resets
      accepted := by
        rw [WriteLog.pairs, List.length_zipWith, responding.addressCount,
          responding.dataCount, Nat.min_self]
      responses := by
        rw [responding.response, responding.responses]
        rfl }

/-- The agreement says that every cycle goes on with the writes. -/
theorem Writing.proceeds
    (writing : Writing writer)
    (i : DeviceInput config) :
    Proceeds writer i := by
  rcases writing with ⟨addresses, data, collects⟩ | responding
  · have addressCount :
        writer.log.addresses.length =
          writer.log.full.length +
            writer.device.write.awStored.toNat := by
      rw [collects.addresses, List.length_append, collects.addressCount]
      cases writer.device.write.awStored <;> rfl
    have dataCount :
        writer.log.data.length =
          writer.log.full.length + writer.device.write.wStored.toNat := by
      rw [collects.data, List.length_append, collects.dataCount]
      cases writer.device.write.wStored <;> rfl
    exact {
      applies := by
        intro outside more
        rw [WriteLog.pairs, List.length_zipWith] at more
        have hasAddress : writer.device.write.awStored = true := by
          cases stored : writer.device.write.awStored with
          | true => rfl
          | false => simp [stored] at addressCount; omega
        have hasData : writer.device.write.wStored = true := by
          cases stored : writer.device.write.wStored with
          | true => rfl
          | false => simp [stored] at dataCount; omega
        exact (collects.executes outside hasAddress hasData).2
      responds := by
        intro _ response _
        rw [collects.noResponse] at response
        cases response
      takesAddress := by
        intro outside settled
        have empty : writer.device.write.awStored = false := by
          rw [addressCount, collects.responses] at settled
          cases stored : writer.device.write.awStored with
          | true => simp [stored] at settled
          | false => rfl
        simp [WritePath.takesAddress, outside, collects.state, empty]
      takesData := by
        intro outside settled
        have empty : writer.device.write.wStored = false := by
          rw [dataCount, collects.responses] at settled
          cases stored : writer.device.write.wStored with
          | true => simp [stored] at settled
          | false => rfl
        simp [WritePath.takesData, outside, collects.state, empty] }
  · have addressCount := responding.addressCount
    have dataCount := responding.dataCount
    have responses := responding.responses
    exact {
      applies := by
        intro _ more
        rw [WriteLog.pairs, List.length_zipWith] at more
        omega
      responds := fun outside _ stalls =>
        ((responding.step outside).1 stalls).response
      takesAddress := by
        intro _ settled
        omega
      takesData := by
        intro _ settled
        omega }

/--
However addresses, data and responses interleave, the device applies the
`i`-th address with the `i`-th data, each pair once, in order and with its
byte strobes, pulses for every commit that finds room, and gives every write
one response.
-/
theorem writes_applied
    (config : Config)
    (cycles : List (DeviceInput config)) :
    Applied (run Writer.step (.start config) cycles) ∧
      ∀ i, Proceeds (run Writer.step (.start config) cycles) i := by
  have writing : Writing (run Writer.step (.start config) cycles) :=
    run_always (fun _ _ writing => writing.step)
      (.inl ⟨[], [], collects_start⟩) cycles
  exact ⟨writing.applied, writing.proceeds⟩

end Invariant

end CoreJpeg.JpegTop
