import CoreJpeg.TopModel
import Mathlib.Order.Nat

namespace CoreJpeg.JpegTop

open Clocked

/-!
# The slots with their DMA engine and output FIFOs

The external DMA engine and output FIFOs are modelled by what they promise:
the engine remembers the descriptors it accepted and answers each of them, a
FIFO hands out its words in order.  A log per slot records what the task it
was last assigned has read, written and completed.
-/

/-- A read descriptor the DMA engine works on. -/
structure ReadJob (config : Config) where
  decoder : Decoder config
  address : BitVec config.addrWidth
  length : BitVec config.lenWidth
  /-- Bytes delivered so far. -/
  delivered : Nat
  /-- Accepted in the previous cycle. -/
  fresh : Bool
  deriving DecidableEq

/-- A write descriptor the DMA engine works on. -/
structure WriteJob (config : Config) where
  decoder : Decoder config
  address : BitVec config.addrWidth
  length : BitVec config.lenWidth
  /-- Bytes received so far. -/
  received : Nat
  /-- The word with the last flag was received. -/
  complete : Bool
  /-- Accepted in the previous cycle. -/
  fresh : Bool
  deriving DecidableEq

/-- What happened to the task a slot was last assigned. -/
structure TaskLog (config : Config) where
  descriptor : Descriptor
  /-- Source addresses of the bytes delivered to the input FIFO. -/
  source : List (BitVec config.addrWidth)
  /-- Accepted write descriptors. -/
  writes : List (BitVec config.addrWidth × BitVec config.lenWidth)
  completions : List Completion
  deriving DecidableEq

/-- The circuit with the state of its surroundings. -/
structure System (config : Config) where
  top : State config
  outputWords : Decoder config → List (Keep config)
  readJob : Option (ReadJob config)
  writeJob : Option (WriteJob config)
  tasks : Decoder config → TaskLog config

section Surroundings

variable {config : Config}

/-- The log of a task that has just been assigned. -/
def TaskLog.assigned (descriptor : Descriptor) : TaskLog config where
  descriptor := descriptor
  source := []
  writes := []
  completions := []

/-- The source addresses of the next bytes of a read job. -/
def ReadJob.addresses (job : ReadJob config) (count : Nat) :
    List (BitVec config.addrWidth) :=
  (List.range' job.delivered count).map fun offset =>
    job.address + BitVec.ofNat _ offset

namespace System

/-- After reset nothing is in flight. -/
def start (config : Config) : System config where
  top := .reset none
  outputWords := fun _ => []
  readJob := none
  writeJob := none
  tasks := fun _ => .assigned .reset

def readJobNext (sys : System config) (i : Input config) :
    Option (ReadJob config) :=
  if dmaReadDataLast sys.top i then none
  else if dmaReadDescFire sys.top i then
    some {
      decoder := sys.top.dmaReadDecoder
      address := sys.top.dmaReadDescAddr
      length := sys.top.dmaReadDescLen
      delivered := 0
      fresh := true
    }
  else sys.readJob.map fun job => { job with
    delivered := job.delivered +
      ((dmaReadDataFire sys.top i).map fun word =>
        axisKeepCount word.1).getD 0
    fresh := false }

def writeJobNext (sys : System config) (i : Input config) :
    Option (WriteJob config) :=
  if i.dmaWriteDescStatusValid then none
  else if dmaWriteDescFire sys.top i then
    some {
      decoder := sys.top.dmaWriteDescDecoder
      address := sys.top.dmaWriteDescAddr
      length := sys.top.dmaWriteDescLen
      received := 0
      complete := false
      fresh := true
    }
  else sys.writeJob.map fun job => { job with
    received := job.received +
      ((dmaWriteDataFire sys.top i).map axisKeepCount).getD 0
    complete := job.complete || dmaWriteDataLast sys.top i
    fresh := false }

def outputWordsNext (sys : System config) (i : Input config)
    (decoder : Decoder config) : List (Keep config) :=
  if coreRst sys.top i decoder then []
  else
    (if (outputFifoPop sys.top i decoder).isSome then
      (sys.outputWords decoder).tail
    else sys.outputWords decoder) ++
      (i.slots decoder).coreOutPush.toList

/-- The source addresses delivered to one input FIFO in this cycle. -/
def delivery (sys : System config) (i : Input config)
    (decoder : Decoder config) : List (BitVec config.addrWidth) :=
  match inputFifoPush sys.top i decoder, sys.readJob with
  | some keep, some job => job.addresses (axisKeepCount keep)
  | _, _ => []

/-- The write descriptor accepted for one slot in this cycle. -/
def acceptedWrite (sys : System config) (i : Input config)
    (decoder : Decoder config) :
    List (BitVec config.addrWidth × BitVec config.lenWidth) :=
  if dmaWriteDescFire sys.top i && decoder == sys.top.dmaWriteDescDecoder
  then [(sys.top.dmaWriteDescAddr, sys.top.dmaWriteDescLen)]
  else []

/-- The completion record pushed for one slot in this cycle. -/
def completion (sys : System config) (i : Input config)
    (decoder : Decoder config) : List Completion :=
  if decoder == sys.top.writeServiceDecoder then
    (cplFifoPush sys.top i).toList
  else []

def taskNext (sys : System config) (i : Input config)
    (decoder : Decoder config) : TaskLog config :=
  if assignsTo sys.top decoder then .assigned (descFifoHead sys.top)
  else
    let log := sys.tasks decoder
    { log with
      source := log.source ++ sys.delivery i decoder
      writes := log.writes ++ sys.acceptedWrite i decoder
      completions := log.completions ++ sys.completion i decoder }

/-- One clock edge of the circuit and its surroundings. -/
def step (sys : System config) (i : Input config) : System config :=
  if i.rst || i.mmioResetPulse then
    { start config with top := JpegTop.step sys.top i }
  else {
    top := JpegTop.step sys.top i
    outputWords := sys.outputWordsNext i
    readJob := sys.readJobNext i
    writeJob := sys.writeJobNext i
    tasks := sys.taskNext i
  }

/-! ## What the surroundings promise -/

/--
The DMA engine takes no descriptor in the cycle after it took one, and the
words that answer a read carry its bytes with the last flag on the last one.
-/
def ReadPromised (sys : System config) (i : Input config) : Prop :=
  (sys.readJob.any (·.fresh) = true → i.dmaReadDescReady = false) ∧
    ∀ word ∈ i.dmaReadData, ∃ job ∈ sys.readJob,
      job.delivered + axisKeepCount word.1 ≤ job.length.toNat ∧
        (word.2 = true ↔
          job.delivered + axisKeepCount word.1 = job.length.toNat)

/--
The DMA engine takes no descriptor in the cycle after it took one, and it
reports a write once, after it received the last word.
-/
def WritePromised (sys : System config) (i : Input config) : Prop :=
  (sys.writeJob.any (·.fresh) = true → i.dmaWriteDescReady = false) ∧
    (i.dmaWriteDescStatusValid = true →
      sys.writeJob.any (·.complete) = true) ∧
    ∀ decoder, ∀ word ∈ (i.slots decoder).outputFifo,
      (sys.outputWords decoder).head? = some word

instance (sys : System config) (i : Input config) :
    Decidable (sys.ReadPromised i) := by
  unfold ReadPromised
  exact @instDecidableAnd _ _ _ (Option.decidableForallMem _)

instance (sys : System config) (i : Input config) :
    Decidable (sys.WritePromised i) := by
  unfold WritePromised
  infer_instance

end System

end Surroundings

end CoreJpeg.JpegTop
