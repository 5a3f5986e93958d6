import CoreJpeg.Clocked
import Mathlib.Algebra.Group.Nat.Defs

namespace CoreJpeg.Driver

/-!
# The task scheduler of the driver

`Scheduler` moves every image through load, decode and post-process.  Worker
threads acquire jobs and report them complete; source and destination slots
are taken from two pools and returned.  Every call holds `mu_`, so a run is a
list of calls in the order in which they took the lock.  The calls that only
read (`GetTask`, `HasFailure`, `IsFinished`) change nothing and are left out.
-/

/-- `BackendMode`. -/
inductive BackendMode where
  | hardware
  | software
  deriving Repr, DecidableEq

/-- `TaskStage`. -/
inductive TaskStage where
  | pendingLoad
  | loading
  | loadedAwaitingDecode
  | queuedForHwSubmit
  | hwSubmitting
  | hwInflight
  | queuedForSwDecode
  | swDecoding
  | decoded
  | postProcessing
  | done
  | failed
  deriving Repr, DecidableEq

/-- `jpeg_cpl_entry`. -/
structure CplEntry where
  isValid : BitVec 16
  taskId : BitVec 16
  imgWidth : BitVec 16
  imgHeight : BitVec 16
  deriving Repr, DecidableEq

/-- `jpeg_cpl_entry{}`. -/
def CplEntry.zero : CplEntry where
  isValid := 0
  taskId := 0
  imgWidth := 0
  imgHeight := 0

/-- `TaskContext`; `imageIndex` has 32 bits. -/
structure TaskContext where
  imageIndex : Nat
  imagePath : String
  stage : TaskStage
  srcSlot : Option Nat
  dstSlot : Option Nat
  srcSize : Nat
  cpl : CplEntry
  submitTs : Nat
  deriving Repr, DecidableEq

/-- The private state of `Scheduler`. -/
structure Scheduler where
  mode : BackendMode
  tasks : List TaskContext
  nextLoadIndex : Nat
  numDone : Nat
  freeSrcSlots : List Nat
  freeDstSlots : List Nat
  readyPost : List Nat
  waitingSwDecode : List Nat
  readySwDecode : List Nat
  readyHwSubmit : List Nat
  failed : Bool
  failureMessage : String
  deriving Repr, DecidableEq

/-- `CpuJobKind`. -/
inductive CpuJobKind where
  | load
  | softwareDecode
  | postProcess
  deriving Repr, DecidableEq

/-- `AcquiredCpuJob`, with the position of its task in `tasks_`. -/
structure AcquiredCpuJob where
  kind : CpuJobKind
  task : Nat
  deriving Repr, DecidableEq

/-- How one pass of `AcquireCpuJob` through its loop ends. -/
inductive Acquired where
  | job (acquired : AcquiredCpuJob)
  | nullopt
  | waits
  deriving Repr, DecidableEq

/-- What a call leaves behind, and whether it ends in `cv_.notify_all()`. -/
structure Effect where
  after : Scheduler
  notifyAll : Bool
  deriving Repr, DecidableEq

/-- The values of `uint32_t`. -/
def indexRange : Nat := 2 ^ 32

/-- The task of one image before anything happened to it. -/
def TaskContext.pending (position : Nat) (path : String) : TaskContext where
  imageIndex := position % indexRange
  imagePath := path
  stage := .pendingLoad
  srcSlot := none
  dstSlot := none
  srcSize := 0
  cpl := .zero
  submitTs := 0

/-- `Fail` marks a task that is not done. -/
def TaskContext.failUnlessDone (task : TaskContext) : TaskContext :=
  if task.stage != .done then { task with stage := .failed } else task

namespace Scheduler

/-- The constructor. -/
def start
    (mode : BackendMode)
    (imagePaths : List String)
    (srcSlotCount dstSlotCount : Nat) : Scheduler where
  mode := mode
  tasks := imagePaths.mapIdx TaskContext.pending
  nextLoadIndex := 0
  numDone := 0
  freeSrcSlots := List.range srcSlotCount
  freeDstSlots := List.range dstSlotCount
  readyPost := []
  waitingSwDecode := []
  readySwDecode := []
  readyHwSubmit := []
  failed := false
  failureMessage := ""

/-- `HasReadyCpuJobLocked`. -/
def hasReadyCpuJobLocked (s : Scheduler) : Bool :=
  !s.readyPost.isEmpty ||
    (s.mode == .software && !s.readySwDecode.isEmpty) ||
    (decide (s.nextLoadIndex < s.tasks.length) && !s.freeSrcSlots.isEmpty)

/-- `AllWorkDoneLocked`. -/
def allWorkDoneLocked (s : Scheduler) : Bool :=
  s.numDone == s.tasks.length

/-- The predicate `AcquireCpuJob` waits for. -/
def waitPredicate (s : Scheduler) : Bool :=
  s.failed || s.allWorkDoneLocked || s.hasReadyCpuJobLocked

/-- `AssignSwDecodeJobsLocked`, on what is left of `waiting_sw_decode_`. -/
def assignSwDecodeJobs : List Nat → Scheduler → Scheduler
  | [], s => s
  | imageIndex :: waiting, s =>
      match s.freeDstSlots with
      | [] => s
      | slot :: free =>
          match s.tasks[imageIndex]? with
          | none =>
              assignSwDecodeJobs waiting
                { s with waitingSwDecode := waiting }
          | some task =>
              if task.stage != .loadedAwaitingDecode ||
                  !task.srcSlot.isSome then
                assignSwDecodeJobs waiting
                  { s with waitingSwDecode := waiting }
              else
                assignSwDecodeJobs waiting { s with
                  waitingSwDecode := waiting
                  freeDstSlots := free
                  readySwDecode := s.readySwDecode ++ [imageIndex]
                  tasks := s.tasks.set imageIndex { task with
                    dstSlot := some slot
                    stage := .queuedForSwDecode } }

def assignSwDecodeJobsLocked (s : Scheduler) : Scheduler :=
  assignSwDecodeJobs s.waitingSwDecode s

/-- The pop loops: entries whose task is not suitable are dropped. -/
def popSuitable
    (suitable : TaskContext → Bool)
    (tasks : List TaskContext) :
    List Nat → Option (Nat × TaskContext) × List Nat
  | [] => (none, [])
  | imageIndex :: rest =>
      match tasks[imageIndex]? with
      | none => popSuitable suitable tasks rest
      | some task =>
          if suitable task then (some (imageIndex, task), rest)
          else popSuitable suitable tasks rest

/-- The loop of `AcquireCpuJob` over `ready_post_`. -/
def acquirePostProcess (s : Scheduler) :
    Option AcquiredCpuJob × Scheduler :=
  match popSuitable
      (fun task => task.stage == .decoded && task.dstSlot.isSome)
      s.tasks s.readyPost with
  | (none, rest) => (none, { s with readyPost := rest })
  | (some (imageIndex, task), rest) =>
      (some ⟨.postProcess, imageIndex⟩, { s with
        readyPost := rest
        tasks := s.tasks.set imageIndex
          { task with stage := .postProcessing } })

/-- The loop of `AcquireCpuJob` over `ready_sw_decode_`. -/
def acquireSoftwareDecode (s : Scheduler) :
    Option AcquiredCpuJob × Scheduler :=
  match s.mode with
  | .hardware => (none, s)
  | .software =>
      match popSuitable
          (fun task => task.stage == .queuedForSwDecode &&
            task.srcSlot.isSome && task.dstSlot.isSome)
          s.tasks s.readySwDecode with
      | (none, rest) => (none, { s with readySwDecode := rest })
      | (some (imageIndex, task), rest) =>
          (some ⟨.softwareDecode, imageIndex⟩, { s with
            readySwDecode := rest
            tasks := s.tasks.set imageIndex
              { task with stage := .swDecoding } })

/-- The last attempt of `AcquireCpuJob`: load the next image. -/
def acquireLoad (s : Scheduler) : Option AcquiredCpuJob × Scheduler :=
  if s.nextLoadIndex < s.tasks.length then
    -- `static_cast<uint32_t>(next_load_index_)`
    let imageIndex := s.nextLoadIndex % indexRange
    match s.freeSrcSlots, s.tasks[imageIndex]? with
    | slot :: free, some task =>
        (some ⟨.load, imageIndex⟩, { s with
          nextLoadIndex := s.nextLoadIndex + 1
          freeSrcSlots := free
          tasks := s.tasks.set imageIndex { task with
            srcSlot := some slot
            srcSize := 0
            stage := .loading } })
    | _, _ => (none, s)
  else (none, s)

/-- One pass of `AcquireCpuJob` through its loop. -/
def acquireCpuJob (s : Scheduler) : Acquired × Scheduler :=
  if s.failed || s.allWorkDoneLocked then (.nullopt, s)
  else match s.acquirePostProcess with
    | (some job, after) => (.job job, after)
    | (none, afterPost) =>
        match afterPost.acquireSoftwareDecode with
        | (some job, after) => (.job job, after)
        | (none, afterDecode) =>
            match afterDecode.acquireLoad with
            | (some job, after) => (.job job, after)
            | (none, after) => (.waits, after)

/-- `TryAcquireHardwareSubmitTask`, with the position of the task. -/
def tryAcquireHardwareSubmitTask (s : Scheduler) :
    Option Nat × Scheduler :=
  if s.failed then (none, s)
  else match s.freeDstSlots with
    | [] => (none, s)
    | slot :: free =>
        match popSuitable
            (fun task => task.stage == .queuedForHwSubmit &&
              task.srcSlot.isSome)
            s.tasks s.readyHwSubmit with
        | (none, rest) => (none, { s with readyHwSubmit := rest })
        | (some (imageIndex, task), rest) =>
            (some imageIndex, { s with
              readyHwSubmit := rest
              freeDstSlots := free
              tasks := s.tasks.set imageIndex { task with
                dstSlot := some slot
                stage := .hwSubmitting } })

/--
The frame of the `Complete*` calls: they return silently after a failure or
for an unknown task, and fail when the task is in another stage or lacks a
slot.
-/
def completing
    (s : Scheduler)
    (imageIndex : Nat)
    (what : String)
    (expected : TaskStage)
    (slots : TaskContext → Bool)
    (finish : TaskContext → Effect) : Effect :=
  if s.failed then ⟨s, false⟩
  else match s.tasks[imageIndex]? with
    | none => ⟨s, false⟩
    | some task =>
        if task.stage != expected || !slots task then
          ⟨{ s with
            failed := true
            failureMessage :=
              "scheduler: " ++ what ++ " completed in invalid state" }, true⟩
        else finish task

def completeLoad (s : Scheduler) (imageIndex srcSize : Nat) : Effect :=
  s.completing imageIndex "load" .loading (·.srcSlot.isSome) fun task =>
    let loaded := { task with srcSize := srcSize }
    match s.mode, s.freeDstSlots with
    | .hardware, _ =>
        ⟨{ s with
          tasks := s.tasks.set imageIndex
            { loaded with stage := .queuedForHwSubmit }
          readyHwSubmit := s.readyHwSubmit ++ [imageIndex] }, true⟩
    | .software, slot :: free =>
        ⟨{ s with
          freeDstSlots := free
          tasks := s.tasks.set imageIndex { loaded with
            dstSlot := some slot
            stage := .queuedForSwDecode }
          readySwDecode := s.readySwDecode ++ [imageIndex] }, true⟩
    | .software, [] =>
        ⟨{ s with
          tasks := s.tasks.set imageIndex
            { loaded with stage := .loadedAwaitingDecode }
          waitingSwDecode := s.waitingSwDecode ++ [imageIndex] }, true⟩

/-- The end of both `Complete*Decode` calls. -/
def decodeCompleted
    (s : Scheduler)
    (imageIndex : Nat)
    (cpl : CplEntry)
    (task : TaskContext) : Effect :=
  ⟨{ s with
    freeSrcSlots := s.freeSrcSlots ++ task.srcSlot.toList
    tasks := s.tasks.set imageIndex { task with
      srcSlot := none
      srcSize := 0
      cpl := cpl
      stage := .decoded }
    readyPost := s.readyPost ++ [imageIndex] }, true⟩

def completeSoftwareDecode
    (s : Scheduler) (imageIndex : Nat) (cpl : CplEntry) : Effect :=
  s.completing imageIndex "software decode" .swDecoding
    (fun task => task.srcSlot.isSome && task.dstSlot.isSome)
    (s.decodeCompleted imageIndex cpl)

def completeHardwareSubmit
    (s : Scheduler) (imageIndex now : Nat) : Effect :=
  s.completing imageIndex "hardware submit" .hwSubmitting
    (fun task => task.srcSlot.isSome && task.dstSlot.isSome)
    fun task =>
      ⟨{ s with
        tasks := s.tasks.set imageIndex { task with
          submitTs := now
          stage := .hwInflight } }, false⟩

def completeHardwareDecode
    (s : Scheduler) (imageIndex : Nat) (cpl : CplEntry) : Effect :=
  s.completing imageIndex "hardware decode" .hwInflight
    (fun task => task.srcSlot.isSome && task.dstSlot.isSome)
    (s.decodeCompleted imageIndex cpl)

def completePostProcess (s : Scheduler) (imageIndex : Nat) : Effect :=
  s.completing imageIndex "post-process" .postProcessing
    (·.dstSlot.isSome) fun task =>
    let finished : Scheduler := { s with
      freeDstSlots := s.freeDstSlots ++ task.dstSlot.toList
      tasks := s.tasks.set imageIndex { task with
        dstSlot := none
        stage := .done }
      numDone := s.numDone + 1 }
    match s.mode with
    | .hardware => ⟨finished, true⟩
    | .software => ⟨finished.assignSwDecodeJobsLocked, true⟩

def fail (s : Scheduler) (message : String) : Effect :=
  if s.failed then ⟨s, false⟩
  else ⟨{ s with
    failed := true
    failureMessage := message
    tasks := s.tasks.map TaskContext.failUnlessDone }, true⟩

end Scheduler

/-- The calls of the interface that may change the scheduler. -/
inductive Call where
  | acquireCpuJob
  | tryAcquireHardwareSubmitTask
  | completeLoad (imageIndex srcSize : Nat)
  | completeSoftwareDecode (imageIndex : Nat) (cpl : CplEntry)
  | completeHardwareSubmit (imageIndex now : Nat)
  | completeHardwareDecode (imageIndex : Nat) (cpl : CplEntry)
  | completePostProcess (imageIndex : Nat)
  | fail (message : String)
  deriving Repr, DecidableEq

namespace Scheduler

/-- The effect of one call. -/
def effect (s : Scheduler) : Call → Effect
  | .acquireCpuJob => ⟨s.acquireCpuJob.2, false⟩
  | .tryAcquireHardwareSubmitTask =>
      ⟨s.tryAcquireHardwareSubmitTask.2, false⟩
  | .completeLoad imageIndex srcSize => s.completeLoad imageIndex srcSize
  | .completeSoftwareDecode imageIndex cpl =>
      s.completeSoftwareDecode imageIndex cpl
  | .completeHardwareSubmit imageIndex now =>
      s.completeHardwareSubmit imageIndex now
  | .completeHardwareDecode imageIndex cpl =>
      s.completeHardwareDecode imageIndex cpl
  | .completePostProcess imageIndex => s.completePostProcess imageIndex
  | .fail message => s.fail message

/-- The scheduler after one call. -/
def step (s : Scheduler) (call : Call) : Scheduler :=
  (s.effect call).after

end Scheduler

end CoreJpeg.Driver
