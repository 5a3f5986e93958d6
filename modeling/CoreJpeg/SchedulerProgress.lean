import CoreJpeg.SchedulerSlots

namespace CoreJpeg.Driver

open Clocked Holders

/-!
# Progress of the scheduler

When every acquired job is reported complete by the call that matches it, the
scheduler never fails, never gets stuck with work left, wakes the waiting
threads whenever it gives them a reason to, and has handed out every task once
for each of its jobs when all tasks are done.  Progress rests on a hidden
invariant of software mode: a free destination slot and a loaded task that
waits for one are never left together at the end of a call.
-/

/-- What is under way for a task between two calls. -/
inductive JobKind where
  | load
  | softwareDecode
  | hardwareSubmit
  | hardwareDecode
  | postProcess
  deriving Repr, DecidableEq

/-- The stage of a task for which a job is under way. -/
def JobKind.stage : JobKind → TaskStage
  | .load => .loading
  | .softwareDecode => .swDecoding
  | .hardwareSubmit => .hwSubmitting
  | .hardwareDecode => .hwInflight
  | .postProcess => .postProcessing

/-- The stages by which a job has been started for a task. -/
def JobKind.started (mode : BackendMode) : JobKind → TaskStage → Bool
  | .load, stage => decide (stage ≠ .pendingLoad)
  | .softwareDecode, .swDecoding => true
  | .hardwareSubmit, .hwSubmitting => true
  | .hardwareSubmit, .hwInflight => true
  | .hardwareDecode, .hwInflight => true
  | .softwareDecode, .decoded | .softwareDecode, .postProcessing
  | .softwareDecode, .done => decide (mode = .software)
  | .hardwareSubmit, .decoded | .hardwareSubmit, .postProcessing
  | .hardwareSubmit, .done => decide (mode = .hardware)
  | .hardwareDecode, .decoded | .hardwareDecode, .postProcessing
  | .hardwareDecode, .done => decide (mode = .hardware)
  | .postProcess, .postProcessing => true
  | .postProcess, .done => true
  | _, _ => false

/-- The job kind of a CPU job. -/
def CpuJobKind.job : CpuJobKind → JobKind
  | .load => .load
  | .softwareDecode => .softwareDecode
  | .postProcess => .postProcess

/-- The job a mode decodes an image with. -/
def BackendMode.decode : BackendMode → JobKind
  | .hardware => .hardwareSubmit
  | .software => .softwareDecode

/--
A scheduler with the jobs that are under way, by the image index their thread
reads from the task, and all jobs ever started, by the position of the task.
-/
structure Session where
  scheduler : Scheduler
  underWay : List (JobKind × Nat)
  started : List (JobKind × Nat)
  deriving DecidableEq

/-- The job that a call reports complete. -/
def Call.completes : Call → Option (JobKind × Nat)
  | .completeLoad imageIndex _ => some (.load, imageIndex)
  | .completeSoftwareDecode imageIndex _ =>
      some (.softwareDecode, imageIndex)
  | .completeHardwareSubmit imageIndex _ =>
      some (.hardwareSubmit, imageIndex)
  | .completeHardwareDecode imageIndex _ =>
      some (.hardwareDecode, imageIndex)
  | .completePostProcess imageIndex => some (.postProcess, imageIndex)
  | _ => none

/-- The call gives up. -/
def Call.isFail : Call → Bool
  | .fail _ => true
  | _ => false

namespace Session

/-- A session before the first call. -/
def start
    (mode : BackendMode)
    (imagePaths : List String)
    (srcSlotCount dstSlotCount : Nat) : Session where
  scheduler := .start mode imagePaths srcSlotCount dstSlotCount
  underWay := []
  started := []

/-- The job a call starts, with the position of its task. -/
def starts (session : Session) : Call → Option (JobKind × Nat)
  | .acquireCpuJob =>
      match session.scheduler.acquireCpuJob.1 with
      | .job acquired => some (acquired.kind.job, acquired.task)
      | _ => none
  | .tryAcquireHardwareSubmitTask =>
      session.scheduler.tryAcquireHardwareSubmitTask.1.map
        fun task => (.hardwareSubmit, task)
  | .completeHardwareSubmit imageIndex _ =>
      some (.hardwareDecode, imageIndex)
  | _ => none

/-- The image index of the task at a position. -/
def imageIndex (session : Session) (position : Nat) : Nat :=
  (session.scheduler.tasks[position]?.map (·.imageIndex)).getD position

/-- One call with its jobs. -/
def step (session : Session) (call : Call) : Session where
  scheduler := session.scheduler.step call
  underWay :=
    (match call.completes with
      | some job => session.underWay.erase job
      | none => session.underWay) ++
    (session.starts call).toList.map fun job =>
      (job.1, session.imageIndex job.2)
  started := session.started ++ (session.starts call).toList

/-- A call matches when it completes a job under way, and nobody fails. -/
def Matching (session : Session) (call : Call) : Prop :=
  (∀ job ∈ call.completes, job ∈ session.underWay) ∧
    call.isFail = false

instance (session : Session) (call : Call) :
    Decidable (session.Matching call) := by
  unfold Matching
  infer_instance

/-- Somebody works on a task. -/
def Busy (session : Session) : Prop :=
  ∃ task ∈ session.scheduler.tasks, ∃ kind : JobKind,
    task.stage = kind.stage

/--
The scheduler has not failed; while tasks are left a job can be acquired or is
under way; whoever makes the wait predicate true notifies; and in the end each
task was loaded, decoded and post-processed once and all slots are free.
-/
structure Live
    (srcSlotCount dstSlotCount : Nat) (session : Session) : Prop where
  healthy : session.scheduler.failed = false
  progress :
    session.scheduler.numDone < session.scheduler.tasks.length →
      (∃ job, session.scheduler.acquireCpuJob.1 = .job job) ∨
      (session.scheduler.mode = .hardware ∧
        ∃ task, session.scheduler.tryAcquireHardwareSubmitTask.1 =
          some task) ∨
      session.Busy
  wakes : ∀ call,
    session.scheduler.waitPredicate = false →
      (session.scheduler.step call).waitPredicate = true →
        (session.scheduler.effect call).notifyAll = true
  finished :
    session.scheduler.numDone = session.scheduler.tasks.length →
      (∀ position < session.scheduler.tasks.length,
        session.started.count (.load, position) = 1 ∧
        session.started.count
          (session.scheduler.mode.decode, position) = 1 ∧
        session.started.count (.postProcess, position) = 1) ∧
      session.scheduler.freeSrcSlots.Perm (List.range srcSlotCount) ∧
      session.scheduler.freeDstSlots.Perm (List.range dstSlotCount)

end Session

/-! ## The jobs of the tasks -/

/-- The tasks of the jobs of one kind. -/
def ofKind (kind : JobKind) (jobs : List (JobKind × Nat)) : List Nat :=
  jobs.filterMap fun job => if job.1 = kind then some job.2 else none

section Jobs

variable {kind : JobKind}
variable {jobs : List (JobKind × Nat)}

@[simp] theorem ofKind_append (later : List (JobKind × Nat)) :
    ofKind kind (jobs ++ later) = ofKind kind jobs ++ ofKind kind later :=
  List.filterMap_append

@[simp] theorem ofKind_nil : ofKind kind [] = [] := rfl

@[simp] theorem ofKind_single (job : JobKind × Nat) :
    ofKind kind [job] = only (decide (job.1 = kind)) job.2 := by
  by_cases same : job.1 = kind <;> simp [ofKind, same]

/-- Taking a job out takes its task out of the tasks of its kind. -/
theorem ofKind_erase
    (kind : JobKind)
    {job : JobKind × Nat}
    (member : job ∈ jobs) :
    (ofKind kind (jobs.erase job) ++
        only (decide (job.1 = kind)) job.2).Perm (ofKind kind jobs) := by
  have taken := (List.perm_cons_erase member).filterMap
    fun job => if job.1 = kind then some job.2 else none
  refine List.Perm.trans List.perm_append_comm (List.Perm.trans ?_ taken.symm)
  by_cases same : job.1 = kind <;> simp [ofKind, same]

/-- A kind's tasks count as often as its jobs. -/
theorem count_ofKind (position : Nat) :
    (ofKind kind jobs).count position = jobs.count (kind, position) := by
  induction jobs with
  | nil =>
      rfl
  | cons job rest inductionHypothesis =>
      rcases job with ⟨other, task⟩
      simp only [ofKind] at inductionHypothesis
      by_cases same : other = kind
      · simp [ofKind, same, List.count_cons, inductionHypothesis]
      · simp [ofKind, same, inductionHypothesis]

/-- A job of a kind is a task of that kind. -/
theorem mem_ofKind
    {position : Nat}
    (member : (kind, position) ∈ jobs) :
    position ∈ ofKind kind jobs :=
  List.mem_filterMap.mpr ⟨_, member, by simp⟩

end Jobs

/-- The jobs under way and the jobs started agree with the stages. -/
structure Tracked
    (srcSlotCount dstSlotCount : Nat) (session : Session) : Prop where
  known : Known srcSlotCount dstSlotCount session.scheduler
  healthy : session.scheduler.failed = false
  underWay : ∀ kind : JobKind,
    Lists (atStage kind.stage) (ofKind kind session.underWay)
      session.scheduler.tasks
  started : ∀ kind : JobKind,
    Lists (fun task => kind.started session.scheduler.mode task.stage)
      (ofKind kind session.started) session.scheduler.tasks

/-- In software mode no task waits while a destination slot is free. -/
def Settled (s : Scheduler) : Prop :=
  s.mode = .software → s.freeDstSlots = [] ∨ s.waitingSwDecode = []

section Moves

variable {srcSlotCount dstSlotCount : Nat}
variable {session : Session}
variable {s after : Scheduler}
variable {index : Nat}
variable {first last : TaskStage}

/-- An advance with balanced jobs keeps the jobs tracked. -/
theorem Tracked.advance
    (tracked : Tracked srcSlotCount dstSlotCount session)
    (advances : Advances session.scheduler after index first last)
    {underWay started : List (JobKind × Nat)}
    (underWayBalanced : ∀ kind : JobKind,
      (ofKind kind underWay ++
          only (decide (first = kind.stage)) index).Perm
        (ofKind kind session.underWay ++
          only (decide (last = kind.stage)) index))
    (startedBalanced : ∀ kind : JobKind,
      (ofKind kind started ++
          only (kind.started session.scheduler.mode first) index).Perm
        (ofKind kind session.started ++
          only (kind.started session.scheduler.mode last) index)) :
    Tracked srcSlotCount dstSlotCount
      { scheduler := after, underWay := underWay, started := started } := by
  obtain ⟨old, new, change, rfl, rfl⟩ := id advances
  refine ⟨tracked.known.change change,
    change.failed.trans tracked.healthy, fun kind => ?_, fun kind => ?_⟩
  · simp only [change.tasks]
    exact (tracked.underWay kind).exchange change.present
      (underWayBalanced kind)
  · simp only [change.tasks, change.mode]
    exact (tracked.started kind).exchange change.present
      (startedBalanced kind)

/-- The number of free destination slots follows the stages. -/
theorem Advances.freeDst_length
    (sound : Sound s)
    (advances : Advances s after index first last) :
    after.freeDstSlots.length + last.holdsDst.toNat =
      s.freeDstSlots.length + first.holdsDst.toNat := by
  obtain ⟨old, new, change, rfl, rfl⟩ := advances
  have lengths := change.dst.length_eq
  have held : ∀ slot : Option Nat,
      slot.toList.length = slot.isSome.toNat := by
    rintro (_ | _) <;> rfl
  rw [List.length_append, List.length_append, held, held,
    change.holdsDst,
    sound.holdsDst old (List.mem_of_getElem? change.present)] at lengths
  exact lengths

/-- The number of waiting tasks follows the stages. -/
theorem Advances.waiting_length
    (advances : Advances s after index first last) :
    after.waitingSwDecode.length +
        (decide (first = .loadedAwaitingDecode)).toNat =
      s.waitingSwDecode.length +
        (decide (last = .loadedAwaitingDecode)).toNat := by
  obtain ⟨old, new, change, rfl, rfl⟩ := advances
  have lengths := change.waitingSwDecode.length_eq
  have one : ∀ condition : Bool,
      (only condition index).length = condition.toNat := by
    rintro (_ | _) <;> rfl
  rw [List.length_append, List.length_append, one, one] at lengths
  exact lengths

/-- An advance that neither frees a slot nor starts to wait stays settled. -/
theorem Settled.advance
    (settled : Settled s)
    (sound : Sound s)
    (advances : Advances s after index first last)
    (keepsDst : first.holdsDst = true → last.holdsDst = true)
    (noWait : last ≠ .loadedAwaitingDecode) :
    Settled after := by
  intro software
  have free := advances.freeDst_length sound
  have waiting := advances.waiting_length
  have sameMode : after.mode = s.mode := by
    obtain ⟨_, _, change, _, _⟩ := advances
    exact change.mode
  have fewer : first.holdsDst.toNat ≤ last.holdsDst.toNat := by
    cases had : first.holdsDst with
    | false => exact Nat.zero_le _
    | true => exact Nat.le_of_eq (congrArg Bool.toNat (keepsDst had).symm)
  rw [decide_eq_false noWait] at waiting
  simp only [Bool.toNat_false] at waiting
  rcases settled (sameMode.symm.trans software) with none | nobody
  · refine Or.inl (List.length_eq_zero_iff.mp ?_)
    rw [none, List.length_nil] at free
    omega
  · refine Or.inr (List.length_eq_zero_iff.mp ?_)
    rw [nobody, List.length_nil] at waiting
    omega

/-- The image index of a task is its position. -/
theorem Tracked.imageIndex_eq
    (tracked : Tracked srcSlotCount dstSlotCount session)
    {task : TaskContext}
    (present : session.scheduler.tasks[index]? = some task) :
    session.imageIndex index = index := by
  have sound := tracked.known.sound tracked.healthy
  obtain ⟨inside, _⟩ := List.getElem?_eq_some_iff.mp present
  rw [Session.imageIndex, present, Option.map_some, Option.getD_some,
    sound.indexed _ _ present]
  exact Nat.mod_eq_of_lt (Nat.lt_of_lt_of_le inside tracked.known.indices)

/-- A job under way has its task in the stage of the job. -/
theorem Tracked.task_of_job
    (tracked : Tracked srcSlotCount dstSlotCount session)
    {kind : JobKind}
    (member : (kind, index) ∈ session.underWay) :
    ∃ task, session.scheduler.tasks[index]? = some task ∧
      task.stage = kind.stage := by
  obtain ⟨task, present, chosen⟩ :=
    (tracked.underWay kind).selected_of_mem (mem_ofKind member)
  exact ⟨task, present, by simpa [atStage] using chosen⟩

end Moves

/-! ## One call -/

section Calls

variable {srcSlotCount dstSlotCount : Nat}
variable {session : Session}

/-- A call that starts and completes nothing leaves the jobs alone. -/
theorem step_idle
    {call : Call}
    (completes : call.completes = none)
    (starts : session.starts call = none) :
    session.step call =
      { session with scheduler := session.scheduler.step call } := by
  simp [Session.step, completes, starts]

/-- Acquiring a CPU job starts it. -/
theorem Tracked.acquireCpuJob
    (tracked : Tracked srcSlotCount dstSlotCount session)
    (settled : Settled session.scheduler) :
    Tracked srcSlotCount dstSlotCount (session.step .acquireCpuJob) ∧
      Settled (session.step .acquireCpuJob).scheduler := by
  have sound := tracked.known.sound tracked.healthy
  rcases acquireCpuJob_cases sound tracked.known.indices with
    ⟨_, same⟩ | ⟨_, same⟩ | ⟨kind, index, after, found, advances⟩
  · rw [step_idle rfl (by simp [Session.starts, same])]
    simp only [Scheduler.step, Scheduler.effect, same]
    exact ⟨tracked, settled⟩
  · rw [step_idle rfl (by simp [Session.starts, same])]
    simp only [Scheduler.step, Scheduler.effect, same]
    exact ⟨tracked, settled⟩
  · have fresh : session.step .acquireCpuJob = {
        scheduler := after
        underWay := session.underWay ++ [(kind.job, index)]
        started := session.started ++ [(kind.job, index)] } := by
      have same : session.imageIndex index = index := by
        cases kind <;>
          (obtain ⟨_, _, change, _, _⟩ := advances
           exact tracked.imageIndex_eq change.present)
      simp [Session.step, Session.starts, Call.completes, found, same,
        Scheduler.step, Scheduler.effect]
    rw [fresh]
    cases kind with
    | load =>
        refine ⟨tracked.advance advances (fun kind => ?_) fun kind => ?_,
          settled.advance sound advances (by decide) (by simp)⟩
        · cases kind <;> simp [CpuJobKind.job, JobKind.stage]
        · cases kind <;> simp [CpuJobKind.job, JobKind.started]
    | softwareDecode =>
        refine ⟨tracked.advance advances (fun kind => ?_) fun kind => ?_,
          settled.advance sound advances (by decide) (by simp)⟩
        · cases kind <;> simp [CpuJobKind.job, JobKind.stage]
        · cases kind <;> simp [CpuJobKind.job, JobKind.started]
    | postProcess =>
        refine ⟨tracked.advance advances (fun kind => ?_) fun kind => ?_,
          settled.advance sound advances (by decide) (by simp)⟩
        · cases kind <;> simp [CpuJobKind.job, JobKind.stage]
        · cases kind <;> simp [CpuJobKind.job, JobKind.started]

/-- Acquiring a hardware task starts its submission. -/
theorem Tracked.tryAcquire
    (tracked : Tracked srcSlotCount dstSlotCount session)
    (settled : Settled session.scheduler) :
    Tracked srcSlotCount dstSlotCount
        (session.step .tryAcquireHardwareSubmitTask) ∧
      Settled
        (session.step .tryAcquireHardwareSubmitTask).scheduler := by
  have sound := tracked.known.sound tracked.healthy
  rcases tryAcquireHardwareSubmitTask_cases sound with
    ⟨_, same⟩ | ⟨index, after, found, advances⟩
  · rw [step_idle rfl (by simp [Session.starts, same])]
    simp only [Scheduler.step, Scheduler.effect, same]
    exact ⟨tracked, settled⟩
  · obtain ⟨old, new, change, was, now⟩ := id advances
    have fresh : session.step .tryAcquireHardwareSubmitTask = {
        scheduler := after
        underWay := session.underWay ++ [(.hardwareSubmit, index)]
        started := session.started ++ [(.hardwareSubmit, index)] } := by
      simp [Session.step, Session.starts, Call.completes, found,
        tracked.imageIndex_eq change.present, Scheduler.step,
        Scheduler.effect]
    rw [fresh]
    refine ⟨tracked.advance advances (fun kind => ?_) fun kind => ?_,
      settled.advance sound advances (by decide) (by simp)⟩
    · cases kind <;> simp [JobKind.stage]
    · cases kind <;> simp [JobKind.started]

/-- A loaded image stops being under way. -/
theorem Tracked.completeLoad
    (tracked : Tracked srcSlotCount dstSlotCount session)
    (settled : Settled session.scheduler)
    {imageIndex : Nat}
    (srcSize : Nat)
    (member : (.load, imageIndex) ∈ session.underWay) :
    Tracked srcSlotCount dstSlotCount
        (session.step (.completeLoad imageIndex srcSize)) ∧
      Settled
        (session.step (.completeLoad imageIndex srcSize)).scheduler := by
  have sound := tracked.known.sound tracked.healthy
  obtain ⟨task, present, stays⟩ := tracked.task_of_job member
  have advances := (completeLoad_cases sound imageIndex srcSize).result
    tracked.healthy present stays
  have erased := fun kind : JobKind => ofKind_erase kind member
  have fresh : session.step (.completeLoad imageIndex srcSize) = {
      scheduler := session.scheduler.step (.completeLoad imageIndex srcSize)
      underWay := session.underWay.erase (.load, imageIndex)
      started := session.started } := by
    simp [Session.step, Session.starts, Call.completes]
  rw [fresh]
  refine ⟨tracked.advance advances (fun kind => ?_) fun kind => ?_, ?_⟩
  · have taken := erased kind
    cases mode : session.scheduler.mode <;>
      cases free : session.scheduler.freeDstSlots <;>
        cases kind <;>
          simpa [JobKind.stage, stageAfterLoad, mode, free] using taken
  · cases mode : session.scheduler.mode <;>
      cases free : session.scheduler.freeDstSlots <;>
        cases kind <;> simp [JobKind.started, stageAfterLoad, mode, free]
  · intro software
    have sameMode : (session.scheduler.step
        (.completeLoad imageIndex srcSize)).mode =
          session.scheduler.mode := by
      obtain ⟨_, _, change, _, _⟩ := advances
      exact change.mode
    have mode := sameMode.symm.trans software
    cases free : session.scheduler.freeDstSlots with
    | nil =>
        have lengths := advances.freeDst_length sound
        simp only [stageAfterLoad, mode, free, TaskStage.holdsDst,
          List.length_nil, Bool.toNat_false] at lengths
        exact Or.inl (List.length_eq_zero_iff.mp (by omega))
    | cons slot others =>
        rw [show stageAfterLoad session.scheduler = .queuedForSwDecode by
          simp [stageAfterLoad, mode, free]] at advances
        exact settled.advance sound advances (by decide) (by simp) software

/-- A decoded image stops being under way. -/
theorem Tracked.decoded
    (tracked : Tracked srcSlotCount dstSlotCount session)
    (settled : Settled session.scheduler)
    {kind : JobKind}
    {imageIndex : Nat}
    {after : Scheduler}
    (decoding : kind = .softwareDecode ∨ kind = .hardwareDecode)
    (member : (kind, imageIndex) ∈ session.underWay)
    (advances :
      Advances session.scheduler after imageIndex kind.stage .decoded) :
    Tracked srcSlotCount dstSlotCount {
        scheduler := after
        underWay := session.underWay.erase (kind, imageIndex)
        started := session.started } ∧
      Settled after := by
  have sound := tracked.known.sound tracked.healthy
  have erased := fun other : JobKind => ofKind_erase other member
  obtain ⟨old, new, change, was, _⟩ := id advances
  have mode := sound.inMode old (List.mem_of_getElem? change.present)
  rw [was] at mode
  rcases decoding with rfl | rfl
  · have software : session.scheduler.mode = .software := by
      simpa [JobKind.stage, TaskStage.inMode] using mode
    refine ⟨tracked.advance advances (fun other => ?_) fun other => ?_,
      settled.advance sound advances (by decide) (by simp)⟩
    · have taken := erased other
      cases other <;> simpa [JobKind.stage] using taken
    · cases other <;> simp [JobKind.started, JobKind.stage, software]
  · have hardware : session.scheduler.mode = .hardware := by
      simpa [JobKind.stage, TaskStage.inMode] using mode
    refine ⟨tracked.advance advances (fun other => ?_) fun other => ?_,
      settled.advance sound advances (by decide) (by simp)⟩
    · have taken := erased other
      cases other <;> simpa [JobKind.stage] using taken
    · cases other <;> simp [JobKind.started, JobKind.stage, hardware]

/-- A submitted task is decoded by the device. -/
theorem Tracked.completeHardwareSubmit
    (tracked : Tracked srcSlotCount dstSlotCount session)
    (settled : Settled session.scheduler)
    {imageIndex : Nat}
    (now : Nat)
    (member : (.hardwareSubmit, imageIndex) ∈ session.underWay) :
    Tracked srcSlotCount dstSlotCount
        (session.step (.completeHardwareSubmit imageIndex now)) ∧
      Settled
        (session.step
          (.completeHardwareSubmit imageIndex now)).scheduler := by
  have sound := tracked.known.sound tracked.healthy
  obtain ⟨task, present, stays⟩ := tracked.task_of_job member
  have advances := (completeHardwareSubmit_cases sound imageIndex
    now).result tracked.healthy present stays
  have erased := fun kind : JobKind => ofKind_erase kind member
  have mode := sound.inMode task (List.mem_of_getElem? present)
  have hardware : session.scheduler.mode = .hardware := by
    simpa [stays, JobKind.stage, TaskStage.inMode] using mode
  have fresh : session.step (.completeHardwareSubmit imageIndex now) = {
      scheduler :=
        session.scheduler.step (.completeHardwareSubmit imageIndex now)
      underWay := session.underWay.erase (.hardwareSubmit, imageIndex) ++
        [(.hardwareDecode, imageIndex)]
      started := session.started ++ [(.hardwareDecode, imageIndex)] } := by
    simp [Session.step, Session.starts, Call.completes,
      tracked.imageIndex_eq present]
  rw [fresh]
  refine ⟨tracked.advance advances (fun kind => ?_) fun kind => ?_,
    settled.advance sound advances (by decide) (by simp)⟩
  · have taken := erased kind
    cases kind <;>
      simpa [JobKind.stage, List.perm_append_right_iff] using taken
  · cases kind <;> simp [JobKind.started]

/-- A post-processed image is done, and free slots go to waiting tasks. -/
theorem Tracked.completePostProcess
    (tracked : Tracked srcSlotCount dstSlotCount session)
    {imageIndex : Nat}
    (member : (.postProcess, imageIndex) ∈ session.underWay) :
    Tracked srcSlotCount dstSlotCount
        (session.step (.completePostProcess imageIndex)) ∧
      Settled
        (session.step (.completePostProcess imageIndex)).scheduler := by
  have sound := tracked.known.sound tracked.healthy
  obtain ⟨task, present, stays⟩ := tracked.task_of_job member
  obtain ⟨finished, advances, same⟩ := (completePostProcess_cases sound
    imageIndex).result tracked.healthy present stays
  have erased := fun kind : JobKind => ofKind_erase kind member
  have fresh : session.step (.completePostProcess imageIndex) = {
      scheduler :=
        session.scheduler.step (.completePostProcess imageIndex)
      underWay := session.underWay.erase (.postProcess, imageIndex)
      started := session.started } := by
    simp [Session.step, Session.starts, Call.completes]
  have done : Tracked srcSlotCount dstSlotCount {
      scheduler := finished
      underWay := session.underWay.erase (.postProcess, imageIndex)
      started := session.started } := by
    refine tracked.advance advances (fun kind => ?_) fun kind => ?_
    · have taken := erased kind
      cases kind <;> simpa [JobKind.stage] using taken
    · cases kind <;> simp [JobKind.started]
  rw [fresh, same]
  obtain ⟨_, _, change, _, _⟩ := advances
  cases mode : session.scheduler.mode with
  | hardware =>
      refine ⟨done, fun software => ?_⟩
      rw [change.mode, mode] at software
      cases software
  | software =>
      have assigned := assignSwDecodeJobs_induction
        (fun s => Tracked srcSlotCount dstSlotCount {
          scheduler := s
          underWay := session.underWay.erase (.postProcess, imageIndex)
          started := session.started })
        (fun _ _ _ _ tracked advances =>
          tracked.advance advances
            (fun kind => by cases kind <;> simp [JobKind.stage])
            (fun kind => by cases kind <;> simp [JobKind.started]))
        _ (sound.change change) rfl done
      exact ⟨assigned.2.1, fun _ => assigned.2.2⟩

/-- A matching call keeps the jobs tracked and the slots settled. -/
theorem Tracked.step
    (tracked : Tracked srcSlotCount dstSlotCount session)
    (settled : Settled session.scheduler)
    {call : Call}
    (matching : session.Matching call) :
    Tracked srcSlotCount dstSlotCount (session.step call) ∧
      Settled (session.step call).scheduler := by
  have sound := tracked.known.sound tracked.healthy
  cases call with
  | acquireCpuJob => exact tracked.acquireCpuJob settled
  | tryAcquireHardwareSubmitTask => exact tracked.tryAcquire settled
  | completeLoad imageIndex srcSize =>
      exact tracked.completeLoad settled srcSize (matching.1 _ rfl)
  | completeSoftwareDecode imageIndex cpl =>
      have member := matching.1 (.softwareDecode, imageIndex) rfl
      obtain ⟨task, present, stays⟩ := tracked.task_of_job member
      have advances := (completeSoftwareDecode_cases sound imageIndex
        cpl).result tracked.healthy present stays
      simpa [Session.step, Session.starts, Call.completes] using
        tracked.decoded settled (Or.inl rfl) member advances
  | completeHardwareSubmit imageIndex now =>
      exact tracked.completeHardwareSubmit settled now (matching.1 _ rfl)
  | completeHardwareDecode imageIndex cpl =>
      have member := matching.1 (.hardwareDecode, imageIndex) rfl
      obtain ⟨task, present, stays⟩ := tracked.task_of_job member
      have advances := (completeHardwareDecode_cases sound imageIndex
        cpl).result tracked.healthy present stays
      simpa [Session.step, Session.starts, Call.completes] using
        tracked.decoded settled (Or.inr rfl) member advances
  | completePostProcess imageIndex =>
      exact tracked.completePostProcess (matching.1 _ rfl)
  | fail message => exact Bool.noConfusion matching.2

end Calls

/-! ## Waking, progress and the end -/

section Liveness

variable {srcSlotCount dstSlotCount : Nat}
variable {session : Session}
variable {s : Scheduler}

/-- A completion whose result notifies changes nothing or notifies. -/
theorem completing_notifies
    {imageIndex : Nat}
    {what : String}
    {expected : TaskStage}
    {slots : TaskContext → Bool}
    {finish : TaskContext → Effect}
    (notifies : ∀ task, (finish task).notifyAll = true) :
    (s.completing imageIndex what expected slots finish).after = s ∨
      (s.completing imageIndex what expected slots finish).notifyAll =
        true := by
  cases failed : s.failed with
  | true => exact Or.inl (by simp [Scheduler.completing, failed])
  | false =>
      cases found : s.tasks[imageIndex]? with
      | none =>
          exact Or.inl (by simp [Scheduler.completing, failed, found])
      | some task =>
          refine Or.inr ?_
          simp only [Scheduler.completing, failed, found]
          by_cases fits : (task.stage != expected || !slots task) = true
          · simp [fits]
          · simp [fits, notifies]

/-- A thread that would wait finds nothing to change. -/
theorem acquireCpuJob_asleep
    (asleep : s.waitPredicate = false) :
    s.acquireCpuJob.2 = s := by
  simp only [Scheduler.waitPredicate, Scheduler.hasReadyCpuJobLocked,
    Bool.or_eq_false_iff, Bool.not_eq_false'] at asleep
  obtain ⟨⟨healthy, unfinished⟩, ⟨noPost, noDecode⟩, noLoad⟩ := asleep
  have post : s.acquirePostProcess = (none, s) := by
    have queue := List.isEmpty_iff.mp noPost
    simp only [Scheduler.acquirePostProcess, queue, Scheduler.popSuitable]
    rw [← queue]
  have decode : s.acquireSoftwareDecode = (none, s) := by
    cases mode : s.mode with
    | hardware => simp [Scheduler.acquireSoftwareDecode, mode]
    | software =>
        have queue : s.readySwDecode = [] := by simpa [mode] using noDecode
        simp only [Scheduler.acquireSoftwareDecode, mode, queue,
          Scheduler.popSuitable]
        rw [← queue, ← mode]
  have load : s.acquireLoad = (none, s) := by
    by_cases more : s.nextLoadIndex < s.tasks.length
    · have free : s.freeSrcSlots = [] := by simpa [more] using noLoad
      simp [Scheduler.acquireLoad, free]
    · simp [Scheduler.acquireLoad, more]
  simp [Scheduler.acquireCpuJob, healthy, unfinished, post, decode, load]

/-- Acquiring a hardware task does not concern the waiting threads. -/
theorem waitPredicate_tryAcquire :
    s.tryAcquireHardwareSubmitTask.2.waitPredicate = s.waitPredicate := by
  unfold Scheduler.tryAcquireHardwareSubmitTask
  split
  · rfl
  · split
    · rfl
    · split <;>
        simp [Scheduler.waitPredicate, Scheduler.allWorkDoneLocked,
          Scheduler.hasReadyCpuJobLocked]

/-- Replacing a task does not concern the waiting threads. -/
theorem waitPredicate_set (index : Nat) (task : TaskContext) :
    { s with tasks := s.tasks.set index task }.waitPredicate =
      s.waitPredicate := by
  simp [Scheduler.waitPredicate, Scheduler.allWorkDoneLocked,
    Scheduler.hasReadyCpuJobLocked]

/-- Whoever makes the wait predicate true notifies the waiting threads. -/
theorem wakes_waiters
    (call : Call)
    (asleep : s.waitPredicate = false)
    (awake : (s.step call).waitPredicate = true) :
    (s.effect call).notifyAll = true := by
  have changed : s.step call ≠ s := fun same => by
    rw [same, asleep] at awake
    exact Bool.noConfusion awake
  cases call with
  | acquireCpuJob => exact absurd (acquireCpuJob_asleep asleep) changed
  | tryAcquireHardwareSubmitTask =>
      rw [Scheduler.step, Scheduler.effect, waitPredicate_tryAcquire,
        asleep] at awake
      exact Bool.noConfusion awake
  | completeLoad imageIndex srcSize =>
      refine (completing_notifies fun task => ?_).resolve_left changed
      cases s.mode <;> cases s.freeDstSlots <;> rfl
  | completeSoftwareDecode imageIndex cpl =>
      exact (completing_notifies fun _ => rfl).resolve_left changed
  | completeHardwareSubmit imageIndex now =>
      -- The only completion that does not notify leaves the predicate alone.
      simp only [Scheduler.step, Scheduler.effect,
        Scheduler.completeHardwareSubmit, Scheduler.completing] at awake ⊢
      split_ifs at awake ⊢ with failed
      · exact absurd (step_failed failed _) changed
      · split at awake
        · exact Bool.noConfusion (asleep.symm.trans awake)
        · split_ifs at awake ⊢ with misplaced
          · rfl
          · rw [waitPredicate_set, asleep] at awake
            exact Bool.noConfusion awake
  | completeHardwareDecode imageIndex cpl =>
      exact (completing_notifies fun _ => rfl).resolve_left changed
  | completePostProcess imageIndex =>
      refine (completing_notifies fun task => ?_).resolve_left changed
      cases s.mode <;> rfl
  | fail message =>
      cases failed : s.failed with
      | true => exact absurd (step_failed failed _) changed
      | false => simp [Scheduler.effect, Scheduler.fail, failed]

/-- When nobody holds a resource, all of them are free. -/
theorem free_of_nobody
    {resource : TaskContext → Option Nat}
    {total free : List Nat}
    {tasks : List TaskContext}
    (conserved : (free ++ tasks.filterMap resource).Perm total)
    (nobody : ∀ task ∈ tasks, resource task = none) :
    free.Perm total := by
  rwa [List.filterMap_eq_nil_iff.mpr nobody, List.append_nil] at conserved

/-- A pool with a slot whose slots nobody holds has a free one. -/
theorem someFree_of_nobody
    {resource : TaskContext → Option Nat}
    {count : Nat}
    {free : List Nat}
    {tasks : List TaskContext}
    (someSlot : 1 ≤ count)
    (conserved : (free ++ tasks.filterMap resource).Perm (List.range count))
    (nobody : ∀ task ∈ tasks, resource task = none) :
    free ≠ [] := by
  rintro rfl
  have lengths := (free_of_nobody conserved nobody).length_eq
  rw [List.length_nil, List.length_range] at lengths
  omega

/-- A stage that holds no slot leaves the slot empty. -/
theorem Sound.noSrc
    (sound : Sound s)
    {task : TaskContext}
    (member : task ∈ s.tasks)
    (without : task.stage.holdsSrc = false) :
    task.srcSlot = none := by
  have held := sound.holdsSrc task member
  rw [without] at held
  exact Option.isNone_iff_eq_none.mp (Option.isSome_eq_false_iff.mp held)

/-- A stage that holds no destination slot leaves it empty. -/
theorem Sound.noDst
    (sound : Sound s)
    {task : TaskContext}
    (member : task ∈ s.tasks)
    (without : task.stage.holdsDst = false) :
    task.dstSlot = none := by
  have held := sound.holdsDst task member
  rw [without] at held
  exact Option.isNone_iff_eq_none.mp (Option.isSome_eq_false_iff.mp held)

/-- With every task pending or done, the next image can be loaded. -/
theorem Tracked.canLoad
    (tracked : Tracked srcSlotCount dstSlotCount session)
    (someSrc : 1 ≤ srcSlotCount)
    (left : session.scheduler.numDone < session.scheduler.tasks.length)
    (idle : ∀ task ∈ session.scheduler.tasks,
      task.stage = .pendingLoad ∨ task.stage = .done) :
    session.scheduler.hasReadyCpuJobLocked = true := by
  have sound := tracked.known.sound tracked.healthy
  have free : session.scheduler.freeSrcSlots ≠ [] :=
    someFree_of_nobody someSrc tracked.known.consistent.srcSlots
      fun task member => sound.noSrc member (by
        rcases idle task member with stays | stays <;>
          simp [stays, TaskStage.holdsSrc])
  have more :
      session.scheduler.nextLoadIndex < session.scheduler.tasks.length := by
    by_contra unserved
    have all : session.scheduler.tasks.countP (atStage .done) =
        session.scheduler.tasks.length := by
      refine List.countP_eq_length.mpr fun task member => ?_
      obtain ⟨position, present⟩ := List.mem_iff_getElem?.mp member
      obtain ⟨inside, _⟩ := List.getElem?_eq_some_iff.mp present
      have loaded := (sound.toLoad _ _ present).not.mpr (by omega)
      simpa [atStage] using (idle task member).resolve_left loaded
    rw [tracked.known.consistent.numDone, all] at left
    exact Nat.lt_irrefl _ left
  simp [Scheduler.hasReadyCpuJobLocked, more, free]

/-- With tasks left, somebody is busy or a job can be acquired. -/
theorem Tracked.progress
    (tracked : Tracked srcSlotCount dstSlotCount session)
    (settled : Settled session.scheduler)
    (someSrc : 1 ≤ srcSlotCount)
    (someDst : 1 ≤ dstSlotCount)
    (left : session.scheduler.numDone < session.scheduler.tasks.length) :
    (∃ job, session.scheduler.acquireCpuJob.1 = .job job) ∨
      (session.scheduler.mode = .hardware ∧
        ∃ task, session.scheduler.tryAcquireHardwareSubmitTask.1 =
          some task) ∨
      session.Busy := by
  have sound := tracked.known.sound tracked.healthy
  rcases acquireCpuJob_cases sound tracked.known.indices with
    ⟨failed | ended, _⟩ | ⟨noJob, _⟩ | ⟨kind, index, after, found, _⟩
  · exact Bool.noConfusion (tracked.healthy.symm.trans failed)
  · have all : session.scheduler.numDone =
        session.scheduler.tasks.length := by
      simpa [Scheduler.allWorkDoneLocked] using ended
    omega
  · by_cases busy : session.Busy
    · exact Or.inr (Or.inr busy)
    have queues := noJob
    simp only [Scheduler.hasReadyCpuJobLocked, Bool.or_eq_false_iff]
      at queues
    obtain ⟨⟨noPost, noDecode⟩, _⟩ := queues
    -- Nobody is busy and nothing is ready, so each task is pending, done or
    -- waiting for a destination slot.
    have resting : ∀ task ∈ session.scheduler.tasks,
        task.stage = .pendingLoad ∨ task.stage = .done ∨
          task.stage = .loadedAwaitingDecode ∨
          task.stage = .queuedForHwSubmit := by
      intro task member
      obtain ⟨position, present⟩ := List.mem_iff_getElem?.mp member
      have notBusy : ∀ kind : JobKind, task.stage ≠ kind.stage :=
        fun kind stays => busy ⟨task, member, kind, stays⟩
      have mode := sound.inMode task member
      cases stays : task.stage with
      | pendingLoad => exact Or.inl rfl
      | done => exact Or.inr (Or.inl rfl)
      | loadedAwaitingDecode => exact Or.inr (Or.inr (Or.inl rfl))
      | queuedForHwSubmit => exact Or.inr (Or.inr (Or.inr rfl))
      | loading => exact absurd stays (notBusy .load)
      | swDecoding => exact absurd stays (notBusy .softwareDecode)
      | hwSubmitting => exact absurd stays (notBusy .hardwareSubmit)
      | hwInflight => exact absurd stays (notBusy .hardwareDecode)
      | postProcessing => exact absurd stays (notBusy .postProcess)
      | failed => simp [stays, TaskStage.inMode] at mode
      | decoded =>
          have queued := sound.readyPost.mem_of_selected present
            (by simp [atStage, stays])
          simp [List.isEmpty_iff.mp (by simpa using noPost)] at queued
      | queuedForSwDecode =>
          have queued := sound.readySwDecode.mem_of_selected present
            (by simp [atStage, stays])
          rw [stays] at mode
          simp only [TaskStage.inMode] at mode
          simp only [mode, Bool.true_and, Bool.not_eq_false'] at noDecode
          simp [List.isEmpty_iff.mp noDecode] at queued
    have freeDst : session.scheduler.freeDstSlots ≠ [] :=
      someFree_of_nobody someDst tracked.known.consistent.dstSlots
        fun task member => sound.noDst member (by
          rcases resting task member with stays | stays | stays | stays <;>
            simp [stays, TaskStage.holdsDst])
    by_cases waiting : ∃ task ∈ session.scheduler.tasks,
        task.stage = .loadedAwaitingDecode ∨
          task.stage = .queuedForHwSubmit
    · obtain ⟨task, member, stays | stays⟩ := waiting
      · obtain ⟨position, present⟩ := List.mem_iff_getElem?.mp member
        have queued := sound.waitingSwDecode.mem_of_selected present
          (by simp [atStage, stays])
        have mode := sound.inMode task member
        rw [stays] at mode
        have software : session.scheduler.mode = .software := by
          simpa [TaskStage.inMode] using mode
        rcases settled software with noneFree | nobody
        · exact absurd noneFree freeDst
        · simp [nobody] at queued
      · obtain ⟨position, present⟩ := List.mem_iff_getElem?.mp member
        have queued := sound.readyHwSubmit.mem_of_selected present
          (by simp [atStage, stays])
        have mode := sound.inMode task member
        rw [stays] at mode
        have hardware : session.scheduler.mode = .hardware := by
          simpa [TaskStage.inMode] using mode
        rcases tryAcquireHardwareSubmitTask_cases sound with
          ⟨failed | noneFree | nobody, _⟩ | ⟨index, after, found, _⟩
        · exact Bool.noConfusion (tracked.healthy.symm.trans failed)
        · exact absurd noneFree freeDst
        · simp [nobody] at queued
        · exact Or.inr (Or.inl ⟨hardware, index, by rw [found]⟩)
    · have ready := tracked.canLoad someSrc left fun task member => by
        rcases resting task member with stays | stays | stays | stays
        · exact Or.inl stays
        · exact Or.inr stays
        · exact absurd ⟨task, member, Or.inl stays⟩ waiting
        · exact absurd ⟨task, member, Or.inr stays⟩ waiting
      exact Bool.noConfusion (noJob.symm.trans ready)
  · exact Or.inl ⟨_, congrArg Prod.fst found⟩

/-- When all tasks are done, each job was started once and slots are free. -/
theorem Tracked.finished
    (tracked : Tracked srcSlotCount dstSlotCount session)
    (all : session.scheduler.numDone = session.scheduler.tasks.length) :
    (∀ position < session.scheduler.tasks.length,
        session.started.count (.load, position) = 1 ∧
        session.started.count
          (session.scheduler.mode.decode, position) = 1 ∧
        session.started.count (.postProcess, position) = 1) ∧
      session.scheduler.freeSrcSlots.Perm (List.range srcSlotCount) ∧
      session.scheduler.freeDstSlots.Perm (List.range dstSlotCount) := by
  have sound := tracked.known.sound tracked.healthy
  have consistent := tracked.known.consistent
  have done : ∀ task ∈ session.scheduler.tasks, task.stage = .done := by
    rw [consistent.numDone] at all
    intro task member
    simpa [atStage] using List.countP_eq_length.mp all task member
  refine ⟨fun position inside => ?_, ?_, ?_⟩
  · have present := List.getElem?_eq_getElem inside
    have stays := done _ (List.getElem_mem inside)
    have once : ∀ kind : JobKind,
        kind.started session.scheduler.mode .done = true →
          session.started.count (kind, position) = 1 := by
      intro kind ran
      rw [← count_ofKind, tracked.started kind position, present]
      simp [stays, ran]
    refine ⟨once .load rfl, once _ ?_, once .postProcess rfl⟩
    cases mode : session.scheduler.mode <;> rfl
  · exact free_of_nobody consistent.srcSlots fun task member =>
      sound.noSrc member (by simp [done task member, TaskStage.holdsSrc])
  · exact free_of_nobody consistent.dstSlots fun task member =>
      sound.noDst member (by simp [done task member, TaskStage.holdsDst])

/-- Before the first call nothing is under way. -/
theorem tracked_start
    (mode : BackendMode)
    (imagePaths : List String)
    (indices : imagePaths.length ≤ indexRange) :
    Tracked srcSlotCount dstSlotCount
      (.start mode imagePaths srcSlotCount dstSlotCount) := by
  have pending : ∀ {position : Nat} {task : TaskContext},
      (imagePaths.mapIdx TaskContext.pending)[position]? = some task →
        task.stage = .pendingLoad := by
    intro position task found
    rw [List.getElem?_mapIdx, Option.map_eq_some_iff] at found
    obtain ⟨path, _, rfl⟩ := found
    rfl
  refine ⟨known_start mode imagePaths indices, rfl, fun kind index => ?_,
    fun kind index => ?_⟩
  · cases found : (imagePaths.mapIdx TaskContext.pending)[index]? with
    | none => simp [Session.start, Scheduler.start, found]
    | some task =>
        cases kind <;>
          simp [Session.start, Scheduler.start, found, atStage,
            pending found, JobKind.stage]
  · cases found : (imagePaths.mapIdx TaskContext.pending)[index]? with
    | none => simp [Session.start, Scheduler.start, found]
    | some task =>
        cases kind <;>
          simp [Session.start, Scheduler.start, found, pending found,
            JobKind.started]

end Liveness

/--
In every run in which acquired jobs are completed by the matching calls, a
scheduler for at most 2^32 images never fails and never gets stuck, wakes its
waiting threads, and ends with each job started once and all slots free.
-/
theorem scheduler_live
    (mode : BackendMode)
    (imagePaths : List String)
    (srcSlotCount dstSlotCount : Nat)
    (calls : List Call)
    (indices : imagePaths.length ≤ indexRange)
    (someSrc : 1 ≤ srcSlotCount)
    (someDst : 1 ≤ dstSlotCount)
    (matching :
      Along Session.step Session.Matching
        (.start mode imagePaths srcSlotCount dstSlotCount) calls) :
    (run Session.step
      (.start mode imagePaths srcSlotCount dstSlotCount) calls).Live
        srcSlotCount dstSlotCount := by
  have preserved : ∀ session call,
      Tracked srcSlotCount dstSlotCount session ∧
          Settled session.scheduler →
        session.Matching call →
          Tracked srcSlotCount dstSlotCount (session.step call) ∧
            Settled (session.step call).scheduler :=
    fun _ _ known matching => known.1.step known.2 matching
  obtain ⟨tracked, settled⟩ := run_invariant preserved
    ⟨tracked_start mode imagePaths indices, fun _ => Or.inr rfl⟩ matching
  exact {
    healthy := tracked.healthy
    progress := tracked.progress settled someSrc someDst
    wakes := fun call => wakes_waiters call
    finished := tracked.finished }

/-- One image is loaded, decoded and post-processed in software. -/
theorem scheduler_live_one :
    (run Session.step (.start .software ["a.jpg"] 1 1)
      (serveCalls 0)).Live 1 1 :=
  scheduler_live .software ["a.jpg"] 1 1 (serveCalls 0) (by decide)
    (by decide) (by decide) (by decide)

/-! ## More images than indices -/

/-- The jobs of one task in software mode. -/
def softwareJobs (task : Nat) : List (JobKind × Nat) :=
  [(.load, task), (.softwareDecode, task), (.postProcess, task)]

section Overrun

variable {count : Nat}

/-- Six matching calls serve the next image when its index fits. -/
theorem session_next
    (images : Nat)
    (started : List (JobKind × Nat))
    (inside : count < images)
    (fits : count < indexRange) :
    Along Session.step Session.Matching
        ⟨served images count, [], started⟩ (serveCalls count) ∧
      run Session.step ⟨served images count, [], started⟩
          (serveCalls count) =
        ⟨served images (count + 1), [],
          started ++ softwareJobs count⟩ := by
  have same : count % indexRange = count := Nat.mod_eq_of_lt fits
  have unfinished : count ≠ images := Nat.ne_of_lt inside
  constructor <;>
    simp [serveCalls, served, Session.step, Session.starts,
      Session.Matching, Session.imageIndex, Call.completes, Call.isFail,
      CpuJobKind.job, softwareJobs, Scheduler.step, Scheduler.effect,
      Scheduler.acquireCpuJob, Scheduler.allWorkDoneLocked,
      Scheduler.acquirePostProcess, Scheduler.acquireSoftwareDecode,
      Scheduler.acquireLoad, Scheduler.popSuitable, unfinished, inside,
      same, Scheduler.completeLoad, Scheduler.completing,
      Scheduler.completeSoftwareDecode, Scheduler.decodeCompleted,
      Scheduler.completePostProcess, Scheduler.assignSwDecodeJobsLocked,
      Scheduler.assignSwDecodeJobs, ← tasksAfter_succ, taskAfter,
      TaskContext.pending]

/-- Image after image is served by matching calls. -/
theorem session_all
    (images : Nat)
    (inside : count ≤ images)
    (fits : count ≤ indexRange) :
    Along Session.step Session.Matching ⟨served images 0, [], []⟩
        ((List.range count).flatMap serveCalls) ∧
      run Session.step ⟨served images 0, [], []⟩
          ((List.range count).flatMap serveCalls) =
        ⟨served images count, [],
          (List.range count).flatMap softwareJobs⟩ := by
  induction count with
  | zero =>
      exact ⟨trivial, rfl⟩
  | succ count inductionHypothesis =>
      obtain ⟨matching, reached⟩ := inductionHypothesis
        (Nat.le_of_succ_le inside) (Nat.le_of_succ_le fits)
      obtain ⟨further, next⟩ := session_next images
        ((List.range count).flatMap softwareJobs) inside fits
      rw [List.range_succ, List.flatMap_append, List.flatMap_append,
        along_append, run_append, reached]
      simpa using ⟨⟨matching, further⟩, next⟩

/-- The image behind the last index is served as task 0. -/
theorem session_overrun
    (started : List (JobKind × Nat))
    (last : count = indexRange) :
    Along Session.step Session.Matching
        ⟨served (count + 1) count, [], started⟩ (serveCalls 0) ∧
      (run Session.step ⟨served (count + 1) count, [], started⟩
          (serveCalls 0)).scheduler.numDone = count + 1 ∧
      (run Session.step ⟨served (count + 1) count, [], started⟩
          (serveCalls 0)).scheduler.tasks.length = count + 1 ∧
      (run Session.step ⟨served (count + 1) count, [], started⟩
          (serveCalls 0)).started = started ++ softwareJobs 0 := by
  have first : count % indexRange = 0 := by rw [last, Nat.mod_self]
  refine ⟨?_, ?_, ?_, ?_⟩ <;>
    simp [serveCalls, served, Session.step, Session.starts,
      Session.Matching, Session.imageIndex, Call.completes, Call.isFail,
      CpuJobKind.job, softwareJobs, Scheduler.step, Scheduler.effect,
      Scheduler.acquireCpuJob, Scheduler.allWorkDoneLocked,
      Scheduler.acquirePostProcess, Scheduler.acquireSoftwareDecode,
      Scheduler.acquireLoad, Scheduler.popSuitable, first,
      Scheduler.completeLoad, Scheduler.completing,
      Scheduler.completeSoftwareDecode, Scheduler.decodeCompleted,
      Scheduler.completePostProcess, Scheduler.assignSwDecodeJobsLocked,
      Scheduler.assignSwDecodeJobs, taskAfter, TaskContext.pending]

/-- The last image is never handed out, yet all tasks count as done. -/
theorem overrun_not_live
    (last : count = indexRange)
    (positive : 0 < count) :
    Along Session.step Session.Matching
        (.start .software (List.replicate (count + 1) "") 1 1)
        ((List.range count).flatMap serveCalls ++ serveCalls 0) ∧
      ¬ (run Session.step
          (.start .software (List.replicate (count + 1) "") 1 1)
          ((List.range count).flatMap serveCalls ++ serveCalls 0)).Live
            1 1 := by
  have start : Session.start .software (List.replicate (count + 1) "") 1 1 =
      ⟨served (count + 1) 0, [], []⟩ := by
    rw [Session.start, start_served]
  obtain ⟨matching, reached⟩ := session_all (count + 1)
    (Nat.le_succ count) (Nat.le_of_eq last)
  obtain ⟨further, done, length, jobs⟩ := session_overrun
    ((List.range count).flatMap softwareJobs) last
  rw [start, along_append, run_append, reached]
  refine ⟨⟨matching, further⟩, fun live => ?_⟩
  have once := (live.finished (done.trans length.symm)).1 count
    (by rw [length]; exact Nat.lt_succ_self count)
  have never : (JobKind.load, count) ∉
      (List.range count).flatMap softwareJobs ++ softwareJobs 0 := by
    simp [softwareJobs]
    omega
  rw [jobs, List.count_eq_zero_of_not_mem never] at once
  exact absurd once.1 (by decide)

end Overrun

/--
With one image more than there are indices, the counter reaches the number of
tasks although the last one was never loaded.
-/
theorem index_overflow_skips_last :
    ¬ ∀ mode imagePaths srcSlotCount dstSlotCount calls,
      1 ≤ srcSlotCount → 1 ≤ dstSlotCount →
      Along Session.step Session.Matching
        (.start mode imagePaths srcSlotCount dstSlotCount) calls →
      (run Session.step
        (.start mode imagePaths srcSlotCount dstSlotCount) calls).Live
          srcSlotCount dstSlotCount := by
  intro claimed
  -- The number of indices stays a variable, so that nothing counts to it.
  obtain ⟨count, last⟩ : ∃ count, count = indexRange := ⟨_, rfl⟩
  have positive : 0 < count := by
    rw [last]
    decide
  obtain ⟨matching, dead⟩ := overrun_not_live last positive
  exact dead (claimed _ _ _ _ _ (Nat.le_refl _) (Nat.le_refl _) matching)

end CoreJpeg.Driver
