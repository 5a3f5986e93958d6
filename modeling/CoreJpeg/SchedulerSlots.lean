import CoreJpeg.Holders
import CoreJpeg.SchedulerModel

namespace CoreJpeg.Driver

open Clocked Holders

/-!
# Slots, queues and counters of the scheduler

No call loses a slot or hands it out twice, and every queue lists exactly the
tasks whose stage it serves.  Each call that does anything moves one task from
one stage to another; a `Change` says what such a move must balance, and the
invariants are preserved by every change.  Completing a post-process in
software mode is one change followed by one per newly assigned slot.
-/

/-- The stages in which a task holds a source slot. -/
def TaskStage.holdsSrc : TaskStage → Bool
  | .loading | .loadedAwaitingDecode | .queuedForHwSubmit | .hwSubmitting
  | .hwInflight | .queuedForSwDecode | .swDecoding => true
  | _ => false

/-- The stages in which a task holds a destination slot. -/
def TaskStage.holdsDst : TaskStage → Bool
  | .hwSubmitting | .hwInflight | .queuedForSwDecode | .swDecoding
  | .decoded | .postProcessing => true
  | _ => false

/-- The stages of a run without failure, by mode. -/
def TaskStage.inMode (mode : BackendMode) : TaskStage → Bool
  | .failed => false
  | .queuedForHwSubmit | .hwSubmitting | .hwInflight => mode == .hardware
  | .loadedAwaitingDecode | .queuedForSwDecode | .swDecoding =>
      mode == .software
  | _ => true

/-- A task is at a stage. -/
def atStage (stage : TaskStage) (task : TaskContext) : Bool :=
  decide (task.stage = stage)

/-- Every queue lists the tasks of its stage, each once. -/
structure Queued (s : Scheduler) : Prop where
  readyPost : Lists (atStage .decoded) s.readyPost s.tasks
  waitingSwDecode :
    Lists (atStage .loadedAwaitingDecode) s.waitingSwDecode s.tasks
  readySwDecode :
    Lists (atStage .queuedForSwDecode) s.readySwDecode s.tasks
  readyHwSubmit :
    Lists (atStage .queuedForHwSubmit) s.readyHwSubmit s.tasks

/--
The slots of both pools are free or held by one task, the counter counts the
tasks that are done, and without a failure the queues list their tasks.
-/
structure Consistent
    (srcSlotCount dstSlotCount : Nat) (s : Scheduler) : Prop where
  srcSlots :
    (s.freeSrcSlots ++ s.tasks.filterMap (·.srcSlot)).Perm
      (List.range srcSlotCount)
  dstSlots :
    (s.freeDstSlots ++ s.tasks.filterMap (·.dstSlot)).Perm
      (List.range dstSlotCount)
  numDone : s.numDone = s.tasks.countP (atStage .done)
  queued : s.failed = false → Queued s

/-- No two tasks hold the same slot. -/
def Exclusive (s : Scheduler) : Prop :=
  ∀ (first second : Nat) (one other : TaskContext),
    s.tasks[first]? = some one → s.tasks[second]? = some other →
      (∀ slot, one.srcSlot = some slot → other.srcSlot = some slot →
        first = second) ∧
      (∀ slot, one.dstSlot = some slot → other.dstSlot = some slot →
        first = second)

/-- What holds between calls of a scheduler that has not failed. -/
structure Sound (s : Scheduler) : Prop extends Queued s where
  holdsSrc : ∀ task ∈ s.tasks, task.srcSlot.isSome = task.stage.holdsSrc
  holdsDst : ∀ task ∈ s.tasks, task.dstSlot.isSome = task.stage.holdsDst
  inMode : ∀ task ∈ s.tasks, task.stage.inMode s.mode = true
  indexed : ∀ position task, s.tasks[position]? = some task →
    task.imageIndex = position % indexRange
  toLoad : ∀ position task, s.tasks[position]? = some task →
    (task.stage = .pendingLoad ↔ s.nextLoadIndex ≤ position)

/-- The invariant of every run. -/
structure Known
    (srcSlotCount dstSlotCount : Nat) (s : Scheduler) : Prop where
  consistent : Consistent srcSlotCount dstSlotCount s
  sound : s.failed = false → Sound s
  indices : s.tasks.length ≤ indexRange

/-- What a call that changes one task must balance. -/
structure Change
    (s s' : Scheduler) (index : Nat) (old new : TaskContext) : Prop where
  present : s.tasks[index]? = some old
  tasks : s'.tasks = s.tasks.set index new
  mode : s'.mode = s.mode
  failed : s'.failed = s.failed
  src :
    (s'.freeSrcSlots ++ new.srcSlot.toList).Perm
      (s.freeSrcSlots ++ old.srcSlot.toList)
  dst :
    (s'.freeDstSlots ++ new.dstSlot.toList).Perm
      (s.freeDstSlots ++ old.dstSlot.toList)
  numDone :
    s'.numDone + (atStage .done old).toNat =
      s.numDone + (atStage .done new).toNat
  readyPost :
    (s'.readyPost ++ only (atStage .decoded old) index).Perm
      (s.readyPost ++ only (atStage .decoded new) index)
  waitingSwDecode :
    (s'.waitingSwDecode ++
        only (atStage .loadedAwaitingDecode old) index).Perm
      (s.waitingSwDecode ++
        only (atStage .loadedAwaitingDecode new) index)
  readySwDecode :
    (s'.readySwDecode ++ only (atStage .queuedForSwDecode old) index).Perm
      (s.readySwDecode ++ only (atStage .queuedForSwDecode new) index)
  readyHwSubmit :
    (s'.readyHwSubmit ++ only (atStage .queuedForHwSubmit old) index).Perm
      (s.readyHwSubmit ++ only (atStage .queuedForHwSubmit new) index)
  holdsSrc : new.srcSlot.isSome = new.stage.holdsSrc
  holdsDst : new.dstSlot.isSome = new.stage.holdsDst
  inMode : new.stage.inMode s.mode = true
  imageIndex : new.imageIndex = old.imageIndex
  notPending : new.stage ≠ .pendingLoad
  next :
    if old.stage = .pendingLoad then
      index = s.nextLoadIndex ∧ s'.nextLoadIndex = s.nextLoadIndex + 1
    else s'.nextLoadIndex = s.nextLoadIndex

/-- One task moves from one stage to another. -/
def Advances
    (s s' : Scheduler) (index : Nat) (before after : TaskStage) : Prop :=
  ∃ old new, Change s s' index old new ∧
    old.stage = before ∧ new.stage = after

/--
A completion is ignored after a failure or for an unknown task, fails the
scheduler for a task in another stage, or has its result.
-/
def Reported
    (s after : Scheduler)
    (index : Nat)
    (expected : TaskStage)
    (result : Prop) : Prop :=
  after = s ∧ (s.failed = true ∨ s.tasks[index]? = none) ∨
    ((∃ message,
        after = { s with failed := true, failureMessage := message }) ∧
      ∃ task, s.tasks[index]? = some task ∧ task.stage ≠ expected) ∨
    result

section Changes

variable {srcSlotCount dstSlotCount : Nat}
variable {s s' : Scheduler}
variable {index : Nat}
variable {old new : TaskContext}

/-- A change keeps the queues. -/
theorem Queued.change
    (queued : Queued s)
    (change : Change s s' index old new) :
    Queued s' where
  readyPost := by
    rw [change.tasks]
    exact queued.readyPost.exchange change.present change.readyPost
  waitingSwDecode := by
    rw [change.tasks]
    exact queued.waitingSwDecode.exchange change.present
      change.waitingSwDecode
  readySwDecode := by
    rw [change.tasks]
    exact queued.readySwDecode.exchange change.present change.readySwDecode
  readyHwSubmit := by
    rw [change.tasks]
    exact queued.readyHwSubmit.exchange change.present change.readyHwSubmit

/-- A task after a change is an old task or the new one. -/
theorem Change.task_cases
    (change : Change s s' index old new)
    {position : Nat}
    {task : TaskContext}
    (found : s'.tasks[position]? = some task) :
    position = index ∧ task = new ∨
      position ≠ index ∧ s.tasks[position]? = some task := by
  obtain ⟨inside, _⟩ := List.getElem?_eq_some_iff.mp change.present
  rw [change.tasks, List.getElem?_set] at found
  by_cases same : index = position
  · subst same
    simp only [if_true, inside, Option.some.injEq] at found
    exact Or.inl ⟨rfl, found.symm⟩
  · exact Or.inr ⟨Ne.symm same, by simpa [same] using found⟩

/-- A change keeps a scheduler without failure sound. -/
theorem Sound.change
    (sound : Sound s)
    (change : Change s s' index old new) :
    Sound s' := by
  have each : ∀ {property : TaskContext → Prop},
      property new → (∀ task ∈ s.tasks, property task) →
        ∀ task ∈ s'.tasks, property task := by
    intro property ofNew ofOld task member
    rw [change.tasks] at member
    rcases List.mem_or_eq_of_mem_set member with older | newer
    · exact ofOld task older
    · exact newer ▸ ofNew
  refine {
    toQueued := sound.toQueued.change change
    holdsSrc := each change.holdsSrc sound.holdsSrc
    holdsDst := each change.holdsDst sound.holdsDst
    inMode := ?_
    indexed := ?_
    toLoad := ?_ }
  · rw [change.mode]
    exact each change.inMode sound.inMode
  · intro position task found
    rcases change.task_cases found with ⟨rfl, rfl⟩ | ⟨_, older⟩
    · rw [change.imageIndex]
      exact sound.indexed _ _ change.present
    · exact sound.indexed _ _ older
  · intro position task found
    have ofOld := sound.toLoad _ _ change.present
    have next := change.next
    rcases change.task_cases found with ⟨rfl, rfl⟩ | ⟨apart, older⟩
    · have started : ¬ s'.nextLoadIndex ≤ position := by
        split_ifs at next with pending
        · omega
        · rw [next]
          exact fun later => pending (ofOld.mpr later)
      exact ⟨fun pending => absurd pending change.notPending,
        fun later => absurd later started⟩
    · rw [sound.toLoad _ _ older]
      split_ifs at next <;> omega

/-- A change keeps the invariant. -/
theorem Known.change
    (known : Known srcSlotCount dstSlotCount s)
    (change : Change s s' index old new) :
    Known srcSlotCount dstSlotCount s' := by
  obtain ⟨inside, is⟩ := List.getElem?_eq_some_iff.mp change.present
  have before := known.consistent
  refine ⟨⟨?_, ?_, ?_, ?_⟩, ?_, ?_⟩
  · rw [change.tasks]
    exact Conserved.exchange before.srcSlots change.present change.src
  · rw [change.tasks]
    exact Conserved.exchange before.dstSlots change.present change.dst
  · have counted := List.countP_set (p := atStage .done) (a := new) inside
    have amount : ∀ condition : Bool,
        (if condition = true then 1 else 0) = condition.toNat := by
      decide
    have present : (atStage .done old).toNat ≤
        s.tasks.countP (atStage .done) := by
      cases done : atStage .done old with
      | false => exact Nat.zero_le _
      | true =>
          exact List.countP_pos_iff.mpr
            ⟨old, List.mem_of_getElem? change.present, done⟩
    have balance := change.numDone
    rw [before.numDone] at balance
    rw [change.tasks, counted, is, amount, amount]
    omega
  · rw [change.failed]
    exact fun healthy => (before.queued healthy).change change
  · rw [change.failed]
    exact fun healthy => (known.sound healthy).change change
  · rw [change.tasks, List.length_set]
    exact known.indices

/-- An advance keeps the invariant. -/
theorem Known.advances
    {before after : TaskStage}
    (known : Known srcSlotCount dstSlotCount s)
    (advances : Advances s s' index before after) :
    Known srcSlotCount dstSlotCount s' := by
  obtain ⟨_, _, change, _, _⟩ := advances
  exact known.change change

end Changes

/-! ## What each call does -/

section Calls

variable {s : Scheduler}

/-- The first entry of a queue that lists suitable tasks is popped. -/
theorem popSuitable_first
    (suitable : TaskContext → Bool)
    {stage : TaskStage}
    {tasks : List TaskContext}
    {first : Nat}
    {rest : List Nat}
    (lists : Lists (atStage stage) (first :: rest) tasks)
    (every : ∀ task ∈ tasks, task.stage = stage → suitable task = true) :
    ∃ task, tasks[first]? = some task ∧ task.stage = stage ∧
      Scheduler.popSuitable suitable tasks (first :: rest) =
        (some (first, task), rest) := by
  obtain ⟨task, present, chosen⟩ :=
    lists.selected_of_mem List.mem_cons_self
  have stays : task.stage = stage := by simpa [atStage] using chosen
  have fits := every task (List.mem_of_getElem? present) stays
  exact ⟨task, present, stays, by
    simp [Scheduler.popSuitable, present, fits]⟩

/-- The post-process loop hands out the first decoded task, if any. -/
theorem acquirePostProcess_cases
    (sound : Sound s) :
    s.readyPost = [] ∧ s.acquirePostProcess = (none, s) ∨
      ∃ index after,
        s.acquirePostProcess = (some ⟨.postProcess, index⟩, after) ∧
        Advances s after index .decoded .postProcessing := by
  cases queue : s.readyPost with
  | nil =>
      refine Or.inl ⟨rfl, ?_⟩
      simp only [Scheduler.acquirePostProcess, queue,
        Scheduler.popSuitable]
      rw [← queue]
  | cons first rest =>
      have lists := sound.readyPost
      rw [queue] at lists
      obtain ⟨task, present, stays, popped⟩ := popSuitable_first
        (fun task => task.stage == .decoded && task.dstSlot.isSome)
        lists fun task member stays => by
          simp [stays, sound.holdsDst task member, TaskStage.holdsDst]
      have member := List.mem_of_getElem? present
      have src := sound.holdsSrc task member
      have dst := sound.holdsDst task member
      refine Or.inr ⟨first, _,
        by simp only [Scheduler.acquirePostProcess, queue, popped]; rfl,
        task, { task with stage := .postProcessing }, ?_, stays, rfl⟩
      exact {
        present := present
        tasks := rfl
        mode := rfl
        failed := rfl
        src := .refl _
        dst := .refl _
        numDone := by simp [atStage, stays]
        readyPost := by simp [atStage, stays, queue]
        waitingSwDecode := by simp [atStage, stays]
        readySwDecode := by simp [atStage, stays]
        readyHwSubmit := by simp [atStage, stays]
        holdsSrc := by simpa [stays, TaskStage.holdsSrc] using src
        holdsDst := by simpa [stays, TaskStage.holdsDst] using dst
        inMode := rfl
        imageIndex := rfl
        notPending := by simp
        next := by simp [stays] }

/-- The decode loop hands out the first task queued for software decode. -/
theorem acquireSoftwareDecode_cases
    (sound : Sound s) :
    (s.mode = .software → s.readySwDecode = []) ∧
        s.acquireSoftwareDecode = (none, s) ∨
      ∃ index after,
        s.acquireSoftwareDecode =
          (some ⟨.softwareDecode, index⟩, after) ∧
        Advances s after index .queuedForSwDecode .swDecoding := by
  cases mode : s.mode with
  | hardware =>
      exact Or.inl ⟨by simp, by
        simp only [Scheduler.acquireSoftwareDecode, mode]⟩
  | software =>
      cases queue : s.readySwDecode with
      | nil =>
          refine Or.inl ⟨fun _ => rfl, ?_⟩
          simp only [Scheduler.acquireSoftwareDecode, mode, queue,
            Scheduler.popSuitable]
          rw [← queue, ← mode]
      | cons first rest =>
          have lists := sound.readySwDecode
          rw [queue] at lists
          obtain ⟨task, present, stays, popped⟩ := popSuitable_first
            (fun task => task.stage == .queuedForSwDecode &&
              task.srcSlot.isSome && task.dstSlot.isSome)
            lists fun task member stays => by
              simp [stays, sound.holdsDst task member,
                sound.holdsSrc task member, TaskStage.holdsDst,
                TaskStage.holdsSrc]
          have member := List.mem_of_getElem? present
          have src := sound.holdsSrc task member
          have dst := sound.holdsDst task member
          refine Or.inr ⟨first, _, by
              simp only [Scheduler.acquireSoftwareDecode, mode, queue,
                popped]
              rfl,
            task, { task with stage := .swDecoding }, ?_, stays, rfl⟩
          exact {
            present := present
            tasks := rfl
            mode := mode.symm
            failed := rfl
            src := .refl _
            dst := .refl _
            numDone := by simp [atStage, stays]
            readyPost := by simp [atStage, stays]
            waitingSwDecode := by simp [atStage, stays]
            readySwDecode := by simp [atStage, stays, queue]
            readyHwSubmit := by simp [atStage, stays]
            holdsSrc := by simpa [stays, TaskStage.holdsSrc] using src
            holdsDst := by simpa [stays, TaskStage.holdsDst] using dst
            inMode := by simp [mode, TaskStage.inMode]
            imageIndex := rfl
            notPending := by simp
            next := by simp [stays] }

/-- The next image is loaded when there is one and a source slot is free. -/
theorem acquireLoad_cases
    (sound : Sound s)
    (indices : s.tasks.length ≤ indexRange) :
    (s.nextLoadIndex < s.tasks.length → s.freeSrcSlots = []) ∧
        s.acquireLoad = (none, s) ∨
      ∃ index after,
        s.acquireLoad = (some ⟨.load, index⟩, after) ∧
        Advances s after index .pendingLoad .loading := by
  by_cases more : s.nextLoadIndex < s.tasks.length
  · cases free : s.freeSrcSlots with
    | nil =>
        exact Or.inl ⟨fun _ => rfl, by
          simp only [Scheduler.acquireLoad, more, if_true, free]⟩
    | cons slot rest =>
        have same : s.nextLoadIndex % indexRange = s.nextLoadIndex :=
          Nat.mod_eq_of_lt (Nat.lt_of_lt_of_le more indices)
        have present := List.getElem?_eq_getElem more
        have pending := (sound.toLoad _ _ present).mpr (Nat.le_refl _)
        have member := List.mem_of_getElem? present
        have src := sound.holdsSrc _ member
        have dst := sound.holdsDst _ member
        rw [pending] at src dst
        have noSrc := Option.isSome_eq_false_iff.mp src
        rw [Option.isNone_iff_eq_none] at noSrc
        refine Or.inr ⟨s.nextLoadIndex, _, by
            simp only [Scheduler.acquireLoad, more, if_true, same, free,
              present]
            rfl,
          s.tasks[s.nextLoadIndex], { s.tasks[s.nextLoadIndex] with
            srcSlot := some slot
            srcSize := 0
            stage := .loading }, ?_, pending, rfl⟩
        exact {
          present := present
          tasks := rfl
          mode := rfl
          failed := rfl
          src := by simp [noSrc, free]
          dst := .refl _
          numDone := by simp [atStage, pending]
          readyPost := by simp [atStage, pending]
          waitingSwDecode := by simp [atStage, pending]
          readySwDecode := by simp [atStage, pending]
          readyHwSubmit := by simp [atStage, pending]
          holdsSrc := rfl
          holdsDst := dst
          inMode := rfl
          imageIndex := rfl
          notPending := by simp
          next := by simp [pending] }
  · exact Or.inl ⟨fun less => absurd less more, by
      simp only [Scheduler.acquireLoad, more, if_false]⟩

/-- The destination slot of a task without one is taken from the pool. -/
theorem tryAcquireHardwareSubmitTask_cases
    (sound : Sound s) :
    (s.failed = true ∨ s.freeDstSlots = [] ∨ s.readyHwSubmit = []) ∧
        s.tryAcquireHardwareSubmitTask = (none, s) ∨
      ∃ index after,
        s.tryAcquireHardwareSubmitTask = (some index, after) ∧
        Advances s after index .queuedForHwSubmit .hwSubmitting := by
  cases failed : s.failed with
  | true =>
      exact Or.inl ⟨Or.inl rfl, by
        simp only [Scheduler.tryAcquireHardwareSubmitTask, failed,
          if_true]⟩
  | false =>
      cases free : s.freeDstSlots with
      | nil =>
          exact Or.inl ⟨Or.inr (Or.inl rfl), by
            simp only [Scheduler.tryAcquireHardwareSubmitTask, failed,
              free, Bool.false_eq_true, if_false]⟩
      | cons slot others =>
          cases queue : s.readyHwSubmit with
          | nil =>
              refine Or.inl ⟨Or.inr (Or.inr rfl), ?_⟩
              simp only [Scheduler.tryAcquireHardwareSubmitTask, failed,
                free, queue, Scheduler.popSuitable, Bool.false_eq_true,
                if_false]
              rw [← queue, ← free, ← failed]
          | cons first rest =>
              have lists := sound.readyHwSubmit
              rw [queue] at lists
              obtain ⟨task, present, stays, popped⟩ := popSuitable_first
                (fun task => task.stage == .queuedForHwSubmit &&
                  task.srcSlot.isSome)
                lists fun task member stays => by
                  simp [stays, sound.holdsSrc task member,
                    TaskStage.holdsSrc]
              have member := List.mem_of_getElem? present
              have src := sound.holdsSrc task member
              have dst := sound.holdsDst task member
              have mode := sound.inMode task member
              rw [stays] at src dst mode
              have noDst := Option.isSome_eq_false_iff.mp dst
              rw [Option.isNone_iff_eq_none] at noDst
              refine Or.inr ⟨first, _, by
                  simp only [Scheduler.tryAcquireHardwareSubmitTask,
                    failed, free, queue, popped, Bool.false_eq_true,
                    if_false]
                  rfl,
                task, { task with
                  dstSlot := some slot
                  stage := .hwSubmitting }, ?_, stays, rfl⟩
              exact {
                present := present
                tasks := rfl
                mode := rfl
                failed := failed.symm
                src := .refl _
                dst := by simp [noDst, free]
                numDone := by simp [atStage, stays]
                readyPost := by simp [atStage, stays]
                waitingSwDecode := by simp [atStage, stays]
                readySwDecode := by simp [atStage, stays]
                readyHwSubmit := by simp [atStage, stays, queue]
                holdsSrc := src
                holdsDst := rfl
                inMode := mode
                imageIndex := rfl
                notPending := by simp
                next := by simp [stays] }

/-- What a result implies is reported as well. -/
theorem Reported.imp
    {after : Scheduler}
    {index : Nat}
    {expected : TaskStage}
    {result weaker : Prop}
    (reported : Reported s after index expected result)
    (implies : result → weaker) :
    Reported s after index expected weaker :=
  reported.imp_right (·.imp_right implies)

/-- A completion for a task in the expected stage has its result. -/
theorem Reported.result
    {after : Scheduler}
    {index : Nat}
    {expected : TaskStage}
    {result : Prop}
    {task : TaskContext}
    (reported : Reported s after index expected result)
    (healthy : s.failed = false)
    (present : s.tasks[index]? = some task)
    (stays : task.stage = expected) :
    result := by
  rcases reported with ⟨_, failed | absent⟩ | ⟨_, other, found, apart⟩ |
    result
  · exact Bool.noConfusion (healthy.symm.trans failed)
  · exact Option.noConfusion rfl (heq_of_eq (present.symm.trans absent))
  · rw [present, Option.some.injEq] at found
    exact absurd (found ▸ stays) apart
  · exact result

/-- The frame of the completions, when the expected stage has the slots. -/
theorem completing_reported
    (imageIndex : Nat)
    (what : String)
    (expected : TaskStage)
    (slots : TaskContext → Bool)
    (finish : TaskContext → Effect)
    (every : ∀ task ∈ s.tasks, task.stage = expected →
      slots task = true) :
    Reported s
      (s.completing imageIndex what expected slots finish).after
      imageIndex expected
      (∃ task, s.tasks[imageIndex]? = some task ∧ task.stage = expected ∧
        s.completing imageIndex what expected slots finish =
          finish task) := by
  cases failed : s.failed with
  | true =>
      exact Or.inl ⟨by simp [Scheduler.completing, failed], Or.inl failed⟩
  | false =>
      cases found : s.tasks[imageIndex]? with
      | none =>
          exact Or.inl ⟨by simp [Scheduler.completing, failed, found],
            Or.inr found⟩
      | some task =>
          by_cases stays : task.stage = expected
          · have holds := every task (List.mem_of_getElem? found) stays
            exact Or.inr (Or.inr ⟨task, rfl, stays, by
              simp [Scheduler.completing, failed, found, stays, holds]⟩)
          · exact Or.inr (Or.inl ⟨⟨_, by
              simp only [Scheduler.completing, failed, found]
              simp [stays]
              rfl⟩, task, found, stays⟩)

/-- The stage a loaded task moves to. -/
def stageAfterLoad (s : Scheduler) : TaskStage :=
  match s.mode, s.freeDstSlots with
  | .hardware, _ => .queuedForHwSubmit
  | .software, _ :: _ => .queuedForSwDecode
  | .software, [] => .loadedAwaitingDecode

/-- A completed load queues its task for a decoder. -/
theorem completeLoad_cases
    (sound : Sound s)
    (imageIndex srcSize : Nat) :
    Reported s (s.step (.completeLoad imageIndex srcSize)) imageIndex
      .loading
      (Advances s (s.step (.completeLoad imageIndex srcSize)) imageIndex
        .loading (stageAfterLoad s)) := by
  simp only [Scheduler.step, Scheduler.effect, Scheduler.completeLoad]
  refine (completing_reported imageIndex "load" .loading
    (·.srcSlot.isSome) _ fun task member stays => ?_).imp ?_
  · simp [sound.holdsSrc task member, stays, TaskStage.holdsSrc]
  · rintro ⟨task, present, stays, done⟩
    rw [done]
    have member := List.mem_of_getElem? present
    have src := sound.holdsSrc task member
    have dst := sound.holdsDst task member
    rw [stays] at src dst
    have noDst := Option.isSome_eq_false_iff.mp dst
    rw [Option.isNone_iff_eq_none] at noDst
    cases mode : s.mode with
    | hardware =>
        refine ⟨task, { task with
            srcSize := srcSize
            stage := .queuedForHwSubmit }, ?_, stays,
          by simp [stageAfterLoad, mode]⟩
        exact {
          present := present
          tasks := rfl
          mode := mode.symm
          failed := rfl
          src := .refl _
          dst := .refl _
          numDone := by simp [atStage, stays]
          readyPost := by simp [atStage, stays]
          waitingSwDecode := by simp [atStage, stays]
          readySwDecode := by simp [atStage, stays]
          readyHwSubmit := by simp [atStage, stays]
          holdsSrc := src
          holdsDst := dst
          inMode := by simp [mode, TaskStage.inMode]
          imageIndex := rfl
          notPending := by simp
          next := by simp [stays] }
    | software =>
        cases free : s.freeDstSlots with
        | nil =>
            refine ⟨task, { task with
                srcSize := srcSize
                stage := .loadedAwaitingDecode }, ?_, stays,
              by simp [stageAfterLoad, mode, free]⟩
            exact {
              present := present
              tasks := rfl
              mode := mode.symm
              failed := rfl
              src := .refl _
              dst := by rw [free]
              numDone := by simp [atStage, stays]
              readyPost := by simp [atStage, stays]
              waitingSwDecode := by simp [atStage, stays]
              readySwDecode := by simp [atStage, stays]
              readyHwSubmit := by simp [atStage, stays]
              holdsSrc := src
              holdsDst := dst
              inMode := by simp [mode, TaskStage.inMode]
              imageIndex := rfl
              notPending := by simp
              next := by simp [stays] }
        | cons slot others =>
            refine ⟨task, { task with
                srcSize := srcSize
                dstSlot := some slot
                stage := .queuedForSwDecode }, ?_, stays,
              by simp [stageAfterLoad, mode, free]⟩
            exact {
              present := present
              tasks := rfl
              mode := mode.symm
              failed := rfl
              src := .refl _
              dst := by simp [noDst, free]
              numDone := by simp [atStage, stays]
              readyPost := by simp [atStage, stays]
              waitingSwDecode := by simp [atStage, stays]
              readySwDecode := by simp [atStage, stays]
              readyHwSubmit := by simp [atStage, stays]
              holdsSrc := src
              holdsDst := rfl
              inMode := by simp [mode, TaskStage.inMode]
              imageIndex := rfl
              notPending := by simp
              next := by simp [stays] }

/-- A decoded task returns its source slot and waits for post-processing. -/
theorem decodeCompleted_advances
    (sound : Sound s)
    {imageIndex : Nat}
    {task : TaskContext}
    (cpl : CplEntry)
    (present : s.tasks[imageIndex]? = some task)
    (decoding : task.stage = .swDecoding ∨ task.stage = .hwInflight) :
    Advances s (s.decodeCompleted imageIndex cpl task).after imageIndex
      task.stage .decoded := by
  have dst := sound.holdsDst task (List.mem_of_getElem? present)
  refine ⟨task, { task with
      srcSlot := none
      srcSize := 0
      cpl := cpl
      stage := .decoded }, ?_, rfl, rfl⟩
  exact {
    present := present
    tasks := rfl
    mode := rfl
    failed := rfl
    src := by simp [Scheduler.decodeCompleted]
    dst := .refl _
    numDone := by
      rcases decoding with stays | stays <;>
        simp [atStage, stays, Scheduler.decodeCompleted]
    readyPost := by
      rcases decoding with stays | stays <;>
        simp [atStage, stays, Scheduler.decodeCompleted]
    waitingSwDecode := by
      rcases decoding with stays | stays <;>
        simp [atStage, stays, Scheduler.decodeCompleted]
    readySwDecode := by
      rcases decoding with stays | stays <;>
        simp [atStage, stays, Scheduler.decodeCompleted]
    readyHwSubmit := by
      rcases decoding with stays | stays <;>
        simp [atStage, stays, Scheduler.decodeCompleted]
    holdsSrc := rfl
    holdsDst := by
      rcases decoding with stays | stays <;>
        simpa [stays, TaskStage.holdsDst] using dst
    inMode := rfl
    imageIndex := rfl
    notPending := by simp
    next := by
      rcases decoding with stays | stays <;>
        simp [stays, Scheduler.decodeCompleted] }

/-- A completed software decode. -/
theorem completeSoftwareDecode_cases
    (sound : Sound s)
    (imageIndex : Nat)
    (cpl : CplEntry) :
    Reported s (s.step (.completeSoftwareDecode imageIndex cpl)) imageIndex
      .swDecoding
      (Advances s (s.step (.completeSoftwareDecode imageIndex cpl))
        imageIndex .swDecoding .decoded) := by
  simp only [Scheduler.step, Scheduler.effect,
    Scheduler.completeSoftwareDecode]
  refine (completing_reported imageIndex "software decode" .swDecoding
    (fun task => task.srcSlot.isSome && task.dstSlot.isSome)
    (s.decodeCompleted imageIndex cpl) fun task member stays => ?_).imp ?_
  · simp [sound.holdsSrc task member, sound.holdsDst task member, stays,
      TaskStage.holdsSrc, TaskStage.holdsDst]
  · rintro ⟨task, present, stays, done⟩
    rw [done, ← stays]
    exact decodeCompleted_advances sound cpl present (Or.inl stays)

/-- A completed hardware decode. -/
theorem completeHardwareDecode_cases
    (sound : Sound s)
    (imageIndex : Nat)
    (cpl : CplEntry) :
    Reported s (s.step (.completeHardwareDecode imageIndex cpl)) imageIndex
      .hwInflight
      (Advances s (s.step (.completeHardwareDecode imageIndex cpl))
        imageIndex .hwInflight .decoded) := by
  simp only [Scheduler.step, Scheduler.effect,
    Scheduler.completeHardwareDecode]
  refine (completing_reported imageIndex "hardware decode" .hwInflight
    (fun task => task.srcSlot.isSome && task.dstSlot.isSome)
    (s.decodeCompleted imageIndex cpl) fun task member stays => ?_).imp ?_
  · simp [sound.holdsSrc task member, sound.holdsDst task member, stays,
      TaskStage.holdsSrc, TaskStage.holdsDst]
  · rintro ⟨task, present, stays, done⟩
    rw [done, ← stays]
    exact decodeCompleted_advances sound cpl present (Or.inr stays)

/-- A submitted task is in flight. -/
theorem completeHardwareSubmit_cases
    (sound : Sound s)
    (imageIndex now : Nat) :
    Reported s (s.step (.completeHardwareSubmit imageIndex now))
      imageIndex .hwSubmitting
      (Advances s (s.step (.completeHardwareSubmit imageIndex now))
        imageIndex .hwSubmitting .hwInflight) := by
  simp only [Scheduler.step, Scheduler.effect,
    Scheduler.completeHardwareSubmit]
  refine (completing_reported imageIndex "hardware submit" .hwSubmitting
    (fun task => task.srcSlot.isSome && task.dstSlot.isSome) _
    fun task member stays => ?_).imp ?_
  · simp [sound.holdsSrc task member, sound.holdsDst task member, stays,
      TaskStage.holdsSrc, TaskStage.holdsDst]
  · rintro ⟨task, present, stays, done⟩
    rw [done]
    have member := List.mem_of_getElem? present
    have src := sound.holdsSrc task member
    have dst := sound.holdsDst task member
    have mode := sound.inMode task member
    rw [stays] at src dst mode
    refine ⟨task, { task with
      submitTs := now
      stage := .hwInflight }, ?_, stays, rfl⟩
    exact {
      present := present
      tasks := rfl
      mode := rfl
      failed := rfl
      src := .refl _
      dst := .refl _
      numDone := by simp [atStage, stays]
      readyPost := by simp [atStage, stays]
      waitingSwDecode := by simp [atStage, stays]
      readySwDecode := by simp [atStage, stays]
      readyHwSubmit := by simp [atStage, stays]
      holdsSrc := src
      holdsDst := dst
      inMode := mode
      imageIndex := rfl
      notPending := by simp
      next := by simp [stays] }

/--
Assigning destination slots advances waiting tasks one by one until no slot is
free or nobody waits.
-/
theorem assignSwDecodeJobs_induction
    (property : Scheduler → Prop)
    (keeps : ∀ before after index, Sound before → property before →
      Advances before after index
        .loadedAwaitingDecode .queuedForSwDecode →
      property after)
    (waiting : List Nat) :
    ∀ {s : Scheduler}, Sound s → s.waitingSwDecode = waiting →
      property s →
      Sound (Scheduler.assignSwDecodeJobs waiting s) ∧
        property (Scheduler.assignSwDecodeJobs waiting s) ∧
        ((Scheduler.assignSwDecodeJobs waiting s).freeDstSlots = [] ∨
          (Scheduler.assignSwDecodeJobs waiting s).waitingSwDecode =
            []) := by
  induction waiting with
  | nil =>
      intro s sound queue holds
      exact ⟨sound, holds, Or.inr queue⟩
  | cons first rest inductionHypothesis =>
      intro s sound queue holds
      cases free : s.freeDstSlots with
      | nil =>
          simp only [Scheduler.assignSwDecodeJobs, free]
          exact ⟨sound, holds, Or.inl trivial⟩
      | cons slot others =>
          have lists := sound.waitingSwDecode
          rw [queue] at lists
          obtain ⟨task, present, chosen⟩ :=
            lists.selected_of_mem List.mem_cons_self
          have stays : task.stage = .loadedAwaitingDecode := by
            simpa [atStage] using chosen
          have member := List.mem_of_getElem? present
          have src := sound.holdsSrc task member
          have dst := sound.holdsDst task member
          have mode := sound.inMode task member
          rw [stays] at src dst mode
          have hasSrc : task.srcSlot.isSome = true := src
          have noDst := Option.isSome_eq_false_iff.mp dst
          rw [Option.isNone_iff_eq_none] at noDst
          have advances : Advances s { s with
              waitingSwDecode := rest
              freeDstSlots := others
              readySwDecode := s.readySwDecode ++ [first]
              tasks := s.tasks.set first { task with
                dstSlot := some slot
                stage := .queuedForSwDecode } } first
              .loadedAwaitingDecode .queuedForSwDecode := by
            refine ⟨task, { task with
                dstSlot := some slot
                stage := .queuedForSwDecode }, ?_, stays, rfl⟩
            exact {
              present := present
              tasks := rfl
              mode := rfl
              failed := rfl
              src := .refl _
              dst := by simp [noDst, free]
              numDone := by simp [atStage, stays]
              readyPost := by simp [atStage, stays]
              waitingSwDecode := by simp [atStage, stays, queue]
              readySwDecode := by simp [atStage, stays]
              readyHwSubmit := by simp [atStage, stays]
              holdsSrc := src
              holdsDst := rfl
              inMode := mode
              imageIndex := rfl
              notPending := by simp
              next := by simp [stays] }
          obtain ⟨_, _, change, _, _⟩ := id advances
          have continued := inductionHypothesis (sound.change change) rfl
            (keeps _ _ _ sound holds advances)
          simpa only [Scheduler.assignSwDecodeJobs, free, present, stays,
            hasSrc, bne_self_eq_false, Bool.not_true, Bool.or_false,
            Bool.false_eq_true, if_false] using continued

/-- A post-processed task is done; then waiting tasks get free slots. -/
theorem completePostProcess_cases
    (sound : Sound s)
    (imageIndex : Nat) :
    Reported s (s.step (.completePostProcess imageIndex)) imageIndex
      .postProcessing
      (∃ finished,
        Advances s finished imageIndex .postProcessing .done ∧
          s.step (.completePostProcess imageIndex) =
            match s.mode with
            | .hardware => finished
            | .software => finished.assignSwDecodeJobsLocked) := by
  simp only [Scheduler.step, Scheduler.effect,
    Scheduler.completePostProcess]
  refine (completing_reported imageIndex "post-process" .postProcessing
    (·.dstSlot.isSome) _ fun task member stays => ?_).imp ?_
  · simp [sound.holdsDst task member, stays, TaskStage.holdsDst]
  · rintro ⟨task, present, stays, done⟩
    rw [done]
    have member := List.mem_of_getElem? present
    have src := sound.holdsSrc task member
    rw [stays] at src
    refine ⟨{ s with
        freeDstSlots := s.freeDstSlots ++ task.dstSlot.toList
        tasks := s.tasks.set imageIndex { task with
          dstSlot := none
          stage := .done }
        numDone := s.numDone + 1 },
      ⟨task, { task with dstSlot := none, stage := .done }, ?_, stays,
        rfl⟩, ?_⟩
    · exact {
        present := present
        tasks := rfl
        mode := rfl
        failed := rfl
        src := .refl _
        dst := by simp
        numDone := by simp [atStage, stays]
        readyPost := by simp [atStage, stays]
        waitingSwDecode := by simp [atStage, stays]
        readySwDecode := by simp [atStage, stays]
        readyHwSubmit := by simp [atStage, stays]
        holdsSrc := src
        holdsDst := rfl
        inMode := rfl
        imageIndex := rfl
        notPending := by simp
        next := by simp [stays] }
    · cases s.mode <;> rfl

/-- One pass of `AcquireCpuJob` ends, waits or advances the acquired task. -/
theorem acquireCpuJob_cases
    (sound : Sound s)
    (indices : s.tasks.length ≤ indexRange) :
    (s.failed = true ∨ s.allWorkDoneLocked = true) ∧
        s.acquireCpuJob = (.nullopt, s) ∨
      s.hasReadyCpuJobLocked = false ∧ s.acquireCpuJob = (.waits, s) ∨
      ∃ kind index after,
        s.acquireCpuJob = (.job ⟨kind, index⟩, after) ∧
        match kind with
        | .load => Advances s after index .pendingLoad .loading
        | .softwareDecode =>
            Advances s after index .queuedForSwDecode .swDecoding
        | .postProcess =>
            Advances s after index .decoded .postProcessing := by
  cases ended : s.failed || s.allWorkDoneLocked with
  | true =>
      exact Or.inl ⟨by simpa using ended, by
        simp only [Scheduler.acquireCpuJob, ended, if_true]⟩
  | false =>
      simp only [Scheduler.acquireCpuJob, ended, Bool.false_eq_true,
        if_false]
      rcases acquirePostProcess_cases sound with
        ⟨noPost, nothing⟩ | ⟨index, after, found, advances⟩
      · rw [nothing]
        rcases acquireSoftwareDecode_cases sound with
          ⟨noDecode, nothing⟩ | ⟨index, after, found, advances⟩
        · simp only [nothing]
          rcases acquireLoad_cases sound indices with
            ⟨noLoad, nothing⟩ | ⟨index, after, found, advances⟩
          · simp only [nothing]
            refine Or.inr (Or.inl ⟨?_, trivial⟩)
            have noJob : (s.mode == .software &&
                !s.readySwDecode.isEmpty) = false := by
              cases mode : s.mode with
              | hardware => rfl
              | software => simp [noDecode mode]
            have noImage : (decide (s.nextLoadIndex < s.tasks.length) &&
                !s.freeSrcSlots.isEmpty) = false := by
              by_cases more : s.nextLoadIndex < s.tasks.length
              · simp [noLoad more]
              · simp [more]
            simp [Scheduler.hasReadyCpuJobLocked, noPost, noJob, noImage]
          · simp only [found]
            exact Or.inr (Or.inr ⟨.load, index, after, rfl, advances⟩)
        · simp only [found]
          exact Or.inr (Or.inr
            ⟨.softwareDecode, index, after, rfl, advances⟩)
      · rw [found]
        exact Or.inr (Or.inr ⟨.postProcess, index, after, rfl, advances⟩)

/-- After a failure nothing changes any more. -/
theorem step_failed
    (failed : s.failed = true)
    (call : Call) :
    s.step call = s := by
  cases call <;>
    simp [Scheduler.step, Scheduler.effect, Scheduler.acquireCpuJob,
      Scheduler.tryAcquireHardwareSubmitTask, Scheduler.completeLoad,
      Scheduler.completeSoftwareDecode, Scheduler.completeHardwareSubmit,
      Scheduler.completeHardwareDecode, Scheduler.completePostProcess,
      Scheduler.completing, Scheduler.fail, failed]

end Calls

/-! ## Every run -/

section Runs

variable {srcSlotCount dstSlotCount : Nat}
variable {s : Scheduler}

/-- A call that only fails keeps the slots and the counter. -/
theorem Known.invalid
    (known : Known srcSlotCount dstSlotCount s)
    (message : String) :
    Known srcSlotCount dstSlotCount
      { s with failed := true, failureMessage := message } where
  consistent := {
    srcSlots := known.consistent.srcSlots
    dstSlots := known.consistent.dstSlots
    numDone := known.consistent.numDone
    queued := by simp }
  sound := by simp
  indices := known.indices

/-- `Fail` keeps the slots and the counter. -/
theorem Known.fail
    (known : Known srcSlotCount dstSlotCount s)
    (message : String) :
    Known srcSlotCount dstSlotCount (s.step (.fail message)) := by
  cases failed : s.failed with
  | true =>
      rw [step_failed failed]
      exact known
  | false =>
      have sameSrc :
          (·.srcSlot) ∘ TaskContext.failUnlessDone = (·.srcSlot) := by
        funext task
        simp only [Function.comp, TaskContext.failUnlessDone]
        split <;> rfl
      have sameDst :
          (·.dstSlot) ∘ TaskContext.failUnlessDone = (·.dstSlot) := by
        funext task
        simp only [Function.comp, TaskContext.failUnlessDone]
        split <;> rfl
      have sameDone :
          atStage .done ∘ TaskContext.failUnlessDone =
            atStage .done := by
        funext task
        by_cases done : task.stage = .done <;>
          simp [atStage, TaskContext.failUnlessDone, done]
      simp only [Scheduler.step, Scheduler.effect, Scheduler.fail, failed,
        Bool.false_eq_true, if_false]
      refine ⟨⟨?_, ?_, ?_, by simp⟩, by simp, by
        simpa using known.indices⟩
      · simpa only [List.filterMap_map, sameSrc] using
          known.consistent.srcSlots
      · simpa only [List.filterMap_map, sameDst] using
          known.consistent.dstSlots
      · simpa only [List.countP_map, sameDone] using
          known.consistent.numDone

/-- Every call keeps the invariant. -/
theorem Known.step
    (known : Known srcSlotCount dstSlotCount s)
    (call : Call) :
    Known srcSlotCount dstSlotCount (s.step call) := by
  cases failed : s.failed with
  | true =>
      rw [step_failed failed]
      exact known
  | false =>
      have sound := known.sound failed
      have settle : ∀ {after : Scheduler} {index : Nat}
          {first last : TaskStage},
          Reported s after index first
            (Advances s after index first last) →
          Known srcSlotCount dstSlotCount after := by
        rintro after index first last
          (⟨rfl, _⟩ | ⟨⟨message, rfl⟩, _⟩ | advances)
        · exact known
        · exact known.invalid message
        · exact known.advances advances
      cases call with
      | acquireCpuJob =>
          simp only [Scheduler.step, Scheduler.effect]
          rcases acquireCpuJob_cases sound known.indices with
            ⟨_, same⟩ | ⟨_, same⟩ | ⟨kind, index, after, found, advances⟩
          · rw [same]
            exact known
          · rw [same]
            exact known
          · rw [found]
            cases kind <;> exact known.advances advances
      | tryAcquireHardwareSubmitTask =>
          simp only [Scheduler.step, Scheduler.effect]
          rcases tryAcquireHardwareSubmitTask_cases sound with
            ⟨_, same⟩ | ⟨index, after, found, advances⟩
          · rw [same]
            exact known
          · rw [found]
            exact known.advances advances
      | completeLoad imageIndex srcSize =>
          exact settle (completeLoad_cases sound imageIndex srcSize)
      | completeSoftwareDecode imageIndex cpl =>
          exact settle (completeSoftwareDecode_cases sound imageIndex cpl)
      | completeHardwareSubmit imageIndex now =>
          exact settle (completeHardwareSubmit_cases sound imageIndex now)
      | completeHardwareDecode imageIndex cpl =>
          exact settle (completeHardwareDecode_cases sound imageIndex cpl)
      | completePostProcess imageIndex =>
          rcases completePostProcess_cases sound imageIndex with
            ⟨same, _⟩ | ⟨⟨message, same⟩, _⟩ | ⟨finished, advances, same⟩
          · rw [same]
            exact known
          · rw [same]
            exact known.invalid message
          · rw [same]
            have knownFinished := known.advances advances
            obtain ⟨_, _, change, _, _⟩ := advances
            cases s.mode with
            | hardware => exact knownFinished
            | software =>
                exact (assignSwDecodeJobs_induction
                  (Known srcSlotCount dstSlotCount)
                  (fun _ _ _ _ known advances => known.advances advances)
                  _ (sound.change change) rfl knownFinished).2.1
      | fail message => exact known.fail message

/-- Before the first call all slots are free and all tasks are pending. -/
theorem known_start
    (mode : BackendMode)
    (imagePaths : List String)
    (indices : imagePaths.length ≤ indexRange) :
    Known srcSlotCount dstSlotCount
      (.start mode imagePaths srcSlotCount dstSlotCount) := by
  have fresh : ∀ {position : Nat} {task : TaskContext},
      (imagePaths.mapIdx TaskContext.pending)[position]? = some task →
        ∃ path, task = .pending position path := by
    intro position task found
    rw [List.getElem?_mapIdx, Option.map_eq_some_iff] at found
    obtain ⟨path, _, rfl⟩ := found
    exact ⟨path, rfl⟩
  have freshTask : ∀ task ∈ imagePaths.mapIdx TaskContext.pending,
      ∃ position path, task = .pending position path := by
    intro task member
    obtain ⟨position, found⟩ := List.mem_iff_getElem?.mp member
    exact ⟨position, fresh found⟩
  have noneHeld : ∀ slot : TaskContext → Option Nat,
      (∀ position path, slot (.pending position path) = none) →
      (imagePaths.mapIdx TaskContext.pending).filterMap slot = [] := by
    intro slot never
    refine List.filterMap_eq_nil_iff.mpr fun task member => ?_
    obtain ⟨position, path, rfl⟩ := freshTask task member
    exact never position path
  have noneAt : ∀ stage, stage ≠ .pendingLoad →
      Lists (atStage stage) [] (imagePaths.mapIdx TaskContext.pending) := by
    intro stage other index
    cases found : (imagePaths.mapIdx TaskContext.pending)[index]? with
    | none => rfl
    | some task =>
        obtain ⟨path, rfl⟩ := fresh found
        simp [atStage, TaskContext.pending, Ne.symm other]
  have queued : Queued
      (.start mode imagePaths srcSlotCount dstSlotCount) :=
    ⟨noneAt _ (by simp), noneAt _ (by simp), noneAt _ (by simp),
      noneAt _ (by simp)⟩
  refine ⟨⟨?_, ?_, ?_, fun _ => queued⟩, fun _ => ?_, by
    simpa [Scheduler.start] using indices⟩
  · simp [Scheduler.start, noneHeld (·.srcSlot) fun _ _ => rfl]
  · simp [Scheduler.start, noneHeld (·.dstSlot) fun _ _ => rfl]
  · refine (List.countP_eq_zero.mpr fun task member => ?_).symm
    obtain ⟨position, path, rfl⟩ := freshTask task member
    simp [atStage, TaskContext.pending]
  · refine {
      toQueued := queued
      holdsSrc := ?_
      holdsDst := ?_
      inMode := ?_
      indexed := ?_
      toLoad := ?_ }
    · intro task member
      obtain ⟨position, path, rfl⟩ := freshTask task member
      rfl
    · intro task member
      obtain ⟨position, path, rfl⟩ := freshTask task member
      rfl
    · intro task member
      obtain ⟨position, path, rfl⟩ := freshTask task member
      rfl
    · intro position task found
      obtain ⟨path, rfl⟩ := fresh found
      rfl
    · intro position task found
      obtain ⟨path, rfl⟩ := fresh found
      simp [TaskContext.pending, Scheduler.start]

/-- Every run of calls keeps the invariant. -/
theorem known_run
    (mode : BackendMode)
    (imagePaths : List String)
    (indices : imagePaths.length ≤ indexRange)
    (calls : List Call) :
    Known srcSlotCount dstSlotCount
      (run Scheduler.step
        (.start mode imagePaths srcSlotCount dstSlotCount) calls) := by
  have preserved : ∀ s call, Known srcSlotCount dstSlotCount s →
      Known srcSlotCount dstSlotCount (Scheduler.step s call) :=
    fun _ call known => known.step call
  exact run_always preserved (known_start mode imagePaths indices) calls

end Runs

/--
In every run of calls on a scheduler for at most 2^32 images, no slot is lost
or held by two tasks, the counter counts the tasks that are done, and without
a failure each queue lists exactly the tasks of its stage, each once.
-/
theorem slots_and_queues_consistent
    (mode : BackendMode)
    (imagePaths : List String)
    (srcSlotCount dstSlotCount : Nat)
    (calls : List Call)
    (indices : imagePaths.length ≤ indexRange) :
    Consistent srcSlotCount dstSlotCount
        (run Scheduler.step
          (.start mode imagePaths srcSlotCount dstSlotCount) calls) ∧
      Exclusive
        (run Scheduler.step
          (.start mode imagePaths srcSlotCount dstSlotCount) calls) := by
  have known : Known srcSlotCount dstSlotCount _ :=
    known_run mode imagePaths indices calls
  refine ⟨known.consistent, fun first second one other present found =>
    ⟨fun slot holds also => ?_, fun slot holds also => ?_⟩⟩
  · exact Conserved.holder_unique known.consistent.srcSlots
      List.nodup_range present found holds also
  · exact Conserved.holder_unique known.consistent.dstSlots
      List.nodup_range present found holds also

/-- Two images share one slot of each kind. -/
theorem slots_and_queues_consistent_two :
    Consistent 1 1
        (run Scheduler.step (.start .hardware ["a.jpg", "b.jpg"] 1 1)
          [.acquireCpuJob, .completeLoad 0 9, .acquireCpuJob]) ∧
      Exclusive
        (run Scheduler.step (.start .hardware ["a.jpg", "b.jpg"] 1 1)
          [.acquireCpuJob, .completeLoad 0 9, .acquireCpuJob]) :=
  slots_and_queues_consistent .hardware ["a.jpg", "b.jpg"] 1 1 _
    (by decide)

/-! ## More images than indices -/

/-- The task of an unnamed image when the first ones are done. -/
def taskAfter (count position : Nat) : TaskContext :=
  { TaskContext.pending position "" with
    stage := if position < count then .done else .pendingLoad }

/-- The tasks of unnamed images of which the first ones are done. -/
def tasksAfter (images count : Nat) : List TaskContext :=
  (List.range images).map (taskAfter count)

/-- A software scheduler with one slot of each kind between two images. -/
def served (images count : Nat) : Scheduler where
  mode := .software
  tasks := tasksAfter images count
  nextLoadIndex := count
  numDone := count
  freeSrcSlots := [0]
  freeDstSlots := [0]
  readyPost := []
  waitingSwDecode := []
  readySwDecode := []
  readyHwSubmit := []
  failed := false
  failureMessage := ""

/-- The calls that take one image through a software scheduler. -/
def serveCalls (imageIndex : Nat) : List Call :=
  [.acquireCpuJob, .completeLoad imageIndex 1, .acquireCpuJob,
    .completeSoftwareDecode imageIndex .zero, .acquireCpuJob,
    .completePostProcess imageIndex]

section Overrun

variable {images count position : Nat}

@[simp] theorem length_tasksAfter :
    (tasksAfter images count).length = images := by
  simp [tasksAfter]

@[simp] theorem getElem_tasksAfter
    (_inside : position < (tasksAfter images count).length) :
    (tasksAfter images count)[position] = taskAfter count position := by
  simp [tasksAfter]

/-- Finishing the next task serves one image more. -/
theorem tasksAfter_succ :
    (tasksAfter images count).set count
        { TaskContext.pending count "" with stage := .done } =
      tasksAfter images (count + 1) := by
  refine List.ext_getElem (by simp) fun position _ _ => ?_
  rw [List.getElem_set]
  by_cases same : count = position
  · subst same
    simp [taskAfter]
  · have split : position < count + 1 ↔ position < count := by omega
    simp [same, taskAfter, split]

theorem start_served (images : Nat) :
    Scheduler.start .software (List.replicate images "") 1 1 =
      served images 0 := by
  have tasks : (List.replicate images "").mapIdx TaskContext.pending =
      tasksAfter images 0 :=
    List.ext_getElem (by simp) fun position _ _ => by
      simp [taskAfter, TaskContext.pending]
  simp only [Scheduler.start, served, tasks]
  rfl

/-- Six calls serve the next image when its index fits. -/
theorem serve_next
    (inside : count < images)
    (fits : count < indexRange) :
    run Scheduler.step (served images count) (serveCalls count) =
      served images (count + 1) := by
  have same : count % indexRange = count := Nat.mod_eq_of_lt fits
  have unfinished : count ≠ images := Nat.ne_of_lt inside
  simp [serveCalls, served, Scheduler.step, Scheduler.effect,
    Scheduler.acquireCpuJob, Scheduler.allWorkDoneLocked,
    Scheduler.acquirePostProcess, Scheduler.acquireSoftwareDecode,
    Scheduler.acquireLoad, Scheduler.popSuitable, unfinished, inside, same,
    Scheduler.completeLoad, Scheduler.completing,
    Scheduler.completeSoftwareDecode, Scheduler.decodeCompleted,
    Scheduler.completePostProcess, Scheduler.assignSwDecodeJobsLocked,
    Scheduler.assignSwDecodeJobs, ← tasksAfter_succ, taskAfter,
    TaskContext.pending]

/-- Image after image is served while the indices last. -/
theorem serve_all
    (inside : count ≤ images)
    (fits : count ≤ indexRange) :
    run Scheduler.step (served images 0)
        ((List.range count).flatMap serveCalls) =
      served images count := by
  induction count with
  | zero =>
      rfl
  | succ count inductionHypothesis =>
      rw [List.range_succ, List.flatMap_append, run_append,
        inductionHypothesis (Nat.le_of_succ_le inside)
          (Nat.le_of_succ_le fits)]
      simpa using serve_next inside fits

/-- The number of tasks that are done. -/
theorem countP_tasksAfter :
    (tasksAfter images count).countP (atStage .done) =
      min images count := by
  induction images with
  | zero =>
      simp [tasksAfter]
  | succ images inductionHypothesis =>
      simp only [tasksAfter] at inductionHypothesis ⊢
      rw [List.range_succ, List.map_append, List.countP_append,
        inductionHypothesis]
      by_cases done : images < count <;>
        simp [atStage, taskAfter, done] <;> omega

/-- The image behind the last index is loaded into the first task. -/
theorem overrun_reloads
    (last : count = indexRange) :
    run Scheduler.step (served (count + 1) count) [.acquireCpuJob] =
      { served (count + 1) count with
        nextLoadIndex := count + 1
        freeSrcSlots := []
        tasks := (tasksAfter (count + 1) count).set 0
          { taskAfter count 0 with
            srcSlot := some 0
            srcSize := 0
            stage := .loading } } := by
  have first : count % indexRange = 0 := by rw [last, Nat.mod_self]
  simp [served, Scheduler.step, Scheduler.effect, Scheduler.acquireCpuJob,
    Scheduler.allWorkDoneLocked, Scheduler.acquirePostProcess,
    Scheduler.acquireSoftwareDecode, Scheduler.acquireLoad,
    Scheduler.popSuitable, first]

/-- The reloaded task is counted as done but is not. -/
theorem overrun_inconsistent
    (last : count = indexRange)
    (positive : 0 < count) :
    ¬ Consistent 1 1
      (run Scheduler.step
        (.start .software (List.replicate (count + 1) "") 1 1)
        ((List.range count).flatMap serveCalls ++ [.acquireCpuJob])) := by
  intro consistent
  have counted := consistent.numDone
  have inside : 0 < (tasksAfter (count + 1) count).length := by simp
  rw [run_append, start_served,
    serve_all (Nat.le_succ _) (Nat.le_of_eq last), overrun_reloads last]
    at counted
  simp [served, List.countP_set inside, countP_tasksAfter, atStage,
    taskAfter, positive] at counted
  omega

end Overrun

/--
With one image more than there are indices, the last one is handed out under
the index 0: task 0, which is done and counted, is loaded again.
-/
theorem index_overflow_reloads_task :
    ¬ ∀ mode imagePaths srcSlotCount dstSlotCount calls,
      Consistent srcSlotCount dstSlotCount
          (run Scheduler.step
            (.start mode imagePaths srcSlotCount dstSlotCount) calls) ∧
        Exclusive
          (run Scheduler.step
            (.start mode imagePaths srcSlotCount dstSlotCount) calls) := by
  intro claimed
  have positive : 0 < indexRange := by decide
  exact overrun_inconsistent rfl positive (claimed _ _ _ _ _).1

end CoreJpeg.Driver
