/-
  LimitlessOS.Sched.Runqueue — the run queue of kernel/arch/x86_64/scheduler.c.

  Sixteen task slots, of which the first `taskCount` have been used, the current task and a
  preferred one (the last that was woken). The functions keep the names of the source
  without the prefix `scheduler64_runqueue_`. The sleep queue is given to `onTimer` as the
  list of entries that have expired. The page root of the next task is loaded only if the
  process has one, and then that cannot fail.
-/
import LimitlessOS.Lib.Pool
import LimitlessOS.Signal.Frames

namespace LimitlessOS.Sched

open Signal (Frame)

/-- `SCHEDULER64_RUNQUEUE_TASK_LIMIT` -/
def runqueueTaskLimit : Nat := 16

abbrev TaskId := Fin runqueueTaskLimit

inductive TaskState where
  | unused
  | ready
  | running
  | exited
  | blocked
  deriving DecidableEq

/-- `scheduler64_clear_frame` -/
def clearFrame : Frame where
  r15 := 0
  r14 := 0
  r13 := 0
  r12 := 0
  r11 := 0
  r10 := 0
  r9 := 0
  r8 := 0
  rdi := 0
  rsi := 0
  rbp := 0
  rbx := 0
  rdx := 0
  rcx := 0
  rax := 0
  vector := 0
  errorCode := 0
  rip := 0
  cs := 0
  rflags := 0
  rsp := 0
  ss := 0

structure Task where
  state : TaskState
  frameValid : Bool
  pid : UInt32
  result : UInt32
  fsBase : UInt64
  frame : Frame

namespace Task

/-- `scheduler64_clear_task` -/
def clear : Task where
  state := .unused
  frameValid := false
  pid := 0
  result := 0
  fsBase := 0
  frame := clearFrame

def Runnable (t : Task) : Prop := t.state = .ready ∧ t.frameValid = true

instance (t : Task) : Decidable t.Runnable := inferInstanceAs (Decidable (_ ∧ _))

/-- The task has been registered and has not exited. -/
def Alive (t : Task) : Prop := t.state = .ready ∨ t.state = .running ∨ t.state = .blocked

end Task

structure Runqueue where
  active : Bool
  taskCount : Nat
  currentTask : Option TaskId
  preferredTask : Option TaskId
  tasks : TaskId → Task
  cs : UInt64
  ss : UInt64
  /-- The fs base register of the processor. -/
  fsBase : UInt64
  count_le : taskCount ≤ runqueueTaskLimit

namespace Runqueue

/-- `reset` -/
def reset : Runqueue where
  active := false
  taskCount := 0
  currentTask := none
  preferredTask := none
  tasks := fun _ => .clear
  cs := 0
  ss := 0
  fsBase := 0
  count_le := Nat.zero_le _

def set (q : Runqueue) (t : TaskId) (task : Task) : Runqueue := { q with tasks := Function.update q.tasks t task }

/-- The current task, if the queue runs. -/
def currentTaskId (q : Runqueue) : Option TaskId :=
  if q.active then q.currentTask.filter fun t => t.val < q.taskCount else none

/-- `scheduler64_allocate_task_slot` -/
def allocateTaskSlot (q : Runqueue) : Option TaskId :=
  match (List.finRange runqueueTaskLimit).find? fun t =>
      t.val < q.taskCount && ((q.tasks t).state = .unused || (q.tasks t).state = .exited) with
  | some t => some t
  | none => if h : q.taskCount < runqueueTaskLimit then some ⟨q.taskCount, h⟩ else none

/-- `scheduler64_next_runnable`; the preferred task is forgotten. -/
def nextRunnable (q : Runqueue) (current : TaskId) : Option TaskId × Runqueue :=
  if q.taskCount = 0 then (none, q)
  else
    match q.preferredTask.filter fun p => p.val < q.taskCount && p ≠ current && (q.tasks p).Runnable with
    | some p => (some p, { q with preferredTask := none })
    | none =>
      let chosen := (List.range (q.taskCount - 1)).findSome? fun offset =>
        let candidate := (current.val + (offset + 1)) % q.taskCount
        if h : candidate < runqueueTaskLimit then
          if (q.tasks ⟨candidate, h⟩).Runnable then some (⟨candidate, h⟩ : TaskId) else none
        else none
      (chosen, { q with preferredTask := none })

/-- The slot is cleared and holds a new task that is ready. -/
def enter (q : Runqueue) (t : TaskId) (pid : UInt32) (frame : Frame) : Runqueue :=
  { q with
    tasks := Function.update q.tasks t { Task.clear with state := .ready, frameValid := true, pid, frame }
    taskCount := if t.val = q.taskCount then q.taskCount + 1 else q.taskCount
    count_le := by
      have := q.count_le
      have := t.isLt
      split <;> omega }

/-- `register_process_frame` -/
def registerProcessFrame (q : Runqueue) (pid runtimeToken entryToken : UInt32) (frame : Frame) : Option TaskId × Runqueue :=
  match q.allocateTaskSlot with
  | none => (none, q)
  | some t =>
    if pid = 0 ∨ runtimeToken = 0 ∨ entryToken = 0 ∨ frame.rip = 0 ∨ frame.rsp = 0 ∨ frame.cs &&& 3 ≠ 3 ∨
        frame.ss &&& 3 ≠ 3 then
      (none, q)
    else (some t, q.enter t pid frame)

/-- `scheduler64_prepare_user_frame` -/
def prepareUserFrame (rip rsp selectors rflags : UInt64) : Frame :=
  { clearFrame with rip, rsp, rflags, cs := selectors &&& 0xFFFF, ss := (selectors >>> 16) &&& 0xFFFF }

/-- `register_process_task`, with `register_user_task` -/
def registerProcessTask (q : Runqueue) (pid runtimeToken entryToken : UInt32) (rip rsp selectors rflags : UInt64) :
    Option TaskId × Runqueue :=
  if pid = 0 ∨ runtimeToken = 0 ∨ entryToken = 0 then (none, q)
  else
    match q.allocateTaskSlot with
    | none => (none, q)
    | some t => (some t, q.enter t pid (prepareUserFrame rip rsp selectors rflags))

/-- `block_task` -/
def blockTask (q : Runqueue) (t : TaskId) : Bool × Runqueue :=
  let task := q.tasks t
  if q.taskCount ≤ t.val ∨ !task.frameValid ∨ task.state = .unused ∨ task.state = .exited ∨ task.state = .blocked then
    (false, q)
  else if task.state = .running then
    if !q.active ∨ q.currentTask ≠ some t then (false, q)
    else
      match q.nextRunnable t with
      | (none, q) => (false, q)
      | (some _, q) => (true, q.set t { task with state := .blocked })
  else (true, q.set t { task with state := .blocked })

/-- `wake_task_with_result` -/
def wakeTaskWithResult (q : Runqueue) (t : TaskId) (result : UInt64) : Bool × Runqueue :=
  let task := q.tasks t
  if q.taskCount ≤ t.val ∨ !task.frameValid ∨ task.state ≠ .blocked then (false, q)
  else
    (true, { q.set t { task with state := .ready, frame := { task.frame with rax := result } } with preferredTask := some t })

/-- `wake_task_replay`: the frame stays, the task makes its call again. -/
def wakeTaskReplay (q : Runqueue) (t : TaskId) : Bool × Runqueue :=
  let task := q.tasks t
  if q.taskCount ≤ t.val ∨ !task.frameValid ∨ task.state ≠ .blocked then (false, q)
  else (true, { q.set t { task with state := .ready } with preferredTask := some t })

/-- `set_task_fs_base`; the register is written only if the task runs. -/
def setTaskFsBase (q : Runqueue) (t : TaskId) (fsBase : UInt64) : Bool × Runqueue :=
  let task := q.tasks t
  if q.taskCount ≤ t.val ∨ !task.frameValid ∨ task.state = .unused then (false, q)
  else
    let q' := q.set t { task with fsBase }
    (true, if q.active ∧ q.currentTask = some t ∧ task.state = .running then { q' with fsBase } else q')

/-- `set_current_fs_base` -/
def setCurrentFsBase (q : Runqueue) (fsBase : UInt64) : Bool × Runqueue :=
  match q.currentTaskId with
  | none => (false, q)
  | some t => q.setTaskFsBase t fsBase

/-- The tasks of the expired sleep entries are woken. -/
def wakeExpired (q : Runqueue) (expired : List (TaskId × UInt64)) : Runqueue :=
  expired.foldl (fun q e => (q.wakeTaskWithResult e.1 e.2).2) q

/-- The common end of the three switches: the task runs, with its frame and fs base. -/
def dispatch (q : Runqueue) (next : TaskId) : Frame × Runqueue :=
  let task := q.tasks next
  (task.frame,
    { q.set next { task with state := .running } with
      currentTask := some next, fsBase := task.fsBase, cs := task.frame.cs, ss := task.frame.ss })

/-- `start` -/
def start (q : Runqueue) (first : TaskId) : Bool × Runqueue :=
  if q.taskCount ≤ first.val ∨ (q.tasks first).state ≠ .ready then (false, q)
  else (true, { (q.dispatch first).2 with active := true })

/-- The frame and the fs base are saved in the task. -/
def save (q : Runqueue) (t : TaskId) (frame : Frame) (state : TaskState) : Runqueue :=
  { q.set t { q.tasks t with state, frame, frameValid := true, fsBase := q.fsBase } with cs := frame.cs, ss := frame.ss }

/-- `on_timer`: whether the frame is another task's, the frame and the queue. -/
def onTimer (q : Runqueue) (frame : Frame) (expired : List (TaskId × UInt64)) :
    Bool × Frame × Runqueue :=
  match q.currentTaskId with
  | none => (false, frame, q)
  | some t =>
    if frame.cs &&& 3 ≠ 3 then (false, frame, q)
    else
      let state := if (q.tasks t).state = .running then .ready else (q.tasks t).state
      let q := (q.save t frame state).wakeExpired expired
      let resume (q : Runqueue) : Runqueue :=
        if (q.tasks t).state = .ready then q.set t { q.tasks t with state := .running } else q
      match q.nextRunnable t with
      | (none, q) => (false, frame, resume q)
      | (some next, q) =>
        let (frame, q) := q.dispatch next
        (true, frame, q)

/-- `on_blocked_syscall`; a signal for the task that is resumed is delivered by the caller. -/
def onBlockedSyscall (q : Runqueue) (frame : Frame) : Bool × Frame × Runqueue :=
  match q.currentTaskId with
  | none => (false, frame, q)
  | some t =>
    if !(q.tasks t).frameValid ∨ (q.tasks t).state ≠ .blocked ∨ frame.cs &&& 3 ≠ 3 then (false, frame, q)
    else
      match (q.save t frame .blocked).nextRunnable t with
      | (none, q) => (false, frame, q)
      | (some next, q) =>
        let (frame, q) := q.dispatch next
        (true, frame, q)

inductive ExitResult where
  | none
  | resumed
  | complete
  deriving DecidableEq

/-- `stop` -/
def stop (q : Runqueue) : Runqueue := { q with active := false, currentTask := none, fsBase := 0 }

/-- `on_exit`; a signal for the task that is resumed is delivered by the caller. -/
def onExit (q : Runqueue) (frame : Frame) (result : UInt32) : ExitResult × Frame × Runqueue :=
  match q.currentTaskId with
  | none => (.none, frame, q)
  | some t =>
    let q := { q.set t { q.tasks t with state := .exited, result, fsBase := q.fsBase } with cs := frame.cs, ss := frame.ss }
    match q.nextRunnable t with
    | (none, q) => (.complete, frame, q.stop)
    | (some next, q) =>
      let (frame, q) := q.dispatch next
      (.resumed, frame, q)

end Runqueue

end LimitlessOS.Sched
