/-
  LimitlessOS.Sched.Changes — the run queue as tasks that take turns.

  `Schedule` is what a task can notice of the run queue: the tasks, which of them has the
  processor, and the fs base register. A `Change` is made to one task at a time: it is made,
  it stops with a frame and an fs base, it is woken, it is dispatched with a frame and an fs
  base. `Schedule.Allowed` says when a change may happen.

  Proved, for each function of the run queue: the changes that it reports, one after the
  other, are allowed and lead to the queue that it returns. The frames and the fs base of
  the changes are those that the function is given and returns, not those it keeps:
  - `trace_made`, `trace_registerProcessTask`: a task is made.
  - `trace_blockTask`, `trace_wakeTaskWithResult`, `trace_wakeTaskReplay`: it blocks and is
    woken.
  - `trace_onTimer`, `trace_onBlockedSyscall`, `trace_onExit`: the switches.
-/
import LimitlessOS.Lib.Run
import LimitlessOS.Sched.Steps

namespace LimitlessOS.Sched

open Function Lib Signal Trace

inductive Change where
  | made (t : TaskId) (pid : UInt32) (frame : Frame) (fsBase : UInt64)
  | stopped (t : TaskId) (frame : Frame) (fsBase : UInt64)
  /-- The task that has just stopped goes on with its frame. -/
  | resumed (t : TaskId)
  | blocked (t : TaskId)
  | woken (t : TaskId) (result : UInt64)
  | replayed (t : TaskId)
  | fsSet (t : TaskId) (fsBase : UInt64)
  | dispatched (t : TaskId) (frame : Frame) (fsBase : UInt64)
  | exited (t : TaskId) (result : UInt32)
  | halted
  | cleared

structure Schedule where
  tasks : TaskId → Task
  taskCount : Nat
  running : Option TaskId
  fsBase : UInt64
  /-- The queue has been stopped, or its last task has exited. -/
  ended : Bool

namespace Schedule

def set (c : Schedule) (t : TaskId) (task : Task) : Schedule := { c with tasks := update c.tasks t task }

@[simp] theorem set_tasks (c : Schedule) (t u : TaskId) (task : Task) :
    (c.set t task).tasks u = if u = t then task else c.tasks u := by
  simp [set, update_apply]

def apply (c : Schedule) : Change → Schedule
  | .made t pid frame fsBase =>
    { c.set t { Task.clear with state := .ready, frameValid := true, pid, frame, fsBase } with
      taskCount := if t.val = c.taskCount then c.taskCount + 1 else c.taskCount }
  | .stopped t frame fsBase =>
    { c.set t
        { c.tasks t with
          state := if (c.tasks t).state = .running then .ready else (c.tasks t).state
          frame
          frameValid := true
          fsBase } with
      running := none }
  | .resumed t =>
    { c.set t { c.tasks t with state := if (c.tasks t).state = .ready then .running else (c.tasks t).state } with
      running := some t }
  | .blocked t => c.set t { c.tasks t with state := .blocked }
  | .woken t result => c.set t { c.tasks t with state := .ready, frame := { (c.tasks t).frame with rax := result } }
  | .replayed t => c.set t { c.tasks t with state := .ready }
  | .fsSet t fsBase =>
    { c.set t { c.tasks t with fsBase } with fsBase := if (c.tasks t).state = .running then fsBase else c.fsBase }
  | .dispatched t _ fsBase => { c.set t { c.tasks t with state := .running } with running := some t, fsBase }
  | .exited t result => { c.set t { c.tasks t with state := .exited, result, fsBase := c.fsBase } with running := none }
  | .halted => { c with running := none, fsBase := 0, ended := true }
  | .cleared => { tasks := fun _ => .clear, taskCount := 0, running := none, fsBase := 0, ended := false }

/-- When the change may happen. -/
def Allowed (c : Schedule) : Change → Prop
  | .made t _ _ _ => t.val ≤ c.taskCount ∧ ((c.tasks t).Alive → t.val = c.taskCount)
  | .stopped t _ fsBase => c.running = some t ∧ t.val < c.taskCount ∧ fsBase = c.fsBase
  | .resumed t => c.running = none ∧ t.val < c.taskCount
  | .blocked t =>
    t.val < c.taskCount ∧ (c.tasks t).frameValid = true ∧ ((c.tasks t).state = .ready ∨ (c.tasks t).state = .running)
  | .woken t _ => t.val < c.taskCount ∧ (c.tasks t).frameValid = true ∧ (c.tasks t).state = .blocked
  | .replayed t => t.val < c.taskCount ∧ (c.tasks t).frameValid = true ∧ (c.tasks t).state = .blocked
  | .fsSet t _ => c.running = some t ∧ t.val < c.taskCount
  | .dispatched t frame fsBase =>
    c.ended = false ∧ c.running = none ∧ t.val < c.taskCount ∧ (c.tasks t).state = .ready ∧ frame = (c.tasks t).frame ∧
      fsBase = (c.tasks t).fsBase
  | .exited t _ => c.running = some t ∧ t.val < c.taskCount
  | .halted => True
  | .cleared => True

def Next (c : Schedule) (e : Change) (c' : Schedule) : Prop := c.Allowed e ∧ c' = c.apply e

end Schedule

namespace Runqueue

variable {q q' : Runqueue} {t : TaskId} {ended : Bool}

/-- Inside a switch no task has the processor. -/
def scheduleAt (q : Runqueue) (running : Option TaskId) (ended : Bool) : Schedule :=
  ⟨q.tasks, q.taskCount, running, q.fsBase, ended⟩

def schedule (q : Runqueue) (ended : Bool) : Schedule := q.scheduleAt q.currentTaskId ended

/-- A queue that runs has a current task, and has not ended. -/
def HasCurrent (q : Runqueue) (ended : Bool) : Prop :=
  q.active = true → ended = false ∧ ∃ t, q.currentTask = some t ∧ t.val < q.taskCount

namespace HasCurrent

theorem of_eq (hq : q.HasCurrent ended) (hactive : q'.active = q.active) (hcurrent : q'.currentTask = q.currentTask)
    (hcount : q.taskCount ≤ q'.taskCount) : q'.HasCurrent ended := by
  intro ha
  rw [hactive] at ha
  obtain ⟨hended, t, ht, hlt⟩ := hq ha
  exact ⟨hended, t, by rw [hcurrent, ht], lt_of_lt_of_le hlt hcount⟩

theorem still (hq : q.HasCurrent ended) (h : q.Still q') : q'.HasCurrent ended := hq.of_eq h.active h.currentTask h.taskCount.ge

theorem of_current (hcurrent : q.currentTask = some t) (hlt : t.val < q.taskCount) : q.HasCurrent false :=
  fun _ => ⟨rfl, t, hcurrent, hlt⟩

theorem of_inactive (h : q.active = false) : q.HasCurrent ended := by
  intro ha
  simp [h] at ha

end HasCurrent

/-- The choice of the next task changes nothing. -/
theorem scheduleAt_nextRunnable {chosen : Option TaskId} (h : q.nextRunnable t = (chosen, q')) (running : Option TaskId)
    (ended : Bool) :
    q'.scheduleAt running ended = q.scheduleAt running ended ∧ q.Still q' := by
  have hq' : q' = (q.nextRunnable t).2 := by rw [h]
  have hstill := q.still_nextRunnable t
  rw [hq', scheduleAt, hstill.taskCount, hstill.fsBase, nextRunnable_tasks]
  exact ⟨rfl, hstill⟩

theorem currentTaskId_grow (hq : q.HasCurrent ended) (hactive : q'.active = q.active) (hcurrent : q'.currentTask = q.currentTask)
    (hcount : q.taskCount ≤ q'.taskCount) : q'.currentTaskId = q.currentTaskId := by
  unfold currentTaskId
  rw [hactive, hcurrent]
  split_ifs with ha
  · obtain ⟨-, t, ht, hlt⟩ := hq ha
    have hlt' := lt_of_lt_of_le hlt hcount
    simp only [ht, Option.filter_some, hlt, hlt', decide_true, if_true]
  · rfl

/-! ## Registration -/

def madeBy (pid : UInt32) (frame : Frame) (fsBase : UInt64) : Option TaskId → List Change
  | none => []
  | some t => [.made t pid frame fsBase]

theorem trace_made {pid : UInt32} {frame : Frame} {fsBase : UInt64} (hq : q.HasCurrent ended) (hle : t.val ≤ q.taskCount)
    (hfree : (q.tasks t).Alive → t.val = q.taskCount)
    (htasks : q'.tasks = update q.tasks t { Task.clear with state := .ready, frameValid := true, pid, frame, fsBase })
    (hcount : q'.taskCount = if t.val = q.taskCount then q.taskCount + 1 else q.taskCount) (hactive : q'.active = q.active)
    (hcurrent : q'.currentTask = q.currentTask) (hfs : q'.fsBase = q.fsBase) :
    Trace Schedule.Next (q.schedule ended) [.made t pid frame fsBase] (q'.schedule ended) := by
  refine one.2 ⟨⟨hle, hfree⟩, ?_⟩
  have hrunning : q'.currentTaskId = q.currentTaskId := by
    apply currentTaskId_grow hq hactive hcurrent
    rw [hcount]
    split_ifs <;> omega
  simp only [schedule, scheduleAt, Schedule.apply, Schedule.set, htasks, hcount, hrunning, hfs]
  rfl

theorem registerProcessFrame_fsBase (q : Runqueue) (pid runtimeToken entryToken : UInt32) (frame : Frame) :
    (q.registerProcessFrame pid runtimeToken entryToken frame).2.fsBase = q.fsBase := by
  unfold registerProcessFrame
  rcases q.allocateTaskSlot with _ | t
  · rfl
  split_ifs <;> rfl

/-- The slot is written for a new task that is not the running one. -/
theorem setTaskFsBase_ready (hlt : t.val < q.taskCount) (hvalid : (q.tasks t).frameValid)
    (hready : (q.tasks t).state = .ready) (fsBase : UInt64) :
    q.setTaskFsBase t fsBase = (true, q.set t { q.tasks t with fsBase }) := by
  unfold setTaskFsBase
  simp only
  rw [if_neg (by simp [hvalid, hready, hlt]), if_neg (by simp [hready])]

section

variable {pid runtimeToken entryToken : UInt32} {rip rsp selectors rflags : UInt64} {made : Option TaskId}
  (h : q.registerProcessTask pid runtimeToken entryToken rip rsp selectors rflags = (made, q'))
include h

theorem registerProcessTask_cases : (made = none ∧ q' = q) ∨
    ∃ t, q.allocateTaskSlot = some t ∧ made = some t ∧ q' = q.enter t pid (prepareUserFrame rip rsp selectors rflags) := by
  unfold registerProcessTask at h
  split_ifs at h
  · cases h
    exact .inl ⟨rfl, rfl⟩
  rcases hslot : q.allocateTaskSlot with _ | t <;> rw [hslot] at h <;> cases h
  · exact .inl ⟨rfl, rfl⟩
  · exact .inr ⟨t, rfl, rfl, rfl⟩

theorem trace_registerProcessTask (hq : q.HasCurrent ended) :
    Trace Schedule.Next (q.schedule ended) (madeBy pid (prepareUserFrame rip rsp selectors rflags) 0 made)
    (q'.schedule ended) := by
  obtain ⟨rfl, rfl⟩ | ⟨t, hslot, rfl, rfl⟩ := registerProcessTask_cases h
  · exact rfl
  obtain ⟨hle, hfree⟩ := allocateTaskSlot_some hslot
  exact trace_made hq hle hfree rfl rfl rfl rfl rfl

/-- A task that is ready is not touched by the registration of another. -/
theorem registerProcessTask_rest :
    q'.active = q.active ∧ ∀ t, (q.tasks t).state = .ready → t.val < q.taskCount → q'.tasks t = q.tasks t ∧
      t.val < q'.taskCount := by
  obtain ⟨-, rfl⟩ | ⟨u, hslot, -, rfl⟩ := registerProcessTask_cases h
  · exact ⟨rfl, fun t _ h => ⟨rfl, h⟩⟩
  refine ⟨rfl, ?_⟩
  intro t hready hlt
  have hne : t ≠ u := by
    rintro rfl
    have := (allocateTaskSlot_some hslot).2 (.inl hready)
    omega
  refine ⟨update_of_ne hne _ _, ?_⟩
  simp only [enter]
  split_ifs <;> omega

theorem registerProcessTask_some (hmade : made = some t) :
    t.val < q'.taskCount ∧ (q'.tasks t).state = .ready ∧ (q'.tasks t).frame = prepareUserFrame rip rsp selectors rflags := by
  obtain ⟨hnone, -⟩ | ⟨u, hslot, hsome, rfl⟩ := registerProcessTask_cases h
  · simp [hmade] at hnone
  obtain rfl : t = u := Option.mem_unique hmade hsome
  have hle := (allocateTaskSlot_some hslot).1
  refine ⟨?_, by simp [enter], by simp [enter]⟩
  simp only [enter]
  split_ifs <;> omega

end

/-! ## Waking and blocking -/

/-- The change, if the call has succeeded. -/
def onSuccess (e : Change) (succeeded : Bool) : List Change := if succeeded then [e] else []

theorem trace_blockTask (q : Runqueue) (t : TaskId) :
    Trace Schedule.Next (q.schedule ended) (onSuccess (.blocked t) (q.blockTask t).1) ((q.blockTask t).2.schedule ended) := by
  have hstill := q.still_blockTask t
  simp only [schedule, scheduleAt, hstill.currentTaskId, hstill.taskCount, hstill.fsBase]
  rcases q.blockTask_cases t with ⟨hno, htasks⟩ | ⟨hyes, hlt, hvalid, hstate, htasks⟩ <;> rw [htasks]
  · rw [hno]
    exact rfl
  · rw [hyes]
    exact one.2 ⟨⟨hlt, hvalid, hstate.imp_right And.left⟩, rfl⟩

theorem trace_wakeTaskWithResult (q : Runqueue) (t : TaskId) (result : UInt64) (running : Option TaskId) (ended : Bool) :
    Trace Schedule.Next (q.scheduleAt running ended) (onSuccess (.woken t result) (q.wakeTaskWithResult t result).1)
      ((q.wakeTaskWithResult t result).2.scheduleAt running ended) := by
  rcases q.wakeTaskWithResult_cases t result with ⟨heq, -⟩ | ⟨hlt, hvalid, hstate, heq⟩
  · rw [heq]
    exact rfl
  · rw [heq]
    exact one.2 ⟨⟨hlt, hvalid, hstate⟩, rfl⟩

theorem trace_wakeTaskReplay (q : Runqueue) (t : TaskId) :
    Trace Schedule.Next (q.schedule ended) (onSuccess (.replayed t) (q.wakeTaskReplay t).1)
      ((q.wakeTaskReplay t).2.schedule ended) := by
  unfold wakeTaskReplay
  simp only
  split_ifs with hno
  · exact rfl
  · simp only [not_or, not_le, Bool.not_eq_true', Bool.not_eq_false, ne_eq, not_not] at hno
    exact one.2 ⟨hno, rfl⟩

theorem trace_setCurrentFsBase (hcurrent : q.currentTaskId = some t) (fsBase : UInt64) :
    Trace Schedule.Next (q.schedule ended) (onSuccess (.fsSet t fsBase) (q.setTaskFsBase t fsBase).1)
      ((q.setTaskFsBase t fsBase).2.schedule ended) := by
  obtain ⟨hactive, hcur, hlt⟩ := currentTaskId_eq_some.1 hcurrent
  unfold setTaskFsBase
  simp only
  split
  · exact rfl
  refine one.2 ⟨⟨hcurrent, hlt⟩, ?_⟩
  simp only [hactive, hcur, true_and]
  have happly : (q.schedule ended).apply (.fsSet t fsBase) =
      { (q.schedule ended).set t { q.tasks t with fsBase } with
        fsBase := if (q.tasks t).state = .running then fsBase else q.fsBase } := rfl
  rw [happly]
  split_ifs <;> rfl

/-! ## Switches -/

/-- The task is dispatched with the frame and the fs base that are returned. -/
def dispatchedTo (r : Frame × Runqueue) : List Change :=
  match r.2.currentTask with
  | none => []
  | some t => [.dispatched t r.1 r.2.fsBase]

/-- The task that is chosen is ready. -/
theorem trace_dispatch {next : TaskId} (h : q.nextRunnable t = (some next, q')) (hactive : q'.active) :
    Trace Schedule.Next (q'.scheduleAt none false) (dispatchedTo (q'.dispatch next)) ((q'.dispatch next).2.schedule false) ∧
      (q'.dispatch next).2.HasCurrent false := by
  obtain ⟨hrun, hlt⟩ := nextRunnable_some (q := q) (t := t) (u := next) (by rw [h])
  obtain rfl : (q.nextRunnable t).2 = q' := by rw [h]
  rw [← (q.still_nextRunnable t).taskCount] at hlt
  have hready : ((q.nextRunnable t).2.tasks next).state = .ready := by simpa using hrun.1
  have hcurrent : ((q.nextRunnable t).2.dispatch next).2.currentTaskId = some next := currentTaskId_eq_some.2 ⟨hactive, rfl, hlt⟩
  refine ⟨one.2 ⟨⟨rfl, rfl, hlt, hready, rfl, rfl⟩, ?_⟩, .of_current rfl hlt⟩
  rw [schedule, hcurrent]
  rfl

theorem trace_start (hinactive : q.active = false) (hlt : t.val < q.taskCount) (hready : (q.tasks t).state = .ready) :
    (q.start t).1 ∧ (q.start t).2.HasCurrent false ∧
      Trace Schedule.Next (q.schedule false) [.dispatched t (q.tasks t).frame (q.start t).2.fsBase]
        ((q.start t).2.schedule false) := by
  have hstart : q.start t = (true, { (q.dispatch t).2 with active := true }) := by
    unfold start
    simp [hready, hlt]
  rw [hstart]
  refine ⟨rfl, .of_current rfl hlt, ?_⟩
  have hnone : q.currentTaskId = none := by
    unfold currentTaskId
    simp [hinactive]
  have hcurrent : ({ (q.dispatch t).2 with active := true } : Runqueue).currentTaskId = some t :=
    currentTaskId_eq_some.2 ⟨rfl, rfl, hlt⟩
  refine one.2 ⟨⟨rfl, hnone, hlt, hready, rfl, rfl⟩, ?_⟩
  rw [schedule, hcurrent]
  rfl

def wakeExpiredChanges (q : Runqueue) : List (TaskId × UInt64) → List Change
  | [] => []
  | e :: rest =>
    onSuccess (.woken e.1 e.2) (q.wakeTaskWithResult e.1 e.2).1 ++ wakeExpiredChanges (q.wakeTaskWithResult e.1 e.2).2 rest

theorem trace_wakeExpired (q : Runqueue) (expired : List (TaskId × UInt64)) (running : Option TaskId) (ended : Bool) :
    Trace Schedule.Next (q.scheduleAt running ended) (q.wakeExpiredChanges expired)
      ((q.wakeExpired expired).scheduleAt running ended) := by
  induction expired generalizing q with
  | nil => exact rfl
  | cons e rest ih => exact append.2 ⟨_, q.trace_wakeTaskWithResult e.1 e.2 running ended, ih _⟩

/-- The current task is taken off the processor. -/
theorem trace_save (hcurrent : q.currentTaskId = some t) (frame : Frame) {state : TaskState}
    (hstate : state = if (q.tasks t).state = .running then .ready else (q.tasks t).state) :
    Trace Schedule.Next (q.schedule ended) [.stopped t frame q.fsBase] ((q.save t frame state).scheduleAt none ended) := by
  obtain ⟨-, -, hlt⟩ := currentTaskId_eq_some.1 hcurrent
  refine one.2 ⟨⟨hcurrent, hlt, rfl⟩, ?_⟩
  rw [hstate]
  rfl

/-- The task that has stopped goes on: nobody else can run. -/
theorem trace_resume (hcurrent : q.currentTaskId = some t) :
    Trace Schedule.Next (q.scheduleAt none false) [.resumed t]
        ((if (q.tasks t).state = .ready then q.set t { q.tasks t with state := .running } else q).schedule false) ∧
      (if (q.tasks t).state = .ready then q.set t { q.tasks t with state := .running } else q).HasCurrent false := by
  obtain ⟨hactive, hcur, hlt⟩ := currentTaskId_eq_some.1 hcurrent
  refine ⟨one.2 ⟨⟨rfl, hlt⟩, ?_⟩, by split_ifs <;> exact .of_current hcur hlt⟩
  have hset : ∀ task, (q.set t task).schedule false = { (q.schedule false).set t task with running := some t } := by
    intro task
    have hcurrent' : (q.set t task).currentTaskId = some t := currentTaskId_eq_some.2 ⟨hactive, hcur, hlt⟩
    rw [schedule, hcurrent']
    rfl
  show _ = { (q.scheduleAt none false).set t
      { q.tasks t with state := if (q.tasks t).state = .ready then .running else (q.tasks t).state } with running := some t }
  split_ifs with hready
  · rw [hset]
    rfl
  · have hself : (q.scheduleAt none false).set t { q.tasks t with state := (q.tasks t).state } = q.scheduleAt none false := by
      simp only [Schedule.set, scheduleAt, update_eq_self]
    rw [hself, schedule, hcurrent]
    rfl

def onTimerChanges (q : Runqueue) (frame : Frame) (expired : List (TaskId × UInt64)) : List Change :=
  match q.currentTaskId with
  | none => []
  | some t =>
    if frame.cs &&& 3 ≠ 3 then []
    else
      let state := if (q.tasks t).state = .running then .ready else (q.tasks t).state
      let r := q.onTimer frame expired
      .stopped t frame q.fsBase ::
        ((q.save t frame state).wakeExpiredChanges expired ++ if r.1 then dispatchedTo r.2 else [.resumed t])

theorem trace_onTimer (hq : q.HasCurrent ended) (frame : Frame) (expired : List (TaskId × UInt64)) :
    Trace Schedule.Next (q.schedule ended) (q.onTimerChanges frame expired) ((q.onTimer frame expired).2.2.schedule ended) ∧
      (q.onTimer frame expired).2.2.HasCurrent ended := by
  unfold onTimerChanges onTimer
  rcases ht : q.currentTaskId with _ | t
  · exact ⟨rfl, hq⟩
  obtain ⟨hactive, hcurrent, hlt⟩ := currentTaskId_eq_some.1 ht
  obtain rfl := (hq hactive).1
  simp only
  by_cases hcs : frame.cs &&& 3 ≠ 3
  · rw [if_pos hcs, if_pos hcs]
    exact ⟨rfl, hq⟩
  rw [if_neg hcs, if_neg hcs]
  generalize hstate : (if (q.tasks t).state = .running then TaskState.ready else (q.tasks t).state) = state
  have hsave : Trace Schedule.Next (q.schedule false) [.stopped t frame q.fsBase]
      ((q.save t frame state).scheduleAt none false) :=
    trace_save ht frame hstate.symm
  have hwake := (q.save t frame state).trace_wakeExpired expired none false
  have hstill := (q.save t frame state).still_wakeExpired expired
  generalize hq1 : (q.save t frame state).wakeExpired expired = q1 at *
  have hsaved := append.2 ⟨_, hsave, hwake⟩
  refine And.imp_left (fun h => append.2 ⟨q1.scheduleAt none false, hsaved, h⟩) ?_
  rcases hchosen : q1.nextRunnable t with ⟨chosen, q2⟩
  obtain ⟨hschedule, hnext⟩ := scheduleAt_nextRunnable hchosen none false
  rw [← hschedule]
  rcases chosen with _ | next
  · exact trace_resume ((hstill.trans hnext).currentTaskId.trans ht)
  exact trace_dispatch hchosen ((hstill.trans hnext).active.trans hactive)

def onBlockedSyscallChanges (q : Runqueue) (frame : Frame) : List Change :=
  match q.currentTaskId with
  | none => []
  | some t =>
    if !(q.tasks t).frameValid ∨ (q.tasks t).state ≠ .blocked ∨ frame.cs &&& 3 ≠ 3 then []
    else
      let r := q.onBlockedSyscall frame
      .stopped t frame q.fsBase :: if r.1 then dispatchedTo r.2 else [.resumed t]

theorem trace_onBlockedSyscall (hq : q.HasCurrent ended) (frame : Frame) :
    Trace Schedule.Next (q.schedule ended) (q.onBlockedSyscallChanges frame) ((q.onBlockedSyscall frame).2.2.schedule ended) ∧
      (q.onBlockedSyscall frame).2.2.HasCurrent ended := by
  unfold onBlockedSyscallChanges onBlockedSyscall
  rcases ht : q.currentTaskId with _ | t
  · exact ⟨rfl, hq⟩
  obtain ⟨hactive, hcurrent, hlt⟩ := currentTaskId_eq_some.1 ht
  obtain rfl := (hq hactive).1
  simp only
  by_cases hno : (!(q.tasks t).frameValid) ∨ (q.tasks t).state ≠ .blocked ∨ frame.cs &&& 3 ≠ 3
  · rw [if_pos hno, if_pos hno]
    exact ⟨rfl, hq⟩
  rw [if_neg hno, if_neg hno]
  simp only [not_or, Bool.not_eq_true', Bool.not_eq_false, ne_eq, not_not] at hno
  have hsave : Trace Schedule.Next (q.schedule false) [.stopped t frame q.fsBase]
      ((q.save t frame .blocked).scheduleAt none false) :=
    trace_save ht frame (by simp [hno.2.1])
  refine And.imp_left (fun h => append.2 ⟨_, hsave, h⟩) ?_
  have ht1 : (q.save t frame .blocked).currentTaskId = some t := currentTaskId_eq_some.2 ⟨hactive, hcurrent, hlt⟩
  have hblocked : ((q.save t frame .blocked).tasks t).state = .blocked := by simp [save]
  have hactive1 : (q.save t frame .blocked).active := hactive
  generalize q.save t frame .blocked = q1 at *
  rcases hchosen : q1.nextRunnable t with ⟨chosen, q2⟩
  obtain ⟨hschedule, hnext⟩ := scheduleAt_nextRunnable hchosen none false
  cases chosen with
  | none =>
    have hnot : (q2.tasks t).state ≠ .ready := by
      rw [show q2.tasks = q1.tasks from congrArg Schedule.tasks hschedule, hblocked]
      simp
    have hresume := trace_resume (hnext.currentTaskId.trans ht1)
    rwa [if_neg hnot, hschedule] at hresume
  | some next =>
    rw [← hschedule]
    exact trace_dispatch hchosen (hnext.active.trans hactive1)

def onExitChanges (q : Runqueue) (frame : Frame) (result : UInt32) : List Change :=
  match q.currentTaskId with
  | none => []
  | some t =>
    let r := q.onExit frame result
    .exited t result :: if r.1 = .resumed then dispatchedTo r.2 else [.halted]

/-! ## A queue that runs has a current task -/

section

variable (hq : q.HasCurrent ended)
include hq

theorem hasCurrent_blockTask (t : TaskId) : (q.blockTask t).2.HasCurrent ended := hq.still (q.still_blockTask t)

theorem wake_traced (t : TaskId) (result : UInt64) :
    Trace Schedule.Next (q.schedule ended) (onSuccess (.woken t result) (q.wakeTaskWithResult t result).1)
        ((q.wakeTaskWithResult t result).2.schedule ended) ∧ (q.wakeTaskWithResult t result).2.HasCurrent ended := by
  have hstill := q.still_wakeTaskWithResult t result
  rw [schedule, schedule, hstill.currentTaskId]
  exact ⟨q.trace_wakeTaskWithResult t result q.currentTaskId ended, hq.still hstill⟩

theorem hasCurrent_wakeTaskReplay (t : TaskId) : (q.wakeTaskReplay t).2.HasCurrent ended := by
  unfold wakeTaskReplay
  simp only
  split_ifs
  · exact hq
  · exact hq.of_eq rfl rfl le_rfl

theorem hasCurrent_setTaskFsBase (t : TaskId) (fsBase : UInt64) :
    (q.setTaskFsBase t fsBase).2.HasCurrent ended := by
  unfold setTaskFsBase
  simp only
  split_ifs
  · exact hq
  · exact hq.of_eq rfl rfl le_rfl
  · exact hq.of_eq rfl rfl le_rfl

theorem hasCurrent_registerProcessFrame (pid runtimeToken entryToken : UInt32) (frame : Frame) :
    (q.registerProcessFrame pid runtimeToken entryToken frame).2.HasCurrent ended := by
  rcases q.registerProcessFrame_cases pid runtimeToken entryToken frame with
    heq | ⟨t, q', heq, -, -, -, -, hcount, hactive, hcurrent⟩ <;> rw [heq]
  · exact hq
  · apply hq.of_eq hactive hcurrent
    rw [hcount]
    split_ifs <;> omega

/-- The queue has ended when nobody can run after the exit. -/
theorem trace_onExit (frame : Frame) (result : UInt32) :
    ∃ ended', Trace Schedule.Next (q.schedule ended) (q.onExitChanges frame result)
        ((q.onExit frame result).2.2.schedule ended') ∧
      (q.onExit frame result).2.2.HasCurrent ended' := by
  unfold onExitChanges onExit
  rcases ht : q.currentTaskId with _ | t
  · exact ⟨ended, rfl, hq⟩
  obtain ⟨hactive, hcurrent, hlt⟩ := currentTaskId_eq_some.1 ht
  obtain rfl := (hq hactive).1
  simp only
  generalize hq1 : ({ q.set t { q.tasks t with state := .exited, result, fsBase := q.fsBase } with
    cs := frame.cs, ss := frame.ss } : Runqueue) = q1
  have hexit : Trace Schedule.Next (q.schedule false) [.exited t result] (q1.scheduleAt none false) := by
    refine one.2 ⟨⟨ht, hlt⟩, ?_⟩
    rw [← hq1]
    rfl
  have hactive1 : q1.active := by rw [← hq1]; exact hactive
  rcases hchosen : q1.nextRunnable t with ⟨chosen, q2⟩
  obtain ⟨hschedule, hnext⟩ := scheduleAt_nextRunnable hchosen none false
  rw [← hschedule] at hexit
  cases chosen with
  | none =>
    have hhalted : Trace Schedule.Next (q2.scheduleAt none false) [.halted] (q2.stop.schedule true) := one.2 ⟨trivial, rfl⟩
    exact ⟨true, append.2 ⟨_, hexit, hhalted⟩, .of_inactive rfl⟩
  | some next =>
    exact ⟨false, (trace_dispatch hchosen (hnext.active.trans hactive1)).imp_left fun h => append.2 ⟨_, hexit, h⟩⟩

end

end Runqueue

end LimitlessOS.Sched
