/-
  LimitlessOS.Sched.Steps — what the run queue's functions do to the tasks.

  A task lives from its registration to its exit. `Same` says that the same tasks live and
  that those which are blocked while another one runs stay as they are; every switch does
  that, but for the tasks that a timer or a wakeup names.

  Proved:
  - `nextRunnable_some`, `nextRunnable_none`: what is chosen is ready, and the scan passes
    every other task.
  - `blockTask_cases`, `wakeTaskWithResult_cases`, `registerProcessFrame_cases`: what these
    calls change.
  - `same_onTimer`, `onBlockedSyscall_cases`, `ends_onExit`: a switch keeps the tasks that
    live and leaves the parked ones as they are.
-/
import LimitlessOS.Sched.Runqueue

namespace LimitlessOS.Sched

open Function Option List Nat Runqueue
open Bool hiding not_not not_or or_false

open Signal (Frame)

namespace Runqueue

/-! ## What the calls do -/

variable {q : Runqueue} {t u : TaskId} {frame : Frame}

@[simp] theorem set_tasks (task : Task) : (q.set t task).tasks u = if u = t then task else q.tasks u := by
  simp [set, update_apply]

@[simp] theorem set_taskCount (task : Task) : (q.set t task).taskCount = q.taskCount := rfl
@[simp] theorem set_currentTask (task : Task) : (q.set t task).currentTask = q.currentTask := rfl
@[simp] theorem set_active (task : Task) : (q.set t task).active = q.active := rfl
@[simp] theorem set_fsBase (task : Task) : (q.set t task).fsBase = q.fsBase := rfl

/-- Only the preferred task changes. -/
theorem nextRunnable_queue (q : Runqueue) (t : TaskId) :
    (q.nextRunnable t).2 = q ∨ (q.nextRunnable t).2 = { q with preferredTask := none } := by
  unfold nextRunnable
  split_ifs
  · exact .inl rfl
  · right
    split <;> rfl

@[simp] theorem nextRunnable_tasks (q : Runqueue) (t : TaskId) : (q.nextRunnable t).2.tasks = q.tasks := by
  rcases q.nextRunnable_queue t with h | h <;> rw [h]

/-- The same task has the processor, of as many. -/
structure Still (q q' : Runqueue) : Prop where
  active : q'.active = q.active
  currentTask : q'.currentTask = q.currentTask
  taskCount : q'.taskCount = q.taskCount
  fsBase : q'.fsBase = q.fsBase

namespace Still

variable {q' q'' : Runqueue}

theorem trans (h : q.Still q') (h' : q'.Still q'') : q.Still q'' :=
  ⟨h'.1.trans h.1, h'.2.trans h.2, h'.3.trans h.3, h'.4.trans h.4⟩

theorem currentTaskId (h : q.Still q') : q'.currentTaskId = q.currentTaskId := by
  rw [Runqueue.currentTaskId, h.active, h.currentTask, h.taskCount, Runqueue.currentTaskId]

end Still

theorem still_nextRunnable (q : Runqueue) (t : TaskId) : q.Still (q.nextRunnable t).2 := by
  rcases q.nextRunnable_queue t with h | h <;> rw [h] <;> exact ⟨rfl, rfl, rfl, rfl⟩

theorem nextRunnable_some (h : (q.nextRunnable t).1 = some u) : (q.tasks u).Runnable ∧ u.val < q.taskCount := by
  unfold nextRunnable at h
  split_ifs at h with hcount
  split at h
  case _ p hp =>
    obtain ⟨-, hcond⟩ := filter_eq_some_iff.1 hp
    obtain rfl := some.inj h
    simp only [and_eq_true, decide_eq_true_eq] at hcond
    exact ⟨hcond.2, hcond.1.1⟩
  case _ hp =>
    obtain ⟨offset, -, hoffset⟩ := exists_of_findSome?_eq_some h
    simp only at hoffset
    split_ifs at hoffset with hlt hrun
    obtain rfl := some.inj hoffset
    exact ⟨hrun, mod_lt _ (pos_of_ne_zero hcount)⟩

/-- The scan passes every other task. -/
theorem nextRunnable_none (h : (q.nextRunnable t).1 = none) (ht : t.val < q.taskCount) (hu : u.val < q.taskCount)
    (hne : u ≠ t) : ¬ (q.tasks u).Runnable := by
  have hval : u.val ≠ t.val := fun hval => hne (Fin.ext hval)
  unfold nextRunnable at h
  split_ifs at h with hcount
  · omega
  split at h
  case _ p hp => cases h
  case _ hp =>
    -- the distance from the current task, going up and round
    obtain ⟨offset, hlt, hround⟩ : ∃ offset < q.taskCount - 1, (t.val + (offset + 1)) % q.taskCount = u.val := by
      by_cases hup : t.val < u.val
      · refine ⟨u.val - t.val - 1, by omega, ?_⟩
        rw [show t.val + (u.val - t.val - 1 + 1) = u.val by omega, mod_eq_of_lt hu]
      · refine ⟨q.taskCount - t.val + u.val - 1, by omega, ?_⟩
        rw [show t.val + (q.taskCount - t.val + u.val - 1 + 1) = u.val + q.taskCount by omega, add_mod_right,
          mod_eq_of_lt hu]
    have hnone := findSome?_eq_none_iff.1 h offset (mem_range.2 hlt)
    simp only [hround, dif_pos u.isLt, Fin.eta] at hnone
    intro hrun
    simp [if_pos hrun] at hnone

/-- The task is blocked; if it is the running one, there is another to run. -/
theorem blockTask_cases (q : Runqueue) (t : TaskId) :
    ((q.blockTask t).1 = false ∧ (q.blockTask t).2.tasks = q.tasks) ∨
      ((q.blockTask t).1 ∧ t.val < q.taskCount ∧ (q.tasks t).frameValid ∧
        ((q.tasks t).state = .ready ∨
          (q.tasks t).state = .running ∧ ∃ u, (q.tasks u).Runnable ∧ u.val < q.taskCount) ∧
        (q.blockTask t).2.tasks = update q.tasks t { q.tasks t with state := .blocked }) := by
  unfold blockTask
  simp only
  split_ifs with hno hrun hcurrent
  · exact .inl ⟨rfl, rfl⟩
  · exact .inl ⟨rfl, rfl⟩
  · simp only [not_or, not_le, not_eq_true', not_eq_false] at hno
    rcases hnext : q.nextRunnable t with ⟨chosen, q'⟩
    have htasks : q'.tasks = q.tasks := by rw [← q.nextRunnable_tasks t, hnext]
    rcases chosen with _ | next
    · exact .inl ⟨rfl, htasks⟩
    refine .inr ⟨rfl, hno.1, hno.2.1, .inr ⟨hrun, next, nextRunnable_some (by rw [hnext])⟩, ?_⟩
    show update q'.tasks t _ = _
    rw [htasks]
  · simp only [not_or, not_le, not_eq_true', not_eq_false] at hno
    refine .inr ⟨rfl, hno.1, hno.2.1, .inl ?_, rfl⟩
    cases hstate : (q.tasks t).state with
    | ready => rfl
    | unused => exact absurd hstate hno.2.2.1
    | running => exact absurd hstate hrun
    | exited => exact absurd hstate hno.2.2.2.1
    | blocked => exact absurd hstate hno.2.2.2.2

theorem still_blockTask (q : Runqueue) (t : TaskId) : q.Still (q.blockTask t).2 := by
  unfold blockTask
  simp only
  split_ifs
  · exact ⟨rfl, rfl, rfl, rfl⟩
  · exact ⟨rfl, rfl, rfl, rfl⟩
  · have hstill := q.still_nextRunnable t
    rcases hnext : q.nextRunnable t with ⟨_ | next, q'⟩ <;> rw [hnext] at hstill
    · exact hstill
    · exact ⟨hstill.1, hstill.2, hstill.3, hstill.4⟩
  · exact ⟨rfl, rfl, rfl, rfl⟩

/-- A task that is blocked gets ready, with a result, and is the next one to run. -/
theorem wakeTaskWithResult_cases (q : Runqueue) (t : TaskId) (result : UInt64) :
    q.wakeTaskWithResult t result = (false, q) ∧
        (q.taskCount ≤ t.val ∨ (q.tasks t).frameValid = false ∨ (q.tasks t).state ≠ .blocked) ∨
      t.val < q.taskCount ∧ (q.tasks t).frameValid ∧ (q.tasks t).state = .blocked ∧
        q.wakeTaskWithResult t result =
          (true, { q.set t { q.tasks t with state := .ready, frame := { (q.tasks t).frame with rax := result } } with
            preferredTask := some t }) := by
  unfold wakeTaskWithResult
  simp only
  split_ifs with h
  · exact .inl ⟨rfl, by simpa using h⟩
  · simp only [not_or, not_le, not_eq_true', not_eq_false, ne_eq, not_not] at h
    exact .inr ⟨h.1, h.2.1, h.2.2, rfl⟩

theorem still_wakeTaskWithResult (q : Runqueue) (t : TaskId) (result : UInt64) : q.Still (q.wakeTaskWithResult t result).2 := by
  rcases q.wakeTaskWithResult_cases t result with ⟨heq, -⟩ | ⟨-, -, -, heq⟩ <;> rw [heq] <;> exact ⟨rfl, rfl, rfl, rfl⟩

theorem allocateTaskSlot_some (h : q.allocateTaskSlot = some t) : t.val ≤ q.taskCount ∧
    ((q.tasks t).Alive → t.val = q.taskCount) := by
  unfold allocateTaskSlot at h
  split at h
  case _ u hu =>
    obtain rfl := some.inj h
    have hfound := find?_some hu
    simp only [and_eq_true, decide_eq_true_eq, or_eq_true] at hfound
    refine ⟨le_of_lt hfound.1, ?_⟩
    intro halive
    rcases halive with hs | hs | hs <;> simp [hs] at hfound
  case _ =>
    split_ifs at h
    obtain rfl := some.inj h
    exact ⟨le_refl _, fun _ => rfl⟩

/-- A failed registration changes nothing; a new task is ready, in a slot that no live task has. -/
theorem registerProcessFrame_cases (q : Runqueue) (pid runtimeToken entryToken : UInt32) (frame : Frame) :
    q.registerProcessFrame pid runtimeToken entryToken frame = (none, q) ∨
      ∃ t q', q.registerProcessFrame pid runtimeToken entryToken frame = (some t, q') ∧
        t.val ≤ q.taskCount ∧ ((q.tasks t).Alive → t.val = q.taskCount) ∧
        frame.cs &&& 3 = 3 ∧
        q'.tasks = update q.tasks t { Task.clear with state := .ready, frameValid := true, pid, frame } ∧
        q'.taskCount = (if t.val = q.taskCount then q.taskCount + 1 else q.taskCount) ∧
        q'.active = q.active ∧ q'.currentTask = q.currentTask := by
  unfold registerProcessFrame
  rcases hslot : q.allocateTaskSlot with _ | t
  · exact .inl rfl
  by_cases hbad : pid = 0 ∨ runtimeToken = 0 ∨ entryToken = 0 ∨ frame.rip = 0 ∨ frame.rsp = 0 ∨ frame.cs &&& 3 ≠ 3 ∨
      frame.ss &&& 3 ≠ 3
  · exact .inl (if_pos hbad)
  · obtain ⟨hle, hfree⟩ := allocateTaskSlot_some hslot
    refine .inr ⟨t, _, if_neg hbad, hle, hfree, ?_, rfl, rfl, rfl, rfl⟩
    by_contra hcs
    exact hbad (by simp [hcs])

/-! ## The tasks that live, and those that wait -/

/-- The task is blocked and another one runs. -/
def Parked (q : Runqueue) (t : TaskId) : Prop := (q.tasks t).state = .blocked ∧ q.currentTask ≠ some t

/-- A queue that runs has a current task that lives. -/
def Running (q : Runqueue) : Prop := q.active = true → ∃ t, q.currentTask = some t ∧ (q.tasks t).Alive

/-- The same tasks live. Parked tasks stay so, as they are, but for those that may have been woken. -/
structure Same (woken : TaskId → Prop) (q q' : Runqueue) : Prop where
  taskCount : q'.taskCount = q.taskCount
  pid : ∀ t, (q'.tasks t).pid = (q.tasks t).pid
  alive : ∀ t, (q'.tasks t).Alive ↔ (q.tasks t).Alive
  valid : ∀ t, (q.tasks t).frameValid = true → (q'.tasks t).frameValid = true
  running : q.Running → q'.Running
  parked : ∀ t, ¬ woken t → q.Parked t → q'.Parked t ∧ q'.tasks t = q.tasks t

namespace Same

variable {woken woken' : TaskId → Prop} {q' q'' : Runqueue}

theorem refl (woken : TaskId → Prop) (q : Runqueue) : Same woken q q :=
  ⟨rfl, fun _ => rfl, fun _ => Iff.rfl, fun _ h => h, fun h => h, fun _ _ h => ⟨h, rfl⟩⟩

theorem trans (h : Same woken q q') (h' : Same woken q' q'') : Same woken q q'' where
  taskCount := h'.taskCount.trans h.taskCount
  pid t := (h'.pid t).trans (h.pid t)
  alive t := (h'.alive t).trans (h.alive t)
  valid t hv := h'.valid t (h.valid t hv)
  running hr := h'.running (h.running hr)
  parked := by
    intro t hw hp
    obtain ⟨hp', heq⟩ := h.parked t hw hp
    obtain ⟨hp'', heq'⟩ := h'.parked t hw hp'
    exact ⟨hp'', heq'.trans heq⟩

theorem mono (h : Same woken q q') (hw : ∀ t, woken t → woken' t) : Same woken' q q' :=
  { h with parked := fun t hn hp => h.parked t (fun ht => hn (hw t ht)) hp }

theorem of_eq (htasks : q'.tasks = q.tasks) (h : q.Still q') : Same woken q q' where
  taskCount := h.taskCount
  pid t := by rw [htasks]
  alive t := by rw [htasks]
  valid t hv := by rw [htasks, hv]
  running := by
    unfold Running
    rw [h.active, h.currentTask, htasks]
    exact fun h => h
  parked := by
    unfold Parked
    rw [h.currentTask, htasks]
    exact fun t _ h => ⟨h, rfl⟩

section

variable {task : Task} (htasks : q'.tasks = update q.tasks t task) (hcount : q'.taskCount = q.taskCount)
  (hpid : task.pid = (q.tasks t).pid) (halive : task.Alive ↔ (q.tasks t).Alive)
  (hvalid : (q.tasks t).frameValid → task.frameValid) (hparked : q.Parked t → woken t)
include htasks hcount hpid halive hvalid hparked

/-- One task is written, as one that lives just as before. -/
theorem of_written
    (hrunning : q.Running → q'.active → ∃ u, q'.currentTask = some u ∧ (q.tasks u).Alive)
    (hcurrent : ∀ u, u ≠ t → q.Parked u → q'.currentTask ≠ some u) : Same woken q q' := by
  have hlive : ∀ u, (q'.tasks u).Alive ↔ (q.tasks u).Alive := by
    rw [htasks]
    exact (forall_update_iff q.tasks fun u x => x.Alive ↔ (q.tasks u).Alive).2 ⟨halive, fun _ _ => Iff.rfl⟩
  refine ⟨hcount, ?_, hlive, ?_, ?_, ?_⟩
  · rw [htasks]
    exact (forall_update_iff q.tasks fun u x => x.pid = (q.tasks u).pid).2 ⟨hpid, fun _ _ => rfl⟩
  · rw [htasks]
    exact (forall_update_iff q.tasks fun u x => (q.tasks u).frameValid → x.frameValid).2 ⟨hvalid, fun _ _ h => h⟩
  · intro hr ha
    obtain ⟨u, hu, ha⟩ := hrunning hr ha
    exact ⟨u, hu, (hlive u).2 ha⟩
  · intro u hw hp
    have hu : u ≠ t := fun hu => hw (hu ▸ hparked (hu ▸ hp))
    have heq : q'.tasks u = q.tasks u := by rw [htasks, update_of_ne hu]
    exact ⟨⟨by rw [heq, hp.1], hcurrent u hu hp⟩, heq⟩

/-- The current task does not change. -/
theorem of_update (hactive : q'.active = q.active) (hcurrent : q'.currentTask = q.currentTask) : Same woken q q' := by
  apply of_written htasks hcount hpid halive hvalid hparked <;> rw [hcurrent]
  · exact fun hr ha => hr (hactive ▸ ha)
  · exact fun u _ hp => hp.2

end

end Same

theorem same_blockTask (q : Runqueue) (t : TaskId) : Same (fun _ => False) q (q.blockTask t).2 := by
  have hstill := q.still_blockTask t
  rcases q.blockTask_cases t with ⟨-, htasks⟩ | ⟨-, -, -, hstate, htasks⟩
  · exact .of_eq htasks hstill
  have hnot : (q.tasks t).state ≠ .blocked := by
    rcases hstate with h | h
    · simp [h]
    · simp [h.1]
  refine .of_update htasks hstill.taskCount rfl ?_ (fun h => h) (fun hp => hnot hp.1) hstill.active hstill.currentTask
  rcases hstate with h | h
  · simp [Task.Alive, h]
  · simp [Task.Alive, h.1]

theorem same_wakeTaskWithResult (q : Runqueue) (t : TaskId) (result : UInt64) :
    Same (· = t) q (q.wakeTaskWithResult t result).2 := by
  rcases q.wakeTaskWithResult_cases t result with ⟨heq, -⟩ | ⟨-, hvalid, hstate, heq⟩
  · rw [heq]
    exact .refl _ q
  · rw [heq]
    refine .of_update rfl rfl rfl ?_ (fun _ => hvalid) (fun _ => rfl) rfl rfl
    simp [Task.Alive, hstate]

/-- The scan leaves the tasks as they are, and the task it finds is ready. -/
theorem same_nextRunnable {q' : Runqueue} {chosen : Option TaskId} (h : q.nextRunnable t = (chosen, q')) :
    Same (fun _ => False) q q' ∧ q'.tasks = q.tasks ∧ ∀ u, chosen = some u → (q'.tasks u).Runnable := by
  obtain rfl : (q.nextRunnable t).2 = q' := by rw [h]
  have htasks := q.nextRunnable_tasks t
  refine ⟨.of_eq htasks (q.still_nextRunnable t), htasks, ?_⟩
  rintro u rfl
  rw [htasks]
  exact (nextRunnable_some (by rw [h])).1

/-- A ready task is made the current one; it was not parked. -/
theorem same_dispatch (h : (q.tasks u).Runnable) : Same (fun _ => False) q (q.dispatch u).2 := by
  refine .of_written rfl rfl rfl ?_ (fun hv => hv) (fun hp => ?_) (fun _ _ => ⟨u, rfl, .inl h.1⟩) fun v hv _ hc => ?_
  · simp [Task.Alive, h.1]
  · simp [Parked, h.1] at hp
  · exact hv (some.inj hc).symm

theorem currentTaskId_eq_some : q.currentTaskId = some t ↔
    q.active ∧ q.currentTask = some t ∧ t.val < q.taskCount := by
  unfold currentTaskId
  split_ifs with hactive
  · simp [hactive]
  · simp [hactive]

theorem Parked.ne_current (h : q.Parked u) (ht : q.currentTaskId = some t) : u ≠ t := by
  rintro rfl
  exact h.2 (currentTaskId_eq_some.1 ht).2.1

/-- The current task is saved. -/
theorem same_save (hcurrent : q.currentTask = some t) {state : TaskState}
    (hstate : Task.Alive { q.tasks t with state } ↔ (q.tasks t).Alive) : Same (fun _ => False) q (q.save t frame state) :=
  .of_update rfl rfl rfl hstate (fun _ => rfl) (fun hp => hp.2 hcurrent) rfl rfl

section

variable (q)

theorem same_wakeExpired (expired : List (TaskId × UInt64)) :
    Same (fun t => ∃ e ∈ expired, e.1 = t) q (q.wakeExpired expired) := by
  induction expired generalizing q with
  | nil => exact .refl _ q
  | cons e rest ih =>
    have hfirst : Same (fun t => ∃ x ∈ e :: rest, x.1 = t) q (q.wakeTaskWithResult e.1 e.2).2 :=
      (q.same_wakeTaskWithResult e.1 e.2).mono fun t ht => ⟨e, mem_cons_self, ht.symm⟩
    apply hfirst.trans
    apply (ih _).mono
    rintro t ⟨x, hx, hxt⟩
    exact ⟨x, mem_cons_of_mem e hx, hxt⟩

theorem still_wakeExpired (expired : List (TaskId × UInt64)) : q.Still (q.wakeExpired expired) := by
  induction expired generalizing q with
  | nil => exact ⟨rfl, rfl, rfl, rfl⟩
  | cons e rest ih => exact (q.still_wakeTaskWithResult e.1 e.2).trans (ih _)

theorem same_onTimer (frame : Frame) (expired : List (TaskId × UInt64)) :
    Same (fun t => ∃ e ∈ expired, e.1 = t) q (q.onTimer frame expired).2.2 := by
  have hnone : ∀ {a b : Runqueue}, Same (fun _ => False) a b → Same (fun t => ∃ e ∈ expired, e.1 = t) a b := by
    intro a b h
    exact h.mono fun _ hf => hf.elim
  unfold onTimer
  rcases ht : q.currentTaskId with _ | t
  · exact .refl _ q
  obtain ⟨-, hcurrent, -⟩ := currentTaskId_eq_some.1 ht
  simp only
  by_cases hcs : frame.cs &&& 3 ≠ 3
  · rw [if_pos hcs]
    exact .refl _ q
  rw [if_neg hcs]
  generalize hstate : (if (q.tasks t).state = .running then TaskState.ready else (q.tasks t).state) = state
  have hsaved : Same (fun t => ∃ e ∈ expired, e.1 = t) q ((q.save t frame state).wakeExpired expired) := by
    refine (hnone (same_save hcurrent ?_)).trans (same_wakeExpired _ expired)
    rw [← hstate]
    split_ifs with hrun
    · simp [Task.Alive, hrun]
    · rfl
  have hcurrent' : ((q.save t frame state).wakeExpired expired).currentTask = some t := by
    rwa [(still_wakeExpired _ expired).currentTask]
  generalize (q.save t frame state).wakeExpired expired = q1 at hsaved hcurrent'
  rcases hchosen : q1.nextRunnable t with ⟨chosen, q2⟩
  obtain ⟨hnext, -, hrun⟩ := same_nextRunnable hchosen
  cases chosen with
  | none =>
    refine hsaved.trans ((hnone hnext).trans ?_)
    show Same _ q2 (if (q2.tasks t).state = .ready then q2.set t { q2.tasks t with state := .running } else q2)
    split_ifs with hready
    · refine .of_update rfl rfl rfl ?_ (fun h => h) (fun hp => absurd ?_ hp.2) rfl rfl
      · simp [Task.Alive, hready]
      · rw [← hcurrent', ← (q1.still_nextRunnable t).currentTask, hchosen]
    · exact .refl _ q2
  | some next => exact hsaved.trans ((hnone hnext).trans (hnone (same_dispatch (hrun next rfl))))

/-- A blocked current task is parked with its frame, if there is another one to run. -/
theorem onBlockedSyscall_cases (frame : Frame) :
    Same (fun _ => False) q (q.onBlockedSyscall frame).2.2 ∧
      ∀ t, q.currentTaskId = some t → (q.tasks t).frameValid → (q.tasks t).state = .blocked → frame.cs &&& 3 = 3 →
        (∃ u, (q.tasks u).Runnable ∧ u.val < q.taskCount) →
        (q.onBlockedSyscall frame).1 ∧ (q.onBlockedSyscall frame).2.2.Parked t ∧
          ((q.onBlockedSyscall frame).2.2.tasks t).frame = frame := by
  unfold onBlockedSyscall
  rcases ht : q.currentTaskId with _ | t
  · exact ⟨.refl _ q, by simp⟩
  obtain ⟨-, hcurrent, hlt⟩ := currentTaskId_eq_some.1 ht
  simp only
  split_ifs with hno
  · refine ⟨.refl _ q, ?_⟩
    intro u hu hvalid hblocked hcs
    obtain rfl := some.inj hu
    simp [hvalid, hblocked, hcs] at hno
  simp only [not_or, not_eq_true', not_eq_false, ne_eq, not_not] at hno
  have hsaved : Same (fun _ => False) q (q.save t frame .blocked) := by
    apply same_save hcurrent
    simp [Task.Alive, hno.2.1]
  have hat : (q.save t frame .blocked).tasks t =
      { q.tasks t with state := .blocked, frame, frameValid := true, fsBase := q.fsBase } := update_self ..
  have hother : ∀ u, u ≠ t → (q.save t frame .blocked).tasks u = q.tasks u := by
    intro u hu
    exact update_of_ne hu _ _
  have hcount : (q.save t frame .blocked).taskCount = q.taskCount := rfl
  generalize q.save t frame .blocked = q1 at hsaved hat hother hcount
  rcases hchosen : q1.nextRunnable t with ⟨chosen, q2⟩
  obtain ⟨hnext, htasks, hrun⟩ := same_nextRunnable hchosen
  cases chosen with
  | none =>
    refine ⟨hsaved.trans hnext, ?_⟩
    rintro u hu _ _ _ ⟨v, hv, hvlt⟩
    -- the current task is blocked, so the runnable one is another, and the scan finds it
    have hvt : v ≠ t := by
      intro hvt
      rw [hvt, Task.Runnable, hno.2.1] at hv
      cases hv.1
    rw [← hother v hvt] at hv
    exact absurd hv (nextRunnable_none (by rw [hchosen]) (by rwa [hcount]) (by rwa [hcount]) hvt)
  | some next =>
    have hne : t ≠ next := by
      intro hne
      simpa [← hne, htasks, hat] using (hrun next rfl).1
    refine ⟨hsaved.trans (hnext.trans (same_dispatch (hrun next rfl))), ?_⟩
    intro u hu _ _ _ _
    obtain rfl := some.inj hu
    have hkept : (q2.dispatch next).2.tasks t = q1.tasks t := by
      rw [← htasks]
      exact update_of_ne hne _ _
    refine ⟨rfl, ⟨?_, ?_⟩, ?_⟩
    · rw [hkept, hat]
    · intro hnow
      exact hne (some.inj hnow).symm
    · rw [hkept, hat]

theorem same_stop : Same (fun _ => False) q q.stop where
  taskCount := rfl
  pid _ := rfl
  alive _ := Iff.rfl
  valid _ h := h
  running _ hactive := by cases hactive
  parked _ _ hp := ⟨⟨hp.1, by simp [stop]⟩, rfl⟩

end

/-- The current task has ended. -/
structure Ends (q : Runqueue) (t : TaskId) (q' : Runqueue) : Prop where
  taskCount : q'.taskCount = q.taskCount
  pid : ∀ u, (q'.tasks u).pid = (q.tasks u).pid
  alive : ∀ u, (q'.tasks u).Alive ↔ (q.tasks u).Alive ∧ u ≠ t
  valid : ∀ u, (q.tasks u).frameValid = true → (q'.tasks u).frameValid = true
  running : q'.Running
  parked : ∀ u, u ≠ t → q.Parked u → q'.Parked u ∧ q'.tasks u = q.tasks u
  /-- A ready task is, or runs with its frame. -/
  ready : ∀ u, u ≠ t → (q.tasks u).state = .ready →
    ((q'.tasks u).state = .ready ∨ (q'.tasks u).state = .running) ∧ (q'.tasks u).frame = (q.tasks u).frame

theorem ends_onExit (ht : q.currentTaskId = some t) (frame : Frame) (result : UInt32) :
    Ends q t (q.onExit frame result).2.2 := by
  obtain ⟨-, hcurrent, -⟩ := currentTaskId_eq_some.1 ht
  unfold onExit
  rw [ht]
  simp only
  generalize hq1 : ({ q.set t { q.tasks t with state := .exited, result, fsBase := q.fsBase } with
    cs := frame.cs, ss := frame.ss } : Runqueue) = q1
  have htasks1 : q1.tasks = update q.tasks t { q.tasks t with state := .exited, result, fsBase := q.fsBase } := by rw [← hq1]; rfl
  have hother : ∀ u, u ≠ t → q1.tasks u = q.tasks u := fun u hu => by rw [htasks1, update_of_ne hu]
  have hcount : q1.taskCount = q.taskCount := by rw [← hq1]; rfl
  have hstill : q1.currentTask = some t := by rw [← hq1]; exact hcurrent
  -- the queue in which the task has ended, and another one that has the same tasks
  have hends : ∀ q', Same (fun _ => False) q1 q' → q'.Running →
      (∀ u, (q1.tasks u).state = .ready →
        ((q'.tasks u).state = .ready ∨ (q'.tasks u).state = .running) ∧ (q'.tasks u).frame = (q1.tasks u).frame) →
      Ends q t q' := by
    intro q' hs hrunning hready
    refine ⟨hs.taskCount.trans hcount, ?_, ?_, ?_, hrunning, ?_, ?_⟩
    · simp only [hs.pid, htasks1]
      exact (forall_update_iff q.tasks fun u x => x.pid = (q.tasks u).pid).2 ⟨rfl, fun _ _ => rfl⟩
    · simp only [hs.alive, htasks1]
      refine (forall_update_iff q.tasks fun u x => x.Alive ↔ (q.tasks u).Alive ∧ u ≠ t).2 ⟨by simp [Task.Alive], fun u hu => ?_⟩
      simp [hu]
    · refine fun u hv => hs.valid u ?_
      revert u
      rw [htasks1]
      exact (forall_update_iff q.tasks fun u x => (q.tasks u).frameValid → x.frameValid).2 ⟨fun h => h, fun _ _ h => h⟩
    · intro u hu hp
      have hp1 : q1.Parked u := ⟨by rw [hother u hu, hp.1], by rw [hstill, ← hcurrent]; exact hp.2⟩
      obtain ⟨hp', heq⟩ := hs.parked u (fun hf => hf) hp1
      exact ⟨hp', heq.trans (hother u hu)⟩
    · intro u hu hr
      rw [← hother u hu] at hr ⊢
      exact hready u hr
  rcases hchosen : q1.nextRunnable t with ⟨chosen, q2⟩
  obtain ⟨hnext, htasks, hrun⟩ := same_nextRunnable hchosen
  cases chosen with
  | none =>
    -- no task is left to run, and none is current
    refine hends _ (hnext.trans q2.same_stop) ?_ ?_
    · intro hactive
      cases hactive
    · intro u hr
      rw [← htasks] at hr ⊢
      exact ⟨.inl hr, rfl⟩
  | some next =>
    have hd := same_dispatch (hrun next rfl)
    refine hends _ (hnext.trans hd) (fun _ => ⟨next, rfl, (hd.alive next).2 (.inl (hrun next rfl).1)⟩) ?_
    rw [← htasks]
    refine (forall_update_iff q2.tasks fun u x => (q2.tasks u).state = .ready →
      (x.state = .ready ∨ x.state = .running) ∧ x.frame = (q2.tasks u).frame).2 ⟨fun _ => ⟨.inr rfl, rfl⟩, ?_⟩
    exact fun u _ hr => ⟨.inl hr, rfl⟩

/-- The first task of a queue is started: it is the only one. -/
theorem start_first {pid runtimeToken entryToken : UInt32}
    (hq : reset.registerProcessFrame pid runtimeToken entryToken frame = (some t, q)) :
    (q.start t).2.active ∧ (q.start t).2.currentTask = some t ∧ t.val < (q.start t).2.taskCount ∧
      (q.start t).2.tasks t = { Task.clear with state := .running, frameValid := true, pid, frame } ∧
      ∀ u, u ≠ t → (q.start t).2.tasks u = Task.clear := by
  obtain ⟨hcount, htasks⟩ : t.val < q.taskCount ∧ q.tasks = update (fun _ => Task.clear) t { Task.clear with
      state := .ready, frameValid := true, pid, frame } := by
    rcases reset.registerProcessFrame_cases pid runtimeToken entryToken frame with
      hnone | ⟨t', q', hsome, hle, -, -, htasks, hcount, -⟩
    · simp [hnone] at hq
    rw [hsome] at hq
    obtain ⟨ht, rfl⟩ := Prod.mk.inj hq
    obtain rfl := some.inj ht
    refine ⟨?_, htasks⟩
    rw [hcount]
    split_ifs
    · omega
    · omega
  have hstart : q.start t = (true, { (q.dispatch t).2 with active := true }) := by
    unfold start
    rw [if_neg]
    rw [htasks, update_self]
    simp only [ne_eq, not_true_eq_false, or_false]
    omega
  rw [hstart]
  refine ⟨rfl, rfl, hcount, ?_, ?_⟩
  · show update q.tasks t { q.tasks t with state := .running } t = _
    rw [update_self, htasks, update_self]
  · intro u hne
    show update q.tasks t _ u = _
    rw [update_of_ne hne, htasks, update_of_ne hne]

end Runqueue

end LimitlessOS.Sched
