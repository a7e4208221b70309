/-
  LimitlessOS.Sched.Completion — when the last task exits.

  An exit completes the run queue when the scan finds no task that is ready; a task that
  sleeps or waits is not looked for, and the timer does not wake it in a queue that is
  stopped.

  Proved:
  - `sound_next`, `sound_run`: in every run a task that lives can be scheduled.
  - `abandons_nobody_iff`: an exit completes the queue only when nobody is ready or blocked
    if and only if another task is ready or no other task is blocked.
  - `sleeper_abandoned`: a task sleeps, the other one exits, and the queue is complete.
-/
import LimitlessOS.Sched.Calls

namespace LimitlessOS.Sched

open Lib Signal Runqueue

/-- The tasks that live have a frame and are counted. -/
def Schedule.Sound (c : Schedule) : Prop := ∀ t, (c.tasks t).Alive → (c.tasks t).frameValid = true ∧ t.val < c.taskCount

theorem sound_next (c : Schedule) (e : Change) (c' : Schedule) (h : c.Sound) (hn : c.Next e c') : c'.Sound := by
  obtain ⟨hallowed, rfl⟩ := hn
  -- A change to one task that keeps the count.
  have hset : ∀ t task, (task.Alive → task.frameValid ∧ t.val < c.taskCount) → ∀ u, ((c.set t task).tasks u).Alive →
      ((c.set t task).tasks u).frameValid ∧ u.val < c.taskCount := by
    intro t task htask u halive
    rw [Schedule.set_tasks] at halive ⊢
    split_ifs at halive ⊢ with hut
    · rw [hut]
      exact htask halive
    · exact h u halive
  cases e with
  | made t pid frame fsBase =>
    intro u halive
    have hle := hallowed.1
    show _ ∧ u.val < if t.val = c.taskCount then c.taskCount + 1 else c.taskCount
    by_cases hut : u = t
    · subst hut
      refine ⟨by simp [Schedule.apply], ?_⟩
      split_ifs <;> omega
    have hsame : (c.apply (.made t pid frame fsBase)).tasks u = c.tasks u := by simp [Schedule.apply, hut]
    rw [hsame] at halive ⊢
    obtain ⟨hvalid, hlt⟩ := h u halive
    refine ⟨hvalid, ?_⟩
    split_ifs <;> omega
  | stopped t frame fsBase => exact hset t _ fun _ => ⟨rfl, hallowed.2.1⟩
  | resumed t =>
    apply hset
    intro halive
    apply h
    split_ifs at halive with hready
    · exact .inl hready
    · exact halive
  | blocked t | woken t result | replayed t => exact hset t _ fun _ => ⟨hallowed.2.1, hallowed.1⟩
  | fsSet t fsBase => exact hset t _ fun halive => h t halive
  | dispatched t frame fsBase => exact hset t _ fun _ => h t (.inl hallowed.2.2.2.1)
  | exited t result => exact hset t _ fun halive => absurd halive (by simp [Task.Alive])
  | halted => exact h
  | cleared =>
    intro u halive
    simp [Schedule.apply, Task.Alive, Task.clear] at halive

theorem sound_run (ops : List System.Op) (ended : Bool) : ((System.run ops).queue.schedule ended).Sound := by
  obtain ⟨ended', htrace, -⟩ := System.trace_run ops
  have hsound : ((System.run ops).queue.schedule ended').Sound := by
    apply Trace.invariant sound_next htrace
    intro t halive
    simp [System.boot, schedule, scheduleAt, reset, Task.Alive, Task.clear] at halive
  exact hsound

namespace Runqueue

variable {q : Runqueue} {t u : TaskId}

/-- The exit completes the queue, or stops it. -/
def Completes (q : Runqueue) (frame : Frame) (result : UInt32) : Prop :=
  (q.onExit frame result).1 = .complete ∨ q.active = true ∧ (q.onExit frame result).2.2.active = false

/-- The exit of the current task: another one runs, or none is ready. -/
theorem onExit_cases {ended : Bool} (hq : (q.schedule ended).Sound) (ht : q.currentTaskId = some t) (frame : Frame)
    (result : UInt32) :
    let r := q.onExit frame result
    (∃ u, u ≠ t ∧ (q.tasks u).state = .ready) ∧ r.1 = .resumed ∧ r.2.2.active ∨
      (∀ u, u ≠ t → (q.tasks u).state ≠ .ready) ∧ r.1 = .complete ∧ (r.2.2.tasks t).state = .exited ∧
        ∀ u, u ≠ t → r.2.2.tasks u = q.tasks u := by
  obtain ⟨hactive, -, hlt⟩ := currentTaskId_eq_some.1 ht
  unfold onExit
  simp only [ht]
  generalize hq1 : ({ q.set t { q.tasks t with state := .exited, result, fsBase := q.fsBase } with
    cs := frame.cs, ss := frame.ss } : Runqueue) = q1
  have hcount : q1.taskCount = q.taskCount := by rw [← hq1]; rfl
  have hactive1 : q1.active := by rw [← hq1]; exact hactive
  have hexited : (q1.tasks t).state = .exited := by rw [← hq1]; simp
  have hothers : ∀ u, u ≠ t → q1.tasks u = q.tasks u := by
    intro u hut
    rw [← hq1]
    simp [hut]
  have hactive2 := (q1.still_nextRunnable t).active
  have htasks := q1.nextRunnable_tasks t
  rcases hchosen : q1.nextRunnable t with ⟨chosen, q2⟩
  rw [hchosen] at hactive2 htasks
  cases chosen with
  | some next =>
    obtain ⟨hrun, -⟩ := nextRunnable_some (q := q1) (t := t) (u := next) (by rw [hchosen])
    have hne : next ≠ t := by
      rintro rfl
      rw [Task.Runnable, hexited] at hrun
      cases hrun.1
    refine .inl ⟨⟨next, hne, ?_⟩, rfl, hactive2.trans hactive1⟩
    rw [← hothers next hne]
    exact hrun.1
  | none =>
    refine .inr ⟨?_, rfl, ?_, ?_⟩
    · intro u hut hready
      obtain ⟨hvalid, hu⟩ := hq u (.inl hready)
      apply nextRunnable_none (q := q1) (t := t) (u := u) (by rw [hchosen]) (by omega) (by rw [hcount]; exact hu) hut
      rw [hothers u hut]
      exact ⟨hready, hvalid⟩
    · show (q2.tasks t).state = .exited
      rw [htasks, hexited]
    · intro u hut
      show q2.tasks u = q.tasks u
      rw [htasks, hothers u hut]

end Runqueue

/-- In every run an exit completes the queue only when no task is ready or blocked, if and only if another task is ready at
the exit or no other task is blocked. -/
theorem abandons_nobody_iff (ops : List System.Op) (frame : Frame) (result : UInt32) :
    ((System.run ops).queue.Completes frame result → ∀ t,
        (((System.run ops).queue.onExit frame result).2.2.tasks t).state ≠ .ready ∧
          (((System.run ops).queue.onExit frame result).2.2.tasks t).state ≠ .blocked) ↔
      ∀ t, (System.run ops).queue.currentTaskId = some t →
        (∃ u, u ≠ t ∧ ((System.run ops).queue.tasks u).state = .ready) ∨
          ∀ u, u ≠ t → ((System.run ops).queue.tasks u).state ≠ .blocked := by
  have hsound := sound_run ops false
  generalize (System.run ops).queue = q at *
  constructor
  · intro hprop t ht
    rcases onExit_cases hsound ht frame result with ⟨hready, -, -⟩ | ⟨-, hcomplete, -, hothers⟩
    · exact .inl hready
    · right
      intro u hut
      rw [← hothers u hut]
      exact (hprop (.inl hcomplete) u).2
  · intro hcondition hcompletes u
    cases ht : q.currentTaskId with
    | none =>
      simp only [Completes, onExit, ht] at hcompletes
      rcases hcompletes with h | ⟨hactive, hinactive⟩
      · cases h
      · simp [hactive] at hinactive
    | some t =>
      rcases onExit_cases hsound ht frame result with ⟨-, hresumed, hactive⟩ | ⟨hnobody, -, hexited, hothers⟩
      · rcases hcompletes with h | ⟨-, h⟩
        · simp [hresumed] at h
        · simp [hactive] at h
      by_cases hut : u = t
      · rw [hut, hexited]
        exact ⟨by simp, by simp⟩
      rw [hothers u hut]
      refine ⟨hnobody u hut, ?_⟩
      rcases hcondition t ht with ⟨v, hvt, hready⟩ | hblocked
      · exact absurd hready (hnobody v hvt)
      · exact hblocked u hut

/-- Two tasks are launched; the first sleeps for ten ticks. -/
def sleeperRun : List System.Op :=
  [.launch [System.program 1, System.program 2],
    .nanosleep ⟨true, some ⟨0, 100000000⟩, none, 100, 0⟩,
    .blockedSyscall System.userFrame]

/-- The second one exits, and the first is never woken. -/
theorem sleeper_abandoned :
    let q := (System.run sleeperRun).queue
    q.currentTaskId = some (System.taskIn 1) ∧ (q.onExit System.userFrame 0).1 = .complete ∧
      ((q.onExit System.userFrame 0).2.2.tasks (System.taskIn 0)).state = .blocked := by
  decide +kernel

end LimitlessOS.Sched
