/-
  LimitlessOS.Sched.HandOff — the task that runs after the running one has blocked.

  A task that is woken becomes the preferred one, for the next scan of the table only. A task
  that blocks in a call makes two scans: `block_task` looks whether another can run and
  forgets the preferred task, and `on_blocked_syscall` chooses the next one in turn.

  Proved:
  - `nextRunnable_iff`: what a scan without a preferred task finds.
  - `handOff_iff`: the woken task is dispatched if and only if it is the next in turn;
    `third_not_handed_off`: it is passed over for the second of three tasks.
-/
import LimitlessOS.Sched.Blocking

namespace LimitlessOS.Sched

open Function Lib Signal List

theorem findSome?_range {α : Type} {f : Nat → Option α} {x : α} (n : Nat) :
    (range n).findSome? f = some x ↔ ∃ d < n, f d = some x ∧ ∀ d' < d, f d' = none := by
  induction n with
  | zero => simp
  | succ n ih =>
    rw [range_succ, findSome?_append, Option.or_eq_some_iff, ih, findSome?_eq_none_iff]
    simp only [mem_range, findSome?_singleton]
    constructor
    · rintro (⟨d, hd, h⟩ | ⟨hnone, hn⟩)
      · exact ⟨d, by omega, h⟩
      · exact ⟨n, by omega, hn, hnone⟩
    · rintro ⟨d, hd, hx, hbefore⟩
      rcases Nat.lt_succ_iff_lt_or_eq.1 hd with hd | rfl
      · exact .inl ⟨d, hd, hx, hbefore⟩
      · exact .inr ⟨hbefore, hx⟩

namespace Runqueue

variable {q : Runqueue} {t u : TaskId}

/-- The first task after `t` that can run, in the order of the table and round it. -/
def NextInTurn (q : Runqueue) (t u : TaskId) : Prop :=
  ∃ d < q.taskCount - 1, ((t.val + (d + 1)) % q.taskCount = u.val ∧ (q.tasks u).Runnable) ∧
    ∀ d' < d, ∀ v : TaskId, (t.val + (d' + 1)) % q.taskCount = v.val → ¬ (q.tasks v).Runnable

theorem nextRunnable_iff (h : q.preferredTask = none) : (q.nextRunnable t).1 = some u ↔ q.NextInTurn t u := by
  unfold nextRunnable NextInTurn
  split_ifs with hcount
  · simp [hcount]
  simp only [h, Option.filter_none, findSome?_range]
  -- the step `d` of the scan finds `u`, and the steps before it find nobody
  exact exists_congr fun d => and_congr_right fun _ => and_congr (by grind) (forall₂_congr fun d' _ => by grind)

theorem NextInTurn.congr {q' : Runqueue} (hcount : q'.taskCount = q.taskCount)
    (h : ∀ v, (q'.tasks v).Runnable ↔ (q.tasks v).Runnable) : q'.NextInTurn t u ↔ q.NextInTurn t u := by
  simp only [NextInTurn, hcount, h]

/-- The task that is dispatched when the running task has blocked. -/
def HandsOff (q : Runqueue) (t : TaskId) (frame : Frame) (u : TaskId) : Prop :=
  ((q.blockTask t).2.onBlockedSyscall frame).1 = true ∧ ((q.blockTask t).2.onBlockedSyscall frame).2.2.currentTask = some u

instance (q : Runqueue) (t : TaskId) (frame : Frame) (u : TaskId) : Decidable (q.HandsOff t frame u) :=
  inferInstanceAs (Decidable (_ ∧ _))

section

variable (ht : q.currentTaskId = some t) (hrunning : (q.tasks t).state = .running) (hblocked : (q.blockTask t).1)
include ht hrunning hblocked

/-- The scan that allows the running task to block forgets the preferred task. -/
theorem blockTask_preferred : (q.tasks t).frameValid ∧
    (q.blockTask t).2 = { q.set t { q.tasks t with state := .blocked } with preferredTask := none } := by
  obtain ⟨hactive, hcurrent, hlt⟩ := currentTaskId_eq_some.1 ht
  obtain ⟨-, -, hvalid, -⟩ := (q.blockTask_cases t).resolve_left fun h => by simp [hblocked] at h
  unfold blockTask at hblocked ⊢
  simp only [hrunning, hactive, hcurrent, hvalid, not_le.2 hlt] at hblocked ⊢
  rcases hchosen : q.nextRunnable t with ⟨_ | next, q'⟩
  · simp [hchosen] at hblocked
  rw [nextRunnable, if_neg (by omega)] at hchosen
  split at hchosen <;> obtain ⟨-, rfl⟩ := Prod.mk.inj hchosen <;> simp <;> rfl

theorem handsOff_iff {frame : Frame} (hcs : frame.cs &&& 3 = 3) : q.HandsOff t frame u ↔ q.NextInTurn t u := by
  obtain ⟨hvalid, heq⟩ := blockTask_preferred ht hrunning hblocked
  rw [HandsOff, heq]
  generalize hq1 : ({ q.set t { q.tasks t with state := .blocked } with preferredTask := none } : Runqueue) = q1
  have ht1 : q1.currentTaskId = some t := by rw [← ht, ← hq1]; rfl
  have htask : q1.tasks t = { q.tasks t with state := .blocked } := by simp [← hq1]
  have hnext := nextRunnable_iff (q := q1.save t frame .blocked) (t := t) (u := u) (by rw [← hq1]; rfl)
  rw [NextInTurn.congr (q := q) (by rw [← hq1]; rfl)] at hnext
  · unfold onBlockedSyscall
    simp only [ht1]
    rw [if_neg (by simp [htask, hvalid, hcs]), ← hnext]
    rcases (q1.save t frame .blocked).nextRunnable t with ⟨_ | next, q2⟩
    · simp
    · simp [dispatch]
  · -- the task itself cannot run, neither before it blocks nor after
    intro v
    by_cases hv : v = t
    · simp [hv, save, Task.Runnable, hrunning]
    · simp [hv, save, ← hq1]

end

end Runqueue

namespace System

/-- Neither a wake nor a switch. -/
def Op.quiet : Op → Bool
  | .register .. | .setCurrentFsBase _ | .block _ | .nanosleep _ | .wait _ | .tick _ => true
  | _ => false

/-- A call of task `t` has woken `u`, and nothing but quiet calls came after it. -/
def WokenBy (ops : List Op) (t u : TaskId) : Prop :=
  ∃ before op after, ops = before ++ op :: after ∧ (∀ frame, op ≠ .timer frame) ∧ (run before).queue.currentTaskId = some t ∧
    ((run before).queue.tasks u).state = .blocked ∧ (((run before).step op).queue.tasks u).state = .ready ∧
    ∀ op ∈ after, op.quiet = true

theorem handOff_iff (ops : List Op) (t u : TaskId) (frame : Frame) (ht : (run ops).queue.currentTaskId = some t)
    (hrunning : ((run ops).queue.tasks t).state = .running) (hblocked : ((run ops).queue.blockTask t).1)
    (hcs : frame.cs &&& 3 = 3) :
    (WokenBy ops t u → (run ops).queue.HandsOff t frame u) ↔ (WokenBy ops t u → (run ops).queue.NextInTurn t u) :=
  imp_congr_right fun _ => Runqueue.handsOff_iff ht hrunning hblocked hcs

/-- Three tasks are launched; one of the others is blocked, and the first wakes it. -/
def wakeRun (u : Nat) : List Op := [.launch [program 1, program 2, program 3], .block (taskIn u), .wake (taskIn u) 0]

theorem wakeRun_woken {u : Nat} (hu : u = 1 ∨ u = 2) : WokenBy (wakeRun u) (taskIn 0) (taskIn u) := by
  refine ⟨(wakeRun u).take 2, .wake (taskIn u) 0, [], rfl, by simp, ?_⟩
  rcases hu with rfl | rfl <;> exact ⟨by decide +kernel, by decide +kernel, by decide +kernel, by simp⟩

theorem handOff_iff_second : (run (wakeRun 1)).queue.HandsOff (taskIn 0) userFrame (taskIn 1) :=
  (handOff_iff (wakeRun 1) (taskIn 0) (taskIn 1) userFrame (by decide +kernel) (by decide +kernel) (by decide +kernel)
    (by decide)).2 (fun _ => ⟨0, by decide +kernel, by decide +kernel, by simp⟩) (wakeRun_woken (.inl rfl))

theorem third_not_handed_off : WokenBy (wakeRun 2) (taskIn 0) (taskIn 2) ∧
    (run (wakeRun 2)).queue.currentTaskId = some (taskIn 0) ∧ ((run (wakeRun 2)).queue.blockTask (taskIn 0)).1 ∧
    (run (wakeRun 2)).queue.HandsOff (taskIn 0) userFrame (taskIn 1) ∧
    ¬ (run (wakeRun 2)).queue.HandsOff (taskIn 0) userFrame (taskIn 2) :=
  ⟨wakeRun_woken (.inr rfl), by decide +kernel⟩

end System

end LimitlessOS.Sched
