/-
  LimitlessOS.Sched.Blocking — when a call can put the running task to sleep.

  The running task may block only while another task is ready. A task that asks to sleep or
  to wait when all others are blocked gets an error, whatever their timeouts are: `nanosleep`
  answers EINTR, `FUTEX_WAIT` answers EINVAL. Both need a free slot as well, and a futex word
  takes one waiter.

  Proved:
  - `blockTask_current`, `sleepStart_cases`, `futexBlock_cases`: what the calls do for the
    running task.
  - `nanosleep_cases`, `futexWait_cases`: the same for the two system calls.
  - `blocking_iff`: in every run, when the two calls block, and when EINTR is the answer to
    a signal only.
  - `lone_sleeper_interrupted`: the last task that is not asleep cannot sleep.
-/
import LimitlessOS.Sched.Completion

namespace LimitlessOS.Sched

open Function Lib Signal Keyed Runqueue

namespace Runqueue

variable {q : Runqueue} {t : TaskId} {ended : Bool}

/-- Another task can run. -/
def OtherReady (q : Runqueue) (t : TaskId) : Prop := ∃ u, u ≠ t ∧ (q.tasks u).state = .ready

/-- The running task blocks if another one can run. -/
theorem blockTask_current (hq : (q.schedule ended).Sound) (ht : q.currentTaskId = some t)
    (hrunning : (q.tasks t).state = .running) :
    q.OtherReady t ∧ (q.blockTask t).1 ∧
        (q.blockTask t).2.tasks = update q.tasks t { q.tasks t with state := .blocked } ∨
      ¬ q.OtherReady t ∧ (q.blockTask t).1 = false ∧ (q.blockTask t).2.tasks = q.tasks := by
  obtain ⟨hactive, hcurrent, hlt⟩ := currentTaskId_eq_some.1 ht
  have hvalid : (q.tasks t).frameValid := (hq t (.inr (.inl hrunning))).1
  unfold blockTask
  rw [if_neg (by simp [hlt, hvalid, hrunning]), if_pos hrunning, if_neg (by simp [hactive, hcurrent])]
  have htasks := q.nextRunnable_tasks t
  rcases hchosen : q.nextRunnable t with ⟨chosen, q'⟩
  rw [hchosen] at htasks
  cases chosen with
  | some next =>
    obtain ⟨hrun, -⟩ := nextRunnable_some (q := q) (t := t) (u := next) (by rw [hchosen])
    have hne : next ≠ t := by
      rintro rfl
      rw [Task.Runnable, hrunning] at hrun
      cases hrun.1
    refine .inl ⟨⟨next, hne, hrun.1⟩, rfl, ?_⟩
    show update q'.tasks t _ = _
    rw [htasks]
  | none =>
    refine .inr ⟨?_, rfl, htasks⟩
    rintro ⟨u, hut, hready⟩
    obtain ⟨hu, hult⟩ := hq u (.inl hready)
    exact nextRunnable_none (q := q) (t := t) (u := u) (by rw [hchosen]) hlt hult hut ⟨hready, hu⟩

end Runqueue

namespace System

variable {s : System} {t : TaskId} {ended : Bool}

/-- The running task can be put to sleep: another one can run, and it gets an entry of its own. -/
def CanSleep (s : System) (t : TaskId) : Prop :=
  s.queue.OtherReady t ∧ (∃ i, s.sleepQueue i = none) ∧ s.sleepTaskPending t = false

section

variable (hq : (s.queue.schedule ended).Sound) (ht : s.queue.currentTaskId = some t)
  (hrunning : (s.queue.tasks t).state = .running) {ticks : Option UInt32}
include hq ht hrunning

theorem sleepStart_cases {ticks : UInt32} (hticks : ticks ≠ 0) (resumeRax : UInt64)
    (waiter : Option (Fin futexWaiterLimit)) :
    (s.CanSleep t ∧ ∃ i queue, s.sleepQueue i = none ∧
        queue.tasks = update s.queue.tasks t { s.queue.tasks t with state := .blocked } ∧
        s.sleepStartCurrentTask ticks resumeRax waiter =
          (true, { s with queue, sleepQueue := put s.sleepQueue i (s.sleepEntry t ticks resumeRax waiter) })) ∨
      (¬ s.CanSleep t ∧ ∃ queue, queue.tasks = s.queue.tasks ∧
        s.sleepStartCurrentTask ticks resumeRax waiter = (false, { s with queue })) := by
  obtain ⟨-, -, hlt⟩ := currentTaskId_eq_some.1 ht
  have hstate : s.queue.taskState t = .running := by rw [taskState, if_pos hlt, hrunning]
  unfold sleepStartCurrentTask
  rw [if_neg hticks, ht]
  cases hfree : free s.sleepQueue with
  | none =>
    refine .inr ⟨?_, s.queue, rfl, rfl⟩
    intro hcan
    obtain ⟨i, hi⟩ := hcan.2.1
    have hnot := Slots.first_none.1 hfree i
    simp [hi] at hnot
  | some i =>
    have hi := free_some hfree
    simp only
    by_cases hpending : s.sleepTaskPending t
    · rw [if_pos (.inr hpending)]
      refine .inr ⟨?_, s.queue, rfl, rfl⟩
      intro hcan
      simp [hcan.2.2] at hpending
    rw [if_neg (by simp [hstate, hpending])]
    have hblock := blockTask_current hq ht hrunning
    rcases hb : s.queue.blockTask t with ⟨ok, queue⟩
    rw [hb] at hblock
    rcases hblock with ⟨hother, hok, htasks⟩ | ⟨hother, hok, htasks⟩
    · obtain rfl : ok := hok
      exact .inl ⟨⟨hother, ⟨i, hi⟩, by simpa using hpending⟩, i, queue, hi, htasks, rfl⟩
    · obtain rfl : ok = false := hok
      exact .inr ⟨fun hcan => hother hcan.1, queue, htasks, rfl⟩

/-! ## nanosleep -/

/-- A request that can be read and is valid, for a number of ticks that is not 0. -/
def NanosleepCall.Asks (c : NanosleepCall) (ticks : UInt32) : Prop :=
  c.known = true ∧ (∃ request, c.request = some request ∧ request.isValid = true ∧
    request.toTicks (effectiveTickFrequency c.frequency) = some ticks) ∧ ticks ≠ 0

/-- The answer to a task that cannot sleep. -/
def NanosleepCall.refusal (c : NanosleepCall) : UInt64 := if c.remain = some false then errorReturn efault else errorReturn eintr

theorem nanosleep_cases {c : NanosleepCall} {ticks : UInt32} (hc : c.Asks ticks) :
    (s.CanSleep t ∧ ∃ i queue, s.sleepQueue i = none ∧
        queue.tasks = update s.queue.tasks t { s.queue.tasks t with state := .blocked } ∧
        s.nanosleep c =
          (0, none, { s with queue, sleepQueue := put s.sleepQueue i (s.sleepEntry t ticks 0 none) })) ∨
      (¬ s.CanSleep t ∧ (s.nanosleep c).1 = c.refusal ∧ (s.nanosleep c).2.2.queue.tasks = s.queue.tasks) := by
  obtain ⟨hknown, ⟨request, hrequest, hvalid, hto⟩, hticks⟩ := hc
  unfold nanosleep sleepForTicks NanosleepCall.refusal
  simp only [hknown, hrequest, hvalid, hto, hticks, ht, Bool.not_true, Bool.false_eq_true, if_false]
  rcases sleepStart_cases hq ht hrunning hticks 0 none with ⟨hcan, i, queue, hi, htasks, heq⟩ | ⟨hcannot, queue, htasks, heq⟩
  · simp only [heq]
    exact .inl ⟨hcan, i, queue, hi, htasks, rfl⟩
  simp only [heq]
  refine .inr ⟨hcannot, ?_⟩
  cases c.remain with
  | none => exact ⟨rfl, htasks⟩
  | some writable => cases writable <;> exact ⟨rfl, htasks⟩

/-! ## FUTEX_WAIT -/

/-- A wait for a word that has the expected value, with a timeout that is valid and not 0 if there is one. -/
def FutexCall.Waits (c : FutexCall) (ticks : Option UInt32) : Prop :=
  c.Accepted ∧ c.command = 0 ∧ c.word = some c.value.toUInt32 ∧ c.timeoutTicks = .ok ticks ∧ ticks ≠ some 0

/-- The running task can wait for the word. -/
def CanWait (s : System) (c : FutexCall) (t : TaskId) (ticks : Option UInt32) : Prop :=
  s.futexWaiterFor c.key c.userAddress = none ∧ (∃ i, s.waiters i = none) ∧ s.queue.OtherReady t ∧
    (ticks.isSome = true → s.CanSleep t)

/-- The waiter that is entered. -/
def FutexCall.waiter (c : FutexCall) (t : TaskId) (ticks : Option UInt32) : Waiter where
  pid := c.pid
  taskId := t
  timed := ticks.isSome
  expectedValue := c.value.toUInt32
  timeoutTicks := ticks.getD 0
  wakePending := false
  addressSpaceKey := c.key
  userAddress := c.userAddress

/-- A timed wait has an entry in the sleep queue, too. -/
def EntersSleep (s s' : System) (t : TaskId) (i : Fin futexWaiterLimit) : Option UInt32 → Prop
  | none => s'.sleepQueue = s.sleepQueue
  | some ticks => ∃ j, s.sleepQueue j = none ∧
    s'.sleepQueue = put s.sleepQueue j (s.sleepEntry t ticks (errorReturn etimedout) (some i))

theorem futexBlock_cases (c : FutexCall) (hticks : ticks ≠ some 0) (i : Fin futexWaiterLimit) :
    let r := s.futexBlock c t c.value.toUInt32 ticks i
    ((s.queue.OtherReady t ∧ (ticks.isSome → s.CanSleep t)) ∧ r.1 = 0 ∧
        r.2.queue.tasks = update s.queue.tasks t { s.queue.tasks t with state := .blocked } ∧
        r.2.waiters = put s.waiters i (c.waiter t ticks) ∧ s.EntersSleep r.2 t i ticks) ∨
      (¬ (s.queue.OtherReady t ∧ (ticks.isSome → s.CanSleep t)) ∧ r.1 = errorReturn einval ∧
        r.2.queue.tasks = s.queue.tasks) := by
  dsimp only
  unfold futexBlock
  cases ticks with
  | none =>
    have hblock := blockTask_current hq ht hrunning
    rcases hb : s.queue.blockTask t with ⟨ok, queue⟩
    rw [hb] at hblock
    rcases hblock with ⟨hother, hok, htasks⟩ | ⟨hother, hok, htasks⟩
    · obtain rfl : ok := hok
      exact .inl ⟨⟨hother, fun h => by cases h⟩, rfl, htasks, rfl, rfl⟩
    · obtain rfl : ok = false := hok
      exact .inr ⟨fun h => hother h.1, rfl, htasks⟩
  | some ticks =>
    have hne : ticks ≠ 0 := fun h => hticks (congrArg some h)
    generalize hwaiters : put s.waiters i _ = waiters
    -- The waiters are not looked at.
    have hsame : CanSleep { s with waiters } t ↔ s.CanSleep t := Iff.rfl
    rcases sleepStart_cases (s := { s with waiters }) hq ht hrunning hne (errorReturn etimedout) (some i) with
      ⟨hcan, j, queue, hj, htasks, heq⟩ | ⟨hcannot, queue, htasks, heq⟩
    · simp only [heq]
      exact .inl ⟨⟨(hsame.1 hcan).1, fun _ => hsame.1 hcan⟩, trivial, htasks, hwaiters.symm, j, hj, rfl⟩
    · simp only [heq]
      exact .inr ⟨fun h => hcannot (hsame.2 (h.2 rfl)), trivial, htasks⟩

/-- `FUTEX_WAIT` by the running task. -/
theorem futexWait_cases {c : FutexCall} (hc : c.Waits ticks) (hpid : s.queue.taskPid t = c.pid) :
    (s.CanWait c t ticks ∧ (s.futex c).1 = 0 ∧
        (s.futex c).2.queue.tasks = update s.queue.tasks t { s.queue.tasks t with state := .blocked } ∧
        ∃ i, s.waiters i = none ∧ (s.futex c).2.waiters = put s.waiters i (c.waiter t ticks) ∧
          s.EntersSleep (s.futex c).2 t i ticks) ∨
      (¬ s.CanWait c t ticks ∧ ((s.futex c).1 = errorReturn einval ∨ (s.futex c).1 = errorReturn enomem) ∧
        (s.futex c).2.queue.tasks = s.queue.tasks) := by
  obtain ⟨haccepted, hcommand, hword, htimeout, hticks⟩ := hc
  obtain ⟨-, -, hlt⟩ := currentTaskId_eq_some.1 ht
  have hstate : s.queue.taskState t = .running := by rw [taskState, if_pos hlt, hrunning]
  rw [futex_eq, if_pos haccepted, if_pos hcommand]
  unfold futexWait
  simp only [hword, htimeout, ne_eq, not_true_eq_false, if_false, hticks]
  split_ifs with hwaiter
  · refine .inr ⟨?_, .inl rfl, rfl⟩
    intro hcan
    simp [hcan.1] at hwaiter
  have hnone : s.futexWaiterFor c.key c.userAddress = none := by simpa using hwaiter
  rw [ht]
  simp only [hpid, hstate, not_true_eq_false, or_self, if_false]
  cases hfree : free s.waiters with
  | none =>
    refine .inr ⟨?_, .inr rfl, rfl⟩
    intro hcan
    obtain ⟨i, hi⟩ := hcan.2.1
    have hnot := Slots.first_none.1 hfree i
    simp [hi] at hnot
  | some i =>
    have hi := free_some hfree
    rcases futexBlock_cases hq ht hrunning c hticks i with ⟨hcan, hresult, htasks, hwaiters, henters⟩ | ⟨hcannot, hresult, htasks⟩
    · exact .inl ⟨⟨hnone, ⟨i, hi⟩, hcan⟩, hresult, htasks, i, hi, hwaiters, henters⟩
    · exact .inr ⟨fun hcan => hcannot hcan.2.2, .inl hresult, htasks⟩

end

/-! ## Blocking -/

/-- The call has put the task to sleep for a number of ticks. -/
def Slept (s' : System) (t : TaskId) (ticks : UInt32) : Prop :=
  (s'.queue.tasks t).state = .blocked ∧ ∃ i e, s'.sleepQueue i = some e ∧ e.taskId = t ∧ e.requestedTicks = ticks

/-- The task waits for the word. -/
def Waiting (s' : System) (t : TaskId) (key address : UInt64) : Prop :=
  (s'.queue.tasks t).state = .blocked ∧ ∃ i w, s'.waiters i = some w ∧ w.taskId = t ∧ w.on key address = true

/-- In every run: the running task sleeps if and only if it can, it gets EINTR only for a signal if and only if it can sleep,
the remaining time cannot be written or there is a signal, and it waits for a word if and only if it can. -/
theorem blocking_iff (ops : List Op) (t : TaskId) (ht : (run ops).queue.currentTaskId = some t)
    (hrunning : ((run ops).queue.tasks t).state = .running) (personas : Personas) :
    (∀ (c : NanosleepCall) (ticks : UInt32), c.Asks ticks →
        (((run ops).nanosleep c).1 = 0 ∧ Slept ((run ops).nanosleep c).2.2 t ticks ↔ (run ops).CanSleep t) ∧
        ((((run ops).nanosleep c).1 = errorReturn eintr →
            personas.unmaskedSignalPending ((run ops).queue.taskPid t) = true) ↔
          (run ops).CanSleep t ∨ c.remain = some false ∨
            personas.unmaskedSignalPending ((run ops).queue.taskPid t) = true)) ∧
      ∀ (c : FutexCall) (ticks : Option UInt32), c.Waits ticks → (run ops).queue.taskPid t = c.pid →
        (((run ops).futex c).1 = 0 ∧ Waiting ((run ops).futex c).2 t c.key c.userAddress ↔ (run ops).CanWait c t ticks) := by
  have hsound := sound_run ops false
  generalize run ops = s at *
  refine ⟨?_, ?_⟩
  · intro c ticks hc
    rcases nanosleep_cases hsound ht hrunning hc with ⟨hcan, i, queue, -, htasks, heq⟩ | ⟨hcannot, hresult, htasks⟩
    · have hslept : Slept (s.nanosleep c).2.2 t ticks := by
        rw [heq]
        refine ⟨?_, i, s.sleepEntry t ticks 0 none, ?_, rfl, rfl⟩
        · rw [htasks, update_self]
        · exact update_self ..
      refine ⟨⟨fun _ => hcan, fun _ => ⟨by rw [heq], hslept⟩⟩, ⟨fun _ => .inl hcan, fun _ h => ?_⟩⟩
      rw [heq] at h
      have hne : (0 : UInt64) ≠ errorReturn eintr := by decide
      exact absurd h hne
    · refine ⟨⟨fun h => ?_, fun hcan => absurd hcan hcannot⟩, ?_⟩
      · have hblocked := h.2.1
        simp [htasks, hrunning] at hblocked
      · rw [hresult, NanosleepCall.refusal]
        split_ifs with hremain
        · have hne : errorReturn efault ≠ errorReturn eintr := by decide
          simp [hremain, hne]
        · simp [hremain, hcannot]
  · intro c ticks hc hpid
    rcases futexWait_cases hsound ht hrunning hc hpid with ⟨hcan, hresult, htasks, i, -, hwaiters, -⟩ | ⟨hcannot, -, htasks⟩
    · refine ⟨fun _ => hcan, fun _ => ⟨hresult, ?_, i, c.waiter t ticks, ?_, rfl, ?_⟩⟩
      · rw [htasks, update_self]
      · rw [hwaiters]
        exact update_self ..
      · simp [Waiter.on, FutexCall.waiter]
    · refine ⟨fun h => ?_, fun hcan => absurd hcan hcannot⟩
      have hblocked := h.2.1
      simp [htasks, hrunning] at hblocked

/-- A sleep of ten ticks. -/
def shortSleep : NanosleepCall := ⟨true, some ⟨0, 100000000⟩, none, 100, 0⟩

theorem shortSleep_asks : shortSleep.Asks 10 := ⟨rfl, ⟨_, rfl, rfl, rfl⟩, by decide⟩

/-- A wait without a timeout for the word at 0x1000, by the process 2. -/
def plainWait : FutexCall := ⟨2, true, 0, 0x1000, 0, 7, some 7, none, 100⟩

theorem plainWait_waits : plainWait.Waits none := ⟨by decide, rfl, rfl, rfl, by decide⟩

/-- Nobody has a signal. -/
def noSignals : Personas := ⟨fun _ => 1, fun _ => none⟩

/-- Two tasks are launched and the first runs: it sleeps. -/
theorem blocking_iff_shortSleep :
    ((run [.launch [program 1, program 2]]).nanosleep shortSleep).1 = 0 ∧
      Slept ((run [.launch [program 1, program 2]]).nanosleep shortSleep).2.2 (taskIn 0) 10 :=
  ((blocking_iff [.launch [program 1, program 2]] (taskIn 0) (by decide +kernel) (by decide +kernel) noSignals).1 shortSleep 10
    shortSleep_asks).1.2
    ⟨⟨taskIn 1, by decide, by decide +kernel⟩, ⟨taskIn 0, rfl⟩, by decide +kernel⟩

/-- The first task sleeps with a timeout. The second one, which runs, can neither sleep nor wait, and it has no signal. -/
theorem lone_sleeper_interrupted :
    let s := run sleeperRun
    shortSleep.Asks 10 ∧ plainWait.Waits none ∧ s.queue.currentTaskId = some (taskIn 1) ∧
      (s.queue.tasks (taskIn 1)).state = .running ∧
      (s.queue.tasks (taskIn 0)).state = .blocked ∧ s.sleepTaskPending (taskIn 0) = true ∧
      (s.nanosleep shortSleep).1 = errorReturn eintr ∧ noSignals.unmaskedSignalPending (s.queue.taskPid (taskIn 1)) = false ∧
      (s.futex plainWait).1 = errorReturn einval ∧ s.queue.taskPid (taskIn 1) = plainWait.pid :=
  ⟨shortSleep_asks, plainWait_waits, by decide +kernel⟩

end System

end LimitlessOS.Sched
