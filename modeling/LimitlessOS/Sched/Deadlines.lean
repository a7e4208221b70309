/-
  LimitlessOS.Sched.Deadlines — tasks that the timer wakes.

  An alarm is a task that goes to sleep for a request, or one that the timer makes ready;
  both come with the time. `lastSleep` reads off the alarms of a run what a task sleeps for.

  Proved:
  - `recorded_step`: every call keeps it that an entry of the sleep queue is the last sleep of
    its task, and its tick is that of the request.
  - `on_time_iff`: a task that the timer wakes has slept for the ticks of its request, which
    cover the duration, if and only if these ticks are at most 2^31 more than have passed;
    so a run in which no request takes more than 2^31 ticks wakes nobody early.
  - `long_sleeper_woken`: a sleep of 2^31 + 52 ticks ends after one.
-/
import LimitlessOS.Sched.Blocking

namespace LimitlessOS.Sched

open Function Lib Signal List Runqueue

/-- A task goes to sleep. -/
structure Sleep where
  start : Nat
  request : Request
  frequency : UInt32
  deriving DecidableEq

inductive Alarm where
  | slept (t : TaskId) (sleep : Sleep)
  /-- The timer makes the task ready. -/
  | rang (t : TaskId) (now : Nat)
  deriving DecidableEq

def Alarm.note (m : TaskId → Option Sleep) : Alarm → TaskId → Option Sleep
  | slept t sleep => update m t (some sleep)
  | rang _ _ => m

/-- What the tasks sleep for. -/
def lastSleep (past : List Alarm) : TaskId → Option Sleep := past.foldl Alarm.note fun _ => none

/-- The task has slept for the ticks of its request, which cover the duration, exactly when they are at most 2^31 more than have
passed since it went to sleep. -/
def OnTime (past : List Alarm) : Alarm → Prop
  | .slept _ _ => True
  | .rang t now =>
    ∃ sleep ticks, lastSleep past t = some sleep ∧ sleep.request.ticks sleep.frequency = some ticks ∧
      sleep.request.nanoseconds * (effectiveTickFrequency sleep.frequency).toNat ≤ ticks.toNat * 10 ^ 9 ∧
      sleep.start ≤ now ∧ (sleep.start + ticks.toNat ≤ now ↔ ticks.toNat ≤ now - sleep.start + 2 ^ 31)

/-- The task has slept for the ticks of its request, and they cover the duration. -/
def Punctual (past : List Alarm) : Alarm → Prop
  | .slept _ _ => True
  | .rang t now =>
    ∃ sleep ticks, lastSleep past t = some sleep ∧ sleep.request.ticks sleep.frequency = some ticks ∧
      sleep.request.nanoseconds * (effectiveTickFrequency sleep.frequency).toNat ≤ ticks.toNat * 10 ^ 9 ∧
      sleep.start + ticks.toNat ≤ now

/-- The request takes at most 2^31 ticks. -/
def Sleep.Short (sleep : Sleep) : Prop :=
  sleep.request.nanoseconds * (effectiveTickFrequency sleep.frequency).toNat ≤ 2 ^ 31 * 10 ^ 9

theorem slept_mem_of_lastSleep {past : List Alarm} {t : TaskId} {sleep : Sleep} (h : lastSleep past t = some sleep) :
    .slept t sleep ∈ past := by
  induction past using reverseRecOn with
  | nil => cases h
  | append_singleton past e ih =>
    have happend : lastSleep (past ++ [e]) = e.note (lastSleep past) := by simp [lastSleep]
    rw [happend] at h
    cases e with
    | rang u now => exact mem_append_left _ (ih h)
    | slept u other =>
      by_cases htu : t = u
      · subst htu
        rw [Alarm.note, update_self] at h
        rw [Option.some.inj h]
        exact mem_append_right _ (mem_singleton.2 rfl)
      · rw [Alarm.note, update_of_ne htu] at h
        exact mem_append_left _ (ih h)

/-- Short sleeps are not cut. -/
theorem punctual_of_short {es : List Alarm} (h : Throughout OnTime [] es)
    (hshort : ∀ t sleep, .slept t sleep ∈ es → sleep.Short) :
    Throughout Punctual [] es := by
  intro before e after hes
  have htime := h before e after hes
  cases e with
  | slept t sleep => trivial
  | rang t now =>
    obtain ⟨sleep, ticks, hlast, hticks, hcovers, hstart, hiff⟩ := htime
    refine ⟨sleep, ticks, hlast, hticks, hcovers, ?_⟩
    have hmem : .slept t sleep ∈ es := by
      rw [hes]
      exact mem_append_left _ (slept_mem_of_lastSleep hlast)
    have hbound : ticks.toNat ≤ 2 ^ 31 := (Request.ticks_le_iff hticks _).2 (hshort t sleep hmem)
    omega

namespace System

/-- The alarm of a call that may put the current task to sleep. -/
def sleptBy (s s' : System) (request : Option Request) (frequency : UInt32) : List Alarm :=
  match s.queue.currentTaskId, request with
  | some t, some request =>
    if s.sleepTaskPending t = false ∧ s'.sleepTaskPending t = true then [.slept t ⟨s.clock, request, frequency⟩] else []
  | _, _ => []

/-- The tasks that are made ready. -/
def rung (now : Nat) (es : List Change) : List Alarm :=
  es.filterMap fun
    | .woken t _ => some (.rang t now)
    | _ => none

def alarms (s : System) : Op → List Alarm
  | .nanosleep c => s.sleptBy (s.nanosleep c).2.2 (c.request.map .timespec) c.frequency
  | .futex c => s.sleptBy (s.futex c).2 (c.timeout.join.map .timespec) c.frequency
  | .wait c => s.sleptBy (s.waitBlockCurrent c).2 (c.timeout.map .windows) c.frequency
  | .timer frame => rung s.clock (s.changes (.timer frame))
  | _ => []

/-- An entry of the sleep queue is the last sleep of its task. -/
def Recorded (past : List Alarm) (s : System) : Prop :=
  ∀ i e, s.sleepQueue i = some e → ∃ sleep ticks, lastSleep past e.taskId = some sleep ∧
    sleep.request.ticks sleep.frequency = some ticks ∧ e.wakeTick = UInt32.ofNat sleep.start + ticks ∧ sleep.start ≤ s.clock

/-! ## The sleep queue -/

variable {s s' s'' : System}

/-- No entry is new. -/
structure Fewer (s s' : System) : Prop where
  entries : ∀ i e, s'.sleepQueue i = some e → s.sleepQueue i = some e
  clock : s.clock ≤ s'.clock

namespace Fewer

theorem of_eq (hsleep : s'.sleepQueue = s.sleepQueue) (hclock : s'.clock = s.clock) : Fewer s s' :=
  ⟨fun i e h => by rwa [hsleep] at h, hclock.ge⟩

theorem trans (h : Fewer s s') (h' : Fewer s' s'') : Fewer s s'' :=
  ⟨fun i e he => h.entries i e (h'.entries i e he), h.clock.trans h'.clock⟩

theorem filter {p : SleepEntry → Bool} (hsleep : s'.sleepQueue = fun i => (s.sleepQueue i).filter p)
    (hclock : s'.clock = s.clock) :
    Fewer s s' := by
  refine ⟨?_, hclock.ge⟩
  intro i e he
  rw [hsleep] at he
  exact (Option.filter_eq_some_iff.1 he).1

theorem recorded {past : List Alarm} (h : Fewer s s') (hs : Recorded past s) : Recorded past s' := by
  intro i e he
  obtain ⟨sleep, ticks, hlast, hticks, hwake, hstart⟩ := hs i e (h.entries i e he)
  exact ⟨sleep, ticks, hlast, hticks, hwake, hstart.trans h.clock⟩

end Fewer

theorem fewer_futexWakeSlot (key address : UInt64) (wakeLimit : Nat) (counted : Nat × System) (i : Fin futexWaiterLimit) :
    Fewer counted.2 (futexWakeSlot key address wakeLimit counted i).2 := by
  obtain ⟨count, s⟩ := counted
  unfold futexWakeSlot
  simp only
  split_ifs
  · exact .of_eq rfl rfl
  rcases s.waiters i with _ | w
  · exact .of_eq rfl rfl
  simp only
  split_ifs
  · exact .of_eq rfl rfl
  · have hcancel : Fewer s (s.sleepCancelTask w.taskId) := .filter rfl rfl
    generalize s.sleepCancelTask w.taskId = s1 at *
    rcases s1.queue.wakeTaskWithResult w.taskId 0 with ⟨ok, queue⟩
    cases ok with
    | true => exact hcancel.trans (.of_eq rfl rfl)
    | false =>
      simp only
      split_ifs <;> exact hcancel.trans (.of_eq rfl rfl)
  · cases s.queue.wakeTaskWithResult w.taskId 0 with
    | mk ok queue =>
      cases ok with
      | true => exact .of_eq rfl rfl
      | false =>
        simp only
        split_ifs <;> exact .of_eq rfl rfl

theorem fewer_futexWake (key address : UInt64) (wakeLimit : Nat) (counted : Nat × System) (slots : List (Fin futexWaiterLimit)) :
    Fewer counted.2 (slots.foldl (futexWakeSlot key address wakeLimit) counted).2 := by
  induction slots generalizing counted with
  | nil => exact .of_eq rfl rfl
  | cons i rest ih => exact (fewer_futexWakeSlot key address wakeLimit counted i).trans (ih _)

/-- The call enters the current task for the request, or it enters nobody. -/
inductive Enters (s s' : System) (request : Option Request) (frequency : UInt32) : Prop
  | nobody (hsleep : s'.sleepQueue = s.sleepQueue) (hclock : s'.clock = s.clock)
  | entered (t : TaskId) (i : Fin runqueueTaskLimit) (r : Request) (ticks : UInt32) (resumeRax : UInt64)
      (waiter : Option (Fin futexWaiterLimit)) (ht : s.queue.currentTaskId = some t)
      (hrunning : s.queue.taskState t = .running) (hnot : s.sleepTaskPending t = false)
      (hr : request = some r) (hticks : r.ticks frequency = some ticks)
      (hsleep : s'.sleepQueue = Keyed.put s.sleepQueue i (s.sleepEntry t ticks resumeRax waiter)) (hclock : s'.clock = s.clock)
      (hblocked : (s'.queue.tasks t).state = .blocked)

variable {ticks frequency : UInt32} {past : List Alarm} {expired : List (TaskId × UInt64)} {request : Option Request}
  {result : UInt64} {q : Runqueue} {t : TaskId}

theorem Parks.enters {waiters : Fin futexWaiterLimit → Option Waiter} (h : s.Parks waiters request frequency s') :
    Enters s s' request frequency := by
  cases h with
  | nothing => exact .nobody rfl rfl
  | tried t ht => exact .nobody rfl rfl
  | slept t i r ticks resumeRax waiter ht hrunning hnot hr hticks hblock =>
    refine .entered t i r ticks resumeRax waiter ht hrunning hnot hr hticks rfl rfl ?_
    rcases s.queue.blockTask_cases t with ⟨hfailed, -⟩ | ⟨-, -, -, -, htasks⟩
    · simp [hblock] at hfailed
    · rw [htasks, update_self]

theorem enters_futex (s : System) (c : FutexCall) (hwakes : ¬ (c.Accepted ∧ c.command = 1)) :
    Enters s (s.futex c).2 (c.timeout.join.map .timespec) c.frequency := by
  rcases s.futex_cases hwakes with ⟨-, -, heq⟩ | heq <;> rw [heq]
  · obtain ⟨waiters, h⟩ := s.parks_futexWait c
    exact h.enters
  · exact .nobody rfl rfl

/-! ## Runs -/

theorem sleepTaskPending_iff (s : System) (t : TaskId) :
    s.sleepTaskPending t ↔ ∃ i e, s.sleepQueue i = some e ∧ e.taskId = t := by
  simp [sleepTaskPending, Option.any_eq_true]

theorem recorded_fewer (hs : Recorded past s) (h : Fewer s s') (request : Option Request) (frequency : UInt32) :
    Throughout OnTime past (s.sleptBy s' request frequency) ∧ Recorded (past ++ s.sleptBy s' request frequency) s' := by
  have hquiet : s.sleptBy s' request frequency = [] := by
    unfold sleptBy
    rcases s.queue.currentTaskId with _ | t
    · rfl
    rcases request with _ | r
    · rfl
    simp only
    rw [if_neg]
    intro hnew
    obtain ⟨i, e, he, ht⟩ := (sleepTaskPending_iff s' t).1 hnew.2
    have hold := (sleepTaskPending_iff s t).2 ⟨i, e, h.entries i e he, ht⟩
    simp [hnew.1] at hold
  rw [hquiet, append_nil]
  exact ⟨.nil past, h.recorded hs⟩

/-- A call that puts the current task to sleep records it. -/
theorem recorded_enters (hs : Recorded past s) (h : Enters s s' request frequency) :
    Throughout OnTime past (s.sleptBy s' request frequency) ∧ Recorded (past ++ s.sleptBy s' request frequency) s' := by
  cases h with
  | nobody hsleep hclock => exact recorded_fewer hs (.of_eq hsleep hclock) request frequency
  | entered t i r ticks resumeRax waiter ht _ hnot hr hticks hsleep hclock _ =>
    have hself : s'.sleepQueue i = some (s.sleepEntry t ticks resumeRax waiter) := by
      rw [hsleep]
      exact update_self ..
    have hpending : s'.sleepTaskPending t := (sleepTaskPending_iff s' t).2 ⟨i, _, hself, rfl⟩
    have hslept : s.sleptBy s' request frequency = [.slept t ⟨s.clock, r, frequency⟩] := by
      unfold sleptBy
      rw [ht, hr]
      simp only
      rw [if_pos ⟨hnot, hpending⟩]
    have hlast : lastSleep (past ++ [.slept t ⟨s.clock, r, frequency⟩]) =
        update (lastSleep past) t (some ⟨s.clock, r, frequency⟩) := by simp [lastSleep, Alarm.note]
    rw [hslept]
    refine ⟨.cons trivial (.nil _), ?_⟩
    intro j e he
    rw [hlast]
    by_cases hji : j = i
    · rw [hji, hself] at he
      obtain rfl := Option.some.inj he
      exact ⟨_, ticks, update_self .., hticks, rfl, hclock.ge⟩
    rw [hsleep, Keyed.put, update_of_ne hji] at he
    -- The task had no entry before, so the others are of other tasks.
    have hne : e.taskId ≠ t := by
      intro heq
      have := (sleepTaskPending_iff s t).2 ⟨j, e, he, heq⟩
      simp [hnot] at this
    obtain ⟨sleep, k, hsleepOf, hk, hwake, hstart⟩ := hs j e he
    exact ⟨sleep, k, by rw [update_of_ne hne, hsleepOf], hk, hwake, by rw [hclock]; exact hstart⟩

theorem woken_mem_wakeExpiredChanges (h : .woken t result ∈ q.wakeExpiredChanges expired) : (t, result) ∈ expired := by
  induction expired generalizing q with
  | nil => cases h
  | cons e rest ih =>
    rcases mem_append.1 h with hfirst | hrest
    · unfold onSuccess at hfirst
      split_ifs at hfirst
      · obtain ⟨rfl, rfl⟩ := Change.woken.inj (mem_singleton.1 hfirst)
        exact mem_cons_self ..
      · cases hfirst
    · exact mem_cons_of_mem _ (ih hrest)

/-- The timer wakes tasks whose entries have expired. -/
theorem woken_mem_onTimerChanges {frame : Frame} (h : .woken t result ∈ q.onTimerChanges frame expired) :
    (t, result) ∈ expired := by
  unfold onTimerChanges at h
  rcases ht : q.currentTaskId with _ | u
  · rw [ht] at h; cases h
  rw [ht] at h
  simp only at h
  by_cases hcs : frame.cs &&& 3 ≠ 3
  · simp [if_pos hcs] at h
  rw [if_neg hcs] at h
  rcases mem_append.1 (mem_of_ne_of_mem (by simp) h) with hwoken | hswitch
  · exact woken_mem_wakeExpiredChanges hwoken
  split_ifs at hswitch
  · unfold dispatchedTo at hswitch
    cases hcurrent : (q.onTimer frame expired).2.2.currentTask <;> simp [hcurrent] at hswitch
  · simp at hswitch

/-- When an entry is found expired. -/
theorem onTime_of_expired (hs : Recorded past s) {e : SleepEntry} (he : e ∈ s.expired) :
    OnTime past (.rang e.taskId s.clock) := by
  obtain ⟨i, -, hi⟩ := mem_filterMap.1 he
  obtain ⟨hentry, hreached⟩ := Option.filter_eq_some_iff.1 hi
  obtain ⟨sleep, ticks, hlast, hticks, hwake, hstart⟩ := hs i e hentry
  refine ⟨sleep, ticks, hlast, hticks, (Request.ticks_le_iff hticks _).1 le_rfl, hstart, ?_⟩
  obtain ⟨elapsed, helapsed⟩ := Nat.exists_eq_add_of_le hstart
  rw [pitGetTicks, hwake, helapsed] at hreached
  by_cases hearly : elapsed < ticks.toNat
  · have hfar := (reached_early hearly).1 hreached
    omega
  · omega

theorem throughout_rung (hs : Recorded past s) (es : List Change)
    (hes : ∀ t result, .woken t result ∈ es → ∃ e ∈ s.expired, e.taskId = t) :
    Throughout OnTime past (rung s.clock es) ∧ Recorded (past ++ rung s.clock es) s := by
  induction es generalizing past with
  | nil => exact ⟨.nil past, by simpa [rung] using hs⟩
  | cons e es ih =>
    have hrest : ∀ t result, .woken t result ∈ es → ∃ e ∈ s.expired, e.taskId = t :=
      fun t result h => hes t result (mem_cons_of_mem _ h)
    cases e with
    | woken t result =>
      obtain ⟨e, he, rfl⟩ := hes t result (mem_cons_self ..)
      -- a task that is woken does not change what the tasks sleep for
      have hs' : Recorded (past ++ [.rang e.taskId s.clock]) s := by
        have hlast : lastSleep (past ++ [.rang e.taskId s.clock]) = lastSleep past := by simp [lastSleep, Alarm.note]
        intro i e' he'
        rw [hlast]
        exact hs i e' he'
      obtain ⟨hlater, hend⟩ := ih hs' hrest
      refine ⟨.cons (onTime_of_expired hs he) hlater, ?_⟩
      simpa [rung] using hend
    | _ => exact ih hs hrest

theorem fewer_onTimer (s : System) (frame : Frame) : Fewer s (s.onTimer frame).2.2 := by
  unfold onTimer
  rcases s.queue.currentTaskId with _ | t
  · exact .of_eq rfl rfl
  split_ifs
  · exact .of_eq rfl rfl
  · exact .filter rfl rfl

/-- A call keeps the entries recorded, and a task that it wakes is on time. -/
theorem recorded_step (past : List Alarm) (s : System) (op : Op) (hs : Recorded past s) :
    Throughout OnTime past (s.alarms op) ∧ Recorded (past ++ s.alarms op) (s.step op) := by
  have hquiet : ∀ s', Fewer s s' → Throughout OnTime past [] ∧ Recorded (past ++ []) s' := by
    intro s' h
    rw [append_nil]
    exact ⟨.nil past, h.recorded hs⟩
  have hkept : ∀ s' : System, s'.sleepQueue = s.sleepQueue → s'.clock = s.clock →
      Throughout OnTime past [] ∧ Recorded (past ++ []) s' := fun s' hsleep hclock => hquiet s' (.of_eq hsleep hclock)
  have hcleared : ∀ s' : System, s'.sleepQueue = (fun _ => none) → s'.clock = s.clock →
      Throughout OnTime past [] ∧ Recorded (past ++ []) s' := by
    intro s' hsleep hclock
    refine hquiet s' ⟨?_, hclock.ge⟩
    intro i e he
    simp [hsleep] at he
  cases op with
  | launch programs =>
    refine hcleared _ ?_ ?_ <;> simp only [step, launch, resetQueues] <;> split <;> rfl
  | reset => exact hcleared _ rfl rfl
  | stop => exact hkept _ rfl rfl
  | register pid runtimeToken entryToken frame tlsBase => exact hkept _ rfl rfl
  | setCurrentFsBase fsBase => exact hkept _ rfl rfl
  | block t => exact hkept _ rfl rfl
  | wake t result => exact hkept _ rfl rfl
  | replay t => exact hkept _ rfl rfl
  | nanosleep c => exact recorded_enters hs (s.parks_nanosleep c).enters
  | futex c =>
    by_cases hwakes : c.Accepted ∧ c.command = 1
    · have hwoken : Fewer s (s.futex c).2 := by
        rw [s.futex_wake hwakes]
        exact fewer_futexWake c.key c.userAddress c.wakeLimit (0, s) _
      exact recorded_fewer hs hwoken _ c.frequency
    · exact recorded_enters hs (s.enters_futex c hwakes)
  | futexWakeKey key address wakeLimit => exact hquiet _ (fewer_futexWake key address wakeLimit (0, s) _)
  | releaseFutexWaiters pid | waitWake t => exact hquiet _ (.filter rfl rfl)
  | wait c => exact recorded_enters hs (s.parks_waitBlockCurrent c).enters
  | blockedSyscall frame => exact hkept _ rfl rfl
  | timer frame =>
    have hes : ∀ t result, .woken t result ∈ s.changes (.timer frame) → ∃ e ∈ s.expired, e.taskId = t := by
      intro t result h
      obtain ⟨e, he, heq⟩ := mem_map.1 (woken_mem_onTimerChanges h)
      exact ⟨e, he, congrArg Prod.fst heq⟩
    obtain ⟨hon, hrecorded⟩ := throughout_rung hs _ hes
    exact ⟨hon, (s.fewer_onTimer frame).recorded hrecorded⟩
  | exit frame result => exact hkept _ rfl rfl
  | tick ticks => exact hquiet _ ⟨fun i e he => he, Nat.le_add_right _ _⟩

/-- The alarms of a run, from the start. -/
def alarmsOf (ops : List Op) : List Alarm := eventsOf alarms step boot ops

theorem recorded_boot : Recorded [] boot := by
  intro i e he
  cases he

/-- In every run, a task that the timer wakes has slept as long as it asked for if and only if the ticks of its request are
at most 2^31 more than have passed; so no task is woken early in a run with short sleeps only. -/
theorem on_time_iff (ops : List Op) :
    Throughout OnTime [] (alarmsOf ops) ∧
      ((∀ t sleep, .slept t sleep ∈ alarmsOf ops → sleep.Short) → Throughout Punctual [] (alarmsOf ops)) := by
  have htime : Throughout OnTime [] (alarmsOf ops) := (Throughout.of_steps recorded_step recorded_boot ops).1
  exact ⟨htime, punctual_of_short htime⟩

/-- A task sleeps for 21474837 seconds at 100 Hz, and the timer ticks once. -/
def longSleepRun : List Op :=
  [.launch [program 1, program 2], .nanosleep ⟨true, some ⟨21474837, 0⟩, none, 100, 0⟩, .blockedSyscall userFrame, .tick 1,
    .timer userFrame]

/-- The task is ready again after one tick of 2147483700. -/
theorem long_sleeper_woken :
    alarmsOf longSleepRun = [.slept (taskIn 0) ⟨0, .timespec ⟨21474837, 0⟩, 100⟩, .rang (taskIn 0) 1] ∧
      (Request.timespec ⟨21474837, 0⟩).ticks 100 = some 2147483700 ∧
      ((run longSleepRun).queue.tasks (taskIn 0)).state = .running := by
  decide +kernel

end System

end LimitlessOS.Sched
