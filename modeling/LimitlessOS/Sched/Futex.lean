/-
  LimitlessOS.Sched.Futex — `FUTEX_WAIT` and `FUTEX_WAKE` over whole runs.

  A waiter of the table is a task that is blocked, and a timed one has its entry in the sleep
  queue (`Parked`). This is kept by every call that does not wake, end or forget a task behind
  the back of the table (`Undisturbed`); the waits of such a run are those that the table and
  the run queue can take: a word takes one waiter only.

  Proved:
  - `parked_next`: a blocked task stays blocked through every change that is not about it.
  - `wakes_futexWake`: `FUTEX_WAKE` wakes as many waiters for the word as it may.
  - `parked_step`: the table is kept.
  - `futex_of_run`: in every undisturbed run, every `FUTEX_WAIT` blocks and every
    `FUTEX_WAKE` wakes as many waiters as it may, with the result 0.
  - `second_waiter_refused`: two threads wait for one word, and the second gets EINVAL.
-/
import LimitlessOS.Sched.Deadlines

namespace LimitlessOS.Sched

open Function Lib Signal Runqueue Keyed Schedule List Option

/-! ## Tasks that stay blocked -/

/-- The change may end the wait of the task. -/
def Change.Disturbs (t : TaskId) : Change → Prop
  | woken u _ => u = t
  | replayed u => u = t
  | exited u _ => u = t
  | cleared => True
  | _ => False

/-- A task that lives and is blocked. -/
def Schedule.Blocked (t : TaskId) (c : Schedule) : Prop := c.Sound ∧ (c.tasks t).state = .blocked

theorem parked_next {t : TaskId} (c : Schedule) (e : Change) (c' : Schedule) (hquiet : ¬ e.Disturbs t) (h : c.Blocked t)
    (hn : c.Next e c') : c'.Blocked t := by
  obtain ⟨hsound, hblocked⟩ := h
  refine ⟨sound_next c e c' hsound hn, ?_⟩
  obtain ⟨hallowed, rfl⟩ := hn
  obtain ⟨-, hlt⟩ := hsound t (.inr (.inr hblocked))
  cases e with
  | made u pid frame fsBase =>
    have htu : t ≠ u := by
      rintro rfl
      have := hallowed.2 (.inr (.inr hblocked))
      omega
    simpa [apply, htu] using hblocked
  | stopped u frame fsBase | resumed u | blocked u | fsSet u fsBase =>
    by_cases htu : t = u
    · subst htu
      simp [apply, hblocked]
    · simpa [apply, htu] using hblocked
  | woken u result | replayed u | exited u result =>
    have htu : t ≠ u := fun h => hquiet h.symm
    simpa [apply, htu] using hblocked
  | dispatched u frame fsBase =>
    have htu : t ≠ u := by
      rintro rfl
      have hready := hallowed.2.2.2.1
      simp [hblocked] at hready
    simpa [apply, htu] using hblocked
  | halted => exact hblocked
  | cleared => exact absurd trivial hquiet

namespace System

variable {s s' : System}

/-- What every run keeps of the run queue. -/
def Healthy (s : System) : Prop := ∃ ended, s.queue.HasCurrent ended ∧ (s.queue.schedule ended).Sound

theorem healthy_step (hs : s.Healthy) (op : Op) : (s.step op).Healthy := by
  obtain ⟨ended, hcurrent, hsound⟩ := hs
  obtain ⟨ended', htrace, hcurrent'⟩ := trace_step hcurrent op
  exact ⟨ended', hcurrent', Trace.invariant sound_next htrace hsound⟩

variable {t : TaskId} {w : Waiter} {i : Fin futexWaiterLimit} {key address : UInt64}

/-- A call that does not disturb a blocked task leaves it blocked. -/
theorem blocked_step (hs : s.Healthy) {op : Op} (hquiet : ∀ e ∈ s.changes op, ¬ e.Disturbs t)
    (hblocked : (s.queue.tasks t).state = .blocked) : ((s.step op).queue.tasks t).state = .blocked := by
  obtain ⟨ended, hcurrent, hsound⟩ := hs
  obtain ⟨ended', htrace, -⟩ := trace_step hcurrent op
  have h : ((s.step op).queue.schedule ended').Blocked t :=
    Trace.invariant_of_mem (fun c e c' he => parked_next c e c' (hquiet e he)) htrace ⟨hsound, hblocked⟩
  exact h.2

/-- The task is a waiter of the table, or it sleeps. -/
def Registered (s : System) (t : TaskId) : Prop :=
  (∃ i w, s.waiters i = some w ∧ w.taskId = t) ∨ ∃ k e, s.sleepQueue k = some e ∧ e.taskId = t

/-- The waiters and the sleepers are blocked tasks, each one is entered once, and the entry of a waiter in the sleep queue is that
of its wait. -/
structure Parked (s : System) : Prop where
  blocked : ∀ t, s.Registered t → (s.queue.tasks t).state = .blocked
  distinct : Distinct Waiter.taskId s.waiters
  alone : Distinct SleepEntry.taskId s.sleepQueue
  cookie : ∀ i w k e, s.waiters i = some w → s.sleepQueue k = some e → e.taskId = w.taskId → e.waiter = some i ∧ w.timed = true

theorem Registered.of_fewer (ht : s'.Registered t) (hwaiters : ∀ i w, s'.waiters i = some w → s.waiters i = some w)
    (hsleep : ∀ k e, s'.sleepQueue k = some e → s.sleepQueue k = some e) : s.Registered t := by
  rcases ht with ⟨i, w, hw, heq⟩ | ⟨k, e, he, heq⟩
  · exact .inl ⟨i, w, hwaiters i w hw, heq⟩
  · exact .inr ⟨k, e, hsleep k e he, heq⟩

theorem Parked.of_fewer (hs : s.Parked) (hwaiters : ∀ i w, s'.waiters i = some w → s.waiters i = some w)
    (hsleep : ∀ k e, s'.sleepQueue k = some e → s.sleepQueue k = some e)
    (hblocked : ∀ t, s'.Registered t → (s'.queue.tasks t).state = .blocked) : s'.Parked where
  blocked := hblocked
  distinct := fun i j w w' hw hw' heq => hs.distinct i j w w' (hwaiters i w hw) (hwaiters j w' hw') heq
  alone := fun i j e e' he he' heq => hs.alone i j e e' (hsleep i e he) (hsleep j e' he') heq
  cookie := fun i w k e hw he heq => hs.cookie i w k e (hwaiters i w hw) (hsleep k e he) heq

/-- The running task is not registered. -/
theorem Parked.not_registered (hs : s.Parked) (hrunning : (s.queue.tasks t).state = .running) : ¬ s.Registered t := by
  intro ht
  have hblocked := hs.blocked t ht
  simp [hrunning] at hblocked

/-! ## FUTEX_WAKE -/

/-- The waiters for the word, in the order of the table. -/
def waitersOn (s : System) (key address : UInt64) (slots : List (Fin futexWaiterLimit)) : List Waiter :=
  slots.filterMap fun i => (s.waiters i).filter (Waiter.on key address)

/-- The task is ready, and its call returns 0. -/
def wokenTask (task : Task) : Task := { task with state := .ready, frame := { task.frame with rax := 0 } }

/-- The tasks of the waiters are woken, and nothing else happens to a task. -/
structure Wakes (s : System) (ws : List Waiter) (s' : System) : Prop where
  woken : ∀ w ∈ ws, s'.queue.tasks w.taskId = wokenTask (s.queue.tasks w.taskId)
  others : ∀ t, (∀ w ∈ ws, w.taskId ≠ t) → s'.queue.tasks t = s.queue.tasks t

theorem mem_waitersOn {slots : List (Fin futexWaiterLimit)} :
    w ∈ s.waitersOn key address slots ↔ ∃ i ∈ slots, s.waiters i = some w ∧ w.on key address := by
  simp [waitersOn, filter_eq_some_iff]

/-- The state after a waiter has been woken. -/
def afterWake (s : System) (i : Fin futexWaiterLimit) (w : Waiter) : System :=
  { s with
    queue := { s.queue.set w.taskId (wokenTask (s.queue.tasks w.taskId)) with preferredTask := some w.taskId }
    waiters := update s.waiters i none
    sleepQueue := if w.timed then (s.sleepCancelTask w.taskId).sleepQueue else s.sleepQueue }

theorem futexWakeSlot_parked (hs : s.Parked) (hhealthy : s.Healthy) {wakeLimit count : Nat} (hlimit : count < wakeLimit)
    (hw : s.waiters i = some w) (hon : w.on key address) : futexWakeSlot key address wakeLimit (count, s) i =
    (count + 1, s.afterWake i w) := by
  obtain ⟨ended, -, hsound⟩ := hhealthy
  have hblocked := hs.blocked w.taskId (.inl ⟨i, w, hw, rfl⟩)
  obtain ⟨hvalid, hlt⟩ := hsound w.taskId (.inr (.inr hblocked))
  have hwake : s.queue.wakeTaskWithResult w.taskId 0 = (true, (s.afterWake i w).queue) := by
    unfold wakeTaskWithResult
    rw [if_neg]
    · rfl
    · have hvalid' : (s.queue.tasks w.taskId).frameValid := hvalid
      have hlt' : w.taskId.val < s.queue.taskCount := hlt
      simp [hvalid', hblocked, hlt']
  unfold futexWakeSlot
  simp only
  rw [if_neg (Nat.not_le.2 hlimit)]
  simp only [hw, hon, Bool.not_true, Bool.false_eq_true, if_false]
  by_cases htimed : w.timed
  · simp only [htimed, if_true]
    have hqueue : (s.sleepCancelTask w.taskId).queue.wakeTaskWithResult w.taskId 0 = (true, (s.afterWake i w).queue) := hwake
    rw [hqueue]
    simp only [afterWake, htimed, if_true]
    rfl
  · simp only [htimed, Bool.false_eq_true, if_false]
    rw [hwake]
    simp only [afterWake, htimed, Bool.false_eq_true, if_false]

/-- The other waiters stay. -/
theorem parked_afterWake (hs : s.Parked) (hw : s.waiters i = some w) : (s.afterWake i w).Parked := by
  have hwaiters : ∀ j w', (s.afterWake i w).waiters j = some w' → j ≠ i ∧ s.waiters j = some w' := by
    intro j w' hj
    by_cases hji : j = i
    · subst hji
      simp [afterWake] at hj
    · simpa [afterWake, hji] using hj
  have hsleep : ∀ k e, (s.afterWake i w).sleepQueue k = some e → e.taskId ≠ w.taskId ∧ s.sleepQueue k = some e := by
    intro k e he
    simp only [afterWake] at he
    split_ifs at he with htimed
    · obtain ⟨hold, hne⟩ := filter_eq_some_iff.1 he
      exact ⟨by simpa using hne, hold⟩
    · exact ⟨fun heq => htimed (hs.cookie i w k e hw he heq).2, he⟩
  refine hs.of_fewer (fun j w' hj => (hwaiters j w' hj).2) (fun k e he => (hsleep k e he).2) ?_
  intro t ht
  have hne : t ≠ w.taskId := by
    rcases ht with ⟨j, w', hj, rfl⟩ | ⟨k, e, he, rfl⟩
    · obtain ⟨hji, hold⟩ := hwaiters j w' hj
      exact fun heq => hji (hs.distinct j i w' w hold hw heq)
    · exact (hsleep k e he).1
  have hsame : (s.afterWake i w).queue.tasks t = s.queue.tasks t := by simp [afterWake, hne]
  rw [hsame]
  exact hs.blocked t (ht.of_fewer (fun j w' hj => (hwaiters j w' hj).2) fun k e he => (hsleep k e he).2)

theorem healthy_afterWake (hs : s.Parked) (hhealthy : s.Healthy) (hw : s.waiters i = some w) :
    (s.afterWake i w).Healthy := by
  obtain ⟨ended, hcurrent, hsound⟩ := hhealthy
  refine ⟨ended, hcurrent.of_eq rfl rfl le_rfl, ?_⟩
  intro t halive
  by_cases ht : t = w.taskId
  · subst ht
    obtain ⟨hvalid, hlt⟩ := hsound w.taskId (.inr (.inr (hs.blocked w.taskId (.inl ⟨i, w, hw, rfl⟩))))
    refine ⟨?_, hlt⟩
    simpa [afterWake, schedule, scheduleAt, wokenTask] using hvalid
  · have hsame : ((s.afterWake i w).queue.schedule ended).tasks t = (s.queue.schedule ended).tasks t := by
      simp [afterWake, schedule, scheduleAt, ht]
    rw [hsame] at halive ⊢
    exact hsound t halive

/-- The loop of the wakeup: it wakes the first waiters for the word, up to the limit. -/
theorem wakes_futexWake (key address : UInt64) (wakeLimit : Nat) (slots : List (Fin futexWaiterLimit)) (hnodup : slots.Nodup)
    (count : Nat) (s : System) (hs : s.Parked) (hhealthy : s.Healthy) :
    (slots.foldl (futexWakeSlot key address wakeLimit) (count, s)).1 =
        count + min (wakeLimit - count) (s.waitersOn key address slots).length ∧
      s.Wakes ((s.waitersOn key address slots).take (wakeLimit - count))
        (slots.foldl (futexWakeSlot key address wakeLimit) (count, s)).2 ∧
      (slots.foldl (futexWakeSlot key address wakeLimit) (count, s)).2.Parked := by
  induction slots generalizing count s with
  | nil => exact ⟨by simp [waitersOn], ⟨by simp [waitersOn], fun t _ => rfl⟩, hs⟩
  | cons i rest ih =>
    obtain ⟨hi, hrest⟩ := nodup_cons.1 hnodup
    rw [foldl_cons]
    by_cases hskip : wakeLimit ≤ count ∨ ∀ w, s.waiters i = some w → w.on key address = false
    · have hsame : futexWakeSlot key address wakeLimit (count, s) i = (count, s) := by
        rcases futexWakeSlot_cases key address wakeLimit count s i with ⟨heq, -⟩ | ⟨w, hw, hon, hlt, -⟩
        · exact heq
        · rcases hskip with hle | hoff
          · omega
          · simp [hoff w hw] at hon
      rw [hsame]
      obtain ⟨hcount, hwakes, hparked⟩ := ih hrest count s hs hhealthy
      rcases hskip with hle | hoff
      · have hzero : wakeLimit - count = 0 := by omega
        rw [hzero] at hcount hwakes ⊢
        exact ⟨by simpa using hcount, by simpa using hwakes, hparked⟩
      have hon : s.waitersOn key address (i :: rest) = s.waitersOn key address rest := by
        have hnone : (s.waiters i).filter (Waiter.on key address) = none := by
          cases hw : s.waiters i with
          | none => rfl
          | some w => simp [Option.filter, hoff w hw]
        simp [waitersOn, hnone]
      rw [hon]
      exact ⟨hcount, hwakes, hparked⟩
    · obtain ⟨hlt, hex⟩ := not_or.1 hskip
      obtain ⟨w, hw, hon⟩ : ∃ w, s.waiters i = some w ∧ w.on key address := by simpa using hex
      have hlimit : count < wakeLimit := Nat.lt_of_not_le hlt
      rw [futexWakeSlot_parked hs hhealthy hlimit hw hon]
      obtain ⟨hcount, hwakes, hparked⟩ :=
        ih hrest (count + 1) (s.afterWake i w) (parked_afterWake hs hw) (healthy_afterWake hs hhealthy hw)
      -- The slot does not come again, so the rest of the loop sees the other waiters.
      have hothers : (s.afterWake i w).waitersOn key address rest = s.waitersOn key address rest := by
        apply filterMap_congr
        intro j hj
        have hji : j ≠ i := fun h => hi (h ▸ hj)
        simp [afterWake, hji]
      have hlist : s.waitersOn key address (i :: rest) = w :: s.waitersOn key address rest := by
        have hsome : (s.waiters i).filter (Waiter.on key address) = some w := by simp [hw, Option.filter, hon]
        simp [waitersOn, hsome]
      rw [hothers] at hcount hwakes
      rw [hlist]
      have hsucc : wakeLimit - count = (wakeLimit - (count + 1)) + 1 := by omega
      refine ⟨?_, ?_, hparked⟩
      · rw [hcount, length_cons]
        omega
      -- The tasks of the later waiters are others.
      have hdistinct : ∀ w' ∈ (s.waitersOn key address rest).take (wakeLimit - (count + 1)), w'.taskId ≠ w.taskId := by
        intro w' hw' heq
        obtain ⟨j, hj, hw'j, -⟩ := mem_waitersOn.1 (mem_of_mem_take hw')
        exact hi (hs.distinct j i w' w hw'j hw heq ▸ hj)
      have hself : (s.afterWake i w).queue.tasks w.taskId = wokenTask (s.queue.tasks w.taskId) := by simp [afterWake]
      have hkept : ∀ t, t ≠ w.taskId → (s.afterWake i w).queue.tasks t = s.queue.tasks t := by
        intro t ht
        simp [afterWake, ht]
      rw [hsucc, take_succ_cons]
      constructor
      · intro w' hw'
        rcases mem_cons.1 hw' with rfl | hlater
        · rw [hwakes.others _ hdistinct, hself]
        · rw [hwakes.woken w' hlater, hkept _ (hdistinct w' hlater)]
      · intro t ht
        rw [hwakes.others t fun w' hw' => ht w' (mem_cons_of_mem _ hw')]
        exact hkept t fun h => ht w (mem_cons_self ..) h.symm

/-! ## Calls that leave the waiters alone -/

section Quiet

variable {t : TaskId}

theorem quiet_madeBy (pid : UInt32) (frame : Frame) (fsBase : UInt64) (made : Option TaskId) :
    ∀ e ∈ madeBy pid frame fsBase made, ¬ e.Disturbs t := by
  cases made <;> simp [madeBy, Change.Disturbs]

theorem quiet_onSuccess {e : Change} (he : ¬ e.Disturbs t) (succeeded : Bool) :
    ∀ e' ∈ onSuccess e succeeded, ¬ e'.Disturbs t := by
  cases succeeded <;> simp [onSuccess, he]

theorem quiet_dispatchedTo (r : Frame × Runqueue) : ∀ e ∈ dispatchedTo r, ¬ e.Disturbs t := by
  unfold dispatchedTo
  cases r.2.currentTask <;> simp [Change.Disturbs]

theorem quiet_onBlockedSyscallChanges (q : Runqueue) (frame : Frame) :
    ∀ e ∈ q.onBlockedSyscallChanges frame, ¬ e.Disturbs t := by
  unfold onBlockedSyscallChanges
  rcases q.currentTaskId with _ | u
  · simp
  simp only
  split_ifs
  · simp
  · exact forall_mem_cons.2 ⟨id, quiet_dispatchedTo _⟩
  · simp [Change.Disturbs]

variable {q : Runqueue} {expired : List (TaskId × UInt64)}

theorem quiet_onExitChanges (ht : q.currentTaskId ≠ some t) (frame : Frame) (result : UInt32) :
    ∀ e ∈ q.onExitChanges frame result, ¬ e.Disturbs t := by
  unfold onExitChanges
  rcases hu : q.currentTaskId with _ | u
  · simp
  have hut : ¬ u = t := fun h => ht (h ▸ hu)
  simp only
  split_ifs
  · exact forall_mem_cons.2 ⟨hut, quiet_dispatchedTo _⟩
  · simp [Change.Disturbs, hut]

theorem quiet_wakeExpiredChanges (h : ∀ e ∈ expired, e.1 ≠ t) :
    ∀ e ∈ q.wakeExpiredChanges expired, ¬ e.Disturbs t := by
  induction expired generalizing q with
  | nil => simp [wakeExpiredChanges]
  | cons e rest ih =>
    intro e' he'
    rcases mem_append.1 he' with hfirst | hrest
    · exact quiet_onSuccess (e := .woken e.1 e.2) (h e (mem_cons_self ..)) _ e' hfirst
    · exact ih (fun e he => h e (mem_cons_of_mem _ he)) e' hrest

theorem quiet_onTimerChanges (h : ∀ e ∈ expired, e.1 ≠ t) (frame : Frame) :
    ∀ e ∈ q.onTimerChanges frame expired, ¬ e.Disturbs t := by
  unfold onTimerChanges
  rcases q.currentTaskId with _ | u
  · simp
  simp only
  by_cases hcs : frame.cs &&& 3 ≠ 3
  · rw [if_pos hcs]
    simp
  rw [if_neg hcs]
  refine forall_mem_cons.2 ⟨id, ?_⟩
  intro e he
  rcases mem_append.1 he with hwoken | hswitch
  · exact quiet_wakeExpiredChanges h e hwoken
  · split_ifs at hswitch
    · exact quiet_dispatchedTo _ e hswitch
    · rw [mem_singleton.1 hswitch]
      exact id

end Quiet

/-! ## Runs -/

/-- The running task makes a wait for a word that has the expected value. -/
structure WaitsFor (s : System) (c : FutexCall) (t : TaskId) (ticks : Option UInt32) : Prop where
  current : s.queue.currentTaskId = some t
  running : (s.queue.tasks t).state = .running
  pid : s.queue.taskPid t = c.pid
  waits : c.Waits ticks

/-- The call does not wake, end or forget a waiter behind the back of the table, and a wait can be taken. -/
def Undisturbed (s : System) : Op → Prop
  | .launch _ => ∀ i, s.waiters i = none
  | .reset => ∀ i, s.waiters i = none
  | .wake t _ => ¬ s.Registered t
  | .replay t => ¬ s.Registered t
  | .waitWake t => ∀ i w, s.waiters i = some w → w.taskId ≠ t
  | .exit _ _ => ∀ t, s.queue.currentTaskId = some t → (s.queue.tasks t).state = .running
  | .futex c => ∀ t ticks, s.WaitsFor c t ticks → s.CanWait c t ticks
  | _ => True

/-- A call that is no wait of the running task changes nothing, unless it is a wakeup. -/
theorem futex_idle (c : FutexCall) (hwakes : ¬ (c.Accepted ∧ c.command = 1)) (hno : ∀ t ticks, ¬ s.WaitsFor c t ticks) :
    (s.futex c).2 = s := by
  rcases s.futex_cases hwakes with ⟨haccepted, hwait, heq⟩ | heq
  · rw [heq]
    rcases s.futexWait_state c with heq | ⟨ticks, t, i, hword, htimeout, hticks, ht, hpid, hrunning, -⟩
    · exact heq
    · obtain ⟨-, -, hlt⟩ := currentTaskId_eq_some.1 ht
      exact absurd ⟨ht, by simpa [taskState, hlt] using hrunning, hpid, haccepted, hwait, hword, htimeout, hticks⟩
        (hno t ticks)
  · exact heq

/-- A task that is not registered is entered: as a waiter, as a sleeper or as both. -/
theorem Parked.enter (hs : s.Parked) (hfresh : ¬ s.Registered t)
    (hblocked : ∀ u, s.Registered u ∨ u = t → (s'.queue.tasks u).state = .blocked)
    (hwaiters : s'.waiters = s.waiters ∨ ∃ i w, w.taskId = t ∧ s'.waiters = put s.waiters i w)
    (hsleep : s'.sleepQueue = s.sleepQueue ∨ ∃ k e, e.taskId = t ∧ s'.sleepQueue = put s.sleepQueue k e)
    (hcookie : ∀ i w k e, s'.waiters i = some w → s'.sleepQueue k = some e → w.taskId = t → e.taskId = t →
      e.waiter = some i ∧ w.timed) : s'.Parked := by
  obtain ⟨hold, hdistinct⟩ := of_entered hwaiters
  obtain ⟨hold', halone⟩ := of_entered hsleep
  have hnew : get Waiter.taskId s.waiters t = none :=
    get_eq_none.2 fun i w hw ht => hfresh (.inl ⟨i, w, hw, ht⟩)
  have hnew' : get SleepEntry.taskId s.sleepQueue t = none :=
    get_eq_none.2 fun k e he ht => hfresh (.inr ⟨k, e, he, ht⟩)
  refine ⟨?_, hdistinct hnew hs.distinct, halone hnew' hs.alone, ?_⟩
  · intro u hu
    apply hblocked
    by_cases hut : u = t
    · exact .inr hut
    left
    rcases hu with ⟨i, w, hw, rfl⟩ | ⟨k, e, he, rfl⟩
    · exact .inl ⟨i, w, hold i w hw hut, rfl⟩
    · exact .inr ⟨k, e, hold' k e he hut, rfl⟩
  · intro i w k e hw he heq
    by_cases ht : w.taskId = t
    · exact hcookie i w k e hw he ht (heq.trans ht)
    · exact hs.cookie i w k e (hold i w hw ht) (hold' k e he (heq ▸ ht)) heq

/-- A wait that can be taken is entered in the table. -/
theorem parked_futexWait (hs : s.Parked) (hhealthy : s.Healthy) {c : FutexCall} {ticks : Option UInt32}
    (hc : s.WaitsFor c t ticks) (hcan : s.CanWait c t ticks) : (s.futex c).2.Parked := by
  obtain ⟨ended, -, hsound⟩ := hhealthy
  have hfresh := hs.not_registered hc.running
  rcases futexWait_cases hsound hc.current hc.running hc.waits hc.pid with
    ⟨-, -, htasks, i, hi, hwaiters, henters⟩ | ⟨hcannot, -, -⟩
  · apply hs.enter hfresh
    · intro u hu
      rw [htasks]
      by_cases hut : u = t
      · rw [hut, update_self]
      · rw [update_of_ne hut]
        exact hs.blocked u (hu.resolve_right hut)
    · exact .inr ⟨i, c.waiter t ticks, rfl, hwaiters⟩
    · cases ticks with
      | none => exact .inl henters
      | some n =>
        obtain ⟨k, -, hput⟩ := henters
        exact .inr ⟨k, _, rfl, hput⟩
    · intro j w k e hj he hw ht
      rw [hwaiters] at hj
      obtain ⟨rfl, rfl⟩ : j = i ∧ w = c.waiter t ticks :=
        (of_put hj).resolve_right fun hold => hfresh (.inl ⟨j, w, hold, hw⟩)
      cases ticks with
      | none =>
        have hsame : (s.futex c).2.sleepQueue = s.sleepQueue := henters
        rw [hsame] at he
        exact absurd (.inr ⟨k, e, he, ht⟩) hfresh
      | some n =>
        obtain ⟨m, -, hput⟩ := henters
        rw [hput] at he
        obtain ⟨-, rfl⟩ := (of_put he).resolve_right fun hold => hfresh (.inr ⟨k, e, hold, ht⟩)
        exact ⟨rfl, rfl⟩
  · exact absurd hcan hcannot

/-- A call that may put the running task to sleep, and does not touch the table. -/
theorem parked_enters (hs : s.Parked) {request : Option Request} {frequency : UInt32} (h : Enters s s' request frequency)
    (hwaiters : s'.waiters = s.waiters)
    (hkept : ∀ t, (s.queue.tasks t).state = .blocked → (s'.queue.tasks t).state = .blocked) : s'.Parked := by
  cases h with
  | nobody hsleep hclock =>
    refine hs.of_fewer (fun i w hw => by rwa [hwaiters] at hw) (fun k e he => by rwa [hsleep] at he) ?_
    intro t ht
    exact hkept t (hs.blocked t (ht.of_fewer (fun i w hw => by rwa [hwaiters] at hw) fun k e he => by rwa [hsleep] at he))
  | entered t i r ticks resumeRax waiter ht hrunning hnot hr hticks hsleep hclock hblocked =>
    obtain ⟨-, -, hlt⟩ := currentTaskId_eq_some.1 ht
    have hfresh : ¬ s.Registered t := by
      apply hs.not_registered
      rwa [taskState, if_pos hlt] at hrunning
    apply hs.enter hfresh
    · intro u hu
      rcases hu with hu | rfl
      · exact hkept u (hs.blocked u hu)
      · exact hblocked
    · exact .inl hwaiters
    · exact .inr ⟨i, _, rfl, hsleep⟩
    · intro j w k e hj _ hw _
      rw [hwaiters] at hj
      exact absurd (.inl ⟨j, w, hj, hw⟩) hfresh

theorem of_futexTimeouts {es : List SleepEntry} {ws : Fin futexWaiterLimit → Option Waiter}
    (h : es.foldl futexTimeoutCallback ws i = some w) :
    ws i = some w ∧ ∀ e ∈ es, e.waiter = some i → ¬ (w.taskId = e.taskId ∧ w.timed) := by
  induction es generalizing ws with
  | nil => exact ⟨h, by simp⟩
  | cons e es ih =>
    obtain ⟨hw, hrest⟩ := ih h
    unfold futexTimeoutCallback at hw
    cases he : e.waiter with
    | none =>
      rw [he] at hw
      refine ⟨hw, forall_mem_cons.2 ⟨?_, hrest⟩⟩
      intro h
      simp [he] at h
    | some j =>
      rw [he] at hw
      simp only at hw
      by_cases hij : i = j
      · subst hij
        rw [update_self] at hw
        obtain ⟨hold, hkept⟩ := filter_eq_some_iff.1 hw
        refine ⟨hold, forall_mem_cons.2 ⟨?_, hrest⟩⟩
        intro _ hboth
        simp [hboth.1, hboth.2] at hkept
      · rw [update_of_ne hij] at hw
        refine ⟨hw, forall_mem_cons.2 ⟨?_, hrest⟩⟩
        intro h
        rw [he] at h
        exact absurd (some.inj h).symm hij

/-- The timer forgets the waiters that it wakes. -/
theorem parked_timer (hs : s.Parked) (hhealthy : s.Healthy) (frame : Frame) : (s.step (.timer frame)).Parked := by
  have hidle : s.step (.timer frame) = s ∨
      (s.step (.timer frame)).waiters = s.expired.foldl futexTimeoutCallback s.waiters ∧
        (s.step (.timer frame)).sleepQueue =
          fun i => (s.sleepQueue i).filter fun e => !sleepTickReached s.pitGetTicks e.wakeTick := by
    simp only [step, onTimer]
    rcases s.queue.currentTaskId with _ | t
    · exact .inl rfl
    split_ifs
    · exact .inl rfl
    · exact .inr ⟨rfl, rfl⟩
  rcases hidle with heq | ⟨hwaiters, hsleep⟩
  · rwa [heq]
  have hold : ∀ i w, (s.step (.timer frame)).waiters i = some w → s.waiters i = some w := by
    intro i w hw
    rw [hwaiters] at hw
    exact (of_futexTimeouts hw).1
  have hold' : ∀ k e, (s.step (.timer frame)).sleepQueue k = some e → s.sleepQueue k = some e := by
    intro k e he
    rw [hsleep] at he
    exact (filter_eq_some_iff.1 he).1
  refine hs.of_fewer hold hold' ?_
  intro t ht
  apply blocked_step hhealthy ?_ (hs.blocked t (ht.of_fewer hold hold'))
  apply quiet_onTimerChanges
  -- A task that is woken is not registered any more.
  intro x hx
  obtain ⟨e, he, rfl⟩ := mem_map.1 hx
  obtain ⟨k, -, hk⟩ := mem_filterMap.1 he
  obtain ⟨hentry, hreached⟩ := filter_eq_some_iff.1 hk
  intro heq
  rcases ht with ⟨i, w, hw, rfl⟩ | ⟨k', e', he', rfl⟩
  · obtain ⟨hcookie, htimed⟩ := hs.cookie i w k e (hold i w hw) hentry heq
    rw [hwaiters] at hw
    exact (of_futexTimeouts hw).2 e he hcookie ⟨heq.symm, htimed⟩
  obtain rfl := hs.alone k k' e e' hentry (hold' k' e' he') heq
  rw [hsleep] at he'
  obtain ⟨hentry', hnot⟩ := filter_eq_some_iff.1 he'
  rw [hentry] at hentry'
  simp [← some.inj hentry', hreached] at hnot

theorem blocks_keep {q q' : Runqueue} (h : Blocks q q') (t : TaskId) (ht : (q.tasks t).state = .blocked) :
    (q'.tasks t).state = .blocked := by
  cases h with
  | unchanged => exact ht
  | tried u _ =>
    rcases q.blockTask_cases u with ⟨-, htasks⟩ | ⟨-, -, -, -, htasks⟩ <;> rw [htasks]
    · exact ht
    · by_cases htu : t = u
      · rw [htu, update_self]
      · rwa [update_of_ne htu]

/-- The table is kept. -/
theorem parked_step (s : System) (op : Op) (hs : s.Parked ∧ s.Healthy) (hop : s.Undisturbed op) :
    (s.step op).Parked ∧ (s.step op).Healthy := by
  obtain ⟨hs, hhealthy⟩ := hs
  refine ⟨?_, healthy_step hhealthy op⟩
  -- Calls that disturb nobody who is registered.
  have hquiet : (∀ i w, (s.step op).waiters i = some w → s.waiters i = some w) →
      (∀ k e, (s.step op).sleepQueue k = some e → s.sleepQueue k = some e) →
      (∀ t, (s.step op).Registered t → ∀ e ∈ s.changes op, ¬ e.Disturbs t) → (s.step op).Parked := by
    intro hwaiters hsleep hchanges
    refine hs.of_fewer hwaiters hsleep ?_
    intro t ht
    exact blocked_step hhealthy (hchanges t ht) (hs.blocked t (ht.of_fewer hwaiters hsleep))
  have hcleared : (∀ i, s.waiters i = none) → (s.step op).waiters = s.waiters → (s.step op).sleepQueue = (fun _ => none) →
      (s.step op).Parked := by
    intro hnone hwaiters hsleep
    have hnow : ∀ i w, (s.step op).waiters i ≠ some w := by
      intro i w hw
      simp [hwaiters, hnone i] at hw
    have hnobody : ∀ k e, (s.step op).sleepQueue k ≠ some e := by
      intro k e he
      simp [hsleep] at he
    refine hs.of_fewer (fun i w hw => absurd hw (hnow i w)) (fun k e he => absurd he (hnobody k e)) ?_
    intro t ht
    rcases ht with ⟨i, w, hw, -⟩ | ⟨k, e, he, -⟩
    · exact absurd hw (hnow i w)
    · exact absurd he (hnobody k e)
  cases op with
  | launch programs =>
    refine hcleared hop ?_ ?_ <;> simp only [step, launch, resetQueues] <;> split <;> rfl
  | reset => exact hcleared hop rfl rfl
  | stop => exact hquiet (fun _ _ h => h) (fun _ _ h => h) fun t _ => by simp [changes, Change.Disturbs]
  | register pid runtimeToken entryToken frame tlsBase =>
    exact hquiet (fun _ _ h => h) (fun _ _ h => h) fun t _ => quiet_madeBy pid frame tlsBase _
  | setCurrentFsBase fsBase =>
    refine hquiet (fun _ _ h => h) (fun _ _ h => h) fun t _ => ?_
    simp only [changes]
    cases s.queue.currentTaskId with
    | none => simp
    | some u => exact quiet_onSuccess (e := .fsSet u fsBase) id _
  | block u => exact hquiet (fun _ _ h => h) (fun _ _ h => h) fun t _ => quiet_onSuccess (e := .blocked u) id _
  | wake u result =>
    refine hquiet (fun _ _ h => h) (fun _ _ h => h) fun t ht => quiet_onSuccess (e := .woken u result) ?_ _
    rintro rfl
    exact hop ht
  | replay u =>
    refine hquiet (fun _ _ h => h) (fun _ _ h => h) fun t ht => quiet_onSuccess (e := .replayed u) ?_ _
    rintro rfl
    exact hop ht
  | nanosleep c =>
    have h := s.parks_nanosleep c
    exact parked_enters hs h.enters h.waiters_eq (blocks_keep h.blocks)
  | futex c =>
    by_cases hwakes : c.Accepted ∧ c.command = 1
    · simp only [step, s.futex_wake hwakes]
      exact (wakes_futexWake c.key c.userAddress c.wakeLimit _ (nodup_finRange _) 0 s hs hhealthy).2.2
    · by_cases hwaits : ∃ t ticks, s.WaitsFor c t ticks
      · obtain ⟨t, ticks, hc⟩ := hwaits
        exact parked_futexWait hs hhealthy hc (hop t ticks hc)
      · have hidle := futex_idle c hwakes fun t ticks hc => hwaits ⟨t, ticks, hc⟩
        simp only [step]
        rwa [hidle]
  | futexWakeKey key address wakeLimit =>
    exact (wakes_futexWake key address wakeLimit _ (nodup_finRange _) 0 s hs hhealthy).2.2
  | releaseFutexWaiters pid =>
    refine hquiet ?_ ?_ fun t _ => by simp [changes]
    · intro i w hw
      exact (filter_eq_some_iff.1 hw).1
    · intro k e he
      exact (filter_eq_some_iff.1 he).1
  | wait c =>
    have h := s.parks_waitBlockCurrent c
    exact parked_enters hs h.enters h.waiters_eq (blocks_keep h.blocks)
  | waitWake u =>
    refine hquiet (fun _ _ h => h) (fun k e he => (filter_eq_some_iff.1 he).1) fun t ht =>
      quiet_onSuccess (e := .woken u 0) ?_ _
    rintro rfl
    rcases ht with ⟨i, w, hw, heq⟩ | ⟨k, e, he, heq⟩
    · exact hop i w hw heq
    · have hne := (filter_eq_some_iff.1 he).2
      simp [heq] at hne
  | blockedSyscall frame => exact hquiet (fun _ _ h => h) (fun _ _ h => h) fun t _ => quiet_onBlockedSyscallChanges _ frame
  | timer frame => exact parked_timer hs hhealthy frame
  | exit frame result =>
    refine hquiet (fun _ _ h => h) (fun _ _ h => h) fun t ht => quiet_onExitChanges ?_ frame result
    intro hcurrent
    exact hs.not_registered (hop t hcurrent) ht
  | tick ticks => exact hquiet (fun _ _ h => h) (fun _ _ h => h) fun t _ => by simp [changes]

theorem parked_boot : boot.Parked ∧ boot.Healthy := by
  have hnobody : ∀ t, ¬ boot.Registered t := by
    rintro t (⟨i, w, hw, -⟩ | ⟨k, e, he, -⟩)
    · cases hw
    · cases he
  refine ⟨⟨fun t ht => absurd ht (hnobody t), ?_, ?_, ?_⟩, false, .of_inactive rfl, ?_⟩
  · intro i j w w' hw
    cases hw
  · intro i j e e' he
    cases he
  · intro i w k e hw
    cases hw
  · intro t halive
    simp [boot, schedule, scheduleAt, reset, Task.Alive, Task.clear] at halive

/-- `FUTEX_WAKE` has woken as many waiters for the word as it may: they were blocked, they are different tasks, their calls return
0, and nothing else has happened to a task. -/
def WakesExactly (s : System) (key address : UInt64) (wakeLimit : Nat) (woken : Nat × System) : Prop :=
  woken.1 = min wakeLimit (s.waitersOn key address (List.finRange _)).length ∧
    ((s.waitersOn key address (List.finRange _)).map Waiter.taskId).Nodup ∧
    (∀ w ∈ s.waitersOn key address (List.finRange _), (s.queue.tasks w.taskId).state = .blocked) ∧
    s.Wakes ((s.waitersOn key address (List.finRange _)).take wakeLimit) woken.2

/-- What the two commands are for. -/
def FutexWorks (s : System) (c : FutexCall) : Prop :=
  (∀ t ticks, s.WaitsFor c t ticks → (s.futex c).1 = 0 ∧ Waiting (s.futex c).2 t c.key c.userAddress) ∧
    (c.Accepted → c.command = 1 → ∃ woken, s.WakesExactly c.key c.userAddress c.wakeLimit (woken, (s.futex c).2) ∧
      (s.futex c).1 = UInt64.ofNat woken)

theorem wakesExactly_of_parked (hs : s.Parked) (hhealthy : s.Healthy) (key address : UInt64) (wakeLimit : Nat) :
    s.WakesExactly key address wakeLimit (s.futexWakeKey key address wakeLimit) := by
  obtain ⟨hcount, hwakes, -⟩ := wakes_futexWake key address wakeLimit _ (nodup_finRange _) 0 s hs hhealthy
  refine ⟨by simpa [futexWakeKey] using hcount, ?_, ?_, by simpa [futexWakeKey] using hwakes⟩
  · rw [waitersOn, map_filterMap]
    apply (nodup_finRange _).filterMap
    intro i j t hi hj
    obtain ⟨w, hw, rfl⟩ := map_eq_some_iff.1 hi
    obtain ⟨w', hw', heq⟩ := map_eq_some_iff.1 hj
    exact hs.distinct i j w w' (filter_eq_some_iff.1 hw).1 (filter_eq_some_iff.1 hw').1 heq.symm
  · intro w hw
    obtain ⟨i, -, hi, -⟩ := mem_waitersOn.1 hw
    exact hs.blocked w.taskId (.inl ⟨i, w, hi, rfl⟩)

/-- In every run that leaves the waiters alone, every wait that is made blocks and every wakeup wakes as many waiters as it
may. -/
theorem futex_of_run (ops : List Op) (h : Meets step Undisturbed boot ops) (before after : List Op) (c : FutexCall)
    (hops : ops = before ++ .futex c :: after) : (run before).FutexWorks c := by
  rw [hops, Meets.append] at h
  obtain ⟨hbefore, hwait, -⟩ := h
  obtain ⟨hs, hhealthy⟩ : (run before).Parked ∧ (run before).Healthy := Meets.invariant parked_step hbefore parked_boot
  have hwait' : ∀ t ticks, (run before).WaitsFor c t ticks → (run before).CanWait c t ticks := hwait
  constructor
  · intro t ticks hc
    obtain ⟨ended, -, hsound⟩ := hhealthy
    rcases futexWait_cases hsound hc.current hc.running hc.waits hc.pid with
      ⟨-, hresult, htasks, i, -, hwaiters, -⟩ | ⟨hcannot, -, -⟩
    · refine ⟨hresult, ?_, i, c.waiter t ticks, ?_, rfl, ?_⟩
      · rw [htasks, update_self]
      · rw [hwaiters]
        exact update_self ..
      · simp [Waiter.on, FutexCall.waiter]
    · exact absurd (hwait' t ticks hc) hcannot
  · intro haccepted hcommand
    rw [futex_wake _ ⟨haccepted, hcommand⟩]
    exact ⟨_, wakesExactly_of_parked hs hhealthy c.key c.userAddress c.wakeLimit, rfl⟩

/-- Two threads of the process 2 are launched; the first waits for the word. -/
def oneWaiterRun : List Op := [.launch [program 2, program 2], .futex plainWait, .blockedSyscall userFrame]

/-- The second thread wakes up to five waiters for the word. -/
def plainWake : FutexCall := ⟨2, true, 0, 0x1000, 1, 5, some 7, none, 100⟩

/-- No call of the run disturbs the waiter. -/
theorem oneWaiterRun_undisturbed : Meets step Undisturbed boot (oneWaiterRun ++ [.futex plainWake]) := by
  refine ⟨fun i => rfl, ?_, trivial, ?_, trivial⟩
  · intro t ticks hc
    have ht : some (taskIn 0) = some t := hc.current
    obtain rfl := some.inj ht
    exact ⟨by decide +kernel, ⟨⟨0, by decide⟩, rfl⟩, ⟨taskIn 1, by decide, by decide +kernel⟩, fun _ =>
      ⟨⟨taskIn 1, by decide, by decide +kernel⟩, ⟨taskIn 0, rfl⟩, by decide +kernel⟩⟩
  · intro t ticks hc
    have hcommand := hc.waits.2.1
    exact absurd hcommand (by decide)

theorem futex_of_run_wake : (run oneWaiterRun).FutexWorks plainWake :=
  futex_of_run (oneWaiterRun ++ [.futex plainWake]) oneWaiterRun_undisturbed oneWaiterRun [] plainWake rfl

/-- The first thread waits for a word. The second one runs and makes the same wait: it gets EINVAL and does not block. -/
theorem second_waiter_refused :
    (run oneWaiterRun).WaitsFor plainWait (taskIn 1) none ∧ ((run oneWaiterRun).futex plainWait).1 = errorReturn einval ∧
      (((run oneWaiterRun).futex plainWait).2.queue.tasks (taskIn 1)).state = .running :=
  ⟨⟨by decide +kernel, by decide +kernel, by decide +kernel, plainWait_waits⟩, by decide +kernel, by decide +kernel⟩

end System

end LimitlessOS.Sched
