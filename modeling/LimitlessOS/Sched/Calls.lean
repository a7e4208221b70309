/-
  LimitlessOS.Sched.Calls — the calls that put a task to sleep, as changes of the run queue.

  Proved:
  - `parks_nanosleep`, `parks_futexWait`, `parks_waitBlockCurrent`: the calls can only block the running task and enter
    it in the sleep queue.
  - `trace_futexWake`: `FUTEX_WAKE` wakes tasks with the result 0.
  - `trace_launch`: a launch makes the tasks of its programs and dispatches the first.
  - `trace_step`, `trace_run`: a call, and a run, makes the changes that it reports.
-/
import LimitlessOS.Sched.Changes
import LimitlessOS.Sched.System

namespace LimitlessOS.Sched

open Function Lib Signal Schedule Trace Option

namespace System

variable {s : System} {ended : Bool} {c : FutexCall} {q : Runqueue}

/-- The running task blocks, or it does not. -/
def blockChanges (q q' : Runqueue) : List Change :=
  match q.currentTaskId with
  | none => []
  | some t => if (q.tasks t).state ≠ .blocked ∧ (q'.tasks t).state = .blocked then [.blocked t] else []

/-- The call has blocked the running task, or left the tasks as they are. -/
inductive Blocks (q : Runqueue) : Runqueue → Prop
  | unchanged : Blocks q q
  | tried (t : TaskId) (h : q.currentTaskId = some t) : Blocks q (q.blockTask t).2

namespace Blocks

variable {q q' : Runqueue} {ended : Bool}

theorem hasCurrent (h : Blocks q q') (hq : q.HasCurrent ended) : q'.HasCurrent ended := by
  cases h with
  | unchanged => exact hq
  | tried t _ => exact Runqueue.hasCurrent_blockTask hq t

theorem trace (h : Blocks q q') (ended : Bool) : Trace Next (q.schedule ended) (blockChanges q q') (q'.schedule ended) := by
  unfold blockChanges
  cases h with
  | unchanged =>
    rcases ht : q.currentTaskId with _ | t
    · exact rfl
    simp only
    rw [if_neg]
    · exact rfl
    · intro h
      exact h.1 h.2
  | tried t ht =>
    rw [ht]
    have htrace : Trace Next (q.schedule ended) (Runqueue.onSuccess (.blocked t) (q.blockTask t).1)
        ((q.blockTask t).2.schedule ended) := q.trace_blockTask t
    rcases q.blockTask_cases t with ⟨hno, htasks⟩ | ⟨hyes, -, -, hstate, htasks⟩
    · simp only [htasks]
      rw [if_neg fun h => h.1 h.2]
      rwa [hno] at htrace
    · simp only [htasks, update_self]
      rw [if_pos ⟨by rcases hstate with h | h <;> simp [h], trivial⟩]
      rwa [hyes] at htrace

end Blocks

/-- The entry of a task that goes to sleep now. -/
def sleepEntry (s : System) (t : TaskId) (ticks : UInt32) (resumeRax : UInt64) (waiter : Option (Fin futexWaiterLimit)) :
    SleepEntry where
  taskId := t
  startTick := s.pitGetTicks
  wakeTick := s.pitGetTicks + ticks
  requestedTicks := ticks
  resumeRax := resumeRax
  waiter := waiter

/-- What a call does that may put the running task to sleep: nothing, it blocks the task, or it enters it in the sleep
queue, too. -/
inductive Parks (s : System) (waiters : Fin futexWaiterLimit → Option Waiter) (request : Option Request) (frequency : UInt32) :
    System → Prop
  | nothing : Parks s waiters request frequency { s with waiters }
  | tried (t : TaskId) (ht : s.queue.currentTaskId = some t) :
      Parks s waiters request frequency { s with queue := (s.queue.blockTask t).2, waiters }
  | slept (t : TaskId) (i : Fin runqueueTaskLimit) (r : Request) (ticks : UInt32) (resumeRax : UInt64)
      (waiter : Option (Fin futexWaiterLimit)) (ht : s.queue.currentTaskId = some t)
      (hrunning : s.queue.taskState t = .running) (hnot : s.sleepTaskPending t = false) (hr : request = some r)
      (hticks : r.ticks frequency = some ticks) (hblock : (s.queue.blockTask t).1 = true) :
      Parks s waiters request frequency
        { s with
          queue := (s.queue.blockTask t).2
          sleepQueue := Keyed.put s.sleepQueue i (s.sleepEntry t ticks resumeRax waiter)
          waiters }

section Parks

variable {s' : System} {waiters : Fin futexWaiterLimit → Option Waiter} {request : Option Request} {frequency ticks : UInt32}

theorem Parks.blocks (h : s.Parks waiters request frequency s') : Blocks s.queue s'.queue := by
  cases h with
  | nothing => exact .unchanged
  | tried t ht => exact .tried t ht
  | slept t _ _ _ _ _ ht => exact .tried t ht

theorem Parks.waiters_eq (h : s.Parks waiters request frequency s') : s'.waiters = waiters := by
  cases h <;> rfl

theorem parks_sleepStart (s : System) (waiters : Fin futexWaiterLimit → Option Waiter) {r : Request}
    (hticks : r.ticks frequency = some ticks) (resumeRax : UInt64) (waiter : Option (Fin futexWaiterLimit)) :
    s.Parks waiters (some r) frequency (sleepStartCurrentTask { s with waiters } ticks resumeRax waiter).2 := by
  unfold sleepStartCurrentTask
  split_ifs
  · exact .nothing
  rcases ht : s.queue.currentTaskId with _ | t
  · exact .nothing
  rcases hfree : Keyed.free s.sleepQueue with _ | i
  · exact .nothing
  simp only
  split_ifs with hno
  · exact .nothing
  rw [not_or, not_not] at hno
  have htried : s.Parks waiters (some r) frequency { s with queue := (s.queue.blockTask t).2, waiters } := .tried t ht
  have hnot : s.sleepTaskPending t = false := Bool.eq_false_iff.2 hno.2
  have hslept : (s.queue.blockTask t).1 → s.Parks waiters (some r) frequency
      { s with
        queue := (s.queue.blockTask t).2
        sleepQueue := Keyed.put s.sleepQueue i (s.sleepEntry t ticks resumeRax waiter)
        waiters } := .slept t i r ticks resumeRax waiter ht hno.1 hnot rfl hticks
  rcases hblock : s.queue.blockTask t with ⟨blocked, queue⟩
  rw [hblock] at htried hslept
  cases blocked with
  | false => exact htried
  | true => exact hslept rfl

theorem parks_nanosleep (s : System) (c : NanosleepCall) :
    s.Parks s.waiters (c.request.map .timespec) c.frequency (s.nanosleep c).2.2 := by
  unfold nanosleep
  split_ifs
  · exact .nothing
  rcases c.request with _ | request
  · exact .nothing
  simp only
  split_ifs with hvalid
  · exact .nothing
  rcases hto : request.toTicks (effectiveTickFrequency c.frequency) with _ | ticks
  · exact .nothing
  have hticks : (Request.timespec request).ticks c.frequency = some ticks := by
    rw [Request.ticks, if_pos (by simpa using hvalid), hto]
  have h : s.Parks s.waiters (some (.timespec request)) c.frequency (s.sleepForTicks ticks c.spun).2.2 := by
    unfold sleepForTicks
    split_ifs
    · exact .nothing
    cases s.queue.currentTaskId with
    | none => exact .nothing
    | some t => exact s.parks_sleepStart s.waiters hticks 0 none
  simp only [map_some]
  rcases hr : s.sleepForTicks ticks c.spun with ⟨ok, r⟩
  rw [hr] at h
  cases ok with
  | true => exact h
  | false =>
    cases c.remain with
    | none => exact h
    | some writable => cases writable <;> exact h

/-- The ticks of a timed wait are those of its timeout. -/
theorem FutexCall.ticks_of_timeoutTicks {c : FutexCall} (h : c.timeoutTicks = .ok (some ticks)) :
    ∃ request, c.timeout.join = some request ∧ (Request.timespec request).ticks c.frequency = some ticks := by
  unfold timeoutTicks at h
  rcases htimeout : c.timeout with _ | readable
  · rw [htimeout] at h; cases h
  rw [htimeout] at h
  rcases readable with _ | request
  · cases h
  simp only at h
  by_cases hvalid : request.isValid
  · refine ⟨request, rfl, ?_⟩
    rw [Request.ticks, if_pos hvalid]
    rw [if_neg (by simp [hvalid])] at h
    rcases hto : request.toTicks (effectiveTickFrequency c.frequency) with _ | ticks'
    · rw [hto] at h; cases h
    rw [hto] at h
    exact Except.ok.inj h
  · rw [if_pos (by simp [hvalid])] at h
    cases h

/-- `FUTEX_WAIT` answers at once, or it enters the running task. -/
theorem futexWait_state (s : System) (c : FutexCall) :
    (s.futexWait c).2 = s ∨ ∃ ticks t i, c.word = some c.value.toUInt32 ∧ c.timeoutTicks = .ok ticks ∧ ticks ≠ some 0 ∧
      s.queue.currentTaskId = some t ∧ s.queue.taskPid t = c.pid ∧ s.queue.taskState t = .running ∧
      s.futexWait c = s.futexBlock c t c.value.toUInt32 ticks i := by
  unfold futexWait
  rcases c.word with _ | word
  · exact .inl rfl
  cases c.timeoutTicks with
  | error code => exact .inl rfl
  | ok ticks =>
    simp only
    split_ifs with hvalue hticks
    · exact .inl rfl
    · exact .inl rfl
    · exact .inl rfl
    rcases s.queue.currentTaskId with _ | t
    · exact .inl rfl
    simp only
    split_ifs with hcaller
    · exact .inl rfl
    rw [not_or, not_not, not_not] at hcaller
    rcases Keyed.free s.waiters with _ | i
    · exact .inl rfl
    obtain rfl := not_not.1 hvalue
    exact .inr ⟨ticks, t, i, rfl, rfl, hticks, rfl, hcaller.1, hcaller.2, rfl⟩

theorem parks_futexWait (s : System) (c : FutexCall) :
    ∃ waiters, s.Parks waiters (c.timeout.join.map .timespec) c.frequency (s.futexWait c).2 := by
  rcases s.futexWait_state c with heq | ⟨ticks, t, i, -, htimeout, -, ht, -, -, heq⟩
  · rw [heq]
    exact ⟨s.waiters, .nothing⟩
  rw [heq]
  unfold futexBlock
  cases ticks with
  | none =>
    have htried : ∀ waiters, s.Parks waiters (c.timeout.join.map .timespec) c.frequency
        { s with queue := (s.queue.blockTask t).2, waiters } := fun _ => .tried t ht
    rcases hblock : s.queue.blockTask t with ⟨ok, queue⟩
    rw [hblock] at htried
    cases ok <;> exact ⟨_, htried _⟩
  | some ticks =>
    obtain ⟨request, hrequest, hticks⟩ := FutexCall.ticks_of_timeoutTicks htimeout
    rw [hrequest, map_some]
    simp only
    generalize Keyed.put s.waiters i _ = waiters
    have h := s.parks_sleepStart waiters hticks (errorReturn etimedout) (some i)
    rcases hr : sleepStartCurrentTask { s with waiters } ticks (errorReturn etimedout) (some i) with ⟨ok, s'⟩
    rw [hr] at h
    cases ok with
    | true => exact ⟨waiters, h⟩
    | false =>
      refine ⟨s.waiters, ?_⟩
      cases h with
      | nothing => exact .nothing
      | tried t ht => exact .tried t ht
      | slept t j r ticks rax waiter ht hrunning hnot hrequest hticks hblock =>
        exact .slept t j r ticks rax waiter ht hrunning hnot hrequest hticks hblock

theorem WaitCall.ticks_of_timeoutTicks {c : WaitCall} (h : c.timeoutTicks = .ok (some ticks)) :
    ∃ timeout, c.timeout = some timeout ∧ (Request.windows timeout).ticks c.frequency = some ticks := by
  unfold timeoutTicks at h
  rcases htimeout : c.timeout with _ | timeout
  · rw [htimeout] at h; cases h
  rw [htimeout] at h
  simp only at h
  split_ifs at h
  · cases h
  refine ⟨timeout, rfl, ?_⟩
  rw [Request.ticks]
  cases hto : relativeTimeoutToTicks timeout c.frequency with
  | error status => rw [hto] at h; cases h
  | ok ticks' =>
    rw [hto] at h
    exact Except.ok.inj h

theorem parks_waitBlockCurrent (s : System) (c : WaitCall) :
    s.Parks s.waiters (c.timeout.map .windows) c.frequency (s.waitBlockCurrent c).2 := by
  unfold waitBlockCurrent
  cases htimeout : c.timeoutTicks with
  | error status => exact .nothing
  | ok ticks =>
    simp only
    split_ifs
    · exact .nothing
    rcases ht : s.queue.currentTaskId with _ | t
    · exact .nothing
    simp only
    split_ifs
    · exact .nothing
    cases ticks with
    | none =>
      have htried : s.Parks s.waiters (c.timeout.map .windows) c.frequency { s with queue := (s.queue.blockTask t).2 } :=
        .tried t ht
      rcases hblock : s.queue.blockTask t with ⟨ok, queue⟩
      rw [hblock] at htried
      cases ok <;> exact htried
    | some ticks =>
      obtain ⟨timeout, hrequest, hticks⟩ := WaitCall.ticks_of_timeoutTicks htimeout
      rw [hrequest, map_some]
      have h := s.parks_sleepStart s.waiters hticks statusTimeout none
      simp only
      rcases hr : s.sleepStartCurrentTask ticks statusTimeout none with ⟨ok, s'⟩
      rw [hr] at h
      cases ok <;> exact h

end Parks

/-! ## Futex wakeups -/

def futexWakeSlotChanges (key address : UInt64) (wakeLimit : Nat) (counted : Nat × System) (i : Fin futexWaiterLimit) :
    List Change :=
  if wakeLimit ≤ counted.1 then []
  else
    match counted.2.waiters i with
    | none => []
    | some w =>
      if !w.on key address then []
      else Runqueue.onSuccess (.woken w.taskId 0) (counted.2.queue.wakeTaskWithResult w.taskId 0).1

/-- What the loop of the wakeup does with one slot. -/
theorem futexWakeSlot_cases (key address : UInt64) (wakeLimit count : Nat) (s : System) (i : Fin futexWaiterLimit) :
    futexWakeSlot key address wakeLimit (count, s) i = (count, s) ∧
        (wakeLimit ≤ count ∨ ∀ w, s.waiters i = some w → w.on key address = false) ∨
      ∃ w, s.waiters i = some w ∧ w.on key address ∧ count < wakeLimit ∧
        (futexWakeSlot key address wakeLimit (count, s) i).2.queue = (s.queue.wakeTaskWithResult w.taskId 0).2 := by
  unfold futexWakeSlot
  simp only
  split_ifs with hlimit
  · exact .inl ⟨rfl, .inl hlimit⟩
  rcases hw : s.waiters i with _ | w
  · exact .inl ⟨rfl, .inr fun w h => by cases h⟩
  simp only
  split
  · rename_i hon
    refine .inl ⟨rfl, .inr ?_⟩
    intro w' h
    obtain rfl := some.inj h
    simpa using hon
  rename_i hon
  refine .inr ⟨w, rfl, by simpa using hon, Nat.lt_of_not_le hlimit, ?_⟩
  have hqueue : (if w.timed then s.sleepCancelTask w.taskId else s).queue = s.queue := by split_ifs <;> rfl
  rw [hqueue]
  rcases s.queue.wakeTaskWithResult w.taskId 0 with ⟨ok, queue⟩
  cases ok with
  | true => rfl
  | false =>
    simp only
    split_ifs <;> rfl

theorem trace_futexWakeSlot (key address : UInt64) (wakeLimit : Nat) {counted : Nat × System}
    (hs : counted.2.queue.HasCurrent ended) (i : Fin futexWaiterLimit) :
    Trace Next (counted.2.queue.schedule ended) (futexWakeSlotChanges key address wakeLimit counted i)
        ((futexWakeSlot key address wakeLimit counted i).2.queue.schedule ended) ∧
      (futexWakeSlot key address wakeLimit counted i).2.queue.HasCurrent ended := by
  obtain ⟨count, s⟩ := counted
  unfold futexWakeSlotChanges
  rcases futexWakeSlot_cases key address wakeLimit count s i with ⟨heq, hno⟩ | ⟨w, hw, hon, hlimit, hqueue⟩
  · rw [heq]
    refine ⟨?_, hs⟩
    rcases hno with hlimit | hnone
    · rw [if_pos hlimit]
      exact rfl
    split_ifs
    · exact rfl
    rcases hw : s.waiters i with _ | w
    · exact rfl
    simp only [hnone w hw, Bool.not_false, if_true]
    exact rfl
  · rw [hqueue, if_neg (Nat.not_le.2 hlimit)]
    simp only [hw, hon, Bool.not_true, Bool.false_eq_true, if_false]
    exact Runqueue.wake_traced hs w.taskId 0

def futexWakeChanges (key address : UInt64) (wakeLimit : Nat) : Nat × System → List (Fin futexWaiterLimit) → List Change
  | _, [] => []
  | counted, i :: rest =>
    futexWakeSlotChanges key address wakeLimit counted i ++
      futexWakeChanges key address wakeLimit (futexWakeSlot key address wakeLimit counted i) rest

theorem trace_futexWake (key address : UInt64) (wakeLimit : Nat) (counted : Nat × System)
    (hs : counted.2.queue.HasCurrent ended) (slots : List (Fin futexWaiterLimit)) :
    Trace Next (counted.2.queue.schedule ended) (futexWakeChanges key address wakeLimit counted slots)
        ((slots.foldl (futexWakeSlot key address wakeLimit) counted).2.queue.schedule ended) ∧
      (slots.foldl (futexWakeSlot key address wakeLimit) counted).2.queue.HasCurrent ended := by
  induction slots generalizing counted with
  | nil => exact ⟨rfl, hs⟩
  | cons i rest ih =>
    obtain ⟨hslot, hcurrent⟩ := trace_futexWakeSlot key address wakeLimit hs i
    obtain ⟨hrest, hcurrent⟩ := ih _ hcurrent
    exact ⟨append.2 ⟨_, hslot, hrest⟩, hcurrent⟩

/-! ## Launch -/

def Program.frame (p : Program) : Frame := Runqueue.prepareUserFrame p.rip p.rsp p.selectors p.rflags

def registerChanges (q : Runqueue) : List Program → List Change
  | [] => []
  | p :: rest =>
    let r := q.registerProcessTask p.pid p.runtimeToken p.entryToken p.rip p.rsp p.selectors p.rflags
    Runqueue.madeBy p.pid p.frame 0 r.1 ++ registerChanges r.2 rest

/-- The launcher enters the first program with the frame that it has registered. -/
def launchChanges (programs : List Program) : List Change :=
  .cleared :: (registerChanges .reset programs ++
    match registerPrograms .reset programs, programs with
    | (some (first :: _), queue), p :: _ =>
      Runqueue.onSuccess (.dispatched first p.frame (queue.start first).2.fsBase) (queue.start first).1
    | _, _ => [])

theorem registerPrograms_rest (q : Runqueue) (programs : List Program) :
    (registerPrograms q programs).2.active = q.active ∧
      ∀ t, (q.tasks t).state = .ready → t.val < q.taskCount →
        (registerPrograms q programs).2.tasks t = q.tasks t ∧ t.val < (registerPrograms q programs).2.taskCount := by
  induction programs generalizing q with
  | nil => exact ⟨rfl, fun t _ h => ⟨rfl, h⟩⟩
  | cons p rest ih =>
    rcases hp : q.registerProcessTask p.pid p.runtimeToken p.entryToken p.rip p.rsp p.selectors p.rflags with ⟨made, q1⟩
    simp only [registerPrograms, hp]
    obtain ⟨hactive, hkept⟩ := Runqueue.registerProcessTask_rest hp
    obtain ⟨hactive', hkept'⟩ := ih q1
    refine ⟨hactive'.trans hactive, ?_⟩
    intro t hready hlt
    obtain ⟨heq, hlt'⟩ := hkept t hready hlt
    obtain ⟨heq', hlt''⟩ := hkept' t (by rw [heq, hready]) hlt'
    exact ⟨heq'.trans heq, hlt''⟩

theorem trace_registerPrograms (hinactive : q.active = false) (programs : List Program) :
    Trace Next (q.schedule ended) (registerChanges q programs) ((registerPrograms q programs).2.schedule ended) := by
  induction programs generalizing q with
  | nil => exact rfl
  | cons p rest ih =>
    refine append.2 ⟨_, Runqueue.trace_registerProcessTask (Prod.eta _).symm (.of_inactive hinactive), ih ?_⟩
    exact (Runqueue.registerProcessTask_rest (Prod.eta _).symm).1.trans hinactive

/-- The first of the programs that have been registered is ready, with its frame. -/
theorem registerPrograms_first {q q' : Runqueue} {p : Program} {rest : List Program} {first : TaskId} {others : List TaskId}
    (h : registerPrograms q (p :: rest) = (some (first :: others), q')) :
    first.val < q'.taskCount ∧ (q'.tasks first).state = .ready ∧ (q'.tasks first).frame = p.frame := by
  rcases hp : q.registerProcessTask p.pid p.runtimeToken p.entryToken p.rip p.rsp p.selectors p.rflags with ⟨made, q1⟩
  simp only [registerPrograms, hp, Prod.mk.injEq, bind_eq_some_iff, map_eq_some_iff, List.cons.injEq] at h
  obtain ⟨⟨t, rfl, ts, -, rfl, -⟩, rfl⟩ := h
  obtain ⟨hlt, hready, hframe⟩ := Runqueue.registerProcessTask_some hp rfl
  obtain ⟨heq, hlt'⟩ := (registerPrograms_rest q1 rest).2 t hready hlt
  rw [heq]
  exact ⟨hlt', hready, hframe⟩

theorem trace_launch (s : System) (programs : List Program) :
    Trace Next (s.queue.schedule ended) (launchChanges programs) ((s.launch programs).queue.schedule false) ∧
      (s.launch programs).queue.HasCurrent false := by
  have hcleared : Trace Next (s.queue.schedule ended) [.cleared] (Runqueue.reset.schedule false) := one.2 ⟨trivial, rfl⟩
  have hmade := append.2 ⟨_, hcleared, trace_registerPrograms (q := .reset) rfl programs⟩
  have hinactive : (registerPrograms .reset programs).2.active = false := (registerPrograms_rest .reset programs).1
  unfold launchChanges launch
  simp only [resetQueues]
  rcases hr : registerPrograms .reset programs with ⟨tasks, queue⟩
  rw [hr] at hmade hinactive
  rcases tasks with _ | tasks
  · exact ⟨by simpa using hmade, .of_inactive hinactive⟩
  cases tasks with
  | nil => exact ⟨by simpa using hmade, .of_inactive hinactive⟩
  | cons first others =>
    cases programs with
    | nil => cases hr
    | cons p rest =>
      obtain ⟨hlt, hready, hframe⟩ := registerPrograms_first hr
      obtain ⟨hok, hcurrent, htrace⟩ := Runqueue.trace_start hinactive hlt hready
      rw [hframe] at htrace
      simp only [hok, Runqueue.onSuccess, if_true]
      exact ⟨append.2 ⟨_, hmade, htrace⟩, hcurrent⟩

/-- The child starts with the TLS base that it is given. -/
theorem trace_registerChild (hq : q.HasCurrent ended) (pid runtimeToken entryToken : UInt32) (frame : Frame) (tlsBase : UInt64) :
    let r := registerChild q pid runtimeToken entryToken frame tlsBase
    Trace Next (q.schedule ended) (Runqueue.madeBy pid frame tlsBase r.1) (r.2.schedule ended) ∧ r.2.HasCurrent ended := by
  dsimp only
  unfold registerChild
  have hcurrent := Runqueue.hasCurrent_registerProcessFrame hq pid runtimeToken entryToken frame
  rcases q.registerProcessFrame_cases pid runtimeToken entryToken frame with
    heq | ⟨t, q', heq, hle, hfree, -, htasks, hcount, hactive, hcurrentTask⟩
  · rw [heq]
    exact ⟨rfl, hq⟩
  rw [heq] at hcurrent ⊢
  have hlt : t.val < q'.taskCount := by
    rw [hcount]
    split_ifs <;> omega
  have hat : q'.tasks t = { Task.clear with state := .ready, frameValid := true, pid, frame } := by
    rw [htasks, update_self]
  have hset := Runqueue.setTaskFsBase_ready hlt (by rw [hat]) (by rw [hat]) tlsBase
  simp only [hset]
  refine ⟨Runqueue.trace_made hq hle hfree ?_ hcount hactive hcurrentTask ?_, hcurrent.of_eq rfl rfl le_rfl⟩
  · show update q'.tasks t _ = _
    rw [hat, htasks, update_idem]
  · show q'.fsBase = q.fsBase
    rw [← q.registerProcessFrame_fsBase pid runtimeToken entryToken frame, heq]

/-! ## All calls -/

theorem onTimer_queue (s : System) (frame : Frame) :
    (s.onTimer frame).2.2.queue = (s.queue.onTimer frame (s.expired.map fun e => (e.taskId, e.resumeRax))).2.2 := by
  unfold onTimer Runqueue.onTimer
  rcases s.queue.currentTaskId with _ | t
  · rfl
  split_ifs <;> rfl

/-- The call gets as far as the command. -/
def FutexCall.Accepted (c : FutexCall) : Prop :=
  c.known = true ∧ c.futexOp &&& 0xFFFFFFFF &&& ~~~0xFF = 0 ∧ c.userAddress ≠ 0 ∧ c.userAddress &&& 3 = 0

instance (c : FutexCall) : Decidable c.Accepted := inferInstanceAs (Decidable (_ ∧ _ ∧ _ ∧ _))

theorem futex_eq (s : System) (c : FutexCall) :
    s.futex c = if c.Accepted then
        if c.command = 0 then s.futexWait c
        else if c.command = 1 then
          (UInt64.ofNat (s.futexWakeKey c.key c.userAddress c.wakeLimit).1, (s.futexWakeKey c.key c.userAddress c.wakeLimit).2)
        else (errorReturn einval, s)
      else (if c.known then errorReturn einval else errorReturn esrch, s) := by
  unfold futex FutexCall.Accepted
  by_cases hknown : c.known
  · by_cases hop : c.futexOp &&& 0xFFFFFFFF &&& ~~~0xFF = 0
    · by_cases haddress : c.userAddress = 0 ∨ c.userAddress &&& 3 ≠ 0
      · have hno : ¬ (c.userAddress ≠ 0 ∧ c.userAddress &&& 3 = 0) := by
          intro h
          rcases haddress with h0 | h3
          · exact h.1 h0
          · exact h3 h.2
        simp [hknown, hop, haddress, hno]
      · have hyes : c.userAddress ≠ 0 ∧ c.userAddress &&& 3 = 0 := by simpa [not_or] using haddress
        simp [hknown, hop, hyes]
    · simp [hknown, hop]
  · simp [hknown]

theorem futex_wake (s : System) (h : c.Accepted ∧ c.command = 1) :
    s.futex c =
      (UInt64.ofNat (s.futexWakeKey c.key c.userAddress c.wakeLimit).1,
        (s.futexWakeKey c.key c.userAddress c.wakeLimit).2) := by
  rw [futex_eq, if_pos h.1, if_neg (by simp [h.2]), if_pos h.2]

theorem futex_cases (s : System) (h : ¬ (c.Accepted ∧ c.command = 1)) :
    c.Accepted ∧ c.command = 0 ∧ s.futex c = s.futexWait c ∨ (s.futex c).2 = s := by
  rw [futex_eq]
  split_ifs with haccepted hwait hwake
  · exact .inl ⟨haccepted, hwait, rfl⟩
  · exact absurd ⟨haccepted, hwake⟩ h
  all_goals exact .inr rfl

/-- The changes that a call makes. -/
def changes (s : System) : Op → List Change
  | .launch programs => launchChanges programs
  | .reset => [.cleared]
  | .stop => [.halted]
  | .register pid runtimeToken entryToken frame tlsBase =>
    Runqueue.madeBy pid frame tlsBase (registerChild s.queue pid runtimeToken entryToken frame tlsBase).1
  | .setCurrentFsBase fsBase =>
    match s.queue.currentTaskId with
    | none => []
    | some t => Runqueue.onSuccess (.fsSet t fsBase) (s.queue.setTaskFsBase t fsBase).1
  | .block t => Runqueue.onSuccess (.blocked t) (s.queue.blockTask t).1
  | .wake t result => Runqueue.onSuccess (.woken t result) (s.queue.wakeTaskWithResult t result).1
  | .replay t => Runqueue.onSuccess (.replayed t) (s.queue.wakeTaskReplay t).1
  | .nanosleep c => blockChanges s.queue (s.nanosleep c).2.2.queue
  | .futex c =>
    if c.Accepted ∧ c.command = 1 then futexWakeChanges c.key c.userAddress c.wakeLimit (0, s) (List.finRange futexWaiterLimit)
    else blockChanges s.queue (s.futex c).2.queue
  | .futexWakeKey key address wakeLimit => futexWakeChanges key address wakeLimit (0, s) (List.finRange futexWaiterLimit)
  | .releaseFutexWaiters _ => []
  | .wait c => blockChanges s.queue (s.waitBlockCurrent c).2.queue
  | .waitWake t => Runqueue.onSuccess (.woken t 0) (s.queue.wakeTaskWithResult t 0).1
  | .blockedSyscall frame => s.queue.onBlockedSyscallChanges frame
  | .timer frame => s.queue.onTimerChanges frame (s.expired.map fun e => (e.taskId, e.resumeRax))
  | .exit frame result => s.queue.onExitChanges frame result
  | .tick _ => []

/-- A call makes the changes that it reports. -/
theorem trace_step (hs : s.queue.HasCurrent ended) (op : Op) :
    ∃ ended', Trace Next (s.queue.schedule ended) (s.changes op) ((s.step op).queue.schedule ended') ∧
      (s.step op).queue.HasCurrent ended' := by
  have hblocks : ∀ q', Blocks s.queue q' →
      ∃ ended', Trace Next (s.queue.schedule ended) (blockChanges s.queue q') (q'.schedule ended') ∧ q'.HasCurrent ended' :=
    fun q' h => ⟨ended, h.trace ended, h.hasCurrent hs⟩
  cases op with
  | launch programs => exact ⟨false, s.trace_launch programs⟩
  | reset => exact ⟨false, one.2 ⟨trivial, rfl⟩, .of_inactive rfl⟩
  | stop => exact ⟨true, one.2 ⟨trivial, rfl⟩, .of_inactive rfl⟩
  | register pid runtimeToken entryToken frame tlsBase =>
    exact ⟨ended, trace_registerChild hs pid runtimeToken entryToken frame tlsBase⟩
  | setCurrentFsBase fsBase =>
    simp only [changes, step, Runqueue.setCurrentFsBase]
    cases ht : s.queue.currentTaskId with
    | none => exact ⟨ended, rfl, hs⟩
    | some t => exact ⟨ended, Runqueue.trace_setCurrentFsBase ht fsBase, Runqueue.hasCurrent_setTaskFsBase hs t fsBase⟩
  | block t => exact ⟨ended, s.queue.trace_blockTask t, Runqueue.hasCurrent_blockTask hs t⟩
  | wake t result => exact ⟨ended, Runqueue.wake_traced hs t result⟩
  | replay t => exact ⟨ended, s.queue.trace_wakeTaskReplay t, Runqueue.hasCurrent_wakeTaskReplay hs t⟩
  | nanosleep c => exact hblocks _ (s.parks_nanosleep c).blocks
  | futex c =>
    simp only [changes, step]
    split
    · rename_i hwakes
      rw [s.futex_wake hwakes]
      exact ⟨ended, trace_futexWake _ _ _ (0, s) hs _⟩
    · rename_i hwakes
      rcases s.futex_cases hwakes with ⟨-, -, heq⟩ | heq <;> rw [heq]
      · obtain ⟨waiters, h⟩ := s.parks_futexWait c
        exact hblocks _ h.blocks
      · exact hblocks _ .unchanged
  | futexWakeKey key address wakeLimit => exact ⟨ended, trace_futexWake key address wakeLimit (0, s) hs _⟩
  | releaseFutexWaiters pid => exact ⟨ended, rfl, hs⟩
  | wait c => exact hblocks _ (s.parks_waitBlockCurrent c).blocks
  | waitWake t => exact ⟨ended, Runqueue.wake_traced hs t 0⟩
  | blockedSyscall frame => exact ⟨ended, Runqueue.trace_onBlockedSyscall hs frame⟩
  | timer frame =>
    simp only [changes, step, onTimer_queue]
    exact ⟨ended, Runqueue.trace_onTimer hs frame _⟩
  | exit frame result => exact Runqueue.trace_onExit hs frame result
  | tick ticks => exact ⟨ended, rfl, hs⟩

/-- The changes of a run, from the start. -/
def history (ops : List Op) : List Change := eventsOf changes step boot ops

theorem trace_eventsOf (hs : s.queue.HasCurrent ended) (ops : List Op) :
    ∃ ended', Trace Next (s.queue.schedule ended) (eventsOf changes step s ops) ((ops.foldl step s).queue.schedule ended') ∧
      (ops.foldl step s).queue.HasCurrent ended' := by
  induction ops generalizing s ended with
  | nil => exact ⟨ended, rfl, hs⟩
  | cons op ops ih =>
    obtain ⟨ended1, hstep, hs'⟩ := trace_step hs op
    obtain ⟨ended2, hrest, hend⟩ := ih hs'
    exact ⟨ended2, append.2 ⟨_, hstep, hrest⟩, hend⟩

theorem trace_run (ops : List Op) :
    ∃ ended, Trace Next (boot.queue.schedule false) (history ops) ((run ops).queue.schedule ended) ∧
      (run ops).queue.HasCurrent ended :=
  trace_eventsOf (s := boot) (.of_inactive rfl) ops

end System

end LimitlessOS.Sched
