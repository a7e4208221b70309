/-
  LimitlessOS.Sched.System — tasks that sleep and wait.

  Over the run queue: the sleep queue (`arch/x86_64/scheduler.c`), `nanosleep` and the
  waiters of `futex` (`arch/x86_64/linux_abi.c`), and the waits of Windows programs
  (`arch/x86_64/windows_abi.c`). The time is a natural number; the timer's counter shows
  it modulo 2^32.

  User memory, the persona checks, the objects a Windows program waits for and the records
  of their timeouts are the environment: a call carries what it finds there. No interrupt is
  taken inside a call, so a futex word is the same at both reads. A free slot of the waiter
  table has been cleared, with its `wake_pending`. Statistics are left out.
-/
import LimitlessOS.Sched.Runqueue
import LimitlessOS.Sched.Ticks
import LimitlessOS.Lib.KeyedSlots
import LimitlessOS.Signal.Delivery

namespace LimitlessOS.Sched

open Lib Signal

/-- `LINUX_ABI64_FUTEX_WAITER_LIMIT` -/
def futexWaiterLimit : Nat := 32

def enomem : UInt64 := 12
def etimedout : UInt64 := 110

/-- An active `scheduler64_sleep_entry`. -/
structure SleepEntry where
  taskId : TaskId
  startTick : UInt32
  wakeTick : UInt32
  requestedTicks : UInt32
  resumeRax : UInt64
  /-- The cookie of `linux_abi64_futex_timeout_callback`. -/
  waiter : Option (Fin futexWaiterLimit)

/-- An active `linux_abi64_futex_waiter_t`. -/
structure Waiter where
  pid : UInt32
  taskId : TaskId
  timed : Bool
  expectedValue : UInt32
  timeoutTicks : UInt32
  wakePending : Bool
  addressSpaceKey : UInt64
  userAddress : UInt64

namespace Waiter

/-- The waiter waits for the word. -/
def on (key address : UInt64) (w : Waiter) : Bool := w.addressSpaceKey = key && w.userAddress = address

end Waiter

structure System where
  queue : Runqueue
  sleepQueue : Fin runqueueTaskLimit → Option SleepEntry
  waiters : Fin futexWaiterLimit → Option Waiter
  /-- Ticks since the timer was started. -/
  clock : Nat

namespace Runqueue

/-- `task_state` -/
def taskState (q : Runqueue) (t : TaskId) : TaskState := if t.val < q.taskCount then (q.tasks t).state else .unused

/-- `task_pid` -/
def taskPid (q : Runqueue) (t : TaskId) : UInt32 := if t.val < q.taskCount then (q.tasks t).pid else 0

end Runqueue

namespace System

/-- `pit_get_ticks` -/
def pitGetTicks (s : System) : UInt32 := UInt32.ofNat s.clock

/-! ## The sleep queue -/

/-- `scheduler64_sleep_task_pending` -/
def sleepTaskPending (s : System) (t : TaskId) : Bool := (List.finRange _).any fun i => (s.sleepQueue i).any fun e => e.taskId = t

/-- `scheduler64_sleep_start_current_task` -/
def sleepStartCurrentTask (s : System) (requestedTicks : UInt32) (resumeRax : UInt64) (waiter : Option (Fin futexWaiterLimit)) :
    Bool × System :=
  if requestedTicks = 0 then (false, s)
  else
    match s.queue.currentTaskId with
    | none => (false, s)
    | some t =>
      match Keyed.free s.sleepQueue with
      | none => (false, s)
      | some i =>
        if s.queue.taskState t ≠ .running ∨ s.sleepTaskPending t then (false, s)
        else
          match s.queue.blockTask t with
          | (false, queue) => (false, { s with queue })
          | (true, queue) =>
            (true,
              { s with
                queue
                sleepQueue := Keyed.put s.sleepQueue i
                  { taskId := t
                    startTick := s.pitGetTicks
                    wakeTick := s.pitGetTicks + requestedTicks
                    requestedTicks
                    resumeRax
                    waiter } })

/-- `scheduler64_sleep_for_ticks`: whether it succeeds and `scheduler64_sleep_last_elapsed_ticks`. With no task the processor
spins, and `spun` ticks have passed when it gives up or is done. -/
def sleepForTicks (s : System) (requestedTicks spun : UInt32) : Bool × UInt32 × System :=
  if requestedTicks = 0 then (true, 0, s)
  else
    match s.queue.currentTaskId with
    | some _ =>
      match s.sleepStartCurrentTask requestedTicks 0 none with
      | (started, s) => (started, 0, s)
    | none => (requestedTicks ≤ spun, spun, s)

/-- `scheduler64_sleep_cancel_task` -/
def sleepCancelTask (s : System) (t : TaskId) : System :=
  { s with sleepQueue := fun i => (s.sleepQueue i).filter fun e => e.taskId ≠ t }

/-- The entries whose tick has been reached, in the order of the queue. -/
def expired (s : System) : List SleepEntry :=
  (List.finRange _).filterMap fun i => (s.sleepQueue i).filter fun e => sleepTickReached s.pitGetTicks e.wakeTick

/-- `linux_abi64_futex_timeout_callback` -/
def futexTimeoutCallback (waiters : Fin futexWaiterLimit → Option Waiter) (e : SleepEntry) :
    Fin futexWaiterLimit → Option Waiter :=
  match e.waiter with
  | none => waiters
  | some i => Function.update waiters i ((waiters i).filter fun w => !(w.taskId = e.taskId && w.timed))

/-- `scheduler64_runqueue_on_timer`, with `scheduler64_sleep_wake_expired` -/
def onTimer (s : System) (frame : Frame) : Bool × Frame × System :=
  match s.queue.currentTaskId with
  | none => (false, frame, s)
  | some _ =>
    if frame.cs &&& 3 ≠ 3 then (false, frame, s)
    else
      match s.queue.onTimer frame (s.expired.map fun e => (e.taskId, e.resumeRax)) with
      | (switched, frame, queue) =>
        (switched, frame,
          { s with
            queue
            sleepQueue := fun i => (s.sleepQueue i).filter fun e => !sleepTickReached s.pitGetTicks e.wakeTick
            waiters := s.expired.foldl futexTimeoutCallback s.waiters })

/-! ## nanosleep -/

structure NanosleepCall where
  /-- The process has a principal and is a Linux process. -/
  known : Bool
  /-- The request, if it can be read. -/
  request : Option Timespec
  /-- Whether the remaining time can be written, if there is a pointer for it. -/
  remain : Option Bool
  /-- `pit_get_frequency_hz` -/
  frequency : UInt32
  spun : UInt32

/-- `linux_abi64_sys_nanosleep`: the result and the remaining time, if it is written. -/
def nanosleep (s : System) (c : NanosleepCall) : UInt64 × Option Timespec × System :=
  if !c.known then (errorReturn esrch, none, s)
  else
    match c.request with
    | none => (errorReturn efault, none, s)
    | some request =>
      if !request.isValid then (errorReturn einval, none, s)
      else
        match request.toTicks (effectiveTickFrequency c.frequency) with
        | none => (errorReturn einval, none, s)
        | some requestedTicks =>
          match s.sleepForTicks requestedTicks c.spun with
          | (true, _, s) => (0, none, s)
          | (false, elapsedTicks, s) =>
            match c.remain with
            | none => (errorReturn eintr, none, s)
            | some false => (errorReturn efault, none, s)
            | some true =>
              let remainingTicks := if elapsedTicks < requestedTicks then requestedTicks - elapsedTicks else 0
              (errorReturn eintr, some (.ofTicks remainingTicks (effectiveTickFrequency c.frequency)), s)

/-! ## futex -/

/-- `linux_abi64_futex_address_space_key`, for the page root of the process -/
def futexAddressSpaceKey (root : UInt64) (pid : UInt32) : UInt64 :=
  if root ≠ 0 then root &&& 0xFFFFFFFFFFFFF000 else pid.toUInt64

/-- `linux_abi64_futex_waiter_for` -/
def futexWaiterFor (s : System) (key address : UInt64) : Option (Fin futexWaiterLimit) :=
  Slots.first s.waiters fun w => w.any (Waiter.on key address)

/-- The body of the loop of `linux_abi64_futex_wake_key`, with the number of tasks that have been woken. -/
def futexWakeSlot (key address : UInt64) (wakeLimit : Nat) (counted : Nat × System) (i : Fin futexWaiterLimit) : Nat × System :=
  let (wakeCount, s) := counted
  if wakeLimit ≤ wakeCount then (wakeCount, s)
  else
    match s.waiters i with
    | none => (wakeCount, s)
    | some w =>
      if !w.on key address then (wakeCount, s)
      else
        let s := if w.timed then s.sleepCancelTask w.taskId else s
        match s.queue.wakeTaskWithResult w.taskId 0 with
        | (true, queue) => (wakeCount + 1, { s with queue, waiters := Function.update s.waiters i none })
        | (false, queue) =>
          if queue.taskState w.taskId = .running ∨ queue.taskState w.taskId = .ready then
            (wakeCount + 1, { s with queue, waiters := Keyed.put s.waiters i { w with wakePending := true } })
          else (wakeCount, { s with queue, waiters := Function.update s.waiters i none })

/-- `linux_abi64_futex_wake_key` -/
def futexWakeKey (s : System) (key address : UInt64) (wakeLimit : Nat) : Nat × System :=
  (List.finRange futexWaiterLimit).foldl (futexWakeSlot key address wakeLimit) (0, s)

/-- `linux_abi64_release_futex_waiters` -/
def releaseFutexWaiters (s : System) (pid : UInt32) : System :=
  { s with
    waiters := fun i => (s.waiters i).filter fun w => w.pid ≠ pid
    sleepQueue := fun i => (s.sleepQueue i).filter fun e =>
      !(List.finRange _).any fun j => (s.waiters j).any fun w => w.pid = pid && w.timed && w.taskId = e.taskId }

structure FutexCall where
  pid : UInt32
  /-- The process has a principal and is a Linux process. -/
  known : Bool
  /-- `process64_page_root_physical` -/
  root : UInt64
  userAddress : UInt64
  futexOp : UInt64
  value : UInt64
  /-- The word, if it can be read. -/
  word : Option UInt32
  /-- The timeout, if there is a pointer to one; it may not be readable. -/
  timeout : Option (Option Timespec)
  frequency : UInt32

namespace FutexCall

def key (c : FutexCall) : UInt64 := futexAddressSpaceKey c.root c.pid

/-- `LINUX_ABI64_FUTEX_CMD_MASK` -/
def command (c : FutexCall) : UInt64 := c.futexOp &&& 0x7F

/-- How many tasks `FUTEX_WAKE` wakes at most. -/
def wakeLimit (c : FutexCall) : Nat := if c.value > 0xFFFFFFFF then 0xFFFFFFFF else c.value.toNat

/-- The ticks after which the wait times out, if it is timed, or an error. -/
def timeoutTicks (c : FutexCall) : Except UInt64 (Option UInt32) :=
  match c.timeout with
  | none => .ok none
  | some none => .error efault
  | some (some t) =>
    if !t.isValid then .error einval
    else
      match t.toTicks (effectiveTickFrequency c.frequency) with
      | none => .error einval
      | some ticks => .ok (some ticks)

end FutexCall

/-- The end of `FUTEX_WAIT`: the task is entered in the slot and blocks. -/
def futexBlock (s : System) (c : FutexCall) (t : TaskId) (word : UInt32) (ticks : Option UInt32) (i : Fin futexWaiterLimit) :
    UInt64 × System :=
  let waiters := Keyed.put s.waiters i
    { pid := c.pid
      taskId := t
      timed := ticks.isSome
      expectedValue := word
      timeoutTicks := ticks.getD 0
      wakePending := false
      addressSpaceKey := c.key
      userAddress := c.userAddress }
  match ticks with
  | some ticks =>
    match sleepStartCurrentTask { s with waiters } ticks (errorReturn etimedout) (some i) with
    | (true, s) => (0, s)
    | (false, s') => (errorReturn einval, { s' with waiters := s.waiters })
  | none =>
    match s.queue.blockTask t with
    | (true, queue) => (0, { s with queue, waiters })
    | (false, queue) => (errorReturn einval, { s with queue })

/-- `FUTEX_WAIT` of `linux_abi64_sys_futex` -/
def futexWait (s : System) (c : FutexCall) : UInt64 × System :=
  match c.word with
  | none => (errorReturn efault, s)
  | some word =>
    match c.timeoutTicks with
    | .error code => (errorReturn code, s)
    | .ok ticks =>
      if word ≠ c.value.toUInt32 then (errorReturn eagain, s)
      else if ticks = some 0 then (errorReturn etimedout, s)
      else if (s.futexWaiterFor c.key c.userAddress).isSome then (errorReturn einval, s)
      else
        match s.queue.currentTaskId with
        | none => (errorReturn einval, s)
        | some t =>
          if s.queue.taskPid t ≠ c.pid ∨ s.queue.taskState t ≠ .running then (errorReturn einval, s)
          else
            match Keyed.free s.waiters with
            | none => (errorReturn enomem, s)
            | some i => s.futexBlock c t word ticks i

/-- `linux_abi64_sys_futex` -/
def futex (s : System) (c : FutexCall) : UInt64 × System :=
  if !c.known then (errorReturn esrch, s)
  else if c.futexOp &&& 0xFFFFFFFF &&& ~~~0xFF ≠ 0 then (errorReturn einval, s)
  else if c.userAddress = 0 ∨ c.userAddress &&& 3 ≠ 0 then (errorReturn einval, s)
  else if c.command = 0 then s.futexWait c
  else if c.command = 1 then
    match s.futexWakeKey c.key c.userAddress c.wakeLimit with
    | (wakeCount, s) => (UInt64.ofNat wakeCount, s)
  else (errorReturn einval, s)

/-! ## Windows waits -/

structure WaitCall where
  pid : UInt32
  /-- The timeout, if there is a pointer to one. -/
  timeout : Option UInt64
  /-- A timeout record is free. -/
  recordFree : Bool
  /-- The object takes the task as the one that waits for it. -/
  armed : Bool
  frequency : UInt32

/-- `WINDOWS_ABI64_STATUS_TIMEOUT` -/
def statusTimeout : UInt64 := 0x102

/-- The ticks after which the wait times out, if it is timed; a timeout of 0 is none. -/
def WaitCall.timeoutTicks (c : WaitCall) : Except WaitStatus (Option UInt32) :=
  match c.timeout with
  | none => .ok none
  | some timeout => if timeout = 0 then .ok none else (relativeTimeoutToTicks timeout c.frequency).map some

/-- `windows_abi64_wait_block_current`: the status if it fails. -/
def waitBlockCurrent (s : System) (c : WaitCall) : Except WaitStatus TaskId × System :=
  match c.timeoutTicks with
  | .error status => (.error status, s)
  | .ok ticks =>
    if ticks.isSome ∧ !c.recordFree then (.error .noMemory, s)
    else
      match s.queue.currentTaskId with
      | none => (.error .invalidParameter, s)
      | some t =>
        if s.queue.taskPid t ≠ c.pid ∨ s.queue.taskState t ≠ .running ∨ !c.armed then (.error .invalidParameter, s)
        else
          match ticks with
          | some ticks =>
            match s.sleepStartCurrentTask ticks statusTimeout none with
            | (true, s) => (.ok t, s)
            | (false, s) => (.error .invalidParameter, s)
          | none =>
            match s.queue.blockTask t with
            | (true, queue) => (.ok t, { s with queue })
            | (false, queue) => (.error .invalidParameter, { s with queue })

/-- `windows_abi64_wait_wake_task_success` -/
def waitWakeTaskSuccess (s : System) (t : TaskId) : Bool × System :=
  let s := s.sleepCancelTask t
  match s.queue.wakeTaskWithResult t 0 with
  | (woken, queue) => (woken, { s with queue })

/-! ## Runs -/

/-- A program to be launched: its entry, and what the process says of it. -/
structure Program where
  pid : UInt32
  runtimeToken : UInt32
  entryToken : UInt32
  rip : UInt64
  rsp : UInt64
  selectors : UInt64
  rflags : UInt64

/-- The programs are registered; their tasks, if all are. -/
def registerPrograms (q : Runqueue) : List Program → Option (List TaskId) × Runqueue
  | [] => (some [], q)
  | p :: rest =>
    match q.registerProcessTask p.pid p.runtimeToken p.entryToken p.rip p.rsp p.selectors p.rflags with
    | (t, q) =>
      match registerPrograms q rest with
      | (ts, q) => (t.bind fun t => ts.map (t :: ·), q)

/-- `scheduler64_runqueue_reset`; the waiters stay. -/
def resetQueues (s : System) : System := { s with queue := .reset, sleepQueue := fun _ => none }

/-- What `linux_exec.c` and the probe of `interrupts.c` do: reset, register the programs and start the first. -/
def launch (s : System) (programs : List Program) : System :=
  let s := s.resetQueues
  match registerPrograms s.queue programs with
  | (some (first :: _), queue) => { s with queue := (queue.start first).2 }
  | (_, queue) => { s with queue }

/-- What `linux_abi64_sys_clone` and `linux_abi64_sys_fork` do for the task of the child. -/
def registerChild (q : Runqueue) (pid runtimeToken entryToken : UInt32) (frame : Frame) (tlsBase : UInt64) :
    Option TaskId × Runqueue :=
  match q.registerProcessFrame pid runtimeToken entryToken frame with
  | (none, q) => (none, q)
  | (some t, q) => (some t, (q.setTaskFsBase t tlsBase).2)

/-- A call of the kernel into the scheduler, or time that passes. -/
inductive Op where
  | launch (programs : List Program)
  | reset
  | stop
  | register (pid runtimeToken entryToken : UInt32) (frame : Frame) (tlsBase : UInt64)
  | setCurrentFsBase (fsBase : UInt64)
  | block (t : TaskId)
  | wake (t : TaskId) (result : UInt64)
  | replay (t : TaskId)
  | nanosleep (c : NanosleepCall)
  | futex (c : FutexCall)
  | futexWakeKey (key address : UInt64) (wakeLimit : Nat)
  | releaseFutexWaiters (pid : UInt32)
  | wait (c : WaitCall)
  | waitWake (t : TaskId)
  | blockedSyscall (frame : Frame)
  | timer (frame : Frame)
  | exit (frame : Frame) (result : UInt32)
  | tick (ticks : Nat)

def step (s : System) : Op → System
  | .launch programs => s.launch programs
  | .reset => s.resetQueues
  | .stop => { s with queue := s.queue.stop }
  | .register pid runtimeToken entryToken frame tlsBase =>
    { s with queue := (registerChild s.queue pid runtimeToken entryToken frame tlsBase).2 }
  | .setCurrentFsBase fsBase => { s with queue := (s.queue.setCurrentFsBase fsBase).2 }
  | .block t => { s with queue := (s.queue.blockTask t).2 }
  | .wake t result => { s with queue := (s.queue.wakeTaskWithResult t result).2 }
  | .replay t => { s with queue := (s.queue.wakeTaskReplay t).2 }
  | .nanosleep c => (s.nanosleep c).2.2
  | .futex c => (s.futex c).2
  | .futexWakeKey key address wakeLimit => (s.futexWakeKey key address wakeLimit).2
  | .releaseFutexWaiters pid => s.releaseFutexWaiters pid
  | .wait c => (s.waitBlockCurrent c).2
  | .waitWake t => (s.waitWakeTaskSuccess t).2
  | .blockedSyscall frame => { s with queue := (s.queue.onBlockedSyscall frame).2.2 }
  | .timer frame => (s.onTimer frame).2.2
  | .exit frame result => { s with queue := (s.queue.onExit frame result).2.2 }
  | .tick ticks => { s with clock := s.clock + ticks }

/-- No task is registered and nobody waits. -/
def boot : System where
  queue := .reset
  sleepQueue := fun _ => none
  waiters := fun _ => none
  clock := 0

/-- The state after the calls. -/
def run (ops : List Op) : System := ops.foldl step boot

theorem taskLimit_pos : 0 < runqueueTaskLimit := by decide

/-- The task in a slot. -/
def taskIn (slot : Nat) : TaskId := ⟨slot % runqueueTaskLimit, Nat.mod_lt slot taskLimit_pos⟩

/-- A program for the runs on fixed inputs. -/
def program (pid : UInt32) : Program := ⟨pid, 1, 1, 0x400000, 0x7000000, 0x1B0023, 0x202⟩

/-- The frame of a program that has been interrupted, or makes a call. -/
def userFrame : Frame := { clearFrame with cs := 0x23, ss := 0x1B }

end System

end LimitlessOS.Sched
