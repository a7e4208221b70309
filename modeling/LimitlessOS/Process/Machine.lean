/-
  LimitlessOS.Process.Machine — sessions of Linux processes.

  The launcher makes a process, gives the run queue its task and starts it; the processes
  and threads of the session make system calls and are switched by the timer; when the
  launched process exits, the launcher gets control back, empties the run queue and
  releases what that process held. `complete` is the way out of a system call
  (`syscall64_native_complete_persona_return`): an exited task is replaced, a pending signal
  is delivered, a blocked task is replaced.

  User code is not modelled: the registers at a call and the contents of memory are given
  with each call, for any values. Tasks that wait for a timer, a futex or a pipe block with
  `block` and are woken with `wake` and `timer`.
-/
import LimitlessOS.Process.Calls

namespace LimitlessOS.Process

open Lib Signal Sched

/-- The registers of user code. -/
structure UserFrame where
  frame : Frame
  cs : frame.cs &&& 3 = 3
  ss : frame.ss &&& 3 = 3

/-- What a call finds: the registers of the caller and the address spaces. -/
structure User where
  registers : UserFrame
  spaces : UInt32 → Space

structure LaunchSetup where
  parentPid : UInt32
  entry : Entry
  rootAllocated : Bool
  personaFree : Bool
  /-- The capabilities are granted and the image is loaded. -/
  loaded : Bool

structure Machine where
  kernel : Kernel
  queue : Runqueue
  /-- `g_native_linux_exit_probe_pid` -/
  leader : Option UInt32

/-- What a read or write finds. -/
inductive Io where
  | done (count : UInt32)
  /-- The pipe is empty or full: the task blocks; if it cannot, the call ends in another way. -/
  | wait (otherwise : UInt64)
  /-- The call is refused; the flag says that it is a write to a pipe. -/
  | refused (pipeWrite : Bool)

/-- System calls; `wait4` takes its arguments from the registers. -/
inductive Call where
  | fork (s : ForkSetup)
  | clone (s : CloneSetup)
  | execve (s : ExecSetup)
  | exit (code : UInt64)
  | exitGroup (code : UInt64)
  | wait4 (statusWritable : Bool)
  | rtSigaction (signalNumber userAct userOldact sigsetSize : UInt64)
  | rtSigprocmask (how userSet userOldset sigsetSize : UInt64)
  | kill (target signalNumber : UInt64)
  | rtSigreturn
  | read (io : Io)
  | write (io : Io)
  /-- A call that blocks on a futex or a timer, if it can. -/
  | block (result : UInt64)

inductive Step where
  | launch (s : LaunchSetup)
  | call (user : User) (c : Call)
  | timer (registers : UserFrame) (expired : List (TaskId × UInt64))
  /-- A pipe or a futex wakes a task. -/
  | wake (task : TaskId) (result : UInt64)

namespace Kernel

/-- `principal_id` in `g_process_seeds` -/
def seedPrincipals : Fin seedCount → UInt32 := ![0x1001, 0x0102, 0x1002, 0x0202, 0x1003, 0x1004, 0x1005]

/-- `process64_seed_record` without extensions to preserve -/
def seedRecord (i : Fin seedCount) : ProcessRecord where
  pid := UInt32.ofNat (i.val + 1)
  principalId := seedPrincipals i
  parentPid := invalidPid
  childKind := .none
  waitable := false
  exited := false
  exitCode := 0
  attached := fun _ => none
  personaCtx := none
  pageRoot := false

/-- The static processes and no others. -/
def boot : Kernel where
  procs := fun i => if h : i.val < seedCount then some (seedRecord ⟨i.val, h⟩) else none
  childCounts := fun _ => 0
  nextClonePid := clonePidBase
  cloneRecords := fun _ => none
  exitRecords := fun _ => none
  pools := fun _ => .empty poolLimit
  lastExitPid := invalidPid
  lastExitDetached := fun _ => none

/-- `linux_exec64_release_failed_process` -/
def releaseFailedProcess (k : Kernel) (pid : UInt32) : Kernel :=
  let k := (k.release .vmaTree pid).clearPageRoot pid
  (((k.release .fdTable pid).personaRelease pid).release .auditContext pid).releaseClone pid

/-- What the process gets before its persona. -/
def launchResources (pid : UInt32) (s : LaunchSetup) : List (Kernel → Bool × Kernel) :=
  [assignRoot pid s.rootAllocated, claim .vmaTree pid, claim .auditContext pid, claim .fdTable pid]

/-- The steps of a launch after the new process. -/
def launchSetup (k : Kernel) (pid : UInt32) (s : LaunchSetup) : Bool × Kernel :=
  attempt (launchResources pid s ++ [assignPersona pid s.personaFree (initContext pid), fun k => (s.loaded, k)]) k

/-- What the launched process let go at its exit is attached again. -/
def reattach (k : Kernel) (pid : UInt32) : Kernel :=
  k.modify pid fun p => { p with attached := fun r => (p.attached r).or (k.lastExitDetached r) }

/-- The end of a session: everything is released in the order of a launch that fails. -/
def endSession (k : Kernel) (pid : UInt32) : Kernel := (k.reattach pid).releaseFailedProcess pid

end Kernel

namespace Machine

def boot : Machine := ⟨.boot, .reset, none⟩

def launch (m : Machine) (s : LaunchSetup) : Machine :=
  if m.queue.active then m
  else
    match m.kernel.spawnChild s.parentPid .clone with
    | none => m
    | some (pid, k) =>
      match k.launchSetup pid s with
      | (false, k) => { m with kernel := k.releaseFailedProcess pid }
      | (true, k) =>
        match Runqueue.reset.registerProcessFrame pid s.entry.runtimeToken s.entry.entryToken s.entry.frame with
        | (none, q) => { m with kernel := k.releaseFailedProcess pid, queue := q }
        | (some t, q) => { kernel := k, queue := (q.start t).2, leader := some pid }

/-- `linux_abi64_signal_deliver_pending`, as far as the contexts are concerned -/
def deliver (m : Machine) (pid : UInt32) (space : Space) (frame : Frame) : Bool × Machine :=
  let (delivered, core) := Core.deliverPending ⟨m.kernel.personas, space, frame⟩ pid
  (delivered, { m with kernel := m.kernel.setContexts core.personas.context })

/-- The process of the current task is resumed, and takes a pending signal. -/
def deliverOnResume (m : Machine) (spaces : UInt32 → Space) (frame : Frame) : Machine :=
  match m.queue.currentTaskId with
  | none => m
  | some t => (m.deliver (m.queue.tasks t).pid (spaces (m.queue.tasks t).pid) frame).2

/-- What a call leaves for the way out. -/
structure Outcome where
  machine : Machine
  result : UInt64
  /-- What a `wait4` returns. -/
  reap : Option Reap := none
  /-- The registers are loaded without a return value (`rt_sigreturn` and a successful `execve`). -/
  direct : Bool := false
  /-- The call is made again when the task is woken. -/
  replay : Option UInt64 := none

/-- The process of the call has exited: the launcher gets control back, or another task is resumed. -/
def leave (m : Machine) (pid : UInt32) (spaces : UInt32 → Space) (frame : Frame) : Machine :=
  if m.leader = some pid then { kernel := m.kernel.endSession pid, queue := .reset, leader := none }
  else
    match m.queue.onExit frame 0 with
    | (.resumed, frame, q) => { m with queue := q }.deliverOnResume spaces frame
    | (_, _, q) => { m with queue := q }

/-- The frame of a task that blocks. A call that is made again starts two bytes back. -/
def blockedFrame (frame : Frame) : Option UInt64 → Frame
  | none => frame
  | some number => { frame with rax := number, rip := frame.rip - 2, rcx := frame.rip - 2 }

/-- A blocked task is replaced, if there is another one to run. -/
def switchBlocked (m : Machine) (spaces : UInt32 → Space) (frame : Frame) : Machine :=
  match m.queue.onBlockedSyscall frame with
  | (true, frame, q) => { m with queue := q }.deliverOnResume spaces frame
  | (false, _, q) => { m with queue := q }

/-- `syscall64_native_complete_persona_return` -/
def complete (o : Outcome) (task : TaskId) (pid : UInt32) (user : User) : Machine :=
  let frame := { user.registers.frame with rax := o.result }
  if o.machine.kernel.processExited pid ∨ o.machine.kernel.lastExitPid = pid then o.machine.leave pid user.spaces frame
  else if o.direct then o.machine
  else
    match o.machine.deliver pid (user.spaces pid) frame with
    | (true, m) => m
    | (false, m) =>
      if (m.queue.tasks task).state ≠ .blocked then m else m.switchBlocked user.spaces (blockedFrame frame o.replay)

/-- A call that changes contexts only. -/
def signalCall (m : Machine) (f : Core → UInt64 × Personas) (user : User) (pid : UInt32) : Outcome :=
  let (result, p) := f ⟨m.kernel.personas, user.spaces pid, user.registers.frame⟩
  { machine := { m with kernel := m.kernel.setContexts p.context }, result }

def ebadf : UInt64 := 9
def epipe : UInt64 := 32

/-- The common part of `linux_abi64_sys_read` and `linux_abi64_sys_write`, after the tests of their arguments. -/
def io (m : Machine) (task : TaskId) (pid : UInt32) (number : UInt64) : Io → Outcome
  | .done count => { machine := m, result := count.toUInt64 }
  | .wait otherwise =>
    match m.queue.blockTask task with
    | (false, queue) => { machine := { m with queue }, result := otherwise }
    | (true, queue) =>
      if m.kernel.personas.unmaskedSignalPending pid then { machine := { m with queue }, result := errorReturn eintr }
      else { machine := { m with queue }, result := errorReturn eagain, replay := some number }
  | .refused true =>
    { machine := { m with kernel := m.kernel.setContexts (m.kernel.personas.markSignalPending pid sigpipe).context }
      result := errorReturn epipe }
  | .refused false => { machine := m, result := errorReturn ebadf }

/-- The body of a call. -/
def body (m : Machine) (task : TaskId) (pid : UInt32) (user : User) : Call → Outcome
  | .fork s =>
    let (result, kernel, queue) := m.kernel.fork m.queue pid s
    { machine := { m with kernel, queue }, result }
  | .clone s =>
    let (result, kernel, queue) := m.kernel.clone m.queue pid s
    { machine := { m with kernel, queue }, result }
  | .execve s =>
    let (done, kernel) := m.kernel.execve pid s
    { machine := { m with kernel }, result := if done then 0 else errorReturn enomem, direct := done }
  | .exit code | .exitGroup code =>
    let (done, reap, kernel, queue) := m.kernel.exit m.queue pid code
    { machine := { m with kernel, queue }, result := if done then 0 else errorReturn esrch, reap }
  | .wait4 statusWritable =>
    let f := user.registers.frame
    let (result, reap, kernel, queue) := m.kernel.wait4 m.queue pid f.rdi f.rsi f.rdx f.r10 statusWritable
    { machine := { m with kernel, queue }, result, reap }
  | .rtSigaction n act oldact size =>
    m.signalCall (fun c => let (result, c) := c.rtSigaction pid n act oldact size; (result, c.personas)) user pid
  | .rtSigprocmask how set oldset size =>
    m.signalCall (fun c => let (result, c) := c.rtSigprocmask pid how set oldset size; (result, c.personas)) user pid
  | .kill target n => m.signalCall (fun c => c.personas.signalTranslate pid target n) user pid
  | .rtSigreturn =>
    { m.signalCall (fun c => let (_, result, c) := c.rtSigreturn pid; (result, c.personas)) user pid with direct := true }
  | .read io => m.io task pid 0 io
  | .write io => m.io task pid 1 io
  | .block result => { machine := { m with queue := (m.queue.blockTask task).2 }, result }

/-- A call of the current process: its return value, what a `wait4` returns in it, and the new state. -/
def call (m : Machine) (user : User) (c : Call) : UInt64 × Option Reap × Machine :=
  match m.queue.currentTaskId with
  | none => (0, none, m)
  | some task =>
    let pid := (m.queue.tasks task).pid
    let o := m.body task pid user c
    (o.result, o.reap, complete o task pid user)

def step (m : Machine) : Step → Machine
  | .launch s => m.launch s
  | .call user c => (m.call user c).2.2
  | .timer registers expired => { m with queue := (m.queue.onTimer registers.frame expired).2.2 }
  | .wake task result => { m with queue := (m.queue.wakeTaskWithResult task result).2 }

end Machine

end LimitlessOS.Process
