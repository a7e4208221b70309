/-
  LimitlessOS.Process.Calls — `fork`, `clone`, `execve`, `exit`, `exit_group` and `wait4`.

  The calls work on the records and on the run queue. What they ask other parts of the
  kernel is given to them, for any answer: whether user memory is writable, whether the
  page root, the regions, the descriptors and the paths of a fork could be copied, whether
  a persona context is free, whether the image of an `execve` is valid and can be loaded.

  A `wait4` that finds no exited child and may block enters its task in the first clone
  record that matches; the exit of the child of that record ends the wait. `Reap` says what
  a `wait4` returns, at once or at the exit of the child.

  `exit` also clears the thread id word and wakes futex waiters and drops resource limits
  and paths; that is left out, with the audit records.
-/
import LimitlessOS.Lib.Attempt
import LimitlessOS.Process.Records

namespace LimitlessOS.Process

open Lib Signal Sched

def echild : UInt64 := 10
def enomem : UInt64 := 12
def enosys : UInt64 := 38

/-- `LINUX_ABI64_CLONE_THREAD_REQUIRED` -/
def cloneThreadRequired : UInt32 := 0x00010F00

/-- `LINUX_ABI64_CLONE_SUPPORTED_MASK` -/
def cloneSupportedMask : UInt32 := 0x017D0F00

def cloneParentSettid : UInt32 := 0x00100000
def cloneChildCleartid : UInt32 := 0x00200000
def cloneChildSettid : UInt32 := 0x01000000

/-- `LINUX_ABI64_WAIT_ANY` -/
def waitAny : UInt64 := 0xFFFFFFFFFFFFFFFF

/-- `LINUX_ABI64_WAIT_WNOHANG`, the only supported option -/
def waitNohang : UInt32 := 1

/-- What `wait4` returns for a child. -/
structure Reap where
  /-- The process whose `wait4` returns. -/
  receiver : UInt32
  /-- The value it returns. -/
  child : UInt32
  /-- The status word. -/
  status : UInt32
  /-- Where the status word was asked for. -/
  address : UInt64
  /-- The word has been written there. -/
  written : Bool
  deriving DecidableEq

/-- `linux_abi64_wait4_status_for_exit` -/
def statusForExit (exitCode : UInt32) : UInt32 := (exitCode &&& 0xFF) <<< 8

/-- The persona context of a child. -/
def forkContext (parent : Context) : Context := { parent with pending := 0 }

/-- The persona context of a program that is launched. -/
def initContext (pid : UInt32) : Context where
  personaType := .linuxElf
  processGroupId := pid
  pending := 0
  mask := 0
  sigactions := fun _ => ⟨defaultHandler, 0, 0, 0⟩
  blockable := UInt64.zero_and

/-- The tokens of the manifest, and the frame that a child starts with. -/
structure Entry where
  runtimeToken : UInt32
  entryToken : UInt32
  frame : Frame

/-- A token, the selectors or the flags are zero. -/
def Entry.missing (e : Entry) : Bool :=
  e.runtimeToken = 0 ∨ e.entryToken = 0 ∨ (e.frame.cs = 0 ∧ e.frame.ss = 0) ∨ e.frame.rflags = 0 ∨ e.frame.rip = 0

/-- What the setup of a forked child meets outside. -/
structure ForkSetup where
  entry : Entry
  rootForked : Bool
  regionsCopied : Bool
  entriesCopied : Bool
  personaFree : Bool
  pathsCopied : Bool

/-- The arguments of `clone` as far as they are tested, and what it meets outside. -/
structure CloneSetup where
  entry : Entry
  flags : UInt32
  childStack : UInt64
  childTid : UInt64
  stackWritable : Bool
  parentTidWritable : Bool
  childTidWritable : Bool
  personaFree : Bool

/-- What an `execve` meets outside. -/
structure ExecSetup where
  /-- The path, the vectors and the image pass all tests. -/
  validated : Bool
  /-- `elf64_launch_static` succeeds in the new address space. -/
  launched : Bool

namespace Kernel

/-! ## `fork` -/

/-- `linux_abi64_fork_release_setup` -/
def forkReleaseSetup (k : Kernel) (childPid : UInt32) : Kernel :=
  let k := (k.release .fdTable childPid).release .vmaTree childPid
  let k := (k.personaRelease childPid).release .auditContext childPid
  (k.clearPageRoot childPid).releaseClone childPid

/-- A process gets a page root, if one could be made. -/
def assignRoot (pid : UInt32) (made : Bool) (k : Kernel) : Bool × Kernel :=
  if made then (true, k.modify pid fun p => { p with pageRoot := true }) else (false, k)

/-- A process gets a persona context, if one is free. -/
def assignPersona (pid : UInt32) (free : Bool) (context : Context) (k : Kernel) : Bool × Kernel :=
  if free then (true, k.modify pid fun p => { p with personaCtx := some context }) else (false, k)

/-- `vma64_fork_copy_process` after the two trees, and `fd64_fork_process` after the table: a copy that fails releases
what it was made for. -/
def copyResource (pid : UInt32) (r : Resource) (copied : Bool) (k : Kernel) : Bool × Kernel :=
  if copied then (true, k) else (false, k.release r pid)

/-- What the child gets before its persona. -/
def forkResources (pid childPid : UInt32) (s : ForkSetup) : List (Kernel → Bool × Kernel) :=
  [assignRoot childPid s.rootForked,
    claim .vmaTree pid, claim .vmaTree childPid, copyResource childPid .vmaTree s.regionsCopied,
    claim .auditContext childPid,
    claim .fdTable childPid, copyResource childPid .fdTable s.entriesCopied]

/-- The steps of `linux_abi64_sys_fork` between the new process and its task. -/
def forkSetup (k : Kernel) (pid childPid : UInt32) (parent : Context) (s : ForkSetup) : Bool × Kernel :=
  attempt
    (forkResources pid childPid s ++
      [assignPersona childPid s.personaFree (forkContext parent), fun k => (s.pathsCopied, k)]) k

/-- `linux_abi64_sys_fork` -/
def fork (k : Kernel) (q : Runqueue) (pid : UInt32) (s : ForkSetup) : UInt64 × Kernel × Runqueue :=
  match k.personas.ready pid with
  | none => (errorReturn esrch, k, q)
  | some context =>
    if s.entry.missing ∨ s.entry.frame.rsp = 0 ∨ (k.proc pid).any (fun p => !p.pageRoot) then (errorReturn einval, k, q)
    else
      match Keyed.free k.cloneRecords with
      | none => (errorReturn enomem, k, q)
      | some i =>
        match k.spawnChild pid .fork with
        | none => (errorReturn enomem, k, q)
        | some (childPid, k) =>
          match k.forkSetup pid childPid context s with
          | (false, k) => (errorReturn enomem, k.forkReleaseSetup childPid, q)
          | (true, k) =>
            match q.registerProcessFrame childPid s.entry.runtimeToken s.entry.entryToken s.entry.frame with
            | (none, q) => (errorReturn eagain, k.forkReleaseSetup childPid, q)
            | (some _, q) =>
              (childPid.toUInt64,
                { k with cloneRecords := Keyed.put k.cloneRecords i ⟨pid, childPid, none⟩ }, q)

/-! ## `clone` -/

/-- The three attachments, the page root and the persona of a thread; the slots of a new record are empty, so that
only a missing persona context can stop it. -/
def cloneShare (k : Kernel) (childPid : UInt32) (parent : Context) (shared : Resource → Option (Ptr poolLimit)) : Kernel :=
  k.modify childPid fun p => { p with attached := shared, pageRoot := true, personaCtx := some (forkContext parent) }

/-- `linux_abi64_clone_detach_shared_state` -/
def cloneDetachSharedState (k : Kernel) (pid : UInt32) : Kernel := k.modify pid fun p => { p with attached := fun _ => none }

/-- The undoing of a clone that fails -/
def cloneRelease (k : Kernel) (childPid : UInt32) : Kernel :=
  ((k.personaRelease childPid).cloneDetachSharedState childPid).releaseClone childPid

/-- The tests of the arguments and of what the parent has to share: the error of the first that fails. -/
def cloneDenied (k : Kernel) (pid : UInt32) (s : CloneSetup) : Option UInt64 :=
  if s.flags &&& ~~~cloneSupportedMask ≠ 0 then some einval
  else if s.flags &&& cloneThreadRequired ≠ cloneThreadRequired then some enosys
  else if s.childStack = 0 ∨ userCanonicalLimit ≤ s.childStack ∨ s.childStack < 8 then some einval
  else if !s.stackWritable then some efault
  else if s.flags &&& cloneParentSettid ≠ 0 ∧ !s.parentTidWritable then some efault
  else if s.flags &&& (cloneChildSettid ||| cloneChildCleartid) ≠ 0 ∧ s.childTid ≠ 0 ∧ !s.childTidWritable then some efault
  else if (k.attached pid .vmaTree).isNone ∨ (k.attached pid .fdTable).isNone ∨ (k.attached pid .auditContext).isNone then
    some einval
  else if s.entry.missing ∨ (k.proc pid).any (fun p => !p.pageRoot) then some einval
  else none

/-- `linux_abi64_sys_clone` -/
def clone (k : Kernel) (q : Runqueue) (pid : UInt32) (s : CloneSetup) : UInt64 × Kernel × Runqueue :=
  match k.personas.ready pid with
  | none => (errorReturn esrch, k, q)
  | some context =>
    match k.cloneDenied pid s with
    | some e => (errorReturn e, k, q)
    | none =>
      match Keyed.free k.cloneRecords with
      | none => (errorReturn enomem, k, q)
      | some i =>
        let shared := k.attached pid
        match k.spawnChild pid .clone with
        | none => (errorReturn enomem, k, q)
        | some (childPid, k) =>
          if !s.personaFree then (errorReturn enomem, k.cloneRelease childPid, q)
          else
            let k := k.cloneShare childPid context shared
            match q.registerProcessFrame childPid s.entry.runtimeToken s.entry.entryToken
                { s.entry.frame with rsp := s.childStack } with
            | (none, q) => (errorReturn eagain, k.cloneRelease childPid, q)
            | (some _, q) =>
              (childPid.toUInt64,
                { k with cloneRecords := Keyed.put k.cloneRecords i ⟨pid, childPid, none⟩ }, q)

/-! ## `execve` -/

/-- `linux_abi64_sys_exec_common`, as far as the process records are concerned -/
def execve (k : Kernel) (pid : UInt32) (s : ExecSetup) : Bool × Kernel :=
  match k.personas.ready pid with
  | none => (false, k)
  | some _ =>
    if (k.attached pid .vmaTree).isNone ∨ (k.attached pid .fdTable).isNone ∨ !s.validated then (false, k)
    else
      match claim .vmaTree pid (k.release .vmaTree pid) with
      | (false, k) => (false, k)
      | (true, k) => (s.launched, k)

/-! ## `exit` -/

/-- `linux_abi64_wait4_complete_blocked_child` -/
def completeBlockedChild (k : Kernel) (q : Runqueue) (childPid exitCode : UInt32) : Option Reap × Kernel × Runqueue :=
  match k.cloneOf childPid with
  | none => (none, k, q)
  | some record =>
    match record.waiter with
    | none => (none, k, q)
    | some (task, address) =>
      let reap : Reap :=
        { receiver := (q.tasks task).pid
          child := childPid
          status := statusForExit exitCode
          address
          written := address ≠ 0 ∧ (k.proc record.parentPid).any ProcessRecord.pageRoot }
      let (woken, q) := q.wakeTaskWithResult task childPid.toUInt64
      (if woken then some reap else none, (k.releaseClone childPid).clearRecords childPid, q)

/-- What the process holds is given up: a thread lets go of what it shares, another process releases it. -/
def exitResources (k : Kernel) (pid : UInt32) : Kernel :=
  if k.childKind pid = .clone then
    { (k.personaRelease pid).cloneDetachSharedState pid with lastExitDetached := k.attached pid }
  else
    let k := (k.release .vmaTree pid).release .fdTable pid
    { (k.personaRelease pid).release .auditContext pid with lastExitDetached := fun _ => none }

/-- The parent of a forked child gets a signal. -/
def notifyParent (k : Kernel) (pid code : UInt32) (parent : Option UInt32) : Kernel :=
  match parent with
  | none => k.markChildExited pid code
  | some parentPid => (k.setContexts (k.personas.markSignalPending parentPid sigchld).context).markChildExited pid code

/-- `linux_abi64_sys_exit_common` after its tests, up to the waiting parent -/
def exitProcess (k : Kernel) (pid code : UInt32) (i : Fin exitRecordLimit) : Kernel :=
  let parent := (k.cloneOf pid).map CloneRecord.parentPid
  let recordExit (k : Kernel) : Kernel := { k with lastExitPid := pid, exitRecords := Keyed.put k.exitRecords i ⟨pid, code⟩ }
  if k.childKind pid = .fork then (recordExit ((k.exitResources pid).clearPageRoot pid)).notifyParent pid code parent
  else recordExit (k.exitResources pid)

/-- `linux_abi64_sys_exit_common`; `exit_group` is the same. -/
def exit (k : Kernel) (q : Runqueue) (pid : UInt32) (exitCode : UInt64) : Bool × Option Reap × Kernel × Runqueue :=
  match k.personas.ready pid with
  | none => (false, none, k, q)
  | some _ =>
    match k.exitRecordForPid pid with
    | none => (false, none, k, q)
    | some i => (true, (k.exitProcess pid exitCode.toUInt32 i).completeBlockedChild q pid exitCode.toUInt32)

/-! ## `wait4` -/

/-- The record is one that the call asks for. -/
def waitMatches (pid : UInt32) (waitPid : UInt64) (r : CloneRecord) : Bool :=
  r.parentPid = pid ∧ (waitPid = waitAny ∨ waitPid = r.childPid.toUInt64)

/-- `linux_abi64_clone_record_for_parent_wait` -/
def cloneRecordForParentWait (k : Kernel) (pid : UInt32) (waitPid : UInt64) : Option CloneRecord :=
  (Slots.first k.cloneRecords fun r => r.any fun r => waitMatches pid waitPid r && k.processExited r.childPid).bind
    k.cloneRecords

/-- `linux_abi64_clone_record_for_parent_any` -/
def cloneRecordForParentAny (k : Kernel) (pid : UInt32) (waitPid : UInt64) : Option CloneRecord :=
  (Slots.first k.cloneRecords fun r => r.any fun r => waitMatches pid waitPid r).bind k.cloneRecords

/-- The task is entered in the record of the child. -/
def enterWaiter (k : Kernel) (childPid : UInt32) (task : TaskId) (userStatus : UInt64) : Kernel :=
  { k with
    cloneRecords := Keyed.modify CloneRecord.childPid k.cloneRecords childPid fun r =>
      { r with waiter := some (task, userStatus) } }

/-- The current task blocks, with its entry in the record of the child. -/
def wait4Block (k : Kernel) (q : Runqueue) (pid : UInt32) (pending : CloneRecord) (userStatus : UInt64) :
    UInt64 × Option Reap × Kernel × Runqueue :=
  match q.currentTaskId with
  | none => (errorReturn eagain, none, k, q)
  | some task =>
    if (q.tasks task).pid ≠ pid ∨ (q.tasks task).state ≠ .running ∨ pending.waiter.isSome then
      (errorReturn eagain, none, k, q)
    else
      match q.blockTask task with
      | (false, q) => (errorReturn eagain, none, k, q)
      | (true, q) => (0, none, k.enterWaiter pending.childPid task userStatus, q)

/-- The tests of the arguments: the error of the first that fails. -/
def wait4Denied (waitPid userStatus options userRusage : UInt64) (statusWritable : Bool) : Option UInt64 :=
  if (waitPid ≠ waitAny ∧ ¬ (waitPid ≠ 0 ∧ waitPid ≤ 0x7FFFFFFF)) ∨ options &&& ~~~waitNohang.toUInt64 ≠ 0 then some einval
  else if userRusage ≠ 0 then some enosys
  else if userStatus ≠ 0 ∧ !statusWritable then some efault
  else none

/-- `linux_abi64_sys_wait4` -/
def wait4 (k : Kernel) (q : Runqueue) (pid : UInt32) (waitPid userStatus options userRusage : UInt64)
    (statusWritable : Bool) : UInt64 × Option Reap × Kernel × Runqueue :=
  match k.personas.ready pid, wait4Denied waitPid userStatus options userRusage statusWritable with
  | none, _ => (errorReturn esrch, none, k, q)
  | some _, some e => (errorReturn e, none, k, q)
  | some _, none =>
    match k.cloneRecordForParentWait pid waitPid with
    | some record =>
      match k.exitOf record.childPid with
      | none => (errorReturn eagain, none, k, q)
      | some e =>
        let reap : Reap :=
          { receiver := pid
            child := record.childPid
            status := statusForExit e.exitCode
            address := userStatus
            written := userStatus ≠ 0 }
        (record.childPid.toUInt64, some reap, (k.releaseClone record.childPid).clearRecords record.childPid, q)
    | none =>
      match k.cloneRecordForParentAny pid waitPid with
      | none => (errorReturn echild, none, k, q)
      | some pending =>
        if options.toUInt32 &&& waitNohang ≠ 0 then (0, none, k, q)
        else if k.personas.unmaskedSignalPending pid then (errorReturn eintr, none, k, q)
        else k.wait4Block q pid pending userStatus

end Kernel

end LimitlessOS.Process
