/-
  LimitlessOS.Process.Records — process records, and the clone and exit records of Linux processes.

  `arch/x86_64/process.c` has seven static processes and sixteen records for the processes
  that are made at run time; a lookup scans the static ones first, so they are one table
  here whose first seven slots never empty. `arch/x86_64/linux_abi.c` keeps a clone record
  for every child of a fork or clone until its parent has waited for it, and an exit record
  for every process that has exited. The region trees, descriptor tables and audit contexts
  of the processes are slots of three pools; a record points to its slots, and records of
  threads point to the slots of the process that cloned them.

  Statistics, names, manifests and scheduler classes are left out.
-/
import LimitlessOS.Lib.KeyedSlots
import LimitlessOS.Sched.Runqueue
import LimitlessOS.Signal.Delivery

namespace LimitlessOS.Process

open Function Lib Signal Sched Keyed

/-- `PROCESS64_RECORD_COUNT` -/
def seedCount : Nat := 7

/-- `PROCESS64_CLONE_RECORD_LIMIT` -/
def cloneRecordLimit : Nat := 16

/-- `LINUX_ABI64_CLONE_RECORD_LIMIT` -/
def abiCloneRecordLimit : Nat := 16

/-- `LINUX_ABI64_EXIT_RECORD_LIMIT` -/
def exitRecordLimit : Nat := 32

/-- `VMA64_MAX_PROCESS_TREES`, `FD64_MAX_PROCESS_TABLES` and `PERSONA_AUDIT64_MAX_CONTEXTS` -/
def poolLimit : Nat := 16

/-- `PROCESS64_CLONE_PID_BASE` -/
def clonePidBase : UInt32 := 0x2000

/-- `PROCESS64_CHILD_KIND_*` -/
inductive ChildKind where
  | none
  | clone
  | fork
  deriving DecidableEq

/-- What threads share. -/
inductive Resource where
  | vmaTree
  | fdTable
  | auditContext
  deriving DecidableEq

structure ProcessRecord where
  pid : UInt32
  principalId : UInt32
  parentPid : UInt32
  childKind : ChildKind
  waitable : Bool
  exited : Bool
  exitCode : UInt32
  /-- `vma_root`, `fd_table` and `audit_ctx` -/
  attached : Resource → Option (Ptr poolLimit)
  personaCtx : Option Context
  /-- `page_root_physical` and `page_root_token` are set. -/
  pageRoot : Bool

/-- An active `linux_abi64_clone_record_t`. -/
structure CloneRecord where
  parentPid : UInt32
  childPid : UInt32
  /-- `wait_task_id` and `wait_status_user`, while `wait_blocked` is set. -/
  waiter : Option (TaskId × UInt64)
  deriving DecidableEq

/-- A `linux_abi64_exit_record_t` in use. -/
structure ExitRecord where
  pid : UInt32
  exitCode : UInt32
  deriving DecidableEq

structure Kernel where
  procs : Fin (seedCount + cloneRecordLimit) → Option ProcessRecord
  /-- The field `child_count` of the records. -/
  childCounts : Fin (seedCount + cloneRecordLimit) → UInt32
  nextClonePid : UInt32
  cloneRecords : Fin abiCloneRecordLimit → Option CloneRecord
  exitRecords : Fin exitRecordLimit → Option ExitRecord
  pools : Resource → Pool poolLimit
  lastExitPid : UInt32
  /-- `g_linux_abi64_last_exit_detached_*` -/
  lastExitDetached : Resource → Option (Ptr poolLimit)

namespace Kernel

/-! ## Processes -/

/-- `process64_find` -/
def proc (k : Kernel) (pid : UInt32) : Option ProcessRecord := get ProcessRecord.pid k.procs pid

/-- `process64_find_mutable` and a write -/
def modify (k : Kernel) (pid : UInt32) (f : ProcessRecord → ProcessRecord) : Kernel :=
  { k with procs := Keyed.modify ProcessRecord.pid k.procs pid f }

/-- `process64_principal` -/
def principal (k : Kernel) (pid : UInt32) : UInt32 := ((k.proc pid).map ProcessRecord.principalId).getD 0

/-- `persona64_context_for_process` -/
def context (k : Kernel) (pid : UInt32) : Option Context := (k.proc pid).bind ProcessRecord.personaCtx

def personas (k : Kernel) : Personas := ⟨k.principal, k.context⟩

/-- The contexts are written back to their records. -/
def setContexts (k : Kernel) (context : UInt32 → Option Context) : Kernel :=
  { k with procs := fun i => (k.procs i).map fun p => { p with personaCtx := context p.pid } }

/-- The pid after this one. -/
def clonePidAfter (pid : UInt32) : UInt32 :=
  if pid + 1 = invalidPid ∨ pid + 1 < clonePidBase then clonePidBase else pid + 1

/-- The child count in a slot is changed. -/
def countChild (counts : Fin (seedCount + cloneRecordLimit) → UInt32) (parent : Option (Fin (seedCount + cloneRecordLimit)))
    (f : UInt32 → UInt32) : Fin (seedCount + cloneRecordLimit) → UInt32 :=
  match parent with
  | none => counts
  | some i => update counts i (f (counts i))

/-- `process64_spawn_child` -/
def spawnChild (k : Kernel) (parentPid : UInt32) (kind : ChildKind) : Option (UInt32 × Kernel) :=
  match k.proc parentPid with
  | none => none
  | some parent =>
    if parent.principalId = 0 then none
    else
      match free k.procs with
      | none => none
      | some i =>
        let child : ProcessRecord :=
          { pid := k.nextClonePid
            principalId := parent.principalId
            parentPid
            childKind := kind
            waitable := true
            exited := false
            exitCode := 0
            attached := fun _ => none
            personaCtx := none
            pageRoot := false }
        some (child.pid,
          { k with
            procs := put k.procs i child
            childCounts := countChild (update k.childCounts i 0) (slot ProcessRecord.pid k.procs parentPid) (· + 1)
            nextClonePid := clonePidAfter k.nextClonePid })

/-- `process64_release_clone`; a static process is not released. -/
def releaseClone (k : Kernel) (pid : UInt32) : Kernel :=
  match slot ProcessRecord.pid k.procs pid with
  | none => k
  | some i =>
    if i.val < seedCount then k
    else
      let parentPid := ((k.procs i).map ProcessRecord.parentPid).getD invalidPid
      let counts := countChild k.childCounts (slot ProcessRecord.pid k.procs parentPid) fun n => if n ≠ 0 then n - 1 else 0
      { k with procs := erase ProcessRecord.pid k.procs pid, childCounts := update counts i 0 }

/-- `process64_mark_child_exited` -/
def markChildExited (k : Kernel) (pid exitCode : UInt32) : Kernel :=
  k.modify pid fun p => if p.waitable then { p with exited := true, exitCode } else p

/-- `process64_child_kind`; `process64_is_clone` and `process64_is_fork_child` compare it. -/
def childKind (k : Kernel) (pid : UInt32) : ChildKind := ((k.proc pid).map ProcessRecord.childKind).getD .none

/-! ## Trees, tables and audit contexts -/

/-- `process64_vma_root`, `process64_fd_table` and `process64_audit_ctx` -/
def attached (k : Kernel) (pid : UInt32) (r : Resource) : Option (Ptr poolLimit) := (k.proc pid).bind fun p => p.attached r

def setAttached (k : Kernel) (pid : UInt32) (r : Resource) (p : Option (Ptr poolLimit)) : Kernel :=
  k.modify pid fun x => { x with attached := update x.attached r p }

def setPool (k : Kernel) (r : Resource) (pool : Pool poolLimit) : Kernel :=
  { k with pools := update k.pools r pool }

/-- `vma64_init_process`, `fd64_claim_table` and `persona_audit64_attach`: a free slot is taken, unless the process has
one; the last of them fails then. -/
def claim (r : Resource) (pid : UInt32) (k : Kernel) : Bool × Kernel :=
  match k.proc pid with
  | none => (false, k)
  | some p =>
    if p.principalId = 0 ∧ r ≠ .vmaTree then (false, k)
    else if (p.attached r).isSome then (r ≠ .auditContext, k)
    else
      match (k.pools r).claim with
      | none => (false, k)
      | some (ptr, pool) => (true, (k.setPool r pool).setAttached pid r (some ptr))

/-- `vma64_release_process`, `fd64_release_process` and `persona_audit64_release`: the slot that the record points to is
free again, whoever has claimed it. -/
def release (k : Kernel) (r : Resource) (pid : UInt32) : Kernel :=
  match k.attached pid r with
  | none => k
  | some ptr => (k.setPool r ((k.pools r).release ptr.slot)).setAttached pid r none

/-- `persona64_release` -/
def personaRelease (k : Kernel) (pid : UInt32) : Kernel :=
  k.modify pid fun p => if p.principalId = 0 then p else { p with personaCtx := none }

/-- `process64_clear_page_root` -/
def clearPageRoot (k : Kernel) (pid : UInt32) : Kernel := k.modify pid fun p => { p with pageRoot := false }

/-! ## Clone and exit records -/

/-- `linux_abi64_clone_record_for_child` -/
def cloneOf (k : Kernel) (childPid : UInt32) : Option CloneRecord := get CloneRecord.childPid k.cloneRecords childPid

/-- `linux_abi64_exit_record_existing` -/
def exitOf (k : Kernel) (pid : UInt32) : Option ExitRecord := get ExitRecord.pid k.exitRecords pid

/-- `linux_abi64_process_exited` -/
def processExited (k : Kernel) (pid : UInt32) : Bool := (k.exitOf pid).isSome

/-- `linux_abi64_exit_record_for_pid` -/
def exitRecordForPid (k : Kernel) (pid : UInt32) : Option (Fin exitRecordLimit) :=
  match slot ExitRecord.pid k.exitRecords pid with
  | some i => some i
  | none => free k.exitRecords

/-- `linux_abi64_clear_clone_record` and `linux_abi64_clear_exit_record` for a child -/
def clearRecords (k : Kernel) (childPid : UInt32) : Kernel :=
  { k with
    cloneRecords := erase CloneRecord.childPid k.cloneRecords childPid
    exitRecords := erase ExitRecord.pid k.exitRecords childPid }

end Kernel

end LimitlessOS.Process
