/-
  LimitlessOS.Fd.Table — descriptor tables (`arch/x86_64/fd.c`).

  A process has a table of 1024 descriptors, which threads may share. A descriptor holds a
  capability handle of the service its type stands for; descriptors that were duplicated
  from each other hold the same handle, and count each other in `refCount`. The capability
  is revoked when the last of them is closed, and the answer of the revocation is not
  looked at.

  The budget of the persona and the process records are the environment: a call that asks
  them carries the answer. Pipes are not modelled, a pipe handle is revoked elsewhere.
  Left out are the counters for statistics, and the calls that read, write and seek.
-/
import LimitlessOS.Fs.Server

namespace LimitlessOS.Fd

open Lib Capability

abbrev tableLimit : Nat := 1024
abbrev processTables : Nat := 16
def invalidFd : UInt32 := 0xFFFFFFFF
def flagCloexec : UInt32 := 1
def flagNonblock : UInt32 := 2

/-- `FD64_TYPE_*` -/
inductive FdType
  | empty | ramfsNode | pipeRead | pipeWrite | socket | device | eventfd
  deriving DecidableEq

/-- `fd_entry_t` -/
structure Entry where
  capabilityHandle : UInt32
  fdType : FdType
  flags : UInt32
  fileOffset : UInt64
  refCount : UInt32
  deriving DecidableEq

namespace Entry

/-- `fd64_clear_entry` -/
def clear : Entry := { capabilityHandle := invalidResult, fdType := .empty, flags := 0, fileOffset := 0, refCount := 0 }

/-- `fd64_entry_active` -/
def active (e : Entry) : Bool := e.fdType ≠ .empty && e.capabilityHandle ≠ invalidResult && e.refCount ≠ 0

/-- The entry is open on the handle, as a descriptor of the type. -/
def on (handle : UInt32) (fdType : FdType) (e : Entry) : Bool :=
  e.active && e.capabilityHandle == handle && e.fdType == fdType

end Entry

/-- `fd_table_t` -/
structure Table where
  pid : UInt32
  ownerId : UInt32
  entries : Fin tableLimit → Entry
  liveCount : UInt32

namespace Table

def set (t : Table) (fd : Fin tableLimit) (e : Entry) : Table := { t with entries := Function.update t.entries fd e }

/-- `fd64_shared_entry_count` -/
def sharedEntryCount (t : Table) (handle : UInt32) (fdType : FdType) : Nat :=
  if handle = invalidResult then 0 else Slots.count t.entries (Entry.on handle fdType)

/-- `fd64_sync_shared_ref_counts` -/
def syncSharedRefCounts (t : Table) (handle : UInt32) (fdType : FdType) : Table :=
  if t.sharedEntryCount handle fdType = 0 then t
  else
    { t with
      entries := fun fd =>
        if (t.entries fd).on handle fdType then
          { t.entries fd with refCount := UInt32.ofNat (t.sharedEntryCount handle fdType) }
        else t.entries fd }

/-- The flags of a descriptor are close-on-exec and non-blocking. -/
def flagsOk (flags : UInt32) : Bool := flags &&& ~~~(flagCloexec ||| flagNonblock) = 0

/-- `fd64_install_entry`; `budget` is the answer of `persona64_budget_check_fd`. -/
def installEntry (t : Table) (fd : Fin tableLimit) (handle : UInt32) (fdType : FdType) (flags : UInt32) (budget : Bool) :
    Option Table :=
  if handle = invalidResult ∨ fdType = .empty ∨ !flagsOk flags ∨ (t.entries fd).active ∨ !budget then none
  else
    some { t.set fd { capabilityHandle := handle, fdType, flags, fileOffset := 0, refCount := 1 } with
      liveCount := t.liveCount + 1 }

/-- The first entry that is not in use. -/
def firstFree (t : Table) : Option (Fin tableLimit) := Slots.first t.entries fun e => !e.active

/-- Clear the entry and count it off. -/
def discard (t : Table) (fd : Fin tableLimit) : Table :=
  { t.set fd .clear with liveCount := if t.liveCount ≠ 0 then t.liveCount - 1 else 0 }

/-- The part of `fd64_dup_into` after the target has been closed. -/
def copyInto (t : Table) (source : Entry) (fd : Fin tableLimit) : Table :=
  ({ t.set fd { source with refCount := 1 } with liveCount := t.liveCount + 1 } : Table).syncSharedRefCounts
    source.capabilityHandle source.fdType

end Table

/-- The file service, and the descriptor tables of the processes. -/
structure Files where
  server : Fs.Server
  /-- `g_fd64_tables`, where they are in use -/
  tables : Fin processTables → Option Table
  /-- `process64_fd_table` -/
  attached : UInt32 → Option (Fin processTables)

namespace Files

/-- `fd64_table_for_process` -/
def tableForProcess (f : Files) (pid : UInt32) : Option (Fin processTables × Table) :=
  (f.attached pid).bind fun k => (f.tables k).map fun t => (k, t)

def setTable (f : Files) (k : Fin processTables) (t : Table) : Files := { f with tables := Function.update f.tables k (some t) }

/-- `fd64_claim_table`; `known` says that the process has a principal and takes the table. -/
def claimTable (f : Files) (pid ownerId : UInt32) (known : Bool) : Bool × Files :=
  if pid = invalidResult ∨ ownerId = 0 ∨ !known then (false, f)
  else
    match f.attached pid with
    | some _ => (true, f)
    | none =>
      match Slots.first f.tables Option.isNone with
      | none => (false, f)
      | some k =>
        (true, { f.setTable k { pid, ownerId, entries := fun _ => .clear, liveCount := 0 } with
          attached := Function.update f.attached pid (some k) })

/-- `fd64_alloc` -/
def alloc (f : Files) (pid handle : UInt32) (fdType : FdType) (flags : UInt32) (budget : Bool) : UInt32 × Files :=
  match f.tableForProcess pid with
  | none => (invalidFd, f)
  | some (k, t) =>
    match t.firstFree with
    | none => (invalidFd, f)
    | some fd =>
      match t.installEntry fd handle fdType flags budget with
      | none => (invalidFd, f)
      | some t => (UInt32.ofNat fd, f.setTable k t)

/-- `fd64_open_ramfs` -/
def openRamfs (f : Files) (pid : UInt32) (path : Nat → UInt8) (count flags : UInt32) (storage : Fs.Storage) (budget : Bool) :
    UInt32 × Files :=
  match f.tableForProcess pid with
  | none => (invalidFd, f)
  | some (_, t) =>
    if count = 0 ∨ !Table.flagsOk flags then (invalidFd, f)
    else
      match f.server.broker.grantService classRamfs (rightSend ||| rightQuery) t.ownerId with
      | (base, broker) =>
        if base = invalidResult then (invalidFd, { f with server := { f.server with broker } })
        else
          match ({ f.server with broker } : Fs.Server).openCommon base (.kernel path) count t.ownerId storage with
          | (node, server) =>
            let server := { server with broker := (server.broker.revoke base t.ownerId).2 }
            if node = invalidResult then (invalidFd, { f with server })
            else
              match alloc { f with server } pid node .ramfsNode flags budget with
              | (fd, f) => (fd, if fd = invalidFd then { f with server := (f.server.revoke node t.ownerId).2 } else f)

/-- `fd64_revoke_entry_capability` -/
def revokeEntryCapability (s : Fs.Server) (t : Table) (e : Entry) : Fs.Server :=
  match e.fdType with
  | .ramfsNode => (s.revoke e.capabilityHandle t.ownerId).2
  | .pipeRead | .pipeWrite => s
  | _ => { s with broker := (s.broker.revoke e.capabilityHandle t.ownerId).2 }

/-- `fd64_free`, `fd64_close` -/
def close (f : Files) (pid fd : UInt32) : UInt32 × Files :=
  match f.tableForProcess pid with
  | none => (0, f)
  | some (k, t) =>
    if hfd : fd.toNat < tableLimit then
      let e := t.entries ⟨fd.toNat, hfd⟩
      if !e.active then (0, f)
      else if 1 < t.sharedEntryCount e.capabilityHandle e.fdType then
        (1, f.setTable k ((t.discard ⟨fd.toNat, hfd⟩).syncSharedRefCounts e.capabilityHandle e.fdType))
      else if 1 < e.refCount then (1, f.setTable k (t.set ⟨fd.toNat, hfd⟩ { e with refCount := e.refCount - 1 }))
      else (1, { f.setTable k (t.discard ⟨fd.toNat, hfd⟩) with server := revokeEntryCapability f.server t e })
    else (0, f)

/-- `fd64_dup_into`; the target is closed in the table of the process that the table belongs to. -/
def dupInto (f : Files) (k : Fin processTables) (t : Table) (oldFd newFd : UInt32) (budget : Bool) : UInt32 × Files :=
  if h : oldFd.toNat < tableLimit ∧ newFd.toNat < tableLimit then
    let source := t.entries ⟨oldFd.toNat, h.1⟩
    if !source.active then (invalidFd, f)
    else if oldFd = newFd then (newFd, f)
    else
      match if (t.entries ⟨newFd.toNat, h.2⟩).active then f.close t.pid newFd else (1, f) with
      | (closed, f) =>
        match f.tables k with
        | none => (invalidFd, f)
        | some t =>
          if closed = 0 ∨ !budget then (invalidFd, f)
          else (newFd, f.setTable k (t.copyInto source ⟨newFd.toNat, h.2⟩))
  else (invalidFd, f)

/-- `fd64_dup` -/
def dup (f : Files) (pid oldFd : UInt32) (budget : Bool) : UInt32 × Files :=
  match f.tableForProcess pid with
  | none => (invalidFd, f)
  | some (k, t) =>
    if h : oldFd.toNat < tableLimit then
      if !(t.entries ⟨oldFd.toNat, h⟩).active then (invalidFd, f)
      else
        match t.firstFree with
        | none => (invalidFd, f)
        | some fd => f.dupInto k t oldFd (UInt32.ofNat fd) budget
    else (invalidFd, f)

/-- `fd64_dup2` -/
def dup2 (f : Files) (pid oldFd newFd : UInt32) (budget : Bool) : UInt32 × Files :=
  match f.tableForProcess pid with
  | none => (invalidFd, f)
  | some (k, t) => f.dupInto k t oldFd newFd budget

end Files

/-! ## Runs -/

/-- A call that takes a descriptor, or one that goes to the file service. -/
inductive Op where
  | fs (op : Fs.Op)
  | claimTable (pid ownerId : UInt32) (known : Bool)
  | alloc (pid handle : UInt32) (fdType : FdType) (flags : UInt32) (budget : Bool)
  | openRamfs (pid : UInt32) (path : Nat → UInt8) (count flags : UInt32) (storage : Fs.Storage) (budget : Bool)
  | close (pid fd : UInt32)
  | dup (pid oldFd : UInt32) (budget : Bool)
  | dup2 (pid oldFd newFd : UInt32) (budget : Bool)

namespace Files

def step (f : Files) : Op → Files
  | .fs op => { f with server := f.server.step op }
  | .claimTable pid ownerId known => (f.claimTable pid ownerId known).2
  | .alloc pid handle fdType flags budget => (f.alloc pid handle fdType flags budget).2
  | .openRamfs pid path count flags storage budget => (f.openRamfs pid path count flags storage budget).2
  | .close pid fd => (f.close pid fd).2
  | .dup pid oldFd budget => (f.dup pid oldFd budget).2
  | .dup2 pid oldFd newFd budget => (f.dup2 pid oldFd newFd budget).2

/-- No process has a table. -/
def boot (server : Fs.Server) : Files := { server, tables := fun _ => none, attached := fun _ => none }

end Files

end LimitlessOS.Fd
