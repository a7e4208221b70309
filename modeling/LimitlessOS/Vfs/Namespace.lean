/-
  LimitlessOS.Vfs.Namespace — paths of Linux processes (`arch/x86_64/linux_vfs.c`).

  A path is opened by the provider of the longest mount point it starts with. The RAM
  filesystem stands behind the root and behind /tmp, and is one tree for all processes. A
  name directly in /tmp is taken for a name of the process: the path is replaced by one in
  the directory /tmp/p<pid>, and a table of 16 records says which names a process has. A
  record may be a symbolic link instead, which an open follows first; its target takes the
  place of the whole path.

  A process is known as long as it has a descriptor table. A descriptor of the RAM
  filesystem is the number of the node its handle was granted for; any other descriptor is
  `device`. Handles and capabilities are the environment, as are the other providers, the
  storage that missing files are taken from, and the budget: a call carries the answers.
  The path records, the identity and the drive binding of a process are answers too, where
  a fork copies them. Left out are the counters for statistics.
-/
import LimitlessOS.Lib.Run
import LimitlessOS.Ramfs.Location

namespace LimitlessOS.Vfs

open Function Lib Ramfs

def maxPathBytes : Nat := 128
def tmpBackendBytes : Nat := 128
def direntNameMax : Nat := 32
def symlinkMaxDepth : Nat := 4
abbrev maxTmpRecords : Nat := 16
abbrev fdLimit : Nat := 1024

def openCreate : UInt32 := 0x10000
def openNofollow : UInt32 := 0x20000
/-- `LINUX_VFS64_OPEN_SUPPORTED_FLAGS`, with the two flags of descriptors. -/
def supportedFlags : UInt32 := 3 ||| openCreate ||| openNofollow

/-- A path as a caller passes it: the bytes in front of a zero. -/
structure PathString where
  bytes : List UInt8
  terminated : (0 : UInt8) ∉ bytes
  deriving DecidableEq

/-! ## Mounts -/

inductive Provider where
  | ramfs | proc | dev | nvme | bin
  deriving DecidableEq

/-- `linux_vfs64_mount_t` -/
structure Mount where
  prefixBytes : List UInt8
  provider : Provider
  deriving DecidableEq

/-- `g_linux_vfs64_mounts` -/
def mounts : List Mount :=
  [⟨ascii "/", .ramfs⟩, ⟨ascii "/proc", .proc⟩, ⟨ascii "/dev", .dev⟩, ⟨ascii "/tmp", .ramfs⟩, ⟨ascii "/nvme", .nvme⟩,
    ⟨ascii "/bin", .bin⟩, ⟨ascii "/sbin", .bin⟩, ⟨ascii "/usr", .bin⟩, ⟨ascii "/usr/bin", .bin⟩, ⟨ascii "/usr/sbin", .bin⟩,
    ⟨ascii "/usr/local", .bin⟩, ⟨ascii "/usr/local/bin", .bin⟩]

/-- `linux_vfs64_prefix_matches` -/
def prefixMatches (path : List UInt8) (m : Mount) : Bool :=
  m.prefixBytes.isPrefixOf path &&
    (m.prefixBytes.length == 1 || path.length == m.prefixBytes.length || path[m.prefixBytes.length]? == some slash)

/-- `linux_vfs64_find_mount` -/
def findMount (path : List UInt8) : Option Mount :=
  mounts.foldl
    (fun best m =>
      if prefixMatches path m && Nat.blt (best.elim 0 fun b => b.prefixBytes.length) m.prefixBytes.length then some m
      else best) none

/-! ## Names in /tmp -/

/-- `linux_vfs64_tmp_child_name` -/
def tmpChildName (path : List UInt8) : Option (List UInt8) :=
  if path.length ≤ 5 ∨ path.take 5 ≠ ascii "/tmp/" then none
  else if direntNameMax < (path.drop 5).length ∨ (path.drop 5).any (· == slash) = true then none
  else if path.drop 5 = [dot] ∨ path.drop 5 = [dot, dot] then none
  else some (path.drop 5)

/-- `linux_vfs64_tmp_root_backend_path` -/
def tmpRootBackendPath (pid : UInt32) : Option (List UInt8) :=
  appendAll tmpBackendBytes [] [ascii "/tmp/p", decimal pid.toNat]

/-- `linux_vfs64_tmp_backend_path` -/
def tmpBackendPath (pid : UInt32) (path : List UInt8) : Option (List UInt8) :=
  (tmpChildName path).bind fun name =>
    appendAll tmpBackendBytes [] [ascii "/tmp/p", decimal pid.toNat, [slash], name]

/-- `linux_vfs64_tmp_record_t`; a record with a target is a symbolic link. -/
structure TmpRecord where
  pid : UInt32
  name : List UInt8
  target : Option PathString
  deriving DecidableEq

/-- What a descriptor is open on. -/
inductive Target where
  | node (id : UInt32)
  | device
  deriving DecidableEq

/-! ## Answers -/

/-- How the file service takes a call: it has no base for the caller, no handle for the node, or gives one. -/
inductive Service where
  | refused | full | granted
  deriving DecidableEq

/-- What another provider than the RAM filesystem makes of a path. -/
inductive Resolution where
  | denied | directory | link | file
  deriving DecidableEq

structure EnsureAnswers where
  tmp : Service
  own : Service

structure NodeAnswers where
  service : Service
  /-- What the storage has under the path. -/
  imported : Option (List UInt8)
  budget : Bool

structure OpenAnswers where
  resolution : Resolution
  createEnsure : EnsureAnswers
  createNode : Service
  ensure : EnsureAnswers
  node : NodeAnswers

structure ForkAnswers where
  /-- The other descriptors are copied, and nothing else that a fork needs runs out. -/
  copied : Bool
  fdPaths : Bool
  identity : Bool
  binding : Bool

end LimitlessOS.Vfs

structure LimitlessOS.Vfs where
  tree : LimitlessOS.Ramfs.Tree
  /-- `g_linux_vfs64_tmp_records`, where they are in use -/
  tmp : Fin LimitlessOS.Vfs.maxTmpRecords → Option LimitlessOS.Vfs.TmpRecord
  /-- The descriptor tables of the processes. -/
  tables : UInt32 → Option (Fin LimitlessOS.Vfs.fdLimit → Option LimitlessOS.Vfs.Target)

namespace LimitlessOS.Vfs

open Function Lib Ramfs

/-! ## The records of a process -/

def TmpRecord.isFor (pid : UInt32) (name : List UInt8) (r : Option TmpRecord) : Bool :=
  r.any fun r => r.pid == pid && r.name == name

/-- `linux_vfs64_find_tmp_record` -/
def findTmpRecord (s : Vfs) (pid : UInt32) (name : List UInt8) : Option (Fin maxTmpRecords) :=
  Slots.first s.tmp (TmpRecord.isFor pid name)

def setTmp (s : Vfs) (i : Fin maxTmpRecords) (r : Option TmpRecord) : Vfs := { s with tmp := update s.tmp i r }

/-- The first record that is not in use. -/
def freeTmpRecord (s : Vfs) : Option (Fin maxTmpRecords) := Slots.first s.tmp Option.isNone

/-- Whether the record is a symbolic link. -/
def isLink (s : Vfs) (i : Fin maxTmpRecords) : Bool := (s.tmp i).any fun r => r.target.isSome

/-- `linux_vfs64_record_tmp_file` -/
def recordTmpFile (s : Vfs) (pid : UInt32) (name : List UInt8) : Bool × Vfs :=
  match s.findTmpRecord pid name with
  | some i => if s.isLink i then (false, s) else (true, s.setTmp i (some ⟨pid, name, none⟩))
  | none =>
    match s.freeTmpRecord with
    | none => (false, s)
    | some i => (true, s.setTmp i (some ⟨pid, name, none⟩))

/-- The paths that may be the target of a link, and that a walk takes. -/
def pathFits (path : PathString) : Bool := !path.bytes.isEmpty && Nat.ble path.bytes.length maxPathBytes

/-- `linux_vfs64_record_tmp_symlink` -/
def recordTmpSymlink (s : Vfs) (pid : UInt32) (name : List UInt8) (target : PathString) : Bool × Vfs :=
  if !pathFits target ∨ target.bytes.head? ≠ some slash then (false, s)
  else
    match s.findTmpRecord pid name with
    | some _ => (false, s)
    | none =>
      match s.freeTmpRecord with
      | none => (false, s)
      | some i => (true, s.setTmp i (some ⟨pid, name, some target⟩))

/-- `linux_vfs64_find_tmp_symlink_path`, with the target of the record. -/
def findTmpSymlinkPath (s : Vfs) (pid : UInt32) (path : List UInt8) : Option PathString :=
  (tmpChildName path).bind fun name => (s.findTmpRecord pid name).bind fun i => (s.tmp i).bind fun r => r.target

/-- The loop of `linux_vfs64_resolve_tmp_symlink_walk`; only the first round may refuse to follow. -/
def followTmpSymlinks (s : Vfs) (pid : UInt32) : Nat → Bool → PathString → Option PathString
  | 0, _, _ => none
  | rounds + 1, nofollow, path =>
    if !pathFits path then none
    else
      match s.findTmpSymlinkPath pid path.bytes with
      | none => some path
      | some target => if nofollow then none else s.followTmpSymlinks pid rounds false target

/-- `linux_vfs64_resolve_tmp_symlink_walk`: the path that is opened. -/
def resolveTmpSymlinkWalk (s : Vfs) (pid : UInt32) (path : PathString) (flags : UInt32) : Option PathString :=
  s.followTmpSymlinks pid symlinkMaxDepth (flags &&& openNofollow != 0) path

/-! ## Nodes -/

/-- `fs64_create_kernel` from the root; the handle is revoked at once. -/
def createKernel (t : Tree) (path : List UInt8) (type : NodeType) (answer : Service) : Bool × Tree :=
  if answer = .refused then (false, t)
  else
    match t.create nodeRoot path type with
    | (none, t) => (false, t)
    | (some _, t) => (answer == .granted, t)

/-- `linux_vfs64_tmp_ensure_namespace` -/
def tmpEnsureNamespace (t : Tree) (pid : UInt32) (a : EnsureAnswers) : Bool × Tree :=
  match createKernel t (ascii "/tmp") .directory a.tmp with
  | (false, t) => (false, t)
  | (true, t) =>
    match tmpRootBackendPath pid with
    | none => (false, t)
    | some path => createKernel t path .directory a.own

/-- `linux_vfs64_tmp_create_file` -/
def tmpCreateFile (s : Vfs) (pid : UInt32) (path : List UInt8) (ensure : EnsureAnswers) (node : Service) : Bool × Vfs :=
  match tmpChildName path with
  | none => (false, s)
  | some name =>
    match tmpEnsureNamespace s.tree pid ensure with
    | (false, tree) => (false, { s with tree })
    | (true, tree) =>
      match tmpBackendPath pid path with
      | none => (false, { s with tree })
      | some backend =>
        match createKernel tree backend .file node with
        | (false, tree) => (false, { s with tree })
        | (true, tree) => recordTmpFile { s with tree } pid name

/-- The part of `fs64_open_common` that finds the node from the root, or takes it over from the storage. -/
def openNode (t : Tree) (path : List UInt8) (imported : Option (List UInt8)) : Option UInt32 × Tree :=
  match t.openPath nodeRoot path with
  | some id => (some id, t)
  | none =>
    match imported with
    | none => (none, t)
    | some bytes =>
      if bytes = [] then (none, t)
      else
        match t.create nodeRoot path .file with
        | (none, t) => (none, t)
        | (some id, t) =>
          match t.write id 0 bytes with
          | (stored, t) => (if stored = some bytes.length then some id else none, t)

/-! ## Descriptors -/

def setFd (s : Vfs) (pid : UInt32) (fd : Fin fdLimit) (target : Option Target) : Vfs :=
  { s with tables := update s.tables pid ((s.tables pid).map fun t => update t fd target) }

/-- The target of a descriptor. -/
def target (s : Vfs) (pid : UInt32) (fd : Fin fdLimit) : Option Target := (s.tables pid).bind fun t => t fd

/-- `fd64_alloc` -/
def alloc (s : Vfs) (pid : UInt32) (target : Target) (budget : Bool) : Option (Fin fdLimit) × Vfs :=
  match (s.tables pid).bind fun t => Slots.first t Option.isNone with
  | none => (none, s)
  | some fd => if budget then (some fd, s.setFd pid fd (some target)) else (none, s)

/-- `fd64_open_ramfs` -/
def openRamfs (s : Vfs) (pid : UInt32) (path : List UInt8) (a : NodeAnswers) : Option (Fin fdLimit) × Vfs :=
  if (s.tables pid).isNone ∨ path = [] ∨ a.service = .refused then (none, s)
  else
    match openNode s.tree path a.imported with
    | (none, tree) => (none, { s with tree })
    | (some id, tree) => if a.service = .full then (none, { s with tree }) else alloc { s with tree } pid (.node id) a.budget

/-- `linux_vfs64_resolve`, up to the provider: the mount of the path. -/
def resolve (s : Vfs) (pid : UInt32) (path : List UInt8) : Option Mount :=
  if (s.tables pid).isNone ∨ path = [] ∨ maxPathBytes < path.length ∨ path.head? ≠ some slash then none
  else findMount path

/-- The branches of `linux_vfs64_open` for the other providers. -/
def openDevice (s : Vfs) (pid : UInt32) (provider : Provider) (flags : UInt32) (a : OpenAnswers) :
    Option (Fin fdLimit) × Vfs :=
  match a.resolution with
  | .denied => (none, s)
  | .directory => s.alloc pid .device a.node.budget
  | .link => if flags &&& openNofollow ≠ 0 then (none, s) else s.alloc pid .device a.node.budget
  | .file =>
    if (provider = .nvme ∨ provider = .bin) ∧ flags &&& openCreate ≠ 0 then (none, s)
    else s.alloc pid .device a.node.budget

/-- The last branch of `linux_vfs64_open`, for a name in /tmp. -/
def openTmp (s : Vfs) (pid : UInt32) (path name : List UInt8) (create : Bool) (a : OpenAnswers) :
    Option (Fin fdLimit) × Vfs :=
  if !create ∧ s.findTmpRecord pid name = none then (none, s)
  else
    match if create then s.tmpCreateFile pid path a.createEnsure a.createNode else (true, s) with
    | (false, s) => (none, s)
    | (true, s) =>
      match tmpEnsureNamespace s.tree pid a.ensure with
      | (false, tree) => (none, { s with tree })
      | (true, tree) =>
        match tmpBackendPath pid path with
        | none => (none, { s with tree })
        | some backend => openRamfs { s with tree } pid backend a.node

/-- `linux_vfs64_open`. Whether the path is a mount point itself is asked of the path as it was passed. -/
def openPath (s : Vfs) (pid : UInt32) (path : PathString) (flags : UInt32) (a : OpenAnswers) :
    Option (Fin fdLimit) × Vfs :=
  if flags &&& ~~~supportedFlags ≠ 0 then (none, s)
  else
    match s.resolveTmpSymlinkWalk pid path flags with
    | none => (none, s)
    | some effective =>
      match s.resolve pid effective.bytes with
      | none => (none, s)
      | some mount =>
        if mount.provider ≠ .ramfs then s.openDevice pid mount.provider flags a
        else if mount.prefixBytes = path.bytes then s.alloc pid .device a.node.budget
        else
          match tmpChildName effective.bytes with
          | some name => s.openTmp pid effective.bytes name (flags &&& openCreate != 0) a
          | none => if flags &&& openCreate ≠ 0 then (none, s) else s.openRamfs pid effective.bytes a.node

/-! ## Other calls -/

/-- `linux_vfs64_delete`. The service answers a delete that failed in the tree with a number that is not zero. -/
def delete (s : Vfs) (pid : UInt32) (path : PathString) (base service : Bool) : Bool × Vfs :=
  match tmpChildName path.bytes with
  | none => (false, s)
  | some name =>
    match s.findTmpRecord pid name with
    | none => (false, s)
    | some i =>
      match tmpBackendPath pid path.bytes with
      | none => (false, s)
      | some backend =>
        if (s.tables pid).isNone ∨ !base then (false, s)
        else if s.isLink i then (true, s.setTmp i none)
        else if !service then (false, s)
        else (true, { s.setTmp i none with tree := (s.tree.delete nodeRoot backend).2 })

/-- `linux_vfs64_symlink` -/
def symlink (s : Vfs) (pid : UInt32) (target link : PathString) (a : EnsureAnswers) : Bool × Vfs :=
  if (s.tables pid).isNone ∨ !pathFits target ∨ target.bytes.head? ≠ some slash then (false, s)
  else
    match tmpChildName link.bytes with
    | none => (false, s)
    | some name =>
      match tmpEnsureNamespace s.tree pid a with
      | (false, tree) => (false, { s with tree })
      | (true, tree) => recordTmpSymlink { s with tree } pid name target

/-- `linux_vfs64_write_fd` on a node. -/
def writeFd (s : Vfs) (pid : UInt32) (fd : Fin fdLimit) (offset : Nat) (source : List UInt8) : Option Nat × Vfs :=
  match s.target pid fd with
  | some (.node id) =>
    match s.tree.write id offset source with
    | (stored, tree) => (stored, { s with tree })
  | _ => (none, s)

/-- `linux_vfs64_read_fd` on a node. -/
def readFd (s : Vfs) (pid : UInt32) (fd : Fin fdLimit) (offset capacity : Nat) : Option (List UInt8) :=
  match s.target pid fd with
  | some (.node id) => s.tree.fs.read id offset capacity
  | _ => none

/-- `linux_vfs64_clear_process_records` -/
def clearProcessRecords (s : Vfs) (pid : UInt32) : Vfs :=
  { s with tmp := fun i => if (s.tmp i).any (fun r => r.pid == pid) then none else s.tmp i }

/-- One round of `linux_vfs64_fork_copy_tmp_namespace`. -/
def copyTmpRecord (parent child : UInt32) (s : Vfs) (i : Fin maxTmpRecords) : Option Vfs :=
  match s.tmp i with
  | none => some s
  | some r =>
    if r.pid ≠ parent then some s
    else
      match s.freeTmpRecord with
      | none => none
      | some j => some (s.setTmp j (some { r with pid := child }))

/-- `linux_vfs64_fork_copy_tmp_namespace` -/
def forkCopyTmpNamespace (s : Vfs) (parent child : UInt32) : Option Vfs :=
  (List.finRange maxTmpRecords).foldlM (copyTmpRecord parent child) s

/-- `linux_vfs64_fork_process` -/
def forkRecords (s : Vfs) (parent child : UInt32) (a : ForkAnswers) : Bool × Vfs :=
  if (s.tables parent).isNone ∨ (s.tables child).isNone ∨ parent = child then (false, s)
  else if !a.fdPaths ∨ !a.identity then (false, s.clearProcessRecords child)
  else
    match s.forkCopyTmpNamespace parent child with
    | none => (false, s.clearProcessRecords child)
    | some copied => if a.binding then (true, copied) else (false, copied.clearProcessRecords child)

def isNode (target : Option Target) : Bool := target.any fun t => t != .device

/-- `linux_abi64_sys_fork` from the new process on, as far as descriptors and the records here go. `fd64_fork_process`
    copies no descriptor of a node: a process that has one cannot fork. Whatever fails,
    `linux_abi64_fork_release_setup` clears the records of the child. -/
def fork (s : Vfs) (parent child : UInt32) (a : ForkAnswers) : Bool × Vfs :=
  match s.tables parent, s.tables child with
  | some t, none =>
    if (Slots.first t isNode).isSome ∨ !a.copied then (false, s.clearProcessRecords child)
    else
      match forkRecords { s with tables := update s.tables child (some t) } parent child a with
      | (true, s) => (true, s)
      | (false, s) => (false, { s.clearProcessRecords child with tables := update s.tables child none })
  | _, _ => (false, s)

/-- The release of an exit: `fd64_release_process`, and `linux_vfs64_release_process` for the child of a fork only. A
    program that was launched leaves its records behind. -/
def release (s : Vfs) (pid : UInt32) (forkChild : Bool) : Bool × Vfs :=
  if (s.tables pid).isNone then (false, s)
  else
    let cleared := if forkChild then s.clearProcessRecords pid else s
    (true, { cleared with tables := update s.tables pid none })

/-! ## Runs -/

inductive Op where
  | launch (pid : UInt32)
  | openPath (pid : UInt32) (path : PathString) (flags : UInt32) (a : OpenAnswers)
  | close (pid : UInt32) (fd : Fin fdLimit)
  | dup (pid : UInt32) (oldFd newFd : Fin fdLimit)
  | write (pid : UInt32) (fd : Fin fdLimit) (offset : Nat) (source : List UInt8)
  | delete (pid : UInt32) (path : PathString) (base service : Bool)
  | symlink (pid : UInt32) (target link : PathString) (a : EnsureAnswers)
  | fork (parent child : UInt32) (a : ForkAnswers)
  | release (pid : UInt32) (forkChild : Bool)

def step (s : Vfs) : Op → Vfs
  | .launch pid =>
    if (s.tables pid).isSome then s else { s with tables := update s.tables pid (some fun _ => none) }
  | .openPath pid path flags a => (s.openPath pid path flags a).2
  | .close pid fd => s.setFd pid fd none
  | .dup pid oldFd newFd =>
    match s.target pid oldFd with
    | none => s
    | some target => s.setFd pid newFd (some target)
  | .write pid fd offset source => (s.writeFd pid fd offset source).2
  | .delete pid path base service => (s.delete pid path base service).2
  | .symlink pid target link a => (s.symlink pid target link a).2
  | .fork parent child a => (s.fork parent child a).2
  | .release pid forkChild => (s.release pid forkChild).2

def run (s : Vfs) (ops : List Op) : Vfs := ops.foldl step s

/-- No process is there yet. -/
def boot : Vfs := { tree := .boot, tmp := fun _ => none, tables := fun _ => none }

end LimitlessOS.Vfs
