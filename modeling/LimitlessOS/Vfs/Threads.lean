/-
  LimitlessOS.Vfs.Threads — descriptors that threads share (`arch/x86_64/linux_vfs.c`, `fd.c`, `linux_abi.c`).

  A thread has the descriptor table, the address space and the principal of the process that
  cloned it, and a pid of its own. What a descriptor is open on and its offset stand in the
  table. The path it was opened by and the place in a directory stand in 16 records, found by
  pid and descriptor; the payload of a file in /proc and the drive are found by pid.

  The calls are read, getdents64, fstat and lseek, and those that change a table: open (by
  what it leaves: an object and the path behind the links), close, dup, dup2, pipe; a process
  appears with a table (launch, or fork), clones threads, and exits. What the file service,
  the pipes, the keyboard, the other providers and the signals answer is the environment, as
  functions of what the code passes them. Left out are the counters for statistics, the flags
  of descriptors, and sockets and event descriptors, which nothing here makes.
-/
import LimitlessOS.Lib.KeyedSlots
import LimitlessOS.Vfs.Namespace

namespace LimitlessOS

open Function Lib Ramfs Vfs Keyed

namespace Threads

def readChunkBytes : Nat := 128
def direntHeaderBytes : Nat := 19
def direntMaxRecordBytes : Nat := 64
def procFdMask : Nat := 255
abbrev maxTables : Nat := 16
abbrev maxPathRecords : Nat := 16

/-! ## Objects and tables -/

/-- The device types of a handle with the tag 0x76000000. -/
inductive Device where
  | null | zero | urandom | stdin | stdout | stderr | directory
  | procMaps | procExe | procStatus | procCmdline | procEnviron | procFdDir
  | procFdLink (target : UInt8)
  | procMeminfo | nvmeFile
  deriving DecidableEq

/-- `LINUX_VFS64_DEVICE_NULL` to `LINUX_VFS64_DEVICE_NVME_FILE` -/
def Device.type : Device → UInt32
  | .null => 1 | .zero => 2 | .urandom => 3 | .stdin => 4 | .stdout => 5 | .stderr => 6 | .directory => 7
  | .procMaps => 8 | .procExe => 9 | .procStatus => 10 | .procCmdline => 11 | .procEnviron => 12 | .procFdDir => 13
  | .procFdLink _ => 14 | .procMeminfo => 15 | .nvmeFile => 16

/-- `linux_vfs64_device_handle`, `linux_vfs64_proc_handle` -/
def Device.handle : Device → UInt32
  | .procFdLink target => (0x76000000 : UInt32) ||| (14 : UInt32) ||| target.toUInt32 <<< (8 : UInt32)
  | d => (0x76000000 : UInt32) ||| d.type

/-- What a descriptor is open on: a handle of the file service, an end of a pipe, a device handle that is not of this
    file (the keyboard and the screen), or a device of this file. -/
inductive Object where
  | node (handle : UInt32)
  | pipeRead (handle : UInt32)
  | pipeWrite (handle : UInt32)
  | terminal (handle : UInt32)
  | device (d : Device)
  deriving DecidableEq

/-- `fd_entry_t` -/
structure Entry where
  object : Object
  offset : Nat
  deriving DecidableEq

/-- `fd_table_t` -/
structure Table where
  owner : UInt32
  entries : Fin fdLimit → Option Entry

/-- `linux_vfs64_fd_path_record_t` -/
structure PathRecord where
  pid : UInt32
  fd : Fin fdLimit
  path : List UInt8
  cursor : Nat
  deriving DecidableEq

def PathRecord.key (r : PathRecord) : UInt32 × Fin fdLimit := (r.pid, r.fd)

end Threads

open Threads in
/-- The descriptor tables, which table and principal a process or thread has and whether it is a clone, the path
    records, and the counter of /dev/urandom. -/
structure Threads where
  tables : Fin maxTables → Option Table
  attached : UInt32 → Option (Fin maxTables)
  principal : UInt32 → UInt32
  clones : UInt32 → Bool
  paths : Fin maxPathRecords → Option PathRecord
  random : UInt32

namespace Threads

/-! ## Answers -/

inductive StatNode where
  | unknown | directory | file | symlink | char
  deriving DecidableEq

/-- `fd64_stat_t`; the block size and the blocks follow from the size, and the time is never set. -/
structure Stat where
  size : Nat
  deviceId : Nat
  inode : Nat
  mode : UInt32
  fdType : UInt32
  nodeType : StatNode
  rights : UInt32
  owner : UInt32
  linkCount : Nat
  fd : Nat
  handle : UInt32
  deriving DecidableEq

/-- What the file service knows of a node. -/
structure NodeStat where
  nodeType : StatNode
  size : Nat
  mode : UInt32
  rights : UInt32
  owner : UInt32
  deriving DecidableEq

inductive PipeRead where
  | bytes (bytes : List UInt8)
  | blocked
  | error

/-- `linux_vfs64_dirent_t` -/
structure Dirent where
  inode : Nat
  next : Nat
  type : UInt8
  name : List UInt8
  deriving DecidableEq

inductive ReadDir where
  | ok (entry : Dirent)
  | eof
  | notDirectory

structure Answers where
  /-- `fs64_read_kernel`, by handle, offset, byte count and owner. -/
  file : UInt32 → Nat → Nat → UInt32 → Option (List UInt8)
  /-- `fs64_stat_kernel`, `fs64_node_rights`, `fs64_node_owner`, by handle and owner. -/
  fileStat : UInt32 → UInt32 → Option NodeStat
  /-- `pipe64_read`, by handle, byte count and owner. -/
  pipe : UInt32 → Nat → UInt32 → PipeRead
  /-- `linux_abi64_terminal_read_kernel`, by handle, descriptor, byte count and principal. -/
  terminal : UInt32 → Fin fdLimit → Nat → UInt32 → Option (List UInt8)
  /-- `linux_abi64_unmasked_signal_pending` -/
  pending : UInt32 → Bool
  /-- `linux_vfs64_nvme_read_all`, by pid and path. -/
  nvme : UInt32 → List UInt8 → Option (List UInt8)
  /-- The payload of `linux_vfs64_read_proc_payload`, by pid. -/
  proc : UInt32 → Device → Option (List UInt8)
  /-- `linux_vfs64_lstat`, by pid and path. -/
  lstat : UInt32 → List UInt8 → Option Stat
  /-- Whether another provider resolves the path to a directory. -/
  directory : UInt32 → List UInt8 → Bool
  /-- `linux_vfs64_read_tmp_dirent`, `linux_vfs64_read_nvme_dirent`, by pid, path and cursor. -/
  dirent : UInt32 → List UInt8 → Nat → ReadDir

inductive Errno where
  | esrch | ebadf | enotdir | einval | efault | eintr | eagain
  deriving DecidableEq

/-- What a call returns and writes to the buffer of the caller. -/
inductive Outcome where
  | error (errno : Errno)
  | bytes (bytes : List UInt8)
  | offset (offset : Nat)
  | stat (stat : Stat)
  deriving DecidableEq

/-! ## Entries and path records -/

/-- `fd64_table_for_process` -/
def table (s : Threads) (pid : UInt32) : Option Table := (s.attached pid).bind s.tables

def entry (s : Threads) (pid : UInt32) (fd : Fin fdLimit) : Option Entry := (s.table pid).bind fun t => t.entries fd

def Table.set (t : Table) (fd : Fin fdLimit) (e : Option Entry) : Table := { t with entries := update t.entries fd e }

def setEntry (s : Threads) (pid : UInt32) (fd : Fin fdLimit) (e : Option Entry) : Threads :=
  match s.attached pid with
  | none => s
  | some k => { s with tables := update s.tables k ((s.tables k).map fun t => t.set fd e) }

/-- `linux_vfs64_fd_path`, `linux_vfs64_fd_dir_cursor` -/
def fdPath (s : Threads) (pid : UInt32) (fd : Fin fdLimit) : Option PathRecord := get PathRecord.key s.paths (pid, fd)

/-- `linux_vfs64_record_fd_path` -/
def recordFdPath (s : Threads) (pid : UInt32) (fd : Fin fdLimit) (path : List UInt8) : Bool × Threads :=
  if path = [] ∨ maxPathBytes < path.length then (false, s)
  else if (slot PathRecord.key s.paths (pid, fd)).isSome then
    (true, { s with paths := modify PathRecord.key s.paths (pid, fd) fun r => { r with path, cursor := 0 } })
  else
    match free s.paths with
    | none => (false, s)
    | some i => (true, { s with paths := put s.paths i ⟨pid, fd, path, 0⟩ })

/-- `linux_vfs64_forget_fd_path` -/
def forgetFdPath (s : Threads) (pid : UInt32) (fd : Fin fdLimit) : Threads :=
  { s with paths := erase PathRecord.key s.paths (pid, fd) }

/-- `linux_vfs64_set_fd_dir_cursor` -/
def setFdDirCursor (s : Threads) (pid : UInt32) (fd : Fin fdLimit) (cursor : Nat) : Threads :=
  { s with paths := modify PathRecord.key s.paths (pid, fd) fun r => { r with cursor } }

/-- `linux_vfs64_dup_fd_path` -/
def dupFdPath (s : Threads) (pid : UInt32) (old new : Fin fdLimit) : Bool × Threads :=
  if old = new then (true, s)
  else
    match s.fdPath pid old with
    | none => (true, s.forgetFdPath pid new)
    | some r => (s.forgetFdPath pid new).recordFdPath pid new r.path

/-! ## read -/

/-- The generator of /dev/urandom. -/
def randomBytes : Nat → Nat → UInt32 → List UInt8 × UInt32
  | 0, _, state => ([], state)
  | count + 1, index, state =>
    let a := state ^^^ state <<< 13
    let b := a ^^^ a >>> 17
    let c := b ^^^ b <<< 5
    let byte := (c &&& 0xFF).toUInt8
    let rest := randomBytes count (index + 1) c
    ((if byte = 0 then 0xA5 ^^^ UInt8.ofNat index else byte) :: rest.1, rest.2)

/-- The bytes of a payload from an offset, which moves on (`linux_vfs64_copy_proc_payload`). -/
def readPayload (s : Threads) (pid : UInt32) (fd : Fin fdLimit) (e : Entry) (count : Nat) :
    Option (List UInt8) → Outcome × Threads
  | none => (.error .ebadf, s)
  | some payload =>
    let bytes := (payload.drop e.offset).take count
    (.bytes bytes, s.setEntry pid fd (some { e with offset := e.offset + bytes.length }))

/-- `linux_vfs64_read_fd`, of a device of this file -/
def readDevice (s : Threads) (pid : UInt32) (fd : Fin fdLimit) (e : Entry) (d : Device) (count : Nat) (a : Answers) :
    Outcome × Threads :=
  match d with
  | .null => (.bytes [], s)
  | .zero => (.bytes (List.replicate count 0), s)
  | .urandom =>
    let seed := s.random ^^^ pid * 1103515245 ^^^ UInt32.ofNat fd * 2654435761 ^^^ UInt32.ofNat count
    let drawn := randomBytes count 0 seed
    (.bytes drawn.1, { s with random := drawn.2 + 0x9E3779B9 })
  | .nvmeFile => s.readPayload pid fd e count ((s.fdPath pid fd).bind fun r => a.nvme pid r.path)
  | .procMaps | .procExe | .procStatus | .procCmdline | .procEnviron | .procFdLink _ | .procMeminfo =>
    s.readPayload pid fd e count (a.proc pid d)
  | .stdin | .stdout | .stderr | .directory | .procFdDir => (.error .ebadf, s)

/-- `fd64_read` -/
def readEntry (s : Threads) (pid : UInt32) (fd : Fin fdLimit) (owner : UInt32) (e : Entry) (count : Nat) (a : Answers) :
    Outcome × Threads :=
  if 0xFFFFFFFF < e.offset then (.error .ebadf, s)
  else
    match e.object with
    | .node handle =>
      match a.file handle e.offset count owner with
      | none => (.error .ebadf, s)
      | some bytes => (.bytes bytes, s.setEntry pid fd (some { e with offset := e.offset + bytes.length }))
    | .pipeRead handle =>
      match a.pipe handle count owner with
      | .bytes bytes => (.bytes bytes, s)
      | .blocked => (.error (if a.pending pid then .eintr else .eagain), s)
      | .error => (.error .ebadf, s)
    | _ => (.error .ebadf, s)

/-- `linux_abi64_sys_read`; `writable` is the check of the buffer, in the address space that the threads share. -/
def sysRead (s : Threads) (pid : UInt32) (fd : Fin fdLimit) (count : Nat) (writable : Bool) (a : Answers) :
    Outcome × Threads :=
  match s.table pid with
  | none => (.error .ebadf, s)
  | some t =>
    match t.entries fd with
    | none => (.error .ebadf, s)
    | some e =>
      if s.principal pid = 0 then (.error .ebadf, s)
      else if count = 0 then (.bytes [], s)
      else if writable = false then (.error .efault, s)
      else
        match e.object with
        | .device d => s.readDevice pid fd e d (min count readChunkBytes) a
        | .terminal handle =>
          match a.terminal handle fd (min count readChunkBytes) (s.principal pid) with
          | none => (.error .ebadf, s)
          | some bytes => (.bytes bytes, s)
        | _ => s.readEntry pid fd t.owner e (min count readChunkBytes) a

/-! ## fstat -/

/-- `linux_vfs64_path_token` -/
def pathToken (path : List UInt8) : UInt32 := path.foldl (fun hash b => (hash ^^^ b.toUInt32) * 16777619) 2166136261

/-- `linux_vfs64_stat_inode` -/
def statInode (path : List UInt8) (fallback : UInt32) : UInt32 :=
  if pathToken path ≠ 0 then pathToken path else if fallback ≠ 0 then fallback else 1

/-- `linux_vfs64_dev_char_mode` -/
def devCharMode (d : Device) : UInt32 :=
  0o020000 ||| (if d = .null ∨ d = .zero ∨ d = .urandom ∨ d = .stdin then 0o444 else 0) |||
    (if d = .null ∨ d = .stdout ∨ d = .stderr then 0o222 else 0)

/-- `linux_vfs64_dev_char_rights` -/
def devCharRights (d : Device) : UInt32 :=
  0x1000 ||| (if d = .null ∨ d = .zero ∨ d = .urandom ∨ d = .stdin then 0x200 else 0) |||
    (if d = .null ∨ d = .stdout ∨ d = .stderr then 0x800 else 0)

/-- `linux_vfs64_fill_basic_stat`, of a device without a path record. -/
def deviceStat (s : Threads) (pid : UInt32) (d : Device) : Stat :=
  let path := if d = .directory then ascii "/" else ascii "/dev"
  { size := 0
    deviceId := (s.principal pid).toNat <<< 32 ||| (if d = .directory then 0 else 3 <<< 16 ||| 4)
    inode := (statInode path d.handle).toNat
    mode := if d = .directory then 0o040555 else devCharMode d
    fdType := 5
    nodeType := if d = .directory then .directory else .char
    rights := if d = .directory then 0x1300 else devCharRights d
    owner := s.principal pid
    linkCount := if d = .directory then 2 else 1
    fd := 0
    handle := statInode path d.handle }

/-- `fd64_stat` -/
def nodeStat (fd : Fin fdLimit) (owner handle : UInt32) (a : Answers) : Option Stat :=
  (a.fileStat handle owner).bind fun n =>
    if n.rights = 0 then none
    else
      some
        { size := n.size, deviceId := owner.toNat <<< 32 ||| 1, inode := handle.toNat, mode := n.mode, fdType := 1,
          nodeType := n.nodeType, rights := n.rights, owner := n.owner, linkCount := 1, fd, handle }

/-- `linux_vfs64_fstat` -/
def fstat (s : Threads) (pid : UInt32) (fd : Fin fdLimit) (a : Answers) : Option Stat :=
  (s.table pid).bind fun t =>
    (t.entries fd).bind fun e =>
      match e.object with
      | .node handle => nodeStat fd t.owner handle a
      | .pipeRead _ | .pipeWrite _ => none
      | .terminal _ => (s.fdPath pid fd).bind fun r => a.lstat pid r.path
      | .device d =>
        match s.fdPath pid fd with
        | some r => a.lstat pid r.path
        | none => if s.principal pid = 0 then none else some (s.deviceStat pid d)

/-- `linux_abi64_fstat_common` -/
def sysFstat (s : Threads) (pid : UInt32) (fd : Fin fdLimit) (writable : Bool) (a : Answers) : Outcome :=
  if s.principal pid = 0 then .error .esrch
  else if writable = false then .error .efault
  else
    match s.fstat pid fd a with
    | none => .error .ebadf
    | some stat => .stat stat

/-! ## lseek -/

/-- `linux_abi64_decode_lseek_offset` -/
def decodeLseekOffset (raw : UInt64) : Option Int :=
  if raw ≤ 0x7FFFFFFF then some raw.toNat
  else if 0xFFFFFFFF80000000 ≤ raw then some ((raw.toNat : Int) - 0x10000000000000000)
  else none

/-- `fd64_apply_seek_delta` -/
def applySeekDelta (base : Nat) (offset : Int) : Option Nat :=
  if offset < 0 then if base < (-offset).toNat then none else some (base - (-offset).toNat)
  else if 0xFFFFFFFF - offset.toNat < base then none
  else some (base + offset.toNat)

/-- The part of `fd64_seek` in front of the addition: what `SEEK_END` counts from, if the object can be sought in. -/
def seekEnd (s : Threads) (pid : UInt32) (fd : Fin fdLimit) (owner : UInt32) (e : Entry) (a : Answers) :
    Option (Option Nat) :=
  match e.object with
  | .node handle => some ((a.fileStat handle owner).map fun n => n.size)
  | .device _ =>
    (s.fstat pid fd a).bind fun stat =>
      if stat.nodeType = .file ∨ stat.nodeType = .symlink then some (some stat.size) else none
  | _ => none

/-- `linux_abi64_sys_lseek`, with `fd64_seek` -/
def sysLseek (s : Threads) (pid : UInt32) (fd : Fin fdLimit) (offset : UInt64) (whence : Nat) (a : Answers) :
    Outcome × Threads :=
  if s.principal pid = 0 then (.error .esrch, s)
  else
    match s.table pid with
    | none => (.error .ebadf, s)
    | some t =>
      match t.entries fd with
      | none => (.error .ebadf, s)
      | some e =>
        match decodeLseekOffset offset with
        | none => (.error .einval, s)
        | some delta =>
          if 2 < whence then (.error .einval, s)
          else
            match s.seekEnd pid fd t.owner e a with
            | none => (.error .ebadf, s)
            | some fileEnd =>
              match (if whence = 0 then some 0 else if whence = 1 then some e.offset else fileEnd).bind
                  fun base => applySeekDelta base delta with
              | none => (.error .ebadf, s)
              | some new => (.offset new, s.setEntry pid fd (some { e with offset := new }))

/-! ## getdents64 -/

def direntChr : UInt8 := 2
def direntDir : UInt8 := 4
def direntReg : UInt8 := 8
def direntLnk : UInt8 := 10

/-- `g_linux_vfs64_root_dirents` to `g_linux_vfs64_usr_local_bin_dirents`, by the path they are listed under. -/
def staticDirents (path : List UInt8) : Option (List (List UInt8 × UInt8 × Nat)) :=
  if path = ascii "/" then
    some [(ascii "proc", direntDir, 0x1001), (ascii "dev", direntDir, 0x1002), (ascii "tmp", direntDir, 0x1003),
      (ascii "nvme", direntDir, 0x1004), (ascii "bin", direntDir, 0x1005), (ascii "sbin", direntDir, 0x1006),
      (ascii "usr", direntDir, 0x1007)]
  else if path = ascii "/dev" then
    some [(ascii "null", direntChr, 0x2001), (ascii "zero", direntChr, 0x2002), (ascii "urandom", direntChr, 0x2003),
      (ascii "stdin", direntChr, 0x2004), (ascii "stdout", direntChr, 0x2005), (ascii "stderr", direntChr, 0x2006)]
  else if path = ascii "/proc" then some [(ascii "self", direntDir, 0x3001), (ascii "meminfo", direntReg, 0x3002)]
  else if path = ascii "/proc/self" then
    some [(ascii "maps", direntReg, 0x3101), (ascii "exe", direntLnk, 0x3102), (ascii "fd", direntDir, 0x3103),
      (ascii "status", direntReg, 0x3104), (ascii "cmdline", direntReg, 0x3105), (ascii "environ", direntReg, 0x3106)]
  else if path = ascii "/bin" ∨ path = ascii "/sbin" ∨ path = ascii "/usr/bin" ∨ path = ascii "/usr/sbin" then
    some [(ascii "busybox", direntReg, 0x4001), (ascii "echo", direntReg, 0x4002), (ascii "cat", direntReg, 0x4003),
      (ascii "ls", direntReg, 0x4004), (ascii "true", direntReg, 0x4005), (ascii "sh", direntReg, 0x4006)]
  else if path = ascii "/usr/local/bin" then
    some [(ascii "sbecho", direntReg, 0x4301), (ascii "sbcat", direntReg, 0x4302), (ascii "sbenv", direntReg, 0x4303)]
  else if path = ascii "/usr" then
    some [(ascii "bin", direntDir, 0x4101), (ascii "sbin", direntDir, 0x4102), (ascii "local", direntDir, 0x4103)]
  else if path = ascii "/usr/local" then some [(ascii "bin", direntDir, 0x4201)]
  else none

/-- `linux_vfs64_dirent_from_table` -/
def direntFromTable (entries : List (List UInt8 × UInt8 × Nat)) (cursor : Nat) : ReadDir :=
  match entries[cursor]? with
  | none => .eof
  | some (name, type, inode) => .ok ⟨inode, cursor + 1, type, name⟩

/-- `linux_vfs64_read_proc_fd_dirent`: the next open descriptor up to 255 other than the one that is read. -/
def readProcFdDirent (s : Threads) (pid : UInt32) (cursor : Nat) (iterator : Fin fdLimit) : ReadDir :=
  match (List.finRange fdLimit).find? fun fd =>
      cursor ≤ fd.val && fd.val ≤ procFdMask && fd != iterator && (s.entry pid fd).isSome with
  | none => .eof
  | some fd => .ok ⟨0x3200 + fd, fd + 1, direntLnk, decimal fd⟩

/-- `linux_vfs64_path_is_directory` -/
def pathIsDirectory (s : Threads) (pid : UInt32) (path : List UInt8) (a : Answers) : Bool :=
  if s.principal pid = 0 ∨ path = [] ∨ maxPathBytes < path.length ∨ path.head? ≠ some slash then false
  else
    match findMount path with
    | none => false
    | some m => if m.provider = .ramfs then m.prefixBytes == path else a.directory pid path

/-- `linux_vfs64_read_dirent` -/
def readDirent (s : Threads) (pid : UInt32) (fd : Fin fdLimit) (cursor : Nat) (a : Answers) : ReadDir :=
  match s.fdPath pid fd with
  | none => .notDirectory
  | some r =>
    if (s.entry pid fd).isNone ∨ s.pathIsDirectory pid r.path a = false then .notDirectory
    else
      match staticDirents r.path with
      | some entries => direntFromTable entries cursor
      | none =>
        if r.path = ascii "/proc/self/fd" then s.readProcFdDirent pid cursor fd
        else if r.path = ascii "/tmp" ∨ r.path = ascii "/nvme" ∨ 6 < r.path.length ∧ r.path.take 6 = ascii "/nvme/" then
          a.dirent pid r.path cursor
        else .notDirectory

/-- `linux_abi64_put_le64`, `linux_abi64_put_le16` -/
def littleEndian : Nat → Nat → List UInt8
  | 0, _ => []
  | bytes + 1, value => UInt8.ofNat value :: littleEndian bytes (value / 256)

/-- `linux_abi64_dirent64_record_length` -/
def direntRecordLength (nameBytes : Nat) : Nat := (direntHeaderBytes + nameBytes + 1 + 7) / 8 * 8

/-- `linux_abi64_format_dirent64` -/
def formatDirent64 (e : Dirent) : Option (List UInt8) :=
  if e.name = [] ∨ direntNameMax ≤ e.name.length ∨ direntMaxRecordBytes < direntRecordLength e.name.length then none
  else
    some (littleEndian 8 e.inode ++ littleEndian 8 e.next ++ littleEndian 2 (direntRecordLength e.name.length) ++
      e.type :: e.name ++ List.replicate (direntRecordLength e.name.length - direntHeaderBytes - e.name.length) 0)

/-- The loop of `linux_abi64_sys_getdents64`: what is written and the new cursor. Every round writes something, so
    that `byteCount` rounds are enough. -/
def getdentsLoop (s : Threads) (pid : UInt32) (fd : Fin fdLimit) (byteCount : Nat) (a : Answers) :
    Nat → Nat → List UInt8 → Except Errno (List UInt8 × Nat)
  | 0, cursor, written => .ok (written, cursor)
  | rounds + 1, cursor, written =>
    if byteCount ≤ written.length then .ok (written, cursor)
    else
      match s.readDirent pid fd cursor a with
      | .eof => .ok (written, cursor)
      | .notDirectory => if written = [] then .error .enotdir else .ok (written, cursor)
      | .ok e =>
        match formatDirent64 e with
        | none => .error .einval
        | some record =>
          if byteCount - written.length < record.length then
            if written = [] then .error .einval else .ok (written, cursor)
          else getdentsLoop s pid fd byteCount a rounds (cursor + 1) (written ++ record)

/-- `linux_abi64_sys_getdents64` -/
def sysGetdents64 (s : Threads) (pid : UInt32) (fd : Fin fdLimit) (byteCount : Nat) (writable : Bool) (a : Answers) :
    Outcome × Threads :=
  if s.principal pid = 0 then (.error .esrch, s)
  else if (s.entry pid fd).isNone then (.error .ebadf, s)
  else if byteCount = 0 ∨ 0xFFFFFFFF < byteCount then (.error .einval, s)
  else if writable = false then (.error .efault, s)
  else
    match s.fdPath pid fd with
    | none => (.error .enotdir, s)
    | some r =>
      match s.getdentsLoop pid fd byteCount a byteCount r.cursor [] with
      | .error errno => (.error errno, s)
      | .ok (written, cursor) => (.bytes written, s.setFdDirCursor pid fd cursor)

/-! ## Calls on a descriptor -/

inductive Call where
  | read (count : Nat) (writable : Bool)
  | getdents64 (byteCount : Nat) (writable : Bool)
  | fstat (writable : Bool)
  | lseek (offset : UInt64) (whence : Nat)

/-- One of the four calls, by a process or thread. -/
def call (s : Threads) (pid : UInt32) (fd : Fin fdLimit) (a : Answers) : Call → Outcome × Threads
  | .read count writable => s.sysRead pid fd count writable a
  | .getdents64 byteCount writable => s.sysGetdents64 pid fd byteCount writable a
  | .fstat writable => (s.sysFstat pid fd writable a, s)
  | .lseek offset whence => s.sysLseek pid fd offset whence a

/-! ## Calls that change the tables -/

/-- What an open comes to: the object, and the path behind the links. -/
structure Opened where
  object : Object
  path : List UInt8
  deriving DecidableEq

/-- The first descriptor of a table that is free. -/
def freeFd (s : Threads) (pid : UInt32) : Option (Fin fdLimit) := (s.table pid).bind fun t => Slots.first t.entries Option.isNone

/-- `linux_vfs64_open`, from the object on: `fd64_alloc` within the budget, and the record of the path. -/
def openPath (s : Threads) (pid : UInt32) (o : Opened) (budget : Bool) : Option (Fin fdLimit) × Threads :=
  match s.freeFd pid with
  | none => (none, s)
  | some fd =>
    if budget then (some fd, ((s.setEntry pid fd (some ⟨o.object, 0⟩)).recordFdPath pid fd o.path).2) else (none, s)

/-- `linux_abi64_sys_close` -/
def close (s : Threads) (pid : UInt32) (fd : Fin fdLimit) : Threads :=
  if (s.entry pid fd).isNone then s else (s.setEntry pid fd none).forgetFdPath pid fd

/-- `fd64_dup_into` with `linux_vfs64_dup_fd_path`, and the way back where there is no path record left. -/
def dupInto (s : Threads) (pid : UInt32) (old new : Fin fdLimit) (budget : Bool) : Threads :=
  match s.entry pid old with
  | none => s
  | some e =>
    if old = new then s
    else if budget = false then s.setEntry pid new none
    else
      match (s.setEntry pid new (some e)).dupFdPath pid old new with
      | (true, s') => s'
      | (false, s') => (s'.forgetFdPath pid new).setEntry pid new none

/-- `linux_abi64_sys_dup` -/
def dup (s : Threads) (pid : UInt32) (old : Fin fdLimit) (budget : Bool) : Threads :=
  match s.freeFd pid with
  | none => s
  | some new => s.dupInto pid old new budget

/-- `pipe64_create_flags`, from the two handles on. -/
def pipe (s : Threads) (pid : UInt32) (readHandle writeHandle : UInt32) (budget : Bool) : Threads :=
  match s.freeFd pid with
  | none => s
  | some fd =>
    if budget = false then s
    else
      match (s.setEntry pid fd (some ⟨.pipeRead readHandle, 0⟩)).freeFd pid with
      | none => s
      | some fd' => (s.setEntry pid fd (some ⟨.pipeRead readHandle, 0⟩)).setEntry pid fd' (some ⟨.pipeWrite writeHandle, 0⟩)

/-- A process gets a table: `fd64_init_process` or `fd64_fork_process`, with the descriptors it starts with. -/
def launch (s : Threads) (pid principal : UInt32) (entries : Fin fdLimit → Option Entry) : Threads :=
  if (s.attached pid).isSome ∨ principal = 0 then s
  else
    match free s.tables with
    | none => s
    | some k =>
      { s with
        tables := put s.tables k ⟨principal, entries⟩
        attached := update s.attached pid (some k)
        principal := update s.principal pid principal
        clones := update s.clones pid false }

/-- `linux_abi64_sys_clone` -/
def clone (s : Threads) (parent child : UInt32) : Threads :=
  if (s.table parent).isNone ∨ (s.attached child).isSome then s
  else
    { s with
      attached := update s.attached child (s.attached parent)
      principal := update s.principal child (s.principal parent)
      clones := update s.clones child true }

/-- `linux_abi64_sys_exit_common`: a clone leaves the table, anyone else takes it along; a forked child takes its path
    records along. -/
def exit (s : Threads) (pid : UInt32) (forked : Bool) : Threads :=
  match s.attached pid with
  | none => s
  | some k =>
    { s with
      tables := if s.clones pid then s.tables else update s.tables k none
      attached := update s.attached pid none
      paths := if forked then fun i => (s.paths i).filter fun r => r.pid ≠ pid else s.paths }

inductive Op where
  | call (pid : UInt32) (fd : Fin fdLimit) (a : Answers) (c : Call)
  | openPath (pid : UInt32) (o : Opened) (budget : Bool)
  | close (pid : UInt32) (fd : Fin fdLimit)
  | dup (pid : UInt32) (old : Fin fdLimit) (budget : Bool)
  | dup2 (pid : UInt32) (old new : Fin fdLimit) (budget : Bool)
  | pipe (pid readHandle writeHandle : UInt32) (budget : Bool)
  | launch (pid principal : UInt32) (entries : Fin fdLimit → Option Entry)
  | clone (parent child : UInt32)
  | exit (pid : UInt32) (forked : Bool)

def step (s : Threads) : Op → Threads
  | .call pid fd a c => (s.call pid fd a c).2
  | .openPath pid o budget => (s.openPath pid o budget).2
  | .close pid fd => s.close pid fd
  | .dup pid old budget => s.dup pid old budget
  | .dup2 pid old new budget => s.dupInto pid old new budget
  | .pipe pid readHandle writeHandle budget => s.pipe pid readHandle writeHandle budget
  | .launch pid principal entries => s.launch pid principal entries
  | .clone parent child => s.clone parent child
  | .exit pid forked => s.exit pid forked

def run (s : Threads) (ops : List Op) : Threads := ops.foldl step s

def boot : Threads :=
  { tables := fun _ => none, attached := fun _ => none, principal := fun _ => 0, clones := fun _ => false
    paths := fun _ => none, random := 0x5A17A001 }

end Threads

end LimitlessOS
