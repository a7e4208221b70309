/-
  LimitlessOS.Pipe.Objects — anonymous pipes (`arch/x86_64/pipe.c`).

  There are sixteen pipe objects. An object is a ring of 4096 bytes with a read end and a
  write end; each end has an owner, at most one other owner it was granted to, a count of
  references and the task that is blocked on it. A handle names the object, its generation
  and the kind of the end; the generation field has twelve bits, the generation of an object
  has thirty-two.

  The run queue and the principals of the processes are the environment: a call carries them
  and returns the run queue. Without a running task of the owner a call cannot block; it spins
  and fails, as it does on the BIOS build. Descriptor tables and pipe budgets answer to the
  calls that ask them. Left out: the counters for statistics, the descriptor numbers and the
  semaphore value, which are written and never read, and the capacity, which is 4096.
-/
import LimitlessOS.Lib.Ring
import LimitlessOS.Sched.System

namespace LimitlessOS.Pipe

open Lib Sched Signal

/-- `PIPE64_BUFFER_BYTES` -/
abbrev bufferBytes : Nat := 4096

/-- `PIPE64_MAX_OBJECTS` -/
abbrev maxObjects : Nat := 16

/-- `PIPE64_SPIN_WAIT_LIMIT` -/
def spinWaitLimit : Nat := 1024

def invalidHandle : UInt32 := 0xFFFFFFFF
def ioError : UInt32 := 0xFFFFFFFF
def ioBlocked : UInt32 := 0xFFFFFFFE

/-- `PIPE64_HANDLE_KIND_*` -/
inductive Kind where
  | read
  | write
  deriving DecidableEq

namespace Kind

def code : Kind → UInt32
  | read => 0
  | write => 1

def other : Kind → Kind
  | read => write
  | write => read

end Kind

/-- The fields of one end of a `pipe64_buffer_t`. -/
structure End where
  ownerId : UInt32
  granteeOwnerId : UInt32
  refCount : UInt32
  handle : UInt32
  closed : Bool
  blockedTask : Option TaskId

namespace End

def clear : End where
  ownerId := 0
  granteeOwnerId := 0
  refCount := 0
  handle := invalidHandle
  closed := false
  blockedTask := none

/-- `pipe64_endpoint_owner_matches` -/
def ownerMatches (e : End) (ownerId : UInt32) : Bool :=
  ownerId ≠ 0 && (e.ownerId = ownerId || (e.granteeOwnerId ≠ 0 && e.granteeOwnerId = ownerId))

end End

theorem bufferBytes_pos : 0 < bufferBytes := by decide

theorem maxObjects_pos : 0 < maxObjects := by decide

/-- The ring of a pipe that has been cleared. -/
def emptyRing : Ring bufferBytes UInt8 where
  slots := fun _ => 0
  readIndex := ⟨0, bufferBytes_pos⟩
  writeIndex := ⟨0, bufferBytes_pos⟩
  count := 0

/-- `pipe64_buffer_t` -/
structure Buffer where
  live : Bool
  ownerPid : UInt32
  generation : UInt32
  ends : Kind → End
  ring : Ring bufferBytes UInt8

namespace Buffer

/-- `pipe64_clear_object` -/
def clear (generation : UInt32) : Buffer where
  live := false
  ownerPid := invalidPid
  generation := generation
  ends := fun _ => .clear
  ring := emptyRing

def setEnd (p : Buffer) (k : Kind) (e : End) : Buffer := { p with ends := Function.update p.ends k e }

def setBlocked (p : Buffer) (k : Kind) (task : Option TaskId) : Buffer := p.setEnd k { p.ends k with blockedTask := task }

end Buffer

/-! ## Handles -/

/-- `pipe64_make_handle` -/
def makeHandle (index : Fin maxObjects) (generation : UInt32) (kind : Kind) : UInt32 :=
  if generation = 0 then invalidHandle
  else
    let generationBits : UInt32 := generation <<< 8 &&& 0x000FFF00
    let indexBits : UInt32 := UInt32.ofNat index.val <<< 1 &&& 0xFE
    0x0F000000 ||| generationBits ||| indexBits ||| kind.code

/-- `pipe64_handle_index` -/
def handleIndex (handle : UInt32) : UInt32 := (handle &&& 0xFE) >>> 1

/-- `pipe64_handle_generation` -/
def handleGeneration (handle : UInt32) : UInt32 := (handle &&& 0x000FFF00) >>> 8

/-- `PIPE64_HANDLE_BASE_MASK` -/
def isPipeHandle (handle : UInt32) : Bool := handle &&& 0xFF000000 = 0x0F000000

/-- `pipe64_handle_kind`, of a pipe handle -/
def handleKind (handle : UInt32) : Kind := if handle &&& 1 = 0 then .read else .write

structure Pipes where
  objects : Fin maxObjects → Buffer

namespace Pipes

def set (s : Pipes) (i : Fin maxObjects) (p : Buffer) : Pipes := { s with objects := Function.update s.objects i p }

/-- `pipe64_init` -/
def init : Pipes where
  objects := fun _ => .clear 1

/-- `pipe64_find` -/
def find (s : Pipes) (handle ownerId : UInt32) : Option (Fin maxObjects) :=
  if !isPipeHandle handle ∨ ownerId = 0 then none
  else if h : (handleIndex handle).toNat < maxObjects then
    let p := s.objects ⟨(handleIndex handle).toNat, h⟩
    if !p.live ∨ p.generation ≠ handleGeneration handle ∨ (handle ≠ (p.ends .read).handle ∧ handle ≠ (p.ends .write).handle) ∨
        !(p.ends (handleKind handle)).ownerMatches ownerId then
      none
    else some ⟨(handleIndex handle).toNat, h⟩
  else none

/-! ## Making and granting -/

/-- The generation after this one. -/
def generationAfter (generation : UInt32) : UInt32 := if generation + 1 = 0 then 1 else generation + 1

/-- An object that has just been claimed. -/
def claimed (i : Fin maxObjects) (generation pid ownerId : UInt32) : Buffer where
  live := true
  ownerPid := pid
  generation := generation
  ends := fun k => { End.clear with ownerId, refCount := 1, handle := makeHandle i generation k }
  ring := emptyRing

/-- The part of `pipe64_create_flags` that takes an object. -/
def claimObject (s : Pipes) (pid ownerId : UInt32) : Option (Fin maxObjects × Pipes) :=
  match Slots.first s.objects fun p => !p.live with
  | none => none
  | some i => some (i, s.set i (claimed i (generationAfter (s.objects i).generation) pid ownerId))

/-- `pipe64_clear_object` -/
def clearObject (s : Pipes) (i : Fin maxObjects) : Pipes := s.set i (.clear (s.objects i).generation)

/-- `pipe64_create_flags`, once the process and the budget have been checked; `opened` says that both ends have got a
descriptor. -/
def create (s : Pipes) (pid ownerId : UInt32) (opened : Bool) : Option (Fin maxObjects) × Pipes :=
  if ownerId = 0 then (none, s)
  else
    match s.claimObject pid ownerId with
    | none => (none, s)
    | some (i, s) => if opened then (some i, s) else (none, s.clearObject i)

/-- The checks of `pipe64_grant_endpoint_inner` before the descriptor is made. -/
def grantable (s : Pipes) (handle sourceOwner targetOwner : UInt32) : Option (Fin maxObjects) :=
  match s.find handle sourceOwner with
  | none => none
  | some i =>
    let e := (s.objects i).ends (handleKind handle)
    if e.closed ∨ (e.granteeOwnerId ≠ 0 ∧ e.granteeOwnerId ≠ targetOwner) then none else some i

/-- The end has another holder. -/
def addHolder (s : Pipes) (i : Fin maxObjects) (k : Kind) (targetOwner : UInt32) : Pipes :=
  let p := s.objects i
  s.set i (p.setEnd k { p.ends k with granteeOwnerId := targetOwner, refCount := (p.ends k).refCount + 1 })

/-- `pipe64_grant_endpoint_inner`; `installed` says that the target has got a descriptor. -/
def grantEndpoint (s : Pipes) (handle sourceOwner targetOwner : UInt32) (installed : Bool) : Bool × Pipes :=
  match s.grantable handle sourceOwner targetOwner with
  | none => (false, s)
  | some i => if installed then (true, s.addHolder i (handleKind handle) targetOwner) else (false, s)

end Pipes

/-! ## Blocking -/

/-- The run queue, and `process64_principal`. -/
structure Env where
  queue : Runqueue
  principal : UInt32 → UInt32

namespace Env

/-- No task runs. -/
def idle : Env := ⟨.reset, fun _ => 0⟩

/-- `pipe64_current_task_for_owner` -/
def currentTaskForOwner (env : Env) (ownerId : UInt32) : Option TaskId :=
  match env.queue.currentTaskId with
  | none => none
  | some t =>
    if env.queue.taskState t ≠ .running ∨ env.queue.taskPid t = invalidPid ∨
        env.principal (env.queue.taskPid t) ≠ ownerId then
      none
    else some t

/-- `pipe64_block_current_task` -/
def blockCurrentTask (env : Env) (ownerId : UInt32) (slot : Option TaskId) : Bool × Option TaskId × Env :=
  if slot.isSome then (false, slot, env)
  else
    match env.currentTaskForOwner ownerId with
    | none => (false, slot, env)
    | some t =>
      match env.queue.blockTask t with
      | (true, queue) => (true, some t, { env with queue })
      | (false, queue) => (false, none, { env with queue })

/-- `pipe64_wake_blocked_task`; the slot is empty afterwards. -/
def wakeBlockedTask (env : Env) (slot : Option TaskId) : Env :=
  match slot with
  | none => env
  | some t => { env with queue := (env.queue.wakeTaskReplay t).2 }

/-- The loop that waits for room or for bytes: it blocks, or it spins until it gives up. -/
def wait (env : Env) (ownerId : UInt32) (closed : Bool) (slot : Option TaskId) : Nat → UInt32 × Option TaskId × Env
  | 0 =>
    match env.blockCurrentTask ownerId slot with
    | (blocked, slot, env) => (if blocked then ioBlocked else ioError, slot, env)
  | spins + 1 =>
    match env.blockCurrentTask ownerId slot with
    | (true, slot, env) => (ioBlocked, slot, env)
    | (false, slot, env) => if closed then (ioError, slot, env) else wait env ownerId closed slot spins

end Env

/-! ## Transfers -/

namespace Buffer

/-- The loop of `pipe64_write` -/
def writeBytes (ownerId : UInt32) (input : Nat → UInt8) : Nat → Nat → Buffer → Env → UInt32 × Buffer × Env
  | 0, bytesWritten, p, env =>
    if bytesWritten ≠ 0 then
      (UInt32.ofNat bytesWritten, p.setBlocked .read none, env.wakeBlockedTask (p.ends .read).blockedTask)
    else (UInt32.ofNat bytesWritten, p, env)
  | left + 1, bytesWritten, p, env =>
    if bufferBytes ≤ p.ring.count then
      if bytesWritten ≠ 0 then (UInt32.ofNat bytesWritten, p, env)
      else
        match env.wait ownerId (p.ends .read).closed (p.ends .write).blockedTask spinWaitLimit with
        | (result, slot, env) => (result, p.setBlocked .write slot, env)
    else writeBytes ownerId input left (bytesWritten + 1) { p with ring := p.ring.push (input bytesWritten) } env

/-- The loop of `pipe64_read`, with the bytes that it has stored. -/
def readBytes (ownerId : UInt32) : Nat → List UInt8 → Buffer → Env → UInt32 × List UInt8 × Buffer × Env
  | 0, output, p, env =>
    if output.length ≠ 0 ∧ p.ring.count < bufferBytes then
      (UInt32.ofNat output.length, output, p.setBlocked .write none, env.wakeBlockedTask (p.ends .write).blockedTask)
    else (UInt32.ofNat output.length, output, p, env)
  | left + 1, output, p, env =>
    if p.ring.count = 0 then
      if (p.ends .write).closed ∨ output.length ≠ 0 then (UInt32.ofNat output.length, output, p, env)
      else
        match env.wait ownerId false (p.ends .read).blockedTask spinWaitLimit with
        | (result, slot, env) => (result, output, p.setBlocked .read slot, env)
    else readBytes ownerId left (output ++ [p.ring.pop.1]) { p with ring := p.ring.pop.2 } env

end Buffer

namespace Pipes

/-- `pipe64_write`; the input is null or an array. -/
def write (s : Pipes) (handle : UInt32) (input : Option (Nat → UInt8)) (byteCount ownerId : UInt32) (env : Env) :
    UInt32 × Pipes × Env :=
  if byteCount = 0 then (0, s, env)
  else
    match input, s.find handle ownerId with
    | some input, some i =>
      let p := s.objects i
      if handleKind handle ≠ .write ∨ (p.ends .write).closed ∨ (p.ends .read).closed then (ioError, s, env)
      else
        match p.writeBytes ownerId input byteCount.toNat 0 env with
        | (result, p, env) => (result, s.set i p, env)
    | _, _ => (ioError, s, env)

/-- `pipe64_read`, with the bytes that are stored; `output` says that the pointer is not null. -/
def read (s : Pipes) (handle : UInt32) (output : Bool) (byteCount ownerId : UInt32) (env : Env) :
    UInt32 × List UInt8 × Pipes × Env :=
  if byteCount = 0 then (0, [], s, env)
  else if !output then (ioError, [], s, env)
  else
    match s.find handle ownerId with
    | none => (ioError, [], s, env)
    | some i =>
      let p := s.objects i
      if handleKind handle ≠ .read ∨ (p.ends .read).closed then (ioError, [], s, env)
      else
        match p.readBytes ownerId byteCount.toNat [] env with
        | (result, bytes, p, env) => (result, bytes, s.set i p, env)

/-- `pipe64_revoke_handle` -/
def revokeHandle (s : Pipes) (handle ownerId : UInt32) (env : Env) : Bool × Pipes × Env :=
  match s.find handle ownerId with
  | none => (false, s, env)
  | some i =>
    let p := s.objects i
    let k := handleKind handle
    let e := p.ends k
    let refCount := if e.refCount ≠ 0 then e.refCount - 1 else 0
    if refCount ≠ 0 then (true, s.set i (p.setEnd k { e with refCount }), env)
    else
      -- The last holder has closed the end: the task at the other end goes on.
      let p' := (p.setEnd k { e with refCount, closed := true }).setBlocked k.other none
      let env := env.wakeBlockedTask (p.ends k.other).blockedTask
      if (p'.ends .read).closed ∧ (p'.ends .write).closed then (true, s.set i (.clear p.generation), env)
      else (true, s.set i p', env)

end Pipes

/-! ## Runs -/

inductive Op where
  | create (pid ownerId : UInt32) (opened : Bool)
  | grant (handle sourceOwner targetOwner : UInt32) (installed : Bool)
  | write (handle : UInt32) (input : Option (Nat → UInt8)) (byteCount ownerId : UInt32) (env : Env)
  | read (handle : UInt32) (output : Bool) (byteCount ownerId : UInt32) (env : Env)
  | revoke (handle ownerId : UInt32) (env : Env)

namespace Pipes

def step (s : Pipes) : Op → Pipes
  | .create pid ownerId opened => (s.create pid ownerId opened).2
  | .grant handle sourceOwner targetOwner installed => (s.grantEndpoint handle sourceOwner targetOwner installed).2
  | .write handle input byteCount ownerId env => (s.write handle input byteCount ownerId env).2.1
  | .read handle output byteCount ownerId env => (s.read handle output byteCount ownerId env).2.2.1
  | .revoke handle ownerId env => (s.revokeHandle handle ownerId env).2.1

/-- The state after the calls. -/
def run (ops : List Op) : Pipes := ops.foldl step init

/-- The object that is taken first. -/
def firstPipe : Fin maxObjects := ⟨0, maxObjects_pos⟩

/-- Its handles when it is taken for the first time. -/
def firstHandle (k : Kind) : UInt32 := makeHandle firstPipe 2 k

end Pipes

end LimitlessOS.Pipe
