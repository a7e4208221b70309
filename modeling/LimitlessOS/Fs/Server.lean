/-
  LimitlessOS.Fs.Server — the file service (`arch/x86_64/fs.c`).

  A second table of handles stands beside the one of the capability broker. A record leads
  to a node of the RAM filesystem by its number, with the rights its type gives. A node is
  opened or created below a base, which is another node handle or, if the number is not in
  this table, a service capability for the filesystem; the record remembers the node
  handle it was opened through.

  The storage behind the service is the environment: a call that asks it carries the
  answers. The copies made from and to a caller's addresses are kept in `touched`. The
  counters for statistics are left out.
-/
import LimitlessOS.Capability.Table
import LimitlessOS.Ramfs.Tree

namespace LimitlessOS.Fs

open Lib Capability Ramfs

/-! ## Addresses -/

def userStackTop : UInt64 := 0x40020000
def userStackBytes : UInt64 := 0x1000
def userImageBase : UInt64 := 0x41000000

/-- `fs64_range_overflows` -/
def rangeOverflows (address : UInt64) (count : UInt32) : Bool :=
  if count = 0 then false else address + count.toUInt64 < address

/-- `fs64_address_is_kernel_high` -/
def addressIsKernelHigh (address : UInt64) (count : UInt32) : Bool :=
  if rangeOverflows address count then false
  else (address >>> 32).toUInt32 ≥ 0xFFFFFFFF && address.toUInt32 ≥ 0x80000000 && address + count.toUInt64 ≥ address

/-- `fs64_address_is_user_stack` -/
def addressIsUserStack (address : UInt64) (count : UInt32) : Bool :=
  if rangeOverflows address count then false
  else address ≥ userStackTop - userStackBytes && address + count.toUInt64 ≤ userStackTop

/-- `fs64_address_is_user_image` -/
def addressIsUserImage (imageSize : UInt32) (address : UInt64) (count : UInt32) : Bool :=
  if rangeOverflows address count then false
  else address ≥ userImageBase && address + count.toUInt64 ≤ userImageBase + imageSize.toUInt64

/-- `fs64_address_readable` -/
def addressReadable (imageSize : UInt32) (address : UInt64) (count : UInt32) : Bool :=
  if count = 0 then true
  else if address = 0 then false
  else addressIsKernelHigh address count || addressIsUserStack address count ||
    addressIsUserImage imageSize address count

/-- `fs64_address_writable` -/
def addressWritable (address : UInt64) (count : UInt32) : Bool :=
  if count = 0 then true
  else if address = 0 then false
  else addressIsKernelHigh address count || addressIsUserStack address count

/-- A copy from (or to) a caller's address. -/
structure Access where
  address : UInt64
  count : UInt32
  write : Bool
  deriving DecidableEq

/-- Where the bytes of an argument are: in the kernel, or at an address the caller passed; `memory` is what stands there. -/
inductive Argument where
  | kernel (memory : Nat → UInt8)
  | user (address : UInt64) (memory : Nat → UInt8)

/-! ## Records -/

abbrev tableLimit : Nat := 32
def handleBase : UInt32 := 0x6600
def pathScratchBytes : Nat := 256
def ioScratchBytes : Nat := 256
def storedPathBytes : Nat := 64

def rightList : UInt32 := 0x0100
def rightRead : UInt32 := 0x0200
def rightCreate : UInt32 := 0x0400
def rightWrite : UInt32 := 0x0800
def rightStat : UInt32 := 0x1000
def rightRename : UInt32 := 0x2000
def rightDelete : UInt32 := 0x4000
def rightDelegate : UInt32 := 0x8000

/-- `struct fs64_node_capability`; `path` has the stored bytes. -/
structure Record where
  active : Bool
  handle : UInt32
  nodeId : UInt32
  rights : UInt32
  parentHandle : UInt32
  ownerId : UInt32
  runtimeGeneration : UInt32
  runtimeToken : UInt32
  storageDescriptorSelector : UInt32
  path : List UInt8
  deriving DecidableEq

namespace Record

/-- `fs64_clear_capability`; the handle stays. -/
def clear (r : Record) : Record :=
  { active := false, handle := r.handle, nodeId := 0, rights := 0, parentHandle := 0, ownerId := 0, runtimeGeneration := 0
    runtimeToken := 0, storageDescriptorSelector := 0, path := [] }

def blank : Record :=
  { active := false, handle := 0, nodeId := 0, rights := 0, parentHandle := 0, ownerId := 0, runtimeGeneration := 0
    runtimeToken := 0, storageDescriptorSelector := 0, path := [] }

/-- The test of `fs64_runtime_is_current`. -/
def current (l : Launch) (r : Record) : Bool := l.accepts classRamfs r.runtimeGeneration r.runtimeToken

end Record

instance : Handled Record where
  active := Record.active
  handle := Record.handle
  parent := Record.parentHandle
  clear := Record.clear
  active_clear _ := rfl

/-- What the storage answers while a call runs. -/
structure Storage where
  /-- `mmio64_fs_shell_descriptor_selector_by_path` -/
  descriptorSelector : List UInt8 → UInt32
  /-- `mmio64_nvme_fat_shell_read_file` -/
  readFile : List UInt8 → UInt32 → Option (List UInt8)
  /-- `mmio64_fs_shell_read_descriptor` -/
  readDescriptor : UInt32 → Nat → Nat → UInt32 → Option (List UInt8)

structure Server where
  broker : Broker
  caps : HandleTable tableLimit Record
  tree : Tree
  /-- `runtime64_transfer_image_size` -/
  imageSize : UInt32
  touched : List Access

namespace Server

/-! ## Resolving handles -/

/-- `fs64_rights_for_node` -/
def rightsForNode (s : Server) (nodeId : UInt32) : UInt32 :=
  if s.tree.fs.nodeIsDirectory nodeId then
    rightList ||| rightCreate ||| rightStat ||| rightRename ||| rightDelete ||| rightDelegate
  else rightRead ||| rightWrite ||| rightStat ||| rightDelegate

/-- `fs64_runtime_is_current`: a stale record is cleared. -/
def runtimeIsCurrent (s : Server) (i : Fin tableLimit) : Bool × Server :=
  if (s.caps.slots i).current s.broker.launch then (true, s) else (false, { s with caps := s.caps.drop i })

/-- `fs64_resolve_node_capability` -/
def resolveNodeCapability (s : Server) (handle requiredRights owner : UInt32) : Option (Fin tableLimit) × Server :=
  if !principalIsActive owner then (none, s)
  else
    match s.caps.find handle with
    | none => (none, s)
    | some i =>
      if (s.caps.slots i).ownerId ≠ owner ∨ (s.caps.slots i).rights &&& requiredRights ≠ requiredRights ∨
          !s.tree.fs.nodeExists (s.caps.slots i).nodeId then (none, s)
      else
        match s.runtimeIsCurrent i with
        | (true, s) => (some i, s)
        | (false, s) => (none, s)

/-- What `fs64_resolve_base_node` writes out. -/
structure Base where
  nodeId : UInt32
  runtimeGeneration : UInt32
  runtimeToken : UInt32
  parentHandle : UInt32

/-- `fs64_resolve_base_node`: a node handle first, a service capability otherwise. -/
def resolveBaseNode (s : Server) (handle requiredRights owner : UInt32) : Option Base × Server :=
  match s.caps.find handle with
  | some i =>
    let r := s.caps.slots i
    if r.ownerId ≠ owner ∨ r.rights &&& requiredRights ≠ requiredRights ∨ !s.tree.fs.nodeIsDirectory r.nodeId then (none, s)
    else
      match s.runtimeIsCurrent i with
      | (false, s) => (none, s)
      | (true, s) => (some ⟨r.nodeId, r.runtimeGeneration, r.runtimeToken, r.handle⟩, s)
  | none =>
    match s.broker.route handle rightSend owner with
    | (endpoint, broker) =>
      if endpoint ≠ resolveEndpointClass classRamfs then (none, { s with broker })
      else
        match broker.runtimeGeneration handle owner with
        | (generation, broker) =>
          match broker.runtimeToken handle owner with
          | (token, broker) => (some ⟨nodeRoot, generation, token, 0⟩, { s with broker })

/-- The record a grant writes. -/
def grantedRecord (s : Server) (nodeId owner : UInt32) (base : Base) (selector : UInt32) (path : List UInt8)
    (handle : UInt32) : Record :=
  { active := true, handle, nodeId, rights := s.rightsForNode nodeId, parentHandle := base.parentHandle, ownerId := owner
    runtimeGeneration := base.runtimeGeneration, runtimeToken := base.runtimeToken
    storageDescriptorSelector := selector, path := path.take (storedPathBytes - 1) }

/-- `fs64_grant_node` -/
def grantNode (s : Server) (nodeId owner : UInt32) (base : Base) (selector : UInt32) (path : List UInt8) :
    UInt32 × Server :=
  if !principalIsActive owner || !s.tree.fs.nodeExists nodeId then (invalidResult, s)
  else
    match s.caps.free with
    | none => (invalidResult, s)
    | some i =>
      (s.caps.next, { s with caps := s.caps.issue i (s.grantedRecord nodeId owner base selector path) })

/-! ## Arguments -/

/-- `fs64_copy_from_address` -/
def copyFromAddress (s : Server) (address : UInt64) (memory : Nat → UInt8) (count : UInt32) :
    Option (List UInt8) × Server :=
  if addressReadable s.imageSize address count then
    (some ((List.range count.toNat).map memory), { s with touched := s.touched ++ [⟨address, count, false⟩] })
  else (none, s)

/-- `fs64_copy_to_address` -/
def copyToAddress (s : Server) (address : UInt64) (source : List UInt8) : Bool × Server :=
  if addressWritable address (UInt32.ofNat source.length) then
    (true, { s with touched := s.touched ++ [⟨address, UInt32.ofNat source.length, true⟩] })
  else (false, s)

/-- `fs64_load_path_argument` -/
def loadPathArgument (s : Server) (argument : Argument) (count : UInt32) : Option (List UInt8) × Server :=
  match argument with
  | .kernel memory => (some ((List.range count.toNat).map memory), s)
  | .user address memory => s.copyFromAddress address memory count

/-- The byte counts that stand for the whole scratch buffer. -/
def clampCount (count : UInt32) : UInt32 :=
  if count = 0 ∨ UInt32.ofNat ioScratchBytes < count then UInt32.ofNat ioScratchBytes else count

/-- The bytes a call hands out: to the kernel, or to an address the caller passed. -/
def deliver (s : Server) (output : Option UInt64) (bytes : List UInt8) : UInt32 × Server :=
  match output with
  | none => (UInt32.ofNat bytes.length, s)
  | some address =>
    match s.copyToAddress address bytes with
    | (true, s) => (UInt32.ofNat bytes.length, s)
    | (false, s) => (invalidResult, s)

/-! ## Opening and creating -/

/-- The part of `fs64_open_common` that finds the node, or takes it over from the storage. -/
def openNode (s : Server) (baseNodeId : UInt32) (path : List UInt8) (owner : UInt32) (storage : Storage) :
    Option UInt32 × Server :=
  match s.tree.openPath baseNodeId path with
  | some nodeId => (some nodeId, s)
  | none =>
    match storage.readFile path owner with
    | none => (none, s)
    | some imported =>
      if imported = [] then (none, s)
      else
        match s.tree.create baseNodeId path .file with
        | (none, tree) => (none, { s with tree })
        | (some nodeId, tree) =>
          match tree.write nodeId 0 imported with
          | (stored, tree) => (if stored = some imported.length then some nodeId else none, { s with tree })

/-- `fs64_open_common` -/
def openCommon (s : Server) (handle : UInt32) (path : Argument) (count owner : UInt32) (storage : Storage) :
    UInt32 × Server :=
  if count = 0 ∨ pathScratchBytes ≤ count.toNat then (invalidResult, s)
  else
    match s.resolveBaseNode handle rightList owner with
    | (none, s) => (invalidResult, s)
    | (some base, s) =>
      match s.loadPathArgument path count with
      | (none, s) => (invalidResult, s)
      | (some path, s) =>
        match s.openNode base.nodeId path owner storage with
        | (none, s) => (invalidResult, s)
        | (some nodeId, s) => s.grantNode nodeId owner base (storage.descriptorSelector path) path

/-- `enum ramfs_node_type` -/
def nodeTypeOf (code : UInt32) : NodeType :=
  if code = NodeType.code .directory then .directory else if code = NodeType.code .file then .file else .none

/-- `fs64_create_common` -/
def createCommon (s : Server) (handle : UInt32) (path : Argument) (count nodeType owner : UInt32) : UInt32 × Server :=
  if count = 0 ∨ pathScratchBytes ≤ count.toNat then (invalidResult, s)
  else
    match s.resolveBaseNode handle rightCreate owner with
    | (none, s) => (invalidResult, s)
    | (some base, s) =>
      match s.loadPathArgument path count with
      | (none, s) => (invalidResult, s)
      | (some path, s) =>
        match s.tree.create base.nodeId path (nodeTypeOf nodeType) with
        | (none, tree) => (invalidResult, { s with tree })
        | (some nodeId, tree) => grantNode { s with tree } nodeId owner base 0 path

/-! ## Using a node -/

/-- The common body of the calls that read from a node and hand the bytes out. -/
def readOut (s : Server) (requiredRight : UInt32) (handle : UInt32) (output : Option UInt64) (owner : UInt32)
    (bytes : Server → Record → Option (List UInt8)) : UInt32 × Server :=
  match s.resolveNodeCapability handle requiredRight owner with
  | (none, s) => (invalidResult, s)
  | (some i, s) =>
    match bytes s (s.caps.slots i) with
    | none => (invalidResult, s)
    | some bytes => s.deliver output bytes

def listBytes (capacity : UInt32) (s : Server) (r : Record) : Option (List UInt8) :=
  s.tree.fs.list r.nodeId (clampCount capacity).toNat

/-- `fs64_list`, `fs64_list_kernel` -/
def list (s : Server) (handle : UInt32) (output : Option UInt64) (capacity owner : UInt32) : UInt32 × Server :=
  s.readOut rightList handle output owner (listBytes capacity)

def readBytes (offset count owner : UInt32) (storage : Storage) (s : Server) (r : Record) : Option (List UInt8) :=
  if r.storageDescriptorSelector ≠ 0 then
    storage.readDescriptor r.storageDescriptorSelector offset.toNat (clampCount count).toNat owner
  else s.tree.fs.read r.nodeId offset.toNat (clampCount count).toNat

/-- `fs64_read`, `fs64_read_kernel` -/
def read (s : Server) (handle : UInt32) (output : Option UInt64) (offset count owner : UInt32) (storage : Storage) :
    UInt32 × Server :=
  s.readOut rightRead handle output owner (readBytes offset count owner storage)

def statBytes (capacity : UInt32) (s : Server) (r : Record) : Option (List UInt8) :=
  (s.tree.fs.stat r.nodeId).bind fun stat => formatStat stat (clampCount capacity).toNat

/-- `fs64_stat`, `fs64_stat_kernel` -/
def stat (s : Server) (handle : UInt32) (output : Option UInt64) (capacity owner : UInt32) : UInt32 × Server :=
  s.readOut rightStat handle output owner (statBytes capacity)

/-- `fs64_write`, `fs64_write_kernel`, up to the copy of the file they send to the storage. -/
def write (s : Server) (handle : UInt32) (input : Argument) (offset count owner : UInt32) : UInt32 × Server :=
  match s.resolveNodeCapability handle rightWrite owner with
  | (none, s) => (invalidResult, s)
  | (some i, s) =>
    match s.loadPathArgument input (clampCount count) with
    | (none, s) => (invalidResult, s)
    | (some bytes, s) =>
      match s.tree.write (s.caps.slots i).nodeId offset.toNat bytes with
      | (none, tree) => (invalidResult, { s with tree })
      | (some stored, tree) => (UInt32.ofNat stored, { s with tree })

/-- `fs64_node_rights` -/
def nodeRights (s : Server) (handle owner : UInt32) : UInt32 × Server :=
  match s.resolveNodeCapability handle 0 owner with
  | (none, s) => (0, s)
  | (some i, s) => ((s.caps.slots i).rights, s)

/-- `fs64_node_owner` -/
def nodeOwner (s : Server) (handle owner : UInt32) : UInt32 × Server :=
  match s.resolveNodeCapability handle 0 owner with
  | (none, s) => (0, s)
  | (some i, s) => ((s.caps.slots i).ownerId, s)

/-- `fs64_revoke` -/
def revoke (s : Server) (handle owner : UInt32) : UInt32 × Server :=
  match s.resolveNodeCapability handle 0 owner with
  | (none, s) => (0, s)
  | (some i, s) => (1, { s with caps := s.caps.revoke i handle })

/-! ## Moving and deleting -/

/-- The length checks of `fs64_rename_common` and `fs64_move_common`. -/
def pairFits (sourceCount destinationCount : UInt32) : Bool :=
  sourceCount ≠ 0 && destinationCount ≠ 0 && sourceCount.toNat < pathScratchBytes &&
    destinationCount.toNat < pathScratchBytes && sourceCount.toNat + 1 + destinationCount.toNat ≤ pathScratchBytes

/-- The answer of a call that reports success with 1. -/
def replied (ok : Bool) : UInt32 := if ok then 1 else invalidResult

/-- `fs64_rename_common`. The two paths stand behind each other, with one byte between them. -/
def renameCommon (s : Server) (handle : UInt32) (pair : Argument) (sourceCount destinationCount owner : UInt32) :
    UInt32 × Server :=
  if !pairFits sourceCount destinationCount then (0, s)
  else
    match s.resolveBaseNode handle rightRename owner with
    | (none, s) => (0, s)
    | (some base, s) =>
      match s.loadPathArgument pair (sourceCount + 1 + destinationCount) with
      | (none, s) => (0, s)
      | (some bytes, s) =>
        match s.tree.rename base.nodeId (bytes.take sourceCount.toNat) (bytes.drop (sourceCount.toNat + 1)) with
        | (ok, tree) => (replied ok, { s with tree })

/-- `fs64_move_common` -/
def moveCommon (s : Server) (sourceHandle destinationHandle : UInt32) (pair : Argument)
    (sourceCount destinationCount owner : UInt32) : UInt32 × Server :=
  if !pairFits sourceCount destinationCount then (0, s)
  else
    match s.resolveBaseNode sourceHandle rightRename owner with
    | (none, s) => (0, s)
    | (some source, s) =>
      match s.resolveBaseNode destinationHandle rightRename owner with
      | (none, s) => (0, s)
      | (some destination, s) =>
        match s.loadPathArgument pair (sourceCount + 1 + destinationCount) with
        | (none, s) => (0, s)
        | (some bytes, s) =>
          match s.tree.move source.nodeId (bytes.take sourceCount.toNat) destination.nodeId
              (bytes.drop (sourceCount.toNat + 1)) with
          | (ok, tree) => (replied ok, { s with tree })

/-- `fs64_delete_common` -/
def deleteCommon (s : Server) (handle : UInt32) (path : Argument) (count owner : UInt32) : UInt32 × Server :=
  if count = 0 ∨ pathScratchBytes ≤ count.toNat then (0, s)
  else
    match s.resolveBaseNode handle rightDelete owner with
    | (none, s) => (0, s)
    | (some base, s) =>
      match s.loadPathArgument path count with
      | (none, s) => (0, s)
      | (some path, s) =>
        match s.tree.delete base.nodeId path with
        | (ok, tree) => (replied ok, { s with tree })

end Server

/-! ## Runs -/

/-- A call to the service, or one that goes to the broker directly. -/
inductive Op where
  | broker (op : Broker.Op)
  | openNode (handle : UInt32) (path : Argument) (count owner : UInt32) (storage : Storage)
  | create (handle : UInt32) (path : Argument) (count nodeType owner : UInt32)
  | list (handle : UInt32) (output : Option UInt64) (capacity owner : UInt32)
  | read (handle : UInt32) (output : Option UInt64) (offset count owner : UInt32) (storage : Storage)
  | write (handle : UInt32) (input : Argument) (offset count owner : UInt32)
  | stat (handle : UInt32) (output : Option UInt64) (capacity owner : UInt32)
  | nodeRights (handle owner : UInt32)
  | revoke (handle owner : UInt32)
  | rename (handle : UInt32) (pair : Argument) (sourceCount destinationCount owner : UInt32)
  | move (sourceHandle destinationHandle : UInt32) (pair : Argument) (sourceCount destinationCount owner : UInt32)
  | delete (handle : UInt32) (path : Argument) (count owner : UInt32)

namespace Server

def step (s : Server) : Op → Server
  | .broker op => { s with broker := s.broker.step op }
  | .openNode handle path count owner storage => (s.openCommon handle path count owner storage).2
  | .create handle path count nodeType owner => (s.createCommon handle path count nodeType owner).2
  | .list handle output capacity owner => (s.list handle output capacity owner).2
  | .read handle output offset count owner storage => (s.read handle output offset count owner storage).2
  | .write handle input offset count owner => (s.write handle input offset count owner).2
  | .stat handle output capacity owner => (s.stat handle output capacity owner).2
  | .nodeRights handle owner => (s.nodeRights handle owner).2
  | .revoke handle owner => (s.revoke handle owner).2
  | .rename handle pair sourceCount destinationCount owner =>
    (s.renameCommon handle pair sourceCount destinationCount owner).2
  | .move sourceHandle destinationHandle pair sourceCount destinationCount owner =>
    (s.moveCommon sourceHandle destinationHandle pair sourceCount destinationCount owner).2
  | .delete handle path count owner => (s.deleteCommon handle path count owner).2

def run (s : Server) (ops : List Op) : Server := ops.foldl step s

/-- The service after `fs64_init`, over a broker at boot. -/
def boot (broker : Broker) (imageSize : UInt32) : Server :=
  { broker, caps := { slots := fun _ => .blank, next := handleBase }, tree := .boot, imageSize, touched := [] }

theorem run_append (s : Server) (a b : List Op) : s.run (a ++ b) = (s.run a).run b := List.foldl_append ..

theorem run_broker (s : Server) (ops : List Broker.Op) : s.run (ops.map .broker) = { s with broker := s.broker.run ops } := by
  induction ops generalizing s with
  | nil => rfl
  | cons op ops ih => exact ih { s with broker := s.broker.step op }

/-- A service at boot that nothing has been launched beside. -/
def idle : Server := boot Broker.idle 0

end Server

/-- A path the kernel passes. -/
def Argument.text (path : String) : Argument := .kernel fun i => (ascii path).getD i 0

/-- A storage that has no files. -/
def Storage.absent : Storage :=
  { descriptorSelector := fun _ => 0, readFile := fun _ _ => none, readDescriptor := fun _ _ _ _ => none }

end LimitlessOS.Fs
