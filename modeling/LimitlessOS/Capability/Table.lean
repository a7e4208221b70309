/-
  LimitlessOS.Capability.Table — the service capability table of `capability.c`.

  One table of 64 records shared by all principals. A record is granted for an endpoint
  class or delegated from another record; every entry point that takes a handle first
  looks it up, which clears the record if its lease has run out. The statistics counters
  are left out. What the broker asks of other modules is part of its state: the launcher's
  manifests, the tick counter and the persona table.
-/
import LimitlessOS.Capability.Launch
import LimitlessOS.Lib.HandleTable

namespace LimitlessOS.Capability

open Lib

abbrev tableLimit : Nat := 64

def handleBase : UInt32 := 0x6400

def rightSend : UInt32 := 1

def rightDelegate : UInt32 := 2

def rightQuery : UInt32 := 4

def leasePermanent : UInt32 := 0xFFFFFFFF

def delegateLeaseTicks : UInt32 := 2

def personaUntagged : UInt32 := 0xFF

def personaTypeCount : UInt32 := 4

/-- `capability64_record` -/
structure Record where
  active : Bool
  handle : UInt32
  endpointClass : UInt32
  endpointId : UInt32
  rights : UInt32
  parentHandle : UInt32
  ownerId : UInt32
  expiryTick : UInt32
  runtimeGeneration : UInt32
  runtimeToken : UInt32
  personaType : UInt32
  personaMask : UInt32
  deriving DecidableEq, Repr

namespace Record

/-- `capability64_clear`: all but the handle -/
def clear (r : Record) : Record :=
  { active := false, handle := r.handle, endpointClass := 0, endpointId := 0, rights := 0, parentHandle := 0,
    ownerId := 0, expiryTick := 0, runtimeGeneration := 0, runtimeToken := 0, personaType := personaUntagged,
    personaMask := 0 }

/-- A slot after `capability64_init`. -/
def blank : Record :=
  { active := false, handle := 0, endpointClass := 0, endpointId := 0, rights := 0, parentHandle := 0, ownerId := 0,
    expiryTick := 0, runtimeGeneration := 0, runtimeToken := 0, personaType := personaUntagged, personaMask := 0 }

/-- `capability64_record_expired` -/
def expired (tick : UInt32) (r : Record) : Bool :=
  if r.expiryTick = leasePermanent then false else decide (r.expiryTick ≤ tick)

/-- The test of `capability64_record_runtime_is_current`. -/
def current (l : Launch) (r : Record) : Bool := l.accepts r.endpointClass r.runtimeGeneration r.runtimeToken

end Record

instance : Handled Record where
  active := Record.active
  handle := Record.handle
  parent := Record.parentHandle
  clear := Record.clear
  active_clear _ := rfl

/-- What `process.c` and `persona.c` answer: a process's principal, persona type and capability mask, and the
process of a principal. -/
structure Personas where
  principal : UInt32 → UInt32
  personaType : UInt32 → UInt32
  capabilityMask : UInt32 → UInt32
  pidForPrincipal : UInt32 → UInt32

structure Broker where
  caps : HandleTable tableLimit Record
  launch : Launch
  tick : UInt32
  personas : Personas

/-- `capability64_normalize_owner` -/
def normalizeOwner (owner : UInt32) : UInt32 := if owner ≠ 0 then owner else principalSystem

/-- `capability64_principal_is_valid` -/
def principalIsValid (owner : UInt32) : Bool := principalIsActive (normalizeOwner owner)

/-- `capability64_context_caller` -/
def contextCaller (context : UInt32) : UInt32 := normalizeOwner ((context >>> 16) &&& 0xFFFF)

/-- `capability64_context_recipient` -/
def contextRecipient (context : UInt32) : UInt32 :=
  let recipient := context &&& 0xFFFF
  if recipient ≠ 0 then recipient else contextCaller context

/-- `capability64_record_allows_recipient_persona` -/
def Personas.allowsRecipient (p : Personas) (r : Record) (recipient : UInt32) : Bool :=
  if r.personaMask = 0 then true
  else
    let pid := p.pidForPrincipal (normalizeOwner recipient)
    let mask := if pid ≠ invalidResult then p.capabilityMask pid else 0
    mask ≠ 0 && r.personaMask &&& mask ≠ 0

namespace Broker

/-- `capability64_init` -/
def initCaps : HandleTable tableLimit Record := { slots := fun _ => Record.blank, next := handleBase }

/-- `capability64_find_live`: a record whose lease has run out is cleared and not found. -/
def findLive (b : Broker) (handle : UInt32) : Option (Fin tableLimit) × Broker :=
  match b.caps.find handle with
  | none => (none, b)
  | some i => if (b.caps.slots i).expired b.tick then (none, { b with caps := b.caps.drop i }) else (some i, b)

/-! ## Granting and delegating -/

/-- The record a grant writes, bound to the runtime of the class by `capability64_bind_runtime`. -/
def grantedRecord (b : Broker) (endpointClass rights ownerId personaType personaMask handle : UInt32) : Record :=
  let runtime := b.launch.manifestByEndpointClass endpointClass
  { active := true, handle, endpointClass, endpointId := resolveEndpointClass endpointClass, rights, parentHandle := 0,
    ownerId, expiryTick := leasePermanent, runtimeGeneration := (runtime.map (·.runtimeGeneration)).getD 0,
    runtimeToken := (runtime.map (·.runtimeToken)).getD 0, personaType, personaMask }

/-- The record a delegation writes. -/
def delegatedRecord (source : Record) (rights recipient expiryTick handle : UInt32) : Record :=
  { active := true, handle, endpointClass := source.endpointClass, endpointId := source.endpointId, rights,
    parentHandle := source.handle, ownerId := recipient, expiryTick, runtimeGeneration := source.runtimeGeneration,
    runtimeToken := source.runtimeToken, personaType := source.personaType, personaMask := source.personaMask }

/-- `capability64_grant_service_tagged` -/
def grantServiceTagged (b : Broker) (endpointClass requestedRights ownerId personaType personaMask : UInt32) :
    UInt32 × Broker :=
  let endpointId := resolveEndpointClass endpointClass
  let owner := normalizeOwner ownerId
  if !principalIsValid owner then (invalidResult, b)
  else if endpointId = invalidResult then (invalidResult, b)
  else
    let allowed :=
      if endpointIsDelegable endpointId then rightSend ||| rightQuery ||| rightDelegate else rightSend ||| rightQuery
    let requested := if requestedRights = 0 then rightSend else requestedRights
    if requested &&& ~~~allowed ≠ 0 then (invalidResult, b)
    else
      match b.caps.free with
      | none => (invalidResult, b)
      | some i =>
        (b.caps.next,
          { b with caps := b.caps.issue i (b.grantedRecord endpointClass requested owner personaType personaMask) })

/-- `capability64_grant_service` -/
def grantService (b : Broker) (endpointClass requestedRights ownerId : UInt32) : UInt32 × Broker :=
  b.grantServiceTagged endpointClass requestedRights ownerId personaUntagged 0

/-- `capability64_grant_service_for_process` -/
def grantServiceForProcess (b : Broker) (endpointClass requestedRights pid : UInt32) : UInt32 × Broker :=
  let owner := b.personas.principal pid
  let personaType := b.personas.personaType pid
  let personaMask := b.personas.capabilityMask pid
  if owner = 0 ∨ personaType ≥ personaTypeCount ∨ personaMask = 0 then (invalidResult, b)
  else b.grantServiceTagged endpointClass requestedRights owner personaType personaMask

/-- `capability64_delegate_with_expiry` -/
def delegateWithExpiry (b : Broker) (sourceHandle requestedRights ownerContext expiryTick : UInt32) :
    UInt32 × Broker :=
  match b.findLive sourceHandle with
  | (found, b) =>
    let caller := contextCaller ownerContext
    let recipient := contextRecipient ownerContext
    if !principalIsValid caller || !principalIsValid recipient then (invalidResult, b)
    else
      match found with
      | none => (invalidResult, b)
      | some j =>
        let source := b.caps.slots j
        if source.ownerId ≠ normalizeOwner caller then (invalidResult, b)
        else if source.rights &&& rightDelegate = 0 then (invalidResult, b)
        else
          let requested := if requestedRights = 0 then source.rights &&& ~~~rightDelegate else requestedRights
          if requested = 0 ∨ requested &&& rightDelegate ≠ 0 ∨ requested &&& source.rights ≠ requested then
            (invalidResult, b)
          else if requested &&& ~~~rightDelegate = 0 then (invalidResult, b)
          else if !b.personas.allowsRecipient source recipient then (invalidResult, b)
          else
            match b.caps.free with
            | none => (invalidResult, b)
            | some i =>
              (b.caps.next,
                { b with caps := b.caps.issue i
                          (delegatedRecord source (requested &&& ~~~rightDelegate) recipient expiryTick) })

/-- `capability64_delegate` -/
def delegate (b : Broker) (sourceHandle requestedRights ownerContext : UInt32) : UInt32 × Broker :=
  b.delegateWithExpiry sourceHandle requestedRights ownerContext (b.tick + delegateLeaseTicks)

/-- `capability64_delegate_persistent` -/
def delegatePersistent (b : Broker) (sourceHandle requestedRights ownerContext : UInt32) : UInt32 × Broker :=
  b.delegateWithExpiry sourceHandle requestedRights ownerContext leasePermanent

/-! ## Using and revoking -/

/-- `capability64_record_runtime_is_current`: a stale record is cleared. -/
def runtimeIsCurrent (b : Broker) (i : Fin tableLimit) : Bool × Broker :=
  if (b.caps.slots i).current b.launch then (true, b) else (false, { b with caps := b.caps.drop i })

/-- `capability64_route` -/
def route (b : Broker) (handle requiredRights caller : UInt32) : UInt32 × Broker :=
  match b.findLive handle with
  | (found, b) =>
    if !principalIsValid caller then (invalidResult, b)
    else
      let required := if requiredRights = 0 then rightSend else requiredRights
      match found with
      | none => (invalidResult, b)
      | some i =>
        if (b.caps.slots i).rights &&& required ≠ required then (invalidResult, b)
        else if (b.caps.slots i).ownerId ≠ normalizeOwner caller then (invalidResult, b)
        else
          match b.runtimeIsCurrent i with
          | (false, b) => (invalidResult, b)
          | (true, b) => ((b.caps.slots i).endpointId, b)

/-- `capability64_revoke` -/
def revoke (b : Broker) (handle caller : UInt32) : UInt32 × Broker :=
  match b.findLive handle with
  | (found, b) =>
    if !principalIsValid caller then (0, b)
    else
      match found with
      | none => (0, b)
      | some i =>
        if (b.caps.slots i).ownerId ≠ normalizeOwner caller then (0, b)
        else (1, { b with caps := b.caps.revoke i handle })

/-- The common body of the functions that read one field of a record for its owner. -/
def query (denied : UInt32) (checkRuntime : Bool) (read : Record → UInt32) (b : Broker) (handle caller : UInt32) :
    UInt32 × Broker :=
  match b.findLive handle with
  | (found, b) =>
    if !principalIsValid caller then (denied, b)
    else
      match found with
      | none => (denied, b)
      | some i =>
        if (b.caps.slots i).ownerId ≠ normalizeOwner caller then (denied, b)
        else if checkRuntime then
          match b.runtimeIsCurrent i with
          | (false, b) => (denied, b)
          | (true, b) => (read (b.caps.slots i), b)
        else (read (b.caps.slots i), b)

/-- `capability64_target_endpoint` -/
def targetEndpoint := query invalidResult true Record.endpointId

/-- `capability64_rights` -/
def rights := query 0 false Record.rights

/-- `capability64_parent` -/
def parent := query 0 false Record.parentHandle

/-- `capability64_owner` -/
def owner := query 0 false Record.ownerId

/-- `capability64_expiry_tick` -/
def expiryTick := query 0 false Record.expiryTick

/-- `capability64_runtime_generation` -/
def runtimeGeneration := query 0 true Record.runtimeGeneration

/-- `capability64_runtime_token` -/
def runtimeToken := query 0 true Record.runtimeToken

/-- `capability64_persona_tag` -/
def personaTag := query personaUntagged false Record.personaType

/-- `capability64_persona_mask` -/
def personaMask := query 0 false Record.personaMask

/-! ## Endpoint classes -/

/-- `capability64_live_for_endpoint_class`: records whose lease has run out are cleared on the way. -/
def liveForEndpointClass (b : Broker) (endpointClass : UInt32) : Nat × Broker :=
  let endpointId := resolveEndpointClass endpointClass
  if endpointId = invalidResult then (0, b)
  else
    let caps := b.caps.dropIf fun r => r.expired b.tick
    ((List.finRange tableLimit).countP fun i => (caps.slots i).active && (caps.slots i).endpointId == endpointId,
      { b with caps })

/-- One round of the loop of `capability64_revoke_endpoint_class`: the records cleared so far, and the table. -/
def revokeClassRound (tick endpointId : UInt32) (s : Nat × HandleTable tableLimit Record) (i : Fin tableLimit) :
    Nat × HandleTable tableLimit Record :=
  let (revoked, caps) := s
  let r := caps.slots i
  if !r.active then (revoked, caps)
  else if r.expired tick then (revoked, caps.drop i)
  else if r.endpointId ≠ endpointId then (revoked, caps)
  else
    let dropped := caps.drop i
    let children := (List.finRange tableLimit).countP fun j =>
      (dropped.slots j).active && (dropped.slots j).parentHandle == r.handle
    (revoked + 1 + children, caps.revoke i r.handle)

/-- `capability64_revoke_endpoint_class` -/
def revokeEndpointClass (b : Broker) (endpointClass : UInt32) : Nat × Broker :=
  let endpointId := resolveEndpointClass endpointClass
  if endpointId = invalidResult then (0, b)
  else
    let (revoked, caps) := (List.finRange tableLimit).foldl (revokeClassRound b.tick endpointId) (0, b.caps)
    (revoked, { b with caps })

/-! ## Requests to the launcher that look at the table -/

/-- `launch64_request_service_quiesce` -/
def requestServiceQuiesce (b : Broker) (requester : UInt32) (i : Nat) : Bool × Broker :=
  match b.launch.admitRequest requester i with
  | (none, launch) => (false, { b with launch })
  | (some m, launch) =>
    let b := { b with launch }
    if !m.started then (false, b)
    else
      match b.liveForEndpointClass m.launchedEndpointClass with
      | (live, b) =>
        if live ≠ 0 then (false, { b with launch := b.launch.setManifest i { m with quiesceReady := false } })
        else (true, { b with launch := b.launch.setManifest i { m with quiesceReady := true } })

/-- `launch64_request_service_drain` -/
def requestServiceDrain (b : Broker) (requester : UInt32) (i : Nat) : Bool × Broker :=
  match b.launch.admitRequest requester i with
  | (none, launch) => (false, { b with launch })
  | (some m, launch) =>
    let b := { b with launch }
    if !m.started then (false, b)
    else
      let b := (b.liveForEndpointClass m.launchedEndpointClass).2
      let b := (b.revokeEndpointClass m.launchedEndpointClass).2
      match b.liveForEndpointClass m.launchedEndpointClass with
      | (live, b) => (live = 0, b)

/-- `launch64_request_service_restart`; `imageOk` is the outcome of `launch64_refresh_runtime_image`. -/
def requestServiceRestart (b : Broker) (requester : UInt32) (i : Nat) (imageOk : Bool) : Bool × Broker :=
  match b.launch.admitRequest requester i with
  | (none, launch) => (false, { b with launch })
  | (some m, launch) =>
    let b := { b with launch }
    if !m.started then (false, b)
    else
      match b.liveForEndpointClass m.launchedEndpointClass with
      | (live, b) =>
        if live ≠ 0 then (false, { b with launch := b.launch.setManifest i { m with quiesceReady := false } })
        else if !m.quiesceReady then (false, b)
        else if !imageOk then (false, { b with launch := b.launch.setManifest i m.nextRuntime })
        else (true, { b with launch := b.launch.setManifest i { m.nextRuntime with quiesceReady := false } })

/-! ## Calls -/

/-- A call to the broker, or something that happens around it: ticks, persona changes, launcher requests. -/
inductive Op where
  | grantService (endpointClass rights owner : UInt32)
  | grantServiceForProcess (endpointClass rights pid : UInt32)
  | delegate (source rights context : UInt32)
  | delegatePersistent (source rights context : UInt32)
  | route (handle rights caller : UInt32)
  | targetEndpoint (handle caller : UInt32)
  | rights (handle caller : UInt32)
  | parent (handle caller : UInt32)
  | owner (handle caller : UInt32)
  | expiryTick (handle caller : UInt32)
  | runtimeGeneration (handle caller : UInt32)
  | runtimeToken (handle caller : UInt32)
  | personaTag (handle caller : UInt32)
  | personaMask (handle caller : UInt32)
  | revoke (handle caller : UInt32)
  | liveForEndpointClass (endpointClass : UInt32)
  | revokeEndpointClass (endpointClass : UInt32)
  | ticks (count : UInt32)
  | setPersonas (personas : Personas)
  | bindManifests (imageOk : Seed → Bool)
  | quiesce (requester : UInt32) (manifest : Nat)
  | drain (requester : UInt32) (manifest : Nat)
  | restart (requester : UInt32) (manifest : Nat) (imageOk : Bool)

def step (b : Broker) : Op → Broker
  | .grantService c r o => (b.grantService c r o).2
  | .grantServiceForProcess c r p => (b.grantServiceForProcess c r p).2
  | .delegate s r c => (b.delegate s r c).2
  | .delegatePersistent s r c => (b.delegatePersistent s r c).2
  | .route h r c => (b.route h r c).2
  | .targetEndpoint h c => (b.targetEndpoint h c).2
  | .rights h c => (b.rights h c).2
  | .parent h c => (b.parent h c).2
  | .owner h c => (b.owner h c).2
  | .expiryTick h c => (b.expiryTick h c).2
  | .runtimeGeneration h c => (b.runtimeGeneration h c).2
  | .runtimeToken h c => (b.runtimeToken h c).2
  | .personaTag h c => (b.personaTag h c).2
  | .personaMask h c => (b.personaMask h c).2
  | .revoke h c => (b.revoke h c).2
  | .liveForEndpointClass c => (b.liveForEndpointClass c).2
  | .revokeEndpointClass c => (b.revokeEndpointClass c).2
  | .ticks n => { b with tick := b.tick + n }
  | .setPersonas p => { b with personas := p }
  | .bindManifests imageOk => { b with launch := b.launch.bindManifests imageOk }
  | .quiesce r i => (b.requestServiceQuiesce r i).2
  | .drain r i => (b.requestServiceDrain r i).2
  | .restart r i imageOk => (b.requestServiceRestart r i imageOk).2

def run (b : Broker) (ops : List Op) : Broker := ops.foldl step b

/-- The broker after `capability64_init`, with the manifests of the package catalog, at some tick. -/
def boot (catalog : List Manifest) (tick : UInt32) (personas : Personas) : Broker :=
  { caps := initCaps, launch := { manifests := catalog.map Manifest.unlaunched, requests := 0 }, tick, personas }

/-- A broker without manifests, processes or personas. -/
def idle : Broker := boot [] 0 ⟨fun _ => 0, fun _ => personaTypeCount, fun _ => 0, fun _ => invalidResult⟩

end Broker

end LimitlessOS.Capability
