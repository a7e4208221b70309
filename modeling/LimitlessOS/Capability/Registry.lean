/-
  LimitlessOS.Capability.Registry — the fixed tables the capability broker reads.

  `g_principals` of `principal.c`, `g_service_records` of `services.c` and the process
  seeds of `process.c`, as far as the broker and the launcher use them. The tables are
  those of the UEFI kernel build.
-/
import Mathlib.Data.List.Basic

namespace LimitlessOS.Capability

def invalidResult : UInt32 := 0xFFFFFFFF

/-! ## Principals -/

def principalSystem : UInt32 := 0x0001

def principalInitSupervisor : UInt32 := 0x1001

/-- `g_principals`, all of them active -/
def principals : List UInt32 :=
  [0x0001, 0x0101, 0x0102, 0x0201, 0x0202, 0x1001, 0x1002, 0x1003, 0x1004, 0x1005, 0x1006]

/-- `principal64_is_active` -/
def principalIsActive (id : UInt32) : Bool := principals.contains id

/-! ## Services -/

structure Service where
  endpointClass : UInt32
  endpointId : UInt32
  delegable : Bool

/-- `g_service_records` -/
def services : List Service :=
  [⟨1, 1, false⟩, ⟨2, 2, false⟩, ⟨3, 3, true⟩, ⟨0, 0, false⟩, ⟨4, 4, true⟩, ⟨5, 5, false⟩, ⟨6, 6, true⟩, ⟨7, 7, true⟩,
    ⟨8, 8, true⟩, ⟨9, 9, false⟩, ⟨10, 10, true⟩]

def classRamfs : UInt32 := 5

/-- `services64_resolve_endpoint_class`: the endpoint of the class, `0xFFFFFFFF` if no service has it -/
def resolveEndpointClass (endpointClass : UInt32) : UInt32 :=
  match services.find? (·.endpointClass == endpointClass) with
  | some s => s.endpointId
  | none => invalidResult

/-- `services64_endpoint_is_delegable` -/
def endpointIsDelegable (endpointId : UInt32) : Bool :=
  match services.find? (·.endpointId == endpointId) with
  | some s => s.delegable
  | none => false

/-! ## Processes started at boot -/

/-- The processes of `g_process_seeds`, in their order. -/
inductive Seed where
  | initSupervisor | aiPolicy | driverHost | console | ramfs | input | telemetry
  deriving DecidableEq, Repr

namespace Seed

def all : List Seed := [initSupervisor, aiPolicy, driverHost, console, ramfs, input, telemetry]

def pid : Seed → UInt32
  | initSupervisor => 1
  | aiPolicy => 2
  | driverHost => 3
  | console => 4
  | ramfs => 5
  | input => 6
  | telemetry => 7

def principal : Seed → UInt32
  | initSupervisor => 0x1001
  | aiPolicy => 0x0102
  | driverHost => 0x1002
  | console => 0x0202
  | ramfs => 0x1003
  | input => 0x1004
  | telemetry => 0x1005

def endpointClass : Seed → UInt32
  | initSupervisor => 1
  | aiPolicy => 3
  | driverHost => 2
  | console => 4
  | ramfs => 5
  | input => 6
  | telemetry => 0

def schedulerClass : Seed → UInt32
  | initSupervisor => 1
  | aiPolicy => 2
  | driverHost => 4
  | console => 3
  | ramfs => 4
  | input => 3
  | telemetry => 5

def capabilityLimit : Seed → UInt32
  | initSupervisor => 16
  | aiPolicy => 12
  | driverHost => 8
  | console => 10
  | ramfs => 10
  | input => 8
  | telemetry => 4

theorem endpointClass_inj {a b : Seed} (h : a.endpointClass = b.endpointClass) : a = b := by
  cases a <;> cases b <;> first | rfl | exact absurd h (by decide)

end Seed

end LimitlessOS.Capability
