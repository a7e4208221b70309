/-
  LimitlessOS.Lib.Pool — pools of slots that are claimed, pointed to and released.

  A pointer to a slot stays in place when the slot is released and claimed again for
  something else. To tell the two apart, a pool counts how often each slot has been claimed,
  and a pointer carries the count of its claim; neither is visible to the code that uses
  the pool.
-/
import LimitlessOS.Lib.HandleTable

namespace LimitlessOS.Lib

structure Pool (n : Nat) where
  used : Fin n → Bool
  /-- How often the slot has been claimed. -/
  claims : Fin n → Nat

structure Ptr (n : Nat) where
  slot : Fin n
  claim : Nat
  deriving DecidableEq

namespace Pool

variable {n : Nat}

def empty (n : Nat) : Pool n := ⟨fun _ => false, fun _ => 0⟩

def claim (p : Pool n) : Option (Ptr n × Pool n) :=
  (Slots.first p.used fun u => !u).map fun i =>
    (⟨i, p.claims i + 1⟩,
      ⟨Function.update p.used i true, Function.update p.claims i (p.claims i + 1)⟩)

def release (p : Pool n) (i : Fin n) : Pool n := { p with used := Function.update p.used i false }

end Pool

end LimitlessOS.Lib
