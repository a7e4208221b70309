/-
  LimitlessOS.Capability.NonAmplification — no principal gains a right nobody gave it.

  Over whole runs: every record in the table is still the record that some earlier call
  wrote, and that call either granted it or delegated it from a record that was itself
  granted. Lookups, leases, stale runtimes and drains only take records away.

  Proved:
  - `origin`: the call of the run that wrote a record.
  - `nonAmplified`: rights on an endpoint come from a grant, or from a delegation by a holder.
-/
import LimitlessOS.Capability.Steps

namespace LimitlessOS.Capability.Broker

open Lib

theorem run_append (b : Broker) (ops : List Op) (op : Op) : b.run (ops ++ [op]) = (b.run ops).step op := by
  simp [run]

/-! ## Where a record comes from -/

/-- The record was granted by a call of the run. -/
def WasGranted (b : Broker) (ops : List Op) (r : Record) : Prop :=
  ∃ before op after, ops = before ++ op :: after ∧ Grants (b.run before) op r

/-- The record was delegated by a call of the run, from a record in the table that had been granted. -/
def WasDelegated (b : Broker) (ops : List Op) (r : Record) : Prop :=
  ∃ before op after, ops = before ++ op :: after ∧
    ∃ j, ((b.run before).caps.slots j).active = true ∧ Delegates (b.run before) op ((b.run before).caps.slots j) r ∧
      WasGranted b before ((b.run before).caps.slots j)

variable {ops : List Op} {b : Broker} {r : Record}

theorem WasGranted.append (h : WasGranted b ops r) (op : Op) :
    WasGranted b (ops ++ [op]) r := by
  obtain ⟨before, o, after, rfl, h⟩ := h
  exact ⟨before, o, after ++ [op], by simp, h⟩

theorem WasDelegated.append (h : WasDelegated b ops r) (op : Op) :
    WasDelegated b (ops ++ [op]) r := by
  obtain ⟨before, o, after, rfl, h⟩ := h
  exact ⟨before, o, after ++ [op], by simp, h⟩

variable (catalog : List Manifest) (tick : UInt32) (personas : Personas)

theorem origin (ops : List Op) (i : Fin tableLimit)
    (hi : (((boot catalog tick personas).run ops).caps.slots i).active) :
    WasGranted (boot catalog tick personas) ops (((boot catalog tick personas).run ops).caps.slots i) ∨
      WasDelegated (boot catalog tick personas) ops (((boot catalog tick personas).run ops).caps.slots i) := by
  induction ops using List.reverseRecOn generalizing i with
  | nil => simp [run, boot, initCaps, Record.blank] at hi
  | append_singleton ops op ih =>
    rw [run_append] at hi ⊢
    rcases step_active _ op hi with h | h | ⟨j, hj, h⟩
    · rw [h] at hi ⊢
      exact (ih i hi).imp (·.append op) (·.append op)
    · exact .inl ⟨ops, op, [], rfl, h⟩
    refine .inr ⟨ops, op, [], rfl, j, hj, h, ?_⟩
    -- a delegated record cannot be delegated on, so the source was granted
    rcases ih j hj with hg | ⟨_, _, _, _, _, _, hd, _⟩
    · exact hg
    · exact absurd hd.undelegable h.delegable

/-! ## Holding a right -/

/-- The principal has a record in the table with the rights on the endpoint. -/
def Holds (b : Broker) (principal endpoint rights : UInt32) : Prop :=
  ∃ i, (b.caps.slots i).active = true ∧ (b.caps.slots i).ownerId = principal ∧ (b.caps.slots i).endpointId = endpoint ∧
    (b.caps.slots i).rights &&& rights = rights

/-- A call of the run gave the principal the rights on the endpoint: a grant, or a delegation by a principal that
held them then. -/
def Given (b : Broker) (ops : List Op) (principal endpoint rights : UInt32) : Prop :=
  ∃ before op after r, ops = before ++ op :: after ∧ r.ownerId = principal ∧ r.endpointId = endpoint ∧
    r.rights &&& rights = rights ∧
    (Grants (b.run before) op r ∨
      ∃ j, Delegates (b.run before) op ((b.run before).caps.slots j) r ∧
        Holds (b.run before) ((b.run before).caps.slots j).ownerId endpoint rights)

/-- The rights in the table are rights that were given, through at most one delegation. -/
structure NonAmplified (b : Broker) (ops : List Op) : Prop where
  origin : ∀ i, ((b.run ops).caps.slots i).active = true →
    WasGranted b ops ((b.run ops).caps.slots i) ∨ WasDelegated b ops ((b.run ops).caps.slots i)
  held : ∀ principal endpoint rights, Holds (b.run ops) principal endpoint rights →
    Given b ops principal endpoint rights

theorem and_subset_trans {x y m : UInt32} (hm : x &&& m = m) (hx : x &&& y = x) : y &&& m = m := by
  rw [← hm, ← UInt32.and_assoc, UInt32.and_comm y x, hx]

theorem nonAmplified (ops : List Op) : NonAmplified (boot catalog tick personas) ops := by
  refine ⟨origin catalog tick personas ops, fun principal endpoint rights ⟨i, hi, ho, he, hr⟩ => ?_⟩
  rcases origin catalog tick personas ops i hi with
    ⟨before, op, after, hsplit, h⟩ | ⟨before, op, after, hsplit, j, hj, h, -⟩
  · exact ⟨before, op, after, _, hsplit, ho, he, hr, .inl h⟩
  · refine ⟨before, op, after, _, hsplit, ho, he, hr, .inr ⟨j, h, j, hj, rfl, ?_, ?_⟩⟩
    · exact h.endpoint.symm.trans he
    · exact and_subset_trans hr h.rights

end LimitlessOS.Capability.Broker
