/-
  LimitlessOS.Capability.Lease — how long a delegated handle routes.

  A delegation writes the tick at which its lease ends, two ticks on, into a field where
  one value means "never". Both the sum and the comparison are made on a tick counter
  that comes round, so which leases last two ticks depends on where the counter stands.

  Proved:
  - `expired_iff`: which leases have ended, by the tick of the delegation and the ticks since.
  - `lease_iff`: after any run in between, the handle routes exactly while fewer than two
    ticks have passed iff the two ticks are `InTime`.
  - `refusesFairly_iff`: a table full of records refuses a new one, whatever their leases are.

  `lease_fails`: one lease that never ends, and one that ends before it starts.
-/
import LimitlessOS.Capability.NonAmplification

namespace LimitlessOS.Capability.Broker

open Lib

/-! ## The arithmetic -/

/-- The ticks of a delegation, and since then, for which the end of the lease is told right. -/
def InTime (start elapsed : UInt32) : Prop :=
  (start ≤ 0xFFFFFFFC ∧ start.toNat + elapsed.toNat < 2 ^ 32) ∨
    -- the lease would end at the value that stands for a permanent lease
    (start = 0xFFFFFFFD ∧ elapsed < 2) ∨
    -- the end comes round to 0, and every tick is past it
    (start = 0xFFFFFFFE ∧ 2 ≤ elapsed) ∨
    (start = 0xFFFFFFFF ∧ 1 ≤ elapsed)

theorem unexpired_iff {start elapsed : UInt32} {r : Record} (hr : r.expiryTick = start + delegateLeaseTicks) :
    r.expired (start + elapsed) = false ↔
      (start.toNat + 2) % 2 ^ 32 = 2 ^ 32 - 1 ∨ (start.toNat + elapsed.toNat) % 2 ^ 32 < (start.toNat + 2) % 2 ^ 32 := by
  have hend : r.expiryTick.toNat = (start.toNat + 2) % 2 ^ 32 := by rw [hr, UInt32.toNat_add]; rfl
  have hpermanent : r.expiryTick = leasePermanent ↔ (start.toNat + 2) % 2 ^ 32 = 2 ^ 32 - 1 := by
    rw [← UInt32.toNat_inj, hend]
    rfl
  by_cases h : r.expiryTick = leasePermanent
  · have hnever : r.expired (start + elapsed) = false := by simp [Record.expired, h]
    exact ⟨fun _ => .inl (hpermanent.1 h), fun _ => hnever⟩
  · simp only [Record.expired, h, if_false, decide_eq_false_iff_not, UInt32.not_le, UInt32.lt_iff_toNat_lt, hend,
      UInt32.toNat_add, mt hpermanent.2 h, false_or]

theorem expired_iff {start : UInt32} {r : Record} (hr : r.expiryTick = start + delegateLeaseTicks) (elapsed : UInt32) :
    (r.expired (start + elapsed) = false ↔ elapsed < 2) ↔ InTime start elapsed := by
  have hs := start.toNat_lt
  have he := elapsed.toNat_lt
  simp only [unexpired_iff hr, InTime, UInt32.lt_iff_toNat_lt, UInt32.le_iff_toNat_le, ← UInt32.toNat_inj,
    UInt32.reduceToNat]
  omega

/-! ## The lease of a delegated handle -/

/-- The caller may use the record with the rights, if its lease has not ended. -/
structure Entitled (b : Broker) (r : Record) (rights caller : UInt32) : Prop where
  principal : principalIsValid caller = true
  rights : r.rights &&& (if rights = 0 then rightSend else rights) = if rights = 0 then rightSend else rights
  owner : r.ownerId = normalizeOwner caller
  current : r.current b.launch = true

variable {b : Broker}

theorem Entitled.usable_iff {r : Record} {rights caller : UInt32} (h : Entitled b r rights caller) :
    Usable b r rights caller ↔ r.expired b.tick = false :=
  ⟨fun hu => hu.unexpired, fun hx => ⟨hx, h.principal, h.rights, h.owner, h.current⟩⟩

/-- The call in state `b` delegates a record into slot `i`, and after the calls `after` the
    handle still leads to it. -/
structure Outstanding (b : Broker) (op : Op) (after : List Op) (i : Fin tableLimit) : Prop where
  free : (b.caps.slots i).active = false
  issued : ((b.step op).caps.slots i).active = true
  kept : ((b.step op).run after).caps.slots i = (b.step op).caps.slots i
  found : ((b.step op).run after).caps.find ((b.step op).caps.slots i).handle = some i

theorem Outstanding.delegates {source rights context : UInt32} {after : List Op} {i : Fin tableLimit}
    (h : Outstanding b (.delegate source rights context) after i) :
    ∃ j, (b.caps.slots j).active ∧
      Delegates b (.delegate source rights context) (b.caps.slots j)
        ((b.step (.delegate source rights context)).caps.slots i) := by
  rcases step_active b _ h.issued with heq | hg | hd
  · exact absurd h.issued (by simp [heq, h.free])
  · obtain ⟨_, -, ⟨_, hop, -⟩ | ⟨_, hop, -⟩⟩ := hg.call <;> exact absurd hop (by simp)
  · exact hd

variable (catalog : List Manifest) (tick : UInt32) (personas : Personas)

/-- The endpoint of a record in the table is one that resolved. -/
theorem endpoint_resolved (ops : List Op) {i : Fin tableLimit}
    (hi : (((boot catalog tick personas).run ops).caps.slots i).active) :
    (((boot catalog tick personas).run ops).caps.slots i).endpointId ≠ invalidResult := by
  rcases origin catalog tick personas ops i hi with ⟨_, _, _, _, hg⟩ | ⟨_, _, _, _, j, _, hd, _, _, _, _, hg⟩
  · exact hg.resolved
  · exact hd.endpoint ▸ hg.resolved

/-- In every run, a handle that was delegated and is still in the table routes for those
    entitled to it while fewer than two ticks have passed, if the ticks are in time, and only then. -/
theorem lease_iff {ops after : List Op} {source rights context : UInt32} {i : Fin tableLimit} :
    let b := (boot catalog tick personas).run ops
    let issued := b.step (.delegate source rights context)
    let now := issued.run after
    Outstanding b (.delegate source rights context) after i →
    ∀ used caller, Entitled now (issued.caps.slots i) used caller →
      (((now.route (issued.caps.slots i).handle used caller).1 ≠ invalidResult ↔ now.tick - b.tick < 2) ↔
        InTime b.tick (now.tick - b.tick)) := by
  intro b issued now h used caller he
  obtain ⟨j, hj, hd⟩ := h.delegates
  have hresolved : (issued.caps.slots i).endpointId ≠ invalidResult := by
    have hsource := endpoint_resolved catalog tick personas ops hj
    rwa [← hd.endpoint] at hsource
  have hexpiry : (issued.caps.slots i).expiryTick = b.tick + delegateLeaseTicks := by
    obtain ⟨_, _, -, -, ⟨-, hx⟩ | ⟨hop, -⟩⟩ := hd.call
    · exact hx
    · exact absurd hop (by simp)
  have hroute : (now.route (issued.caps.slots i).handle used caller).1 ≠ invalidResult ↔
      (issued.caps.slots i).expired now.tick = false := by
    have hkept : now.caps.slots i = issued.caps.slots i := h.kept
    rw [route_result, h.found, ← he.usable_iff]
    simp only [hkept]
    by_cases hu : Usable now (issued.caps.slots i) used caller
    · simpa [hu] using hresolved
    · simp [hu]
  have hnow : b.tick + (now.tick - b.tick) = now.tick := by rw [UInt32.add_comm, UInt32.sub_add_cancel]
  have hlaw := expired_iff hexpiry (now.tick - b.tick)
  rw [hnow] at hlaw
  rw [hroute, hlaw]

/-- A service granted to a client that may delegate it, at the tick. -/
def granted (tick : UInt32) : List Op := [.ticks tick, .grantService 3 (rightSend ||| rightDelegate) 0x101]

theorem lease_two_ticks :
    let b := idle.run (granted 10)
    let issued := b.step (.delegate 0x6400 rightSend 0x01010102)
    let now := issued.run [.ticks 2]
    ((now.route (issued.caps.slots 1).handle rightSend 0x102).1 ≠ invalidResult ↔ now.tick - b.tick < 2) ↔
      InTime b.tick (now.tick - b.tick) :=
  lease_iff [] 0 _ (i := 1)
    ⟨by decide +kernel, by decide +kernel, by decide +kernel, by decide +kernel⟩ rightSend 0x102
    ⟨by decide +kernel, by decide +kernel, by decide +kernel, by decide +kernel⟩

/-- What the recipient of handle 0x6401 can route, the given ticks after it was delegated at `start`. -/
def leased (start elapsed : UInt32) : UInt32 :=
  ((idle.run (granted start ++ [.delegate 0x6400 rightSend 0x01010102, .ticks elapsed])).route 0x6401 rightSend 0x102).1

theorem lease_fails : leased 0xFFFFFFFD 2 ≠ invalidResult ∧ leased 0xFFFFFFFE 0 = invalidResult := by
  decide +kernel

/-! ## Slots of ended leases -/

/-- The arguments of a grant are in order. -/
structure Grantable (endpointClass rights owner : UInt32) : Prop where
  owner : principalIsValid (normalizeOwner owner) = true
  resolved : resolveEndpointClass endpointClass ≠ invalidResult
  rights : (if rights = 0 then rightSend else rights) &&&
    ~~~(if endpointIsDelegable (resolveEndpointClass endpointClass) then rightSend ||| rightQuery ||| rightDelegate
      else rightSend ||| rightQuery) = 0

/-- The rights a delegation asks for. -/
def requestedFrom (source : Record) (rights : UInt32) : UInt32 :=
  if rights = 0 then source.rights &&& ~~~rightDelegate else rights

/-- The arguments of a delegation are in order; its source is the record in slot `j`. -/
structure Delegable (b : Broker) (source rights context : UInt32) (j : Fin tableLimit) : Prop where
  caller : principalIsValid (contextCaller context) = true
  recipient : principalIsValid (contextRecipient context) = true
  found : b.caps.find source = some j
  unexpired : (b.caps.slots j).expired b.tick = false
  owner : (b.caps.slots j).ownerId = normalizeOwner (contextCaller context)
  delegate : (b.caps.slots j).rights &&& rightDelegate ≠ 0
  requested :
    let asked := requestedFrom (b.caps.slots j) rights
    ¬ (asked = 0 ∨ asked &&& rightDelegate ≠ 0 ∨ asked &&& (b.caps.slots j).rights ≠ asked) ∧
      asked &&& ~~~rightDelegate ≠ 0
  persona : b.personas.allowsRecipient (b.caps.slots j) (contextRecipient context) = true

/-- A grant or a delegation that needs nothing but a slot. -/
def NeedsSlot (b : Broker) : Op → Prop
  | .grantService c r o => Grantable c r o
  | .grantServiceForProcess c r pid =>
    ¬ (b.personas.principal pid = 0 ∨ b.personas.personaType pid ≥ personaTypeCount ∨ b.personas.capabilityMask pid = 0) ∧
      Grantable c r (b.personas.principal pid)
  | .delegate s r x | .delegatePersistent s r x => ∃ j, Delegable b s r x j
  | _ => False

/-- The call makes no record. -/
def Refused (b : Broker) (op : Op) : Prop := (b.step op).caps.next = b.caps.next

/-- For want of a slot a call is refused only if every slot has a record whose lease has not ended. -/
def RefusesFairly (b : Broker) (op : Op) : Prop :=
  NeedsSlot b op → Refused b op → ∀ i, (b.caps.slots i).active = true ∧ (b.caps.slots i).expired b.tick = false

theorem grantServiceTagged_next (b : Broker) {c r o : UInt32} (h : Grantable c r o) (t k : UInt32) :
    (b.grantServiceTagged c r o t k).2.caps.next = b.caps.next + if b.caps.free.isSome then 1 else 0 := by
  unfold grantServiceTagged
  simp only [h.owner, h.resolved, h.rights, Bool.not_true, Bool.false_eq_true, if_false, ne_eq, not_true_eq_false]
  rcases b.caps.free with _ | i
  · exact (UInt32.add_zero _).symm
  · rfl

theorem delegateWithExpiry_next {s r x : UInt32} {j : Fin tableLimit} (h : Delegable b s r x j) (t : UInt32) :
    (b.delegateWithExpiry s r x t).2.caps.next = b.caps.next + if b.caps.free.isSome then 1 else 0 := by
  have hlive : b.findLive s = (some j, b) := by simp [findLive, h.found, h.unexpired]
  obtain ⟨hrights, hsome⟩ := h.requested
  unfold requestedFrom at hrights hsome
  unfold delegateWithExpiry
  rw [hlive]
  simp only [h.caller, h.recipient, h.owner, h.delegate, h.persona, hrights, hsome, Bool.not_true, Bool.or_false,
    Bool.false_eq_true, if_false, ne_eq, not_true_eq_false]
  rcases b.caps.free with _ | i
  · exact (UInt32.add_zero _).symm
  · rfl

theorem step_next {op : Op} (h : NeedsSlot b op) :
    (b.step op).caps.next = b.caps.next + if b.caps.free.isSome then 1 else 0 := by
  cases op with
  | grantService c r o => exact b.grantServiceTagged_next h _ _
  | grantServiceForProcess c r pid =>
    simp only [step, grantServiceForProcess, if_neg h.1]
    exact b.grantServiceTagged_next h.2 _ _
  | delegate s r x =>
    obtain ⟨j, hj⟩ := h
    exact delegateWithExpiry_next hj _
  | delegatePersistent s r x =>
    obtain ⟨j, hj⟩ := h
    exact delegateWithExpiry_next hj _
  | _ => exact h.elim

theorem refused_iff {op : Op} (h : NeedsSlot b op) : Refused b op ↔ ∀ i, (b.caps.slots i).active := by
  have hfull : b.caps.free = none ↔ ∀ i, (b.caps.slots i).active := by
    simp [HandleTable.free, Slots.first_none, Handled.active]
  rw [Refused, step_next h, ← hfull]
  cases b.caps.free <;> simp

/-- Only a lookup of its own handle, or of its class, clears a record whose lease has ended: a grant that finds no
    free slot does not look for one. -/
theorem refusesFairly_iff (ops : List Op) (op : Op) :
    let b := (boot catalog tick personas).run ops
    RefusesFairly b op ↔
      (NeedsSlot b op → (∀ i, (b.caps.slots i).active = true) → ∀ i, (b.caps.slots i).expired b.tick = false) := by
  refine forall_congr' fun h => ?_
  rw [refused_iff h]
  exact ⟨fun hfair hfull i => (hfair hfull i).2, fun hlease hfull i => ⟨hfull i, hlease hfull i⟩⟩

/-- A table with one service and 63 leases that have ended. -/
def overdue : List Op :=
  granted 0 ++ List.replicate 63 (.delegate 0x6400 rightSend 0x01010102) ++ [.ticks delegateLeaseTicks]

theorem refusesFairly_fails : ¬ RefusesFairly (idle.run overdue) (.grantService 3 rightSend 0x101) := by
  intro h
  have hended := h ⟨by decide, by decide, by decide⟩ (by unfold Refused; decide +kernel) 1
  exact absurd hended.2 (by decide +kernel)

end LimitlessOS.Capability.Broker
