/-
  LimitlessOS.Capability.Steps — what a call can do to the table.

  Every call does one of four things: it empties slots for a reason that `Gone` lists, it
  grants one record, it delegates one record, or it revokes a record with its children.
  The invariants of the broker are derived from this, not from the bodies of the calls.

  Proved:
  - `step_spec`: what every call leaves of the broker.
  - `step_effect`: the effect of every call on the table.
-/
import LimitlessOS.Capability.Table

namespace LimitlessOS.Capability

open Lib HandleTable List Launch Handled

theorem normalizeOwner_ne_zero (owner : UInt32) : normalizeOwner owner ≠ 0 := by
  unfold normalizeOwner
  split
  · assumption
  · decide

@[simp] theorem normalizeOwner_idem (owner : UInt32) : normalizeOwner (normalizeOwner owner) = normalizeOwner owner := by
  have h := normalizeOwner_ne_zero owner
  generalize normalizeOwner owner = o at h ⊢
  simp [normalizeOwner, h]

@[simp] theorem normalizeOwner_caller (context : UInt32) :
    normalizeOwner (contextCaller context) = contextCaller context := by
  simp [contextCaller]

namespace Broker

/-- Why a record leaves the table without its owner revoking it. `drained` are the endpoints the call drains. -/
inductive Gone (b : Broker) (drained : UInt32 → Prop) (r : Record) : Prop
  | expired (h : r.expired b.tick = true)
  | stale (h : r.current b.launch = false)
  | drained (h : drained r.endpointId)
  | child (j : Fin tableLimit) (hj : (b.caps.slots j).active = true) (hd : drained (b.caps.slots j).endpointId)
      (h : r.parentHandle = (b.caps.slots j).handle)

/-- No record is added, and those that left had a reason to. -/
structure Swept (b : Broker) (drained : UInt32 → Prop) (caps : HandleTable tableLimit Record) : Prop where
  next : caps.next = b.caps.next
  slots : ∀ i, caps.slots i = b.caps.slots i ∨
    (b.caps.slots i).active = true ∧ caps.slots i = (b.caps.slots i).clear ∧ Gone b drained (b.caps.slots i)

/-- The record a grant writes. -/
structure Grants (b : Broker) (op : Op) (r : Record) : Prop where
  call : ∃ rights, r.rights = (if rights = 0 then rightSend else rights) ∧
    ((∃ owner, op = .grantService r.endpointClass rights owner ∧ r.ownerId = normalizeOwner owner) ∨
      ∃ pid, op = .grantServiceForProcess r.endpointClass rights pid ∧ r.ownerId = b.personas.principal pid)
  active : r.active = true
  handle : r.handle = b.caps.next
  endpoint : r.endpointId = resolveEndpointClass r.endpointClass
  resolved : r.endpointId ≠ invalidResult
  parent : r.parentHandle = 0
  expiry : r.expiryTick = leasePermanent
  current : r.current b.launch = true

/-- The record a delegation of `source` writes. -/
structure Delegates (b : Broker) (op : Op) (source r : Record) : Prop where
  call : ∃ rights context, source.ownerId = contextCaller context ∧ r.ownerId = contextRecipient context ∧
    (op = .delegate source.handle rights context ∧ r.expiryTick = b.tick + delegateLeaseTicks ∨
      op = .delegatePersistent source.handle rights context ∧ r.expiryTick = leasePermanent)
  unexpired : source.expired b.tick = false
  delegable : source.rights &&& rightDelegate ≠ 0
  active : r.active = true
  handle : r.handle = b.caps.next
  endpointClass : r.endpointClass = source.endpointClass
  endpoint : r.endpointId = source.endpointId
  rights : r.rights &&& source.rights = r.rights
  undelegable : r.rights &&& rightDelegate = 0
  parent : r.parentHandle = source.handle
  generation : r.runtimeGeneration = source.runtimeGeneration
  token : r.runtimeToken = source.runtimeToken

/-- The endpoints a call drains. -/
def Drained (b : Broker) : Op → UInt32 → Prop
  | .revokeEndpointClass c, e => e = resolveEndpointClass c
  | .drain _ i, e => ∃ m, b.launch.manifests[i]? = some m ∧ e = resolveEndpointClass m.launchedEndpointClass
  | _, _ => False

/-- The endpoints of a call that drains none. -/
abbrev Undrained : UInt32 → Prop := fun _ => False

/-- What a call leaves in the table. A drain leaves no record for the endpoints it drains. -/
inductive Effect (b : Broker) (op : Op) : HandleTable tableLimit Record → Prop
  | swept {caps} (drained : UInt32 → Prop) (hd : ∀ e, drained e → Drained b op e) (h : Swept b drained caps)
      (hc : ∀ i, (caps.slots i).active = true → ¬ drained (caps.slots i).endpointId) : Effect b op caps
  | granted (i : Fin tableLimit) (r : Record) (hi : b.caps.free = some i) (h : Grants b op r) :
      Effect b op (b.caps.issue i fun _ => r)
  | delegated (i j : Fin tableLimit) (r : Record) (hi : b.caps.free = some i) (hj : (b.caps.slots j).active = true)
      (h : Delegates b op (b.caps.slots j) r) : Effect b op (b.caps.issue i fun _ => r)
  | revoked (i : Fin tableLimit) (handle caller : UInt32) (hop : op = .revoke handle caller)
      (hi : b.caps.find handle = some i) (hu : (b.caps.slots i).expired b.tick = false)
      (ho : (b.caps.slots i).ownerId = normalizeOwner caller) : Effect b op (b.caps.revoke i handle)

/-! ## Emptying slots -/

namespace Swept

theorem refl (b : Broker) (drained : UInt32 → Prop) : Swept b drained b.caps := ⟨rfl, fun _ => .inl rfl⟩

variable {drained : UInt32 → Prop} {b : Broker}

theorem drop {i : Fin tableLimit} (hi : (b.caps.slots i).active) (h : Gone b drained (b.caps.slots i)) :
    Swept b drained (b.caps.drop i) := by
  refine ⟨rfl, fun j => ?_⟩
  rw [drop_slots]
  split
  · rename_i hj
    subst hj
    exact .inr ⟨hi, rfl, h⟩
  · exact .inl rfl

theorem expired (b : Broker) (drained : UInt32 → Prop) :
    Swept b drained (b.caps.dropIf fun r => r.expired b.tick) := by
  refine ⟨rfl, fun i => ?_⟩
  rw [dropIf_slots]
  split
  · rename_i h
    exact .inr ⟨h.1, rfl, .expired h.2⟩
  · exact .inl rfl

theorem shrinks {caps : HandleTable tableLimit Record} (h : Swept b drained caps) : Shrinks b.caps caps := by
  refine ⟨h.next, fun i => ?_⟩
  rcases h.slots i with h | ⟨-, h, -⟩
  · exact .inl h
  · right
    rw [h]
    rfl

end Swept

variable {op : Op} {b : Broker} {r : Record} {drained : UInt32 → Prop} {i : Fin tableLimit}
  {caps : HandleTable tableLimit Record} {launch : Launch}

theorem Effect.untouched (h : Swept b Undrained caps) : Effect b op caps :=
  .swept Undrained (fun _ h => h.elim) h fun _ _ => id

theorem find_active {h : UInt32} (hf : b.caps.find h = some i) :
    (b.caps.slots i).active ∧ (b.caps.slots i).handle = h := find_some hf

/-- A lookup finds an unexpired record and changes nothing, or empties at most the slot of an expired one. -/
theorem findLive_cases (b : Broker) (h : UInt32) :
    (∃ i, b.findLive h = (some i, b) ∧ b.caps.find h = some i ∧ (b.caps.slots i).expired b.tick = false) ∨
      ∃ caps, b.findLive h = (none, { b with caps }) ∧ Swept b Undrained caps := by
  unfold findLive
  rcases hf : b.caps.find h with _ | i
  · exact .inr ⟨b.caps, rfl, .refl b _⟩
  by_cases he : (b.caps.slots i).expired b.tick
  · exact .inr ⟨b.caps.drop i, by simp [he], .drop (find_active hf).1 (.expired he)⟩
  · exact .inl ⟨i, by simp [he], rfl, by simpa using he⟩

/-- The runtime check empties the slot of a stale record and nothing else. -/
theorem runtimeIsCurrent_cases (b : Broker) (i : Fin tableLimit) :
    b.runtimeIsCurrent i = (true, b) ∧ (b.caps.slots i).current b.launch ∨
      b.runtimeIsCurrent i = (false, { b with caps := b.caps.drop i }) ∧ (b.caps.slots i).current b.launch = false := by
  unfold runtimeIsCurrent
  cases h : (b.caps.slots i).current b.launch <;> simp

theorem query_swept (denied : UInt32) (check : Bool) (read : Record → UInt32) (b : Broker) (h c : UInt32) :
    ∃ caps, (query denied check read b h c).2 = { b with caps } ∧ Swept b Undrained caps := by
  unfold query
  rcases findLive_cases b h with ⟨i, heq, hf, -⟩ | ⟨caps, heq, hs⟩ <;> rw [heq] <;> simp only
  · -- the slot is emptied only if the runtime check fails
    rcases runtimeIsCurrent_cases b i with ⟨hr, -⟩ | ⟨hr, hc⟩ <;> rw [hr] <;> split_ifs
    all_goals first | exact ⟨b.caps, rfl, .refl b _⟩ | exact ⟨_, rfl, .drop (find_active hf).1 (.stale hc)⟩
  · split <;> exact ⟨caps, rfl, hs⟩

theorem route_swept (b : Broker) (h r c : UInt32) :
    ∃ caps, (b.route h r c).2 = { b with caps } ∧ Swept b Undrained caps := by
  unfold route
  rcases findLive_cases b h with ⟨i, heq, hf, -⟩ | ⟨caps, heq, hs⟩ <;> rw [heq] <;> simp only
  · rcases runtimeIsCurrent_cases b i with ⟨hr, -⟩ | ⟨hr, hc⟩ <;> rw [hr] <;> split_ifs
    all_goals first | exact ⟨b.caps, rfl, .refl b _⟩ | exact ⟨_, rfl, .drop (find_active hf).1 (.stale hc)⟩
  · split <;> exact ⟨caps, rfl, hs⟩

/-- The record lets the caller use the rights. -/
@[mk_iff] structure Usable (b : Broker) (r : Record) (rights caller : UInt32) : Prop where
  unexpired : r.expired b.tick = false
  principal : principalIsValid caller = true
  rights : r.rights &&& (if rights = 0 then rightSend else rights) = if rights = 0 then rightSend else rights
  owner : r.ownerId = normalizeOwner caller
  current : r.current b.launch = true

instance (b : Broker) (r : Record) (rights caller : UInt32) : Decidable (Usable b r rights caller) :=
  decidable_of_iff _ (usable_iff b r rights caller).symm

/-- A handle routes exactly when the first record that carries it is usable. -/
theorem route_result (b : Broker) (h rights caller : UInt32) :
    (b.route h rights caller).1 =
      match b.caps.find h with
      | none => invalidResult
      | some i => if Usable b (b.caps.slots i) rights caller then (b.caps.slots i).endpointId else invalidResult := by
  unfold route
  cases hf : b.caps.find h with
  | none =>
    have heq : b.findLive h = (none, b) := by simp [findLive, hf]
    rw [heq]
    simp
  | some i =>
    by_cases hx : (b.caps.slots i).expired b.tick
    · have heq : b.findLive h = (none, { b with caps := b.caps.drop i }) := by simp [findLive, hf, hx]
      have hnot : ¬ Usable b (b.caps.slots i) rights caller := fun hu => by simp [hu.unexpired] at hx
      rw [heq]
      simp [hnot]
    have heq : b.findLive h = (some i, b) := by simp [findLive, hf, hx]
    rw [heq]
    by_cases hu : Usable b (b.caps.slots i) rights caller
    · simp [hu, hu.principal, hu.rights, hu.owner, runtimeIsCurrent, hu.current]
    simp only [hu, if_false]
    by_cases hp : principalIsValid caller
    · by_cases hr : (b.caps.slots i).rights &&& (if rights = 0 then rightSend else rights) =
          if rights = 0 then rightSend else rights
      · by_cases ho : (b.caps.slots i).ownerId = normalizeOwner caller
        · have hc : (b.caps.slots i).current b.launch = false := by
            by_contra hc
            exact hu ⟨by simpa using hx, hp, hr, ho, by simpa using hc⟩
          simp [hp, hr, ho, runtimeIsCurrent, hc]
        · simp [hp, hr, ho]
      · simp [hp, hr]
    · simp [hp]

/-! ## Granting, delegating and revoking -/

/-- A grant changes nothing or writes one record into a free slot. -/
theorem grantServiceTagged_effect (b : Broker) (op : Op) (c r o t k : UInt32)
    (hop : op = .grantService c r o ∨ ∃ pid, op = .grantServiceForProcess c r pid ∧ normalizeOwner o = b.personas.principal pid) :
    ∃ caps, (b.grantServiceTagged c r o t k).2 = { b with caps } ∧ Effect b op caps := by
  have hsame : ∃ caps, b = { b with caps } ∧ Effect b op caps := ⟨b.caps, rfl, .untouched (.refl b _)⟩
  unfold grantServiceTagged
  generalize hrequested : (if r = 0 then rightSend else r) = requested
  simp only
  split
  · exact hsame
  split
  · exact hsame
  rename_i hresolved
  generalize (if endpointIsDelegable (resolveEndpointClass c) then rightSend ||| rightQuery ||| rightDelegate
    else rightSend ||| rightQuery) = allowed
  split
  · exact hsame
  rcases hf : b.caps.free with _ | i
  · exact hsame
  refine ⟨_, rfl, .granted i _ hf ⟨⟨r, hrequested.symm, ?_⟩, rfl, rfl, rfl, hresolved, rfl, rfl, ?_⟩⟩
  · exact hop.imp (fun h => ⟨o, h, rfl⟩) fun h => h
  · simp only [Record.current, accepts, grantedRecord]
    cases b.launch.manifestByEndpointClass c <;> simp

theorem grantServiceForProcess_effect (b : Broker) (c r p : UInt32) :
    ∃ caps, (b.grantServiceForProcess c r p).2 = { b with caps } ∧ Effect b (.grantServiceForProcess c r p) caps := by
  unfold grantServiceForProcess
  simp only
  split
  · exact ⟨b.caps, rfl, .untouched (.refl b _)⟩
  · rename_i hn
    have hne : b.personas.principal p ≠ 0 := fun h0 => hn (.inl h0)
    exact grantServiceTagged_effect b _ c r _ _ _ (.inr ⟨p, rfl, by simp [normalizeOwner, hne]⟩)

theorem and_not_delegate (x : UInt32) : (x &&& ~~~rightDelegate) &&& rightDelegate = 0 := by
  rw [UInt32.and_assoc]
  simp

theorem and_not_subset {x s : UInt32} (h : x &&& s = x) (n : UInt32) : (x &&& n) &&& s = x &&& n := by
  rw [UInt32.and_assoc, UInt32.and_comm n s, ← UInt32.and_assoc, h]

/-- A delegation empties the slot of an expired source, changes nothing, or writes one record that is no stronger
than its source. -/
theorem delegateWithExpiry_effect (b : Broker) (op : Op) (s r x t : UInt32)
    (hop : op = .delegate s r x ∧ t = b.tick + delegateLeaseTicks ∨
    op = .delegatePersistent s r x ∧ t = leasePermanent) :
    ∃ caps, (b.delegateWithExpiry s r x t).2 = { b with caps } ∧ Effect b op caps := by
  unfold delegateWithExpiry
  rcases findLive_cases b s with ⟨j, heq, hf, hu⟩ | ⟨caps, heq, hs⟩
  · rw [heq]
    have hsame : ∃ caps, b = { b with caps } ∧ Effect b op caps := ⟨b.caps, rfl, .untouched (.refl b _)⟩
    simp only
    generalize (if r = 0 then (b.caps.slots j).rights &&& ~~~rightDelegate else r) = requested
    split
    · exact hsame
    split
    · exact hsame
    rename_i howner
    split
    · exact hsame
    rename_i hdelegable
    split
    · exact hsame
    rename_i hrequested
    split
    · exact hsame
    split
    · exact hsame
    rcases hfree : b.caps.free with _ | i
    · exact hsame
    simp only [ne_eq, not_or, not_not, normalizeOwner_caller] at howner hrequested
    obtain ⟨hj, rfl⟩ := find_active hf
    exact ⟨_, rfl, .delegated i j _ hfree hj ⟨⟨r, x, howner, rfl, hop⟩, hu, hdelegable, rfl, rfl, rfl, rfl,
      and_not_subset hrequested.2.2 _, and_not_delegate _, rfl, rfl, rfl⟩⟩
  · rw [heq]
    simp only
    split <;> exact ⟨caps, rfl, .untouched hs⟩

/-- A revocation empties the slot of an expired record, changes nothing, or removes the record with its children. -/
theorem revoke_effect (b : Broker) (h c : UInt32) :
    ∃ caps, (b.revoke h c).2 = { b with caps } ∧ Effect b (.revoke h c) caps := by
  unfold revoke
  rcases findLive_cases b h with ⟨i, heq, hf, hu⟩ | ⟨caps, heq, hs⟩
  · rw [heq]
    simp only
    split
    · exact ⟨b.caps, rfl, .untouched (.refl b _)⟩
    split
    · exact ⟨b.caps, rfl, .untouched (.refl b _)⟩
    · rename_i ho
      exact ⟨_, rfl, .revoked i h c rfl hf hu (by simpa using ho)⟩
  · rw [heq]
    simp only
    split <;> exact ⟨caps, rfl, .untouched hs⟩

/-! ## Draining a class -/

theorem Swept.active (h : Swept b drained caps) (hi : (caps.slots i).active) :
    caps.slots i = b.caps.slots i := h.shrinks.kept hi

theorem Gone.congr {b' : Broker} (h : Gone b' drained r)
    (hcaps : ∀ j, (b'.caps.slots j).active → b'.caps.slots j = b.caps.slots j) (htick : b'.tick = b.tick)
    (hm : b'.launch.manifests = b.launch.manifests) : Gone b drained r := by
  cases h with
  | expired h => exact .expired (htick ▸ h)
  | stale h => exact .stale (by simpa only [Record.current, accepts_congr hm] using h)
  | drained h => exact .drained h
  | child j hj hd h =>
    have hk := hcaps j hj
    exact .child j (hk ▸ hj) (hk ▸ hd) (hk ▸ h)

/-- Two sweeps in a row. -/
theorem Swept.trans (b' : Broker)
    (h : Swept b drained b'.caps) (htick : b'.tick = b.tick) (hm : b'.launch.manifests = b.launch.manifests)
    (h' : Swept b' drained caps) : Swept b drained caps := by
  refine ⟨h'.next.trans h.next, fun i => ?_⟩
  rcases h'.slots i with heq | ⟨ha, heq, hg⟩
  · rw [heq]
    exact h.slots i
  · have hk := h.active ha
    refine .inr ⟨hk ▸ ha, hk ▸ heq, ?_⟩
    rw [← hk]
    exact hg.congr (fun j hj => h.active hj) htick hm

theorem Swept.mono {drained' : UInt32 → Prop}
    (h : Swept b drained caps) (hd : ∀ e, drained e → drained' e) : Swept b drained' caps := by
  refine ⟨h.next, fun i => (h.slots i).imp_right fun ⟨ha, heq, hg⟩ => ⟨ha, heq, ?_⟩⟩
  cases hg with
  | expired h => exact .expired h
  | stale h => exact .stale h
  | drained h => exact .drained (hd _ h)
  | child j hj hdj h => exact .child j hj (hd _ hdj) h

theorem revokeClassRound_swept {e : UInt32} {n : Nat}
    (h : Swept b (· = e) caps) (i : Fin tableLimit) : Swept b (· = e) (revokeClassRound b.tick e (n, caps) i).2 := by
  unfold revokeClassRound
  simp only
  split
  · exact h
  rename_i ha
  have ha : (caps.slots i).active := by simpa using ha
  have hk := h.active ha
  split
  · rename_i hx
    refine h.trans { b with caps } rfl rfl (.drop ha (.expired hx))
  split
  · exact h
  rename_i he
  have he : (caps.slots i).endpointId = e := by simpa using he
  refine ⟨h.next, fun j => ?_⟩
  -- the record itself, then the records that name it as their parent
  rw [HandleTable.revoke, HandleTable.dropIf_slots, HandleTable.drop_slots]
  by_cases hji : j = i
  · subst hji
    refine .inr ⟨hk ▸ ha, ?_, .drained (hk ▸ he)⟩
    rw [← hk]
    simp [active, clear, Record.clear]
  simp only [hji, if_false]
  split
  · rename_i hc
    have hkj := h.active hc.1
    have hp : (caps.slots j).parentHandle = (caps.slots i).handle := by simpa [Handled.parent] using hc.2
    refine .inr ⟨hkj ▸ hc.1, by rw [hkj]; rfl, .child i (hk ▸ ha) (hk ▸ he) ?_⟩
    rw [← hk, ← hkj, hp]
  · exact h.slots j

theorem revokeClassRound_shrinks (tick e : UInt32) (s : Nat × HandleTable tableLimit Record) (i : Fin tableLimit) :
    Shrinks s.2 (revokeClassRound tick e s i).2 := by
  unfold revokeClassRound
  simp only
  split
  · exact .refl _
  split
  · exact .drop _ _
  split
  · exact .refl _
  · exact .revoke _ _ _

theorem revokeClassRound_done (tick e : UInt32) (s : Nat × HandleTable tableLimit Record) (i : Fin tableLimit)
    (h : ((revokeClassRound tick e s i).2.slots i).active) :
    ((revokeClassRound tick e s i).2.slots i).endpointId ≠ e := by
  have hrevoke : ∀ hd, ((s.2.revoke i hd).slots i).active = false := by
    intro hd
    rw [HandleTable.revoke, HandleTable.dropIf_slots, HandleTable.drop_slots, if_pos rfl]
    simp [active, clear, Record.clear]
  unfold revokeClassRound at h ⊢
  simp only at h ⊢
  by_cases ha : (s.2.slots i).active
  · rw [ha] at h ⊢
    by_cases hx : (s.2.slots i).expired tick
    · simp [hx, drop_slots, clear, Record.clear] at h
    · simp only [hx, Bool.false_eq_true, if_false] at h ⊢
      by_cases he : (s.2.slots i).endpointId = e
      · simp [he, hrevoke] at h
      · simp [he]
  · simp [ha] at h

/-- The loop empties every slot that holds a record for the endpoint. -/
theorem revokeClass_done (tick e : UInt32) (l : List (Fin tableLimit)) (s : Nat × HandleTable tableLimit Record) :
    Shrinks s.2 (l.foldl (revokeClassRound tick e) s).2 ∧
      ∀ i ∈ l, ((l.foldl (revokeClassRound tick e) s).2.slots i).active →
        ((l.foldl (revokeClassRound tick e) s).2.slots i).endpointId ≠ e := by
  induction l generalizing s with
  | nil => exact ⟨.refl _, fun i hi => absurd hi not_mem_nil⟩
  | cons k l ih =>
    obtain ⟨hs, hd⟩ := ih (revokeClassRound tick e s k)
    refine ⟨(revokeClassRound_shrinks tick e s k).trans hs, fun i hi ha => ?_⟩
    rw [foldl_cons] at ha ⊢
    rcases mem_cons.1 hi with rfl | hi
    · have hk := hs.kept ha
      rw [hk] at ha ⊢
      exact revokeClassRound_done tick e s i ha
    · exact hd i hi ha

theorem revokeEndpointClass_swept (b : Broker) (c : UInt32) :
    ∃ caps drained, (b.revokeEndpointClass c).2 = { b with caps } ∧ (∀ e, drained e → e = resolveEndpointClass c) ∧
      Swept b drained caps ∧ ∀ i, (caps.slots i).active → ¬ drained (caps.slots i).endpointId := by
  unfold revokeEndpointClass
  simp only
  split
  · exact ⟨b.caps, Undrained, rfl, fun _ h => h.elim, .refl b _, fun _ _ => id⟩
  refine ⟨_, (· = resolveEndpointClass c), rfl, fun _ h => h, ?_, fun i => ?_⟩
  · refine foldlRecOn (motive := fun s : Nat × HandleTable tableLimit Record =>
      Swept b (· = resolveEndpointClass c) s.2) _ _ (Swept.refl b _) fun s hs i _ => ?_
    exact revokeClassRound_swept hs i
  · exact (revokeClass_done b.tick _ _ (0, b.caps)).2 i (mem_finRange i)

theorem liveForEndpointClass_swept (b : Broker) (c : UInt32) (drained : UInt32 → Prop) :
    ∃ caps, (b.liveForEndpointClass c).2 = { b with caps } ∧ Swept b drained caps := by
  unfold liveForEndpointClass
  simp only
  split
  · exact ⟨b.caps, rfl, .refl b _⟩
  · exact ⟨_, rfl, .expired b drained⟩

/-- A count of 0 means that no record for the class is left. -/
theorem liveForEndpointClass_zero {c : UInt32} (hc : resolveEndpointClass c ≠ invalidResult)
    (h : (b.liveForEndpointClass c).1 = 0) (i : Fin tableLimit)
    (hi : ((b.liveForEndpointClass c).2.caps.slots i).active) :
    ((b.liveForEndpointClass c).2.caps.slots i).endpointId ≠ resolveEndpointClass c := by
  simp only [liveForEndpointClass, hc, if_false] at h hi ⊢
  have := countP_eq_zero.1 h i (mem_finRange i)
  simpa [hi] using this

/-! ## Requests to the launcher -/

/-- What a launcher request makes of the manifests. A restarted service has no record left in the table. -/
inductive Relaunched (b : Broker) (caps : HandleTable tableLimit Record) : Launch → Prop
  | same {l : Launch} (h : l.manifests = b.launch.manifests) : Relaunched b caps l
  | flagged {l : Launch} (i : Nat) (m : Manifest) (q : Bool) (hi : b.launch.manifests[i]? = some m)
      (h : l.manifests = b.launch.manifests.set i { m with quiesceReady := q }) : Relaunched b caps l
  | restarted {l : Launch} (i : Nat) (m : Manifest) (q : Bool) (hi : b.launch.manifests[i]? = some m)
      (hs : m.started = true) (h : l.manifests = b.launch.manifests.set i { m.nextRuntime with quiesceReady := q })
      (hlive : resolveEndpointClass m.launchedEndpointClass ≠ invalidResult → ∀ j, (caps.slots j).active = true →
        (caps.slots j).endpointId ≠ resolveEndpointClass m.launchedEndpointClass) : Relaunched b caps l

/-- The tables and manifests a launcher request can leave. -/
structure Requested (b : Broker) (op : Op) (b' : Broker) : Prop where
  tick : b'.tick = b.tick
  personas : b'.personas = b.personas
  effect : Effect b op b'.caps
  launch : Relaunched b b'.caps b'.launch

theorem Requested.admitted (h : launch.manifests = b.launch.manifests) : Requested b op
    { b with launch } :=
  ⟨rfl, rfl, .untouched (.refl b _), .same h⟩

/-- The count of a class's records, after the request has been logged. -/
theorem liveAfterAdmit (h : launch.manifests = b.launch.manifests) (c : UInt32) (drained : UInt32 → Prop) :
    ∃ caps, (liveForEndpointClass { b with launch } c).2 = { b with launch, caps } ∧ Swept b drained caps := by
  obtain ⟨caps, heq, hs⟩ := liveForEndpointClass_swept { b with launch } c drained
  exact ⟨caps, heq, (Swept.refl b drained).trans { b with launch } rfl h hs⟩

theorem requestServiceQuiesce_requested (b : Broker) (r : UInt32) (i : Nat) (op : Op) :
    Requested b op (b.requestServiceQuiesce r i).2 := by
  unfold requestServiceQuiesce
  obtain ⟨launch, hsame, heq | ⟨m, heq, hm⟩⟩ := b.launch.admitRequest_cases r i <;> rw [heq]
  · exact .admitted hsame
  simp only
  split
  · exact .admitted hsame
  obtain ⟨caps, heq, hs⟩ := liveAfterAdmit hsame m.launchedEndpointClass Undrained
  rcases hl : liveForEndpointClass { b with launch } m.launchedEndpointClass with ⟨live, b'⟩
  rw [hl] at heq
  subst heq
  split
  · exact ⟨rfl, rfl, .untouched hs, .flagged i m false hm (by simp [setManifest, hsame])⟩
  · exact ⟨rfl, rfl, .untouched hs, .flagged i m true hm (by simp [setManifest, hsame])⟩

theorem requestServiceRestart_requested (b : Broker) (r : UInt32) (i : Nat) (imageOk : Bool) (op : Op) :
    Requested b op (b.requestServiceRestart r i imageOk).2 := by
  unfold requestServiceRestart
  obtain ⟨launch, hsame, heq | ⟨m, heq, hm⟩⟩ := b.launch.admitRequest_cases r i <;> rw [heq]
  · exact .admitted hsame
  simp only
  split
  · exact .admitted hsame
  rename_i hstarted
  have hstarted : m.started := by simpa using hstarted
  obtain ⟨caps, heq, hs⟩ := liveAfterAdmit hsame m.launchedEndpointClass Undrained
  have hzero := fun hc => liveForEndpointClass_zero (b := { b with launch }) (c := m.launchedEndpointClass) hc
  rcases hl : liveForEndpointClass { b with launch } m.launchedEndpointClass with ⟨live, b'⟩
  rw [hl] at heq hzero
  subst heq
  split
  · exact ⟨rfl, rfl, .untouched hs, .flagged i m false hm (by simp [setManifest, hsame])⟩
  rename_i hlive
  have hlive : live = 0 := by simpa using hlive
  split
  · exact ⟨rfl, rfl, .untouched hs, .same hsame⟩
  split
  · exact ⟨rfl, rfl, .untouched hs, .restarted i m m.nextRuntime.quiesceReady hm hstarted
      (by simp [setManifest, hsame]) fun hc => hzero hc hlive⟩
  · exact ⟨rfl, rfl, .untouched hs, .restarted i m false hm hstarted
      (by simp [setManifest, hsame]) fun hc => hzero hc hlive⟩

theorem requestServiceDrain_requested (b : Broker) (r : UInt32) (i : Nat) :
    Requested b (.drain r i) (b.requestServiceDrain r i).2 := by
  unfold requestServiceDrain
  obtain ⟨launch, hsame, heq | ⟨m, heq, hm⟩⟩ := b.launch.admitRequest_cases r i <;> rw [heq]
  · exact .admitted hsame
  simp only
  split
  · exact .admitted hsame
  obtain ⟨caps1, heq1, hs1⟩ := liveAfterAdmit hsame m.launchedEndpointClass Undrained
  rw [heq1]
  obtain ⟨caps2, drained, heq2, hd, hs2, hc⟩ :=
    revokeEndpointClass_swept { b with launch, caps := caps1 } m.launchedEndpointClass
  rw [heq2]
  obtain ⟨caps3, heq3, hs3⟩ :=
    liveForEndpointClass_swept { b with launch, caps := caps2 } m.launchedEndpointClass drained
  rcases hl : liveForEndpointClass { b with launch, caps := caps2 } m.launchedEndpointClass with ⟨live, b'⟩
  rw [hl] at heq3
  subst heq3
  have h2 := (hs1.mono fun _ h => h.elim).trans { b with launch, caps := caps1 } rfl hsame hs2
  have h3 := h2.trans { b with launch, caps := caps2 } rfl hsame hs3
  refine ⟨rfl, rfl, .swept drained (fun e he => ⟨m, hm, hd e he⟩) h3 fun j hj => ?_, .same hsame⟩
  have hk := hs3.active hj
  rw [hk] at hj ⊢
  exact hc j hj

/-! ## Every call -/

/-- What a call leaves: a changed table, or one of the things that happen around the broker. -/
inductive Stepped (b : Broker) (op : Op) : Broker → Prop
  | table {caps : HandleTable tableLimit Record} (h : Effect b op caps) : Stepped b op { b with caps }
  | ticks (count : UInt32) (hop : op = .ticks count) : Stepped b op { b with tick := b.tick + count }
  | personas (personas : Personas) (hop : op = .setPersonas personas) : Stepped b op { b with personas }
  | bound (imageOk : Seed → Bool) (hop : op = .bindManifests imageOk) :
      Stepped b op { b with launch := b.launch.bindManifests imageOk }
  | requested {b' : Broker} (i : Nat) (r : UInt32) (hop : op = .quiesce r i ∨ op = .drain r i ∨ ∃ ok, op = .restart r i ok)
      (h : Requested b op b') : Stepped b op b'

theorem step_spec (b : Broker) (op : Op) : Stepped b op (b.step op) := by
  have of_caps : ∀ {b' : Broker}, (∃ caps, b' = { b with caps } ∧ Effect b op caps) → Stepped b op b' := by
    intro b' ⟨caps, heq, h⟩
    exact heq ▸ .table h
  have of_swept : ∀ {b' : Broker}, (∃ caps, b' = { b with caps } ∧ Swept b Undrained caps) → Stepped b op b' := by
    intro b' ⟨caps, heq, h⟩
    exact heq ▸ .table (.untouched h)
  cases op with
  | grantService c r o => exact of_caps (grantServiceTagged_effect b _ c r o _ _ (.inl rfl))
  | grantServiceForProcess c r p => exact of_caps (grantServiceForProcess_effect b c r p)
  | delegate s r x => exact of_caps (delegateWithExpiry_effect b _ s r x _ (.inl ⟨rfl, rfl⟩))
  | delegatePersistent s r x => exact of_caps (delegateWithExpiry_effect b _ s r x _ (.inr ⟨rfl, rfl⟩))
  | route h r c => exact of_swept (route_swept b h r c)
  | revoke h c => exact of_caps (revoke_effect b h c)
  | liveForEndpointClass c => exact of_swept (liveForEndpointClass_swept b c _)
  | revokeEndpointClass c =>
    obtain ⟨caps, drained, heq, hd, hs, hc⟩ := revokeEndpointClass_swept b c
    exact of_caps ⟨caps, heq, .swept drained hd hs hc⟩
  | ticks n => exact .ticks n rfl
  | setPersonas p => exact .personas p rfl
  | bindManifests f => exact .bound f rfl
  | quiesce r i => exact .requested i r (.inl rfl) (requestServiceQuiesce_requested b r i _)
  | drain r i => exact .requested i r (.inr (.inl rfl)) (requestServiceDrain_requested b r i)
  | restart r i ok => exact .requested i r (.inr (.inr ⟨ok, rfl⟩)) (requestServiceRestart_requested b r i ok _)
  | _ h c => exact of_swept (query_swept _ _ _ b h c)

/-- The effect of a call on the table. -/
theorem step_effect (b : Broker) (op : Op) : Effect b op (b.step op).caps := by
  have h := step_spec b op
  generalize b.step op = b' at h ⊢
  cases h with
  | table h => exact h
  | requested i r hop h => exact h.effect
  | _ => exact .untouched (.refl b _)

/-! ## Records that are issued -/

/-- The calls that write a record. -/
def Op.issues : Op → Bool
  | .grantService .. | .grantServiceForProcess .. | .delegate .. | .delegatePersistent .. => true
  | _ => false

theorem Grants.issues (h : Grants b op r) : op.issues := by
  obtain ⟨_, -, ⟨_, hop, -⟩ | ⟨_, hop, -⟩⟩ := h.call <;> rw [hop] <;> rfl

theorem Delegates.issues {source : Record} (h : Delegates b op source r) : op.issues := by
  obtain ⟨_, _, -, -, ⟨hop, -⟩ | ⟨hop, -⟩⟩ := h.call <;> rw [hop] <;> rfl

/-- An active record after a call was there before or was written by the call. -/
theorem step_active (b : Broker) (op : Op) (hi : ((b.step op).caps.slots i).active) :
    (b.step op).caps.slots i = b.caps.slots i ∨ Grants b op ((b.step op).caps.slots i) ∨
      ∃ j, (b.caps.slots j).active ∧ Delegates b op (b.caps.slots j) ((b.step op).caps.slots i) := by
  have h := step_effect b op
  generalize (b.step op).caps = caps at h hi ⊢
  cases h with
  | swept drained hd h hc => exact .inl (h.active hi)
  | granted k r hk h =>
    rw [issue_slots]
    split
    · exact .inr (.inl h)
    · exact .inl rfl
  | delegated k j r hk hj h =>
    rw [issue_slots]
    split
    · exact .inr (.inr ⟨j, hj, h⟩)
    · exact .inl rfl
  | revoked k handle caller hop hk hu ho => exact .inl ((Shrinks.revoke b.caps k handle).kept hi)

end Broker

end LimitlessOS.Capability
