/-
  LimitlessOS.Capability.Lifetime — a delegated record does not outlive its source.

  Records leave the table by revocation, by a lease that runs out, by a stale runtime and
  by the drain of an endpoint. A source is never a delegated record, so its lease does not
  run out; a runtime changes only when no record for its class is left; revocations and
  drains take the children along. What this needs is that handles are not given out twice:
  the counter is 32 bits wide, and the handle 0 also stands for "no parent".

  Proved, for runs that stop issuing handles when the counter has come round to 0:
  - `Sound.step`, `sound_of_run`: the invariant of the table.
  - `anchored_of_run`: the source of every delegated record is in the table, unexpired and
    current; a delegated record routes only while the record it was delegated from is in
    its slot.

  `anchored_fails`: without the condition, revoking handle 0 removes every granted record
  and leaves the records delegated from them.
-/
import LimitlessOS.Capability.Steps
import LimitlessOS.Lib.Run

namespace LimitlessOS.Capability

open Lib Record HandleTable UInt32 Launch

theorem Manifest.Bound.quiesce {m : Manifest} {s : Seed} (h : m.Bound s) (q : Bool) :
    ({ m with quiesceReady := q } : Manifest).Bound s :=
  ⟨h.process, h.pid, h.principal, h.endpointClass, h.token, h.first⟩

theorem Manifest.Idle.quiesce {m : Manifest} (h : m.Idle) (q : Bool) : ({ m with quiesceReady := q } : Manifest).Idle :=
  ⟨h.endpointClass, h.token, h.started⟩

namespace Broker

/-- The call does not issue a handle after the counter has come round. -/
def Fresh (b : Broker) (op : Op) : Prop := op.issues = true → b.caps.next ≠ 0

instance (b : Broker) (op : Op) : Decidable (Fresh b op) := inferInstanceAs (Decidable (_ → _))

/-- A record as the broker writes it, bound to a runtime that is still current. -/
structure RecordOk (l : Launch) (r : Record) : Prop where
  endpoint : r.endpointId = resolveEndpointClass r.endpointClass
  resolved : r.endpointId ≠ invalidResult
  current : r.current l = true
  granted : r.parentHandle = 0 → r.expiryTick = leasePermanent
  delegated : r.parentHandle ≠ 0 → r.rights &&& rightDelegate = 0

/-- `p` is the granted record that `r` was delegated from. -/
structure SourceOf (p r : Record) : Prop where
  active : p.active = true
  handle : p.handle = r.parentHandle
  granted : p.parentHandle = 0
  endpoint : p.endpointId = r.endpointId

/-- The invariant of the table. -/
structure Sound (b : Broker) : Prop where
  launch : b.launch.Ok
  numbered : b.caps.Numbered handleBase.toNat
  record : ∀ i, (b.caps.slots i).active = true → RecordOk b.launch (b.caps.slots i)
  source : ∀ i, (b.caps.slots i).active = true → (b.caps.slots i).parentHandle ≠ 0 →
    ∃ j, SourceOf (b.caps.slots j) (b.caps.slots i)

theorem RecordOk.unexpired {l : Launch} {r : Record} (h : RecordOk l r) (hp : r.parentHandle = 0) (tick : UInt32) :
    r.expired tick = false := by
  simp [expired, h.granted hp]

/-! ## The table -/

namespace Sound

variable {b : Broker}

variable {op : Op} {r : Record} {i : Fin tableLimit} {caps : HandleTable tableLimit Record}

section

variable (h : Sound b) {drained : UInt32 → Prop}
include h

theorem handle_ne_zero (hi : (b.caps.slots i).active) : (b.caps.slots i).handle ≠ 0 := by
  have hlow := h.numbered.low i hi
  intro h0
  simp only [Handled.handle, h0] at hlow
  exact absurd hlow (by decide)

/-- A granted record leaves the table without a revocation only when its endpoint is drained. -/
theorem gone_granted (hi : (b.caps.slots i).active) (hp : (b.caps.slots i).parentHandle = 0)
    (hg : Gone b drained (b.caps.slots i)) : drained (b.caps.slots i).endpointId := by
  cases hg with
  | expired hx => simp [(h.record i hi).unexpired hp] at hx
  | stale hs => simp [(h.record i hi).current] at hs
  | drained hd => exact hd
  | child j hj hd hc => exact absurd (hc.symm.trans hp) (h.handle_ne_zero hj)

/-- A smaller table in which the delegated records that are left keep their sources. -/
theorem shrink (hs : Shrinks b.caps caps)
    (hkeeps : ∀ i j, (caps.slots i).active → SourceOf (b.caps.slots j) (b.caps.slots i) → caps.slots j = b.caps.slots j) :
    Sound { b with caps } := by
  refine ⟨h.launch, h.numbered.shrinks hs, fun i hi => ?_, fun i hi hp => ?_⟩
  · have hk := hs.kept hi
    rw [hk] at hi ⊢
    exact h.record i hi
  have hk := hs.kept hi
  rw [hk] at hp
  obtain ⟨j, hj⟩ := h.source i (hk ▸ hi) hp
  refine ⟨j, ?_⟩
  rwa [hkeeps i j hi hj, hk]

theorem swept (hs : Swept b drained caps) (hc : ∀ i, (caps.slots i).active → ¬ drained (caps.slots i).endpointId) :
    Sound { b with caps } := by
  refine h.shrink hs.shrinks fun i j hi hj => ?_
  rcases hs.slots j with heq | ⟨-, -, hg⟩
  · exact heq
  · have hd := h.gone_granted hj.active hj.granted hg
    rw [hj.endpoint, ← hs.active hi] at hd
    exact absurd hd (hc i hi)

theorem revoke {handle : UInt32} (hi : b.caps.find handle = some i) :
    Sound { b with caps := b.caps.revoke i handle } := by
  refine h.shrink (.revoke _ _ _) fun k j hk hj => ?_
  obtain ⟨ha, hhandle⟩ := find_active hi
  have hkept := (Shrinks.revoke b.caps i handle).kept hk
  rw [HandleTable.revoke, HandleTable.dropIf_slots, HandleTable.drop_slots]
  have hji : j ≠ i := by
    -- the children of the record that goes have gone with it
    rintro rfl
    have hchild : (b.caps.slots k).parentHandle = handle := hj.handle.symm.trans hhandle
    have hgone : (((b.caps.revoke j handle).slots k).active) = false := by
      rw [HandleTable.revoke, HandleTable.dropIf_slots, HandleTable.drop_slots]
      split
      · simp [Handled.active, Handled.clear, clear]
      · simp [Handled.active, Handled.parent, Handled.clear, hchild, hkept ▸ hk, clear]
    rw [hgone] at hk
    exact absurd hk (by decide)
  have hp : (b.caps.slots j).parentHandle ≠ handle := by
    rw [hj.granted, ← hhandle]
    exact (h.handle_ne_zero ha).symm
  simp [hji, Handled.parent, hp]

/-- A new record in a free slot. -/
theorem issue (hnext : b.caps.next ≠ 0) (hi : b.caps.free = some i) (hhandle : r.handle = b.caps.next)
    (hr : RecordOk b.launch r) (hsource : r.parentHandle ≠ 0 → ∃ j, SourceOf (b.caps.slots j) r) : Sound
    { b with caps := b.caps.issue i fun _ => r } := by
  have hfree : (b.caps.slots i).active = false := free_some hi
  have hother : ∀ {j}, (b.caps.slots j).active → j ≠ i := by
    rintro j hj rfl
    simp [hfree] at hj
  have hslots := fun j => issue_slots b.caps i j fun _ => r
  -- a source that was in the table is still there
  have hstill : ∀ {r'}, (∃ j, SourceOf (b.caps.slots j) r') → ∃ j, SourceOf ((b.caps.issue i fun _ => r).slots j) r' := by
    rintro r' ⟨j, hj⟩
    refine ⟨j, ?_⟩
    rwa [hslots, if_neg (hother hj.active)]
  have hnumbered : (b.caps.issue i fun _ => r).Numbered handleBase.toNat := h.numbered.issue hnext hhandle
  refine ⟨h.launch, hnumbered, fun j hj => ?_, fun j hj hp => ?_⟩
  · rw [hslots] at hj ⊢
    split at hj
    · simp [*]
    · simpa [*] using h.record j hj
  · apply hstill
    rw [hslots] at hj hp ⊢
    split at hj
    · simp only [*, if_true] at hp ⊢
      exact hsource hp
    · simp only [*, if_false] at hp ⊢
      exact h.source j hj hp

end

theorem granted_ok (hr : Grants b op r) : RecordOk b.launch r :=
  ⟨hr.endpoint, hr.resolved, hr.current, fun _ => hr.expiry, fun hp => absurd hr.parent hp⟩

theorem delegates (h : Sound b) {j : Fin tableLimit} (hj : (b.caps.slots j).active)
    (hr : Delegates b op (b.caps.slots j) r) : RecordOk b.launch r ∧ SourceOf (b.caps.slots j) r := by
  have hok := h.record j hj
  have hroot : (b.caps.slots j).parentHandle = 0 := by
    by_contra hp
    exact hr.delegable (hok.delegated hp)
  have hne : r.parentHandle ≠ 0 := hr.parent ▸ h.handle_ne_zero hj
  refine ⟨⟨?_, ?_, ?_, fun hp => absurd hp hne, fun _ => hr.undelegable⟩, hj, hr.parent.symm, hroot, hr.endpoint.symm⟩
  · rw [hr.endpoint, hr.endpointClass]
    exact hok.endpoint
  · rw [hr.endpoint]
    exact hok.resolved
  · simpa [current, hr.endpointClass, hr.generation, hr.token] using hok.current

theorem effect (h : Sound b) (hf : Fresh b op) (he : Effect b op caps) : Sound { b with caps } := by
  cases he with
  | swept drained hd hs hc => exact h.swept hs hc
  | granted i r hi hr =>
    exact h.issue (hf hr.issues) hi hr.handle (granted_ok hr) fun hp => absurd hr.parent hp
  | delegated i j r hi hj hr =>
    obtain ⟨hok, hsource⟩ := h.delegates hj hr
    exact h.issue (hf hr.issues) hi hr.handle hok fun _ => ⟨j, hsource⟩
  | revoked i handle caller hop hi hu ho => exact h.revoke hi

/-- The records stay current when the launcher changes a manifest. -/
theorem relaunched (h : Sound b) {l : Launch} (hl : Relaunched b b.caps l) : Sound { b with launch := l } := by
  have hrecord : l.Ok → (∀ i, (b.caps.slots i).active → (b.caps.slots i).current l) →
      Sound { b with launch := l } := fun hok hcurrent =>
    ⟨hok, h.numbered, fun i hi =>
      ⟨(h.record i hi).endpoint, (h.record i hi).resolved, hcurrent i hi, (h.record i hi).granted,
        (h.record i hi).delegated⟩, h.source⟩
  cases hl with
  | same hm =>
    refine hrecord (h.launch.congr hm) fun i hi => ?_
    simpa only [current, accepts_congr hm] using (h.record i hi).current
  | flagged k m q hk hm =>
    have hok : (b.launch.setManifest k { m with quiesceReady := q }).Ok := by
      refine h.launch.setManifest hk rfl ?_
      rcases h.launch k m hk with hidle | ⟨s, hbound, hfirst⟩
      · exact .inl (hidle.quiesce q)
      · exact .inr ⟨s, hbound.quiesce q, hfirst⟩
    refine hrecord (hok.congr hm) fun i hi => ?_
    have hcurrent := accepts_setManifest { m with quiesceReady := q } hk (fun hc => ⟨hc, rfl, rfl⟩)
      (fun _ hc => hc) (h.record i hi).current
    simpa only [current, accepts_congr (l := b.launch.setManifest k _) hm] using hcurrent
  | restarted k m q hk hs hm hlive =>
    have hok : (b.launch.setManifest k { m.nextRuntime with quiesceReady := q }).Ok := by
      refine h.launch.setManifest hk rfl (.inr ?_)
      rcases h.launch k m hk with hidle | ⟨s, hbound, hfirst⟩
      · simp [hidle.started] at hs
      · exact ⟨s, (hbound.nextRuntime hs).quiesce q, hfirst⟩
    refine hrecord (hok.congr hm) fun i hi => ?_
    have hr := h.record i hi
    -- a record of the restarted class would have been counted as live
    have hne : m.launchedEndpointClass ≠ (b.caps.slots i).endpointClass := by
      intro hc
      have hresolve := hr.endpoint
      rw [← hc] at hresolve
      exact hlive (hresolve ▸ hr.resolved) i hi hresolve
    have hcurrent := accepts_other { m.nextRuntime with quiesceReady := q } hk rfl hne hr.current
    simpa only [current, accepts_congr (l := b.launch.setManifest k _) hm] using hcurrent

theorem step (h : Sound b) (hf : Fresh b op) : Sound (b.step op) := by
  have hspec := step_spec b op
  generalize b.step op = b' at hspec ⊢
  cases hspec with
  | table he => exact h.effect hf he
  | ticks n hop | personas p hop => exact ⟨h.launch, h.numbered, h.record, h.source⟩
  | bound imageOk hop =>
    refine ⟨h.launch.bindManifests imageOk, h.numbered, fun i hi => ?_, h.source⟩
    have hr := h.record i hi
    exact ⟨hr.endpoint, hr.resolved, h.launch.accepts_bindManifests imageOk hr.current, hr.granted, hr.delegated⟩
  | requested i r hop hreq =>
    have hcaps := h.effect hf hreq.effect
    have hl : Relaunched { b with caps := b'.caps } b'.caps b'.launch := by
      cases hreq.launch with
      | same hm => exact .same hm
      | flagged k m q hk hm => exact .flagged k m q hk hm
      | restarted k m q hk hs hm hlive => exact .restarted k m q hk hs hm hlive
    have hsound := hcaps.relaunched hl
    exact ⟨hsound.launch, hsound.numbered, hsound.record, hsound.source⟩

end Sound

variable (catalog : List Manifest) (tick : UInt32) (personas : Personas) {ops : List Op}

theorem sound_boot : Sound (boot catalog tick personas) := by
  refine ⟨fun i m hi => ?_, ⟨?_, ?_, ?_, ?_⟩, ?_, ?_⟩
  · obtain ⟨m', -, rfl⟩ := List.mem_map.1 (List.mem_of_getElem? hi)
    exact .inl ⟨rfl, rfl, rfl⟩
  case refine_5 => exact show handleBase.toNat ≤ initCaps.limit by decide
  all_goals simp [boot, initCaps, blank, Handled.active]

theorem sound_of_run (h : Meets step Fresh (boot catalog tick personas) ops) :
    Sound ((boot catalog tick personas).run ops) :=
  h.invariant (fun _ _ hs hf => hs.step hf) (sound_boot catalog tick personas)

/-! ## The source of a delegated record -/

variable {b : Broker}

theorem later_step {op : Op} (hf : Fresh b op) : b.caps.Later (b.step op).caps := by
  have he := step_effect b op
  generalize (b.step op).caps = caps at he ⊢
  cases he with
  | swept drained hd hs hc => exact .shrinks hs.shrinks
  | granted i r hi hr | delegated i j r hi hj hr =>
    exact .issue (hf hr.issues) hr.handle
  | revoked i handle caller hop hi hu ho => exact .shrinks (.revoke _ _ _)

theorem later_run (h : Meets step Fresh b ops) : b.caps.Later (b.run ops).caps :=
  h.invariant (i := fun s => b.caps.Later s.caps) (fun _ _ hs hf => hs.trans (later_step hf)) (.refl _)

/-- The call delegates the record in slot `j` and writes `r`. -/
structure Delegated (b : Broker) (op : Op) (j : Fin tableLimit) (r : Record) : Prop where
  source : (b.caps.slots j).active = true
  delegates : Delegates b op (b.caps.slots j) r
  written : ∃ i, (b.caps.slots i).active = false ∧ (b.step op).caps.slots i = r

/-- Delegated records have their sources: in the table as the run leaves it, and for every delegation of the run
whose handle still routes. -/
structure Anchored (b : Broker) (ops : List Op) : Prop where
  parent : ∀ i, ((b.run ops).caps.slots i).active = true → ((b.run ops).caps.slots i).expired (b.run ops).tick = false →
    ((b.run ops).caps.slots i).parentHandle ≠ 0 →
    ∃ j, ((b.run ops).caps.slots j).active = true ∧
      ((b.run ops).caps.slots j).handle = ((b.run ops).caps.slots i).parentHandle ∧
      ((b.run ops).caps.slots j).expired (b.run ops).tick = false ∧
      ((b.run ops).caps.slots j).current (b.run ops).launch = true
  routed : ∀ before op after j r rights caller, ops = before ++ op :: after → Delegated (b.run before) op j r →
    ((b.run ops).route r.handle rights caller).1 ≠ invalidResult →
    (b.run ops).caps.slots j = (b.run before).caps.slots j

/-- In every run that issues no handle after the counter has come round, delegated records have their sources. -/
theorem anchored_of_run {ops : List Op} (h : Meets step Fresh (boot catalog tick personas) ops) :
    Anchored (boot catalog tick personas) ops := by
  have hend := sound_of_run catalog tick personas h
  refine ⟨fun i hi _ hp => ?_, fun before op after j r rights caller hsplit hd hroute => ?_⟩
  · obtain ⟨j, hj⟩ := hend.source i hi hp
    have hok := hend.record j hj.active
    exact ⟨j, hj.active, hj.handle, hok.unexpired hj.granted _, hok.current⟩
  subst hsplit
  obtain ⟨hbefore, hop, hafter⟩ := Meets.append.1 h
  have hsound := sound_of_run catalog tick personas hbefore
  have hrun : (boot catalog tick personas).run (before ++ op :: after) =
      (((boot catalog tick personas).run before).step op).run after := by simp [run]
  change ((boot catalog tick personas).run before).Fresh op at hop
  change Meets step Fresh (((boot catalog tick personas).run before).step op) after at hafter
  rw [hrun] at hroute hend ⊢
  generalize (boot catalog tick personas).run before = b at *
  have hlater := later_run hafter
  have hlater' := (later_step hop).trans hlater
  have hsound' := hsound.step hop
  obtain ⟨i, -, hi⟩ := hd.written
  -- the handle finds the delegated record, which is still in its slot
  have hfound : ((b.step op).run after).caps.slots i = r := by
    rw [route_result] at hroute
    rcases hf : ((b.step op).run after).caps.find r.handle with _ | k
    · simp [hf] at hroute
    obtain ⟨hk, hhandle⟩ := find_active hf
    rw [← hi] at hhandle ⊢
    exact (hlater.same hsound'.numbered (hi ▸ hd.delegates.active) hk hhandle).2
  have hne : r.parentHandle ≠ 0 := hd.delegates.parent ▸ hsound.handle_ne_zero hd.source
  obtain ⟨j', hj'⟩ := hend.source i (hfound ▸ hd.delegates.active) (hfound ▸ hne)
  have hhandle : (((b.step op).run after).caps.slots j').handle = (b.caps.slots j).handle := by
    rw [hj'.handle, hfound, hd.delegates.parent]
  exact (hlater'.same hsound.numbered hd.source hj'.active hhandle).2

theorem anchored_delegation :
    let ops := [.grantService 3 (rightSend ||| rightDelegate) 0x101, .delegatePersistent 0x6400 rightSend 0x01010102]
    ((idle.run ops).caps.slots 1).parentHandle = 0x6400 ∧ Anchored idle ops :=
  ⟨by decide +kernel, anchored_of_run [] 0 _ (by decide +kernel)⟩

/-! ## When the counter comes round -/

/-- The table after a record with handle `h` has come and gone in the first slot. -/
def visited (h : UInt32) : HandleTable tableLimit Record :=
  { slots := Function.update (fun _ => blank) 0 { blank with handle := h }, next := h + 1 }

theorem visit {r : Record} (hr : r.active = false) (hslots : b.caps.slots = Function.update (fun _ => blank) 0 r) :
    (b.step (.grantService 1 rightSend principalSystem)).step (.revoke b.caps.next principalSystem) =
      { b with caps := visited b.caps.next } := by
  have hfree : b.caps.free = some 0 := Slots.first_zero (by simp [hslots, Handled.active, hr])
  have hgrant : b.step (.grantService 1 rightSend principalSystem) =
      { b with caps := b.caps.issue 0 (b.grantedRecord 1 rightSend principalSystem personaUntagged 0) } := by
    simp only [step, grantService, grantServiceTagged, hfree]
    rfl
  generalize hb' : ({ b with caps := b.caps.issue 0 (b.grantedRecord 1 rightSend principalSystem personaUntagged 0) } : Broker) =
    b' at hgrant
  have h0 : b'.caps.slots 0 = b.grantedRecord 1 rightSend principalSystem personaUntagged 0 b.caps.next := by
    rw [← hb']
    simp [issue_slots]
  have hfind : b'.caps.find b.caps.next = some 0 := by
    apply Slots.first_zero
    rw [h0]
    simp [Handled.active, Handled.handle, grantedRecord]
  have hlive : b'.findLive b.caps.next = (some 0, b') := by
    rw [findLive, hfind]
    simp only [h0]
    simp [expired, grantedRecord]
  have hrevoke : b'.step (.revoke b.caps.next principalSystem) = { b' with caps := b'.caps.revoke 0 b.caps.next } := by
    simp only [step, revoke, hlive, h0]
    rfl
  have hcaps : (b.caps.issue 0 (b.grantedRecord 1 rightSend principalSystem personaUntagged 0)).revoke 0 b.caps.next =
      visited b.caps.next := by
    ext1
    · funext j
      simp only [HandleTable.revoke, HandleTable.dropIf_slots, HandleTable.drop_slots, HandleTable.issue_slots, visited]
      by_cases hj : j = 0
      · simp [hj, Handled.active, Handled.clear, clear, grantedRecord, blank]
      · simp [hj, hslots, Handled.active, blank]
    · rfl
  rw [hgrant, hrevoke, ← hb']
  simp only [hcaps]

/-- So many grants to the system, each revoked before the next. -/
def visits : Nat → List Op
  | 0 => []
  | n + 1 => visits n ++ [.grantService 1 rightSend principalSystem, .revoke (handleBase + UInt32.ofNat n) principalSystem]

theorem run_visits (n : Nat) : idle.run (visits (n + 1)) = { idle with caps := visited (handleBase + ofNat n) } := by
  induction n with
  | zero => exact visit (b := idle) (r := blank) rfl (by simp [idle, boot, initCaps])
  | succ n ih =>
    have hrun : idle.run (visits (n + 2)) = ((idle.run (visits (n + 1))).step
        (.grantService 1 rightSend principalSystem)).step (.revoke (handleBase + ofNat (n + 1)) principalSystem) := by
      rw [visits]
      simp [run]
    have hnext : handleBase + ofNat (n + 1) = handleBase + ofNat n + 1 := by
      rw [UInt32.ofNat_add, UInt32.add_assoc]
      rfl
    rw [hrun, ih, hnext]
    exact visit (b := { idle with caps := visited (handleBase + ofNat n) }) (r := { blank with handle := _ }) rfl rfl

/-- Enough grants to bring the counter round to 0. -/
def comeRound : List Op := visits (2 ^ 32 - 0x6400)

theorem run_comeRound (ops : List Op) :
    idle.run (comeRound ++ ops) = ({ idle with caps := visited 0xFFFFFFFF } : Broker).run ops := by
  have h := run_visits (2 ^ 32 - 0x6400 - 1)
  rw [run, List.foldl_append, ← run, ← run]
  exact congrArg (run · ops) h

/-- Handles 0 and 1 are granted and 2 is delegated from 1; then 0 is revoked. -/
def wrapped : List Op :=
  [.grantService 3 rightSend principalSystem, .grantService 3 (rightSend ||| rightDelegate) 0x101,
    .delegatePersistent 1 rightSend 0x01010102, .revoke 0 principalSystem]

theorem anchored_fails : ¬ Anchored idle (comeRound ++ wrapped) := by
  intro h
  have hp := h.parent 2
  rw [run_comeRound] at hp
  exact absurd hp (by decide +kernel)
end Broker

end LimitlessOS.Capability
