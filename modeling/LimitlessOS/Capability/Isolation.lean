/-
  LimitlessOS.Capability.Isolation — what a call of one principal changes for the others.

  All principals share one table, and lookups clear records on the way. A call made by `p`
  adds a record to another principal only by delegating one of `p`'s records to it, and
  takes a record from another principal only if that was delegated from a record of `p`,
  or has expired, or has a stale runtime. What others can route changes accordingly.

  Proved, for runs that stop issuing handles when the counter has come round to 0:
  - `Sound.kept`, `added_by_caller`: the slots of the other principals.
  - `isolated_of_run`: with what they can route.

  `isolated_fails`: the owner of handle 0 takes away everybody's granted records.
-/
import LimitlessOS.Capability.Lifetime

namespace LimitlessOS.Capability.Broker

open Lib HandleTable

/-- The principal on whose behalf a call is made. -/
def caller (b : Broker) : Op → Option UInt32
  | .grantService _ _ owner => some (normalizeOwner owner)
  | .grantServiceForProcess _ _ pid => some (b.personas.principal pid)
  | .delegate _ _ context | .delegatePersistent _ _ context => some (contextCaller context)
  | .route _ _ c | .targetEndpoint _ c | .rights _ c | .parent _ c | .owner _ c | .expiryTick _ c
  | .runtimeGeneration _ c | .runtimeToken _ c | .personaTag _ c | .personaMask _ c | .revoke _ c =>
    some (normalizeOwner c)
  | _ => none

/-- The record in slot `i` was delegated from a record of `p`. -/
def DelegatedFrom (b : Broker) (p : UInt32) (i : Fin tableLimit) : Prop :=
  (b.caps.slots i).parentHandle ≠ 0 ∧
    ∃ j, (b.caps.slots j).active = true ∧ (b.caps.slots j).ownerId = p ∧
      (b.caps.slots j).handle = (b.caps.slots i).parentHandle

/-- The record in slot `i` is one the call delegated from a record of `p`. -/
def DelegatedNow (b : Broker) (op : Op) (p : UInt32) (i : Fin tableLimit) : Prop :=
  (b.caps.slots i).active = false ∧
    ∃ j, (b.caps.slots j).active = true ∧ (b.caps.slots j).ownerId = p ∧
      Delegates b op (b.caps.slots j) ((b.step op).caps.slots i)

/-- What the call of `p` leaves of the records of the others, and of what they can route. -/
structure Isolated (b : Broker) (op : Op) (p : UInt32) : Prop where
  kept : ∀ i, (b.caps.slots i).active = true → (b.caps.slots i).ownerId ≠ p →
    (b.step op).caps.slots i = b.caps.slots i ∨
      ((b.step op).caps.slots i).active = false ∧
        ((b.caps.slots i).expired b.tick = true ∨ (b.caps.slots i).current b.launch = false ∨ DelegatedFrom b p i)
  added : ∀ i, ((b.step op).caps.slots i).active = true → ((b.step op).caps.slots i).ownerId ≠ p →
    (b.step op).caps.slots i = b.caps.slots i ∨ DelegatedNow b op p i
  routes : ∀ q handle rights, normalizeOwner q ≠ p →
    ((b.step op).route handle rights q).1 = (b.route handle rights q).1 ∨
      (∃ i, DelegatedNow b op p i ∧ ((b.step op).caps.slots i).handle = handle ∧
        ((b.step op).caps.slots i).ownerId = normalizeOwner q) ∨
      ∃ i, (b.caps.slots i).active = true ∧ (b.caps.slots i).handle = handle ∧
        (b.caps.slots i).ownerId = normalizeOwner q ∧ ((b.step op).caps.slots i).active = false ∧ DelegatedFrom b p i

/-- A call made on behalf of a principal changes nothing but the table, and drains no endpoint. -/
theorem step_of_caller {b : Broker} {op : Op} {p : UInt32} (hp : b.caller op = some p) :
    b.step op = { b with caps := (b.step op).caps } ∧ ∀ e, ¬ Drained b op e := by
  constructor
  · have h := step_spec b op
    generalize b.step op = b' at h ⊢
    cases h with
    | table h => rfl
    | ticks n hop => simp [hop, caller] at hp
    | personas f hop => simp [hop, caller] at hp
    | bound f hop => simp [hop, caller] at hp
    | requested i r hop h => rcases hop with hop | hop | ⟨ok, hop⟩ <;> simp [hop, caller] at hp
  · cases op <;> simp_all [caller, Drained]

namespace Sound

variable {b : Broker} {op : Op} {p : UInt32}

theorem kept (h : Sound b) (hp : b.caller op = some p) {i : Fin tableLimit} (hi : (b.caps.slots i).active)
    (ho : (b.caps.slots i).ownerId ≠ p) :
    (b.step op).caps.slots i = b.caps.slots i ∨
      ((b.step op).caps.slots i).active = false ∧
        ((b.caps.slots i).expired b.tick ∨ (b.caps.slots i).current b.launch = false ∨ DelegatedFrom b p i) := by
  obtain ⟨-, hundrained⟩ := step_of_caller hp
  have he := step_effect b op
  generalize (b.step op).caps = caps at he ⊢
  cases he with
  | swept drained hd hs hc =>
    rcases hs.slots i with heq | ⟨-, heq, hg⟩
    · exact .inl heq
    refine .inr ⟨by rw [heq]; rfl, ?_⟩
    cases hg with
    | expired hx => exact .inl hx
    | stale hs => exact .inr (.inl hs)
    | drained hd' | child j hj hd' _ => exact absurd (hd _ hd') (hundrained _)
  | granted k r hk hr | delegated k j r hk hj hr =>
    have hne : i ≠ k := by
      rintro rfl
      exact absurd hi (by simp [show (b.caps.slots i).active = false from free_some hk])
    exact .inl (by rw [issue_slots, if_neg hne])
  | revoked k handle c hop hk hu howner =>
    obtain ⟨hka, hkh⟩ := find_active hk
    have hpk : (b.caps.slots k).ownerId = p := by
      rw [howner]
      simpa [hop, caller] using hp
    have hik : i ≠ k := fun hik => ho (hik ▸ hpk)
    by_cases hparent : (b.caps.slots i).parentHandle = handle
    · refine .inr ⟨?_, .inr (.inr ⟨?_, k, hka, hpk, hkh.trans hparent.symm⟩)⟩
      · simp [HandleTable.revoke, HandleTable.dropIf_slots, HandleTable.drop_slots, hik, Handled.active, Handled.parent,
          hi, hparent, Handled.clear, Record.clear]
      · rw [hparent, ← hkh]
        exact h.handle_ne_zero hka
    · simp [HandleTable.revoke, HandleTable.dropIf_slots, HandleTable.drop_slots, hik, Handled.parent, hparent]

end Sound

variable {b : Broker} {op : Op} {p rights q : UInt32} {i : Fin tableLimit}

/-- A call adds records only to the caller, and to those the caller delegates to. -/
theorem added_by_caller (hp : b.caller op = some p) (hi : ((b.step op).caps.slots i).active)
    (ho : ((b.step op).caps.slots i).ownerId ≠ p) :
    (b.step op).caps.slots i = b.caps.slots i ∨ DelegatedNow b op p i := by
  have he := step_effect b op
  unfold DelegatedNow
  generalize (b.step op).caps = caps at he hi ho ⊢
  cases he with
  | swept drained hd hs hc => exact .inl (hs.active hi)
  | granted k r hk hr =>
    rw [issue_slots] at hi ho ⊢
    split
    · rename_i hik
      rw [if_pos hik] at ho
      obtain ⟨_, -, ⟨_, hop, howner⟩ | ⟨_, hop, howner⟩⟩ := hr.call <;> subst hop <;>
        exact absurd (howner.trans (by simpa [caller] using hp)) ho
    · exact .inl rfl
  | delegated k j r hk hj hr =>
    rw [issue_slots] at hi ho ⊢
    split
    · rename_i hik
      subst hik
      refine .inr ⟨free_some hk, j, hj, ?_, hr⟩
      obtain ⟨_, _, howner, -, ⟨hop, -⟩ | ⟨hop, -⟩⟩ := hr.call <;>
        exact howner.trans (by simpa [hop, caller] using hp)
    · exact .inl rfl
  | revoked k handle c hop hk hu howner => exact .inl ((Shrinks.revoke b.caps k handle).kept hi)

/-! ## What the others can route -/

theorem Sound.route_of_usable (h : Sound b) (hi : (b.caps.slots i).active) (hu : Usable b (b.caps.slots i) rights q) :
    (b.route (b.caps.slots i).handle rights q).1 = (b.caps.slots i).endpointId := by
  have hf : b.caps.find (b.caps.slots i).handle = some i := h.numbered.find_handle hi
  simp [route_result, hf, hu]

theorem route_of_unusable {handle rights q : UInt32}
    (h : ∀ i, (b.caps.slots i).active → (b.caps.slots i).handle = handle → ¬ Usable b (b.caps.slots i) rights q) :
    (b.route handle rights q).1 = invalidResult := by
  rw [route_result]
  rcases hf : b.caps.find handle with _ | i
  · rfl
  obtain ⟨hi, hh⟩ := find_active hf
  exact if_neg (h i hi hh)

/-- A call leaves the tick, the launch records and with them what a record is good for. -/
theorem usable_step (hp : b.caller op = some p) {r : Record} :
    Usable (b.step op) r rights q ↔ Usable b r rights q := by
  rw [(step_of_caller hp).1]
  constructor <;> exact fun h => ⟨h.unexpired, h.principal, h.rights, h.owner, h.current⟩

theorem Sound.isolated (h : Sound b) (hf : Fresh b op) (hp : b.caller op = some p) : Isolated b op p := by
  refine ⟨fun i hi ho => h.kept hp hi ho, fun i hi ho => added_by_caller hp hi ho, fun q handle rights hq => ?_⟩
  by_cases hbefore : ∃ i, (b.caps.slots i).active ∧ (b.caps.slots i).handle = handle ∧
      Usable b (b.caps.slots i) rights q
  · obtain ⟨i, hi, hh, hu⟩ := hbefore
    rcases h.kept hp hi (by rwa [hu.owner]) with heq | ⟨hoff, hx | hs | hd⟩
    · have hafter := (h.step hf).route_of_usable (by rwa [heq]) ((usable_step hp).2 (by rwa [heq]))
      rw [heq, hh] at hafter
      rw [hafter, ← hh, h.route_of_usable hi hu]
      exact .inl rfl
    · exact absurd hx (by simp [hu.unexpired])
    · exact absurd hs (by simp [hu.current])
    · exact .inr (.inr ⟨i, hi, hh, hu.owner, hoff, hd⟩)
  · rw [route_of_unusable fun i hi hh hu => hbefore ⟨i, hi, hh, hu⟩]
    by_cases hafter : ∃ j, ((b.step op).caps.slots j).active ∧ ((b.step op).caps.slots j).handle = handle ∧
        Usable b ((b.step op).caps.slots j) rights q
    · obtain ⟨j, hj, hh, hu⟩ := hafter
      rcases added_by_caller hp hj (by rwa [hu.owner]) with heq | hd
      · rw [heq] at hj hh hu
        exact absurd ⟨j, hj, hh, hu⟩ hbefore
      · exact .inr (.inl ⟨j, hd, hh, hu.owner⟩)
    · exact .inl (route_of_unusable fun j hj hh hu => hafter ⟨j, hj, hh, (usable_step hp).1 hu⟩)

/-- In every run that stops issuing handles when the counter has come round to 0, a call
    of `p` leaves the other principals what is theirs. -/
theorem isolated_of_run {catalog : List Manifest} {tick : UInt32} {personas : Personas} {ops : List Op} {op : Op}
    (h : Meets step Fresh (boot catalog tick personas) (ops ++ [op])) :
    ∀ p, ((boot catalog tick personas).run ops).caller op = some p →
      Isolated ((boot catalog tick personas).run ops) op p := by
  intro p hp
  obtain ⟨hops, hop, -⟩ := Meets.append.1 h
  exact (sound_of_run catalog tick personas hops).isolated hop hp

theorem isolated_delegation :
    let ops := [.grantService 3 (rightSend ||| rightDelegate) 0x101, .grantService 1 rightSend 0x102]
    (idle.run ops).caller (.delegate 0x6400 rightSend 0x01010102) = some 0x101 ∧
      Isolated (idle.run ops) (.delegate 0x6400 rightSend 0x01010102) 0x101 :=
  ⟨by decide +kernel, isolated_of_run (by decide +kernel) 0x101 (by decide +kernel)⟩

/-- The system gets handle 0 and a client handle 1, neither delegated from the other. -/
def roundGrants : List Op := [.grantService 3 rightSend principalSystem, .grantService 3 rightSend 0x101]

theorem isolated_fails : ¬ Isolated (idle.run (comeRound ++ roundGrants)) (.revoke 0 principalSystem) principalSystem := by
  intro h
  rw [run_comeRound] at h
  have hon : (((({ idle with caps := visited 0xFFFFFFFF } : Broker).run roundGrants).step
      (.revoke 0 principalSystem)).caps.slots 1).active = false := by decide +kernel
  rcases h.kept 1 (by decide +kernel) (by decide +kernel) with heq | ⟨-, hx | hs | hd⟩
  · rw [heq] at hon
    exact absurd hon (by decide +kernel)
  · exact absurd hx (by decide +kernel)
  · exact absurd hs (by decide +kernel)
  · exact absurd hd.1 (by decide +kernel)

end LimitlessOS.Capability.Broker
