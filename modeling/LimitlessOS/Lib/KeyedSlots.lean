/-
  LimitlessOS.Lib.KeyedSlots — fixed tables of optional records that are found by a key.

  A table has a fixed number of slots, each empty or with a record. A record is looked up by
  scanning for its key, put into a free slot, changed or removed in the slot it is found in.
  As long as the keys are distinct the table is a partial map from keys to records.

  Proved:
  - `get_eq_some`, `get_eq_none`: what a lookup finds.
  - `get_put`, `get_modify`, `get_map`, `get_erase`: the lookup after each operation.
  - `Distinct.put`, `Distinct.modify`, `Distinct.map`, `Distinct.erase`: the keys stay distinct.
-/
import LimitlessOS.Lib.HandleTable

namespace LimitlessOS.Lib.Keyed

open Function Option

variable {n : Nat} {ρ κ : Type} [DecidableEq κ] (key : ρ → κ)

/-- The first slot whose record has the key. -/
def slot (t : Fin n → Option ρ) (k : κ) : Option (Fin n) := Slots.first t fun r => r.any fun r => key r = k

/-- The record with the key. -/
def get (t : Fin n → Option ρ) (k : κ) : Option ρ := (slot key t k).bind t

/-- The first empty slot. -/
def free (t : Fin n → Option ρ) : Option (Fin n) := Slots.first t Option.isNone

def put (t : Fin n → Option ρ) (i : Fin n) (r : ρ) : Fin n → Option ρ := update t i (some r)

def modify (t : Fin n → Option ρ) (k : κ) (f : ρ → ρ) : Fin n → Option ρ :=
  match slot key t k with
  | none => t
  | some i => update t i ((t i).map f)

def erase (t : Fin n → Option ρ) (k : κ) : Fin n → Option ρ :=
  match slot key t k with
  | none => t
  | some i => update t i none

/-- No two records have the same key. -/
def Distinct (t : Fin n → Option ρ) : Prop :=
  ∀ i j r s, t i = some r → t j = some s → key r = key s → i = j

variable {key} {t : Fin n → Option ρ} {k : κ}

variable {r : ρ} {i j : Fin n} {f : ρ → ρ} {u : Fin n → Option ρ}

theorem slot_some (h : slot key t k = some i) : ∃ r, t i = some r ∧ key r = k := by
  have := Slots.first_some h
  cases ht : t i with
  | none => simp [ht] at this
  | some r => exact ⟨r, rfl, by simpa [ht] using this⟩

theorem slot_none : slot key t k = none ↔ ∀ i r, t i = some r → key r ≠ k := by
  unfold slot
  rw [Slots.first_none]
  constructor
  · intro h i r ht
    have := h i
    rw [ht] at this
    simpa using this
  · intro h i
    cases ht : t i with
    | none => rfl
    | some r => simpa using h i r ht

theorem slot_ne (ht : t i = some r) (hk : key r ≠ k) : slot key t k ≠ some i := by
  intro hslot
  obtain ⟨s, hs, hks⟩ := slot_some hslot
  obtain rfl := mem_unique ht hs
  exact hk hks

theorem slot_eq (hd : Distinct key t) (ht : t i = some r) : slot key t (key r) = some i := by
  apply Slots.first_of_unique
  · simp [ht]
  · intro j hj
    cases hs : t j with
    | none => simp [hs] at hj
    | some s => exact hd j i s r hs ht (by simpa [hs] using hj)

theorem free_some (h : free t = some i) : t i = none := by
  simpa using Slots.first_some h

theorem of_put {s : ρ} (h : put t i r j = some s) : j = i ∧ s = r ∨ t j = some s := by
  by_cases hji : j = i
  · subst hji
    rw [put, update_self] at h
    exact .inl ⟨rfl, (some.inj h).symm⟩
  · rw [put, update_of_ne hji] at h
    exact .inr h

theorem exists_of_get (h : get key t k = some r) : ∃ i, t i = some r ∧ key r = k := by
  obtain ⟨i, hi, ht⟩ := bind_eq_some_iff.1 h
  obtain ⟨s, hs, hk⟩ := slot_some hi
  obtain rfl : r = s := mem_unique ht hs
  exact ⟨i, ht, hk⟩

theorem key_of_get (h : get key t k = some r) : key r = k := by
  obtain ⟨-, -, hk⟩ := exists_of_get h
  exact hk

theorem get_of_slot (hd : Distinct key t) (ht : t i = some r) : get key t (key r) = some r := by
  rw [get, slot_eq hd ht, bind_some, ht]

theorem get_eq_some (hd : Distinct key t) : get key t k = some r ↔ ∃ i, t i = some r ∧ key r = k := by
  constructor
  · exact exists_of_get
  · rintro ⟨i, ht, rfl⟩
    exact get_of_slot hd ht

theorem get_eq_none : get key t k = none ↔ ∀ i r, t i = some r → key r ≠ k := by
  rw [← slot_none, get, bind_eq_none_iff]
  constructor
  · intro h
    rcases hs : slot key t k with _ | i
    · rfl
    obtain ⟨r, hr, -⟩ := slot_some hs
    simp [h i hs] at hr
  · intro h i hi
    simp [h] at hi

/-- Tables that agree on their records agree on every lookup. -/
theorem get_ext (hd : Distinct key t) (hu : Distinct key u)
    (h : ∀ r, (∃ i, u i = some r ∧ key r = k) ↔ ∃ i, t i = some r ∧ key r = k) : get key u k = get key t k := by
  ext r
  rw [get_eq_some hu, get_eq_some hd, h]

/-! ## A new record -/

theorem Distinct.put (hd : Distinct key t) (hnew : get key t (key r) = none) : Distinct key (put t i r) := by
  have hother : ∀ j s, t j = some s → key s ≠ key r := get_eq_none.1 hnew
  intro a b x y hx hy hxy
  rcases of_put hx with ⟨rfl, rfl⟩ | hold <;> rcases of_put hy with ⟨rfl, rfl⟩ | hold'
  · rfl
  · exact absurd hxy.symm (hother b y hold')
  · exact absurd hxy (hother a x hold)
  · exact hd a b x y hold hold' hxy

/-- A record with the key has been put into the table, or nothing has. -/
theorem of_entered (h : u = t ∨ ∃ i r, key r = k ∧ u = put t i r) :
    (∀ j s, u j = some s → key s ≠ k → t j = some s) ∧ (get key t k = none → Distinct key t → Distinct key u) := by
  rcases h with rfl | ⟨i, r, rfl, rfl⟩
  · exact ⟨fun _ _ hs _ => hs, fun _ hd => hd⟩
  refine ⟨fun j s hs hne => ?_, fun hnew hd => hd.put hnew⟩
  rcases of_put hs with ⟨-, rfl⟩ | hs
  · exact absurd rfl hne
  · exact hs

theorem get_put (hd : Distinct key t) (hi : t i = none) (hnew : get key t (key r) = none) :
    get key (put t i r) k = if k = key r then some r else get key t k := by
  have hput : put t i r i = some r := update_self ..
  split_ifs with hk
  · rw [hk]
    exact get_of_slot (hd.put hnew) hput
  apply get_ext hd (hd.put hnew)
  intro s
  constructor
  · rintro ⟨j, hj, hks⟩
    rcases of_put hj with ⟨-, rfl⟩ | hj
    · exact absurd hks.symm hk
    · exact ⟨j, hj, hks⟩
  · intro h
    obtain ⟨j, hj, hks⟩ := h
    have hji : j ≠ i := by
      intro hji
      simp [hji, hi] at hj
    exact ⟨j, by rw [Keyed.put, update_of_ne hji, hj], hks⟩

/-! ## A changed record -/

theorem modify_apply (j : Fin n) (f : ρ → ρ) :
    modify key t k f j = if slot key t k = some j then (t j).map f else t j := by
  unfold modify
  rcases hs : slot key t k with _ | i
  · simp
  by_cases hj : j = i
  · subst hj
    simp
  · simp only [update_of_ne hj, some.injEq, Ne.symm hj, if_false]

theorem erase_apply (j : Fin n) : erase key t k j = if slot key t k = some j then none else t j := by
  unfold erase
  rcases hs : slot key t k with _ | i
  · simp
  by_cases hj : j = i
  · subst hj
    simp
  · simp only [update_of_ne hj, some.injEq, Ne.symm hj, if_false]

theorem exists_of_modify (hf : ∀ r, key (f r) = key r) (h : modify key t k f j = some r) :
    ∃ s, t j = some s ∧ key s = key r := by
  rw [modify_apply] at h
  split_ifs at h with hs
  · obtain ⟨s, hts, rfl⟩ := map_eq_some_iff.1 h
    exact ⟨s, hts, (hf s).symm⟩
  · exact ⟨r, h, rfl⟩

theorem Distinct.modify (hd : Distinct key t) (hf : ∀ r, key (f r) = key r) : Distinct key (modify key t k f) := by
  intro a b x y hx hy hxy
  obtain ⟨x', hx', hkx⟩ := exists_of_modify hf hx
  obtain ⟨y', hy', hky⟩ := exists_of_modify hf hy
  exact hd a b x' y' hx' hy' (hkx.trans (hxy.trans hky.symm))

theorem get_modify (hd : Distinct key t) (hf : ∀ r, key (f r) = key r) (k' : κ) :
    get key (modify key t k f) k' = if k' = k then (get key t k).map f else get key t k' := by
  ext r
  rw [get_eq_some (hd.modify hf)]
  by_cases hk : k' = k
  · subst hk
    rw [if_pos rfl, map_eq_some_iff]
    constructor
    · rintro ⟨j, hj, rfl⟩
      obtain ⟨s, hs, hks⟩ := exists_of_modify hf hj
      rw [modify_apply, ← hks, slot_eq hd hs, if_pos rfl, hs] at hj
      exact ⟨s, by rw [← hks, get_of_slot hd hs], some.inj hj⟩
    · rintro ⟨s, hs, rfl⟩
      obtain ⟨j, hj, rfl⟩ := exists_of_get hs
      exact ⟨j, by rw [modify_apply, slot_eq hd hj, if_pos rfl, hj]; rfl, hf s⟩
  · rw [if_neg hk, get_eq_some hd]
    constructor
    · intro h
      obtain ⟨j, hj, rfl⟩ := h
      obtain ⟨s, hs, hks⟩ := exists_of_modify hf hj
      rw [modify_apply, if_neg (slot_ne hs (hks.trans_ne hk))] at hj
      exact ⟨j, hj, rfl⟩
    · intro h
      obtain ⟨j, hj, rfl⟩ := h
      exact ⟨j, by rw [modify_apply, if_neg (slot_ne hj hk), hj], rfl⟩

/-! ## Every record changed -/

variable {f : ρ → ρ}

omit [DecidableEq κ] in
theorem Distinct.map (hd : Distinct key t) (hf : ∀ r, key (f r) = key r) : Distinct key fun i => (t i).map f := by
  intro i j r s hr hs hkey
  obtain ⟨r', hr', rfl⟩ := map_eq_some_iff.1 hr
  obtain ⟨s', hs', rfl⟩ := map_eq_some_iff.1 hs
  exact hd i j r' s' hr' hs' (by rwa [hf, hf] at hkey)

theorem get_map (hd : Distinct key t) (hf : ∀ r, key (f r) = key r) (k : κ) :
    get key (fun i => (t i).map f) k = (get key t k).map f := by
  ext r
  rw [get_eq_some (hd.map hf), map_eq_some_iff]
  constructor
  · rintro ⟨i, hi, hk⟩
    obtain ⟨s, hs, rfl⟩ := map_eq_some_iff.1 hi
    exact ⟨s, (get_eq_some hd).2 ⟨i, hs, by rwa [hf] at hk⟩, rfl⟩
  · rintro ⟨s, hs, rfl⟩
    obtain ⟨i, hi, hk⟩ := exists_of_get hs
    exact ⟨i, by rw [hi]; rfl, by rw [hf, hk]⟩

/-! ## A removed record -/

theorem erase_some (h : erase key t k j = some r) : t j = some r := by
  rw [erase_apply] at h
  split_ifs at h with hs
  exact h

theorem Distinct.erase (hd : Distinct key t) : Distinct key (erase key t k) := by
  intro a b x y hx hy hxy
  exact hd a b x y (erase_some hx) (erase_some hy) hxy

theorem get_erase (hd : Distinct key t) (k' : κ) : get key (erase key t k) k' = if k' = k then none else get key t k' := by
  split_ifs with hk
  · rw [get_eq_none]
    intro j r hj hkr
    have hjr := erase_some hj
    have hslot := slot_eq hd hjr
    rw [erase_apply, ← hk, ← hkr, hslot, if_pos rfl] at hj
    cases hj
  · apply get_ext hd hd.erase
    intro r
    constructor
    · rintro ⟨j, hj, hkr⟩
      exact ⟨j, erase_some hj, hkr⟩
    intro h
    obtain ⟨j, hj, rfl⟩ := h
    exact ⟨j, by rw [erase_apply, if_neg (slot_ne hj hk), hj], rfl⟩

end LimitlessOS.Lib.Keyed
