/-
  LimitlessOS.Lib.HandleTable — fixed tables of records named by handles from a counter.

  A table has a fixed number of slots and a 32 bit counter. A new record takes the first
  free slot and the counter's value as its handle; a record leaves by being cleared in its
  slot. A handle is looked up by scanning the slots for an active record that carries it.

  Proved:
  - `Numbered.issue`, `Numbered.shrinks`: until the counter comes round to 0, the active
    records have different handles, all of them below the counter.
  - `Numbered.find_handle`: then a lookup finds the one record that carries the handle.
  - `Later.issue`, `Later.shrinks`, `Later.trans`: an active record whose handle is older
    than an earlier table was in that table, in the same slot.
-/
import Mathlib.Algebra.Group.Nat.Defs
import Mathlib.Data.Fintype.Card
import Mathlib.Data.List.FinRange
import Mathlib.Logic.Function.Basic

namespace LimitlessOS.Lib

open Finset Function
open List hiding filter mem_filter

/-! ## Slots -/

namespace Slots

variable {n : Nat} {α : Type}

/-- The first slot with the property, in index order. -/
def first (t : Fin n → α) (p : α → Bool) : Option (Fin n) := (List.finRange n).find? fun i => p (t i)

variable {i : Fin n} {p : α → Bool} {t u : Fin n → α}

theorem first_some_iff : first t p = some i ↔ p (t i) ∧ ∀ j < i, p (t j) = false := by
  rw [first, ← Fin.find?_eq_find?_finRange]
  exact Fin.find?_eq_some_iff

theorem first_some (h : first t p = some i) : p (t i) := (first_some_iff.1 h).1

theorem first_none : first t p = none ↔ ∀ i, p (t i) = false := by
  simp [first, find?_eq_none]

theorem first_of_unique (hi : p (t i)) (h : ∀ j, p (t j) → j = i) : first t p = some i := by
  cases hf : first t p with
  | none => rw [first_none] at hf; simp [hf i] at hi
  | some j => rw [h j (first_some hf)]

theorem first_zero {t : Fin (n + 1) → α} (h : p (t 0)) : first t p = some 0 := by
  simp [first, finRange_succ, h]

/-- How many slots have the property. -/
def count (t : Fin n → α) (p : α → Bool) : Nat := (List.finRange n).countP fun i => p (t i)

theorem count_eq_card (t : Fin n → α) (p : α → Bool) : count t p = (univ.filter fun i => p (t i)).card := by
  rw [count, countP_eq_length_filter, card, filter, Fin.univ_def]
  simp

theorem count_le (t : Fin n → α) (p : α → Bool) : count t p ≤ n := by
  simpa [count] using countP_le_length (l := finRange n) (p := fun i => p (t i))

theorem count_mono {q : α → Bool} (h : ∀ i, p (t i) → q (u i)) : count t p ≤ count u q :=
  countP_mono_left fun i _ => h i

theorem count_pos (h : p (t i)) : 0 < count t p :=
  countP_pos_iff.2 ⟨i, mem_finRange i, h⟩

theorem count_eq_zero : count t p = 0 ↔ ∀ i, p (t i) = false := by
  simp [count, countP_eq_zero]

theorem eq_of_count_le_one (h : count t p ≤ 1) {j : Fin n} (hi : p (t i)) (hj : p (t j)) : i = j := by
  rw [count_eq_card] at h
  exact card_le_one.1 h i (by simp [hi]) j (by simp [hj])

theorem exists_ne_of_one_lt_count (h : 1 < count t p) (i : Fin n) : ∃ j, j ≠ i ∧ p (t j) := by
  rw [count_eq_card] at h
  obtain ⟨j, hj, hne⟩ := exists_mem_ne h i
  exact ⟨j, hne, by simpa using hj⟩

/-- A slot that is written is counted as what it holds now, and no longer as what it held. -/
theorem count_update (t : Fin n → α) (p : α → Bool) (i : Fin n) (x : α) :
    count (update t i x) p + (p (t i)).toNat = count t p + (p x).toNat := by
  have hperm := perm_cons_erase (mem_finRange i)
  have hrest : ((finRange n).erase i).countP (fun j => p (update t i x j)) =
      ((finRange n).erase i).countP fun j => p (t j) := by
    refine countP_congr fun j hj => ?_
    rw [update_of_ne ((nodup_finRange n).mem_erase_iff.1 hj).1]
  rw [count, count, hperm.countP_eq, hperm.countP_eq, countP_cons, countP_cons, hrest, update_self]
  cases p (t i) <;> cases p x <;> simp

/-- If slots only lose the property, among them `i`, one of them loses it when no other does. -/
theorem count_succ_iff (h : ∀ j, p (u j) → p (t j)) (hi : p (t i)) (hgone : p (u i) = false) :
    count u p + 1 = count t p ↔ ∀ j, j ≠ i → p (t j) → p (u j) := by
  rw [count_eq_card, count_eq_card]
  have hmem : i ∈ univ.filter fun j => p (t j) := by simp [hi]
  have hsub : (univ.filter fun j => p (u j)) ⊆ (univ.filter fun j => p (t j)).erase i := by
    intro j hj
    simp only [mem_filter, mem_univ, true_and, mem_erase] at hj ⊢
    exact ⟨fun hji => by simp [← hji, hj] at hgone, h j hj⟩
  rw [← card_erase_add_one hmem, Nat.add_right_cancel_iff]
  constructor
  · intro hcard j hji hj
    have hset := eq_of_subset_of_card_le hsub hcard.ge
    have hin : j ∈ (univ.filter fun j => p (t j)).erase i := by simp [hji, hj]
    rw [← hset] at hin
    simpa using hin
  · intro hall
    congr 1
    refine Subset.antisymm hsub fun j hj => ?_
    simp only [mem_filter, mem_univ, true_and, mem_erase] at hj ⊢
    exact hall j hj.1 hj.2

end Slots

/-! ## Tables -/

/-- What a table has to know of its records. -/
class Handled (ρ : Type) where
  active : ρ → Bool
  handle : ρ → UInt32
  parent : ρ → UInt32
  clear : ρ → ρ
  active_clear : ∀ r, active (clear r) = false

attribute [simp] Handled.active_clear

@[ext] structure HandleTable (n : Nat) (ρ : Type) where
  slots : Fin n → ρ
  next : UInt32

namespace HandleTable

open Function Handled

variable {n : Nat} {ρ : Type}

/-- Write the record that `make` builds from the counter, and advance the counter. -/
def issue (t : HandleTable n ρ) (i : Fin n) (make : UInt32 → ρ) : HandleTable n ρ :=
  { slots := update t.slots i (make t.next), next := t.next + 1 }

/-- The handles given out so far are below this, unless the counter has come round. -/
def limit (t : HandleTable n ρ) : Nat := if t.next = 0 then 2 ^ 32 else t.next.toNat

theorem issue_slots (t : HandleTable n ρ) (i j : Fin n) (make : UInt32 → ρ) :
    (t.issue i make).slots j = if j = i then make t.next else t.slots j := by
  simp [issue, update_apply]

variable {t : HandleTable n ρ}

theorem limit_of_ne (h : t.next ≠ 0) : t.limit = t.next.toNat := if_neg h

theorem limit_issue (t : HandleTable n ρ) (i : Fin n) (make : UInt32 → ρ) :
    (t.issue i make).limit = t.next.toNat + 1 := by
  have hlt := t.next.toNat_lt
  have hsum : (t.next + 1).toNat = (t.next.toNat + 1) % 2 ^ 32 := by simp
  have hnext : (t.issue i make).next = t.next + 1 := rfl
  unfold limit
  rw [hnext]
  split_ifs with h0
  · rw [h0] at hsum
    simp only [UInt32.toNat_zero] at hsum
    omega
  · have : (t.next + 1).toNat ≠ 0 := fun hz => h0 (UInt32.toNat_inj.1 (by simpa using hz))
    omega

variable [Handled ρ] {i : Fin n}

/-- The first active record that carries the handle. -/
def find (t : HandleTable n ρ) (h : UInt32) : Option (Fin n) := Slots.first t.slots fun r => active r && handle r == h

/-- The first slot without an active record. -/
def free (t : HandleTable n ρ) : Option (Fin n) := Slots.first t.slots fun r => !active r

def drop (t : HandleTable n ρ) (i : Fin n) : HandleTable n ρ :=
  { t with slots := update t.slots i (clear (t.slots i)) }

/-- Clear every active record with the property. -/
def dropIf (t : HandleTable n ρ) (p : ρ → Bool) : HandleTable n ρ :=
  { t with slots := fun i => if active (t.slots i) && p (t.slots i) then clear (t.slots i) else t.slots i }

/-- Clear the record and every active record that names `h` as its parent. -/
def revoke (t : HandleTable n ρ) (i : Fin n) (h : UInt32) : HandleTable n ρ :=
  (t.drop i).dropIf fun r => parent r == h

/-- How many records are active. -/
def liveCount (t : HandleTable n ρ) : Nat := Slots.count t.slots active

theorem find_some {h : UInt32} (hf : t.find h = some i) : active (t.slots i) ∧ handle (t.slots i) = h := by
  simpa using Slots.first_some hf

theorem free_some (hf : t.free = some i) : active (t.slots i) = false := by
  simpa using Slots.first_some hf

@[simp] theorem drop_next (t : HandleTable n ρ) (i : Fin n) : (t.drop i).next = t.next := rfl

@[simp] theorem dropIf_next (t : HandleTable n ρ) (p : ρ → Bool) : (t.dropIf p).next = t.next := rfl

theorem drop_slots (t : HandleTable n ρ) (i j : Fin n) :
    (t.drop i).slots j = if j = i then clear (t.slots i) else t.slots j := by
  simp [drop, update_apply]

theorem dropIf_slots (t : HandleTable n ρ) (p : ρ → Bool) (j : Fin n) :
    (t.dropIf p).slots j =
      if active (t.slots j) ∧ p (t.slots j) then clear (t.slots j) else t.slots j := by
  simp [dropIf]

theorem revoke_active (t : HandleTable n ρ) (i : Fin n) (h : UInt32) (j : Fin n) :
    active ((t.revoke i h).slots j) ↔ active (t.slots j) ∧ j ≠ i ∧ parent (t.slots j) ≠ h := by
  rw [revoke, dropIf_slots, drop_slots]
  by_cases hji : j = i
  · simp [hji]
  · by_cases hp : parent (t.slots j) = h <;> cases ha : active (t.slots j) <;> simp [hji, hp, ha]

/-! ## Records only leave -/

/-- No record is added: every slot is as it was or has been emptied. -/
structure Shrinks (t t' : HandleTable n ρ) : Prop where
  next : t'.next = t.next
  slots : ∀ i, t'.slots i = t.slots i ∨ active (t'.slots i) = false

namespace Shrinks

theorem refl (t : HandleTable n ρ) : Shrinks t t := ⟨rfl, fun _ => .inl rfl⟩

theorem trans {a b c : HandleTable n ρ} (hab : Shrinks a b) (hbc : Shrinks b c) : Shrinks a c := by
  refine ⟨hbc.next.trans hab.next, fun i => ?_⟩
  rcases hbc.slots i with h | h
  · rcases hab.slots i with h' | h'
    · exact .inl (h.trans h')
    · exact .inr (h ▸ h')
  · exact .inr h

theorem kept {t t' : HandleTable n ρ} (h : Shrinks t t') {i : Fin n} (hi : active (t'.slots i)) :
    t'.slots i = t.slots i := by
  rcases h.slots i with h | h
  · exact h
  · simp [h] at hi

theorem drop (t : HandleTable n ρ) (i : Fin n) : Shrinks t (t.drop i) := by
  refine ⟨rfl, fun j => ?_⟩
  rw [drop_slots]
  split <;> simp

theorem dropIf (t : HandleTable n ρ) (p : ρ → Bool) : Shrinks t (t.dropIf p) := by
  refine ⟨rfl, fun j => ?_⟩
  rw [dropIf_slots]
  split <;> simp

theorem revoke (t : HandleTable n ρ) (i : Fin n) (h : UInt32) : Shrinks t (t.revoke i h) :=
  (drop t i).trans (dropIf _ _)

end Shrinks

/-! ## Handles below the counter -/

/-- The active records have different handles, given out between `base` and the counter. -/
structure Numbered (base : Nat) (t : HandleTable n ρ) : Prop where
  low : ∀ i, active (t.slots i) = true → base ≤ (handle (t.slots i)).toNat
  high : ∀ i, active (t.slots i) = true → (handle (t.slots i)).toNat < t.limit
  distinct : ∀ i j, active (t.slots i) = true → active (t.slots j) = true →
    handle (t.slots i) = handle (t.slots j) → i = j
  from_base : base ≤ t.limit

namespace Numbered

variable {base : Nat} {t t' : HandleTable n ρ} {i : Fin n}

theorem find_handle (h : Numbered base t) (hi : active (t.slots i)) :
    t.find (handle (t.slots i)) = some i := by
  apply Slots.first_of_unique
  · simp [hi]
  · intro j hj
    simp only [Bool.and_eq_true, beq_iff_eq] at hj
    exact h.distinct j i hj.1 hi hj.2

theorem shrinks (h : Numbered base t) (hs : Shrinks t t') : Numbered base t' := by
  have hlimit : t'.limit = t.limit := by unfold limit; rw [hs.next]
  refine ⟨fun i hi => ?_, fun i hi => ?_, fun i j hi hj he => ?_, hlimit ▸ h.from_base⟩
  · have hk := hs.kept hi
    rw [hk] at hi ⊢
    exact h.low i hi
  · have hk := hs.kept hi
    rw [hk] at hi ⊢
    rw [hlimit]
    exact h.high i hi
  · rw [hs.kept hi, hs.kept hj] at he
    exact h.distinct i j (hs.kept hi ▸ hi) (hs.kept hj ▸ hj) he

theorem issue (h : Numbered base t) (hnext : t.next ≠ 0) {make : UInt32 → ρ} (hmake : handle (make t.next) = t.next) :
    Numbered base (t.issue i make) := by
  have hlimit := limit_issue t i make
  have hbase := limit_of_ne hnext ▸ h.from_base
  -- an older record is below the counter, so it cannot carry the new handle
  have hold : ∀ j, active (t.slots j) → handle (t.slots j) ≠ t.next := by
    intro j hj he
    have := h.high j hj
    rw [limit_of_ne hnext, he] at this
    exact lt_irrefl _ this
  refine ⟨fun j hj => ?_, fun j hj => ?_, fun j k hj hk he => ?_, by omega⟩
  · rw [issue_slots] at hj ⊢
    split at hj
    · simp [*]
    · simpa [*] using h.low j hj
  · rw [issue_slots] at hj ⊢
    split at hj
    · simp [*]
    · have := h.high j hj
      rw [limit_of_ne hnext] at this
      simp only [*, if_false]
      omega
  · rw [issue_slots] at hj hk he
    rw [issue_slots] at he
    by_cases hji : j = i <;> by_cases hki : k = i <;> simp only [hji, hki, if_true, if_false] at hj hk he ⊢
    · exact absurd (he.symm.trans hmake) (hold k hk)
    · exact absurd (he.trans hmake) (hold j hj)
    · exact h.distinct j k hj hk he

end Numbered

/-! ## Records of an earlier table -/

/-- Every active record of `t'` that was given out before `t` was in `t`, in the same slot. -/
structure Later (t t' : HandleTable n ρ) : Prop where
  limit : t.limit ≤ t'.limit
  slots : ∀ i, active (t'.slots i) = true → (handle (t'.slots i)).toNat < t.limit → t'.slots i = t.slots i

namespace Later

theorem refl (t : HandleTable n ρ) : Later t t := ⟨le_refl _, fun _ _ _ => rfl⟩

theorem trans {a b c : HandleTable n ρ} (hab : Later a b) (hbc : Later b c) : Later a c := by
  refine ⟨hab.limit.trans hbc.limit, fun i hi hlt => ?_⟩
  have hb := hbc.slots i hi (hlt.trans_le hab.limit)
  rw [hb] at hi hlt ⊢
  exact hab.slots i hi hlt

theorem shrinks {t t' : HandleTable n ρ} (h : Shrinks t t') : Later t t' := by
  refine ⟨?_, fun i hi _ => h.kept hi⟩
  unfold HandleTable.limit
  rw [h.next]

theorem issue (hnext : t.next ≠ 0) {i : Fin n} {make : UInt32 → ρ} (hmake : handle (make t.next) = t.next) :
    Later t (t.issue i make) := by
  have hlimit := limit_of_ne hnext
  refine ⟨by rw [limit_issue]; omega, fun j hj hlt => ?_⟩
  rw [issue_slots] at hj hlt ⊢
  split at hlt
  · rw [hmake] at hlt
    omega
  · simp [*]

/-- A handle of the earlier table leads nowhere else. -/
theorem same {t t' : HandleTable n ρ} {base : Nat} (h : Later t t') (ht : Numbered base t) {i j : Fin n}
    (hi : active (t.slots i)) (hj : active (t'.slots j)) (he : handle (t'.slots j) = handle (t.slots i)) :
    j = i ∧ t'.slots i = t.slots i := by
  have hold := h.slots j hj (he ▸ ht.high i hi)
  obtain rfl : j = i := ht.distinct j i (hold ▸ hj) hi (hold ▸ he)
  exact ⟨rfl, hold⟩

end Later

end HandleTable

end LimitlessOS.Lib
