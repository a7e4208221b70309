/-
  LimitlessOS.Vma.AnonPages — what the functions of the anonymous pool do.

  A page of the pool is its index and its physical address `PoolBase.phys`, one to one.
  Proved, for each function of `LimitlessOS.Vma.AnonPool`, which counts and bytes it
  changes; and that a claimed run given back leaves the counts as they were
  (`release_claimed`).
-/
import LimitlessOS.Vma.AnonPool

namespace LimitlessOS.Vma

open List

namespace PoolBase

variable (b : PoolBase)

theorem phys_inj {i j : Nat} (h : b.phys i = b.phys j) : i = j := by
  simp only [phys, pageBytes] at h
  omega

theorem phys_pos (i : Nat) : b.phys i ≠ 0 := by
  have := b.pos
  unfold phys
  omega

theorem phys_aligned (i : Nat) : b.phys i % pageBytes = 0 := by
  have := b.aligned
  simp only [phys, pageBytes] at *
  omega

/-- The run after page `i` is the run of physical pages after its address. -/
theorem phys_add (i k : Nat) : b.phys (i + k) = b.phys i + k * pageBytes := by
  simp only [phys, pageBytes]
  omega

end PoolBase

namespace AnonPool

variable {p : AnonPool} {b : PoolBase}

variable {count i j physical : Nat}

theorem runAt_phys (h : i + count ≤ maxAnonPages) : runAt b (b.phys i) count = some i := by
  unfold runAt
  rcases hf : (range (maxAnonPages - count + 1)).find? fun j => b.phys j = b.phys i with _ | j
  · have hno := find?_eq_none.1 hf i (mem_range.2 (by omega))
    simp at hno
  · have hj := find?_some hf
    rw [decide_eq_true_eq] at hj
    rw [b.phys_inj hj]

theorem runAt_some (h : runAt b physical count = some i) :
    b.phys i = physical ∧ i ≤ maxAnonPages - count := by
  unfold runAt at h
  have hj := find?_some h
  have hmem := mem_range.1 (mem_of_find?_eq_some h)
  rw [decide_eq_true_eq] at hj
  exact ⟨hj, by omega⟩

theorem pageIndex_phys (h : i < maxAnonPages) : pageIndex b (b.phys i) = some i := by
  unfold pageIndex
  rw [if_neg (b.phys_pos i), runAt_phys (by omega)]

theorem pageIndex_some (h : pageIndex b physical = some i) : b.phys i = physical ∧ i < maxAnonPages := by
  unfold pageIndex at h
  split_ifs at h
  obtain ⟨hp, hi⟩ := runAt_some h
  simp only [maxAnonPages] at *
  omega

theorem freeRun_some (hc : count ≤ maxAnonPages) (h : p.freeRun count = some i) :
    i + count ≤ maxAnonPages ∧ ∀ k < count, p.used (i + k) = 0 := by
  unfold freeRun at h
  have hj := find?_some h
  have hmem := mem_range.1 (mem_of_find?_eq_some h)
  refine ⟨by omega, ?_⟩
  simpa using hj

theorem freeRun_none (h : p.freeRun count = none) (i : Nat) (hi : i + count ≤ maxAnonPages) :
    ∃ k < count, p.used (i + k) ≠ 0 := by
  unfold freeRun at h
  have hno := find?_eq_none.1 h i (mem_range.2 (by omega))
  simpa using hno

/-- The pool after the run of `count` pages from page `i` has been claimed. -/
def claimRun (p : AnonPool) (i count : Nat) : AnonPool :=
  { used := fun j => if i ≤ j ∧ j < i + count then 1 else p.used j
    bytes := fun j => if i ≤ j ∧ j < i + count then fun _ => 0 else p.bytes j
    claimed := p.claimed + count }

theorem claim_spec (p : AnonPool) (b : PoolBase) (count : Nat) :
    (∃ i, p.claim b count = (b.phys i, p.claimRun i count) ∧ p.freeRun count = some i ∧ 0 < count ∧
      i + count ≤ maxAnonPages ∧ ∀ k < count, p.used (i + k) = 0) ∨
    (p.claim b count = (0, p) ∧ (count = 0 ∨ count > maxAnonPages ∨ p.freeRun count = none)) := by
  unfold claim
  split_ifs with hbad
  · exact .inr ⟨rfl, by omega⟩
  rw [not_or, not_lt] at hbad
  rcases hf : p.freeRun count with _ | i
  · exact .inr ⟨rfl, .inr (.inr rfl)⟩
  · left
    obtain ⟨hi, hfree⟩ := freeRun_some hbad.2 hf
    exact ⟨i, rfl, rfl, by omega, hi, hfree⟩

/-- The pool after the run of `count` pages from page `i` has lost a holder each. -/
def releaseRun (p : AnonPool) (i count : Nat) : AnonPool :=
  { used := fun j => if i ≤ j ∧ j < i + count then p.used j - 1 else p.used j
    bytes := fun j => if i ≤ j ∧ j < i + count ∧ p.used j - 1 = 0 then fun _ => 0 else p.bytes j
    claimed := p.claimed - (List.range count).countP fun run => p.used (i + run) ≠ 0 }

theorem release_eq (hc : 0 < count) (h : i + count ≤ maxAnonPages) : p.release b
    (b.phys i) count = p.releaseRun i count := by
  unfold release
  rw [if_neg, runAt_phys h]
  · rfl
  · have := b.phys_pos i
    omega

theorem release_zero (p : AnonPool) (b : PoolBase) (count : Nat) : p.release b 0 count = p := by
  unfold release
  rw [if_pos (.inl rfl)]

theorem claimRun_used_in (h : i ≤ j ∧ j < i + count) : (p.claimRun i count).used j = 1 := if_pos h

theorem claimRun_used_out (h : ¬ (i ≤ j ∧ j < i + count)) : (p.claimRun i count).used j = p.used j :=
  if_neg h

theorem releaseRun_used_in (h : i ≤ j ∧ j < i + count) : (p.releaseRun i count).used j = p.used j - 1 := if_pos h

theorem releaseRun_used_out (h : ¬ (i ≤ j ∧ j < i + count)) : (p.releaseRun i count).used j = p.used j := if_neg h

theorem releaseRun_bytes (h : ¬ (i ≤ j ∧ j < i + count) ∨ p.used j ≠ 1 ∧ p.used j ≠ 0) :
    (p.releaseRun i count).bytes j = p.bytes j := if_neg (by omega)

/-- The same holders, and the same bytes in every page that has one. -/
structure Same (p q : AnonPool) : Prop where
  used : q.used = p.used
  claimed : q.claimed = p.claimed
  bytes : ∀ j, p.used j ≠ 0 → q.bytes j = p.bytes j

theorem Same.refl (p : AnonPool) : p.Same p := ⟨rfl, rfl, fun _ _ => rfl⟩

/-- A run that was free, claimed and given back has no holder, and all else is as it was. -/
theorem release_claimed (hfree : ∀ k < count, p.used (i + k) = 0) : p.Same ((p.claimRun i count).releaseRun i count) := by
  have hfree' : ∀ j, i ≤ j ∧ j < i + count → p.used j = 0 := by
    intro j hj
    have := hfree (j - i) (by omega)
    rwa [show i + (j - i) = j by omega] at this
  refine ⟨?_, ?_, ?_⟩
  · funext j
    by_cases hj : i ≤ j ∧ j < i + count
    · rw [releaseRun_used_in hj, claimRun_used_in hj, hfree' j hj]
    · rw [releaseRun_used_out hj, claimRun_used_out hj]
  · show p.claimed + count - (range count).countP (fun run => (p.claimRun i count).used (i + run) ≠ 0) = p.claimed
    rw [countP_eq_length.2]
    · simp
    · intro run hrun
      rw [claimRun_used_in ⟨by omega, Nat.add_lt_add_left (mem_range.1 hrun) i⟩]
      rfl
  · intro j hj
    have hout : ¬ (i ≤ j ∧ j < i + count) := fun hin => hj (hfree' j hin)
    rw [releaseRun_bytes (.inl hout)]
    exact if_neg hout

/-- The pool after page `i` has gained a holder. -/
def retained (p : AnonPool) (i : Nat) : AnonPool :=
  { p with used := Function.update p.used i (p.used i + 1), claimed := p.claimed + 1 }

theorem retain_spec (p : AnonPool) (b : PoolBase) (physical : Nat) :
    (∃ i, p.retain b physical = (true, p.retained i) ∧ b.phys i = physical ∧ i < maxAnonPages ∧ p.used i ≠ 0) ∨
    p.retain b physical = (false, p) := by
  unfold retain
  rcases hi : pageIndex b physical with _ | i
  · right
    rfl
  dsimp only
  split_ifs with hu
  · right
    rfl
  · left
    obtain ⟨hphys, hlt⟩ := pageIndex_some hi
    exact ⟨i, rfl, hphys, hlt, hu⟩

/-- A page in use that was retained and released is as it was. -/
theorem release_retained (h : p.used i ≠ 0) : (p.retained i).releaseRun i 1 = p := by
  have hself : (p.retained i).used i = p.used i + 1 := Function.update_self ..
  have hother : ∀ j, j ≠ i → (p.retained i).used j = p.used j := fun j hj => Function.update_of_ne hj ..
  have hused : ((p.retained i).releaseRun i 1).used = p.used := by
    funext j
    by_cases hj : j = i
    · subst hj
      rw [releaseRun_used_in ⟨le_rfl, by omega⟩, hself]
      rfl
    · rw [releaseRun_used_out (by omega), hother j hj]
  have hbytes : ((p.retained i).releaseRun i 1).bytes = p.bytes := by
    funext j
    by_cases hj : j = i
    · subst hj
      exact releaseRun_bytes (.inr (by omega))
    · exact releaseRun_bytes (.inl (by omega))
  have hclaimed : ((p.retained i).releaseRun i 1).claimed = p.claimed := by
    show p.claimed + 1 - (range 1).countP (fun run => (p.retained i).used (i + run) ≠ 0) = p.claimed
    simp [range_one, hself]
  exact AnonPool.ext hused hbytes hclaimed

end AnonPool

end LimitlessOS.Vma
