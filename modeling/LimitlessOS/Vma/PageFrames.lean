/-
  LimitlessOS.Vma.PageFrames — when the pages of a run can be installed.

  `install` refuses a process without a slot in the pool of roots (`limit = 0`), a page outside
  the user window or inside one of the two windows that are taken, and the first page of a
  directory when the root has no page table left.

  Proved:
  - `installable_succ`, `Installable.head`: whether the pages of a run are `Installable`,
    one page at a time.
  - `spentFairly_iff`: after any page calls, a root that has no page table left for a page
    has a present page in 16 windows if and only if no window with a table was emptied.

  `spentFairly_fails`: 16 pages are mapped and cleared again, each in a window of its own,
  and then no page can be mapped in another window.
-/
import LimitlessOS.Vma.PageEntries

namespace LimitlessOS.Vma

open Finset List

namespace PageTable

variable {p : PageTable} {limit virt : Nat} {prot : UInt32}

/-- The directories that get their first page table when the absent ones of the pages are installed. -/
def newTables (p : PageTable) (virt i n : Nat) : Finset Nat :=
  (((Finset.Ico i (i + n)).filter fun k => p.present (pageAt virt k) = false).image fun k =>
    pdIndex (pageAt virt k)).filter (· ∉ p.slots)

/-- Every absent one of the pages can be installed. -/
structure Installable (limit virt i n : Nat) (p : PageTable) : Prop where
  mappable : ∀ k, i ≤ k → k < i + n → p.present (pageAt virt k) = false → limit ≠ 0 ∧ Mappable (pageAt virt k)
  tables : (p.newTables virt i n).card ≤ limit - p.slots.length

theorem mem_newTables {i n pd : Nat} : pd ∈ p.newTables virt i n ↔
    (∃ k, i ≤ k ∧ k < i + n ∧ p.present (pageAt virt k) = false ∧ pdIndex (pageAt virt k) = pd) ∧ pd ∉ p.slots := by
  simp [newTables, and_assoc]

theorem install_mappable (p : PageTable) (limit : Nat) {phys : Nat} (hv : virt % pageBytes = 0)
    (hp : phys % pageBytes = 0) (hpos : phys ≠ 0) (hprot : prot &&& (protRead ||| protWrite ||| protExecute) ≠ 0) :
    ((p.install limit virt phys prot).1 ↔
        (limit ≠ 0 ∧ Mappable virt) ∧ (pdIndex virt ∈ p.slots ∨ p.slots.length < limit)) ∧
      ((p.install limit virt phys prot).1 → (p.install limit virt phys prot).2.slots =
        if pdIndex virt ∈ p.slots then p.slots else p.slots ++ [pdIndex virt]) := by
  unfold install Mappable
  by_cases hm : limit ≠ 0 ∧ inUserWindow virt ∧ pdIndex virt ≠ pdIndex 0x40000000 ∧ pdIndex virt ≠ pdIndex 0x41000000
  · obtain ⟨hslot, hw, hfirst, hsecond⟩ := hm
    rw [if_neg (by simp [hslot, hv, hp, hpos, hprot, hw, hfirst, hsecond])]
    unfold acquireSlot
    by_cases hin : pdIndex virt ∈ p.slots
    · simp [hin, hslot, hw, hfirst, hsecond, setEntry]
    · by_cases hlt : p.slots.length < limit <;> simp [hin, hlt, hslot, hw, hfirst, hsecond, setEntry]
  · rw [if_pos]
    · simp [hm]
    · simp only [ne_eq, not_and_or, not_not] at hm
      rcases hm with hm | hm | hm | hm <;> simp [hm]

theorem newTables_succ (p : PageTable) (virt i n : Nat) : p.newTables virt i (n + 1) =
    if p.present (pageAt virt i) = false ∧ pdIndex (pageAt virt i) ∉ p.slots then
      insert (pdIndex (pageAt virt i)) (p.newTables virt (i + 1) n)
    else p.newTables virt (i + 1) n := by
  have hpages : Finset.Ico i (i + (n + 1)) = insert i (Finset.Ico (i + 1) (i + 1 + n)) := by
    ext k
    simp only [Finset.mem_Ico, mem_insert]
    omega
  unfold newTables
  rw [hpages, filter_insert]
  by_cases habs : p.present (pageAt virt i) = false
  · rw [if_pos habs, image_insert, filter_insert]
    simp only [habs, true_and]
  · rw [if_neg habs, if_neg fun h => habs h.1]

theorem slot_of_present {a : Nat} (h : p.present a) : pdIndex a ∈ p.slots := by
  obtain ⟨e, he⟩ := Option.isSome_iff_exists.1 h
  have hs := hasSlot_of_lookup he
  unfold hasSlot at hs
  rw [Bool.and_eq_true, contains_iff_mem] at hs
  exact hs.2

theorem absent_of_slot {a : Nat} (h : pdIndex a ∉ p.slots) : p.present a = false :=
  Bool.not_eq_true _ ▸ fun hpresent => h (slot_of_present hpresent)

/-- Page `i` has its entry, perhaps in a new page table. -/
theorem installable_succ {i n : Nat} {p' : PageTable}
    (hok : p.present (pageAt virt i) = false → limit ≠ 0 ∧ Mappable (pageAt virt i))
    (hroom : pdIndex (pageAt virt i) ∈ p.slots ∨ p.slots.length < limit)
    (hslots : p'.slots = if pdIndex (pageAt virt i) ∈ p.slots then p.slots else p.slots ++ [pdIndex (pageAt virt i)])
    (hsame : ∀ k, i < k → k < i + (n + 1) → p'.present (pageAt virt k) = p.present (pageAt virt k)) :
    Installable limit virt i (n + 1) p ↔ Installable limit virt (i + 1) n p' := by
  set pd := pdIndex (pageAt virt i) with hpd
  have hmem : ∀ x, x ∈ p'.newTables virt (i + 1) n ↔ x ∈ p.newTables virt (i + 1) n ∧ x ∉ p'.slots := by
    intro x
    simp only [mem_newTables]
    constructor
    · rintro ⟨⟨k, hk, hk', habs, rfl⟩, hnot⟩
      refine ⟨⟨⟨k, hk, hk', by rw [← hsame k (by omega) (by omega)]; exact habs, rfl⟩, ?_⟩, hnot⟩
      rw [hslots] at hnot
      split_ifs at hnot
      · exact hnot
      · exact fun h => hnot (mem_append_left _ h)
    · rintro ⟨⟨⟨k, hk, hk', habs, rfl⟩, -⟩, hnot⟩
      exact ⟨⟨k, hk, hk', by rw [hsame k (by omega) (by omega)]; exact habs, rfl⟩, hnot⟩
  have htables : (p.newTables virt i (n + 1)).card ≤ limit - p.slots.length ↔
      (p'.newTables virt (i + 1) n).card ≤ limit - p'.slots.length := by
    rw [newTables_succ]
    split_ifs at hslots with hin
    · rw [if_neg (fun h => h.2 hin), hslots, show p'.newTables virt (i + 1) n = p.newTables virt (i + 1) n by
        ext x
        rw [hmem, hslots]
        exact and_iff_left_of_imp fun hx => (mem_newTables.1 hx).2]
    rw [if_pos ⟨absent_of_slot hin, hin⟩, hslots, List.length_append, List.length_singleton, show p'.newTables virt (i + 1) n =
        (p.newTables virt (i + 1) n).erase pd by
      ext x
      rw [hmem, hslots, mem_erase, mem_append, List.mem_singleton]
      constructor
      · rintro ⟨hx, hnot⟩
        exact ⟨fun h => hnot (.inr h), hx⟩
      · rintro ⟨hne, hx⟩
        exact ⟨hx, fun h => h.elim (mem_newTables.1 hx).2 hne⟩]
    have hcard : (insert pd (p.newTables virt (i + 1) n)).card = ((p.newTables virt (i + 1) n).erase pd).card + 1 := by
      rw [← card_insert_of_notMem (notMem_erase pd _)]
      congr 1
      ext x
      simp only [mem_insert, mem_erase]
      tauto
    have hlt : p.slots.length < limit := hroom.resolve_left hin
    rw [hcard]
    omega
  constructor
  · rintro ⟨hm, ht⟩
    refine ⟨fun k hk hk' habs => hm k (by omega) (by omega) (by rw [← hsame k (by omega) (by omega)]; exact habs), ?_⟩
    rwa [← htables]
  rintro ⟨hm, ht⟩
  refine ⟨fun k hk hk' habs => ?_, by rwa [htables]⟩
  by_cases hki : k = i
  · subst hki
    exact hok habs
  · exact hm k (by omega) (by omega) (by rw [hsame k (by omega) (by omega)]; exact habs)

/-- What page `i` needs itself. -/
theorem Installable.head {i n : Nat} (h : Installable limit virt i (n + 1) p) :
    (p.present (pageAt virt i) = false → limit ≠ 0 ∧ Mappable (pageAt virt i)) ∧
      (pdIndex (pageAt virt i) ∈ p.slots ∨ p.slots.length < limit) := by
  refine ⟨h.mappable i le_rfl (by omega), ?_⟩
  by_contra hno
  rw [not_or] at hno
  have ht := h.tables
  rw [newTables_succ, if_pos ⟨absent_of_slot hno.1, hno.1⟩, show limit - p.slots.length = 0 by omega, Nat.le_zero,
    card_eq_zero] at ht
  exact insert_ne_empty _ _ ht

/-- Pages that match their region are there, so none has to be installed. -/
theorem installable_of_matches {d : Region} {n : Nat} (hm : p.runMatches d virt n) :
    Installable limit virt 0 n p := by
  rw [runMatches_iff] at hm
  have hpresent : ∀ k < n, p.present (pageAt virt k) := by
    intro k hk
    obtain ⟨-, e, he, -⟩ := hm k hk
    unfold present
    rw [he]
    rfl
  constructor
  · intro k _ hk habs
    simp [hpresent k (by omega)] at habs
  rw [card_eq_zero.2]
  · exact Nat.zero_le _
  · refine eq_empty_of_forall_notMem fun pd hpd => ?_
    obtain ⟨⟨k, _, hk, habs, -⟩, -⟩ := mem_newTables.1 hpd
    simp [hpresent k (by omega)] at habs

/-! ## The page tables of a process with a root of its own -/

/-- The page calls of a process. -/
inductive PageOp where
  | install (virt phys : UInt64) (prot : UInt32)
  | clear (virt : UInt64)

/-- The tables of the root in pool slot `slot` after a call. -/
def pageStep (slot : Nat) (p : PageTable) : PageOp → PageTable
  | .install virt phys prot => (p.install (PageRoot.own slot).tableLimit virt.toNat phys.toNat prot).2
  | .clear virt => p.clear virt.toNat

/-- The arguments are in order: such a page is refused only for want of a page table for its window. -/
structure Proper (virt phys : Nat) (prot : UInt32) : Prop where
  page : virt % pageBytes = 0 ∧ Mappable virt
  frame : phys % pageBytes = 0 ∧ phys ≠ 0
  bits : prot &&& (protRead ||| protWrite ||| protExecute) ≠ 0

/-- A page of the window is present. -/
def Occupied (p : PageTable) (pd : Nat) : Prop := ∃ a, pdIndex a = pd ∧ p.present a = true

/-- A page is refused for want of a page table only if as many windows as there are tables have a page. -/
def SpentFairly (p : PageTable) (limit virt phys : Nat) (prot : UInt32) : Prop :=
  Proper virt phys prot → (p.install limit virt phys prot).1 = false →
    ∃ windows : List Nat, windows.Nodup ∧ windows.length = limit ∧ ∀ w ∈ windows, p.Occupied w

theorem install_slots (p : PageTable) (limit virt phys : Nat) (prot : UInt32) :
    (p.install limit virt phys prot).2.slots = p.slots ∨ pdIndex virt ∉ p.slots ∧ p.slots.length < limit ∧
      (p.install limit virt phys prot).2.slots = p.slots ++ [pdIndex virt] := by
  unfold install acquireSlot
  split_ifs with hbad hin hroom
  · exact .inl rfl
  · exact .inl rfl
  · exact .inr ⟨by simpa using hin, hroom, rfl⟩
  · exact .inl rfl

theorem clear_slots (p : PageTable) (virt : Nat) : (p.clear virt).slots = p.slots := by
  unfold clear
  split <;> rfl

/-- No window has two page tables, and there are no more than the pool slot has. -/
theorem pageStep_slots (slot : Nat) (ops : List PageOp) (h : p.slots.Nodup ∧ p.slots.length ≤ (PageRoot.own slot).tableLimit) :
    (ops.foldl (pageStep slot) p).slots.Nodup ∧ (ops.foldl (pageStep slot) p).slots.length ≤ (PageRoot.own slot).tableLimit := by
  induction ops generalizing p with
  | nil => exact h
  | cons op ops ih =>
    refine ih ?_
    cases op with
    | clear virt =>
      simp only [pageStep, clear_slots]
      exact h
    | install virt phys prot =>
      simp only [pageStep]
      rcases p.install_slots (PageRoot.own slot).tableLimit virt.toNat phys.toNat prot with heq | ⟨hnew, hroom, heq⟩ <;> rw [heq]
      · exact h
      refine ⟨nodup_append.2 ⟨h.1, nodup_singleton _, ?_⟩, ?_⟩
      · rintro x hx y hy rfl
        exact hnew (List.mem_singleton.1 hy ▸ hx)
      · rw [length_append, length_singleton]
        exact hroom

theorem spentFairly_iff (slot : Nat) (ops : List PageOp) (virt phys : Nat) (prot : UInt32) :
    let p := ops.foldl (pageStep slot) empty
    p.SpentFairly (PageRoot.own slot).tableLimit virt phys prot ↔
      (Proper virt phys prot → pdIndex virt ∉ p.slots → p.slots.length = (PageRoot.own slot).tableLimit →
        ∀ w ∈ p.slots, p.Occupied w) := by
  intro p
  obtain ⟨hnodup, hle⟩ := pageStep_slots (p := empty) slot ops ⟨nodup_nil, Nat.zero_le _⟩
  refine forall_congr' fun hproper => ?_
  have hanswer :=
    (install_mappable p (PageRoot.own slot).tableLimit hproper.page.1 hproper.frame.1 hproper.frame.2 hproper.bits).1
  constructor
  · intro hfair hnew hfull w hw
    obtain ⟨windows, hdistinct, hlen, hwindows⟩ := hfair (by
      rw [← Bool.not_eq_true, hanswer]
      exact fun h => h.2.elim hnew fun hlt => absurd hlt (by omega))
    have hsub : windows ⊆ p.slots := by
      intro x hx
      obtain ⟨a, rfl, ha⟩ := hwindows x hx
      exact slot_of_present ha
    have hperm := (hdistinct.subperm hsub).perm_of_length_le (by rw [hfull, hlen])
    exact hwindows w (hperm.mem_iff.2 hw)
  · intro h hrefused
    have hno := hanswer.not.1 (by rw [hrefused]; decide)
    have hmay : (PageRoot.own slot).tableLimit ≠ 0 ∧ Mappable virt := ⟨by simp [PageRoot.tableLimit], hproper.page.2⟩
    have hfull := le_antisymm hle (Nat.not_lt.1 fun hlt => hno ⟨hmay, .inr hlt⟩)
    exact ⟨p.slots, hnodup, hfull, h (fun hin => hno ⟨hmay, .inl hin⟩) hfull⟩

/-- A page is mapped at each of the addresses, and cleared again. -/
def mapAndClear (l : List UInt64) : List PageOp := l.flatMap fun virt => [.install virt 0x1000 3, .clear virt]

theorem lookup_mapAndClear {slot : Nat} (l : List UInt64) (h : ∀ a, p.lookup a = none) (a : Nat) :
    ((mapAndClear l).foldl (pageStep slot) p).lookup a = none := by
  induction l generalizing p with
  | nil => exact h a
  | cons virt l ih =>
    refine ih fun a => ?_
    simp only [pageStep, lookup_clear]
    split_ifs with hv
    · rfl
    · rcases p.install_spec (PageRoot.own slot).tableLimit virt.toNat (UInt64.toNat 0x1000) 3 with ⟨p', heq, -, -, hl⟩ | heq
      · rw [heq, hl, if_neg hv, h]
      · rw [heq, h]

/-- The first addresses of 16 windows. -/
def windowStarts : List UInt64 := (List.range 16).map fun i => UInt64.ofNat (0x44000000 + 0x200000 * i)

theorem spentFairly_fails :
    ¬ ((mapAndClear windowStarts).foldl (pageStep 0) empty).SpentFairly (PageRoot.own 0).tableLimit 0x46000000 0x1000 3 := by
  intro h
  obtain ⟨windows, -, hlen, hoccupied⟩ := h ⟨by unfold Mappable; decide, by decide, by decide⟩ (by decide +kernel)
  obtain ⟨w, hw⟩ := exists_mem_of_length_pos (by rw [hlen]; decide)
  obtain ⟨a, -, ha⟩ := hoccupied w hw
  rw [present, lookup_mapAndClear windowStarts fun _ => if_neg (by simp [hasSlot, empty])] at ha
  cases ha

end PageTable

end LimitlessOS.Vma
