/-
  LimitlessOS.Vma.PageEntries — what the page table functions do to the entries.

  An address selects its entry by `pageNumber`, the 36 bits that the four table indices
  cover: addresses that differ above bit 47 share an entry. Every function of
  `LimitlessOS.Vma.Paging` is described by the entry of an arbitrary address afterwards
  (`install_spec`, `lookup_clear`, …), and so are the loops over a run of pages.
-/
import LimitlessOS.Vma.Machine

namespace LimitlessOS.Vma

open Option List

def pageNumber (address : Nat) : Nat := address / pageBytes % 2 ^ 36

/-- The entry of `address` is that of one of the `n` pages from page `i` of a run at `virt`. -/
def Hits (virt i n address : Nat) : Prop := ∃ k, i ≤ k ∧ k < i + n ∧ pageNumber address = pageNumber (pageAt virt k)

theorem inUserWindow_iff (address : Nat) : inUserWindow address ↔ pageNumber address / 2 ^ 18 = 1 := by
  unfold inUserWindow
  rw [Bool.and_eq_true, decide_eq_true_eq, decide_eq_true_eq]
  simp only [index64, pageNumber, pageBytes]
  omega

variable {a b : Nat}

theorem inUserWindow_congr (h : pageNumber a = pageNumber b) : inUserWindow a = inUserWindow b := by
  rw [Bool.eq_iff_iff, inUserWindow_iff, inUserWindow_iff, h]

theorem pdIndex_congr (h : pageNumber a = pageNumber b) : pdIndex a = pdIndex b := by
  simp only [pageNumber, pageBytes] at h
  simp only [pdIndex, index64]
  omega

theorem ptIndex_congr (h : pageNumber a = pageNumber b) : ptIndex a = ptIndex b := by
  simp only [pageNumber, pageBytes] at h
  simp only [ptIndex, index64]
  omega

/-- Inside the user window the directory and table index name the page. -/
theorem pageNumber_eq (ha : inUserWindow a) (hb : inUserWindow b) (hpd : pdIndex a = pdIndex b) (hpt : ptIndex a = ptIndex b) :
    pageNumber a = pageNumber b := by
  rw [inUserWindow_iff] at ha hb
  simp only [pdIndex, ptIndex, index64] at hpd hpt
  simp only [pageNumber, pageBytes] at *
  omega

/-- The pages of a run shorter than the whole table have entries of their own. -/
theorem pageNumber_pageAt_inj {virt i j : Nat} (hij : i < j) (hlt : j < i + 2 ^ 36) :
    pageNumber (pageAt virt i) ≠ pageNumber (pageAt virt j) := by
  simp only [pageNumber, pageAt, pageBytes]
  omega

namespace PageTable

variable {p p' : PageTable} {limit pd a b : Nat}

theorem hasSlot_congr (h : pageNumber a = pageNumber b) : p.hasSlot a = p.hasSlot b := by
  unfold hasSlot
  rw [inUserWindow_congr h, pdIndex_congr h]

theorem lookup_congr (h : pageNumber a = pageNumber b) : p.lookup a = p.lookup b := by
  unfold lookup
  rw [hasSlot_congr h, pdIndex_congr h, ptIndex_congr h]

theorem hasSlot_of_lookup {a : Nat} {e : Pte} (h : p.lookup a = some e) : p.hasSlot a := by
  unfold lookup at h
  split_ifs at h with hs
  exact hs

/-- Nothing is mapped below the user window. -/
theorem lookup_low {a : Nat} (h : a < 2 ^ 30) : p.lookup a = none := by
  rcases hl : p.lookup a with _ | e
  · rfl
  · have hw : inUserWindow a := (Bool.and_eq_true _ _ ▸ hasSlot_of_lookup hl).1
    rw [inUserWindow_iff, pageNumber] at hw
    simp only [pageBytes] at hw
    omega

theorem lookup_setEntry {virt : Nat} {e : Option Pte} (hs : p.hasSlot virt) (a : Nat) :
    (p.setEntry virt e).lookup a = if pageNumber a = pageNumber virt then e else p.lookup a := by
  have hslot : ∀ b, (p.setEntry virt e).hasSlot b = p.hasSlot b := fun b => rfl
  split_ifs with h
  · unfold lookup
    rw [hslot, hasSlot_congr h, hs, if_pos rfl]
    simp [setEntry, pdIndex_congr h, ptIndex_congr h]
  unfold lookup
  rw [hslot]
  by_cases ha : p.hasSlot a
  · have hw : inUserWindow a := (Bool.and_eq_true _ _ ▸ ha).1
    have hw' : inUserWindow virt := (Bool.and_eq_true _ _ ▸ hs).1
    rw [if_pos ha, if_pos ha]
    simp only [setEntry]
    rw [if_neg]
    intro hk
    exact h (pageNumber_eq hw hw' hk.1 hk.2)
  · rw [if_neg ha, if_neg ha]

/-- A page table that is acquired shows no entry that was not there. -/
theorem lookup_acquireSlot (h : p.acquireSlot limit pd = some p') (a : Nat) :
    p'.lookup a = p.lookup a := by
  unfold acquireSlot at h
  split_ifs at h with hc hl
  · rw [some.inj h]
  obtain rfl := some.inj h
  simp only [lookup, hasSlot, contains_eq_mem, mem_append, mem_singleton, Bool.and_eq_true,
    decide_eq_true_eq]
  simp only [contains_eq_mem, decide_eq_true_eq] at hc
  by_cases hpd : pdIndex a = pd
  · simp [hpd, hc]
  · simp [hpd]

theorem slots_acquireSlot (h : p.acquireSlot limit pd = some p') : pd ∈ p'.slots := by
  unfold acquireSlot at h
  split_ifs at h with hc hl
  · rw [← some.inj h]
    simpa using hc
  · rw [← some.inj h]
    simp

/-! ## One page -/

/-- The addresses that `install` accepts: inside the user window, outside the two windows that are taken. -/
def Mappable (virt : Nat) : Prop :=
  inUserWindow virt = true ∧ pdIndex virt ≠ pdIndex 0x40000000 ∧ pdIndex virt ≠ pdIndex 0x41000000

theorem install_spec (p : PageTable) (limit virt phys : Nat) (prot : UInt32) :
    (∃ p', p.install limit virt phys prot = (true, p') ∧ Mappable virt ∧ prot &&& (protRead ||| protWrite ||| protExecute) ≠ 0 ∧
      (∀ a, p'.lookup a = if pageNumber a = pageNumber virt then some (.make phys prot) else p.lookup a)) ∨
    p.install limit virt phys prot = (false, p) := by
  unfold install
  split_ifs with hbad
  · right
    rfl
  simp only [not_or, not_not, Bool.not_eq_true'] at hbad
  rcases hacq : p.acquireSlot limit (pdIndex virt) with _ | p'
  · right
    rfl
  left
  obtain ⟨-, -, -, -, hprot, hw, hfree⟩ := hbad
  have hw : inUserWindow virt := by simpa using hw
  have hslot : p'.hasSlot virt := by
    unfold hasSlot
    rw [hw, contains_eq_mem, decide_eq_true (slots_acquireSlot hacq)]
    rfl
  refine ⟨_, rfl, ⟨hw, hfree⟩, hprot, ?_⟩
  intro a
  rw [lookup_setEntry hslot, lookup_acquireSlot hacq]

theorem lookup_clear (p : PageTable) (virt a : Nat) :
    (p.clear virt).lookup a = if pageNumber a = pageNumber virt then none else p.lookup a := by
  unfold clear
  rcases hl : p.lookup virt with _ | e
  · by_cases h : pageNumber a = pageNumber virt
    · rwa [if_pos h, lookup_congr h]
    · rw [if_neg h]
  · exact lookup_setEntry (hasSlot_of_lookup hl) a

theorem remap_spec (p : PageTable) (virt phys : Nat) (prot : UInt32) :
    (∃ p', p.remap virt phys prot = (true, p') ∧
      (∀ a, p'.lookup a = if pageNumber a = pageNumber virt then some (.make phys prot) else p.lookup a)) ∨
    p.remap virt phys prot = (false, p) := by
  unfold remap
  rcases hl : p.lookup virt with _ | e
  · right
    rfl
  · split_ifs
    · right
      rfl
    · exact .inl ⟨_, rfl, lookup_setEntry (hasSlot_of_lookup hl)⟩

theorem updateProtection_spec (p : PageTable) (virt : Nat) (prot : UInt32) :
    (∃ e, p.lookup virt = some e ∧ prot &&& (protRead ||| protWrite ||| protExecute) ≠ 0 ∧
      (p.updateProtection virt prot).1 ∧
      (∀ a, (p.updateProtection virt prot).2.lookup a =
        if pageNumber a = pageNumber virt then some (.make e.phys prot) else p.lookup a)) ∨
    (p.updateProtection virt prot = (false, p) ∧
      (p.lookup virt = none ∨ prot &&& (protRead ||| protWrite ||| protExecute) = 0)) := by
  unfold updateProtection
  rcases hl : p.lookup virt with _ | e
  · exact .inr ⟨rfl, .inl rfl⟩
  · split_ifs with hprot
    · exact .inr ⟨rfl, .inr hprot⟩
    · exact .inl ⟨e, rfl, hprot, rfl, lookup_setEntry (hasSlot_of_lookup hl)⟩

/-! ## Runs of pages -/

theorem runClear_iff (p : PageTable) (virt count : Nat) :
    p.runClear virt count ↔ ∀ k < count, p.lookup (pageAt virt k) = none := by
  simp [runClear, present]

theorem runMatches_iff (p : PageTable) (d : Region) (virt count : Nat) :
    p.runMatches d virt count ↔
      ∀ k < count, d.physicalFor (pageAt virt k) ≠ 0 ∧
        ∃ e, p.lookup (pageAt virt k) = some e ∧ e.phys = d.physicalFor (pageAt virt k) := by
  unfold runMatches
  rw [List.all_eq_true]
  refine forall_congr' fun k => ?_
  unfold present physical
  rcases p.lookup (pageAt virt k) with _ | e <;> simp

theorem clearBack_eq (virt k : Nat) (p : PageTable) (a : Nat) :
    (Hits virt 0 k a → (p.clearBack virt k).lookup a = none) ∧
      (¬ Hits virt 0 k a → (p.clearBack virt k).lookup a = p.lookup a) := by
  induction k generalizing p with
  | zero =>
    refine ⟨?_, fun _ => rfl⟩
    rintro ⟨k, -, hk, -⟩
    omega
  | succ n ih =>
    rw [clearBack]
    by_cases hn : Hits virt 0 n a
    · refine ⟨fun _ => (ih _).1 hn, fun hno => absurd ?_ hno⟩
      obtain ⟨k, hk0, hk, heq⟩ := hn
      exact ⟨k, hk0, by omega, heq⟩
    rw [(ih _).2 hn, lookup_clear]
    constructor
    · rintro ⟨k, hk0, hk, heq⟩
      have hkn : k = n := by
        by_contra hne
        exact hn ⟨k, hk0, by omega, heq⟩
      rw [if_pos (hkn ▸ heq)]
    · intro hno
      rw [if_neg]
      intro heq
      exact hno ⟨n, by omega, by omega, heq⟩

/-- What `installRun` has done when it ends: it has installed the pages up to the one it names, or all of them. -/
structure Installed (virt phys : Nat) (prot : UInt32) (i stop : Nat) (p p' : PageTable) : Prop where
  entry : ∀ a, p'.lookup a = p.lookup a ∨
    ∃ k, i ≤ k ∧ k < stop ∧ pageNumber a = pageNumber (pageAt virt k) ∧ p'.lookup a = some (.make (pageAt phys k) prot)
  page : ∀ k, i ≤ k → k < stop → stop ≤ i + 2 ^ 36 → p'.lookup (pageAt virt k) = some (.make (pageAt phys k) prot)

theorem installRun_spec (limit virt phys : Nat) (prot : UInt32) (n i : Nat) (p : PageTable) :
    ((installRun limit virt phys prot n i p).1 = none ∧
      Installed virt phys prot i (i + n) p (installRun limit virt phys prot n i p).2) ∨
    ∃ k, (installRun limit virt phys prot n i p).1 = some k ∧ i ≤ k ∧ k < i + n ∧
      Installed virt phys prot i k p (installRun limit virt phys prot n i p).2 := by
  induction n generalizing i p with
  | zero =>
    refine .inl ⟨rfl, fun a => .inl rfl, ?_⟩
    omega
  | succ n ih =>
    rcases install_spec p limit (pageAt virt i) (pageAt phys i) prot with ⟨p', heq, -, -, hl⟩ | heq
    · have hrun : installRun limit virt phys prot (n + 1) i p = installRun limit virt phys prot n (i + 1) p' := by
        simp only [installRun, heq, if_true]
      have hstep : ∀ stop, i < stop → ∀ p'', Installed virt phys prot (i + 1) stop p' p'' →
          Installed virt phys prot i stop p p'' := by
        intro stop hstop p'' h
        constructor
        · intro a
          rcases h.entry a with h' | ⟨k, hk, hk', hnum, h'⟩
          · rw [hl] at h'
            split_ifs at h' with hnum
            · exact .inr ⟨i, le_rfl, hstop, hnum, h'⟩
            · exact .inl h'
          · exact .inr ⟨k, by omega, hk', hnum, h'⟩
        · intro k hk hk' hlt
          by_cases hki : k = i
          · subst hki
            rcases h.entry (pageAt virt k) with h' | ⟨j, hj, hj', hnum, -⟩
            · rw [h', hl, if_pos rfl]
            · exact absurd hnum (pageNumber_pageAt_inj (by omega) (by omega))
          · exact h.page k (by omega) hk' (by omega)
      rw [hrun]
      rcases ih (i + 1) p' with ⟨hnone, h⟩ | ⟨k, hsome, hk, hk', h⟩
      · refine .inl ⟨hnone, hstep _ (by omega) _ ?_⟩
        rwa [show i + (n + 1) = i + 1 + n by omega]
      · exact .inr ⟨k, hsome, by omega, by omega, hstep k (by omega) _ h⟩
    · right
      have hrun : installRun limit virt phys prot (n + 1) i p = (some i, p) := by
        simp only [installRun, heq, Bool.false_eq_true, if_false]
      rw [hrun]
      refine ⟨i, rfl, le_rfl, by omega, fun a => .inl rfl, ?_⟩
      omega

/-- Pages that were not mapped before are not mapped after a refused run has been cleared again. -/
theorem clearBack_installRun {limit virt phys k count : Nat} {prot : UInt32} (hclear : p.runClear virt count)
    (hk : (installRun limit virt phys prot count 0 p).1 = some k) (a : Nat) :
    ((installRun limit virt phys prot count 0 p).2.clearBack virt k).lookup a = p.lookup a := by
  rw [runClear_iff] at hclear
  rcases installRun_spec limit virt phys prot count 0 p with ⟨hnone, -⟩ | ⟨k', hsome, -, hlt, h⟩
  · simp [hnone] at hk
  obtain rfl : k' = k := by
    rw [hsome] at hk
    exact some.inj hk
  by_cases hhit : Hits virt 0 k' a
  · rw [(clearBack_eq virt k' _ a).1 hhit]
    obtain ⟨j, -, hj, hnum⟩ := hhit
    rw [lookup_congr hnum, hclear j (by omega)]
  · rw [(clearBack_eq virt k' _ a).2 hhit]
    rcases h.entry a with h' | ⟨j, hj0, hj, hnum, -⟩
    · exact h'
    · exact absurd ⟨j, hj0, by omega, hnum⟩ hhit

end PageTable

end LimitlessOS.Vma
