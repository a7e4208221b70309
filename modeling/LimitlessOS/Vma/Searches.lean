/-
  LimitlessOS.Vma.Searches — what the searches over a process's regions find.

  `vma64_find_gap` walks the list once and moves its candidate behind each region in the
  way; `vma64_find` descends the red-black tree.

  Proved, in every state reached:
  - `findGap_least`: where no sum wraps, the gap is the lowest aligned one within the
    bounds, and 0 means that there is none.
  - `find_scan`: the region found is the one that holds the address, as a scan of the
    list finds it, after at most `2 * log2 (n + 1) + 1` of the `n` nodes.
-/
import LimitlessOS.Vma.TreeInvariant

namespace LimitlessOS.Vma

open Nat List Store

/-! ## Gaps -/

/-- An aligned range of `length` bytes at or above `low` that no region meets. -/
structure Gap (l : List Region) (length alignment low a : Nat) : Prop where
  low : low ≤ a
  aligned : alignment ∣ a
  apart : ∀ d ∈ l, a + length ≤ d.virtBase ∨ d.virtEnd ≤ a

/-- Without a wrap, `vma64_align_up` gives the least multiple from `value` on. -/
theorem alignUp_least {value alignment : Nat} (hpow : alignment.isPowerOfTwo) (h : value + (alignment - 1) < 2 ^ 64) :
    IsLeast {a | alignment ∣ a ∧ value ≤ a} (alignUp value alignment) := by
  obtain ⟨k, rfl⟩ := hpow
  have hpos := Nat.two_pow_pos k
  unfold alignUp
  rw [if_neg hpos.ne', if_neg (by simp [and_two_pow_sub_one_eq_mod]), add64, mod_eq_of_lt h]
  generalize 2 ^ k = n at hpos
  have hdiv := div_add_mod (value + (n - 1)) n
  have hmod := mod_lt (value + (n - 1)) hpos
  rw [mul_comm] at hdiv
  refine ⟨⟨Dvd.intro_left _ rfl, by omega⟩, ?_⟩
  rintro _ ⟨⟨m, rfl⟩, hle⟩
  rw [mul_comm n m]
  refine mul_le_mul_right n (Nat.lt_succ_iff.1 ((div_lt_iff_lt_mul hpos).2 ?_))
  rw [Nat.succ_mul, mul_comm m n]
  omega

namespace Store

variable {region : RegionId → Region} {length alignment : Nat} {l : List RegionId}

/-- None of the sums in the loop of `vma64_find_gap` wraps. -/
def gapSumsFit (region : RegionId → Region) (length alignment : Nat) : Nat → List RegionId → Bool
  | candidate, [] => candidate + length < 2 ^ 64
  | candidate, c :: cs =>
    candidate + length < 2 ^ 64 &&
      if candidate < (region c).virtEnd ∧ (region c).virtBase < candidate + length then
        (region c).virtEnd + (alignment - 1) < 2 ^ 64 &&
          gapSumsFit region length alignment (alignUp (region c).virtEnd alignment) cs
      else candidate + length ≤ (region c).virtBase || gapSumsFit region length alignment candidate cs

theorem gapSumsFit_lt {c : Nat} (h : gapSumsFit region length alignment c l) : c + length < 2 ^ 64 := by
  cases l with
  | nil => simpa [gapSumsFit] using h
  | cons r rs =>
    simp only [gapSumsFit, Bool.and_eq_true, decide_eq_true_eq] at h
    exact h.1

/-- The loop stops at the first gap from its candidate on: every aligned address it skips meets a region. -/
theorem gapLoop_least (hpow : alignment.isPowerOfTwo) (hl : Layout (l.map region)) {c : Nat} (hc : 0 < c) (hal : alignment ∣ c)
    (hfit : gapSumsFit region length alignment c l) :
    IsLeast {a | Gap (l.map region) length alignment c a} (gapLoop region length alignment c l) ∧
      gapLoop region length alignment c l + length < 2 ^ 64 := by
  induction l generalizing c with
  | nil => exact ⟨⟨⟨le_rfl, hal, by simp⟩, fun a ha => ha.low⟩, gapSumsFit_lt hfit⟩
  | cons r rs ih =>
    have htail : Layout (rs.map region) := hl.sublist (sublist_cons_self _ _)
    have hlt := (hl.valid _ mem_cons_self).lt
    have hsum := gapSumsFit_lt hfit
    have hadd : add64 c length = c + length := mod_eq_of_lt hsum
    simp only [gapSumsFit, Bool.and_eq_true, decide_eq_true_eq] at hfit
    simp only [gapLoop, hadd, gt_iff_lt]
    replace hfit := hfit.2
    by_cases hmeet : c < (region r).virtEnd ∧ (region r).virtBase < c + length
    · -- the candidate moves behind the region
      simp only [if_pos hmeet, Bool.and_eq_true, decide_eq_true_eq] at hfit ⊢
      obtain ⟨⟨hal', hge⟩, hleast⟩ := alignUp_least hpow hfit.1
      have hadd' : add64 (alignUp (region r).virtEnd alignment) length = alignUp (region r).virtEnd alignment + length :=
        mod_eq_of_lt (gapSumsFit_lt hfit.2)
      obtain ⟨⟨hgap, hmin⟩, hg⟩ := ih htail (by omega) hal' hfit.2
      rw [if_neg (by omega), if_neg (by omega)]
      have hlow := hgap.low
      refine ⟨⟨⟨by omega, hgap.aligned, forall_mem_cons.2 ⟨.inr (hge.trans hlow), hgap.apart⟩⟩, fun a ha => ?_⟩, hg⟩
      have hca := ha.low
      obtain ⟨hhead, hrest⟩ := forall_mem_cons.1 ha.apart
      exact hmin ⟨hleast ⟨ha.aligned, by omega⟩, ha.aligned, hrest⟩
    · simp only [if_neg hmeet, hadd, Bool.or_eq_true, decide_eq_true_eq] at hfit ⊢
      rw [if_neg hc.ne']
      split_ifs with hstop
      · refine ⟨⟨⟨le_rfl, hal, forall_mem_cons.2 ⟨.inl hstop, fun d hd => .inl ?_⟩⟩, fun a ha => ha.low⟩, hsum⟩
        have hbefore := (pairwise_cons.1 hl.ordered).1 d hd
        simp only [Region.Before] at hbefore
        omega
      · obtain ⟨⟨hgap, hmin⟩, hg⟩ := ih htail hc hal (hfit.resolve_left hstop)
        have hlow := hgap.low
        refine ⟨⟨⟨hlow, hgap.aligned, forall_mem_cons.2 ⟨.inr (by omega), hgap.apart⟩⟩, fun a ha => ?_⟩, hg⟩
        exact hmin ⟨ha.low, ha.aligned, (forall_mem_cons.1 ha.apart).2⟩

end Store

/-- The gap search in any state reached. Its sums are made only between bounds that leave some room. -/
theorem findGap_least {env : Env} {budget : Pid → Option Nat} {x : Session} (h : Reached env budget x) {pid : Pid} {t : TreeId}
    (ht : x.machine.store.vmaRoot pid = some t) (minAddr maxAddr length alignment : Nat) (hmin : 0 < minAddr)
    (hlength : 0 < length) (hpow : alignment.isPowerOfTwo) (hfit : minAddr < maxAddr → minAddr + (alignment - 1) < 2 ^ 64 ∧
      Store.gapSumsFit x.machine.store.region length alignment (alignUp minAddr alignment) (x.machine.store.regionIds t)) :
    let gap := x.machine.store.findGap pid minAddr maxAddr length alignment
    let free := {a | Gap (x.machine.store.listed t) length alignment minAddr a ∧ a + length ≤ maxAddr}
    (gap = 0 ↔ free = ∅) ∧ (gap ≠ 0 → IsLeast free gap) := by
  obtain ⟨a, ha⟩ := refines_of_reached h
  have hl := ha.store.listed t ▸ ha.store.ok.layout t
  intro gap free
  by_cases hroom : minAddr < maxAddr
  swap
  · have hgap : gap = 0 := by
      simp only [gap, Store.findGap, ht]
      exact if_pos (.inr (.inl (by omega)))
    refine ⟨iff_of_true hgap (Set.eq_empty_iff_forall_notMem.2 ?_), fun hne => absurd hgap hne⟩
    rintro b ⟨hb, hhigh⟩
    have := hb.low
    omega
  obtain ⟨hround, hfit⟩ := hfit hroom
  obtain ⟨⟨hal, hge⟩, hleast⟩ := alignUp_least hpow hround
  obtain ⟨⟨hgap, hfirst⟩, hsum⟩ := Store.gapLoop_least hpow hl (by omega) hal hfit
  have hlow := hgap.low
  have hfree : ∀ b ∈ free, alignUp minAddr alignment ≤ b := fun b hb => hleast ⟨hb.1.aligned, hb.1.low⟩
  simp only [gap, Store.findGap, ht]
  rw [if_neg (by omega)]
  generalize Store.gapLoop x.machine.store.region length alignment (alignUp minAddr alignment)
    (x.machine.store.regionIds t) = g at hgap hfirst hsum hlow
  rw [show add64 g length = g + length from mod_eq_of_lt hsum]
  have hbelow : ∀ b ∈ free, g ≤ b := fun b hb => hfirst ⟨hfree b hb, hb.1.aligned, hb.1.apart⟩
  by_cases hhigh : g + length ≤ maxAddr
  · have hmem : g ∈ free := ⟨⟨hge.trans hlow, hgap.aligned, hgap.apart⟩, hhigh⟩
    rw [if_neg (by omega)]
    exact ⟨iff_of_false (by omega) (Set.nonempty_iff_ne_empty.1 ⟨g, hmem⟩), fun _ => ⟨hmem, hbelow⟩⟩
  rw [if_pos (by omega)]
  refine ⟨iff_of_true rfl (Set.eq_empty_iff_forall_notMem.2 fun b hb => ?_), fun hne => absurd rfl hne⟩
  have := hbelow b hb
  have := hb.2
  omega

/-- Process 1 with three pages mapped at 0x44000000 and the middle one made read-only. -/
def Session.sample : Session :=
  ⟨((Machine.boot Links.boot fun _ => none).step .sample (.mapAnon 1 0 0x3000 3 9)).step .sample
    (.protect 1 0x44001000 0x1000 1), fun _ => False⟩

theorem Session.sample_reached : Reached .sample (fun _ => none) .sample ∧ Session.sample.machine.store.vmaRoot 1 = some 0 :=
  ⟨(Reached.boot.call (.op _ (.mapAnon 1 0 0x3000 3 9))).call (.op _ (.protect 1 0x44001000 0x1000 1)), by decide +kernel⟩

/-- The first gap of two pages starts behind the regions. -/
theorem findGap_least_behind : IsLeast {a | Gap (Session.sample.machine.store.listed 0) 0x2000 0x1000 0x43FFF000 a ∧
    a + 0x2000 ≤ 0x45000000} 0x44003000 := by
  have hgap : Session.sample.machine.store.findGap 1 0x43FFF000 0x45000000 0x2000 0x1000 = 0x44003000 := by decide +kernel
  obtain ⟨hr, ht⟩ := Session.sample_reached
  have hleast := (findGap_least hr ht 0x43FFF000 0x45000000 0x2000 0x1000 (by decide) (by decide) ⟨12, rfl⟩
    fun _ => ⟨by decide, by decide +kernel⟩).2
  rw [hgap] at hleast
  exact hleast (by decide)

/-! ## The region of an address -/

/-- What `vma64_find` answers in any state reached, and how many nodes it visits. -/
theorem find_scan {env : Env} {budget : Pid → Option Nat} {x : Session} (h : Reached env budget x) {pid : Pid} {t : TreeId}
    (ht : x.machine.store.vmaRoot pid = some t) (address : Nat) :
    let s := x.machine.store
    s.find pid address = (s.regionIds t).find? (fun r => (s.region r).Contains address) ∧
      (∀ r, s.find pid address = some r ↔ r ∈ s.regionIds t ∧ (s.region r).Contains address) ∧
      (RegionIndex.search s.index s.region t address).2 ≤ 2 * ((s.regionIds t).length + 1).log2 + 1 := by
  obtain ⟨a, ha⟩ := refines_of_reached h
  have hroot : a.store.vmaRoot pid = some t := ha.store.vmaRoot ▸ ht
  obtain ⟨shape, hholds, hred, hin⟩ := (ha.store.links.tree t).heap
  intro s
  have hvisits := hholds.visits_le hred (Links.compareAddress a.store.region address) Links.fuel
  rw [ha.store.find, ha.store.regionIds, ha.store.region]
  refine ⟨Store.find_eq _ hroot _, fun r => ⟨fun hf => ?_, fun hr => ha.store.ok.find_of_contains hroot hr.1 hr.2⟩, ?_⟩
  · obtain ⟨t', ht', hr⟩ := Store.find_some hf
    obtain rfl : t = t' := Option.mem_unique hroot ht'
    exact hr
  · rw [hin] at hvisits
    exact hvisits.trans (le_succ _)

theorem find_scan_third : Session.sample.machine.store.find 1 0x44002010 = some 2 := by
  obtain ⟨hr, ht⟩ := Session.sample_reached
  exact ((find_scan hr ht 0x44002010).2.1 2).2 (by decide +kernel)

end LimitlessOS.Vma
