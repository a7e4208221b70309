/-
  LimitlessOS.Vma.Layout — lists of disjoint address ranges in order.

  A tree's regions form a layout: each is a nonempty page-aligned range, and each ends
  before the next begins. The searches that `vma.c` makes over such a list are
  characterised here: the insertion point, the region of an address, the region with
  given bounds.

  Proved:
  - `insertPoint_none`, `insertPoint_some`: a region has no place exactly when it
    overlaps a listed one; otherwise its place splits the list into the regions before
    and after it.
  - `Layout.base_lt`: the base addresses strictly increase.
-/
import LimitlessOS.Vma.Store

namespace LimitlessOS.Vma

open Region List

/-- A region as `vma64_region_prepare` accepts it, with an end below `2 ^ 64`. -/
structure Region.Valid (d : Region) : Prop where
  range : rangeValid d.virtBase d.virtEnd = true
  fits : d.virtEnd < 2 ^ 64

namespace Region.Valid

variable {d : Region}

theorem lt (h : d.Valid) : d.virtBase < d.virtEnd := by
  have := h.range
  simp only [rangeValid, Bool.and_eq_true, decide_eq_true_eq] at this
  exact this.1.1

theorem base_aligned (h : d.Valid) : d.virtBase % pageBytes = 0 := by
  have := h.range
  simp only [rangeValid, Bool.and_eq_true, decide_eq_true_eq] at this
  exact this.1.2

theorem end_aligned (h : d.Valid) : d.virtEnd % pageBytes = 0 := by
  have := h.range
  simp only [rangeValid, Bool.and_eq_true, decide_eq_true_eq] at this
  exact this.2

theorem contains_base (h : d.Valid) : d.Contains d.virtBase := ⟨le_rfl, h.lt⟩

end Region.Valid

/-- `a` ends before `b` begins. -/
def Region.Before (a b : Region) : Prop := a.virtEnd ≤ b.virtBase

/-- One of the two ends before the other begins. -/
def Region.Apart (a b : Region) : Prop := a.Before b ∨ b.Before a

theorem rangesOverlap_iff (a b : Region) :
    rangesOverlap a.virtBase a.virtEnd b.virtBase b.virtEnd ↔ ¬ a.Apart b := by
  simp only [rangesOverlap, Apart, Before, Bool.and_eq_true, decide_eq_true_eq]
  omega

/-- Disjoint valid regions in address order. -/
structure Layout (l : List Region) : Prop where
  valid : ∀ d ∈ l, d.Valid
  ordered : l.Pairwise Before

namespace Layout

variable {l a b : List Region} {d : Region}

theorem nil : Layout [] := ⟨by simp, .nil⟩

theorem sublist {l' : List Region} (h : Layout l) (hs : l'.Sublist l) : Layout l' :=
  ⟨fun d hd => h.valid d (hs.subset hd), h.ordered.sublist hs⟩

theorem append :
    Layout (a ++ b) ↔ Layout a ∧ Layout b ∧ ∀ x ∈ a, ∀ y ∈ b, x.Before y := by
  constructor
  · intro h
    obtain ⟨ha, hb, hab⟩ := pairwise_append.1 h.ordered
    exact ⟨⟨fun d hd => h.valid d (by simp [hd]), ha⟩, ⟨fun d hd => h.valid d (by simp [hd]), hb⟩, hab⟩
  rintro ⟨ha, hb, hab⟩
  refine ⟨fun d hd => ?_, pairwise_append.2 ⟨ha.ordered, hb.ordered, hab⟩⟩
  obtain hd | hd := mem_append.1 hd
  · exact ha.valid d hd
  · exact hb.valid d hd

theorem cons : Layout (d :: l) ↔ d.Valid ∧ (∀ y ∈ l, d.Before y) ∧ Layout l := by
  constructor
  · intro h
    obtain ⟨hd, hl⟩ := pairwise_cons.1 h.ordered
    exact ⟨h.valid d (by simp), hd, ⟨fun x hx => h.valid x (by simp [hx]), hl⟩⟩
  rintro ⟨hv, hd, hl⟩
  refine ⟨fun x hx => ?_, pairwise_cons.2 ⟨hd, hl.ordered⟩⟩
  obtain rfl | hx := mem_cons.1 hx
  · exact hv
  · exact hl.valid x hx

/-- The regions of a layout, named by `region`, strictly increase in their base address. -/
theorem base_lt {region : RegionId → Region} {l : List RegionId} (h : Layout (l.map region)) :
    l.Pairwise fun x y => (region x).virtBase < (region y).virtBase :=
  (pairwise_map.1 h.ordered).imp_of_mem fun hx _ hxy =>
    lt_of_lt_of_le (h.valid _ (mem_map_of_mem hx)).lt hxy

/-- A valid region with a place between the two halves of a layout. -/
theorem insert (h : Layout (a ++ b)) (hd : d.Valid) (ha : ∀ x ∈ a, x.Before d) (hb : ∀ y ∈ b, d.Before y) :
    Layout (a ++ d :: b) := by
  obtain ⟨hla, hlb, hab⟩ := append.1 h
  refine append.2 ⟨hla, cons.2 ⟨hd, hb, hlb⟩, fun x hx y hy => ?_⟩
  obtain rfl | hy := mem_cons.1 hy
  · exact ha x hx
  · exact hab x hx y hy

end Layout

namespace Store

variable {region : RegionId → Region} {d : Region} {l : List RegionId} {candidate : Nat} {Ix : Type}

theorem insertPoint_none {p : Option RegionId} (hl : Layout (l.map region)) :
    insertPoint region d p l = none ↔
      ∃ r ∈ l, rangesOverlap d.virtBase d.virtEnd (region r).virtBase (region r).virtEnd := by
  induction l generalizing p with
  | nil => simp [insertPoint]
  | cons c cs ih =>
    rw [map_cons, Layout.cons] at hl
    obtain ⟨hc, hbefore, hcs⟩ := hl
    simp only [insertPoint]
    split_ifs with hover hlt
    · simp [hover]
    · simp only [reduceCtorEq, mem_cons, exists_eq_or_imp, hover, false_or, false_iff, not_exists, not_and]
      intro r hr hro
      have hrc := hbefore (region r) (mem_map_of_mem hr)
      have hlt' := hc.lt
      rw [rangesOverlap_iff] at hover hro
      simp only [Apart, Before] at hrc hover hro
      omega
    · rw [ih hcs]
      simp [hover]

theorem insertPoint_some {p previous cursor : Option RegionId} (hl : Layout (l.map region)) (hd : d.Valid)
    (h : insertPoint region d p l = some (previous, cursor)) :
    ∃ a b, l = a ++ b ∧ previous = a.getLast?.or p ∧ cursor = b.head? ∧
      (∀ r ∈ a, (region r).Before d) ∧ ∀ r ∈ b, d.Before (region r) := by
  induction l generalizing p with
  | nil =>
    simp only [insertPoint, Option.some.injEq, Prod.mk.injEq] at h
    exact ⟨[], [], rfl, by simp [h.1], by simp [← h.2], by simp, by simp⟩
  | cons c cs ih =>
    rw [map_cons, Layout.cons] at hl
    obtain ⟨hc, hbefore, hcs⟩ := hl
    simp only [insertPoint] at h
    split_ifs at h with hover hlt
    · simp only [Option.some.injEq, Prod.mk.injEq] at h
      refine ⟨[], c :: cs, rfl, by simp [h.1], by simp [← h.2], by simp, fun r hr => ?_⟩
      have hdc : d.Before (region c) := by
        rw [rangesOverlap_iff] at hover
        have := hc.lt
        simp only [Apart, Before] at hover ⊢
        omega
      obtain rfl | hr := mem_cons.1 hr
      · exact hdc
      · have := hbefore (region r) (mem_map_of_mem hr)
        have := hc.lt
        simp only [Before] at *
        omega
    · obtain ⟨a, b, rfl, hprev, hcur, ha, hb⟩ := ih hcs h
      refine ⟨c :: a, b, rfl, ?_, hcur, fun r hr => ?_, hb⟩
      · rw [hprev]
        cases a <;> simp [getLast?_cons]
      obtain rfl | hr := mem_cons.1 hr
      · rw [rangesOverlap_iff] at hover
        have := hd.lt
        simp only [Apart, Before] at hover ⊢
        omega
      · exact ha r hr

/-! ## The gap search -/

theorem alignUp_lt {value : Nat} (alignment : Nat) (h : value < 2 ^ 64) : alignUp value alignment < 2 ^ 64 := by
  unfold alignUp
  split_ifs
  · exact h
  · decide
  · exact lt_of_le_of_lt (Nat.div_mul_le_self _ _) (Nat.mod_lt _ (by decide))

/-- What holds of the ends of the regions, aligned, of the first candidate and of 0 holds of the answer. -/
theorem gapLoop_invariant {P : Nat → Prop} (hzero : P 0) (length alignment : Nat)
    (hends : ∀ c ∈ l, P (alignUp (region c).virtEnd alignment)) (hc : P candidate) :
    P (gapLoop region length alignment candidate l) := by
  induction l generalizing candidate with
  | nil => exact hc
  | cons c cs ih =>
    have hend := hends c mem_cons_self
    have htail := fun c hc => hends c (mem_cons_of_mem _ hc)
    simp only [gapLoop]
    split_ifs
    · exact hzero
    · exact hend
    · exact ih htail hend
    · exact hzero
    · exact hc
    · exact ih htail hc

theorem gapLoop_lt (length alignment : Nat) (hl : Layout (l.map region)) (hc : candidate < 2 ^ 64) :
    gapLoop region length alignment candidate l < 2 ^ 64 := by
  refine gapLoop_invariant (P := (· < 2 ^ 64)) (by decide) length alignment (fun c hmem => ?_) hc
  exact alignUp_lt alignment (hl.valid _ (mem_map_of_mem hmem)).fits

theorem alignUp_page (value : Nat) : alignUp value pageBytes % pageBytes = 0 := by
  unfold alignUp
  exact Nat.mul_mod_left _ _

theorem findGap_aligned [RegionIndex Ix] (s : Store Ix) (pid : Pid) (minAddr maxAddr length : Nat) :
    s.findGap pid minAddr maxAddr length pageBytes % pageBytes = 0 := by
  unfold findGap
  rcases s.vmaRoot pid with _ | t
  · rfl
  have haligned := gapLoop_invariant (P := (· % pageBytes = 0)) rfl length pageBytes
    (fun c (_ : c ∈ s.regionIds t) => alignUp_page (s.region c).virtEnd) (alignUp_page minAddr)
  dsimp only
  split_ifs
  · rfl
  · rfl
  · exact haligned

/-- A gap that was found lies below `2 ^ 64`. -/
theorem findGap_fits [RegionIndex Ix] {s : Store Ix} {pid : Pid} {minAddr maxAddr length alignment gap : Nat}
    (hl : ∀ t, Layout (s.listed t)) (hmin : minAddr < 2 ^ 64) (hlen : length < 2 ^ 64)
    (h : s.findGap pid minAddr maxAddr length alignment = gap) (hne : gap ≠ 0) :
    minAddr ≤ gap ∧ gap + length < 2 ^ 64 ∧ gap + length ≤ maxAddr := by
  unfold findGap at h
  rcases ht : s.vmaRoot pid with _ | t
  · simp [ht] at h; omega
  have hlt := gapLoop_lt length alignment (hl t) (alignUp_lt alignment hmin)
  simp only [ht] at h
  split_ifs at h with h1 h2
  · omega
  · omega
  · simp only [add64] at h2
    omega

end Store

end LimitlessOS.Vma
