/-
  LimitlessOS.Vma.ListedStore — the region store over plain lists, and its invariant.

  `Store.Ok` is what every operation of the VMA layer keeps: each tree's regions are a
  layout, no region is in two trees, listed regions are in use, the totals are those of
  the list, and trees and processes name each other. A region that a caller has acquired
  and not linked is `Owned`; only such a region is prepared, inserted or released.

  For every function of `LimitlessOS.Vma.Store`: what it does to such a store (a lemma
  `…_eq` or `…_spec`), and that it keeps `Ok`.
-/
import LimitlessOS.Vma.IndexRefinement

namespace LimitlessOS.Vma

open Function RegionIndex Region Store Option
open List hiding length insert map_map drop

namespace Store

/-- The invariant of the region store. -/
structure Ok (s : Store Listing) : Prop where
  separated : Listing.Separated s.index.regions
  layout : ∀ t, Layout (s.listed t)
  used : ∀ t, ∀ r ∈ s.regionIds t, s.used r = true
  used_lt : ∀ r, s.used r = true → r < maxStaticRegions
  unused : ∀ r, s.used r = false → s.region r = .cleared
  count : ∀ t, (s.totals t).regionCount = (s.regionIds t).length
  bytes : ∀ t, (s.totals t).mappedBytes = ((s.listed t).map length).sum
  root : ∀ pid t, s.vmaRoot pid = some t ↔ s.treePid t = pid ∧ pid ≠ invalidPid
  free : ∀ t, s.treePid t = invalidPid → s.regionIds t = [] ∧ s.totals t = .cleared
  range : ∀ t, s.treePid t ≠ invalidPid → t < maxProcessTrees

/-- In no tree. -/
def Loose (s : Store Listing) (r : RegionId) : Prop := ∀ t, r ∉ s.regionIds t

/-- Acquired by a caller and not linked. -/
structure Owned (s : Store Listing) (r : RegionId) : Prop where
  used : s.used r = true
  loose : s.Loose r
  fits : (s.region r).virtEnd < 2 ^ 64

variable {s : Store Listing}

theorem ok_boot : (boot Listing.boot).Ok where
  separated := ⟨fun _ => nodup_nil, fun _ _ _ h => (not_mem_nil h).elim, fun _ _ h => (not_mem_nil h).elim⟩
  layout _ := Layout.nil
  used _ _ h := (not_mem_nil h).elim
  used_lt _ h := by cases h
  unused _ _ := rfl
  count _ := rfl
  bytes _ := rfl
  root pid t := by simp [boot, eq_comm]
  free _ _ := ⟨rfl, rfl⟩
  range _ h := (h rfl).elim

theorem Ok.loose_of_unused (h : s.Ok) {r : RegionId} (hr : s.used r = false) : s.Loose r := fun t hm => by
  simp [h.used t r hm] at hr

/-- Changing the records of regions in no tree changes no tree. -/
theorem listed_congr {s s' : Store Listing} (hix : s'.index = s.index)
    (hreg : ∀ t, ∀ r ∈ s.regionIds t, s'.region r = s.region r) (t : TreeId) : s'.listed t = s.listed t := by
  simp only [listed, regionIds, hix]
  exact map_congr_left fun r hr => hreg t r hr

/-- `Ok` depends on the records of listed regions only, and on `used` not losing them. -/
theorem Ok.congr {s' : Store Listing} (h : s.Ok) (hix : s'.index = s.index)
    (hreg : ∀ t, ∀ r ∈ s.regionIds t, s'.region r = s.region r) (hused : ∀ t, ∀ r ∈ s.regionIds t, s'.used r)
    (hlt : ∀ r, s'.used r → r < maxStaticRegions) (hun : ∀ r, s'.used r = false → s'.region r = .cleared)
    (htot : s'.totals = s.totals) (hpid : s'.treePid = s.treePid) (hroot : s'.vmaRoot = s.vmaRoot) : s'.Ok := by
  have hids : ∀ t, s'.regionIds t = s.regionIds t := fun t => by simp only [regionIds, hix]
  have hl := listed_congr hix hreg
  exact {
    separated := by rw [hix]; exact h.separated
    layout := fun t => by rw [hl]; exact h.layout t
    used := fun t r hr => hused t r (hids t ▸ hr)
    used_lt := hlt
    unused := hun
    count := fun t => by rw [htot, hids]; exact h.count t
    bytes := fun t => by rw [htot, hl]; exact h.bytes t
    root := fun pid t => by rw [hroot, hpid]; exact h.root pid t
    free := fun t ht => by rw [hids, htot]; exact h.free t (hpid ▸ ht)
    range := fun t ht => h.range t (hpid ▸ ht) }

variable {address : Nat} {pid : Pid} {Ix : Type} {t : TreeId} {r z : RegionId} {d : Region} {l : List RegionId}
  {budget : Option Nat}

theorem Loose.ne (hr : s.Loose r) (hz : z ∈ s.regionIds t) : z ≠ r := fun e => hr t (e ▸ hz)

theorem Ok.treePid_ne (h : s.Ok) (ht : s.vmaRoot pid = some t) : s.treePid t ≠ invalidPid := by
  obtain ⟨hp, hne⟩ := (h.root pid t).1 ht
  rwa [hp]

/-! ## Acquiring, preparing and releasing regions -/

theorem freeRegion_some {s : Store Ix} (h : s.freeRegion = some r) :
    s.used r = false ∧ r < maxStaticRegions := by
  unfold freeRegion at h
  exact ⟨by simpa using find?_some h, mem_range.1 (mem_of_find?_eq_some h)⟩

theorem freeRegion_none {s : Store Ix} (h : s.freeRegion = none) : ∀ r < maxStaticRegions, s.used r := by
  unfold freeRegion at h
  intro r hr
  simpa using find?_eq_none.1 h r (mem_range.2 hr)

theorem freeTree_some {s : Store Ix} (h : s.freeTree = some t) :
    s.treePid t = invalidPid ∧ t < maxProcessTrees := by
  exact ⟨by simpa using find?_some h, mem_range.1 (mem_of_find?_eq_some h)⟩

theorem freeTree_none {s : Store Ix} (h : s.freeTree = none) : ∀ t < maxProcessTrees, s.treePid t ≠ invalidPid := by
  intro t ht
  simpa using find?_eq_none.1 h t (mem_range.2 ht)

theorem regionAcquire_spec (s : Store Listing) :
    (∃ r, s.regionAcquire = (some r, { s with
        used := update s.used r true, region := update s.region r .cleared }) ∧
      s.used r = false ∧ r < maxStaticRegions) ∨
    (s.regionAcquire = (none, s) ∧ ∀ r < maxStaticRegions, s.used r) := by
  cases hf : s.freeRegion with
  | none => exact .inr ⟨regionAcquire_none hf, freeRegion_none hf⟩
  | some r => exact .inl ⟨r, regionAcquire_some hf, freeRegion_some hf⟩

/-- The store after `regionAcquire` has answered `r`. -/
def grabbed (s : Store Listing) (r : RegionId) : Store Listing :=
  { s with used := update s.used r true, region := update s.region r .cleared }

theorem regionRelease_eq (s : Store Listing) (r : RegionId) :
    s.regionRelease r =
      { s with used := update s.used r false, region := update s.region r .cleared } := rfl

theorem regionPrepare_eq (s : Store Listing) (r : RegionId) (d : Region) :
    s.regionPrepare r d =
      if rangeValid d.virtBase d.virtEnd ∧ d.vmaToken ≠ invalidToken then (true, s.setRegion r d) else (false, s) := by
  unfold regionPrepare
  split_ifs with h1 h2 h2
  · simp_all
  · rfl
  · rfl
  · simp_all

@[simp] theorem regionIds_setRegion (r : RegionId) (d : Region) : (s.setRegion r d).regionIds = s.regionIds := rfl

@[simp] theorem setRegion_region_self (s : Store Listing) (r : RegionId) (d : Region) :
    (s.setRegion r d).region r = d := by simp [setRegion]

/-- A slot that is in no tree may be taken or given back, with a cleared record. -/
theorem Ok.clearSlot (h : s.Ok) (hr : s.Loose r) {b : Bool} (hlt : b → r < maxStaticRegions) :
    ({ s with used := update s.used r b, region := update s.region r .cleared } : Store Listing).Ok := by
  refine h.congr rfl (fun t z hz => ?_) (fun t z hz => ?_) (fun z hz => ?_) (fun z hz => ?_) rfl rfl rfl
  · simp [hr.ne hz]
  · simp [hr.ne hz, h.used t z hz]
  · by_cases hzr : z = r
    · exact hzr ▸ hlt (by simpa [hzr] using hz)
    · exact h.used_lt z (by simpa [hzr] using hz)
  · by_cases hzr : z = r
    · simp [hzr]
    · simpa [hzr] using h.unused z (by simpa [hzr] using hz)

section

variable (h : s.Ok) (hr : s.used r = false)
include h hr

theorem Ok.grabbed (hlt : r < maxStaticRegions) : (s.grabbed r).Ok :=
  h.clearSlot (h.loose_of_unused hr) fun _ => hlt

theorem Ok.listed_grabbed : (t : TreeId) → (s.grabbed r).listed t = s.listed t :=
  listed_congr rfl fun _ _ hz => update_of_ne ((h.loose_of_unused hr).ne hz) ..

theorem Ok.owned_grabbed : (s.grabbed r).Owned r :=
  ⟨by simp [Store.grabbed], h.loose_of_unused hr, by simp [Store.grabbed, cleared]⟩

end

/-- What a caller of `regionAcquire` knows afterwards. -/
structure Acquired (s s' : Store Listing) (r : RegionId) : Prop where
  ok : s'.Ok
  owned : s'.Owned r
  others : ∀ z, s.Owned z → s'.Owned z ∧ z ≠ r
  ids : s'.regionIds = s.regionIds
  listed : ∀ t, ∀ z ∈ s.regionIds t, s'.region z = s.region z
  root : s'.vmaRoot = s.vmaRoot

theorem Ok.acquired (h : s.Ok) (hr : s.regionAcquire.1 = some r) : Acquired s s.regionAcquire.2 r := by
  obtain ⟨z, heq, hunused, hlt⟩ | ⟨heq, -⟩ := regionAcquire_spec s
  · obtain rfl : z = r := by
      rw [heq] at hr
      exact some.inj hr
    rw [heq]
    refine ⟨h.grabbed hunused hlt, h.owned_grabbed hunused, fun w hw => ?_, rfl, fun t w hw => ?_, rfl⟩
    · have hne : w ≠ z := by
        rintro rfl
        simp [hw.used] at hunused
      exact ⟨⟨by simp [hne, hw.used], hw.loose, by simpa [hne] using hw.fits⟩, hne⟩
    · exact update_of_ne ((h.loose_of_unused hunused).ne hw) ..
  · simp [heq] at hr

theorem Ok.regionRelease (h : s.Ok) (hr : s.Loose r) : (s.regionRelease r).Ok := h.clearSlot hr fun hb => by cases hb

theorem Owned.regionRelease (hz : s.Owned z) (hne : z ≠ r) : (s.regionRelease r).Owned z :=
  ⟨by simp [regionRelease_eq, hne, hz.used], hz.loose, by simpa [regionRelease_eq, hne] using hz.fits⟩

theorem Owned.setRegion (hz : s.Owned z) (hne : z ≠ r) (d : Region) : (s.setRegion r d).Owned z :=
  ⟨hz.used, hz.loose, by simpa [Store.setRegion, hne] using hz.fits⟩

theorem Owned.prepared (hr : s.Owned r) (hd : d.virtEnd < 2 ^ 64) : (s.setRegion r d).Owned r :=
  ⟨hr.used, hr.loose, by simpa [setRegion] using hd⟩

/-- Only a region in use has a record worth reading. -/
theorem Ok.setRegion_unused (h : s.Ok) (hr : s.used r) (d : Region)
    (hz : s.used z = false) : (s.setRegion r d).region z = .cleared := by
  have hzr : z ≠ r := by
    rintro rfl
    simp [hr] at hz
  simpa [setRegion, hzr] using h.unused z hz

/-- Writing the record of a region in no tree changes no list. -/
theorem Owned.listed_setRegion (hr : s.Owned r) (d : Region) : (t : TreeId) → (s.setRegion r d).listed t = s.listed t :=
  listed_congr rfl fun _ _ hz => update_of_ne (hr.loose.ne hz) ..

theorem Ok.setRegion_owned (h : s.Ok) (hr : s.Owned r) (d : Region) : (s.setRegion r d).Ok :=
  h.congr rfl (fun _ _ hz => update_of_ne (hr.loose.ne hz) ..) h.used h.used_lt
    (fun _ hz => h.setRegion_unused hr.used d hz) rfl rfl rfl

/-! ## Another list for a tree -/

/-- The store with the list `l` and the totals `d` for the tree `t`. -/
def withTree (s : Store Listing) (t : TreeId) (d : Totals) (l : List RegionId) : Store Listing :=
  { s.setTotals t d with index := ⟨update s.index.regions t l⟩ }

theorem regionIds_withTree (t t' : TreeId) (d : Totals) (l : List RegionId) :
    (s.withTree t d l).regionIds t' = if t' = t then l else s.regionIds t' := by
  by_cases h : t' = t <;> simp [withTree, regionIds, regions, h]

theorem listed_withTree (t t' : TreeId) (d : Totals) (l : List RegionId) :
    (s.withTree t d l).listed t' = if t' = t then l.map s.region else s.listed t' := by
  simp only [listed, regionIds_withTree]
  split_ifs <;> rfl

/-- A tree that a process holds may get a list of its own and loose regions, and the totals of that list. -/
theorem Ok.withTree (h : s.Ok) {d : Totals} (ht : s.treePid t ≠ invalidPid) (hnodup : l.Nodup)
    (hmem : ∀ z ∈ l, s.used z ∧ ∀ t', z ∈ s.regionIds t' → t' = t) (hlayout : Layout (l.map s.region))
    (hcount : d.regionCount = l.length) (hbytes : d.mappedBytes = ((l.map s.region).map length).sum) :
    (s.withTree t d l).Ok := by
  have hids := fun t' => regionIds_withTree (s := s) t t' d l
  have htotals : ∀ t', (s.withTree t d l).totals t' = if t' = t then d else s.totals t' :=
    fun t' => update_apply ..
  have hused : ∀ t', ∀ z ∈ (s.withTree t d l).regionIds t', s.used z := by
    intro t' z hz
    rw [hids] at hz
    split_ifs at hz
    · exact (hmem z hz).1
    · exact h.used t' z hz
  refine ⟨⟨fun t' => ?_, fun t1 t2 z h1 h2 => ?_, fun t' z hz => h.used_lt z (hused t' z hz)⟩, fun t' => ?_, hused, h.used_lt,
    h.unused, fun t' => ?_, fun t' => ?_, h.root, fun t' ht' => ?_, h.range⟩
  · show ((s.withTree t d l).regionIds t').Nodup
    rw [hids]
    split_ifs
    · exact hnodup
    · exact h.separated.nodup t'
  · replace h1 : z ∈ (s.withTree t d l).regionIds t1 := h1
    replace h2 : z ∈ (s.withTree t d l).regionIds t2 := h2
    rw [hids] at h1 h2
    split_ifs at h1 h2 with ht1 ht2 ht2
    · rw [ht1, ht2]
    · exact ht1.trans ((hmem z h1).2 t2 h2).symm
    · exact ((hmem z h2).2 t1 h1).trans ht2.symm
    · exact h.separated.apart t1 t2 z h1 h2
  · rw [listed_withTree]
    split_ifs
    · exact hlayout
    · exact h.layout t'
  · rw [hids, htotals]
    split_ifs
    · exact hcount
    · exact h.count t'
  · rw [listed_withTree, htotals]
    split_ifs
    · exact hbytes
    · exact h.bytes t'
  · have htt : t' ≠ t := fun e => ht (e ▸ ht')
    rw [hids, htotals, if_neg htt, if_neg htt]
    exact h.free t' ht'

/-! ## Inserting -/

/-- The store after `r` has been linked into tree `t`, whose list is now `l`. -/
def inserted (s : Store Listing) (t : TreeId) (r : RegionId) (l : List RegionId) : Store Listing :=
  { s.setTotals t { s.totals t with
      regionCount := (s.totals t).regionCount + 1
      peakRegionCount := max (s.totals t).peakRegionCount ((s.totals t).regionCount + 1)
      mappedBytes := (s.totals t).mappedBytes + (s.region r).length
      peakMappedBytes := max (s.totals t).peakMappedBytes ((s.totals t).mappedBytes + (s.region r).length) } with
    index := ⟨update s.index.regions t l⟩ }

/-- Whether the budget lets a tree take `d` on top of what it maps. -/
def budgetAllows (s : Store Listing) (budget : Option Nat) (t : TreeId) (d : Region) : Bool :=
  budgetCheck budget (pages32 (s.totals t).mappedBytes) (pages32 d.length)

/-- `l` is tree `t` with `r` in its place. -/
structure Fits (s : Store Listing) (t : TreeId) (r : RegionId) (l : List RegionId) : Prop where
  split : ∃ a b, s.regionIds t = a ++ b ∧ l = a ++ r :: b ∧
    (∀ x ∈ a, (s.region x).Before (s.region r)) ∧ ∀ y ∈ b, (s.region r).Before (s.region y)

theorem insertBefore_split {a b : List RegionId} (hnd : (a ++ b).Nodup) :
    Listing.insertBefore b.head? r (a ++ b) = a ++ r :: b := by
  induction a with
  | nil =>
    cases b with
    | nil => rfl
    | cons y ys => simp [Listing.insertBefore]
  | cons x xs ih =>
    have hne : some x ≠ b.head? := by
      intro heq
      have hmem := mem_of_head? heq.symm
      exact (nodup_cons.1 hnd).1 (by simp [hmem])
    simp only [cons_append, Listing.insertBefore, hne, if_false]
    rw [ih (nodup_cons.1 hnd).2]

theorem insert_spec (h : s.Ok) (ht : s.vmaRoot pid = some t) (hd : (s.region r).Valid) :
    (∃ l, s.insert budget pid r = (true, s.inserted t r l) ∧ s.Fits t r l ∧ s.budgetAllows budget t (s.region r)) ∨
    (s.insert budget pid r = (false, s) ∧
      ((∃ x ∈ s.regionIds t, rangesOverlap (s.region r).virtBase (s.region r).virtEnd
          (s.region x).virtBase (s.region x).virtEnd) ∨
        s.budgetAllows budget t (s.region r) = false)) := by
  have hunlinked : linked s.index r = false := rfl
  simp only [insert, ht, hd.range, hunlinked, Bool.not_true, Bool.false_or, Bool.false_eq_true, if_false]
  rcases hp : insertPoint s.region (s.region r) none (s.regionIds t) with _ | ⟨previous, cursor⟩
  · exact .inr ⟨rfl, .inl ((insertPoint_none (h.layout t)).1 hp)⟩
  obtain ⟨a, b, hsplit, -, rfl, ha, hb⟩ := insertPoint_some (h.layout t) hd hp
  by_cases hbud : s.budgetAllows budget t (s.region r)
  · left
    have hnd : (a ++ b).Nodup := hsplit ▸ h.separated.nodup t
    have hadd : add s.index s.base t r previous b.head? =
        (true, (⟨update s.index.regions t (a ++ r :: b)⟩ : Listing)) := by
      have hids : s.index.regions t = a ++ b := hsplit
      simp only [add, hids, insertBefore_split hnd]
    refine ⟨a ++ r :: b, ?_, ⟨a, b, hsplit, rfl, ha, hb⟩, hbud⟩
    simp only [budgetAllows] at hbud
    simp only [hbud, Bool.not_true, Bool.false_eq_true, if_false, hadd]
    rfl
  · right
    simp only [budgetAllows, Bool.not_eq_true] at hbud
    simp only [hbud, Bool.not_false, if_true, budgetAllows]
    exact ⟨trivial, .inr trivial⟩

/-- A refused insertion changes nothing. -/
theorem insert_refused (h : (s.insert budget pid r).1 = false) :
    (s.insert budget pid r).2 = s := by
  simp only [insert, add] at h ⊢
  repeat' split at h
  all_goals simp_all

theorem regionIds_inserted (t t' : TreeId) (r : RegionId) (l : List RegionId) :
    (s.inserted t r l).regionIds t' = if t' = t then l else s.regionIds t' := regionIds_withTree ..

theorem listed_inserted (t t' : TreeId) (r : RegionId) (l : List RegionId) :
    (s.inserted t r l).listed t' = if t' = t then l.map s.region else s.listed t' := listed_withTree ..

theorem Fits.perm (h : s.Fits t r l) : l.Perm (r :: s.regionIds t) := by
  obtain ⟨a, b, hsplit, rfl, -, -⟩ := h.split
  rw [hsplit]
  exact perm_middle

theorem Fits.layout (h : s.Fits t r l) (hok : s.Ok)
    (hd : (s.region r).Valid) : Layout (l.map s.region) := by
  obtain ⟨a, b, hsplit, rfl, ha, hb⟩ := h.split
  have hl := hok.layout t
  rw [listed, hsplit, map_append] at hl
  rw [map_append, map_cons]
  refine hl.insert hd ?_ ?_
  · simpa using ha
  · simpa using hb

theorem Ok.inserted (h : s.Ok) (hr : s.Owned r) (hd : (s.region r).Valid) (hf : s.Fits t r l)
    (ht : s.treePid t ≠ invalidPid) : (s.inserted t r l).Ok := by
  refine h.withTree ht (hf.perm.nodup_iff.2 (nodup_cons.2 ⟨hr.loose t, h.separated.nodup t⟩)) (fun z hz => ?_)
    (hf.layout h hd) ?_ ?_
  · rcases mem_cons.1 (hf.perm.mem_iff.1 hz) with rfl | hz
    · exact ⟨hr.used, fun t' hz => absurd hz (hr.loose t')⟩
    · exact ⟨h.used t z hz, fun t' hz' => h.separated.apart t' t z hz' hz⟩
  · simp [hf.perm.length_eq, h.count t]
  · have hsum := ((hf.perm.map s.region).map length).sum_eq
    rw [hsum]
    exact (congrArg (· + (s.region r).length) (h.bytes t)).trans (Nat.add_comm ..)

/-- What `place` does with an owned region: link the new record in its place, or leave every tree alone. -/
theorem place_spec (h : s.Ok) (budget : Option Nat)
    (ht : s.vmaRoot pid = some t) (hr : s.Owned r) (hfits : d.virtEnd < 2 ^ 64) :
    (∃ l, s.place budget pid r d = (true, (s.setRegion r d).inserted t r l) ∧ d.Valid ∧ (s.setRegion r d).Fits t r l ∧
      s.budgetAllows budget t d) ∨ (∃ s', s.place budget pid r d = (false, s') ∧ (s' = s ∨ s' = s.setRegion r d) ∧
      (¬ (rangeValid d.virtBase d.virtEnd ∧ d.vmaToken ≠ invalidToken) ∨
        (∃ x ∈ s.regionIds t, rangesOverlap d.virtBase d.virtEnd (s.region x).virtBase (s.region x).virtEnd) ∨
        s.budgetAllows budget t d = false)) := by
  simp only [place, regionPrepare_eq]
  split
  · rename_i hv
    have hvalid : d.Valid := ⟨hv.1, hfits⟩
    have hval : ((s.setRegion r d).region r).Valid := by rwa [setRegion_region_self]
    obtain ⟨l, hins, hfit, hbud⟩ | ⟨hins, hwhy⟩ := insert_spec (h.setRegion_owned hr d) ht hval
    · rw [setRegion_region_self] at hbud
      exact .inl ⟨l, hins, hvalid, hfit, hbud⟩
    rw [setRegion_region_self] at hwhy
    refine .inr ⟨_, hins, .inr rfl, .inr ?_⟩
    obtain ⟨x, hx, hover⟩ | hbud := hwhy
    · rw [show (s.setRegion r d).region x = s.region x from update_of_ne (hr.loose.ne hx) ..] at hover
      exact .inl ⟨x, hx, hover⟩
    · exact .inr hbud
  · rename_i hv
    exact .inr ⟨s, rfl, .inl rfl, .inl hv⟩

theorem Ok.placed (h : s.Ok)
    (ht : s.vmaRoot pid = some t) (hr : s.Owned r) (hd : d.Valid) (hf : (s.setRegion r d).Fits t r l) :
    ((s.setRegion r d).inserted t r l).Ok :=
  (h.setRegion_owned hr d).inserted (hr.prepared hd.fits) (by rwa [setRegion_region_self]) hf (h.treePid_ne ht)

/-- Placing an owned region adds its new record to one list. -/
theorem Owned.listed_placed (hr : s.Owned r) (hf : (s.setRegion r d).Fits t r l) :
    (∃ before after, s.listed t = before ++ after ∧ ((s.setRegion r d).inserted t r l).listed t = before ++ d :: after) ∧
      ∀ t', t' ≠ t → ((s.setRegion r d).inserted t r l).listed t' = s.listed t' := by
  have hmap : ∀ ids : List RegionId, (∀ z ∈ ids, z ≠ r) → ids.map (s.setRegion r d).region = ids.map s.region := by
    intro ids hids
    refine map_congr_left fun z hz => ?_
    simp [Store.setRegion, hids z hz]
  constructor
  · obtain ⟨a, b, hsplit, rfl, -, -⟩ := hf.split
    have hsplit' : s.regionIds t = a ++ b := hsplit
    refine ⟨a.map s.region, b.map s.region, by rw [listed, hsplit', map_append], ?_⟩
    rw [listed_inserted, if_pos rfl, map_append, map_cons, setRegion_region_self,
      hmap a fun z hz => hr.loose.ne (t := t) (by simp [hsplit', hz]),
      hmap b fun z hz => hr.loose.ne (t := t) (by simp [hsplit', hz])]
  · intro t' htt
    rw [listed_inserted, if_neg htt]
    exact hmap _ fun _ hz => hr.loose.ne hz

theorem Owned.inserted (hz : s.Owned z) (hne : z ≠ r)
    (hf : s.Fits t r l) : (s.inserted t r l).Owned z := by
  refine ⟨hz.used, fun t' hm => ?_, hz.fits⟩
  rw [regionIds_inserted] at hm
  split_ifs at hm with htt
  · obtain rfl | hm := mem_cons.1 (hf.perm.mem_iff.1 hm)
    · exact hne rfl
    · exact hz.loose t hm
  · exact hz.loose t' hm

/-- What a caller of `place` knows afterwards. -/
structure Placed (s s' : Store Listing) (pid : Pid) (r : RegionId) (d : Region) (placed : Bool) : Prop where
  root : s'.vmaRoot = s.vmaRoot
  used : s'.used = s.used
  region : ∀ z, z ≠ r → s'.region z = s.region z
  ids : ∀ t, ∀ z ∈ s.regionIds t, z ∈ s'.regionIds t
  others : ∀ z, z ≠ r → s.Owned z → s'.Owned z
  linked : placed = true → ∃ t, s.vmaRoot pid = some t ∧ r ∈ s'.regionIds t ∧ s'.region r = d
  refused : placed = false → s'.Owned r

theorem Ok.place (h : s.Ok) (budget : Option Nat) (pid : Pid) (hr : s.Owned r)
    (hfits : d.virtEnd < 2 ^ 64) :
    Placed s (s.place budget pid r d).2 pid r d (s.place budget pid r d).1 := by
  have hkeep : ∀ s', s' = s ∨ s' = s.setRegion r d → Placed s s' pid r d false := by
    rintro s' (rfl | rfl)
    · exact ⟨rfl, rfl, fun _ _ => rfl, fun _ _ hz => hz, fun _ _ hz => hz, by simp, fun _ => hr⟩
    · exact ⟨rfl, rfl, fun z hz => by simp [setRegion, hz], fun _ _ hz => hz, fun _ hne hz => hz.setRegion hne d, by simp,
        fun _ => hr.prepared hfits⟩
  cases ht : s.vmaRoot pid with
  | none =>
    by_cases hv : rangeValid d.virtBase d.virtEnd ∧ d.vmaToken ≠ invalidToken
    · have hroot : (s.setRegion r d).vmaRoot pid = none := ht
      simp only [Store.place, regionPrepare_eq, if_pos hv, if_true, Store.insert, hroot]
      exact hkeep _ (.inr rfl)
    · simp only [Store.place, regionPrepare_eq, if_neg hv, Bool.false_eq_true, if_false]
      exact hkeep _ (.inl rfl)
  | some t =>
    obtain ⟨l, heq, -, hf, -⟩ | ⟨s', heq, hs', -⟩ := place_spec h budget ht hr hfits
    · rw [heq]
      refine ⟨rfl, rfl, fun z hz => ?_, fun t' z hz => ?_, fun z hne hz => (hz.setRegion hne d).inserted hne hf,
        fun _ => ⟨t, ht, ?_, ?_⟩, by simp⟩
      · simp [Store.inserted, setTotals, setRegion, hz]
      · rw [regionIds_inserted]
        split_ifs with htt
        · exact hf.perm.mem_iff.2 (mem_cons_of_mem _ (htt ▸ hz))
        · exact hz
      · rw [regionIds_inserted, if_pos rfl]
        exact hf.perm.mem_iff.2 (by simp)
      · exact setRegion_region_self s r d
    · rw [heq]
      exact hkeep s' hs'

/-! ## Removing -/

theorem regionIds_detachRegion (t t' : TreeId) (r : RegionId) :
    (s.detachRegion t r).regionIds t' = if t' = t then (s.regionIds t).erase r else s.regionIds t' := regionIds_withTree ..

theorem listed_detachRegion (t t' : TreeId) (r : RegionId) :
    (s.detachRegion t r).listed t' = if t' = t then ((s.regionIds t).erase r).map s.region else s.listed t' :=
  listed_withTree ..

theorem remove_spec (s : Store Listing) (virtBase virtEnd : Nat) (ht : s.vmaRoot pid = some t) :
    (∃ r, s.remove pid virtBase virtEnd = (some r, s.detachRegion t r) ∧ r ∈ s.regionIds t ∧
      (s.region r).virtBase = virtBase ∧ (s.region r).virtEnd = virtEnd) ∨
    (s.remove pid virtBase virtEnd = (none, s) ∧ (rangeValid virtBase virtEnd →
      ∀ r ∈ s.regionIds t, ¬ ((s.region r).virtBase = virtBase ∧ (s.region r).virtEnd = virtEnd))) := by
  simp only [remove, ht]
  by_cases hv : rangeValid virtBase virtEnd
  · simp only [hv, Bool.not_true, Bool.false_eq_true, if_false, forall_const]
    split
    · rename_i hnone
      refine .inr ⟨rfl, fun r hr => ?_⟩
      simpa using find?_eq_none.1 hnone r hr
    · rename_i r hsome
      left
      have hr := find?_some hsome
      exact ⟨r, rfl, mem_of_find?_eq_some hsome, by simpa using hr⟩
  · simp [hv]

theorem remove_some {virtBase virtEnd : Nat} (h : (s.remove pid virtBase virtEnd).1 = some r) :
    ∃ t, s.vmaRoot pid = some t ∧ r ∈ s.regionIds t ∧ (s.remove pid virtBase virtEnd).2 = s.detachRegion t r := by
  rcases ht : s.vmaRoot pid with _ | t
  · simp [remove, ht] at h
  obtain ⟨z, heq, hz, -⟩ | ⟨heq, -⟩ := remove_spec s virtBase virtEnd ht
  · rw [heq] at h ⊢
    obtain rfl := some.inj h
    exact ⟨t, rfl, hz, rfl⟩
  · simp [heq] at h

theorem Ok.loose_detachRegion (h : s.Ok) (hr : r ∈ s.regionIds t) :
    (s.detachRegion t r).Loose r := by
  intro t' hm
  rw [regionIds_detachRegion] at hm
  split_ifs at hm with htt
  · exact (h.separated.nodup t).not_mem_erase hm
  · exact htt (h.separated.apart t' t r hm hr)

/-- A region taken out of a tree is its taker's. -/
theorem Ok.owned_detachRegion (h : s.Ok) (hr : r ∈ s.regionIds t) :
    (s.detachRegion t r).Owned r :=
  ⟨h.used t r hr, h.loose_detachRegion hr, ((h.layout t).valid _ (mem_map_of_mem hr)).fits⟩

theorem Owned.detachRegion (hz : s.Owned z) (r : RegionId) : (s.detachRegion t r).Owned z := by
  refine ⟨hz.used, fun t' hm => ?_, hz.fits⟩
  rw [regionIds_detachRegion] at hm
  split_ifs at hm
  · exact hz.loose t (mem_of_mem_erase hm)
  · exact hz.loose t' hm

theorem Ok.detachRegion (h : s.Ok) (hr : r ∈ s.regionIds t) : (s.detachRegion t r).Ok := by
  have hsub : ((s.regionIds t).erase r).Sublist (s.regionIds t) := erase_sublist
  have ht : s.treePid t ≠ invalidPid := by
    intro ht
    rw [(h.free t ht).1] at hr
    exact not_mem_nil hr
  refine h.withTree ht ((h.separated.nodup t).sublist hsub) (fun z hz => ?_) ((h.layout t).sublist (hsub.map s.region)) ?_ ?_
  · exact ⟨h.used t z (hsub.subset hz), fun t' hz' => h.separated.apart t' t z hz' (hsub.subset hz)⟩
  · exact (congrArg (· - 1) (h.count t)).trans (length_erase_of_mem hr).symm
  have hsum := (((perm_cons_erase hr).map s.region).map length).sum_eq
  have hbytes := h.bytes t
  rw [listed, hsum] at hbytes
  exact (congrArg (· - (s.region r).length) hbytes).trans (Nat.add_sub_cancel_left ..)

/-! ## Finding -/

theorem find_eq (s : Store Listing) (ht : s.vmaRoot pid = some t) (address : Nat) :
    s.find pid address = (s.regionIds t).find? fun r => (s.region r).Contains address := by
  simp [find, ht, search, regionIds, regions]

theorem find_some (h : s.find pid address = some r) :
    ∃ t, s.vmaRoot pid = some t ∧ r ∈ s.regionIds t ∧ (s.region r).Contains address := by
  rcases ht : s.vmaRoot pid with _ | t
  · simp [find, ht] at h
  rw [find_eq s ht] at h
  exact ⟨t, rfl, mem_of_find?_eq_some h, by simpa using find?_some h⟩

theorem find_none (ht : s.vmaRoot pid = some t)
    (h : s.find pid address = none) : ∀ r ∈ s.regionIds t, ¬ (s.region r).Contains address := by
  rw [find_eq s ht] at h
  intro r hr
  simpa using find?_eq_none.1 h r hr

/-- An address lies in at most one region of a tree. -/
theorem Ok.eq_of_contains (h : s.Ok) {r r' : RegionId} (hr : r ∈ s.regionIds t)
    (hr' : r' ∈ s.regionIds t) (hc : (s.region r).Contains address) (hc' : (s.region r').Contains address) : r = r' := by
  by_contra hne
  have hord := pairwise_map.1 (h.layout t).ordered
  have hsym : (s.regionIds t).Pairwise fun a b =>
      (s.region a).Before (s.region b) ∨ (s.region b).Before (s.region a) := hord.imp .inl
  have hap := @Pairwise.forall _ _ _ ⟨fun _ _ => Or.symm⟩ hsym r hr r' hr' hne
  simp only [Before, Contains] at hap hc hc'
  omega

section

variable (h : s.Ok) (ht : s.vmaRoot pid = some t) (hr : r ∈ s.regionIds t)
include h ht hr

theorem Ok.find_of_contains (hc : (s.region r).Contains address) :
    s.find pid address = some r := by
  rcases hf : s.find pid address with _ | r'
  · exact absurd hc (find_none ht hf r hr)
  obtain ⟨t', ht', hr', hc'⟩ := find_some hf
  obtain rfl : t = t' := by rw [ht] at ht'; exact some.inj ht'
  rw [h.eq_of_contains hr' hr hc' hc]

/-- Removing a range takes out the region that has it. -/
theorem Ok.remove_eq {virtBase virtEnd : Nat} (hb : (s.region r).virtBase = virtBase) (he : (s.region r).virtEnd = virtEnd) :
    s.remove pid virtBase virtEnd = (some r, s.detachRegion t r) := by
  have hvalid : (s.region r).Valid := (h.layout t).valid _ (mem_map_of_mem hr)
  obtain ⟨z, heq, hz, hzb, hze⟩ | ⟨-, hno⟩ := remove_spec s virtBase virtEnd ht
  · have hcr : (s.region r).Contains virtBase := hb ▸ hvalid.contains_base
    have hcz : (s.region z).Contains virtBase := by
      rw [Contains, hzb, hze, ← he]
      exact ⟨le_rfl, hcr.2⟩
    obtain rfl := h.eq_of_contains hz hr hcz hcr
    exact heq
  · exact absurd ⟨hb, he⟩ (hno (hb ▸ he ▸ hvalid.range) r hr)

end

/-! ## Processes -/

theorem Ok.clearTree_free (h : s.Ok) (ht : s.treePid t = invalidPid) : s.clearTree t = s := by
  obtain ⟨hids, htot⟩ := h.free t ht
  have h1 : update s.totals t .cleared = s.totals := by
    rw [← htot, update_eq_self]
  have h2 : update s.index.regions t [] = s.index.regions := by
    have hids' : s.index.regions t = [] := hids
    rw [← hids', update_eq_self]
  simp only [clearTree, h1, clear, h2]

/-- The store after the free tree `t` has been attached to `pid`. -/
def attached (s : Store Listing) (pid : Pid) (t : TreeId) : Store Listing :=
  { s with treePid := update s.treePid t pid, vmaRoot := update s.vmaRoot pid (some t) }

theorem initProcess_spec (h : s.Ok) (known : Bool) (pid : Pid) :
    (s.initProcess known pid = (true, s) ∧ pid ≠ invalidPid ∧ (s.vmaRoot pid).isSome) ∨
    (∃ t, s.initProcess known pid = (true, s.attached pid t) ∧ pid ≠ invalidPid ∧ s.vmaRoot pid = none ∧
      s.treePid t = invalidPid ∧ t < maxProcessTrees ∧ known) ∨
    (s.initProcess known pid = (false, s) ∧ (pid = invalidPid ∨ s.vmaRoot pid = none ∧
      (known = false ∨ ∀ t < maxProcessTrees, s.treePid t ≠ invalidPid))) := by
  unfold initProcess
  by_cases hpid : pid = invalidPid
  · exact .inr (.inr ⟨if_pos hpid, .inl hpid⟩)
  rw [if_neg hpid]
  by_cases hroot : (s.vmaRoot pid).isSome
  · exact .inl ⟨if_pos hroot, hpid, hroot⟩
  rw [if_neg hroot]
  simp only [not_isSome_iff_eq_none] at hroot
  rcases hf : s.freeTree with _ | t
  · exact .inr (.inr ⟨rfl, .inr ⟨hroot, .inr (freeTree_none hf)⟩⟩)
  obtain ⟨htp, hlt⟩ := freeTree_some hf
  simp only [h.clearTree_free htp]
  cases known with
  | false => exact .inr (.inr ⟨rfl, .inr ⟨hroot, .inl rfl⟩⟩)
  | true => exact .inr (.inl ⟨t, rfl, hpid, hroot, htp, hlt, rfl⟩)

theorem Ok.attached (h : s.Ok) (hpid : pid ≠ invalidPid) (hroot : s.vmaRoot pid = none)
    (ht : s.treePid t = invalidPid) (hlt : t < maxProcessTrees) : (s.attached pid t).Ok := by
  refine ⟨h.separated, h.layout, h.used, h.used_lt, h.unused, h.count, h.bytes, fun p t' => ?_, fun t' ht' => ?_,
    fun t' ht' => ?_⟩
  · have hold := h.root p t'
    have hnew := h.root pid t'
    simp only [Store.attached, update_apply]
    grind
  · have htt : t' ≠ t := by
      rintro rfl
      simp [attached, hpid] at ht'
    exact h.free t' (by simpa [Store.attached, htt] using ht')
  · by_cases htt : t' = t
    · exact htt ▸ hlt
    · exact h.range t' (by simpa [Store.attached, htt] using ht')

/-- The store after `pid` has released all of its regions, the tree `t`. -/
def ended (s : Store Listing) (pid : Pid) (t : TreeId) : Store Listing :=
  ((s.regionIds t).foldl regionRelease s).releaseTree pid t

theorem ended_eq (s : Store Listing) (pid : Pid) (t : TreeId) :
    s.ended pid t =
      { region := fun z => if z ∈ s.regionIds t then .cleared else s.region z
        used := fun z => if z ∈ s.regionIds t then false else s.used z
        totals := update s.totals t .cleared
        treePid := update s.treePid t invalidPid
        vmaRoot := update s.vmaRoot pid none
        index := ⟨update s.index.regions t []⟩ } := by
  have hreset : ∀ (l : List RegionId) (ix : Listing), l.foldl reset ix = ix := fun l ix => by
    induction l with
    | nil => rfl
    | cons r l ih => exact ih
  simp only [ended, foldl_regionRelease, releaseTree, clearTree, hreset, clear]

theorem regionIds_ended (pid : Pid) (t t' : TreeId) :
    (s.ended pid t).regionIds t' = if t' = t then [] else s.regionIds t' := by
  rw [ended_eq]
  by_cases h : t' = t <;> simp [regionIds, regions, h]

theorem Owned.ended (hz : s.Owned z) (pid : Pid) (t : TreeId) : (s.ended pid t).Owned z := by
  refine ⟨by simpa [ended_eq, hz.loose t] using hz.used, fun t' hm => ?_, by simpa [ended_eq, hz.loose t] using hz.fits⟩
  rw [regionIds_ended] at hm
  split_ifs at hm
  · exact not_mem_nil hm
  · exact hz.loose t' hm

theorem Ok.listed_ended (h : s.Ok) (pid : Pid) (t t' : TreeId) :
    (s.ended pid t).listed t' = if t' = t then [] else s.listed t' := by
  simp only [listed, regionIds_ended]
  split_ifs with htt
  · rfl
  · refine map_congr_left fun r hr => ?_
    have hout : r ∉ s.regionIds t := fun hr' => htt (h.separated.apart t' t r hr hr')
    simp [ended_eq, hout]

theorem Ok.ended (h : s.Ok) (ht : s.vmaRoot pid = some t) : (s.ended pid t).Ok := by
  have hsub : ∀ t', ∀ z ∈ (s.ended pid t).regionIds t', z ∈ s.regionIds t' ∧ z ∉ s.regionIds t := by
    intro t' z hz
    rw [regionIds_ended] at hz
    split_ifs at hz with htt
    · exact (not_mem_nil hz).elim
    · exact ⟨hz, fun hz' => htt (h.separated.apart t' t z hz hz')⟩
  obtain ⟨htp, hpid⟩ := (h.root pid t).1 ht
  refine ⟨⟨fun t' => ?_, fun t1 t2 z h1 h2 => ?_, fun t' z hz => ?_⟩, fun t' => ?_, fun t' z hz => ?_, fun z hz => ?_,
    fun z hz => ?_, fun t' => ?_, fun t' => ?_, fun p t' => ?_, fun t' ht' => ?_, fun t' ht' => ?_⟩
  · show ((s.ended pid t).regionIds t').Nodup
    rw [regionIds_ended]
    split_ifs
    · exact nodup_nil
    · exact h.separated.nodup t'
  · exact h.separated.apart t1 t2 z (hsub t1 z h1).1 (hsub t2 z h2).1
  · exact h.separated.bound t' z (hsub t' z hz).1
  · rw [h.listed_ended]
    split_ifs
    · exact Layout.nil
    · exact h.layout t'
  · simpa [ended_eq, (hsub t' z hz).2] using h.used t' z (hsub t' z hz).1
  · refine h.used_lt z ?_
    by_cases hz' : z ∈ s.regionIds t <;> simp [ended_eq, hz'] at hz
    exact hz
  · by_cases hz' : z ∈ s.regionIds t
    · simp [ended_eq, hz']
    · simpa [ended_eq, hz'] using h.unused z (by simpa [ended_eq, hz'] using hz)
  · rw [regionIds_ended]
    by_cases htt : t' = t
    · simp [ended_eq, htt, Totals.cleared]
    · simpa [ended_eq, htt] using h.count t'
  · rw [h.listed_ended]
    by_cases htt : t' = t
    · simp [ended_eq, htt, Totals.cleared]
    · simpa [ended_eq, htt] using h.bytes t'
  · have hold := h.root p t'
    simp only [ended_eq, update_apply]
    grind
  · rw [regionIds_ended]
    by_cases htt : t' = t
    · simp [ended_eq, htt]
    · simpa [ended_eq, htt] using h.free t' (by simpa [ended_eq, htt] using ht')
  · by_cases htt : t' = t
    · simp [ended_eq, htt] at ht'
    · exact h.range t' (by simpa [ended_eq, htt] using ht')

/-! ## Undoing -/

section

variable (h : s.Ok) (hr : s.used r = false)
include h hr

theorem Ok.release_grabbed : (s.grabbed r).regionRelease r = s := by
  have h1 : update s.used r false = s.used := by rw [← hr, update_eq_self]
  have h2 : update s.region r .cleared = s.region := by rw [← h.unused r hr, update_eq_self]
  simp only [regionRelease_eq, Store.grabbed, update_idem, h1, h2]

theorem Ok.release_prepared (d : Region) :
    ((s.grabbed r).setRegion r d).regionRelease r = s := by
  have heq : ((s.grabbed r).setRegion r d).regionRelease r = (s.grabbed r).regionRelease r := by
    simp only [regionRelease_eq, setRegion, update_idem]
  rw [heq, h.release_grabbed hr]

/-- Only the peak totals remember a region that was linked and taken out again. -/
def peaked (s : Store Listing) (t : TreeId) (d : Region) : Store Listing :=
  s.setTotals t { s.totals t with
    peakRegionCount := max (s.totals t).peakRegionCount ((s.totals t).regionCount + 1)
    peakMappedBytes := max (s.totals t).peakMappedBytes ((s.totals t).mappedBytes + d.length) }

theorem Ok.release_inserted (hf : ((s.grabbed r).setRegion r d).Fits t r l) :
    ((((s.grabbed r).setRegion r d).inserted t r l).detachRegion t r).regionRelease r = s.peaked t d := by
  obtain ⟨a, b, hsplit, rfl, -, -⟩ := hf.split
  have hids : s.index.regions t = a ++ b := hsplit
  have hra : r ∉ a := by
    intro hm
    apply h.loose_of_unused hr t
    show r ∈ s.index.regions t
    rw [hids]
    exact mem_append_left b hm
  have herase : (a ++ r :: b).erase r = s.index.regions t := by
    rw [erase_append_right _ hra, erase_cons_head, hids]
  have h1 : update s.used r false = s.used := by rw [← hr, update_eq_self]
  have h2 : update s.region r .cleared = s.region := by rw [← h.unused r hr, update_eq_self]
  simp only [regionRelease_eq, Store.detachRegion, Store.inserted, Store.grabbed, setRegion, setTotals, peaked,
    drop, update_idem, update_self, herase, update_eq_self, h1, h2,
    Nat.add_sub_cancel]

end

/-! ## A new region -/

/-- The store with a new region `d` in the free slot `r` of tree `t`, whose list is now `l`. -/
def added (s : Store Listing) (t : TreeId) (r : RegionId) (d : Region) (l : List RegionId) : Store Listing :=
  ((s.grabbed r).setRegion r d).inserted t r l

/-- The slot is free and the tree has a place for the region. -/
structure Adds (s : Store Listing) (t : TreeId) (r : RegionId) (d : Region) (l : List RegionId) : Prop where
  unused : s.used r = false
  bound : r < maxStaticRegions
  valid : d.Valid
  fits : ((s.grabbed r).setRegion r d).Fits t r l

section

variable (ha : s.Adds t r d l) (h : s.Ok)
include ha h

theorem Adds.ok (ht : s.vmaRoot pid = some t) : (s.added t r d l).Ok :=
  (h.grabbed ha.unused ha.bound).placed ht (h.owned_grabbed ha.unused) ha.valid ha.fits

theorem Adds.perm : ((s.added t r d l).listed t).Perm (d :: s.listed t) := by
  obtain ⟨⟨before, after, hold, hnew⟩, -⟩ := (h.owned_grabbed ha.unused).listed_placed ha.fits
  rw [h.listed_grabbed ha.unused] at hold
  rw [added, hnew, hold]
  exact perm_middle

theorem Adds.others {t' : TreeId} (ht : t' ≠ t) :
    (s.added t r d l).listed t' = s.listed t' := by
  rw [added, ((h.owned_grabbed ha.unused).listed_placed ha.fits).2 t' ht, h.listed_grabbed ha.unused]

theorem Adds.remove (ht : s.vmaRoot pid = some t) :
    (((s.added t r d l).remove pid d.virtBase d.virtEnd).2).regionRelease r = s.peaked t d := by
  have hmem : r ∈ (s.added t r d l).regionIds t := by
    rw [added, regionIds_inserted, if_pos rfl]
    exact ha.fits.perm.mem_iff.2 mem_cons_self
  have hrec : (s.added t r d l).region r = d := setRegion_region_self _ r d
  have hrem : (s.added t r d l).remove pid d.virtBase d.virtEnd = (some r, (s.added t r d l).detachRegion t r) :=
    (ha.ok h ht).remove_eq ht hmem (by rw [hrec]) (by rw [hrec])
  rw [hrem]
  exact h.release_inserted ha.unused ha.fits

end

/-- What `place` does with a slot that has just been acquired: the region is added, or giving the slot back leaves
the store as it was. -/
theorem place_grabbed (h : s.Ok) (budget : Option Nat) (ht : s.vmaRoot pid = some t) (hr : s.used r = false)
    (hlt : r < maxStaticRegions) (hfits : d.virtEnd < 2 ^ 64) :
    (∃ l, (s.grabbed r).place budget pid r d = (true, s.added t r d l) ∧ s.Adds t r d l ∧
      s.budgetAllows budget t d) ∨ (∃ s', (s.grabbed r).place budget pid r d = (false, s') ∧ s'.regionRelease r = s ∧
      (¬ (rangeValid d.virtBase d.virtEnd ∧ d.vmaToken ≠ invalidToken) ∨
        (∃ x ∈ s.regionIds t, rangesOverlap d.virtBase d.virtEnd (s.region x).virtBase (s.region x).virtEnd) ∨
        s.budgetAllows budget t d = false)) := by
  have hown := h.owned_grabbed hr
  rcases place_spec (h.grabbed hr hlt) budget ht hown hfits with ⟨l, heq, hv, hf, hbud⟩ | ⟨s', heq, hs', hwhy⟩
  · exact .inl ⟨l, heq, ⟨hr, hlt, hv, hf⟩, hbud⟩
  refine .inr ⟨s', heq, ?_, ?_⟩
  · rcases hs' with rfl | rfl
    · exact h.release_grabbed hr
    · exact h.release_prepared hr d
  rcases hwhy with hbad | ⟨x, hx, hover⟩ | hbud
  · exact .inl hbad
  · have hrec : (s.grabbed r).region x = s.region x := update_of_ne (hown.loose.ne hx) ..
    rw [hrec] at hover
    exact .inr (.inl ⟨x, hx, hover⟩)
  · exact .inr (.inr hbud)

/-! ## Changes in place -/

/-- A listed region may change in anything but its bounds. -/
theorem Ok.setRegion_bounds (h : s.Ok) (hr : s.used r) (hb : d.virtBase = (s.region r).virtBase)
    (he : d.virtEnd = (s.region r).virtEnd) : (s.setRegion r d).Ok := by
  have hbounds : ∀ z, ((s.setRegion r d).region z).virtBase = (s.region z).virtBase ∧
      ((s.setRegion r d).region z).virtEnd = (s.region z).virtEnd := by
    intro z
    by_cases hz : z = r
    · subst hz
      simp [setRegion, hb, he]
    · simp [setRegion, hz]
  refine ⟨h.separated, fun t => ⟨?_, ?_⟩, h.used, h.used_lt, fun z hz => h.setRegion_unused hr d hz, h.count, fun t => ?_,
    h.root, h.free, h.range⟩
  · intro x hx
    obtain ⟨z, hz, rfl⟩ := mem_map.1 hx
    obtain ⟨hrange, hf⟩ := (h.layout t).valid (s.region z) (mem_map_of_mem hz)
    exact ⟨by rwa [(hbounds z).1, (hbounds z).2], by rwa [(hbounds z).2]⟩
  · refine pairwise_map.2 ((pairwise_map.1 (h.layout t).ordered).imp fun {a b} hab => ?_)
    simpa only [Before, hbounds] using hab
  · have hb' := h.bytes t
    simp only [listed, List.map_map] at hb' ⊢
    rw [show (s.setRegion r d).totals t = s.totals t from rfl, hb']
    refine congrArg sum (map_congr_left fun z _ => ?_)
    simp only [Function.comp_apply, length, hbounds]

/-- The break may move in a tree that a process holds. -/
theorem Ok.setTotals_brk (h : s.Ok) {d : Totals} (ht : s.treePid t ≠ invalidPid)
    (hc : d.regionCount = (s.totals t).regionCount) (hm : d.mappedBytes = (s.totals t).mappedBytes) :
    (s.setTotals t d).Ok := by
  have hsame : s.withTree t d (s.regionIds t) = s.setTotals t d := by
    simp only [Store.withTree, regionIds, regions, update_eq_self]
    rfl
  rw [← hsame]
  exact h.withTree ht (h.separated.nodup t) (fun z hz => ⟨h.used t z hz, fun t' hz' => h.separated.apart t' t z hz' hz⟩)
    (h.layout t) (hc.trans (h.count t)) (hm.trans (h.bytes t))

end Store

end LimitlessOS.Vma
