/-
  LimitlessOS.Vma.StoreRefinement — the linked region store refines the listed one.

  `Refines held s a`: the stores agree on every record and total, the links of `s`
  represent the lists of `a`, `a` satisfies the invariant, and the regions in `held` are
  acquired and in no tree. Each function of `LimitlessOS.Vma.Store` gives the same answer
  on both and leaves refining stores; a region that is prepared, inserted or released is
  one that its caller owns, and not one of those that somebody else holds.
-/
import LimitlessOS.Vma.ListedStore

namespace LimitlessOS.Vma

open RegionIndex Store

namespace Store

def withIndex {Ix Ix' : Type} (s : Store Ix) (ix : Ix') : Store Ix' :=
  ⟨s.region, s.used, s.totals, s.treePid, s.vmaRoot, ix⟩

structure Refines (held : RegionId → Prop) (s : Store Links) (a : Store Listing) : Prop where
  fields : s.withIndex a.index = a
  links : s.index.Corr a.index.regions
  ok : a.Ok
  owned : ∀ r, held r → a.Owned r

/-- The same answer, and refining stores. -/
structure RefinesR {β : Type} (held : RegionId → Prop) (x : β × Store Links) (y : β × Store Listing) : Prop where
  answer : x.1 = y.1
  store : Refines held x.2 y.2

variable {held : RegionId → Prop} {s : Store Links} {a : Store Listing}

theorem refines_boot : Refines (fun _ => False) (.boot Links.boot) (.boot Listing.boot) :=
  ⟨rfl, Links.corr_boot, ok_boot, nofun⟩

namespace Refines

section

variable (h : Refines held s a)
include h

theorem region : s.region = a.region := congrArg Store.region h.fields
theorem used : s.used = a.used := congrArg Store.used h.fields
theorem totals : s.totals = a.totals := congrArg Store.totals h.fields
theorem treePid : s.treePid = a.treePid := congrArg Store.treePid h.fields
theorem vmaRoot : s.vmaRoot = a.vmaRoot := congrArg Store.vmaRoot h.fields

theorem base : s.base = a.base := by funext r; simp only [Store.base, h.region]

theorem regionIds (t : TreeId) : s.regionIds t = a.regionIds t := h.links.regions h.ok.separated t

theorem listed (t : TreeId) : s.listed t = a.listed t := by
  simp only [Store.listed, h.regionIds, h.region]

theorem find (pid : Pid) (address : Nat) : s.find pid address = a.find pid address := by
  simp only [Store.find, h.vmaRoot]
  rcases a.vmaRoot pid with _ | t
  · rfl
  simp only [h.region]
  exact h.links.search h.ok.separated t (h.ok.layout t) address

theorem findGap (pid : Pid) (minAddr maxAddr length alignment : Nat) :
    s.findGap pid minAddr maxAddr length alignment = a.findGap pid minAddr maxAddr length alignment := by
  simp only [Store.findGap, h.vmaRoot, h.region, h.regionIds]

theorem freeRegion : s.freeRegion = a.freeRegion := by
  unfold Store.freeRegion
  rw [h.used]

theorem freeTree : s.freeTree = a.freeTree := by simp only [Store.freeTree, h.treePid]

theorem regionAcquire : RefinesR held s.regionAcquire a.regionAcquire := by
  cases hf : a.freeRegion with
  | none =>
    rw [regionAcquire_none hf, regionAcquire_none (h.freeRegion.trans hf)]
    exact ⟨rfl, h⟩
  | some r =>
    obtain ⟨hunused, hlt⟩ := freeRegion_some hf
    rw [regionAcquire_some hf, regionAcquire_some (h.freeRegion.trans hf)]
    refine ⟨rfl, ?_, h.links.reset (h.ok.loose_of_unused hunused), h.ok.grabbed hunused hlt, fun z hz => ?_⟩
    · simp only [withIndex, h.region, h.used, h.totals, h.treePid, h.vmaRoot]
    have hown := h.owned z hz
    have hne : z ≠ r := by
      rintro rfl
      simp [hown.used] at hunused
    exact ⟨by simp [hne, hown.used], hown.loose, by simpa [hne] using hown.fits⟩

variable {r : RegionId}

theorem regionRelease (hr : a.Loose r) (hmine : ¬ held r) :
    Refines held (s.regionRelease r) (a.regionRelease r) := by
  refine ⟨?_, h.links.reset hr, h.ok.regionRelease hr,
    fun z hz => (h.owned z hz).regionRelease fun e => hmine (e ▸ hz)⟩
  simp only [Store.regionRelease, withIndex, h.region, h.used, h.totals, h.treePid, h.vmaRoot]

theorem setRegion (d : Region) (hok : (a.setRegion r d).Ok) (hmine : ¬ held r) :
    Refines held (s.setRegion r d) (a.setRegion r d) := by
  refine ⟨?_, h.links, hok, fun z hz => (h.owned z hz).setRegion (show z ≠ r from fun e => hmine (e ▸ hz)) d⟩
  simp only [Store.setRegion, withIndex, h.region, h.used, h.totals, h.treePid, h.vmaRoot]

theorem setTotals (t : TreeId) (d : Totals) (hok : (a.setTotals t d).Ok) :
    Refines held (s.setTotals t d) (a.setTotals t d) := by
  refine ⟨?_, h.links, hok, fun z hz => ⟨(h.owned z hz).used, (h.owned z hz).loose, (h.owned z hz).fits⟩⟩
  simp only [Store.setTotals, withIndex, h.region, h.used, h.totals, h.treePid, h.vmaRoot]

theorem regionPrepare (hr : a.Owned r) (hmine : ¬ held r) (d : Region) :
    RefinesR held (s.regionPrepare r d) (a.regionPrepare r d) := by
  simp only [Store.regionPrepare]
  split_ifs
  · exact ⟨rfl, h⟩
  · have hset := h.setRegion d (h.ok.setRegion_owned hr d) hmine
    exact ⟨rfl, hset.fields, h.links.reset hr.loose, hset.ok, hset.owned⟩

theorem detachRegion {t : TreeId} (hr : r ∈ a.regionIds t) :
    Refines held (s.detachRegion t r) (a.detachRegion t r) := by
  refine ⟨?_, ?_, h.ok.detachRegion hr, fun z hz => (h.owned z hz).detachRegion r⟩
  · simp only [Store.detachRegion, Store.setTotals, withIndex, h.region, h.used, h.totals, h.treePid, h.vmaRoot]
  · have hord : (a.index.regions t).Pairwise (s.base · < s.base ·) := by
      rw [h.base]
      exact (h.ok.layout t).base_lt
    exact h.links.detach h.ok.separated hr hord

theorem remove (pid : Pid) (virtBase virtEnd : Nat) :
    RefinesR held (s.remove pid virtBase virtEnd) (a.remove pid virtBase virtEnd) := by
  simp only [Store.remove, h.vmaRoot, h.region, h.regionIds]
  rcases a.vmaRoot pid with _ | t
  · exact ⟨rfl, h⟩
  simp only []
  split_ifs
  · exact ⟨rfl, h⟩
  · split
    · exact ⟨rfl, h⟩
    · rename_i r hfind
      exact ⟨rfl, h.detachRegion (List.mem_of_find?_eq_some hfind)⟩

theorem insert (budget : Option Nat) (pid : Pid) (hr : a.Owned r)
    (hmine : ¬ held r) : RefinesR held (s.insert budget pid r) (a.insert budget pid r) := by
  cases ht : a.vmaRoot pid with
  | none =>
    simp only [Store.insert, h.vmaRoot, ht]
    exact ⟨rfl, h⟩
  | some t =>
    by_cases hv : rangeValid (a.region r).virtBase (a.region r).virtEnd
    · have hd : (a.region r).Valid := ⟨hv, hr.fits⟩
      simp only [Store.insert, h.vmaRoot, ht, h.region, hv, h.links.linked hr.loose, h.regionIds, h.totals, h.base,
        show linked a.index r = false from rfl, Bool.not_true, Bool.or_self, Bool.false_eq_true, if_false]
      rcases hp : insertPoint a.region (a.region r) none (a.regionIds t) with _ | ⟨previous, cursor⟩
      · exact ⟨rfl, h⟩
      obtain ⟨l1, l2, hsplit, rfl, rfl, h1, h2⟩ := insertPoint_some (h.ok.layout t) hd hp
      simp only [Option.or_none]
      split_ifs with hbud
      · exact ⟨rfl, h⟩
      have hfit : a.Fits t r (l1 ++ r :: l2) := ⟨l1, l2, hsplit, rfl, h1, h2⟩
      have hord : (l1 ++ r :: l2).Pairwise (a.base · < a.base ·) := (hfit.layout h.ok hd).base_lt
      obtain ⟨hok, hcorr⟩ := h.links.attach h.ok.separated hr.loose hsplit hord
      have hnd : (l1 ++ l2).Nodup := hsplit ▸ h.ok.separated.nodup t
      have hadd : add a.index a.base t r l1.getLast? l2.head? =
          (true, (⟨Function.update a.index.regions t (l1 ++ r :: l2)⟩ : Listing)) := by
        have hids : a.index.regions t = l1 ++ l2 := hsplit
        simp only [add, hids, insertBefore_split hnd]
      obtain ⟨ix, hix⟩ : ∃ ix, add s.index a.base t r l1.getLast? l2.head? = (true, ix) :=
        ⟨_, Prod.ext hok rfl⟩
      have hcorr' : ix.Corr (Function.update a.index.regions t (l1 ++ r :: l2)) := by
        have heq : ix = (s.index.attach a.base t r l1.getLast? l2.head?).2 := (congrArg Prod.snd hix).symm
        rwa [heq]
      simp only [hix, hadd]
      refine ⟨rfl, ?_, hcorr', h.ok.inserted hr hd hfit (h.ok.treePid_ne ht),
        fun z hz => (h.owned z hz).inserted (show z ≠ r from fun e => hmine (e ▸ hz)) hfit⟩
      simp only [Store.setTotals, withIndex, h.region, h.used, h.totals, h.treePid, h.vmaRoot]
    · simp only [Store.insert, h.vmaRoot, ht, h.region, hv, Bool.not_false, Bool.true_or, if_true]
      exact ⟨rfl, h⟩

theorem place (budget : Option Nat) (pid : Pid) {d : Region} (hr : a.Owned r)
    (hmine : ¬ held r) (hfits : d.virtEnd < 2 ^ 64) : RefinesR held (s.place budget pid r d) (a.place budget pid r d) := by
  obtain ⟨hans, hstore⟩ := h.regionPrepare hr hmine d
  simp only [Store.place, hans]
  rw [regionPrepare_eq] at hstore ⊢
  by_cases hv : rangeValid d.virtBase d.virtEnd ∧ d.vmaToken ≠ invalidToken
  · rw [if_pos hv] at hstore ⊢
    exact hstore.insert budget pid (hr.prepared hfits) hmine
  · rw [if_neg hv] at hstore ⊢
    exact ⟨rfl, hstore⟩

theorem initProcess (known : Bool) (pid : Pid) :
    RefinesR held (s.initProcess known pid) (a.initProcess known pid) := by
  have hclear : ∀ t, a.treePid t = invalidPid → Refines held (s.clearTree t) (a.clearTree t) := by
    intro t ht
    have hids : a.index.regions t = [] := (h.ok.free t ht).1
    have hcorr := h.links.releaseAll h.ok.separated t
    rw [hids] at hcorr
    refine ⟨?_, ?_, by rw [h.ok.clearTree_free ht]; exact h.ok, by rw [h.ok.clearTree_free ht]; exact h.owned⟩
    · simp only [clearTree, withIndex, h.region, h.used, h.totals, h.treePid, h.vmaRoot]
    · exact hcorr
  simp only [Store.initProcess, h.vmaRoot, h.freeTree]
  by_cases hpid : pid = invalidPid
  · simp only [hpid, if_true]
    exact ⟨rfl, h⟩
  by_cases hroot : (a.vmaRoot pid).isSome
  · simp only [hpid, if_false, hroot, if_true]
    exact ⟨rfl, h⟩
  rw [if_neg hpid, if_neg hpid, if_neg hroot, if_neg hroot]
  rcases hf : a.freeTree with _ | t
  · exact ⟨rfl, h⟩
  obtain ⟨htp, hlt⟩ := freeTree_some hf
  have hc := hclear t htp
  cases known
  · exact ⟨rfl, hc⟩
  refine ⟨rfl, ?_, hc.links, ?_, fun z hz => ⟨(hc.owned z hz).used, (hc.owned z hz).loose, (hc.owned z hz).fits⟩⟩
  · simp only [withIndex, clearTree, h.region, h.used, h.totals, h.treePid, h.vmaRoot, if_true]
  · simp only [if_true, h.ok.clearTree_free htp]
    exact h.ok.attached hpid (by simpa using hroot) htp hlt

/-- The end of a process: all of its regions released, then its tree. -/
theorem ended {pid : Pid} {t : TreeId} (ht : a.vmaRoot pid = some t) :
    Refines held (((a.regionIds t).foldl Store.regionRelease s).releaseTree pid t) (a.ended pid t) := by
  refine ⟨?_, ?_, h.ok.ended ht, fun z hz => (h.owned z hz).ended pid t⟩
  · rw [ended_eq, foldl_regionRelease]
    simp only [releaseTree, clearTree, withIndex, h.region, h.used, h.totals, h.treePid, h.vmaRoot]
  · rw [ended_eq, foldl_regionRelease]
    exact h.links.releaseAll h.ok.separated t

end

end Refines

end Store

end LimitlessOS.Vma
