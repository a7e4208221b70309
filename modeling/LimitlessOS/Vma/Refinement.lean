/-
  LimitlessOS.Vma.Refinement — the machine with linked regions refines the listed one.

  Every operation of `LimitlessOS.Vma.Machine` gives the same answer on a machine whose
  regions are linked by pointers and on one that keeps a plain list per tree, and leaves
  machines that agree again. So a result about `Machine Listing` is one about the code.

  Proved:
  - `Refines.step`, `Refines.run`: over one call and over every run; `run_refines`: from the
    start.
-/
import LimitlessOS.Vma.Machine
import LimitlessOS.Vma.StoreRefinement

namespace LimitlessOS.Vma.Machine

open List Option Machine Store

structure Refines (held : RegionId → Prop) (m : Machine Links) (a : Machine Listing) : Prop where
  store : Store.Refines held m.store a.store
  anon : m.anon = a.anon
  tables : m.tables = a.tables
  budget : m.budget = a.budget

/-- The same answer, and machines that agree. -/
structure RefinesR {β : Type} (held : RegionId → Prop) (x : β × Machine Links) (y : β × Machine Listing) : Prop where
  answer : x.1 = y.1
  machine : Refines held x.2 y.2

variable {env : Env} {held : RegionId → Prop} {m : Machine Links} {a : Machine Listing}

theorem refines_boot (budget : Pid → Option Nat) :
    Refines (fun _ => False) (boot Links.boot budget) (boot Listing.boot budget) :=
  ⟨Store.refines_boot, rfl, rfl, rfl⟩

section

variable (hok : a.store.Ok) {d : Region}
include hok

/-- What a caller of `place` knows afterwards. -/
theorem placed (pid : Pid) {r : RegionId} (hr : a.store.Owned r) (hfits : d.virtEnd < 2 ^ 64) :
    Placed a.store (a.place pid r d).2.store pid r d (a.place pid r d).1 :=
  hok.place (a.budget pid) pid hr hfits

theorem placeIf_owned (pid : Pid) {r : Option RegionId} {z : RegionId} (hr : ∀ x ∈ r, a.store.Owned x)
    (hfits : d.virtEnd < 2 ^ 64) (hz : a.store.Owned z) (hne : some z ≠ r) :
    (a.placeIf pid r d).2.store.Owned z := by
  rcases r with _ | r
  · exact hz
  have hzr : z ≠ r := fun e => hne (congrArg some e)
  have hafter := (placed hok pid (hr r rfl) hfits).others z hzr hz
  simp only [placeIf]
  split_ifs
  · exact hafter
  · exact hafter.regionRelease hzr

/-- What a caller of `acquireIf` knows afterwards. -/
structure AcquiredIf (a : Machine Listing) (x : Bool × Option RegionId × Machine Listing) : Prop where
  ok : x.2.2.store.Ok
  owned : ∀ z ∈ x.2.1, x.2.2.store.Owned z
  others : ∀ z, a.store.Owned z → x.2.2.store.Owned z ∧ some z ≠ x.2.1
  ids : x.2.2.store.regionIds = a.store.regionIds
  listed : ∀ t, ∀ z ∈ a.store.regionIds t, x.2.2.store.region z = a.store.region z
  root : x.2.2.store.vmaRoot = a.store.vmaRoot

theorem acquireIf_spec (needed : Bool) : AcquiredIf a (a.acquireIf needed) := by
  have hsame : ∀ b : Bool, AcquiredIf a (b, none, a) := fun _ =>
    ⟨hok, nofun, fun z hz => ⟨hz, nofun⟩, rfl, fun _ _ _ => rfl, rfl⟩
  unfold acquireIf
  split_ifs
  · cases hr : a.store.regionAcquire.1 with
    | none =>
      obtain ⟨z, heq, -⟩ | ⟨heq, -⟩ := regionAcquire_spec a.store
      · simp [heq] at hr
      · simp only [heq]
        exact hsame _
    | some r =>
      have hacq := hok.acquired hr
      simp only [hr]
      refine ⟨hacq.ok, fun z hz => ?_, fun z hz => ?_, hacq.ids, hacq.listed, hacq.root⟩
      · obtain rfl := some.inj hz
        exact hacq.owned
      · exact ⟨(hacq.others z hz).1, fun e => (hacq.others z hz).2 (some.inj e)⟩
  · exact hsame true

/-- A region that has been copied leaves every listed region where it was. -/
theorem forkRegion_ids {parent child : Pid} {source : RegionId} {t : TreeId} {copied : Nat}
    (hsource : source ∈ a.store.regionIds t) (h : (a.forkRegion env parent child source copied).1) (u : TreeId) :
    a.store.regionIds u ⊆ (a.forkRegion env parent child source copied).2.store.regionIds u := by
  have hfits := ((hok.layout t).valid _ (mem_map_of_mem hsource)).fits
  simp only [forkRegion] at h ⊢
  generalize a.store.region source = d at h hfits
  cases htg : a.store.regionAcquire.1 with
  | none =>
    simp only [htg] at h
    split_ifs at h
  | some target =>
    have hacq := hok.acquired htg
    rw [htg] at h
    generalize (a.setStore a.store.regionAcquire.2).anon.claim env.pool (pageCountFromLength d.length) = claimed at h
    cases hc : copyRun env.pool d.physBase claimed.1 (pageCountFromLength d.length) 0
        ((a.setStore a.store.regionAcquire.2).setAnon claimed.2).anon with
    | none =>
      simp only [hc] at h
      split_ifs at h
    | some anon =>
      rw [hc] at h
      dsimp only at h ⊢
      have hd : (⟨d.virtBase, d.virtEnd, claimed.1, d.protFlags, d.mapFlags &&& ~~~mapCopyOnWrite, backingAnon,
          backingHandleNone, splitToken d.vmaToken (0xF0230000 + UInt32.ofNat copied)⟩ : Region).virtEnd < 2 ^ 64 := hfits
      have hafter := (placed (a := ((a.setStore a.store.regionAcquire.2).setAnon claimed.2).setAnon anon) hacq.ok child
        hacq.owned hd).ids u
      split_ifs at h ⊢
      intro z hz
      refine hafter z ?_
      show z ∈ a.store.regionAcquire.2.regionIds u
      rwa [hacq.ids]

/-- A mapping that has a place ends below `2 ^ 64`. -/
theorem mapPlace_fits {pid : Pid} {hint length virt : Nat} {map : UInt32} (hhint : hint < 2 ^ 64) (hlen : length < 2 ^ 64)
    (h : a.mapPlace env pid hint length map = some virt) : virt + length < 2 ^ 64 := by
  have hgap : ∀ lo hi, lo < 2 ^ 64 → a.store.findGap pid lo hi length pageBytes ≠ 0 →
      a.store.findGap pid lo hi length pageBytes + length < 2 ^ 64 := fun lo hi hlo hne =>
    (findGap_fits hok.layout hlo hlen rfl hne).2.1
  simp only [mapPlace] at h
  split_ifs at h with hfixed hbad hgiven hbad hbad
  · simp only [not_or, not_not] at hbad
    obtain rfl := some.inj h
    by_cases hz : hint = 0
    · omega
    · have := hgap hint (add64 hint length) hhint (by rw [hbad.2.1]; exact hz)
      rwa [hbad.2.1] at this
  · obtain rfl := some.inj h
    exact hgap _ _ hhint (not_or.1 hbad).1
  · obtain rfl := some.inj h
    exact hgap _ _ (by decide) (not_or.1 hbad).1

end

section

variable {Ix : Type} [RegionIndex Ix]

theorem releaseOne_store (pid : Pid) (m : Machine Ix) (r : RegionId) :
    (releaseOne env pid m r).store = m.store.regionRelease r := by
  simp only [releaseOne]
  split_ifs <;> rfl

theorem foldl_releaseOne_store (pid : Pid) (ids : List RegionId) (m : Machine Ix) :
    (ids.foldl (releaseOne env pid) m).store = ids.foldl regionRelease m.store := by
  induction ids generalizing m with
  | nil => rfl
  | cons r rest ih => rw [foldl_cons, ih, releaseOne_store, foldl_cons]

theorem mapAt_vmaRoot (m : Machine Ix) (pid : Pid) (virt length : Nat) (prot map : UInt32) :
    (m.mapAt env pid virt length prot map).2.store.vmaRoot = m.store.vmaRoot := by
  simp only [mapAt, mapInstall]
  repeat' split
  all_goals simp [setStore, setAnon, setTable, releaseRegion, releasePages, place, regionRelease]

theorem mapAnon_vmaRoot {m : Machine Ix} {pid : Pid} {t : TreeId} (hint length : Nat) (prot map : UInt32)
    (h : m.store.vmaRoot pid = some t) : (m.mapAnon env pid hint length prot map).2.store.vmaRoot pid = some t := by
  have hinit : (m.initProcess env pid).2.store.vmaRoot pid = some t := by
    simp only [initProcess, setStore, initProcess_vmaRoot _ h, h]
  simp only [mapAnon]
  repeat' split
  all_goals first | exact h | exact hinit | rw [mapAt_vmaRoot]; exact hinit

theorem unmap_vmaRoot (m : Machine Ix) (pid : Pid) (address length : Nat) :
    (m.unmap env pid address length).2.store.vmaRoot = m.store.vmaRoot := by
  simp only [unmap]
  repeat' split
  all_goals simp [setStore, setAnon, setTable, releaseRegion, releasePages, regionRelease, detachRegion,
    setTotals]

end

namespace Refines

variable {length : Nat} {pid : Pid} {d : Region} {t : TreeId} {r : RegionId}

/-- The loop of `releaseProcess` reads the records of the regions and not their links. -/
theorem releaseLoop (env : Env) (pid : Pid) (ids : List RegionId)
    (hregion : m.store.region = a.store.region) (hanon : m.anon = a.anon) (htables : m.tables = a.tables)
    (hbudget : m.budget = a.budget) : (ids.foldl (releaseOne env pid) m).anon = (ids.foldl (releaseOne env pid) a).anon ∧
      (ids.foldl (releaseOne env pid) m).tables = (ids.foldl (releaseOne env pid) a).tables ∧
      (ids.foldl (releaseOne env pid) m).budget = (ids.foldl (releaseOne env pid) a).budget := by
  induction ids generalizing m a with
  | nil => exact ⟨hanon, htables, hbudget⟩
  | cons r rest ih =>
    refine ih ?_ ?_ ?_ ?_
    · simp only [releaseOne_store, regionRelease, hregion]
    · simp only [releaseOne, hregion]
      split_ifs
      · simp only [releaseRegion, releasePages, setStore, setAnon, setTable, hanon]
      · exact hanon
    · simp only [releaseOne, hregion]
      split_ifs <;>
        simp only [releaseRegion, releasePages, setStore, setAnon, setTable,
          table, htables]
    · simp only [releaseOne, hregion]
      split_ifs <;> exact hbudget

section

variable (h : Refines held m a) {source : RegionId} {virt : Nat}
include h

theorem table (pid : Pid) : m.table env pid = a.table env pid := by simp only [Machine.table, h.tables]

theorem setStore {held' : RegionId → Prop} {s : Store Links} {s' : Store Listing}
    (hs : Store.Refines held' s s') : Refines held' (m.setStore s) (a.setStore s') := ⟨hs, h.anon, h.tables, h.budget⟩

theorem setAnon (p : AnonPool) : Refines held (m.setAnon p) (a.setAnon p) :=
  ⟨h.store, rfl, h.tables, h.budget⟩

theorem setTable (env : Env) (pid : Pid) (p : PageTable) : Refines held (m.setTable env pid p) (a.setTable env pid p) :=
  ⟨h.store, h.anon, by simp only [Machine.setTable, h.tables], h.budget⟩

theorem initProcess (env : Env) (pid : Pid) : RefinesR held (m.initProcess env pid) (a.initProcess env pid) :=
  have hi := h.store.initProcess (env.known pid) pid
  ⟨hi.answer, h.setStore hi.store⟩

theorem place (pid : Pid) (hr : a.store.Owned r) (hmine : ¬ held r)
    (hfits : d.virtEnd < 2 ^ 64) : RefinesR held (m.place pid r d) (a.place pid r d) := by
  have hp := h.store.place (a.budget pid) pid hr hmine hfits
  simp only [Machine.place, h.budget]
  exact ⟨hp.answer, h.setStore hp.store⟩

theorem releaseRegion (hr : a.store.Loose r) (hmine : ¬ held r) :
    Refines held (m.releaseRegion r) (a.releaseRegion r) := h.setStore (h.store.regionRelease hr hmine)

/-- A listed region is held by nobody. -/
theorem not_held (hr : r ∈ a.store.regionIds t) : ¬ held r :=
  fun hz => (h.store.owned r hz).loose t hr

/-- Neither is one that has just been acquired. -/
theorem not_held_acquired (hr : a.store.regionAcquire.1 = some r) : ¬ held r :=
  fun hz => ((h.store.ok.acquired hr).others r (h.store.owned r hz)).2 rfl

theorem releasePages (phys count : Nat) :
    Refines held (m.releasePages env phys count) (a.releasePages env phys count) := by
  simp only [Machine.releasePages, h.anon]
  exact h.setAnon _

theorem mapPlace (pid : Pid) (hint length : Nat) (map : UInt32) :
    m.mapPlace env pid hint length map = a.mapPlace env pid hint length map := by
  simp only [Machine.mapPlace, h.store.findGap, h.table]

/-! ### `mapAnon` -/

theorem mapInstall (phys : Nat) (prot : UInt32) (ht : a.store.vmaRoot pid = some t) (hr : r ∈ a.store.regionIds t)
    (hb : (a.store.region r).virtBase = virt) (he : (a.store.region r).virtEnd = virt + length) :
    RefinesR held (m.mapInstall env pid r virt length phys prot) (a.mapInstall env pid r virt length phys prot) := by
  simp only [Machine.mapInstall, h.table]
  split_ifs
  · exact ⟨rfl, h⟩
  split
  · exact ⟨rfl, h.setTable env pid _⟩
  rename_i k _
  have hset := h.setTable env pid
    ((PageTable.installRun (limit env pid) virt phys (pagingProt prot) (pageCountFromLength length) 0
      (a.table env pid)).2.clearBack virt k)
  have hrem := hset.store.remove pid virt (virt + length)
  refine ⟨rfl, ((hset.setStore hrem.store).releasePages phys _).releaseRegion ?_ (h.not_held hr)⟩
  have hst : (a.setTable env pid ((PageTable.installRun (limit env pid) virt phys (pagingProt prot)
      (pageCountFromLength length) 0 (a.table env pid)).2.clearBack virt k)).store = a.store := rfl
  rw [hst, h.store.ok.remove_eq ht hr hb he]
  exact h.store.ok.loose_detachRegion hr

theorem mapAt (pid : Pid) (prot map : UInt32) (hfits : virt + length < 2 ^ 64) :
    RefinesR held (m.mapAt env pid virt length prot map) (a.mapAt env pid virt length prot map) := by
  obtain ⟨hans, hst⟩ := h.store.regionAcquire
  simp only [Machine.mapAt, hans]
  rcases hr : a.store.regionAcquire.1 with _ | r
  · exact ⟨rfl, h.setStore hst⟩
  have hown := (h.store.ok.acquired hr).owned
  have hmine := h.not_held_acquired hr
  have hacq := h.setStore hst
  simp only [hacq.anon]
  generalize (a.setStore a.store.regionAcquire.2).anon.claim env.pool (pageCountFromLength length) = claimed
  have hclaimed := hacq.setAnon claimed.2
  have hd : (⟨virt, virt + length, claimed.1, prot, map, backingAnon, backingHandleNone, 0xA3000001⟩ : Region).virtEnd
    < 2 ^ 64 := hfits
  obtain ⟨hpans, hplaced⟩ := hclaimed.place pid hown hmine hd
  have hafter := placed hclaimed.store.ok pid hown hd
  simp only [hpans]
  split_ifs with h1 h2
  · exact ⟨rfl, hclaimed.releaseRegion hown.loose hmine⟩
  · obtain ⟨t, ht, hmem, hd⟩ := hafter.linked h2
    exact hplaced.mapInstall claimed.1 prot (hafter.root ▸ ht) hmem (by rw [hd]) (by rw [hd])
  · exact ⟨rfl, (hplaced.releasePages _ _).releaseRegion (hafter.refused (by simpa using h2)).loose hmine⟩

theorem mapAnon (env : Env) (pid : Pid) {hint : Nat} (prot map : UInt32) (hhint : hint < 2 ^ 64)
    (hlen : length < 2 ^ 64) :
    RefinesR held (m.mapAnon env pid hint length prot map) (a.mapAnon env pid hint length prot map) := by
  obtain ⟨hans, hinit⟩ := h.initProcess env pid
  simp only [Machine.mapAnon, hans, hinit.mapPlace]
  split_ifs
  · exact ⟨rfl, h⟩
  · cases hv : (a.initProcess env pid).2.mapPlace env pid hint length map with
    | none => exact ⟨rfl, hinit⟩
    | some virt => exact hinit.mapAt pid prot map (mapPlace_fits hinit.store.ok hhint hlen hv)
  · exact ⟨rfl, hinit⟩

/-! ### `unmap` and `releaseProcess` -/

theorem unmap (env : Env) (pid : Pid) (address length : Nat) :
    RefinesR held (m.unmap env pid address length) (a.unmap env pid address length) := by
  have hok := h.store.ok
  simp only [Machine.unmap, h.store.find]
  split_ifs
  · exact ⟨rfl, h⟩
  rcases hf : a.store.find pid address with _ | r
  · exact ⟨rfl, h⟩
  simp only [h.store.region, h.table]
  split_ifs
  · exact ⟨rfl, h⟩
  generalize (a.table env pid).clearRun address (pageCountFromLength length) = p
  have hset := h.setTable env pid p
  have hrem := hset.store.remove pid address (address + length)
  obtain ⟨t, ht, hr, -⟩ := find_some hf
  have ht' : (m.setTable env pid p).store.vmaRoot pid = some t := by rw [← ht]; exact congrFun h.store.vmaRoot pid
  obtain ⟨z, heq, hz, -⟩ | ⟨heq, -⟩ := remove_spec a.store address (address + length) ht
  · have heq' : (a.setTable env pid p).store.remove pid address (address + length) = (some z, a.store.detachRegion t z) := heq
    rw [heq'] at hrem ⊢
    obtain ⟨hrans, hrst⟩ := hrem
    simp only [hrans]
    exact ⟨rfl, ((hset.setStore hrst).releasePages _ _).releaseRegion (hok.loose_detachRegion hz) (h.not_held hz)⟩
  · have heq' : (a.setTable env pid p).store.remove pid address (address + length) = (none, a.store) := heq
    rw [heq'] at hrem ⊢
    obtain ⟨hrans, hrst⟩ := hrem
    simp only [hrans, ht', show (a.setTable env pid p).store.vmaRoot pid = some t from ht]
    exact ⟨rfl, ((hset.setStore (hset.store.detachRegion hr)).releasePages _ _).releaseRegion
      (hok.loose_detachRegion hr) (h.not_held hr)⟩

theorem releaseProcess (pid : Pid) :
    RefinesR held (m.releaseProcess env pid) (a.releaseProcess env pid) := by
  simp only [Machine.releaseProcess, h.store.vmaRoot]
  rcases ht : a.store.vmaRoot pid with _ | t
  · exact ⟨rfl, h⟩
  simp only [h.store.regionIds]
  obtain ⟨hanon, htables, hbudget⟩ :=
    releaseLoop env pid (a.store.regionIds t) h.store.region h.anon h.tables h.budget
  refine ⟨rfl, ?_, hanon, htables, hbudget⟩
  simp only [Machine.setStore, foldl_releaseOne_store]
  exact h.store.ended ht

/-! ### `protect` -/

theorem acquireIf (needed : Bool) :
    (m.acquireIf needed).1 = (a.acquireIf needed).1 ∧ (m.acquireIf needed).2.1 = (a.acquireIf needed).2.1 ∧
      Refines held (m.acquireIf needed).2.2 (a.acquireIf needed).2.2 := by
  obtain ⟨hans, hst⟩ := h.store.regionAcquire
  unfold Machine.acquireIf
  split_ifs
  · exact ⟨congrArg isSome hans, hans, h.setStore hst⟩
  · exact ⟨rfl, rfl, h⟩

theorem releaseIf {r : Option RegionId} (hr : ∀ z ∈ r, a.store.Loose z ∧ ¬ held z) :
    Refines held (m.releaseIf r) (a.releaseIf r) := by
  cases r with
  | none => exact h
  | some r => exact h.releaseRegion (hr r rfl).1 (hr r rfl).2

theorem placeIf (pid : Pid) {r : Option RegionId} (hr : ∀ z ∈ r, a.store.Owned z ∧ ¬ held z) (hfits : d.virtEnd < 2 ^ 64) :
    RefinesR held (m.placeIf pid r d) (a.placeIf pid r d) := by
  rcases r with _ | r
  · exact ⟨rfl, h⟩
  obtain ⟨hown, hmine⟩ := hr r rfl
  obtain ⟨hans, hplaced⟩ := h.place pid hown hmine hfits
  have hafter := placed h.store.ok pid hown hfits
  simp only [Machine.placeIf, hans]
  split_ifs with hp
  · exact ⟨rfl, hplaced⟩
  · exact ⟨rfl, hplaced.releaseRegion (hafter.refused (by simpa using hp)).loose hmine⟩

theorem protectSplit (pid : Pid) {pre suf : Option RegionId}
    {address stop : Nat} (prot : UInt32) (hr : a.store.Owned r) (hmine : ¬ held r)
    (hpre : ∀ z ∈ pre, (a.store.Owned z ∧ ¬ held z) ∧ z ≠ r)
    (hsuf : ∀ z ∈ suf, (a.store.Owned z ∧ ¬ held z) ∧ z ≠ r ∧ some z ≠ pre) (haddr : address < 2 ^ 64) (hstop : stop < 2 ^ 64)
    (hfits : d.virtEnd < 2 ^ 64) : RefinesR held (m.protectSplit env pid r pre suf d address stop prot)
      (a.protectSplit env pid r pre suf d address stop prot) := by
  have hpre' : ∀ z ∈ pre, a.store.Owned z := fun z hz => (hpre z hz).1.1
  have hne : some r ≠ pre := fun e => (hpre r e.symm).2 rfl
  have hdpre : (prefixOf d address).virtEnd < 2 ^ 64 := haddr
  have hdmid : (middleOf d address stop prot).virtEnd < 2 ^ 64 := hstop
  have hdsuf : (suffixOf d stop).virtEnd < 2 ^ 64 := hfits
  obtain ⟨hans1, hfirst⟩ := h.placeIf pid (fun z hz => (hpre z hz).1) hdpre
  have hr1 := placeIf_owned h.store.ok pid hpre' hdpre hr hne
  obtain ⟨hans2, hmiddle⟩ := hfirst.place pid hr1 hmine hdmid
  have hsuf2 : ∀ z ∈ suf, ((a.placeIf pid pre (prefixOf d address)).2.place pid r
      (middleOf d address stop prot)).2.store.Owned z := fun z hz =>
    (placed hfirst.store.ok pid hr1 hdmid).others z (hsuf z hz).2.1
      (placeIf_owned h.store.ok pid hpre' hdpre (hsuf z hz).1.1 (hsuf z hz).2.2)
  obtain ⟨hans3, hlast⟩ := hmiddle.placeIf pid (fun z hz => ⟨hsuf2 z hz, (hsuf z hz).1.2⟩) hdsuf
  simp only [Machine.protectSplit, hans1, hans2, hans3, hlast.table]
  split_ifs
  · exact ⟨rfl, hfirst⟩
  · exact ⟨rfl, hmiddle⟩
  · exact ⟨rfl, hlast⟩
  · exact ⟨rfl, hlast.setTable env pid _⟩

theorem protect (pid : Pid) {address : Nat} (prot : UInt32) (haddr : address < 2 ^ 64) :
    RefinesR held (m.protect env pid address length prot) (a.protect env pid address length prot) := by
  simp only [Machine.protect, h.store.find]
  split_ifs
  · exact ⟨rfl, h⟩
  rcases hf : a.store.find pid address with _ | r
  · exact ⟨rfl, h⟩
  obtain ⟨t, ht, hr, -⟩ := find_some hf
  simp only [h.store.region, h.table]
  have hfits := ((h.store.ok.layout t).valid _ (mem_map_of_mem hr)).fits
  generalize hd : a.store.region r = d at hfits ⊢
  obtain ⟨hans1, hreg1, hpre⟩ := h.acquireIf (address > d.virtBase)
  have hpre' := acquireIf_spec h.store.ok (address > d.virtBase)
  generalize m.acquireIf (address > d.virtBase) = prem at hans1 hreg1 hpre ⊢
  generalize a.acquireIf (address > d.virtBase) = prea at hans1 hreg1 hpre hpre' ⊢
  obtain ⟨hans2, hreg2, hsuf⟩ := hpre.acquireIf (address + length < d.virtEnd)
  have hsuf' := acquireIf_spec hpre.store.ok (address + length < d.virtEnd)
  generalize prea.2.2.acquireIf (address + length < d.virtEnd) = sufa at hans2 hreg2 hsuf hsuf' ⊢
  have hownpre : ∀ z ∈ prea.2.1, sufa.2.2.store.Owned z ∧ some z ≠ sufa.2.1 := fun z hz =>
    hsuf'.others z (hpre'.owned z hz)
  have hminepre : ∀ z ∈ prea.2.1, ¬ held z := fun z hz hh => (hpre'.others z (h.store.owned z hh)).2 hz.symm
  have hminesuf : ∀ z ∈ sufa.2.1, ¬ held z := fun z hz hh => (hsuf'.others z (hpre.store.owned z hh)).2 hz.symm
  -- the found region is still listed, so it is the one that is removed
  have hr' : r ∈ sufa.2.2.store.regionIds t := by rw [hsuf'.ids, hpre'.ids]; exact hr
  have hd' : sufa.2.2.store.region r = d := by
    rw [hsuf'.listed t r (by rw [hpre'.ids]; exact hr), hpre'.listed t r hr, hd]
  have ht' : sufa.2.2.store.vmaRoot pid = some t := by rw [hsuf'.root, hpre'.root]; exact ht
  have hrem := hsuf'.ok.remove_eq ht' hr' (congrArg Region.virtBase hd') (congrArg Region.virtEnd hd')
  obtain ⟨hans3, hremoved⟩ := hsuf.store.remove pid d.virtBase d.virtEnd
  rw [hrem] at hans3 hremoved ⊢
  simp only [hans1, hreg1, hans2, hreg2, hans3, ne_eq, not_true_eq_false, if_false]
  split_ifs with hbad
  · exact ⟨rfl, h⟩
  · exact ⟨rfl, hpre⟩
  · exact ⟨rfl, hsuf.releaseIf fun z hz => ⟨(hownpre z hz).1.loose, hminepre z hz⟩⟩
  simp only [not_or, not_lt] at hbad
  have hne : ∀ z, sufa.2.2.store.Owned z → z ≠ r := fun z hz e => hz.loose t (e ▸ hr')
  refine (hsuf.setStore hremoved).protectSplit pid prot (hsuf'.ok.owned_detachRegion hr') (h.not_held hr)
    (fun z hz => ?_) (fun z hz => ?_) haddr (lt_of_le_of_lt hbad.1 hfits) hfits
  · exact ⟨⟨(hownpre z hz).1.detachRegion r, hminepre z hz⟩, hne z (hownpre z hz).1⟩
  · have hz' := hsuf'.owned z hz
    exact ⟨⟨hz'.detachRegion r, hminesuf z hz⟩, hne z hz', fun e => (hownpre z e.symm).2 hz.symm⟩

/-! ### `cloneCowPage` -/

theorem cloneInto {sourcePid targetPid : Pid} {sourcePage targetPage : Nat} (phys : Nat)
    (hsource : source ∈ a.store.regionIds t) (htarget : targetPage < 2 ^ 64) :
    RefinesR held (m.cloneInto env sourcePid source sourcePage targetPid targetPage phys)
      (a.cloneInto env sourcePid source sourcePage targetPid targetPage phys) := by
  obtain ⟨hans, hst⟩ := h.store.regionAcquire
  simp only [Machine.cloneInto, hans, h.store.region]
  rcases htg : a.store.regionAcquire.1 with _ | target
  · exact ⟨rfl, (h.setStore hst).releasePages phys 1⟩
  have hacq := h.store.ok.acquired htg
  generalize hd : a.store.region source = d
  have hmach := h.setStore hst
  have hfits : (⟨targetPage, add64 targetPage pageBytes, phys, d.protFlags, d.mapFlags ||| mapCopyOnWrite, backingAnon,
      backingHandleNone, splitToken d.vmaToken 0xA7001000⟩ : Region).virtEnd < 2 ^ 64 := Nat.mod_lt _ (by decide)
  have hmine := h.not_held_acquired htg
  obtain ⟨hpans, hplaced⟩ := hmach.place targetPid hacq.owned hmine hfits
  have hafter := placed hmach.store.ok targetPid hacq.owned hfits
  simp only [hpans]
  generalize (a.setStore a.store.regionAcquire.2).place targetPid target _ = placeda at hplaced hafter ⊢
  by_cases hp : placeda.1
  · simp only [hp, Bool.not_true, Bool.false_eq_true, if_false]
    have hne : source ≠ target := fun e => hacq.owned.loose t (by rw [hacq.ids, ← e]; exact hsource)
    have hsrc : placeda.2.store.region source = d := by
      rw [hafter.region source hne, ← hd]
      exact hacq.listed t source hsource
    have hused : placeda.2.store.used source :=
      hplaced.store.ok.used t source (hafter.ids t source (by rw [Machine.setStore, hacq.ids]; exact hsource))
    have hmark := hplaced.setStore (hplaced.store.setRegion { d with mapFlags := d.mapFlags ||| mapCopyOnWrite }
      (hplaced.store.ok.setRegion_bounds hused (by rw [hsrc]) (by rw [hsrc])) (h.not_held hsource))
    obtain ⟨u, hu, hmem, hrec⟩ := hafter.linked hp
    have hrec' : (placeda.2.store.setRegion source { d with mapFlags := d.mapFlags ||| mapCopyOnWrite }).region target =
        placeda.2.store.region target := by simp [setRegion, hne.symm]
    have hundo : ∀ {M : Machine Links} {A : Machine Listing}, Refines held M A →
        A.store = placeda.2.store.setRegion source { d with mapFlags := d.mapFlags ||| mapCopyOnWrite } →
        Refines held (((M.setStore (M.store.remove targetPid targetPage (targetPage + pageBytes)).2).releaseRegion
            target).releasePages env phys 1)
          (((A.setStore (A.store.remove targetPid targetPage (targetPage + pageBytes)).2).releaseRegion
            target).releasePages env phys 1) := by
      intro M A hMA hA
      refine ((hMA.setStore (hMA.store.remove _ _ _).store).releaseRegion ?_ hmine).releasePages phys 1
      have hAok := hMA.store.ok
      have hvalid := (hAok.layout u).valid _ (mem_map_of_mem (show target ∈ A.store.regionIds u by rw [hA]; exact hmem))
      have hend : (A.store.region target).virtEnd = targetPage + pageBytes := by
        have hlt := hvalid.lt
        rw [hA, hrec', hrec] at hlt ⊢
        simp only [add64, pageBytes] at hlt ⊢
        omega
      rw [hAok.remove_eq (by rw [hA]; exact hafter.root ▸ hu) (by rw [hA]; exact hmem) (by rw [hA, hrec', hrec]) hend]
      exact hAok.loose_detachRegion (by rw [hA]; exact hmem)
    have hset := hmark.setTable env sourcePid (((placeda.2.setStore (placeda.2.store.setRegion source
      { d with mapFlags := d.mapFlags ||| mapCopyOnWrite })).table env sourcePid).updateProtection sourcePage
        (pagingProt (d.protFlags &&& ~~~protWrite))).2
    simp only [hmark.table, hset.table]
    split_ifs
    · exact ⟨rfl, hset.setTable env targetPid _⟩
    · exact ⟨rfl, hundo hmark rfl⟩
    · exact ⟨rfl, hundo (hset.setTable env targetPid _) rfl⟩
    · exact ⟨rfl, hundo hset rfl⟩
  · simp only [hp, Bool.not_false, if_true]
    exact ⟨rfl, (hplaced.releasePages phys 1).releaseRegion (hafter.refused (by simpa using hp)).loose hmine⟩

theorem cloneCowPage (sourcePid targetPid : Pid) (sourcePage : Nat) {targetPage : Nat}
    (htarget : targetPage < 2 ^ 64) :
    RefinesR held (m.cloneCowPage env sourcePid sourcePage targetPid targetPage)
      (a.cloneCowPage env sourcePid sourcePage targetPid targetPage) := by
  obtain ⟨hans1, hinit1⟩ := h.initProcess env sourcePid
  obtain ⟨hans2, hinit2⟩ := hinit1.initProcess env targetPid
  simp only [Machine.cloneCowPage, hans1, hans2, hinit2.store.find, hinit2.table, hinit2.store.region, hinit2.anon]
  split
  · exact ⟨rfl, h⟩
  split
  · exact ⟨rfl, hinit1⟩
  rcases hf : ((a.initProcess env sourcePid).2.initProcess env targetPid).2.store.find sourcePid sourcePage with _ | source
  · split_ifs <;> exact ⟨rfl, hinit2⟩
  obtain ⟨t, -, hr, -⟩ := find_some hf
  dsimp only
  split_ifs
  iterate 4 exact ⟨rfl, hinit2⟩
  · exact (hinit2.setAnon _).cloneInto _ hr htarget

/-! ### `forkCopyProcess` -/

theorem forkRegion (env : Env) (parent child : Pid) (copied : Nat) (hsource : source ∈ a.store.regionIds t) :
    RefinesR held (m.forkRegion env parent child source copied) (a.forkRegion env parent child source copied) := by
  obtain ⟨hans, hst⟩ := h.store.regionAcquire
  have hfits := ((h.store.ok.layout t).valid _ (mem_map_of_mem hsource)).fits
  simp only [Machine.forkRegion, hans, h.store.region, h.table]
  generalize a.store.region source = d at hfits
  split
  · exact ⟨rfl, h⟩
  rcases htg : a.store.regionAcquire.1 with _ | target
  · exact ⟨rfl, h.setStore hst⟩
  have hown := (h.store.ok.acquired htg).owned
  have hmine := h.not_held_acquired htg
  have hmach := h.setStore hst
  simp only [hmach.anon]
  generalize (a.setStore a.store.regionAcquire.2).anon.claim env.pool (pageCountFromLength d.length) = claimed
  have hclaimed := hmach.setAnon claimed.2
  simp only [hclaimed.anon]
  cases copyRun env.pool d.physBase claimed.1 (pageCountFromLength d.length) 0
      ((a.setStore a.store.regionAcquire.2).setAnon claimed.2).anon with
  | none =>
    dsimp only
    split_ifs
    · exact ⟨rfl, hclaimed.releaseRegion hown.loose hmine⟩
    · exact ⟨rfl, (hclaimed.releasePages _ _).releaseRegion hown.loose hmine⟩
  | some anon =>
    have hcopied := hclaimed.setAnon anon
    have hd : (⟨d.virtBase, d.virtEnd, claimed.1, d.protFlags, d.mapFlags &&& ~~~mapCopyOnWrite, backingAnon,
        backingHandleNone, splitToken d.vmaToken (0xF0230000 + UInt32.ofNat copied)⟩ : Region).virtEnd < 2 ^ 64 := hfits
    obtain ⟨hpans, hplaced⟩ := hcopied.place child hown hmine hd
    have hafter := placed hcopied.store.ok child hown hd
    simp only [hpans, hplaced.table]
    split_ifs with h2 hp
    · exact ⟨rfl, hclaimed.releaseRegion hown.loose hmine⟩
    · exact ⟨rfl, (hplaced.releasePages _ _).releaseRegion (hafter.refused (by simpa using hp)).loose hmine⟩
    · exact ⟨rfl, hplaced⟩
    · exact ⟨rfl, hplaced.setTable env child _⟩

end

theorem forkLoop (parent child : Pid) (ids : List RegionId) (copied : Nat) (h : Refines held m a)
    (hids : ids ⊆ a.store.regionIds t) :
    RefinesR held (m.forkLoop env parent child ids copied) (a.forkLoop env parent child ids copied) := by
  induction ids generalizing m a copied with
  | nil => exact ⟨rfl, h⟩
  | cons source rest ih =>
    obtain ⟨hsource, hrest⟩ := cons_subset.1 hids
    obtain ⟨hans, hstep⟩ := h.forkRegion env parent child copied hsource
    simp only [forkLoop, hans]
    split_ifs with hcopied
    · exact ih (copied + 1) hstep (Subset.trans hrest (forkRegion_ids h.store.ok hsource hcopied t))
    · exact ⟨rfl, (hstep.releaseProcess child).machine⟩

theorem forkCopyProcess (h : Refines held m a) (parent child : Pid) :
    RefinesR held (m.forkCopyProcess env parent child) (a.forkCopyProcess env parent child) := by
  obtain ⟨hans1, hinit1⟩ := h.initProcess env parent
  obtain ⟨hans2, hinit2⟩ := hinit1.initProcess env child
  simp only [Machine.forkCopyProcess, hans1, hans2, hinit2.store.vmaRoot]
  generalize (m.initProcess env parent).2 = m1 at *
  generalize (a.initProcess env parent).2 = a1 at *
  generalize (a1.initProcess env child).2 = a2 at *
  split
  · exact ⟨rfl, h⟩
  split
  · exact ⟨rfl, hinit1⟩
  split
  · exact ⟨rfl, hinit2⟩
  rcases hp : a2.store.vmaRoot parent with _ | pt
  · exact ⟨rfl, hinit2⟩
  rcases hc : a2.store.vmaRoot child with _ | ct
  · exact ⟨rfl, hinit2⟩
  have hbrk := hinit2.setStore (hinit2.store.setTotals ct { a2.store.totals ct with
    brkBase := (a2.store.totals pt).brkBase, brkCurrent := (a2.store.totals pt).brkCurrent
    brkPeak := (a2.store.totals pt).brkPeak }
    (hinit2.store.ok.setTotals_brk (hinit2.store.ok.treePid_ne hc) rfl rfl))
  simp only [hinit2.store.totals, hbrk.store.regionIds]
  split_ifs
  · exact ⟨rfl, hinit2⟩
  · exact forkLoop parent child _ 0 hbrk (Subset.refl _)

/-! ### `handleCowFault`, the break, and the environment -/

section

variable (h : Refines held m a) {newBrk : Nat}
include h

theorem handleCowFault (pid : Pid) (faultAddress : Nat) (errorCode : UInt64) :
    RefinesR held (m.handleCowFault env pid faultAddress errorCode) (a.handleCowFault env pid faultAddress errorCode) := by
  simp only [Machine.handleCowFault, h.store.find, h.store.region, h.table, h.anon]
  split
  · exact ⟨rfl, h⟩
  rcases hf : a.store.find pid (alignDown faultAddress) with _ | r
  · exact ⟨rfl, h⟩
  obtain ⟨t, -, hr, -⟩ := find_some hf
  dsimp only
  split
  · exact ⟨rfl, h⟩
  generalize hd : a.store.region r = d
  have hstore : ∀ d' : Region, d'.virtBase = d.virtBase → d'.virtEnd = d.virtEnd →
      Store.Refines held (m.store.setRegion r d') (a.store.setRegion r d') := fun d' hb he =>
    h.store.setRegion d' (h.store.ok.setRegion_bounds (h.store.ok.used t r hr) (hd ▸ hb) (hd ▸ he)) (h.not_held hr)
  generalize a.anon.claim env.pool 1 = claimed
  have hundo : Refines held ((m.setAnon claimed.2).releasePages env claimed.1 1)
      ((a.setAnon claimed.2).releasePages env claimed.1 1) := (h.setAnon claimed.2).releasePages _ _
  rcases AnonPool.pageIndex env.pool ((a.table env pid).physical (alignDown faultAddress)) with _ | old
  · exact ⟨rfl, hundo⟩
  rcases AnonPool.pageIndex env.pool claimed.1 with _ | new
  · exact ⟨rfl, hundo⟩
  split_ifs
  · exact ⟨rfl, hundo⟩
  · exact ⟨rfl, (h.setAnon _).releasePages _ _⟩
  · exact ⟨rfl, (((h.setAnon _).setTable env pid _).setStore
      (hstore { d with physBase := claimed.1, mapFlags := d.mapFlags &&& ~~~mapCopyOnWrite } rfl rfl)).releasePages _ _⟩

theorem brkInitTree (ht : a.store.vmaRoot pid = some t) :
    Refines held (m.brkInitTree t) (a.brkInitTree t) := by
  simp only [Machine.brkInitTree, h.store.totals]
  split_ifs
  · exact h.setStore (h.store.setTotals t _ (h.store.ok.setTotals_brk (h.store.ok.treePid_ne ht) rfl rfl))
  · exact h

theorem brkQuery (pid : Pid) : RefinesR held (m.brkQuery env pid) (a.brkQuery env pid) := by
  obtain ⟨hans, hinit⟩ := h.initProcess env pid
  simp only [Machine.brkQuery, hans, hinit.store.vmaRoot]
  cases ht : (a.initProcess env pid).2.store.vmaRoot pid with
  | none =>
    split_ifs <;> exact ⟨rfl, hinit⟩
  | some t =>
    have hbrk := hinit.brkInitTree ht
    dsimp only
    split_ifs
    · exact ⟨by rw [hbrk.store.totals], hbrk⟩
    · exact ⟨rfl, hinit⟩

theorem brkSet (ht : a.store.vmaRoot pid = some t) (newBrk : Nat) :
    Refines held (m.brkSet t newBrk) (a.brkSet t newBrk) := by
  simp only [Machine.brkSet, h.store.totals]
  exact h.setStore (h.store.setTotals t _ (h.store.ok.setTotals_brk (h.store.ok.treePid_ne ht) rfl rfl))

theorem brkMove (ht : a.store.vmaRoot pid = some t) (hnew : newBrk < 2 ^ 64) :
    RefinesR held (m.brkMove env pid t newBrk) (a.brkMove env pid t newBrk) := by
  simp only [Machine.brkMove, h.store.totals]
  generalize (a.store.totals t).brkCurrent = current
  split
  · exact ⟨rfl, h⟩
  split
  · exact ⟨rfl, h⟩
  by_cases hgrow : current < newBrk
  · obtain ⟨hans, hmapped⟩ := h.mapAnon env pid (protRead ||| protWrite) (mapPrivate ||| mapFixed ||| mapAnonymous)
      (lt_trans hgrow hnew) (lt_of_le_of_lt (Nat.sub_le newBrk current) hnew)
    simp only [hans, gt_iff_lt, hgrow, if_true]
    split_ifs
    · exact ⟨rfl, hmapped⟩
    · exact ⟨rfl, hmapped.brkSet (mapAnon_vmaRoot _ _ _ _ ht) newBrk⟩
  · obtain ⟨hans, hunmapped⟩ := h.unmap env pid newBrk (current - newBrk)
    simp only [hans, gt_iff_lt, hgrow, if_false]
    split_ifs
    · exact ⟨rfl, hunmapped⟩
    · have ht' : (a.unmap env pid newBrk (current - newBrk)).2.store.vmaRoot pid = some t := by rw [unmap_vmaRoot, ht]
      exact ⟨rfl, hunmapped.brkSet ht' newBrk⟩

theorem brkExtend (pid : Pid) (hnew : newBrk < 2 ^ 64) :
    RefinesR held (m.brkExtend env pid newBrk) (a.brkExtend env pid newBrk) := by
  obtain ⟨hans, hinit⟩ := h.initProcess env pid
  simp only [Machine.brkExtend, hans, hinit.store.vmaRoot]
  cases ht : (a.initProcess env pid).2.store.vmaRoot pid with
  | none =>
    split_ifs <;> exact ⟨rfl, hinit⟩
  | some t =>
    split_ifs
    · exact ⟨rfl, hinit⟩
    · refine (hinit.brkInitTree ht).brkMove ?_ hnew
      unfold Machine.brkInitTree
      split_ifs <;> exact ht

theorem write (pid : Pid) (address : Nat) (value : UInt8) :
    Refines held (m.write env pid address value) (a.write env pid address value) := by
  simp only [Machine.write, Machine.translate, h.table, h.anon]
  repeat' split
  all_goals first | exact h | exact h.setAnon _

theorem configureBudget (pid : Pid) (pages : Nat) :
    Refines held (m.configureBudget pid pages) (a.configureBudget pid pages) := by
  simp only [Machine.configureBudget, h.budget]
  split_ifs
  · exact ⟨h.store, h.anon, h.tables, rfl⟩
  · exact h

end

/-! ### Runs -/

theorem step (h : Refines held m a) (op : Op) : Refines held (m.step env op) (a.step env op) := by
  cases op with
  | mapAnon pid hint length prot map => exact (h.mapAnon env pid prot map hint.toNat_lt length.toNat_lt).machine
  | cloneCowPage sp s tp t => exact (h.cloneCowPage sp tp _ t.toNat_lt).machine
  | forkCopyProcess parent child => exact (h.forkCopyProcess parent child).machine
  | handleCowFault pid address errorCode => exact (h.handleCowFault pid _ errorCode).machine
  | protect pid address length prot => exact (h.protect pid prot address.toNat_lt).machine
  | unmap pid address length => exact (h.unmap env pid _ _).machine
  | brkQuery pid => exact (h.brkQuery pid).machine
  | brkExtend pid newBrk => exact (h.brkExtend pid newBrk.toNat_lt).machine
  | releaseProcess pid => exact (h.releaseProcess pid).machine
  | write pid address value => exact h.write pid _ value
  | configureBudget pid pages => exact h.configureBudget pid _

theorem run (h : Refines held m a) (ops : List Op) : Refines held (m.run env ops) (a.run env ops) := by
  induction ops generalizing m a with
  | nil => exact h
  | cons op rest ih => exact ih (h.step op)

end Refines

/-- Over every run of the calls, the linked lists and red-black trees of the code behave as sorted lists. -/
theorem run_refines (env : Env) (budget : Pid → Option Nat) (ops : List Op) :
    Refines (fun _ => False) ((boot Links.boot budget).run env ops) ((boot Listing.boot budget).run env ops) :=
  (refines_boot budget).run ops

end LimitlessOS.Vma.Machine
