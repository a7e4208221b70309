/-
  LimitlessOS.Vma.Unmap — backed regions, and what `vma64_unmap` and
  `vma64_release_process` do to them.

  Every region that the operations list is backed by a run of pages of the anonymous pool
  (`Region.Backed`); a machine with a good store and only backed regions is `Sound`.

  Proved, on a sound machine:
  - `unmap_spec`: `unmap` takes out the one region that has exactly the range, with its
    entries and pages, or changes nothing.
  - `releaseProcess_eq`: `releaseProcess` takes out every region of the process, with its
    entries and pages.
-/
import LimitlessOS.Vma.AnonPages
import LimitlessOS.Vma.PageEntries
import LimitlessOS.Vma.Refinement

namespace LimitlessOS.Vma

open Function List AnonPool

/-- The number of pages of a region. -/
def Region.pages (d : Region) : Nat := d.length / pageBytes

/-- Backed by the pages of the pool from page `i`. -/
structure Region.BackedAt (b : PoolBase) (d : Region) (i : Nat) : Prop where
  backing : d.backingType = backingAnon
  token : d.vmaToken ≠ invalidToken
  phys : d.physBase = b.phys i
  run : i + d.pages ≤ maxAnonPages

def Region.Backed (b : PoolBase) (d : Region) : Prop := ∃ i, d.BackedAt b i

namespace Region

variable {b : PoolBase} {d : Region} {i : Nat}

theorem Valid.pages_pos (h : d.Valid) : 0 < d.pages := by
  have hlt := h.lt
  have hb := h.base_aligned
  have he := h.end_aligned
  simp only [pages, length, pageBytes] at *
  omega

theorem Valid.length_eq (h : d.Valid) : d.length = d.pages * pageBytes := by
  have hb := h.base_aligned
  have he := h.end_aligned
  simp only [pages, length, pageBytes] at *
  omega

theorem BackedAt.pageCount (h : d.BackedAt b i) (hv : d.Valid) : pageCountFromLength d.length = d.pages := by
  have hlen := hv.length_eq
  have hpos := hv.pages_pos
  have hrun := h.run
  unfold pageCountFromLength
  rw [if_neg]
  · rfl
  · simp only [pageBytes, maxAnonPages] at *
    omega

theorem BackedAt.phys_ne (h : d.BackedAt b i) (hpos : 0 < d.pages) : d.physBase ≠ 0 ∧ d.physBase ≠ physAnon := by
  have hfits := b.fits
  have hrun := h.run
  rw [h.phys]
  refine ⟨b.phys_pos i, ?_⟩
  simp only [PoolBase.phys, physAnon, pageBytes, maxAnonPages] at *
  omega

/-- The physical address of a backed region's page is that of a page of the pool. -/
theorem BackedAt.physicalFor (h : d.BackedAt b i) {k : Nat} (hv : d.Valid) (hk : k < d.pages) :
    d.physicalFor (pageAt d.virtBase k) = b.phys (i + k) := by
  have hlen := hv.length_eq
  have hfits := b.fits
  have hpos := b.pos
  have hrun := h.run
  unfold Region.physicalFor
  rw [if_neg, h.phys]
  · simp only [add64, pageAt, PoolBase.phys, pageBytes, maxAnonPages] at *
    omega
  · rw [h.phys]
    simp only [pageAt, PoolBase.phys, physAnon, length, pageBytes, maxAnonPages] at *
    omega

end Region

/-- The page of the pool that a backed region starts with. -/
def Region.firstPage (b : PoolBase) (d : Region) : Nat := (d.physBase - b.base) / pageBytes

theorem Region.BackedAt.firstPage {b : PoolBase} {d : Region} {i : Nat} (h : d.BackedAt b i) : d.firstPage b = i := by
  unfold Region.firstPage
  rw [h.phys, PoolBase.phys, Nat.add_sub_cancel_left]
  exact Nat.mul_div_cancel _ (by decide)

/-- Every page of the regions has lost a holder. -/
def AnonPool.releaseRegions (b : PoolBase) (l : List Region) (p : AnonPool) : AnonPool :=
  l.foldl (fun p d => p.releaseRun (d.firstPage b) d.pages) p

/-- No page of the regions has an entry. -/
def PageTable.clearRegions (l : List Region) (p : PageTable) : PageTable :=
  l.foldl (fun p d => p.clearRun d.virtBase d.pages) p

namespace Store

/-- The record of the region that `find` answers. -/
def regionAt {Ix : Type} [RegionIndex Ix] (s : Store Ix) (pid : Pid) (address : Nat) : Option Region :=
  (s.find pid address).map s.region

theorem Ok.regionAt_iff {s : Store Listing} (h : s.Ok) {pid : Pid} {t : TreeId} (ht : s.vmaRoot pid = some t) {address : Nat}
    {d : Region} : s.regionAt pid address = some d ↔ d ∈ s.listed t ∧ d.Contains address := by
  unfold regionAt
  constructor
  · intro hd
    obtain ⟨r, hr, rfl⟩ := Option.map_eq_some_iff.1 hd
    obtain ⟨t', ht', hmem, hc⟩ := find_some hr
    obtain rfl : t' = t := Option.mem_unique ht' ht
    exact ⟨mem_map_of_mem hmem, hc⟩
  · rintro ⟨hd, hc⟩
    obtain ⟨r, hr, rfl⟩ := mem_map.1 hd
    rw [h.find_of_contains ht hr hc]
    rfl

end Store

namespace Machine

/-- The invariant that every operation keeps. -/
structure Sound (env : Env) (a : Machine Listing) : Prop where
  ok : a.store.Ok
  backed : ∀ t, ∀ d ∈ a.store.listed t, d.Backed env.pool

variable {env : Env} {a : Machine Listing} {pid : Pid} {t : TreeId} {r : RegionId}

theorem Sound.valid (h : Sound env a) (hr : r ∈ a.store.regionIds t) : (a.store.region r).Valid :=
  (h.ok.layout t).valid _ (mem_map_of_mem hr)

theorem Sound.backedAt (h : Sound env a) (hr : r ∈ a.store.regionIds t) : ∃ i, (a.store.region r).BackedAt env.pool i :=
  h.backed t _ (mem_map_of_mem hr)

theorem Sound.ids_length (h : Sound env a) (t : TreeId) : (a.store.regionIds t).length ≤ maxStaticRegions := by
  rw [← length_range (n := maxStaticRegions)]
  apply Subperm.length_le
  apply (h.ok.separated.nodup t).subperm
  intro r hr
  exact mem_range.2 (h.ok.used_lt r (h.ok.used t r hr))

/-- The machine without region `r` of `pid`, whose pages are those from page `i`. -/
def unmapped (env : Env) (a : Machine Listing) (pid : Pid) (t : TreeId) (r : RegionId) (i : Nat) : Machine Listing where
  store := (a.store.detachRegion t r).regionRelease r
  anon := a.anon.releaseRun i (a.store.region r).pages
  tables := update a.tables (env.pageRoot pid)
    ((a.table env pid).clearRun (a.store.region r).virtBase (a.store.region r).pages)
  budget := a.budget

theorem listed_unmapped (h : a.store.Ok) (hr : r ∈ a.store.regionIds t) (i : Nat) (t' : TreeId) :
    (a.unmapped env pid t r i).store.listed t' = (a.store.detachRegion t r).listed t' :=
  (h.owned_detachRegion hr).listed_setRegion .cleared t'

/-- The region with exactly the range is taken out. -/
theorem unmap_listed (h : Sound env a) {i : Nat} (ht : a.store.vmaRoot pid = some t) (hr : r ∈ a.store.regionIds t)
    (hi : (a.store.region r).BackedAt env.pool i) :
    a.unmap env pid (a.store.region r).virtBase (a.store.region r).length = (true, a.unmapped env pid t r i) := by
  have hv := h.valid hr
  have hcount := hi.pageCount hv
  have hfind := h.ok.find_of_contains ht hr hv.contains_base
  have hend : (a.store.region r).virtBase + (a.store.region r).length = (a.store.region r).virtEnd := by
    have := hv.lt
    unfold Region.length
    omega
  have hargs : ¬ (pageCountFromLength (a.store.region r).length = 0 ∨ (a.store.region r).virtBase % pageBytes ≠ 0 ∨
      add64 (a.store.region r).virtBase (a.store.region r).length < (a.store.region r).virtBase) := by
    have hpos := hv.pages_pos
    have hfits := hv.fits
    rw [hcount, add64, hend, Nat.mod_eq_of_lt hfits]
    have := hv.base_aligned
    omega
  have hsame : ¬ ((a.store.region r).virtBase ≠ (a.store.region r).virtBase ∨
      (a.store.region r).virtEnd ≠ (a.store.region r).virtBase + (a.store.region r).length ∨
      (a.store.region r).backingType ≠ backingAnon ∨ (a.store.region r).physBase = 0) := by
    rw [hend, hi.backing, hi.phys]
    have := env.pool.phys_pos i
    tauto
  have hrem : a.store.remove pid (a.store.region r).virtBase ((a.store.region r).virtBase + (a.store.region r).length) =
      (some r, a.store.detachRegion t r) := h.ok.remove_eq ht hr rfl hend.symm
  have hanon := release_eq (p := a.anon) (b := env.pool) hv.pages_pos hi.run
  unfold unmap
  rw [if_neg hargs, hfind]
  dsimp only
  rw [if_neg hsame]
  simp only [setTable, hrem, setStore, hcount, hi.phys, releasePages, setAnon, hanon, releaseRegion]
  rfl

theorem unmap_spec (h : Sound env a) (pid : Pid) (address length : Nat) :
    (∃ t r i, a.unmap env pid address length = (true, a.unmapped env pid t r i) ∧ a.store.vmaRoot pid = some t ∧
      r ∈ a.store.regionIds t ∧ (a.store.region r).virtBase = address ∧ (a.store.region r).virtEnd = address + length ∧
      (a.store.region r).BackedAt env.pool i) ∨
    (a.unmap env pid address length = (false, a) ∧ ∀ t, a.store.vmaRoot pid = some t → ∀ r ∈ a.store.regionIds t,
      ¬ ((a.store.region r).virtBase = address ∧ (a.store.region r).virtEnd = address + length)) := by
  by_cases hex : ∃ t, a.store.vmaRoot pid = some t ∧ ∃ r ∈ a.store.regionIds t,
      (a.store.region r).virtBase = address ∧ (a.store.region r).virtEnd = address + length
  · left
    obtain ⟨t, ht, r, hr, hb, he⟩ := hex
    obtain ⟨i, hi⟩ := h.backedAt hr
    refine ⟨t, r, i, ?_, ht, hr, hb, he, hi⟩
    have hlen : (a.store.region r).length = length := by
      unfold Region.length
      omega
    rw [← unmap_listed h ht hr hi, hb, hlen]
  · right
    have hno : ∀ t, a.store.vmaRoot pid = some t → ∀ r ∈ a.store.regionIds t,
        ¬ ((a.store.region r).virtBase = address ∧ (a.store.region r).virtEnd = address + length) :=
      fun t ht r hr hrange => hex ⟨t, ht, r, hr, hrange⟩
    refine ⟨?_, hno⟩
    unfold unmap
    dsimp only
    split_ifs with hargs
    · rfl
    rcases hf : a.store.find pid address with _ | r
    · rfl
    obtain ⟨t, ht, hr, -⟩ := Store.find_some hf
    have hbad := hno t ht r hr
    dsimp only
    rw [if_pos]
    tauto

/-! ## The end of a process -/

/-- The machine after `pid` has released all of its regions, the tree `t`. -/
def released (env : Env) (a : Machine Listing) (pid : Pid) (t : TreeId) : Machine Listing where
  store := a.store.ended pid t
  anon := a.anon.releaseRegions env.pool (a.store.listed t)
  tables := update a.tables (env.pageRoot pid) ((a.table env pid).clearRegions (a.store.listed t))
  budget := a.budget

theorem releaseOne_backed {m : Machine Listing} {i : Nat} (hv : (m.store.region r).Valid)
    (hi : (m.store.region r).BackedAt env.pool i) :
    releaseOne env pid m r =
      { store := m.store.regionRelease r
        anon := m.anon.releaseRun ((m.store.region r).firstPage env.pool) (m.store.region r).pages
        tables := update m.tables (env.pageRoot pid)
          ((m.table env pid).clearRun (m.store.region r).virtBase (m.store.region r).pages)
        budget := m.budget } := by
  have hcount := hi.pageCount hv
  have hpos := hv.pages_pos
  have hrelease : m.anon.release env.pool (env.pool.phys i) (m.store.region r).pages =
      m.anon.releaseRun i (m.store.region r).pages := release_eq hpos hi.run
  have hyes : (m.store.region r).backingType = backingAnon ∧ (m.store.region r).physBase ≠ 0 ∧
      (m.store.region r).physBase ≠ physAnon ∧ (m.store.region r).pages ≠ 0 :=
    ⟨hi.backing, (hi.phys_ne hpos).1, (hi.phys_ne hpos).2, by omega⟩
  unfold releaseOne
  simp only [hcount]
  rw [if_pos hyes]
  simp only [setTable, releasePages, setAnon, releaseRegion, setStore, hi.phys, hrelease, hi.firstPage]

/-- The loop of `vma64_release_process`. No iteration changes the record of a region that is still to come. -/
theorem foldl_releaseOne (env : Env) (pid : Pid) (ids : List RegionId) (hnd : ids.Nodup) (m : Machine Listing)
    (hb : ∀ r ∈ ids, (m.store.region r).Valid ∧ (m.store.region r).Backed env.pool) :
    ids.foldl (releaseOne env pid) m =
      { store := ids.foldl Store.regionRelease m.store
        anon := m.anon.releaseRegions env.pool (ids.map m.store.region)
        tables := update m.tables (env.pageRoot pid) ((m.table env pid).clearRegions (ids.map m.store.region))
        budget := m.budget } := by
  induction ids generalizing m with
  | nil =>
    unfold table
    simp [releaseRegions, PageTable.clearRegions]
  | cons r rest ih =>
    obtain ⟨hv, i, hi⟩ := hb r mem_cons_self
    obtain ⟨hr, hrest⟩ := nodup_cons.1 hnd
    have hkeep : ∀ z ∈ rest, (m.store.regionRelease r).region z = m.store.region z := by
      intro z hz
      have hne : z ≠ r := by
        rintro rfl
        exact hr hz
      exact update_of_ne hne ..
    rw [foldl_cons, releaseOne_backed hv hi, ih hrest]
    · simp only [foldl_cons, map_cons, releaseRegions, PageTable.clearRegions, table,
        update_self, update_idem, map_congr_left hkeep]
    · intro z hz
      rw [hkeep z hz]
      exact hb z (mem_cons_of_mem r hz)

theorem releaseProcess_eq (h : Sound env a) (ht : a.store.vmaRoot pid = some t) :
    a.releaseProcess env pid = ((a.store.regionIds t).length, a.released env pid t) := by
  have hloop := foldl_releaseOne env pid (a.store.regionIds t) (h.ok.separated.nodup t) a
    fun r hr => ⟨h.valid hr, h.backedAt hr⟩
  unfold releaseProcess
  rw [ht]
  dsimp only
  rw [hloop]
  rfl

theorem Sound.releaseProcess (h : Sound env a) (pid : Pid) : Sound env (a.releaseProcess env pid).2 := by
  rcases ht : a.store.vmaRoot pid with _ | t
  · unfold Machine.releaseProcess
    rwa [ht]
  rw [releaseProcess_eq h ht]
  refine ⟨h.ok.ended ht, fun t' d hd => ?_⟩
  rw [show (a.released env pid t).store = a.store.ended pid t from rfl, h.ok.listed_ended] at hd
  split_ifs at hd
  · cases hd
  · exact h.backed t' d hd

theorem Sound.unmap (h : Sound env a) (pid : Pid) (address length : Nat) : Sound env (a.unmap env pid address length).2 := by
  rcases unmap_spec h pid address length with ⟨t, r, i, heq, ht, hr, -⟩ | ⟨heq, -⟩
  · rw [heq]
    have hloose := h.ok.loose_detachRegion hr
    refine ⟨(h.ok.detachRegion hr).regionRelease hloose, fun t' d hd => ?_⟩
    rw [listed_unmapped h.ok hr, Store.listed_detachRegion] at hd
    split_ifs at hd with htt
    · obtain ⟨z, hz, rfl⟩ := mem_map.1 hd
      exact h.backed t _ (mem_map_of_mem (mem_of_mem_erase hz))
    · exact h.backed t' d hd
  · rwa [heq]

end Machine

end LimitlessOS.Vma
