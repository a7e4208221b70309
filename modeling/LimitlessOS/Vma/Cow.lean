/-
  LimitlessOS.Vma.Cow — what `vma64_clone_cow_page` and `vma64_handle_cow_fault` do.

  A clone gives the page of a one-page region a second holder: a new region of the target
  process. Both entries are made read-only; a step that fails takes the new region and the
  new holder back, but not the mark on the source region nor the lost write access.
  A fault gives the region a page of its own, a copy of the page behind its entry, and
  takes one holder from that page.

  Proved, on a sound machine: `cloneCowPage_spec`, `handleCowFault_spec`.
-/
import LimitlessOS.Vma.MapAnon
import LimitlessOS.Vma.Unmap

namespace LimitlessOS.Vma

open Function AnonPool PageTable Store Option Region

namespace Machine

/-! ## Attaching trees -/

/-- Some processes have got their first tree. -/
inductive Attaches (env : Env) (a : Machine Listing) : Machine Listing → Prop
  | refl : Attaches env a a
  | step {a₁ a₂ : Machine Listing} {pid : Pid} {t : TreeId} (h : Attaches env a a₁) (hs : Started env a₁ pid t a₂)
      (hok : a₂.store.Ok) : Attaches env a a₂

section

variable {env : Env} {a a1 : Machine Listing}

theorem Started.listed {pid : Pid} {t : TreeId} (h : Started env a pid t a1) (t' : TreeId) :
    a1.store.listed t' = a.store.listed t' := by
  rcases h with ⟨rfl, -⟩ | ⟨rfl, -⟩ <;> rfl

theorem Sound.attaches (h : Sound env a) (hs : Attaches env a a1) : Sound env a1 := by
  induction hs with
  | refl => exact h
  | step _ hs hok ih => exact ⟨hok, fun t d hd => ih.backed t d (hs.listed t ▸ hd)⟩

/-- `initProcess` attaches a tree to the process or refuses. -/
theorem Attaches.initProcess (hs : Attaches env a a1) (hok : a1.store.Ok) (pid : Pid) :
    let r := a1.initProcess env pid
    Attaches env a r.2 ∧ r.2.store.Ok ∧ (r.1 → ∃ t, r.2.store.vmaRoot pid = some t) := by
  dsimp only
  rcases initProcess_started hok env pid with ⟨t, a2, heq, hstart, hok2, ht⟩ | ⟨heq, -⟩
  · rw [heq]
    exact ⟨hs.step hstart hok2, hok2, fun _ => ⟨t, ht⟩⟩
  · rw [heq]
    exact ⟨hs, hok, nofun⟩

end

/-! ## Cloning a page -/

/-- The record of a clone of a region. -/
def cloneRegion (b : PoolBase) (d : Region) (targetPage i : Nat) : Region :=
  ⟨targetPage, add64 targetPage pageBytes, b.phys i, d.protFlags, d.mapFlags ||| mapCopyOnWrite, backingAnon,
    backingHandleNone, splitToken d.vmaToken 0xA7001000⟩

/-- The protection of both entries after a clone. -/
def cloneProt (d : Region) : UInt32 := pagingProt (d.protFlags &&& ~~~protWrite)

/-- The store with the source region marked. -/
def markCow (s : Store Listing) (source : RegionId) : Store Listing :=
  s.setRegion source { s.region source with mapFlags := (s.region source).mapFlags ||| mapCopyOnWrite }

/-- A clone that has passed its checks: one page of region `source` in tree `u`, which is page `i` of the pool; tree `t`
is the target's. -/
structure CloneReady (env : Env) (a : Machine Listing) (sourcePid : Pid) (sourcePage : Nat) (targetPid : Pid)
    (targetPage : Nat) (u t : TreeId) (source : RegionId) (i : Nat) : Prop where
  sourceRoot : a.store.vmaRoot sourcePid = some u
  targetRoot : a.store.vmaRoot targetPid = some t
  mem : source ∈ a.store.regionIds u
  backed : (a.store.region source).BackedAt env.pool i
  base : (a.store.region source).virtBase = sourcePage
  stop : (a.store.region source).virtEnd = sourcePage + pageBytes
  writable : (a.store.region source).protFlags &&& protWrite ≠ 0
  aligned : targetPage % pageBytes = 0
  entry : ∃ e, (a.table env sourcePid).lookup sourcePage = some e ∧ e.phys = env.pool.phys i
  clear : (a.table env targetPid).lookup targetPage = none
  used : a.anon.used i ≠ 0

/-- The machine with the clone in slot `z` of tree `t`. -/
def clonedAt (env : Env) (a : Machine Listing) (targetPage : Nat) (t : TreeId) (source : RegionId) (i : Nat) (z : RegionId)
    (l : List RegionId) (tables : PageRoot → PageTable) : Machine Listing where
  store := (markCow a.store source).added t z (cloneRegion env.pool (a.store.region source) targetPage i) l
  anon := a.anon.retained i
  tables := tables
  budget := a.budget

/-- What becomes of a clone that has passed its checks. -/
inductive Cloned (env : Env) (a : Machine Listing) (sourcePid : Pid) (sourcePage : Nat) (targetPid : Pid)
    (targetPage : Nat) (t : TreeId) (source : RegionId) (i : Nat) : Bool × Machine Listing → Prop
  | refused : Cloned env a sourcePid sourcePage targetPid targetPage t source i (false, a)
  | undone (d : Region) (p : PageTable)
      (hp : ∀ x, p.lookup x = (a.table env sourcePid).lookup x ∨ pageNumber x = pageNumber sourcePage ∧
        p.lookup x = some (.make (env.pool.phys i) (cloneProt (a.store.region source)))) :
      Cloned env a sourcePid sourcePage targetPid targetPage t source i
        (false, (a.setStore ((markCow a.store source).peaked t d)).setTable env sourcePid p)
  | done (z : RegionId) (l : List RegionId) (tables : PageRoot → PageTable)
      (hadds : (markCow a.store source).Adds t z (cloneRegion env.pool (a.store.region source) targetPage i) l)
      (hother : ∀ root x, (root = env.pageRoot sourcePid → pageNumber x ≠ pageNumber sourcePage) →
        (root = env.pageRoot targetPid → pageNumber x ≠ pageNumber targetPage) →
        (tables root).lookup x = (a.tables root).lookup x)
      (hsource : (tables (env.pageRoot sourcePid)).lookup sourcePage =
        some (.make (env.pool.phys i) (cloneProt (a.store.region source))))
      (htarget : (tables (env.pageRoot targetPid)).lookup targetPage =
        some (.make (env.pool.phys i) (cloneProt (a.store.region source)))) :
      Cloned env a sourcePid sourcePage targetPid targetPage t source i
        (true, clonedAt env a targetPage t source i z l tables)

variable {env : Env} {a : Machine Listing} {sourcePid targetPid : Pid} {sourcePage targetPage i : Nat} {u t : TreeId}
  {source : RegionId}

theorem CloneReady.index_lt (h : CloneReady env a sourcePid sourcePage targetPid targetPage u t source i) :
    i < maxAnonPages := by
  have hrun := h.backed.run
  rwa [pages, length, h.stop, h.base, Nat.add_sub_cancel_left] at hrun

theorem markCow_ok (hok : a.store.Ok) (hs : source ∈ a.store.regionIds u) : (markCow a.store source).Ok :=
  hok.setRegion_bounds (hok.used u source hs) rfl rfl

variable {z : RegionId} {l : List RegionId} {e : Region}

/-- Marking the source first or last makes no difference to the new region. -/
theorem markCow_added (hne : source ≠ z) (s : Store Listing) :
    (s.added t z e l).setRegion source { s.region source with mapFlags := (s.region source).mapFlags ||| mapCopyOnWrite } =
      (markCow s source).added t z e l := by
  simp only [added, inserted, setRegion, grabbed, markCow, setTotals, update_self,
    update_idem]
  rw [update_comm hne.symm]

theorem adds_markCow {s : Store Listing} (h : s.Adds t z e l) (hne : source ≠ z) : (markCow s source).Adds t z e l := by
  obtain ⟨before, after, hids, hl, hbefore, hafter⟩ := h.fits.split
  have hbounds : ∀ x, ((((markCow s source).grabbed z).setRegion z e).region x).virtBase =
      (((s.grabbed z).setRegion z e).region x).virtBase ∧ ((((markCow s source).grabbed z).setRegion z e).region x).virtEnd =
      (((s.grabbed z).setRegion z e).region x).virtEnd := by
    intro x
    by_cases hx : x = z
    · simp [setRegion, hx]
    · by_cases hxs : x = source <;> simp [setRegion, grabbed, Machine.markCow, hx, hxs, hne]
  refine ⟨h.unused, h.bound, h.valid, ⟨before, after, hids, hl, ?_, ?_⟩⟩
  · simpa only [Before, hbounds] using hbefore
  · simpa only [Before, hbounds] using hafter

/-- A retained page released again. -/
theorem releasePages_retained (hi : i < maxAnonPages) (hu : a.anon.used i ≠ 0) :
    (a.anon.retained i).release env.pool (env.pool.phys i) 1 = a.anon := by
  rw [release_eq (by decide) hi, release_retained hu]

/-- The half of `cloneInto` after the new region has its place. -/
def cloneEntries (env : Env) (m : Machine Listing) (sourcePid : Pid) (sourcePage : Nat) (targetPid : Pid)
    (targetPage phys : Nat) (z : RegionId) (prot : UInt32) : Bool × Machine Listing :=
  let updated := (m.table env sourcePid).updateProtection sourcePage prot
  let m' := m.setTable env sourcePid updated.2
  let installed := (m'.table env targetPid).install (limit env targetPid) targetPage phys prot
  if prot ≠ 0 ∧ updated.1 ∧ installed.1 then (true, m'.setTable env targetPid installed.2)
  else
    let m := if prot = 0 then m else if updated.1 then m'.setTable env targetPid installed.2 else m'
    let m := m.setStore (m.store.remove targetPid targetPage (targetPage + pageBytes)).2
    (false, (m.releaseRegion z).releasePages env phys 1)

/-- The region is taken out again, its slot and the page given back. -/
theorem clone_undo (hok : a.store.Ok) (h : CloneReady env a sourcePid sourcePage targetPid targetPage u t source i)
    {m : Machine Listing} {p : PageTable}
    (hadds : (markCow a.store source).Adds t z (cloneRegion env.pool (a.store.region source) targetPage i) l)
    (hm : m = clonedAt env a targetPage t source i z l (update a.tables (env.pageRoot sourcePid) p)) :
    ((m.setStore (m.store.remove targetPid targetPage (targetPage + pageBytes)).2).releaseRegion z).releasePages env
      (env.pool.phys i) 1 =
      (a.setStore ((markCow a.store source).peaked t (cloneRegion env.pool (a.store.region source) targetPage i))).setTable
        env sourcePid p := by
  have hi : i < maxAnonPages := h.index_lt
  have hend : add64 targetPage pageBytes = targetPage + pageBytes := by
    have hlt : targetPage < add64 targetPage pageBytes := hadds.valid.lt
    unfold add64 at hlt ⊢
    simp only [pageBytes] at *
    omega
  have hrem := hadds.remove (markCow_ok hok h.mem) h.targetRoot
  simp only [cloneRegion, hend] at hrem
  subst hm
  simp only [clonedAt, setStore, releaseRegion, releasePages, setAnon, releasePages_retained hi h.used, cloneRegion, hend, hrem,
    setTable]

/-- One page of one root has got an entry. -/
theorem lookup_update {tables : PageRoot → PageTable} {root : PageRoot} {p : PageTable} {page : Nat} {e : Pte}
    (h : ∀ x, p.lookup x = if pageNumber x = pageNumber page then some e else (tables root).lookup x) (r : PageRoot) (x : Nat) :
    (update tables root p r).lookup x = if r = root ∧ pageNumber x = pageNumber page then some e else (tables r).lookup x := by
  by_cases hr : r = root
  · subst hr
    simp [h]
  · simp [hr]

section

variable (hok : a.store.Ok) (h : CloneReady env a sourcePid sourcePage targetPid targetPage u t source i)
include hok h

theorem cloneEntries_spec
    (hadds : (markCow a.store source).Adds t z (cloneRegion env.pool (a.store.region source) targetPage i) l) :
    Cloned env a sourcePid sourcePage targetPid targetPage t source i
      (cloneEntries env (clonedAt env a targetPage t source i z l a.tables) sourcePid sourcePage targetPid targetPage
        (env.pool.phys i) z (cloneProt (a.store.region source))) := by
  obtain ⟨e, he, hphys⟩ := h.entry
  set prot := cloneProt (a.store.region source) with hprot
  by_cases hzero : prot = 0
  · -- without a read or execute bit there is nothing to install
    have heq := clone_undo hok h hadds (p := a.table env sourcePid) (by unfold table; rw [update_eq_self])
    unfold cloneEntries
    simp only [hzero, ne_eq, not_true_eq_false, false_and, if_false, if_true]
    rw [heq]
    exact .undone _ _ fun x => .inl rfl
  · have hbits : prot &&& (protRead ||| protWrite ||| protExecute) ≠ 0 := mt (pagingProt_bits _).1 hzero
    rcases updateProtection_spec (a.table env sourcePid) sourcePage prot with
      ⟨e', he', -, hupd, hl⟩ | ⟨-, hno⟩
    swap
    · rcases hno with hno | hno
      · simp [hno] at he
      · exact absurd hno hbits
    obtain rfl : e' = e := mem_unique he' he
    rw [hphys] at hl
    set p := ((a.table env sourcePid).updateProtection sourcePage prot).2
    have htable : (clonedAt env a targetPage t source i z l a.tables).table env sourcePid = a.table env sourcePid := rfl
    have hset : (clonedAt env a targetPage t source i z l a.tables).setTable env sourcePid p =
        clonedAt env a targetPage t source i z l (update a.tables (env.pageRoot sourcePid) p) := rfl
    unfold cloneEntries
    dsimp only
    rw [htable, hset]
    rcases install_spec ((clonedAt env a targetPage t source i z l
      (update a.tables (env.pageRoot sourcePid) p)).table env targetPid) (limit env targetPid) targetPage
      (env.pool.phys i) prot with ⟨p', hinst, -, -, hl'⟩ | hinst
    · rw [hinst]
      simp only [hupd, ne_eq, hzero, not_false_eq_true, and_true, if_true]
      have hsrc := @lookup_update a.tables _ _ _ _ hl
      have htgt := @lookup_update (update a.tables (env.pageRoot sourcePid) p) _ _ _ _ hl'
      refine .done z l (update (update a.tables (env.pageRoot sourcePid) p) (env.pageRoot targetPid) p') hadds ?_ ?_ ?_
      · intro root x hsx htx
        rw [htgt, if_neg fun h => htx h.1 h.2, hsrc, if_neg fun h => hsx h.1 h.2]
      · simp only [htgt, hsrc, and_self, if_true, ite_self, hprot]
      · rw [htgt, if_pos ⟨rfl, rfl⟩]
    · rw [hinst]
      simp only [hupd, ne_eq, hzero, not_false_eq_true, and_false, if_false, if_true, Bool.false_eq_true, setTable_table]
      rw [clone_undo hok h hadds rfl]
      refine .undone _ _ fun x => ?_
      rw [hl]
      split_ifs with hx
      · exact .inr ⟨hx, rfl⟩
      · exact .inl rfl

theorem cloneInto_spec :
    Cloned env a sourcePid sourcePage targetPid targetPage t source i
      ((a.setAnon (a.anon.retained i)).cloneInto env sourcePid source sourcePage targetPid targetPage (env.pool.phys i)) := by
  have hrelease : (a.anon.retained i).release env.pool (env.pool.phys i) 1 = a.anon :=
    releasePages_retained h.index_lt h.used
  have hfits : (cloneRegion env.pool (a.store.region source) targetPage i).virtEnd < 2 ^ 64 := Nat.mod_lt _ (by decide)
  rcases regionAcquire_spec a.store with ⟨z, hacq, hunused, hbound⟩ | ⟨hacq, -⟩ <;>
    simp only [cloneInto, setAnon, hacq, setStore, releasePages, hrelease]
  · have hne : source ≠ z := by
      rintro rfl
      simp [hok.used u source h.mem] at hunused
    rcases place_grabbed hok (a.budget targetPid) h.targetRoot hunused hbound hfits with
      ⟨l, hplace, hadds, -⟩ | ⟨s', hplace, hs', -⟩ <;> unfold grabbed cloneRegion at hplace <;>
      simp only [place, hplace, setStore]
    · rw [markCow_added hne]
      exact cloneEntries_spec hok h (adds_markCow hadds hne)
    · simp only [Bool.not_false, if_true, hrelease, releaseRegion, hs']
      exact .refused
  · exact .refused

end

theorem alignDown_eq {x : Nat} (h : alignDown x = x) : x % pageBytes = 0 := by
  unfold alignDown at h
  simp only [pageBytes] at *
  omega

theorem cloneCowPage_spec (h : Sound env a) (sourcePid : Pid) (sourcePage : Nat) (targetPid : Pid) (targetPage : Nat) :
    ∃ a1, Attaches env a a1 ∧ (a.cloneCowPage env sourcePid sourcePage targetPid targetPage = (false, a1) ∨
      ∃ u t source i, CloneReady env a1 sourcePid sourcePage targetPid targetPage u t source i ∧
        Cloned env a1 sourcePid sourcePage targetPid targetPage t source i
          (a.cloneCowPage env sourcePid sourcePage targetPid targetPage)) := by
  obtain ⟨hs1, hok1, -⟩ := (Attaches.refl : Attaches env a a).initProcess h.ok sourcePid
  obtain ⟨hs2, hok2, hroot⟩ := hs1.initProcess hok1 targetPid
  unfold cloneCowPage
  dsimp only
  generalize a.initProcess env sourcePid = x1 at hs1 hs2 hok2 hroot ⊢
  generalize x1.2.initProcess env targetPid = x2 at hs2 hok2 hroot ⊢
  split
  · exact ⟨a, .refl, .inl rfl⟩
  split
  · exact ⟨_, hs1, .inl rfl⟩
  split
  · exact ⟨_, hs2, .inl rfl⟩
  split
  · exact ⟨_, hs2, .inl rfl⟩
  rename_i hargs _ hinit2 htarget
  refine ⟨_, hs2, ?_⟩
  have hsound := h.attaches hs2
  obtain ⟨t, ht⟩ := hroot (by simpa using hinit2)
  generalize x2.2 = a1 at hsound ht htarget ⊢
  rcases hf : a1.store.find sourcePid sourcePage with _ | source
  · exact .inl rfl
  obtain ⟨u, hu, hmem, -⟩ := find_some hf
  obtain ⟨i, hi⟩ := hsound.backedAt hmem
  dsimp only
  split
  · exact .inl rfl
  rename_i hcheck
  simp only [not_or, not_not, Bool.not_eq_true', Bool.not_eq_false] at hcheck
  obtain ⟨-, hbase, hstop, hwrite, hmatch⟩ := hcheck
  obtain ⟨-, e, he, hphys⟩ := (runMatches_iff _ _ _ _).1 hmatch 0 (by decide)
  have hpage : pageAt sourcePage 0 = sourcePage := by
    unfold pageAt
    omega
  have hown : (a1.store.region source).physicalFor sourcePage = env.pool.phys i := by
    have hfor := hi.physicalFor (hsound.valid hmem) (hsound.valid hmem).pages_pos
    rwa [hbase, hpage] at hfor
  rw [hpage] at he hphys
  rw [hown] at hphys
  have hentry : (a1.table env sourcePid).physical sourcePage = env.pool.phys i := by
    unfold physical
    rwa [he]
  rw [hentry]
  rcases retain_spec a1.anon env.pool (env.pool.phys i) with ⟨j, hret, hj, -, hused⟩ | hret
  · obtain rfl : j = i := env.pool.phys_inj hj
    rw [hret, if_neg (by simp [env.pool.phys_pos])]
    have hready : CloneReady env a1 sourcePid sourcePage targetPid targetPage u t source j := by
      simp only [not_or, not_not] at hargs
      exact ⟨hu, ht, hmem, hi, hbase, hstop, hwrite, alignDown_eq hargs.2.1, ⟨e, he, hphys⟩,
        by simpa [present] using (not_or.1 htarget).2, hused⟩
    exact .inr ⟨u, t, source, j, hready, cloneInto_spec hsound.ok hready⟩
  · rw [hret]
    exact .inl (if_pos (.inr rfl))

/-! ## Handling a fault -/

/-- A fault that has passed its checks: on the one page of region `r`, whose entry `e` shows page `o` of the pool. -/
structure FaultReady (env : Env) (a : Machine Listing) (pid : Pid) (page : Nat) (t : TreeId) (r : RegionId) (i o : Nat)
    (e : Pte) : Prop where
  root : a.store.vmaRoot pid = some t
  mem : r ∈ a.store.regionIds t
  backed : (a.store.region r).BackedAt env.pool i
  base : (a.store.region r).virtBase = page
  stop : (a.store.region r).virtEnd = page + pageBytes
  writable : (a.store.region r).protFlags &&& protWrite ≠ 0
  entry : (a.table env pid).lookup page = some e
  readOnly : e.writable = false
  old : e.phys = env.pool.phys o ∧ o < maxAnonPages

/-- The record of a region that got page `n`. -/
def ownRegion (b : PoolBase) (d : Region) (n : Nat) : Region :=
  { d with physBase := b.phys n, mapFlags := d.mapFlags &&& ~~~mapCopyOnWrite }

/-- The machine after region `r` got page `n`, a copy of page `o`. -/
def faultedAt (env : Env) (a : Machine Listing) (pid : Pid) (r : RegionId) (o n : Nat) (p : PageTable) : Machine Listing where
  store := a.store.setRegion r (ownRegion env.pool (a.store.region r) n)
  anon := ((a.anon.claimRun n 1).copyPage n o).releaseRun o 1
  tables := update a.tables (env.pageRoot pid) p
  budget := a.budget

variable {pid : Pid}

theorem handleCowFault_spec (h : Sound env a) (pid : Pid) (faultAddress : Nat) (errorCode : UInt64) :
    (∃ q, a.anon.Same q ∧ a.handleCowFault env pid faultAddress errorCode = (false, a.setAnon q)) ∨
    ∃ t r i o e n p, FaultReady env a pid (alignDown faultAddress) t r i o e ∧ n < maxAnonPages ∧ a.anon.used n = 0 ∧ n ≠ o ∧
      (∀ x, p.lookup x = if pageNumber x = pageNumber (alignDown faultAddress) then
        some (.make (env.pool.phys n) (pagingProt (a.store.region r).protFlags)) else (a.table env pid).lookup x) ∧
      a.handleCowFault env pid faultAddress errorCode = (true, faultedAt env a pid r o n p) := by
  unfold handleCowFault
  dsimp only
  split
  · exact .inl ⟨a.anon, .refl _, rfl⟩
  rcases hf : a.store.find pid (alignDown faultAddress) with _ | r
  · exact .inl ⟨a.anon, .refl _, rfl⟩
  obtain ⟨t, ht, hmem, -⟩ := find_some hf
  obtain ⟨i, hi⟩ := h.backedAt hmem
  dsimp only
  set page := alignDown faultAddress
  split
  · exact .inl ⟨a.anon, .refl _, rfl⟩
  rename_i hcheck
  simp only [not_or, not_not, Bool.not_eq_true', Bool.not_eq_false] at hcheck
  obtain ⟨-, hwrite, -, hbase, hstop, hpresent, hreadOnly⟩ := hcheck
  obtain ⟨e, he⟩ := isSome_iff_exists.1 hpresent
  have hphys : (a.table env pid).physical page = e.phys := by
    unfold physical
    rw [he]
    rfl
  have hprot : pagingProt (a.store.region r).protFlags &&& protWrite ≠ 0 := (pagingProt_write _).2 hwrite
  have hprot0 : pagingProt (a.store.region r).protFlags ≠ 0 := by
    intro hzero
    rw [hzero] at hprot
    exact hprot (by decide)
  have hread : e.writable = false := by
    unfold protection at hreadOnly
    rw [he] at hreadOnly
    rcases hw : e.writable with _ | _
    · rfl
    · revert hreadOnly
      simp only [map_some, getD_some, Pte.protection, hw, if_true]
      split_ifs <;> decide
  rw [hphys]
  rcases claim_spec a.anon env.pool 1 with ⟨n, hclaim, -, -, hrun, hfree⟩ | ⟨hclaim, -⟩
  · have hn : a.anon.used n = 0 := hfree 0 (by decide)
    have hback : (a.setAnon (a.anon.claimRun n 1)).releasePages env (env.pool.phys n) 1 =
        a.setAnon ((a.anon.claimRun n 1).releaseRun n 1) := congrArg a.setAnon (release_eq (by decide) hrun)
    have hsame : a.anon.Same ((a.anon.claimRun n 1).releaseRun n 1) := release_claimed hfree
    rw [hclaim, pageIndex_phys (by omega)]
    rcases ho : pageIndex env.pool e.phys with _ | o
    · exact .inl ⟨_, hsame, congrArg _ hback⟩
    obtain ⟨hold, hlt⟩ := pageIndex_some ho
    dsimp only
    by_cases hno : env.pool.phys n = e.phys ∨ pagingProt (a.store.region r).protFlags = 0
    · rw [if_pos hno]
      exact .inl ⟨_, hsame, congrArg _ hback⟩
    rw [if_neg hno]
    have hne : n ≠ o := by
      rintro rfl
      exact hno (.inl hold)
    rcases remap_spec (a.table env pid) page (env.pool.phys n) (pagingProt (a.store.region r).protFlags) with
      ⟨p, hremap, hl⟩ | hremap
    · right
      refine ⟨t, r, i, o, e, n, p, ⟨ht, hmem, hi, hbase, hstop, hwrite, he, hread, hold.symm, hlt⟩, by omega, hn, hne, hl, ?_⟩
      rw [hremap]
      have hrelease : ((a.anon.claimRun n 1).copyPage n o).release env.pool e.phys 1 =
          ((a.anon.claimRun n 1).copyPage n o).releaseRun o 1 := by
        rw [← hold]
        exact release_eq (by decide) hlt
      simp only [Bool.not_true, Bool.false_eq_true, if_false, releasePages, setStore, setTable, setAnon, hrelease]
      rfl
    · unfold remap at hremap
      simp only [he] at hremap
      rw [if_neg] at hremap
      · cases hremap
      · have hbits := mt (pagingProt_bits (a.store.region r).protFlags).1 hprot0
        simp [env.pool.phys_aligned, env.pool.phys_pos, hbits]
  · left
    have hzero : pageIndex env.pool 0 = none := if_pos rfl
    rw [hclaim, hzero]
    refine ⟨a.anon, .refl _, ?_⟩
    rcases pageIndex env.pool e.phys with _ | o <;>
      simp only [setAnon, releasePages, release_zero]

end Machine

end LimitlessOS.Vma
