/-
  LimitlessOS.Vma.MapAnon — what `vma64_map_anon` does.

  On a listed machine, `mapAt` either adds one region over freshly claimed pages and maps
  them (`Maps`), or takes back every step it made: only peak totals and page tables
  without entries can tell (`Restored`).
-/
import LimitlessOS.Vma.AnonPages
import LimitlessOS.Vma.PageEntries
import LimitlessOS.Vma.Refinement

namespace LimitlessOS.Vma

open Store AnonPool

namespace Machine

/-- All steps taken back: the same regions and page counts, the same bytes in every page in use, the same entries. -/
structure Restored (a a' : Machine Listing) : Prop where
  store : a'.store = a.store ∨ ∃ t d, a'.store = a.store.peaked t d
  used : a'.anon.used = a.anon.used
  claimed : a'.anon.claimed = a.anon.claimed
  bytes : ∀ j, a.anon.used j ≠ 0 → a'.anon.bytes j = a.anon.bytes j
  entry : ∀ root x, (a'.tables root).lookup x = (a.tables root).lookup x
  budget : a'.budget = a.budget

theorem Restored.refl (a : Machine Listing) : Restored a a := ⟨.inl rfl, rfl, rfl, fun _ _ => rfl, fun _ _ => rfl, rfl⟩

/-- The record of a new anonymous region. -/
def anonRegion (b : PoolBase) (virt length i : Nat) (prot map : UInt32) : Region :=
  ⟨virt, virt + length, b.phys i, prot, map, backingAnon, backingHandleNone, 0xA3000001⟩

/-- The machine with a region in slot `r` over the pages from page `i`, before its entries are installed. -/
def placedAt (env : Env) (a : Machine Listing) (t : TreeId) (virt length : Nat) (prot map : UInt32) (r : RegionId) (i : Nat)
    (l : List RegionId) : Machine Listing where
  store := ((a.store.grabbed r).setRegion r (anonRegion env.pool virt length i prot map)).inserted t r l
  anon := a.anon.claimRun i (pageCountFromLength length)
  tables := a.tables
  budget := a.budget

/-- Slot `r`, the pages from page `i` and the place in tree `t` that makes its list `l` are free. -/
structure Room (env : Env) (a : Machine Listing) (pid : Pid) (t : TreeId) (virt length : Nat) (prot map : UInt32)
    (r : RegionId) (i : Nat) (l : List RegionId) : Prop where
  unused : a.store.used r = false
  bound : r < maxStaticRegions
  pos : 0 < pageCountFromLength length
  run : i + pageCountFromLength length ≤ maxAnonPages
  free : ∀ k < pageCountFromLength length, a.anon.used (i + k) = 0
  valid : (anonRegion env.pool virt length i prot map).Valid
  fits : ((a.store.grabbed r).setRegion r (anonRegion env.pool virt length i prot map)).Fits t r l
  budget : budgetCheck (a.budget pid) (pages32 (a.store.totals t).mappedBytes) (pages32 length) = true

/-- The entries of a new mapping: all of its pages, or none without any protection bit. -/
def Mapped (b : PoolBase) (virt length i : Nat) (prot : UInt32) (p p' : PageTable) : Prop :=
  (pagingProt prot = 0 ∧ p' = p) ∨
    (pagingProt prot ≠ 0 ∧ PageTable.Installed virt (b.phys i) (pagingProt prot) 0 (pageCountFromLength length) p p')

variable {env : Env} {a m : Machine Listing} {pid : Pid} {t : TreeId} {virt length hint : Nat} {prot map : UInt32}
  {r : RegionId}

/-- Why a mapping with a place was refused. -/
inductive MapRefused (env : Env) (a : Machine Listing) (pid : Pid) (t : TreeId) (virt length : Nat) (prot : UInt32) : Prop
  | regions (h : ∀ r < maxStaticRegions, a.store.used r = true)
  | pages (h : a.anon.freeRun (pageCountFromLength length) = none)
  | overlap (r : RegionId) (hr : r ∈ a.store.regionIds t)
      (h : rangesOverlap virt (virt + length) (a.store.region r).virtBase (a.store.region r).virtEnd = true)
  | budget (h : budgetCheck (a.budget pid) (pages32 (a.store.totals t).mappedBytes) (pages32 length) = false)
  | entries (h : pagingProt prot ≠ 0)

theorem lookup_setTable {p : PageTable} {x : Nat} (h : p.lookup x = (m.table env pid).lookup x) (root : PageRoot) :
    ((m.setTable env pid p).tables root).lookup x = (m.tables root).lookup x := by
  by_cases hr : root = env.pageRoot pid
  · subst hr
    rwa [tables_setTable_self]
  · rw [tables_setTable_of_ne hr]

theorem length_of_pageCount (h : pageCountFromLength length ≠ 0) :
    0 < length ∧ length % pageBytes = 0 ∧ pageCountFromLength length = length / pageBytes := by
  unfold pageCountFromLength at *
  by_cases hbad : length = 0 ∨ length % pageBytes ≠ 0 ∨ length / pageBytes > 0xFFFFFFFF
  · rw [if_pos hbad] at h
    exact absurd rfl h
  · rw [if_neg hbad] at h ⊢
    omega

theorem rangeValid_of_pageCount (halign : virt % pageBytes = 0) (hcount : pageCountFromLength length ≠ 0) :
    rangeValid virt (virt + length) := by
  obtain ⟨hpos, hlen, -⟩ := length_of_pageCount hcount
  unfold rangeValid
  simp only [Bool.and_eq_true, decide_eq_true_eq]
  simp only [pageBytes] at *
  omega

/-- A claimed run and a slot given back, over a store and entries that are as they were. -/
theorem restored_claimed {i count : Nat} (hpos : 0 < count) (hrun : i + count ≤ maxAnonPages)
    (hfree : ∀ k < count, a.anon.used (i + k) = 0)
    (hstore : m.store.regionRelease r = a.store ∨ ∃ t d, m.store.regionRelease r = a.store.peaked t d)
    (hanon : m.anon = a.anon.claimRun i count) (hentry : ∀ root x, (m.tables root).lookup x = (a.tables root).lookup x)
    (hbudget : m.budget = a.budget) : Restored a ((m.releasePages env (env.pool.phys i) count).releaseRegion r) := by
  obtain ⟨hused, hclaimed, hbytes⟩ := release_claimed hfree
  have hrel : ((m.releasePages env (env.pool.phys i) count).releaseRegion r).anon =
      (a.anon.claimRun i count).releaseRun i count := by
    show m.anon.release env.pool (env.pool.phys i) count = _
    rw [hanon, release_eq hpos hrun]
  refine ⟨hstore, ?_, ?_, ?_, hentry, hbudget⟩
  · rw [hrel, hused]
  · rw [hrel, hclaimed]
  · intro j hj
    rw [hrel, hbytes j hj]

/-- What becomes of a region that has been placed over freshly claimed pages. -/
theorem mapInstall_spec (hok : a.store.Ok) {i : Nat} {l : List RegionId} (ht : a.store.vmaRoot pid = some t)
    (hclear : (a.table env pid).runClear virt (pageCountFromLength length)) (h : Room env a pid t virt length prot map r i l) :
    (∃ p', (placedAt env a t virt length prot map r i l).mapInstall env pid r virt length (env.pool.phys i) prot =
        (virt, (placedAt env a t virt length prot map r i l).setTable env pid p') ∧
      Mapped env.pool virt length i prot (a.table env pid) p') ∨
    (∃ a', (placedAt env a t virt length prot map r i l).mapInstall env pid r virt length (env.pool.phys i) prot = (0, a') ∧
      Restored a a' ∧ pagingProt prot ≠ 0) := by
  have htable : (placedAt env a t virt length prot map r i l).table env pid = a.table env pid := rfl
  by_cases hprot : pagingProt prot = 0
  · refine .inl ⟨a.table env pid, ?_, .inl ⟨hprot, rfl⟩⟩
    rw [← htable, setTable_table]
    simp only [mapInstall, hprot, if_true]
  simp only [mapInstall, hprot, if_false, htable]
  rcases PageTable.installRun_spec (limit env pid) virt (env.pool.phys i) (pagingProt prot) (pageCountFromLength length) 0
    (a.table env pid) with ⟨hnone, hinst⟩ | ⟨k, hsome, -, -, -⟩
  · left
    rw [hnone]
    rw [Nat.zero_add] at hinst
    exact ⟨_, rfl, .inr ⟨hprot, hinst⟩⟩
  · right
    rw [hsome]
    refine ⟨_, rfl, ?_, hprot⟩
    -- the rollback: entries cleared, region taken out, pages and slot given back
    have hadds : a.store.Adds t r (anonRegion env.pool virt length i prot map) l := ⟨h.unused, h.bound, h.valid, h.fits⟩
    refine restored_claimed h.pos h.run h.free (.inr ⟨t, _, hadds.remove hok ht⟩) rfl ?_ rfl
    intro root x
    exact lookup_setTable (PageTable.clearBack_installRun hclear hsome x) root

theorem mapAt_spec (hok : a.store.Ok) (ht : a.store.vmaRoot pid = some t)
    (hfits : virt + length < 2 ^ 64) (halign : virt % pageBytes = 0) (hcount : pageCountFromLength length ≠ 0)
    (hmax : pageCountFromLength length ≤ maxAnonPages)
    (hclear : (a.table env pid).runClear virt (pageCountFromLength length)) :
    (∃ r i l p', a.mapAt env pid virt length prot map =
        (virt, (placedAt env a t virt length prot map r i l).setTable env pid p') ∧
      Room env a pid t virt length prot map r i l ∧ Mapped env.pool virt length i prot (a.table env pid) p') ∨
    (∃ a', a.mapAt env pid virt length prot map = (0, a') ∧ Restored a a' ∧ MapRefused env a pid t virt length prot) := by
  unfold mapAt
  rcases regionAcquire_spec a.store with ⟨r, hacq, hunused, hbound⟩ | ⟨hacq, hnone⟩ <;> simp only [hacq, setStore]
  swap
  · exact .inr ⟨a, rfl, .refl a, .regions hnone⟩
  rcases claim_spec a.anon env.pool (pageCountFromLength length) with
    ⟨i, hclaim, -, hpos, hrun, hfree⟩ | ⟨hclaim, hwhy⟩ <;> simp only [hclaim, setAnon]
  swap
  · have hstore := hok.release_grabbed hunused
    simp only [grabbed] at hstore
    simp only [if_true, releaseRegion, setStore, hstore]
    refine .inr ⟨a, rfl, .refl a, .pages ?_⟩
    rcases hwhy with h0 | hgt | hnone
    · exact absurd h0 hcount
    · omega
    · exact hnone
  have hd : (anonRegion env.pool virt length i prot map).virtEnd < 2 ^ 64 := hfits
  have hlen : (anonRegion env.pool virt length i prot map).length = length := Nat.add_sub_cancel_left ..
  simp only [if_neg (env.pool.phys_pos i), place]
  rcases place_grabbed hok (a.budget pid) ht hunused hbound hd with
    ⟨l, hplace, hadds, hbud⟩ | ⟨s', hplace, hs', hwhy⟩ <;> unfold grabbed anonRegion at hplace <;>
    simp only [hplace, setStore]
  · simp only [budgetAllows, hlen] at hbud
    have hroom : Room env a pid t virt length prot map r i l :=
      ⟨hunused, hbound, hpos, hrun, hfree, hadds.valid, hadds.fits, hbud⟩
    rcases mapInstall_spec hok ht hclear hroom with ⟨p', heq, hmapped⟩ | ⟨a', heq, hres, hprot⟩
    · exact .inl ⟨r, i, l, p', heq, hroom, hmapped⟩
    · exact .inr ⟨a', heq, hres, .entries hprot⟩
  · refine .inr ⟨_, rfl, restored_claimed hpos hrun hfree (.inl hs') rfl (fun _ _ => rfl) rfl, ?_⟩
    rcases hwhy with hbad | ⟨x, hx, hover⟩ | hbud
    · exact absurd ⟨rangeValid_of_pageCount halign hcount, show (0xA3000001 : UInt32) ≠ 0 by decide⟩ hbad
    · exact .overlap x hx hover
    · simp only [budgetAllows, hlen] at hbud
      exact .budget hbud

/-! ## With its process and its place -/

/-- `initProcess` has answered yes: the process has a tree, old or new. -/
def Started (env : Env) (a : Machine Listing) (pid : Pid) (t : TreeId) (a₀ : Machine Listing) : Prop :=
  (a₀ = a ∧ a.store.vmaRoot pid = some t) ∨
    (a₀ = a.setStore (a.store.attached pid t) ∧ a.store.vmaRoot pid = none ∧ a.store.treePid t = invalidPid ∧
      t < maxProcessTrees ∧ env.known pid = true)

theorem initProcess_started (hok : a.store.Ok) (env : Env) (pid : Pid) :
    (∃ t a0, a.initProcess env pid = (true, a0) ∧ Started env a pid t a0 ∧ a0.store.Ok ∧ a0.store.vmaRoot pid = some t) ∨
    (a.initProcess env pid = (false, a) ∧ (pid = invalidPid ∨ a.store.vmaRoot pid = none ∧
      (env.known pid = false ∨ ∀ t < maxProcessTrees, a.store.treePid t ≠ invalidPid))) := by
  unfold initProcess
  rcases initProcess_spec hok (env.known pid) pid with ⟨heq, -, hsome⟩ | ⟨t, heq, hpid, hnone, hfree, hlt, hknown⟩ | ⟨heq, hwhy⟩
  · left
    obtain ⟨t, ht⟩ := Option.isSome_iff_exists.1 hsome
    rw [heq]
    exact ⟨t, a, rfl, .inl ⟨rfl, ht⟩, hok, ht⟩
  · left
    rw [heq]
    exact ⟨t, _, rfl, .inr ⟨rfl, hnone, hfree, hlt, hknown⟩, hok.attached hpid hnone hfree hlt, Function.update_self ..⟩
  · right
    rw [heq]
    exact ⟨rfl, hwhy⟩

theorem mapPlace_spec (h : a.mapPlace env pid hint length map = some virt) :
    (a.table env pid).runClear virt (pageCountFromLength length) ∧ virt % pageBytes = 0 ∧
      (map &&& mapFixed ≠ 0 ∧ virt = hint ∨ map &&& mapFixed = 0 ∧ virt ≠ 0) := by
  simp only [mapPlace] at h
  by_cases hfixed : map &&& mapFixed ≠ 0
  · split_ifs at h with hbad
    obtain rfl := Option.some.inj h
    simp only [not_or, not_not, Bool.not_eq_true', Bool.not_eq_false] at hbad
    exact ⟨hbad.2.2, hbad.1, .inl ⟨hfixed, rfl⟩⟩
  · have haligned := findGap_aligned a.store pid (if hint ≠ 0 then hint else anonHintBase) anonHintLimit length
    generalize a.store.findGap pid (if hint ≠ 0 then hint else anonHintBase) anonHintLimit length pageBytes = gap at h haligned
    split_ifs at h with hbad
    obtain rfl := Option.some.inj h
    simp only [not_or, Bool.not_eq_true', Bool.not_eq_false] at hbad
    exact ⟨hbad.2, haligned, .inr ⟨not_not.1 hfixed, hbad.1⟩⟩

/-- `mapAnon` has put a mapping at `virt`. -/
structure Maps (env : Env) (a : Machine Listing) (pid : Pid) (hint length : Nat) (prot map : UInt32) (virt : Nat)
    (a' : Machine Listing) (t : TreeId) (a₀ : Machine Listing) (r : RegionId) (i : Nat) (l : List RegionId)
    (p' : PageTable) : Prop where
  started : Started env a pid t a₀
  ok : a₀.store.Ok
  root : a₀.store.vmaRoot pid = some t
  anonymous : map &&& mapAnonymous ≠ 0
  chosen : map &&& mapFixed ≠ 0 ∧ virt = hint ∨ map &&& mapFixed = 0 ∧ virt ≠ 0
  clear : (a₀.table env pid).runClear virt (pageCountFromLength length) = true
  room : Room env a₀ pid t virt length prot map r i l
  mapped : Mapped env.pool virt length i prot (a₀.table env pid) p'
  result : a' = (placedAt env a₀ t virt length prot map r i l).setTable env pid p'

/-- `mapAnon` has taken back what it did, but for a tree that the process got; `why` if it got as far as a place. -/
inductive MapFails (env : Env) (a : Machine Listing) (pid : Pid) (hint length : Nat) (prot map : UInt32)
    (a' : Machine Listing) : Prop
  | arguments (h : pageCountFromLength length = 0 ∨ pageCountFromLength length > maxAnonPages ∨ map &&& mapAnonymous = 0)
      (heq : a' = a)
  | process (h : a.initProcess env pid = (false, a)) (heq : a' = a)
  | place (t : TreeId) (a₀ : Machine Listing) (hstart : Started env a pid t a₀)
      (h : a₀.mapPlace env pid hint length map = none) (heq : a' = a₀)
  | refused (t : TreeId) (a₀ : Machine Listing) (hstart : Started env a pid t a₀) (hrest : Restored a₀ a') (virt : Nat)
      (hplace : a₀.mapPlace env pid hint length map = some virt) (why : MapRefused env a₀ pid t virt length prot)

theorem mapAnon_spec (env : Env) (pid : Pid) (prot map : UInt32) (hok : a.store.Ok) (hhint : hint < 2 ^ 64)
    (hlen : length < 2 ^ 64) :
    (∃ virt a' t a0 r i l p', a.mapAnon env pid hint length prot map = (virt, a') ∧
      Maps env a pid hint length prot map virt a' t a0 r i l p') ∨
    (∃ a', a.mapAnon env pid hint length prot map = (0, a') ∧ MapFails env a pid hint length prot map a') := by
  by_cases hargs : pageCountFromLength length = 0 ∨ pageCountFromLength length > maxAnonPages ∨ map &&& mapAnonymous = 0
  · refine .inr ⟨a, ?_, .arguments hargs rfl⟩
    simp only [mapAnon, hargs, if_true]
  rcases initProcess_started hok env pid with ⟨t, a0, hinit, hstart, hok0, ht⟩ | ⟨hinit, -⟩
  · rcases hplace : a0.mapPlace env pid hint length map with _ | virt
    · refine .inr ⟨a0, ?_, .place t a0 hstart hplace rfl⟩
      simp only [mapAnon, hargs, if_false, hinit, if_true, hplace]
    · have hmap : a.mapAnon env pid hint length prot map = a0.mapAt env pid virt length prot map := by
        simp only [mapAnon, hargs, if_false, hinit, if_true, hplace]
      rw [hmap]
      simp only [not_or, not_lt] at hargs
      obtain ⟨hclear, halign, hchosen⟩ := mapPlace_spec hplace
      have hfits := mapPlace_fits hok0 hhint hlen hplace
      rcases mapAt_spec hok0 ht hfits halign hargs.1 hargs.2.1 hclear with
        ⟨r, i, l, p', heq, hroom, hmapped⟩ | ⟨a', heq, hrest, why⟩
      · exact .inl ⟨virt, _, t, a0, r, i, l, p', heq, hstart, hok0, ht, hargs.2.2, hchosen, hclear, hroom, hmapped, rfl⟩
      · exact .inr ⟨a', heq, .refused t a0 hstart hrest virt hplace why⟩
  · refine .inr ⟨a, ?_, .process hinit rfl⟩
    simp only [mapAnon, hargs, if_false, hinit, Bool.false_eq_true]

end Machine

end LimitlessOS.Vma
