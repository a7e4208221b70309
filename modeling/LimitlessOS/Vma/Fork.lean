/-
  LimitlessOS.Vma.Fork — what one step of `vma64_fork_copy_process` does.

  `forkRegion` copies one region of the parent: its pages must match its entries; the
  child gets a region of the same bounds and protection over freshly claimed pages with
  the same bytes. A step that fails before the region has its place takes everything
  back; one that fails after it leaves the region to the release of the whole child.

  Proved, on a sound machine: `forkRegion_spec`. That the loop keeps the machine sound is in
  `LimitlessOS.Vma.Invariant`.
-/
import LimitlessOS.Vma.Cow
import LimitlessOS.Vma.Split

namespace LimitlessOS.Vma

open Function AnonPool

/-! ## Copying pages -/

/-- `q` is `p` with the pages from `n` claimed and filled from those from `i`. -/
structure AnonPool.Copied (p q : AnonPool) (i n count : Nat) : Prop where
  used : q.used = (p.claimRun n count).used
  claimed : q.claimed = p.claimed + count
  others : ∀ j, ¬ (n ≤ j ∧ j < n + count) → q.bytes j = p.bytes j
  bytes : (∀ j, n ≤ j → j < n + count → ¬ (i ≤ j ∧ j < i + count)) → ∀ k < count, q.bytes (n + k) = p.bytes (i + k)

theorem Machine.copyRun_spec {b : PoolBase} {s t n i : Nat} (hs : s + (i + n) ≤ maxAnonPages) (ht : t + (i + n) ≤ maxAnonPages)
    (p : AnonPool) : ∃ q, copyRun b (b.phys s) (b.phys t) n i p = some q ∧ q.used = p.used ∧ q.claimed = p.claimed ∧
      (∀ j, ¬ (t + i ≤ j ∧ j < t + i + n) → q.bytes j = p.bytes j) ∧
      ((∀ j, t + i ≤ j → j < t + i + n → ¬ (s + i ≤ j ∧ j < s + i + n)) →
        ∀ k, i ≤ k → k < i + n → q.bytes (t + k) = p.bytes (s + k)) := by
  induction n generalizing i p with
  | zero => exact ⟨p, rfl, rfl, rfl, fun _ _ => rfl, fun _ k hk hk' => by omega⟩
  | succ n ih =>
    obtain ⟨q, heq, hused, hclaimed, hothers, hbytes⟩ := ih (i := i + 1) (by omega) (by omega) (p.copyPage (t + i) (s + i))
    have hstep : copyRun b (b.phys s) (b.phys t) (n + 1) i p =
        copyRun b (b.phys s) (b.phys t) n (i + 1) (p.copyPage (t + i) (s + i)) := by
      have hpage : ∀ x, x + i < maxAnonPages → pageIndex b (pageAt (b.phys x) i) = some (x + i) := by
        intro x hx
        have hphys : pageAt (b.phys x) i = b.phys (x + i) := by
          rw [b.phys_add]
          rfl
        rw [hphys, pageIndex_phys hx]
      rw [copyRun, hpage s (by omega), hpage t (by omega)]
    refine ⟨q, hstep.trans heq, hused, hclaimed, ?_, ?_⟩
    · intro j hj
      rw [hothers j (by omega)]
      exact update_of_ne (by omega) ..
    intro hdisj k hk hk'
    by_cases hki : k = i
    · subst hki
      rw [hothers _ (by omega)]
      exact update_self ..
    · rw [hbytes (fun j hj hj' => by have := hdisj j (by omega) (by omega); omega) k (by omega) (by omega)]
      refine update_of_ne ?_ ..
      have := hdisj (t + i) (by omega) (by omega)
      omega

theorem AnonPool.copied_of_copyRun {b : PoolBase} {p : AnonPool} {i n count : Nat} (hi : i + count ≤ maxAnonPages)
    (hn : n + count ≤ maxAnonPages) :
    ∃ q, Machine.copyRun b (b.phys i) (b.phys n) count 0 (p.claimRun n count) = some q ∧ p.Copied q i n count := by
  obtain ⟨q, heq, hused, hclaimed, hothers, hbytes⟩ := Machine.copyRun_spec (b := b) (s := i) (t := n) (n := count) (i := 0)
    (by omega) (by omega) (p.claimRun n count)
  refine ⟨q, heq, hused, hclaimed, ?_, ?_⟩
  · intro j hj
    rw [hothers j (by omega)]
    exact if_neg hj
  intro hdisj k hk
  rw [hbytes (fun j hj hj' => by have := hdisj j (by omega) (by omega); omega) k (by omega) (by omega)]
  refine if_neg ?_
  intro hin
  exact hdisj (i + k) hin.1 hin.2 ⟨by omega, by omega⟩

/-- The copy given back leaves the holders as they were. -/
theorem AnonPool.Copied.release {p q : AnonPool} {i n count : Nat} (h : p.Copied q i n count)
    (hfree : ∀ k < count, p.used (n + k) = 0) : p.Same (q.releaseRun n count) := by
  have hsame := release_claimed hfree
  refine ⟨?_, ?_, ?_⟩
  · rw [← hsame.used]
    simp only [releaseRun, h.used]
  · rw [← hsame.claimed]
    simp only [releaseRun, h.used, h.claimed]
    rfl
  intro j hj
  have hout : ¬ (n ≤ j ∧ j < n + count) := by
    rintro ⟨hle, hlt⟩
    apply hj
    have := hfree (j - n) (by omega)
    rwa [show n + (j - n) = j by omega] at this
  rw [releaseRun_bytes (.inl hout), h.others j hout]

/-! ## One region -/

namespace Machine

/-- The record of a copy of a region. -/
def forkedRegion (b : PoolBase) (d : Region) (n copied : Nat) : Region :=
  ⟨d.virtBase, d.virtEnd, b.phys n, d.protFlags, d.mapFlags &&& ~~~mapCopyOnWrite, backingAnon, backingHandleNone,
    splitToken d.vmaToken (0xF0230000 + UInt32.ofNat copied)⟩

/-- Why a region was not copied. -/
inductive ForkRefused (env : Env) (a : Machine Listing) (parent child : Pid) (t : TreeId) (d : Region) : Prop
  | mismatch (h : (a.table env parent).runMatches d d.virtBase d.pages = false)
  | regions (h : ∀ r < maxStaticRegions, a.store.used r = true)
  | pages (h : a.anon.freeRun d.pages = none)
  | overlap (x : Region) (hx : x ∈ a.store.listed t) (h : ¬ d.Apart x)
  | budget (h : a.store.budgetAllows (a.budget child) t d = false)

/-- The machine with the copy in slot `z` of tree `t`. -/
def forkedAt (env : Env) (a : Machine Listing) (child : Pid) (t : TreeId) (d : Region) (copied : Nat) (z : RegionId) (n : Nat)
    (l : List RegionId) (q : AnonPool) (p : PageTable) : Machine Listing where
  store := a.store.added t z (forkedRegion env.pool d n copied) l
  anon := q
  tables := update a.tables (env.pageRoot child) p
  budget := a.budget

/-- What becomes of the copy of region `d`, whose first page is page `i`. -/
inductive Forked (env : Env) (a : Machine Listing) (parent child : Pid) (t : TreeId) (d : Region) (i copied : Nat) :
    Bool × Machine Listing → Prop
  | refused (q : AnonPool) (hq : a.anon.Same q) (why : ForkRefused env a parent child t d) :
      Forked env a parent child t d i copied (false, a.setAnon q)
  | placed (z : RegionId) (n : Nat) (l : List RegionId) (q : AnonPool) (p : PageTable) (stop : Nat) (ok : Bool)
      (hmatch : (a.table env parent).runMatches d d.virtBase d.pages = true)
      (hadds : a.store.Adds t z (forkedRegion env.pool d n copied) l) (hrun : n + d.pages ≤ maxAnonPages)
      (hfree : ∀ k < d.pages, a.anon.used (n + k) = 0) (hcopied : a.anon.Copied q i n d.pages)
      (hstop : stop ≤ d.pages)
      (hp : PageTable.Installed d.virtBase (env.pool.phys n) (pagingProt d.protFlags) 0 stop (a.table env child) p)
      (hok : ok = true → pagingProt d.protFlags ≠ 0 ∧ stop = d.pages)
      (hno : ok = false → pagingProt d.protFlags = 0 ∨ (PageTable.installRun (limit env child) d.virtBase (env.pool.phys n)
        (pagingProt d.protFlags) d.pages 0 (a.table env child)).1 ≠ none) :
      Forked env a parent child t d i copied (ok, forkedAt env a child t d copied z n l q p)

variable {env : Env} {a : Machine Listing} {parent child : Pid} {u t : TreeId} {source : RegionId} {i copied : Nat}

theorem forkSalt_ne (h : copied < maxStaticRegions) : (0xF0230000 + UInt32.ofNat copied : UInt32) ≠ 0 := by
  intro heq
  have hnat := congrArg UInt32.toNat heq
  rw [UInt32.toNat_add, UInt32.toNat_ofNat'] at hnat
  simp only [maxStaticRegions] at h
  have : (0xF0230000 : UInt32).toNat = 0xF0230000 := by decide
  have h0 : (0 : UInt32).toNat = 0 := by decide
  omega

theorem forkRegion_spec (parent : Pid) (h : Sound env a) (hr : source ∈ a.store.regionIds u) (ht : a.store.vmaRoot child = some t)
    (hi : (a.store.region source).BackedAt env.pool i) (hcopied : copied < maxStaticRegions) :
    Forked env a parent child t (a.store.region source) i copied (a.forkRegion env parent child source copied) := by
  unfold forkRegion
  dsimp only
  set d := a.store.region source
  have hv : d.Valid := h.valid hr
  have hpos := hv.pages_pos
  have hrun := hi.run
  obtain ⟨hphys, hphys'⟩ := hi.phys_ne hpos
  rw [hi.pageCount hv]
  by_cases hmatch : (a.table env parent).runMatches d d.virtBase d.pages
  swap
  · rw [if_pos (by simp [hmatch])]
    exact .refused a.anon (.refl _) (.mismatch (by simpa using hmatch))
  rw [if_neg (by simp only [hmatch, hi.backing, hphys, hphys']; simp; omega)]
  rcases Store.regionAcquire_spec a.store with ⟨z, hacq, hunused, hbound⟩ | ⟨hacq, hfull⟩ <;> simp only [hacq, setStore]
  swap
  · exact .refused a.anon (.refl _) (.regions hfull)
  rcases claim_spec a.anon env.pool d.pages with ⟨n, hclaim, -, -, hnrun, hfree⟩ | ⟨hclaim, hwhy⟩ <;>
    simp only [hclaim, setAnon]
  swap
  · have hpages : a.anon.freeRun d.pages = none := by
      rcases hwhy with h0 | hgt | hnone
      · omega
      · omega
      · exact hnone
    have hstore := h.ok.release_grabbed hunused
    simp only [Store.grabbed] at hstore
    simp only [if_true, releaseRegion, setStore, hstore]
    exact .refused a.anon (.refl _) (.pages hpages)
  obtain ⟨q, hcopy, hq⟩ := copied_of_copyRun (b := env.pool) (p := a.anon) hrun hnrun
  rw [← hi.phys] at hcopy
  simp only [if_neg (env.pool.phys_pos n), hcopy, place]
  have hfits : (forkedRegion env.pool d n copied).virtEnd < 2 ^ 64 := hv.fits
  rcases Store.place_grabbed h.ok (a.budget child) ht hunused hbound hfits with
    ⟨l, hplace, hadds, -⟩ | ⟨s', hplace, hs', hwhy⟩ <;> unfold Store.grabbed forkedRegion at hplace <;> simp only [hplace]
  · by_cases hprot : pagingProt d.protFlags = 0
    · have hsame : forkedAt env a child t d copied z n l q (a.table env child) =
          ⟨a.store.added t z (forkedRegion env.pool d n copied) l, q, a.tables, a.budget⟩ := by
        unfold forkedAt table
        rw [update_eq_self]
      simp only [Bool.not_true, Bool.false_eq_true, if_false, if_pos hprot]
      change Forked env a parent child t d i copied (false, ⟨a.store.added t z (forkedRegion env.pool d n copied) l, _, _, _⟩)
      rw [← hsame]
      refine .placed z n l q _ 0 false hmatch hadds hnrun hfree hq (Nat.zero_le _) ?_ (fun h => by cases h) fun _ => .inl hprot
      exact ⟨fun x => .inl rfl, fun k hk hk' => absurd hk' (by omega)⟩
    · simp only [Bool.not_true, Bool.false_eq_true, if_false, if_neg hprot]
      rcases PageTable.installRun_spec (limit env child) d.virtBase (env.pool.phys n) (pagingProt d.protFlags) d.pages 0
        (a.table env child) with ⟨hnone, hinst⟩ | ⟨k, hsome, -, hk, hinst⟩
      · rw [Nat.zero_add] at hinst
        have hok := congrArg Option.isNone hnone
        exact hok ▸ .placed z n l q _ d.pages true hmatch hadds hnrun hfree hq le_rfl hinst (fun _ => ⟨hprot, rfl⟩)
          fun h => by cases h
      · have hok := congrArg Option.isNone hsome
        refine hok ▸ .placed z n l q _ k false hmatch hadds hnrun hfree hq (by omega) hinst (fun h => by cases h) fun _ => .inr ?_
        rw [hsome]
        intro h
        cases h
  · have hrelease : q.release env.pool (env.pool.phys n) d.pages = q.releaseRun n d.pages := release_eq hpos hnrun
    simp only [Bool.not_false, if_true, releasePages, setAnon, releaseRegion, setStore, hrelease, hs']
    refine .refused _ (hq.release hfree) ?_
    rcases hwhy with hbad | ⟨x, hx, hover⟩ | hbud
    · exact absurd ⟨hv.range, Region.splitToken_ne _ (forkSalt_ne hcopied)⟩ hbad
    · exact .overlap _ (List.mem_map_of_mem hx) ((rangesOverlap_iff (forkedRegion env.pool d n copied) _).1 hover)
    · exact .budget hbud

end Machine

end LimitlessOS.Vma
