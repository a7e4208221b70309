/-
  LimitlessOS.Vma.Invariant — every reachable machine is sound.

  Each operation keeps every listed region backed by pages of the pool, whatever it
  answers. With `LimitlessOS.Vma.Refinement`, which keeps the store good, every machine
  that the code reaches refines a sound one (`reachable_sound`).
-/
import LimitlessOS.Vma.Fork
import LimitlessOS.Vma.MapContract
import LimitlessOS.Vma.Protect

namespace LimitlessOS.Vma

open Function List Store Region

namespace Machine

variable {env : Env} {a a' : Machine Listing} {pid : Pid} {t : TreeId}

/-- The half of `Sound` that is about records. -/
def AllBacked (env : Env) (a : Machine Listing) : Prop := ∀ t, ∀ d ∈ a.store.listed t, d.Backed env.pool

theorem AllBacked.of_listed (h : AllBacked env a) (hl : ∀ t, a'.store.listed t = a.store.listed t) : AllBacked env a' :=
  fun t d hd => h t d (hl t ▸ hd)

variable {d : Region} {m : Machine Links} {held : RegionId → Prop} {r : RegionId}

/-- One more region, which is backed. -/
theorem AllBacked.added (h : AllBacked env a) (hok : a.store.Ok) {l : List RegionId} (ha : a.store.Adds t r d l)
    (hd : d.Backed env.pool) (hstore : a'.store = a.store.added t r d l) : AllBacked env a' := by
  intro t' x hx
  rw [hstore] at hx
  by_cases ht : t' = t
  · subst ht
    rcases mem_cons.1 ((ha.perm hok).mem_iff.1 hx) with rfl | hx
    · exact hd
    · exact h t' x hx
  · rw [ha.others hok ht] at hx
    exact h t' x hx

theorem backed_mapAnon (h : Sound env a) (pid : Pid) {hint length : Nat} (prot map : UInt32) (hhint : hint < 2 ^ 64)
    (hlen : length < 2 ^ 64) : AllBacked env (a.mapAnon env pid hint length prot map).2 := by
  rcases mapAnon_spec env pid prot map h.ok hhint hlen with
    ⟨virt, a', t, a0, r, i, l, p', heq, hmaps⟩ | ⟨a', heq, hfails⟩
  · rw [heq]
    have h0 : AllBacked env a0 := AllBacked.of_listed h.backed hmaps.started.listed
    refine h0.added hmaps.ok ⟨hmaps.room.unused, hmaps.room.bound, hmaps.room.valid, hmaps.room.fits⟩ ⟨i, ?_⟩
      (by rw [hmaps.result]; rfl)
    obtain ⟨-, -, hcount⟩ := length_of_pageCount hmaps.room.pos.ne'
    refine ⟨rfl, show (0xA3000001 : UInt32) ≠ 0 by decide, rfl, ?_⟩
    have hrun := hmaps.room.run
    rw [hcount] at hrun
    show i + (virt + length - virt) / pageBytes ≤ _
    rwa [Nat.add_sub_cancel_left]
  · rw [heq]
    exact AllBacked.of_listed h.backed hfails.untouched.listed

/-- A region may change in its flags. -/
theorem AllBacked.setRegion (h : AllBacked env a) (hd : d.Backed env.pool)
    (hl : ∀ t, a'.store.listed t = (a.store.setRegion r d).listed t) : AllBacked env a' := by
  intro t x hx
  rw [hl] at hx
  obtain ⟨z, hz, rfl⟩ := mem_map.1 hx
  by_cases hzr : z = r
  · subst hzr
    rwa [setRegion_region_self]
  · have hrec : (a.store.setRegion r d).region z = a.store.region z := update_of_ne hzr ..
    rw [hrec]
    exact h t _ (mem_map_of_mem hz)

theorem Region.Backed.flags {b : PoolBase} (h : d.Backed b) (flags : UInt32) : Backed b
    { d with mapFlags := flags } := by
  obtain ⟨i, hi⟩ := h
  exact ⟨i, hi.backing, hi.token, hi.phys, hi.run⟩

theorem backed_cloneCowPage (h : Sound env a) (sourcePid targetPid : Pid) (sourcePage targetPage : Nat) :
    AllBacked env (a.cloneCowPage env sourcePid sourcePage targetPid targetPage).2 := by
  obtain ⟨a1, hatt, hfalse | ⟨u, t, source, i, hready, hcloned⟩⟩ := cloneCowPage_spec h sourcePid sourcePage targetPid targetPage
  · rw [hfalse]
    exact (h.attaches hatt).backed
  have h1 := h.attaches hatt
  have hmark : AllBacked env (a1.setStore (markCow a1.store source)) :=
    AllBacked.setRegion h1.backed (Region.Backed.flags ⟨i, hready.backed⟩ _) fun _ => rfl
  generalize a.cloneCowPage env sourcePid sourcePage targetPid targetPage = x at hcloned ⊢
  cases hcloned with
  | refused => exact h1.backed
  | undone d p hp => exact hmark.of_listed fun _ => rfl
  | done z l tables hadds hother hsource htarget =>
    refine hmark.added (markCow_ok h1.ok hready.mem) hadds ⟨i, rfl, ?_, rfl, ?_⟩ rfl
    · exact splitToken_ne _ (by decide)
    have hlt := hready.index_lt
    have hpages : (cloneRegion env.pool (a1.store.region source) targetPage i).pages ≤ 1 := by
      show (add64 targetPage pageBytes - targetPage) / pageBytes ≤ 1
      unfold add64
      simp only [pageBytes]
      omega
    omega

theorem backed_handleCowFault (h : Sound env a) (pid : Pid) (faultAddress : Nat) (errorCode : UInt64) :
    AllBacked env (a.handleCowFault env pid faultAddress errorCode).2 := by
  rcases handleCowFault_spec h pid faultAddress errorCode with ⟨q, -, heq⟩ | ⟨t, r, i, o, e, n, p, hready, hn, -, -, -, heq⟩
  · rw [heq]
    exact h.backed
  rw [heq]
  refine AllBacked.setRegion h.backed (d := ownRegion env.pool (a.store.region r) n) ⟨n, hready.backed.backing,
    hready.backed.token, rfl, ?_⟩ fun _ => rfl
  have hpages : (ownRegion env.pool (a.store.region r) n).pages = 1 := by
    show ((a.store.region r).virtEnd - (a.store.region r).virtBase) / pageBytes = 1
    rw [hready.stop, hready.base, Nat.add_sub_cancel_left]
    rfl
  omega

/-! ## The loop of `vma64_fork_copy_process` -/

/-- A copy that has its place leaves a sound machine with the parent's regions where they were. -/
theorem Forked.sound (h : Sound env a) {parent child : Pid} {i copied : Nat} {x : Bool × Machine Listing}
    (ht : a.store.vmaRoot child = some t) (hcopied : copied < maxStaticRegions)
    (hf : Forked env a parent child t d i copied x) :
    Sound env x.2 ∧ x.2.store.vmaRoot = a.store.vmaRoot ∧ ∀ u, ∀ z ∈ a.store.regionIds u,
      z ∈ x.2.store.regionIds u ∧ x.2.store.region z = a.store.region z := by
  cases hf with
  | refused q hq why => exact ⟨⟨h.ok, h.backed⟩, rfl, fun u z hz => ⟨hz, rfl⟩⟩
  | placed z n l q p stop ok hmatch hadds hrun hfree hcopy hstop hp hok hno =>
    refine ⟨⟨hadds.ok h.ok ht, ?_⟩, rfl, ?_⟩
    · refine AllBacked.added h.backed h.ok hadds ⟨n, rfl, ?_, rfl, hrun⟩ rfl
      exact splitToken_ne _ (forkSalt_ne hcopied)
    intro u w hw
    have hne : w ≠ z := by
      rintro rfl
      have hused := h.ok.used u w hw
      simp [hadds.unused] at hused
    refine ⟨?_, ?_⟩
    · show w ∈ (a.store.added t z _ l).regionIds u
      rw [added, regionIds_inserted]
      split_ifs with hu
      · subst hu
        exact hadds.fits.perm.mem_iff.2 (mem_cons_of_mem z hw)
      · exact hw
    · show update (update a.store.region z _) z _ w = _
      rw [update_idem, update_of_ne hne]

theorem sound_forkLoop (env : Env) (parent child : Pid) (ids : List RegionId) (copied : Nat) {u : TreeId}
    (h : Sound env a) (ht : a.store.vmaRoot child = some t) (hids : ∀ r ∈ ids, r ∈ a.store.regionIds u)
    (hlen : copied + ids.length ≤ maxStaticRegions) : Sound env (a.forkLoop env parent child ids copied).2 := by
  induction ids generalizing a copied with
  | nil => exact h
  | cons source rest ih =>
    rw [length_cons] at hlen
    have hr := hids source mem_cons_self
    obtain ⟨i, hi⟩ := h.backedAt hr
    have hf := forkRegion_spec parent h hr ht hi (show copied < maxStaticRegions by omega)
    obtain ⟨hsound, hroot, hkeep⟩ := hf.sound h ht (by omega)
    rw [forkLoop]
    split_ifs
    · exact ih (copied + 1) hsound (by rw [hroot]; exact ht)
        (fun r hr' => (hkeep u r (hids r (mem_cons_of_mem _ hr'))).1) (by omega)
    · exact hsound.releaseProcess child

section

variable (h : Sound env a) {newBrk : Nat}
include h

/-- The break of a tree that a process holds may move. -/
theorem Sound.setBrk (ht : a.store.vmaRoot pid = some t) {d : Totals}
    (hcount : d.regionCount = (a.store.totals t).regionCount) (hbytes : d.mappedBytes = (a.store.totals t).mappedBytes) :
    Sound env (a.setStore (a.store.setTotals t d)) :=
  ⟨h.ok.setTotals_brk (h.ok.treePid_ne ht) hcount hbytes, h.backed⟩

theorem sound_forkCopyProcess (parent child : Pid) :
    Sound env (a.forkCopyProcess env parent child).2 := by
  obtain ⟨hs1, hok1, -⟩ := (Attaches.refl : Attaches env a a).initProcess h.ok parent
  obtain ⟨hs2, hok2, -⟩ := hs1.initProcess hok1 child
  unfold forkCopyProcess
  dsimp only
  split_ifs
  · exact h
  · exact h.attaches hs1
  · exact h.attaches hs2
  have h2 := h.attaches hs2
  generalize ((a.initProcess env parent).2.initProcess env child).2 = a2 at h2 ⊢
  rcases hp : a2.store.vmaRoot parent with _ | pt
  · exact h2
  rcases hc : a2.store.vmaRoot child with _ | ct
  · exact h2
  dsimp only
  split_ifs
  · exact h2
  have h3 := h2.setBrk hc (d := { a2.store.totals ct with
    brkBase := (a2.store.totals pt).brkBase, brkCurrent := (a2.store.totals pt).brkCurrent
    brkPeak := (a2.store.totals pt).brkPeak }) rfl rfl
  refine sound_forkLoop env parent child _ 0 (u := pt) h3 hc (fun r hr => hr) ?_
  rw [Nat.zero_add]
  exact h3.ids_length pt

theorem sound_brkInitTree (ht : a.store.vmaRoot pid = some t) : Sound env (a.brkInitTree t) := by
  unfold brkInitTree
  split_ifs
  · exact h.setBrk ht rfl rfl
  · exact h

theorem backed_brkMove (pid : Pid) (t : TreeId) (hnew : newBrk < 2 ^ 64) :
    AllBacked env (a.brkMove env pid t newBrk).2 := by
  unfold brkMove
  dsimp only
  have hmapped : (a.store.totals t).brkCurrent ≤ newBrk → AllBacked env (a.mapAnon env pid (a.store.totals t).brkCurrent
      (newBrk - (a.store.totals t).brkCurrent) (protRead ||| protWrite) (mapPrivate ||| mapFixed ||| mapAnonymous)).2 :=
    fun hle => backed_mapAnon h pid _ _ (by omega) (by omega)
  have hunmapped := (h.unmap pid newBrk ((a.store.totals t).brkCurrent - newBrk)).backed
  split_ifs with hout heq hgt
  · exact h.backed
  · exact h.backed
  · exact hmapped hgt.le
  · exact hmapped hgt.le
  · exact hunmapped
  · exact hunmapped

theorem backed_brkExtend (pid : Pid) (hnew : newBrk < 2 ^ 64) :
    AllBacked env (a.brkExtend env pid newBrk).2 := by
  obtain ⟨hs, -, -⟩ := (Attaches.refl : Attaches env a a).initProcess h.ok pid
  have h1 := h.attaches hs
  unfold brkExtend
  dsimp only
  generalize (a.initProcess env pid).2 = a1 at h1 ⊢
  split_ifs
  · exact h1.backed
  · rcases ht : a1.store.vmaRoot pid with _ | t
    · exact h1.backed
    · exact backed_brkMove (sound_brkInitTree h1 ht) pid t hnew

theorem backed_brkQuery (pid : Pid) : AllBacked env (a.brkQuery env pid).2 := by
  obtain ⟨hs, -, -⟩ := (Attaches.refl : Attaches env a a).initProcess h.ok pid
  have h1 := h.attaches hs
  unfold brkQuery
  dsimp only
  generalize (a.initProcess env pid).2 = a1 at h1 ⊢
  split_ifs
  · rcases ht : a1.store.vmaRoot pid with _ | t
    · exact h1.backed
    · exact (sound_brkInitTree h1 ht).backed
  · exact h1.backed

end

theorem write_store (a : Machine Listing) (pid : Pid) (address : Nat) (value : UInt8) :
    (a.write env pid address value).store = a.store := by
  unfold write
  rcases a.translate env pid address with _ | ⟨i, e⟩
  · rfl
  · dsimp only
    split_ifs <;> rfl

theorem configureBudget_store (a : Machine Listing) (pid : Pid) (pages : Nat) :
    (a.configureBudget pid pages).store = a.store := by
  unfold configureBudget
  split_ifs <;> rfl

/-! ## Whole runs -/

theorem backed_step (h : Sound env a) (op : Op) : AllBacked env (a.step env op) := by
  cases op with
  | mapAnon pid hint length prot map => exact backed_mapAnon h pid prot map hint.toNat_lt length.toNat_lt
  | cloneCowPage sp s tp t => exact backed_cloneCowPage h sp tp s.toNat t.toNat
  | forkCopyProcess parent child => exact (sound_forkCopyProcess h parent child).backed
  | handleCowFault pid address errorCode => exact backed_handleCowFault h pid address.toNat errorCode
  | protect pid address length prot => exact (h.protect pid address.toNat length.toNat prot).backed
  | unmap pid address length => exact (h.unmap pid address.toNat length.toNat).backed
  | brkQuery pid => exact backed_brkQuery h pid
  | brkExtend pid newBrk => exact backed_brkExtend h pid newBrk.toNat_lt
  | releaseProcess pid => exact (h.releaseProcess pid).backed
  | write pid address value =>
    exact AllBacked.of_listed h.backed fun t => congrArg (listed · t) (write_store a pid address.toNat value)
  | configureBudget pid pages =>
    exact AllBacked.of_listed h.backed fun t => congrArg (listed · t) (configureBudget_store a pid pages.toNat)

theorem Refines.sound_step (hr : Refines held m a) (h : Sound env a) (op : Op) :
    Sound env (a.step env op) := ⟨(hr.step op).store.ok, backed_step h op⟩

theorem sound_boot (env : Env) (budget : Pid → Option Nat) : Sound env (boot Listing.boot budget) :=
  ⟨ok_boot, fun _ _ hd => (not_mem_nil hd).elim⟩

theorem reachable_sound {budget : Pid → Option Nat} (h : Reachable env budget m) :
    ∃ a, Refines (fun _ => False) m a ∧ Sound env a := by
  induction h with
  | boot => exact ⟨_, refines_boot budget, sound_boot env budget⟩
  | step _ env' hpool op ih =>
    obtain ⟨a, hr, hs⟩ := ih
    have hsound : Sound env' a := ⟨hs.ok, hpool ▸ hs.backed⟩
    have hnext := hr.sound_step hsound op
    exact ⟨_, hr.step op, hnext.ok, hpool ▸ hnext.backed⟩

/-- In every state that is reached, each region of each process lies on a run of pages inside the pool. -/
theorem regions_backed (env : Env) (budget : Pid → Option Nat) (ops : List Op) (t : TreeId) :
    (((boot Links.boot budget).run env ops).store.listed t).Forall (Backed env.pool) := by
  obtain ⟨a, hr, hs⟩ := reachable_sound ((Reachable.boot : Reachable env budget _).run ops)
  rw [forall_iff_forall_mem, hr.store.listed]
  exact hs.backed t

end Machine

end LimitlessOS.Vma
