/-
  LimitlessOS.Vma.Protect — what `vma64_protect` does.

  A call is `Admitted` if it passes every check and gets the region slots it needs. Then
  the region is split (`LimitlessOS.Vma.Split`) and the entries of the range are
  rewritten, page by page, until one is refused.

  Proved, on a sound machine:
  - `protectRun_spec`, `protectRun_iff`: what becomes of the entries, and when no page is
    refused.
  - `protect_spec`: a call that is not admitted changes nothing; one that is splits the
    region.
-/
import LimitlessOS.Vma.PageFrames
import LimitlessOS.Vma.Split

namespace LimitlessOS.Vma

open Function Store PageTable Region Finset Option

namespace PageTable

variable {p : PageTable} {d : Region} {limit virt address : Nat} {prot : UInt32}

/-- What `protectRun` makes of the entry of an address. -/
def reprotected (p : PageTable) (d : Region) (prot : UInt32) (address : Nat) : Option Pte :=
  if prot = 0 then none
  else some (.make (((p.lookup address).map Pte.phys).getD (d.physicalFor address)) prot)

/-- The pages `i, …, stop - 1` have been rewritten, and no other. -/
structure Reprotected (d : Region) (virt : Nat) (prot : UInt32) (i stop : Nat) (p p' : PageTable) : Prop where
  entry : ∀ a, p'.lookup a = p.lookup a ∨ ∃ k, i ≤ k ∧ k < stop ∧ pageNumber a = pageNumber (pageAt virt k)
  page : ∀ k, i ≤ k → k < stop → stop ≤ i + 2 ^ 36 → p'.lookup (pageAt virt k) = p.reprotected d prot (pageAt virt k)

/-- One iteration of the loop: the page gets its new entry, or is refused. -/
def protectPage (limit : Nat) (d : Region) (prot : UInt32) (p : PageTable) (address : Nat) : Bool × PageTable :=
  if prot = 0 then (true, p.clear address)
  else if p.present address then p.updateProtection address prot
  else if d.physicalFor address = 0 then (false, p)
  else p.install limit address (d.physicalFor address) prot

theorem protectRun_succ (n i : Nat) :
    protectRun limit d virt prot (n + 1) i p =
      if (protectPage limit d prot p (pageAt virt i)).1 then
        protectRun limit d virt prot n (i + 1) (protectPage limit d prot p (pageAt virt i)).2
      else (false, (protectPage limit d prot p (pageAt virt i)).2) := by
  rw [protectRun]
  unfold protectPage
  split_ifs <;> simp_all

theorem protectPage_spec (limit : Nat) (d : Region) (prot : UInt32) (p : PageTable) (address : Nat) :
    ((protectPage limit d prot p address).1 ∧ ∀ a, (protectPage limit d prot p address).2.lookup a =
      if pageNumber a = pageNumber address then p.reprotected d prot address else p.lookup a) ∨
    protectPage limit d prot p address = (false, p) := by
  unfold protectPage reprotected
  split_ifs with hprot hpresent hphys
  · exact .inl ⟨rfl, lookup_clear p address⟩
  · rcases updateProtection_spec p address prot with ⟨e, he, -, hok, hl⟩ | ⟨heq, -⟩
    · rw [he]
      exact .inl ⟨hok, hl⟩
    · exact .inr heq
  · exact .inr rfl
  have hnone : p.lookup address = none := by simpa [present] using hpresent
  rcases install_spec p limit address (d.physicalFor address) prot with ⟨p', heq, -, -, hl⟩ | heq
  · rw [heq, hnone]
    exact .inl ⟨rfl, hl⟩
  · exact .inr heq

theorem reprotected_congr {p' : PageTable} (h : p'.lookup address = p.lookup address) :
    p'.reprotected d prot address = p.reprotected d prot address := by
  unfold reprotected
  rw [h]

theorem Reprotected.cons {i stop : Nat} {p' p'' : PageTable} (hlt : i < stop)
    (hl : ∀ a, p'.lookup a = if pageNumber a = pageNumber (pageAt virt i) then p.reprotected d prot (pageAt virt i)
      else p.lookup a)
    (h : Reprotected d virt prot (i + 1) stop p' p'') : Reprotected d virt prot i stop p p'' := by
  constructor
  · intro a
    rcases h.entry a with heq | ⟨k, hk, hk', hnum⟩
    · rw [hl] at heq
      split_ifs at heq with hnum
      · exact .inr ⟨i, le_rfl, hlt, hnum⟩
      · exact .inl heq
    · exact .inr ⟨k, by omega, hk', hnum⟩
  · intro k hk hk' hstop
    by_cases hki : k = i
    · subst hki
      rcases h.entry (pageAt virt k) with heq | ⟨j, hj, hj', hnum⟩
      · rw [heq, hl, if_pos rfl]
      · exact absurd hnum (pageNumber_pageAt_inj (by omega) (by omega))
    · rw [h.page k (by omega) hk' (by omega)]
      apply reprotected_congr
      rw [hl, if_neg]
      exact (pageNumber_pageAt_inj (by omega) (by omega)).symm

theorem protectRun_spec (n i : Nat) (p : PageTable) :
    ((protectRun limit d virt prot n i p).1 ∧
      Reprotected d virt prot i (i + n) p (protectRun limit d virt prot n i p).2) ∨
    ((protectRun limit d virt prot n i p).1 = false ∧ ∃ k, i ≤ k ∧ k < i + n ∧
      Reprotected d virt prot i k p (protectRun limit d virt prot n i p).2) := by
  induction n generalizing i p with
  | zero =>
    exact .inl ⟨rfl, fun a => .inl rfl, fun k hk hk' => by omega⟩
  | succ n ih =>
    rw [protectRun_succ]
    rcases protectPage_spec limit d prot p (pageAt virt i) with ⟨hok, hl⟩ | heq
    · rw [if_pos hok]
      rcases ih (i + 1) (protectPage limit d prot p (pageAt virt i)).2 with ⟨htrue, h⟩ | ⟨hfalse, k, hk, hk', h⟩
      · refine .inl ⟨htrue, Reprotected.cons (by omega) hl ?_⟩
        rwa [show i + (n + 1) = i + 1 + n by omega]
      · exact .inr ⟨hfalse, k, by omega, by omega, Reprotected.cons (by omega) hl h⟩
    · right
      rw [heq, if_neg Bool.false_ne_true]
      exact ⟨rfl, i, le_rfl, by omega, fun a => .inl rfl, fun k hk hk' => by omega⟩

/-! ### When no page is refused -/

theorem protectPage_slots (p : PageTable) (limit : Nat) (hv : address % pageBytes = 0) (hpos : d.physicalFor address ≠ 0)
    (hp : d.physicalFor address % pageBytes = 0) (hprot : prot &&& (protRead ||| protWrite ||| protExecute) ≠ 0) :
    ((protectPage limit d prot p address).1 ↔ (p.present address = false → limit ≠ 0 ∧ Mappable address) ∧
      (pdIndex address ∈ p.slots ∨ p.slots.length < limit)) ∧
    ((protectPage limit d prot p address).1 → (protectPage limit d prot p address).2.slots =
      if pdIndex address ∈ p.slots then p.slots else p.slots ++ [pdIndex address]) := by
  have hprot0 : prot ≠ 0 := by
    rintro rfl
    exact hprot (by decide)
  unfold protectPage
  rw [if_neg hprot0]
  by_cases hpres : p.present address
  · have hslot := slot_of_present hpres
    obtain ⟨e, he⟩ := isSome_iff_exists.1 hpres
    simp [hpres, hslot, updateProtection, he, hprot, setEntry]
  · obtain ⟨hiff, hslots⟩ := install_mappable p limit hv hp hpos hprot
    rw [if_neg hpres, if_neg hpos]
    exact ⟨by rw [hiff]; simp [hpres], hslots⟩

/-- The loop comes to its end if and only if every absent page can be installed. -/
theorem protectRun_iff {n i : Nat} (hv : virt % pageBytes = 0) (hprot : prot &&& (protRead ||| protWrite ||| protExecute) ≠ 0)
    (hphys : ∀ k, i ≤ k → k < i + n → d.physicalFor (pageAt virt k) ≠ 0 ∧ d.physicalFor (pageAt virt k) % pageBytes = 0)
    (hn : n ≤ 2 ^ 36) : (protectRun limit d virt prot n i p).1 ↔ Installable limit virt i n p := by
  induction n generalizing i p with
  | zero =>
    refine ⟨fun _ => ⟨fun k hk hk' => by omega, ?_⟩, fun _ => rfl⟩
    simp [newTables]
  | succ n ih =>
    have hpage : pageAt virt i % pageBytes = 0 := by
      simp only [pageAt, pageBytes] at *
      omega
    obtain ⟨hpos, hp⟩ := hphys i le_rfl (by omega)
    obtain ⟨hiff, hslots⟩ := protectPage_slots p limit hpage hpos hp hprot
    rw [protectRun_succ]
    split
    · rename_i hok
      rw [ih (fun k hk hk' => hphys k (by omega) (by omega)) (by omega)]
      obtain ⟨hmap, hroom⟩ := hiff.1 hok
      refine (installable_succ hmap hroom (hslots hok) ?_).symm
      intro k hk hk'
      rcases protectPage_spec limit d prot p (pageAt virt i) with ⟨-, hl⟩ | heq
      · unfold present
        rw [hl, if_neg (pageNumber_pageAt_inj hk (by omega)).symm]
      · simp [heq] at hok
    · rename_i hok
      exact ⟨fun h => absurd h Bool.false_ne_true, fun h => absurd (hiff.2 h.head) hok⟩

end PageTable

/-! ## The region slots -/

namespace Store

/-- How many regions of the pool are free. -/
@[irreducible] def freeSlots {Ix : Type} (s : Store Ix) : Nat :=
  ((Finset.range maxStaticRegions).filter fun r => s.used r = false).card

variable {s : Store Listing} {z : RegionId}

theorem freeSlots_zero (h : ∀ r < maxStaticRegions, s.used r) : s.freeSlots = 0 := by
  unfold freeSlots
  rw [card_eq_zero, filter_eq_empty_iff]
  intro r hr
  simp [h r (mem_range.1 hr)]

theorem freeSlots_grabbed (h : s.used z = false) (hlt : z < maxStaticRegions) : (s.grabbed z).freeSlots + 1 = s.freeSlots := by
  unfold freeSlots
  have herase : (range maxStaticRegions).filter (fun r => (s.grabbed z).used r = false) =
      ((range maxStaticRegions).filter fun r => s.used r = false).erase z := by
    ext r
    rw [mem_erase, mem_filter, mem_filter]
    show r ∈ range maxStaticRegions ∧ update s.used z true r = false ↔ _
    by_cases hr : r = z <;> simp [hr]
  rw [herase, card_erase_add_one]
  exact mem_filter.2 ⟨mem_range.2 hlt, h⟩

/-- The store with the slot that was acquired, if one was. -/
def grabbedIf (s : Store Listing) : Option RegionId → Store Listing
  | none => s
  | some z => s.grabbed z

/-- A slot that was free, if one was acquired. -/
def FreeIf (s : Store Listing) (o : Option RegionId) : Prop := ∀ z ∈ o, s.used z = false ∧ z < maxStaticRegions

variable {o : Option RegionId}

theorem freeSlots_grabbedIf (ho : s.FreeIf o) : (s.grabbedIf o).freeSlots + o.isSome.toNat = s.freeSlots := by
  rcases o with _ | z
  · rfl
  · exact freeSlots_grabbed (ho z rfl).1 (ho z rfl).2

theorem Ok.grabbedIf (h : s.Ok) (ho : s.FreeIf o) : (s.grabbedIf o).Ok := by
  rcases o with _ | z
  · exact h
  · exact h.grabbed (ho z rfl).1 (ho z rfl).2

theorem Ok.release_grabbedIf (h : s.Ok) (ho : s.FreeIf o) {a : Machine Listing} :
    (a.setStore (s.grabbedIf o)).releaseIf o = a.setStore s := by
  rcases o with _ | z
  · rfl
  · exact congrArg a.setStore (h.release_grabbed (ho z rfl).1)

theorem regionIds_grabbedIf : (s.grabbedIf o).regionIds = s.regionIds := by
  rcases o with _ | z <;> rfl

/-- Acquiring a slot changes what `protect` does not look at. -/
theorem grabbedIf_frame : (s.grabbedIf o).vmaRoot = s.vmaRoot ∧ (s.grabbedIf o).treePid = s.treePid ∧
    (s.grabbedIf o).totals = s.totals := by
  rcases o with _ | z <;> exact ⟨rfl, rfl, rfl⟩

theorem region_grabbedIf (ho : s.FreeIf o) {r : RegionId} (hr : s.used r) : (s.grabbedIf o).region r = s.region r := by
  rcases o with _ | z
  · rfl
  · refine update_of_ne ?_ ..
    rintro rfl
    simp [(ho r rfl).1] at hr

theorem Owned.grabbedIf (h : s.Owned z) (ho : s.FreeIf o) : (s.grabbedIf o).Owned z ∧ z ∉ o := by
  rcases o with _ | w
  · exact ⟨h, nofun⟩
  have hne : z ≠ w := by
    rintro rfl
    have hfree := (ho z rfl).1
    simp [h.used] at hfree
  refine ⟨⟨by simpa [grabbedIf, grabbed, hne] using h.used, h.loose, ?_⟩, fun he => hne (some.inj he).symm⟩
  simpa [grabbedIf, grabbed, hne] using h.fits

end Store

namespace Machine

variable {a : Machine Listing}

theorem acquireIf_eq (a : Machine Listing) (needed : Bool) :
    (∃ o, a.acquireIf needed = (true, o, a.setStore (a.store.grabbedIf o)) ∧ o.isSome = needed ∧ a.store.FreeIf o) ∨
    (a.acquireIf needed = (false, none, a) ∧ needed ∧ a.store.freeSlots = 0) := by
  rcases needed with _ | _
  · exact .inl ⟨none, rfl, rfl, nofun⟩
  rcases regionAcquire_spec a.store with ⟨z, hacq, hz, hlt⟩ | ⟨hacq, hfull⟩
  · refine .inl ⟨some z, ?_, rfl, ?_⟩
    · simp only [acquireIf, if_true, hacq]
      rfl
    · intro w hw
      obtain rfl := some.inj hw
      exact ⟨hz, hlt⟩
  · refine .inr ⟨?_, rfl, freeSlots_zero hfull⟩
    simp only [acquireIf, if_true, hacq]
    rfl

/-! ## The call -/

/-- The call passes its checks and gets the slots it needs; `r` is the region it is about. -/
structure Admitted (env : Env) (a : Machine Listing) (pid : Pid) (address length : Nat) (t : TreeId) (r : RegionId) (i : Nat) :
    Prop where
  root : a.store.vmaRoot pid = some t
  mem : r ∈ a.store.regionIds t
  backed : (a.store.region r).BackedAt env.pool i
  inside : (a.store.region r).Inside address (address + length)
  resident : pagingProt (a.store.region r).protFlags = 0 ∨
    (a.table env pid).runMatches (a.store.region r) address (pageCountFromLength length) = true
  slots : (decide (address > (a.store.region r).virtBase)).toNat +
    (decide (address + length < (a.store.region r).virtEnd)).toNat ≤ a.store.freeSlots

/-- The regions of the tree other than `r`. -/
def restOf (a : Machine Listing) (t : TreeId) (r : RegionId) : List Region := (a.store.detachRegion t r).listed t

/-- The last loop of `vma64_protect` on the page table of the process. -/
def protectEntries (env : Env) (a : Machine Listing) (pid : Pid) (d : Region) (address length : Nat) (prot : UInt32) :
    Bool × PageTable :=
  protectRun (limit env pid) (middleOf d address (address + length) prot) address (pagingProt prot)
    (pageCountFromLength length) 0 (a.table env pid)

/-- What an admitted call does. -/
inductive Splits (env : Env) (a : Machine Listing) (pid : Pid) (address length : Nat) (prot : UInt32) (t : TreeId)
    (r : RegionId) : Bool × Machine Listing → Prop
  | whole (s' : Store Listing)
      (hwithin : Within (a.budget pid) (a.store.totals t).mappedBytes)
      (hkept : Partial a.store t (a.restOf t r) ((a.store.region r).pieces address (address + length) prot) s') :
      Splits env a pid address length prot t r
        ((a.protectEntries env pid (a.store.region r) address length prot).1,
          (a.setStore s').setTable env pid (a.protectEntries env pid (a.store.region r) address length prot).2)
  | lost (s' : Store Listing) (placed lost : List Region)
      (hover : ¬ Within (a.budget pid) (a.store.totals t).mappedBytes)
      (hkept : Partial a.store t (a.restOf t r) placed s')
      (hpieces : placed ++ lost = (a.store.region r).pieces address (address + length) prot) (hlost : lost ≠ []) :
      Splits env a pid address length prot t r (false, a.setStore s')

variable {env : Env} {pid : Pid} {t : TreeId} {r : RegionId} {i address length : Nat} {s : Store Listing} {o : Option RegionId}
  {prot : UInt32} {x : Region}

theorem Sound.mappedBytes_eq (h : Sound env a) (hr : r ∈ a.store.regionIds t) :
    (a.store.totals t).mappedBytes = (a.store.region r).length + bytesOf (a.restOf t r) := by
  rw [h.ok.bytes t, ((listed_perm_detach hr).map length).sum_eq, List.map_cons, List.sum_cons]
  rfl

/-- The regions of a process cover far fewer bytes than 32 bits of pages can count. -/
theorem Sound.mappedBytes_lt (h : Sound env a) (t : TreeId) : (a.store.totals t).mappedBytes < 2 ^ 44 := by
  have hlen : (a.store.listed t).length ≤ maxStaticRegions := by
    rw [listed, List.length_map]
    exact h.ids_length t
  have hmax : ∀ x ∈ (a.store.listed t).map length, x ≤ maxAnonPages * pageBytes := by
    intro x hx
    obtain ⟨d, hd, rfl⟩ := List.mem_map.1 hx
    obtain ⟨i, hi⟩ := h.backed t d hd
    rw [((h.ok.layout t).valid d hd).length_eq]
    have := hi.run
    exact Nat.mul_le_mul_right _ (by omega)
  have hsum := List.sum_le_card_nsmul _ _ hmax
  rw [List.length_map, smul_eq_mul] at hsum
  rw [h.ok.bytes t]
  calc _ ≤ _ := hsum
    _ ≤ maxStaticRegions * (maxAnonPages * pageBytes) := Nat.mul_le_mul_right _ hlen
    _ < 2 ^ 44 := by decide

section

variable (h : Sound env a) (ha : Admitted env a pid address length t r i)
include h ha

/-- The arguments of an admitted call. -/
theorem Admitted.args :
    ¬ (pageCountFromLength length = 0 ∨ address % pageBytes ≠ 0 ∨ add64 address length < address) ∧
      length = pageCountFromLength length * pageBytes := by
  have hv := h.valid ha.mem
  have hfits := hv.fits
  have hlen := hv.length_eq
  have hrun := ha.backed.run
  have hbase := ha.inside.base
  have hlt := ha.inside.lt
  have hwithin := ha.inside.within
  have haligned := ha.inside.aligned
  have hstop := ha.inside.stop_aligned
  have hcount : pageCountFromLength length = length / pageBytes := by
    unfold pageCountFromLength
    rw [if_neg]
    simp only [Region.length, pageBytes, maxAnonPages] at *
    omega
  unfold add64
  simp only [pageBytes] at *
  omega

theorem Admitted.count :
    pageCountFromLength length = length / pageBytes ∧ length / pageBytes ≤ maxAnonPages := by
  have hlen := (ha.args h).2
  have hd := (h.valid ha.mem).length_eq
  have hrun := ha.backed.run
  have hbase := ha.inside.base
  have hwithin := ha.inside.within
  simp only [Region.length, pageBytes] at *
  omega

end

theorem inside_of_args {d : Region}
    (hargs : ¬ (pageCountFromLength length = 0 ∨ address % pageBytes ≠ 0 ∨ add64 address length < address))
    (hc : d.Contains address) (hend : address + length ≤ d.virtEnd) : d.Inside address (address + length) := by
  simp only [not_or, not_not] at hargs
  have hpos : 0 < length ∧ length % pageBytes = 0 := by
    have hcount := hargs.1
    unfold pageCountFromLength at hcount
    by_contra hno
    rw [if_pos (by omega)] at hcount
    exact hcount rfl
  refine ⟨hc.1, by omega, hend, hargs.2.1, ?_⟩
  rw [Nat.add_mod, hargs.2.1, hpos.2]
  rfl

theorem Admitted.find (h : Sound env a) (ha : Admitted env a pid address length t r i) :
    a.store.find pid address = some r :=
  h.ok.find_of_contains ha.root ha.mem ⟨ha.inside.base, ha.inside.lt.trans_le ha.inside.within⟩

/-- `s` is `s₀` with some more region slots acquired. -/
structure SlotsTaken (s₀ s : Store Listing) : Prop where
  ok : s.Ok
  ids : s.regionIds = s₀.regionIds
  region : ∀ t, ∀ z ∈ s₀.regionIds t, s.region z = s₀.region z
  root : s.vmaRoot = s₀.vmaRoot
  treePid : s.treePid = s₀.treePid
  totals : s.totals = s₀.totals

theorem SlotsTaken.grabbedIf {s0 s : Store Listing} (h : SlotsTaken s0 s) (ho : s.FreeIf o) :
    SlotsTaken s0 (s.grabbedIf o) := by
  obtain ⟨hroot, hpid, htotals⟩ := grabbedIf_frame (s := s) (o := o)
  refine ⟨h.ok.grabbedIf ho, regionIds_grabbedIf.trans h.ids, ?_, hroot.trans h.root, hpid.trans h.treePid,
    htotals.trans h.totals⟩
  intro t z hz
  rw [region_grabbedIf ho (h.ok.used t z (h.ids ▸ hz)), h.region t z hz]

theorem SlotsTaken.both (h : s.Ok) {pre suf : Option RegionId} (hpre : s.FreeIf pre) (hsuf : (s.grabbedIf pre).FreeIf suf) :
    SlotsTaken s ((s.grabbedIf pre).grabbedIf suf) :=
  (SlotsTaken.grabbedIf ⟨h, rfl, fun _ _ _ => rfl, rfl, rfl, rfl⟩ hpre).grabbedIf hsuf

/-- Without region `r`, the store holds the rest and nothing has been placed. -/
theorem SlotsTaken.detached (h : SlotsTaken a.store s) (hr : r ∈ a.store.regionIds t) :
    Partial a.store t (a.restOf t r) [] (s.detachRegion t r) := by
  have hrest : (s.detachRegion t r).listed t = a.restOf t r := by
    rw [restOf, listed_detachRegion, listed_detachRegion, if_pos rfl, if_pos rfl, h.ids]
    exact List.map_congr_left fun z hz => h.region t z (List.mem_of_mem_erase hz)
  refine ⟨h.ok.detachRegion (h.ids ▸ hr), by rw [hrest]; exact List.Perm.refl _, ?_, h.root, h.treePid, ?_, ?_⟩
  · intro t' ht'
    rw [listed_detach_of_ne ht', listed, listed, h.ids]
    exact List.map_congr_left (h.region t')
  · intro t' ht'
    rw [← h.totals]
    exact update_of_ne ht' ..
  · have htot : (s.detachRegion t r).totals t = _ := update_self ..
    rw [htot, ← h.totals]
    exact ⟨rfl, rfl, rfl⟩

theorem owned_grabbedIf (h : s.Ok) (ho : s.FreeIf o) {z : RegionId} (hz : z ∈ o) :
    (s.grabbedIf o).Owned z := by
  obtain rfl : o = some z := hz
  exact h.owned_grabbed (ho z rfl).1

/-- The other regions of the tree lie apart from region `r`. -/
theorem restOf_apart (h : Sound env a) (hr : r ∈ a.store.regionIds t) (hx : x ∈ a.restOf t r) :
    x.Valid ∧ (a.store.region r).Apart x := by
  have hperm := listed_perm_detach hr
  refine ⟨(h.ok.layout t).valid x (hperm.mem_iff.2 (List.mem_cons_of_mem _ hx)), ?_⟩
  have hord : (a.store.region r :: a.restOf t r).Pairwise Apart :=
    ((h.ok.layout t).ordered.imp fun hb => .inl hb).perm hperm fun hb => hb.symm
  exact (List.pairwise_cons.1 hord).1 x hx

section

variable (h : Sound env a) (ha : Admitted env a pid address length t r i) {pre suf : Option RegionId}
  (prot : UInt32) (hpre : a.store.FreeIf pre) (hsuf : (a.store.grabbedIf pre).FreeIf suf)
  (hneed : pre.isSome = decide (address > (a.store.region r).virtBase))
  (hneed' : suf.isSome = decide (address + length < (a.store.region r).virtEnd))
include h ha hpre hsuf hneed hneed'

/-- The placements that an admitted call makes. -/
theorem Admitted.pieces :
    (a.setStore (((a.store.grabbedIf pre).grabbedIf suf).detachRegion t r)).Pieces r pre suf
      (prefixOf (a.store.region r) address) (middleOf (a.store.region r) address (address + length) prot)
      (suffixOf (a.store.region r) (address + length)) (a.restOf t r)
      (pre.toList.map fun _ => prefixOf (a.store.region r) address)
      (suf.toList.map fun _ => suffixOf (a.store.region r) (address + length)) := by
  have hv := h.valid ha.mem
  have hin := ha.inside
  have hpieces := pieces_eq prot hneed hneed'
  have htaken := SlotsTaken.both h.ok hpre hsuf
  have hmem : r ∈ ((a.store.grabbedIf pre).grabbedIf suf).regionIds t := htaken.ids ▸ ha.mem
  have hne : ∀ {z}, ((a.store.grabbedIf pre).grabbedIf suf).Owned z → z ≠ r := by
    rintro z hz rfl
    exact hz.loose t hmem
  have hown : ∀ z ∈ pre, (a.store.grabbedIf pre).Owned z := fun z hz => owned_grabbedIf h.ok hpre hz
  have hown' : ∀ z ∈ suf, _ := fun z hz => owned_grabbedIf (h.ok.grabbedIf hpre) hsuf hz
  constructor
  · rfl
  · rfl
  · exact htaken.ok.owned_detachRegion hmem
  · intro z hz
    have hz' := ((hown z hz).grabbedIf hsuf).1
    exact ⟨hz'.detachRegion r, hne hz'⟩
  · intro z hz
    refine ⟨(hown' z hz).detachRegion r, hne (hown' z hz), fun hzpre => ?_⟩
    exact ((hown z hzpre).grabbedIf hsuf).2 hz
  · intro e he
    rw [← hpieces] at he
    have hpart := hin.part ha.backed hv he
    exact ⟨hpart.valid, hpart.backed.token, fun x hx => hpart.apart (restOf_apart h ha.mem hx).2⟩
  · rw [← hpieces]
    exact hin.pieces_ordered prot
  · exact fun x hx => (restOf_apart h ha.mem hx).1
  · rw [← hpieces, hin.bytesOf_pieces, ← h.mappedBytes_eq ha.mem]
    exact h.mappedBytes_lt t

/-- The region is taken out and its pieces are placed. -/
theorem Admitted.splits :
    Splits env a pid address length prot t r
      ((a.setStore (((a.store.grabbedIf pre).grabbedIf suf).detachRegion t r)).protectSplit env pid r pre suf
        (a.store.region r) address (address + length) prot) := by
  have hp := ha.pieces h prot hpre hsuf hneed hneed'
  have hspec := placePieces_spec (m := a.setStore (((a.store.grabbedIf pre).grabbedIf suf).detachRegion t r))
    ((SlotsTaken.both h.ok hpre hsuf).detached ha.mem) ha.root hp
  rw [← pieces_eq prot hneed hneed', ha.inside.bytesOf_pieces, ← h.mappedBytes_eq ha.mem] at hspec
  rw [protectSplit_eq]
  rcases hspec with ⟨hwithin, s', heq, hs'⟩ | ⟨hover, s', placed, lost, heq, hs', hsplit, hlost⟩
  · have hrun : protectRun (limit env pid) (middleOf (a.store.region r) address (address + length) prot) address
        (pagingProt prot) (pageCountFromLength (address + length - address)) 0 (a.table env pid) =
        a.protectEntries env pid (a.store.region r) address length prot := by
      rw [Nat.add_sub_cancel_left]
      rfl
    rw [heq]
    have hw : Splits env a pid address length prot t r _ := .whole s' hwithin hs'
    rwa [← hrun] at hw
  · rw [heq]
    exact Splits.lost s' placed lost hover hs' hsplit hlost

end

theorem protect_spec (h : Sound env a) (pid : Pid) (address length : Nat) (prot : UInt32) :
    (∃ t r i, Admitted env a pid address length t r i ∧
      Splits env a pid address length prot t r (a.protect env pid address length prot)) ∨
    (a.protect env pid address length prot = (false, a) ∧ ∀ t r i, ¬ Admitted env a pid address length t r i) := by
  unfold protect
  dsimp only
  split_ifs with hargs
  · exact .inr ⟨rfl, fun t r i ha => (ha.args h).1 hargs⟩
  rcases hf : a.store.find pid address with _ | r
  · refine .inr ⟨rfl, fun t r i ha => ?_⟩
    simp [ha.find h] at hf
  obtain ⟨t, ht, hr, hc⟩ := find_some hf
  obtain ⟨i, hi⟩ := h.backedAt hr
  -- whatever is admitted is about this region
  have honly : ∀ t' r' i', Admitted env a pid address length t' r' i' → t' = t ∧ r' = r := by
    intro t' r' i' ha
    refine ⟨mem_unique ha.root ht, ?_⟩
    rw [ha.find h] at hf
    exact some.inj hf
  dsimp only
  split
  · rename_i hcheck
    refine .inr ⟨rfl, fun t' r' i' ha => ?_⟩
    obtain ⟨-, rfl⟩ := honly t' r' i' ha
    rcases hcheck with hend | hback | ⟨hprot, hmatch⟩
    · exact absurd ha.inside.within (by omega)
    · exact hback hi.backing
    · rcases ha.resident with hzero | hres
      · exact hprot hzero
      · simp [hres] at hmatch
  rename_i hcheck
  rcases acquireIf_eq a (decide (address > (a.store.region r).virtBase)) with
    ⟨pre, hpre, hneed, hfree⟩ | ⟨hpre, hneed, hfull⟩
  · simp only [hpre, Bool.not_true, Bool.false_eq_true, if_false]
    rcases acquireIf_eq (a.setStore (a.store.grabbedIf pre)) (decide (address + length < (a.store.region r).virtEnd)) with
      ⟨suf, hsuf, hneed', hfree'⟩ | ⟨hsuf, hneed', hfull⟩
    · left
      have htaken := SlotsTaken.both h.ok hfree hfree'
      have hrec := htaken.region t r hr
      have hrem := htaken.ok.remove_eq (htaken.root ▸ ht) (htaken.ids ▸ hr) (congrArg virtBase hrec)
        (congrArg virtEnd hrec)
      have hslots := freeSlots_grabbedIf hfree
      have hslots' : ((a.store.grabbedIf pre).grabbedIf suf).freeSlots + suf.isSome.toNat =
          (a.store.grabbedIf pre).freeSlots := freeSlots_grabbedIf hfree'
      rw [hneed] at hslots
      rw [hneed'] at hslots'
      have hadm : Admitted env a pid address length t r i := by
        refine ⟨ht, hr, hi, inside_of_args hargs hc (by omega), ?_, by omega⟩
        by_contra hno
        rw [not_or] at hno
        exact hcheck (.inr (.inr ⟨hno.1, by simpa using hno.2⟩))
      refine ⟨t, r, i, hadm, ?_⟩
      have hsplits := hadm.splits h prot hfree hfree' hneed hneed'
      have hrem' : ((a.setStore (a.store.grabbedIf pre)).setStore
          ((a.setStore (a.store.grabbedIf pre)).store.grabbedIf suf)).store.remove pid (a.store.region r).virtBase
          (a.store.region r).virtEnd = (some r, ((a.store.grabbedIf pre).grabbedIf suf).detachRegion t r) := hrem
      simp only [hsuf, Bool.not_true, Bool.false_eq_true, if_false, hrem', ne_eq, not_true_eq_false]
      exact hsplits
    · refine .inr ⟨?_, fun t' r' i' ha => ?_⟩
      · simp only [hsuf, Bool.not_false, if_true]
        exact congrArg (Prod.mk false) (h.ok.release_grabbedIf hfree)
      · obtain ⟨-, rfl⟩ := honly t' r' i' ha
        have hslots := freeSlots_grabbedIf hfree
        have hneeded := ha.slots
        rw [hneed'] at hneeded
        rw [hneed] at hslots
        have hfull' : (a.store.grabbedIf pre).freeSlots = 0 := hfull
        rw [Bool.toNat_true] at hneeded
        omega
  · right
    rw [hpre]
    refine ⟨rfl, fun t' r' i' ha => ?_⟩
    obtain ⟨-, rfl⟩ := honly t' r' i' ha
    have hslots := ha.slots
    rw [hneed, hfull] at hslots
    simp at hslots

theorem Admitted.pieces_part (h : Sound env a) (ha : Admitted env a pid address length t r i) {e : Region}
    (he : e ∈ (a.store.region r).pieces address (address + length) prot) : (a.store.region r).Part env.pool i e :=
  ha.inside.part ha.backed (h.valid ha.mem) he

theorem mem_restOf (hr : r ∈ a.store.regionIds t) (hx : x ∈ a.restOf t r) : x ∈ a.store.listed t :=
  (listed_perm_detach hr).mem_iff.2 (List.mem_cons_of_mem _ hx)

/-- Whatever becomes of the pieces, every region that is listed is backed. -/
theorem Admitted.sound_partial (h : Sound env a) (ha : Admitted env a pid address length t r i) {placed lost : List Region}
    {m : Machine Listing} (hpieces : placed ++ lost = (a.store.region r).pieces address (address + length) prot)
    (hs : Partial a.store t (a.restOf t r) placed m.store) : Sound env m := by
  refine ⟨hs.ok, ?_⟩
  intro t' d hd
  by_cases ht : t' = t
  · subst ht
    rcases List.mem_append.1 (hs.listed.mem_iff.1 hd) with hd | hd
    · exact ⟨_, (ha.pieces_part h (hpieces ▸ List.mem_append_left _ hd)).backed⟩
    · exact h.backed t' d (mem_restOf ha.mem hd)
  · rw [hs.others t' ht] at hd
    exact h.backed t' d hd

theorem Sound.protect (h : Sound env a) (pid : Pid) (address length : Nat) (prot : UInt32) :
    Sound env (a.protect env pid address length prot).2 := by
  rcases protect_spec h pid address length prot with ⟨t, r, i, ha, hsplit⟩ | ⟨heq, -⟩
  · generalize a.protect env pid address length prot = x at hsplit ⊢
    cases hsplit with
    | whole s' hwithin hkept => exact ha.sound_partial h (List.append_nil _) hkept
    | lost s' placed lost hover hkept hpieces hlost => exact ha.sound_partial h hpieces hkept
  · rwa [heq]

/-! ## The entries -/

theorem PageTable.protectRun_clear (lim : Nat) (d : Region) (virt n i : Nat) (p : PageTable) :
    (protectRun lim d virt 0 n i p).1 := by
  induction n generalizing i p with
  | zero => rfl
  | succ n ih =>
    exact ih (i + 1) _

/-- The loop of an admitted call comes to its end if and only if every absent page can be installed. -/
theorem Admitted.protectEntries_iff (h : Sound env a) (ha : Admitted env a pid address length t r i) (prot : UInt32) :
    (a.protectEntries env pid (a.store.region r) address length prot).1 ↔
      (pagingProt prot ≠ 0 → Installable (limit env pid) address 0 (pageCountFromLength length) (a.table env pid)) := by
  unfold protectEntries
  by_cases hprot : pagingProt prot = 0
  · rw [hprot]
    exact ⟨fun _ hne => absurd rfl hne, fun _ => PageTable.protectRun_clear ..⟩
  have hpart : (a.store.region r).Part env.pool i (middleOf (a.store.region r) address (address + length) prot) :=
    ha.inside.middle_part ha.backed (h.valid ha.mem)
  obtain ⟨hcount, hmax⟩ := ha.count h
  rw [protectRun_iff ha.inside.aligned (mt (pagingProt_bits prot).1 hprot)]
  · exact ⟨fun hi _ => hi, fun hi => hi hprot⟩
  · intro k _ hk
    have hk' : k < (middleOf (a.store.region r) address (address + length) prot).pages := by
      show k < (address + length - address) / pageBytes
      rw [Nat.add_sub_cancel_left]
      omega
    have hphys := hpart.backed.physicalFor hpart.valid hk'
    have hbase : (middleOf (a.store.region r) address (address + length) prot).virtBase = address := rfl
    rw [hbase] at hphys
    rw [hphys]
    exact ⟨env.pool.phys_pos _, env.pool.phys_aligned _⟩
  · simp only [maxAnonPages] at hmax
    omega

end Machine

end LimitlessOS.Vma
