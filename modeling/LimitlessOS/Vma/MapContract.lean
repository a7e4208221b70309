/-
  LimitlessOS.Vma.MapContract — the two-sided contract of `vma64_map_anon`.

  A caller takes 0 for a failure that left nothing behind, and any other answer for the
  base of a new mapping. `MapAnonContract` says both. The second half always holds; the
  first fails in exactly one case (`MapsZero`): `MAP_FIXED` at hint 0 without any
  protection bit, when the mapping can be made. It is made, and its base is 0.

  Proved:
  - `reachable_refines`: every reachable machine refines a listed one that satisfies the
    invariant of the region store.
  - `mapAnonContract_iff`: in every reachable state and for all arguments, the contract
    holds if and only if the call is not such a mapping at 0.
  - `mapAnonContract_fails`: a first call of a process that is one.
-/
import LimitlessOS.Vma.MapAnon

namespace LimitlessOS.Vma

open List PageTable Function

namespace Machine

section

variable {Ix : Type} [RegionIndex Ix]

/-- The machines that calls into the VMA layer reach. Processes come and go, roots are attached and threads call in
between, so each call has an environment of its own, over the one pool of pages. -/
inductive Reachable (env : Env) (budget : Pid → Option Nat) : Machine Links → Prop
  | boot : Reachable env budget (boot Links.boot budget)
  | step {m : Machine Links} (h : Reachable env budget m) (env' : Env) (hpool : env'.pool = env.pool) (op : Op) :
      Reachable env budget (m.step env' op)

theorem Reachable.run {env : Env} {budget : Pid → Option Nat} {m : Machine Links} (h : Reachable env budget m)
    (ops : List Op) : Reachable env budget (m.run env ops) := by
  induction ops generalizing m with
  | nil => exact h
  | cons op ops ih => exact ih (h.step env rfl op)

/-- No region was added, no page claimed and no entry changed. -/
@[mk_iff] structure Untouched (m m' : Machine Ix) : Prop where
  listed : ∀ t, m'.store.listed t = m.store.listed t
  used : m'.anon.used = m.anon.used
  claimed : m'.anon.claimed = m.anon.claimed
  entry : ∀ root x, (m'.tables root).lookup x = (m.tables root).lookup x

/-- `[base, base + length)` has become mapped for `pid` with protection `prot`, over the pages from page `i`, as one
region `d` of tree `t`; nothing else has changed. -/
@[mk_iff] structure NewMapping (env : Env) (m m' : Machine Ix) (pid : Pid) (base length : Nat) (prot : UInt32) (t : TreeId)
    (d : Region) (i : Nat) : Prop where
  whole : length % pageBytes = 0
  range : d.virtBase = base ∧ d.virtEnd = base + length
  flags : d.protFlags = prot
  phys : d.backingType = backingAnon ∧ d.physBase = env.pool.phys i
  tree : m'.store.vmaRoot pid = some t ∧ (m.store.vmaRoot pid = some t ∨ m.store.vmaRoot pid = none ∧ m.store.listed t = [])
  listed : ∃ before after, m.store.listed t = before ++ after ∧ m'.store.listed t = before ++ d :: after
  otherTrees : ∀ t', t' ≠ t → m'.store.listed t' = m.store.listed t'
  otherRoots : ∀ q, q ≠ pid → m'.store.vmaRoot q = m.store.vmaRoot q
  otherTotals : ∀ t', t' ≠ t → m'.store.totals t' = m.store.totals t'
  totals : (m'.store.totals t).regionCount = (m.store.totals t).regionCount + 1 ∧
    (m'.store.totals t).mappedBytes = (m.store.totals t).mappedBytes + length ∧
    (m'.store.totals t).brkBase = (m.store.totals t).brkBase ∧
    (m'.store.totals t).brkCurrent = (m.store.totals t).brkCurrent
  fresh : ∀ k < length / pageBytes, m.anon.used (i + k) = 0 ∧ m'.anon.used (i + k) = 1 ∧ m'.anon.bytes (i + k) = fun _ => 0
  otherPages : ∀ j, ¬ (i ≤ j ∧ j < i + length / pageBytes) →
    m'.anon.used j = m.anon.used j ∧ m'.anon.bytes j = m.anon.bytes j
  claimed : m'.anon.claimed = m.anon.claimed + length / pageBytes
  entry : ∀ k < length / pageBytes, (m.table env pid).lookup (pageAt base k) = none ∧
    (m'.table env pid).lookup (pageAt base k) =
      if pagingProt prot = 0 then none else some (.make (env.pool.phys (i + k)) (pagingProt prot))
  otherEntries : ∀ root x, (root = env.pageRoot pid → ¬ Hits base 0 (length / pageBytes) x) →
    (m'.tables root).lookup x = (m.tables root).lookup x
  budget : m'.budget = m.budget

def MapAnonContract (env : Env) (m : Machine Ix) (pid : Pid) (hint length : Nat) (prot map : UInt32) : Prop :=
  let x := m.mapAnon env pid hint length prot map
  (x.1 = 0 → Untouched m x.2) ∧ (x.1 ≠ 0 → ∃ t d i, NewMapping env m x.2 pid x.1 length prot t d i)

/-- What a process maps, 0 before it has a tree. -/
def mappedBytes (m : Machine Ix) (pid : Pid) : Nat := (m.store.vmaRoot pid).elim 0 fun t => (m.store.totals t).mappedBytes

/-- A fixed mapping at 0 without any protection bit, for which there is room. -/
@[mk_iff] structure MapsZero (env : Env) (m : Machine Ix) (pid : Pid) (hint length : Nat) (prot map : UInt32) : Prop where
  zero : hint = 0
  fixed : map &&& mapFixed ≠ 0
  anonymous : map &&& mapAnonymous ≠ 0
  noAccess : pagingProt prot = 0
  count : pageCountFromLength length ≠ 0 ∧ pageCountFromLength length ≤ maxAnonPages
  process : pid ≠ invalidPid ∧ (m.store.vmaRoot pid = none →
    env.known pid ∧ ∃ t < maxProcessTrees, m.store.treePid t = invalidPid)
  region : ∃ r < maxStaticRegions, m.store.used r = false
  pages : ∃ i, i + pageCountFromLength length ≤ maxAnonPages ∧ ∀ k < pageCountFromLength length, m.anon.used (i + k) = 0
  place : ∀ t, m.store.vmaRoot pid = some t → ∀ d ∈ m.store.listed t, length ≤ d.virtBase
  budget : Store.budgetCheck (m.budget pid) (Store.pages32 (m.mappedBytes pid)) (Store.pages32 length)

end

/-! ## On a listed machine -/

variable {env : Env} {a a' : Machine Listing} {pid : Pid} {hint length virt : Nat} {prot map : UInt32}

theorem Restored.untouched (h : Restored a a') : Untouched a a' := by
  refine ⟨?_, h.used, h.claimed, h.entry⟩
  intro t
  rcases h.store with heq | ⟨t', d, heq⟩ <;> rw [heq]
  rfl

variable {t : TreeId} {m : Machine Links} {a0 : Machine Listing} {held : RegionId → Prop} {l : List RegionId} {p' : PageTable}
  {r : RegionId}

/-- Attaching an empty tree touches no region. -/
theorem Started.untouched (h : Started env a pid t a0) : Untouched a a0 := by
  rcases h with ⟨rfl, -⟩ | ⟨rfl, -⟩
  · exact ⟨fun _ => rfl, rfl, rfl, fun _ _ => rfl⟩
  · exact ⟨fun _ => rfl, rfl, rfl, fun _ _ => rfl⟩

/-- Nor a page or a table; the process had the tree, or gets it with nothing in it. -/
theorem Started.rest (hok : a.store.Ok) (h : Started env a pid t a0) :
    a0.anon = a.anon ∧ a0.tables = a.tables ∧ a0.budget = a.budget ∧ a0.store.used = a.store.used ∧
      (a0.store.totals t).mappedBytes = a.mappedBytes pid ∧
      (a.store.vmaRoot pid = some t ∨ a.store.vmaRoot pid = none ∧ a.store.listed t = []) := by
  rcases h with ⟨rfl, ht⟩ | ⟨rfl, hnone, hfree, -⟩
  · exact ⟨rfl, rfl, rfl, rfl, by rw [mappedBytes, ht]; rfl, .inl ht⟩
  obtain ⟨hids, htotals⟩ := hok.free t hfree
  refine ⟨rfl, rfl, rfl, rfl, ?_, .inr ⟨hnone, by rw [Store.listed, hids, map_nil]⟩⟩
  show (a.store.totals t).mappedBytes = _
  rw [mappedBytes, hnone, htotals]
  rfl

theorem Untouched.trans {b : Machine Listing} (h : Untouched a b) (h' : Untouched b a') : Untouched a a' :=
  ⟨fun t => (h'.listed t).trans (h.listed t), h'.used.trans h.used, h'.claimed.trans h.claimed,
    fun root x => (h'.entry root x).trans (h.entry root x)⟩

theorem MapFails.untouched (h : MapFails env a pid hint length prot map a') : Untouched a a' := by
  cases h with
  | arguments _ heq | process _ heq => exact heq ▸ (Restored.refl a).untouched
  | place t a0 hstart _ heq => exact heq ▸ hstart.untouched
  | refused t a0 hstart hrest => exact hstart.untouched.trans hrest.untouched

theorem Maps.newMapping {i : Nat} (hok : a.store.Ok) (h : Maps env a pid hint length prot map virt a' t a0 r i l p') :
    NewMapping env a a' pid virt length prot t (anonRegion env.pool virt length i prot map) i := by
  obtain ⟨hpos, hwhole, hcount⟩ := length_of_pageCount h.room.pos.ne'
  obtain ⟨⟨before, after, hold, hnew⟩, hothers⟩ := (h.ok.owned_grabbed h.room.unused).listed_placed h.room.fits
  have hstart := h.started.untouched
  have hlisted := h.ok.listed_grabbed h.room.unused
  have hlen : (anonRegion env.pool virt length i prot map).length = length := Nat.add_sub_cancel_left ..
  have hrun := h.room.run
  obtain ⟨hanon, htables, hbudget, -, -, hroot⟩ := h.started.rest hok
  obtain rfl := h.result
  refine ⟨hwhole, ⟨rfl, rfl⟩, rfl, ⟨rfl, rfl⟩, ⟨h.root, hroot⟩, ⟨before, after, ?_, hnew⟩, ?_, ?_, ?_, ?_, ?_, ?_, ?_, ?_,
    ?_, hbudget⟩
  · rw [← hstart.listed, ← hlisted, hold]
  · intro t' htt
    rw [← hstart.listed, ← hlisted]
    exact hothers t' htt
  · intro q hq
    rcases h.started with ⟨rfl, -⟩ | ⟨rfl, -⟩
    · rfl
    · exact update_of_ne hq ..
  · intro t' htt
    rcases h.started with ⟨rfl, -⟩ | ⟨rfl, -⟩ <;> exact update_of_ne htt ..
  · have htot : ((placedAt env a0 t virt length prot map r i l).setTable env pid p').store.totals t = _ := update_self ..
    rw [htot, Store.setRegion_region_self, hlen]
    rcases h.started with ⟨rfl, -⟩ | ⟨rfl, -⟩ <;> exact ⟨rfl, rfl, rfl, rfl⟩
  · intro k hk
    have hin : i ≤ i + k ∧ i + k < i + pageCountFromLength length := by omega
    have hfree := h.room.free k (by omega)
    rw [hanon] at hfree
    exact ⟨hfree, if_pos hin, if_pos hin⟩
  · intro j hj
    have hout : ¬ (i ≤ j ∧ j < i + pageCountFromLength length) := by omega
    rw [← hanon]
    exact ⟨if_neg hout, if_neg hout⟩
  · rw [← hanon, ← hcount]
    rfl
  · intro k hk
    have hclear := (runClear_iff _ _ _).1 h.clear k (by omega)
    rw [table_setTable]
    refine ⟨by rw [table, ← htables]; exact hclear, ?_⟩
    rcases h.mapped with ⟨hprot, rfl⟩ | ⟨hprot, hinst⟩
    · rw [if_pos hprot, hclear]
    · rw [if_neg hprot, hinst.page k (by omega) (by omega) (by simp only [maxAnonPages] at hrun; omega),
        env.pool.phys_add]
      rfl
  · intro root x hx
    by_cases hpid : root = env.pageRoot pid
    · subst hpid
      rw [tables_setTable_self, ← htables]
      rcases h.mapped with ⟨-, rfl⟩ | ⟨-, hinst⟩
      · rfl
      · rcases hinst.entry x with heq | ⟨k, hk0, hk, hnum, -⟩
        · exact heq
        · exact absurd ⟨k, hk0, by omega, hnum⟩ (hx rfl)
    · rw [tables_setTable_of_ne hpid]
      exact congrArg (lookup · x) (congrFun htables root)

/-- Nothing stands in the way of a place at 0: the gap search answers 0 for a hint of 0, and no entry is there. -/
theorem mapPlace_zero (hfixed : map &&& mapFixed ≠ 0) (hmax : pageCountFromLength length ≤ maxAnonPages) :
    a.mapPlace env pid 0 length map = some 0 := by
  have hgap : a.store.findGap pid 0 (add64 0 length) length pageBytes = 0 := by
    unfold Store.findGap
    cases a.store.vmaRoot pid with
    | none => rfl
    | some t => exact if_pos (.inr (.inr (by decide)))
  have hclear : (a.table env pid).runClear 0 (pageCountFromLength length) := by
    rw [runClear_iff]
    intro k hk
    apply lookup_low
    simp only [pageAt, pageBytes, maxAnonPages] at *
    omega
  simp only [mapPlace, if_pos hfixed, hgap, hclear]
  rfl

/-- A mapping made at 0 is one of those the contract does not cover. -/
theorem Maps.mapsZero {i : Nat} (hok : a.store.Ok) (h : Maps env a pid hint length prot map 0 a' t a0 r i l p') :
    MapsZero env a pid hint length prot map := by
  have hrun := h.room.run
  have hpos := h.room.pos
  obtain ⟨hanon, -, hbudget, hused, hbytes, hroot⟩ := h.started.rest hok
  have hchosen : map &&& mapFixed ≠ 0 ∧ 0 = hint := by
    rcases h.chosen with hfixed | ⟨-, hne⟩
    · exact hfixed
    · exact absurd rfl hne
  refine ⟨hchosen.2.symm, hchosen.1, h.anonymous, ?_, ⟨by omega, by omega⟩, ⟨?_, ?_⟩, ?_, ?_, ?_, ?_⟩
  · rcases h.mapped with ⟨hprot, -⟩ | ⟨-, hinst⟩
    · exact hprot
    · have hpage := hinst.page 0 le_rfl hpos (by simp only [maxAnonPages] at hrun; omega)
      cases hpage
  · exact ((h.ok.root pid t).1 h.root).2
  · intro hnone
    rcases h.started with ⟨-, ht⟩ | ⟨-, -, hfree, hlt, hknown⟩
    · simp [hnone] at ht
    · exact ⟨hknown, t, hlt, hfree⟩
  · exact ⟨r, h.room.bound, hused ▸ h.room.unused⟩
  · exact ⟨i, hrun, fun k hk => hanon ▸ h.room.free k hk⟩
  · intro t' ht' d hd
    obtain rfl : t = t' := Eq.symm (by simpa [ht'] using hroot)
    -- the new region has its place in the list, and none can end before it at 0
    obtain ⟨⟨before, after, hold, hnew⟩, -⟩ := (h.ok.owned_grabbed h.room.unused).listed_placed h.room.fits
    have hlayout := ((h.ok.grabbed h.room.unused h.room.bound).placed h.root (h.ok.owned_grabbed h.room.unused) h.room.valid
      h.room.fits).layout t
    rw [hnew] at hlayout
    obtain ⟨hbefore, hafter, horder⟩ := Layout.append.1 hlayout
    rw [← h.started.untouched.listed, ← h.ok.listed_grabbed h.room.unused, hold] at hd
    rcases mem_append.1 hd with hd | hd
    · have hend := horder d hd _ mem_cons_self
      have hlt := (hbefore.valid d hd).lt
      simp only [Region.Before, anonRegion] at hend
      omega
    · have hbase := (Layout.cons.1 hafter).2.1 d hd
      simp only [Region.Before, anonRegion] at hbase
      omega
  · rw [← hbudget, ← hbytes]
    exact h.room.budget

/-- Such a mapping is made. -/
theorem MapsZero.maps (hok : a.store.Ok) (hlen : length < 2 ^ 64) (h : MapsZero env a pid hint length prot map) :
    ∃ a' t a0 r i l p', a.mapAnon env pid hint length prot map = (0, a') ∧
      Maps env a pid hint length prot map 0 a' t a0 r i l p' := by
  have hzero := h.zero
  subst hzero
  rcases mapAnon_spec env pid prot map hok (by decide : 0 < 2 ^ 64) hlen with
    ⟨virt, a', t, a0, r, i, l, p', heq, hmaps⟩ | ⟨a', heq, hfails⟩
  · have hvirt : virt = 0 := by
      rcases hmaps.chosen with ⟨-, hv⟩ | ⟨hfixed, -⟩
      · exact hv
      · exact absurd hfixed h.fixed
    subst hvirt
    exact ⟨a', t, a0, r, i, l, p', heq, hmaps⟩
  · exfalso
    cases hfails with
    | arguments hargs =>
      rcases hargs with h0 | hmax | hmap
      · exact h.count.1 h0
      · exact absurd h.count.2 (by omega)
      · exact h.anonymous hmap
    | process hinit =>
      rcases initProcess_started hok env pid with ⟨t, a0, hstart, -⟩ | ⟨-, hwhy⟩
      · simp [hstart] at hinit
      rcases hwhy with hpid | ⟨hnone, hknown | hfull⟩
      · exact h.process.1 hpid
      · simp [(h.process.2 hnone).1] at hknown
      · obtain ⟨t, hlt, hfree⟩ := (h.process.2 hnone).2
        exact hfull t hlt hfree
    | place t a0 hstart hplace =>
      simp [mapPlace_zero h.fixed h.count.2] at hplace
    | refused t a0 hstart hrest virt hplace why =>
      rw [mapPlace_zero h.fixed h.count.2] at hplace
      obtain rfl := Option.some.inj hplace
      obtain ⟨hanon, -, hbudget, hstore, hbytes, hroot⟩ := hstart.rest hok
      cases why with
      | regions hfull =>
        obtain ⟨r, hr, hunused⟩ := h.region
        simp [← hstore, hfull r hr] at hunused
      | pages hnone =>
        obtain ⟨i, hi, hfree⟩ := h.pages
        obtain ⟨k, hk, hused⟩ := AnonPool.freeRun_none hnone i hi
        exact hused (hanon ▸ hfree k hk)
      | overlap r hr hover =>
        have hr' : a0.store.region r ∈ a0.store.listed t := mem_map_of_mem hr
        rw [hstart.untouched.listed] at hr'
        rcases hroot with ht | ⟨-, hempty⟩
        · have hbase := h.place t ht _ hr'
          simp only [rangesOverlap, Bool.and_eq_true, decide_eq_true_eq] at hover
          omega
        · simp [hempty] at hr'
      | budget hbud =>
        have hallow := h.budget
        rw [← hbudget, ← hbytes, hbud] at hallow
        cases hallow
      | entries hprot => exact hprot h.noAccess

theorem mapAnonContract_listed (hok : a.store.Ok) (hhint : hint < 2 ^ 64) (hlen : length < 2 ^ 64) :
    MapAnonContract env a pid hint length prot map ↔ ¬ MapsZero env a pid hint length prot map := by
  constructor
  · intro hcontract hzero
    obtain ⟨a', t, a0, r, i, l, p', heq, hmaps⟩ := hzero.maps hok hlen
    obtain ⟨before, after, hold, hnew⟩ := (hmaps.newMapping hok).listed
    have hsame := (hcontract.1 (by rw [heq])).listed t
    rw [heq] at hsame
    rw [hnew, hold] at hsame
    have := congrArg List.length hsame
    simp at this
  · intro hzero
    rcases mapAnon_spec env pid prot map hok hhint hlen with ⟨virt, a', t, a0, r, i, l, p', heq, hmaps⟩ | ⟨a', heq, hfails⟩
    · have hne : virt ≠ 0 := by
        rintro rfl
        exact hzero (hmaps.mapsZero hok)
      unfold MapAnonContract
      rw [heq]
      exact ⟨fun h0 => absurd h0 hne, fun _ => ⟨t, _, i, hmaps.newMapping hok⟩⟩
    · unfold MapAnonContract
      rw [heq]
      exact ⟨fun _ => hfails.untouched, fun h0 => absurd rfl h0⟩

/-! ## On the code -/

theorem reachable_refines {budget : Pid → Option Nat} (h : Reachable env budget m) : ∃ a, Refines (fun _ => False) m a := by
  induction h with
  | boot => exact ⟨_, refines_boot budget⟩
  | step _ env' _ op ih =>
    obtain ⟨a, ha⟩ := ih
    exact ⟨_, ha.step op⟩

theorem Refines.mapAnonContract (h : Refines held m a) (env : Env) (pid : Pid) (prot map : UInt32) (hhint : hint < 2 ^ 64)
    (hlen : length < 2 ^ 64) :
    MapAnonContract env m pid hint length prot map ↔ MapAnonContract env a pid hint length prot map := by
  obtain ⟨hans, hafter⟩ := h.mapAnon env pid prot map hhint hlen
  simp only [MapAnonContract, untouched_iff, newMapping_iff, hans, h.store.listed, hafter.store.listed, h.store.vmaRoot,
    hafter.store.vmaRoot, h.store.totals, hafter.store.totals, h.anon, hafter.anon, h.tables, hafter.tables, h.table,
    hafter.table, h.budget, hafter.budget]

theorem Refines.mapsZero (h : Refines held m a) :
    MapsZero env m pid hint length prot map ↔ MapsZero env a pid hint length prot map := by
  simp only [mapsZero_iff, mappedBytes, h.store.listed, h.store.vmaRoot, h.store.treePid, h.store.used, h.store.totals,
    h.anon, h.budget]

theorem mapAnonContract_iff {budget : Pid → Option Nat} {m : Machine Links} (h : Reachable env budget m) (pid : Pid)
    (hint length : UInt64) (prot map : UInt32) :
    MapAnonContract env m pid hint.toNat length.toNat prot map ↔
      ¬ MapsZero env m pid hint.toNat length.toNat prot map := by
  obtain ⟨a, ha⟩ := reachable_refines h
  rw [ha.mapAnonContract env pid prot map hint.toNat_lt length.toNat_lt, ha.mapsZero]
  exact mapAnonContract_listed ha.store.ok hint.toNat_lt length.toNat_lt

theorem mapAnonContract_first : Reachable .sample (fun _ => none) (boot Links.boot fun _ => none) ∧
    MapAnonContract .sample (boot Links.boot fun _ => none) 1 (0 : UInt64).toNat (0x3000 : UInt64).toNat 3 9 :=
  ⟨.boot, (mapAnonContract_iff .boot 1 0 0x3000 3 9).2 fun h => h.fixed (by decide)⟩

/-- One page at a fixed 0 without access: the answer is 0, and the region is there. -/
theorem mapAnonContract_fails : Reachable .sample (fun _ => none) (boot Links.boot fun _ => none) ∧
    ¬ MapAnonContract .sample (boot Links.boot fun _ => none) 1 (0 : UInt64).toNat (0x1000 : UInt64).toNat 0 13 := by
  refine ⟨.boot, ?_⟩
  intro h
  have hsame := (h.1 (by decide +kernel)).listed 0
  revert hsame
  decide +kernel

end Machine

end LimitlessOS.Vma
