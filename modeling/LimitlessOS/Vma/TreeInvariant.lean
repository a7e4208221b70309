/-
  LimitlessOS.Vma.TreeInvariant — the two structures of a process agree in every state.

  `Call` is one call into the VMA layer: an operation, or one of the region functions
  that `vma_x64.h` exports. A caller of the latter prepares, inserts and releases only
  regions it holds: ones it acquired or removed and has not given back, as the callers in
  `vma.c` and in `scaffold_vma_fd_pipe.c` do. Regions may be held across other calls.

  Proved:
  - `treeWellFormed_of_reached`: after any sequence of calls, successful or not, every
    tree's list is in strict address order, disjoint and page aligned, its red-black tree
    holds exactly the listed regions in that order, with parent links, colours and black
    heights right, and its totals are those of the list.
-/
import LimitlessOS.Vma.Refinement

namespace LimitlessOS.Vma

open Lib.RedBlack Machine

/-- A machine, and the regions that callers of the region functions hold. -/
structure Session where
  machine : Machine Links
  held : RegionId → Prop

inductive Call (env : Env) : Session → Session → Prop
  | op (x : Session) (o : Op) : Call env x ⟨x.machine.step env o, x.held⟩
  | acquire (x : Session) :
      Call env x ⟨x.machine.setStore x.machine.store.regionAcquire.2,
        fun z => x.held z ∨ x.machine.store.regionAcquire.1 = some z⟩
  | release (x : Session) (r : RegionId) : x.held r →
      Call env x ⟨x.machine.releaseRegion r, fun z => x.held z ∧ z ≠ r⟩
  | prepare (x : Session) (r : RegionId) (virtBase virtEnd phys : UInt64) (prot map backing handle token : UInt32) :
      x.held r →
      Call env x ⟨x.machine.setStore (x.machine.store.regionPrepare r
        ⟨virtBase.toNat, virtEnd.toNat, phys.toNat, prot, map, backing, handle, token⟩).2, x.held⟩
  | insert (x : Session) (pid : Pid) (r : RegionId) : x.held r →
      Call env x ⟨x.machine.setStore (x.machine.store.insert (x.machine.budget pid) pid r).2,
        fun z => x.held z ∧ ((x.machine.store.insert (x.machine.budget pid) pid r).1 = true → z ≠ r)⟩
  | remove (x : Session) (pid : Pid) (virtBase virtEnd : UInt64) :
      Call env x ⟨x.machine.setStore (x.machine.store.remove pid virtBase.toNat virtEnd.toNat).2,
        fun z => x.held z ∨ (x.machine.store.remove pid virtBase.toNat virtEnd.toNat).1 = some z⟩

inductive Reached (env : Env) (budget : Pid → Option Nat) : Session → Prop
  | boot : Reached env budget ⟨.boot Links.boot budget, fun _ => False⟩
  | call {x y : Session} : Reached env budget x → Call env x y → Reached env budget y

/-- What a process's region list, red-black tree and totals should be. -/
structure TreeWellFormed (s : Store Links) (t : TreeId) : Prop where
  /-- `head`, `next` and `prev` link the listed regions. -/
  list : (s.index.chain t).Holds (s.regionIds t)
  increasing : (s.listed t).Pairwise fun a b => a.virtBase < b.virtBase
  disjoint : (s.listed t).Pairwise fun a b => a.virtEnd ≤ b.virtBase
  aligned : ∀ d ∈ s.listed t, d.virtBase < d.virtEnd ∧ d.virtBase % pageBytes = 0 ∧ d.virtEnd % pageBytes = 0
  /-- The parent, left and right links are those of a red-black tree with the listed regions in order. -/
  tree : ∃ shape, (s.index.heap t).Holds shape ∧ shape.inorder = s.regionIds t ∧ IsRedBlack shape
  count : (s.totals t).regionCount = (s.regionIds t).length
  bytes : (s.totals t).mappedBytes = ((s.listed t).map Region.length).sum

theorem Store.Refines.treeWellFormed {held : RegionId → Prop} {s : Store Links} {a : Store Listing}
    (h : Store.Refines held s a) (t : TreeId) : TreeWellFormed s t := by
  obtain ⟨hchain, shape, hheap, hred, hin⟩ := h.links.tree t
  have hlayout := h.ok.layout t
  have hids := h.regionIds t
  refine ⟨hids ▸ hchain, ?_, ?_, ?_, ⟨shape, hheap, hin.trans hids.symm, hred⟩, ?_, ?_⟩
  · rw [h.listed]
    exact List.pairwise_map.2 hlayout.base_lt
  · rw [h.listed]
    exact hlayout.ordered
  · rw [h.listed]
    exact fun d hd => ⟨(hlayout.valid d hd).lt, (hlayout.valid d hd).base_aligned, (hlayout.valid d hd).end_aligned⟩
  · rw [h.totals, hids]
    exact h.ok.count t
  · rw [h.totals, h.listed]
    exact h.ok.bytes t

namespace Store.Refines

variable {held held' : RegionId → Prop} {s : Store Links} {a : Store Listing}

/-- Which regions are held may change to any set of owned ones. -/
theorem reheld (h : Refines held s a) (hown : ∀ r, held' r → a.Owned r) : Refines held' s a :=
  ⟨h.fields, h.links, h.ok, hown⟩

end Store.Refines

/-- One call keeps the machine in step with a listed one in which every held region is owned. -/
theorem Call.refines {env : Env} {x y : Session} {a : Machine Listing} (h : Refines x.held x.machine a)
    (hc : Call env x y) : ∃ b, Refines y.held y.machine b := by
  -- a held region `r` is its caller's: all others stay held while it is worked on
  have hothers : ∀ r, Refines (fun z => x.held z ∧ z ≠ r) x.machine a := fun r =>
    ⟨h.store.reheld fun z hz => h.store.owned z hz.1, h.anon, h.tables, h.budget⟩
  cases hc with
  | op o => exact ⟨_, h.step o⟩
  | acquire =>
    obtain ⟨hans, hst⟩ := h.store.regionAcquire
    refine ⟨_, h.setStore (hst.reheld fun z hz => ?_)⟩
    obtain hz | hz := hz
    · exact hst.owned z hz
    · exact (h.store.ok.acquired (hans ▸ hz)).owned
  | release r hr => exact ⟨_, (hothers r).releaseRegion (h.store.owned r hr).loose fun hz => hz.2 rfl⟩
  | prepare r virtBase virtEnd phys prot map backing handle token hr =>
    have hown := h.store.owned r hr
    have hst := ((hothers r).store.regionPrepare hown (fun hz => hz.2 rfl)
      ⟨virtBase.toNat, virtEnd.toNat, phys.toNat, prot, map, backing, handle, token⟩).store
    refine ⟨_, h.setStore (hst.reheld fun z hz => ?_)⟩
    by_cases hzr : z = r
    · subst hzr
      rw [Store.regionPrepare_eq]
      split_ifs
      · exact hown.prepared virtEnd.toNat_lt
      · exact hown
    · exact hst.owned z ⟨hz, hzr⟩
  | insert pid r hr =>
    have hown := h.store.owned r hr
    obtain ⟨hans, hst⟩ := (hothers r).store.insert (x.machine.budget pid) pid hown fun hz => hz.2 rfl
    refine ⟨_, h.setStore (hst.reheld fun z hz => ?_)⟩
    obtain ⟨hz, hlinked⟩ := hz
    by_cases hzr : z = r
    · subst hzr
      rw [Store.insert_refused]
      · exact hown
      · rw [← hans]
        simpa using hlinked
    · exact hst.owned z ⟨hz, hzr⟩
  | remove pid virtBase virtEnd =>
    obtain ⟨hans, hst⟩ := h.store.remove pid virtBase.toNat virtEnd.toNat
    refine ⟨_, h.setStore (hst.reheld fun z hz => ?_)⟩
    obtain hz | hz := hz
    · exact hst.owned z hz
    · obtain ⟨t, ht, hmem, heq⟩ := Store.remove_some (hans ▸ hz)
      rw [heq]
      exact h.store.ok.owned_detachRegion hmem

theorem refines_of_reached {env : Env} {budget : Pid → Option Nat} {x : Session} (h : Reached env budget x) :
    ∃ a, Refines x.held x.machine a := by
  induction h with
  | boot => exact ⟨_, refines_boot budget⟩
  | call _ hc ih =>
    obtain ⟨a, ha⟩ := ih
    exact hc.refines ha

theorem treeWellFormed_of_reached {env : Env} {budget : Pid → Option Nat} {x : Session} (h : Reached env budget x)
    {pid : Pid} {t : TreeId} (_ht : x.machine.store.vmaRoot pid = some t) : TreeWellFormed x.machine.store t := by
  obtain ⟨a, ha⟩ := refines_of_reached h
  exact ha.store.treeWellFormed t

theorem treeWellFormed_split :
    let x : Session := ⟨((boot Links.boot fun _ => none).step .sample (.mapAnon 1 0 0x3000 3 9)).step .sample
      (.protect 1 0x44001000 0x1000 1), fun _ => False⟩
    Reached .sample (fun _ => none) x ∧ x.machine.store.vmaRoot 1 = some 0 ∧ x.machine.store.regionIds 0 = [1, 0, 2] ∧
      TreeWellFormed x.machine.store 0 := by
  have hr := (Reached.boot : Reached .sample (fun _ => none) _).call (.op _ (.mapAnon 1 0 0x3000 3 9)) |>.call
    (.op _ (.protect 1 0x44001000 0x1000 1))
  have ht : (((boot Links.boot fun _ => none).step .sample (.mapAnon 1 0 0x3000 3 9)).step .sample
      (.protect 1 0x44001000 0x1000 1)).store.vmaRoot 1 = some 0 := by decide +kernel
  exact ⟨hr, ht, by decide +kernel, treeWellFormed_of_reached hr ht⟩

end LimitlessOS.Vma
