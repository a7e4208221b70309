/-
  LimitlessOS.Vma.IndexRefinement — the linked structure refines the plain listing.

  `Corr ix l`: in the pointer structure `ix`, every tree `t` is the list `l t`, twice:
  its doubly linked list holds exactly those regions in that order, and so does a
  red-black tree; a region of no tree has cleared list links.

  Proved:
  - `Corr.regions`, `Corr.search`: reading the pointers reads the list.
  - `Corr.attach`, `Corr.detach`, `Corr.reset`, `Corr.releaseAll`: every change of the
    pointers is the corresponding change of the list. `detach` rebuilds the tree by
    inserting the remaining regions one by one (`rbRebuild_holds`).
-/
import LimitlessOS.Vma.Layout

namespace LimitlessOS.Vma

open Lib.LinkedList Lib.RedBlack RegionIndex Links Function List

/-- Every region belongs to one tree, once, and comes from the pool. -/
structure Listing.Separated (l : TreeId → List RegionId) : Prop where
  nodup : ∀ t, (l t).Nodup
  apart : ∀ t t' r, r ∈ l t → r ∈ l t' → t = t'
  bound : ∀ t, ∀ r ∈ l t, r < maxStaticRegions

theorem Listing.Separated.length_le {l : TreeId → List RegionId} (h : Separated l) (t : TreeId) :
    (l t).length ≤ maxStaticRegions := by
  have hsub : l t ⊆ range maxStaticRegions := fun r hr => mem_range.2 (h.bound t r hr)
  simpa using ((h.nodup t).subperm hsub).length_le

namespace Links

/-- A tree of the pointer structure is the list `l`. -/
structure TreeRep (ix : Links) (t : TreeId) (l : List RegionId) : Prop where
  chain : (ix.chain t).Holds l
  heap : ∃ shape, (ix.heap t).Holds shape ∧ IsRedBlack shape ∧ shape.inorder = l

structure Corr (ix : Links) (l : TreeId → List RegionId) : Prop where
  tree : ∀ t, ix.TreeRep t (l t)
  loose : ∀ r, (∀ t, r ∉ l t) → ix.list r = ⟨none, none⟩

variable {ix : Links} {l : TreeId → List RegionId}

theorem Corr.regions (h : ix.Corr l) (hl : Listing.Separated l) (t : TreeId) : ix.regions t = l t :=
  (h.tree t).chain.toList ((hl.length_le t).trans (Nat.le_succ _))

theorem Corr.search (h : ix.Corr l) (hs : Listing.Separated l) {region : RegionId → Region} (t : TreeId)
    (hl : Layout ((l t).map region)) (address : Nat) :
    ((ix.heap t).lookup (compareAddress region address) fuel (ix.rbRoot t)).1 =
      (l t).find? fun r => (region r).Contains address := by
  obtain ⟨shape, hholds, -, hin⟩ := (h.tree t).heap
  have hroot : ix.rbRoot t = shape.root := hholds.root
  have hord : shape.inorder.Pairwise fun a b =>
      compareAddress region address a = .gt ∨ compareAddress region address b = .lt := by
    rw [hin]
    have hpair := pairwise_map.1 hl.ordered
    refine hpair.imp_of_mem fun {a b} ha hb hab => ?_
    have hva := (hl.valid _ (mem_map_of_mem ha)).lt
    simp only [Region.Before] at hab
    by_cases hlt : address < (region b).virtBase
    · have hnb : ¬ (region b).Contains address := fun hc => absurd hc.1 (by omega)
      simp [compareAddress, hnb, hlt]
    · have hna : ¬ (region a).Contains address := fun hc => absurd hc.2 (by omega)
      simp [compareAddress, hna, show ¬ address < (region a).virtBase by omega]
  rw [hroot, Heap.Rep.lookup hholds.rep hord (by rw [hin]; exact (hs.length_le t).trans (Nat.le_succ _)), hin]
  congr 1
  funext r
  simp only [compareAddress]
  split_ifs <;> simp_all

/-! ## Linking a region -/

section Frame

variable {t : TreeId} {s : List RegionId}

/-- A tree is untouched by writes to the cells of other regions and to other trees' pointers. -/
theorem TreeRep.congr {ix' : Links} (h : ix.TreeRep t s) (hlist : ∀ r ∈ s, ix'.list r = ix.list r)
    (hrb : ∀ r ∈ s, ix'.rb r = ix.rb r) (hhead : ix'.head t = ix.head t) (hroot : ix'.rbRoot t = ix.rbRoot t) :
    ix'.TreeRep t s := by
  obtain ⟨hchain, shape, hheap, hred, hin⟩ := h
  exact ⟨hchain.congr hhead hlist, shape, hheap.congr hroot (fun r hr => hrb r (hin ▸ hr)), hred, hin⟩

end Frame

variable {t : TreeId} {r : RegionId} {base : RegionId → Nat} {shape : Shape RegionId}

/-- Inserting a region into a tree that holds `a ++ b`, between the two. -/
theorem rbInsert_holds {h : Heap RegionId} {a b : List RegionId} (hh : h.Holds shape) (hred : IsRedBlack shape)
    (hin : shape.inorder = a ++ b) (hord : (a ++ r :: b).Pairwise (base · < base ·)) (hlen : (a ++ b).length ≤ maxStaticRegions) :
    (rbInsert base h r).1 ∧
      (∃ shape', (rbInsert base h r).2.Holds shape' ∧ IsRedBlack shape' ∧ shape'.inorder = a ++ r :: b) ∧
      ∀ z ∉ a ++ b, z ≠ r → (rbInsert base h r).2.cell z = h.cell z := by
  have hord' : (a ++ b).Pairwise (base · < base ·) := hord.sublist (by simp)
  obtain ⟨-, hrb, har⟩ := pairwise_append.1 hord
  have hnew : ∀ z ∈ a ++ b, base z ≠ base r := by
    intro z hz
    obtain hz | hz := mem_append.1 hz
    · exact (har z hz r (by simp)).ne
    · exact ((pairwise_cons.1 hrb).1 z hz).ne'
  obtain ⟨hok, ⟨shape', before, after, hholds', hred', hsplit, hin', hlt, hgt⟩, hframe⟩ :=
    hh.insert hred (hin ▸ hord') (hin ▸ hnew) (show _ < fuel by rw [hin]; exact Nat.lt_succ_of_le hlen)
  refine ⟨hok, ⟨shape', hholds', hred', ?_⟩, fun z hz hzr => hframe z (hin ▸ hz) hzr⟩
  -- both lists are sorted by the same strict order and have the same elements
  have hsorted : (before ++ r :: after).Pairwise (base · < base ·) := by
    rw [hin, ] at hsplit
    rw [hsplit] at hord'
    obtain ⟨hb, ha, hba⟩ := pairwise_append.1 hord'
    refine pairwise_append.2 ⟨hb, pairwise_cons.2 ⟨hgt, ha⟩, fun x hx y hy => ?_⟩
    obtain rfl | hy := mem_cons.1 hy
    · exact hlt x hx
    · exact hba x hx y hy
  have hperm : (before ++ r :: after).Perm (a ++ r :: b) := by
    refine perm_middle.trans (Perm.trans ?_ perm_middle.symm)
    rw [← hsplit, hin]
  rw [hin']
  exact hperm.eq_of_pairwise (fun x y _ _ hxy hyx => absurd hxy (lt_asymm hyx)) hsorted hord

/-- The rebuilding loop, with the regions `done` already in the tree. -/
theorem rbRebuild_loop (rest done : List RegionId) {h : Heap RegionId} (hh : h.Holds shape) (hred : IsRedBlack shape)
    (hin : shape.inorder = done) (hord : (done ++ rest).Pairwise (base · < base ·))
    (hlen : (done ++ rest).length ≤ maxStaticRegions) :
    let h' := rest.foldl (fun h r => (rbInsert base (h.modify r fun _ => ⟨none, none, none, .black⟩) r).2) h
    (∃ shape', h'.Holds shape' ∧ IsRedBlack shape' ∧ shape'.inorder = done ++ rest) ∧
      ∀ z ∉ done ++ rest, h'.cell z = h.cell z := by
  induction rest generalizing done h shape with
  | nil => exact ⟨⟨shape, hh, hred, by simpa using hin⟩, fun _ _ => rfl⟩
  | cons r rest ih =>
    have hr : r ∉ done := by
      intro hmem
      exact lt_irrefl _ ((pairwise_append.1 hord).2.2 r hmem r (by simp))
    have hcleared : (h.modify r fun _ => ⟨none, none, none, .black⟩).Holds shape :=
      hh.congr rfl fun z hz => Heap.modify_cell_ne fun e => hr (by rw [← hin, ← e]; exact hz)
    have hord' : (done ++ [r]).Pairwise (base · < base ·) := hord.sublist (by simp)
    obtain ⟨-, ⟨shape', hholds', hred', hin'⟩, hframe⟩ := rbInsert_holds (a := done) (b := []) (r := r) hcleared hred
      (by simpa using hin) hord' (by simp at hlen ⊢; omega)
    obtain ⟨hdone, hframe'⟩ := ih (done ++ [r]) hholds' hred' hin' (by simpa using hord) (by simpa using hlen)
    refine ⟨by simpa using hdone, fun z hz => ?_⟩
    simp only [mem_append, mem_cons, not_or] at hz
    rw [foldl_cons, hframe' z (by simp [hz]), hframe z (by simp [hz]) hz.2.1, Heap.modify_cell_ne hz.2.1]

theorem rbRebuild_holds {listed : List RegionId} (h : Heap RegionId)
    (hord : listed.Pairwise (base · < base ·)) (hlen : listed.length ≤ maxStaticRegions) :
    (∃ shape, (rbRebuild base h listed).Holds shape ∧ IsRedBlack shape ∧ shape.inorder = listed) ∧
      ∀ z ∉ listed, (rbRebuild base h listed).cell z = h.cell z :=
  rbRebuild_loop listed [] (h := { h with root := none })
    (⟨rfl, trivial, nodup_nil⟩ : Heap.Holds _ Shape.leaf) isRedBlack_leaf rfl hord hlen

section

variable (h : ix.Corr l) (hs : Listing.Separated l)
include h hs

/-- What a change of one tree must achieve: that tree, untouched cells elsewhere, cleared links of freed regions. -/
theorem Corr.update {ix' : Links} {s : List RegionId} (htree : ix'.TreeRep t s)
    (hlist : ∀ z ∉ l t, z ∉ s → ix'.list z = ix.list z) (hfreed : ∀ z ∈ l t, z ∉ s → ix'.list z = ⟨none, none⟩)
    (hnew : ∀ z ∈ s, z ∉ l t → ∀ t', z ∉ l t') (hrb : ∀ z ∉ l t, z ∉ s → ix'.rb z = ix.rb z)
    (hhead : ∀ t', t' ≠ t → ix'.head t' = ix.head t') (hroot : ∀ t', t' ≠ t → ix'.rbRoot t' = ix.rbRoot t') :
    ix'.Corr (update l t s) := by
  refine ⟨fun t' => ?_, fun z hz => ?_⟩
  · by_cases ht : t' = t
    · subst ht
      rwa [update_self]
    · rw [update_of_ne ht]
      have hout : ∀ z ∈ l t', z ∉ l t ∧ z ∉ s := fun z hz =>
        have hzt : z ∉ l t := fun hm => ht (hs.apart t' t z hz hm)
        ⟨hzt, fun hm => hnew z hm hzt t' hz⟩
      exact (h.tree t').congr (fun z hz => hlist z (hout z hz).1 (hout z hz).2)
        (fun z hz => hrb z (hout z hz).1 (hout z hz).2) (hhead t' ht) (hroot t' ht)
  · have hzs : z ∉ s := by simpa using hz t
    by_cases hzt : z ∈ l t
    · exact hfreed z hzt hzs
    · refine (hlist z hzt hzs).trans (h.loose z fun t' => ?_)
      by_cases ht : t' = t
      · exact ht ▸ hzt
      · simpa [update_of_ne ht] using hz t'

theorem Corr.attach {a b : List RegionId} (hr : ∀ t, r ∉ l t) (hsplit : l t = a ++ b)
    (hord : (a ++ r :: b).Pairwise (base · < base ·)) :
    (ix.attach base t r a.getLast? b.head?).1 ∧
      (ix.attach base t r a.getLast? b.head?).2.Corr (Function.update l t (a ++ r :: b)) := by
  obtain ⟨hchain, shape, hheap, hred, hin⟩ := h.tree t
  rw [hsplit] at hchain hin
  have hlen : (a ++ b).length ≤ maxStaticRegions := hsplit ▸ hs.length_le t
  obtain ⟨hspliced, hlist⟩ := hchain.splice (hsplit ▸ hr t)
  obtain ⟨hok, ⟨shape', hholds', hred', hin'⟩, hrb⟩ := rbInsert_holds hheap hred hin hord hlen
  have hattach : ix.attach base t r a.getLast? b.head? =
      (true, (ix.setChain t ((ix.chain t).splice r a.getLast? b.head?)).setHeap t (rbInsert base (ix.heap t) r).2) := by
    have heq : (ix.setChain t ((ix.chain t).splice r a.getLast? b.head?)).heap t = ix.heap t := rfl
    obtain ⟨h', hins⟩ : ∃ h', rbInsert base (ix.heap t) r = (true, h') := ⟨_, Prod.ext hok rfl⟩
    simp only [Links.attach, heq, hins]
  rw [hattach]
  have hout : ∀ z, z ∉ l t → z ∉ a ++ r :: b → z ∉ a ++ b ∧ z ≠ r := by
    intro z hz hzs
    simp only [mem_append, mem_cons, not_or] at hzs
    exact ⟨hsplit ▸ hz, hzs.2.1⟩
  refine ⟨rfl, h.update hs ⟨?_, shape', ?_, hred', hin'⟩ ?_ ?_ ?_ ?_ ?_ ?_⟩
  · exact hspliced.congr (by simp [setHeap, setChain, chain]) fun z _ => rfl
  · exact hholds'.congr (by simp [setHeap, heap]) fun z _ => rfl
  · exact fun z hz hzs => hlist z (hout z hz hzs).1 (hout z hz hzs).2
  · intro z hz hzs
    refine absurd (hsplit ▸ hz) fun hm => hzs ?_
    rw [mem_append] at hm
    simp only [mem_append, mem_cons]
    tauto
  · intro z hz hzt
    obtain rfl : z = r := by
      rw [hsplit] at hzt
      simp only [mem_append, mem_cons] at hz hzt
      tauto
    exact hr
  · exact fun z hz hzs => hrb z (hout z hz hzs).1 (hout z hz hzs).2
  · intro t' ht
    simp [setHeap, setChain, ht]
  · intro t' ht
    simp [setHeap, setChain, ht]

theorem Corr.detach (hr : r ∈ l t) (hord : (l t).Pairwise (base · < base ·)) :
    (ix.detach base t r).Corr (Function.update l t ((l t).erase r)) := by
  obtain ⟨a, b, hsplit⟩ := append_of_mem hr
  have hra : r ∉ a := by
    have hnd := hs.nodup t
    rw [hsplit] at hnd
    exact fun hm => (nodup_append.1 hnd).2.2 r hm r (by simp) rfl
  have herase : (l t).erase r = a ++ b := by
    rw [hsplit, erase_append_right _ hra, erase_cons_head]
  obtain ⟨hchain, -⟩ := h.tree t
  rw [hsplit] at hchain
  obtain ⟨hunlinked, hcleared, hlist⟩ := hchain.unlink
  have hlen : (a ++ b).length ≤ maxStaticRegions := by
    have := hs.length_le t
    rw [hsplit] at this
    simp at this ⊢
    omega
  have hord' : (a ++ b).Pairwise (base · < base ·) := (hsplit ▸ hord).sublist (by simp)
  set ix1 := (ix.setChain t ((ix.chain t).unlink r)).resetRb r with hix1
  have hchain1 : (ix1.chain t).Holds (a ++ b) :=
    hunlinked.congr (by simp [hix1, resetRb, setChain, Links.chain]) fun z _ => rfl
  have hregions : ix1.regions t = a ++ b := hchain1.toList (hlen.trans (Nat.le_succ _))
  have hdetach : ix.detach base t r = ix1.setHeap t (rbRebuild base (ix1.heap t) (a ++ b)) := by
    have hmem : r ∈ ix.regions t := by rw [h.regions hs]; exact hr
    rw [← hregions]
    simp only [Links.detach, hmem, if_true, hix1]
  obtain ⟨⟨shape', hholds', hred', hin'⟩, hrb⟩ := rbRebuild_holds (ix1.heap t) hord' hlen
  rw [hdetach, herase]
  refine h.update hs ⟨?_, shape', ?_, hred', hin'⟩ ?_ ?_ ?_ ?_ ?_ ?_
  · exact hchain1.congr rfl fun z _ => rfl
  · exact hholds'.congr (by simp [setHeap, heap]) fun z _ => rfl
  · exact fun z hz _ => hlist z (hsplit ▸ hz)
  · intro z hz hzs
    obtain rfl : z = r := by
      rw [hsplit] at hz
      simp only [mem_append, mem_cons] at hz hzs
      tauto
    exact hcleared
  · intro z hz hzt
    refine absurd ?_ hzt
    rw [hsplit]
    simp only [mem_append, mem_cons] at hz ⊢
    tauto
  · intro z hz hzs
    have hzr : z ≠ r := fun e => hz (e ▸ hr)
    refine (hrb z hzs).trans ?_
    simp [hix1, resetRb, setChain, heap, hzr]
  · intro t' ht
    simp [setHeap, hix1, resetRb, setChain, ht]
  · intro t' ht
    simp [setHeap, hix1, resetRb, setChain, ht]

end

/-! ## Clearing links -/

theorem Corr.reset (h : ix.Corr l) (hr : ∀ t, r ∉ l t) : (reset ix r).Corr l := by
  have hne : ∀ t, ∀ z ∈ l t, z ≠ r := fun t z hz e => hr t (e ▸ hz)
  refine ⟨fun t => (h.tree t).congr (fun z hz => ?_) (fun z hz => ?_) rfl rfl, fun z hz => ?_⟩
  · simp [RegionIndex.reset, resetRb, hne t z hz]
  · simp [RegionIndex.reset, resetRb, hne t z hz]
  · by_cases hzr : z = r
    · simp [RegionIndex.reset, resetRb, hzr]
    · simpa [RegionIndex.reset, resetRb, hzr] using h.loose z hz

theorem resetAll_fields (ids : List RegionId) (ix : Links) :
    (ids.foldl reset ix).head = ix.head ∧ (ids.foldl reset ix).rbRoot = ix.rbRoot ∧
      (∀ z ∈ ids, (ids.foldl reset ix).list z = ⟨none, none⟩) ∧
      ∀ z ∉ ids, (ids.foldl reset ix).list z = ix.list z ∧ (ids.foldl reset ix).rb z = ix.rb z := by
  induction ids generalizing ix with
  | nil => simp
  | cons r rest ih =>
    obtain ⟨hhead, hroot, hin, hout⟩ := ih (reset ix r)
    refine ⟨hhead, hroot, fun z hz => ?_, fun z hz => ?_⟩
    · by_cases hzr : z ∈ rest
      · exact hin z hzr
      · obtain rfl : z = r := by simpa [hzr] using hz
        rw [foldl_cons, (hout z hzr).1]
        simp [reset, resetRb]
    · simp only [mem_cons, not_or] at hz
      rw [foldl_cons, (hout z hz.2).1, (hout z hz.2).2]
      simp [reset, resetRb, hz.1]

/-- Clearing the links of all of a tree's regions and then its two pointers empties it. -/
theorem Corr.releaseAll (h : ix.Corr l) (hs : Listing.Separated l) (t : TreeId) :
    (RegionIndex.clear ((l t).foldl RegionIndex.reset ix) t).Corr (Function.update l t []) := by
  obtain ⟨hhead, hroot, hin, hout⟩ := resetAll_fields (l t) ix
  refine h.update hs ⟨⟨?_, trivial, nodup_nil⟩, .leaf, ⟨?_, trivial, nodup_nil⟩, isRedBlack_leaf, rfl⟩
    (fun z hz _ => (hout z hz).1) (fun z hz _ => hin z hz) (by simp) (fun z hz _ => (hout z hz).2) ?_ ?_
  · simp [clear, chain]
  · simp [clear, heap]
  · intro t' ht
    simp [clear, ht, hhead]
  · intro t' ht
    simp [clear, ht, hroot]

theorem corr_boot : boot.Corr fun _ => [] :=
  ⟨fun _ => ⟨⟨rfl, trivial, nodup_nil⟩, .leaf, ⟨rfl, trivial, nodup_nil⟩, isRedBlack_leaf, rfl⟩, fun _ _ => rfl⟩

theorem Corr.linked (h : ix.Corr l) (hr : ∀ t, r ∉ l t) : linked ix r = false := by
  simp [RegionIndex.linked, h.loose r hr]

end Links

end LimitlessOS.Vma
