/-
  LimitlessOS.Vma.RegionIndex — how the regions of a process are linked.

  `vma.c` keeps each process's regions in two intrusive structures at once: a doubly
  linked list in address order and a red-black tree with parent links. `Links` is that
  pointer structure, with the source's operations on it: `Heap.rotate` at `.left` and
  `.right` is `vma64_rb_rotate_left` and `vma64_rb_rotate_right`, `Heap.fixup` followed
  by `Heap.blackenRoot` is `vma64_rb_insert_fixup`, `Heap.lookup` the loop of
  `vma64_find`. `Listing` is what it is for: one list of regions per tree. The VMA layer above is written once over the interface
  `RegionIndex` that both implement, and `LimitlessOS.Vma.IndexRefinement` proves that
  `Links` refines `Listing`.
-/
import LimitlessOS.Lib.LinkedList
import LimitlessOS.Lib.RedBlack.Insert
import LimitlessOS.Vma.Basic

namespace LimitlessOS.Vma

open Function Lib.LinkedList Lib.RedBlack

/-- What the VMA layer asks of the structure that links regions to trees. `base` is the regions' `virt_base`
field, `region` the whole record. -/
class RegionIndex (Ix : Type) where
  /-- The regions of a tree, from `head` along `next`. -/
  regions : Ix → TreeId → List RegionId
  /-- The region of a tree that holds an address, with the number of nodes visited. -/
  search : Ix → (RegionId → Region) → TreeId → Nat → Option RegionId × Nat
  /-- `region->prev != 0` or `region->next != 0`. -/
  linked : Ix → RegionId → Bool
  /-- Link a region between two neighbours and into the search tree. -/
  add : Ix → (RegionId → Nat) → TreeId → RegionId → Option RegionId → Option RegionId → Bool × Ix
  /-- `vma64_detach_region`. -/
  drop : Ix → (RegionId → Nat) → TreeId → RegionId → Ix
  /-- Clear a region's own links. -/
  reset : Ix → RegionId → Ix
  /-- Empty a tree. -/
  clear : Ix → TreeId → Ix

/-! ## The pointer structure -/

/-- The link fields of `g_vma64_regions` and the two entry pointers of each tree. -/
structure Links where
  list : RegionId → Link RegionId
  rb : RegionId → Cell RegionId
  head : TreeId → Option RegionId
  rbRoot : TreeId → Option RegionId

namespace Links

def boot : Links where
  list _ := ⟨none, none⟩
  rb _ := ⟨none, none, none, .black⟩
  head _ := none
  rbRoot _ := none

def chain (ix : Links) (t : TreeId) : Chain RegionId := ⟨ix.list, ix.head t⟩

def heap (ix : Links) (t : TreeId) : Heap RegionId := ⟨ix.rb, ix.rbRoot t⟩

def setChain (ix : Links) (t : TreeId) (s : Chain RegionId) : Links :=
  { ix with list := s.link, head := update ix.head t s.head }

def setHeap (ix : Links) (t : TreeId) (h : Heap RegionId) : Links :=
  { ix with rb := h.cell, rbRoot := update ix.rbRoot t h.root }

/-- The loops over a list or a tree stop after as many steps as there are regions. -/
def fuel : Nat := maxStaticRegions + 1

def regions (ix : Links) (t : TreeId) : List RegionId := (ix.chain t).toList fuel

/-- The comparison of `vma64_find`: `.eq` inside the region, `.lt` to its left. -/
def compareAddress (region : RegionId → Region) (address : Nat) (r : RegionId) : Ordering :=
  if (region r).Contains address then .eq else if address < (region r).virtBase then .lt else .gt

def rbInsert (base : RegionId → Nat) (h : Heap RegionId) (r : RegionId) : Bool × Heap RegionId := h.insert base fuel r

/-- Insert the listed regions one by one into an empty tree. -/
def rbRebuild (base : RegionId → Nat) (h : Heap RegionId) (listed : List RegionId) : Heap RegionId :=
  listed.foldl (fun h r => (rbInsert base (h.modify r fun _ => ⟨none, none, none, .black⟩) r).2) { h with root := none }

def resetRb (ix : Links) (r : RegionId) : Links :=
  { ix with rb := update ix.rb r ⟨none, none, none, .black⟩ }

/-- Take a region out of its list, clear its links and rebuild the tree from the list. -/
def detach (ix : Links) (base : RegionId → Nat) (t : TreeId) (r : RegionId) : Links :=
  let chain :=
    if r ∈ ix.regions t then (ix.chain t).unlink r else (ix.chain t).modify r fun _ => ⟨none, none⟩
  let ix := (ix.setChain t chain).resetRb r
  ix.setHeap t (rbRebuild base (ix.heap t) (ix.regions t))

/-- The linking half of `vma64_insert`: into the list, then into the tree; a refusal by the tree is undone. -/
def attach (ix : Links) (base : RegionId → Nat) (t : TreeId) (r : RegionId) (previous cursor : Option RegionId) :
    Bool × Links :=
  let ix := ix.setChain t ((ix.chain t).splice r previous cursor)
  match rbInsert base (ix.heap t) r with
  | (true, h) => (true, ix.setHeap t h)
  | (false, h) => (false, (ix.setHeap t h).detach base t r)

instance : RegionIndex Links where
  regions := regions
  search ix region t address := (ix.heap t).lookup (compareAddress region address) fuel (ix.rbRoot t)
  linked ix r := (ix.list r).prev.isSome || (ix.list r).next.isSome
  add := attach
  drop := detach
  reset ix r := { ix with list := update ix.list r ⟨none, none⟩ }.resetRb r
  clear ix t := { ix with head := update ix.head t none, rbRoot := update ix.rbRoot t none }

end Links

/-! ## The abstract structure -/

/-- The regions of each tree, in address order. -/
structure Listing where
  regions : TreeId → List RegionId

namespace Listing

def boot : Listing := ⟨fun _ => []⟩

/-- The list with `r` put in front of `cursor`. -/
def insertBefore (cursor : Option RegionId) (r : RegionId) : List RegionId → List RegionId
  | [] => [r]
  | x :: xs => if some x = cursor then r :: x :: xs else x :: insertBefore cursor r xs

instance : RegionIndex Listing where
  regions := regions
  search ix region t address := ((ix.regions t).find? fun r => (region r).Contains address, 0)
  linked _ _ := false
  add ix _ t r _ cursor := (true, ⟨update ix.regions t (insertBefore cursor r (ix.regions t))⟩)
  drop ix _ t r := ⟨update ix.regions t ((ix.regions t).erase r)⟩
  reset ix _ := ix
  clear ix t := ⟨update ix.regions t []⟩

end Listing

end LimitlessOS.Vma
