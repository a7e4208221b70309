/-
  LimitlessOS.Vma.AnonPool — the pool of anonymous pages with its reference counts.

  `g_vma64_anon_pages`, `g_vma64_anon_page_used` and `g_vma64_anon_claimed_pages` of
  `vma.c`. A page is named by its index; its physical address is the alias of the first
  page plus a multiple of the page size. Counts are natural numbers: a page is held by
  at most one page of each of the 1152 regions.
-/
import LimitlessOS.Vma.Basic

namespace LimitlessOS.Vma

/-- Where `paging64_kernel_physical_alias` puts the pool: page aligned, above zero and within the 52 address bits
of a page table entry. -/
structure PoolBase where
  base : Nat
  pos : 0 < base
  aligned : base % pageBytes = 0
  fits : base + maxAnonPages * pageBytes ≤ 2 ^ 52

/-- `paging64_kernel_physical_alias(g_vma64_anon_pages[index])` -/
def PoolBase.phys (b : PoolBase) (index : Nat) : Nat := b.base + index * pageBytes

@[ext] structure AnonPool where
  used : Nat → Nat
  bytes : Nat → Nat → UInt8
  claimed : Nat

namespace AnonPool

def boot : AnonPool := ⟨fun _ => 0, fun _ _ => 0, 0⟩

/-- The first run of free pages that is long enough. -/
@[irreducible] def freeRun (p : AnonPool) (count : Nat) : Option Nat :=
  (List.range (maxAnonPages - count + 1)).find? fun i => (List.range count).all fun run => p.used (i + run) = 0

/-- `vma64_claim_anon_pages`: a free run, zeroed; 0 if there is none. -/
def claim (p : AnonPool) (b : PoolBase) (count : Nat) : Nat × AnonPool :=
  if count = 0 ∨ count > maxAnonPages then (0, p)
  else
    match p.freeRun count with
    | none => (0, p)
    | some i =>
      (b.phys i,
        { used := fun j => if i ≤ j ∧ j < i + count then 1 else p.used j
          bytes := fun j => if i ≤ j ∧ j < i + count then fun _ => 0 else p.bytes j
          claimed := p.claimed + count })

/-- The first of the pages at which a run of `count` pages can start that has the address. -/
@[irreducible] def runAt (b : PoolBase) (physical count : Nat) : Option Nat :=
  (List.range (maxAnonPages - count + 1)).find? fun i => b.phys i = physical

def pageIndex (b : PoolBase) (physical : Nat) : Option Nat := if physical = 0 then none else runAt b physical 1

/-- `vma64_retain_anon_page` -/
def retain (p : AnonPool) (b : PoolBase) (physical : Nat) : Bool × AnonPool :=
  match pageIndex b physical with
  | none => (false, p)
  | some i =>
    if p.used i = 0 then (false, p)
    else (true, { p with used := Function.update p.used i (p.used i + 1), claimed := p.claimed + 1 })

/-- `vma64_release_anon_pages`: each page of the run loses one holder and is zeroed when it has none left. -/
def release (p : AnonPool) (b : PoolBase) (physical count : Nat) : AnonPool :=
  if physical = 0 ∨ count = 0 ∨ count > maxAnonPages then p
  else
    match runAt b physical count with
    | none => p
    | some i =>
      { used := fun j => if i ≤ j ∧ j < i + count then p.used j - 1 else p.used j
        bytes := fun j => if i ≤ j ∧ j < i + count ∧ p.used j - 1 = 0 then fun _ => 0 else p.bytes j
        claimed := p.claimed - (List.range count).countP fun run => p.used (i + run) ≠ 0 }

/-- `vma64_copy_page` between two pages of the pool. -/
def copyPage (p : AnonPool) (target source : Nat) : AnonPool :=
  { p with bytes := Function.update p.bytes target (p.bytes source) }

end AnonPool

end LimitlessOS.Vma
