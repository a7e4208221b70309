/-
  LimitlessOS.Vma.Paging — the user page tables the VMA layer writes.

  The user-page functions of `kernel/arch/x86_64/paging.c`. A process with a slot in
  the pool of process roots has page tables of its own (16 of them); a process without
  a root uses the shared kernel tables (32). A process without a slot whose record names
  a root, as that of a thread does, reads, changes and clears the entries of that root,
  and is refused every install. The `_for_process` functions and their shared twins do
  the same thing to their own tables, so each pair is one definition here. A page table
  is acquired on first use and never given back. Page directory entries, the NXE bit and
  the reload of CR3 are not modelled.
-/
import LimitlessOS.Vma.Basic

namespace LimitlessOS.Vma

/-- Whose page tables a process uses. -/
inductive PageRoot where
  | shared
  | own (slot : Nat)
  deriving DecidableEq, Repr

/-- `PAGING64_VMA_USER_PT_COUNT` and `PAGING64_PROCESS_ROOT_VMA_PT_COUNT`. -/
def PageRoot.tableLimit : PageRoot → Nat
  | .shared => 32
  | .own _ => 16

/-- A present page table entry: the address bits 12 to 51, and two of its flags. -/
structure Pte where
  phys : Nat
  writable : Bool
  noExecute : Bool
  deriving DecidableEq, Repr

/-- `physical | flags`; bit 63 of the address would land on the no-execute flag. -/
def Pte.make (physical : Nat) (prot : UInt32) : Pte where
  phys := physical % 2 ^ 52
  writable := prot &&& protWrite ≠ 0
  noExecute := prot &&& protExecute = 0 || physical.testBit 63

/-- `paging64_user_page_protection` of a present entry. -/
def Pte.protection (e : Pte) : UInt32 :=
  protRead ||| (if e.writable then protWrite else 0) ||| (if e.noExecute then 0 else protExecute)

/-- The page tables of one root: the directory indices that have one, and the present entries. -/
structure PageTable where
  slots : List Nat
  entry : Nat → Nat → Option Pte

/-- `paging64_index64` -/
def index64 (address shift : Nat) : Nat := address / 2 ^ shift % 512

def pdIndex (address : Nat) : Nat := index64 address 21

def ptIndex (address : Nat) : Nat := index64 address 12

/-- The address selects the user window: directory 1 of the first 512 GiB. -/
def inUserWindow (address : Nat) : Bool := index64 address 39 = 0 && index64 address 30 = 1

namespace PageTable

def empty : PageTable := ⟨[], fun _ _ => none⟩

def setEntry (p : PageTable) (address : Nat) (e : Option Pte) : PageTable :=
  { p with entry := fun pd pt => if pd = pdIndex address ∧ pt = ptIndex address then e else p.entry pd pt }

/-- `paging64_user_page_entry_slot`: no answer without a page table for the address. -/
def hasSlot (p : PageTable) (address : Nat) : Bool := inUserWindow address && p.slots.contains (pdIndex address)

/-- The present entry of an address. -/
def lookup (p : PageTable) (address : Nat) : Option Pte :=
  if p.hasSlot address then p.entry (pdIndex address) (ptIndex address) else none

/-- `paging64_vma_user_pt_acquire_slot`: a new page table starts out empty. -/
def acquireSlot (p : PageTable) (limit pd : Nat) : Option PageTable :=
  if p.slots.contains pd then some p
  else if p.slots.length < limit then
    some ⟨p.slots ++ [pd], fun i j => if i = pd then none else p.entry i j⟩
  else none

/-- `paging64_install_user_page_mapping`: the windows at `0x40000000` and `0x41000000` are taken. A process without a
    slot in the pool has no tables to give out, `limit = 0`: the twin for processes refuses it whatever its root holds. -/
def install (p : PageTable) (limit virt phys : Nat) (prot : UInt32) : Bool × PageTable :=
  if limit = 0 ∨ virt % pageBytes ≠ 0 ∨ phys % pageBytes ≠ 0 ∨ phys = 0
      ∨ prot &&& (protRead ||| protWrite ||| protExecute) = 0
      ∨ !inUserWindow virt ∨ pdIndex virt = pdIndex 0x40000000 ∨ pdIndex virt = pdIndex 0x41000000 then
    (false, p)
  else
    match p.acquireSlot limit (pdIndex virt) with
    | none => (false, p)
    | some p => (true, p.setEntry virt (some (.make phys prot)))

def clear (p : PageTable) (virt : Nat) : PageTable :=
  match p.lookup virt with
  | none => p
  | some _ => p.setEntry virt none

def remap (p : PageTable) (virt phys : Nat) (prot : UInt32) : Bool × PageTable :=
  match p.lookup virt with
  | none => (false, p)
  | some _ =>
    if phys % pageBytes ≠ 0 ∨ phys = 0 ∨ prot &&& (protRead ||| protWrite ||| protExecute) = 0 then (false, p)
    else (true, p.setEntry virt (some (.make phys prot)))

def updateProtection (p : PageTable) (virt : Nat) (prot : UInt32) : Bool × PageTable :=
  match p.lookup virt with
  | none => (false, p)
  | some e =>
    if prot &&& (protRead ||| protWrite ||| protExecute) = 0 then (false, p)
    else (true, p.setEntry virt (some (.make e.phys prot)))

def present (p : PageTable) (virt : Nat) : Bool := (p.lookup virt).isSome

def physical (p : PageTable) (virt : Nat) : Nat := ((p.lookup virt).map Pte.phys).getD 0

def protection (p : PageTable) (virt : Nat) : UInt32 := ((p.lookup virt).map Pte.protection).getD 0

end PageTable

end LimitlessOS.Vma
