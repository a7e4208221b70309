/-
  LimitlessOS.Vma.Basic — the constants and the small functions of the VMA layer.

  `kernel/include/vma_x64.h` and the static helpers at the head of
  `kernel/arch/x86_64/vma.c`, in the UEFI build (the only one that links `vma.c`).
  Addresses are natural numbers below `2 ^ 64`; `add64` is the machine's addition
  where a sum can wrap. Flag words are `UInt32`. The telemetry counters of `vma.c`
  (lookup steps, map and unmap stages, fork statistics) are not modelled.
-/
import Mathlib.Data.UInt
import Mathlib.Tactic

namespace LimitlessOS.Vma

abbrev Pid := UInt32

/-- `PROCESS64_INVALID_PID`, also the mark of a free tree slot. -/
def invalidPid : Pid := 0xFFFFFFFF

/-- An index into `g_vma64_regions`; a region pointer is an `Option RegionId`. -/
abbrev RegionId := Nat

/-- An index into `g_vma64_trees`. -/
abbrev TreeId := Nat

def pageBytes : Nat := 0x1000
def maxProcessTrees : Nat := 16
def maxStaticRegions : Nat := 1152
def maxAnonPages : Nat := 1024

def anonHintBase : Nat := 0x44000000
def anonHintLimit : Nat := 0x44200000
def brkBaseDefault : Nat := 0x44100000
def brkLimitDefault : Nat := 0x44180000

def protRead : UInt32 := 0x1
def protWrite : UInt32 := 0x2
def protExecute : UInt32 := 0x4

def mapPrivate : UInt32 := 0x1
def mapFixed : UInt32 := 0x4
def mapAnonymous : UInt32 := 0x8
def mapCopyOnWrite : UInt32 := 0x10

def faultPresent : UInt64 := 0x1
def faultWrite : UInt64 := 0x2

def backingAnon : UInt32 := 0x1
def backingHandleNone : UInt32 := 0xFFFFFFFF
def invalidToken : UInt32 := 0
def physAnon : Nat := 0xFFFFFFFFFFFFFFFF

/-- `vma_region_t` without its links; `reserved` is never anything but zero. -/
structure Region where
  virtBase : Nat
  virtEnd : Nat
  physBase : Nat
  protFlags : UInt32
  mapFlags : UInt32
  backingType : UInt32
  backingHandle : UInt32
  vmaToken : UInt32
  deriving DecidableEq, Repr

/-- What `vma64_clear_region` leaves. -/
def Region.cleared : Region := ⟨0, 0, 0, 0, 0, 0, backingHandleNone, invalidToken⟩

namespace Region

def length (r : Region) : Nat := r.virtEnd - r.virtBase

def Contains (r : Region) (address : Nat) : Prop := r.virtBase ≤ address ∧ address < r.virtEnd

instance (r : Region) (address : Nat) : Decidable (r.Contains address) := instDecidableAnd

end Region

def add64 (a b : Nat) : Nat := (a + b) % 2 ^ 64

/-- `vma64_align_up`; on a power of two, masking is rounding down to a multiple. -/
def alignUp (value alignment : Nat) : Nat :=
  if alignment = 0 then value
  else if alignment &&& (alignment - 1) ≠ 0 then 0
  else add64 value (alignment - 1) / alignment * alignment

/-- `vma64_align_down` for the page size. -/
def alignDown (value : Nat) : Nat := value / pageBytes * pageBytes

def pageCountFromLength (length : Nat) : Nat :=
  if length = 0 ∨ length % pageBytes ≠ 0 ∨ length / pageBytes > 0xFFFFFFFF then 0 else length / pageBytes

/-- `vma64_paging_prot`: the VMA and the paging protection bits have the same values. -/
def pagingProt (prot : UInt32) : UInt32 :=
  (if prot &&& protRead ≠ 0 then protRead else 0) |||
    (if prot &&& protWrite ≠ 0 then protWrite else 0) |||
    (if prot &&& protExecute ≠ 0 then protExecute else 0)

def splitToken (token salt : UInt32) : UInt32 := if token ^^^ salt ≠ invalidToken then token ^^^ salt else salt

def rangeValid (virtBase virtEnd : Nat) : Bool :=
  virtBase < virtEnd && virtBase % pageBytes = 0 && virtEnd % pageBytes = 0

def rangesOverlap (leftBase leftEnd rightBase rightEnd : Nat) : Bool :=
  leftBase < rightEnd && rightBase < leftEnd

/-! ## Protection bits -/

theorem pagingProt_write (prot : UInt32) : pagingProt prot &&& protWrite ≠ 0 ↔ prot &&& protWrite ≠ 0 := by
  unfold pagingProt
  split_ifs with hr hw he he hw he he <;> simp_all <;> decide

/-- The paging layer's own test for an empty protection. -/
theorem pagingProt_bits (prot : UInt32) :
    pagingProt prot &&& (protRead ||| protWrite ||| protExecute) = 0 ↔ pagingProt prot = 0 := by
  unfold pagingProt
  split_ifs <;> decide

end LimitlessOS.Vma
