/-
  LimitlessOS.Lib.Blocks — blocks of bytes that are placed one below the other.

  A memory has a byte at every number. Blocks are stored downwards: each new one ends at or
  below the lowest. What was stored stays, for the blocks do not overlap.

  Proved:
  - `holds_store`, `Holds.store`: a store is read back, and keeps what lies apart from it.
  - `store_append`: a block can be stored in parts.
  - `Stacked.push`: the blocks and their bytes after one more.
-/
import Mathlib.Data.List.GetD
import Mathlib.Data.List.Pairwise

namespace LimitlessOS.Lib.Blocks

open List

structure Block where
  address : Nat
  bytes : List UInt8
  deriving DecidableEq, Repr

def Block.stop (b : Block) : Nat := b.address + b.bytes.length

/-- The memory with `bytes` at `a`. -/
def store (m : Nat → UInt8) (a : Nat) (bytes : List UInt8) : Nat → UInt8 :=
  fun x => if a ≤ x then bytes.getD (x - a) (m x) else m x

def Holds (m : Nat → UInt8) (b : Block) : Prop := ∀ i (h : i < b.bytes.length), m (b.address + i) = b.bytes[i]

variable {m : Nat → UInt8} {a x low high : Nat} {bytes : List UInt8} {b : Block} {blocks : List Block}

theorem store_outside (h : x < a ∨ a + bytes.length ≤ x) : store m a bytes x = m x := by
  unfold store
  by_cases hx : a ≤ x
  · rw [if_pos hx, getD_eq_default]
    omega
  · rw [if_neg hx]

theorem store_inside {i : Nat} (h : i < bytes.length) : store m a bytes (a + i) = bytes[i] := by
  unfold store
  rw [if_pos (Nat.le_add_right a i), Nat.add_sub_cancel_left, getD_eq_getElem _ _ h]

theorem holds_store (m : Nat → UInt8) (a : Nat) (bytes : List UInt8) : Holds (store m a bytes) ⟨a, bytes⟩ :=
  fun _ h => store_inside h

theorem Holds.store (h : Holds m b) (hapart : a + bytes.length ≤ b.address ∨ b.stop ≤ a) : Holds (store m a bytes) b := by
  intro i hi
  unfold Block.stop at hapart
  rw [store_outside (by omega)]
  exact h i hi

theorem store_append (m : Nat → UInt8) (a : Nat) (xs ys : List UInt8) :
    store m a (xs ++ ys) = store (store m a xs) (a + xs.length) ys := by
  funext x
  unfold Blocks.store
  by_cases hx : a ≤ x
  · by_cases hy : a + xs.length ≤ x
    · have hdefault : xs.getD (x - a) (m x) = m x := getD_eq_default _ _ (by omega)
      rw [if_pos hx, if_pos hy, if_pos hx, getD_append_right _ _ _ _ (by omega), hdefault, Nat.sub_sub]
    · rw [if_pos hx, if_neg hy, if_pos hx, getD_append _ _ _ _ (by omega)]
  · rw [if_neg hx, if_neg (by omega), if_neg hx]

/-- Blocks in `[low, high)`, each below the next, with their bytes in memory. -/
structure Stacked (m : Nat → UInt8) (low high : Nat) (blocks : List Block) : Prop where
  above : ∀ b ∈ blocks, low ≤ b.address
  below : ∀ b ∈ blocks, b.stop ≤ high
  ordered : blocks.Pairwise fun b c => b.stop ≤ c.address
  holds : ∀ b ∈ blocks, Holds m b

namespace Stacked

theorem nil (m : Nat → UInt8) (low high : Nat) : Stacked m low high [] := by
  constructor <;> simp

section

variable (h : Stacked m low high blocks)
include h

theorem push (hlow : a + bytes.length ≤ low) (hhigh : low ≤ high) :
    Stacked (store m a bytes) a high (⟨a, bytes⟩ :: blocks) := by
  have habove : ∀ b ∈ blocks, a + bytes.length ≤ b.address := fun b hb => Nat.le_trans hlow (h.above b hb)
  refine ⟨?_, ?_, ?_, ?_⟩
  · intro b hb
    rcases mem_cons.1 hb with rfl | hb
    · exact Nat.le_refl _
    · have := habove b hb
      omega
  · intro b hb
    rcases mem_cons.1 hb with rfl | hb
    · exact Nat.le_trans hlow hhigh
    · exact h.below b hb
  · exact pairwise_cons.2 ⟨habove, h.ordered⟩
  · intro b hb
    rcases mem_cons.1 hb with rfl | hb
    · exact holds_store m a bytes
    · exact (h.holds b hb).store (.inl (habove b hb))

theorem sublist {part : List Block} (hs : part.Sublist blocks) : Stacked m low high part :=
  ⟨fun b hb => h.above b (hs.subset hb), fun b hb => h.below b (hs.subset hb), h.ordered.sublist hs,
    fun b hb => h.holds b (hs.subset hb)⟩

/-- Blocks that are not empty have different addresses. -/
theorem addresses_nodup (hne : ∀ b ∈ blocks, b.bytes ≠ []) :
    (blocks.map Block.address).Nodup := by
  rw [nodup_iff_pairwise_ne, pairwise_map]
  refine h.ordered.imp_of_mem ?_
  intro b c hb _ hbc heq
  have hpos := length_pos_iff.2 (hne b hb)
  unfold Block.stop at hbc
  omega

end

end Stacked

end LimitlessOS.Lib.Blocks
