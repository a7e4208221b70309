/-
  LimitlessOS.Pipe.Handles — the fields of a pipe handle.

  Proved:
  - `makeHandle_toNat`: a handle as a number.
  - `handleIndex_makeHandle`, `handleGeneration_makeHandle`, `handleKind_makeHandle`,
    `isPipeHandle_makeHandle`: what is read back from it. Of the generation these are the low
    twelve bits.
-/
import LimitlessOS.Pipe.Objects

namespace LimitlessOS.Pipe

open Nat

theorem and_shiftLeft (x b n : Nat) : x &&& b <<< n = (x >>> n &&& b) <<< n := by
  apply eq_of_testBit_eq
  intro j
  by_cases hj : n ≤ j
  · simp [hj]
  · simp [hj]

theorem code_lt (k : Kind) : k.code.toNat < 2 := by cases k <;> decide

theorem generationBits_toNat (generation : UInt32) :
    (generation <<< 8 &&& 0x000FFF00 : UInt32).toNat = 2 ^ 8 * (generation.toNat % 4096) := by
  have hshift : (generation <<< 8).toNat = (generation.toNat % 2 ^ 24) <<< 8 := by
    rw [UInt32.toNat_shiftLeft, shiftLeft_eq, shiftLeft_eq]
    show generation.toNat * 2 ^ 8 % 2 ^ 32 = generation.toNat % 2 ^ 24 * 2 ^ 8
    omega
  rw [UInt32.toNat_and, hshift, show (0x000FFF00 : UInt32).toNat = (2 ^ 12 - 1) <<< 8 from rfl, ← shiftLeft_and_distrib,
    and_two_pow_sub_one_eq_mod, shiftLeft_eq]
  omega

theorem indexBits_toNat (index : Fin maxObjects) : (UInt32.ofNat index.val <<< 1 &&& 0xFE : UInt32).toNat = 2 * index.val := by
  revert index
  decide

section

variable (index : Fin maxObjects) {generation : UInt32} (hg : generation ≠ 0) (kind : Kind)

include hg

/-- The fields of a handle do not overlap. -/
theorem makeHandle_toNat :
    (makeHandle index generation kind).toNat =
      2 ^ 24 * 15 + (2 ^ 8 * (generation.toNat % 4096) + (2 * index.val + kind.code.toNat)) := by
  have hindex : index.val < 16 := index.isLt
  have hkind := code_lt kind
  have hlow : 2 * index.val ||| kind.code.toNat = 2 * index.val + kind.code.toNat :=
    (two_pow_add_eq_or_of_lt (i := 1) hkind index.val).symm
  have hmid : 2 ^ 8 * (generation.toNat % 4096) ||| (2 * index.val + kind.code.toNat) =
      2 ^ 8 * (generation.toNat % 4096) + (2 * index.val + kind.code.toNat) :=
    (two_pow_add_eq_or_of_lt (by omega) _).symm
  have hhigh := two_pow_add_eq_or_of_lt
    (show 2 ^ 8 * (generation.toNat % 4096) + (2 * index.val + kind.code.toNat) < 2 ^ 24 by omega) 15
  unfold makeHandle
  rw [if_neg hg, hhigh, ← hmid, ← hlow]
  simp only [UInt32.toNat_or, generationBits_toNat, indexBits_toNat]
  rw [Nat.or_assoc, Nat.or_assoc]
  rfl

theorem handleIndex_makeHandle :
    (handleIndex (makeHandle index generation kind)).toNat = index.val := by
  have hindex : index.val < 16 := index.isLt
  have hkind := code_lt kind
  unfold handleIndex
  rw [UInt32.toNat_shiftRight, UInt32.toNat_and, makeHandle_toNat index hg kind]
  show (_ &&& 0xFE) >>> 1 = _
  rw [shiftRight_and_distrib, show 0xFE >>> 1 = 2 ^ 7 - 1 from rfl, and_two_pow_sub_one_eq_mod, shiftRight_eq_div_pow]
  omega

theorem handleGeneration_makeHandle :
    (handleGeneration (makeHandle index generation kind)).toNat = generation.toNat % 4096 := by
  have hindex : index.val < 16 := index.isLt
  have hkind := code_lt kind
  unfold handleGeneration
  rw [UInt32.toNat_shiftRight, UInt32.toNat_and, makeHandle_toNat index hg kind]
  show (_ &&& 0xFFF00) >>> 8 = _
  rw [shiftRight_and_distrib, show 0xFFF00 >>> 8 = 2 ^ 12 - 1 from rfl, and_two_pow_sub_one_eq_mod, shiftRight_eq_div_pow]
  omega

theorem handleKind_makeHandle :
    handleKind (makeHandle index generation kind) = kind := by
  have hbit : (makeHandle index generation kind &&& 1).toNat = kind.code.toNat := by
    rw [UInt32.toNat_and, makeHandle_toNat index hg kind]
    show _ &&& (2 ^ 1 - 1) = _
    rw [and_two_pow_sub_one_eq_mod]
    have hkind := code_lt kind
    omega
  have hbit' : makeHandle index generation kind &&& 1 = kind.code := UInt32.toNat_inj.1 hbit
  rw [handleKind, hbit']
  cases kind <;> rfl

theorem isPipeHandle_makeHandle :
    isPipeHandle (makeHandle index generation kind) := by
  have hindex : index.val < 16 := index.isLt
  have hkind := code_lt kind
  have hbits : (makeHandle index generation kind &&& 0xFF000000).toNat = 0x0F000000 := by
    rw [UInt32.toNat_and, makeHandle_toNat index hg kind, show (0xFF000000 : UInt32).toNat = (2 ^ 8 - 1) <<< 24 from rfl,
      and_shiftLeft, and_two_pow_sub_one_eq_mod, shiftRight_eq_div_pow, shiftLeft_eq]
    omega
  exact decide_eq_true (UInt32.toNat_inj.1 hbits)

end

end LimitlessOS.Pipe
