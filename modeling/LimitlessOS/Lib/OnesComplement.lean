/-
  LimitlessOS.Lib.OnesComplement — sums in 16-bit one's-complement arithmetic.

  A carry out of the 16 bits is added at the bottom. Bytes are summed as big-endian words, an
  odd one with a zero byte behind it.

  Proved:
  - `foldl_beWords`: the sum is that of the integers, reduced to 1..0xFFFF; only 0 gives 0.
  - `reduced_complement`: with its complement, a sum is 0xFFFF.
-/
import Mathlib.Algebra.Ring.Nat
import Mathlib.Data.List.Basic

namespace LimitlessOS.Lib

open List

def onesAdd (a b : Nat) : Nat := if a + b < 0x10000 then a + b else a + b - 0xFFFF

def beWords : List UInt8 → List Nat
  | [] => []
  | [a] => [a.toNat * 256]
  | a :: b :: rest => (a.toNat * 256 + b.toNat) :: beWords rest

def onesSum (bytes : List UInt8) : Nat := (beWords bytes).foldl onesAdd 0

/-- The number modulo 0xFFFF, with 0 for 0 only. -/
def reduced (n : Nat) : Nat := if n = 0 then 0 else (n - 1) % 0xFFFF + 1

theorem reduced_le (n : Nat) : reduced n ≤ 0xFFFF := by
  unfold reduced
  split_ifs <;> omega

theorem reduced_complement (n : Nat) : reduced (n + (0xFFFF - reduced n)) = 0xFFFF := by
  unfold reduced
  split_ifs <;> omega

theorem beWords_append {a : List UInt8} (h : a.length % 2 = 0) (b : List UInt8) : beWords (a ++ b) = beWords a ++ beWords b := by
  fun_induction beWords a with
  | case1 => rfl
  | case2 => cases h
  | case3 x y rest ih => rw [cons_append, cons_append, beWords, ih (by simpa [Nat.add_assoc] using h), cons_append]

/-- Any addition that is right for words. -/
theorem foldl_beWords {add : Nat → Nat → Nat} (hadd : ∀ a b, a ≤ 0xFFFF → b ≤ 0xFFFF → add a b = onesAdd a b) (bytes : List UInt8)
    (n : Nat) : (beWords bytes).foldl add (reduced n) = reduced (n + (beWords bytes).sum) := by
  have hone : ∀ n w, w ≤ 0xFFFF → add (reduced n) w = reduced (n + w) := by
    intro n w hw
    rw [hadd _ w (reduced_le n) hw]
    unfold onesAdd reduced
    split_ifs <;> omega
  fun_induction beWords bytes generalizing n with
  | case1 => rfl
  | case2 a =>
    have ha := a.toNat_lt
    rw [foldl_cons, hone n _ (by omega), foldl_nil, sum_singleton]
  | case3 a b rest ih =>
    have ha := a.toNat_lt
    have hb := b.toNat_lt
    rw [foldl_cons, hone n _ (by omega), ih, sum_cons, Nat.add_assoc]

end LimitlessOS.Lib
