/-
  LimitlessOS.Lib.UserMemory — byte memory, and structures that go through it as words.

  A memory has a byte at every 64-bit address. A block of bytes is copied in and out; a
  structure is a list of 64-bit words, stored with the low byte first. Addresses wrap, so
  no result here needs a range that stays below the top.

  Proved:
  - `copyFrom_copyTo`: a block is read back as it was written.
  - `copyTo_outside`: a copy changes nothing but its own range.
  - `words_wordBytes`: a list of words is read back from its bytes.
-/
import Mathlib.Data.List.GetD
import Mathlib.Data.UInt
import Mathlib.Tactic.Ring

namespace LimitlessOS.Lib

open List UInt64

/-- A byte at every address. -/
abbrev Memory := UInt64 → UInt8

namespace Memory

variable (m : Memory) (a : UInt64)

def copyTo (bytes : List UInt8) : Memory := fun x => bytes.getD (x - a).toNat (m x)

def copyFrom (count : Nat) : List UInt8 := (List.range count).map fun i => m (a + UInt64.ofNat i)

/-- The address is one of the `count` addresses from `a` on. -/
def InRange (a : UInt64) (count : Nat) (x : UInt64) : Prop := (x - a).toNat < count

instance (a : UInt64) (count : Nat) (x : UInt64) : Decidable (InRange a count x) := inferInstanceAs (Decidable (_ < _))

@[simp] theorem length_copyFrom (count : Nat) : (m.copyFrom a count).length = count := by simp [copyFrom]

theorem offset_toNat {i : Nat} (hi : i < 2 ^ 64) : (a + ofNat i - a).toNat = i := by
  rw [add_sub_cancel_left, toNat_ofNat']
  exact Nat.mod_eq_of_lt hi

theorem inRange_offset {count i : Nat} (hi : i < count) (hcount : count ≤ 2 ^ 64) :
    InRange a count (a + ofNat i) := by
  unfold InRange
  rwa [offset_toNat a (by omega)]

theorem copyTo_outside {bytes : List UInt8} {x : UInt64} (h : ¬ InRange a bytes.length x) : m.copyTo a bytes x = m x := by
  unfold InRange at h
  unfold copyTo
  rw [getD_eq_default]
  omega

theorem copyFrom_copyTo {bytes : List UInt8} (h : bytes.length ≤ 2 ^ 64) :
    (m.copyTo a bytes).copyFrom a bytes.length = bytes := by
  apply ext_getElem
  · simp
  · intro i hi hi'
    simp only [copyFrom, getElem_map, getElem_range, copyTo]
    rw [offset_toNat a (by omega), getD_eq_getElem _ _ hi']

/-- What is read depends on the bytes of the range only. -/
theorem copyFrom_congr {m m' : Memory} {a : UInt64} {count : Nat} (hcount : count ≤ 2 ^ 64)
    (h : ∀ x, InRange a count x → m' x = m x) : m'.copyFrom a count = m.copyFrom a count := by
  apply map_congr_left
  intro i hi
  exact h _ (inRange_offset a (mem_range.1 hi) hcount)

end Memory

/-! ## Words -/

/-- The low `k` bytes of a number, the lowest first. -/
def leBytes : Nat → Nat → List UInt8
  | 0, _ => []
  | k + 1, n => UInt8.ofNat n :: leBytes k (n / 256)

def leValue : List UInt8 → Nat
  | [] => 0
  | b :: bytes => b.toNat + 256 * leValue bytes

@[simp] theorem length_leBytes (k n : Nat) : (leBytes k n).length = k := by
  induction k generalizing n with
  | zero => rfl
  | succ k ih => simp [leBytes, ih]

theorem leValue_leBytes (k n : Nat) : leValue (leBytes k n) = n % 256 ^ k := by
  induction k generalizing n with
  | zero => simp [leBytes, leValue, Nat.mod_one]
  | succ k ih =>
    rw [leBytes, leValue, ih, pow_succ', Nat.mod_mul]
    rfl

def wordBytes (words : List UInt64) : List UInt8 := words.flatMap fun w => leBytes 8 w.toNat

/-- The first `count` words of a block. -/
def words : Nat → List UInt8 → List UInt64
  | 0, _ => []
  | count + 1, bytes => UInt64.ofNat (leValue (bytes.take 8)) :: words count (bytes.drop 8)

theorem length_wordBytes (ws : List UInt64) : (wordBytes ws).length = 8 * ws.length := by
  induction ws with
  | nil => rfl
  | cons w ws ih =>
    simp only [wordBytes, flatMap_cons, length_append, length_leBytes, length_cons] at *
    omega

theorem words_wordBytes (ws : List UInt64) : words ws.length (wordBytes ws) = ws := by
  induction ws with
  | nil => rfl
  | cons w ws ih =>
    have hsplit : wordBytes (w :: ws) = leBytes 8 w.toNat ++ wordBytes ws := rfl
    have hlow : ofNat (leValue (leBytes 8 w.toNat)) = w := by
      have hw : w.toNat % 256 ^ 8 = w.toNat := Nat.mod_eq_of_lt w.toNat_lt
      rw [leValue_leBytes, hw]
      exact UInt64.ofNat_toNat
    rw [length_cons, words, hsplit, take_left' (length_leBytes _ _), drop_left' (length_leBytes _ _), hlow, ih]

/-! ## Pairs of half words -/

/-- Two 32-bit fields in one word. -/
def pair (low high : UInt32) : UInt64 := UInt64.ofNat (low.toNat + 2 ^ 32 * high.toNat)

def lowHalf (w : UInt64) : UInt32 := UInt32.ofNat w.toNat

def highHalf (w : UInt64) : UInt32 := UInt32.ofNat (w.toNat / 2 ^ 32)

theorem pair_toNat (low high : UInt32) : (pair low high).toNat = low.toNat + 2 ^ 32 * high.toNat := by
  have hl := low.toNat_lt
  have hh := high.toNat_lt
  apply Nat.mod_eq_of_lt
  omega

@[simp] theorem lowHalf_pair (low high : UInt32) : lowHalf (pair low high) = low := by
  have hl := low.toNat_lt
  apply UInt32.toNat_inj.1
  rw [lowHalf, pair_toNat, UInt32.toNat_ofNat']
  omega

@[simp] theorem highHalf_pair (low high : UInt32) : highHalf (pair low high) = high := by
  have hl := low.toNat_lt
  have hh := high.toNat_lt
  apply UInt32.toNat_inj.1
  rw [highHalf, pair_toNat, UInt32.toNat_ofNat']
  omega

end LimitlessOS.Lib
