/-
  LimitlessOS.Lib.Ring — ring buffers.

  A ring has a fixed number of slots, the indices at which it is read and written, and a
  count. `Sound` says that the count fits and that the two indices lie so far apart; a sound
  ring holds the list `contents`.

  Proved:
  - `Sound.push`, `Sound.pop`: the operations keep a ring sound.
  - `contents_push`, `contents_pop`: they are those of a queue.
  - `contents_pushAll`, `contents_popMany`: so are their repetitions.
-/
import Mathlib.Data.List.Basic
import Mathlib.Data.Nat.ModEq
import Mathlib.Logic.Function.Basic

namespace LimitlessOS.Lib

open List Nat

structure Ring (n : Nat) (α : Type) where
  slots : Fin n → α
  readIndex : Fin n
  writeIndex : Fin n
  count : Nat

namespace Ring

variable {n : Nat} {α : Type} {r : Ring n α}

/-- The index `k` slots after an index, round the end. -/
def turn (i : Fin n) (k : Nat) : Fin n := ⟨(i.val + k) % n, Nat.mod_lt _ (Nat.lt_of_le_of_lt (Nat.zero_le _) i.isLt)⟩

def push (r : Ring n α) (x : α) : Ring n α :=
  { r with slots := Function.update r.slots r.writeIndex x, writeIndex := turn r.writeIndex 1, count := r.count + 1 }

def pop (r : Ring n α) : α × Ring n α :=
  (r.slots r.readIndex, { r with readIndex := turn r.readIndex 1, count := r.count - 1 })

structure Sound (r : Ring n α) : Prop where
  fits : r.count ≤ n
  apart : r.writeIndex = turn r.readIndex r.count

/-- What the ring holds, in the order in which it was written. -/
def contents (r : Ring n α) : List α := (List.range r.count).map fun k => r.slots (turn r.readIndex k)

@[simp] theorem contents_length (r : Ring n α) : r.contents.length = r.count := by simp [contents]

theorem turn_turn (i : Fin n) (k l : Nat) : turn (turn i k) l = turn i (k + l) := by
  apply Fin.ext
  show ((i.val + k) % n + l) % n = (i.val + (k + l)) % n
  rw [mod_add_mod, add_assoc]

theorem turn_zero (i : Fin n) : turn i 0 = i := by
  apply Fin.ext
  show (i.val + 0) % n = i.val
  rw [add_zero, mod_eq_of_lt i.isLt]

/-- Two different distances below the size lead to different slots. -/
theorem turn_ne (i : Fin n) {k l : Nat} (hk : k < l) (hl : l < n) : turn i k ≠ turn i l := by
  intro heq
  have hval : (i.val + k) % n = (i.val + l) % n := congrArg Fin.val heq
  have hmod : ModEq n k l := ModEq.add_left_cancel' i.val hval
  have : k = l := ModEq.eq_of_lt_of_lt hmod (by omega) hl
  omega

theorem Sound.push (h : r.Sound) (hroom : r.count < n) (x : α) : (r.push x).Sound := by
  refine ⟨hroom, ?_⟩
  show turn r.writeIndex 1 = turn r.readIndex (r.count + 1)
  rw [h.apart, turn_turn]

theorem contents_push (h : r.Sound) (hroom : r.count < n) (x : α) : (r.push x).contents = r.contents ++ [x] := by
  have hlast : (r.push x).slots (turn r.readIndex r.count) = x := by
    rw [← h.apart]
    exact Function.update_self ..
  have hothers : ∀ k ∈ range r.count, (r.push x).slots (turn r.readIndex k) = r.slots (turn r.readIndex k) := by
    intro k hk
    apply Function.update_of_ne
    rw [h.apart]
    exact turn_ne r.readIndex (mem_range.1 hk) hroom
  show (range (r.count + 1)).map (fun k => (r.push x).slots (turn r.readIndex k)) = _
  rw [range_succ, map_append, map_congr_left hothers, map_singleton, hlast]
  rfl

theorem Sound.pop (h : r.Sound) (hcount : 0 < r.count) : r.pop.2.Sound := by
  have hfits := h.fits
  refine ⟨?_, ?_⟩
  · show r.count - 1 ≤ n
    omega
  · show r.writeIndex = turn (turn r.readIndex 1) (r.count - 1)
    rw [turn_turn, h.apart]
    congr 1
    omega

theorem contents_pop (hcount : 0 < r.count) : r.contents = r.pop.1 :: r.pop.2.contents := by
  obtain ⟨m, hm⟩ : ∃ m, r.count = m + 1 := ⟨r.count - 1, by omega⟩
  have hrest : r.pop.2.contents = (range m).map fun k => r.slots (turn r.readIndex (k + 1)) := by
    show (range (r.count - 1)).map (fun k => r.slots (turn (turn r.readIndex 1) k)) = _
    rw [hm]
    apply map_congr_left
    intro k _
    rw [turn_turn, add_comm]
  rw [hrest, contents, hm, range_succ_eq_map, map_cons, map_map, turn_zero]
  rfl

/-! ## Repetitions -/

def pushAll (r : Ring n α) (xs : List α) : Ring n α := xs.foldl push r

theorem pushAll_count (r : Ring n α) (xs : List α) : (r.pushAll xs).count = r.count + xs.length := by
  induction xs generalizing r with
  | nil => rfl
  | cons x xs ih =>
    show ((r.push x).pushAll xs).count = _
    rw [ih, length_cons]
    show r.count + 1 + xs.length = _
    omega

theorem contents_pushAll (h : r.Sound) {xs : List α} (hroom : r.count + xs.length ≤ n) :
    (r.pushAll xs).Sound ∧ (r.pushAll xs).contents = r.contents ++ xs := by
  induction xs generalizing r with
  | nil => exact ⟨h, (append_nil _).symm⟩
  | cons x xs ih =>
    rw [length_cons] at hroom
    have hone : r.count < n := by omega
    have hmore : (r.push x).count + xs.length ≤ n := by
      show r.count + 1 + xs.length ≤ n
      omega
    obtain ⟨hsound, hcontents⟩ := ih (h.push hone x) hmore
    refine ⟨hsound, ?_⟩
    show ((r.push x).pushAll xs).contents = _
    rw [hcontents, contents_push h hone, append_assoc, singleton_append]

/-- Take up to `k` elements out. -/
def popMany : Nat → Ring n α → List α × Ring n α
  | 0, r => ([], r)
  | k + 1, r => (r.pop.1 :: (popMany k r.pop.2).1, (popMany k r.pop.2).2)

@[simp] theorem popMany_length (k : Nat) (r : Ring n α) : (popMany k r).1.length = k := by
  induction k generalizing r with
  | zero => rfl
  | succ k ih =>
    show (popMany k r.pop.2).1.length + 1 = k + 1
    rw [ih]

theorem popMany_count (k : Nat) (r : Ring n α) : (popMany k r).2.count = r.count - k := by
  induction k generalizing r with
  | zero => rfl
  | succ k ih =>
    show (popMany k r.pop.2).2.count = _
    rw [ih]
    show r.count - 1 - k = _
    omega

theorem contents_popMany (h : r.Sound) {k : Nat} (hk : k ≤ r.count) :
    (popMany k r).2.Sound ∧ r.contents = (popMany k r).1 ++ (popMany k r).2.contents := by
  induction k generalizing r with
  | zero => exact ⟨h, rfl⟩
  | succ k ih =>
    have hcount : 0 < r.count := by omega
    have hmore : k ≤ r.pop.2.count := by
      show k ≤ r.count - 1
      omega
    obtain ⟨hsound, hcontents⟩ := ih (h.pop hcount) hmore
    refine ⟨hsound, ?_⟩
    rw [contents_pop hcount, hcontents]
    rfl

end Ring

end LimitlessOS.Lib
