/-
  LimitlessOS.Lib.ParentTree — trees given by parent pointers.

  A forest is a partial function from a node to its parent. `Under a b` says that `b` is
  `a` or one of the nodes above it; a tree is a set of nodes all of which are under one
  root.

  Proved:
  - `Under.climb_lt`: among finitely many nodes the way up is shorter than their number.
  - `Under.antisymm`: below a root no two nodes are under each other.
  - `Under.reparent`: moving a node to a parent that is not under it keeps every way to the root.
-/
import Mathlib.Logic.Relation
import Mathlib.Data.Fintype.Card

namespace LimitlessOS.Lib

open Finset Option

variable {α : Type} {parent parent' : α → Option α} {a b c x y root : α}

/-- So many steps up. -/
def climb (parent : α → Option α) : Nat → α → Option α
  | 0, a => some a
  | k + 1, a => (parent a).bind (climb parent k)

/-- `b` is `a` or above it. -/
def Under (parent : α → Option α) : α → α → Prop := Relation.ReflTransGen fun a b => parent a = some b

theorem climb_add (j k : Nat) (a : α) : climb parent (j + k) a = (climb parent j a).bind (climb parent k) := by
  induction j generalizing a with
  | zero => simp [climb]
  | succ j ih =>
    rw [Nat.succ_add, climb, climb, bind_assoc]
    exact congrArg _ (funext ih)

theorem under_iff_climb : Under parent a b ↔ ∃ k, climb parent k a = some b := by
  constructor
  · intro h
    induction h using Relation.ReflTransGen.head_induction_on with
    | refl => exact ⟨0, rfl⟩
    | head hstep _ ih =>
      obtain ⟨k, hk⟩ := ih
      exact ⟨k + 1, by simp [climb, hstep, hk]⟩
  · rintro ⟨k, hk⟩
    induction k generalizing a with
    | zero =>
      obtain rfl : a = b := some.inj hk
      exact .refl
    | succ k ih =>
      obtain ⟨c, hc, hk⟩ := bind_eq_some_iff.1 hk
      exact .head hc (ih hk)

namespace Under

theorem refl (a : α) : Under parent a a := Relation.ReflTransGen.refl

theorem trans (hab : Under parent a b) (hbc : Under parent b c) : Under parent a c := Relation.ReflTransGen.trans hab hbc

/-- The first step up, unless there is none to make. -/
theorem cases_head (h : Under parent a b) : a = b ∨ ∃ c, parent a = some c ∧ Under parent c b :=
  Relation.ReflTransGen.cases_head h

/-- A shortest way up meets no node twice. -/
theorem climb_lt [Fintype α] (h : Under parent a b) : ∃ k < Fintype.card α, climb parent k a = some b := by
  classical
  have hex := under_iff_climb.1 h
  let k := Nat.find hex
  have hk : climb parent k a = some b := Nat.find_spec hex
  have hmin : ∀ m < k, climb parent m a ≠ some b := fun m hm => Nat.find_min hex hm
  refine ⟨k, ?_, hk⟩
  have hpart : ∀ j ≤ k, ∃ c, climb parent j a = some c ∧ climb parent (k - j) c = some b := by
    intro j hj
    rw [← Nat.add_sub_cancel' hj, climb_add] at hk
    exact bind_eq_some_iff.1 hk
  have : Nonempty α := ⟨a⟩
  choose! node hnode hrest using hpart
  have hinj : Set.InjOn node (range (k + 1) : Set Nat) := by
    intro i hi j hj hij
    simp only [coe_range, Set.mem_Iio, Nat.lt_succ_iff] at hi hj
    -- two visits of one node would leave out what lies between them
    have hshort : ∀ i j, i ≤ k → j ≤ k → node i = node j → ¬ i < j := by
      intro i j hi hj hij hlt
      refine hmin (i + (k - j)) (by omega) ?_
      rw [climb_add, hnode i hi, hij]
      exact hrest j hj
    have h1 := hshort i j hi hj hij
    have h2 := hshort j i hj hi hij.symm
    omega
  have hcard := card_le_univ ((range (k + 1)).image node)
  rw [card_image_of_injOn hinj, card_range] at hcard
  omega

theorem climb_ne_self (h : Under parent a root) (hroot : parent root = none) (k : Nat) :
    climb parent (k + 1) a ≠ some a := by
  induction h using Relation.ReflTransGen.head_induction_on with
  | refl => simp [climb, hroot]
  | @head a c hstep _ ih =>
    intro hloop
    have hback : climb parent k c = some a := by simpa [climb, hstep] using hloop
    apply ih
    rw [climb_add, hback]
    simp [climb, hstep]

theorem antisymm (h : Under parent a root) (hroot : parent root = none) (hab : Under parent a b) (hba : Under parent b a) :
    a = b := by
  obtain ⟨j, hj⟩ := under_iff_climb.1 hab
  obtain ⟨k, hk⟩ := under_iff_climb.1 hba
  have hloop : climb parent (j + k) a = some a := by rw [climb_add, hj]; exact hk
  cases j with
  | zero => exact some.inj hj
  | succ j =>
    rw [show j + 1 + k = j + k + 1 by omega] at hloop
    exact absurd hloop (h.climb_ne_self hroot _)

/-- The way up is the same where no parent on it has changed. -/
theorem congr (h : Under parent a b) (hsame : ∀ c d, Under parent a c → parent c = some d → parent' c = some d) :
    Under parent' a b := by
  induction h using Relation.ReflTransGen.head_induction_on with
  | refl => exact .refl _
  | @head a c hstep _ ih =>
    exact .head (hsame a c (.refl a) hstep) (ih fun d e hd he => hsame d e (.head hstep hd) he)

/-- Node `x` moves to the parent `y`, which is not under it. -/
theorem reparent (h : Under parent a root) (hy : Under parent y root) (hxy : ¬ Under parent y x)
    (hx : parent' x = some y) (hsame : ∀ c d, c ≠ x → parent c = some d → parent' c = some d) : Under parent' a root := by
  have hy' : Under parent' y root := hy.congr fun c d hc hd => hsame c d (fun heq => hxy (heq ▸ hc)) hd
  induction h using Relation.ReflTransGen.head_induction_on with
  | refl => exact .refl _
  | @head a c hstep _ ih =>
    by_cases hax : a = x
    · exact .head (hax ▸ hx) hy'
    · exact .head (hsame a c hax hstep) ih

end Under

end LimitlessOS.Lib
