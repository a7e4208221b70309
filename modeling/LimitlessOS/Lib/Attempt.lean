/-
  LimitlessOS.Lib.Attempt — steps that are taken one after the other until one fails.

  A step changes the state and says whether it has succeeded; a failed step may have changed
  the state as well. `attempt` takes the steps in order and stops at the first that fails.

  Proved:
  - `attempt_invariant`: what every step keeps is kept, wherever the attempt stops.
  - `attempt_append`: the second half starts where the first has succeeded.
-/
import Mathlib.Tactic.SplitIfs

namespace LimitlessOS.Lib

variable {σ : Type}

def attempt : List (σ → Bool × σ) → σ → Bool × σ
  | [], s => (true, s)
  | f :: fs, s =>
    match f s with
    | (true, s) => attempt fs s
    | (false, s) => (false, s)

theorem attempt_cons (f : σ → Bool × σ) (fs : List (σ → Bool × σ)) (s : σ) :
    attempt (f :: fs) s = if (f s).1 then attempt fs (f s).2 else (false, (f s).2) := by
  rw [attempt]
  rcases f s with ⟨b, s'⟩
  cases b <;> rfl

theorem attempt_invariant {P : σ → Prop} {fs : List (σ → Bool × σ)} (h : ∀ f ∈ fs, ∀ s, P s → P (f s).2) {s : σ}
    (hs : P s) : P (attempt fs s).2 := by
  induction fs generalizing s with
  | nil => exact hs
  | cons f fs ih =>
    have hf := h f List.mem_cons_self s hs
    rw [attempt_cons]
    split_ifs
    · exact ih (fun g hg => h g (List.mem_cons_of_mem f hg)) hf
    · exact hf

theorem attempt_append (fs gs : List (σ → Bool × σ)) (s : σ) :
    attempt (fs ++ gs) s = if (attempt fs s).1 then attempt gs (attempt fs s).2 else attempt fs s := by
  induction fs generalizing s with
  | nil => rfl
  | cons f fs ih =>
    rw [List.cons_append, attempt_cons, attempt_cons, ih]
    by_cases hf : (f s).1
    · simp only [if_pos hf]
    · simp only [if_neg hf, Bool.false_eq_true, if_false]

end LimitlessOS.Lib
