/-
  LimitlessOS.Lib.Run — runs of a state machine whose steps meet a condition.

  A run is a fold of the step function over a list of calls. `Meets` says that every call
  is made in a state that meets a condition; an invariant that is kept by the calls that
  meet the condition then holds at the end of such a run. `Trace` is a run of a step
  relation, with its events. `Throughout` says of every event of a history what it is, given
  the events before it.

  Proved:
  - `Meets.invariant`, `Meets.iff_invariant`: the invariant rule, and when the condition is
    exact; `Meets.congr`: two conditions that agree where it holds.
  - `Meets.append`, `Trace.append`: a run in two parts.
  - `Trace.invariant`, `Trace.invariant_of_mem`: the invariant rule for traces.
  - `eventsOf_invariant`: the rule for an invariant between the events so far and the state.
  - `Trace.throughout`, `Throughout.of_steps`: the rule for histories, from such an
    invariant.
-/
import Mathlib.Data.List.Basic

namespace LimitlessOS.Lib

open List

variable {σ ο : Type} {step : σ → ο → σ} {condition : σ → ο → Prop}

/-- Every call of the run is made in a state that meets the condition. -/
def Meets (step : σ → ο → σ) (condition : σ → ο → Prop) : σ → List ο → Prop
  | _, [] => True
  | s, op :: ops => condition s op ∧ Meets step condition (step s op) ops

namespace Meets

instance decidable [∀ s op, Decidable (condition s op)] (s : σ) (ops : List ο) :
    Decidable (Meets step condition s ops) :=
  match ops with
  | [] => isTrue trivial
  | op :: ops =>
    have := decidable (step s op) ops
    inferInstanceAs (Decidable (_ ∧ _))

variable {s : σ} {i : σ → Prop} {ops : List ο}

theorem append {a b : List ο} :
    Meets step condition s (a ++ b) ↔ Meets step condition s a ∧ Meets step condition (a.foldl step s) b := by
  induction a generalizing s with
  | nil => simp [Meets]
  | cons op a ih => simp only [cons_append, Meets, ih, foldl_cons, and_assoc]

theorem imp {weaker : σ → ο → Prop} (hw : ∀ s op, condition s op → weaker s op) (h : Meets step condition s ops) :
    Meets step weaker s ops := by
  induction ops generalizing s with
  | nil => trivial
  | cons op ops ih => exact ⟨hw s op h.1, ih h.2⟩

theorem invariant (hstep : ∀ s op, i s → condition s op → i (step s op)) (h : Meets step condition s ops) (hs : i s) :
    i (ops.foldl step s) := by
  induction ops generalizing s with
  | nil => exact hs
  | cons op ops ih => exact ih h.2 (hstep s op hs h.1)

/-- Two conditions that agree where the invariant holds; `i` is kept by the calls that meet them. -/
theorem congr {other : σ → ο → Prop} (hstep : ∀ s op, i s → condition s op → i (step s op))
    (h : ∀ s op, i s → (condition s op ↔ other s op)) (hs : i s) (ops : List ο) :
    Meets step condition s ops ↔ Meets step other s ops := by
  induction ops generalizing s with
  | nil => exact Iff.rfl
  | cons op ops ih =>
    rw [Meets, Meets, ← h s op hs]
    exact and_congr_right fun hmet => ih (hstep s op hs hmet)

/-- If exactly the calls that meet the condition keep the property, it holds all along a run exactly when its calls meet the
condition; `j` is what every call keeps. -/
theorem iff_invariant {j : σ → Prop} (hj : ∀ s op, j s → j (step s op))
    (hi : ∀ s op, j s → i s → (i (step s op) ↔ condition s op)) (hjs : j s) (his : i s) (ops : List ο) :
    (∀ before, before <+: ops → i (before.foldl step s)) ↔ Meets step condition s ops := by
  induction ops generalizing s with
  | nil => simp [Meets, his]
  | cons op ops ih =>
    constructor
    · intro h
      have hnext : i (step s op) := h [op] ⟨ops, rfl⟩
      refine ⟨(hi s op hjs his).1 hnext, (ih (hj s op hjs) hnext).1 ?_⟩
      intro before hbefore
      exact h (op :: before) ((prefix_cons_inj op).2 hbefore)
    · intro h before hbefore
      have hnext : i (step s op) := (hi s op hjs his).2 h.1
      cases before with
      | nil => exact his
      | cons op' before =>
        obtain ⟨rfl, htail⟩ := cons_prefix_cons.1 hbefore
        exact (ih (hj s op' hjs) hnext).2 h.2 before htail

end Meets

variable {ε : Type} {next : σ → ε → σ → Prop}

/-- The events lead from the first state to the second. -/
def Trace (next : σ → ε → σ → Prop) : σ → List ε → σ → Prop
  | s, [], s' => s' = s
  | s, e :: es, s' => ∃ s₁, next s e s₁ ∧ Trace next s₁ es s'

namespace Trace

variable {s s' : σ} {i : σ → Prop} {es : List ε}

theorem append {a b : List ε} : Trace next s (a ++ b) s' ↔ ∃ s1, Trace next s a s1 ∧ Trace next s1 b s' := by
  induction a generalizing s with
  | nil => simp [Trace]
  | cons e a ih =>
    simp only [cons_append, Trace, ih]
    constructor
    · rintro ⟨s1, hn, s2, ha, hb⟩
      exact ⟨s2, ⟨s1, hn, ha⟩, hb⟩
    · rintro ⟨s2, ⟨s1, hn, ha⟩, hb⟩
      exact ⟨s1, hn, s2, ha, hb⟩

theorem one {e : ε} : Trace next s [e] s' ↔ next s e s' := by simp [Trace]

theorem invariant_of_mem (hnext : ∀ s e s', e ∈ es → i s → next s e s' → i s') (h : Trace next s es s') (hs : i s) : i s' := by
  induction es generalizing s with
  | nil => exact h ▸ hs
  | cons e es ih =>
    obtain ⟨s1, hn, ht⟩ := h
    exact ih (fun s e s' he => hnext s e s' (mem_cons_of_mem _ he)) ht (hnext s e s1 (mem_cons_self ..) hs hn)

theorem invariant (hnext : ∀ s e s', i s → next s e s' → i s') (h : Trace next s es s') (hs : i s) : i s' :=
  invariant_of_mem (fun s e s' _ => hnext s e s') h hs

end Trace

/-- Every event has the property, after the events before it. -/
def Throughout (p : List ε → ε → Prop) (past es : List ε) : Prop :=
  ∀ before e after, es = before ++ e :: after → p (past ++ before) e

namespace Throughout

variable {p : List ε → ε → Prop}

theorem nil (past : List ε) : Throughout p past [] := by
  intro before e after h
  simp at h

theorem cons {past : List ε} {e : ε} {es : List ε} (he : p past e) (hes : Throughout p (past ++ [e]) es) :
    Throughout p past (e :: es) := by
  intro before e' after h
  cases before with
  | nil =>
    obtain ⟨rfl, -⟩ := cons.inj h
    simpa using he
  | cons b before =>
    obtain ⟨hb, htail⟩ := cons.inj h
    subst hb
    simpa using hes before e' after htail

theorem append {past a b : List ε} (ha : Throughout p past a) (hb : Throughout p (past ++ a) b) : Throughout p past (a ++ b) := by
  induction a generalizing past with
  | nil => simpa using hb
  | cons e a ih =>
    refine .cons (by simpa using ha [] e a rfl) (ih ?_ (by simpa using hb))
    intro before e' after h
    simpa using ha (e :: before) e' after (by rw [h, cons_append])

end Throughout

variable {s : σ} {past : List ε} {i : List ε → σ → Prop} {events : σ → ο → List ε} {p : List ε → ε → Prop}

theorem Trace.throughout (hnext : ∀ past s e s', i past s → next s e s' → p past e ∧ i (past ++ [e]) s') {s' : σ} {es : List ε}
    (h : Trace next s es s') (hs : i past s) : Throughout p past es ∧ i (past ++ es) s' := by
  induction es generalizing s past with
  | nil => exact ⟨.nil past, by simpa using h ▸ hs⟩
  | cons e es ih =>
    obtain ⟨s1, hn, ht⟩ := h
    obtain ⟨he, hs1⟩ := hnext past s e s1 hs hn
    obtain ⟨hrest, hend⟩ := ih ht hs1
    exact ⟨.cons he hrest, by simpa using hend⟩

/-- The events of a run. -/
def eventsOf (events : σ → ο → List ε) (step : σ → ο → σ) : σ → List ο → List ε
  | _, [] => []
  | s, op :: ops => events s op ++ eventsOf events step (step s op) ops

theorem eventsOf_append (events : σ → ο → List ε) (step : σ → ο → σ) (s : σ) (a b : List ο) :
    eventsOf events step s (a ++ b) = eventsOf events step s a ++ eventsOf events step (a.foldl step s) b := by
  induction a generalizing s with
  | nil => rfl
  | cons op a ih => simp only [cons_append, eventsOf, ih, foldl_cons, append_assoc]

/-- An invariant between the events so far and the state. -/
theorem eventsOf_invariant (hstep : ∀ past s op, i past s → i (past ++ events s op) (step s op)) (hs : i past s) (ops : List ο) :
    i (past ++ eventsOf events step s ops) (ops.foldl step s) := by
  induction ops generalizing s past with
  | nil => simpa [eventsOf] using hs
  | cons op ops ih => simpa [eventsOf] using ih (hstep past s op hs)

theorem Throughout.of_steps
    (hstep : ∀ past s op, i past s → Throughout p past (events s op) ∧ i (past ++ events s op) (step s op)) (hs : i past s)
    (ops : List ο) :
    Throughout p past (eventsOf events step s ops) ∧ i (past ++ eventsOf events step s ops) (ops.foldl step s) := by
  induction ops generalizing s past with
  | nil => exact ⟨.nil past, by simpa [eventsOf] using hs⟩
  | cons op ops ih =>
    obtain ⟨hfirst, hs1⟩ := hstep past s op hs
    obtain ⟨hrest, hend⟩ := ih hs1
    exact ⟨.append hfirst hrest, by simpa [eventsOf] using hend⟩

end LimitlessOS.Lib
