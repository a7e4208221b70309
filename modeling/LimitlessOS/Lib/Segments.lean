/-
  LimitlessOS.Lib.Segments — paths as stacks of segments.

  A path is cut at its separators; the segments are entered into a stack one after the other.
  Empty segments and the segment `here` are skipped, `up` takes the last one away. A stack is
  written as a path with a separator before each segment.

  Proved:
  - `resolve_clean`: the segments of a resolved path are names.
  - `resolve_render`: a stack of names that is written as a path is read back.
  - `resolve_append`, `resolve_render_append`: a path can be resolved in two steps.
  - `foldlM_enterWithin`, `foldlM_enterWithin_clean`: the same with a bound on the length of what is written.
-/
import Mathlib.Data.List.Basic

namespace LimitlessOS.Lib.Segments

open List

variable {α : Type} [DecidableEq α] (sep : α) (here up : List α)

/-- The stack after a segment. -/
def enter (stack : List (List α)) (seg : List α) : List (List α) :=
  if seg = [] ∨ seg = here then stack else if seg = up then stack.dropLast else stack ++ [seg]

/-- The stack of a path. -/
def resolve (path : List α) : List (List α) := (path.splitOn sep).foldl (enter here up) []

/-- A stack as a path. -/
def render (stack : List (List α)) : List α := if stack = [] then [sep] else stack.flatMap (sep :: ·)

/-- The segment names something. -/
structure Name (seg : List α) : Prop where
  ne_nil : seg ≠ []
  ne_here : seg ≠ here
  ne_up : seg ≠ up
  no_sep : sep ∉ seg

def Clean (stack : List (List α)) : Prop := ∀ seg ∈ stack, Name sep here up seg

variable {sep here up} {stack segs : List (List α)} {seg path : List α}

theorem enter_name (h : Name sep here up seg) : enter here up stack seg = stack ++ [seg] := by
  rw [enter, if_neg (by simp [h.ne_nil, h.ne_here]), if_neg h.ne_up]

theorem enter_here : enter here up stack here = stack := by simp [enter]

theorem enter_up (hnil : up ≠ []) (hhere : up ≠ here) : enter here up stack up = stack.dropLast := by simp [enter, hnil, hhere]

@[simp] theorem enter_nil : enter here up stack [] = stack := by simp [enter]

theorem clean_enter (h : Clean sep here up stack) (hseg : sep ∉ seg) : Clean sep here up (enter here up stack seg) := by
  unfold enter
  by_cases hskip : seg = [] ∨ seg = here
  · rwa [if_pos hskip]
  split_ifs with hup
  · intro s hs
    exact h s ((dropLast_sublist stack).subset hs)
  intro s hs
  rcases mem_append.1 hs with hs | hs
  · exact h s hs
  · obtain rfl := mem_singleton.1 hs
    exact ⟨fun hnil => hskip (.inl hnil), fun hhere => hskip (.inr hhere), hup, hseg⟩

theorem sep_notMem_of_mem_splitOn (h : seg ∈ path.splitOn sep) : sep ∉ seg := by
  induction path generalizing seg with
  | nil =>
    obtain rfl : seg = [] := by simpa using h
    simp
  | cons x path ih =>
    rw [splitOn_cons_eq_if_modifyHead] at h
    by_cases hx : x = sep
    · rw [if_pos (by simpa using hx)] at h
      rcases mem_cons.1 h with rfl | h
      · simp
      · exact ih h
    rw [if_neg (by simpa using hx)] at h
    cases hsplit : path.splitOn sep with
    | nil => simp [hsplit] at h
    | cons first rest =>
      rw [hsplit, modifyHead_cons] at h
      rcases mem_cons.1 h with rfl | h
      · have hfirst : sep ∉ first := ih (hsplit ▸ mem_cons_self ..)
        simp [Ne.symm hx, hfirst]
      · exact ih (hsplit ▸ mem_cons_of_mem _ h)

theorem clean_foldl (h : Clean sep here up stack) (hsegs : ∀ seg ∈ segs, sep ∉ seg) :
    Clean sep here up (segs.foldl (enter here up) stack) := by
  induction segs generalizing stack with
  | nil => exact h
  | cons seg segs ih =>
    exact ih (clean_enter h (hsegs seg (mem_cons_self ..))) fun s hs => hsegs s (mem_cons_of_mem _ hs)

theorem resolve_clean (path : List α) : Clean sep here up (resolve sep here up path) :=
  clean_foldl (fun _ h => by simp at h) fun _ h => sep_notMem_of_mem_splitOn h

theorem foldl_clean (h : Clean sep here up segs) : segs.foldl (enter here up) stack = stack ++ segs := by
  induction segs generalizing stack with
  | nil => exact (append_nil _).symm
  | cons seg segs ih =>
    rw [foldl_cons, enter_name (h seg (mem_cons_self ..)), ih fun s hs => h s (mem_cons_of_mem _ hs),
      append_assoc, singleton_append]

theorem splitOn_flatMap (h : Clean sep here up stack) : (stack.flatMap (sep :: ·)).splitOn sep = [] :: stack := by
  induction stack with
  | nil => rfl
  | cons seg stack ih =>
    have hseg : sep ∉ seg := (h seg (mem_cons_self ..)).no_sep
    have hrest := ih fun s hs => h s (mem_cons_of_mem _ hs)
    rw [flatMap_cons, cons_append, ← nil_append (sep :: _), splitOn_append_cons_self_of_not_mem (by simp)]
    congr 1
    cases stack with
    | nil => rw [flatMap_nil, append_nil, splitOn_eq_singleton hseg]
    | cons next stack =>
      rw [flatMap_cons, cons_append] at hrest ⊢
      rw [splitOn_append_cons_self_of_not_mem hseg]
      congr 1
      rw [← nil_append (sep :: _), splitOn_append_cons_self_of_not_mem (by simp)] at hrest
      exact (cons.inj hrest).2

theorem resolve_render (h : Clean sep here up stack) : resolve sep here up (render sep stack) = stack := by
  unfold render resolve
  split_ifs with hnil
  · subst hnil
    simp [splitOn_cons_eq_if_modifyHead]
  · rw [splitOn_flatMap h, foldl_cons, enter_nil, foldl_clean h, nil_append]

theorem resolve_append (a b : List α) :
    resolve sep here up (a ++ sep :: b) = (b.splitOn sep).foldl (enter here up) (resolve sep here up a) := by
  rw [resolve, splitOn_append_cons_of_beq a b (by simp), foldl_append]
  rfl

theorem resolve_render_append (a b : List α) :
    resolve sep here up (render sep (resolve sep here up a) ++ sep :: b) = resolve sep here up (a ++ sep :: b) := by
  rw [resolve_append, resolve_append, resolve_render (resolve_clean a)]

/-! ## Bounded paths -/

section Bounded

variable (sep here up) (capacity : Nat)

/-- The stack after a segment, when it can be written in `capacity` places. -/
def enterWithin (stack : List (List α)) (seg : List α) : Option (List (List α)) :=
  let after := enter here up stack seg
  if (render sep after).length ≤ capacity then some after else none

variable {sep here up capacity} {segs : List (List α)}

omit [DecidableEq α] in
theorem render_ne_nil (stack : List (List α)) : render sep stack ≠ [] := by
  unfold render
  cases stack with
  | nil => simp
  | cons seg stack => simp

omit [DecidableEq α] in
theorem render_append (hstack : stack ≠ []) : render sep (stack ++ segs) = render sep stack ++ segs.flatMap (sep :: ·) := by
  rw [render, if_neg (by simp [hstack]), render, if_neg hstack, flatMap_append]

omit [DecidableEq α] in
theorem render_length_le (stack segs : List (List α)) : (render sep stack).length ≤ (render sep (stack ++ segs)).length := by
  by_cases hstack : stack = []
  · have hne : render sep (stack ++ segs) ≠ [] := render_ne_nil _
    have hpos := length_pos_of_ne_nil hne
    rw [show (render sep stack).length = 1 by simp [render, hstack]]
    omega
  · rw [render_append hstack, length_append]
    omega

omit [DecidableEq α] in
theorem render_dropLast_length_le (stack : List (List α)) : (render sep stack.dropLast).length ≤ (render sep stack).length := by
  rcases eq_nil_or_concat' stack with rfl | ⟨rest, seg, rfl⟩
  · exact Nat.le_refl _
  · rw [dropLast_concat]
    exact render_length_le rest [seg]

theorem foldlM_enterWithin {after : List (List α)} (hfits : (render sep stack).length ≤ capacity)
    (h : segs.foldlM (enterWithin sep here up capacity) stack = some after) :
    after = segs.foldl (enter here up) stack ∧ (render sep after).length ≤ capacity := by
  induction segs generalizing stack with
  | nil =>
    obtain rfl := Option.some.inj h
    exact ⟨rfl, hfits⟩
  | cons seg segs ih =>
    rw [foldlM_cons, enterWithin] at h
    split_ifs at h with hnext
    · exact ih hnext h
    · cases h

/-- Names fit one by one when they fit together. -/
theorem foldlM_enterWithin_clean (hclean : Clean sep here up segs) (hfits : (render sep (stack ++ segs)).length ≤ capacity) :
    segs.foldlM (enterWithin sep here up capacity) stack = some (stack ++ segs) := by
  induction segs generalizing stack with
  | nil => exact congrArg some (append_nil _).symm
  | cons seg segs ih =>
    rw [append_cons] at hfits
    have hnext : (render sep (stack ++ [seg])).length ≤ capacity := Nat.le_trans (render_length_le _ segs) hfits
    have hrest := ih (fun s hs => hclean s (mem_cons_of_mem _ hs)) hfits
    rw [foldlM_cons, enterWithin, enter_name (hclean seg (mem_cons_self ..)), if_pos hnext, append_cons stack seg segs]
    exact hrest

theorem enterWithin_nil (hfits : (render sep stack).length ≤ capacity) :
    enterWithin sep here up capacity stack [] = some stack := by
  rw [enterWithin, enter_nil, if_pos hfits]

/-- What is written fits when it is read back. -/
theorem foldlM_enterWithin_render (hclean : Clean sep here up stack) (hfits : (render sep stack).length ≤ capacity) :
    ((render sep stack).splitOn sep).foldlM (enterWithin sep here up capacity) [] = some stack := by
  have hroot : (render sep ([] : List (List α))).length ≤ capacity :=
    Nat.le_trans (render_length_le [] stack) (by simpa using hfits)
  by_cases hnil : stack = []
  · subst hnil
    rw [render, if_pos rfl, splitOn_cons_eq_if_modifyHead, if_pos (by simp), splitOn_nil]
    simp [enterWithin_nil hroot]
  · rw [render, if_neg hnil, splitOn_flatMap hclean, foldlM_cons, enterWithin_nil hroot]
    exact foldlM_enterWithin_clean hclean hfits

end Bounded

end LimitlessOS.Lib.Segments
