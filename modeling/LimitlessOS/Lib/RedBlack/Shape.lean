/-
  LimitlessOS.Lib.RedBlack.Shape — red-black trees as shapes.

  A tree is a plain inductive value whose nodes carry a colour and a label; a path
  from a node to the root is a list of frames (a zipper), the frame next to the
  focus first. `repair` is what bottom-up insertion does to a red focus: recolour
  and climb past a red uncle, else at most two rotations, and a black root at the
  end. Everything is stated with a side `d`, so that a case and its mirror image
  are one.

  Proved:
  - `inorder_plug`: the labels of a plugged tree, left to right.
  - `isRedBlack_plug`: a plugged tree is red-black exactly when its focus is balanced
    and its path accepts the focus's height and colour.
  - `isRedBlack_repair`: repairing a red node in a path that accepts a black one gives
    a red-black tree.
-/
import Mathlib.Data.List.Sort

namespace LimitlessOS.Lib.RedBlack

open List

inductive Color where
  | red
  | black
  deriving DecidableEq, Repr

inductive Dir where
  | left
  | right
  deriving DecidableEq, Repr

def Dir.flip : Dir → Dir
  | .left => .right
  | .right => .left

theorem Dir.flip_ne (d : Dir) : d.flip ≠ d := by cases d <;> decide

theorem Dir.eq_or_flip (d e : Dir) : e = d ∨ e = d.flip := by cases d <;> cases e <;> simp [Dir.flip]

inductive Shape (ι : Type) where
  | leaf
  | node (c : Color) (l : Shape ι) (x : ι) (r : Shape ι)

variable {ι : Type}

namespace Shape

def root : Shape ι → Option ι
  | leaf => none
  | node _ _ x _ => some x

def rootColor : Shape ι → Color
  | leaf => .black
  | node c _ _ _ => c

def inorder : Shape ι → List ι
  | leaf => []
  | node _ l x r => l.inorder ++ x :: r.inorder

/-- The node `x` with `near` on side `d` and `far` on the other one. -/
def branch (d : Dir) (c : Color) (near : Shape ι) (x : ι) (far : Shape ι) : Shape ι :=
  match d with
  | .left => node c near x far
  | .right => node c far x near

def paintRoot (c : Color) : Shape ι → Shape ι
  | leaf => leaf
  | node _ l x r => node c l x r

/-- `n` black nodes on every path to a leaf, and no red node with a red child. -/
def Balanced : Nat → Shape ι → Prop
  | n, leaf => n = 0
  | n, node .red l _ r => l.rootColor = .black ∧ r.rootColor = .black ∧ l.Balanced n ∧ r.Balanced n
  | n, node .black l _ r => ∃ m, n = m + 1 ∧ l.Balanced m ∧ r.Balanced m

@[simp] theorem root_leaf : (leaf : Shape ι).root = none := rfl

@[simp] theorem root_node (c : Color) (l : Shape ι) (x : ι) (r : Shape ι) : (node c l x r).root = some x := rfl

@[simp] theorem root_branch (d : Dir) (c : Color) (a : Shape ι) (x : ι) (b : Shape ι) :
    (branch d c a x b).root = some x := by cases d <;> rfl

@[simp] theorem rootColor_branch (d : Dir) (c : Color) (a : Shape ι) (x : ι) (b : Shape ι) :
    (branch d c a x b).rootColor = c := by cases d <;> rfl

@[simp] theorem paintRoot_branch (d : Dir) (c e : Color) (a : Shape ι) (x : ι) (b : Shape ι) :
    (branch d c a x b).paintRoot e = branch d e a x b := by cases d <;> rfl

@[simp] theorem inorder_paintRoot (c : Color) (t : Shape ι) : (t.paintRoot c).inorder = t.inorder := by
  cases t <;> rfl

theorem branch_flip (d : Dir) (c : Color) (a : Shape ι) (x : ι) (b : Shape ι) :
    branch d.flip c a x b = branch d c b x a := by cases d <;> rfl

theorem balanced_branch_red (d : Dir) (n : Nat) (a : Shape ι) (x : ι) (b : Shape ι) :
    (branch d .red a x b).Balanced n ↔
      a.rootColor = .black ∧ b.rootColor = .black ∧ a.Balanced n ∧ b.Balanced n := by
  cases d
  · simp only [branch, Balanced]
  · simp only [branch, Balanced]; tauto

theorem balanced_branch_black (d : Dir) (n : Nat) (a : Shape ι) (x : ι) (b : Shape ι) :
    (branch d .black a x b).Balanced n ↔ ∃ m, n = m + 1 ∧ a.Balanced m ∧ b.Balanced m := by
  cases d <;> simp only [branch, Balanced]
  exact ⟨fun ⟨m, h, hb, ha⟩ => ⟨m, h, ha, hb⟩, fun ⟨m, h, ha, hb⟩ => ⟨m, h, hb, ha⟩⟩

theorem balanced_black_succ (d : Dir) (n : Nat) (a : Shape ι) (x : ι) (b : Shape ι) :
    (branch d .black a x b).Balanced (n + 1) ↔ a.Balanced n ∧ b.Balanced n := by
  rw [balanced_branch_black]
  constructor
  · rintro ⟨m, hm, h⟩
    obtain rfl : n = m := by omega
    exact h
  · exact fun h => ⟨n, rfl, h⟩

/-- A tree is full as far down as its black nodes go. -/
theorem Balanced.le_log2 {n : Nat} {t : Shape ι} (h : t.Balanced n) : n ≤ (t.inorder.length + 1).log2 := by
  rw [Nat.le_log2 (Nat.succ_ne_zero _)]
  induction t generalizing n with
  | leaf => simp [show n = 0 from h]
  | node c l x r ihl ihr =>
    simp only [inorder, length_append, length_cons]
    cases c with
    | red =>
      have := ihl h.2.2.1
      omega
    | black =>
      obtain ⟨m, rfl, hl, hr⟩ := h
      have := ihl hl
      have := ihr hr
      omega

/-- Painting the root black keeps the balance, one black node higher if it was red. -/
theorem Balanced.paint_black {n : Nat} {t : Shape ι} (h : t.Balanced n) : ∃ m, (t.paintRoot .black).Balanced m := by
  match t, h with
  | leaf, h => exact ⟨n, h⟩
  | node .red l x r, h => exact ⟨n + 1, n, rfl, h.2.2.1, h.2.2.2⟩
  | node .black l x r, h => exact ⟨n, h⟩

end Shape

/-- A search tree's balance conditions, with a black root. -/
structure IsRedBlack (t : Shape ι) : Prop where
  rootBlack : t.rootColor = .black
  balanced : ∃ n, t.Balanced n

theorem isRedBlack_leaf : IsRedBlack (Shape.leaf : Shape ι) := ⟨rfl, 0, rfl⟩

theorem isRedBlack_paintRoot {n : Nat} {t : Shape ι} (h : t.Balanced n) : IsRedBlack (t.paintRoot .black) :=
  ⟨by cases t <;> rfl, h.paint_black⟩

/-! ## Paths -/

/-- One step of a path: the focus hangs on side `dir` of `key`, `sibling` on the other. -/
structure Frame (ι : Type) where
  dir : Dir
  color : Color
  key : ι
  sibling : Shape ι

abbrev Path (ι : Type) := List (Frame ι)

namespace Path

def plug : Shape ι → Path ι → Shape ι
  | t, [] => t
  | t, f :: fs => plug (Shape.branch f.dir f.color t f.key f.sibling) fs

/-- The node the focus hangs from. -/
def top : Path ι → Option ι
  | [] => none
  | f :: _ => some f.key

/-- The labels to the left of the focus. -/
def before : Path ι → List ι
  | [] => []
  | f :: fs => before fs ++ (match f.dir with | .left => [] | .right => f.sibling.inorder ++ [f.key])

/-- The labels to the right of the focus. -/
def after : Path ι → List ι
  | [] => []
  | f :: fs => (match f.dir with | .left => f.key :: f.sibling.inorder | .right => []) ++ after fs

theorem inorder_plug (t : Shape ι) (p : Path ι) : (plug t p).inorder = before p ++ t.inorder ++ after p := by
  induction p generalizing t with
  | nil => simp [plug, before, after]
  | cons f fs ih =>
    rw [plug, ih]
    cases hd : f.dir <;> simp [before, after, Shape.branch, Shape.inorder, hd]

/-- The path accepts a focus of black height `n` whose root has colour `c`. -/
def Fits : Nat → Color → Path ι → Prop
  | _, c, [] => c = .black
  | n, c, f :: fs =>
    f.sibling.Balanced n ∧
      match f.color with
      | .black => Fits (n + 1) .black fs
      | .red => c = .black ∧ f.sibling.rootColor = .black ∧ Fits n .red fs

theorem isRedBlack_plug (t : Shape ι) (p : Path ι) :
    IsRedBlack (plug t p) ↔ ∃ n, t.Balanced n ∧ Fits n t.rootColor p := by
  induction p generalizing t with
  | nil => exact ⟨fun ⟨hc, n, hn⟩ => ⟨n, hn, hc⟩, fun ⟨n, hn, hc⟩ => ⟨hc, n, hn⟩⟩
  | cons f fs ih =>
    rw [plug, ih, Shape.rootColor_branch]
    cases hc : f.color with
    | black =>
      simp only [Shape.balanced_branch_black, Fits, hc]
      constructor
      · rintro ⟨n, ⟨m, rfl, ht, hs⟩, hf⟩
        exact ⟨m, ht, hs, hf⟩
      · rintro ⟨m, ht, hs, hf⟩
        exact ⟨m + 1, ⟨m, rfl, ht, hs⟩, hf⟩
    | red =>
      simp only [Shape.balanced_branch_red, Fits, hc]
      constructor
      · rintro ⟨n, ⟨hct, hcs, ht, hs⟩, hf⟩
        exact ⟨n, ht, hs, hct, hcs, hf⟩
      · rintro ⟨n, ht, hs, hct, hcs, hf⟩
        exact ⟨n, ⟨hct, hcs, ht, hs⟩, hf⟩

/-! ## Repair after an insertion -/

/-- The left child of a node with `a` on side `d` and `b` on the other. -/
def pick (d : Dir) (a b : Shape ι) : Shape ι :=
  match d with
  | .left => a
  | .right => b

theorem node_pick (d : Dir) (c : Color) (a b : Shape ι) (x : ι) :
    Shape.node c (pick d a b) x (pick d b a) = Shape.branch d c a x b := by cases d <;> rfl

theorem branch_pick (d : Dir) (c : Color) (a b : Shape ι) (x : ι) :
    Shape.branch d c (pick d a b) x (pick d b a) = Shape.node c a x b := by cases d <;> rfl

/-- The subtree that replaces the grandparent `g` of a red `x` under a red parent `f` and a
black uncle: one rotation if `x` is an outer grandchild, two if it is an inner one. -/
def rotated (a : Shape ι) (x : ι) (b : Shape ι) (f g : Frame ι) : Shape ι :=
  if f.dir = g.dir then
    .branch g.dir .black (.node .red a x b) f.key (.branch g.dir .red f.sibling g.key g.sibling)
  else
    .branch g.dir .black (.branch g.dir .red f.sibling f.key (pick g.dir a b)) x
      (.branch g.dir .red (pick g.dir b a) g.key g.sibling)

/-- The parent `f` of `x` once it is painted black. -/
def blackParent (a : Shape ι) (x : ι) (b : Shape ι) (f : Frame ι) : Shape ι :=
  .branch f.dir .black (.node .red a x b) f.key f.sibling

/-- Push the red node `x` up its path until no red node has a red parent. -/
def climb : Shape ι → ι → Shape ι → Path ι → Shape ι
  | a, x, b, f :: g :: fs =>
    if f.color = .black then plug (.node .red a x b) (f :: g :: fs)
    else if g.sibling.rootColor = .red then
      climb (pick g.dir (blackParent a x b f) (g.sibling.paintRoot .black)) g.key
        (pick g.dir (g.sibling.paintRoot .black) (blackParent a x b f)) fs
    else plug (rotated a x b f g) fs
  | a, x, b, p => plug (.node .red a x b) p

def repair (a : Shape ι) (x : ι) (b : Shape ι) (p : Path ι) : Shape ι := (climb a x b p).paintRoot .black

variable {n : Nat} {a b : Shape ι} {p : Path ι} {c : Color}

theorem balanced_pick {d : Dir} (ha : a.Balanced n) (hb : b.Balanced n) :
    (pick d a b).Balanced n := by cases d <;> assumption

theorem rootColor_pick {d : Dir} (ha : a.rootColor = c) (hb : b.rootColor = c) :
    (pick d a b).rootColor = c := by cases d <;> assumption

/-- A red frame of a path that accepts something has a black frame above it. -/
theorem fits_red {f : Frame ι} {fs : Path ι} (h : Fits n c (f :: fs)) (hf : f.color = .red) :
    f.sibling.Balanced n ∧ f.sibling.rootColor = .black ∧
      ∃ g gs, fs = g :: gs ∧ g.color = .black ∧ g.sibling.Balanced n ∧ Fits (n + 1) .black gs := by
  simp only [Fits, hf] at h
  obtain ⟨hs, -, hsc, hfs⟩ := h
  refine ⟨hs, hsc, ?_⟩
  match fs, hfs with
  | [], hfs => cases hfs
  | g :: gs, hfs =>
    cases hg : g.color with
    | black =>
      simp only [Fits, hg] at hfs
      exact ⟨g, gs, rfl, hg, hfs⟩
    | red =>
      simp only [Fits, hg] at hfs
      exact absurd hfs.2.1 (by decide)

theorem Balanced.paint_red {t : Shape ι} (h : t.Balanced n) (hc : t.rootColor = .red) :
    (t.paintRoot .black).Balanced (n + 1) := by
  match t, h, hc with
  | .node .red l x r, h, _ => exact ⟨n, rfl, h.2.2.1, h.2.2.2⟩

theorem balanced_rotated {x : ι} {f g : Frame ι}
    (ha : a.Balanced n) (hb : b.Balanced n) (hac : a.rootColor = .black) (hbc : b.rootColor = .black)
    (hs : f.sibling.Balanced n) (hsc : f.sibling.rootColor = .black)
    (hu : g.sibling.Balanced n) (huc : g.sibling.rootColor = .black) : (rotated a x b f g).Balanced (n + 1) := by
  unfold rotated
  split
  · rw [Shape.balanced_black_succ, Shape.balanced_branch_red]
    exact ⟨⟨hac, hbc, ha, hb⟩, hsc, huc, hs, hu⟩
  · rw [Shape.balanced_black_succ, Shape.balanced_branch_red, Shape.balanced_branch_red]
    exact ⟨⟨hsc, rootColor_pick hac hbc, hs, balanced_pick ha hb⟩,
      rootColor_pick hbc hac, huc, balanced_pick hb ha, hu⟩

theorem rootColor_rotated (a b : Shape ι) (x : ι) (f g : Frame ι) : (rotated a x b f g).rootColor = .black := by
  unfold rotated
  split <;> simp

theorem balanced_climb (x : ι) (ha : a.Balanced n) (hb : b.Balanced n) (hac : a.rootColor = .black) (hbc : b.rootColor = .black)
    (hp : Fits n .black p) : ∃ m, (climb a x b p).Balanced m := by
  have hred : (Shape.node .red a x b).Balanced n := ⟨hac, hbc, ha, hb⟩
  fun_induction climb a x b p generalizing n with
  | case1 a x b f g fs hf =>
    -- a black parent: the red node simply fits
    have hfits : Fits n .red (f :: g :: fs) := by
      simp only [Fits, hf] at hp ⊢
      exact hp
    exact ((isRedBlack_plug _ _).2 ⟨n, hred, hfits⟩).balanced
  | case2 a x b f g fs hf hu ih =>
    have hf' : f.color = .red := by cases h : f.color <;> simp_all
    obtain ⟨hs, hsc, g', gs', heq, hg, hgs, hfs⟩ := fits_red hp hf'
    cases heq
    have hP : (blackParent a x b f).Balanced (n + 1) := (Shape.balanced_black_succ ..).2 ⟨hred, hs⟩
    have hPc : (blackParent a x b f).rootColor = .black := Shape.rootColor_branch ..
    have hU : (g.sibling.paintRoot .black).Balanced (n + 1) := Balanced.paint_red hgs hu
    have hUc : (g.sibling.paintRoot .black).rootColor = .black := (isRedBlack_paintRoot hgs).rootBlack
    exact ih (balanced_pick hP hU) (balanced_pick hU hP) (rootColor_pick hPc hUc) (rootColor_pick hUc hPc) hfs
      ⟨rootColor_pick hPc hUc, rootColor_pick hUc hPc, balanced_pick hP hU, balanced_pick hU hP⟩
  | case3 a x b f g fs hf hu =>
    have hf' : f.color = .red := by cases h : f.color <;> simp_all
    have hu' : g.sibling.rootColor = .black := by cases h : g.sibling.rootColor <;> simp_all
    obtain ⟨hs, hsc, g', gs', heq, hg, hgs, hfs⟩ := fits_red hp hf'
    cases heq
    have hrot := balanced_rotated (x := x) ha hb hac hbc hs hsc hgs hu'
    exact ((isRedBlack_plug _ _).2 ⟨n + 1, hrot, (rootColor_rotated a b x f g).symm ▸ hfs⟩).balanced
  | case4 a x b p hshort =>
    match p, hp, hshort with
    | [], _, _ => exact ⟨n, hred⟩
    | [f], hp, _ =>
      cases hf : f.color with
      | black =>
        have hfits : Fits n .red [f] := by
          simp only [Fits, hf] at hp ⊢
          exact hp
        exact ((isRedBlack_plug _ _).2 ⟨n, hred, hfits⟩).balanced
      | red =>
        obtain ⟨-, -, g, gs, heq, -⟩ := fits_red hp hf
        cases heq
    | f :: g :: fs, _, hshort => exact (hshort f g fs rfl).elim

theorem isRedBlack_repair (x : ι) (ha : a.Balanced n) (hb : b.Balanced n) (hac : a.rootColor = .black)
    (hbc : b.rootColor = .black) (hp : Fits n .black p) : IsRedBlack (repair a x b p) :=
  let ⟨_, hm⟩ := balanced_climb x ha hb hac hbc hp
  isRedBlack_paintRoot hm

/-! ## The path a search takes -/

section Descend

variable {κ : Type} [LinearOrder κ] {key : ι → κ}

/-- The path from `t`, hanging from `p`, to the leaf where the key `k` belongs. -/
def descend (key : ι → κ) (k : κ) : Shape ι → Path ι → Option (Path ι)
  | .leaf, p => some p
  | .node c l y r, p =>
    if k < key y then descend key k l (⟨.left, c, y, r⟩ :: p)
    else if key y < k then descend key k r (⟨.right, c, y, l⟩ :: p)
    else none

/-- The labels left of a search path are below the key, those right of it above. -/
structure Separates (key : ι → κ) (k : κ) (p : Path ι) : Prop where
  before : ∀ z ∈ p.before, key z < k
  after : ∀ z ∈ p.after, k < key z

theorem exists_descend {k : κ} {t : Shape ι} {p : Path ι} (hord : t.inorder.Pairwise (key · < key ·))
    (hk : ∀ z ∈ t.inorder, key z ≠ k) (hp : Separates key k p) :
    ∃ q, descend key k t p = some q ∧ plug .leaf q = plug t p ∧ Separates key k q := by
  induction t generalizing p with
  | leaf => exact ⟨p, rfl, rfl, hp⟩
  | node c l y r ihl ihr =>
    simp only [Shape.inorder, pairwise_append, pairwise_cons, mem_cons, mem_append] at hord hk
    obtain ⟨hl, ⟨hyr, hr⟩, hly⟩ := hord
    obtain hlt | heq | hgt := lt_trichotomy k (key y)
    · obtain ⟨q, hq, hplug, hsep⟩ := ihl (p := ⟨.left, c, y, r⟩ :: p) hl (fun z hz => hk z (.inl hz))
        ⟨fun z hz => hp.before z (by simpa [Path.before] using hz), by
          simp only [Path.after, cons_append, mem_cons, mem_append]
          rintro z (rfl | hz | hz)
          · exact hlt
          · exact hlt.trans (hyr z hz)
          · exact hp.after z hz⟩
      exact ⟨q, by simp [descend, hlt, hq], hplug, hsep⟩
    · exact absurd heq.symm (hk y (.inr (.inl rfl)))
    · obtain ⟨q, hq, hplug, hsep⟩ := ihr (p := ⟨.right, c, y, l⟩ :: p) hr (fun z hz => hk z (.inr (.inr hz)))
        ⟨by
          simp only [Path.before, mem_append, mem_singleton]
          rintro z (hz | hz | rfl)
          · exact hp.before z hz
          · exact (hly z hz y (.inl rfl)).trans hgt
          · exact hgt, fun z hz => hp.after z (by simpa [Path.after] using hz)⟩
      exact ⟨q, by simp [descend, hgt, not_lt.2 hgt.le, hq], hplug, hsep⟩

theorem Separates.dir {k : κ} {f : Frame ι} {fs : Path ι} (h : Separates key k (f :: fs)) :
    (if k < key f.key then Dir.left else Dir.right) = f.dir := by
  cases hd : f.dir with
  | left => rw [if_pos (h.after f.key (by simp [Path.after, hd]))]
  | right => rw [if_neg (not_lt.2 (h.before f.key (by simp [Path.before, hd])).le)]

end Descend

end Path

end LimitlessOS.Lib.RedBlack
