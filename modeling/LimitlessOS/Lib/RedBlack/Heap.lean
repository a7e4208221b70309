/-
  LimitlessOS.Lib.RedBlack.Heap — intrusive red-black trees with parent links.

  A heap gives every node a cell (parent, left, right, colour) and names a root.
  `Rep` says that the cells of a shape's nodes are exactly what the shape requires,
  the parent links included; `RepPath` says the same of a path with a hole, so that
  a local rewrite is proved at the focus and carried to the whole tree by `rep_plug`.

  Proved:
  - `rep_plug`: a heap holds a plugged tree iff it holds the path and the focus.
  - `Holds.rotate`: a rotation at a node turns the focus, and writes no cell outside
    the tree.
  - `Holds.paint`: painting a node repaints the focus.
-/
import Mathlib.Logic.Function.Basic
import LimitlessOS.Lib.RedBlack.Shape

namespace LimitlessOS.Lib.RedBlack

open RedBlack.Path Shape List

structure Cell (ι : Type) where
  parent : Option ι
  left : Option ι
  right : Option ι
  color : Color
  deriving DecidableEq, Repr

variable {ι : Type}

namespace Cell

def child (c : Cell ι) : Dir → Option ι
  | .left => c.left
  | .right => c.right

def setChild (c : Cell ι) (d : Dir) (v : Option ι) : Cell ι :=
  match d with
  | .left => { c with left := v }
  | .right => { c with right := v }

def setParent (c : Cell ι) (v : Option ι) : Cell ι := { c with parent := v }

def setColor (c : Cell ι) (v : Color) : Cell ι := { c with color := v }

/-- The cell with `near` on side `d` and `far` on the other one. -/
def sided (d : Dir) (parent near far : Option ι) (color : Color) : Cell ι :=
  match d with
  | .left => ⟨parent, near, far, color⟩
  | .right => ⟨parent, far, near, color⟩

section
variable (d : Dir) (p q u v w : Option ι) (c e : Color)

@[simp] theorem child_sided : (sided d p u v c).child d = u := by cases d <;> rfl
@[simp] theorem child_flip_sided : (sided d p u v c).child d.flip = v := by cases d <;> rfl
@[simp] theorem parent_sided : (sided d p u v c).parent = p := by cases d <;> rfl
@[simp] theorem color_sided : (sided d p u v c).color = c := by cases d <;> rfl
@[simp] theorem setChild_sided : (sided d p u v c).setChild d w = sided d p w v c := by cases d <;> rfl
@[simp] theorem setChild_flip_sided : (sided d p u v c).setChild d.flip w = sided d p u w c := by cases d <;> rfl
@[simp] theorem setParent_sided : (sided d p u v c).setParent q = sided d q u v c := by cases d <;> rfl
@[simp] theorem setColor_sided : (sided d p u v c).setColor e = sided d p u v e := by cases d <;> rfl

theorem sided_flip : sided d.flip p u v c = sided d p v u c := by cases d <;> rfl

end

end Cell

structure Heap (ι : Type) where
  cell : ι → Cell ι
  root : Option ι

/-! ## What a heap holds -/

/-- The cells of `t`'s nodes are those of `t` hanging from `parent`. -/
def Rep (cell : ι → Cell ι) : Option ι → Shape ι → Prop
  | _, .leaf => True
  | parent, .node c l x r => cell x = ⟨parent, l.root, r.root, c⟩ ∧ Rep cell (some x) l ∧ Rep cell (some x) r

theorem rep_branch (cell : ι → Cell ι) (parent : Option ι) (d : Dir) (c : Color) (a : Shape ι) (x : ι) (b : Shape ι) :
    Rep cell parent (.branch d c a x b) ↔
      cell x = .sided d parent a.root b.root c ∧ Rep cell (some x) a ∧ Rep cell (some x) b := by
  cases d
  · rfl
  · simp only [branch, Rep, Cell.sided]
    tauto

variable {p : Path ι} {t : Shape ι} {parent : Option ι} {cell cell' : ι → Cell ι}

theorem Rep.parent_root {z : ι} (h : Rep cell parent t) (hz : t.root = some z) : (cell z).parent = parent := by
  match t, h, hz with
  | .node c l x r, h, rfl => rw [h.1]

theorem Rep.congr (hcell : ∀ z ∈ t.inorder, cell' z = cell z) (h : Rep cell parent t) : Rep cell' parent t := by
  induction t generalizing parent with
  | leaf => trivial
  | node c l x r ihl ihr =>
    obtain ⟨hx, hl, hr⟩ := h
    refine ⟨(hcell x (by simp [inorder])).trans hx, ihl ?_ hl, ihr ?_ hr⟩
    · exact fun z hz => hcell z (by simp [inorder, hz])
    · exact fun z hz => hcell z (by simp [inorder, hz])

/-- Hanging a tree elsewhere rewrites its root's parent link only. -/
theorem Rep.reparent {parent' : Option ι}
    (hnd : t.inorder.Nodup) (hroot : ∀ z, t.root = some z → cell' z = (cell z).setParent parent')
    (hcell : ∀ z ∈ t.inorder, t.root ≠ some z → cell' z = cell z) (h : Rep cell parent t) : Rep cell' parent' t := by
  cases t with
  | leaf => trivial
  | node c l x r =>
    obtain ⟨hx, hl, hr⟩ := h
    simp only [inorder, nodup_append, nodup_cons, mem_cons] at hnd
    obtain ⟨-, ⟨hxr, -⟩, hlx⟩ := hnd
    refine ⟨?_, hl.congr fun z hz => ?_, hr.congr fun z hz => ?_⟩
    · rw [hroot x rfl, hx]
      rfl
    · refine hcell z (by simp [inorder, hz]) fun hzx => ?_
      cases hzx
      exact hlx x hz x (.inl rfl) rfl
    · refine hcell z (by simp [inorder, hz]) fun hzx => ?_
      cases hzx
      exact hxr hz

/-- The cells of a path's nodes, with the tree rooted at `hole` in its hole. -/
def RepPath (cell : ι → Cell ι) : Option ι → Path ι → Prop
  | _, [] => True
  | hole, f :: fs =>
    cell f.key = .sided f.dir (top fs) hole f.sibling.root f.color ∧
      Rep cell (some f.key) f.sibling ∧ RepPath cell (some f.key) fs

theorem rep_plug (cell : ι → Cell ι) (t : Shape ι) (p : Path ι) :
    Rep cell none (plug t p) ↔ RepPath cell t.root p ∧ Rep cell (top p) t := by
  induction p generalizing t with
  | nil => simp [plug, RepPath, top]
  | cons f fs ih =>
    rw [plug, ih, rep_branch, root_branch]
    simp only [RepPath, top]
    tauto

namespace Path

/-- The nodes of a path: its keys and those of its siblings. -/
def nodes : Path ι → List ι
  | [] => []
  | f :: fs => f.key :: (f.sibling.inorder ++ nodes fs)

theorem length_le_nodes (p : Path ι) : p.length ≤ p.nodes.length := by
  induction p with
  | nil => rfl
  | cons f fs ih =>
    simp only [nodes, length_cons, length_append]
    omega

theorem inorder_plug_perm (t : Shape ι) (p : Path ι) : (plug t p).inorder.Perm (t.inorder ++ nodes p) := by
  induction p generalizing t with
  | nil => simp [plug, nodes]
  | cons f fs ih =>
    refine (ih _).trans ?_
    have hbranch : (branch f.dir f.color t f.key f.sibling).inorder.Perm
        (t.inorder ++ f.key :: f.sibling.inorder) := by
      cases f.dir
      · exact .refl _
      · exact perm_append_comm.trans (perm_middle.symm.trans (by simp))
    simpa [nodes] using hbranch.append_right (nodes fs)

end Path

theorem RepPath.congr {hole : Option ι}
    (hcell : ∀ z ∈ p.nodes, cell' z = cell z) (h : RepPath cell hole p) : RepPath cell' hole p := by
  induction p generalizing hole with
  | nil => trivial
  | cons f fs ih =>
    obtain ⟨hf, hs, hfs⟩ := h
    refine ⟨(hcell _ (by simp [nodes])).trans hf, hs.congr fun z hz => ?_, ih (fun z hz => ?_) hfs⟩
    · exact hcell z (by simp [nodes, hz])
    · exact hcell z (by simp [nodes, hz])

/-- Putting another tree in the hole rewrites one child link of the path's lowest node only. -/
theorem RepPath.rehole {hole hole' : Option ι} (hnd : p.nodes.Nodup)
    (htop : ∀ f fs, p = f :: fs → cell' f.key = (cell f.key).setChild f.dir hole')
    (hcell : ∀ z ∈ p.nodes, p.top ≠ some z → cell' z = cell z) (h : RepPath cell hole p) : RepPath cell' hole' p := by
  cases p with
  | nil => trivial
  | cons f fs =>
    obtain ⟨hf, hs, hfs⟩ := h
    simp only [nodes, nodup_cons, mem_append, not_or] at hnd
    obtain ⟨⟨hfsib, hffs⟩, -⟩ := hnd
    refine ⟨?_, hs.congr fun z hz => ?_, hfs.congr fun z hz => ?_⟩
    · rw [htop f fs rfl, hf, Cell.setChild_sided]
    · refine hcell z (by simp [nodes, hz]) fun h => ?_
      cases h
      exact hfsib hz
    · refine hcell z (by simp [nodes, hz]) fun h => ?_
      cases h
      exact hffs hz

namespace Heap

/-- The heap holds the tree `t`: its root pointer and every cell of a node of `t`. -/
structure Holds (h : Heap ι) (t : Shape ι) : Prop where
  root : h.root = t.root
  rep : Rep h.cell none t
  nodup : t.inorder.Nodup

/-! ## Local updates -/

variable [DecidableEq ι]

def modify (h : Heap ι) (x : ι) (f : Cell ι → Cell ι) : Heap ι :=
  { h with cell := Function.update h.cell x (f (h.cell x)) }

@[simp] theorem modify_root (h : Heap ι) (x : ι) (f : Cell ι → Cell ι) : (h.modify x f).root = h.root := rfl

@[simp] theorem modify_cell_self (h : Heap ι) (x : ι) (f : Cell ι → Cell ι) :
    (h.modify x f).cell x = f (h.cell x) := by simp [modify]

variable {x z : ι} {h : Heap ι}

@[simp] theorem modify_cell_ne {f : Cell ι → Cell ι} (hz : z ≠ x) : (h.modify x f).cell z = h.cell z := by simp [modify, hz]

def paint (h : Heap ι) (x : ι) (c : Color) : Heap ι := h.modify x (·.setColor c)

/-- Make `x` the parent of the node `inner` points to, if any. -/
def adopt (h : Heap ι) (inner : Option ι) (x : ι) : Heap ι :=
  match inner with
  | none => h
  | some z => h.modify z (·.setParent (some x))

@[simp] theorem adopt_root (h : Heap ι) (inner : Option ι) (x : ι) : (h.adopt inner x).root = h.root := by
  cases inner <;> rfl

@[simp] theorem adopt_cell_some (h : Heap ι) (z x : ι) :
    (h.adopt (some z) x).cell z = (h.cell z).setParent (some x) := by simp [adopt]

@[simp] theorem adopt_cell_ne {inner : Option ι} (hz : inner ≠ some z) : (h.adopt inner x).cell z = h.cell z := by
  rcases inner with _ | w
  · rfl
  have hne : z ≠ w := fun e => hz (congrArg some e.symm)
  simp [adopt, hne]

/-- Below `up` (or as the root), `y` takes the place of `x`; side `d` is tested first. -/
def replaceChild (h : Heap ι) (d : Dir) (up : Option ι) (x y : ι) : Heap ι :=
  match up with
  | none => { h with root := some y }
  | some p =>
    if (h.cell p).child d = some x then h.modify p (·.setChild d (some y))
    else h.modify p (·.setChild d.flip (some y))

@[simp] theorem replaceChild_root (h : Heap ι) (d : Dir) (up : Option ι) (x y : ι) :
    (h.replaceChild d up x y).root = if up = none then some y else h.root := by
  cases up with
  | none => rfl
  | some p => simp only [replaceChild]; split <;> simp

@[simp] theorem replaceChild_cell_some (h : Heap ι) (d : Dir) (p x y : ι) :
    (h.replaceChild d (some p) x y).cell p =
      (h.cell p).setChild (if (h.cell p).child d = some x then d else d.flip) (some y) := by
  simp only [replaceChild]
  split <;> simp

@[simp] theorem replaceChild_cell_ne {d : Dir} {up : Option ι} {y : ι} (hz : up ≠ some z) :
    (h.replaceChild d up x y).cell z = h.cell z := by
  rcases up with _ | p
  · rfl
  have hne : z ≠ p := fun e => hz (congrArg some e.symm)
  simp only [replaceChild]
  split <;> exact modify_cell_ne hne

/-- Rotate `x` down to side `d`; its other child takes its place. -/
def rotate (d : Dir) (h : Heap ι) (x : ι) : Heap ι :=
  match (h.cell x).child d.flip with
  | none => h
  | some y =>
    let inner := (h.cell y).child d
    let h := (h.modify x (·.setChild d.flip inner)).adopt inner x
    let up := (h.cell x).parent
    let h := (h.modify y (·.setParent up)).replaceChild d up x y
    (h.modify y (·.setChild d (some x))).modify x (·.setParent (some y))

/-- What a rotation writes, cell by cell, when the nodes it touches are distinct. -/
structure Rotated (h h' : Heap ι) (d : Dir) (x y : ι) (inner up : Option ι) : Prop where
  pivot : h'.cell x = ((h.cell x).setChild d.flip inner).setParent (some y)
  raised : h'.cell y = ((h.cell y).setParent up).setChild d (some x)
  moved : ∀ z, inner = some z → h'.cell z = (h.cell z).setParent (some x)
  above : ∀ p, up = some p →
    h'.cell p = (h.cell p).setChild (if (h.cell p).child d = some x then d else d.flip) (some y)
  frame : ∀ z, z ≠ x → z ≠ y → inner ≠ some z → up ≠ some z → h'.cell z = h.cell z
  root : h'.root = if up = none then some y else h.root

theorem rotate_rotated {d : Dir} {y : ι} {inner up : Option ι}
    (hy : (h.cell x).child d.flip = some y) (hinner : (h.cell y).child d = inner)
    (hup : (h.cell x).parent = up) (hxy : x ≠ y) (hix : inner ≠ some x) (hiy : inner ≠ some y)
    (hux : up ≠ some x) (huy : up ≠ some y) (hui : ∀ z, inner = some z → up ≠ some z) :
    Rotated h (h.rotate d x) d x y inner up := by
  have hpar : ((h.cell x).setChild d.flip inner).parent = up := by cases d <;> exact hup
  have hrot : h.rotate d x =
      ((((((h.modify x (·.setChild d.flip inner)).adopt inner x).modify y (·.setParent up)).replaceChild d up x y).modify
        y (·.setChild d (some x))).modify x (·.setParent (some y))) := by
    simp only [rotate, hy, hinner, adopt_cell_ne hix, modify_cell_self, hpar]
  rw [hrot]
  constructor
  · simp [hxy, hux, hix]
  · simp [hxy.symm, huy, hiy]
  · rintro z rfl
    have hzx : z ≠ x := fun e => hix (congrArg some e)
    have hzy : z ≠ y := fun e => hiy (congrArg some e)
    simp [hzx, hzy, hui z rfl]
  · rintro p rfl
    have hpx : p ≠ x := fun e => hux (congrArg some e)
    have hpy : p ≠ y := fun e => huy (congrArg some e)
    have hip : inner ≠ some p := fun e => hui p e rfl
    simp [hpx, hpy, hip]
  · intro z hzx hzy hiz huz
    simp [hzx, hzy, hiz, huz]
  · simp

end Heap

theorem Shape.mem_inorder_of_root {x : ι} (h : t.root = some x) : x ∈ t.inorder := by
  cases t with
  | leaf => cases h
  | node c l y r =>
    cases h
    simp [inorder]

theorem Path.root_plug_cons (t t' : Shape ι) (f : Frame ι) (fs : Path ι) :
    (plug t (f :: fs)).root = (plug t' (f :: fs)).root := by
  induction fs generalizing f t t' with
  | nil => simp [plug]
  | cons g gs ih => exact ih _ _ g

theorem Path.mem_nodes_of_top {x : ι} (h : p.top = some x) : x ∈ p.nodes := by
  cases p with
  | nil => cases h
  | cons f fs =>
    cases h
    simp [nodes]

theorem Path.plug_flip (t u : Shape ι) (d : Dir) (c : Color) (x : ι) (fs : Path ι) :
    plug u (⟨d.flip, c, x, t⟩ :: fs) = plug t (⟨d, c, x, u⟩ :: fs) := by
  simp only [plug, branch_flip]

namespace Heap

variable {h : Heap ι} {f : Frame ι} {fs p : Path ι}

theorem Holds.cell_focus {c : Color} {a b : Shape ι} {x : ι} (hh : h.Holds (p.plug (.node c a x b))) :
    h.cell x = ⟨p.top, a.root, b.root, c⟩ := ((rep_plug ..).1 hh.rep).2.1

variable {t : Shape ι}

theorem Holds.cell_top (hh : h.Holds (plug t (f :: fs))) :
    h.cell f.key = .sided f.dir fs.top t.root f.sibling.root f.color := ((rep_plug ..).1 hh.rep).1.1

theorem Holds.root_ne {z : ι} (hh : h.Holds (plug t (f :: fs))) (hz : t.root = some z) : f.sibling.root ≠ some z := by
  intro hs
  have hnd := (inorder_plug_perm t (f :: fs)).nodup_iff.1 hh.nodup
  exact (nodup_append.1 hnd).2.2 z (mem_inorder_of_root hz) z
    (by simp [nodes, mem_inorder_of_root hs]) rfl

/-- The child of a black node has a black parent. -/
theorem Holds.black_parent {d : Dir} {near far : Shape ι} {q z : ι}
    (hh : h.Holds (p.plug (.branch d .black near q far))) (hz : near.root = some z) :
    ∃ q, (h.cell z).parent = some q ∧ (h.cell q).color = .black := by
  obtain ⟨hq, hnear, -⟩ := (rep_branch ..).1 ((rep_plug ..).1 hh.rep).2
  exact ⟨q, hnear.parent_root hz, by simp [hq]⟩

theorem Holds.congr {h' : Heap ι} (hh : h.Holds t) (hroot : h'.root = h.root)
    (hcell : ∀ z ∈ t.inorder, h'.cell z = h.cell z) : h'.Holds t :=
  ⟨hroot.trans hh.root, hh.rep.congr hcell, hh.nodup⟩

/-- `h'` holds `t'`, which has the nodes of `t` in the same order, and differs from `h` on them only. -/
structure Becomes (h : Heap ι) (t : Shape ι) (h' : Heap ι) (t' : Shape ι) : Prop where
  holds : h'.Holds t'
  inorder : t'.inorder = t.inorder
  frame : ∀ z ∉ t.inorder, h'.cell z = h.cell z

theorem Holds.becomes (hh : h.Holds t) : Becomes h t h t := ⟨hh, rfl, fun _ _ => rfl⟩

theorem Becomes.trans {h1 h2 h3 : Heap ι} {t1 t2 t3 : Shape ι} (h12 : Becomes h1 t1 h2 t2)
    (h23 : Becomes h2 t2 h3 t3) : Becomes h1 t1 h3 t3 where
  holds := h23.holds
  inorder := h23.inorder.trans h12.inorder
  frame z hz := (h23.frame z (h12.inorder ▸ hz)).trans (h12.frame z hz)

end Heap

/-! ## Rotations -/

theorem Shape.inorder_branch_perm (d : Dir) (c : Color) (a b : Shape ι) (x : ι) :
    (branch d c a x b).inorder.Perm (x :: (a.inorder ++ b.inorder)) := by
  cases d
  · exact perm_middle
  · exact perm_middle.trans (Perm.cons x perm_append_comm)

theorem Shape.inorder_rotation (d : Dir) (c e : Color) (a b t : Shape ι) (x y : ι) :
    (branch d c (.branch d e a x b) y t).inorder = (branch d e a x (.branch d c b y t)).inorder := by
  cases d <;> simp [branch, inorder]

namespace Heap

variable [DecidableEq ι]

variable {x : ι} {c : Color} {h : Heap ι}

/-- A rotation at the focus turns the focus and writes no cell outside the tree. -/
theorem Holds.rotate {d : Dir} {e : Color} {a b t : Shape ι} {y : ι}
    (hh : h.Holds (p.plug (.branch d e a x (.branch d c b y t)))) : Becomes h (p.plug (.branch d e a x (.branch d c b y t)))
      (h.rotate d x) (p.plug (.branch d c (.branch d e a x b) y t)) := by
  obtain ⟨hroot, hrep, hnd⟩ := hh
  have hperm : (p.plug (.branch d e a x (.branch d c b y t))).inorder.Perm
      (x :: y :: (a.inorder ++ (b.inorder ++ (t.inorder ++ p.nodes)))) := by
    refine (inorder_plug_perm _ _).trans (((inorder_branch_perm ..).append_right _).trans ?_)
    refine Perm.cons x ?_
    simp only [append_eq, append_assoc]
    refine (Perm.append_left _ ((inorder_branch_perm ..).append_right _)).trans ?_
    simp
  have hnd' := hperm.nodup_iff.1 hnd
  obtain ⟨hpath, hfocus⟩ := (rep_plug ..).1 hrep
  rw [rep_branch, rep_branch, root_branch] at hfocus
  obtain ⟨hx, ha, hy, hb, ht⟩ := hfocus
  simp only [nodup_cons, mem_cons, mem_append, not_or, nodup_append] at hnd'
  obtain ⟨⟨hxy, hxa, hxb, hxt, hxp⟩, ⟨hya, hyb, hyt, hyp⟩, hna, ⟨hnb, ⟨hnt, hnp, htp⟩, hbt⟩, hab⟩ := hnd'
  -- the five nodes a rotation touches are distinct
  have hbr : ∀ z, b.root = some z → z ∈ b.inorder := fun z => mem_inorder_of_root
  have hpt : ∀ z, p.top = some z → z ∈ p.nodes := fun z => mem_nodes_of_top
  have hr : Rotated h (h.rotate d x) d x y b.root p.top := rotate_rotated
    (by rw [hx]; simp) (by rw [hy]; simp) (by rw [hx]; simp) hxy
    (fun e => hxb (hbr _ e)) (fun e => hyb (hbr _ e)) (fun e => hxp (hpt _ e)) (fun e => hyp (hpt _ e))
    (fun z ez ep => hbt z (hbr z ez) z (.inr (hpt z ep)) rfl)
  have hin : ∀ z ∈ p.nodes, z ≠ x ∧ z ≠ y ∧ b.root ≠ some z := fun z hz =>
    ⟨fun e => hxp (e ▸ hz), fun e => hyp (e ▸ hz), fun e => hbt z (hbr z e) z (.inr hz) rfl⟩
  have hio : (p.plug (.branch d c (.branch d e a x b) y t)).inorder =
      (p.plug (.branch d e a x (.branch d c b y t))).inorder := by
    rw [inorder_plug, inorder_rotation, ← inorder_plug]
  refine ⟨⟨?_, ?_, hio ▸ hnd⟩, hio, fun z hz => ?_⟩
  · -- the root pointer
    rw [hr.root, hroot]
    cases p with
    | nil => simp [plug, top]
    | cons f fs => simpa [top] using root_plug_cons ..
  · rw [rep_plug, rep_branch, rep_branch, root_branch, root_branch]
    refine ⟨?_, ?_, ⟨?_, ?_, ?_⟩, ?_⟩
    · refine hpath.rehole hnp ?_ fun z hz htop => ?_
      · rintro f fs rfl
        obtain ⟨hf, -, -⟩ := hpath
        rw [hr.above f.key rfl, hf]
        obtain hd | hd := d.eq_or_flip f.dir
        · simp [hd]
        · have hsib : f.sibling.root ≠ some x := fun e =>
            hxp (by simp [nodes, mem_inorder_of_root e])
          rw [hd, Cell.sided_flip]
          simp [hsib]
      · exact hr.frame z (hin z hz).1 (hin z hz).2.1 (hin z hz).2.2 htop
    · rw [hr.raised, hy]
      simp
    · rw [hr.pivot, hx]
      simp
    · refine ha.congr fun z hz => ?_
      exact hr.frame z (fun e => hxa (e ▸ hz)) (fun e => hya (e ▸ hz))
        (fun e => hab z hz z (.inl (hbr z e)) rfl) (fun e => hab z hz z (.inr (.inr (hpt z e))) rfl)
    · refine hb.reparent hnb (fun z hz => hr.moved z hz) fun z hz hne => ?_
      exact hr.frame z (fun e => hxb (e ▸ hz)) (fun e => hyb (e ▸ hz)) hne
        (fun e => hbt z hz z (.inr (hpt z e)) rfl)
    · refine ht.congr fun z hz => ?_
      exact hr.frame z (fun e => hxt (e ▸ hz)) (fun e => hyt (e ▸ hz))
        (fun e => hbt z (hbr z e) z (.inl hz) rfl) (fun e => htp z hz z (hpt z e) rfl)
  · rw [hperm.mem_iff] at hz
    simp only [mem_cons, mem_append, not_or] at hz
    obtain ⟨hzx, hzy, -, hzb, -, hzp⟩ := hz
    exact hr.frame z hzx hzy (fun e => hzb (hbr z e)) (fun e => hzp (hpt z e))

/-! ## Painting -/

@[simp] theorem paint_cell_self (h : Heap ι) (x : ι) (c : Color) : (h.paint x c).cell x = (h.cell x).setColor c :=
  modify_cell_self ..

@[simp] theorem paint_cell_ne {z : ι} (hz : z ≠ x) : (h.paint x c).cell z = h.cell z :=
  modify_cell_ne hz

@[simp] theorem paint_root (h : Heap ι) (x : ι) (c : Color) : (h.paint x c).root = h.root := rfl

theorem Holds.paint {d : Dir} {a b : Shape ι} (hh : h.Holds (p.plug (.branch d c a x b))) (e : Color) :
    Becomes h (p.plug (.branch d c a x b)) (h.paint x e) (p.plug (.branch d e a x b)) := by
  obtain ⟨hroot, hrep, hnd⟩ := hh
  have hnd' := ((inorder_plug_perm _ p).trans ((inorder_branch_perm d c a b x).append_right _)).nodup_iff.1 hnd
  simp only [cons_append, nodup_cons, mem_append, not_or] at hnd'
  obtain ⟨⟨⟨hxa, hxb⟩, hxp⟩, -⟩ := hnd'
  obtain ⟨hpath, hfocus⟩ := (rep_plug ..).1 hrep
  obtain ⟨hx, ha, hb⟩ := (rep_branch ..).1 hfocus
  have hio : (p.plug (.branch d e a x b)).inorder = (p.plug (.branch d c a x b)).inorder := by
    rw [inorder_plug, inorder_plug, ← paintRoot_branch d c e, inorder_paintRoot]
  refine ⟨⟨?_, (rep_plug ..).2 ⟨?_, (rep_branch ..).2 ⟨?_, ?_, ?_⟩⟩, hio ▸ hnd⟩, hio, fun z hz => ?_⟩
  · rw [paint_root, hroot]
    cases p with
    | nil => simp [plug]
    | cons f fs => exact root_plug_cons ..
  · rw [root_branch] at hpath ⊢
    exact hpath.congr fun z hz => paint_cell_ne fun eq => hxp (eq ▸ hz)
  · rw [paint_cell_self, hx, Cell.setColor_sided]
  · exact ha.congr fun z hz => paint_cell_ne fun eq => hxa (eq ▸ hz)
  · exact hb.congr fun z hz => paint_cell_ne fun eq => hxb (eq ▸ hz)
  · refine paint_cell_ne fun eq => hz (((inorder_plug_perm _ p).trans
      ((inorder_branch_perm d c a b x).append_right _)).mem_iff.2 ?_)
    simp [eq]

end Heap

end LimitlessOS.Lib.RedBlack
