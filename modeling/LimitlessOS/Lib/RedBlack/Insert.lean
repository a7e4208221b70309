/-
  LimitlessOS.Lib.RedBlack.Insert — insertion and lookup in an intrusive red-black tree.

  Insertion hangs a red node below the leaf the search ends in and then walks up:
  past a red uncle by recolouring, else by one or two rotations. Loops run on fuel;
  the results say how much is enough.

  Proved:
  - `Holds.fixup`: with fuel above the path's length the loop computes `Path.climb`,
    and writes no cell outside the tree.
  - `Holds.insert`: inserting a node whose key is new into a red-black search tree
    gives a red-black search tree with that node in its place.
  - `Rep.lookup`: the descent finds the node the comparison singles out, and nothing
    else.
-/
import LimitlessOS.Lib.RedBlack.Heap

namespace LimitlessOS.Lib.RedBlack

open RedBlack.Path Heap Holds Nat
open List hiding after

variable {ι : Type}

namespace Heap

/-! ## Descents -/

section Descent

variable {κ : Type} [LinearOrder κ] {t : Shape ι} {h : Heap ι} {parent : Option ι} {fuel : Nat}

/-- Descend to the node that the key `k` hangs from; no answer if the key is taken. -/
def slot (h : Heap ι) (key : ι → κ) (k : κ) : Nat → Option ι → Option ι → Option (Option ι)
  | _, parent, none => some parent
  | 0, _, some _ => none
  | fuel + 1, _, some c =>
    if k < key c then slot h key k fuel (some c) (h.cell c).left
    else if key c < k then slot h key k fuel (some c) (h.cell c).right
    else none

theorem Holds.slot {key : ι → κ} {k : κ} {p : Path ι} (hh : h.Holds (p.plug t)) (hfuel : t.inorder.length ≤ fuel) :
    h.slot key k fuel p.top t.root = (descend key k t p).map top := by
  induction t generalizing p fuel with
  | leaf => cases fuel <;> rfl
  | node c l y r ihl ihr =>
    simp only [Shape.inorder, length_append, length_cons] at hfuel
    obtain ⟨n, rfl⟩ : ∃ n, fuel = n + 1 := ⟨fuel - 1, by omega⟩
    have hleft := ihl (p := ⟨.left, c, y, r⟩ :: p) hh (show _ ≤ n by omega)
    have hright := ihr (p := ⟨.right, c, y, l⟩ :: p) hh (show _ ≤ n by omega)
    simp only [top] at hleft hright
    simp only [Shape.root_node, slot, hh.cell_focus, hleft, hright, descend]
    split
    · rfl
    · split <;> rfl

/-- Descend to the node that `cmp` calls equal, with the number of nodes visited. -/
def lookup (h : Heap ι) (cmp : ι → Ordering) : Nat → Option ι → Option ι × Nat
  | 0, _ => (none, 0)
  | _ + 1, none => (none, 0)
  | fuel + 1, some c =>
    match cmp c with
    | .eq => (some c, 1)
    | .lt => ((lookup h cmp fuel (h.cell c).left).1, (lookup h cmp fuel (h.cell c).left).2 + 1)
    | .gt => ((lookup h cmp fuel (h.cell c).right).1, (lookup h cmp fuel (h.cell c).right).2 + 1)

/-- Where the nodes before the target compare greater and those after it less, the descent is a search. -/
theorem Rep.lookup {cmp : ι → Ordering} (hrep : Rep h.cell parent t)
    (hord : t.inorder.Pairwise fun a b => cmp a = .gt ∨ cmp b = .lt) (hfuel : t.inorder.length ≤ fuel) :
    (h.lookup cmp fuel t.root).1 = t.inorder.find? (cmp · == .eq) := by
  induction t generalizing parent fuel with
  | leaf => cases fuel <;> rfl
  | node c l y r ihl ihr =>
    obtain ⟨hy, hl, hr⟩ := hrep
    simp only [Shape.inorder, length_append, length_cons, pairwise_append, pairwise_cons,
      mem_cons] at hfuel hord
    obtain ⟨hol, ⟨hyr, hor⟩, hly⟩ := hord
    obtain ⟨n, rfl⟩ : ∃ n, fuel = n + 1 := ⟨fuel - 1, by omega⟩
    simp only [Shape.root_node, lookup, hy, Shape.inorder, find?_append, find?_cons]
    cases hc : cmp y with
    | lt =>
      have hnone : r.inorder.find? (cmp · == .eq) = none := by
        simp only [find?_eq_none, beq_iff_eq]
        intro z hz
        obtain h | h := hyr z hz <;> simp_all
      simp [ihl hl hol (show _ ≤ n by omega), hnone]
    | eq =>
      have hnone : l.inorder.find? (cmp · == .eq) = none := by
        simp only [find?_eq_none, beq_iff_eq]
        intro z hz
        obtain h | h := hly z hz y (.inl rfl) <;> simp_all
      simp [hnone]
    | gt =>
      have hnone : l.inorder.find? (cmp · == .eq) = none := by
        simp only [find?_eq_none, beq_iff_eq]
        intro z hz
        obtain h | h := hly z hz y (.inl rfl) <;> simp_all
      simp [ihr hr hor (show _ ≤ n by omega), hnone]

/-- A descent visits at most two nodes for each black node on its way. -/
theorem Rep.visits_le {n : Nat} (hrep : Rep h.cell parent t) (hb : t.Balanced n) (cmp : ι → Ordering) (fuel : Nat) :
    (h.lookup cmp fuel t.root).2 ≤ 2 * n + if t.rootColor = .red then 1 else 0 := by
  induction t generalizing parent fuel n with
  | leaf => cases fuel <;> exact zero_le _
  | node c l y r ihl ihr =>
    obtain ⟨hy, hl, hr⟩ := hrep
    cases fuel with
    | zero => exact zero_le _
    | succ fuel =>
      have hsides : (h.lookup cmp fuel l.root).2 + 1 ≤ (2 * n + if c = .red then 1 else 0) ∧
          (h.lookup cmp fuel r.root).2 + 1 ≤ 2 * n + if c = .red then 1 else 0 := by
        cases c with
        | red =>
          obtain ⟨hlc, hrc, hbl, hbr⟩ := hb
          have hleft := ihl hl hbl fuel
          have hright := ihr hr hbr fuel
          simp only [hlc, hrc] at hleft hright
          exact ⟨succ_le_succ hleft, succ_le_succ hright⟩
        | black =>
          obtain ⟨m, rfl, hbl, hbr⟩ := hb
          have hleft := ihl hl hbl fuel
          have hright := ihr hr hbr fuel
          split_ifs at hleft hright ⊢ <;> omega
      simp only [Shape.root_node, Heap.lookup, hy, Shape.rootColor]
      cases cmp y with
      | lt => exact hsides.1
      | eq => exact le_trans (le_add_left _ _) hsides.1
      | gt => exact hsides.2

/-- A search of a red-black tree is logarithmic. -/
theorem Holds.visits_le (hh : h.Holds t) (hrb : IsRedBlack t) (cmp : ι → Ordering) (fuel : Nat) :
    (h.lookup cmp fuel h.root).2 ≤ 2 * (t.inorder.length + 1).log2 := by
  obtain ⟨n, hb⟩ := hrb.balanced
  have hvisits := Rep.visits_le hh.rep hb cmp fuel
  rw [← hh.root, hrb.rootBlack] at hvisits
  exact hvisits.trans (mul_le_mul_left 2 hb.le_log2)

end Descent

variable [DecidableEq ι]

/-! ## The loop after an insertion -/

/-- The parent black, the grandparent red, and a rotation of the grandparent away from side `d`. -/
def settle (h : Heap ι) (d : Dir) : Option ι → Option ι → Heap ι
  | some parent, some grand => ((h.paint parent .black).paint grand .red).rotate d.flip grand
  | _, _ => h

/-- A black uncle: an inner grandchild is first rotated to the outside. -/
def fixupRotate (h : Heap ι) (d : Dir) (node parent grand : ι) : Heap ι × ι :=
  if (h.cell parent).child d.flip = some node then
    let h := h.rotate d parent
    let up := (h.cell parent).parent
    (h.settle d up (up.bind fun q => (h.cell q).parent), parent)
  else (h.settle d (some parent) (some grand), node)

/-- One iteration: the red `parent` hangs on side `d` of `grand`. -/
def fixupStep (h : Heap ι) (d : Dir) (node parent grand : ι) : Heap ι × ι :=
  match (h.cell grand).child d.flip with
  | none => h.fixupRotate d node parent grand
  | some uncle =>
    if (h.cell uncle).color = .red then
      (((h.paint parent .black).paint uncle .black).paint grand .red, grand)
    else h.fixupRotate d node parent grand

/-- Walk up from a red `node` while its parent is red. -/
def fixup : Nat → Heap ι → ι → Heap ι
  | 0, h, _ => h
  | fuel + 1, h, node =>
    match (h.cell node).parent with
    | none => h
    | some parent =>
      if (h.cell parent).color = .black then h
      else
        match (h.cell parent).parent with
        | none => h
        | some grand =>
          let d := if (h.cell grand).left = some parent then Dir.left else Dir.right
          let next := h.fixupStep d node parent grand
          fixup fuel next.1 next.2

def blackenRoot (h : Heap ι) : Heap ι :=
  match h.root with
  | none => h
  | some r => h.paint r .black

section Loop

variable {h : Heap ι} {a b t : Shape ι} {x : ι} {f g : Frame ι} {fs p : Path ι}

theorem Holds.side {z : ι} (hh : h.Holds (plug t (f :: fs))) (hz : t.root = some z) :
    (if (h.cell f.key).left = some z then Dir.left else Dir.right) = f.dir := by
  rw [hh.cell_top, hz]
  cases hd : f.dir with
  | left => simp [Cell.sided]
  | right => simp [Cell.sided, hh.root_ne hz]

/-- A red uncle: the parent and the uncle turn black and the grandparent is the next red node. -/
theorem Holds.fixupStep_recolor (hh : h.Holds (plug (.node .red a x b) (f :: g :: fs)))
    (hu : g.sibling.rootColor = .red) :
    (h.fixupStep g.dir x f.key g.key).2 = g.key ∧
      Becomes h (plug (.node .red a x b) (f :: g :: fs)) (h.fixupStep g.dir x f.key g.key).1
        (plug (.node .red (pick g.dir (blackParent a x b f) (g.sibling.paintRoot .black)) g.key
          (pick g.dir (g.sibling.paintRoot .black) (blackParent a x b f))) fs) := by
  obtain ⟨gd, gc, gk, gs⟩ := g
  match gs, hu, hh with
  | .node .red l u r, _, hh =>
    have hparent : h.Holds (plug (.branch f.dir f.color (.node .red a x b) f.key f.sibling)
      (⟨gd, gc, gk, .node .red l u r⟩ :: fs)) := hh
    have hgrand := hparent.cell_top
    have huncle : h.Holds (plug (.node .red l u r) (⟨gd.flip, gc, gk, _⟩ :: fs)) :=
      plug_flip .. ▸ hparent
    -- paint the parent, then the uncle seen from the grandparent's other side, then the grandparent
    have h1 := hparent.paint .black
    have h2 : Becomes (h.paint f.key .black)
        (plug (blackParent a x b f) (⟨gd, gc, gk, .node .red l u r⟩ :: fs))
        ((h.paint f.key .black).paint u .black)
        (plug (blackParent a x b f) (⟨gd, gc, gk, .node .black l u r⟩ :: fs)) := by
      have hfocus := h1.holds
      rw [← plug_flip] at hfocus
      rw [← plug_flip _ (.node .red l u r), ← plug_flip _ (.node .black l u r)]
      exact paint (d := .left) hfocus .black
    have h3 := paint (d := gd) (p := fs) h2.holds .red
    simp only [fixupStep, hgrand, Cell.child_flip_sided, Shape.root, huncle.cell_focus, if_true, Shape.paintRoot,
      true_and]
    rw [node_pick]
    exact (h1.trans h2).trans h3

theorem Holds.settle {d : Dir} {c e : Color} {near far u : Shape ι} {parent grand : ι}
    (hh : h.Holds (p.plug (.branch d e (.branch d c near parent far) grand u))) :
    Becomes h (p.plug (.branch d e (.branch d c near parent far) grand u)) (h.settle d (some parent) (some grand))
      (p.plug (.branch d .black near parent (.branch d .red far grand u))) := by
  have h1 : Becomes h _ _ (plug (.branch d .black near parent far) (⟨d, e, grand, u⟩ :: p)) :=
    paint (p := ⟨d, e, grand, u⟩ :: p) hh .black
  have h2 : Becomes _ _ _ (p.plug (.branch d .red (.branch d .black near parent far) grand u)) :=
    paint (p := p) h1.holds .red
  -- seen from the other side this is a rotation of the grandparent
  have h3 := h2.holds
  rw [← Shape.branch_flip d .red, ← Shape.branch_flip d .black] at h3
  have h4 := h3.rotate
  rw [Shape.branch_flip, Shape.branch_flip, Shape.branch_flip, Shape.branch_flip] at h4
  exact (h1.trans h2).trans h4

/-- A black uncle: the rotations put the shape `rotated` in the grandparent's place, and the node the
loop goes on with has a black parent. -/
theorem Holds.fixupRotate (hh : h.Holds (plug (.node .red a x b) (f :: g :: fs))) (hf : f.color = .red) :
    let r := h.fixupRotate g.dir x f.key g.key
    Becomes h (plug (.node .red a x b) (f :: g :: fs)) r.1 (plug (rotated a x b f g) fs) ∧
      ∃ q, (r.1.cell r.2).parent = some q ∧ (r.1.cell q).color = .black := by
  dsimp only
  have hparent := hh.cell_top
  obtain hd | hd := g.dir.eq_or_flip f.dir
  · -- an outer grandchild
    have houter : (h.cell f.key).child g.dir.flip ≠ some x := by
      rw [hparent, hd, Cell.child_flip_sided]
      exact hh.root_ne rfl
    simp only [plug, hd] at hh ⊢
    have hs := hh.settle
    simp only [Heap.fixupRotate, houter, if_false, rotated, hd, if_true]
    exact ⟨hs, hs.holds.black_parent rfl⟩
  · -- an inner one
    have hinner : (h.cell f.key).child g.dir.flip = some x := by
      rw [hparent, hd]
      simp [Shape.root]
    have heq : plug (.node .red a x b) (f :: g :: fs) = plug (.branch g.dir .red f.sibling f.key
      (.branch g.dir .red (pick g.dir a b) x (pick g.dir b a))) (g :: fs) := by
      rw [plug, hd, hf, Shape.branch_flip, branch_pick]
    rw [heq] at hh ⊢
    have hr := hh.rotate
    have hxcell := (rep_branch ..).1 ((rep_plug ..).1 hr.holds.rep).2
    have hs := settle (p := fs) hr.holds
    have hup : ((h.rotate g.dir f.key).cell f.key).parent = some x := hxcell.2.1.parent_root (by simp)
    have hgrand : ((h.rotate g.dir f.key).cell x).parent = some g.key := by rw [hxcell.1]; simp [top]
    have hne : f.dir ≠ g.dir := by rw [hd]; exact g.dir.flip_ne
    simp only [Heap.fixupRotate, hinner, if_true, hup, Option.bind_some, hgrand, rotated, hne, if_false]
    exact ⟨hr.trans hs, hs.holds.black_parent (by simp)⟩

theorem Holds.fixupStep_rotate (hh : h.Holds (plug (.node .red a x b) (f :: g :: fs)))
    (hu : g.sibling.rootColor = .black) :
    h.fixupStep g.dir x f.key g.key = h.fixupRotate g.dir x f.key g.key := by
  have hgrand : h.cell g.key = _ := cell_top (t := .branch f.dir f.color (.node .red a x b) f.key f.sibling) hh
  simp only [fixupStep, hgrand, Cell.child_flip_sided]
  match hs : g.sibling, hu with
  | .leaf, _ => rfl
  | .node .black l u r, _ =>
    have huncle : Rep h.cell (some g.key) g.sibling := ((rep_plug ..).1 hh.rep).1.2.2.2.1
    rw [hs] at huncle
    simp [Shape.root, huncle.1]

/-- A node whose parent is black ends the loop. -/
theorem fixup_black {node q : ι} (hq : (h.cell node).parent = some q) (hc : (h.cell q).color = .black) (fuel : Nat) :
    h.fixup fuel node = h := by
  cases fuel with
  | zero => rfl
  | succ n => simp [fixup, hq, hc]

theorem Holds.fixup {fuel : Nat} (hh : h.Holds (p.plug (.node .red a x b))) (hfuel : p.length < fuel) :
    Becomes h (p.plug (.node .red a x b)) (h.fixup fuel x) (Path.climb a x b p) := by
  obtain ⟨fuel, rfl⟩ : ∃ n, fuel = n + 1 := ⟨fuel - 1, by omega⟩
  fun_induction Path.climb a x b p generalizing h fuel with
  | case1 a x b f g fs hf =>
    rw [fixup_black (q := f.key) (by rw [hh.cell_focus]; rfl) (by rw [hh.cell_top]; simp [hf])]
    exact hh.becomes
  | case2 a x b f g fs hf hu ih =>
    have hgrand : h.Holds (plug (.branch f.dir f.color (.node .red a x b) f.key f.sibling) (g :: fs)) := hh
    obtain ⟨hnode, hstep⟩ := hh.fixupStep_recolor hu
    obtain ⟨n, rfl⟩ : ∃ n, fuel = n + 1 := ⟨fuel - 1, by simp at hfuel; omega⟩
    have hnext := ih hstep.holds n (by simp at hfuel; omega)
    have hside := hgrand.side (z := f.key) (by simp)
    simp only [fixup, hh.cell_focus, hh.cell_top, top, Cell.color_sided, Cell.parent_sided, hf, if_false,
      hside, hnode] at hnext ⊢
    exact hstep.trans hnext
  | case3 a x b f g fs hf hu =>
    have hf' : f.color = .red := by cases h : f.color <;> simp_all
    have hu' : g.sibling.rootColor = .black := by cases h : g.sibling.rootColor <;> simp_all
    have hgrand : h.Holds (plug (.branch f.dir f.color (.node .red a x b) f.key f.sibling) (g :: fs)) := hh
    obtain ⟨hstep, q, hq, hqc⟩ := hh.fixupRotate hf'
    have hside := hgrand.side (z := f.key) (by simp)
    simp only [fixup, hh.cell_focus, hh.cell_top, top, Cell.color_sided, Cell.parent_sided, hf, if_false,
      hside, hh.fixupStep_rotate hu', fixup_black hq hqc]
    exact hstep
  | case4 a x b p hshort =>
    rcases p with _ | ⟨f, _ | ⟨g, fs⟩⟩
    · simp only [fixup, hh.cell_focus, top]
      exact hh.becomes
    · -- a red parent without a grandparent also ends the loop
      simp only [fixup, hh.cell_focus, top, hh.cell_top, Cell.parent_sided, ite_self]
      exact hh.becomes
    · exact (hshort f g fs rfl).elim

theorem Holds.blackenRoot (hh : h.Holds t) : Becomes h t h.blackenRoot (t.paintRoot .black) := by
  cases t with
  | leaf =>
    have hroot : h.root = none := hh.root
    simp only [blackenRoot, hroot]
    exact hh.becomes
  | node c l x r =>
    have hroot : h.root = some x := hh.root
    simp only [blackenRoot, hroot]
    exact paint (p := []) (d := .left) hh .black

end Loop

/-! ## Insertion -/

section Insert

variable {κ : Type} [LinearOrder κ] {key : ι → κ} {h : Heap ι}

/-- Hang the cleared node `x` from `parent`, or make it the root. -/
def link (h : Heap ι) (key : ι → κ) (x : ι) (parent : Option ι) : Heap ι :=
  let h := h.modify x (·.setParent parent)
  match parent with
  | none => { h with root := some x }
  | some q => h.modify q (·.setChild (if key x < key q then .left else .right) (some x))

/-- Insert `x`; refused, with its cell cleared, if its key is taken. -/
def insert (h : Heap ι) (key : ι → κ) (fuel : Nat) (x : ι) : Bool × Heap ι :=
  let h := h.modify x fun _ => ⟨none, none, none, .red⟩
  match h.slot key (key x) fuel none h.root with
  | none => (false, h)
  | some parent => (true, ((h.link key x parent).fixup fuel x).blackenRoot)

theorem Holds.link {x : ι} {p : Path ι} (hh : h.Holds (p.plug .leaf)) (hx : x ∉ (p.plug .leaf).inorder)
    (hcell : h.cell x = ⟨none, none, none, .red⟩) (hsep : Separates key (key x) p) :
    (h.link key x p.top).Holds (p.plug (.node .red .leaf x .leaf)) ∧
      ∀ z ∉ (p.plug .leaf).inorder, z ≠ x → (h.link key x p.top).cell z = h.cell z := by
  obtain ⟨hroot, hrep, hnd⟩ := hh
  obtain ⟨hpath, -⟩ := (rep_plug ..).1 hrep
  have hperm := inorder_plug_perm .leaf p
  have hxp : x ∉ p.nodes := fun h => hx (hperm.mem_iff.2 (by simpa [Shape.inorder] using h))
  have hnp : p.nodes.Nodup := by simpa [Shape.inorder] using hperm.nodup_iff.1 hnd
  have hnd' : (p.plug (.node .red .leaf x .leaf)).inorder.Nodup := by
    rw [(inorder_plug_perm _ p).nodup_iff]
    simpa [Shape.inorder] using ⟨hxp, hnp⟩
  cases p with
  | nil =>
    refine ⟨⟨rfl, ⟨?_, trivial, trivial⟩, hnd'⟩, fun z _ hz => ?_⟩
    · simp [Heap.link, top, hcell, Cell.setParent, modify]
    · simp [Heap.link, top, modify, hz]
  | cons f fs =>
    have hne : x ≠ f.key := fun e => hxp (by simp [nodes, e])
    have hlink : h.link key x (top (f :: fs)) =
        (h.modify x (·.setParent (some f.key))).modify f.key (·.setChild f.dir (some x)) := by
      simp only [Heap.link, top, hsep.dir]
    rw [hlink]
    refine ⟨⟨?_, (rep_plug ..).2 ⟨hpath.rehole hnp ?_ ?_, ?_, trivial, trivial⟩, hnd'⟩, ?_⟩
    · exact hroot.trans (root_plug_cons ..)
    · rintro f' fs' heq
      cases heq
      simp [Shape.root, hne.symm]
    · intro z hz htop
      have hzx : z ≠ x := fun e => hxp (e ▸ hz)
      have hzf : z ≠ f.key := fun e => htop (congrArg some e.symm)
      simp [hzx, hzf]
    · simp [hne, hcell, Cell.setParent, Shape.root, top]
    · intro z hz hzx
      have hzf : z ≠ f.key := fun e => hz (hperm.mem_iff.2 (by simp [nodes, e]))
      simp [hzx, hzf]

/-- The result of inserting `x` into the tree `t`: the same nodes with `x` in its place. -/
structure Inserted (h : Heap ι) (key : ι → κ) (t : Shape ι) (x : ι) (h' : Heap ι) : Prop where
  exists_shape : ∃ t' before after, h'.Holds t' ∧ IsRedBlack t' ∧ t.inorder = before ++ after ∧
    t'.inorder = before ++ x :: after ∧ (∀ z ∈ before, key z < key x) ∧ ∀ z ∈ after, key x < key z
  frame : ∀ z ∉ t.inorder, z ≠ x → h'.cell z = h.cell z

theorem Holds.insert {x : ι} {t : Shape ι} {fuel : Nat} (hh : h.Holds t) (hrb : IsRedBlack t)
    (hord : t.inorder.Pairwise (key · < key ·)) (hx : ∀ z ∈ t.inorder, key z ≠ key x) (hfuel : t.inorder.length < fuel) :
    (h.insert key fuel x).1 ∧ Inserted h key t x (h.insert key fuel x).2 := by
  have hxt : x ∉ t.inorder := fun hmem => hx x hmem rfl
  obtain ⟨p, hp, hplug, hsep⟩ := exists_descend (p := []) hord hx
    ⟨by simp [before], by simp [after]⟩
  -- clearing the new node's cell does not touch the tree
  have hclear : (h.modify x fun _ => ⟨none, none, none, .red⟩).Holds t :=
    hh.congr rfl fun z hz => modify_cell_ne fun e => hxt (e ▸ hz)
  have hslot : _ = (descend key (key x) t []).map top := slot (p := []) hclear hfuel.le
  rw [hp, ← hclear.root] at hslot
  subst hplug
  obtain ⟨hlink, hlinkframe⟩ := hclear.link hxt (modify_cell_self ..) hsep
  have hlen : p.length < fuel := by
    have hnodes : p.length ≤ p.nodes.length := p.length_le_nodes
    have hperm := (inorder_plug_perm .leaf p).length_eq
    simp only [Shape.inorder, nil_append] at hperm
    omega
  have hfix := hlink.fixup hlen
  have hdone := hfix.trans hfix.holds.blackenRoot
  have hins : h.insert key fuel x = (true,
      ((((h.modify x fun _ => ⟨none, none, none, .red⟩).link key x p.top).fixup fuel x).blackenRoot)) := by
    simp only [Heap.insert, top] at hslot ⊢
    rw [hslot]
    rfl
  rw [hins]
  refine ⟨rfl, ⟨_, p.before, p.after, hdone.holds, ?_, ?_, ?_, hsep.before, hsep.after⟩, fun z hz hzx => ?_⟩
  · obtain ⟨n, hleaf, hfits⟩ := (isRedBlack_plug _ _).1 hrb
    exact isRedBlack_repair x hleaf hleaf rfl rfl hfits
  · simp [inorder_plug, Shape.inorder]
  · rw [hdone.inorder, inorder_plug]
    simp [Shape.inorder]
  have hz' : z ∉ (p.plug (.node .red .leaf x .leaf)).inorder := by
    rw [inorder_plug] at hz ⊢
    simp only [Shape.inorder, mem_append, mem_singleton, nil_append, not_or] at hz ⊢
    exact ⟨⟨hz.1.1, hzx⟩, hz.2⟩
  rw [hdone.frame z hz', hlinkframe z hz hzx, modify_cell_ne hzx]

end Insert

end Heap

end LimitlessOS.Lib.RedBlack
