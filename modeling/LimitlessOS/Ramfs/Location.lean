/-
  LimitlessOS.Ramfs.Location — where a node stands in the tree.

  `At fs names i` says that the names on the way from `i` up to the root are `names`. A node
  stands at one place only. A path without zero bytes leads to a node that stands where the
  path says, dots left out; a node that is created stands there too. Creating and writing
  leave every node where it is (`Grows`).

  Proved:
  - `IsTree.at_unique`: a node stands at one place.
  - `IsTree.openPath_at`, `IsTree.create_at`: what a path from the root opens, and what it creates.
  - `create_grows`, `write_grows`, `Grows.at_mono`: the nodes stay where they are.
  - `decimal_inj`: two numbers are not written alike.
-/
import LimitlessOS.Ramfs.Resolution

namespace LimitlessOS.Ramfs

open Lib List Option

variable {fs fs' : Ramfs}

/-! ## Texts -/

theorem toNat_digit {value : Nat} {c : Char} (h : c ∈ Nat.toDigits 10 value) :
    (UInt8.ofNat c.toNat).toNat = c.toNat ∧ 48 ≤ c.toNat ∧ c.toNat ≤ 57 := by
  have hdigit := Char.isDigit_iff_toNat.1 (Nat.isDigit_of_mem_toDigits (by decide) (by decide) h)
  have hzero : '0'.toNat = 48 := rfl
  have hnine : '9'.toNat = 57 := rfl
  rw [UInt8.toNat_ofNat']
  omega

theorem decimal_digit {value : Nat} {b : UInt8} (h : b ∈ decimal value) : 48 ≤ b.toNat ∧ b.toNat ≤ 57 := by
  obtain ⟨c, hc, rfl⟩ := mem_map.1 h
  obtain ⟨heq, hdigit⟩ := toNat_digit hc
  rwa [heq]

/-- A number with one digit more. -/
def withDigit (value : Nat) (digit : UInt8) : Nat := value * 10 + (digit.toNat - 48)

theorem decimal_value (value : Nat) : (decimal value).foldl withDigit 0 = value := by
  rw [decimal, foldl_map]
  conv_rhs => rw [← Nat.ofDigitChars_toDigits (b := 10) (n := value) (by decide) (by decide)]
  refine foldl_ext _ _ _ fun sum c hc => ?_
  rw [withDigit, (toNat_digit hc).1, Nat.mul_comm]
  rfl

theorem decimal_inj {m n : Nat} (h : decimal m = decimal n) : m = n := by
  rw [← decimal_value m, h, decimal_value]

theorem appendAll_eq {capacity : Nat} {written : List UInt8} (h : written.length ≤ capacity) (parts : List (List UInt8)) :
    appendAll capacity written parts =
      if written.length + parts.flatten.length ≤ capacity then some (written ++ parts.flatten) else none := by
  induction parts generalizing written with
  | nil => simp [appendAll, h]
  | cons part parts ih =>
    rw [appendAll, flatten_cons, length_append, ← append_assoc, ← Nat.add_assoc]
    split_ifs with hlong hfits hfits
    · omega
    · rfl
    · rw [ih (by rw [length_append]; omega), length_append, if_pos hfits]
    · rw [ih (by rw [length_append]; omega), length_append, if_neg hfits]

/-! ## The place of a node -/

/-- The names from the node up to the root. -/
def At (fs : Ramfs) : List (List UInt8) → Fin nodeLimit → Prop
  | [], i => i = 0
  | name :: above, i => (fs.nodes i).name.text = name ∧ ∃ d, fs.up i = some d ∧ fs.At above d

variable {i : Fin nodeLimit} {names : List (List UInt8)} {path : List UInt8}

theorem IsTree.at_unique (h : IsTree fs) {a b : List (List UInt8)} (ha : fs.At a i) (hb : fs.At b i) : a = b := by
  have hroot : ∀ {name above}, ¬ fs.At (name :: above) 0 := by
    rintro name above ⟨-, d, hd, -⟩
    simp [h.up_root] at hd
  induction a generalizing b i with
  | nil =>
    cases b with
    | nil => rfl
    | cons name above => exact absurd (ha ▸ hb) hroot
  | cons name a ih =>
    cases b with
    | nil => exact absurd (hb ▸ ha) hroot
    | cons name' b =>
      obtain ⟨rfl, d, hd, had⟩ := ha
      obtain ⟨rfl, d', hd', hbd⟩ := hb
      obtain rfl : d = d' := mem_unique hd hd'
      rw [ih had hbd]

/-- The names on a path: its segments, without the dots. -/
def namesOf (path : List UInt8) : List (List UInt8) := (segments path).filter fun segment => !(segment == [dot])

theorem IsTree.openSegments_at (h : IsTree fs) {start : Fin nodeLimit} {path above : List (List UInt8)}
    (h0 : ∀ segment ∈ path, (0 : UInt8) ∉ segment) (hs : (fs.nodes start).active) (hat : fs.At above start)
    (hopen : fs.openSegments start path = some i) :
    fs.At ((path.filter fun segment => !(segment == [dot])).reverse ++ above) i := by
  induction path generalizing start above with
  | nil =>
    obtain rfl : start = i := some.inj hopen
    exact hat
  | cons segment path ih =>
    have hrest : ∀ s ∈ path, (0 : UInt8) ∉ s := fun s hmem => h0 s (mem_cons_of_mem _ hmem)
    by_cases hdot : segment = [dot]
    · rw [hdot, openSegments_dot] at hopen
      rw [filter_cons_of_neg (by simp [hdot])]
      exact ih hrest hs hat hopen
    rw [openSegments_cons hdot] at hopen
    obtain ⟨child, hchild, hopen⟩ := bind_eq_some_iff.1 hopen
    obtain ⟨hactive, -, htext⟩ := findChild_some hchild
    rw [textEqualsSegment_iff (h0 segment mem_cons_self)] at htext
    have hbelow : fs.At (segment :: above) child := ⟨htext, start, h.up_of_findChild hs hchild, hat⟩
    rw [filter_cons_of_pos (by simp [hdot]), reverse_cons, append_assoc, singleton_append]
    exact ih hrest hactive hbelow hopen

/-- A path from the root starts there, with or without a slash. -/
theorem IsTree.baseDirectory_root (h : IsTree fs) (path : List UInt8) : fs.baseDirectory nodeRoot path = some 0 := by
  rw [Ramfs.baseDirectory, h.findNode_root]
  simp [h.root_type, h.root_id]

theorem IsTree.openPath_at (h : IsTree fs) (h0 : (0 : UInt8) ∉ path) (hopen : fs.openPath nodeRoot path = some i) :
    fs.At (namesOf path).reverse i ∧ (fs.nodes i).active := by
  rw [openPath, h.baseDirectory_root] at hopen
  have hat := h.openSegments_at (fun s hs => zero_notMem_segment hs h0) h.root_active (show fs.At [] 0 from rfl) hopen
  rw [append_nil] at hat
  exact ⟨hat, (h.openSegments_under h.root_active hopen).2⟩

/-! ## Nodes that stay -/

/-- Every node of the first table is still there, in its directory and with its name. -/
def Grows (fs fs' : Ramfs) : Prop :=
  ∀ i, (fs.nodes i).active = true → (fs'.nodes i).active = true ∧ (fs'.nodes i).parentId = (fs.nodes i).parentId ∧
    (fs'.nodes i).name = (fs.nodes i).name

theorem Grows.refl (fs : Ramfs) : Grows fs fs := fun _ hi => ⟨hi, rfl, rfl⟩

theorem Grows.trans {fs'' : Ramfs} (h : Grows fs fs') (h' : Grows fs' fs'') : Grows fs fs'' := by
  intro i hi
  obtain ⟨hi', hparent, hname⟩ := h i hi
  obtain ⟨hi'', hparent', hname'⟩ := h' i hi'
  exact ⟨hi'', hparent'.trans hparent, hname'.trans hname⟩

theorem create_grows (fs : Ramfs) (base : UInt32) (path : List UInt8) (type : NodeType) :
    Grows fs (fs.create base path type).2 := by
  rcases fs.create_cases base path type with heq | ⟨_, _, _, _, _, _, heq⟩ | ⟨parent, i, name, _, _, hi, _, heq⟩
  · rw [heq]
    exact .refl fs
  · rw [heq]
    exact .refl fs
  rw [heq]
  intro j hj
  have hji : j ≠ i := fun hji => by
    simp [hji, inactive_of_allocate hi] at hj
  rw [set_nodes_ne _ hji]
  exact ⟨hj, rfl, rfl⟩

theorem write_grows (fs : Ramfs) (id : UInt32) (offset : Nat) (source : List UInt8) :
    Grows fs (fs.write id offset source).2 := by
  rcases fs.write_cases id offset source with heq | ⟨i, contents, stored, hi, heq⟩
  · rw [heq]
    exact .refl fs
  rw [heq]
  intro j hj
  by_cases hji : j = i
  · subst hji
    rw [set_nodes_self]
    exact ⟨hj, rfl, rfl⟩
  · rw [set_nodes_ne _ hji]
    exact ⟨hj, rfl, rfl⟩

/-- A node whose record stays, and whose directory stays, is found in the same directory. -/
theorem IsTree.up_congr (h : IsTree fs) (h' : IsTree fs') {d : Fin nodeLimit}
    (hd : fs.up i = some d) (hparent : (fs'.nodes i).parentId = (fs.nodes i).parentId)
    (hactive : (fs'.nodes d).active) : fs'.up i = some d := by
  obtain ⟨hda, hid⟩ := h.up_iff.1 hd
  exact h'.up_iff.2 ⟨hactive, by rw [hparent, hid, h.number d hda, h'.number d hactive]⟩

theorem Grows.at_mono (hg : Grows fs fs') (h : IsTree fs) (h' : IsTree fs') (hi : (fs.nodes i).active) (hat : fs.At names i) :
    fs'.At names i := by
  induction names generalizing i with
  | nil => exact hat
  | cons name names ih =>
    obtain ⟨htext, d, hd, hat⟩ := hat
    obtain ⟨-, hparent, hname⟩ := hg i hi
    have hda := (h.up_iff.1 hd).1
    exact ⟨by rw [hname, htext], d, h.up_congr h' hd hparent (hg d hda).1, ih hda hat⟩

/-- Every node stands somewhere. -/
theorem IsTree.exists_at (h : IsTree fs) (hi : (fs.nodes i).active) : ∃ names, fs.At names i := by
  obtain ⟨k, hk⟩ := under_iff_climb.1 (h.rooted i hi)
  induction k generalizing i with
  | zero => exact ⟨[], some.inj hk⟩
  | succ k ih =>
    obtain ⟨d, hd, hk⟩ := bind_eq_some_iff.1 hk
    obtain ⟨names, hat⟩ := ih (h.up_iff.1 hd).1 hk
    exact ⟨_ :: names, rfl, d, hd, hat⟩

theorem Grows.at_iff (hg : Grows fs fs') (h : IsTree fs) (h' : IsTree fs') (hi : (fs.nodes i).active) :
    fs'.At names i ↔ fs.At names i := by
  refine ⟨fun hat => ?_, hg.at_mono h h' hi⟩
  obtain ⟨others, hothers⟩ := h.exists_at hi
  rwa [h'.at_unique hat (hg.at_mono h h' hi hothers)]

/-- What a create from the root gives stands where the path says. -/
theorem IsTree.create_at (h : IsTree fs) {type : NodeType} {id : UInt32} (h0 : (0 : UInt8) ∉ path)
    (hc : fs.create nodeRoot path type = (some id, fs')) (h' : IsTree fs') :
    ∃ i, (fs'.nodes i).active ∧ (fs'.nodes i).id = id ∧ fs'.At (namesOf path).reverse i := by
  rcases fs.create_cases nodeRoot path type with heq | ⟨parent, leaf, i, hwalk, hi, _, heq⟩ |
    ⟨parent, i, name, hwalk, _, hi, _, heq⟩
  · simp [hc] at heq
  · rw [hc] at heq
    obtain ⟨hid, rfl⟩ := Prod.mk.inj heq
    have hopen : fs'.openPath nodeRoot path = some i := (openPath_eq hwalk).trans hi
    obtain ⟨hat, hactive⟩ := h.openPath_at h0 hopen
    exact ⟨i, hactive, (some.inj hid).symm, hat⟩
  · have hgrows := fs.create_grows nodeRoot path type
    rw [hc] at heq hgrows
    obtain ⟨hid, rfl⟩ := Prod.mk.inj heq
    obtain ⟨start, before, hbase, hpath, hleaf, hopen⟩ := walkParent_split hwalk
    obtain rfl : (0 : Fin nodeLimit) = start := some.inj ((h.baseDirectory_root path).symm.trans hbase)
    have hzero : ∀ segment ∈ segments path, (0 : UInt8) ∉ segment := fun s hs => zero_notMem_segment hs h0
    have hname : name.text = name.bytes :=
      Name.text_of_terminated (hzero _ (by rw [hpath]; exact mem_append_right _ mem_cons_self))
    have hparent := h.openSegments_at (fun s hs => hzero s (by rw [hpath]; exact mem_append_left _ hs))
      h.root_active (show fs.At [] 0 from rfl) hopen
    have hpa := (h.openSegments_under h.root_active hopen).2
    have hnames : (namesOf path).reverse =
        name.bytes :: ((before.filter fun segment => !(segment == [dot])).reverse ++ []) := by
      rw [namesOf, hpath, filter_append, filter_cons_of_pos (by simp [hleaf])]
      simp
    refine ⟨i, by rw [set_nodes_self]; rfl, by rw [set_nodes_self]; exact (some.inj hid).symm, ?_⟩
    rw [hnames]
    refine ⟨by rw [set_nodes_self]; exact hname, parent, ?_, hgrows.at_mono h h' hpa hparent⟩
    have hpi : parent ≠ i := fun hpi => by
      have := inactive_of_allocate hi
      simp [← hpi, hpa] at this
    exact h'.up_iff.2 ⟨(hgrows parent hpa).1, by rw [set_nodes_self, set_nodes_ne _ hpi]; rfl⟩

/-! ## Places in a tree -/

namespace Tree

variable {t t' : Tree}

/-- The node with the number stands at the place. -/
def NodeAt (t : Tree) (names : List (List UInt8)) (id : UInt32) : Prop :=
  ∃ i, (t.fs.nodes i).active = true ∧ (t.fs.nodes i).id = id ∧ t.fs.At names i

variable {id base : UInt32} {path : List UInt8} {type : NodeType}

theorem NodeAt.unique {a b : List (List UInt8)} (ha : t.NodeAt a id) (hb : t.NodeAt b id) : a = b := by
  obtain ⟨i, hi, hid, hat⟩ := ha
  obtain ⟨j, hj, hid', hbt⟩ := hb
  obtain rfl : i = j := t.isTree.id_inj hi hj (hid.trans hid'.symm)
  exact t.isTree.at_unique hat hbt

theorem NodeAt.mono {names : List (List UInt8)} (h : t.NodeAt names id) (hg : Grows t.fs t'.fs) : t'.NodeAt names id := by
  obtain ⟨i, hi, hid, hat⟩ := h
  have hi' := (hg i hi).1
  refine ⟨i, hi', ?_, hg.at_mono t.isTree t'.isTree hi hat⟩
  rw [t'.isTree.number i hi', ← t.isTree.number i hi, hid]

theorem nodeAt_of_openPath (h0 : (0 : UInt8) ∉ path)
    (h : t.openPath nodeRoot path = some id) : t.NodeAt (namesOf path).reverse id := by
  obtain ⟨i, hi, hid⟩ := map_eq_some_iff.1 h
  obtain ⟨hat, hactive⟩ := t.isTree.openPath_at h0 hi
  exact ⟨i, hactive, hid, hat⟩

theorem create_grows {r : Option UInt32} (h : t.create base path type = (r, t')) : Grows t.fs t'.fs := by
  obtain ⟨-, rfl⟩ := Prod.mk.inj h
  exact t.fs.create_grows base path type

theorem nodeAt_of_create (h0 : (0 : UInt8) ∉ path) (h : t.create nodeRoot path type = (some id, t')) :
    t'.NodeAt (namesOf path).reverse id := by
  obtain ⟨hid, rfl⟩ := Prod.mk.inj h
  exact t.isTree.create_at h0 (Prod.ext hid rfl) (t.create nodeRoot path type).2.isTree

theorem write_grows {offset : Nat} {source : List UInt8} {r : Option Nat}
    (h : t.write id offset source = (r, t')) : Grows t.fs t'.fs := by
  obtain ⟨-, rfl⟩ := Prod.mk.inj h
  exact t.fs.write_grows id offset source

/-- A delete takes away the node the path leads to, and no other. -/
theorem delete_cases {r : Bool} (h : t.delete base path = (r, t')) :
    t' = t ∨ ∃ id, t.openPath base path = some id ∧
      ∀ {names other}, other ≠ id → t.NodeAt names other → t'.NodeAt names other := by
  have hfs : t'.fs = (t.fs.delete base path).2 := (congrArg (fun r => r.2.fs) h).symm
  rcases t.fs.delete_cases base path with heq | ⟨parent, leaf, i, hwalk, hi, -, -, heq⟩
  · rw [heq] at hfs
    cases t
    cases t'
    exact .inl (by simpa using hfs)
  rw [heq] at hfs
  refine .inr ⟨(t.fs.nodes i).id, by rw [openPath, openPath_eq hwalk, hi]; rfl, ?_⟩
  rintro names other hother ⟨j, hj, rfl, hat⟩
  have hback : Grows t'.fs t.fs := by
    intro k hk
    rw [hfs] at hk ⊢
    have hki : k ≠ i := fun hki => by
      rw [hki, set_nodes_self] at hk
      cases hk
    rw [set_nodes_ne _ hki] at hk ⊢
    exact ⟨hk, rfl, rfl⟩
  have hkept : t'.fs.nodes j = t.fs.nodes j := by
    rw [hfs]
    exact set_nodes_ne _ fun hji => hother (by rw [hji])
  exact ⟨j, by rw [hkept, hj], by rw [hkept], (hback.at_iff t'.isTree t.isTree (by rw [hkept, hj])).1 hat⟩

end Tree

end LimitlessOS.Ramfs
