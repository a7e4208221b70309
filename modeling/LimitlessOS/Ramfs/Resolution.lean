/-
  LimitlessOS.Ramfs.Resolution — what paths lead to after a create, a move and a delete.

  A walk takes one directory entry after the other. Each mutation changes the answer of
  one or two entries; every walk that takes none of them ends where it did before. That a
  walk to a directory does not take the entry of a node below it comes from the tree.

  Proved:
  - `openSegments_congr`: a walk is the same if the entries it takes are.
  - `findChild_moved`, `findChild_deleted`, `findChild_created`: the entries a mutation changes.
  - `resolution_iff`: what the calls do to paths without zero bytes, and when.

  `resolution_fails`: a second name in the directory that ends at a zero byte takes the place
  of a deleted node.
-/
import LimitlessOS.Ramfs.Tree

namespace LimitlessOS.Ramfs

open Lib Option Slots

variable {fs fs' : Ramfs}

/-! ## Entries and walks -/

/-- `i` is a record of the directory that the segment names. -/
def Names (fs : Ramfs) (directory : Fin nodeLimit) (segment : List UInt8) (i : Fin nodeLimit) : Prop :=
  (fs.nodes i).active = true ∧ (fs.nodes i).parentId = (fs.nodes directory).id ∧
    textEqualsSegment (fs.nodes i).memory segment = true

variable {name : Name} {base : UInt32} {type : NodeType} {leaf path segment : List UInt8}
  {directory i parent start : Fin nodeLimit}

theorem names_iff (h0 : (0 : UInt8) ∉ segment) : Names fs directory segment i ↔ (fs.nodes i).active ∧
      (fs.nodes i).parentId = (fs.nodes directory).id ∧ (fs.nodes i).name.text = segment := by
  rw [Names, textEqualsSegment_iff h0]

theorem findChild_congr (h : ∀ i, Names fs' directory segment i ↔ Names fs directory segment i) :
    fs'.findChild directory segment = fs.findChild directory segment := by
  unfold findChild first
  split
  · rfl
  congr 1
  funext i
  have hi := h i
  simp only [Names] at hi
  rw [Bool.eq_iff_iff]
  simpa [and_assoc] using hi

theorem findChild_none (hne : segment ≠ []) :
    fs.findChild directory segment = none ↔ ∀ i, ¬ Names fs directory segment i := by
  rw [findChild, if_neg hne, first_none]
  refine forall_congr' fun i => ?_
  rw [← Bool.not_eq_true]
  simp [Names, and_assoc]

theorem findChild_of_unique (hne : segment ≠ [])
    (hi : Names fs directory segment i) (h : ∀ j, Names fs directory segment j → j = i) :
    fs.findChild directory segment = some i := by
  rw [findChild, if_neg hne]
  refine first_of_unique ?_ fun j hj => h j ?_
  · simpa [Names, and_assoc] using hi
  · simpa [Names, and_assoc] using hj

/-- The walk looks up the segment in the directory. -/
def Takes (fs : Ramfs) (start : Fin nodeLimit) (path : List (List UInt8)) (directory : Fin nodeLimit)
    (segment : List UInt8) : Prop :=
  ∃ before after, path = before ++ segment :: after ∧ segment ≠ [dot] ∧ fs.openSegments start before = some directory

theorem openSegments_dot (start : Fin nodeLimit) (path : List (List UInt8)) :
    fs.openSegments start ([dot] :: path) = fs.openSegments start path := by
  simp [openSegments]

theorem openSegments_cons (h : segment ≠ [dot]) (path : List (List UInt8)) : fs.openSegments start (segment :: path) =
      (fs.findChild start segment).bind fun child => fs.openSegments child path := by
  rw [openSegments, if_neg h]
  cases fs.findChild start segment <;> rfl

theorem openSegments_append (start : Fin nodeLimit) (a b : List (List UInt8)) :
    fs.openSegments start (a ++ b) = (fs.openSegments start a).bind fun d => fs.openSegments d b := by
  induction a generalizing start with
  | nil => rfl
  | cons segment a ih =>
    rw [List.cons_append]
    by_cases hdot : segment = [dot]
    · rw [hdot, openSegments_dot, openSegments_dot, ih]
    · rw [openSegments_cons hdot, openSegments_cons hdot, bind_assoc]
      exact congrArg _ (funext ih)

section

variable {path : List (List UInt8)}

theorem Takes.dot (h : Takes fs start path directory segment) : Takes fs start ([Ramfs.dot] :: path) directory segment := by
  obtain ⟨before, after, rfl, hdot, hopen⟩ := h
  exact ⟨[Ramfs.dot] :: before, after, rfl, hdot, by rwa [openSegments_dot]⟩

theorem Takes.cons {child : Fin nodeLimit} {first : List UInt8} (hfirst : first ≠ [Ramfs.dot])
    (hchild : fs.findChild start first = some child) (h : Takes fs child path directory segment) :
    Takes fs start (first :: path) directory segment := by
  obtain ⟨before, after, rfl, hdot, hopen⟩ := h
  exact ⟨first :: before, after, rfl, hdot, by rw [openSegments_cons hfirst, hchild]; exact hopen⟩

/-- A walk is the same if the entries it takes are. -/
theorem openSegments_congr
    (h : ∀ directory segment, Takes fs start path directory segment → fs'.findChild directory segment =
      fs.findChild directory segment) :
    fs'.openSegments start path = fs.openSegments start path := by
  induction path generalizing start with
  | nil => rfl
  | cons segment path ih =>
    by_cases hdot : segment = [dot]
    · subst hdot
      exact ih fun d s hd => h d s hd.dot
    · rw [openSegments_cons hdot, openSegments_cons hdot, h start segment ⟨[], path, rfl, hdot, rfl⟩]
      cases hchild : fs.findChild start segment with
      | none => rfl
      | some child => exact ih fun d s hd => h d s (.cons hdot hchild hd)

/-- The walk to a leaf is a walk to its directory and one more entry. -/
theorem walkSegments_split {current : Fin nodeLimit} (h : fs.walkSegments current path = some (parent, leaf)) :
    ∃ before, path = before ++ [leaf] ∧ leaf ≠ [dot] ∧ fs.openSegments current before = some parent := by
  induction path generalizing current with
  | nil => simp [walkSegments] at h
  | cons segment path ih =>
    rw [walkSegments] at h
    split_ifs at h with hdot hrest
    · obtain ⟨before, rfl, hleaf, hopen⟩ := ih h
      exact ⟨segment :: before, rfl, hleaf, by rw [hdot, openSegments_dot, hopen]⟩
    · obtain ⟨rfl, rfl⟩ := Prod.mk.inj (some.inj h)
      exact ⟨[], by rw [hrest]; rfl, hdot, rfl⟩
    split at h
    · cases h
    · rename_i child hchild
      split_ifs at h
      obtain ⟨before, rfl, hleaf, hopen⟩ := ih h
      exact ⟨segment :: before, rfl, hleaf, by rw [openSegments_cons hdot, hchild]; exact hopen⟩

/-- A walk that moves at all ends with an entry it takes. -/
theorem openSegments_last (h : fs.openSegments start path = some i) :
    i = start ∨ ∃ directory segment, Takes fs start path directory segment ∧ fs.findChild directory segment = some i := by
  induction path generalizing start with
  | nil => exact .inl (some.inj h).symm
  | cons segment path ih =>
    by_cases hdot : segment = [dot]
    · subst hdot
      rcases ih h with heq | ⟨d, s, ht, hf⟩
      · exact .inl heq
      · exact .inr ⟨d, s, ht.dot, hf⟩
    · rw [openSegments_cons hdot] at h
      obtain ⟨child, hchild, hopen⟩ := bind_eq_some_iff.1 h
      rcases ih hopen with heq | ⟨d, s, ht, hf⟩
      · exact .inr ⟨start, segment, ⟨[], path, rfl, hdot, rfl⟩, heq ▸ hchild⟩
      · exact .inr ⟨d, s, .cons hdot hchild ht, hf⟩

theorem Takes.rest (h : Takes fs start path directory segment) (hopen : fs.openSegments start path = some i) :
    ∃ child rest, fs.findChild directory segment = some child ∧ fs.openSegments child rest = some i := by
  obtain ⟨before, after, rfl, hdot, hbefore⟩ := h
  rw [openSegments_append, hbefore, bind_some, openSegments_cons hdot] at hopen
  obtain ⟨child, hchild, hrest⟩ := bind_eq_some_iff.1 hopen
  exact ⟨child, after, hchild, hrest⟩

theorem Takes.mem (h : Takes fs start path directory segment) : segment ∈ path := by
  obtain ⟨before, after, rfl, -, -⟩ := h
  simp

end

/-! ## Walks in the tree -/

theorem IsTree.baseDirectory (h : IsTree fs) (hbase : fs.baseDirectory base path = some start) :
    (fs.nodes start).active ∧ (fs.nodes start).id = base := by
  unfold Ramfs.baseDirectory at hbase
  split at hbase
  · cases hbase
  rename_i found hfound
  obtain ⟨hactive, hid⟩ := findNode_some hfound
  split_ifs at hbase with hdir hslash hroot
  · obtain rfl : (0 : Fin nodeLimit) = start := mem_unique h.findNode_root hbase
    exact ⟨h.root_active, by rw [h.root_id, ← hid]; exact (not_not.1 hroot).symm⟩
  · obtain rfl : found = start := some.inj hbase
    exact ⟨hactive, hid⟩

theorem walkParent_split (h : fs.walkParent base path = some (parent, leaf)) :
    ∃ start before, fs.baseDirectory base path = some start ∧ segments path = before ++ [leaf] ∧ leaf ≠ [dot] ∧
      fs.openSegments start before = some parent := by
  unfold walkParent at h
  split_ifs at h
  split at h
  · cases h
  · rename_i start hbase
    obtain ⟨before, hpath, hleaf, hopen⟩ := walkSegments_split h
    exact ⟨start, before, hbase, hpath, hleaf, hopen⟩

theorem openPath_split {before : List (List UInt8)} (hbase : fs.baseDirectory base path = some start)
    (hpath : segments path = before ++ [leaf]) (hleaf : leaf ≠ [dot]) (hopen : fs.openSegments start before = some parent) :
    fs.openPath base path = fs.findChild parent leaf := by
  rw [openPath, hbase]
  simp only [hpath]
  rw [openSegments_append, hopen, bind_some, openSegments_cons hleaf]
  cases fs.findChild parent leaf <;> rfl

/-- Where the walk to the parent succeeds, the path leads to what its last segment names there. -/
theorem openPath_eq (h : fs.walkParent base path = some (parent, leaf)) :
    fs.openPath base path = fs.findChild parent leaf := by
  obtain ⟨start, before, hbase, hpath, hleaf, hopen⟩ := walkParent_split h
  exact openPath_split hbase hpath hleaf hopen

theorem baseDirectory_congr (hbase : fs'.findNode base = fs.findNode base)
    (hroot : fs'.findNode nodeRoot = fs.findNode nodeRoot)
    (hsame : ∀ i, fs.findNode base = some i → (fs'.nodes i).id = (fs.nodes i).id ∧ (fs'.nodes i).type = (fs.nodes i).type) :
    fs'.baseDirectory base path = fs.baseDirectory base path := by
  unfold baseDirectory
  rw [hbase, hroot]
  rcases hi : fs.findNode base with _ | i
  · rfl
  obtain ⟨hid, htype⟩ := hsame i hi
  simp only [hid, htype]

namespace IsTree

variable {segment : List UInt8} {i start : Fin nodeLimit} {path : List (List UInt8)}

section

variable (h : IsTree fs)
include h

theorem up_of_findChild (hp : (fs.nodes parent).active) (hi : fs.findChild parent segment = some i) :
    fs.up i = some parent :=
  h.up_iff.2 ⟨hp, (findChild_some hi).2.1⟩

theorem openSegments_under (hs : (fs.nodes start).active) (hopen : fs.openSegments start path = some i) :
    Under fs.up i start ∧ (fs.nodes i).active := by
  induction path generalizing start with
  | nil =>
    obtain rfl : start = i := some.inj hopen
    exact ⟨.refl _, hs⟩
  | cons segment path ih =>
    by_cases hdot : segment = [dot]
    · rw [hdot, openSegments_dot] at hopen
      exact ih hs hopen
    · rw [openSegments_cons hdot] at hopen
      obtain ⟨child, hchild, hrest⟩ := bind_eq_some_iff.1 hopen
      obtain ⟨hunder, hi⟩ := ih (findChild_some hchild).1 hrest
      exact ⟨hunder.trans (.single (h.up_of_findChild hs hchild)), hi⟩

/-- What a walk takes the entry of is above what it ends at. -/
theorem under_of_takes {directory child : Fin nodeLimit} (ht : Takes fs start path directory segment)
    (hchild : fs.findChild directory segment = some child) (hopen : fs.openSegments start path = some i) :
    Under fs.up i child := by
  obtain ⟨child', rest, hchild', hrest⟩ := ht.rest hopen
  obtain rfl : child = child' := mem_unique hchild hchild'
  exact (h.openSegments_under (findChild_some hchild).1 hrest).1

theorem not_under_child (hi : (fs.nodes i).active) (hup : fs.up i = some parent) :
    ¬ Under fs.up parent i := by
  intro hunder
  have heq := (h.rooted i hi).antisymm h.up_root (.single hup) hunder
  exact (h.rooted i hi).climb_ne_self h.up_root 0 (by rw [climb, hup]; simp [climb, heq])

theorem takes_active (hs : (fs.nodes start).active) (ht : Takes fs start path directory segment) :
    (fs.nodes directory).active := by
  obtain ⟨before, after, -, -, hopen⟩ := ht
  exact (h.openSegments_under hs hopen).2

/-- Where the walk to the directory is the same, the path leads to what its last segment names there now. -/
theorem openPath_after {path leaf : List UInt8} (h0 : (0 : UInt8) ∉ path)
    (hwalk : fs.walkParent base path = some (parent, leaf))
    (hsame : ∀ start before, fs.baseDirectory base path = some start → (fs.nodes start).active →
      (∀ segment ∈ before, (0 : UInt8) ∉ segment) → fs.openSegments start before = some parent → fs'.baseDirectory base path =
        some start ∧ fs'.openSegments start before = some parent) :
    fs'.openPath base path = fs'.findChild parent leaf := by
  obtain ⟨start, before, hstart, hpath, hdot, hto⟩ := walkParent_split hwalk
  have hb0 : ∀ segment ∈ before, (0 : UInt8) ∉ segment := fun s hs =>
    zero_notMem_segment (by rw [hpath]; exact List.mem_append_left _ hs) h0
  obtain ⟨hbase, hto'⟩ := hsame start before hstart (h.baseDirectory hstart).1 hb0 hto
  exact openPath_split hbase hpath hdot hto'

end

end IsTree

/-! ## The entries a mutation changes -/

theorem movedTo_id (i j : Fin nodeLimit) (parentId : UInt32) (name : Name) :
    ((fs.set i ((fs.nodes i).movedTo parentId name)).nodes j).id = (fs.nodes j).id := by
  by_cases h : j = i
  · rw [h, set_nodes_self]
    rfl
  · rw [set_nodes_ne _ h]

/-- A move changes the entry the node leaves and the one it gets. -/
theorem findChild_moved (h0 : (0 : UInt8) ∉ segment) (hold : ¬ Names fs directory segment i)
    (hnew : ¬ ((fs.nodes directory).id = (fs.nodes parent).id ∧ name.text = segment)) :
    (fs.set i ((fs.nodes i).movedTo (fs.nodes parent).id name)).findChild directory segment =
      fs.findChild directory segment := by
  refine findChild_congr fun j => ?_
  by_cases hj : j = i
  · subst hj
    rw [names_iff h0, movedTo_id, set_nodes_self]
    exact ⟨fun hn => absurd ⟨hn.2.1.symm, hn.2.2⟩ hnew, fun hn => absurd hn hold⟩
  · rw [Names, Names, movedTo_id, set_nodes_ne _ hj]

/-- A new node changes the entry it gets. -/
theorem findChild_created
    (h0 : (0 : UInt8) ∉ segment) (hi : (fs.nodes i).active = false) (hd : (fs.nodes directory).active)
    (hnew : ¬ ((fs.nodes directory).id = (fs.nodes parent).id ∧ name.text = segment)) :
    (fs.set i (newNode i (fs.nodes parent).id type name)).findChild directory segment =
      fs.findChild directory segment := by
  have hdi : directory ≠ i := fun heq => by simp [heq ▸ hd] at hi
  refine findChild_congr fun j => ?_
  by_cases hj : j = i
  · subst hj
    rw [names_iff h0, names_iff h0, set_nodes_self, set_nodes_ne _ hdi]
    refine ⟨fun hn => absurd ⟨hn.2.1.symm, hn.2.2⟩ hnew, fun hn => ?_⟩
    rw [hi] at hn
    cases hn.1
  · rw [Names, Names, set_nodes_ne _ hj, set_nodes_ne _ hdi]

/-- A delete changes the entry of the node, and those of its own directory. -/
theorem findChild_deleted (hd : directory ≠ i) (hold : ¬ Names fs directory segment i) :
    (fs.set i .zero).findChild directory segment = fs.findChild directory segment := by
  refine findChild_congr fun j => ?_
  by_cases hj : j = i
  · subst hj
    rw [Names, set_nodes_self]
    exact ⟨fun hn => by simp [Node.zero] at hn, fun hn => absurd hn hold⟩
  · rw [Names, Names, set_nodes_ne _ hj, set_nodes_ne _ hd]

theorem names_findChild (h : fs.findChild directory segment = some i) : Names fs directory segment i := findChild_some h

/-- Another record of the same directory has the name of `i`. -/
def Twin (fs : Ramfs) (i j : Fin nodeLimit) : Prop :=
  j ≠ i ∧ (fs.nodes j).active = true ∧ (fs.nodes j).parentId = (fs.nodes i).parentId ∧
    (fs.nodes j).name.text = (fs.nodes i).name.text

/-- Without the entry of `i`, its name is found again exactly if it has a twin. -/
theorem findChild_twin (h0 : (0 : UInt8) ∉ segment) (hi : fs.findChild directory segment = some i) (hne : segment ≠ [])
    (hid : (fs'.nodes directory).id = (fs.nodes directory).id) (hother : ∀ j, j ≠ i → fs'.nodes j = fs.nodes j)
    (hgone : ¬ Names fs' directory segment i) : fs'.findChild directory segment = none ↔ ¬ ∃ j, Twin fs i j := by
  obtain ⟨hia, hip, hname⟩ := (names_iff h0).1 (names_findChild hi)
  rw [findChild_none hne, not_exists]
  refine forall_congr' fun j => not_congr ?_
  by_cases hj : j = i
  · subst hj
    exact ⟨fun hn => absurd hn hgone, fun ht => absurd rfl ht.1⟩
  · rw [names_iff h0, hid, hother j hj, Twin, hip, hname]
    exact ⟨fun hn => ⟨hj, hn⟩, fun ht => ht.2⟩

/-! ## The laws -/

/-- The walk of the path takes the entry that the other path names. -/
def PassesThrough (fs : Ramfs) (base : UInt32) (path : List UInt8) (namedBase : UInt32) (named : List UInt8) : Prop :=
  ∃ parent leaf start, fs.walkParent namedBase named = some (parent, leaf) ∧ fs.baseDirectory base path = some start ∧
    Takes fs start (segments path) parent leaf

/-- After a successful create the path leads to a node of the type, new and empty or the one it led to. -/
def CreateLaw (fs : Ramfs) (base : UInt32) (path : List UInt8) (type : NodeType) (id : UInt32) (fs' : Ramfs) : Prop :=
  ∃ i, fs'.openPath base path = some i ∧ (fs'.nodes i).id = id ∧ (fs'.nodes i).type = type ∧
    (fs.openPath base path = none → (fs.nodes i).active = false ∧ (fs'.nodes i).contents = .empty ∧
      ∀ j, (fs'.nodes j).active = true → fs'.up j ≠ some i) ∧
    ∀ old, fs.openPath base path = some old → old = i ∧ fs' = fs

/-- After a move the source path fails, the destination leads to the node with everything under it, and paths
    that take neither entry lead where they did. -/
structure MoveLaw (fs : Ramfs) (sourceBase : UInt32) (source : List UInt8) (destinationBase : UInt32)
    (destination : List UInt8) (fs' : Ramfs) : Prop where
  left : fs'.openPath sourceBase source = none
  arrived : ∃ i, fs.openPath sourceBase source = some i ∧ fs'.openPath destinationBase destination = some i ∧
    (fs'.nodes i).contents = (fs.nodes i).contents ∧ (fs'.nodes i).type = (fs.nodes i).type ∧
    (∀ j, j ≠ i → fs'.nodes j = fs.nodes j) ∧
    ∀ path, (∀ segment ∈ path, (0 : UInt8) ∉ segment) → fs'.openSegments i path = fs.openSegments i path
  others : ∀ base path, (0 : UInt8) ∉ path → ¬ PassesThrough fs base path sourceBase source →
    ¬ PassesThrough fs base path destinationBase destination → fs'.openPath base path = fs.openPath base path

/-- After a delete the path fails, and paths that neither take its entry nor start at the node lead where they did. -/
structure DeleteLaw (fs : Ramfs) (base : UInt32) (path : List UInt8) (fs' : Ramfs) : Prop where
  deleted : fs'.openPath base path = none
  others : ∀ otherBase other, (0 : UInt8) ∉ other → ¬ PassesThrough fs otherBase other base path →
    (∀ i, fs.openPath base path = some i → otherBase ≠ (fs.nodes i).id) →
    fs'.openPath otherBase other = fs.openPath otherBase other

/-- The node the path leads to has a twin. -/
def Twinned (fs : Ramfs) (base : UInt32) (path : List UInt8) : Prop :=
  ∃ i j, fs.openPath base path = some i ∧ Twin fs i j

theorem twinned_iff (hopen : fs.openPath base path = some i) : Twinned fs base path ↔ ∃ j, Twin fs i j := by
  simp [Twinned, hopen]

theorem Takes.under (h : IsTree fs) {path : List (List UInt8)}
    (hs : (fs.nodes start).active) (ht : Takes fs start path directory segment) : Under fs.up directory start := by
  obtain ⟨before, after, -, -, hopen⟩ := ht
  exact (h.openSegments_under hs hopen).1

/-! ### Create -/

theorem IsTree.openPath_created (h : IsTree fs) (h0 : (0 : UInt8) ∉ path)
    (hwalk : fs.walkParent base path = some (parent, name.bytes))
    (hnew : fs.findChild parent name.bytes = none) (hi : (fs.nodes i).active = false) :
    (fs.set i (newNode i (fs.nodes parent).id type name)).openPath base path = some i := by
  obtain ⟨⟨hp, -⟩, hleaf⟩ := h.walkParent hwalk
  have hname := Name.text_of_terminated (zero_notMem_segment hleaf h0)
  have hne := segment_ne_nil hleaf
  have hkept : ∀ j, (fs.nodes j).active →
      (fs.set i (newNode i (fs.nodes parent).id type name)).nodes j = fs.nodes j :=
    fun j hj => set_nodes_ne _ fun heq => by simp [heq ▸ hj] at hi
  have hfind : ∀ j, (fs.nodes j).active →
      (fs.set i (newNode i (fs.nodes parent).id type name)).findNode (fs.nodes j).id = fs.findNode (fs.nodes j).id := by
    intro j hj
    rw [h.findNode hj, ← hkept j hj]
    exact (h.created type name hp (h.walkParent hwalk).1.2 hi).findNode (by rwa [hkept j hj])
  rw [h.openPath_after h0 hwalk]
  swap
  · intro start before hbase hs hb0 hopen
    rw [← hbase, ← hopen]
    refine ⟨baseDirectory_congr ((h.baseDirectory hbase).2 ▸ hfind start hs) (h.root_id ▸ hfind 0 h.root_active) fun j hj => ?_,
      openSegments_congr fun d s ht => ?_⟩
    · rw [hkept j (findNode_some hj).1]
      exact ⟨rfl, rfl⟩
    refine findChild_created (hb0 s ht.mem) hi (h.takes_active hs ht) fun ⟨hd, htext⟩ => ?_
    -- the walk to the parent cannot take the entry that was not there
    obtain ⟨child, -, hchild, -⟩ := ht.rest hopen
    simp [h.id_inj (h.takes_active hs ht) hp hd, ← htext, hname, hnew] at hchild
  refine findChild_of_unique hne ?_ fun j hj => ?_
  · rw [names_iff (zero_notMem_segment hleaf h0), set_nodes_self, hkept parent hp]
    exact ⟨rfl, rfl, hname⟩
  · by_contra hji
    rw [Names, set_nodes_ne _ hji, hkept parent hp] at hj
    exact (findChild_none hne).1 hnew j hj

theorem IsTree.createLaw (h : IsTree fs) {id : UInt32}
    (h0 : (0 : UInt8) ∉ path) (hcreate : fs.create base path type = (some id, fs')) :
    CreateLaw fs base path type id fs' := by
  rcases fs.create_cases base path type with
    heq | ⟨parent, leaf, i, hwalk, hi, htype, heq⟩ | ⟨parent, i, name, hwalk, hnew, hi, htype, heq⟩ <;>
    rw [heq] at hcreate
  · cases hcreate
  · obtain ⟨rfl, rfl⟩ : (fs.nodes i).id = id ∧ fs = fs' := by simpa using hcreate
    have hopen := (openPath_eq hwalk).trans hi
    refine ⟨i, hopen, rfl, htype, fun hnone => ?_, fun old hold => ⟨?_, rfl⟩⟩
    · simp [hopen] at hnone
    · exact (mem_unique hopen hold).symm
  · obtain ⟨rfl, rfl⟩ : numberAt i = id ∧ fs.set i (newNode i (fs.nodes parent).id type name) = fs' := by
      simpa using hcreate
    have hinactive := inactive_of_allocate hi
    obtain ⟨⟨hp, hdir⟩, -⟩ := h.walkParent hwalk
    have htree := h.created type name hp hdir hinactive
    refine ⟨i, h.openPath_created h0 hwalk hnew hinactive, by rw [set_nodes_self]; rfl, by rw [set_nodes_self]; rfl,
      fun _ => ⟨hinactive, by rw [set_nodes_self]; rfl, fun j hj hup => ?_⟩, fun old hold => ?_⟩
    · -- a child of the new node would have had a parent before
      obtain ⟨-, hparent⟩ := htree.up_iff.1 hup
      rw [set_nodes_self] at hparent
      by_cases hji : j = i
      · rw [hji, set_nodes_self] at hparent
        have heq : parent = i := numberAt_inj ((h.number parent hp).symm.trans hparent)
        simp [heq ▸ hp] at hinactive
      rw [set_nodes_ne _ hji] at hj hparent
      by_cases hj0 : j = 0
      · rw [hj0, h.root_parent] at hparent
        exact numberAt_ne_zero i hparent.symm
      · obtain ⟨k, hk, -⟩ := h.parent j hj hj0
        obtain ⟨hka, hkid⟩ := h.up_iff.1 hk
        have heq : k = i := numberAt_inj ((h.number k hka).symm.trans (hkid.symm.trans hparent))
        simp [heq ▸ hka] at hinactive
    · simp [openPath_eq hwalk, hnew] at hold

/-! ### Move -/

section Move

variable {sourceBase destinationBase : UInt32} {source destination leaf : List UInt8}
  {sourceParent parent i : Fin nodeLimit} {name : Name} (h : IsTree fs) (hs0 : (0 : UInt8) ∉ source)
  (hd0 : (0 : UInt8) ∉ destination)
  (hsource : fs.walkParent sourceBase source = some (sourceParent, leaf))
  (hi : fs.findChild sourceParent leaf = some i)
  (hwalk : fs.walkParent destinationBase destination = some (parent, name.bytes))
include h hs0 hd0 hsource hi hwalk

/-- A walk that takes neither entry of the move is the same. -/
theorem IsTree.openSegments_moved
    {start : Fin nodeLimit} (hs : (fs.nodes start).active) {path : List (List UInt8)}
    (h0 : ∀ segment ∈ path, (0 : UInt8) ∉ segment) (hleft : ¬ Takes fs start path sourceParent leaf)
    (hnew : ¬ Takes fs start path parent name.bytes) :
    (fs.set i ((fs.nodes i).movedTo (fs.nodes parent).id name)).openSegments start path = fs.openSegments start path := by
  obtain ⟨⟨hsp, -⟩, hleaf⟩ := h.walkParent hsource
  obtain ⟨⟨hp, -⟩, hname⟩ := h.walkParent hwalk
  obtain ⟨-, hparent, htext⟩ := (names_iff (zero_notMem_segment hleaf hs0)).1 (names_findChild hi)
  refine openSegments_congr fun d s ht => ?_
  have hd := h.takes_active hs ht
  have hs' := h0 s ht.mem
  refine findChild_moved hs' (fun hn => hleft ?_) fun ⟨hid, hn⟩ => hnew ?_
  · obtain ⟨-, hdp, hdt⟩ := (names_iff hs').1 hn
    rwa [← h.id_inj hd hsp (hdp.symm.trans hparent), ← htext, hdt]
  · rwa [← h.id_inj hd hp hid, ← Name.text_of_terminated (zero_notMem_segment hname hd0), hn]

theorem IsTree.moveLaw_iff
    (hnew : fs.findChild parent name.bytes = none) (hcycle : ¬ Under fs.up parent i) :
    MoveLaw fs sourceBase source destinationBase destination (fs.set i ((fs.nodes i).movedTo (fs.nodes parent).id name)) ↔
      ¬ Twinned fs sourceBase source := by
  have hsame := fun {start} hs {path} h0 => @IsTree.openSegments_moved fs sourceBase destinationBase source destination leaf
    sourceParent parent i name h hs0 hd0 hsource hi hwalk start hs path h0
  obtain ⟨⟨hsp, -⟩, hleaf⟩ := h.walkParent hsource
  obtain ⟨⟨hp, -⟩, hname⟩ := h.walkParent hwalk
  have hleaf0 := zero_notMem_segment hleaf hs0
  have hname0 := zero_notMem_segment hname hd0
  have htext := Name.text_of_terminated hname0
  obtain ⟨hia, hip, hitext⟩ := (names_iff hleaf0).1 (names_findChild hi)
  have hup := h.up_of_findChild hsp hi
  have hopen := (openPath_eq hsource).trans hi
  have hself : (fs.set i ((fs.nodes i).movedTo (fs.nodes parent).id name)).nodes i =
      (fs.nodes i).movedTo (fs.nodes parent).id name := set_nodes_self i _
  have hother : ∀ j, j ≠ i → (fs.set i ((fs.nodes i).movedTo (fs.nodes parent).id name)).nodes j = fs.nodes j :=
    fun j hj => set_nodes_ne _ hj
  have hid : ∀ j, ((fs.set i ((fs.nodes i).movedTo (fs.nodes parent).id name)).nodes j).id = (fs.nodes j).id :=
    fun j => movedTo_id i j _ name
  generalize fs.set i ((fs.nodes i).movedTo (fs.nodes parent).id name) = fs' at hsame hself hother hid ⊢
  have hkept : ∀ j, (fs'.nodes j).active = (fs.nodes j).active ∧ (fs'.nodes j).type = (fs.nodes j).type := by
    intro j
    by_cases hj : j = i
    · rw [hj, hself]
      exact ⟨rfl, rfl⟩
    · rw [hother j hj]
      exact ⟨rfl, rfl⟩
  have hfind : ∀ id, fs'.findNode id = fs.findNode id := by
    intro id
    simp only [Ramfs.findNode, first, hid, (hkept _).1]
  have hbase : ∀ base path, fs'.baseDirectory base path = fs.baseDirectory base path := fun base path =>
    baseDirectory_congr (hfind base) (hfind nodeRoot) fun j _ => ⟨hid j, (hkept j).2⟩
  have hnotaken : ∀ {start path e}, fs.openSegments start path = some e → ¬ Takes fs start path parent name.bytes := by
    intro start path e he ht
    obtain ⟨child, -, hchild, -⟩ := ht.rest he
    simp [hnew] at hchild
  have hleft : fs'.openPath sourceBase source = none ↔ ¬ Twinned fs sourceBase source := by
    -- the walks to the two directories take neither entry
    rw [h.openPath_after hs0 hsource fun start before hstart hs hb0 hto => ⟨(hbase _ _).trans hstart, (hsame hs hb0
        (fun ht => h.not_under_child hia hup (h.under_of_takes ht hi hto)) (hnotaken hto)).trans hto⟩,
      findChild_twin hleaf0 hi (segment_ne_nil hleaf) (hid _) hother, twinned_iff hopen]
    · rw [names_iff hleaf0, hself, hid]
      rintro ⟨-, hpp, hnn⟩
      -- the node would have its old entry only if the destination was the source
      have hsp' : parent = sourceParent := h.id_inj hp hsp hpp
      have hn : name.bytes = leaf := htext.symm.trans hnn
      simp [hsp', hn, hi] at hnew
  refine ⟨fun hlaw => hleft.1 hlaw.left, fun hno => ⟨hleft.2 hno, ⟨i, hopen, ?_, ?_, ?_, hother, ?_⟩, ?_⟩⟩
  · rw [h.openPath_after hd0 hwalk fun start before hstart hs hb0 hto => ⟨(hbase _ _).trans hstart, (hsame hs hb0
      (fun ht => hcycle (h.under_of_takes ht hi hto)) (hnotaken hto)).trans hto⟩]
    refine findChild_of_unique (segment_ne_nil hname) ?_ fun j hj => ?_
    · rw [names_iff hname0, hself, hid]
      exact ⟨hia, rfl, htext⟩
    · by_contra hji
      rw [Names, hother j hji, hid] at hj
      exact (findChild_none (segment_ne_nil hname)).1 hnew j hj
  · rw [hself]
    rfl
  · exact (hkept i).2
  · intro path h0
    refine hsame hia h0 (fun ht => ?_) fun ht => hcycle (ht.under h hia)
    exact h.not_under_child hia hup (ht.under h hia)
  · intro base path h0 hns hnd
    rw [openPath, openPath, hbase]
    rcases hb : fs.baseDirectory base path with _ | start
    · rfl
    exact hsame (h.baseDirectory hb).1 (fun s hm => zero_notMem_segment hm h0)
      (fun ht => hns ⟨_, _, _, hsource, hb, ht⟩) fun ht => hnd ⟨_, _, _, hwalk, hb, ht⟩

end Move

/-! ### Delete -/

theorem IsTree.deleteLaw_iff (h : IsTree fs)
    (h0 : (0 : UInt8) ∉ path) (hwalk : fs.walkParent base path = some (parent, leaf))
    (hi : fs.findChild parent leaf = some i) (hroot : (fs.nodes i).id ≠ nodeRoot) :
    DeleteLaw fs base path (fs.set i .zero) ↔ ¬ Twinned fs base path := by
  obtain ⟨⟨hp, -⟩, hleaf⟩ := h.walkParent hwalk
  have hleaf0 := zero_notMem_segment hleaf h0
  obtain ⟨hia, hip, hitext⟩ := (names_iff hleaf0).1 (names_findChild hi)
  have hup := h.up_of_findChild hp hi
  have hopen := (openPath_eq hwalk).trans hi
  have hfind : ∀ id, id ≠ (fs.nodes i).id → (fs.set i .zero).findNode id = fs.findNode id := by
    intro id hid
    unfold Ramfs.findNode first
    congr 1
    funext j
    by_cases hj : j = i
    · rw [hj, set_nodes_self]
      simp [Node.zero, Ne.symm hid]
    · rw [set_nodes_ne _ hj]
  have hbase : ∀ base path, base ≠ (fs.nodes i).id →
      (fs.set i .zero).baseDirectory base path = fs.baseDirectory base path := by
    intro base path hne
    refine baseDirectory_congr (hfind base hne) (hfind nodeRoot (Ne.symm hroot)) fun j hj => ?_
    have hji : j ≠ i := fun heq => hne (by rw [← heq, (findNode_some hj).2])
    rw [set_nodes_ne _ hji]
    exact ⟨rfl, rfl⟩
  -- a walk that neither starts at the node nor takes its entry never meets it
  have hsame : ∀ {start path}, (fs.nodes start).active → start ≠ i →
      (∀ segment ∈ path, (0 : UInt8) ∉ segment) → ¬ Takes fs start path parent leaf →
      (fs.set i .zero).openSegments start path = fs.openSegments start path := by
    intro start path hs hne hp0 hno
    have hentry : ∀ d s, Takes fs start path d s → ¬ Names fs d s i := by
      intro d s ht hn
      obtain ⟨-, hdp, hdt⟩ := (names_iff (hp0 s ht.mem)).1 hn
      apply hno
      rwa [← h.id_inj (h.takes_active hs ht) hp (hdp.symm.trans hip), ← hitext, hdt]
    refine openSegments_congr fun d s ht => findChild_deleted (fun hdi => ?_) (hentry d s ht)
    obtain ⟨before, after, rfl, hdot, hto⟩ := ht
    rcases openSegments_last (hdi ▸ hto) with heq | ⟨d', s', ⟨b, a, rfl, hdot', hto'⟩, hfound⟩
    · exact hne heq.symm
    · exact hentry d' s' ⟨b, a ++ s :: after, by simp, hdot', hto'⟩ (names_findChild hfound)
  have hnot := h.not_under_child hia hup
  have hpi : parent ≠ i := fun heq => hnot (heq ▸ .refl _)
  have hgone : (fs.set i .zero).openPath base path = none ↔ ¬ Twinned fs base path := by
    rw [h.openPath_after h0 hwalk fun start before hstart hs hb0 hto => by
        have hsi : start ≠ i := fun heq => hnot (heq ▸ (h.openSegments_under hs hto).1)
        refine ⟨(hbase base path ((h.baseDirectory hstart).2 ▸ fun heq => hsi (h.id_inj hs hia heq))).trans hstart, ?_⟩
        exact (hsame hs hsi hb0 fun ht => hnot (h.under_of_takes ht hi hto)).trans hto,
      findChild_twin hleaf0 hi (segment_ne_nil hleaf) (by rw [set_nodes_ne _ hpi]) (fun j hj => set_nodes_ne _ hj),
      twinned_iff hopen]
    · rw [Names, set_nodes_self]
      simp [Node.zero]
  refine ⟨fun hlaw => hgone.1 hlaw.deleted, fun hno => ⟨hgone.2 hno, fun otherBase other ho0 hpass hob => ?_⟩⟩
  have hne := hob i hopen
  rw [openPath, openPath, hbase otherBase other hne]
  rcases hb : fs.baseDirectory otherBase other with _ | start
  · rfl
  obtain ⟨hs, hid⟩ := h.baseDirectory hb
  exact hsame hs (fun heq => hne (heq ▸ hid.symm)) (fun s hm => zero_notMem_segment hm ho0)
    fun ht => hpass ⟨_, _, _, hwalk, hb, ht⟩

/-! ## Every reachable tree -/

/-- In every reachable tree, for paths without zero bytes: a create does what it should, and
    a move or a delete does so exactly if the node has no twin. -/
theorem resolution_iff {ops : List Op} (hrun : init.run ops = some fs) :
    (∀ base path type id fs', (0 : UInt8) ∉ path → fs.create base path type = (some id, fs') →
      CreateLaw fs base path type id fs') ∧
    (∀ sourceBase source destinationBase destination fs', (0 : UInt8) ∉ source → (0 : UInt8) ∉ destination →
      fs.move sourceBase source destinationBase destination = some (true, fs') →
      fs.openPath destinationBase destination = none →
      (MoveLaw fs sourceBase source destinationBase destination fs' ↔ ¬ Twinned fs sourceBase source)) ∧
    ∀ base path fs', (0 : UInt8) ∉ path → fs.delete base path = (true, fs') →
      (DeleteLaw fs base path fs' ↔ ¬ Twinned fs base path) := by
  have h : IsTree fs := by
    obtain ⟨fs', hrun', htree⟩ := isTree_init.run ops
    exact mem_unique hrun' hrun ▸ htree
  refine ⟨fun base path type id fs' h0 hcreate => h.createLaw h0 hcreate,
    fun sourceBase source destinationBase destination fs' hs0 hd0 hmove hnone => ?_, fun base path fs' h0 hdelete => ?_⟩
  · rcases h.move_spec sourceBase source destinationBase destination with
      heq | ⟨sourceParent, leaf, i, parent, name, hsource, hi, hwalk, ⟨existing, hfound, -⟩ | ⟨hnew, hcycle, heq⟩⟩
    · simp [heq] at hmove
    · simp [openPath_eq hwalk, hfound] at hnone
    · rw [heq] at hmove
      obtain rfl : _ = fs' := (Prod.mk.inj (some.inj hmove)).2
      exact h.moveLaw_iff hs0 hd0 hsource hi hwalk hnew hcycle
  · rcases fs.delete_cases base path with heq | ⟨parent, leaf, i, hwalk, hi, hroot, -, heq⟩
    · simp [heq] at hdelete
    · rw [heq] at hdelete
      obtain rfl : _ = fs' := (Prod.mk.inj hdelete).2
      exact h.deleteLaw_iff h0 hwalk hi hroot

/-- Right after boot there are no twins: a move out of the directory of applications. -/
theorem resolution_of_move :
    ∃ fs', init.move 1 (ascii "APPS/HELLO.TXT") 1 (ascii "hello") = some (true, fs') ∧
      (MoveLaw init 1 (ascii "APPS/HELLO.TXT") 1 (ascii "hello") fs' ↔ ¬ Twinned init 1 (ascii "APPS/HELLO.TXT")) := by
  have hmoved : (init.move 1 (ascii "APPS/HELLO.TXT") 1 (ascii "hello")).map Prod.fst = some true := by decide +kernel
  obtain ⟨⟨r, fs'⟩, hmove, rfl⟩ := map_eq_some_iff.1 hmoved
  exact ⟨fs', hmove, (@resolution_iff init [] rfl).2.1 _ _ _ _ _ (by decide +kernel) (by decide +kernel) hmove
    (by decide +kernel)⟩

theorem resolution_fails :
    ∃ fs fs', init.run twins = some fs ∧ fs.delete 1 (ascii "a") = (true, fs') ∧ ¬ DeleteLaw fs 1 (ascii "a") fs' := by
  obtain ⟨fs, hrun, -⟩ := isTree_init.run twins
  have hfound : (init.run twins).all (fun fs => (fs.delete 1 (ascii "a")).1 &&
      ((fs.delete 1 (ascii "a")).2.openPath 1 (ascii "a")).isSome) := by decide +kernel
  rw [hrun, all_some, Bool.and_eq_true] at hfound
  refine ⟨fs, (fs.delete 1 (ascii "a")).2, hrun, Prod.ext hfound.1 rfl, fun hlaw => ?_⟩
  rw [hlaw.deleted] at hfound
  simp at hfound

end LimitlessOS.Ramfs
