/-
  LimitlessOS.Ramfs.Tree — the records in use form a tree.

  `Change` says once what a call can do to the table. From it come the tree invariant, for
  every run and whatever bytes the paths hold; that a call which reports failure changes
  nothing; and that the names in a directory are distinct, as long as no new name holds a
  zero byte.

  Proved:
  - `textEqualsSegment_iff`: when a segment names a node.
  - `IsTree.step`, `IsTree.run`: the invariant; `IsTree.chain`: the walk up that `move` makes ends.
  - `tree_of_run`: the tree, what a failed call leaves, and the distinct names.

  `tree_fails`: a name that holds a zero byte stands beside the name it continues.
-/
import Mathlib.Data.List.TakeWhile
import LimitlessOS.Lib.ParentTree
import LimitlessOS.Ramfs.Nodes

namespace LimitlessOS.Ramfs

open Lib Slots List Option UInt32

/-! ## Names -/

variable {r : Bool} {fs' : Ramfs} {id : UInt32} {path segment bytes : List UInt8} {i j parent : Fin nodeLimit}

theorem textEqualsSegment_pad (h : (0 : UInt8) ∉ segment) (k : Nat) (more : List UInt8) :
    textEqualsSegment (bytes ++ replicate (k + 1) 0 ++ more) segment ↔
      bytes.takeWhile (· ≠ 0) = segment := by
  induction segment generalizing bytes with
  | nil =>
    cases bytes with
    | nil => simp [textEqualsSegment, replicate_succ]
    | cons b bytes => by_cases hb : b = 0 <;> simp [textEqualsSegment, hb]
  | cons c segment ih =>
    have hc : ¬ (0 : UInt8) = c := fun hc => h (hc ▸ mem_cons_self)
    cases bytes with
    | nil => simp [textEqualsSegment, replicate_succ, hc]
    | cons b bytes =>
      have hrest := @ih bytes fun h0 => h (mem_cons_of_mem _ h0)
      by_cases hb : b = 0
      · simp [textEqualsSegment, hb, hc]
      · simp only [append_assoc] at hrest
        simp [textEqualsSegment, hb, hrest]

/-- A segment without zero bytes names the node that has it as its name. -/
theorem textEqualsSegment_iff {n : Node} (h : (0 : UInt8) ∉ segment) :
    textEqualsSegment n.memory segment ↔ n.name.text = segment := by
  have hshort := n.name.short
  obtain ⟨k, hk⟩ : ∃ k, nameCapacity - n.name.bytes.length = k + 1 := ⟨nameCapacity - n.name.bytes.length - 1, by omega⟩
  rw [Node.memory, hk, textEqualsSegment_pad h k, Name.text]

theorem mem_segmentsFrom (h : segment ∈ segmentsFrom bytes path) :
    segment ≠ [] ∧ ∀ b ∈ segment, b ∈ bytes ∨ b ∈ path := by
  induction path generalizing bytes with
  | nil =>
    by_cases hb : bytes = [] <;> simp [segmentsFrom, hb] at h
    subst h
    exact ⟨hb, fun b hb => .inl hb⟩
  | cons c path ih =>
    rw [segmentsFrom] at h
    split_ifs at h with _ hbytes
    · obtain ⟨hne, hmem⟩ := ih h
      refine ⟨hne, fun b hb => ?_⟩
      rcases hmem b hb with hb | hb
      · rcases mem_append.1 hb with hb | hb
        · exact .inl hb
        · exact .inr (mem_cons.2 (.inl (mem_singleton.1 hb)))
      · exact .inr (mem_cons_of_mem _ hb)
    · obtain ⟨hne, hmem⟩ := ih h
      exact ⟨hne, fun b hb => .inr (mem_cons_of_mem _ ((hmem b hb).resolve_left (by simp)))⟩
    · rcases mem_cons.1 h with heq | h
      · subst heq
        exact ⟨hbytes, fun b hb => .inl hb⟩
      · obtain ⟨hne, hmem⟩ := ih h
        exact ⟨hne, fun b hb => .inr (mem_cons_of_mem _ ((hmem b hb).resolve_left (by simp)))⟩

theorem segment_ne_nil (h : segment ∈ segments path) : segment ≠ [] := (mem_segmentsFrom h).1

theorem zero_notMem_segment (h : segment ∈ segments path) (h0 : (0 : UInt8) ∉ path) : (0 : UInt8) ∉ segment := by
  intro hmem
  rcases (mem_segmentsFrom h).2 0 hmem with hb | hb
  · simp at hb
  · exact h0 hb

/-! ## Walks -/

variable {fs start : Ramfs} {name : Name}

theorem findNode_some (h : fs.findNode id = some i) : (fs.nodes i).active ∧ (fs.nodes i).id = id := by
  simpa using first_some h

theorem findChild_some (h : fs.findChild parent segment = some i) :
    (fs.nodes i).active ∧ (fs.nodes i).parentId = (fs.nodes parent).id ∧
      textEqualsSegment (fs.nodes i).memory segment := by
  unfold findChild at h
  split_ifs at h
  simpa [and_assoc] using first_some h

theorem walkSegments_some {current : Fin nodeLimit} {leaf : List UInt8} {rest : List (List UInt8)}
    (h : fs.walkSegments current rest = some (parent, leaf))
    (hc : (fs.nodes current).active ∧ (fs.nodes current).type = .directory) :
    ((fs.nodes parent).active ∧ (fs.nodes parent).type = .directory) ∧ leaf ∈ rest := by
  induction rest generalizing current with
  | nil => simp [walkSegments] at h
  | cons segment rest ih =>
    rw [walkSegments] at h
    split_ifs at h
    · obtain ⟨hp, hl⟩ := ih h hc
      exact ⟨hp, mem_cons_of_mem _ hl⟩
    · obtain ⟨rfl, rfl⟩ := Prod.mk.inj (some.inj h)
      exact ⟨hc, mem_cons_self⟩
    split at h
    · cases h
    · rename_i child hchild
      split_ifs at h with hdir
      obtain ⟨hp, hl⟩ := ih h ⟨(findChild_some hchild).1, not_not.1 hdir⟩
      exact ⟨hp, mem_cons_of_mem _ hl⟩

/-! ## The invariant -/

/-- The record the parent number leads to. -/
def up (fs : Ramfs) (i : Fin nodeLimit) : Option (Fin nodeLimit) := fs.findNode (fs.nodes i).parentId

/-- The first record is the root, and every record in use leads to it through directories. -/
structure IsTree (fs : Ramfs) : Prop where
  number : ∀ i, (fs.nodes i).active = true → (fs.nodes i).id = numberAt i
  root_active : (fs.nodes 0).active = true
  root_type : (fs.nodes 0).type = .directory
  root_parent : (fs.nodes 0).parentId = 0
  parent : ∀ i, (fs.nodes i).active = true → i ≠ 0 → ∃ j, fs.up i = some j ∧ (fs.nodes j).type = .directory
  rooted : ∀ i, (fs.nodes i).active = true → Under fs.up i 0

theorem numberAt_inj (h : numberAt i = numberAt j) : i = j := by
  have hi : i.val < 64 := i.isLt
  have hj : j.val < 64 := j.isLt
  have h' := congrArg toNat h
  simp only [numberAt, toNat_ofNat'] at h'
  omega

theorem numberAt_ne_zero (i : Fin nodeLimit) : numberAt i ≠ 0 := by
  have hi : i.val < 64 := i.isLt
  intro h
  have h' := congrArg toNat h
  simp only [numberAt, UInt32.toNat_ofNat', UInt32.toNat_zero] at h'
  omega

section

variable (hn : ∀ i, (fs.nodes i).active → (fs.nodes i).id = numberAt i)
include hn

/-- With every record numbered by its place, a number finds its record. -/
theorem findNode_of_number (hi : (fs.nodes i).active) : fs.findNode (fs.nodes i).id = some i := by
  refine first_of_unique (by simp [hi]) fun j hj => ?_
  simp only [Bool.and_eq_true, beq_iff_eq] at hj
  apply numberAt_inj
  rw [← hn j hj.1, ← hn i hi, hj.2]

theorem up_of_number (hj : (fs.nodes j).active) (hid : (fs.nodes i).parentId = (fs.nodes j).id) : fs.up i = some j := by
  rw [up, hid, findNode_of_number hn hj]

end

namespace IsTree

variable {i j : Fin nodeLimit}

theorem active_of_under (hi : (fs.nodes i).active) (hij : Under fs.up i j) : (fs.nodes j).active := by
  induction hij with
  | refl => exact hi
  | tail _ hstep _ => exact (findNode_some hstep).1

section

variable (h : IsTree fs)
include h

theorem findNode (hi : (fs.nodes i).active) : fs.findNode (fs.nodes i).id = some i := findNode_of_number h.number hi

theorem root_id : (fs.nodes 0).id = nodeRoot := h.number 0 h.root_active

theorem id_inj (hi : (fs.nodes i).active) (hj : (fs.nodes j).active)
    (heq : (fs.nodes i).id = (fs.nodes j).id) : i = j :=
  numberAt_inj (by rw [← h.number i hi, ← h.number j hj, heq])

theorem id_ne_zero (hi : (fs.nodes i).active) : (fs.nodes i).id ≠ 0 := by
  rw [h.number i hi]
  exact numberAt_ne_zero i

theorem findNode_root : fs.findNode nodeRoot = some 0 := h.root_id ▸ h.findNode h.root_active

theorem up_root : fs.up 0 = none := by
  rw [up, h.root_parent]
  rcases hf : fs.findNode 0 with _ | i
  · rfl
  obtain ⟨hi, hid⟩ := findNode_some hf
  exact absurd hid (h.id_ne_zero hi)

theorem up_iff : fs.up i = some j ↔ (fs.nodes j).active ∧ (fs.nodes i).parentId = (fs.nodes j).id := by
  constructor
  · intro hu
    obtain ⟨ha, hid⟩ := findNode_some hu
    exact ⟨ha, hid.symm⟩
  · intro ⟨ha, hid⟩
    exact up_of_number h.number ha hid

/-- Only directories have children. -/
theorem directory_of_up (hi : (fs.nodes i).active) (hu : fs.up i = some j) : (fs.nodes j).type = .directory := by
  have hne : i ≠ 0 := fun h0 => by
    simp [h0, h.up_root] at hu
  obtain ⟨k, hk, hdir⟩ := h.parent i hi hne
  rw [hu] at hk
  exact some.inj hk ▸ hdir

/-- A record that is not a directory is above no other. -/
theorem under_file (hi : (fs.nodes i).active) (hij : Under fs.up i j)
    (hj : (fs.nodes j).type ≠ .directory) : i = j := by
  rcases Relation.ReflTransGen.cases_tail hij with heq | ⟨k, hik, hkj⟩
  · exact heq.symm
  · exact absurd (h.directory_of_up (active_of_under hi hik) hkj) hj

theorem walkParent {base : UInt32} {path leaf : List UInt8} (hw : fs.walkParent base path = some (parent, leaf)) :
    ((fs.nodes parent).active ∧ (fs.nodes parent).type = .directory) ∧ leaf ∈ segments path := by
  unfold Ramfs.walkParent at hw
  split_ifs at hw
  split at hw
  · cases hw
  rename_i current hbase
  refine walkSegments_some hw ?_
  unfold baseDirectory at hbase
  split at hbase
  · cases hbase
  rename_i found hfound
  have hactive := (findNode_some hfound).1
  split_ifs at hbase with hdir hslash hroot
  · obtain rfl : (0 : Fin nodeLimit) = current := mem_unique h.findNode_root hbase
    exact ⟨h.root_active, h.root_type⟩
  · obtain rfl : found = current := some.inj hbase
    exact ⟨hactive, not_not.1 hdir⟩

/-! ### The walk up -/

theorem chain_climb {ancestor : UInt32} {k : Nat} (hi : (fs.nodes i).active)
    (hk : climb fs.up k i = some 0) : ∃ answer, (answer = true ↔ ∃ j, Under fs.up i j ∧ (fs.nodes j).id = ancestor) ∧
      ∀ rounds, k + 2 ≤ rounds → fs.parentChainContains ancestor rounds (fs.nodes i).id = some answer := by
  induction k using Nat.strong_induction_on generalizing i with
  | _ k ih =>
    by_cases hself : (fs.nodes i).id = ancestor
    · refine ⟨true, by simpa using ⟨i, .refl i, hself⟩, fun rounds hr => ?_⟩
      obtain ⟨r, rfl⟩ : ∃ r, rounds = r + 1 := ⟨rounds - 1, by omega⟩
      rw [parentChainContains, if_neg (h.id_ne_zero hi), if_pos hself]
    cases k with
    | zero =>
      obtain rfl : i = 0 := some.inj hk
      refine ⟨false, ?_, fun rounds hr => ?_⟩
      · simp only [Bool.false_eq_true, false_iff, not_exists, not_and]
        intro j hj
        rcases hj.cases_head with rfl | ⟨c, hc, -⟩
        · exact hself
        · simp [h.up_root] at hc
      · obtain ⟨r, rfl⟩ : ∃ r, rounds = r + 2 := ⟨rounds - 2, by omega⟩
        rw [parentChainContains, if_neg (h.id_ne_zero hi), if_neg hself, h.findNode hi]
        simp [h.root_parent, parentChainContains]
    | succ k =>
      obtain ⟨c, hc, hk⟩ := bind_eq_some_iff.1 hk
      obtain ⟨hca, hcid⟩ := h.up_iff.1 hc
      obtain ⟨answer, hanswer, hrounds⟩ := ih k (Nat.lt_succ_self k) hca hk
      refine ⟨answer, hanswer.trans ⟨?_, ?_⟩, fun rounds hr => ?_⟩
      · intro ⟨j, hj, hid⟩
        exact ⟨j, .head hc hj, hid⟩
      · intro ⟨j, hj, hid⟩
        rcases hj.cases_head with rfl | ⟨d, hd, hdj⟩
        · exact absurd hid hself
        · rw [hc] at hd
          exact ⟨j, some.inj hd ▸ hdj, hid⟩
      · obtain ⟨r, rfl⟩ : ∃ r, rounds = r + 1 := ⟨rounds - 1, by omega⟩
        rw [parentChainContains, if_neg (h.id_ne_zero hi), if_neg hself, h.findNode hi, ← hrounds r (by omega), ← hcid]

/-- The walk up ends, and tells whether it met the number. -/
theorem chain (ancestor : UInt32) (hi : (fs.nodes i).active) :
    ∃ answer, (answer = true ↔ ∃ j, Under fs.up i j ∧ (fs.nodes j).id = ancestor) ∧
      ∀ rounds, nodeLimit < rounds → fs.parentChainContains ancestor rounds (fs.nodes i).id = some answer := by
  obtain ⟨k, hk, hclimb⟩ := (h.rooted i hi).climb_lt
  rw [Fintype.card_fin] at hk
  obtain ⟨answer, hanswer, hrounds⟩ := h.chain_climb hi hclimb
  exact ⟨answer, hanswer, fun rounds hr => hrounds rounds (by omega)⟩

end

end IsTree

/-! ## What a call can do -/

theorem createChild_cases (fs : Ramfs) (parent : Fin nodeLimit) (leaf : List UInt8) (type : NodeType) :
    fs.createChild parent leaf type = none ∨
      ∃ i, ∃ name : Name, name.bytes = leaf ∧ fs.allocateNode = some i ∧ type ≠ .none ∧
        fs.createChild parent leaf type = some (i, fs.set i (newNode i (fs.nodes parent).id type name)) := by
  unfold createChild
  split
  · exact .inl rfl
  · rename_i hname
    split
    · exact .inl rfl
    · exact .inr ⟨_, ⟨leaf, by omega⟩, rfl, ‹_›, fun ht => hname (.inr (.inr ht)), rfl⟩

theorem create_cases (fs : Ramfs) (base : UInt32) (path : List UInt8) (type : NodeType) :
    fs.create base path type = (none, fs) ∨
      (∃ parent leaf i, fs.walkParent base path = some (parent, leaf) ∧ fs.findChild parent leaf = some i ∧
        (fs.nodes i).type = type ∧ fs.create base path type = (some (fs.nodes i).id, fs)) ∨
      ∃ parent i, ∃ name : Name, fs.walkParent base path = some (parent, name.bytes) ∧
        fs.findChild parent name.bytes = none ∧ fs.allocateNode = some i ∧ type ≠ .none ∧
        fs.create base path type = (some (numberAt i), fs.set i (newNode i (fs.nodes parent).id type name)) := by
  unfold create
  split
  · exact .inl rfl
  split
  · exact .inl rfl
  rename_i parent leaf hwalk
  split
  · rename_i existing hfound
    split
    · exact .inr (.inl ⟨parent, leaf, existing, hwalk, hfound, ‹_›, rfl⟩)
    · exact .inl rfl
  rename_i hnew
  rcases fs.createChild_cases parent leaf type with hnone | ⟨i, name, rfl, hi, htype, hsome⟩
  · exact .inl (by rw [hnone])
  · refine .inr (.inr ⟨parent, i, name, hwalk, hnew, hi, htype, ?_⟩)
    rw [hsome]
    simp [set, newNode]

theorem delete_cases (fs : Ramfs) (base : UInt32) (path : List UInt8) :
    fs.delete base path = (false, fs) ∨
      ∃ parent leaf i, fs.walkParent base path = some (parent, leaf) ∧ fs.findChild parent leaf = some i ∧
        (fs.nodes i).id ≠ nodeRoot ∧ ((fs.nodes i).type = .directory → fs.childCount i = 0) ∧
        fs.delete base path = (true, fs.set i .zero) := by
  unfold delete
  split
  · exact .inl rfl
  rename_i parent leaf hwalk
  split
  · exact .inl rfl
  rename_i i hfound
  split_ifs with hroot hchildren
  · exact .inl rfl
  · exact .inl rfl
  · exact .inr ⟨parent, leaf, i, hwalk, hfound, hroot, fun hd => not_not.1 fun hc => hchildren ⟨hd, hc⟩, rfl⟩

theorem write_cases (fs : Ramfs) (id : UInt32) (offset : Nat) (source : List UInt8) :
    fs.write id offset source = (none, fs) ∨
      ∃ i contents stored, fs.findNode id = some i ∧
        fs.write id offset source = (some stored, fs.set i { fs.nodes i with contents }) := by
  unfold write
  rcases hi : fs.findNode id with _ | i
  · exact .inl rfl
  by_cases hfile : (fs.nodes i).type ≠ .file ∨ fileCapacity < offset
  · exact .inl (dif_pos hfile)
  · exact .inr ⟨i, _, _, rfl, dif_neg hfile⟩

/-- The path of a new name in a call: the one it creates, or the one it moves to. -/
def Op.naming : Op → Option (UInt32 × List UInt8)
  | .create base path _ => some (base, path)
  | .move _ _ base path => some (base, path)
  | .rename base _ path => some (base, path)
  | _ => none

/-- What a call reports and does. -/
inductive Change (fs : Ramfs) (op : Op) : Bool → Ramfs → Prop
  | failed : Change fs op false fs
  | same : Change fs op true fs
  | created {base path} (parent i : Fin nodeLimit) (type : NodeType) (name : Name) (hop : op = .create base path type)
      (hwalk : fs.walkParent base path = some (parent, name.bytes)) (hnew : fs.findChild parent name.bytes = none)
      (hi : fs.allocateNode = some i) : Change fs op true (fs.set i (newNode i (fs.nodes parent).id type name))
  | moved {base path} (parent i : Fin nodeLimit) (name : Name) (hop : op.naming = some (base, path))
      (hwalk : fs.walkParent base path = some (parent, name.bytes)) (hnew : fs.findChild parent name.bytes = none)
      (hi : (fs.nodes i).active = true) (hroot : (fs.nodes i).parentId ≠ 0) (hcycle : ¬ Under fs.up parent i) :
      Change fs op true (fs.set i ((fs.nodes i).movedTo (fs.nodes parent).id name))
  | deleted (i : Fin nodeLimit) (hi : (fs.nodes i).active = true) (hroot : (fs.nodes i).id ≠ nodeRoot)
      (hempty : (fs.nodes i).type = .directory → fs.childCount i = 0) : Change fs op true (fs.set i .zero)
  | written (i : Fin nodeLimit) (contents : Contents) (hi : (fs.nodes i).active = true) :
      Change fs op true (fs.set i { fs.nodes i with contents })

theorem set_nodes (fs : Ramfs) (i j : Fin nodeLimit) (n : Node) :
    (fs.set i n).nodes j = if j = i then n else fs.nodes j := by
  simp [set, Function.update_apply]

theorem set_nodes_ne (n : Node) (h : j ≠ i) : (fs.set i n).nodes j = fs.nodes j := by
  rw [set_nodes, if_neg h]

theorem set_nodes_self (i : Fin nodeLimit) (n : Node) : (fs.set i n).nodes i = n := by rw [set_nodes, if_pos rfl]

theorem inactive_of_allocate (h : fs.allocateNode = some i) : (fs.nodes i).active = false := by
  simpa using first_some h

theorem childless_of_count (hdir : (fs.nodes i).type = .directory) (h : fs.childCount i = 0)
    (hj : (fs.nodes j).active = true) : (fs.nodes j).parentId ≠ (fs.nodes i).id := by
  rw [childCount, if_neg (not_not.2 hdir), countP_eq_zero] at h
  intro heq
  exact h j (mem_finRange j) (by simp [hj, heq])

namespace IsTree

section

variable (h : IsTree fs)
include h

/-- What a move does: nothing, or it puts the source under a directory that is not below it. -/
theorem move_spec (sourceBase : UInt32) (sourcePath : List UInt8) (destinationBase : UInt32)
    (destinationPath : List UInt8) :
    fs.move sourceBase sourcePath destinationBase destinationPath = some (false, fs) ∨
      ∃ sourceParent leaf i parent, ∃ name : Name,
        fs.walkParent sourceBase sourcePath = some (sourceParent, leaf) ∧ fs.findChild sourceParent leaf = some i ∧
        fs.walkParent destinationBase destinationPath = some (parent, name.bytes) ∧
        ((∃ existing, fs.findChild parent name.bytes = some existing ∧
            fs.move sourceBase sourcePath destinationBase destinationPath =
              some ((fs.nodes existing).id == (fs.nodes i).id, fs)) ∨
          fs.findChild parent name.bytes = none ∧ ¬ Under fs.up parent i ∧
            fs.move sourceBase sourcePath destinationBase destinationPath =
              some (true, fs.set i ((fs.nodes i).movedTo (fs.nodes parent).id name))) := by
  unfold move
  split
  · exact .inl rfl
  rename_i sourceParent leaf hsource
  split
  · exact .inl rfl
  rename_i parent destinationLeaf hwalk
  split
  · exact .inl rfl
  rcases hi : fs.findChild sourceParent leaf with _ | i
  · exact .inl rfl
  have hname : destinationLeaf.length < nameCapacity := by omega
  cases hnew : fs.findChild parent destinationLeaf with
  | some existing =>
    exact .inr ⟨sourceParent, leaf, i, parent, ⟨destinationLeaf, hname⟩, hsource, hi, hwalk, .inl ⟨existing, hnew, rfl⟩⟩
  | none =>
    obtain ⟨⟨hpa, hpdir⟩, -⟩ := h.walkParent hwalk
    by_cases hdir : (fs.nodes i).type = .directory
    · obtain ⟨answer, hanswer, hrounds⟩ := h.chain (fs.nodes i).id hpa
      simp only [hdir, if_true, hrounds (nodeLimit + 1) (Nat.lt_succ_self _)]
      cases answer with
      | true => exact .inl rfl
      | false =>
        have hcycle : ¬ Under fs.up parent i := fun hunder => by simpa using hanswer.2 ⟨i, hunder, rfl⟩
        exact .inr ⟨sourceParent, leaf, i, parent, ⟨destinationLeaf, hname⟩, hsource, hi, hwalk, .inr ⟨hnew, hcycle, rfl⟩⟩
    · simp only [hdir, if_false]
      have hcycle : ¬ Under fs.up parent i := fun hunder => hdir (h.under_file hpa hunder hdir ▸ hpdir)
      exact .inr ⟨sourceParent, leaf, i, parent, ⟨destinationLeaf, hname⟩, hsource, hi, hwalk, .inr ⟨hnew, hcycle, rfl⟩⟩

theorem change_move (op : Op) {sourceBase destinationBase : UInt32} {sourcePath destinationPath : List UInt8}
    (hop : op.naming = some (destinationBase, destinationPath)) :
    ∃ r fs', fs.move sourceBase sourcePath destinationBase destinationPath = some (r, fs') ∧ Change fs op r fs' := by
  rcases h.move_spec sourceBase sourcePath destinationBase destinationPath with
    heq | ⟨sourceParent, leaf, i, parent, name, hsource, hi, hwalk, ⟨existing, -, heq⟩ | ⟨hnew, hcycle, heq⟩⟩
  · exact ⟨_, _, heq, .failed⟩
  · refine ⟨_, _, heq, ?_⟩
    cases (fs.nodes existing).id == (fs.nodes i).id
    · exact .failed
    · exact .same
  · obtain ⟨hia, hip, -⟩ := findChild_some hi
    have hroot : (fs.nodes i).parentId ≠ 0 := hip ▸ h.id_ne_zero (h.walkParent hsource).1.1
    exact ⟨_, _, heq, .moved parent i name hop hwalk hnew hia hroot hcycle⟩

/-- Every call returns. -/
theorem change (op : Op) : ∃ r fs', fs.step op = some (r, fs') ∧ Change fs op r fs' := by
  cases op with
  | create base path type =>
    refine ⟨_, _, rfl, ?_⟩
    rcases fs.create_cases base path type with heq | ⟨_, _, _, _, _, _, heq⟩ | ⟨parent, i, name, hwalk, hnew, hi, _, heq⟩
    · rw [heq]
      exact .failed
    · rw [heq]
      exact .same
    · rw [heq]
      exact .created parent i type name rfl hwalk hnew hi
  | move sourceBase sourcePath destinationBase destinationPath | rename base sourcePath destinationPath =>
    exact h.change_move _ rfl
  | delete base path =>
    refine ⟨(fs.delete base path).1, (fs.delete base path).2, rfl, ?_⟩
    rcases fs.delete_cases base path with heq | ⟨parent, leaf, i, hwalk, hi, hroot, hempty, heq⟩
    · rw [heq]
      exact .failed
    · rw [heq]
      exact .deleted i (findChild_some hi).1 hroot hempty
  | write id offset source =>
    refine ⟨_, _, rfl, ?_⟩
    rcases fs.write_cases id offset source with heq | ⟨i, contents, stored, hi, heq⟩
    · rw [heq]
      exact .failed
    · rw [heq]
      exact .written i contents (findNode_some hi).1

/-! ### Each change keeps the tree -/

variable {i : Fin nodeLimit}

/-- A record is put under a directory that is not below it; a record in use keeps its number and type. -/
theorem placed {n : Node} (hp : (fs.nodes parent).active) (hdir : (fs.nodes parent).type = .directory) (hi0 : 0 ≠ i)
    (hcycle : ¬ Under fs.up parent i) (hactive : n.active) (hid : n.id = numberAt i)
    (hparent : n.parentId = (fs.nodes parent).id) (htype : (fs.nodes i).active → n.type = (fs.nodes i).type) :
    IsTree (fs.set i n) := by
  have hself : (fs.set i n).nodes i = n := set_nodes_self i _
  have hother : ∀ j, j ≠ i → (fs.set i n).nodes j = fs.nodes j := fun j hj => set_nodes_ne _ hj
  generalize fs.set i n = fs' at hself hother ⊢
  have hsame : ∀ j, (fs.nodes j).active → (fs'.nodes j).active ∧ (fs'.nodes j).id = (fs.nodes j).id ∧
      (fs'.nodes j).type = (fs.nodes j).type := by
    intro j hj
    by_cases hji : j = i
    · subst hji
      rw [hself]
      exact ⟨hactive, hid.trans (h.number j hj).symm, htype hj⟩
    · rw [hother j hji]
      exact ⟨hj, rfl, rfl⟩
  have hnumber : ∀ j, (fs'.nodes j).active → (fs'.nodes j).id = numberAt j := by
    intro j hj
    by_cases hji : j = i
    · rw [hji, hself, hid]
    · rw [hother j hji] at hj ⊢
      exact h.number j hj
  have hup : ∀ c d, c ≠ i → fs.up c = some d → fs'.up c = some d := by
    intro c d hc hd
    obtain ⟨hda, hid⟩ := h.up_iff.1 hd
    exact up_of_number hnumber (hsame d hda).1 (by rw [hother c hc, (hsame d hda).2.1, hid])
  have hnew : fs'.up i = some parent :=
    up_of_number hnumber (hsame parent hp).1 (by rw [hself, (hsame parent hp).2.1, hparent])
  have hrooted : ∀ j, (fs.nodes j).active → Under fs'.up j 0 :=
    fun j hj => (h.rooted j hj).reparent (h.rooted parent hp) hcycle hnew hup
  have hzero := hother 0 hi0
  refine ⟨hnumber, hzero ▸ h.root_active, hzero ▸ h.root_type, hzero ▸ h.root_parent, fun j hj hj0 => ?_, fun j hj => ?_⟩
  · by_cases hji : j = i
    · exact ⟨parent, hji ▸ hnew, by rwa [(hsame parent hp).2.2]⟩
    · rw [hother j hji] at hj
      obtain ⟨k, hk, hkdir⟩ := h.parent j hj hj0
      exact ⟨k, hup j k hji hk, by rwa [(hsame k (h.up_iff.1 hk).1).2.2]⟩
  · by_cases hji : j = i
    · exact .head (hji ▸ hnew) (hrooted parent hp)
    · rw [hother j hji] at hj
      exact hrooted j hj

theorem created (type : NodeType) (name : Name) (hp : (fs.nodes parent).active) (hdir : (fs.nodes parent).type = .directory)
    (hi : (fs.nodes i).active = false) : IsTree (fs.set i (newNode i (fs.nodes parent).id type name)) := by
  have hne : ¬ (fs.nodes i).active := by simp [hi]
  exact h.placed hp hdir (fun heq => hne (heq ▸ h.root_active)) (fun hunder => hne (active_of_under hp hunder)) rfl rfl rfl
    fun ha => absurd ha hne

/-- A record that may be deleted has no children. -/
theorem childless (hempty : (fs.nodes i).type = .directory → fs.childCount i = 0) (hj : (fs.nodes j).active) :
    fs.up j ≠ some i := by
  intro hu
  have hdir := h.directory_of_up hj hu
  exact childless_of_count hdir (hempty hdir) hj (h.up_iff.1 hu).2

theorem deleted (hroot : i ≠ 0)
    (hempty : (fs.nodes i).type = .directory → fs.childCount i = 0) : IsTree (fs.set i .zero) := by
  have hkept : ∀ j, ((fs.set i .zero).nodes j).active → j ≠ i := by
    intro j hj heq
    rw [heq, set_nodes_self] at hj
    simp [Node.zero] at hj
  have hother : ∀ j, j ≠ i → (fs.set i .zero).nodes j = fs.nodes j := fun j hj => set_nodes_ne _ hj
  generalize fs.set i .zero = fs' at hkept hother ⊢
  have hnumber : ∀ j, (fs'.nodes j).active → (fs'.nodes j).id = numberAt j := by
    intro j hj
    have hji := hkept j hj
    rw [hother j hji] at hj ⊢
    exact h.number j hj
  have hup : ∀ c d, (fs.nodes c).active → c ≠ i → fs.up c = some d → fs'.up c = some d := by
    intro c d hc hci hd
    obtain ⟨hda, hid⟩ := h.up_iff.1 hd
    have hdi : d ≠ i := fun heq => h.childless hempty hc (heq ▸ hd)
    exact up_of_number hnumber (by rwa [hother d hdi]) (by rw [hother c hci, hother d hdi, hid])
  have hzero := hother 0 (Ne.symm hroot)
  refine ⟨hnumber, hzero ▸ h.root_active, hzero ▸ h.root_type, hzero ▸ h.root_parent, fun j hj hj0 => ?_, fun j hj => ?_⟩
  · have hji := hkept j hj
    rw [hother j hji] at hj
    obtain ⟨k, hk, hkdir⟩ := h.parent j hj hj0
    have hki : k ≠ i := fun heq => h.childless hempty hj (heq ▸ hk)
    exact ⟨k, hup j k hj hji hk, by rwa [hother k hki]⟩
  · have hji := hkept j hj
    rw [hother j hji] at hj
    refine (h.rooted j hj).congr fun c d hc hd => hup c d (active_of_under hj hc) (fun hci => ?_) hd
    -- the way up from `j` meets `i` only through a child of `i`
    rcases Relation.ReflTransGen.cases_tail (hci ▸ hc) with heq | ⟨k, hjk, hki⟩
    · exact hji heq.symm
    · exact h.childless hempty (active_of_under hj hjk) hki

theorem written (i : Fin nodeLimit) (contents : Contents) :
    IsTree (fs.set i { fs.nodes i with contents }) := by
  have hsame : ∀ j, ((fs.set i { fs.nodes i with contents }).nodes j).active = (fs.nodes j).active ∧
      ((fs.set i { fs.nodes i with contents }).nodes j).id = (fs.nodes j).id ∧
      ((fs.set i { fs.nodes i with contents }).nodes j).type = (fs.nodes j).type ∧
      ((fs.set i { fs.nodes i with contents }).nodes j).parentId = (fs.nodes j).parentId := by
    intro j
    by_cases hji : j = i
    · rw [hji, set_nodes_self]
      exact ⟨rfl, rfl, rfl, rfl⟩
    · rw [set_nodes_ne _ hji]
      exact ⟨rfl, rfl, rfl, rfl⟩
  generalize fs.set i { fs.nodes i with contents } = fs' at hsame ⊢
  have hup : fs'.up = fs.up := by
    funext j
    simp only [up, Ramfs.findNode, first, (hsame _).1, (hsame _).2.1, (hsame _).2.2.2]
  refine ⟨fun j hj => ?_, (hsame 0).1 ▸ h.root_active, (hsame 0).2.2.1 ▸ h.root_type, (hsame 0).2.2.2 ▸ h.root_parent,
    fun j hj hj0 => ?_, fun j hj => ?_⟩
  · rw [(hsame j).1] at hj
    rw [(hsame j).2.1, h.number j hj]
  · rw [(hsame j).1] at hj
    obtain ⟨k, hk, hkdir⟩ := h.parent j hj hj0
    exact ⟨k, hup ▸ hk, by rwa [(hsame k).2.2.1]⟩
  · rw [(hsame j).1] at hj
    exact hup ▸ h.rooted j hj

theorem step {op : Op} (hc : Change fs op r fs') : IsTree fs' := by
  cases hc with
  | failed | same => exact h
  | created parent i type name hop hwalk hnew hi =>
    obtain ⟨⟨hp, hdir⟩, -⟩ := h.walkParent hwalk
    exact h.created type name hp hdir (inactive_of_allocate hi)
  | moved parent i name hop hwalk hnew hi hroot hcycle =>
    obtain ⟨⟨hp, hdir⟩, -⟩ := h.walkParent hwalk
    exact h.placed hp hdir (fun heq => hroot (heq ▸ h.root_parent)) hcycle hi (h.number i hi) rfl fun _ => rfl
  | deleted i hi hroot hempty => exact h.deleted (fun heq => hroot (heq ▸ h.root_id)) hempty
  | written i contents hi => exact h.written i contents

end

end IsTree

theorem isTree_init : IsTree init := by
  have hnumber : ∀ i, (init.nodes i).active → (init.nodes i).id = numberAt i := by decide +kernel
  have hparent : ∀ i, (init.nodes i).active → i ≠ 0 →
      ∃ j, init.up i = some j ∧ (init.nodes j).type = .directory := by decide +kernel
  have hrooted : ∀ i, (init.nodes i).active → climb init.up 0 i = some 0 ∨ climb init.up 1 i = some 0 ∨
      climb init.up 2 i = some 0 := by decide +kernel
  refine ⟨hnumber, by decide +kernel, by decide +kernel, by decide +kernel, hparent, fun i hi => ?_⟩
  rcases hrooted i hi with h | h | h <;> exact under_iff_climb.2 ⟨_, h⟩

theorem IsTree.run (h : IsTree start) (ops : List Op) : ∃ fs, start.run ops = some fs ∧ IsTree fs := by
  induction ops generalizing start with
  | nil => exact ⟨start, rfl, h⟩
  | cons op ops ih =>
    obtain ⟨r, next, hstep, hc⟩ := h.change op
    obtain ⟨fs, hrun, htree⟩ := ih (h.step hc)
    exact ⟨fs, by simp [Ramfs.run, hstep, hrun], htree⟩

/-! ## Distinct names -/

/-- No two records of a directory have the same name. -/
def DistinctNames (fs : Ramfs) : Prop :=
  ∀ i j, (fs.nodes i).active = true → (fs.nodes j).active = true → (fs.nodes i).parentId = (fs.nodes j).parentId →
    (fs.nodes i).name.text = (fs.nodes j).name.text → i = j

/-- The path of a new name has no zero byte. -/
def Op.Terminated (op : Op) : Prop := ∀ named ∈ op.naming, (0 : UInt8) ∉ named.2

instance (op : Op) : Decidable op.Terminated := inferInstanceAs (Decidable (∀ named ∈ op.naming, (0 : UInt8) ∉ named.2))

theorem Name.text_of_terminated (h : (0 : UInt8) ∉ name.bytes) : name.text = name.bytes := by
  rw [Name.text, takeWhile_eq_self_iff]
  intro b hb
  exact decide_eq_true fun h0 => h (h0 ▸ hb)

/-- A name that is not found in a directory is nobody's name there. -/
theorem name_ne_of_findChild (h0 : (0 : UInt8) ∉ segment) (hne : segment ≠ []) (h : fs.findChild parent segment = none)
    (hi : (fs.nodes i).active) (hp : (fs.nodes i).parentId = (fs.nodes parent).id) :
    (fs.nodes i).name.text ≠ segment := by
  intro htext
  rw [findChild, if_neg hne, first_none] at h
  have hfalse := h i
  simp [hi, hp, (textEqualsSegment_iff h0).2 htext] at hfalse

theorem DistinctNames.renamed (h : DistinctNames fs) {n : Node} (h0 : (0 : UInt8) ∉ name.bytes) (hne : name.bytes ≠ [])
    (hnew : fs.findChild parent name.bytes = none) (hp : n.parentId = (fs.nodes parent).id) (hname : n.name = name) :
    DistinctNames (fs.set i n) := by
  have hfresh : ∀ j, (fs.nodes j).active → (fs.nodes j).parentId = n.parentId →
      (fs.nodes j).name.text ≠ n.name.text := by
    intro j hj hjp
    rw [hname, Name.text_of_terminated h0]
    exact name_ne_of_findChild h0 hne hnew hj (hjp.trans hp)
  intro j k hj hk hparent htext
  by_cases hji : j = i <;> by_cases hki : k = i
  · rw [hji, hki]
  · rw [hji, set_nodes_self, set_nodes_ne _ hki] at hparent htext
    rw [set_nodes_ne _ hki] at hk
    exact absurd htext.symm (hfresh k hk hparent.symm)
  · rw [hki, set_nodes_self, set_nodes_ne _ hji] at hparent htext
    rw [set_nodes_ne _ hji] at hj
    exact absurd htext (hfresh j hj hparent)
  · rw [set_nodes_ne _ hji] at hj hparent htext
    rw [set_nodes_ne _ hki] at hk hparent htext
    exact h j k hj hk hparent htext

/-- Whoever is left has the same parent and name. -/
theorem DistinctNames.of_same (h : DistinctNames fs) (hsame : ∀ j, (fs'.nodes j).active = true → (fs.nodes j).active = true ∧
    (fs'.nodes j).parentId = (fs.nodes j).parentId ∧ (fs'.nodes j).name = (fs.nodes j).name) : DistinctNames fs' := by
  intro j k hj hk hparent htext
  obtain ⟨hj, hjp, hjn⟩ := hsame j hj
  obtain ⟨hk, hkp, hkn⟩ := hsame k hk
  rw [hjp, hkp] at hparent
  rw [hjn, hkn] at htext
  exact h j k hj hk hparent htext

theorem DistinctNames.step (h : DistinctNames fs) (ht : IsTree fs) {op : Op} (hop : op.Terminated)
    (hc : Change fs op r fs') : DistinctNames fs' := by
  have hname : ∀ {base path parent} {name : Name}, op.naming = some (base, path) →
      fs.walkParent base path = some (parent, name.bytes) → (0 : UInt8) ∉ name.bytes ∧ name.bytes ≠ [] := by
    intro base path parent name hnaming hwalk
    have hleaf := (ht.walkParent hwalk).2
    exact ⟨zero_notMem_segment hleaf (hop _ hnaming), segment_ne_nil hleaf⟩
  cases hc with
  | failed | same => exact h
  | created parent i type name hnaming hwalk hnew hi =>
    obtain ⟨h0, hne⟩ := hname (by rw [hnaming]; rfl) hwalk
    exact h.renamed h0 hne hnew rfl rfl
  | moved parent i name hnaming hwalk hnew hi hroot hcycle =>
    obtain ⟨h0, hne⟩ := hname hnaming hwalk
    exact h.renamed h0 hne hnew rfl rfl
  | deleted i hi hroot hempty =>
    refine h.of_same fun j hj => ?_
    by_cases hji : j = i
    · rw [hji, set_nodes_self] at hj
      simp [Node.zero] at hj
    · rw [set_nodes_ne _ hji] at hj ⊢
      exact ⟨hj, rfl, rfl⟩
  | written i contents hi =>
    refine h.of_same fun j hj => ?_
    by_cases hji : j = i
    · rw [hji, set_nodes_self] at hj ⊢
      exact ⟨hj, rfl, rfl⟩
    · rw [set_nodes_ne _ hji] at hj ⊢
      exact ⟨hj, rfl, rfl⟩

theorem distinctNames_init : DistinctNames init := by
  unfold DistinctNames
  decide +kernel

theorem DistinctNames.run (h : DistinctNames start) (ht : IsTree start) {ops : List Op} (hops : ∀ op ∈ ops, op.Terminated)
    (hrun : start.run ops = some fs) : DistinctNames fs := by
  induction ops generalizing start with
  | nil => exact some.inj hrun ▸ h
  | cons op ops ih =>
    obtain ⟨r, next, hstep, hc⟩ := ht.change op
    rw [Ramfs.run, hstep] at hrun
    exact ih (h.step ht (hops op mem_cons_self) hc) (ht.step hc) (fun o ho => hops o (mem_cons_of_mem _ ho)) hrun

/-! ## The tree of every run -/

structure WellFormed (fs : Ramfs) : Prop where
  ids : ∀ i j, (fs.nodes i).active = true → (fs.nodes j).active = true → (fs.nodes i).id = (fs.nodes j).id → i = j
  root : ∃ i, (fs.nodes i).active = true ∧ (fs.nodes i).id = nodeRoot ∧ (fs.nodes i).type = .directory
  parents : ∀ i, (fs.nodes i).active = true → (fs.nodes i).id ≠ nodeRoot →
    ∃ j, (fs.nodes j).active = true ∧ (fs.nodes j).id = (fs.nodes i).parentId ∧ (fs.nodes j).type = .directory
  children : ∀ i j, (fs.nodes i).active = true → (fs.nodes j).active = true →
    (fs.nodes i).parentId = (fs.nodes j).id → (fs.nodes j).type = .directory
  depth : ∀ i, (fs.nodes i).active = true →
    ∃ steps < nodeLimit, ∃ root, climb fs.up steps i = some root ∧ (fs.nodes root).id = nodeRoot
  walks : ∀ i ancestor, (fs.nodes i).active = true →
    ∃ answer, ∀ rounds, nodeLimit < rounds → fs.parentChainContains ancestor rounds (fs.nodes i).id = some answer

theorem IsTree.wellFormed (h : IsTree fs) : WellFormed fs where
  ids _ _ hi hj heq := h.id_inj hi hj heq
  root := ⟨0, h.root_active, h.root_id, h.root_type⟩
  parents i hi hroot := by
    obtain ⟨j, hj, hdir⟩ := h.parent i hi fun h0 => hroot (h0 ▸ h.root_id)
    obtain ⟨hja, hid⟩ := h.up_iff.1 hj
    exact ⟨j, hja, hid.symm, hdir⟩
  children i j hi hj heq := h.directory_of_up hi (h.up_iff.2 ⟨hj, heq⟩)
  depth i hi := by
    obtain ⟨k, hk, hclimb⟩ := (h.rooted i hi).climb_lt
    exact ⟨k, by simpa using hk, 0, hclimb, h.root_id⟩
  walks i ancestor hi := by
    obtain ⟨answer, -, hrounds⟩ := h.chain ancestor hi
    exact ⟨answer, hrounds⟩

/-- Every run returns, with a tree in which a failed call changes nothing; the names in each
    directory are distinct if no new name of the run holds a zero byte. -/
theorem tree_of_run (ops : List Op) :
    ∃ fs, init.run ops = some fs ∧ WellFormed fs ∧
      (∀ op, ∃ r fs', fs.step op = some (r, fs') ∧ (r = false → fs' = fs)) ∧
      ((∀ op ∈ ops, op.Terminated) → DistinctNames fs) := by
  obtain ⟨fs, hrun, htree⟩ := isTree_init.run ops
  refine ⟨fs, hrun, htree.wellFormed, fun op => ?_, fun hops => distinctNames_init.run isTree_init hops hrun⟩
  obtain ⟨r, fs', hstep, hc⟩ := htree.change op
  refine ⟨r, fs', hstep, fun hr => ?_⟩
  cases hc with
  | failed => rfl
  | same | created | moved | deleted | written => cases hr

theorem tree_of_moves :
    let ops := [.create 1 (ascii "docs") .directory, .move 1 (ascii "APPS/HELLO.TXT") 1 (ascii "docs/hello")]
    ∃ fs, init.run ops = some fs ∧ DistinctNames fs := by
  obtain ⟨fs, hrun, -, -, hnames⟩ := tree_of_run
    [.create 1 (ascii "docs") .directory, .move 1 (ascii "APPS/HELLO.TXT") 1 (ascii "docs/hello")]
  exact ⟨fs, hrun, hnames (by decide +kernel)⟩

/-- A file, and another whose name goes on behind a zero byte. -/
def twins : List Op := [.create 1 (ascii "a") .file, .create 1 (ascii "a" ++ 0 :: ascii "b") .file]

theorem tree_fails : ∃ fs, init.run twins = some fs ∧ ¬ DistinctNames fs := by
  obtain ⟨fs, hrun, -⟩ := isTree_init.run twins
  have hsame : (init.run twins).all (fun fs => (fs.nodes 26).active && (fs.nodes 27).active &&
      (fs.nodes 26).parentId == (fs.nodes 27).parentId && (fs.nodes 26).name.text == (fs.nodes 27).name.text) := by
    decide +kernel
  rw [hrun] at hsame
  simp only [all_some, Bool.and_eq_true, beq_iff_eq] at hsame
  obtain ⟨⟨⟨h26, h27⟩, hparent⟩, htext⟩ := hsame
  exact ⟨fs, hrun, fun hnames => absurd (hnames 26 27 h26 h27 hparent htext) (by decide)⟩

/-! ## The tree as a type -/

theorem nodeExists_iff : fs.nodeExists id ↔ ∃ i, (fs.nodes i).active ∧ (fs.nodes i).id = id := by
  constructor
  · intro h
    obtain ⟨i, hi⟩ := isSome_iff_exists.1 h
    exact ⟨i, findNode_some hi⟩
  intro ⟨i, hi, hid⟩
  cases hf : fs.findNode id with
  | some j => simp [nodeExists, hf]
  | none =>
    have hfalse := first_none.1 hf i
    simp [hi, hid] at hfalse

theorem nodeExists_of_nodeIsDirectory (h : fs.nodeIsDirectory id) : fs.nodeExists id := by
  unfold nodeIsDirectory at h
  unfold nodeExists
  cases hf : fs.findNode id with
  | none => simp [hf] at h
  | some i => rfl

/-- Only a create adds a node, with the number of the first free record. -/
theorem Change.nodeExists {op : Op} (hc : Change fs op r fs') (h : fs'.nodeExists id) : fs.nodeExists id ∨
      (∃ base path type, op = .create base path type) ∧ ∃ i, fs.allocateNode = some i ∧ id = numberAt i := by
  rw [nodeExists_iff] at h ⊢
  obtain ⟨j, hj, hid⟩ := h
  have hkept : ∀ {i : Fin nodeLimit} {n : Node}, ((fs.set i n).nodes j).active → ((fs.set i n).nodes j).id = id →
      (n.active → (fs.nodes i).active ∧ (fs.nodes i).id = n.id) →
      ∃ i, (fs.nodes i).active ∧ (fs.nodes i).id = id := by
    intro i n hj hid hn
    by_cases hji : j = i
    · rw [hji, set_nodes_self] at hj hid
      exact ⟨i, (hn hj).1, (hn hj).2.trans hid⟩
    · rw [set_nodes_ne _ hji] at hj hid
      exact ⟨j, hj, hid⟩
  cases hc with
  | failed | same => exact .inl ⟨j, hj, hid⟩
  | created parent i type name hop hwalk hnew hi =>
    by_cases hji : j = i
    · rw [hji, set_nodes_self] at hid
      exact .inr ⟨⟨_, _, _, hop⟩, i, hi, hid.symm⟩
    · rw [set_nodes_ne _ hji] at hj hid
      exact .inl ⟨j, hj, hid⟩
  | moved parent i name hop hwalk hnew hi hroot hcycle | written i contents hi => exact .inl (hkept hj hid fun _ => ⟨hi, rfl⟩)
  | deleted i hi hroot hempty => exact .inl (hkept hj hid fun ha => by simp [Node.zero] at ha)

theorem IsTree.of_step (h : IsTree fs) {o : Op} (hstep : fs.step o = some (r, fs')) : IsTree fs' ∧ Change fs o r fs' := by
  obtain ⟨r', next, hstep', hc⟩ := h.change o
  obtain ⟨rfl, rfl⟩ := Prod.mk.inj (mem_unique hstep hstep')
  exact ⟨h.step hc, hc⟩

/-- A table whose records form a tree. -/
structure Tree where
  fs : Ramfs
  isTree : IsTree fs

namespace Tree

/-- The tree after `ramfs_init`. -/
def boot : Tree := ⟨init, isTree_init⟩

/-- `ramfs_open`, with the number it writes out. -/
def openPath (t : Tree) (base : UInt32) (path : List UInt8) : Option UInt32 :=
  (t.fs.openPath base path).map fun i => (t.fs.nodes i).id

/-- `ramfs_create` -/
def create (t : Tree) (base : UInt32) (path : List UInt8) (type : NodeType) : Option UInt32 × Tree :=
  ((t.fs.create base path type).1,
    ⟨(t.fs.create base path type).2, (t.isTree.of_step (o := .create base path type) rfl).1⟩)

/-- `ramfs_write` -/
def write (t : Tree) (id : UInt32) (offset : Nat) (source : List UInt8) : Option Nat × Tree :=
  ((t.fs.write id offset source).1,
    ⟨(t.fs.write id offset source).2, (t.isTree.of_step (o := .write id offset source) rfl).1⟩)

/-- `ramfs_delete` -/
def delete (t : Tree) (base : UInt32) (path : List UInt8) : Bool × Tree :=
  ((t.fs.delete base path).1, ⟨(t.fs.delete base path).2, (t.isTree.of_step (o := .delete base path) rfl).1⟩)

/-- `ramfs_move`. In a tree it always returns (`IsTree.change`). -/
def move (t : Tree) (sourceBase : UInt32) (sourcePath : List UInt8) (destinationBase : UInt32)
    (destinationPath : List UInt8) : Bool × Tree :=
  match h : t.fs.move sourceBase sourcePath destinationBase destinationPath with
  | some r => (r.1, ⟨r.2, (t.isTree.of_step (o := .move sourceBase sourcePath destinationBase destinationPath) h).1⟩)
  | none => (false, t)

/-- `ramfs_rename` -/
def rename (t : Tree) (base : UInt32) (sourcePath destinationPath : List UInt8) : Bool × Tree :=
  t.move base sourcePath base destinationPath

end Tree

end LimitlessOS.Ramfs
