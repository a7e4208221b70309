/-
  LimitlessOS.Vfs.Privacy — whose files in /tmp a process reaches.

  What a process creates in /tmp stands in its own directory /tmp/p<pid> of the shared tree.
  A descriptor is private if the node it is open on does not stand in the directory of
  another process; reads and writes go to the node of the descriptor.

  The rule (`Confined`): the path behind the links does not spell out the directory of
  another process, and a process deletes no file that it has a descriptor on.

  Proved:
  - `tmpBackendPath_names`: where the path that stands for a name in /tmp leads.
  - `Sound.step`: one call that follows the rule, by what it does to nodes and descriptors.
  - `private_of_confined`: every run that follows the rule.

  `spelled_out`: only single names are replaced, so /tmp/p5/a is the file `a` of process 5
  for everyone.
-/
import LimitlessOS.Vfs.Namespace

namespace LimitlessOS.Vfs

open Function Lib Ramfs Tree List Option

variable {s s' : Vfs}

/-! ## Where the paths of a process lead -/

/-- The name of the directory of a process in /tmp. -/
def ownName (pid : UInt32) : List UInt8 := ascii "p" ++ decimal pid.toNat

def tmpName : List UInt8 := ascii "tmp"

/-- The bytes of the names and paths that the code spells out. -/
theorem tmp_literals :
    tmpName = [0x74, 0x6D, 0x70] ∧ ascii "p" = [0x70] ∧ ascii "/tmp" = slash :: tmpName ∧
      ascii "/tmp/" = slash :: tmpName ++ [slash] ∧ ascii "/tmp/p" = slash :: tmpName ++ slash :: ascii "p" := by
  decide +kernel

theorem tmpName_bytes : tmpName = [0x74, 0x6D, 0x70] := tmp_literals.1

theorem ascii_p : ascii "p" = [0x70] := tmp_literals.2.1

theorem ascii_tmp_p : ascii "/tmp/p" = slash :: tmpName ++ slash :: ascii "p" := tmp_literals.2.2.2.2

theorem slash_notMem_tmpName : slash ∉ tmpName := by
  rw [tmpName_bytes]
  decide

theorem tmpName_ne_nil : tmpName ≠ [] := by
  rw [tmpName_bytes]
  decide

theorem tmpName_ne_dot : tmpName ≠ [dot] := by
  rw [tmpName_bytes]
  decide

theorem zero_notMem_tmpName : (0 : UInt8) ∉ tmpName := by
  rw [tmpName_bytes]
  decide

theorem ownName_inj {p q : UInt32} (h : ownName p = ownName q) : p = q :=
  UInt32.toNat_inj.1 (decimal_inj (append_cancel_left h))

variable {pid : UInt32} {path segment rest name : List UInt8} {place : List (List UInt8) → Prop}

theorem segmentsFrom_append (hs : slash ∉ segment) (acc : List UInt8) :
    segmentsFrom acc (segment ++ rest) = segmentsFrom (acc ++ segment) rest := by
  induction segment generalizing acc with
  | nil => simp
  | cons b segment ih =>
    have hb : b ≠ slash := fun h => hs (h ▸ mem_cons_self)
    rw [cons_append, segmentsFrom, if_pos hb, ih fun h => hs (mem_cons_of_mem _ h)]
    simp

theorem segments_slash (hs : slash ∉ segment) (hne : segment ≠ []) :
    segments (slash :: segment ++ slash :: rest) = segment :: segments (slash :: rest) := by
  have hskip : ∀ path, segments (slash :: path) = segmentsFrom [] path := fun path => by simp [segments, segmentsFrom]
  rw [cons_append, hskip, segmentsFrom_append hs, nil_append, segmentsFrom, if_neg (by simp), if_neg hne, hskip]

theorem segments_last (hs : slash ∉ segment) (hne : segment ≠ []) : segments (slash :: segment) = [segment] := by
  have h : segmentsFrom [] (segment ++ []) = segmentsFrom ([] ++ segment) [] := segmentsFrom_append hs []
  rw [append_nil, nil_append] at h
  rw [segments, segmentsFrom, if_neg (by simp), if_pos rfl, h, segmentsFrom, if_neg hne]

theorem tmpChildName_some (h : tmpChildName path = some name) :
    path = ascii "/tmp/" ++ name ∧ name ≠ [] ∧ slash ∉ name ∧ name ≠ [dot] ∧ name.length ≤ direntNameMax := by
  unfold tmpChildName at h
  split_ifs at h with hshort hslash hdots
  obtain rfl : path.drop 5 = name := some.inj h
  obtain ⟨hlong, htake⟩ := not_or.1 hshort
  obtain ⟨hlength, hany⟩ := not_or.1 hslash
  refine ⟨?_, ?_, fun hmem => hany (any_eq_true.2 ⟨slash, hmem, by simp⟩), fun hd => hdots (.inl hd), by omega⟩
  · rw [← not_not.1 htake, take_append_drop]
  · intro hnil
    have hlen := congrArg length hnil
    rw [length_drop, length_nil] at hlen
    omega

theorem slash_notMem_ownName (pid : UInt32) : slash ∉ ownName pid := by
  intro h
  rcases mem_append.1 h with h | h
  · rw [ascii_p] at h
    exact absurd h (by decide)
  · have hdigit := decimal_digit h
    have hslash : slash.toNat = 47 := rfl
    omega

theorem zero_notMem_ownName (pid : UInt32) : (0 : UInt8) ∉ ownName pid := by
  intro h
  rcases mem_append.1 h with h | h
  · rw [ascii_p] at h
    exact absurd h (by decide)
  · have hdigit := decimal_digit h
    have hzero : (0 : UInt8).toNat = 0 := rfl
    omega

theorem ownName_ne_nil (pid : UInt32) : ownName pid ≠ [] := by
  rw [ownName, ascii_p]
  exact cons_ne_nil _ _

theorem ownName_ne_dot (pid : UInt32) : ownName pid ≠ [dot] := by
  intro h
  have hhead := congrArg head? h
  rw [ownName, ascii_p, head?_append_of_ne_nil _ (cons_ne_nil _ _)] at hhead
  exact absurd hhead (by decide)

/-- The path that stands for a name of a process leads to that name in the directory of the process. -/
theorem tmpBackendPath_names {backend : List UInt8} (h0 : (0 : UInt8) ∉ path) (h : tmpBackendPath pid path = some backend) :
    (0 : UInt8) ∉ backend ∧ ∃ name, tmpChildName path = some name ∧ namesOf backend = [tmpName, ownName pid, name] := by
  obtain ⟨name, hname, happend⟩ := bind_eq_some_iff.1 h
  obtain ⟨hpath, hne, hslash, hdot, -⟩ := tmpChildName_some hname
  have hzero : (0 : UInt8) ∉ name := fun hmem => h0 (hpath ▸ mem_append_right _ hmem)
  have hbackend : backend = slash :: tmpName ++ slash :: (ownName pid ++ slash :: name) := by
    rw [appendAll_eq (Nat.zero_le _), ite_none_right_eq_some] at happend
    rw [← some.inj happend.2]
    simp [ascii_tmp_p, ownName]
  have hsegments : segments backend = [tmpName, ownName pid, name] := by
    rw [hbackend, segments_slash slash_notMem_tmpName tmpName_ne_nil]
    rw [← cons_append, segments_slash (slash_notMem_ownName pid) (ownName_ne_nil pid), segments_last hslash hne]
  refine ⟨?_, name, hname, ?_⟩
  · rw [hbackend]
    simp only [mem_append, mem_cons, not_or]
    exact ⟨⟨by decide, zero_notMem_tmpName⟩, by decide, zero_notMem_ownName pid, by decide, hzero⟩
  · rw [namesOf, hsegments]
    simp [tmpName_ne_dot, ownName_ne_dot pid, hdot]

/-! ## What the calls do to nodes and descriptors -/

/-- No node goes or moves; a descriptor that is open on a node was so before, or is one of the process whose node
    stands at such a place. -/
structure Opens (s s' : Vfs) (pid : UInt32) (place : List (List UInt8) → Prop) : Prop where
  grows : Grows s.tree.fs s'.tree.fs
  targets : ∀ p fd id, s'.target p fd = some (.node id) →
    s.target p fd = some (.node id) ∨ p = pid ∧ ∃ names, place names ∧ s'.tree.NodeAt names id

theorem Opens.refl (s : Vfs) (pid : UInt32) (place : List (List UInt8) → Prop) : Opens s s pid place :=
  ⟨.refl _, fun _ _ _ h => .inl h⟩

theorem Opens.of_tables (hg : Grows s.tree.fs s'.tree.fs) (h : s'.tables = s.tables) : Opens s s' pid place :=
  ⟨hg, fun _ _ _ ht => .inl (by rwa [target, h] at ht)⟩

theorem Opens.after {s'' : Vfs} (h' : Opens s' s'' pid place)
    (hg : Grows s.tree.fs s'.tree.fs) (h : s'.tables = s.tables) : Opens s s'' pid place :=
  ⟨hg.trans h'.grows, fun p fd id ht => (h'.targets p fd id ht).imp_left fun ht => by rwa [target, h] at ht⟩

theorem Opens.imp {place' : List (List UInt8) → Prop} (h : Opens s s' pid place)
    (himp : ∀ names, place names → place' names) : Opens s s' pid place' := by
  refine ⟨h.grows, fun p fd id ht => (h.targets p fd id ht).imp_right ?_⟩
  rintro ⟨hp, names, hplace, hat⟩
  exact ⟨hp, names, himp names hplace, hat⟩

theorem createKernel_grows (t : Tree) (path : List UInt8) (type : NodeType) (answer : Service) :
    Grows t.fs (createKernel t path type answer).2.fs := by
  unfold createKernel
  split
  · exact .refl _
  · split <;> exact create_grows ‹_›

theorem tmpEnsureNamespace_grows (t : Tree) (pid : UInt32) (a : EnsureAnswers) :
    Grows t.fs (tmpEnsureNamespace t pid a).2.fs := by
  have hg := createKernel_grows t (ascii "/tmp") .directory a.tmp
  unfold tmpEnsureNamespace
  split <;> rename_i heq <;> rw [heq] at hg
  · exact hg
  · split
    · exact hg
    · exact hg.trans (createKernel_grows _ _ _ _)

theorem recordTmpFile_rest (s : Vfs) (pid : UInt32) (name : List UInt8) :
    (s.recordTmpFile pid name).2.tree = s.tree ∧ (s.recordTmpFile pid name).2.tables = s.tables := by
  unfold recordTmpFile
  split
  · split <;> exact ⟨rfl, rfl⟩
  · split <;> exact ⟨rfl, rfl⟩

theorem recordTmpSymlink_rest (s : Vfs) (pid : UInt32) (name : List UInt8) (target : PathString) :
    (s.recordTmpSymlink pid name target).2.tree = s.tree ∧ (s.recordTmpSymlink pid name target).2.tables = s.tables := by
  unfold recordTmpSymlink
  split
  · exact ⟨rfl, rfl⟩
  · split
    · exact ⟨rfl, rfl⟩
    · split <;> exact ⟨rfl, rfl⟩

theorem tmpCreateFile_rest (s : Vfs) (pid : UInt32) (path : List UInt8) (ensure : EnsureAnswers) (node : Service) :
    Grows s.tree.fs (s.tmpCreateFile pid path ensure node).2.tree.fs ∧
      (s.tmpCreateFile pid path ensure node).2.tables = s.tables := by
  have hg := tmpEnsureNamespace_grows s.tree pid ensure
  unfold tmpCreateFile
  split
  · exact ⟨.refl _, rfl⟩
  split <;> rename_i heq <;> rw [heq] at hg
  · exact ⟨hg, rfl⟩
  rename_i tree
  split
  · exact ⟨hg, rfl⟩
  rename_i backend _
  have hg' := hg.trans (createKernel_grows tree backend .file node)
  split <;> rename_i heq <;> rw [heq] at hg'
  · exact ⟨hg', rfl⟩
  · rw [(recordTmpFile_rest _ _ _).1, (recordTmpFile_rest _ _ _).2]
    exact ⟨hg', rfl⟩

/-- The node an open gives stands where the path says. -/
theorem openNode_spec {t t' : Tree} {imported : Option (List UInt8)} {r : Option UInt32}
    (h0 : (0 : UInt8) ∉ path) (h : openNode t path imported = (r, t')) :
    Grows t.fs t'.fs ∧ ∀ id, r = some id → t'.NodeAt (namesOf path).reverse id := by
  unfold openNode at h
  split at h
  · rename_i id hopen
    obtain ⟨rfl, rfl⟩ := Prod.mk.inj h
    refine ⟨.refl _, fun id' hid => ?_⟩
    exact some.inj hid ▸ nodeAt_of_openPath h0 hopen
  split at h
  · obtain ⟨rfl, rfl⟩ := Prod.mk.inj h
    exact ⟨.refl _, fun id hid => by cases hid⟩
  split at h
  · obtain ⟨rfl, rfl⟩ := Prod.mk.inj h
    exact ⟨.refl _, fun id hid => by cases hid⟩
  split at h
  · rename_i hcreate
    obtain ⟨rfl, rfl⟩ := Prod.mk.inj h
    exact ⟨create_grows hcreate, fun id hid => by cases hid⟩
  rename_i id created hcreate
  split at h
  rename_i stored written hwrite
  obtain ⟨rfl, rfl⟩ := Prod.mk.inj h
  refine ⟨(create_grows hcreate).trans (write_grows hwrite), fun id' hid => ?_⟩
  split_ifs at hid
  exact some.inj hid ▸ (nodeAt_of_create h0 hcreate).mono (write_grows hwrite)

theorem target_setFd {p : UInt32} {fd f : Fin fdLimit} {new : Option Target} {t : Target}
    (h : (s.setFd pid fd new).target p f = some t) : s.target p f = some t ∨ p = pid ∧ new = some t := by
  simp only [target, setFd] at h ⊢
  by_cases hp : p = pid
  · subst hp
    rw [update_self] at h
    rcases ht : s.tables p with _ | table
    · simp [ht] at h
    rw [ht, map_some, bind_some, update_apply] at h
    split_ifs at h
    · exact .inr ⟨rfl, h⟩
    · exact .inl h
  · rw [update_of_ne hp] at h
    exact .inl h

theorem alloc_opens (s : Vfs) (pid : UInt32) (new : Target) (budget : Bool)
    (hnew : ∀ id, new = .node id → ∃ names, place names ∧ s.tree.NodeAt names id) :
    Opens s (s.alloc pid new budget).2 pid place := by
  unfold alloc
  split
  · exact .refl s pid place
  split
  · refine ⟨.refl _, fun p fd id h => (target_setFd h).imp_right ?_⟩
    rintro ⟨hp, hid⟩
    exact ⟨hp, hnew id (some.inj hid)⟩
  · exact .refl s pid place

theorem alloc_device_opens (s : Vfs) (pid : UInt32) (budget : Bool) (place : List (List UInt8) → Prop) :
    Opens s (s.alloc pid .device budget).2 pid place :=
  alloc_opens s pid .device budget fun id h => by cases h

theorem openRamfs_opens (s : Vfs) (pid : UInt32) (h0 : (0 : UInt8) ∉ path) (a : NodeAnswers) :
    Opens s (s.openRamfs pid path a).2 pid fun names => names = (namesOf path).reverse := by
  unfold openRamfs
  split
  · exact .refl s pid _
  split
  · rename_i heq
    exact .of_tables (openNode_spec h0 heq).1 rfl
  rename_i id tree heq
  obtain ⟨hg, hat⟩ := openNode_spec h0 heq
  split
  · exact .of_tables hg rfl
  · refine (alloc_opens { s with tree } pid (.node id) a.budget fun id' hid => ?_).after hg rfl
    cases hid
    exact ⟨_, rfl, hat id rfl⟩

/-- The places an open of a name in /tmp leads to. -/
def InOwn (pid : UInt32) (names : List (List UInt8)) : Prop := ∃ name, names = [name, ownName pid, tmpName]

theorem openTmp_opens (s : Vfs) (pid : UInt32) (h0 : (0 : UInt8) ∉ path) (create : Bool) (a : OpenAnswers) :
    Opens s (s.openTmp pid path name create a).2 pid (InOwn pid) := by
  unfold openTmp
  split
  · exact .refl s pid _
  have hcreate : Grows s.tree.fs
        (if create then s.tmpCreateFile pid path a.createEnsure a.createNode else (true, s)).2.tree.fs ∧
      (if create then s.tmpCreateFile pid path a.createEnsure a.createNode else (true, s)).2.tables = s.tables := by
    split
    · exact tmpCreateFile_rest s pid path _ _
    · exact ⟨.refl _, rfl⟩
  split <;> rename_i heq <;> rw [heq] at hcreate
  · exact .of_tables hcreate.1 hcreate.2
  rename_i created
  have hg := hcreate.1.trans (tmpEnsureNamespace_grows created.tree pid a.ensure)
  split <;> rename_i heq <;> rw [heq] at hg
  · exact .of_tables hg hcreate.2
  split
  · exact .of_tables hg hcreate.2
  · rename_i tree _ backend hbackend
    obtain ⟨hzero, leaf, -, hnames⟩ := tmpBackendPath_names h0 hbackend
    refine ((openRamfs_opens { created with tree } pid hzero a.node).imp fun names heq => ?_).after hg hcreate.2
    exact ⟨leaf, by rw [heq, hnames]; rfl⟩

/-- An open leads into the directory of the process, or where the path behind the links says. -/
theorem openPath_opens (s : Vfs) (pid : UInt32) (path : PathString) (flags : UInt32) (a : OpenAnswers) :
    Opens s (s.openPath pid path flags a).2 pid fun names => InOwn pid names ∨
      ∃ effective, s.resolveTmpSymlinkWalk pid path flags = some effective ∧ names = (namesOf effective.bytes).reverse := by
  unfold openPath
  split
  · exact .refl s pid _
  split
  · exact .refl s pid _
  rename_i effective hwalk
  split
  · exact .refl s pid _
  split
  · unfold openDevice
    repeat' split
    all_goals first | exact .refl s pid _ | exact alloc_device_opens s pid _ _
  split
  · exact alloc_device_opens s pid _ _
  split
  · exact (openTmp_opens s pid effective.terminated _ a).imp fun names hown => .inl hown
  · split
    · exact .refl s pid _
    · exact (openRamfs_opens s pid effective.terminated a.node).imp fun names heq =>
        .inr ⟨effective, hwalk, heq⟩

/-! ### Calls that open nothing -/

/-- No node goes or moves, and no descriptor is new on a node. -/
def Quiet (s s' : Vfs) : Prop := ∀ pid, Opens s s' pid fun _ => False

/-- One process has another table, without a node. -/
theorem Quiet.of_update {new : Option (Fin fdLimit → Option Target)} (htree : s'.tree = s.tree)
    (htables : s'.tables = update s.tables pid new) (hnew : ∀ t ∈ new, ∀ fd id, t fd ≠ some (.node id)) :
    Quiet s s' := by
  intro p
  refine ⟨by rw [htree]; exact .refl _, fun q fd id h => .inl ?_⟩
  rw [target, htables] at h
  by_cases hq : q = pid
  · rw [hq, update_self] at h
    obtain ⟨t, ht, hid⟩ := bind_eq_some_iff.1 h
    exact absurd hid (hnew t ht fd id)
  · rwa [update_of_ne hq] at h

theorem symlink_quiet (s : Vfs) (pid : UInt32) (target link : PathString) (a : EnsureAnswers) :
    Quiet s (s.symlink pid target link a).2 := by
  intro p
  have hg := tmpEnsureNamespace_grows s.tree pid a
  unfold symlink
  split
  · exact .refl s p _
  split
  · exact .refl s p _
  split <;> rename_i heq <;> rw [heq] at hg
  · exact .of_tables hg rfl
  · rename_i name _ _ tree
    have hrest := recordTmpSymlink_rest { s with tree } pid name target
    exact .of_tables (by rw [hrest.1]; exact hg) hrest.2

theorem forkCopyTmpNamespace_rest {parent child : UInt32} {copied : Vfs}
    (h : s.forkCopyTmpNamespace parent child = some copied) : copied.tree = s.tree ∧ copied.tables = s.tables := by
  unfold forkCopyTmpNamespace at h
  generalize finRange maxTmpRecords = places at h
  induction places generalizing s with
  | nil =>
    obtain rfl : s = copied := some.inj h
    exact ⟨rfl, rfl⟩
  | cons i places ih =>
    obtain ⟨next, hnext, hrest⟩ := bind_eq_some_iff.1 h
    have hone : next.tree = s.tree ∧ next.tables = s.tables := by
      unfold copyTmpRecord at hnext
      split at hnext
      · exact some.inj hnext ▸ ⟨rfl, rfl⟩
      split at hnext
      · exact some.inj hnext ▸ ⟨rfl, rfl⟩
      · split at hnext
        · cases hnext
        · exact some.inj hnext ▸ ⟨rfl, rfl⟩
    obtain ⟨htree, htables⟩ := ih hrest
    exact ⟨htree.trans hone.1, htables.trans hone.2⟩

theorem forkRecords_rest (s : Vfs) (parent child : UInt32) (a : ForkAnswers) :
    (s.forkRecords parent child a).2.tree = s.tree ∧ (s.forkRecords parent child a).2.tables = s.tables := by
  unfold forkRecords
  split
  · exact ⟨rfl, rfl⟩
  split
  · exact ⟨rfl, rfl⟩
  split
  · exact ⟨rfl, rfl⟩
  rename_i copied hcopied
  have hrest := forkCopyTmpNamespace_rest hcopied
  split
  · exact hrest
  · exact hrest

/-- The child of a fork has no descriptor on a node. -/
theorem fork_quiet (s : Vfs) (parent child : UInt32) (a : ForkAnswers) : Quiet s (s.fork parent child a).2 := by
  unfold fork
  split
  · rename_i t ht hchild
    split
    · exact fun _ => .of_tables (.refl _) rfl
    rename_i hnode
    have hfree : ∀ fd, isNode (t fd) = false := Slots.first_none.1 (by simpa using (not_or.1 hnode).1)
    have hrest := forkRecords_rest { s with tables := update s.tables child (some t) } parent child a
    split <;> rename_i heq <;> rw [heq] at hrest
    · refine .of_update hrest.1 hrest.2 fun t' ht' fd id hid => ?_
      obtain rfl : t = t' := some.inj ht'
      have hfalse := hfree fd
      rw [hid] at hfalse
      cases hfalse
    · rename_i failed
      have hclosed : update failed.tables child none = update s.tables child none := by
        rw [hrest.2, update_idem]
      exact .of_update hrest.1 hclosed fun t' ht' => by cases ht'
  · exact fun p => .refl s p _

theorem release_quiet (s : Vfs) (pid : UInt32) (forkChild : Bool) : Quiet s (s.release pid forkChild).2 := by
  unfold release
  split
  · exact fun p => .refl s p _
  · cases forkChild <;> exact .of_update rfl rfl fun t ht => by cases ht

theorem launch_quiet (s : Vfs) (pid : UInt32) : Quiet s (s.step (.launch pid)) := by
  unfold step
  dsimp only
  split
  · exact fun p => .refl s p _
  · refine .of_update rfl rfl fun t ht fd id h => ?_
    obtain rfl := some.inj ht
    cases h

theorem write_quiet (s : Vfs) (pid : UInt32) (fd : Fin fdLimit) (offset : Nat) (source : List UInt8) :
    Quiet s (s.writeFd pid fd offset source).2 := by
  intro p
  unfold writeFd
  split
  · split
    rename_i heq
    exact .of_tables (write_grows heq) rfl
  · exact .refl s p _

/-- A node in the directory of the process. -/
def InNamespace (s : Vfs) (pid : UInt32) (id : UInt32) : Prop := ∃ names, InOwn pid names ∧ s.tree.NodeAt names id

/-! ## The rule, and what it keeps -/

/-- No process has a descriptor on a node in the directory of another. -/
def Private (s : Vfs) : Prop :=
  ∀ p fd id, s.target p fd = some (.node id) → ∀ q, q ≠ p → ¬ s.InNamespace q id

/-- The path behind the links is none that spells out the directory of another process; a file is deleted by a process
    that has no descriptor on it. -/
def Confined (s : Vfs) : Op → Prop
  | .openPath pid path flags _ => ∀ effective, s.resolveTmpSymlinkWalk pid path flags = some effective →
      ∀ q name, q ≠ pid → namesOf effective.bytes ≠ [tmpName, ownName q, name]
  | .delete pid path _ _ => ∀ backend id, tmpBackendPath pid path.bytes = some backend →
      s.tree.openPath nodeRoot backend = some id → ∀ fd, s.target pid fd ≠ some (.node id)
  | _ => True

/-- Every descriptor on a node has a node to be open on, which stands in no directory of another process. -/
def Sound (s : Vfs) : Prop :=
  ∀ p fd id, s.target p fd = some (.node id) → ∃ names, s.tree.NodeAt names id ∧ ∀ q, q ≠ p → ¬ InOwn q names

section

variable (h : Sound s)
include h

theorem Sound.isPrivate : Private s := by
  rintro p fd id ht q hq ⟨names, hown, hat⟩
  obtain ⟨names', hat', hothers⟩ := h p fd id ht
  exact hothers q hq (hat.unique hat' ▸ hown)

theorem Sound.opens (ho : Opens s s' pid place) (hplace : ∀ names, place names → ∀ q, q ≠ pid → ¬ InOwn q names) : Sound s' := by
  intro p fd id ht
  rcases ho.targets p fd id ht with hold | ⟨rfl, names, hnames, hat⟩
  · obtain ⟨names, hat, hothers⟩ := h p fd id hold
    exact ⟨names, hat.mono ho.grows, hothers⟩
  · exact ⟨names, hat, hplace names hnames⟩

theorem Sound.quiet (hq : Quiet s s') : Sound s' := h.opens (hq 0) fun _ hf => hf.elim

theorem Sound.openPath {path : PathString} {flags : UInt32} {a : OpenAnswers} (hc : Confined s (.openPath pid path flags a)) :
    Sound (s.openPath pid path flags a).2 := by
  refine h.opens (openPath_opens s pid path flags a) ?_
  rintro names (⟨name, rfl⟩ | ⟨effective, hwalk, rfl⟩) q hq ⟨leaf, heq⟩
  · injection heq with _ hrest
    injection hrest with hown _
    exact hq (ownName_inj hown).symm
  · refine hc effective hwalk q leaf hq ?_
    rw [← reverse_reverse (namesOf effective.bytes), heq]
    rfl

/-- The node that goes is in the directory of the process that deletes it, so nobody has a descriptor on it. -/
theorem Sound.delete {path : PathString} {base service : Bool} (hc : Confined s (.delete pid path base service)) :
    Sound (s.delete pid path base service).2 := by
  unfold Vfs.delete
  split
  · exact h
  split
  · exact h
  split
  · exact h
  rename_i backend hbackend
  split_ifs
  · exact h
  · exact h
  · exact h
  intro p fd id ht
  obtain ⟨names, hat, hothers⟩ := h p fd id ht
  rcases delete_cases (Prod.eta (s.tree.delete nodeRoot backend)).symm with hsame | ⟨gone, hgone, hkept⟩
  · exact ⟨names, by rw [hsame]; exact hat, hothers⟩
  refine ⟨names, hkept (fun heq => ?_) hat, hothers⟩
  subst heq
  obtain ⟨hzero, leaf, -, hnames⟩ := tmpBackendPath_names path.terminated hbackend
  have hplace := hat.unique (nodeAt_of_openPath hzero hgone)
  by_cases hp : p = pid
  · exact hc backend id hbackend hgone fd (hp ▸ ht)
  · exact hothers pid (Ne.symm hp) ⟨leaf, by rw [hplace, hnames]; rfl⟩

theorem Sound.dup (pid : UInt32) (oldFd newFd : Fin fdLimit) : Sound (s.step (.dup pid oldFd newFd)) := by
  unfold Vfs.step
  dsimp only
  split
  · exact h
  rename_i target hopen
  intro p fd id ht
  rcases target_setFd ht with hold | ⟨rfl, hnew⟩
  · exact h p fd id hold
  · exact h p oldFd id (hopen.trans hnew)

/-- One call that follows the rule. -/
theorem Sound.step {op : Op} (hc : Confined s op) : Sound (s.step op) := by
  cases op with
  | launch pid => exact h.quiet (launch_quiet s pid)
  | openPath pid path flags a => exact h.openPath hc
  | close pid fd =>
    intro p f id ht
    rcases target_setFd ht with hold | ⟨-, hnew⟩
    · exact h p f id hold
    · cases hnew
  | dup pid oldFd newFd => exact h.dup pid oldFd newFd
  | write pid fd offset source => exact h.quiet (write_quiet s pid fd offset source)
  | delete pid path base service => exact h.delete hc
  | symlink pid target link a => exact h.quiet (symlink_quiet s pid target link a)
  | fork parent child a => exact h.quiet (fork_quiet s parent child a)
  | release pid forkChild => exact h.quiet (release_quiet s pid forkChild)

end

theorem sound_boot : Sound boot := by
  intro p fd id ht
  cases ht

/-- In every run that follows the rule, no process has a descriptor on a file of another in /tmp. -/
theorem private_of_confined (ops : List Op) (h : Meets step Confined boot ops) : Private (boot.run ops) :=
  (h.invariant (fun _ _ hs hc => hs.step hc) sound_boot).isPrivate

/-- Everything is granted, and the storage is empty. -/
def OpenAnswers.granted : OpenAnswers :=
  { resolution := .file, createEnsure := ⟨.granted, .granted⟩, createNode := .granted, ensure := ⟨.granted, .granted⟩
    node := ⟨.granted, none, true⟩ }

theorem terminated_tmp_a : (0 : UInt8) ∉ ascii "/tmp/a" := by decide +kernel

def tmpA : PathString := ⟨ascii "/tmp/a", terminated_tmp_a⟩

/-- Two processes, each with a file of the same name. -/
def twoFiles : List Op :=
  [.launch 5, .launch 6, .openPath 5 tmpA openCreate .granted, .openPath 6 tmpA openCreate .granted]

theorem private_two_files : Meets step Confined boot twoFiles ∧ Private (boot.run twoFiles) := by
  have hlength : (namesOf tmpA.bytes).length = 2 := by decide +kernel
  have hconfined : ∀ s pid, s.resolveTmpSymlinkWalk pid tmpA openCreate = some tmpA →
      Confined s (.openPath pid tmpA openCreate .granted) := by
    intro s pid hwalk effective heff q name _ hnames
    obtain rfl : tmpA = effective := mem_unique hwalk heff
    simp [hnames] at hlength
  have hmeets : Meets step Confined boot twoFiles :=
    ⟨trivial, trivial, hconfined _ _ (by decide +kernel), hconfined _ _ (by decide +kernel), trivial⟩
  exact ⟨hmeets, private_of_confined twoFiles hmeets⟩

theorem terminated_spelled : (0 : UInt8) ∉ ascii "/tmp/p5/a" := by decide +kernel

/-- Process 5 creates a file, process 6 opens it by the path it stands under in the tree. -/
def spelledOut : List Op :=
  [.launch 5, .launch 6, .openPath 5 tmpA openCreate .granted,
    .openPath 6 ⟨ascii "/tmp/p5/a", terminated_spelled⟩ 0 .granted]

theorem spelled_out : ¬ Private (boot.run spelledOut) := by
  intro h
  have htarget : (boot.run spelledOut).target 6 0 = some (.node 29) := by decide +kernel
  refine h 6 0 29 htarget 5 (by decide) ⟨_, ⟨ascii "a", rfl⟩, 28, by decide +kernel, by decide +kernel, ?_⟩
  refine ⟨by decide +kernel, 27, by decide +kernel, by decide +kernel, 26, by decide +kernel, by decide +kernel, 0,
    by decide +kernel, rfl⟩

end LimitlessOS.Vfs
