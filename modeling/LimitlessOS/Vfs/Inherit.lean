/-
  LimitlessOS.Vfs.Inherit — what a fork and an exit do to the files in /tmp.

  A fork copies the records of the names a process has in /tmp, links included; the exit of
  the child of a fork clears them, any other exit leaves them. The files stand in the directory
  of the process, which no such call touches. So the child has the names, and its paths lead
  into its own directory.

  Proved:
  - `tmpEnsureNamespace_spec`: the directory of a process is there, or has no file yet.
  - `Forked.look`, `look_name`: what parent and child find under a path.
  - `inherit_iff`: when the child finds what its parent finds, and what an exit leaves.

  `not_inherited`: the child cannot open the file it has a record of.
-/
import LimitlessOS.Vfs.Records

namespace LimitlessOS.Vfs

open Lib Ramfs Option List

variable {s s' : Vfs}

/-! ## The directory of a process -/

/-- The path of the directory of a process. -/
def ownPath (pid : UInt32) : List UInt8 := slash :: tmpName ++ slash :: ownName pid

/-- The path of a name in the directory of a process. -/
def filePath (pid : UInt32) (name : List UInt8) : List UInt8 := ownPath pid ++ slash :: name

theorem ascii_tmp : ascii "/tmp" = slash :: tmpName := tmp_literals.2.2.1

theorem ascii_tmp_slash : ascii "/tmp/" = slash :: tmpName ++ [slash] := tmp_literals.2.2.2.1

theorem length_tmp_slash : (ascii "/tmp/").length = 5 := by
  rw [ascii_tmp_slash, tmpName_bytes]
  rfl

theorem length_tmp_p : (ascii "/tmp/p").length = 6 := by
  rw [ascii_tmp_p, ascii_p, tmpName_bytes]
  rfl

theorem decimal_length (pid : UInt32) : (decimal pid.toNat).length ≤ 10 := by
  rw [decimal, length_map]
  have hsmall := pid.toNat_lt
  exact (Nat.length_toDigits_le_iff (by decide) (by decide)).2 (by omega)

theorem tmpRootBackendPath_eq (pid : UInt32) : tmpRootBackendPath pid = some (ownPath pid) := by
  have hten := decimal_length pid
  have hsix := length_tmp_p
  have hcap : tmpBackendBytes = 128 := rfl
  rw [tmpRootBackendPath, appendAll_eq (Nat.zero_le _), if_pos (by simp; omega)]
  simp [ascii_tmp_p, ownPath, ownName]

variable {t : Tree} {pid : UInt32} {name path : List UInt8}

theorem tmpBackendPath_eq (h : tmpChildName path = some name) : tmpBackendPath pid path = some (filePath pid name) := by
  have hten := decimal_length pid
  have hshort := (tmpChildName_some h).2.2.2.2
  have hsix := length_tmp_p
  have hcap : tmpBackendBytes = 128 := rfl
  have hmax : direntNameMax = 32 := rfl
  rw [tmpBackendPath, h, bind_some, appendAll_eq (Nat.zero_le _), if_pos (by simp; omega)]
  simp [ascii_tmp_p, filePath, ownPath, ownName]

variable {fs : Ramfs} {parent child : UInt32} {t' : Tree} {m : Mount}

theorem segments_ownPath (pid : UInt32) : segments (ownPath pid) = [tmpName, ownName pid] := by
  rw [ownPath, segments_slash slash_notMem_tmpName tmpName_ne_nil,
    segments_last (slash_notMem_ownName pid) (ownName_ne_nil pid)]

theorem segments_filePath (pid : UInt32) (hslash : slash ∉ name) (hne : name ≠ []) :
    segments (filePath pid name) = [tmpName, ownName pid, name] := by
  have hpath : filePath pid name = slash :: tmpName ++ slash :: (ownName pid ++ slash :: name) := by
    simp [filePath, ownPath]
  rw [hpath, segments_slash slash_notMem_tmpName tmpName_ne_nil, ← cons_append,
    segments_slash (slash_notMem_ownName pid) (ownName_ne_nil pid), segments_last hslash hne]

theorem segments_tmp : segments (ascii "/tmp") = [tmpName] := by
  rw [ascii_tmp, segments_last slash_notMem_tmpName tmpName_ne_nil]

theorem openPath_tmp (h : IsTree fs) : fs.openPath nodeRoot (ascii "/tmp") = fs.findChild 0 tmpName := by
  rw [Ramfs.openPath, h.baseDirectory_root]
  dsimp only
  rw [segments_tmp, openSegments_cons tmpName_ne_dot]
  cases fs.findChild 0 tmpName <;> rfl

/-- The directory of a process is looked for in /tmp. -/
theorem openPath_ownPath (h : IsTree fs) (pid : UInt32) :
    fs.openPath nodeRoot (ownPath pid) =
      (fs.openPath nodeRoot (ascii "/tmp")).bind fun d => fs.findChild d (ownName pid) := by
  rw [openPath_tmp h, Ramfs.openPath, h.baseDirectory_root]
  dsimp only
  rw [segments_ownPath, openSegments_cons tmpName_ne_dot]
  congr 1
  funext d
  rw [openSegments_cons (ownName_ne_dot pid)]
  cases fs.findChild d (ownName pid) <;> rfl

/-- A name of a process is looked for in its directory. -/
theorem openPath_filePath (h : IsTree fs) (pid : UInt32) (hname : tmpChildName path = some name) :
    fs.openPath nodeRoot (filePath pid name) =
      (fs.openPath nodeRoot (ownPath pid)).bind fun d => fs.findChild d name := by
  obtain ⟨-, hne, hslash, hdot, -⟩ := tmpChildName_some hname
  have hsplit : segments (filePath pid name) = [tmpName, ownName pid] ++ [name] := segments_filePath pid hslash hne
  rw [Ramfs.openPath, Ramfs.openPath, h.baseDirectory_root, h.baseDirectory_root]
  dsimp only
  rw [hsplit, segments_ownPath, openSegments_append]
  congr 1
  funext d
  rw [openSegments_cons hdot]
  cases fs.findChild d name <;> rfl

/-- A directory that was made just now has nothing in it. -/
theorem createKernel_spec {answer : Service} (h0 : (0 : UInt8) ∉ path) (h : createKernel t path .directory answer = (true, t')) :
    t' = t ∨ t.fs.openPath nodeRoot path = none ∧
      ∀ name, (t'.fs.openPath nodeRoot path).bind (fun d => t'.fs.findChild d name) = none := by
  unfold createKernel at h
  split at h
  · cases h
  split at h
  · cases h
  rename_i id created hcreate
  obtain rfl : created = t' := (Prod.mk.inj h).2
  obtain ⟨hid, hfs⟩ := Prod.mk.inj hcreate
  have hfs' : (t.fs.create nodeRoot path .directory).2 = created.fs := congrArg Tree.fs hfs
  obtain ⟨i, hopen, -, -, hnew, hold⟩ := t.isTree.createLaw h0 (Prod.ext hid hfs')
  cases hbefore : t.fs.openPath nodeRoot path with
  | some old =>
    have hsame := (hold old hbefore).2
    cases t
    cases created
    exact .inl (by simpa using hsame)
  | none =>
    refine .inr ⟨rfl, fun name => ?_⟩
    rw [hopen, bind_some]
    rcases hfound : created.fs.findChild i name with _ | k
    · rfl
    have hi := (created.isTree.openPath_at h0 hopen).2
    exact absurd (created.isTree.up_of_findChild hi hfound) ((hnew hbefore).2.2 k (findChild_some hfound).1)

/-- Either the namespace was there, or there is no file in it. -/
theorem tmpEnsureNamespace_spec {a : EnsureAnswers} (h : tmpEnsureNamespace t pid a = (true, t')) :
    t' = t ∨ ∀ path name, tmpChildName path = some name →
      t.fs.openPath nodeRoot (filePath pid name) = none ∧ t'.fs.openPath nodeRoot (filePath pid name) = none := by
  have htmp : (0 : UInt8) ∉ ascii "/tmp" := by
    rw [ascii_tmp]
    exact fun h => (mem_cons.1 h).elim (by decide) zero_notMem_tmpName
  have hown : (0 : UInt8) ∉ ownPath pid := by
    simp only [ownPath, mem_append, mem_cons, not_or]
    exact ⟨⟨by decide, zero_notMem_tmpName⟩, by decide, zero_notMem_ownName pid⟩
  unfold tmpEnsureNamespace at h
  split at h
  · cases h
  rename_i t1 hfirst
  simp only [tmpRootBackendPath_eq] at h
  -- whatever the first create did, the second either finds the directory or makes an empty one
  have hempty : t1.fs.openPath nodeRoot (ownPath pid) = none →
      ∀ path name, tmpChildName path = some name → t'.fs.openPath nodeRoot (filePath pid name) = none := by
    intro hnone path name hname
    rw [openPath_filePath t'.isTree pid hname]
    rcases createKernel_spec hown h with rfl | ⟨-, hnew⟩
    · rw [hnone]
      rfl
    · exact hnew name
  rcases createKernel_spec htmp hfirst with rfl | ⟨hnone, hnew⟩
  · rcases createKernel_spec hown h with rfl | ⟨hnone, -⟩
    · exact .inl rfl
    · refine .inr fun path name hname => ⟨?_, hempty hnone path name hname⟩
      rw [openPath_filePath t1.isTree pid hname, hnone]
      rfl
  · refine .inr fun path name hname => ⟨?_, hempty ?_ path name hname⟩
    · rw [openPath_filePath t.isTree pid hname, openPath_ownPath t.isTree, hnone]
      rfl
    · rw [openPath_ownPath t1.isTree]
      exact hnew (ownName pid)

/-- A create of a directory that is there changes nothing. -/
theorem createKernel_existing {leaf : List UInt8} {parent d : Fin nodeLimit}
    (hwalk : t.fs.walkParent nodeRoot path = some (parent, leaf)) (hd : t.fs.findChild parent leaf = some d)
    (htype : (t.fs.nodes d).type = .directory) : createKernel t path .directory .granted = (true, t) := by
  have hcreate : t.fs.create nodeRoot path .directory = (some (t.fs.nodes d).id, t.fs) := by
    simp [Ramfs.create, hwalk, hd, htype]
  have htree : t.create nodeRoot path .directory = (some (t.fs.nodes d).id, t) := by
    simp only [Tree.create, hcreate]
  simp [createKernel, htree]

/-- Where a file of the process is, its namespace is there. -/
theorem tmpEnsureNamespace_file {i : Fin nodeLimit}
    (hname : tmpChildName path = some name) (hi : t.fs.openPath nodeRoot (filePath pid name) = some i) :
    tmpEnsureNamespace t pid ⟨.granted, .granted⟩ = (true, t) := by
  rw [openPath_filePath t.isTree pid hname, openPath_ownPath t.isTree, openPath_tmp t.isTree] at hi
  obtain ⟨own, hown, hi⟩ := bind_eq_some_iff.1 hi
  obtain ⟨tmp, htmp, hown⟩ := bind_eq_some_iff.1 hown
  have hta := (findChild_some htmp).1
  have hoa := (findChild_some hown).1
  have htdir := t.isTree.directory_of_up hoa (t.isTree.up_of_findChild hta hown)
  have hodir := t.isTree.directory_of_up (findChild_some hi).1 (t.isTree.up_of_findChild hoa hi)
  have hne : ascii "/tmp" ≠ [] := ascii_tmp ▸ cons_ne_nil _ _
  have hdot := tmpName_ne_dot
  have hfirst : t.fs.walkParent nodeRoot (ascii "/tmp") = some (0, tmpName) := by
    rw [Ramfs.walkParent, if_neg hne, t.isTree.baseDirectory_root]
    dsimp only
    rw [segments_tmp, walkSegments, if_neg hdot, if_pos rfl]
  have hsecond : t.fs.walkParent nodeRoot (ownPath pid) = some (tmp, ownName pid) := by
    rw [Ramfs.walkParent, if_neg (by simp [ownPath]), t.isTree.baseDirectory_root]
    dsimp only
    rw [segments_ownPath, walkSegments, if_neg hdot, if_neg (by simp), htmp]
    dsimp only
    rw [if_neg (not_not.2 htdir), walkSegments, if_neg (ownName_ne_dot pid), if_pos rfl]
  unfold tmpEnsureNamespace
  rw [createKernel_existing hfirst htmp htdir]
  dsimp only
  rw [tmpRootBackendPath_eq]
  exact createKernel_existing hsecond hown hodir

/-! ## Looking at a path -/

/-- What a successful open gives to read: the bytes of a file, or nothing. -/
def seen (pid : UInt32) (opened : Option (Fin fdLimit) × Vfs) : Option (Option (List UInt8)) :=
  opened.1.map fun fd => opened.2.readFd pid fd 0 fileCapacity

/-- What an open for reading leads to, where nothing is short and the storage is empty; `resolution` is what another
    provider makes of the path. -/
def look (s : Vfs) (pid : UInt32) (resolution : Resolution) (path : PathString) : Option (Option (List UInt8)) :=
  seen pid (s.openPath pid path 0 { OpenAnswers.granted with resolution })

/-- Whether a table has a descriptor left. -/
def spare (table : Option (Fin fdLimit → Option Target)) : Option (Fin fdLimit) :=
  table.bind fun t => Slots.first t Option.isNone

/-- What a descriptor reads, by what it is open on. -/
def contents (s : Vfs) : Target → Option (List UInt8)
  | .node id => s.tree.fs.read id 0 fileCapacity
  | .device => none

theorem seen_alloc (s : Vfs) (pid : UInt32) (new : Target) :
    seen pid (s.alloc pid new true) = (spare (s.tables pid)).map fun _ => s.contents new := by
  cases hfd : spare (s.tables pid) with
  | none =>
    unfold spare at hfd
    rw [alloc, hfd]
    rfl
  | some fd =>
    obtain ⟨t, ht, -⟩ := bind_eq_some_iff.1 hfd
    have htarget : (s.setFd pid fd (some new)).target pid fd = some new := by simp [target, setFd, ht]
    unfold spare at hfd
    rw [alloc, hfd]
    cases new with
    | node id | device =>
      simp only [seen, readFd, htarget, map_some, if_true]
      rfl

theorem seen_openRamfs (s : Vfs) (pid : UInt32) (hne : path ≠ []) :
    seen pid (s.openRamfs pid path ⟨.granted, none, true⟩) = (spare (s.tables pid)).bind fun _ =>
      (s.tree.openPath nodeRoot path).map fun id => s.tree.fs.read id 0 fileCapacity := by
  unfold openRamfs
  rcases ht : s.tables pid with _ | t
  · simp [seen, spare]
  rw [if_neg (by simp [hne])]
  unfold openNode
  cases hopen : s.tree.openPath nodeRoot path with
  | none =>
    cases spare (some t) <;> rfl
  | some id =>
    dsimp only
    rw [if_neg (by simp), seen_alloc]
    rw [ht]
    cases spare (some t) <;> rfl

/-- What a name with a record leads to. -/
theorem seen_openTmp (s : Vfs) (pid : UInt32) (hname : tmpChildName path = some name) (resolution : Resolution) :
    seen pid (s.openTmp pid path name false { OpenAnswers.granted with resolution }) =
      if s.entry pid name = none then none
      else (spare (s.tables pid)).bind fun _ =>
        (s.tree.openPath nodeRoot (filePath pid name)).map fun id => s.tree.fs.read id 0 fileCapacity := by
  unfold openTmp
  by_cases hentry : s.entry pid name = none
  · rw [if_pos hentry, if_pos ⟨rfl, entry_none_iff.1 hentry⟩]
    rfl
  rw [if_neg hentry, if_neg (by simp [← entry_none_iff, hentry])]
  dsimp only
  have hne : filePath pid name ≠ [] := by simp [filePath, ownPath]
  cases hfile : s.tree.fs.openPath nodeRoot (filePath pid name) with
  | some i =>
    have hensure : tmpEnsureNamespace s.tree pid OpenAnswers.granted.ensure = (true, s.tree) :=
      tmpEnsureNamespace_file hname hfile
    simp only [Bool.false_eq_true, if_false, hensure, tmpBackendPath_eq hname]
    exact seen_openRamfs s pid hne
  | none =>
    have hnone : s.tree.openPath nodeRoot (filePath pid name) = none := by rw [Tree.openPath, hfile]; rfl
    rw [hnone]
    simp only [Bool.false_eq_true, if_false, tmpBackendPath_eq hname, map_none]
    have hright : ((spare (s.tables pid)).bind fun _ => (none : Option (Option (List UInt8)))) = none := by
      cases spare (s.tables pid) <;> rfl
    rw [hright]
    split
    · rfl
    rename_i tree hensure
    have hafter : tree.openPath nodeRoot (filePath pid name) = none := by
      rcases tmpEnsureNamespace_spec hensure with rfl | hboth
      · exact hnone
      · rw [Tree.openPath, (hboth path name hname).2]
        rfl
    refine (seen_openRamfs { s with tree } pid hne).trans ?_
    rwa [hafter]

/-! ## Parent and child -/

theorem findMount_mem (h : findMount path = some m) : m ∈ mounts := by
  have hall : ∀ b ∈ findMount path, b ∈ mounts := by
    refine foldlRecOn (motive := fun best => ∀ b ∈ best, b ∈ mounts) mounts _ (by simp) ?_
    intro best hbest x hx
    split
    · intro b hb
      exact some.inj hb ▸ hx
    · exact hbest
  exact hall m h

/-- Of the mount points only the root and /tmp are in front of a name in /tmp. -/
theorem findMount_name (h : tmpChildName path = some name) : findMount path = some ⟨ascii "/tmp", .ramfs⟩ := by
  have hpath := (tmpChildName_some h).1
  have hbytes : ascii "/tmp/" = [0x2F, 0x74, 0x6D, 0x70, 0x2F] := by rw [ascii_tmp_slash, tmpName_bytes]; rfl
  have hmounts : mounts = [⟨[0x2F], .ramfs⟩, ⟨[0x2F, 0x70, 0x72, 0x6F, 0x63], .proc⟩, ⟨[0x2F, 0x64, 0x65, 0x76], .dev⟩,
      ⟨[0x2F, 0x74, 0x6D, 0x70], .ramfs⟩, ⟨[0x2F, 0x6E, 0x76, 0x6D, 0x65], .nvme⟩, ⟨[0x2F, 0x62, 0x69, 0x6E], .bin⟩,
      ⟨[0x2F, 0x73, 0x62, 0x69, 0x6E], .bin⟩, ⟨[0x2F, 0x75, 0x73, 0x72], .bin⟩,
      ⟨[0x2F, 0x75, 0x73, 0x72, 0x2F, 0x62, 0x69, 0x6E], .bin⟩,
      ⟨[0x2F, 0x75, 0x73, 0x72, 0x2F, 0x73, 0x62, 0x69, 0x6E], .bin⟩,
      ⟨[0x2F, 0x75, 0x73, 0x72, 0x2F, 0x6C, 0x6F, 0x63, 0x61, 0x6C], .bin⟩,
      ⟨[0x2F, 0x75, 0x73, 0x72, 0x2F, 0x6C, 0x6F, 0x63, 0x61, 0x6C, 0x2F, 0x62, 0x69, 0x6E], .bin⟩] := by decide +kernel
  rw [hpath, hbytes, findMount, hmounts]
  simp [prefixMatches, slash]
  decide +kernel

/-- The paths below /tmp. -/
def UnderTmp (path : PathString) : Prop := ∃ rest, path.bytes = ascii "/tmp/" ++ rest

/-- A path below /tmp is not a mount point of the RAM filesystem. -/
theorem UnderTmp.ne_mount {path : PathString} (h : UnderTmp path) (hm : m ∈ mounts) (hp : ¬ m.provider ≠ .ramfs) :
    m.prefixBytes ≠ path.bytes := by
  intro heq
  obtain ⟨rest, hrest⟩ := h
  have hshort : ∀ m ∈ mounts, ¬ m.provider ≠ .ramfs → m.prefixBytes.length < 5 := by decide +kernel
  have hfive := length_tmp_slash
  have hlt := hshort m hm hp
  rw [heq, hrest, length_append, hfive] at hlt
  omega

/-- A walk ends at a path that is no link. -/
theorem followTmpSymlinks_end {rounds : Nat} {nofollow : Bool} {path effective : PathString}
    (h : s.followTmpSymlinks pid rounds nofollow path = some effective) : s.findTmpSymlinkPath pid effective.bytes = none := by
  induction rounds generalizing nofollow path with
  | zero => cases h
  | succ rounds ih =>
    rw [followTmpSymlinks] at h
    split at h
    · cases h
    split at h
    · rename_i hend
      exact some.inj h ▸ hend
    · split_ifs at h
      exact ih h

/-- What a file in the directory of a process holds, for a table with a descriptor left. -/
def fileSeen (s : Vfs) (table : Option (Fin fdLimit → Option Target)) (pid : UInt32) (name : List UInt8) :
    Option (Option (List UInt8)) :=
  (spare table).bind fun _ =>
    (s.tree.openPath nodeRoot (filePath pid name)).map fun id => s.tree.fs.read id 0 fileCapacity

/-- A path below /tmp gives parent and child the same, or leads both to a name the parent has a file record of. -/
theorem Forked.look (h : Forked parent child s s') (resolution : Resolution) {path : PathString} (hu : UnderTmp path) :
    s'.look child resolution path = s'.look parent resolution path ∨
      ∃ effective : PathString, ∃ name, tmpChildName effective.bytes = some name ∧ s.entry parent name = some none ∧
        s'.look parent resolution path = s.fileSeen (s.tables parent) parent name ∧
        s'.look child resolution path = s.fileSeen (s.tables parent) child name := by
  have hwalk : s'.resolveTmpSymlinkWalk child path 0 = s'.resolveTmpSymlinkWalk parent path 0 :=
    h.followTmpSymlinks _ _ _
  have htables : s'.tables child = s'.tables parent := h.childTable.trans h.parentTable.symm
  have halloc : seen child (s'.alloc child .device true) = seen parent (s'.alloc parent .device true) := by
    rw [seen_alloc, seen_alloc, htables]
  unfold Vfs.look Vfs.openPath
  simp only [hwalk]
  split
  · exact .inl rfl
  split
  · exact .inl rfl
  rename_i effective hend
  have hresolve : s'.resolve child effective.bytes = s'.resolve parent effective.bytes := by
    rw [resolve, resolve, htables]
  simp only [hresolve]
  split
  · exact .inl rfl
  rename_i mount hmount
  have hmem : mount ∈ mounts := by
    unfold resolve at hmount
    split_ifs at hmount
    exact findMount_mem hmount
  split
  · -- another provider: both get the same answer
    refine .inl ?_
    unfold openDevice
    repeat' split
    all_goals first | rfl | exact halloc
  · rename_i hramfs
    rw [if_neg (hu.ne_mount hmem hramfs), if_neg (hu.ne_mount hmem hramfs)]
    have hread : ((0 : UInt32) &&& openCreate != 0) = false := by decide
    have hread' : ¬ (0 : UInt32) &&& openCreate ≠ 0 := by decide
    cases hname : tmpChildName effective.bytes with
    | none =>
      refine .inl ?_
      have hne : effective.bytes ≠ [] := by
        unfold resolve at hmount
        split_ifs at hmount with hbad
        exact fun hnil => hbad (.inr (.inl hnil))
      rw [if_neg hread', if_neg hread', OpenAnswers.granted, seen_openRamfs _ _ hne, seen_openRamfs _ _ hne, htables]
    | some name =>
      dsimp only
      rw [hread, seen_openTmp _ _ hname, seen_openTmp _ _ hname, h.childEntry, h.parentEntry, h.childTable,
        h.parentTable, h.tree]
      rcases hentry : s.entry parent name with _ | target
      · exact .inl rfl
      have hlink := followTmpSymlinks_end hend
      rw [findTmpSymlinkPath_eq, hname, bind_some, h.parentEntry, hentry] at hlink
      obtain rfl : target = none := hlink
      exact .inr ⟨effective, name, hname, hentry, rfl, rfl⟩

/-- A name in /tmp of which a process has a file record leads to its file. -/
theorem look_name {t : Fin fdLimit → Option Target} (ht : s.tables pid = some t) {path : PathString}
    (hname : tmpChildName path.bytes = some name) (hentry : s.entry pid name = some none)
    (resolution : Resolution) : s.look pid resolution path = s.fileSeen (s.tables pid) pid name := by
  obtain ⟨hpath, -, -, -, hshort⟩ := tmpChildName_some hname
  have hfive := length_tmp_slash
  have hmax : direntNameMax = 32 := rfl
  have hlength : path.bytes.length = 5 + name.length := by rw [hpath, length_append, hfive]
  have hne : path.bytes ≠ [] := by
    intro hnil
    rw [hnil, length_nil] at hlength
    omega
  have hfits : pathFits path := by
    simp only [pathFits, Bool.and_eq_true, Bool.not_eq_true', isEmpty_eq_false_iff, Nat.ble_eq, maxPathBytes]
    exact ⟨hne, by omega⟩
  have hwalk : s.resolveTmpSymlinkWalk pid path 0 = some path := by
    have hnone : s.findTmpSymlinkPath pid path.bytes = none := by
      rw [findTmpSymlinkPath_eq, hname, bind_some, hentry]
      rfl
    rw [resolveTmpSymlinkWalk, symlinkMaxDepth, followTmpSymlinks, if_neg (by simp [hfits]), hnone]
  have hhead : path.bytes.head? = some slash := by
    rw [hpath, ascii_tmp_slash]
    rfl
  have hresolve : s.resolve pid path.bytes = some ⟨ascii "/tmp", .ramfs⟩ := by
    rw [resolve, if_neg, findMount_name hname]
    simp only [ht, isNone_some, Bool.false_eq_true, hne, hhead, false_or, ne_eq, not_true, or_false, maxPathBytes]
    omega
  have hmount : ascii "/tmp" ≠ path.bytes := by
    have hfour : (ascii "/tmp").length = 4 := by rw [ascii_tmp, tmpName_bytes]; rfl
    intro heq
    rw [← heq, hfour] at hlength
    omega
  have hflags : ¬ (0 : UInt32) &&& ~~~supportedFlags ≠ 0 := by decide
  have hread : ((0 : UInt32) &&& openCreate != 0) = false := by decide
  rw [look, Vfs.openPath, if_neg hflags, hwalk]
  dsimp only
  rw [hresolve]
  dsimp only
  rw [if_neg (by simp), if_neg hmount, hname]
  dsimp only
  rw [hread, seen_openTmp s pid hname, hentry]
  rfl

/-! ## What is inherited, and what is left -/

/-- Every path below /tmp that the parent can open, the child can open and reads the same. -/
def Inherited (s : Vfs) (parent child : UInt32) : Prop :=
  ∀ path, UnderTmp path → ∀ resolution contents, s.look parent resolution path = some contents →
    s.look child resolution path = some contents

/-- The parent has no descriptor left to open a file with, or for each of its files the directory of the child holds one
    with the same name and contents. -/
def Mirrored (s : Vfs) (parent child : UInt32) : Prop :=
  spare (s.tables parent) = none ∨ ∀ path : PathString, ∀ name id, tmpChildName path.bytes = some name →
    s.entry parent name = some none → s.tree.openPath nodeRoot (filePath parent name) = some id →
      ∃ id', s.tree.openPath nodeRoot (filePath child name) = some id' ∧
        s.tree.fs.read id' 0 fileCapacity = s.tree.fs.read id 0 fileCapacity

theorem Forked.inherited_iff (h : Forked parent child s s') :
    Inherited s' parent child ↔ Mirrored s parent child := by
  constructor
  · intro hin
    rcases hfree : spare (s.tables parent) with _ | fd
    · exact .inl hfree
    refine .inr fun path name id hname hentry hid => ?_
    obtain ⟨t, ht, -⟩ := bind_eq_some_iff.1 hfree
    have hunder : UnderTmp path := ⟨name, (tmpChildName_some hname).1⟩
    have hparent := look_name (h.parentTable.trans ht) hname ((h.parentEntry name).trans hentry) .denied
    have hchild := look_name (h.childTable.trans ht) hname ((h.childEntry name).trans hentry) .denied
    rw [fileSeen, h.parentTable, hfree, bind_some, h.tree, hid, map_some] at hparent
    have hsame := hin path hunder .denied _ hparent
    rw [hchild, fileSeen, h.childTable, hfree, bind_some, h.tree] at hsame
    exact map_eq_some_iff.1 hsame
  · intro hm path hu resolution contents hlook
    rcases h.look resolution hu with hsame | ⟨effective, name, hname, hentry, hparent, hchild⟩
    · rw [hsame, hlook]
    rw [hparent] at hlook
    obtain ⟨fd, hfree, hlook⟩ := bind_eq_some_iff.1 hlook
    obtain ⟨id, hid, hread⟩ := map_eq_some_iff.1 hlook
    rcases hm with hfull | hm
    · simp [hfull] at hfree
    · obtain ⟨id', hid', hread'⟩ := hm effective name id hname hentry hid
      rw [hchild, fileSeen, hfree, bind_some, hid', map_some, hread', hread]

/-- The directory of a process, or a node in it. -/
def OwnPlace (pid : UInt32) (names : List (List UInt8)) : Prop := names = [ownName pid, tmpName] ∨ InOwn pid names

/-- In every state that is reached: a fork that succeeds, into a number of which no process left a record, gives the child
    the files of its parent exactly if the child's directory holds the same already; and an exit, of the child of a fork or
    of another process, leaves no node of the process exactly if its directory was never made. -/
theorem inherit_iff (ops : List Op) (pid child : UInt32) (a : ForkAnswers) :
    (∀ s', (boot.run ops).fork pid child a = (true, s') → (∀ i r, (boot.run ops).tmp i = some r → r.pid ≠ child) →
        (Inherited s' pid child ↔ Mirrored (boot.run ops) pid child)) ∧
      ∀ forkChild s', (boot.run ops).release pid forkChild = (true, s') →
        ((∀ names id, OwnPlace pid names → ¬ s'.tree.NodeAt names id) ↔
          ∀ id, ¬ (boot.run ops).tree.NodeAt [ownName pid, tmpName] id) := by
  refine ⟨fun s' hf hfree => (forked hfree hf).inherited_iff, fun forkChild s' hr => ?_⟩
  have htree : s'.tree = (boot.run ops).tree := by
    unfold release at hr
    split at hr
    · cases hr
    · rw [← (Prod.mk.inj hr).2]
      cases forkChild <;> rfl
  rw [htree]
  constructor
  · exact fun h id => h _ id (.inl rfl)
  rintro h names id (rfl | ⟨name, rfl⟩) hat
  · exact h id hat
  · -- a node in the directory has the directory above it
    obtain ⟨i, hi, -, -, d, hd, hat⟩ := hat
    exact h _ ⟨d, ((boot.run ops).tree.isTree.up_iff.1 hd).1, rfl, hat⟩

/-- Everything a fork asks for is there. -/
def ForkAnswers.granted : ForkAnswers := { copied := true, fdPaths := true, identity := true, binding := true }

/-- Process 5 creates a file and closes it. -/
def oneFile : List Op := [.launch 5, .openPath 5 tmpA openCreate .granted, .close 5 0]

/-- The child has the record of its parent, and no file; an exit of the parent leaves the file. -/
theorem not_inherited :
    ((boot.run oneFile).fork 5 6 .granted).1 = true ∧ ¬ Inherited ((boot.run oneFile).fork 5 6 .granted).2 5 6 ∧
      ((boot.run oneFile).release 5 false).1 = true ∧
      ∃ id, ((boot.run oneFile).release 5 false).2.tree.NodeAt [ascii "a", ownName 5, tmpName] id := by
  refine ⟨by decide +kernel, fun h => ?_, by decide +kernel, 29, 28, by decide +kernel, by decide +kernel, ?_⟩
  · have hparent : ((boot.run oneFile).fork 5 6 .granted).2.look 5 .denied tmpA = some (some []) := by decide +kernel
    have hchild : ((boot.run oneFile).fork 5 6 .granted).2.look 6 .denied tmpA = none := by decide +kernel
    have hunder : UnderTmp tmpA := ⟨ascii "a", by decide +kernel⟩
    have hsame := h tmpA hunder .denied _ hparent
    simp [hchild] at hsame
  · exact ⟨by decide +kernel, 27, by decide +kernel, by decide +kernel, 26, by decide +kernel, by decide +kernel, 0,
      by decide +kernel, rfl⟩

end LimitlessOS.Vfs
