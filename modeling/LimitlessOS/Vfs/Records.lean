/-
  LimitlessOS.Vfs.Records — the records of the names in /tmp.

  A process has under a name what the first of its records of that name says. A fork copies
  the records of the parent one by one, each into the first free place, so the copies stand in
  the order of the originals: a child that had no record finds under every name what its parent
  finds. A process that was launched leaves its records when it exits, and a child that is given
  its number finds those too.

  Proved:
  - `entry_setTmp`: a record behind all others of its process adds a name and changes none.
  - `copyTmpRecords_entry`: the loop of the fork, record by record.
  - `forked`: what parent and child have after a fork.
  - `Forked.followTmpSymlinks`: the child follows the links of its parent.
-/
import LimitlessOS.Vfs.Privacy

namespace LimitlessOS.Vfs

open Function Lib Ramfs Option List

variable {s s' : Vfs} {child parent pid : UInt32} {name : List UInt8} {i j : Fin maxTmpRecords}

/-! ## What the records of a name say -/

/-- The record of a name: nothing, a file or the target of a link. -/
def entry (s : Vfs) (pid : UInt32) (name : List UInt8) : Option (Option PathString) :=
  (s.findTmpRecord pid name).bind fun i => (s.tmp i).map fun r => r.target

theorem isFor_iff {r : TmpRecord} : TmpRecord.isFor pid name (some r) = true ↔ r.pid = pid ∧ r.name = name := by
  simp [TmpRecord.isFor]

theorem findTmpRecord_some (h : s.findTmpRecord pid name = some i) : ∃ target, s.tmp i = some ⟨pid, name, target⟩ := by
  have hfor := Slots.first_some h
  obtain ⟨⟨pid', name', target⟩, hr, -⟩ := (any_eq_true _ _).1 hfor
  rw [hr] at hfor
  obtain ⟨rfl, rfl⟩ := isFor_iff.1 hfor
  exact ⟨target, hr⟩

theorem entry_none_iff : s.entry pid name = none ↔ s.findTmpRecord pid name = none := by
  rcases hfind : s.findTmpRecord pid name with _ | i
  · simp [entry, hfind]
  obtain ⟨target, hi⟩ := findTmpRecord_some hfind
  simp [entry, hfind, hi]

/-- What a place says about a name of a process. -/
def entryAt (s : Vfs) (pid : UInt32) (name : List UInt8) (i : Fin maxTmpRecords) : Option (Option PathString) :=
  (s.tmp i).bind fun r => if r.pid = pid ∧ r.name = name then some r.target else none

theorem entry_eq (s : Vfs) (pid : UInt32) (name : List UInt8) :
    s.entry pid name = (finRange maxTmpRecords).findSome? (s.entryAt pid name) := by
  unfold entry findTmpRecord Slots.first
  induction finRange maxTmpRecords with
  | nil => rfl
  | cons i places ih =>
    rw [find?_cons, findSome?_cons]
    cases hi : s.tmp i with
    | none => simpa [entryAt, hi, TmpRecord.isFor] using ih
    | some r =>
      by_cases hr : r.pid = pid ∧ r.name = name
      · simp [entryAt, hi, isFor_iff.2 hr, hr]
      · rw [Bool.eq_false_iff.2 (mt isFor_iff.1 hr)]
        simpa [entryAt, hi, hr] using ih

/-- A record behind all others of its process adds a name; a name that had a record keeps what it says. -/
theorem entry_setTmp {r : TmpRecord} (hempty : s.tmp j = none)
    (hlast : ∀ k r', s.tmp k = some r' → r'.pid = r.pid → k < j) (pid : UInt32) (name : List UInt8) :
    (s.setTmp j (some r)).entry pid name =
      (s.entry pid name).or (if r.pid = pid ∧ r.name = name then some r.target else none) := by
  have hother : ∀ k, k ≠ j → (s.setTmp j (some r)).tmp k = s.tmp k := fun k hk => update_of_ne hk _ _
  have hself : (s.setTmp j (some r)).tmp j = some r := update_self _ _ _
  rcases hfind : s.findTmpRecord pid name with _ | k
  · rw [entry_none_iff.2 hfind, none_or]
    have hnone := Slots.first_none.1 hfind
    split_ifs with hr
    · have hj : (s.setTmp j (some r)).findTmpRecord pid name = some j := by
        refine Slots.first_of_unique (by rw [hself]; exact isFor_iff.2 hr) fun k hk => ?_
        by_contra hne
        rw [hother k hne, hnone k] at hk
        cases hk
      rw [entry, hj, bind_some, hself, map_some]
    · refine entry_none_iff.2 (Slots.first_none.2 fun k => ?_)
      by_cases hk : k = j
      · rw [hk, hself]
        exact Bool.eq_false_iff.2 (mt isFor_iff.1 hr)
      · rw [hother k hk]
        exact hnone k
  · obtain ⟨target, hk⟩ := findTmpRecord_some hfind
    have hkj : k ≠ j := fun heq => by
      simp [heq, hempty] at hk
    -- the first record of the name is the first still: the new one, if it is of this name, stands behind it
    have hsame : (s.setTmp j (some r)).findTmpRecord pid name = some k := by
      obtain ⟨hfor, hbefore⟩ := Slots.first_some_iff.1 hfind
      refine Slots.first_some_iff.2 ⟨by rwa [hother k hkj], fun l hl => ?_⟩
      by_cases hlj : l = j
      · rw [hlj, hself]
        refine Bool.eq_false_iff.2 fun hr => ?_
        have hbehind := hlast k _ hk (isFor_iff.1 hr).1.symm
        exact absurd hl (by rw [hlj]; exact not_lt_of_gt hbehind)
      · rw [hother l hlj]
        exact hbefore l hl
    simp [entry, hsame, hfind, hother k hkj, hk]

/-! ## Forking -/

/-- The records of a process stand in front of the first free place. -/
def Packed (s : Vfs) (pid : UInt32) : Prop := ∀ k r j, s.tmp k = some r → r.pid = pid → s.tmp j = none → k < j

/-- One round of the loop: the parent keeps what it has, and the child gets the name of this place unless it has it. -/
theorem copyTmpRecord_entry (hne : parent ≠ child) (h : copyTmpRecord parent child s i = some s') (hpacked : s.Packed child) :
    s'.Packed child ∧
      ∀ name, (∀ k, s'.entryAt parent name k = s.entryAt parent name k) ∧
        s'.entry child name = (s.entry child name).or (s.entryAt parent name i) := by
  unfold copyTmpRecord at h
  split at h
  · rename_i hnone
    obtain rfl := some.inj h
    exact ⟨hpacked, fun name => ⟨fun _ => rfl, by simp [entryAt, hnone]⟩⟩
  rename_i r hr
  split_ifs at h with hother
  · obtain rfl := some.inj h
    exact ⟨hpacked, fun name => ⟨fun _ => rfl, by simp [entryAt, hr, hother]⟩⟩
  split at h
  · cases h
  rename_i j hfree
  obtain rfl := some.inj h
  obtain ⟨hempty, hbefore⟩ := Slots.first_some_iff.1 hfree
  have hempty : s.tmp j = none := by simpa using hempty
  refine ⟨fun k r' l hk hpid hl => ?_, fun name => ⟨fun k => ?_, ?_⟩⟩
  · -- the place that was filled was the first free one
    have hlj : l ≠ j := fun heq => by
      simp [heq, setTmp] at hl
    have hl : s.tmp l = none := by simpa [setTmp, update_of_ne hlj] using hl
    by_cases hkj : k = j
    · rw [hkj]
      refine lt_of_le_of_ne (not_lt.1 fun hlt => ?_) hlj.symm
      simpa [hl] using hbefore l hlt
    · exact hpacked k r' l (by simpa [setTmp, update_of_ne hkj] using hk) hpid hl
  · by_cases hkj : k = j
    · simp [entryAt, setTmp, hkj, hempty, hne.symm]
    · simp [entryAt, setTmp, update_of_ne hkj]
  · rw [entry_setTmp hempty (fun k r' hk hpid => hpacked k r' j hk hpid hempty) child name]
    simp [entryAt, hr, not_not.1 hother]

theorem copyTmpRecords_entry (hne : parent ≠ child) {places : List (Fin maxTmpRecords)}
    (h : places.foldlM (copyTmpRecord parent child) s = some s') (hpacked : s.Packed child) (name : List UInt8) :
    (∀ k, s'.entryAt parent name k = s.entryAt parent name k) ∧
      s'.entry child name = (s.entry child name).or (places.findSome? (s.entryAt parent name)) := by
  induction places generalizing s with
  | nil =>
    obtain rfl : s = s' := some.inj h
    exact ⟨fun _ => rfl, by simp⟩
  | cons i places ih =>
    obtain ⟨next, hnext, hrest⟩ := bind_eq_some_iff.1 h
    obtain ⟨hpacked', hone⟩ := copyTmpRecord_entry hne hnext hpacked
    obtain ⟨hparent, hchild⟩ := ih hrest hpacked'
    have hsame : next.entryAt parent name = s.entryAt parent name := funext (hone name).1
    refine ⟨fun k => (hparent k).trans ((hone name).1 k), ?_⟩
    rw [hchild, (hone name).2, hsame, findSome?_cons, Option.or_assoc]
    cases s.entryAt parent name i <;> rfl

theorem findTmpSymlinkPath_eq (s : Vfs) (pid : UInt32) (path : List UInt8) :
    s.findTmpSymlinkPath pid path = (tmpChildName path).bind fun name => (s.entry pid name).join := by
  unfold findTmpSymlinkPath entry
  congr 1
  funext name
  cases hfind : s.findTmpRecord pid name with
  | none => rfl
  | some i => cases hi : s.tmp i <;> simp [hi]

/-- The state a successful fork leaves: the child has the table of its parent, and its records. -/
structure Forked (parent child : UInt32) (s s' : Vfs) : Prop where
  tree : s'.tree = s.tree
  parentTable : s'.tables parent = s.tables parent
  childTable : s'.tables child = s.tables parent
  parentEntry : ∀ name, s'.entry parent name = s.entry parent name
  childEntry : ∀ name, s'.entry child name = s.entry parent name

theorem forkRecords_copied {a : ForkAnswers} (h : s.forkRecords parent child a = (true, s')) :
    forkCopyTmpNamespace s parent child = some s' := by
  unfold Vfs.forkRecords at h
  split at h
  · cases h
  split at h
  · cases h
  split at h
  · cases h
  rename_i hcopied
  split at h
  · exact hcopied.trans (congrArg some (Prod.mk.inj h).2)
  · cases h

/-- The child of a fork that has no record left over from an earlier process of its number. -/
theorem forked {a : ForkAnswers} (hfree : ∀ i r, s.tmp i = some r → r.pid ≠ child)
    (hf : s.fork parent child a = (true, s')) : Forked parent child s s' := by
  unfold Vfs.fork at hf
  split at hf
  · rename_i t ht hchild
    split at hf
    · cases hf
    split at hf
    · rename_i copied heq
      obtain rfl : copied = s' := (Prod.mk.inj hf).2
      have hne : parent ≠ child := fun hpc => by
        simp [hpc, hchild] at ht
      have hrest := forkRecords_rest { s with tables := update s.tables child (some t) } parent child a
      have hentry := copyTmpRecords_entry hne (forkRecords_copied heq) fun k r _ hk hpid => absurd hpid (hfree k r hk)
      have hnone : ∀ name, s.entry child name = none := fun name => by
        rw [entry_none_iff]
        refine Slots.first_none.2 fun k => ?_
        cases hk : s.tmp k with
        | none => rfl
        | some r => exact Bool.eq_false_iff.2 fun hr => hfree k r hk (isFor_iff.1 hr).1
      rw [heq] at hrest
      refine ⟨hrest.1, ?_, ?_, fun name => ?_, fun name => ?_⟩
      · exact (congrFun hrest.2 parent).trans (update_of_ne hne _ _)
      · rw [ht]
        exact (congrFun hrest.2 child).trans (update_self _ _ _)
      · rw [entry_eq, entry_eq, funext (hentry name).1]
        rfl
      · rw [(hentry name).2, entry_eq s parent]
        exact (congrArg (Option.or · _) (hnone name)).trans none_or
    · cases hf
  · cases hf

/-- The child follows the links of its parent. -/
theorem Forked.followTmpSymlinks (h : Forked parent child s s') (rounds : Nat) (nofollow : Bool) (path : PathString) :
    s'.followTmpSymlinks child rounds nofollow path = s'.followTmpSymlinks parent rounds nofollow path := by
  induction rounds generalizing nofollow path with
  | zero => rfl
  | succ rounds ih =>
    have hsame : s'.findTmpSymlinkPath child path.bytes = s'.findTmpSymlinkPath parent path.bytes := by
      simp only [findTmpSymlinkPath_eq, h.childEntry, h.parentEntry]
    simp only [Vfs.followTmpSymlinks, hsame, ih]

end LimitlessOS.Vfs
