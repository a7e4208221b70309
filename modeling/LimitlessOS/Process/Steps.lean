/-
  LimitlessOS.Process.Steps — what the calls do to the records.

  The records of processes, children and exits are maps from pids as long as the keys in
  each table are distinct (`Tables`), and a new pid must be one that no record names
  (`Unnamed`). A process record counts here only by its `Shape`: trees, tables, audit
  contexts and page roots are left out.

  Proved:
  - `spawnChild_some`, `drops_releaseClone`: a new process record, and its end.
  - `fork_spawns`, `clone_spawns`: a failed call leaves the records as they were.
  - `exit_cases`, `wait4_waits`: an exit record is made, and cleared with the others.
-/
import LimitlessOS.Process.Machine
import LimitlessOS.Sched.Steps
import LimitlessOS.Signal.Steps

namespace LimitlessOS.Process

open Lib Signal Sched Keyed Kernel Option Slots Personas

/-- What a record says about its process apart from its resources. -/
structure Shape where
  principalId : UInt32
  childKind : ChildKind
  personaCtx : Option Context

def ProcessRecord.shape (p : ProcessRecord) : Shape := ⟨p.principalId, p.childKind, p.personaCtx⟩

namespace Kernel

variable {k k' : Kernel} {pid child : UInt32} {f : ProcessRecord → ProcessRecord}

def shape (k : Kernel) (pid : UInt32) : Option Shape := (k.proc pid).map ProcessRecord.shape

/-- The tables are maps, and the static processes have the low pids. -/
structure Tables (k : Kernel) : Prop where
  procs : Distinct ProcessRecord.pid k.procs
  clones : Distinct CloneRecord.childPid k.cloneRecords
  exits : Distinct ExitRecord.pid k.exitRecords
  seeds : ∀ i : Fin (seedCount + cloneRecordLimit), i.val < seedCount → ∃ r, k.procs i = some r ∧ r.pid < clonePidBase
  next : clonePidBase ≤ k.nextClonePid

/-- No record names the pid. -/
structure Unnamed (k : Kernel) (pid : UInt32) : Prop where
  proc : k.proc pid = none
  child : k.cloneOf pid = none
  parent : ∀ c r, k.cloneOf c = some r → r.parentPid ≠ pid
  exit : k.exitOf pid = none
  last : k.lastExitPid ≠ pid

theorem forall_cloneOf {p : CloneRecord → Prop} :
    (∀ c r, k.cloneOf c = some r → p r) ↔ ∀ i, ∀ r ∈ k.cloneRecords i, ∀ r' ∈ k.cloneOf r.childPid, p r' := by
  constructor
  · intro h i r _ r' hr'
    exact h r.childPid r' hr'
  · intro h c r hr
    obtain ⟨i, hi, hkey⟩ := exists_of_get hr
    exact h i r hi r (hkey ▸ hr)

instance (k : Kernel) (pid : UInt32) : Decidable (k.Unnamed pid) :=
  decidable_of_iff
    ((k.proc pid).isNone ∧ (k.cloneOf pid).isNone ∧
      (∀ i, ∀ r ∈ k.cloneRecords i, ∀ r' ∈ k.cloneOf r.childPid, r'.parentPid ≠ pid) ∧ (k.exitOf pid).isNone ∧
      k.lastExitPid ≠ pid) <| by
    rw [← forall_cloneOf (k := k) (p := fun r => r.parentPid ≠ pid)]
    simp only [Option.isNone_iff_eq_none]
    exact ⟨fun h => ⟨h.1, h.2.1, h.2.2.1, h.2.2.2.1, h.2.2.2.2⟩, fun h => ⟨h.proc, h.child, h.parent, h.exit, h.last⟩⟩

theorem context_eq (k : Kernel) (pid : UInt32) : k.context pid = (k.shape pid).bind Shape.personaCtx := by
  unfold context shape
  cases k.proc pid <;> rfl

theorem principal_eq (k : Kernel) (pid : UInt32) : k.principal pid = ((k.shape pid).map Shape.principalId).getD 0 := by
  unfold principal shape
  cases k.proc pid <;> rfl

/-! ## Changes of one record -/

theorem proc_modify (ht : k.Tables) (pid : UInt32) (hf : ∀ r, (f r).pid = r.pid) (x : UInt32) :
    (k.modify pid f).proc x = if x = pid then (k.proc pid).map f else k.proc x :=
  get_modify ht.procs hf x

theorem Tables.modify (ht : k.Tables) (hf : ∀ r, (f r).pid = r.pid) :
    (k.modify pid f).Tables where
  procs := ht.procs.modify hf
  clones := ht.clones
  exits := ht.exits
  next := ht.next
  seeds := by
    intro i hi
    obtain ⟨r, hr, hpid⟩ := ht.seeds i hi
    have happly : (k.modify pid f).procs i = _ := modify_apply i f
    split_ifs at happly with hslot
    · exact ⟨f r, by rw [happly, hr]; rfl, by rwa [hf]⟩
    · exact ⟨r, by rw [happly, hr], hpid⟩

/-- Nothing but resources has changed. -/
structure Unchanged (k k' : Kernel) : Prop where
  tables : k'.Tables
  cloneRecords : k'.cloneRecords = k.cloneRecords
  exitRecords : k'.exitRecords = k.exitRecords
  lastExitPid : k'.lastExitPid = k.lastExitPid
  shape : ∀ x, k'.shape x = k.shape x

namespace Unchanged

theorem refl (ht : k.Tables) : Unchanged k k := ⟨ht, rfl, rfl, rfl, fun _ => rfl⟩

theorem trans {k'' : Kernel} (h : Unchanged k k') (h' : Unchanged k' k'') : Unchanged k k'' where
  tables := h'.tables
  cloneRecords := h'.cloneRecords.trans h.cloneRecords
  exitRecords := h'.exitRecords.trans h.exitRecords
  lastExitPid := h'.lastExitPid.trans h.lastExitPid
  shape x := (h'.shape x).trans (h.shape x)

section

variable (ht : k.Tables)
include ht

theorem modify (pid : UInt32) (hpid : ∀ r, (f r).pid = r.pid) (hf : ∀ r, (f r).shape = r.shape) :
    Unchanged k (k.modify pid f) := by
  refine ⟨ht.modify hpid, rfl, rfl, rfl, ?_⟩
  intro x
  rw [Kernel.shape, proc_modify ht pid hpid, Kernel.shape]
  split_ifs with hx
  · rw [hx, map_map]
    exact congrArg (fun g => (k.proc pid).map g) (funext hf)
  · rfl

theorem setPool (r : Resource) (pool : Pool poolLimit) : Unchanged k (k.setPool r pool) :=
  ⟨⟨ht.procs, ht.clones, ht.exits, ht.seeds, ht.next⟩, rfl, rfl, rfl, fun _ => rfl⟩

theorem setAttached (x : UInt32) (r : Resource) (p : Option (Ptr poolLimit)) :
    Unchanged k (k.setAttached x r p) :=
  modify ht x (fun _ => rfl) fun _ => rfl

theorem claim (r : Resource) (x : UInt32) : Unchanged k (claim r x k).2 := by
  unfold Kernel.claim
  split
  · exact refl ht
  split_ifs
  · exact refl ht
  · exact refl ht
  · split
    · exact refl ht
    · have hpool := setPool ht r
      exact (hpool _).trans (setAttached (hpool _).tables x r _)

theorem release (r : Resource) (x : UInt32) : Unchanged k (k.release r x) := by
  unfold Kernel.release
  split
  · exact refl ht
  · have hpool := setPool ht r
    exact (hpool _).trans (setAttached (hpool _).tables x r none)

theorem clearPageRoot (x : UInt32) : Unchanged k (k.clearPageRoot x) :=
  modify ht x (fun _ => rfl) fun _ => rfl

theorem cloneDetachSharedState (x : UInt32) : Unchanged k (k.cloneDetachSharedState x) :=
  modify ht x (fun _ => rfl) fun _ => rfl

end

end Unchanged

/-- The second kernel differs from the first in resources, and in the persona context of one process. -/
structure Within (child : UInt32) (k k' : Kernel) : Prop where
  tables : k'.Tables
  cloneRecords : k'.cloneRecords = k.cloneRecords
  exitRecords : k'.exitRecords = k.exitRecords
  lastExitPid : k'.lastExitPid = k.lastExitPid
  others : ∀ x, x ≠ child → k'.shape x = k.shape x
  kept : (k'.shape child).map (fun s => (s.principalId, s.childKind)) =
    (k.shape child).map fun s => (s.principalId, s.childKind)

namespace Within

theorem refl (ht : k.Tables) : Within child k k := ⟨ht, rfl, rfl, rfl, fun _ _ => rfl, rfl⟩

section

variable (h : Within child k k')
include h

/-- A change of resources. -/
theorem unchanged {k'' : Kernel} (hu : Unchanged k' k'') : Within child k k'' where
  tables := hu.tables
  cloneRecords := hu.cloneRecords.trans h.cloneRecords
  exitRecords := hu.exitRecords.trans h.exitRecords
  lastExitPid := hu.lastExitPid.trans h.lastExitPid
  others x hx := (hu.shape x).trans (h.others x hx)
  kept := by rw [hu.shape, h.kept]

theorem claim (r : Resource) (x : UInt32) : Within child k (claim r x k').2 :=
  h.unchanged (.claim h.tables r x)

theorem release (r : Resource) (x : UInt32) : Within child k (k'.release r x) :=
  h.unchanged (.release h.tables r x)

theorem clearPageRoot (x : UInt32) : Within child k (k'.clearPageRoot x) :=
  h.unchanged (.clearPageRoot h.tables x)

theorem cloneDetachSharedState (x : UInt32) : Within child k (k'.cloneDetachSharedState x) :=
  h.unchanged (.cloneDetachSharedState h.tables x)

/-- A change of the child's own record. -/
theorem modify (hpid : ∀ r, (f r).pid = r.pid) (hf : ∀ r, (f r).principalId = r.principalId ∧ (f r).childKind = r.childKind) :
    Within child k (k'.modify child f) := by
  refine ⟨h.tables.modify hpid, h.cloneRecords, h.exitRecords, h.lastExitPid, ?_, ?_⟩
  · intro x hx
    rw [shape, proc_modify h.tables child hpid, if_neg hx, ← h.others x hx, shape]
  · rw [← h.kept, shape, proc_modify h.tables child hpid, if_pos rfl, shape]
    cases k'.proc child with
    | none => rfl
    | some r => exact congrArg some (Prod.ext (hf r).1 (hf r).2)

theorem personaRelease : Within child k (k'.personaRelease child) := by
  apply h.modify
  · intro r
    split_ifs <;> rfl
  · intro r
    split_ifs <;> exact ⟨rfl, rfl⟩

/-- The child gets its persona context. -/
theorem shape_personaCtx {s : Shape} (hs : k.shape child = some s) (context : Option Context) :
    (k'.modify child fun p => { p with personaCtx := context }).shape child = some { s with personaCtx := context } := by
  have hkept := h.kept
  rw [hs] at hkept
  have hmodify := proc_modify h.tables child (f := fun p => { p with personaCtx := context }) (fun _ => rfl) child
  rw [shape, hmodify, if_pos rfl]
  rw [shape] at hkept
  rcases hproc : k'.proc child with _ | r
  · simp [hproc] at hkept
  simp only [hproc, map_some, some.injEq, Prod.mk.injEq] at hkept
  rw [← hkept.1, ← hkept.2]
  rfl

end

end Within

/-! ## New processes and released ones -/

theorem clonePidAfter_le (pid : UInt32) : clonePidBase ≤ clonePidAfter pid := by
  unfold clonePidAfter
  split_ifs with h
  · exact UInt32.le_refl _
  · exact UInt32.not_lt.1 fun hlt => h (.inr hlt)

/-- The second kernel has one more process. -/
structure Adds (k : Kernel) (parentPid : UInt32) (kind : ChildKind) (k' : Kernel) : Prop where
  tables : k'.Tables
  cloneRecords : k'.cloneRecords = k.cloneRecords
  exitRecords : k'.exitRecords = k.exitRecords
  lastExitPid : k'.lastExitPid = k.lastExitPid
  parent : k.principal parentPid ≠ 0
  shape : ∀ x, k'.shape x = if x = k.nextClonePid then some ⟨k.principal parentPid, kind, none⟩ else k.shape x

variable {k1 : Kernel} {kind : ChildKind} {parentPid code : UInt32} {p : CloneRecord → Bool} {r : CloneRecord}

theorem spawnChild_cases (h : k.spawnChild parentPid kind = some (child, k')) :
    k.principal parentPid ≠ 0 ∧ child = k.nextClonePid ∧ (k.proc parentPid).isSome ∧ ∃ i, k.procs i = none ∧
      ∃ r : ProcessRecord, r.pid = k.nextClonePid ∧ r.parentPid = parentPid ∧
        r.shape = ⟨k.principal parentPid, kind, none⟩ ∧ k' = { k with
          procs := put k.procs i r
          childCounts := countChild (Function.update k.childCounts i 0) (slot ProcessRecord.pid k.procs parentPid) (· + 1)
          nextClonePid := clonePidAfter k.nextClonePid } := by
  unfold spawnChild at h
  rcases hparent : k.proc parentPid with _ | parent
  · simp [hparent] at h
  have hprincipal : k.principal parentPid = parent.principalId := by rw [principal, hparent]; rfl
  simp only [hparent] at h
  split_ifs at h with hnone
  rcases hfree : free k.procs with _ | i
  · simp [hfree] at h
  simp only [hfree, some.injEq, Prod.mk.injEq] at h
  obtain ⟨rfl, rfl⟩ := h
  rw [hprincipal]
  exact ⟨hnone, rfl, rfl, i, free_some hfree, _, rfl, rfl, rfl, rfl⟩

theorem spawnChild_some (ht : k.Tables) (hnew : k.proc k.nextClonePid = none)
    (h : k.spawnChild parentPid kind = some (child, k')) : child = k.nextClonePid ∧ k.Adds parentPid kind k' := by
  obtain ⟨hprincipal, rfl, -, i, hi, r, hpid, -, hshape, rfl⟩ := spawnChild_cases h
  rw [← hpid] at hnew
  refine ⟨rfl, ⟨ht.procs.put hnew, ht.clones, ht.exits, ?_, clonePidAfter_le _⟩, rfl, rfl, rfl, hprincipal, ?_⟩
  · intro j hj
    obtain ⟨s, hs, hlow⟩ := ht.seeds j hj
    have hji : j ≠ i := by
      intro hji
      simp [hji, hi] at hs
    exact ⟨s, by rw [← hs]; exact Function.update_of_ne hji _ _, hlow⟩
  · intro x
    show Option.map _ (get _ _ x) = _
    rw [get_put ht.procs hi hnew, hpid, ← hshape]
    split_ifs <;> rfl

/-- The second kernel has one process less. -/
structure Drops (k : Kernel) (pid : UInt32) (k' : Kernel) : Prop where
  tables : k'.Tables
  cloneRecords : k'.cloneRecords = k.cloneRecords
  exitRecords : k'.exitRecords = k.exitRecords
  lastExitPid : k'.lastExitPid = k.lastExitPid
  shape : ∀ x, k'.shape x = if x = pid then none else k.shape x

theorem drops_releaseClone (ht : k.Tables) (hpid : clonePidBase ≤ pid) : k.Drops pid (k.releaseClone pid) := by
  unfold releaseClone
  cases hslot : slot ProcessRecord.pid k.procs pid with
  | none =>
    refine ⟨ht, rfl, rfl, rfl, ?_⟩
    intro x
    have hnone : k.proc pid = none := by rw [proc, Keyed.get, hslot]; rfl
    split_ifs with hx
    · rw [hx, shape, hnone]
      rfl
    · rfl
  | some i =>
    obtain ⟨r, hr, hkey⟩ := slot_some hslot
    have hmade : ¬ i.val < seedCount := by
      intro hi
      obtain ⟨s, hs, hlow⟩ := ht.seeds i hi
      obtain rfl : r = s := mem_unique hr hs
      rw [hkey] at hlow
      exact absurd hpid (UInt32.not_le.2 hlow)
    simp only [if_neg hmade]
    refine ⟨⟨ht.procs.erase, ht.clones, ht.exits, ?_, ht.next⟩, rfl, rfl, rfl, ?_⟩
    · intro j hj
      obtain ⟨s, hs, hlow⟩ := ht.seeds j hj
      have hji : slot ProcessRecord.pid k.procs pid ≠ some j := by
        intro hsome
        rw [hslot] at hsome
        obtain rfl := some.inj hsome
        exact hmade hj
      have happly : erase ProcessRecord.pid k.procs pid j = _ := erase_apply j
      rw [if_neg hji] at happly
      exact ⟨s, happly.trans hs, hlow⟩
    · intro x
      show Option.map _ (get _ _ x) = _
      rw [get_erase ht.procs]
      split_ifs
      · rfl
      · rfl

/-- A process that was made and set up, and is released again: nothing has changed. -/
theorem Adds.unchanged {k2 k3 : Kernel} (hnew : k.proc k.nextClonePid = none) (ha : k.Adds parentPid kind k1)
    (hw : Within k.nextClonePid k1 k2) (hd : k2.Drops k.nextClonePid k3) :
    Unchanged k k3 where
  tables := hd.tables
  cloneRecords := hd.cloneRecords.trans (hw.cloneRecords.trans ha.cloneRecords)
  exitRecords := hd.exitRecords.trans (hw.exitRecords.trans ha.exitRecords)
  lastExitPid := hd.lastExitPid.trans (hw.lastExitPid.trans ha.lastExitPid)
  shape := by
    intro x
    rw [hd.shape]
    split_ifs with hx
    · rw [hx, Kernel.shape, hnew]
      rfl
    · rw [hw.others x hx, ha.shape, if_neg hx]

/-- The process has a new child. -/
structure Spawned (k : Kernel) (pid : UInt32) (kind : ChildKind) (context : Context) (k' : Kernel) : Prop where
  tables : k'.Tables
  cloneOf : ∀ x, k'.cloneOf x = if x = k.nextClonePid then some ⟨pid, k.nextClonePid, none⟩ else k.cloneOf x
  exitRecords : k'.exitRecords = k.exitRecords
  lastExitPid : k'.lastExitPid = k.lastExitPid
  shape : ∀ x, k'.shape x = if x = k.nextClonePid then some ⟨k.principal pid, kind, some context⟩ else k.shape x

theorem Adds.spawned {k2 : Kernel} {context : Context} (ht : k.Tables)
    (hu : k.Unnamed k.nextClonePid) (ha : k.Adds pid kind k1) (hw : Within k.nextClonePid k1 k2)
    (hchild : k2.shape k.nextClonePid = some ⟨k.principal pid, kind, some context⟩) {i : Fin abiCloneRecordLimit}
    (hi : k.cloneRecords i = none) : k.Spawned pid kind context
      { k2 with cloneRecords := put k2.cloneRecords i ⟨pid, k.nextClonePid, none⟩ } where
  tables := by
    refine ⟨hw.tables.procs, hw.tables.clones.put ?_, hw.tables.exits, hw.tables.seeds, hw.tables.next⟩
    rw [hw.cloneRecords, ha.cloneRecords]
    exact hu.child
  cloneOf := by
    intro x
    rw [hw.cloneRecords, ha.cloneRecords]
    exact get_put ht.clones hi hu.child
  exitRecords := hw.exitRecords.trans ha.exitRecords
  lastExitPid := hw.lastExitPid.trans ha.lastExitPid
  shape := by
    intro x
    show k2.shape x = _
    split_ifs with hx
    · rw [hx, hchild]
    · rw [hw.others x hx, ha.shape, if_neg hx]

/-! ## The setup of a child -/

theorem within_assignRoot {made : Bool} (h : Within child k k') : Within child k (assignRoot child made k').2 := by
  unfold assignRoot
  split_ifs
  · exact h.unchanged (.modify h.tables child (fun _ => rfl) fun _ => rfl)
  · exact h

theorem within_copyResource {r : Resource} {copied : Bool} (h : Within child k k') :
    Within child k (copyResource child r copied k').2 := by
  unfold copyResource
  split_ifs
  · exact h
  · exact h.release r child

theorem within_forkResources {s : ForkSetup} :
    ∀ f ∈ forkResources pid child s, ∀ k', Within child k k' → Within child k (f k').2 := by
  intro f hf k' h
  simp only [forkResources, List.mem_cons, List.not_mem_nil, or_false] at hf
  rcases hf with rfl | rfl | rfl | rfl | rfl | rfl | rfl
  · exact within_assignRoot h
  · exact h.claim .vmaTree pid
  · exact h.claim .vmaTree child
  · exact within_copyResource h
  · exact h.claim .auditContext child
  · exact h.claim .fdTable child
  · exact within_copyResource h

theorem within_launchResources {s : LaunchSetup} :
    ∀ f ∈ launchResources child s, ∀ k', Within child k k' → Within child k (f k').2 := by
  intro f hf k' h
  simp only [launchResources, List.mem_cons, List.not_mem_nil, or_false] at hf
  rcases hf with rfl | rfl | rfl | rfl
  · exact within_assignRoot h
  · exact h.claim .vmaTree child
  · exact h.claim .auditContext child
  · exact h.claim .fdTable child

/-- The setup changes the new process only, and gives it its persona last. -/
theorem setup_spec (ht : k.Tables) {fs : List (Kernel → Bool × Kernel)} {free last : Bool} {context : Context} {s : Shape}
    (hfs : ∀ f ∈ fs, ∀ k', Within child k k' → Within child k (f k').2) (hs : k.shape child = some s) {b : Bool}
    (h : attempt (fs ++ [assignPersona child free context, fun k => (last, k)]) k = (b, k')) :
    Within child k k' ∧ (b → k'.shape child = some { s with personaCtx := some context }) := by
  have hresources : Within child k (attempt fs k).2 := attempt_invariant hfs (Within.refl ht)
  rw [attempt_append] at h
  split_ifs at h with hdone
  · cases hfree : free with
    | false =>
      simp only [attempt, assignPersona, hfree, Bool.false_eq_true, if_false, Prod.mk.injEq] at h
      obtain ⟨rfl, rfl⟩ := h
      exact ⟨hresources, by simp⟩
    | true =>
      cases hlast : last
      all_goals
        simp only [attempt, assignPersona, hfree, hlast, if_true, Prod.mk.injEq] at h
        obtain ⟨rfl, rfl⟩ := h
        exact ⟨hresources.modify (fun _ => rfl) fun _ => ⟨rfl, rfl⟩, fun _ => hresources.shape_personaCtx hs _⟩
  · rw [h] at hresources hdone
    exact ⟨hresources, fun hb => absurd hb hdone⟩

section

variable (h : Within child k k') (hchild : clonePidBase ≤ child)
include h hchild

theorem drops_forkReleaseSetup :
    ∃ k2, Within child k k2 ∧ k2.Drops child (k'.forkReleaseSetup child) := by
  have hshared := ((h.release .fdTable child).release .vmaTree child).personaRelease
  have hw := (hshared.release .auditContext child).clearPageRoot child
  exact ⟨_, hw, drops_releaseClone hw.tables hchild⟩

theorem drops_cloneRelease :
    ∃ k2, Within child k k2 ∧ k2.Drops child (k'.cloneRelease child) := by
  have hw := h.personaRelease.cloneDetachSharedState child
  exact ⟨_, hw, drops_releaseClone hw.tables hchild⟩

theorem drops_releaseFailedProcess :
    ∃ k2, Within child k k2 ∧ k2.Drops child (k'.releaseFailedProcess child) := by
  have hspace := (h.release .vmaTree child).clearPageRoot child
  have hw := (hspace.release .fdTable child).personaRelease.release .auditContext child
  exact ⟨_, hw, drops_releaseClone hw.tables hchild⟩

end

theorem drops_endSession (ht : k.Tables) (hpid : clonePidBase ≤ pid) :
    ∃ k2, Within pid k k2 ∧ k2.Drops pid (k.endSession pid) := by
  have hback : Within pid k (k.reattach pid) := (Within.refl ht).unchanged (.modify ht pid (fun _ => rfl) fun _ => rfl)
  exact drops_releaseFailedProcess hback hpid

/-! ## `fork` and `clone` -/

/-- The error returns are at the top of the range. -/
def failed (result : UInt64) : Bool := errorReturn 4095 ≤ result

theorem failed_pid (pid : UInt32) : failed pid.toUInt64 = false := by
  have hlt := pid.toNat_lt
  simp only [failed, decide_eq_false_iff_not, UInt64.not_le]
  exact Nat.lt_trans hlt (by decide)

/-- What `fork` and `clone` do: a call that fails leaves everything but resources as it was. -/
inductive Spawns (k : Kernel) (q : Runqueue) (pid : UInt32) (kind : ChildKind) : UInt64 × Kernel × Runqueue → Prop
  | refused {result : UInt64} {k' : Kernel} (hfailed : failed result = true) (hk : Unchanged k k') :
      Spawns k q pid kind (result, k', q)
  | made {context : Context} {k' : Kernel} {q' : Runqueue} {t : TaskId} {runtimeToken entryToken : UInt32} {frame : Frame}
      (hready : k.personas.ready pid = some context) (hk : k.Spawned pid kind (forkContext context) k')
      (hq : q.registerProcessFrame k.nextClonePid runtimeToken entryToken frame = (some t, q')) :
      Spawns k q pid kind (k.nextClonePid.toUInt64, k', q')

theorem fork_spawns (ht : k.Tables) (hu : k.Unnamed k.nextClonePid) (q : Runqueue) (pid : UInt32) (s : ForkSetup) :
    Spawns k q pid .fork (k.fork q pid s) := by
  unfold fork
  rcases hready : k.personas.ready pid with _ | context
  · exact .refused (by decide) (.refl ht)
  split_ifs with hentry
  · exact .refused (by decide) (.refl ht)
  rcases hfree : free k.cloneRecords with _ | i
  · exact .refused (by decide) (.refl ht)
  rcases hspawn : k.spawnChild pid .fork with _ | ⟨child, k1⟩
  · exact .refused (by decide) (.refl ht)
  obtain ⟨rfl, ha⟩ := spawnChild_some ht hu.proc hspawn
  have hchild : k1.shape k.nextClonePid = some ⟨k.principal pid, .fork, none⟩ := by rw [ha.shape, if_pos rfl]
  simp only
  rcases hsetup : k1.forkSetup pid k.nextClonePid context s with ⟨done, k2⟩
  obtain ⟨hw, hpersona⟩ := setup_spec ha.tables within_forkResources hchild hsetup
  have hundo : Unchanged k (k2.forkReleaseSetup k.nextClonePid) := by
    obtain ⟨k3, hw3, hd⟩ := drops_forkReleaseSetup hw ht.next
    exact ha.unchanged hu.proc hw3 hd
  cases done
  · exact .refused (by decide) hundo
  rcases q.registerProcessFrame_cases k.nextClonePid s.entry.runtimeToken s.entry.entryToken s.entry.frame with
    hnone | ⟨t, q', hsome, -⟩
  · simp only [hnone]
    exact .refused (by decide) hundo
  · simp only [hsome]
    exact .made hready (ha.spawned ht hu hw (hpersona rfl) (free_some hfree)) hsome

theorem failed_cloneDenied {s : CloneSetup} {e : UInt64} (h : k.cloneDenied pid s = some e) :
    failed (errorReturn e) := by
  unfold cloneDenied at h
  split_ifs at h <;> obtain rfl := some.inj h <;> decide

section

variable (ht : k.Tables)
include ht

theorem clone_spawns (hu : k.Unnamed k.nextClonePid) (q : Runqueue) (pid : UInt32) (s : CloneSetup) :
    Spawns k q pid .clone (k.clone q pid s) := by
  unfold clone
  rcases hready : k.personas.ready pid with _ | context
  · exact .refused (by decide) (.refl ht)
  cases hdenied : k.cloneDenied pid s with
  | some e => exact .refused (failed_cloneDenied hdenied) (.refl ht)
  | none =>
  rcases hfree : free k.cloneRecords with _ | i
  · exact .refused (by decide) (.refl ht)
  rcases hspawn : k.spawnChild pid .clone with _ | ⟨child, k1⟩
  · exact .refused (by decide) (.refl ht)
  obtain ⟨rfl, ha⟩ := spawnChild_some ht hu.proc hspawn
  have hundo : ∀ k2, Within k.nextClonePid k1 k2 → Unchanged k (k2.cloneRelease k.nextClonePid) := by
    intro k2 hw
    obtain ⟨k3, hw3, hd⟩ := drops_cloneRelease hw ht.next
    exact ha.unchanged hu.proc hw3 hd
  have hw : Within k.nextClonePid k1 (k1.cloneShare k.nextClonePid context (k.attached pid)) :=
    (Within.refl ha.tables).modify (fun _ => rfl) fun _ => ⟨rfl, rfl⟩
  split_ifs with hpersona
  · exact .refused (by decide) (hundo k1 (.refl ha.tables))
  rcases q.registerProcessFrame_cases k.nextClonePid s.entry.runtimeToken s.entry.entryToken
      { s.entry.frame with rsp := s.childStack } with hnone | ⟨t, q', hsome, -⟩
  · simp only [hnone]
    exact .refused (by decide) (hundo _ hw)
  simp only [hsome]
  refine .made hready (ha.spawned ht hu hw ?_ (free_some hfree)) hsome
  have hmodify := proc_modify ha.tables k.nextClonePid (f := fun p =>
    { p with attached := k.attached pid, pageRoot := true, personaCtx := some (forkContext context) }) (fun _ => rfl)
  have hchild := ha.shape k.nextClonePid
  rw [if_pos rfl, shape] at hchild
  obtain ⟨r, hr, hshape⟩ := map_eq_some_iff.1 hchild
  rw [shape, cloneShare, hmodify, if_pos rfl, hr]
  simp only [ProcessRecord.shape, Shape.mk.injEq] at hshape
  simp only [map_some, ProcessRecord.shape, hshape.1, hshape.2.1]

theorem execve_unchanged (pid : UInt32) (s : ExecSetup) : Unchanged k (k.execve pid s).2 := by
  unfold execve
  rcases k.personas.ready pid with _ | context
  · exact .refl ht
  split_ifs
  · exact .refl ht
  have hreleased := Unchanged.release ht .vmaTree pid
  have hclaimed := hreleased.trans (.claim hreleased.tables .vmaTree pid)
  rcases hclaim : claim .vmaTree pid (k.release .vmaTree pid) with ⟨done, k'⟩
  rw [hclaim] at hclaimed
  cases done <;> exact hclaimed

/-! ## Contexts -/

theorem Tables.setContexts (f : UInt32 → Option Context) : (k.setContexts f).Tables where
  procs := ht.procs.map fun _ => rfl
  clones := ht.clones
  exits := ht.exits
  next := ht.next
  seeds := by
    intro i hi
    obtain ⟨r, hr, hpid⟩ := ht.seeds i hi
    refine ⟨{ r with personaCtx := f r.pid }, ?_, hpid⟩
    show (k.procs i).map _ = _
    rw [hr]
    rfl

theorem shape_setContexts (f : UInt32 → Option Context) (x : UInt32) :
    (k.setContexts f).shape x = (k.shape x).map fun s => { s with personaCtx := f x } := by
  have hget : (k.setContexts f).proc x = (k.proc x).map fun r => { r with personaCtx := f r.pid } :=
    get_map (f := fun r : ProcessRecord => { r with personaCtx := f r.pid }) ht.procs (fun _ => rfl) x
  rw [shape, hget, shape]
  rcases hproc : k.proc x with _ | r
  · rfl
  have hx : r.pid = x := key_of_get hproc
  subst hx
  rfl

/-! ## The end of a process -/

/-- The records of a child are cleared and its process is released. -/
structure Clears (k : Kernel) (child : UInt32) (k' : Kernel) : Prop where
  tables : k'.Tables
  cloneOf : ∀ x, k'.cloneOf x = if x = child then none else k.cloneOf x
  exitOf : ∀ x, k'.exitOf x = if x = child then none else k.exitOf x
  lastExitPid : k'.lastExitPid = k.lastExitPid
  shape : ∀ x, k'.shape x = if x = child then none else k.shape x

theorem clears_releaseClone (hchild : clonePidBase ≤ child) :
    k.Clears child ((k.releaseClone child).clearRecords child) := by
  have hd := drops_releaseClone ht hchild
  refine ⟨⟨hd.tables.procs, hd.tables.clones.erase, hd.tables.exits.erase, hd.tables.seeds, hd.tables.next⟩, ?_, ?_,
    hd.lastExitPid, hd.shape⟩
  · intro x
    rw [cloneOf, clearRecords, get_erase hd.tables.clones, hd.cloneRecords]
    rfl
  · intro x
    rw [exitOf, clearRecords, get_erase hd.tables.exits, hd.exitRecords]
    rfl

theorem shape_personaRelease (hprincipal : k.principal pid ≠ 0) :
    (k.personaRelease pid).shape pid = (k.shape pid).map fun s => { s with personaCtx := none } := by
  have hpid : ∀ r : ProcessRecord, (if r.principalId = 0 then r else { r with personaCtx := none }).pid = r.pid := by
    intro r
    split_ifs <;> rfl
  rw [shape, personaRelease, proc_modify ht pid hpid, if_pos rfl, shape]
  rcases hproc : k.proc pid with _ | r
  · rfl
  rw [principal, hproc] at hprincipal
  simp only [map_some, if_neg (show ¬ r.principalId = 0 from hprincipal)]
  rfl

theorem unchanged_detached (d : Resource → Option (Ptr poolLimit)) :
    Unchanged k { k with lastExitDetached := d } :=
  ⟨⟨ht.procs, ht.clones, ht.exits, ht.seeds, ht.next⟩, rfl, rfl, rfl, fun _ => rfl⟩

end

theorem principal_unchanged (h : Unchanged k k') (x : UInt32) : k'.principal x = k.principal x := by
  rw [principal_eq, principal_eq, h.shape]

theorem exitResources_spec (ht : k.Tables) (hprincipal : k.principal pid ≠ 0) :
    Within pid k (k.exitResources pid) ∧
      (k.exitResources pid).shape pid = (k.shape pid).map fun s => { s with personaCtx := none } := by
  unfold exitResources
  split_ifs with hclone
  · have hw : Within pid k (k.personaRelease pid) := (Within.refl ht).personaRelease
    have hshared := Unchanged.cloneDetachSharedState hw.tables pid
    have hdetach := hshared.trans (unchanged_detached hshared.tables (k.attached pid))
    exact ⟨hw.unchanged hdetach, by rw [hdetach.shape, shape_personaRelease ht hprincipal]⟩
  have hreleased : Unchanged k ((k.release .vmaTree pid).release .fdTable pid) :=
    (Unchanged.release ht .vmaTree pid).trans (.release (Unchanged.release ht .vmaTree pid).tables .fdTable pid)
  have hw : Within pid k (((k.release .vmaTree pid).release .fdTable pid).personaRelease pid) :=
    ((Within.refl ht).unchanged hreleased).personaRelease
  have haudit := Unchanged.release hw.tables .auditContext pid
  have hdetach := haudit.trans (unchanged_detached haudit.tables fun _ => none)
  refine ⟨hw.unchanged hdetach, ?_⟩
  rw [hdetach.shape, shape_personaRelease hreleased.tables (by rwa [principal_unchanged hreleased]), hreleased.shape]

/-- The process has exited and nobody has been told yet but the parent of a forked child, by a signal. -/
structure Exits (k : Kernel) (pid code : UInt32) (k' : Kernel) : Prop where
  tables : k'.Tables
  cloneRecords : k'.cloneRecords = k.cloneRecords
  exitOf : ∀ x, k'.exitOf x = if x = pid then some ⟨pid, code⟩ else k.exitOf x
  lastExitPid : k'.lastExitPid = pid
  self : k'.shape pid = (k.shape pid).map fun s => { s with personaCtx := none }
  others : ∀ x, x ≠ pid → k'.shape x = k.shape x ∨
    ∃ s record context, k.shape x = some s ∧ k.childKind pid = .fork ∧ k.cloneOf pid = some record ∧ record.parentPid = x ∧
      s.personaCtx = some context ∧
      k'.shape x = some { s with personaCtx := some (context.setPending (context.pending ||| signalMaskFor sigchld)) }

theorem unchanged_markChildExited (ht : k.Tables) (code : UInt32) : Unchanged k (k.markChildExited pid code) := by
  apply Unchanged.modify ht
  · intro r
    split_ifs <;> rfl
  · intro r
    split_ifs <;> rfl

/-- Contexts that are written back as they were. -/
theorem shape_setContexts_self (ht : k.Tables) {f : UInt32 → Option Context} {x : UInt32} (hf : f x = k.context x) :
    (k.setContexts f).shape x = k.shape x := by
  rw [shape_setContexts ht, hf, context_eq]
  cases k.shape x with
  | none => rfl
  | some s => rfl

/-- A signal is marked pending for one process at most. -/
theorem shape_markSignalPending (ht : k.Tables) (target signal x : UInt32) :
    (k.setContexts (k.personas.markSignalPending target signal).context).shape x = k.shape x ∨
      ∃ s context, x = target ∧ k.shape x = some s ∧ s.personaCtx = some context ∧
        (k.setContexts (k.personas.markSignalPending target signal).context).shape x =
          some { s with personaCtx := some (context.setPending (context.pending ||| signalMaskFor signal)) } := by
  unfold markSignalPending
  rcases hready : k.personas.ready target with _ | context
  · exact .inl (shape_setContexts_self ht rfl)
  simp only
  split_ifs with hbit
  · exact .inl (shape_setContexts_self ht rfl)
  by_cases hx : x = target
  · have hcontext : k.context target = some context := (ready_eq_some.1 hready).2.2.1
    rw [context_eq] at hcontext
    obtain ⟨s, hs, hsc⟩ := bind_eq_some_iff.1 hcontext
    subst hx
    refine .inr ⟨s, context, rfl, hs, hsc, ?_⟩
    rw [shape_setContexts ht, hs, set_context, if_pos rfl]
    rfl
  · left
    apply shape_setContexts_self ht
    rw [set_context, if_neg hx]
    rfl

theorem Exits.unchanged (he : k.Exits pid code k1) (hu : Unchanged k1 k') : k.Exits pid code k' where
  tables := hu.tables
  cloneRecords := hu.cloneRecords.trans he.cloneRecords
  exitOf x := by rw [Kernel.exitOf, hu.exitRecords]; exact he.exitOf x
  lastExitPid := hu.lastExitPid.trans he.lastExitPid
  self := (hu.shape pid).trans he.self
  others x hx := by rw [hu.shape]; exact he.others x hx

theorem Exits.notifyParent (he : k.Exits pid code k1) (hfork : k.childKind pid = .fork) {parent : Option UInt32}
    (hparent : parent = (k.cloneOf pid).map CloneRecord.parentPid) (hothers : ∀ x, x ≠ pid → k1.shape x = k.shape x) :
    k.Exits pid code (k1.notifyParent pid code parent) := by
  cases hrecord : k.cloneOf pid with
  | none =>
    rw [hparent, hrecord]
    exact he.unchanged (unchanged_markChildExited he.tables code)
  | some record =>
    rw [hparent, hrecord]
    have hmarked : k.Exits pid code
        (k1.setContexts (k1.personas.markSignalPending record.parentPid sigchld).context) := by
      refine ⟨he.tables.setContexts _, he.cloneRecords, he.exitOf, he.lastExitPid, ?_, ?_⟩
      · rcases shape_markSignalPending he.tables record.parentPid sigchld pid with heq | ⟨s, context, -, hs, hsc, -⟩
        · rw [heq, he.self]
        -- the process that exits has no context that a signal could be marked in
        · rw [he.self] at hs
          obtain ⟨s', -, rfl⟩ := map_eq_some_iff.1 hs
          cases hsc
      · intro x hx
        rcases shape_markSignalPending he.tables record.parentPid sigchld x with heq | ⟨s, context, rfl, hs, hsc, hnew⟩
        · exact .inl (heq.trans (hothers x hx))
        · exact .inr ⟨s, record, context, (hothers _ hx).symm.trans hs, hfork, hrecord, rfl, hsc, hnew⟩
    exact hmarked.unchanged (unchanged_markChildExited hmarked.tables code)

theorem exitProcess_exits (ht : k.Tables) (hprincipal : k.principal pid ≠ 0) (hlive : k.exitOf pid = none)
    (code : UInt32) {i : Fin exitRecordLimit} (hi : k.exitRecordForPid pid = some i) :
    k.Exits pid code (k.exitProcess pid code i) := by
  -- the slot is a free one, since the process has no exit record yet
  have hfree : k.exitRecords i = none := by
    unfold exitRecordForPid at hi
    rw [slot_none.2 (get_eq_none.1 hlive)] at hi
    exact free_some hi
  have hrecorded : ∀ k1, Within pid k k1 → k1.shape pid = (k.shape pid).map (fun s => { s with personaCtx := none }) →
      k.Exits pid code { k1 with lastExitPid := pid, exitRecords := put k1.exitRecords i ⟨pid, code⟩ } := by
    intro k1 hw hself
    have hput : (get ExitRecord.pid k1.exitRecords pid) = none := by
      rwa [hw.exitRecords]
    refine ⟨⟨hw.tables.procs, hw.tables.clones, hw.tables.exits.put hput, hw.tables.seeds, hw.tables.next⟩,
      hw.cloneRecords, ?_, rfl, hself, fun x hx => .inl (hw.others x hx)⟩
    intro x
    rw [hw.exitRecords]
    exact get_put ht.exits hfree hlive
  obtain ⟨hw, hself⟩ := exitResources_spec ht hprincipal
  unfold exitProcess
  split_ifs with hfork
  · have hroot := Unchanged.clearPageRoot hw.tables pid
    have he := hrecorded _ (hw.unchanged hroot) (by rw [hroot.shape, hself])
    apply he.notifyParent hfork rfl
    intro x hx
    exact (hroot.shape x).trans (hw.others x hx)
  · exact hrecorded _ hw hself

/-- The process exits, and a parent that is entered in its clone record is woken. -/
theorem exit_cases (k : Kernel) (q : Runqueue) (pid : UInt32) (exitCode : UInt64) :
    k.exit q pid exitCode = (false, none, k, q) ∨
      ∃ context i, k.personas.ready pid = some context ∧ k.exitRecordForPid pid = some i ∧
        k.exit q pid exitCode =
          (true, (k.exitProcess pid exitCode.toUInt32 i).completeBlockedChild q pid exitCode.toUInt32) := by
  unfold exit
  rcases hready : k.personas.ready pid with _ | context
  · exact .inl rfl
  cases hi : k.exitRecordForPid pid with
  | none => exact .inl rfl
  | some i => exact .inr ⟨context, i, rfl, rfl, rfl⟩

/-- A parent is woken with the pid and the status, or nobody waits. -/
theorem completeBlockedChild_cases (k : Kernel) (q : Runqueue) (child code : UInt32) :
    (k.completeBlockedChild q child code = (none, k, q) ∧ ∀ r, k.cloneOf child = some r → r.waiter = none) ∨
      ∃ r task address written, k.cloneOf child = some r ∧ r.waiter = some (task, address) ∧
        k.completeBlockedChild q child code =
          (if (q.wakeTaskWithResult task child.toUInt64).1 then
              some ⟨(q.tasks task).pid, child, statusForExit code, address, written⟩
            else none,
            (k.releaseClone child).clearRecords child, (q.wakeTaskWithResult task child.toUInt64).2) := by
  unfold completeBlockedChild
  rcases hrecord : k.cloneOf child with _ | r
  · exact .inl ⟨rfl, by simp⟩
  simp only
  cases hwaiter : r.waiter with
  | none =>
    refine .inl ⟨rfl, ?_⟩
    intro r' hr'
    obtain rfl := some.inj hr'
    exact hwaiter
  | some w =>
    obtain ⟨task, address⟩ := w
    exact .inr ⟨r, task, address, _, rfl, hwaiter, rfl⟩

/-! ## `wait4` -/

/-- What `wait4` does: nothing, reap an exited child, or block. -/
inductive Waits (k : Kernel) (q : Runqueue) (pid : UInt32) (waitPid userStatus : UInt64) :
    UInt64 × Option Reap × Kernel × Runqueue → Prop
  | refused (result : UInt64) : Waits k q pid waitPid userStatus (result, none, k, q)
  | reaped {r : CloneRecord} {e : ExitRecord} (hr : k.cloneOf r.childPid = some r) (hparent : r.parentPid = pid)
      (he : k.exitOf r.childPid = some e) :
      Waits k q pid waitPid userStatus (r.childPid.toUInt64,
        some ⟨pid, r.childPid, statusForExit e.exitCode, userStatus, userStatus ≠ 0⟩,
        (k.releaseClone r.childPid).clearRecords r.childPid, q)
  | blocked {r : CloneRecord} (hr : k.cloneOf r.childPid = some r)
      (hparent : r.parentPid = pid) (hany : waitPid = waitAny ∨ waitPid = r.childPid.toUInt64)
      (hnone : ∀ c r', k.cloneOf c = some r' → waitMatches pid waitPid r' = true → k.exitOf c = none)
      (hquiet : k.personas.unmaskedSignalPending pid = false) :
      Waits k q pid waitPid userStatus (k.wait4Block q pid r userStatus)

theorem Tables.enterWaiter (ht : k.Tables) (child : UInt32) (task : TaskId) (a : UInt64) :
    (k.enterWaiter child task a).Tables :=
  ⟨ht.procs, ht.clones.modify fun _ => rfl, ht.exits, ht.seeds, ht.next⟩

theorem cloneOf_enterWaiter (ht : k.Tables) (child : UInt32) (task : TaskId) (a : UInt64) (x : UInt32) :
    (k.enterWaiter child task a).cloneOf x =
      if x = child then (k.cloneOf child).map fun r => { r with waiter := some (task, a) } else k.cloneOf x :=
  get_modify ht.clones (f := fun r : CloneRecord => { r with waiter := some (task, a) }) (fun _ => rfl) x

/-- The task does not block, or it is the running one and is entered in the record. -/
theorem wait4Block_cases (k : Kernel) (q : Runqueue) (pid : UInt32) (r : CloneRecord) (a : UInt64) :
    (∃ q', Runqueue.Same (fun _ => False) q q' ∧ q'.currentTaskId = q.currentTaskId ∧
        k.wait4Block q pid r a = (errorReturn eagain, none, k, q')) ∨
      ∃ task q', q.currentTaskId = some task ∧ (q.tasks task).pid = pid ∧ (q.tasks task).state = .running ∧
        r.waiter = none ∧ q.blockTask task = (true, q') ∧
        k.wait4Block q pid r a = (0, none, k.enterWaiter r.childPid task a, q') := by
  unfold wait4Block
  rcases ht : q.currentTaskId with _ | task
  · exact .inl ⟨q, .refl _ q, ht, rfl⟩
  simp only
  split_ifs with hno
  · exact .inl ⟨q, .refl _ q, ht, rfl⟩
  simp only [not_or, not_not, Bool.not_eq_true, isSome_eq_false_iff, isNone_iff_eq_none] at hno
  rcases hblock : q.blockTask task with ⟨done, q'⟩
  have hsame := q.same_blockTask task
  have hcurrent := (q.still_blockTask task).currentTaskId
  rw [hblock] at hsame hcurrent
  cases done with
  | false => exact .inl ⟨q', hsame, hcurrent.trans ht, rfl⟩
  | true => exact .inr ⟨task, q', rfl, hno.1, hno.2.1, hno.2.2, hblock, rfl⟩

theorem first_record (ht : k.Tables) (h : (first k.cloneRecords fun r => r.any p).bind k.cloneRecords = some r) :
    k.cloneOf r.childPid = some r ∧ p r := by
  obtain ⟨i, hi, hr⟩ := bind_eq_some_iff.1 h
  have hp := first_some hi
  rw [hr] at hp
  exact ⟨get_of_slot ht.clones hr, hp⟩

theorem first_record_none (h : (first k.cloneRecords fun r => r.any p).bind k.cloneRecords = none) {c : UInt32}
    (hr : k.cloneOf c = some r) : p r = false := by
  obtain ⟨i, hi, -⟩ := exists_of_get hr
  rw [bind_eq_none_iff] at h
  rcases hfirst : first k.cloneRecords fun r => r.any p with _ | j
  · simpa [hi] using first_none.1 hfirst i
  have hj := first_some hfirst
  simp [h j hfirst] at hj

theorem wait4_waits (ht : k.Tables) (q : Runqueue) (pid : UInt32) (waitPid userStatus options userRusage : UInt64)
    (writable : Bool) :
    Waits k q pid waitPid userStatus (k.wait4 q pid waitPid userStatus options userRusage writable) := by
  unfold wait4
  rcases hready : k.personas.ready pid with _ | context
  · exact .refused _
  cases hdenied : wait4Denied waitPid userStatus options userRusage writable with
  | some e => exact .refused _
  | none =>
    cases hwait : k.cloneRecordForParentWait pid waitPid with
    | some r =>
      obtain ⟨hr, hmatch⟩ := first_record ht hwait
      simp only [waitMatches, Bool.and_eq_true, decide_eq_true_eq] at hmatch
      simp only
      cases he : k.exitOf r.childPid with
      | none => exact .refused _
      | some e => exact .reaped hr hmatch.1.1 he
    | none =>
      rcases hany : k.cloneRecordForParentAny pid waitPid with _ | r
      · exact .refused _
      obtain ⟨hr, hmatch⟩ := first_record ht hany
      simp only [waitMatches, decide_eq_true_eq] at hmatch
      split_ifs with hnohang hsignal
      · exact .refused _
      · exact .refused _
      refine .blocked hr hmatch.1 hmatch.2 ?_ (by simpa using hsignal)
      intro c r' hr' hm
      have hnot := first_record_none hwait hr'
      have hc : r'.childPid = c := key_of_get hr'
      rw [hm, Bool.true_and, processExited, hc] at hnot
      simpa using hnot

/-! ## Launches -/

/-- A process without a parent has been made. -/
structure Launched (k k' : Kernel) : Prop where
  tables : k'.Tables
  cloneRecords : k'.cloneRecords = k.cloneRecords
  exitRecords : k'.exitRecords = k.exitRecords
  lastExitPid : k'.lastExitPid = k.lastExitPid
  shape : ∃ principal, ∀ x, k'.shape x =
    if x = k.nextClonePid then some ⟨principal, .clone, some (initContext k.nextClonePid)⟩ else k.shape x

theorem Launched.context (h : k.Launched k') (x : UInt32) :
    k'.context x = if x = k.nextClonePid then some (initContext k.nextClonePid) else k.context x := by
  obtain ⟨principal, hshape⟩ := h.shape
  rw [context_eq, hshape]
  split_ifs
  · rfl
  · rw [context_eq]

end Kernel

namespace Machine

/-- A launch fails, and then the run queue may have been emptied; or it starts a task. -/
inductive Launching (m : Machine) : Machine → Prop
  | refused {k : Kernel} {q : Runqueue} (hk : m.kernel.Unchanged k) (hq : q = m.queue ∨ q = .reset) :
      Launching m { m with kernel := k, queue := q }
  | started {k : Kernel} {q : Runqueue} {t : TaskId} {runtimeToken entryToken : UInt32} {frame : Frame}
      (hidle : m.queue.active = false) (hk : m.kernel.Launched k)
      (hq : Runqueue.reset.registerProcessFrame m.kernel.nextClonePid runtimeToken entryToken frame = (some t, q)) :
      Launching m { kernel := k, queue := (q.start t).2, leader := some m.kernel.nextClonePid }

theorem launching {m : Machine} (ht : m.kernel.Tables) (hu : m.kernel.Unnamed m.kernel.nextClonePid) (s : LaunchSetup) :
    m.Launching (m.launch s) := by
  unfold launch
  split_ifs with hactive
  · exact .refused (.refl ht) (.inl rfl)
  rcases hspawn : m.kernel.spawnChild s.parentPid .clone with _ | ⟨child, k1⟩
  · exact .refused (.refl ht) (.inl rfl)
  obtain ⟨rfl, ha⟩ := spawnChild_some ht hu.proc hspawn
  have hchild : k1.shape m.kernel.nextClonePid = some ⟨m.kernel.principal s.parentPid, .clone, none⟩ := by
    rw [ha.shape, if_pos rfl]
  simp only
  rcases hsetup : k1.launchSetup m.kernel.nextClonePid s with ⟨done, k2⟩
  obtain ⟨hw, hpersona⟩ := setup_spec ha.tables within_launchResources hchild hsetup
  have hundo : m.kernel.Unchanged (k2.releaseFailedProcess m.kernel.nextClonePid) := by
    obtain ⟨k3, hw3, hd⟩ := drops_releaseFailedProcess hw ht.next
    exact ha.unchanged hu.proc hw3 hd
  cases done
  · exact .refused hundo (.inl rfl)
  rcases Runqueue.reset.registerProcessFrame_cases m.kernel.nextClonePid s.entry.runtimeToken s.entry.entryToken
      s.entry.frame with hnone | ⟨t, q', hsome, -⟩
  · simp only [hnone]
    exact .refused hundo (.inr rfl)
  simp only [hsome]
  refine .started (by simpa using hactive) ⟨hw.tables, hw.cloneRecords.trans ha.cloneRecords,
    hw.exitRecords.trans ha.exitRecords, hw.lastExitPid.trans ha.lastExitPid,
    m.kernel.principal s.parentPid, ?_⟩ hsome
  intro x
  split_ifs with hx
  · rw [hx]
    exact hpersona rfl
  · rw [hw.others x hx, ha.shape, if_neg hx]

end Machine

end LimitlessOS.Process
