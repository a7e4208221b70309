/-
  LimitlessOS.Process.Pids — the pids of new processes, and the numbers of children.

  `process64_spawn_child` takes the next pid of a counter that starts again at its base
  behind the last pid, and adds one to the child count of the parent;
  `process64_release_clone` takes it back. Neither looks whether the pid is one of a live
  process, or of a released one whose children are live: their records still name it.

  Proved:
  - `right_iff`: what one call does to a state that is in order.
  - `pids_of_run`: pids are new and the children counted right in a run exactly when every
    new process gets a pid that no record has and no record names as its parent's.
  - `pid_of_live_process`: after a process has been made and released often enough, the pid
    of one that is live is given to another.
-/
import LimitlessOS.Lib.Run
import LimitlessOS.Process.Invariant

namespace LimitlessOS.Process

open Function Lib Signal Keyed ProcessRecord Slots UInt32 Option

inductive PidCall where
  | spawnClone (parentPid : UInt32)
  | spawnFork (parentPid : UInt32)
  | releaseClone (pid : UInt32)

namespace Kernel

variable {k k' : Kernel} {parentPid child : UInt32} {kind : ChildKind} {i : Fin (seedCount + cloneRecordLimit)}
  {r : ProcessRecord}

/-- `process64_spawn_clone` -/
def spawnClone (k : Kernel) (parentPid : UInt32) : Option (UInt32 × Kernel) := k.spawnChild parentPid .clone

/-- `process64_spawn_fork` -/
def spawnFork (k : Kernel) (parentPid : UInt32) : Option (UInt32 × Kernel) := k.spawnChild parentPid .fork

def pidCall (k : Kernel) : PidCall → Kernel
  | .spawnClone parentPid => ((k.spawnClone parentPid).map Prod.snd).getD k
  | .spawnFork parentPid => ((k.spawnFork parentPid).map Prod.snd).getD k
  | .releaseClone pid => k.releaseClone pid

/-- The number of active records of children of a process. -/
def children (k : Kernel) (pid : UInt32) : Nat := count k.procs fun r => r.any fun r => r.parentPid = pid

/-- The child counts of all processes are right. -/
def Counted (k : Kernel) : Prop := ∀ i r, k.procs i = some r → (k.childCounts i).toNat = k.children r.pid

/-- No two processes have the same pid, and their children are counted. -/
structure InOrder (k : Kernel) : Prop where
  distinct : Distinct pid k.procs
  counted : k.Counted

/-- No record has the pid, or names it as its parent's. -/
def Unused (k : Kernel) (pid : UInt32) : Prop := ∀ i r, k.procs i = some r → r.pid ≠ pid ∧ r.parentPid ≠ pid

/-- If there is a new process, its pid was not in use, and the child counts are right. -/
def RightChild (k : Kernel) (spawned : Option (UInt32 × Kernel)) : Prop :=
  ∀ child k', spawned = some (child, k') → k.proc child = none ∧ k'.Counted

def Right (k : Kernel) : PidCall → Prop
  | .spawnClone parentPid => k.RightChild (k.spawnClone parentPid)
  | .spawnFork parentPid => k.RightChild (k.spawnFork parentPid)
  | .releaseClone pid => (k.releaseClone pid).Counted

/-- A process that can be made gets a pid that is not used. -/
def FreshChild (k : Kernel) (parentPid : UInt32) : Prop :=
  k.principal parentPid ≠ 0 → (∃ i, k.procs i = none) → k.Unused k.nextClonePid

def Fresh (k : Kernel) : PidCall → Prop
  | .spawnClone parentPid => k.FreshChild parentPid
  | .spawnFork parentPid => k.FreshChild parentPid
  | .releaseClone _ => True

/-! ## A record more or less -/

/-- A record in an empty slot is counted for its parent. -/
theorem count_put {t : Fin (seedCount + cloneRecordLimit) → Option ProcessRecord} (hi : t i = none) (r : ProcessRecord)
    (pid : UInt32) :
    count (put t i r) (fun r => r.any fun r => r.parentPid = pid) =
      count t (fun r => r.any fun r => r.parentPid = pid) + if r.parentPid = pid then 1 else 0 := by
  have hcount := count_update t (fun r => r.any fun r => r.parentPid = pid) i (some r)
  rw [hi] at hcount
  split_ifs with hr <;> simpa [hr, put] using hcount

theorem InOrder.countChild {counts : Fin (seedCount + cloneRecordLimit) → UInt32} (h : k.InOrder)
    (hr : k.procs i = some r) (f : UInt32 → UInt32) :
    Kernel.countChild counts (slot pid k.procs parentPid) f i =
      if r.pid = parentPid then f (counts i) else counts i := by
  split_ifs with hpid
  · rw [← hpid, slot_eq h.distinct hr, Kernel.countChild, update_self]
  rcases hslot : slot pid k.procs parentPid with _ | j
  · rfl
  obtain ⟨s, hs, hkey⟩ := slot_some hslot
  have hij : i ≠ j := by
    intro hij
    rw [← hij, hr] at hs
    exact hpid ((congrArg pid (some.inj hs)).trans hkey)
  exact update_of_ne hij ..

/-! ## New processes -/

theorem spawnChild_isSome (kind : ChildKind) (hprincipal : k.principal parentPid ≠ 0) (hfree : ∃ i, k.procs i = none) :
    ∃ k', k.spawnChild parentPid kind = some (k.nextClonePid, k') := by
  unfold spawnChild
  rcases hparent : k.proc parentPid with _ | parent
  · simp [principal, hparent] at hprincipal
  rw [principal, hparent] at hprincipal
  simp only [if_neg (show ¬ parent.principalId = 0 from hprincipal)]
  cases hslot : free k.procs with
  | none =>
    obtain ⟨i, hi⟩ := hfree
    have := first_none.1 hslot i
    simp [hi] at this
  | some i => exact ⟨_, rfl⟩

theorem InOrder.counted_spawnChild (h : k.InOrder) (hu : k.Unused k.nextClonePid)
    (hspawn : k.spawnChild parentPid kind = some (child, k')) : k'.Counted := by
  obtain ⟨-, -, hsome, i, hi, r, hpid, hnamed, -, rfl⟩ := spawnChild_cases hspawn
  obtain ⟨parent, hparent⟩ := isSome_iff_exists.1 hsome
  obtain ⟨j, hj, hkey⟩ := exists_of_get hparent
  intro l s hs
  rw [children, count_put hi, hnamed, ← children]
  dsimp only at hs ⊢
  rcases of_put hs with ⟨rfl, rfl⟩ | hs
  · -- The new process has no children: no record names its pid.
    have hzero : k.children s.pid = 0 := count_eq_zero.2 fun l => by
      cases hl : k.procs l with
      | none => rfl
      | some t => simpa [hpid] using (hu l t hl).2
    have hother : parentPid ≠ s.pid := by
      rw [hpid, ← hkey]
      exact (hu j parent hj).1
    have hslot : slot pid k.procs parentPid = some j := by rw [← hkey, slot_eq h.distinct hj]
    have hlj : l ≠ j := by
      intro hlj
      simp [hlj, hj] at hi
    rw [hzero, if_neg hother, hslot, Kernel.countChild, update_of_ne hlj, update_self]
    rfl
  · have hli : l ≠ i := by
      intro hli
      simp [hli, hi] at hs
    rw [h.countChild hs, update_of_ne hli]
    by_cases hparentPid : s.pid = parentPid
    · rw [if_pos hparentPid, if_pos hparentPid.symm, UInt32.toNat_add, h.counted l s hs]
      have hle : k.children s.pid ≤ seedCount + cloneRecordLimit := count_le ..
      exact Nat.mod_eq_of_lt (lt_of_le_of_lt (Nat.add_le_add_right hle 1) (by decide))
    · rw [if_neg hparentPid, if_neg (Ne.symm hparentPid), h.counted l s hs, Nat.add_zero]

theorem InOrder.rightChild_iff (h : k.InOrder) (kind : ChildKind) :
    k.RightChild (k.spawnChild parentPid kind) ↔ k.FreshChild parentPid := by
  constructor
  · intro hright hprincipal hfree
    obtain ⟨k', hk'⟩ := spawnChild_isSome kind hprincipal hfree
    obtain ⟨hnew, hcounted⟩ := hright _ k' hk'
    have hpids := get_eq_none.1 hnew
    intro j s hs
    refine ⟨hpids j s hs, ?_⟩
    -- A record that names the pid as its parent's is not counted for the new process.
    intro hnames
    obtain ⟨-, -, hsome, i, hi, r, hpid, hnamed, -, rfl⟩ := spawnChild_cases hk'
    obtain ⟨parent, hparent⟩ := isSome_iff_exists.1 hsome
    have hcount := hcounted i r (update_self ..)
    have hmany := Nat.add_pos_left (count_pos (t := k.procs) (i := j) (p := fun s => s.any fun s => s.parentPid = r.pid)
      (by simp [hs, hnames, hpid])) (if r.parentPid = r.pid then 1 else 0)
    rw [children, count_put hi] at hcount
    dsimp only at hcount
    obtain ⟨l, hl, hkey⟩ := exists_of_get hparent
    have hli : i ≠ l := by
      intro hil
      simp [← hil, hi] at hl
    rw [← hkey, slot_eq h.distinct hl, Kernel.countChild, update_of_ne hli, update_self] at hcount
    exact absurd hcount hmany.ne
  · intro hfresh child k' hspawn
    obtain ⟨hprincipal, rfl, -, i, hi, -⟩ := spawnChild_cases hspawn
    have hu := hfresh hprincipal ⟨i, hi⟩
    exact ⟨get_eq_none.2 fun j s hs => (hu j s hs).1, h.counted_spawnChild hu hspawn⟩

theorem InOrder.spawnChild (h : k.InOrder) (hright : k.RightChild (k.spawnChild parentPid kind)) :
    (((k.spawnChild parentPid kind).map Prod.snd).getD k).InOrder := by
  rcases hspawn : k.spawnChild parentPid kind with _ | ⟨child, k'⟩
  · exact h
  obtain ⟨hnew, hcounted⟩ := hright child k' hspawn
  obtain ⟨-, rfl, -, i, -, r, hpid, -, -, rfl⟩ := spawnChild_cases hspawn
  exact ⟨h.distinct.put (by rwa [hpid]), hcounted⟩

/-! ## Released ones -/

theorem releaseClone_cases (k : Kernel) (pid : UInt32) :
    k.releaseClone pid = k ∨ ∃ i r, k.procs i = some r ∧ (k.releaseClone pid).procs = update k.procs i none ∧
      (k.releaseClone pid).childCounts = update (countChild k.childCounts
        (slot ProcessRecord.pid k.procs r.parentPid) fun n => if n ≠ 0 then n - 1 else 0) i 0 := by
  unfold releaseClone
  rcases hslot : slot ProcessRecord.pid k.procs pid with _ | i
  · exact .inl rfl
  dsimp only
  split_ifs
  · exact .inl rfl
  · obtain ⟨r, hr, -⟩ := slot_some hslot
    refine .inr ⟨i, r, hr, ?_, ?_⟩
    · simp only [erase, hslot]
    · simp only [hr, map_some, getD_some]

theorem InOrder.releaseClone (h : k.InOrder) (pid : UInt32) : (k.releaseClone pid).InOrder := by
  obtain heq | ⟨i, r, hr, hprocs, hcounts⟩ := releaseClone_cases k pid
  · rwa [heq]
  have hkept : ∀ j s, (k.releaseClone pid).procs j = some s → j ≠ i ∧ k.procs j = some s := by
    intro j s hs
    rw [hprocs] at hs
    by_cases hji : j = i
    · simp [hji, update_self] at hs
    · exact ⟨hji, by rwa [update_of_ne hji] at hs⟩
  constructor
  · intro j l s t hs ht
    exact h.distinct j l s t (hkept j s hs).2 (hkept l t ht).2
  intro j s hs
  obtain ⟨hji, hs⟩ := hkept j s hs
  have hsame : put (update k.procs i none) i r = k.procs := by
    rw [put, update_idem, ← hr, update_eq_self]
  have hcount := count_put (t := update k.procs i none) (update_self ..) r s.pid
  have hbefore := h.counted j s hs
  rw [hsame] at hcount
  rw [children, hcount] at hbefore
  rw [children, hprocs, hcounts, update_of_ne hji, h.countChild hs]
  split_ifs at hbefore with hparent
  · have hone : (1 : UInt32) ≤ k.childCounts j := le_iff_toNat_le.2 (by rw [hbefore]; exact Nat.le_add_left ..)
    have hne : k.childCounts j ≠ 0 := by
      intro hzero
      rw [hzero] at hone
      exact absurd hone (by decide)
    rw [if_pos hparent.symm, if_pos hne, UInt32.toNat_sub_of_le _ _ hone, hbefore]
    rfl
  · rw [if_neg (Ne.symm hparent), hbefore, Nat.add_zero]

/-! ## Runs -/

theorem InOrder.right_iff (h : k.InOrder) (c : PidCall) : k.Right c ↔ k.Fresh c := by
  cases c with
  | spawnClone parentPid => exact h.rightChild_iff .clone
  | spawnFork parentPid => exact h.rightChild_iff .fork
  | releaseClone pid => exact iff_of_true (h.releaseClone pid).counted trivial

theorem InOrder.pidCall (h : k.InOrder) {c : PidCall} (hright : k.Right c) : (k.pidCall c).InOrder := by
  cases c with
  | spawnClone parentPid | spawnFork parentPid => exact h.spawnChild hright
  | releaseClone pid => exact h.releaseClone pid

theorem inOrder_boot : boot.InOrder where
  distinct := boot_tables.procs
  counted := by
    intro i r hr
    obtain ⟨hpid, hi, -⟩ := boot_proc hr
    have hnone : ∀ i : Fin seedCount, boot.children (ofNat (i.val + 1)) = 0 := by decide
    rw [hpid, hnone ⟨i.val, hi⟩]
    rfl

/-- In a run since boot every new process has a pid of its own and all children are counted, exactly when no process is made
while the next pid is one that a record has or names as its parent's. -/
theorem pids_of_run (calls : List PidCall) : Meets pidCall Right boot calls ↔ Meets pidCall Fresh boot calls :=
  Meets.congr (fun _ _ h => h.pidCall) (fun _ c h => h.right_iff c) inOrder_boot calls

/-! ## The counter starts again -/

theorem nextClonePid_releaseClone (k : Kernel) (pid : UInt32) : (k.releaseClone pid).nextClonePid = k.nextClonePid := by
  unfold releaseClone
  split
  · rfl
  · split_ifs <;> rfl

/-- A process is made and released: only the counter has moved. -/
theorem spawn_release (hd : Distinct pid k.procs) (hnew : k.proc k.nextClonePid = none)
    (hseeds : ∀ i, i.val < seedCount → k.procs i ≠ none) (hprincipal : k.principal parentPid ≠ 0)
    (hfree : ∃ i, k.procs i = none) :
    ((k.pidCall (.spawnFork parentPid)).pidCall (.releaseClone k.nextClonePid)).procs = k.procs ∧
      ((k.pidCall (.spawnFork parentPid)).pidCall (.releaseClone k.nextClonePid)).nextClonePid =
        clonePidAfter k.nextClonePid := by
  obtain ⟨k', hk'⟩ := spawnChild_isSome .fork hprincipal hfree
  have hstep : k.pidCall (.spawnFork parentPid) = k' := by rw [pidCall, spawnFork, hk']; rfl
  obtain ⟨-, -, -, i, hi, r, hpid, -, -, rfl⟩ := spawnChild_cases hk'
  have hslot : slot pid (put k.procs i r) k.nextClonePid = some i := by
    rw [← hpid]
    exact slot_eq (hd.put (by rwa [hpid])) (update_self ..)
  rw [hstep, pidCall, nextClonePid_releaseClone]
  refine ⟨?_, rfl⟩
  simp only [releaseClone, hslot, if_neg fun hlow => hseeds i hlow hi, erase]
  rw [put, update_idem, ← hi, update_eq_self]

/-- A process is made and released, `n` times. -/
def cycles : Nat → List PidCall
  | 0 => []
  | n + 1 => cycles n ++ [.spawnFork 1, .releaseClone (clonePidAfter^[n] 0x2001)]

/-- One process has been made since boot. -/
def oneChild : Kernel := boot.pidCall (.spawnFork 1)

theorem oneChild_distinct : Distinct pid oneChild.procs := by
  have hall : ∀ i j, ∀ r ∈ oneChild.procs i, ∀ s ∈ oneChild.procs j, r.pid = s.pid → i = j := by decide +kernel
  intro i j r s hr hs
  exact hall i j r hr s hs

theorem oneChild_seeds : ∀ i, i.val < seedCount → oneChild.procs i ≠ none := by
  have hall : ∀ i : Fin (seedCount + cloneRecordLimit), i.val < seedCount → (oneChild.procs i).isSome := by decide +kernel
  intro i hi hnone
  have := hall i hi
  simp [hnone] at this

theorem clonePidAfter_iterate {n : Nat} (hn : n ≤ 0xFFFFDFFD) : (clonePidAfter^[n] 0x2001).toNat = 0x2001 + n := by
  induction n with
  | zero => rfl
  | succ n ih =>
    have hstep := ih (by omega)
    rw [Function.iterate_succ_apply']
    generalize clonePidAfter^[n] 0x2001 = pid at hstep
    have hadd : (pid + 1).toNat = 0x2001 + n + 1 := by
      rw [UInt32.toNat_add, hstep]
      exact Nat.mod_eq_of_lt (show 0x2001 + n + 1 < 0x100000000 by omega)
    unfold clonePidAfter
    rw [if_neg, hadd]
    · rfl
    rintro (hinvalid | hlow)
    · rw [hinvalid] at hadd
      have : (0xFFFFFFFF : Nat) = 0x2001 + n + 1 := hadd
      omega
    · have : (pid + 1).toNat < 0x2000 := lt_iff_toNat_lt.1 hlow
      omega

/-- While the counter runs up to the last pid, the first process stays as it is. -/
theorem cycles_state {n : Nat} (hn : n ≤ 0xFFFFDFFE) :
    ((cycles n).foldl pidCall oneChild).procs = oneChild.procs ∧
      ((cycles n).foldl pidCall oneChild).nextClonePid = clonePidAfter^[n] 0x2001 := by
  induction n with
  | zero => exact ⟨rfl, by decide +kernel⟩
  | succ n ih =>
    obtain ⟨hprocs, hnext⟩ := ih (by omega)
    rw [cycles, List.foldl_append]
    generalize (cycles n).foldl pidCall oneChild = k at hprocs hnext
    have hlow : ∀ i, (oneChild.procs i).all fun r => r.pid ≤ 0x2000 := by decide +kernel
    have hnew : k.proc k.nextClonePid = none := by
      refine get_eq_none.2 fun i r hr hpid => ?_
      rw [hprocs] at hr
      have hle := hlow i
      rw [hr, all_some, decide_eq_true_iff, hpid, hnext, le_iff_toNat_le,
        clonePidAfter_iterate (by omega)] at hle
      have : 0x2001 + n ≤ 0x2000 := hle
      omega
    have hprincipal : k.principal 1 ≠ 0 := by
      rw [principal, proc, hprocs]
      decide +kernel
    have hstep := spawn_release (hprocs ▸ oneChild_distinct) hnew (hprocs ▸ oneChild_seeds) hprincipal
      (hprocs ▸ ⟨⟨8, by decide⟩, by decide +kernel⟩)
    rw [hnext] at hstep
    rwa [Function.iterate_succ_apply', ← hprocs]

/-- The first process since boot lives on while others are made and released, up to the last pid. -/
def lastPidRun : List PidCall := .spawnFork 1 :: cycles (0xFFFFDFFD + 1)

/-- Behind the last pid the counter is at the pid of the first process again, and the next process gets it. -/
theorem pid_of_live_process :
    ((lastPidRun.foldl pidCall boot).proc 0x2000).isSome = true ∧
      ∃ k', (lastPidRun.foldl pidCall boot).spawnFork 1 = some (0x2000, k') := by
  obtain ⟨hprocs, hnext⟩ := cycles_state (n := 0xFFFFDFFD + 1) le_rfl
  rw [lastPidRun, List.foldl_cons]
  rw [oneChild] at hprocs hnext
  have hwrap : clonePidAfter^[0xFFFFDFFD + 1] 0x2001 = 0x2000 := by
    have hlast : clonePidAfter^[0xFFFFDFFD] 0x2001 = 0xFFFFFFFE := UInt32.toNat_inj.1 (clonePidAfter_iterate le_rfl)
    rw [Function.iterate_succ_apply', hlast]
    decide
  rw [hwrap] at hnext
  refine ⟨by rw [proc, hprocs]; decide +kernel, ?_⟩
  rw [← hnext]
  apply spawnChild_isSome
  · rw [principal, proc, hprocs]
    decide +kernel
  · rw [hprocs]
    exact ⟨⟨8, by decide⟩, by decide +kernel⟩

end Kernel

end LimitlessOS.Process
