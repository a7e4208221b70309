/-
  LimitlessOS.Fd.Steps — what a call does to a descriptor table.

  Proved:
  - `Counted.set`, `Counted.discard`, `Counted.discardShared`, `Counted.copyInto`: no
    descriptor counts more aliases than it has.
  - `OpenOn.*`: which handles are open after an entry has been written or cleared.
  - `close_closes`, `alloc_allocates`, `dupInto_duplicates`: the ways a call can end.
-/
import LimitlessOS.Fd.Table

namespace LimitlessOS.Fd

open Lib Capability Entry Slots UInt32

namespace Entry

theorem on_iff {e : Entry} {handle : UInt32} {fdType : FdType} :
    e.on handle fdType ↔ e.active ∧ e.capabilityHandle = handle ∧ e.fdType = fdType := by
  simp [on, and_assoc]

theorem on_self {e : Entry} (h : e.active) : e.on e.capabilityHandle e.fdType := on_iff.2 ⟨h, rfl, rfl⟩

theorem active_clear : clear.active = false := rfl

theorem handle_ne {e : Entry} (h : e.active) : e.capabilityHandle ≠ invalidResult := by
  simp only [active, Bool.and_eq_true, decide_eq_true_eq] at h
  exact h.1.2

end Entry

namespace Table

variable {t : Table} {handle : UInt32} {fdType : FdType} {fd : Fin tableLimit} {e : Entry}

theorem sharedEntryCount_eq (t : Table) (handle : UInt32) (fdType : FdType) :
    t.sharedEntryCount handle fdType = count t.entries (on handle fdType) := by
  unfold sharedEntryCount
  split_ifs with h
  · refine (count_eq_zero.2 fun fd => ?_).symm
    by_contra hon
    obtain ⟨hactive, heq, -⟩ := on_iff.1 (Bool.not_eq_false _ ▸ hon)
    exact handle_ne hactive (heq.trans h)
  · rfl

theorem sharedEntryCount_mono {u : Table} (h : ∀ fd, (t.entries fd).on handle fdType → (u.entries fd).on handle fdType) :
    t.sharedEntryCount handle fdType ≤ u.sharedEntryCount handle fdType := by
  rw [sharedEntryCount_eq, sharedEntryCount_eq]
  exact count_mono h

theorem set_entries (t : Table) (fd : Fin tableLimit) (e : Entry) (i : Fin tableLimit) :
    (t.set fd e).entries i = if i = fd then e else t.entries i := by
  simp [set, Function.update_apply]

theorem discard_entries (t : Table) (fd i : Fin tableLimit) :
    (t.discard fd).entries i = if i = fd then .clear else t.entries i := t.set_entries fd .clear i

/-! ## Counting again -/

variable (t handle fdType)

theorem sync_entries (fd : Fin tableLimit) :
    (t.syncSharedRefCounts handle fdType).entries fd =
      if (t.entries fd).on handle fdType then
        { t.entries fd with refCount := ofNat (t.sharedEntryCount handle fdType) }
      else t.entries fd := by
  unfold syncSharedRefCounts
  split
  · rename_i h0
    rw [sharedEntryCount_eq, count_eq_zero] at h0
    simp [h0 fd]
  · rfl

theorem sync_process :
    (t.syncSharedRefCounts handle fdType).pid = t.pid ∧ (t.syncSharedRefCounts handle fdType).ownerId = t.ownerId := by
  unfold syncSharedRefCounts
  split <;> exact ⟨rfl, rfl⟩

theorem toNat_shared :
    (ofNat (t.sharedEntryCount handle fdType)).toNat = t.sharedEntryCount handle fdType := by
  have hle := count_le t.entries (on handle fdType)
  rw [← sharedEntryCount_eq] at hle
  exact toNat_ofNat_of_lt' (lt_of_le_of_lt hle (by decide))

/-- Counting again changes no entry but in its count. -/
theorem sync_same (fd : Fin tableLimit) :
    ((t.syncSharedRefCounts handle fdType).entries fd).active = (t.entries fd).active ∧
      ((t.syncSharedRefCounts handle fdType).entries fd).capabilityHandle = (t.entries fd).capabilityHandle ∧
      ((t.syncSharedRefCounts handle fdType).entries fd).fdType = (t.entries fd).fdType := by
  rw [sync_entries]
  split_ifs with hon
  · have hactive := (on_iff.1 hon).1
    have hpos := count_pos (t := t.entries) (p := on handle fdType) hon
    rw [← sharedEntryCount_eq, ← toNat_shared] at hpos
    have hne : ofNat (t.sharedEntryCount handle fdType) ≠ 0 := fun h0 => by simp [h0] at hpos
    refine ⟨?_, rfl, rfl⟩
    rw [hactive]
    simp only [active, Bool.and_eq_true, decide_eq_true_eq] at hactive ⊢
    exact ⟨hactive.1, hne⟩
  · exact ⟨rfl, rfl, rfl⟩

theorem on_sync (fd : Fin tableLimit) (h : UInt32) (ty : FdType) :
    ((t.syncSharedRefCounts handle fdType).entries fd).on h ty = (t.entries fd).on h ty := by
  obtain ⟨ha, hh, ht⟩ := t.sync_same handle fdType fd
  simp only [on, ha, hh, ht]

theorem sharedEntryCount_sync (h : UInt32) (ty : FdType) :
    (t.syncSharedRefCounts handle fdType).sharedEntryCount h ty = t.sharedEntryCount h ty :=
  le_antisymm (sharedEntryCount_mono fun fd hon => by rwa [on_sync] at hon)
    (sharedEntryCount_mono fun fd hon => by rwa [on_sync])

variable {t handle fdType}

/-- No descriptor counts more aliases than it has. -/
def Counted (t : Table) : Prop :=
  ∀ fd, (t.entries fd).active = true →
    (t.entries fd).refCount.toNat ≤ t.sharedEntryCount (t.entries fd).capabilityHandle (t.entries fd).fdType

theorem counted_sync (h : ∀ fd, (t.entries fd).active → (t.entries fd).on handle fdType = false →
    (t.entries fd).refCount.toNat ≤ t.sharedEntryCount (t.entries fd).capabilityHandle (t.entries fd).fdType) :
    (t.syncSharedRefCounts handle fdType).Counted := by
  intro fd hactive
  obtain ⟨ha, hh, ht⟩ := t.sync_same handle fdType fd
  rw [ha] at hactive
  rw [sharedEntryCount_sync, hh, ht, sync_entries]
  split_ifs with hon
  · obtain ⟨-, heq, hty⟩ := on_iff.1 hon
    rw [heq, hty]
    exact (toNat_shared t handle fdType).le
  · exact h fd hactive (by simpa using hon)

/-! ## Writing and clearing an entry -/

/-- An entry that was not in use is written. -/
theorem on_set (hfree : (t.entries fd).active = false) {i : Fin tableLimit} {h : UInt32} {ty : FdType}
    (hon : (t.entries i).on h ty) : ((t.set fd e).entries i).on h ty := by
  have hne : i ≠ fd := by
    rintro rfl
    simp [(on_iff.1 hon).1] at hfree
  rwa [set_entries, if_neg hne]

section

variable (hc : t.Counted)
include hc

theorem Counted.set (hfree : (t.entries fd).active = false) (he : e.active → e.refCount = 1) :
    (t.set fd e).Counted := by
  intro i hi
  by_cases hifd : i = fd
  · have hself : ((t.set fd e).entries i).on ((t.set fd e).entries i).capabilityHandle ((t.set fd e).entries i).fdType :=
      on_self hi
    have hpos := count_pos hself
    rw [← sharedEntryCount_eq] at hpos
    have hentry : (t.set fd e).entries i = e := by rw [set_entries, if_pos hifd]
    rw [hentry] at hi hpos ⊢
    rwa [he hi]
  · have hentry : (t.set fd e).entries i = t.entries i := by rw [set_entries, if_neg hifd]
    rw [hentry] at hi ⊢
    exact (hc i hi).trans (sharedEntryCount_mono fun j hj => on_set hfree hj)

/-- The entries that are not open on what the cleared one was open on keep their count. -/
theorem Counted.discard_other {i : Fin tableLimit} (hi : ((t.discard fd).entries i).active)
    (hon : ((t.discard fd).entries i).on (t.entries fd).capabilityHandle (t.entries fd).fdType = false) :
    ((t.discard fd).entries i).refCount.toNat ≤
      (t.discard fd).sharedEntryCount ((t.discard fd).entries i).capabilityHandle ((t.discard fd).entries i).fdType := by
  have hifd : i ≠ fd := by
    rintro rfl
    rw [discard_entries, if_pos rfl, active_clear] at hi
    cases hi
  have hentry : (t.discard fd).entries i = t.entries i := by rw [discard_entries, if_neg hifd]
  rw [hentry] at hi hon ⊢
  refine (hc i hi).trans (sharedEntryCount_mono fun j hj => ?_)
  have hjfd : j ≠ fd := by
    rintro rfl
    obtain ⟨-, hh, hty⟩ := on_iff.1 hj
    simp [on, hi, hh, hty] at hon
  rwa [discard_entries, if_neg hjfd]

theorem Counted.discardShared :
    ((t.discard fd).syncSharedRefCounts (t.entries fd).capabilityHandle (t.entries fd).fdType).Counted :=
  counted_sync fun _ hi hon => hc.discard_other hi hon

/-- The last alias is cleared. -/
theorem Counted.discard (hfd : (t.entries fd).active)
    (hlast : t.sharedEntryCount (t.entries fd).capabilityHandle (t.entries fd).fdType ≤ 1) : (t.discard fd).Counted := by
  intro i hi
  refine hc.discard_other hi ?_
  by_contra hon
  rw [Bool.not_eq_false, discard_entries] at hon
  split_ifs at hon with hifd
  · simp [on, active_clear] at hon
  · rw [sharedEntryCount_eq] at hlast
    exact hifd (eq_of_count_le_one hlast hon (on_self hfd))

theorem Counted.copyInto (hfree : (t.entries fd).active = false) (source : Entry) :
    (t.copyInto source fd).Counted :=
  counted_sync fun i hi _ => (hc.set hfree fun _ => rfl) i hi

end

/-! ## Open handles -/

/-- A descriptor of the table is open on the node handle. -/
def OpenOn (t : Table) (handle : UInt32) : Prop := ∃ fd, (t.entries fd).on handle .ramfsNode = true

section

variable (h : t.OpenOn handle)
include h

theorem OpenOn.set (hfree : (t.entries fd).active = false) : (t.set fd e).OpenOn handle := by
  obtain ⟨i, hi⟩ := h
  exact ⟨i, on_set hfree hi⟩

theorem OpenOn.sync (other : UInt32) (ty : FdType) : (t.syncSharedRefCounts other ty).OpenOn handle := by
  obtain ⟨i, hi⟩ := h
  exact ⟨i, by rwa [on_sync]⟩

theorem OpenOn.copyInto (hfree : (t.entries fd).active = false) (source : Entry) :
    (t.copyInto source fd).OpenOn handle := by
  have hset : (t.set fd { source with refCount := 1 }).OpenOn handle := h.set hfree
  have hcopied : ({ t.set fd { source with refCount := 1 } with liveCount := t.liveCount + 1 } : Table).OpenOn handle := hset
  exact hcopied.sync _ _

/-- Clearing an entry closes nothing else than what the entry was open on. -/
theorem OpenOn.discard (hne : (t.entries fd).on handle .ramfsNode = false) :
    (t.discard fd).OpenOn handle := by
  obtain ⟨i, hi⟩ := h
  refine ⟨i, ?_⟩
  rw [discard_entries, if_neg]
  · exact hi
  · rintro rfl
    simp [hi] at hne

/-- An alias takes over. -/
theorem OpenOn.discardShared
    (hshared : 1 < t.sharedEntryCount (t.entries fd).capabilityHandle (t.entries fd).fdType) :
    ((t.discard fd).syncSharedRefCounts (t.entries fd).capabilityHandle (t.entries fd).fdType).OpenOn handle := by
  refine OpenOn.sync ?_ _ _
  cases hon : (t.entries fd).on handle .ramfsNode
  · exact h.discard hon
  obtain ⟨-, hh, hty⟩ := on_iff.1 hon
  rw [sharedEntryCount_eq, hh, hty] at hshared
  obtain ⟨i, hne, hi⟩ := exists_ne_of_one_lt_count hshared fd
  exact ⟨i, by rwa [discard_entries, if_neg hne]⟩

end

end Table

/-! ## How calls end -/

namespace Files

variable {f : Files} {pid : UInt32}

theorem tableForProcess_some {k : Fin processTables} {t : Table} :
    f.tableForProcess pid = some (k, t) ↔ f.attached pid = some k ∧ f.tables k = some t := by
  unfold tableForProcess
  rcases f.attached pid with _ | j
  · simp
  simp only [Option.bind_some, Option.map_eq_some_iff, Prod.mk.injEq, Option.some.injEq]
  constructor
  · rintro ⟨a, ha, rfl, rfl⟩
    exact ⟨rfl, ha⟩
  · rintro ⟨rfl, ht⟩
    exact ⟨t, ht, rfl, rfl⟩

theorem setTable_tables (f : Files) (k : Fin processTables) (t : Table) (j : Fin processTables) :
    (f.setTable k t).tables j = if j = k then some t else f.tables j := by
  simp [setTable, Function.update_apply]

/-- How a close ends. -/
inductive Closes (f : Files) (pid fd : UInt32) : UInt32 × Files → Prop
  | refused (hclosed : ∀ k t (i : Fin tableLimit), f.tableForProcess pid = some (k, t) → i.val = fd.toNat →
      (t.entries i).active = false) : Closes f pid fd (0, f)
  | shared (k : Fin processTables) (t : Table) (i : Fin tableLimit) (ht : f.tableForProcess pid = some (k, t))
      (hi : i.val = fd.toNat) (hactive : (t.entries i).active = true)
      (hshared : 1 < t.sharedEntryCount (t.entries i).capabilityHandle (t.entries i).fdType) :
      Closes f pid fd
        (1, f.setTable k ((t.discard i).syncSharedRefCounts (t.entries i).capabilityHandle (t.entries i).fdType))
  | counted (k : Fin processTables) (t : Table) (i : Fin tableLimit) (ht : f.tableForProcess pid = some (k, t))
      (hi : i.val = fd.toNat) (hactive : (t.entries i).active = true)
      (hshared : t.sharedEntryCount (t.entries i).capabilityHandle (t.entries i).fdType ≤ 1)
      (hcount : 1 < (t.entries i).refCount) :
      Closes f pid fd (1, f.setTable k (t.set i { t.entries i with refCount := (t.entries i).refCount - 1 }))
  | last (k : Fin processTables) (t : Table) (i : Fin tableLimit) (ht : f.tableForProcess pid = some (k, t))
      (hi : i.val = fd.toNat) (hactive : (t.entries i).active = true)
      (hshared : t.sharedEntryCount (t.entries i).capabilityHandle (t.entries i).fdType ≤ 1)
      (hcount : ¬ 1 < (t.entries i).refCount) :
      Closes f pid fd (1, { f.setTable k (t.discard i) with server := revokeEntryCapability f.server t (t.entries i) })

theorem close_closes (f : Files) (pid fd : UInt32) : Closes f pid fd (f.close pid fd) := by
  unfold close
  rcases ht : f.tableForProcess pid with _ | ⟨k, t⟩
  · exact .refused fun k t i h => by simp [ht] at h
  dsimp only
  split_ifs with hfd hactive hshared hcount
  · refine .refused fun k' t' i ht' hi => ?_
    obtain ⟨rfl, rfl⟩ : k = k' ∧ t = t' := by simpa using ht.symm.trans ht'
    obtain rfl : i = ⟨fd.toNat, hfd⟩ := Fin.ext hi
    simpa using hactive
  · exact .shared k t ⟨fd.toNat, hfd⟩ ht rfl (by simpa using hactive) hshared
  · exact .counted k t ⟨fd.toNat, hfd⟩ ht rfl (by simpa using hactive) (Nat.not_lt.1 hshared) hcount
  · exact .last k t ⟨fd.toNat, hfd⟩ ht rfl (by simpa using hactive) (Nat.not_lt.1 hshared) hcount
  · exact .refused fun k' t' i _ hi => absurd (hi ▸ i.isLt) hfd

/-- How an allocation ends. -/
inductive Allocates (f : Files) (pid handle : UInt32) (fdType : FdType) (flags : UInt32) : UInt32 × Files → Prop
  | refused : Allocates f pid handle fdType flags (invalidFd, f)
  | installed (k : Fin processTables) (t : Table) (fd : Fin tableLimit) (ht : f.tableForProcess pid = some (k, t))
      (hfree : (t.entries fd).active = false) (hhandle : handle ≠ invalidResult) (htype : fdType ≠ .empty) :
      Allocates f pid handle fdType flags (UInt32.ofNat fd, f.setTable k
        { t.set fd { capabilityHandle := handle, fdType, flags, fileOffset := 0, refCount := 1 } with
          liveCount := t.liveCount + 1 })

theorem alloc_allocates (f : Files) (pid handle : UInt32) (fdType : FdType) (flags : UInt32) (budget : Bool) :
    Allocates f pid handle fdType flags (f.alloc pid handle fdType flags budget) := by
  unfold alloc Table.installEntry
  split
  · exact .refused
  rename_i k t ht
  split
  · exact .refused
  rename_i fd hfd
  have hfree : (t.entries fd).active = false := by simpa using first_some hfd
  split_ifs with hbad
  · exact .refused
  · simp only [not_or] at hbad
    exact .installed k t fd ht hfree hbad.1 hbad.2.1

theorem ofNat_ne_invalidFd (fd : Fin tableLimit) : ofNat fd ≠ invalidFd := by
  intro h
  have := congrArg toNat h
  rw [toNat_ofNat_of_lt' (fd.isLt.trans (by decide))] at this
  exact absurd (this ▸ fd.isLt) (by decide)

/-- What a duplication leaves: the target is closed if it was open, and then a copy is written there. -/
inductive Duplicates (f : Files) (k : Fin processTables) (t : Table) (newFd : UInt32) : Files → Prop
  | same : Duplicates f k t newFd f
  | closed (fd : Fin tableLimit) (hfd : fd.val = newFd.toNat) (hused : (t.entries fd).active = true) :
      Duplicates f k t newFd (f.close t.pid newFd).2
  | copied (source : Entry) (fd : Fin tableLimit) (hfd : fd.val = newFd.toNat) (hfree : (t.entries fd).active = false)
      (t' : Table) (ht : f.tables k = some t') : Duplicates f k t newFd (f.setTable k (t'.copyInto source fd))
  | replaced (source : Entry) (fd : Fin tableLimit) (hfd : fd.val = newFd.toNat) (hused : (t.entries fd).active = true)
      (t' : Table) (ht : (f.close t.pid newFd).2.tables k = some t') :
      Duplicates f k t newFd ((f.close t.pid newFd).2.setTable k (t'.copyInto source fd))

theorem dupInto_duplicates (f : Files) (k : Fin processTables) (t : Table) (oldFd newFd : UInt32) (budget : Bool) :
    Duplicates f k t newFd (f.dupInto k t oldFd newFd budget).2 := by
  unfold dupInto
  split
  · rename_i h
    dsimp only
    split
    · exact .same
    split
    · exact .same
    cases hused : (t.entries ⟨newFd.toNat, h.2⟩).active with
    | false =>
      simp only [Bool.false_eq_true, if_false]
      split
      · exact .same
      · rename_i t' ht
        split
        · exact .same
        · exact .copied _ ⟨newFd.toNat, h.2⟩ rfl hused t' ht
    | true =>
      simp only [if_true]
      split
      · exact .closed ⟨newFd.toNat, h.2⟩ rfl hused
      · rename_i t' ht
        split
        · exact .closed ⟨newFd.toNat, h.2⟩ rfl hused
        · exact .replaced _ ⟨newFd.toNat, h.2⟩ rfl hused t' ht
  · exact .same

end Files

end LimitlessOS.Fd
