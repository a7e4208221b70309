/-
  LimitlessOS.Process.Invariant — what holds between the records and the tasks.

  The pid counter comes round after 2^32 processes and pids are not compared with the ones
  in use, and pipes, futexes and timers wake tasks by their slots; `Orderly` steps take a
  pid that no record names and wake no task that waits for a child. Under them:
  a task that lives belongs to a process that has a persona and has not exited, and no two
  to the same; the parent that is entered in the clone record of a running child is blocked,
  is not the current task, and is entered once.

  Proved here is what each kind of change keeps of the invariant; `Process.Effects` puts
  that together for steps and runs.
-/
import LimitlessOS.Process.Steps
import LimitlessOS.Signal.Changes

namespace LimitlessOS.Process

open Function Lib Signal Sched Kernel Runqueue Option Task

/-! ## The records -/

namespace Kernel

variable {k k' : Kernel}

/-- A record is kept for a process that has a persona, or has exited. -/
structure Settled (k : Kernel) : Prop where
  tables : k.Tables
  made : ∀ p, clonePidBase ≤ p → (k.shape p).isSome = true → (k.context p).isSome = true ∨ (k.exitOf p).isSome = true
  child : ∀ c r, k.cloneOf c = some r → clonePidBase ≤ c ∧ (k.shape c).isSome = true
  exited : ∀ p e, k.exitOf p = some e → clonePidBase ≤ p ∧ k.context p = none
  fixed : ∀ p c, k.context p = some c → c.Fixed

/-- The records are the same, but for resources and the contents of the contexts. -/
structure Alike (k k' : Kernel) : Prop where
  tables : k'.Tables
  cloneOf : ∀ x, k'.cloneOf x = k.cloneOf x
  exitOf : ∀ x, k'.exitOf x = k.exitOf x
  lastExitPid : k'.lastExitPid = k.lastExitPid
  shape : ∀ x, (k'.shape x).isSome = (k.shape x).isSome
  context : ∀ x, (k'.context x).isSome = (k.context x).isSome
  fixed : ∀ x, (∀ c, k.context x = some c → c.Fixed) → ∀ c, k'.context x = some c → c.Fixed

theorem Unchanged.context (h : Unchanged k k') (x : UInt32) : k'.context x = k.context x := by
  rw [context_eq, context_eq, h.shape]

theorem Unchanged.alike (h : Unchanged k k') : Alike k k' where
  tables := h.tables
  cloneOf x := by rw [cloneOf, h.cloneRecords, cloneOf]
  exitOf x := by rw [exitOf, h.exitRecords, exitOf]
  lastExitPid := h.lastExitPid
  shape x := by rw [h.shape]
  context x := by rw [h.context]
  fixed x hx c hc := hx c (by rwa [h.context] at hc)

theorem context_setContexts (ht : k.Tables) (f : UInt32 → Option Context) (x : UInt32) :
    (k.setContexts f).context x = if (k.shape x).isSome then f x else none := by
  rw [context_eq, shape_setContexts ht]
  cases k.shape x <;> rfl

variable {code pid x child : UInt32} {kind : ChildKind} {c : Context}

theorem isSome_shape_of_context (h : (k.context x).isSome) : (k.shape x).isSome := by
  rw [context_eq] at h
  cases hs : k.shape x with
  | none => simp [hs] at h
  | some s => rfl

theorem alike_setContexts (ht : k.Tables) {p : Personas} (h : k.personas.Change p) : Alike k (k.setContexts p.context) := by
  have hcontext : ∀ x, (k.setContexts p.context).context x = p.context x := by
    intro x
    rw [context_setContexts ht]
    split_ifs with hshape
    · rfl
    have hnone : (k.context x).isSome = false := by
      rw [← Bool.not_eq_true]
      exact fun hsome => hshape (isSome_shape_of_context hsome)
    have hp := h.isSome x
    rw [show k.personas.context x = k.context x from rfl, hnone] at hp
    cases hc : p.context x with
    | none => rfl
    | some c => simp [hc] at hp
  refine ⟨ht.setContexts _, fun _ => rfl, fun _ => rfl, rfl, ?_, ?_, ?_⟩
  · intro x
    rw [shape_setContexts ht, isSome_map]
  · intro x
    rw [hcontext, h.isSome]
    rfl
  · intro x hfixed c hc
    rw [hcontext] at hc
    exact h.fixed hfixed hc

theorem Alike.refl (ht : k.Tables) : Alike k k := (Unchanged.refl ht).alike

theorem Alike.trans {k'' : Kernel} (h : Alike k k') (h' : Alike k' k'') : Alike k k'' where
  tables := h'.tables
  cloneOf x := (h'.cloneOf x).trans (h.cloneOf x)
  exitOf x := (h'.exitOf x).trans (h.exitOf x)
  lastExitPid := h'.lastExitPid.trans h.lastExitPid
  shape x := (h'.shape x).trans (h.shape x)
  context x := (h'.context x).trans (h.context x)
  fixed x hx := h'.fixed x (h.fixed x hx)

/-- What a settled kernel says about one pid. -/
structure SettledAt (k : Kernel) (p : UInt32) : Prop where
  made : clonePidBase ≤ p → (k.shape p).isSome → (k.context p).isSome ∨ (k.exitOf p).isSome
  child : ∀ r, k.cloneOf p = some r → clonePidBase ≤ p ∧ (k.shape p).isSome
  exited : ∀ e, k.exitOf p = some e → clonePidBase ≤ p ∧ k.context p = none
  fixed : ∀ c, k.context p = some c → c.Fixed

theorem settled_iff : k.Settled ↔ k.Tables ∧ ∀ p, k.SettledAt p :=
  ⟨fun h => ⟨h.tables, fun p => ⟨h.made p, h.child p, h.exited p, h.fixed p⟩⟩, fun h =>
    ⟨h.1, fun p => (h.2 p).made, fun p => (h.2 p).child, fun p => (h.2 p).exited, fun p => (h.2 p).fixed⟩⟩

theorem Settled.at (h : k.Settled) (p : UInt32) : k.SettledAt p := (settled_iff.1 h).2 p

theorem SettledAt.alike (h : k.SettledAt x) (hshape : (k'.shape x).isSome = (k.shape x).isSome)
    (hcontext : (k'.context x).isSome = (k.context x).isSome) (hclone : k'.cloneOf x = k.cloneOf x)
    (hexit : k'.exitOf x = k.exitOf x)
    (hfixed : (∀ c, k.context x = some c → c.Fixed) → ∀ c, k'.context x = some c → c.Fixed) : k'.SettledAt x where
  made := by rw [hshape, hcontext, hexit]; exact h.made
  child := by rw [hclone, hshape]; exact h.child
  exited e he := by
    obtain ⟨hbase, hnone⟩ := h.exited e (by rwa [hexit] at he)
    rw [hnone] at hcontext
    exact ⟨hbase, by simpa using hcontext⟩
  fixed := hfixed h.fixed

theorem SettledAt.congr (h : k.SettledAt x) (hshape : k'.shape x = k.shape x) (hclone : k'.cloneOf x = k.cloneOf x)
    (hexit : k'.exitOf x = k.exitOf x) : k'.SettledAt x := by
  have hcontext : k'.context x = k.context x := by rw [context_eq, hshape, context_eq]
  apply h.alike (congrArg _ hshape) (congrArg _ hcontext) hclone hexit
  rw [hcontext]
  exact fun hfixed => hfixed

theorem Settled.alike (h : k.Settled) (ha : Alike k k') : k'.Settled :=
  settled_iff.2 ⟨ha.tables, fun x =>
    (h.at x).alike (ha.shape x) (ha.context x) (ha.cloneOf x) (ha.exitOf x) (ha.fixed x)⟩

/-! ### What the calls keep -/

theorem Spawned.context (h : k.Spawned pid kind c k') (x : UInt32) :
    k'.context x = if x = k.nextClonePid then some c else k.context x := by
  rw [context_eq, h.shape]
  split_ifs
  · rfl
  · rw [context_eq]

/-- A process with a persona is new. -/
theorem Settled.adds (h : k.Settled) (hu : k.Unnamed k.nextClonePid) (hc : c.Fixed) (ht : k'.Tables)
    (hexits : k'.exitRecords = k.exitRecords) (hclones : ∀ x, x ≠ k.nextClonePid → k'.cloneOf x = k.cloneOf x)
    {principal : UInt32} (hshape : ∀ x, k'.shape x = if x = k.nextClonePid then some ⟨principal, kind, some c⟩ else k.shape x) :
    k'.Settled := by
  refine settled_iff.2 ⟨ht, fun x => ?_⟩
  have hexit : k'.exitOf x = k.exitOf x := by rw [exitOf, hexits, exitOf]
  by_cases hx : x = k.nextClonePid
  · subst hx
    have hself := hshape k.nextClonePid
    rw [if_pos rfl] at hself
    have hcontext : k'.context k.nextClonePid = some c := by
      rw [context_eq, hself]
      rfl
    rw [hu.exit] at hexit
    refine ⟨fun _ _ => .inl (by rw [hcontext]; rfl), fun _ _ => ⟨h.tables.next, by rw [hself]; rfl⟩, by simp [hexit], ?_⟩
    intro d hd
    obtain rfl := some.inj (hcontext.symm.trans hd)
    exact hc
  · exact (h.at x).congr (by rw [hshape, if_neg hx]) (hclones x hx) hexit

theorem Clears.context (h : k.Clears child k') (x : UInt32) :
    k'.context x = if x = child then none else k.context x := by
  rw [context_eq, h.shape]
  split_ifs
  · rfl
  · rw [context_eq]

theorem Settled.clears (h : k.Settled) (hc : k.Clears child k') : k'.Settled := by
  refine settled_iff.2 ⟨hc.tables, fun x => ?_⟩
  have hshape := hc.shape x
  have hclone := hc.cloneOf x
  have hexit := hc.exitOf x
  split_ifs at hshape hclone hexit with hx
  · have hcontext : k'.context x = none := by rw [hc.context, if_pos hx]
    constructor <;> simp [hshape, hclone, hexit, hcontext]
  · exact (h.at x).congr hshape hclone hexit

section

variable (h : k.Exits pid code k')
include h

theorem Exits.context_self : k'.context pid = none := by
  rw [context_eq, h.self]
  cases k.shape pid <;> rfl

/-- The parent of a forked child may have one more signal pending. -/
theorem Exits.context_other (hx : x ≠ pid) :
    k'.context x = k.context x ∨ ∃ c, k.context x = some c ∧
      k'.context x = some (c.setPending (c.pending ||| signalMaskFor sigchld)) := by
  rw [context_eq, context_eq]
  rcases h.others x hx with heq | ⟨s, record, c, hs, -, -, -, hsc, hnew⟩
  · rw [heq]
    exact .inl rfl
  · rw [hs, hnew]
    exact .inr ⟨c, hsc, rfl⟩

theorem Exits.isSome_context (hx : x ≠ pid) : (k'.context x).isSome = (k.context x).isSome := by
  rcases h.context_other hx with heq | ⟨c, hc, hnew⟩
  · rw [heq]
  · rw [hc, hnew]
    rfl

theorem Exits.isSome_shape (x : UInt32) : (k'.shape x).isSome = (k.shape x).isSome := by
  by_cases hx : x = pid
  · rw [hx, h.self, isSome_map]
  · rcases h.others x hx with heq | ⟨s, record, c, hs, -, -, -, -, hnew⟩
    · rw [heq]
    · rw [hs, hnew]
      rfl

end

theorem Settled.exits (h : k.Settled) (hbase : clonePidBase ≤ pid) (he : k.Exits pid code k') : k'.Settled := by
  refine settled_iff.2 ⟨he.tables, fun x => ?_⟩
  have hclone : k'.cloneOf x = k.cloneOf x := by rw [cloneOf, he.cloneRecords, cloneOf]
  have hexit := he.exitOf x
  split_ifs at hexit with hx
  · subst hx
    refine ⟨fun _ _ => .inr (by rw [hexit]; rfl), ?_, fun _ _ => ⟨hbase, he.context_self⟩, by simp [he.context_self]⟩
    rw [hclone, he.isSome_shape]
    exact h.child x
  · refine (h.at x).alike (he.isSome_shape x) (he.isSome_context hx) hclone hexit fun hfixed => ?_
    rcases he.context_other hx with heq | ⟨c, hc, hnew⟩
    · rwa [heq]
    · rw [hnew]
      intro d hd
      obtain rfl := some.inj hd
      exact hfixed c hc

/-- The launched process has no clone record, and its process record goes. -/
theorem Settled.endSession (h : k.Settled) (hbase : clonePidBase ≤ pid) (hclone : k.cloneOf pid = none) :
    (k.endSession pid).Settled := by
  obtain ⟨k2, hw, hd⟩ := drops_endSession h.tables hbase
  refine settled_iff.2 ⟨hd.tables, fun x => ?_⟩
  have hcloneOf : (k.endSession pid).cloneOf x = k.cloneOf x := by rw [cloneOf, hd.cloneRecords, hw.cloneRecords, cloneOf]
  have hexitOf : (k.endSession pid).exitOf x = k.exitOf x := by rw [exitOf, hd.exitRecords, hw.exitRecords, exitOf]
  have hshape := hd.shape x
  split_ifs at hshape with hx
  · have hcontext : (k.endSession pid).context x = none := by
      rw [context_eq, hshape]
      rfl
    subst hx
    exact ⟨by simp [hshape], by simp [hcloneOf, hclone], fun _ _ => ⟨hbase, hcontext⟩, by simp [hcontext]⟩
  · exact (h.at x).congr (hshape.trans (hw.others x hx)) hcloneOf hexitOf

/-! ### The start -/

theorem boot_proc {i : Fin (seedCount + cloneRecordLimit)} {r : ProcessRecord} (h : boot.procs i = some r) :
    r.pid = UInt32.ofNat (i.val + 1) ∧ i.val < seedCount ∧ r.personaCtx = none := by
  have happly : boot.procs i = if h : i.val < seedCount then some (seedRecord ⟨i.val, h⟩) else none := rfl
  rw [happly] at h
  split_ifs at h with hi
  obtain rfl := some.inj h
  exact ⟨rfl, hi, rfl⟩

theorem boot_low : ∀ i : Fin seedCount, UInt32.ofNat (i.val + 1) < clonePidBase := by decide

theorem boot_tables : boot.Tables where
  procs := by
    intro i j r s hr hs hkey
    obtain ⟨hr, hi, -⟩ := boot_proc hr
    obtain ⟨hs, hj, -⟩ := boot_proc hs
    rw [hr, hs] at hkey
    have hinj : ∀ i j : Fin seedCount, UInt32.ofNat (i.val + 1) = UInt32.ofNat (j.val + 1) → i = j := by decide
    exact Fin.ext (Fin.mk.inj (hinj ⟨i.val, hi⟩ ⟨j.val, hj⟩ hkey))
  clones := fun _ _ _ _ h => by cases h
  exits := fun _ _ _ _ h => by cases h
  seeds := by
    intro i hi
    exact ⟨seedRecord ⟨i.val, hi⟩, dif_pos hi, boot_low ⟨i.val, hi⟩⟩
  next := UInt32.le_refl _

theorem boot_context (p : UInt32) : boot.context p = none := by
  unfold context
  rcases hp : boot.proc p with _ | r
  · rfl
  obtain ⟨i, hi, -⟩ := Keyed.exists_of_get hp
  exact (boot_proc hi).2.2

theorem boot_cloneOf (p : UInt32) : boot.cloneOf p = none := Keyed.get_eq_none.2 fun _ _ h => by cases h

theorem boot_exitOf (p : UInt32) : boot.exitOf p = none := Keyed.get_eq_none.2 fun _ _ h => by cases h

theorem settled_boot : boot.Settled := by
  refine ⟨boot_tables, ?_, ?_, ?_, ?_⟩
  · intro p hp hsome
    obtain ⟨s, hs⟩ := isSome_iff_exists.1 hsome
    obtain ⟨r, hr, -⟩ := map_eq_some_iff.1 hs
    obtain ⟨i, hi, hkey⟩ := Keyed.exists_of_get hr
    obtain ⟨hpid, hlt, -⟩ := boot_proc hi
    have hlow := boot_low ⟨i.val, hlt⟩
    rw [← hpid, hkey] at hlow
    exact absurd hp (UInt32.not_le.2 hlow)
  · intro c r hr
    simp [boot_cloneOf] at hr
  · intro p e he
    simp [boot_exitOf] at he
  · intro p c hc
    simp [boot_context] at hc

end Kernel

/-! ## The tasks -/

namespace Machine

/-- The task waits in `wait4`, and its process is the parent. -/
def WaitsForChild (m : Machine) (t : TaskId) : Prop :=
  ∃ c r a, m.kernel.cloneOf c = some r ∧ r.waiter = some (t, a) ∧ r.parentPid = (m.queue.tasks t).pid

/-- The next pid is one that no record names, and only tasks that wait for something else are woken from outside. -/
def Orderly (m : Machine) : Step → Prop
  | .launch _ => m.kernel.Unnamed m.kernel.nextClonePid
  | .call _ (.fork _) => m.kernel.Unnamed m.kernel.nextClonePid
  | .call _ (.clone _) => m.kernel.Unnamed m.kernel.nextClonePid
  | .call _ _ => True
  | .timer _ expired => ∀ e ∈ expired, ¬ m.WaitsForChild e.1
  | .wake t _ => ¬ m.WaitsForChild t

instance (m : Machine) (t : TaskId) : Decidable (m.WaitsForChild t) :=
  decidable_of_iff
    (¬ ∀ i, ∀ r ∈ m.kernel.cloneRecords i, ∀ r' ∈ m.kernel.cloneOf r.childPid,
      ¬ (r'.waiter.any (fun w => w.1 = t) = true ∧ r'.parentPid = (m.queue.tasks t).pid)) <| by
    rw [← forall_cloneOf]
    simp only [not_forall, not_not, WaitsForChild]
    constructor
    · rintro ⟨c, r, hr, hw, hparent⟩
      obtain ⟨⟨t', a⟩, hwait, ht⟩ := (Option.any_eq_true _ _).1 hw
      obtain rfl : t' = t := by simpa using ht
      exact ⟨c, r, a, hr, hwait, hparent⟩
    · rintro ⟨c, r, a, hr, hwait, hparent⟩
      exact ⟨c, r, hr, by simp [hwait], hparent⟩

/-- The call makes a process. -/
def spawns : Call → Bool
  | .fork _ => true
  | .clone _ => true
  | _ => false

instance (m : Machine) (s : Step) : Decidable (m.Orderly s) :=
  match s with
  | .launch _ => inferInstanceAs (Decidable (m.kernel.Unnamed _))
  | .call user c => decidable_of_iff (spawns c = true → m.kernel.Unnamed m.kernel.nextClonePid) <| by
    cases c <;> simp [spawns, Orderly]
  | .timer _ expired => List.decidableBAll (fun e : TaskId × UInt64 => ¬ m.WaitsForChild e.1) expired
  | .wake t _ => inferInstanceAs (Decidable (¬ m.WaitsForChild t))

structure Inv (m : Machine) : Prop where
  settled : m.kernel.Settled
  inQueue : ∀ t, (m.queue.tasks t).Alive → t.val < m.queue.taskCount ∧ (m.queue.tasks t).frameValid = true
  running : m.queue.Running
  owner : ∀ t, (m.queue.tasks t).Alive → (m.kernel.context (m.queue.tasks t).pid).isSome = true ∧
    clonePidBase ≤ (m.queue.tasks t).pid ∧ m.kernel.lastExitPid ≠ (m.queue.tasks t).pid
  unique : ∀ t u, (m.queue.tasks t).Alive → (m.queue.tasks u).Alive → (m.queue.tasks t).pid = (m.queue.tasks u).pid → t = u
  leader : ∀ t, (m.queue.tasks t).Alive → (m.kernel.cloneOf (m.queue.tasks t).pid = none ↔
    m.leader = some (m.queue.tasks t).pid)
  leaderLive : ∀ p, m.leader = some p → (m.kernel.context p).isSome = true
  /-- The waiter of a running child. -/
  waiter : ∀ u r t a, (m.queue.tasks u).Alive → m.kernel.cloneOf (m.queue.tasks u).pid = some r → r.waiter = some (t, a) →
    m.queue.Parked t ∧ (m.queue.tasks t).pid = r.parentPid
  oneWait : ∀ u u' r r' t a a', (m.queue.tasks u).Alive → (m.queue.tasks u').Alive →
    m.kernel.cloneOf (m.queue.tasks u).pid = some r → m.kernel.cloneOf (m.queue.tasks u').pid = some r' →
    r.waiter = some (t, a) → r'.waiter = some (t, a') → u = u'

namespace Inv

variable {m : Machine}

variable {frame : Frame} {k' k : Kernel} {t task : TaskId} {entryToken runtimeToken : UInt32} {q' : Runqueue}

section

variable (h : m.Inv) {pid : UInt32}
include h

/-- Processes that have a persona keep it, and their clone records. -/
theorem elsewhere (hs : k'.Settled) (hlast : k'.lastExitPid = m.kernel.lastExitPid)
    (hlive : ∀ x, (m.kernel.context x).isSome → (k'.context x).isSome ∧ k'.cloneOf x = m.kernel.cloneOf x) :
    Inv { m with kernel := k' } where
  settled := hs
  inQueue := h.inQueue
  running := h.running
  owner t ht := by
    obtain ⟨hsome, hbase, hnot⟩ := h.owner t ht
    exact ⟨(hlive _ hsome).1, hbase, by rw [hlast]; exact hnot⟩
  unique := h.unique
  leader t ht := by
    rw [(hlive _ (h.owner t ht).1).2]
    exact h.leader t ht
  leaderLive p hp := (hlive p (h.leaderLive p hp)).1
  waiter u r t a hu hr := by
    rw [(hlive _ (h.owner u hu).1).2] at hr
    exact h.waiter u r t a hu hr
  oneWait u u' r r' t a a' hu hu' hr hr' := by
    rw [(hlive _ (h.owner u hu).1).2] at hr
    rw [(hlive _ (h.owner u' hu').1).2] at hr'
    exact h.oneWait u u' r r' t a a' hu hu' hr hr'

theorem alike (ha : Alike m.kernel k') : Inv { m with kernel := k' } := by
  apply h.elsewhere (h.settled.alike ha) ha.lastExitPid
  intro x hx
  exact ⟨by rw [ha.context, hx], ha.cloneOf x⟩

/-- A child that has exited is forgotten. -/
theorem clears {child : UInt32} {e : ExitRecord} (he : m.kernel.exitOf child = some e)
    (hc : m.kernel.Clears child k') : Inv { m with kernel := k' } := by
  apply h.elsewhere (h.settled.clears hc) hc.lastExitPid
  intro x hx
  have hne : x ≠ child := by
    intro hne
    simp [hne, (h.settled.exited child e he).2] at hx
  rw [hc.context, hc.cloneOf, if_neg hne, if_neg hne]
  exact ⟨hx, rfl⟩

theorem same {woken : TaskId → Prop} (hs : Same woken m.queue q')
    (hw : ∀ t, woken t → ¬ m.WaitsForChild t) : Inv { m with queue := q' } where
  settled := h.settled
  inQueue t ht := by
    obtain ⟨hlt, hvalid⟩ := h.inQueue t ((hs.alive t).1 ht)
    exact ⟨by rw [hs.taskCount]; exact hlt, hs.valid t hvalid⟩
  running := hs.running h.running
  owner t ht := by
    rw [hs.pid]
    exact h.owner t ((hs.alive t).1 ht)
  unique t u ht hu hpid := by
    rw [hs.pid, hs.pid] at hpid
    exact h.unique t u ((hs.alive t).1 ht) ((hs.alive u).1 hu) hpid
  leader t ht := by
    rw [hs.pid]
    exact h.leader t ((hs.alive t).1 ht)
  leaderLive := h.leaderLive
  waiter u r t a hu hr hwait := by
    rw [hs.pid] at hr
    obtain ⟨hparked, hpid⟩ := h.waiter u r t a ((hs.alive u).1 hu) hr hwait
    have hnot : ¬ woken t := fun ht => hw t ht ⟨_, r, a, hr, hwait, hpid.symm⟩
    exact ⟨(hs.parked t hnot hparked).1, by rw [hs.pid]; exact hpid⟩
  oneWait u u' r r' t a a' hu hu' hr hr' := by
    rw [hs.pid] at hr hr'
    exact h.oneWait u u' r r' t a a' ((hs.alive u).1 hu) ((hs.alive u').1 hu') hr hr'

/-- Nobody is woken. -/
theorem still (hs : Same (fun _ => False) m.queue q') : Inv { m with queue := q' } :=
  h.same hs fun _ hf => hf.elim

/-- The process of a task that lives has not exited. -/
theorem not_exited (ht : (m.queue.tasks t).Alive) : m.kernel.exitOf (m.queue.tasks t).pid = none := by
  rcases he : m.kernel.exitOf (m.queue.tasks t).pid with _ | e
  · rfl
  have hlive := (h.owner t ht).1
  simp [(h.settled.exited _ e he).2] at hlive

theorem alive_current (ht : m.queue.currentTaskId = some t) : (m.queue.tasks t).Alive := by
  obtain ⟨hactive, hcurrent, -⟩ := currentTaskId_eq_some.1 ht
  obtain ⟨u, hu, halive⟩ := h.running hactive
  obtain rfl := mem_unique hcurrent hu
  exact halive

/-- A process that runs does not leave. -/
theorem not_leaving (ht : (m.queue.tasks t).Alive) :
    ¬ (m.kernel.processExited (m.queue.tasks t).pid ∨ m.kernel.lastExitPid = (m.queue.tasks t).pid) := by
  rw [processExited, h.not_exited ht]
  simpa using (h.owner t ht).2.2

/-- A new task has a slot of its own. -/
theorem registered (hq : m.queue.registerProcessFrame pid runtimeToken entryToken frame = (some t, q')) :
    ¬ (m.queue.tasks t).Alive ∧
      q'.tasks = update m.queue.tasks t { clear with state := .ready, frameValid := true, pid, frame } ∧
      (t.val < q'.taskCount ∧ m.queue.taskCount ≤ q'.taskCount) ∧
      q'.active = m.queue.active ∧ q'.currentTask = m.queue.currentTask := by
  rcases m.queue.registerProcessFrame_cases pid runtimeToken entryToken frame with
    hnone | ⟨t', q'', hsome, hle, hfree, -, htasks, hcount, hactive, hcurrent⟩
  · simp [hnone] at hq
  rw [hsome] at hq
  obtain ⟨ht, rfl⟩ := Prod.mk.inj hq
  obtain rfl := some.inj ht
  refine ⟨?_, htasks, ?_, hactive, hcurrent⟩
  · intro halive
    have := hfree halive
    have := (h.inQueue t' halive).1
    omega
  · rw [hcount]
    split_ifs <;> omega

/-- A child has been made, with its task. -/
theorem spawned {kind : ChildKind} {context : Context} (hnew : m.kernel.Unnamed m.kernel.nextClonePid) (hfixed : context.Fixed)
    (hk : m.kernel.Spawned pid kind context k')
    (hq : m.queue.registerProcessFrame m.kernel.nextClonePid runtimeToken entryToken frame = (some t, q')) :
    Inv { m with kernel := k', queue := q' } := by
  -- the slot was free, and the pid was nobody's
  obtain ⟨hslot, htasks, hcount, hactive, hcurrent⟩ := h.registered hq
  have hat : q'.tasks t = { clear with state := .ready, frameValid := true, pid := m.kernel.nextClonePid, frame } := by
    rw [htasks, update_self]
  have hold : ∀ u, (m.queue.tasks u).Alive → u ≠ t ∧ q'.tasks u = m.queue.tasks u := by
    intro u hu
    have hne : u ≠ t := by
      intro hne
      rw [hne] at hu
      exact hslot hu
    exact ⟨hne, by rw [htasks, update_of_ne hne]⟩
  have hother : ∀ u, (q'.tasks u).Alive → u = t ∨ (m.queue.tasks u).Alive ∧ q'.tasks u = m.queue.tasks u := by
    intro u hu
    by_cases hne : u = t
    · exact .inl hne
    · have heq : q'.tasks u = m.queue.tasks u := by rw [htasks, update_of_ne hne]
      exact .inr ⟨heq ▸ hu, heq⟩
  have hfresh : ∀ x, (m.kernel.context x).isSome → x ≠ m.kernel.nextClonePid := by
    intro x hx hne
    have hsome := isSome_shape_of_context hx
    simp [hne, shape, hnew.proc] at hsome
  have hpid : ∀ u, (m.queue.tasks u).Alive → (m.queue.tasks u).pid ≠ m.kernel.nextClonePid := fun u hu =>
    hfresh _ (h.owner u hu).1
  -- the child's own record has no waiter yet
  have hown : ∀ u r w a, (q'.tasks u).Alive → k'.cloneOf (q'.tasks u).pid = some r → r.waiter = some (w, a) →
      (m.queue.tasks u).Alive ∧ m.kernel.cloneOf (m.queue.tasks u).pid = some r := by
    intro u r w a hu hr hwait
    rcases hother u hu with rfl | ⟨halive, heq⟩
    · rw [hat, hk.cloneOf, if_pos rfl] at hr
      obtain rfl := some.inj hr
      cases hwait
    · rw [heq, hk.cloneOf, if_neg (hpid u halive)] at hr
      exact ⟨halive, hr⟩
  have hsettled : k'.Settled :=
    h.settled.adds hnew hfixed hk.tables hk.exitRecords (fun x hx => by rw [hk.cloneOf, if_neg hx]) hk.shape
  refine ⟨hsettled, ?_, ?_, ?_, ?_, ?_, ?_, ?_, ?_⟩
  · intro u hu
    rcases hother u hu with rfl | ⟨halive, heq⟩
    · exact ⟨hcount.1, by rw [hat]⟩
    · obtain ⟨hlt, hvalid⟩ := h.inQueue u halive
      exact ⟨Nat.lt_of_lt_of_le hlt hcount.2, by rw [heq, hvalid]⟩
  · intro hrun
    obtain ⟨u, hu, halive⟩ := h.running (hactive ▸ hrun)
    exact ⟨u, by rw [hcurrent, hu], by rw [(hold u halive).2]; exact halive⟩
  · intro u hu
    rcases hother u hu with rfl | ⟨halive, heq⟩
    · rw [hat]
      refine ⟨by rw [hk.context, if_pos rfl]; rfl, h.settled.tables.next, ?_⟩
      rw [hk.lastExitPid]
      exact hnew.last
    · rw [heq, hk.context, if_neg (hpid u halive), hk.lastExitPid]
      exact h.owner u halive
  · intro u v hu hv heq
    rcases hother u hu with rfl | ⟨halive, hequ⟩
    · rcases hother v hv with rfl | ⟨halive', heqv⟩
      · rfl
      · rw [hat, heqv] at heq
        exact absurd heq.symm (hpid v halive')
    rcases hother v hv with rfl | ⟨halive', heqv⟩
    · rw [hat, hequ] at heq
      exact absurd heq (hpid u halive)
    · rw [hequ, heqv] at heq
      exact h.unique u v halive halive' heq
  · intro u hu
    rcases hother u hu with rfl | ⟨halive, heq⟩
    · rw [hat, hk.cloneOf, if_pos rfl]
      constructor
      · intro hnone
        cases hnone
      · intro hleader
        exact absurd rfl (hfresh _ (h.leaderLive _ hleader))
    · rw [heq, hk.cloneOf, if_neg (hpid u halive)]
      exact h.leader u halive
  · intro p hp
    have hlive := h.leaderLive p hp
    rwa [hk.context, if_neg (hfresh p hlive)]
  · intro u r w a hu hr hwait
    obtain ⟨halive, hr⟩ := hown u r w a hu hr hwait
    obtain ⟨hparked, hw⟩ := h.waiter u r w a halive hr hwait
    have hkept := (hold w (.inr (.inr hparked.1))).2
    exact ⟨⟨by rw [hkept, hparked.1], by rw [hcurrent]; exact hparked.2⟩, by rw [hkept, hw]⟩
  · intro u u' r r' w a a' hu hu' hr hr' hwait hwait'
    obtain ⟨halive, hr⟩ := hown u r w a hu hr hwait
    obtain ⟨halive', hr'⟩ := hown u' r' w a' hu' hr' hwait'
    exact h.oneWait u u' r r' w a a' halive halive' hr hr' hwait hwait'

end

/-! ### Exits -/

/-- The process of the current task has ended, and nobody was woken but a parent that waited for it. -/
theorem ended (h : m.Inv) (ht : m.queue.currentTaskId = some task) {q1 : Runqueue} {woken : TaskId → Prop} (hs : k'.Settled)
    (hlast : k'.lastExitPid = (m.queue.tasks task).pid)
    (hlive : ∀ x, x ≠ (m.queue.tasks task).pid → (m.kernel.context x).isSome → (k'.context x).isSome ∧ k'.cloneOf x =
      m.kernel.cloneOf x)
    (hsame : Same woken m.queue q1)
    (hwoken : ∀ w, woken w → ∃ r a, m.kernel.cloneOf (m.queue.tasks task).pid = some r ∧ r.waiter = some (w, a))
    (hleader : m.leader ≠ some (m.queue.tasks task).pid) (hends : q1.Ends task q') :
    Inv { m with kernel := k', queue := q' } := by
  have halive := h.alive_current ht
  have hpid : ∀ u, (q'.tasks u).pid = (m.queue.tasks u).pid := fun u => (hends.pid u).trans (hsame.pid u)
  have hold : ∀ u, (q'.tasks u).Alive → (m.queue.tasks u).Alive ∧ u ≠ task := by
    intro u hu
    obtain ⟨hu1, hne⟩ := (hends.alive u).1 hu
    exact ⟨(hsame.alive u).1 hu1, hne⟩
  -- the others are other processes
  have hother : ∀ u, (q'.tasks u).Alive → (m.queue.tasks u).pid ≠ (m.queue.tasks task).pid := by
    intro u hu heq
    exact (hold u hu).2 (h.unique u task (hold u hu).1 halive heq)
  have hkept : ∀ u, (q'.tasks u).Alive → (k'.context (m.queue.tasks u).pid).isSome ∧
      k'.cloneOf (m.queue.tasks u).pid = m.kernel.cloneOf (m.queue.tasks u).pid := fun u hu =>
    hlive _ (hother u hu) (h.owner u (hold u hu).1).1
  refine ⟨hs, ?_, hends.running, ?_, ?_, ?_, ?_, ?_, ?_⟩
  · intro u hu
    obtain ⟨hlt, hvalid⟩ := h.inQueue u (hold u hu).1
    exact ⟨by rw [hends.taskCount, hsame.taskCount]; exact hlt, hends.valid u (hsame.valid u hvalid)⟩
  · intro u hu
    rw [hpid]
    refine ⟨(hkept u hu).1, (h.owner u (hold u hu).1).2.1, ?_⟩
    rw [hlast]
    exact (hother u hu).symm
  · intro u v hu hv heq
    rw [hpid, hpid] at heq
    exact h.unique u v (hold u hu).1 (hold v hv).1 heq
  · intro u hu
    rw [hpid, (hkept u hu).2]
    exact h.leader u (hold u hu).1
  · intro p hp
    have hne : p ≠ (m.queue.tasks task).pid := by
      intro hne
      exact hleader (hne ▸ hp)
    exact (hlive p hne (h.leaderLive p hp)).1
  · intro u r w a hu hr hwait
    rw [hpid, (hkept u hu).2] at hr
    obtain ⟨hparked, hw⟩ := h.waiter u r w a (hold u hu).1 hr hwait
    -- a task that waited for the one that has ended does not wait for another
    have hnot : ¬ woken w := by
      intro hwake
      obtain ⟨r', a', hr', hwait'⟩ := hwoken w hwake
      exact (hold u hu).2 (h.oneWait u task r r' w a a' (hold u hu).1 halive hr hr' hwait hwait')
    obtain ⟨hparked1, -⟩ := hsame.parked w hnot hparked
    exact ⟨(hends.parked w (hparked.ne_current ht) hparked1).1, by rw [hpid, hw]⟩
  · intro u u' r r' w a a' hu hu' hr hr'
    rw [hpid, (hkept u hu).2] at hr
    rw [hpid, (hkept u' hu').2] at hr'
    exact h.oneWait u u' r r' w a a' (hold u hu).1 (hold u' hu').1 hr hr'

/-- An empty queue: only the records matter. -/
theorem of_settled (hs : k.Settled) {leader : Option UInt32} (hleader : ∀ p, leader = some p → (k.context p).isSome) :
    Inv { kernel := k, queue := .reset, leader } := by
  have hdead : ∀ t, ¬ (reset.tasks t).Alive := by
    simp [reset, clear, Alive]
  refine ⟨hs, ?_, ?_, ?_, ?_, ?_, hleader, ?_, ?_⟩
  · exact fun t ht => absurd ht (hdead t)
  · intro hactive
    cases hactive
  · exact fun t ht => absurd ht (hdead t)
  · exact fun t _ ht => absurd ht (hdead t)
  · exact fun t ht => absurd ht (hdead t)
  · exact fun u _ _ _ hu => absurd hu (hdead u)
  · exact fun u _ _ _ _ _ _ hu => absurd hu (hdead u)

theorem boot : Machine.boot.Inv := of_settled settled_boot fun _ h => by cases h

/-! ### Waiting parents -/

/-- A parked task is entered in the record of a child; it was in no other. -/
theorem enterWaiter (h : m.Inv) {child : UInt32} {r : CloneRecord} (hr : m.kernel.cloneOf child = some r)
    (hparked : m.queue.Parked task) (hpid : (m.queue.tasks task).pid = r.parentPid)
    (hfree : ∀ u r' a', (m.queue.tasks u).Alive → m.kernel.cloneOf (m.queue.tasks u).pid = some r' → r'.waiter ≠ some (task, a'))
    (a : UInt64) : Inv { m with kernel := m.kernel.enterWaiter child task a } := by
  have hcloneOf := cloneOf_enterWaiter h.settled.tables child task a
  have hnone : ∀ x, (m.kernel.enterWaiter child task a).cloneOf x = none ↔ m.kernel.cloneOf x = none := by
    intro x
    rw [hcloneOf]
    split_ifs with hx
    · rw [hx, map_eq_none_iff]
    · rfl
  -- a record with a waiter is the child's, or was there before
  have hwaits : ∀ x r' w a', (m.kernel.enterWaiter child task a).cloneOf x = some r' → r'.waiter = some (w, a') →
      (x = child ∧ w = task ∧ r'.parentPid = r.parentPid) ∨ (x ≠ child ∧ m.kernel.cloneOf x = some r') := by
    intro x r' w a' hr' hw
    rw [hcloneOf] at hr'
    split_ifs at hr' with hx
    · rw [hr] at hr'
      obtain rfl := some.inj hr'
      obtain ⟨rfl, -⟩ := Prod.mk.inj (some.inj hw)
      exact .inl ⟨hx, rfl, rfl⟩
    · exact .inr ⟨hx, hr'⟩
  refine ⟨⟨h.settled.tables.enterWaiter child task a, h.settled.made, ?_, h.settled.exited, h.settled.fixed⟩, h.inQueue,
    h.running, h.owner, h.unique, ?_, h.leaderLive, ?_, ?_⟩
  · intro c r' hr'
    rw [hcloneOf] at hr'
    split_ifs at hr' with hx
    · rw [hx]
      exact h.settled.child child r hr
    · exact h.settled.child c r' hr'
  · intro t ht
    rw [hnone]
    exact h.leader t ht
  · intro u r' w a' hu hr' hw
    rcases hwaits _ r' w a' hr' hw with ⟨-, rfl, hparent⟩ | ⟨-, hold⟩
    · exact ⟨hparked, hpid.trans hparent.symm⟩
    · exact h.waiter u r' w a' hu hold hw
  · intro u u' r1 r2 w a1 a2 hu hu' hr1 hr2 hw1 hw2
    rcases hwaits _ r1 w a1 hr1 hw1 with ⟨hx1, rfl, -⟩ | ⟨-, hold1⟩
    · rcases hwaits _ r2 _ a2 hr2 hw2 with ⟨hx2, -, -⟩ | ⟨-, hold2⟩
      · exact h.unique u u' hu hu' (hx1.trans hx2.symm)
      · exact absurd hw2 (hfree u' r2 a2 hu' hold2)
    · rcases hwaits _ r2 w a2 hr2 hw2 with ⟨-, rfl, -⟩ | ⟨-, hold2⟩
      · exact absurd hw1 (hfree u r1 a1 hu hold1)
      · exact h.oneWait u u' r1 r2 w a1 a2 hu hu' hold1 hold2 hw1 hw2

/-! ### Launches -/

/-- A queue with one task, which runs. -/
theorem started (h : m.Inv) {q : Runqueue} (hu : m.kernel.Unnamed m.kernel.nextClonePid) (hk : m.kernel.Launched k)
    (hq : reset.registerProcessFrame m.kernel.nextClonePid runtimeToken entryToken frame = (some t, q)) :
    Inv { kernel := k, queue := (q.start t).2, leader := some m.kernel.nextClonePid } := by
  obtain ⟨-, hcurrent, hcount, hat, hclear⟩ := start_first hq
  have hpid : ((q.start t).2.tasks t).pid = m.kernel.nextClonePid := by rw [hat]
  have hdead : ∀ u, ((q.start t).2.tasks u).Alive → u = t := by
    intro u hu
    by_contra hne
    rw [hclear u hne] at hu
    simp [clear, Alive] at hu
  have hnone : k.cloneOf m.kernel.nextClonePid = none := by
    rw [cloneOf, hk.cloneRecords]
    exact hu.child
  have hsome : k.context m.kernel.nextClonePid = some (initContext m.kernel.nextClonePid) := by rw [hk.context, if_pos rfl]
  have hsettled : k.Settled := by
    obtain ⟨principal, hshape⟩ := hk.shape
    refine h.settled.adds hu ?_ hk.tables hk.exitRecords ?_ hshape
    · intro i _
      rfl
    · intro x _
      rw [cloneOf, hk.cloneRecords, cloneOf]
  refine ⟨hsettled, ?_, ?_, ?_, ?_, ?_, ?_, ?_, ?_⟩
  · intro u hu
    rw [hdead u hu]
    exact ⟨hcount, by rw [hat]⟩
  · intro _
    exact ⟨t, hcurrent, by rw [hat]; exact .inr (.inl rfl)⟩
  · intro u hu'
    rw [hdead u hu', hpid, hsome, hk.lastExitPid]
    exact ⟨rfl, h.settled.tables.next, hu.last⟩
  · intro u v hu hv _
    rw [hdead u hu, hdead v hv]
  · intro u hu
    rw [hdead u hu, hpid, hnone]
    exact ⟨fun _ => rfl, fun _ => rfl⟩
  · intro p hp
    obtain rfl := some.inj hp
    rw [hsome]
    rfl
  · intro u r w a hu hr
    simp [hdead u hu, hpid, hnone] at hr
  · intro u u' r r' w a a' hu hu' hr
    rw [hdead u hu, hpid, hnone] at hr
    cases hr

end Inv

end Machine

end LimitlessOS.Process
