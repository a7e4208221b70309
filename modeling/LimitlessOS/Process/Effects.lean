/-
  LimitlessOS.Process.Effects — what a step does, seen from outside.

  A step makes a process, ends one, hands an exit to the parent, or does none of these;
  `events` says which. `Effect` says for each case what has become of the records and of
  the tasks, and every later proof about runs goes by its cases.

  Proved:
  - `effect_step`: every orderly step from a state with the invariant has one of the effects.
  - `inv_effect`, `inv_run`: the invariant holds in every state that orderly steps reach.
-/
import LimitlessOS.Lib.Run
import LimitlessOS.Process.Invariant

namespace LimitlessOS.Process

open Lib Signal Sched Kernel Runqueue Machine Personas Function

/-- What happens to processes. -/
inductive Event where
  /-- A launch has no parent. -/
  | spawned (parent : Option UInt32) (child : UInt32)
  | exited (pid code : UInt32)
  | reaped (reap : Reap)
  deriving DecidableEq

namespace Machine

/-- The events of a call, by its result. -/
def callEvents (pid : UInt32) (result : UInt64) : Call → List Event
  | .fork _ | .clone _ => if failed result then [] else [.spawned (some pid) result.toUInt32]
  | .exit code | .exitGroup code => if failed result then [] else [.exited pid code.toUInt32]
  | _ => []

def events (m : Machine) : Step → List Event
  | .launch s =>
    if !m.queue.active && (m.launch s).queue.active then [.spawned none m.kernel.nextClonePid] else []
  | .call user c =>
    match m.queue.currentTaskId with
    | none => []
    | some task =>
      callEvents (m.queue.tasks task).pid (m.call user c).1 c ++ ((m.call user c).2.1.map Event.reaped).toList
  | .timer _ _ => []
  | .wake _ _ => []

/-! ## The way out of a call -/

/-- The same records and the same tasks. -/
structure After (m m' : Machine) : Prop where
  kernel : Alike m.kernel m'.kernel
  queue : Same (fun _ => False) m.queue m'.queue
  leader : m'.leader = m.leader

namespace After

variable {m m' m'' : Machine}

theorem trans (h : m.After m') (h' : m'.After m'') : m.After m'' :=
  ⟨h.kernel.trans h'.kernel, h.queue.trans h'.queue, h'.leader.trans h.leader⟩

theorem deliver (ht : m.kernel.Tables) (pid : UInt32) (space : Space) (frame : Frame) :
    m.After (m.deliver pid space frame).2 :=
  ⟨alike_setContexts ht (Core.change_deliverPending ⟨m.kernel.personas, space, frame⟩ pid), .refl _ _, rfl⟩

theorem deliverOnResume (ht : m.kernel.Tables) (spaces : UInt32 → Space) (frame : Frame) :
    m.After (m.deliverOnResume spaces frame) := by
  unfold Machine.deliverOnResume
  split
  · exact ⟨.refl ht, .refl _ _, rfl⟩
  · exact deliver ht _ _ _

theorem switchBlocked (ht : m.kernel.Tables) (spaces : UInt32 → Space) (frame : Frame) :
    m.After (m.switchBlocked spaces frame) := by
  have hs := (m.queue.onBlockedSyscall_cases frame).1
  unfold Machine.switchBlocked
  split
  case _ frame' q heq =>
    rw [heq] at hs
    have hq : m.After { m with queue := q } := ⟨.refl ht, hs, rfl⟩
    exact hq.trans (deliverOnResume (m := { m with queue := q }) ht _ _)
  case _ heq =>
    rw [heq] at hs
    exact ⟨.refl ht, hs, rfl⟩

/-- The way out of a call after which the caller still runs. -/
theorem complete {o : Outcome} {task : TaskId} {pid : UInt32} (h : m.Inv) (ht : (m.queue.tasks task).Alive)
    (hpid : (m.queue.tasks task).pid = pid) (ho : o.machine = m) (user : User) :
    m.After (complete o task pid user) := by
  unfold Machine.complete
  simp only
  rw [ho, if_neg (by rw [← hpid]; exact h.not_leaving ht)]
  split
  · exact ⟨.refl h.settled.tables, .refl _ _, rfl⟩
  generalize ({ user.registers.frame with rax := o.result } : Frame) = frame
  have hd := deliver h.settled.tables pid (user.spaces pid) frame
  rcases heq : m.deliver pid (user.spaces pid) frame with ⟨delivered, m'⟩
  rw [heq] at hd
  cases delivered with
  | true => exact hd
  | false =>
    simp only
    split
    · exact hd
    · exact hd.trans (switchBlocked hd.kernel.tables _ _)

end After

theorem deliverOnResume_queue (m : Machine) (spaces : UInt32 → Space) (frame : Frame) :
    (m.deliverOnResume spaces frame).queue = m.queue := by
  unfold deliverOnResume
  split <;> rfl

/-- The way out of an exit, unless the launched process has ended. -/
theorem leave_cases (m : Machine) (ht : m.kernel.Tables) {task : TaskId} (hcurrent : m.queue.currentTaskId = some task)
    {pid : UInt32} (hleader : m.leader ≠ some pid) (spaces : UInt32 → Space) (frame : Frame) :
    Alike m.kernel (m.leave pid spaces frame).kernel ∧ m.queue.Ends task (m.leave pid spaces frame).queue ∧
      (m.leave pid spaces frame).leader = m.leader := by
  have hends := ends_onExit hcurrent frame 0
  unfold leave
  rw [if_neg hleader]
  split
  case _ frame' q heq =>
    rw [heq] at hends
    have ha := After.deliverOnResume (m := { m with queue := q }) ht spaces frame'
    exact ⟨ha.kernel, by rw [deliverOnResume_queue]; exact hends, ha.leader⟩
  case _ heq =>
    rw [heq] at hends
    exact ⟨.refl ht, hends, rfl⟩

/-! ## Exits and waits -/

/-- What an exit leaves for the way out: it is refused, nobody waits for the process, or its parent is woken. -/
inductive Exiting (m : Machine) (pid : UInt32) (code : UInt32) : Outcome → Prop
  | refused : Exiting m pid code { machine := m, result := errorReturn esrch }
  | unwaited {k : Kernel} (hexits : m.kernel.Exits pid code k)
      (hwaiter : ∀ r, m.kernel.cloneOf pid = some r → r.waiter = none) :
      Exiting m pid code { machine := { m with kernel := k }, result := 0 }
  | waited {k k' : Kernel} {r : CloneRecord} {w : TaskId} {a : UInt64} {written : Bool} (hexits : m.kernel.Exits pid code k)
      (hr : m.kernel.cloneOf pid = some r) (hwaiter : r.waiter = some (w, a)) (hclears : k.Clears pid k') :
      Exiting m pid code
        { machine := { m with kernel := k', queue := (m.queue.wakeTaskWithResult w pid.toUInt64).2 }
          result := 0
          reap := some ⟨r.parentPid, pid, statusForExit code, a, written⟩ }

namespace Inv

variable {m : Machine} {r : CloneRecord} {task : TaskId}

/-- A parent that waits is woken. -/
theorem woken (h : m.Inv) {u : TaskId} (hu : (m.queue.tasks u).Alive) {w : TaskId} {a : UInt64}
    (hr : m.kernel.cloneOf (m.queue.tasks u).pid = some r) (hwait : r.waiter = some (w, a)) (result : UInt64) :
    (m.queue.wakeTaskWithResult w result).1 := by
  obtain ⟨hparked, -⟩ := h.waiter u r w a hu hr hwait
  obtain ⟨hlt, hvalid⟩ := h.inQueue w (.inr (.inr hparked.1))
  rcases m.queue.wakeTaskWithResult_cases w result with ⟨-, hno⟩ | ⟨-, -, -, heq⟩
  · rcases hno with hno | hno | hno
    · omega
    · simp [hvalid] at hno
    · exact absurd hparked.1 hno
  · rw [heq]

theorem exiting (h : m.Inv) (ht : (m.queue.tasks task).Alive) (user : User) (code : UInt64) :
    Exiting m (m.queue.tasks task).pid code.toUInt32 (m.body task (m.queue.tasks task).pid user (.exit code)) := by
  obtain ⟨-, hbase, -⟩ := h.owner task ht
  have hlive := h.not_exited ht
  have hwoken := fun r w a => h.woken (r := r) (w := w) (a := a) ht
  have hwaiter := fun r w a => h.waiter task r w a ht
  generalize (m.queue.tasks task).pid = pid at *
  rcases m.kernel.exit_cases m.queue pid code with heq | ⟨context, i, hready, hi, heq⟩
  · simp only [body, heq]
    exact .refused
  have hexits := exitProcess_exits h.settled.tables (ready_eq_some.1 hready).2.1 hlive code.toUInt32 hi
  generalize m.kernel.exitProcess pid code.toUInt32 i = k at heq hexits
  have hclone : k.cloneOf pid = m.kernel.cloneOf pid := by rw [cloneOf, hexits.cloneRecords, cloneOf]
  rcases k.completeBlockedChild_cases m.queue pid code.toUInt32 with ⟨hnone, hfree⟩ | ⟨r, w, a, written, hr, hwait, hsome⟩
  · simp only [body, heq, hnone]
    exact .unwaited hexits (fun r hr => hfree r (hclone.trans hr))
  · rw [hclone] at hr
    simp only [body, heq, hsome, hwoken r w a hr hwait, if_true]
    rw [(hwaiter r w a hr hwait).2]
    exact .waited hexits hr hwait (clears_releaseClone hexits.tables hbase)

/-- A parent blocks: no signal is delivered to it, and another task is resumed. -/
theorem blocks (h : m.Inv) (ht : m.queue.currentTaskId = some task) {q' : Runqueue} (hr : m.kernel.cloneOf r.childPid = some r)
    (hparent : r.parentPid = (m.queue.tasks task).pid) (hrun : (m.queue.tasks task).state = .running)
    (hblock : m.queue.blockTask task = (true, q'))
    (hquiet : m.kernel.personas.unmaskedSignalPending (m.queue.tasks task).pid = false) (a : UInt64) (user : User) :
    ∃ k2 q2 frame,
      complete { machine := { m with kernel := m.kernel.enterWaiter r.childPid task a, queue := q' }, result := 0 }
          task (m.queue.tasks task).pid user =
        deliverOnResume { m with kernel := k2, queue := q2 } user.spaces frame ∧
      Alike (m.kernel.enterWaiter r.childPid task a) k2 ∧ Same (fun _ => False) m.queue q2 ∧
      q2.Parked task ∧ (q2.tasks task).frame = { user.registers.frame with rax := 0 } ∧
      Inv { m with kernel := k2, queue := q2 } := by
  have halive := h.alive_current ht
  obtain ⟨-, hcurrent, -⟩ := currentTaskId_eq_some.1 ht
  have hstay : ¬ ((m.kernel.enterWaiter r.childPid task a).processExited (m.queue.tasks task).pid ∨
      (m.kernel.enterWaiter r.childPid task a).lastExitPid = (m.queue.tasks task).pid) := h.not_leaving halive
  -- the task is blocked, and another one can run
  have hsame := m.queue.same_blockTask task
  have hcurrent' := (m.queue.still_blockTask task).currentTaskId
  have hcount := (m.queue.still_blockTask task).taskCount
  rcases m.queue.blockTask_cases task with ⟨hno, -⟩ | ⟨-, -, hvalid, hstate, htasks⟩
  · simp [hblock] at hno
  rw [hblock] at hsame hcurrent' hcount htasks
  have hat : q'.tasks task = { m.queue.tasks task with state := .blocked } := by rw [htasks, update_self]
  have hnext : ∃ u, (q'.tasks u).Runnable ∧ u.val < q'.taskCount := by
    rcases hstate with hready | ⟨-, u, hu, hlt⟩
    · simp [hrun] at hready
    have hne : u ≠ task := by
      intro hne
      rw [hne, Task.Runnable, hrun] at hu
      cases hu.1
    refine ⟨u, ?_, by rw [hcount]; exact hlt⟩
    rwa [htasks, update_of_ne hne]
  generalize hframe : ({ user.registers.frame with rax := 0 } : Frame) = frame
  have hcs : frame.cs &&& 3 = 3 := by
    rw [← hframe]
    exact user.registers.cs
  obtain ⟨hswitch, hparks⟩ := q'.onBlockedSyscall_cases frame
  obtain ⟨hdone, hparked, hsaved⟩ := hparks task (hcurrent'.trans ht) (by rw [hat]; exact hvalid) (by rw [hat]) hcs hnext
  have hq2 := hsame.trans hswitch
  -- no signal is delivered on the way
  have hd : ({ m with kernel := m.kernel.enterWaiter r.childPid task a, queue := q' } : Machine).deliver
      (m.queue.tasks task).pid (user.spaces (m.queue.tasks task).pid) frame =
      (false, { m with
        kernel := (m.kernel.enterWaiter r.childPid task a).setContexts (m.kernel.enterWaiter r.childPid task a).context
        queue := q' }) := by
    have hnone := Core.deliverPending_quiet (c := ⟨m.kernel.personas, user.spaces (m.queue.tasks task).pid, frame⟩)
      (h.settled.fixed (m.queue.tasks task).pid) hquiet
    unfold deliver
    rw [show (m.kernel.enterWaiter r.childPid task a).personas = m.kernel.personas from rfl, hnone]
    rfl
  have halike := alike_setContexts (h.settled.tables.enterWaiter r.childPid task a) .same
  have hentered : Inv { m with
      kernel := m.kernel.enterWaiter r.childPid task a, queue := (q'.onBlockedSyscall frame).2.2 } := by
    refine (h.still hq2).enterWaiter hr hparked ((hq2.pid task).trans hparent.symm) ?_ a
    intro u r' a' hu hr' hw
    rw [hq2.pid] at hr'
    exact (h.waiter u r' task a' ((hq2.alive u).1 hu) hr' hw).1.2 hcurrent
  refine ⟨_, (q'.onBlockedSyscall frame).2.2, (q'.onBlockedSyscall frame).2.1, ?_, halike, hq2, hparked, hsaved,
    hentered.alike halike⟩
  have hblocked : ¬ (q'.tasks task).state ≠ .blocked := by rw [hat]; simp
  unfold complete
  rw [if_neg hstay, hframe, hd]
  simp only [Bool.false_eq_true, if_false, if_neg hblocked, blockedFrame]
  unfold switchBlocked
  rcases hswitched : q'.onBlockedSyscall frame with ⟨done, f, q2⟩
  rw [hswitched] at hdone
  subst hdone
  rfl

end Inv

/-! ## Effects -/

/-- What a step can do. -/
inductive Effect (m : Machine) : List Event → Machine → Prop
  | plain {m' : Machine} {woken : TaskId → Prop} (hk : Alike m.kernel m'.kernel)
      (hq : Same woken m.queue m'.queue) (hw : ∀ t, woken t → ¬ m.WaitsForChild t) (hl : m'.leader = m.leader) :
      Effect m [] m'
  | spawned {m' : Machine} {pid : UInt32} {kind : ChildKind} {parent : Context} {k : Kernel} {q : Runqueue} {t : TaskId}
      {runtimeToken entryToken : UInt32} {frame : Frame} (hu : m.kernel.Unnamed m.kernel.nextClonePid)
      (hready : m.kernel.personas.ready pid = some parent) (hk : m.kernel.Spawned pid kind (forkContext parent) k)
      (hq : m.queue.registerProcessFrame m.kernel.nextClonePid runtimeToken entryToken frame = (some t, q))
      (ha : After { m with kernel := k, queue := q } m') : Effect m [.spawned (some pid) m.kernel.nextClonePid] m'
  | launched {k : Kernel} {q : Runqueue} {t : TaskId} {runtimeToken entryToken : UInt32} {frame : Frame}
      (hu : m.kernel.Unnamed m.kernel.nextClonePid) (hk : m.kernel.Launched k)
      (hq : reset.registerProcessFrame m.kernel.nextClonePid runtimeToken entryToken frame = (some t, q)) :
      Effect m [.spawned none m.kernel.nextClonePid]
        { kernel := k, queue := (q.start t).2, leader := some m.kernel.nextClonePid }
  /-- A launch that fails late has emptied the run queue. -/
  | emptied {k : Kernel} (hk : m.kernel.Unchanged k) : Effect m [] { m with kernel := k, queue := .reset }
  | reaped {m' : Machine} {task : TaskId} {r : CloneRecord} {e : ExitRecord} {a : UInt64} {written : Bool} {k : Kernel}
      (hcurrent : m.queue.currentTaskId = some task) (hr : m.kernel.cloneOf r.childPid = some r)
      (hparent : r.parentPid = (m.queue.tasks task).pid) (he : m.kernel.exitOf r.childPid = some e)
      (hk : m.kernel.Clears r.childPid k) (ha : After { m with kernel := k } m') :
      Effect m [.reaped ⟨(m.queue.tasks task).pid, r.childPid, statusForExit e.exitCode, a, written⟩] m'
  | waits {m' : Machine} {task : TaskId} {r : CloneRecord} {waitPid a : UInt64}
      (hcurrent : m.queue.currentTaskId = some task) (hr : m.kernel.cloneOf r.childPid = some r)
      (hparent : r.parentPid = (m.queue.tasks task).pid) (hany : waitPid = waitAny ∨ waitPid = r.childPid.toUInt64)
      (hnone : ∀ c r', m.kernel.cloneOf c = some r' → waitMatches (m.queue.tasks task).pid waitPid r' = true →
        m.kernel.exitOf c = none)
      (hk : Alike (m.kernel.enterWaiter r.childPid task a) m'.kernel)
      (hq : Same (fun _ => False) m.queue m'.queue) (hparked : m'.queue.Parked task)
      (hframe : (m'.queue.tasks task).frame.rdi = waitPid) (hl : m'.leader = m.leader) : Effect m [] m'
  | exited {m' : Machine} {task : TaskId} {code : UInt32} {k : Kernel} (hcurrent : m.queue.currentTaskId = some task)
      (hexits : m.kernel.Exits (m.queue.tasks task).pid code k)
      (hwaiter : ∀ r, m.kernel.cloneOf (m.queue.tasks task).pid = some r → r.waiter = none)
      (hleader : m.leader ≠ some (m.queue.tasks task).pid) (hk : Alike k m'.kernel)
      (hq : m.queue.Ends task m'.queue) (hl : m'.leader = m.leader) :
      Effect m [.exited (m.queue.tasks task).pid code] m'
  | exitedWaited {m' : Machine} {task w : TaskId} {code : UInt32} {k k' : Kernel} {r : CloneRecord} {a : UInt64}
      {written : Bool} (hcurrent : m.queue.currentTaskId = some task)
      (hexits : m.kernel.Exits (m.queue.tasks task).pid code k)
      (hr : m.kernel.cloneOf (m.queue.tasks task).pid = some r) (hwaiter : r.waiter = some (w, a))
      (hclears : k.Clears (m.queue.tasks task).pid k') (hk : Alike k' m'.kernel)
      (hq : (m.queue.wakeTaskWithResult w (m.queue.tasks task).pid.toUInt64).2.Ends task m'.queue)
      (hl : m'.leader = m.leader) :
      Effect m [.exited (m.queue.tasks task).pid code,
        .reaped ⟨r.parentPid, (m.queue.tasks task).pid, statusForExit code, a, written⟩] m'
  /-- The launched process has exited. -/
  | ended {task : TaskId} {code : UInt32} {k : Kernel} (hcurrent : m.queue.currentTaskId = some task)
      (hexits : m.kernel.Exits (m.queue.tasks task).pid code k) (hleader : m.leader = some (m.queue.tasks task).pid) :
      Effect m [.exited (m.queue.tasks task).pid code]
        { kernel := k.endSession (m.queue.tasks task).pid, queue := .reset, leader := none }

variable {m m' : Machine}

/-! ### The invariant after an effect -/

theorem eq_of_leader (h : m'.leader = m.leader) : m' = { m with kernel := m'.kernel, queue := m'.queue } := by
  rw [← h]

theorem Inv.after (h : m.Inv) (ha : m.After m') : m'.Inv := by
  obtain ⟨hk, hq, hl⟩ := ha
  rw [eq_of_leader hl]
  exact (h.alike hk).still hq

theorem inv_effect {es : List Event} (h : m.Inv) (he : m.Effect es m') : m'.Inv := by
  cases he with
  | @plain _ woken hk hq hw hl =>
    rw [eq_of_leader hl]
    refine (h.alike hk).same hq ?_
    rintro t ht ⟨c, r, a, hr, hrest⟩
    exact hw t ht ⟨c, r, a, by rw [← hk.cloneOf]; exact hr, hrest⟩
  | @spawned _ pid kind parent _ _ _ _ _ _ hu hready hk hq ha =>
    have hfixed : (forkContext parent).Fixed := h.settled.fixed pid parent (ready_eq_some.1 hready).2.2.1
    exact (h.spawned hu hfixed hk hq).after ha
  | launched hu hk hq => exact h.started hu hk hq
  | emptied hk =>
    apply Inv.of_settled (h.settled.alike hk.alike)
    intro p hp
    rw [hk.context]
    exact h.leaderLive p hp
  | reaped hcurrent hr hparent he hk ha => exact (h.clears he hk).after ha
  | @waits _ task r waitPid a hcurrent hr hparent hany hnone hk hq hparked hframe hl =>
    rw [eq_of_leader hl]
    have hentered : Inv { m with kernel := m.kernel.enterWaiter r.childPid task a, queue := m'.queue } := by
      refine (h.still hq).enterWaiter hr hparked ((hq.pid task).trans hparent.symm) ?_ a
      intro u r' a' hu hr' hw
      rw [hq.pid] at hr'
      exact (h.waiter u r' task a' ((hq.alive u).1 hu) hr' hw).1.2 (currentTaskId_eq_some.1 hcurrent).2.1
    exact hentered.alike hk
  | @exited _ task code k hcurrent hexits hwaiter hleader hk hq hl =>
    rw [eq_of_leader hl]
    have hbase := (h.owner task (h.alive_current hcurrent)).2.1
    have hended : Inv { m with kernel := k, queue := m'.queue } := by
      refine h.ended hcurrent (h.settled.exits hbase hexits) hexits.lastExitPid ?_ (.refl (fun _ => False) m.queue)
        (fun _ hf => hf.elim) hleader hq
      intro x hx hsome
      exact ⟨by rw [hexits.isSome_context hx, hsome], by rw [cloneOf, hexits.cloneRecords, cloneOf]⟩
    exact hended.alike hk
  | @exitedWaited _ task w code k k2 r a written hcurrent hexits hr hwaiter hclears hk hq hl =>
    rw [eq_of_leader hl]
    have halive := h.alive_current hcurrent
    have hbase := (h.owner task halive).2.1
    have hleader : m.leader ≠ some (m.queue.tasks task).pid := by
      intro hleader
      simp [(h.leader task halive).2 hleader] at hr
    have hended : Inv { m with kernel := k2, queue := m'.queue } := by
      refine h.ended hcurrent ((h.settled.exits hbase hexits).clears hclears)
        (hclears.lastExitPid.trans hexits.lastExitPid) ?_ (m.queue.same_wakeTaskWithResult w _) ?_ hleader hq
      · intro x hx hsome
        rw [hclears.context, if_neg hx, hexits.isSome_context hx, hclears.cloneOf, if_neg hx, cloneOf,
          hexits.cloneRecords]
        exact ⟨hsome, rfl⟩
      · intro w' hw'
        rw [hw']
        exact ⟨r, a, hr, hwaiter⟩
    exact hended.alike hk
  | @ended task code k hcurrent hexits hleader =>
    have halive := h.alive_current hcurrent
    have hbase := (h.owner task halive).2.1
    have hclone : k.cloneOf (m.queue.tasks task).pid = none := by
      rw [cloneOf, hexits.cloneRecords]
      exact (h.leader task halive).2 hleader
    refine Inv.of_settled ((h.settled.exits hbase hexits).endSession hbase hclone) ?_
    intro p hp
    cases hp

/-! ### Every step has an effect -/

namespace Inv

variable {task : TaskId}

theorem effect_after {m' : Machine} (ha : m.After m') : m.Effect [] m' :=
  .plain ha.kernel ha.queue (fun _ hf => hf.elim) ha.leader

section

variable (h : m.Inv)
include h

section

variable (hcurrent : m.queue.currentTaskId = some task) {o : Outcome}
include hcurrent

/-- A call that leaves the records and the tasks as they are. -/
theorem effect_plain (ha : m.After o.machine) (user : User) :
    m.Effect [] (complete o task (m.queue.tasks task).pid user) := by
  have halive := (ha.queue.alive task).2 (h.alive_current hcurrent)
  exact effect_after (ha.trans (.complete (h.after ha) halive (ha.queue.pid task) rfl user))

/-- `fork` and `clone` -/
theorem effect_spawns
    (hu : m.kernel.Unnamed m.kernel.nextClonePid) {kind : ChildKind} {result : UInt64} {k : Kernel} {q : Runqueue}
    (hs : Spawns m.kernel m.queue (m.queue.tasks task).pid kind (result, k, q)) (user : User) :
    m.Effect (if failed result then [] else [.spawned (some (m.queue.tasks task).pid) result.toUInt32])
      (complete { machine := { m with kernel := k, queue := q }, result } task (m.queue.tasks task).pid user) := by
  cases hs with
  | refused hfailed hk =>
    rw [if_pos hfailed]
    exact h.effect_plain hcurrent ⟨hk.alike, .refl _ _, rfl⟩ user
  | @made context _ _ t _ _ frame hready hk hq =>
    have hfixed : (forkContext context).Fixed := h.settled.fixed _ context (ready_eq_some.1 hready).2.2.1
    have hinv := h.spawned hu hfixed hk hq
    -- the caller keeps its task
    obtain ⟨hslot, htasks, -⟩ := h.registered hq
    have hsame : q.tasks task = m.queue.tasks task := by
      have hne : task ≠ t := by
        intro hne
        exact hslot (hne ▸ h.alive_current hcurrent)
      rw [htasks, update_of_ne hne]
    rw [if_neg (by rw [failed_pid]; simp), UInt32.toUInt32_toUInt64]
    refine .spawned hu hready hk hq (.complete hinv ?_ ?_ rfl user)
    · rw [hsame]
      exact h.alive_current hcurrent
    · rw [hsame]

/-- `exit` and `exit_group` -/
theorem effect_exit {code : UInt32} (ho : Exiting m (m.queue.tasks task).pid code o) (user : User) :
    m.Effect ((if failed o.result then [] else [.exited (m.queue.tasks task).pid code]) ++
      (o.reap.map Event.reaped).toList) (complete o task (m.queue.tasks task).pid user) := by
  cases ho with
  | refused => exact h.effect_plain hcurrent ⟨.refl h.settled.tables, .refl _ _, rfl⟩ user
  | @unwaited k hexits hwaiter =>
    unfold complete
    rw [if_pos (Or.inr hexits.lastExitPid)]
    by_cases hleader : m.leader = some (m.queue.tasks task).pid
    · unfold leave
      rw [if_pos hleader]
      exact .ended hcurrent hexits hleader
    · obtain ⟨hk, hq, hl⟩ := leave_cases { m with kernel := k } hexits.tables hcurrent hleader user.spaces
        { user.registers.frame with rax := 0 }
      exact .exited hcurrent hexits hwaiter hleader hk hq hl
  | @waited k k' r w a written hexits hr hwaiter hclears =>
    have hleader : m.leader ≠ some (m.queue.tasks task).pid := by
      intro hleader
      simp [(h.leader task (h.alive_current hcurrent)).2 hleader] at hr
    have hwoken := (m.queue.still_wakeTaskWithResult w (m.queue.tasks task).pid.toUInt64).currentTaskId.trans hcurrent
    unfold complete
    rw [if_pos (Or.inr (hclears.lastExitPid.trans hexits.lastExitPid))]
    obtain ⟨hk, hq, hl⟩ := leave_cases
      { m with kernel := k', queue := (m.queue.wakeTaskWithResult w (m.queue.tasks task).pid.toUInt64).2 } hclears.tables
      hwoken hleader user.spaces { user.registers.frame with rax := 0 }
    exact .exitedWaited hcurrent hexits hr hwaiter hclears hk hq hl

theorem effect_wait4 (user : User) (writable : Bool) :
    m.Effect (((m.body task (m.queue.tasks task).pid user (.wait4 writable)).reap.map Event.reaped).toList)
      (complete (m.body task (m.queue.tasks task).pid user (.wait4 writable)) task (m.queue.tasks task).pid user) := by
  have hwaits := wait4_waits h.settled.tables m.queue (m.queue.tasks task).pid user.registers.frame.rdi
    user.registers.frame.rsi user.registers.frame.rdx user.registers.frame.r10 writable
  unfold body
  simp only
  generalize m.kernel.wait4 m.queue (m.queue.tasks task).pid user.registers.frame.rdi user.registers.frame.rsi
    user.registers.frame.rdx user.registers.frame.r10 writable = w at *
  cases hwaits with
  | refused result => exact h.effect_plain hcurrent ⟨.refl h.settled.tables, .refl _ _, rfl⟩ user
  | @reaped r e hr hparent he =>
    have hbase := (h.settled.child r.childPid r hr).1
    have hclears := clears_releaseClone h.settled.tables hbase
    have hinv := h.clears he hclears
    exact .reaped hcurrent hr hparent he hclears (.complete hinv (h.alive_current hcurrent) rfl rfl user)
  | @blocked r hr hparent hany hnone hquiet =>
    rcases m.kernel.wait4Block_cases m.queue (m.queue.tasks task).pid r user.registers.frame.rsi with
      ⟨q', hq, -, heq⟩ | ⟨task', q', hcurrent', hpid, hrun, hwaiter, hblock, heq⟩
    · rw [heq]
      exact h.effect_plain hcurrent ⟨.refl h.settled.tables, hq, rfl⟩ user
    obtain rfl := Option.mem_unique hcurrent hcurrent'
    rw [heq]
    obtain ⟨k2, q2, frame, hcomplete, hk, hq, hparked, hframe, hinv⟩ :=
      h.blocks hcurrent hr hparent hrun hblock hquiet user.registers.frame.rsi user
    have ha := After.deliverOnResume hinv.settled.tables user.spaces frame
    rw [hcomplete]
    refine .waits hcurrent hr hparent hany hnone (hk.trans ha.kernel) (hq.trans ha.queue) ?_ ?_ ha.leader
    · rwa [deliverOnResume_queue]
    · rw [deliverOnResume_queue]
      rw [hframe]

end

/-- A call that changes contexts only. -/
theorem after_signalCall {f : Core → UInt64 × Personas} (hf : ∀ c : Core, c.personas.Change (f c).2) (user : User)
    (pid : UInt32) : m.After (m.signalCall f user pid).machine :=
  ⟨alike_setContexts h.settled.tables (hf ⟨m.kernel.personas, user.spaces pid, user.registers.frame⟩),
    .refl _ _, rfl⟩

/-- `read` and `write` -/
theorem after_io (task : TaskId) (pid : UInt32) (number : UInt64) (op : Io) :
    m.After (m.io task pid number op).machine ∧ (m.io task pid number op).reap = none := by
  cases op with
  | done count => exact ⟨⟨.refl h.settled.tables, .refl _ _, rfl⟩, rfl⟩
  | wait otherwise =>
    have hq := m.queue.same_blockTask task
    unfold io
    rcases hblock : m.queue.blockTask task with ⟨done, q⟩
    rw [hblock] at hq
    cases done
    · exact ⟨⟨.refl h.settled.tables, hq, rfl⟩, rfl⟩
    simp only
    split
    · exact ⟨⟨.refl h.settled.tables, hq, rfl⟩, rfl⟩
    · exact ⟨⟨.refl h.settled.tables, hq, rfl⟩, rfl⟩
  | refused pipeWrite =>
    cases pipeWrite with
    | false => exact ⟨⟨.refl h.settled.tables, .refl _ _, rfl⟩, rfl⟩
    | true =>
      exact ⟨⟨alike_setContexts h.settled.tables (m.kernel.personas.change_markSignalPending pid sigpipe),
        .refl _ _, rfl⟩, rfl⟩

theorem effect_call (hcurrent : m.queue.currentTaskId = some task) (user : User) (c : Call)
    (ho : m.Orderly (.call user c)) :
    m.Effect (callEvents (m.queue.tasks task).pid (m.body task (m.queue.tasks task).pid user c).result c ++
        ((m.body task (m.queue.tasks task).pid user c).reap.map Event.reaped).toList)
      (complete (m.body task (m.queue.tasks task).pid user c) task (m.queue.tasks task).pid user) := by
  have hplain := fun {o} (ha : m.After (Outcome.machine o)) => h.effect_plain hcurrent ha user
  cases c with
  | fork s =>
    have hs := fork_spawns h.settled.tables ho m.queue (m.queue.tasks task).pid s
    exact (List.append_nil _).symm ▸ h.effect_spawns hcurrent ho hs user
  | clone s =>
    have hs := clone_spawns h.settled.tables ho m.queue (m.queue.tasks task).pid s
    exact (List.append_nil _).symm ▸ h.effect_spawns hcurrent ho hs user
  | execve s => exact hplain ⟨(execve_unchanged h.settled.tables _ s).alike, .refl _ _, rfl⟩
  | exit code | exitGroup code => exact h.effect_exit hcurrent (h.exiting (h.alive_current hcurrent) user code) user
  | wait4 writable => exact h.effect_wait4 hcurrent user writable
  | rtSigaction n act oldact size =>
    exact hplain (h.after_signalCall (fun c => c.change_rtSigaction _ n act oldact size) user _)
  | rtSigprocmask how set oldset size =>
    exact hplain (h.after_signalCall (fun c => c.change_rtSigprocmask _ how set oldset size) user _)
  | kill target n => exact hplain (h.after_signalCall (fun c => c.personas.change_signalTranslate _ target n) user _)
  | rtSigreturn =>
    have hchange := Core.change_rtSigreturn
      ⟨m.kernel.personas, user.spaces (m.queue.tasks task).pid, user.registers.frame⟩ (m.queue.tasks task).pid
    exact hplain ⟨alike_setContexts h.settled.tables hchange, .refl _ _, rfl⟩
  | read op =>
    obtain ⟨ha, hreap⟩ := h.after_io task (m.queue.tasks task).pid 0 op
    simp only [body, hreap]
    exact hplain ha
  | write op =>
    obtain ⟨ha, hreap⟩ := h.after_io task (m.queue.tasks task).pid 1 op
    simp only [body, hreap]
    exact hplain ha
  | block result => exact hplain ⟨.refl h.settled.tables, m.queue.same_blockTask task, rfl⟩

theorem effect_launch (hu : m.kernel.Unnamed m.kernel.nextClonePid) (s : LaunchSetup) :
    m.Effect (m.events (.launch s)) (m.launch s) := by
  have hlaunching := launching h.settled.tables hu s
  simp only [events]
  generalize m.launch s = m' at *
  cases hlaunching with
  | refused hk hq =>
    rcases hq with rfl | rfl
    · rw [if_neg (by simp)]
      exact effect_after ⟨hk.alike, .refl _ _, rfl⟩
    · rw [if_neg (by simp [reset])]
      exact .emptied hk
  | started hidle hk hq =>
    rw [if_pos (by simp [hidle, (start_first hq).1])]
    exact .launched hu hk hq

theorem effect_step (s : Step) (ho : m.Orderly s) : m.Effect (m.events s) (m.step s) := by
  cases s with
  | launch s => exact h.effect_launch ho s
  | call user c =>
    unfold events step call
    cases hcurrent : m.queue.currentTaskId with
    | none => exact effect_after ⟨.refl h.settled.tables, .refl _ _, rfl⟩
    | some task => exact h.effect_call hcurrent user c ho
  | timer registers expired =>
    refine .plain (.refl h.settled.tables) (m.queue.same_onTimer registers.frame expired) ?_ rfl
    rintro t ⟨e, he, rfl⟩
    exact ho e he
  | wake t result =>
    refine .plain (.refl h.settled.tables) (m.queue.same_wakeTaskWithResult t result) ?_ rfl
    intro t' ht'
    rwa [ht']

end

end Inv

theorem inv_step (s : Step) (h : m.Inv) (ho : m.Orderly s) : (m.step s).Inv := inv_effect h (h.effect_step s ho)

/-- The invariant holds in every state that orderly steps reach. -/
theorem inv_run {steps : List Step} (h : Meets step Orderly m steps) (hm : m.Inv) : (steps.foldl step m).Inv :=
  h.invariant (fun _ s hi ho => inv_step s hi ho) hm

/-! ## Inputs -/

/-- The registers of a program at a call: `rdi` and `rdx` are the pid and the options of a `wait4`. -/
def programFrame (rdi rdx : UInt64) : Frame :=
  { clearFrame with rdi, rdx, rip := 0x44000000, cs := 0x23, rflags := 0x202, rsp := 0x44000800, ss := 0x1B }

theorem programFrame_cs (rdi rdx : UInt64) : (programFrame rdi rdx).cs &&& 3 = 3 := by
  show (0x23 : UInt64) &&& 3 = 3
  decide

theorem programFrame_ss (rdi rdx : UInt64) : (programFrame rdi rdx).ss &&& 3 = 3 := by
  show (0x1B : UInt64) &&& 3 = 3
  decide

def programRegisters (rdi rdx : UInt64) : UserFrame :=
  ⟨programFrame rdi rdx, programFrame_cs rdi rdx, programFrame_ss rdi rdx⟩

/-- A call of a program that has no memory a signal frame could be put in. -/
def programUser (rdi rdx : UInt64) : User :=
  ⟨programRegisters rdi rdx, fun _ => ⟨fun _ => none, .empty, fun _ => 0⟩⟩

def programEntry : Entry := ⟨1, 1, programFrame 0 0⟩

theorem runqueueTaskLimit_pos : 0 < runqueueTaskLimit := by decide

/-- The task of a process that is launched. -/
def firstTask : TaskId := ⟨0, runqueueTaskLimit_pos⟩

def launchStep : Step := .launch ⟨1, programEntry, true, true, true⟩
def forkStep : Step := .call (programUser 0 0) (.fork ⟨programEntry, true, true, true, true, true⟩)
def exitStep (code : UInt64) : Step := .call (programUser 0 0) (.exit code)
def waitStep (pid options : UInt64) : Step := .call (programUser pid options) (.wait4 true)
def timerStep : Step := .timer (programRegisters 0 0) []

end Machine

end LimitlessOS.Process
