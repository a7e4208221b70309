/-
  LimitlessOS.Process.Waiting — parents that wait for any child.

  A `wait4` for any child blocks with its task entered in the first clone record of the
  process, and the exit of a child looks only into the child's own record. An exit is
  `Answered` if the parent does not wait for any child, or is entered in that record.

  Proved, for runs of orderly steps whose exits are all answered:
  - `attentive_run`: a parent that waits for any child has no child that has exited.
  - `answered_of_run`: the same in every state that is reached; and the first child that
    exits wakes the parent, with its pid and its status.

  `answered_fails`: of two children the second exits first, and its parent sleeps on.
-/
import LimitlessOS.Process.Effects

namespace LimitlessOS.Process

open Lib Signal Sched Kernel Runqueue List Option Task Function

namespace Machine

variable {m : Machine} {c code : UInt32} {t : TaskId}

/-- The task is blocked in a `wait4` for any child. -/
@[mk_iff] structure WaitsForAny (m : Machine) (t : TaskId) : Prop where
  blocked : (m.queue.tasks t).state = .blocked
  entered : m.WaitsForChild t
  any : (m.queue.tasks t).frame.rdi = waitAny

instance (m : Machine) (t : TaskId) : Decidable (m.WaitsForAny t) := decidable_of_iff _ (waitsForAny_iff m t).symm

theorem WaitsForAny.alive (h : m.WaitsForAny t) : (m.queue.tasks t).Alive := .inr (.inr h.blocked)

/-- If the parent of the current process waits for any child, it is entered in the record of this one. -/
def Expected (m : Machine) : Prop :=
  ∀ task, m.queue.currentTaskId = some task → ∀ r, m.kernel.cloneOf (m.queue.tasks task).pid = some r →
    ∀ t, r.parentPid = (m.queue.tasks t).pid → m.WaitsForAny t → r.waiter.any (fun w => w.1 = t) = true

instance (m : Machine) : Decidable m.Expected :=
  inferInstanceAs (Decidable (∀ _, _ → ∀ _, _ → ∀ _, _ → _ → _))

/-- A process exits only if a parent that waits for any child is entered in its record. -/
def Answered (m : Machine) : Step → Prop
  | .call _ (.exit _) => m.Expected
  | .call _ (.exitGroup _) => m.Expected
  | _ => True

/-- The step is an exit. -/
def exits : Step → Bool
  | .call _ (.exit _) => true
  | .call _ (.exitGroup _) => true
  | _ => false

instance (m : Machine) (s : Step) : Decidable (m.Answered s) :=
  decidable_of_iff (exits s = true → m.Expected) <| by
    fun_cases exits s <;> simp [Answered]

/-- The children of the tasks that live. -/
structure Attentive (m : Machine) : Prop where
  /-- A child that has not exited has a task. -/
  lives : ∀ c r t, m.kernel.cloneOf c = some r → (m.queue.tasks t).Alive → r.parentPid = (m.queue.tasks t).pid →
    m.kernel.exitOf c = none → ∃ u, (m.queue.tasks u).Alive ∧ (m.queue.tasks u).pid = c
  /-- Nobody is entered in the record of a child that has exited. -/
  entered : ∀ c r t a, m.kernel.cloneOf c = some r → (m.queue.tasks t).Alive → r.parentPid = (m.queue.tasks t).pid →
    r.waiter = some (t, a) → m.kernel.exitOf c = none
  told : ∀ c r t, m.kernel.cloneOf c = some r → (m.queue.tasks t).Alive → r.parentPid = (m.queue.tasks t).pid →
    m.WaitsForChild t → (m.queue.tasks t).frame.rdi = waitAny → m.kernel.exitOf c = none

namespace Attentive

/-- No task has a child. -/
theorem of_childless
    (h : ∀ c r t, m.kernel.cloneOf c = some r → (m.queue.tasks t).Alive → r.parentPid ≠ (m.queue.tasks t).pid) :
    m.Attentive where
  lives c r t hr ht hp := absurd hp (h c r t hr ht)
  entered c r t _ hr ht hp := absurd hp (h c r t hr ht)
  told c r t hr ht hp := absurd hp (h c r t hr ht)

theorem of_reset (k : Kernel) (leader : Option UInt32) : Attentive { kernel := k, queue := .reset, leader } := by
  apply of_childless
  intro c r t hr ht
  simp [reset, clear, Alive] at ht

/-- A task that is entered in a record is parked, and the child has a task. -/
theorem parked (h : m.Attentive) (hm : m.Inv) {c : UInt32} {r : CloneRecord} {t : TaskId} {a : UInt64}
    (hr : m.kernel.cloneOf c = some r) (ht : (m.queue.tasks t).Alive) (hparent : r.parentPid = (m.queue.tasks t).pid)
    (hw : r.waiter = some (t, a)) :
    m.queue.Parked t ∧ ∃ u, (m.queue.tasks u).Alive ∧ (m.queue.tasks u).pid = c := by
  obtain ⟨u, hu, hpid⟩ := h.lives c r t hr ht hparent (h.entered c r t a hr ht hparent hw)
  exact ⟨(hm.waiter u r t a hu (hpid ▸ hr) hw).1, u, hu, hpid⟩

/-- The record names a task that lives as the parent. -/
structure Child (m : Machine) (c : UInt32) (r : CloneRecord) (t : TaskId) : Prop where
  record : m.kernel.cloneOf c = some r
  alive : (m.queue.tasks t).Alive
  parent : r.parentPid = (m.queue.tasks t).pid

variable {k' : Kernel} {q' : Runqueue}

section

variable (h : m.Attentive) {woken : TaskId → Prop} {m' : Machine}
include h

/-- A child was there before, just so; or nobody is entered in its record, and it is new or has exited. -/
theorem of_old
    (hlive : ∀ u r, (m.queue.tasks u).Alive → m'.kernel.cloneOf (m.queue.tasks u).pid = some r →
      m'.kernel.exitOf (m.queue.tasks u).pid = none → (m'.queue.tasks u).Alive ∧ (m'.queue.tasks u).pid = (m.queue.tasks u).pid)
    (hchild : ∀ c r t, Child m' c r t →
      Child m c r t ∧ m'.kernel.exitOf c = m.kernel.exitOf c ∧
          (∀ a, r.waiter = some (t, a) → (m'.queue.tasks t).frame = (m.queue.tasks t).frame) ∨
        r.waiter = none ∧ (m'.kernel.exitOf c = none → ∃ u, (m'.queue.tasks u).Alive ∧ (m'.queue.tasks u).pid = c) ∧
          (m.WaitsForChild t → (m.queue.tasks t).frame.rdi = waitAny → m'.kernel.exitOf c = none)) : m'.Attentive := by
  refine ⟨?_, ?_, ?_⟩
  · intro c r t hr ht hp he
    rcases hchild c r t ⟨hr, ht, hp⟩ with ⟨hc, hexit, -⟩ | ⟨-, hnew, -⟩
    · obtain ⟨u, hu, rfl⟩ := h.lives c r t hc.record hc.alive hc.parent (hexit.symm.trans he)
      exact ⟨u, hlive u r hu hr he⟩
    · exact hnew he
  · intro c r t a hr ht hp hw
    rcases hchild c r t ⟨hr, ht, hp⟩ with ⟨hc, hexit, -⟩ | ⟨hnone, -⟩
    · exact hexit.trans (h.entered c r t a hc.record hc.alive hc.parent hw)
    · simp [hnone] at hw
  · intro c r t hr ht hp hwaits hany
    obtain ⟨c', r', a, hr', hw, hp'⟩ := hwaits
    rcases hchild c' r' t ⟨hr', ht, hp'⟩ with ⟨hc', -, hframe⟩ | ⟨hnone, -⟩
    · rw [hframe a hw] at hany
      have hwaits : m.WaitsForChild t := ⟨c', r', a, hc'.record, hw, hc'.parent⟩
      rcases hchild c r t ⟨hr, ht, hp⟩ with ⟨hc, hexit, -⟩ | ⟨-, -, hnew⟩
      · exact hexit.trans (h.told c r t hc.record hc.alive hc.parent hwaits hany)
      · exact hnew hwaits hany
    · simp [hnone] at hw

theorem alike (ha : Alike m.kernel k') : Attentive { m with kernel := k' } := by
  refine h.of_old (fun u r hu _ _ => ⟨hu, rfl⟩) ?_
  intro c r t hc
  exact .inl ⟨⟨(ha.cloneOf c).symm.trans hc.record, hc.alive, hc.parent⟩, ha.exitOf c, fun _ _ => rfl⟩

theorem same (hm : m.Inv) (hs : Same woken m.queue q') (hw : ∀ t, woken t → ¬ m.WaitsForChild t) :
    Attentive { m with queue := q' } := by
  refine h.of_old (fun u r hu _ _ => ⟨(hs.alive u).2 hu, hs.pid u⟩) ?_
  intro c r t hc
  have hc0 : Child m c r t := ⟨hc.record, (hs.alive t).1 hc.alive, hc.parent.trans (hs.pid t)⟩
  refine .inl ⟨hc0, rfl, ?_⟩
  intro a hwaiter
  -- the task was parked, and nobody has touched it
  have hparked := (h.parked hm hc0.record hc0.alive hc0.parent hwaiter).1
  have heq := (hs.parked t (fun hwoken => hw t hwoken ⟨c, r, a, hc0.record, hwaiter, hc0.parent⟩) hparked).2
  exact congrArg frame heq

/-- The call returns, or another task is resumed. -/
theorem after (hm : m.Inv) (ha : m.After m') : m'.Attentive := by
  obtain ⟨hk, hq, hl⟩ := ha
  rw [eq_of_leader hl]
  exact (h.alike hk).same (hm.alike hk) hq fun _ hf => hf.elim

theorem spawned (hm : m.Inv) {pid : UInt32} {kind : ChildKind} {context : Context} {t : TaskId}
    {runtimeToken entryToken : UInt32} {frame : Frame}
    (hu : m.kernel.Unnamed m.kernel.nextClonePid) (hpid : pid ≠ m.kernel.nextClonePid)
    (hk : m.kernel.Spawned pid kind context k')
    (hq : m.queue.registerProcessFrame m.kernel.nextClonePid runtimeToken entryToken frame = (some t, q')) :
    Attentive { m with kernel := k', queue := q' } := by
  obtain ⟨hslot, htasks, -⟩ := hm.registered hq
  have hexit : ∀ x, k'.exitOf x = m.kernel.exitOf x := fun x => by rw [exitOf, hk.exitRecords, exitOf]
  have hold : ∀ u, u ≠ t → q'.tasks u = m.queue.tasks u := fun u hne => by rw [htasks, update_of_ne hne]
  have hnew : (q'.tasks t).Alive ∧ (q'.tasks t).pid = m.kernel.nextClonePid := by
    rw [htasks, update_self]
    exact ⟨.inl rfl, rfl⟩
  -- a record is the new one, or was there before
  have hrecord : ∀ c r, k'.cloneOf c = some r → c = m.kernel.nextClonePid ∧ r = ⟨pid, c, none⟩ ∨ m.kernel.cloneOf c = some r := by
    intro c r hr
    rw [hk.cloneOf] at hr
    split_ifs at hr with hc
    · exact .inl ⟨hc, by rw [← some.inj hr, hc]⟩
    · exact .inr hr
  -- the new process has no child
  have hparent : ∀ c r u, k'.cloneOf c = some r → r.parentPid = (q'.tasks u).pid → u ≠ t := by
    intro c r u hr hp hut
    rw [hut, hnew.2] at hp
    rcases hrecord c r hr with ⟨-, rfl⟩ | hr
    · exact hpid hp
    · exact hu.parent c r hr hp
  refine h.of_old ?_ ?_
  · intro u r hu _ _
    have hne : u ≠ t := fun hut => hslot (hut ▸ hu)
    simp only [hold u hne, hu, and_self]
  · intro c r u hc
    have hne := hparent c r u hc.record hc.parent
    rcases hrecord c r hc.record with ⟨rfl, rfl⟩ | hr
    · exact .inr ⟨rfl, fun _ => ⟨t, hnew⟩, fun _ _ => (hexit _).trans hu.exit⟩
    · exact .inl ⟨⟨hr, hold u hne ▸ hc.alive, hold u hne ▸ hc.parent⟩, hexit c, fun _ _ => by simp only [hold u hne]⟩

/-- A child has been forgotten. -/
theorem clears {child : UInt32} (hc : m.kernel.Clears child k') : Attentive { m with kernel := k' } := by
  refine h.of_old (fun u r hu _ _ => ⟨hu, rfl⟩) ?_
  intro c r t hchild
  have hr := hchild.record
  simp only [hc.cloneOf] at hr
  split_ifs at hr with hx
  exact .inl ⟨⟨hr, hchild.alive, hchild.parent⟩, by simp only [hc.exitOf, if_neg hx], fun _ _ => rfl⟩

/-- A parent is entered in the record of a child; none that it asks for has exited. -/
theorem enterWaiter (hm : m.Inv) (task : TaskId) {r : CloneRecord} {waitPid : UInt64}
    (hr : m.kernel.cloneOf r.childPid = some r) (hany : waitPid = waitAny ∨ waitPid = r.childPid.toUInt64)
    (hnone : ∀ c r', m.kernel.cloneOf c = some r' → waitMatches (m.queue.tasks task).pid waitPid r' →
      m.kernel.exitOf c = none)
    (hframe : (m.queue.tasks task).frame.rdi = waitPid) (hparent : r.parentPid = (m.queue.tasks task).pid) (a : UInt64) :
    Attentive { m with kernel := m.kernel.enterWaiter r.childPid task a } := by
  -- a record has the same parent as before, and the same waiter unless it is the child's
  have hold : ∀ c r', (m.kernel.enterWaiter r.childPid task a).cloneOf c = some r' →
      ∃ r0, m.kernel.cloneOf c = some r0 ∧ r'.parentPid = r0.parentPid ∧
        (r'.waiter = r0.waiter ∨ r0 = r ∧ r'.waiter = some (task, a)) := by
    intro c r' hr'
    rw [cloneOf_enterWaiter hm.settled.tables] at hr'
    split_ifs at hr' with hc
    · rw [hr] at hr'
      obtain rfl := some.inj hr'
      exact ⟨r, hc ▸ hr, rfl, .inr ⟨rfl, rfl⟩⟩
    · exact ⟨r', hr', rfl, .inl rfl⟩
  refine ⟨?_, ?_, ?_⟩
  · intro c r' t hr' ht hp he
    obtain ⟨r0, hr0, hpar, -⟩ := hold c r' hr'
    exact h.lives c r0 t hr0 ht (hpar.symm.trans hp) he
  · intro c r' t a' hr' ht hp hw
    obtain ⟨r0, hr0, hpar, hwaiter | ⟨rfl, -⟩⟩ := hold c r' hr'
    · exact h.entered c r0 t a' hr0 ht (hpar.symm.trans hp) (hwaiter.symm.trans hw)
    · exact hnone c r0 hr0 (by simp [waitMatches, hparent, hany])
  · intro c r' t hr' ht hp hwaits hanyt
    obtain ⟨r0, hr0, hpar, -⟩ := hold c r' hr'
    obtain ⟨c1, r1, a1, hr1, hw1, hp1⟩ := hwaits
    obtain ⟨r2, hr2, hpar2, hwaiter | ⟨-, hwaiter⟩⟩ := hold c1 r1 hr1
    · exact h.told c r0 t hr0 ht (hpar.symm.trans hp)
        ⟨c1, r2, a1, hr2, hwaiter.symm.trans hw1, hpar2.symm.trans hp1⟩ hanyt
    -- the task that blocks now
    rw [hwaiter] at hw1
    obtain ⟨rfl, -⟩ := Prod.mk.inj (some.inj hw1)
    rw [hanyt] at hframe
    exact hnone c r0 hr0 (by simp [waitMatches, ← hframe, ← hpar, hp])

/-- The process of the current task has exited: its record is gone, or nobody that waits for any child is its parent. -/
theorem ended (hm : m.Inv) {task : TaskId} (ht : m.queue.currentTaskId = some task) {q1 : Runqueue}
    (hothers : ∀ x, x ≠ (m.queue.tasks task).pid → k'.cloneOf x = m.kernel.cloneOf x ∧ k'.exitOf x = m.kernel.exitOf x)
    (hself : ∀ r, k'.cloneOf (m.queue.tasks task).pid = some r → r.waiter = none ∧ k'.exitOf (m.queue.tasks task).pid ≠ none ∧
      ∀ t, r.parentPid = (m.queue.tasks t).pid → ¬ m.WaitsForAny t)
    (hsame : Same woken m.queue q1)
    (hwoken : ∀ w, woken w → ∃ r a, m.kernel.cloneOf (m.queue.tasks task).pid = some r ∧ r.waiter = some (w, a))
    (hends : q1.Ends task q') : Attentive { m with kernel := k', queue := q' } := by
  have halive := hm.alive_current ht
  have hpid : ∀ u, (q'.tasks u).pid = (m.queue.tasks u).pid := fun u => (hends.pid u).trans (hsame.pid u)
  have hold : ∀ u, (q'.tasks u).Alive → (m.queue.tasks u).Alive ∧ u ≠ task := by
    intro u hu
    obtain ⟨hu1, hne⟩ := (hends.alive u).1 hu
    exact ⟨(hsame.alive u).1 hu1, hne⟩
  refine h.of_old ?_ ?_
  · intro u r hu hr he
    have hne : u ≠ task := by
      rintro rfl
      exact (hself r hr).2.1 he
    exact ⟨(hends.alive u).2 ⟨(hsame.alive u).2 hu, hne⟩, hpid u⟩
  · intro c r t hchild
    have hr := hchild.record
    have hp := hchild.parent.trans (hpid t)
    obtain ⟨hta, htt⟩ := hold t hchild.alive
    by_cases hc : c = (m.queue.tasks task).pid
    · rw [hc] at hr ⊢
      obtain ⟨hnone, hexit, hwaits⟩ := hself r hr
      refine .inr ⟨hnone, fun he => absurd he hexit, ?_⟩
      intro hw hany
      obtain ⟨c1, r1, a1, hr1, hw1, hp1⟩ := hw
      exact absurd ⟨(h.parked hm hr1 hta hp1 hw1).1.1, ⟨c1, r1, a1, hr1, hw1, hp1⟩, hany⟩ (hwaits t hp)
    simp only [(hothers c hc).1] at hr
    refine .inl ⟨⟨hr, hta, hp⟩, (hothers c hc).2, ?_⟩
    intro a hw
    -- the parent was parked, and waited for another child: it has not been woken
    obtain ⟨hparked, u, hu, huc⟩ := h.parked hm hr hta hp hw
    have hnot : ¬ woken t := by
      intro hwoke
      obtain ⟨r2, a2, hr2, hw2⟩ := hwoken t hwoke
      have hut := hm.oneWait u task r r2 t a a2 hu halive (huc ▸ hr) hr2 hw hw2
      exact hc (by rw [← huc, hut])
    obtain ⟨hparked1, heq1⟩ := hsame.parked t hnot hparked
    exact congrArg frame ((hends.parked t htt hparked1).2.trans heq1)

theorem effect (hm : m.Inv) {es : List Event} (he : m.Effect es m') (hexpected : (∃ c code, .exited c code ∈ es) → m.Expected) :
    m'.Attentive := by
  cases he with
  | plain hk hq hw hl =>
    rw [eq_of_leader hl]
    refine (h.alike hk).same (hm.alike hk) hq ?_
    rintro t ht ⟨c, r, a, hr, hrest⟩
    exact hw t ht ⟨c, r, a, by rw [← hk.cloneOf]; exact hr, hrest⟩
  | @spawned _ pid kind parent k q t _ _ _ hu hready hk hq ha =>
    obtain ⟨-, -, hcontext, -⟩ := Personas.ready_eq_some.1 hready
    have hpid : pid ≠ m.kernel.nextClonePid := by
      intro hpid
      have hnone : m.kernel.context pid = none := by rw [hpid, context, hu.proc]; rfl
      simp [show m.kernel.personas.context pid = m.kernel.context pid from rfl, hnone] at hcontext
    have hfixed : (forkContext parent).Fixed := hm.settled.fixed pid parent hcontext
    exact (h.spawned hm hu hpid hk hq).after (hm.spawned hu hfixed hk hq) ha
  | @launched k q t _ _ _ hu hk hq =>
    apply of_childless
    intro c r u hr ha hp
    obtain ⟨-, -, -, hat, hclear⟩ := start_first hq
    have hut : u = t := by
      by_contra hne
      rw [hclear u hne] at ha
      simp [clear, Alive] at ha
    rw [hut, hat] at hp
    rw [cloneOf, hk.cloneRecords] at hr
    exact hu.parent c r hr hp
  | emptied hk => exact of_reset _ _
  | reaped hcurrent hr hparent he hk ha => exact (h.clears hk).after (hm.clears he hk) ha
  | @waits _ task r waitPid a hcurrent hr hparent hany hnone hk hq hparked hframe hl =>
    rw [eq_of_leader hl]
    have hpid : (m'.queue.tasks task).pid = (m.queue.tasks task).pid := hq.pid task
    have hentered := (h.same hm hq fun _ hf => hf.elim).enterWaiter (hm.still hq) task hr hany
      (by simp only [hpid]; exact hnone) hframe (hparent.trans hpid.symm) a
    exact hentered.alike hk
  | @exited _ task code k hcurrent hexits hwaiter hleader hk hq hl =>
    rw [eq_of_leader hl]
    have hclone : ∀ x, k.cloneOf x = m.kernel.cloneOf x := fun x => by rw [cloneOf, hexits.cloneRecords, cloneOf]
    have hended : Attentive { m with kernel := k, queue := m'.queue } := by
      refine h.ended hm hcurrent ?_ ?_ (.refl (fun _ => False) m.queue) (fun _ hf => hf.elim) hq
      · intro x hx
        exact ⟨hclone x, by rw [hexits.exitOf, if_neg hx]⟩
      intro r hr
      rw [hclone] at hr
      refine ⟨hwaiter r hr, by rw [hexits.exitOf, if_pos rfl]; simp, ?_⟩
      intro t hp hwaits
      have hin := hexpected ⟨_, code, mem_cons_self ..⟩ task hcurrent r hr t hp hwaits
      simp [hwaiter r hr] at hin
    exact hended.alike hk
  | @exitedWaited _ task w code k k2 r a written hcurrent hexits hr hwaiter hclears hk hq hl =>
    rw [eq_of_leader hl]
    have hended : Attentive { m with kernel := k2, queue := m'.queue } := by
      refine h.ended hm hcurrent ?_ ?_ (m.queue.same_wakeTaskWithResult w _) ?_ hq
      · intro x hx
        rw [hclears.cloneOf, hclears.exitOf, if_neg hx, if_neg hx, hexits.exitOf, if_neg hx, cloneOf,
          hexits.cloneRecords]
        exact ⟨rfl, rfl⟩
      · intro r' hr'
        rw [hclears.cloneOf, if_pos rfl] at hr'
        cases hr'
      · intro w' hw'
        rw [hw']
        exact ⟨r, a, hr, hwaiter⟩
    exact hended.alike hk
  | ended hcurrent hexits hleader => exact of_reset _ _

end

end Attentive

/-! ## Runs -/

/-- Only exits are exits. -/
theorem expected_of_exited {s : Step} (h : .exited c code ∈ m.events s) (ha : m.Answered s) : m.Expected := by
  cases s with
  | launch s =>
    simp only [events] at h
    split_ifs at h
    · simp at h
    · cases h
  | call user call =>
    simp only [events] at h
    split at h
    · cases h
    rcases mem_append.1 h with h | h
    · cases call with
      | exit | exitGroup => exact ha
      | fork | clone =>
        simp only [callEvents] at h
        split_ifs at h
        · cases h
        · simp at h
      | _ => cases h
    · simp at h
  | timer | wake => cases h

/-- The step wakes the task, with the exit of the child. -/
structure Hears (m : Machine) (s : Step) (t : TaskId) (child code : UInt32) : Prop where
  reaped : ∃ r, .reaped r ∈ m.events s ∧ r.receiver = (m.queue.tasks t).pid ∧ r.child = child ∧
    r.status = (code &&& 0xFF) <<< 8
  awake : ((m.step s).queue.tasks t).state = .ready ∨ ((m.step s).queue.tasks t).state = .running
  returns : ((m.step s).queue.tasks t).frame.rax = child.toUInt64

theorem hears_step {s : Step} (hm : m.Inv) (ho : m.Orderly s) (hexit : .exited c code ∈ m.events s) (hexpected : m.Expected)
    {r : CloneRecord} (hr : m.kernel.cloneOf c = some r) (hp : r.parentPid = (m.queue.tasks t).pid) (hwaits : m.WaitsForAny t) :
    m.Hears s t c code := by
  have he := hm.effect_step s ho
  generalize hes : m.events s = es at he hexit
  generalize hstep : m.step s = m' at he
  cases he with
  | plain | emptied | waits => cases hexit
  | spawned | launched | reaped => simp at hexit
  | @exited _ task _ _ hcurrent _ hwaiter =>
    obtain ⟨rfl, rfl⟩ := Event.exited.inj (mem_singleton.1 hexit)
    have hin := hexpected task hcurrent r hr t hp hwaits
    simp [hwaiter r hr] at hin
  | @ended task _ _ hcurrent _ hleader =>
    obtain ⟨rfl, rfl⟩ := Event.exited.inj (mem_singleton.1 hexit)
    simp [(hm.leader task (hm.alive_current hcurrent)).2 hleader] at hr
  | @exitedWaited _ task w _ _ _ r' a _ hcurrent _ hr' hwaiter _ _ hq =>
    obtain ⟨rfl, rfl⟩ : c = (m.queue.tasks task).pid ∧ code = _ := by
      rcases mem_cons.1 hexit with heq | hexit
      · exact Event.exited.inj heq
      · simp at hexit
    obtain rfl := mem_unique hr hr'
    -- the parent is the waiter, and it is ready when the child goes
    have hin := hexpected task hcurrent r hr t hp hwaits
    rw [hwaiter] at hin
    obtain rfl : w = t := by simpa using hin
    obtain ⟨hparked, -⟩ := hm.waiter task r w a (hm.alive_current hcurrent) hr hwaiter
    have hwoken := hm.woken (hm.alive_current hcurrent) hr hwaiter (m.queue.tasks task).pid.toUInt64
    have hat : (m.queue.wakeTaskWithResult w (m.queue.tasks task).pid.toUInt64).2.tasks w =
        { m.queue.tasks w with
          state := .ready, frame := { (m.queue.tasks w).frame with rax := (m.queue.tasks task).pid.toUInt64 } } := by
      rcases m.queue.wakeTaskWithResult_cases w (m.queue.tasks task).pid.toUInt64 with ⟨heq, -⟩ | ⟨-, -, -, heq⟩
      · simp [heq] at hwoken
      · rw [heq]
        exact update_self ..
    obtain ⟨hawake, hframe⟩ := hq.ready w (hparked.ne_current hcurrent) (by rw [hat])
    refine ⟨?_, by rwa [hstep], by rw [hstep, hframe, hat]⟩
    rw [hes]
    exact ⟨_, mem_cons_of_mem _ (mem_cons_self ..), hp, rfl, rfl⟩

theorem attentive_run {steps : List Step} (h : Meets step (fun m s => m.Orderly s ∧ m.Answered s) m steps) (hm : m.Inv)
    (ha : m.Attentive) : (steps.foldl step m).Inv ∧ (steps.foldl step m).Attentive := by
  refine h.invariant (i := fun m => m.Inv ∧ m.Attentive) ?_ ⟨hm, ha⟩
  intro m s hi hs
  refine ⟨inv_step s hi.1 hs.1, hi.2.effect hi.1 (hi.1.effect_step s hs.1) ?_⟩
  rintro ⟨c, code, hmem⟩
  exact expected_of_exited hmem hs.2

theorem answered_of_run (steps : List Step)
    (h : Meets step (fun m s => m.Orderly s ∧ m.Answered s) boot steps) :
    (∀ t, (steps.foldl step boot).WaitsForAny t → ∀ c r, (steps.foldl step boot).kernel.cloneOf c = some r →
      r.parentPid = ((steps.foldl step boot).queue.tasks t).pid → (steps.foldl step boot).kernel.exitOf c = none) ∧
    ∀ before s after, steps = before ++ s :: after → ∀ t, (before.foldl step boot).WaitsForAny t →
      ∀ c code r, .exited c code ∈ (before.foldl step boot).events s → (before.foldl step boot).kernel.cloneOf c = some r →
        r.parentPid = ((before.foldl step boot).queue.tasks t).pid → (before.foldl step boot).Hears s t c code := by
  have hboot : boot.Attentive := .of_reset _ _
  constructor
  · intro t hwaits c r hr hp
    exact (attentive_run h .boot hboot).2.told c r t hr hwaits.alive hp hwaits.entered hwaits.any
  · intro before s after hsteps t hwaits c code r hexit hr hp
    rw [hsteps] at h
    obtain ⟨hbefore, hs, -⟩ := Meets.append.1 h
    exact hears_step (attentive_run hbefore .boot hboot).1 hs.1 hexit (expected_of_exited hexit hs.2) hr hp hwaits

/-- A parent waits for its only child. -/
def onlyChildRun : List Step := [launchStep, forkStep, waitStep waitAny 0]

theorem onlyChild_hears :
    (onlyChildRun.foldl step boot).WaitsForAny firstTask ∧
      (onlyChildRun.foldl step boot).Hears (exitStep 3) firstTask 0x2001 3 := by
  have hwaits : (onlyChildRun.foldl step boot).WaitsForAny firstTask := by decide +kernel
  exact ⟨hwaits, (answered_of_run (onlyChildRun ++ [exitStep 3]) (by decide +kernel)).2 onlyChildRun (exitStep 3) [] rfl
    firstTask hwaits 0x2001 3 ⟨0x2000, 0x2001, some (firstTask, 0)⟩ (by decide +kernel) (by decide +kernel) (by decide +kernel)⟩

/-- A parent waits for any of its two children, and the second exits. -/
def twoChildrenRun : List Step := [launchStep, forkStep, forkStep, waitStep waitAny 0, timerStep, exitStep 3]

theorem answered_fails :
    Meets step Orderly boot twoChildrenRun ∧ (twoChildrenRun.foldl step boot).WaitsForAny firstTask ∧
      (twoChildrenRun.foldl step boot).kernel.cloneOf 0x2002 = some ⟨0x2000, 0x2002, none⟩ ∧
      ((twoChildrenRun.foldl step boot).queue.tasks firstTask).pid = 0x2000 ∧
      (twoChildrenRun.foldl step boot).kernel.exitOf 0x2002 = some ⟨0x2002, 3⟩ := by
  decide +kernel

end Machine

end LimitlessOS.Process
