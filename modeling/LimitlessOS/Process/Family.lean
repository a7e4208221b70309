/-
  LimitlessOS.Process.Family — parents, children and their exits.

  What the records are for: a process is made with a parent, exits, and is forgotten when
  its parent has been told. `Family` says that of pids, without tables; `Kernel.family`
  reads the phase of a pid off the records, and every orderly step of the machine is a step
  of the family for each of its events.

  Proved, for runs of orderly steps:
  - `trace_history`: the events of a run are a run of the family.
  - `reaped_of_run`: what a `wait4` returns is the last exit of a child of its process, with
    its status, and no exit is returned twice; the records of a process that has exited are
    all free just if its exit has been returned.
  - `ended_stays`: an exit that the parent has not been told of before its own exit stays.

  `reaped_fails`: a child exits, its parent exits without a `wait4`, and the records of the
  child are kept for good.
-/
import LimitlessOS.Process.Effects

namespace LimitlessOS.Process

open Lib Signal Sched Trace Kernel List Option CloneRecord Event

/-! ## Families -/

/-- The process that the event is about. -/
def Event.subject : Event → UInt32
  | .spawned _ child => child
  | .exited pid _ => pid
  | .reaped r => r.child

inductive Phase where
  | free
  | live (parent : Option UInt32)
  | ended (parent : Option UInt32) (code : UInt32)

def Phase.parent : Phase → Option UInt32
  | .free => none
  | .live parent => parent
  | .ended parent _ => parent

def Family := UInt32 → Phase

namespace Family

def vacant : Family := fun _ => .free

def set (f : Family) (pid : UInt32) (phase : Phase) : Family := Function.update f pid phase

variable {f f' : Family} {pid x : UInt32} {phase : Phase}

@[simp] theorem set_self : f.set pid phase pid = phase := Function.update_self ..

theorem set_of_ne (h : x ≠ pid) : f.set pid phase x = f x := Function.update_of_ne h ..

/-- A pid is given to a new process only if nobody has that parent; an exit is returned only while the parent lives. -/
inductive Next (f : Family) : Event → Family → Prop
  | spawned {parent : Option UInt32} {child : UInt32} (hbase : clonePidBase ≤ child) (hfree : f child = .free)
      (hunused : ∀ x, (f x).parent ≠ some child) : Next f (.spawned parent child) (f.set child (.live parent))
  | exited {pid code : UInt32} {parent : Option UInt32} (hlive : f pid = .live parent) :
      Next f (.exited pid code) (f.set pid (.ended parent code))
  | reaped {r : Reap} {code : UInt32} {parent : Option UInt32} (hended : f r.child = .ended (some r.receiver) code)
      (hstatus : r.status = statusForExit code) (hlive : f r.receiver = .live parent) :
      Next f (.reaped r) (f.set r.child .free)

variable {e : Event} {es : List Event}

theorem Next.other (h : f.Next e f') (hx : x ≠ e.subject) : f' x = f x := by
  cases h <;> exact set_of_ne hx

theorem Next.base (hf : ∀ x, f x ≠ .free → clonePidBase ≤ x) (h : f.Next e f') (x : UInt32) (hx : f' x ≠ .free) :
    clonePidBase ≤ x := by
  by_cases hs : x = e.subject
  · cases h with
    | spawned hbase => exact hs ▸ hbase
    | exited hlive => exact hf x (by rw [hs, subject, hlive]; simp)
    | reaped =>
      rw [hs] at hx
      exact absurd set_self hx
  · exact hf x (by rwa [h.other hs] at hx)

theorem base_of_trace (h : Trace Next vacant es f) : ∀ x, f x ≠ .free → clonePidBase ≤ x :=
  h.invariant (fun _ _ _ hf hn => hn.base hf) fun _ hx => absurd rfl hx

/-! ### Where a phase comes from -/

variable {code : UInt32} {parent : Option UInt32}

/-- A pid that is in use comes from the last event about it. -/
theorem of_used (h : Trace Next vacant es f) (hf : f pid = phase) (hused : phase ≠ .free) :
    ∃ a e b g g', es = a ++ e :: b ∧ Trace Next vacant a g ∧ g.Next e g' ∧ e.subject = pid ∧ g' pid = phase ∧
      ∀ e ∈ b, e.subject ≠ pid := by
  induction es using reverseRecOn generalizing f with
  | nil =>
    obtain rfl := h
    exact absurd hf.symm hused
  | append_singleton es e ih =>
    obtain ⟨g, hg, he⟩ := append.1 h
    rw [one] at he
    by_cases hs : e.subject = pid
    · exact ⟨es, e, [], g, f, rfl, hg, he, hs, hf, by simp⟩
    · obtain ⟨a, e', b, g', g'', rfl, ha, he', hs', hphase, hb⟩ := ih hg ((he.other (Ne.symm hs)).symm.trans hf)
      exact ⟨a, e', b ++ [e], g', g'', by simp, ha, he', hs', hphase, forall_mem_append.2 ⟨hb, by simpa using hs⟩⟩

/-- A process that lives has been made, and nothing has happened to it since. -/
theorem of_live (h : Trace Next vacant es f) (hlive : f pid = .live parent) :
    ∃ a b, es = a ++ .spawned parent pid :: b ∧ ∀ e ∈ b, e.subject ≠ pid := by
  obtain ⟨a, e, b, g, g', rfl, -, he, rfl, hphase, hb⟩ := of_used h hlive (by simp)
  cases he with
  | spawned =>
    rw [subject, set_self] at hphase
    obtain rfl := Phase.live.inj hphase
    exact ⟨a, b, rfl, hb⟩
  | exited | reaped =>
    simp [subject, set_self] at hphase

/-- A process that has ended has been made and has exited, and nothing else has happened to it. -/
theorem of_ended (h : Trace Next vacant es f) (hended : f pid = .ended parent code) :
    ∃ a b c, es = a ++ .spawned parent pid :: b ++ .exited pid code :: c ∧ ∀ e ∈ b ++ c, e.subject ≠ pid := by
  obtain ⟨a, e, c, g, g', rfl, ha, he, rfl, hphase, hc⟩ := of_used h hended (by simp)
  cases he with
  | spawned | reaped =>
    simp [subject, set_self] at hphase
  | exited hlive =>
    rw [subject, set_self] at hphase
    obtain ⟨rfl, rfl⟩ := Phase.ended.inj hphase
    obtain ⟨a, b, rfl, hb⟩ := of_live ha hlive
    exact ⟨a, b, c, rfl, forall_mem_append.2 ⟨hb, hc⟩⟩

/-! ### What becomes of a phase -/

theorem free_of_trace (h : Trace Next f es f') (hfree : f pid = .free) (hnew : ∀ parent, .spawned parent pid ∉ es) :
    f' pid = .free := by
  induction es generalizing f with
  | nil =>
    obtain rfl := h
    exact hfree
  | cons e es ih =>
    obtain ⟨g, he, hes⟩ := h
    refine ih hes ?_ fun parent hmem => hnew parent (mem_cons_of_mem _ hmem)
    by_cases hs : pid = e.subject
    · subst hs
      cases he with
      | spawned => exact absurd (mem_cons_self ..) (hnew _)
      | exited hlive =>
        simp [subject, hlive] at hfree
      | reaped => exact set_self
    · rw [he.other hs, hfree]

/-- An exit is kept until it is returned. -/
theorem ended_of_trace (h : Trace Next f es f')
    (hended : f pid = .ended parent code) (hnew : ∀ parent, .spawned parent pid ∉ es) :
    f' pid = .ended parent code ∨ f' pid = .free ∧ ∃ r, .reaped r ∈ es ∧ r.child = pid := by
  induction es generalizing f with
  | nil =>
    obtain rfl := h
    exact .inl hended
  | cons e es ih =>
    obtain ⟨g, he, hes⟩ := h
    have hnew' : ∀ parent, .spawned parent pid ∉ es := fun parent hmem => hnew parent (mem_cons_of_mem _ hmem)
    by_cases hs : pid = e.subject
    · subst hs
      cases he with
      | spawned => exact absurd (mem_cons_self ..) (hnew _)
      | exited hlive =>
        simp [subject, hlive] at hended
      | @reaped r _ _ _ _ _ =>
        exact .inr ⟨free_of_trace hes set_self hnew', r, mem_cons_self .., rfl⟩
    · rcases ih hes (by rw [he.other hs, hended]) hnew' with hkept | ⟨hfree, r, hr, hchild⟩
      · exact .inl hkept
      · exact .inr ⟨hfree, r, mem_cons_of_mem _ hr, hchild⟩

/-- The exit of a process without a parent that lives is never returned. -/
theorem Next.orphan (h : f.Next e f') (hended : f pid = .ended parent code)
    (hgone : ∀ p g, parent = some p → f p ≠ .live g) :
    f' pid = .ended parent code ∧ ∀ p g, parent = some p → f' p ≠ .live g := by
  have hpid : pid ≠ e.subject := by
    intro hs
    subst hs
    cases h with
    | spawned _ hfree =>
      simp [subject, hfree] at hended
    | exited hlive =>
      simp [subject, hlive] at hended
    | reaped hended' _ hlive =>
      rw [subject, hended'] at hended
      exact hgone _ _ (Phase.ended.inj hended).1.symm hlive
  refine ⟨by rw [h.other hpid, hended], ?_⟩
  intro p g hp hlive
  by_cases hs : p = e.subject
  · subst hs
    cases h with
    | spawned _ _ hunused => exact hunused pid (by rw [hended]; exact hp)
    | exited | reaped =>
      simp [subject, set_self] at hlive
  · rw [h.other hs] at hlive
    exact hgone p g hp hlive

theorem orphan_of_trace (h : Trace Next f es f') (hended : f pid = .ended parent code)
    (hgone : ∀ p g, parent = some p → f p ≠ .live g) : f' pid = .ended parent code :=
  (h.invariant (i := fun f => f pid = .ended parent code ∧ ∀ p g, parent = some p → f p ≠ .live g)
    (fun _ _ _ hf hn => hn.orphan hf.1 hf.2) ⟨hended, hgone⟩).1

end Family

/-! ## The family of the records -/

namespace Kernel

variable {k k' : Kernel} {pid x : UInt32}

def family (k : Kernel) : Family := fun pid =>
  match k.exitOf pid with
  | some e => .ended ((k.cloneOf pid).map CloneRecord.parentPid) e.exitCode
  | none => if (k.context pid).isSome then .live ((k.cloneOf pid).map CloneRecord.parentPid) else .free

theorem family_ended {e : ExitRecord} (he : k.exitOf pid = some e) :
    k.family pid = .ended ((k.cloneOf pid).map parentPid) e.exitCode := by
  unfold family
  rw [he]

theorem family_live (he : k.exitOf pid = none) (hc : (k.context pid).isSome) :
    k.family pid = .live ((k.cloneOf pid).map parentPid) := by
  unfold family
  simp only [he, hc, if_true]

theorem family_free (he : k.exitOf pid = none) (hc : k.context pid = none) : k.family pid = .free := by
  unfold family
  simp only [he, hc, isSome_none, Bool.false_eq_true, if_false]

theorem family_congr (hexit : k'.exitOf x = k.exitOf x) (hcontext : (k'.context x).isSome = (k.context x).isSome)
    (hclone : (k'.cloneOf x).map parentPid = (k.cloneOf x).map parentPid) :
    k'.family x = k.family x := by
  unfold family
  rw [hexit, hcontext, hclone]

theorem family_alike (h : Alike k k') : k'.family = k.family := by
  funext x
  exact family_congr (h.exitOf x) (h.context x) (by rw [h.cloneOf])

theorem family_parent (h : (k.family x).parent = some pid) : ∃ r, k.cloneOf x = some r ∧ r.parentPid = pid := by
  have hmap : (k.cloneOf x).map parentPid = some pid := by
    unfold family at h
    split at h
    · exact h
    · split_ifs at h
      · exact h
      · cases h
  exact map_eq_some_iff.1 hmap

/-- The next pid can be given to a new process. -/
theorem Unnamed.family (h : k.Unnamed pid) : k.family pid = .free ∧ ∀ x, (k.family x).parent ≠ some pid := by
  refine ⟨family_free h.exit (by rw [context, h.proc]; rfl), ?_⟩
  intro x hx
  obtain ⟨r, hr, hparent⟩ := family_parent hx
  exact h.parent x r hr hparent

theorem family_spawned {kind : ChildKind} {c : Context} (hu : k.Unnamed k.nextClonePid) (h : k.Spawned pid kind c k') :
    k'.family = k.family.set k.nextClonePid (.live (some pid)) := by
  have hexit : ∀ x, k'.exitOf x = k.exitOf x := fun x => by rw [exitOf, h.exitRecords, exitOf]
  refine Function.eq_update_iff.2 ⟨?_, fun x hx => ?_⟩
  · rw [family_live ((hexit _).trans hu.exit) (by rw [h.context, if_pos rfl]; rfl), h.cloneOf, if_pos rfl]
    rfl
  · exact family_congr (hexit x) (by rw [h.context, if_neg hx]) (by rw [h.cloneOf, if_neg hx])

theorem family_launched (hu : k.Unnamed k.nextClonePid) (h : k.Launched k') :
    k'.family = k.family.set k.nextClonePid (.live none) := by
  have hexit : ∀ x, k'.exitOf x = k.exitOf x := fun x => by rw [exitOf, h.exitRecords, exitOf]
  have hclone : ∀ x, k'.cloneOf x = k.cloneOf x := fun x => by rw [cloneOf, h.cloneRecords, cloneOf]
  refine Function.eq_update_iff.2 ⟨?_, fun x hx => ?_⟩
  · rw [family_live ((hexit _).trans hu.exit) (by rw [h.context, if_pos rfl]; rfl), hclone, hu.child]
    rfl
  · exact family_congr (hexit x) (by rw [h.context, if_neg hx]) (by rw [hclone])

theorem family_clears (h : k.Clears pid k') : k'.family = k.family.set pid .free := by
  refine Function.eq_update_iff.2 ⟨?_, fun x hx => ?_⟩
  · exact family_free (by rw [h.exitOf, if_pos rfl]) (by rw [h.context, if_pos rfl])
  · exact family_congr (by rw [h.exitOf, if_neg hx]) (by rw [h.context, if_neg hx]) (by rw [h.cloneOf, if_neg hx])

theorem family_exits {code : UInt32} (h : k.Exits pid code k') :
    k'.family = k.family.set pid (.ended ((k.cloneOf pid).map parentPid) code) := by
  have hclone : ∀ x, k'.cloneOf x = k.cloneOf x := fun x => by rw [cloneOf, h.cloneRecords, cloneOf]
  refine Function.eq_update_iff.2 ⟨?_, fun x hx => ?_⟩
  · have he : k'.exitOf pid = some ⟨pid, code⟩ := by rw [h.exitOf, if_pos rfl]
    rw [family_ended he, hclone]
  · exact family_congr (by rw [h.exitOf, if_neg hx]) (h.isSome_context hx) (by rw [hclone])

theorem family_endSession (ht : k.Tables) (hbase : clonePidBase ≤ pid) (hc : k.context pid = none) :
    (k.endSession pid).family = k.family := by
  obtain ⟨k2, hw, hd⟩ := drops_endSession ht hbase
  funext x
  refine family_congr ?_ ?_ ?_
  · rw [exitOf, hd.exitRecords, hw.exitRecords, exitOf]
  · rw [context_eq, hd.shape]
    split_ifs with hx
    · rw [hx, hc]
      rfl
    · rw [hw.others x hx, context_eq]
  · rw [cloneOf, hd.cloneRecords, hw.cloneRecords, cloneOf]

theorem family_enterWaiter (ht : k.Tables) (child : UInt32) (t : TaskId) (a : UInt64) :
    (k.enterWaiter child t a).family = k.family := by
  funext x
  refine family_congr rfl rfl ?_
  rw [cloneOf_enterWaiter ht]
  split_ifs with hx
  · rw [hx, Option.map_map]
    rfl
  · rfl

/-- No record of a process that was made at run time names the pid. -/
structure Free (k : Kernel) (pid : UInt32) : Prop where
  proc : k.proc pid = none
  clone : k.cloneOf pid = none
  exit : k.exitOf pid = none

theorem free_iff (h : k.Settled) (hbase : clonePidBase ≤ pid) : k.Free pid ↔ k.family pid = .free := by
  constructor
  · intro hf
    exact family_free hf.exit (by rw [context, hf.proc]; rfl)
  intro hf
  cases he : k.exitOf pid with
  | some e =>
    simp [family_ended he] at hf
  | none =>
    have hcontext : (k.context pid).isSome = false := by
      rw [← Bool.not_eq_true]
      intro hc
      simp [family_live he hc] at hf
    have hshape : k.shape pid = none := by
      rcases hs : k.shape pid with _ | s
      · rfl
      rcases h.made pid hbase (by rw [hs]; rfl) with hc | hc
      · simp [hc] at hcontext
      · simp [he] at hc
    refine ⟨map_eq_none_iff.1 hshape, ?_, he⟩
    rcases hc : k.cloneOf pid with _ | r
    · rfl
    have hsome := (h.child pid r hc).2
    simp [hshape] at hsome

theorem family_boot : boot.family = .vacant := by
  funext x
  exact family_free (boot_exitOf x) (boot_context x)

end Kernel

/-! ## Runs -/

namespace Machine

variable {m m' : Machine} {steps : List Step}

theorem Inv.family (h : m.Inv) {t : TaskId} (ht : (m.queue.tasks t).Alive) :
    m.kernel.family (m.queue.tasks t).pid = .live ((m.kernel.cloneOf (m.queue.tasks t).pid).map parentPid) :=
  family_live (h.not_exited ht) (h.owner t ht).1

/-- Every effect is a step of the family for each event. -/
theorem trace_effect {es : List Event} (h : m.Inv) (he : m.Effect es m') :
    Trace Family.Next m.kernel.family es m'.kernel.family := by
  cases he with
  | plain hk => exact family_alike hk
  | spawned hu hready hk hq ha =>
    rw [one, family_alike ha.kernel, family_spawned hu hk]
    exact .spawned h.settled.tables.next hu.family.1 hu.family.2
  | launched hu hk hq =>
    rw [one, family_launched hu hk]
    exact .spawned h.settled.tables.next hu.family.1 hu.family.2
  | emptied hk => exact family_alike hk.alike
  | @reaped _ task r e a written k hcurrent hr hparent he hk ha =>
    rw [one, family_alike ha.kernel, family_clears hk]
    refine .reaped ?_ rfl (h.family (h.alive_current hcurrent))
    rw [family_ended he, hr]
    exact congrArg (fun p => Phase.ended (some p) e.exitCode) hparent
  | @waits _ task r waitPid a hcurrent hr hparent hany hnone hk hq hparked hframe hl =>
    exact (family_alike hk).trans (family_enterWaiter h.settled.tables r.childPid task a)
  | exited hcurrent hexits hwaiter hleader hk hq hl =>
    rw [one, family_alike hk, family_exits hexits]
    exact .exited (h.family (h.alive_current hcurrent))
  | @exitedWaited _ task w code k k2 r a written hcurrent hexits hr hwaiter hclears hk hq hl =>
    have halive := h.alive_current hcurrent
    have hlive := h.family halive
    rw [hr] at hlive
    -- the parent is another process, and it lives
    obtain ⟨hparked, hpid⟩ := h.waiter task r w a halive hr hwaiter
    have hparent := h.family (t := w) (.inr (.inr hparked.1))
    have hne : r.parentPid ≠ (m.queue.tasks task).pid := by
      intro hne
      exact hparked.ne_current hcurrent (h.unique w task (.inr (.inr hparked.1)) halive (hpid.trans hne))
    rw [hpid] at hparent
    rw [family_alike hk, family_clears hclears, family_exits hexits, hr]
    exact ⟨_, .exited hlive, one.2 (.reaped Family.set_self rfl ((Family.set_of_ne hne).trans hparent))⟩
  | @ended task code k hcurrent hexits hleader =>
    have halive := h.alive_current hcurrent
    rw [one, family_endSession hexits.tables (h.owner task halive).2.1 hexits.context_self,
      family_exits hexits]
    exact .exited (h.family halive)

/-- The events of a run. -/
def history (m : Machine) : List Step → List Event
  | [] => []
  | s :: steps => m.events s ++ (m.step s).history steps

theorem trace_history (h : Meets step Orderly m steps) (hm : m.Inv) :
    Trace Family.Next m.kernel.family (m.history steps) (steps.foldl step m).kernel.family := by
  induction steps generalizing m with
  | nil => exact rfl
  | cons s steps ih =>
    have hstep := trace_effect hm (hm.effect_step s h.1)
    exact append.2 ⟨_, hstep, ih h.2 (inv_step s hm h.1)⟩

/-- The process has exited, and its pid has not been given to another one. -/
def Exited (h : List Event) (pid : UInt32) : Prop :=
  ∃ code before after, h = before ++ .exited pid code :: after ∧ ∀ parent, .spawned parent pid ∉ after

/-- The last exit of the process has been returned, and its pid has not been given to another one. -/
def Reaped (h : List Event) (pid : UInt32) : Prop :=
  ∃ r before after, h = before ++ .reaped r :: after ∧ r.child = pid ∧ ∀ parent, .spawned parent pid ∉ after

theorem reaped_of_run (steps : List Step) (h : Meets step Orderly boot steps) :
    (∀ before r after, boot.history steps = before ++ .reaped r :: after →
      ∃ first between since, ∃ code : UInt32,
        before = first ++ .spawned (some r.receiver) r.child :: between ++ .exited r.child code :: since ∧
        (∀ e ∈ between ++ since, e.subject ≠ r.child) ∧ r.status = (code &&& 0xFF) <<< 8) ∧
      ∀ pid, Exited (boot.history steps) pid →
        ((steps.foldl step boot).kernel.Free pid ↔ Reaped (boot.history steps) pid) := by
  have htrace := trace_history h .boot
  rw [show boot.kernel = Kernel.boot from rfl, Kernel.family_boot] at htrace
  have hsettled := (inv_run h .boot).settled
  constructor
  · intro before r after hes
    rw [hes] at htrace
    obtain ⟨f, hbefore, f', hnext, -⟩ := append.1 htrace
    cases hnext with
    | reaped hended hstatus hlive =>
      obtain ⟨a, b, c, heq, hquiet⟩ := Family.of_ended hbefore hended
      exact ⟨a, b, c, _, heq, hquiet, hstatus⟩
  · rintro pid ⟨code, before, after, hes, hnew⟩
    rw [hes] at htrace
    obtain ⟨f, hbefore, f', hnext, hafter⟩ := append.1 htrace
    have hbase := Family.base_of_trace (append.2 ⟨f, hbefore, one.2 hnext⟩) pid
    cases hnext with
    | exited hlive =>
      rw [free_iff hsettled (hbase (by simp))]
      constructor
      · intro hfree
        rcases Family.ended_of_trace hafter Family.set_self hnew with hkept | ⟨-, r, hr, hchild⟩
        · simp [hfree] at hkept
        · obtain ⟨a, b, rfl⟩ := append_of_mem hr
          refine ⟨r, before ++ .exited pid code :: a, b, by rw [hes]; simp, hchild, ?_⟩
          intro parent hmem
          exact hnew parent (mem_append_right _ (mem_cons_of_mem _ hmem))
      · rintro ⟨r, a, b, heq, rfl, hnew'⟩
        rw [← hes, heq] at htrace
        obtain ⟨g, -, g', hnext', hb⟩ := append.1 htrace
        cases hnext' with
        | reaped => exact Family.free_of_trace hb Family.set_self hnew'

/-- A child exits, and its parent waits for it. -/
def waitRun : List Step := [launchStep, forkStep, timerStep, exitStep 3, waitStep waitAny 0]

theorem history_waitRun : boot.history waitRun =
    [.spawned none 0x2000, .spawned (some 0x2000) 0x2001, .exited 0x2001 3,
      .reaped ⟨0x2000, 0x2001, 0x300, 0, false⟩] := by decide +kernel

theorem reaped_of_wait : Reaped (boot.history waitRun) 0x2001 ∧ (waitRun.foldl step boot).kernel.Free 0x2001 := by
  have hexited : Exited (boot.history waitRun) 0x2001 :=
    ⟨3, [.spawned none 0x2000, .spawned (some 0x2000) 0x2001], [.reaped ⟨0x2000, 0x2001, 0x300, 0, false⟩],
      history_waitRun, by simp⟩
  have hreaped : Reaped (boot.history waitRun) 0x2001 :=
    ⟨_, [.spawned none 0x2000, .spawned (some 0x2000) 0x2001, .exited 0x2001 3], [], history_waitRun, rfl, by simp⟩
  exact ⟨hreaped, ((reaped_of_run waitRun (by decide +kernel)).2 0x2001 hexited).2 hreaped⟩

/-- An exit that has not been returned when the parent exits is kept. -/
theorem ended_stays (h : Meets step Orderly m steps) (hm : m.Inv) {pid : UInt32} {e : ExitRecord}
    (he : m.kernel.exitOf pid = some e) (hgone : ∀ r, m.kernel.cloneOf pid = some r → m.kernel.context r.parentPid = none) :
    ((steps.foldl step m).kernel.exitOf pid).isSome ∧
      ((steps.foldl step m).kernel.cloneOf pid).map parentPid =
        (m.kernel.cloneOf pid).map parentPid := by
  have hended := Family.orphan_of_trace (trace_history h hm) (family_ended he) ?_
  · unfold family at hended
    split at hended
    case _ e' he' => exact ⟨by rw [he']; rfl, (Phase.ended.inj hended).1⟩
    case _ => split_ifs at hended
  intro p g hp hlive
  obtain ⟨r, hr, rfl⟩ := map_eq_some_iff.1 hp
  unfold family at hlive
  rw [hgone r hr] at hlive
  split at hlive
  · cases hlive
  · cases hlive

/-- A child exits, and its parent exits without waiting for it. -/
def orphanRun : List Step := [launchStep, forkStep, timerStep, exitStep 3, exitStep 0]

theorem history_orphanRun : boot.history orphanRun =
    [.spawned none 0x2000, .spawned (some 0x2000) 0x2001, .exited 0x2001 3, .exited 0x2000 0] := by decide +kernel

theorem orderly_orphanRun : Meets step Orderly boot orphanRun := by decide +kernel

/-- Every process that was made has exited, and the records of one are kept, whatever comes next. -/
theorem reaped_fails :
    (∀ e ∈ boot.history orphanRun, Exited (boot.history orphanRun) e.subject) ∧
      ∀ steps, Meets step Orderly (orphanRun.foldl step boot) steps →
        ((steps.foldl step (orphanRun.foldl step boot)).kernel.proc 0x2001).isSome = true ∧
        ((steps.foldl step (orphanRun.foldl step boot)).kernel.cloneOf 0x2001).isSome = true ∧
        ((steps.foldl step (orphanRun.foldl step boot)).kernel.exitOf 0x2001).isSome = true := by
  constructor
  · intro e he
    have hleader : Exited (boot.history orphanRun) 0x2000 :=
      ⟨0, [.spawned none 0x2000, .spawned (some 0x2000) 0x2001, .exited 0x2001 3], [], history_orphanRun, by simp⟩
    have hchild : Exited (boot.history orphanRun) 0x2001 :=
      ⟨3, [.spawned none 0x2000, .spawned (some 0x2000) 0x2001], [.exited 0x2000 0], history_orphanRun, by simp⟩
    rw [history_orphanRun] at he
    simp only [mem_cons, not_mem_nil, or_false] at he
    rcases he with rfl | rfl | rfl | rfl
    · exact hleader
    · exact hchild
    · exact hchild
    · exact hleader
  · intro steps hsteps
    have hm := inv_run orderly_orphanRun .boot
    have hexit : (orphanRun.foldl step boot).kernel.exitOf 0x2001 = some ⟨0x2001, 3⟩ := by decide +kernel
    have hclone : (orphanRun.foldl step boot).kernel.cloneOf 0x2001 = some ⟨0x2000, 0x2001, none⟩ := by decide +kernel
    obtain ⟨hsome, hparent⟩ := ended_stays hsteps hm hexit (by
      intro r hr
      obtain rfl := mem_unique hclone hr
      decide +kernel)
    rw [hclone] at hparent
    obtain ⟨r, hr, -⟩ := map_eq_some_iff.1 hparent
    have hshape := ((inv_run hsteps hm).settled.child 0x2001 r hr).2
    rw [shape, isSome_map] at hshape
    exact ⟨hshape, by rw [hr]; rfl, hsome⟩

/-! ## Every orderly run -/

section

variable (steps : List Step) (h : Meets step Orderly boot steps)
include h

/-- The process tables and the run queue agree in every state. -/
theorem inv_of_run : (steps.foldl step boot).Inv := inv_run h .boot

/-- The tables are a family of processes that are made, exit, and are forgotten. -/
theorem family_of_run :
    Trace Family.Next boot.kernel.family (boot.history steps) (steps.foldl step boot).kernel.family :=
  trace_history h .boot

end

theorem inv_of_orphanRun : (orphanRun.foldl step boot).Inv := inv_of_run orphanRun orderly_orphanRun

theorem family_of_orphanRun :
    Trace Family.Next boot.kernel.family (boot.history orphanRun) (orphanRun.foldl step boot).kernel.family :=
  family_of_run orphanRun orderly_orphanRun

end Machine

end LimitlessOS.Process
