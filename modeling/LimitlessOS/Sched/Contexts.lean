/-
  LimitlessOS.Sched.Contexts — the registers of a task over its switches.

  `carried` reads off a history what a task has to go on with: the frame and the fs base it
  stopped with, or those it was made with, and the result it was woken with in rax. The
  frames in a history are those the scheduler is given when a task stops and returns when
  one is dispatched, and the fs base is what is in the register. The registers of the x87 and
  SSE units and the gs base (`Extended`) are in no frame, and no switch saves or loads them:
  `Processor` has them beside the scheduler, and programs write to them.

  Proved:
  - `contexts_next`: no change but a stop and a wakeup touches what a task goes on with.
  - `registers_of_run`: in every run a task is dispatched only when no other task has the
    processor, with the frame and the fs base it carries, and finds in the other registers
    what was written there last, by whichever task.
  - `extended_leaks`: two tasks take turns, and the first finds what the second wrote.
  - `dispatched_awake`: in every run a task at rest is not dispatched.
-/
import LimitlessOS.Sched.Calls

namespace LimitlessOS.Sched

open Lib Signal Schedule

namespace Change

/-- What the tasks go on with. -/
def carry (m : TaskId → Option (Frame × UInt64)) : Change → TaskId → Option (Frame × UInt64)
  | made t _ frame fsBase => Function.update m t (some (frame, fsBase))
  | stopped t frame fsBase => Function.update m t (some (frame, fsBase))
  | woken t result => Function.update m t ((m t).map fun s => ({ s.1 with rax := result }, s.2))
  | cleared => fun _ => none
  | _ => m

/-- The task that has the processor. -/
def seat (r : Option TaskId) : Change → Option TaskId
  | dispatched t _ _ => some t
  | resumed t => some t
  | stopped _ _ _ => none
  | exited _ _ => none
  | halted => none
  | cleared => none
  | _ => r

end Change

def carried (history : List Change) : TaskId → Option (Frame × UInt64) := history.foldl Change.carry fun _ => none

def onProcessor (history : List Change) : Option TaskId := history.foldl Change.seat none

/-- A task is dispatched with what it carries, when the last one has been taken off the processor. -/
def Faithful (past : List Change) : Change → Prop
  | .dispatched t frame fsBase => onProcessor past = none ∧ carried past t = some (frame, fsBase)
  | _ => True

/-- The tasks that are off the processor carry what is kept for them. -/
structure Contexts (past : List Change) (c : Schedule) : Prop where
  seated : onProcessor past = c.running
  kept : c.ended = false → ∀ t, (c.tasks t).Alive → c.running ≠ some t →
    carried past t = some ((c.tasks t).frame, (c.tasks t).fsBase)

theorem carried_append (past : List Change) (e : Change) : carried (past ++ [e]) = e.carry (carried past) := by
  simp [carried]

theorem onProcessor_append (past : List Change) (e : Change) : onProcessor (past ++ [e]) = e.seat (onProcessor past) := by
  simp [onProcessor]

/-- What a task carries is what is kept for it, after a change. -/
theorem kept_next {past : List Change} {c : Schedule} {e : Change} (h : Contexts past c) (hallowed : c.Allowed e)
    (hended : (c.apply e).ended = false) (u : TaskId) (halive : ((c.apply e).tasks u).Alive)
    (hrunning : (c.apply e).running ≠ some u) :
    e.carry (carried past) u = some (((c.apply e).tasks u).frame, ((c.apply e).tasks u).fsBase) := by
  -- The change is about another task.
  have hother : c.ended = false → (c.apply e).tasks u = c.tasks u → c.running ≠ some u →
      e.carry (carried past) u = carried past u →
      e.carry (carried past) u = some (((c.apply e).tasks u).frame, ((c.apply e).tasks u).fsBase) := by
    intro hold htask hoff hcarry
    rw [htask] at halive ⊢
    exact hcarry.trans (h.kept hold u halive hoff)
  cases e with
  | made t pid frame fsBase =>
    by_cases hut : u = t
    · subst hut
      simp [Change.carry, apply]
    · exact hother hended (by simp [apply, hut]) hrunning (by simp [Change.carry, hut])
  | stopped t frame fsBase =>
    by_cases hut : u = t
    · subst hut
      simp [Change.carry, apply]
    · refine hother hended (by simp [apply, hut]) ?_ (by simp [Change.carry, hut])
      rw [hallowed.1]
      exact fun h => hut (Option.some.inj h).symm
  | resumed t =>
    have hut : u ≠ t := fun h => hrunning (congrArg some h.symm)
    refine hother hended (by simp [apply, hut]) ?_ rfl
    rw [hallowed.1]
    simp
  | blocked t =>
    by_cases hut : u = t
    · subst hut
      have hwas := h.kept hended u (hallowed.2.2.imp_right .inl) hrunning
      simp [Change.carry, apply, hwas]
    · exact hother hended (by simp [apply, hut]) hrunning rfl
  | woken t result =>
    by_cases hut : u = t
    · subst hut
      have hwas := h.kept hended u (.inr (.inr hallowed.2.2)) hrunning
      simp [Change.carry, apply, hwas]
    · exact hother hended (by simp [apply, hut]) hrunning (by simp [Change.carry, hut])
  | replayed t =>
    by_cases hut : u = t
    · subst hut
      have hwas := h.kept hended u (.inr (.inr hallowed.2.2)) hrunning
      simp [Change.carry, apply, hwas]
    · exact hother hended (by simp [apply, hut]) hrunning rfl
  | fsSet t fsBase =>
    have hut : u ≠ t := fun h => hrunning (hallowed.1.trans (congrArg some h.symm))
    exact hother hended (by simp [apply, hut]) hrunning rfl
  | dispatched t frame fsBase =>
    have hut : u ≠ t := fun h => hrunning (congrArg some h.symm)
    refine hother hended (by simp [apply, hut]) ?_ rfl
    rw [hallowed.2.1]
    simp
  | exited t result =>
    have hut : u ≠ t := by
      rintro rfl
      simp [apply, Task.Alive] at halive
    refine hother hended (by simp [apply, hut]) ?_ rfl
    rw [hallowed.1]
    exact fun h => hut (Option.some.inj h).symm
  | halted => cases hended
  | cleared => simp [apply, Task.Alive, Task.clear] at halive

theorem contexts_next (past : List Change) (c : Schedule) (e : Change) (c' : Schedule) (h : Contexts past c) (hn : c.Next e c') :
    Faithful past e ∧ Contexts (past ++ [e]) c' := by
  obtain ⟨hallowed, rfl⟩ := hn
  refine ⟨?_, ?_, ?_⟩
  · cases e with
    | dispatched t frame fsBase =>
      obtain ⟨hended, hnone, -, hready, rfl, rfl⟩ := hallowed
      exact ⟨h.seated.trans hnone, h.kept hended t (.inl hready) (by rw [hnone]; simp)⟩
    | _ => trivial
  · rw [onProcessor_append, h.seated]
    cases e <;> rfl
  · intro hended u halive hrunning
    rw [carried_append]
    exact kept_next h hallowed hended u halive hrunning

theorem contexts_boot : Contexts [] (System.boot.queue.schedule false) := by
  refine ⟨rfl, ?_⟩
  intro _ t halive
  simp [System.boot, Runqueue.schedule, Runqueue.scheduleAt, Runqueue.reset, Task.Alive, Task.clear] at halive

/-! ## The registers that no switch touches -/

/-- What a program can use besides the registers of the frame and the fs base: the x87 and SSE units, which `boot64.asm`
turns on for everybody, and the gs base, which the loaders of Windows and macOS programs set. -/
structure Extended where
  st : Fin 8 → BitVec 80
  controlWord : UInt16
  xmm : Fin 16 → BitVec 128
  mxcsr : UInt32
  gsBase : UInt64

structure Processor where
  system : System
  extended : Extended

inductive Act where
  | call (op : System.Op)
  /-- The program that runs writes to the registers, or a loader sets the gs base. -/
  | write (extended : Extended)

/-- A change of the schedule, with what is in the registers then, or a write to them. -/
inductive Moment where
  | change (e : Change) (extended : Extended)
  | write (extended : Extended)

namespace Processor

def boot (extended : Extended) : Processor := ⟨.boot, extended⟩

/-- `scheduler.c` has no instruction for these registers, nor has the entry from and the return to a program. -/
def step (p : Processor) : Act → Processor
  | .call op => { p with system := p.system.step op }
  | .write extended => { p with extended }

def moments (p : Processor) : Act → List Moment
  | .call op => (p.system.changes op).map fun e => .change e p.extended
  | .write extended => [.write extended]

def run (extended : Extended) (acts : List Act) : Processor := acts.foldl step (boot extended)

def history (extended : Extended) (acts : List Act) : List Moment := eventsOf moments step (boot extended) acts

end Processor

def changesIn (past : List Moment) : List Change :=
  past.filterMap fun
    | .change e _ => some e
    | .write _ => none

/-- What was written last, by whichever task. -/
def lastWritten (start : Extended) (past : List Moment) : Extended :=
  past.foldl (fun x m => match m with | .change _ _ => x | .write y => y) start

/-- What was in the registers when the task stopped, if it has stopped since it was made. -/
def stoppedWith (t : TaskId) (past : List Moment) : Option Extended :=
  past.foldl (fun x m => match m with
    | .change (.stopped u _ _) y => if u = t then some y else x
    | .change (.made u _ _ _) _ => if u = t then none else x
    | .change .cleared _ => none
    | _ => x) none

/-- A task that is dispatched has all the registers it stopped with. -/
def Separate (past : List Moment) : Moment → Prop
  | .change (.dispatched t frame fsBase) x =>
    Faithful (changesIn past) (.dispatched t frame fsBase) ∧ ∀ y, stoppedWith t past = some y → x = y
  | _ => True

/-- A task that is dispatched has its frame and its fs base, and in the other registers what was written last. -/
def Switched (start : Extended) (past : List Moment) : Moment → Prop
  | .change e x => Faithful (changesIn past) e ∧ x = lastWritten start past
  | .write _ => True

theorem changesIn_append (past : List Moment) (es : List Change) (x : Extended) :
    changesIn (past ++ es.map fun e => .change e x) = changesIn past ++ es := by
  simp [changesIn, List.filterMap_map]

theorem lastWritten_append (start : Extended) (past : List Moment) (es : List Change) (x : Extended) :
    lastWritten start (past ++ es.map fun e => .change e x) = lastWritten start past := by
  simp [lastWritten, List.foldl_map]

theorem switched_changes {start : Extended} {past : List Moment} {es : List Change}
    (h : Throughout Faithful (changesIn past) es) :
    Throughout (Switched start) past (es.map fun e => .change e (lastWritten start past)) := by
  intro before m after heq
  obtain ⟨before, rest, rfl, rfl, hrest⟩ := List.map_eq_append_iff.1 heq
  obtain ⟨e, after, rfl, rfl, -⟩ := List.map_eq_cons_iff.1 hrest
  refine ⟨?_, (lastWritten_append start past before _).symm⟩
  rw [changesIn_append]
  exact h before e after rfl

/-- The moments so far lead to the queue, and to what is in the registers. -/
structure Tracked (start : Extended) (past : List Moment) (p : Processor) : Prop where
  written : p.extended = lastWritten start past
  queue : ∃ ended, p.system.queue.HasCurrent ended ∧ Contexts (changesIn past) (p.system.queue.schedule ended) ∧
    Trace Next (System.boot.queue.schedule false) (changesIn past) (p.system.queue.schedule ended)

theorem tracked_step {start : Extended} {past : List Moment} {p : Processor} (h : Tracked start past p) (act : Act) :
    Throughout (Switched start) past (p.moments act) ∧ Tracked start (past ++ p.moments act) (p.step act) := by
  obtain ⟨hwritten, ended, hcurrent, hcontexts, htrace⟩ := h
  cases act with
  | call op =>
    obtain ⟨ended', hstep, hcurrent'⟩ := System.trace_step hcurrent op
    obtain ⟨hfaithful, hcontexts'⟩ := Trace.throughout contexts_next hstep hcontexts
    rw [Processor.moments, hwritten]
    refine ⟨switched_changes hfaithful, hwritten.trans (lastWritten_append ..).symm, ended', hcurrent', ?_, ?_⟩
    · rwa [changesIn_append]
    · rw [changesIn_append]
      exact Trace.append.2 ⟨_, htrace, hstep⟩
  | write extended =>
    have hsame : changesIn (past ++ [.write extended]) = changesIn past := by simp [changesIn]
    refine ⟨.cons trivial (.nil _), by simp [Processor.moments, Processor.step, lastWritten], ended, hcurrent, ?_, ?_⟩
    · rwa [Processor.moments, hsame]
    · rwa [Processor.moments, hsame]

/-- In every run a task goes on exactly where it stopped, with its result in rax if it was woken with one, and finds in the
registers that are in no frame what was written there last. The history is that of the run: its changes lead to the queue that
the run ends in. -/
theorem registers_of_run (start : Extended) (acts : List Act) :
    (∃ ended, Trace Next (System.boot.queue.schedule false) (changesIn (Processor.history start acts))
        ((Processor.run start acts).system.queue.schedule ended)) ∧
      Throughout (Switched start) [] (Processor.history start acts) := by
  have hboot : Tracked start [] (.boot start) := ⟨rfl, false, .of_inactive rfl, contexts_boot, rfl⟩
  obtain ⟨hswitched, -, ended, -, -, htrace⟩ :=
    Throughout.of_steps (i := Tracked start) (fun _ _ act h => tracked_step h act) hboot acts
  exact ⟨⟨ended, htrace⟩, hswitched⟩

/-- The registers after a reset of the units. -/
def Extended.clear : Extended := ⟨fun _ => 0, 0x37F, fun _ => 0, 0x1F80, 0⟩

/-- What another program computes with. -/
def Extended.used : Extended := { Extended.clear with xmm := fun _ => 0x3FF0000000000000, mxcsr := 0x9F80 }

/-- Two tasks take turns at the timer, and the second writes to its registers. -/
def twoTurns : List Act :=
  [.call (.launch [System.program 5, System.program 6]), .call (.timer System.userFrame), .write .used,
    .call (.timer System.userFrame)]

/-- The first task is given its frame and its fs base, and the SSE registers of the second. -/
theorem extended_leaks : ¬ Throughout Separate [] (Processor.history .clear twoTurns) := by
  intro h
  let moments := Processor.history .clear twoTurns
  have hlast := h (moments.take 8) (.change (.dispatched (System.taskIn 0) System.userFrame 0) .used) [] rfl
  have hsame : Extended.used = Extended.clear := hlast.2 _ rfl
  exact absurd (congrArg Extended.mxcsr hsame) (by decide)

/-! ## Tasks at rest -/

/-- The task has blocked or exited, and has not been woken or made since. -/
def Change.rest (t : TaskId) (r : Bool) : Change → Bool
  | blocked u => u = t || r
  | exited u _ => u = t || r
  | made u _ _ _ => u ≠ t && r
  | woken u _ => u ≠ t && r
  | replayed u => u ≠ t && r
  | cleared => false
  | _ => r

/-- In every run a task that rests is not dispatched. -/
theorem dispatched_awake (ops : List System.Op) (t : TaskId) :
    Throughout (fun past e => ∀ frame fsBase, e = .dispatched t frame fsBase → past.foldl (Change.rest t) false = false) []
      (System.history ops) := by
  obtain ⟨ended, htrace, -⟩ := System.trace_run ops
  refine (Trace.throughout (i := fun past c => past.foldl (Change.rest t) false = true →
    (c.tasks t).state = .blocked ∨ (c.tasks t).state = .exited) ?_ htrace (by simp)).1
  rintro past c e _ hrest ⟨hallowed, rfl⟩
  constructor
  · rintro frame fsBase rfl
    obtain ⟨-, -, -, hready, -⟩ := hallowed
    simpa [hready] using hrest
  · rw [List.foldl_append]
    -- Only a wakeup or a new task makes a task ready that is not running.
    cases e <;> simp [Change.rest, apply] <;> grind [Allowed]

end LimitlessOS.Sched
