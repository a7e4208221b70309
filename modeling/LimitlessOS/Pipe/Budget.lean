/-
  LimitlessOS.Pipe.Budget — the pipes a process may have (`arch/x86_64/persona.c`).

  The persona context of a process has a budget of pipes and a count of those it has. A pipe
  is committed at the end of its creation; an object that is cleared while it is live gives
  one back to the process that owns it. A creation that fails behind the choice of its object
  clears an object that is live and was never committed.

  Proved:
  - `Balanced.step`: every count is the number of live pipes of the process, and within its
    budget, behind every call but such a failure of a process that has pipes.
  - `count_eq_owned`: so it is in every run without one; `failed_creation_gives_back`: a
    failure takes a pipe off the count that is still live.
-/
import LimitlessOS.Lib.Run
import LimitlessOS.Pipe.Calls

namespace LimitlessOS.Pipe

open Lib Signal Pipes Buffer Slots

/-- The part of a `persona_context_t` that counts pipes. -/
structure Context where
  pipeBudget : Nat
  pipeCount : Nat

/-- The pipe objects, and `persona64_context_for_process`. -/
structure Accounts where
  pipes : Pipes
  contexts : UInt32 → Option Context

/-- `persona64_budget_sum` -/
def budgetSum (current additional : Nat) : Nat :=
  if 0xFFFFFFFF - current < additional then 0xFFFFFFFF else current + additional

namespace Accounts

variable {a : Accounts} {i : Fin maxObjects} {p : Buffer}

/-- `persona64_budget_check_pipe`, for one pipe -/
def checkPipe (a : Accounts) (pid : UInt32) : Bool :=
  (a.contexts pid).all fun c => budgetSum c.pipeCount 1 ≤ c.pipeBudget && c.pipeCount ≤ c.pipeBudget

/-- The count of the process changes. -/
def charge (a : Accounts) (pid : UInt32) (f : Nat → Nat) : Accounts :=
  { a with contexts := Function.update a.contexts pid ((a.contexts pid).map fun c => { c with pipeCount := f c.pipeCount }) }

/-- `persona64_budget_commit_pipe`, for one pipe -/
def commitPipe (a : Accounts) (pid : UInt32) : Option Accounts :=
  if a.checkPipe pid then some (a.charge pid (budgetSum · 1)) else none

/-- `persona64_budget_release_pipe`, for one pipe -/
def releasePipe (a : Accounts) (pid : UInt32) : Accounts := a.charge pid fun count => if 1 ≤ count then count - 1 else 0

/-- `pipe64_clear_object` -/
def clearObject (a : Accounts) (i : Fin maxObjects) : Accounts :=
  let p := a.pipes.objects i
  let a := { a with pipes := a.pipes.clearObject i }
  if p.live ∧ p.ownerPid ≠ invalidPid then a.releasePipe p.ownerPid else a

/-- The creation fails before it looks for an object. -/
def refuses (a : Accounts) (pid ownerId : UInt32) (valid : Bool) : Bool :=
  pid = invalidPid || !valid || ownerId = 0 || !a.checkPipe pid

/-- `pipe64_create_flags`; `valid` says that the process has descriptors and the flags are known, `opened` that both ends have got
a descriptor. -/
def createFlags (a : Accounts) (pid ownerId : UInt32) (valid opened : Bool) : Bool × Accounts :=
  if a.refuses pid ownerId valid then (false, a)
  else
    match a.pipes.claimObject pid ownerId with
    | none => (false, a)
    | some (i, pipes) =>
      match if opened then { a with pipes }.commitPipe pid else none with
      | some a => (true, a)
      | none => (false, { a with pipes }.clearObject i)

/-- `pipe64_revoke_handle`; the object is cleared when both its ends are closed. -/
def revokeHandle (a : Accounts) (handle ownerId : UInt32) (env : Env) : Accounts :=
  match a.pipes.find handle ownerId with
  | none => a
  | some i =>
    let pipes := (a.pipes.revokeHandle handle ownerId env).2.1
    if (pipes.objects i).live then { a with pipes } else a.clearObject i

inductive Call where
  | create (pid ownerId : UInt32) (valid opened : Bool)
  | grant (handle sourceOwner targetOwner : UInt32) (installed : Bool)
  | close (handle ownerId : UInt32) (env : Env)

def step (a : Accounts) : Call → Accounts
  | .create pid ownerId valid opened => (a.createFlags pid ownerId valid opened).2
  | .grant handle sourceOwner targetOwner installed =>
    { a with pipes := (a.pipes.grantEndpoint handle sourceOwner targetOwner installed).2 }
  | .close handle ownerId env => a.revokeHandle handle ownerId env

def start (budget : UInt32 → Option Nat) : Accounts := ⟨.init, fun pid => (budget pid).map fun limit => ⟨limit, 0⟩⟩

def ownedBy (pid : UInt32) (p : Buffer) : Bool := p.live && p.ownerPid = pid

/-- The number of live pipes of the process. -/
def owned (a : Accounts) (pid : UInt32) : Nat := count a.pipes.objects (ownedBy pid)

/-- A creation that gets no descriptors is by a process without pipes, or does not come to them. -/
def Harmless (a : Accounts) : Call → Prop
  | .create pid ownerId valid opened =>
    opened ∨ (∀ c, a.contexts pid = some c → c.pipeCount = 0) ∨ a.refuses pid ownerId valid ∨ ∀ i, (a.pipes.objects i).live
  | _ => True

structure Balanced (a : Accounts) : Prop where
  count : ∀ pid c, a.contexts pid = some c → c.pipeCount = a.owned pid ∧ c.pipeCount ≤ c.pipeBudget
  named : ∀ i, (a.pipes.objects i).live → (a.pipes.objects i).ownerPid ≠ invalidPid

/-! ## The calls -/

section

variable (h : a.Balanced)
include h

/-- An object changes, and with it the count of the one process that has it or had it. -/
theorem Balanced.set {q : UInt32} {f : Nat → Nat} (hnamed : p.live → p.ownerPid ≠ invalidPid)
    (hcharged : ∀ c, a.contexts q = some c → c.pipeCount = a.owned q → c.pipeCount ≤ c.pipeBudget →
      f c.pipeCount + (ownedBy q (a.pipes.objects i)).toNat = c.pipeCount + (ownedBy q p).toNat ∧ f c.pipeCount ≤ c.pipeBudget)
    (hother : ∀ x, x ≠ q → ownedBy x p = ownedBy x (a.pipes.objects i)) :
    ({ a with pipes := a.pipes.set i p }.charge q f).Balanced where
  count x c hc := by
    have hset : Slots.count (a.pipes.set i p).objects (ownedBy x) + (ownedBy x (a.pipes.objects i)).toNat =
        a.owned x + (ownedBy x p).toNat := Slots.count_update ..
    simp only [charge, owned] at hc ⊢
    by_cases hx : x = q
    · subst hx
      simp only [Function.update_self, Option.map_eq_some_iff] at hc
      obtain ⟨c, hc, rfl⟩ := hc
      obtain ⟨heq, hle⟩ := h.count x c hc
      obtain ⟨hcount, hwithin⟩ := hcharged c hc heq hle
      exact ⟨by simp only; omega, hwithin⟩
    · rw [Function.update_of_ne hx] at hc
      rw [hother x hx] at hset
      obtain ⟨heq, hle⟩ := h.count x c hc
      exact ⟨by omega, hle⟩
  named j := by
    simp only [charge]
    by_cases hj : j = i
    · rwa [hj, set_same]
    · rw [set_other _ hj]
      exact h.named j

/-- An object that stays as live as it was, and with its owner, changes no count. -/
theorem Balanced.set_keep (hlive : p.live = (a.pipes.objects i).live) (hpid : p.ownerPid = (a.pipes.objects i).ownerPid) :
    Balanced { a with pipes := a.pipes.set i p } := by
  have hsame : ∀ q, ownedBy q p = ownedBy q (a.pipes.objects i) := fun q => by rw [ownedBy, ownedBy, hlive, hpid]
  have hset := h.set (q := 0) (f := id) (hlive ▸ hpid ▸ h.named i) (fun c _ _ hle => ⟨by rw [hsame, id], hle⟩) fun q _ => hsame q
  simpa [charge] using hset

theorem Balanced.createFlags (pid ownerId : UInt32) (valid opened : Bool)
    (hsafe : a.Harmless (.create pid ownerId valid opened)) : (a.createFlags pid ownerId valid opened).2.Balanced := by
  unfold Accounts.createFlags claimObject
  by_cases hrefused : a.refuses pid ownerId valid
  · rwa [if_pos hrefused]
  rw [if_neg hrefused]
  obtain ⟨⟨⟨hpid, -⟩, -⟩, hcheck⟩ : ((pid ≠ invalidPid ∧ valid) ∧ ownerId ≠ 0) ∧ a.checkPipe pid := by
    simpa [refuses] using hrefused
  rcases hfirst : first a.pipes.objects fun p => !p.live with _ | i
  · exact h
  have hfree : (a.pipes.objects i).live = false := by simpa using first_some hfirst
  cases opened with
  | true =>
    simp only [if_pos, commitPipe, show ∀ pipes, { a with pipes }.checkPipe pid from fun _ => hcheck]
    refine h.set ?_ ?_ ?_
    · exact fun _ => hpid
    · intro c hc heq _
      have hsmall : c.pipeCount ≤ 16 := heq ▸ count_le ..
      have hsum : budgetSum c.pipeCount 1 = c.pipeCount + 1 := if_neg (by omega)
      rw [checkPipe, hc] at hcheck
      simp_all [ownedBy, claimed]
    · intro x hx
      simp [ownedBy, claimed, hfree, hx.symm]
  | false =>
    have hzero : ∀ c, a.contexts pid = some c → c.pipeCount = 0 := by
      simpa [Harmless, hrefused, show ¬ ∀ i, (a.pipes.objects i).live from fun h => by simp [h i] at hfree] using hsafe
    simp only [clearObject, Pipes.clearObject, Pipes.set_same, Pipes.set_set, Bool.false_eq_true, if_false]
    rw [if_pos ⟨rfl, hpid⟩, releasePipe]
    -- the count is 0 already, so nothing is given back
    refine h.set ?_ ?_ ?_
    · simp [clear]
    · intro c hc _ _
      simp [hzero c hc, ownedBy, hfree, clear]
    · simp [ownedBy, clear, hfree]

theorem Balanced.revokeHandle (handle ownerId : UInt32) (env : Env) :
    (a.revokeHandle handle ownerId env).Balanced := by
  unfold Accounts.revokeHandle
  rcases a.pipes.revoke_cases handle ownerId env with ⟨hfind, -⟩ | ⟨i, p, hfind, hrevoked, -, heq⟩
  · rw [hfind]
    exact h
  have hlive := (find_eq_some.1 hfind).live
  rw [hfind]
  simp only [heq, set_same]
  cases hrevoked with
  | held | closed =>
    rw [if_pos (by exact hlive)]
    exact h.set_keep rfl rfl
  | freed =>
    rw [if_neg (by simp [clear]), clearObject, if_pos ⟨hlive, h.named i hlive⟩, releasePipe]
    refine h.set ?_ ?_ ?_
    · simp [clear]
    · intro c _ heq hle
      have hpos : 0 < a.owned (a.pipes.objects i).ownerPid := count_pos (i := i) (by simp [ownedBy, hlive])
      simp [if_pos (heq ▸ hpos : 1 ≤ c.pipeCount), ownedBy, hlive, clear]
      omega
    · intro x hx
      simp [ownedBy, clear, hx.symm]

theorem Balanced.step (c : Call) (hsafe : a.Harmless c) : (a.step c).Balanced := by
  cases c with
  | create pid ownerId valid opened => exact h.createFlags pid ownerId valid opened hsafe
  | close handle ownerId env => exact h.revokeHandle handle ownerId env
  | grant handle sourceOwner targetOwner installed =>
    rcases a.pipes.grant_cases handle sourceOwner targetOwner installed with heq | ⟨i, -, -, heq⟩ <;> rw [Accounts.step, heq]
    · exact h
    · exact h.set_keep rfl rfl

end

theorem count_eq_owned (budget : UInt32 → Option Nat) (calls : List Call) (h : Meets step Harmless (start budget) calls)
    (pid : UInt32) (c : Context) (hc : (calls.foldl step (start budget)).contexts pid = some c) :
    c.pipeCount = (calls.foldl step (start budget)).owned pid ∧ c.pipeCount ≤ c.pipeBudget := by
  have hstart : (start budget).Balanced := by
    refine ⟨fun pid c hc => ?_, fun i hi => by simp [start, init, clear] at hi⟩
    obtain ⟨limit, -, rfl⟩ := Option.map_eq_some_iff.1 hc
    exact ⟨(count_eq_zero.2 fun i => rfl).symm, Nat.zero_le limit⟩
  exact (h.invariant (fun a c hbalanced hsafe => hbalanced.step c hsafe) hstart).count pid c hc

/-- Process 2 makes a pipe that gets no descriptors while it has none, then two pipes, and closes the first of them. -/
def madeAndClosed : List Call :=
  [.create 2 5 true false, .create 2 5 true true, .create 2 5 true true, .close (makeHandle firstPipe 3 .write) 5 .idle,
    .close (makeHandle firstPipe 3 .read) 5 .idle]

theorem count_eq_owned_closed : 1 = (madeAndClosed.foldl step (start fun _ => some 8)).owned 2 ∧ 1 ≤ 8 := by
  refine count_eq_owned (fun _ => some 8) madeAndClosed ?_ 2 ⟨8, 1⟩ rfl
  refine ⟨.inr (.inl fun c hc => ?_), .inl rfl, .inl rfl, trivial, trivial, trivial⟩
  obtain rfl : ⟨8, 0⟩ = c := Option.some.inj hc
  rfl

/-- A pipe of process 2, and one that gets no descriptors. -/
def noDescriptors : List Call := [.create 2 5 true true, .create 2 5 true false]

theorem failed_creation_gives_back :
    ((noDescriptors.foldl step (start fun _ => some 8)).contexts 2).map Context.pipeCount = some 0 ∧
      (noDescriptors.foldl step (start fun _ => some 8)).owned 2 = 1 := by
  decide

end Accounts

end LimitlessOS.Pipe
