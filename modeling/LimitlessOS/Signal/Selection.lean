/-
  LimitlessOS.Signal.Selection — which of the waiting signals is delivered.

  A delivery takes the lowest pending unmasked signal and looks at its action afterwards. If
  that is the default one it gives up and leaves the signal pending, so the next attempt
  ends at the same signal. The action SIG_IGN is not known: the number 1 is an address.

  Proved, for every set of pending signals, mask and table of actions:
  - `delivers_handled_iff`: when a delivery reaches a signal that has a handler, if there is
    one; if it does not deliver it changes nothing.
  - `delivers_handled_fails`: SIGUSR1 has a handler and SIGHUP, which has none, keeps it from
    being delivered.
-/
import LimitlessOS.Signal.ReturnFrames

namespace LimitlessOS.Signal

open Option

/-- The value of a handler that stands for SIG_IGN. -/
def ignoreHandler : UInt64 := 1

/-- The action calls a function of the process. -/
def SigAction.Handles (a : SigAction) : Prop := a.handler ≠ defaultHandler ∧ a.handler ≠ ignoreHandler

instance (a : SigAction) : Decidable a.Handles := inferInstanceAs (Decidable (_ ∧ _))

/-- A signal that waits, and has a handler. -/
def Context.WaitsHandled (context : Context) (i : Fin maxSignals) : Prop :=
  Waiting context.pending context.mask i ∧ (context.sigactions i).Handles

/-- A process in user mode with room on its stack. -/
structure Interruptible (c : Core) (pid : UInt32) (context : Context) : Prop where
  ready : c.personas.ready pid = some context
  selector : c.frame.cs &&& 3 = 3
  room : 608 ≤ c.frame.rsp.toNat
  writable : c.space.userBufferWritable (frameAddress c.frame.rsp) (UInt32.ofNat deliveryFrameBytes) = true

/-- A delivery reaches a handler, if a waiting signal has one. -/
def ReachesHandler (c : Core) (pid : UInt32) (context : Context) : Prop :=
  (∃ i, context.WaitsHandled i) →
    ∃ i, context.WaitsHandled i ∧ c.deliverPending pid = (true, c.enterHandler pid context i)

/-- No signal waits below the ones that have a handler. -/
def LowestHandled (context : Context) : Prop :=
  ∀ j, context.WaitsHandled j → ∃ i ≤ j, context.WaitsHandled i ∧ ∀ k < i, ¬ Waiting context.pending context.mask k

section

variable {c : Core} {pid : UInt32} {context : Context}

theorem Interruptible.delivers (h : Interruptible c pid context) {i : Fin maxSignals}
    (hfirst : signalFirstUnmasked context.pending context.mask = some i)
    (hhandler : (context.sigactions i).handler ≠ defaultHandler) : Delivers c pid context i :=
  ⟨h.ready, hfirst, hhandler, h.selector, h.room, h.writable⟩

/-- A signal that waits has a lowest one at or below it. -/
theorem exists_first {pending mask : UInt64} {j : Fin maxSignals} (h : Waiting pending mask j) :
    ∃ i ≤ j, signalFirstUnmasked pending mask = some i := by
  rcases hfirst : signalFirstUnmasked pending mask with _ | i
  · exact absurd h (signalFirstUnmasked_none.1 hfirst j)
  refine ⟨i, ?_, rfl⟩
  by_contra hlt
  exact (signalFirstUnmasked_some.1 hfirst).2 j (not_le.1 hlt) h

theorem enterHandler_rdi (i : Fin maxSignals) :
    (c.enterHandler pid context i).frame.rdi = UInt64.ofNat (i + 1) := rfl

/-- The signal of a delivery can be told from the frame. -/
theorem enterHandler_inj {i j : Fin maxSignals} (h : c.enterHandler pid context i = c.enterHandler pid context j) :
    i = j := by
  have hrdi := congrArg (fun d : Core => d.frame.rdi.toNat) h
  simp only [enterHandler_rdi, UInt64.toNat_ofNat'] at hrdi
  have hi : (i : Nat) < 64 := i.2
  have hj : (j : Nat) < 64 := j.2
  omega

theorem Interruptible.reachesHandler_iff (h : Interruptible c pid context) :
    ReachesHandler c pid context ↔ LowestHandled context := by
  constructor
  · intro hreach j hj
    obtain ⟨i, hi, heq⟩ := hreach ⟨j, hj⟩
    obtain ⟨first, hle, hfirst⟩ := exists_first hj.1
    -- what is delivered is the lowest waiting signal
    rcases c.deliverPending_cases pid with hno | ⟨context', i', hd, heq'⟩
    · simp [hno] at heq
    obtain rfl : context = context' := mem_unique h.ready hd.ready
    obtain rfl : first = i' := mem_unique hfirst hd.first
    rw [heq'] at heq
    obtain rfl := enterHandler_inj (Prod.mk.inj heq).2
    exact ⟨first, hle, hi, (signalFirstUnmasked_some.1 hfirst).2⟩
  · rintro hlowest ⟨j, hj⟩
    obtain ⟨i, -, hi, hbelow⟩ := hlowest j hj
    have hfirst := signalFirstUnmasked_some.2 ⟨hi.1, hbelow⟩
    exact ⟨i, hi, Core.deliverPending_of_delivers (h.delivers hfirst hi.2.1)⟩

/-- When a delivery reaches a handler if a waiting signal has one. -/
theorem delivers_handled_iff (h : Interruptible c pid context) :
    (ReachesHandler c pid context ↔ LowestHandled context) ∧
      ((c.deliverPending pid).1 = false → (c.deliverPending pid).2 = c) := by
  refine ⟨h.reachesHandler_iff, fun hno => ?_⟩
  rcases c.deliverPending_cases pid with heq | ⟨context, i, -, heq⟩
  · rw [heq]
  · simp [heq] at hno

end

/-- SIGHUP and SIGUSR1 wait, and only SIGUSR1 has a handler. -/
def hangupContext : Context := (context 0x201 ⟨0, 0, 0, 0⟩).setAction sigusr1 ⟨0x44100100, 0, 0x44100200, 0⟩

def hangupCore : Core where
  personas := personas hangupContext
  space := stackSpace fun _ => 0
  frame := userFrame

theorem hangupCore_interruptible : Interruptible hangupCore 1 hangupContext :=
  ⟨rfl, by decide, by decide, by decide +kernel⟩

theorem delivers_handled_sigusr1 :
    Interruptible wildCore 1 (context 0x200 ⟨userCanonicalLimit, 0, 0, 0⟩) ∧
      ReachesHandler wildCore 1 (context 0x200 ⟨userCanonicalLimit, 0, 0, 0⟩) := by
  have h : Interruptible wildCore 1 (context 0x200 ⟨userCanonicalLimit, 0, 0, 0⟩) :=
    ⟨rfl, by decide, by decide, by decide +kernel⟩
  refine ⟨h, (delivers_handled_iff h).1.2 fun j hj => ?_⟩
  have hfirst : signalFirstUnmasked 0x200 0 = some sigusr1 := by decide +kernel
  obtain ⟨i, hle, hi⟩ := exists_first hj.1
  obtain rfl : sigusr1 = i := mem_unique hfirst hi
  exact ⟨_, hle, ⟨(signalFirstUnmasked_some.1 hi).1, by decide⟩, (signalFirstUnmasked_some.1 hi).2⟩

theorem delivers_handled_fails :
    Interruptible hangupCore 1 hangupContext ∧ hangupContext.WaitsHandled sigusr1 ∧
      (hangupCore.deliverPending 1).1 = false ∧ (hangupCore.deliverPending 1).2 = hangupCore := by
  have hfirst : signalFirstUnmasked hangupContext.pending hangupContext.mask = some ⟨0, by decide⟩ := by decide +kernel
  rcases hangupCore.deliverPending_cases 1 with heq | ⟨context, i, hd, -⟩
  · exact ⟨hangupCore_interruptible, ⟨by decide, by decide⟩, by rw [heq], by rw [heq]⟩
  · obtain rfl : hangupContext = context := mem_unique hangupCore_interruptible.ready hd.ready
    obtain rfl : ⟨0, by decide⟩ = i := mem_unique hfirst hd.first
    exact absurd rfl hd.handler

end LimitlessOS.Signal
