/-
  LimitlessOS.Signal.Changes — what the signal calls do to the persona contexts.

  Every call leaves the contexts as they are, sets one action, takes pending signals away
  and sets a mask, or marks one signal pending. SIGKILL and SIGSTOP keep their default
  actions, so when no other signal is pending and unmasked nothing is delivered.

  Proved:
  - `change_deliverPending`, `change_rtSigreturn`, `change_rtSigaction`,
    `change_rtSigprocmask`, `change_signalTranslate`, `change_markSignalPending`.
  - `Change.isSome`, `Change.fixed`: no context appears or goes, and the two actions stay.
  - `deliverPending_quiet`: no delivery without an unmasked signal.
-/
import LimitlessOS.Signal.Steps

namespace LimitlessOS.Signal

open Lib

/-- The indices of SIGKILL and SIGSTOP. -/
def Unblockable (i : Fin maxSignals) : Prop := i.val + 1 = sigkill.toNat ∨ i.val + 1 = sigstop.toNat

instance (i : Fin maxSignals) : Decidable (Unblockable i) := inferInstanceAs (Decidable (_ ∨ _))

/-- SIGKILL and SIGSTOP have their default actions. -/
def Context.Fixed (c : Context) : Prop := ∀ i, Unblockable i → (c.sigactions i).handler = defaultHandler

/-- The bits of the first set are in the second. -/
def Bits (a b : UInt64) : Prop := a &&& b = a

/-- What a call can do to the contexts. -/
inductive Personas.Change (p : Personas) : Personas → Prop
  | same : Change p p
  | action {pid : UInt32} {c : Context} (hc : p.ready pid = some c) {i : Fin maxSignals} (hi : ¬ Unblockable i)
      (a : SigAction) : Change p (p.set pid (c.setAction i a))
  | masked {pid : UInt32} {c : Context} (hc : p.ready pid = some c) {pending : UInt64} (hpending : Bits pending c.pending)
      (mask : UInt64) : Change p (p.set pid ((c.setPending pending).setMask mask))
  | sent {target : UInt32} {c : Context} (hc : p.ready target = some c) {signal : UInt32} (hbit : signalMaskFor signal ≠ 0) :
      Change p (p.set target (c.setPending (c.pending ||| signalMaskFor signal)))

theorem Bits.refl (a : UInt64) : Bits a a := UInt64.and_self

theorem Bits.and (a b : UInt64) : Bits (a &&& b) a := by
  unfold Bits
  rw [UInt64.and_comm (a &&& b) a, ← UInt64.and_assoc, UInt64.and_self]

namespace Core

variable (c : Core) (pid : UInt32)

theorem change_deliverPending : c.personas.Change (c.deliverPending pid).2.personas := by
  rcases c.deliverPending_cases pid with heq | ⟨context, i, hd, heq⟩
  · rw [heq]
    exact .same
  · rw [heq]
    exact .masked hd.ready (.and _ _) _

theorem change_rtSigreturn : c.personas.Change (c.rtSigreturn pid).2.2.personas := by
  rcases c.rtSigreturn_cases pid with ⟨code, heq⟩ | ⟨context, hr, heq⟩
  · rw [heq]
    exact .same
  · rw [heq]
    exact .masked hr.ready (.refl _) _

/-- The index of a signal that is neither SIGKILL nor SIGSTOP. -/
theorem not_unblockable {n : UInt64} (hzero : n ≠ 0) (h : ¬ (n = sigkill.toUInt64 ∨ n = sigstop.toUInt64))
    (hlt : n.toNat - 1 < maxSignals) : ¬ Unblockable ⟨n.toNat - 1, hlt⟩ := by
  have hpos : n.toNat ≠ 0 := fun hn => hzero (UInt64.toNat_inj.1 hn)
  intro hun
  apply h
  rcases hun with hk | hs
  · left
    apply UInt64.toNat_inj.1
    rw [UInt32.toNat_toUInt64, ← hk]
    simp only
    omega
  · right
    apply UInt64.toNat_inj.1
    rw [UInt32.toNat_toUInt64, ← hs]
    simp only
    omega

theorem change_rtSigaction (signalNumber userAct userOldact sigsetSize : UInt64) :
    c.personas.Change (c.rtSigaction pid signalNumber userAct userOldact sigsetSize).2.personas := by
  unfold rtSigaction
  rcases hready : c.personas.ready pid with _ | context
  · exact .same
  simp only
  split_ifs with hargs hkill hold hact hset
  any_goals exact .same
  all_goals exact .action hready (not_unblockable hargs.2.1 (fun h => hkill ⟨hset, h⟩) hargs.1) _

theorem change_rtSigprocmask (how userSet userOldset sigsetSize : UInt64) :
    c.personas.Change (c.rtSigprocmask pid how userSet userOldset sigsetSize).2.personas := by
  unfold rtSigprocmask
  rcases hready : c.personas.ready pid with _ | context
  · exact .same
  simp only
  split_ifs
  all_goals first | exact .same | exact .masked hready (.refl _) _

end Core

namespace Personas

variable {p p' : Personas}

theorem change_signalTranslate (p : Personas) (pid : UInt32) (target signalNumber : UInt64) :
    p.Change (p.signalTranslate pid target signalNumber).2 := by
  unfold signalTranslate
  rcases hready : p.ready pid with _ | source
  · exact .same
  simp only
  generalize (if target = 0 then pid else if target ≤ 0xFFFFFFFF then target.toUInt32 else invalidPid) = targetPid
  by_cases hnumber : 64 < signalNumber
  · rw [if_pos hnumber]
    exact .same
  rw [if_neg hnumber]
  by_cases hgone : targetPid = invalidPid ∨ p.principal targetPid = 0
  · rw [if_pos hgone]
    exact .same
  rw [if_neg hgone]
  rcases hcontext : p.context targetPid with _ | context
  · exact .same
  simp only
  split_ifs with hcan htype hbit
  · exact .same
  · exact .same
  · have htarget : p.ready targetPid = some context := by
      rw [ready_eq_some]
      exact ⟨fun h => hgone (.inl h), fun h => hgone (.inr h), hcontext, not_not.1 htype⟩
    exact .sent htarget hbit
  · exact .same

theorem change_markSignalPending (p : Personas) (pid signalNumber : UInt32) :
    p.Change (p.markSignalPending pid signalNumber) := by
  unfold markSignalPending
  rcases hready : p.ready pid with _ | context
  · exact .same
  simp only
  split_ifs with hbit
  · exact .same
  · exact .sent hready hbit

namespace Change

/-- What a change does to one context. -/
theorem context_cases (h : p.Change p') (x : UInt32) :
    p'.context x = p.context x ∨ ∃ c c', p.context x = some c ∧ p'.context x = some c' ∧ (c.Fixed → c'.Fixed) ∧
      c'.personaType = c.personaType := by
  have hset : ∀ {pid c c'}, p.ready pid = some c → (c.Fixed → c'.Fixed) → c'.personaType = c.personaType →
      (p.set pid c').context x = p.context x ∨ ∃ d d', p.context x = some d ∧ (p.set pid c').context x = some d' ∧
        (d.Fixed → d'.Fixed) ∧ d'.personaType = d.personaType := by
    intro pid c c' hc hfixed htype
    by_cases hx : x = pid
    · subst hx
      exact .inr ⟨c, c', (ready_eq_some.1 hc).2.2.1, by rw [set_context, if_pos rfl], hfixed, htype⟩
    · exact .inl (by rw [set_context, if_neg hx])
  cases h with
  | same => exact .inl rfl
  | @action pid c hc i hi a =>
    refine hset hc ?_ rfl
    intro hfixed j hj
    have hji : j ≠ i := by
      intro hji
      rw [hji] at hj
      exact hi hj
    show (Function.update c.sigactions i a j).handler = _
    rw [Function.update_of_ne hji]
    exact hfixed j hj
  | masked hc hpending mask | sent hc hbit => exact hset hc (fun h => h) rfl

theorem isSome (h : p.Change p') (x : UInt32) : (p'.context x).isSome = (p.context x).isSome := by
  rcases h.context_cases x with heq | ⟨c, c', hc, hc', -⟩
  · rw [heq]
  · rw [hc, hc']
    rfl

theorem fixed (h : p.Change p') {x : UInt32} (hfixed : ∀ c, p.context x = some c → c.Fixed) {c' : Context}
    (hc' : p'.context x = some c') : c'.Fixed := by
  rcases h.context_cases x with heq | ⟨c, d, hc, hd, hkeep, -⟩
  · exact hfixed c' (heq ▸ hc')
  · obtain rfl := Option.mem_unique hc' hd
    exact hkeep (hfixed c hc)

end Change

end Personas

/-! ## No signal, no delivery -/

theorem signalBit_toBitVec : ∀ i : Fin maxSignals, (signalBit i).toBitVec = BitVec.twoPow 64 i := by decide

theorem and_signalBit_ne_zero (a : UInt64) (i : Fin maxSignals) : a &&& signalBit i ≠ 0 ↔ a.toBitVec.getLsbD i := by
  have hbit : ∀ i : Fin maxSignals, BitVec.twoPow 64 i ≠ 0#64 := by decide
  rw [ne_eq, ← UInt64.toBitVec_inj, UInt64.toBitVec_and, signalBit_toBitVec, BitVec.and_twoPow]
  cases a.toBitVec.getLsbD i with
  | true => simpa using hbit i
  | false => simp

/-- Only SIGKILL and SIGSTOP can wait. -/
theorem unblockable_of_quiet {pending mask : UInt64} (h : pending &&& ~~~(mask ||| unblockableMask) = 0) {i : Fin maxSignals}
    (hi : Waiting pending mask i) : Unblockable i := by
  have hmask : ∀ i : Fin maxSignals, unblockableMask.toBitVec.getLsbD i → Unblockable i := by decide
  apply hmask
  have hbit := (and_signalBit_ne_zero _ i).1 hi
  have hnone := congrArg (fun a : UInt64 => a.toBitVec.getLsbD i) h
  simp only [UInt64.toBitVec_and, UInt64.toBitVec_not, UInt64.toBitVec_or, BitVec.getLsbD_and, BitVec.getLsbD_not,
    BitVec.getLsbD_or, UInt64.toBitVec_zero, BitVec.getLsbD_zero] at hbit hnone
  have hlt : (i : Nat) < 64 := i.isLt
  simp only [hlt, decide_true, Bool.true_and, Bool.and_eq_true, Bool.not_eq_true'] at hbit
  cases hun : unblockableMask.toBitVec.getLsbD i with
  | true => rfl
  | false =>
    rw [hbit.1, hbit.2, hun] at hnone
    simp [hlt] at hnone

theorem Core.deliverPending_quiet {c : Core} {pid : UInt32}
    (hfixed : ∀ context, c.personas.context pid = some context → context.Fixed)
    (hquiet : c.personas.unmaskedSignalPending pid = false) :
    c.deliverPending pid = (false, c) := by
  rcases c.deliverPending_cases pid with heq | ⟨context, i, hd, -⟩
  · exact heq
  exfalso
  rw [Personas.unmaskedSignalPending, hd.ready] at hquiet
  have hnone : context.pending &&& ~~~(context.mask ||| unblockableMask) = 0 := by simpa using hquiet
  have hun := unblockable_of_quiet hnone (signalFirstUnmasked_some.1 hd.first).1
  exact hd.handler (hfixed context (Personas.ready_eq_some.1 hd.ready).2.2.1 i hun)

end LimitlessOS.Signal
