/-
  LimitlessOS.Signal.Steps — what a delivery and a return can do.

  A refused call changes nothing at all: the mask that a delivery writes back has never had
  SIGKILL or SIGSTOP in it.

  Proved:
  - `deliverPending_cases`, `rtSigreturn_cases`: a call is refused, or all its checks held
    and its effect is `enterHandler`, respectively `returned`.
  - `signalFirstUnmasked_some`, `signalFirstUnmasked_none`: the lowest waiting signal.
  - `frameAddress_toNat`: where the frame goes.
-/
import LimitlessOS.Signal.Delivery

namespace LimitlessOS.Signal

open Lib

/-! ## Contexts -/

theorem and_not_of_and_eq_zero {a b : UInt64} (h : a &&& b = 0) : a &&& ~~~b = a := by
  apply UInt64.eq_of_toBitVec_eq
  have hb : a.toBitVec &&& b.toBitVec = 0#64 := by simpa using congrArg UInt64.toBitVec h
  apply BitVec.eq_of_getLsbD_eq
  intro i hi
  have hbit := congrArg (fun v => v.getLsbD i) hb
  simp only [BitVec.getLsbD_and, BitVec.getLsbD_zero] at hbit
  simp only [UInt64.toBitVec_and, UInt64.toBitVec_not, BitVec.getLsbD_and, BitVec.getLsbD_not, hi, decide_true, Bool.true_and]
  cases ha : a.toBitVec.getLsbD i
  · rfl
  · rw [ha, Bool.true_and] at hbit
    rw [hbit]
    rfl

@[simp] theorem Context.setMask_self (c : Context) : c.setMask c.mask = c := by
  obtain ⟨personaType, group, pending, mask, actions, hmask⟩ := c
  simp only [setMask, and_not_of_and_eq_zero hmask]

namespace Personas

variable {p : Personas} {pid : UInt32} {context : Context}

/-- What `ready` has tested. -/
theorem ready_eq_some :
    p.ready pid = some context ↔
      pid ≠ invalidPid ∧ p.principal pid ≠ 0 ∧ p.context pid = some context ∧ context.personaType = .linuxElf := by
  unfold ready
  split_ifs with h
  · constructor
    · intro hnone
      cases hnone
    · intro hall
      rcases h with h | h
      · exact absurd h hall.1
      · exact absurd h hall.2.1
  · simp only [not_or] at h
    simp [h]

theorem set_ready (h : p.ready pid = some context) : p.set pid context = p := by
  have hc := (ready_eq_some.1 h).2.2.1
  unfold set
  rw [← hc, Function.update_eq_self]

theorem set_context (q : UInt32) : (p.set pid context).context q = if q = pid then some context else p.context q := by
  simp [set, Function.update_apply]

theorem ready_set {c' : Context} (h : p.ready pid = some context) (htype : c'.personaType = context.personaType) :
    (p.set pid c').ready pid = some c' := by
  obtain ⟨hpid, hprincipal, -, hlinux⟩ := ready_eq_some.1 h
  rw [ready_eq_some]
  exact ⟨hpid, hprincipal, by rw [set_context, if_pos rfl], htype.trans hlinux⟩

end Personas

/-! ## The lowest waiting signal -/

/-- The signal is pending and not masked. -/
def Waiting (pending mask : UInt64) (i : Fin maxSignals) : Prop := (pending &&& ~~~mask) &&& signalBit i ≠ 0

instance (pending mask : UInt64) (i : Fin maxSignals) : Decidable (Waiting pending mask i) :=
  inferInstanceAs (Decidable (_ ≠ _))

theorem signalFirstUnmasked_some {pending mask : UInt64} {i : Fin maxSignals} :
    signalFirstUnmasked pending mask = some i ↔ Waiting pending mask i ∧ ∀ j < i, ¬ Waiting pending mask j := by
  unfold signalFirstUnmasked
  rw [List.find?_eq_some_iff_getElem]
  constructor
  · rintro ⟨hi, k, hk, hki, hbefore⟩
    have hkval : k = i := by rw [← hki]; simp
    refine ⟨by simpa [Waiting] using hi, fun j hj => ?_⟩
    have hjk : (j : Nat) < k := by rw [hkval]; exact hj
    have := hbefore j hjk
    simpa [Waiting] using this
  · rintro ⟨hi, hbefore⟩
    refine ⟨by simpa [Waiting] using hi, i, by simp, by simp, fun j hj => ?_⟩
    have := hbefore ⟨j, by omega⟩ hj
    simpa [Waiting] using this

theorem signalFirstUnmasked_none {pending mask : UInt64} :
    signalFirstUnmasked pending mask = none ↔ ∀ i, ¬ Waiting pending mask i := by
  simp [signalFirstUnmasked, Waiting]

/-! ## Where the frame goes -/

theorem toNat_and_not_15 (x : UInt64) : (x &&& ~~~(deliveryAlign - 1)).toNat = x.toNat / 16 * 16 := by
  have hmask : x &&& ~~~(deliveryAlign - 1) = (x >>> 4) <<< 4 := by
    have hbits : ∀ i < 64, (~~~(deliveryAlign - 1)).toBitVec.getLsbD i = !decide (i < 4) := by decide
    apply UInt64.eq_of_toBitVec_eq
    apply BitVec.eq_of_getLsbD_eq
    intro i hi
    rw [UInt64.toBitVec_and, BitVec.getLsbD_and, hbits i hi]
    by_cases h : i < 4
    · simp [h]
    · simp [h, hi, Nat.add_sub_cancel' (Nat.le_of_not_lt h)]
  have hx := x.toNat_lt
  have h4 : (4 : UInt64).toNat % 64 = 4 := rfl
  rw [hmask, UInt64.toNat_shiftLeft, UInt64.toNat_shiftRight, Nat.shiftRight_eq_div_pow, Nat.shiftLeft_eq, h4]
  omega

/-- The frame ends below the red zone. -/
theorem frameAddress_toNat {rsp : UInt64} (h : 608 ≤ rsp.toNat) :
    (frameAddress rsp).toNat = (rsp.toNat - 592) / 16 * 16 - 8 := by
  have hsub : (rsp - redzoneBytes - UInt64.ofNat deliveryFrameBytes).toNat = rsp.toNat - 592 := by
    rw [UInt64.toNat_sub_of_le, UInt64.toNat_sub_of_le]
    · show rsp.toNat - 128 - 464 = _
      omega
    · show 128 ≤ rsp.toNat
      omega
    rw [UInt64.le_iff_toNat_le, UInt64.toNat_sub_of_le]
    · show 464 ≤ rsp.toNat - 128
      omega
    · show 128 ≤ rsp.toNat
      omega
  have halign := toNat_and_not_15 (rsp - redzoneBytes - UInt64.ofNat deliveryFrameBytes)
  rw [hsub] at halign
  rw [frameAddress, UInt64.toNat_sub_of_le, halign]
  · rfl
  · rw [UInt64.le_iff_toNat_le, halign]
    show 8 ≤ _
    omega

/-! ## The two calls -/

/-- The checks of a delivery hold, and `i` is the signal. -/
structure Delivers (c : Core) (pid : UInt32) (context : Context) (i : Fin maxSignals) : Prop where
  ready : c.personas.ready pid = some context
  first : signalFirstUnmasked context.pending context.mask = some i
  handler : (context.sigactions i).handler ≠ defaultHandler
  selector : c.frame.cs &&& 3 = 3
  room : 608 ≤ c.frame.rsp.toNat
  writable : c.space.userBufferWritable (frameAddress c.frame.rsp) (UInt32.ofNat deliveryFrameBytes) = true

/-- The checks of a return hold. -/
structure Returns (c : Core) (pid : UInt32) (context : Context) : Prop where
  ready : c.personas.ready pid = some context
  selector : c.frame.cs &&& 3 = 3
  room : 8 ≤ c.frame.rsp.toNat
  readable : c.space.userBufferReadable (c.frame.rsp - 8) (UInt32.ofNat deliveryFrameBytes) = true
  valid : contextValid c.savedFrame.ucontext = true

namespace Core

variable {c : Core} {pid : UInt32} {context : Context} {i : Fin maxSignals}

/-- What a successful return leaves. -/
def returned (c : Core) (pid : UInt32) (context : Context) : Core :=
  { c with
    personas := c.personas.set pid (context.setMask c.savedFrame.ucontext.sigmask)
    frame := restoredFrame c.frame c.savedFrame.ucontext.mcontext }

/-- The structure is read back as it was written, if its bytes are still there. -/
theorem savedFrame_eq {m : Memory} {d : DeliveryFrame}
    (h : ∀ x, Memory.InRange (c.frame.rsp - 8) deliveryFrameBytes x →
      c.space.memory x = m.copyTo (c.frame.rsp - 8) d.bytes x) : c.savedFrame = d := by
  have hsize : d.bytes.length ≤ 2 ^ 64 := by rw [DeliveryFrame.length_bytes]; decide
  have hread := Memory.copyFrom_congr (by decide) h
  rw [← DeliveryFrame.length_bytes d, Memory.copyFrom_copyTo _ _ hsize] at hread
  unfold savedFrame Space.copyFromUser
  rw [show 8 * deliveryFrameWords = d.bytes.length by rw [DeliveryFrame.length_bytes]; rfl, hread]
  exact d.ofBytes_bytes

theorem setContext_ready (h : c.personas.ready pid = some context) : c.setContext pid context = c := by
  unfold setContext
  rw [Personas.set_ready h]

theorem rsp_room (rsp : UInt64) :
    rsp < UInt64.ofNat deliveryFrameBytes + deliveryAlign + redzoneBytes ↔ ¬ 608 ≤ rsp.toNat := by
  show rsp.toNat < 608 ↔ _
  omega

theorem deliverPending_of_delivers (h : Delivers c pid context i) :
    c.deliverPending pid = (true, c.enterHandler pid context i) := by
  simp only [deliverPending, h.ready, Context.setMask_self, setContext_ready h.ready, h.first, if_neg h.handler, h.selector,
    ne_eq, not_true_eq_false, if_false, rsp_room, h.room, h.writable, Bool.not_true, Bool.false_eq_true]

theorem deliverPending_cases (c : Core) (pid : UInt32) :
    c.deliverPending pid = (false, c) ∨
      ∃ context i, Delivers c pid context i ∧ c.deliverPending pid = (true, c.enterHandler pid context i) := by
  rcases hready : c.personas.ready pid with _ | context
  · exact .inl (by simp only [deliverPending, hready])
  cases hfirst : signalFirstUnmasked context.pending context.mask with
  | none =>
    left
    simp only [deliverPending, hready, Context.setMask_self, setContext_ready hready, hfirst]
  | some i =>
    by_cases hall : Delivers c pid context i
    · exact .inr ⟨context, i, hall, deliverPending_of_delivers hall⟩
    left
    simp only [deliverPending, hready, Context.setMask_self, setContext_ready hready, hfirst]
    split_ifs with hhandler hcs hroom hwritable
    · rfl
    · rfl
    · rfl
    · rfl
    · rw [rsp_room, not_not] at hroom
      exact absurd ⟨hready, hfirst, hhandler, not_not.1 hcs, hroom, by simpa using hwritable⟩ hall

theorem rtSigreturn_of_returns (h : Returns c pid context) :
    c.rtSigreturn pid = (true, c.savedFrame.ucontext.mcontext.rax, c.returned pid context) := by
  have hroom : ¬ c.frame.rsp < 8 := by
    exact Nat.not_lt.2 h.room
  simp only [rtSigreturn, h.ready, h.selector, ne_eq, not_true_eq_false, if_false, hroom, h.readable, h.valid, Bool.not_true,
    Bool.false_eq_true]
  rfl

theorem rtSigreturn_cases (c : Core) (pid : UInt32) :
    (∃ code, c.rtSigreturn pid = (false, code, c)) ∨
      ∃ context, Returns c pid context ∧
        c.rtSigreturn pid = (true, c.savedFrame.ucontext.mcontext.rax, c.returned pid context) := by
  rcases hready : c.personas.ready pid with _ | context
  · exact .inl ⟨errorReturn esrch, by simp only [rtSigreturn, hready]⟩
  by_cases hall : Returns c pid context
  · exact .inr ⟨context, hall, rtSigreturn_of_returns hall⟩
  left
  simp only [rtSigreturn, hready]
  split_ifs with hcs hroom hreadable hvalid
  · exact ⟨_, rfl⟩
  · exact ⟨_, rfl⟩
  · exact ⟨_, rfl⟩
  · exact ⟨_, rfl⟩
  · rw [UInt64.lt_iff_toNat_lt, Nat.not_lt] at hroom
    exact absurd ⟨hready, not_not.1 hcs, hroom, by simpa using hreadable, by simpa using hvalid⟩ hall

end Core

end LimitlessOS.Signal
