/-
  LimitlessOS.Signal.RoundTrip — a delivery and the return that matches it.

  A handler runs between the two: it may change registers, memory, masks and actions, take
  further signals and return from them. It leaves alone the frames that deliveries have put
  on the stack, works below them, and calls `rt_sigreturn` with the stack pointer just past
  the restorer slot of the newest one. `Handling` keeps the frames that are still to be
  returned to in a list, the newest first.

  The return puts everything back, but it is refused if the interrupted code had one of the
  flag bits 20 and 21 set (21 is the identification bit, which user code may set), or if the
  stack can be written and not read.

  Proved:
  - `return_restores_iff`: when the return restores the frame and the mask, for whatever ran in
    between; a delivery writes nothing at or above 128 bytes below the stack pointer; and in
    a run of any depth whose calls meet the condition every return restores the frame of
    its delivery.
  - `restores_fails`: a return that is refused.
-/
import LimitlessOS.Signal.ReturnFrames

namespace LimitlessOS.Signal

open Lib Memory List Option Personas

/-- Selectors and addresses of a user frame. -/
structure Frame.Valid (f : Frame) : Prop where
  cs : f.cs &&& 3 = 3
  ss : f.ss &&& 3 = 3
  rip_ne : f.rip ≠ 0
  rip : f.rip < userCanonicalLimit
  rsp_ne : f.rsp ≠ 0
  rsp : f.rsp < userCanonicalLimit

/-- The flag bits that a return does not restore. -/
def rflagsUnrestored : UInt64 := rflagsFixedBit ||| rflagsForbiddenMask

/-- All registers and selectors are as before, and the flags but for the fixed and forbidden bits. -/
structure Frame.Restored (f g : Frame) : Prop where
  registers : { g with vector := f.vector, errorCode := f.errorCode, rflags := f.rflags } = f
  flags : g.rflags &&& ~~~rflagsUnrestored = f.rflags &&& ~~~rflagsUnrestored

/-- The signal mask of a process. -/
def Personas.maskOf (p : Personas) (pid : UInt32) : Option UInt64 := (p.ready pid).map Context.mask

/-! ## One signal -/

/-- A frame that a delivery has left on the stack, and what it was made from. -/
structure Saved where
  frame : Frame
  context : Context
  signal : Fin maxSignals
  principal : UInt32

namespace Saved

def address (s : Saved) : UInt64 := frameAddress s.frame.rsp

def data (s : Saved) (pid : UInt32) : DeliveryFrame :=
  deliveryFrame s.frame (s.context.sigactions s.signal) s.context.mask s.signal pid s.principal

/-- The bytes of the frame are on the stack. -/
def Stands (s : Saved) (pid : UInt32) (m : Memory) : Prop :=
  ∀ x, InRange s.address deliveryFrameBytes x → m x = copyTo (fun _ => 0) s.address (s.data pid).bytes x

end Saved

/-- The handler is about to return from the frame. -/
structure Returning (c : Core) (pid : UInt32) (s : Saved) : Prop where
  ready : (c.personas.ready pid).isSome = true
  selector : c.frame.cs &&& 3 = 3
  rsp : c.frame.rsp = s.address + 8
  stands : s.Stands pid c.space.memory

/-- The return succeeds and restores the frame and the mask. -/
structure Restores (c : Core) (pid : UInt32) (s : Saved) : Prop where
  succeeds : (c.rtSigreturn pid).1 = true
  frame : s.frame.Restored (c.rtSigreturn pid).2.2.frame
  mask : (c.rtSigreturn pid).2.2.personas.maskOf pid = some s.context.mask

theorem copyTo_inside {m m' : Memory} {a x : UInt64} {bytes : List UInt8} (h : InRange a bytes.length x) :
    m.copyTo a bytes x = m'.copyTo a bytes x := by
  unfold copyTo
  rw [getD_eq_getElem _ _ h, getD_eq_getElem _ _ h]

variable {c : Core} {pid : UInt32} {s : Saved} {i : Fin maxSignals}

theorem Returning.savedFrame (h : Returning c pid s) : c.savedFrame = s.data pid := by
  have haddress : c.frame.rsp - 8 = s.address := by rw [h.rsp, add_sub_cancel_right]
  apply Core.savedFrame_eq (m := fun _ => 0)
  rw [haddress]
  exact h.stands

theorem restored_flags (e : UInt64) :
    ((e ||| rflagsFixedBit) &&& ~~~rflagsForbiddenMask) &&& ~~~rflagsUnrestored = e &&& ~~~rflagsUnrestored :=
  restored_and (by decide)

/-- A return restores exactly if it is not refused for the flags, and the stack can be read. -/
theorem Returning.restores_iff (h : Returning c pid s) (hvalid : s.frame.Valid)
    (hroom : 608 ≤ s.frame.rsp.toNat) :
    Restores c pid s ↔
      s.frame.rflags &&& rflagsForbiddenMask = 0 ∧
        c.space.userBufferReadable s.address (UInt32.ofNat deliveryFrameBytes) := by
  have haddress : c.frame.rsp - 8 = s.address := by rw [h.rsp, add_sub_cancel_right]
  obtain ⟨context, hready⟩ := isSome_iff_exists.1 h.ready
  constructor
  · intro hr
    rcases c.rtSigreturn_cases pid with ⟨code, heq⟩ | ⟨_, hreturns, -⟩
    · have := hr.succeeds
      simp [heq] at this
    · have hflags := ((contextValid_iff _).1 hreturns.valid).2.2
      rw [h.savedFrame] at hflags
      exact ⟨hflags, haddress ▸ hreturns.readable⟩
  · rintro ⟨hflags, hreadable⟩
    have hrsp : 8 ≤ c.frame.rsp.toNat := by
      have hlimit : s.frame.rsp.toNat < 0x800000000000 := UInt64.lt_iff_toNat_lt.1 hvalid.rsp
      have ha := frameAddress_toNat hroom
      rw [h.rsp, UInt64.toNat_add]
      show 8 ≤ ((frameAddress s.frame.rsp).toNat + 8) % 2 ^ 64
      omega
    have hreturns : Returns c pid context := by
      refine ⟨hready, h.selector, hrsp, haddress.symm ▸ hreadable, ?_⟩
      rw [h.savedFrame, contextValid_iff]
      exact ⟨⟨hvalid.cs, hvalid.ss⟩, ⟨hvalid.rip_ne, hvalid.rip, hvalid.rsp_ne, hvalid.rsp⟩, hflags⟩
    have heq := Core.rtSigreturn_of_returns hreturns
    have hframe : (c.returned pid context).frame = restoredFrame c.frame (s.data pid).ucontext.mcontext := by
      rw [← h.savedFrame]
      rfl
    have hmask : c.savedFrame.ucontext.sigmask = s.context.mask := by
      rw [h.savedFrame]
      rfl
    refine ⟨by rw [heq], ?_, ?_⟩
    · rw [heq]
      rw [hframe]
      exact ⟨rfl, restored_flags _⟩
    · rw [heq]
      show (c.personas.set pid (context.setMask c.savedFrame.ucontext.sigmask)).maskOf pid = _
      rw [maskOf, ready_set hready (by rfl), hmask, map_some]
      exact congrArg some (and_not_of_and_eq_zero s.context.blockable)

/-! ## What a delivery writes -/

/-- The range of a frame, as addresses below the red zone. -/
theorem inRange_frame {rsp x : UInt64} (hroom : 608 ≤ rsp.toNat) :
    InRange (frameAddress rsp) deliveryFrameBytes x ↔
      (frameAddress rsp).toNat ≤ x.toNat ∧ x.toNat < (frameAddress rsp).toNat + 464 := by
  have ha := frameAddress_toNat hroom
  have hx := x.toNat_lt
  have hr := rsp.toNat_lt
  unfold InRange
  rw [UInt64.toNat_sub]
  show _ < 464 ↔ _
  omega

theorem Delivers.memory_above {context : Context} (h : Delivers c pid context i) {x : UInt64}
    (hx : c.frame.rsp.toNat - 128 ≤ x.toNat) : (c.enterHandler pid context i).space.memory x = c.space.memory x := by
  apply copyTo_outside
  have ha := frameAddress_toNat h.room
  have hroom := h.room
  show ¬ InRange _ (DeliveryFrame.bytes _).length x
  rw [DeliveryFrame.length_bytes, inRange_frame h.room]
  omega

/-- What a delivery to the process would save. -/
def Core.interrupted (c : Core) (pid : UInt32) : Option Saved :=
  (c.personas.ready pid).bind fun context =>
    (signalFirstUnmasked context.pending context.mask).map fun i => ⟨c.frame, context, i, c.personas.principal pid⟩

theorem Delivers.interrupted {context : Context} (h : Delivers c pid context i) :
    c.interrupted pid = some ⟨c.frame, context, i, c.personas.principal pid⟩ := by
  rw [Core.interrupted, h.ready, bind_some, h.first, map_some]

/-- A successful delivery leaves what it saves on the stack. -/
theorem stands_of_delivered (hok : (c.deliverPending pid).1) (hs : c.interrupted pid = some s) :
    s.Stands pid (c.deliverPending pid).2.space.memory ∧ 608 ≤ s.frame.rsp.toNat ∧ s.frame = c.frame ∧
      ∀ x : UInt64, c.frame.rsp.toNat - 128 ≤ x.toNat → (c.deliverPending pid).2.space.memory x = c.space.memory x := by
  rcases c.deliverPending_cases pid with heq | ⟨context, i, hd, heq⟩
  · simp [heq] at hok
  rw [hd.interrupted] at hs
  obtain rfl := some.inj hs
  rw [heq]
  refine ⟨fun x hx => ?_, hd.room, rfl, fun x hx => hd.memory_above hx⟩
  apply copyTo_inside
  show InRange _ (DeliveryFrame.bytes _).length x
  rwa [DeliveryFrame.length_bytes]

/-! ## Nested signals -/

/-- The running task, and the frames that it has still to return from. -/
structure Handling where
  core : Core
  saved : List Saved

inductive Act where
  | deliver
  /-- Handlers run, and make other calls. -/
  | handler (core : Core)
  | rtSigreturn

namespace Handling

def step (pid : UInt32) (h : Handling) : Act → Handling
  | .deliver =>
    { core := (h.core.deliverPending pid).2
      saved := if (h.core.deliverPending pid).1 then (h.core.interrupted pid).toList ++ h.saved else h.saved }
  | .handler core => { h with core }
  | .rtSigreturn =>
    { core := (h.core.rtSigreturn pid).2.2
      saved := if (h.core.rtSigreturn pid).1 then h.saved.tail else h.saved }

/-- Signals interrupt user code that works below the saved frames and does not have the forbidden flags; the saved frames
are left alone; returns are made from the newest one, which can be read. -/
def Proper (pid : UInt32) (h : Handling) : Act → Prop
  | .deliver =>
    ∀ s ∈ h.core.interrupted pid, s.frame.Valid ∧ s.frame.rflags &&& rflagsForbiddenMask = 0 ∧
      ∀ top ∈ h.saved.head?, s.frame.rsp.toNat ≤ top.address.toNat + 128
  | .handler core =>
    ∀ s ∈ h.saved, ∀ x, InRange s.address deliveryFrameBytes x → core.space.memory x = h.core.space.memory x
  | .rtSigreturn =>
    ∃ s, h.saved.head? = some s ∧ (h.core.personas.ready pid).isSome = true ∧ h.core.frame.cs &&& 3 = 3 ∧
      h.core.frame.rsp = s.address + 8 ∧
      h.core.space.userBufferReadable s.address (UInt32.ofNat deliveryFrameBytes) = true

/-- The saved frames are whole, one above the other. -/
structure Intact (pid : UInt32) (h : Handling) : Prop where
  stands : ∀ s ∈ h.saved, s.Stands pid h.core.space.memory
  room : ∀ s ∈ h.saved, 608 ≤ s.frame.rsp.toNat
  valid : ∀ s ∈ h.saved, s.frame.Valid ∧ s.frame.rflags &&& rflagsForbiddenMask = 0
  ordered : h.saved.Pairwise fun a b => a.address.toNat ≤ b.address.toNat

variable {h : Handling}

theorem Intact.returning (hi : h.Intact pid) (hp : h.Proper pid .rtSigreturn) :
    ∃ s rest, h.saved = s :: rest ∧ Restores h.core pid s := by
  obtain ⟨s, hhead, hready, hcs, hrsp, hreadable⟩ := hp
  obtain ⟨rest, hsaved⟩ := head?_eq_some_iff.1 hhead
  have hmem : s ∈ h.saved := hsaved ▸ mem_cons_self
  have hreturning : Returning h.core pid s := ⟨hready, hcs, hrsp, hi.stands s hmem⟩
  exact ⟨s, rest, hsaved, (hreturning.restores_iff (hi.valid s hmem).1 (hi.room s hmem)).2 ⟨(hi.valid s hmem).2, hreadable⟩⟩

/-- A frame that is written below the newest saved one is below all of them. -/
theorem Intact.below (hi : h.Intact pid) {bound : Nat} (hb : ∀ top ∈ h.saved.head?, bound ≤ top.address.toNat) :
    ∀ s ∈ h.saved, bound ≤ s.address.toNat := by
  intro s hs
  have hordered := hi.ordered
  cases hsaved : h.saved with
  | nil => simp [hsaved] at hs
  | cons top rest =>
    rw [hsaved] at hs hb hordered
    have htop : bound ≤ top.address.toNat := hb top rfl
    rcases mem_cons.1 hs with rfl | hs
    · exact htop
    · exact htop.trans ((pairwise_cons.1 hordered).1 s hs)

theorem Intact.step_deliver (hi : h.Intact pid) (hp : h.Proper pid .deliver) : (h.step pid .deliver).Intact pid := by
  rcases h.core.deliverPending_cases pid with heq | ⟨context, i, hd, heq⟩
  · rwa [step, heq]
  have hok : (h.core.deliverPending pid).1 := by rw [heq]
  obtain ⟨hvalid, hflags, htop⟩ := hp _ hd.interrupted
  obtain ⟨hstands, hroom, -, habove⟩ := stands_of_delivered hok hd.interrupted
  have haddress := frameAddress_toNat hd.room
  -- the new frame ends 8 bytes below the red zone, the old ones begin at most 128 bytes below the stack pointer
  have hbelow : ∀ s ∈ h.saved, h.core.frame.rsp.toNat - 128 ≤ s.address.toNat :=
    hi.below fun top ht => Nat.sub_le_iff_le_add.2 (htop top ht)
  simp only [step, hok, if_true, hd.interrupted, toList_some, singleton_append]
  constructor
  · intro s hs x hx
    rcases mem_cons.1 hs with rfl | hs
    · exact hstands x hx
    · have hx' := (inRange_frame (hi.room s hs)).1 hx
      rw [habove x ((hbelow s hs).trans hx'.1)]
      exact hi.stands s hs x hx
  · intro s hs
    rcases mem_cons.1 hs with rfl | hs
    · exact hroom
    · exact hi.room s hs
  · intro s hs
    rcases mem_cons.1 hs with rfl | hs
    · exact ⟨hvalid, hflags⟩
    · exact hi.valid s hs
  · refine pairwise_cons.2 ⟨fun s hs => ?_, hi.ordered⟩
    have hle := hbelow s hs
    show (frameAddress h.core.frame.rsp).toNat ≤ _
    omega

theorem Intact.step (hi : h.Intact pid) {act : Act} (hp : h.Proper pid act) : (h.step pid act).Intact pid := by
  cases act with
  | deliver => exact hi.step_deliver hp
  | handler core =>
    refine ⟨fun s hs x hx => ?_, hi.room, hi.valid, hi.ordered⟩
    rw [Handling.step, hp s hs x hx]
    exact hi.stands s hs x hx
  | rtSigreturn =>
    have hspace : (h.core.rtSigreturn pid).2.2.space = h.core.space := by
      rcases h.core.rtSigreturn_cases pid with ⟨code, heq⟩ | ⟨context, -, heq⟩
      · rw [heq]
      · rw [heq]
        rfl
    obtain ⟨s, rest, hsaved, hr⟩ := hi.returning hp
    have hrest : ∀ t ∈ rest, t ∈ h.saved := fun t ht => hsaved ▸ mem_cons_of_mem s ht
    simp only [Handling.step, hr.succeeds, if_true, hsaved, tail_cons]
    refine ⟨fun t ht => ?_, fun t ht => hi.room t (hrest t ht), fun t ht => hi.valid t (hrest t ht), ?_⟩
    · rw [hspace]
      exact hi.stands t (hrest t ht)
    · exact (pairwise_cons.1 (hsaved ▸ hi.ordered)).2

end Handling

/-- When the return undoes the delivery, and that a delivery writes below the red zone only. -/
theorem return_restores_iff (c : Core) (pid : UInt32) :
    (∀ s : Saved, (c.deliverPending pid).1 = true → c.interrupted pid = some s →
      s.frame = c.frame ∧ s.Stands pid (c.deliverPending pid).2.space.memory ∧
      (∀ x : UInt64, c.frame.rsp.toNat - 128 ≤ x.toNat →
        (c.deliverPending pid).2.space.memory x = c.space.memory x) ∧
      (c.frame.Valid → ∀ c' : Core, Returning c' pid s →
        (Restores c' pid s ↔
          c.frame.rflags &&& rflagsForbiddenMask = 0 ∧
            c'.space.userBufferReadable s.address (UInt32.ofNat deliveryFrameBytes) = true))) ∧
    (∀ acts : List Act, Meets (Handling.step pid) (Handling.Proper pid) ⟨c, []⟩ (acts ++ [.rtSigreturn]) →
      ∃ s rest, (acts.foldl (Handling.step pid) ⟨c, []⟩).saved = s :: rest ∧
        Restores (acts.foldl (Handling.step pid) ⟨c, []⟩).core pid s ∧
        ((acts ++ [Act.rtSigreturn]).foldl (Handling.step pid) ⟨c, []⟩).saved = rest) := by
  constructor
  · intro s hok hs
    obtain ⟨hstands, hroom, hframe, habove⟩ := stands_of_delivered hok hs
    refine ⟨hframe, hstands, habove, fun hvalid c' hc => ?_⟩
    rw [← hframe] at hvalid ⊢
    exact hc.restores_iff hvalid hroom
  · intro acts hmeets
    obtain ⟨hbefore, hlast⟩ := Meets.append.1 hmeets
    have hstart : Handling.Intact pid ⟨c, []⟩ := ⟨by simp, by simp, by simp, Pairwise.nil⟩
    have hi := hbefore.invariant (fun h act hi hp => Handling.Intact.step hi hp) hstart
    obtain ⟨s, rest, hsaved, hr⟩ := hi.returning hlast.1
    refine ⟨s, rest, hsaved, hr, ?_⟩
    rw [foldl_append, foldl_cons, foldl_nil]
    simp only [Handling.step, hr.succeeds, if_true, hsaved, tail_cons]

/-- A process that has set the identification flag, with a handler for SIGUSR1 and the signal waiting. -/
def identCore : Core where
  personas := personas (context 0x200 ⟨0x44100100, 0, 0x44100200, 0⟩)
  space := stackSpace fun _ => 0
  frame := { userFrame with rflags := 0x200202 }

/-- What the delivery saves. -/
def identSaved : Saved := ⟨identCore.frame, context 0x200 ⟨0x44100100, 0, 0x44100200, 0⟩, sigusr1, 0x101⟩

/-- The handler has returned to the restorer, which makes the call. -/
def identReturning : Core :=
  { (identCore.deliverPending 1).2 with
    frame := { (identCore.deliverPending 1).2.frame with rsp := identSaved.address + 8 } }

theorem restores_fails :
    identCore.frame.Valid ∧ identCore.interrupted 1 = some identSaved ∧ (identCore.deliverPending 1).1 = true ∧
      Returning identReturning 1 identSaved ∧ ¬ Restores identReturning 1 identSaved := by
  have hvalid : identCore.frame.Valid := ⟨by decide, by decide, by decide, by decide, by decide, by decide⟩
  have hdelivers : Delivers identCore 1 (context 0x200 ⟨0x44100100, 0, 0x44100200, 0⟩) sigusr1 :=
    ⟨rfl, by decide +kernel, by decide, by decide, by decide, by decide +kernel⟩
  have hok : (identCore.deliverPending 1).1 := by rw [Core.deliverPending_of_delivers hdelivers]
  have hreturning : Returning identReturning 1 identSaved := by
    refine ⟨?_, ?_, rfl, (stands_of_delivered hok hdelivers.interrupted).1⟩
    · exact congrArg isSome (Personas.ready_set hdelivers.ready (by rfl))
    · decide
  refine ⟨hvalid, hdelivers.interrupted, hok, hreturning, fun hr => ?_⟩
  have hflags := ((hreturning.restores_iff hvalid hdelivers.room).1 hr).1
  exact absurd hflags (by decide)

end LimitlessOS.Signal
