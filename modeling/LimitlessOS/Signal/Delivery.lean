/-
  LimitlessOS.Signal.Delivery — signals of Linux processes (`arch/x86_64/linux_abi.c`).

  A persona context holds the pending signals and the mask as bit sets and an action for
  each of the 64 signals. `linux_abi64_signal_deliver_pending` runs before a return to user
  code: it takes the lowest pending signal that is not masked, saves the user frame on the
  user stack and redirects it to the handler; `linux_abi64_sys_rt_sigreturn` reads the frame
  back. The calls are made for the running task, so they see its address space and frame.
  A frame pointer is never null here, and the statistics and audit records are left out.
-/
import LimitlessOS.Signal.Frames
import LimitlessOS.Vma.Paging

namespace LimitlessOS.Signal

open Lib

/-! ## Personas -/

/-- `PROCESS64_INVALID_PID` -/
def invalidPid : UInt32 := 0xFFFFFFFF

/-- `PERSONA64_TYPE_*` -/
inductive PersonaType where
  | native
  | linuxElf
  | windowsPe
  | macosMacho
  deriving DecidableEq

/-- `PERSONA64_PROCESS_GROUP_NONE` -/
def processGroupNone : UInt32 := 0

/-- The fields of `persona_context_t` that signals use. Every function that writes the mask takes SIGKILL and SIGSTOP
out of it. -/
structure Context where
  personaType : PersonaType
  processGroupId : UInt32
  pending : UInt64
  mask : UInt64
  sigactions : Fin maxSignals → SigAction
  blockable : mask &&& unblockableMask = 0

theorem and_not_unblockable (mask : UInt64) : (mask &&& ~~~unblockableMask) &&& unblockableMask = 0 := by
  rw [UInt64.and_assoc, show ~~~unblockableMask &&& unblockableMask = 0 by decide, UInt64.and_zero]

namespace Context

/-- A mask is written without the two signals. -/
def setMask (c : Context) (mask : UInt64) : Context :=
  { c with mask := mask &&& ~~~unblockableMask, blockable := and_not_unblockable mask }

def setPending (c : Context) (pending : UInt64) : Context := { c with pending }

def setAction (c : Context) (i : Fin maxSignals) (action : SigAction) : Context :=
  { c with sigactions := Function.update c.sigactions i action }

end Context

structure Personas where
  /-- `process64_principal` -/
  principal : UInt32 → UInt32
  /-- `persona64_context_for_process` -/
  context : UInt32 → Option Context

namespace Personas

def set (p : Personas) (pid : UInt32) (c : Context) : Personas := { p with context := Function.update p.context pid (some c) }

/-- The context of a process that passes `linux_abi64_signal_persona_ready`, and the same test of the other calls. -/
def ready (p : Personas) (pid : UInt32) : Option Context :=
  if pid = invalidPid ∨ p.principal pid = 0 then none
  else (p.context pid).filter fun c => c.personaType = .linuxElf

/-- `persona64_can_signal` between two processes that have contexts. -/
def canSignal (source target : UInt32) (s t : Context) : Bool :=
  source = target ∨
    s.personaType = t.personaType ∧ s.processGroupId ≠ processGroupNone ∧ s.processGroupId = t.processGroupId

end Personas

/-! ## User memory -/

/-- An address space as the calls see it: `vma64_find`, the page tables of the process, and its bytes. -/
structure Space where
  find : Nat → Option Vma.Region
  table : Vma.PageTable
  memory : Memory

namespace Space

/-- `linux_abi64_range_overflows` -/
def rangeOverflows (address count : UInt64) : Bool := count ≠ 0 ∧ address + count < address

/-- One round of the two checks below: the page of the cursor is mapped with the right, in a region that has it, and the
cursor moves on. -/
def advance (s : Space) (right : UInt32) (stop cursor : UInt64) : Option UInt64 :=
  let page := cursor &&& ~~~0xFFF
  let nextPage := page + 0x1000
  let next := if nextPage < stop then nextPage else stop
  match s.find cursor.toNat with
  | none => none
  | some r =>
    if cursor.toNat < r.virtBase ∨ r.virtEnd ≤ cursor.toNat ∨ r.protFlags &&& right = 0 ∨
        !s.table.present page.toNat ∨ s.table.protection page.toNat &&& right = 0 then
      none
    else
      let next := if r.virtEnd < next.toNat then UInt64.ofNat r.virtEnd else next
      if next ≤ cursor then none else some next

/-- The loop of the two checks. The cursor moves in every round, so there are at most as many rounds as bytes. -/
def scan (s : Space) (right : UInt32) (stop : UInt64) : Nat → UInt64 → Bool
  | 0, cursor => stop ≤ cursor
  | fuel + 1, cursor =>
    if cursor < stop then
      match s.advance right stop cursor with
      | none => false
      | some next => s.scan right stop fuel next
    else true

/-- The common body of the two checks of a user buffer. -/
def userBuffer (s : Space) (right : UInt32) (address : UInt64) (count : UInt32) : Bool :=
  if count = 0 then true
  else if address = 0 ∨ rangeOverflows address count.toUInt64 then false
  else s.scan right (address + count.toUInt64) count.toNat address

/-- `linux_abi64_user_buffer_readable` -/
def userBufferReadable (s : Space) : UInt64 → UInt32 → Bool := s.userBuffer Vma.protRead

/-- `linux_abi64_user_buffer_writable` -/
def userBufferWritable (s : Space) : UInt64 → UInt32 → Bool := s.userBuffer Vma.protWrite

/-- `linux_abi64_copy_to_user` of a structure. -/
def copyToUser (s : Space) (address : UInt64) (ws : List UInt64) : Space :=
  { s with memory := s.memory.copyTo address (wordBytes ws) }

/-- `linux_abi64_copy_from_user` of a structure of so many words. -/
def copyFromUser (s : Space) (address : UInt64) (count : Nat) : List UInt64 :=
  words count (s.memory.copyFrom address (8 * count))

end Space

/-! ## Signal numbers -/

/-- `linux_abi64_signal_mask_for`, `linux_abi64_signal_mask_direct` -/
def signalMaskFor (n : UInt32) : UInt64 := if n = 0 ∨ 64 < n then 0 else 1 <<< (n - 1).toUInt64

/-- The bit of the signal with index `i`, whose number is `i + 1`. -/
def signalBit (i : Fin maxSignals) : UInt64 := 1 <<< UInt64.ofNat i

/-- `linux_abi64_signal_first_unmasked`; the answer 0 is `none`. -/
def signalFirstUnmasked (pending mask : UInt64) : Option (Fin maxSignals) :=
  (List.finRange maxSignals).find? fun i => (pending &&& ~~~mask) &&& signalBit i ≠ 0

/-! ## Delivery -/

/-- What the calls for the running task work on. -/
structure Core where
  personas : Personas
  space : Space
  frame : Frame

/-- `LINUX_ABI64_ERROR_RETURN` -/
def errorReturn (code : UInt64) : UInt64 := 0 - code

def esrch : UInt64 := 3
def eintr : UInt64 := 4
def eagain : UInt64 := 11
def efault : UInt64 := 14
def einval : UInt64 := 22

/-- Where a delivery puts its frame: below the red zone, 8 below a multiple of 16. -/
def frameAddress (rsp : UInt64) : UInt64 :=
  ((rsp - redzoneBytes - UInt64.ofNat deliveryFrameBytes) &&& ~~~(deliveryAlign - 1)) - 8

/-- The structure that a delivery writes. -/
def deliveryFrame (f : Frame) (action : SigAction) (oldMask : UInt64) (i : Fin maxSignals) (pid principal : UInt32) :
    DeliveryFrame where
  pretcode := action.restorer
  ucontext :=
    { flags := 0
      link := 0
      stack := { sp := f.rsp, flags := 0, reserved0 := 0, size := 0 }
      mcontext :=
        { r8 := f.r8, r9 := f.r9, r10 := f.r10, r11 := f.r11, r12 := f.r12, r13 := f.r13, r14 := f.r14, r15 := f.r15
          rdi := f.rdi, rsi := f.rsi, rbp := f.rbp, rbx := f.rbx, rdx := f.rdx, rax := f.rax, rcx := f.rcx
          rsp := f.rsp, rip := f.rip, eflags := f.rflags, cs := f.cs, gs := 0, fs := 0, ss := f.ss
          err := f.errorCode, trapno := f.vector, oldmask := oldMask, cr2 := 0, fpstate := 0, reserved1 := fun _ => 0 }
      sigmask := oldMask }
  siginfo :=
    { signo := UInt32.ofNat (i + 1), errnoValue := 0, code := 0, senderPid := pid, senderUid := principal, reserved0 := 0
      reserved := fun _ => 0 }

namespace Core

def setContext (c : Core) (pid : UInt32) (context : Context) : Core := { c with personas := c.personas.set pid context }

/-- The last part of a delivery, after all its checks. -/
def enterHandler (c : Core) (pid : UInt32) (context : Context) (i : Fin maxSignals) : Core :=
  let action := context.sigactions i
  let address := frameAddress c.frame.rsp
  { personas := c.personas.set pid
      ((context.setPending (context.pending &&& ~~~signalBit i)).setMask (context.mask ||| signalBit i ||| action.saMask))
    space := c.space.copyToUser address
      (deliveryFrame c.frame action context.mask i pid (c.personas.principal pid)).words
    frame :=
      { c.frame with
        rdi := UInt64.ofNat (i + 1)
        rsi := address + 8 + ucontextBytes
        rdx := address + 8
        rip := action.handler
        rsp := address } }

/-- `linux_abi64_signal_deliver_pending` -/
def deliverPending (c : Core) (pid : UInt32) : Bool × Core :=
  match c.personas.ready pid with
  | none => (false, c)
  | some context =>
    let context := context.setMask context.mask
    let c := c.setContext pid context
    match signalFirstUnmasked context.pending context.mask with
    | none => (false, c)
    | some i =>
      if (context.sigactions i).handler = defaultHandler then (false, c)
      else if c.frame.cs &&& 3 ≠ 3 then (false, c)
      else if c.frame.rsp < UInt64.ofNat deliveryFrameBytes + deliveryAlign + redzoneBytes then (false, c)
      else if !c.space.userBufferWritable (frameAddress c.frame.rsp) (UInt32.ofNat deliveryFrameBytes) then (false, c)
      else (true, c.enterHandler pid context i)

end Core

/-! ## `rt_sigreturn` -/

/-- `linux_abi64_rt_sigreturn_context_valid` -/
def contextValid (u : UContext) : Bool :=
  u.mcontext.cs &&& 3 = 3 ∧ u.mcontext.ss &&& 3 = 3 ∧
    u.mcontext.rip ≠ 0 ∧ u.mcontext.rip < userCanonicalLimit ∧ u.mcontext.rsp ≠ 0 ∧ u.mcontext.rsp < userCanonicalLimit ∧
    u.mcontext.eflags &&& rflagsForbiddenMask = 0

/-- The frame that `rt_sigreturn` loads. -/
def restoredFrame (f : Frame) (m : MContext) : Frame :=
  { f with
    r15 := m.r15, r14 := m.r14, r13 := m.r13, r12 := m.r12, r11 := m.r11, r10 := m.r10, r9 := m.r9, r8 := m.r8
    rdi := m.rdi, rsi := m.rsi, rbp := m.rbp, rbx := m.rbx, rdx := m.rdx, rcx := m.rcx, rax := m.rax
    rip := m.rip
    cs := m.cs
    rflags := (m.eflags ||| rflagsFixedBit) &&& ~~~rflagsForbiddenMask
    rsp := m.rsp
    ss := m.ss }

namespace Core

/-- The structure that `rt_sigreturn` reads: the stack pointer is just past the restorer slot. -/
def savedFrame (c : Core) : DeliveryFrame := .ofWords (c.space.copyFromUser (c.frame.rsp - 8) deliveryFrameWords)

/-- `linux_abi64_sys_rt_sigreturn`; the flag says whether it succeeds. -/
def rtSigreturn (c : Core) (pid : UInt32) : Bool × UInt64 × Core :=
  match c.personas.ready pid with
  | none => (false, errorReturn esrch, c)
  | some context =>
    if c.frame.cs &&& 3 ≠ 3 then (false, errorReturn einval, c)
    else if c.frame.rsp < 8 then (false, errorReturn efault, c)
    else if !c.space.userBufferReadable (c.frame.rsp - 8) (UInt32.ofNat deliveryFrameBytes) then
      (false, errorReturn efault, c)
    else if !contextValid c.savedFrame.ucontext then (false, errorReturn einval, c)
    else
      let frame := restoredFrame c.frame c.savedFrame.ucontext.mcontext
      (true, frame.rax, { c with
        personas := c.personas.set pid (context.setMask c.savedFrame.ucontext.sigmask)
        frame })

end Core

/-! ## Actions, masks and sending -/

def SigAction.words (a : SigAction) : List UInt64 := [a.handler, a.saFlags, a.restorer, a.saMask]

def SigAction.ofWords (w : List UInt64) : SigAction where
  handler := w.getD 0 0
  saFlags := w.getD 1 0
  restorer := w.getD 2 0
  saMask := w.getD 3 0

/-- `LINUX_SIGNAL64_SIGACTION_BYTES` -/
def sigactionBytes : UInt32 := 32

/-- `LINUX_ABI64_SIGSET_BYTES` -/
def sigsetBytes : UInt64 := 8

namespace Core

/-- `linux_abi64_sys_rt_sigaction` -/
def rtSigaction (c : Core) (pid : UInt32) (signalNumber userAct userOldact sigsetSize : UInt64) : UInt64 × Core :=
  match c.personas.ready pid with
  | none => (errorReturn esrch, c)
  | some context =>
    if h : signalNumber.toNat - 1 < maxSignals ∧ signalNumber ≠ 0 ∧ sigsetSize = sigsetBytes then
      if userAct ≠ 0 ∧ (signalNumber = sigkill.toUInt64 ∨ signalNumber = sigstop.toUInt64) then (errorReturn einval, c)
      else if userOldact ≠ 0 ∧ !c.space.userBufferWritable userOldact sigactionBytes then (errorReturn efault, c)
      else if userAct ≠ 0 ∧ !c.space.userBufferReadable userAct sigactionBytes then (errorReturn efault, c)
      else
        let index : Fin maxSignals := ⟨signalNumber.toNat - 1, h.1⟩
        let space :=
          if userOldact ≠ 0 then c.space.copyToUser userOldact (context.sigactions index).words else c.space
        -- the new action is read after the old one has been written
        if userAct ≠ 0 then
          (0, { c with
            personas := c.personas.set pid (context.setAction index (.ofWords (space.copyFromUser userAct 4)))
            space })
        else (0, { c with space })
    else (errorReturn einval, c)

/-- The mask that `rt_sigprocmask` sets; `how` is SIG_BLOCK, SIG_UNBLOCK or SIG_SETMASK. -/
def maskAfter (how : UInt32) (old requested : UInt64) : UInt64 :=
  if how = 0 then old ||| requested else if how = 1 then old &&& ~~~requested else requested

/-- `linux_abi64_sys_rt_sigprocmask` -/
def rtSigprocmask (c : Core) (pid : UInt32) (how userSet userOldset sigsetSize : UInt64) : UInt64 × Core :=
  match c.personas.ready pid with
  | none => (errorReturn esrch, c)
  | some context =>
    let how : UInt32 := if how ≤ 0xFFFFFFFF then how.toUInt32 else 0xFFFFFFFF
    if sigsetSize ≠ sigsetBytes then (errorReturn einval, c)
    else if userOldset ≠ 0 ∧ !c.space.userBufferWritable userOldset sigsetBytes.toUInt32 then (errorReturn efault, c)
    else if userSet ≠ 0 ∧ how ≠ 0 ∧ how ≠ 1 ∧ how ≠ 2 then (errorReturn einval, c)
    else if userSet ≠ 0 ∧ !c.space.userBufferReadable userSet sigsetBytes.toUInt32 then (errorReturn efault, c)
    else
      -- the new set is read before the old one is written
      let requested := (c.space.copyFromUser userSet 1).headD 0 &&& ~~~unblockableMask
      let old := context.mask &&& ~~~unblockableMask
      let space := if userOldset ≠ 0 then c.space.copyToUser userOldset [old] else c.space
      let mask := if userSet = 0 then old else maskAfter how old requested
      (0, { c with personas := c.personas.set pid (context.setMask mask), space })

end Core

namespace Personas

/-- `linux_abi64_signal_translate`, the body of `kill` and `tkill`. -/
def signalTranslate (p : Personas) (pid : UInt32) (target signalNumber : UInt64) : UInt64 × Personas :=
  match p.ready pid with
  | none => (errorReturn esrch, p)
  | some source =>
    if 64 < signalNumber then (errorReturn einval, p)
    else
      let targetPid := if target = 0 then pid else if target ≤ 0xFFFFFFFF then target.toUInt32 else invalidPid
      if targetPid = invalidPid ∨ p.principal targetPid = 0 then (errorReturn esrch, p)
      else
        match p.context targetPid with
        | none => (errorReturn esrch, p)
        | some context =>
          if !canSignal pid targetPid source context then (errorReturn esrch, p)
          else if context.personaType ≠ .linuxElf then (errorReturn esrch, p)
          else
            let bit := signalMaskFor signalNumber.toUInt32
            (0, if bit ≠ 0 then p.set targetPid (context.setPending (context.pending ||| bit)) else p)

/-- `linux_abi64_mark_signal_pending_direct` -/
def markSignalPending (p : Personas) (pid signalNumber : UInt32) : Personas :=
  match p.ready pid with
  | none => p
  | some context =>
    let bit := signalMaskFor signalNumber
    if bit = 0 then p else p.set pid (context.setPending (context.pending ||| bit))

/-- `linux_abi64_unmasked_signal_pending` -/
def unmaskedSignalPending (p : Personas) (pid : UInt32) : Bool :=
  match p.ready pid with
  | none => false
  | some context => context.pending &&& ~~~(context.mask ||| unblockableMask) ≠ 0

end Personas

end LimitlessOS.Signal
