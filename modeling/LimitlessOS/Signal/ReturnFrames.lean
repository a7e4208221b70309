/-
  LimitlessOS.Signal.ReturnFrames — the frames that signals return to user code with.

  A frame is guarded if it stays in ring 3, below the canonical limit, without I/O privilege
  and with interrupts on. `rt_sigreturn` takes the frame from user memory. It tests the
  selectors and the addresses; of the flags it refuses bits 20 and 21 and lets the I/O
  privilege level (bits 12 and 13) and the interrupt flag (bit 9) through. `rt_sigaction`
  takes any address for a handler and a delivery jumps to it.

  Proved, over any frames, memories and actions:
  - `leaves_guarded_iff`: when a return and when a delivery leave a guarded frame, that a refused
    return changes nothing, and that in a run in which every call meets its condition every
    frame left is guarded.
  - `guarded_fails`: a return to ring 3 with I/O privilege and without interrupts.
-/
import LimitlessOS.Lib.Run
import LimitlessOS.Signal.Steps

namespace LimitlessOS.Signal

open Function Lib

/-- The I/O privilege level, bits 12 and 13 of the flags. -/
def ioplMask : UInt64 := 0x3000

/-- Bit 9 of the flags. -/
def interruptFlag : UInt64 := 0x200

/-- Interrupts are on and there is no I/O privilege. -/
def FlagsGuarded (rflags : UInt64) : Prop := rflags &&& ioplMask = 0 ∧ rflags &&& interruptFlag ≠ 0

instance (rflags : UInt64) : Decidable (FlagsGuarded rflags) := inferInstanceAs (Decidable (_ ∧ _))

/-- What user code cannot change by itself. -/
structure Frame.Ring3 (f : Frame) : Prop where
  cs : f.cs &&& 3 = 3
  ss : f.ss &&& 3 = 3
  flags : FlagsGuarded f.rflags

structure Frame.Guarded (f : Frame) : Prop extends f.Ring3 where
  rip : f.rip < userCanonicalLimit
  rsp : f.rsp < userCanonicalLimit

/-! ## One call -/

theorem restored_and {e m : UInt64} (h : m &&& (rflagsFixedBit ||| rflagsForbiddenMask) = 0) :
    ((e ||| rflagsFixedBit) &&& ~~~rflagsForbiddenMask) &&& m = e &&& m := by
  generalize rflagsFixedBit = fixed at h ⊢
  generalize rflagsForbiddenMask = forbidden at h ⊢
  apply UInt64.eq_of_toBitVec_eq
  apply BitVec.eq_of_getLsbD_eq
  intro i hi
  have hbit := congrArg (fun w => w.toBitVec.getLsbD i) h
  simp only [UInt64.toBitVec_and, UInt64.toBitVec_or, UInt64.toBitVec_not, BitVec.getLsbD_and, BitVec.getLsbD_or,
    BitVec.getLsbD_not, hi, decide_true, Bool.true_and] at hbit ⊢
  cases hm : m.toBitVec.getLsbD i
  · simp
  · rw [hm] at hbit
    have hnone : (fixed.toBitVec.getLsbD i || forbidden.toBitVec.getLsbD i) = false := by simpa using hbit
    rw [Bool.or_eq_false_iff] at hnone
    simp [hnone.1, hnone.2]

theorem flagsGuarded_restored (e : UInt64) :
    FlagsGuarded ((e ||| rflagsFixedBit) &&& ~~~rflagsForbiddenMask) ↔ FlagsGuarded e := by
  unfold FlagsGuarded
  rw [restored_and (by decide), restored_and (by decide)]

theorem contextValid_iff (u : UContext) :
    contextValid u ↔
      (u.mcontext.cs &&& 3 = 3 ∧ u.mcontext.ss &&& 3 = 3) ∧
      (u.mcontext.rip ≠ 0 ∧ u.mcontext.rip < userCanonicalLimit ∧ u.mcontext.rsp ≠ 0 ∧
        u.mcontext.rsp < userCanonicalLimit) ∧ u.mcontext.eflags &&& rflagsForbiddenMask = 0 := by
  simp [contextValid, and_assoc]

/-- A return leaves a guarded frame exactly if the saved flags are. -/
theorem Returns.guarded_iff {c : Core} {pid : UInt32} {context : Context} (h : Returns c pid context) :
    (c.returned pid context).frame.Guarded ↔ FlagsGuarded c.savedFrame.ucontext.mcontext.eflags := by
  obtain ⟨⟨hcs, hss⟩, ⟨-, hrip, -, hrsp⟩, -⟩ := (contextValid_iff _).1 h.valid
  constructor
  · intro hg
    exact (flagsGuarded_restored _).1 hg.flags
  · intro hflags
    exact ⟨⟨hcs, hss, (flagsGuarded_restored _).2 hflags⟩, hrip, hrsp⟩

/-- The new stack pointer is below the limit exactly if the old one is less than 608 above it. -/
theorem frameAddress_lt_limit {rsp : UInt64} (h : 608 ≤ rsp.toNat) :
    frameAddress rsp < userCanonicalLimit ↔ rsp.toNat < userCanonicalLimit.toNat + 608 := by
  rw [UInt64.lt_iff_toNat_lt, frameAddress_toNat h]
  show _ < 0x800000000000 ↔ _ < 0x800000000000 + 608
  omega

theorem Delivers.guarded_iff {c : Core} {pid : UInt32} {context : Context} {i : Fin maxSignals}
    (h : Delivers c pid context i) :
    (c.enterHandler pid context i).frame.Guarded ↔
      c.frame.ss &&& 3 = 3 ∧ FlagsGuarded c.frame.rflags ∧ (context.sigactions i).handler < userCanonicalLimit ∧
        c.frame.rsp.toNat < userCanonicalLimit.toNat + 608 := by
  rw [← frameAddress_lt_limit h.room]
  constructor
  · intro hg
    exact ⟨hg.ss, hg.flags, hg.rip, hg.rsp⟩
  · rintro ⟨hss, hflags, hrip, hrsp⟩
    exact ⟨⟨h.selector, hss, hflags⟩, hrip, hrsp⟩

/-! ## Runs -/

/-- A task: its address space and the frame it returns to user code with. -/
structure Task where
  space : Space
  frame : Frame

structure System where
  personas : Personas
  task : UInt32 → Task

/-- What user code can make of a frame. Without I/O privilege it keeps the privilege level and the interrupt flag. -/
def UserMay (f g : Frame) : Prop :=
  g.cs &&& 3 = 3 ∧ g.ss &&& 3 = 3 ∧ g.rip < userCanonicalLimit ∧
    (f.rflags &&& ioplMask = 0 → g.rflags &&& ioplMask = 0 ∧ g.rflags &&& interruptFlag = f.rflags &&& interruptFlag)

instance (f g : Frame) : Decidable (UserMay f g) := inferInstanceAs (Decidable (_ ∧ _ ∧ _ ∧ (_ → _)))

inductive Op where
  /-- The task runs in ring 3 for a while; its memory is as it likes. -/
  | user (pid : UInt32) (task : Task)
  | rtSigaction (pid : UInt32) (signalNumber userAct userOldact sigsetSize : UInt64)
  | rtSigprocmask (pid : UInt32) (how userSet userOldset sigsetSize : UInt64)
  /-- `kill` and `tkill` -/
  | kill (pid : UInt32) (target signalNumber : UInt64)
  | deliver (pid : UInt32)
  | rtSigreturn (pid : UInt32)

namespace System

def core (s : System) (pid : UInt32) : Core := ⟨s.personas, (s.task pid).space, (s.task pid).frame⟩

def put (s : System) (pid : UInt32) (c : Core) : System :=
  { s with personas := c.personas, task := update s.task pid ⟨c.space, c.frame⟩ }

def step (s : System) : Op → System
  | .user pid task =>
    if UserMay (s.task pid).frame task.frame then { s with task := update s.task pid task } else s
  | .rtSigaction pid signalNumber userAct userOldact sigsetSize =>
    s.put pid ((s.core pid).rtSigaction pid signalNumber userAct userOldact sigsetSize).2
  | .rtSigprocmask pid how userSet userOldset sigsetSize =>
    s.put pid ((s.core pid).rtSigprocmask pid how userSet userOldset sigsetSize).2
  | .kill pid target signalNumber => { s with personas := (s.personas.signalTranslate pid target signalNumber).2 }
  | .deliver pid => s.put pid ((s.core pid).deliverPending pid).2
  | .rtSigreturn pid => s.put pid ((s.core pid).rtSigreturn pid).2.2

/-- The call succeeds, and leaves a frame for the process. -/
def Leaves (s : System) (pid : UInt32) : Op → Prop
  | .deliver p => p = pid ∧ ((s.core pid).deliverPending pid).1 = true
  | .rtSigreturn p => p = pid ∧ ((s.core pid).rtSigreturn pid).1 = true
  | _ => False

/-- A delivery goes to a canonical handler on a canonical stack; a return is made with guarded flags. -/
def Clean (s : System) : Op → Prop
  | .deliver pid =>
    (∀ context i, s.personas.ready pid = some context →
      signalFirstUnmasked context.pending context.mask = some i →
      (context.sigactions i).handler < userCanonicalLimit) ∧
      (s.task pid).frame.rsp.toNat < userCanonicalLimit.toNat + 608
  | .rtSigreturn pid => FlagsGuarded (s.core pid).savedFrame.ucontext.mcontext.eflags
  | _ => True

def AllRing3 (s : System) : Prop := ∀ pid, (s.task pid).frame.Ring3

variable {s : System} {pid : UInt32}

theorem put_frame (s : System) (pid : UInt32) (c : Core) : ((s.put pid c).task pid).frame = c.frame := by simp [put]

theorem AllRing3.put (h : s.AllRing3) {c : Core} (hc : c.frame.Ring3) : (s.put pid c).AllRing3 := by
  intro q
  by_cases hq : q = pid
  · subst hq
    rwa [put_frame]
  · simp only [System.put, update_of_ne hq]
    exact h q

theorem rtSigaction_frame (c : Core) (pid : UInt32) (n act oldact size : UInt64) :
    (c.rtSigaction pid n act oldact size).2.frame = c.frame := by
  unfold Core.rtSigaction
  rcases c.personas.ready pid with _ | context
  · rfl
  split_ifs <;> rfl

theorem rtSigprocmask_frame (c : Core) (pid : UInt32) (how set oldset size : UInt64) :
    (c.rtSigprocmask pid how set oldset size).2.frame = c.frame := by
  unfold Core.rtSigprocmask
  rcases c.personas.ready pid with _ | context
  · rfl
  simp only
  split_ifs <;> rfl

/-- A clean call that leaves a frame leaves a guarded one. -/
theorem AllRing3.guarded (h : s.AllRing3) {op : Op} (hclean : s.Clean op) (hl : s.Leaves pid op) :
    ((s.step op).task pid).frame.Guarded := by
  cases op with
  | deliver p =>
    obtain ⟨rfl, hok⟩ := hl
    rcases (s.core p).deliverPending_cases p with heq | ⟨context, i, hd, heq⟩
    · simp [heq] at hok
    · rw [step, put_frame, heq]
      have hring := h p
      exact hd.guarded_iff.2 ⟨hring.ss, hring.flags, hclean.1 context i hd.ready hd.first, hclean.2⟩
  | rtSigreturn p =>
    obtain ⟨rfl, hok⟩ := hl
    rcases (s.core p).rtSigreturn_cases p with ⟨code, heq⟩ | ⟨context, hr, heq⟩
    · rw [heq] at hok
      cases hok
    · rw [step, put_frame, heq]
      exact hr.guarded_iff.2 hclean
  | _ => exact hl.elim

theorem AllRing3.step (h : s.AllRing3) {op : Op} (hclean : s.Clean op) : (s.step op).AllRing3 := by
  cases op with
  | user pid task =>
    rw [System.step]
    split_ifs with hmay
    · obtain ⟨hcs, hss, -, hflags⟩ := hmay
      intro q
      by_cases hq : q = pid
      · subst hq
        have hring := h q
        obtain ⟨hiopl, hif⟩ := hflags hring.flags.1
        simp only [update_self]
        exact ⟨hcs, hss, hiopl, hif ▸ hring.flags.2⟩
      · simp only [update_of_ne hq]
        exact h q
    · exact h
  | rtSigaction pid n act oldact size =>
    apply h.put
    rw [rtSigaction_frame]
    exact h pid
  | rtSigprocmask pid how set oldset size =>
    apply h.put
    rw [rtSigprocmask_frame]
    exact h pid
  | kill pid target n => exact h
  | deliver pid =>
    apply h.put
    rcases (s.core pid).deliverPending_cases pid with heq | ⟨context, i, hd, heq⟩
    · rw [heq]
      exact h pid
    · rw [heq]
      exact ⟨(h pid).cs, (h pid).ss, (h pid).flags⟩
  | rtSigreturn pid =>
    apply h.put
    rcases (s.core pid).rtSigreturn_cases pid with ⟨code, heq⟩ | ⟨context, hr, heq⟩
    · rw [heq]
      exact h pid
    · rw [heq]
      exact (hr.guarded_iff.2 hclean).toRing3

end System

/-- When returns and deliveries leave guarded frames, and that a refused return changes nothing. -/
theorem leaves_guarded_iff (c : Core) (pid : UInt32) (s : System) :
    ((c.rtSigreturn pid).1 = false → (c.rtSigreturn pid).2.2 = c) ∧
    ((c.rtSigreturn pid).1 = true →
      ((c.rtSigreturn pid).2.2.frame.Guarded ↔ FlagsGuarded c.savedFrame.ucontext.mcontext.eflags)) ∧
    ((c.deliverPending pid).1 = true →
      ((c.deliverPending pid).2.frame.Guarded ↔
        c.frame.ss &&& 3 = 3 ∧ FlagsGuarded c.frame.rflags ∧
          (∀ context i, c.personas.ready pid = some context →
            signalFirstUnmasked context.pending context.mask = some i →
            (context.sigactions i).handler < userCanonicalLimit) ∧
          c.frame.rsp.toNat < userCanonicalLimit.toNat + 608)) ∧
    (s.AllRing3 → ∀ ops op, Meets System.step System.Clean s (ops ++ [op]) →
      (ops.foldl System.step s).Leaves pid op →
        ((((ops ++ [op]).foldl System.step s).task pid).frame).Guarded) := by
  refine ⟨fun hno => ?_, fun hok => ?_, fun hok => ?_, fun hs ops op hmeets hl => ?_⟩
  · rcases c.rtSigreturn_cases pid with ⟨code, heq⟩ | ⟨context, -, heq⟩
    · rw [heq]
    · simp [heq] at hno
  · rcases c.rtSigreturn_cases pid with ⟨code, heq⟩ | ⟨context, hr, heq⟩
    · rw [heq] at hok
      cases hok
    · rw [heq]
      exact hr.guarded_iff
  · rcases c.deliverPending_cases pid with heq | ⟨context, i, hd, heq⟩
    · rw [heq] at hok
      cases hok
    · rw [heq, hd.guarded_iff]
      -- the process and its lowest waiting signal are the ones of the delivery
      have hall : (context.sigactions i).handler < userCanonicalLimit ↔
          ∀ context i, c.personas.ready pid = some context →
            signalFirstUnmasked context.pending context.mask = some i →
            (context.sigactions i).handler < userCanonicalLimit := by
        constructor
        · intro h context' i' hready hfirst
          obtain rfl : context = context' := Option.mem_unique hd.ready hready
          obtain rfl : i = i' := Option.mem_unique hd.first hfirst
          exact h
        · intro h
          exact h context i hd.ready hd.first
      rw [hall]
  · obtain ⟨hrun, hlast⟩ := Meets.append.1 hmeets
    have hring := hrun.invariant (fun _ _ h hc => System.AllRing3.step h hc) hs
    rw [List.foldl_append]
    exact hring.guarded hlast.1 hl

/-! ## Frames that are not guarded -/

/-- A stack of one page at `0x44000000`. -/
def stackRegion : Vma.Region where
  virtBase := 0x44000000
  virtEnd := 0x44001000
  physBase := 0x100000
  protFlags := Vma.protRead ||| Vma.protWrite
  mapFlags := Vma.mapPrivate ||| Vma.mapAnonymous
  backingType := Vma.backingAnon
  backingHandle := Vma.backingHandleNone
  vmaToken := 1

def stackSpace (memory : Memory) : Space where
  find address := if 0x44000000 ≤ address ∧ address < 0x44001000 then some stackRegion else none
  table :=
    { slots := [Vma.pdIndex 0x44000000]
      entry := fun pd pt =>
        if pd = Vma.pdIndex 0x44000000 ∧ pt = Vma.ptIndex 0x44000000 then
          some { phys := 0x100000, writable := true, noExecute := true }
        else none }
  memory

/-- A frame of ring 3 with the stack pointer in the page. -/
def userFrame : Frame where
  r15 := 0
  r14 := 0
  r13 := 0
  r12 := 0
  r11 := 0
  r10 := 0
  r9 := 0
  r8 := 0
  rdi := 0
  rsi := 0
  rbp := 0
  rbx := 0
  rdx := 0
  rcx := 0
  rax := 0
  vector := 0
  errorCode := 0
  rip := 0x44100000
  cs := 0x23
  rflags := 0x202
  rsp := 0x44000800
  ss := 0x1B

def context (pending : UInt64) (action : SigAction) : Context where
  personaType := .linuxElf
  processGroupId := 1
  pending
  mask := 0
  sigactions := fun _ => action
  blockable := UInt64.zero_and

def sigusr1 : Fin maxSignals := ⟨9, by decide⟩

def personas (c : Context) : Personas where
  principal := fun _ => 0x101
  context := fun _ => some c

/-- The frame of a delivery to the user frame, but for its flags: I/O privilege level 3, interrupts off. -/
def forged : DeliveryFrame := deliveryFrame { userFrame with rflags := 0x3002 } ⟨0, 0, 0, 0⟩ 0 ⟨0, by decide⟩ 1 0x101

/-- A process that has put the forged frame on its stack. -/
def forgedCore : Core where
  personas := personas (context 0 ⟨0, 0, 0, 0⟩)
  space := stackSpace (Memory.copyTo (fun _ => 0) (userFrame.rsp - 8) forged.bytes)
  frame := userFrame

/-- A process that has set the end of the canonical addresses as its handler and sent itself SIGUSR1. -/
def wildCore : Core where
  personas := personas (context 0x200 ⟨userCanonicalLimit, 0, 0, 0⟩)
  space := stackSpace fun _ => 0
  frame := userFrame

theorem guarded_fails :
    (forgedCore.frame.Guarded ∧ (forgedCore.rtSigreturn 1).1 = true ∧
      (forgedCore.rtSigreturn 1).2.2.frame.rflags = 0x3002) ∧
    (wildCore.frame.Guarded ∧ (wildCore.deliverPending 1).1 = true ∧
      (wildCore.deliverPending 1).2.frame.rip = userCanonicalLimit) := by
  have hframe : userFrame.Guarded := ⟨⟨by decide, by decide, by decide⟩, by decide, by decide⟩
  have hsaved : forgedCore.savedFrame = forged := Core.savedFrame_eq fun x _ => rfl
  have hreturns : Returns forgedCore 1 (context 0 ⟨0, 0, 0, 0⟩) :=
    ⟨rfl, by decide, by decide, by decide +kernel, by rw [hsaved]; decide⟩
  have hdelivers : Delivers wildCore 1 (context 0x200 ⟨userCanonicalLimit, 0, 0, 0⟩) sigusr1 :=
    ⟨rfl, by decide +kernel, by decide, by decide, by decide, by decide +kernel⟩
  rw [Core.rtSigreturn_of_returns hreturns, Core.deliverPending_of_delivers hdelivers]
  refine ⟨⟨hframe, rfl, ?_⟩, hframe, rfl, rfl⟩
  show (forgedCore.savedFrame.ucontext.mcontext.eflags ||| rflagsFixedBit) &&& ~~~rflagsForbiddenMask = 0x3002
  rw [hsaved]
  decide

end LimitlessOS.Signal
