/-
  LimitlessOS.Signal.Frames — the frames of signal delivery (`include/linux_signal_x64.h`).

  `struct interrupt_frame64` is what the kernel returns to user code with;
  `linux_signal64_delivery_frame_t` is what a delivery leaves on the user stack and
  `rt_sigreturn` reads back. Its layout is 58 words: the restorer slot, the ucontext
  (41 words) and the siginfo (16 words).

  Proved:
  - `DeliveryFrame.ofWords_words`: the layout loses nothing.
-/
import LimitlessOS.Lib.UserMemory

namespace LimitlessOS.Signal

open Lib List

/-! ## Constants -/

def maxSignals : Nat := 64
def sigkill : UInt32 := 9
def sigpipe : UInt32 := 13
def sigchld : UInt32 := 17
def sigstop : UInt32 := 19

/-- `LINUX_SIGNAL64_UNBLOCKABLE_MASK`: SIGKILL and SIGSTOP. -/
def unblockableMask : UInt64 := 0x40100

def deliveryAlign : UInt64 := 16
def redzoneBytes : UInt64 := 128
def rflagsFixedBit : UInt64 := 0x2

/-- `LINUX_SIGNAL64_RFLAGS_FORBIDDEN_MASK` -/
def rflagsForbiddenMask : UInt64 := 0x300000

def defaultHandler : UInt64 := 0

/-- `LINUX_ABI64_USER_CANONICAL_LIMIT` -/
def userCanonicalLimit : UInt64 := 0x800000000000

/-! ## Frames -/

/-- `struct interrupt_frame64` -/
structure Frame where
  r15 : UInt64
  r14 : UInt64
  r13 : UInt64
  r12 : UInt64
  r11 : UInt64
  r10 : UInt64
  r9 : UInt64
  r8 : UInt64
  rdi : UInt64
  rsi : UInt64
  rbp : UInt64
  rbx : UInt64
  rdx : UInt64
  rcx : UInt64
  rax : UInt64
  vector : UInt64
  errorCode : UInt64
  rip : UInt64
  cs : UInt64
  rflags : UInt64
  rsp : UInt64
  ss : UInt64
  deriving DecidableEq

/-- `linux_signal64_sigaction_t` -/
structure SigAction where
  handler : UInt64
  saFlags : UInt64
  restorer : UInt64
  saMask : UInt64
  deriving DecidableEq

/-- `linux_signal64_stack_t` -/
structure SigStack where
  sp : UInt64
  flags : UInt32
  reserved0 : UInt32
  size : UInt64

/-- `linux_signal64_mcontext_t` -/
structure MContext where
  r8 : UInt64
  r9 : UInt64
  r10 : UInt64
  r11 : UInt64
  r12 : UInt64
  r13 : UInt64
  r14 : UInt64
  r15 : UInt64
  rdi : UInt64
  rsi : UInt64
  rbp : UInt64
  rbx : UInt64
  rdx : UInt64
  rax : UInt64
  rcx : UInt64
  rsp : UInt64
  rip : UInt64
  eflags : UInt64
  cs : UInt64
  gs : UInt64
  fs : UInt64
  ss : UInt64
  err : UInt64
  trapno : UInt64
  oldmask : UInt64
  cr2 : UInt64
  fpstate : UInt64
  reserved1 : Fin 8 → UInt64

/-- `linux_signal64_ucontext_t` -/
structure UContext where
  flags : UInt64
  link : UInt64
  stack : SigStack
  mcontext : MContext
  sigmask : UInt64

/-- `linux_signal64_siginfo_t` -/
structure SigInfo where
  signo : UInt32
  errnoValue : UInt32
  code : UInt32
  senderPid : UInt32
  senderUid : UInt32
  reserved0 : UInt32
  reserved : Fin 13 → UInt64

/-- `linux_signal64_delivery_frame_t` -/
structure DeliveryFrame where
  pretcode : UInt64
  ucontext : UContext
  siginfo : SigInfo

/-! ## Layout -/

/-- `sizeof(linux_signal64_delivery_frame_t)` in words. -/
def deliveryFrameWords : Nat := 58

/-- `sizeof(linux_signal64_delivery_frame_t)` -/
def deliveryFrameBytes : Nat := 464

/-- `sizeof(linux_signal64_ucontext_t)` -/
def ucontextBytes : UInt64 := 328

def MContext.words (c : MContext) : List UInt64 :=
  [c.r8, c.r9, c.r10, c.r11, c.r12, c.r13, c.r14, c.r15, c.rdi, c.rsi, c.rbp, c.rbx, c.rdx, c.rax, c.rcx, c.rsp, c.rip,
    c.eflags, c.cs, c.gs, c.fs, c.ss, c.err, c.trapno, c.oldmask, c.cr2, c.fpstate] ++ List.ofFn c.reserved1

def MContext.ofWords (w : List UInt64) : MContext where
  r8 := w.getD 0 0
  r9 := w.getD 1 0
  r10 := w.getD 2 0
  r11 := w.getD 3 0
  r12 := w.getD 4 0
  r13 := w.getD 5 0
  r14 := w.getD 6 0
  r15 := w.getD 7 0
  rdi := w.getD 8 0
  rsi := w.getD 9 0
  rbp := w.getD 10 0
  rbx := w.getD 11 0
  rdx := w.getD 12 0
  rax := w.getD 13 0
  rcx := w.getD 14 0
  rsp := w.getD 15 0
  rip := w.getD 16 0
  eflags := w.getD 17 0
  cs := w.getD 18 0
  gs := w.getD 19 0
  fs := w.getD 20 0
  ss := w.getD 21 0
  err := w.getD 22 0
  trapno := w.getD 23 0
  oldmask := w.getD 24 0
  cr2 := w.getD 25 0
  fpstate := w.getD 26 0
  reserved1 := fun i => w.getD (27 + i) 0

/-- An array of words stands in the layout after the fields `front`. -/
theorem getD_array {n : Nat} (front : List UInt64) (f : Fin n → UInt64) (rest : List UInt64) (i : Fin n) :
    (front ++ List.ofFn f ++ rest).getD (front.length + i) 0 = f i := by
  rw [append_assoc, getD_append_right _ _ _ _ (by omega), Nat.add_sub_cancel_left,
    getD_append _ _ _ _ (by simp), getD_eq_getElem _ _ (by simp), List.getElem_ofFn]

theorem MContext.ofWords_words (c : MContext) (rest : List UInt64) : ofWords (c.words ++ rest) = c := by
  have harray : (fun i : Fin 8 => (c.words ++ rest).getD (27 + i) 0) = c.reserved1 :=
    funext fun i => getD_array [c.r8, c.r9, c.r10, c.r11, c.r12, c.r13, c.r14, c.r15, c.rdi, c.rsi, c.rbp, c.rbx, c.rdx,
      c.rax, c.rcx, c.rsp, c.rip, c.eflags, c.cs, c.gs, c.fs, c.ss, c.err, c.trapno, c.oldmask, c.cr2, c.fpstate]
      c.reserved1 rest i
  unfold ofWords
  rw [harray]
  rfl

def UContext.words (u : UContext) : List UInt64 :=
  [u.flags, u.link, u.stack.sp, pair u.stack.flags u.stack.reserved0, u.stack.size] ++ u.mcontext.words ++ [u.sigmask]

def UContext.ofWords (w : List UInt64) : UContext where
  flags := w.getD 0 0
  link := w.getD 1 0
  stack := { sp := w.getD 2 0, flags := lowHalf (w.getD 3 0), reserved0 := highHalf (w.getD 3 0), size := w.getD 4 0 }
  mcontext := .ofWords (w.drop 5)
  sigmask := w.getD 40 0

theorem UContext.ofWords_words (u : UContext) (rest : List UInt64) : ofWords (u.words ++ rest) = u := by
  have hcontext : MContext.ofWords ((u.words ++ rest).drop 5) = u.mcontext := by
    have hdrop : (u.words ++ rest).drop 5 = u.mcontext.words ++ ([u.sigmask] ++ rest) := by simp [words]
    rw [hdrop, MContext.ofWords_words]
  have hmask : (u.words ++ rest).getD 40 0 = u.sigmask := by simp [words, MContext.words]
  unfold ofWords
  rw [hcontext, hmask]
  simp [words]

def SigInfo.words (i : SigInfo) : List UInt64 :=
  [pair i.signo i.errnoValue, pair i.code i.senderPid, pair i.senderUid i.reserved0] ++ List.ofFn i.reserved

def SigInfo.ofWords (w : List UInt64) : SigInfo where
  signo := lowHalf (w.getD 0 0)
  errnoValue := highHalf (w.getD 0 0)
  code := lowHalf (w.getD 1 0)
  senderPid := highHalf (w.getD 1 0)
  senderUid := lowHalf (w.getD 2 0)
  reserved0 := highHalf (w.getD 2 0)
  reserved := fun i => w.getD (3 + i) 0

theorem SigInfo.ofWords_words (i : SigInfo) : ofWords i.words = i := by
  have harray : (fun k : Fin 13 => i.words.getD (3 + k) 0) = i.reserved := by
    funext k
    have h := getD_array [pair i.signo i.errnoValue, pair i.code i.senderPid, pair i.senderUid i.reserved0] i.reserved [] k
    rwa [append_nil] at h
  unfold ofWords
  rw [harray]
  simp [words]

namespace DeliveryFrame

def words (d : DeliveryFrame) : List UInt64 := [d.pretcode] ++ d.ucontext.words ++ d.siginfo.words

def ofWords (w : List UInt64) : DeliveryFrame where
  pretcode := w.getD 0 0
  ucontext := .ofWords (w.drop 1)
  siginfo := .ofWords (w.drop 42)

/-- The bytes of the structure. -/
def bytes (d : DeliveryFrame) : List UInt8 := wordBytes d.words

def ofBytes (bytes : List UInt8) : DeliveryFrame := .ofWords (Lib.words deliveryFrameWords bytes)

@[simp] theorem length_words (d : DeliveryFrame) : d.words.length = deliveryFrameWords := by
  simp [words, UContext.words, MContext.words, SigInfo.words, deliveryFrameWords]

@[simp] theorem length_bytes (d : DeliveryFrame) : d.bytes.length = deliveryFrameBytes := by
  rw [bytes, length_wordBytes, length_words]
  rfl

theorem ofWords_words (d : DeliveryFrame) : ofWords d.words = d := by
  have hcontext : UContext.ofWords (d.words.drop 1) = d.ucontext := d.ucontext.ofWords_words d.siginfo.words
  have hdrop : d.words.drop 42 = d.siginfo.words := by
    exact drop_left' (by simp [UContext.words, MContext.words])
  rw [ofWords, hcontext, hdrop, SigInfo.ofWords_words]
  rfl

theorem ofBytes_bytes (d : DeliveryFrame) : ofBytes d.bytes = d := by
  rw [ofBytes, bytes, ← length_words d, words_wordBytes, ofWords_words]

end DeliveryFrame

end LimitlessOS.Signal
