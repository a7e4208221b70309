/-
  LimitlessOS.Pipe.Poll — what `poll` says of a pipe (`arch/x86_64/linux_abi.c`).

  `linux_abi64_pollfd_revents` looks at the type of a descriptor. For the read end of a pipe
  it asks for the bytes available; for the write end only whether the read end is closed, and
  a pipe that it does not find counts as one whose read end is open.

  Proved:
  - `poll_agrees_iff`: a read after POLLIN does not block; a write of one byte after POLLOUT
    neither blocks nor fails exactly when the read end is closed, so that POLLOUT is not
    reported, or the pipe can be written and has room.
  - `poll_full_pipe`: POLLOUT is reported for a full pipe, and the write blocks.
-/
import LimitlessOS.Pipe.Fifo
import LimitlessOS.Fd.Table

namespace LimitlessOS.Pipe

open Lib Fd Sched

def pollIn : UInt16 := 0x0001
def pollOut : UInt16 := 0x0004
def pollErr : UInt16 := 0x0008
def pollHup : UInt16 := 0x0010
def pollNval : UInt16 := 0x0020

/-- `linux_abi64_pollfd_t` -/
structure PollFd where
  fd : Int32
  events : UInt16

/-- The entry of a descriptor that is open, with its table. -/
def descriptor (f : Files) (pid fd : UInt32) : Option (Table × Entry) :=
  match f.tableForProcess pid with
  | none => none
  | some (_, t) =>
    if h : fd.toNat < tableLimit then
      if (t.entries ⟨fd.toNat, h⟩).active then some (t, t.entries ⟨fd.toNat, h⟩) else none
    else none

namespace Pipes

/-- `pipe64_bytes_available` -/
def bytesAvailable (s : Pipes) (handle ownerId : UInt32) : UInt32 :=
  match s.find handle ownerId with
  | none => invalidHandle
  | some i => UInt32.ofNat (s.objects i).ring.count

/-- `pipe64_reader_closed`, `pipe64_writer_closed` -/
def endClosed (s : Pipes) (k : Kind) (handle ownerId : UInt32) : Bool :=
  match s.find handle ownerId with
  | none => false
  | some i => ((s.objects i).ends k).closed

/-- `linux_abi64_pollfd_revents` -/
def pollfdRevents (s : Pipes) (f : Files) (principal : UInt32 → UInt32) (pid : UInt32) (p : PollFd) : UInt16 :=
  if p.fd < 0 then 0
  else
    match descriptor f pid p.fd.toUInt32 with
    | none => pollNval
    | some (_, e) =>
      match e.fdType with
      | .pipeRead =>
        let available := s.bytesAvailable e.capabilityHandle (principal pid)
        if available = invalidHandle then pollErr
        else
          (if available ≠ 0 ∧ p.events &&& pollIn ≠ 0 then pollIn else 0) |||
            (if s.endClosed .write e.capabilityHandle (principal pid) then pollHup else 0)
      | .pipeWrite =>
        if s.endClosed .read e.capabilityHandle (principal pid) then pollErr ||| pollHup
        else if p.events &&& pollOut ≠ 0 then pollOut
        else 0
      | .ramfsNode =>
        (if p.events &&& pollIn ≠ 0 then pollIn else 0) ||| (if p.events &&& pollOut ≠ 0 then pollOut else 0)
      | .device => if (p.fd = 1 ∨ p.fd = 2) ∧ p.events &&& pollOut ≠ 0 then pollOut else 0
      | .empty | .socket | .eventfd => 0

/-- `fd64_read` of a pipe: other descriptors are read elsewhere. -/
def readFd (s : Pipes) (f : Files) (pid fd byteCount : UInt32) (env : Env) : UInt32 :=
  if byteCount = 0 then 0
  else
    match descriptor f pid fd with
    | none => ioError
    | some (t, e) =>
      if 0xFFFFFFFF < e.fileOffset ∨ e.fdType ≠ .pipeRead then ioError
      else (s.read e.capabilityHandle true byteCount t.ownerId env).1

/-- `fd64_write` of a pipe -/
def writeFd (s : Pipes) (f : Files) (pid fd : UInt32) (input : Nat → UInt8) (byteCount : UInt32) (env : Env) : UInt32 :=
  if byteCount = 0 then 0
  else
    match descriptor f pid fd with
    | none => ioError
    | some (t, e) =>
      if e.fdType ≠ .pipeWrite then ioError else (s.write e.capabilityHandle (some input) byteCount t.ownerId env).1

variable {s : Pipes} {f : Files} {principal : UInt32 → UInt32} {pid : UInt32} {p : PollFd} {t : Table} {e : Entry}

section

variable (hdesc : descriptor f pid p.fd.toUInt32 = some (t, e))
include hdesc

/-- POLLIN for the read end: there are bytes. -/
theorem available_of_pollIn (hpipe : e.fdType = .pipeRead)
    (hin : s.pollfdRevents f principal pid p &&& pollIn ≠ 0) :
    ∃ i, s.find e.capabilityHandle (principal pid) = some i ∧ (s.objects i).ring.count ≠ 0 := by
  unfold pollfdRevents at hin
  by_cases hneg : p.fd < 0
  · rw [if_pos hneg] at hin
    exact absurd rfl hin
  rw [if_neg hneg, hdesc] at hin
  simp only [hpipe] at hin
  unfold bytesAvailable at hin
  cases hfind : s.find e.capabilityHandle (principal pid) with
  | none =>
    simp only [hfind, if_true] at hin
    exact absurd (by decide) hin
  | some i =>
    refine ⟨i, rfl, fun hzero => ?_⟩
    simp only [hfind, hzero] at hin
    rw [if_neg (by decide), if_neg (by simp)] at hin
    revert hin
    cases s.endClosed .write e.capabilityHandle (principal pid) <;> decide

/-- POLLOUT is never reported for the read end, nor POLLIN for the write end. -/
theorem pollIn_of_write (hpipe : e.fdType = .pipeWrite) :
    s.pollfdRevents f principal pid p &&& pollIn = 0 := by
  unfold pollfdRevents
  by_cases hneg : p.fd < 0
  · rw [if_pos hneg]
    rfl
  rw [if_neg hneg, hdesc]
  simp only [hpipe]
  cases s.endClosed .read e.capabilityHandle (principal pid) with
  | true =>
    rw [if_pos rfl]
    decide
  | false =>
    rw [if_neg (by simp)]
    split <;> decide

theorem pollOut_of_read (hpipe : e.fdType = .pipeRead) :
    s.pollfdRevents f principal pid p &&& pollOut = 0 := by
  unfold pollfdRevents
  by_cases hneg : p.fd < 0
  · rw [if_pos hneg]
    rfl
  rw [if_neg hneg, hdesc]
  simp only [hpipe]
  split
  · rfl
  · split <;> split <;> decide

/-- When POLLOUT is reported for the write end. -/
theorem pollOut_iff (hpipe : e.fdType = .pipeWrite) :
    s.pollfdRevents f principal pid p &&& pollOut ≠ 0 ↔
      ¬ p.fd < 0 ∧ s.endClosed .read e.capabilityHandle (principal pid) = false ∧ p.events &&& pollOut ≠ 0 := by
  unfold pollfdRevents
  by_cases hneg : p.fd < 0
  · rw [if_pos hneg]
    exact iff_of_false (by decide) fun h => h.1 hneg
  rw [if_neg hneg, hdesc]
  simp only [hpipe]
  cases s.endClosed .read e.capabilityHandle (principal pid) with
  | true =>
    rw [if_pos rfl]
    exact iff_of_false (by decide) fun h => absurd h.2.1 (by simp)
  | false =>
    rw [if_neg (by simp)]
    split_ifs with hout
    · exact iff_of_true (by decide) ⟨hneg, rfl, hout⟩
    · exact iff_of_false (by decide) fun h => hout h.2.2

end

/-! ## Reading and writing afterwards -/

/-- Two owners that find something by one handle find the same pipe. -/
theorem find_same {handle ownerId ownerId' : UInt32} {i j : Fin maxObjects} (hi : s.find handle ownerId = some i)
    (hj : s.find handle ownerId' = some j) : i = j :=
  Fin.ext ((find_eq_some.1 hi).index.symm.trans (find_eq_some.1 hj).index)

theorem read_not_blocked (hsound : ∀ i, (s.objects i).ring.Sound) {handle ownerId ownerId' byteCount : UInt32}
    {i : Fin maxObjects} (hfind : s.find handle ownerId = some i) (hsome : (s.objects i).ring.count ≠ 0) (env : Env) :
    (s.read handle true byteCount ownerId' env).1 ≠ ioBlocked := by
  rcases read_cases hsound handle true byteCount ownerId' env with
    ⟨-, ⟨-, hzero⟩ | ⟨-, herror⟩⟩ | ⟨j, result, bytes, p, -, -, hfrom, hread, hresult, -, -⟩
  · rw [hzero]
    decide
  · rw [herror]
    decide
  obtain rfl := find_same hfind hfrom.found
  have hfits := (hsound i).fits
  rw [hresult]
  cases hread with
  | all henough => exact (succeeded_small (henough.trans hfits)).2
  | part => exact (succeeded_small hfits).2
  | ended hempty | blocked hempty | refused hempty => exact absurd hempty hsome

/-- A write of one byte works exactly when the pipe can be written and has room. -/
theorem write_one_iff (handle ownerId : UInt32) (input : Nat → UInt8) (env : Env) :
    Succeeded (s.write handle (some input) 1 ownerId env).1 ↔
      ∃ i, s.WritesTo handle ownerId i ∧ (s.objects i).ring.count < bufferBytes := by
  rcases s.write_cases handle (some input) 1 ownerId env with
    ⟨-, ⟨hzero, -⟩ | ⟨hnone, herror⟩⟩ | ⟨g, i, result, p, -, hinput, hto, hwritten, hresult, -⟩
  · cases hzero
  · rw [herror]
    refine iff_of_false (by decide) ?_
    rintro ⟨i, hto, -⟩
    exact hnone input i rfl hto
  rw [hresult]
  have hunique : ∀ j, s.WritesTo handle ownerId j → i = j := fun j hj => find_same hto.found hj.found
  cases hwritten with
  | all hroom =>
    rw [bytesFrom_length] at hroom ⊢
    have hroom' : (s.objects i).ring.count + 1 ≤ bufferBytes := hroom
    exact iff_of_true (by decide) ⟨i, hto, hroom'⟩
  | part hroom hmore => exact iff_of_true (succeeded_small (Nat.sub_le ..)) ⟨i, hto, hroom⟩
  | blocked hfull | refused hfull =>
    refine iff_of_false (by decide) ?_
    rintro ⟨j, hj, hroom⟩
    obtain rfl := hunique j hj
    omega

/-- The write end of a pipe for which POLLOUT is asked: the read end is closed, or the pipe can be written and has room. -/
def WriteReady (s : Pipes) (f : Files) (principal : UInt32 → UInt32) (pid : UInt32) (p : PollFd) : Prop :=
  ∀ t e, ¬ p.fd < 0 → p.events &&& pollOut ≠ 0 → descriptor f pid p.fd.toUInt32 = some (t, e) → e.fdType = .pipeWrite →
    s.endClosed .read e.capabilityHandle (principal pid) = true ∨
      ∃ i, s.WritesTo e.capabilityHandle t.ownerId i ∧ (s.objects i).ring.count < bufferBytes

/-- The descriptor is open on an end of a pipe. -/
def OnPipe (f : Files) (pid fd : UInt32) : Prop :=
  ∃ t e, descriptor f pid fd = some (t, e) ∧ (e.fdType = .pipeRead ∨ e.fdType = .pipeWrite)

/-- What `poll` reports for a pipe and what a read or a write does then, in every state of the pipes and the descriptors. -/
theorem poll_agrees_iff (ops : List Op) (f : Files) (principal : UInt32 → UInt32) (pid : UInt32) (p : PollFd) :
    (OnPipe f pid p.fd.toUInt32 → (run ops).pollfdRevents f principal pid p &&& pollIn ≠ 0 →
        ∀ byteCount env, byteCount ≠ 0 → (run ops).readFd f pid p.fd.toUInt32 byteCount env ≠ ioBlocked) ∧
      ((OnPipe f pid p.fd.toUInt32 → (run ops).pollfdRevents f principal pid p &&& pollOut ≠ 0 →
          ∀ input env, (run ops).writeFd f pid p.fd.toUInt32 input 1 env ≠ ioBlocked ∧
            (run ops).writeFd f pid p.fd.toUInt32 input 1 env ≠ ioError) ↔
        (run ops).WriteReady f principal pid p) := by
  refine ⟨?_, ?_, ?_⟩
  · rintro ⟨t, e, hdesc, hpipe | hpipe⟩ hin byteCount env hcount
    · obtain ⟨i, hfind, hsome⟩ := available_of_pollIn hdesc hpipe hin
      unfold readFd
      rw [if_neg hcount, hdesc]
      simp only
      split
      · decide
      · exact read_not_blocked (fifo_run ops).sound hfind hsome env
    · exact absurd (pollIn_of_write hdesc hpipe) hin
  · intro h t e hneg hout hdesc hpipe
    cases hclosed : (run ops).endClosed .read e.capabilityHandle (principal pid) with
    | true => exact .inl rfl
    | false =>
      refine .inr ((write_one_iff _ _ (fun _ => 0) .idle).1 ?_)
      have hwrite := h ⟨t, e, hdesc, .inr hpipe⟩ ((pollOut_iff hdesc hpipe).2 ⟨hneg, hclosed, hout⟩) (fun _ => 0)
        .idle
      unfold writeFd at hwrite
      rw [if_neg (by decide), hdesc] at hwrite
      simp only at hwrite
      rw [if_neg (by simp [hpipe])] at hwrite
      exact ⟨hwrite.2, hwrite.1⟩
  · rintro h ⟨t, e, hdesc, hpipe | hpipe⟩ hout input env
    · exact absurd (pollOut_of_read hdesc hpipe) hout
    · obtain ⟨hneg, hopen, hasked⟩ := (pollOut_iff hdesc hpipe).1 hout
      have hready : ∃ i, (run ops).WritesTo e.capabilityHandle t.ownerId i ∧ ((run ops).objects i).ring.count < bufferBytes := by
        rcases h t e hneg hasked hdesc hpipe with hclosed | hready
        · exact absurd (hopen.symm.trans hclosed) (by simp)
        · exact hready
      have hwrite := (write_one_iff _ _ input env).2 hready
      unfold writeFd
      rw [if_neg (by decide), hdesc]
      simp only
      rw [if_neg (by simp [hpipe])]
      exact ⟨hwrite.2, hwrite.1⟩

/-! ## A full pipe -/

/-- The process 1 has the descriptors 0 and 1 on the two ends. -/
def pipeFiles : Files :=
  [Fd.Op.claimTable 1 101 true, .alloc 1 (firstHandle .read) .pipeRead 0 true,
    .alloc 1 (firstHandle .write) .pipeWrite 0 true].foldl Files.step (.boot .idle)

theorem pipeFiles_descriptor :
    ∃ t e, descriptor pipeFiles 1 1 = some (t, e) ∧ t.ownerId = 101 ∧ e.capabilityHandle = firstHandle .write ∧
      e.fdType = .pipeWrite := by
  have hmap : (descriptor pipeFiles 1 1).map (fun d => (d.1.ownerId, d.2.capabilityHandle, d.2.fdType)) =
      some (101, firstHandle .write, .pipeWrite) := by decide +kernel
  obtain ⟨⟨t, e⟩, hdesc, heq⟩ := Option.map_eq_some_iff.1 hmap
  simp only [Prod.mk.injEq] at heq
  exact ⟨t, e, hdesc, heq⟩

def onePipe : Pipes := run [.create 1 101 true]

/-- It fills the pipe. -/
def fill : List Op := [.create 1 101 true, .write (firstHandle .write) (some fun _ => 0) 4096 101 .idle]

theorem onePipe_writesTo : onePipe.WritesTo (firstHandle .write) 101 firstPipe :=
  ⟨by decide +kernel, by decide +kernel, by decide +kernel, by decide +kernel⟩

theorem fill_state :
    run fill = onePipe.set firstPipe
      (((onePipe.objects firstPipe).pushed (bytesFrom (fun _ => 0) 0 4096)).setBlocked .read none) := by
  have hempty : (onePipe.objects firstPipe).ring.count = 0 := by decide +kernel
  have hrun : run fill = (onePipe.write (firstHandle .write) (some fun _ => 0) 4096 101 .idle).2.1 := by
    rw [fill, onePipe, ← List.singleton_append, run_snoc, step]
  rw [hrun]
  rcases onePipe.write_cases (firstHandle .write) (some fun _ => 0) 4096 101 .idle with
    ⟨-, ⟨hzero, -⟩ | ⟨hnone, -⟩⟩ | ⟨f, i, result, p, -, hf, hto, hwritten, -, heq⟩
  · cases hzero
  · exact (hnone _ firstPipe rfl onePipe_writesTo).elim
  obtain rfl := find_same onePipe_writesTo.found hto.found
  obtain rfl : (fun _ => 0) = f := by simpa using hf
  rw [heq]
  cases hwritten with
  | all => rfl
  | part hroom hmore =>
    rw [hempty, bytesFrom_length] at hmore
    exact absurd hmore (by decide)
  | blocked hfull | refused hfull => exact absurd (hempty ▸ hfull) (by decide)

/-- POLLOUT is reported for the full pipe, and a write of one byte blocks or fails. -/
theorem poll_full_pipe :
    (run fill).pollfdRevents pipeFiles (fun pid => 100 + pid) 1 ⟨1, pollOut⟩ = pollOut ∧
      ((run fill).objects firstPipe).ring.count = bufferBytes ∧
      ∀ input env, ¬ Succeeded ((run fill).writeFd pipeFiles 1 1 input 1 env) := by
  have hcount : ((run fill).objects firstPipe).ring.count = bufferBytes := by
    decide +kernel
  refine ⟨?_, hcount, fun input env => ?_⟩
  · rw [fill_state]
    decide +kernel
  have hwrite : (run fill).writeFd pipeFiles 1 1 input 1 env =
      ((run fill).write (firstHandle .write) (some input) 1 101 env).1 := by
    obtain ⟨t, e, hdesc, howner, hhandle, hpipe⟩ := pipeFiles_descriptor
    unfold writeFd
    rw [if_neg (by decide), hdesc]
    simp only
    rw [if_neg (by simp [hpipe]), hhandle, howner]
  rw [hwrite, write_one_iff]
  rintro ⟨i, hto, hroom⟩
  have hfound : (run fill).find (firstHandle .write) 101 = some firstPipe := by
    rw [fill_state]
    decide +kernel
  obtain rfl := find_same hfound hto.found
  omega

end Pipes

end LimitlessOS.Pipe
