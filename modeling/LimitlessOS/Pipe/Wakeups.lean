/-
  LimitlessOS.Pipe.Wakeups — who waits on a pipe.

  A write wakes the reader when it has written all its bytes, and a read wakes the writer
  when it has read all it asked for. On the paths that return early, because the ring is full
  or empty, nobody is woken.

  Proved:
  - `awake_step_iff`: a call keeps waiting tasks in step with the ring exactly when it does
    not transfer more than a ringful past a task that waits.
  - `awake_run_iff`: so does a run, call by call.
  - `reader_sleeps_on`: a reader waits, a write of 4097 bytes fills the ring, and the reader
    is not woken.
-/
import LimitlessOS.Pipe.Fifo

namespace LimitlessOS.Pipe

open Lib Sched Buffer

namespace Buffer

variable {p p' : Buffer} {bytes : List UInt8} {result : UInt32}

/-- A task that waits at this pipe has something to wait for. -/
structure Awake (p : Buffer) : Prop where
  reader : (p.ends .read).blockedTask.isSome = true → p.ring.count = 0 ∧ (p.ends .write).closed = false
  writer : (p.ends .write).blockedTask.isSome = true → p.ring.count = bufferBytes ∧ (p.ends .read).closed = false

@[simp] theorem setEnd_same (p : Buffer) (k : Kind) (e : End) : (p.setEnd k e).ends k = e := Function.update_self ..

theorem awake_clear (generation : UInt32) : (clear generation).Awake := by
  constructor
  · intro h
    simp [clear, End.clear] at h
  · intro h
    simp [clear, End.clear] at h

/-- A write keeps the tasks awake exactly when a reader that waits is not passed by. -/
theorem awake_written_iff (h : p.Awake) (hfits : p.ring.count ≤ bufferBytes) (hreader : (p.ends .read).closed = false)
    (hbytes : bytes.length ≠ 0) (hwritten : p.Written bytes result p') :
    p'.Awake ↔ ((p.ends .read).blockedTask.isSome → bytes.length ≤ bufferBytes) := by
  cases hwritten with
  | all hroom =>
    refine iff_of_true ⟨?_, ?_⟩ (fun _ => by omega)
    · intro hr
      simp [setBlocked] at hr
    · intro hw
      have hfull := (h.writer (by simpa [setBlocked, setEnd, pushed] using hw)).1
      omega
  | part hroom hmore =>
    have hcount : (p.pushed (bytes.take (bufferBytes - p.ring.count))).ring.count = bufferBytes := by
      show (p.ring.pushAll _).count = bufferBytes
      rw [Ring.pushAll_count, List.length_take]
      omega
    constructor
    · intro hafter hr
      have := (hafter.reader hr).1
      omega
    intro hgentle
    refine ⟨?_, fun hw => ?_⟩
    · intro hr
      have hempty := (h.reader hr).1
      have := hgentle hr
      omega
    · have hfull := (h.writer hw).1
      omega
  | blocked hfull hfree t =>
    have hno : (p.ends .read).blockedTask.isSome → False := by
      intro hr
      have := (h.reader hr).1
      have : 0 < bufferBytes := bufferBytes_pos
      omega
    refine iff_of_true ⟨fun hr => ?_, fun _ => ⟨?_, ?_⟩⟩ (fun hr => (hno hr).elim)
    · exact (hno (by simpa [setBlocked, setEnd] using hr)).elim
    · exact Nat.le_antisymm hfits hfull
    · simpa [setBlocked, setEnd] using hreader
  | refused hfull =>
    refine iff_of_true h fun hr => ?_
    have := (h.reader hr).1
    have : 0 < bufferBytes := bufferBytes_pos
    omega

/-- A read keeps the tasks awake exactly when a writer that waits is not passed by. -/
theorem awake_readOut_iff (h : p.Awake) {byteCount : Nat} (hcount : byteCount ≠ 0) (hread : p.ReadOut byteCount result bytes p') :
    p'.Awake ↔ ((p.ends .write).blockedTask.isSome → byteCount ≤ bufferBytes) := by
  have hroom : 0 < bufferBytes := bufferBytes_pos
  cases hread with
  | all henough =>
    refine iff_of_true ⟨?_, ?_⟩ (fun hw => ?_)
    · intro hr
      have hempty := (h.reader (by simpa [setBlocked, setEnd, popped] using hr)).1
      omega
    · intro hw
      simp [setBlocked] at hw
    · rwa [← (h.writer hw).1]
  | part hsome hmore =>
    have hempty : (p.popped p.ring.count).ring.count = 0 := by
      show (Ring.popMany _ p.ring).2.count = 0
      rw [Ring.popMany_count, Nat.sub_self]
    constructor
    · intro hafter hw
      have := (hafter.writer hw).1
      omega
    intro hgentle
    refine ⟨fun hr => ?_, fun hw => ?_⟩
    · have := (h.reader hr).1
      omega
    · have := (h.writer hw).1
      have := hgentle hw
      omega
  | ended hempty | refused hempty =>
    refine iff_of_true h fun hw => ?_
    have := (h.writer hw).1
    omega
  | blocked hempty hopen hfree t =>
    have hno : (p.ends .write).blockedTask.isSome → False := by
      intro hw
      have := (h.writer hw).1
      omega
    refine iff_of_true ⟨fun _ => ⟨hempty, ?_⟩, fun hw => ?_⟩ (fun hw => (hno hw).elim)
    · simpa [setBlocked, setEnd] using hopen
    · exact (hno (by simpa [setBlocked, setEnd] using hw)).elim

theorem awake_revoked (h : p.Awake) {k : Kind} (hrevoked : p.Revoked k p') : p'.Awake := by
  cases hrevoked with
  | held =>
    constructor
    · intro hr
      cases k <;> simpa [setEnd] using h.reader (by simpa [setEnd] using hr)
    · intro hw
      cases k <;> simpa [setEnd] using h.writer (by simpa [setEnd] using hw)
  | closed hlast hother =>
    -- Only the task at this end may go on waiting, and the other end is open.
    cases k with
    | read =>
      refine ⟨fun hr => ?_, fun hw => ?_⟩
      · simpa [setBlocked, setEnd, Kind.other] using h.reader (by simpa [setBlocked, setEnd, Kind.other] using hr)
      · simp [setBlocked, Kind.other] at hw
    | write =>
      refine ⟨fun hr => ?_, fun hw => ?_⟩
      · simp [setBlocked, Kind.other] at hr
      · simpa [setBlocked, setEnd, Kind.other] using h.writer (by simpa [setBlocked, setEnd, Kind.other] using hw)
  | freed => exact awake_clear _

end Buffer

namespace Pipes

variable {s : Pipes} {i : Fin maxObjects} {p : Buffer}

def Awake (s : Pipes) : Prop := ∀ i, (s.objects i).Awake

section

variable (h : s.Awake)
include h

theorem Awake.set (hp : p.Awake) : (s.set i p).Awake := by
  intro j
  by_cases hj : j = i
  · subst hj
    rwa [set_same]
  · rw [set_other s hj]
    exact h j

theorem Awake.set_iff : (s.set i p).Awake ↔ p.Awake :=
  ⟨fun hs => by simpa using hs i, h.set⟩

/-- No task that waits is passed by: a write to a pipe with a reader that waits, and a read from a pipe with a writer that waits,
ask for no more than a ringful. -/
def Gentle (s : Pipes) : Op → Prop
  | .write handle (some _) byteCount ownerId _ =>
    ∀ i, s.WritesTo handle ownerId i → ((s.objects i).ends .read).blockedTask.isSome = true → byteCount.toNat ≤ bufferBytes
  | .read handle true byteCount ownerId _ =>
    ∀ i, s.ReadsFrom handle ownerId i → ((s.objects i).ends .write).blockedTask.isSome = true → byteCount.toNat ≤ bufferBytes
  | _ => True

theorem awake_write_iff (hsound : ∀ i, (s.objects i).ring.Sound) (handle : UInt32) (input : Option (Nat → UInt8))
    (byteCount ownerId : UInt32) (env : Env) :
    (s.step (.write handle input byteCount ownerId env)).Awake ↔ s.Gentle (.write handle input byteCount ownerId env) := by
  show (s.write handle input byteCount ownerId env).2.1.Awake ↔ _
  rcases s.write_cases handle input byteCount ownerId env with
    ⟨heq, hnothing⟩ | ⟨f, i, result, p, hcount, rfl, hto, hwritten, -, heq⟩
  · rw [heq]
    refine iff_of_true h ?_
    rcases input with _ | f
    · trivial
    intro i hto _
    rcases hnothing with ⟨hzero, -⟩ | ⟨hnone, -⟩
    · rw [hzero]
      exact Nat.zero_le _
    · exact (hnone f i rfl hto).elim
  · have hlength : (bytesFrom f 0 byteCount.toNat).length ≠ 0 := by
      rw [bytesFrom_length]
      exact toNat_ne_zero hcount
    rw [heq, h.set_iff, awake_written_iff (h i) (hsound i).fits hto.reader hlength hwritten, bytesFrom_length]
    constructor
    · intro hgentle j hto'
      obtain rfl : i = j := by simpa [hto.found] using hto'.found
      exact hgentle
    · intro hgentle
      exact hgentle i hto

theorem awake_read_iff (hsound : ∀ i, (s.objects i).ring.Sound) (handle : UInt32) (output : Bool) (byteCount ownerId : UInt32)
    (env : Env) :
    (s.step (.read handle output byteCount ownerId env)).Awake ↔ s.Gentle (.read handle output byteCount ownerId env) := by
  show (s.read handle output byteCount ownerId env).2.2.1.Awake ↔ _
  rcases read_cases hsound handle output byteCount ownerId env with
    ⟨heq, hnothing⟩ | ⟨i, result, bytes, p, hcount, rfl, hfrom, hread, -, -, heq⟩
  · rw [heq]
    refine iff_of_true h ?_
    cases output
    · trivial
    intro i hfrom _
    rcases hnothing with ⟨hzero, -⟩ | ⟨hnone, -⟩
    · rw [hzero]
      exact Nat.zero_le _
    · exact (hnone i rfl hfrom).elim
  · rw [heq, h.set_iff, awake_readOut_iff (h i) (toNat_ne_zero hcount) hread]
    constructor
    · intro hgentle j hfrom'
      obtain rfl : i = j := by simpa [hfrom.found] using hfrom'.found
      exact hgentle
    · intro hgentle
      exact hgentle i hfrom

theorem awake_create (pid ownerId : UInt32) (opened : Bool) : (s.create pid ownerId opened).2.Awake := by
  rcases s.create_cases pid ownerId opened with ⟨heq, -⟩ | ⟨i, -, -, heq | heq⟩
  · rwa [heq]
  · rw [heq]
    refine h.set ⟨?_, ?_⟩
    · intro hr
      simp [claimed, End.clear] at hr
    · intro hw
      simp [claimed, End.clear] at hw
  · rw [heq]
    exact h.set (awake_clear _)

theorem awake_grant (handle sourceOwner targetOwner : UInt32) (installed : Bool) :
    (s.grantEndpoint handle sourceOwner targetOwner installed).2.Awake := by
  rcases s.grant_cases handle sourceOwner targetOwner installed with heq | ⟨i, -, -, heq⟩
  · rwa [heq]
  rw [heq]
  refine h.set ⟨?_, ?_⟩
  · intro hr
    cases hk : handleKind handle <;> simp only [hk] at hr <;>
      simpa [setEnd] using (h i).reader (by simpa [setEnd] using hr)
  · intro hw
    cases hk : handleKind handle <;> simp only [hk] at hw <;>
      simpa [setEnd] using (h i).writer (by simpa [setEnd] using hw)

theorem awake_revoke (handle ownerId : UInt32) (env : Env) : (s.revokeHandle handle ownerId env).2.1.Awake := by
  rcases s.revoke_cases handle ownerId env with ⟨-, -, heq⟩ | ⟨i, p, -, hrevoked, -, heq⟩
  · rwa [heq]
  · rw [heq]
    exact h.set (awake_revoked (h i) hrevoked)

theorem awake_step_iff (hsound : ∀ i, (s.objects i).ring.Sound) (op : Op) : (s.step op).Awake ↔ s.Gentle op := by
  cases op with
  | create pid ownerId opened => exact iff_of_true (awake_create h pid ownerId opened) trivial
  | grant handle sourceOwner targetOwner installed =>
    exact iff_of_true (awake_grant h handle sourceOwner targetOwner installed) trivial
  | write handle input byteCount ownerId env => exact awake_write_iff h hsound handle input byteCount ownerId env
  | read handle output byteCount ownerId env => exact awake_read_iff h hsound handle output byteCount ownerId env
  | revoke handle ownerId env => exact iff_of_true (awake_revoke h handle ownerId env) trivial

end

/-- No wakeup is lost in a run exactly when no call passes by a task that waits. -/
theorem awake_run_iff (ops : List Op) : (∀ before, before <+: ops → (run before).Awake) ↔ Meets step Gentle init ops := by
  have hinit : init.Awake := fun _ => awake_clear 1
  refine Meets.iff_invariant (i := Awake) (j := fun s => ∃ past, Fifo past s) ?_ ?_ ⟨[], fifo_init⟩ hinit ops
  · rintro s op ⟨past, hfifo⟩
    exact ⟨past ++ s.transfers op, fifo_step hfifo op⟩
  · intro s op hs hawake
    obtain ⟨past, hfifo⟩ := hs
    exact awake_step_iff hawake hfifo.sound op

/-- Two tasks are launched and the first runs; the principal of a process is 100 more than its pid. -/
def firstRuns : Env := ⟨(System.run [.launch [System.program 1, System.program 2]]).queue, fun pid => 100 + pid⟩

/-- The first task is blocked and the second runs. -/
def secondRuns : Env :=
  ⟨(System.run [.launch [System.program 1, System.program 2], .block (System.taskIn 0), .blockedSyscall System.userFrame]).queue,
    fun pid => 100 + pid⟩

/-- The process 1 makes a pipe, grants its write end to the process 2, and reads. -/
def readerWaits : List Op :=
  [.create 1 101 true, .grant (firstHandle .write) 101 102 true, .read (firstHandle .read) true 10 101 firstRuns]

/-- The process 2 then writes one byte more than the ring holds. -/
def writerPasses : List Op := readerWaits ++ [.write (firstHandle .write) (some fun _ => 0) 4097 102 secondRuns]

theorem readerWaits_reader :
    (((run readerWaits).objects firstPipe).ends .read).blockedTask = some (System.taskIn 0) ∧
      ((run readerWaits).objects firstPipe).ring.count = 0 := by
  decide +kernel

theorem readerWaits_writesTo : (run readerWaits).WritesTo (firstHandle .write) 102 firstPipe :=
  ⟨by decide +kernel, by decide +kernel, by decide +kernel, by decide +kernel⟩

/-- The write fills the ring, and the reader is still registered as waiting for the first byte. -/
theorem reader_sleeps_on :
    (((run writerPasses).objects firstPipe).ends .read).blockedTask = some (System.taskIn 0) ∧
      ((run writerPasses).objects firstPipe).ring.count = bufferBytes ∧ ¬ (run writerPasses).Awake := by
  have hrun : run writerPasses = ((run readerWaits).write (firstHandle .write) (some fun _ => 0) 4097 102 secondRuns).2.1 := by
    rw [writerPasses, run_snoc, step]
  obtain ⟨hreader, hempty⟩ := readerWaits_reader
  suffices h : (((run writerPasses).objects firstPipe).ends .read).blockedTask = some (System.taskIn 0) ∧
      ((run writerPasses).objects firstPipe).ring.count = bufferBytes by
    refine ⟨h.1, h.2, fun hawake => ?_⟩
    have hzero := ((hawake firstPipe).reader (by rw [h.1]; rfl)).1
    simp [h.2] at hzero
  rw [hrun]
  rcases (run readerWaits).write_cases (firstHandle .write) (some fun _ => 0) 4097 102 secondRuns with
    ⟨-, ⟨hzero, -⟩ | ⟨hnone, -⟩⟩ | ⟨f, i, result, p, -, -, hto, hwritten, -, heq⟩
  · cases hzero
  · exact (hnone _ firstPipe rfl readerWaits_writesTo).elim
  obtain rfl : firstPipe = i := by simpa [readerWaits_writesTo.found] using hto.found
  rw [heq, set_same]
  cases hwritten with
  | all hroom =>
    rw [hempty, bytesFrom_length] at hroom
    exact absurd hroom (by decide)
  | part hroom hmore =>
    refine ⟨hreader, ?_⟩
    show (((run readerWaits).objects firstPipe).ring.pushAll _).count = bufferBytes
    rw [Ring.pushAll_count, List.length_take, bytesFrom_length, hempty]
    decide
  | blocked hfull | refused hfull => exact absurd (hempty ▸ hfull) (by decide)

end Pipes

end LimitlessOS.Pipe
