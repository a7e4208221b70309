/-
  LimitlessOS.Pipe.Fifo — pipes are queues.

  The history of a run has the bytes that each write reported as written, those that each
  read returned, and the openings of pipes; the books of a slot say what has passed through
  the pipe in it since it was opened.

  Proved:
  - `fifo_step`: while a pipe lives, what was sent is what was received and what is in its
    ring, in this order; a call keeps that.
  - `fifo_of_run`: in every run, what has been read from a pipe is a prefix of what its
    writes have reported as written, its ring is sound, and a read ends the file only on an
    empty pipe whose write end is closed.
-/
import LimitlessOS.Pipe.Calls
import LimitlessOS.Lib.Run

namespace LimitlessOS.Pipe

open Lib List UInt32 Ring

/-- What a call tells its caller about the bytes of a pipe. -/
inductive Transfer where
  | opened (i : Fin maxObjects)
  | wrote (i : Fin maxObjects) (bytes : List UInt8)
  | got (i : Fin maxObjects) (bytes : List UInt8)

namespace Transfer

def pipe : Transfer → Fin maxObjects
  | opened i => i
  | wrote i _ => i
  | got i _ => i

end Transfer

/-- What has passed through a pipe since it was opened. -/
structure Books where
  sent : List UInt8
  received : List UInt8

namespace Books

def empty : Books := ⟨[], []⟩

def enter (b : Books) : Transfer → Books
  | .opened _ => empty
  | .wrote _ bytes => { b with sent := b.sent ++ bytes }
  | .got _ bytes => { b with received := b.received ++ bytes }

end Books

def books (past : List Transfer) (i : Fin maxObjects) : Books := (past.filter fun e => e.pipe = i).foldl Books.enter .empty

theorem books_same (past : List Transfer) (e : Transfer) : books (past ++ [e]) e.pipe = (books past e.pipe).enter e := by
  simp [books, filter_append]

theorem books_other (past : List Transfer) {e : Transfer} {i : Fin maxObjects} (h : i ≠ e.pipe) :
    books (past ++ [e]) i = books past i := by
  simp [books, filter_append, Ne.symm h]

namespace Pipes

variable {s : Pipes} {past : List Transfer} {i : Fin maxObjects} {p : Buffer}

/-- A result that is the number of bytes transferred. -/
def Succeeded (result : UInt32) : Prop := result ≠ ioError ∧ result ≠ ioBlocked

instance (result : UInt32) : Decidable (Succeeded result) := inferInstanceAs (Decidable (_ ∧ _))

/-- The bytes that the calls report. -/
def transfers (s : Pipes) : Op → List Transfer
  | .create pid ownerId opened => ((s.create pid ownerId opened).1.map Transfer.opened).toList
  | .write handle input byteCount ownerId env =>
    match input, s.find handle ownerId with
    | some input, some i =>
      let result := (s.write handle input byteCount ownerId env).1
      if Succeeded result then [.wrote i (bytesFrom input 0 result.toNat)] else []
    | _, _ => []
  | .read handle output byteCount ownerId env =>
    match s.find handle ownerId with
    | some i =>
      let result := (s.read handle output byteCount ownerId env).1
      if Succeeded result then [.got i ((s.read handle output byteCount ownerId env).2.1.take result.toNat)] else []
    | none => []
  | _ => []

/-- The transfers of a run. -/
def history (ops : List Op) : List Transfer := eventsOf transfers step init ops

/-! ## The queue -/

structure Fifo (past : List Transfer) (s : Pipes) : Prop where
  sound : ∀ i, (s.objects i).ring.Sound
  ordered : ∀ i, (books past i).received <+: (books past i).sent
  held : ∀ i, (s.objects i).live = true → (books past i).sent = (books past i).received ++ (s.objects i).ring.contents

theorem emptyRing_sound : emptyRing.Sound := ⟨Nat.zero_le _, rfl⟩

theorem fifo_init : Fifo [] init where
  sound := fun _ => emptyRing_sound
  ordered := fun _ => prefix_rfl
  held := fun i h => by simp [init, Buffer.clear] at h

namespace Fifo

/-- A pipe changes and nothing is transferred. -/
theorem set (h : Fifo past s) (hsound : p.ring.Sound)
    (hheld : p.live → (s.objects i).live ∧ p.ring.contents = (s.objects i).ring.contents) : Fifo past (s.set i p) where
  sound := fun j => by
    by_cases hj : j = i
    · subst hj
      rwa [set_same]
    · rw [set_other s hj]
      exact h.sound j
  ordered := h.ordered
  held := fun j hlive => by
    by_cases hj : j = i
    · subst hj
      rw [set_same] at hlive ⊢
      rw [(hheld hlive).2]
      exact h.held j (hheld hlive).1
    · rw [set_other s hj] at hlive ⊢
      exact h.held j hlive

theorem keep (h : Fifo past s) (hring : p.ring = (s.objects i).ring) (hlive : p.live = (s.objects i).live) :
    Fifo past (s.set i p) :=
  h.set (hring ▸ h.sound i) fun hp => ⟨hlive ▸ hp, by rw [hring]⟩

theorem clear (h : Fifo past s) (generation : UInt32) : Fifo past (s.set i (.clear generation)) :=
  h.set emptyRing_sound fun hlive => by simp [Buffer.clear] at hlive

/-- A pipe changes as the transfer says. -/
theorem transfer (h : Fifo past s) {e : Transfer} (hi : e.pipe = i) (hsound : p.ring.Sound)
    (hheld : ((books past i).enter e).sent = ((books past i).enter e).received ++ p.ring.contents) :
    Fifo (past ++ [e]) (s.set i p) := by
  subst hi
  refine ⟨fun j => ?_, fun j => ?_, fun j hlive => ?_⟩
  · by_cases hj : j = e.pipe
    · subst hj
      rwa [set_same]
    · rw [set_other s hj]
      exact h.sound j
  · by_cases hj : j = e.pipe
    · subst hj
      rw [books_same, hheld]
      exact prefix_append ..
    · rw [books_other past hj]
      exact h.ordered j
  · by_cases hj : j = e.pipe
    · subst hj
      rw [books_same, set_same, hheld]
    · rw [set_other s hj] at hlive ⊢
      rw [books_other past hj]
      exact h.held j hlive

end Fifo

/-! ## The calls -/

theorem toNat_ofNat_small {n : Nat} (hn : n ≤ bufferBytes) : (ofNat n).toNat = n := by
  exact Nat.mod_eq_of_lt (Nat.lt_of_le_of_lt hn (by decide))

theorem succeeded_small {n : Nat} (hn : n ≤ bufferBytes) : Succeeded (ofNat n) := by
  have hval := toNat_ofNat_small hn
  have hsmall : n ≤ 4096 := hn
  constructor
  · intro heq
    rw [heq] at hval
    have : ioError.toNat = 4294967295 := rfl
    omega
  · intro heq
    rw [heq] at hval
    have : ioBlocked.toNat = 4294967294 := rfl
    omega

section

variable (h : Fifo past s)
include h

theorem fifo_create (pid ownerId : UInt32) (opened : Bool) :
    Fifo (past ++ s.transfers (.create pid ownerId opened)) (s.step (.create pid ownerId opened)) := by
  rcases s.create_cases pid ownerId opened with ⟨heq, -⟩ | ⟨i, -, -, heq | heq⟩
  · simpa [transfers, step, heq] using h
  · simp only [transfers, step, heq]
    exact h.transfer rfl emptyRing_sound rfl
  · simpa [transfers, step, heq] using h.clear _

theorem fifo_grant (handle sourceOwner targetOwner : UInt32) (installed : Bool) :
    Fifo past (s.grantEndpoint handle sourceOwner targetOwner installed).2 := by
  rcases s.grant_cases handle sourceOwner targetOwner installed with heq | ⟨i, -, -, heq⟩
  · rwa [heq]
  · rw [heq]
    exact h.keep rfl rfl

theorem fifo_revoke (handle ownerId : UInt32) (env : Env) :
    Fifo past (s.revokeHandle handle ownerId env).2.1 := by
  rcases s.revoke_cases handle ownerId env with ⟨-, -, heq⟩ | ⟨i, p, -, hrevoked, -, heq⟩
  · rwa [heq]
  rw [heq]
  cases hrevoked with
  | held | closed => exact h.keep rfl rfl
  | freed => exact h.clear _

theorem Fifo.wrote (hlive : (s.objects i).live) {bytes : List UInt8}
    (hroom : (s.objects i).ring.count + bytes.length ≤ bufferBytes) (hring : p.ring = (s.objects i).ring.pushAll bytes) :
    Fifo (past ++ [.wrote i bytes]) (s.set i p) := by
  obtain ⟨hsound, hcontents⟩ := contents_pushAll (h.sound i) hroom
  rw [← hring] at hsound hcontents
  refine h.transfer rfl hsound ?_
  show (books past i).sent ++ bytes = (books past i).received ++ p.ring.contents
  rw [hcontents, ← append_assoc, h.held i hlive]

theorem Fifo.got (hlive : (s.objects i).live) {count : Nat} (hcount : count ≤ (s.objects i).ring.count)
    (hring : p.ring = (popMany count (s.objects i).ring).2) :
    Fifo (past ++ [.got i (popMany count (s.objects i).ring).1]) (s.set i p) := by
  obtain ⟨hsound, hcontents⟩ := contents_popMany (h.sound i) hcount
  rw [← hring] at hsound hcontents
  refine h.transfer rfl hsound ?_
  show (books past i).sent = (books past i).received ++ _ ++ p.ring.contents
  rw [append_assoc, ← hcontents, h.held i hlive]

/-- Nothing is transferred to or from a pipe that is found. -/
theorem Fifo.nothing {e : Transfer} (hlive : (s.objects e.pipe).live)
    (he : (books past e.pipe).enter e = books past e.pipe) : Fifo (past ++ [e]) s := by
  have hset : s.set e.pipe (s.objects e.pipe) = s := by simp [Pipes.set]
  rw [← hset]
  exact h.transfer rfl (h.sound _) (by rw [he]; exact h.held _ hlive)

end

variable {env : Env} {byteCount handle ownerId : UInt32} {output : Bool}

theorem transfers_write {f : Nat → UInt8} (hfind : s.find handle ownerId = some i) :
    s.transfers (.write handle (some f) byteCount ownerId env) =
      if Succeeded (s.write handle (some f) byteCount ownerId env).1 then
        [.wrote i (bytesFrom f 0 (s.write handle (some f) byteCount ownerId env).1.toNat)] else [] := by
  simp only [transfers, hfind]

theorem fifo_write (h : Fifo past s) (handle : UInt32) (input : Option (Nat → UInt8)) (byteCount ownerId : UInt32) (env : Env) :
    Fifo (past ++ s.transfers (.write handle input byteCount ownerId env))
      (s.step (.write handle input byteCount ownerId env)) := by
  show Fifo _ (s.write handle input byteCount ownerId env).2.1
  rcases s.write_cases handle input byteCount ownerId env with
    ⟨heq, hresult⟩ | ⟨f, i, result, p, -, rfl, hto, hwritten, hresult, heq⟩
  · rw [heq]
    rcases input with _ | f
    · simpa [transfers] using h
    rcases hfind : s.find handle ownerId with _ | i
    · simpa [transfers, hfind] using h
    have hlive : (s.objects i).live := (find_eq_some.1 hfind).live
    rw [transfers_write hfind]
    rcases hresult with ⟨-, hzero⟩ | ⟨-, herror⟩
    · rw [hzero, if_pos (by decide)]
      exact h.nothing hlive (by simp [Books.enter, Transfer.pipe, bytesFrom])
    · rwa [herror, if_neg (by decide), append_nil]
  · rw [heq, transfers_write hto.found, hresult]
    have hlive : (s.objects i).live := (find_eq_some.1 hto.found).live
    cases hwritten with
    | all hroom =>
      have hsmall : (bytesFrom f 0 byteCount.toNat).length ≤ bufferBytes := by omega
      rw [if_pos (succeeded_small hsmall), toNat_ofNat_small hsmall, bytesFrom_length]
      exact h.wrote hlive hroom rfl
    | part hroom hmore =>
      have hsmall : bufferBytes - (s.objects i).ring.count ≤ bufferBytes := by omega
      rw [bytesFrom_length] at hmore
      rw [if_pos (succeeded_small hsmall), toNat_ofNat_small hsmall, bytesFrom_take f 0 (by omega)]
      exact h.wrote hlive (by rw [bytesFrom_length]; omega) rfl
    | blocked | refused =>
      rw [if_neg (by decide), append_nil]
      exact h.keep rfl rfl

theorem transfers_read (hfind : s.find handle ownerId = some i) :
    s.transfers (.read handle output byteCount ownerId env) =
      if Succeeded (s.read handle output byteCount ownerId env).1 then
        [.got i ((s.read handle output byteCount ownerId env).2.1.take (s.read handle output byteCount ownerId env).1.toNat)]
      else [] := by
  simp only [transfers, hfind]

theorem fifo_read (h : Fifo past s) (handle : UInt32) (output : Bool) (byteCount ownerId : UInt32) (env : Env) :
    Fifo (past ++ s.transfers (.read handle output byteCount ownerId env))
      (s.step (.read handle output byteCount ownerId env)) := by
  show Fifo _ (s.read handle output byteCount ownerId env).2.2.1
  rcases read_cases h.sound handle output byteCount ownerId env with
    ⟨heq, hresult⟩ | ⟨i, result, bytes, p, -, -, hfrom, hread, hresult, hbytes, heq⟩
  · cases hfind : s.find handle ownerId with
    | none => simpa [transfers, hfind, heq] using h
    | some i =>
      have hlive : (s.objects i).live := (find_eq_some.1 hfind).live
      rw [transfers_read hfind, heq]
      rcases hresult with ⟨-, hzero⟩ | ⟨-, herror⟩
      · rw [hzero, if_pos (by decide)]
        exact h.nothing hlive (by simp [Books.enter, Transfer.pipe])
      · rwa [herror, if_neg (by decide), append_nil]
  · rw [heq, transfers_read hfrom.found, hresult, hbytes]
    have hfits := (h.sound i).fits
    have hlive : (s.objects i).live := (find_eq_some.1 hfrom.found).live
    cases hread with
    | all henough =>
      have hsmall : byteCount.toNat ≤ bufferBytes := by omega
      rw [if_pos (succeeded_small hsmall), toNat_ofNat_small hsmall, take_of_length_le (popMany_length ..).le]
      exact h.got hlive henough rfl
    | part hsome hmore =>
      rw [if_pos (succeeded_small hfits), toNat_ofNat_small hfits, take_of_length_le (popMany_length ..).le]
      exact h.got hlive le_rfl rfl
    | ended hempty hclosed =>
      exact h.got hlive (Nat.zero_le _) rfl
    | blocked | refused =>
      rw [if_neg (by decide), append_nil]
      exact h.keep rfl rfl

theorem fifo_step (h : Fifo past s) (op : Op) : Fifo (past ++ s.transfers op) (s.step op) := by
  cases op with
  | create pid ownerId opened => exact fifo_create h pid ownerId opened
  | grant handle sourceOwner targetOwner installed =>
    simpa [transfers, step] using fifo_grant h handle sourceOwner targetOwner installed
  | write handle input byteCount ownerId env => exact fifo_write h handle input byteCount ownerId env
  | read handle output byteCount ownerId env => exact fifo_read h handle output byteCount ownerId env
  | revoke handle ownerId env => simpa [transfers, step] using fifo_revoke h handle ownerId env

theorem run_snoc (ops : List Op) (op : Op) : run (ops ++ [op]) = (run ops).step op := foldl_append ..

theorem fifo_run (ops : List Op) : Fifo (history ops) (run ops) := by
  exact eventsOf_invariant (i := Fifo) (fun _ _ op h => fifo_step h op) fifo_init ops

/-- A read of at least one byte returns zero only at the end of the file. -/
theorem read_zero (hsound : ∀ i, (s.objects i).ring.Sound) (hcount : byteCount ≠ 0)
    (hzero : (s.read handle output byteCount ownerId env).1 = 0) :
    ∃ i, s.find handle ownerId = some i ∧ (s.objects i).ring.count = 0 ∧ ((s.objects i).ends .write).closed := by
  rcases read_cases hsound handle output byteCount ownerId env with
    ⟨-, ⟨hnone, -⟩ | ⟨-, herror⟩⟩ | ⟨i, result, bytes, p, -, -, hfrom, hread, hresult, -, -⟩
  · exact absurd hnone hcount
  · rw [herror] at hzero
    cases hzero
  rw [hresult] at hzero
  have hfits := (hsound i).fits
  have hbytes := toNat_ne_zero hcount
  cases hread with
  | all henough =>
    have hval := congrArg toNat hzero
    rw [toNat_ofNat_small (henough.trans hfits)] at hval
    exact absurd hval hbytes
  | part hsome hmore =>
    have hval := congrArg toNat hzero
    rw [toNat_ofNat_small hfits] at hval
    exact absurd hval (Nat.ne_of_gt hsome)
  | ended hempty hclosed => exact ⟨i, hfrom.found, hempty, hclosed⟩
  | blocked | refused => cases hzero

/-- Pipes are queues: what the reads return is a prefix of what the writes report, whatever calls are made in between. -/
theorem fifo_of_run (ops : List Op) :
    (∀ i, (books (history ops) i).received <+: (books (history ops) i).sent) ∧
      (∀ i, ((run ops).objects i).ring.count ≤ bufferBytes ∧
        ((run ops).objects i).ring.writeIndex.val =
          (((run ops).objects i).ring.readIndex.val + ((run ops).objects i).ring.count) % bufferBytes) ∧
      ∀ handle output byteCount ownerId env, byteCount ≠ 0 → ((run ops).read handle output byteCount ownerId env).1 = 0 →
        ∃ i, (run ops).find handle ownerId = some i ∧ ((run ops).objects i).ring.count = 0 ∧
          (((run ops).objects i).ends .write).closed = true := by
  have h := fifo_run ops
  refine ⟨h.ordered, fun i => ⟨(h.sound i).fits, ?_⟩, ?_⟩
  · exact congrArg Fin.val (h.sound i).apart
  · intro handle output byteCount ownerId env hcount hzero
    exact read_zero h.sound hcount hzero

end Pipes

end LimitlessOS.Pipe
