/-
  LimitlessOS.Pipe.Calls — what one call does to the pipes.

  Proved:
  - `wait_cases`: a call that waits blocks its task or leaves everything as it is.
  - `written`, `readOut`: what one write and one read do to the pipe they find.
  - `write_cases`, `read_cases`, `create_cases`, `grant_cases`, `revoke_cases`: what a call
    does to all pipes.
-/
import LimitlessOS.Pipe.Objects

namespace LimitlessOS.Pipe

open Lib Sched Signal Ring List Nat Buffer

/-! ## Waiting -/

namespace Env

variable {env : Env}

theorem blockCurrentTask_cases (env : Env) (ownerId : UInt32) (slot : Option TaskId) :
    (∃ t env', slot = none ∧ env.blockCurrentTask ownerId slot = (true, some t, env')) ∨
      ∃ env', env.blockCurrentTask ownerId slot = (false, slot, env') := by
  unfold blockCurrentTask
  split_ifs with hslot
  · exact .inr ⟨env, rfl⟩
  obtain rfl : slot = none := by simpa using hslot
  rcases env.currentTaskForOwner ownerId with _ | t
  · exact .inr ⟨env, rfl⟩
  simp only
  rcases env.queue.blockTask t with ⟨ok, queue⟩
  cases ok with
  | true => exact .inl ⟨t, { env with queue }, trivial, rfl⟩
  | false => exact .inr ⟨{ env with queue }, rfl⟩

theorem wait_cases (env : Env) (ownerId : UInt32) (closed : Bool) (slot : Option TaskId) (spins : Nat) :
    (∃ t env', slot = none ∧ env.wait ownerId closed slot spins = (ioBlocked, some t, env')) ∨
      ∃ env', env.wait ownerId closed slot spins = (ioError, slot, env') := by
  induction spins generalizing env with
  | zero =>
    unfold wait
    rcases env.blockCurrentTask_cases ownerId slot with ⟨t, env', hslot, heq⟩ | ⟨env', heq⟩
    · rw [heq]
      exact .inl ⟨t, env', hslot, rfl⟩
    · rw [heq]
      exact .inr ⟨env', rfl⟩
  | succ spins ih =>
    unfold wait
    rcases env.blockCurrentTask_cases ownerId slot with ⟨t, env', hslot, heq⟩ | ⟨env', heq⟩
    · rw [heq]
      exact .inl ⟨t, env', hslot, rfl⟩
    · rw [heq]
      cases closed with
      | true => exact .inr ⟨env', rfl⟩
      | false => exact ih env'

end Env

/-! ## One pipe -/

/-- The bytes of an array from an index on. -/
def bytesFrom (input : Nat → UInt8) (start count : Nat) : List UInt8 := (List.range count).map fun k => input (start + k)

@[simp] theorem bytesFrom_length (input : Nat → UInt8) (start count : Nat) : (bytesFrom input start count).length = count := by
  simp [bytesFrom]

theorem bytesFrom_succ (input : Nat → UInt8) (start count : Nat) :
    bytesFrom input start (count + 1) = input start :: bytesFrom input (start + 1) count := by
  simp only [bytesFrom, range_succ_eq_map, map_cons, map_map]
  refine congrArg _ (map_congr_left fun k _ => ?_)
  show input (start + (k + 1)) = input (start + 1 + k)
  congr 1
  omega

theorem bytesFrom_take (input : Nat → UInt8) (start : Nat) {k count : Nat} (hk : k ≤ count) :
    (bytesFrom input start count).take k = bytesFrom input start k := by
  simp [bytesFrom, ← map_take, take_range, min_eq_left hk]

namespace Buffer

variable {p p' : Buffer} {byteCount count : Nat}

theorem setBlocked_self (p : Buffer) (k : Kind) : p.setBlocked k (p.ends k).blockedTask = p := by
  simp [setBlocked, setEnd]

def pushed (p : Buffer) (bytes : List UInt8) : Buffer := { p with ring := p.ring.pushAll bytes }

def popped (p : Buffer) (count : Nat) : Buffer := { p with ring := (popMany count p.ring).2 }

/-- What a write of some bytes does: its result and the pipe afterwards. -/
inductive Written (p : Buffer) (bytes : List UInt8) : UInt32 → Buffer → Prop
  /-- There is room for all of them; a reader that waits is woken. -/
  | all (h : p.ring.count + bytes.length ≤ bufferBytes) :
    Written p bytes (UInt32.ofNat bytes.length) ((p.pushed bytes).setBlocked .read none)
  /-- The ring is full before they are all written. -/
  | part (hroom : p.ring.count < bufferBytes) (hmore : bufferBytes < p.ring.count + bytes.length) :
    Written p bytes (UInt32.ofNat (bufferBytes - p.ring.count)) (p.pushed (bytes.take (bufferBytes - p.ring.count)))
  | blocked (hfull : bufferBytes ≤ p.ring.count) (hfree : (p.ends .write).blockedTask = none) (t : TaskId) :
    Written p bytes ioBlocked (p.setBlocked .write (some t))
  | refused (hfull : bufferBytes ≤ p.ring.count) : Written p bytes ioError p

/-- As long as there is room, the loop stores one byte after the other. -/
theorem writeBytes_room (ownerId : UInt32) (input : Nat → UInt8) (left bytesWritten : Nat) (env : Env)
    (hroom : p.ring.count + count ≤ bufferBytes) :
    p.writeBytes ownerId input (count + left) bytesWritten env =
      (p.pushed (bytesFrom input bytesWritten count)).writeBytes ownerId input left (bytesWritten + count) env := by
  induction count generalizing bytesWritten p with
  | zero =>
    rw [zero_add]
    rfl
  | succ count ih =>
    have hnot : ¬ bufferBytes ≤ p.ring.count := by omega
    have hroom' : (p.ring.push (input bytesWritten)).count + count ≤ bufferBytes := by
      show p.ring.count + 1 + count ≤ bufferBytes
      omega
    rw [succ_add, writeBytes, if_neg hnot, ih (bytesWritten + 1) hroom', bytesFrom_succ, add_assoc, add_comm 1]
    rfl

/-- One write. -/
theorem written (p : Buffer) (ownerId : UInt32) (input : Nat → UInt8) (hcount : byteCount ≠ 0) (env : Env) :
    Written p (bytesFrom input 0 byteCount) (p.writeBytes ownerId input byteCount 0 env).1
      (p.writeBytes ownerId input byteCount 0 env).2.1 := by
  by_cases hroom : p.ring.count + byteCount ≤ bufferBytes
  · have h : p.ring.count + (bytesFrom input 0 byteCount).length ≤ bufferBytes := by rwa [bytesFrom_length]
    rw [← add_zero byteCount, writeBytes_room ownerId input 0 0 env hroom, zero_add, writeBytes, if_pos hcount]
    simpa using Written.all h
  by_cases hfull : bufferBytes ≤ p.ring.count
  · obtain ⟨left, rfl⟩ : ∃ l, byteCount = l + 1 := ⟨byteCount - 1, by omega⟩
    simp only [writeBytes, if_pos hfull, ne_eq, not_true_eq_false, if_false]
    rcases env.wait_cases ownerId (p.ends .read).closed (p.ends .write).blockedTask spinWaitLimit with
      ⟨t, env', hslot, heq⟩ | ⟨env', heq⟩
    · rw [heq]
      exact .blocked hfull hslot t
    · rw [heq]
      simp only [setBlocked_self]
      exact .refused hfull
  · obtain ⟨left, hleft⟩ : ∃ l, byteCount = bufferBytes - p.ring.count + (l + 1) :=
      ⟨byteCount - (bufferBytes - p.ring.count) - 1, by omega⟩
    have hnow : bufferBytes ≤ (p.pushed (bytesFrom input 0 (bufferBytes - p.ring.count))).ring.count := by
      rw [pushed, pushAll_count, bytesFrom_length]
      omega
    have hfits : p.ring.count + (bufferBytes - p.ring.count) ≤ bufferBytes := by omega
    have hloop := writeBytes_room ownerId input (left + 1) 0 env hfits
    rw [← hleft, writeBytes, if_pos hnow, if_pos (by omega), zero_add] at hloop
    rw [hloop, ← bytesFrom_take input 0 (show bufferBytes - p.ring.count ≤ byteCount by omega)]
    exact .part (by omega) (by rw [bytesFrom_length]; omega)

/-- What a read of a number of bytes does: its result, the bytes it stores and the pipe afterwards. -/
inductive ReadOut (p : Buffer) (byteCount : Nat) : UInt32 → List UInt8 → Buffer → Prop
  /-- There are enough bytes; a writer that waits is woken. -/
  | all (h : byteCount ≤ p.ring.count) :
    ReadOut p byteCount (UInt32.ofNat byteCount) (popMany byteCount p.ring).1 ((p.popped byteCount).setBlocked .write none)
  /-- The ring is empty before the read has all it asks for. -/
  | part (hsome : 0 < p.ring.count) (hmore : p.ring.count < byteCount) :
    ReadOut p byteCount (UInt32.ofNat p.ring.count) (popMany p.ring.count p.ring).1 (p.popped p.ring.count)
  | ended (hempty : p.ring.count = 0) (hclosed : (p.ends .write).closed = true) : ReadOut p byteCount 0 [] p
  | blocked (hempty : p.ring.count = 0) (hopen : (p.ends .write).closed = false) (hfree : (p.ends .read).blockedTask = none)
    (t : TaskId) : ReadOut p byteCount ioBlocked [] (p.setBlocked .read (some t))
  | refused (hempty : p.ring.count = 0) (hopen : (p.ends .write).closed = false) : ReadOut p byteCount ioError [] p

/-- As long as there are bytes, the loop takes one after the other. -/
theorem readBytes_held (ownerId : UInt32) (left : Nat) (output : List UInt8) (env : Env) (hheld : count ≤ p.ring.count) :
    p.readBytes ownerId (count + left) output env =
      (p.popped count).readBytes ownerId left (output ++ (popMany count p.ring).1) env := by
  induction count generalizing output p with
  | zero =>
    rw [zero_add, popMany, append_nil]
    rfl
  | succ count ih =>
    have hne : p.ring.count ≠ 0 := by omega
    have hheld' : count ≤ p.ring.pop.2.count := by
      show count ≤ p.ring.count - 1
      omega
    rw [succ_add, readBytes, if_neg hne, ih (output ++ [p.ring.pop.1]) hheld', append_assoc, singleton_append]
    rfl

/-- One read. -/
theorem readOut (p : Buffer) (hfits : p.ring.count ≤ bufferBytes) (ownerId : UInt32) (hcount : byteCount ≠ 0) (env : Env) :
    ReadOut p byteCount (p.readBytes ownerId byteCount [] env).1 (p.readBytes ownerId byteCount [] env).2.1
      (p.readBytes ownerId byteCount [] env).2.2.1 := by
  by_cases henough : byteCount ≤ p.ring.count
  · have hlast : (popMany byteCount p.ring).1.length ≠ 0 ∧ (p.popped byteCount).ring.count < bufferBytes := by
      rw [popMany_length, popped, popMany_count]
      omega
    rw [← add_zero byteCount, readBytes_held ownerId 0 [] env henough, nil_append, readBytes, if_pos hlast,
      popMany_length]
    exact ReadOut.all henough
  by_cases hempty : p.ring.count = 0
  · obtain ⟨left, rfl⟩ : ∃ l, byteCount = l + 1 := ⟨byteCount - 1, by omega⟩
    cases hclosed : (p.ends .write).closed with
    | true =>
      simp only [readBytes, if_pos hempty, hclosed, true_or, if_true]
      exact .ended hempty hclosed
    | false =>
      have hgo : ¬ ((p.ends .write).closed ∨ ([] : List UInt8).length ≠ 0) := by simp [hclosed]
      simp only [readBytes, if_pos hempty, if_neg hgo]
      rcases env.wait_cases ownerId false (p.ends .read).blockedTask spinWaitLimit with ⟨t, env', hslot, heq⟩ | ⟨env', heq⟩
      · rw [heq]
        exact .blocked hempty hclosed hslot t
      · rw [heq]
        simp only [setBlocked_self]
        exact .refused hempty hclosed
  · obtain ⟨left, rfl⟩ : ∃ l, byteCount = p.ring.count + (l + 1) := ⟨byteCount - p.ring.count - 1, by omega⟩
    have hnow : (p.popped p.ring.count).ring.count = 0 := by
      rw [popped, popMany_count]
      omega
    rw [readBytes_held ownerId (left + 1) [] env le_rfl, nil_append, readBytes, if_pos hnow,
      if_pos (.inr (by rwa [popMany_length])), popMany_length]
    exact ReadOut.part (by omega) (by omega)

/-- What a revoked handle does to the end it names. -/
inductive Revoked (p : Buffer) (k : Kind) : Buffer → Prop
  | held (h : 1 < (p.ends k).refCount) : Revoked p k (p.setEnd k { p.ends k with refCount := (p.ends k).refCount - 1 })
  /-- The last holder has closed the end: the task at the other end goes on. -/
  | closed (h : (p.ends k).refCount ≤ 1) (hother : (p.ends k.other).closed = false) :
    Revoked p k ((p.setEnd k { p.ends k with refCount := 0, closed := true }).setBlocked k.other none)
  | freed (h : (p.ends k).refCount ≤ 1) (hother : (p.ends k.other).closed = true) : Revoked p k (.clear p.generation)

end Buffer

/-! ## All pipes -/

namespace Pipes

variable {s : Pipes} {handle ownerId : UInt32} {i : Fin maxObjects}

/-- The handle names an end of this pipe, and its owner may use it. -/
structure Found (s : Pipes) (handle ownerId : UInt32) (i : Fin maxObjects) : Prop where
  pipe : isPipeHandle handle = true
  someone : ownerId ≠ 0
  index : (handleIndex handle).toNat = i.val
  live : (s.objects i).live = true
  generation : (s.objects i).generation = handleGeneration handle
  named : handle = ((s.objects i).ends .read).handle ∨ handle = ((s.objects i).ends .write).handle
  allowed : ((s.objects i).ends (handleKind handle)).ownerMatches ownerId = true

theorem find_eq_some : s.find handle ownerId = some i ↔ s.Found handle ownerId i := by
  unfold find
  constructor
  · intro h
    split at h
    · cases h
    rename_i hpipe
    by_cases hindex : (handleIndex handle).toNat < maxObjects
    · rw [dif_pos hindex] at h
      simp only [Option.ite_none_left_eq_some, Option.some.injEq] at h
      obtain ⟨hgood, rfl⟩ := h
      simp only [not_or, not_and_or, Bool.not_eq_true', Bool.not_eq_false, ne_eq, Decidable.not_not] at hgood hpipe
      exact ⟨hpipe.1, hpipe.2, rfl, hgood.1, hgood.2.1, hgood.2.2.1, hgood.2.2.2⟩
    · simp [dif_neg hindex] at h
  · intro h
    have hindex : (handleIndex handle).toNat < maxObjects := by rw [h.index]; exact i.isLt
    obtain rfl : i = ⟨(handleIndex handle).toNat, hindex⟩ := Fin.ext h.index.symm
    rw [if_neg (by simp [h.pipe, h.someone]), dif_pos hindex]
    rw [if_neg]
    simp only [h.live, h.generation, h.allowed, Bool.not_true, Bool.false_eq_true, ne_eq, not_true_eq_false, false_or, or_false]
    intro hnot
    exact h.named.elim hnot.1 hnot.2

/-- The handle is for writing to this pipe, and both its ends are open. -/
structure WritesTo (s : Pipes) (handle ownerId : UInt32) (i : Fin maxObjects) : Prop where
  found : s.find handle ownerId = some i
  kind : handleKind handle = .write
  writer : ((s.objects i).ends .write).closed = false
  reader : ((s.objects i).ends .read).closed = false

/-- The handle is for reading from this pipe, and its read end is open. -/
structure ReadsFrom (s : Pipes) (handle ownerId : UInt32) (i : Fin maxObjects) : Prop where
  found : s.find handle ownerId = some i
  kind : handleKind handle = .read
  reader : ((s.objects i).ends .read).closed = false

theorem toNat_ne_zero {n : UInt32} (h : n ≠ 0) : n.toNat ≠ 0 := fun h0 => h (UInt32.toNat_inj.1 h0)

theorem write_cases (s : Pipes) (handle : UInt32) (input : Option (Nat → UInt8)) (byteCount ownerId : UInt32) (env : Env) :
    let r := s.write handle input byteCount ownerId env
    (r.2.1 = s ∧ (byteCount = 0 ∧ r.1 = 0 ∨ (∀ f i, input = some f → ¬ s.WritesTo handle ownerId i) ∧ r.1 = ioError)) ∨
      ∃ f i result p, byteCount ≠ 0 ∧ input = some f ∧ s.WritesTo handle ownerId i ∧
        (s.objects i).Written (bytesFrom f 0 byteCount.toNat) result p ∧ r.1 = result ∧ r.2.1 = s.set i p := by
  dsimp only
  unfold write
  split_ifs with hcount
  · exact .inl ⟨rfl, .inl ⟨hcount, rfl⟩⟩
  rcases input with _ | f
  · exact .inl ⟨rfl, .inr ⟨by simp, rfl⟩⟩
  rcases hfind : s.find handle ownerId with _ | i
  · exact .inl ⟨rfl, .inr ⟨fun _ i _ h => absurd (hfind.symm.trans h.found) (by simp), rfl⟩⟩
  simp only
  split_ifs with hbad
  · refine .inl ⟨rfl, .inr ⟨fun _ j _ h => ?_, rfl⟩⟩
    obtain rfl : i = j := by simpa [hfind] using h.found
    simp [h.kind, h.writer, h.reader] at hbad
  · simp only [not_or, ne_eq, Decidable.not_not, Bool.not_eq_true] at hbad
    exact .inr ⟨f, i, _, _, hcount, rfl, ⟨hfind, hbad.1, hbad.2.1, hbad.2.2⟩,
      (s.objects i).written ownerId f (toNat_ne_zero hcount) env, rfl, rfl⟩

theorem read_cases (hsound : ∀ i, (s.objects i).ring.Sound) (handle : UInt32) (output : Bool) (byteCount ownerId : UInt32)
    (env : Env) :
    let r := s.read handle output byteCount ownerId env
    (r.2 = ([], s, env) ∧ (byteCount = 0 ∧ r.1 = 0 ∨ (∀ i, output → ¬ s.ReadsFrom handle ownerId i) ∧ r.1 = ioError)) ∨
      ∃ i result bytes p, byteCount ≠ 0 ∧ output ∧ s.ReadsFrom handle ownerId i ∧
        (s.objects i).ReadOut byteCount.toNat result bytes p ∧ r.1 = result ∧ r.2.1 = bytes ∧ r.2.2.1 = s.set i p := by
  dsimp only
  unfold read
  by_cases hcount : byteCount = 0
  · rw [if_pos hcount]
    exact .inl ⟨rfl, .inl ⟨hcount, rfl⟩⟩
  rw [if_neg hcount]
  cases output
  · exact .inl ⟨rfl, .inr ⟨by simp, rfl⟩⟩
  rw [if_neg (by simp)]
  rcases hfind : s.find handle ownerId with _ | i
  · exact .inl ⟨rfl, .inr ⟨fun i _ h => absurd (hfind.symm.trans h.found) (by simp), rfl⟩⟩
  simp only
  split_ifs with hbad
  · refine .inl ⟨rfl, .inr ⟨fun j _ h => ?_, rfl⟩⟩
    obtain rfl : i = j := by simpa [hfind] using h.found
    simp [h.kind, h.reader] at hbad
  · simp only [not_or, ne_eq, Decidable.not_not, Bool.not_eq_true] at hbad
    exact .inr ⟨i, _, _, _, hcount, trivial, ⟨hfind, hbad.1, hbad.2⟩,
      (s.objects i).readOut (hsound i).fits ownerId (toNat_ne_zero hcount) env, rfl, rfl, rfl⟩

@[simp] theorem set_same (s : Pipes) (i : Fin maxObjects) (p : Buffer) : (s.set i p).objects i = p := Function.update_self ..

theorem set_other (s : Pipes) {i j : Fin maxObjects} (hj : j ≠ i) (p : Buffer) : (s.set i p).objects j = s.objects j :=
  Function.update_of_ne hj ..

theorem set_set (s : Pipes) (i : Fin maxObjects) (p p' : Buffer) : (s.set i p).set i p' = s.set i p' := by simp [set]

theorem create_cases (s : Pipes) (pid ownerId : UInt32) (opened : Bool) :
    (s.create pid ownerId opened = (none, s) ∧ (ownerId = 0 ∨ Slots.first s.objects (fun p => !p.live) = none)) ∨
      ∃ i, ownerId ≠ 0 ∧ Slots.first s.objects (fun p => !p.live) = some i ∧
        (s.create pid ownerId opened = (some i, s.set i (claimed i (generationAfter (s.objects i).generation) pid ownerId)) ∨
          s.create pid ownerId opened = (none, s.set i (.clear (generationAfter (s.objects i).generation)))) := by
  unfold create claimObject
  by_cases howner : ownerId = 0
  · rw [if_pos howner]
    exact .inl ⟨rfl, .inl howner⟩
  rw [if_neg howner]
  rcases hfirst : Slots.first s.objects fun p => !p.live with _ | i
  · exact .inl ⟨rfl, .inr rfl⟩
  refine .inr ⟨i, howner, rfl, ?_⟩
  cases opened with
  | true => exact .inl rfl
  | false =>
    simp [clearObject, set, claimed]

theorem grantable_found {sourceOwner targetOwner : UInt32} (h : s.grantable handle sourceOwner targetOwner = some i) :
    s.find handle sourceOwner = some i := by
  unfold grantable at h
  rcases hfind : s.find handle sourceOwner with _ | j
  · simp [hfind] at h
  simp only [hfind, Option.ite_none_left_eq_some] at h
  exact h.2

theorem grant_cases (s : Pipes) (handle sourceOwner targetOwner : UInt32) (installed : Bool) :
    s.grantEndpoint handle sourceOwner targetOwner installed = (false, s) ∨
      ∃ i, s.grantable handle sourceOwner targetOwner = some i ∧ installed ∧
        s.grantEndpoint handle sourceOwner targetOwner installed = (true, s.addHolder i (handleKind handle) targetOwner) := by
  unfold grantEndpoint
  rcases hgrant : s.grantable handle sourceOwner targetOwner with _ | i
  · exact .inl rfl
  cases installed with
  | true => exact .inr ⟨i, rfl, rfl, rfl⟩
  | false => exact .inl rfl

theorem revoke_cases (s : Pipes) (handle ownerId : UInt32) (env : Env) :
    let r := s.revokeHandle handle ownerId env
    (s.find handle ownerId = none ∧ r.1 = false ∧ r.2.1 = s) ∨
      ∃ i p, s.find handle ownerId = some i ∧ (s.objects i).Revoked (handleKind handle) p ∧ r.1 ∧ r.2.1 = s.set i p := by
  dsimp only
  unfold revokeHandle
  rcases hfind : s.find handle ownerId with _ | i
  · exact .inl ⟨rfl, rfl, rfl⟩
  refine .inr ⟨i, ?_⟩
  simp only
  generalize s.objects i = p
  generalize handleKind handle = k
  by_cases hmore : 1 < (p.ends k).refCount
  · have hne : (if (p.ends k).refCount ≠ 0 then (p.ends k).refCount - 1 else 0) = (p.ends k).refCount - 1 := by grind
    have hleft : (p.ends k).refCount - 1 ≠ 0 := by grind
    rw [hne, if_pos hleft]
    exact ⟨_, trivial, .held hmore, rfl, rfl⟩
  have hzero : (if (p.ends k).refCount ≠ 0 then (p.ends k).refCount - 1 else 0) = 0 := by grind
  rw [hzero, if_neg (by simp)]
  cases hother : (p.ends k.other).closed with
  | true =>
    rw [if_pos (by cases k <;> simp_all [setBlocked, setEnd, Kind.other])]
    exact ⟨_, trivial, .freed (UInt32.not_lt.1 hmore) hother, rfl, rfl⟩
  | false =>
    rw [if_neg (by cases k <;> simp_all [setBlocked, setEnd, Kind.other])]
    exact ⟨_, trivial, .closed (UInt32.not_lt.1 hmore) hother, rfl, rfl⟩

end Pipes

end LimitlessOS.Pipe
