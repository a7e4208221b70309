/-
  LimitlessOS.Pipe.Generations — how long a slot makes usable pipes.

  A slot counts its pipes in thirty-two bits and a handle keeps twelve of them, but
  `pipe64_find` compares the whole count with what the handle has kept.

  Proved:
  - `numbered_run`: the generation of a slot is the number of pipes it has taken.
  - `handles_of_run`: the ends of the live pipes have different handles.
  - `usable_iff`: a pipe that has just been made can be written, read and closed exactly when
    its generation is below 4096.
  - `stale_handle`: a handle of a pipe that is gone finds nothing before its generation field
    wraps.
  - `usable_of_run`: both, in every run.
  - `pipe_of_generation_4096`: the 4095th pipe of a slot cannot be used.
-/
import LimitlessOS.Pipe.Fifo
import LimitlessOS.Pipe.Handles

namespace LimitlessOS.Pipe

open Lib Buffer Ring UInt32 List Nat

namespace Buffer

variable {p p' : Buffer}

/-- What decides whether a handle finds this pipe. -/
structure SameNames (p p' : Buffer) : Prop where
  live : p'.live = p.live
  generation : p'.generation = p.generation
  handle : ∀ k, (p'.ends k).handle = (p.ends k).handle
  ownerId : ∀ k, (p'.ends k).ownerId = (p.ends k).ownerId
  granteeOwnerId : ∀ k, (p'.ends k).granteeOwnerId = (p.ends k).granteeOwnerId

theorem sameNames_of_ends (hlive : p'.live = p.live) (hgeneration : p'.generation = p.generation) (hends : p'.ends = p.ends) :
    p.SameNames p' :=
  ⟨hlive, hgeneration, fun _ => by rw [hends], fun _ => by rw [hends], fun _ => by rw [hends]⟩

variable {k : Kind} {result : UInt32} {bytes : List UInt8}

theorem setEnd_handle {e : End} (h : e.handle = (p.ends k).handle) (k' : Kind) :
    ((p.setEnd k e).ends k').handle = (p.ends k').handle := by
  by_cases hk : k' = k
  · subst hk
    simpa [setEnd] using h
  · simp [setEnd, hk]

theorem SameNames.setEnd (h : p.SameNames p') {e : End} (hhandle : e.handle = (p'.ends k).handle)
    (howner : e.ownerId = (p'.ends k).ownerId) (hgrantee : e.granteeOwnerId = (p'.ends k).granteeOwnerId) :
    p.SameNames (p'.setEnd k e) := by
  refine ⟨h.live, h.generation, fun k' => (setEnd_handle hhandle k').trans (h.handle k'), fun k' => ?_, fun k' => ?_⟩
  · rw [← h.ownerId k']
    by_cases hk : k' = k
    · subst hk
      simpa [setEnd] using howner
    · simp [Buffer.setEnd, hk]
  · rw [← h.granteeOwnerId k']
    by_cases hk : k' = k
    · subst hk
      simpa [setEnd] using hgrantee
    · simp [Buffer.setEnd, hk]

theorem Written.sameNames (h : p.Written bytes result p') : p.SameNames p' := by
  cases h with
  | all => exact (sameNames_of_ends rfl rfl rfl : p.SameNames (p.pushed bytes)).setEnd rfl rfl rfl
  | part | refused => exact sameNames_of_ends rfl rfl rfl
  | blocked => exact (sameNames_of_ends rfl rfl rfl).setEnd rfl rfl rfl

theorem Written.closed (h : p.Written bytes result p') (k : Kind) : (p'.ends k).closed = (p.ends k).closed := by
  cases h <;> cases k <;> simp [setBlocked, setEnd, pushed]

theorem ReadOut.sameNames {byteCount : Nat} (h : p.ReadOut byteCount result bytes p') : p.SameNames p' := by
  cases h with
  | all => exact (sameNames_of_ends rfl rfl rfl : p.SameNames (p.popped byteCount)).setEnd rfl rfl rfl
  | part | ended | refused => exact sameNames_of_ends rfl rfl rfl
  | blocked => exact (sameNames_of_ends rfl rfl rfl).setEnd rfl rfl rfl

theorem Revoked.generation (h : p.Revoked k p') : p'.generation = p.generation := by
  cases h <;> rfl

theorem Revoked.sameNames (h : p.Revoked k p') (hlive : p'.live) : p.SameNames p' := by
  cases h with
  | held => exact (sameNames_of_ends rfl rfl rfl).setEnd rfl rfl rfl
  | closed =>
    have hclosed : p.SameNames (p.setEnd k { p.ends k with refCount := 0, closed := true }) :=
      (sameNames_of_ends rfl rfl rfl).setEnd rfl rfl rfl
    exact hclosed.setEnd rfl rfl rfl
  | freed => simp [clear] at hlive

end Buffer

namespace Pipes

variable {s : Pipes} {i : Fin maxObjects} {p : Buffer} {past : List (Fin maxObjects)}

/-! ## Counting the pipes of a slot -/

/-- The slot that a call takes. -/
def taken (s : Pipes) : Op → List (Fin maxObjects)
  | .create _ ownerId _ => if ownerId = 0 then [] else (Slots.first s.objects fun p => !p.live).toList
  | _ => []

/-- The slots that the calls have taken. -/
def takenBy (ops : List Op) : List (Fin maxObjects) := eventsOf taken step init ops

/-- The generations that a slot goes through. -/
def generations : Nat := 2 ^ 32 - 1

structure Numbered (past : List (Fin maxObjects)) (s : Pipes) : Prop where
  generation : ∀ i, (s.objects i).generation.toNat = past.count i % generations + 1
  handle : ∀ i k, (s.objects i).live = true → ((s.objects i).ends k).handle = makeHandle i (s.objects i).generation k

theorem numbered_init : Numbered [] init where
  generation := fun _ => rfl
  handle := fun i k h => by simp [init, clear] at h

namespace Numbered

theorem ne_zero (h : Numbered past s) (i : Fin maxObjects) : (s.objects i).generation ≠ 0 := by
  intro hzero
  have := h.generation i
  rw [hzero] at this
  exact absurd this (by simp)

/-- A pipe keeps its names, or it is gone. -/
theorem keep (h : Numbered past s) (hlive : (s.objects i).live)
    (hgeneration : p.generation = (s.objects i).generation)
    (hhandle : p.live → ∀ k, (p.ends k).handle = ((s.objects i).ends k).handle) : Numbered past (s.set i p) := by
  refine ⟨fun j => ?_, fun j k hnow => ?_⟩
  · by_cases hj : j = i
    · subst hj
      rw [set_same, hgeneration]
      exact h.generation j
    · rw [set_other s hj]
      exact h.generation j
  · by_cases hj : j = i
    · subst hj
      rw [set_same] at hnow ⊢
      rw [hhandle hnow k, hgeneration]
      exact h.handle j k hlive
    · rw [set_other s hj] at hnow ⊢
      exact h.handle j k hnow

theorem generationAfter_toNat {g : UInt32} {n : Nat} (h : g.toNat = n % generations + 1) :
    (generationAfter g).toNat = (n + 1) % generations + 1 := by
  unfold generationAfter
  unfold generations at h ⊢
  split_ifs with hwrap
  · have hval : (g.toNat + 1) % 2 ^ 32 = 0 := by
      rw [← toNat_one, ← UInt32.toNat_add, hwrap]
      rfl
    show 1 = _
    omega
  · rw [UInt32.toNat_add, toNat_one]
    have hval : (g.toNat + 1) % 2 ^ 32 ≠ 0 := by
      intro hval
      exact hwrap (UInt32.toNat_inj.1 hval)
    omega

/-- A slot is taken. -/
theorem take (h : Numbered past s) (hgeneration : p.generation = generationAfter (s.objects i).generation)
    (hhandle : p.live → ∀ k, (p.ends k).handle = makeHandle i p.generation k) : Numbered (past ++ [i]) (s.set i p) := by
  refine ⟨fun j => ?_, fun j k hlive => ?_⟩
  · by_cases hj : j = i
    · subst hj
      rw [set_same, hgeneration, generationAfter_toNat (h.generation j)]
      simp
    · rw [set_other s hj, h.generation j]
      simp [Ne.symm hj]
  · by_cases hj : j = i
    · subst hj
      rw [set_same] at hlive ⊢
      exact hhandle hlive k
    · rw [set_other s hj] at hlive ⊢
      exact h.handle j k hlive

end Numbered

/-- A call takes a slot, or it changes a pipe that lives and that keeps its handles while it does. -/
inductive Renamed (s : Pipes) (op : Op) : Pipes → Prop
  | same (htaken : s.taken op = []) : Renamed s op s
  | kept {i : Fin maxObjects} {p : Buffer} (htaken : s.taken op = []) (hlive : (s.objects i).live = true)
      (hgeneration : p.generation = (s.objects i).generation)
      (hhandle : p.live = true → ∀ k, (p.ends k).handle = ((s.objects i).ends k).handle) : Renamed s op (s.set i p)
  | took {i : Fin maxObjects} {p : Buffer} (htaken : s.taken op = [i])
      (hgeneration : p.generation = generationAfter (s.objects i).generation)
      (hhandle : p.live = true → ∀ k, (p.ends k).handle = makeHandle i p.generation k) : Renamed s op (s.set i p)

theorem step_renamed (hsound : ∀ i, (s.objects i).ring.Sound) (op : Op) : s.Renamed op (s.step op) := by
  cases op with
  | create pid ownerId opened =>
    rcases s.create_cases pid ownerId opened with ⟨heq, hnone⟩ | ⟨i, howner, hfirst, heq⟩
    · rw [step, heq]
      refine .same ?_
      rcases hnone with hzero | hfull
      · simp [taken, hzero]
      · simp [taken, hfull]
    · have htaken : s.taken (.create pid ownerId opened) = [i] := by simp [taken, howner, hfirst]
      rcases heq with heq | heq <;> rw [step, heq]
      · exact .took htaken rfl fun _ _ => rfl
      · exact .took htaken rfl fun hlive => by simp [clear] at hlive
  | grant handle sourceOwner targetOwner installed =>
    rcases s.grant_cases handle sourceOwner targetOwner installed with heq | ⟨i, hgrant, -, heq⟩ <;> rw [step, heq]
    · exact .same rfl
    · exact .kept rfl (find_eq_some.1 (grantable_found hgrant)).live rfl fun _ => setEnd_handle rfl
  | write handle input byteCount ownerId env =>
    rcases s.write_cases handle input byteCount ownerId env with ⟨heq, -⟩ | ⟨f, i, result, p, -, -, hto, hwritten, -, heq⟩ <;>
      rw [step, heq]
    · exact .same rfl
    · exact .kept rfl (find_eq_some.1 hto.found).live hwritten.sameNames.generation fun _ => hwritten.sameNames.handle
  | read handle output byteCount ownerId env =>
    rcases read_cases hsound handle output byteCount ownerId env with
      ⟨heq, -⟩ | ⟨i, result, bytes, p, -, -, hfrom, hread, -, -, heq⟩ <;> rw [step, heq]
    · exact .same rfl
    · exact .kept rfl (find_eq_some.1 hfrom.found).live hread.sameNames.generation fun _ => hread.sameNames.handle
  | revoke handle ownerId env =>
    rcases s.revoke_cases handle ownerId env with ⟨-, -, heq⟩ | ⟨i, p, hfind, hrevoked, -, heq⟩ <;> rw [step, heq]
    · exact .same rfl
    · exact .kept rfl (find_eq_some.1 hfind).live hrevoked.generation fun hlive => (hrevoked.sameNames hlive).handle

theorem numbered_step (h : Numbered past s) (hsound : ∀ i, (s.objects i).ring.Sound) (op : Op) :
    Numbered (past ++ s.taken op) (s.step op) := by
  have hrenamed := step_renamed hsound op
  generalize s.step op = s' at hrenamed ⊢
  cases hrenamed with
  | same htaken => rwa [htaken, append_nil]
  | kept htaken hlive hgeneration hhandle =>
    rw [htaken, append_nil]
    exact h.keep hlive hgeneration hhandle
  | took htaken hgeneration hhandle =>
    rw [htaken]
    exact h.take hgeneration hhandle

theorem numbered_run (ops : List Op) : Numbered (takenBy ops) (run ops) := by
  refine (eventsOf_invariant (i := fun past s => Numbered past s ∧ ∃ sent, Fifo sent s) ?_ ⟨numbered_init, [], fifo_init⟩ ops).1
  rintro past s op ⟨hnumbered, sent, hfifo⟩
  exact ⟨numbered_step hnumbered hfifo.sound op, sent ++ s.transfers op, fifo_step hfifo op⟩

/-! ## Using a pipe -/

/-- The handle of an end. -/
def handleOf (s : Pipes) (i : Fin maxObjects) (k : Kind) : UInt32 := ((s.objects i).ends k).handle

/-- The owner can write to the pipe, read back what was written, and close both its ends, which frees the pipe. -/
structure Usable (s : Pipes) (i : Fin maxObjects) (ownerId : UInt32) : Prop where
  transfers : ∀ (input : Nat → UInt8) (byteCount : UInt32) (env env' : Env), byteCount ≠ 0 →
    let w := s.write (s.handleOf i .write) (some input) byteCount ownerId env
    let r := w.2.1.read (s.handleOf i .read) true byteCount ownerId env'
    w.1.toNat = min byteCount.toNat bufferBytes ∧ r.1 = w.1 ∧ r.2.1 = bytesFrom input 0 w.1.toNat
  closes : ∀ env env',
    let r := s.revokeHandle (s.handleOf i .write) ownerId env
    let r' := r.2.1.revokeHandle (s.handleOf i .read) ownerId env'
    r.1 = true ∧ r'.1 = true ∧ (r'.2.1.objects i).live = false

variable {n : Nat} {opened : Bool} {ownerId pid result : UInt32} {bytes : List UInt8} {p' : Buffer}

theorem Found.set {handle : UInt32} (h : s.Found handle ownerId i) (hnames : (s.objects i).SameNames p) :
    (s.set i p).Found handle ownerId i := by
  refine ⟨h.pipe, h.someone, h.index, ?_, ?_, ?_, ?_⟩
  · rw [set_same, hnames.live, h.live]
  · rw [set_same, hnames.generation, h.generation]
  · rw [set_same, hnames.handle, hnames.handle]
    exact h.named
  · have hallowed := h.allowed
    rw [set_same]
    unfold End.ownerMatches at hallowed ⊢
    rwa [hnames.ownerId, hnames.granteeOwnerId]

/-- What a pipe is like when it has just been made. -/
structure Fresh (s : Pipes) (i : Fin maxObjects) (ownerId : UInt32) : Prop where
  found : ∀ k, s.Found (s.handleOf i k) ownerId i
  kind : ∀ k, handleKind (s.handleOf i k) = k
  opened : ∀ k, ((s.objects i).ends k).closed = false
  refCount : ∀ k, ((s.objects i).ends k).refCount = 1
  empty : (s.objects i).ring.count = 0

theorem popMany_all {α : Type} {r : Ring n α} (h : r.Sound) : (popMany r.count r).1 = r.contents := by
  obtain ⟨-, hcontents⟩ := contents_popMany h (le_refl r.count)
  have hnone : (popMany r.count r).2.contents = [] := by
    rw [← length_eq_zero_iff, contents_length, popMany_count, Nat.sub_self]
  rw [hnone, append_nil] at hcontents
  exact hcontents.symm

theorem ring_of_empty (hempty : p.ring.count = 0) (h : p.Written bytes result p') :
    result = ofNat (min bytes.length bufferBytes) ∧ p'.ring = p.ring.pushAll (bytes.take (min bytes.length bufferBytes)) := by
  cases h with
  | all hroom =>
    have hmin : min bytes.length bufferBytes = bytes.length := by omega
    rw [hmin, take_length]
    exact ⟨rfl, rfl⟩
  | part hroom hmore =>
    have hmin : min bytes.length bufferBytes = bufferBytes - p.ring.count := by omega
    rw [hmin]
    exact ⟨rfl, rfl⟩
  | blocked hfull | refused hfull => exact absurd (hempty ▸ hfull) (by decide)

theorem drains (hsound : p.ring.Sound) {byteCount : Nat} (hcount : p.ring.count = min byteCount bufferBytes)
    (hne : byteCount ≠ 0) (h : p.ReadOut byteCount result bytes p') :
    result = ofNat p.ring.count ∧ bytes = p.ring.contents := by
  have hsome : p.ring.count ≠ 0 := by
    have : 0 < bufferBytes := bufferBytes_pos
    omega
  cases h with
  | all henough =>
    obtain rfl : byteCount = p.ring.count := by omega
    exact ⟨rfl, popMany_all hsound⟩
  | part => exact ⟨rfl, popMany_all hsound⟩
  | ended hempty | blocked hempty | refused hempty => exact absurd hempty hsome

theorem sound_set (hsound : ∀ i, (s.objects i).ring.Sound) (hp : p.ring.Sound) (j : Fin maxObjects) :
    ((s.set i p).objects j).ring.Sound := by
  by_cases hj : j = i
  · subst hj
    rwa [set_same]
  · rw [set_other s hj]
    exact hsound j

theorem Fresh.transfers (hsound : ∀ i, (s.objects i).ring.Sound) (h : s.Fresh i ownerId) (input : Nat → UInt8)
    {byteCount : UInt32} (env env' : Env) (hcount : byteCount ≠ 0) :
    let w := s.write (s.handleOf i .write) (some input) byteCount ownerId env
    let r := w.2.1.read (s.handleOf i .read) true byteCount ownerId env'
    w.1.toNat = min byteCount.toNat bufferBytes ∧ r.1 = w.1 ∧ r.2.1 = bytesFrom input 0 w.1.toNat := by
  have hto : s.WritesTo (s.handleOf i .write) ownerId i :=
    ⟨find_eq_some.2 (h.found .write), h.kind .write, h.opened .write, h.opened .read⟩
  rcases s.write_cases (s.handleOf i .write) (some input) byteCount ownerId env with
    ⟨-, ⟨hzero, -⟩ | ⟨hnone, -⟩⟩ | ⟨f, j, result, p, -, hf, hto', hwritten, hresult, hstate⟩
  · exact absurd hzero hcount
  · exact absurd hto (hnone input i rfl)
  obtain rfl : i = j := by simpa [hto.found] using hto'.found
  obtain rfl : input = f := by simpa using hf
  intro w r
  obtain ⟨hwrote, hring⟩ := ring_of_empty h.empty hwritten
  rw [bytesFrom_length] at hwrote hring
  rw [bytesFrom_take input 0 (min_le_left ..)] at hring
  have hsmall : min byteCount.toNat bufferBytes ≤ bufferBytes := min_le_right ..
  have hw : w.1 = ofNat (min byteCount.toNat bufferBytes) := hresult.trans hwrote
  have hs : w.2.1 = s.set i p := hstate
  -- The ring now has what was written, and nothing else.
  have hroom : (s.objects i).ring.count + (bytesFrom input 0 (min byteCount.toNat bufferBytes)).length ≤ bufferBytes := by
    rw [h.empty, bytesFrom_length]
    omega
  obtain ⟨hpsound, hcontents⟩ := contents_pushAll (hsound i) hroom
  have hnone : (s.objects i).ring.contents = [] := by rw [← length_eq_zero_iff, contents_length, h.empty]
  rw [← hring, hnone, nil_append] at hcontents
  rw [← hring] at hpsound
  have hpcount : p.ring.count = min byteCount.toNat bufferBytes := by
    rw [← contents_length, hcontents, bytesFrom_length]
  have hfrom : (s.set i p).ReadsFrom (s.handleOf i .read) ownerId i := by
    refine ⟨find_eq_some.2 ((h.found .read).set hwritten.sameNames), h.kind .read, ?_⟩
    rw [set_same, hwritten.closed]
    exact h.opened .read
  have hr : r.1 = ofNat p.ring.count ∧ r.2.1 = p.ring.contents := by
    show (w.2.1.read _ true byteCount ownerId env').1 = _ ∧ (w.2.1.read _ true byteCount ownerId env').2.1 = _
    rw [hs]
    rcases read_cases (sound_set hsound hpsound) (s.handleOf i .read) true byteCount ownerId env' with
      ⟨-, ⟨hzero, -⟩ | ⟨hnever, -⟩⟩ | ⟨j, result', bytes, p', -, -, hfrom', hread, hresult', hbytes, -⟩
    · exact absurd hzero hcount
    · exact absurd hfrom (hnever i rfl)
    obtain rfl : i = j := by simpa [hfrom.found] using hfrom'.found
    rw [set_same] at hread
    obtain ⟨hread, hdrained⟩ := drains hpsound hpcount (toNat_ne_zero hcount) hread
    exact ⟨hresult'.trans hread, hbytes.trans hdrained⟩
  rw [hw, toNat_ofNat_small hsmall]
  exact ⟨rfl, by rw [hr.1, hpcount], by rw [hr.2, hcontents]⟩

theorem Fresh.closes (h : s.Fresh i ownerId) (env env' : Env) :
    let r := s.revokeHandle (s.handleOf i .write) ownerId env
    let r' := r.2.1.revokeHandle (s.handleOf i .read) ownerId env'
    r.1 ∧ r'.1 ∧ ∃ p, p.live = false ∧ r'.2.1 = s.set i p := by
  have hwrite := find_eq_some.2 (h.found .write)
  have hnot : ∀ k, ¬ 1 < ((s.objects i).ends k).refCount := fun k => by rw [h.refCount k]; decide
  intro r r'
  rcases s.revoke_cases (s.handleOf i .write) ownerId env with ⟨hnone, -⟩ | ⟨j, p, hfind, hrevoked, hr, hs⟩
  · exact absurd (hwrite.symm.trans hnone) (by simp)
  obtain rfl : i = j := by simpa [hwrite] using hfind
  rw [h.kind .write] at hrevoked
  refine ⟨hr, ?_⟩
  show (r.2.1.revokeHandle _ ownerId env').1 ∧ ∃ p, p.live = false ∧ (r.2.1.revokeHandle _ ownerId env').2.1 = s.set i p
  rw [show r.2.1 = s.set i p from hs]
  cases hrevoked with
  | held hmore => exact absurd hmore (hnot .write)
  | freed _ hother => exact absurd ((h.opened .read).symm.trans hother) (by simp)
  | closed hlast hother =>
    -- The read end is now the only one that is open.
    have hread := find_eq_some.2 ((h.found .read).set ((Revoked.closed hlast hother).sameNames (h.found .read).live))
    rcases revoke_cases _ (s.handleOf i .read) ownerId env' with ⟨hnone, -⟩ | ⟨j, p', hfind, hrevoked, hr', hs'⟩
    · exact absurd (hread.symm.trans hnone) (by simp)
    obtain rfl : i = j := by simpa [hread] using hfind
    rw [h.kind .read, set_same] at hrevoked
    refine ⟨hr', p', ?_, hs'.trans (set_set ..)⟩
    cases hrevoked with
    | held hmore => exact absurd hmore (by simpa [setBlocked, setEnd, Kind.other] using hnot .read)
    | freed => rfl
    | closed _ hopen => simp [setBlocked, setEnd, Kind.other] at hopen

/-- A handle that a pipe has now is found exactly when its generation fits the field of the handle. -/
theorem Numbered.found_iff (h : Numbered past s) (hlive : (s.objects i).live) (k : Kind) :
    s.Found (s.handleOf i k) ownerId i ↔
      (s.objects i).generation.toNat < 4096 ∧ ownerId ≠ 0 ∧ ((s.objects i).ends k).ownerMatches ownerId := by
  have hg := h.ne_zero i
  have hhandle : s.handleOf i k = makeHandle i (s.objects i).generation k := h.handle i k hlive
  have hfield := handleGeneration_makeHandle i hg k
  constructor
  · intro hfound
    have hgeneration := congrArg toNat hfound.generation
    rw [hhandle, hfield] at hgeneration
    have hallowed := hfound.allowed
    rw [hhandle, handleKind_makeHandle i hg k] at hallowed
    exact ⟨by omega, hfound.someone, hallowed⟩
  · rintro ⟨hsmall, howner, hallowed⟩
    have hnamed : s.handleOf i k = ((s.objects i).ends .read).handle ∨ s.handleOf i k = ((s.objects i).ends .write).handle := by
      cases k with
      | read => exact .inl rfl
      | write => exact .inr rfl
    refine ⟨?_, howner, ?_, hlive, ?_, hnamed, ?_⟩
    · rw [hhandle, isPipeHandle_makeHandle i hg k]
    · rw [hhandle, handleIndex_makeHandle i hg k]
    · apply UInt32.toNat_inj.1
      rw [hhandle, hfield, mod_eq_of_lt hsmall]
    · rwa [hhandle, handleKind_makeHandle i hg k]

@[simp] theorem claimed_generation (i : Fin maxObjects) (generation pid ownerId : UInt32) :
    (claimed i generation pid ownerId).generation = generation := rfl

section

variable (h : (s.create pid ownerId opened).1 = some i)
include h

theorem create_some :
    ownerId ≠ 0 ∧
      (s.create pid ownerId opened).2 = s.set i (claimed i (generationAfter (s.objects i).generation) pid ownerId) := by
  rcases s.create_cases pid ownerId opened with ⟨heq, -⟩ | ⟨j, howner, -, heq | heq⟩
  · simp [heq] at h
  · obtain rfl : j = i := by simpa [heq] using h
    exact ⟨howner, by rw [heq]⟩
  · simp [heq] at h

theorem fresh_of_create
    (hnumbered : Numbered past (s.create pid ownerId opened).2)
    (hsmall : ((s.create pid ownerId opened).2.objects i).generation.toNat < 4096) :
    (s.create pid ownerId opened).2.Fresh i ownerId := by
  obtain ⟨howner, heq⟩ := create_some h
  have hobject : (s.create pid ownerId opened).2.objects i =
      claimed i (generationAfter (s.objects i).generation) pid ownerId := by
    rw [heq, set_same]
  have hlive : ((s.create pid ownerId opened).2.objects i).live := by rw [hobject]; rfl
  refine ⟨fun k => (hnumbered.found_iff hlive k).2 ⟨hsmall, howner, ?_⟩, fun k => ?_, fun k => ?_, fun k => ?_, ?_⟩
  · rw [hobject]
    simp [End.ownerMatches, claimed, howner]
  · show handleKind (((s.create pid ownerId opened).2.objects i).ends k).handle = k
    rw [hnumbered.handle i k hlive, handleKind_makeHandle i (hnumbered.ne_zero i)]
  · rw [hobject]
    rfl
  · rw [hobject]
    rfl
  · rw [hobject]
    rfl

/-- A pipe that has just been made is usable exactly when its generation fits a handle. -/
theorem usable_iff
    (hnumbered : Numbered past (s.create pid ownerId opened).2)
    (hsound : ∀ i, ((s.create pid ownerId opened).2.objects i).ring.Sound) :
    (s.create pid ownerId opened).2.Usable i ownerId ↔ ((s.create pid ownerId opened).2.objects i).generation.toNat < 4096 := by
  constructor
  · intro husable
    obtain ⟨-, heq⟩ := create_some h
    have hlive : ((s.create pid ownerId opened).2.objects i).live := by rw [heq, set_same]; rfl
    have hclosed := (husable.closes .idle .idle).1
    rcases revoke_cases _ ((s.create pid ownerId opened).2.handleOf i .write) ownerId .idle with
      ⟨-, hfailed, -⟩ | ⟨j, p, hfind, -⟩
    · exact absurd (hclosed.symm.trans hfailed) (by simp)
    have hfound := find_eq_some.1 hfind
    have hi : i = j := by
      have hindex := hfound.index
      rw [handleOf, hnumbered.handle i .write hlive, handleIndex_makeHandle i (hnumbered.ne_zero i)] at hindex
      exact Fin.ext hindex
    subst hi
    exact ((hnumbered.found_iff hlive .write).1 hfound).1
  · intro hsmall
    have hfresh := fresh_of_create h hnumbered hsmall
    refine ⟨fun input byteCount env env' hcount => hfresh.transfers hsound input env env' hcount, fun env env' => ?_⟩
    obtain ⟨hfirst, hsecond, p, hp, heq⟩ := hfresh.closes env env'
    refine ⟨hfirst, hsecond, ?_⟩
    rw [heq, set_same, hp]

end

/-! ## Handles of pipes that are gone -/

/-- A slot becomes live only when it is taken. -/
theorem not_live_step (hsound : ∀ i, (s.objects i).ring.Sound) (h : (s.objects i).live = false) {op : Op}
    (hnot : i ∉ s.taken op) :
    ((s.step op).objects i).live = false := by
  have hrenamed := step_renamed hsound op
  generalize s.step op = s' at hrenamed ⊢
  cases hrenamed with
  | same => exact h
  | kept _ hlive =>
    rwa [set_other s]
    rintro rfl
    simp [h] at hlive
  | took htaken =>
    rwa [set_other s]
    rintro rfl
    simp [htaken] at hnot

theorem not_live_of_not_taken {sent : List Transfer} (hfifo : Fifo sent s) (h : (s.objects i).live = false) {ops : List Op}
    (hnot : i ∉ eventsOf taken step s ops) : ((ops.foldl step s).objects i).live = false := by
  induction ops generalizing s sent with
  | nil => exact h
  | cons op ops ih =>
    simp only [eventsOf, mem_append, not_or] at hnot
    exact ih (fifo_step hfifo op) (not_live_step hfifo.sound h hnot.1) hnot.2

theorem takenBy_append (ops later : List Op) : takenBy (ops ++ later) = takenBy ops ++ eventsOf taken step (run ops) later :=
  eventsOf_append ..

theorem run_append (ops later : List Op) : run (ops ++ later) = later.foldl step (run ops) := foldl_append ..

/-- In every run the ends of the live pipes have different handles. -/
theorem handles_of_run (ops : List Op) :
    Set.InjOn (fun e : _ × Kind => (run ops).handleOf e.1 e.2) {e | ((run ops).objects e.1).live} := by
  have h := numbered_run ops
  -- The slot and the kind are read back from the handle.
  have hindex i k := handleIndex_makeHandle i (h.ne_zero i) k
  have hkind i k := handleKind_makeHandle i (h.ne_zero i) k
  rintro ⟨i, k⟩ hi ⟨j, l⟩ hj he
  have he := (h.handle i k hi).symm.trans (he.trans (h.handle j l hj))
  have hij : i = j := Fin.ext ((hindex i k).symm.trans (he ▸ hindex j l))
  rw [hij, (hkind i k).symm.trans (he ▸ hkind j l)]

/-- While the field does not wrap the generation does not either. -/
theorem generation_grows {since : Nat} (h : (n % generations + 1) % 4096 + since < 4096) :
    (n + since) % generations = n % generations + since := by
  unfold generations at h ⊢
  have hsum : n % (2 ^ 32 - 1) + since < 2 ^ 32 - 1 := by omega
  rw [← mod_add_mod, mod_eq_of_lt hsum]

/-- The generation field of a handle and the number of pipes made since do not reach 4096: the field has not wrapped. -/
theorem stale_handle {ops later : List Op} {k : Kind} (hlive : ((run ops).objects i).live)
    (hgone : ∃ before, before <+: later ∧ ((run (ops ++ before)).objects i).live = false)
    (hfield : (handleGeneration ((run ops).handleOf i k)).toNat + (eventsOf taken step (run ops) later).count i < 4096)
    (holder : UInt32) : (run (ops ++ later)).find ((run ops).handleOf i k) holder = none := by
  have hbefore := numbered_run ops
  have hafter := numbered_run (ops ++ later)
  have hg := hbefore.ne_zero i
  have hhandle : (run ops).handleOf i k = makeHandle i ((run ops).objects i).generation k := hbefore.handle i k hlive
  rcases hfind : (run (ops ++ later)).find ((run ops).handleOf i k) holder with _ | j
  · rfl
  have hfound := find_eq_some.1 hfind
  have hj : i = j := by
    have hindex := hfound.index
    rw [hhandle, handleIndex_makeHandle i hg] at hindex
    exact Fin.ext hindex
  subst hj
  have hgeneration := congrArg toNat hfound.generation
  have hnow := hafter.generation i
  have hthen := hbefore.generation i
  rw [hhandle, handleGeneration_makeHandle i hg] at hgeneration hfield
  rw [takenBy_append, count_append] at hnow
  -- The generation has only grown, so no pipe was made in the slot since.
  have hnone : (eventsOf taken step (run ops) later).count i = 0 := by
    rw [hthen] at hfield hgeneration
    rw [generation_grows hfield] at hnow
    omega
  obtain ⟨before, ⟨rest, rfl⟩, hdead⟩ := hgone
  have hrest : i ∉ eventsOf taken step (run (ops ++ before)) rest := by
    intro hmem
    rw [eventsOf_append, count_append, ← run_append] at hnone
    have := count_pos_iff.2 hmem
    omega
  have hend := not_live_of_not_taken (fifo_run (ops ++ before)) hdead hrest
  rw [← run_append, append_assoc] at hend
  exact absurd (hfound.live.symm.trans hend) (by simp)

/-- A pipe that a run makes is usable exactly when the slot has not counted past the field of a handle, and its handles find
nothing once it is gone, until that field has wrapped. -/
theorem usable_of_run (ops : List Op) (pid ownerId : UInt32) (opened : Bool) (i : Fin maxObjects)
    (hmade : ((run ops).create pid ownerId opened).1 = some i) :
    ((run (ops ++ [.create pid ownerId opened])).Usable i ownerId ↔ ((takenBy ops).count i + 1) % generations + 1 < 4096) ∧
      ∀ later k holder,
        (∃ before, before <+: later ∧ ((run (ops ++ [.create pid ownerId opened] ++ before)).objects i).live = false) →
        (handleGeneration ((run (ops ++ [.create pid ownerId opened])).handleOf i k)).toNat +
          (eventsOf taken step (run (ops ++ [.create pid ownerId opened])) later).count i < 4096 →
        (run (ops ++ [.create pid ownerId opened] ++ later)).find
          ((run (ops ++ [.create pid ownerId opened])).handleOf i k) holder = none := by
  have hrun : run (ops ++ [.create pid ownerId opened]) = ((run ops).create pid ownerId opened).2 := by rw [run_snoc, step]
  obtain ⟨-, heq⟩ := create_some hmade
  constructor
  · have hnumbered := numbered_run (ops ++ [.create pid ownerId opened])
    have hsound := (fifo_run (ops ++ [.create pid ownerId opened])).sound
    rw [hrun] at hnumbered hsound ⊢
    rw [usable_iff hmade hnumbered hsound, heq, set_same, claimed_generation,
      Numbered.generationAfter_toNat ((numbered_run ops).generation i)]
  · intro later k holder hgone hfield
    refine stale_handle ?_ hgone hfield holder
    rw [hrun, heq, set_same]
    rfl

/-! ## A slot that has made too many pipes -/

/-- A process makes a pipe and closes both ends of it, after `n` pipes in the first slot. -/
def cycle (n : Nat) : List Op :=
  [.create 1 101 true, .revoke (makeHandle firstPipe (UInt32.ofNat (n + 2)) .write) 101 .idle,
    .revoke (makeHandle firstPipe (UInt32.ofNat (n + 2)) .read) 101 .idle]

/-- A pipe is made in the slot of one that was closed: it can be used, and the handles of the first find nothing. -/
theorem usable_of_run_again :
    (run (cycle 0 ++ [.create 1 101 true])).Usable firstPipe 101 ∧
      ∀ k holder,
        (run (cycle 0 ++ [.create 1 101 true])).find ((run [.create 1 101 true]).handleOf firstPipe k) holder = none := by
  refine ⟨(usable_of_run (cycle 0) 1 101 true firstPipe (by decide +kernel)).1.2 (by decide +kernel), fun k holder => ?_⟩
  refine (usable_of_run [] 1 101 true firstPipe (by decide +kernel)).2 ((cycle 0).tail ++ [.create 1 101 true]) k holder ?_ ?_
  · exact ⟨(cycle 0).tail, prefix_append _ _, by decide +kernel⟩
  · cases k <;> decide +kernel

/-- The first `n` pipes of the first slot are made and closed. -/
def cycles (n : Nat) : List Op := (List.range n).flatMap cycle

theorem cycles_succ (n : Nat) : cycles (n + 1) = cycles n ++ cycle n := by simp [cycles, range_succ]

theorem create_first (h : ∀ j, (s.objects j).live = false) :
    (s.create 1 101 true).1 = some firstPipe ∧ s.taken (.create 1 101 true) = [firstPipe] := by
  have hfirst : Slots.first s.objects (fun p => !p.live) = some firstPipe := Slots.first_zero (by rw [h]; rfl)
  constructor
  · rcases s.create_cases 1 101 true with ⟨-, hzero | hnone⟩ | ⟨i, -, hi, heq | heq⟩
    · cases hzero
    · simp [hfirst] at hnone
    · rw [heq, ← hfirst, hi]
    · simp [create, claimObject, hfirst]
  · simp [taken, hfirst]

theorem cycles_state (hn : n ≤ 4094) :
    (∀ j, ((run (cycles n)).objects j).live = false) ∧ (takenBy (cycles n)).count firstPipe = n := by
  induction n with
  | zero => exact ⟨fun _ => rfl, rfl⟩
  | succ n ih =>
    obtain ⟨hdead, hcount⟩ := ih (by omega)
    obtain ⟨hmade, htaken⟩ := create_first hdead
    obtain ⟨-, hstate⟩ := create_some hmade
    have hnumbered := numbered_run (cycles n ++ [.create 1 101 true])
    rw [run_snoc, step] at hnumbered
    have hsize : n + 2 ≤ bufferBytes := by
      show n + 2 ≤ 4096
      omega
    have hgeneration : (((run (cycles n)).create 1 101 true).2.objects firstPipe).generation = ofNat (n + 2) := by
      apply UInt32.toNat_inj.1
      rw [hstate, set_same, claimed_generation,
        Numbered.generationAfter_toNat ((numbered_run (cycles n)).generation firstPipe), hcount, toNat_ofNat_small hsize]
      unfold generations
      omega
    have hsmall : (((run (cycles n)).create 1 101 true).2.objects firstPipe).generation.toNat < 4096 := by
      rw [hgeneration, toNat_ofNat_small hsize]
      omega
    have hhandle : ∀ k, ((run (cycles n)).create 1 101 true).2.handleOf firstPipe k =
        makeHandle firstPipe (ofNat (n + 2)) k := by
      intro k
      rw [handleOf, hnumbered.handle firstPipe k (by rw [hstate, set_same]; rfl), hgeneration]
    obtain ⟨-, -, p, hp, hclosed⟩ := (fresh_of_create hmade hnumbered hsmall).closes .idle .idle
    rw [hhandle, hhandle] at hclosed
    have hend : run (cycles (n + 1)) = (run (cycles n)).set firstPipe p := by
      rw [cycles_succ, run_append]
      exact hclosed.trans (by rw [hstate, set_set])
    refine ⟨fun j => ?_, ?_⟩
    · rw [hend]
      by_cases hj : j = firstPipe
      · rw [hj, set_same, hp]
      · rw [set_other _ hj]
        exact hdead j
    · rw [cycles_succ, takenBy_append, count_append, hcount]
      have hevents : eventsOf taken step (run (cycles n)) (cycle n) = [firstPipe] := by
        show (run (cycles n)).taken (.create 1 101 true) ++ [] = _
        rw [htaken, append_nil]
      rw [hevents, count_singleton_self]

/-- The 4095th pipe of a slot has the generation 4096. It is made, and neither of its handles finds it. -/
theorem pipe_of_generation_4096 :
    ((run (cycles 4094)).create 1 101 true).1 = some firstPipe ∧ (takenBy (cycles 4094)).count firstPipe = 4094 ∧
      ¬ (run (cycles 4094 ++ [.create 1 101 true])).Usable firstPipe 101 := by
  obtain ⟨hdead, hcount⟩ := cycles_state le_rfl
  obtain ⟨hmade, -⟩ := create_first hdead
  refine ⟨hmade, hcount, ?_⟩
  have hnumbered := numbered_run (cycles 4094 ++ [.create 1 101 true])
  have hsound := (fifo_run (cycles 4094 ++ [.create 1 101 true])).sound
  rw [run_snoc, step] at hnumbered hsound ⊢
  obtain ⟨-, hstate⟩ := create_some hmade
  rw [usable_iff hmade hnumbered hsound, hstate, set_same, claimed_generation,
    Numbered.generationAfter_toNat ((numbered_run (cycles 4094)).generation firstPipe), hcount]
  decide

end Pipes

end LimitlessOS.Pipe
