/-
  LimitlessOS.Capability.Launch — the launcher's manifests and the runtime a service runs under.

  `launch.c`, as far as capabilities depend on it: which manifest was launched for an
  endpoint class, and the generation and token of its runtime. A start comes from
  `process64_bind_manifests`, which launches each seeded process from the manifest with
  its name; a failed image refresh leaves the manifest bound but not started. Whether
  mapping the image succeeds is an input of the call.

  Proved:
  - `Ok.bindManifests`: a manifest is idle or bound to the one process that has its name.
  - `Ok.accepts_bindManifests`: binding again makes no runtime stale.
  - `accepts_other`: a restart leaves the runtimes of the other classes alone.
-/
import LimitlessOS.Capability.Registry
import Mathlib.Data.List.Infix

namespace LimitlessOS.Capability

open List Option

/-- `launch64_manifest_record`. `process` is the seeded process whose name the manifest carries, if any. -/
structure Manifest where
  process : Option Seed
  verified : Bool
  token : UInt32
  packageId : UInt32
  executableId : UInt32
  schedulerClass : UInt32
  capabilityAdmissionLimit : UInt32
  launchedPid : UInt32
  launchedPrincipal : UInt32
  launchedEndpointClass : UInt32
  runtimeGeneration : UInt32
  runtimeToken : UInt32
  started : Bool
  quiesceReady : Bool
  deriving DecidableEq, Repr

namespace Manifest

/-- `launch64_mix_runtime_token` -/
def mixRuntimeToken (digest value : UInt32) : UInt32 := (digest ^^^ value) * 16777619

@[irreducible] def runtimeDigest (values : List UInt32) : UInt32 :=
  let digest := values.foldl mixRuntimeToken 2166136261
  if digest ≠ 0 then digest else 1

/-- `launch64_compute_runtime_token` -/
def computeRuntimeToken (m : Manifest) : UInt32 :=
  runtimeDigest [m.token, m.runtimeGeneration, m.launchedPid, m.launchedPrincipal, m.launchedEndpointClass, m.packageId,
    m.executableId]

/-- The assignments of `launch64_start_service`; the last one needs the image mapped. -/
def bind (m : Manifest) (pid principal endpointClass : UInt32) (imageOk : Bool) : Manifest :=
  let bound := { m with launchedPid := pid, launchedPrincipal := principal, launchedEndpointClass := endpointClass,
                        runtimeGeneration := 1 }
  { bound with runtimeToken := bound.computeRuntimeToken, started := imageOk }

/-- `launch64_start_service` with what `launch64_prepare_service` checks -/
def startService (m : Manifest) (pid principal endpointClass schedulerClass capabilityLimit : UInt32) (imageOk : Bool) :
    Bool × Manifest :=
  if m.started then (false, m)
  else if pid = 0 ∨ principal = 0 then (false, m)
  else if !m.verified ∨ m.schedulerClass ≠ schedulerClass ∨ m.capabilityAdmissionLimit ≠ capabilityLimit ∨ m.token = 0 then
    (false, m)
  else (imageOk, m.bind pid principal endpointClass imageOk)

/-- A manifest as it is read from the package catalog. -/
def unlaunched (m : Manifest) : Manifest :=
  { m with launchedPid := 0, launchedPrincipal := 0, launchedEndpointClass := 0, runtimeGeneration := 0,
           runtimeToken := 0, started := false, quiesceReady := false }

/-- The next runtime of a restarted service: its generation skips 0. -/
def nextRuntime (m : Manifest) : Manifest :=
  let next := { m with runtimeGeneration := if m.runtimeGeneration + 1 = 0 then 1 else m.runtimeGeneration + 1 }
  { next with runtimeToken := next.computeRuntimeToken }

end Manifest

def requestLimit : Nat := 16

/-- `requests` counts the log entries, which are never taken back. -/
structure Launch where
  manifests : List Manifest
  requests : Nat

namespace Launch

/-- `launch64_manifest_by_endpoint_class`, with the record at the index it returns -/
def manifestByEndpointClass (l : Launch) (endpointClass : UInt32) : Option Manifest :=
  l.manifests.find? (·.launchedEndpointClass == endpointClass)

/-- Whether a runtime recorded for a class is still the one the class runs under; token 0 was never bound to one. -/
def accepts (l : Launch) (endpointClass generation token : UInt32) : Bool :=
  token == 0 ||
    match l.manifestByEndpointClass endpointClass with
    | none => false
    | some m => m.runtimeGeneration == generation && m.runtimeToken == token

/-- `launch64_requester_can_start` and its twins for quiesce, drain and restart -/
def requesterAllowed (requester : UInt32) : Bool :=
  requester == principalSystem || requester == principalInitSupervisor

def setManifest (l : Launch) (i : Nat) (m : Manifest) : Launch := { l with manifests := l.manifests.set i m }

/-- The manifest a request may act on: the log has room, the manifest exists, the requester is allowed. -/
def admitRequest (l : Launch) (requester : UInt32) (i : Nat) : Option Manifest × Launch :=
  if l.requests ≥ requestLimit then (none, l)
  else
    let l := { l with requests := l.requests + 1 }
    match l.manifests[i]? with
    | none => (none, l)
    | some m => if requesterAllowed requester then (some m, l) else (none, l)

/-- One round of `process64_bind_manifests`, down to `launch64_request_service_start`. -/
def bindSeed (imageOk : Seed → Bool) (l : Launch) (s : Seed) : Launch :=
  match l.manifests.findIdx? (·.process == some s) with
  | none => l
  | some i =>
    match l.manifests[i]? with
    | none => l
    | some m =>
      if m.schedulerClass ≠ s.schedulerClass ∨ m.capabilityAdmissionLimit ≠ s.capabilityLimit then l
      else if !principalIsActive s.principal then l
      else
        match l.admitRequest principalInitSupervisor i with
        | (none, l) => l
        | (some m, l) =>
          l.setManifest i (m.startService s.pid s.principal s.endpointClass s.schedulerClass s.capabilityLimit (imageOk s)).2

/-- `process64_bind_manifests` -/
def bindManifests (l : Launch) (imageOk : Seed → Bool) : Launch := Seed.all.foldl (bindSeed imageOk) l

end Launch

/-! ## Which manifests are bound -/

namespace Manifest

/-- Not launched yet. -/
structure Idle (m : Manifest) : Prop where
  endpointClass : m.launchedEndpointClass = 0
  token : m.runtimeToken = 0
  started : m.started = false

/-- Launched for the seeded process, perhaps without a mapped image. -/
structure Bound (m : Manifest) (s : Seed) : Prop where
  process : m.process = some s
  pid : m.launchedPid = s.pid
  principal : m.launchedPrincipal = s.principal
  endpointClass : m.launchedEndpointClass = s.endpointClass
  token : m.runtimeToken = m.computeRuntimeToken
  first : m.started = false → m.runtimeGeneration = 1

/-- The manifest after a start: as it was, or bound. -/
theorem startService_cases (m : Manifest) (pid principal cls sched limit : UInt32) (imageOk : Bool) :
    (m.startService pid principal cls sched limit imageOk).2 = m ∨
      m.started = false ∧
        (m.startService pid principal cls sched limit imageOk).2 = m.bind pid principal cls imageOk := by
  unfold startService
  by_cases hs : m.started
  · simp [hs]
  rw [if_neg hs]
  split
  · exact .inl rfl
  split
  · exact .inl rfl
  · exact .inr ⟨by simpa using hs, rfl⟩

variable {s : Seed} {m : Manifest}

theorem bound_bind (h : m.process = some s) (imageOk : Bool) : (m.bind s.pid s.principal s.endpointClass imageOk).Bound s :=
  ⟨h, rfl, rfl, rfl, by simp only [computeRuntimeToken, bind], fun _ => rfl⟩

/-- Binding a manifest again, before it runs, gives it the runtime it has. -/
theorem Bound.bind_again (h : m.Bound s) (hs : m.started = false) (imageOk : Bool) :
    (m.bind s.pid s.principal s.endpointClass imageOk).runtimeGeneration = m.runtimeGeneration ∧
      (m.bind s.pid s.principal s.endpointClass imageOk).runtimeToken = m.runtimeToken := by
  have hgen := h.first hs
  refine ⟨hgen.symm, ?_⟩
  rw [h.token]
  simp only [bind, computeRuntimeToken, hgen, h.pid, h.principal, h.endpointClass]

theorem Bound.nextRuntime (h : m.Bound s) (hs : m.started) : m.nextRuntime.Bound s :=
  ⟨h.process, h.pid, h.principal, h.endpointClass, by simp only [Manifest.nextRuntime, computeRuntimeToken],
    fun hn => by simp [Manifest.nextRuntime, hs] at hn⟩

end Manifest

namespace Launch

/-- Every manifest is idle or bound to the process whose name it is the first to carry. -/
def Ok (l : Launch) : Prop :=
  ∀ i m, l.manifests[i]? = some m →
    m.Idle ∨ ∃ s, m.Bound s ∧ l.manifests.findIdx? (·.process == some s) = some i

variable {i : Nat} {l l' : Launch} {c g t : UInt32} {m m' : Manifest}

/-- The class's runtime is that of the only manifest bound to the process of the class. -/
theorem Ok.manifestByEndpointClass (h : l.Ok) (hm : l.manifestByEndpointClass c = some m) (ht : m.runtimeToken ≠ 0) :
    ∃ s i, m.Bound s ∧ s.endpointClass = c ∧ l.manifests.findIdx? (·.process == some s) = some i ∧
      l.manifests[i]? = some m := by
  have hc : m.launchedEndpointClass = c := by simpa using find?_some hm
  obtain ⟨i, hi⟩ := getElem?_of_mem (mem_of_find?_eq_some hm)
  rcases h i m hi with hidle | ⟨s, hbound, hfirst⟩
  · exact absurd hidle.token ht
  · exact ⟨s, i, hbound, hbound.endpointClass ▸ hc, hfirst, hi⟩

theorem findIdx?_process {l : List Manifest} (hi : l[i]? = some m) (h : m'.process = m.process) (p : Option Seed) :
    (l.set i m').findIdx? (·.process == p) = l.findIdx? (·.process == p) := by
  have hmap : (l.set i m').map (·.process) = l.map (·.process) := by
    obtain ⟨hlt, rfl⟩ := List.getElem?_eq_some_iff.1 hi
    rw [map_set, h]
    exact ext_getElem (by simp) fun j hj hj' => by
      rw [getElem_set]
      split <;> simp [*]
  have hfind := congrArg (findIdx? (· == p)) hmap
  rwa [findIdx?_map, findIdx?_map] at hfind

/-- Changing a manifest keeps a runtime accepted unless it takes the class away from the manifest that has it, or
brings the class to one that did not. -/
theorem accepts_setManifest (m' : Manifest) (hi : l.manifests[i]? = some m)
    (hsame : m'.launchedEndpointClass = c → m.launchedEndpointClass = c ∧ m'.runtimeGeneration = m.runtimeGeneration ∧
      m'.runtimeToken = m.runtimeToken)
    (hkept : m.runtimeToken ≠ 0 → m.launchedEndpointClass = c → m'.launchedEndpointClass = c)
    (h : l.accepts c g t) : (l.setManifest i m').accepts c g t := by
  obtain ⟨hlt, hget⟩ := List.getElem?_eq_some_iff.1 hi
  unfold accepts at h ⊢
  by_cases ht : t = 0
  · simp [ht]
  have ht' : (t == 0) = false := by simpa using ht
  rw [ht', Bool.false_or] at h ⊢
  rcases hf : l.manifestByEndpointClass c with _ | found
  · simp [hf] at h
  simp only [hf, Bool.and_eq_true, beq_iff_eq] at h
  obtain ⟨hp, k, hk, hkget, hbefore⟩ := find?_eq_some_iff_getElem.1 hf
  have hset : k < (l.setManifest i m').manifests.length := by simpa [setManifest] using hk
  have hothers : ∀ j (hj : j < k), i ≠ j → (!((l.setManifest i m').manifests[j].launchedEndpointClass == c)) := by
    intro j hj hij
    simpa [setManifest, getElem_set, hij] using hbefore j hj
  by_cases hik : i = k
  · subst hik
    obtain rfl : found = m := hkget.symm.trans hget
    have hclass := hkept (by rw [h.2]; exact ht) (by simpa using hp)
    obtain ⟨-, hg, htoken⟩ := hsame hclass
    have hfind : (l.setManifest i m').manifestByEndpointClass c = some m' :=
      find?_eq_some_iff_getElem.2 ⟨by simpa using hclass, i, hset, by simp [setManifest],
        fun j hj => hothers j hj hj.ne'⟩
    simp [hfind, hg, htoken, h]
  · have hfind : (l.setManifest i m').manifestByEndpointClass c = some found := by
      refine find?_eq_some_iff_getElem.2 ⟨hp, k, hset, by simpa [setManifest, getElem_set, hik] using hkget,
        fun j hj => ?_⟩
      by_cases hij : i = j
      · subst hij
        -- an earlier manifest does not have the class, so the change cannot bring it there
        have hno : m.launchedEndpointClass ≠ c := by simpa [hget] using hbefore i hj
        simpa [setManifest] using fun hc => hno (hsame hc).1
      · exact hothers j hj hij
    simp [hfind, h]

theorem accepts_other (m' : Manifest) (hi : l.manifests[i]? = some m)
    (hclass : m'.launchedEndpointClass = m.launchedEndpointClass) (hne : m.launchedEndpointClass ≠ c)
    (h : l.accepts c g t) : (l.setManifest i m').accepts c g t :=
  accepts_setManifest m' hi (fun hc => absurd (hclass ▸ hc) hne) (fun _ hc => absurd hc hne) h

theorem accepts_congr (h : l'.manifests = l.manifests) (c g t : UInt32) :
    l'.accepts c g t = l.accepts c g t := by
  simp only [accepts, Launch.manifestByEndpointClass, h]

theorem Ok.congr (h : l.Ok) (hm : l'.manifests = l.manifests) : l'.Ok := by
  unfold Ok at h ⊢
  rwa [hm]

/-- A manifest replaced by one for the same process. -/
theorem Ok.setManifest (h : l.Ok) (hi : l.manifests[i]? = some m) (hprocess : m'.process = m.process)
    (hm' : m'.Idle ∨ ∃ s, m'.Bound s ∧ l.manifests.findIdx? (·.process == some s) = some i) : (l.setManifest i m').Ok := by
  intro j mj hj
  have hidx : ∀ s : Seed, (l.setManifest i m').manifests.findIdx? (·.process == some s) =
      l.manifests.findIdx? (·.process == some s) := fun s => findIdx?_process hi hprocess (some s)
  simp only [hidx]
  obtain ⟨hlt, -⟩ := List.getElem?_eq_some_iff.1 hi
  simp only [Launch.setManifest, getElem?_set, hlt, if_true] at hj
  split at hj
  · rename_i hij
    cases hj
    exact hij ▸ hm'
  · exact h j mj hj

theorem admitRequest_cases (l : Launch) (requester : UInt32) (i : Nat) :
    ∃ l', l'.manifests = l.manifests ∧ (l.admitRequest requester i = (none, l') ∨
      ∃ m, l.admitRequest requester i = (some m, l') ∧ l.manifests[i]? = some m) := by
  unfold admitRequest
  split
  · exact ⟨l, rfl, .inl rfl⟩
  · refine ⟨{ l with requests := l.requests + 1 }, rfl, ?_⟩
    simp only
    split
    · exact .inl rfl
    · split <;> simp [*]

/-- A round of binding leaves the manifests or binds the first one with the process's name. -/
theorem bindSeed_cases (imageOk : Seed → Bool) (l : Launch) (s : Seed) :
    (bindSeed imageOk l s).manifests = l.manifests ∨
      ∃ i m, l.manifests.findIdx? (·.process == some s) = some i ∧ l.manifests[i]? = some m ∧ m.started = false ∧
        (bindSeed imageOk l s).manifests =
          l.manifests.set i (m.bind s.pid s.principal s.endpointClass (imageOk s)) := by
  unfold bindSeed
  split
  · exact .inl rfl
  rename_i i hidx
  split
  · exact .inl rfl
  rename_i m hm
  split
  · exact .inl rfl
  split
  · exact .inl rfl
  obtain ⟨l', hsame, heq | ⟨m', heq, hm'⟩⟩ := l.admitRequest_cases principalInitSupervisor i <;> rw [heq]
  · exact .inl hsame
  obtain rfl : m' = m := mem_unique hm' hm
  simp only [setManifest, hsame]
  rcases m'.startService_cases s.pid s.principal s.endpointClass s.schedulerClass s.capabilityLimit (imageOk s) with
    h | ⟨hs, h⟩
  · obtain ⟨hlt, hget⟩ := List.getElem?_eq_some_iff.1 hm
    left
    rw [h, ← hget, set_getElem_self]
  · exact .inr ⟨i, m', hidx, hm, hs, by rw [h]⟩

theorem findIdx?_process_get {s : Seed}
    (hidx : l.manifests.findIdx? (·.process == some s) = some i) (hm : l.manifests[i]? = some m) : m.process = some s := by
  obtain ⟨hlt, hp, -⟩ := findIdx?_eq_some_iff_getElem.1 hidx
  obtain ⟨hlt', hget⟩ := List.getElem?_eq_some_iff.1 hm
  rw [hget] at hp
  simpa using hp

theorem Ok.bindSeed (h : l.Ok) (imageOk : Seed → Bool) (s : Seed) : (bindSeed imageOk l s).Ok := by
  rcases bindSeed_cases imageOk l s with heq | ⟨i, m, hidx, hm, -, heq⟩
  · exact h.congr heq
  · have hok : (l.setManifest i (m.bind s.pid s.principal s.endpointClass (imageOk s))).Ok :=
      h.setManifest hm rfl (.inr ⟨s, Manifest.bound_bind (findIdx?_process_get hidx hm) (imageOk s), hidx⟩)
    exact hok.congr heq

theorem Ok.accepts_bindSeed (h : l.Ok) (imageOk : Seed → Bool) (s : Seed)
    (ha : l.accepts c g t) : (Launch.bindSeed imageOk l s).accepts c g t := by
  rcases bindSeed_cases imageOk l s with heq | ⟨i, m, hidx, hm, hs, heq⟩
  · rwa [accepts_congr heq]
  rw [accepts_congr (l := l.setManifest i (m.bind s.pid s.principal s.endpointClass (imageOk s))) heq]
  rcases h i m hm with hidle | ⟨s', hbound, -⟩
  · by_cases hc : s.endpointClass = c
    · -- a bound runtime of the class would be the idle manifest's
      have ht : t = 0 := by
        by_contra ht
        have ht' : (t == 0) = false := by simpa using ht
        unfold accepts at ha
        rw [ht', Bool.false_or] at ha
        rcases hf : l.manifestByEndpointClass c with _ | found
        · simp [hf] at ha
        simp only [hf, Bool.and_eq_true, beq_iff_eq] at ha
        obtain ⟨s', k, -, hclass, hk, hget⟩ := h.manifestByEndpointClass hf (by rw [ha.2]; exact ht)
        obtain rfl := Seed.endpointClass_inj (hclass.trans hc.symm)
        obtain rfl : k = i := mem_unique hk hidx
        obtain rfl : found = m := mem_unique hget hm
        exact ht (ha.2.symm.trans hidle.token)
      simp [accepts, ht]
    · exact accepts_setManifest _ hm (fun hc' => absurd hc' hc) (fun ht => absurd hidle.token ht) ha
  · obtain rfl : s' = s := some.inj (hbound.process.symm.trans (findIdx?_process_get hidx hm))
    obtain ⟨hgen, htoken⟩ := hbound.bind_again hs (imageOk s')
    exact accepts_setManifest _ hm (fun hc => ⟨hbound.endpointClass.trans hc, hgen, htoken⟩)
      (fun _ hc => hbound.endpointClass.symm.trans hc) ha

theorem Ok.bindManifests (h : l.Ok) (imageOk : Seed → Bool) : (l.bindManifests imageOk).Ok :=
  foldlRecOn Seed.all (Launch.bindSeed imageOk) h fun _ hl s _ => hl.bindSeed imageOk s

theorem Ok.accepts_bindManifests (h : l.Ok) (imageOk : Seed → Bool)
    (ha : l.accepts c g t) : (l.bindManifests imageOk).accepts c g t :=
  (foldlRecOn (motive := fun l : Launch => l.Ok ∧ l.accepts c g t) Seed.all (Launch.bindSeed imageOk)
    ⟨h, ha⟩ fun _ hl s _ => ⟨hl.1.bindSeed imageOk s, hl.1.accepts_bindSeed imageOk s hl.2⟩).2

end Launch

end LimitlessOS.Capability
