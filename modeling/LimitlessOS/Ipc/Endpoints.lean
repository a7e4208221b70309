/-
  LimitlessOS.Ipc.Endpoints — the message queues of the kernel's endpoints (`core/ipc.c`).

  Each of three endpoints has a ring of eight messages. A send is checked against the
  capabilities of its source and the depth of its dependencies. The endpoint of the policy
  broker takes one message of a source at a time, and into its last slot only a message that
  somebody waits for.

  Proved:
  - `send_cases`: what a send does.
  - `pending_receive`: a receive that is entitled to takes the oldest message.
  - `Queued.step`, `ipc_of_run`: in every run the messages received are those accepted, in
    their order, the next receive gets the next of them, and the rules of the policy endpoint
    hold.
-/
import LimitlessOS.Lib.Ring
import LimitlessOS.Lib.Run

namespace LimitlessOS.Ipc

open Function Lib Option List

/-- `struct ipc_message` -/
structure Message where
  sourceEndpoint : UInt32
  type : UInt32
  arg0 : UInt32
  arg1 : UInt32
  flags : UInt32
  dependencyDepth : UInt32

inductive Status where
  | ok | unknownEndpoint | queueFull | accessDenied | notOwner | empty
  deriving DecidableEq

/-- `IPC_BOOT_QUEUE_CAPACITY` -/
abbrev queueCapacity : Nat := 8

/-- The queues by the identifiers of their endpoints, where `ipc_find_endpoint` finds one with a queue. -/
abbrev Endpoints := UInt32 → Option (Ring queueCapacity Message)

/-- `IPC_ENDPOINT_AI_POLICY` -/
def aiPolicy : UInt32 := 3

/-- `ipc_init`; the memory for a queue may be refused. -/
def init (allocated : UInt32 → Bool) : Endpoints := fun id =>
  if (id = 1 ∨ id = 2 ∨ id = aiPolicy) ∧ allocated id then some ⟨fun _ => ⟨0, 0, 0, 0, 0, 0⟩, 0, 0, 0⟩ else none

/-- `SERVICE_CAP_ROUTE_INIT`, `SERVICE_CAP_ROUTE_DRIVER` and `SERVICE_CAP_ROUTE_POLICY` -/
def requiredSendCapabilities (id : UInt32) : UInt32 := if id = 1 then 1 else if id = 2 then 2 else 4

/-- What the services and the userspace answer during a call. -/
structure Services where
  currentEndpoint : UInt32
  currentCapabilities : UInt32
  capabilitiesForEndpoint : UInt32 → UInt32
  isEndpoint : UInt32 → Bool
  currentMessageFlags : UInt32
  currentDependencyDepth : UInt32
  backpressureReason : UInt32 → UInt32 → Message → Nat → UInt32
  canReceive : UInt32 → Bool

/-- `ipc_endpoint_has_pending_source` -/
def hasPendingSource (r : Ring queueCapacity Message) (source : UInt32) : Bool :=
  source ≠ 0 && r.contents.any fun m => m.sourceEndpoint = source

/-- The message that `ipc_send` puts into the queue. -/
def queued (s : Services) (m : Message) : Message :=
  { m with
    sourceEndpoint := if s.currentEndpoint = 0 then m.sourceEndpoint else s.currentEndpoint
    flags := if m.flags = 0 ∧ s.currentMessageFlags ≠ 0 then s.currentMessageFlags else m.flags
    dependencyDepth :=
      if m.dependencyDepth = 0 ∧ s.currentDependencyDepth ≠ 0 then s.currentDependencyDepth + 1 else m.dependencyDepth }

/-- The capabilities of the source; a program without any may only shake hands with the policy broker. -/
def sourceCapabilities (s : Services) (id source type : UInt32) : Option UInt32 :=
  let capabilities := if s.currentCapabilities = 0 then s.capabilitiesForEndpoint source else s.currentCapabilities
  if capabilities = 0 ∧ s.isEndpoint source then if id ≠ aiPolicy ∨ type ≠ 0x100 then none else some 4 else some capabilities

/-- `ipc_send` -/
def ipcSend (e : Endpoints) (s : Services) (id : UInt32) (message : Message) : Status × Endpoints :=
  let m := queued s message
  match e id with
  | none => (.unknownEndpoint, e)
  | some r =>
    match sourceCapabilities s id m.sourceEndpoint message.type with
    | none => (.accessDenied, e)
    | some capabilities =>
      if capabilities &&& requiredSendCapabilities id = 0 then (.accessDenied, e)
      else if m.dependencyDepth > 2 then (.accessDenied, e)
      else if r.count = queueCapacity then (.queueFull, e)
      else if id = aiPolicy ∧ hasPendingSource r m.sourceEndpoint then (.queueFull, e)
      else if id = aiPolicy ∧ r.count + 1 ≥ queueCapacity ∧ m.flags &&& 1 = 0 then (.queueFull, e)
      else if s.backpressureReason m.sourceEndpoint id m r.count ≠ 0 then (.queueFull, e)
      else (.ok, update e id (some (r.push m)))

/-- `ipc_receive` -/
def ipcReceive (e : Endpoints) (s : Services) (id : UInt32) : Status × Option Message × Endpoints :=
  match e id with
  | none => (.unknownEndpoint, none, e)
  | some r =>
    if !s.canReceive id then (.notOwner, none, e)
    else if r.count = 0 then (.empty, none, e)
    else (.ok, some r.pop.1, update e id (some r.pop.2))

inductive Call where
  | send (s : Services) (id : UInt32) (m : Message)
  | receive (s : Services) (id : UInt32)

def step (e : Endpoints) : Call → Endpoints
  | .send s id m => (ipcSend e s id m).2
  | .receive s id => (ipcReceive e s id).2.2

inductive Event where
  | accepted (id : UInt32) (m : Message)
  | received (id : UInt32) (m : Message)

def events (e : Endpoints) : Call → List Event
  | .send s id m => if (ipcSend e s id m).1 = .ok then [.accepted id (queued s m)] else []
  | .receive s id => ((ipcReceive e s id).2.1.map (Event.received id)).toList

def accepted (id : UInt32) (history : List Event) : List Message :=
  history.filterMap fun | .accepted j m => if j = id then some m else none | .received .. => none

def received (id : UInt32) (history : List Event) : List Message :=
  history.filterMap fun | .accepted .. => none | .received j m => if j = id then some m else none

def pending (e : Endpoints) (id : UInt32) : List Message := ((e id).map Ring.contents).getD []

/-- Two messages do not come from one source. -/
def Apart (a b : Message) : Prop := a.sourceEndpoint = b.sourceEndpoint → a.sourceEndpoint = 0

structure Queued (history : List Event) (e : Endpoints) : Prop where
  sound : ∀ id r, e id = some r → r.Sound
  fifo : ∀ id, accepted id history = received id history ++ pending e id
  single : (pending e aiPolicy).Pairwise Apart

variable {e : Endpoints} {s : Services} {id : UInt32} {history : List Event}

theorem send_cases (e : Endpoints) (s : Services) (id : UInt32) (m : Message) :
    (ipcSend e s id m).1 ≠ .ok ∧ (ipcSend e s id m).2 = e ∨
      ∃ r, e id = some r ∧ r.count ≠ queueCapacity ∧
        (id = aiPolicy → hasPendingSource r (queued s m).sourceEndpoint = false ∧
          (r.count + 1 ≥ queueCapacity → (queued s m).flags &&& 1 ≠ 0)) ∧
        ipcSend e s id m = (.ok, update e id (some (r.push (queued s m)))) := by
  unfold ipcSend
  rcases hr : e id with _ | r
  · exact .inl ⟨by simp, rfl⟩
  simp only
  split
  · exact .inl ⟨by simp, rfl⟩
  split_ifs with hcapabilities hdepth hfull hpending hlast hreason
  iterate 6 exact .inl ⟨by simp, rfl⟩
  exact .inr ⟨r, rfl, hfull, fun hid => by simp_all, rfl⟩

theorem pending_update (r : Ring queueCapacity Message) (j : UInt32) :
    pending (update e id (some r)) j = if j = id then r.contents else pending e j := by
  by_cases hj : j = id <;> simp [pending, hj]

theorem pending_eq {r : Ring queueCapacity Message} (hr : e id = some r) : pending e id = r.contents := by
  rw [pending, hr, map_some, getD_some]

/-- The queue of one endpoint changes. -/
theorem Queued.put {history' : List Event} {r : Ring queueCapacity Message} (h : Queued history e) (hr : r.Sound)
    (hfifo : ∀ j, accepted j history' = received j history' ++ if j = id then r.contents else pending e j)
    (hsingle : id = aiPolicy → r.contents.Pairwise Apart) : Queued history' (update e id (some r)) where
  sound := (forall_update_iff e fun _ x => ∀ r, x = some r → r.Sound).2
    ⟨fun _ heq => some.inj heq ▸ hr, fun j _ => h.sound j⟩
  fifo j := by rw [pending_update, hfifo]
  single := by
    rw [pending_update]
    split_ifs with hid
    · exact hsingle hid.symm
    · exact h.single

theorem Queued.step (h : Queued history e) (c : Call) : Queued (history ++ events e c) (step e c) := by
  cases c with
  | send s id m =>
    rcases send_cases e s id m with ⟨hno, heq⟩ | ⟨r, hr, hroom, hpolicy, heq⟩
    · simpa [events, Ipc.step, hno, heq] using h
    have hsound := h.sound id r hr
    have hlt : r.count < queueCapacity := lt_of_le_of_ne hsound.fits hroom
    simp only [events, Ipc.step, heq, if_true]
    refine h.put (hsound.push hlt _) (fun j => ?_) fun hid => ?_ <;> rw [Ring.contents_push hsound hlt]
    · have hbefore := h.fifo j
      simp only [accepted, received, filterMap_append] at hbefore ⊢
      rw [hbefore]
      by_cases hj : j = id
      · simp [hj, pending_eq hr]
      · simp [hj, Ne.symm hj]
    · -- no message of this source is pending
      refine pairwise_append.2 ⟨pending_eq hr ▸ hid ▸ h.single, pairwise_singleton .., fun a ha b hb hsame => ?_⟩
      by_contra hzero
      have hnone := (hpolicy hid).1
      rw [mem_singleton.1 hb] at hsame
      simp [hasPendingSource, ← hsame, hzero] at hnone
      exact hnone a ha rfl
  | receive s id =>
    simp only [events, Ipc.step, ipcReceive]
    rcases hr : e id with _ | r
    · simpa using h
    dsimp only
    split_ifs with howner hempty
    · simpa using h
    · simpa using h
    have hpos : 0 < r.count := Nat.pos_of_ne_zero hempty
    have hpop := Ring.contents_pop hpos
    refine h.put ((h.sound id r hr).pop hpos) (fun j => ?_) fun hid => ?_
    · have hbefore := h.fifo j
      simp only [accepted, received, filterMap_append] at hbefore ⊢
      rw [hbefore]
      by_cases hj : j = id
      · simp [hj, pending_eq hr, hpop]
      · simp [hj, Ne.symm hj]
    · have hsingle : r.contents.Pairwise Apart := pending_eq hr ▸ hid ▸ h.single
      rw [hpop] at hsingle
      exact (pairwise_cons.1 hsingle).2

/-- A receive that is entitled to gets the oldest of the pending messages, and takes it out of the queue. -/
theorem pending_receive {m : Message} {rest : List Message} (hp : pending e id = m :: rest)
    (hs : s.canReceive id = true) : ∃ e', ipcReceive e s id = (.ok, some m, e') ∧ pending e' id = rest := by
  rcases hr : e id with _ | r
  · simp [pending, hr] at hp
  rw [pending_eq hr] at hp
  have hpos : 0 < r.count := by
    rw [← Ring.contents_length, hp]
    exact Nat.succ_pos _
  have hpop := Ring.contents_pop hpos
  rw [hp] at hpop
  obtain ⟨rfl, rfl⟩ := cons.inj hpop
  refine ⟨update e id (some r.pop.2), ?_, by rw [pending_update, if_pos rfl]⟩
  simp [ipcReceive, hr, hs, hpos.ne']

theorem queued_init (allocated : UInt32 → Bool) : Queued [] (init allocated) := by
  have hempty : ∀ id r, init allocated id = some r → r.Sound ∧ r.contents = [] := by
    intro id r hr
    unfold init at hr
    split_ifs at hr
    obtain rfl := some.inj hr
    exact ⟨⟨by decide, rfl⟩, rfl⟩
  have hnone : ∀ id, pending (init allocated) id = [] := by
    intro id
    rcases hr : init allocated id with _ | r
    · rw [pending, hr, map_none, getD_none]
    · rw [pending_eq hr, (hempty id r hr).2]
  exact ⟨fun id r hr => (hempty id r hr).1, fun id => (hnone id).symm, by simp [hnone]⟩

theorem ipc_of_run (allocated : UInt32 → Bool) (calls : List Call) :
    let e := calls.foldl step (init allocated)
    let history := eventsOf events step (init allocated) calls
    (∀ id, accepted id history = received id history ++ pending e id) ∧
      (∀ s id m rest, pending e id = m :: rest → s.canReceive id = true →
        ∃ e', ipcReceive e s id = (.ok, some m, e') ∧ pending e' id = rest) ∧
      (pending e aiPolicy).Pairwise Apart ∧
      ∀ s m, (ipcSend e s aiPolicy m).1 = .ok → (pending e aiPolicy).length + 1 = queueCapacity →
        (queued s m).flags &&& 1 ≠ 0 := by
  intro e history
  have h : Queued history e := eventsOf_invariant (fun _ _ c h => h.step c) (queued_init allocated) calls
  refine ⟨h.fifo, fun s id m rest hp hs => pending_receive hp hs, h.single, fun s m hok hlast => ?_⟩
  rcases send_cases e s aiPolicy m with ⟨hno, -⟩ | ⟨r, hr, -, hpolicy, -⟩
  · exact absurd hok hno
  · rw [pending_eq hr, Ring.contents_length] at hlast
    exact (hpolicy rfl).2 hlast.ge

/-- Everything is allowed. -/
def Services.granting : Services where
  currentEndpoint := 0
  currentCapabilities := 7
  capabilitiesForEndpoint _ := 0
  isEndpoint _ := false
  currentMessageFlags := 0
  currentDependencyDepth := 0
  backpressureReason _ _ _ _ := 0
  canReceive _ := true

/-- Three messages for the second endpoint, the first of which is received. -/
def threeSends : List Call :=
  [.send .granting 2 ⟨1, 5, 10, 0, 0, 0⟩, .send .granting 2 ⟨1, 5, 11, 0, 0, 0⟩, .receive .granting 2,
    .send .granting 2 ⟨1, 5, 12, 0, 0, 0⟩]

/-- The next receive gets the second message, and the third stays. -/
theorem ipc_of_three_sends :
    let e := threeSends.foldl step (init fun _ => true)
    received 2 (eventsOf events step (init fun _ => true) threeSends) = [⟨1, 5, 10, 0, 0, 0⟩] ∧
      ∃ e', ipcReceive e .granting 2 = (.ok, some ⟨1, 5, 11, 0, 0, 0⟩, e') ∧ pending e' 2 = [⟨1, 5, 12, 0, 0, 0⟩] := by
  have hrun := ipc_of_run (fun _ => true) threeSends
  have hp : pending (threeSends.foldl step (init fun _ => true)) 2 = [⟨1, 5, 11, 0, 0, 0⟩, ⟨1, 5, 12, 0, 0, 0⟩] := by
    rfl
  refine ⟨?_, hrun.2.1 .granting 2 _ _ hp rfl⟩
  have hfifo := hrun.1 2
  rw [hp] at hfifo
  exact append_cancel_right hfifo.symm

end LimitlessOS.Ipc
