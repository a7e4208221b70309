/-
  LimitlessOS.Fs.Steps — what a call to the file service can do.

  Resolving a handle, loading a path and handing bytes out are `Quiet`: records may leave
  the two tables, and nothing else changes. After that a call may change the tree, and an
  open or a create may put one record into the table.

  Proved:
  - `resolveNodeCapability_spec`, `resolveBaseNode_quiet`: the two ways to resolve a handle.
  - `step_effect`: every call but those to the broker has an `Effect`.
-/
import LimitlessOS.Capability.Steps
import LimitlessOS.Fs.Server
import LimitlessOS.Lib.Run

namespace LimitlessOS.Fs

open Lib Capability Ramfs HandleTable Server Option

/-- Records may have left the tables; the rest is the same. -/
structure Quiet (s s' : Server) : Prop where
  broker : s'.broker = { s.broker with caps := s'.broker.caps }
  brokerCaps : Shrinks s.broker.caps s'.broker.caps
  caps : Shrinks s.caps s'.caps
  tree : s'.tree = s.tree

namespace Quiet

theorem refl (s : Server) : Quiet s s := ⟨rfl, .refl _, .refl _, rfl⟩

theorem trans {a b c : Server} (hab : Quiet a b) (hbc : Quiet b c) : Quiet a c :=
  ⟨by rw [hbc.broker, hab.broker], hab.brokerCaps.trans hbc.brokerCaps, hab.caps.trans hbc.caps, hbc.tree.trans hab.tree⟩

theorem drop (s : Server) (i : Fin tableLimit) : Quiet s { s with caps := s.caps.drop i } :=
  ⟨rfl, .refl _, .drop _ i, rfl⟩

theorem touched (s : Server) (l : List Access) : Quiet s { s with touched := l } := ⟨rfl, .refl _, .refl _, rfl⟩

/-- A lookup in the broker. -/
theorem swept {s : Server} {b : Broker} {drained : UInt32 → Prop}
    (h : ∃ caps, b = { s.broker with caps } ∧ Broker.Swept s.broker drained caps) : Quiet s { s with broker := b } := by
  obtain ⟨caps, rfl, hs⟩ := h
  exact ⟨rfl, hs.shrinks, .refl _, rfl⟩

end Quiet

/-- The bytes of an argument. -/
def Argument.bytes (argument : Argument) (count : UInt32) : List UInt8 :=
  match argument with
  | .kernel memory | .user _ memory => (List.range count.toNat).map memory

/-- The storage has a file under the path. -/
def Storage.has (storage : Storage) (path : List UInt8) (owner : UInt32) : Bool :=
  match storage.readFile path owner with
  | none => false
  | some imported => imported ≠ []

namespace Server

/-! ## Resolving -/

theorem runtimeIsCurrent_cases (s : Server) (i : Fin tableLimit) :
    (s.caps.slots i).current s.broker.launch ∧ s.runtimeIsCurrent i = (true, s) ∨
      (s.caps.slots i).current s.broker.launch = false ∧ s.runtimeIsCurrent i = (false, { s with caps := s.caps.drop i }) := by
  unfold runtimeIsCurrent
  cases h : (s.caps.slots i).current s.broker.launch <;> simp

/-- The handle leads to the record in slot `i`, the owner has the rights, and the node is there. -/
structure Leads (s : Server) (handle rights owner : UInt32) (i : Fin tableLimit) : Prop where
  principal : principalIsActive owner = true
  found : s.caps.find handle = some i
  owner : (s.caps.slots i).ownerId = owner
  rights : (s.caps.slots i).rights &&& rights = rights
  node : s.tree.fs.nodeExists (s.caps.slots i).nodeId = true

/-- A handle resolves if it leads to a record with a current runtime; a stale record leaves. -/
theorem resolveNodeCapability_spec (s : Server) (handle rights owner : UInt32) :
    (∃ i, Leads s handle rights owner i ∧ (s.caps.slots i).current s.broker.launch ∧
        s.resolveNodeCapability handle rights owner = (some i, s)) ∨
      (∃ i, Leads s handle rights owner i ∧ (s.caps.slots i).current s.broker.launch = false ∧
        s.resolveNodeCapability handle rights owner = (none, { s with caps := s.caps.drop i })) ∨
      (∀ i, ¬ Leads s handle rights owner i) ∧ s.resolveNodeCapability handle rights owner = (none, s) := by
  unfold resolveNodeCapability
  cases hp : principalIsActive owner
  · exact .inr (.inr ⟨fun i h => by simp [h.principal] at hp, by simp⟩)
  rcases hf : s.caps.find handle with _ | i
  · exact .inr (.inr ⟨fun i h => by simp [h.found] at hf, by simp⟩)
  simp only [Bool.not_true, Bool.false_eq_true, if_false]
  split_ifs with hdenied
  · refine .inr (.inr ⟨fun j h => ?_, rfl⟩)
    obtain rfl : i = j := mem_unique hf h.found
    rcases hdenied with ho | hr | hn
    · exact ho h.owner
    · exact hr h.rights
    · simp [h.node] at hn
  · have hleads : Leads s handle rights owner i := by
      refine ⟨hp, hf, ?_, ?_, ?_⟩
      · exact not_not.1 fun ho => hdenied (.inl ho)
      · exact not_not.1 fun hr => hdenied (.inr (.inl hr))
      · exact Bool.not_eq_false _ ▸ fun hn => hdenied (.inr (.inr (by simp [hn])))
    rcases s.runtimeIsCurrent_cases i with ⟨hc, heq⟩ | ⟨hc, heq⟩
    · exact .inl ⟨i, hleads, hc, by rw [heq]⟩
    · exact .inr (.inl ⟨i, hleads, hc, by rw [heq]⟩)

variable {handle rights owner : UInt32} {s : Server}

theorem resolveNodeCapability_leads {i : Fin tableLimit} (h : (s.resolveNodeCapability handle rights owner).1 = some i) :
    Leads s handle rights owner i := by
  rcases s.resolveNodeCapability_spec handle rights owner with ⟨j, hl, -, heq⟩ | ⟨j, -, -, heq⟩ | ⟨-, heq⟩ <;> rw [heq] at h
  · exact some.inj h ▸ hl
  · cases h
  · cases h

theorem resolveNodeCapability_quiet (s : Server) (handle rights owner : UInt32) :
    Quiet s (s.resolveNodeCapability handle rights owner).2 := by
  rcases s.resolveNodeCapability_spec handle rights owner with ⟨i, -, -, heq⟩ | ⟨i, -, -, heq⟩ | ⟨-, heq⟩ <;> rw [heq]
  · exact .refl s
  · exact .drop s i
  · exact .refl s

/-- A base is a node handle that leads to the directory of its record, or it is no node handle. -/
theorem resolveBaseNode_some {base : Base} (h : (s.resolveBaseNode handle rights owner).1 = some base) :
    (∃ i, s.caps.find handle = some i ∧ base.parentHandle = handle ∧ base.nodeId = (s.caps.slots i).nodeId ∧
      s.tree.fs.nodeIsDirectory (s.caps.slots i).nodeId) ∨
      s.caps.find handle = none ∧ base.parentHandle = 0 := by
  unfold resolveBaseNode at h
  split at h
  · rename_i i hf
    dsimp only at h
    split_ifs at h with hok
    simp only [not_or, Bool.not_eq_true', Bool.not_eq_false] at hok
    split at h
    · cases h
    · obtain rfl := some.inj h
      exact .inl ⟨i, hf, (find_some hf).2, rfl, hok.2.2⟩
  · rename_i hf
    dsimp only at h
    split_ifs at h
    obtain rfl := some.inj h
    exact .inr ⟨hf, rfl⟩

section

variable (s handle rights owner)

theorem resolveBaseNode_parent (base : Base) (h : (s.resolveBaseNode handle rights owner).1 = some base) :
    base.parentHandle = if (s.caps.find handle).isSome then handle else 0 := by
  rcases resolveBaseNode_some h with ⟨i, hf, hparent, -⟩ | ⟨hf, hparent⟩ <;> rw [hf, hparent] <;> rfl

theorem resolveBaseNode_quiet :
    Quiet s (s.resolveBaseNode handle rights owner).2 := by
  unfold resolveBaseNode
  split
  · rename_i i hf
    simp only
    split
    · exact .refl s
    · rcases s.runtimeIsCurrent_cases i with ⟨-, heq⟩ | ⟨-, heq⟩ <;> rw [heq]
      · exact .refl s
      · exact .drop s i
  · have hroute : Quiet s { s with broker := (s.broker.route handle rightSend owner).2 } :=
      .swept (s.broker.route_swept handle rightSend owner)
    generalize s.broker.route handle rightSend owner = routed at hroute ⊢
    obtain ⟨endpoint, b1⟩ := routed
    simp only at hroute ⊢
    split
    · exact hroute
    have hgeneration : Quiet { s with broker := b1 } { s with broker := (b1.runtimeGeneration handle owner).2 } :=
      .swept (Broker.query_swept 0 true _ b1 handle owner)
    generalize b1.runtimeGeneration handle owner = generated at hgeneration ⊢
    obtain ⟨generation, b2⟩ := generated
    have htoken : Quiet { s with broker := b2 } { s with broker := (b2.runtimeToken handle owner).2 } :=
      .swept (Broker.query_swept 0 true _ b2 handle owner)
    exact (hroute.trans hgeneration).trans htoken

end

theorem loadPathArgument_quiet (s : Server) (argument : Argument) (count : UInt32) :
    Quiet s (s.loadPathArgument argument count).2 := by
  cases argument with
  | kernel memory => exact .refl s
  | user address memory =>
    unfold loadPathArgument copyFromAddress
    dsimp only
    split
    · exact .touched s _
    · exact .refl s

theorem loadPathArgument_bytes (s : Server) (argument : Argument) (count : UInt32) (bytes : List UInt8)
    (h : (s.loadPathArgument argument count).1 = some bytes) : argument.bytes count = bytes := by
  cases argument with
  | kernel memory => exact some.inj h
  | user address memory =>
    unfold loadPathArgument copyFromAddress at h
    dsimp only at h
    split_ifs at h
    exact some.inj h

theorem deliver_quiet (s : Server) (output : Option UInt64) (bytes : List UInt8) : Quiet s (s.deliver output bytes).2 := by
  rcases output with _ | address
  · exact .refl s
  unfold deliver copyToAddress
  dsimp only
  cases addressWritable address (UInt32.ofNat bytes.length) with
  | false => exact .refl s
  | true => exact .touched s _

end Server

/-! ## Effects -/

/-- The calls that may add a record to the table. -/
def Op.creates : Op → Bool
  | .openNode .. | .create .. => true
  | _ => false

/-- The calls that may add a node to the tree: an open only takes over what the storage has. -/
def Op.adds : Op → Bool
  | .openNode _ path count owner storage => storage.has (path.bytes count) owner
  | .create .. => true
  | _ => false

/-- The base a node is opened or created below. -/
def Op.base : Op → UInt32
  | .openNode handle .. | .create handle .. => handle
  | _ => 0

/-- Who opens or creates a node. -/
def Op.opener : Op → UInt32
  | .openNode _ _ _ owner _ | .create _ _ _ _ owner => owner
  | _ => 0

/-- The parent that a new record gets: the base, if it is a node handle. -/
def Server.parentOf (s : Server) (op : Op) : UInt32 := if (s.caps.find op.base).isSome then op.base else 0

/-- What an open or a create returns. -/
def Server.reply (s : Server) : Op → UInt32
  | .openNode handle path count owner storage => (s.openCommon handle path count owner storage).1
  | .create handle path count nodeType owner => (s.createCommon handle path count nodeType owner).1
  | _ => 0

/-- Nodes that are there after the call were there, or have the number of the first free record. -/
def TreeEffect (op : Op) (t t' : Tree) : Prop :=
  ∀ id, t'.fs.nodeExists id = true →
    t.fs.nodeExists id = true ∨ op.adds = true ∧ ∃ i, t.fs.allocateNode = some i ∧ id = numberAt i

/-- The record a call puts into the table. -/
structure Grants (s : Server) (op : Op) (t : Tree) (r : Record) : Prop where
  creates : op.creates = true
  active : r.active = true
  handle : r.handle = s.caps.next
  ownerId : r.ownerId = op.opener
  owner : principalIsActive r.ownerId = true
  node : t.fs.nodeExists r.nodeId = true
  parent : r.parentHandle = s.parentOf op
  reply : s.reply op = r.handle

/-- What a call leaves. -/
inductive Effect (s : Server) (op : Op) : Server → Prop
  | quiet {s'} (h : Quiet s s') : Effect s op s'
  | changed {mid} (h : Quiet s mid) (t : Tree) (ht : TreeEffect op s.tree t) : Effect s op { mid with tree := t }
  | granted {mid} (h : Quiet s mid) (t : Tree) (ht : TreeEffect op s.tree t) (i : Fin tableLimit) (r : Record)
      (hi : mid.caps.free = some i) (hr : Grants s op t r) :
      Effect s op { mid with tree := t, caps := mid.caps.issue i fun _ => r }
  | revoked (handle owner : UInt32) (i : Fin tableLimit) (hop : op = .revoke handle owner)
      (h : Leads s handle 0 owner i) : Effect s op { s with caps := s.caps.revoke i handle }

theorem TreeEffect.refl (op : Op) (t : Tree) : TreeEffect op t t := fun _ h => .inl h

/-! ### Trees -/

theorem treeEffect_create (op : Op) (hop : op.adds) (t : Tree) (base : UInt32) (path : List UInt8)
    (type : NodeType) : TreeEffect op t (t.create base path type).2 := by
  intro id hid
  rcases (t.isTree.of_step (o := .create base path type) rfl).2.nodeExists hid with h | ⟨-, h⟩
  · exact .inl h
  · exact .inr ⟨hop, h⟩

/-- Only a create adds a node. -/
theorem nodeExists_of_step {t : Tree} {fs' : Ramfs} {o : Ramfs.Op} {r : Bool} {id : UInt32}
    (hstep : t.fs.step o = some (r, fs'))
    (ho : ∀ base path type, o ≠ .create base path type) (h : fs'.nodeExists id) : t.fs.nodeExists id := by
  rcases (t.isTree.of_step hstep).2.nodeExists h with h | ⟨⟨base, path, type, hop⟩, -⟩
  · exact h
  · exact absurd hop (ho base path type)

theorem nodeExists_write {t : Tree} {id offset : _} {source : List UInt8} {n : UInt32} :
    (t.write id offset source).2.fs.nodeExists n → t.fs.nodeExists n :=
  nodeExists_of_step (o := .write id offset source) rfl (by simp)

theorem treeEffect_move (op : Op) (t : Tree) (sourceBase : UInt32) (source : List UInt8) (destinationBase : UInt32)
    (destination : List UInt8) : TreeEffect op t (t.move sourceBase source destinationBase destination).2 := by
  intro id hid
  unfold Tree.move at hid
  split at hid
  · rename_i hmove
    exact .inl (nodeExists_of_step (o := .move sourceBase source destinationBase destination) hmove (by simp) hid)
  · exact .inl hid

/-! ### Calls -/

namespace Server

theorem readOut_quiet (s : Server) (right handle : UInt32) (output : Option UInt64) (owner : UInt32)
    (bytes : Server → Record → Option (List UInt8)) : Quiet s (s.readOut right handle output owner bytes).2 := by
  unfold readOut
  have hq := s.resolveNodeCapability_quiet handle right owner
  generalize s.resolveNodeCapability handle right owner = resolved at hq ⊢
  obtain ⟨found, s1⟩ := resolved
  rcases found with _ | i
  · exact hq
  dsimp only
  cases bytes s1 (s1.caps.slots i) with
  | none => exact hq
  | some bytes => exact hq.trans (s1.deliver_quiet output bytes)

variable {s : Server} {right handle owner : UInt32}

/-- Without a record to read from, nothing is read. -/
theorem readOut_none (h : (s.resolveNodeCapability handle right owner).1 = none) {output : Option UInt64}
    {bytes : Server → Record → Option (List UInt8)} :
    (s.readOut right handle output owner bytes).1 = invalidResult := by
  unfold readOut
  generalize s.resolveNodeCapability handle right owner = resolved at h ⊢
  obtain ⟨found, s1⟩ := resolved
  cases h
  rfl

theorem write_none {handle owner : UInt32} (h : (s.resolveNodeCapability handle rightWrite owner).1 = none) {input : Argument}
    {offset count : UInt32} : (s.write handle input offset count owner).1 = invalidResult := by
  unfold write
  generalize s.resolveNodeCapability handle rightWrite owner = resolved at h ⊢
  obtain ⟨found, s1⟩ := resolved
  cases h
  rfl

theorem nodeRights_quiet (s : Server) (handle owner : UInt32) : Quiet s (s.nodeRights handle owner).2 := by
  unfold nodeRights
  have hq := s.resolveNodeCapability_quiet handle 0 owner
  generalize s.resolveNodeCapability handle 0 owner = resolved at hq ⊢
  obtain ⟨found, s1⟩ := resolved
  cases found <;> exact hq

theorem write_effect (s : Server) (handle : UInt32) (input : Argument) (offset count owner : UInt32) :
    Effect s (.write handle input offset count owner) (s.write handle input offset count owner).2 := by
  unfold write
  have hq := s.resolveNodeCapability_quiet handle rightWrite owner
  generalize s.resolveNodeCapability handle rightWrite owner = resolved at hq ⊢
  obtain ⟨found, s1⟩ := resolved
  rcases found with _ | i
  · exact .quiet hq
  dsimp only
  have hl := hq.trans (s1.loadPathArgument_quiet input (clampCount count))
  generalize s1.loadPathArgument input (clampCount count) = loaded at hl ⊢
  obtain ⟨bytes, s2⟩ := loaded
  rcases bytes with _ | bytes
  · exact .quiet hl
  have ht : TreeEffect (.write handle input offset count owner) s2.tree
    (s2.tree.write (s2.caps.slots i).nodeId offset.toNat bytes).2 := fun _ h => .inl (nodeExists_write h)
  dsimp only
  generalize s2.tree.write (s2.caps.slots i).nodeId offset.toNat bytes = written at ht ⊢
  obtain ⟨stored, t⟩ := written
  rw [hl.tree] at ht
  cases stored <;> exact .changed hl t ht

theorem revoke_effect (s : Server) (handle owner : UInt32) :
    Effect s (.revoke handle owner) (s.revoke handle owner).2 := by
  unfold revoke
  rcases s.resolveNodeCapability_spec handle 0 owner with ⟨i, hl, -, heq⟩ | ⟨i, -, -, heq⟩ | ⟨-, heq⟩ <;> rw [heq]
  · exact .revoked handle owner i rfl hl
  · exact .quiet (.drop s i)
  · exact .quiet (.refl s)

/-- A call that resolves a base and loads a path below it: it fails without an effect, or goes on with both. -/
theorem below {path : Argument} {count failed : UInt32} {rest : Base → List UInt8 → Server → UInt32 × Server}
    {P : UInt32 × Server → Prop} (hfailed : ∀ mid, Quiet s mid → P (failed, mid))
    (hrest : ∀ base bytes mid, Quiet s mid → base.parentHandle = (if (s.caps.find handle).isSome then handle else 0) →
      path.bytes count = bytes → P (rest base bytes mid)) :
    P (match s.resolveBaseNode handle right owner with
      | (none, s) => (failed, s)
      | (some base, s) =>
        match s.loadPathArgument path count with
        | (none, s) => (failed, s)
        | (some bytes, s) => rest base bytes s) := by
  have hq := s.resolveBaseNode_quiet handle right owner
  have hparent := s.resolveBaseNode_parent handle right owner
  generalize s.resolveBaseNode handle right owner = resolved at hq hparent ⊢
  obtain ⟨base, s1⟩ := resolved
  rcases base with _ | base
  · exact hfailed s1 hq
  have hl := hq.trans (s1.loadPathArgument_quiet path count)
  have hbytes := s1.loadPathArgument_bytes path count
  dsimp only
  generalize s1.loadPathArgument path count = loaded at hl hbytes ⊢
  obtain ⟨bytes, s2⟩ := loaded
  cases bytes with
  | none => exact hfailed s2 hl
  | some bytes => exact hrest base bytes s2 hl (hparent base rfl) (hbytes bytes rfl)

theorem renameCommon_effect (s : Server) (handle : UInt32) (pair : Argument) (sourceCount destinationCount owner : UInt32) :
    Effect s (.rename handle pair sourceCount destinationCount owner)
      (s.renameCommon handle pair sourceCount destinationCount owner).2 := by
  unfold renameCommon
  split
  · exact .quiet (.refl s)
  refine below (P := fun p => Effect s _ p.2) (fun mid h => .quiet h) fun base bytes mid h _ _ => ?_
  exact .changed h _ (h.tree ▸ treeEffect_move _ mid.tree _ _ _ _)

theorem moveCommon_effect (s : Server) (sourceHandle destinationHandle : UInt32) (pair : Argument)
    (sourceCount destinationCount owner : UInt32) :
    Effect s (.move sourceHandle destinationHandle pair sourceCount destinationCount owner)
      (s.moveCommon sourceHandle destinationHandle pair sourceCount destinationCount owner).2 := by
  unfold moveCommon
  split
  · exact .quiet (.refl s)
  have hq := s.resolveBaseNode_quiet sourceHandle rightRename owner
  generalize s.resolveBaseNode sourceHandle rightRename owner = resolved at hq ⊢
  obtain ⟨source, s1⟩ := resolved
  rcases source with _ | source
  · exact .quiet hq
  refine below (P := fun p => Effect s _ p.2) (fun mid h => .quiet (hq.trans h)) fun destination bytes mid h _ _ => ?_
  exact .changed (hq.trans h) _ ((hq.trans h).tree ▸ treeEffect_move _ mid.tree _ _ _ _)

theorem deleteCommon_effect (s : Server) (handle : UInt32) (path : Argument) (count owner : UInt32) :
    Effect s (.delete handle path count owner) (s.deleteCommon handle path count owner).2 := by
  unfold deleteCommon
  split
  · exact .quiet (.refl s)
  refine below (P := fun p => Effect s _ p.2) (fun mid h => .quiet h) fun base bytes mid hmid _ _ => ?_
  refine .changed hmid _ fun id h => .inl (hmid.tree ▸ ?_)
  exact nodeExists_of_step (t := mid.tree) (o := .delete base.nodeId bytes) rfl (by simp) h

/-! ### Opening and creating -/

/-- What an open or a create returns and leaves. -/
inductive Opens (s : Server) (op : Op) : UInt32 × Server → Prop
  | refused {mid} (h : Quiet s mid) (t : Tree) (ht : TreeEffect op s.tree t) : Opens s op (invalidResult, { mid with tree := t })
  | granted {mid} (h : Quiet s mid) (t : Tree) (ht : TreeEffect op s.tree t) (i : Fin tableLimit) (r : Record)
      (hi : mid.caps.free = some i) (hactive : r.active = true) (hhandle : r.handle = s.caps.next)
      (howner : principalIsActive r.ownerId = true) (hnode : t.fs.nodeExists r.nodeId = true)
      (hparent : r.parentHandle = s.parentOf op) (hid : r.ownerId = op.opener) :
      Opens s op (r.handle, { mid with tree := t, caps := mid.caps.issue i fun _ => r })

theorem Opens.quiet {s s' : Server} {op : Op} (h : Quiet s s') : Opens s op (invalidResult, s') := by
  have hrefused : Opens s op (invalidResult, { s' with tree := s.tree }) := .refused h s.tree (.refl op s.tree)
  rwa [← h.tree] at hrefused

theorem grantNode_opens {s mid : Server} {op : Op} (h : Quiet s mid) {t : Tree} (ht : TreeEffect op s.tree t)
    (nodeId owner : UInt32) (base : Base) (hbase : base.parentHandle = s.parentOf op) (howner : owner = op.opener)
    (selector : UInt32) (path : List UInt8) :
    Opens s op (({ mid with tree := t } : Server).grantNode nodeId owner base selector path) := by
  unfold grantNode
  split
  · exact .refused h t ht
  rename_i hok
  simp only [Bool.or_eq_true, Bool.not_eq_true', not_or, Bool.not_eq_false] at hok
  split
  · exact .refused h t ht
  · rename_i i hi
    exact .granted h t ht i (({ mid with tree := t } : Server).grantedRecord nodeId owner base selector path mid.caps.next)
      hi rfl h.caps.next hok.1 hok.2 hbase howner

theorem createCommon_opens (s : Server) (handle : UInt32) (path : Argument) (count nodeType owner : UInt32) :
    Opens s (.create handle path count nodeType owner) (s.createCommon handle path count nodeType owner) := by
  unfold createCommon
  split
  · exact .quiet (.refl s)
  refine below (fun mid h => .quiet h) fun base bytes mid hmid hparent _ => ?_
  have ht := treeEffect_create (.create handle path count nodeType owner) rfl mid.tree base.nodeId bytes (nodeTypeOf nodeType)
  generalize mid.tree.create base.nodeId bytes (nodeTypeOf nodeType) = created at ht ⊢
  obtain ⟨nodeId, t⟩ := created
  rw [hmid.tree] at ht
  cases nodeId with
  | none => exact .refused hmid t ht
  | some nodeId => exact grantNode_opens hmid ht nodeId owner base hparent rfl 0 bytes

/-- The node an open finds or takes over. -/
theorem openNode_tree (op : Op) (s : Server) (base : UInt32) (path : List UInt8) (owner : UInt32) (storage : Storage)
    (hop : storage.has path owner → op.adds) :
    ∃ t, (s.openNode base path owner storage).2 = { s with tree := t } ∧ TreeEffect op s.tree t := by
  unfold openNode
  split
  · exact ⟨s.tree, rfl, .refl op s.tree⟩
  split
  · exact ⟨s.tree, rfl, .refl op s.tree⟩
  rename_i imported himported
  split_ifs with hne
  · exact ⟨s.tree, rfl, .refl op s.tree⟩
  have ht := treeEffect_create op (hop (by simp [Storage.has, himported, hne])) s.tree base path .file
  generalize s.tree.create base path .file = created at ht ⊢
  obtain ⟨nodeId, t⟩ := created
  cases nodeId with
  | none => exact ⟨t, rfl, ht⟩
  | some nodeId => exact ⟨(t.write nodeId 0 imported).2, rfl, fun id hid => ht id (nodeExists_write hid)⟩

theorem openCommon_opens (s : Server) (handle : UInt32) (path : Argument) (count owner : UInt32) (storage : Storage) :
    Opens s (.openNode handle path count owner storage) (s.openCommon handle path count owner storage) := by
  unfold openCommon
  split
  · exact .quiet (.refl s)
  refine below (fun mid h => .quiet h) fun base bytes mid hmid hparent hbytes => ?_
  obtain ⟨t, heq, ht⟩ := openNode_tree (.openNode handle path count owner storage) mid base.nodeId bytes owner storage
    fun h => by rw [Op.adds, hbytes]; exact h
  generalize mid.openNode base.nodeId bytes owner storage = opened at heq ⊢
  obtain ⟨nodeId, s3⟩ := opened
  subst heq
  rw [hmid.tree] at ht
  cases nodeId with
  | none => exact .refused hmid t ht
  | some nodeId => exact grantNode_opens hmid ht nodeId owner base hparent rfl _ bytes

theorem Opens.effect {op : Op} {p : UInt32 × Server} (h : Opens s op p) (hop : op.creates) (hreply : s.reply op = p.1) :
    Effect s op p.2 := by
  cases h with
  | refused h t ht => exact .changed h t ht
  | granted h t ht i r hi hactive hhandle howner hnode hparent hid =>
    exact .granted h t ht i r hi ⟨hop, hactive, hhandle, hid, howner, hnode, hparent, hreply⟩

/-- Every call to the service has an effect. -/
theorem step_effect (s : Server) (op : Op) (hop : ∀ o, op ≠ .broker o) : Effect s op (s.step op) := by
  cases op with
  | broker o => exact absurd rfl (hop o)
  | openNode handle path count owner storage => exact (s.openCommon_opens handle path count owner storage).effect rfl rfl
  | create handle path count nodeType owner => exact (s.createCommon_opens handle path count nodeType owner).effect rfl rfl
  | list handle output capacity owner | read handle output offset count owner storage | stat handle output capacity owner =>
    exact .quiet (s.readOut_quiet _ _ _ _ _)
  | write handle input offset count owner => exact s.write_effect handle input offset count owner
  | nodeRights handle owner => exact .quiet (s.nodeRights_quiet handle owner)
  | revoke handle owner => exact s.revoke_effect handle owner
  | rename handle pair sourceCount destinationCount owner =>
    exact s.renameCommon_effect handle pair sourceCount destinationCount owner
  | move sourceHandle destinationHandle pair sourceCount destinationCount owner =>
    exact s.moveCommon_effect sourceHandle destinationHandle pair sourceCount destinationCount owner
  | delete handle path count owner => exact s.deleteCommon_effect handle path count owner

/-! ## Handles -/

theorem step_tree (s : Server) (op : Op) : TreeEffect op s.tree (s.step op).tree := by
  by_cases hop : ∃ o, op = .broker o
  · obtain ⟨o, rfl⟩ := hop
    exact .refl _ s.tree
  have he := s.step_effect op fun o ho => hop ⟨o, ho⟩
  generalize s.step op = s' at he ⊢
  cases he with
  | quiet hq => exact hq.tree ▸ .refl op s.tree
  | changed hq t ht => exact ht
  | granted hq t ht k r hk hr => exact ht
  | revoked handle owner i hop hl => exact .refl op s.tree

/-- What a call does to the table: records leave, and then one record may come in. -/
theorem step_caps (s : Server) (op : Op) :
    Shrinks s.caps (s.step op).caps ∨
      ∃ mid i r, Shrinks s.caps mid ∧ mid.free = some i ∧ Grants s op (s.step op).tree r ∧
        (s.step op).caps = mid.issue i fun _ => r := by
  by_cases hop : ∃ o, op = .broker o
  · obtain ⟨o, rfl⟩ := hop
    exact .inl (.refl _)
  have he := s.step_effect op fun o ho => hop ⟨o, ho⟩
  generalize s.step op = s' at he ⊢
  cases he with
  | quiet hq => exact .inl hq.caps
  | changed hq t ht => exact .inl hq.caps
  | granted hq t ht k r hk hr => exact .inr ⟨_, k, r, hq.caps, hk, hr, rfl⟩
  | revoked handle owner i hop hl => exact .inl (.revoke _ _ _)

end Server

/-- The call issues no handle after the counter has come round. -/
def Fresh (s : Server) (op : Op) : Prop := op.creates = true → s.caps.next ≠ 0

instance (s : Server) (op : Op) : Decidable (Fresh s op) := inferInstanceAs (Decidable (_ → _))

namespace Server

variable {s : Server} {op : Op}

theorem numbered_step (hs : s.caps.Numbered handleBase.toNat) (hnext : Fresh s op) :
    (s.step op).caps.Numbered handleBase.toNat := by
  rcases s.step_caps op with h | ⟨mid, i, r, h, -, hr, heq⟩
  · exact hs.shrinks h
  · rw [heq]
    exact (hs.shrinks h).issue (h.next ▸ hnext hr.creates) (hr.handle.trans h.next.symm)

theorem later_step (hnext : Fresh s op) : s.caps.Later (s.step op).caps := by
  rcases s.step_caps op with h | ⟨mid, i, r, h, -, hr, heq⟩
  · exact .shrinks h
  · rw [heq]
    exact (Later.shrinks h).trans (.issue (h.next ▸ hnext hr.creates) (hr.handle.trans h.next.symm))

end Server

theorem numbered_of_run (catalog : List Manifest) (tick : UInt32) (personas : Personas) (imageSize : UInt32) {ops : List Op}
    (h : Meets step Fresh (boot (Broker.boot catalog tick personas) imageSize) ops) :
    ((boot (Broker.boot catalog tick personas) imageSize).run ops).caps.Numbered handleBase.toNat := by
  refine h.invariant (i := fun s => s.caps.Numbered handleBase.toNat) (fun s op hs hu => numbered_step hs hu) ?_
  refine ⟨?_, ?_, ?_, (by decide : handleBase.toNat ≤ idle.caps.limit)⟩ <;> simp [boot, Record.blank, Handled.active]

end LimitlessOS.Fs
