/-
  LimitlessOS.Fs.Instances — which node a handle stands for.

  A record of the file service has the number of its node. A deleted node gives its number
  back, and the next node that is made takes the first free number, so a record that has
  outlived its node may find another one under the number.

  Proved, for runs in which no node is made at a number that an active record has, and no
  handle is issued after the counter has come round to 0:
  - `Held.step`: a record whose node has gone stays without a node.
  - `sameInstance_of_run`: a handle leads to the record it was issued for, and the node of the
    record has been there all the time; after the node has gone every call with the handle fails.

  `sameInstance_fails`: a file is made in the place of a deleted one, and the handle of the
  deleted file leads to it.
-/
import LimitlessOS.Fs.Steps

namespace LimitlessOS.Fs

open Lib Capability Ramfs Server

/-- The call makes no node at a number that an active record has, and issues no handle after the counter has come
round. -/
def Unreused (s : Server) (op : Op) : Prop :=
  Fresh s op ∧
    (op.adds = true → ∀ k, s.tree.fs.allocateNode = some k →
      ∀ i, (s.caps.slots i).active = true → (s.caps.slots i).nodeId ≠ numberAt k)

instance (s : Server) (op : Op) : Decidable (Unreused s op) := inferInstanceAs (Decidable (_ ∧ _))

/-- What the record in slot `i` of `start` becomes: it leaves, or it stays, and then without a node if it had lost it. -/
structure Held (start : Server) (i : Fin tableLimit) (lost : Bool) (s : Server) : Prop where
  numbered : s.caps.Numbered handleBase.toNat
  later : start.caps.Later s.caps
  lost : lost = true → s.caps.slots i = start.caps.slots i → s.tree.fs.nodeExists (start.caps.slots i).nodeId = false

namespace Held

variable {start s : Server} {i : Fin tableLimit} {lost : Bool} (h : Held start i lost s)
  (hstart : start.caps.Numbered handleBase.toNat) (hi : (start.caps.slots i).active)
include h hstart hi

theorem find {j : Fin tableLimit} (hf : s.caps.find (start.caps.slots i).handle = some j) :
    j = i ∧ s.caps.slots i = start.caps.slots i :=
  h.later.same hstart hi (HandleTable.find_some hf).1 (HandleTable.find_some hf).2

theorem step {op : Op} (hu : Unreused s op) : Held start i lost (s.step op) := by
  refine ⟨numbered_step h.numbered hu.1, h.later.trans (later_step hu.1), fun hlost hslot => ?_⟩
  -- the record was in its slot before the call too
  have hold : (s.step op).caps.slots i = s.caps.slots i := by
    refine (later_step hu.1).slots i (hslot ▸ hi) ?_
    rw [hslot]
    exact (hstart.high i hi).trans_le h.later.limit
  rw [hslot] at hold
  have hgone := h.lost hlost hold.symm
  by_contra hex
  rcases s.step_tree op _ (Bool.not_eq_false _ ▸ hex) with hex | ⟨hadds, k, hk, hnumber⟩
  · simp [hgone] at hex
  · exact hu.2 hadds k hk i (hold ▸ hi) (hold ▸ hnumber)

theorem run {ops : List Op} (hu : Meets Server.step Unreused s ops) :
    Held start i lost (s.run ops) :=
  hu.invariant (fun _ _ hs hop => hs.step hstart hi hop) h

end Held

/-- A handle of `start`, used after the run, stands for the node it stood for. -/
structure SameInstance (start : Server) (ops : List Op) : Prop where
  /-- It leads to the same record, whose node has been there all the time. -/
  node : ∀ i rights owner j, (start.caps.slots i).active = true →
    ((start.run ops).resolveNodeCapability (start.caps.slots i).handle rights owner).1 = some j →
    j = i ∧ (start.run ops).caps.slots i = start.caps.slots i ∧
      ∀ mid rest, ops = mid ++ rest → (start.run mid).tree.fs.nodeExists (start.caps.slots i).nodeId = true
  /-- The same when a node is opened, created, moved or deleted below it. -/
  base : ∀ i rights owner base, (start.caps.slots i).active = true →
    ((start.run ops).resolveBaseNode (start.caps.slots i).handle rights owner).1 = some base → base.parentHandle ≠ 0 →
    base.nodeId = (start.caps.slots i).nodeId ∧
      ∀ mid rest, ops = mid ++ rest → (start.run mid).tree.fs.nodeExists (start.caps.slots i).nodeId = true
  /-- Once the node has been deleted, every call with the handle fails. -/
  gone : ∀ i mid rest, (start.caps.slots i).active = true → ops = mid ++ rest →
    (start.run mid).tree.fs.nodeExists (start.caps.slots i).nodeId = false →
    (∀ output offset count owner storage,
      ((start.run ops).read (start.caps.slots i).handle output offset count owner storage).1 = invalidResult) ∧
    (∀ input offset count owner,
      ((start.run ops).write (start.caps.slots i).handle input offset count owner).1 = invalidResult) ∧
    (∀ output capacity owner, ((start.run ops).stat (start.caps.slots i).handle output capacity owner).1 = invalidResult) ∧
    (∀ output capacity owner, ((start.run ops).list (start.caps.slots i).handle output capacity owner).1 = invalidResult)

/-- In every run that meets the condition, a handle stands for the node it stood for at any earlier time. -/
theorem sameInstance_of_run (catalog : List Manifest) (tick : UInt32) (personas : Personas) (imageSize : UInt32)
    {before after : List Op}
    (h : Meets step Unreused (boot (Broker.boot catalog tick personas) imageSize) (before ++ after)) :
    SameInstance ((boot (Broker.boot catalog tick personas) imageSize).run before) after := by
  obtain ⟨hbefore, hafter⟩ := Meets.append.1 h
  have hstart := numbered_of_run catalog tick personas imageSize (hbefore.imp fun _ _ hu => hu.1)
  change Meets step Unreused ((boot (Broker.boot catalog tick personas) imageSize).run before) after at hafter
  generalize (boot (Broker.boot catalog tick personas) imageSize).run before = start at hstart hafter ⊢
  have hheld : ∀ i, (start.caps.slots i).active → ∀ mid, Meets Server.step Unreused start mid →
      Held start i false (start.run mid) := fun i hi mid hmid =>
    Held.run ⟨hstart, .refl _, by simp⟩ hstart hi hmid
  -- if the record is in its slot and has a node at the end, it has had it all the time
  have hpresent : ∀ i, (start.caps.slots i).active → (start.run after).caps.slots i = start.caps.slots i →
      (start.run after).tree.fs.nodeExists (start.caps.slots i).nodeId →
      ∀ mid rest, after = mid ++ rest → (start.run mid).tree.fs.nodeExists (start.caps.slots i).nodeId := by
    intro i hi hslot hex mid rest hsplit
    subst hsplit
    obtain ⟨hmid, hrest⟩ := Meets.append.1 hafter
    by_contra hgone
    have hat := hheld i hi mid hmid
    have hlost : Held start i true (start.run mid) := ⟨hat.numbered, hat.later, fun _ _ => by simpa using hgone⟩
    rw [Server.run_append] at hslot hex
    have hend := (hlost.run hstart hi hrest).lost rfl hslot
    simp [hex] at hend
  have hnode : ∀ i rights owner j, (start.caps.slots i).active →
      ((start.run after).resolveNodeCapability (start.caps.slots i).handle rights owner).1 = some j →
      j = i ∧ (start.run after).caps.slots i = start.caps.slots i ∧
        ∀ mid rest, after = mid ++ rest → (start.run mid).tree.fs.nodeExists (start.caps.slots i).nodeId := by
    intro i rights owner j hi hj
    have hl := resolveNodeCapability_leads hj
    obtain ⟨rfl, hslot⟩ := (hheld i hi after hafter).find hstart hi hl.found
    exact ⟨rfl, hslot, hpresent j hi hslot (hslot ▸ hl.node)⟩
  refine ⟨hnode, fun i rights owner base hi hbase hparent => ?_, fun i mid rest hi hsplit hgone => ?_⟩
  · obtain ⟨j, hfound, -, hid, hdirectory⟩ := (resolveBaseNode_some hbase).resolve_right fun h => hparent h.2
    obtain ⟨rfl, hslot⟩ := (hheld i hi after hafter).find hstart hi hfound
    rw [hslot] at hid hdirectory
    exact ⟨hid, hpresent j hi hslot (nodeExists_of_nodeIsDirectory hdirectory)⟩
  have hnone : ∀ rights owner,
      ((start.run after).resolveNodeCapability (start.caps.slots i).handle rights owner).1 = none := by
    intro rights owner
    rcases hr : ((start.run after).resolveNodeCapability (start.caps.slots i).handle rights owner).1 with _ | j
    · rfl
    have := (hnode i rights owner j hi hr).2.2 mid rest hsplit
    simp [hgone] at this
  exact ⟨fun _ _ _ owner _ => readOut_none (hnone _ owner), fun _ _ _ owner => write_none (hnone _ owner),
    fun _ _ owner => readOut_none (hnone _ owner), fun _ _ owner => readOut_none (hnone _ owner)⟩

/-- A file is made and opened. -/
def opened : List Op := [.broker (.grantService classRamfs rightSend 0x101), .create 0x6400 (.text "/a") 2 2 0x101]

theorem sameInstance_delete :
    let after := [.delete 0x6400 (.text "/a") 2 0x101, .openNode 0x6400 (.text "/APPS") 5 0x101 .absent]
    (((idle.run opened).caps.slots 0).handle = 0x6600 ∧
      ((idle.run opened).run after).tree.fs.nodeExists ((idle.run opened).caps.slots 0).nodeId = false) ∧
    SameInstance (idle.run opened) after :=
  ⟨by decide +kernel, sameInstance_of_run [] 0 _ 0 (by decide +kernel)⟩

/-- The file is deleted, and another file made. -/
def replaced : List Op := [.delete 0x6400 (.text "/a") 2 0x101, .create 0x6400 (.text "/b") 2 2 0x101]

theorem sameInstance_fails : ¬ SameInstance (idle.run opened) replaced := by
  intro h
  have hnode := (h.node 0 rightRead 0x101 0 (by decide +kernel) (by decide +kernel)).2.2
    [.delete 0x6400 (.text "/a") 2 0x101] [.create 0x6400 (.text "/b") 2 2 0x101] rfl
  exact absurd hnode (by decide +kernel)

end LimitlessOS.Fs
