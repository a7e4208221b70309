/-
  LimitlessOS.Fs.Handles — node handles and capability handles.

  The file service and the broker count their handles up from 0x6600 and 0x6400, and a
  base handle is looked up in the table of the service first. No number may stand for a
  record in both tables.

  Proved, for runs in which a counter that stands at a number in use in the other table
  issues no handle:
  - `Disjoint.step`: no number is in use twice.
  - `separate_of_run`: so a service capability never resolves to a node, nor a node handle to a service.

  `separate_fails`: the 513th capability gets the number of the first node handle.
-/
import LimitlessOS.Capability.Lifetime
import LimitlessOS.Fs.Steps

namespace LimitlessOS.Fs

open Lib Capability Ramfs Server HandleTable

/-- No number is the handle of a record in both tables. -/
def Disjoint (s : Server) : Prop :=
  ∀ i j, (s.caps.slots i).active = true → (s.broker.caps.slots j).active = true →
    (s.caps.slots i).handle ≠ (s.broker.caps.slots j).handle

/-- A call that issues a handle finds its counter at a number that is not in use in the other table. -/
def Apart (s : Server) : Op → Prop
  | .broker op => op.issues = true → ∀ i, (s.caps.slots i).active = true → (s.caps.slots i).handle ≠ s.broker.caps.next
  | op => op.creates = true → ∀ j, (s.broker.caps.slots j).active = true → (s.broker.caps.slots j).handle ≠ s.caps.next

instance (s : Server) (op : Op) : Decidable (Apart s op) :=
  have : Decidable (∀ i, (s.caps.slots i).active = true → (s.caps.slots i).handle ≠ s.broker.caps.next) :=
    Nat.decidableForallFin _
  have : Decidable (∀ j, (s.broker.caps.slots j).active = true → (s.broker.caps.slots j).handle ≠ s.caps.next) :=
    Nat.decidableForallFin _
  match op with
  | .broker _ => inferInstanceAs (Decidable (_ → _))
  | .openNode .. | .create .. | .list .. | .read .. | .write .. | .stat .. | .nodeRights .. | .revoke .. | .rename .. | .move ..
  | .delete .. => inferInstanceAs (Decidable (_ → _))

theorem apart_creates {s : Server} {op : Op} (hc : op.creates) (ha : Apart s op) :
    ∀ j, (s.broker.caps.slots j).active → (s.broker.caps.slots j).handle ≠ s.caps.next := by
  cases op <;> first | exact ha hc | exact absurd hc (by simp [Op.creates])

/-- The two kinds of handles do not stand for each other. -/
structure Separate (s : Server) : Prop where
  disjoint : Disjoint s
  /-- A service capability leads to the root, or nowhere. -/
  service : ∀ j rights owner base, (s.broker.caps.slots j).active = true →
    (s.resolveBaseNode (s.broker.caps.slots j).handle rights owner).1 = some base →
    base.nodeId = nodeRoot ∧ base.parentHandle = 0
  /-- A service capability is not a node handle. -/
  unresolved : ∀ j rights owner, (s.broker.caps.slots j).active = true →
    (s.resolveNodeCapability (s.broker.caps.slots j).handle rights owner).1 = none
  /-- A node handle does not route. -/
  node : ∀ i rights caller, (s.caps.slots i).active = true →
    (s.broker.route (s.caps.slots i).handle rights caller).1 = invalidResult

namespace Disjoint

variable {s : Server}

theorem find_none (h : Disjoint s) {j : Fin Capability.tableLimit} (hj : (s.broker.caps.slots j).active) :
    s.caps.find (s.broker.caps.slots j).handle = none := by
  rcases hf : s.caps.find (s.broker.caps.slots j).handle with _ | i
  · rfl
  obtain ⟨hi, hh⟩ := find_some hf
  exact absurd hh (h i j hi hj)

theorem separate (h : Disjoint s) : Separate s where
  disjoint := h
  service j rights owner base hj hbase := by
    unfold resolveBaseNode at hbase
    rw [h.find_none hj] at hbase
    dsimp only at hbase
    split_ifs at hbase
    obtain rfl : _ = base := Option.some.inj hbase
    exact ⟨rfl, rfl⟩
  unresolved j rights owner hj := by
    rcases s.resolveNodeCapability_spec (s.broker.caps.slots j).handle rights owner with
      ⟨i, hl, -, -⟩ | ⟨i, hl, -, heq⟩ | ⟨-, heq⟩
    · exact absurd (h.find_none hj) (by simp [hl.found])
    · rw [heq]
    · rw [heq]
  node i rights caller hi := by
    rw [Broker.route_result]
    rcases hf : s.broker.caps.find (s.caps.slots i).handle with _ | j
    · rfl
    obtain ⟨hj, hh⟩ := find_some hf
    exact absurd hh.symm (h i j hi hj)

theorem shrinks (h : Disjoint s) {s' : Server} (hb : Shrinks s.broker.caps s'.broker.caps)
    (hc : Shrinks s.caps s'.caps) : Disjoint s' := by
  intro i j hi hj
  have hi' := hc.kept hi
  have hj' := hb.kept hj
  rw [hi'] at hi ⊢
  rw [hj'] at hj ⊢
  exact h i j hi hj

theorem step (h : Disjoint s) {op : Op} (ha : Apart s op) : Disjoint (s.step op) := by
  by_cases hop : ∃ o, op = .broker o
  · obtain ⟨o, rfl⟩ := hop
    intro i j hi hj
    change ((s.broker.step o).caps.slots j).active = true at hj
    change (s.caps.slots i).handle ≠ ((s.broker.step o).caps.slots j).handle
    rcases Broker.step_active s.broker o hj with heq | hg | ⟨k, -, hd⟩
    · rw [heq] at hj ⊢
      exact h i j hi hj
    · exact hg.handle ▸ ha hg.issues i hi
    · exact hd.handle ▸ ha hd.issues i hi
  · have he := s.step_effect op fun o ho => hop ⟨o, ho⟩
    generalize s.step op = s' at he ⊢
    cases he with
    | quiet hq | changed hq t ht => exact h.shrinks hq.brokerCaps hq.caps
    | granted hq t ht k r hk hr =>
      have hmid := h.shrinks hq.brokerCaps hq.caps
      intro i j hi hj
      rw [issue_slots] at hi ⊢
      split_ifs with hik
      · rw [hr.handle]
        have hj' := hq.brokerCaps.kept hj
        rw [hj'] at hj ⊢
        exact Ne.symm (apart_creates hr.creates ha j hj)
      · rw [if_neg hik] at hi
        exact hmid i j hi hj
    | revoked handle owner i hop hl => exact h.shrinks (.refl _) (.revoke _ _ _)

end Disjoint

/-- In every run that issues no handle at a number in use in the other table, the two kinds of handles are separate. -/
theorem separate_of_run (catalog : List Manifest) (tick : UInt32) (personas : Personas) (imageSize : UInt32) {ops : List Op}
    (h : Meets step Apart (boot (Broker.boot catalog tick personas) imageSize) ops) :
    Separate ((boot (Broker.boot catalog tick personas) imageSize).run ops) := by
  have hboot : Disjoint (boot (Broker.boot catalog tick personas) imageSize) := by
    intro i j hi
    simp [boot, Record.blank] at hi
  exact (h.invariant (fun s op hs ha => hs.step ha) hboot).separate

theorem separate_open :
    let ops := [.broker (.grantService classRamfs rightSend 0x101), .openNode 0x6400 (.text "/APPS") 5 0x101 .absent]
    ((idle.run ops).caps.slots 0).handle = 0x6600 ∧ Separate (idle.run ops) :=
  ⟨by decide +kernel, separate_of_run [] 0 _ 0 (by decide +kernel)⟩

/-- So many capabilities come and go that the counter of the broker is one below the other; then a capability for the
filesystem, a node opened through it, and one more capability. -/
def meeting : List Op :=
  (Broker.visits (0x1FE + 1)).map .broker ++
    [.broker (.grantService classRamfs rightSend 0x101), .openNode 0x65FF (.text "/APPS") 5 0x101 .absent,
      .broker (.grantService classRamfs rightSend 0x101)]

theorem run_visits (n : Nat) (ops : List Op) :
    idle.run ((Broker.visits (n + 1)).map .broker ++ ops) =
      ({ idle with broker := { Broker.idle with caps := Broker.visited (Capability.handleBase + UInt32.ofNat n) } } :
        Server).run ops := by
  rw [run_append, run_broker]
  exact congrArg (fun b => run { idle with broker := b } ops) (Broker.run_visits n)

theorem separate_fails : ¬ Separate (idle.run meeting) := by
  intro h
  have hd := h.disjoint 0 1
  rw [meeting, run_visits 0x1FE] at hd
  exact absurd hd (by decide +kernel)

end LimitlessOS.Fs
