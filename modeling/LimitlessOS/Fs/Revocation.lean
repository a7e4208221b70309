/-
  LimitlessOS.Fs.Revocation — what a revocation takes along.

  A node may be opened through another node handle, so the handles that a run gives out
  form a forest. Revoking a handle clears its record and the records that name the handle
  as their parent, in one pass over the table.

  Proved, for runs that issue no handle after the counter has come round to 0:
  - `Lineage.snoc`: the parent that a record names is the handle it was opened through.
  - `cascades_iff`: a revocation takes exactly the handles that were opened through its
    own, directly or not, if and only if no live handle was opened at second hand.

  `cascades_fails`: a directory, a directory opened through it and a file opened through that
  one; revoking the first leaves the file open.
-/
import LimitlessOS.Fs.Steps

namespace LimitlessOS.Fs

open Lib Capability Ramfs Relation Server List

/-- The call issues the handle `c`, and `p` is the node handle it was given as the base. -/
structure OpenedBy (s : Server) (op : Op) (c p : UInt32) : Prop where
  base : op.base = p
  node : (s.caps.find p).isSome = true
  issued : (s.step op).caps.next ≠ s.caps.next
  handle : s.caps.next = c

/-- In the run, `c` was opened through `p`. -/
def Through (start : Server) (ops : List Op) (c p : UInt32) : Prop :=
  ∃ before op after, ops = before ++ op :: after ∧ OpenedBy (start.run before) op c p

theorem through_snoc {start : Server} {ops : List Op} {op : Op} {c p : UInt32} :
    Through start (ops ++ [op]) c p ↔ Through start ops c p ∨ OpenedBy (start.run ops) op c p := by
  constructor
  · intro ⟨before, o, after, hsplit, h⟩
    rcases eq_nil_or_concat after with rfl | ⟨after, last, rfl⟩
    · obtain ⟨rfl, hop⟩ := append_inj' hsplit rfl
      cases hop
      exact .inr h
    · rw [concat_eq_append, ← cons_append, ← append_assoc] at hsplit
      obtain ⟨rfl, -⟩ := append_inj' hsplit rfl
      exact .inl ⟨before, o, after, rfl, h⟩
  · intro h
    rcases h with ⟨before, o, after, rfl, h⟩ | h
    · exact ⟨before, o, after ++ [op], by simp, h⟩
    · exact ⟨ops, op, [], rfl, h⟩

/-- How the table and the history of the run fit together. -/
structure Lineage (start : Server) (ops : List Op) : Prop where
  numbered : (start.run ops).caps.Numbered handleBase.toNat
  /-- A parent is the handle the record was opened through. -/
  parent : ∀ j, ((start.run ops).caps.slots j).active = true → ((start.run ops).caps.slots j).parentHandle ≠ 0 →
    Through start ops ((start.run ops).caps.slots j).handle ((start.run ops).caps.slots j).parentHandle
  /-- Handles come after those they are opened through, and before the counter. -/
  older : ∀ c p, Through start ops c p → p ≠ 0 ∧ p.toNat < c.toNat ∧ c.toNat < (start.run ops).caps.limit
  /-- A handle has one record, which names the handle it was opened through. -/
  record : ∀ c p j, Through start ops c p → ((start.run ops).caps.slots j).active = true →
    ((start.run ops).caps.slots j).handle = c → ((start.run ops).caps.slots j).parentHandle = p

namespace Lineage

variable {start : Server} {ops : List Op}

section

variable (h : Lineage start ops) {op : Op}
include h

/-- A call that issues no handle adds nothing to the history. -/
theorem shrinks (hs : HandleTable.Shrinks (start.run ops).caps ((start.run ops).step op).caps) :
    Lineage start (ops ++ [op]) := by
  have hthrough : ∀ c p, Through start (ops ++ [op]) c p ↔ Through start ops c p := by
    intro c p
    rw [through_snoc]
    exact or_iff_left fun ho => ho.issued hs.next
  have hrun : start.run (ops ++ [op]) = (start.run ops).step op := run_append start ops [op]
  have hlimit : ((start.run ops).step op).caps.limit = (start.run ops).caps.limit := by
    unfold HandleTable.limit
    rw [hs.next]
  refine ⟨?_, fun j hj hp => ?_, fun c p hcp => ?_, fun c p j hcp hj hc => ?_⟩
  · rw [hrun]
    exact h.numbered.shrinks hs
  · rw [hrun] at hj hp ⊢
    have hk := hs.kept hj
    rw [hk] at hj hp ⊢
    exact (hthrough _ _).2 (h.parent j hj hp)
  · rw [hrun, hlimit]
    exact h.older c p ((hthrough c p).1 hcp)
  · rw [hrun] at hj hc ⊢
    have hk := hs.kept hj
    rw [hk] at hj hc ⊢
    exact h.record c p j ((hthrough c p).1 hcp) hj hc

theorem issue (hnext : (start.run ops).caps.next ≠ 0) {mid : HandleTable tableLimit Record} {i : Fin tableLimit} {r : Record}
    {t : Tree} (hs : HandleTable.Shrinks (start.run ops).caps mid) (hr : Grants (start.run ops) op t r)
    (heq : ((start.run ops).step op).caps = mid.issue i fun _ => r) : Lineage start (ops ++ [op]) := by
  have hrun : start.run (ops ++ [op]) = (start.run ops).step op := run_append start ops [op]
  have hold : (start.run ops).caps.limit = (start.run ops).caps.next.toNat := HandleTable.limit_of_ne hnext
  have hlimit : ((start.run ops).step op).caps.limit = (start.run ops).caps.next.toNat + 1 := by
    rw [heq, HandleTable.limit_issue, hs.next]
  have hissued : ((start.run ops).step op).caps.next ≠ (start.run ops).caps.next := by
    rw [heq, HandleTable.issue, hs.next]
    simp
  have hslots : ∀ j, ((start.run ops).step op).caps.slots j = if j = i then r else mid.slots j := fun j => by
    rw [heq, HandleTable.issue_slots]
  -- a record that was there before has an older handle than the new one
  have hother : ∀ j, (mid.slots j).active → mid.slots j = (start.run ops).caps.slots j ∧
      (mid.slots j).handle.toNat < (start.run ops).caps.next.toNat := by
    intro j hj
    have hk := hs.kept hj
    rw [hk] at hj ⊢
    exact ⟨rfl, hold ▸ h.numbered.high j hj⟩
  refine ⟨?_, fun j hj hp => ?_, fun c p hcp => ?_, fun c p j hcp hj hc => ?_⟩
  · rw [hrun]
    exact numbered_step h.numbered fun _ => hnext
  · rw [hrun, hslots] at hj hp ⊢
    rw [through_snoc]
    split_ifs at hj with hji
    · rw [if_pos hji, hr.parent, parentOf] at hp ⊢
      split_ifs at hp with hnode
      · rw [if_pos hnode]
        exact .inr ⟨rfl, hnode, hissued, hr.handle.symm⟩
      · exact absurd rfl hp
    · rw [if_neg hji] at hp ⊢
      have hk := (hother j hj).1
      rw [hk] at hj hp ⊢
      exact .inl (h.parent j hj hp)
  · rw [hrun, hlimit]
    rcases through_snoc.1 hcp with hcp | ho
    · have := h.older c p hcp
      exact ⟨this.1, this.2.1, by omega⟩
    obtain ⟨k, hk⟩ := Option.isSome_iff_exists.1 ho.node
    obtain ⟨hactive, hhandle⟩ := HandleTable.find_some hk
    have hlow := h.numbered.low k hactive
    have hhigh := h.numbered.high k hactive
    rw [hhandle] at hlow hhigh
    rw [← ho.handle]
    refine ⟨?_, hold ▸ hhigh, Nat.lt_succ_self _⟩
    rintro rfl
    exact absurd hlow (by decide)
  · rw [hrun, hslots] at hj hc ⊢
    rcases through_snoc.1 hcp with hcp | ho
    · split_ifs at hj with hji
      · rw [if_pos hji, hr.handle] at hc
        have := (h.older c p hcp).2.2
        rw [hold, hc] at this
        exact absurd this (lt_irrefl _)
      · rw [if_neg hji] at hc ⊢
        have hk := (hother j hj).1
        rw [hk] at hj hc ⊢
        exact h.record c p j hcp hj hc
    · split_ifs at hj with hji
      · rw [if_pos hji, hr.parent, parentOf, ho.base, if_pos ho.node]
      · rw [if_neg hji] at hc
        have := (hother j hj).2
        rw [hc, ho.handle] at this
        exact absurd this (lt_irrefl _)

theorem snoc (hf : Fresh (start.run ops) op) : Lineage start (ops ++ [op]) := by
  rcases (start.run ops).step_caps op with hs | ⟨mid, i, r, hs, -, hr, heq⟩
  · exact h.shrinks hs
  · exact h.issue (hf hr.creates) hs hr heq

theorem trans_lt {c p : UInt32} (hcp : TransGen (Through start ops) c p) : p.toNat < c.toNat := by
  induction hcp with
  | single hcp => exact (h.older _ _ hcp).2.1
  | tail _ hcp ih => exact (h.older _ _ hcp).2.1.trans ih

end

end Lineage

theorem lineage_of_run (catalog : List Manifest) (tick : UInt32) (personas : Personas) (imageSize : UInt32) {ops : List Op}
    (h : Meets step Fresh (boot (Broker.boot catalog tick personas) imageSize) ops) :
    Lineage (boot (Broker.boot catalog tick personas) imageSize) ops := by
  induction ops using reverseRecOn with
  | nil =>
    refine ⟨numbered_of_run catalog tick personas imageSize h, fun j hj => ?_, fun c p hcp => ?_, fun c p j hcp => ?_⟩
    · simp [Server.run, Server.boot, Record.blank] at hj
    · obtain ⟨before, op, after, hsplit, -⟩ := hcp
      simp at hsplit
    · obtain ⟨before, op, after, hsplit, -⟩ := hcp
      simp at hsplit
  | append_singleton ops op ih =>
    obtain ⟨hops, hop⟩ := Meets.append.1 h
    exact (ih hops).snoc hop.1

/-- Revoking the handle takes its record and those opened through it, directly or not, and no others. -/
def Cascades (start : Server) (ops : List Op) (handle owner : UInt32) : Prop :=
  ∀ j, (((start.run ops).revoke handle owner).2.caps.slots j).active = true ↔
    ((start.run ops).caps.slots j).active = true ∧ ((start.run ops).caps.slots j).handle ≠ handle ∧
      ¬ TransGen (Through start ops) ((start.run ops).caps.slots j).handle handle

/-- A live handle was opened through one that was itself opened through `handle`. -/
def SecondHand (start : Server) (ops : List Op) (handle : UInt32) : Prop :=
  ∃ j p, ((start.run ops).caps.slots j).active = true ∧ Through start ops ((start.run ops).caps.slots j).handle p ∧
    TransGen (Through start ops) p handle

/-- A revocation that succeeds takes the records that name the handle as their parent. -/
theorem revoke_one {s : Server} {handle owner : UInt32} (h : (s.revoke handle owner).1 = 1) :
    ∃ i, s.caps.find handle = some i ∧ (s.revoke handle owner).2.caps = s.caps.revoke i handle := by
  unfold revoke at h ⊢
  rcases s.resolveNodeCapability_spec handle 0 owner with ⟨i, hl, -, heq⟩ | ⟨i, -, -, heq⟩ | ⟨-, heq⟩ <;> rw [heq] at h ⊢
  · exact ⟨i, hl.found, rfl⟩
  · exact absurd h (by simp)
  · exact absurd h (by simp)

/-- In every run that issues no handle after the counter has come round, a revocation takes along what it should if and
only if no live handle was opened at second hand. -/
theorem cascades_iff (catalog : List Manifest) (tick : UInt32) (personas : Personas) (imageSize : UInt32) {ops : List Op}
    {handle owner : UInt32} (h : Meets step Fresh (boot (Broker.boot catalog tick personas) imageSize) ops)
    (hok : (((boot (Broker.boot catalog tick personas) imageSize).run ops).revoke handle owner).1 = 1) :
    Cascades (boot (Broker.boot catalog tick personas) imageSize) ops handle owner ↔
      ¬ SecondHand (boot (Broker.boot catalog tick personas) imageSize) ops handle := by
  have hl := lineage_of_run catalog tick personas imageSize h
  generalize boot (Broker.boot catalog tick personas) imageSize = start at hl hok ⊢
  obtain ⟨i, hfound, hcaps⟩ := revoke_one hok
  obtain ⟨hi, hhandle⟩ := HandleTable.find_some hfound
  have hactive : ∀ j, (((start.run ops).revoke handle owner).2.caps.slots j).active ↔
      ((start.run ops).caps.slots j).active ∧ ((start.run ops).caps.slots j).handle ≠ handle ∧
        ((start.run ops).caps.slots j).parentHandle ≠ handle := by
    intro j
    rw [hcaps]
    refine ((start.run ops).caps.revoke_active i handle j).trans (and_congr_right fun hj => and_congr_left' (not_congr ?_))
    refine ⟨fun hji => hji ▸ hhandle, fun he => hl.numbered.distinct j i hj hi (he.trans hhandle.symm)⟩
  constructor
  · intro hcascades ⟨j, p, hj, hthrough, htrans⟩
    have hall := TransGen.head hthrough htrans
    -- the record is not opened through the handle itself, so the pass over the table leaves it
    have hstays := (hactive j).2 ⟨hj, fun he => ?_, fun he => ?_⟩
    · exact ((hcascades j).1 hstays).2.2 hall
    · exact absurd (hl.trans_lt hall) (by simp [he])
    · rw [hl.record _ p j hthrough hj rfl] at he
      exact absurd (hl.trans_lt htrans) (by simp [he])
  · intro hno j
    rw [hactive]
    refine and_congr_right fun hj => and_congr_right fun hne => not_congr ⟨fun hp => ?_, fun htrans => ?_⟩
    · rw [← hp]
      refine .single (hl.parent j hj ?_)
      rw [hp, ← hhandle]
      intro h0
      exact absurd (h0 ▸ hl.numbered.low i hi) (by decide)
    · rcases TransGen.head'_iff.1 htrans with ⟨p, hthrough, hrest⟩
      rcases reflTransGen_iff_eq_or_transGen.1 hrest with rfl | hrest
      · exact hl.record _ _ j hthrough hj rfl
      · exact absurd ⟨j, p, hj, hthrough, hrest⟩ hno

/-- A directory is opened, and a directory made in it. -/
def inner : List Op :=
  [.broker (.grantService classRamfs rightSend 0x101), .openNode 0x6400 (.text "/APPS") 5 0x101 .absent,
    .create 0x6600 (.text "d") 1 1 0x101]

theorem cascades_inner :
    ((idle.run inner).revoke 0x6600 0x101).1 = 1 ∧
      (Cascades idle inner 0x6600 0x101 ↔ ¬ SecondHand idle inner 0x6600) :=
  ⟨by decide +kernel, cascades_iff [] 0 _ 0 (by decide +kernel) (by decide +kernel)⟩

/-- A file is made in the inner directory. -/
def nested : List Op := inner ++ [.create 0x6601 (.text "f") 1 2 0x101]

theorem cascades_fails : ¬ Cascades idle nested 0x6600 0x101 := by
  intro h
  have hgone := ((h 2).1 (by decide +kernel)).2.2
  have hfile : Through idle nested 0x6602 0x6601 :=
    ⟨inner, .create 0x6601 (.text "f") 1 2 0x101, [], rfl, rfl, by decide +kernel, by decide +kernel, by decide +kernel⟩
  have hdirectory : Through idle nested 0x6601 0x6600 :=
    ⟨inner.take 2, .create 0x6600 (.text "d") 1 1 0x101, [.create 0x6601 (.text "f") 1 2 0x101], rfl, rfl,
      by decide +kernel, by decide +kernel, by decide +kernel⟩
  have hhandle : ((idle.run nested).caps.slots 2).handle = 0x6602 := by decide +kernel
  rw [hhandle] at hgone
  exact hgone (.tail (.single hfile) hdirectory)

end LimitlessOS.Fs
