/-
  LimitlessOS.Fd.Slots — the slots of the file service.

  The table of the file service has 32 slots. A slot is given back when a node handle is
  revoked, by its owner or with the last descriptor that is open on it. The revocation
  resolves the handle first, and a handle whose node has been deleted does not resolve.

  Proved:
  - `revoke_frees_iff`, `close_frees_iff`: when a revocation, or the close of a last
    descriptor, gives back exactly one slot.
  - `Settled.step`: if nodes are deleted only after their handles have been closed, every
    record in the table has a handle or a descriptor that is not closed yet.
  - `slots_settled`: both, and so the table is empty after everything has been closed.

  `slots_fail`: a file is opened, deleted and closed, and its slot stays in use.
-/
import LimitlessOS.Fd.Steps
import LimitlessOS.Fs.Steps

namespace LimitlessOS.Fd

open Lib Capability Fs HandleTable Files Option UInt32 List Handled Slots

/-! ## Closing -/

/-- The number of records in the table goes down by one. -/
def FreesOne (s s' : Server) : Prop := s'.caps.liveCount + 1 = s.caps.liveCount

/-- The record in slot `i` leaves the table alone: it is stale, or no other record was opened through it. -/
def Alone (s : Server) (i : Fin Fs.tableLimit) (handle : UInt32) : Prop :=
  (s.caps.slots i).current s.broker.launch = true →
    ∀ j, j ≠ i → (s.caps.slots j).active = true → (s.caps.slots j).parentHandle ≠ handle

theorem not_freesOne (s : Server) : ¬ FreesOne s s := Nat.succ_ne_self _

theorem revoke_frees_iff (s : Server) (handle owner : UInt32) :
    FreesOne s (s.revoke handle owner).2 ↔ ∃ i, Server.Leads s handle 0 owner i ∧ Alone s i handle := by
  unfold Server.revoke
  rcases s.resolveNodeCapability_spec handle 0 owner with ⟨i, hl, hc, heq⟩ | ⟨i, hl, hc, heq⟩ | ⟨hno, heq⟩ <;> rw [heq] <;>
    dsimp only
  · have hi := (find_some hl.found).1
    have hactive := s.caps.revoke_active i handle
    have hgone : active ((s.caps.revoke i handle).slots i) = false := by
      by_contra h
      exact ((hactive i).1 (Bool.not_eq_false _ ▸ h)).2.1 rfl
    have hcount := count_succ_iff (fun j hj => ((hactive j).1 hj).1) hi hgone
    refine hcount.trans ⟨fun h => ⟨i, hl, fun _ j hji hj => ((hactive j).1 (h j hji hj)).2.2⟩, fun h j hji hj => ?_⟩
    obtain ⟨i', hl', halone⟩ := h
    obtain rfl : i = i' := mem_unique hl.found hl'.found
    exact (hactive j).2 ⟨hj, hji, halone hc j hji hj⟩
  · have hi := (find_some hl.found).1
    refine iff_of_true ?_ ⟨i, hl, fun h => by simp [hc] at h⟩
    have hcount := count_update s.caps.slots active i (clear (s.caps.slots i))
    rwa [hi, active_clear] at hcount
  · exact iff_of_false (not_freesOne s) fun ⟨i, hl, _⟩ => hno i hl

/-- The descriptor is the only one of its process on a node handle. -/
structure LastDescriptor (f : Files) (pid fd : UInt32) (t : Table) (i : Fin Fd.tableLimit) : Prop where
  table : ∃ k, f.tableForProcess pid = some (k, t)
  index : i.val = fd.toNat
  active : (t.entries i).active = true
  type : (t.entries i).fdType = .ramfsNode
  last : t.sharedEntryCount (t.entries i).capabilityHandle (t.entries i).fdType ≤ 1

variable {i : Fin Fd.tableLimit} {pid fd : UInt32} {f : Files} {t : Table}

theorem close_frees_iff (h : LastDescriptor f pid fd t i) :
    (f.close pid fd).1 = 1 ∧
      (FreesOne f.server (f.close pid fd).2.server ↔
        (t.entries i).refCount ≤ 1 ∧
          ∃ j, Server.Leads f.server (t.entries i).capabilityHandle 0 t.ownerId j ∧
            Alone f.server j (t.entries i).capabilityHandle) := by
  obtain ⟨⟨k, ht⟩, hindex, hactive, htype, hlast⟩ := h
  have hfd : fd.toNat < Fd.tableLimit := hindex ▸ i.isLt
  obtain rfl : i = ⟨fd.toNat, hfd⟩ := Fin.ext hindex
  unfold close
  rw [ht]
  dsimp only
  rw [dif_pos hfd, if_neg (by simp [hactive]), if_neg (Nat.not_lt.2 hlast)]
  split_ifs with hcount
  · exact ⟨rfl, iff_of_false (not_freesOne _) fun h => absurd h.1 (UInt32.not_le.2 hcount)⟩
  · refine ⟨rfl, ?_⟩
    rw [and_iff_right (UInt32.not_lt.1 hcount)]
    simp only [revokeEntryCapability, htype]
    exact revoke_frees_iff f.server _ _

/-! ## Books -/

/-- The system, and the node handles that were given out directly and have not been closed. -/
structure Books where
  files : Files
  held : List UInt32

/-- The record of the handle belongs to someone else. -/
def foreign (s : Server) (handle owner : UInt32) : Bool :=
  match s.caps.find handle with
  | none => false
  | some i => (s.caps.slots i).ownerId ≠ owner

/-- An open or a create gives out a handle, a revocation closes it unless it is someone else's. -/
def heldAfter (s : Server) (held : List UInt32) : Fs.Op → List UInt32
  | .revoke handle owner => if foreign s handle owner then held else held.filter (· ≠ handle)
  | op => if op.creates ∧ s.reply op ≠ invalidResult then s.reply op :: held else held

def Books.step (b : Books) (op : Op) : Books where
  files := b.files.step op
  held :=
    match op with
    | .fs op => heldAfter b.files.server b.held op
    | _ => b.held

def Books.boot (server : Server) : Books := { files := .boot server, held := [] }

/-- Every handle and every descriptor on a node has been closed. -/
def Books.AllClosed (b : Books) : Prop :=
  b.held = [] ∧ ∀ k, ∀ t ∈ b.files.tables k, ∀ fd, (t.entries fd).active = true → (t.entries fd).fdType ≠ .ramfsNode

/-- If the owner has a record with the handle, its node is there. -/
def NodeThere (s : Server) (handle owner : UInt32) : Prop :=
  ∀ i, s.caps.find handle = some i → (s.caps.slots i).ownerId = owner →
    s.tree.fs.nodeExists (s.caps.slots i).nodeId = true

/-- The node handle that the close of a last descriptor revokes, and its owner. -/
def Files.closing (f : Files) (pid fd : UInt32) : Option (UInt32 × UInt32) :=
  match f.tableForProcess pid with
  | none => none
  | some (_, t) =>
    if hfd : fd.toNat < Fd.tableLimit then
      let e := t.entries ⟨fd.toNat, hfd⟩
      if e.active ∧ e.fdType = .ramfsNode ∧ t.sharedEntryCount e.capabilityHandle e.fdType ≤ 1 then
        some (e.capabilityHandle, t.ownerId)
      else none
    else none

/-- Handles are issued before the counter comes to the value that stands for a failure, and closed before their nodes
are deleted. -/
def Orderly (b : Books) : Op → Prop
  | .fs (.revoke handle owner) => NodeThere b.files.server handle owner
  | .fs op => op.creates = true → b.files.server.caps.next ≠ 0 ∧ b.files.server.caps.next ≠ invalidResult
  | .openRamfs .. => b.files.server.caps.next ≠ 0 ∧ b.files.server.caps.next ≠ invalidResult
  | .close pid fd | .dup2 pid _ fd _ => ∀ p ∈ b.files.closing pid fd, NodeThere b.files.server p.1 p.2
  | _ => True

instance (b : Books) : Decidable b.AllClosed := inferInstanceAs (Decidable (_ ∧ _))

-- Both look at the one record or descriptor in question: a search through the table would run the calls again at
-- every slot.
instance (s : Server) (handle owner : UInt32) : Decidable (NodeThere s handle owner) :=
  match h : s.caps.find handle with
  | none => isTrue (by intro i hi; rw [h] at hi; cases hi)
  | some i =>
    decidable_of_iff ((s.caps.slots i).ownerId = owner → s.tree.fs.nodeExists (s.caps.slots i).nodeId = true)
      (by simp [NodeThere, h])

instance (f : Files) (pid fd : UInt32) : Decidable (∀ p ∈ f.closing pid fd, NodeThere f.server p.1 p.2) :=
  match f.closing pid fd with
  | none => isTrue (by intro p hp; cases hp)
  | some p => decidable_of_iff (NodeThere f.server p.1 p.2) (by simp)

instance (b : Books) (op : Op) : Decidable (Orderly b op) :=
  match op with
  | .fs op => by cases op <;> unfold Orderly <;> infer_instance
  | .claimTable .. | .alloc .. | .dup .. => isTrue trivial
  | .openRamfs .. => inferInstanceAs (Decidable (_ ∧ _))
  | .close pid fd | .dup2 pid _ fd _ =>
    inferInstanceAs (Decidable (∀ p ∈ b.files.closing pid fd, NodeThere b.files.server p.1 p.2))

/-! ## Records and what is not closed -/

/-- A descriptor of the owner is open on the handle. -/
def Described (f : Files) (owner handle : UInt32) : Prop :=
  ∃ k t, f.tables k = some t ∧ t.ownerId = owner ∧ t.OpenOn handle

structure Settled (b : Books) : Prop where
  numbered : b.files.server.caps.Numbered Fs.handleBase.toNat
  owners : ∀ j, (b.files.server.caps.slots j).active = true →
    principalIsActive (b.files.server.caps.slots j).ownerId = true
  home : ∀ k t, b.files.tables k = some t → b.files.attached t.pid = some k
  counted : ∀ k t, b.files.tables k = some t → t.Counted
  covered : ∀ j, (b.files.server.caps.slots j).active = true →
    (b.files.server.caps.slots j).handle ∈ b.held ∨
      Described b.files (b.files.server.caps.slots j).ownerId (b.files.server.caps.slots j).handle

theorem revoke_shrinks (s : Server) (handle owner : UInt32) : Shrinks s.caps (s.revoke handle owner).2.caps := by
  rcases s.step_caps (.revoke handle owner) with h | ⟨_, _, _, _, _, hr, _⟩
  · exact h
  · exact absurd hr.creates (by simp [Fs.Op.creates])

/-- A revocation with the node there takes the record. -/
theorem revoke_gone {s : Server} (hnumbered : s.caps.Numbered Fs.handleBase.toNat)
    (howners : ∀ j, (s.caps.slots j).active → principalIsActive (s.caps.slots j).ownerId)
    {handle owner : UInt32} (hthere : NodeThere s handle owner) {j : Fin Fs.tableLimit}
    (hj : ((s.revoke handle owner).2.caps.slots j).active) (hhandle : (s.caps.slots j).handle = handle)
    (howner : (s.caps.slots j).ownerId = owner) : False := by
  have hbefore : (s.caps.slots j).active := (revoke_shrinks s handle owner).kept hj ▸ hj
  have hfound : s.caps.find handle = some j := hhandle ▸ hnumbered.find_handle hbefore
  have hleads : Server.Leads s handle 0 owner j :=
    ⟨howner ▸ howners j hbefore, hfound, howner, by simp, hthere j hfound howner⟩
  unfold Server.revoke at hj
  rcases s.resolveNodeCapability_spec handle 0 owner with ⟨i, hl, -, heq⟩ | ⟨i, hl, -, heq⟩ | ⟨hno, -⟩
  · obtain rfl : i = j := mem_unique hl.found hfound
    rw [heq] at hj
    exact ((s.caps.revoke_active i handle i).1 hj).2.1 rfl
  · obtain rfl : i = j := mem_unique hl.found hfound
    simp only [heq] at hj
    rw [drop_slots, if_pos rfl] at hj
    exact absurd hj (by simp [clear, Fs.Record.clear])
  · exact hno j hleads

theorem revokeEntryCapability_shrinks (s : Server) (t : Table) (e : Entry) :
    Shrinks s.caps (revokeEntryCapability s t e).caps := by
  unfold revokeEntryCapability
  split
  · exact revoke_shrinks s _ _
  all_goals exact .refl _

theorem closing_last {k : Fin processTables} (ht : f.tableForProcess pid = some (k, t)) (hi : i.val = fd.toNat)
    (hactive : (t.entries i).active) (htype : (t.entries i).fdType = .ramfsNode)
    (hlast : t.sharedEntryCount (t.entries i).capabilityHandle (t.entries i).fdType ≤ 1) :
    f.closing pid fd = some ((t.entries i).capabilityHandle, t.ownerId) := by
  have hfd : fd.toNat < Fd.tableLimit := hi ▸ i.isLt
  obtain rfl : i = ⟨fd.toNat, hfd⟩ := Fin.ext hi
  simp only [closing, ht, dif_pos hfd]
  exact if_pos ⟨hactive, htype, hlast⟩

namespace Settled

variable {f : Files} {held : List UInt32}

variable {op : Fs.Op} {t : Table} {s : Server} {pid : UInt32} {k : Fin processTables} {held' : List UInt32} {b : Books}

/-- Records leave the table. -/
theorem serve (h : Settled ⟨f, held⟩) (hs : Shrinks f.server.caps s.caps)
    (hheld : ∀ j, (s.caps.slots j).active → (s.caps.slots j).handle ∈ held →
      (s.caps.slots j).handle ∈ held' ∨ Described f (s.caps.slots j).ownerId (s.caps.slots j).handle) :
    Settled ⟨{ f with server := s }, held'⟩ := by
  refine ⟨h.numbered.shrinks hs, fun j hj => ?_, h.home, h.counted, fun j hj => ?_⟩
  · have hk := hs.kept hj
    rw [hk] at hj ⊢
    exact h.owners j hj
  have hk := hs.kept hj
  have hcovered := h.covered j (hk ▸ hj)
  rw [← hk] at hcovered
  rcases hcovered with hmem | hdescribed
  · exact hheld j hj hmem
  · exact .inr hdescribed

/-- A table changes, and stays open on the handles of the records of its owner. -/
theorem retable (h : Settled ⟨f, held⟩) {t' : Table} (ht : f.tables k = some t)
    (hpid : t'.pid = t.pid) (howner : t'.ownerId = t.ownerId) (hcounted : t'.Counted)
    (hopen : ∀ j, (f.server.caps.slots j).active → t.ownerId = (f.server.caps.slots j).ownerId →
      t.OpenOn (f.server.caps.slots j).handle → t'.OpenOn (f.server.caps.slots j).handle) : Settled ⟨f.setTable k t', held⟩ := by
  have htables := f.setTable_tables k t'
  refine ⟨h.numbered, h.owners, fun k' u hu => ?_, fun k' u hu => ?_, fun j hj => ?_⟩
  · rw [htables] at hu
    split at hu
    · rename_i hk
      obtain rfl := some.inj hu
      rw [hpid, hk]
      exact h.home k t ht
    · exact h.home k' u hu
  · rw [htables] at hu
    split at hu
    · obtain rfl := some.inj hu
      exact hcounted
    · exact h.counted k' u hu
  · refine (h.covered j hj).imp_right fun ⟨k', u, hu, hown, hon⟩ => ?_
    by_cases hk : k' = k
    · subst hk
      obtain rfl : t = u := mem_unique ht hu
      exact ⟨k', t', by rw [htables, if_pos rfl], howner.trans hown, hopen j hj hown hon⟩
    · exact ⟨k', u, by rw [htables, if_neg hk]; exact hu, hown, hon⟩

/-! ### Calls to the file service -/

theorem heldAfter_creates (hop : op.creates) :
    heldAfter s held op = if s.reply op ≠ invalidResult then s.reply op :: held else held := by
  cases op with
  | openNode | create => simp [heldAfter, Fs.Op.creates]
  | _ => cases hop

theorem mem_heldAfter (hop : ∀ handle owner, op ≠ .revoke handle owner) {handle : UInt32}
    (h : handle ∈ held) : handle ∈ heldAfter s held op := by
  cases op with
  | revoke handle owner => exact absurd rfl (hop handle owner)
  | openNode | create =>
    rw [heldAfter_creates rfl]
    split
    · exact mem_cons_of_mem _ h
    · exact h
  | _ => simpa [heldAfter, Fs.Op.creates] using h

theorem issue (h : Settled ⟨f, held⟩) {mid : HandleTable Fs.tableLimit Fs.Record} {i : Fin Fs.tableLimit} {r : Fs.Record}
    (hnext : f.server.caps.next ≠ 0) (hs : Shrinks f.server.caps mid) (hcaps : s.caps = mid.issue i fun _ => r)
    (hhandle : r.handle = f.server.caps.next) (howner : principalIsActive r.ownerId) (hheld : ∀ handle ∈ held, handle ∈ held')
    (hr : r.handle ∈ held' ∨ Described f r.ownerId r.handle) : Settled ⟨{ f with server := s }, held'⟩ := by
  have hslots : ∀ j, (s.caps.slots j).active → s.caps.slots j = r ∨ s.caps.slots j = f.server.caps.slots j := by
    intro j hj
    rw [hcaps, issue_slots] at hj ⊢
    split_ifs at hj ⊢
    · exact .inl rfl
    · exact .inr (hs.kept hj)
  refine ⟨?_, fun j hj => ?_, h.home, h.counted, fun j hj => ?_⟩
  · rw [hcaps]
    exact (h.numbered.shrinks hs).issue (hs.next ▸ hnext) (hhandle.trans hs.next.symm)
  · rcases hslots j hj with hk | hk <;> dsimp only at hj ⊢ <;> rw [hk] at hj ⊢
    · exact howner
    · exact h.owners j hj
  · rcases hslots j hj with hk | hk <;> dsimp only at hj ⊢ <;> rw [hk] at hj ⊢
    · exact hr
    · exact (h.covered j hj).imp_left (hheld _)

theorem fs (h : Settled ⟨f, held⟩) (ho : Orderly ⟨f, held⟩ (.fs op)) :
    Settled ⟨{ f with server := f.server.step op }, heldAfter f.server held op⟩ := by
  rcases f.server.step_caps op with hs | ⟨mid, i, r, hs, -, hr, hcaps⟩
  · refine h.serve hs fun j hj hmem => .inl ?_
    by_cases hop : ∃ handle owner, op = .revoke handle owner
    · obtain ⟨handle, owner, rfl⟩ := hop
      rw [heldAfter]
      split_ifs with hforeign
      · exact hmem
      refine mem_filter.2 ⟨hmem, decide_eq_true fun heq => ?_⟩
      -- the owner has revoked the handle, so its record cannot be there any more
      have hk := hs.kept hj
      have hbefore : (f.server.caps.slots j).active := hk ▸ hj
      have heq' : (f.server.caps.slots j).handle = handle := hk ▸ heq
      have hfound : f.server.caps.find handle = some j := heq' ▸ h.numbered.find_handle hbefore
      exact revoke_gone h.numbered h.owners ho hj heq' (by simpa [foreign, hfound] using hforeign)
    · exact mem_heldAfter (fun handle owner he => hop ⟨handle, owner, he⟩) hmem
  · have hnext : f.server.caps.next ≠ 0 ∧ f.server.caps.next ≠ invalidResult := by
      have hcreates := hr.creates
      cases op with
      | openNode | create => exact ho rfl
      | _ => cases hcreates
    have hne : f.server.reply op ≠ invalidResult := hr.reply.trans hr.handle ▸ hnext.2
    refine h.issue hnext.1 hs hcaps hr.handle hr.owner (fun handle hmem => ?_) (.inl ?_) <;>
      rw [heldAfter_creates hr.creates, if_pos hne]
    · exact mem_cons_of_mem _ hmem
    · exact hr.reply ▸ mem_cons_self

/-! ### Calls with descriptors -/

section

variable (h : Settled ⟨f, held⟩) {i : Fin Fd.tableLimit} {oldFd newFd fd : UInt32}
include h

theorem claimTable (pid ownerId : UInt32) (known : Bool) :
    Settled ⟨(f.claimTable pid ownerId known).2, held⟩ := by
  unfold Files.claimTable
  split
  · exact h
  split
  · exact h
  rename_i hpid
  split
  · exact h
  rename_i k hk
  have hnone : f.tables k = none := by simpa using first_some hk
  refine ⟨h.numbered, h.owners, fun k' t ht => ?_, fun k' t ht => ?_, fun j hj => ?_⟩
  · dsimp only at ht ⊢
    rw [setTable_tables] at ht
    rw [Function.update_apply]
    split_ifs at ht with hkk
    · obtain rfl := some.inj ht
      rw [if_pos rfl, hkk]
    have hhome := h.home k' t ht
    rw [if_neg]
    · exact hhome
    · intro heq
      exact absurd (hhome.symm.trans (heq ▸ hpid)) (by simp)
  · rw [setTable_tables] at ht
    split at ht
    · obtain rfl := some.inj ht
      intro fd hfd
      cases hfd
    · exact h.counted k' t ht
  · refine (h.covered j hj).imp_right fun ⟨k', t, ht, hown, hon⟩ => ⟨k', t, ?_, hown, hon⟩
    rw [setTable_tables, if_neg]
    · exact ht
    · rintro rfl
      simp [hnone] at ht

theorem alloc (pid handle : UInt32) (fdType : FdType) (flags : UInt32) (budget : Bool) :
    Settled ⟨(f.alloc pid handle fdType flags budget).2, held⟩ := by
  have ha := f.alloc_allocates pid handle fdType flags budget
  generalize f.alloc pid handle fdType flags budget = p at ha ⊢
  cases ha with
  | refused => exact h
  | installed k t fd ht hfree hhandle htype =>
    have htable := (tableForProcess_some.1 ht).2
    refine h.retable htable rfl rfl ?_ fun j _ _ hon => ?_
    · exact (h.counted k t htable).set hfree fun _ => rfl
    · exact hon.set hfree

/-- An alias is left, or the record goes with the last descriptor. -/
theorem close (hthere : ∀ p, f.closing pid fd = some p → NodeThere f.server p.1 p.2) : Settled ⟨(f.close pid fd).2, held⟩ := by
  have hc := f.close_closes pid fd
  generalize f.close pid fd = p at hc ⊢
  cases hc with
  | refused hclosed => exact h
  | shared k t i ht hi hactive hshared =>
    have htable := (tableForProcess_some.1 ht).2
    have hsame := (t.discard i).sync_process (t.entries i).capabilityHandle (t.entries i).fdType
    exact h.retable htable hsame.1 hsame.2 (h.counted k t htable).discardShared fun j _ _ hon => hon.discardShared hshared
  | counted k t i ht hi hactive hshared hcount =>
    have htable := (tableForProcess_some.1 ht).2
    have hle := (h.counted k t htable i hactive).trans hshared
    exact absurd (lt_iff_toNat_lt.1 hcount) (Nat.not_lt.2 hle)
  | last k t i ht hi hactive hshared hcount =>
    have htable := (tableForProcess_some.1 ht).2
    have hserved : Settled ⟨{ f with server := revokeEntryCapability f.server t (t.entries i) }, held⟩ :=
      h.serve (revokeEntryCapability_shrinks f.server t (t.entries i)) fun _ _ hmem => .inl hmem
    refine hserved.retable htable rfl rfl ((h.counted k t htable).discard hactive hshared) fun j hj hown hon => ?_
    refine hon.discard ?_
    by_contra hsame
    obtain ⟨-, hhandle, htype⟩ := Entry.on_iff.1 (Bool.not_eq_false _ ▸ hsame)
    have hk := (revokeEntryCapability_shrinks f.server t (t.entries i)).kept hj
    rw [hk] at hown hhandle
    simp only [revokeEntryCapability, htype] at hj
    refine revoke_gone h.numbered h.owners (hthere (_, t.ownerId) ?_) hj hhandle.symm hown.symm
    exact closing_last ht hi hactive htype hshared

theorem close_inactive {t' : Table} (ht : f.tableForProcess pid = some (k, t)) (hi : i.val = fd.toNat)
    (hactive : (t.entries i).active) (ht' : (f.close pid fd).2.tables k = some t') : (t'.entries i).active = false := by
  have hc := f.close_closes pid fd
  generalize f.close pid fd = p at hc ht'
  have hcounted := h.counted k t (tableForProcess_some.1 ht).2
  -- the close found this table and this entry
  have hsame : ∀ {k1 t1} {i1 : Fin Fd.tableLimit}, f.tableForProcess pid = some (k1, t1) → i1.val = fd.toNat →
      k1 = k ∧ t1 = t ∧ i1 = i := by
    intro k1 t1 i1 ht1 hi1
    obtain ⟨rfl, rfl⟩ : k = k1 ∧ t = t1 := by simpa using ht.symm.trans ht1
    exact ⟨rfl, rfl, Fin.ext (hi1.trans hi.symm)⟩
  cases hc with
  | refused hclosed => simp [hclosed k t i ht hi] at hactive
  | shared k1 t1 i1 ht1 hi1 ha1 hs1 =>
    obtain ⟨rfl, rfl, rfl⟩ := hsame ht1 hi1
    rw [setTable_tables, if_pos rfl] at ht'
    obtain rfl := some.inj ht'
    rw [(Table.sync_same _ _ _ i1).1, Table.discard_entries, if_pos rfl]
    rfl
  | counted k1 t1 i1 ht1 hi1 ha1 hs1 hcount =>
    obtain ⟨rfl, rfl, rfl⟩ := hsame ht1 hi1
    exact absurd (lt_iff_toNat_lt.1 hcount) (Nat.not_lt.2 ((hcounted i1 hactive).trans hs1))
  | last k1 t1 i1 ht1 hi1 ha1 hs1 hcount =>
    obtain ⟨rfl, rfl, rfl⟩ := hsame ht1 hi1
    rw [setTable_tables, if_pos rfl] at ht'
    obtain rfl := some.inj ht'
    rw [Table.discard_entries, if_pos rfl]
    rfl

theorem copyInto (ht : f.tables k = some t) (hfree : (t.entries i).active = false) (source : Entry) :
    Settled ⟨f.setTable k (t.copyInto source i), held⟩ := by
  have hsame := ({ t.set i { source with refCount := 1 } with liveCount := t.liveCount + 1 } : Table).sync_process
    source.capabilityHandle source.fdType
  exact h.retable ht hsame.1 hsame.2 ((h.counted k t ht).copyInto hfree source) fun j _ _ hon => hon.copyInto hfree source

theorem dupInto (ht : f.tables k = some t)
    (hthere : ∀ i : Fin Fd.tableLimit, i.val = newFd.toNat → (t.entries i).active → ∀ p, f.closing t.pid newFd = some p →
      NodeThere f.server p.1 p.2)
    (budget : Bool) :
    Settled ⟨(f.dupInto k t oldFd newFd budget).2, held⟩ := by
  have hd := f.dupInto_duplicates k t oldFd newFd budget
  generalize (f.dupInto k t oldFd newFd budget).2 = f' at hd ⊢
  have hprocess : f.tableForProcess t.pid = some (k, t) := tableForProcess_some.2 ⟨h.home k t ht, ht⟩
  cases hd with
  | same => exact h
  | closed i hi hused => exact h.close (hthere i hi hused)
  | copied source i hi hfree t' ht' =>
    obtain rfl : t = t' := mem_unique ht ht'
    exact h.copyInto ht hfree source
  | replaced source i hi hused t' ht' =>
    exact (h.close (hthere i hi hused)).copyInto ht' (h.close_inactive hprocess hi hused ht') source

theorem dup (pid oldFd : UInt32) (budget : Bool) : Settled ⟨(f.dup pid oldFd budget).2, held⟩ := by
  unfold Files.dup
  split
  · exact h
  rename_i k t ht
  split_ifs
  · exact h
  · split
    · exact h
    · rename_i fd hfd
      have hfree : (t.entries fd).active = false := by simpa using first_some hfd
      refine h.dupInto (tableForProcess_some.1 ht).2 (fun i hi hused => ?_) budget
      have hval : (ofNat fd).toNat = fd := toNat_ofNat_of_lt' (fd.isLt.trans (by decide))
      obtain rfl : i = fd := Fin.ext (hi.trans hval)
      simp [hfree] at hused
  · exact h

theorem dup2 {budget : Bool} (hthere : ∀ p, f.closing pid newFd = some p → NodeThere f.server p.1 p.2) :
    Settled ⟨(f.dup2 pid oldFd newFd budget).2, held⟩ := by
  unfold Files.dup2
  split
  · exact h
  rename_i k t ht
  have htable := (tableForProcess_some.1 ht).2
  have hprocess : f.tableForProcess t.pid = some (k, t) := tableForProcess_some.2 ⟨h.home k t htable, htable⟩
  refine h.dupInto htable (fun i _ _ p hp => hthere p ?_) budget
  simpa only [closing, ht, hprocess] using hp

/-- A node has been opened for the table, and now a descriptor is given to it; if there is none, it is closed again. -/
theorem describe
    (ht : f.tableForProcess pid = some (k, t)) {mid : HandleTable Fs.tableLimit Fs.Record}
    {i : Fin Fs.tableLimit} {r : Fs.Record} (hnext : f.server.caps.next ≠ 0) (hs : Shrinks f.server.caps mid)
    (hcaps : s.caps = mid.issue i fun _ => r) (hactive : r.active) (hhandle : r.handle = f.server.caps.next)
    (howner : principalIsActive r.ownerId) (hid : r.ownerId = t.ownerId)
    (hnode : s.tree.fs.nodeExists r.nodeId) (flags : UInt32) (budget : Bool) :
    let p := Files.alloc { f with server := s } pid r.handle .ramfsNode flags budget
    Settled ⟨if p.1 = invalidFd then { p.2 with server := (p.2.server.revoke r.handle t.ownerId).2 } else p.2, held⟩ := by
  dsimp only
  have hopened : Settled ⟨{ f with server := s }, r.handle :: held⟩ :=
    h.issue hnext hs hcaps hhandle howner (fun _ hmem => mem_cons_of_mem _ hmem) (.inl mem_cons_self)
  have hslot : s.caps.slots i = r := by rw [hcaps, issue_slots, if_pos rfl]
  -- the new handle is that of the new record alone
  have honly : ∀ j, (s.caps.slots j).active → (s.caps.slots j).handle = r.handle → s.caps.slots j = r := by
    intro j hj heq
    have hji : j = i := hopened.numbered.distinct j i hj (by dsimp only; rw [hslot]; exact hactive)
      (heq.trans (by dsimp only; rw [hslot]; rfl))
    rw [hji, hslot]
  have hallocated := hopened.alloc pid r.handle .ramfsNode flags budget
  have ha := alloc_allocates { f with server := s } pid r.handle .ramfsNode flags budget
  generalize Files.alloc { f with server := s } pid r.handle .ramfsNode flags budget = p at ha hallocated ⊢
  cases ha with
  | refused =>
    refine hopened.serve (revoke_shrinks s r.handle t.ownerId) fun j hj hmem => ?_
    rcases mem_cons.1 hmem with heq | hmem
    · have hk := (revoke_shrinks s r.handle t.ownerId).kept hj
      have hr := honly j (hk ▸ hj) (hk ▸ heq)
      refine (revoke_gone hopened.numbered hopened.owners ?_ hj (congrArg Fs.Record.handle hr) (hr ▸ hid)).elim
      intro j' hfound _
      rwa [honly j' (find_some hfound).1 (find_some hfound).2]
    · exact .inl hmem
  | installed k' t' fd ht' hfree hne htype =>
    rw [if_neg (ofNat_ne_invalidFd fd)]
    obtain ⟨rfl, rfl⟩ : k = k' ∧ t = t' := by simpa using ht.symm.trans ht'
    refine hallocated.serve (.refl _) fun j hj hmem => ?_
    rcases mem_cons.1 hmem with heq | hmem
    · have hr := honly j hj heq
      refine .inr ⟨k, _, by rw [setTable_tables, if_pos rfl], ?_, fd, ?_⟩
      · exact (congrArg Fs.Record.ownerId hr ▸ hid).symm
      · rw [Table.set_entries, if_pos rfl]
        exact Entry.on_iff.2 ⟨by simp [Entry.active, hne], heq.symm, rfl⟩
    · exact .inl hmem

theorem openRamfs (hnext : f.server.caps.next ≠ 0 ∧ f.server.caps.next ≠ invalidResult) (pid : UInt32)
    (path : Nat → UInt8) (count flags : UInt32) (storage : Storage) (budget : Bool) :
    Settled ⟨(f.openRamfs pid path count flags storage budget).2, held⟩ := by
  unfold Files.openRamfs
  split
  · exact h
  rename_i k t ht
  split
  · exact h
  generalize f.server.broker.grantService classRamfs (rightSend ||| rightQuery) t.ownerId = granted
  obtain ⟨base, broker⟩ := granted
  dsimp only
  split
  · refine h.serve ?_ fun _ _ hmem => .inl hmem
    exact .refl f.server.caps
  have ho := ({ f.server with broker } : Server).openCommon_opens base (.kernel path) count t.ownerId storage
  generalize ({ f.server with broker } : Server).openCommon base (.kernel path) count t.ownerId storage = p at ho ⊢
  cases ho with
  | refused hq tree htree =>
    refine h.serve ?_ fun _ _ hmem => .inl hmem
    exact hq.caps
  | granted hq tree htree i r hi hactive hhandle howner hnode hparent hid =>
    rw [if_neg (hhandle ▸ hnext.2)]
    exact h.describe ht hnext.1 hq.caps rfl hactive hhandle howner hid hnode flags budget

end

theorem step (h : Settled b) {op : Op} (ho : Orderly b op) : Settled (b.step op) := by
  cases op with
  | fs op => exact h.fs ho
  | claimTable pid ownerId known => exact h.claimTable pid ownerId known
  | alloc pid handle fdType flags budget => exact h.alloc pid handle fdType flags budget
  | openRamfs pid path count flags storage budget => exact h.openRamfs ho pid path count flags storage budget
  | close pid fd => exact h.close ho
  | dup pid oldFd budget => exact h.dup pid oldFd budget
  | dup2 pid oldFd newFd budget => exact h.dup2 ho

/-- After everything has been closed the table is empty. -/
theorem empty (h : Settled b) (hclosed : b.AllClosed) :
    b.files.server.caps.liveCount = 0 ∧ ∃ i, b.files.server.caps.free = some i := by
  have hnone : ∀ j, (b.files.server.caps.slots j).active = false := by
    intro j
    by_contra hj
    rcases h.covered j (Bool.not_eq_false _ ▸ hj) with hmem | ⟨k, t, ht, -, hon⟩
    · simp [hclosed.1] at hmem
    · obtain ⟨fd, hfd⟩ := hon
      obtain ⟨hactive, -, htype⟩ := Entry.on_iff.1 hfd
      exact hclosed.2 k t ht fd hactive htype
  refine ⟨count_eq_zero.2 hnone, 0, first_zero ?_⟩
  change (!(b.files.server.caps.slots 0).active)
  rw [hnone 0]
  rfl

end Settled

/-! ## The result -/

/-- What gives back exactly one slot, in every state. -/
structure FreesOneIff (f : Files) : Prop where
  /-- The owner revokes the handle of a live record. -/
  revoke : ∀ handle owner i, f.server.caps.find handle = some i → (f.server.caps.slots i).ownerId = owner →
    (FreesOne f.server (f.server.revoke handle owner).2 ↔
      principalIsActive owner = true ∧ f.server.tree.fs.nodeExists (f.server.caps.slots i).nodeId = true ∧
        Alone f.server i handle)
  /-- The last descriptor on a node handle is closed. -/
  close : ∀ pid fd t i, LastDescriptor f pid fd t i →
    (f.close pid fd).1 = 1 ∧
      (FreesOne f.server (f.close pid fd).2.server ↔
        (t.entries i).refCount ≤ 1 ∧
          ∃ j, Server.Leads f.server (t.entries i).capabilityHandle 0 t.ownerId j ∧
            Alone f.server j (t.entries i).capabilityHandle)

/-- When a slot is given back; and in every run that closes handles before their nodes are deleted, the table is empty
after everything has been closed. -/
theorem slots_settled (catalog : List Manifest) (tick : UInt32) (personas : Personas) (imageSize : UInt32) :
    (∀ f, FreesOneIff f) ∧
      ∀ ops, Meets Books.step Orderly (.boot (Server.boot (Broker.boot catalog tick personas) imageSize)) ops →
        Books.AllClosed (ops.foldl Books.step (.boot (Server.boot (Broker.boot catalog tick personas) imageSize))) →
        let s := (ops.foldl Books.step (.boot (Server.boot (Broker.boot catalog tick personas) imageSize))).files.server
        s.caps.liveCount = 0 ∧ ∃ i, s.caps.free = some i := by
  refine ⟨fun f => ⟨fun handle owner i hfound howner => ?_, fun _ _ _ _ h => close_frees_iff h⟩, fun ops h hclosed => ?_⟩
  · rw [revoke_frees_iff]
    constructor
    · intro ⟨j, hl, halone⟩
      obtain rfl : i = j := mem_unique hfound hl.found
      exact ⟨hl.principal, hl.node, halone⟩
    · intro ⟨hprincipal, hnode, halone⟩
      exact ⟨i, ⟨hprincipal, hfound, howner, by simp, hnode⟩, halone⟩
  · have hboot : Settled (.boot (Server.boot (Broker.boot catalog tick personas) imageSize)) := by
      have hstart : Meets Server.step Fresh (Server.boot (Broker.boot catalog tick personas) imageSize) [] := trivial
      refine ⟨numbered_of_run catalog tick personas imageSize hstart, fun j hj => ?_, ?_, ?_, fun j hj => ?_⟩
      · simp [Books.boot, boot, Server.boot, Fs.Record.blank] at hj
      · simp [Books.boot, boot]
      · simp [Books.boot, boot]
      · simp [Books.boot, boot, Server.boot, Fs.Record.blank] at hj
    exact (h.invariant (fun _ _ hs ho => hs.step ho) hboot).empty hclosed

/-- A process opens a file. -/
def opening : List Op :=
  [.claimTable 1 0x101 true, .openRamfs 1 (fun i => (Ramfs.ascii "/APPS/HELLO.TXT").getD i 0) 15 0 .absent true]

/-- The descriptor is closed. -/
def closed : List Op := opening ++ [.close 1 0]

theorem slots_of_close :
    (opening.foldl Books.step (.boot .idle)).files.server.caps.liveCount = 1 ∧
      (closed.foldl Books.step (.boot .idle)).files.server.caps.liveCount = 0 := by
  have hmeets : Meets Books.step Orderly (.boot .idle) closed := by decide +kernel
  have hclosed : Books.AllClosed (closed.foldl Books.step (.boot .idle)) := by decide +kernel
  have hidle : Server.idle = Server.boot (Broker.boot [] 0 Broker.idle.personas) 0 := rfl
  refine ⟨by decide +kernel, ?_⟩
  rw [hidle] at hmeets hclosed ⊢
  exact ((slots_settled [] 0 Broker.idle.personas 0).2 closed hmeets hclosed).1

/-- The file is deleted before its descriptor is closed. -/
def deleted : List Op :=
  opening ++ [.fs (.broker (.grantService classRamfs rightSend 0x101)),
    .fs (.delete 0x6401 (.text "/APPS/HELLO.TXT") 15 0x101), .close 1 0]

theorem slots_fail :
    Books.AllClosed (deleted.foldl Books.step (.boot .idle)) ∧
      (deleted.foldl Books.step (.boot .idle)).files.server.caps.liveCount = 1 := by
  decide +kernel

end LimitlessOS.Fd
