/-
  LimitlessOS.Vma.ProtectContract — the two-sided contract of `vma64_protect`.

  A call that fails should leave the process as it was; one that succeeds should change
  the protection of the range and of nothing else. `ProtectContract` says both. The
  second half always holds. The first fails for a call that passes its checks in two
  cases (`Breaks`): the process is over its page budget, so that a piece of the split
  region is refused and lost; or a page of a region without access cannot be installed
  (a thread has no slot of its own, and can install none), so that the loop over the
  pages stops half way.

  Proved:
  - `protectContract_iff`: in every reachable state and for all arguments, the contract
    holds if and only if the call is in neither case.
  - `protectContract_fails`: a region lost to a budget that was lowered.
-/
import LimitlessOS.Vma.Invariant

namespace LimitlessOS.Vma

open List PageTable Region Store

namespace Machine

section

variable {Ix : Type} [RegionIndex Ix]

/-- The regions of a process. -/
def regionsOf (m : Machine Ix) (pid : Pid) : List Region := (m.store.vmaRoot pid).elim [] m.store.listed

/-- The protection that its region gives an address. -/
def protAt (m : Machine Ix) (pid : Pid) (x : Nat) : Option UInt32 := (m.store.regionAt pid x).map Region.protFlags

/-- The regions of the process, its page table, the reference counts and its total are as before. -/
@[mk_iff] structure Unprotected (env : Env) (m m' : Machine Ix) (pid : Pid) : Prop where
  regions : m'.regionsOf pid = m.regionsOf pid
  table : m'.table env pid = m.table env pid
  used : m'.anon.used = m.anon.used
  bytes : m'.mappedBytes pid = m.mappedBytes pid

/-- The range has the new protection, in its regions and in its entries; all else has the one it had. -/
@[mk_iff] structure NewProtection (env : Env) (m m' : Machine Ix) (pid : Pid) (address length : Nat) (prot : UInt32) :
    Prop where
  inside : ∀ x, address ≤ x → x < address + length → m'.protAt pid x = some prot
  outside : ∀ x, ¬ (address ≤ x ∧ x < address + length) → m'.protAt pid x = m.protAt pid x
  mapped : ∀ x, (m'.store.regionAt pid x).isSome = (m.store.regionAt pid x).isSome
  entry : ∀ k < length / pageBytes, if pagingProt prot = 0 then (m'.table env pid).lookup (pageAt address k) = none
    else ∃ phys, (m'.table env pid).lookup (pageAt address k) = some (.make phys (pagingProt prot))
  otherEntries : ∀ x, ¬ Hits address 0 (length / pageBytes) x → (m'.table env pid).lookup x = (m.table env pid).lookup x

def ProtectContract (env : Env) (m : Machine Ix) (pid : Pid) (address length : Nat) (prot : UInt32) : Prop :=
  let x := m.protect env pid address length prot
  (x.1 = false → Unprotected env m x.2 pid) ∧ (x.1 = true → NewProtection env m x.2 pid address length prot)

/-- The call passes every check and gets the region slots it needs. -/
@[mk_iff] structure Passes (env : Env) (m : Machine Ix) (pid : Pid) (address length : Nat) (r : RegionId) : Prop where
  args : ¬ (pageCountFromLength length = 0 ∨ address % pageBytes ≠ 0 ∨ add64 address length < address)
  found : m.store.find pid address = some r
  within : address + length ≤ (m.store.region r).virtEnd
  backing : (m.store.region r).backingType = backingAnon
  resident : pagingProt (m.store.region r).protFlags = 0 ∨
    (m.table env pid).runMatches (m.store.region r) address (pageCountFromLength length)
  slots : (decide (address > (m.store.region r).virtBase)).toNat +
    (decide (address + length < (m.store.region r).virtEnd)).toNat ≤ m.store.freeSlots

/-- The call passes, and the process is over its budget or some page cannot be installed. -/
def Breaks (env : Env) (m : Machine Ix) (pid : Pid) (address length : Nat) (prot : UInt32) : Prop :=
  (∃ r, m.Passes env pid address length r) ∧
    (¬ Within (m.budget pid) (m.mappedBytes pid) ∨ pagingProt prot ≠ 0 ∧
      ¬ PageTable.Installable (limit env pid) address 0 (pageCountFromLength length) (m.table env pid))

end

/-! ## On a listed machine -/

variable {env : Env} {a a' : Machine Listing} {pid : Pid} {address length i : Nat} {prot : UInt32} {t : TreeId} {r : RegionId}
  {held : RegionId → Prop} {m : Machine Links}

theorem Sound.passes_iff (h : Sound env a) :
    a.Passes env pid address length r ↔ ∃ t i, Admitted env a pid address length t r i := by
  constructor
  · intro hp
    obtain ⟨t, ht, hr, hc⟩ := find_some hp.found
    obtain ⟨i, hi⟩ := h.backedAt hr
    exact ⟨t, i, ht, hr, hi, inside_of_args hp.args hc hp.within, hp.resident, hp.slots⟩
  · rintro ⟨t, i, ha⟩
    exact ⟨(ha.args h).1, ha.find h, ha.inside.within, ha.backed.backing, ha.resident, ha.slots⟩

theorem regionsOf_root (ht : a.store.vmaRoot pid = some t) : a.regionsOf pid = a.store.listed t := by
  rw [regionsOf, ht]
  rfl

theorem mappedBytes_root (ht : a.store.vmaRoot pid = some t) : a.mappedBytes pid = (a.store.totals t).mappedBytes := by
  rw [mappedBytes, ht]
  rfl

section

variable {s' : Store Listing} (h : Sound env a) (ha : Admitted env a pid address length t r i)
  (hs : Store.Partial a.store t (a.restOf t r) ((a.store.region r).pieces address (address + length) prot) s') {x : Nat}
  {d : Region}

include h ha

/-- Before the call, and when all pieces are back: the region at an address of the process. -/
theorem Admitted.regionAt_old :
    a.store.regionAt pid x = some d ↔ (d = a.store.region r ∨ d ∈ a.restOf t r) ∧ d.Contains x := by
  rw [h.ok.regionAt_iff ha.root, (listed_perm_detach ha.mem).mem_iff, mem_cons]
  rfl

/-- With a piece lost, the process maps less than before. -/
theorem Admitted.lost_lt {placed lost : List Region}
    (hs : Partial a.store t (a.restOf t r) placed s')
    (hpieces : placed ++ lost = (a.store.region r).pieces address (address + length) prot) (hlost : lost ≠ []) :
    (s'.totals t).mappedBytes < (a.store.totals t).mappedBytes := by
  have hsum := ha.inside.bytesOf_pieces prot
  rw [← hpieces, bytesOf_append] at hsum
  have hpos : 0 < bytesOf lost := by
    obtain ⟨e, rest, rfl⟩ := exists_cons_of_ne_nil hlost
    have hv := (ha.pieces_part h (hpieces ▸ mem_append_right placed mem_cons_self)).valid.lt
    rw [bytesOf_cons]
    unfold Region.length
    omega
  have hbytes : (s'.totals t).mappedBytes = bytesOf placed + bytesOf (a.restOf t r) := hs.bytes
  rw [hbytes, h.mappedBytes_eq ha.mem]
  omega

include hs

omit h in
theorem Admitted.regionAt_new : s'.regionAt pid x = some d ↔
      (d ∈ (a.store.region r).pieces address (address + length) prot ∨ d ∈ a.restOf t r) ∧ d.Contains x := by
  have ht : s'.vmaRoot pid = some t := by rw [hs.root]; exact ha.root
  rw [hs.ok.regionAt_iff ht, hs.listed.mem_iff, mem_append]

/-- Outside the region nothing changes. -/
theorem Admitted.regionAt_outside (hx : ¬ (a.store.region r).Contains x) :
    s'.regionAt pid x = a.store.regionAt pid x := by
  ext d
  rw [ha.regionAt_new hs, ha.regionAt_old h]
  refine and_congr_left fun hc => or_congr_left' fun _ => ?_
  constructor
  · intro hd
    exact absurd ((ha.inside.contains_pieces x).2 ⟨d, hd, hc⟩) hx
  · rintro rfl
    exact absurd hc hx

/-- Inside it, the piece that has the address takes the place of the region. -/
theorem Admitted.regionAt_inside (hx : (a.store.region r).Contains x) :
    a.store.regionAt pid x = some (a.store.region r) ∧
      ∃ e ∈ (a.store.region r).pieces address (address + length) prot, e.Contains x ∧ s'.regionAt pid x = some e := by
  refine ⟨(ha.regionAt_old h).2 ⟨.inl rfl, hx⟩, ?_⟩
  obtain ⟨e, he, hc⟩ := (ha.inside.contains_pieces x).1 hx
  exact ⟨e, he, hc, (ha.regionAt_new hs).2 ⟨.inl he, hc⟩⟩

theorem Admitted.newProtection (hrun : (a.protectEntries env pid (a.store.region r) address length prot).1) :
    NewProtection env a ((a.setStore s').setTable env pid (a.protectEntries env pid (a.store.region r) address length prot).2)
      pid address length prot := by
  have hbase := ha.inside.base
  have hwithin := ha.inside.within
  obtain ⟨hcount, hmax⟩ := ha.count h
  have hentries : Reprotected (middleOf (a.store.region r) address (address + length) prot) address (pagingProt prot)
      0 (length / pageBytes) (a.table env pid) (a.protectEntries env pid (a.store.region r) address length prot).2 := by
    unfold protectEntries at hrun ⊢
    rw [hcount] at hrun ⊢
    rcases protectRun_spec (length / pageBytes) 0 (a.table env pid) with ⟨-, hspec⟩ | ⟨hfalse, -⟩
    · rwa [Nat.zero_add] at hspec
    · simp [hfalse] at hrun
  constructor
  · intro x hx hx'
    obtain ⟨-, e, he, hc, hnew⟩ := ha.regionAt_inside h hs (x := x) ⟨by omega, by omega⟩
    show (s'.regionAt pid x).map _ = _
    rw [hnew]
    rcases mem_pieces.1 he with ⟨-, rfl⟩ | rfl | ⟨-, rfl⟩
    · exact absurd hc.2 (not_lt.2 hx)
    · rfl
    · exact absurd hc.1 (not_le.2 hx')
  · intro x hx
    show (s'.regionAt pid x).map _ = _
    by_cases hin : (a.store.region r).Contains x
    · obtain ⟨hold, e, he, hc, hnew⟩ := ha.regionAt_inside h hs hin
      unfold protAt
      rw [hnew, hold]
      rcases mem_pieces.1 he with ⟨-, rfl⟩ | rfl | ⟨-, rfl⟩
      · rfl
      · exact absurd hc hx
      · rfl
    · rw [ha.regionAt_outside h hs hin]
      rfl
  · intro x
    show (s'.regionAt pid x).isSome = _
    by_cases hin : (a.store.region r).Contains x
    · obtain ⟨hold, e, he, hc, hnew⟩ := ha.regionAt_inside h hs hin
      rw [hnew, hold]
      rfl
    · rw [ha.regionAt_outside h hs hin]
  · intro k hk
    rw [table_setTable, hentries.page k (Nat.zero_le _) hk (by simp only [maxAnonPages] at hmax; omega)]
    unfold reprotected
    split_ifs
    · rfl
    · exact ⟨_, rfl⟩
  · intro x hx
    rw [table_setTable]
    rcases hentries.entry x with heq | ⟨k, hk, hk', hnum⟩
    · exact heq
    · exact absurd ⟨k, hk, by omega, hnum⟩ hx

/-- With a page refused, the region at the range has a protection it had not. -/
theorem Admitted.regions_ne (hprot : prot ≠ (a.store.region r).protFlags) : s'.listed t ≠ a.store.listed t := by
  intro hsame
  have hbase := ha.inside.base
  have hlt := ha.inside.lt
  have hwithin := ha.inside.within
  have hroot : s'.vmaRoot pid = some t := by rw [hs.root]; exact ha.root
  have hmid : s'.regionAt pid address = some (middleOf (a.store.region r) address (address + length) prot) :=
    (ha.regionAt_new hs).2 ⟨.inl (mem_pieces.2 (.inr (.inl rfl))), le_rfl, hlt⟩
  have hold : a.store.regionAt pid address = some (a.store.region r) :=
    (ha.regionAt_old h).2 ⟨.inl rfl, hbase, by omega⟩
  rw [hs.ok.regionAt_iff hroot, hsame, ← h.ok.regionAt_iff ha.root, hold] at hmid
  exact hprot (congrArg protFlags (Option.some.inj hmid)).symm

end

theorem protectContract_listed (h : Sound env a) :
    ProtectContract env a pid address length prot ↔ ¬ Breaks env a pid address length prot := by
  unfold ProtectContract Breaks
  rcases protect_spec h pid address length prot with ⟨t, r, i, ha, hsplit⟩ | ⟨heq, hno⟩
  · have hpass : ∃ r, a.Passes env pid address length r := ⟨r, h.passes_iff.2 ⟨t, i, ha⟩⟩
    rw [mappedBytes_root ha.root]
    generalize a.protect env pid address length prot = x at hsplit ⊢
    cases hsplit with
    | whole s' hwithin hs =>
      have hiff := ha.protectEntries_iff h prot
      by_cases hrun : (a.protectEntries env pid (a.store.region r) address length prot).1
      · refine ⟨fun _ hb => ?_, fun _ => ⟨fun hf => ?_, fun _ => ha.newProtection h hs hrun⟩⟩
        · rcases hb.2 with hover | ⟨hprot, hnot⟩
          · exact hover hwithin
          · exact hnot (hiff.1 hrun hprot)
        · exact absurd (hrun.symm.trans hf) (by decide)
      · refine ⟨fun hc => ?_, fun hb => ?_⟩
        · -- the loop stopped at a page of a region that had no access before
          exfalso
          have hwhy := mt hiff.2 hrun
          rw [Classical.not_imp] at hwhy
          have hold : pagingProt (a.store.region r).protFlags = 0 := by
            rcases ha.resident with hzero | hres
            · exact hzero
            · exact absurd (installable_of_matches hres) hwhy.2
          have hregions := (hc.1 (Bool.not_eq_true _ ▸ hrun)).regions
          have hroot : s'.vmaRoot pid = some t := by rw [hs.root]; exact ha.root
          rw [regionsOf_root ha.root] at hregions
          refine ha.regions_ne h hs ?_ ((regionsOf_root (a := a.setStore s') hroot).symm.trans hregions)
          rintro rfl
          exact hwhy.1 hold
        · exact absurd ⟨hpass, .inr (Classical.not_imp.1 (mt hiff.2 hrun))⟩ hb
    | lost s' placed lost hover hs hpieces hlost =>
      refine ⟨fun hc => ?_, fun hb => absurd ⟨hpass, .inl hover⟩ hb⟩
      exfalso
      have hbytes := (hc.1 rfl).bytes
      have hroot : s'.vmaRoot pid = some t := by rw [hs.root]; exact ha.root
      rw [mappedBytes_root ha.root, mappedBytes_root (a := a.setStore s') hroot] at hbytes
      exact (ha.lost_lt h hs hpieces hlost).ne hbytes
  · rw [heq]
    refine ⟨fun _ hb => ?_, fun _ => ⟨fun _ => ⟨rfl, rfl, rfl, rfl⟩, nofun⟩⟩
    obtain ⟨r, hr⟩ := hb.1
    obtain ⟨t, i, ha⟩ := h.passes_iff.1 hr
    exact hno t r i ha

/-! ## On the code -/

theorem freeSlots_congr {Ix Ix' : Type} {s : Store Ix} {s' : Store Ix'} (h : s.used = s'.used) :
    s.freeSlots = s'.freeSlots := by
  unfold freeSlots
  rw [h]

theorem Refines.protectContract (h : Refines held m a) (env : Env) (pid : Pid) (prot : UInt32) (haddr : address < 2 ^ 64) :
    ProtectContract env m pid address length prot ↔ ProtectContract env a pid address length prot := by
  obtain ⟨hans, hafter⟩ :
      RefinesR held (m.protect env pid address length prot) (a.protect env pid address length prot) := h.protect pid prot haddr
  have hlisted := funext h.store.listed
  have hlisted' := funext hafter.store.listed
  simp only [ProtectContract, unprotected_iff, newProtection_iff, regionsOf, mappedBytes, protAt, regionAt, hans,
    hlisted, hlisted', h.store.vmaRoot, hafter.store.vmaRoot, h.store.totals, hafter.store.totals, h.store.find,
    hafter.store.find, h.store.region, hafter.store.region, h.anon, hafter.anon, h.table, hafter.table]

theorem Refines.breaks (h : Refines held m a) :
    Breaks env m pid address length prot ↔ Breaks env a pid address length prot := by
  have hslots := freeSlots_congr h.store.used
  simp only [Breaks, passes_iff, mappedBytes, hslots, h.store.find, h.store.region, h.store.vmaRoot, h.store.totals, h.budget,
    h.table]

theorem protectContract_iff {budget : Pid → Option Nat} {m : Machine Links} (h : Reachable env budget m) (pid : Pid)
    (address length : UInt64) (prot : UInt32) :
    ProtectContract env m pid address.toNat length.toNat prot ↔ ¬ Breaks env m pid address.toNat length.toNat prot := by
  obtain ⟨a, ha, hs⟩ := reachable_sound h
  rw [ha.protectContract env pid prot address.toNat_lt, ha.breaks]
  exact protectContract_listed hs

/-- One of two pages loses its access. -/
theorem protectContract_second :
    let m := (boot Links.boot fun _ => none).run .sample [.mapAnon 1 0 0x2000 3 9]
    Reachable .sample (fun _ => none) m ∧
      ProtectContract .sample m 1 (0x44001000 : UInt64).toNat (0x1000 : UInt64).toNat 0 := by
  refine ⟨Reachable.boot.run _, (protectContract_iff (Reachable.boot.run _) 1 0x44001000 0x1000 0).2 ?_⟩
  rintro ⟨-, hover | ⟨hprot, -⟩⟩
  · have hnone : ((boot Links.boot fun _ => none).run .sample [.mapAnon 1 0 0x2000 3 9]).budget 1 = none := by decide +kernel
    refine hover fun limit hlimit => ?_
    simp [hnone] at hlimit
  · exact hprot (by decide)

/-- Two pages mapped, then a budget of one page: making them read-only fails, and they are gone. -/
theorem protectContract_fails :
    let m := (boot Links.boot fun _ => some 16).run .sample [.mapAnon 1 0 0x2000 3 9, .configureBudget 1 1]
    Reachable .sample (fun _ => some 16) m ∧
      ¬ ProtectContract .sample m 1 (0x44000000 : UInt64).toNat (0x2000 : UInt64).toNat 1 := by
  refine ⟨Reachable.boot.run _, ?_⟩
  intro h
  have hsame := (h.1 (by decide +kernel)).bytes
  revert hsame
  decide +kernel

/-- The environment of a thread of process 1: no slot in the pool, and the root of its process. -/
def Env.threadOfOne : Env := { Env.sample with rootSlot := fun _ => none, recordRoot := fun _ => some 1 }

-- a thread gives access to a page beside one that is mapped: the call fails, and the region has the new protection
example :
    let m := (boot Links.boot fun _ => none).run .sample [.mapAnon 1 0 0x1000 3 9, .mapAnon 1 0 0x1000 0 9]
    let x := m.protect Env.threadOfOne 1 0x44001000 0x1000 3
    x.1 = false ∧ m.protAt 1 0x44001000 = some 0 ∧ x.2.protAt 1 0x44001000 = some 3 := by decide +kernel

end Machine

end LimitlessOS.Vma
