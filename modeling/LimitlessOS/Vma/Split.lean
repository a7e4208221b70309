/-
  LimitlessOS.Vma.Split — a region cut into pieces.

  `vma64_protect` removes a region and puts up to three pieces of it (`Region.pieces`)
  back, one placement each. Each placement runs the budget check again, and none that
  failed is made up for: the pieces placed so far stay, the others are lost.

  Proved:
  - `Region.Inside.part`: every piece is a valid region over its part of the pages.
  - `placePieces_spec`: no piece is lost if and only if the process is within its budget.
-/
import LimitlessOS.Vma.Unmap

namespace LimitlessOS.Vma

open List

namespace Store

variable {s : Store Listing} {t : TreeId} {r : RegionId}

theorem listed_perm_detach (hr : r ∈ s.regionIds t) :
    (s.listed t).Perm (s.region r :: (s.detachRegion t r).listed t) := by
  rw [listed_detachRegion, if_pos rfl]
  exact (perm_cons_erase hr).map s.region

theorem listed_detach_of_ne {t' : TreeId} (h : t' ≠ t) : (s.detachRegion t r).listed t' = s.listed t' := by
  rw [listed_detachRegion, if_neg h]

/-- `s` is `s₀` with other regions in tree `t`: `rest` and what has been placed so far. -/
structure Partial (s₀ : Store Listing) (t : TreeId) (rest placed : List Region) (s : Store Listing) : Prop where
  ok : s.Ok
  listed : (s.listed t).Perm (placed ++ rest)
  others : ∀ t', t' ≠ t → s.listed t' = s₀.listed t'
  root : s.vmaRoot = s₀.vmaRoot
  treePid : s.treePid = s₀.treePid
  totals : ∀ t', t' ≠ t → s.totals t' = s₀.totals t'
  brk : (s.totals t).brkBase = (s₀.totals t).brkBase ∧ (s.totals t).brkCurrent = (s₀.totals t).brkCurrent ∧
    (s.totals t).brkPeak = (s₀.totals t).brkPeak

variable {s0 : Store Listing} {rest placed : List Region}

theorem Partial.bytes (h : Partial s0 t rest placed s) :
    (s.totals t).mappedBytes = (placed.map Region.length).sum + (rest.map Region.length).sum := by
  rw [h.ok.bytes t, (h.listed.map Region.length).sum_eq, map_append, sum_append]

/-- One piece placed, or refused by the budget. -/
theorem Partial.place (h : Partial s0 t rest placed s) (budget : Option Nat) {pid : Pid} {z : RegionId} {e : Region}
    (ht : s0.vmaRoot pid = some t) (hz : s.Owned z) (hv : e.Valid) (htoken : e.vmaToken ≠ invalidToken)
    (hapart : ∀ x ∈ placed ++ rest, e.Apart x) :
    (s.budgetAllows budget t e → ∃ s', s.place budget pid z e = (true, s') ∧ Partial s0 t rest (e :: placed) s' ∧
      ∀ w, w ≠ z → s.Owned w → s'.Owned w) ∧
    (s.budgetAllows budget t e = false → ∃ s', s.place budget pid z e = (false, s') ∧ Partial s0 t rest placed s' ∧
      s'.Owned z ∧ ∀ w, w ≠ z → s.Owned w → s'.Owned w) := by
  have ht' : s.vmaRoot pid = some t := by rw [h.root]; exact ht
  have hothers := (h.ok.place budget pid hz hv.fits).others
  rcases place_spec h.ok budget ht' hz hv.fits with ⟨l, heq, hvalid, hf, hbud⟩ | ⟨s', heq, hs', hwhy⟩
  · rw [heq] at hothers
    refine ⟨fun _ => ⟨_, heq, ?_, hothers⟩, fun hno => ?_⟩
    · obtain ⟨⟨before, after, hold, hnew⟩, hsame⟩ := hz.listed_placed hf
      refine ⟨h.ok.placed ht' hz hvalid hf, ?_, fun t' htt => (hsame t' htt).trans (h.others t' htt), h.root, h.treePid,
        fun t' htt => ?_, ?_⟩
      · rw [hnew]
        refine perm_middle.trans (Perm.cons e ?_)
        rw [← hold]
        exact h.listed
      · rw [← h.totals t' htt]
        exact Function.update_of_ne htt ..
      · have htot : (((s.setRegion z e).inserted t z l).totals t) = _ := Function.update_self ..
        rw [htot]
        exact h.brk
    · simp [hbud] at hno
  · rw [heq] at hothers
    have hbud : s.budgetAllows budget t e = false := by
      rcases hwhy with hbad | ⟨x, hx, hover⟩ | hbud
      · exact absurd ⟨hv.range, htoken⟩ hbad
      · have hmem := h.listed.mem_iff.1 (mem_map_of_mem hx)
        exact absurd (hapart _ hmem) ((rangesOverlap_iff e _).1 hover)
      · exact hbud
    refine ⟨fun hyes => ?_, fun _ => ⟨s', heq, ?_, ?_, hothers⟩⟩
    · simp [hbud] at hyes
    · rcases hs' with rfl | rfl
      · exact h
      · have hlisted := hz.listed_setRegion e
        exact ⟨h.ok.setRegion_owned hz e, by rw [hlisted]; exact h.listed,
          fun t' htt => by rw [hlisted]; exact h.others t' htt, h.root, h.treePid, h.totals, h.brk⟩
    · rcases hs' with rfl | rfl
      · exact hz
      · exact hz.prepared hv.fits

/-- On whole pages the budget check compares the sum with the limit. -/
theorem budgetCheck_iff {budget : Option Nat} {bytes length : Nat} (hb : bytes % pageBytes = 0) (hl : length % pageBytes = 0)
    (hpos : 0 < length) (hlt : bytes + length < 2 ^ 44) :
    budgetCheck budget (pages32 bytes) (pages32 length) ↔
      ∀ limit, budget = some limit → (bytes + length) / pageBytes ≤ limit := by
  have h1 : pages32 bytes = bytes / pageBytes := by
    simp only [pages32, pageBytes] at *
    omega
  have h2 : pages32 length = length / pageBytes := by
    simp only [pages32, pageBytes] at *
    omega
  rcases budget with _ | limit
  · simp [budgetCheck]
  simp only [budgetCheck, h1, h2, Option.some.injEq, forall_eq', Bool.or_eq_true, Bool.and_eq_true, decide_eq_true_eq]
  simp only [pageBytes] at *
  omega

end Store

/-! ## The pieces -/

open Machine in
/-- The pieces of a region around `[address, stop)`, in address order. -/
def Region.pieces (d : Region) (address stop : Nat) (prot : UInt32) : List Region :=
  (if address > d.virtBase then [prefixOf d address] else []) ++ [middleOf d address stop prot] ++
    (if stop < d.virtEnd then [suffixOf d stop] else [])

/-- A range of whole pages inside a region. -/
structure Region.Inside (d : Region) (address stop : Nat) : Prop where
  base : d.virtBase ≤ address
  lt : address < stop
  within : stop ≤ d.virtEnd
  aligned : address % pageBytes = 0
  stop_aligned : stop % pageBytes = 0

namespace Region

open Machine

variable {d x e : Region} {b : PoolBase} {i address stop : Nat} {prot : UInt32}

theorem splitToken_ne (token : UInt32) {salt : UInt32} (h : salt ≠ 0) : splitToken token salt ≠ invalidToken := by
  unfold splitToken
  split_ifs with hx
  · exact hx
  · exact h

theorem rangeValid_iff (virtBase virtEnd : Nat) :
    rangeValid virtBase virtEnd ↔ virtBase < virtEnd ∧ virtBase % pageBytes = 0 ∧ virtEnd % pageBytes = 0 := by
  unfold rangeValid
  simp only [Bool.and_eq_true, decide_eq_true_eq, and_assoc]

section

variable (h : d.BackedAt b i) (hv : d.Valid)
include h hv

theorem BackedAt.middle_phys (hin : d.Inside address stop) :
    (middleOf d address stop prot).physBase = b.phys (i + (address - d.virtBase) / pageBytes) := by
  have hlen := hv.length_eq
  have hb := hv.base_aligned
  have := hin.aligned
  have := hin.base
  have := hin.lt
  have := hin.within
  have hk : (address - d.virtBase) / pageBytes < d.pages := by
    simp only [length, pageBytes] at *
    omega
  have haddr : address = pageAt d.virtBase ((address - d.virtBase) / pageBytes) := by
    simp only [pageAt, pageBytes] at *
    omega
  conv_lhs => rw [haddr]
  exact h.physicalFor hv hk

theorem BackedAt.suffix_phys (hin : d.Inside address stop) (hs : stop < d.virtEnd) :
    (suffixOf d stop).physBase = b.phys (i + (stop - d.virtBase) / pageBytes) := by
  have hlen := hv.length_eq
  have hb := hv.base_aligned
  have hfits := b.fits
  have hrun := h.run
  have := hin.stop_aligned
  show add64 d.physBase (stop - d.virtBase) = _
  rw [h.phys]
  simp only [add64, PoolBase.phys, length, pageBytes, maxAnonPages] at *
  omega

/-- A part of a region that is backed by its pages. -/
structure Part (b : PoolBase) (d : Region) (i : Nat) (e : Region) : Prop where
  valid : e.Valid
  base : d.virtBase ≤ e.virtBase
  within : e.virtEnd ≤ d.virtEnd
  backed : e.BackedAt b (i + (e.virtBase - d.virtBase) / pageBytes)

/-- Whole pages of a region, with their own physical address, are a part of it. -/
theorem BackedAt.part {e : Region} (hbase : d.virtBase ≤ e.virtBase)
    (hrange : e.virtBase < e.virtEnd ∧ e.virtBase % pageBytes = 0 ∧ e.virtEnd % pageBytes = 0) (hwithin : e.virtEnd ≤ d.virtEnd)
    (hbacking : e.backingType = d.backingType) (htoken : e.vmaToken ≠ invalidToken)
    (hphys : e.physBase = b.phys (i + (e.virtBase - d.virtBase) / pageBytes)) : d.Part b i e := by
  have hrun := h.run
  refine ⟨⟨(rangeValid_iff _ _).2 hrange, hwithin.trans_lt hv.fits⟩, hbase, hwithin, hbacking.trans h.backing, htoken, hphys, ?_⟩
  simp only [pages, length, pageBytes] at *
  omega

end

section

variable (hin : d.Inside address stop) (h : d.BackedAt b i) (hv : d.Valid)
include hin h hv

theorem Inside.prefix_part (hp : address > d.virtBase) :
    d.Part b i (prefixOf d address) := by
  refine h.part hv le_rfl ⟨hp, hv.base_aligned, hin.aligned⟩ (hin.lt.le.trans hin.within) rfl (splitToken_ne _ (by decide)) ?_
  simp [prefixOf, h.phys]

theorem Inside.middle_part :
    d.Part b i (middleOf d address stop prot) :=
  h.part hv hin.base ⟨hin.lt, hin.aligned, hin.stop_aligned⟩ hin.within rfl h.token (h.middle_phys hv hin)

theorem Inside.suffix_part (hs : stop < d.virtEnd) :
    d.Part b i (suffixOf d stop) :=
  h.part hv (hin.base.trans hin.lt.le) ⟨hs, hin.stop_aligned, hv.end_aligned⟩ le_rfl rfl (splitToken_ne _ (by decide))
    (h.suffix_phys hv hin hs)

end

theorem mem_pieces : e ∈ d.pieces address stop prot ↔
    (address > d.virtBase ∧ e = prefixOf d address) ∨ e = middleOf d address stop prot ∨
      (stop < d.virtEnd ∧ e = suffixOf d stop) := by
  unfold pieces
  by_cases hp : d.virtBase < address <;> by_cases hs : stop < d.virtEnd <;> simp [hp, hs]

/-- Written over the region slots that were acquired for the outer pieces. -/
theorem pieces_eq (prot : UInt32) {pre suf : Option RegionId} (hp : pre.isSome = decide (address > d.virtBase))
    (hs : suf.isSome = decide (stop < d.virtEnd)) :
    d.pieces address stop prot =
      pre.toList.map (fun _ => prefixOf d address) ++ [middleOf d address stop prot] ++
        suf.toList.map (fun _ => suffixOf d stop) := by
  unfold pieces
  congr 2
  · rcases pre with _ | z
    · exact if_neg (of_decide_eq_false hp.symm)
    · exact if_pos (of_decide_eq_true hp.symm)
  · rcases suf with _ | z
    · exact if_neg (of_decide_eq_false hs.symm)
    · exact if_pos (of_decide_eq_true hs.symm)

theorem Inside.part (hin : d.Inside address stop) (h : d.BackedAt b i) (hv : d.Valid) (he : e ∈ d.pieces address stop prot) :
    d.Part b i e := by
  rcases mem_pieces.1 he with ⟨hp, rfl⟩ | rfl | ⟨hs, rfl⟩
  · exact hin.prefix_part h hv hp
  · exact hin.middle_part h hv
  · exact hin.suffix_part h hv hs

theorem Part.apart (h : d.Part b i e) (hx : d.Apart x) : e.Apart x := by
  have := h.base
  have := h.within
  unfold Apart Before at *
  omega

theorem Inside.pieces_ordered (hin : d.Inside address stop) (prot : UInt32) : (d.pieces address stop prot).Pairwise Before := by
  have := hin.lt
  unfold pieces
  split_ifs <;> simp [Before, prefixOf, middleOf, suffixOf]
  omega

/-- An address of the region is in one of the pieces. -/
theorem Inside.contains_pieces (hin : d.Inside address stop) (x : Nat) :
    d.Contains x ↔ ∃ e ∈ d.pieces address stop prot, e.Contains x := by
  have := hin.base
  have := hin.lt
  have := hin.within
  simp only [mem_pieces, or_and_right, exists_or, and_assoc, exists_and_left, exists_eq_left, Contains, prefixOf, middleOf,
    suffixOf]
  omega

end Region

/-- The addresses that a list of regions covers, counted. -/
def bytesOf (l : List Region) : Nat := (l.map Region.length).sum

theorem bytesOf_cons (d : Region) (l : List Region) : bytesOf (d :: l) = d.length + bytesOf l := by
  simp [bytesOf]

theorem bytesOf_append (l l' : List Region) : bytesOf (l ++ l') = bytesOf l + bytesOf l' := by
  simp [bytesOf]

theorem bytesOf_le {l l' : List Region} (h : l.Subperm l') : bytesOf l ≤ bytesOf l' := by
  obtain ⟨k, hperm, hk⟩ := h
  rw [bytesOf, ← (hperm.map Region.length).sum_eq]
  exact (hk.map Region.length).sum_le_sum fun _ _ => Nat.zero_le _

theorem Region.Inside.bytesOf_pieces {d : Region} {address stop : Nat} (hin : d.Inside address stop) (prot : UInt32) :
    bytesOf (d.pieces address stop prot) = d.length := by
  have := hin.base
  have := hin.lt
  have := hin.within
  unfold Region.pieces
  split_ifs <;> simp [bytesOf, Region.length, Machine.prefixOf, Machine.middleOf, Machine.suffixOf] <;> omega

/-- The process may have so many bytes mapped. -/
def Within (budget : Option Nat) (bytes : Nat) : Prop := ∀ limit, budget = some limit → bytes / pageBytes ≤ limit

theorem Within.mono {budget : Option Nat} {bytes bytes' : Nat} (h : Within budget bytes') (hle : bytes ≤ bytes') :
    Within budget bytes := fun limit hl => (Nat.div_le_div_right hle).trans (h limit hl)

theorem bytesOf_aligned {l : List Region} (h : ∀ x ∈ l, x.Valid) : bytesOf l % pageBytes = 0 := by
  induction l with
  | nil => rfl
  | cons x xs ih =>
    have hx := (h x mem_cons_self).length_eq
    have hxs := ih fun y hy => h y (mem_cons_of_mem _ hy)
    simp only [bytesOf, map_cons, sum_cons, pageBytes] at *
    omega

namespace Store

variable {s0 s : Store Listing} {t : TreeId} {rest placed : List Region}

section

variable (h : Partial s0 t rest placed s)
include h

theorem Partial.allows_iff {budget : Option Nat} {e : Region} (hv : ∀ x ∈ e :: placed ++ rest, x.Valid)
    (hlt : bytesOf (e :: placed ++ rest) < 2 ^ 44) :
    s.budgetAllows budget t e ↔ Within budget (bytesOf (e :: placed ++ rest)) := by
  have hsum : bytesOf (e :: placed ++ rest) = (s.totals t).mappedBytes + e.length := by
    rw [h.bytes]
    simp only [bytesOf, cons_append, map_cons, map_append, sum_cons, sum_append]
    omega
  have hb : (s.totals t).mappedBytes % pageBytes = 0 := by
    have : bytesOf (placed ++ rest) % pageBytes = 0 := bytesOf_aligned fun x hx => hv x (mem_cons_of_mem e hx)
    rwa [bytesOf_append, bytesOf, bytesOf, ← h.bytes] at this
  have hev := hv e mem_cons_self
  have hpos := hev.lt
  rw [hsum] at hlt ⊢
  exact budgetCheck_iff hb (by rw [hev.length_eq]; exact Nat.mul_mod_left ..) (by unfold Region.length; omega) hlt

theorem Partial.release {z : RegionId} (hz : s.Owned z) :
    Partial s0 t rest placed (s.regionRelease z) := by
  have hlisted : ∀ t', (s.regionRelease z).listed t' = s.listed t' := hz.listed_setRegion .cleared
  exact ⟨h.ok.regionRelease hz.loose, by rw [hlisted]; exact h.listed, fun t' ht => by rw [hlisted]; exact h.others t' ht,
    h.root, h.treePid, h.totals, h.brk⟩

theorem Partial.perm {placed' : List Region} (hp : placed.Perm placed') :
    Partial s0 t rest placed' s := { h with listed := h.listed.trans (hp.append_right rest) }

end

end Store

/-! ## Placing the pieces -/

namespace Machine

open Store

variable {env : Env} {m : Machine Listing} {pid : Pid} {t : TreeId} {s0 : Store Listing} {rest placed : List Region}

/-- A piece that is needed is placed, or refused by the budget and its region given back. -/
theorem placeIf_partial (h : Partial s0 t rest placed m.store) (o : Option RegionId) (e : Region)
    (ht : s0.vmaRoot pid = some t) (ho : ∀ z ∈ o, m.store.Owned z)
    (hv : ∀ z ∈ o, e.Valid ∧ e.vmaToken ≠ invalidToken ∧ ∀ x ∈ placed ++ rest, e.Apart x) :
    (∃ s', m.placeIf pid o e = (true, m.setStore s') ∧ Partial s0 t rest (o.toList.map (fun _ => e) ++ placed) s' ∧
      (∀ w, w ∉ o → m.store.Owned w → s'.Owned w) ∧ ∀ z ∈ o, m.store.budgetAllows (m.budget pid) t e) ∨
    (∃ s' z, m.placeIf pid o e = (false, m.setStore s') ∧ Partial s0 t rest placed s' ∧ z ∈ o ∧
      m.store.budgetAllows (m.budget pid) t e = false) := by
  rcases o with _ | z
  · exact .inl ⟨m.store, rfl, h, fun w _ hw => hw, by simp⟩
  obtain ⟨hev, htoken, hapart⟩ := hv z rfl
  have hspec := h.place (m.budget pid) ht (ho z rfl) hev htoken hapart
  rcases hbud : m.store.budgetAllows (m.budget pid) t e with _ | _
  · right
    obtain ⟨s', heq, hs', hz, -⟩ := hspec.2 hbud
    refine ⟨s'.regionRelease z, z, ?_, hs'.release hz, rfl, rfl⟩
    simp only [placeIf, place, heq, Bool.false_eq_true, if_false, releaseRegion, setStore]
  left
  obtain ⟨s', heq, hs', hothers⟩ := hspec.1 hbud
  refine ⟨s', ?_, hs', ?_, fun _ _ => rfl⟩
  · simp only [placeIf, place, heq, if_true, setStore]
  · intro w hw
    exact hothers w fun hwz => hw (by rw [hwz]; rfl)

/-- The first half of `protectSplit`: the three placements. -/
def placePieces (m : Machine Listing) (pid : Pid) (r : RegionId) (pre suf : Option RegionId) (first middle last : Region) :
    Bool × Machine Listing :=
  if !(m.placeIf pid pre first).1 then (false, (m.placeIf pid pre first).2)
  else
    let m := (m.placeIf pid pre first).2
    if !(m.place pid r middle).1 then (false, (m.place pid r middle).2)
    else (m.place pid r middle).2.placeIf pid suf last

theorem protectSplit_eq (env : Env) (m : Machine Listing) (pid : Pid) (r : RegionId) (pre suf : Option RegionId)
    (d : Region) (address stop : Nat) (prot : UInt32) :
    m.protectSplit env pid r pre suf d address stop prot =
      let split := m.placePieces pid r pre suf (prefixOf d address) (middleOf d address stop prot) (suffixOf d stop)
      let run := PageTable.protectRun (limit env pid) (middleOf d address stop prot) address (pagingProt prot)
        (pageCountFromLength (stop - address)) 0 (split.2.table env pid)
      if split.1 then (run.1, split.2.setTable env pid run.2) else (false, split.2) := by
  unfold protectSplit placePieces
  dsimp only
  split_ifs <;> simp_all

/-- The slots and records of the pieces, as `protect` hands them to the placements. -/
structure Pieces (m : Machine Listing) (r : RegionId) (pre suf : Option RegionId) (first middle last : Region)
    (rest A C : List Region) : Prop where
  before : A = pre.toList.map fun _ => first
  after : C = suf.toList.map fun _ => last
  owned : m.store.Owned r
  owned_pre : ∀ z ∈ pre, m.store.Owned z ∧ z ≠ r
  owned_suf : ∀ z ∈ suf, m.store.Owned z ∧ z ≠ r ∧ z ∉ pre
  valid : ∀ e ∈ A ++ [middle] ++ C, e.Valid ∧ e.vmaToken ≠ invalidToken ∧ ∀ x ∈ rest, e.Apart x
  ordered : (A ++ [middle] ++ C).Pairwise Region.Before
  rest_valid : ∀ x ∈ rest, x.Valid
  bounded : bytesOf (A ++ [middle] ++ C) + bytesOf rest < 2 ^ 44

variable {r : RegionId} {pre suf : Option RegionId} {first middle last : Region} {A C : List Region}

section

variable (hp : m.Pieces r pre suf first middle last rest A C) {s : Store Listing} {z : RegionId} {e : Region}
include hp

/-- What the budget check at a piece compares with the limit. -/
theorem Pieces.allows (pid : Pid) (h : Partial s0 t rest placed s) (hsub : (e :: placed).Subperm (A ++ [middle] ++ C)) :
    s.budgetAllows (m.budget pid) t e ↔ Within (m.budget pid) (bytesOf (e :: placed) + bytesOf rest) := by
  have hle := bytesOf_le hsub
  rw [← bytesOf_append]
  apply h.allows_iff
  · intro x hx
    rcases mem_append.1 hx with hx | hx
    · exact (hp.valid x (hsub.subset hx)).1
    · exact hp.rest_valid x hx
  · have := hp.bounded
    rw [bytesOf_append]
    omega

/-- A piece is refused only if all of them together are too much. -/
theorem Pieces.not_within (h : Partial s0 t rest placed s) (hsub : (e :: placed).Subperm (A ++ [middle] ++ C))
    (hno : s.budgetAllows (m.budget pid) t e = false) :
    ¬ Within (m.budget pid) (bytesOf (A ++ [middle] ++ C) + bytesOf rest) := by
  intro hw
  have hyes := (hp.allows pid h hsub).2 (hw.mono (Nat.add_le_add_right (bytesOf_le hsub) _))
  simp [hno] at hyes

theorem Pieces.before_eq (hz : z ∈ pre) :
    A = [first] := by
  rw [hp.before, hz]
  rfl

theorem Pieces.after_eq (hz : z ∈ suf) :
    C = [last] := by
  rw [hp.after, hz]
  rfl

end

/-- All the pieces are back if the process is within its budget, else only the first ones. -/
theorem placePieces_spec (h : Partial s0 t rest [] m.store) (ht : s0.vmaRoot pid = some t)
    (hp : m.Pieces r pre suf first middle last rest A C) :
    (Within (m.budget pid) (bytesOf (A ++ [middle] ++ C) + bytesOf rest) ∧ ∃ s',
      m.placePieces pid r pre suf first middle last = (true, m.setStore s') ∧
        Partial s0 t rest (A ++ [middle] ++ C) s') ∨
    (¬ Within (m.budget pid) (bytesOf (A ++ [middle] ++ C) + bytesOf rest) ∧ ∃ s' placed lost,
      m.placePieces pid r pre suf first middle last = (false, m.setStore s') ∧ Partial s0 t rest placed s' ∧
        placed ++ lost = A ++ [middle] ++ C ∧ lost ≠ []) := by
  rcases placeIf_partial h pre first ht (fun z hz => (hp.owned_pre z hz).1) (fun z hz => by
    exact hp.valid first (by simp [hp.before_eq hz]))
    with ⟨s1, heq1, hs1, hown1, -⟩ | ⟨s1, z, heq1, hs1, hz, hbud1⟩
  swap
  · have hsub1 : [first].Subperm (A ++ [middle] ++ C) := by
      rw [hp.before_eq hz]
      exact (sublist_append_left _ _).subperm
    refine .inr ⟨hp.not_within h hsub1 hbud1, s1, [], _, ?_, hs1, nil_append _, by simp⟩
    simp only [placePieces, heq1, Bool.not_false, if_true]
  rw [← hp.before, append_nil] at hs1
  have hbefore : ∀ x ∈ A, x.Before middle := fun x hx =>
    (pairwise_append.1 (pairwise_append.1 hp.ordered).1).2.2 x hx middle (mem_singleton_self _)
  have hperm2 : (middle :: A).Perm (A ++ [middle]) := (perm_append_singleton middle A).symm
  have hsub2 := hperm2.subperm.trans (sublist_append_left (A ++ [middle]) C).subperm
  obtain ⟨hv, htok, hapart⟩ := hp.valid middle (by simp)
  have hspec := hs1.place (m.budget pid) ht (hown1 r (fun hr => (hp.owned_pre r hr).2 rfl) hp.owned) hv htok (by
    intro x hx
    rcases mem_append.1 hx with hx | hx
    · exact .inr (hbefore x hx)
    · exact hapart x hx)
  rcases hbud2 : s1.budgetAllows (m.budget pid) t middle with _ | _
  · obtain ⟨s2, heq2, hs2, -⟩ := hspec.2 hbud2
    refine .inr ⟨hp.not_within hs1 hsub2 hbud2, s2, A, [middle] ++ C, ?_, hs2, (append_assoc ..).symm, by simp⟩
    simp [placePieces, heq1, place, setStore, heq2]
  obtain ⟨s2, heq2, hs2, hown2⟩ := hspec.1 hbud2
  have hafter : ∀ y ∈ C, ∀ x ∈ A ++ [middle], x.Before y := fun y hy x hx =>
    (pairwise_append.1 hp.ordered).2.2 x hx y hy
  have hrun : m.placePieces pid r pre suf first middle last = (m.setStore s2).placeIf pid suf last := by
    simp [placePieces, heq1, place, setStore, heq2]
  have hperm3 : (C ++ middle :: A).Perm (A ++ [middle] ++ C) := perm_append_comm.trans (hperm2.append_right C)
  have hsub3 : ∀ z ∈ suf, (last :: middle :: A).Subperm (A ++ [middle] ++ C) := by
    intro z hz
    rw [hp.after_eq hz] at hperm3 ⊢
    exact hperm3.subperm
  rcases placeIf_partial (m := m.setStore s2) hs2 suf last ht (fun z hz => by
      obtain ⟨hz', hne, hnot⟩ := hp.owned_suf z hz
      exact hown2 z hne (hown1 z hnot hz')) (fun z hz => by
      have hmem : last ∈ C := by simp [hp.after_eq hz]
      obtain ⟨hv, htok, hapart⟩ := hp.valid last (mem_append_right _ hmem)
      refine ⟨hv, htok, ?_⟩
      intro x hx
      rcases mem_append.1 hx with hx | hx
      · exact .inr (hafter _ hmem x (hperm2.mem_iff.1 hx))
      · exact hapart x hx)
    with ⟨s3, heq3, hs3, -, hbud3⟩ | ⟨s3, z, heq3, hs3, hz, hbud3⟩
  · rw [← hp.after] at hs3
    refine .inl ⟨?_, s3, hrun.trans heq3, hs3.perm hperm3⟩
    rw [bytesOf, ← (hperm3.map Region.length).sum_eq, ← bytesOf]
    rcases suf with _ | z
    · rw [hp.after]
      exact (hp.allows pid hs1 hsub2).1 hbud2
    · rw [hp.after_eq rfl]
      exact (hp.allows pid hs2 (hsub3 z rfl)).1 (hbud3 z rfl)
  · exact .inr ⟨hp.not_within hs2 (hsub3 z hz) hbud3, s3, A ++ [middle], C, hrun.trans heq3, hs3.perm hperm2, rfl,
      by simp [hp.after_eq hz]⟩

end Machine

end LimitlessOS.Vma
