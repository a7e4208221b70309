/-
  LimitlessOS.Linux.UserBuffers — the check of user buffers (`arch/x86_64/linux_abi.c`).

  `linux_abi64_user_buffer_readable` and `…_writable` walk a buffer page by page: each part
  must lie in a region that permits the access, and its page must be present and permit it
  too. The two functions differ in the protection bit only.

  The page tables are asked by the bits 12 to 47 of an address. A process can map a region
  above them (`MAP_FIXED` takes any page address), whose entries are those of the address
  below with the same bits: the check accepts a buffer there, which is no address of user
  space and faults when the kernel touches it.

  Proved, in every reachable state:
  - `userBuffer_iff`: the check accepts when every byte is permitted, by its region and by the
    entry of its page.
  - `userBuffer_exact_iff`: this is what it should accept, unless all is permitted and the
    buffer does not lie in user space.
  - `buffer_above_user_space`: a mapping at `0x1000044000000` is accepted.
-/
import LimitlessOS.Vma.ProtectContract

namespace LimitlessOS.Linux

open Vma Vma.Machine PageTable

/-- What a buffer is checked for. -/
inductive Access where
  | read
  | write
  deriving DecidableEq, Repr

/-- `VMA64_PROT_READ` and `VMA64_PROT_WRITE`, which are also those of the pages. -/
def Access.bit : Access → UInt32
  | .read => protRead
  | .write => protWrite

section Model

variable {Ix : Type} [RegionIndex Ix]

/-- Where the next part begins: on the next page, at the end of the region or at that of the buffer. -/
def nextPart (regionEnd stop cursor : Nat) : Nat :=
  let nextPage := add64 (alignDown cursor) pageBytes
  let next := if nextPage < stop then nextPage else stop
  if regionEnd < next then regionEnd else next

/-- The loop over the parts. -/
def bufferLoop (env : Env) (m : Machine Ix) (pid : Pid) (access : Access) (stop cursor : Nat) : Bool :=
  if cursor < stop then
    match m.store.find pid cursor with
    | none => false
    | some r =>
      let d := m.store.region r
      let page := alignDown cursor
      if cursor < d.virtBase ∨ d.virtEnd ≤ cursor ∨ d.protFlags &&& access.bit = 0 ∨ (m.table env pid).present page = false
          ∨ (m.table env pid).protection page &&& access.bit = 0 then false
      else if nextPart d.virtEnd stop cursor ≤ cursor then false
      else bufferLoop env m pid access stop (nextPart d.virtEnd stop cursor)
  else true
termination_by stop - cursor
decreasing_by
  have hnext : ¬ nextPart (m.store.region r).virtEnd stop cursor ≤ cursor := ‹_›
  omega

def userBuffer (env : Env) (m : Machine Ix) (access : Access) (pid : Pid) (address : UInt64) (byteCount : UInt32) : Bool :=
  if byteCount = 0 then true
  else if address = 0 ∨ add64 address.toNat byteCount.toNat < address.toNat then false
  else bufferLoop env m pid access (address.toNat + byteCount.toNat) address.toNat

/-- `linux_abi64_user_buffer_readable` -/
def userBufferReadable (env : Env) (m : Machine Ix) (pid : Pid) (address : UInt64) (byteCount : UInt32) : Bool :=
  userBuffer env m .read pid address byteCount

/-- `linux_abi64_user_buffer_writable` -/
def userBufferWritable (env : Env) (m : Machine Ix) (pid : Pid) (address : UInt64) (byteCount : UInt32) : Bool :=
  userBuffer env m .write pid address byteCount

/-! ## What is permitted -/

/-- The region of the address and the entry of its page permit the access. -/
@[mk_iff] structure Permitted (env : Env) (m : Machine Ix) (access : Access) (pid : Pid) (x : Nat) : Prop where
  region : ∃ d ∈ m.regionsOf pid, d.Contains x ∧ d.protFlags &&& access.bit ≠ 0
  page : ∃ e, (m.table env pid).lookup x = some e ∧ e.protection &&& access.bit ≠ 0

/-- The lower canonical half. -/
def UserSpace (x : Nat) : Prop := x < 2 ^ 47

/-- A buffer that may be copied. -/
def Allowed (env : Env) (m : Machine Ix) (access : Access) (pid : Pid) (address : UInt64) (byteCount : UInt32) : Prop :=
  byteCount = 0 ∨ address.toNat + byteCount.toNat < 2 ^ 64 ∧
    ∀ i < byteCount.toNat, UserSpace (address.toNat + i) ∧ Permitted env m access pid (address.toNat + i)

/-- The buffer is empty, lies in user space, or has a byte that is not permitted. -/
def Proper (env : Env) (m : Machine Ix) (access : Access) (pid : Pid) (address : UInt64) (byteCount : UInt32) : Prop :=
  byteCount = 0 ∨ address.toNat + byteCount.toNat ≤ 2 ^ 47 ∨
    ¬ ∀ i < byteCount.toNat, Permitted env m access pid (address.toNat + i)

end Model

/-! ## On a listed machine -/

section Listed

variable {env : Env} {a : Machine Listing} {access : Access} {pid : Pid} {cursor stop x : Nat} {p : PageTable} {r : RegionId}
  {d : Region}

theorem lookup_alignDown (p : PageTable) (x : Nat) : p.lookup (alignDown x) = p.lookup x := by
  apply lookup_congr
  simp only [pageNumber, alignDown, pageBytes]
  omega

/-- What the loop asks of the page, by its entry. -/
theorem page_iff (p : PageTable) (x : Nat) :
    ¬ (p.present (alignDown x) = false ∨ p.protection (alignDown x) &&& access.bit = 0) ↔
      ∃ e, p.lookup x = some e ∧ e.protection &&& access.bit ≠ 0 := by
  rw [present, protection, lookup_alignDown]
  cases p.lookup x with
  | none => simp
  | some e => simp

/-- An entry is selected by the window bits, so its page is not the last one. -/
theorem next_page_lt {e : Pte} (h : p.lookup x = some e) (hx : x < 2 ^ 64) :
    add64 (alignDown x) pageBytes = alignDown x + pageBytes := by
  have hwindow : inUserWindow x := (Bool.and_eq_true _ _ ▸ hasSlot_of_lookup h).1
  rw [inUserWindow_iff] at hwindow
  simp only [pageNumber, pageBytes] at hwindow
  simp only [add64, alignDown, pageBytes]
  omega

theorem find_region (h : a.store.find pid x = some r) :
    a.store.region r ∈ a.regionsOf pid ∧ (a.store.region r).Contains x := by
  obtain ⟨t, ht, hr, hcontains⟩ := Store.find_some h
  rw [regionsOf_root ht]
  exact ⟨List.mem_map_of_mem hr, hcontains⟩

theorem region_find (hok : a.store.Ok) (hd : d ∈ a.regionsOf pid) (hx : d.Contains x) :
    ∃ r, a.store.find pid x = some r ∧ a.store.region r = d := by
  cases ht : a.store.vmaRoot pid with
  | none =>
    simp [regionsOf, ht] at hd
  | some t =>
    rw [regionsOf_root ht] at hd
    obtain ⟨r, hr, rfl⟩ := List.mem_map.1 hd
    exact ⟨r, hok.find_of_contains ht hr hx, rfl⟩

/-- A part has one region and one page, so its bytes are permitted together. -/
theorem part_permitted (hfind : a.store.find pid cursor = some r) (hstop : stop < 2 ^ 64) (hcursor : cursor < stop)
    (hprot : (a.store.region r).protFlags &&& access.bit ≠ 0)
    (hpage : ∃ e, (a.table env pid).lookup cursor = some e ∧ e.protection &&& access.bit ≠ 0) (hx : cursor ≤ x)
    (hnext : x < nextPart (a.store.region r).virtEnd stop cursor) : Permitted env a access pid x := by
  obtain ⟨hmem, hcontains⟩ := find_region hfind
  obtain ⟨e, he, hbit⟩ := hpage
  have hadd := next_page_lt he (by omega)
  unfold nextPart at hnext
  simp only [hadd] at hnext
  have hlt : x < alignDown cursor + pageBytes ∧ x < (a.store.region r).virtEnd := by
    split_ifs at hnext <;> omega
  refine ⟨⟨_, hmem, ⟨by have := hcontains.1; omega, hlt.2⟩, hprot⟩, e, ?_, hbit⟩
  rw [← he]
  apply lookup_congr
  simp only [alignDown, pageBytes] at hlt
  simp only [pageNumber, pageBytes]
  omega

theorem nextPart_gt {e : Pte} (he : p.lookup cursor = some e) (hcontains : d.Contains cursor) (hstop : stop < 2 ^ 64)
    (hcursor : cursor < stop) :
    cursor < nextPart d.virtEnd stop cursor ∧ nextPart d.virtEnd stop cursor ≤ stop := by
  have hadd := next_page_lt he (by omega)
  have hpage : cursor < alignDown cursor + pageBytes := by
    simp only [alignDown, pageBytes]
    omega
  have hend := hcontains.2
  unfold nextPart
  simp only [hadd]
  split_ifs <;> omega

theorem bufferLoop_iff (hok : a.store.Ok) (hstop : stop < 2 ^ 64) :
    bufferLoop env a pid access stop cursor ↔ ∀ x, cursor ≤ x → x < stop → Permitted env a access pid x := by
  -- the part that is left gets shorter
  induction hn : stop - cursor using Nat.strong_induction_on generalizing cursor with
  | _ n ih =>
    rw [bufferLoop]
    split_ifs with hcursor
    · cases hfind : a.store.find pid cursor with
      | none =>
        refine iff_of_false (by simp) fun h => ?_
        obtain ⟨d, hd, hcontains, -⟩ := (h cursor (Nat.le_refl _) hcursor).region
        obtain ⟨r, hr, -⟩ := region_find hok hd hcontains
        simp [hfind] at hr
      | some r =>
        obtain ⟨-, hcontains⟩ := find_region hfind
        dsimp only
        have hhere : ¬ (cursor < (a.store.region r).virtBase ∨ (a.store.region r).virtEnd ≤ cursor ∨
              (a.store.region r).protFlags &&& access.bit = 0 ∨ (a.table env pid).present (alignDown cursor) = false ∨
              (a.table env pid).protection (alignDown cursor) &&& access.bit = 0) ↔
            (a.store.region r).protFlags &&& access.bit ≠ 0 ∧
              ∃ e, (a.table env pid).lookup cursor = some e ∧ e.protection &&& access.bit ≠ 0 := by
          rw [← page_iff]
          have := hcontains.1
          have := hcontains.2
          constructor
          · intro h
            simp only [not_or] at h ⊢
            exact ⟨h.2.2.1, h.2.2.2⟩
          · rintro ⟨hprot, hpage⟩
            simp only [not_or] at hpage ⊢
            exact ⟨by omega, by omega, hprot, hpage⟩
        split
        · rename_i hbad
          refine iff_of_false (by simp) fun h => hhere.2 ?_ hbad
          obtain ⟨⟨d, hd, hcontains, hprot⟩, hpage⟩ := h cursor (Nat.le_refl _) hcursor
          obtain ⟨r', hr', rfl⟩ := region_find hok hd hcontains
          obtain rfl : r = r' := Option.mem_unique hfind hr'
          exact ⟨hprot, hpage⟩
        · rename_i hbad
          obtain ⟨hprot, e, he, hbit⟩ := hhere.1 hbad
          obtain ⟨hgt, hle⟩ := nextPart_gt he hcontains hstop hcursor
          rw [if_neg (by omega), ih _ (by omega) rfl]
          constructor
          · intro h x hx hxs
            by_cases hpart : x < nextPart (a.store.region r).virtEnd stop cursor
            · exact part_permitted hfind hstop hcursor hprot ⟨e, he, hbit⟩ hx hpart
            · exact h x (by omega) hxs
          · intro h x hx hxs
            exact h x (by omega) hxs
    · exact iff_of_true rfl fun x hx hxs => absurd (Nat.lt_of_le_of_lt hx hxs) hcursor

end Listed

/-! ## On the machine of the code -/

section Reached

variable {env : Env} {held : RegionId → Prop} {m : Machine Links} {a : Machine Listing} {budget : Pid → Option Nat}

theorem bufferLoop_refines (h : Refines held m a) (pid : Pid) (access : Access) (stop cursor : Nat) :
    bufferLoop env m pid access stop cursor = bufferLoop env a pid access stop cursor := by
  induction hn : stop - cursor using Nat.strong_induction_on generalizing cursor with
  | _ n ih =>
    rw [bufferLoop, bufferLoop, h.store.find, h.table]
    by_cases hcursor : cursor < stop
    · rcases a.store.find pid cursor with _ | r
      · rfl
      dsimp only
      rw [h.store.region]
      by_cases hnext : nextPart (a.store.region r).virtEnd stop cursor ≤ cursor
      · rw [if_pos hnext, if_pos hnext]
      · rw [if_neg hnext, if_neg hnext, ih _ (by omega) _ rfl]
    · rw [if_neg hcursor, if_neg hcursor]

theorem permitted_refines (h : Refines held m a) (access : Access) (pid : Pid) (x : Nat) :
    Permitted env m access pid x ↔ Permitted env a access pid x := by
  have hregions : m.regionsOf pid = a.regionsOf pid := by
    rw [regionsOf, regionsOf, h.store.vmaRoot]
    cases a.store.vmaRoot pid with
    | none => rfl
    | some t => exact h.store.listed t
  rw [permitted_iff, permitted_iff, hregions, h.table]

theorem toNat_eq_zero {n : UInt32} : n.toNat = 0 ↔ n = 0 := by
  rw [← UInt32.toNat_inj]
  rfl

/-- Nothing is permitted at the very top. -/
theorem not_permitted_top (hok : a.store.Ok) (access : Access) (pid : Pid) : ¬ Permitted env a access pid (2 ^ 64 - 1) := by
  rintro ⟨⟨d, hd, hcontains, -⟩, -⟩
  obtain ⟨r, hfind, rfl⟩ := region_find hok hd hcontains
  obtain ⟨t, -, hr, -⟩ := Store.find_some hfind
  have hfits := ((hok.layout t).valid _ (List.mem_map_of_mem hr)).fits
  have hend := hcontains.2
  omega

/-- The check accepts when every byte is permitted. -/
theorem userBuffer_iff (h : Reachable env budget m) (access : Access) (pid : Pid) (address : UInt64) (byteCount : UInt32) :
    userBuffer env m access pid address byteCount ↔
      ∀ i < byteCount.toNat, Permitted env m access pid (address.toNat + i) := by
  obtain ⟨a, ha, hsound⟩ := reachable_sound h
  simp only [permitted_refines ha]
  unfold userBuffer
  by_cases hcount : byteCount = 0
  · rw [if_pos hcount]
    exact iff_of_true rfl fun i hi => by simp [hcount] at hi
  have hpos : byteCount.toNat ≠ 0 := fun h => hcount (toNat_eq_zero.1 h)
  have haddress := address.toNat_lt
  have hsmall := byteCount.toNat_lt
  split_ifs with hbad
  · refine iff_of_false (by simp) fun hall => ?_
    rcases hbad with rfl | hwraps
    · -- no page is present at 0
      obtain ⟨e, he, -⟩ := (hall 0 (by omega)).page
      cases he
    · unfold add64 at hwraps
      have htop := hall (2 ^ 64 - 1 - address.toNat) (by omega)
      rw [show address.toNat + (2 ^ 64 - 1 - address.toNat) = 2 ^ 64 - 1 by omega] at htop
      exact not_permitted_top hsound.ok access pid htop
  · have hfits : address.toNat + byteCount.toNat < 2 ^ 64 := by
      have hno := (not_or.1 hbad).2
      unfold add64 at hno
      omega
    rw [bufferLoop_refines ha, bufferLoop_iff hsound.ok hfits]
    constructor
    · intro hall i hi
      exact hall _ (by omega) (by omega)
    · intro hall x hx hstop
      have := hall (x - address.toNat) (by omega)
      rwa [show address.toNat + (x - address.toNat) = x by omega] at this

theorem userBuffer_allowed_iff (h : Reachable env budget m) (access : Access) (pid : Pid) (address : UInt64)
    (byteCount : UInt32) :
    (userBuffer env m access pid address byteCount ↔ Allowed env m access pid address byteCount) ↔
      Proper env m access pid address byteCount := by
  rw [userBuffer_iff h]
  have hzero : byteCount = 0 ↔ byteCount.toNat = 0 := toNat_eq_zero.symm
  unfold Allowed Proper UserSpace
  rw [hzero]
  generalize address.toNat = n
  generalize byteCount.toNat = count
  constructor
  · intro hexact
    by_cases hall : ∀ i < count, Permitted env m access pid (n + i)
    · rcases hexact.1 hall with hempty | ⟨-, hspace⟩
      · exact .inl hempty
      · by_cases hempty : count = 0
        · exact .inl hempty
        · have := (hspace (count - 1) (by omega)).1
          exact .inr (.inl (by omega))
    · exact .inr (.inr hall)
  · intro hproper
    constructor
    · intro hall
      rcases hproper with hempty | hspace | hsome
      · exact .inl hempty
      · exact .inr ⟨by omega, fun i hi => ⟨by omega, hall i hi⟩⟩
      · exact absurd hall hsome
    · rintro (hempty | ⟨-, hspace⟩) i hi
      · omega
      · exact (hspace i hi).2

/-- Both checks accept exactly the buffers that may be copied, where the buffer is proper. -/
theorem userBuffer_exact_iff {budget : Pid → Option Nat} (h : Reachable env budget m) (pid : Pid) (address : UInt64)
    (byteCount : UInt32) :
    ((userBufferReadable env m pid address byteCount = true ↔ Allowed env m .read pid address byteCount) ↔
        Proper env m .read pid address byteCount) ∧
      ((userBufferWritable env m pid address byteCount = true ↔ Allowed env m .write pid address byteCount) ↔
        Proper env m .write pid address byteCount) :=
  ⟨userBuffer_allowed_iff h .read pid address byteCount, userBuffer_allowed_iff h .write pid address byteCount⟩

/-- Sixteen bytes of the first page of a process. -/
theorem userBuffer_exact_first :
    let m := (boot Links.boot fun _ => none).run .sample [.mapAnon 1 0 0x1000 3 9]
    Reachable .sample (fun _ => none) m ∧
      (userBufferReadable .sample m 1 0x44000000 16 = true ↔ Allowed .sample m .read 1 0x44000000 16) := by
  refine ⟨Reachable.boot.run _, (userBuffer_exact_iff (Reachable.boot.run _) 1 0x44000000 16).1.2 ?_⟩
  exact .inr (.inl (by decide))

/-- A page that is mapped at a fixed place above user space: both checks accept its first byte. -/
theorem buffer_above_user_space :
    let m := (boot Links.boot fun _ => none).run .sample [.mapAnon 1 0x1000044000000 0x1000 3 13]
    Reachable .sample (fun _ => none) m ∧
      userBufferReadable .sample m 1 0x1000044000000 1 = true ∧ userBufferWritable .sample m 1 0x1000044000000 1 = true ∧
      ¬ Allowed .sample m .read 1 0x1000044000000 1 ∧ ¬ Allowed .sample m .write 1 0x1000044000000 1 := by
  refine ⟨Reachable.boot.run _, by decide +kernel, by decide +kernel, ?_, ?_⟩
  · rintro (hempty | ⟨-, hall⟩)
    · exact absurd hempty (by decide)
    · exact absurd (hall 0 (by decide)).1 (by unfold UserSpace; decide)
  · rintro (hempty | ⟨-, hall⟩)
    · exact absurd hempty (by decide)
    · exact absurd (hall 0 (by decide)).1 (by unfold UserSpace; decide)

end Reached

end LimitlessOS.Linux
