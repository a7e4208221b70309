/-
  LimitlessOS.Fs.Syscalls — the file calls of user code (`syscall64_dispatch` in `arch/x86_64/syscall.c`).

  The registers of a call hold a handle, an address and packed counts. The service checks
  an address and a count with the predicates that it also uses for the kernel's own
  callers, which take in the kernel half of the address space.

  Proved:
  - `confined_of_allows`: a copy that passes its check lies in the windows of the user stack
    and the user image, unless its address is in the kernel half.
  - `dispatch_touches`: a call makes at most one copy, that of `attempt`, if it passes the check.
  - `confines_iff`: a call stays in the windows if and only if the copy it gets to is empty or
    its address is not in the kernel half.

  `confines_fails`: a path that stands in the kernel half is read.
-/
import LimitlessOS.Fs.Steps

namespace LimitlessOS.Fs

open Lib Capability Ramfs UInt32 Server Option

/-! ## Windows -/

/-- The byte is in the user stack or the user image. -/
def InWindow (imageSize : UInt32) (a : Nat) : Prop :=
  0x4001F000 ≤ a ∧ a < 0x40020000 ∨ 0x41000000 ≤ a ∧ a < 0x41000000 + imageSize.toNat

/-- Every byte of the copy is in a window. -/
def Access.Confined (imageSize : UInt32) (a : Access) : Prop :=
  ∀ k < a.count.toNat, InWindow imageSize (a.address.toNat + k)

variable {a : Access} {count imageSize : UInt32} {address : UInt64}

theorem rangeOverflows_eq_false :
    rangeOverflows address count = false ↔ count = 0 ∨ address.toNat + count.toNat < 2 ^ 64 := by
  have hc := count.toNat_lt
  unfold rangeOverflows
  split
  · simp [*]
  · rename_i hne
    simp only [hne, false_or, decide_eq_false_iff_not, UInt64.not_lt, UInt64.le_iff_toNat_le, UInt64.toNat_add,
      toNat_toUInt64]
    omega

theorem end_of_range (h : rangeOverflows address count = false) :
    (address + count.toUInt64).toNat = address.toNat + count.toNat := by
  rw [UInt64.toNat_add, toNat_toUInt64]
  rcases rangeOverflows_eq_false.1 h with rfl | h
  · simp
  · omega

/-- The kernel half starts at 0xFFFFFFFF80000000. -/
theorem addressIsKernelHigh_iff : addressIsKernelHigh address count ↔
      rangeOverflows address count = false ∧ 0xFFFFFFFF80000000 ≤ address.toNat := by
  have ha := address.toNat_lt
  unfold addressIsKernelHigh
  cases ho : rangeOverflows address count with
  | true => simp
  | false =>
    have hend := end_of_range ho
    simp only [Bool.false_eq_true, if_false, Bool.and_eq_true, decide_eq_true_eq, ge_iff_le, le_iff_toNat_le,
      UInt64.le_iff_toNat_le, hend, UInt64.toNat_toUInt32, UInt64.toNat_shiftRight, true_and]
    have h1 : (0xFFFFFFFF : UInt32).toNat = 0xFFFFFFFF := rfl
    have h2 : (0x80000000 : UInt32).toNat = 0x80000000 := rfl
    have h3 : (32 : UInt64).toNat % 64 = 32 := rfl
    rw [h1, h2, h3, Nat.shiftRight_eq_div_pow]
    omega

/-- A range without overflow that is checked against a window is inside it. -/
theorem confined_of_window {low high : UInt64} {write : Bool}
    (h : (if rangeOverflows address count then false else address ≥ low && address + count.toUInt64 ≤ high) = true)
    (hwindow : ∀ x, low.toNat ≤ x → x < high.toNat → InWindow imageSize x) :
    Access.Confined imageSize ⟨address, count, write⟩ := by
  cases ho : rangeOverflows address count with
  | true => simp [ho] at h
  | false =>
    simp only [ho, Bool.false_eq_true, if_false, Bool.and_eq_true, decide_eq_true_eq, ge_iff_le, UInt64.le_iff_toNat_le,
      end_of_range ho] at h
    exact fun k hk => hwindow _ (Nat.le_add_right_of_le h.1) (lt_of_lt_of_le (Nat.add_lt_add_left hk _) h.2)

/-- No byte of the kernel half is in a window. -/
theorem not_confined_kernelHigh (h : addressIsKernelHigh a.address a.count)
    (hne : a.count ≠ 0) : ¬ a.Confined imageSize := by
  intro hconfined
  have hhigh := (addressIsKernelHigh_iff.1 h).2
  have hsize := imageSize.toNat_lt
  have hpos : 0 < a.count.toNat := Nat.pos_of_ne_zero fun h0 => hne (UInt32.toNat_inj.1 h0)
  rcases hconfined 0 hpos with hstack | himage <;> omega

/-- The check that a copy has to pass. -/
def Server.allows (s : Server) (a : Access) : Bool :=
  if a.write then addressWritable a.address a.count else addressReadable s.imageSize a.address a.count

/-- The kernel half always passes. -/
theorem not_kernelHigh_of_not_allows {s : Server} (h : ¬ s.allows a) :
    addressIsKernelHigh a.address a.count = false := by
  by_contra hhigh
  rw [Bool.not_eq_false] at hhigh
  have hne : a.address ≠ 0 := by
    intro h0
    have := (addressIsKernelHigh_iff.1 hhigh).2
    simp [h0] at this
  refine h ?_
  unfold allows addressWritable addressReadable
  by_cases hcount : a.count = 0 <;> simp [hhigh, hne, hcount]

/-- A copy that passes its check stays in the windows if and only if it is not one of the kernel half. -/
theorem confined_of_allows {s : Server} (h : s.allows a) :
    a.Confined s.imageSize ↔ a.count = 0 ∨ addressIsKernelHigh a.address a.count = false := by
  constructor
  · intro hconfined
    by_cases hne : a.count = 0
    · exact .inl hne
    · right
      by_contra hhigh
      exact not_confined_kernelHigh (Bool.not_eq_false _ ▸ hhigh) hne hconfined
  · intro hlow
    by_cases hne : a.count = 0
    · intro k hk
      simp [hne] at hk
    have hlow := hlow.resolve_left hne
    obtain ⟨address, count, write⟩ := a
    cases write with
    | true =>
      simp only [allows, addressWritable, if_true] at h hlow hne
      split at h
      · contradiction
      · split_ifs at h
        rw [hlow, Bool.false_or] at h
        exact confined_of_window h fun _ hlow hhigh => .inl ⟨hlow, hhigh⟩
    | false =>
      simp only [allows, addressReadable, Bool.false_eq_true, if_false] at h hlow hne
      split at h
      · contradiction
      split_ifs at h
      rw [hlow, Bool.false_or, Bool.or_eq_true] at h
      rcases h with h | h
      · exact confined_of_window h fun _ hlow hhigh => .inl ⟨hlow, hhigh⟩
      · refine confined_of_window h fun x hlow hhigh => .inr ⟨hlow, ?_⟩
        exact lt_of_lt_of_le hhigh (Nat.mod_le _ _)

/-! ## Calls -/

/-- The file calls of `X64_SYSCALL_FS_*`. -/
inductive Syscall
  | fsOpen | fsCreate | fsList | fsRead | fsWrite | fsStat | fsRevoke | fsRename | fsMove | fsNodeRights | fsNodeOwner
  deriving DecidableEq

/-- `syscall64_pack_low32` -/
def packLow32 (packed : UInt64) : UInt32 := packed.toUInt32

/-- `syscall64_pack_high32` -/
def packHigh32 (packed : UInt64) : UInt32 := (packed >>> 32).toUInt32

/-- `syscall64_pack_low16` -/
def packLow16 (packed : UInt64) : UInt32 := (packed &&& 0xFFFF).toUInt32

/-- `syscall64_pack_mid16` -/
def packMid16 (packed : UInt64) : UInt32 := ((packed >>> 16) &&& 0xFFFF).toUInt32

/-- A call and its registers; `memory` is what stands at the address it passes. -/
structure Call where
  number : Syscall
  arg0 : UInt64
  arg1 : UInt64
  arg2 : UInt64
  memory : Nat → UInt8
  storage : Storage

namespace Server

/-- The file calls of `syscall64_dispatch`. -/
def dispatch (s : Server) (c : Call) : UInt32 × Server :=
  match c.number with
  | .fsOpen => s.openCommon c.arg0.toUInt32 (.user c.arg1 c.memory) (packLow32 c.arg2) (packHigh32 c.arg2) c.storage
  | .fsCreate =>
    s.createCommon c.arg0.toUInt32 (.user c.arg1 c.memory) (packLow16 c.arg2) (packMid16 c.arg2) (packHigh32 c.arg2)
  | .fsList => s.list c.arg0.toUInt32 (some c.arg1) (packLow32 c.arg2) (packHigh32 c.arg2)
  | .fsRead => s.read c.arg0.toUInt32 (some c.arg1) (packMid16 c.arg2) (packLow16 c.arg2) (packHigh32 c.arg2) c.storage
  | .fsWrite => s.write c.arg0.toUInt32 (.user c.arg1 c.memory) (packMid16 c.arg2) (packLow16 c.arg2) (packHigh32 c.arg2)
  | .fsStat => s.stat c.arg0.toUInt32 (some c.arg1) (packLow32 c.arg2) (packHigh32 c.arg2)
  | .fsRevoke => s.revoke c.arg0.toUInt32 c.arg2.toUInt32
  | .fsRename =>
    s.renameCommon c.arg0.toUInt32 (.user c.arg1 c.memory) (packLow16 c.arg2) (packMid16 c.arg2) (packHigh32 c.arg2)
  | .fsMove =>
    s.moveCommon c.arg0.toUInt32 (packHigh32 c.arg1) (.user (packLow32 c.arg1).toUInt64 c.memory) (packLow16 c.arg2)
      (packMid16 c.arg2) (packHigh32 c.arg2)
  | .fsNodeRights => s.nodeRights c.arg0.toUInt32 c.arg2.toUInt32
  | .fsNodeOwner => s.nodeOwner c.arg0.toUInt32 c.arg2.toUInt32

/-! ### The copy of a call -/

/-- The copy of a path below a base. -/
def attemptPath (s : Server) (right handle owner : UInt32) (address : UInt64) (count : UInt32) : Option Access :=
  if count = 0 ∨ pathScratchBytes ≤ count.toNat then none
  else if (s.resolveBaseNode handle right owner).1.isSome then some ⟨address, count, false⟩ else none

/-- The copy of what has been read from a node. -/
def attemptOut (s : Server) (right handle owner : UInt32) (address : UInt64) (bytes : Server → Record → Option (List UInt8)) :
    Option Access :=
  match s.resolveNodeCapability handle right owner with
  | (none, _) => none
  | (some i, s) => (bytes s (s.caps.slots i)).map fun bytes => ⟨address, UInt32.ofNat bytes.length, true⟩

/-- The copy that a call makes if the address passes the check: what its registers and the state before it let it get to. -/
def attempt (s : Server) (c : Call) : Option Access :=
  match c.number with
  | .fsOpen => s.attemptPath rightList c.arg0.toUInt32 (packHigh32 c.arg2) c.arg1 (packLow32 c.arg2)
  | .fsCreate => s.attemptPath rightCreate c.arg0.toUInt32 (packHigh32 c.arg2) c.arg1 (packLow16 c.arg2)
  | .fsList => s.attemptOut rightList c.arg0.toUInt32 (packHigh32 c.arg2) c.arg1 (listBytes (packLow32 c.arg2))
  | .fsRead =>
    s.attemptOut rightRead c.arg0.toUInt32 (packHigh32 c.arg2) c.arg1
      (readBytes (packMid16 c.arg2) (packLow16 c.arg2) (packHigh32 c.arg2) c.storage)
  | .fsWrite =>
    if (s.resolveNodeCapability c.arg0.toUInt32 rightWrite (packHigh32 c.arg2)).1.isSome then
      some ⟨c.arg1, clampCount (packLow16 c.arg2), false⟩
    else none
  | .fsStat => s.attemptOut rightStat c.arg0.toUInt32 (packHigh32 c.arg2) c.arg1 (statBytes (packLow32 c.arg2))
  | .fsRename =>
    if !pairFits (packLow16 c.arg2) (packMid16 c.arg2) then none
    else if (s.resolveBaseNode c.arg0.toUInt32 rightRename (packHigh32 c.arg2)).1.isSome then
      some ⟨c.arg1, packLow16 c.arg2 + 1 + packMid16 c.arg2, false⟩
    else none
  | .fsMove =>
    if !pairFits (packLow16 c.arg2) (packMid16 c.arg2) then none
    else
      match s.resolveBaseNode c.arg0.toUInt32 rightRename (packHigh32 c.arg2) with
      | (none, _) => none
      | (some _, s) =>
        if (s.resolveBaseNode (packHigh32 c.arg1) rightRename (packHigh32 c.arg2)).1.isSome then
          some ⟨(packLow32 c.arg1).toUInt64, packLow16 c.arg2 + 1 + packMid16 c.arg2, false⟩
        else none
  | .fsRevoke | .fsNodeRights | .fsNodeOwner => none

/-- Nothing is copied. -/
structure Still (s s' : Server) : Prop where
  touched : s'.touched = s.touched
  imageSize : s'.imageSize = s.imageSize

theorem Still.refl (s : Server) : Still s s := ⟨rfl, rfl⟩

theorem Still.trans {a b c : Server} (hab : Still a b) (hbc : Still b c) : Still a c :=
  ⟨hbc.touched.trans hab.touched, hbc.imageSize.trans hab.imageSize⟩

theorem resolveNodeCapability_still (s : Server) (handle rights owner : UInt32) :
    Still s (s.resolveNodeCapability handle rights owner).2 := by
  rcases s.resolveNodeCapability_spec handle rights owner with ⟨i, -, -, heq⟩ | ⟨i, -, -, heq⟩ | ⟨-, heq⟩ <;> rw [heq] <;>
    exact ⟨rfl, rfl⟩

theorem resolveBaseNode_still (s : Server) (handle rights owner : UInt32) :
    Still s (s.resolveBaseNode handle rights owner).2 := by
  unfold resolveBaseNode
  split
  · rename_i i hf
    dsimp only
    split
    · exact .refl s
    · rcases s.runtimeIsCurrent_cases i with ⟨-, heq⟩ | ⟨-, heq⟩ <;> rw [heq] <;> exact ⟨rfl, rfl⟩
  · dsimp only
    split <;> exact ⟨rfl, rfl⟩

/-- The call makes the copy if it passes the check, and no other. -/
def Touches (s : Server) (a : Option Access) (s' : Server) : Prop := s'.touched = s.touched ++ a.toList.filter s.allows

variable {mid s s' : Server}

theorem Still.touches (h : Still s s') : Touches s none s' := by
  rw [Touches, h.touched]
  simp

theorem Still.before {a : Option Access} (hs : Still s mid) (h : Touches mid a s') : Touches s a s' := by
  have hallows : mid.allows = s.allows := by
    funext a
    rw [allows, allows, hs.imageSize]
  rw [Touches, h, hs.touched, hallows]

theorem Touches.still {a : Option Access} (h : Touches s a mid) (hs : Still mid s') : Touches s a s' :=
  hs.touched.trans h

theorem loadPathArgument_touches (h : Still s mid) (address : UInt64) (memory : Nat → UInt8) (count : UInt32) :
    Touches s (some ⟨address, count, false⟩) (mid.loadPathArgument (.user address memory) count).2 := by
  unfold loadPathArgument copyFromAddress Touches
  rw [h.imageSize]
  cases hr : addressReadable s.imageSize address count <;> simp [hr, allows, h.touched]

section

variable (s)

theorem openNode_still (base : UInt32) (path : List UInt8) (owner : UInt32) (storage : Storage) :
    Still s (s.openNode base path owner storage).2 := by
  unfold openNode
  split
  · exact .refl s
  split
  · exact .refl s
  · split
    · exact .refl s
    · split <;> exact ⟨rfl, rfl⟩

theorem grantNode_still (nodeId owner : UInt32) (base : Base) (selector : UInt32) (path : List UInt8) :
    Still s (s.grantNode nodeId owner base selector path).2 := by
  unfold grantNode
  split
  · exact .refl s
  · split
    · exact .refl s
    · exact ⟨rfl, rfl⟩

/-- A call that resolves a base and loads a path below it. -/
theorem below_touches (right handle owner : UInt32) (address : UInt64) (memory : Nat → UInt8) (count failed : UInt32)
    (rest : Base → List UInt8 → Server → UInt32 × Server) (hrest : ∀ base bytes s, Still s (rest base bytes s).2) :
    Touches s (if (s.resolveBaseNode handle right owner).1.isSome then some ⟨address, count, false⟩ else none)
      (match s.resolveBaseNode handle right owner with
        | (none, s) => (failed, s)
        | (some base, s) =>
          match s.loadPathArgument (.user address memory) count with
          | (none, s) => (failed, s)
          | (some bytes, s) => rest base bytes s).2 := by
  have hstill := s.resolveBaseNode_still handle right owner
  generalize s.resolveBaseNode handle right owner = resolved at hstill ⊢
  obtain ⟨base, s1⟩ := resolved
  rcases base with _ | base
  · exact hstill.touches
  have hload := loadPathArgument_touches hstill address memory count
  dsimp only [isSome] at hload ⊢
  generalize s1.loadPathArgument (.user address memory) count = loaded at hload ⊢
  obtain ⟨bytes, s2⟩ := loaded
  cases bytes with
  | none => exact hload
  | some bytes => exact hload.still (hrest base bytes s2)

theorem openCommon_touches (handle : UInt32) (address : UInt64) (memory : Nat → UInt8) (count owner : UInt32)
    (storage : Storage) :
    Touches s (s.attemptPath rightList handle owner address count)
      (s.openCommon handle (.user address memory) count owner storage).2 := by
  unfold attemptPath openCommon
  split
  · exact (Still.refl s).touches
  refine s.below_touches rightList handle owner address memory count invalidResult _
    fun base path s => ?_
  have hopen := s.openNode_still base.nodeId path owner storage
  generalize s.openNode base.nodeId path owner storage = opened at hopen ⊢
  obtain ⟨nodeId, s1⟩ := opened
  cases nodeId with
  | none => exact hopen
  | some nodeId => exact hopen.trans (s1.grantNode_still _ _ _ _ _)

theorem createCommon_touches (handle : UInt32) (address : UInt64) (memory : Nat → UInt8) (count nodeType owner : UInt32) :
    Touches s (s.attemptPath rightCreate handle owner address count)
      (s.createCommon handle (.user address memory) count nodeType owner).2 := by
  unfold attemptPath createCommon
  split
  · exact (Still.refl s).touches
  refine s.below_touches rightCreate handle owner address memory count invalidResult _
    fun base path s => ?_
  split
  · exact ⟨rfl, rfl⟩
  · have hgrant := grantNode_still { s with tree := ‹_› } ‹_› owner base 0 path
    exact ⟨hgrant.touched, hgrant.imageSize⟩

theorem renameCommon_touches (handle : UInt32) (address : UInt64) (memory : Nat → UInt8)
    (sourceCount destinationCount owner : UInt32) :
    Touches s (if !pairFits sourceCount destinationCount then none
      else if (s.resolveBaseNode handle rightRename owner).1.isSome then some ⟨address, sourceCount + 1 + destinationCount, false⟩
      else none)
      (s.renameCommon handle (.user address memory) sourceCount destinationCount owner).2 := by
  unfold renameCommon
  split
  · exact (Still.refl s).touches
  · exact s.below_touches rightRename handle owner address memory (sourceCount + 1 + destinationCount) 0 _
      fun _ _ _ => ⟨rfl, rfl⟩

theorem moveCommon_touches (sourceHandle destinationHandle : UInt32) (address : UInt64) (memory : Nat → UInt8)
    (sourceCount destinationCount owner : UInt32) :
    Touches s (if !pairFits sourceCount destinationCount then none
      else
        match s.resolveBaseNode sourceHandle rightRename owner with
        | (none, _) => none
        | (some _, s) =>
          if (s.resolveBaseNode destinationHandle rightRename owner).1.isSome then
            some ⟨address, sourceCount + 1 + destinationCount, false⟩
          else none)
      (s.moveCommon sourceHandle destinationHandle (.user address memory) sourceCount destinationCount owner).2 := by
  unfold moveCommon
  split
  · exact (Still.refl s).touches
  have hstill := s.resolveBaseNode_still sourceHandle rightRename owner
  generalize s.resolveBaseNode sourceHandle rightRename owner = resolved at hstill ⊢
  obtain ⟨source, s1⟩ := resolved
  rcases source with _ | source
  · exact hstill.touches
  apply hstill.before
  exact s1.below_touches rightRename destinationHandle owner address memory (sourceCount + 1 + destinationCount) 0 _
    fun _ _ _ => ⟨rfl, rfl⟩

theorem readOut_touches (right handle : UInt32) (address : UInt64) (owner : UInt32)
    (bytes : Server → Record → Option (List UInt8)) :
    Touches s (s.attemptOut right handle owner address bytes) (s.readOut right handle (some address) owner bytes).2 := by
  unfold attemptOut readOut
  have hstill := s.resolveNodeCapability_still handle right owner
  generalize s.resolveNodeCapability handle right owner = resolved at hstill ⊢
  obtain ⟨found, s1⟩ := resolved
  rcases found with _ | i
  · exact hstill.touches
  dsimp only
  rcases bytes s1 (s1.caps.slots i) with _ | out
  · exact hstill.touches
  dsimp only [Option.map, deliver, copyToAddress]
  have hsame : s1.touched = s.touched := hstill.touched
  rw [Touches]
  cases hw : addressWritable address (ofNat out.length) <;> simp [hw, allows, hsame]

theorem write_touches (handle : UInt32) (address : UInt64) (memory : Nat → UInt8) (offset count owner : UInt32) :
    Touches s
      (if (s.resolveNodeCapability handle rightWrite owner).1.isSome then some ⟨address, clampCount count, false⟩ else none)
      (s.write handle (.user address memory) offset count owner).2 := by
  unfold write
  have hstill := s.resolveNodeCapability_still handle rightWrite owner
  generalize s.resolveNodeCapability handle rightWrite owner = resolved at hstill ⊢
  obtain ⟨found, s1⟩ := resolved
  rcases found with _ | i
  · exact hstill.touches
  have hload := loadPathArgument_touches hstill address memory (clampCount count)
  dsimp only [isSome] at hload ⊢
  generalize s1.loadPathArgument (.user address memory) (clampCount count) = loaded at hload ⊢
  obtain ⟨bytes, s2⟩ := loaded
  rcases bytes with _ | bytes
  · exact hload
  dsimp only
  generalize s2.tree.write (s2.caps.slots i).nodeId offset.toNat bytes = written
  obtain ⟨stored, tree⟩ := written
  cases stored <;> exact hload.still ⟨rfl, rfl⟩

/-- The calls that pass no address. -/
theorem addressless_touches (handle owner : UInt32) :
    Touches s none (s.revoke handle owner).2 ∧ Touches s none (s.nodeRights handle owner).2 ∧
      Touches s none (s.nodeOwner handle owner).2 := by
  unfold revoke nodeRights nodeOwner
  have hstill := s.resolveNodeCapability_still handle 0 owner
  generalize s.resolveNodeCapability handle 0 owner = resolved at hstill ⊢
  obtain ⟨found, s1⟩ := resolved
  cases found with
  | none => exact ⟨hstill.touches, hstill.touches, hstill.touches⟩
  | some i => exact ⟨Still.touches ⟨hstill.touched, hstill.imageSize⟩, hstill.touches, hstill.touches⟩

theorem dispatch_touches (c : Call) : Touches s (s.attempt c) (s.dispatch c).2 := by
  obtain ⟨number, arg0, arg1, arg2, memory, storage⟩ := c
  cases number with
  | fsOpen => exact s.openCommon_touches ..
  | fsCreate => exact s.createCommon_touches ..
  | fsList | fsRead | fsStat => exact s.readOut_touches ..
  | fsWrite => exact s.write_touches ..
  | fsRevoke => exact (s.addressless_touches _ _).1
  | fsRename => exact s.renameCommon_touches ..
  | fsMove => exact s.moveCommon_touches ..
  | fsNodeRights => exact (s.addressless_touches _ _).2.1
  | fsNodeOwner => exact (s.addressless_touches _ _).2.2

end

end Server

/-! ## The result -/

/-- The copies of the call stay in the windows. -/
def Confines (s : Server) (c : Call) : Prop :=
  ∀ a ∈ (s.dispatch c).2.touched.drop s.touched.length, a.Confined s.imageSize

/-- A call stays in the windows if and only if the copy it gets to, if it gets to one, is empty or has an address that is
not in the kernel half. -/
theorem confines_iff (s : Server) (c : Call) :
    Confines s c ↔ ∀ a ∈ s.attempt c, a.count = 0 ∨ addressIsKernelHigh a.address a.count = false := by
  have htouches := s.dispatch_touches c
  rw [Confines, htouches, List.drop_left]
  constructor
  · intro h a ha
    by_cases hallowed : s.allows a
    · refine (confined_of_allows hallowed).1 (h a ?_)
      simp [Option.mem_def.1 ha, hallowed]
    · exact .inr (not_kernelHigh_of_not_allows hallowed)
  · intro h a ha
    obtain ⟨hmem, hallowed⟩ := List.mem_filter.1 ha
    exact (confined_of_allows hallowed).2 (h a (by simpa using hmem))

/-- A path is opened that stands in the kernel half. -/
def probe : Call :=
  { number := .fsOpen, arg0 := 0x6400, arg1 := 0xFFFFFFFF80000000, arg2 := 0x0000010100000005
    memory := fun i => (ascii "/APPS").getD i 0, storage := .absent }

theorem confines_fails :
    ¬ Confines (Server.idle.run [.broker (.grantService classRamfs rightSend 0x101)]) probe := by
  intro h
  have hin := h ⟨0xFFFFFFFF80000000, 5, false⟩ (by decide +kernel)
  rcases hin 0 (by decide) with hstack | himage
  · exact absurd hstack.2 (by decide)
  · exact absurd himage.2 (by decide)

end LimitlessOS.Fs
