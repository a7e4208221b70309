/-
  LimitlessOS.Fat.Blocks — which blocks of the device the file operations of a FAT volume touch.

  `arch/x86_64/mmio.c` accepts the boot sector of a partition with
  `mmio64_fat32_fill_volume_from_bpb`. Every file operation reaches the device through
  `mmio64_fat32_cluster_lba`, `mmio64_fat32_next_cluster` and `mmio64_fat32_write_fat_entry`
  with cluster numbers that it has read from the volume, so an operation is a tree of such
  accesses that branches on what is read. Nothing checks the cluster numbers, and the boot
  sector's own count of sectors, whose size it chooses, is compared with the partition's
  count of blocks.

  Proved:
  - `inside_of_kept`: the accesses of an operation stay in the partition, and its FAT
    updates in the FATs, as long as the clusters are ones that the volume has.
  - `root_outside`: an accepted boot sector whose root directory is far behind the end of the
    partition, where a listing reads it.
-/
import Mathlib.Data.List.Basic
import Mathlib.Tactic.Ring

namespace LimitlessOS.Fat

open UInt32 Nat List Option

/-- A block of the device. -/
abbrev Block := Fin 512 → UInt8

abbrev Device := UInt32 → Block

/-- `mmio64_read_u16` -/
def readU16 (b : Block) (i : Fin 511) : UInt32 := (b i.castSucc).toUInt32 ||| (b i.succ).toUInt32 <<< 8

/-- `mmio64_read_u32` -/
def readU32 (b : Block) (i : Fin 509) : UInt32 :=
  readU16 b ⟨i.val, by omega⟩ ||| readU16 b ⟨i.val + 2, by omega⟩ <<< 16

/-- `mmio64_write_u32` -/
def writeU32 (b : Block) (i : Fin 509) (value : UInt32) : Block := fun j =>
  if i.val ≤ j.val ∧ j.val < i.val + 4 then (value >>> UInt32.ofNat (8 * (j.val - i.val))).toUInt8 else b j

structure Volume where
  bytesPerSector : UInt32
  sectorsPerCluster : UInt32
  reservedSectors : UInt32
  fatCount : UInt32
  totalSectors : UInt32
  sectorsPerFat : UInt32
  rootCluster : UInt32
  partitionStartLba : UInt32
  partitionSectors : UInt32
  deriving DecidableEq

namespace Volume

variable {v : Volume}

def dataSectorBase (v : Volume) : UInt32 := v.reservedSectors + v.fatCount * v.sectorsPerFat

def clusterBytes (v : Volume) : Nat := v.bytesPerSector.toNat * v.sectorsPerCluster.toNat

def lbasPerCluster (v : Volume) : Nat := v.clusterBytes / 512

def dataStartSector (v : Volume) : Nat := v.reservedSectors.toNat + v.fatCount.toNat * v.sectorsPerFat.toNat

/-- What the boot sector is checked for, apart from its signature. -/
def Accepted (v : Volume) : Prop :=
  (v.bytesPerSector = 512 ∨ v.bytesPerSector = 1024 ∨ v.bytesPerSector = 2048 ∨ v.bytesPerSector = 4096) ∧
    v.sectorsPerCluster ≠ 0 ∧ v.sectorsPerCluster &&& (v.sectorsPerCluster - 1) = 0 ∧ v.reservedSectors ≠ 0 ∧
    v.fatCount ≠ 0 ∧ v.sectorsPerFat ≠ 0 ∧ 2 ≤ v.rootCluster ∧ v.totalSectors ≠ 0 ∧ v.totalSectors ≤ v.partitionSectors ∧
    v.clusterBytes % 512 = 0 ∧ v.clusterBytes ≠ 0 ∧ v.clusterBytes ≤ 0x100000 ∧ v.lbasPerCluster ≠ 0 ∧
    v.dataStartSector < v.totalSectors.toNat

instance (v : Volume) : Decidable v.Accepted := inferInstanceAs (Decidable (_ ∧ _))

/-- `mmio64_fat32_fill_volume_from_bpb` -/
def fillVolumeFromBpb (bpb : Block) (partitionStart partitionSectors : UInt32) : Option Volume :=
  let v : Volume :=
    { bytesPerSector := readU16 bpb 11
      sectorsPerCluster := (bpb 13).toUInt32
      reservedSectors := readU16 bpb 14
      fatCount := (bpb 16).toUInt32
      totalSectors := readU32 bpb 32
      sectorsPerFat := readU32 bpb 36
      rootCluster := readU32 bpb 44
      partitionStartLba := partitionStart
      partitionSectors }
  if bpb 510 = 0x55 ∧ bpb 511 = 0xAA ∧ v.Accepted then some v else none

/-- `mmio64_fat32_volume_sector_lba` -/
def volumeSectorLba (v : Volume) (sector : UInt32) : Option UInt32 :=
  let byteOffset := sector.toNat * v.bytesPerSector.toNat
  let lba := v.partitionStartLba.toNat + byteOffset / 512
  if byteOffset % 512 ≠ 0 ∨ lba > 0xFFFFFFFF then none else some (UInt32.ofNat lba)

/-- `mmio64_fat32_cluster_lba` -/
def clusterLba (v : Volume) (cluster : UInt32) : Option UInt32 :=
  if cluster < 2 then none else v.volumeSectorLba (v.dataSectorBase + (cluster - 2) * v.sectorsPerCluster)

/-- The offset of a cluster's entry in one of the FATs. -/
def fatByteOffset (v : Volume) (fatIndex : Nat) (cluster : UInt32) : Nat :=
  (v.reservedSectors.toNat + fatIndex * v.sectorsPerFat.toNat) * v.bytesPerSector.toNat + cluster.toNat * 4

/-- The block of the entry, and its place there. -/
def fatEntry (v : Volume) (fatIndex : Nat) (cluster : UInt32) : Option (UInt32 × Fin 509) :=
  let lba := v.partitionStartLba.toNat + v.fatByteOffset fatIndex cluster / 512
  if h : lba > 0xFFFFFFFF ∨ v.fatByteOffset fatIndex cluster % 512 + 4 > 512 then none
  else some (UInt32.ofNat lba, ⟨v.fatByteOffset fatIndex cluster % 512, by omega⟩)

end Volume

/-! ## Operations -/

/-- A file operation: the next access, and how it goes on with the answer, `none` or `false` if there is no such block. -/
inductive Operation (lbasPerCluster : Nat) where
  | done
  /-- `mmio64_fat32_cluster_lba` and `mmio64_nvme_fat_read_lba` -/
  | readBlock (cluster : UInt32) (index : Fin lbasPerCluster) (rest : Option Block → Operation lbasPerCluster)
  /-- `mmio64_fat32_cluster_lba` and `mmio64_nvme_fat_write_lba` -/
  | writeBlock (cluster : UInt32) (index : Fin lbasPerCluster) (data : Block) (rest : Bool → Operation lbasPerCluster)
  /-- `mmio64_fat32_next_cluster` -/
  | nextCluster (cluster : UInt32) (rest : Option UInt32 → Operation lbasPerCluster)
  /-- `mmio64_fat32_write_fat_entry` -/
  | writeFatEntry (cluster value : UInt32) (rest : Bool → Operation lbasPerCluster)

inductive AccessKind where
  | data
  | fatRead
  /-- A FAT entry is written; its block is read first. -/
  | fatUpdate
  deriving DecidableEq

structure Access where
  kind : AccessKind
  cluster : UInt32
  lba : UInt32
  deriving DecidableEq

namespace Volume

variable {v : Volume} {cluster lba : UInt32} {offset : Fin 509}

/-- The loop of `mmio64_fat32_write_fat_entry` -/
def updateFats (v : Volume) (cluster value : UInt32) : List Nat → Device → Bool × List Access × Device
  | [], d => (true, [], d)
  | i :: is, d =>
    match v.fatEntry i cluster with
    | none => (false, [], d)
    | some (lba, offset) =>
      let (ok, as, d) := v.updateFats cluster value is (Function.update d lba (writeU32 (d lba) offset value))
      (ok, ⟨.fatUpdate, cluster, lba⟩ :: as, d)

/-- The accesses of an operation. -/
def accesses (v : Volume) : Operation v.lbasPerCluster → Device → List Access
  | .done, _ => []
  | .readBlock cluster index rest, d =>
    match v.clusterLba cluster with
    | none => v.accesses (rest none) d
    | some lba =>
      let lba := lba + UInt32.ofNat index.val
      ⟨.data, cluster, lba⟩ :: v.accesses (rest (some (d lba))) d
  | .writeBlock cluster index data rest, d =>
    match v.clusterLba cluster with
    | none => v.accesses (rest false) d
    | some lba =>
      let lba := lba + UInt32.ofNat index.val
      ⟨.data, cluster, lba⟩ :: v.accesses (rest true) (Function.update d lba data)
  | .nextCluster cluster rest, d =>
    match v.fatEntry 0 cluster with
    | none => v.accesses (rest none) d
    | some (lba, offset) =>
      ⟨.fatRead, cluster, lba⟩ :: v.accesses (rest (some (readU32 (d lba) offset &&& 0x0FFFFFFF))) d
  | .writeFatEntry cluster value rest, d =>
    let (ok, as, d) := v.updateFats cluster value (List.range v.fatCount.toNat) d
    as ++ v.accesses (rest ok) d

/-- Blocks in a sector of the volume. -/
def lbasPerSector (v : Volume) : Nat := v.bytesPerSector.toNat / 512

/-- The access is in the partition, and a change of a FAT in the FATs. -/
structure Inside (v : Volume) (a : Access) : Prop where
  partition : v.partitionStartLba.toNat ≤ a.lba.toNat ∧ a.lba.toNat < v.partitionStartLba.toNat + v.partitionSectors.toNat
  fats : a.kind = .fatUpdate →
    v.partitionStartLba.toNat + v.reservedSectors.toNat * v.lbasPerSector ≤ a.lba.toNat ∧
      a.lba.toNat < v.partitionStartLba.toNat + v.dataStartSector * v.lbasPerSector

/-- The partition has room for the cluster, in blocks; it has room for the cluster's entry, in the first FAT; or it has room
for the FATs, and they have an entry for the cluster. -/
def Kept (v : Volume) (a : Access) : Prop :=
  match a.kind with
  | .data => (v.dataStartSector + (a.cluster.toNat - 1) * v.sectorsPerCluster.toNat) * v.lbasPerSector ≤
      v.partitionSectors.toNat
  | .fatRead => v.fatByteOffset 0 a.cluster < v.partitionSectors.toNat * 512
  | .fatUpdate => v.dataStartSector * v.lbasPerSector ≤ v.partitionSectors.toNat ∧
      a.cluster.toNat * 4 < v.sectorsPerFat.toNat * v.bytesPerSector.toNat

/-! ## Where the blocks are -/

section

variable (h : v.Accepted)
include h

theorem Accepted.bytesPerSector : v.bytesPerSector.toNat = v.lbasPerSector * 512 := by
  unfold lbasPerSector
  rcases h.1 with h | h | h | h <;> rw [h] <;> rfl

theorem Accepted.lbasPerCluster : v.lbasPerCluster = v.lbasPerSector * v.sectorsPerCluster.toNat := by
  rw [Volume.lbasPerCluster, clusterBytes, h.bytesPerSector, Nat.mul_right_comm, Nat.mul_div_cancel _ (by decide)]

theorem Accepted.dataStartSector_lt : v.dataStartSector < 0x100000000 :=
  lt_trans h.2.2.2.2.2.2.2.2.2.2.2.2.2 v.totalSectors.toNat_lt

theorem Accepted.dataSectorBase : v.dataSectorBase.toNat = v.dataStartSector := by
  rw [Volume.dataSectorBase, UInt32.toNat_add, UInt32.toNat_mul, add_mod_mod]
  exact mod_eq_of_lt h.dataStartSector_lt

theorem Accepted.volumeSectorLba {sector lba : UInt32} (hlba : v.volumeSectorLba sector = some lba) :
    lba.toNat = v.partitionStartLba.toNat + sector.toNat * v.lbasPerSector := by
  unfold Volume.volumeSectorLba at hlba
  simp only [h.bytesPerSector, ← Nat.mul_assoc, Nat.mul_div_cancel _ (show 0 < 512 by decide)] at hlba
  split_ifs at hlba with hfit
  obtain rfl := some.inj hlba
  exact toNat_ofNat_of_lt' (by rw [UInt32.size]; omega)

theorem inside_data (hroom : v.partitionStartLba.toNat + v.partitionSectors.toNat ≤ 0x100000000)
    {cluster lba : UInt32} {index : Fin v.lbasPerCluster} (hlba : v.clusterLba cluster = some lba)
    (hkept : v.Kept ⟨.data, cluster, lba + ofNat index.val⟩) :
    v.Inside ⟨.data, cluster, lba + ofNat index.val⟩ := by
  unfold clusterLba at hlba
  split_ifs at hlba with hcluster
  obtain ⟨n, hn⟩ : ∃ n, cluster.toNat = n + 2 :=
    Nat.exists_eq_add_of_le' (UInt32.le_iff_toNat_le.1 (UInt32.not_lt.1 hcluster))
  have hend : (v.dataStartSector + n * v.sectorsPerCluster.toNat) * v.lbasPerSector + v.lbasPerCluster ≤
      v.partitionSectors.toNat := by
    refine le_of_eq_of_le ?_ (show (_ + (cluster.toNat - 1) * _) * _ ≤ _ from hkept)
    rw [h.lbasPerCluster, hn]
    show _ = (_ + (n + 1) * _) * _
    ring
  have hpos : 0 < v.lbasPerSector := Nat.pos_of_ne_zero fun hzero => by
    have hbytes := h.lbasPerCluster
    rw [hzero, Nat.zero_mul] at hbytes
    exact h.2.2.2.2.2.2.2.2.2.2.2.2.1 hbytes
  have hsmall := Nat.le_mul_of_pos_right (v.dataStartSector + n * v.sectorsPerCluster.toNat) hpos
  have hsectors := v.partitionSectors.toNat_lt
  have hsector : (v.dataSectorBase + (cluster - 2) * v.sectorsPerCluster).toNat =
      v.dataStartSector + n * v.sectorsPerCluster.toNat := by
    rw [UInt32.toNat_add, UInt32.toNat_mul, UInt32.toNat_sub_of_le _ _ (UInt32.not_lt.1 hcluster), hn, h.dataSectorBase,
      add_mod_mod]
    exact Nat.mod_eq_of_lt (by simp only [reduceToNat, Nat.add_sub_cancel]; omega)
  have hat := h.volumeSectorLba hlba
  rw [hsector] at hat
  have hblock : (lba + ofNat index.val).toNat = lba.toNat + index.val := by
    rw [UInt32.toNat_add, toNat_ofNat_of_lt' (by rw [UInt32.size]; omega)]
    exact mod_eq_of_lt (by omega)
  refine ⟨?_, fun hkind => by cases hkind⟩
  show _ ≤ (lba + ofNat index.val).toNat ∧ (lba + ofNat index.val).toNat < _
  omega

end

theorem fatEntry_lba {i : Nat} (h : v.fatEntry i cluster = some (lba, offset)) :
    lba.toNat = v.partitionStartLba.toNat + v.fatByteOffset i cluster / 512 := by
  unfold fatEntry at h
  dsimp only at h
  split_ifs at h with hfit
  obtain ⟨rfl, -⟩ := Prod.mk.inj (some.inj h)
  exact toNat_ofNat_of_lt' (by rw [UInt32.size]; omega)

theorem inside_fatRead (h : v.fatEntry 0 cluster = some (lba, offset)) (hkept : v.Kept ⟨.fatRead, cluster, lba⟩) :
    v.Inside ⟨.fatRead, cluster, lba⟩ := by
  have hat := fatEntry_lba h
  have hlt : v.fatByteOffset 0 cluster / 512 < v.partitionSectors.toNat := Nat.div_lt_of_lt_mul (by rw [mul_comm]; exact hkept)
  refine ⟨?_, fun hkind => by cases hkind⟩
  show _ ≤ lba.toNat ∧ lba.toNat < _
  omega

theorem inside_fatUpdate (h : v.Accepted) {i : Nat} (hi : i < v.fatCount.toNat)
    (hentry : v.fatEntry i cluster = some (lba, offset)) (hkept : v.Kept ⟨.fatUpdate, cluster, lba⟩) :
    v.Inside ⟨.fatUpdate, cluster, lba⟩ := by
  obtain ⟨hroom, hfits⟩ := hkept
  have hat := fatEntry_lba hentry
  have hplace : v.fatByteOffset i cluster / 512 =
      (v.reservedSectors.toNat + i * v.sectorsPerFat.toNat) * v.lbasPerSector + cluster.toNat * 4 / 512 := by
    rw [fatByteOffset, h.bytesPerSector, ← mul_assoc, mul_comm _ 512, mul_add_div (by decide)]
  have hentry : cluster.toNat * 4 / 512 < v.sectorsPerFat.toNat * v.lbasPerSector := by
    apply Nat.div_lt_of_lt_mul
    rwa [Nat.mul_comm 512, Nat.mul_assoc, ← h.bytesPerSector]
  have hfirst := mul_le_mul_right v.lbasPerSector (le_add_right v.reservedSectors.toNat (i * v.sectorsPerFat.toNat))
  have hlast : (v.reservedSectors.toNat + i * v.sectorsPerFat.toNat) * v.lbasPerSector +
      v.sectorsPerFat.toNat * v.lbasPerSector ≤ v.dataStartSector * v.lbasPerSector := by
    rw [← add_mul, add_assoc, ← succ_mul]
    exact Nat.mul_le_mul_right _ (Nat.add_le_add_left (Nat.mul_le_mul_right _ hi) _)
  refine ⟨?_, fun _ => ?_⟩ <;> show _ ≤ lba.toNat ∧ lba.toNat < _ <;> omega

theorem mem_updateFats {cluster value : UInt32} {is : List Nat} {d : Device} {a : Access}
    (h : a ∈ (v.updateFats cluster value is d).2.1) :
    ∃ i ∈ is, ∃ offset, v.fatEntry i cluster = some (a.lba, offset) ∧ a = ⟨.fatUpdate, cluster, a.lba⟩ := by
  induction is generalizing d with
  | nil => simp [updateFats] at h
  | cons i is ih =>
    unfold updateFats at h
    rcases hentry : v.fatEntry i cluster with _ | e
    · simp [hentry] at h
    simp only [hentry, mem_cons] at h
    rcases h with rfl | h
    · exact ⟨i, mem_cons_self .., e.2, hentry, rfl⟩
    · obtain ⟨j, hj, hrest⟩ := ih h
      exact ⟨j, mem_cons_of_mem _ hj, hrest⟩

/-- Whatever boot sector is accepted and whatever the blocks hold, an access of a file operation stays in the partition, and
in the FATs if it changes one, when the partition is one of the device's and the cluster is one that the volume has. -/
theorem inside_of_kept {bpb : Block} {start sectors : UInt32} (hv : fillVolumeFromBpb bpb start sectors = some v)
    (hroom : start.toNat + sectors.toNat ≤ 0x100000000) (op : Operation v.lbasPerCluster) (d : Device) :
    ∀ a ∈ v.accesses op d, v.Kept a → v.Inside a := by
  unfold fillVolumeFromBpb at hv
  dsimp only at hv
  split_ifs at hv with haccepted
  have hstart : v.partitionStartLba = start ∧ v.partitionSectors = sectors := by
    rw [← some.inj hv]
    exact ⟨rfl, rfl⟩
  have h : v.Accepted := some.inj hv ▸ haccepted.2.2
  rw [← hstart.1, ← hstart.2] at hroom
  clear hv haccepted hstart
  induction op generalizing d with
  | done => simp [accesses]
  | readBlock cluster index rest ih =>
    unfold accesses
    cases hlba : v.clusterLba cluster with
    | none => exact ih none d
    | some lba => exact forall_mem_cons.2 ⟨inside_data h hroom hlba, ih _ d⟩
  | writeBlock cluster index data rest ih =>
    unfold accesses
    cases hlba : v.clusterLba cluster with
    | none => exact ih false d
    | some lba => exact forall_mem_cons.2 ⟨inside_data h hroom hlba, ih true _⟩
  | nextCluster cluster rest ih =>
    unfold accesses
    cases hentry : v.fatEntry 0 cluster with
    | none => exact ih none d
    | some e => exact forall_mem_cons.2 ⟨inside_fatRead hentry, ih _ d⟩
  | writeFatEntry cluster value rest ih =>
    refine forall_mem_append.2 ⟨fun a ha hkept => ?_, ih _ _⟩
    obtain ⟨i, hi, offset, hentry, heq⟩ := mem_updateFats ha
    rw [heq] at hkept ⊢
    exact inside_fatUpdate h (mem_range.1 hi) hentry hkept

end Volume

/-! ## A listing of the root directory -/

/-- The entries of a block, as `mmio64_fat32_read_directory_entry` goes through them; nothing if that is the end, or else how
many it has seen. -/
def scanEntries (b : Block) (cursor : Nat) : List (Fin 16) → Nat → Option Nat
  | [], seen => some seen
  | i :: is, seen =>
    let first := b ⟨32 * i.val, by omega⟩
    let attr := b ⟨32 * i.val + 11, by omega⟩
    if first = 0 then none
    else if first = 0xE5 ∨ attr &&& 0x0F = 0x0F ∨ attr &&& 0x08 ≠ 0 then scanEntries b cursor is seen
    else if seen = cursor then none
    else scanEntries b cursor is (seen + 1)

def readEntries {n : Nat} (cluster : UInt32) (cursor : Nat) (rest : Nat → Operation n) : List (Fin n) → Nat → Operation n
  | [], seen => rest seen
  | i :: is, seen =>
    .readBlock cluster i fun b =>
      match b.bind fun b => scanEntries b cursor (List.finRange 16) seen with
      | none => .done
      | some seen => readEntries cluster cursor rest is seen

/-- `mmio64_fat32_read_directory_entry`, for so many clusters -/
def readDirectoryEntry {n : Nat} (cursor : Nat) : Nat → UInt32 → Nat → Operation n
  | 0, _, _ => .done
  | visits + 1, cluster, seen =>
    readEntries cluster cursor (fun seen => .nextCluster cluster fun next =>
      match next with
      | none => .done
      | some next => if next ≥ 0x0FFFFFF8 then .done else readDirectoryEntry cursor visits next seen) (List.finRange n) seen

/-- A boot sector with 512 bytes a sector, eight sectors a cluster and two FATs of 64 sectors behind 32 reserved ones. -/
def bootSector (root : UInt8) : Block := fun i =>
  match i.val with
  | 12 => 2
  | 13 => 8
  | 14 => 32
  | 16 => 2
  | 34 => 1
  | 36 => 64
  | 44 => 2
  | 46 => root
  | 510 => 0x55
  | 511 => 0xAA
  | _ => 0

def smallVolume (root : UInt32) : Volume := ⟨512, 8, 32, 2, 0x10000, 64, root, 2048, 0x10000⟩

/-- The listing reads the first block of the root directory. -/
theorem inside_of_kept_root : Volume.fillVolumeFromBpb (bootSector 0) 2048 0x10000 = some (smallVolume 2) ∧
    (smallVolume 2).Inside ⟨.data, 2, 2208⟩ := by
  have hv : Volume.fillVolumeFromBpb (bootSector 0) 2048 0x10000 = some (smallVolume 2) := by decide +kernel
  refine ⟨hv, Volume.inside_of_kept hv (by decide) (readDirectoryEntry 0 128 2 0) (fun _ _ => 0) _ ?_ ?_⟩
  · decide +kernel
  · show _ ≤ _
    decide +kernel

/-- The root directory of this boot sector is 8 388 608 blocks behind that of the other, and the listing reads it there. -/
theorem root_outside : Volume.fillVolumeFromBpb (bootSector 16) 2048 0x10000 = some (smallVolume 0x100002) ∧
    (smallVolume 0x100002).accesses (readDirectoryEntry 0 128 0x100002 0) (fun _ _ => 0) = [⟨.data, 0x100002, 8390816⟩] ∧
    ¬ (smallVolume 0x100002).Inside ⟨.data, 0x100002, 8390816⟩ := by
  refine ⟨by decide +kernel, by decide +kernel, ?_⟩
  intro h
  exact absurd h.partition (by decide +kernel)

end LimitlessOS.Fat
