/-
  LimitlessOS.Vma.Store — the region pool and the process trees of `vma.c`.

  The static pool of regions, the sixteen process trees with their totals, and the
  functions that touch nothing else: `vma64_init_process`, `vma64_region_acquire` /
  `release` / `prepare`, `vma64_insert`, `vma64_remove`, `vma64_find` and
  `vma64_find_gap`. They are written over any `RegionIndex`. A loop along `next` is a
  recursion over the list that following `next` gives; none of these loops changes a
  link before it has ended.
-/
import LimitlessOS.Vma.RegionIndex

namespace LimitlessOS.Vma

/-- `vma_tree_t` without its two pointers. -/
structure Totals where
  regionCount : Nat
  peakRegionCount : Nat
  mappedBytes : Nat
  peakMappedBytes : Nat
  brkBase : Nat
  brkCurrent : Nat
  brkPeak : Nat
  deriving DecidableEq, Repr

/-- What `vma64_clear_tree` leaves. -/
def Totals.cleared : Totals := ⟨0, 0, 0, 0, 0, 0, 0⟩

structure Store (Ix : Type) where
  region : RegionId → Region
  /-- `g_vma64_region_used` -/
  used : RegionId → Bool
  totals : TreeId → Totals
  /-- `g_vma64_tree_pids` -/
  treePid : TreeId → Pid
  /-- `process64_vma_root`: the tree attached to a process record -/
  vmaRoot : Pid → Option TreeId
  index : Ix

namespace Store

variable {Ix : Type}

/-- The state `vma64_init` sets up, before any process has a tree. -/
def boot (index : Ix) : Store Ix where
  region _ := .cleared
  used _ := false
  totals _ := .cleared
  treePid _ := invalidPid
  vmaRoot _ := none
  index := index

def setRegion (s : Store Ix) (r : RegionId) (d : Region) : Store Ix :=
  { s with region := Function.update s.region r d }

def setTotals (s : Store Ix) (t : TreeId) (d : Totals) : Store Ix :=
  { s with totals := Function.update s.totals t d }

def base (s : Store Ix) (r : RegionId) : Nat := (s.region r).virtBase

variable [RegionIndex Ix] {s : Store Ix}

open RegionIndex

def regionIds (s : Store Ix) (t : TreeId) : List RegionId := regions s.index t

/-- The records of a tree's regions, in list order. -/
def listed (s : Store Ix) (t : TreeId) : List Region := (s.regionIds t).map s.region

def clearTree (s : Store Ix) (t : TreeId) : Store Ix :=
  { s with totals := Function.update s.totals t .cleared, index := clear s.index t }

/-- The first tree that no process has. -/
def freeTree (s : Store Ix) : Option TreeId := (List.range maxProcessTrees).find? fun t => s.treePid t = invalidPid

/-- Attach the first free tree to a process; `known` says that `process64_find` has a record of it. -/
def initProcess (s : Store Ix) (known : Bool) (pid : Pid) : Bool × Store Ix :=
  if pid = invalidPid then (false, s)
  else if (s.vmaRoot pid).isSome then (true, s)
  else
    match s.freeTree with
    | none => (false, s)
    | some t =>
      let s := s.clearTree t
      if known then
        (true, { s with
          treePid := Function.update s.treePid t pid
          vmaRoot := Function.update s.vmaRoot pid (some t) })
      else (false, s)

/-- The first region of the pool that is not in use. -/
@[irreducible] def freeRegion (s : Store Ix) : Option RegionId := (List.range maxStaticRegions).find? fun r => !s.used r

def regionAcquire (s : Store Ix) : Option RegionId × Store Ix :=
  match s.freeRegion with
  | none => (none, s)
  | some r =>
    (some r, { s with
      used := Function.update s.used r true
      region := Function.update s.region r .cleared
      index := reset s.index r })

theorem regionAcquire_some {r : RegionId} (h : s.freeRegion = some r) :
    s.regionAcquire = (some r, { s with
      used := Function.update s.used r true
      region := Function.update s.region r .cleared
      index := reset s.index r }) := by
  unfold regionAcquire
  rw [h]

theorem regionAcquire_none (h : s.freeRegion = none) : s.regionAcquire = (none, s) := by
  unfold regionAcquire
  rw [h]

def regionRelease (s : Store Ix) (r : RegionId) : Store Ix :=
  { s with
    used := Function.update s.used r false
    region := Function.update s.region r .cleared
    index := reset s.index r }

theorem foldl_regionRelease (ids : List RegionId) (s : Store Ix) :
    ids.foldl regionRelease s = { s with
      used := fun z => if z ∈ ids then false else s.used z
      region := fun z => if z ∈ ids then .cleared else s.region z
      index := ids.foldl reset s.index } := by
  induction ids generalizing s with
  | nil => simp
  | cons r rest ih =>
    rw [List.foldl_cons, ih]
    simp only [regionRelease, List.foldl_cons, Store.mk.injEq, and_true]
    constructor <;> funext z <;> by_cases hz : z = r <;> simp [hz]

def regionPrepare (s : Store Ix) (r : RegionId) (d : Region) : Bool × Store Ix :=
  if !rangeValid d.virtBase d.virtEnd ∨ d.vmaToken = invalidToken then (false, s)
  else (true, { s.setRegion r d with index := reset s.index r })

/-- The loop of `vma64_insert`: no place if `d` overlaps a region met on the way, else its two neighbours. -/
def insertPoint (region : RegionId → Region) (d : Region) (previous : Option RegionId) :
    List RegionId → Option (Option RegionId × Option RegionId)
  | [] => some (previous, none)
  | c :: cs =>
    if rangesOverlap d.virtBase d.virtEnd (region c).virtBase (region c).virtEnd then none
    else if d.virtBase < (region c).virtBase then some (previous, some c)
    else insertPoint region d (some c) cs

/-- `persona64_budget_check_vma_pages`: no persona context, no limit. -/
def budgetCheck (budget : Option Nat) (currentPages additionalPages : Nat) : Bool :=
  match budget with
  | none => true
  | some limit =>
    let requested := min (currentPages + additionalPages) 0xFFFFFFFF
    additionalPages = 0 || (requested ≤ limit && currentPages ≤ limit)

def pages32 (bytes : Nat) : Nat := (bytes + (pageBytes - 1)) / pageBytes % 2 ^ 32

def insert (s : Store Ix) (budget : Option Nat) (pid : Pid) (r : RegionId) : Bool × Store Ix :=
  match s.vmaRoot pid with
  | none => (false, s)
  | some t =>
    let d := s.region r
    if !rangeValid d.virtBase d.virtEnd || linked s.index r then (false, s)
    else
      match insertPoint s.region d none (s.regionIds t) with
      | none => (false, s)
      | some (previous, cursor) =>
        let totals := s.totals t
        if !budgetCheck budget (pages32 totals.mappedBytes) (pages32 d.length) then (false, s)
        else
          match add s.index s.base t r previous cursor with
          | (false, ix) => (false, { s with index := ix })
          | (true, ix) =>
            let count := totals.regionCount + 1
            let bytes := totals.mappedBytes + d.length
            (true, { s.setTotals t { totals with
              regionCount := count
              peakRegionCount := max totals.peakRegionCount count
              mappedBytes := bytes
              peakMappedBytes := max totals.peakMappedBytes bytes } with index := ix })

/-- `vma64_region_prepare` and then `vma64_insert`, as every caller has it. -/
def place (s : Store Ix) (budget : Option Nat) (pid : Pid) (r : RegionId) (d : Region) : Bool × Store Ix :=
  let prepared := s.regionPrepare r d
  if prepared.1 then prepared.2.insert budget pid r else (false, prepared.2)

def detachRegion (s : Store Ix) (t : TreeId) (r : RegionId) : Store Ix :=
  let totals := s.totals t
  { s.setTotals t { totals with
      regionCount := totals.regionCount - 1
      mappedBytes := totals.mappedBytes - (s.region r).length } with
    index := drop s.index s.base t r }

def remove (s : Store Ix) (pid : Pid) (virtBase virtEnd : Nat) : Option RegionId × Store Ix :=
  match s.vmaRoot pid with
  | none => (none, s)
  | some t =>
    if !rangeValid virtBase virtEnd then (none, s)
    else
      match (s.regionIds t).find? fun r => (s.region r).virtBase = virtBase ∧ (s.region r).virtEnd = virtEnd with
      | none => (none, s)
      | some r => (some r, s.detachRegion t r)

def find (s : Store Ix) (pid : Pid) (address : Nat) : Option RegionId :=
  match s.vmaRoot pid with
  | none => none
  | some t => (search s.index s.region t address).1

/-- The loop of `vma64_find_gap`. -/
def gapLoop (region : RegionId → Region) (length alignment : Nat) : Nat → List RegionId → Nat
  | candidate, [] => candidate
  | candidate, c :: cs =>
    let candidate' :=
      if candidate < (region c).virtEnd ∧ add64 candidate length > (region c).virtBase then
        alignUp (region c).virtEnd alignment
      else candidate
    if candidate' = 0 then 0
    else if add64 candidate' length ≤ (region c).virtBase then candidate'
    else gapLoop region length alignment candidate' cs

def findGap (s : Store Ix) (pid : Pid) (minAddr maxAddr length alignment : Nat) : Nat :=
  match s.vmaRoot pid with
  | none => 0
  | some t =>
    let candidate := alignUp minAddr alignment
    if length = 0 ∨ maxAddr ≤ minAddr ∨ candidate = 0 then 0
    else
      let candidate := gapLoop s.region length alignment candidate (s.regionIds t)
      if candidate < minAddr ∨ add64 candidate length < candidate ∨ add64 candidate length > maxAddr then 0
      else candidate

/-- The end of `vma64_release_process`: `process64_detach_vma`, the pid slot, the tree. -/
def releaseTree (s : Store Ix) (pid : Pid) (t : TreeId) : Store Ix :=
  { s with
    vmaRoot := Function.update s.vmaRoot pid none
    treePid := Function.update s.treePid t invalidPid }.clearTree t

/-! ## The trees of the processes

Only `initProcess` and `releaseTree` attach and detach trees. -/

@[simp] theorem regionAcquire_vmaRoot (s : Store Ix) : s.regionAcquire.2.vmaRoot = s.vmaRoot := by
  cases hf : s.freeRegion with
  | none => rw [regionAcquire_none hf]
  | some r => rw [regionAcquire_some hf]

@[simp] theorem insert_vmaRoot (s : Store Ix) (budget : Option Nat) (pid : Pid) (r : RegionId) :
    (s.insert budget pid r).2.vmaRoot = s.vmaRoot := by
  simp only [insert]
  repeat' split
  all_goals rfl

@[simp] theorem place_vmaRoot (s : Store Ix) (budget : Option Nat) (pid : Pid) (r : RegionId) (d : Region) :
    (s.place budget pid r d).2.vmaRoot = s.vmaRoot := by
  simp only [place, regionPrepare]
  split_ifs <;> simp_all [setRegion]

@[simp] theorem remove_vmaRoot (s : Store Ix) (pid : Pid) (virtBase virtEnd : Nat) :
    (s.remove pid virtBase virtEnd).2.vmaRoot = s.vmaRoot := by
  simp only [remove]
  repeat' split
  all_goals rfl

theorem initProcess_vmaRoot {pid : Pid} {t : TreeId} (known : Bool) (h : s.vmaRoot pid = some t) :
    (s.initProcess known pid).2 = s := by
  simp [initProcess, h, apply_ite Prod.snd]

end Store

end LimitlessOS.Vma
