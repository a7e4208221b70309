/-
  LimitlessOS.Vma.Machine — the operations of the VMA layer.

  The whole state (`Machine`) is the region store, the pool of anonymous pages, the user
  page tables and the page budgets of the persona contexts. The operations are those of
  `vma.c`, each with the source's order of checks and its undo paths, over any
  `RegionIndex`: `mapAnon`, `cloneCowPage`, `forkCopyProcess`, `handleCowFault`,
  `brkQuery`, `brkExtend`, `unmap`, `releaseProcess` and `protect`. An operation answers
  what the C function returns and the state it leaves, also when it fails.

  `Env` is what the VMA layer reads but never writes: which processes have a record,
  which page tables each uses, and where the anonymous pool lies in physical memory. A
  thread acts on the regions of its process with a record and a budget of its own: its
  call is one of the process in an environment where the process has the thread's roots.
-/
import LimitlessOS.Vma.AnonPool
import LimitlessOS.Vma.Paging
import LimitlessOS.Vma.Store

namespace LimitlessOS.Vma

open Function AnonPool

structure Env where
  /-- `process64_find(pid) != 0` -/
  known : Pid → Bool
  /-- `paging64_process_root_find_slot` -/
  rootSlot : Pid → Option Nat
  /-- `process64_page_root_index`, if the record has a root; the record of a thread has that of its process. -/
  recordRoot : Pid → Option Nat
  pool : PoolBase

/-- `paging64_process_root_slot`; without a root the shared tables. -/
def Env.pageRoot (env : Env) (pid : Pid) : PageRoot :=
  match (env.rootSlot pid).or (env.recordRoot pid) with
  | some slot => .own slot
  | none => .shared

/-- The environment of the concrete runs below: eight processes with page tables of their own. -/
def Env.sample : Env where
  known _ := true
  rootSlot p := if p < 8 then some p.toNat else none
  recordRoot _ := none
  pool := ⟨0x200000, by decide, by decide, by decide⟩

structure Machine (Ix : Type) where
  store : Store Ix
  anon : AnonPool
  tables : PageRoot → PageTable
  /-- `vma_page_budget` of the persona context, if the process has one -/
  budget : Pid → Option Nat

/-! ## Page runs -/

def pageAt (virt i : Nat) : Nat := virt + i * pageBytes

/-- `vma64_user_pages_clear` -/
def PageTable.runClear (p : PageTable) (virt count : Nat) : Bool :=
  (List.range count).all fun i => !p.present (pageAt virt i)

/-- `vma64_region_physical_for_address` -/
def Region.physicalFor (d : Region) (address : Nat) : Nat :=
  if d.physBase = 0 ∨ d.physBase = physAnon ∨ address < d.virtBase ∨ d.virtEnd ≤ address then 0
  else add64 d.physBase (address - d.virtBase)

/-- `vma64_user_pages_match_region` -/
def PageTable.runMatches (p : PageTable) (d : Region) (virt count : Nat) : Bool :=
  (List.range count).all fun i =>
    d.physicalFor (pageAt virt i) ≠ 0 && p.present (pageAt virt i)
      && p.physical (pageAt virt i) = d.physicalFor (pageAt virt i)

/-- Install pages `i, i + 1, …`; `some k` if page `k` was refused. -/
def PageTable.installRun (limit virt phys : Nat) (prot : UInt32) : Nat → Nat → PageTable → Option Nat × PageTable
  | 0, _, p => (none, p)
  | n + 1, i, p =>
    let r := p.install limit (pageAt virt i) (pageAt phys i) prot
    if r.1 then installRun limit virt phys prot n (i + 1) r.2 else (some i, r.2)

/-- Clear pages `i - 1, …, 0`. -/
def PageTable.clearBack (virt : Nat) : Nat → PageTable → PageTable
  | 0, p => p
  | i + 1, p => clearBack virt i (p.clear (pageAt virt i))

def PageTable.clearRun (p : PageTable) (virt count : Nat) : PageTable :=
  (List.range count).foldl (fun p i => p.clear (pageAt virt i)) p

/-- The last loop of `vma64_protect`. -/
def PageTable.protectRun (limit : Nat) (d : Region) (virt : Nat) (prot : UInt32) :
    Nat → Nat → PageTable → Bool × PageTable
  | 0, _, p => (true, p)
  | n + 1, i, p =>
    if prot = 0 then protectRun limit d virt prot n (i + 1) (p.clear (pageAt virt i))
    else if p.present (pageAt virt i) then
      let r := p.updateProtection (pageAt virt i) prot
      if r.1 then protectRun limit d virt prot n (i + 1) r.2 else (false, r.2)
    else if d.physicalFor (pageAt virt i) = 0 then (false, p)
    else
      let r := p.install limit (pageAt virt i) (d.physicalFor (pageAt virt i)) prot
      if r.1 then protectRun limit d virt prot n (i + 1) r.2 else (false, r.2)

namespace Machine

variable {Ix : Type}

def table (env : Env) (m : Machine Ix) (pid : Pid) : PageTable := m.tables (env.pageRoot pid)

def setTable (env : Env) (m : Machine Ix) (pid : Pid) (p : PageTable) : Machine Ix :=
  { m with tables := update m.tables (env.pageRoot pid) p }

@[simp] theorem tables_setTable_self (env : Env) (m : Machine Ix) (pid : Pid) (p : PageTable) :
    (m.setTable env pid p).tables (env.pageRoot pid) = p := update_self ..

@[simp] theorem table_setTable (env : Env) (m : Machine Ix) (pid : Pid) (p : PageTable) :
    (m.setTable env pid p).table env pid = p := update_self ..

theorem tables_setTable_of_ne {env : Env} {m : Machine Ix} {pid : Pid} {p : PageTable} {root : PageRoot}
    (h : root ≠ env.pageRoot pid) : (m.setTable env pid p).tables root = m.tables root := update_of_ne h ..

@[simp] theorem setTable_table (env : Env) (m : Machine Ix) (pid : Pid) : m.setTable env pid (m.table env pid) = m := by
  simp only [setTable, table, update_eq_self]

/-- The page tables that an install may give out. -/
def limit (env : Env) (pid : Pid) : Nat :=
  match env.rootSlot pid, env.recordRoot pid with
  | none, some _ => 0
  | _, _ => (env.pageRoot pid).tableLimit

def setStore (m : Machine Ix) (s : Store Ix) : Machine Ix := { m with store := s }

def setAnon (m : Machine Ix) (p : AnonPool) : Machine Ix := { m with anon := p }

variable [RegionIndex Ix]

def boot (index : Ix) (budget : Pid → Option Nat) : Machine Ix where
  store := .boot index
  anon := .boot
  tables _ := .empty
  budget := budget

def initProcess (env : Env) (m : Machine Ix) (pid : Pid) : Bool × Machine Ix :=
  let r := m.store.initProcess (env.known pid) pid
  (r.1, m.setStore r.2)

def place (m : Machine Ix) (pid : Pid) (r : RegionId) (d : Region) : Bool × Machine Ix :=
  let placed := m.store.place (m.budget pid) pid r d
  (placed.1, m.setStore placed.2)

def releaseRegion (m : Machine Ix) (r : RegionId) : Machine Ix := m.setStore (m.store.regionRelease r)

def releasePages (env : Env) (m : Machine Ix) (phys count : Nat) : Machine Ix :=
  m.setAnon (m.anon.release env.pool phys count)

/-! ## `vma64_map_anon` -/

/-- Where the mapping goes, or 0 for nowhere: `MAP_FIXED` takes the hint or nothing. -/
def mapPlace (env : Env) (m : Machine Ix) (pid : Pid) (hint length : Nat) (map : UInt32) : Option Nat :=
  let count := pageCountFromLength length
  if map &&& mapFixed ≠ 0 then
    if hint % pageBytes ≠ 0
        ∨ m.store.findGap pid hint (add64 hint length) length pageBytes ≠ hint
        ∨ !(m.table env pid).runClear hint count then none
    else some hint
  else
    let virt := m.store.findGap pid (if hint ≠ 0 then hint else anonHintBase) anonHintLimit length pageBytes
    if virt = 0 ∨ !(m.table env pid).runClear virt count then none else some virt

/-- Install the pages of a new region; on a refusal clear them again and drop the region. -/
def mapInstall (env : Env) (m : Machine Ix) (pid : Pid) (r : RegionId) (virt length phys : Nat) (prot : UInt32) :
    Nat × Machine Ix :=
  let count := pageCountFromLength length
  if pagingProt prot = 0 then (virt, m)
  else
    let run := PageTable.installRun (limit env pid) virt phys (pagingProt prot) count 0 (m.table env pid)
    match run.1 with
    | none => (virt, m.setTable env pid run.2)
    | some k =>
      let m := m.setTable env pid (run.2.clearBack virt k)
      let m := m.setStore (m.store.remove pid virt (virt + length)).2
      (0, (m.releasePages env phys count).releaseRegion r)

def mapAt (env : Env) (m : Machine Ix) (pid : Pid) (virt length : Nat) (prot map : UInt32) : Nat × Machine Ix :=
  let count := pageCountFromLength length
  let acquired := m.store.regionAcquire
  match acquired.1 with
  | none => (0, m.setStore acquired.2)
  | some r =>
    let m := m.setStore acquired.2
    let claimed := m.anon.claim env.pool count
    let phys := claimed.1
    if phys = 0 then (0, (m.setAnon claimed.2).releaseRegion r)
    else
      let placed := (m.setAnon claimed.2).place pid r
        ⟨virt, virt + length, phys, prot, map, backingAnon, backingHandleNone, 0xA3000001⟩
      if placed.1 then placed.2.mapInstall env pid r virt length phys prot
      else (0, (placed.2.releasePages env phys count).releaseRegion r)

def mapAnon (env : Env) (m : Machine Ix) (pid : Pid) (hint length : Nat) (prot map : UInt32) : Nat × Machine Ix :=
  let count := pageCountFromLength length
  if count = 0 ∨ count > maxAnonPages ∨ map &&& mapAnonymous = 0 then (0, m)
  else
    let inited := m.initProcess env pid
    if inited.1 then
      match inited.2.mapPlace env pid hint length map with
      | none => (0, inited.2)
      | some virt => inited.2.mapAt env pid virt length prot map
    else (0, inited.2)

/-! ## `vma64_unmap` and `vma64_release_process` -/

def unmap (env : Env) (m : Machine Ix) (pid : Pid) (address length : Nat) : Bool × Machine Ix :=
  let count := pageCountFromLength length
  if count = 0 ∨ address % pageBytes ≠ 0 ∨ add64 address length < address then (false, m)
  else
    match m.store.find pid address with
    | none => (false, m)
    | some r =>
      let d := m.store.region r
      if d.virtBase ≠ address ∨ d.virtEnd ≠ address + length ∨ d.backingType ≠ backingAnon ∨ d.physBase = 0 then
        (false, m)
      else
        let m := m.setTable env pid ((m.table env pid).clearRun address count)
        let removed := m.store.remove pid address (address + length)
        match removed.1, m.store.vmaRoot pid with
        | some r, _ => (true, ((m.setStore removed.2).releasePages env d.physBase count).releaseRegion r)
        | none, some t => (true, ((m.setStore (m.store.detachRegion t r)).releasePages env d.physBase count).releaseRegion r)
        | none, none => (false, m)

/-- One iteration of the loop of `vma64_release_process`. -/
def releaseOne (env : Env) (pid : Pid) (m : Machine Ix) (r : RegionId) : Machine Ix :=
  let d := m.store.region r
  let count := pageCountFromLength d.length
  let m := m.setTable env pid ((m.table env pid).clearRun d.virtBase count)
  let m :=
    if d.backingType = backingAnon ∧ d.physBase ≠ 0 ∧ d.physBase ≠ physAnon ∧ count ≠ 0 then
      m.releasePages env d.physBase count
    else m
  m.releaseRegion r

def releaseProcess (env : Env) (m : Machine Ix) (pid : Pid) : Nat × Machine Ix :=
  match m.store.vmaRoot pid with
  | none => (0, m)
  | some t =>
    let ids := m.store.regionIds t
    let m := ids.foldl (releaseOne env pid) m
    (ids.length, m.setStore (m.store.releaseTree pid t))

/-! ## `vma64_protect` -/

/-- Acquire a region if one is needed. -/
def acquireIf (m : Machine Ix) (needed : Bool) : Bool × Option RegionId × Machine Ix :=
  if needed then
    let acquired := m.store.regionAcquire
    (acquired.1.isSome, acquired.1, m.setStore acquired.2)
  else (true, none, m)

def releaseIf (m : Machine Ix) (r : Option RegionId) : Machine Ix :=
  match r with
  | none => m
  | some r => m.releaseRegion r

/-- Place the part of a split region in `r` if there is one; on a refusal the region is given back. -/
def placeIf (m : Machine Ix) (pid : Pid) (r : Option RegionId) (d : Region) : Bool × Machine Ix :=
  match r with
  | none => (true, m)
  | some r =>
    let placed := m.place pid r d
    if placed.1 then (true, placed.2) else (false, placed.2.releaseRegion r)

/-- The pieces of a region around `[address, stop)`. -/
def prefixOf (d : Region) (address : Nat) : Region :=
  { d with virtEnd := address, vmaToken := splitToken d.vmaToken 0xA5000100 }

def middleOf (d : Region) (address stop : Nat) (prot : UInt32) : Region :=
  { d with virtBase := address, virtEnd := stop, physBase := d.physicalFor address, protFlags := prot }

def suffixOf (d : Region) (stop : Nat) : Region :=
  { d with virtBase := stop, physBase := add64 d.physBase (stop - d.virtBase)
           vmaToken := splitToken d.vmaToken 0xA5000200 }

/-- Put the pieces of the removed region `r` back: a step that fails leaves the later ones undone. -/
def protectSplit (env : Env) (m : Machine Ix) (pid : Pid) (r : RegionId) (pre suf : Option RegionId) (d : Region)
    (address stop : Nat) (prot : UInt32) : Bool × Machine Ix :=
  let first := m.placeIf pid pre (prefixOf d address)
  if !first.1 then (false, first.2)
  else
    let middle := first.2.place pid r (middleOf d address stop prot)
    if !middle.1 then (false, middle.2)
    else
      let last := middle.2.placeIf pid suf (suffixOf d stop)
      if !last.1 then (false, last.2)
      else
        let run := PageTable.protectRun (limit env pid) (middleOf d address stop prot) address (pagingProt prot)
          (pageCountFromLength (stop - address)) 0 (last.2.table env pid)
        (run.1, last.2.setTable env pid run.2)

def protect (env : Env) (m : Machine Ix) (pid : Pid) (address length : Nat) (prot : UInt32) : Bool × Machine Ix :=
  let count := pageCountFromLength length
  if count = 0 ∨ address % pageBytes ≠ 0 ∨ add64 address length < address then (false, m)
  else
    match m.store.find pid address with
    | none => (false, m)
    | some r =>
      let d := m.store.region r
      let stop := address + length
      if stop > d.virtEnd ∨ d.backingType ≠ backingAnon
          ∨ (pagingProt d.protFlags ≠ 0 ∧ !(m.table env pid).runMatches d address count) then (false, m)
      else
        let pre := m.acquireIf (address > d.virtBase)
        if !pre.1 then (false, pre.2.2)
        else
          let suf := pre.2.2.acquireIf (stop < d.virtEnd)
          if !suf.1 then (false, suf.2.2.releaseIf pre.2.1)
          else
            let m := suf.2.2
            let removed := m.store.remove pid d.virtBase d.virtEnd
            if removed.1 ≠ some r then (false, ((m.setStore removed.2).releaseIf pre.2.1).releaseIf suf.2.1)
            else (m.setStore removed.2).protectSplit env pid r pre.2.1 suf.2.1 d address stop prot

/-! ## `vma64_clone_cow_page` -/

/-- Map `phys`, already retained, for the target; both mappings become read-only copies on write. -/
def cloneInto (env : Env) (m : Machine Ix) (sourcePid : Pid) (source : RegionId) (sourcePage : Nat)
    (targetPid : Pid) (targetPage phys : Nat) : Bool × Machine Ix :=
  let acquired := m.store.regionAcquire
  match acquired.1 with
  | none => (false, (m.setStore acquired.2).releasePages env phys 1)
  | some target =>
    let d := m.store.region source
    let placed := (m.setStore acquired.2).place targetPid target
      ⟨targetPage, add64 targetPage pageBytes, phys, d.protFlags, d.mapFlags ||| mapCopyOnWrite, backingAnon,
        backingHandleNone, splitToken d.vmaToken 0xA7001000⟩
    if !placed.1 then (false, (placed.2.releasePages env phys 1).releaseRegion target)
    else
      let m := placed.2.setStore
        (placed.2.store.setRegion source { d with mapFlags := d.mapFlags ||| mapCopyOnWrite })
      let prot := pagingProt (d.protFlags &&& ~~~protWrite)
      let updated := (m.table env sourcePid).updateProtection sourcePage prot
      let m' := m.setTable env sourcePid updated.2
      let installed := (m'.table env targetPid).install (limit env targetPid) targetPage phys prot
      if prot ≠ 0 ∧ updated.1 ∧ installed.1 then (true, m'.setTable env targetPid installed.2)
      else
        let m := if prot = 0 then m else if updated.1 then m'.setTable env targetPid installed.2 else m'
        let m := m.setStore (m.store.remove targetPid targetPage (targetPage + pageBytes)).2
        (false, (m.releaseRegion target).releasePages env phys 1)

def cloneCowPage (env : Env) (m : Machine Ix) (sourcePid : Pid) (sourcePage : Nat) (targetPid : Pid)
    (targetPage : Nat) : Bool × Machine Ix :=
  if alignDown sourcePage ≠ sourcePage ∨ alignDown targetPage ≠ targetPage
      ∨ sourcePid = invalidPid ∨ targetPid = invalidPid then (false, m)
  else
    let m := m.initProcess env sourcePid
    if !m.1 then (false, m.2)
    else
      let m := m.2.initProcess env targetPid
      if !m.1 then (false, m.2)
      else
        let m := m.2
        if (m.store.find targetPid targetPage).isSome ∨ (m.table env targetPid).present targetPage then (false, m)
        else
          match m.store.find sourcePid sourcePage with
          | none => (false, m)
          | some source =>
            let d := m.store.region source
            if d.backingType ≠ backingAnon ∨ d.virtBase ≠ sourcePage ∨ d.virtEnd ≠ sourcePage + pageBytes
                ∨ d.protFlags &&& protWrite = 0 ∨ !(m.table env sourcePid).runMatches d sourcePage 1 then (false, m)
            else
              let phys := (m.table env sourcePid).physical sourcePage
              let retained := m.anon.retain env.pool phys
              if phys = 0 ∨ !retained.1 then (false, m)
              else (m.setAnon retained.2).cloneInto env sourcePid source sourcePage targetPid targetPage phys

/-! ## `vma64_fork_copy_process` -/

/-- Copy the pages of a run; no answer if a page is not of the pool. -/
def copyRun (b : PoolBase) (source target : Nat) : Nat → Nat → AnonPool → Option AnonPool
  | 0, _, p => some p
  | n + 1, i, p =>
    match pageIndex b (pageAt source i), pageIndex b (pageAt target i) with
    | some s, some t => copyRun b source target n (i + 1) (p.copyPage t s)
    | _, _ => none

/-- Copy one region of the parent; `copied` regions have been copied before. -/
def forkRegion (env : Env) (parent child : Pid) (m : Machine Ix) (source : RegionId) (copied : Nat) :
    Bool × Machine Ix :=
  let d := m.store.region source
  let count := pageCountFromLength d.length
  if count = 0 ∨ d.backingType ≠ backingAnon ∨ d.physBase = 0 ∨ d.physBase = physAnon
      ∨ !(m.table env parent).runMatches d d.virtBase count then (false, m)
  else
    let acquired := m.store.regionAcquire
    match acquired.1 with
    | none => (false, m.setStore acquired.2)
    | some target =>
      let m := m.setStore acquired.2
      let claimed := m.anon.claim env.pool count
      let phys := claimed.1
      let m := m.setAnon claimed.2
      if phys = 0 then (false, m.releaseRegion target)
      else
        match copyRun env.pool d.physBase phys count 0 m.anon with
        | none => (false, (m.releasePages env phys count).releaseRegion target)
        | some anon =>
          let placed := (m.setAnon anon).place child target
            ⟨d.virtBase, d.virtEnd, phys, d.protFlags, d.mapFlags &&& ~~~mapCopyOnWrite, backingAnon,
              backingHandleNone, splitToken d.vmaToken (0xF0230000 + UInt32.ofNat copied)⟩
          if !placed.1 then (false, (placed.2.releasePages env phys count).releaseRegion target)
          else if pagingProt d.protFlags = 0 then (false, placed.2)
          else
            let run := PageTable.installRun (limit env child) d.virtBase phys (pagingProt d.protFlags) count 0
              (placed.2.table env child)
            (run.1.isNone, placed.2.setTable env child run.2)

/-- The loop over the parent's list; any failure releases the whole child. -/
def forkLoop (env : Env) (parent child : Pid) : List RegionId → Nat → Machine Ix → Bool × Machine Ix
  | [], _, m => (true, m)
  | source :: rest, copied, m =>
    let step := m.forkRegion env parent child source copied
    if step.1 then forkLoop env parent child rest (copied + 1) step.2
    else (false, (step.2.releaseProcess env child).2)

def forkCopyProcess (env : Env) (m : Machine Ix) (parent child : Pid) : Bool × Machine Ix :=
  if parent = invalidPid ∨ child = invalidPid ∨ parent = child then (false, m)
  else
    let m := m.initProcess env parent
    if !m.1 then (false, m.2)
    else
      let m := m.2.initProcess env child
      if !m.1 then (false, m.2)
      else
        let m := m.2
        match m.store.vmaRoot parent, m.store.vmaRoot child with
        | some pt, some ct =>
          if (m.store.totals ct).regionCount ≠ 0 then (false, m)
          else
            let brk := m.store.totals pt
            let m := m.setStore (m.store.setTotals ct { m.store.totals ct with
              brkBase := brk.brkBase, brkCurrent := brk.brkCurrent, brkPeak := brk.brkPeak })
            m.forkLoop env parent child (m.store.regionIds pt) 0
        | _, _ => (false, m)

/-! ## `vma64_handle_cow_fault` -/

def handleCowFault (env : Env) (m : Machine Ix) (pid : Pid) (faultAddress : Nat) (errorCode : UInt64) :
    Bool × Machine Ix :=
  let page := alignDown faultAddress
  if errorCode &&& (faultPresent ||| faultWrite) ≠ faultPresent ||| faultWrite then (false, m)
  else
    match m.store.find pid page with
    | none => (false, m)
    | some r =>
      let d := m.store.region r
      let p := m.table env pid
      if d.mapFlags &&& mapCopyOnWrite = 0 ∨ d.protFlags &&& protWrite = 0 ∨ d.backingType ≠ backingAnon
          ∨ d.virtBase ≠ page ∨ d.virtEnd ≠ page + pageBytes ∨ !p.present page
          ∨ p.protection page &&& protWrite ≠ 0 then (false, m)
      else
        let oldPhys := p.physical page
        let claimed := m.anon.claim env.pool 1
        let newPhys := claimed.1
        match pageIndex env.pool oldPhys, pageIndex env.pool newPhys with
        | some old, some new =>
          let m' := m.setAnon (claimed.2.copyPage new old)
          let remapped := p.remap page newPhys (pagingProt d.protFlags)
          if newPhys = oldPhys ∨ pagingProt d.protFlags = 0 then (false, (m.setAnon claimed.2).releasePages env newPhys 1)
          else if !remapped.1 then (false, m'.releasePages env newPhys 1)
          else
            let m := (m'.setTable env pid remapped.2).setStore
              (m.store.setRegion r { d with physBase := newPhys, mapFlags := d.mapFlags &&& ~~~mapCopyOnWrite })
            (true, m.releasePages env oldPhys 1)
        | _, _ => (false, (m.setAnon claimed.2).releasePages env newPhys 1)

/-! ## `vma64_brk_query` and `vma64_brk_extend` -/

/-- `vma64_brk_init_tree` -/
def brkInitTree (m : Machine Ix) (t : TreeId) : Machine Ix :=
  if (m.store.totals t).brkBase = 0 then
    m.setStore (m.store.setTotals t { m.store.totals t with
      brkBase := brkBaseDefault, brkCurrent := brkBaseDefault, brkPeak := brkBaseDefault })
  else m

def brkQuery (env : Env) (m : Machine Ix) (pid : Pid) : Nat × Machine Ix :=
  let inited := m.initProcess env pid
  if inited.1 then
    match inited.2.store.vmaRoot pid with
    | none => (0, inited.2)
    | some t =>
      let m := inited.2.brkInitTree t
      ((m.store.totals t).brkCurrent, m)
  else (0, inited.2)

def brkSet (m : Machine Ix) (t : TreeId) (newBrk : Nat) : Machine Ix :=
  m.setStore (m.store.setTotals t { m.store.totals t with
    brkCurrent := newBrk, brkPeak := max (m.store.totals t).brkPeak newBrk })

/-- Move the break of a process that has a tree. -/
def brkMove (env : Env) (m : Machine Ix) (pid : Pid) (t : TreeId) (newBrk : Nat) : Nat × Machine Ix :=
  let brk := m.store.totals t
  let current := brk.brkCurrent
  if newBrk < brk.brkBase ∨ newBrk > brkLimitDefault then (0, m)
  else if newBrk = current then (current, m)
  else if newBrk > current then
    let mapped := m.mapAnon env pid current (newBrk - current) (protRead ||| protWrite)
      (mapPrivate ||| mapFixed ||| mapAnonymous)
    if mapped.1 ≠ current then (0, mapped.2) else (newBrk, mapped.2.brkSet t newBrk)
  else
    let unmapped := m.unmap env pid newBrk (current - newBrk)
    if !unmapped.1 then (0, unmapped.2) else (newBrk, unmapped.2.brkSet t newBrk)

def brkExtend (env : Env) (m : Machine Ix) (pid : Pid) (newBrk : Nat) : Nat × Machine Ix :=
  let inited := m.initProcess env pid
  if !inited.1 ∨ newBrk % pageBytes ≠ 0 then (0, inited.2)
  else
    match inited.2.store.vmaRoot pid with
    | none => (0, inited.2)
    | some t => (inited.2.brkInitTree t).brkMove env pid t newBrk

/-! ## User accesses -/

/-- The pool page and the entry behind a user address. -/
def translate (env : Env) (m : Machine Ix) (pid : Pid) (address : Nat) : Option (Nat × Pte) :=
  if address < 2 ^ 47 then
    ((m.table env pid).lookup address).bind fun e => (pageIndex env.pool e.phys).map fun i => (i, e)
  else none

/-- A user store: nothing happens unless the page is mapped writable. -/
def write (env : Env) (m : Machine Ix) (pid : Pid) (address : Nat) (value : UInt8) : Machine Ix :=
  match m.translate env pid address with
  | some (i, e) =>
    if e.writable then
      m.setAnon { m.anon with
        bytes := update m.anon.bytes i (update (m.anon.bytes i) (address % pageBytes) value) }
    else m
  | none => m

/-- `persona64_configure_resource_budgets`, as far as the VMA layer sees it. -/
def configureBudget (m : Machine Ix) (pid : Pid) (pages : Nat) : Machine Ix :=
  if (m.budget pid).isSome then { m with budget := update m.budget pid (some pages) } else m

end Machine

/-- A call into the VMA layer, or something its environment does. -/
inductive Op where
  | mapAnon (pid : Pid) (hint length : UInt64) (prot map : UInt32)
  | cloneCowPage (sourcePid : Pid) (source : UInt64) (targetPid : Pid) (target : UInt64)
  | forkCopyProcess (parent child : Pid)
  | handleCowFault (pid : Pid) (address errorCode : UInt64)
  | protect (pid : Pid) (address length : UInt64) (prot : UInt32)
  | unmap (pid : Pid) (address length : UInt64)
  | brkQuery (pid : Pid)
  | brkExtend (pid : Pid) (newBrk : UInt64)
  | releaseProcess (pid : Pid)
  | write (pid : Pid) (address : UInt64) (value : UInt8)
  | configureBudget (pid : Pid) (pages : UInt32)
  deriving DecidableEq, Repr

namespace Machine

variable {Ix : Type} [RegionIndex Ix]

def step (env : Env) (m : Machine Ix) : Op → Machine Ix
  | .mapAnon pid hint length prot map => (m.mapAnon env pid hint.toNat length.toNat prot map).2
  | .cloneCowPage sp s tp t => (m.cloneCowPage env sp s.toNat tp t.toNat).2
  | .forkCopyProcess parent child => (m.forkCopyProcess env parent child).2
  | .handleCowFault pid address errorCode => (m.handleCowFault env pid address.toNat errorCode).2
  | .protect pid address length prot => (m.protect env pid address.toNat length.toNat prot).2
  | .unmap pid address length => (m.unmap env pid address.toNat length.toNat).2
  | .brkQuery pid => (m.brkQuery env pid).2
  | .brkExtend pid newBrk => (m.brkExtend env pid newBrk.toNat).2
  | .releaseProcess pid => (m.releaseProcess env pid).2
  | .write pid address value => m.write env pid address.toNat value
  | .configureBudget pid pages => m.configureBudget pid pages.toNat

def run (env : Env) (m : Machine Ix) (ops : List Op) : Machine Ix := ops.foldl (step env) m

end Machine

end LimitlessOS.Vma
