/-
  LimitlessOS.Vfs.Sharing — whether it matters which thread uses a shared descriptor.

  The rule (`Careful`): while threads share a table, only files of the RAM filesystem are
  opened in it, by paths that are no mount points; a descriptor is closed or replaced by the
  thread whose path record it has; a process that has devices open, or records left over,
  clones no thread; and the process that has the table exits last.

  Proved:
  - `Alike.call`: one call of two threads, in two states that differ in the path
    records only.
  - `Sound.step`: one call that follows the rule.
  - `sharing_of_careful`: every run that follows the rule.

  `directory_of_opener`: only the thread that opened /dev can list it.
-/
import LimitlessOS.Vfs.Threads

namespace LimitlessOS.Threads

open Function Lib Ramfs Vfs PathRecord Keyed Table Option

variable {s s' : Threads} {pid q : UInt32} {fd g : Fin fdLimit} {k : Fin maxTables} {path : List UInt8}

/-! ## Regular tables -/

/-- A path of the RAM filesystem that is not one of its mount points. -/
def Plain (path : List UInt8) : Prop := ∀ m, findMount path = some m → m.provider = .ramfs ∧ m.prefixBytes ≠ path

/-- No descriptor of a table is of a device, and the path records of its threads are of files. -/
structure Regular (s : Threads) (k : Fin maxTables) : Prop where
  noDevice : ∀ t fd e, s.tables k = some t → t.entries fd = some e → ∀ d, e.object ≠ .device d
  recorded : ∀ q fd r, s.attached q = some k → s.fdPath q fd = some r →
    Plain r.path ∧ ∃ t e handle, s.tables k = some t ∧ t.entries fd = some e ∧ e.object = .node handle

theorem Plain.pathIsDirectory (h : Plain path) (s : Threads) (pid : UInt32) (a : Answers) :
    s.pathIsDirectory pid path a = false := by
  unfold Threads.pathIsDirectory
  split
  · rfl
  rcases hm : findMount path with _ | m
  · rfl
  obtain ⟨hram, hne⟩ := h m hm
  dsimp only
  rw [if_pos hram]
  simpa using hne

variable {e : Entry} {t : Table} {old new : Fin fdLimit} {budget : Bool} {o : Opened} {p : UInt32}

theorem table_of_attached (hk : s.attached pid = some k) (ht : s.tables k = some t) : s.table pid = some t := by
  rw [table, hk, bind_some, ht]

theorem setEntry_of_attached (hk : s.attached pid = some k) (fd : Fin fdLimit) (e : Option Entry) :
    s.setEntry pid fd e = { s with tables := update s.tables k ((s.tables k).map fun t => t.set fd e) } := by
  rw [setEntry, hk]

theorem setEntry_tables (hk : s.attached pid = some k) (ht : s.tables k = some t) (fd : Fin fdLimit)
    (e : Option Entry) : (s.setEntry pid fd e).tables k = some (t.set fd e) := by
  simp [setEntry_of_attached hk, ht]

@[simp] theorem Table.set_self (t : Table) (fd : Fin fdLimit) (e : Option Entry) : (t.set fd e).entries fd = e := by
  simp [set]

theorem Table.set_of_ne (t : Table) (hg : g ≠ fd) (e : Option Entry) : (t.set fd e).entries g = t.entries g := by
  simp [set, hg]

/-- A descriptor that has a path record is of a file. -/
theorem Regular.node (h : Regular s k) (ht : s.tables k = some t) {r : PathRecord} (hq : s.attached q = some k)
    (hr : s.fdPath q fd = some r) : Plain r.path ∧ ∃ e handle, t.entries fd = some e ∧ e.object = .node handle := by
  obtain ⟨hplain, u, e, handle, hu, he, hnode⟩ := h.recorded q fd r hq hr
  obtain rfl : t = u := mem_unique ht hu
  exact ⟨hplain, e, handle, he, hnode⟩

section

variable {e : Option Entry} (h : Regular s k) (ht : s.tables k = some t)
  (ht' : s'.tables k = some (t.set fd e)) (hattached : s'.attached = s.attached)
  (hdevice : ∀ x, e = some x → ∀ d, x.object ≠ .device d) (hother : ∀ q g, g ≠ fd → s'.fdPath q g = s.fdPath q g)
include h ht ht' hattached hdevice hother

/-- One descriptor changes; the path records of the others stay. -/
theorem Regular.update
    (hnew : ∀ q r, s.attached q = some k → s'.fdPath q fd = some r →
      Plain r.path ∧ ∃ x handle, e = some x ∧ x.object = .node handle) : Regular s' k := by
  constructor
  · intro u g x hu hx
    obtain rfl : t.set fd e = u := mem_unique ht' hu
    by_cases hg : g = fd
    · subst hg
      rw [set_self] at hx
      exact hdevice x hx
    · rw [set_of_ne t hg] at hx
      exact h.noDevice t g x ht hx
  · intro p g r hp hr
    rw [hattached] at hp
    by_cases hg : g = fd
    · subst hg
      obtain ⟨hplain, x, handle, hx, hnode⟩ := hnew p r hp hr
      exact ⟨hplain, t.set g e, x, handle, ht', by rw [set_self, hx], hnode⟩
    · obtain ⟨hplain, x, handle, hx, hnode⟩ := h.node ht hp (hother p g hg ▸ hr)
      exact ⟨hplain, t.set fd e, x, handle, ht', by rw [set_of_ne t hg, hx], hnode⟩

/-- Nobody has a path record of the descriptor that changes. -/
theorem Regular.update_unrecorded (hnone : ∀ q, s.attached q = some k → s'.fdPath q fd = none) : Regular s' k := by
  refine h.update ht ht' hattached hdevice hother fun q r hq hr => ?_
  simp [hnone q hq] at hr

end

section

variable (h : Regular s k) (hk : s.attached pid = some k) (ht : s.tables k = some t)
include h hk ht

/-- In a regular table no descriptor can be listed. -/
theorem Regular.sysGetdents64 (byteCount : Nat) (writable : Bool) (a : Answers) : s.sysGetdents64 pid fd byteCount writable a =
      (.error
        (if s.principal pid = 0 then .esrch
        else if (t.entries fd).isNone then .ebadf
        else if byteCount = 0 ∨ 0xFFFFFFFF < byteCount then .einval
        else if writable = false then .efault
        else .enotdir), s) := by
  have hentry : s.entry pid fd = t.entries fd := by rw [entry, table_of_attached hk ht, bind_some]
  unfold Threads.sysGetdents64
  rw [hentry]
  split_ifs with hprincipal hnone hcount hwritable
  · rfl
  · rfl
  · rfl
  · rfl
  rcases hr : s.fdPath pid fd with _ | r
  · rfl
  have hplain := (h.recorded pid fd r hk hr).1.pathIsDirectory s pid a
  obtain ⟨rounds, rfl⟩ : ∃ rounds, byteCount = rounds + 1 := ⟨byteCount - 1, by omega⟩
  -- the first round finds no directory
  have hloop : s.getdentsLoop pid fd (rounds + 1) a (rounds + 1) r.cursor [] = .error .enotdir := by
    rw [getdentsLoop, if_neg (by simp), readDirent, hr]
    dsimp only
    rw [if_pos (.inr hplain)]
    rfl
  dsimp only
  rw [hloop]

/-! ## One call of two threads -/

/-- Two states with the same tables, which are regular at one table. -/
structure Alike (s s' : Threads) (k : Fin maxTables) : Prop where
  tables : s'.tables = s.tables
  attached : s'.attached = s.attached
  principal : s'.principal = s.principal
  left : Regular s k
  right : Regular s' k

/-- A descriptor keeps its object. -/
theorem Regular.setOffset (he : t.entries fd = some e) (offset : Nat) :
    Regular (s.setEntry pid fd (some { e with offset })) k := by
  refine h.update ht (setEntry_tables hk ht fd _) (by rw [setEntry_of_attached hk]) ?_ ?_ ?_
  · intro x hx
    obtain rfl := some.inj hx
    exact h.noDevice t fd e ht he
  · intro p g _
    rw [setEntry_of_attached hk]
    rfl
  intro p r hp hr
  rw [setEntry_of_attached hk] at hr
  obtain ⟨hplain, x, handle, hx, hnode⟩ := h.node ht hp hr
  obtain rfl : e = x := mem_unique he hx
  exact ⟨hplain, _, handle, rfl, hnode⟩

end

section

variable (h : Alike s s' k) (hp : s.attached pid = some k) (hq : s.attached q = some k) (ht : s.tables k = some t)
include h hp hq ht

theorem Alike.setOffset (he : t.entries fd = some e) (offset : Nat) :
    Alike (s.setEntry pid fd (some { e with offset })) (s'.setEntry q fd (some { e with offset })) k := by
  have hq' : s'.attached q = some k := by rw [h.attached, hq]
  have ht' : s'.tables k = some t := by rw [h.tables, ht]
  refine ⟨?_, ?_, ?_, h.left.setOffset hp ht he offset, h.right.setOffset hq' ht' he offset⟩ <;>
    rw [setEntry_of_attached hp, setEntry_of_attached hq']
  · simp only [h.tables]
  · exact h.attached
  · exact h.principal

/-- One of the four calls, made by one thread in one state and by another in the other. -/
theorem Alike.call (hprincipal : s.principal q = s.principal pid) {a : Answers} (hpending : a.pending q = a.pending pid)
    (c : Call) :
    (s'.call q fd a c).1 = (s.call pid fd a c).1 ∧ Alike (s.call pid fd a c).2 (s'.call q fd a c).2 k := by
  have hq' : s'.attached q = some k := by rw [h.attached, hq]
  have ht' : s'.tables k = some t := by rw [h.tables, ht]
  have htable := table_of_attached hp ht
  have htable' := table_of_attached hq' ht'
  have hprincipal' : s'.principal q = s.principal pid := by rw [h.principal, hprincipal]
  cases c with
  | read count writable =>
    simp only [Threads.call, sysRead, htable, htable', hprincipal']
    rcases he : t.entries fd with _ | e
    · exact ⟨rfl, h⟩
    dsimp only
    split_ifs with hzero hcount hwritable
    · exact ⟨rfl, h⟩
    · exact ⟨rfl, h⟩
    · exact ⟨rfl, h⟩
    cases hobject : e.object with
    | device d => exact absurd hobject (h.left.noDevice t fd e ht he d)
    | terminal handle =>
      dsimp only
      cases a.terminal handle fd (min count readChunkBytes) (s.principal pid) <;> exact ⟨rfl, h⟩
    | node handle =>
      simp only [readEntry, hobject]
      split_ifs with hlarge
      · exact ⟨rfl, h⟩
      · cases a.file handle e.offset (min count readChunkBytes) t.owner with
        | none => exact ⟨rfl, h⟩
        | some bytes => exact ⟨rfl, hobject ▸ h.setOffset hp hq ht he _⟩
    | pipeRead handle =>
      simp only [readEntry, hobject, hpending]
      split_ifs with hlarge
      · exact ⟨rfl, h⟩
      · cases a.pipe handle (min count readChunkBytes) t.owner <;> exact ⟨rfl, h⟩
      · cases a.pipe handle (min count readChunkBytes) t.owner <;> exact ⟨rfl, h⟩
    | pipeWrite handle =>
      simp only [readEntry, hobject]
      split_ifs <;> exact ⟨rfl, h⟩
  | getdents64 byteCount writable =>
    simp only [Threads.call, h.left.sysGetdents64 hp ht, h.right.sysGetdents64 hq' ht', hprincipal']
    exact ⟨trivial, h⟩
  | fstat writable =>
    have hstat : s'.fstat q fd a = s.fstat pid fd a := by
      rw [fstat, fstat, htable, htable', bind_some, bind_some]
      rcases he : t.entries fd with _ | e
      · rfl
      rw [bind_some, bind_some]
      cases hobject : e.object with
      | device d => exact absurd hobject (h.left.noDevice t fd e ht he d)
      | terminal handle =>
        -- a terminal has no path record
        have hnone : ∀ (u : Threads) p, Regular u k → u.attached p = some k → u.tables k = some t → u.fdPath p fd = none := by
          intro u p hu hk hut
          rw [eq_none_iff_forall_ne_some]
          intro r hr
          obtain ⟨-, e', handle', he', hnode⟩ := hu.node hut hk hr
          obtain rfl : e = e' := mem_unique he he'
          simp [hobject] at hnode
        rw [hnone s pid h.left hp ht, hnone s' q h.right hq' ht']
        rfl
      | node handle => rfl
      | pipeRead handle => rfl
      | pipeWrite handle => rfl
    simp only [Threads.call, sysFstat, hprincipal', hstat]
    exact ⟨trivial, h⟩
  | lseek offset whence =>
    simp only [Threads.call, sysLseek, htable, htable', hprincipal']
    by_cases hzero : s.principal pid = 0
    · simp only [if_pos hzero]
      exact ⟨trivial, h⟩
    simp only [if_neg hzero]
    rcases he : t.entries fd with _ | e
    · exact ⟨rfl, h⟩
    rcases decodeLseekOffset offset with _ | delta
    · exact ⟨rfl, h⟩
    by_cases hwhence : 2 < whence
    · simp only [if_pos hwhence]
      exact ⟨trivial, h⟩
    simp only [if_neg hwhence]
    have hend : s'.seekEnd q fd t.owner e a = s.seekEnd pid fd t.owner e a := by
      unfold seekEnd
      cases hobject : e.object with
      | device d => exact absurd hobject (h.left.noDevice t fd e ht he d)
      | _ => rfl
    rw [hend]
    rcases s.seekEnd pid fd t.owner e a with _ | fileEnd
    · exact ⟨rfl, h⟩
    dsimp only
    generalize (if whence = 0 then some 0 else if whence = 1 then some e.offset else fileEnd).bind
      (fun base => applySeekDelta base delta) = new
    cases new with
    | none => exact ⟨rfl, h⟩
    | some new => exact ⟨rfl, h.setOffset hp hq ht he new⟩

end

/-- One of the four calls, and the two threads that may make it. -/
structure Request where
  left : UInt32
  right : UInt32
  fd : Fin fdLimit
  answers : Answers
  call : Call

/-- What the calls return, one after the other, if `who` makes them. -/
def results (who : Request → UInt32) : Threads → List Request → List Outcome
  | _, [] => []
  | s, r :: rs => (s.call (who r) r.fd r.answers r.call).1 :: results who (s.call (who r) r.fd r.answers r.call).2 rs

/-- Threads of one table call, with the same signals pending or none. -/
def Request.Among (s : Threads) (k : Fin maxTables) (r : Request) : Prop :=
  s.attached r.left = some k ∧ s.attached r.right = some k ∧ r.answers.pending r.left = r.answers.pending r.right

/-! ## What the calls of a process leave alone -/

/-- A call of `pid` changes its table and its path records only. -/
structure Touches (s s' : Threads) (pid : UInt32) : Prop where
  attached : s'.attached = s.attached
  principal : s'.principal = s.principal
  clones : s'.clones = s.clones
  tables : ∀ k, s.attached pid ≠ some k → s'.tables k = s.tables k
  live : ∀ k t, s.tables k = some t → ∃ t', s'.tables k = some t'
  distinct : Distinct key s.paths → Distinct key s'.paths
  paths : Distinct key s.paths → ∀ q fd, q ≠ pid → s'.fdPath q fd = s.fdPath q fd

theorem Touches.refl (s : Threads) (pid : UInt32) : Touches s s pid :=
  ⟨rfl, rfl, rfl, fun _ _ => rfl, fun _ t ht => ⟨t, ht⟩, id, fun _ _ _ _ => rfl⟩

theorem Touches.trans {s'' : Threads} (h : Touches s s' pid) (h' : Touches s' s'' pid) : Touches s s'' pid where
  attached := h'.attached.trans h.attached
  principal := h'.principal.trans h.principal
  clones := h'.clones.trans h.clones
  tables k hk := (h'.tables k (h.attached ▸ hk)).trans (h.tables k hk)
  live k t ht := by
    obtain ⟨t', ht'⟩ := h.live k t ht
    exact h'.live k t' ht'
  distinct hd := h'.distinct (h.distinct hd)
  paths hd q fd hq := (h'.paths (h.distinct hd) q fd hq).trans (h.paths hd q fd hq)

theorem touches_setEntry (s : Threads) (pid : UInt32) (fd : Fin fdLimit) (e : Option Entry) :
    Touches s (s.setEntry pid fd e) pid := by
  cases hk : s.attached pid with
  | none =>
    rw [setEntry, hk]
    exact .refl s pid
  | some k =>
    rw [setEntry_of_attached hk]
    refine ⟨rfl, rfl, rfl, fun j hj => ?_, fun j t ht => ?_, id, fun _ _ _ _ => rfl⟩
    · have hne : j ≠ k := fun h => hj (h ▸ hk)
      simp [update_of_ne hne]
    · by_cases hj : j = k
      · subst hj
        exact ⟨t.set fd e, by simp [ht]⟩
      · exact ⟨t, by simp [update_of_ne hj, ht]⟩

/-- A change of the path records that keeps the keys distinct and touches those of `pid` only. -/
theorem touches_paths {paths : Fin maxPathRecords → Option PathRecord}
    (hd : Distinct key s.paths → Distinct key paths)
    (hp : Distinct key s.paths → ∀ q fd, q ≠ pid →
      get key paths (q, fd) = get key s.paths (q, fd)) :
    Touches s { s with paths } pid :=
  ⟨rfl, rfl, rfl, fun _ _ => rfl, fun _ t ht => ⟨t, ht⟩, hd, hp⟩

theorem fdPath_forgetFdPath (hd : Distinct key s.paths) (pid q : UInt32) (fd g : Fin fdLimit) :
    (s.forgetFdPath pid fd).fdPath q g = if (q, g) = (pid, fd) then none else s.fdPath q g :=
  get_erase hd (q, g)

theorem touches_forgetFdPath (s : Threads) (pid : UInt32) (fd : Fin fdLimit) : Touches s (s.forgetFdPath pid fd) pid := by
  refine touches_paths (fun hd => hd.erase) fun hd q g hq => ?_
  rw [get_erase hd, if_neg (fun h => hq (Prod.mk.inj h).1)]

theorem touches_setFdDirCursor (s : Threads) (pid : UInt32) (fd : Fin fdLimit) (cursor : Nat) :
    Touches s (s.setFdDirCursor pid fd cursor) pid := by
  have hkey : ∀ r : PathRecord, key { r with cursor } = r.key := fun _ => rfl
  refine touches_paths (fun hd => hd.modify hkey) fun hd q g hq => ?_
  rw [get_modify hd hkey, if_neg (fun h => hq (Prod.mk.inj h).1)]

theorem fdPath_of_no_slot (h : ¬ (slot key s.paths (pid, fd)).isSome) : s.fdPath pid fd = none := by
  rw [fdPath, get_eq_none]
  exact slot_none.1 (by simpa using h)

section

variable (s pid)

/-- What the path records are after a new one: the new one is there, or the table is full and nothing changes. -/
theorem recordFdPath_cases (fd : Fin fdLimit) (path : List UInt8) :
    s.recordFdPath pid fd path = (false, s) ∨ ∃ paths, s.recordFdPath pid fd path = (true, { s with paths }) ∧
      (Distinct PathRecord.key s.paths → Distinct PathRecord.key paths ∧ ∀ key, get PathRecord.key paths key =
        if key = (pid, fd) then some ⟨pid, fd, path, 0⟩ else get PathRecord.key s.paths key) := by
  unfold recordFdPath
  split_ifs with hlong hslot
  · exact .inl rfl
  · obtain ⟨i, hi⟩ := isSome_iff_exists.1 hslot
    obtain ⟨r, hr, hkey⟩ := slot_some hi
    have hget : Keyed.get key s.paths (pid, fd) = some r := by rw [Keyed.get, hi, bind_some, hr]
    have hf : ∀ r : PathRecord, PathRecord.key { r with path, cursor := 0 } = r.key := fun _ => rfl
    refine .inr ⟨_, rfl, fun hd => ⟨hd.modify hf, fun key => ?_⟩⟩
    rw [get_modify hd hf]
    split_ifs with heq
    · obtain ⟨rfl, rfl⟩ := Prod.mk.inj hkey
      rw [hget]
      rfl
    · rfl
  · have hnone : get PathRecord.key s.paths (PathRecord.key ⟨pid, fd, path, 0⟩) = none := fdPath_of_no_slot hslot
    cases hfree : free s.paths with
    | none => exact .inl rfl
    | some i => exact .inr ⟨_, rfl, fun hd => ⟨hd.put hnone, fun key => get_put hd (free_some hfree) hnone⟩⟩

theorem touches_recordFdPath (fd : Fin fdLimit) (path : List UInt8) :
    Touches s (s.recordFdPath pid fd path).2 pid := by
  rcases s.recordFdPath_cases pid fd path with heq | ⟨paths, heq, hpaths⟩ <;> rw [heq]
  · exact .refl s pid
  · refine touches_paths (fun hd => (hpaths hd).1) fun hd q g hq => ?_
    rw [(hpaths hd).2, if_neg fun h => hq (Prod.mk.inj h).1]

theorem touches_dupFdPath (old new : Fin fdLimit) : Touches s (s.dupFdPath pid old new).2 pid := by
  unfold dupFdPath
  split_ifs with hsame
  · exact .refl s pid
  · cases s.fdPath pid old with
    | none => exact touches_forgetFdPath s pid new
    | some r => exact (touches_forgetFdPath s pid new).trans (touches_recordFdPath _ pid new r.path)

theorem touches_openPath (o : Opened) (budget : Bool) :
    Touches s (s.openPath pid o budget).2 pid := by
  unfold openPath
  rcases s.freeFd pid with _ | fd
  · exact .refl s pid
  split_ifs
  · exact (touches_setEntry s pid fd _).trans (touches_recordFdPath _ pid fd o.path)
  · exact .refl s pid

theorem touches_close (fd : Fin fdLimit) : Touches s (s.close pid fd) pid := by
  unfold close
  split_ifs
  · exact .refl s pid
  · exact (touches_setEntry s pid fd none).trans (touches_forgetFdPath _ pid fd)

theorem touches_dupInto (old new : Fin fdLimit) (budget : Bool) :
    Touches s (s.dupInto pid old new budget) pid := by
  unfold dupInto
  rcases s.entry pid old with _ | e
  · exact .refl s pid
  dsimp only
  split_ifs
  · exact .refl s pid
  · exact touches_setEntry s pid new none
  have hdup := (touches_setEntry s pid new (some e)).trans (touches_dupFdPath _ pid old new)
  rcases hresult : (s.setEntry pid new (some e)).dupFdPath pid old new with ⟨ok, s1⟩
  rw [hresult] at hdup
  cases ok with
  | true => exact hdup
  | false => exact hdup.trans ((touches_forgetFdPath s1 pid new).trans (touches_setEntry _ pid new none))

end

theorem touches_pipe (s : Threads) (pid readHandle writeHandle : UInt32) (budget : Bool) :
    Touches s (s.pipe pid readHandle writeHandle budget) pid := by
  unfold pipe
  rcases s.freeFd pid with _ | fd
  · exact .refl s pid
  dsimp only
  split_ifs
  · exact .refl s pid
  · cases (s.setEntry pid fd (some ⟨.pipeRead readHandle, 0⟩)).freeFd pid with
    | none => exact .refl s pid
    | some fd' => exact (touches_setEntry s pid fd _).trans (touches_setEntry _ pid fd' _)

theorem touches_random (s : Threads) (pid random : UInt32) : Touches s { s with random } pid :=
  ⟨rfl, rfl, rfl, fun _ _ => rfl, fun _ t ht => ⟨t, ht⟩, id, fun _ _ _ _ => rfl⟩

section

variable (s pid fd)

theorem touches_readPayload (e : Entry) (count : Nat) (payload : Option (List UInt8)) :
    Touches s (s.readPayload pid fd e count payload).2 pid := by
  cases payload with
  | none => exact .refl s pid
  | some payload => exact touches_setEntry s pid fd _

theorem touches_readDevice (e : Entry) (d : Device) (count : Nat) (a : Answers) :
    Touches s (s.readDevice pid fd e d count a).2 pid := by
  cases d with
  | urandom =>
    exact touches_random s pid _
  | nvmeFile | procMaps | procExe | procStatus | procCmdline | procEnviron | procFdLink | procMeminfo =>
    exact touches_readPayload s pid fd e count _
  | _ => exact .refl s pid

theorem touches_call (a : Answers) (c : Call) :
    Touches s (s.call pid fd a c).2 pid := by
  cases c with
  | read count writable =>
    unfold call sysRead readEntry
    dsimp only
    repeat' split
    all_goals first
      | exact .refl s pid
      | exact touches_setEntry s pid fd _
      | exact touches_readDevice s pid fd _ _ _ a
  | getdents64 byteCount writable =>
    unfold call sysGetdents64
    dsimp only
    repeat' split
    all_goals first
      | exact .refl s pid
      | exact touches_setFdDirCursor s pid fd _
  | fstat writable => exact .refl s pid
  | lseek offset whence =>
    unfold call sysLseek
    dsimp only
    repeat' split
    all_goals first
      | exact .refl s pid
      | exact touches_setEntry s pid fd _

end

/-! ## The rule -/

/-- No other thread has the table. -/
def Alone (s : Threads) (pid : UInt32) : Prop := ∀ q k, s.attached pid = some k → s.attached q = some k → q = pid

/-- No other thread of the table has a path record of the descriptor. -/
def Owned (s : Threads) (pid : UInt32) (fd : Fin fdLimit) : Prop :=
  ∀ q k, q ≠ pid → s.attached pid = some k → s.attached q = some k → s.fdPath q fd = none

/-- Files of the RAM filesystem that an open may come to. -/
def Opened.IsFile (o : Opened) : Prop := (∃ handle, o.object = .node handle) ∧ Plain o.path

/-- The rule for threads that share a table. -/
def Careful (s : Threads) : Op → Prop
  | .call .. | .dup .. | .pipe .. | .launch .. => True
  | .openPath pid o _ => o.IsFile ∨ s.Alone pid
  | .close pid fd => s.Owned pid fd
  | .dup2 pid _ new budget => s.Owned pid new ∧ (budget = true ∨ s.fdPath pid new = none ∨ s.Alone pid)
  | .clone parent child => (∀ fd, s.fdPath child fd = none) ∧ ∀ k, s.attached parent = some k → s.Regular k
  | .exit pid _ => s.clones pid = true ∨ s.Alone pid

/-- Path records are found by pid and descriptor; the table of a process is there; threads of one table have one
    principal, and the table is regular. -/
structure Sound (s : Threads) : Prop where
  distinct : Distinct key s.paths
  live : ∀ p k, s.attached p = some k → ∃ t, s.tables k = some t
  principals : ∀ p q k, s.attached p = some k → s.attached q = some k → s.principal q = s.principal p
  regular : ∀ p q k, p ≠ q → s.attached p = some k → s.attached q = some k → s.Regular k

/-- A regular table that a call of another process leaves alone stays regular. -/
theorem Regular.of_touches (h : Regular s k) (hd : Distinct key s.paths) (ht : Touches s s' pid)
    (hk : s.attached pid ≠ some k) : Regular s' k := by
  refine ⟨fun t fd e hs => h.noDevice t fd e (ht.tables k hk ▸ hs), fun p fd r hp hr => ?_⟩
  rw [ht.attached] at hp
  have hne : p ≠ pid := fun heq => hk (heq ▸ hp)
  rw [ht.paths hd p fd hne] at hr
  rw [ht.tables k hk]
  exact h.recorded p fd r hp hr

/-- A call of a process is sound if it leaves its own table regular where others have it too. -/
theorem Sound.of_touches (h : Sound s) (ht : Touches s s' pid)
    (hown : ∀ k t, s.attached pid = some k → s.tables k = some t → s.Regular k → ¬ s.Alone pid → s'.Regular k) : Sound s' where
  distinct := ht.distinct h.distinct
  live p k hp := by
    rw [ht.attached] at hp
    obtain ⟨t, hs⟩ := h.live p k hp
    exact ht.live k t hs
  principals p q k hp hq := by
    rw [ht.attached] at hp hq
    rw [ht.principal]
    exact h.principals p q k hp hq
  regular p q k hne hp hq := by
    rw [ht.attached] at hp hq
    have hregular := h.regular p q k hne hp hq
    by_cases hk : s.attached pid = some k
    · obtain ⟨t, hs⟩ := h.live p k hp
      refine hown k t hk hs hregular fun halone => ?_
      exact hne ((halone p k hk hp).trans (halone q k hk hq).symm)
    · exact hregular.of_touches h.distinct ht hk

/-- A free descriptor of a regular table has no path record. -/
theorem Regular.fdPath_free (h : Regular s k) (ht : s.tables k = some t) (hfree : t.entries fd = none) :
    ∀ p, s.attached p = some k → s.fdPath p fd = none := by
  intro p hp
  rw [eq_none_iff_forall_ne_some]
  intro r hr
  obtain ⟨-, e, handle, he, -⟩ := h.node ht hp hr
  simp [hfree] at he

theorem freeFd_some (hk : s.attached pid = some k) (ht : s.tables k = some t) (h : s.freeFd pid = some fd) :
    t.entries fd = none := by
  rw [freeFd, table_of_attached hk ht, bind_some] at h
  simpa using Slots.first_some h

section

variable (s pid)

theorem paths_setEntry (fd : Fin fdLimit) (e : Option Entry) :
    (s.setEntry pid fd e).paths = s.paths := by
  unfold setEntry
  cases s.attached pid <;> rfl

theorem fdPath_setEntry (q : UInt32) (fd g : Fin fdLimit) (e : Option Entry) :
    (s.setEntry pid fd e).fdPath q g = s.fdPath q g := by rw [fdPath, paths_setEntry, fdPath]

theorem recordFdPath_tables (fd : Fin fdLimit) (path : List UInt8) :
    (s.recordFdPath pid fd path).2.tables = s.tables := by
  rcases s.recordFdPath_cases pid fd path with heq | ⟨paths, heq, -⟩ <;> rw [heq]

theorem setEntry_attached (fd : Fin fdLimit) (e : Option Entry) :
    (s.setEntry pid fd e).attached = s.attached := (touches_setEntry s pid fd e).attached

end

/-! ## One call -/

/-- A descriptor that was free is taken. -/
theorem Regular.setFree (h : Regular s k) (hk : s.attached pid = some k) (ht : s.tables k = some t)
    (hfree : t.entries fd = none) (he : ∀ d, e.object ≠ .device d) : Regular (s.setEntry pid fd (some e)) k := by
  refine h.update_unrecorded ht (setEntry_tables hk ht fd _) (setEntry_attached s pid fd _) ?_
    (fun q g _ => fdPath_setEntry s pid q fd g _) fun q hq => ?_
  · intro x hx
    exact some.inj hx ▸ he
  · rw [fdPath_setEntry, h.fdPath_free ht hfree q hq]

/-- A file gets a path record. -/
theorem Regular.record {handle : UInt32} (h : Regular s k) (hd : Distinct PathRecord.key s.paths)
    (ht : s.tables k = some t) (he : t.entries fd = some e) (hnode : e.object = .node handle) (hplain : Plain path) :
    Regular (s.recordFdPath pid fd path).2 k := by
  rcases s.recordFdPath_cases pid fd path with heq | ⟨paths, heq, hpaths⟩ <;> rw [heq]
  · exact h
  refine ⟨h.noDevice, fun q g r hq hr => ?_⟩
  rw [fdPath, (hpaths hd).2] at hr
  split_ifs at hr with hnew
  · obtain ⟨-, rfl⟩ := Prod.mk.inj hnew
    obtain rfl := some.inj hr
    exact ⟨hplain, t, e, handle, ht, he, hnode⟩
  · exact h.recorded q g r hq hr

theorem Sound.openPath (h : Sound s) (hrule : o.IsFile ∨ s.Alone pid) (budget : Bool) :
    Sound (s.openPath pid o budget).2 := by
  refine h.of_touches (touches_openPath s pid o budget) fun k t hk ht hregular halone => ?_
  obtain ⟨⟨handle, hnode⟩, hplain⟩ := hrule.resolve_right halone
  unfold Threads.openPath
  rcases hfree : s.freeFd pid with _ | fd
  · exact hregular
  split_ifs
  · have hentry : Regular (s.setEntry pid fd (some ⟨o.object, 0⟩)) k :=
      hregular.setFree hk ht (freeFd_some hk ht hfree) (by simp [hnode])
    exact hentry.record (paths_setEntry s pid fd _ ▸ h.distinct) (setEntry_tables hk ht fd _) (set_self ..) hnode hplain
  · exact hregular

theorem Sound.close (h : Sound s) (hrule : s.Owned pid fd) : Sound (s.close pid fd) := by
  refine h.of_touches (touches_close s pid fd) fun k t hk ht hregular _ => ?_
  unfold Threads.close
  split_ifs
  · exact hregular
  have hd : Distinct key (s.setEntry pid fd none).paths := paths_setEntry s pid fd none ▸ h.distinct
  refine hregular.update_unrecorded ht (setEntry_tables hk ht fd none) (setEntry_attached s pid fd none) (by simp)
    (fun q g hg => ?_) fun q hq => ?_
  · rw [fdPath_forgetFdPath hd, if_neg (fun heq => hg (Prod.mk.inj heq).2), fdPath_setEntry]
  -- the record of the caller is forgotten, and nobody else has one
  rw [fdPath_forgetFdPath hd, fdPath_setEntry]
  split_ifs with heq
  · rfl
  · exact hrule q k (fun hp => heq (by rw [hp])) hk hq

/-- The new descriptor is a copy of the old one, with its path record. -/
theorem Regular.dupInto (h : Regular s k) (hd : Distinct key s.paths) (hk : s.attached pid = some k)
    (ht : s.tables k = some t) (hother : ∀ q, q ≠ pid → s.attached q = some k → s.fdPath q new = none)
    (hown : budget ∨ s.fdPath pid new = none) : Regular (s.dupInto pid old new budget) k := by
  unfold Threads.dupInto
  rcases he : s.entry pid old with _ | e
  · exact h
  rw [entry, table_of_attached hk ht, bind_some] at he
  dsimp only
  split_ifs with hsame hbudget
  · exact h
  · refine h.update_unrecorded ht (setEntry_tables hk ht new none) (setEntry_attached s pid new none) (by simp)
      (fun q g _ => fdPath_setEntry s pid q new g none) fun q hq => ?_
    rw [fdPath_setEntry]
    by_cases hp : q = pid
    · subst hp
      exact hown.resolve_left (by simp [hbudget])
    · exact hother q hp hq
  · have hd' : Distinct key (s.setEntry pid new (some e)).paths := paths_setEntry s pid new _ ▸ hd
    unfold dupFdPath
    rw [if_neg hsame, fdPath_setEntry]
    -- after the old record is forgotten, nobody has a record of the new descriptor
    have hforget : ∀ q g, ((s.setEntry pid new (some e)).forgetFdPath pid new).fdPath q g =
        if (q, g) = (pid, new) then none else s.fdPath q g := by
      intro q g
      rw [fdPath_forgetFdPath hd', fdPath_setEntry]
    have hd1 : Distinct PathRecord.key ((s.setEntry pid new (some e)).forgetFdPath pid new).paths := hd'.erase
    have ht1 : ((s.setEntry pid new (some e)).forgetFdPath pid new).tables k = some (t.set new (some e)) :=
      setEntry_tables hk ht new _
    have hattached : ((s.setEntry pid new (some e)).forgetFdPath pid new).attached = s.attached := setEntry_attached s pid new _
    generalize (s.setEntry pid new (some e)).forgetFdPath pid new = s1 at hforget hd1 ht1 hattached ⊢
    have hempty : ∀ q, s.attached q = some k → s1.fdPath q new = none := by
      intro q hq
      rw [hforget]
      split_ifs with heq
      · rfl
      · exact hother q (fun hp => heq (by rw [hp])) hq
    have hkeep : ∀ q g, g ≠ new → s1.fdPath q g = s.fdPath q g := by
      intro q g hg
      rw [hforget, if_neg fun heq => hg (Prod.mk.inj heq).2]
    have hdevice : ∀ x, some e = some x → ∀ d, x.object ≠ .device d := by
      intro x hx
      exact some.inj hx ▸ h.noDevice t old e ht he
    have hregular : Regular s1 k := h.update_unrecorded ht ht1 hattached hdevice hkeep hempty
    rcases hsource : s.fdPath pid old with _ | r0
    · exact hregular
    obtain ⟨hplain, x, handle, hx, hnode⟩ := h.node ht hk hsource
    obtain rfl : e = x := mem_unique he hx
    have hrecord : Regular (s1.recordFdPath pid new r0.path).2 k := hregular.record hd1 ht1 (set_self ..) hnode hplain
    dsimp only
    rcases s1.recordFdPath_cases pid new r0.path with heq | ⟨paths, heq, -⟩ <;> rw [heq] at hrecord ⊢
    · -- no record is left: the new descriptor is closed again
      have hk1 : (s1.forgetFdPath pid new).attached pid = some k := by
        rw [← hk]
        exact congrFun hattached pid
      refine hregular.update_unrecorded ht1 (setEntry_tables hk1 ht1 new none) (setEntry_attached _ pid new none) (by simp)
        (fun q g hg => ?_) fun q hq => ?_
      · rw [fdPath_setEntry, fdPath_forgetFdPath hd1, if_neg (fun heq => hg (Prod.mk.inj heq).2)]
      · rw [fdPath_setEntry, fdPath_forgetFdPath hd1, hempty q (hattached ▸ hq), ite_self]
    · exact hrecord

theorem Sound.dup (h : Sound s) (old : Fin fdLimit) (budget : Bool) : Sound (s.dup pid old budget) := by
  unfold Threads.dup
  rcases hfree : s.freeFd pid with _ | new
  · exact h
  refine h.of_touches (touches_dupInto s pid old new budget) fun k t hk ht hregular _ => ?_
  have hnone := hregular.fdPath_free ht (freeFd_some hk ht hfree)
  exact hregular.dupInto h.distinct hk ht (fun q _ hq => hnone q hq) (.inr (hnone pid hk))

theorem Sound.dup2 (h : Sound s) (howned : s.Owned pid new) (hrule : budget ∨ s.fdPath pid new = none ∨ s.Alone pid) :
    Sound (s.dupInto pid old new budget) := by
  refine h.of_touches (touches_dupInto s pid old new budget) fun k t hk ht hregular halone => ?_
  refine hregular.dupInto h.distinct hk ht (fun q hne hq => howned q k hne hk hq) ?_
  exact hrule.imp_right fun hr => hr.resolve_right halone

theorem Sound.pipe (h : Sound s) (readHandle writeHandle : UInt32) (budget : Bool) :
    Sound (s.pipe pid readHandle writeHandle budget) := by
  refine h.of_touches (touches_pipe s pid readHandle writeHandle budget) fun k t hk ht hregular _ => ?_
  unfold Threads.pipe
  rcases hfree : s.freeFd pid with _ | fd
  · exact hregular
  dsimp only
  split_ifs
  · exact hregular
  have hfirst : Regular (s.setEntry pid fd (some ⟨.pipeRead readHandle, 0⟩)) k :=
    hregular.setFree hk ht (freeFd_some hk ht hfree) (by simp)
  have hk' : (s.setEntry pid fd (some ⟨.pipeRead readHandle, 0⟩)).attached pid = some k := by
    rw [setEntry_attached, hk]
  have ht' := setEntry_tables hk ht fd (some ⟨.pipeRead readHandle, 0⟩)
  cases hfree' : (s.setEntry pid fd (some ⟨.pipeRead readHandle, 0⟩)).freeFd pid with
  | none => exact hregular
  | some fd' => exact hfirst.setFree hk' ht' (freeFd_some hk' ht' hfree') (by simp)

theorem Sound.call (h : Sound s) (fd : Fin fdLimit) (a : Answers) (c : Call) : Sound (s.call pid fd a c).2 := by
  refine h.of_touches (touches_call s pid fd a c) fun k t hk ht hregular _ => ?_
  -- the call is alike itself
  have halike : Alike s s k := ⟨rfl, rfl, rfl, hregular, hregular⟩
  exact (halike.call hk hk ht rfl rfl c).2.left

/-- The processes that have a table now: one alone, or such as come from those that had it. -/
theorem Sound.of_before (h : Sound s) (hd : Distinct key s'.paths)
    (hbefore : ∀ p k, s'.attached p = some k →
      (∀ q, s'.attached q = some k → q = p) ∧ (∃ t, s'.tables k = some t) ∨
        s'.tables k = s.tables k ∧ ∃ p', s.attached p' = some k ∧ s'.principal p = s.principal p')
    (hregular : ∀ p q k, p ≠ q → s'.attached p = some k → s'.attached q = some k → s.Regular k ∧
      ∀ p' fd r, s'.attached p' = some k → s'.fdPath p' fd = some r → s.attached p' = some k ∧ s.fdPath p' fd = some r) :
    Sound s' where
  distinct := hd
  live p k hp := by
    rcases hbefore p k hp with ⟨-, ht⟩ | ⟨heq, p', hp', -⟩
    · exact ht
    · rw [heq]
      exact h.live p' k hp'
  principals p q k hp hq := by
    rcases hbefore p k hp with ⟨halone, -⟩ | ⟨-, p', hp', hpp⟩
    · rw [halone q hq]
    rcases hbefore q k hq with ⟨halone, -⟩ | ⟨-, q', hq', hqq⟩
    · rw [halone p hp]
    · rw [hpp, hqq]
      exact h.principals p' q' k hp' hq'
  regular p q k hne hp hq := by
    rcases hbefore p k hp with ⟨halone, -⟩ | ⟨heq, -⟩
    · exact absurd (halone q hq).symm hne
    obtain ⟨hk, hpaths⟩ := hregular p q k hne hp hq
    refine ⟨fun t fd e ht => hk.noDevice t fd e (heq ▸ ht), fun p' fd r hp' hr => ?_⟩
    obtain ⟨hp', hr⟩ := hpaths p' fd r hp' hr
    rw [heq]
    exact hk.recorded p' fd r hp' hr

theorem attached_update {new : Option (Fin maxTables)} (h : update s.attached pid new p = some k) :
    p = pid ∧ new = some k ∨ p ≠ pid ∧ s.attached p = some k := by
  rw [update_apply] at h
  split_ifs at h with hp
  · exact .inl ⟨hp, h⟩
  · exact .inr ⟨hp, h⟩

theorem Sound.launch (h : Sound s) (pid principal : UInt32) (entries : Fin fdLimit → Option Entry) :
    Sound (s.launch pid principal entries) := by
  unfold Threads.launch
  split_ifs with hrefused
  · exact h
  rcases hfree : free s.tables with _ | k0
  · exact h
  have hempty : s.tables k0 = none := free_some hfree
  have hold : ∀ p k, update s.attached pid (some k0) p = some k →
      p = pid ∧ k = k0 ∨ p ≠ pid ∧ k ≠ k0 ∧ s.attached p = some k := by
    intro p k hp
    rcases attached_update hp with ⟨heq, hk⟩ | ⟨hne, hbefore⟩
    · exact .inl ⟨heq, (some.inj hk).symm⟩
    · refine .inr ⟨hne, ?_, hbefore⟩
      rintro rfl
      obtain ⟨t, ht⟩ := h.live p k hbefore
      simp [hempty] at ht
  -- nobody else has the new table
  have hsame : ∀ p q k, update s.attached pid (some k0) p = some k →
      update s.attached pid (some k0) q = some k → k = k0 → q = p := by
    intro p q k hp hq hk
    rcases hold p k hp with ⟨rfl, -⟩ | ⟨-, hne, -⟩
    · rcases hold q k hq with ⟨rfl, -⟩ | ⟨-, hne, -⟩
      · rfl
      · exact absurd hk hne
    · exact absurd hk hne
  refine h.of_before h.distinct (fun p k hp => ?_) fun p q k hne hp hq => ?_
  · rcases hold p k hp with ⟨-, rfl⟩ | ⟨hpn, hk, hp'⟩
    · exact .inl ⟨fun q hq => hsame p q _ hp hq rfl, _, update_self ..⟩
    · exact .inr ⟨update_of_ne hk _ _, p, hp', update_of_ne hpn _ _⟩
  have hk : k ≠ k0 := fun hk => hne (hsame p q k hp hq hk).symm
  have hwas : ∀ p, update s.attached pid (some k0) p = some k → s.attached p = some k := by
    intro p hp
    rcases hold p k hp with ⟨-, rfl⟩ | ⟨-, -, hp⟩
    · exact absurd rfl hk
    · exact hp
  exact ⟨h.regular p q k hne (hwas p hp) (hwas q hq), fun p' fd r hp' hr => ⟨hwas p' hp', hr⟩⟩

theorem Sound.clone (h : Sound s) {parent child : UInt32} (hrecords : ∀ fd, s.fdPath child fd = none)
    (hregular : ∀ k, s.attached parent = some k → s.Regular k) : Sound (s.clone parent child) := by
  unfold Threads.clone
  split_ifs with hrefused
  · exact h
  refine h.of_before h.distinct (fun p k hp => .inr ⟨rfl, ?_⟩) fun p q k hne hp hq => ⟨?_, fun p' fd r hp' hr => ?_⟩
  · -- the parent had the table before, or the thread itself
    rcases attached_update hp with ⟨rfl, hparent⟩ | ⟨hne, hbefore⟩
    · exact ⟨parent, hparent, update_self ..⟩
    · exact ⟨p, hbefore, update_of_ne hne _ _⟩
  · rcases attached_update hp with ⟨-, hp⟩ | ⟨-, hp⟩
    · exact hregular k hp
    · rcases attached_update hq with ⟨-, hq⟩ | ⟨-, hq⟩
      · exact hregular k hq
      · exact h.regular p q k hne hp hq
  · rcases attached_update hp' with ⟨rfl, -⟩ | ⟨-, hp'⟩
    · exact absurd ((hrecords fd).symm.trans hr) (by simp)
    · exact ⟨hp', hr⟩

theorem Sound.exit (h : Sound s) (forked : Bool) (hrule : s.clones pid ∨ s.Alone pid) : Sound (s.exit pid forked) := by
  unfold Threads.exit
  rcases hk0 : s.attached pid with _ | k0
  · exact h
  dsimp only
  have hold : ∀ p k, update s.attached pid none p = some k → p ≠ pid ∧ s.attached p = some k := by
    intro p k hp
    exact (attached_update hp).resolve_left (by simp)
  have hpaths : ∀ i r, (if forked then fun i => (s.paths i).filter fun r => r.pid ≠ pid else s.paths) i = some r →
      s.paths i = some r := by
    intro i r hr
    split_ifs at hr
    · exact (filter_eq_some_iff.1 hr).1
    · exact hr
  have hdistinct : Distinct key (if forked then fun i => (s.paths i).filter fun r => r.pid ≠ pid else s.paths) :=
    fun i j r r' hr hr' => h.distinct i j r r' (hpaths i r hr) (hpaths j r' hr')
  refine h.of_before hdistinct (fun p k hp => .inr ⟨?_, p, (hold p k hp).2, rfl⟩) fun p q k hne hp hq =>
    ⟨h.regular p q k hne (hold p k hp).2 (hold q k hq).2, fun p' fd r hp' hr => ⟨(hold p' k hp').2, ?_⟩⟩
  · show (if s.clones pid then s.tables else update s.tables k0 none) k = s.tables k
    obtain ⟨hne, hbefore⟩ := hold p k hp
    split_ifs with hclone
    · rfl
    · refine update_of_ne ?_ _ _
      rintro rfl
      exact hne ((hrule.resolve_left hclone) p k hk0 hbefore)
  · obtain ⟨i, hi, hkey⟩ := (get_eq_some hdistinct).1 hr
    exact (get_eq_some h.distinct).2 ⟨i, hpaths i r hi, hkey⟩

theorem Sound.step (h : Sound s) {op : Op} (hrule : Careful s op) : Sound (s.step op) := by
  cases op with
  | call pid fd a c => exact h.call fd a c
  | openPath pid o budget => exact h.openPath hrule budget
  | close pid fd => exact h.close hrule
  | dup pid old budget => exact h.dup old budget
  | dup2 pid old new budget => exact h.dup2 hrule.1 hrule.2
  | pipe pid readHandle writeHandle budget => exact h.pipe readHandle writeHandle budget
  | launch pid principal entries => exact h.launch pid principal entries
  | clone parent child => exact h.clone hrule.1 hrule.2
  | exit pid forked => exact h.exit forked hrule

theorem sound_boot : Sound boot where
  distinct i j r r' hr := by cases hr
  live p k hp := by cases hp
  principals p q k hp := by cases hp
  regular p q k _ hp := by cases hp

theorem Meets.sound {ops : List Op} (h : Meets step Careful boot ops) : Sound (boot.run ops) :=
  h.invariant (fun _ _ hs hc => hs.step hc) sound_boot

/-! ## Whole runs -/

/-- The calls of two rows of threads, in states that are alike. -/
theorem Alike.results (h : Alike s s' k) (hlive : ∃ t, s.tables k = some t)
    (hprincipals : ∀ p q, s.attached p = some k → s.attached q = some k → s.principal q = s.principal p) {rs : List Request}
    (hrs : ∀ r ∈ rs, r.Among s k) : results Request.right s' rs = results Request.left s rs := by
  induction rs generalizing s s' with
  | nil => rfl
  | cons r rs ih =>
    obtain ⟨t, ht⟩ := hlive
    obtain ⟨hleft, hright, hpending⟩ := hrs r List.mem_cons_self
    obtain ⟨hsame, halike⟩ := h.call hleft hright ht (hprincipals _ _ hleft hright) hpending.symm r.call
    have htouch := touches_call s r.left r.fd r.answers r.call
    rw [Threads.results, Threads.results, hsame]
    congr 1
    refine ih halike (htouch.live k t ht) ?_ fun x hx => ?_
    · rwa [htouch.attached, htouch.principal]
    · obtain ⟨hl, hr, hp⟩ := hrs x (List.mem_cons_of_mem _ hx)
      exact ⟨htouch.attached ▸ hl, htouch.attached ▸ hr, hp⟩

/-- Who opens a file makes a difference for the path records only. -/
theorem Sound.alike_openPath (h : Sound s) (hne : p ≠ q) (hp : s.attached p = some k) (hq : s.attached q = some k)
    (ho : o.IsFile) (budget : Bool) :
    (s.openPath q o budget).1 = (s.openPath p o budget).1 ∧ Alike (s.openPath p o budget).2 (s.openPath q o budget).2 k := by
  have htp := touches_openPath s p o budget
  have htq := touches_openPath s q o budget
  have hregular : ∀ x y, x ≠ y → s.attached x = some k → s.attached y = some k → Regular (s.openPath x o budget).2 k := by
    intro x y hxy hx hy
    have ht := (touches_openPath s x o budget).attached
    exact (h.openPath (.inl ho) budget).regular x y k hxy (ht ▸ hx) (ht ▸ hy)
  have htable : s.table q = s.table p := by rw [table, table, hp, hq]
  have hfree : s.freeFd q = s.freeFd p := by rw [freeFd, freeFd, htable]
  have hsame : (s.openPath q o budget).1 = (s.openPath p o budget).1 ∧
      (s.openPath q o budget).2.tables = (s.openPath p o budget).2.tables := by
    unfold Threads.openPath
    rw [hfree]
    rcases s.freeFd p with _ | fd
    · exact ⟨rfl, rfl⟩
    dsimp only
    split_ifs
    · refine ⟨rfl, ?_⟩
      rw [recordFdPath_tables, recordFdPath_tables, setEntry_of_attached hp, setEntry_of_attached hq]
    · exact ⟨rfl, rfl⟩
  exact ⟨hsame.1, hsame.2, htq.attached.trans htp.attached.symm, htq.principal.trans htp.principal.symm,
    hregular p q hne hp hq, hregular q p hne.symm hq hp⟩

/-- In every run that follows the rule: two threads of one table get the same result from each of the four calls, and
    it makes no difference for any calls that follow which of them opens a file. -/
theorem sharing_of_careful (ops : List Op) (h : Meets step Careful boot ops) (p q : UInt32) (hne : p ≠ q)
    (k : Fin maxTables) (hp : (boot.run ops).attached p = some k) (hq : (boot.run ops).attached q = some k) :
    (∀ fd a c, a.pending p = a.pending q →
      ((boot.run ops).call p fd a c).1 = ((boot.run ops).call q fd a c).1) ∧
    ∀ o : Opened, o.IsFile → ∀ budget,
      ((boot.run ops).openPath p o budget).1 = ((boot.run ops).openPath q o budget).1 ∧
      ∀ rs : List Request, (∀ r ∈ rs, r.Among (boot.run ops) k) →
        results Request.left ((boot.run ops).openPath p o budget).2 rs =
          results Request.right ((boot.run ops).openPath q o budget).2 rs := by
  have hsound := Meets.sound h
  generalize boot.run ops = s at hp hq hsound ⊢
  obtain ⟨t, ht⟩ := hsound.live p k hp
  constructor
  · intro fd a c hpending
    have hregular := hsound.regular p q k hne hp hq
    have halike : Alike s s k := ⟨rfl, rfl, rfl, hregular, hregular⟩
    exact (halike.call hp hq ht (hsound.principals p q k hp hq) hpending.symm c).1.symm
  intro o ho budget
  obtain ⟨hfd, halike⟩ := hsound.alike_openPath hne hp hq ho budget
  have htouch := touches_openPath s p o budget
  refine ⟨hfd.symm, fun rs hrs => (halike.results (htouch.live k t ht) ?_ fun r hr => ?_).symm⟩
  · rw [htouch.attached, htouch.principal]
    exact fun x y hx hy => hsound.principals x y k hx hy
  · obtain ⟨hleft, hright, hpending⟩ := hrs r hr
    exact ⟨htouch.attached ▸ hleft, htouch.attached ▸ hright, hpending⟩

/-- Nothing is there. -/
def Answers.none : Answers :=
  { file := fun _ _ _ _ => some [], fileStat := fun _ _ => Option.none, pipe := fun _ _ _ => .blocked
    terminal := fun _ _ _ _ => some [], pending := fun _ => false, nvme := fun _ _ => Option.none
    proc := fun _ _ => Option.none, lstat := fun _ _ => Option.none, directory := fun _ _ => true
    dirent := fun _ _ _ => .eof }

/-- A file in the root directory. -/
def rootFile : Opened := ⟨.node 7, ascii "/a"⟩

/-- A process with a thread opens a file. -/
def openedFile : List Op := [.launch 1 101 (fun _ => Option.none), .clone 1 2, .openPath 1 rootFile true]

theorem sharing_file :
    Meets step Careful boot openedFile ∧ (boot.run openedFile).attached 1 = some 0 ∧
      ((boot.run openedFile).call 1 0 .none (.read 4 true)).1 = ((boot.run openedFile).call 2 0 .none (.read 4 true)).1 := by
  have hmount : findMount (ascii "/a") = some ⟨ascii "/", .ramfs⟩ ∧ ascii "/" ≠ ascii "/a" := by decide +kernel
  have hfile : rootFile.IsFile := by
    refine ⟨⟨7, rfl⟩, fun m hm => ?_⟩
    obtain rfl := mem_unique hmount.1 hm
    exact ⟨rfl, hmount.2⟩
  have hlaunch : (boot.launch 1 101 fun _ => none).paths = boot.paths ∧
      ∀ k t fd, (boot.launch 1 101 fun _ => none).tables k = some t → t.entries fd = none := by
    unfold launch
    rw [if_neg (by decide)]
    rcases free boot.tables with _ | i
    · exact ⟨rfl, fun k t fd ht => by cases ht⟩
    refine ⟨rfl, fun k t fd ht => ?_⟩
    rcases of_put ht with ⟨-, rfl⟩ | ht
    · rfl
    · cases ht
  have hnone : ∀ q fd, (boot.launch 1 101 fun _ => none).fdPath q fd = none := by
    intro q fd
    rw [fdPath, hlaunch.1, get_eq_none]
    intro i r hr
    cases hr
  have hmeets : Meets step Careful boot openedFile := by
    refine ⟨trivial, ⟨hnone 2, fun k _ => ⟨fun t fd e ht he => ?_, fun q fd r _ hr => ?_⟩⟩, .inl hfile, trivial⟩
    · simp [hlaunch.2 k t fd ht] at he
    · exact absurd ((hnone q fd).symm.trans hr) (by simp)
  have hattached : (boot.run openedFile).attached 1 = some 0 ∧ (boot.run openedFile).attached 2 = some 0 := by decide +kernel
  have hshared := sharing_of_careful openedFile hmeets 1 2 (by decide) 0 hattached.1 hattached.2
  exact ⟨hmeets, hattached.1, hshared.1 0 .none (.read 4 true) rfl⟩

/-- A process opens /dev and has a thread. -/
def openedDirectory : List Op :=
  [.launch 1 101 (fun _ => Option.none), .clone 1 2, .openPath 1 ⟨.device .directory, ascii "/dev"⟩ true]

/-- Only the thread that opened /dev can list it. -/
theorem directory_of_opener :
    (boot.run openedDirectory).attached 1 = some 0 ∧ (boot.run openedDirectory).attached 2 = some 0 ∧
      ((boot.run openedDirectory).call 1 0 .none (.getdents64 32 true)).1 =
        .bytes ([1, 0x20, 0, 0, 0, 0, 0, 0, 1, 0, 0, 0, 0, 0, 0, 0, 24, 0, 2] ++ ascii "null" ++ [0]) ∧
      ((boot.run openedDirectory).call 2 0 .none (.getdents64 32 true)).1 = .error .enotdir := by
  decide +kernel

end LimitlessOS.Threads
