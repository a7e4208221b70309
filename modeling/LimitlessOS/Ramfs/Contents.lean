/-
  LimitlessOS.Ramfs.Contents — what a file holds and what a listing shows.

  `ramfs_write` and `ramfs_read` are calls on one array of bytes (`BehavesAsArray`), and
  `ramfs_list` writes one line for each child of a directory (`ListsWhole`), each up to a
  case of its own: a write that stores nothing behind the end of the file, and a directory
  whose line is one byte longer than what is left of the buffer.

  Proved:
  - `fileCalls_iff`: all along a sequence of reads and writes the file is an array iff no
    write of the sequence stores nothing behind the end.
  - `list_iff`: a listing has whole lines only iff no directory's line is torn.
-/
import LimitlessOS.Lib.Run
import LimitlessOS.Ramfs.Nodes

namespace LimitlessOS.Ramfs

open Lib List Nat

/-! ## Files -/

/-- A call on a file. -/
inductive FileCall where
  | write (offset : UInt32) (source : List UInt8)
  | read (offset capacity : UInt32)

def fileStep (id : UInt32) (fs : Ramfs) : FileCall → Ramfs
  | .write offset source => (fs.write id offset.toNat source).2
  | .read .. => fs

/-- The bytes of the file with the number. -/
def bytesOf (fs : Ramfs) (id : UInt32) : List UInt8 := ((fs.findNode id).map fun i => (fs.nodes i).contents.bytes).getD []

/-- `new` is the array `old` with the first `stored` bytes of `source` at the offset. -/
structure Stores (old new source : List UInt8) (offset stored : Nat) : Prop where
  within : offset + stored ≤ fileCapacity
  written : ∀ j < stored, new[offset + j]? = source[j]?
  gap : ∀ j, old.length ≤ j → j < offset → j < new.length → new[j]? = some 0
  outside : ∀ j < old.length, j < offset ∨ offset + stored ≤ j → new[j]? = old[j]?
  length : stored ≠ 0 → new.length = max old.length (offset + stored)
  silent : stored = 0 → new.length = old.length

/-- The call treats the file as an array of at most 256 bytes. -/
def BehavesAsArray (id : UInt32) (fs : Ramfs) : FileCall → Prop
  | .write offset source =>
    let new := (fs.write id offset.toNat source).2.bytesOf id
    new.length ≤ fileCapacity ∧
      match (fs.write id offset.toNat source).1 with
      | none => fileCapacity < offset.toNat ∧ new = fs.bytesOf id
      | some stored => Stores (fs.bytesOf id) new source offset.toNat stored
  | .read offset capacity =>
    fs.read id offset.toNat capacity.toNat = if (fs.bytesOf id).length < offset.toNat then none
      else some (((fs.bytesOf id).drop offset.toNat).take capacity.toNat)

/-- No write stores nothing behind the end of the file. -/
def Reaches (id : UInt32) (fs : Ramfs) : FileCall → Prop
  | .write offset source =>
    (fs.bytesOf id).length < offset.toNat → offset.toNat ≤ fileCapacity → source ≠ [] ∧ offset.toNat < fileCapacity
  | .read .. => True

/-- The number is the one of a file. -/
def IsFile (id : UInt32) (fs : Ramfs) : Prop := ∃ i, fs.findNode id = some i ∧ (fs.nodes i).type = .file

variable {fs : Ramfs} {id : UInt32} {i : Fin nodeLimit} {offset capacity bytes : Nat} {written : List UInt8} {n : Node}

/-- The bytes of a file after a write: those in front of the offset, with zeros up to it, the new ones, and the rest. -/
def spliced (old source : List UInt8) (offset : Nat) : List UInt8 :=
  (old ++ List.replicate (offset - old.length) 0).take offset ++ source ++
    (old ++ List.replicate (offset - old.length) 0).drop (offset + source.length)

theorem findNode_set (hi : fs.findNode id = some i) (hid : n.id = (fs.nodes i).id) (hactive : n.active = (fs.nodes i).active) :
    (fs.set i n).findNode id = some i := by
  rw [← hi]
  unfold findNode Slots.first
  congr 1
  funext j
  by_cases hj : j = i
  · subst hj
    simp [set, hid, hactive]
  · simp [set, hj]

theorem bytesOf_eq (hi : fs.findNode id = some i) : fs.bytesOf id = (fs.nodes i).contents.bytes := by
  simp [bytesOf, hi]

theorem bytesOf_set (hi : fs.findNode id = some i) (hid : n.id = (fs.nodes i).id) (hactive : n.active = (fs.nodes i).active) :
    (fs.set i n).bytesOf id = n.contents.bytes := by
  rw [bytesOf_eq (findNode_set hi hid hactive)]
  simp [set]

/-- A write that is not refused replaces the bytes. -/
theorem write_file (h : IsFile id fs) (hoffset : offset ≤ fileCapacity) (source : List UInt8) :
    (fs.write id offset source).1 = some (source.take (fileCapacity - offset)).length ∧
      IsFile id (fs.write id offset source).2 ∧
      (fs.write id offset source).2.bytesOf id = spliced (fs.bytesOf id) (source.take (fileCapacity - offset)) offset := by
  obtain ⟨i, hi, hfile⟩ := h
  have hok : ¬ ((fs.nodes i).type ≠ .file ∨ fileCapacity < offset) := by simp [hfile, hoffset]
  unfold write
  simp only [hi]
  rw [dif_neg hok, bytesOf_eq hi]
  refine ⟨rfl, ⟨i, findNode_set hi rfl rfl, by simpa [set] using hfile⟩, ?_⟩
  exact bytesOf_set hi rfl rfl

theorem write_refused (h : IsFile id fs) (hoffset : fileCapacity < offset) (source : List UInt8) :
    fs.write id offset source = (none, fs) := by
  obtain ⟨i, hi, -⟩ := h
  simp [write, hi, hoffset]

theorem length_bytesOf (fs : Ramfs) (id : UInt32) : (fs.bytesOf id).length ≤ fileCapacity := by
  unfold bytesOf
  cases fs.findNode id with
  | none => exact zero_le _
  | some i => exact (fs.nodes i).contents.fits

theorem length_spliced (old source : List UInt8) (offset : Nat) :
    (spliced old source offset).length = max old.length (offset + source.length) := by
  simp only [spliced, length_append, length_take, length_drop, length_replicate]
  omega

theorem getElem?_spliced (old source : List UInt8) (offset j : Nat) :
    (spliced old source offset)[j]? =
      if j < offset then if j < old.length then old[j]? else some 0
      else if j < offset + source.length then source[j - offset]? else old[j]? := by
  simp only [spliced, getElem?_append, getElem?_take, getElem?_drop, length_append, length_take,
    length_replicate, getElem?_replicate]
  grind

/-- A write of a file stores what it says iff it stores something or lies within the file. -/
theorem stores_spliced {old source : List UInt8} (hoffset : offset ≤ fileCapacity) :
    Stores old (spliced old (source.take (fileCapacity - offset)) offset) source offset
        (source.take (fileCapacity - offset)).length ↔
      (old.length < offset → offset ≤ fileCapacity → source ≠ [] ∧ offset < fileCapacity) := by
  have hlen : (source.take (fileCapacity - offset)).length = min (fileCapacity - offset) source.length := length_take
  have hempty : source = [] ↔ source.length = 0 := length_eq_zero_iff.symm
  constructor
  · intro h hbehind _
    have hsilent := h.silent
    rw [length_spliced] at hsilent
    rw [ne_eq, hempty]
    omega
  · intro h
    rw [ne_eq, hempty] at h
    refine ⟨by omega, ?_, ?_, ?_, fun _ => length_spliced .., fun hzero => ?_⟩
    · intro j hj
      rw [getElem?_spliced, if_neg (by omega), if_pos (by omega), Nat.add_sub_cancel_left, getElem?_take, if_pos (by omega)]
    · intro j hold hj _
      rw [getElem?_spliced, if_pos hj, if_neg (by omega)]
    · intro j hj hout
      rw [getElem?_spliced]
      split_ifs
      · rfl
      · omega
      · rfl
    · rw [length_spliced]
      omega

theorem behavesAsArray_iff (h : IsFile id fs) (call : FileCall) : BehavesAsArray id fs call ↔ Reaches id fs call := by
  cases call with
  | read offset capacity =>
    obtain ⟨i, hi, hfile⟩ := h
    refine iff_of_true ?_ trivial
    simp only [BehavesAsArray, read, hi, hfile, bytesOf_eq hi, ne_eq, not_true_eq_false, false_or]
  | write offset source =>
    have hnew := ((fs.write id offset.toNat source).2.length_bytesOf id)
    simp only [BehavesAsArray, hnew, true_and, Reaches]
    by_cases hoffset : offset.toNat ≤ fileCapacity
    · obtain ⟨hanswer, -, hbytes⟩ := write_file h hoffset source
      rw [hanswer, hbytes]
      exact stores_spliced hoffset
    · rw [write_refused h (not_le.1 hoffset)]
      exact iff_of_true ⟨not_le.1 hoffset, rfl⟩ fun _ hle => absurd hle hoffset

theorem isFile_step (h : IsFile id fs) (call : FileCall) : IsFile id (fileStep id fs call) := by
  cases call with
  | read offset capacity => exact h
  | write offset source =>
    by_cases hoffset : offset.toNat ≤ fileCapacity
    · exact (write_file h hoffset source).2.1
    · simp only [fileStep, write_refused h (not_le.1 hoffset)]
      exact h

theorem fileCalls_iff (h : IsFile id fs) (calls : List FileCall) :
    Meets (fileStep id) (BehavesAsArray id) fs calls ↔ Meets (fileStep id) (Reaches id) fs calls :=
  Meets.congr (i := IsFile id) (fun _ call h _ => isFile_step h call) (fun _ call h => behavesAsArray_iff h call) h calls

theorem isFile_readme : IsFile 2 init := ⟨1, by decide +kernel, by decide +kernel⟩

theorem fileCalls_gap :
    let calls : List FileCall := [.write 250 (ascii "LimitlessOS"), .write 256 (ascii "x"), .read 240 64]
    IsFile 2 init ∧ (Meets (fileStep 2) (BehavesAsArray 2) init calls ↔ Meets (fileStep 2) (Reaches 2) init calls) := by
  exact ⟨isFile_readme, fileCalls_iff isFile_readme _⟩

/-- A write of no bytes behind the end makes the file longer. -/
theorem fileCalls_fails : ¬ Meets (fileStep 2) (BehavesAsArray 2) init [.write 200 []] := by
  intro h
  have hreaches := (behavesAsArray_iff isFile_readme _).1 h.1
  exact (hreaches (by decide +kernel) (by decide)).1 rfl

/-! ## Listings -/

/-- The line of a node: its name, a slash behind that of a directory, and a line feed. -/
def Node.line (n : Node) : List UInt8 := n.name.text ++ (if n.type = .directory then [slash, newline] else [newline])

/-- The nodes of the table under a directory. -/
def childrenIn (directory : UInt32) (nodes : List Node) : List Node :=
  nodes.filter fun n => n.active && n.parentId == directory

/-- What a listing of the children should be: the first of their lines, as many as fit, and all if they do. -/
structure ListsWhole (children : List Node) (capacity : Nat) (written : List UInt8) : Prop where
  whole : ∃ k, written = ((children.take k).map Node.line).flatten
  fits : written.length ≤ capacity
  complete : ((children.map Node.line).flatten).length ≤ capacity → written = (children.map Node.line).flatten

/-- How many bytes the first lines take. -/
def lineBytes (children : List Node) (k : Nat) : Nat := (((children.take k).map Node.line).flatten).length

/-- No directory's line ends one byte behind the buffer, in which some bytes stand already. -/
def Untorn (children : List Node) (capacity bytes : Nat) : Prop :=
  ∀ k n, children[k]? = some n → n.type = .directory → bytes + lineBytes children (k + 1) ≠ capacity + 1

theorem Node.length_line (n : Node) : n.line.length = n.name.text.length + if n.type = .directory then 2 else 1 := by
  unfold line
  split_ifs <;> simp

/-- The loop over the children alone: it stops in front of a name, or behind the slash of a torn line, or goes on. -/
def fill (capacity : Nat) : List Node → List UInt8 → List UInt8
  | [], written => written
  | n :: rest, written =>
    if capacity < written.length + n.name.text.length + 1 then written
    else if n.type = .directory ∧ written.length + n.line.length = capacity + 1 then written ++ n.name.text ++ [slash]
    else fill capacity rest (written ++ n.line)

theorem listFrom_eq_fill (capacity : Nat) (directory : UInt32) (nodes : List Node) (written : List UInt8) :
    listFrom capacity directory nodes written = fill capacity (childrenIn directory nodes) written := by
  induction nodes generalizing written with
  | nil => rfl
  | cons n rest ih =>
    by_cases hn : (n.active && n.parentId == directory)
    · have hcons : childrenIn directory (n :: rest) = n :: childrenIn directory rest := filter_cons_of_pos hn
      have hskip : (!n.active || n.parentId != directory) = false := by simpa [bne] using hn
      rw [hcons, fill, ← ih, n.length_line, listFrom, hskip, Node.line]
      grind
    · have hskip : childrenIn directory (n :: rest) = childrenIn directory rest := filter_cons_of_neg hn
      rw [hskip, listFrom, if_pos (by simpa [imp_iff_not_or] using hn), ih]

theorem untorn_cons {rest : List Node} : Untorn (n :: rest) capacity bytes ↔
    (n.type = .directory → bytes + n.line.length ≠ capacity + 1) ∧ Untorn rest capacity (bytes + n.line.length) := by
  constructor
  · intro h
    refine ⟨fun hdir => ?_, fun k m hm hdir => ?_⟩
    · simpa [lineBytes] using h 0 n rfl hdir
    · simpa [lineBytes, add_assoc] using h (k + 1) m hm hdir
  · rintro ⟨hfirst, hrest⟩ k m hm hdir
    rcases k with _ | k
    · obtain rfl : n = m := by simpa using hm
      simpa [lineBytes] using hfirst hdir
    · simpa [lineBytes, add_assoc] using hrest k m hm hdir

theorem untorn_of_full {children : List Node} (h : capacity ≤ bytes) : Untorn children capacity bytes := by
  intro k n hn hdir
  have hline := n.length_line
  rw [if_pos hdir] at hline
  simp only [lineBytes, take_add_one, hn, Option.toList_some, map_append, flatten_append, length_append,
    map_cons, map_nil, flatten_cons, flatten_nil, append_nil, hline]
  omega

/-- The loop ends within the buffer, with whole lines or behind the slash of a torn one. -/
theorem fill_cases {capacity : Nat} (children : List Node) (hw : written.length ≤ capacity) :
    (fill capacity children written).length ≤ capacity ∧
      ((∃ k, fill capacity children written = written ++ ((children.take k).map Node.line).flatten) ∧
          Untorn children capacity written.length ∨
        (fill capacity children written).getLast? = some slash ∧ ¬ Untorn children capacity written.length) := by
  induction children generalizing written with
  | nil => exact ⟨hw, .inl ⟨⟨0, by simp [fill]⟩, by simp [Untorn]⟩⟩
  | cons n rest ih =>
    have hline := n.length_line
    unfold fill
    rw [untorn_cons]
    split_ifs with hfull htorn
    · refine ⟨hw, .inl ⟨⟨0, by simp⟩, fun hdir => ?_, untorn_of_full ?_⟩⟩
      · rw [if_pos hdir] at hline
        omega
      · split_ifs at hline <;> omega
    · refine ⟨?_, .inr ⟨by simp, fun h => h.1 htorn.1 htorn.2⟩⟩
      simp only [length_append, length_singleton]
      omega
    · have hfirst : n.type = .directory → written.length + n.line.length ≠ capacity + 1 := fun hdir h => htorn ⟨hdir, h⟩
      have hlength : (written ++ n.line).length = written.length + n.line.length := length_append
      have hw' : (written ++ n.line).length ≤ capacity := by
        by_cases hdir : n.type = .directory
        · have hne := hfirst hdir
          rw [if_pos hdir] at hline
          omega
        · rw [if_neg hdir] at hline
          omega
      obtain ⟨hfits, hrest⟩ := ih hw'
      rw [hlength] at hrest
      refine ⟨hfits, hrest.imp ?_ ?_⟩
      · rintro ⟨⟨k, hk⟩, hun⟩
        exact ⟨⟨k + 1, by simpa using hk⟩, hfirst, hun⟩
      · rintro ⟨hlast, hun⟩
        exact ⟨hlast, fun h => hun h.2⟩

/-- Whole lines do not end with a slash. -/
theorem getLast?_lines (children : List Node) : ((children.map Node.line).flatten).getLast? ≠ some slash := by
  rcases children.eq_nil_or_concat with rfl | ⟨before, n, rfl⟩
  · simp
  · have hlast : n.line.getLast? = some newline := by
      unfold Node.line
      split_ifs <;> simp
    have hne : newline ≠ slash := by decide
    simp [getLast?_append, hlast, hne]

theorem fill_all {capacity : Nat} (children : List Node)
    (h : written.length + ((children.map Node.line).flatten).length ≤ capacity) :
    fill capacity children written = written ++ (children.map Node.line).flatten := by
  induction children generalizing written with
  | nil => simp [fill]
  | cons n rest ih =>
    have hline := n.length_line
    simp only [map_cons, flatten_cons, length_append] at h
    rw [fill, if_neg (by split_ifs at hline <;> omega), if_neg (by omega), ih (by rw [length_append]; omega)]
    simp

theorem listsWhole_fill (children : List Node) (capacity : Nat) :
    ListsWhole children capacity (fill capacity children []) ↔ Untorn children capacity 0 := by
  obtain ⟨hfits, ⟨⟨k, hk⟩, hun⟩ | ⟨hlast, hun⟩⟩ := fill_cases children (show ([] : List UInt8).length ≤ capacity from zero_le _)
  · exact iff_of_true ⟨⟨k, by simpa using hk⟩, hfits, fun hall => fill_all children (by simpa using hall)⟩ hun
  · refine iff_of_false (fun h => ?_) hun
    obtain ⟨k, hk⟩ := h.whole
    exact getLast?_lines (children.take k) (hk ▸ hlast)

theorem list_eq_fill (hi : fs.findNode id = some i) (hdir : (fs.nodes i).type = .directory) (capacity : Nat) :
    (fs.list id capacity).getD [] = fill capacity (childrenIn (fs.nodes i).id (ofFn fs.nodes)) [] := by
  simp only [list, hi, hdir, listFrom_eq_fill, ne_eq, not_true_eq_false, false_or]
  split_ifs with hzero
  · rw [hzero]
    cases childrenIn (fs.nodes i).id (ofFn fs.nodes) <;> simp [fill]
  · rfl

/-- Into no buffer at all nothing is listed, and the call fails. -/
theorem list_iff {i : Fin nodeLimit} (hi : fs.findNode id = some i) (hdir : (fs.nodes i).type = .directory) (capacity : Nat) :
    let children := childrenIn (fs.nodes i).id (ofFn fs.nodes)
    ((fs.list id capacity).isSome ↔ capacity ≠ 0) ∧
      (ListsWhole children capacity ((fs.list id capacity).getD []) ↔ Untorn children capacity 0) := by
  refine ⟨?_, by rw [list_eq_fill hi hdir, listsWhole_fill]⟩
  simp only [list, hi, hdir]
  split_ifs <;> simp_all

theorem list_root :
    init.findNode 1 = some 0 ∧ (init.nodes 0).type = .directory ∧
      (ListsWhole (childrenIn (init.nodes 0).id (ofFn init.nodes)) 64 ((init.list 1 64).getD []) ↔
        Untorn (childrenIn (init.nodes 0).id (ofFn init.nodes)) 64 0) := by
  have hi : init.findNode 1 = some 0 := by decide +kernel
  have hdir : (init.nodes 0).type = .directory := by decide +kernel
  exact ⟨hi, hdir, (list_iff hi hdir 64).2⟩

/-- In 29 bytes the line of /APPS loses its line feed. -/
theorem list_fails :
    ¬ ListsWhole (childrenIn (init.nodes 0).id (ofFn init.nodes)) 29 ((init.list 1 29).getD []) := by
  rw [list_eq_fill (i := 0) (by decide +kernel) (by decide +kernel), listsWhole_fill]
  exact fun h => h 2 (init.nodes 3) (by decide +kernel) (by decide +kernel) (by decide +kernel)

end LimitlessOS.Ramfs
