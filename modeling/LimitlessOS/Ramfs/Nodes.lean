/-
  LimitlessOS.Ramfs.Nodes — the RAM filesystem (`core/ramfs.c`).

  A table of 64 records. A record in use carries its number, the number of its directory,
  a name and, for a file, up to 256 bytes. Paths are split at slashes; every call first
  walks a path, directory by directory, comparing each segment with the names of the
  records that carry the directory's number.

  A pointer to a record is its place in the table. `Name` and `Contents` are the two
  arrays of a record up to the bytes written to them: everything behind is zero.
-/
import LimitlessOS.Lib.HandleTable

namespace LimitlessOS.Ramfs

open Lib

abbrev nodeLimit : Nat := 64
def nameCapacity : Nat := 32
def fileCapacity : Nat := 256

/-- The number of the root directory. -/
def nodeRoot : UInt32 := 1

def slash : UInt8 := 0x2F
def dot : UInt8 := 0x2E

/-! ## Records -/

inductive NodeType where
  | none
  | directory
  | file
  deriving DecidableEq

/-- `enum ramfs_node_type` -/
def NodeType.code : NodeType → UInt32
  | .none => 0
  | .directory => 1
  | .file => 2

/-- A name array: the bytes written to it; a zero byte follows. -/
structure Name where
  bytes : List UInt8
  short : bytes.length < nameCapacity
  deriving DecidableEq

/-- A contents array with its length: the bytes of the file. -/
structure Contents where
  bytes : List UInt8
  fits : bytes.length ≤ fileCapacity
  deriving DecidableEq

def Name.empty : Name := ⟨[], by decide⟩
def Contents.empty : Contents := ⟨[], by decide⟩

/-- The name as a C string. -/
def Name.text (n : Name) : List UInt8 := n.bytes.takeWhile (· ≠ 0)

structure Node where
  id : UInt32
  parentId : UInt32
  type : NodeType
  active : Bool
  name : Name
  contents : Contents
  deriving DecidableEq

namespace Node

def zero : Node := { id := 0, parentId := 0, type := .none, active := false, name := .empty, contents := .empty }

/-- What a read through the name pointer gives: the name array, and behind it the contents array.
    Segments are shorter than the two together, so no read goes further. -/
def memory (n : Node) : List UInt8 :=
  n.name.bytes ++ List.replicate (nameCapacity - n.name.bytes.length) 0 ++ n.contents.bytes

/-- The record of a node under another directory and name. -/
def movedTo (n : Node) (parentId : UInt32) (name : Name) : Node := { n with parentId, name }

end Node

/-- `text_equals_segment` -/
def textEqualsSegment : List UInt8 → List UInt8 → Bool
  | text, [] => text.headD 0 == 0
  | text, byte :: segment => text.headD 0 == byte && textEqualsSegment text.tail segment

end LimitlessOS.Ramfs

/-- The node table. -/
structure LimitlessOS.Ramfs where
  nodes : Fin LimitlessOS.Ramfs.nodeLimit → LimitlessOS.Ramfs.Node

namespace LimitlessOS.Ramfs

open Lib

/-! ## The table -/

/-- `ramfs_find_node` -/
def findNode (fs : Ramfs) (id : UInt32) : Option (Fin nodeLimit) :=
  Slots.first fs.nodes fun n => n.active && n.id == id

/-- `ramfs_find_child` -/
def findChild (fs : Ramfs) (parent : Fin nodeLimit) (segment : List UInt8) : Option (Fin nodeLimit) :=
  if segment = [] then none
  else Slots.first fs.nodes fun n =>
    n.active && n.parentId == (fs.nodes parent).id && textEqualsSegment n.memory segment

/-- `ramfs_child_count` -/
def childCount (fs : Ramfs) (parent : Fin nodeLimit) : Nat :=
  if (fs.nodes parent).type ≠ .directory then 0
  else (List.finRange nodeLimit).countP fun i =>
    (fs.nodes i).active && (fs.nodes i).parentId == (fs.nodes parent).id

/-- `ramfs_parent_chain_contains`. The loop ends within the given number of rounds, or `none`. -/
def parentChainContains (fs : Ramfs) (ancestor : UInt32) : Nat → UInt32 → Option Bool
  | 0, _ => none
  | rounds + 1, id =>
    if id = 0 then some false
    else if id = ancestor then some true
    else
      match fs.findNode id with
      | none => some false
      | some i => fs.parentChainContains ancestor rounds (fs.nodes i).parentId

def set (fs : Ramfs) (i : Fin nodeLimit) (n : Node) : Ramfs := ⟨Function.update fs.nodes i n⟩

/-- `ramfs_allocate_node`; its zeroing is part of the record that `createChild` and `seedNodeCopy` write. -/
def allocateNode (fs : Ramfs) : Option (Fin nodeLimit) := Slots.first fs.nodes fun n => !n.active

/-- The number of the record at a place of the table. -/
def numberAt (i : Fin nodeLimit) : UInt32 := UInt32.ofNat (i.val + 1)

/-- The record of a new node. -/
def newNode (i : Fin nodeLimit) (parentId : UInt32) (type : NodeType) (name : Name) : Node :=
  { id := numberAt i, parentId, type, active := true, name, contents := .empty }

/-- `ramfs_create_child` -/
def createChild (fs : Ramfs) (parent : Fin nodeLimit) (name : List UInt8) (type : NodeType) :
    Option (Fin nodeLimit × Ramfs) :=
  if h : name.length = 0 ∨ nameCapacity ≤ name.length ∨ type = .none then none
  else
    match fs.allocateNode with
    | none => none
    | some i =>
      some (i, fs.set i (newNode i (fs.nodes parent).id type ⟨name, by omega⟩))

/-! ## Paths -/

/-- The segments of a path behind the bytes of an unfinished one. -/
def segmentsFrom : List UInt8 → List UInt8 → List (List UInt8)
  | segment, [] => if segment = [] then [] else [segment]
  | segment, byte :: path =>
    if byte ≠ slash then segmentsFrom (segment ++ [byte]) path
    else if segment = [] then segmentsFrom [] path
    else segment :: segmentsFrom [] path

/-- The segments a walk meets, in order: slashes in a row count as one. -/
def segments (path : List UInt8) : List (List UInt8) := segmentsFrom [] path

/-- The loop of `ramfs_walk_parent`: the directory of the last segment, and that segment. -/
def walkSegments (fs : Ramfs) : Fin nodeLimit → List (List UInt8) → Option (Fin nodeLimit × List UInt8)
  | _, [] => none
  | current, segment :: rest =>
    if segment = [dot] then fs.walkSegments current rest
    else if rest = [] then some (current, segment)
    else
      match fs.findChild current segment with
      | none => none
      | some child => if (fs.nodes child).type ≠ .directory then none else fs.walkSegments child rest

/-- The base directory of a path. Only the root takes a path that starts with a slash. -/
def baseDirectory (fs : Ramfs) (base : UInt32) (path : List UInt8) : Option (Fin nodeLimit) :=
  match fs.findNode base with
  | none => none
  | some current =>
    if (fs.nodes current).type ≠ .directory then none
    else if path.head? = some slash then if (fs.nodes current).id ≠ nodeRoot then none else fs.findNode nodeRoot
    else some current

/-- `ramfs_walk_parent` -/
def walkParent (fs : Ramfs) (base : UInt32) (path : List UInt8) : Option (Fin nodeLimit × List UInt8) :=
  if path = [] then none
  else
    match fs.baseDirectory base path with
    | none => none
    | some current => fs.walkSegments current (segments path)

/-- The loop of `ramfs_open`. -/
def openSegments (fs : Ramfs) : Fin nodeLimit → List (List UInt8) → Option (Fin nodeLimit)
  | current, [] => some current
  | current, segment :: rest =>
    if segment = [dot] then fs.openSegments current rest
    else
      match fs.findChild current segment with
      | none => none
      | some child => fs.openSegments child rest

/-- `ramfs_open`, giving the record whose number the code writes out. -/
def openPath (fs : Ramfs) (base : UInt32) (path : List UInt8) : Option (Fin nodeLimit) :=
  match fs.baseDirectory base path with
  | none => none
  | some current => fs.openSegments current (segments path)

/-! ## Calls -/

/-- `ramfs_create`: the number of the node, or nothing. -/
def create (fs : Ramfs) (base : UInt32) (path : List UInt8) (type : NodeType) : Option UInt32 × Ramfs :=
  if type ≠ .directory ∧ type ≠ .file then (none, fs)
  else
    match fs.walkParent base path with
    | none => (none, fs)
    | some (parent, leaf) =>
      match fs.findChild parent leaf with
      | some existing => if (fs.nodes existing).type = type then (some (fs.nodes existing).id, fs) else (none, fs)
      | none =>
        match fs.createChild parent leaf type with
        | none => (none, fs)
        | some (created, fs') => (some (fs'.nodes created).id, fs')

/-- `ramfs_move`; `none` if the walk up from the destination does not end. There are no more
    nodes than rounds, so a walk that takes more has come back to where it was. -/
def move (fs : Ramfs) (sourceBase : UInt32) (sourcePath : List UInt8) (destinationBase : UInt32)
    (destinationPath : List UInt8) : Option (Bool × Ramfs) :=
  match fs.walkParent sourceBase sourcePath with
  | none => some (false, fs)
  | some (sourceParent, sourceLeaf) =>
    match fs.walkParent destinationBase destinationPath with
    | none => some (false, fs)
    | some (destinationParent, destinationLeaf) =>
      if h : destinationLeaf.length = 0 ∨ nameCapacity ≤ destinationLeaf.length then some (false, fs)
      else
        match fs.findChild sourceParent sourceLeaf with
        | none => some (false, fs)
        | some source =>
          match fs.findChild destinationParent destinationLeaf with
          | some existing => some ((fs.nodes existing).id == (fs.nodes source).id, fs)
          | none =>
            let moved := fs.set source
              ((fs.nodes source).movedTo (fs.nodes destinationParent).id ⟨destinationLeaf, by omega⟩)
            if (fs.nodes source).type = .directory then
              match fs.parentChainContains (fs.nodes source).id (nodeLimit + 1) (fs.nodes destinationParent).id with
              | none => none
              | some true => some (false, fs)
              | some false => some (true, moved)
            else some (true, moved)

/-- `ramfs_rename` -/
def rename (fs : Ramfs) (base : UInt32) (sourcePath destinationPath : List UInt8) : Option (Bool × Ramfs) :=
  fs.move base sourcePath base destinationPath

/-- `ramfs_delete` -/
def delete (fs : Ramfs) (base : UInt32) (path : List UInt8) : Bool × Ramfs :=
  match fs.walkParent base path with
  | none => (false, fs)
  | some (parent, leaf) =>
    match fs.findChild parent leaf with
    | none => (false, fs)
    | some target =>
      if (fs.nodes target).id = nodeRoot then (false, fs)
      else if (fs.nodes target).type = .directory ∧ fs.childCount target ≠ 0 then (false, fs)
      else (true, fs.set target .zero)

/-- `ramfs_write`: the bytes stored, or nothing. A gap before the offset is filled with zeros. -/
def write (fs : Ramfs) (id : UInt32) (offset : Nat) (source : List UInt8) : Option Nat × Ramfs :=
  match fs.findNode id with
  | none => (none, fs)
  | some i =>
    let file := fs.nodes i
    if h : file.type ≠ .file ∨ fileCapacity < offset then (none, fs)
    else
      let stored := source.take (fileCapacity - offset)
      let filled := file.contents.bytes ++ List.replicate (offset - file.contents.bytes.length) 0
      (some stored.length,
        fs.set i { file with contents := ⟨filled.take offset ++ stored ++ filled.drop (offset + stored.length), by
          have hfits := file.contents.fits
          simp only [filled, stored, List.length_append, List.length_take, List.length_drop, List.length_replicate]
          omega⟩ })

/-! ## Reading -/

/-- `ramfs_node_exists` -/
def nodeExists (fs : Ramfs) (id : UInt32) : Bool := (fs.findNode id).isSome

/-- `ramfs_node_is_directory` -/
def nodeIsDirectory (fs : Ramfs) (id : UInt32) : Bool :=
  match fs.findNode id with
  | none => false
  | some i => (fs.nodes i).type = .directory

/-- `ramfs_read`: the bytes, or nothing. -/
def read (fs : Ramfs) (id : UInt32) (offset capacity : Nat) : Option (List UInt8) :=
  match fs.findNode id with
  | none => none
  | some i =>
    if (fs.nodes i).type ≠ .file ∨ (fs.nodes i).contents.bytes.length < offset then none
    else some (((fs.nodes i).contents.bytes.drop offset).take capacity)

def newline : UInt8 := 0x0A

/-- The loop of `ramfs_list`. It stops at the first entry that does not fit, in whatever state the line is in. -/
def listFrom (capacity : Nat) (directory : UInt32) : List Node → List UInt8 → List UInt8
  | [], written => written
  | n :: rest, written =>
    if !n.active || n.parentId != directory then listFrom capacity directory rest written
    else if written.length + n.name.text.length + 1 > capacity then written
    else
      let named := written ++ n.name.text
      if n.type = .directory then
        if named.length ≥ capacity then named
        else if named.length + 1 ≥ capacity then named ++ [slash]
        else listFrom capacity directory rest (named ++ [slash, newline])
      else if named.length ≥ capacity then named
      else listFrom capacity directory rest (named ++ [newline])

/-- `ramfs_list`: the bytes, or nothing. -/
def list (fs : Ramfs) (id : UInt32) (capacity : Nat) : Option (List UInt8) :=
  match fs.findNode id with
  | none => none
  | some i =>
    if (fs.nodes i).type ≠ .directory ∨ capacity = 0 then none
    else some (listFrom capacity (fs.nodes i).id (List.ofFn fs.nodes) [])

/-- `struct ramfs_stat` -/
structure Stat where
  nodeType : NodeType
  byteLength : Nat
  childCount : Nat

/-- `ramfs_stat` -/
def stat (fs : Ramfs) (id : UInt32) : Option Stat :=
  match fs.findNode id with
  | none => none
  | some i =>
    some ⟨(fs.nodes i).type, (fs.nodes i).contents.bytes.length,
      if (fs.nodes i).type = .directory then fs.childCount i else 0⟩

/-- The bytes of a string literal. -/
def ascii (s : String) : List UInt8 := s.toUTF8.toList

/-- The digits that `decimal_append` writes. -/
def decimal (value : Nat) : List UInt8 := (Nat.toDigits 10 value).map fun c => UInt8.ofNat c.toNat

/-- Texts one behind the other, as long as they fit. -/
def appendAll (capacity : Nat) : List UInt8 → List (List UInt8) → Option (List UInt8)
  | written, [] => some written
  | written, part :: parts =>
    if written.length + part.length > capacity then none else appendAll capacity (written ++ part) parts

/-- `ramfs_format_stat` -/
def formatStat (stat : Stat) (capacity : Nat) : Option (List UInt8) :=
  if capacity = 0 then none
  else
    match stat.nodeType with
    | .directory => appendAll capacity [] [ascii "type=dir entries=", decimal stat.childCount, ascii "\n"]
    | .file => appendAll capacity [] [ascii "type=file size=", decimal stat.byteLength, ascii "\n"]
    | .none => appendAll capacity [] [ascii "type=unknown\n"]

/-! ## Runs -/

/-- A call that may change the tree. -/
inductive Op where
  | create (base : UInt32) (path : List UInt8) (type : NodeType)
  | move (sourceBase : UInt32) (sourcePath : List UInt8) (destinationBase : UInt32) (destinationPath : List UInt8)
  | rename (base : UInt32) (sourcePath destinationPath : List UInt8)
  | delete (base : UInt32) (path : List UInt8)
  | write (id : UInt32) (offset : Nat) (source : List UInt8)

/-- What the call reports, and the table it leaves; `none` if it does not return. -/
def step (fs : Ramfs) : Op → Option (Bool × Ramfs)
  | .create base path type => some ((fs.create base path type).1.isSome, (fs.create base path type).2)
  | .move sourceBase sourcePath destinationBase destinationPath =>
    fs.move sourceBase sourcePath destinationBase destinationPath
  | .rename base sourcePath destinationPath => fs.rename base sourcePath destinationPath
  | .delete base path => some (fs.delete base path)
  | .write id offset source => some ((fs.write id offset source).1.isSome, (fs.write id offset source).2)

/-- The calls one after the other; `none` if one of them does not return. -/
def run (fs : Ramfs) : List Op → Option Ramfs
  | [] => some fs
  | op :: ops => (fs.step op).bind fun r => r.2.run ops

/-! ## The tree at boot -/

/-- `struct ramfs_seed_node` -/
structure Seed where
  id : UInt32
  parentId : UInt32
  type : NodeType
  name : List UInt8
  contents : List UInt8

/-- `ramfs_seed_node_copy` -/
def seedNodeCopy (fs : Ramfs) (seed : Seed) : Ramfs :=
  match (fs.findNode seed.id).or fs.allocateNode with
  | none => fs
  | some i =>
    fs.set i
      { id := seed.id, parentId := seed.parentId, type := seed.type, active := true
        name := ⟨seed.name.take (nameCapacity - 1), by simp only [List.length_take, nameCapacity]; omega⟩
        contents := if h : seed.contents.length ≤ fileCapacity then ⟨seed.contents, h⟩ else .empty }

/-- `seed_nodes` -/
def seedNodes : List Seed :=
  [
    ⟨1, 0, .directory, ascii "/", ascii ""⟩,
    ⟨2, 1, .file, ascii "README.TXT",
      ascii "LimitlessOS bootstrap ramfs\nThis userspace shell is reading files through capability-checked handles.\n"⟩,
    ⟨3, 1, .file, ascii "SERVICES.TXT", ascii "services:\n- ai-policy\n- console\n- input\n- ramfs\n"⟩,
    ⟨4, 1, .directory, ascii "APPS", ascii ""⟩,
    ⟨5, 4, .file, ascii "HELLO.TXT", ascii "hello from /APPS/HELLO.TXT\n"⟩,
    ⟨6, 4, .file, ascii "ECHO.APP", ascii "12\n1\n1\n3\necho <text> - print text through delegated console\ntext\n"⟩,
    ⟨7, 4, .file, ascii "LS.APP",
      ascii "3\n3\n2\n3\nls [path] - list directory entries from cwd or a given path\nfilesystem\n"⟩,
    ⟨8, 4, .file, ascii "CAT.APP", ascii "4\n3\n2\n3\ncat <path> - print file contents\nfilesystem\n"⟩,
    ⟨9, 4, .file, ascii "STAT.APP", ascii "7\n3\n2\n3\nstat <path> - show file or directory metadata\nfilesystem\n"⟩,
    ⟨10, 4, .file, ascii "MKDIR.APP", ascii "5\n3\n2\n1\nmkdir <path> - create a directory tree\nfilesystem\n"⟩,
    ⟨11, 4, .file, ascii "WRITE.APP", ascii "6\n11\n3\n1\nwrite <path> <text> - replace file contents\nfilesystem\n"⟩,
    ⟨12, 4, .file, ascii "RENAME.APP",
      ascii "8\n19\n4\n1\nrename <from> <to> - rename within one directory\nfilesystem\n"⟩,
    ⟨13, 4, .file, ascii "MOVE.APP",
      ascii "11\n23\n5\n1\nmove <source> <dest> - move across directories\nfilesystem\n"⟩,
    ⟨14, 4, .file, ascii "APPEND.APP",
      ascii "9\n11\n3\n1\nappend <path> <text> - append text to a file\nfilesystem\n"⟩,
    ⟨15, 4, .file, ascii "DELETE.APP",
      ascii "10\n3\n2\n1\ndelete <path> - remove a file or empty directory\nfilesystem\n"⟩,
    ⟨16, 4, .file, ascii "SAY.APP", ascii "12\n1\n1\n3\nsay <text> - alias for echo\naliases\n"⟩,
    ⟨17, 4, .file, ascii "SHOW.APP", ascii "4\n3\n2\n3\nshow <path> - alias for cat\naliases\n"⟩,
    ⟨18, 4, .file, ascii "LIST.APP", ascii "3\n3\n2\n3\nlist [path] - alias for ls\naliases\n"⟩,
    ⟨19, 4, .file, ascii "MAKE.APP", ascii "5\n3\n2\n1\nmake <path> - alias for mkdir\naliases\n"⟩,
    ⟨20, 4, .file, ascii "PUT.APP", ascii "6\n11\n3\n1\nput <path> <text> - alias for write\naliases\n"⟩,
    ⟨21, 4, .file, ascii "SWAP.APP", ascii "8\n19\n4\n1\nswap <from> <to> - alias for rename\naliases\n"⟩,
    ⟨22, 4, .file, ascii "SHIFT.APP", ascii "11\n23\n5\n1\nshift <source> <dest> - alias for move\naliases\n"⟩,
    ⟨23, 4, .file, ascii "ASK.APP",
      ascii "13\n1\n1\n7\nask <prompt> - print a prompt and read delegated input\ninteractive\n"⟩,
    ⟨24, 4, .file, ascii "TOUCH.APP",
      ascii "14\n3\n2\n1\ntouch <path> - create an empty file if missing\nfilesystem\n"⟩,
    ⟨25, 4, .file, ascii "COPY.APP",
      ascii "15\n23\n5\n1\ncopy <source> <dest> - copy a file across directories\nfilesystem\n"⟩,
    ⟨26, 4, .file, ascii "INDEX.TXT",
      ascii "LimitlessOS /APPS index\n*.APP files are launcher descriptors.\n" ++
        ascii "Use 'apps', 'help <command>', or 'info <command>' to inspect them.\n"⟩
  ]

/-- `ramfs_init` -/
def init : Ramfs := seedNodes.foldl seedNodeCopy ⟨fun _ => .zero⟩

end LimitlessOS.Ramfs
