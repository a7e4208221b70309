/-
  LimitlessOS.Elf.InitialStack — the first stack of a program (`arch/x86_64/elf64.c`).

  `elf64_build_initial_stack` clears the stack, places the platform name, the random bytes and
  the strings downwards from the top, and then writes the table of words that the program
  starts with: the count and the addresses of the arguments, those of the environment, and the
  auxiliary vector.

  Addresses are numbers, and the memory is that of the process as its page table has it. No
  sum can wrap, for everything is placed below the top of the stack. A string is what stands
  at a pointer, or nothing for a null pointer; the strings lie outside the stack. Left out are
  the checksums, and of the answer the addresses that are sums of others.

  Proved:
  - `placeStrings_spec`: the strings are copied one below the other.
  - `initialStack_layout`: what an accepted call leaves on the stack.
-/
import LimitlessOS.Lib.Blocks
import LimitlessOS.Lib.UserMemory
import LimitlessOS.Vma.Machine

namespace LimitlessOS.Elf

open Lib Lib.Blocks List Prod
open Vma (PageTable pageAt pageBytes protWrite)

abbrev Mem := Nat → UInt8

/-- What stands at a `char` pointer. -/
abbrev Text := Option (Nat → UInt8)

/-- `ELF64_STACK_MAX_ARGC` and `ELF64_STACK_MAX_ENVC` -/
def maxStrings : Nat := 8

/-- `ELF64_STACK_MAX_STRING_BYTES` -/
def maxStringBytes : Nat := 256

/-- `ELF64_AUXV_MAX_ENTRIES` -/
def auxvMaxEntries : Nat := 19

def atNull : UInt64 := 0
def atPlatform : UInt64 := 15
def atRandom : UInt64 := 25

structure AuxvEntry where
  type : UInt64
  value : UInt64
  deriving DecidableEq, Repr

/-- `elf64_auxv_t` -/
structure Auxv where
  entries : List AuxvEntry
  random : List UInt8
  platform : List UInt8
  random_length : random.length = 16
  platform_length : platform.length = 8

inductive StackError where
  | argument
  | range
  | overflow
  | write
  deriving DecidableEq, Repr

/-- `elf64_stack_result_t` -/
structure StackResult where
  initialRsp : Nat
  stringsBase : Nat
  randomAddress : Nat
  platformAddress : Nat
  argvNullOk : Bool
  envpNullOk : Bool
  auxvNullOk : Bool
  deriving DecidableEq, Repr

/-! ## Memory -/

/-- `elf64_stack_write_bytes` -/
def stackWriteBytes (m : Mem) (address : Nat) (data : List UInt8) : Mem := if address = 0 then m else store m address data

/-- `elf64_stack_write_u64` -/
def stackWriteU64 (m : Mem) (address : Nat) (value : UInt64) : Mem :=
  if address = 0 then m else store m address (leBytes 8 value.toNat)

/-- `elf64_stack_read_u64` -/
def stackReadU64 (m : Mem) (address : Nat) : Nat :=
  if address = 0 then 0 else leValue ((List.range 8).map fun i => m (address + i))

/-- `elf64_stack_range_writable` -/
def stackRangeWritable (p : PageTable) (stackBase stackTop : Nat) : Bool :=
  stackBase < stackTop && stackBase % pageBytes = 0 && stackTop % pageBytes = 0 &&
    (List.range ((stackTop - stackBase) / pageBytes)).all fun i =>
      p.present (pageAt stackBase i) && p.protection (pageAt stackBase i) &&& protWrite ≠ 0

/-! ## Strings -/

/-- `elf64_strlen_bounded`: the length with the NUL, or 0 when there is none within the bound. -/
def strlenBounded (text : Text) (maxBytes : Nat) : Nat :=
  match text with
  | none => 0
  | some t =>
    match (List.range maxBytes).find? fun i => t i = 0 with
    | some i => i + 1
    | none => 0

/-- The first `count` bytes at a pointer. -/
def textBytes (text : Text) (count : Nat) : List UInt8 :=
  match text with
  | none => []
  | some t => (List.range count).map t

/-- One round of the loops over `envp` and `argv`. -/
def placeString (stackBase : Nat) (text : Text) (cursor : Nat) (m : Mem) : Option (Nat × Mem) :=
  let length := strlenBounded text maxStringBytes
  if length = 0 ∨ cursor - stackBase < length then none
  else some (cursor - length, stackWriteBytes m (cursor - length) (textBytes text length))

/-- The loops themselves, which begin with the last string. -/
def placeStrings (stackBase : Nat) : List Text → Nat → Mem → Option (List Nat × Nat × Mem)
  | [], cursor, m => some ([], cursor, m)
  | text :: rest, cursor, m =>
    match placeStrings stackBase rest cursor m with
    | none => none
    | some (pointers, cursor, m) =>
      match placeString stackBase text cursor m with
      | none => none
      | some (cursor, m) => some (cursor :: pointers, cursor, m)

/-! ## The table of words -/

/-- `elf64_auxv_has_null_terminator` -/
def auxvHasNullTerminator (auxv : Auxv) : Bool :=
  match auxv.entries.getLast? with
  | none => false
  | some last => auxv.entries.length ≤ auxvMaxEntries && last.type = atNull && last.value = 0

/-- An entry as it is written: the two staged blocks are named by where they went. -/
def auxvWords (random platform : Nat) (e : AuxvEntry) : List UInt64 :=
  [e.type, if e.type = atRandom then UInt64.ofNat random else if e.type = atPlatform then UInt64.ofNat platform else e.value]

def startupWords (argv envp : List Nat) (random platform : Nat) (auxv : Auxv) : List UInt64 :=
  UInt64.ofNat argv.length :: argv.map UInt64.ofNat ++ 0 :: envp.map UInt64.ofNat ++ 0 ::
    auxv.entries.flatMap (auxvWords random platform)

/-- The writes from `cursor` upwards. -/
def writeWords : List UInt64 → Nat → Mem → Nat × Mem
  | [], cursor, m => (cursor, m)
  | word :: rest, cursor, m => writeWords rest (cursor + 8) (stackWriteU64 m cursor word)

/-- The table below `cursor`, and what is read back of it. -/
def finishStack (stackBase cursor random platform : Nat) (argv envp : List Nat) (auxv : Auxv) (m : Mem) :
    Except StackError (StackResult × Mem) :=
  let pointerBytes := (1 + argv.length + 1 + envp.length + 1 + auxv.entries.length * 2) * 8
  if cursor < stackBase ∨ cursor - stackBase < pointerBytes then .error .overflow
  else
    let initialRsp := (cursor - pointerBytes) / 16 * 16
    if initialRsp < stackBase ∨ cursor < initialRsp + pointerBytes then .error .overflow
    else
      let written := writeWords (startupWords argv envp random platform auxv) initialRsp m
      if written.1 ≠ initialRsp + pointerBytes then .error .write
      else
        let argvAddress := initialRsp + 8
        let envpAddress := argvAddress + (argv.length + 1) * 8
        let auxvAddress := envpAddress + (envp.length + 1) * 8
        let last := auxvAddress + (auxv.entries.length - 1) * 16
        .ok ({ initialRsp := initialRsp
               stringsBase := cursor
               randomAddress := random
               platformAddress := platform
               argvNullOk := stackReadU64 written.2 (argvAddress + argv.length * 8) = 0
               envpNullOk := stackReadU64 written.2 (envpAddress + envp.length * 8) = 0
               auxvNullOk := stackReadU64 written.2 last = 0 ∧ stackReadU64 written.2 (last + 8) = 0 }, written.2)

/-- `elf64_build_initial_stack`; `known` says that the process has a principal. -/
def buildInitialStack (p : PageTable) (known : Bool) (stackBase stackTop : UInt64) (argv envp : List Text) (auxv : Auxv)
    (m : Mem) : Except StackError (StackResult × Mem) :=
  let stackBase := stackBase.toNat
  let stackTop := stackTop.toNat
  if known = false ∨ maxStrings < argv.length ∨ maxStrings < envp.length ∨ auxvHasNullTerminator auxv = false then
    .error .argument
  else if stackTop ≤ stackBase ∨ 0xFFFFFFFF < stackTop - stackBase ∨ stackRangeWritable p stackBase stackTop = false then
    .error .range
  else
    let m := store m stackBase (List.replicate (stackTop - stackBase) 0)
    if stackTop - stackBase < 8 then .error .overflow
    else
      let platform := stackTop - 8
      let m := stackWriteBytes m platform auxv.platform
      if platform - stackBase < 16 then .error .overflow
      else
        let random := platform - 16
        let m := stackWriteBytes m random auxv.random
        match placeStrings stackBase envp random m with
        | none => .error .overflow
        | some (envpPointers, cursor, m) =>
          match placeStrings stackBase argv cursor m with
          | none => .error .overflow
          | some (argvPointers, cursor, m) => finishStack stackBase cursor random platform argvPointers envpPointers auxv m

/-! ## Copies of strings -/

/-- The block holds the string up to its first NUL, with it. -/
def CopyOf (text : Text) (b : Block) : Prop :=
  ∃ t n, text = some t ∧ t n = 0 ∧ (∀ i < n, t i ≠ 0) ∧ b.bytes = (List.range (n + 1)).map t

section Strings

variable {text : Text} {stackBase cursor cursor' high : Nat} {m m' : Mem} {blocks : List Block}

theorem CopyOf.ne_nil {b : Block} (h : CopyOf text b) : b.bytes ≠ [] := by
  obtain ⟨t, n, -, -, -, hbytes⟩ := h
  simp [hbytes]

theorem copies_ne_nil {texts : List Text} {copies : List Block} (h : Forall₂ CopyOf texts copies) :
    ∀ b ∈ copies, b.bytes ≠ [] := by
  induction h with
  | nil => simp
  | cons hcopy _ ih =>
    intro b hb
    rcases mem_cons.1 hb with rfl | hb
    · exact hcopy.ne_nil
    · exact ih b hb

theorem strlenBounded_ne_zero {maxBytes : Nat} (h : strlenBounded text maxBytes ≠ 0) :
    ∃ t n, text = some t ∧ t n = 0 ∧ (∀ i < n, t i ≠ 0) ∧ strlenBounded text maxBytes = n + 1 := by
  rcases text with _ | t
  · exact absurd rfl h
  unfold strlenBounded at h ⊢
  dsimp only at h ⊢
  cases hfind : (range maxBytes).find? fun i => t i = 0 with
  | none =>
    rw [hfind] at h
    exact absurd rfl h
  | some n =>
    obtain ⟨hzero, -, hbefore⟩ := find?_range_eq_some.1 hfind
    refine ⟨t, n, rfl, by simpa using hzero, fun i hi => ?_, rfl⟩
    simpa using hbefore i hi

section

variable (hbase : 0 < stackBase) (hcursor : stackBase ≤ cursor) (hhigh : cursor ≤ high)
  (hstacked : Stacked m cursor high blocks)
include hbase hcursor hhigh hstacked

theorem placeString_spec (h : placeString stackBase text cursor m = some (cursor', m')) :
    ∃ b, CopyOf text b ∧ b.address = cursor' ∧ stackBase ≤ cursor' ∧ cursor' ≤ high ∧ Stacked m' cursor' high (b :: blocks) := by
  unfold placeString at h
  dsimp only at h
  split_ifs at h with hbad
  obtain ⟨rfl, rfl⟩ := mk.inj (Option.some.inj h)
  obtain ⟨hne, hroom⟩ := not_or.1 hbad
  obtain ⟨t, n, rfl, hzero, hbefore, hlength⟩ := strlenBounded_ne_zero hne
  rw [hlength] at hroom ⊢
  have haddress : cursor - (n + 1) ≠ 0 := by omega
  rw [stackWriteBytes, if_neg haddress]
  refine ⟨⟨cursor - (n + 1), (range (n + 1)).map t⟩, ⟨t, n, rfl, hzero, hbefore, rfl⟩, rfl, by omega, by omega, ?_⟩
  refine hstacked.push ?_ hhigh
  have hbytes : (textBytes (some t) (n + 1)).length = n + 1 := by simp [textBytes]
  omega

/-- The last string is placed first, so the blocks stand in the order of the vector. -/
theorem placeStrings_spec {texts : List Text} {pointers : List Nat}
    (h : placeStrings stackBase texts cursor m = some (pointers, cursor', m')) :
    ∃ copies, Forall₂ CopyOf texts copies ∧ pointers = copies.map Block.address ∧ stackBase ≤ cursor' ∧ cursor' ≤ high ∧
      Stacked m' cursor' high (copies ++ blocks) := by
  induction texts generalizing pointers cursor' m' with
  | nil =>
    obtain ⟨rfl, hrest⟩ := mk.inj (Option.some.inj h)
    obtain ⟨rfl, rfl⟩ := mk.inj hrest
    exact ⟨[], .nil, rfl, hcursor, hhigh, hstacked⟩
  | cons text rest ih =>
    rw [placeStrings] at h
    rcases hrest : placeStrings stackBase rest cursor m with _ | ⟨pointers1, cursor1, m1⟩
    · simp [hrest] at h
    obtain ⟨copies, hcopies, rfl, hcursor1, hhigh1, hstacked1⟩ := ih hrest
    simp only [hrest] at h
    rcases hone : placeString stackBase text cursor1 m1 with _ | ⟨cursor2, m2⟩
    · simp [hone] at h
    rw [hone] at h
    obtain ⟨rfl, htail⟩ := mk.inj (Option.some.inj h)
    obtain ⟨rfl, rfl⟩ := mk.inj htail
    obtain ⟨b, hcopy, rfl, hcursor2, hhigh2, hstacked2⟩ := placeString_spec hbase hcursor1 hhigh1 hstacked1 hone
    exact ⟨b :: copies, .cons hcopy hcopies, rfl, hcursor2, hhigh2, hstacked2⟩

end

end Strings

/-! ## The table -/

theorem writeWords_eq (words : List UInt64) {cursor : Nat} (hcursor : 0 < cursor) (m : Mem) :
    writeWords words cursor m = (cursor + 8 * words.length, store m cursor (wordBytes words)) := by
  induction words generalizing cursor m with
  | nil =>
    refine Prod.ext rfl ?_
    funext x
    exact (store_outside (by simp [wordBytes]; omega)).symm
  | cons word rest ih =>
    have hbytes : wordBytes (word :: rest) = leBytes 8 word.toNat ++ wordBytes rest := rfl
    rw [writeWords, stackWriteU64, if_neg hcursor.ne', ih (by omega), hbytes, store_append, length_leBytes, length_cons]
    refine Prod.ext ?_ rfl
    omega

theorem length_startupWords (argv envp : List Nat) (random platform : Nat) (auxv : Auxv) :
    (startupWords argv envp random platform auxv).length = 1 + argv.length + 1 + envp.length + 1 + auxv.entries.length * 2 := by
  have hauxv : (auxv.entries.flatMap (auxvWords random platform)).length = auxv.entries.length * 2 := by
    simp [length_flatMap, auxvWords]
  simp only [startupWords, cons_append, length_cons, length_append, length_map, hauxv]
  omega

theorem finishStack_spec {stackBase cursor high random platform : Nat} {argv envp : List Nat} {auxv : Auxv} {m m' : Mem}
    {r : StackResult} {blocks : List Block} (hbase : 0 < stackBase) (hhigh : cursor ≤ high)
    (hstacked : Stacked m cursor high blocks)
    (h : finishStack stackBase cursor random platform argv envp auxv m = .ok (r, m')) :
    stackBase ≤ r.initialRsp ∧ r.initialRsp % 16 = 0 ∧ r.randomAddress = random ∧ r.platformAddress = platform ∧
      Stacked m' r.initialRsp high (⟨r.initialRsp, wordBytes (startupWords argv envp random platform auxv)⟩ :: blocks) := by
  unfold finishStack at h
  dsimp only at h
  rw [← length_startupWords argv envp random platform auxv] at h
  generalize hcount : (startupWords argv envp random platform auxv).length * 8 = pointerBytes at h
  split_ifs at h with hroom hlow hwritten
  obtain ⟨rfl, rfl⟩ := mk.inj (Except.ok.inj h)
  have hpos : 0 < (cursor - pointerBytes) / 16 * 16 := by omega
  rw [writeWords_eq _ hpos]
  obtain ⟨habove, hbelow⟩ := not_or.1 hlow
  refine ⟨Nat.le_of_not_lt habove, Nat.mul_mod_left _ _, rfl, rfl, ?_⟩
  refine hstacked.push ?_ hhigh
  rw [length_wordBytes]
  omega

/-- The pages of a process lie in its window, which is not at zero. -/
theorem stackRangeWritable_pos {p : PageTable} {stackBase stackTop : Nat} (h : stackRangeWritable p stackBase stackTop) :
    0 < stackBase := by
  simp only [stackRangeWritable, Bool.and_eq_true, decide_eq_true_eq, all_eq_true, mem_range] at h
  obtain ⟨⟨⟨hlt, hbase⟩, htop⟩, hpages⟩ := h
  have hpage : p.present (pageAt stackBase 0) := by
    refine (hpages 0 ?_).1
    simp only [pageBytes] at hbase htop ⊢
    omega
  rw [pageAt, Nat.zero_mul, Nat.add_zero] at hpage
  have hwindow : Vma.inUserWindow stackBase := by
    by_contra hout
    simp [PageTable.present, PageTable.lookup, PageTable.hasSlot, hout] at hpage
  rw [Vma.inUserWindow, Bool.and_eq_true] at hwindow
  have hdirectory : stackBase / 2 ^ 30 % 512 = 1 := of_decide_eq_true hwindow.2
  omega

theorem auxv_terminated {auxv : Auxv} (h : auxvHasNullTerminator auxv) : ∃ front, auxv.entries = front ++ [⟨atNull, 0⟩] := by
  unfold auxvHasNullTerminator at h
  rcases hlast : auxv.entries.getLast? with _ | last
  · simp [hlast] at h
  rw [hlast] at h
  obtain ⟨front, hfront⟩ := getLast?_eq_some_iff.1 hlast
  obtain ⟨⟨-, htype⟩, hvalue⟩ : (auxv.entries.length ≤ auxvMaxEntries ∧ last.type = atNull) ∧ last.value = 0 := by simpa using h
  refine ⟨front, ?_⟩
  rw [hfront, ← htype, ← hvalue]

/-- The whole stack of an accepted call, from the stack pointer to the top: the table, the strings, the random bytes and the
platform name, each block below the next. -/
theorem initialStack_layout (p : PageTable) (known : Bool) (stackBase stackTop : UInt64) (argv envp : List Text) (auxv : Auxv)
    (m m' : Mem) (r : StackResult) (h : buildInitialStack p known stackBase stackTop argv envp auxv m = .ok (r, m')) :
    r.initialRsp % 16 = 0 ∧ stackBase.toNat ≤ r.initialRsp ∧
      (∃ front, auxv.entries = front ++ [⟨atNull, 0⟩]) ∧
      ∃ argvCopies envpCopies : List Block,
        Forall₂ CopyOf argv argvCopies ∧ Forall₂ CopyOf envp envpCopies ∧
        ((argvCopies ++ envpCopies).map Block.address).Nodup ∧
        Stacked m' r.initialRsp stackTop.toNat
          (⟨r.initialRsp, wordBytes (startupWords (argvCopies.map Block.address) (envpCopies.map Block.address)
              r.randomAddress r.platformAddress auxv)⟩ ::
            (argvCopies ++ (envpCopies ++ [⟨r.randomAddress, auxv.random⟩, ⟨r.platformAddress, auxv.platform⟩]))) := by
  unfold buildInitialStack at h
  dsimp only at h
  split_ifs at h with hargs hrange hplatform hrandom
  obtain ⟨-, hrange⟩ := not_or.1 hrange
  obtain ⟨-, hwritable⟩ := not_or.1 hrange
  have hbase := stackRangeWritable_pos (Bool.eq_true_of_not_eq_false hwritable)
  generalize stackBase.toNat = low at *
  generalize stackTop.toNat = top at *
  generalize hcleared : store m low (replicate (top - low) 0) = m₀ at h
  -- the two blocks of fixed size at the top
  have hone : Stacked (stackWriteBytes m₀ (top - 8) auxv.platform) (top - 8) top [⟨top - 8, auxv.platform⟩] := by
    rw [stackWriteBytes, if_neg (by omega)]
    refine (Stacked.nil m₀ top top).push ?_ (Nat.le_refl _)
    rw [auxv.platform_length]
    omega
  have htwo : Stacked (stackWriteBytes (stackWriteBytes m₀ (top - 8) auxv.platform) (top - 8 - 16) auxv.random) (top - 8 - 16) top
      [⟨top - 8 - 16, auxv.random⟩, ⟨top - 8, auxv.platform⟩] := by
    rw [stackWriteBytes, if_neg (by omega)]
    refine hone.push ?_ (by omega)
    rw [auxv.random_length]
    omega
  generalize stackWriteBytes (stackWriteBytes m₀ (top - 8) auxv.platform) (top - 8 - 16) auxv.random = m₁ at h htwo
  rcases henvp : placeStrings low envp (top - 8 - 16) m₁ with _ | ⟨envpPointers, cursor, m₂⟩
  · simp [henvp] at h
  obtain ⟨envpCopies, hcopies, rfl, hcursor, hhigh, hstacked⟩ := placeStrings_spec hbase (by omega) (by omega) htwo henvp
  simp only [henvp] at h
  rcases hargv : placeStrings low argv cursor m₂ with _ | ⟨argvPointers, cursor', m₃⟩
  · simp [hargv] at h
  obtain ⟨argvCopies, hcopies', rfl, -, hhigh', hstacked'⟩ := placeStrings_spec hbase hcursor hhigh hstacked hargv
  rw [hargv] at h
  obtain ⟨hrsp, haligned, hrand, hplat, hall⟩ := finishStack_spec hbase hhigh' hstacked' h
  rw [← hrand, ← hplat] at hall
  have hterminated : auxvHasNullTerminator auxv := by
    simp only [not_or, Bool.not_eq_false] at hargs
    exact hargs.2.2.2
  have hdistinct : ((argvCopies ++ envpCopies).map Block.address).Nodup := by
    have hstrings : (argvCopies ++ envpCopies).Sublist
        (argvCopies ++ (envpCopies ++ [⟨top - 8 - 16, auxv.random⟩, ⟨top - 8, auxv.platform⟩])) := by
      rw [← append_assoc]
      exact sublist_append_left _ _
    refine (hstacked'.sublist hstrings).addresses_nodup fun b hb => ?_
    rcases mem_append.1 hb with hb | hb
    · exact copies_ne_nil hcopies' b hb
    · exact copies_ne_nil hcopies b hb
  exact ⟨haligned, hrsp, auxv_terminated hterminated, argvCopies, envpCopies, hcopies', hcopies, hdistinct, hall⟩

/-- A page table with one writable page. -/
def onePage : PageTable := (PageTable.empty.install 16 0x44000000 0x200000 (Vma.protRead ||| protWrite)).2

theorem random_zeros_length : (replicate 16 (0 : UInt8)).length = 16 := length_replicate

theorem platform_zeros_length : (replicate 8 (0 : UInt8)).length = 8 := length_replicate

def smallAuxv : Auxv where
  entries := [⟨atRandom, 0⟩, ⟨atNull, 0⟩]
  random := List.replicate 16 0
  platform := List.replicate 8 0
  random_length := random_zeros_length
  platform_length := platform_zeros_length

/-- A string of one letter. -/
def letter (c : UInt8) : Text := some fun i => if i = 0 then c else 0

theorem CopyOf.letter {c : UInt8} {b : Block} (hc : c ≠ 0) (h : CopyOf (letter c) b) : b = ⟨b.address, [c, 0]⟩ := by
  obtain ⟨t, n, ht, hzero, hbefore, hbytes⟩ := h
  obtain rfl := Option.some.inj ht
  obtain rfl : n = 1 := by
    by_contra hn
    rcases Nat.lt_or_gt_of_ne hn with hlt | hgt
    · obtain rfl : n = 0 := by omega
      exact hc hzero
    · exact hbefore 1 hgt rfl
  obtain ⟨address, bytes⟩ := b
  exact congrArg (Block.mk address) hbytes

/-- The program `a` with the environment `b`, on a stack of one page: the two strings stand above the table that points at
them, below the random bytes and the platform name. -/
theorem initialStack_layout_small :
    ∃ r m' a b, buildInitialStack onePage true 0x44000000 0x44001000 [letter 0x61] [letter 0x62] smallAuxv (fun _ => 0) =
        .ok (r, m') ∧ r.initialRsp % 16 = 0 ∧ 0x44000000 ≤ r.initialRsp ∧ a ≠ b ∧
      Stacked m' r.initialRsp 0x44001000
        [⟨r.initialRsp, wordBytes (startupWords [a] [b] r.randomAddress r.platformAddress smallAuxv)⟩, ⟨a, [0x61, 0]⟩,
          ⟨b, [0x62, 0]⟩, ⟨r.randomAddress, smallAuxv.random⟩, ⟨r.platformAddress, smallAuxv.platform⟩] := by
  have hok : (buildInitialStack onePage true 0x44000000 0x44001000 [letter 0x61] [letter 0x62] smallAuxv (fun _ => 0)).isOk := by
    decide +kernel
  cases hbuild : buildInitialStack onePage true 0x44000000 0x44001000 [letter 0x61] [letter 0x62] smallAuxv (fun _ => 0) with
  | error e =>
    rw [hbuild] at hok
    cases hok
  | ok x =>
    obtain ⟨haligned, hbase, -, argvCopies, envpCopies, hargv, henvp, hdistinct, hstacked⟩ :=
      initialStack_layout _ _ _ _ _ _ _ _ _ _ hbuild
    obtain ⟨a, _, ha, hnil, rfl⟩ := forall₂_cons_left_iff.1 hargv
    obtain ⟨b, _, hb, hnil', rfl⟩ := forall₂_cons_left_iff.1 henvp
    obtain rfl := forall₂_nil_left_iff.1 hnil
    obtain rfl := forall₂_nil_left_iff.1 hnil'
    have hne : a.address ≠ b.address := by simpa using hdistinct
    rw [ha.letter (by decide), hb.letter (by decide)] at hstacked
    exact ⟨x.1, x.2, a.address, b.address, rfl, haligned, hbase, hne, hstacked⟩

end LimitlessOS.Elf
