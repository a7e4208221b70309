/-
  LimitlessOS.Linux.Paths — canonical paths (`arch/x86_64/linux_abi.c`).

  `linux_abi64_normalize_absolute_path` reads the input segment by segment and keeps the path
  so far in the output buffer: a name is appended, and for `..` the buffer is shortened to
  before its last slash. A relative path is put behind the working directory, or behind the
  path of a directory descriptor, in a buffer of 128 bytes.

  A byte range is a list, and null pointers do not occur. Left out are the counters.

  Proved:
  - `normalize_eq`: the loop is that of a stack of segments, and it fails exactly when the
    path so far does not fit the buffer.
  - `canonicalize_relative`: a relative path is one below its base.
  - `normalize_refines`: the path is that of the stack of its segments, it is written without
    empty segments and dots, a second normalization changes nothing, and a path can be
    canonicalized in two steps.
-/
import LimitlessOS.Lib.Segments
import Mathlib.Data.List.TakeWhile

namespace LimitlessOS.Linux

open Lib List Option

def slash : UInt8 := 0x2F
def dot : List UInt8 := [0x2E]
def dotdot : List UInt8 := [0x2E, 0x2E]

/-- `LINUX_VFS64_MAX_PATH_BYTES` -/
def maxPathBytes : Nat := 128

/-- `PERSONA64_LINUX_CWD_MAX_BYTES` -/
def cwdMaxBytes : Nat := 128

/-- `LINUX_ABI64_AT_FDCWD` -/
def atFdcwd : UInt64 := 0xFFFFFFFFFFFFFF9C

/-- `FD64_TABLE_LIMIT` -/
def fdTableLimit : UInt64 := 1024

/-! ## The output buffer -/

/-- `linux_abi64_append_path_byte` -/
def appendPathByte (capacity : Nat) (output : List UInt8) (byte : UInt8) : Option (List UInt8) :=
  if capacity ≤ output.length then none else some (output ++ [byte])

/-- `linux_abi64_append_path_bytes` -/
def appendPathBytes (capacity : Nat) (output input : List UInt8) : Option (List UInt8) :=
  input.foldlM (appendPathByte capacity) output

/-- The loop that goes back to the last slash. -/
def lastSlash (output : List UInt8) : Nat → Nat
  | 0 => 0
  | cursor + 1 => if 1 < cursor + 1 ∧ output[cursor]? ≠ some slash then lastSlash output cursor else cursor + 1

/-- The output without its last segment. -/
def popSegment (output : List UInt8) : List UInt8 :=
  if 1 < output.length then
    let cursor := lastSlash output output.length
    output.take (if 1 < cursor then cursor - 1 else 1)
  else output

/-- The output with one segment more. -/
def pushSegment (capacity : Nat) (output segment : List UInt8) : Option (List UInt8) :=
  match if 1 < output.length then appendPathByte capacity output slash else some output with
  | none => none
  | some output => appendPathBytes capacity output segment

/-! ## Normalization -/

theorem dropWhile_length_lt {rest : List UInt8} (h : rest.dropWhile (· = slash) ≠ []) :
    ((rest.dropWhile (· = slash)).dropWhile (· ≠ slash)).length < rest.length := by
  cases hrest : rest.dropWhile (· = slash) with
  | nil => exact absurd hrest h
  | cons x xs =>
    have hx : x ≠ slash := by
      have := head_dropWhile_not (p := (decide <| · = slash)) (l := rest) h
      simp only [hrest, head_cons] at this
      simpa using this
    rw [dropWhile_cons_of_pos (by simpa using hx)]
    have hle : (x :: xs).length ≤ rest.length := hrest ▸ (dropWhile_sublist _).length_le
    have hdrop : (xs.dropWhile (· ≠ slash)).length ≤ xs.length := (dropWhile_sublist _).length_le
    rw [length_cons] at hle
    omega

/-- The loop of `linux_abi64_normalize_absolute_path`: what is left of the input, and the output. -/
def normalizeLoop (capacity : Nat) (rest output : List UInt8) : Option (List UInt8) :=
  if rest.dropWhile (· = slash) = [] then some output
  else
    let segment := (rest.dropWhile (· = slash)).takeWhile (· ≠ slash)
    let left := (rest.dropWhile (· = slash)).dropWhile (· ≠ slash)
    if segment = dot then normalizeLoop capacity left output
    else if segment = dotdot then normalizeLoop capacity left (popSegment output)
    else
      match pushSegment capacity output segment with
      | none => none
      | some output => normalizeLoop capacity left output
termination_by rest.length
decreasing_by all_goals exact dropWhile_length_lt ‹_›

/-- `linux_abi64_normalize_absolute_path` -/
def normalizeAbsolutePath (input : List UInt8) (capacity : Nat) : Option (List UInt8) :=
  if input = [] ∨ capacity = 0 ∨ input.head? ≠ some slash then none
  else
    match appendPathByte capacity [] slash with
    | none => none
    | some output => normalizeLoop capacity input output

/-! ## Canonical paths -/

/-- What the processes have: the working directory of a Linux persona (`linux_cwd`), `linux_vfs64_fd_path` and
`linux_vfs64_path_is_directory`. -/
structure PathEnv where
  linuxCwd : UInt32 → Option (List UInt8)
  fdPath : UInt32 → UInt32 → Option (List UInt8)
  pathIsDirectory : UInt32 → List UInt8 → Bool

/-- The directory that a relative path is below. -/
def basePath (env : PathEnv) (pid : UInt32) (dirfd : UInt64) : Option (List UInt8) :=
  if dirfd = atFdcwd then
    match env.linuxCwd pid with
    | none => none
    | some cwd => if cwd.length = 0 ∨ cwdMaxBytes ≤ cwd.length ∨ cwd.head? ≠ some slash then none else some cwd
  else if fdTableLimit ≤ dirfd then none
  else
    match env.fdPath pid dirfd.toUInt32 with
    | none => none
    | some path => if env.pathIsDirectory pid path then some path else none

/-- The base, a slash and the input in a buffer of 128 bytes. -/
def combine (base input : List UInt8) : Option (List UInt8) :=
  match appendPathBytes maxPathBytes [] base with
  | none => none
  | some combined =>
    match if 1 < combined.length then appendPathByte maxPathBytes combined slash else some combined with
    | none => none
    | some combined => appendPathBytes maxPathBytes combined input

/-- `linux_abi64_canonicalize_path` -/
def canonicalizePath (env : PathEnv) (pid : UInt32) (dirfd : UInt64) (input : List UInt8) (capacity : Nat) :
    Option (List UInt8) :=
  if input = [] ∨ capacity = 0 ∨ maxPathBytes < input.length then none
  else if input.head? = some slash then normalizeAbsolutePath input capacity
  else
    match basePath env pid dirfd with
    | none => none
    | some base =>
      match combine base input with
      | none => none
      | some combined => normalizeAbsolutePath combined capacity

/-- `linux_abi64_sys_chdir`, with `linux_abi64_set_cwd`: the working directory becomes the canonical path. -/
def chdir (env : PathEnv) (pid : UInt32) (input : List UInt8) : Option PathEnv :=
  match canonicalizePath env pid atFdcwd input maxPathBytes with
  | none => none
  | some path =>
    if env.linuxCwd pid = none ∨ env.pathIsDirectory pid path = false ∨ path.length = 0 ∨ cwdMaxBytes ≤ path.length then none
    else some { env with linuxCwd := fun p => if p = pid then some path else env.linuxCwd p }

/-! ## The buffer as a stack of segments -/

section Buffer

open Segments

variable {capacity : Nat} {output input seg : List UInt8} {stack : List (List UInt8)}

theorem appendPathBytes_eq (hfits : output.length ≤ capacity) :
    appendPathBytes capacity output input =
      if (output ++ input).length ≤ capacity then some (output ++ input) else none := by
  induction input generalizing output with
  | nil => simp [appendPathBytes, hfits]
  | cons byte input ih =>
    rw [appendPathBytes, foldlM_cons, appendPathByte]
    split
    · rw [if_neg (by rw [length_append, length_cons]; omega)]
      rfl
    · rw [append_cons output byte input]
      refine ih ?_
      rw [length_append, length_singleton]
      omega

theorem render_length_gt_one (hclean : Clean slash dot dotdot stack) : 1 < (render slash stack).length ↔ stack ≠ [] := by
  cases stack with
  | nil => simp [render]
  | cons seg stack =>
    have hseg := length_pos_of_ne_nil (hclean seg (mem_cons_self ..)).ne_nil
    rw [render, if_neg (cons_ne_nil _ _), flatMap_cons, length_append, length_cons]
    simp only [ne_eq, reduceCtorEq, not_false_eq_true, iff_true]
    omega

theorem pushSegment_render (hclean : Clean slash dot dotdot stack) (hfits : (render slash stack).length ≤ capacity) :
    pushSegment capacity (render slash stack) seg =
      if (render slash (stack ++ [seg])).length ≤ capacity then some (render slash (stack ++ [seg])) else none := by
  unfold pushSegment
  by_cases hnil : stack = []
  · subst hnil
    have hpath : render slash ([] ++ [seg]) = render slash [] ++ seg := by simp [render]
    rw [if_neg (by simp [render]), hpath]
    exact appendPathBytes_eq hfits
  have hpath : render slash (stack ++ [seg]) = render slash stack ++ [slash] ++ seg := by
    rw [render_append hnil]
    simp
  rw [if_pos ((render_length_gt_one hclean).2 hnil), appendPathByte, hpath]
  by_cases hfull : capacity ≤ (render slash stack).length
  · rw [if_pos hfull, if_neg (by simp only [length_append, length_singleton]; omega)]
  · rw [if_neg hfull]
    exact appendPathBytes_eq (by simp only [length_append, length_singleton]; omega)

/-- The search stops behind the slash, for the segment has none. -/
theorem lastSlash_append (front : List UInt8) (hseg : slash ∉ seg) {n : Nat} (hn : n ≤ seg.length) :
    lastSlash (front ++ slash :: seg) (front.length + 1 + n) = front.length + 1 := by
  induction n with
  | zero =>
    rw [Nat.add_zero, lastSlash, if_neg]
    simp
  | succ n ih =>
    have hbyte : (front ++ slash :: seg)[front.length + 1 + n]? = seg[n]? := by
      rw [getElem?_append_right (by omega), show front.length + 1 + n - front.length = n + 1 by omega,
        getElem?_cons_succ]
    have hne : seg[n]? ≠ some slash := fun h => hseg (mem_of_getElem? h)
    rw [← Nat.add_assoc, lastSlash, hbyte, if_pos ⟨by omega, hne⟩]
    exact ih (by omega)

theorem popSegment_render (hclean : Clean slash dot dotdot stack) :
    popSegment (render slash stack) = render slash stack.dropLast := by
  unfold popSegment
  rcases eq_nil_or_concat' stack with rfl | ⟨rest, seg, rfl⟩
  · rfl
  have hseg := hclean seg (by simp)
  have hpath : render slash (rest ++ [seg]) = rest.flatMap (slash :: ·) ++ slash :: seg := by simp [render]
  rw [if_pos ((render_length_gt_one hclean).2 (by simp)), dropLast_concat, hpath]
  have hcursor : lastSlash (rest.flatMap (slash :: ·) ++ slash :: seg) (rest.flatMap (slash :: ·) ++ slash :: seg).length =
      (rest.flatMap (slash :: ·)).length + 1 := by
    rw [length_append, length_cons, show ∀ a b : Nat, a + (b + 1) = a + 1 + b by omega]
    exact lastSlash_append _ hseg.no_sep (Nat.le_refl _)
  simp only [hcursor]
  by_cases hrest : rest = []
  · subst hrest
    rfl
  rw [if_pos, Nat.add_sub_cancel, take_left', render, if_neg hrest]
  · rfl
  · cases rest with
    | nil => exact absurd rfl hrest
    | cons first rest => simp

/-! ## The loop -/

theorem splitOn_eq_cons (left : List UInt8) (hleft : left = [] ∨ ∃ more, left = slash :: more) (hseg : slash ∉ seg) :
    ∃ more, left.splitOn slash = [] :: more ∧ (seg ++ left).splitOn slash = seg :: more := by
  rcases hleft with rfl | ⟨more, rfl⟩
  · exact ⟨[], by simp, by rw [append_nil, splitOn_eq_singleton hseg]⟩
  · have hnone : slash ∉ ([] : List UInt8) := not_mem_nil
    exact ⟨more.splitOn slash, splitOn_append_cons_self_of_not_mem hnone more,
      splitOn_append_cons_self_of_not_mem hseg more⟩

theorem dropWhile_slash {path left : List UInt8} (h : left = path.dropWhile (· ≠ slash)) :
    left = [] ∨ ∃ more, left = slash :: more := by
  cases hleft : left with
  | nil => exact .inl rfl
  | cons x more =>
    have hstop := head_dropWhile_not (p := (decide <| · ≠ slash)) (l := path) (by rw [← h, hleft]; exact cons_ne_nil _ _)
    simp only [← h, hleft, head_cons] at hstop
    exact .inr ⟨more, by rw [show x = slash by simpa using hstop]⟩

theorem normalizeLoop_slash (rest : List UInt8) :
    normalizeLoop capacity (slash :: rest) output = normalizeLoop capacity rest output := by
  conv_lhs => rw [normalizeLoop]
  conv_rhs => rw [normalizeLoop]
  rw [dropWhile_cons_of_pos (by simp)]

theorem normalizeLoop_segment {x : UInt8} {xs left : List UInt8} (hx : x ≠ slash)
    (hseg : seg = (x :: xs).takeWhile (· ≠ slash)) (hleft : left = (x :: xs).dropWhile (· ≠ slash)) :
    normalizeLoop capacity (x :: xs) output =
      if seg = dot then normalizeLoop capacity left output
      else if seg = dotdot then normalizeLoop capacity left (popSegment output)
      else (pushSegment capacity output seg).bind (normalizeLoop capacity left) := by
  rw [normalizeLoop, dropWhile_cons_of_neg (by simpa using hx), if_neg (cons_ne_nil _ _), ← hseg, ← hleft]
  dsimp only
  cases pushSegment capacity output seg <;> rfl

/-- The loop enters the segments of what is left, one after the other. -/
theorem normalizeLoop_eq {rest : List UInt8} (hclean : Clean slash dot dotdot stack)
    (hfits : (render slash stack).length ≤ capacity) :
    normalizeLoop capacity rest (render slash stack) =
      ((rest.splitOn slash).foldlM (enterWithin slash dot dotdot capacity) stack).map (render slash) := by
  induction hn : rest.length using Nat.strong_induction_on generalizing rest stack with
  | _ n ih =>
    subst hn
    cases rest with
    | nil =>
      rw [normalizeLoop, dropWhile_nil, if_pos rfl, splitOn_nil, foldlM_cons, enterWithin_nil hfits]
      rfl
    | cons x xs =>
      by_cases hx : x = slash
      · subst hx
        have hnone : slash ∉ ([] : List UInt8) := not_mem_nil
        rw [normalizeLoop_slash, ih xs.length (by simp) hclean hfits rfl, ← nil_append (slash :: xs),
          splitOn_append_cons_self_of_not_mem hnone, foldlM_cons, enterWithin_nil hfits]
        rfl
      obtain ⟨seg, hseg⟩ : ∃ seg, seg = (x :: xs).takeWhile (· ≠ slash) := ⟨_, rfl⟩
      obtain ⟨left, hleft⟩ : ∃ left, left = (x :: xs).dropWhile (· ≠ slash) := ⟨_, rfl⟩
      have hno : slash ∉ seg := hseg ▸ fun h => by simpa using mem_takeWhile_imp h
      have hcut : x :: xs = seg ++ left := by rw [hseg, hleft, takeWhile_append_dropWhile]
      have hname : seg ≠ [] := by simp [hseg, hx]
      have hshort : left.length < (x :: xs).length := by
        rw [hcut, length_append]
        have := length_pos_of_ne_nil hname
        omega
      obtain ⟨more, hmore, hall⟩ := splitOn_eq_cons left (dropWhile_slash hleft) hno
      have hloop : ∀ {stack : List (List UInt8)}, Clean slash dot dotdot stack → (render slash stack).length ≤ capacity →
          normalizeLoop capacity left (render slash stack) =
            (more.foldlM (enterWithin slash dot dotdot capacity) stack).map (render slash) := by
        intro stack hclean hfits
        rw [ih left.length hshort hclean hfits rfl, hmore, foldlM_cons, enterWithin_nil hfits]
        rfl
      rw [normalizeLoop_segment hx hseg hleft, hcut, hall, foldlM_cons, enterWithin]
      by_cases hdot : seg = dot
      · subst hdot
        rw [if_pos rfl, enter_here, if_pos hfits]
        exact hloop hclean hfits
      by_cases hup : seg = dotdot
      · have hpop := Nat.le_trans (render_dropLast_length_le stack) hfits
        subst hup
        rw [if_pos rfl, enter_up (by decide) (by decide), if_pos hpop, popSegment_render hclean]
        exact hloop (fun s hs => hclean s ((dropLast_sublist stack).subset hs)) hpop
      have hname : Name slash dot dotdot seg := ⟨hname, hdot, hup, hno⟩
      rw [if_neg hup, enter_name hname, pushSegment_render hclean hfits]
      split_ifs with hpush
      · refine hloop (fun s hs => ?_) hpush
        rcases mem_append.1 hs with hs | hs
        · exact hclean s hs
        · exact mem_singleton.1 hs ▸ hname
      · rfl

end Buffer

/-! ## Normal paths -/

section Normal

open Segments

variable {capacity : Nat} {input out base name : List UInt8} {env env' : PathEnv} {pid : UInt32} {dirfd : UInt64}
  {stack : List (List UInt8)}

/-- The path is the root, or a slash and a name one or more times. -/
def Canonical (path : List UInt8) : Prop :=
  path = [slash] ∨ ∃ segs, segs ≠ [] ∧ path.splitOn slash = [] :: segs ∧ Clean slash dot dotdot segs

theorem render_nil_length_le (hroom : capacity ≠ 0) : (render slash []).length ≤ capacity := Nat.pos_of_ne_zero hroom

theorem normalize_eq (capacity : Nat) (input : List UInt8) :
    normalizeAbsolutePath input capacity =
      if input.head? = some slash ∧ capacity ≠ 0 then
        ((input.splitOn slash).foldlM (enterWithin slash dot dotdot capacity) []).map (render slash)
      else none := by
  unfold normalizeAbsolutePath
  by_cases hstart : input.head? = some slash ∧ capacity ≠ 0
  · have hinput : input ≠ [] := by
      rintro rfl
      simp at hstart
    have hroom : ¬ capacity ≤ 0 := by omega
    rw [if_neg (by simp [hinput, hstart]), if_pos hstart, appendPathByte, length_nil, if_neg hroom]
    have hclean : Clean slash dot dotdot [] := fun _ h => by simp at h
    exact normalizeLoop_eq hclean (render_nil_length_le hstart.2)
  · rw [if_neg hstart, if_pos]
    by_cases hcapacity : capacity = 0
    · exact .inr (.inl hcapacity)
    · exact .inr (.inr fun h => hstart ⟨h, hcapacity⟩)

theorem normalize_some (h : normalizeAbsolutePath input capacity = some out) :
    out = render slash (resolve slash dot dotdot input) ∧ out.length ≤ capacity ∧ input.head? = some slash := by
  rw [normalize_eq] at h
  split_ifs at h with hstart
  obtain ⟨stack, hstack, rfl⟩ := map_eq_some_iff.1 h
  obtain ⟨rfl, hfits⟩ := foldlM_enterWithin (render_nil_length_le hstart.2) hstack
  exact ⟨rfl, hfits, hstart.1⟩

theorem render_head (stack : List (List UInt8)) : (render slash stack).head? = some slash := by
  cases stack <;> simp [render]

theorem normalize_render (hclean : Clean slash dot dotdot stack) (hfits : (render slash stack).length ≤ capacity) :
    normalizeAbsolutePath (render slash stack) capacity = some (render slash stack) := by
  have hne : render slash stack ≠ [] := render_ne_nil stack
  have hpos := length_pos_of_ne_nil hne
  rw [normalize_eq, if_pos ⟨render_head stack, by omega⟩, foldlM_enterWithin_render hclean hfits]
  rfl

theorem render_canonical (hclean : Clean slash dot dotdot stack) : Canonical (render slash stack) := by
  by_cases hnil : stack = []
  · exact .inl (by rw [render, if_pos hnil])
  · exact .inr ⟨stack, hnil, by rw [render, if_neg hnil, splitOn_flatMap hclean], hclean⟩

theorem render_getLast (hclean : Clean slash dot dotdot stack) (hroot : render slash stack ≠ [slash]) :
    (render slash stack).getLast? ≠ some slash := by
  rcases eq_nil_or_concat' stack with rfl | ⟨rest, seg, rfl⟩
  · exact absurd (by rw [render, if_pos rfl]) hroot
  · have hseg := hclean seg (by simp)
    have hpath : render slash (rest ++ [seg]) = rest.flatMap (slash :: ·) ++ [slash] ++ seg := by simp [render]
    rw [hpath, getLast?_append_of_ne_nil _ hseg.ne_nil]
    exact fun h => hseg.no_sep (mem_of_getLast? h)

/-! ## Relative paths -/

/-- What stands in the buffer when everything fits. -/
def joined (base input : List UInt8) : List UInt8 := (if 1 < base.length then base ++ [slash] else base) ++ input

theorem combine_eq (base input : List UInt8) :
    combine base input = if (joined base input).length ≤ maxPathBytes then some (joined base input) else none := by
  unfold combine joined
  rw [appendPathBytes_eq (Nat.zero_le _), nil_append]
  by_cases hbase : base.length ≤ maxPathBytes
  · rw [if_pos hbase]
    dsimp only
    by_cases hlong : 1 < base.length
    · rw [if_pos hlong, if_pos hlong, appendPathByte]
      by_cases hfull : maxPathBytes ≤ base.length
      · rw [if_pos hfull, if_neg]
        simp only [length_append, length_singleton]
        omega
      · rw [if_neg hfull]
        refine appendPathBytes_eq ?_
        rw [length_append, length_singleton]
        omega
    · rw [if_neg hlong, if_neg hlong]
      exact appendPathBytes_eq hbase
  · rw [if_neg hbase, if_neg]
    split <;> simp only [length_append, length_singleton] <;> omega

/-- Behind the root no slash is written, and none is needed. -/
theorem normalize_joined (hbase : base.head? = some slash) :
    normalizeAbsolutePath (joined base input) capacity = normalizeAbsolutePath (base ++ slash :: input) capacity := by
  unfold joined
  split_ifs with hlong
  · rw [append_assoc, singleton_append]
  obtain ⟨rest, rfl⟩ := head?_eq_some_iff.1 hbase
  obtain rfl : rest = [] := by
    rw [length_cons] at hlong
    exact eq_nil_of_length_eq_zero (by omega)
  have hnone : slash ∉ ([] : List UInt8) := not_mem_nil
  have hsplit : ∀ path, (slash :: path).splitOn slash = [] :: path.splitOn slash :=
    fun path => splitOn_append_cons_self_of_not_mem hnone path
  rw [singleton_append, singleton_append, normalize_eq, normalize_eq]
  by_cases hroom : capacity = 0
  · rw [if_neg (by simp [hroom]), if_neg (by simp [hroom])]
  · rw [if_pos ⟨rfl, hroom⟩, if_pos ⟨rfl, hroom⟩, hsplit, hsplit, hsplit]
    simp only [foldlM_cons, enterWithin_nil (render_nil_length_le hroom), bind_eq_bind, bind_some]

theorem canonicalize_relative (hinput : input.head? ≠ some slash) (h : canonicalizePath env pid dirfd input capacity = some out) :
    ∃ base, basePath env pid dirfd = some base ∧ normalizeAbsolutePath (base ++ slash :: input) capacity = some out := by
  unfold canonicalizePath at h
  split_ifs at h
  rcases hbase : basePath env pid dirfd with _ | base
  · simp [hbase] at h
  simp only [hbase, combine_eq] at h
  split_ifs at h
  have hhead : base.head? = some slash := by
    have hstart := (normalize_some h).2.2
    unfold joined at hstart
    cases base with
    | nil => exact absurd (by simpa using hstart) hinput
    | cons x rest => split_ifs at hstart <;> simpa using hstart
  exact ⟨base, rfl, by rw [← normalize_joined hhead]; exact h⟩

theorem canonicalize_fits (hne : input ≠ []) (hinput : input.head? ≠ some slash) (hbase : basePath env pid dirfd = some base)
    (hhead : base.head? = some slash) (hfits : (base ++ slash :: input).length ≤ maxPathBytes) :
    canonicalizePath env pid dirfd input capacity = normalizeAbsolutePath (base ++ slash :: input) capacity := by
  have hlength : base.length + (input.length + 1) ≤ maxPathBytes := by simpa using hfits
  have hjoined : (joined base input).length ≤ maxPathBytes := by
    unfold joined
    split <;> simp only [length_append, length_singleton] <;> omega
  unfold canonicalizePath
  by_cases hroom : capacity = 0
  · rw [if_pos (.inr (.inl hroom)), normalize_eq, if_neg (by simp [hroom])]
  · rw [if_neg (by simp only [hne, hroom, false_or]; omega), if_neg hinput, hbase]
    dsimp only
    rw [combine_eq, if_pos hjoined]
    exact normalize_joined hhead

/-- The path that a canonical path is the normal form of. -/
theorem canonicalize_some (h : canonicalizePath env pid dirfd input capacity = some out) :
    ∃ front, (input.head? = some slash ∧ front = [] ∨
        input.head? ≠ some slash ∧ ∃ base, basePath env pid dirfd = some base ∧ front = base ++ [slash]) ∧
      out = render slash (resolve slash dot dotdot (front ++ input)) := by
  by_cases hinput : input.head? = some slash
  · refine ⟨[], .inl ⟨hinput, rfl⟩, ?_⟩
    unfold canonicalizePath at h
    split_ifs at h
    exact (normalize_some h).1
  · obtain ⟨base, hbase, hpath⟩ := canonicalize_relative hinput h
    refine ⟨base ++ [slash], .inr ⟨hinput, base, hbase, rfl⟩, ?_⟩
    rw [append_assoc, singleton_append]
    exact (normalize_some hpath).1

theorem chdir_some {dir : List UInt8} (h : chdir env pid dir = some env') :
    ∃ cwd, canonicalizePath env pid atFdcwd dir maxPathBytes = some cwd ∧ env'.linuxCwd pid = some cwd := by
  unfold chdir at h
  rcases hcwd : canonicalizePath env pid atFdcwd dir maxPathBytes with _ | cwd
  · simp [hcwd] at h
  simp only [hcwd] at h
  split_ifs at h
  obtain rfl := some.inj h
  exact ⟨cwd, rfl, if_pos rfl⟩

theorem basePath_cwd (h : basePath env pid atFdcwd = some base) : env.linuxCwd pid = some base := by
  unfold basePath at h
  rw [if_pos rfl] at h
  rcases hcwd : env.linuxCwd pid with _ | cwd
  · simp [hcwd] at h
  simp only [hcwd] at h
  split_ifs at h
  exact h

/-- A change of directory and a name, or both in one path. -/
theorem canonicalize_two_steps {dir one two : List UInt8} (hname : name.head? ≠ some slash)
    (hdir : chdir env pid dir = some env') (htwo : canonicalizePath env' pid atFdcwd name capacity = some two)
    (hone : canonicalizePath env pid atFdcwd (dir ++ slash :: name) capacity = some one) : two = one := by
  obtain ⟨cwd, hcwd, hset⟩ := chdir_some hdir
  obtain ⟨base, hbase, hpath⟩ := canonicalize_relative hname htwo
  obtain rfl : base = cwd := some.inj ((basePath_cwd hbase).symm.trans hset)
  obtain ⟨front, hfront, rfl⟩ := canonicalize_some hcwd
  obtain ⟨front', hfront', rfl⟩ := canonicalize_some hone
  have hne : dir ≠ [] := by
    rintro rfl
    simp [canonicalizePath] at hcwd
  have hhead : (dir ++ slash :: name).head? = dir.head? := by
    cases dir with
    | nil => exact absurd rfl hne
    | cons x dir => rfl
  obtain rfl : front = front' := by
    rw [hhead] at hfront'
    rcases hfront with ⟨habs, rfl⟩ | ⟨hrel, above, habove, rfl⟩ <;>
      rcases hfront' with ⟨habs', rfl⟩ | ⟨hrel', above', habove', rfl⟩
    · rfl
    · exact absurd habs hrel'
    · exact absurd habs' hrel
    · rw [mem_unique habove habove']
  rw [(normalize_some hpath).1, resolve_render_append, append_assoc]

/-- Normalization is that of the stack of segments. -/
theorem normalize_refines :
    (∀ input capacity out, normalizeAbsolutePath input capacity = some out →
      out = render slash (resolve slash dot dotdot input) ∧ Canonical out ∧ (out ≠ [slash] → out.getLast? ≠ some slash) ∧
        out.length ≤ capacity ∧ ∀ n, out.length ≤ n → normalizeAbsolutePath out n = some out) ∧
    (∀ env pid dirfd input capacity, input.head? ≠ some slash →
      (∀ out, canonicalizePath env pid dirfd input capacity = some out →
        ∃ base, basePath env pid dirfd = some base ∧ normalizeAbsolutePath (base ++ slash :: input) capacity = some out) ∧
      (∀ base, basePath env pid dirfd = some base → base.head? = some slash → input ≠ [] →
        (base ++ slash :: input).length ≤ maxPathBytes →
        canonicalizePath env pid dirfd input capacity = normalizeAbsolutePath (base ++ slash :: input) capacity)) ∧
    (∀ env env' pid dir name capacity one two, name.head? ≠ some slash → chdir env pid dir = some env' →
      canonicalizePath env' pid atFdcwd name capacity = some two →
      canonicalizePath env pid atFdcwd (dir ++ slash :: name) capacity = some one → two = one) := by
  refine ⟨?_, ?_, ?_⟩
  · intro input capacity out h
    obtain ⟨rfl, hfits, -⟩ := normalize_some h
    have hclean : Clean slash dot dotdot (resolve slash dot dotdot input) := resolve_clean input
    exact ⟨rfl, render_canonical hclean, render_getLast hclean, hfits, fun n hn => normalize_render hclean hn⟩
  · intro env pid dirfd input capacity hinput
    exact ⟨fun out h => canonicalize_relative hinput h,
      fun base hbase hhead hne hfits => canonicalize_fits hne hinput hbase hhead hfits⟩
  · intro env env' pid dir name capacity one two hname hdir htwo hone
    exact canonicalize_two_steps hname hdir htwo hone

/-- Every process is in `/a`, and every path is a directory. -/
def inA : PathEnv := ⟨fun _ => some [slash, 0x61], fun _ _ => none, fun _ _ => true⟩

/-- `/a/./b//../c` is `/a/c`. In `/a`, `../c` is `/a/../c`, and `b/c` is what `c` is after a change to `b`. -/
theorem normalize_refines_names :
    normalizeAbsolutePath [slash, 0x61, slash, 0x2E, slash, 0x62, slash, slash, 0x2E, 0x2E, slash, 0x63] 16 =
        some [slash, 0x61, slash, 0x63] ∧
      normalizeAbsolutePath [slash, 0x61, slash, 0x63] 16 = some [slash, 0x61, slash, 0x63] ∧
      canonicalizePath inA 1 atFdcwd [0x2E, 0x2E, slash, 0x63] 16 =
        normalizeAbsolutePath [slash, 0x61, slash, 0x2E, 0x2E, slash, 0x63] 16 ∧
      ∃ env, chdir inA 1 [0x62] = some env ∧
        canonicalizePath env 1 atFdcwd [0x63] 16 = canonicalizePath inA 1 atFdcwd [0x62, slash, 0x63] 16 := by
  have hpath : normalizeAbsolutePath [slash, 0x61, slash, 0x2E, slash, 0x62, slash, slash, 0x2E, 0x2E, slash, 0x63] 16 =
      some [slash, 0x61, slash, 0x63] := by
    rw [normalize_eq]
    decide
  have hbelow := fun input hne hfits (hrelative : input.head? ≠ some slash) capacity =>
    (normalize_refines.2.1 inA 1 atFdcwd input capacity hrelative).2 [slash, 0x61] rfl rfl hne hfits
  refine ⟨hpath, (normalize_refines.1 _ _ _ hpath).2.2.2.2 16 (by decide), hbelow _ (by decide) (by decide) (by decide) 16, ?_⟩
  have hb : canonicalizePath inA 1 atFdcwd [0x62] maxPathBytes = some [slash, 0x61, slash, 0x62] := by
    rw [hbelow _ (by decide) (by decide) (by decide), normalize_eq]
    decide
  let env : PathEnv :=
    { inA with linuxCwd := fun p => if p = 1 then some [slash, 0x61, slash, 0x62] else some [slash, 0x61] }
  have hdir : chdir inA 1 [0x62] = some env := by
    rw [chdir, hb]
    rfl
  obtain ⟨two, htwo⟩ : ∃ two, canonicalizePath env 1 atFdcwd [0x63] 16 = some two := by
    rw [(normalize_refines.2.1 env 1 atFdcwd [0x63] 16 (by decide)).2 [slash, 0x61, slash, 0x62] rfl rfl (by decide) (by decide),
      ← isSome_iff_exists, normalize_eq]
    decide
  obtain ⟨one, hone⟩ : ∃ one, canonicalizePath inA 1 atFdcwd [0x62, slash, 0x63] 16 = some one := by
    rw [hbelow _ (by decide) (by decide) (by decide), ← isSome_iff_exists, normalize_eq]
    decide
  exact ⟨env, hdir, by rw [htwo, hone, normalize_refines.2.2 _ env 1 [0x62] [0x63] 16 one two (by decide) hdir htwo hone]⟩

end Normal

end LimitlessOS.Linux
