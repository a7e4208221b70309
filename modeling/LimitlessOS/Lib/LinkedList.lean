/-
  LimitlessOS.Lib.LinkedList — intrusive doubly linked lists.

  Every node has a cell with its two neighbours; a list is a head pointer. `Seg` says
  that the cells of a stretch of nodes link them in order, between two given outer
  neighbours, so that a splice or an unlink is proved at the two ends it touches.

  Proved:
  - `Holds.toList`: following `next` from the head lists the nodes in order.
  - `Holds.splice`: linking a new node between two neighbours inserts it there.
  - `Holds.unlink`: unlinking a node removes it and clears its cell.
-/
import Mathlib.Data.List.Basic
import Mathlib.Logic.Function.Basic

namespace LimitlessOS.Lib.LinkedList

open List

structure Link (ι : Type) where
  prev : Option ι
  next : Option ι
  deriving DecidableEq, Repr

variable {ι : Type}

/-- The nodes `l` are linked in order, after `p` and before `n`. -/
def Seg (link : ι → Link ι) : Option ι → List ι → Option ι → Prop
  | _, [], _ => True
  | p, x :: xs, n => link x = ⟨p, xs.head?.or n⟩ ∧ Seg link (some x) xs n

theorem seg_append (link : ι → Link ι) (p n : Option ι) (a b : List ι) :
    Seg link p (a ++ b) n ↔ Seg link p a (b.head?.or n) ∧ Seg link (a.getLast?.or p) b n := by
  induction a generalizing p with
  | nil => simp [Seg]
  | cons x xs ih =>
    have hlast : (x :: xs).getLast?.or p = xs.getLast?.or (some x) := by
      cases xs <;> simp [getLast?_cons]
    have hhead : (xs ++ b).head?.or n = xs.head?.or (b.head?.or n) := by cases xs <;> simp
    rw [cons_append, Seg, Seg, ih, hlast, hhead, and_assoc]

variable {l : List ι} {n p : Option ι} {link link' : ι → Link ι}

theorem Seg.congr (h : Seg link p l n) (hl : ∀ z ∈ l, link' z = link z) : Seg link' p l n := by
  induction l generalizing p with
  | nil => trivial
  | cons x xs ih =>
    exact ⟨(hl x (by simp)).trans h.1, ih h.2 fun z hz => hl z (by simp [hz])⟩

/-- Another successor: only the last node's `next` changes. -/
theorem Seg.setNext {n' : Option ι} (h : Seg link p l n) (hnd : l.Nodup)
    (hlast : ∀ z, l.getLast? = some z → link' z = { link z with next := n' })
    (hl : ∀ z ∈ l, l.getLast? ≠ some z → link' z = link z) : Seg link' p l n' := by
  obtain rfl | ⟨a, z, rfl⟩ := l.eq_nil_or_concat'
  · trivial
  rw [seg_append] at h ⊢
  simp only [getLast?_append, getLast?_singleton, Option.some_or, Option.some.injEq] at hlast hl
  refine ⟨h.1.congr fun y hy => hl y (by simp [hy]) ?_, ?_, trivial⟩
  · intro heq
    cases heq
    exact (nodup_append.1 hnd).2.2 z hy z (by simp) rfl
  · rw [hlast z rfl, h.2.1]
    simp

/-- Another predecessor: only the first node's `prev` changes. -/
theorem Seg.setPrev {p' : Option ι} (h : Seg link p l n) (hnd : l.Nodup)
    (hfirst : ∀ z, l.head? = some z → link' z = { link z with prev := p' })
    (hl : ∀ z ∈ l, l.head? ≠ some z → link' z = link z) : Seg link' p' l n := by
  cases l with
  | nil => trivial
  | cons x xs =>
    refine ⟨by rw [hfirst x rfl, h.1], h.2.congr fun y hy => hl y (by simp [hy]) ?_⟩
    rintro h
    cases h
    exact (nodup_cons.1 hnd).1 hy

/-- The cells, and the pointer to the first node. -/
structure Chain (ι : Type) where
  link : ι → Link ι
  head : Option ι

namespace Chain

structure Holds (s : Chain ι) (l : List ι) : Prop where
  head : s.head = l.head?
  seg : Seg s.link none l none
  nodup : l.Nodup

/-- Follow `next`. -/
def follow (link : ι → Link ι) : Nat → Option ι → List ι
  | 0, _ => []
  | _ + 1, none => []
  | fuel + 1, some x => x :: follow link fuel (link x).next

def toList (s : Chain ι) (fuel : Nat) : List ι := follow s.link fuel s.head

variable {x z : ι} {l : List ι} {s : Chain ι} {fuel : Nat}

theorem follow_seg (h : Seg link p l none) (hfuel : l.length ≤ fuel) : follow link fuel l.head? = l := by
  induction l generalizing p fuel with
  | nil => cases fuel <;> rfl
  | cons x xs ih =>
    obtain ⟨n, rfl⟩ : ∃ n, fuel = n + 1 := ⟨fuel - 1, by simp at hfuel; omega⟩
    simp only [head?_cons, follow, h.1, Option.or_none]
    rw [ih h.2 (by simpa using hfuel)]

theorem Holds.toList (h : s.Holds l) (hfuel : l.length ≤ fuel) : s.toList fuel = l := by
  rw [Chain.toList, h.head]
  exact follow_seg h.seg hfuel

theorem Holds.congr {s' : Chain ι} (h : s.Holds l) (hhead : s'.head = s.head)
    (hl : ∀ z ∈ l, s'.link z = s.link z) : s'.Holds l := ⟨hhead.trans h.head, h.seg.congr hl, h.nodup⟩

variable [DecidableEq ι] {a b : List ι}

def modify (s : Chain ι) (x : ι) (f : Link ι → Link ι) : Chain ι :=
  { s with link := Function.update s.link x (f (s.link x)) }

@[simp] theorem modify_head (s : Chain ι) (x : ι) (f : Link ι → Link ι) : (s.modify x f).head = s.head := rfl

@[simp] theorem modify_link_self (s : Chain ι) (x : ι) (f : Link ι → Link ι) :
    (s.modify x f).link x = f (s.link x) := by simp [modify]

@[simp] theorem modify_link_ne {f : Link ι → Link ι} (hz : z ≠ x) : (s.modify x f).link z = s.link z := by simp [modify, hz]

/-- The successor of `q`, or the head, becomes `n`. -/
def setNext (s : Chain ι) (q n : Option ι) : Chain ι :=
  match q with
  | some q => s.modify q fun c => { c with next := n }
  | none => { s with head := n }

/-- The predecessor of `q`, if there is such a node, becomes `p`. -/
def setPrev (s : Chain ι) (q p : Option ι) : Chain ι :=
  match q with
  | some q => s.modify q fun c => { c with prev := p }
  | none => s

section Fields
variable (s : Chain ι) (q p n : Option ι) (z : ι)

theorem setNext_link : (s.setNext q n).link z = if q = some z then { s.link z with next := n } else s.link z := by
  rcases q with _ | w
  · rfl
  by_cases h : z = w
  · simp [setNext, h]
  · simp [setNext, h, Ne.symm h]

theorem setPrev_link : (s.setPrev q p).link z = if q = some z then { s.link z with prev := p } else s.link z := by
  rcases q with _ | w
  · rfl
  by_cases h : z = w
  · simp [setPrev, h]
  · simp [setPrev, h, Ne.symm h]

theorem setNext_head : (s.setNext q n).head = if q = none then n else s.head := by cases q <;> rfl

@[simp] theorem setPrev_head : (s.setPrev q p).head = s.head := by cases q <;> rfl

end Fields

/-- Link `x` between `previous` and `cursor`. -/
def splice (s : Chain ι) (x : ι) (previous cursor : Option ι) : Chain ι :=
  ((s.modify x fun _ => ⟨previous, cursor⟩).setNext previous (some x)).setPrev cursor (some x)

/-- Link the neighbours of `x` to each other and clear its cell. -/
def unlink (s : Chain ι) (x : ι) : Chain ι :=
  ((s.setNext (s.link x).prev (s.link x).next).setPrev (s.link x).next (s.link x).prev).modify x fun _ => ⟨none, none⟩

/-- Other neighbours at a seam: the two sides stay linked if only the nodes at the seam change. -/
theorem reseam {s' : Chain ι} {p n p' n' : Option ι} (hnd : (a ++ b).Nodup) (ha : Seg s.link none a n) (hb : Seg s.link p b none)
    (hlink : ∀ z ∈ a ++ b, s'.link z = ((s.setNext a.getLast? n').setPrev b.head? p').link z) :
    Seg s'.link none a n' ∧ Seg s'.link p' b none := by
  obtain ⟨hna, hnb, hab⟩ := nodup_append.1 hnd
  have hleft : ∀ z ∈ a, s'.link z = (s.setNext a.getLast? n').link z := by
    intro z hz
    rw [hlink z (mem_append_left b hz), setPrev_link, if_neg fun e => hab z hz z (mem_of_head? e) rfl]
  have hright : ∀ z ∈ b, s'.link z = (s.setPrev b.head? p').link z := by
    intro z hz
    have hlast : a.getLast? ≠ some z := fun e => hab z (mem_of_getLast? e) z hz rfl
    rw [hlink z (mem_append_right a hz), setPrev_link, setNext_link, if_neg hlast, setPrev_link]
  refine ⟨ha.setNext hna ?_ ?_, hb.setPrev hnb ?_ ?_⟩
  · intro z hz
    rw [hleft z (mem_of_getLast? hz), setNext_link, if_pos hz]
  · intro z hz hzl
    rw [hleft z hz, setNext_link, if_neg hzl]
  · intro z hz
    rw [hright z (mem_of_head? hz), setPrev_link, if_pos hz]
  · intro z hz hzf
    rw [hright z hz, setPrev_link, if_neg hzf]

omit [DecidableEq ι] in
/-- What is on neither side is at no seam. -/
theorem not_seam (hz : z ∉ a ++ b) : a.getLast? ≠ some z ∧ b.head? ≠ some z :=
  ⟨fun e => hz (mem_append_left b (mem_of_getLast? e)), fun e => hz (mem_append_right a (mem_of_head? e))⟩

theorem Holds.splice (h : s.Holds (a ++ b)) (hx : x ∉ a ++ b) :
    (s.splice x a.getLast? b.head?).Holds (a ++ x :: b) ∧
      ∀ z ∉ a ++ b, z ≠ x → (s.splice x a.getLast? b.head?).link z = s.link z := by
  obtain ⟨hhead, hseg, hnd⟩ := h
  obtain ⟨ha, hb⟩ := (seg_append ..).1 hseg
  have hlink : ∀ z ∈ a ++ b, (s.splice x a.getLast? b.head?).link z =
      ((s.setNext a.getLast? (some x)).setPrev b.head? (some x)).link z := by
    intro z hz
    have hzx : z ≠ x := ne_of_mem_of_not_mem hz hx
    simp [Chain.splice, setNext_link, setPrev_link, hzx]
  obtain ⟨ha, hb⟩ := reseam hnd ha hb hlink
  refine ⟨⟨?_, (seg_append ..).2 ⟨ha, ?_, hb⟩, ?_⟩, ?_⟩
  · cases a with
    | nil => simp [Chain.splice, setNext_head]
    | cons y ys => simp [Chain.splice, setNext_head, hhead]
  · simp [Chain.splice, setNext_link, setPrev_link, not_seam hx]
  · rw [perm_middle.nodup_iff]
    exact nodup_cons.2 ⟨hx, hnd⟩
  · intro z hz hzx
    simp [Chain.splice, setNext_link, setPrev_link, not_seam hz, hzx]

theorem Holds.unlink (h : s.Holds (a ++ x :: b)) :
    (s.unlink x).Holds (a ++ b) ∧ (s.unlink x).link x = ⟨none, none⟩ ∧
      ∀ z ∉ a ++ x :: b, (s.unlink x).link z = s.link z := by
  obtain ⟨hhead, hseg, hnd⟩ := h
  obtain ⟨ha, hxlink, hb⟩ := (seg_append ..).1 hseg
  rw [perm_middle.nodup_iff, nodup_cons] at hnd
  obtain ⟨hx, hnd⟩ := hnd
  refine ⟨⟨?_, (seg_append ..).2 (reseam hnd ha hb ?_), hnd⟩, by simp [Chain.unlink], ?_⟩
  · cases a with
    | nil => simp [Chain.unlink, hxlink, setNext_head]
    | cons y ys => simp [Chain.unlink, hxlink, setNext_head, hhead]
  · intro z hz
    have hzx : z ≠ x := ne_of_mem_of_not_mem hz hx
    simp [Chain.unlink, hxlink, hzx]
  · intro z hz
    rw [perm_middle.mem_iff, mem_cons, not_or] at hz
    simp [Chain.unlink, hxlink, setNext_link, setPrev_link, not_seam hz.2, hz.1]

end Chain

end LimitlessOS.Lib.LinkedList
