/-
# Lib.Dlist — the kernel's intrusive circular lists

`lib/dlist.c` and `include/base/dlist.h`, write by write, over a heap of links.
A `struct dlist_node` is named by a node of the heap; `container_of` is the
inverse of whatever constructor a client uses to embed its objects as nodes.
Each function is then one of the two ring operations of `Theory.Ring`.
-/
import Minus.Theory.Ring

namespace Minus.Lib.Dlist

set_option autoImplicit false

open Minus.Theory

universe u v

variable {N : Type u} [DecidableEq N]

def setNext (h : Links N) (node value : N) : Links N :=
  { h with next := Function.update h.next node value }

def setPrev (h : Links N) (node value : N) : Links N :=
  { h with prev := Function.update h.prev node value }

def dlistAdd (h : Links N) (head node : N) : Links N :=
  let h := setPrev h node head
  let h := setNext h node (h.next head)
  let h := setPrev h (h.next head) node
  setNext h head node

def dlistAddTail (h : Links N) (head node : N) : Links N :=
  let h := setNext h node head
  let h := setPrev h node (h.prev head)
  let h := setNext h (h.prev head) node
  setPrev h head node

def dlistDel (h : Links N) (node : N) : Links N :=
  let h := setPrev h (h.next node) (h.prev node)
  let h := setNext h (h.prev node) (h.next node)
  let h := setNext h node node
  setPrev h node node

def dlistInit (h : Links N) (node : N) : Links N :=
  setPrev (setNext h node node) node node

/-- `dlist_empty(head)`. -/
def dlistEmpty (h : Links N) (head : N) : Bool := h.next head == head

theorem dlistAdd_eq_splice (h : Links N) {head node : N} (ne : node ≠ head) :
    dlistAdd h head node = h.splice head node (h.next head) := by
  simp [dlistAdd, setPrev, setNext, Links.splice, ne.symm]

theorem dlistAddTail_eq_splice (h : Links N) {head node : N} (ne : node ≠ head) :
    dlistAddTail h head node = h.splice (h.prev head) node head := by
  simp [dlistAddTail, setPrev, setNext, Links.splice, ne.symm]

/-- When the neighbours of the node point back at it, `dlist_del` unlinks it. -/
theorem dlistDel_eq_unlink (h : Links N) {node : N} (back : h.next node = node → h.prev node = node) :
    dlistDel h node = h.unlink node := by
  by_cases self : h.next node = node
  · simp [dlistDel, setPrev, setNext, Links.unlink, self, back self]
  · have other : node ≠ h.next node := fun same => self same.symm
    simp [dlistDel, setPrev, setNext, Links.unlink, other]

/-- `dlist_del` of a node that was linked between two neighbours leaves the links as they were. -/
theorem dlistDel_spliced {h h' : Links N} {a b x y : N} (before : a ≠ x) (behind : b ≠ x) (other : y ≠ x)
    (ahead : h.next a = b) (back : h.prev b = a) (nextx : h'.next x = b) (prevx : h'.prev x = a)
    (next : h'.next y = (h.splice a x b).next y) (prev : h'.prev y = (h.splice a x b).prev y) :
    (dlistDel h' x).next y = h.next y ∧ (dlistDel h' x).prev y = h.prev y := by
  rw [dlistDel_eq_unlink _ fun self => absurd (nextx.symm.trans self) behind]
  refine ⟨?_, ?_⟩
  · by_cases first : y = a
    · subst first
      simp [Links.unlink, nextx, prevx, before, ahead]
    · rw [Links.unlink_next_of_ne other (prevx ▸ first), next, Links.splice_next_of_ne other first]
  · by_cases second : y = b
    · subst second
      simp [Links.unlink, nextx, prevx, behind, back]
    · rw [Links.unlink_prev_of_ne other (nextx ▸ second), prev, Links.splice_prev_of_ne other second]

@[simp] theorem dlistInit_next (h : Links N) (node : N) : (dlistInit h node).next node = node := by
  simp [dlistInit, setNext, setPrev]

theorem dlistInit_alone (h : Links N) (node : N) : (dlistInit h node).Alone node := by
  simp [Links.Alone, dlistInit, setNext, setPrev]

theorem dlistInit_of_alone {h : Links N} {node : N} (alone : h.Alone node) :
    dlistInit h node = h := by
  obtain ⟨prev, next⟩ := h
  simp only [Links.Alone] at alone
  simp only [dlistInit, setNext, setPrev, Links.mk.injEq]
  constructor <;> funext y <;> by_cases here : y = node <;> simp [here, alone.1, alone.2]

@[simp] theorem dlistInit_next_of_ne (h : Links N) {node y : N} (ne : y ≠ node) :
    (dlistInit h node).next y = h.next y := by
  simp [dlistInit, setNext, setPrev, ne]

@[simp] theorem dlistInit_prev_of_ne (h : Links N) {node y : N} (ne : y ≠ node) :
    (dlistInit h node).prev y = h.prev y := by
  simp [dlistInit, setNext, setPrev, ne]

/-! ## The functions on a family of lists -/

section Family

variable {ι : Type v} [DecidableEq ι] {h : Links N} {I : ι → Prop} {head : ι → N}
  {items : ι → List N}

theorem dlistAdd_family (family : h.Family I head items) {i : ι} (hi : I i) {x : N}
    (fresh : ∀ j, I j → x ∉ head j :: items j) :
    (dlistAdd h (head i) x).Family I head (Function.update items i (x :: items i)) := by
  rw [dlistAdd_eq_splice h fun same => fresh i hi (by simp [same])]
  exact family.push_front hi fresh

theorem dlistAddTail_family (family : h.Family I head items) {i : ι} (hi : I i) {x : N}
    (fresh : ∀ j, I j → x ∉ head j :: items j) :
    (dlistAddTail h (head i) x).Family I head (Function.update items i (items i ++ [x])) := by
  rw [dlistAddTail_eq_splice h fun same => fresh i hi (by simp [same])]
  exact family.push_back hi fresh

omit [DecidableEq ι] in
/-- On a member of a list `dlist_del` is the ring operation. -/
theorem dlistDel_member (family : h.Family I head items) {i : ι} (hi : I i) {x : N}
    (member : x ∈ items i) : dlistDel h x = h.unlink x :=
  dlistDel_eq_unlink h fun self => absurd self ((family.ring i hi).not_alone member)

theorem dlistDel_family (family : h.Family I head items) {i : ι} (hi : I i) {x : N}
    (member : x ∈ items i) :
    (dlistDel h x).Family I head (Function.update items i ((items i).erase x)) := by
  rw [dlistDel_member family hi member]
  exact family.erase hi member

omit [DecidableEq ι] in
/-- Initialising a node that is on no list leaves every list as it is. -/
theorem dlistInit_family (family : h.Family I head items) {x : N}
    (outside : ∀ j, I j → x ∉ head j :: items j) : (dlistInit h x).Family I head items where
  ring j hj := (family.ring j hj).frame fun y hy =>
    have ne : y ≠ x := ne_of_mem_of_not_mem hy (outside j hj)
    ⟨dlistInit_next_of_ne h ne, dlistInit_prev_of_ne h ne⟩
  apart := family.apart

omit [DecidableEq ι] in
/-- A self-linked node on no list stays so when another node is added. -/
theorem dlistAdd_alone (family : h.Family I head items) {i : ι} (hi : I i) {x y : N}
    (fresh : x ∉ head i :: items i) (alone : h.Alone y) (outside : y ∉ head i :: items i)
    (ne : y ≠ x) : (dlistAdd h (head i) x).Alone y := by
  rw [dlistAdd_eq_splice h fun same => fresh (by simp [same])]
  exact (family.alone_push hi alone outside ne).1

omit [DecidableEq ι] in
theorem dlistAddTail_alone (family : h.Family I head items) {i : ι} (hi : I i) {x y : N}
    (fresh : x ∉ head i :: items i) (alone : h.Alone y) (outside : y ∉ head i :: items i)
    (ne : y ≠ x) : (dlistAddTail h (head i) x).Alone y := by
  rw [dlistAddTail_eq_splice h fun same => fresh (by simp [same])]
  exact (family.alone_push hi alone outside ne).2

omit [DecidableEq ι] in
/-- After `dlist_del` of a member the node is self-linked, and so are the nodes
that were. -/
theorem dlistDel_alone (family : h.Family I head items) {i : ι} (hi : I i) {x y : N}
    (member : x ∈ items i) (alone : y = x ∨ h.Alone y ∧ y ∉ head i :: items i) :
    (dlistDel h x).Alone y := by
  rw [dlistDel_member family hi member]
  rcases alone with rfl | ⟨alone, outside⟩
  · exact h.unlink_alone y
  · exact family.alone_erase hi member alone outside

omit [DecidableEq ι] in
theorem dlistEmpty_iff (family : h.Family I head items) {i : ι} (hi : I i) :
    dlistEmpty h (head i) = true ↔ items i = [] := by
  rw [dlistEmpty, beq_iff_eq]
  exact (family.ring i hi).empty_iff

omit [DecidableEq ι] [DecidableEq N] in
/-- `head->next` of a list that is not empty is its first member. -/
theorem next_head_of_cons (family : h.Family I head items) {i : ι} (hi : I i) {x : N} {l : List N}
    (list : items i = x :: l) : h.next (head i) = x := by
  rw [(family.ring i hi).next_head, list]
  rfl

end Family

end Minus.Lib.Dlist
