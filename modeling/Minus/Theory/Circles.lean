/-
# Theory.Circles — disjoint circular lists, as every one of their nodes sees them

`Circles` records what is reached from each node of a collection of circular
lists: `s x = some l` when a walk from `x` meets exactly `l` before it is back at
`x`, and `s x = none` when `x` was never linked.  A node that is alone sees the
empty list.  No node is a head by itself: any node of a circle may be taken for
it, so inserting in front of one head is an insertion in the middle for another.

`Held h s` says that a heap of links holds the circles `s`.  Splicing a loose node
in, unlinking a node and giving a loose node links to itself change the circles as
`pushFront`, `pushBack`, `remove` and `lone` say.  That the circles are disjoint is
no part of `Held`: two walks through one node are rotations of each other
(`Ring.rotate`, `Ring.meets`).
-/
import Mathlib.Data.List.Rotate
import Minus.Theory.Ring

namespace Minus.Theory

set_option autoImplicit false

universe u

namespace Links

variable {N : Type u} {h : Links N}

theorem Seg.next_prev {a b : N} {l : List N} (seg : h.Seg a l b) : h.next (h.prev b) = b := by
  induction l generalizing a with
  | nil => rw [seg.2, seg.1]
  | cons x l ih => exact ih seg.2

/-- A circle read from another of its nodes. -/
theorem Ring.rotate {y x : N} (before after : List N) (ring : h.Ring y (before ++ x :: after)) :
    h.Ring x (after ++ y :: before) := by
  obtain ⟨segBefore, segAfter⟩ := (seg_append h y y x before after).1 ring.seg
  refine ⟨(seg_append h x x y after before).2 ⟨segAfter, segBefore⟩, ?_⟩
  have turned : (y :: before ++ x :: after).Perm (x :: after ++ y :: before) := List.perm_append_comm
  exact turned.nodup_iff.1 ring.nodup

/-- Two circles with a common node are one. -/
theorem Ring.meets {y z x : N} {l m : List N} (ring : h.Ring y l) (ring' : h.Ring z m) (left : x ∈ y :: l)
    (right : x ∈ z :: m) : (y :: l).IsRotated (z :: m) := by
  have turn {y : N} {l : List N} (ring : h.Ring y l) (inside : x ∈ y :: l) :
      ∃ k, h.Ring x k ∧ (y :: l).IsRotated (x :: k) := by
    rcases List.mem_cons.1 inside with rfl | inside
    · exact ⟨l, ring, List.IsRotated.refl _⟩
    · obtain ⟨before, after, rfl⟩ := List.append_of_mem inside
      exact ⟨_, ring.rotate before after, @List.isRotated_append _ (y :: before) (x :: after)⟩
  obtain ⟨k, same, first⟩ := turn ring left
  obtain ⟨k', same', second⟩ := turn ring' right
  rw [same.unique same'] at first
  exact first.trans second.symm

end Links

/-- What a walk from each node meets. -/
abbrev Circles (N : Type u) := N → Option (List N)

namespace Circles

variable {N : Type u} [DecidableEq N]

/-- A node that is on no circle with others. -/
def Loose (s : Circles N) (x : N) : Prop := s x = none ∨ s x = some []

instance (s : Circles N) (x : N) : Decidable (s.Loose x) := inferInstanceAs (Decidable (_ ∨ _))

def insertAfter (head x : N) (l : List N) : List N := l.flatMap fun y => if y = head then [y, x] else [y]

def insertBefore (head x : N) (l : List N) : List N := l.flatMap fun y => if y = head then [x, y] else [y]

/-- `x` comes to the front of the list of `head`. -/
def pushFront (s : Circles N) (head x : N) : Circles N := fun y =>
  if y = x then some ((s head).getD [] ++ [head])
  else (s y).map fun l => if y = head then x :: l else insertAfter head x l

/-- `x` comes to the back of the list of `head`. -/
def pushBack (s : Circles N) (head x : N) : Circles N := fun y =>
  if y = x then some (head :: (s head).getD [])
  else (s y).map fun l => if y = head then l ++ [x] else insertBefore head x l

/-- `x` leaves its circle. -/
def remove (s : Circles N) (x : N) : Circles N := fun y =>
  if y = x then some [] else (s y).map fun l => l.erase x

/-- `x` becomes a circle of its own. -/
def lone (s : Circles N) (x : N) : Circles N := Function.update s x (some [])

theorem insertAfter_of_notMem {head : N} (x : N) {l : List N} (absent : head ∉ l) : insertAfter head x l = l :=
  (List.flatMap_congr fun _ hy => if_neg (ne_of_mem_of_not_mem hy absent)).trans (List.flatMap_singleton' l)

theorem insertBefore_of_notMem {head : N} (x : N) {l : List N} (absent : head ∉ l) : insertBefore head x l = l :=
  (List.flatMap_congr fun _ hy => if_neg (ne_of_mem_of_not_mem hy absent)).trans (List.flatMap_singleton' l)

theorem mem_insertAfter {head x z : N} {l : List N} (inside : z ∈ insertAfter head x l) : z = x ∨ z ∈ l := by
  obtain ⟨y, hy, here⟩ := List.mem_flatMap.1 inside
  split at here
  · rcases List.mem_cons.1 here with rfl | here
    · exact Or.inr hy
    · exact Or.inl (List.mem_singleton.1 here)
  · exact Or.inr (List.mem_singleton.1 here ▸ hy)

theorem mem_insertBefore {head x z : N} {l : List N} (inside : z ∈ insertBefore head x l) : z = x ∨ z ∈ l := by
  obtain ⟨y, hy, here⟩ := List.mem_flatMap.1 inside
  split at here
  · rcases List.mem_cons.1 here with rfl | here
    · exact Or.inl rfl
    · exact Or.inr (List.mem_singleton.1 here ▸ hy)
  · exact Or.inr (List.mem_singleton.1 here ▸ hy)

theorem insertAfter_split {head : N} (x : N) {before after : List N} (absent : head ∉ before) (absent' : head ∉ after) :
    insertAfter head x (before ++ head :: after) = before ++ head :: x :: after := by
  have first := insertAfter_of_notMem x absent
  have last := insertAfter_of_notMem x absent'
  simp only [insertAfter] at first last ⊢
  rw [List.flatMap_append, List.flatMap_cons, first, last, if_pos rfl]
  rfl

theorem insertBefore_split {head : N} (x : N) {before after : List N} (absent : head ∉ before)
    (absent' : head ∉ after) :
    insertBefore head x (before ++ head :: after) = before ++ x :: head :: after := by
  have first := insertBefore_of_notMem x absent
  have last := insertBefore_of_notMem x absent'
  simp only [insertBefore] at first last ⊢
  rw [List.flatMap_append, List.flatMap_cons, first, last, if_pos rfl]
  rfl

@[simp] theorem isSome_pushFront (s : Circles N) (head x z : N) :
    (s.pushFront head x z).isSome = true ↔ z = x ∨ (s z).isSome = true := by
  by_cases here : z = x <;> simp [pushFront, here]

@[simp] theorem isSome_pushBack (s : Circles N) (head x z : N) :
    (s.pushBack head x z).isSome = true ↔ z = x ∨ (s z).isSome = true := by
  by_cases here : z = x <;> simp [pushBack, here]

@[simp] theorem isSome_remove (s : Circles N) (x z : N) :
    (s.remove x z).isSome = true ↔ z = x ∨ (s z).isSome = true := by
  by_cases here : z = x <;> simp [remove, here]

end Circles

/-- The links are those of the circles. -/
structure Held {N : Type u} (h : Links N) (s : Circles N) : Prop where
  ring : ∀ y l, s y = some l → h.Ring y l
  linked : ∀ y l, s y = some l → ∀ x ∈ l, (s x).isSome

namespace Held

open Links Circles

variable {N : Type u} {h : Links N} {s : Circles N}

theorem linked_mem (held : Held h s) {y x : N} {l : List N} (at_ : s y = some l) (inside : x ∈ y :: l) :
    ∃ m, s x = some m := by
  rcases List.mem_cons.1 inside with rfl | inside
  · exact ⟨l, at_⟩
  · exact Option.isSome_iff_exists.1 (held.linked y l at_ x inside)

/-- A loose node is on no circle but its own. -/
theorem loose_notMem (held : Held h s) {x y : N} {l : List N} (loose : s.Loose x) (at_ : s y = some l) (ne : y ≠ x) :
    x ∉ y :: l := by
  intro inside
  obtain ⟨m, seen⟩ := held.linked_mem at_ inside
  rcases loose with never | alone
  · simp [never] at seen
  · have ring := held.ring x [] alone
    rcases List.mem_cons.1 inside with same | inside
    · exact ne same.symm
    · exact (held.ring y l at_).not_alone inside ((ring_nil_iff h x).1 ring).1

/-- The neighbours of a node are nodes of its circle. -/
theorem neighbours (held : Held h s) {x : N} {m : List N} (at_ : s x = some m) :
    h.next x ∈ x :: m ∧ h.prev x ∈ x :: m := by
  have ring := held.ring x m at_
  refine ⟨?_, ring.seg.prev_mem⟩
  rw [ring.next_head]
  cases m with
  | nil => simp
  | cons z m => simp

/-- A circle through `x`, read from another node. -/
theorem split_at (held : Held h s) {x y : N} {l m : List N} (at_ : s y = some l) (here : s x = some m)
    (inside : x ∈ l) : ∃ before after, l = before ++ x :: after ∧ m = after ++ y :: before := by
  obtain ⟨before, after, rfl⟩ := List.append_of_mem inside
  exact ⟨before, after, rfl, (held.ring x m here).unique ((held.ring y _ at_).rotate before after)⟩

/-- A circle that does not go through `x` has no node in common with that of `x`. -/
theorem apart (held : Held h s) {x y z : N} {l m : List N} (at_ : s y = some l) (here : s x = some m)
    (outside : x ∉ y :: l) (inside : z ∈ y :: l) : z ∉ x :: m := by
  intro both
  have turned := (held.ring y l at_).meets (held.ring x m here) inside both
  exact outside (turned.mem_iff.2 List.mem_cons_self)

variable [DecidableEq N] {head x : N} {m : List N}

/-- A splice into the circle of `head` frames the others. -/
theorem frame_splice (held : Held h s) (here : s head = some m) (loose : s.Loose x) {y a b : N} {k : List N}
    (seen : s y = some k) (other : y ≠ x) (outside : head ∉ y :: k) (first : a ∈ head :: m) (second : b ∈ head :: m) :
    (h.splice a x b).Ring y k := by
  apply (held.ring y k seen).frame
  intro z hz
  have zx : z ≠ x := ne_of_mem_of_not_mem hz (held.loose_notMem loose seen other)
  have off := held.apart seen here outside hz
  constructor
  · apply splice_next_of_ne zx
    exact fun same => off (same ▸ first)
  · apply splice_prev_of_ne zx
    exact fun same => off (same ▸ second)

theorem pushFront (held : Held h s) (here : s head = some m) (ne : x ≠ head) (loose : s.Loose x) :
    Held (h.splice head x (h.next head)) (s.pushFront head x) := by
  have pushed := (held.ring head m here).push_front (held.loose_notMem loose here ne.symm)
  refine ⟨fun y l at_ => ?_, fun y l at_ z inside => ?_⟩
  · simp only [Circles.pushFront, here, Option.getD_some] at at_
    split at at_
    next same =>
      subst same
      obtain rfl := Option.some.inj at_
      exact pushed.rotate [] _
    next other =>
      obtain ⟨k, seen, rfl⟩ := Option.map_eq_some_iff.1 at_
      split
      next same =>
        subst same
        rw [← Option.some.inj (seen.symm.trans here)] at pushed
        exact pushed
      next notHead =>
        by_cases inside : head ∈ k
        · obtain ⟨before, after, rfl, rfl⟩ := held.split_at seen here inside
          have nodup := List.nodup_middle.1 (List.nodup_cons.1 (held.ring y _ seen).nodup).2
          obtain ⟨absent, -⟩ := List.nodup_cons.1 nodup
          rw [List.mem_append, not_or] at absent
          rw [insertAfter_split x absent.1 absent.2]
          exact pushed.rotate (x :: after) before
        · rw [insertAfter_of_notMem x inside]
          have outside : head ∉ y :: k := by simp [inside, Ne.symm notHead]
          exact held.frame_splice here loose seen other outside List.mem_cons_self (held.neighbours here).1
  · rw [isSome_pushFront]
    simp only [Circles.pushFront, here, Option.getD_some] at at_
    split at at_
    next same =>
      obtain rfl := Option.some.inj at_
      right
      rcases List.mem_append.1 inside with inside | inside
      · exact held.linked head m here z inside
      · simp [List.mem_singleton.1 inside, here]
    next other =>
      obtain ⟨k, seen, rfl⟩ := Option.map_eq_some_iff.1 at_
      have old : z = x ∨ z ∈ k := by
        split at inside
        · exact List.mem_cons.1 inside
        · exact mem_insertAfter inside
      exact old.imp_right (held.linked y k seen z)

theorem pushBack (held : Held h s) (here : s head = some m) (ne : x ≠ head) (loose : s.Loose x) :
    Held (h.splice (h.prev head) x head) (s.pushBack head x) := by
  have pushed := (held.ring head m here).push_back (held.loose_notMem loose here ne.symm)
  refine ⟨fun y l at_ => ?_, fun y l at_ z inside => ?_⟩
  · simp only [Circles.pushBack, here, Option.getD_some] at at_
    split at at_
    next same =>
      subst same
      obtain rfl := Option.some.inj at_
      exact pushed.rotate _ []
    next other =>
      obtain ⟨k, seen, rfl⟩ := Option.map_eq_some_iff.1 at_
      split
      next same =>
        subst same
        rw [← Option.some.inj (seen.symm.trans here)] at pushed
        exact pushed
      next notHead =>
        by_cases inside : head ∈ k
        · obtain ⟨before, after, rfl, rfl⟩ := held.split_at seen here inside
          have nodup := List.nodup_middle.1 (List.nodup_cons.1 (held.ring y _ seen).nodup).2
          obtain ⟨absent, -⟩ := List.nodup_cons.1 nodup
          rw [List.mem_append, not_or] at absent
          rw [insertBefore_split x absent.1 absent.2]
          rw [List.append_assoc, List.cons_append] at pushed
          have turned := pushed.rotate after (before ++ [x])
          rw [List.append_assoc] at turned
          exact turned
        · rw [insertBefore_of_notMem x inside]
          have outside : head ∉ y :: k := by simp [inside, Ne.symm notHead]
          exact held.frame_splice here loose seen other outside (held.neighbours here).2 List.mem_cons_self
  · rw [isSome_pushBack]
    simp only [Circles.pushBack, here, Option.getD_some] at at_
    split at at_
    next same =>
      obtain rfl := Option.some.inj at_
      right
      rcases List.mem_cons.1 inside with rfl | inside
      · simp [here]
      · exact held.linked head m here z inside
    next other =>
      obtain ⟨k, seen, rfl⟩ := Option.map_eq_some_iff.1 at_
      have old : z = x ∨ z ∈ k := by
        split at inside
        · rw [List.mem_append, List.mem_singleton] at inside
          exact inside.symm
        · exact mem_insertBefore inside
      exact old.imp_right (held.linked y k seen z)

theorem remove (held : Held h s) (here : s x = some m) : Held (h.unlink x) (s.remove x) := by
  refine ⟨fun y l at_ => ?_, fun y l at_ z inside => ?_⟩
  · simp only [Circles.remove] at at_
    split at at_
    next same =>
      subst same
      obtain rfl := Option.some.inj at_
      exact (ring_nil_iff _ y).2 (h.unlink_alone y)
    next other =>
      obtain ⟨k, seen, rfl⟩ := Option.map_eq_some_iff.1 at_
      by_cases inside : x ∈ k
      · exact (held.ring y k seen).erase inside
      · rw [List.erase_of_not_mem inside]
        have outside : x ∉ y :: k := by simp [inside, Ne.symm other]
        apply (held.ring y k seen).frame
        intro z hz
        have off := held.apart seen here outside hz
        have zx : z ≠ x := fun same => off (same ▸ List.mem_cons_self)
        constructor
        · apply unlink_next_of_ne zx
          exact fun same => off (same ▸ (held.neighbours here).2)
        · apply unlink_prev_of_ne zx
          exact fun same => off (same ▸ (held.neighbours here).1)
  · rw [isSome_remove]
    right
    simp only [Circles.remove] at at_
    split at at_
    next same =>
      obtain rfl := Option.some.inj at_
      simp at inside
    next other =>
      obtain ⟨k, seen, rfl⟩ := Option.map_eq_some_iff.1 at_
      exact held.linked y k seen z (List.mem_of_mem_erase inside)

/-- A loose node comes to be alone; nothing else changes. -/
theorem lone (held : Held h s) {h' : Links N} (loose : s.Loose x) (alone : h'.Alone x)
    (same : ∀ y, y ≠ x → h'.next y = h.next y ∧ h'.prev y = h.prev y) : Held h' (s.lone x) := by
  refine ⟨fun y l at_ => ?_, fun y l at_ z inside => ?_⟩
  · by_cases here : y = x
    · subst here
      simp only [Circles.lone, Function.update_self, Option.some.injEq] at at_
      subst at_
      exact (ring_nil_iff h' y).2 alone
    · rw [Circles.lone, Function.update_of_ne here] at at_
      apply (held.ring y l at_).frame
      intro z hz
      apply same
      exact ne_of_mem_of_not_mem hz (held.loose_notMem loose at_ here)
  · by_cases here : y = x
    · subst here
      simp only [Circles.lone, Function.update_self, Option.some.injEq] at at_
      subst at_
      simp at inside
    · rw [Circles.lone, Function.update_of_ne here] at at_
      by_cases new : z = x
      · simp [Circles.lone, new]
      · rw [Circles.lone, Function.update_of_ne new]
        exact held.linked y l at_ z inside

omit [DecidableEq N] in
/-- Successor and predecessor are inverse to each other on the nodes of the circles. -/
theorem inverse (held : Held h s) (here : s x = some m) : h.prev (h.next x) = x ∧ h.next (h.prev x) = x := by
  have seg := (held.ring x m here).seg
  refine ⟨?_, seg.next_prev⟩
  cases m with
  | nil => rw [seg.1, seg.2]
  | cons y m => rw [seg.1.1, seg.1.2]

/-- Two circles are one, read from two nodes, or have no node in common. -/
theorem same_or_disjoint (held : Held h s) {y : N} {k : List N} (here : s x = some m) (seen : s y = some k) :
    (x :: m).IsRotated (y :: k) ∨ List.Disjoint (x :: m) (y :: k) := by
  by_cases common : ∃ z, z ∈ x :: m ∧ z ∈ y :: k
  · obtain ⟨z, left, right⟩ := common
    exact Or.inl ((held.ring x m here).meets (held.ring y k seen) left right)
  · exact Or.inr fun z left right => common ⟨z, left, right⟩

end Held

end Minus.Theory
