/-
# Theory.Ring — circular doubly linked lists in a heap of links

A heap of links gives every node a successor and a predecessor.  `Ring h head l`
says that the nodes reached from `head` are exactly `l`, in that order, and back
to `head`, with the predecessor links agreeing.  A node linked to itself is the
ring with no other member, so membership in a list and being self-linked are
the same kind of fact.

`Family` is a set of such rings with no node in common.  Its rules say what
`splice` (link a node between two neighbours) and `unlink` do to the family:
one list changes and every other list is framed.
-/
import Mathlib.Data.List.Nodup
import Mathlib.Logic.Function.Basic

namespace Minus.Theory

set_option autoImplicit false

universe u v

/-- Successor and predecessor links of every node. -/
structure Links (N : Type u) where
  prev : N → N
  next : N → N

namespace Links

variable {N : Type u}

/-- Link `x` between `a` and `b`. -/
def splice [DecidableEq N] (h : Links N) (a x b : N) : Links N where
  next := Function.update (Function.update h.next x b) a x
  prev := Function.update (Function.update h.prev x a) b x

/-- Link the neighbours of `x` to each other and `x` to itself. -/
def unlink [DecidableEq N] (h : Links N) (x : N) : Links N where
  next := Function.update (Function.update h.next (h.prev x) (h.next x)) x x
  prev := Function.update (Function.update h.prev (h.next x) (h.prev x)) x x

/-- A node that is on no list is linked to itself. -/
def Alone (h : Links N) (x : N) : Prop := h.next x = x ∧ h.prev x = x

theorem unlink_alone [DecidableEq N] (h : Links N) (x : N) : (h.unlink x).Alone x := by
  simp [Alone, unlink]

/-- Unlinking a node that is on no list is no change. -/
theorem unlink_of_alone [DecidableEq N] {h : Links N} {x : N} (alone : h.Alone x) : h.unlink x = h := by
  obtain ⟨next, prev⟩ := h
  simp only [Alone] at alone
  simp only [unlink, alone.1, alone.2, Function.update_idem, Links.mk.injEq]
  constructor <;> funext y <;> by_cases here : y = x <;> simp [here, alone.1, alone.2]

/-- The links from `a` through `l` to `b` are in place. -/
def Seg (h : Links N) : N → List N → N → Prop
  | a, [], b => h.next a = b ∧ h.prev b = a
  | a, x :: l, b => (h.next a = x ∧ h.prev x = a) ∧ Seg h x l b

theorem seg_append (h : Links N) (a b x : N) (l m : List N) :
    h.Seg a (l ++ x :: m) b ↔ h.Seg a l x ∧ h.Seg x m b := by
  induction l generalizing a with
  | nil => simp [Seg]
  | cons y l ih => simp [Seg, ih, and_assoc]

/-- A segment reads the successors of `a :: l` and the predecessors of `l ++ [b]`. -/
theorem Seg.congr {h h' : Links N} {a b : N} {l : List N} (seg : h.Seg a l b)
    (next : ∀ y ∈ a :: l, h'.next y = h.next y) (prev : ∀ y, y ∈ l ∨ y = b → h'.prev y = h.prev y) :
    h'.Seg a l b := by
  induction l generalizing a with
  | nil => exact ⟨(next a (by simp)).trans seg.1, (prev b (by simp)).trans seg.2⟩
  | cons x l ih =>
      refine ⟨⟨(next a (by simp)).trans seg.1.1, (prev x (by simp)).trans seg.1.2⟩,
        ih seg.2 (fun y hy => next y (List.mem_cons_of_mem _ hy)) fun y hy => prev y ?_⟩
      rcases hy with hy | hy
      · exact Or.inl (List.mem_cons_of_mem _ hy)
      · exact Or.inr hy

/-- The circular list of `head` is `l`. -/
structure Ring (h : Links N) (head : N) (l : List N) : Prop where
  seg : h.Seg head l head
  nodup : (head :: l).Nodup

theorem ring_nil_iff (h : Links N) (x : N) : h.Ring x [] ↔ h.Alone x :=
  ⟨fun ring => ring.seg, fun alone => ⟨alone, by simp⟩⟩

theorem Ring.frame {h h' : Links N} {head : N} {l : List N} (ring : h.Ring head l)
    (same : ∀ y ∈ head :: l, h'.next y = h.next y ∧ h'.prev y = h.prev y) : h'.Ring head l where
  seg := ring.seg.congr (fun y hy => (same y hy).1) fun y hy => (same y (by
    rcases hy with hy | hy
    · exact List.mem_cons_of_mem _ hy
    · exact hy ▸ List.mem_cons_self)).2
  nodup := ring.nodup

theorem Seg.unique {h : Links N} {a b : N} {l m : List N} (seg : h.Seg a l b) (seg' : h.Seg a m b)
    (absent : b ∉ l) (absent' : b ∉ m) : l = m := by
  induction l generalizing a m with
  | nil =>
      cases m with
      | nil => rfl
      | cons y m => exact absurd (seg.1.symm.trans seg'.1.1) fun same => absent' (by simp [same])
  | cons x l ih =>
      cases m with
      | nil => exact absurd (seg'.1.symm.trans seg.1.1) fun same => absent (by simp [same])
      | cons y m =>
          have same : x = y := seg.1.1.symm.trans seg'.1.1
          subst same
          rw [ih seg.2 seg'.2 (fun inside => absent (List.mem_cons_of_mem _ inside))
            fun inside => absent' (List.mem_cons_of_mem _ inside)]

/-- The links determine the list of a head. -/
theorem Ring.unique {h : Links N} {head : N} {l m : List N} (ring : h.Ring head l)
    (ring' : h.Ring head m) : l = m :=
  ring.seg.unique ring'.seg (List.nodup_cons.1 ring.nodup).1 (List.nodup_cons.1 ring'.nodup).1

/-- The first member, or the head of an empty list, is the head's successor. -/
theorem Ring.next_head {h : Links N} {head : N} {l : List N} (ring : h.Ring head l) :
    h.next head = l.headD head := by
  cases l with
  | nil => exact ring.seg.1
  | cons x l => exact ring.seg.1.1

theorem Ring.empty_iff {h : Links N} {head : N} {l : List N} (ring : h.Ring head l) :
    h.next head = head ↔ l = [] := by
  rw [ring.next_head]
  cases l with
  | nil => simp
  | cons x l =>
      have apart : head ≠ x := fun same => (List.nodup_cons.1 ring.nodup).1 (by simp [same])
      simpa using fun same => apart same.symm

/-- A member of a list with a head is linked to something else. -/
theorem Ring.not_alone {h : Links N} {head x : N} {l : List N} (ring : h.Ring head l)
    (member : x ∈ l) : h.next x ≠ x := by
  obtain ⟨before, after, rfl⟩ := List.append_of_mem member
  have seg := ((seg_append h head head x before after).1 ring.seg).2
  have nodup := ring.nodup
  cases after with
  | nil =>
      have apart : head ≠ x := fun same => (List.nodup_cons.1 nodup).1 (by simp [same])
      rw [seg.1]
      exact apart
  | cons y after =>
      have apart : x ≠ y := by
        have := (List.nodup_append.1 (List.nodup_cons.1 nodup).2).2.1
        exact fun same => (List.nodup_cons.1 this).1 (by simp [same])
      rw [seg.1.1]
      exact apart.symm

/-! ## One list -/

/-- The predecessor of a segment's end is its last node. -/
theorem Seg.prev_mem {h : Links N} {a b : N} {l : List N} (seg : h.Seg a l b) :
    h.prev b ∈ a :: l := by
  induction l generalizing a with
  | nil => simp [seg.2]
  | cons x l ih => exact List.mem_cons_of_mem _ (ih seg.2)

/-- Moving the end of a segment from `x` to `b` rewrites its last successor only. -/
theorem Seg.retarget {h h' : Links N} {a x b : N} {l : List N} (seg : h.Seg a l x)
    (nodup : (a :: l).Nodup) (nextLast : h'.next (h.prev x) = b)
    (prevEnd : h'.prev b = h.prev x)
    (next : ∀ y ∈ a :: l, y ≠ h.prev x → h'.next y = h.next y)
    (prev : ∀ y ∈ l, h'.prev y = h.prev y) : h'.Seg a l b := by
  induction l generalizing a with
  | nil =>
      rw [seg.2] at nextLast prevEnd
      exact ⟨nextLast, prevEnd⟩
  | cons y l ih =>
      have last := seg.2.prev_mem
      have first : a ≠ h.prev x := fun same => (List.nodup_cons.1 nodup).1 (same ▸ last)
      refine ⟨⟨(next a (by simp) first).trans seg.1.1, (prev y (by simp)).trans seg.1.2⟩,
        ih seg.2 (List.nodup_cons.1 nodup).2 (fun z hz => next z (List.mem_cons_of_mem _ hz))
          fun z hz => prev z (List.mem_cons_of_mem _ hz)⟩

/-- The neighbours of a member are the head or members. -/
theorem Ring.neighbours {h : Links N} {head x : N} {l : List N} (ring : h.Ring head l) (member : x ∈ l) :
    h.prev x ∈ head :: l ∧ h.next x ∈ head :: l := by
  obtain ⟨before, after, rfl⟩ := List.append_of_mem member
  obtain ⟨segBefore, segAfter⟩ := (seg_append h head head x before after).1 ring.seg
  have last := segBefore.prev_mem
  refine ⟨?_, ?_⟩
  · rcases List.mem_cons.1 last with same | inside
    · simp [same]
    · simp [inside]
  · cases after with
    | nil => simp [segAfter.1]
    | cons y after => simp [segAfter.1.1]

variable [DecidableEq N] {h : Links N}

@[simp] theorem splice_next_of_ne {a x b y : N} (hx : y ≠ x) (ha : y ≠ a) :
    (h.splice a x b).next y = h.next y := by simp [splice, hx, ha]

@[simp] theorem splice_prev_of_ne {a x b y : N} (hx : y ≠ x) (hb : y ≠ b) :
    (h.splice a x b).prev y = h.prev y := by simp [splice, hx, hb]

@[simp] theorem unlink_next_of_ne {x y : N} (hx : y ≠ x) (hp : y ≠ h.prev x) :
    (h.unlink x).next y = h.next y := by simp [unlink, hx, hp]

@[simp] theorem unlink_prev_of_ne {x y : N} (hx : y ≠ x) (hn : y ≠ h.next x) :
    (h.unlink x).prev y = h.prev y := by simp [unlink, hx, hn]

theorem Ring.push_front {head x : N} {l : List N} (ring : h.Ring head l) (fresh : x ∉ head :: l) :
    (h.splice head x (h.next head)).Ring head (x :: l) := by
  have xHead : x ≠ head := fun same => fresh (by simp [same])
  have xList : x ∉ l := fun member => fresh (by simp [member])
  obtain ⟨headList, nodup⟩ := List.nodup_cons.1 ring.nodup
  refine ⟨?_, List.nodup_cons.2 ⟨?_, List.nodup_cons.2 ⟨xList, nodup⟩⟩⟩
  · rw [ring.next_head]
    cases l with
    | nil => simp [Seg, splice, xHead]
    | cons y m =>
        obtain ⟨yList, -⟩ := List.nodup_cons.1 nodup
        have yHead : y ≠ head := fun same => headList (by simp [same])
        have yx : y ≠ x := fun same => xList (by simp [same])
        refine ⟨⟨by simp [splice], by simp [splice, yx.symm]⟩,
          ⟨by simp [splice, xHead], by simp [splice]⟩, ring.seg.2.congr (fun z hz => ?_) ?_⟩
        · exact splice_next_of_ne (ne_of_mem_of_not_mem hz xList) (ne_of_mem_of_not_mem hz headList)
        · rintro z (hz | rfl)
          · exact splice_prev_of_ne (ne_of_mem_of_not_mem (List.mem_cons_of_mem _ hz) xList)
              (ne_of_mem_of_not_mem hz yList)
          · exact splice_prev_of_ne xHead.symm yHead.symm
  · simp only [List.mem_cons, not_or]
    exact ⟨xHead.symm, headList⟩

theorem Ring.push_back {head x : N} {l : List N} (ring : h.Ring head l) (fresh : x ∉ head :: l) :
    (h.splice (h.prev head) x head).Ring head (l ++ [x]) := by
  have xHead : x ≠ head := fun same => fresh (by simp [same])
  have xList : x ∉ l := fun member => fresh (by simp [member])
  obtain ⟨headList, nodup⟩ := List.nodup_cons.1 ring.nodup
  have last : h.prev head ∈ head :: l := ring.seg.prev_mem
  have xLast : x ≠ h.prev head := fun same => fresh (same ▸ last)
  refine ⟨?_, ?_⟩
  · rw [seg_append]
    refine ⟨ring.seg.retarget ring.nodup (by simp [splice]) (by simp [splice, xHead]) ?_ ?_,
      by simp [splice, xLast], by simp [splice]⟩
    · exact fun y hy other => splice_next_of_ne (ne_of_mem_of_not_mem hy fresh) other
    · exact fun y hy => splice_prev_of_ne (ne_of_mem_of_not_mem hy xList)
        (ne_of_mem_of_not_mem hy headList)
  · rw [← List.cons_append, List.nodup_append]
    refine ⟨ring.nodup, by simp, ?_⟩
    rintro y hy z hz rfl
    rw [List.mem_singleton.1 hz] at hy
    exact fresh hy

theorem Ring.remove {head x : N} {before after : List N} (ring : h.Ring head (before ++ x :: after)) :
    (h.unlink x).Ring head (before ++ after) := by
  obtain ⟨segBefore, segAfter⟩ := (seg_append h head head x before after).1 ring.seg
  have nodup := ring.nodup
  rw [← List.cons_append, List.nodup_append] at nodup
  obtain ⟨nodupBefore, nodupAfter, apart⟩ := nodup
  have xAfter : x ∉ after := (List.nodup_cons.1 nodupAfter).1
  have xBefore : x ∉ head :: before := fun member => apart x member x (by simp) rfl
  have xHead : head ≠ x := fun same => xBefore (by simp [same])
  have last : h.prev x ∈ head :: before := segBefore.prev_mem
  have lastAfter : ∀ y ∈ x :: after, y ≠ h.prev x := fun y hy same =>
    apart _ last y hy same.symm
  refine ⟨?_, ?_⟩
  · cases after with
    | nil =>
        have next : h.next x = head := segAfter.1
        rw [List.append_nil]
        refine segBefore.retarget nodupBefore ?_ ?_ (fun y hy other => ?_) fun y hy => ?_
        · simp [unlink, next, (lastAfter x (by simp)).symm]
        · simp [unlink, next, xHead]
        · exact unlink_next_of_ne (ne_of_mem_of_not_mem hy xBefore) other
        · refine unlink_prev_of_ne
            (ne_of_mem_of_not_mem (List.mem_cons_of_mem _ hy) xBefore) ?_
          rw [next]
          exact ne_of_mem_of_not_mem hy (List.nodup_cons.1 nodupBefore).1
    | cons y after =>
        have next : h.next x = y := segAfter.1.1
        have yx : y ≠ x := fun same => xAfter (by simp [same])
        have yBefore : y ∉ head :: before := fun member => apart y member y (by simp) rfl
        rw [seg_append]
        refine ⟨segBefore.retarget nodupBefore ?_ ?_ (fun z hz other => ?_) fun z hz => ?_,
          segAfter.2.congr (fun z hz => ?_) ?_⟩
        · simp [unlink, next, (lastAfter x (by simp)).symm]
        · simp [unlink, next, yx]
        · exact unlink_next_of_ne (ne_of_mem_of_not_mem hz xBefore) other
        · refine unlink_prev_of_ne
            (ne_of_mem_of_not_mem (List.mem_cons_of_mem _ hz) xBefore) ?_
          rw [next]
          exact ne_of_mem_of_not_mem (List.mem_cons_of_mem _ hz) yBefore
        · exact unlink_next_of_ne (ne_of_mem_of_not_mem hz xAfter)
            (lastAfter z (List.mem_cons_of_mem _ hz))
        · have yAfter : y ∉ after :=
            (List.nodup_cons.1 (List.nodup_cons.1 nodupAfter).2).1
          rintro z (hz | rfl)
          · refine unlink_prev_of_ne
              (ne_of_mem_of_not_mem (List.mem_cons_of_mem _ hz) xAfter) ?_
            rw [next]
            exact ne_of_mem_of_not_mem hz yAfter
          · refine unlink_prev_of_ne xHead ?_
            rw [next]
            exact fun same => yBefore (by simp [same])
  · rw [← List.cons_append]
    exact List.nodup_append.2 ⟨nodupBefore, (List.nodup_cons.1 nodupAfter).2,
      fun y hy z hz => apart y hy z (List.mem_cons_of_mem _ hz)⟩

theorem Ring.erase {head x : N} {l : List N} (ring : h.Ring head l) (member : x ∈ l) :
    (h.unlink x).Ring head (l.erase x) := by
  obtain ⟨before, after, rfl⟩ := List.append_of_mem member
  have xBefore : x ∉ before := by
    have nodup := (List.nodup_cons.1 ring.nodup).2
    exact fun inside => (List.nodup_append.1 nodup).2.2 x inside x (by simp) rfl
  rw [List.erase_append_right _ xBefore, List.erase_cons_head]
  exact ring.remove

/-! ## Families of lists -/

/-- The lists of the heads in `I` are `items`, and no node is on two of them. -/
structure Family {ι : Type v} (h : Links N) (I : ι → Prop) (head : ι → N) (items : ι → List N) :
    Prop where
  ring : ∀ i, I i → h.Ring (head i) (items i)
  apart : ∀ i j, I i → I j → i ≠ j → List.Disjoint (head i :: items i) (head j :: items j)

section Family

variable {ι : Type v} {I : ι → Prop} {head : ι → N} {items : ι → List N}

omit [DecidableEq N] in
/-- The list of `i` becomes `l`, whose new nodes are on no other list; nothing
else changes. -/
theorem Family.update [DecidableEq ι] {h' : Links N} (family : h.Family I head items) {i : ι} {l : List N}
    (ring : h'.Ring (head i) l)
    (new : ∀ j, I j → j ≠ i → List.Disjoint l (head j :: items j))
    (same : ∀ j, I j → j ≠ i → ∀ y ∈ head j :: items j,
      h'.next y = h.next y ∧ h'.prev y = h.prev y) :
    h'.Family I head (Function.update items i l) := by
  refine ⟨fun j hj => ?_, fun j k hj hk ne => ?_⟩
  · by_cases here : j = i
    · subst here
      simpa using ring
    · rw [Function.update_of_ne here]
      exact (family.ring j hj).frame (same j hj here)
  · have onHead : ∀ j, I j → j ≠ i → I i →
        List.Disjoint (head i :: l) (head j :: items j) := by
      intro j hj other hi
      rw [List.disjoint_cons_left]
      exact ⟨fun member => family.apart i j hi hj other.symm (by simp) member, new j hj other⟩
    by_cases hereJ : j = i
    · subst hereJ
      rw [Function.update_self, Function.update_of_ne ne.symm]
      exact onHead k hk ne.symm hj
    · by_cases hereK : k = i
      · subst hereK
        rw [Function.update_self, Function.update_of_ne ne]
        exact fun y hy hy' => onHead j hj ne hk hy' hy
      · rw [Function.update_of_ne hereJ, Function.update_of_ne hereK]
        exact family.apart j k hj hk ne

theorem Family.push_front [DecidableEq ι] (family : h.Family I head items) {i : ι} (hi : I i) {x : N}
    (fresh : ∀ j, I j → x ∉ head j :: items j) :
    (h.splice (head i) x (h.next (head i))).Family I head
      (Function.update items i (x :: items i)) := by
  have first : h.next (head i) ∈ head i :: items i := by
    rw [(family.ring i hi).next_head]
    cases items i <;> simp
  refine family.update ((family.ring i hi).push_front (fresh i hi)) (fun j hj ne => ?_)
    fun j hj ne y hy => ?_
  · rw [List.disjoint_cons_left]
    exact ⟨fresh j hj, (List.disjoint_cons_left.1 (family.apart i j hi hj ne.symm)).2⟩
  · have other : y ∉ head i :: items i := fun member => family.apart i j hi hj ne.symm member hy
    have yx : y ≠ x := ne_of_mem_of_not_mem hy (fresh j hj)
    exact ⟨splice_next_of_ne yx fun same => other (same ▸ List.mem_cons_self),
      splice_prev_of_ne yx fun same => other (same ▸ first)⟩

theorem Family.push_back [DecidableEq ι] (family : h.Family I head items) {i : ι} (hi : I i) {x : N}
    (fresh : ∀ j, I j → x ∉ head j :: items j) :
    (h.splice (h.prev (head i)) x (head i)).Family I head
      (Function.update items i (items i ++ [x])) := by
  have last : h.prev (head i) ∈ head i :: items i := (family.ring i hi).seg.prev_mem
  refine family.update ((family.ring i hi).push_back (fresh i hi)) (fun j hj ne => ?_)
    fun j hj ne y hy => ?_
  · rw [List.disjoint_append_left, List.singleton_disjoint]
    exact ⟨(List.disjoint_cons_left.1 (family.apart i j hi hj ne.symm)).2, fresh j hj⟩
  · have other : y ∉ head i :: items i := fun member => family.apart i j hi hj ne.symm member hy
    have yx : y ≠ x := ne_of_mem_of_not_mem hy (fresh j hj)
    exact ⟨splice_next_of_ne yx fun same => other (same ▸ last),
      splice_prev_of_ne yx fun same => other (same ▸ List.mem_cons_self)⟩

theorem Family.erase [DecidableEq ι] (family : h.Family I head items) {i : ι} (hi : I i) {x : N}
    (member : x ∈ items i) :
    (h.unlink x).Family I head (Function.update items i ((items i).erase x)) := by
  obtain ⟨before, after⟩ := (family.ring i hi).neighbours member
  refine family.update ((family.ring i hi).erase member) (fun j hj ne => ?_)
    fun j hj ne y hy => ?_
  · have apart := (List.disjoint_cons_left.1 (family.apart i j hi hj ne.symm)).2
    exact fun y hy => apart (List.mem_of_mem_erase hy)
  · have other : y ∉ head i :: items i := fun inside => family.apart i j hi hj ne.symm inside hy
    have yx : y ≠ x := fun same => other (by simp [same, member])
    exact ⟨unlink_next_of_ne yx fun same => other (same ▸ before),
      unlink_prev_of_ne yx fun same => other (same ▸ after)⟩

omit [DecidableEq N] in
theorem Family.mono (family : h.Family I head items) {J : ι → Prop} (sub : ∀ i, J i → I i) :
    h.Family J head items where
  ring i hi := family.ring i (sub i hi)
  apart i j hi hj := family.apart i j (sub i hi) (sub j hj)

omit [DecidableEq N] in
/-- A node on no list becomes the head of an empty one. -/
theorem Family.insert [DecidableEq ι] (family : h.Family I head items) {i : ι}
    (alone : h.Alone (head i)) (outside : ∀ j, I j → head i ∉ head j :: items j) :
    h.Family (fun j => j = i ∨ I j) head (Function.update items i []) := by
  have notIn : ¬ I i := fun inside => outside i inside List.mem_cons_self
  have other (j : ι) (inside : I j) : Function.update items i [] j = items j := by
    apply Function.update_of_ne
    rintro rfl
    exact notIn inside
  have apart (j : ι) (inside : I j) : List.Disjoint [head i] (head j :: items j) :=
    List.singleton_disjoint.mpr (outside j inside)
  refine ⟨fun j hj => ?_, fun j k hj hk ne => ?_⟩
  · rcases hj with rfl | hj
    · rw [Function.update_self]
      exact (ring_nil_iff h _).mpr alone
    · rw [other j hj]
      exact family.ring j hj
  · rcases hj with rfl | hj <;> rcases hk with rfl | hk
    · exact absurd rfl ne
    · rw [Function.update_self, other k hk]
      exact apart k hk
    · rw [Function.update_self, other j hj]
      exact fun y left right => apart j hj right left
    · rw [other j hj, other k hk]
      exact family.apart j k hj hk ne

/-- A self-linked node on no list stays so when another node is spliced in. -/
theorem Family.alone_push (family : h.Family I head items) {i : ι} (hi : I i) {x y : N}
    (alone : h.Alone y) (outside : y ∉ head i :: items i) (ne : y ≠ x) :
    (h.splice (head i) x (h.next (head i))).Alone y ∧
      (h.splice (h.prev (head i)) x (head i)).Alone y := by
  have first : h.next (head i) ∈ head i :: items i := by
    rw [(family.ring i hi).next_head]
    cases items i <;> simp
  have last : h.prev (head i) ∈ head i :: items i := (family.ring i hi).seg.prev_mem
  have notHead : y ≠ head i := fun same => outside (same ▸ List.mem_cons_self)
  refine ⟨⟨?_, ?_⟩, ⟨?_, ?_⟩⟩
  · rw [splice_next_of_ne ne notHead, alone.1]
  · rw [splice_prev_of_ne ne fun same => outside (same ▸ first), alone.2]
  · rw [splice_next_of_ne ne fun same => outside (same ▸ last), alone.1]
  · rw [splice_prev_of_ne ne notHead, alone.2]

/-- A self-linked node on no list stays so when a member is unlinked. -/
theorem Family.alone_erase (family : h.Family I head items) {i : ι} (hi : I i) {x y : N}
    (member : x ∈ items i) (alone : h.Alone y) (outside : y ∉ head i :: items i) :
    (h.unlink x).Alone y := by
  obtain ⟨before, after⟩ := (family.ring i hi).neighbours member
  have ne : y ≠ x := fun same => outside (by simp [same, member])
  refine ⟨?_, ?_⟩
  · rw [unlink_next_of_ne ne fun same => outside (same ▸ before), alone.1]
  · rw [unlink_prev_of_ne ne fun same => outside (same ▸ after), alone.2]

end Family

end Links

end Minus.Theory
