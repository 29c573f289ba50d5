/-
# Theory.Cuts — half-open ranges and what is left of them

A range is a pair `(a, b)` over a linear order and stands for `[a, b)`.  `cut r m`
lists what of `m` lies outside `r`, at most two ranges and none of them empty;
`cutAll` cuts every range of a list.  On the points covered this is the set
difference (`covered_cutAll`), and ranges that lie apart stay apart
(`Apart.cutAll`).
-/
import Mathlib.Order.CompletePartialOrder
import Mathlib.Order.Interval.Set.Disjoint
import Mathlib.Data.List.Perm.Basic
import Mathlib.Data.List.Pairwise

namespace Minus.Theory

set_option autoImplicit false

variable {α : Type} [LinearOrder α]

/-- The points of a range. -/
def span (m : α × α) : Set α := Set.Ico m.1 m.2

/-- The points of a list of ranges. -/
def covered (l : List (α × α)) : Set α := {x | ∃ m ∈ l, x ∈ span m}

/-- No two ranges of the list share a point. -/
def Apart (l : List (α × α)) : Prop := l.Pairwise fun m m' => Disjoint (span m) (span m')

/-- What of `m` lies outside `r`. -/
def cut (r m : α × α) : List (α × α) :=
  [(m.1, min m.2 r.1), (max m.1 r.2, m.2)].filter fun p => p.1 < p.2

def cutAll (r : α × α) (l : List (α × α)) : List (α × α) := l.flatMap (cut r)

section Cut

variable {r m p : α × α} {l : List (α × α)} {x : α}

@[simp] theorem mem_span : x ∈ span m ↔ m.1 ≤ x ∧ x < m.2 := Iff.rfl

/-- A point of `m` is in a piece, or in `r`. -/
theorem exists_cut_iff : (∃ p ∈ cut r m, x ∈ span p) ↔ x ∈ span m ∧ x ∉ span r := by
  constructor
  · rintro ⟨p, member, above, below⟩
    obtain ⟨member, -⟩ := List.mem_filter.1 member
    simp only [List.mem_cons, List.not_mem_nil, or_false] at member
    rcases member with rfl | rfl
    · rw [lt_min_iff] at below
      exact ⟨⟨above, below.1⟩, fun inside => not_lt.2 inside.1 below.2⟩
    · rw [max_le_iff] at above
      exact ⟨⟨above.1, below⟩, fun inside => not_lt.2 above.2 inside.2⟩
  · rintro ⟨⟨above, below⟩, outside⟩
    rcases lt_or_ge x r.1 with before | behind
    · have inside : x ∈ span (m.1, min m.2 r.1) := ⟨above, lt_min below before⟩
      exact ⟨_, List.mem_filter.2 ⟨by simp, by simpa using inside.1.trans_lt inside.2⟩, inside⟩
    · have behind : r.2 ≤ x := not_lt.1 fun less => outside ⟨behind, less⟩
      have inside : x ∈ span (max m.1 r.2, m.2) := ⟨max_le above behind, below⟩
      exact ⟨_, List.mem_filter.2 ⟨by simp, by simpa using inside.1.trans_lt inside.2⟩, inside⟩

theorem span_subset_of_mem_cut (member : p ∈ cut r m) : span p ⊆ span m :=
  fun _ inside => (exists_cut_iff.1 ⟨p, member, inside⟩).1

/-- **Cutting is the set difference.** -/
theorem covered_cutAll : covered (cutAll r l) = covered l \ span r := by
  ext x
  constructor
  · rintro ⟨p, member, inside⟩
    obtain ⟨m, member, piece⟩ := List.mem_flatMap.1 member
    obtain ⟨inside, outside⟩ := exists_cut_iff.1 ⟨p, piece, inside⟩
    exact ⟨⟨m, member, inside⟩, outside⟩
  · rintro ⟨⟨m, member, inside⟩, outside⟩
    obtain ⟨p, piece, inside⟩ := exists_cut_iff.2 ⟨inside, outside⟩
    exact ⟨p, List.mem_flatMap.2 ⟨m, member, piece⟩, inside⟩

theorem apart_cut (ordered : r.1 ≤ r.2) : Apart (cut r m) := by
  refine List.Pairwise.filter _ ?_
  simp only [List.pairwise_cons, List.mem_cons, List.not_mem_nil, or_false, forall_eq, false_imp_iff, implies_true,
    List.Pairwise.nil, and_true]
  refine Set.disjoint_left.2 fun x before behind => ?_
  exact not_lt.2 (ordered.trans ((le_max_right _ _).trans behind.1)) (before.2.trans_le (min_le_right _ _))

theorem Apart.cutAll (apart : Apart l) (ordered : r.1 ≤ r.2) : Apart (cutAll r l) := by
  refine List.pairwise_flatMap.2 ⟨fun m _ => apart_cut ordered, ?_⟩
  refine apart.imp fun disjoint p piece p' piece' => ?_
  exact disjoint.mono (span_subset_of_mem_cut piece) (span_subset_of_mem_cut piece')

/-! ## The shapes of an overlap -/

theorem cut_outside (some_ : m.1 < m.2) (nonempty : r.1 < r.2) (outside : r.2 ≤ m.1 ∨ m.2 ≤ r.1) : cut r m = [m] := by
  rcases outside with before | behind
  · have left : ¬ m.1 < min m.2 r.1 := fun less =>
      absurd ((lt_min_iff.1 less).2.trans nonempty) (not_lt.2 before)
    simp only [cut, List.filter_cons, left, max_eq_left before, some_]
    simp
  · have right : ¬ max m.1 r.2 < m.2 := fun less =>
      absurd (nonempty.trans ((le_max_right _ _).trans_lt less)) (not_lt.2 behind)
    simp only [cut, List.filter_cons, right, min_eq_left behind, some_]
    simp

theorem cut_covered (first : r.1 ≤ m.1) (last : m.2 ≤ r.2) : cut r m = [] := by
  have left : ¬ m.1 < min m.2 r.1 := fun less => absurd (lt_min_iff.1 less).2 (not_lt.2 first)
  have right : ¬ max m.1 r.2 < m.2 := fun less => absurd (max_lt_iff.1 less).2 (not_lt.2 last)
  simp only [cut, List.filter_cons, left, right]
  simp

theorem cut_left (first : r.1 ≤ m.1) (inside : m.1 ≤ r.2) (last : r.2 < m.2) : cut r m = [(r.2, m.2)] := by
  have left : ¬ m.1 < min m.2 r.1 := fun less => absurd (lt_min_iff.1 less).2 (not_lt.2 first)
  simp only [cut, List.filter_cons, left, max_eq_right inside, last]
  simp

theorem cut_right (first : m.1 < r.1) (inside : r.1 ≤ m.2) (last : m.2 ≤ r.2) : cut r m = [(m.1, r.1)] := by
  have right : ¬ max m.1 r.2 < m.2 := fun less => absurd (max_lt_iff.1 less).2 (not_lt.2 last)
  simp only [cut, List.filter_cons, right, min_eq_right inside, first]
  simp

theorem cut_middle (first : m.1 < r.1) (ordered : r.1 ≤ r.2) (last : r.2 < m.2) :
    cut r m = [(m.1, r.1), (r.2, m.2)] := by
  have inside : m.1 ≤ r.2 := first.le.trans ordered
  simp only [cut, List.filter_cons, min_eq_right (ordered.trans last.le), max_eq_right inside, first, last]
  simp

end Cut

section Lists

variable {r : α × α} {l l' : List (α × α)}

theorem Apart.perm (apart : Apart l) (same : l.Perm l') : Apart l' :=
  (same.pairwise_iff fun disjoint => disjoint.symm).1 apart

theorem covered_perm (same : l.Perm l') : covered l = covered l' := by
  ext x
  simp only [covered, Set.mem_ofPred_eq, same.mem_iff]

theorem cutAll_cons (r m : α × α) (l : List (α × α)) : cutAll r (m :: l) = cut r m ++ cutAll r l :=
  List.flatMap_cons

theorem cutAll_append (r : α × α) (l l' : List (α × α)) : cutAll r (l ++ l') = cutAll r l ++ cutAll r l' :=
  List.flatMap_append

theorem cutAll_perm (same : l.Perm l') : (cutAll r l).Perm (cutAll r l') :=
  same.flatMap_right _

/-- Ranges outside `r` are not cut. -/
theorem cutAll_outside (some_ : ∀ m ∈ l, m.1 < m.2) (nonempty : r.1 < r.2)
    (outside : ∀ m ∈ l, r.2 ≤ m.1 ∨ m.2 ≤ r.1) : cutAll r l = l := by
  induction l with
  | nil => rfl
  | cons m rest ih =>
      rw [List.forall_mem_cons] at some_ outside
      rw [cutAll_cons, cut_outside some_.1 nonempty outside.1, ih some_.2 outside.2, List.singleton_append]

/-- Cutting one range after the other, the empty ones left out. -/
def cutEach (l : List (α × α)) (rs : List (α × α)) : List (α × α) :=
  rs.foldl (fun l r => if r.1 < r.2 then cutAll r l else l) l

theorem cutEach_append (l rs rs' : List (α × α)) : cutEach l (rs ++ rs') = cutEach (cutEach l rs) rs' :=
  List.foldl_append

theorem cutEach_perm (same : l.Perm l') (r : α × α) : (cutEach l [r]).Perm (cutEach l' [r]) := by
  simp only [cutEach, List.foldl_cons, List.foldl_nil]
  split
  · exact cutAll_perm same
  · exact same

theorem covered_cons (r : α × α) (rs : List (α × α)) : covered (r :: rs) = span r ∪ covered rs := by
  ext x
  simp [covered]

/-- **Cutting them all is the set difference.** -/
theorem covered_cutEach (l rs : List (α × α)) : covered (cutEach l rs) = covered l \ covered rs := by
  induction rs generalizing l with
  | nil => simp [cutEach, covered]
  | cons r rest ih =>
      have step : covered (if r.1 < r.2 then cutAll r l else l) = covered l \ span r := by
        split
        · exact covered_cutAll
        · rw [span, Set.Ico_eq_empty ‹_›, Set.sdiff_empty]
      rw [cutEach, List.foldl_cons, ← cutEach, ih, step, covered_cons, Set.sdiff_sdiff]

end Lists

end Minus.Theory
