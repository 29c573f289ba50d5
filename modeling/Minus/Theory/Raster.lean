/-
# Theory.Raster — drawing on a grid

Three things that drawing on a grid of pixels rests on.

`each` makes the operations of a list one after the other and collects what each of
them does; it has no result where one of them has none.

`gridPoints x y w h` are the points of a rectangle, row by row.  Those of them inside
another rectangle are the gridPoints of the rectangle where the two meet, in the same
order (`filter_gridPoints`).

The rounding walk goes from `(0, 0)` to `(a, b)` by unit steps, with an error term
that is a multiple of the distance to the line (`lineErr`).  `Near` is what it keeps
to: on the wider side of the line every step is taken, and the other coordinate is the
nearest there is (`Near.step_wide`, `Near.step_tall`), so the walk comes to `(a, b)`.
-/
import Mathlib.Data.List.Basic
import Mathlib.Tactic.Linarith
import Mathlib.Tactic.Ring

namespace Minus.Theory

set_option autoImplicit false

universe u v

/-! ## Operations that may have no result -/

section Each

variable {α : Type u} {β : Type v}

def each (f : α → Option (List β)) : List α → Option (List β)
  | [] => some []
  | a :: l => do return (← f a) ++ (← each f l)

theorem each_of_some {f : α → Option (List β)} {g : α → List β} {l : List α} (defined : ∀ a ∈ l, f a = some (g a)) :
    each f l = some (l.flatMap g) := by
  induction l with
  | nil => rfl
  | cons a l ih =>
      rw [each, defined a List.mem_cons_self, ih fun b hb => defined b (List.mem_cons_of_mem _ hb)]
      rfl

/-- A list of operations has a result only if each of them has. -/
theorem defined_of_each {f : α → Option (List β)} {l : List α} {r : List β} (result : each f l = some r) {a : α}
    (member : a ∈ l) : ∃ s, f a = some s ∧ s ⊆ r := by
  induction l generalizing r with
  | nil => simp at member
  | cons b l ih =>
      cases first : f b with
      | none => simp [each, first] at result
      | some s =>
          cases rest : each f l with
          | none => simp [each, first, rest] at result
          | some t =>
              obtain rfl : s ++ t = r := by simpa [each, first, rest] using result
              rcases List.mem_cons.1 member with rfl | member
              · exact ⟨s, first, List.subset_append_left s t⟩
              · obtain ⟨s', here, inside⟩ := ih rest member
                exact ⟨s', here, fun c hc => List.mem_append_right s (inside hc)⟩

/-- Operations that do nothing can be left out. -/
theorem each_filter {f : α → Option (List β)} {p : α → Bool} {l : List α}
    (nothing : ∀ a ∈ l, p a = false → f a = some []) : each f (l.filter p) = each f l := by
  induction l with
  | nil => rfl
  | cons a l ih =>
      have rest := ih fun b hb => nothing b (List.mem_cons_of_mem _ hb)
      cases kept : p a with
      | true => rw [List.filter_cons_of_pos kept, each, each, rest]
      | false =>
          rw [List.filter_cons_of_neg (by simp [kept]), each, rest, nothing a List.mem_cons_self kept]
          cases each f l <;> rfl

end Each

/-! ## The points of a rectangle -/

/-- `x`, `x + 1`, …, `n` of them. -/
def ints (x : Int) : Nat → List Int
  | 0 => []
  | n + 1 => x :: ints (x + 1) n

@[simp] theorem mem_ints {x i : Int} {n : Nat} : i ∈ ints x n ↔ x ≤ i ∧ i < x + n := by
  induction n generalizing x with
  | zero =>
      simp only [ints, List.not_mem_nil, false_iff]
      omega
  | succ n ih =>
      rw [ints, List.mem_cons, ih]
      omega

theorem filter_ints (x a b : Int) (n : Nat) :
    (ints x n).filter (fun i => a ≤ i ∧ i < b) = ints (max x a) (min (x + n) b - max x a).toNat := by
  induction n generalizing x with
  | zero =>
      have none : (min (x + (0 : Nat)) b - max x a).toNat = 0 := by omega
      rw [none]
      rfl
  | succ n ih =>
      by_cases inside : a ≤ x ∧ x < b
      · have left : max x a = x := by omega
        have next : max (x + 1) a = x + 1 := by omega
        have count : (min (x + ((n + 1 : Nat) : Int)) b - x).toNat = (min (x + 1 + n) b - (x + 1)).toNat + 1 := by omega
        rw [ints, List.filter_cons_of_pos (by simpa using inside), ih, left, next, count, ints]
      · rw [ints, List.filter_cons_of_neg (by simpa using inside), ih]
        by_cases before : x < a
        · have left : max (x + 1) a = max x a := by omega
          have right : x + 1 + (n : Int) = x + ((n + 1 : Nat) : Int) := by omega
          rw [left, right]
        · have none : (min (x + 1 + n) b - max (x + 1) a).toNat = 0 := by omega
          have none' : (min (x + ((n + 1 : Nat) : Int)) b - max x a).toNat = 0 := by omega
          rw [none, none']
          rfl

/-- The points of the rectangle at `(x, y)`, row by row. -/
def gridPoints (x y : Int) (w h : Nat) : List (Int × Int) :=
  (ints y h).flatMap fun j => (ints x w).map fun i => (i, j)

theorem mem_gridPoints {x y : Int} {w h : Nat} {p : Int × Int} :
    p ∈ gridPoints x y w h ↔ (x ≤ p.1 ∧ p.1 < x + w) ∧ y ≤ p.2 ∧ p.2 < y + h := by
  obtain ⟨i, j⟩ := p
  simp only [gridPoints, List.mem_flatMap, List.mem_map, mem_ints, Prod.mk.injEq]
  constructor
  · rintro ⟨j, hj, i, hi, rfl, rfl⟩
    exact ⟨hi, hj⟩
  · rintro ⟨hi, hj⟩
    exact ⟨j, hj, i, hi, rfl, rfl⟩

theorem flatMap_filter {α : Type u} {β : Type v} (q : α → Bool) (f g : α → List β) (l : List α)
    (kept : ∀ a, q a = true → f a = g a) (dropped : ∀ a, q a = false → f a = []) :
    l.flatMap f = (l.filter q).flatMap g := by
  induction l with
  | nil => rfl
  | cons a l ih =>
      cases here : q a with
      | true => rw [List.filter_cons_of_pos here, List.flatMap_cons, List.flatMap_cons, ih, kept a here]
      | false => rw [List.filter_cons_of_neg (by simp [here]), List.flatMap_cons, ih, dropped a here, List.nil_append]

/-- The points inside another rectangle are those of the rectangle where the two meet. -/
theorem filter_gridPoints (x y a b c d : Int) (w h : Nat) :
    (gridPoints x y w h).filter (fun p => (a ≤ p.1 ∧ p.1 < b) ∧ c ≤ p.2 ∧ p.2 < d) =
      gridPoints (max x a) (max y c) (min (x + w) b - max x a).toNat (min (y + h) d - max y c).toNat := by
  rw [gridPoints, gridPoints, List.filter_flatMap, ← filter_ints, ← filter_ints]
  apply flatMap_filter
  · intro j kept
    have inside : c ≤ j ∧ j < d := by simpa using kept
    rw [List.filter_map]
    simp [Function.comp_def, inside]
  · intro j dropped
    rw [List.filter_map, List.map_eq_nil_iff, List.filter_eq_nil_iff]
    intro i _
    simp only [decide_eq_false_iff_not] at dropped
    simpa using fun _ _ low => by omega

theorem gridPoints_eq_nil {x y : Int} {w h : Nat} (empty : w = 0 ∨ h = 0) : gridPoints x y w h = [] := by
  rcases empty with rfl | rfl
  · simp [gridPoints, ints]
  · rfl

theorem ints_succ (x : Int) (n : Nat) : ints x (n + 1) = ints x n ++ [x + n] := by
  induction n generalizing x with
  | zero => simp [ints]
  | succ n ih =>
      have last : x + 1 + (n : Int) = x + ((n + 1 : Nat) : Int) := by omega
      rw [ints, ih, last, ints, List.cons_append]

/-- The last point of a rectangle is its far corner. -/
theorem gridPoints_last (x y : Int) (w h : Nat) :
    ∃ before, gridPoints x y (w + 1) (h + 1) = before ++ [(x + w, y + h)] := by
  refine ⟨gridPoints x y (w + 1) h ++ (ints x w).map fun i => (i, y + (h : Int)), ?_⟩
  rw [gridPoints, ints_succ y h, List.flatMap_append, List.flatMap_singleton, ints_succ x w, List.map_append,
    List.append_assoc, gridPoints, ints_succ x w]
  rfl

/-! ## The rounding walk -/

/-- After `i` steps across and `j` steps up; the line leads from `(0, 0)` to `(a, b)`. -/
def lineErr (a b i j : Int) : Int := (j + 1) * a - (i + 1) * b

/-- Twice the distance to the line, measured along the shorter side, times the longer side. -/
def offLine (a b i j : Int) : Int := 2 * (j * a - i * b)

/-- The other coordinate is rounded to the nearest. -/
def Near (a b i j : Int) : Prop :=
  if b ≤ a then -a < offLine a b i j ∧ offLine a b i j ≤ a else -b ≤ offLine a b i j ∧ offLine a b i j < b

theorem two_lineErr (a b i j : Int) : 2 * lineErr a b i j = offLine a b i j + 2 * a - 2 * b := by
  rw [lineErr, offLine]
  ring

theorem offLine_across (a b i j : Int) : offLine a b (i + 1) j = offLine a b i j - 2 * b := by
  rw [offLine, offLine]
  ring

theorem offLine_up (a b i j : Int) : offLine a b i (j + 1) = offLine a b i j + 2 * a := by
  rw [offLine, offLine]
  ring

section Walk

variable {a b i j : Int}

/-- On a wide line every step goes across. -/
theorem Near.step_wide (near : Near a b i j) (wide : b ≤ a) (rising : 0 ≤ b) :
    -b ≤ 2 * lineErr a b i j ∧ Near a b (i + 1) (if 2 * lineErr a b i j ≤ a then j + 1 else j) := by
  have err := two_lineErr a b i j
  have across := offLine_across a b i j
  have up := offLine_up a b (i + 1) j
  simp only [Near, if_pos wide] at near ⊢
  refine ⟨by omega, ?_⟩
  split <;> omega

/-- On a tall line every step goes up. -/
theorem Near.step_tall (near : Near a b i j) (tall : a < b) (across : 0 ≤ a) :
    2 * lineErr a b i j ≤ a ∧ Near a b (if -b ≤ 2 * lineErr a b i j then i + 1 else i) (j + 1) := by
  have err := two_lineErr a b i j
  have up := offLine_up a b i j
  have across := offLine_across a b i (j + 1)
  have up' := offLine_up a b (i + 1) j
  have across' := offLine_across a b i j
  simp only [Near, if_neg (Int.not_le.2 tall)] at near ⊢
  refine ⟨by omega, ?_⟩
  split <;> omega

/-- At the end of the longer side the walk is at the end of the line. -/
theorem Near.end_wide (near : Near a b a j) (wide : b ≤ a) (positive : 0 < a) : j = b := by
  rw [Near, if_pos wide, offLine, show j * a - a * b = a * (j - b) by ring] at near
  obtain ⟨low, high⟩ := near
  have above : -1 < 2 * (j - b) := by
    by_contra not
    nlinarith
  have below : 2 * (j - b) ≤ 1 := by
    by_contra not
    nlinarith
  omega

theorem Near.end_tall (near : Near a b i b) (tall : a < b) (across : 0 ≤ a) : i = a := by
  rw [Near, if_neg (Int.not_le.2 tall), offLine, show b * a - i * b = b * (a - i) by ring] at near
  obtain ⟨low, high⟩ := near
  have above : -1 ≤ 2 * (a - i) := by
    by_contra not
    nlinarith
  have below : 2 * (a - i) < 1 := by
    by_contra not
    nlinarith
  omega

/-- Between the ends of the longer side the other coordinate is between its ends. -/
theorem Near.bounds_wide (near : Near a b i j) (wide : b ≤ a) (rising : 0 ≤ b) (from_ : 0 ≤ i) (upTo : i ≤ a)
    (positive : 0 < a) : 0 ≤ j ∧ j ≤ b := by
  rw [Near, if_pos wide, offLine] at near
  obtain ⟨low, high⟩ := near
  have start : 0 ≤ i * b := mul_nonneg from_ rising
  have stop : i * b ≤ a * b := mul_le_mul_of_nonneg_right upTo rising
  constructor
  · by_contra not
    nlinarith
  · by_contra not
    nlinarith

theorem Near.bounds_tall (near : Near a b i j) (tall : a < b) (across : 0 ≤ a) (from_ : 0 ≤ j) (upTo : j ≤ b) :
    0 ≤ i ∧ i ≤ a := by
  rw [Near, if_neg (Int.not_le.2 tall), offLine] at near
  obtain ⟨low, high⟩ := near
  have start : 0 ≤ j * a := mul_nonneg from_ across
  have stop : j * a ≤ b * a := mul_le_mul_of_nonneg_right upTo across
  constructor
  · by_contra not
    nlinarith
  · by_contra not
    nlinarith

theorem lineErr_across (a b i j : Int) : lineErr a b (i + 1) j = lineErr a b i j - b := by
  rw [lineErr, lineErr]
  ring

theorem lineErr_up (a b i j : Int) : lineErr a b i (j + 1) = lineErr a b i j + a := by
  rw [lineErr, lineErr]
  ring

/-- `(i, j)` is a point of the walk with `n` steps to go. -/
structure Walk (a b i j : Int) (n : Nat) : Prop where
  across : 0 ≤ i ∧ i ≤ a
  up : 0 ≤ j ∧ j ≤ b
  near : 0 < a ∨ 0 < b → Near a b i j
  left : (if b ≤ a then a - i else b - j) = n

theorem Walk.start (across : 0 ≤ a) (up : 0 ≤ b) : Walk a b 0 0 (max a b).toNat := by
  refine ⟨by omega, by omega, fun positive => ?_, ?_⟩
  · simp only [Near, offLine, zero_mul, sub_zero, mul_zero]
    split <;> omega
  · split <;> omega

theorem Walk.done {i j : Int} (walk : Walk a b i j 0) : i = a ∧ j = b := by
  obtain ⟨across, up, near, left⟩ := walk
  by_cases wide : b ≤ a
  · rw [if_pos wide] at left
    obtain rfl : i = a := by omega
    by_cases positive : 0 < i
    · exact ⟨rfl, (near (Or.inl positive)).end_wide wide positive⟩
    · omega
  · rw [if_neg wide] at left
    obtain rfl : j = b := by omega
    exact ⟨(near (Or.inr (by omega))).end_tall (by omega) (by omega), rfl⟩

theorem Walk.not_done {i j : Int} {n : Nat} (walk : Walk a b i j (n + 1)) : ¬ (i = a ∧ j = b) := by
  have left := walk.left
  split at left <;> omega

/-- One step: across unless the error is too low, up unless it is too high. -/
theorem Walk.step {i j : Int} {n : Nat} (walk : Walk a b i j (n + 1)) :
    Walk a b (if -b ≤ 2 * lineErr a b i j then i + 1 else i) (if 2 * lineErr a b i j ≤ a then j + 1 else j) n := by
  obtain ⟨across, up, near, left⟩ := walk
  by_cases wide : b ≤ a
  · rw [if_pos wide] at left
    have near := near (Or.inl (by omega))
    obtain ⟨taken, next⟩ := near.step_wide wide (by omega)
    rw [if_pos taken]
    exact ⟨by omega, next.bounds_wide wide (by omega) (by omega) (by omega) (by omega), fun _ => next, by
      rw [if_pos wide]
      omega⟩
  · rw [if_neg wide] at left
    have near := near (Or.inr (by omega))
    obtain ⟨taken, next⟩ := near.step_tall (by omega) (by omega)
    rw [if_pos taken]
    exact ⟨next.bounds_tall (by omega) (by omega) (by omega) (by omega), by omega, fun _ => next, by
      rw [if_neg wide]
      omega⟩

theorem Walk.offLine_le {i j : Int} {n : Nat} (walk : Walk a b i j n) : (offLine a b i j).natAbs ≤ max a b := by
  obtain ⟨across, up, near, left⟩ := walk
  by_cases positive : 0 < a ∨ 0 < b
  · have near := near positive
    rw [Near] at near
    split at near <;> omega
  · obtain ⟨rfl, rfl⟩ : a = 0 ∧ b = 0 := by omega
    simp [offLine]

end Walk

end Minus.Theory
