/-
# Theory.Prefix — how far a loop gets, and what it has written

`LongestPrefix p n k`: of the first `n` places `p` holds of the first `k`, and not of the
next.  A loop that goes on in chunks gets as far as one that goes place by place
(`LongestPrefix.append`).

`scatter` writes a sequence of values to places of a memory, the last value where a place
comes twice; a copy into one page is a `scatter` along a range (`scatter_range`), and
two copies are one (`scatter_append`).
-/
import Mathlib.Logic.Function.Basic
import Mathlib.Algebra.Order.Ring.Nat

namespace Minus.Theory

set_option autoImplicit false

universe u v

/-! ## Prefixes -/

structure LongestPrefix (p : Nat → Prop) (n k : Nat) : Prop where
  le : k ≤ n
  all : ∀ i < k, p i
  stop : k < n → ¬ p k

namespace LongestPrefix

variable {p q : Nat → Prop} {n k l c : Nat}

theorem unique (first : LongestPrefix p n k) (second : LongestPrefix p n l) : k = l := by
  rcases Nat.lt_trichotomy k l with less | same | more
  · exact absurd (second.all k less) (first.stop (Nat.lt_of_lt_of_le less second.le))
  · exact same
  · exact absurd (first.all l more) (second.stop (Nat.lt_of_lt_of_le more first.le))

theorem none (n : Nat) (first : ¬ p 0) : LongestPrefix p n 0 := ⟨Nat.zero_le n, nofun, fun _ => first⟩

theorem zero (p : Nat → Prop) : LongestPrefix p 0 0 := ⟨Nat.le_refl 0, nofun, nofun⟩

/-- A chunk, and how far it goes on from there. -/
theorem append (chunk : ∀ i < c, p i) (rest : LongestPrefix (fun i => p (c + i)) n k) :
    LongestPrefix p (c + n) (c + k) where
  le := Nat.add_le_add_left rest.le c
  all i below := by
    by_cases inside : i < c
    · exact chunk i inside
    · have later := rest.all (i - c) (by omega)
      rwa [show c + (i - c) = i by omega] at later
  stop less := rest.stop (by omega)

theorem exists_ (p : Nat → Prop) (n : Nat) : ∃ k, LongestPrefix p n k := by
  induction n generalizing p with
  | zero => exact ⟨0, zero p⟩
  | succ n ih =>
      by_cases first : p 0
      · obtain ⟨k, rest⟩ := ih fun i => p (1 + i)
        have chunk : ∀ i < 1, p i := fun i below => by rwa [Nat.lt_one_iff.1 below]
        exact ⟨1 + k, Nat.add_comm 1 n ▸ append chunk rest⟩
      · exact ⟨0, none _ first⟩

/-- Of fewer places. -/
theorem shorten {m : Nat} (longest : LongestPrefix p n k) (fewer : m ≤ n) : LongestPrefix p m (min m k) where
  le := Nat.min_le_left m k
  all i below := longest.all i (Nat.lt_of_lt_of_le below (Nat.min_le_right m k))
  stop less := by
    have cut : k < m := by omega
    rw [Nat.min_eq_right cut.le]
    exact longest.stop (by omega)

/-- The places from `c` on, where `c` is reached. -/
theorem drop (longest : LongestPrefix p n k) (reached : c ≤ k) : LongestPrefix (fun i => p (c + i)) (n - c) (k - c) where
  le := Nat.sub_le_sub_right longest.le c
  all i below := longest.all (c + i) (by omega)
  stop less := by
    have stop := longest.stop (by omega)
    rwa [show c + (k - c) = k by omega]

theorem congr (same : ∀ i < n, p i ↔ q i) (longest : LongestPrefix p n k) : LongestPrefix q n k where
  le := longest.le
  all i below := (same i (Nat.lt_of_lt_of_le below longest.le)).1 (longest.all i below)
  stop less holds := longest.stop less ((same k less).2 holds)

/-- A stronger property holds as far, if it holds of these. -/
theorem strengthen (longest : LongestPrefix p n k) (weaker : ∀ i, q i → p i) (all : ∀ i < k, q i) :
    LongestPrefix q n k :=
  ⟨longest.le, all, fun less holds => longest.stop less (weaker k holds)⟩

end LongestPrefix

/-! ## Writes -/

section Scatter

variable {α : Type u} {β : Type v} [DecidableEq α] {loc loc' : Nat → α} {src : Nat → β} {m : α → β}

/-- Write `src 0`, .., `src (k - 1)` to the places `loc 0`, .., `loc (k - 1)`. -/
def scatter (loc : Nat → α) (src : Nat → β) : Nat → (α → β) → (α → β)
  | 0, m => m
  | k + 1, m => Function.update (scatter loc src k m) (loc k) (src k)

@[simp] theorem scatter_zero (loc : Nat → α) (src : Nat → β) (m : α → β) : scatter loc src 0 m = m := rfl

theorem scatter_append (loc : Nat → α) (src : Nat → β) (c k : Nat) (m : α → β) :
    scatter loc src (c + k) m =
      scatter (fun i => loc (c + i)) (fun i => src (c + i)) k (scatter loc src c m) := by
  induction k with
  | zero => rfl
  | succ k ih => rw [← Nat.add_assoc, scatter, ih, scatter]

theorem scatter_congr {k : Nat} (same : ∀ i < k, loc i = loc' i) : scatter loc src k m = scatter loc' src k m := by
  induction k with
  | zero => rfl
  | succ k ih => rw [scatter, scatter, same k (Nat.lt_succ_self k), ih fun i below => same i (by omega)]

theorem scatter_congr_src {src' : Nat → β} {k : Nat} (same : ∀ i < k, src i = src' i) :
    scatter loc src k m = scatter loc src' k m := by
  induction k with
  | zero => rfl
  | succ k ih => rw [scatter, scatter, same k (Nat.lt_succ_self k), ih fun i below => same i (by omega)]

/-- What a place holds does not depend on the other places. -/
theorem scatter_local {k : Nat} {x : α} {m' : α → β} (same : m x = m' x) :
    scatter loc src k m x = scatter loc src k m' x := by
  induction k with
  | zero => exact same
  | succ k ih =>
      rw [scatter, scatter]
      by_cases here : x = loc k
      · rw [here, Function.update_self, Function.update_self]
      · rw [Function.update_of_ne here, Function.update_of_ne here, ih]

theorem scatter_elsewhere {k : Nat} {x : α} (elsewhere : ∀ i < k, loc i ≠ x) : scatter loc src k m x = m x := by
  induction k with
  | zero => rfl
  | succ k ih =>
      rw [scatter, Function.update_of_ne (elsewhere k (Nat.lt_succ_self k)).symm]
      exact ih fun i below => elsewhere i (by omega)

/-- A place that is written holds the value, where all values are the same. -/
theorem scatter_const {k i : Nat} {b : β} (below : i < k) : scatter loc (fun _ => b) k m (loc i) = b := by
  induction k with
  | zero => omega
  | succ k ih =>
      rw [scatter]
      by_cases here : loc i = loc k
      · rw [here, Function.update_self]
      · rw [Function.update_of_ne here]
        have other : i ≠ k := fun same => here (by rw [same])
        exact ih (by omega)

/-- The last time that a place comes. -/
theorem exists_last (loc : Nat → α) {i k : Nat} (below : i < k) :
    ∃ j, i ≤ j ∧ j < k ∧ loc j = loc i ∧ ∀ l, j < l → l < k → loc l ≠ loc i := by
  induction k with
  | zero => omega
  | succ k ih =>
      by_cases here : loc k = loc i
      · exact ⟨k, by omega, Nat.lt_succ_self k, here, fun l _ _ => by omega⟩
      · have other : i ≠ k := fun same => here (by rw [same])
        obtain ⟨j, le, less, same, last⟩ := ih (by omega)
        refine ⟨j, le, by omega, same, fun l after before => ?_⟩
        by_cases end_ : l = k
        · rwa [end_]
        · exact last l after (by omega)

theorem scatter_last {j k : Nat} (below : j < k) (last : ∀ l, j < l → l < k → loc l ≠ loc j) :
    scatter loc src k m (loc j) = src j := by
  induction k with
  | zero => omega
  | succ k ih =>
      rw [scatter]
      by_cases end_ : j = k
      · rw [end_, Function.update_self]
      · rw [Function.update_of_ne (last k (by omega) (Nat.lt_succ_self k)).symm]
        exact ih (by omega) fun l after before => last l after (by omega)

end Scatter

/-- Along a range of one page. -/
theorem scatter_range {α : Type u} {β : Type v} [DecidableEq α] (page : α) (offset k : Nat) (src : Nat → β)
    (m : α × Nat → β) (x : α × Nat) :
    scatter (fun i => (page, offset + i)) src k m x =
      if x.1 = page ∧ offset ≤ x.2 ∧ x.2 < offset + k then src (x.2 - offset) else m x := by
  obtain ⟨p, o⟩ := x
  induction k with
  | zero => rw [scatter_zero, if_neg (by rintro ⟨-, low, high⟩; exact absurd high (by simpa using low))]
  | succ k ih =>
      rw [scatter]
      by_cases here : (p, o) = (page, offset + k)
      · obtain ⟨rfl, rfl⟩ := Prod.mk.inj here
        rw [Function.update_self, if_pos ⟨rfl, by omega, by omega⟩, show offset + k - offset = k by omega]
      · rw [Function.update_of_ne here, ih]
        by_cases page_ : p = page
        · have other : o ≠ offset + k := fun is => here (by rw [page_, is])
          have same : offset ≤ o ∧ o < offset + k ↔ offset ≤ o ∧ o < offset + (k + 1) := by omega
          simp only [same]
        · rw [if_neg fun both => page_ both.1, if_neg fun both => page_ both.1]

end Minus.Theory
