/-
# Theory.Occurrence — the first place where one list occurs in another

`FirstAt w v k`: from place `k` on `v` starts with `w`, and from no place before.
`firstAt` tries one place after the other.  It finds the first occurrence
(`firstAt_eq_some_iff`), and nothing only where there is none (`firstAt_eq_none_iff`).
-/
import Mathlib.Data.List.Infix

namespace Minus.Theory

set_option autoImplicit false

universe u

variable {α : Type u}

structure FirstAt (w v : List α) (k : Nat) : Prop where
  occurs : w <+: v.drop k
  first : ∀ j < k, ¬ w <+: v.drop j

def firstAt [DecidableEq α] (w : List α) : List α → Option Nat
  | [] => if w = [] then some 0 else none
  | a :: v => if w <+: a :: v then some 0 else (firstAt w v).map (· + 1)

theorem firstAt_zero_iff {w v : List α} : FirstAt w v 0 ↔ w <+: v :=
  ⟨fun here => here.occurs, fun here => ⟨here, nofun⟩⟩

theorem firstAt_succ_iff {w v : List α} {a : α} {k : Nat} :
    FirstAt w (a :: v) (k + 1) ↔ ¬ w <+: a :: v ∧ FirstAt w v k := by
  constructor
  · intro later
    refine ⟨later.first 0 (Nat.succ_pos k), later.occurs, fun j before => ?_⟩
    exact later.first (j + 1) (Nat.succ_lt_succ before)
  · rintro ⟨notHere, later⟩
    refine ⟨later.occurs, fun j before => ?_⟩
    cases j with
    | zero => exact notHere
    | succ j => exact later.first j (Nat.lt_of_succ_lt_succ before)

/-- No list but the empty one occurs at the end. -/
theorem FirstAt.le_length {w v : List α} {k : Nat} (here : FirstAt w v k) : k ≤ v.length := by
  by_contra beyond
  have empty : w = [] := by
    have occurs := here.occurs
    rwa [List.drop_eq_nil_of_le (by omega), List.prefix_nil] at occurs
  exact here.first 0 (by omega) (empty ▸ List.nil_prefix)

variable [DecidableEq α]

theorem firstAt_eq_some_iff {w v : List α} {k : Nat} : firstAt w v = some k ↔ FirstAt w v k := by
  induction v generalizing k with
  | nil =>
      unfold firstAt
      by_cases empty : w = []
      · rw [if_pos empty, Option.some.injEq]
        constructor
        · rintro rfl
          exact firstAt_zero_iff.2 (empty ▸ List.nil_prefix)
        · intro here
          exact (Nat.le_zero.1 here.le_length).symm
      · rw [if_neg empty]
        refine iff_of_false nofun fun here => empty ?_
        have occurs := here.occurs
        rwa [List.drop_nil, List.prefix_nil] at occurs
  | cons a v ih =>
      unfold firstAt
      by_cases here : w <+: a :: v
      · rw [if_pos here, Option.some.injEq]
        constructor
        · rintro rfl
          exact firstAt_zero_iff.2 here
        · intro at_
          by_contra other
          exact at_.first 0 (Nat.pos_of_ne_zero fun zero => other zero.symm) here
      · rw [if_neg here, Option.map_eq_some_iff]
        constructor
        · rintro ⟨j, found, rfl⟩
          exact firstAt_succ_iff.2 ⟨here, ih.1 found⟩
        · intro at_
          cases k with
          | zero => exact absurd (firstAt_zero_iff.1 at_) here
          | succ j => exact ⟨j, ih.2 (firstAt_succ_iff.1 at_).2, rfl⟩

theorem firstAt_eq_none_iff {w v : List α} : firstAt w v = none ↔ ¬ w <:+: v := by
  induction v with
  | nil =>
      unfold firstAt
      by_cases empty : w = []
      · simp [empty]
      · simp [empty, List.infix_nil]
  | cons a v ih =>
      unfold firstAt
      rw [List.infix_cons_iff]
      by_cases here : w <+: a :: v
      · simp [here]
      · rw [if_neg here, Option.map_eq_none_iff, ih, or_iff_right here]

end Minus.Theory
