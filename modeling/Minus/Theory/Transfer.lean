/-
# Theory.Transfer — a sequence of assignments as one simultaneous assignment

A move `(d, s)` copies the cell at `s` to the cell at `d`, and `transfer` makes
a list of moves one after the other.  What a move reads may be what an earlier
move wrote.  In a list that is `Ordered` it never is, and no cell is written
twice, so every target ends up with what its source held before the first move
(`transfer_target`), and the cells that are no target keep what they had
(`transfer_outside`).
-/
import Mathlib.Logic.Function.Basic
import Mathlib.Data.List.Basic

namespace Minus.Theory

set_option autoImplicit false

universe u v

variable {A : Type u} {V : Type v} [DecidableEq A]

/-- `*d = *s` for each pair `(d, s)`, in the order of the list. -/
def transfer (m : A → V) : List (A × A) → A → V
  | [] => m
  | (d, s) :: rest => transfer (Function.update m d (m s)) rest

/-- No move reads or writes what an earlier one wrote. -/
def Ordered (moves : List (A × A)) : Prop :=
  moves.Pairwise fun earlier later => later.2 ≠ earlier.1 ∧ later.1 ≠ earlier.1

theorem transfer_outside (m : A → V) {moves : List (A × A)} {x : A} (outside : ∀ p ∈ moves, p.1 ≠ x) :
    transfer m moves x = m x := by
  induction moves generalizing m with
  | nil => rfl
  | cons p rest ih =>
      rw [transfer, ih _ fun q hq => outside q (List.mem_cons_of_mem _ hq)]
      apply Function.update_of_ne
      exact (outside p List.mem_cons_self).symm

/-- Every target holds what its source held at first. -/
theorem transfer_target (m : A → V) {moves : List (A × A)} (ordered : Ordered moves) {p : A × A}
    (member : p ∈ moves) : transfer m moves p.1 = m p.2 := by
  induction moves generalizing m with
  | nil => simp at member
  | cons q rest ih =>
      obtain ⟨first, ordered⟩ := List.pairwise_cons.1 ordered
      rw [transfer]
      rcases List.mem_cons.1 member with rfl | member
      · rw [transfer_outside _ fun later hlater => (first later hlater).2]
        simp
      · rw [ih _ ordered member]
        apply Function.update_of_ne
        exact (first p member).1

end Minus.Theory
