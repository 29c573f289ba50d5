/-
# Theory.Mirror — a sequence turned round in place

`mirror` exchanges the first cell with the last, the second with the one before, and so on.
After `k` exchanges the outer `k` cells at both ends are those of the other end
(`mirror_apply`); half the length of exchanges turn the whole sequence round
(`mirror_half`), and the cell in the middle of an odd number stays.
-/
import Mathlib.Logic.Function.Basic

namespace Minus.Theory

set_option autoImplicit false

universe u

variable {α : Type u}

/-- `c = f[i]; f[i] = f[j]; f[j] = c`. -/
def exchange (f : Nat → α) (i j : Nat) : Nat → α := Function.update (Function.update f i (f j)) j (f i)

/-- The first `k` exchanges among the first `n` cells. -/
def mirror (f : Nat → α) (n : Nat) : Nat → Nat → α
  | 0 => f
  | k + 1 => exchange (mirror f n k) k (n - 1 - k)

theorem exchange_apply (f : Nat → α) (i j x : Nat) :
    exchange f i j x = if x = j then f i else if x = i then f j else f x := by
  by_cases last : x = j
  · rw [exchange, last, Function.update_self, if_pos rfl]
  · rw [exchange, Function.update_of_ne last, if_neg last]
    by_cases first : x = i
    · rw [first, Function.update_self, if_pos rfl]
    · rw [Function.update_of_ne first, if_neg first]

theorem mirror_apply (f : Nat → α) {n k : Nat} (half : k ≤ n / 2) (x : Nat) :
    mirror f n k x = if x < n ∧ (x < k ∨ n ≤ x + k) then f (n - 1 - x) else f x := by
  induction k generalizing x with
  | zero =>
      rw [mirror, if_neg]
      omega
  | succ k ih =>
      have earlier : k ≤ n / 2 := Nat.le_of_succ_le half
      -- neither cell has been exchanged before
      have first : mirror f n k k = f k := by
        rw [ih earlier, if_neg]
        omega
      have last : mirror f n k (n - 1 - k) = f (n - 1 - k) := by
        rw [ih earlier, if_neg]
        omega
      rw [mirror, exchange_apply, first, last, ih earlier]
      by_cases atLast : x = n - 1 - k
      · have back : n - 1 - x = k := by omega
        rw [if_pos atLast, if_pos (by omega), back]
      · rw [if_neg atLast]
        by_cases atFirst : x = k
        · rw [if_pos atFirst, if_pos (by omega), atFirst]
        · rw [if_neg atFirst]
          apply if_congr _ rfl rfl
          omega

/-- **Half as many exchanges as there are cells turn them round.** -/
theorem mirror_half (f : Nat → α) (n x : Nat) :
    mirror f n (n / 2) x = if x < n then f (n - 1 - x) else f x := by
  rw [mirror_apply f (Nat.le_refl _)]
  by_cases inside : x < n
  · rw [if_pos inside]
    by_cases outer : x < n / 2 ∨ n ≤ x + n / 2
    · rw [if_pos ⟨inside, outer⟩]
    · have middle : n - 1 - x = x := by omega
      rw [if_neg fun both => outer both.2, middle]
  · rw [if_neg inside, if_neg fun both => inside both.1]

end Minus.Theory
