/-
# Theory.Numeral — numbers written out

The numeral of a number to a base has its digits with the most significant first, none of
them a zero in front; zero is the digit 0.  `IsNumeral` says what this comes to: the digits
lie below the base, their value is the number, and no other digits with that value are
fewer.

A program finds the digits the other way round, by dividing (`numeral_step`), and a reader
adds them up as they come (`value`).
-/
import Mathlib.Data.Nat.Digits.Lemmas

namespace Minus.Theory

set_option autoImplicit false

/-- The value of digits, read from the left. -/
def value (base : Nat) (ds : List Nat) : Nat := ds.foldl (fun v d => v * base + d) 0

/-- The digits of `n`, the most significant first. -/
def numeral (base n : Nat) : List Nat := if n = 0 then [0] else (Nat.digits base n).reverse

structure IsNumeral (base n : Nat) (ds : List Nat) : Prop where
  nonempty : ds ≠ []
  below : ∀ d ∈ ds, d < base
  value : value base ds = n
  leading : ds.head? = some 0 → n = 0
  shortest : ∀ es, es ≠ [] → (∀ d ∈ es, d < base) → Theory.value base es = n → ds.length ≤ es.length

theorem value_reverse (base : Nat) (ds : List Nat) : value base ds.reverse = Nat.ofDigits base ds := by
  rw [Nat.ofDigits_eq_foldr, value, List.foldl_reverse]
  apply congrArg fun f => List.foldr f 0 ds
  funext d v
  rw [Nat.mul_comm, Nat.add_comm]
  rfl

/-- Digits have a value that their number bounds. -/
theorem value_lt {base : Nat} (two : 1 < base) {ds : List Nat} (below : ∀ d ∈ ds, d < base) :
    value base ds < base ^ ds.length := by
  rw [← List.reverse_reverse ds, value_reverse, List.length_reverse]
  exact Nat.ofDigits_lt_base_pow_length two fun d member => below d (List.mem_reverse.1 member)

section Numeral

variable {base : Nat} (two : 1 < base)
include two

/-- The digits by dividing, the least significant first. -/
theorem numeral_step (n : Nat) :
    (numeral base n).reverse = n % base :: if n / base = 0 then [] else (numeral base (n / base)).reverse := by
  unfold numeral
  by_cases zero : n = 0
  · simp [zero]
  · rw [if_neg zero, List.reverse_reverse, Nat.digits_def' two (Nat.pos_of_ne_zero zero)]
    by_cases last : n / base = 0
    · simp [last]
    · rw [if_neg last, if_neg last, List.reverse_reverse]

theorem isNumeral_numeral (n : Nat) : IsNumeral base n (numeral base n) := by
  unfold numeral
  by_cases zero : n = 0
  · subst zero
    rw [if_pos rfl]
    refine ⟨by simp, ?_, by simp [Theory.value], fun _ => rfl, fun es some _ _ => ?_⟩
    · intro d member
      obtain rfl := List.mem_singleton.1 member
      exact Nat.lt_of_succ_lt two
    · exact List.length_pos_iff.2 some
  · rw [if_neg zero]
    refine ⟨?_, ?_, ?_, fun leading => ?_, fun es _ below same => ?_⟩
    · simpa [Nat.digits_ne_nil_iff_ne_zero] using zero
    · intro d member
      exact Nat.digits_lt_base two (List.mem_reverse.1 member)
    · rw [value_reverse, Nat.ofDigits_digits]
    · rw [List.head?_reverse, List.getLast?_eq_some_getLast (Nat.digits_ne_nil_iff_ne_zero.2 zero)] at leading
      exact absurd (Option.some.inj leading) (Nat.getLast_digit_ne_zero base zero)
    · rw [List.length_reverse, Nat.digits_length_le_iff two, ← same]
      exact value_lt two below

theorem length_numeral_le {n k : Nat} (small : n < base ^ (k + 1)) : (numeral base n).length ≤ k + 1 := by
  unfold numeral
  split
  · exact Nat.succ_le_succ (Nat.zero_le k)
  · rwa [List.length_reverse, Nat.digits_length_le_iff two]

end Numeral

end Minus.Theory
