/-
# Theory.RingBuffer — a list in a ring of slots

`n` slots, a `head` index for the first used one and a `tail` index for the first
free one, both counted modulo `n`.  One slot stays free, so that `head = tail` is
the empty ring and not the full one.  `Holds` says which list is in the ring; the
rules are those of a bounded queue.
-/
import Mathlib.Data.List.Range
import Mathlib.Data.Nat.ModEq
import Mathlib.Logic.Function.Basic

namespace Minus.Theory

set_option autoImplicit false

variable {α : Type}

/-- The ring holds the list, first element at `head`. -/
structure Holds (n : Nat) (slots : Nat → α) (head tail : Nat) (l : List α) : Prop where
  head_lt : head < n
  fits : l.length < n
  tail_eq : tail = (head + l.length) % n
  items : l = (List.range l.length).map fun i => slots ((head + i) % n)

namespace Holds

variable {n head tail : Nat} {slots : Nat → α} {l : List α} {a : α}

theorem empty (slots : Nat → α) (headLt : head < n) : Holds n slots head head [] :=
  ⟨headLt, Nat.zero_lt_of_lt headLt, (Nat.mod_eq_of_lt headLt).symm, rfl⟩

/-- Two indices less than a turn apart. -/
theorem index_inj (head : Nat) {i j : Nat} (lt : i < n) (lt' : j < n) (same : (head + i) % n = (head + j) % n) : i = j := by
  have congr : i ≡ j [MOD n] := Nat.ModEq.add_left_cancel' head same
  exact congr.eq_of_lt_of_lt lt lt'

/-- How many elements there are. -/
theorem count (holds : Holds n slots head tail l) : (tail + n - head) % n = l.length := by
  have lt := holds.head_lt
  have fits := holds.fits
  rw [holds.tail_eq]
  by_cases wraps : head + l.length < n
  · rw [Nat.mod_eq_of_lt wraps, show head + l.length + n - head = l.length + n by omega, Nat.add_mod_right,
      Nat.mod_eq_of_lt fits]
  · rw [Nat.mod_eq_sub_mod (Nat.le_of_not_lt wraps), Nat.mod_eq_of_lt (a := head + l.length - n) (by omega),
      show head + l.length - n + n - head = l.length by omega, Nat.mod_eq_of_lt fits]

theorem empty_iff (holds : Holds n slots head tail l) : head = tail ↔ l = [] := by
  have count := holds.count
  have lt := holds.head_lt
  constructor
  · intro same
    rw [same, Nat.add_sub_cancel_left, Nat.mod_self] at count
    exact List.eq_nil_of_length_eq_zero count.symm
  · rintro rfl
    rw [holds.tail_eq, List.length_nil, Nat.add_zero, Nat.mod_eq_of_lt lt]

theorem full_iff (holds : Holds n slots head tail l) : (tail + 1) % n = head ↔ l.length = n - 1 := by
  have lt := holds.head_lt
  have fits := holds.fits
  rw [holds.tail_eq, Nat.mod_add_mod, Nat.add_assoc]
  constructor
  · intro same
    by_contra less
    have zero := index_inj head (i := l.length + 1) (j := 0) (by omega) (by omega)
      (same.trans (Nat.mod_eq_of_lt lt).symm)
    omega
  · intro full
    rw [full, show head + (n - 1 + 1) = head + n by omega, Nat.add_mod_right, Nat.mod_eq_of_lt lt]

/-- **Appending**, where one more slot than that is free. -/
theorem push (holds : Holds n slots head tail l) (room : (tail + 1) % n ≠ head) (a : α) :
    Holds n (Function.update slots tail a) head ((tail + 1) % n) (l ++ [a]) := by
  have fits := holds.fits
  have notFull := holds.full_iff.not.1 room
  refine ⟨holds.head_lt, ?_, ?_, ?_⟩
  · rw [List.length_append, List.length_singleton]
    omega
  · rw [holds.tail_eq, Nat.mod_add_mod, List.length_append, Nat.add_assoc]
    rfl
  · have kept : (List.range l.length).map (fun i => Function.update slots tail a ((head + i) % n)) = l := by
      conv_rhs => rw [holds.items]
      refine List.map_congr_left fun i member => Function.update_of_ne (fun same => ?_) _ _
      have less := List.mem_range.1 member
      have := index_inj head (by omega) fits (same.trans holds.tail_eq)
      omega
    rw [List.length_append, List.length_singleton, List.range_succ, List.map_append, kept, List.map_singleton,
      ← holds.tail_eq, Function.update_self]

/-- The first element is in the slot at `head`. -/
theorem first (holds : Holds n slots head tail (a :: l)) : slots head = a := by
  have items := holds.items
  rw [List.length_cons, List.range_succ_eq_map, List.map_cons, List.cons.injEq, Nat.add_zero,
    Nat.mod_eq_of_lt holds.head_lt] at items
  exact items.1.symm

/-- **Taking the first element.** -/
theorem pop (holds : Holds n slots head tail (a :: l)) : Holds n slots ((head + 1) % n) tail l := by
  have fits := holds.fits
  have items := holds.items
  rw [List.length_cons] at fits
  rw [List.length_cons, List.range_succ_eq_map, List.map_cons, List.cons.injEq, List.map_map] at items
  refine ⟨Nat.mod_lt _ (by omega), by omega, ?_, ?_⟩
  · rw [holds.tail_eq, Nat.mod_add_mod, List.length_cons, Nat.add_assoc, Nat.add_comm 1]
  · conv_lhs => rw [items.2]
    refine List.map_congr_left fun i _ => ?_
    rw [Function.comp, Nat.mod_add_mod, Nat.add_assoc, Nat.add_comm 1]

end Holds

end Minus.Theory
