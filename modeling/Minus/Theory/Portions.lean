/-
# Theory.Portions — a list handed out in portions that fit

`fit size room l` is the longest start of `l` whose sizes add up to at most `room`, and
what is left.  `Served l portions` says that the portions were taken from `l` one after
another, an empty one only when nothing was left: together they are a start of `l`, and
all of it once an empty one has been handed out.
-/
import Mathlib.Data.List.Basic

namespace Minus.Theory

set_option autoImplicit false

universe u

variable {α : Type u} {size : α → Nat}

/-- The start of the list that fits, and the rest. -/
def fit (size : α → Nat) : Nat → List α → List α × List α
  | _, [] => ([], [])
  | room, a :: rest =>
      if size a ≤ room then
        let (portion, left) := fit size (room - size a) rest
        (a :: portion, left)
      else ([], a :: rest)

theorem fit_cons_of_le {room : Nat} {a : α} {rest : List α} (fits : size a ≤ room) :
    fit size room (a :: rest) =
      (a :: (fit size (room - size a) rest).1, (fit size (room - size a) rest).2) := by
  rw [fit, if_pos fits]

theorem fit_cons_of_lt {room : Nat} {a : α} {rest : List α} (big : room < size a) :
    fit size room (a :: rest) = ([], a :: rest) := by
  rw [fit, if_neg (Nat.not_le.2 big)]

theorem fit_append (room : Nat) (l : List α) : (fit size room l).1 ++ (fit size room l).2 = l := by
  induction l generalizing room with
  | nil => rfl
  | cons a rest ih =>
      rcases Nat.lt_or_ge room (size a) with big | fits
      · rw [fit_cons_of_lt big, List.nil_append]
      · rw [fit_cons_of_le fits, List.cons_append, ih]

theorem mem_of_mem_fit {room : Nat} {l : List α} {a : α} (member : a ∈ (fit size room l).1) : a ∈ l := by
  rw [← fit_append room l]
  exact List.mem_append_left _ member

/-- With room for any single element, nothing is handed out only from the empty list. -/
theorem eq_nil_of_fit {room : Nat} {l : List α} (roomy : ∀ a ∈ l, size a ≤ room)
    (none_ : (fit size room l).1 = []) : l = [] := by
  cases l with
  | nil => rfl
  | cons a rest =>
      rw [fit_cons_of_le (roomy a List.mem_cons_self)] at none_
      cases none_

inductive Served : List α → List (List α) → Prop where
  | nil (l : List α) : Served l []
  | cons {l portion left : List α} {later : List (List α)} (taken : portion ++ left = l)
      (last : portion = [] → l = []) (rest : Served left later) : Served l (portion :: later)

namespace Served

variable {l : List α} {portions : List (List α)}

theorem isPrefix (served : Served l portions) : portions.flatten <+: l := by
  induction served with
  | nil l => exact List.nil_prefix
  | cons taken last rest ih =>
      rw [List.flatten_cons, ← taken]
      exact (List.prefix_append_right_inj _).2 ih

/-- **Nothing is missing once an empty portion was handed out.** -/
theorem complete (served : Served l portions) (ended : [] ∈ portions) : portions.flatten = l := by
  induction served with
  | nil l => cases ended
  | cons taken last rest ih =>
      rcases List.mem_cons.1 ended with empty | later
      · have none_ := last empty.symm
        subst none_
        have both := List.append_eq_nil_iff.1 taken
        have nothing := rest.isPrefix
        rw [both.2, List.prefix_nil] at nothing
        rw [List.flatten_cons, both.1, nothing]
        rfl
      · rw [List.flatten_cons, ih later, taken]

/-- More portions than there are elements have an empty one among them. -/
theorem ended (served : Served l portions) (many : l.length < portions.length) : [] ∈ portions := by
  induction served with
  | nil l => exact absurd many (Nat.not_lt_zero _)
  | @cons l portion left later taken last rest ih =>
      cases portion with
      | nil => exact List.mem_cons_self
      | cons a portion =>
          refine List.mem_cons_of_mem _ (ih ?_)
          have length := congrArg List.length taken
          simp only [List.length_append, List.length_cons] at length many
          omega

end Served

end Minus.Theory
