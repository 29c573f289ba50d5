/-
# Theory.Machine — runs of a state machine, and the rule that carries an invariant

A `Machine` is a step function together with the actions its environment may
take in each state.  A run is a list of actions each of which is enabled where
it is taken (`Machine.Admits`); every prefix of a run is a run, so a statement
about the final state of every run is a statement about every reachable state.

`run_invariant` is the one induction the developments over this module use.
`guard` adds a condition to the environment: the runs of `M.guard G` are the
runs of `M` all of whose steps meet `G`.  `guard_admits_iff` is for a condition that is
exact: a property holds all along a run exactly if its steps meet it.
-/
import Mathlib.Logic.Basic

namespace Minus.Theory

set_option autoImplicit false

universe u v

/-- A deterministic machine and the actions enabled in each of its states. -/
structure Machine (S : Type u) (A : Type v) where
  enabled : S → A → Prop
  step : S → A → S

namespace Machine

variable {S : Type u} {A : Type v} (M : Machine S A)

/-- The state after a list of actions. -/
def run : S → List A → S
  | s, [] => s
  | s, a :: rest => run (M.step s a) rest

/-- Every action of the list is enabled where it is taken. -/
def Admits : S → List A → Prop
  | _, [] => True
  | s, a :: rest => M.enabled s a ∧ Admits (M.step s a) rest

instance decidableAdmits [∀ s a, Decidable (M.enabled s a)] :
    ∀ s actions, Decidable (M.Admits s actions)
  | _, [] => isTrue trivial
  | s, a :: rest => @instDecidableAnd _ _ _ (decidableAdmits (M.step s a) rest)

/-- The runs of `M` whose steps all meet `G`. -/
def guard (G : S → A → Prop) : Machine S A where
  enabled s a := M.enabled s a ∧ G s a
  step := M.step

instance (G : S → A → Prop) [∀ s a, Decidable (M.enabled s a)] [∀ s a, Decidable (G s a)] (s : S)
    (a : A) : Decidable ((M.guard G).enabled s a) :=
  inferInstanceAs (Decidable (M.enabled s a ∧ G s a))

@[simp] theorem run_nil (s : S) : M.run s [] = s := rfl

@[simp] theorem run_cons (s : S) (a : A) (rest : List A) :
    M.run s (a :: rest) = M.run (M.step s a) rest := rfl

@[simp] theorem guard_run (G : S → A → Prop) (s : S) (actions : List A) :
    (M.guard G).run s actions = M.run s actions := by
  induction actions generalizing s with
  | nil => rfl
  | cons a rest ih => exact ih (M.step s a)

theorem run_append (s : S) (first second : List A) :
    M.run s (first ++ second) = M.run (M.run s first) second := by
  induction first generalizing s with
  | nil => rfl
  | cons a rest ih => exact ih (M.step s a)

theorem admits_append (s : S) (first second : List A) :
    M.Admits s (first ++ second) ↔ M.Admits s first ∧ M.Admits (M.run s first) second := by
  induction first generalizing s with
  | nil => simp [Admits]
  | cons a rest ih =>
      simp only [List.cons_append, Admits, run_cons]
      rw [ih (M.step s a), and_assoc]

theorem admits_of_enabled (always : ∀ s a, M.enabled s a) (s : S) (actions : List A) :
    M.Admits s actions := by
  induction actions generalizing s with
  | nil => exact trivial
  | cons a rest ih => exact ⟨always s a, ih (M.step s a)⟩

/-- What every enabled step preserves holds at the end of every run. -/
theorem run_invariant {I : S → Prop}
    (preserved : ∀ s a, I s → M.enabled s a → I (M.step s a))
    {s : S} {actions : List A} (initial : I s) (admitted : M.Admits s actions) :
    I (M.run s actions) := by
  induction actions generalizing s with
  | nil => exact initial
  | cons a rest ih => exact ih (preserved s a initial admitted.1) admitted.2

/-- Where a step keeps `P` exactly if it meets `G`: `P` holds all along a run exactly if the
steps all meet `G`. -/
theorem guard_admits_iff {G : S → A → Prop} {P : S → Prop}
    (exact_ : ∀ s a, P s → M.enabled s a → (P (M.step s a) ↔ G s a)) {s : S} {actions : List A} (initial : P s)
    (admitted : M.Admits s actions) :
    (∀ past, past <+: actions → P (M.run s past)) ↔ (M.guard G).Admits s actions := by
  induction actions generalizing s with
  | nil =>
      refine ⟨fun _ => trivial, fun _ past isPrefix => ?_⟩
      rw [List.prefix_nil.1 isPrefix]
      exact initial
  | cons a rest ih =>
      obtain ⟨enabled, admitted⟩ := admitted
      constructor
      · intro always
        have next : P (M.step s a) := always [a] ⟨rest, rfl⟩
        refine ⟨⟨enabled, (exact_ s a initial enabled).1 next⟩, (ih next admitted).1 fun past isPrefix => ?_⟩
        exact always (a :: past) (List.cons_prefix_cons.2 ⟨rfl, isPrefix⟩)
      · rintro ⟨⟨-, kept⟩, guarded⟩ past isPrefix
        have next := (exact_ s a initial enabled).2 kept
        cases past with
        | nil => exact initial
        | cons b past =>
            obtain ⟨rfl, restPrefix⟩ := List.cons_prefix_cons.1 isPrefix
            exact (ih next admitted).2 guarded past restPrefix

/-- The steps of a guarded run one by one. -/
theorem guard_admits_forall {G : S → A → Prop} {s : S} {actions : List A} (admitted : M.Admits s actions) :
    (M.guard G).Admits s actions ↔ ∀ past a, past ++ [a] <+: actions → G (M.run s past) a := by
  induction actions generalizing s with
  | nil => exact iff_of_true trivial fun past a isPrefix => by simp at isPrefix
  | cons b rest ih =>
      obtain ⟨enabled, later⟩ := admitted
      constructor
      · rintro ⟨⟨-, here⟩, kept⟩ past a isPrefix
        cases past with
        | nil =>
            obtain ⟨rfl, -⟩ := List.cons_prefix_cons.1 isPrefix
            exact here
        | cons c past =>
            obtain ⟨rfl, inside⟩ := List.cons_prefix_cons.1 isPrefix
            exact (ih later).1 kept past a inside
      · intro each
        refine ⟨⟨enabled, each [] b (List.cons_prefix_cons.2 ⟨rfl, List.nil_prefix⟩)⟩, ?_⟩
        exact (ih later).2 fun past a isPrefix => each (b :: past) a (List.cons_prefix_cons.2 ⟨rfl, isPrefix⟩)

end Machine

end Minus.Theory
