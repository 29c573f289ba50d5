/-
# Theory.Loop — loops that may fault, and loops that may not end

`loop step fuel x` takes at most `fuel` steps from `x`: a step goes on from a new state
(`.inl`), returns (`.inr`) or faults.  `Returns step x a` says that some fuel is enough, so
a loop that is caught in a cycle returns nothing.

`returns_iff` is the rule for loops in which every step either makes progress or is stuck
for good: they return exactly if they come to no fault and do not get stuck.
-/
import Mathlib.Logic.Relation

namespace Minus.Theory

set_option autoImplicit false

universe u v w

variable {X : Type u} {A : Type v} {E : Type w}

/-- `none` where the fuel runs out. -/
def loop (step : X → Except E (X ⊕ A)) : Nat → X → Option (Except E A)
  | 0, _ => none
  | fuel + 1, x =>
      match step x with
      | .error e => some (.error e)
      | .ok (.inr a) => some (.ok a)
      | .ok (.inl y) => loop step fuel y

def Returns (step : X → Except E (X ⊕ A)) (x : X) (a : A) : Prop := ∃ fuel, loop step fuel x = some (.ok a)

/-- The loop comes from one state to another. -/
abbrev Reaches (step : X → Except E (X ⊕ A)) : X → X → Prop :=
  Relation.ReflTransGen fun x y => step x = .ok (.inl y)

section Loop

variable {step : X → Except E (X ⊕ A)} {x y : X} {a b : A}

theorem loop_succ (step : X → Except E (X ⊕ A)) (fuel : Nat) (x : X) :
    loop step (fuel + 1) x =
      match step x with
      | .error e => some (.error e)
      | .ok (.inr a) => some (.ok a)
      | .ok (.inl y) => loop step fuel y := rfl

theorem returns_of_inr (run : step x = .ok (.inr a)) : Returns step x a := ⟨1, by rw [loop_succ, run]⟩

theorem returns_inr_iff (run : step x = .ok (.inr b)) : Returns step x a ↔ a = b := by
  constructor
  · rintro ⟨fuel, out⟩
    cases fuel with
    | zero => cases out
    | succ fuel =>
        rw [loop_succ, run] at out
        exact (Except.ok.inj (Option.some.inj out)).symm
  · rintro rfl
    exact returns_of_inr run

theorem returns_inl_iff (run : step x = .ok (.inl y)) : Returns step x a ↔ Returns step y a := by
  constructor
  · rintro ⟨fuel, out⟩
    cases fuel with
    | zero => cases out
    | succ fuel =>
        rw [loop_succ, run] at out
        exact ⟨fuel, out⟩
  · rintro ⟨fuel, out⟩
    exact ⟨fuel + 1, by rw [loop_succ, run]; exact out⟩

/-- More fuel changes no answer. -/
theorem loop_mono {fuel fuel' : Nat} {r : Except E A} (run : loop step fuel x = some r) (le : fuel ≤ fuel') :
    loop step fuel' x = some r := by
  induction fuel generalizing x fuel' with
  | zero => cases run
  | succ fuel ih =>
      obtain ⟨more, rfl⟩ : ∃ more, fuel' = more + 1 := ⟨fuel' - 1, by omega⟩
      rw [loop_succ] at run ⊢
      split at run
      · exact run
      · exact run
      · exact ih run (by omega)

theorem Returns.ok (returns : Returns step x a) : ∃ z, step x = .ok z := by
  obtain ⟨fuel, out⟩ := returns
  cases fuel with
  | zero => cases out
  | succ fuel =>
      rw [loop_succ] at out
      split at out
      · cases out
      · exact ⟨_, ‹_›⟩
      · exact ⟨_, ‹_›⟩

theorem Returns.unique (first : Returns step x a) (second : Returns step x b) : a = b := by
  obtain ⟨fuel, out⟩ := first
  induction fuel generalizing x with
  | zero => cases out
  | succ fuel ih =>
      rw [loop_succ] at out
      split at out
      · cases out
      · rename_i run
        obtain rfl := Except.ok.inj (Option.some.inj out)
        exact ((returns_inr_iff run).1 second).symm
      · rename_i run
        exact ih ((returns_inl_iff run).1 second) out

theorem Returns.of_reaches (returns : Returns step x a) (reaches : Reaches step x y) : Returns step y a := by
  induction reaches with
  | refl => exact returns
  | tail _ run ih => exact (returns_inl_iff run).1 ih

/-- A loop that stays among states from which every step goes on returns nothing. -/
theorem not_returns_of_closed {Stuck : X → Prop} (closed : ∀ x, Stuck x → ∃ y, step x = .ok (.inl y) ∧ Stuck y)
    (stuck : Stuck x) : ¬ Returns step x a := by
  rintro ⟨fuel, out⟩
  induction fuel generalizing x with
  | zero => cases out
  | succ fuel ih =>
      obtain ⟨y, run, next⟩ := closed x stuck
      rw [loop_succ, run] at out
      exact ih next out

/-- **A loop returns if it comes to no fault and does not get stuck.** -/
theorem returns_iff (Inv : X → Prop) (rank : X → Nat) {Stuck : X → Prop}
    (progress : ∀ x y, Inv x → step x = .ok (.inl y) → Inv y ∧ (rank y < rank x ∨ Stuck x))
    (closed : ∀ x, Stuck x → ∃ y, step x = .ok (.inl y) ∧ Stuck y) (start : Inv x) :
    (∃ a, Returns step x a) ↔ ∀ y, Reaches step x y → (∃ z, step y = .ok z) ∧ ¬ Stuck y := by
  constructor
  · rintro ⟨a, returns⟩ y reaches
    have after := returns.of_reaches reaches
    exact ⟨after.ok, fun stuck => not_returns_of_closed closed stuck after⟩
  · intro safe
    induction hr : rank x using Nat.strongRecOn generalizing x with
    | _ n ih =>
        obtain ⟨⟨z, run⟩, free⟩ := safe x .refl
        cases z with
        | inr a => exact ⟨a, returns_of_inr run⟩
        | inl y =>
            obtain ⟨inv, less⟩ := progress x y start run
            have smaller : rank y < n := hr ▸ less.resolve_right free
            obtain ⟨a, returns⟩ := ih (rank y) smaller inv
              (fun z reaches => safe z (.head run reaches)) rfl
            exact ⟨a, (returns_inl_iff run).2 returns⟩

end Loop

end Minus.Theory
