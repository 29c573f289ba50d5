/-
# Theory.Simulation — two computations side by side

`Sim R E free x y`: where `x` returns, `y` returns a value related by `R`; where `x`
ends in an error, `y` ends in one related by `E`, unless the error of `x` is one of those
that say nothing about `y` (`free`).  It goes through sequencing (`Sim.bind`), through
`List.foldlM` and through `slotLoop`, with one relation between the states of the two.
-/
import Minus.Theory.Slots

namespace Minus.Theory

set_option autoImplicit false

universe u v w x

section Sim

variable {ε : Type u} {δ : Type v} {α β : Type w} {γ η : Type x}

def Sim (R : α → γ → Prop) (E : ε → δ → Prop) (free : ε → Prop) (left : Except ε α) (right : Except δ γ) : Prop :=
  match left with
  | .ok a => ∃ c, right = .ok c ∧ R a c
  | .error e => free e ∨ ∃ d, right = .error d ∧ E e d

variable {R : α → γ → Prop} {R' : β → η → Prop} {E : ε → δ → Prop} {free : ε → Prop}

theorem Sim.bind {left : Except ε α} {right : Except δ γ} {f : α → Except ε β} {g : γ → Except δ η}
    (first : Sim R E free left right) (next : ∀ a c, R a c → Sim R' E free (f a) (g c)) :
    Sim R' E free (left >>= f) (right >>= g) := by
  cases left with
  | ok a =>
      obtain ⟨c, rfl, related⟩ := first
      exact next a c related
  | error e =>
      obtain isFree | ⟨d, rfl, related⟩ := first
      · exact .inl isFree
      · exact .inr ⟨d, rfl, related⟩

theorem Sim.mono {S : α → γ → Prop} {left : Except ε α} {right : Except δ γ} (sim : Sim R E free left right)
    (weaker : ∀ a c, R a c → S a c) : Sim S E free left right := by
  cases left with
  | ok a =>
      obtain ⟨c, same, related⟩ := sim
      exact ⟨c, same, weaker a c related⟩
  | error e => exact sim

/-- The errors of the left computation under other names. -/
theorem Sim.mapError {ε' : Type u} {E' : ε' → δ → Prop} {free' : ε' → Prop} {left : Except ε α}
    {right : Except δ γ} (sim : Sim R E free left right) (f : ε → ε') (related : ∀ e d, E e d → E' (f e) d)
    (isFree : ∀ e, free e → free' (f e)) : Sim R E' free' (left.mapError f) right := by
  cases left with
  | ok a => exact sim
  | error e =>
      obtain free | ⟨d, same, holds⟩ := sim
      · exact .inl (isFree e free)
      · exact .inr ⟨d, same, related e d holds⟩

theorem Sim.foldlM {ι : Type w} {f : α → ι → Except ε α} {g : γ → ι → Except δ γ}
    (step : ∀ a c i, R a c → Sim R E free (f a i) (g c i)) (items : List ι) :
    ∀ {a : α} {c : γ}, R a c → Sim R E free (items.foldlM f a) (items.foldlM g c) := by
  induction items with
  | nil => exact fun related => ⟨_, rfl, related⟩
  | cons i rest ih =>
      intro a c related
      rw [List.foldlM_cons, List.foldlM_cons]
      exact (step a c i related).bind fun a c => ih

/-- Two walks of the same interval. -/
theorem Sim.slotLoop {size stop : Nat} (positive : 0 < size) {f : α → Nat → Nat → Nat → Except ε α}
    {g : γ → Nat → Nat → Nat → Except δ γ}
    (step : ∀ a c at' len off, R a c → Sim R E free (f a at' len off) (g c at' len off)) :
    ∀ (start off : Nat) {a : α} {c : γ}, R a c →
      Sim R E free (slotLoop size positive stop f a start off) (slotLoop size positive stop g c start off) := by
  intro start
  induction h : stop - start using Nat.strong_induction_on generalizing start with
  | _ measure ih =>
      intro off a c related
      rw [Theory.slotLoop, Theory.slotLoop]
      split
      · rename_i below
        have forward := chunk_pos positive below
        apply (step a c start (chunk size start stop) off related).bind
        intro a c related
        exact ih _ (by omega) _ rfl _ related
      · exact ⟨c, rfl, related⟩

end Sim

end Minus.Theory
