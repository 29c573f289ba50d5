/-
# Theory.Stateful — pre- and postconditions

A computation on a state of type `σ` that may be cut short by an error.  `Triple P m Q`
says that from a state with `P`, if `m` returns, then `Q` holds of its value and of the
state it leaves; nothing is said where it is cut short.  `Keeps I m` is the triple of an
invariant.
-/
import Minus.Theory.Slots

namespace Minus.Theory

set_option autoImplicit false

section Triple

variable {σ ε α β : Type}

def Triple (P : σ → Prop) (m : StateT σ (Except ε) α) (Q : α → σ → Prop) : Prop :=
  ∀ s, P s → Ends (fun r => Q r.1 r.2) (fun _ => True) (m s)

/-- The invariant holds after the computation if it holds before. -/
abbrev Keeps (I : σ → Prop) (m : StateT σ (Except ε) α) : Prop := Triple I m fun _ => I

variable {P P' : σ → Prop} {Q Q' : α → σ → Prop} {R : β → σ → Prop} {I : σ → Prop}
  {m : StateT σ (Except ε) α} {f : α → StateT σ (Except ε) β}

theorem Triple.bind (first : Triple P m Q) (next : ∀ a, Triple (Q a) (f a) R) : Triple P (m >>= f) R := by
  intro s holds
  exact Ends.bind (first s holds) fun r after => next r.1 r.2 after

theorem Triple.pure (a : α) : Triple (Q a) (Pure.pure a : StateT σ (Except ε) α) Q := fun _ holds => holds

theorem Triple.conseq (triple : Triple P m Q) (before : ∀ s, P' s → P s)
    (after : ∀ a s, Q a s → Q' a s) : Triple P' m Q' :=
  fun s holds => (triple s (before s holds)).mono (fun r => after r.1 r.2) fun _ _ => trivial

theorem Triple.pre (triple : Triple P m Q) (before : ∀ s, P' s → P s) : Triple P' m Q :=
  triple.conseq before fun _ _ holds => holds

theorem Triple.post (triple : Triple P m Q) (after : ∀ a s, Q a s → Q' a s) : Triple P m Q' :=
  triple.conseq (fun _ holds => holds) after

theorem Keeps.bind (first : Keeps I m) (next : ∀ a, Keeps I (f a)) : Keeps I (m >>= f) :=
  Triple.bind first next

theorem Keeps.pure (a : α) : Keeps I (Pure.pure a : StateT σ (Except ε) α) := fun _ holds => holds

end Triple

end Minus.Theory
