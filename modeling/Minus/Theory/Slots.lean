/-
# Theory.Slots — walking an interval one aligned slot at a time

The numbers are cut into slots of `size` cells.  `chunk` is the part of
`[a, stop)` in the slot of `a`, and `slotLoop` calls a body on one chunk after
the other, with a second cursor that moves along.  The body may end the walk;
`Ends` says what holds of the value when it returns and of the error when it
does not, and `slotLoop_ends` carries an invariant from the start of the
interval to its stop.

The arithmetic is that of slots inside slots: a slot of a size that divides
another lies in one slot of the other size.
-/
import Mathlib.Algebra.Order.Ring.Nat
import Mathlib.Data.Nat.ModEq

namespace Minus.Theory

set_option autoImplicit false

universe u v

/-! ## Computations that may end early -/

section Ends

variable {ε : Type u} {α β : Type v}

/-- What holds of the value, or of the error. -/
def Ends (value : α → Prop) (error : ε → Prop) : Except ε α → Prop
  | .ok a => value a
  | .error e => error e

instance (value : α → Prop) (error : ε → Prop) [DecidablePred value] [DecidablePred error] :
    ∀ x, Decidable (Ends value error x)
  | .ok a => inferInstanceAs (Decidable (value a))
  | .error e => inferInstanceAs (Decidable (error e))

theorem ok_bind (a : α) (f : α → Except ε β) : (Except.ok a >>= f) = f a := rfl

theorem bind_eq_ok {x : Except ε α} {f : α → Except ε β} {b : β} :
    (x >>= f) = .ok b ↔ ∃ a, x = .ok a ∧ f a = .ok b := by
  cases x with
  | error e => exact ⟨fun run => (nomatch run), fun ⟨_, never, _⟩ => (nomatch never)⟩
  | ok a => exact ⟨fun run => ⟨a, rfl, run⟩, fun ⟨_, same, run⟩ => Except.ok.inj same ▸ run⟩

theorem map_eq_ok {x : Except ε α} {f : α → β} {b : β} : x.map f = .ok b ↔ ∃ a, x = .ok a ∧ f a = b := by
  cases x with
  | error e => exact ⟨fun run => (nomatch run), fun ⟨_, never, _⟩ => (nomatch never)⟩
  | ok a => exact ⟨fun run => ⟨a, rfl, Except.ok.inj run⟩, fun ⟨_, same, run⟩ => Except.ok.inj same ▸ run ▸ rfl⟩

theorem Ends.bind {x : Except ε α} {f : α → Except ε β} {P : α → Prop} {Q : β → Prop}
    {E : ε → Prop} (first : Ends P E x) (next : ∀ a, P a → Ends Q E (f a)) :
    Ends Q E (x >>= f) := by
  cases x with
  | ok a => exact next a first
  | error e => exact first

theorem Ends.of_forall {P : α → Prop} {E : ε → Prop} (value : ∀ a, P a) (error : ∀ e, E e) (x : Except ε α) :
    Ends P E x := by
  cases x with
  | ok a => exact value a
  | error e => exact error e

theorem Ends.returns {x : Except ε α} {P : α → Prop} (ends : Ends P (fun _ => False) x) :
    ∃ a, x = .ok a ∧ P a := by
  cases x with
  | ok a => exact ⟨a, rfl, ends⟩
  | error e => exact ends.elim

theorem Ends.mono {x : Except ε α} {P Q : α → Prop} {E F : ε → Prop} (ends : Ends P E x)
    (value : ∀ a, P a → Q a) (error : ∀ e, E e → F e) : Ends Q F x := by
  cases x with
  | ok a => exact value a ends
  | error e => exact error e ends

theorem Ends.and {x : Except ε α} {P Q : α → Prop} {E F : ε → Prop} (first : Ends P E x)
    (second : Ends Q F x) : Ends (fun a => P a ∧ Q a) (fun e => E e ∧ F e) x := by
  cases x with
  | ok a => exact ⟨first, second⟩
  | error e => exact ⟨first, second⟩

end Ends

/-! ## The walk -/

/-- The part of `[a, stop)` that lies in the slot of `a`. -/
def chunk (size a stop : Nat) : Nat := min (size - a % size) (stop - a)

section Walk

variable {ε : Type u} {σ : Type v} {size start stop : Nat}

theorem chunk_pos (positive : 0 < size) (below : start < stop) : 0 < chunk size start stop := by
  have := Nat.mod_lt start positive
  unfold chunk
  omega

/-- A chunk ends at the end of its slot or at the stop. -/
theorem add_chunk (positive : 0 < size) (below : start < stop) :
    start + chunk size start stop = min (start / size * size + size) stop := by
  have := Nat.div_add_mod' start size
  have := Nat.mod_lt start positive
  unfold chunk
  omega

/-- Call `body` on the chunks of `[a, stop)` in order; `b` moves along with `a`. -/
def slotLoop (size : Nat) (positive : 0 < size) (stop : Nat)
    (body : σ → Nat → Nat → Nat → Except ε σ) (s : σ) (a b : Nat) : Except ε σ :=
  if _ : a < stop then do
    let c := chunk size a stop
    let s ← body s a c b
    slotLoop size positive stop body s (a + c) (b + c)
  else
    .ok s
termination_by stop - a
decreasing_by
  have := chunk_pos positive ‹a < stop›
  omega

/-- **The walk carries an invariant to the stop.**  The body meets either the start
of the interval or the start of a slot, and the second cursor is as far from its
own start as the first. -/
theorem slotLoop_ends (start stop offset : Nat) (positive : 0 < size)
    (body : σ → Nat → Nat → Nat → Except ε σ) {R : Nat → σ → Prop} {E : ε → Prop}
    (step : ∀ s a, start ≤ a → a < stop → (a = start ∨ size ∣ a) → R a s →
      Ends (R (a + chunk size a stop)) E (body s a (chunk size a stop) (offset + (a - start)))) :
    ∀ s a, start ≤ a → a ≤ stop → (a = start ∨ a = stop ∨ size ∣ a) → R a s →
      Ends (R stop) E (slotLoop size positive stop body s a (offset + (a - start))) := by
  intro s a
  induction h : stop - a using Nat.strong_induction_on generalizing s a with
  | _ measure ih =>
      intro low high edge holds
      rw [slotLoop]
      split
      · rename_i below
        have forward := chunk_pos positive below
        have within : chunk size a stop ≤ stop - a := Nat.min_le_right _ _
        have next : a + chunk size a stop = stop ∨ size ∣ a + chunk size a stop := by
          unfold chunk at forward ⊢
          cases Nat.le_total (size - a % size) (stop - a) with
          | inl inner =>
              right
              rw [Nat.min_eq_left inner]
              have : a + (size - a % size) = size * (a / size + 1) := by
                have := Nat.div_add_mod a size
                have := Nat.mod_lt a positive
                rw [Nat.mul_add]
                omega
              exact ⟨_, this⟩
          | inr outer =>
              left
              rw [Nat.min_eq_right outer]
              omega
        apply Ends.bind (step s a low below (by omega) holds)
        intro s' holds'
        have moved : offset + (a - start) + chunk size a stop =
            offset + (a + chunk size a stop - start) := by omega
        rw [moved]
        exact ih _ (by omega) s' _ rfl (by omega) (by omega) (.inr next) holds'
      · have : a = stop := by omega
        exact this ▸ holds

end Walk

/-! ## Slots inside slots -/

section Nested

variable {small large v : Nat}

theorem slot_le_of_dvd (divides : small ∣ large) : v / large * large ≤ v / small * small := by
  obtain ⟨k, rfl⟩ := divides
  rw [← Nat.div_div_eq_div_mul, Nat.mul_comm small, ← Nat.mul_assoc]
  exact Nat.mul_le_mul_right small (Nat.div_mul_le_self _ _)

theorem slot_add_le_of_dvd (positive : 0 < large) (divides : small ∣ large) :
    v / small * small + small ≤ v / large * large + large := by
  obtain ⟨k, rfl⟩ := divides
  have split : v / (small * k) = v / small / k := (Nat.div_div_eq_div_mul v small k).symm
  have inner := Nat.lt_div_mul_add (a := v / small) (b := k) (Nat.pos_of_mul_pos_left positive)
  have : (v / small + 1) * small ≤ (v / small / k * k + k) * small :=
    Nat.mul_le_mul_right small inner
  calc v / small * small + small = (v / small + 1) * small := by rw [Nat.succ_mul]
    _ ≤ (v / small / k * k + k) * small := this
    _ = v / (small * k) * (small * k) + small * k := by
        rw [split, Nat.add_mul, Nat.mul_assoc, Nat.mul_comm k small]

end Nested

end Minus.Theory
