/-
# Theory.Defaults — filling a store with defaults

A list of items is gone through once.  An item whose key has no value is offered what
its rule makes of the store at that moment (`fill`).  A rule that cannot tell a missing
value from a blank one gives, all the way through, what it gives at the start, so the
pass reaches a target exactly where every item that is still to be filled is settled by
the start itself (`fill_eq_iff`).
-/
import Mathlib.Data.List.Induction
import Mathlib.Data.List.Nodup
import Mathlib.Logic.Function.Basic

namespace Minus.Theory

set_option autoImplicit false

universe u v w

variable {I : Type u} {K : Type v} {V : Type w} [DecidableEq K]

section Fill

variable (key : I → K) (rule : I → (K → Option V) → Option V)

def offer (s : K → Option V) (i : I) : K → Option V :=
  if (s (key i)).isSome then s else Function.update s (key i) (rule i s)

def fill (s : K → Option V) (items : List I) : K → Option V := items.foldl (offer key rule) s

end Fill

variable {key : I → K} {rule : I → (K → Option V) → Option V} {s : K → Option V} {k : K} {v : V}

theorem offer_other {i : I} (other : k ≠ key i) : offer key rule s i k = s k := by
  rw [offer]
  split
  · rfl
  · exact Function.update_of_ne other _ _

theorem offer_self {i : I} (free : s (key i) = none) : offer key rule s i (key i) = rule i s := by
  simp [offer, free]

theorem offer_kept {i : I} (set : s k = some v) : offer key rule s i k = some v := by
  by_cases same : k = key i
  · subst same
    simp [offer, set]
  · rw [offer_other same, set]

@[simp] theorem fill_append (items items' : List I) :
    fill key rule s (items ++ items') = fill key rule (fill key rule s items) items' := List.foldl_append

theorem fill_kept {items : List I} (set : s k = some v) : fill key rule s items k = some v := by
  induction items generalizing s with
  | nil => exact set
  | cons i items ih => exact ih (offer_kept set)

theorem fill_other {items : List I} (other : ∀ i ∈ items, k ≠ key i) : fill key rule s items k = s k := by
  induction items generalizing s with
  | nil => rfl
  | cons i items ih =>
      have rest : fill key rule (offer key rule s i) items k = offer key rule s i k :=
        ih fun j member => other j (List.mem_cons_of_mem i member)
      exact rest.trans (offer_other (other i List.mem_cons_self))

/-- A value was there, or is one that some item was offered. -/
theorem fill_source {items : List I} (set : fill key rule s items k = some v) :
    s k = some v ∨ ∃ i ∈ items, ∃ t, rule i t = some v := by
  induction items generalizing s with
  | nil => exact Or.inl set
  | cons i items ih =>
      obtain before | ⟨j, member, t, offered⟩ := ih set
      · by_cases same : k = key i
        · subst same
          cases start : s (key i) with
          | none => exact Or.inr ⟨i, List.mem_cons_self, s, (offer_self start).symm.trans before⟩
          | some w => exact Or.inl ((offer_kept start).symm.trans before)
        · exact Or.inl ((offer_other same).symm.trans before)
      · exact Or.inr ⟨j, List.mem_cons_of_mem i member, t, offered⟩

/-- Stores that differ at most in what is missing in one and blank in the other. -/
def Alike (blank : V) (s t : K → Option V) : Prop := ∀ k, (s k).getD blank = (t k).getD blank

section Pass

variable {blank : V} {target : K → Option V} {items done rest : List I}

/-- What has been filled as the target says is still like the start. -/
theorem alike_of_filled (starts : ∀ i ∈ done, s (key i) = none → (target (key i)).getD blank = blank)
    (filled : ∀ i ∈ done, fill key rule s done (key i) = target (key i)) : Alike blank (fill key rule s done) s := by
  intro k
  by_cases inside : ∃ i ∈ done, k = key i
  · obtain ⟨i, member, rfl⟩ := inside
    cases start : s (key i) with
    | none => rw [filled i member, starts i member start, Option.getD_none]
    | some v => rw [fill_kept start]
  · rw [fill_other fun i member same => inside ⟨i, member, same⟩]

/-- The value that an item gets is the one that it is offered in its turn. -/
theorem fill_turn {i : I} (distinct : ((done ++ i :: rest).map key).Nodup) (free : s (key i) = none) :
    fill key rule s (done ++ i :: rest) (key i) = rule i (fill key rule s done) := by
  rw [List.map_append, List.map_cons, List.nodup_append] at distinct
  obtain ⟨-, behind, apart⟩ := distinct
  have before : ∀ j ∈ done, key i ≠ key j := fun j member same =>
    apart (key j) (List.mem_map_of_mem member) (key i) List.mem_cons_self same.symm
  have after : ∀ j ∈ rest, key i ≠ key j := fun j member same =>
    (List.nodup_cons.1 behind).1 (same ▸ List.mem_map_of_mem member)
  have turn : fill key rule s done (key i) = none := (fill_other before).trans free
  rw [fill_append]
  exact (fill_other after).trans (offer_self turn)

/-- An item that has had its turn keeps its value. -/
theorem fill_past {i : I} (distinct : ((done ++ rest).map key).Nodup) (member : i ∈ done) :
    fill key rule s (done ++ rest) (key i) = fill key rule s done (key i) := by
  rw [List.map_append, List.nodup_append] at distinct
  rw [fill_append]
  apply fill_other
  intro j later same
  exact distinct.2.2 _ (List.mem_map_of_mem member) _ (List.mem_map_of_mem later) same

theorem fill_eq_iff (respects : ∀ i s t, Alike blank s t → rule i s = rule i t) (distinct : (items.map key).Nodup)
    (starts : ∀ i ∈ items, ∀ v, s (key i) = some v → target (key i) = some v)
    (blanks : ∀ i ∈ items, s (key i) = none → (target (key i)).getD blank = blank) :
    (∀ i ∈ items, fill key rule s items (key i) = target (key i)) ↔
      ∀ i ∈ items, s (key i) = none → rule i s = target (key i) := by
  constructor
  · intro filled i member free
    obtain ⟨done, rest, rfl⟩ := List.append_of_mem member
    have past : Alike blank (fill key rule s done) s := by
      apply alike_of_filled fun j before => blanks j (List.mem_append_left _ before)
      intro j before
      rw [← fill_past distinct before]
      exact filled j (List.mem_append_left _ before)
    rw [← filled i member, fill_turn distinct free]
    exact (respects i _ _ past).symm
  · intro settled
    -- the invariant of the pass: what is done is as the target says
    have invariant : ∀ done rest, done ++ rest = items → ∀ i ∈ done, fill key rule s done (key i) = target (key i) := by
      intro done
      induction done using List.reverseRec with
      | nil => simp
      | append_singleton done i ih =>
          intro rest whole j member
          have whole' : done ++ i :: rest = items := by rw [← whole, List.append_assoc, List.singleton_append]
          have here : i ∈ items := by rw [← whole']; simp
          have earlier := ih (i :: rest) whole'
          have past : Alike blank (fill key rule s done) s :=
            alike_of_filled (fun j before => blanks j (by rw [← whole']; exact List.mem_append_left _ before)) earlier
          rw [← whole] at distinct
          have distinct' := distinct.sublist ((List.sublist_append_left (done ++ [i]) rest).map key)
          obtain before | last := List.mem_append.1 member
          · rw [fill_past distinct' before]
            exact earlier j before
          · obtain rfl := List.mem_singleton.1 last
            cases start : s (key j) with
            | some v => rw [fill_kept start, starts j here v start]
            | none =>
                rw [fill_turn distinct' start, respects j _ _ past]
                exact settled j here start
    exact invariant items [] (List.append_nil items)

end Pass

end Minus.Theory
