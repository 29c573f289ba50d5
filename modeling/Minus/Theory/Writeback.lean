/-
# Theory.Writeback — a cache in front of a store that is written back later

A cache holds contents for some keys of a store, each with a mark that says whether
they have yet to be written back.  `load` takes the contents from the store, `modify`
replaces and marks them, and `flush` writes the marked ones that are due; a write may
fail, and what it leaves in the store is then anything.

`current` is what a reader of a key gets, from the cache or from the store, and
`isDirty` says that the store is behind.  `Agree` and `Writes` compare two caches by these: a
`load` is not seen (`agree_load`), and a `modify` is seen at its key (`writes_modify`).

`Coherent`: unmarked contents are those of the store.  Every operation keeps it, and
after a `flush` without a failure the store has the contents of everything due
(`flush_written`), while with failures exactly those stay marked (`flush_dirty`).
-/
import Mathlib.Logic.Function.Basic

namespace Minus.Theory

set_option autoImplicit false

universe u v

/-- Cached contents, and whether they have yet to be written back. -/
structure Entry (β : Type v) where
  contents : β
  dirty : Bool

@[ext]
structure Cache (κ : Type u) (β : Type v) where
  entry : κ → Option (Entry β)
  store : κ → β

namespace Cache

variable {κ : Type u} {β : Type v}

/-- The contents of a key, cached or not. -/
def current (c : Cache κ β) (k : κ) : β := ((c.entry k).map Entry.contents).getD (c.store k)

/-- The key is cached and yet to be written back. -/
def isDirty (c : Cache κ β) (k : κ) : Bool := (c.entry k).any Entry.dirty

/-- The two caches read the same, and the same is to be written back. -/
structure Agree (c c' : Cache κ β) : Prop where
  current : c'.current = c.current
  isDirty : c'.isDirty = c.isDirty
  store : c'.store = c.store

/-- Contents are written to one key of the cache. -/
structure Writes (c c' : Cache κ β) (k : κ) (contents : β) : Prop where
  here : c'.entry k = some ⟨contents, true⟩
  elsewhere : ∀ k', k' ≠ k → c'.current k' = c.current k' ∧ c'.isDirty k' = c.isDirty k'
  store : c'.store = c.store

/-- What is not to be written back is the same as in the store. -/
def Coherent (c : Cache κ β) : Prop :=
  ∀ k e, c.entry k = some e → e.dirty = false → c.store k = e.contents

/-- Contents are written to the store, or the write fails and leaves something else. -/
def written (torn : Option β) (e : Entry β) : Entry β × β :=
  match torn with
  | none => ({ e with dirty := false }, e.contents)
  | some garbage => (e, garbage)

/-- Write back what is due; `torn` says which writes fail, and what they leave. -/
def flush (due : κ → Bool) (torn : κ → Option β) (c : Cache κ β) : Cache κ β where
  entry k := (c.entry k).map fun e => if due k && e.dirty then (written (torn k) e).1 else e
  store k :=
    match c.entry k with
    | some e => if due k && e.dirty then (written (torn k) e).2 else c.store k
    | none => c.store k

variable {c : Cache κ β} {due : κ → Bool} {torn : κ → Option β} {k : κ} {e : Entry β}

theorem flush_entry (cached : c.entry k = some e) :
    (c.flush due torn).entry k = some (if due k && e.dirty then (written (torn k) e).1 else e) := by
  simp [flush, cached]

theorem flush_store (cached : c.entry k = some e) :
    (c.flush due torn).store k = if due k && e.dirty then (written (torn k) e).2 else c.store k := by
  simp [flush, cached]

/-- A flush of part of the keys, and then of others, is a flush of both. -/
theorem flush_flush {first second : κ → Bool} (apart : ∀ k, first k = true → second k = false) :
    (c.flush first torn).flush second torn = c.flush (fun k => first k || second k) torn := by
  have contents : ∀ k e, (if second k && (if first k && e.dirty then (written (torn k) e).1 else e).dirty then
      written (torn k) (if first k && e.dirty then (written (torn k) e).1 else e)
      else (if first k && e.dirty then (written (torn k) e).1 else e,
        if first k && e.dirty then (written (torn k) e).2 else c.store k)) =
      if (first k || second k) && e.dirty then written (torn k) e else (e, c.store k) := by
    intro k e
    cases hFirst : first k with
    | false => simp
    | true =>
        rw [apart k hFirst]
        cases e.dirty with
        | false => simp
        | true => simp
  apply Cache.ext
  · funext k
    cases cached : c.entry k with
    | none => simp [flush, cached]
    | some e =>
        rw [flush_entry (flush_entry cached), flush_entry cached]
        have := congrArg Prod.fst (contents k e)
        rw [apply_ite Prod.fst, apply_ite Prod.fst] at this
        exact congrArg some this
  · funext k
    cases cached : c.entry k with
    | none => simp [flush, cached]
    | some e =>
        rw [flush_store (flush_entry cached), flush_store cached, flush_store cached]
        have := congrArg Prod.snd (contents k e)
        rw [apply_ite Prod.snd, apply_ite Prod.snd] at this
        exact this

theorem coherent_flush (coherent : c.Coherent) : (c.flush due torn).Coherent := by
  intro k e' cached' clean
  cases cached : c.entry k with
  | none => simp [flush, cached] at cached'
  | some e =>
      rw [flush_entry cached, Option.some.injEq] at cached'
      subst cached'
      rw [flush_store cached]
      split
      · rename_i writes
        rw [if_pos writes] at clean
        cases fails : torn k with
        | none => rfl
        | some garbage =>
            rw [fails] at clean
            have isDirty : e.dirty = true := (Bool.and_eq_true _ _ ▸ writes).2
            exact absurd (isDirty.symm.trans clean) Bool.noConfusion
      · rename_i stays
        rw [if_neg stays] at clean
        exact coherent k e cached clean

/-- What stays to be written back: what was not due, and what failed. -/
theorem flush_dirty (cached : c.entry k = some e) : ∃ e', (c.flush due torn).entry k = some e' ∧
    e'.contents = e.contents ∧ (e'.dirty = true ↔ e.dirty = true ∧ (due k = true → torn k ≠ none)) := by
  refine ⟨_, flush_entry cached, ?_⟩
  cases due k with
  | false => simp
  | true =>
      cases hDirty : e.dirty with
      | false => simp [hDirty]
      | true =>
          cases torn k with
          | none => simp [written]
          | some garbage => simp [written, hDirty]

/-- After writes that succeed the store has the contents of what was due. -/
theorem flush_written (coherent : c.Coherent) {e' : Entry β} (cached' : (c.flush due torn).entry k = some e')
    (isDue : due k = true) (succeeds : ∀ e, c.entry k = some e → e.dirty = true → torn k = none) :
    (c.flush due torn).store k = e'.contents := by
  apply coherent_flush coherent k e' cached'
  cases cached : c.entry k with
  | none => simp [flush, cached] at cached'
  | some e =>
      obtain ⟨found, is, -, dirty⟩ : ∃ found, (c.flush due torn).entry k = some found ∧ _ := flush_dirty cached
      rw [is, Option.some.injEq] at cached'
      subst cached'
      rw [← Bool.not_eq_true, dirty]
      rintro ⟨isDirty, fails⟩
      exact fails isDue (succeeds e cached isDirty)

/-- Nothing that is due has changed. -/
theorem flush_idle (idle : ∀ k e, c.entry k = some e → due k = true → e.dirty = false) : c.flush due torn = c := by
  have stays : ∀ k e, c.entry k = some e → (due k && e.dirty) = false := by
    intro k e cached
    cases isDue : due k with
    | false => rfl
    | true => exact idle k e cached isDue
  apply Cache.ext
  · funext k
    cases cached : c.entry k with
    | none => simp [flush, cached]
    | some e => rw [flush_entry cached, stays k e cached, if_neg Bool.false_ne_true]
  · funext k
    cases cached : c.entry k with
    | none => simp [flush, cached]
    | some e => rw [flush_store cached, stays k e cached, if_neg Bool.false_ne_true]

/-- Only the keys in the cache matter. -/
theorem flush_congr {due' : κ → Bool} (same : ∀ k e, c.entry k = some e → due k = due' k) :
    c.flush due torn = c.flush due' torn := by
  apply Cache.ext
  · funext k
    cases cached : c.entry k with
    | none => simp [flush, cached]
    | some e => rw [flush_entry cached, flush_entry cached, same k e cached]
  · funext k
    cases cached : c.entry k with
    | none => simp [flush, cached]
    | some e => rw [flush_store cached, flush_store cached, same k e cached]

theorem Agree.refl (c : Cache κ β) : c.Agree c := ⟨rfl, rfl, rfl⟩

theorem Agree.trans {c' c'' : Cache κ β} (first : c.Agree c') (second : c'.Agree c'') : c.Agree c'' :=
  ⟨second.current.trans first.current, second.isDirty.trans first.isDirty, second.store.trans first.store⟩

theorem Agree.writes {c' c'' : Cache κ β} {contents : β} (agree : c.Agree c') (writes : c'.Writes c'' k contents) :
    c.Writes c'' k contents where
  here := writes.here
  elsewhere k' other := by
    rw [← agree.current, ← agree.isDirty]
    exact writes.elsewhere k' other
  store := writes.store.trans agree.store

theorem current_of_entry (cached : c.entry k = some e) : c.current k = e.contents := by simp [current, cached]

theorem Writes.current_here {c' : Cache κ β} {contents : β} (writes : c.Writes c' k contents) :
    c'.current k = contents :=
  current_of_entry writes.here

section Change

variable [DecidableEq κ]

/-- One key that has changed is due. -/
theorem flush_one (cached : c.entry k = some e) (isDirty : e.dirty = true) (isDue : due k = true)
    (only : ∀ k', due k' = true → k' = k) :
    (c.flush due torn).entry = Function.update c.entry k (some (written (torn k) e).1) ∧
      (c.flush due torn).store = Function.update c.store k (written (torn k) e).2 := by
  have others : ∀ k', k' ≠ k → due k' = false := fun k' ne => by
    cases isDue' : due k' with
    | false => rfl
    | true => exact absurd (only k' isDue') ne
  constructor
  · funext k'
    by_cases here : k' = k
    · subst here
      rw [flush_entry cached, isDue, isDirty, Bool.and_self, if_pos rfl, Function.update_self]
    · rw [Function.update_of_ne here]
      cases cached' : c.entry k' with
      | none => simp [flush, cached']
      | some e' => rw [flush_entry cached', others k' here, Bool.false_and, if_neg Bool.false_ne_true]
  · funext k'
    by_cases here : k' = k
    · subst here
      rw [flush_store cached, isDue, isDirty, Bool.and_self, if_pos rfl, Function.update_self]
    · rw [Function.update_of_ne here]
      cases cached' : c.entry k' with
      | none => simp [flush, cached']
      | some e' => rw [flush_store cached', others k' here, Bool.false_and, if_neg Bool.false_ne_true]

/-- Bring a key in from the store. -/
def load (k : κ) (c : Cache κ β) : Cache κ β :=
  { c with entry := Function.update c.entry k (some ⟨c.store k, false⟩) }

/-- Replace the contents of a cached key. -/
def modify (k : κ) (contents : β) (c : Cache κ β) : Cache κ β :=
  { c with entry := Function.update c.entry k ((c.entry k).map fun _ => ⟨contents, true⟩) }

/-- A key that comes into the cache reads as before. -/
theorem agree_load (absent : c.entry k = none) : c.Agree (c.load k) := by
  refine ⟨funext fun k' => ?_, funext fun k' => ?_, rfl⟩
  · by_cases here : k' = k
    · subst here
      simp [current, load, absent]
    · simp [current, load, here]
  · by_cases here : k' = k
    · subst here
      simp [isDirty, load, absent]
    · simp [isDirty, load, here]

theorem writes_modify (cached : c.entry k = some e) (contents : β) : c.Writes (c.modify k contents) k contents := by
  refine ⟨by simp [modify, cached], fun k' other => ?_, rfl⟩
  simp [current, isDirty, modify, other]

theorem coherent_load (coherent : c.Coherent) : (c.load k).Coherent := by
  intro k' e cached clean
  by_cases here : k' = k
  · subst here
    simp only [load, Function.update_self, Option.some.injEq] at cached
    subst cached
    rfl
  · simp only [load, Function.update_of_ne here] at cached
    exact coherent k' e cached clean

theorem coherent_modify (coherent : c.Coherent) (contents : β) : (c.modify k contents).Coherent := by
  intro k' e cached clean
  by_cases here : k' = k
  · subst here
    simp only [modify, Function.update_self, Option.map_eq_some_iff] at cached
    obtain ⟨_, -, rfl⟩ := cached
    cases clean
  · simp only [modify, Function.update_of_ne here] at cached
    exact coherent k' e cached clean

end Change

end Cache

end Minus.Theory
