/-
# Theory.Ledger — slots that are marked, and slots that are held

An allocator marks a slot and then hands one out; whoever asked for it holds it, or drops
it.  The two are meant to be the same slot: `shift t` is marked where `t` is handed out, and
slots of rank 0 are not shifted.  A shifted slot has a higher rank, and the ranks of the
slots that are handed out never fall.

`Leaky` says that a slot marked since the start is not held and will not be, because no
later slot can be it: `leaky_take` carries it along, and a slot is leaked by an
allocation that marks another slot (`leaky_shifted`) or drops the one it gets
(`leaky_dropped`).
-/
import Mathlib.Data.Set.Insert

namespace Minus.Theory

set_option autoImplicit false

universe u

structure Ledger (S : Type u) where
  marked : Set S
  held : Set S

namespace Ledger

variable {S : Type u}

/-- Every slot marked since the start is held. -/
def Kept (start l : Ledger S) : Prop := ∀ s ∈ l.marked, s ∉ start.marked → s ∈ l.held

/-- Slots that can still be handed out unshifted, or are above all that were, are held only
if they are marked. -/
def Sound (rank : S → Nat) (low : Nat) (l : Ledger S) : Prop :=
  ∀ s, s ∉ l.marked → rank s = 0 ∨ low < rank s → s ∉ l.held

def Leaky (rank : S → Nat) (low : Nat) (start l : Ledger S) : Prop :=
  ∃ s ∈ l.marked, s ∉ start.marked ∧ s ∉ l.held ∧ (rank s = 0 ∨ low < rank s)

/-- Slot `t` is handed out. -/
structure Take (rank : S → Nat) (shift : S → S) (low : Nat) (l l' : Ledger S) (t : S) : Prop where
  unmarked : shift t ∉ l.marked
  marks : l'.marked = insert (shift t) l.marked
  holds : l'.held ⊆ insert t l.held
  rises : low ≤ rank t

theorem Leaky.not_kept {rank : S → Nat} {low : Nat} {start l : Ledger S} (leaky : Leaky rank low start l) :
    ¬ Kept start l := by
  obtain ⟨s, marked, new, free, -⟩ := leaky
  exact fun kept => free (kept s marked new)

theorem Kept.refl (l : Ledger S) : Kept l l := fun _ marked new => absurd marked new

/-- A slot that is marked and held is no leak. -/
theorem Kept.take {start l l' : Ledger S} {t : S} (kept : Kept start l) (marks : l'.marked = insert t l.marked)
    (holds : l.held ⊆ l'.held) (held : t ∈ l'.held) : Kept start l' := by
  intro s marked new
  rw [marks] at marked
  rcases marked with rfl | marked
  · exact held
  · exact holds (kept s marked new)

section Take

variable {rank : S → Nat} {shift : S → S} {low : Nat} {start l l' : Ledger S} {t : S}

theorem Take.subset (take : Take rank shift low l l' t) : l.marked ⊆ l'.marked := by
  rw [take.marks]
  exact Set.subset_insert ..

theorem sound_take (fixed : ∀ s, rank s = 0 → shift s = s) (sound : Sound rank low l)
    (take : Take rank shift low l l' t) : Sound rank (rank t) l' := by
  intro s unmarked place held
  rw [take.marks, Set.mem_insert_iff, not_or] at unmarked
  have rises := take.rises
  have free := sound s unmarked.2 (by omega)
  rcases take.holds held with rfl | held
  · exact unmarked.1 (fixed s (by omega)).symm
  · exact free held

/-- A shifted slot is leaked: the one that is marked is above all that were handed out. -/
theorem leaky_shifted (raises : ∀ s, rank s ≠ 0 → rank s < rank (shift s)) (grown : start.marked ⊆ l.marked)
    (sound : Sound rank low l) (take : Take rank shift low l l' t) (shifted : rank t ≠ 0) :
    Leaky rank (rank t) start l' := by
  have above := raises t shifted
  have rises := take.rises
  refine ⟨shift t, ?_, fun marked => take.unmarked (grown marked), fun held => ?_, .inr above⟩
  · rw [take.marks]
    exact Set.mem_insert ..
  · rcases take.holds held with same | held
    · rw [same] at above
      omega
    · exact sound _ take.unmarked (.inr (by omega)) held

theorem leaky_dropped (fixed : ∀ s, rank s = 0 → shift s = s) (grown : start.marked ⊆ l.marked)
    (take : Take rank shift low l l' t) (first : rank t = 0) (dropped : t ∉ l'.held) :
    Leaky rank (rank t) start l' := by
  have same := fixed t first
  refine ⟨t, ?_, fun marked => take.unmarked ?_, dropped, .inl first⟩
  · rw [take.marks, same]
    exact Set.mem_insert ..
  · rw [same]
    exact grown marked

/-- **What has leaked stays leaked.** -/
theorem leaky_take (fixed : ∀ s, rank s = 0 → shift s = s) (raises : ∀ s, rank s ≠ 0 → rank s < rank (shift s))
    (grown : start.marked ⊆ l.marked) (sound : Sound rank low l) (leaky : Leaky rank low start l)
    (take : Take rank shift low l l' t) : Leaky rank (rank t) start l' := by
  by_cases first : rank t = 0
  · obtain ⟨s, marked, new, free, place⟩ := leaky
    refine ⟨s, take.subset marked, new, fun held => ?_, by omega⟩
    rcases take.holds held with rfl | held
    · exact take.unmarked (by rwa [fixed s first])
    · exact free held
  · exact leaky_shifted raises grown sound take first

end Take

end Ledger

end Minus.Theory
