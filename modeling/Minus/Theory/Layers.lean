/-
# Theory.Layers — painting over

A layer gives values to the places it covers, and is meant for some of them.  Layers
are painted one over the other; what shows at a place is the last layer there.

`paint_shows_iff`: if at the places another layer is meant for every later layer
paints `blank`, then every layer shows where it is meant to exactly if a layer is
painted over only where it is `blank` itself.
-/
import Mathlib.Data.List.Basic

namespace Minus.Theory

set_option autoImplicit false

universe u v

structure Layer (α : Type u) (β : Type v) where
  covers : α → Bool
  value : α → β
  meant : α → Prop

variable {α : Type u} {β : Type v}

/-- Paint the layers over `view`, the first one first. -/
def paint (view : α → Option β) (layers : List (Layer α β)) : α → Option β :=
  layers.foldl (fun view l a => if l.covers a then some (l.value a) else view a) view

@[simp] theorem paint_nil (view : α → Option β) : paint view [] = view := rfl

theorem paint_cons (view : α → Option β) (l : Layer α β) (layers : List (Layer α β)) :
    paint view (l :: layers) =
      paint (fun a => if l.covers a then some (l.value a) else view a) layers := rfl

theorem paint_append (view : α → Option β) (first second : List (Layer α β)) :
    paint view (first ++ second) = paint (paint view first) second :=
  List.foldl_append

/-- Where every later layer is blank, the view shows or the blank does. -/
theorem paint_blank {blank : β} {layers : List (Layer α β)} {view : α → Option β} {a : α}
    (pale : ∀ l ∈ layers, l.covers a = true → l.value a = blank) :
    paint view layers a = if ∃ l ∈ layers, l.covers a = true then some blank else view a := by
  induction layers generalizing view with
  | nil => simp
  | cons l rest ih =>
      rw [paint_cons, ih fun later member => pale later (List.mem_cons_of_mem _ member)]
      by_cases later : ∃ m ∈ rest, m.covers a = true
      · have some_ : ∃ m ∈ l :: rest, m.covers a = true := by
          obtain ⟨m, member, covers⟩ := later
          exact ⟨m, List.mem_cons_of_mem _ member, covers⟩
        rw [if_pos later, if_pos some_]
      · rw [if_neg later]
        by_cases here : l.covers a = true
        · rw [if_pos here, if_pos ⟨l, List.mem_cons_self, here⟩, pale l List.mem_cons_self here]
        · have none_ : ¬ ∃ m ∈ l :: rest, m.covers a = true := by
            rintro ⟨m, member, covers⟩
            cases member with
            | head => exact here covers
            | tail _ old => exact later ⟨m, old, covers⟩
          rw [if_neg here, if_neg none_]

/-- **Every layer shows where it is meant to exactly if it is blank where it is painted
over.** -/
theorem paint_shows_iff {blank : β} {layers : List (Layer α β)} {view : α → Option β}
    (inside : ∀ l ∈ layers, ∀ a, l.meant a → l.covers a = true)
    (apart : layers.Pairwise fun early late => ∀ a, early.meant a → late.covers a = true →
      late.value a = blank) :
    (∀ l ∈ layers, ∀ a, l.meant a → paint view layers a = some (l.value a)) ↔
      layers.Pairwise fun early late => ∀ a, early.meant a → late.covers a = true →
        early.value a = blank := by
  induction layers generalizing view with
  | nil => simp
  | cons l rest ih =>
      obtain ⟨first, others⟩ := List.pairwise_cons.1 apart
      rw [List.forall_mem_cons, List.pairwise_cons, paint_cons,
        ih (fun m member => inside m (List.mem_cons_of_mem _ member)) others]
      refine and_congr_left fun _ => ?_
      -- the first layer, under the others
      have shows : ∀ a, l.meant a →
          (paint (fun a => if l.covers a then some (l.value a) else view a) rest a = some (l.value a) ↔
            ∀ m ∈ rest, m.covers a = true → l.value a = blank) := by
        intro a meant
        rw [paint_blank fun m member covers => first m member a meant covers,
          if_pos (inside l List.mem_cons_self a meant)]
        split
        · rename_i covered
          constructor
          · rintro ⟨⟩ m _ _
            rfl
          · intro same
            obtain ⟨m, member, covers⟩ := covered
            rw [same m member covers]
        · rename_i clear
          exact iff_of_true rfl fun m member covers => absurd ⟨m, member, covers⟩ clear
      constructor
      · intro all m member a meant covers
        exact (shows a meant).1 (all a meant) m member covers
      · intro all a meant
        exact (shows a meant).2 fun m member covers => all m member a meant covers

end Minus.Theory
