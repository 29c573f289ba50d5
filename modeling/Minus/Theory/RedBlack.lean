/-
# Theory.RedBlack — red-black trees, and a tree seen from one of its nodes

`ColorTree.RB t h` says that no red node of `t` has a red child and that every path
from its root to a leaf meets `h` black nodes; `ColorTree.Valid` adds the black root.

A context is the way from a node up to the root: each `Frame` is a parent with
its other child.  `plug` puts a tree into the hole.  `valid_plug` splits the
validity of the whole into that of the tree in the hole and of the context
(`Fits`), so that a change in one place is judged there; `inorder_plug` does the
same for the order of the elements.
-/
import Mathlib.Data.List.Basic
import Mathlib.Data.List.Nodup

namespace Minus.Theory

set_option autoImplicit false

universe u

inductive Color where
  | red
  | black
  deriving DecidableEq

inductive ColorTree (α : Type u) where
  | nil
  | node (c : Color) (l : ColorTree α) (x : α) (r : ColorTree α)
  deriving DecidableEq

namespace ColorTree

variable {α : Type u}

def color : ColorTree α → Color
  | nil => .black
  | node c _ _ _ => c

@[simp] theorem color_nil : (nil : ColorTree α).color = .black := rfl

@[simp] theorem color_node (c : Color) (l : ColorTree α) (x : α) (r : ColorTree α) :
    (node c l x r).color = c := rfl

def root? : ColorTree α → Option α
  | nil => none
  | node _ _ x _ => some x

def inorder : ColorTree α → List α
  | nil => []
  | node _ l x r => l.inorder ++ x :: r.inorder

/-- The tree with its root painted black. -/
def blacken : ColorTree α → ColorTree α
  | nil => nil
  | node _ l x r => node .black l x r

/-- No red node has a red child, and every path down meets `h` black nodes. -/
def RB : ColorTree α → Nat → Prop
  | nil, h => h = 0
  | node .red l _ r, h => l.color = .black ∧ r.color = .black ∧ l.RB h ∧ r.RB h
  | node .black _ _ _, 0 => False
  | node .black l _ r, h + 1 => l.RB h ∧ r.RB h

/-- A red-black tree. -/
def Valid (t : ColorTree α) : Prop := t.color = .black ∧ ∃ h, t.RB h

theorem RB.height_unique : ∀ {t : ColorTree α} {h k : Nat}, t.RB h → t.RB k → h = k
  | nil, _, _, left, right => by
      rw [RB] at left right
      rw [left, right]
  | node .red l _ _, _, _, left, right => RB.height_unique left.2.2.1 right.2.2.1
  | node .black _ _ _, 0, _, left, _ => left.elim
  | node .black _ _ _, _ + 1, 0, _, right => right.elim
  | node .black l _ _, h + 1, k + 1, left, right => by
      rw [RB.height_unique left.1 right.1]

@[simp] theorem inorder_blacken (t : ColorTree α) : t.blacken.inorder = t.inorder := by
  cases t with
  | nil => rfl
  | node => rfl

theorem color_blacken (t : ColorTree α) : t.blacken.color = .black := by
  cases t with
  | nil => rfl
  | node => rfl

theorem blacken_of_black {t : ColorTree α} (black : t.color = .black) : t.blacken = t := by
  cases t with
  | nil => rfl
  | node c l x r =>
      cases black
      rfl

/-- Painting a red root black makes every path one longer. -/
theorem RB.blacken_red {t : ColorTree α} {h : Nat} (rb : t.RB h) (red : t.color = .red) :
    t.blacken.RB (h + 1) := by
  cases t with
  | nil => cases red
  | node c l x r =>
      cases red
      exact ⟨rb.2.2.1, rb.2.2.2⟩

theorem RB.eq_nil {t : ColorTree α} (rb : t.RB 0) (black : t.color = .black) : t = nil := by
  cases t with
  | nil => rfl
  | node c l x r =>
      cases black
      exact rb.elim

theorem RB.exists_black {t : ColorTree α} {h : Nat} (rb : t.RB (h + 1)) (black : t.color = .black) :
    ∃ l x r, t = node .black l x r ∧ l.RB h ∧ r.RB h := by
  cases t with
  | nil => cases rb
  | node c l x r =>
      cases black
      exact ⟨l, x, r, rfl, rb.1, rb.2⟩

theorem RB.exists_red {t : ColorTree α} {h : Nat} (rb : t.RB h) (red : t.color = .red) :
    ∃ l x r, t = node .red l x r ∧ l.color = .black ∧ r.color = .black ∧ l.RB h ∧ r.RB h := by
  cases t with
  | nil => cases red
  | node c l x r =>
      cases red
      exact ⟨l, x, r, rfl, rb⟩

/-! ### Cutting off a subtree -/

/-- The tree without the subtree at `x`. -/
def prune [DecidableEq α] (x : α) : ColorTree α → ColorTree α
  | nil => nil
  | node c l y r => if y = x then nil else node c (l.prune x) y (r.prune x)

theorem prune_of_notMem [DecidableEq α] {x : α} :
    ∀ {t : ColorTree α}, x ∉ t.inorder → t.prune x = t
  | nil, _ => rfl
  | node c l y r, absent => by
      simp only [inorder, List.mem_append, List.mem_cons, not_or] at absent
      rw [prune, if_neg (Ne.symm absent.2.1), prune_of_notMem absent.1, prune_of_notMem absent.2.2]

theorem prune_blacken [DecidableEq α] (x : α) (t : ColorTree α) :
    t.blacken.prune x = (t.prune x).blacken := by
  cases t with
  | nil => rfl
  | node c l y r =>
      simp only [blacken, prune]
      split
      · rfl
      · rfl

end ColorTree

/-! ## Contexts -/

/-- A parent of the hole: its colour, itself and its other child. -/
inductive Frame (α : Type u) where
  | left (c : Color) (p : α) (sib : ColorTree α)
  | right (c : Color) (sib : ColorTree α) (p : α)

namespace Frame

variable {α : Type u}

def color : Frame α → Color
  | left c _ _ => c
  | right c _ _ => c

def sib : Frame α → ColorTree α
  | left _ _ sib => sib
  | right _ sib _ => sib

def parent : Frame α → α
  | left _ p _ => p
  | right _ _ p => p

def fill : Frame α → ColorTree α → ColorTree α
  | left c p sib, t => .node c t p sib
  | right c sib p, t => .node c sib p t

theorem color_fill (f : Frame α) (t : ColorTree α) : (f.fill t).color = f.color := by
  cases f with
  | left => rfl
  | right => rfl

theorem rb_fill_red {f : Frame α} (red : f.color = .red) {t : ColorTree α} {h : Nat} :
    (f.fill t).RB h ↔ t.color = .black ∧ f.sib.color = .black ∧ t.RB h ∧ f.sib.RB h := by
  cases f with
  | left c p sib =>
      cases red
      exact Iff.rfl
  | right c sib p =>
      cases red
      exact ⟨fun rb => ⟨rb.2.1, rb.1, rb.2.2.2, rb.2.2.1⟩, fun rb => ⟨rb.2.1, rb.1, rb.2.2.2, rb.2.2.1⟩⟩

theorem rb_fill_black {f : Frame α} (black : f.color = .black) {t : ColorTree α} {h : Nat} :
    (f.fill t).RB h ↔ ∃ k, h = k + 1 ∧ t.RB k ∧ f.sib.RB k := by
  cases h with
  | zero =>
      cases f with
      | left c p sib => cases black; exact ⟨False.elim, fun ⟨k, eq, _⟩ => nomatch eq⟩
      | right c sib p => cases black; exact ⟨False.elim, fun ⟨k, eq, _⟩ => nomatch eq⟩
  | succ k =>
      cases f with
      | left c p sib =>
          cases black
          exact ⟨fun rb => ⟨k, rfl, rb⟩, fun ⟨_, eq, rb⟩ => by cases eq; exact rb⟩
      | right c sib p =>
          cases black
          exact ⟨fun rb => ⟨k, rfl, rb.2, rb.1⟩, fun ⟨_, eq, rb⟩ => by cases eq; exact ⟨rb.2, rb.1⟩⟩

end Frame

/-- The frames from the hole up to the root. -/
abbrev Ctx (α : Type u) := List (Frame α)

section Ctx

variable {α : Type u}

def plug : Ctx α → ColorTree α → ColorTree α
  | [], t => t
  | f :: up, t => plug up (f.fill t)

@[simp] theorem plug_nil (t : ColorTree α) : plug [] t = t := rfl

@[simp] theorem plug_cons (f : Frame α) (up : Ctx α) (t : ColorTree α) :
    plug (f :: up) t = plug up (f.fill t) := rfl

theorem plug_append (down up : Ctx α) (t : ColorTree α) : plug (down ++ up) t = plug up (plug down t) := by
  induction down generalizing t with
  | nil => rfl
  | cons f rest ih => exact ih (f.fill t)

/-- The elements before the hole. -/
def before : Ctx α → List α
  | [] => []
  | .left _ _ _ :: up => before up
  | .right _ sib p :: up => before up ++ (sib.inorder ++ [p])

/-- The elements after the hole. -/
def after : Ctx α → List α
  | [] => []
  | .left _ p sib :: up => p :: sib.inorder ++ after up
  | .right _ _ _ :: up => after up

theorem inorder_plug : ∀ (ctx : Ctx α) (t : ColorTree α),
    (plug ctx t).inorder = before ctx ++ t.inorder ++ after ctx
  | [], t => by simp [before, after]
  | .left c p sib :: up, t => by
      simp [inorder_plug up, Frame.fill, ColorTree.inorder, before, after]
  | .right c sib p :: up, t => by
      simp [inorder_plug up, Frame.fill, ColorTree.inorder, before, after]

/-- A red tree may stand in the hole. -/
def RedOk : Ctx α → Prop
  | [] => False
  | f :: _ => f.color = .black

/-- The context is that of a subtree of black height `h` in a red-black tree. -/
def Fits : Ctx α → Nat → Prop
  | [], _ => True
  | f :: up, h =>
      match f.color with
      | .red => f.sib.color = .black ∧ f.sib.RB h ∧ RedOk up ∧ Fits up h
      | .black => f.sib.RB h ∧ Fits up (h + 1)

theorem fits_red {f : Frame α} {up : Ctx α} {h : Nat} (red : f.color = .red) :
    Fits (f :: up) h ↔ f.sib.color = .black ∧ f.sib.RB h ∧ RedOk up ∧ Fits up h := by
  rw [Fits, red]

theorem fits_black {f : Frame α} {up : Ctx α} {h : Nat} (black : f.color = .black) :
    Fits (f :: up) h ↔ f.sib.RB h ∧ Fits up (h + 1) := by
  rw [Fits, black]

/-- **The whole is a red-black tree exactly if the hole's tree fits its context.** -/
theorem valid_plug : ∀ {ctx : Ctx α} {t : ColorTree α}, (plug ctx t).Valid ↔
    ∃ h, t.RB h ∧ Fits ctx h ∧ (t.color = .red → RedOk ctx)
  | [], t => by
      constructor
      · rintro ⟨black, h, rb⟩
        exact ⟨h, rb, trivial, fun red => nomatch black.symm.trans red⟩
      · rintro ⟨h, rb, -, root⟩
        refine ⟨?_, h, rb⟩
        cases color : t.color with
        | red => exact (root color).elim
        | black => exact color
  | f :: up, t => by
      rw [plug_cons, valid_plug, f.color_fill]
      cases color : f.color with
      | red =>
          constructor
          · rintro ⟨h, rb, fits, root⟩
            obtain ⟨black, sibBlack, rbT, rbSib⟩ := (Frame.rb_fill_red color).1 rb
            refine ⟨h, rbT, (fits_red color).2 ⟨sibBlack, rbSib, root rfl, fits⟩, fun red => ?_⟩
            rw [black] at red
            cases red
          · rintro ⟨h, rb, fits, root⟩
            obtain ⟨sibBlack, rbSib, redOk, fitsUp⟩ := (fits_red color).1 fits
            have black : t.color = .black := by
              cases colorT : t.color with
              | red =>
                  have : f.color = .black := root colorT
                  rw [color] at this
                  cases this
              | black => rfl
            exact ⟨h, (Frame.rb_fill_red color).2 ⟨black, sibBlack, rb, rbSib⟩, fitsUp, fun _ => redOk⟩
      | black =>
          constructor
          · rintro ⟨h, rb, fits, -⟩
            obtain ⟨k, rfl, rbT, rbSib⟩ := (Frame.rb_fill_black color).1 rb
            exact ⟨k, rbT, (fits_black color).2 ⟨rbSib, fits⟩, fun _ => color⟩
          · rintro ⟨h, rb, fits, -⟩
            obtain ⟨rbSib, fitsUp⟩ := (fits_black color).1 fits
            refine ⟨h + 1, (Frame.rb_fill_black color).2 ⟨h, rfl, rb, rbSib⟩, fitsUp, fun red => ?_⟩
            cases red

/-- The root of the whole is black. -/
theorem color_plug : ∀ {ctx : Ctx α} {t : ColorTree α} {h : Nat}, Fits ctx h →
    (ctx = [] → t.color = .black) → (plug ctx t).color = .black
  | [], _, _, _, root => root rfl
  | f :: up, t, h, fits, _ => by
      rw [plug_cons]
      cases color : f.color with
      | red =>
          obtain ⟨-, -, redOk, fitsUp⟩ := (fits_red color).1 fits
          apply color_plug fitsUp
          rintro rfl
          exact redOk.elim
      | black =>
          obtain ⟨-, fitsUp⟩ := (fits_black color).1 fits
          apply color_plug fitsUp
          intro _
          rw [f.color_fill, color]

/-- Every element is the root of a subtree. -/
theorem exists_plug {x : α} : ∀ {t : ColorTree α}, x ∈ t.inorder →
    ∃ ctx c l r, t = plug ctx (.node c l x r)
  | .node c l y r, inside => by
      simp only [ColorTree.inorder, List.mem_append, List.mem_cons] at inside
      obtain inL | rfl | inR := inside
      · obtain ⟨ctx, c', l', r', rfl⟩ := exists_plug inL
        exact ⟨ctx ++ [.left c y r], c', l', r', by rw [plug_append]; rfl⟩
      · exact ⟨[], c, l, r, rfl⟩
      · obtain ⟨ctx, c', l', r', rfl⟩ := exists_plug inR
        exact ⟨ctx ++ [.right c l y], c', l', r', by rw [plug_append]; rfl⟩

theorem prune_plug [DecidableEq α] {x : α} : ∀ {ctx : Ctx α} {t : ColorTree α},
    x ∉ before ctx → x ∉ after ctx → (plug ctx t).prune x = plug ctx (t.prune x)
  | [], _, _, _ => rfl
  | .left c p sib :: up, t, notBefore, notAfter => by
      rw [before] at notBefore
      simp only [after, List.cons_append, List.mem_cons, List.mem_append, not_or] at notAfter
      rw [plug_cons, prune_plug notBefore notAfter.2.2, plug_cons, Frame.fill, ColorTree.prune,
        if_neg (Ne.symm notAfter.1), ColorTree.prune_of_notMem notAfter.2.1]
      rfl
  | .right c sib p :: up, t, notBefore, notAfter => by
      rw [after] at notAfter
      simp only [before, List.mem_append, List.mem_singleton, not_or] at notBefore
      rw [plug_cons, prune_plug notBefore.1 notAfter, plug_cons, Frame.fill, ColorTree.prune,
        if_neg (Ne.symm notBefore.2.2), ColorTree.prune_of_notMem notBefore.2.1]
      rfl

/-! ### The place of a new element -/

/-- The hole under `t` that a search going left at the elements in `left` ends in. -/
def path (left : α → Bool) : Ctx α → ColorTree α → Ctx α
  | up, .nil => up
  | up, .node c l x r =>
      if left x then path left (.left c x r :: up) l else path left (.right c l x :: up) r

theorem plug_path (left : α → Bool) (up : Ctx α) (t : ColorTree α) :
    plug (path left up t) .nil = plug up t := by
  induction t generalizing up with
  | nil => rfl
  | node c l x r ihL ihR =>
      rw [path]
      split
      · exact ihL _
      · exact ihR _

/-- The context of a hole in a red-black tree. -/
theorem ColorTree.Valid.path {t : ColorTree α} (valid : t.Valid) (left : α → Bool) : Fits (path left [] t) 0 := by
  rw [← plug_nil t, ← plug_path left, valid_plug] at valid
  obtain ⟨h, rb, fits, -⟩ := valid
  rw [ColorTree.RB] at rb
  rwa [rb] at fits

/-- In a sorted tree the search separates the elements. -/
theorem path_separates (left : α → Bool) {up : Ctx α} {t : ColorTree α}
    (sorted : t.inorder.Pairwise fun x y => left x → left y) :
    (∀ x ∈ before (path left up t), x ∈ before up ∨ left x = false) ∧
      ∀ y ∈ after (path left up t), y ∈ after up ∨ left y := by
  induction t generalizing up with
  | nil => exact ⟨fun _ => .inl, fun _ => .inl⟩
  | node c l x r ihL ihR =>
      simp only [ColorTree.inorder, List.pairwise_append, List.pairwise_cons, List.mem_cons] at sorted
      obtain ⟨sortedL, ⟨fromX, sortedR⟩, toX⟩ := sorted
      rw [path]
      split
      · rename_i goes
        obtain ⟨low, high⟩ := @ihL (.left c x r :: up) sortedL
        refine ⟨low, fun y inside => ?_⟩
        obtain above | isLeft := high y inside
        · simp only [after, List.cons_append, List.mem_cons, List.mem_append] at above
          obtain rfl | inR | above := above
          · exact .inr goes
          · exact .inr (fromX y inR goes)
          · exact .inl above
        · exact .inr isLeft
      · rename_i stays
        rw [Bool.not_eq_true] at stays
        obtain ⟨low, high⟩ := @ihR (.right c l x :: up) sortedR
        refine ⟨fun y inside => ?_, high⟩
        obtain below | isRight := low y inside
        · simp only [before, List.mem_append, List.mem_singleton] at below
          obtain below | inL | rfl := below
          · exact .inl below
          · right
            have := toX y inL x (.inl rfl)
            rw [stays] at this
            simpa using this
          · exact .inr stays
        · exact .inr isRight

theorem length_plug : ∀ (ctx : Ctx α) (t : ColorTree α),
    ctx.length + t.inorder.length ≤ (plug ctx t).inorder.length
  | [], t => by simp
  | f :: up, t => by
      have above := length_plug up (f.fill t)
      have one : (f.fill t).inorder.length = t.inorder.length + f.sib.inorder.length + 1 := by
        cases f with
        | left c p sib => simp [Frame.fill, Frame.sib, ColorTree.inorder]; omega
        | right c sib p => simp [Frame.fill, Frame.sib, ColorTree.inorder]; omega
      rw [plug_cons, List.length_cons]
      omega

end Ctx

end Minus.Theory
