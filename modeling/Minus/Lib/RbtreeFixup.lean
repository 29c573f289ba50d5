/-
# Lib.RbtreeFixup — what the fix-up of rb_delete does to the shape of the tree

`rb_delete_fixup` of `lib/rbtree.c`, seen from the node it works on: `raise` is
the rotation that brings a black sibling, `settle` the rest of one iteration, and
`fixup` the loop, each as a change of the context of that node.  NULL
dereferences are `none`.

The code folds the mirror image of each case into one path by choosing the
direction of the rotations, but it names the sibling's children `bl` and `br`
and tests and recolours them as if the node were the left child.  So on the
right the case of a red nephew goes wrong, always: `fixup_valid_iff` says
exactly when the fix-up makes up for the missing black node.
-/
import Minus.Theory.RedBlack

namespace Minus.Lib.Rbtree

set_option autoImplicit false

open Minus.Theory

universe u

variable {α : Type u}

/-! ## One iteration -/

/-- A red sibling: the frames of the node after the rotation at its parent. -/
def raise : Frame α → Option (Frame α × Frame α)
  | .left _ p (.node .red bl b br) => some (.left .red p bl, .left .black b br)
  | .right _ (.node .red bl b br) p => some (.right .red br p, .right .black bl b)
  | _ => none

/-- The end of an iteration: go on from the parent, or replace its frame and stop. -/
inductive Move (α : Type u) where
  | climb (f : Frame α)
  | stop (frames : Ctx α)

/-- An iteration after the sibling has become black. -/
def settle : Frame α → Option (Move α)
  | .left c p (.node _ bl b br) =>
      if bl.color = .black ∧ br.color = .black then
        some (.climb (.left c p (.node .red bl b br)))
      else if br.color = .black then
        match bl with
        | .nil => none
        | .node _ ll l lr => some (.stop [.left .black p ll, .left c l (.node .black lr b br)])
      else
        some (.stop [.left .black p bl, .left c b br.blacken])
  | .right c (.node _ bl b br) p =>
      if bl.color = .black ∧ br.color = .black then
        some (.climb (.right c (.node .red bl b br) p))
      else if br.color = .black then
        match br with
        | .nil => none
        | .node _ rl r rr =>
            match rr with
            | .nil => none
            | .node _ _ _ _ =>
                some (.stop [.right .black rr.blacken p, .right c (.node .red bl.blacken b rl) r])
      else
        some (.stop [.right .black br.blacken p, .right c bl b])
  | .left _ _ .nil => none
  | .right _ .nil _ => none

/-- The loop, on the subtree of the node and the context above it. -/
def fixup : ColorTree α → Ctx α → Option (ColorTree α)
  | t, [] => some t.blacken
  | t, f :: up =>
      if t.color = .red then some (plug (f :: up) t.blacken)
      else
        match raise f with
        | some (f', g) =>
            match settle f' with
            | some (.climb f'') => some (plug (g :: up) (f''.fill t).blacken)
            | some (.stop frames) => some (plug (frames ++ g :: up) t).blacken
            | none => none
        | none =>
            match settle f with
            | some (.climb f') => fixup (f'.fill t) up
            | some (.stop frames) => some (plug (frames ++ up) t).blacken
            | none => none

theorem raise_color {f f' g : Frame α} (raised : raise f = some (f', g)) : f'.color = .red := by
  unfold raise at raised
  split at raised
  · cases raised
    rfl
  · cases raised
    rfl
  · cases raised

/-! ## Elements -/

theorem raise_inorder {f f' g : Frame α} (raised : raise f = some (f', g)) (up : Ctx α) (t : ColorTree α) :
    (plug (f' :: g :: up) t).inorder = (plug (f :: up) t).inorder := by
  unfold raise at raised
  split at raised
  · cases raised
    simp [inorder_plug, Frame.fill, ColorTree.inorder]
  · cases raised
    simp [inorder_plug, Frame.fill, ColorTree.inorder]
  · cases raised

/-- The context that an iteration leaves over the node. -/
def Move.frames : Move α → Ctx α
  | .climb f => [f]
  | .stop frames => frames

theorem settle_inorder {f : Frame α} {move : Move α} (settled : settle f = some move) (up : Ctx α)
    (t : ColorTree α) : (plug (move.frames ++ up) t).inorder = (plug (f :: up) t).inorder := by
  cases f with
  | left c p sib =>
      cases sib with
      | nil => cases settled
      | node d bl b br =>
          simp only [settle] at settled
          split at settled
          · cases settled
            simp [Move.frames, inorder_plug, Frame.fill, ColorTree.inorder]
          · split at settled
            · cases bl with
              | nil => cases settled
              | node =>
                  cases settled
                  simp [Move.frames, inorder_plug, Frame.fill, ColorTree.inorder]
            · cases settled
              simp [Move.frames, inorder_plug, Frame.fill, ColorTree.inorder]
  | right c sib p =>
      cases sib with
      | nil => cases settled
      | node d bl b br =>
          simp only [settle] at settled
          split at settled
          · cases settled
            simp [Move.frames, inorder_plug, Frame.fill, ColorTree.inorder]
          · split at settled
            · cases br with
              | nil => cases settled
              | node e rl r rr =>
                  cases rr with
                  | nil => cases settled
                  | node =>
                      cases settled
                      simp [Move.frames, inorder_plug, Frame.fill, ColorTree.inorder]
            · cases settled
              simp [Move.frames, inorder_plug, Frame.fill, ColorTree.inorder]

theorem settle_climb_color {f f' : Frame α} (settled : settle f = some (.climb f')) :
    f'.color = f.color := by
  cases f with
  | left c p sib =>
      cases sib with
      | nil => cases settled
      | node d bl b br =>
          simp only [settle] at settled
          split at settled
          · cases settled
            rfl
          · split at settled
            · cases bl with
              | nil => cases settled
              | node => cases settled
            · cases settled
  | right c sib p =>
      cases sib with
      | nil => cases settled
      | node d bl b br =>
          simp only [settle] at settled
          split at settled
          · cases settled
            rfl
          · split at settled
            · cases br with
              | nil => cases settled
              | node e rl r rr =>
                  cases rr with
                  | nil => cases settled
                  | node => cases settled
            · cases settled

theorem inorder_plug_blacken (ctx : Ctx α) (t : ColorTree α) :
    (plug ctx t.blacken).inorder = (plug ctx t).inorder := by
  rw [inorder_plug, inorder_plug, ColorTree.inorder_blacken]

/-- The fix-up keeps the elements in their order. -/
theorem fixup_inorder : ∀ {ctx : Ctx α} {t T : ColorTree α}, fixup t ctx = some T →
    T.inorder = (plug ctx t).inorder
  | [], t, T, done => by
      cases done
      exact ColorTree.inorder_blacken t
  | f :: up, t, T, done => by
      unfold fixup at done
      split at done
      · cases done
        exact inorder_plug_blacken (f :: up) t
      · split at done
        · rename_i f' g raised
          rw [← raise_inorder raised up t]
          split at done
          · rename_i f'' settled
            cases done
            rw [inorder_plug_blacken]
            exact settle_inorder settled (g :: up) t
          · rename_i frames settled
            cases done
            rw [ColorTree.inorder_blacken]
            exact settle_inorder settled (g :: up) t
          · cases done
        · split at done
          · rename_i f' settled
            rw [fixup_inorder done]
            exact settle_inorder settled up t
          · rename_i frames settled
            cases done
            rw [ColorTree.inorder_blacken]
            exact settle_inorder settled up t
          · cases done

/-- Contexts around the same elements: their elements are the same without the hole. -/
theorem notMem_of_inorder [DecidableEq α] {x : α} {ctx ctx' : Ctx α}
    (same : (plug ctx' .nil).inorder = (plug ctx .nil).inorder) (outside : x ∉ before ctx ++ after ctx) :
    x ∉ before ctx' ++ after ctx' := by
  rw [inorder_plug, inorder_plug] at same
  simp only [ColorTree.inorder, List.append_nil] at same
  rwa [same]

theorem prune_plug_of_outside [DecidableEq α] {x : α} {ctx : Ctx α}
    (outside : x ∉ before ctx ++ after ctx) (t : ColorTree α) :
    (plug ctx t).prune x = plug ctx (t.prune x) := by
  rw [List.mem_append, not_or] at outside
  exact prune_plug outside.1 outside.2

theorem outside_cons [DecidableEq α] {x : α} {f : Frame α} {up : Ctx α}
    (outside : x ∉ before (f :: up) ++ after (f :: up)) :
    x ∉ before up ++ after up ∧ ∀ t, (f.fill t).prune x = f.fill (t.prune x) := by
  cases f with
  | left c p sib =>
      simp only [before, after, List.cons_append, List.mem_append, List.mem_cons, not_or] at outside ⊢
      obtain ⟨notBefore, ne, notSib, notAfter⟩ := outside
      refine ⟨⟨notBefore, notAfter⟩, fun t => ?_⟩
      rw [Frame.fill, ColorTree.prune, if_neg (Ne.symm ne), ColorTree.prune_of_notMem notSib]
      rfl
  | right c sib p =>
      simp only [before, after, List.mem_append, List.mem_singleton, not_or] at outside ⊢
      obtain ⟨⟨notBefore, notSib, ne⟩, notAfter⟩ := outside
      refine ⟨⟨notBefore, notAfter⟩, fun t => ?_⟩
      rw [Frame.fill, ColorTree.prune, if_neg (Ne.symm ne), ColorTree.prune_of_notMem notSib]
      rfl

/-- The fix-up does not look into the subtree of the node, so the doomed leaf in it
might as well be gone. -/
theorem fixup_prune [DecidableEq α] {x : α} : ∀ {ctx : Ctx α} {t : ColorTree α},
    x ∉ before ctx ++ after ctx → (t.prune x).color = t.color →
    fixup (t.prune x) ctx = (fixup t ctx).map (ColorTree.prune x)
  | [], t, _, _ => by
      rw [fixup, fixup, Option.map_some, ColorTree.prune_blacken]
  | f :: up, t, outside, color => by
      rw [fixup, fixup, color]
      split
      · rw [Option.map_some, prune_plug_of_outside outside, ColorTree.prune_blacken]
      · cases raised : raise f with
        | some pair =>
            obtain ⟨f', g⟩ := pair
            have outside' := notMem_of_inorder (raise_inorder raised up .nil) outside
            dsimp only
            cases settled : settle f' with
            | none => rfl
            | some move =>
                have inner := notMem_of_inorder (settle_inorder settled (g :: up) .nil) outside'
                cases move with
                | climb f'' =>
                    change x ∉ before (f'' :: g :: up) ++ after (f'' :: g :: up) at inner
                    obtain ⟨above, fill⟩ := outside_cons inner
                    dsimp only
                    rw [Option.map_some, prune_plug_of_outside above, ColorTree.prune_blacken, fill]
                | stop frames =>
                    change x ∉ before (frames ++ g :: up) ++ after (frames ++ g :: up) at inner
                    dsimp only
                    rw [Option.map_some, ColorTree.prune_blacken, prune_plug_of_outside inner]
        | none =>
            dsimp only
            cases settled : settle f with
            | none => rfl
            | some move =>
                have inner := notMem_of_inorder (settle_inorder settled up .nil) outside
                cases move with
                | climb f' =>
                    change x ∉ before (f' :: up) ++ after (f' :: up) at inner
                    obtain ⟨above, fill⟩ := outside_cons inner
                    dsimp only
                    rw [← fill]
                    apply fixup_prune above
                    rw [fill, Frame.color_fill, Frame.color_fill]
                | stop frames =>
                    change x ∉ before (frames ++ up) ++ after (frames ++ up) at inner
                    dsimp only
                    rw [Option.map_some, ColorTree.prune_blacken, prune_plug_of_outside inner]

/-! ## Black heights -/

/-- A child of the root is red. -/
def hasRedChild : ColorTree α → Prop
  | .nil => False
  | .node _ l _ r => l.color = .red ∨ r.color = .red

/-- The fix-up from below this context never meets, at a right child, a sibling with
a red child; where the sibling is red, its right child becomes the sibling. -/
def FixupSafe : Ctx α → Prop
  | [] => True
  | .left c _ sib :: up => sib.color = .red ∨ hasRedChild sib ∨ c = .red ∨ FixupSafe up
  | .right _ (.node .red _ _ inner) _ :: _ => ¬ hasRedChild inner
  | .right c sib _ :: up => ¬ hasRedChild sib ∧ (c = .red ∨ FixupSafe up)

section Heights

variable {c : Color} {p : α} {sib t : ColorTree α} {up : Ctx α} {h : Nat}

theorem not_hasRedChild_iff {d : Color} {bl br : ColorTree α} {b : α} :
    ¬ hasRedChild (.node d bl b br) ↔ bl.color = .black ∧ br.color = .black := by
  unfold hasRedChild
  cases left : bl.color with
  | red => simp [left]
  | black =>
      cases right : br.color with
      | red => simp [right]
      | black => simp [left, right]

/-- The context of the parent when the sibling is black. -/
theorem fits_of_left (fits : Fits (.left c p sib :: up) (h + 1)) :
    sib.RB (h + 1) ∧ Fits up (if c = .red then h + 1 else h + 2) ∧ (c = .red → RedOk up) := by
  cases c with
  | red =>
      obtain ⟨-, rb, redOk, fitsUp⟩ := (fits_red rfl).1 fits
      exact ⟨rb, fitsUp, fun _ => redOk⟩
  | black =>
      obtain ⟨rb, fitsUp⟩ := (fits_black rfl).1 fits
      exact ⟨rb, fitsUp, fun red => nomatch red⟩

theorem fits_left_iff_right : Fits (.right c sib p :: up) h ↔ Fits (.left c p sib :: up) h := Iff.rfl

/-- **On the left the iteration settles the matter**, or moves it up. -/
theorem settle_left (fits : Fits (.left c p sib :: up) (h + 1)) (black : sib.color = .black) :
    (¬ hasRedChild sib ∧ ∃ f, settle (.left c p sib) = some (.climb f) ∧ f.color = c ∧ f.sib.RB h) ∨
    (hasRedChild sib ∧ ∃ frames, settle (.left c p sib) = some (.stop frames) ∧
      Fits (frames ++ up) h) := by
  obtain ⟨rb, fitsUp, redOk⟩ := fits_of_left fits
  obtain ⟨bl, b, br, rfl, rbL, rbR⟩ := rb.exists_black black
  cases right : br.color with
  | red =>
      right
      refine ⟨.inr right, [.left .black p bl, .left c b br.blacken], by simp [settle, right], ?_⟩
      have rb' := rbR.blacken_red right
      cases c with
      | red => exact ⟨rbL, br.color_blacken, rb', redOk rfl, fitsUp⟩
      | black => exact ⟨rbL, rb', fitsUp⟩
  | black =>
      cases left : bl.color with
      | black =>
          left
          exact ⟨not_hasRedChild_iff.2 ⟨left, right⟩, .left c p (.node .red bl b br),
            by simp [settle, left, right], rfl, left, right, rbL, rbR⟩
      | red =>
          right
          obtain ⟨ll, l, lr, rfl, -, -, rbLL, rbLR⟩ := rbL.exists_red left
          refine ⟨.inl left, [.left .black p ll, .left c l (.node .black lr b br)],
            by simp [settle, left, right], ?_⟩
          cases c with
          | red => exact ⟨rbLL, rfl, ⟨rbLR, rbR⟩, redOk rfl, fitsUp⟩
          | black => exact ⟨rbLL, ⟨rbLR, rbR⟩, fitsUp⟩

/-- **On the right a red nephew is never handled**: the iteration dereferences NULL or
leaves paths of different black heights. -/
theorem settle_right (fits : Fits (.right c sib p :: up) (h + 1)) (black : sib.color = .black) :
    (¬ hasRedChild sib ∧ ∃ f, settle (.right c sib p) = some (.climb f) ∧ f.color = c ∧ f.sib.RB h) ∨
    (hasRedChild sib ∧ (settle (.right c sib p) = none ∨
      ∃ frames, settle (.right c sib p) = some (.stop frames) ∧
        ∀ t : ColorTree α, t.RB h → ¬ (plug (frames ++ up) t).blacken.Valid)) := by
  obtain ⟨rb, fitsUp, redOk⟩ := fits_of_left (fits_left_iff_right.1 fits)
  obtain ⟨bl, b, br, rfl, rbL, rbR⟩ := rb.exists_black black
  -- two frames, of which the upper has the parent's colour: the root stays black
  have invalid : ∀ g g' : Frame α, g'.color = c → (∀ k, g.color = .black → k = h →
      g.sib.RB k → g'.sib.RB (k + 1) → False) → g.color = .black →
      ∀ t : ColorTree α, t.RB h → ¬ (plug ([g, g'] ++ up) t).blacken.Valid := by
    intro g g' color contra gBlack t rbT valid
    have root : (plug ([g, g'] ++ up) t).color = .black := by
      apply color_plug fitsUp
      rintro rfl
      show (g'.fill (g.fill t)).color = _
      rw [g'.color_fill, color]
      cases c with
      | red => exact (redOk rfl).elim
      | black => rfl
    rw [ColorTree.blacken_of_black root, valid_plug] at valid
    obtain ⟨k, rbK, fitsK, -⟩ := valid
    obtain ⟨rbSib, fitsG⟩ := (fits_black gBlack).1 fitsK
    apply contra k gBlack (rbK.height_unique rbT) rbSib
    cases color' : g'.color with
    | red => exact ((fits_red color').1 fitsG).2.1
    | black => exact ((fits_black color').1 fitsG).1
  cases right : br.color with
  | red =>
      right
      refine ⟨.inr right, .inr ⟨[.right .black br.blacken p, .right c bl b],
        by simp [settle, right], invalid _ _ rfl ?_ rfl⟩⟩
      rintro k - rfl rbSib -
      have := rbSib.height_unique (rbR.blacken_red right)
      omega
  | black =>
      cases left : bl.color with
      | black =>
          left
          exact ⟨not_hasRedChild_iff.2 ⟨left, right⟩, .right c (.node .red bl b br) p,
            by simp [settle, left, right], rfl, left, right, rbL, rbR⟩
      | red =>
          right
          refine ⟨.inl left, ?_⟩
          cases br with
          | nil => exact .inl (by simp [settle, left])
          | node d rl r rr =>
              cases right
              cases rr with
              | nil => exact .inl (by simp [settle, left])
              | node e rrl q rrr =>
                  right
                  refine ⟨[.right .black (ColorTree.node e rrl q rrr).blacken p,
                    .right c (.node .red bl.blacken b rl) r], by simp [settle, left],
                    invalid _ _ rfl ?_ rfl⟩
                  rintro k - rfl - rbUp
                  cases k with
                  | zero => exact rbR.elim
                  | succ k =>
                      have := rbUp.2.2.2.height_unique rbR.1
                      omega

/-- A red sibling has a black parent, and its near child is the next sibling. -/
theorem raise_fits_left (fits : Fits (.left c p sib :: up) (h + 1)) (red : sib.color = .red) :
    ∃ bl b br, sib = .node .red bl b br ∧ bl.color = .black ∧
      Fits (.left .red p bl :: .left .black b br :: up) (h + 1) := by
  cases c with
  | red => exact nomatch red.symm.trans ((fits_red rfl).1 fits).1
  | black =>
      obtain ⟨rb, fitsUp⟩ := (fits_black rfl).1 fits
      obtain ⟨bl, b, br, rfl, blackL, -, rbL, rbR⟩ := rb.exists_red red
      exact ⟨bl, b, br, rfl, blackL, blackL, rbL, rfl, rbR, fitsUp⟩

theorem raise_fits_right (fits : Fits (.right c sib p :: up) (h + 1)) (red : sib.color = .red) :
    ∃ bl b br, sib = .node .red bl b br ∧ br.color = .black ∧
      Fits (.right .red br p :: .right .black bl b :: up) (h + 1) := by
  cases c with
  | red => exact nomatch red.symm.trans ((fits_red rfl).1 fits).1
  | black =>
      obtain ⟨rb, fitsUp⟩ := (fits_black rfl).1 fits
      obtain ⟨bl, b, br, rfl, -, blackR, rbL, rbR⟩ := rb.exists_red red
      exact ⟨bl, b, br, rfl, blackR, blackR, rbR, rfl, rbL, fitsUp⟩

theorem raise_left_black (black : sib.color = .black) : raise (.left c p sib) = none := by
  cases sib with
  | nil => rfl
  | node d bl b br =>
      cases black
      rfl

theorem raise_right_black (black : sib.color = .black) : raise (.right c sib p) = none := by
  cases sib with
  | nil => rfl
  | node d bl b br =>
      cases black
      rfl

theorem fixupSafe_right_black (black : sib.color = .black) :
    FixupSafe (.right c sib p :: up) ↔ ¬ hasRedChild sib ∧ (c = .red ∨ FixupSafe up) := by
  cases sib with
  | nil => exact Iff.rfl
  | node d bl b br =>
      cases black
      exact Iff.rfl

theorem fill_blacken_rb {f : Frame α} (rb : t.RB h) (rbSib : f.sib.RB h) :
    (f.fill t).blacken.RB (h + 1) := by
  cases f with
  | left => exact ⟨rb, rbSib⟩
  | right => exact ⟨rbSib, rb⟩

/-- A red node ends the loop and is painted black. -/
theorem fixup_red (red : t.color = .red) : fixup t up = some (plug up t.blacken) := by
  cases up with
  | nil => rfl
  | cons f rest => rw [fixup, if_pos red]

theorem valid_plug_blacken (rb : t.blacken.RB h) (fits : Fits up h) : (plug up t.blacken).Valid :=
  valid_plug.2 ⟨h, rb, fits, fun red => nomatch (t.color_blacken).symm.trans red⟩

theorem valid_blacken_plug (rb : t.RB h) (black : t.color = .black) (fits : Fits up h) :
    (plug up t).blacken.Valid := by
  have valid : (plug up t).Valid := valid_plug.2 ⟨h, rb, fits, fun red => nomatch black.symm.trans red⟩
  rwa [ColorTree.blacken_of_black valid.1]

/-- From the parent the loop ends at once if the parent is red, and else goes on. -/
theorem climb_valid_iff {f : Frame α} (rb : t.RB h) (rbSib : f.sib.RB h)
    (fits : Fits up (if f.color = .red then h + 1 else h + 2))
    (above : ∀ {t : ColorTree α} {h : Nat}, t.RB h → t.color = .black → Fits up (h + 1) →
      ((∃ T, fixup t up = some T ∧ T.Valid) ↔ FixupSafe up)) :
    (∃ T, fixup (f.fill t) up = some T ∧ T.Valid) ↔ f.color = .red ∨ FixupSafe up := by
  have rbFill := fill_blacken_rb (f := f) rb rbSib
  have color := f.color_fill t
  cases c : f.color with
  | red =>
      rw [c] at color fits
      rw [fixup_red color]
      exact ⟨fun _ => .inl rfl, fun _ => ⟨_, rfl, valid_plug_blacken rbFill fits⟩⟩
  | black =>
      rw [c] at color fits
      rw [ColorTree.blacken_of_black color] at rbFill
      rw [above rbFill color fits]
      exact ⟨.inr, fun safe => safe.resolve_left fun red => nomatch red⟩

end Heights

/-- **When the fix-up works.**  The subtree of the node is one black node short for its
context; the loop returns a red-black tree exactly if the way up is safe. -/
theorem fixup_valid_iff : ∀ {ctx : Ctx α} {t : ColorTree α} {h : Nat}, t.RB h → t.color = .black →
    Fits ctx (h + 1) → ((∃ T, fixup t ctx = some T ∧ T.Valid) ↔ FixupSafe ctx)
  | [], t, h, rb, black, _ => by
      have valid : t.blacken.Valid := (ColorTree.blacken_of_black black).symm ▸ ⟨black, h, rb⟩
      exact ⟨fun _ => trivial, fun _ => ⟨_, rfl, valid⟩⟩
  | .left c p sib :: up, t, h, rb, black, fits => by
      rw [fixup, if_neg (black ▸ by decide)]
      cases color : sib.color with
      | red =>
          have safe : FixupSafe (.left c p sib :: up) := .inl color
          obtain ⟨bl, b, br, rfl, blackL, fits'⟩ := raise_fits_left fits color
          obtain ⟨-, -, -, fitsG⟩ := (fits_red rfl).1 fits'
          dsimp only [raise]
          obtain ⟨-, f, settled, -, rbSib⟩ | ⟨-, frames, settled, fitsNew⟩ := settle_left fits' blackL
          · rw [settled]
            exact ⟨fun _ => safe, fun _ => ⟨_, rfl,
              valid_plug_blacken (fill_blacken_rb rb rbSib) fitsG⟩⟩
          · rw [settled]
            exact ⟨fun _ => safe, fun _ => ⟨_, rfl, valid_blacken_plug rb black fitsNew⟩⟩
      | black =>
          rw [raise_left_black color]
          dsimp only
          obtain ⟨clear, f, settled, rfl, rbSib⟩ | ⟨nephew, frames, settled, fitsNew⟩ :=
            settle_left fits color
          · obtain ⟨-, fitsUp, -⟩ := fits_of_left fits
            rw [settled]
            dsimp only
            rw [climb_valid_iff rb rbSib fitsUp fixup_valid_iff, FixupSafe, color]
            simp [clear]
          · rw [settled]
            exact ⟨fun _ => .inr (.inl nephew), fun _ => ⟨_, rfl, valid_blacken_plug rb black fitsNew⟩⟩
  | .right c sib p :: up, t, h, rb, black, fits => by
      rw [fixup, if_neg (black ▸ by decide)]
      cases color : sib.color with
      | red =>
          obtain ⟨bl, b, br, rfl, blackR, fits'⟩ := raise_fits_right fits color
          obtain ⟨-, -, -, fitsG⟩ := (fits_red rfl).1 fits'
          dsimp only [raise]
          obtain ⟨clear, f, settled, -, rbSib⟩ | ⟨nephew, fails⟩ := settle_right fits' blackR
          · rw [settled]
            exact ⟨fun _ => clear, fun _ => ⟨_, rfl,
              valid_plug_blacken (fill_blacken_rb rb rbSib) fitsG⟩⟩
          · refine ⟨fun returned => ?_, fun safe => (safe nephew).elim⟩
            obtain ⟨T, done, valid⟩ := returned
            obtain crash | ⟨frames, settled, invalid⟩ := fails
            · rw [crash] at done
              cases done
            · rw [settled] at done
              cases done
              exact (invalid t rb valid).elim
      | black =>
          rw [raise_right_black color, fixupSafe_right_black color]
          dsimp only
          obtain ⟨clear, f, settled, rfl, rbSib⟩ | ⟨nephew, fails⟩ := settle_right fits color
          · obtain ⟨-, fitsUp, -⟩ := fits_of_left (fits_left_iff_right.1 fits)
            rw [settled]
            dsimp only
            rw [climb_valid_iff rb rbSib fitsUp fixup_valid_iff]
            exact ⟨fun safe => ⟨clear, safe⟩, fun safe => safe.2⟩
          · refine ⟨fun returned => ?_, fun safe => (safe.1 nephew).elim⟩
            obtain ⟨T, done, valid⟩ := returned
            obtain crash | ⟨frames, settled, invalid⟩ := fails
            · rw [crash] at done
              cases done
            · rw [settled] at done
              cases done
              exact (invalid t rb valid).elim

end Minus.Lib.Rbtree
