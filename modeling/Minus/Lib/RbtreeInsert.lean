/-
# Lib.RbtreeInsert — rb_insert keeps the tree red-black and in order

`rb_insert` goes down to a hole, hangs a red node there and repairs upwards.  The
repair is one loop over the context of the red node (`rbInsertFixup_spec`): under a
black parent it is over, with a red uncle the grandparent becomes the red node,
and with a black one `rb_rot` ends it.  The order of the elements is that of the
search: the new node stands between those the search left on either side
(`rbInsert_spec`).  The node itself ends as a red leaf or over two of them (`Settled`).
-/
import Minus.Lib.RbtreeLoop

namespace Minus.Lib.Rbtree

set_option autoImplicit false

open Minus.Theory

universe u

variable {α : Type u}

@[simp] theorem Side.other_other (side : Side) : side.other.other = side := by
  cases side with
  | left => rfl
  | right => rfl

/-! ## A frame as a node with a side -/

theorem join_other (side : Side) (c : Color) (near far : ColorTree α) (x : α) :
    join side.other c near x far = join side c far x near := by
  cases side with
  | left => rfl
  | right => rfl

theorem color_join (side : Side) (c : Color) (near far : ColorTree α) (x : α) :
    (join side c near x far).color = c := by
  cases side with
  | left => rfl
  | right => rfl

theorem blacken_join (side : Side) (c : Color) (near far : ColorTree α) (x : α) :
    (join side c near x far).blacken = join side .black near x far := by
  cases side with
  | left => rfl
  | right => rfl

theorem rb_join_red {side : Side} {near far : ColorTree α} {x : α} {h : Nat} :
    (join side .red near x far).RB h ↔ near.color = .black ∧ far.color = .black ∧ near.RB h ∧ far.RB h := by
  cases side with
  | left => exact Iff.rfl
  | right => exact ⟨fun ⟨a, b, c, d⟩ => ⟨b, a, d, c⟩, fun ⟨a, b, c, d⟩ => ⟨b, a, d, c⟩⟩

theorem rb_join_black {side : Side} {near far : ColorTree α} {x : α} {h : Nat} :
    (join side .black near x far).RB (h + 1) ↔ near.RB h ∧ far.RB h := by
  cases side with
  | left => exact Iff.rfl
  | right => exact ⟨fun ⟨a, b⟩ => ⟨b, a⟩, fun ⟨a, b⟩ => ⟨b, a⟩⟩

/-- The side of its parent that the hole is on. -/
def holeSide : Frame α → Side
  | .left _ _ _ => .left
  | .right _ _ _ => .right

/-- A tree that is not empty, with either child first. -/
theorem exists_join (side : Side) {t : ColorTree α} {z : α} (root : t.root? = some z) :
    ∃ c near far, t = join side c near z far := by
  cases t with
  | nil => cases root
  | node c l x r =>
      cases root
      cases side with
      | left => exact ⟨c, l, r, rfl⟩
      | right => exact ⟨c, r, l, rfl⟩

theorem inorder_join_congr (side : Side) (c d : Color) {near near' far far' : ColorTree α} (x : α)
    (sameNear : near.inorder = near'.inorder) (sameFar : far.inorder = far'.inorder) :
    (join side c near x far).inorder = (join side d near' x far').inorder := by
  cases side with
  | left => simp [join, ColorTree.inorder, sameNear, sameFar]
  | right => simp [join, ColorTree.inorder, sameNear, sameFar]

/-! ## The steps of the repair in memory -/

section Steps

variable [DecidableEq α] {s : RbTree α} {up : Ctx α} {side : Side} {c : Color} {near far : ColorTree α}
  {x y : α}

omit [DecidableEq α] in
theorem Represents.at_join (rep : Represents s (plug up (join side c near x far))) :
    Holds (s.nodes x) side c near.root? far.root? (parentOf up) :=
  (repTree_join.1 (rep_plug.1 rep).2.1).1

theorem Represents.setColor_join (rep : Represents s (plug up (join side c near x far))) (d : Color) :
    Represents (s.setColor x d) (plug up (join side d near x far)) := by
  cases side with
  | left => exact rep.setColor d
  | right => exact rep.setColor d

/-- The frame of the child on one side. -/
def childFrame (side : Side) (c : Color) (x : α) (far : ColorTree α) : Frame α :=
  match side with
  | .left => .left c x far
  | .right => .right c far x

omit [DecidableEq α] in
@[simp] theorem parentOf_childFrame : parentOf (childFrame side c x far :: up) = some x := by
  cases side with
  | left => rfl
  | right => rfl

omit [DecidableEq α] in
theorem frame_eq (f : Frame α) : f = childFrame (holeSide f) f.color f.parent f.sib := by
  cases f with
  | left => rfl
  | right => rfl

omit [DecidableEq α] in
@[simp] theorem childFrame_parent : (childFrame side c x far).parent = x := by
  cases side with
  | left => rfl
  | right => rfl

omit [DecidableEq α] in
@[simp] theorem color_childFrame : (childFrame side c x far).color = c := by
  cases side with
  | left => rfl
  | right => rfl

omit [DecidableEq α] in
@[simp] theorem childFrame_sib : (childFrame side c x far).sib = far := by
  cases side with
  | left => rfl
  | right => rfl

omit [DecidableEq α] in
theorem plug_join (side : Side) (c : Color) (near far : ColorTree α) (x : α) (up : Ctx α) :
    plug up (join side c near x far) = plug (childFrame side c x far :: up) near := by
  cases side with
  | left => rfl
  | right => rfl

omit [DecidableEq α] in
/-- The test for the side a child is on. -/
theorem Represents.child_eq_iff (rep : Represents s (plug up (join side c near x far))) (child : near.root? = some y)
    (other : Side) : (s.nodes x).child other = some y ↔ other = side := by
  have holds := rep.at_join
  rw [plug_join] at rep
  have apart := rep.sib_ne child
  constructor
  · intro same
    by_contra ne
    have opposite : other = side.other := by
      cases other with
      | left =>
          cases side with
          | left => exact absurd rfl ne
          | right => rfl
      | right =>
          cases side with
          | left => rfl
          | right => exact absurd rfl ne
    rw [opposite, holds.far] at same
    cases side with
    | left => exact apart same
    | right => exact apart same
  · rintro rfl
    exact holds.near.trans child

/-- `rb_rot`, by the side that `p` is on. -/
theorem rbRot_eq {p pp z : α} (here : (s.nodes pp).left = some p ↔ Side.left = side) :
    rbRot s pp p z =
      (if (s.nodes p).child side.other = some z then rbRotate side s p else .ok s) >>= fun s =>
        rbRotate side.other s pp >>= fun s => .ok (s, (s.nodes pp).parent) := by
  cases side with
  | left =>
      rw [rbRot, if_pos (here.2 rfl)]
      show (if (s.nodes p).right = some z then _ else _) = (if (s.nodes p).right = some z then _ else _) >>= _
      split
      · rfl
      · rfl
  | right =>
      rw [rbRot, if_neg fun same => nomatch here.1 same]
      show (if (s.nodes p).left = some z then _ else _) = (if (s.nodes p).left = some z then _ else _) >>= _
      split
      · rfl
      · rfl

/-- `rb_rot` of the red node `z` under the red `p`, both on one side. -/
theorem rbRot_outer {c d : Color} {t sib u : ColorTree α} {p pp z : α}
    (rep : Represents s (plug up (join side c (join side d t p sib) pp u))) (root : t.root? = some z) :
    ∃ s', rbRot s pp p z = .ok (s', some p) ∧
      Represents s' (plug up (join side d t p (join side c sib pp u))) := by
  have below := rep
  rw [plug_join] at below
  have notInner : (s.nodes p).child side.other ≠ some z := by
    rw [Ne, below.child_eq_iff root]
    cases side with
    | left => nofun
    | right => nofun
  have turn := rep
  rw [← join_other side c, ← join_other side d] at turn
  obtain ⟨s', rotated, rep'⟩ := Represents.rotate side.other turn
  have lower := rep'
  rw [plug_join] at lower
  have parent : (s'.nodes pp).parent = some p := lower.at_join.parent.trans parentOf_childFrame
  rw [join_other, join_other] at rep'
  refine ⟨s', ?_, rep'⟩
  rw [rbRot_eq (rep.child_eq_iff (join_root? side d t sib p) .left), if_neg notInner, ok_bind, rotated, ok_bind,
    parent]

/-- `rb_rot` of the red node `z` under the red `p`, on different sides. -/
theorem rbRot_inner {c d e : Color} {tp tpp sib u : ColorTree α} {p pp z : α}
    (rep : Represents s (plug up (join side c (join side d sib p (join side e tp z tpp)) pp u))) :
    ∃ s', rbRot s pp p z = .ok (s', some z) ∧
      Represents s' (plug up (join side e (join side d sib p tp) z (join side c tpp pp u))) := by
  have below := rep
  rw [plug_join] at below
  have isInner : (s.nodes p).child side.other = some z := by
    rw [below.at_join.far, join_root?]
  obtain ⟨s₁, rotated₁, rep₁⟩ := Represents.rotate side below
  rw [← plug_join, ← join_other side c, ← join_other side e] at rep₁
  obtain ⟨s₂, rotated₂, rep₂⟩ := Represents.rotate side.other rep₁
  have lower := rep₂
  rw [plug_join] at lower
  have parent : (s₂.nodes pp).parent = some z := lower.at_join.parent.trans parentOf_childFrame
  rw [join_other, join_other] at rep₂
  refine ⟨s₂, ?_, rep₂⟩
  rw [rbRot_eq (rep.child_eq_iff (join_root? side d sib _ p) .left), if_pos isInner, rotated₁, ok_bind, rotated₂,
    ok_bind, parent]

/-- Painting a root that is black already. -/
theorem paintRoot_spec {T : ColorTree α} {r : α} (rep : Represents s T) (root : T.root? = some r) :
    ∃ s', paintRoot s = .ok s' ∧ Represents s' T.blacken := by
  refine ⟨s.setColor r .black, ?_, rep.paint_root (rep.root.trans root)⟩
  rw [paintRoot, rep.root, root]
  rfl

end Steps

/-! ## The place of the new node -/

/-- `x` is a red leaf. -/
def RedLeaf (x : α) (t : ColorTree α) : Prop := ∃ ctx, t = plug ctx (.node .red .nil x .nil)

/-- `x` is a red leaf that is the root or stays where it is if the root is painted. -/
def Seated (x : α) (t : ColorTree α) : Prop :=
  t = .node .red .nil x .nil ∨ ∃ side c near z far, t = join side c near z far ∧ RedLeaf x near

/-- Where a new node ends: it is a red leaf, or stands over two, or is alone. -/
def Settled (x : α) (t : ColorTree α) : Prop :=
  RedLeaf x t ∨
    (∃ ctx a b, t = plug ctx (.node .black (.node .red .nil a .nil) x (.node .red .nil b .nil))) ∨
      t = .node .black .nil x .nil

theorem RedLeaf.plug {x : α} {t : ColorTree α} (leaf : RedLeaf x t) (up : Ctx α) : RedLeaf x (plug up t) := by
  obtain ⟨ctx, rfl⟩ := leaf
  exact ⟨ctx ++ up, (plug_append ctx up _).symm⟩

theorem RedLeaf.near {x z : α} {side : Side} {c : Color} {near far : ColorTree α} (leaf : RedLeaf x near) :
    RedLeaf x (join side c near z far) := by
  have whole := plug_join side c near far z []
  rw [plug_nil] at whole
  rw [whole]
  exact leaf.plug _

theorem RedLeaf.far {x z : α} {side : Side} {c : Color} {near far : ColorTree α} (leaf : RedLeaf x far) :
    RedLeaf x (join side c near z far) := by
  rw [← join_other]
  exact leaf.near

theorem Seated.redLeaf {x : α} {t : ColorTree α} (seated : Seated x t) : RedLeaf x t := by
  rcases seated with rfl | ⟨side, c, near, z, far, rfl, leaf⟩
  · exact ⟨[], rfl⟩
  · exact leaf.near

theorem Seated.blacken {x : α} {t : ColorTree α} (seated : Seated x t) : Settled x t.blacken := by
  rcases seated with rfl | ⟨side, c, near, z, far, rfl, leaf⟩
  · exact .inr (.inr rfl)
  · rw [blacken_join]
    exact .inl leaf.near

/-- Below the root of a tree that is not a leaf. -/
theorem Seated.below {x z : α} {side : Side} {c : Color} {near far : ColorTree α}
    (seated : Seated x (join side c near z far)) :
    (x = z ∧ near = .nil ∧ far = .nil) ∨ RedLeaf x near ∨ RedLeaf x far := by
  rcases seated with leaf | ⟨side', c', near', z', far', same, leaf⟩
  · refine .inl ?_
    cases side with
    | left =>
        cases leaf
        exact ⟨rfl, rfl, rfl⟩
    | right =>
        cases leaf
        exact ⟨rfl, rfl, rfl⟩
  · refine .inr ?_
    cases side with
    | left =>
        cases side' with
        | left =>
            cases same
            exact .inl leaf
        | right =>
            cases same
            exact .inr leaf
    | right =>
        cases side' with
        | left =>
            cases same
            exact .inr leaf
        | right =>
            cases same
            exact .inl leaf

/-! ## The repair -/

section Repair

variable [DecidableEq α] {s : RbTree α} {ctx up : Ctx α} {f g : Frame α} {t T : ColorTree α} {z : α} {h : Nat}

/-- A tree that is in order already is painted, and stays as it is. -/
theorem paintRoot_valid {r : α} (rep : Represents s T) (root : T.root? = some r) (valid : T.Valid) :
    ∃ s', paintRoot s = .ok s' ∧ Represents s' T := by
  obtain ⟨s', painted, rep'⟩ := paintRoot_spec rep root
  rw [ColorTree.blacken_of_black valid.1] at rep'
  exact ⟨s', painted, rep'⟩

/-- A black parent: the red node may stay. -/
theorem rbInsertFixup_black (fuel : Nat) (rep : Represents s (plug (f :: up) t)) (root : t.root? = some z)
    (rb : t.RB h) (fits : Fits (f :: up) h) (black : f.color = .black) :
    ∃ s', rbInsertFixup (fuel + 1) s z = .ok s' ∧ Represents s' (plug (f :: up) t) ∧ (plug (f :: up) t).Valid := by
  have valid : (plug (f :: up) t).Valid := valid_plug.2 ⟨h, rb, fits, fun _ => black⟩
  obtain ⟨r, top⟩ := plug_root? f up t
  obtain ⟨s', painted, rep'⟩ := paintRoot_valid rep top valid
  refine ⟨s', ?_, rep', valid⟩
  rw [rbInsertFixup, rep.parent_eq root]
  show (if (s.nodes f.parent).color = .red then _ else _) = _
  rw [rep.parent_color, black]
  exact painted

/-- The grandparent and the uncle, as the loop finds them. -/
theorem Represents.uncle (rep : Represents s (plug (f :: g :: up) t)) :
    (s.nodes f.parent).parent = some g.parent ∧
      (if some f.parent = (s.nodes g.parent).left then (s.nodes g.parent).right
        else (s.nodes g.parent).left) = g.sib.root? := by
  have above : Represents s (plug (g :: up) (f.fill t)) := rep
  have root : (f.fill t).root? = some f.parent := fill_root? f t
  refine ⟨above.parent_eq root, ?_⟩
  have brother := above.brother root
  rw [rbBrother, above.parent_eq root] at brother
  change (if some f.parent = (s.nodes g.parent).left then Except.ok (s.nodes g.parent).right
    else Except.ok (s.nodes g.parent).left) = _ at brother
  split at brother
  · rename_i isLeft
    rw [if_pos isLeft]
    exact Except.ok.inj brother
  · rename_i isRight
    rw [if_neg isRight]
    exact Except.ok.inj brother

variable {side lower : Side} {sib u : ColorTree α} {p pp : α}

/-- An iteration below a red parent. -/
theorem rbInsertFixup_red (fuel : Nat)
    (rep : Represents s (plug up (join side .black (join lower .red t p sib) pp u))) (root : t.root? = some z) :
    rbInsertFixup (fuel + 1) s z =
      if rbColor (s.setColor pp .red) u.root? = .red then
        deref u.root? >>= fun x =>
          rbInsertFixup fuel (((s.setColor pp .red).setColor x .black).setColor p .black) pp
      else
        rbRot (s.setColor pp .red) pp p z >>= fun r =>
          deref r.2 >>= fun x => paintRoot (r.1.setColor x .black) := by
  have painted := rep.setColor_join .red
  rw [plug_join, plug_join] at rep painted
  have parent := rep.parent_eq root
  have isRed := rep.parent_color
  have grand := rep.uncle.1
  have look := painted.uncle.2
  rw [childFrame_parent] at parent isRed grand look
  rw [childFrame_parent] at grand look
  rw [childFrame_sib] at look
  rw [rbInsertFixup, parent]
  show (if (s.nodes p).color = .red then _ else _) = _
  rw [isRed, color_childFrame, if_pos rfl, grand]
  show (if rbColor (s.setColor pp .red) (if _ then _ else _) = .red then _ else _) = _
  rw [look]

/-- A red uncle: the grandparent becomes the red node. -/
theorem rbInsertFixup_climb (fuel : Nat)
    (rep : Represents s (plug up (join side .black (join lower .red t p sib) pp u))) (root : t.root? = some z)
    (red : u.color = .red) : ∃ s', rbInsertFixup (fuel + 1) s z = rbInsertFixup fuel s' pp ∧
      Represents s' (plug up (join side .red (join lower .black t p sib) pp u.blacken)) := by
  obtain ⟨x, uRoot⟩ : ∃ x, u.root? = some x := by
    cases u with
    | nil => cases red
    | node c l x r => exact ⟨x, rfl⟩
  have atUncle := rep.setColor_join .red
  rw [← join_other, plug_join] at atUncle
  have uncleRed : rbColor (s.setColor pp .red) (some x) = .red := uRoot ▸ atUncle.color.trans red
  have atParent := atUncle.paint uRoot
  rw [← plug_join, join_other, plug_join] at atParent
  have done := atParent.setColor_join .black
  rw [← plug_join] at done
  refine ⟨_, ?_, done⟩
  rw [rbInsertFixup_red fuel rep root, uRoot, if_pos uncleRed]
  rfl

/-- A black uncle: `rb_rot` puts a black node over two red ones. -/
theorem rbInsertFixup_rot (fuel : Nat)
    (rep : Represents s (plug up (join side .black (join lower .red t p sib) pp u))) (root : t.root? = some z)
    (red : t.color = .red) (rbT : t.RB h) (sibBlack : sib.color = .black) (rbSib : sib.RB h)
    (black : u.color = .black) (rbU : u.RB h) (fits : Fits up (h + 1)) :
    ∃ s' T, rbInsertFixup (fuel + 1) s z = .ok s' ∧ Represents s' T ∧ T.Valid ∧
      T.inorder = (plug up (join side .black (join lower .red t p sib) pp u)).inorder ∧
      ∀ x, Seated x t → Settled x T := by
  have painted := rep.setColor_join .red
  have uncleBlack : ¬ rbColor (s.setColor pp .red) u.root? = .red := by
    have atUncle := painted
    rw [← join_other, plug_join] at atUncle
    rw [atUncle.color, black]
    nofun
  -- either way the subtree is a black node over the two others
  obtain ⟨s₁, r, near, far, rotated, rep₁, rbNear, rbFar, order, settled⟩ : ∃ s₁ r near far,
      rbRot (s.setColor pp .red) pp p z = .ok (s₁, some r) ∧ Represents s₁ (plug up (join side .red near r far)) ∧
      near.RB h ∧ far.RB h ∧
      (join side .black near r far).inorder = (join side .black (join lower .red t p sib) pp u).inorder ∧
      ∀ x, Seated x t → Settled x (plug up (join side .black near r far)) := by
    by_cases outer : lower = side
    · subst outer
      obtain ⟨s₁, rotated, rep₁⟩ := rbRot_outer painted root
      refine ⟨s₁, p, t, join lower .red sib pp u, rotated, rep₁, rbT,
        rb_join_red.2 ⟨sibBlack, black, rbSib, rbU⟩, ?_, fun x seated => .inl (seated.redLeaf.near.plug up)⟩
      cases lower with
      | left => simp [join, ColorTree.inorder]
      | right => simp [join, ColorTree.inorder]
    · have inner : lower = side.other := by
        cases lower with
        | left =>
            cases side with
            | left => exact absurd rfl outer
            | right => rfl
        | right =>
            cases side with
            | left => rfl
            | right => exact absurd rfl outer
      subst inner
      obtain ⟨c, tp, tpp, rfl⟩ := exists_join side root
      rw [color_join] at red
      subst red
      obtain ⟨blackTp, blackTpp, rbTp, rbTpp⟩ := rb_join_red.1 rbT
      rw [join_other] at painted
      obtain ⟨s₁, rotated, rep₁⟩ := rbRot_inner painted
      refine ⟨s₁, z, join side .red sib p tp, join side .red tpp pp u, rotated, rep₁,
        rb_join_red.2 ⟨sibBlack, blackTp, rbSib, rbTp⟩, rb_join_red.2 ⟨blackTpp, black, rbTpp, rbU⟩, ?_,
        fun x seated => ?_⟩
      · cases side with
        | left => simp [join, ColorTree.inorder, Side.other]
        | right => simp [join, ColorTree.inorder, Side.other]
      · rcases seated.below with ⟨rfl, rfl, rfl⟩ | inTp | inTpp
        · -- the new node itself goes up, over two red leaves
          obtain rfl : h = 0 := rbTp
          rw [rbSib.eq_nil sibBlack, rbU.eq_nil black]
          cases side with
          | left => exact .inr (.inl ⟨up, p, pp, rfl⟩)
          | right => exact .inr (.inl ⟨up, pp, p, rfl⟩)
        · exact .inl (RedLeaf.plug (RedLeaf.near (RedLeaf.far inTp)) up)
        · exact .inl (RedLeaf.plug (RedLeaf.far (RedLeaf.near inTpp)) up)
  have rep₂ := rep₁.setColor_join .black
  have valid : (plug up (join side .black near r far)).Valid := by
    refine valid_plug.2 ⟨h + 1, rb_join_black.2 ⟨rbNear, rbFar⟩, fits, fun isRed => ?_⟩
    rw [color_join] at isRed
    cases isRed
  obtain ⟨top, hasTop⟩ : ∃ top, (plug up (join side .black near r far)).root? = some top := by
    cases up with
    | nil => exact ⟨r, join_root? _ _ _ _ _⟩
    | cons f rest => exact plug_root? f rest _
  obtain ⟨s₂, final, rep₃⟩ := paintRoot_valid rep₂ hasTop valid
  refine ⟨s₂, _, ?_, rep₃, valid, by rw [inorder_plug, inorder_plug, order], settled⟩
  rw [rbInsertFixup_red fuel rep root, if_neg uncleBlack, rotated]
  exact final

/-- **The repair** makes a red-black tree of one with a red node out of place, and
keeps the order. -/
theorem rbInsertFixup_spec : ∀ {fuel : Nat} {s : RbTree α} {ctx : Ctx α} {t : ColorTree α} {z : α} {h : Nat},
    ctx.length < fuel → Represents s (plug ctx t) → t.root? = some z → t.color = .red → t.RB h → Fits ctx h →
    ∃ s' T, rbInsertFixup fuel s z = .ok s' ∧ Represents s' T ∧ T.Valid ∧ T.inorder = (plug ctx t).inorder ∧
      ∀ x, Seated x t → Settled x T
  | 0, _, _, _, _, _, enough, _, _, _, _, _ => absurd enough (Nat.not_lt_zero _)
  | fuel + 1, s, [], t, z, h, _, rep, root, red, rb, _ => by
      have parent : (s.nodes z).parent = none := by
        obtain ⟨c, near, far, eq⟩ := exists_join .left root
        rw [eq] at rep
        exact rep.at_join.parent
      obtain ⟨s', painted, rep'⟩ := paintRoot_spec (T := t) rep root
      refine ⟨s', t.blacken, ?_, rep', ⟨t.color_blacken, h + 1, rb.blacken_red red⟩, t.inorder_blacken,
        fun x seated => seated.blacken⟩
      rw [rbInsertFixup, parent]
      exact painted
  | fuel + 1, s, f :: up, t, z, h, enough, rep, root, red, rb, fits => by
      cases color : f.color with
      | black =>
          obtain ⟨s', done, rep', valid⟩ := rbInsertFixup_black fuel rep root rb fits color
          exact ⟨s', _, done, rep', valid, rfl, fun x seated => .inl (seated.redLeaf.plug _)⟩
      | red =>
          obtain ⟨sibBlack, rbSib, redOk, fitsUp⟩ := (fits_red color).1 fits
          cases up with
          | nil => exact redOk.elim
          | cons g up =>
              obtain ⟨rbU, fitsUp⟩ := (fits_black redOk).1 fitsUp
              have black : g.color = .black := redOk
              have form : plug (f :: g :: up) t =
                  plug up (join (holeSide g) .black (join (holeSide f) .red t f.parent f.sib) g.parent g.sib) := by
                rw [plug_join, plug_join, ← color, ← frame_eq, ← black, ← frame_eq]
              rw [form] at rep ⊢
              cases uncle : g.sib.color with
              | black => exact rbInsertFixup_rot fuel rep root red rb sibBlack rbSib uncle rbU fitsUp
              | red =>
                  obtain ⟨s₁, goesOn, rep₁⟩ := rbInsertFixup_climb fuel rep root uncle
                  have shorter : up.length < fuel := by
                    simp only [List.length_cons] at enough
                    omega
                  have rbPair : (join (holeSide g) .red (join (holeSide f) .black t f.parent f.sib) g.parent
                      g.sib.blacken).RB (h + 1) :=
                    rb_join_red.2 ⟨color_join _ _ _ _ _, ColorTree.color_blacken _, rb_join_black.2 ⟨rb, rbSib⟩,
                      rbU.blacken_red uncle⟩
                  obtain ⟨s', T, done, rep', valid, order, settled⟩ := rbInsertFixup_spec shorter rep₁
                    (join_root? _ _ _ _ _) (color_join _ _ _ _ _) rbPair fitsUp
                  refine ⟨s', T, goesOn.trans done, rep', valid, order.trans ?_, fun x seated =>
                    settled x (.inr ⟨_, _, _, _, _, rfl, seated.redLeaf.near⟩)⟩
                  rw [inorder_plug, inorder_plug, inorder_join_congr (holeSide g) .red .black g.parent
                    (inorder_join_congr (holeSide f) .black .red f.parent rfl rfl) (ColorTree.inorder_blacken _)]

end Repair

/-! ## The whole insertion -/

section Insert

variable [DecidableEq α] {s : RbTree α} {comp : α → α → Int} {node : α}

/-- The search goes left where the node compares less. -/
def goesLeft (comp : α → α → Int) (node : α) (x : α) : Bool := decide (comp node x < 0)

omit [DecidableEq α] in
/-- The way down ends above the hole of the search. -/
theorem descend_path : ∀ {fuel : Nat} {up : Ctx α} {c : Color} {l r : ColorTree α} {x : α},
    (ColorTree.node c l x r).inorder.length ≤ fuel → Represents s (plug up (.node c l x r)) →
    ∃ f rest, path (goesLeft comp node) up (.node c l x r) = f :: rest ∧
      descend comp s node fuel x = .ok f.parent ∧ (holeSide f = .left ↔ comp node f.parent < 0)
  | 0, _, _, l, r, x, enough, _ => by simp [ColorTree.inorder] at enough
  | fuel + 1, up, c, l, r, x, enough, rep => by
      simp only [ColorTree.inorder, List.length_append, List.length_cons] at enough
      rw [path, descend, rep.read]
      by_cases less : comp node x < 0
      · rw [if_pos less, goesLeft, decide_eq_true less, if_pos rfl]
        cases l with
        | nil => exact ⟨_, up, rfl, rfl, fun _ => less, fun _ => rfl⟩
        | node d ll y lr =>
            have below : Represents s (plug (.left c x r :: up) (.node d ll y lr)) := rep
            exact descend_path (by omega) below
      · rw [if_neg less, goesLeft, decide_eq_false less, if_neg Bool.false_ne_true]
        cases r with
        | nil =>
            refine ⟨_, up, rfl, rfl, ?_, fun isLess => absurd isLess less⟩
            rintro ⟨⟩
        | node d rl y rr =>
            have below : Represents s (plug (.right c l x :: up) (.node d rl y rr)) := rep
            exact descend_path (by omega) below

/-- Something hangs in the empty hole. -/
theorem RepCtx.hang {f : Frame α} {up : Ctx α} (rep : RepCtx s (f :: up) none)
    (distinct : (elements (f :: up)).Nodup) :
    RepCtx (s.set f.parent fun n => n.setChild (holeSide f) (some node)) (f :: up) (some node) := by
  have frame : ∀ {p : α} {sib : ColorTree α}, (p :: sib.inorder ++ elements up).Nodup → ∀ g : RbNode α → RbNode α,
      RepTree s sib (some p) ∧ RepCtx s up (some p) → RepTree (s.set p g) sib (some p) ∧ RepCtx (s.set p g) up (some p) := by
    intro p sib members g ⟨repSib, repUp⟩
    simp only [List.cons_append, List.nodup_cons, List.mem_append, not_or] at members
    refine ⟨repSib.congr fun y inside => ?_, repUp.congr (set_root _ _ _) fun y inside => ?_⟩
    · exact set_nodes_of_ne s g fun same => members.1.1 (same ▸ inside)
    · exact set_nodes_of_ne s g fun same => members.1.2 (same ▸ inside)
  cases f with
  | left c p sib =>
      refine ⟨?_, frame ((elements_left c p sib up).nodup_iff.1 distinct) _ rep.2⟩
      rw [Frame.parent, set_nodes_self, rep.1]
      rfl
  | right c sib p =>
      refine ⟨?_, frame ((elements_right c p sib up).nodup_iff.1 distinct) _ rep.2⟩
      rw [Frame.parent, set_nodes_self, rep.1]
      rfl

/-- A new red leaf in the hole. -/
theorem Represents.hang_leaf {f : Frame α} {up : Ctx α} (rep : Represents s (plug (f :: up) .nil))
    (new : node ∉ (plug (f :: up) .nil).inorder) (blank : s.nodes node = ⟨none, none, some f.parent, .red⟩) :
    Represents (s.set f.parent fun n => n.setChild (holeSide f) (some node))
      (plug (f :: up) (.node .red .nil node .nil)) := by
  obtain ⟨repCtx, -, distinct⟩ := rep_plug.1 rep
  rw [(inorder_plug_perm _ _).mem_iff] at new
  have notParent : node ≠ f.parent := fun same => new (same ▸ parentOf_mem rfl)
  refine rep_plug.2 ⟨repCtx.hang distinct, ⟨?_, trivial, trivial⟩, List.nodup_cons.2 ⟨new, distinct⟩⟩
  rw [set_nodes_of_ne _ _ notParent, blank]
  rfl

/-- **`rb_insert`**: the new node stands between the elements that it is not less than and
those that it is less than, in a red-black tree. -/
theorem rbInsert_spec {fuel : Nat} {t : ColorTree α} (rep : Represents s t) (valid : t.Valid)
    (new : node ∉ t.inorder) (sorted : t.inorder.Pairwise fun x y => comp node x < 0 → comp node y < 0)
    (enough : t.inorder.length < fuel) :
    ∃ s' T low high, rbInsert comp fuel s node = .ok s' ∧ Represents s' T ∧ T.Valid ∧
      t.inorder = low ++ high ∧ T.inorder = low ++ node :: high ∧
      (∀ x ∈ low, ¬ comp node x < 0) ∧ (∀ y ∈ high, comp node y < 0) ∧ Settled node T := by
  have blank : ∀ y ∈ t.inorder, (s.set node fun _ => zeroNode).nodes y = s.nodes y := fun y inside =>
    set_nodes_of_ne s _ fun same => new (same ▸ inside)
  cases t with
  | nil =>
      have empty : s.root = none := rep.root
      refine ⟨_, .node .black .nil node .nil, [], [], by rw [rbInsert, set_root, empty], ⟨rfl, ⟨?_, trivial, trivial⟩, by
        simp [ColorTree.inorder]⟩, ⟨rfl, 1, rfl, rfl⟩, rfl, rfl, fun x inside => absurd inside List.not_mem_nil,
        fun y inside => absurd inside List.not_mem_nil, .inr (.inr rfl)⟩
      show ((s.set node fun _ => zeroNode).setColor node .black).nodes node = _
      rw [RbTree.setColor, set_nodes_self, set_nodes_self]
      rfl
  | node c l x r =>
      have rep₀ : Represents (s.set node fun _ => zeroNode) (plug [] (.node c l x r)) :=
        ⟨rep.root, rep.nodes.congr blank, rep.distinct⟩
      obtain ⟨f, rest, hole, way, side⟩ :
          ∃ f rest, path (goesLeft comp node) [] (.node c l x r) = f :: rest ∧ _ := descend_path enough.le rep₀
      have whole := plug_path (goesLeft comp node) [] (.node c l x r)
      have separates := @path_separates _ (goesLeft comp node) [] (.node c l x r)
        (sorted.imp fun {a b} step => by simpa [goesLeft] using step)
      have fits := valid.path (goesLeft comp node)
      rw [hole, plug_nil] at whole
      rw [hole] at separates fits
      have order : (ColorTree.node c l x r).inorder = before (f :: rest) ++ after (f :: rest) := by
        rw [← whole, inorder_plug]
        simp [ColorTree.inorder]
      -- the node hangs in the hole, and the repair goes on from there
      set s₀ := s.set node fun _ => zeroNode with s₀_def
      set s₁ := s₀.set node fun n => { n with parent := some f.parent } with s₁_def
      set s₂ := s₁.set f.parent fun n => n.setChild (holeSide f) (some node) with s₂_def
      have rep₁ : Represents s₁ (plug (f :: rest) .nil) := by
        rw [whole]
        refine ⟨rep₀.root, rep₀.nodes.congr fun y inside => ?_, rep.distinct⟩
        exact set_nodes_of_ne s₀ _ fun same => new (same ▸ inside)
      have leaf : s₁.nodes node = ⟨none, none, some f.parent, .red⟩ := by
        rw [s₁_def, set_nodes_self, s₀_def, set_nodes_self]
        rfl
      have rep₂ : Represents s₂ (plug (f :: rest) (.node .red .nil node .nil)) :=
        rep₁.hang_leaf (by rwa [whole]) leaf
      have short : (f :: rest).length < fuel := by
        have := length_plug (f :: rest) .nil
        rw [whole] at this
        omega
      obtain ⟨s', T, done, rep', valid', order', settled⟩ :=
        rbInsertFixup_spec short rep₂ rfl rfl ⟨rfl, rfl, rfl, rfl⟩ fits
      refine ⟨s', T, before (f :: rest), after (f :: rest), ?_, rep', valid', order, ?_, fun y inside => ?_,
        fun y inside => ?_, settled node (.inl rfl)⟩
      · have root : s₀.root = some x := rep₀.root
        rw [rbInsert, ← s₀_def, root]
        show (descend comp s₀ node fuel x >>= _) = _
        rw [way, ok_bind, ← done, s₂_def]
        show rbInsertFixup fuel (if comp node f.parent < 0 then _ else _) node = _
        cases f with
        | left c p sib => rw [if_pos (side.1 rfl)]; rfl
        | right c sib p =>
            have notLess : ¬ comp node (Frame.right c sib p).parent < 0 := by
              intro less
              cases side.2 less
            rw [if_neg notLess]
            rfl
      · rw [order', inorder_plug]
        simp [ColorTree.inorder]
      · obtain none | low := separates.1 y inside
        · cases none
        · simpa [goesLeft] using low
      · obtain none | high := separates.2 y inside
        · cases none
        · simpa [goesLeft] using high

end Insert

end Minus.Lib.Rbtree
