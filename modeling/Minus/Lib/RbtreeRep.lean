/-
# Lib.RbtreeRep — the tree in memory

`Represents s t`: the nodes of the tree `t` are distinct, and each of them holds in `s`
the pointers and the colour that `t` gives it.  Seen from a node, this is a
statement about the context and one about the subtree (`rep_plug`), so that an
operation on a few nodes is checked there and the rest is a frame.

For each operation of `lib/rbtree.c` on nodes in place there is one lemma: a
recolouring (`Represents.setColor`), a rotation (`Represents.rotate`), and hanging another node
or nothing in the place of one (`Represents.hang_none`, `Represents.hang_some`).
-/
import Minus.Lib.Rbtree

namespace Minus.Lib.Rbtree

set_option autoImplicit false

open Minus.Theory

universe u

variable {α : Type u}

/-! ## Representation -/

/-- The nodes of `t`, whose root hangs under `parent`. -/
def RepTree (s : RbTree α) : ColorTree α → Option α → Prop
  | .nil, _ => True
  | .node c l x r, parent =>
      s.nodes x = ⟨l.root?, r.root?, parent, c⟩ ∧ RepTree s l (some x) ∧ RepTree s r (some x)

/-- The parent of the hole. -/
def parentOf : Ctx α → Option α
  | [] => none
  | f :: _ => some f.parent

/-- The nodes of a context, with `hole` in the hole. -/
def RepCtx (s : RbTree α) : Ctx α → Option α → Prop
  | [], hole => s.root = hole
  | .left c p sib :: up, hole =>
      s.nodes p = ⟨hole, sib.root?, parentOf up, c⟩ ∧ RepTree s sib (some p) ∧ RepCtx s up (some p)
  | .right c sib p :: up, hole =>
      s.nodes p = ⟨sib.root?, hole, parentOf up, c⟩ ∧ RepTree s sib (some p) ∧ RepCtx s up (some p)

/-- **The memory holds the tree.** -/
structure Represents (s : RbTree α) (t : ColorTree α) : Prop where
  root : s.root = t.root?
  nodes : RepTree s t none
  distinct : t.inorder.Nodup

/-- The elements of a context. -/
def elements (ctx : Ctx α) : List α := before ctx ++ after ctx

theorem inorder_plug_perm (ctx : Ctx α) (t : ColorTree α) :
    (plug ctx t).inorder.Perm (t.inorder ++ elements ctx) := by
  rw [inorder_plug, elements, ← List.append_assoc]
  exact List.perm_append_comm.append_right _

theorem elements_left (c : Color) (p : α) (sib : ColorTree α) (up : Ctx α) :
    (elements (.left c p sib :: up)).Perm (p :: sib.inorder ++ elements up) := by
  simp only [elements, before, after]
  rw [← List.append_assoc, ← List.append_assoc]
  exact List.perm_append_comm.append_right _

theorem elements_right (c : Color) (p : α) (sib : ColorTree α) (up : Ctx α) :
    (elements (.right c sib p :: up)).Perm (p :: sib.inorder ++ elements up) := by
  simp only [elements, before, after]
  rw [← List.append_assoc (p :: sib.inorder)]
  apply List.Perm.append_right
  apply List.perm_append_comm.trans
  apply List.Perm.append_right
  exact List.perm_append_singleton p sib.inorder

theorem root?_mem {t : ColorTree α} {x : α} (root : t.root? = some x) : x ∈ t.inorder := by
  cases t with
  | nil => cases root
  | node c l y r =>
      cases root
      simp [ColorTree.inorder]

theorem parentOf_mem {ctx : Ctx α} {p : α} (parent : parentOf ctx = some p) : p ∈ elements ctx := by
  cases ctx with
  | nil => cases parent
  | cons f up =>
      cases parent
      cases f with
      | left c q sib => exact (elements_left c q sib up).mem_iff.2 (by simp [Frame.parent])
      | right c sib q => exact (elements_right c q sib up).mem_iff.2 (by simp [Frame.parent])

/-! ### Frames -/

section Congr

variable {s s' : RbTree α}

theorem RepTree.congr : ∀ {t : ColorTree α} {parent : Option α},
    (∀ y ∈ t.inorder, s'.nodes y = s.nodes y) → RepTree s t parent → RepTree s' t parent
  | .nil, _, _, _ => trivial
  | .node c l x r, parent, same, rep => by
      simp only [ColorTree.inorder, List.mem_append, List.mem_cons] at same
      exact ⟨(same x (by simp)).trans rep.1, rep.2.1.congr fun y inside => same y (by simp [inside]),
        rep.2.2.congr fun y inside => same y (by simp [inside])⟩

theorem RepCtx.congr : ∀ {ctx : Ctx α} {hole : Option α}, s'.root = s.root →
    (∀ y ∈ elements ctx, s'.nodes y = s.nodes y) → RepCtx s ctx hole → RepCtx s' ctx hole
  | [], _, root, _, rep => root.trans rep
  | .left c p sib :: up, hole, root, same, rep => by
      have same' : ∀ y ∈ p :: sib.inorder ++ elements up, s'.nodes y = s.nodes y := fun y inside =>
        same y ((elements_left c p sib up).mem_iff.2 inside)
      exact ⟨(same' p (by simp)).trans rep.1, rep.2.1.congr fun y inside => same' y (by simp [inside]),
        rep.2.2.congr root fun y inside => same' y (by simp [inside])⟩
  | .right c sib p :: up, hole, root, same, rep => by
      have same' : ∀ y ∈ p :: sib.inorder ++ elements up, s'.nodes y = s.nodes y := fun y inside =>
        same y ((elements_right c p sib up).mem_iff.2 inside)
      exact ⟨(same' p (by simp)).trans rep.1, rep.2.1.congr fun y inside => same' y (by simp [inside]),
        rep.2.2.congr root fun y inside => same' y (by simp [inside])⟩

/-- A subtree under another parent. -/
theorem RepTree.reparent {t : ColorTree α} {parent parent' : Option α} (distinct : t.inorder.Nodup)
    (same : ∀ y ∈ t.inorder, t.root? ≠ some y → s'.nodes y = s.nodes y)
    (moved : ∀ y, t.root? = some y → s'.nodes y = { s.nodes y with parent := parent' })
    (rep : RepTree s t parent) : RepTree s' t parent' := by
  cases t with
  | nil => trivial
  | node c l x r =>
      simp only [ColorTree.inorder, ColorTree.root?, ne_eq, Option.some.injEq] at same moved distinct
      have apart := List.nodup_append.1 distinct
      have notR := List.nodup_cons.1 apart.2.1
      refine ⟨by rw [moved x rfl, rep.1], rep.2.1.congr fun y inside => same y (by simp [inside]) ?_,
        rep.2.2.congr fun y inside => same y (by simp [inside]) ?_⟩
      · rintro rfl
        exact apart.2.2 x inside x (by simp) rfl
      · rintro rfl
        exact notR.1 inside

end Congr

/-- **The whole tree, seen from a node.** -/
theorem repTree_plug {s : RbTree α} : ∀ {ctx : Ctx α} {t : ColorTree α},
    (s.root = (plug ctx t).root? ∧ RepTree s (plug ctx t) none) ↔
      RepCtx s ctx t.root? ∧ RepTree s t (parentOf ctx)
  | [], t => Iff.rfl
  | .left c p sib :: up, t => by
      rw [plug_cons, repTree_plug]
      exact ⟨fun ⟨ctx, node, left, right⟩ => ⟨⟨node, right, ctx⟩, left⟩,
        fun ⟨⟨node, right, ctx⟩, left⟩ => ⟨ctx, node, left, right⟩⟩
  | .right c sib p :: up, t => by
      rw [plug_cons, repTree_plug]
      exact ⟨fun ⟨ctx, node, left, right⟩ => ⟨⟨node, left, ctx⟩, right⟩,
        fun ⟨⟨node, left, ctx⟩, right⟩ => ⟨ctx, node, left, right⟩⟩

theorem rep_plug {s : RbTree α} {ctx : Ctx α} {t : ColorTree α} :
    Represents s (plug ctx t) ↔
      RepCtx s ctx t.root? ∧ RepTree s t (parentOf ctx) ∧ (t.inorder ++ elements ctx).Nodup := by
  rw [← (inorder_plug_perm ctx t).nodup_iff]
  constructor
  · intro rep
    obtain ⟨ctx, tree⟩ := repTree_plug.1 ⟨rep.root, rep.nodes⟩
    exact ⟨ctx, tree, rep.distinct⟩
  · rintro ⟨ctx, tree, distinct⟩
    obtain ⟨root, nodes⟩ := repTree_plug.2 ⟨ctx, tree⟩
    exact ⟨root, nodes, distinct⟩

/-- The node at the root of a subtree. -/
theorem Represents.read {s : RbTree α} {ctx : Ctx α} {c : Color} {l r : ColorTree α} {x : α}
    (rep : Represents s (plug ctx (.node c l x r))) : s.nodes x = ⟨l.root?, r.root?, parentOf ctx, c⟩ :=
  (rep_plug.1 rep).2.1.1

/-- The colour a NULL-safe read finds. -/
theorem Represents.color {s : RbTree α} {ctx : Ctx α} {t : ColorTree α} (rep : Represents s (plug ctx t)) :
    rbColor s t.root? = t.color := by
  cases t with
  | nil => rfl
  | node c l x r =>
      show (s.nodes x).color = c
      rw [rep.read]

/-- Memory holds one tree. -/
theorem RepTree.unique {s : RbTree α} : ∀ {t t' : ColorTree α} {parent parent' : Option α},
    t.root? = t'.root? → RepTree s t parent → RepTree s t' parent' → t = t'
  | .nil, .nil, _, _, _, _, _ => rfl
  | .nil, .node _ _ _ _, _, _, root, _, _ => nomatch root
  | .node _ _ _ _, .nil, _, _, root, _, _ => nomatch root
  | .node c l x r, .node c' l' x' r', _, _, root, rep, rep' => by
      cases root
      obtain ⟨left, right, -, rfl⟩ := RbNode.mk.inj (rep.1.symm.trans rep'.1)
      rw [rep.2.1.unique left rep'.2.1, rep.2.2.unique right rep'.2.2]

theorem Represents.unique {s : RbTree α} {t t' : ColorTree α} (rep : Represents s t) (rep' : Represents s t') : t = t' :=
  rep.nodes.unique (rep.root.symm.trans rep'.root) rep'.nodes

/-! ### Both sides at once -/

/-- A node with one child on `side` and the other opposite. -/
def join (side : Side) (c : Color) (near : ColorTree α) (x : α) (far : ColorTree α) : ColorTree α :=
  match side with
  | .left => .node c near x far
  | .right => .node c far x near

theorem join_perm (side : Side) (c : Color) (near far : ColorTree α) (x : α) :
    (join side c near x far).inorder.Perm (x :: (near.inorder ++ far.inorder)) := by
  cases side with
  | left => exact List.perm_middle
  | right => exact List.perm_middle.trans (List.perm_append_comm.cons x)

theorem join_root? (side : Side) (c : Color) (near far : ColorTree α) (x : α) :
    (join side c near x far).root? = some x := by
  cases side with
  | left => rfl
  | right => rfl

theorem join_assoc_inorder (side : Side) (cx cy dx dy : Color) (a b r : ColorTree α) (x y : α) :
    (join side cx a x (join side cy b y r)).inorder =
      (join side dy (join side dx a x b) y r).inorder := by
  cases side with
  | left => simp [join, ColorTree.inorder]
  | right => simp [join, ColorTree.inorder]

section Child

variable (n : RbNode α) (side : Side) (v : Option α)

@[simp] theorem setChild_child : (n.setChild side v).child side = v := by
  cases side with
  | left => rfl
  | right => rfl

@[simp] theorem setChild_child_other : (n.setChild side v).child side.other = n.child side.other := by
  cases side with
  | left => rfl
  | right => rfl

@[simp] theorem setChild_other_child : (n.setChild side.other v).child side = n.child side := by
  cases side with
  | left => rfl
  | right => rfl

@[simp] theorem setChild_parent : (n.setChild side v).parent = n.parent := by
  cases side with
  | left => rfl
  | right => rfl

@[simp] theorem setChild_color : (n.setChild side v).color = n.color := by
  cases side with
  | left => rfl
  | right => rfl

@[simp] theorem child_parent (p : Option α) : RbNode.child { n with parent := p } side = n.child side := by
  cases side with
  | left => rfl
  | right => rfl

end Child

/-- What the node at a `join` holds. -/
structure Holds (n : RbNode α) (side : Side) (c : Color) (near far parent : Option α) : Prop where
  near : n.child side = near
  far : n.child side.other = far
  parent : n.parent = parent
  color : n.color = c

theorem repTree_join {s : RbTree α} {side : Side} {c : Color} {near far : ColorTree α} {x : α} {parent : Option α} :
    RepTree s (join side c near x far) parent ↔
      Holds (s.nodes x) side c near.root? far.root? parent ∧
        RepTree s near (some x) ∧ RepTree s far (some x) := by
  cases side with
  | left =>
      constructor
      · rintro ⟨node, repL, repR⟩
        rw [node]
        exact ⟨⟨rfl, rfl, rfl, rfl⟩, repL, repR⟩
      · rintro ⟨holds, repL, repR⟩
        exact ⟨RbNode.ext holds.near holds.far holds.parent holds.color, repL, repR⟩
  | right =>
      constructor
      · rintro ⟨node, repL, repR⟩
        rw [node]
        exact ⟨⟨rfl, rfl, rfl, rfl⟩, repR, repL⟩
      · rintro ⟨holds, repL, repR⟩
        exact ⟨RbNode.ext holds.far holds.near holds.parent holds.color, repR, repL⟩

/-! ## Operations in place -/

section Operations

variable [DecidableEq α] {s : RbTree α} {ctx : Ctx α}

@[simp] theorem set_nodes_self (s : RbTree α) (x : α) (f : RbNode α → RbNode α) :
    (s.set x f).nodes x = f (s.nodes x) :=
  Function.update_self _ _ _

theorem set_nodes_of_ne (s : RbTree α) {x y : α} (f : RbNode α → RbNode α) (ne : y ≠ x) :
    (s.set x f).nodes y = s.nodes y :=
  Function.update_of_ne ne _ _

@[simp] theorem set_root (s : RbTree α) (x : α) (f : RbNode α → RbNode α) :
    (s.set x f).root = s.root := rfl

theorem setParent_nodes_of_ne (s : RbTree α) {x : Option α} {y : α} (p : Option α) (ne : x ≠ some y) :
    (s.setParent x p).nodes y = s.nodes y := by
  cases x with
  | none => rfl
  | some x =>
      unfold RbTree.setParent
      exact set_nodes_of_ne s _ fun same => ne (congrArg some same.symm)

theorem setParent_nodes_self (s : RbTree α) (x : α) (p : Option α) :
    (s.setParent (some x) p).nodes x = { s.nodes x with parent := p } := by
  unfold RbTree.setParent
  exact set_nodes_self s x _

theorem setColor_nodes_of_ne (s : RbTree α) {x y : α} (c : Color) (ne : y ≠ x) :
    (s.setColor x c).nodes y = s.nodes y :=
  set_nodes_of_ne s _ ne

@[simp] theorem setParent_root (s : RbTree α) (x p : Option α) : (s.setParent x p).root = s.root := by
  cases x with
  | none => rfl
  | some x => rfl

theorem replaceChild_nodes_of_ne (s : RbTree α) {parent : Option α} {y : α} (old : α)
    (new : Option α) (ne : parent ≠ some y) : (replaceChild s parent old new).nodes y = s.nodes y := by
  cases parent with
  | none => rfl
  | some p =>
      have other : y ≠ p := fun same => ne (congrArg some same.symm)
      unfold replaceChild
      dsimp only
      split
      · exact set_nodes_of_ne s _ other
      · exact set_nodes_of_ne s _ other

/-- Something else hangs in the hole. -/
theorem RepCtx.replace {x : α} (new : Option α) (rep : RepCtx s ctx (some x))
    (distinct : (elements ctx).Nodup) (outside : x ∉ elements ctx) :
    RepCtx (replaceChild s (parentOf ctx) x new) ctx new := by
  cases ctx with
  | nil => rfl
  | cons f up =>
      cases f with
      | left c p sib =>
          have members := (elements_left c p sib up).nodup_iff.1 distinct
          simp only [List.cons_append, List.nodup_cons, List.mem_append, not_or] at members
          have here : (s.nodes p).left = some x := by rw [rep.1]
          simp only [parentOf, Frame.parent, replaceChild, if_pos here]
          refine ⟨by rw [set_nodes_self, rep.1], rep.2.1.congr fun y inside => ?_,
            rep.2.2.congr (set_root _ _ _) fun y inside => ?_⟩
          · exact set_nodes_of_ne s _ fun same => members.1.1 (same ▸ inside)
          · exact set_nodes_of_ne s _ fun same => members.1.2 (same ▸ inside)
      | right c sib p =>
          have members := (elements_right c p sib up).nodup_iff.1 distinct
          simp only [List.cons_append, List.nodup_cons, List.mem_append, not_or] at members
          have notSib : (s.nodes p).left ≠ some x := by
            rw [rep.1]
            intro root
            exact outside ((elements_right c p sib up).mem_iff.2 (by simp [root?_mem root]))
          simp only [parentOf, Frame.parent, replaceChild, if_neg notSib]
          refine ⟨by rw [set_nodes_self, rep.1], rep.2.1.congr fun y inside => ?_,
            rep.2.2.congr (set_root _ _ _) fun y inside => ?_⟩
          · exact set_nodes_of_ne s _ fun same => members.1.1 (same ▸ inside)
          · exact set_nodes_of_ne s _ fun same => members.1.2 (same ▸ inside)

/-- **Recolouring a node.** -/
theorem Represents.setColor {c : Color} {l r : ColorTree α} {x : α} (rep : Represents s (plug ctx (.node c l x r)))
    (c' : Color) : Represents (s.setColor x c') (plug ctx (.node c' l x r)) := by
  obtain ⟨repCtx, ⟨node, repL, repR⟩, distinct⟩ := rep_plug.1 rep
  have members := distinct
  simp only [ColorTree.inorder, List.append_assoc, List.cons_append, List.nodup_append, List.nodup_cons,
    List.mem_append, List.mem_cons, not_or] at members
  have notL : ∀ y ∈ l.inorder, y ≠ x := fun y inside => members.2.2 y inside x (.inl rfl)
  have notR : ∀ y ∈ r.inorder, y ≠ x := fun y inside same => members.2.1.1.1 (same ▸ inside)
  have notCtx : ∀ y ∈ elements ctx, y ≠ x := fun y inside same => members.2.1.1.2 (same ▸ inside)
  refine rep_plug.2 ⟨repCtx.congr (set_root _ _ _) fun y inside =>
      setColor_nodes_of_ne s c' (notCtx y inside),
    ⟨?_, repL.congr fun y inside => setColor_nodes_of_ne s c' (notL y inside),
      repR.congr fun y inside => setColor_nodes_of_ne s c' (notR y inside)⟩, distinct⟩
  rw [RbTree.setColor, set_nodes_self, node]

/-! ### Rotation -/

/-- **A rotation.** -/
theorem Represents.rotate (side : Side) {cx cy : Color} {a b r : ColorTree α} {x y : α}
    (rep : Represents s (plug ctx (join side cx a x (join side cy b y r)))) :
    ∃ s', rbRotate side s x = .ok s' ∧
      Represents s' (plug ctx (join side cy (join side cx a x b) y r)) := by
  obtain ⟨repCtx, repX, distinct⟩ := rep_plug.1 rep
  obtain ⟨holdsX, repA, repY⟩ := repTree_join.1 repX
  obtain ⟨holdsY, repB, repR⟩ := repTree_join.1 repY
  rw [join_root?] at repCtx
  have members : (x :: (a.inorder ++ (y :: (b.inorder ++ r.inorder))) ++ elements ctx).Nodup := by
    apply (List.Perm.append_right _ _).nodup_iff.1 distinct
    exact (join_perm side cx a _ x).trans (((join_perm side cy b r y).append_left _).cons x)
  simp only [List.cons_append, List.append_assoc, List.nodup_cons, List.nodup_append, List.mem_append,
    List.mem_cons, not_or] at members
  obtain ⟨⟨xA, xy, xB, xR, xC⟩, nodupA, ⟨⟨yB, yR, yC⟩, nodupB, ⟨nodupR, nodupC, apartR⟩, apartB⟩,
    apartA⟩ := members
  have yRoot : (s.nodes x).child side.other = some y := holdsX.far.trans (join_root? _ _ _ _ _)
  have notRoot : ∀ z, z ∉ b.inorder → b.root? ≠ some z := fun z outside root => outside (root?_mem root)
  have notParent : ∀ z, z ∉ elements ctx → parentOf ctx ≠ some z := fun z outside parent =>
    outside (parentOf_mem parent)
  -- the states between the assignments
  set s₁ := s.set x fun n => n.setChild side.other b.root? with s₁_def
  set s₂ := s₁.setParent b.root? (some x) with s₂_def
  have x₂ : s₂.nodes x = (s.nodes x).setChild side.other b.root? := by
    rw [s₂_def, setParent_nodes_of_ne _ _ (notRoot x xB), s₁_def, set_nodes_self]
  have parent₂ : (s₂.nodes x).parent = parentOf ctx := by rw [x₂, setChild_parent, holdsX.parent]
  set s₃ := s₂.setParent (some y) (parentOf ctx) with s₃_def
  have x₃ : s₃.nodes x = s₂.nodes x :=
    setParent_nodes_of_ne _ _ fun same => xy (Option.some.inj same).symm
  set s₄ := replaceChild s₃ (parentOf ctx) x (some y) with s₄_def
  set s₅ := s₄.set y fun n => n.setChild side (some x) with s₅_def
  set s₆ := s₅.setParent (some x) (some y) with s₆_def
  have run : rbRotate side s x = .ok s₆ := by
    unfold rbRotate
    rw [yRoot]
    show Except.ok _ = _
    rw [holdsY.near, ← s₁_def, ← s₂_def, parent₂, ← s₃_def, x₃, parent₂]
  have kept : ∀ z, z ≠ x → z ≠ y → s₆.nodes z = s₄.nodes z := by
    intro z notX notY
    rw [s₆_def, setParent_nodes_of_ne _ _ fun same => notX (Option.some.inj same).symm, s₅_def,
      set_nodes_of_ne _ _ notY]
  have before₃ : ∀ z, z ≠ x → z ≠ y → b.root? ≠ some z → s₃.nodes z = s.nodes z := by
    intro z notX notY notB
    rw [s₃_def, setParent_nodes_of_ne _ _ fun same => notY (Option.some.inj same).symm, s₂_def,
      setParent_nodes_of_ne _ _ notB, s₁_def, set_nodes_of_ne _ _ notX]
  have same : ∀ z, z ≠ x → z ≠ y → b.root? ≠ some z → z ∉ elements ctx → s₆.nodes z = s.nodes z := by
    intro z notX notY notB notC
    rw [kept z notX notY, s₄_def, replaceChild_nodes_of_ne _ _ _ (notParent z notC),
      before₃ z notX notY notB]
  have x₆ : s₆.nodes x = { (s.nodes x).setChild side.other b.root? with parent := some y } := by
    rw [s₆_def, setParent_nodes_self, s₅_def, set_nodes_of_ne _ _ xy, s₄_def,
      replaceChild_nodes_of_ne _ _ _ (notParent x xC), x₃, x₂]
  have y₆ : s₆.nodes y = ({ s.nodes y with parent := parentOf ctx } : RbNode α).setChild side (some x) := by
    rw [s₆_def, setParent_nodes_of_ne _ _ fun same => xy (Option.some.inj same), s₅_def,
      set_nodes_self, s₄_def, replaceChild_nodes_of_ne _ _ _ (notParent y yC), s₃_def,
      setParent_nodes_self, s₂_def, setParent_nodes_of_ne _ _ (notRoot y yB), s₁_def,
      set_nodes_of_ne _ _ (Ne.symm xy)]
  refine ⟨s₆, run, rep_plug.2 ⟨?_, repTree_join.2 ⟨?_, repTree_join.2 ⟨?_, ?_, ?_⟩, ?_⟩, ?_⟩⟩
  · rw [join_root?]
    have ctx₃ : RepCtx s₃ ctx (some x) := by
      refine repCtx.congr (by simp [s₃_def, s₂_def, s₁_def]) fun z inside => ?_
      apply before₃
      · exact fun same => xC (same ▸ inside)
      · exact fun same => yC (same ▸ inside)
      · exact notRoot z fun inB => apartB z inB z (.inr inside) rfl
    refine (ctx₃.replace (some y) nodupC xC).congr (by simp [s₆_def, s₅_def, s₄_def]) fun z inside => ?_
    apply kept
    · exact fun same => xC (same ▸ inside)
    · exact fun same => yC (same ▸ inside)
  · rw [y₆, join_root?]
    exact ⟨by simp, by simp [holdsY.far], by simp, by simp [holdsY.color]⟩
  · rw [x₆]
    exact ⟨(child_parent _ _ _).trans ((setChild_other_child _ _ _).trans holdsX.near),
      (child_parent _ _ _).trans (setChild_child _ _ _), rfl,
      (setChild_color _ _ _).trans holdsX.color⟩
  · refine repA.congr fun z inside => ?_
    apply same
    · exact fun eq => xA (eq ▸ inside)
    · exact fun eq => apartA z inside y (.inl rfl) eq
    · exact notRoot z fun inB => apartA z inside z (.inr (.inl inB)) rfl
    · exact fun inC => apartA z inside z (.inr (.inr (.inr inC))) rfl
  · refine repB.reparent nodupB (fun z inside notB => ?_) fun z root => ?_
    · apply same _ _ _ notB
      · exact fun inC => apartB z inside z (.inr inC) rfl
      · exact fun eq => xB (eq ▸ inside)
      · exact fun eq => yB (eq ▸ inside)
    · have inside := root?_mem root
      have notX : z ≠ x := fun eq => xB (eq ▸ inside)
      have notY : z ≠ y := fun eq => yB (eq ▸ inside)
      rw [kept z notX notY, s₄_def, replaceChild_nodes_of_ne _ _ _
        (notParent z fun inC => apartB z inside z (.inr inC) rfl), s₃_def,
        setParent_nodes_of_ne _ _ fun same => notY (Option.some.inj same).symm, s₂_def, root,
        setParent_nodes_self, s₁_def, set_nodes_of_ne _ _ notX]
  · refine repR.congr fun z inside => ?_
    apply same
    · exact fun eq => xR (eq ▸ inside)
    · exact fun eq => yR (eq ▸ inside)
    · exact notRoot z fun inB => apartB z inB z (.inl inside) rfl
    · exact fun inC => apartR z inside z inC rfl
  · rwa [← join_assoc_inorder side cx cy]

/-! ### Substitution -/

/-- **A leaf is taken out.** -/
theorem Represents.hang_none {c : Color} {x : α} (rep : Represents s (plug ctx (.node c .nil x .nil))) :
    Represents (hang s x none) (plug ctx .nil) ∧ (hang s x none).nodes x = zeroNode := by
  obtain ⟨repCtx, -, distinct⟩ := rep_plug.1 rep
  obtain ⟨outside, nodupC⟩ := List.nodup_cons.1 distinct
  have form : hang s x none = (replaceChild s (parentOf ctx) x none).set x fun _ => zeroNode := by
    unfold hang
    rw [rep.read]
    rfl
  rw [form]
  refine ⟨rep_plug.2 ⟨?_, trivial, nodupC⟩, set_nodes_self _ _ _⟩
  refine (repCtx.replace none nodupC outside).congr (set_root _ _ _) fun z inside => ?_
  exact set_nodes_of_ne _ _ fun same => outside (same ▸ inside)

/-- **Another node takes the place of a node.** -/
theorem Represents.hang_some {c : Color} {l r : ColorTree α} {x y : α} (rep : Represents s (plug ctx (.node c l x r)))
    (new : y ∉ (plug ctx (.node c l x r)).inorder) :
    Represents (hang s x (some y)) (plug ctx (.node c l y r)) ∧ (hang s x (some y)).nodes x = zeroNode := by
  obtain ⟨repCtx, ⟨node, repL, repR⟩, distinct⟩ := rep_plug.1 rep
  rw [(inorder_plug_perm ctx _).mem_iff] at new
  have members := distinct
  simp only [ColorTree.inorder, List.append_assoc, List.cons_append, List.nodup_append, List.nodup_cons,
    List.mem_append, List.mem_cons, not_or] at members new
  obtain ⟨nodupL, ⟨⟨xR, xC⟩, nodupR, nodupC, apartR⟩, apartL⟩ := members
  obtain ⟨yL, yx, yR, yC⟩ := new
  have xL : x ∉ l.inorder := fun inside => apartL x inside x (.inl rfl) rfl
  have notRoot : ∀ (t : ColorTree α) (z : α), z ∉ t.inorder → t.root? ≠ some z := fun t z outside root =>
    outside (root?_mem root)
  have notParent : ∀ z, z ∉ elements ctx → parentOf ctx ≠ some z := fun z outside parent =>
    outside (parentOf_mem parent)
  set s₁ := s.set y fun _ => ⟨l.root?, r.root?, parentOf ctx, c⟩ with s₁_def
  set s₂ := s₁.setParent l.root? (some y) with s₂_def
  set s₃ := s₂.setParent r.root? (some y) with s₃_def
  set s₄ := replaceChild s₃ (parentOf ctx) x (some y) with s₄_def
  have form : hang s x (some y) = s₄.set x fun _ => zeroNode := by
    unfold hang
    rw [node]
  rw [form]
  have kept : ∀ z, z ≠ x → z ∉ elements ctx → (s₄.set x fun _ => zeroNode).nodes z = s₃.nodes z := by
    intro z notX notC
    rw [set_nodes_of_ne _ _ notX, s₄_def, replaceChild_nodes_of_ne _ _ _ (notParent z notC)]
  have before₃ : ∀ z, z ≠ y → l.root? ≠ some z → r.root? ≠ some z → s₃.nodes z = s.nodes z := by
    intro z notY notL notR
    rw [s₃_def, setParent_nodes_of_ne _ _ notR, s₂_def, setParent_nodes_of_ne _ _ notL, s₁_def,
      set_nodes_of_ne _ _ notY]
  have y₃ : s₃.nodes y = ⟨l.root?, r.root?, parentOf ctx, c⟩ := by
    rw [s₃_def, setParent_nodes_of_ne _ _ (notRoot r y yR), s₂_def,
      setParent_nodes_of_ne _ _ (notRoot l y yL), s₁_def, set_nodes_self]
  refine ⟨rep_plug.2 ⟨?_, ⟨?_, ?_, ?_⟩, ?_⟩, set_nodes_self _ _ _⟩
  · have ctx₃ : RepCtx s₃ ctx (some x) := by
      refine repCtx.congr (by simp [s₃_def, s₂_def, s₁_def]) fun z inside => ?_
      apply before₃
      · exact fun same => yC (same ▸ inside)
      · exact notRoot l z fun inL => apartL z inL z (.inr (.inr inside)) rfl
      · exact notRoot r z fun inR => apartR z inR z inside rfl
    refine (ctx₃.replace (some y) nodupC xC).congr (set_root _ _ _) fun z inside => ?_
    exact set_nodes_of_ne _ _ fun same => xC (same ▸ inside)
  · rw [kept y yx yC, y₃]
  · refine repL.reparent nodupL (fun z inside notRootL => ?_) fun z root => ?_
    · rw [kept z (fun same => xL (same ▸ inside)) fun inC => apartL z inside z (.inr (.inr inC)) rfl]
      apply before₃ z (fun same => yL (same ▸ inside)) notRootL
      exact notRoot r z fun inR => apartL z inside z (.inr (.inl inR)) rfl
    · have inside := root?_mem root
      have notY : z ≠ y := fun same => yL (same ▸ inside)
      rw [kept z (fun same => xL (same ▸ inside)) fun inC => apartL z inside z (.inr (.inr inC)) rfl,
        s₃_def, setParent_nodes_of_ne _ _
          (notRoot r z fun inR => apartL z inside z (.inr (.inl inR)) rfl), s₂_def, root,
        setParent_nodes_self, s₁_def, set_nodes_of_ne _ _ notY]
  · refine repR.reparent nodupR (fun z inside notRootR => ?_) fun z root => ?_
    · rw [kept z (fun same => xR (same ▸ inside)) fun inC => apartR z inside z inC rfl]
      apply before₃ z (fun same => yR (same ▸ inside)) _ notRootR
      exact notRoot l z fun inL => apartL z inL z (.inr (.inl inside)) rfl
    · have inside := root?_mem root
      have notY : z ≠ y := fun same => yR (same ▸ inside)
      rw [kept z (fun same => xR (same ▸ inside)) fun inC => apartR z inside z inC rfl, s₃_def, root,
        setParent_nodes_self, s₂_def, setParent_nodes_of_ne _ _
          (notRoot l z fun inL => apartL z inL z (.inr (.inl inside)) rfl), s₁_def,
        set_nodes_of_ne _ _ notY]
  · simp only [ColorTree.inorder, List.append_assoc, List.cons_append, List.nodup_append, List.nodup_cons,
      List.mem_append, List.mem_cons, not_or]
    refine ⟨nodupL, ⟨⟨yR, yC⟩, nodupR, nodupC, apartR⟩, fun z inL w inRest => ?_⟩
    obtain rfl | rest := inRest
    · exact fun same => yL (same ▸ inL)
    · exact apartL z inL w (.inr rest)

/-- A leaf is cut off its parent. -/
theorem Represents.makeOrphan {side : Side} {c d : Color} {x y : α}
    (rep : Represents s (plug ctx (join side c (.node d .nil y .nil) x .nil))) :
    Represents (rbMakeOrphan s (some y)) (plug ctx (.node c .nil x .nil)) := by
  obtain ⟨repCtx, repX, distinct⟩ := rep_plug.1 rep
  obtain ⟨holdsX, repY, -⟩ := repTree_join.1 repX
  rw [join_root?] at repCtx
  have members : (x :: y :: elements ctx).Nodup :=
    ((join_perm side c (.node d .nil y .nil) .nil x).append_right (elements ctx)).nodup_iff.1 distinct
  obtain ⟨xRest, members⟩ := List.nodup_cons.1 members
  obtain ⟨yC, nodupC⟩ := List.nodup_cons.1 members
  rw [List.mem_cons, not_or] at xRest
  have yNode : s.nodes y = ⟨none, none, some x, d⟩ := repY.1
  -- the child pointer of `x` on this side, and then `y` itself
  have form : ∃ n : RbNode α, rbMakeOrphan s (some y) =
      (s.set x fun _ => n).set y (fun _ => zeroNode) ∧ n = ⟨none, none, parentOf ctx, c⟩ := by
    unfold rbMakeOrphan
    dsimp only
    rw [yNode]
    dsimp only
    cases side with
    | left =>
        have xNode : s.nodes x = ⟨some y, none, parentOf ctx, c⟩ := repX.1
        rw [if_pos (by rw [xNode])]
        exact ⟨_, rfl, by rw [xNode]⟩
    | right =>
        have xNode : s.nodes x = ⟨none, some y, parentOf ctx, c⟩ := repX.1
        rw [if_neg (by rw [xNode]; simp)]
        exact ⟨_, rfl, by rw [xNode]⟩
  obtain ⟨n, form, rfl⟩ := form
  rw [form]
  refine rep_plug.2 ⟨?_, ⟨?_, trivial, trivial⟩, List.nodup_cons.2 ⟨xRest.2, nodupC⟩⟩
  · refine repCtx.congr ((set_root _ _ _).trans (set_root _ _ _)) fun z inside => ?_
    have notX : z ≠ x := fun same => xRest.2 (same ▸ inside)
    have notY : z ≠ y := fun same => yC (same ▸ inside)
    rw [set_nodes_of_ne _ _ notY, set_nodes_of_ne _ _ notX]
  · rw [set_nodes_of_ne _ _ xRest.1, set_nodes_self]
    rfl

end Operations

end Minus.Lib.Rbtree
