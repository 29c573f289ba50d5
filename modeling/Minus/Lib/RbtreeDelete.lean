/-
# Lib.RbtreeDelete — rb_delete on red-black trees

`rb_delete` unlinks the node, or its successor if it has two children, and then
lets the successor take the place of the node.  With the loop of the fix-up
(`Lib.RbtreeLoop`) and the representation lemmas for unlinking this gives its
exact behaviour: on a red-black tree it deletes the node and leaves a red-black
tree exactly if the fix-up it needs is safe.
-/
import Minus.Lib.RbtreeLoop

namespace Minus.Lib.Rbtree

set_option autoImplicit false

open Minus.Theory

universe u

variable {α : Type u}

/-! ## Unlinking -/

section Unlink

variable {c : Color} {l r : ColorTree α} {x : α} {ctx : Ctx α}

/-- Painting the root of the whole leaves a subtree in place. -/
theorem blacken_plug : ∀ (ctx : Ctx α) (c : Color) (l : ColorTree α) (x : α) (r : ColorTree α),
    ∃ ctx' c', (plug ctx (.node c l x r)).blacken = plug ctx' (.node c' l x r)
  | [], c, l, x, r => ⟨[], .black, rfl⟩
  | .left d p sib :: up, c, l, x, r => by
      obtain ⟨ctx', c', eq⟩ := blacken_plug up d (.node c l x r) p sib
      exact ⟨.left c' p sib :: ctx', c, eq⟩
  | .right d sib p :: up, c, l, x, r => by
      obtain ⟨ctx', c', eq⟩ := blacken_plug up d sib p (.node c l x r)
      exact ⟨.right c' sib p :: ctx', c, eq⟩

/-- The fix-up leaves the subtree of its node in place. -/
theorem fixup_keeps : ∀ {ctx : Ctx α} {c : Color} {l : ColorTree α} {x : α} {r T : ColorTree α},
    fixup (.node c l x r) ctx = some T → ∃ ctx' c', T = plug ctx' (.node c' l x r)
  | [], c, l, x, r, T, done => by
      cases done
      exact ⟨[], .black, rfl⟩
  | f :: up, c, l, x, r, T, done => by
      unfold fixup at done
      split at done
      · cases done
        exact ⟨f :: up, .black, rfl⟩
      · split at done
        · rename_i f' g raised
          split at done
          · rename_i f'' settled
            cases done
            cases f'' with
            | left d p sib => exact ⟨.left .black p sib :: g :: up, c, rfl⟩
            | right d sib p => exact ⟨.right .black sib p :: g :: up, c, rfl⟩
          · cases done
            exact blacken_plug _ _ _ _ _
          · cases done
        · split at done
          · rename_i f' settled
            cases f' with
            | left d p sib =>
                obtain ⟨ctx', c', rfl⟩ := fixup_keeps done
                exact ⟨.left c' p sib :: ctx', c, rfl⟩
            | right d sib p =>
                obtain ⟨ctx', c', rfl⟩ := fixup_keeps done
                exact ⟨.right c' sib p :: ctx', c, rfl⟩
          · cases done
            exact blacken_plug _ _ _ _ _
          · cases done

/-- The fix-up is needed for a black leaf only. -/
def UnlinkSafe (ctx : Ctx α) (c : Color) (l r : ColorTree α) : Prop :=
  l = .nil → r = .nil → c = .black → FixupSafe ctx

/-- How unlinking `x` from `t` may end: with the right elements always, and with a
red-black tree exactly if `safe`. -/
def Unlinked [DecidableEq α] (t : ColorTree α) (x : α) (safe : Prop) (result : Except Stop (RbTree α)) :
    Prop :=
  (result = .error .null ∧ ¬ safe) ∨
    ∃ s' T, result = .ok s' ∧ Represents s' T ∧ (T.Valid ↔ safe) ∧ T.inorder = t.inorder.erase x ∧
      s'.nodes x = zeroNode

/-- A node of a red-black tree with one child has a red leaf there. -/
theorem red_leaf_of_nil {t : ColorTree α} (rb : t.RB 0) : t = .nil ∨ ∃ y, t = .node .red .nil y .nil := by
  cases t with
  | nil => exact .inl rfl
  | node c l y r =>
      cases c with
      | red =>
          obtain ⟨blackL, blackR, rbL, rbR⟩ := rb
          rw [rbL.eq_nil blackL, rbR.eq_nil blackR]
          exact .inr ⟨y, rfl⟩
      | black => exact rb.elim

variable [DecidableEq α] {s : RbTree α}

theorem erase_middle {A B : List α} (distinct : (A ++ x :: B).Nodup) :
    (A ++ x :: B).erase x = A ++ B := by
  have outside : x ∉ A := fun inside => (List.nodup_append.1 distinct).2.2 x inside x (by simp) rfl
  rw [List.erase_append_right _ outside, List.erase_cons_head]

theorem inorder_erase (distinct : (plug ctx (.node c l x r)).inorder.Nodup) :
    (plug ctx (.node c l x r)).inorder.erase x =
      before ctx ++ l.inorder ++ (r.inorder ++ after ctx) := by
  have form : (plug ctx (.node c l x r)).inorder =
      before ctx ++ l.inorder ++ x :: (r.inorder ++ after ctx) := by
    simp [inorder_plug, ColorTree.inorder]
  rw [form] at distinct ⊢
  exact erase_middle distinct

/-- A leaf is unlinked. -/
theorem unlink_leaf {t : ColorTree α} {safe : Prop} (rep : Represents s (plug ctx (.node c .nil x .nil)))
    (same : (plug ctx (.node c .nil x .nil)).inorder = t.inorder)
    (valid : (plug ctx .nil).Valid ↔ safe) : Unlinked t x safe (.ok (rbSubstitue s x none)) := by
  obtain ⟨rep', zero⟩ := rep.hang_none
  refine .inr ⟨_, _, rfl, rep', valid, ?_, zero⟩
  rw [← same, inorder_erase rep.distinct, inorder_plug]
  rfl

/-- A node with one child, a leaf, is replaced by it. -/
theorem unlink_child {side : Side} {d : Color} {y : α} {safe : Prop}
    (rep : Represents s (plug ctx (join side c (.node d .nil y .nil) x .nil)))
    (valid : (plug ctx (.node c .nil y .nil)).Valid ↔ safe) :
    Unlinked (plug ctx (join side c (.node d .nil y .nil) x .nil)) x safe
      (.ok (rbSubstitue s x (some y))) := by
  have orphan := rep.makeOrphan
  have new : y ∉ (plug ctx (.node c .nil x .nil)).inorder := by
    have distinct := rep.distinct
    rw [(inorder_plug_perm ctx _).nodup_iff,
      ((join_perm side c (.node d .nil y .nil) .nil x).append_right _).nodup_iff] at distinct
    rw [(inorder_plug_perm ctx _).mem_iff]
    simp only [ColorTree.inorder, List.nil_append, List.append_nil, List.cons_append, List.nodup_cons,
      List.mem_cons, not_or] at distinct ⊢
    exact ⟨fun same => distinct.1.1 same.symm, distinct.2.1⟩
  obtain ⟨rep', zero⟩ := orphan.hang_some new
  refine .inr ⟨_, _, rfl, rep', valid, ?_, zero⟩
  cases side with
  | left =>
      rw [show join .left c (.node d .nil y .nil) x .nil = .node c (.node d .nil y .nil) x .nil from rfl,
        inorder_erase rep.distinct, inorder_plug]
      simp [ColorTree.inorder]
  | right =>
      rw [show join .right c (.node d .nil y .nil) x .nil = .node c .nil x (.node d .nil y .nil) from rfl,
        inorder_erase rep.distinct, inorder_plug]
      simp [ColorTree.inorder]

/-- **A black leaf is unlinked after the fix-up.** -/
theorem unlink_black_leaf (rep : Represents s (plug ctx (.node .black .nil x .nil)))
    (valid : (plug ctx (.node .black .nil x .nil)).Valid) (fuel : Nat) :
    (rbDeleteFixup fuel s x = .error .fuel ∧ fuel < ctx.length + 2) ∨
      Unlinked (plug ctx (.node .black .nil x .nil)) x (FixupSafe ctx)
        (rbDeleteFixup fuel s x >>= fun s => .ok (rbSubstitue s x none)) := by
  have outside : x ∉ before ctx ++ after ctx := (List.nodup_cons.1 (rep_plug.1 rep).2.2).1
  have fits : Fits ctx (0 + 1) := by
    obtain ⟨h, rb, fits, -⟩ := valid_plug.1 valid
    cases h with
    | zero => exact rb.elim
    | succ h =>
        cases rb.1
        exact fits
  have gone : (ColorTree.node .black .nil x .nil).prune x = .nil := if_pos rfl
  have pruned := fixup_prune (t := .node .black .nil x .nil) outside (by rw [gone]; rfl)
  have safe := fixup_valid_iff (t := (.nil : ColorTree α)) (h := 0) rfl rfl fits
  rw [gone] at pruned
  refine (rbDeleteFixup_sim fuel rep rfl).imp_right fun follows => ?_
  cases done : fixup (.node .black .nil x .nil) ctx with
  | none =>
      rw [done] at follows pruned
      refine .inl ⟨by rw [show rbDeleteFixup fuel s x = _ from follows]; rfl, fun ok => ?_⟩
      obtain ⟨T, some, -⟩ := safe.2 ok
      rw [pruned] at some
      cases some
  | some T =>
      rw [done] at follows pruned
      obtain ⟨s', run, rep'⟩ := follows
      obtain ⟨ctx', c', rfl⟩ := fixup_keeps done
      rw [run, ok_bind]
      apply unlink_leaf rep' (fixup_inorder done)
      have outside' : x ∉ before ctx' ++ after ctx' := (List.nodup_cons.1 (rep_plug.1 rep').2.2).1
      rw [Option.map_some, prune_plug_of_outside outside', ColorTree.prune, if_pos rfl] at pruned
      rw [← safe]
      constructor
      · intro valid'
        exact ⟨_, pruned, valid'⟩
      · rintro ⟨T, isT, valid'⟩
        rw [pruned] at isT
        cases isT
        exact valid'

omit [DecidableEq α] in
/-- A node with one child at most is a leaf, or black with a red leaf. -/
theorem one_child_cases {h : Nat} (rb : (ColorTree.node c l x r).RB h) (one : l = .nil ∨ r = .nil) :
    (l = .nil ∧ r = .nil) ∨ c = .black ∧ h = 1 ∧
      ∃ (side : Side) (y : α), ColorTree.node c l x r = join side c (.node .red .nil y .nil) x .nil := by
  cases c with
  | red =>
      obtain ⟨blackL, blackR, rbL, rbR⟩ := rb
      left
      obtain rfl | rfl := one
      · cases rbL
        exact ⟨rfl, rbR.eq_nil blackR⟩
      · cases rbR
        exact ⟨rbL.eq_nil blackL, rfl⟩
  | black =>
      cases h with
      | zero => exact rb.elim
      | succ h =>
          obtain rfl | rfl := one
          · cases rb.1
            obtain rfl | ⟨y, rfl⟩ := red_leaf_of_nil rb.2
            · exact .inl ⟨rfl, rfl⟩
            · exact .inr ⟨rfl, rfl, .right, y, rfl⟩
          · cases rb.2
            obtain rfl | ⟨y, rfl⟩ := red_leaf_of_nil rb.1
            · exact .inl ⟨rfl, rfl⟩
            · exact .inr ⟨rfl, rfl, .left, y, rfl⟩

/-- **The node that leaves the tree**: it has one child at most. -/
theorem unlinkSub_spec (rep : Represents s (plug ctx (.node c l x r)))
    (valid : (plug ctx (.node c l x r)).Valid) (one : l = .nil ∨ r = .nil) (fuel : Nat) :
    (unlinkSub fuel s x = .error .fuel ∧ fuel < ctx.length + 2) ∨
      Unlinked (plug ctx (.node c l x r)) x (UnlinkSafe ctx c l r) (unlinkSub fuel s x) := by
  obtain ⟨h, rb, fits, redOk⟩ := valid_plug.1 valid
  have node := rep.read
  obtain ⟨rfl, rfl⟩ | ⟨rfl, rfl, side, y, form⟩ := one_child_cases rb one
  · cases c with
    | red =>
        right
        have run : unlinkSub fuel s x = .ok (rbSubstitue s x none) := by
          unfold unlinkSub
          rw [show rbColor s (some x) = .red from rep.color, node]
          rfl
        rw [run]
        apply unlink_leaf rep rfl
        refine ⟨fun _ _ _ black => (nomatch black), fun _ => ?_⟩
        exact valid_plug.2 ⟨h, rb.2.2.1, fits, fun red => nomatch red⟩
    | black =>
        have run : unlinkSub fuel s x = rbDeleteFixup fuel s x >>= fun s => .ok (rbSubstitue s x none) := by
          unfold unlinkSub
          rw [show rbColor s (some x) = .black from rep.color, node]
          rfl
        rw [run]
        have safe : UnlinkSafe ctx .black .nil .nil ↔ FixupSafe ctx :=
          ⟨fun safe => safe rfl rfl rfl, fun safe _ _ _ => safe⟩
        rw [Unlinked, safe]
        refine (unlink_black_leaf rep valid fuel).imp_left ?_
        rintro ⟨out, short⟩
        exact ⟨by rw [out]; rfl, short⟩
  · right
    have leafValid : (plug ctx (.node .black .nil y .nil)).Valid :=
      valid_plug.2 ⟨1, ⟨rfl, rfl⟩, fits, fun red => nomatch red⟩
    have safe : UnlinkSafe ctx .black l r := by
      rintro rfl rfl
      cases side with
      | left => cases form
      | right => cases form
    have run : unlinkSub fuel s x = .ok (rbSubstitue s x (some y)) := by
      unfold unlinkSub
      rw [node]
      cases side with
      | left =>
          cases form
          rfl
      | right =>
          cases form
          rfl
    rw [run]
    rw [form] at rep ⊢
    exact unlink_child rep (iff_of_true leafValid safe)

end Unlink

/-! ## rb_delete -/

/-- The place of the leftmost node of a subtree: its context, colour, name and right
child. -/
def minPlace : ColorTree α → Ctx α → Option (Ctx α × Color × α × ColorTree α)
  | .nil, _ => none
  | .node c .nil x r, ctx => some (ctx, c, x, r)
  | .node c (.node d ll y lr) x r, ctx => minPlace (.node d ll y lr) (.left c x r :: ctx)

/-- The node that leaves the tree is the node itself, if it has one child at most, or
else its successor; unlinking it must be safe. -/
def DeleteSafe (ctx : Ctx α) (c : Color) (l : ColorTree α) (x : α) (r : ColorTree α) : Prop :=
  (l = .nil ∨ r = .nil → UnlinkSafe ctx c l r) ∧
  (l ≠ .nil → r ≠ .nil → ∀ ctx' c' y r',
    minPlace r (.right c l x :: ctx) = some (ctx', c', y, r') → UnlinkSafe ctx' c' .nil r')

/-- The place of `x` in a subtree: its context, colour and children. -/
def place? [DecidableEq α] (x : α) : ColorTree α → Ctx α → Option (Ctx α × Color × ColorTree α × ColorTree α)
  | .nil, _ => none
  | .node c l y r, ctx =>
      if y = x then some (ctx, c, l, r)
      else (place? x l (.left c y r :: ctx)).or (place? x r (.right c l y :: ctx))

/-- Deleting `x` from `t` is safe. -/
def SafeToDelete [DecidableEq α] (t : ColorTree α) (x : α) : Prop :=
  ∀ ctx c l r, place? x t [] = some (ctx, c, l, r) → DeleteSafe ctx c l x r

/-- A red-black tree in memory, in the order of `comp`. -/
structure RbInv (comp : α → α → Int) (s : RbTree α) (t : ColorTree α) : Prop where
  rep : Represents s t
  valid : t.Valid
  ordered : t.inorder.Pairwise fun a b => comp a b ≤ 0

section Delete

variable {s : RbTree α} {c : Color} {l r : ColorTree α} {x : α} {ctx : Ctx α}

/-- The loop of `rb_successor` finds the leftmost node. -/
theorem leftmost_spec : ∀ {t : ColorTree α} {ctx : Ctx α} {z : α}, Represents s (plug ctx t) →
    t.root? = some z → ∃ ctx' c y r, minPlace t ctx = some (ctx', c, y, r) ∧
      plug ctx t = plug ctx' (.node c .nil y r) ∧ (∃ rest, t.inorder = y :: rest) ∧
      ∀ fuel, (leftmost s fuel z = .error .fuel ∧ fuel < t.inorder.length) ∨ leftmost s fuel z = .ok y
  | .node c .nil x r, ctx, z, rep, root => by
      cases root
      refine ⟨ctx, c, x, r, rfl, rfl, ⟨r.inorder, rfl⟩, fun fuel => ?_⟩
      cases fuel with
      | zero => exact .inl ⟨rfl, by simp [ColorTree.inorder]⟩
      | succ fuel =>
          right
          rw [leftmost, rep.read]
          rfl
  | .node c (.node d ll y lr) x r, ctx, z, rep, root => by
      cases root
      have below : Represents s (plug (.left c x r :: ctx) (.node d ll y lr)) := rep
      obtain ⟨ctx', c', y', r', place, same, ⟨rest, first⟩, run⟩ := leftmost_spec below rfl
      refine ⟨ctx', c', y', r', place, same, ⟨rest ++ x :: r.inorder, ?_⟩, fun fuel => ?_⟩
      · rw [ColorTree.inorder, first]
        rfl
      · cases fuel with
        | zero => exact .inl ⟨rfl, by rw [ColorTree.inorder]; rw [List.length_append, List.length_cons]; omega⟩
        | succ fuel =>
            have next : leftmost s (fuel + 1) x = leftmost s fuel y := by
              rw [leftmost, rep.read]
              rfl
            rw [next]
            refine (run fuel).imp_left ?_
            rintro ⟨out, short⟩
            refine ⟨out, ?_⟩
            rw [show (ColorTree.node c (.node d ll y lr) x r).inorder =
              (ColorTree.node d ll y lr).inorder ++ x :: r.inorder from rfl]
            simp only [List.length_append, List.length_cons]
            omega

theorem valid_rename (ctx : Ctx α) (c : Color) (l r : ColorTree α) (x y : α) :
    (plug ctx (.node c l x r)).Valid ↔ (plug ctx (.node c l y r)).Valid := by
  have same : ∀ h, (ColorTree.node c l x r).RB h ↔ (ColorTree.node c l y r).RB h := by
    intro h
    cases c with
    | red => exact Iff.rfl
    | black =>
        cases h with
        | zero => exact Iff.rfl
        | succ h => exact Iff.rfl
  simp only [valid_plug, same, ColorTree.color_node]

variable [DecidableEq α]

/-- **The successor takes the place of the node.** -/
theorem substitue_successor {t : ColorTree α} {y : α} {A B : List α} {safe : Prop} {s' : RbTree α}
    {T : ColorTree α} (distinct : t.inorder.Nodup) (order : t.inorder = A ++ x :: y :: B) (rep : Represents s' T)
    (valid : T.Valid ↔ safe) (inorder : T.inorder = t.inorder.erase y)
    (zero : s'.nodes y = zeroNode) : Unlinked t x safe (.ok (rbSubstitue s' x (some y))) := by
  rw [order] at distinct
  have split : A ++ x :: y :: B = (A ++ [x]) ++ y :: B := by simp
  have elements : T.inorder = A ++ x :: B := by
    rw [split] at distinct
    rw [inorder, order, split, erase_middle distinct]
    simp
  have yOut : y ∉ T.inorder := by
    rw [inorder]
    exact (order ▸ distinct : t.inorder.Nodup).not_mem_erase
  obtain ⟨ctx, c, l, r, rfl⟩ := exists_plug (x := x) (t := T) (by rw [elements]; simp)
  have noParent : rbMakeOrphan s' (some y) = s' := by
    unfold rbMakeOrphan
    dsimp only
    rw [zero]
    rfl
  obtain ⟨rep', zero'⟩ := rep.hang_some yOut
  refine .inr ⟨_, _, rfl, by rw [rbSubstitue, noParent]; exact rep', ?_, ?_, ?_⟩
  · rw [← valid_rename, valid]
  · have form : ∀ w, (plug ctx (.node c l w r)).inorder =
        before ctx ++ l.inorder ++ w :: (r.inorder ++ after ctx) := fun w => by
      simp [inorder_plug, ColorTree.inorder]
    have distinctT := rep.distinct
    rw [form] at elements distinctT
    obtain ⟨-, tail, apart⟩ := List.nodup_append.1 distinctT
    have notBefore : x ∉ before ctx ++ l.inorder := fun inside => apart x inside x (by simp) rfl
    obtain ⟨rfl, -, rfl⟩ :=
      (List.append_cons_inj_of_notMem notBefore (List.nodup_cons.1 tail).1).1 elements
    rw [form, order, erase_middle distinct]
  · rw [rbSubstitue, noParent]
    exact zero'

/-- **What `rb_delete` does**, for any amount of fuel. -/
theorem rbDelete_spec (rep : Represents s (plug ctx (.node c l x r)))
    (valid : (plug ctx (.node c l x r)).Valid) : ∃ bound ≤ (plug ctx (.node c l x r)).inorder.length + 1, ∀ fuel,
    (rbDelete fuel s x = .error .fuel ∧ fuel < bound) ∨
      Unlinked (plug ctx (.node c l x r)) x (DeleteSafe ctx c l x r) (rbDelete fuel s x) := by
  have node := rep.read
  by_cases one : l = .nil ∨ r = .nil
  · refine ⟨ctx.length + 2, ?_, fun fuel => ?_⟩
    · have := length_plug ctx (.node c l x r)
      simp only [ColorTree.inorder, List.length_append, List.length_cons] at this
      omega
    have safe : DeleteSafe ctx c l x r ↔ UnlinkSafe ctx c l r := by
      refine ⟨fun safe => safe.1 one, fun safe => ⟨fun _ => safe, fun left right => ?_⟩⟩
      exact (one.elim left right).elim
    have missing : (s.nodes x).left = none ∨ (s.nodes x).right = none := by
      rw [node]
      obtain rfl | rfl := one
      · exact .inl rfl
      · exact .inr rfl
    have run : rbDelete fuel s x = unlinkSub fuel s x := by
      unfold rbDelete
      rw [if_pos missing]
      show (unlinkSub fuel s x >>= fun s => if x ≠ x then _ else Except.ok s) = _
      cases unlinkSub fuel s x with
      | ok s' => exact if_neg fun differs => differs rfl
      | error e => rfl
    rw [run, Unlinked, safe]
    exact unlinkSub_spec rep valid one fuel
  · rw [not_or] at one
    obtain ⟨z, root⟩ : ∃ z, r.root? = some z := by
      cases r with
      | nil => exact (one.2 rfl).elim
      | node c' l' z r' => exact ⟨z, rfl⟩
    have present : ¬ ((s.nodes x).left = none ∨ (s.nodes x).right = none) := by
      rw [node]
      rintro (left | right)
      · cases l with
        | nil => exact one.1 rfl
        | node => cases left
      · rw [show r.root? = none from right] at root
        cases root
    have atR : Represents s (plug (.right c l x :: ctx) r) := rep
    obtain ⟨ctx', c', y, r', place, same, ⟨rest, first⟩, found⟩ := leftmost_spec atR root
    have whole : plug ctx (.node c l x r) = plug ctx' (.node c' .nil y r') := same
    have safe : DeleteSafe ctx c l x r ↔ UnlinkSafe ctx' c' .nil r' := by
      refine ⟨fun safe => safe.2 one.1 one.2 _ _ _ _ place, fun safe => ⟨fun none => ?_, ?_⟩⟩
      · exact (none.elim one.1 one.2).elim
      · intro _ _ ctx'' c'' y'' r'' place'
        rw [place] at place'
        cases place'
        exact safe
    have order : (plug ctx (.node c l x r)).inorder =
        (before ctx ++ l.inorder) ++ x :: y :: (rest ++ after ctx) := by
      rw [inorder_plug, ColorTree.inorder, first]
      simp
    have differs : y ≠ x := by
      have distinct := rep.distinct
      rw [order] at distinct
      have tail := (List.nodup_append.1 distinct).2.1
      intro eq
      exact (List.nodup_cons.1 tail).1 (by simp [eq])
    refine ⟨max r.inorder.length (ctx'.length + 2), ?_, fun fuel => ?_⟩
    · have here := length_plug ctx (.node c l x r)
      have there := length_plug ctx' (.node c' .nil y r')
      rw [← whole] at there
      simp only [ColorTree.inorder, List.length_append, List.length_cons] at here there
      omega
    have start : rbDelete fuel s x = leftmost s fuel z >>= fun sub => unlinkSub fuel s sub >>= fun s' =>
        if sub ≠ x then .ok (rbSubstitue s' x (some sub)) else .ok s' := by
      unfold rbDelete rbSuccessor
      rw [if_neg present, node, root]
      rfl
    rw [start, propext safe]
    obtain ⟨out, short⟩ | sub := found fuel
    · left
      rw [out]
      exact ⟨rfl, by omega⟩
    rw [sub, ok_bind]
    obtain ⟨out, short⟩ | ⟨crash, notSafe⟩ | ⟨s', T, run, rep', valid', inorder', zero⟩ :=
      unlinkSub_spec (whole ▸ rep) (whole ▸ valid) (.inl rfl) fuel
    · left
      rw [out]
      exact ⟨rfl, by omega⟩
    · right
      left
      rw [crash]
      exact ⟨rfl, notSafe⟩
    · right
      rw [run, ok_bind, if_pos differs]
      exact substitue_successor rep.distinct order rep' valid' (whole ▸ inorder') zero

/-- `rb_delete` of `x` from `t` returns, with a red-black tree of the other elements in
their order and `x` zeroed. -/
def Deletes (comp : α → α → Int) (s : RbTree α) (t : ColorTree α) (x : α) : Prop :=
  ∃ fuel s' t', rbDelete fuel s x = .ok s' ∧ RbInv comp s' t' ∧ t'.inorder = t.inorder.erase x ∧
    s'.nodes x = zeroNode

theorem place?_plug : ∀ {t l r : ColorTree α} {ctx ctx' : Ctx α} {c : Color},
    place? x t ctx = some (ctx', c, l, r) → plug ctx t = plug ctx' (.node c l x r)
  | .node d tl y tr, l, r, ctx, ctx', c, found => by
      unfold place? at found
      split at found
      · rename_i here
        cases found
        rw [here]
      · cases left : place? x tl (.left d y tr :: ctx) with
        | some place =>
            rw [left] at found
            cases found
            have below : plug (.left d y tr :: ctx) tl = _ := place?_plug left
            exact below
        | none =>
            rw [left, Option.none_or] at found
            have below : plug (.right d tl y :: ctx) tr = _ := place?_plug found
            exact below

theorem exists_place : ∀ {t : ColorTree α} (ctx : Ctx α), x ∈ t.inorder →
    ∃ ctx' c l r, place? x t ctx = some (ctx', c, l, r)
  | .node d tl y tr, ctx, inside => by
      unfold place?
      split
      · exact ⟨ctx, d, tl, tr, rfl⟩
      · rename_i other
        simp only [ColorTree.inorder, List.mem_append, List.mem_cons] at inside
        cases left : place? x tl (.left d y tr :: ctx) with
        | some place => exact ⟨_, _, _, _, rfl⟩
        | none =>
            obtain inL | rfl | inR := inside
            · obtain ⟨ctx', c, l, r, found⟩ := exists_place (.left d y tr :: ctx) inL
              rw [left] at found
              cases found
            · exact (other rfl).elim
            · exact exists_place (.right d tl y :: ctx) inR

theorem Deletes.safe {comp : α → α → Int} {t : ColorTree α} (inv : RbInv comp s t)
    (deletes : Deletes comp s t x) : SafeToDelete t x := by
  obtain ⟨fuel, s', t', run, inv', -, -⟩ := deletes
  intro ctx c l r found
  have whole : t = plug ctx (.node c l x r) := place?_plug found
  subst whole
  obtain ⟨bound, -, spec⟩ := rbDelete_spec inv.rep inv.valid
  obtain ⟨out, -⟩ | ⟨crash, -⟩ | ⟨s'', T, run', rep', valid', -, -⟩ := spec fuel
  · rw [run] at out
    cases out
  · rw [run] at crash
    cases crash
  · rw [run] at run'
    cases run'
    rw [← valid', rep'.unique inv'.rep]
    exact inv'.valid

/-- **When `rb_delete` deletes.**  On every red-black tree and for each of its nodes, it
returns and leaves a red-black tree without that node exactly if the fix-up it
needs, if any, is safe. -/
theorem rb_delete_correct_iff (comp : α → α → Int) {s : RbTree α} {t : ColorTree α} {x : α}
    (inv : RbInv comp s t) (member : x ∈ t.inorder) : Deletes comp s t x ↔ SafeToDelete t x := by
  refine ⟨fun deletes => deletes.safe inv, fun safe => ?_⟩
  obtain ⟨ctx, c, l, r, found⟩ := exists_place [] member
  have here := safe ctx c l r found
  have whole : t = plug ctx (.node c l x r) := place?_plug found
  subst whole
  obtain ⟨bound, -, spec⟩ := rbDelete_spec inv.rep inv.valid
  obtain ⟨-, short⟩ | ⟨-, notSafe⟩ | ⟨s', T, run, rep', valid', inorder', zero⟩ := spec bound
  · omega
  · exact (notSafe here).elim
  · refine ⟨bound, s', T, run, ⟨rep', valid'.2 here, ?_⟩, inorder', zero⟩
    rw [inorder']
    exact inv.ordered.sublist List.erase_sublist

end Delete

/-! ### One deletion that works, and its mirror image -/

/-- The order of the keys. -/
def byKey (a b : Nat) : Int := (a : Int) - b

/-- Black 1 over black 0 and black 2, with red 3 on the right. -/
def leftLeaf : ColorTree Nat :=
  .node .black (.node .black .nil 0 .nil) 1 (.node .black .nil 2 (.node .red .nil 3 .nil))

def leftLeafNodes : Nat → RbNode Nat
  | 0 => ⟨none, none, some 1, .black⟩
  | 1 => ⟨some 0, some 2, none, .black⟩
  | 2 => ⟨none, some 3, some 1, .black⟩
  | 3 => ⟨none, none, some 2, .red⟩
  | _ => zeroNode

theorem leftLeaf_inv : RbInv byKey ⟨some 1, leftLeafNodes⟩ leftLeaf where
  rep := ⟨rfl, ⟨rfl, ⟨rfl, trivial, trivial⟩, rfl, trivial, rfl, trivial, trivial⟩, by decide⟩
  valid := ⟨rfl, 2, ⟨rfl, rfl⟩, rfl, rfl, rfl, rfl, rfl⟩
  ordered := by decide

/-- The left leaf 0, whose brother 2 has a red child, is deleted. -/
theorem rb_delete_left_leaf :
    0 ∈ leftLeaf.inorder ∧ Deletes byKey ⟨some 1, leftLeafNodes⟩ leftLeaf 0 := by
  have member : 0 ∈ leftLeaf.inorder := by decide
  refine ⟨member, (rb_delete_correct_iff byKey leftLeaf_inv member).2 fun ctx c l r found => ?_⟩
  cases found
  exact ⟨fun _ _ _ _ => .inr (.inl (.inr rfl)), fun present => (present rfl).elim⟩

/-- Black 2 over black 1 and black 3, with red 0 on the left: what inserting 2, 1, 3
and 0 gives. -/
def rightLeaf : ColorTree Nat :=
  .node .black (.node .black (.node .red .nil 0 .nil) 1 .nil) 2 (.node .black .nil 3 .nil)

def rightLeafNodes : Nat → RbNode Nat
  | 0 => ⟨none, none, some 1, .red⟩
  | 1 => ⟨some 0, none, some 2, .black⟩
  | 2 => ⟨some 1, some 3, none, .black⟩
  | 3 => ⟨none, none, some 2, .black⟩
  | _ => zeroNode

theorem rightLeaf_inv : RbInv byKey ⟨some 2, rightLeafNodes⟩ rightLeaf where
  rep := ⟨rfl, ⟨rfl, ⟨rfl, ⟨rfl, trivial, trivial⟩, trivial⟩, rfl, trivial, trivial⟩, by decide⟩
  valid := ⟨rfl, 2, ⟨⟨rfl, rfl, rfl, rfl⟩, rfl⟩, rfl, rfl⟩
  ordered := by decide

/-- **The mirror image is not**: deleting 3 reads through the NULL right child of its
brother 1. -/
theorem rb_delete_right_leaf_fails :
    RbInv byKey ⟨some 2, rightLeafNodes⟩ rightLeaf ∧ 3 ∈ rightLeaf.inorder ∧
    rbDelete 10 ⟨some 2, rightLeafNodes⟩ 3 = .error .null ∧
    ¬ Deletes byKey ⟨some 2, rightLeafNodes⟩ rightLeaf 3 := by
  refine ⟨rightLeaf_inv, by decide, rfl, fun deletes => ?_⟩
  have safe := (deletes.safe rightLeaf_inv _ _ _ _ rfl).1 (.inl rfl) rfl rfl rfl
  exact safe.1 (.inl rfl)

end Minus.Lib.Rbtree
