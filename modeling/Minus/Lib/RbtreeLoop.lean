/-
# Lib.RbtreeLoop — the fix-up loop in memory

An iteration of `rb_delete_fixup` looks around its node, recolours and rotates;
each of these is one step of the representation, so that the loop follows the
shape-level `fixup` (`rbDeleteFixup_sim`): it crashes where that does, and else
leaves the memory of the tree that it gives, after at most one iteration a level.
-/
import Minus.Lib.RbtreeRep
import Minus.Lib.RbtreeFixup
import Minus.Theory.Slots

namespace Minus.Lib.Rbtree

set_option autoImplicit false

open Minus.Theory

universe u v

variable {α : Type u}

/-- The node is a left child. -/
def isLeft : Frame α → Bool
  | .left _ _ _ => true
  | .right _ _ _ => false

/-! ## Looking around -/

section Look

variable {s : RbTree α} {c : Color} {p z : α} {sib t : ColorTree α} {f : Frame α} {up : Ctx α}

theorem Represents.parent_left (rep : Represents s (plug (.left c p sib :: up) t)) :
    s.nodes p = ⟨t.root?, sib.root?, parentOf up, c⟩ :=
  (rep_plug.1 rep).1.1

theorem Represents.parent_right (rep : Represents s (plug (.right c sib p :: up) t)) :
    s.nodes p = ⟨sib.root?, t.root?, parentOf up, c⟩ :=
  (rep_plug.1 rep).1.1

theorem Represents.parent_color (rep : Represents s (plug (f :: up) t)) : (s.nodes f.parent).color = f.color := by
  cases f with
  | left c p sib => exact congrArg RbNode.color rep.parent_left
  | right c sib p => exact congrArg RbNode.color rep.parent_right

theorem fill_root? (f : Frame α) (t : ColorTree α) : (f.fill t).root? = some f.parent := by
  cases f with
  | left => rfl
  | right => rfl

theorem Represents.parent_eq (rep : Represents s (plug (f :: up) t)) (root : t.root? = some z) :
    (s.nodes z).parent = some f.parent := by
  cases t with
  | nil => cases root
  | node c l y r =>
      cases root
      rw [rep.read]
      rfl

theorem plug_root? (f : Frame α) (up : Ctx α) (t : ColorTree α) : ∃ r, (plug (f :: up) t).root? = some r := by
  induction up generalizing f t with
  | nil =>
      cases f with
      | left c p sib => exact ⟨p, rfl⟩
      | right c sib p => exact ⟨p, rfl⟩
  | cons g rest ih => exact ih g (f.fill t)

theorem plug_root?_mem {r : α} (root : (plug (f :: up) t).root? = some r) : r ∈ elements (f :: up) := by
  induction up generalizing f t with
  | nil =>
      cases f with
      | left c p sib =>
          cases root
          exact (elements_left c r sib []).mem_iff.2 List.mem_cons_self
      | right c sib p =>
          cases root
          exact (elements_right c r sib []).mem_iff.2 List.mem_cons_self
  | cons g rest ih =>
      have above : r ∈ elements (g :: rest) := ih root
      cases f with
      | left c p sib => exact (elements_left c p sib _).mem_iff.2 (List.mem_append_right _ above)
      | right c sib p => exact (elements_right c p sib _).mem_iff.2 (List.mem_append_right _ above)

theorem Represents.sib_ne (rep : Represents s (plug (f :: up) t)) (root : t.root? = some z) :
    f.sib.root? ≠ some z := by
  intro same
  have apart := (List.nodup_append.1 (rep_plug.1 rep).2.2).2.2
  have inSib := root?_mem same
  apply apart z (root?_mem root) z _ rfl
  cases f with
  | left c p sib =>
      apply (elements_left c p sib up).mem_iff.2
      exact List.mem_append_left _ (List.mem_cons_of_mem p inSib)
  | right c sib p =>
      apply (elements_right c p sib up).mem_iff.2
      exact List.mem_append_left _ (List.mem_cons_of_mem p inSib)

theorem Represents.root_ne (rep : Represents s (plug (f :: up) t))
    (root : t.root? = some z) : some z ≠ s.root := by
  rw [rep.root]
  intro same
  have apart := (List.nodup_append.1 (rep_plug.1 rep).2.2).2.2
  exact apart z (root?_mem root) z (plug_root?_mem same.symm) rfl

variable [DecidableEq α]

theorem Represents.branch (rep : Represents s (plug (f :: up) t)) (root : t.root? = some z) :
    decide ((s.nodes f.parent).left = some z) = isLeft f := by
  cases f with
  | left c p sib =>
      have node := rep.parent_left
      simp [Frame.parent, node, root, isLeft]
  | right c sib p =>
      have node := rep.parent_right
      have other : sib.root? ≠ some z := rep.sib_ne root
      simp [Frame.parent, node, other, isLeft]

theorem Represents.brother (rep : Represents s (plug (f :: up) t)) (root : t.root? = some z) :
    rbBrother s z = .ok f.sib.root? := by
  unfold rbBrother
  rw [rep.parent_eq root]
  cases f with
  | left c p sib =>
      show (if some z = (s.nodes p).left then Except.ok (s.nodes p).right else _) = _
      rw [rep.parent_left, if_pos root.symm]
      rfl
  | right c sib p =>
      have other : some z ≠ sib.root? := fun same => rep.sib_ne root same.symm
      show (if some z = (s.nodes p).left then _ else Except.ok (s.nodes p).left) = _
      rw [rep.parent_right, if_neg other]
      rfl

end Look

/-! ## One iteration -/

section Step

variable [DecidableEq α] {s : RbTree α} {z : α} {t : ColorTree α} {f : Frame α} {up : Ctx α}

theorem Represents.rotBranch_left {cx cy : Color} {a b r : ColorTree α} {x y : α}
    (rep : Represents s (plug up (.node cx a x (.node cy b y r)))) :
    ∃ s', rbRotBranch s x true = .ok s' ∧ Represents s' (plug up (.node cy (.node cx a x b) y r)) :=
  Represents.rotate .left rep

theorem Represents.rotBranch_right {cx cy : Color} {a b r : ColorTree α} {x y : α}
    (rep : Represents s (plug up (.node cx (.node cy r y b) x a))) :
    ∃ s', rbRotBranch s x false = .ok s' ∧ Represents s' (plug up (.node cy r y (.node cx b x a))) :=
  Represents.rotate .right rep

/-- After the rotation at a red brother the node has a black one. -/
theorem fixRedBrother_sim (rep : Represents s (plug (f :: up) t)) (root : t.root? = some z) :
    match raise f with
    | some (f', g) => ∃ s', fixRedBrother s z f.parent f.sib.root? (isLeft f) =
        .ok (s', f'.parent, f'.sib.root?) ∧ Represents s' (plug (f' :: g :: up) t) ∧ isLeft f' = isLeft f
    | none => fixRedBrother s z f.parent f.sib.root? (isLeft f) = .ok (s, f.parent, f.sib.root?) := by
  cases f with
  | left c p sib =>
      have sibRep : Represents s (plug (.right c t p :: up) sib) := rep
      have color := sibRep.color
      cases sib with
      | nil => rfl
      | node d bl b br =>
          cases d with
          | black => exact if_neg (by simp [Frame.sib, color])
          | red =>
              have rep₁ : Represents _ (plug up (.node c t p (.node .black bl b br))) := sibRep.setColor .black
              obtain ⟨s', run, rep'⟩ := (rep₁.setColor .red).rotBranch_left
              have here : Represents s' (plug (.left .red p bl :: .left .black b br :: up) t) := rep'
              refine ⟨s', ?_, here, rfl⟩
              unfold fixRedBrother
              rw [if_pos (by rw [Frame.sib, color]; rfl)]
              show (rbRotBranch ((s.setColor b .black).setColor p .red) p true >>= _) = _
              rw [run, ok_bind, here.parent_eq root, here.brother root]
              rfl
  | right c sib p =>
      have sibRep : Represents s (plug (.left c p t :: up) sib) := rep
      have color := sibRep.color
      cases sib with
      | nil => rfl
      | node d bl b br =>
          cases d with
          | black => exact if_neg (by simp [Frame.sib, color])
          | red =>
              have rep₁ : Represents _ (plug up (.node c (.node .black bl b br) p t)) := sibRep.setColor .black
              obtain ⟨s', run, rep'⟩ := (rep₁.setColor .red).rotBranch_right
              have here : Represents s' (plug (.right .red br p :: .right .black bl b :: up) t) := rep'
              refine ⟨s', ?_, here, rfl⟩
              unfold fixRedBrother
              rw [if_pos (by rw [Frame.sib, color]; rfl)]
              show (rbRotBranch ((s.setColor b .black).setColor p .red) p false >>= _) = _
              rw [run, ok_bind, here.parent_eq root, here.brother root]
              rfl

/-- The last rotation at a left child. -/
theorem fixFinish_left {c d e : Color} {near rl rr : ColorTree α} {p b r : α}
    (rep : Represents s (plug up (.node c t p (.node d near b (.node e rl r rr))))) :
    ∃ s' q, fixFinish s p b true = .ok (s', q) ∧ s'.root = some q ∧
      Represents s' (plug ([.left .black p near, .left c b (.node .black rl r rr)] ++ up) t) := by
  have atB : Represents s (plug (.right c t p :: up) (.node d near b (.node e rl r rr))) := rep
  have rep₁ : Represents _ (plug up (.node c t p (.node c near b (.node e rl r rr)))) := atB.setColor c
  have rep₂ : Represents _ (plug (.right c near b :: .right .black t p :: up) (.node e rl r rr)) :=
    rep₁.setColor .black
  have rep₃ : Represents _ (plug up (.node .black t p (.node c near b (.node .black rl r rr)))) :=
    rep₂.setColor .black
  obtain ⟨s', run, rep'⟩ := rep₃.rotBranch_left
  have done : Represents s' (plug ([.left .black p near, .left c b (.node .black rl r rr)] ++ up) t) := rep'
  obtain ⟨q, isRoot⟩ := plug_root? (.left .black p near) (.left c b (.node .black rl r rr) :: up) t
  have root' : s'.root = some q := done.root.trans isRoot
  refine ⟨s', q, ?_, root', done⟩
  unfold fixFinish
  rw [atB.read, rep.read]
  show (rbRotBranch _ p true >>= _) = _
  rw [run, ok_bind, root']
  rfl

/-- The last rotation at a right child, as the code makes it. -/
theorem fixFinish_right {c d e : Color} {bl rl rr : ColorTree α} {p b r : α}
    (rep : Represents s (plug up (.node c (.node d bl b (.node e rl r rr)) p t))) :
    ∃ s' q, fixFinish s p b false = .ok (s', q) ∧ s'.root = some q ∧
      Represents s' (plug ([.right .black (.node .black rl r rr) p, .right c bl b] ++ up) t) := by
  have atB : Represents s (plug (.left c p t :: up) (.node d bl b (.node e rl r rr))) := rep
  have rep₁ : Represents _ (plug up (.node c (.node c bl b (.node e rl r rr)) p t)) := atB.setColor c
  have rep₂ : Represents _ (plug (.right c bl b :: .left .black p t :: up) (.node e rl r rr)) :=
    rep₁.setColor .black
  have rep₃ : Represents _ (plug up (.node .black (.node c bl b (.node .black rl r rr)) p t)) :=
    rep₂.setColor .black
  obtain ⟨s', run, rep'⟩ := rep₃.rotBranch_right
  have done : Represents s' (plug ([.right .black (.node .black rl r rr) p, .right c bl b] ++ up) t) := rep'
  obtain ⟨q, isRoot⟩ := plug_root? (.right .black (.node .black rl r rr) p) (.right c bl b :: up) t
  have root' : s'.root = some q := done.root.trans isRoot
  refine ⟨s', q, ?_, root', done⟩
  unfold fixFinish
  rw [atB.read, rep.read]
  show (rbRotBranch _ p false >>= _) = _
  rw [run, ok_bind, root']
  rfl

/-- With no `br` to recolour the code reads through NULL. -/
theorem fixFinish_null {c d : Color} {bl : ColorTree α} {p b : α} (branch : Bool)
    (rep : Represents s (plug up (.node c (.node d bl b .nil) p t))) :
    fixFinish s p b branch = .error .null := by
  have atB : Represents s (plug (.left c p t :: up) (.node d bl b .nil)) := rep
  unfold fixFinish
  rw [atB.read]
  rfl

/-- An iteration at a left child whose brother is `b`. -/
theorem fixBlackBrother_left {c d : Color} {bl br : ColorTree α} {p b : α}
    (rep : Represents s (plug (.left c p (.node d bl b br) :: up) t)) (root : t.root? = some z) :
    match settle (.left c p (.node d bl b br)) with
    | none => fixBlackBrother s z p (some b) true = .error .null
    | some (.climb f) => ∃ s', fixBlackBrother s z p (some b) true = .ok (s', f.parent) ∧
        Represents s' (plug (f :: up) t)
    | some (.stop frames) => ∃ s' q, fixBlackBrother s z p (some b) true = .ok (s', q) ∧
        s'.root = some q ∧ Represents s' (plug (frames ++ up) t) := by
  have atB : Represents s (plug (.right c t p :: up) (.node d bl b br)) := rep
  have node := atB.read
  have left : rbColor s (s.nodes b).left = bl.color := by
    rw [node]
    exact Represents.color (show Represents s (plug (.left d b br :: .right c t p :: up) bl) from rep)
  have right : rbColor s (s.nodes b).right = br.color := by
    rw [node]
    exact Represents.color (show Represents s (plug (.right d bl b :: .right c t p :: up) br) from rep)
  have start : fixBlackBrother s z p (some b) true =
      if bl.color = .black ∧ br.color = .black then .ok (s.setColor b .red, p)
      else fixBlackNephew s z p b true >>= fun r => fixFinish r.1 r.2.1 r.2.2 true := by
    unfold fixBlackBrother
    rw [← left, ← right]
    rfl
  rw [start]
  cases colorR : br.color with
  | red =>
      rw [colorR] at right
      have keep : fixBlackNephew s z p b true = .ok (s, p, b) := if_neg (by rw [right]; simp)
      simp only [settle, colorR, reduceCtorEq, and_false, if_false]
      rw [keep, ok_bind]
      cases br with
      | nil => cases colorR
      | node e rl r rr => exact fixFinish_left rep
  | black =>
      cases colorL : bl.color with
      | black =>
          simp only [settle, colorL, colorR, and_self, if_true]
          exact ⟨_, rfl, atB.setColor .red⟩
      | red =>
          cases bl with
          | nil => cases colorL
          | node e ll l lr =>
              rw [colorR] at right
              simp only [settle, colorL, colorR, reduceCtorEq, and_true, if_true, if_false]
              have atL : Represents s (plug (.left d b br :: .right c t p :: up) (.node e ll l lr)) := rep
              have rep₁ : Represents _ (plug (.right c t p :: up) (.node d (.node .black ll l lr) b br)) :=
                atL.setColor .black
              obtain ⟨s', run, rep'⟩ := (rep₁.setColor .red).rotBranch_right
              have here : Represents s' (plug (.left c p (.node .black ll l (.node .red lr b br)) :: up) t) := rep'
              have turn : fixBlackNephew s z p b true = .ok (s', p, l) := by
                unfold fixBlackNephew
                rw [if_pos right, node]
                show (rbRotBranch _ b false >>= _) = _
                rw [run, ok_bind, here.parent_eq root, here.brother root]
                rfl
              rw [turn, ok_bind]
              exact fixFinish_left rep'

/-- An iteration at a right child whose brother is `b`. -/
theorem fixBlackBrother_right {c d : Color} {bl br : ColorTree α} {p b : α}
    (rep : Represents s (plug (.right c (.node d bl b br) p :: up) t)) (root : t.root? = some z) :
    match settle (.right c (.node d bl b br) p) with
    | none => fixBlackBrother s z p (some b) false = .error .null
    | some (.climb f) => ∃ s', fixBlackBrother s z p (some b) false = .ok (s', f.parent) ∧
        Represents s' (plug (f :: up) t)
    | some (.stop frames) => ∃ s' q, fixBlackBrother s z p (some b) false = .ok (s', q) ∧
        s'.root = some q ∧ Represents s' (plug (frames ++ up) t) := by
  have atB : Represents s (plug (.left c p t :: up) (.node d bl b br)) := rep
  have node := atB.read
  have left : rbColor s (s.nodes b).left = bl.color := by
    rw [node]
    exact Represents.color (show Represents s (plug (.left d b br :: .left c p t :: up) bl) from rep)
  have right : rbColor s (s.nodes b).right = br.color := by
    rw [node]
    exact Represents.color (show Represents s (plug (.right d bl b :: .left c p t :: up) br) from rep)
  have start : fixBlackBrother s z p (some b) false =
      if bl.color = .black ∧ br.color = .black then .ok (s.setColor b .red, p)
      else fixBlackNephew s z p b false >>= fun r => fixFinish r.1 r.2.1 r.2.2 false := by
    unfold fixBlackBrother
    rw [← left, ← right]
    rfl
  rw [start]
  cases colorR : br.color with
  | red =>
      rw [colorR] at right
      have keep : fixBlackNephew s z p b false = .ok (s, p, b) := if_neg (by rw [right]; simp)
      simp only [settle, colorR, reduceCtorEq, and_false, if_false]
      rw [keep, ok_bind]
      cases br with
      | nil => cases colorR
      | node e rl r rr => exact fixFinish_right rep
  | black =>
      cases colorL : bl.color with
      | black =>
          simp only [settle, colorL, colorR, and_self, if_true]
          exact ⟨_, rfl, atB.setColor .red⟩
      | red =>
          cases bl with
          | nil => cases colorL
          | node e ll l lr =>
              rw [colorR] at right
              have atL : Represents s (plug (.left d b br :: .left c p t :: up) (.node e ll l lr)) := rep
              have rep₁ : Represents _ (plug (.left c p t :: up) (.node d (.node .black ll l lr) b br)) :=
                atL.setColor .black
              have rep₂ := rep₁.setColor .red
              cases br with
              | nil =>
                  -- the rotation at the brother reads through its NULL right child
                  simp only [settle, colorL, colorR, reduceCtorEq, and_true, if_true, if_false]
                  have crash : fixBlackNephew s z p b false = .error .null := by
                    unfold fixBlackNephew
                    rw [if_pos right, node]
                    show (rbRotate .left _ b >>= _) = _
                    unfold rbRotate
                    rw [show (RbTree.nodes _ b).child Side.left.other = none from
                      congrArg RbNode.right rep₂.read]
                    rfl
                  rw [crash]
                  rfl
              | node e' rl r rr =>
                  obtain ⟨s', run, rep'⟩ := rep₂.rotBranch_left
                  have here : Represents s' (plug (.right c
                      (.node e' (.node .red (.node .black ll l lr) b rl) r rr) p :: up) t) := rep'
                  have turn : fixBlackNephew s z p b false = .ok (s', p, r) := by
                    unfold fixBlackNephew
                    rw [if_pos right, node]
                    show (rbRotBranch _ b true >>= _) = _
                    rw [run, ok_bind, here.parent_eq root, here.brother root]
                    rfl
                  simp only [settle, colorL, colorR, reduceCtorEq, and_true, if_true, if_false]
                  rw [turn, ok_bind]
                  cases rr with
                  | nil => exact fixFinish_null false here
                  | node => exact fixFinish_right here

/-- **One iteration after the red brother.** -/
theorem fixBlackBrother_sim (rep : Represents s (plug (f :: up) t)) (root : t.root? = some z) :
    match settle f with
    | none => fixBlackBrother s z f.parent f.sib.root? (isLeft f) = .error .null
    | some (.climb f') => ∃ s', fixBlackBrother s z f.parent f.sib.root? (isLeft f) =
        .ok (s', f'.parent) ∧ Represents s' (plug (f' :: up) t)
    | some (.stop frames) => ∃ s' q, fixBlackBrother s z f.parent f.sib.root? (isLeft f) =
        .ok (s', q) ∧ s'.root = some q ∧ Represents s' (plug (frames ++ up) t) := by
  cases f with
  | left c p sib =>
      cases sib with
      | nil => rfl
      | node d bl b br => exact fixBlackBrother_left rep root
  | right c sib p =>
      cases sib with
      | nil => rfl
      | node d bl b br => exact fixBlackBrother_right rep root

theorem fixupStep_eq (rep : Represents s (plug (f :: up) t)) (root : t.root? = some z) :
    fixupStep s z = fixRedBrother s z f.parent f.sib.root? (isLeft f) >>= fun r =>
      fixBlackBrother r.1 z r.2.1 r.2.2 (isLeft f) := by
  unfold fixupStep
  rw [rep.parent_eq root, ← rep.branch root, rep.brother root]
  rfl

end Step

/-! ## The loop -/

section Loop

variable [DecidableEq α] {s : RbTree α} {z : α} {t : ColorTree α} {ctx : Ctx α}

/-- At the root, or at a red node, the loop ends. -/
theorem rbDeleteFixup_stop (fuel : Nat) (stop : s.root = some z ∨ rbColor s (some z) = .red) :
    rbDeleteFixup (fuel + 1) s z = .ok (s.setColor z .black) := by
  rw [rbDeleteFixup, if_neg]
  rintro ⟨notRoot, black⟩
  obtain isRoot | red := stop
  · exact notRoot isRoot.symm
  · rw [black] at red
    cases red

theorem Represents.paint (rep : Represents s (plug ctx t)) (root : t.root? = some z) :
    Represents (s.setColor z .black) (plug ctx t.blacken) := by
  cases t with
  | nil => cases root
  | node c l x r =>
      cases root
      exact rep.setColor .black

theorem Represents.paint_root {T : ColorTree α} (rep : Represents s T) (root : s.root = some z) :
    Represents (s.setColor z .black) T.blacken := by
  have atRoot : Represents s (plug [] T) := rep
  exact atRoot.paint (rep.root.symm.trans root)

/-- How a run of the loop ends, compared with `fixup`. -/
def Follows (result : Except Stop (RbTree α)) : Option (ColorTree α) → Prop
  | none => result = .error .null
  | some T => ∃ s', result = .ok s' ∧ Represents s' T

theorem loop_stops (fuel : Nat) {bound : Nat} {T : ColorTree α}
    (stop : s.root = some z ∨ rbColor s (some z) = .red) (positive : 0 + 1 < bound)
    (rep : Represents (s.setColor z .black) T) :
    (rbDeleteFixup fuel s z = .error .fuel ∧ fuel + 1 < bound) ∨
      Follows (rbDeleteFixup fuel s z) (some T) := by
  cases fuel with
  | zero => exact .inl ⟨rfl, positive⟩
  | succ fuel => exact .inr ⟨_, rbDeleteFixup_stop fuel stop, rep⟩

/-- **The loop follows `fixup`**, with an iteration for each level at most. -/
theorem rbDeleteFixup_sim : ∀ (fuel : Nat) {s : RbTree α} {z : α} {t : ColorTree α} {ctx : Ctx α},
    Represents s (plug ctx t) → t.root? = some z →
    (rbDeleteFixup fuel s z = .error .fuel ∧ fuel < ctx.length + 2) ∨
      Follows (rbDeleteFixup fuel s z) (fixup t ctx)
  | 0, _, _, _, _, _, _ => .inl ⟨rfl, by omega⟩
  | fuel + 1, s, z, t, [], rep, root => by
      right
      rw [rbDeleteFixup_stop fuel (.inl (rep.root.trans root))]
      exact ⟨_, rfl, rep.paint root⟩
  | fuel + 1, s, z, t, f :: up, rep, root => by
      have color : rbColor s (some z) = t.color := root ▸ rep.color
      cases colorT : t.color with
      | red =>
          right
          rw [rbDeleteFixup_stop fuel (.inr (color.trans colorT)), fixup_red colorT]
          exact ⟨_, rfl, rep.paint root⟩
      | black =>
          rw [rbDeleteFixup, if_pos ⟨rep.root_ne root, color.trans colorT⟩, fixupStep_eq rep root,
            fixup, if_neg (by rw [colorT]; simp)]
          have red := fixRedBrother_sim rep root
          cases raised : raise f with
          | some pair =>
              obtain ⟨f', g⟩ := pair
              rw [raised] at red
              obtain ⟨s₁, run₁, rep₁, side⟩ := red
              have next := fixBlackBrother_sim rep₁ root
              rw [side] at next
              rw [run₁, ok_bind]
              dsimp only
              cases settled : settle f' with
              | none =>
                  rw [settled] at next
                  right
                  rw [next]
                  rfl
              | some move =>
                  rw [settled] at next
                  cases move with
                  | climb f'' =>
                      -- the parent has been painted red, so the loop ends there
                      obtain ⟨s₂, run₂, rep₂⟩ := next
                      rw [run₂, ok_bind]
                      have isRed : f''.color = .red :=
                        (settle_climb_color settled).trans (raise_color raised)
                      exact loop_stops fuel (.inr (rep₂.parent_color.trans isRed)) (by simp)
                        (Represents.paint (show Represents s₂ (plug (g :: up) (f''.fill t)) from rep₂) (fill_root? f'' t))
                  | stop frames =>
                      obtain ⟨s₂, q, run₂, root₂, rep₂⟩ := next
                      rw [run₂, ok_bind]
                      exact loop_stops fuel (.inl root₂) (by simp) (rep₂.paint_root root₂)
          | none =>
              rw [raised] at red
              have next := fixBlackBrother_sim rep root
              rw [red, ok_bind]
              dsimp only
              cases settled : settle f with
              | none =>
                  rw [settled] at next
                  right
                  rw [next]
                  rfl
              | some move =>
                  rw [settled] at next
                  cases move with
                  | climb f' =>
                      obtain ⟨s₂, run₂, rep₂⟩ := next
                      rw [run₂, ok_bind]
                      have above : Represents s₂ (plug up (f'.fill t)) := rep₂
                      refine (rbDeleteFixup_sim fuel above (fill_root? f' t)).imp_left ?_
                      rintro ⟨out, short⟩
                      exact ⟨out, by simp; omega⟩
                  | stop frames =>
                      obtain ⟨s₂, q, run₂, root₂, rep₂⟩ := next
                      rw [run₂, ok_bind]
                      exact loop_stops fuel (.inl root₂) (by simp) (rep₂.paint_root root₂)

end Loop

end Minus.Lib.Rbtree
