/-
# Lib.Rbtree — the red-black tree of the kernel library

`lib/rbtree.c`: nodes with parent pointers, and a root.  A pointer is an optional
node; reading through NULL ends the computation with `Stop.null`.  The loops
take fuel, and running out of it is `Stop.fuel`.

The source's two rotations are mirror images: `rbRotate` is both, by the side
the node goes down to.  The block that hangs a node under the parent of another
is the same in the rotations and in `rb_substitue`; here it is `replaceChild`.
-/
import Minus.Theory.RedBlack
import Mathlib.Logic.Function.Basic

namespace Minus.Lib.Rbtree

set_option autoImplicit false

open Minus.Theory

universe u

inductive Side where
  | left
  | right
  deriving DecidableEq

def Side.other : Side → Side
  | .left => .right
  | .right => .left

/-- `struct rb_node`. -/
@[ext]
structure RbNode (α : Type u) where
  left : Option α
  right : Option α
  parent : Option α
  color : Color
  deriving DecidableEq

/-- A node after `memset(node, 0, sizeof(struct rb_node))`; `RB_COLOR_RED` is 0. -/
def zeroNode {α : Type u} : RbNode α := ⟨none, none, none, .red⟩

namespace RbNode

variable {α : Type u}

def child (n : RbNode α) : Side → Option α
  | .left => n.left
  | .right => n.right

def setChild (n : RbNode α) (side : Side) (v : Option α) : RbNode α :=
  match side with
  | .left => { n with left := v }
  | .right => { n with right := v }

end RbNode

/-- `struct rb_tree`, with the memory its nodes are in. -/
structure RbTree (α : Type u) where
  root : Option α
  nodes : α → RbNode α

/-- Why a computation does not return. -/
inductive Stop where
  | null
  | fuel
  deriving DecidableEq

section Code

variable {α : Type u} [DecidableEq α]

def RbTree.set (s : RbTree α) (x : α) (f : RbNode α → RbNode α) : RbTree α :=
  { s with nodes := Function.update s.nodes x (f (s.nodes x)) }

def RbTree.setColor (s : RbTree α) (x : α) (c : Color) : RbTree α :=
  s.set x fun n => { n with color := c }

def RbTree.setParent (s : RbTree α) (x : Option α) (p : Option α) : RbTree α :=
  match x with
  | some x => s.set x fun n => { n with parent := p }
  | none => s

def deref (p : Option α) : Except Stop α :=
  match p with
  | some x => .ok x
  | none => .error .null

def rbColor (s : RbTree α) (node : Option α) : Color :=
  match node with
  | some x => (s.nodes x).color
  | none => .black

def rbBrother (s : RbTree α) (node : α) : Except Stop (Option α) := do
  let p ← deref (s.nodes node).parent
  if some node = (s.nodes p).left then .ok (s.nodes p).right else .ok (s.nodes p).left

/-- Hang `new` where `old` hangs under `parent`. -/
def replaceChild (s : RbTree α) (parent : Option α) (old : α) (new : Option α) : RbTree α :=
  match parent with
  | none => { s with root := new }
  | some p =>
      if (s.nodes p).left = some old then s.set p fun n => { n with left := new }
      else s.set p fun n => { n with right := new }

/-- Turn the edge from `x` to its child on the other side; `x` goes down on `side`. -/
def rbRotate (side : Side) (s : RbTree α) (x : α) : Except Stop (RbTree α) := do
  let y ← deref ((s.nodes x).child side.other)
  let b := (s.nodes y).child side
  let s := s.set x fun n => n.setChild side.other b
  let s := s.setParent b (some x)
  let s := s.setParent (some y) (s.nodes x).parent
  let s := replaceChild s (s.nodes x).parent x (some y)
  let s := s.set y fun n => n.setChild side (some x)
  .ok (s.setParent (some x) (some y))

def rbLeftRot (s : RbTree α) (x : α) : Except Stop (RbTree α) := rbRotate .left s x

def rbRightRot (s : RbTree α) (y : α) : Except Stop (RbTree α) := rbRotate .right s y

def rbRotBranch (s : RbTree α) (node : α) (leftRot : Bool) : Except Stop (RbTree α) :=
  if leftRot then rbLeftRot s node else rbRightRot s node

def rbMakeOrphan (s : RbTree α) (node : Option α) : RbTree α :=
  match node with
  | none => s
  | some n =>
      match (s.nodes n).parent with
      | none => s
      | some p =>
          let s :=
            if (s.nodes p).left = some n then s.set p fun n => { n with left := none }
            else s.set p fun n => { n with right := none }
          s.set n fun _ => zeroNode

/-- `rb_substitue` after its call of `rb_make_orphan`. -/
def hang (s : RbTree α) (node : α) (sub : Option α) : RbTree α :=
  let n := s.nodes node
  let s :=
    match sub with
    | some u => s.set u fun _ => n
    | none => s
  let s := s.setParent n.left sub
  let s := s.setParent n.right sub
  let s := replaceChild s n.parent node sub
  s.set node fun _ => zeroNode

def rbSubstitue (s : RbTree α) (node : α) (sub : Option α) : RbTree α :=
  hang (rbMakeOrphan s sub) node sub

/-- The loop of `rb_successor`. -/
def leftmost (s : RbTree α) : Nat → α → Except Stop α
  | 0, _ => .error .fuel
  | fuel + 1, ret =>
      match (s.nodes ret).left with
      | some l => leftmost s fuel l
      | none => .ok ret

def rbSuccessor (fuel : Nat) (s : RbTree α) (node : α) : Except Stop α := do
  let ret ← deref (s.nodes node).right
  leftmost s fuel ret

/-- The red brother of `rb_delete_fixup`: rotate, and look again. -/
def fixRedBrother (s : RbTree α) (node p : α) (bro : Option α) (branch : Bool) :
    Except Stop (RbTree α × α × Option α) :=
  if rbColor s bro = .red then do
    let b ← deref bro
    let s := s.setColor b .black
    let s := s.setColor p .red
    let s ← rbRotBranch s p branch
    let p ← deref (s.nodes node).parent
    let bro ← rbBrother s node
    .ok (s, p, bro)
  else
    .ok (s, p, bro)

/-- The black `br` of `rb_delete_fixup`: rotate at the brother, and look again. -/
def fixBlackNephew (s : RbTree α) (node p b : α) (branch : Bool) :
    Except Stop (RbTree α × α × α) :=
  if rbColor s (s.nodes b).right = .black then do
    let bl ← deref (s.nodes b).left
    let s := s.setColor bl .black
    let s := s.setColor b .red
    let s ← rbRotBranch s b (!branch)
    let p ← deref (s.nodes node).parent
    let bro ← rbBrother s node
    let b ← deref bro
    .ok (s, p, b)
  else
    .ok (s, p, b)

/-- The rotation at the parent that ends the loop of `rb_delete_fixup`. -/
def fixFinish (s : RbTree α) (p b : α) (branch : Bool) : Except Stop (RbTree α × α) := do
  let br := (s.nodes b).right
  let s := s.setColor b (s.nodes p).color
  let s := s.setColor p .black
  let r ← deref br
  let s := s.setColor r .black
  let s ← rbRotBranch s p branch
  let root ← deref s.root
  .ok (s, root)

/-- The rest of an iteration, from `bl = bro->left` on. -/
def fixBlackBrother (s : RbTree α) (node p : α) (bro : Option α) (branch : Bool) :
    Except Stop (RbTree α × α) := do
  let b ← deref bro
  if rbColor s (s.nodes b).left = .black ∧ rbColor s (s.nodes b).right = .black then
    .ok (s.setColor b .red, p)
  else do
    let (s, p, b) ← fixBlackNephew s node p b branch
    fixFinish s p b branch

/-- An iteration of `rb_delete_fixup`: the tree and the node to go on with. -/
def fixupStep (s : RbTree α) (node : α) : Except Stop (RbTree α × α) := do
  let p ← deref (s.nodes node).parent
  let branch := decide ((s.nodes p).left = some node)
  let bro ← rbBrother s node
  let (s, p, bro) ← fixRedBrother s node p bro branch
  fixBlackBrother s node p bro branch

def rbDeleteFixup : Nat → RbTree α → α → Except Stop (RbTree α)
  | 0, _, _ => .error .fuel
  | fuel + 1, s, node =>
      if some node ≠ s.root ∧ rbColor s (some node) = .black then do
        let (s, node) ← fixupStep s node
        rbDeleteFixup fuel s node
      else
        .ok (s.setColor node .black)

/-- `rb_delete` from the choice of `child` to the first `rb_substitue`. -/
def unlinkSub (fuel : Nat) (s : RbTree α) (sub : α) : Except Stop (RbTree α) := do
  let child := if (s.nodes sub).left ≠ none then (s.nodes sub).left else (s.nodes sub).right
  let s ←
    if child = none ∧ rbColor s (some sub) = .black then rbDeleteFixup fuel s sub else .ok s
  .ok (rbSubstitue s sub child)

def rbDelete (fuel : Nat) (s : RbTree α) (node : α) : Except Stop (RbTree α) := do
  let sub ←
    if (s.nodes node).left = none ∨ (s.nodes node).right = none then .ok node
    else rbSuccessor fuel s node
  let s ← unlinkSub fuel s sub
  if sub ≠ node then .ok (rbSubstitue s node (some sub)) else .ok s

/-- `rb_rot`: the tree, and the node that the subtree of `pp` now hangs from. -/
def rbRot (s : RbTree α) (pp p node : α) : Except Stop (RbTree α × Option α) :=
  if (s.nodes pp).left = some p then do
    let s ← if (s.nodes p).right = some node then rbLeftRot s p else .ok s
    let s ← rbRightRot s pp
    .ok (s, (s.nodes pp).parent)
  else do
    let s ← if (s.nodes p).left = some node then rbRightRot s p else .ok s
    let s ← rbLeftRot s pp
    .ok (s, (s.nodes pp).parent)

/-- The end of `rb_insert_fixup`. -/
def paintRoot (s : RbTree α) : Except Stop (RbTree α) := do
  let root ← deref s.root
  .ok (s.setColor root .black)

def rbInsertFixup : Nat → RbTree α → α → Except Stop (RbTree α)
  | 0, _, _ => .error .fuel
  | fuel + 1, s, node =>
      match (s.nodes node).parent with
      | none => paintRoot s
      | some p =>
          if (s.nodes p).color = .red then do
            let pp ← deref (s.nodes p).parent
            let s := s.setColor pp .red
            let u := if some p = (s.nodes pp).left then (s.nodes pp).right else (s.nodes pp).left
            if rbColor s u = .red then do
              let u ← deref u
              let s := s.setColor u .black
              let s := s.setColor p .black
              rbInsertFixup fuel s pp
            else do
              let (s, r) ← rbRot s pp p node
              let r ← deref r
              paintRoot (s.setColor r .black)
          else
            paintRoot s

/-- The loop of `rb_insert`: the last node on the way down. -/
def descend (comp : α → α → Int) (s : RbTree α) (node : α) : Nat → α → Except Stop α
  | 0, _ => .error .fuel
  | fuel + 1, p =>
      match if comp node p < 0 then (s.nodes p).left else (s.nodes p).right with
      | some next => descend comp s node fuel next
      | none => .ok p

def rbInsert (comp : α → α → Int) (fuel : Nat) (s : RbTree α) (node : α) : Except Stop (RbTree α) :=
  let s := s.set node fun _ => zeroNode
  match s.root with
  | none =>
      let s := s.setColor node .black
      .ok { s with root := some node }
  | some root => do
      let parent ← descend comp s node fuel root
      let s := s.set node fun n => { n with parent := some parent }
      let s :=
        if comp node parent < 0 then s.set parent fun n => { n with left := some node }
        else s.set parent fun n => { n with right := some node }
      rbInsertFixup fuel s node

end Code

end Minus.Lib.Rbtree
