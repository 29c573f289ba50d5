/-
# Lib.RbtreeFind — insertion in an order, and the search

`rb_insert` under a comparison that is one of a preorder (`Comparison`) keeps all that a
red-black tree is, and puts the node behind those that it does not compare below
(`inserts`).  `bcache_find` and `inode_find` are the same search down the tree (`rbFind`),
each with the comparison of its tree.
-/
import Minus.Lib.RbtreeInsert
import Minus.Lib.RbtreeDelete

namespace Minus.Lib.Rbtree

set_option autoImplicit false

open Minus.Theory

universe u v

variable {α : Type u} {K : Type v}

/-! ## Comparisons -/

structure Comparison (comp : K → K → Int) : Prop where
  flip : ∀ a b, comp a b ≤ 0 ↔ 0 ≤ comp b a
  trans : ∀ a b c, comp a b ≤ 0 → comp b c ≤ 0 → comp a c ≤ 0

namespace Comparison

variable {comp : K → K → Int} {a b c : K}

theorem below (law : Comparison comp) (less : comp a b < 0) (le : comp b c ≤ 0) : comp a c < 0 := by
  have low := law.trans a b c less.le le
  rcases low.lt_or_eq with done | same
  · exact done
  · have back := law.trans b c a le ((law.flip c a).2 same.ge)
    have := (law.flip b a).1 back
    omega

theorem above (law : Comparison comp) (more : 0 < comp a c) (le : comp b c ≤ 0) : 0 < comp a b := by
  by_contra low
  have := law.trans a b c (not_lt.1 low) le
  omega

/-- The comparison of nodes by their keys. -/
theorem of_key (law : Comparison comp) (key : α → K) : Comparison fun x y => comp (key x) (key y) where
  flip x y := law.flip (key x) (key y)
  trans x y z := law.trans (key x) (key y) (key z)

end Comparison

/-! ## Insertion -/

/-- `rb_insert` returns a red-black tree in which the node stands behind those that it does
not compare below. -/
def Inserts [DecidableEq α] (comp : α → α → Int) (s : RbTree α) (t : ColorTree α) (node : α) : Prop :=
  ∀ fuel, t.inorder.length < fuel → ∃ s' t' low high, rbInsert comp fuel s node = .ok s' ∧ RbInv comp s' t' ∧
    t.inorder = low ++ high ∧ t'.inorder = low ++ node :: high ∧
    (∀ x ∈ low, ¬ comp node x < 0) ∧ ∀ y ∈ high, comp node y < 0

section Insert

variable [DecidableEq α] {comp : α → α → Int} {s : RbTree α} {t : ColorTree α} {node : α}

theorem inserts (law : Comparison comp) (inv : RbInv comp s t) (new : node ∉ t.inorder) : Inserts comp s t node := by
  intro fuel enough
  have sorted : t.inorder.Pairwise fun x y => comp node x < 0 → comp node y < 0 :=
    inv.ordered.imp fun le less => law.below less le
  obtain ⟨s', T, low, high, run, rep, valid, split_, order, notLess, less, -⟩ :=
    rbInsert_spec inv.rep inv.valid new sorted enough
  refine ⟨s', T, low, high, run, ⟨rep, valid, ?_⟩, split_, order, notLess, less⟩
  have ordered := inv.ordered
  rw [split_] at ordered
  obtain ⟨orderedLow, orderedHigh, cross⟩ := List.pairwise_append.1 ordered
  rw [order]
  refine List.pairwise_append.2 ⟨orderedLow, List.pairwise_cons.2 ⟨fun y inside => (less y inside).le, orderedHigh⟩, ?_⟩
  intro x inside y member
  rcases List.mem_cons.1 member with rfl | inHigh
  · exact (law.flip x y).2 (not_lt.1 (notLess x inside))
  · exact cross x inside y inHigh

/-- Nodes inserted one after the other. -/
def rbInserts (comp : α → α → Int) (fuel : Nat) (s : RbTree α) : List α → Except Stop (RbTree α)
  | [] => .ok s
  | node :: rest => do
      let s ← rbInsert comp fuel s node
      rbInserts comp fuel s rest

theorem rbInserts_spec (law : Comparison comp) {nodes : List α} (distinct : nodes.Nodup)
    (inv : RbInv comp s t) (new : ∀ x ∈ nodes, x ∉ t.inorder) {fuel : Nat}
    (enough : nodes.length + t.inorder.length ≤ fuel) :
    ∃ s' t', rbInserts comp fuel s nodes = .ok s' ∧ RbInv comp s' t' ∧
      ∀ x, x ∈ t'.inorder ↔ x ∈ nodes ∨ x ∈ t.inorder := by
  induction nodes generalizing s t with
  | nil => exact ⟨s, t, rfl, inv, fun x => by simp⟩
  | cons node rest ih =>
      obtain ⟨notRest, distinctRest⟩ := List.nodup_cons.1 distinct
      rw [List.length_cons] at enough
      obtain ⟨s₁, t₁, low, high, run, inv₁, before_, after_, -, -⟩ :=
        inserts law inv (new node (List.mem_cons_self ..)) fuel (by omega)
      have member (x : α) : x ∈ t₁.inorder ↔ x = node ∨ x ∈ t.inorder := by
        rw [after_, before_]
        simp only [List.mem_append, List.mem_cons]
        exact or_left_comm
      have length : t₁.inorder.length = t.inorder.length + 1 := by
        rw [after_, before_]
        simp only [List.length_append, List.length_cons]
        rfl
      have newRest : ∀ x ∈ rest, x ∉ t₁.inorder := by
        intro x inside
        rw [member]
        rintro (rfl | old)
        · exact notRest inside
        · exact new x (List.mem_cons_of_mem _ inside) old
      obtain ⟨s₂, t₂, run₂, inv₂, member₂⟩ := ih distinctRest inv₁ newRest (by omega)
      refine ⟨s₂, t₂, ?_, inv₂, fun x => ?_⟩
      · rw [rbInserts, run]
        exact run₂
      · rw [member₂, member, List.mem_cons]
        exact or_left_comm.trans or_assoc.symm

end Insert

/-- The tree that `g_bcache_tree.root = NULL` and `g_inode_tree.root = NULL` make. -/
theorem empty_inv (comp : α → α → Int) (nodes : α → RbNode α) : RbInv comp ⟨none, nodes⟩ .nil where
  rep := ⟨rfl, trivial, List.nodup_nil⟩
  valid := ⟨rfl, 0, rfl⟩
  ordered := List.Pairwise.nil

/-! ## Search -/

/-- The loop of `bcache_find` and of `inode_find`; `cmp` compares the key with a node. -/
def rbFind (cmp : α → Int) (s : RbTree α) : Nat → Option α → Except Stop (Option α)
  | _, none => .ok none
  | 0, some _ => .error .fuel
  | fuel + 1, some node =>
      if cmp node = 0 then .ok (some node)
      else rbFind cmp s fuel (if cmp node < 0 then (s.nodes node).left else (s.nodes node).right)

theorem rbFind_spec {cmp : α → Int} {s : RbTree α} {t : ColorTree α} {parent : Option α} (rep : RepTree s t parent)
    (down : t.inorder.Pairwise fun x y => cmp x < 0 → cmp y < 0)
    (up : t.inorder.Pairwise fun x y => 0 < cmp y → 0 < cmp x) {fuel : Nat} (enough : t.inorder.length ≤ fuel) :
    ∃ r, rbFind cmp s fuel t.root? = .ok r ∧ (∀ x, r = some x → x ∈ t.inorder ∧ cmp x = 0) ∧
      (r = none → ∀ x ∈ t.inorder, cmp x ≠ 0) := by
  induction t generalizing parent fuel with
  | nil =>
      refine ⟨none, ?_, ?_, fun _ x inside => absurd inside List.not_mem_nil⟩
      · show rbFind cmp s fuel none = _
        rw [rbFind]
      · rintro x ⟨⟩
  | node c l y r ihL ihR =>
      obtain ⟨node, repL, repR⟩ := rep
      simp only [ColorTree.inorder, List.pairwise_append, List.pairwise_cons, List.mem_cons] at down up
      obtain ⟨downL, ⟨downY, downR⟩, -⟩ := down
      obtain ⟨upL, ⟨-, upR⟩, upY⟩ := up
      simp only [ColorTree.inorder, List.length_append, List.length_cons] at enough
      cases fuel with
      | zero => omega
      | succ fuel =>
          have step : rbFind cmp s (fuel + 1) (ColorTree.node c l y r).root? =
              if cmp y = 0 then .ok (some y) else rbFind cmp s fuel (if cmp y < 0 then l.root? else r.root?) := by
            show rbFind cmp s (fuel + 1) (some y) = _
            rw [rbFind, node]
          rw [step]
          rcases lt_trichotomy (cmp y) 0 with less | same | more
          · rw [if_neg less.ne, if_pos less]
            obtain ⟨found, run, some_, none_⟩ := ihL repL downL upL (by omega : _ ≤ fuel)
            refine ⟨found, run, fun x here => ?_, fun nothing x inside => ?_⟩
            · exact ⟨List.mem_append_left _ (some_ x here).1, (some_ x here).2⟩
            · rcases List.mem_append.1 inside with inL | rest
              · exact none_ nothing x inL
              · rcases List.mem_cons.1 rest with rfl | inR
                · exact less.ne
                · exact (downY x inR less).ne
          · rw [if_pos same]
            refine ⟨some y, rfl, ?_, ?_⟩
            · rintro x ⟨⟩
              exact ⟨List.mem_append_right _ (List.mem_cons_self ..), same⟩
            · rintro ⟨⟩
          · rw [if_neg more.ne', if_neg more.not_gt]
            obtain ⟨found, run, some_, none_⟩ := ihR repR downR upR (by omega : _ ≤ fuel)
            refine ⟨found, run, fun x here => ?_, fun nothing x inside => ?_⟩
            · exact ⟨List.mem_append_right _ (List.mem_cons_of_mem _ (some_ x here).1), (some_ x here).2⟩
            · rcases List.mem_append.1 inside with inL | rest
              · exact (upY x inL y (.inl rfl) more).ne'
              · rcases List.mem_cons.1 rest with rfl | inR
                · exact more.ne'
                · exact none_ nothing x inR

/-- Whatever the tree is: what is found compares equal. -/
theorem rbFind_found {cmp : α → Int} {s : RbTree α} {x : α} : ∀ {fuel : Nat} {node : Option α},
    rbFind cmp s fuel node = .ok (some x) → cmp x = 0
  | 0, some _, run => nomatch run
  | fuel + 1, some y, run => by
      rw [rbFind] at run
      split at run
      · cases run
        assumption
      · exact rbFind_found run

/-- A search in a tree of keyed nodes. -/
theorem find_spec [DecidableEq α] {comp : K → K → Int} (law : Comparison comp) (key : α → K) {s : RbTree α}
    {t : ColorTree α} (inv : RbInv (fun x y => comp (key x) (key y)) s t) (k : K) {fuel : Nat}
    (enough : t.inorder.length ≤ fuel) :
    ∃ r, rbFind (fun node => comp k (key node)) s fuel s.root = .ok r ∧
      (∀ x, r = some x → x ∈ t.inorder ∧ comp k (key x) = 0) ∧ (r = none → ∀ x ∈ t.inorder, comp k (key x) ≠ 0) := by
  rw [inv.rep.root]
  exact rbFind_spec inv.rep.nodes (inv.ordered.imp fun le less => law.below less le)
    (inv.ordered.imp fun le more => law.above more le) enough

/-- **A search after insertions** gives a node that compares equal to the key exactly if one
was inserted. -/
theorem inserted_found [DecidableEq α] {comp : K → K → Int} (law : Comparison comp) (key : α → K) {s : RbTree α}
    (empty : s.root = none) {nodes : List α} (distinct : nodes.Nodup) {fuel : Nat} (enough : nodes.length ≤ fuel) :
    ∃ s', rbInserts (fun x y => comp (key x) (key y)) fuel s nodes = .ok s' ∧
      ∀ k, ∃ r, rbFind (fun node => comp k (key node)) s' fuel s'.root = .ok r ∧
        (∀ x, r = some x → x ∈ nodes ∧ comp k (key x) = 0) ∧ (r = none → ∀ x ∈ nodes, comp k (key x) ≠ 0) := by
  obtain ⟨root, memory⟩ := s
  cases empty
  obtain ⟨s', t, run, inv, member⟩ := rbInserts_spec (law.of_key key) distinct (empty_inv _ memory)
    (fun _ _ => List.not_mem_nil)
    (show nodes.length + (ColorTree.nil : ColorTree α).inorder.length ≤ fuel from enough)
  replace member (x : α) : x ∈ t.inorder ↔ x ∈ nodes := by simpa [ColorTree.inorder] using member x
  have length : t.inorder.length = nodes.length :=
    ((List.perm_ext_iff_of_nodup inv.rep.distinct distinct).2 member).length_eq
  refine ⟨s', run, fun k => ?_⟩
  obtain ⟨r, found, some_, none_⟩ := find_spec law key inv k (by omega : t.inorder.length ≤ fuel)
  refine ⟨r, found, fun x here => ?_, fun nothing x inside => ?_⟩
  · exact (some_ x here).imp_left (member x).1
  · exact none_ nothing x ((member x).2 inside)

/-! ## Deletion of the last node inserted, and of one that never was -/

section Delete

variable [DecidableEq α] {comp : α → α → Int} {s : RbTree α} {t : ColorTree α} {x : α}

omit [DecidableEq α] in
/-- No fix-up is needed to delete a node that has just been inserted. -/
theorem Settled.place (settled : Settled x t) :
    ∃ ctx c l r, t = plug ctx (.node c l x r) ∧ DeleteSafe ctx c l x r := by
  rcases settled with ⟨ctx, rfl⟩ | ⟨ctx, a, b, rfl⟩ | rfl
  · exact ⟨ctx, .red, .nil, .nil, rfl, fun _ _ _ black => (nomatch black), fun left => absurd rfl left⟩
  · refine ⟨ctx, .black, _, _, rfl, fun none => ?_, fun _ _ ctx' c' y r' place => ?_⟩
    · rcases none with left | right
      · cases left
      · cases right
    · cases place
      exact fun _ _ black => (nomatch black)
  · exact ⟨[], .black, .nil, .nil, rfl, fun _ _ _ _ => trivial, fun left => absurd rfl left⟩

theorem Settled.delete (settled : Settled x t) (inv : RbInv comp s t) {fuel : Nat}
    (enough : t.inorder.length < fuel) : ∃ s' t', rbDelete fuel s x = .ok s' ∧ RbInv comp s' t' ∧
      t'.inorder = t.inorder.erase x := by
  obtain ⟨ctx, c, l, r, rfl, safe⟩ := settled.place
  obtain ⟨bound, small, spec⟩ := rbDelete_spec inv.rep inv.valid
  obtain ⟨-, short⟩ | ⟨-, notSafe⟩ | ⟨s', T, run, rep', valid', order, -⟩ := spec fuel
  · omega
  · exact absurd safe notSafe
  · refine ⟨s', T, run, ⟨rep', valid'.2 safe, ?_⟩, order⟩
    rw [order]
    exact inv.ordered.sublist List.erase_sublist

/-- **A node that is inserted and then deleted** leaves a red-black tree of the others in
their order. -/
theorem insert_delete (law : Comparison comp) (inv : RbInv comp s t) (new : x ∉ t.inorder) {fuel : Nat}
    (enough : t.inorder.length + 1 < fuel) : ∃ s₁ s₂ t₂, rbInsert comp fuel s x = .ok s₁ ∧
      rbDelete fuel s₁ x = .ok s₂ ∧ RbInv comp s₂ t₂ ∧ t₂.inorder = t.inorder := by
  have sorted : t.inorder.Pairwise fun a b => comp x a < 0 → comp x b < 0 :=
    inv.ordered.imp fun le less => law.below less le
  obtain ⟨s₁, T, -, -, run, rep, -, -, -, -, -, settled⟩ :=
    rbInsert_spec inv.rep inv.valid new sorted (by omega : t.inorder.length < fuel)
  obtain ⟨s₁', t₁, low, high, run', inv₁, before_, after_, -, -⟩ := inserts law inv new fuel (by omega)
  rw [run] at run'
  cases run'
  rw [rep.unique inv₁.rep] at settled
  have length : t₁.inorder.length = t.inorder.length + 1 := by
    rw [after_, before_]
    simp only [List.length_append, List.length_cons]
    omega
  obtain ⟨s₂, t₂, deleted, inv₂, order⟩ := settled.delete inv₁ (by omega : t₁.inorder.length < fuel)
  refine ⟨s₁, s₂, t₂, run, deleted, inv₂, ?_⟩
  have distinct := inv₁.rep.distinct
  rw [after_] at distinct
  rw [order, after_, erase_middle distinct, before_]

/-- **`rb_delete` takes a node that is not in the tree for its root.** -/
theorem rbDelete_detached (fuel : Nat) (detached : s.nodes x = zeroNode) :
    ∃ s', rbDelete fuel s x = .ok s' ∧ s'.root = none := by
  have missing : (s.nodes x).left = none ∨ (s.nodes x).right = none := .inl (congrArg RbNode.left detached)
  have unlink : unlinkSub fuel s x = .ok (rbSubstitue s x none) := by
    simp [unlinkSub, rbColor, detached, zeroNode]
    rfl
  refine ⟨rbSubstitue s x none, ?_, ?_⟩
  · rw [rbDelete, if_pos missing, ok_bind]
    dsimp only
    rw [unlink, ok_bind, if_neg (not_not.2 rfl)]
  · simp [rbSubstitue, rbMakeOrphan, hang, detached, zeroNode, replaceChild, RbTree.set, RbTree.setParent]

end Delete

end Minus.Lib.Rbtree
