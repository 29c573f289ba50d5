/-
# Fs.CacheFind — the trees of the two caches

The buffer cache and the inode cache keep their objects in red-black trees of
`Lib.Rbtree`, each in an order of its own.  `rb_insert_correct` is what insertion does to
any such tree, and what `bcache_find` and `inode_find` find after insertions.
-/
import Mathlib.Data.List.Perm.Subperm
import Minus.Fs.BcacheRun
import Minus.Fs.Icache

namespace Minus.Fs

set_option autoImplicit false

open Minus.Theory Minus.Lib.Rbtree

universe u

/-! ## The two orders -/

namespace Bcache

theorem bcacheCmp_le {a b : BufferHead} : bcacheCmp a b ≤ 0 ↔ a.rank ≤ b.rank := by
  rw [le_iff_lt_or_eq, le_iff_lt_or_eq, bcacheCmp_neg, bcacheCmp_eq_zero, BufferHead.rank_eq_iff]

theorem bcacheCmp_comparison : Comparison bcacheCmp where
  flip a b := by rw [bcacheCmp_le, ← not_lt, ← not_lt, bcacheCmp_neg]
  trans a b c := by
    rw [bcacheCmp_le, bcacheCmp_le, bcacheCmp_le]
    exact le_trans

theorem findLoop_eq (s : State) (keyBh : BufferHead) (fuel : Nat) (node : Option Bh) :
    findLoop s keyBh fuel node = rbFind (fun b => bcacheCmp keyBh (s.heads b)) s.gBcacheTree fuel node := by
  induction fuel generalizing node with
  | zero => cases node <;> rfl
  | succ fuel ih =>
      cases node with
      | none => rfl
      | some b =>
          rw [findLoop, rbFind]
          split
          · rfl
          · exact ih _

end Bcache

namespace Icache

/-- The place of a key in the order of `inode_cmp`. -/
def InodeKey.rank (k : InodeKey) : ℕ ×ₗ ℕ := toLex (k.iSb.toNat, k.iIno.toNat)

theorem inodeCmp_le {a b : InodeKey} : inodeCmp a b ≤ 0 ↔ a.rank ≤ b.rank := by
  unfold inodeCmp InodeKey.rank
  rw [Prod.Lex.toLex_le_toLex]
  simp only [ne_eq, ← UInt64.toNat_inj, gt_iff_lt, UInt64.lt_iff_toNat_lt]
  split
  · split <;> omega
  · split
    · omega
    · split <;> omega

theorem inodeCmp_ge {a b : InodeKey} : 0 ≤ inodeCmp a b ↔ b.rank ≤ a.rank := by
  unfold inodeCmp InodeKey.rank
  rw [Prod.Lex.toLex_le_toLex]
  simp only [ne_eq, ← UInt64.toNat_inj, gt_iff_lt, UInt64.lt_iff_toNat_lt]
  split
  · split <;> omega
  · split
    · omega
    · split <;> omega

theorem inodeCmp_comparison : Comparison inodeCmp where
  flip a b := by rw [inodeCmp_le, inodeCmp_ge]
  trans a b c := by
    rw [inodeCmp_le, inodeCmp_le, inodeCmp_le]
    exact le_trans

theorem inodeCmp_eq_zero {a b : InodeKey} : inodeCmp a b = 0 ↔ a = b := by
  have le := @inodeCmp_le a b
  have ge := @inodeCmp_ge a b
  have both : inodeCmp a b = 0 ↔ a.rank = b.rank := by
    rw [le_antisymm_iff, le, ge, ← le_antisymm_iff]
  rw [both, InodeKey.rank, InodeKey.rank, toLex.injective.eq_iff, Prod.mk.injEq, UInt64.toNat_inj, UInt64.toNat_inj,
    InodeKey.ext_iff]

end Icache

/-! ## Insertion and search -/

/-- After the insertion of these buffers `bcache_find` gives one with the key exactly if there
is one. -/
def BcacheFinds (s : Bcache.State) (nodes : List Bcache.Bh) : Prop :=
  ∃ tree, rbInserts s.comp s.fuel s.gBcacheTree nodes = .ok tree ∧ ∀ bdev block, ∃ r,
    Bcache.bcacheFind { s with gBcacheTree := tree } bdev block = .ok r ∧
      (∀ bh, r = some bh → bh ∈ nodes ∧ (s.heads bh).place = (bdev, block)) ∧
      (r = none → ∀ bh ∈ nodes, (s.heads bh).place ≠ (bdev, block))

/-- And so does `inode_find`. -/
def InodeFinds (s : Icache.State) (nodes : List Icache.Id) : Prop :=
  ∃ tree, rbInserts s.comp s.fuel s.gInodeTree nodes = .ok tree ∧ ∀ sb ino, ∃ r,
    Icache.inodeFind { s with gInodeTree := tree } sb ino = .ok r ∧
      (∀ p, r = some p → p ∈ nodes ∧ (s.inodes p).toInodeKey = ⟨sb, ino⟩) ∧
      (r = none → ∀ p ∈ nodes, (s.inodes p).toInodeKey ≠ ⟨sb, ino⟩)

theorem bcacheFinds {s : Bcache.State} {nodes : List Bcache.Bh} (empty : s.gBcacheTree.root = none)
    (distinct : nodes.Nodup) (live : nodes ⊆ s.live) : BcacheFinds s nodes := by
  have short : nodes.length ≤ s.fuel := (List.subperm_of_subset distinct live).length_le.trans (Nat.le_succ _)
  obtain ⟨tree, run, found⟩ := inserted_found Bcache.bcacheCmp_comparison s.heads empty distinct short
  refine ⟨tree, run, fun bdev block => ?_⟩
  obtain ⟨r, here, some_, none_⟩ := found ⟨block, 0, 0, false, 0, bdev⟩
  refine ⟨r, ?_, fun bh is => ?_, fun nothing bh inside same => ?_⟩
  · exact (Bcache.findLoop_eq { s with gBcacheTree := tree } _ _ _).trans here
  · obtain ⟨inside, equal⟩ := some_ bh is
    exact ⟨inside, (Bcache.bcacheCmp_eq_zero.1 equal).symm⟩
  · exact none_ nothing bh inside (Bcache.bcacheCmp_eq_zero.2 same.symm)

theorem inodeFinds {s : Icache.State} {nodes : List Icache.Id} (empty : s.gInodeTree.root = none)
    (distinct : nodes.Nodup) (live : nodes ⊆ s.live) : InodeFinds s nodes := by
  have short : nodes.length ≤ s.fuel :=
    (List.subperm_of_subset distinct live).length_le.trans (Nat.le_add_right s.live.length 3)
  obtain ⟨tree, run, found⟩ :=
    inserted_found Icache.inodeCmp_comparison (fun p => (s.inodes p).toInodeKey) empty distinct short
  refine ⟨tree, run, fun sb ino => ?_⟩
  obtain ⟨r, here, some_, none_⟩ := found ⟨sb, ino⟩
  refine ⟨r, ?_, fun p is => ?_, fun nothing p inside same => ?_⟩
  · show Icache.onTree (rbFind _ tree s.fuel tree.root) = _
    rw [here]
    rfl
  · obtain ⟨inside, equal⟩ := some_ p is
    exact ⟨inside, (Icache.inodeCmp_eq_zero.1 equal).symm⟩
  · exact none_ nothing p inside (Icache.inodeCmp_eq_zero.2 same.symm)

/-- **Insertion, and the searches after it.**  `rb_insert` keeps every red-black tree in the
order of its comparison; and after any nodes were inserted into an empty tree, `bcache_find`
and `inode_find` give a node with the key exactly if one was inserted. -/
theorem rb_insert_correct :
    (∀ (α : Type u) [DecidableEq α] (comp : α → α → Int) (s : RbTree α) (t : ColorTree α) (node : α),
      Comparison comp → RbInv comp s t → node ∉ t.inorder → Inserts comp s t node) ∧
    (∀ (s : Bcache.State) (nodes : List Bcache.Bh), s.gBcacheTree.root = none → nodes.Nodup → nodes ⊆ s.live →
      BcacheFinds s nodes) ∧
    (∀ (s : Icache.State) (nodes : List Icache.Id), s.gInodeTree.root = none → nodes.Nodup → nodes ⊆ s.live →
      InodeFinds s nodes) :=
  ⟨fun _ _ _ _ _ _ law inv new => inserts law inv new, fun _ _ => bcacheFinds, fun _ _ => inodeFinds⟩

/-- 4 goes behind all nodes of `leftLeaf`, and three inodes of one super block are found. -/
theorem rb_insert_correct_small : Inserts byKey ⟨some 1, leftLeafNodes⟩ leftLeaf 4 ∧
    InodeFinds ⟨fun p => { Icache.zeroInode with iIno := UInt64.ofNat p }, [5, 3, 7], [], ⟨none, fun _ => zeroNode⟩,
      ⟨fun p => p, fun p => p⟩⟩ [5, 3, 7] := by
  have law : Comparison byKey := ⟨fun a b => by unfold byKey; omega, fun a b c => by unfold byKey; omega⟩
  exact ⟨rb_insert_correct.{0}.1 Nat byKey _ _ 4 law leftLeaf_inv (by decide),
    rb_insert_correct.{0}.2.2 _ [5, 3, 7] rfl (by decide) fun _ inside => inside⟩

end Minus.Fs
