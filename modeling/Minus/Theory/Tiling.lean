/-
# Theory.Tiling — blocks that make up a region, and dyadic blocks

`Tiles extent blocks region` says that the extents of a list of blocks are
pairwise disjoint and that their union is the region: nothing is lost and
nothing is covered twice.  The order of the list does not matter, a new block
may be laid beside the region, and a block may be cut in two or two joined.

The second half is the arithmetic of aligned blocks of 2^k cells: the sibling of
such a block is found by flipping one bit, and clearing it gives their parent.
Blocks joined with their siblings as far as they go are determined by the cells
they cover (`Coalesced.ext_cells`).
-/
import Mathlib.Data.Set.Disjoint
import Mathlib.Data.Set.Pairwise.Basic
import Mathlib.Order.CompletePartialOrder
import Mathlib.Order.Interval.Set.Disjoint
import Mathlib.Data.List.Pairwise
import Mathlib.Data.List.Perm.Basic
import Mathlib.Data.Nat.Bitwise
import Mathlib.Tactic.Ring

namespace Minus.Theory

set_option autoImplicit false

universe u v

section Tiles

variable {ι : Type u} {α : Type v} {extent : ι → Set α} {blocks rest : List ι} {region : Set α}

/-- The blocks are pairwise disjoint and make up the region. -/
structure Tiles (extent : ι → Set α) (blocks : List ι) (region : Set α) : Prop where
  apart : blocks.Pairwise fun b c => Disjoint (extent b) (extent c)
  mem_iff : ∀ x, x ∈ region ↔ ∃ b ∈ blocks, x ∈ extent b

namespace Tiles

theorem nil : Tiles extent [] ∅ := ⟨List.Pairwise.nil, by simp⟩

theorem perm {blocks' : List ι} (tiles : Tiles extent blocks region) (same : blocks.Perm blocks') :
    Tiles extent blocks' region where
  apart := (same.pairwise_iff fun h => h.symm).1 tiles.apart
  mem_iff x := by simp only [tiles.mem_iff, same.mem_iff]

theorem subset {b : ι} (tiles : Tiles extent blocks region) (member : b ∈ blocks) :
    extent b ⊆ region := fun x inside => (tiles.mem_iff x).2 ⟨b, member, inside⟩

theorem disjoint_of_mem {b c : ι} (tiles : Tiles extent (b :: rest) region) (member : c ∈ rest) :
    Disjoint (extent b) (extent c) :=
  (List.pairwise_cons.1 tiles.apart).1 c member

theorem disjoint_of_ne {b c : ι} (tiles : Tiles extent blocks region) (member : b ∈ blocks)
    (member' : c ∈ blocks) (ne : b ≠ c) : Disjoint (extent b) (extent c) :=
  have : Std.Symm fun b c => Disjoint (extent b) (extent c) := ⟨fun _ _ apart => apart.symm⟩
  tiles.apart.forall member member' ne

/-- A block outside the region extends it. -/
theorem lay {b : ι} (tiles : Tiles extent blocks region) (outside : Disjoint region (extent b)) :
    Tiles extent (b :: blocks) (region ∪ extent b) where
  apart := List.pairwise_cons.2
    ⟨fun _ member => (outside.mono_left (tiles.subset member)).symm, tiles.apart⟩
  mem_iff x := by
    simp only [Set.mem_union, tiles.mem_iff, List.exists_mem_cons_iff]
    exact or_comm

theorem join {b c d : ι} (tiles : Tiles extent (b :: c :: rest) region)
    (whole : extent d = extent b ∪ extent c) : Tiles extent (d :: rest) region where
  apart := by
    obtain ⟨ofB, apart⟩ := List.pairwise_cons.1 tiles.apart
    obtain ⟨ofC, apart⟩ := List.pairwise_cons.1 apart
    refine List.pairwise_cons.2 ⟨fun e member => ?_, apart⟩
    rw [whole, Set.disjoint_union_left]
    exact ⟨ofB e (List.mem_cons_of_mem _ member), ofC e member⟩
  mem_iff x := by
    simp only [tiles.mem_iff, List.exists_mem_cons_iff, whole, Set.mem_union, or_assoc]

theorem cut {b c d : ι} (tiles : Tiles extent (d :: rest) region)
    (whole : extent d = extent b ∪ extent c) (halves : Disjoint (extent b) (extent c)) :
    Tiles extent (b :: c :: rest) region where
  apart := by
    obtain ⟨ofD, apart⟩ := List.pairwise_cons.1 tiles.apart
    have parts : ∀ e ∈ rest, Disjoint (extent b) (extent e) ∧ Disjoint (extent c) (extent e) :=
      fun e member => Set.disjoint_union_left.1 (whole ▸ ofD e member)
    refine List.pairwise_cons.2 ⟨fun e member => ?_,
      List.pairwise_cons.2 ⟨fun e member => (parts e member).2, apart⟩⟩
    rcases List.mem_cons.1 member with rfl | member
    · exact halves
    · exact (parts e member).1
  mem_iff x := by
    simp only [tiles.mem_iff, List.exists_mem_cons_iff, whole, Set.mem_union, or_assoc]

end Tiles

/-- One more element on the list of `k` is one more element of the concatenation. -/
theorem flatMap_update_cons {κ β : Type} [DecidableEq κ] {keys : List κ} (nodup : keys.Nodup)
    (f : κ → List β) {k : κ} (member : k ∈ keys) (x : β) :
    (keys.flatMap (Function.update f k (x :: f k))).Perm (x :: keys.flatMap f) := by
  induction keys with
  | nil => cases member
  | cons key keys ih =>
      obtain ⟨absent, nodup⟩ := List.nodup_cons.1 nodup
      rw [List.flatMap_cons, List.flatMap_cons]
      by_cases here : key = k
      · subst here
        have same : keys.flatMap (Function.update f key (x :: f key)) = keys.flatMap f := by
          refine List.flatMap_congr fun i inside => ?_
          rw [Function.update_of_ne (ne_of_mem_of_not_mem inside absent)]
        rw [Function.update_self, same, List.cons_append]
      · have inside : k ∈ keys := (List.mem_cons.1 member).resolve_left (Ne.symm here)
        rw [Function.update_of_ne here]
        exact ((ih nodup inside).append_left (f key)).trans List.perm_middle

end Tiles

/-! ## Dyadic blocks -/

section Dyadic

/-- The `2^order` cells from `start` on. -/
def dyadic (b : Nat × Nat) : Set Nat := Set.Ico b.1 (b.1 + 2 ^ b.2)

variable {start order : Nat}

theorem mem_dyadic {x : Nat} : x ∈ dyadic (start, order) ↔ start ≤ x ∧ x < start + 2 ^ order :=
  Iff.rfl

theorem start_mem_dyadic (start order : Nat) : start ∈ dyadic (start, order) :=
  ⟨le_rfl, Nat.lt_add_of_pos_right (Nat.two_pow_pos order)⟩

/-- Distinct blocks of disjoint extents start at different cells. -/
theorem start_ne_of_disjoint {start' order' : Nat}
    (apart : Disjoint (dyadic (start, order)) (dyadic (start', order'))) : start ≠ start' := by
  rintro rfl
  exact Set.disjoint_left.1 apart (start_mem_dyadic start order) (start_mem_dyadic start order')

theorem xor_one (m : Nat) : m ^^^ 1 = if m % 2 = 0 then m + 1 else m - 1 := by
  split
  · exact Nat.xor_one_of_even (Nat.even_iff.2 ‹_›)
  · exact Nat.xor_one_of_odd (Nat.odd_iff.2 (by omega))

theorem and_xor_one (m : Nat) : m &&& (m ^^^ 1) = 2 * (m / 2) := by
  apply Nat.eq_of_testBit_eq
  intro i
  cases i with
  | zero =>
      simp
      omega
  | succ i =>
      rw [Nat.testBit_and, Nat.testBit_xor, Nat.testBit_succ, Nat.testBit_succ, Nat.testBit_succ]
      simp

/-- Flipping bit `order` of an aligned start. -/
theorem xor_two_pow (m order : Nat) : 2 ^ order * m ^^^ 2 ^ order = 2 ^ order * (m ^^^ 1) := by
  have shifted := Nat.shiftLeft_xor_distrib (a := m) (b := 1) (i := order)
  simp only [Nat.shiftLeft_eq, one_mul] at shifted
  rw [Nat.mul_comm, ← shifted, Nat.mul_comm]

theorem and_sibling (m order : Nat) :
    2 ^ order * m &&& 2 ^ order * (m ^^^ 1) = 2 ^ (order + 1) * (m / 2) := by
  have shifted := Nat.shiftLeft_and_distrib (a := m) (b := m ^^^ 1) (i := order)
  simp only [Nat.shiftLeft_eq] at shifted
  rw [Nat.mul_comm, Nat.mul_comm (2 ^ order) (m ^^^ 1), ← shifted, and_xor_one]
  ring

theorem dvd_parent (aligned : 2 ^ order ∣ start) :
    2 ^ (order + 1) ∣ start &&& (start ^^^ 2 ^ order) := by
  obtain ⟨m, rfl⟩ := aligned
  rw [xor_two_pow, and_sibling]
  exact Nat.dvd_mul_right _ _

theorem sibling_sibling (start order : Nat) : (start ^^^ 2 ^ order) ^^^ 2 ^ order = start :=
  Nat.xor_xor_cancel_right _ _

theorem sibling_ne (start order : Nat) : start ^^^ 2 ^ order ≠ start := by
  intro same
  have cancelled := congrArg (start ^^^ ·) same
  simp at cancelled

/-- A block and its sibling make up their parent. -/
theorem dyadic_parent (aligned : 2 ^ order ∣ start) :
    dyadic (start &&& (start ^^^ 2 ^ order), order + 1) =
      dyadic (start, order) ∪ dyadic (start ^^^ 2 ^ order, order) := by
  obtain ⟨m, rfl⟩ := aligned
  rw [xor_two_pow, and_sibling, xor_one]
  ext x
  have twice : 2 ^ (order + 1) * (m / 2) = 2 ^ order * (2 * (m / 2)) := by ring
  have double : 2 ^ (order + 1) = 2 ^ order * 2 := pow_succ 2 order
  have next : 2 ^ order * (m + 1) = 2 ^ order * m + 2 ^ order := by ring
  simp only [Set.mem_union, mem_dyadic]
  rw [twice, double]
  split
  · have even : 2 * (m / 2) = m := by omega
    rw [even, next]
    omega
  · have odd : 2 * (m / 2) = m - 1 := by omega
    have prev : 2 ^ order * m = 2 ^ order * (m - 1) + 2 ^ order := by
      rw [← Nat.mul_succ]
      congr 1
      omega
    rw [odd, prev]
    omega

/-- A block of order `order + 1` is its lower and its upper half. -/
theorem dyadic_halves (start order : Nat) :
    dyadic (start, order + 1) = dyadic (start + 2 ^ order, order) ∪ dyadic (start, order) := by
  ext x
  have double : 2 ^ (order + 1) = 2 ^ order + 2 ^ order := by ring
  simp only [Set.mem_union, mem_dyadic]
  omega

theorem halves_disjoint (start order : Nat) :
    Disjoint (dyadic (start + 2 ^ order, order)) (dyadic (start, order)) := by
  rw [Set.disjoint_left]
  intro x upper lower
  rw [mem_dyadic] at upper lower
  omega

/-- The upper half of an aligned block is the sibling of the lower half. -/
theorem upper_sibling (aligned : 2 ^ (order + 1) ∣ start) :
    (start + 2 ^ order) ^^^ 2 ^ order = start := by
  obtain ⟨m, rfl⟩ := aligned
  have odd : 2 ^ (order + 1) * m + 2 ^ order = 2 ^ order * (2 * m + 1) := by ring
  rw [odd, xor_two_pow, xor_one, if_neg (by omega), Nat.add_sub_cancel]
  ring

theorem end_mem_dyadic (start order : Nat) : start + 2 ^ order - 1 ∈ dyadic (start, order) := by
  have := Nat.two_pow_pos order
  rw [mem_dyadic]
  omega

/-- Two blocks of the same cells are the same block. -/
theorem dyadic_injective : Function.Injective dyadic := by
  rintro ⟨p, k⟩ ⟨q, j⟩ same
  have first := (Set.ext_iff.1 same p).1 (start_mem_dyadic p k)
  have first' := (Set.ext_iff.1 same q).2 (start_mem_dyadic q j)
  have last := (Set.ext_iff.1 same _).1 (end_mem_dyadic p k)
  have last' := (Set.ext_iff.1 same _).2 (end_mem_dyadic q j)
  rw [mem_dyadic] at first first' last last'
  have := Nat.two_pow_pos k
  have := Nat.two_pow_pos j
  have start : p = q := by omega
  have size : 2 ^ k = 2 ^ j := by omega
  rw [start, Nat.pow_right_injective le_rfl size]

theorem order_le_of_subset {start' order' : Nat}
    (inside : dyadic (start, order) ⊆ dyadic (start', order')) : order ≤ order' := by
  have first := inside (start_mem_dyadic start order)
  have last := inside (end_mem_dyadic start order)
  rw [mem_dyadic] at first last
  have := Nat.two_pow_pos order
  exact (Nat.pow_le_pow_iff_right (by decide)).1 (by omega : 2 ^ order ≤ 2 ^ order')

/-- Aligned blocks are nested or apart: the smaller of two that share a cell lies
in the larger. -/
theorem dyadic_subset {start' order' x : Nat} (aligned : 2 ^ order ∣ start)
    (aligned' : 2 ^ order' ∣ start') (le : order ≤ order') (mem : x ∈ dyadic (start, order))
    (mem' : x ∈ dyadic (start', order')) : dyadic (start, order) ⊆ dyadic (start', order') := by
  obtain ⟨m, rfl⟩ := aligned
  obtain ⟨n, rfl⟩ := aligned'
  obtain ⟨d, rfl⟩ := Nat.exists_eq_add_of_le le
  rw [mem_dyadic] at mem mem'
  have whole : 2 ^ (order + d) = 2 ^ order * 2 ^ d := pow_add 2 order d
  rw [whole, mul_assoc, ← Nat.mul_add] at mem'
  rw [← Nat.mul_succ] at mem
  -- In units of the smaller block, the larger one is the interval from `2 ^ d * n` on.
  have low : 2 ^ d * n < m + 1 := Nat.lt_of_mul_lt_mul_left (lt_of_le_of_lt mem'.1 mem.2)
  have high : m < 2 ^ d * n + 2 ^ d := Nat.lt_of_mul_lt_mul_left (lt_of_le_of_lt mem.1 mem'.2)
  intro y inside
  rw [mem_dyadic, ← Nat.mul_succ] at inside
  rw [mem_dyadic, whole, mul_assoc, ← Nat.mul_add]
  exact ⟨(Nat.mul_le_mul_left _ (by omega)).trans inside.1,
    inside.2.trans_le (Nat.mul_le_mul_left _ (by omega))⟩

/-- A block that covers one of order `k` is that one, or covers its parent. -/
theorem eq_or_covers {start' order' p k : Nat} (aligned : 2 ^ (k + 1) ∣ p)
    (aligned' : 2 ^ order' ∣ start') (half : dyadic (start, k) ⊆ dyadic (p, k + 1))
    (covers : dyadic (start, k) ⊆ dyadic (start', order')) :
    (start', order') = (start, k) ∨ dyadic (p, k + 1) ⊆ dyadic (start', order') := by
  rcases Nat.lt_or_ge k order' with above | equal
  · exact Or.inr (dyadic_subset aligned aligned' above (half (start_mem_dyadic start k))
      (covers (start_mem_dyadic start k)))
  · left
    have same : k = order' := le_antisymm (order_le_of_subset covers) equal
    subst same
    have first := covers (start_mem_dyadic start k)
    have last := covers (end_mem_dyadic start k)
    rw [mem_dyadic] at first last
    have := Nat.two_pow_pos k
    rw [show start' = start by omega]

end Dyadic

/-! ## Blocks joined as far as they go -/

section Coalesced

/-- Aligned disjoint blocks of order at most `top`, of which no two below the top
order are siblings. -/
structure Coalesced (top : Nat) (blocks : Set (Nat × Nat)) : Prop where
  aligned : ∀ b ∈ blocks, 2 ^ b.2 ∣ b.1
  order_le : ∀ b ∈ blocks, b.2 ≤ top
  apart : blocks.PairwiseDisjoint dyadic
  single : ∀ p k, k < top → (p, k) ∈ blocks → (p ^^^ 2 ^ k, k) ∉ blocks

/-- The cells of a set of blocks. -/
def cells (blocks : Set (Nat × Nat)) : Set Nat := {x | ∃ b ∈ blocks, x ∈ dyadic b}

namespace Coalesced

variable {top : Nat} {blocks blocks' : Set (Nat × Nat)}

theorem subset_cells {b : Nat × Nat} (member : b ∈ blocks) : dyadic b ⊆ cells blocks :=
  fun _ inside => ⟨b, member, inside⟩

/-- An aligned block of covered cells lies within one of the blocks: had its
halves come from two, these would be siblings. -/
theorem within (coalesced : Coalesced top blocks) {p k : Nat} (aligned : 2 ^ k ∣ p) (le : k ≤ top)
    (covered : dyadic (p, k) ⊆ cells blocks) : ∃ b ∈ blocks, dyadic (p, k) ⊆ dyadic b := by
  induction k generalizing p with
  | zero =>
      obtain ⟨b, member, inside⟩ := covered (start_mem_dyadic p 0)
      refine ⟨b, member, fun x here => ?_⟩
      rw [mem_dyadic] at here
      rwa [show x = p by omega]
  | succ k ih =>
      have halves := dyadic_halves p k
      have lower : dyadic (p, k) ⊆ dyadic (p, k + 1) := halves ▸ Set.subset_union_right
      have upper : dyadic (p + 2 ^ k, k) ⊆ dyadic (p, k + 1) := halves ▸ Set.subset_union_left
      have alignedLow : 2 ^ k ∣ p := (Nat.pow_dvd_pow 2 (Nat.le_succ k)).trans aligned
      have alignedHigh : 2 ^ k ∣ p + 2 ^ k := Nat.dvd_add alignedLow (dvd_refl _)
      obtain ⟨⟨q, j⟩, low, coversLow⟩ := ih alignedLow (by omega) (lower.trans covered)
      obtain ⟨⟨q', j'⟩, high, coversHigh⟩ := ih alignedHigh (by omega) (upper.trans covered)
      rcases eq_or_covers aligned (coalesced.aligned _ low) lower coversLow with same | all
      · rcases eq_or_covers aligned (coalesced.aligned _ high) upper coversHigh with same' | all
        · rw [same] at low
          rw [same'] at high
          refine absurd low ?_
          have apart := coalesced.single _ k (by omega) high
          rwa [upper_sibling aligned] at apart
        · exact ⟨_, high, all⟩
      · exact ⟨_, low, all⟩

/-- **Coalesced blocks are determined by their cells.** -/
theorem subset_of_cells (coalesced : Coalesced top blocks) (coalesced' : Coalesced top blocks')
    (same : cells blocks = cells blocks') : blocks ⊆ blocks' := by
  intro b member
  -- The block lies within one of the other family, and that one within one of ours.
  obtain ⟨c, member', outer⟩ := coalesced'.within (coalesced.aligned b member)
    (coalesced.order_le b member) (same ▸ subset_cells member)
  obtain ⟨d, again, outer'⟩ := coalesced.within (coalesced'.aligned c member')
    (coalesced'.order_le c member') (same ▸ subset_cells member')
  have here : b = d := coalesced.apart.elim_set member again b.1 (start_mem_dyadic b.1 b.2)
    (outer' (outer (start_mem_dyadic b.1 b.2)))
  subst here
  have equal : b = c := dyadic_injective (Set.Subset.antisymm outer outer')
  rwa [equal]

theorem ext_cells (coalesced : Coalesced top blocks) (coalesced' : Coalesced top blocks')
    (same : cells blocks = cells blocks') : blocks = blocks' :=
  Set.Subset.antisymm (coalesced.subset_of_cells coalesced' same)
    (coalesced'.subset_of_cells coalesced same.symm)

end Coalesced

end Coalesced

end Minus.Theory
