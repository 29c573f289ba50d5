/-
# Mm.BuddyAlloc — what an allocation takes and what a range gives

The contracts of `buddy_alloc_pages` and `buddy_free_pages_range` in terms of the free
pages: an allocation takes one block of the least order that fits, out of any free block that is
large enough, and a range adds its whole pages.

A page frame number is a `size_t` of 32 bits.  So the pages of a range have to be numbered
below 2^32, and `nr_pages` cannot say that there are 2^32 of them (`Countable`).
-/
import Minus.Mm.BuddyCanonical
import Mathlib.Order.Bounds.Basic

namespace Minus.Mm.Buddy

set_option autoImplicit false

open Minus.Theory Minus.Lib.Dlist

/-! ## The order of a size -/

/-- The orders whose blocks hold `size` bytes, and one byte at least. -/
def orderFits (size : UInt32) : Set Nat := {k | max size.toNat 1 ≤ 2 ^ k * pageSize}

theorem orderLoop_spec (pages order : Nat) (start : order ≤ buddyMaxOrder) :
    order ≤ orderLoop pages order ∧ orderLoop pages order ≤ buddyMaxOrder ∧
      (∀ j, order ≤ j → j < orderLoop pages order → 2 ^ j < pages) ∧
      (orderLoop pages order < buddyMaxOrder → pages ≤ 2 ^ orderLoop pages order) := by
  fun_induction orderLoop pages order with
  | case1 order more ih =>
      obtain ⟨above, le, smaller, enough⟩ := ih more.2
      refine ⟨by omega, le, fun j from_ below => ?_, enough⟩
      rcases Nat.eq_or_lt_of_le from_ with rfl | later
      · exact more.1
      · exact smaller j later below
  | case2 order stop =>
      exact ⟨Nat.le_refl _, start, fun j from_ below => absurd from_ (by omega), fun below => by
        rw [not_and_or] at stop
        omega⟩

theorem mem_orderFits {size : UInt32} {k : Nat} :
    k ∈ orderFits size ↔ (size.toNat + (pageSize - 1)) / pageSize ≤ 2 ^ k := by
  have positive := Nat.two_pow_pos k
  unfold orderFits pageSize pageShift
  rw [Set.mem_ofPred_eq]
  omega

/-- **`get_order`** is the least order that fits, up to 4 MiB. -/
theorem getOrder_isLeast {size : UInt32} (small : size.toNat ≤ 2 ^ 10 * pageSize) :
    IsLeast (orderFits size) (getOrder size) ∧ getOrder size < buddyMaxOrder := by
  obtain ⟨-, le, smaller, enough⟩ := orderLoop_spec ((size.toNat + (pageSize - 1)) / pageSize) 0 (Nat.zero_le _)
  have pages : (size.toNat + (pageSize - 1)) / pageSize ≤ 2 ^ 10 := by
    unfold pageSize pageShift at *
    omega
  have below : getOrder size < buddyMaxOrder := by
    rcases Nat.eq_or_lt_of_le le with top | below
    · -- order 10 would have been enough
      have := smaller 10 (Nat.zero_le _) (by rw [top]; decide)
      omega
    · exact below
  refine ⟨⟨mem_orderFits.2 (enough below), fun j fits => ?_⟩, below⟩
  by_contra less
  have := smaller j (Nat.zero_le j) (Nat.not_le.1 less)
  have := mem_orderFits.1 fits
  omega

/-- Beyond 4 MiB there is no order. -/
theorem getOrder_large {size : UInt32} (large : 2 ^ 10 * pageSize < size.toNat) : getOrder size = buddyMaxOrder := by
  obtain ⟨-, le, -, enough⟩ := orderLoop_spec ((size.toNat + (pageSize - 1)) / pageSize) 0 (Nat.zero_le _)
  rcases Nat.eq_or_lt_of_le le with top | below
  · exact top
  · exfalso
    have fits := enough below
    have smaller : 2 ^ orderLoop ((size.toNat + (pageSize - 1)) / pageSize) 0 ≤ 2 ^ 10 :=
      Nat.pow_le_pow_right Nat.two_pos (Nat.lt_succ_iff.1 below)
    unfold pageSize pageShift at *
    omega

/-- The search ends below the top exactly if an order from there on has a free block. -/
theorem findOrder_lt_iff (s : BuddyState) (order : Nat) :
    findOrder s order < buddyMaxOrder ↔ ∃ j, order ≤ j ∧ j < buddyMaxOrder ∧ s.nrFree j ≠ 0 := by
  fun_induction findOrder s order with
  | case1 order more ih =>
      rw [ih]
      constructor
      · rintro ⟨j, from_, below, some_⟩
        exact ⟨j, by omega, below, some_⟩
      · rintro ⟨j, from_, below, some_⟩
        rcases Nat.eq_or_lt_of_le from_ with rfl | later
        · exact absurd more.2 some_
        · exact ⟨j, later, below, some_⟩
  | case2 order stop =>
      constructor
      · exact fun below => ⟨order, Nat.le_refl _, below, fun zero => stop ⟨below, zero⟩⟩
      · rintro ⟨j, from_, below, -⟩
        omega

/-! ## Allocation -/

section Alloc

variable {s : BuddyState} {lists : Nat → List Pfn} {held : List (Pfn × Nat)} {fed : Set Nat}

/-- A block was taken out of the free pages. -/
structure Taken (s s' : BuddyState) (page : Pfn) (k : Nat) : Prop where
  aligned : 2 ^ k ∣ page
  free : dyadic (page, k) ⊆ freePages s
  left : freePages s' = freePages s \ dyadic (page, k)
  order : (s'.pages page).order = k

/-- There is a free block of the order, or of a higher one. -/
def HasBlock (s : BuddyState) (k : Nat) : Prop := ∃ j, k ≤ j ∧ j < buddyMaxOrder ∧ (freeSet s j).Nonempty

theorem BuddyInv.hasBlock_iff (inv : BuddyInv s lists held [] fed) (k : Nat) :
    HasBlock s k ↔ findOrder s k < buddyMaxOrder := by
  rw [findOrder_lt_iff]
  apply exists_congr
  intro j
  apply and_congr_right
  intro _
  apply and_congr_right
  intro below
  rw [Ne, inv.nrFree_zero_iff below]
  constructor
  · rintro ⟨p, free⟩ empty
    have member := (inv.mem_freeSet below).1 free
    rw [empty] at member
    cases member
  · intro some_
    obtain ⟨p, member⟩ := List.exists_mem_of_ne_nil _ some_
    exact ⟨p, (inv.mem_freeSet below).2 member⟩

/-- A block handed out was free, and the other free pages still are. -/
theorem BuddyInv.taken {s' : BuddyState} {lists' : Nat → List Pfn} {page k : Nat}
    (inv : BuddyInv s lists held [] fed) (inv' : BuddyInv s' lists' ((page, k) :: held) [] fed) :
    Taken s s' page k := by
  obtain ⟨-, aligned, order⟩ := inv'.heldOrder (page, k) List.mem_cons_self
  have inside : dyadic (page, k) ⊆ fed := inv'.tiles.subset List.mem_cons_self
  have apart : ∀ b ∈ held, Disjoint (dyadic (page, k)) (dyadic b) := fun b member =>
    inv'.tiles.disjoint_of_mem (List.mem_append_left _ member)
  refine ⟨aligned, fun q here => ?_, ?_, order⟩
  · exact inv.mem_freePages.2 ⟨inside here, fun b member => Set.disjoint_left.1 (apart b member) here⟩
  · ext q
    rw [Set.mem_sdiff, inv.mem_freePages, inv'.mem_freePages, List.forall_mem_cons, and_assoc]
    exact and_congr_right fun _ => and_comm

/-- **`buddy_alloc_pages`**: a block of the least order that fits, if the size is at most
4 MiB and a free block is large enough; else NULL, and nothing changes. -/
theorem BuddyInv.alloc_result (inv : BuddyInv s lists held [] fed) (size : UInt32) :
    (∀ k, IsLeast (orderFits size) k → size.toNat ≤ 2 ^ 10 * pageSize → HasBlock s k →
      ∃ page lists', (buddyAllocPages s size).2 = some page ∧ Taken s (buddyAllocPages s size).1 page k ∧
        BuddyInv (buddyAllocPages s size).1 lists' ((page, k) :: held) [] fed) ∧
    ((∀ k, IsLeast (orderFits size) k → ¬ (size.toNat ≤ 2 ^ 10 * pageSize ∧ HasBlock s k)) →
      buddyAllocPages s size = (s, none)) := by
  constructor
  · intro k least small block
    obtain rfl : k = getOrder size := least.unique (getOrder_isLeast small).1
    have found := (inv.hasBlock_iff _).1 block
    rcases inv.alloc size with none_ | ⟨page, lists', returned, after⟩
    · -- the search has found a list that is not empty
      exfalso
      obtain ⟨page, -, first⟩ := inv.found found
      have answer := congrArg Prod.snd none_
      unfold buddyAllocPages at answer
      dsimp only at answer
      rw [if_pos found, first] at answer
      cases answer
    · exact ⟨page, lists', returned, inv.taken after, after⟩
  · intro nothing
    have none_ : ¬ findOrder s (getOrder size) < buddyMaxOrder := by
      by_cases small : size.toNat ≤ 2 ^ 10 * pageSize
      · obtain ⟨least, -⟩ := getOrder_isLeast small
        exact fun found => nothing _ least ⟨small, (inv.hasBlock_iff _).2 found⟩
      · rw [findOrder_lt_iff, getOrder_large (Nat.not_le.1 small)]
        rintro ⟨j, from_, below, -⟩
        omega
    unfold buddyAllocPages
    dsimp only
    rw [if_neg none_]

/-! ## Ranges -/

/-- **`buddy_free_pages_range`** makes the whole pages of the range free. -/
theorem BuddyInv.freePagesRange_result (inv : BuddyInv s lists held [] fed) {base size : UInt64}
    (countable : Countable base size) (outside : Disjoint fed (rangePages base size)) :
    freePages (buddyFreePagesRange s base size) = freePages s ∪ rangePages base size := by
  obtain ⟨lists', inv'⟩ := inv.freePagesRange countable outside
  ext q
  rw [Set.mem_union, inv.mem_freePages, inv'.mem_freePages, Set.mem_union]
  constructor
  · rintro ⟨old | new, untaken⟩
    · exact .inl ⟨old, untaken⟩
    · exact .inr new
  · rintro (⟨old, untaken⟩ | new)
    · exact ⟨.inl old, untaken⟩
    · refine ⟨.inr new, fun b member here => ?_⟩
      have isFed := inv.tiles.subset (List.mem_append_right [] (List.mem_append_left _ member)) here
      exact Set.disjoint_left.1 outside isFed new

end Alloc

/-- **What an allocation takes and what a range gives.**  A range adds its whole pages,
if the allocator does not have them yet and their numbers and their count are 32-bit. -/
theorem buddy_alloc_and_range {s : BuddyState} {lists : Nat → List Pfn} {held : List (Pfn × Nat)}
    {fed : Set Nat} (inv : BuddyInv s lists held [] fed) :
    (∀ size : UInt32,
      (∀ k, IsLeast (orderFits size) k → size.toNat ≤ 2 ^ 10 * pageSize → HasBlock s k →
        ∃ page lists', (buddyAllocPages s size).2 = some page ∧ Taken s (buddyAllocPages s size).1 page k ∧
          BuddyInv (buddyAllocPages s size).1 lists' ((page, k) :: held) [] fed) ∧
      ((∀ k, IsLeast (orderFits size) k → ¬ (size.toNat ≤ 2 ^ 10 * pageSize ∧ HasBlock s k)) →
        buddyAllocPages s size = (s, none))) ∧
    ∀ base size : UInt64, Countable base size → Disjoint fed (rangePages base size) →
      freePages (buddyFreePagesRange s base size) = freePages s ∪ rangePages base size :=
  ⟨fun size => inv.alloc_result size, fun _ _ countable outside => inv.freePagesRange_result countable outside⟩

/-- The allocator after `buddy_init`. -/
def emptyBuddy : BuddyState := buddyInit ⟨fun _ => ⟨0, false, false⟩, ⟨id, id⟩, fun _ => 0, false⟩

theorem emptyBuddy_inv : ∃ lists, BuddyInv emptyBuddy lists [] [] ∅ := by
  obtain ⟨lists, inv⟩ := runInv_boot (s := ⟨fun _ => ⟨0, false, false⟩, ⟨id, id⟩, fun _ => 0, false⟩)
    (fun _ => rfl) rfl
  have none_ : fedPages (BuddyRun.boot ⟨fun _ => ⟨0, false, false⟩, ⟨id, id⟩, fun _ => 0, false⟩).fed = ∅ := by
    ext q
    simp [fedPages, BuddyRun.boot]
  rw [none_] at inv
  exact ⟨lists, inv⟩

/-- Sixteen pages, of which five are asked for. -/
theorem buddy_alloc_and_range_sixteen :
    let s := buddyFreePagesRange emptyBuddy 0x40000000 0x10000
    freePages s = rangePages 0x40000000 0x10000 ∧
      ∃ page, (buddyAllocPages s 0x5000).2 = some page ∧ Taken s (buddyAllocPages s 0x5000).1 page 3 := by
  intro s
  obtain ⟨lists, inv⟩ := emptyBuddy_inv
  have given := (buddy_alloc_and_range inv).2 0x40000000 0x10000 ⟨by decide, by decide⟩ (by simp)
  have none_ : freePages emptyBuddy = ∅ := by
    ext q
    rw [inv.mem_freePages]
    simp
  obtain ⟨lists', inv'⟩ : ∃ lists', BuddyInv s lists' [] [] (∅ ∪ rangePages 0x40000000 0x10000) :=
    inv.freePagesRange ⟨by decide, by decide⟩ (by simp)
  have least : IsLeast (orderFits 0x5000) 3 := by
    refine ⟨by simp [orderFits, pageSize, pageShift], fun k fits => Nat.le_of_not_lt fun below => ?_⟩
    have small : 2 ^ k ≤ 2 ^ 2 := Nat.pow_le_pow_right Nat.two_pos (Nat.le_of_lt_succ below)
    simp only [orderFits, pageSize, pageShift, Set.mem_ofPred_eq, UInt32.reduceToNat] at fits
    omega
  -- the sixteen pages are one block
  have block : HasBlock s 3 := by
    refine ⟨4, by decide, by decide, 0x40000, [.page 0x40000], ?_, List.mem_singleton_self _⟩
    exact ⟨⟨⟨by decide +kernel, by decide +kernel⟩, by decide +kernel, by decide +kernel⟩, by decide⟩
  obtain ⟨page, -, returned, taken, -⟩ := ((buddy_alloc_and_range inv').1 0x5000).1 3 least (by decide) block
  exact ⟨by rw [given, none_, Set.empty_union], page, returned, taken⟩

/-- **The page at 2^44 has no page frame number**: page 0 is made free in its place. -/
theorem high_page_freed_elsewhere :
    ∃ lists, BuddyInv emptyBuddy lists [] [] ∅ ∧ (2 ^ 32 : Nat) ∈ rangePages 0x100000000000 0x1000 ∧
      0x100000000000 + 0x1000 < 2 ^ 64 ∧
      freePages (buddyFreePagesRange emptyBuddy 0x100000000000 0x1000) ≠
        freePages emptyBuddy ∪ rangePages 0x100000000000 0x1000 := by
  obtain ⟨lists, inv⟩ := emptyBuddy_inv
  have page : (2 ^ 32 : Nat) ∈ rangePages 0x100000000000 0x1000 := ⟨by decide, by decide⟩
  refine ⟨lists, inv, page, by decide, fun same => ?_⟩
  have zero : buddyFreePagesRange emptyBuddy 0x100000000000 0x1000 = buddyFreePagesRange emptyBuddy 0 0x1000 := rfl
  have countable : Countable 0 0x1000 := ⟨by decide, by decide⟩
  obtain ⟨lists', inv'⟩ := inv.freePagesRange countable (by simp)
  have free : (2 ^ 32 : Nat) ∈ freePages (buddyFreePagesRange emptyBuddy 0 0x1000) := by
    rw [← zero, same]
    exact .inr page
  exact absurd (inv'.bounded _ (inv'.mem_freePages.1 free).1) (Nat.lt_irrefl _)

end Minus.Mm.Buddy
