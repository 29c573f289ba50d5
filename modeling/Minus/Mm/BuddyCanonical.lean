/-
# Mm.BuddyCanonical — the free lists are determined by the free pages

Splits and merges cascade differently in every history of the allocator of
`kernel/mm/buddy.c`, but coalescing is maximal: no free block below the top order
has a free buddy.  A family of aligned blocks with that property is determined by
the pages it covers, so the lists of two states with the same free pages hold
the same blocks, whatever was allocated, split and merged on the way.
-/
import Minus.Mm.Buddy

namespace Minus.Mm.Buddy

set_option autoImplicit false

open Minus.Theory Minus.Lib.Dlist

/-- The blocks on the free list of an order: the pages a walk of `free_list`
from the head of the order back to it meets. -/
def freeSet (s : BuddyState) (order : Nat) : Set Pfn :=
  {p | ∃ items, s.links.Ring (.area order) items ∧ Node.page p ∈ items}

/-- The pages of the blocks on the free lists. -/
def freePages (s : BuddyState) : Set Nat :=
  {q | ∃ order < buddyMaxOrder, ∃ p ∈ freeSet s order, q ∈ dyadic (p, order)}

/-- A walk of a list that is in place. -/
theorem freeSet_of_ring {s : BuddyState} {k : Nat} {pages : List Pfn}
    (ring : s.links.Ring (.area k) (pages.map Node.page)) : freeSet s k = {p | p ∈ pages} := by
  ext p
  constructor
  · rintro ⟨items, ring', member⟩
    rw [ring'.unique ring] at member
    simpa using member
  · intro member
    exact ⟨_, ring, by simpa using member⟩

theorem freePages_eq {s : BuddyState} {lists : Nat → List Pfn}
    (free : ∀ k < buddyMaxOrder, freeSet s k = {p | p ∈ lists k}) :
    freePages s = cells {b | b ∈ freeBlocks lists} := by
  ext q
  constructor
  · rintro ⟨k, below, p, isFree, inside⟩
    rw [free k below] at isFree
    exact ⟨(p, k), mem_freeBlocks.2 ⟨below, isFree⟩, inside⟩
  · rintro ⟨⟨p, k⟩, member, inside⟩
    obtain ⟨below, isFree⟩ := mem_freeBlocks.1 member
    refine ⟨k, below, p, ?_, inside⟩
    rw [free k below]
    exact isFree

namespace BuddyInv

variable {s s' : BuddyState} {lists lists' : Nat → List Pfn} {held held' : List (Pfn × Nat)}
  {fed fed' : Set Nat}

theorem mem_freeSet (inv : BuddyInv s lists held [] fed) {k : Nat} (below : k < buddyMaxOrder)
    {p : Pfn} : p ∈ freeSet s k ↔ p ∈ lists k := by
  have ring := inv.family.ring k below
  constructor
  · rintro ⟨items, ring', member⟩
    rw [ring'.unique ring] at member
    simpa using member
  · intro member
    exact ⟨_, ring, by simpa using member⟩

theorem freePages_eq_cells (inv : BuddyInv s lists held [] fed) :
    freePages s = cells {b | b ∈ freeBlocks lists} :=
  freePages_eq fun _ below => Set.ext fun _ => inv.mem_freeSet below

/-- The free pages are the pages fed in that no block handed out covers. -/
theorem mem_freePages (inv : BuddyInv s lists held [] fed) {q : Nat} :
    q ∈ freePages s ↔ q ∈ fed ∧ ∀ b ∈ held, q ∉ dyadic b := by
  have whole := inv.tiles.mem_iff q
  have apart := (List.pairwise_append.1 (List.pairwise_append.1 inv.tiles.apart).2.1).2.2
  simp only [List.nil_append, List.mem_append] at whole
  rw [inv.freePages_eq_cells]
  constructor
  · rintro ⟨b, member, inside⟩
    exact ⟨whole.2 ⟨b, Or.inr member, inside⟩, fun c taken inside' =>
      Set.disjoint_left.1 (apart c taken b member) inside' inside⟩
  · rintro ⟨isFed, untaken⟩
    obtain ⟨b, taken | member, inside⟩ := whole.1 isFed
    · exact absurd inside (untaken b taken)
    · exact ⟨b, member, inside⟩

/-- Coalescing is maximal. -/
theorem coalesced (inv : BuddyInv s lists held [] fed) :
    Coalesced (buddyMaxOrder - 1) {b | b ∈ freeBlocks lists} where
  aligned := by
    rintro ⟨p, k⟩ member
    obtain ⟨below, free⟩ := mem_freeBlocks.1 member
    exact (inv.marked k below p free).2.2
  order_le := by
    rintro ⟨p, k⟩ member
    have below := (mem_freeBlocks.1 member).1
    exact Nat.le_sub_one_of_lt below
  apart := by
    intro b member c member' ne
    exact inv.tiles.disjoint_of_ne (List.mem_append_right _ (List.mem_append_right _ member))
      (List.mem_append_right _ (List.mem_append_right _ member')) ne
  single p k below member sibling :=
    inv.single k below p (mem_freeBlocks.1 member).2 (mem_freeBlocks.1 sibling).2

/-- **Two states with the same free pages have the same blocks on every list.** -/
theorem freeSet_eq (inv : BuddyInv s lists held [] fed) (inv' : BuddyInv s' lists' held' [] fed')
    (same : freePages s = freePages s') {k : Nat} (below : k < buddyMaxOrder) :
    freeSet s k = freeSet s' k := by
  rw [inv.freePages_eq_cells, inv'.freePages_eq_cells] at same
  have blocks := inv.coalesced.ext_cells inv'.coalesced same
  ext p
  have member := Set.ext_iff.1 blocks (p, k)
  simp only [Set.mem_ofPred_eq, mem_freeBlocks, below, true_and] at member
  rw [inv.mem_freeSet below, inv'.mem_freeSet below, member]

/-- So do two states with the same pages fed in and the same blocks handed out. -/
theorem freeSet_eq_of_held (inv : BuddyInv s lists held [] fed)
    (inv' : BuddyInv s' lists' held' [] fed) (taken : ∀ b, b ∈ held ↔ b ∈ held') {k : Nat}
    (below : k < buddyMaxOrder) : freeSet s k = freeSet s' k := by
  refine inv.freeSet_eq inv' ?_ below
  ext q
  simp only [inv.mem_freePages, inv'.mem_freePages, taken]

/-- The first page of a block handed out selects it. -/
theorem held_unique (inv : BuddyInv s lists held [] fed) : (held.map Prod.fst).Nodup := by
  have apart := (List.pairwise_append.1 (List.pairwise_append.1 inv.tiles.apart).2.1).1
  refine List.pairwise_map.2 (apart.imp ?_)
  rintro ⟨p, k⟩ ⟨q, j⟩ disjoint
  exact start_ne_of_disjoint disjoint

/-- Freeing blocks one after another gives back those blocks. -/
theorem freeAll (pages : List Pfn) (inv : BuddyInv s lists held [] fed) (nodup : pages.Nodup)
    (taken : ∀ page ∈ pages, ∃ b ∈ held, b.1 = page) :
    ∃ lists', BuddyInv (pages.foldl buddyFreePages s) lists'
      (held.filter fun b => b.1 ∉ pages) [] fed := by
  induction pages generalizing s lists held with
  | nil => exact ⟨lists, by simpa using inv⟩
  | cons page pages ih =>
      obtain ⟨absent, rest⟩ := List.nodup_cons.1 nodup
      obtain ⟨block, member, rfl⟩ := taken page (by simp)
      obtain ⟨before, after, rfl⟩ := List.append_of_mem member
      have others : ∀ b ∈ before ++ after, b.1 ≠ block.1 := by
        have unique := inv.held_unique
        rw [List.map_append, List.map_cons, List.nodup_middle, List.nodup_cons,
          ← List.map_append, List.mem_map] at unique
        exact fun b inside same => unique.1 ⟨b, inside, same⟩
      obtain ⟨lists₁, freed⟩ := inv.free List.perm_middle
      obtain ⟨lists₂, done⟩ := ih freed rest fun page inside => by
        obtain ⟨b, isHeld, rfl⟩ := taken page (List.mem_cons_of_mem _ inside)
        refine ⟨b, ?_, rfl⟩
        have ne : b ≠ block := fun same => absent (same ▸ inside)
        simp only [List.mem_append, List.mem_cons, ne, false_or] at isHeld
        exact List.mem_append.2 isHeld
      have still : (before ++ block :: after).filter (fun b => b.1 ∉ block.1 :: pages) =
          (before ++ after).filter fun b => b.1 ∉ pages := by
        have drop : ∀ part : List (Pfn × Nat), (∀ b ∈ part, b.1 ≠ block.1) →
            part.filter (fun b => b.1 ∉ block.1 :: pages) = part.filter fun b => b.1 ∉ pages :=
          fun part ne => List.filter_congr fun b inside => by simp [ne b inside]
        simp only [List.mem_append] at others
        rw [List.filter_append, List.filter_append, List.filter_cons_of_neg (by simp),
          drop before fun b inside => others b (Or.inl inside),
          drop after fun b inside => others b (Or.inr inside)]
      exact ⟨lists₂, still ▸ done⟩

end BuddyInv

theorem reachable_inv {s : BuddyState} (unmarked : ∀ p, (s.pages p).inBuddy = false)
    (noFault : s.fault = false) {ops : List BuddyOp}
    (admitted : buddyMachine.Admits (BuddyRun.boot s) ops) :
    RunInv (buddyMachine.run (BuddyRun.boot s) ops) :=
  buddyMachine.run_invariant (fun _ _ inv enabled => buddyStep_inv inv enabled)
    (runInv_boot unmarked noFault) admitted

/-- **The free lists are canonical.**  Two histories of feeding, allocating and
freeing that end with the same free pages end with the same blocks on the list
of every order.  An allocation that is given back at once restores the lists,
and giving back blocks that are handed out leaves the same lists in whatever
order they are freed. -/
theorem free_lists_canonical (s : BuddyState) (unmarked : ∀ p, (s.pages p).inBuddy = false)
    (noFault : s.fault = false) (ops : List BuddyOp)
    (admitted : buddyMachine.Admits (BuddyRun.boot s) ops) :
    let r := buddyMachine.run (BuddyRun.boot s) ops
    (∀ (s' : BuddyState) (ops' : List BuddyOp), (∀ p, (s'.pages p).inBuddy = false) →
      s'.fault = false → buddyMachine.Admits (BuddyRun.boot s') ops' →
      let r' := buddyMachine.run (BuddyRun.boot s') ops'
      freePages r.mem = freePages r'.mem →
      ∀ k < buddyMaxOrder, freeSet r.mem k = freeSet r'.mem k) ∧
    (∀ size page, (buddyAllocPages r.mem size).2 = some page →
      ∀ k < buddyMaxOrder,
        freeSet (buddyFreePages (buddyAllocPages r.mem size).1 page) k = freeSet r.mem k) ∧
    (∀ pages pages' : List Pfn, pages.Nodup → (∀ page ∈ pages, ∃ b ∈ r.held, b.1 = page) →
      pages.Perm pages' →
      ∀ k < buddyMaxOrder,
        freeSet (pages.foldl buddyFreePages r.mem) k =
          freeSet (pages'.foldl buddyFreePages r.mem) k) := by
  intro r
  obtain ⟨lists, inv⟩ : RunInv r := reachable_inv unmarked noFault admitted
  refine ⟨?_, ?_, ?_⟩
  · intro s' ops' unmarked' noFault' admitted' r' same k below
    obtain ⟨lists', inv'⟩ : RunInv r' := reachable_inv unmarked' noFault' admitted'
    exact inv.freeSet_eq inv' same below
  · intro size page returned k below
    rcases inv.alloc size with none_ | ⟨page', lists', returned', after⟩
    · rw [none_] at returned
      cases returned
    · obtain rfl : page' = page := Option.some.inj (returned'.symm.trans returned)
      obtain ⟨lists'', freed⟩ := after.free (List.Perm.refl _)
      exact freed.freeSet_eq_of_held inv (fun _ => Iff.rfl) below
  · intro pages pages' nodup taken same k below
    obtain ⟨lists₁, freed⟩ := inv.freeAll pages nodup taken
    obtain ⟨lists₂, freed'⟩ := inv.freeAll pages' (same.nodup_iff.1 nodup) fun page inside =>
      taken page (same.mem_iff.2 inside)
    exact freed.freeSet_eq_of_held freed' (fun b => by simp [same.mem_iff]) below

/-- Eight pages fed at once, and fed in two halves with a page taken and given back. -/
theorem free_lists_canonical_halves :
    let s : BuddyState := ⟨fun _ => ⟨0, false, false⟩, ⟨id, id⟩, fun _ => 0, false⟩
    let ops := [.feed 0x40000000 0x8000]
    let ops' := [.feed 0x40004000 0x4000, .feed 0x40000000 0x4000, .alloc 0x1000, .free 0x40000]
    buddyMachine.Admits (BuddyRun.boot s) ops ∧ buddyMachine.Admits (BuddyRun.boot s) ops' ∧
      ∀ k < buddyMaxOrder, freeSet (buddyMachine.run (BuddyRun.boot s) ops).mem k =
        freeSet (buddyMachine.run (BuddyRun.boot s) ops').mem k := by
  intro s ops ops'
  have handedOut : ∃ b ∈ (buddyMachine.run (BuddyRun.boot s) (ops'.take 3)).held,
      b.1 = 0x40000 := by decide +kernel
  have admitted : buddyMachine.Admits (BuddyRun.boot s) ops :=
    ⟨⟨by decide, by simp [fedPages, BuddyRun.boot]⟩, trivial⟩
  have apart : Disjoint (fedPages [(0x40004000, 0x4000)]) (rangePages 0x40000000 0x4000) := by
    rw [Set.disjoint_left]
    simp only [fedPages, rangePages, pageSize, pageShift, List.mem_singleton, exists_eq_left,
      Set.mem_ofPred_eq, UInt64.reduceToNat]
    omega
  have admitted' : buddyMachine.Admits (BuddyRun.boot s) ops' :=
    ⟨⟨by decide, by simp [fedPages, BuddyRun.boot]⟩, ⟨by decide, apart⟩, trivial, handedOut, trivial⟩
  have fedSame : fedPages [(0x40000000, 0x8000)] =
      fedPages [(0x40000000, 0x4000), (0x40004000, 0x4000)] := by
    ext q
    simp only [fedPages, rangePages, pageSize, pageShift, List.mem_cons, List.not_mem_nil, or_false,
      exists_eq_or_imp, exists_eq_left, Set.mem_ofPred_eq, UInt64.reduceToNat]
    omega
  obtain ⟨lists, inv⟩ : RunInv (buddyMachine.run (BuddyRun.boot s) ops) :=
    reachable_inv (fun _ => rfl) rfl admitted
  obtain ⟨lists', inv'⟩ : RunInv (buddyMachine.run (BuddyRun.boot s) ops') :=
    reachable_inv (fun _ => rfl) rfl admitted'
  refine ⟨admitted, admitted', (free_lists_canonical s (fun _ => rfl) rfl ops admitted).1 s ops'
    (fun _ => rfl) rfl admitted' ?_⟩
  have back : (buddyMachine.run (BuddyRun.boot s) ops').held = [] := by decide +kernel
  ext q
  rw [inv.mem_freePages, inv'.mem_freePages, back]
  exact and_congr_left fun _ => Set.ext_iff.1 fedSame q

/-- **A page given twice**: the pages 2 and 3, and the page at 2^44 + 0x3000, which is page 3 to the
allocator, fed in two orders.  The pages that are free are the same, the list of order 0 is not. -/
theorem high_page_parts_histories :
    let s : BuddyState := ⟨fun _ => ⟨0, false, false⟩, ⟨id, id⟩, fun _ => 0, false⟩
    let r := buddyMachine.run (BuddyRun.boot s)
      [.feed 0x2000 0x1000, .feed 0x3000 0x1000, .feed 0x100000003000 0x1000]
    let r' := buddyMachine.run (BuddyRun.boot s)
      [.feed 0x3000 0x1000, .feed 0x100000003000 0x1000, .feed 0x2000 0x1000]
    r.fed.Perm r'.fed ∧ (r.fed.map fun range => rangePages range.1 range.2).Pairwise Disjoint ∧
      r.held = r'.held ∧ freePages r.mem = freePages r'.mem ∧ freeSet r.mem 0 ≠ freeSet r'.mem 0 := by
  intro s r r'
  have alone : ∀ k < buddyMaxOrder, 2 ≤ k →
      (r.mem.links.next (.area k) = .area k ∧ r.mem.links.prev (.area k) = .area k) ∧
        r'.mem.links.next (.area k) = .area k ∧ r'.mem.links.prev (.area k) = .area k := by
    decide +kernel
  have three : freeSet r.mem 0 = {p | p ∈ [3]} :=
    freeSet_of_ring ⟨⟨⟨by decide +kernel, by decide +kernel⟩, by decide +kernel, by decide +kernel⟩, by decide⟩
  -- the page is linked to itself, so that a walk from the head does not come back
  have stuck : freeSet r'.mem 0 = {p | p ∈ []} := by
    have first : r'.mem.links.next (.area 0) = .page 3 := by decide +kernel
    have back : r'.mem.links.prev (.page 3) = .page 3 := by decide +kernel
    ext p
    constructor
    · rintro ⟨items, ring, -⟩
      cases items with
      | nil => cases first.symm.trans ring.seg.1
      | cons x items =>
          obtain rfl : .page 3 = x := first.symm.trans ring.seg.1.1
          cases back.symm.trans ring.seg.1.2
    · exact fun never => absurd never List.not_mem_nil
  have free : ∀ k < buddyMaxOrder,
      freeSet r.mem k = {p | p ∈ if k = 0 then [3] else if k = 1 then [2] else []} := by
    intro k below
    rcases k with _ | _ | k
    · exact three
    · exact freeSet_of_ring ⟨⟨⟨by decide +kernel, by decide +kernel⟩, by decide +kernel, by decide +kernel⟩, by decide⟩
    · exact freeSet_of_ring ((Links.ring_nil_iff _ _).2 (alone _ below (by omega)).1)
  have free' : ∀ k < buddyMaxOrder, freeSet r'.mem k = {p | p ∈ if k = 1 then [2] else []} := by
    intro k below
    rcases k with _ | _ | k
    · exact stuck
    · exact freeSet_of_ring ⟨⟨⟨by decide +kernel, by decide +kernel⟩, by decide +kernel, by decide +kernel⟩, by decide⟩
    · exact freeSet_of_ring ((Links.ring_nil_iff _ _).2 (alone _ below (by omega)).2)
  refine ⟨?_, ?_, rfl, ?_, ?_⟩
  · decide
  · have fed : r.fed = [(0x100000003000, 0x1000), (0x3000, 0x1000), (0x2000, 0x1000)] := rfl
    simp only [fed, List.map_cons, List.map_nil, List.pairwise_cons, List.mem_cons, List.not_mem_nil, or_false,
      forall_eq_or_imp, forall_eq, Set.disjoint_left, rangePages, pageSize, pageShift, Set.mem_ofPred_eq,
      UInt64.reduceToNat, List.Pairwise.nil, IsEmpty.forall_iff, implies_true, and_true]
    refine ⟨⟨fun q => ?_, fun q => ?_⟩, fun q => ?_⟩ <;> omega
  · rw [freePages_eq free, freePages_eq free']
    have blocks : freeBlocks (fun k => if k = 0 then [3] else if k = 1 then [2] else []) = [(3, 0), (2, 1)] := rfl
    have blocks' : freeBlocks (fun k => if k = 1 then [2] else []) = [(2, 1)] := rfl
    rw [blocks, blocks']
    ext q
    simp only [cells, Set.mem_ofPred_eq, List.mem_cons, List.not_mem_nil, or_false, exists_eq_or_imp, exists_eq_left,
      mem_dyadic]
    omega
  · rw [three, stuck]
    exact fun same => absurd ((Set.ext_iff.1 same 3).1 (List.mem_singleton_self 3)) List.not_mem_nil
end Minus.Mm.Buddy
