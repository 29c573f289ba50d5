/-
# Mm.Buddy — the page allocator

`kernel/mm/buddy.c`: eleven lists of free blocks of 2^k pages, linked through the
`struct page` of a block's first page.  A freed block is joined with its buddy
as long as that one is free at the same order; an allocation takes a block of
the first order that has one and gives the upper halves back.

A `struct page *` is named by its page frame number, the index of the page in
`g_mem_pages` plus `g_pfn_offset`; page frame numbers are `size_t`, 32 bits wide.
`order` is a 4-bit field.  `BuddyInv` is the invariant, over the lists of free
blocks, the blocks handed out and at most one block in flight between them.
-/
import Minus.Lib.Dlist
import Minus.Theory.Bytes
import Minus.Theory.Machine
import Minus.Theory.Tiling

namespace Minus.Mm.Buddy

set_option autoImplicit false

open Minus.Theory Minus.Lib.Dlist

/-! ## buddy.c -/

/-- `BUDDY_MAX_ORDER`. -/
def buddyMaxOrder : Nat := 11

/-- `PAGE_SHIFT`. -/
def pageShift : Nat := 12

/-- `PAGE_SIZE`. -/
def pageSize : Nat := 2 ^ pageShift

/-- A page frame number, and the `struct page` it selects. -/
abbrev Pfn := Nat

/-- The fields of `struct page` besides its list node. -/
structure Page where
  order : Nat
  inBuddy : Bool
  inSlab : Bool

/-- The list nodes of the allocator: `free_list` heads and `dnode`s of pages. -/
inductive Node where
  | area (order : Nat)
  | page (pfn : Pfn)
  deriving DecidableEq

/-- `g_mem_pages` and `g_free_area`. -/
structure BuddyState where
  pages : Pfn → Page
  links : Links Node
  nrFree : Nat → UInt32
  /-- `container_of` was applied to a list head. -/
  fault : Bool

def BuddyState.modify (s : BuddyState) (pfn : Pfn) (f : Page → Page) : BuddyState :=
  { s with pages := Function.update s.pages pfn (f (s.pages pfn)) }

/-- The loop of `get_order`. -/
def orderLoop (pages order : Nat) : Nat :=
  if 2 ^ order < pages ∧ order < buddyMaxOrder then orderLoop pages (order + 1) else order
termination_by buddyMaxOrder - order

/-- `PAGE_ALIGN(size) >> PAGE_SHIFT` is computed in 64 bits. -/
def getOrder (size : UInt32) : Nat := orderLoop ((size.toNat + (pageSize - 1)) / pageSize) 0

def buddyAddToList (s : BuddyState) (page : Pfn) (order : Nat) : BuddyState :=
  let s := { s with nrFree := Function.update s.nrFree order (s.nrFree order + 1) }
  let s := s.modify page fun p => { p with order := order % 16, inBuddy := true }
  { s with links := dlistAdd s.links (.area order) (.page page) }

def buddyDelFromList (s : BuddyState) (page : Pfn) : BuddyState :=
  let order := (s.pages page).order
  let s := { s with nrFree := Function.update s.nrFree order (s.nrFree order - 1) }
  let s := s.modify page fun p => { p with order := 0, inBuddy := false }
  { s with links := dlistDel s.links (.page page) }

def buddyExist (s : BuddyState) (buddy : Pfn) (order : Nat) : Bool :=
  (s.pages buddy).inBuddy && (s.pages buddy).order == order

def buddyAddPage (s : BuddyState) (pfn : Pfn) (order : Nat) : BuddyState :=
  if order < buddyMaxOrder - 1 then
    let buddyPfn := 2 ^ order ^^^ pfn
    if buddyExist s buddyPfn order then
      buddyAddPage (buddyDelFromList s buddyPfn) (pfn &&& buddyPfn) (order + 1)
    else buddyAddToList s pfn order
  else buddyAddToList s pfn order
termination_by buddyMaxOrder - order

/-- The loop of `pfn_order_align`. -/
def alignLoop (pfn order : Nat) : Nat :=
  if (pfn >>> order) &&& 1 = 0 ∧ order < buddyMaxOrder - 1 then alignLoop pfn (order + 1) else order
termination_by buddyMaxOrder - order

def pfnOrderAlign (pfn : Nat) : Nat := alignLoop pfn 0

/-- The loop of `order_max_pages`; it stops at 0 at the latest, since there is
at least one page. -/
def maxPagesLoop (nrPages : Nat) : Nat → Nat
  | 0 => 0
  | order + 1 => if nrPages < 2 ^ (order + 1) then maxPagesLoop nrPages order else order + 1

def orderMaxPages (nrPages : Nat) : Nat := maxPagesLoop nrPages (buddyMaxOrder - 1)

/-- The order of the next block of a range. -/
def rangeOrder (pfn nrPages : Nat) : Nat := min (pfnOrderAlign pfn) (orderMaxPages nrPages)

theorem maxPagesLoop_le {nrPages : Nat} (positive : 0 < nrPages) (order : Nat) :
    2 ^ maxPagesLoop nrPages order ≤ nrPages := by
  induction order with
  | zero => exact positive
  | succ order ih =>
      rw [maxPagesLoop]
      split
      · exact ih
      · omega

theorem rangeOrder_le (pfn : Nat) {nrPages : Nat} (positive : 0 < nrPages) :
    2 ^ rangeOrder pfn nrPages ≤ nrPages :=
  (Nat.pow_le_pow_right Nat.two_pos (min_le_right _ _)).trans (maxPagesLoop_le positive _)

/-- The loop of `buddy_free_pages_range`. -/
def freeRangeLoop (s : BuddyState) (pfn nrPages : Nat) : BuddyState :=
  if positive : 0 < nrPages then
    let order := rangeOrder pfn nrPages
    freeRangeLoop (buddyAddPage s pfn order) ((pfn + 2 ^ order) % 2 ^ 32) (nrPages - 2 ^ order)
  else s
termination_by nrPages
decreasing_by
  have := Nat.two_pow_pos (rangeOrder pfn nrPages)
  omega

/-- `ALIGN_UP(x, PAGE_SIZE)`. -/
def alignUp (x : UInt64) : UInt64 := (x + 0xfff) &&& ~~~0xfff

/-- `ALIGN_DOWN(x, PAGE_SIZE)`. -/
def alignDown (x : UInt64) : UInt64 := x &&& ~~~0xfff

def buddyFreePagesRange (s : BuddyState) (base size : UInt64) : BuddyState :=
  let start := alignUp base
  let stop := alignDown (base + size)
  if stop ≤ start then s
  else freeRangeLoop s ((start >>> 12).toNat % 2 ^ 32) (((stop - start) >>> 12).toNat % 2 ^ 32)

def buddySplit (s : BuddyState) (page : Pfn) (lOrder hOrder : Nat) : BuddyState :=
  if lOrder < hOrder then
    buddySplit (buddyAddToList s (page + 2 ^ (hOrder - 1)) (hOrder - 1)) page lOrder (hOrder - 1)
  else s
termination_by hOrder

/-- The search of `buddy_alloc_pages`: the first order from `order` on that has
a free block. -/
def findOrder (s : BuddyState) (order : Nat) : Nat :=
  if order < buddyMaxOrder ∧ s.nrFree order = 0 then findOrder s (order + 1) else order
termination_by buddyMaxOrder - order

def buddyAllocPages (s : BuddyState) (size : UInt32) : BuddyState × Option Pfn :=
  let order := getOrder size
  let hOrder := findOrder s order
  if hOrder < buddyMaxOrder then
    match s.links.next (.area hOrder) with
    | .page page =>
        let s := buddyDelFromList s page
        let s := buddySplit s page order hOrder
        (s.modify page fun p => { p with order := order % 16 }, some page)
    | .area _ => ({ s with fault := true }, none)
  else (s, none)

def buddyFreePages (s : BuddyState) (page : Pfn) : BuddyState := buddyAddPage s page (s.pages page).order

def buddyInit (s : BuddyState) : BuddyState :=
  { s with
    nrFree := fun _ => 0
    links := (List.range buddyMaxOrder).foldl (fun h k => dlistInit h (.area k)) s.links }

/-! ## The invariant -/

/-- The blocks on the free lists, as pairs of first page and order. -/
def freeBlocks (lists : Nat → List Pfn) : List (Pfn × Nat) :=
  (List.range buddyMaxOrder).flatMap fun k => (lists k).map (·, k)

theorem mem_freeBlocks {lists : Nat → List Pfn} {p k : Nat} :
    (p, k) ∈ freeBlocks lists ↔ k < buddyMaxOrder ∧ p ∈ lists k := by
  simp [freeBlocks]

theorem freeBlocks_cons (lists : Nat → List Pfn) {k : Nat} (below : k < buddyMaxOrder) (p : Pfn) :
    (freeBlocks (Function.update lists k (p :: lists k))).Perm ((p, k) :: freeBlocks lists) := by
  have mapped : (fun i => (Function.update lists k (p :: lists k) i).map (·, i)) =
      Function.update (fun i => (lists i).map (·, i)) k ((p, k) :: (lists k).map (·, k)) := by
    funext i
    by_cases here : i = k
    · subst here; simp
    · simp [here]
  rw [freeBlocks, mapped]
  exact flatMap_update_cons List.nodup_range _ (List.mem_range.2 below) (p, k)

theorem freeBlocks_erase {lists : Nat → List Pfn} {p k : Nat} (below : k < buddyMaxOrder)
    (member : p ∈ lists k) :
    (freeBlocks lists).Perm
      ((p, k) :: freeBlocks (Function.update lists k ((lists k).erase p))) := by
  have back := freeBlocks_cons (Function.update lists k ((lists k).erase p)) below p
  rw [Function.update_self, Function.update_idem] at back
  refine List.Perm.trans ?_ back
  have same : ∀ i, (lists i).Perm (Function.update lists k (p :: (lists k).erase p) i) := by
    intro i
    by_cases here : i = k
    · subst here
      rw [Function.update_self]
      exact List.perm_cons_erase member
    · rw [Function.update_of_ne here]
  exact List.Perm.flatMap_left _ fun i _ => (same i).map _

theorem length_lt_of_missing {l : List Nat} {n x : Nat} (nodup : l.Nodup) (below : ∀ y ∈ l, y < n)
    (inside : x < n) (missing : x ∉ l) : l.length < n := by
  have counted : (x :: l).length ≤ (List.range n).length := by
    refine (List.subperm_of_subset (List.nodup_cons.2 ⟨missing, nodup⟩)
      fun y member => ?_).length_le
    rw [List.mem_range]
    rcases List.mem_cons.1 member with rfl | member
    · exact inside
    · exact below y member
  rwa [List.length_range, List.length_cons] at counted

/-- The state of the allocator between two writes: the free lists, the blocks
handed out, and the blocks in flight, which together make up the pages fed in. -/
structure BuddyInv (s : BuddyState) (lists : Nat → List Pfn) (held loose : List (Pfn × Nat))
    (fed : Set Nat) : Prop where
  family : s.links.Family (· < buddyMaxOrder) Node.area fun k => (lists k).map Node.page
  nrFree : ∀ k < buddyMaxOrder, s.nrFree k = UInt32.ofNat (lists k).length
  marked : ∀ k < buddyMaxOrder, ∀ p ∈ lists k,
    (s.pages p).inBuddy = true ∧ (s.pages p).order = k ∧ 2 ^ k ∣ p
  only : ∀ p, (s.pages p).inBuddy = true → ∃ k < buddyMaxOrder, p ∈ lists k
  tiles : Tiles dyadic (loose ++ (held ++ freeBlocks lists)) fed
  single : ∀ k < buddyMaxOrder - 1, ∀ p ∈ lists k, p ^^^ 2 ^ k ∉ lists k
  heldOrder : ∀ b ∈ held, b.2 < buddyMaxOrder ∧ 2 ^ b.2 ∣ b.1 ∧ (s.pages b.1).order = b.2
  bounded : ∀ q : Nat, q ∈ fed → q < 2 ^ 32
  noFault : s.fault = false

namespace BuddyInv

variable {s : BuddyState} {lists : Nat → List Pfn} {held loose : List (Pfn × Nat)} {fed : Set Nat}

/-- The first page of a block in flight starts no other block. -/
theorem start_ne {p k q j : Nat} (inv : BuddyInv s lists held ((p, k) :: loose) fed)
    (other : (q, j) ∈ loose ++ (held ++ freeBlocks lists)) : p ≠ q :=
  start_ne_of_disjoint (inv.tiles.disjoint_of_mem other)

theorem loose_not_free {p k j : Nat} (inv : BuddyInv s lists held ((p, k) :: loose) fed)
    (below : j < buddyMaxOrder) : p ∉ lists j := fun member =>
  inv.start_ne (List.mem_append_right _ (List.mem_append_right _
    (mem_freeBlocks.2 ⟨below, member⟩))) rfl

theorem loose_not_held {p k : Nat} {b : Pfn × Nat}
    (inv : BuddyInv s lists held ((p, k) :: loose) fed) (member : b ∈ held) : p ≠ b.1 :=
  inv.start_ne (j := b.2) (List.mem_append_right _ (List.mem_append_left _ member))

theorem nodup (inv : BuddyInv s lists held loose fed) {k : Nat} (below : k < buddyMaxOrder) :
    (lists k).Nodup :=
  (List.nodup_cons.1 (inv.family.ring k below).nodup).2.of_map _

/-- Reordering the blocks that are not free. -/
theorem regroup {held' loose' : List (Pfn × Nat)} (inv : BuddyInv s lists held loose fed)
    (same : (loose ++ held).Perm (loose' ++ held'))
    (orders : ∀ b ∈ held', b.2 < buddyMaxOrder ∧ 2 ^ b.2 ∣ b.1 ∧ (s.pages b.1).order = b.2) :
    BuddyInv s lists held' loose' fed where
  family := inv.family
  nrFree := inv.nrFree
  marked := inv.marked
  only := inv.only
  tiles := by
    refine inv.tiles.perm ?_
    rw [← List.append_assoc, ← List.append_assoc]
    exact same.append_right _
  single := inv.single
  heldOrder := orders
  bounded := inv.bounded
  noFault := inv.noFault

/-- `buddy_add_to_list` of the block in flight, whose buddy is not free. -/
theorem addToList {p k : Nat} (inv : BuddyInv s lists held ((p, k) :: loose) fed)
    (below : k < buddyMaxOrder) (aligned : 2 ^ k ∣ p)
    (lonely : k < buddyMaxOrder - 1 → p ^^^ 2 ^ k ∉ lists k) :
    BuddyInv (buddyAddToList s p k) (Function.update lists k (p :: lists k)) held loose fed where
  family := by
    have items : (fun i => (Function.update lists k (p :: lists k) i).map Node.page) =
        Function.update (fun i => (lists i).map Node.page) k
          (Node.page p :: (lists k).map Node.page) := by
      funext i
      by_cases here : i = k
      · subst here; simp
      · simp [here]
    rw [items]
    refine dlistAdd_family inv.family below fun j hj => ?_
    simpa using inv.loose_not_free hj
  nrFree j hj := by
    by_cases here : j = k
    · subst here
      simp [buddyAddToList, BuddyState.modify, inv.nrFree j hj, UInt32.ofNat_add]
    · simpa [buddyAddToList, BuddyState.modify, here] using inv.nrFree j hj
  marked j hj q member := by
    have small : k % 16 = k := Nat.mod_eq_of_lt (by unfold buddyMaxOrder at below; omega)
    by_cases new : q = p
    · subst new
      have order : j = k := by
        by_contra other
        rw [Function.update_of_ne other] at member
        exact inv.loose_not_free hj member
      subst order
      simpa [buddyAddToList, BuddyState.modify, small] using aligned
    · have old : q ∈ lists j := by
        by_cases here : j = k
        · subst here
          rw [Function.update_self] at member
          exact (List.mem_cons.1 member).resolve_left new
        · rwa [Function.update_of_ne here] at member
      simpa [buddyAddToList, BuddyState.modify, new] using inv.marked j hj q old
  only q isMarked := by
    by_cases new : q = p
    · exact ⟨k, below, by simp [new]⟩
    · simp only [buddyAddToList, BuddyState.modify, Function.update_of_ne new] at isMarked
      obtain ⟨j, hj, member⟩ := inv.only q isMarked
      refine ⟨j, hj, ?_⟩
      by_cases here : j = k
      · subst here
        simp [member]
      · rwa [Function.update_of_ne here]
  tiles := by
    refine inv.tiles.perm ?_
    have free := (freeBlocks_cons lists below p).symm
    calc (p, k) :: loose ++ (held ++ freeBlocks lists)
      _ = (p, k) :: (loose ++ held ++ freeBlocks lists) := by simp
      _ |>.Perm (loose ++ held ++ (p, k) :: freeBlocks lists) := List.perm_middle.symm
      _ |>.Perm (loose ++ held ++ freeBlocks (Function.update lists k (p :: lists k))) :=
        free.append_left _
      _ = _ := by simp
  single j hj q member := by
    by_cases here : j = k
    · subst here
      rw [Function.update_self] at member ⊢
      rcases List.mem_cons.1 member with rfl | old
      · exact List.not_mem_cons_of_ne_of_not_mem (sibling_ne _ _) (lonely hj)
      · have notNew : q ^^^ 2 ^ j ≠ p := by
          rintro rfl
          exact lonely hj (by rwa [sibling_sibling])
        simp [notNew, inv.single j hj q old]
    · rw [Function.update_of_ne here] at member ⊢
      exact inv.single j hj q member
  heldOrder b member := by
    have ne : b.1 ≠ p := (inv.loose_not_held member).symm
    simpa [buddyAddToList, BuddyState.modify, ne] using inv.heldOrder b member
  bounded := inv.bounded
  noFault := inv.noFault

/-- `buddy_del_from_list` of a free block puts it in flight. -/
theorem delFromList {p k : Nat} (inv : BuddyInv s lists held loose fed)
    (below : k < buddyMaxOrder) (member : p ∈ lists k) :
    BuddyInv (buddyDelFromList s p) (Function.update lists k ((lists k).erase p)) held
      ((p, k) :: loose) fed := by
  obtain ⟨-, order, -⟩ := inv.marked k below p member
  have tiles : Tiles dyadic ((p, k) :: loose ++
      (held ++ freeBlocks (Function.update lists k ((lists k).erase p)))) fed := by
    refine inv.tiles.perm ?_
    calc loose ++ (held ++ freeBlocks lists)
      _ = loose ++ held ++ freeBlocks lists := by simp
      _ |>.Perm (loose ++ held ++
            (p, k) :: freeBlocks (Function.update lists k ((lists k).erase p))) :=
        (freeBlocks_erase below member).append_left _
      _ |>.Perm ((p, k) :: (loose ++ held ++
            freeBlocks (Function.update lists k ((lists k).erase p)))) := List.perm_middle
      _ = _ := by simp
  have gone : ∀ j < buddyMaxOrder, p ∉ Function.update lists k ((lists k).erase p) j := by
    intro j hj still
    refine start_ne_of_disjoint (tiles.disjoint_of_mem (c := (p, j)) ?_) rfl
    exact List.mem_append_right _ (List.mem_append_right _ (mem_freeBlocks.2 ⟨hj, still⟩))
  have was : ∀ j q, q ∈ Function.update lists k ((lists k).erase p) j → q ∈ lists j := by
    intro j q still
    by_cases here : j = k
    · subst here
      rw [Function.update_self] at still
      exact List.mem_of_mem_erase still
    · rwa [Function.update_of_ne here] at still
  refine ⟨?_, fun j hj => ?_, fun j hj q still => ?_, fun q isMarked => ?_, tiles,
    fun j hj q still => ?_, fun b heldBlock => ?_, inv.bounded, inv.noFault⟩
  · have items : (fun i => (Function.update lists k ((lists k).erase p) i).map Node.page) =
        Function.update (fun i => (lists i).map Node.page) k
          (((lists k).map Node.page).erase (Node.page p)) := by
      funext i
      by_cases here : i = k
      · subst here
        rw [Function.update_self, Function.update_self,
          List.map_erase fun a b same => Node.page.inj same]
      · simp [here]
    rw [items]
    exact dlistDel_family inv.family below (List.mem_map_of_mem member)
  · by_cases here : j = k
    · subst here
      have positive : 0 < (lists j).length := List.length_pos_of_mem member
      obtain ⟨n, len⟩ : ∃ n, (lists j).length = n + 1 := ⟨(lists j).length - 1, by omega⟩
      simp [buddyDelFromList, BuddyState.modify, order, inv.nrFree j hj,
        List.length_erase_of_mem member, len, UInt32.ofNat_add]
    · simpa [buddyDelFromList, BuddyState.modify, order, here] using inv.nrFree j hj
  · have ne : q ≠ p := fun same => gone j hj (same ▸ still)
    simpa [buddyDelFromList, BuddyState.modify, ne] using inv.marked j hj q (was j q still)
  · have ne : q ≠ p := by
      rintro rfl
      simp [buddyDelFromList, BuddyState.modify] at isMarked
    simp only [buddyDelFromList, BuddyState.modify, Function.update_of_ne ne] at isMarked
    obtain ⟨j, hj, inside⟩ := inv.only q isMarked
    refine ⟨j, hj, ?_⟩
    by_cases here : j = k
    · subst here
      rw [Function.update_self]
      exact (List.mem_erase_of_ne ne).2 inside
    · rwa [Function.update_of_ne here]
  · exact fun sibling => inv.single j hj q (was j q still) (was j _ sibling)
  · have ne : b.1 ≠ p := by
      rintro rfl
      exact start_ne_of_disjoint (tiles.disjoint_of_mem (c := b)
        (List.mem_append_right _ (List.mem_append_left _ heldBlock))) rfl
    simpa [buddyDelFromList, BuddyState.modify, ne] using inv.heldOrder b heldBlock

/-- The self-test of a buddy finds exactly the free blocks of that order. -/
theorem exist_iff (inv : BuddyInv s lists held loose fed) {q k : Nat} (below : k < buddyMaxOrder) :
    buddyExist s q k = true ↔ q ∈ lists k := by
  simp only [buddyExist, Bool.and_eq_true, beq_iff_eq]
  constructor
  · rintro ⟨isMarked, order⟩
    obtain ⟨j, hj, member⟩ := inv.only q isMarked
    rw [(inv.marked j hj q member).2.1] at order
    exact order ▸ member
  · intro member
    obtain ⟨isMarked, order, -⟩ := inv.marked k below q member
    exact ⟨isMarked, order⟩

/-- A round of `buddy_add_page` that finds the buddy free: the block in flight is the parent. -/
theorem joinBuddy {p k : Nat} (inv : BuddyInv s lists held [(p, k)] fed) (below : k < buddyMaxOrder)
    (aligned : 2 ^ k ∣ p) (free : p ^^^ 2 ^ k ∈ lists k) :
    BuddyInv (buddyDelFromList s (p ^^^ 2 ^ k)) (Function.update lists k ((lists k).erase (p ^^^ 2 ^ k))) held
      [(p &&& (p ^^^ 2 ^ k), k + 1)] fed := by
  have off := inv.delFromList below free
  refine ⟨off.family, off.nrFree, off.marked, off.only, ?_, off.single, off.heldOrder, off.bounded, off.noFault⟩
  refine off.tiles.join ?_
  rw [dyadic_parent aligned, Set.union_comm]

/-- **Coalescing.**  `buddy_add_page` of the block in flight joins it with free
buddies until none is free at its order, and frees the result. -/
theorem addPage {p k : Nat} (inv : BuddyInv s lists held [(p, k)] fed)
    (below : k < buddyMaxOrder) (aligned : 2 ^ k ∣ p) :
    ∃ lists', BuddyInv (buddyAddPage s p k) lists' held [] fed := by
  -- On the orders left: each iteration takes one free block off its list.
  induction left : buddyMaxOrder - k generalizing s lists p k with
  | zero => omega
  | succ n ih =>
      rw [buddyAddPage]
      split
      · rename_i more
        rw [Nat.xor_comm (2 ^ k) p]
        dsimp only
        split
        · rename_i exist
          have free : p ^^^ 2 ^ k ∈ lists k := (inv.exist_iff below).1 exist
          exact ih (inv.joinBuddy below aligned free) (by unfold buddyMaxOrder at more ⊢; omega)
            (dvd_parent aligned) (by omega)
        · rename_i absent
          exact ⟨_, inv.addToList below aligned fun _ member =>
            absent ((inv.exist_iff below).2 member)⟩
      · rename_i top
        exact ⟨_, inv.addToList below aligned fun more => absurd more top⟩

/-- **Splitting.**  `buddy_split` keeps the lower end of the block in flight and
frees its upper halves. -/
theorem split {p l h : Nat} (inv : BuddyInv s lists held [(p, h)] fed)
    (below : h < buddyMaxOrder) (aligned : 2 ^ h ∣ p) (order : l ≤ h) :
    ∃ lists', BuddyInv (buddySplit s p l h) lists' held [(p, l)] fed := by
  induction h generalizing s lists with
  | zero =>
      have same : l = 0 := Nat.le_zero.1 order
      subst same
      rw [buddySplit, if_neg (Nat.lt_irrefl 0)]
      exact ⟨lists, inv⟩
  | succ h ih =>
      rw [buddySplit]
      split
      · rw [Nat.add_sub_cancel]
        have lower : 2 ^ h ∣ p := (Nat.pow_dvd_pow 2 (Nat.le_succ h)).trans aligned
        have halves : BuddyInv s lists held [(p + 2 ^ h, h), (p, h)] fed :=
          ⟨inv.family, inv.nrFree, inv.marked, inv.only,
            inv.tiles.cut (dyadic_halves p h) (halves_disjoint p h), inv.single, inv.heldOrder,
            inv.bounded, inv.noFault⟩
        have freed := halves.addToList (by omega) (Nat.dvd_add lower (dvd_refl _)) fun _ => by
          rw [upper_sibling aligned]
          exact inv.loose_not_free (by omega)
        exact ih freed (by omega) lower (by omega)
      · rename_i same
        have eq : l = h + 1 := by omega
        exact ⟨lists, eq ▸ inv⟩

/-- The lists are short enough for their 32-bit counters: a list of that many
blocks would hold two buddies. -/
theorem length_lt (inv : BuddyInv s lists held loose fed) {k : Nat} (below : k < buddyMaxOrder) :
    (lists k).length < 2 ^ 32 := by
  have inside : ∀ p : Nat, p ∈ lists k → p + 2 ^ k ≤ 2 ^ 32 := by
    intro p member
    have last : p + 2 ^ k - 1 ∈ fed := by
      refine (inv.tiles.mem_iff _).2 ⟨(p, k), ?_, ?_⟩
      · exact List.mem_append_right _ (List.mem_append_right _ (mem_freeBlocks.2 ⟨below, member⟩))
      · have := Nat.two_pow_pos k
        rw [mem_dyadic]
        omega
    have := inv.bounded _ last
    omega
  cases list : lists k with
  | nil => simp
  | cons p rest =>
      have member : p ∈ lists k := by simp [list]
      rw [← list]
      refine length_lt_of_missing (inv.nodup below) (fun q inList => ?_) (x := p ^^^ 1) ?_ ?_
      · have := inside q inList
        have := Nat.two_pow_pos k
        omega
      · have := inside p member
        have := Nat.two_pow_pos k
        exact Nat.xor_lt_two_pow (by omega) (by norm_num)
      · intro other
        cases k with
        | zero => exact inv.single 0 (by decide) p member other
        | succ k =>
            have even : ∀ q : Nat, q ∈ lists (k + 1) → q % 2 = 0 := fun q inList =>
              Nat.mod_eq_zero_of_dvd ((dvd_pow_self 2 (Nat.succ_ne_zero k)).trans
                (inv.marked (k + 1) below q inList).2.2)
            have parity := even _ other
            rw [xor_one, if_pos (even p member)] at parity
            have := even p member
            omega

/-- The counter of an order is 0 exactly when its list is empty. -/
theorem nrFree_zero_iff (inv : BuddyInv s lists held loose fed) {k : Nat}
    (below : k < buddyMaxOrder) : s.nrFree k = 0 ↔ lists k = [] := by
  have short := inv.length_lt below
  rw [inv.nrFree k below, ← List.length_eq_zero_iff, ← UInt32.toNat_inj, UInt32.toNat_ofNat',
    Nat.mod_eq_of_lt short]
  rfl

end BuddyInv

/-! ## Allocation and release -/

theorem findOrder_spec (s : BuddyState) (order : Nat) :
    order ≤ findOrder s order ∧
      (findOrder s order < buddyMaxOrder → s.nrFree (findOrder s order) ≠ 0) := by
  fun_induction findOrder s order with
  | case1 order _ ih => exact ⟨by omega, ih.2⟩
  | case2 order stop => exact ⟨le_rfl, fun below zero => stop ⟨below, zero⟩⟩

/-- The list at which the search of `buddy_alloc_pages` ends has a first block. -/
theorem BuddyInv.found {s : BuddyState} {lists : Nat → List Pfn} {held : List (Pfn × Nat)}
    {fed : Set Nat} (inv : BuddyInv s lists held [] fed) {order : Nat}
    (below : findOrder s order < buddyMaxOrder) :
    ∃ page ∈ lists (findOrder s order), s.links.next (.area (findOrder s order)) = .page page := by
  obtain ⟨page, rest, list⟩ : ∃ page rest, lists (findOrder s order) = page :: rest :=
    List.exists_cons_of_ne_nil fun empty =>
      (findOrder_spec s order).2 below ((inv.nrFree_zero_iff below).2 empty)
  have items : (lists (findOrder s order)).map Node.page = .page page :: rest.map Node.page := by
    rw [list]
    rfl
  exact ⟨page, by simp [list], next_head_of_cons inv.family below items⟩

/-- **`buddy_alloc_pages`** returns NULL and changes nothing, or hands out a
block of the order of the size. -/
theorem BuddyInv.alloc {s : BuddyState} {lists : Nat → List Pfn} {held : List (Pfn × Nat)}
    {fed : Set Nat} (inv : BuddyInv s lists held [] fed) (size : UInt32) :
    buddyAllocPages s size = (s, none) ∨
      ∃ page lists', (buddyAllocPages s size).2 = some page ∧
        BuddyInv (buddyAllocPages s size).1 lists' ((page, getOrder size) :: held) [] fed := by
  have above := (findOrder_spec s (getOrder size)).1
  unfold buddyAllocPages
  dsimp only
  split
  · rename_i below
    right
    have order : getOrder size < buddyMaxOrder := lt_of_le_of_lt above below
    obtain ⟨page, member, first⟩ := inv.found below
    rw [first]
    have aligned := (inv.marked _ below page member).2.2
    obtain ⟨lists', split⟩ := (inv.delFromList below member).split below aligned above
    refine ⟨page, lists', rfl, ?_⟩
    have small : getOrder size % 16 = getOrder size :=
      Nat.mod_eq_of_lt (by unfold buddyMaxOrder at order; omega)
    have alignedLow : 2 ^ getOrder size ∣ page := (Nat.pow_dvd_pow 2 above).trans aligned
    have unfree : ∀ j < buddyMaxOrder, page ∉ lists' j := fun j hj => split.loose_not_free hj
    refine ⟨split.family, split.nrFree, fun j hj q inside => ?_, fun q isMarked => ?_, ?_,
      split.single, fun b isHeld => ?_, split.bounded, split.noFault⟩
    · have ne : q ≠ page := fun same => unfree j hj (same ▸ inside)
      simpa [BuddyState.modify, ne] using split.marked j hj q inside
    · refine split.only q ?_
      by_cases here : q = page
      · subst here
        simpa [BuddyState.modify] using isMarked
      · simpa [BuddyState.modify, here] using isMarked
    · simpa using split.tiles
    · rcases List.mem_cons.1 isHeld with rfl | old
      · exact ⟨order, alignedLow, by simp [BuddyState.modify, small]⟩
      · have ne : b.1 ≠ page := (split.loose_not_held old).symm
        simpa [BuddyState.modify, ne] using split.heldOrder b old
  · exact Or.inl rfl

/-- **`buddy_free_pages`** of a block handed out gives it back. -/
theorem BuddyInv.free {s : BuddyState} {lists : Nat → List Pfn} {held held' : List (Pfn × Nat)}
    {fed : Set Nat} (inv : BuddyInv s lists held [] fed) {block : Pfn × Nat}
    (taken : held.Perm (block :: held')) :
    ∃ lists', BuddyInv (buddyFreePages s block.1) lists' held' [] fed := by
  obtain ⟨below, aligned, order⟩ := inv.heldOrder block (taken.mem_iff.2 (by simp))
  have loose : BuddyInv s lists held' [block] fed :=
    inv.regroup (by simpa using taken)
      fun b still => inv.heldOrder b (taken.mem_iff.2 (List.mem_cons_of_mem _ still))
  rw [buddyFreePages, order]
  exact loose.addPage below aligned

/-! ## Feeding a range -/

theorem alignLoop_spec (pfn order : Nat) (low : 2 ^ order ∣ pfn) (below : order < buddyMaxOrder) :
    2 ^ alignLoop pfn order ∣ pfn ∧ alignLoop pfn order < buddyMaxOrder := by
  fun_induction alignLoop pfn order with
  | case1 order more ih =>
      refine ih ?_ (by unfold buddyMaxOrder at more ⊢; omega)
      have even : pfn / 2 ^ order % 2 = 0 := by
        rw [← Nat.shiftRight_eq_div_pow, ← Nat.and_one_is_mod]
        exact more.1
      obtain ⟨m, rfl⟩ := low
      rw [Nat.mul_div_cancel_left _ (Nat.two_pow_pos order)] at even
      obtain ⟨n, rfl⟩ := Nat.dvd_of_mod_eq_zero even
      exact ⟨n, by ring⟩
  | case2 order => exact ⟨low, below⟩

theorem rangeOrder_spec (pfn nrPages : Nat) :
    2 ^ rangeOrder pfn nrPages ∣ pfn ∧ rangeOrder pfn nrPages < buddyMaxOrder := by
  obtain ⟨aligned, below⟩ := alignLoop_spec pfn 0 (by simp) (by decide)
  exact ⟨(Nat.pow_dvd_pow 2 (min_le_left _ _)).trans aligned,
    lt_of_le_of_lt (min_le_left _ _) below⟩

/-- A block that the allocator does not have comes into flight. -/
theorem BuddyInv.layBlock {s : BuddyState} {lists : Nat → List Pfn} {held : List (Pfn × Nat)} {fed : Set Nat}
    (inv : BuddyInv s lists held [] fed) {p k : Nat} (outside : Disjoint fed (dyadic (p, k)))
    (fits : p + 2 ^ k ≤ 2 ^ 32) : BuddyInv s lists held [(p, k)] (fed ∪ dyadic (p, k)) := by
  refine ⟨inv.family, inv.nrFree, inv.marked, inv.only, inv.tiles.lay outside, inv.single, inv.heldOrder, ?_,
    inv.noFault⟩
  rintro q (old | new)
  · exact inv.bounded q old
  · exact Nat.lt_of_lt_of_le new.2 fits

/-- The next block of a range, and what it leaves of the range. -/
structure NextBlock (fed : Set Nat) (pfn nrPages k : Nat) : Prop where
  aligned : 2 ^ k ∣ pfn
  below : k < buddyMaxOrder
  le : 2 ^ k ≤ nrPages
  outside : Disjoint fed (dyadic (pfn, k))
  whole : fed ∪ dyadic (pfn, k) ∪ Set.Ico (pfn + 2 ^ k) (pfn + 2 ^ k + (nrPages - 2 ^ k)) =
    fed ∪ Set.Ico pfn (pfn + nrPages)
  rest : Disjoint (fed ∪ dyadic (pfn, k)) (Set.Ico (pfn + 2 ^ k) (pfn + 2 ^ k + (nrPages - 2 ^ k)))

theorem nextBlock {fed : Set Nat} {pfn nrPages : Nat} (positive : 0 < nrPages)
    (outside : Disjoint fed (Set.Ico pfn (pfn + nrPages))) :
    NextBlock fed pfn nrPages (rangeOrder pfn nrPages) := by
  obtain ⟨aligned, below⟩ := rangeOrder_spec pfn nrPages
  have len := rangeOrder_le pfn positive
  generalize rangeOrder pfn nrPages = order at aligned below len
  have pos := Nat.two_pow_pos order
  have block : dyadic (pfn, order) ⊆ Set.Ico pfn (pfn + nrPages) := by
    intro x inside
    rw [mem_dyadic] at inside
    exact ⟨inside.1, by omega⟩
  refine ⟨aligned, below, len, outside.mono_right block, ?_, ?_⟩
  · rw [Set.union_assoc]
    congr 1
    ext x
    simp only [Set.mem_union, mem_dyadic, Set.mem_Ico]
    omega
  · rw [Set.disjoint_left]
    rintro x (old | new) later
    · exact Set.disjoint_left.1 outside old ⟨by have := later.1; omega, by have := later.2; omega⟩
    · have := new.2
      have := later.1
      simp only at *
      omega

/-- **Carving a range.**  The loop of `buddy_free_pages_range` feeds exactly the
pages of the range. -/
theorem BuddyInv.freeRange {s : BuddyState} {lists : Nat → List Pfn} {held : List (Pfn × Nat)}
    {fed : Set Nat} (inv : BuddyInv s lists held [] fed) (pfn nrPages : Nat)
    (fits : pfn + nrPages ≤ 2 ^ 32) (outside : Disjoint fed (Set.Ico pfn (pfn + nrPages))) :
    ∃ lists', BuddyInv (freeRangeLoop s pfn nrPages) lists' held []
      (fed ∪ Set.Ico pfn (pfn + nrPages)) := by
  induction nrPages using Nat.strong_induction_on generalizing s lists fed pfn with
  | _ nrPages ih =>
      rw [freeRangeLoop]
      split
      · rename_i positive
        dsimp only
        have next := nextBlock positive outside
        generalize rangeOrder pfn nrPages = order at next
        have pos := Nat.two_pow_pos order
        have len := next.le
        have laid := inv.layBlock next.outside (by omega)
        obtain ⟨lists₁, added⟩ := laid.addPage next.below next.aligned
        by_cases last : nrPages = 2 ^ order
        · -- The last block may end at the top of the page frame numbers, where `pfn` wraps.
          subst last
          rw [Nat.sub_self, freeRangeLoop, dif_neg (Nat.lt_irrefl 0)]
          exact ⟨lists₁, added⟩
        · have wraps : (pfn + 2 ^ order) % 2 ^ 32 = pfn + 2 ^ order := Nat.mod_eq_of_lt (by omega)
          rw [wraps]
          obtain ⟨lists', done⟩ := ih (nrPages - 2 ^ order) (by omega) added (pfn + 2 ^ order)
            (by omega) next.rest
          exact ⟨lists', next.whole ▸ done⟩
      · rename_i none_
        have zero : nrPages = 0 := by omega
        subst zero
        exact ⟨lists, by simpa using inv⟩

/-- The pages that lie wholly in `[base, base + size)`. -/
def rangePages (base size : UInt64) : Set Nat :=
  {q | base.toNat ≤ q * pageSize ∧ (q + 1) * pageSize ≤ base.toNat + size.toNat}

theorem alignDown_toNat (x : UInt64) : (alignDown x).toNat = x.toNat / 4096 * 4096 := by
  have mask : (~~~(0xfff : UInt64)).toNat = 2 ^ 64 - 2 ^ 12 := by decide
  rw [alignDown, UInt64.toNat_and, mask]
  exact and_high (by decide) x.toNat_lt

theorem alignUp_toNat {x : UInt64} (fits : x.toNat + 4095 < 2 ^ 64) :
    (alignUp x).toNat = (x.toNat + 4095) / 4096 * 4096 := by
  have sum : (x + 0xfff).toNat = x.toNat + 4095 := by
    rw [UInt64.toNat_add]
    exact Nat.mod_eq_of_lt fits
  rw [← sum]
  exact alignDown_toNat _

/-- A range of page frame numbers of 32 bits: `size_t` counts its pages. -/
structure Countable (base size : UInt64) : Prop where
  last : (base.toNat + size.toNat) / 4096 ≤ 2 ^ 32
  count : (base.toNat + size.toNat) / 4096 - (base.toNat + 4095) / 4096 < 2 ^ 32

theorem countable_of_lt {base size : UInt64} (fits : base.toNat + size.toNat < 2 ^ 44) : Countable base size :=
  ⟨by omega, by omega⟩

/-- The first page frame number of a range, and the number of its pages. -/
theorem range_numbers {base size : UInt64} (countable : Countable base size) :
    if alignDown (base + size) ≤ alignUp base then rangePages base size = ∅
    else
      let pfn := (alignUp base >>> 12).toNat % 2 ^ 32
      let nrPages := ((alignDown (base + size) - alignUp base) >>> 12).toNat % 2 ^ 32
      rangePages base size = Set.Ico pfn (pfn + nrPages) ∧ pfn + nrPages ≤ 2 ^ 32 := by
  obtain ⟨last, count_⟩ := countable
  have start : (alignUp base).toNat = (base.toNat + 4095) / 4096 * 4096 :=
    alignUp_toNat (by omega)
  have stop : (alignDown (base + size)).toNat = (base.toNat + size.toNat) / 4096 * 4096 := by
    rw [alignDown_toNat, UInt64.toNat_add, Nat.mod_eq_of_lt (by omega)]
  split
  · rename_i empty
    rw [UInt64.le_iff_toNat_le, start, stop] at empty
    ext q
    simp only [rangePages, pageSize, pageShift, Set.mem_ofPred_eq, Set.mem_empty_iff_false,
      iff_false, not_and]
    omega
  · rename_i some_
    rw [UInt64.le_iff_toNat_le, start, stop] at some_
    have first : (alignUp base >>> 12).toNat % 2 ^ 32 = (base.toNat + 4095) / 4096 := by
      rw [UInt64.toNat_shiftRight, start]
      simp [Nat.shiftRight_eq_div_pow]
      omega
    have count : ((alignDown (base + size) - alignUp base) >>> 12).toNat % 2 ^ 32 =
        (base.toNat + size.toNat) / 4096 - (base.toNat + 4095) / 4096 := by
      rw [UInt64.toNat_shiftRight, UInt64.toNat_sub_of_le _ _
        (by rw [UInt64.le_iff_toNat_le]; omega), start, stop]
      simp [Nat.shiftRight_eq_div_pow]
      omega
    dsimp only
    rw [first, count]
    refine ⟨?_, by omega⟩
    ext q
    simp only [rangePages, pageSize, pageShift, Set.mem_ofPred_eq, Set.mem_Ico]
    omega

/-- `buddy_free_pages_range` feeds the pages that lie wholly in the range. -/
theorem BuddyInv.freePagesRange {s : BuddyState} {lists : Nat → List Pfn}
    {held : List (Pfn × Nat)} {fed : Set Nat} (inv : BuddyInv s lists held [] fed)
    {base size : UInt64} (countable : Countable base size)
    (outside : Disjoint fed (rangePages base size)) :
    ∃ lists', BuddyInv (buddyFreePagesRange s base size) lists' held []
      (fed ∪ rangePages base size) := by
  have numbers := range_numbers countable
  unfold buddyFreePagesRange
  dsimp only
  split
  · rename_i empty
    rw [if_pos empty] at numbers
    exact ⟨lists, by rw [numbers, Set.union_empty]; exact inv⟩
  · rename_i some_
    rw [if_neg some_] at numbers
    obtain ⟨pages, fits⟩ := numbers
    rw [pages] at outside ⊢
    exact inv.freeRange _ _ fits outside

/-! ## Runs -/

/-- The allocator with what a run has fed to it and what it has handed out. -/
structure BuddyRun where
  mem : BuddyState
  /-- The ranges `(base, size)` fed so far. -/
  fed : List (UInt64 × UInt64)
  /-- The blocks returned by `buddy_alloc_pages` and not given back. -/
  held : List (Pfn × Nat)

inductive BuddyOp where
  | feed (base size : UInt64)
  | alloc (size : UInt32)
  | free (page : Pfn)

def fedPages (ranges : List (UInt64 × UInt64)) : Set Nat :=
  {q | ∃ r ∈ ranges, q ∈ rangePages r.1 r.2}

/-- Ranges are fed once, and lie where the page frame number of an address is a
`size_t` (physical addresses are 40 bits wide, `TCR_IPS_40BIT`); a page that is
freed was handed out. -/
def buddyEnabled (r : BuddyRun) : BuddyOp → Prop
  | .feed base size =>
      base.toNat + size.toNat < 2 ^ 44 ∧ Disjoint (fedPages r.fed) (rangePages base size)
  | .alloc _ => True
  | .free page => ∃ b ∈ r.held, b.1 = page

def buddyStep (r : BuddyRun) : BuddyOp → BuddyRun
  | .feed base size =>
      { r with mem := buddyFreePagesRange r.mem base size, fed := (base, size) :: r.fed }
  | .alloc size =>
      let result := buddyAllocPages r.mem size
      { r with
        mem := result.1
        held := match result.2 with
          | some page => (page, getOrder size) :: r.held
          | none => r.held }
  | .free page =>
      { r with mem := buddyFreePages r.mem page, held := r.held.eraseP (·.1 == page) }

def buddyMachine : Machine BuddyRun BuddyOp where
  enabled := buddyEnabled
  step := buddyStep

/-- After `buddy_init`, whatever memory held before. -/
def BuddyRun.boot (s : BuddyState) : BuddyRun where
  mem := buddyInit s
  fed := []
  held := []

def RunInv (r : BuddyRun) : Prop :=
  ∃ lists, BuddyInv r.mem lists r.held [] (fedPages r.fed)

theorem buddyStep_inv {r : BuddyRun} (inv : RunInv r) {op : BuddyOp}
    (enabled : buddyEnabled r op) : RunInv (buddyStep r op) := by
  obtain ⟨lists, inv⟩ := inv
  cases op with
  | feed base size =>
      obtain ⟨lists', fed⟩ := inv.freePagesRange (countable_of_lt enabled.1) enabled.2
      have pages : fedPages ((base, size) :: r.fed) = fedPages r.fed ∪ rangePages base size := by
        ext q
        simp [fedPages, or_comm]
      exact ⟨lists', pages ▸ fed⟩
  | alloc size =>
      rcases inv.alloc size with same | ⟨page, lists', returned, after⟩
      · exact ⟨lists, by simpa [buddyStep, same] using inv⟩
      · exact ⟨lists', by simpa [buddyStep, returned] using after⟩
  | free page =>
      obtain ⟨block, member, rfl⟩ := enabled
      obtain ⟨found, before, after, -, same, split, rest⟩ :=
        List.exists_of_eraseP member (p := (·.1 == block.1)) (by simp)
      have taken : r.held.Perm (found :: r.held.eraseP (·.1 == block.1)) := by
        rw [rest, split]
        exact List.perm_middle
      obtain ⟨lists', freed⟩ := inv.free taken
      rw [beq_iff_eq] at same
      rw [same] at freed
      exact ⟨lists', freed⟩

theorem foldl_dlistInit_area (orders : List Nat) (h : Links Node) (k : Nat)
    (alone : h.Alone (.area k) ∨ k ∈ orders) :
    (orders.foldl (fun h k => dlistInit h (.area k)) h).Alone (.area k) := by
  induction orders generalizing h with
  | nil => exact alone.resolve_right (by simp)
  | cons j orders ih =>
      apply ih
      by_cases here : k = j
      · subst here
        exact Or.inl (dlistInit_alone h _)
      · have ne : Node.area k ≠ .area j := by simpa using here
        rcases alone with alone | member
        · exact Or.inl ⟨(dlistInit_next_of_ne h ne).trans alone.1,
            (dlistInit_prev_of_ne h ne).trans alone.2⟩
        · exact Or.inr ((List.mem_cons.1 member).resolve_left here)

theorem runInv_boot {s : BuddyState} (unmarked : ∀ p, (s.pages p).inBuddy = false)
    (noFault : s.fault = false) : RunInv (BuddyRun.boot s) := by
  refine ⟨fun _ => [], ⟨⟨fun k hk => ?_, fun j k _ _ ne => ?_⟩, fun k hk => rfl, by simp, ?_, ?_,
    by simp, by simp [BuddyRun.boot], ?_, noFault⟩⟩
  · rw [List.map_nil, Links.ring_nil_iff]
    exact foldl_dlistInit_area _ _ _ (Or.inr (List.mem_range.2 hk))
  · simpa using ne.symm
  · intro p isMarked
    have := unmarked p
    rw [BuddyRun.boot, buddyInit] at isMarked
    rw [this] at isMarked
    cases isMarked
  · have none_ : fedPages (BuddyRun.boot s).fed = ∅ := by
      ext q
      simp [fedPages, BuddyRun.boot]
    rw [none_]
    have blocks : freeBlocks (fun _ => []) = [] := by simp [freeBlocks]
    rw [blocks]
    exact Tiles.nil
  · rintro q ⟨r, member, -⟩
    simp [BuddyRun.boot] at member

/-- **The buddy allocator in every reachable state.**  The links hold one list of
free blocks per order; each starts at a multiple of its size, is marked with
its order, and no other page is marked; the counters are the lengths of the
lists; the free blocks and the blocks handed out are disjoint and make up the
pages fed in; and no free block below the top order has a free buddy. -/
theorem buddy_invariant (s : BuddyState) (unmarked : ∀ p, (s.pages p).inBuddy = false)
    (noFault : s.fault = false) (ops : List BuddyOp)
    (admitted : buddyMachine.Admits (BuddyRun.boot s) ops) :
    let r := buddyMachine.run (BuddyRun.boot s) ops
    ∃ lists : Nat → List Pfn,
      r.mem.links.Family (· < buddyMaxOrder) Node.area (fun k => (lists k).map Node.page) ∧
      (∀ k < buddyMaxOrder, ∀ p ∈ lists k,
        2 ^ k ∣ p ∧ (r.mem.pages p).inBuddy = true ∧ (r.mem.pages p).order = k) ∧
      (∀ p, (r.mem.pages p).inBuddy = true → ∃ k < buddyMaxOrder, p ∈ lists k) ∧
      (∀ k < buddyMaxOrder, (r.mem.nrFree k).toNat = (lists k).length) ∧
      Tiles dyadic (r.held ++ freeBlocks lists) (fedPages r.fed) ∧
      (∀ k < buddyMaxOrder - 1, ∀ p ∈ lists k, p ^^^ 2 ^ k ∉ lists k) ∧
      r.mem.fault = false := by
  intro r
  obtain ⟨lists, inv⟩ : RunInv r := buddyMachine.run_invariant (I := RunInv)
    (fun r op inv enabled => buddyStep_inv inv enabled) (runInv_boot unmarked noFault) admitted
  refine ⟨lists, inv.family, fun k hk p member => ?_, inv.only, fun k hk => ?_, inv.tiles,
    inv.single, inv.noFault⟩
  · obtain ⟨isMarked, order, aligned⟩ := inv.marked k hk p member
    exact ⟨aligned, isMarked, order⟩
  · rw [inv.nrFree k hk, UInt32.toNat_ofNat', Nat.mod_eq_of_lt (inv.length_lt hk)]

/-- Four megabytes and some pages are fed, eight pages are taken and given back. -/
theorem buddy_invariant_round_trip :
    let s : BuddyState := ⟨fun _ => ⟨0, false, false⟩, ⟨id, id⟩, fun _ => 0, false⟩
    let ops := [.feed 0x40001000 0x403000, .alloc 0x5000, .free 0x40008]
    buddyMachine.Admits (BuddyRun.boot s) ops ∧
      ∃ lists, Tiles dyadic ((buddyMachine.run (BuddyRun.boot s) ops).held ++ freeBlocks lists)
        (fedPages (buddyMachine.run (BuddyRun.boot s) ops).fed) := by
  intro s ops
  have handedOut : ∃ b ∈ (buddyMachine.run (BuddyRun.boot s) (ops.take 2)).held, b.1 = 0x40008 := by
    decide +kernel
  have admitted : buddyMachine.Admits (BuddyRun.boot s) ops :=
    ⟨⟨by decide, by simp [fedPages, BuddyRun.boot]⟩, trivial, handedOut, trivial⟩
  obtain ⟨lists, -, -, -, -, tiles, -⟩ := buddy_invariant s (fun _ => rfl) rfl ops admitted
  exact ⟨admitted, lists, tiles⟩

/-- **The page at 2^44 has no page frame number**: page 0 is on a free list in its place, and
it is in no block. -/
theorem high_page_lost :
    let s : BuddyState := ⟨fun _ => ⟨0, false, false⟩, ⟨id, id⟩, fun _ => 0, false⟩
    let r := buddyMachine.run (BuddyRun.boot s) [.feed 0x100000000000 0x1000]
    0x100000000000 + 0x1000 < 2 ^ 64 ∧ (2 ^ 32 : Nat) ∈ fedPages r.fed ∧
      ¬ ∃ lists : Nat → List Pfn,
        (∀ k < buddyMaxOrder, ∀ p ∈ lists k,
          2 ^ k ∣ p ∧ (r.mem.pages p).inBuddy = true ∧ (r.mem.pages p).order = k) ∧
        Tiles dyadic (r.held ++ freeBlocks lists) (fedPages r.fed) := by
  intro s r
  have page : (2 ^ 32 : Nat) ∈ fedPages r.fed := ⟨_, List.mem_singleton_self _, by decide, by decide⟩
  refine ⟨by decide, page, ?_⟩
  rintro ⟨lists, marked, tiles⟩
  obtain ⟨⟨p, k⟩, member, inside⟩ := (tiles.mem_iff _).1 page
  obtain ⟨below, free⟩ := mem_freeBlocks.1 member
  -- the memory is as if page 0 had been fed, so page 0 is all that is marked
  have admitted : buddyMachine.Admits (BuddyRun.boot s) [.feed 0 0x1000] :=
    ⟨⟨by decide, by simp [fedPages, BuddyRun.boot]⟩, trivial⟩
  obtain ⟨lists', inv⟩ : RunInv (buddyMachine.run (BuddyRun.boot s) [.feed 0 0x1000]) :=
    buddyMachine.run_invariant (fun _ _ inv enabled => buddyStep_inv inv enabled)
      (runInv_boot (fun _ => rfl) rfl) admitted
  have same : r.mem = (buddyMachine.run (BuddyRun.boot s) [.feed 0 0x1000]).mem := rfl
  have isMarked := (marked k below p free).2.1
  rw [same] at isMarked
  obtain ⟨j, below', free'⟩ := inv.only p isMarked
  have isFed := (inv.tiles.mem_iff p).2
    ⟨(p, j), List.mem_append_right _ (List.mem_append_right _ (mem_freeBlocks.2 ⟨below', free'⟩)),
      start_mem_dyadic p j⟩
  have first : p < 1 := by
    obtain ⟨range, isRange, -, last⟩ := isFed
    obtain rfl := List.mem_singleton.1 isRange
    exact Nat.lt_of_mul_lt_mul_right (a := 4096) (by simpa [pageSize, pageShift] using last)
  have small : 2 ^ k ≤ 2 ^ 10 := Nat.pow_le_pow_right Nat.two_pos (Nat.le_of_lt_succ below)
  rw [mem_dyadic] at inside
  omega

end Minus.Mm.Buddy
