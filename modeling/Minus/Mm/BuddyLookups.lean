/-
# Mm.BuddyLookups — the pages that the page allocator looks at

`buddy_add_page` looks at the `struct page` of the block that it frees and of its buddy, and
the buddy of a block may lie beyond either end of `g_mem_pages`.  `addPageLookups` and the
functions over it list the page frame numbers that are passed to `pfn_to_page`.

Whether one is outside depends on the layout only (`EdgeSafe`).  A fed block that is as large as
it can get, below the top order, has had its buddy looked at; and every lookup is of a fed page
or of the buddy of a fed block (`Looks`).

What lies behind the array counts for nothing as long as nothing outside is looked at: two
runs that differ there only look at the same pages (`buddyStep_same`).
-/
import Minus.Mm.BuddyCanonical

namespace Minus.Mm.Buddy

set_option autoImplicit false

open Minus.Theory Minus.Lib.Dlist

/-! ## The lookups -/

/-- The arguments of `pfn_to_page` in `buddy_add_page`. -/
def addPageLookups (s : BuddyState) (pfn : Pfn) (order : Nat) : List Pfn :=
  if order < buddyMaxOrder - 1 then
    let buddyPfn := 2 ^ order ^^^ pfn
    pfn :: buddyPfn ::
      if buddyExist s buddyPfn order then
        addPageLookups (buddyDelFromList s buddyPfn) (pfn &&& buddyPfn) (order + 1)
      else [pfn]
  else [pfn]
termination_by buddyMaxOrder - order

/-- In the loop of `buddy_free_pages_range`. -/
def rangeLoopLookups (s : BuddyState) (pfn nrPages : Nat) : List Pfn :=
  if positive : 0 < nrPages then
    let order := rangeOrder pfn nrPages
    addPageLookups s pfn order ++
      rangeLoopLookups (buddyAddPage s pfn order) ((pfn + 2 ^ order) % 2 ^ 32) (nrPages - 2 ^ order)
  else []
termination_by nrPages
decreasing_by
  have := Nat.two_pow_pos (rangeOrder pfn nrPages)
  omega

def freeRangeLookups (s : BuddyState) (base size : UInt64) : List Pfn :=
  let start := alignUp base
  let stop := alignDown (base + size)
  if stop ≤ start then []
  else rangeLoopLookups s ((start >>> 12).toNat % 2 ^ 32) (((stop - start) >>> 12).toNat % 2 ^ 32)

/-- In a step of the allocator; `buddy_alloc_pages` does not call `buddy_add_page`. -/
def opLookups (r : BuddyRun) : BuddyOp → List Pfn
  | .feed base size => freeRangeLookups r.mem base size
  | .alloc _ => []
  | .free page => addPageLookups r.mem page (r.mem.pages page).order

def runLookups : BuddyRun → List BuddyOp → List Pfn
  | _, [] => []
  | r, op :: rest => opLookups r op ++ runLookups (buddyStep r op) rest

theorem runLookups_append (r : BuddyRun) (first second : List BuddyOp) :
    runLookups r (first ++ second) =
      runLookups r first ++ runLookups (buddyMachine.run r first) second := by
  induction first generalizing r with
  | nil => rfl
  | cons op rest ih =>
      rw [List.cons_append, runLookups, runLookups, ih, List.append_assoc]
      rfl

/-! ## The ends of the array -/

/-- Neither end of the array has a fed block with its buddy beyond the end: the memory does
not end with a fed block of an even number whose buddy would start there, and none of an odd
number has its buddy start below the memory. -/
structure EdgeSafe (lo hi : Nat) (fed : Set Nat) : Prop where
  upper : ∀ k < buddyMaxOrder - 1, hi % 2 ^ (k + 1) = 2 ^ k → ¬ dyadic (hi - 2 ^ k, k) ⊆ fed
  lower : ∀ k < buddyMaxOrder - 1, ∀ p, p % 2 ^ (k + 1) = 2 ^ k → p < lo + 2 ^ k → ¬ dyadic (p, k) ⊆ fed

/-- The buddy of an aligned block lies above it or below it. -/
theorem sibling_eq {p k : Nat} (aligned : 2 ^ k ∣ p) :
    p % 2 ^ (k + 1) = 0 ∧ p ^^^ 2 ^ k = p + 2 ^ k ∨ p % 2 ^ (k + 1) = 2 ^ k ∧ p ^^^ 2 ^ k = p - 2 ^ k := by
  obtain ⟨m, rfl⟩ := aligned
  have half : 2 ^ k * m % 2 ^ (k + 1) = 2 ^ k * (m % 2) := by
    rw [pow_succ, Nat.mul_mod_mul_left]
  rw [half, xor_two_pow, xor_one]
  rcases Nat.mod_two_eq_zero_or_one m with even | odd
  · rw [even, if_pos rfl]
    exact .inl ⟨Nat.mul_zero _, Nat.mul_succ _ _⟩
  · rw [odd, if_neg Nat.one_ne_zero]
    exact .inr ⟨Nat.mul_one _, Nat.mul_sub_one _ _⟩

section EdgeSafe

variable {lo hi : Nat} {fed : Set Nat}

/-- **The ends are safe exactly if the buddy of every fed block is in the array.** -/
theorem edgeSafe_iff (inside : fed ⊆ Set.Ico lo hi) :
    EdgeSafe lo hi fed ↔ ∀ k < buddyMaxOrder - 1, ∀ p, 2 ^ k ∣ p → dyadic (p, k) ⊆ fed → p ^^^ 2 ^ k ∈ Set.Ico lo hi := by
  constructor
  · intro safe k below p aligned block
    have first := inside (block (start_mem_dyadic p k))
    have last := inside (block (end_mem_dyadic p k))
    have positive := Nat.two_pow_pos k
    rw [Set.mem_Ico] at first last
    rcases sibling_eq aligned with ⟨even, above⟩ | ⟨odd, beneath⟩
    · rw [above]
      refine ⟨by omega, Nat.lt_of_le_of_ne (by omega) fun top => ?_⟩
      refine safe.upper k below ?_ (by rwa [← top, Nat.add_sub_cancel])
      rw [← top, Nat.add_mod, even, Nat.zero_add, Nat.mod_mod]
      exact Nat.mod_eq_of_lt (Nat.pow_lt_pow_right Nat.one_lt_two (Nat.lt_succ_self k))
    · rw [beneath]
      refine ⟨?_, by omega⟩
      by_contra near
      exact safe.lower k below p odd (by omega) block
  · intro buddies
    constructor
    · intro k below odd block
      have positive := Nat.two_pow_pos k
      have far : 2 ^ k ≤ hi := by
        have := Nat.mod_le hi (2 ^ (k + 1))
        omega
      have whole : 2 ^ (k + 1) = 2 ^ k + 2 ^ k := by rw [pow_succ, Nat.mul_two]
      have parts := Nat.div_add_mod hi (2 ^ (k + 1))
      have even : hi - 2 ^ k = 2 ^ (k + 1) * (hi / 2 ^ (k + 1)) := by omega
      have aligned : 2 ^ k ∣ hi - 2 ^ k :=
        even ▸ (Nat.pow_dvd_pow 2 (Nat.le_succ k)).trans (Nat.dvd_mul_right _ _)
      have buddy := buddies k below (hi - 2 ^ k) aligned block
      rcases sibling_eq aligned with ⟨-, above⟩ | ⟨odd', -⟩
      · rw [above, Nat.sub_add_cancel far] at buddy
        exact absurd buddy.2 (Nat.lt_irrefl hi)
      · rw [even, Nat.mul_mod_right] at odd'
        omega
    · intro k below p odd near block
      have positive := Nat.two_pow_pos k
      have parts := Nat.div_add_mod p (2 ^ (k + 1))
      have aligned : 2 ^ k ∣ p := by
        rw [← parts, odd]
        exact Nat.dvd_add ((Nat.pow_dvd_pow 2 (Nat.le_succ k)).trans (Nat.dvd_mul_right _ _)) (dvd_refl _)
      have buddy := buddies k below p aligned block
      rcases sibling_eq aligned with ⟨even, -⟩ | ⟨-, beneath⟩
      · omega
      · rw [beneath] at buddy
        have := buddy.1
        have := Nat.mod_le p (2 ^ (k + 1))
        omega

/-- Ends at multiples of 4 MiB are safe. -/
theorem edgeSafe_of_aligned (start : 2 ^ 10 ∣ lo) (stop : 2 ^ 10 ∣ hi) (inside : fed ⊆ Set.Ico lo hi) :
    EdgeSafe lo hi fed := by
  rw [edgeSafe_iff inside]
  intro k below p aligned block
  have order : k + 1 ≤ 10 := below
  have parent := dvd_parent aligned
  have cover := dyadic_parent aligned
  -- the parent block lies in the aligned block of 4 MiB that has `p`
  have first := inside (block (start_mem_dyadic p k))
  obtain ⟨a, rfl⟩ := (Nat.pow_dvd_pow 2 order).trans start
  obtain ⟨b, rfl⟩ := (Nat.pow_dvd_pow 2 order).trans stop
  have buddy : p ^^^ 2 ^ k ∈ dyadic (p &&& (p ^^^ 2 ^ k), k + 1) := cover ▸ .inr (start_mem_dyadic _ k)
  have here : p ∈ dyadic (p &&& (p ^^^ 2 ^ k), k + 1) := cover ▸ .inl (start_mem_dyadic _ k)
  obtain ⟨m, parent⟩ := parent
  rw [parent, mem_dyadic, ← Nat.mul_succ] at buddy here
  have low : a < m + 1 := Nat.lt_of_mul_lt_mul_left (Nat.lt_of_le_of_lt first.1 here.2)
  have high : m < b := Nat.lt_of_mul_lt_mul_left (Nat.lt_of_le_of_lt here.1 first.2)
  exact ⟨(Nat.mul_le_mul_left _ (Nat.lt_succ_iff.1 low)).trans buddy.1,
    Nat.lt_of_lt_of_le buddy.2 (Nat.mul_le_mul_left _ high)⟩

end EdgeSafe

/-! ## What is looked at -/

/-- The fed pages, and the buddies of the fed blocks below the top order. -/
def Reach (fed : Set Nat) : Set Nat :=
  fed ∪ {q | ∃ k < buddyMaxOrder - 1, ∃ p, 2 ^ k ∣ p ∧ dyadic (p, k) ⊆ fed ∧ q = p ^^^ 2 ^ k}

theorem Reach.mono {fed fed' : Set Nat} (fewer : fed ⊆ fed') : Reach fed ⊆ Reach fed' := by
  rintro q (inside | ⟨k, below, p, aligned, block, same⟩)
  · exact .inl (fewer inside)
  · exact .inr ⟨k, below, p, aligned, block.trans fewer, same⟩

/-- Safe ends keep every lookup in the array. -/
theorem EdgeSafe.reach_subset {lo hi : Nat} {fed : Set Nat} (safe : EdgeSafe lo hi fed)
    (inside : fed ⊆ Set.Ico lo hi) : Reach fed ⊆ Set.Ico lo hi := by
  rintro q (isFed | ⟨k, below, p, aligned, block, rfl⟩)
  · exact inside isFed
  · exact (edgeSafe_iff inside).1 safe k below p aligned block

/-- The lookups that went with a change of the lists: every block that is new on a list below
the top order has had its buddy looked at, and all of them were in reach. -/
structure Looks (fed : Set Nat) (lists lists' : Nat → List Pfn) (log : List Pfn) : Prop where
  fresh : ∀ k < buddyMaxOrder - 1, ∀ p ∈ lists' k, p ∈ lists k ∨ p ^^^ 2 ^ k ∈ log
  reach : ∀ q ∈ log, q ∈ Reach fed

namespace Looks

variable {fed fed' : Set Nat} {lists lists' lists'' : Nat → List Pfn} {log log' : List Pfn}

theorem refl (fed : Set Nat) (lists : Nat → List Pfn) : Looks fed lists lists [] where
  fresh _ _ _ member := .inl member
  reach _ member := nomatch member

theorem trans (first : Looks fed lists lists' log) (second : Looks fed' lists' lists'' log') (fewer : fed ⊆ fed') :
    Looks fed' lists lists'' (log ++ log') where
  fresh k below p member := by
    rw [List.mem_append]
    rcases second.fresh k below p member with old | new
    · exact (first.fresh k below p old).imp_right .inl
    · exact .inr (.inr new)
  reach := List.forall_mem_append.2 ⟨fun q member => Reach.mono fewer (first.reach q member), second.reach⟩

/-- A block comes off its list. -/
theorem erase (reach : ∀ q ∈ log, q ∈ Reach fed) (k : Nat) (p : Pfn) :
    Looks fed lists (Function.update lists k ((lists k).erase p)) log where
  fresh j _ q member := by
    by_cases here : j = k
    · subst here
      rw [Function.update_self] at member
      exact .inl (List.mem_of_mem_erase member)
    · rw [Function.update_of_ne here] at member
      exact .inl member
  reach := reach

/-- A block whose buddy has been looked at comes onto its list. -/
theorem cons {k : Nat} {p : Pfn} (reach : ∀ q ∈ log, q ∈ Reach fed) (buddy : k < buddyMaxOrder - 1 → p ^^^ 2 ^ k ∈ log) :
    Looks fed lists (Function.update lists k (p :: lists k)) log where
  fresh j below q member := by
    by_cases here : j = k
    · subst here
      rw [Function.update_self, List.mem_cons] at member
      rcases member with rfl | old
      · exact .inr (buddy below)
      · exact .inl old
    · rw [Function.update_of_ne here] at member
      exact .inl member
  reach := reach

end Looks

namespace BuddyInv

variable {s : BuddyState} {lists : Nat → List Pfn} {held : List (Pfn × Nat)} {fed : Set Nat}

/-- The block in flight is of fed pages. -/
theorem loose_subset {p k : Nat} (inv : BuddyInv s lists held [(p, k)] fed) : dyadic (p, k) ⊆ fed :=
  inv.tiles.subset List.mem_cons_self

/-- **What `buddy_add_page` looks at.** -/
theorem addPage_looks {p k : Nat} (inv : BuddyInv s lists held [(p, k)] fed)
    (below : k < buddyMaxOrder) (aligned : 2 ^ k ∣ p) :
    ∃ lists', BuddyInv (buddyAddPage s p k) lists' held [] fed ∧ Looks fed lists lists' (addPageLookups s p k) := by
  -- On the orders left, as in `addPage`.
  induction left : buddyMaxOrder - k generalizing s lists p k with
  | zero => omega
  | succ n ih =>
      have here : p ∈ Reach fed := .inl (inv.loose_subset (start_mem_dyadic p k))
      rw [buddyAddPage, addPageLookups]
      split
      · rename_i more
        rw [Nat.xor_comm (2 ^ k) p]
        dsimp only
        have buddy : p ^^^ 2 ^ k ∈ Reach fed := .inr ⟨k, more, p, aligned, inv.loose_subset, rfl⟩
        split
        · rename_i exist
          have free : p ^^^ 2 ^ k ∈ lists k := (inv.exist_iff below).1 exist
          obtain ⟨lists', inv', later⟩ := ih (inv.joinBuddy below aligned free)
            (by unfold buddyMaxOrder at more ⊢; omega) (dvd_parent aligned) (by omega)
          have off : Looks fed lists (Function.update lists k ((lists k).erase (p ^^^ 2 ^ k))) [p, p ^^^ 2 ^ k] :=
            Looks.erase (by simp [here, buddy]) k _
          exact ⟨lists', inv', off.trans later subset_rfl⟩
        · rename_i absent
          refine ⟨_, inv.addToList below aligned fun _ member => absent ((inv.exist_iff below).2 member), ?_⟩
          exact Looks.cons (by simp [here, buddy]) fun _ => by simp
      · rename_i top
        exact ⟨_, inv.addToList below aligned fun more => absurd more top,
          Looks.cons (by simp [here]) fun more => absurd more top⟩

/-- What the loop of `buddy_free_pages_range` looks at, while its pages come to the fed ones. -/
theorem freeRange_looks (inv : BuddyInv s lists held [] fed) (pfn nrPages : Nat) (fits : pfn + nrPages ≤ 2 ^ 32)
    (outside : Disjoint fed (Set.Ico pfn (pfn + nrPages))) :
    ∃ lists', BuddyInv (freeRangeLoop s pfn nrPages) lists' held [] (fed ∪ Set.Ico pfn (pfn + nrPages)) ∧
      Looks (fed ∪ Set.Ico pfn (pfn + nrPages)) lists lists' (rangeLoopLookups s pfn nrPages) := by
  induction nrPages using Nat.strong_induction_on generalizing s lists fed pfn with
  | _ nrPages ih =>
      rw [freeRangeLoop, rangeLoopLookups]
      split
      · rename_i positive
        dsimp only
        have next := nextBlock positive outside
        generalize rangeOrder pfn nrPages = order at next
        have pos := Nat.two_pow_pos order
        have len := next.le
        have laid := inv.layBlock next.outside (by omega)
        obtain ⟨lists₁, added, looks⟩ := laid.addPage_looks next.below next.aligned
        by_cases last : nrPages = 2 ^ order
        · -- The last block may end at the top of the page frame numbers, where `pfn` wraps.
          subst last
          rw [Nat.sub_self, freeRangeLoop, rangeLoopLookups, dif_neg (Nat.lt_irrefl 0), dif_neg (Nat.lt_irrefl 0),
            List.append_nil]
          exact ⟨lists₁, added, looks⟩
        · have wraps : (pfn + 2 ^ order) % 2 ^ 32 = pfn + 2 ^ order := Nat.mod_eq_of_lt (by omega)
          rw [wraps]
          obtain ⟨lists', done, later⟩ := ih (nrPages - 2 ^ order) (by omega) added (pfn + 2 ^ order)
            (by omega) next.rest
          rw [next.whole] at done later
          exact ⟨lists', done, looks.trans later (next.whole ▸ Set.subset_union_left)⟩
      · rename_i none_
        have zero : nrPages = 0 := by omega
        subst zero
        exact ⟨lists, by simpa using inv, Looks.refl _ lists⟩

/-- **What `buddy_free_pages_range` looks at.** -/
theorem freePagesRange_looks (inv : BuddyInv s lists held [] fed) {base size : UInt64}
    (countable : Countable base size) (outside : Disjoint fed (rangePages base size)) :
    ∃ lists', BuddyInv (buddyFreePagesRange s base size) lists' held [] (fed ∪ rangePages base size) ∧
      Looks (fed ∪ rangePages base size) lists lists' (freeRangeLookups s base size) := by
  have numbers := range_numbers countable
  unfold buddyFreePagesRange freeRangeLookups
  dsimp only
  split
  · rename_i empty
    rw [if_pos empty] at numbers
    exact ⟨lists, by rw [numbers, Set.union_empty]; exact inv, Looks.refl _ lists⟩
  · rename_i some_
    rw [if_neg some_] at numbers
    obtain ⟨pages, fits⟩ := numbers
    rw [pages] at outside ⊢
    exact inv.freeRange_looks _ _ fits outside

theorem lists_empty (inv : BuddyInv s lists held [] ∅) {k : Nat} (below : k < buddyMaxOrder) : lists k = [] := by
  rw [List.eq_nil_iff_forall_not_mem]
  intro p member
  have free := List.mem_append_right held (mem_freeBlocks.2 ⟨below, member⟩)
  exact inv.tiles.subset free (start_mem_dyadic p k)

/-- **A fed block has its buddy fed or looked at**, if all came from empty lists. -/
theorem buddy_looked {log : List Pfn} {fed' : Set Nat} {lists₀ : Nat → List Pfn} (inv : BuddyInv s lists [] [] fed)
    (looks : Looks fed' lists₀ lists log) (empty : ∀ k < buddyMaxOrder, lists₀ k = []) {p k : Nat} (below : k < buddyMaxOrder - 1) (aligned : 2 ^ k ∣ p)
    (block : dyadic (p, k) ⊆ fed) : p ^^^ 2 ^ k ∈ fed ∨ p ^^^ 2 ^ k ∈ log := by
  have whole : fed = cells {b | b ∈ freeBlocks lists} := by
    rw [← inv.freePages_eq_cells]
    ext q
    simp [inv.mem_freePages]
  have parent := dyadic_parent aligned
  have half : dyadic (p, k) ⊆ dyadic (p &&& (p ^^^ 2 ^ k), k + 1) := parent ▸ Set.subset_union_left
  -- a free block has it, and it is that block or has its parent too
  obtain ⟨⟨start, order⟩, member, covers⟩ := inv.coalesced.within aligned below.le (whole ▸ block)
  have listed := mem_freeBlocks.1 member
  rcases eq_or_covers (dvd_parent aligned) (inv.marked order listed.1 start listed.2).2.2 half covers with
    same | both
  · obtain ⟨rfl, rfl⟩ := Prod.mk.inj same
    refine .inr ((looks.fresh order below start listed.2).resolve_left fun old => ?_)
    rw [empty order listed.1] at old
    cases old
  · refine .inl ?_
    rw [whole]
    exact ⟨(start, order), member, both (parent ▸ .inr (start_mem_dyadic _ k))⟩

end BuddyInv

/-! ## What lies behind the array -/

/-- Two states that differ in the pages outside the array only. -/
structure SameInside (lo hi : Nat) (s s' : BuddyState) : Prop where
  pages : Set.EqOn s.pages s'.pages (Set.Ico lo hi)
  links : s.links = s'.links
  nrFree : s.nrFree = s'.nrFree
  fault : s.fault = s'.fault

namespace SameInside

variable {lo hi : Nat} {s s' : BuddyState}

theorem modify (same : SameInside lo hi s s') (pfn : Pfn) (f : Page → Page) :
    SameInside lo hi (s.modify pfn f) (s'.modify pfn f) := by
  refine ⟨fun q inside => ?_, same.links, same.nrFree, same.fault⟩
  unfold BuddyState.modify
  dsimp only
  by_cases here : q = pfn
  · subst here
    rw [Function.update_self, Function.update_self, same.pages inside]
  · rw [Function.update_of_ne here, Function.update_of_ne here, same.pages inside]

theorem addToList (same : SameInside lo hi s s') (page : Pfn) (order : Nat) :
    SameInside lo hi (buddyAddToList s page order) (buddyAddToList s' page order) := by
  have counted : SameInside lo hi { s with nrFree := Function.update s.nrFree order (s.nrFree order + 1) }
      { s' with nrFree := Function.update s'.nrFree order (s'.nrFree order + 1) } :=
    ⟨same.pages, same.links, by rw [same.nrFree], same.fault⟩
  obtain ⟨pages, links, nrFree, fault⟩ :=
    counted.modify page fun p => { p with order := order % 16, inBuddy := true }
  exact ⟨pages, congrArg (fun links => dlistAdd links (Node.area order) (Node.page page)) links, nrFree, fault⟩

theorem delFromList (same : SameInside lo hi s s') {page : Pfn} (inside : page ∈ Set.Ico lo hi) :
    SameInside lo hi (buddyDelFromList s page) (buddyDelFromList s' page) := by
  unfold buddyDelFromList
  rw [same.pages inside]
  dsimp only
  generalize (s'.pages page).order = order
  have counted : SameInside lo hi { s with nrFree := Function.update s.nrFree order (s.nrFree order - 1) }
      { s' with nrFree := Function.update s'.nrFree order (s'.nrFree order - 1) } :=
    ⟨same.pages, same.links, by rw [same.nrFree], same.fault⟩
  obtain ⟨pages, links, nrFree, fault⟩ := counted.modify page fun p => { p with order := 0, inBuddy := false }
  exact ⟨pages, congrArg (fun links => dlistDel links (Node.page page)) links, nrFree, fault⟩

theorem exist_eq (same : SameInside lo hi s s') {page : Pfn} (inside : page ∈ Set.Ico lo hi) (order : Nat) :
    buddyExist s page order = buddyExist s' page order := by
  unfold buddyExist
  rw [same.pages inside]

end SameInside

/-- Every lookup of one of two logs is in the array. -/
def EitherInside (lo hi : Nat) (log log' : List Pfn) : Prop :=
  (∀ q ∈ log, q ∈ Set.Ico lo hi) ∨ ∀ q ∈ log', q ∈ Set.Ico lo hi

namespace SameInside

variable {lo hi : Nat} {s s' : BuddyState}

/-- As long as one of them looks at the array only, two such states look at the same pages. -/
theorem addPage {p k : Nat} (same : SameInside lo hi s s')
    (either : EitherInside lo hi (addPageLookups s p k) (addPageLookups s' p k)) :
    addPageLookups s p k = addPageLookups s' p k ∧
      SameInside lo hi (buddyAddPage s p k) (buddyAddPage s' p k) := by
  induction left : buddyMaxOrder - k generalizing s s' p k with
  | zero =>
      have top : ¬ k < buddyMaxOrder - 1 := by omega
      rw [addPageLookups, addPageLookups.eq_def s', buddyAddPage, buddyAddPage.eq_def s', if_neg top, if_neg top,
        if_neg top, if_neg top]
      exact ⟨rfl, same.addToList p k⟩
  | succ n ih =>
      by_cases more : k < buddyMaxOrder - 1
      · rw [addPageLookups, addPageLookups.eq_def s', if_pos more, if_pos more] at either
        rw [addPageLookups, addPageLookups.eq_def s', buddyAddPage, buddyAddPage.eq_def s', if_pos more, if_pos more,
          if_pos more, if_pos more]
        dsimp only at either ⊢
        have buddy : 2 ^ k ^^^ p ∈ Set.Ico lo hi := by
          rcases either with inside | inside
          · exact inside _ (by simp)
          · exact inside _ (by simp)
        rw [same.exist_eq buddy] at either ⊢
        split
        · rename_i exist
          rw [if_pos exist, if_pos exist] at either
          have later : EitherInside lo hi
              (addPageLookups (buddyDelFromList s (2 ^ k ^^^ p)) (p &&& (2 ^ k ^^^ p)) (k + 1))
              (addPageLookups (buddyDelFromList s' (2 ^ k ^^^ p)) (p &&& (2 ^ k ^^^ p)) (k + 1)) :=
            either.imp (fun inside q member => inside q (List.mem_cons_of_mem _ (List.mem_cons_of_mem _ member)))
              fun inside q member => inside q (List.mem_cons_of_mem _ (List.mem_cons_of_mem _ member))
          obtain ⟨log, after⟩ := ih (same.delFromList buddy) later (by omega)
          exact ⟨by rw [log], after⟩
        · exact ⟨rfl, same.addToList p k⟩
      · rw [addPageLookups, addPageLookups.eq_def s', buddyAddPage, buddyAddPage.eq_def s', if_neg more, if_neg more,
          if_neg more, if_neg more]
        exact ⟨rfl, same.addToList p k⟩

theorem freeRange (same : SameInside lo hi s s') (pfn nrPages : Nat)
    (either : EitherInside lo hi (rangeLoopLookups s pfn nrPages) (rangeLoopLookups s' pfn nrPages)) :
    rangeLoopLookups s pfn nrPages = rangeLoopLookups s' pfn nrPages ∧
      SameInside lo hi (freeRangeLoop s pfn nrPages) (freeRangeLoop s' pfn nrPages) := by
  induction nrPages using Nat.strong_induction_on generalizing s s' pfn with
  | _ nrPages ih =>
      by_cases positive : 0 < nrPages
      · rw [rangeLoopLookups, rangeLoopLookups.eq_def s', dif_pos positive, dif_pos positive] at either
        rw [rangeLoopLookups, rangeLoopLookups.eq_def s', freeRangeLoop, freeRangeLoop.eq_def s', dif_pos positive,
          dif_pos positive, dif_pos positive, dif_pos positive]
        dsimp only at either ⊢
        have pos := Nat.two_pow_pos (rangeOrder pfn nrPages)
        obtain ⟨log, after⟩ := same.addPage (either.imp
          (fun inside q member => inside q (List.mem_append_left _ member))
          fun inside q member => inside q (List.mem_append_left _ member))
        obtain ⟨logs, done⟩ := ih (nrPages - 2 ^ rangeOrder pfn nrPages) (by omega) after _ (either.imp
          (fun inside q member => inside q (List.mem_append_right _ member))
          fun inside q member => inside q (List.mem_append_right _ member))
        exact ⟨by rw [log, logs], done⟩
      · rw [rangeLoopLookups, rangeLoopLookups.eq_def s', freeRangeLoop, freeRangeLoop.eq_def s', dif_neg positive,
          dif_neg positive, dif_neg positive, dif_neg positive]
        exact ⟨rfl, same⟩

theorem freePagesRange (same : SameInside lo hi s s') (base size : UInt64)
    (either : EitherInside lo hi (freeRangeLookups s base size) (freeRangeLookups s' base size)) :
    freeRangeLookups s base size = freeRangeLookups s' base size ∧
      SameInside lo hi (buddyFreePagesRange s base size) (buddyFreePagesRange s' base size) := by
  unfold freeRangeLookups at either ⊢
  unfold buddyFreePagesRange
  dsimp only at either ⊢
  split
  · exact ⟨rfl, same⟩
  · rename_i some_
    rw [if_neg some_, if_neg some_] at either
    exact same.freeRange _ _ either

theorem split (same : SameInside lo hi s s') (page : Pfn) (lOrder hOrder : Nat) :
    SameInside lo hi (buddySplit s page lOrder hOrder) (buddySplit s' page lOrder hOrder) := by
  induction hOrder generalizing s s' with
  | zero =>
      rw [buddySplit, buddySplit.eq_def s', if_neg (Nat.not_lt_zero _), if_neg (Nat.not_lt_zero _)]
      exact same
  | succ hOrder ih =>
      rw [buddySplit, buddySplit.eq_def s']
      split
      · exact ih (same.addToList _ _)
      · exact same

theorem findOrder_eq (same : SameInside lo hi s s') (order : Nat) : findOrder s order = findOrder s' order := by
  fun_induction findOrder s order with
  | case1 order more ih =>
      rw [ih, findOrder.eq_def s' order, ← same.nrFree, if_pos more]
  | case2 order stop => rw [findOrder, ← same.nrFree, if_neg stop]

/-- An allocation takes the same page, since the pages on the lists are in the array. -/
theorem alloc {lists : Nat → List Pfn} {held : List (Pfn × Nat)} {fed : Set Nat} (same : SameInside lo hi s s')
    (inv : BuddyInv s' lists held [] fed) (inside : fed ⊆ Set.Ico lo hi) (size : UInt32) :
    (buddyAllocPages s size).2 = (buddyAllocPages s' size).2 ∧
      SameInside lo hi (buddyAllocPages s size).1 (buddyAllocPages s' size).1 := by
  unfold buddyAllocPages
  dsimp only
  rw [same.findOrder_eq, same.links]
  split
  · rename_i found
    obtain ⟨page, listed, first⟩ := inv.found found
    have isFed : page ∈ fed := inv.tiles.subset
      (List.mem_append_right _ (List.mem_append_right _ (mem_freeBlocks.2 ⟨found, listed⟩))) (start_mem_dyadic _ _)
    rw [first]
    have kept := (same.delFromList (inside isFed)).split page (getOrder size) (findOrder s' (getOrder size))
    exact ⟨rfl, kept.modify page fun p => { p with order := getOrder size % 16 }⟩
  · exact ⟨rfl, same⟩

end SameInside

/-- Two runs in such states that have fed and handed out the same. -/
structure SameRun (lo hi : Nat) (r r' : BuddyRun) : Prop where
  mem : SameInside lo hi r.mem r'.mem
  fed : r.fed = r'.fed
  held : r.held = r'.held

/-- What a run will have fed after a step. -/
def BuddyOp.feeds : BuddyOp → List (UInt64 × UInt64)
  | .feed base size => [(base, size)]
  | .alloc _ | .free _ => []

theorem buddyStep_fed (r : BuddyRun) (op : BuddyOp) : (buddyStep r op).fed = op.feeds ++ r.fed := by
  cases op <;> rfl

theorem SameRun.enabled_iff {lo hi : Nat} {r r' : BuddyRun} (same : SameRun lo hi r r') (op : BuddyOp) :
    buddyEnabled r op ↔ buddyEnabled r' op := by
  cases op with
  | feed base size => rw [buddyEnabled, buddyEnabled, same.fed]
  | alloc size => exact Iff.rfl
  | free page => rw [buddyEnabled, buddyEnabled, same.held]

/-- The page of a block handed out is a fed one. -/
theorem BuddyInv.held_fed {s : BuddyState} {lists : Nat → List Pfn} {held : List (Pfn × Nat)} {fed : Set Nat}
    (inv : BuddyInv s lists held [] fed) {b : Pfn × Nat} (member : b ∈ held) : b.1 ∈ fed :=
  inv.tiles.subset (List.mem_append_right _ (List.mem_append_left _ member)) (start_mem_dyadic b.1 b.2)

/-- **A step looks at the same pages whatever lies behind the array**, as long as it looks at
the array only. -/
theorem buddyStep_same {lo hi : Nat} {r r' : BuddyRun} (same : SameRun lo hi r r') (inv : RunInv r')
    (inside : fedPages r'.fed ⊆ Set.Ico lo hi) {op : BuddyOp} (enabled : buddyEnabled r' op)
    (either : EitherInside lo hi (opLookups r op) (opLookups r' op)) :
    opLookups r op = opLookups r' op ∧ SameRun lo hi (buddyStep r op) (buddyStep r' op) := by
  obtain ⟨lists, inv⟩ := inv
  cases op with
  | feed base size =>
      obtain ⟨log, after⟩ := same.mem.freePagesRange base size either
      exact ⟨log, after, by rw [buddyStep_fed, buddyStep_fed, same.fed], same.held⟩
  | alloc size =>
      obtain ⟨answer, after⟩ := same.mem.alloc inv inside size
      refine ⟨rfl, after, same.fed, ?_⟩
      rw [buddyStep, buddyStep]
      dsimp only
      rw [answer, same.held]
  | free page =>
      obtain ⟨block, member, rfl⟩ := enabled
      have page := same.mem.pages (inside (inv.held_fed member))
      rw [opLookups, opLookups, page] at either
      obtain ⟨log, after⟩ := same.mem.addPage either
      rw [opLookups, opLookups, buddyStep, buddyStep, buddyFreePages, buddyFreePages, page]
      refine ⟨log, after, same.fed, ?_⟩
      dsimp only
      rw [same.held]

/-! ## Runs -/

theorem fedPages_append (ranges fed : List (UInt64 × UInt64)) :
    fedPages (ranges ++ fed) = fedPages ranges ∪ fedPages fed := by
  ext q
  simp only [fedPages, List.mem_append, Set.mem_ofPred_eq, Set.mem_union, or_and_right, exists_or]

theorem fedPages_run (r : BuddyRun) (ops : List BuddyOp) :
    fedPages r.fed ⊆ fedPages (buddyMachine.run r ops).fed := by
  induction ops generalizing r with
  | nil => exact subset_rfl
  | cons op rest ih =>
      refine Set.Subset.trans ?_ (ih (buddyMachine.step r op))
      have grown : fedPages (buddyMachine.step r op).fed = fedPages op.feeds ∪ fedPages r.fed := by
        rw [← fedPages_append]
        exact congrArg fedPages (buddyStep_fed r op)
      rw [grown]
      exact Set.subset_union_right

/-- A step looks at what is in reach of the pages fed by then. -/
theorem buddyStep_reach {r : BuddyRun} (inv : RunInv r) {op : BuddyOp} (enabled : buddyEnabled r op) :
    ∀ q ∈ opLookups r op, q ∈ Reach (fedPages (buddyStep r op).fed) := by
  obtain ⟨lists, inv⟩ := inv
  rw [buddyStep_fed, fedPages_append]
  cases op with
  | feed base size =>
      have pages : fedPages [(base, size)] = rangePages base size := by simp [fedPages]
      obtain ⟨_, -, looks⟩ := inv.freePagesRange_looks (countable_of_lt enabled.1) enabled.2
      rw [BuddyOp.feeds, pages, Set.union_comm]
      exact looks.reach
  | alloc size => rintro q ⟨⟩
  | free page =>
      obtain ⟨block, member, rfl⟩ := enabled
      obtain ⟨below, aligned, order⟩ := inv.heldOrder block member
      obtain ⟨before, after, split⟩ := List.append_of_mem member
      have taken : r.held.Perm (block :: (before ++ after)) := split ▸ List.perm_middle
      have loose : BuddyInv r.mem lists (before ++ after) [block] (fedPages r.fed) :=
        inv.regroup (by simpa using taken)
          fun b still => inv.heldOrder b (taken.mem_iff.2 (List.mem_cons_of_mem _ still))
      obtain ⟨_, -, looks⟩ := loose.addPage_looks below aligned
      rw [opLookups, order]
      exact fun q looked => Reach.mono Set.subset_union_right (looks.reach q looked)

/-- **With everything in reach in the array, a run looks at the array only.** -/
theorem run_looks_inside {lo hi : Nat} {r r' : BuddyRun} {ops : List BuddyOp} (same : SameRun lo hi r r')
    (inv : RunInv r') (admitted : buddyMachine.Admits r ops)
    (reach : Reach (fedPages (buddyMachine.run r ops).fed) ⊆ Set.Ico lo hi) :
    ∀ q ∈ runLookups r ops, q ∈ Set.Ico lo hi := by
  induction ops generalizing r r' with
  | nil => exact fun q member => nomatch member
  | cons op rest ih =>
      obtain ⟨enabled, later⟩ := admitted
      have enabled' : buddyEnabled r' op := (same.enabled_iff op).1 enabled
      have fed : (buddyStep r op).fed = (buddyStep r' op).fed := by
        rw [buddyStep_fed, buddyStep_fed, same.fed]
      have before : fedPages r'.fed ⊆ Set.Ico lo hi := by
        rw [← same.fed]
        exact (fedPages_run r (op :: rest)).trans (Set.subset_union_left.trans reach)
      have looks : ∀ q ∈ opLookups r' op, q ∈ Set.Ico lo hi := by
        intro q member
        have here := buddyStep_reach inv enabled' q member
        rw [← fed] at here
        exact reach (Reach.mono (fedPages_run (buddyStep r op) rest) here)
      obtain ⟨log, after⟩ := buddyStep_same same inv before enabled' (.inr looks)
      rw [runLookups, log]
      exact List.forall_mem_append.2 ⟨looks, ih after (buddyStep_inv inv enabled') later reach⟩

/-- The operation that gives a range to the allocator. -/
def feedOp (range : UInt64 × UInt64) : BuddyOp := .feed range.1 range.2

/-- **Feeding ranges leaves every free block with its buddy looked at.** -/
theorem feeds_look {lo hi : Nat} {lists : Nat → List Pfn} {r r' : BuddyRun} {ranges : List (UInt64 × UInt64)}
    (same : SameRun lo hi r r') (inv : BuddyInv r'.mem lists r'.held [] (fedPages r'.fed))
    (admitted : buddyMachine.Admits r (ranges.map feedOp))
    (array : fedPages (buddyMachine.run r (ranges.map feedOp)).fed ⊆ Set.Ico lo hi)
    (inside : ∀ q ∈ runLookups r (ranges.map feedOp), q ∈ Set.Ico lo hi) :
    ∃ r'' lists', SameRun lo hi (buddyMachine.run r (ranges.map feedOp)) r'' ∧ r''.held = r'.held ∧
      BuddyInv r''.mem lists' r''.held [] (fedPages r''.fed) ∧
      Looks (fedPages r''.fed) lists lists' (runLookups r (ranges.map feedOp)) := by
  induction ranges generalizing lists r r' with
  | nil => exact ⟨r', lists, same, rfl, inv, Looks.refl _ lists⟩
  | cons range rest ih =>
      obtain ⟨enabled, later⟩ := admitted
      have enabled' : buddyEnabled r' (feedOp range) := (same.enabled_iff (feedOp range)).1 enabled
      obtain ⟨lists₁, inv₁, looks⟩ := inv.freePagesRange_looks (countable_of_lt enabled'.1) enabled'.2
      rw [List.map_cons, runLookups] at inside ⊢
      obtain ⟨here, there⟩ := List.forall_mem_append.1 inside
      have fed : fedPages r'.fed ⊆ Set.Ico lo hi := by
        rw [← same.fed]
        exact (fedPages_run r (feedOp range :: rest.map feedOp)).trans array
      obtain ⟨log, after⟩ := buddyStep_same same ⟨lists, inv⟩ fed enabled' (.inl here)
      have pages : fedPages (range :: r'.fed) = fedPages r'.fed ∪ rangePages range.1 range.2 := by
        ext q
        simp [fedPages, or_comm]
      rw [← pages] at inv₁ looks
      obtain ⟨r'', lists', same', held, inv', looks'⟩ := ih after inv₁ later array there
      have grown : fedPages (buddyStep r' (feedOp range)).fed ⊆ fedPages r''.fed := by
        rw [← after.fed, ← same'.fed]
        exact fedPages_run (buddyStep r (feedOp range)) (rest.map feedOp)
      refine ⟨r'', lists', same', held, inv', ?_⟩
      rw [log]
      exact looks.trans looks' grown

/-! ## Physical memory -/

/-- A physical memory: its ends, and what of it is given to the allocator.  Physical addresses are
40 bits wide, so the page frame number of an address is a `size_t`. -/
structure Layout where
  memoryStart : UInt64
  memoryEnd : UInt64
  /-- `memblock.memory` when `memblock_free_to_buddy` is called. -/
  memory : List (UInt64 × UInt64)
  /-- `__early_pgtable_start` and the size up to `__early_pgtable_end`. -/
  earlyPgtable : UInt64 × UInt64
  startAligned : pageSize ∣ memoryStart.toNat
  endAligned : pageSize ∣ memoryEnd.toNat
  bounded : memoryEnd.toNat < 2 ^ 44
  between : ∀ range ∈ memory ++ [earlyPgtable],
    memoryStart.toNat ≤ range.1.toNat ∧ range.1.toNat + range.2.toNat ≤ memoryEnd.toNat
  apart : (memory ++ [earlyPgtable]).Pairwise fun range other =>
    Disjoint (rangePages range.1 range.2) (rangePages other.1 other.2)

namespace Layout

variable (layout : Layout)

/-- `g_pfn_offset`, as `page_env_prepare` sets it. -/
def gPfnOffset : Nat := (layout.memoryStart >>> 12).toNat % 2 ^ 32

/-- `total_pages` of `page_env_prepare`. -/
def totalPages : Nat := ((layout.memoryEnd - layout.memoryStart) >>> 12).toNat

/-- The page frame numbers of `g_mem_pages`. -/
def array : Set Nat := Set.Ico layout.gPfnOffset (layout.gPfnOffset + layout.totalPages)

/-- The ranges that `reclaim_mem_to_buddy` frees: those of `memblock_free_to_buddy` and that
of `early_ptable_free_to_buddy`. -/
def reclaimed : List (UInt64 × UInt64) := layout.memory ++ [layout.earlyPgtable]

def reclaimMemToBuddy : List BuddyOp := layout.reclaimed.map feedOp

theorem ordered : layout.memoryStart.toNat ≤ layout.memoryEnd.toNat := by
  have := layout.between layout.earlyPgtable (by simp)
  omega

/-- The array goes from the first page of the memory to its last. -/
theorem array_eq : layout.array = Set.Ico (layout.memoryStart.toNat / pageSize) (layout.memoryEnd.toNat / pageSize) := by
  have ordered := layout.ordered
  have bounded := layout.bounded
  have start : layout.gPfnOffset = layout.memoryStart.toNat / pageSize := by
    rw [gPfnOffset, UInt64.toNat_shiftRight]
    simp [Nat.shiftRight_eq_div_pow, pageSize, pageShift]
    omega
  have total : layout.totalPages = (layout.memoryEnd.toNat - layout.memoryStart.toNat) / pageSize := by
    rw [totalPages, UInt64.toNat_shiftRight, UInt64.toNat_sub_of_le _ _ (by rw [UInt64.le_iff_toNat_le]; exact ordered)]
    simp [Nat.shiftRight_eq_div_pow, pageSize, pageShift]
  obtain ⟨a, ha⟩ := layout.startAligned
  obtain ⟨b, hb⟩ := layout.endAligned
  rw [array, start, total]
  congr 1
  unfold pageSize pageShift at *
  omega

theorem fed_subset : fedPages layout.reclaimed ⊆ layout.array := by
  rw [array_eq]
  rintro q ⟨range, member, first, last⟩
  obtain ⟨above, below⟩ := layout.between range member
  refine ⟨?_, ?_⟩
  · exact (Nat.div_le_iff_le_mul_add_pred (by decide)).2 (by unfold pageSize pageShift at *; omega)
  · exact (Nat.le_div_iff_mul_le (by decide)).2 (last.trans below)

end Layout

/-- Disjoint ranges can be fed one after another. -/
theorem feeds_admitted {ranges : List (UInt64 × UInt64)} {r : BuddyRun}
    (fits : ∀ range ∈ ranges, range.1.toNat + range.2.toNat < 2 ^ 44)
    (apart : ranges.Pairwise fun range other => Disjoint (rangePages range.1 range.2) (rangePages other.1 other.2))
    (outside : ∀ range ∈ ranges, Disjoint (fedPages r.fed) (rangePages range.1 range.2)) :
    buddyMachine.Admits r (ranges.map feedOp) := by
  induction ranges generalizing r with
  | nil => trivial
  | cons range rest ih =>
      obtain ⟨fitsHere, fits⟩ := List.forall_mem_cons.1 fits
      obtain ⟨apartHere, apart⟩ := List.pairwise_cons.1 apart
      obtain ⟨outsideHere, outside⟩ := List.forall_mem_cons.1 outside
      refine ⟨⟨fitsHere, outsideHere⟩, ih fits apart fun other member => ?_⟩
      have pages : fedPages (buddyStep r (feedOp range)).fed = rangePages range.1 range.2 ∪ fedPages r.fed := by
        ext q
        simp [buddyStep, feedOp, fedPages]
      exact pages ▸ Set.disjoint_union_left.2 ⟨apartHere other member, outside other member⟩

theorem feeds_fed (ranges : List (UInt64 × UInt64)) (r : BuddyRun) :
    fedPages (buddyMachine.run r (ranges.map feedOp)).fed = fedPages ranges ∪ fedPages r.fed := by
  induction ranges generalizing r with
  | nil => simp [fedPages]
  | cons range rest ih =>
      have pages : fedPages (buddyStep r (feedOp range)).fed = fedPages [range] ∪ fedPages r.fed :=
        fedPages_append [range] r.fed
      have split : fedPages (range :: rest) = fedPages [range] ∪ fedPages rest := fedPages_append [range] rest
      rw [List.map_cons, Machine.run_cons]
      refine (ih (buddyStep r (feedOp range))).trans ?_
      rw [pages, split, ← Set.union_assoc, Set.union_comm (fedPages rest)]

/-- Allocations and releases feed nothing. -/
theorem fed_of_no_feeds {ops : List BuddyOp} (r : BuddyRun) (none_ : ∀ op ∈ ops, op.feeds = []) :
    (buddyMachine.run r ops).fed = r.fed := by
  induction ops generalizing r with
  | nil => rfl
  | cons op rest ih =>
      obtain ⟨here, none_⟩ := List.forall_mem_cons.1 none_
      refine (ih (buddyStep r op) none_).trans ?_
      rw [buddyStep_fed, here, List.nil_append]

/-- The state with nothing behind the array. -/
def BuddyState.clean (s : BuddyState) (lo hi : Nat) : BuddyState :=
  { s with pages := fun p => if lo ≤ p ∧ p < hi then s.pages p else ⟨0, false, false⟩ }

/-- **The lookups of the page allocator stay in the page array exactly if the ends of the memory
are safe**: no block of 2^k pages below the top order is given to it whose buddy starts where
the memory ends or below where it starts. -/
theorem buddy_lookups_inside_iff (layout : Layout) (s : BuddyState)
    (zeroed : ∀ p ∈ layout.array, (s.pages p).inBuddy = false) (noFault : s.fault = false)
    (later : List BuddyOp) (noFeeds : ∀ op ∈ later, op.feeds = [])
    (admitted : buddyMachine.Admits (buddyMachine.run (BuddyRun.boot s) layout.reclaimMemToBuddy) later) :
    (∀ pfn ∈ runLookups (BuddyRun.boot s) (layout.reclaimMemToBuddy ++ later),
      layout.gPfnOffset ≤ pfn ∧ pfn < layout.gPfnOffset + layout.totalPages) ↔
    EdgeSafe layout.gPfnOffset (layout.gPfnOffset + layout.totalPages) (fedPages layout.reclaimed) := by
  set lo := layout.gPfnOffset
  set hi := layout.gPfnOffset + layout.totalPages
  have inside : fedPages layout.reclaimed ⊆ Set.Ico lo hi := layout.fed_subset
  have unmarked : ∀ p, ((s.clean lo hi).pages p).inBuddy = false := by
    intro p
    unfold BuddyState.clean
    dsimp only
    split
    · rename_i here
      exact zeroed p here
    · rfl
  have same : SameRun lo hi (BuddyRun.boot s) (BuddyRun.boot (s.clean lo hi)) :=
    ⟨⟨fun p here => (if_pos here).symm, rfl, rfl, rfl⟩, rfl, rfl⟩
  obtain ⟨lists, inv⟩ : RunInv (BuddyRun.boot (s.clean lo hi)) := runInv_boot unmarked noFault
  have none_ : fedPages (BuddyRun.boot (s.clean lo hi)).fed = ∅ := by simp [fedPages, BuddyRun.boot]
  have fed : fedPages (buddyMachine.run (BuddyRun.boot s) layout.reclaimMemToBuddy).fed = fedPages layout.reclaimed := by
    refine (feeds_fed layout.reclaimed (BuddyRun.boot s)).trans ?_
    rw [same.fed, none_, Set.union_empty]
  have reclaimable : buddyMachine.Admits (BuddyRun.boot s) layout.reclaimMemToBuddy :=
    feeds_admitted (fun range member => (layout.between range member).2.trans_lt layout.bounded) layout.apart
      fun range _ => by
        rw [same.fed, none_]
        exact Set.empty_disjoint _
  constructor
  · intro looksInside
    rw [runLookups_append] at looksInside
    obtain ⟨log, -⟩ := List.forall_mem_append.1 looksInside
    obtain ⟨r, lists', after, held, inv', looks⟩ := feeds_look same inv reclaimable (fed ▸ inside) log
    have whole : fedPages r.fed = fedPages layout.reclaimed := by rw [← fed, ← after.fed]; rfl
    rw [held, whole] at inv'
    rw [edgeSafe_iff inside]
    intro k below p aligned block
    rw [none_] at inv
    rcases inv'.buddy_looked looks (fun k below => inv.lists_empty below) below aligned block with isFed | looked
    · exact inside isFed
    · exact log _ looked
  · intro safe
    refine run_looks_inside same ⟨lists, inv⟩ ((buddyMachine.admits_append _ _ _).2 ⟨reclaimable, admitted⟩) ?_
    rw [Machine.run_append, fed_of_no_feeds _ noFeeds, fed]
    exact safe.reach_subset inside

/-- The page array as `page_env_prepare` leaves it, with a page behind it that looks like a free one. -/
def zeroedBuddy (behind : Pfn) : BuddyState :=
  ⟨fun p => if p = behind then ⟨0, true, false⟩ else ⟨0, false, false⟩, ⟨id, id⟩, fun _ => 0, false⟩

theorem rangePages_apart {range other : UInt64 × UInt64}
    (before : other.1.toNat + other.2.toNat ≤ range.1.toNat) :
    ([range] ++ [other]).Pairwise fun range other =>
      Disjoint (rangePages range.1 range.2) (rangePages other.1 other.2) := by
  rw [List.singleton_append, List.pairwise_pair, Set.disjoint_left]
  rintro q ⟨above, -⟩ ⟨-, inside⟩
  have next : (q + 1) * pageSize = q * pageSize + pageSize := Nat.succ_mul q pageSize
  have positive : 0 < pageSize := by decide
  omega

/-- 128 MiB from 1 GiB on, with the kernel image in the first 16. -/
def alignedLayout : Layout where
  memoryStart := 0x40000000
  memoryEnd := 0x48000000
  memory := [(0x41000000, 0x7000000)]
  earlyPgtable := (0x40100000, 0x8000)
  startAligned := by decide
  endAligned := by decide
  bounded := by decide
  between := List.forall_mem_cons.2 ⟨⟨by decide, by decide⟩, List.forall_mem_singleton.2 ⟨by decide, by decide⟩⟩
  apart := rangePages_apart (by decide)

/-- Both ends are multiples of 4 MiB. -/
theorem buddy_lookups_inside_aligned :
    alignedLayout.gPfnOffset = 0x40000 ∧ ∀ pfn ∈ runLookups (BuddyRun.boot (zeroedBuddy 0x48000)) (alignedLayout.reclaimMemToBuddy ++ [.alloc 0x1000]),
      alignedLayout.gPfnOffset ≤ pfn ∧ pfn < alignedLayout.gPfnOffset + alignedLayout.totalPages := by
  have start : alignedLayout.gPfnOffset = 0x40000 := by decide
  have stop : alignedLayout.gPfnOffset + alignedLayout.totalPages = 0x48000 := by decide
  have zeroed : ∀ p ∈ alignedLayout.array, ((zeroedBuddy 0x48000).pages p).inBuddy = false := by
    intro p here
    have below : p < 0x48000 := stop ▸ here.2
    simp [zeroedBuddy, Nat.ne_of_lt below]
  refine ⟨start, (buddy_lookups_inside_iff alignedLayout (zeroedBuddy 0x48000) zeroed rfl [.alloc 0x1000]
    (by simp [BuddyOp.feeds]) ⟨trivial, trivial⟩).2 ?_⟩
  exact edgeSafe_of_aligned (by rw [start]; decide) (by rw [stop]; decide) alignedLayout.fed_subset

/-- Three pages, of which the allocator gets the last two. -/
def oddLayout : Layout where
  memoryStart := 0x40000000
  memoryEnd := 0x40003000
  memory := [(0x40001000, 0x2000)]
  earlyPgtable := (0x40000000, 0x1000)
  startAligned := by decide
  endAligned := by decide
  bounded := by decide
  between := List.forall_mem_cons.2 ⟨⟨by decide, by decide⟩, List.forall_mem_singleton.2 ⟨by decide, by decide⟩⟩
  apart := rangePages_apart (by decide)

/-- **The buddy of the last page of an odd number is the page behind the array.** -/
theorem page_behind_looked_at :
    (∀ p ∈ oddLayout.array, ((zeroedBuddy 0x40003).pages p).inBuddy = false) ∧
      ¬ ∀ pfn ∈ runLookups (BuddyRun.boot (zeroedBuddy 0x40003)) oddLayout.reclaimMemToBuddy,
        oddLayout.gPfnOffset ≤ pfn ∧ pfn < oddLayout.gPfnOffset + oddLayout.totalPages := by
  have stop : oddLayout.gPfnOffset + oddLayout.totalPages = 0x40003 := by decide
  constructor
  · intro p here
    have below : p < 0x40003 := stop ▸ here.2
    simp [zeroedBuddy, Nat.ne_of_lt below]
  · intro inside
    have behind : 0x40003 ∈ runLookups (BuddyRun.boot (zeroedBuddy 0x40003)) oddLayout.reclaimMemToBuddy := by
      decide +kernel
    exact Nat.lt_irrefl 0x40003 (stop ▸ (inside 0x40003 behind).2)

end Minus.Mm.Buddy
