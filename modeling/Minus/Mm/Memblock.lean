/-
# Mm.Memblock — the memory of the boot

`kernel/mm/memblock.c`: `memory[]` and `reserved[]`, two arrays of at most 16
regions.  `memblock_carve` cuts one reserved range out of `memory[]`, editing the
array while it goes through it; `memblock_alloc_aligned` takes blocks from the
front of the regions.

Carving is `cutAll` on what the regions stand for, up to their order and up to
the right part of a split that finds the array full (`memblockCarve_spec`).  For
ranges that do not wrap this makes `memblock_carve_reserved` the set difference
(`carve_reserved_difference`); a range that wraps is skipped.  The flags of the
regions are left out.
-/
import Mathlib.Data.List.Induction
import Mathlib.Tactic.IntervalCases
import Minus.Theory.Cuts
import Minus.Theory.Rounding

namespace Minus.Mm.Boot

set_option autoImplicit false

open Minus.Theory

/-- `MEMBLOCK_MAX_MEMORY`. -/
def maxMemory : Nat := 16

/-- `MEMBLOCK_MAX_RESERVED`. -/
def maxReserved : Nat := 16

/-- `struct memblock_region`. -/
structure Region where
  base : UInt64
  size : UInt64
  deriving DecidableEq

/-- The arrays, as far as they are filled. -/
structure Memblock where
  memory : List Region
  reserved : List Region
  deriving DecidableEq

/-! ## memblock_carve -/

/-- `*m = memory[--memory_cnt]`, on the regions behind `m`. -/
def moveLast : List Region → List Region
  | [] => []
  | m :: rest => (m :: rest).getLast (List.cons_ne_nil m rest) :: (m :: rest).dropLast

/-- The test of the loop, negated. -/
def Overlaps (rbase rend : UInt64) (m : Region) : Prop := ¬ (rend ≤ m.base ∨ m.base + m.size ≤ rbase)

instance (rbase rend : UInt64) (m : Region) : Decidable (Overlaps rbase rend m) := instDecidableNot

/-- What is still to do about a region: one that overlaps may leave another one behind. -/
def weight (rbase rend : UInt64) (m : Region) : Nat := if Overlaps rbase rend m then 2 else 1

theorem moveLast_perm (l : List Region) : (moveLast l).Perm l := by
  cases l with
  | nil => exact .nil
  | cons m rest =>
      refine (List.perm_append_singleton _ _).symm.trans ?_
      rw [List.dropLast_append_getLast]

/-- The loop of `memblock_carve`, with the array taken apart at the index. -/
def carveLoop (rbase rend : UInt64) (seen : List Region) : List Region → List Region
  | [] => seen
  | m :: rest =>
      if out : rend ≤ m.base ∨ m.base + m.size ≤ rbase then carveLoop rbase rend (seen ++ [m]) rest
      else if rbase ≤ m.base ∧ m.base + m.size ≤ rend then carveLoop rbase rend seen (moveLast rest)
      else if rbase ≤ m.base ∧ rend < m.base + m.size then
        carveLoop rbase rend (seen ++ [⟨rend, m.base + m.size - rend⟩]) rest
      else if m.base < rbase ∧ m.base + m.size ≤ rend then
        carveLoop rbase rend (seen ++ [⟨m.base, rbase - m.base⟩]) rest
      else if 0 < m.base + m.size - rend ∧ seen.length + (rest.length + 1) < maxMemory then
        carveLoop rbase rend (seen ++ [⟨m.base, rbase - m.base⟩]) (rest ++ [⟨rend, m.base + m.size - rend⟩])
      else carveLoop rbase rend (seen ++ [⟨m.base, rbase - m.base⟩]) rest
termination_by todo => (todo.map (weight rbase rend)).sum
decreasing_by
  · simp [weight]
    split <;> omega
  · have same : ((moveLast rest).map (weight rbase rend)).sum = (rest.map (weight rbase rend)).sum :=
      ((moveLast_perm rest).map _).sum_nat
    rw [same]
    simp [weight]
    split <;> omega
  · simp [weight]
    split <;> omega
  · simp [weight]
    split <;> omega
  · have overlaps : Overlaps rbase rend m := out
    have behind : ¬ Overlaps rbase rend ⟨rend, m.base + m.size - rend⟩ := fun overlap =>
      overlap (.inl (UInt64.le_refl _))
    simp [weight, overlaps, behind]
    omega
  · simp [weight]
    split <;> omega

/-- `memblock_carve`. -/
def memblockCarve (rbase rend : UInt64) (memory : List Region) : List Region :=
  if rend ≤ rbase then memory else carveLoop rbase rend [] memory

/-- `memblock_carve_reserved`. -/
def memblockCarveReserved (mb : Memblock) : Memblock :=
  { mb with memory := mb.reserved.foldl (fun memory r => memblockCarve r.base (r.base + r.size) memory) mb.memory }

/-! ## What the regions stand for -/

namespace Region

/-- The first address, and the one behind the last. -/
def bounds (m : Region) : Nat × Nat := (m.base.toNat, m.base.toNat + m.size.toNat)

/-- Not empty, and without wrapping. -/
structure Whole (m : Region) : Prop where
  some_ : 0 < m.size
  fits : m.base.toNat + m.size.toNat < 2 ^ 64

/-- The bytes of a region. -/
def bytes (m : Region) : Set Nat := span m.bounds

end Region

/-- The bytes of a list of regions. -/
def bytesOf (l : List Region) : Set Nat := {x | ∃ m ∈ l, x ∈ m.bytes}

def boundsOf (l : List Region) : List (Nat × Nat) := l.map Region.bounds

/-- Regions of an array: not empty, not wrapping, pairwise disjoint, and at most 16. -/
structure Regions (l : List Region) : Prop where
  whole : ∀ m ∈ l, m.Whole
  apart : l.Pairwise fun m m' => Disjoint m.bytes m'.bytes
  few : l.length ≤ maxMemory

section Carve

variable {m : Region} {l seen todo rest out ms : List Region} {rbase rend : UInt64}

theorem bytesOf_eq (l : List Region) : bytesOf l = covered (boundsOf l) := by
  ext x
  simp [bytesOf, covered, boundsOf, Region.bytes]

theorem apart_iff : Apart (boundsOf l) ↔ l.Pairwise fun m m' => Disjoint m.bytes m'.bytes :=
  List.pairwise_map

theorem Region.Whole.end_toNat (whole : m.Whole) : (m.base + m.size).toNat = m.bounds.2 := by
  rw [UInt64.toNat_add]
  exact Nat.mod_eq_of_lt whole.fits

theorem Region.Whole.lt (whole : m.Whole) : m.bounds.1 < m.bounds.2 := by
  have some_ := UInt64.lt_iff_toNat_lt.1 whole.some_
  exact Nat.lt_add_of_pos_right some_

/-- A region given by its two ends. -/
theorem whole_of_ends {first last : UInt64} (less : first < last) :
    (⟨first, last - first⟩ : Region).Whole ∧ (⟨first, last - first⟩ : Region).bounds = (first.toNat, last.toNat) := by
  have less_ := UInt64.lt_iff_toNat_lt.1 less
  have size : (last - first).toNat = last.toNat - first.toNat := UInt64.toNat_sub_of_le _ _ (UInt64.le_of_lt less)
  have below := last.toNat_lt
  refine ⟨⟨UInt64.lt_iff_toNat_lt.2 ?_, ?_⟩, ?_⟩
  · rw [size, UInt64.toNat_zero]
    omega
  · show first.toNat + (last - first).toNat < _
    omega
  · show (first.toNat, first.toNat + (last - first).toNat) = _
    rw [size, Nat.add_sub_cancel' less_.le]

/-- What the loop makes of the regions from the index on: `cutAll`, up to the order and to what the
full array drops. -/
structure CarvedTo (r : Nat × Nat) (seen todo out : List Region) : Prop where
  whole : ∀ m ∈ out, m.Whole
  few : out.length ≤ maxMemory
  pieces : ∃ lost, (boundsOf out ++ lost).Perm (boundsOf seen ++ cutAll r (boundsOf todo)) ∧
    (lost ≠ [] → maxMemory < (boundsOf seen ++ cutAll r (boundsOf todo)).length)

namespace CarvedTo

variable {r : Nat × Nat}

/-- A region is replaced by what the cut leaves of it. -/
theorem of_cut (step : CarvedTo r (seen ++ ms) rest out) (same : cut r m.bounds = boundsOf ms) :
    CarvedTo r seen (m :: rest) out := by
  have eq : boundsOf (seen ++ ms) ++ cutAll r (boundsOf rest) = boundsOf seen ++ cutAll r (boundsOf (m :: rest)) := by
    simp [boundsOf, cutAll, same]
  exact ⟨step.whole, step.few, eq ▸ step.pieces⟩

theorem perm (step : CarvedTo r seen rest out) (same : rest.Perm todo) : CarvedTo r seen todo out := by
  have eq : (boundsOf seen ++ cutAll r (boundsOf rest)).Perm (boundsOf seen ++ cutAll r (boundsOf todo)) :=
    (cutAll_perm (same.map _)).append_left _
  obtain ⟨lost, pieces, full⟩ := step.pieces
  exact ⟨step.whole, step.few, lost, pieces.trans eq, eq.length_eq ▸ full⟩

end CarvedTo

/-- Regions that lie apart from one around `r` are not cut. -/
theorem rest_outside {r : Nat × Nat} (whole : ∀ m' ∈ rest, m'.Whole) (nonempty : r.1 < r.2) (first : m.bounds.1 < r.1)
    (last : r.2 < m.bounds.2) (apart : ∀ m' ∈ rest, Disjoint m.bytes m'.bytes) :
    cutAll r (boundsOf rest) = boundsOf rest := by
  have lt : ∀ p ∈ boundsOf rest, p.1 < p.2 := by
    intro p member
    obtain ⟨m', there, rfl⟩ := List.mem_map.1 member
    exact (whole m' there).lt
  refine cutAll_outside lt nonempty fun p member => ?_
  obtain ⟨m', there, rfl⟩ := List.mem_map.1 member
  have disjoint := Set.Ico_disjoint_Ico.1 (apart m' there)
  have lt' := lt _ member
  omega

@[simp] theorem boundsOf_nil : boundsOf [] = [] := rfl

@[simp] theorem boundsOf_cons (m : Region) (l : List Region) : boundsOf (m :: l) = m.bounds :: boundsOf l := rfl

theorem boundsOf_append (l l' : List Region) : boundsOf (l ++ l') = boundsOf l ++ boundsOf l' :=
  List.map_append

/-- The last branch of the loop: the range lies inside the region, on both sides. -/
theorem strictly_inside {mend : UInt64} (notCovered : ¬ (rbase ≤ m.base ∧ mend ≤ rend))
    (notLeft : ¬ (rbase ≤ m.base ∧ rend < mend)) (notRight : ¬ (m.base < rbase ∧ mend ≤ rend)) :
    m.base < rbase ∧ rend < mend := by
  simp only [UInt64.le_iff_toNat_le, UInt64.lt_iff_toNat_lt] at *
  omega

/-- **The loop cuts every region once.** -/
theorem carveLoop_spec (nonempty : rbase < rend) (seen todo : List Region) (seenWhole : ∀ m ∈ seen, m.Whole)
    (whole : ∀ m ∈ todo, m.Whole) (apart : todo.Pairwise fun m m' => Disjoint m.bytes m'.bytes)
    (few : seen.length + todo.length ≤ maxMemory) :
    CarvedTo (rbase.toNat, rend.toNat) seen todo (carveLoop rbase rend seen todo) := by
  have nonempty_ := UInt64.lt_iff_toNat_lt.1 nonempty
  -- one more region is done
  have seen_ : ∀ {seen : List Region} {m' : Region}, (∀ m ∈ seen, m.Whole) → m'.Whole →
      ∀ m ∈ seen ++ [m'], m.Whole := by
    intro seen m' seenWhole whole m member
    rcases List.mem_append.1 member with member | member
    · exact seenWhole m member
    · exact List.mem_singleton.1 member ▸ whole
  fun_induction carveLoop rbase rend seen todo with
  | case1 seen =>
      exact ⟨seenWhole, by simpa using few, [], by simp [boundsOf, cutAll], by simp⟩
  | case2 seen m rest outside ih =>
      obtain ⟨own, whole⟩ := List.forall_mem_cons.1 whole
      simp only [UInt64.le_iff_toNat_le, own.end_toNat] at outside
      refine (ih (seen_ seenWhole own) whole apart.tail ?_).of_cut (cut_outside own.lt nonempty_ outside)
      simp only [List.length_append, List.length_cons, List.length_nil] at few ⊢
      omega
  | case3 seen m rest overlap covered_ ih =>
      obtain ⟨own, whole⟩ := List.forall_mem_cons.1 whole
      simp only [UInt64.le_iff_toNat_le, own.end_toNat] at covered_
      have same := moveLast_perm rest
      have step := ih seenWhole (fun m member => whole m (same.mem_iff.1 member))
        ((same.pairwise_iff fun disjoint => disjoint.symm).2 apart.tail) (by
          rw [same.length_eq]
          simp only [List.length_cons] at few
          omega)
      have step' : CarvedTo (rbase.toNat, rend.toNat) (seen ++ []) rest (carveLoop rbase rend seen (moveLast rest)) := by
        rw [List.append_nil]
        exact step.perm same
      exact step'.of_cut (cut_covered covered_.1 covered_.2)
  | case4 seen m rest overlap notCovered left ih =>
      obtain ⟨own, whole⟩ := List.forall_mem_cons.1 whole
      obtain ⟨rightWhole, rightBounds⟩ := whole_of_ends left.2
      simp only [UInt64.le_iff_toNat_le, UInt64.lt_iff_toNat_lt, own.end_toNat] at overlap left
      refine (ih (seen_ seenWhole rightWhole) whole apart.tail ?_).of_cut ?_
      · simp only [List.length_append, List.length_cons, List.length_nil] at few ⊢
        omega
      · rw [boundsOf_cons, boundsOf_nil, rightBounds, own.end_toNat]
        exact cut_left left.1 (Nat.not_le.1 (not_or.1 overlap).1).le left.2
  | case5 seen m rest overlap notCovered notLeft right ih =>
      obtain ⟨own, whole⟩ := List.forall_mem_cons.1 whole
      obtain ⟨leftWhole, leftBounds⟩ := whole_of_ends right.1
      simp only [UInt64.le_iff_toNat_le, UInt64.lt_iff_toNat_lt, own.end_toNat] at overlap right
      refine (ih (seen_ seenWhole leftWhole) whole apart.tail ?_).of_cut ?_
      · simp only [List.length_append, List.length_cons, List.length_nil] at few ⊢
        omega
      · rw [boundsOf_cons, boundsOf_nil, leftBounds]
        exact cut_right right.1 (Nat.not_le.1 (not_or.1 overlap).2).le right.2
  | case6 seen m rest overlap notCovered notLeft notRight room ih =>
      obtain ⟨own, whole⟩ := List.forall_mem_cons.1 whole
      obtain ⟨first, last⟩ := strictly_inside notCovered notLeft notRight
      obtain ⟨leftWhole, leftBounds⟩ := whole_of_ends first
      obtain ⟨rightWhole, rightBounds⟩ := whole_of_ends last
      simp only [UInt64.lt_iff_toNat_lt, own.end_toNat] at first last
      rw [own.end_toNat] at rightBounds
      obtain ⟨disjoint, apart⟩ := List.pairwise_cons.1 apart
      have inside : (⟨rend, m.base + m.size - rend⟩ : Region).bytes ⊆ m.bytes := by
        rw [Region.bytes, rightBounds]
        exact Set.Ico_subset_Ico (first.trans nonempty_).le (Nat.le_refl _)
      have step := ih (seen_ seenWhole leftWhole) (seen_ whole rightWhole) (List.pairwise_append.2
        ⟨apart, List.pairwise_singleton _ _, fun m' member right same => by
          rw [List.mem_singleton.1 same]
          exact (disjoint m' member).symm.mono_right inside⟩) (by
        have less := room.2
        simp only [List.length_append, List.length_singleton]
        omega)
      -- the right part is behind the index, and not cut again
      have right : cutAll (rbase.toNat, rend.toNat) (boundsOf [(⟨rend, m.base + m.size - rend⟩ : Region)]) =
          [(rend.toNat, m.bounds.2)] := by
        rw [boundsOf_cons, boundsOf_nil, rightBounds]
        exact cutAll_outside (by simpa using last) nonempty_ (by simp)
      have eq : (boundsOf (seen ++ [⟨m.base, rbase - m.base⟩]) ++ cutAll (rbase.toNat, rend.toNat)
          (boundsOf (rest ++ [⟨rend, m.base + m.size - rend⟩]))).Perm
          (boundsOf seen ++ cutAll (rbase.toNat, rend.toNat) (boundsOf (m :: rest))) := by
        have middle : cut (rbase.toNat, rend.toNat) m.bounds = [(m.base.toNat, rbase.toNat), (rend.toNat, m.bounds.2)] :=
          cut_middle first nonempty_.le last
        rw [boundsOf_append, boundsOf_append, cutAll_append, right, boundsOf_cons m, cutAll_cons, middle, boundsOf_cons,
          leftBounds, boundsOf_nil, List.append_assoc]
        refine .append_left _ ?_
        rw [List.singleton_append, List.cons_append]
        exact (List.perm_append_singleton _ _).cons _
      obtain ⟨lost, pieces, full⟩ := step.pieces
      exact ⟨step.whole, step.few, lost, pieces.trans eq, eq.length_eq ▸ full⟩
  | case7 seen m rest overlap notCovered notLeft notRight full ih =>
      obtain ⟨own, whole⟩ := List.forall_mem_cons.1 whole
      obtain ⟨first, last⟩ := strictly_inside notCovered notLeft notRight
      obtain ⟨leftWhole, leftBounds⟩ := whole_of_ends first
      obtain ⟨rightWhole, -⟩ := whole_of_ends last
      simp only [UInt64.lt_iff_toNat_lt, own.end_toNat] at first last
      obtain ⟨disjoint, apart⟩ := List.pairwise_cons.1 apart
      have step := ih (seen_ seenWhole leftWhole) whole apart (by
        simp only [List.length_append, List.length_cons, List.length_nil] at few ⊢
        omega)
      have many : maxMemory ≤ seen.length + (rest.length + 1) :=
        Nat.le_of_not_lt fun less => full ⟨rightWhole.some_, less⟩
      have rest_ : cutAll (rbase.toNat, rend.toNat) (boundsOf rest) = boundsOf rest :=
        rest_outside whole nonempty_ first last disjoint
      have all : cutAll (rbase.toNat, rend.toNat) (boundsOf (m :: rest)) =
          [(m.base.toNat, rbase.toNat), (rend.toNat, m.bounds.2)] ++ boundsOf rest := by
        rw [boundsOf_cons, cutAll_cons, rest_]
        exact congrArg (· ++ boundsOf rest) (cut_middle first nonempty_.le last)
      obtain ⟨lost, pieces, -⟩ := step.pieces
      rw [rest_, boundsOf_append, boundsOf_cons, boundsOf_nil, leftBounds, List.append_assoc] at pieces
      refine ⟨step.whole, step.few, (rend.toNat, m.bounds.2) :: lost, ?_, fun _ => ?_⟩
      · rw [all]
        refine List.perm_middle.trans ((pieces.cons _).trans ?_)
        refine List.perm_middle.symm.trans (.append_left _ ?_)
        exact List.Perm.swap ..
      · rw [all]
        simp only [List.length_append, List.length_cons, boundsOf, List.length_map]
        simp only [List.length_nil]
        omega

/-- **One carve**: the array stays one of regions, loses what it must, and where nothing had to be
dropped it is the cut. -/
theorem memblockCarve_spec (regions : Regions l) (rbase rend : UInt64) :
    Regions (memblockCarve rbase rend l) ∧
      bytesOf (memblockCarve rbase rend l) ⊆ bytesOf l \ Set.Ico rbase.toNat rend.toNat ∧
      ((cutEach (boundsOf l) [(rbase.toNat, rend.toNat)]).length ≤ maxMemory →
        (boundsOf (memblockCarve rbase rend l)).Perm (cutEach (boundsOf l) [(rbase.toNat, rend.toNat)])) := by
  rw [memblockCarve]
  split
  · -- an empty range
    have le := UInt64.le_iff_toNat_le.1 ‹_›
    refine ⟨regions, by rw [Set.Ico_eq_empty (Nat.not_lt.2 le), Set.sdiff_empty], fun _ => ?_⟩
    simp [cutEach, Nat.not_lt.2 le]
  · have nonempty := UInt64.not_le.1 ‹_›
    have nonempty_ := UInt64.lt_iff_toNat_lt.1 nonempty
    have carved := carveLoop_spec nonempty [] l (by simp) regions.whole regions.apart (by simpa using regions.few)
    obtain ⟨lost, pieces, full⟩ := carved.pieces
    rw [boundsOf_nil, List.nil_append] at pieces full
    have apart := (apart_iff.2 regions.apart).cutAll (r := (rbase.toNat, rend.toNat)) nonempty_.le
    have kept := List.pairwise_append.1 (apart.perm pieces.symm)
    refine ⟨⟨carved.whole, apart_iff.1 kept.1, carved.few⟩, ?_, fun room => ?_⟩
    · rw [bytesOf_eq, bytesOf_eq]
      have same := covered_perm pieces
      rw [covered_cutAll] at same
      rintro x ⟨m, member, inside⟩
      exact same ▸ ⟨m, List.mem_append_left _ member, inside⟩
    · simp only [cutEach, List.foldl_cons, List.foldl_nil, if_pos nonempty_] at room ⊢
      have none_ : lost = [] := by
        by_contra some_
        exact absurd (full some_) (Nat.not_lt.2 room)
      rwa [none_, List.append_nil] at pieces

/-- The ranges that `memblock_carve_reserved` cuts out. -/
def reservedBounds (reserved : List Region) : List (Nat × Nat) :=
  reserved.map fun r => (r.base.toNat, (r.base + r.size).toNat)

/-- At no time more than 16 regions are needed. -/
def Roomy (memory reserved : List Region) : Prop :=
  ∀ n ≤ reserved.length, (cutEach (boundsOf memory) (reservedBounds (reserved.take n))).length ≤ maxMemory

/-- Carving one range after the other. -/
def carveAll (memory reserved : List Region) : List Region :=
  reserved.foldl (fun memory r => memblockCarve r.base (r.base + r.size) memory) memory

theorem memblockCarveReserved_memory (mb : Memblock) :
    (memblockCarveReserved mb).memory = carveAll mb.memory mb.reserved := rfl

theorem carveAll_append (memory reserved : List Region) (r : Region) :
    carveAll memory (reserved ++ [r]) = memblockCarve r.base (r.base + r.size) (carveAll memory reserved) := by
  simp [carveAll]

theorem reservedBounds_append (reserved : List Region) (r : Region) :
    reservedBounds (reserved ++ [r]) = reservedBounds reserved ++ [(r.base.toNat, (r.base + r.size).toNat)] := by
  simp [reservedBounds]

/-- **All carves.** -/
theorem carveAll_spec (regions : Regions l) (reserved : List Region) :
    Regions (carveAll l reserved) ∧ bytesOf (carveAll l reserved) ⊆ bytesOf l \ covered (reservedBounds reserved) ∧
      (Roomy l reserved → (boundsOf (carveAll l reserved)).Perm (cutEach (boundsOf l) (reservedBounds reserved))) := by
  induction reserved using List.reverseRecOn with
  | nil => exact ⟨regions, by simp [carveAll, reservedBounds, covered], fun _ => .refl _⟩
  | append_singleton reserved r ih =>
      obtain ⟨before, inside, exact_⟩ := ih
      obtain ⟨after, inside', exact'⟩ := memblockCarve_spec before r.base (r.base + r.size)
      rw [carveAll_append, reservedBounds_append]
      refine ⟨after, fun x member => ?_, fun roomy => ?_⟩
      · obtain ⟨member, outside⟩ := inside' member
        obtain ⟨member, outside'⟩ := inside member
        refine ⟨member, ?_⟩
        rintro ⟨p, there, within⟩
        rcases List.mem_append.1 there with there | there
        · exact outside' ⟨p, there, within⟩
        · rw [List.mem_singleton.1 there] at within
          exact outside within
      · -- the cuts before had room too
        have roomy' : Roomy l reserved := by
          intro n le
          have := roomy n (by simp; omega)
          rwa [List.take_append_of_le_length le] at this
        have same := exact_ roomy'
        have step := cutEach_perm same (r.base.toNat, (r.base + r.size).toNat)
        have last := roomy (reserved ++ [r]).length (Nat.le_refl _)
        rw [List.take_length, reservedBounds_append, cutEach_append] at last
        rw [cutEach_append]
        exact (exact' (step.length_eq ▸ last)).trans step

/-- A range that does not wrap is cut out as a whole. -/
theorem covered_reservedBounds {reserved : List Region} (fit : ∀ r ∈ reserved, r.base.toNat + r.size.toNat < 2 ^ 64) :
    covered (reservedBounds reserved) = bytesOf reserved := by
  rw [bytesOf_eq]
  have same : reservedBounds reserved = boundsOf reserved := by
    refine List.map_congr_left fun r member => ?_
    rw [Region.bounds, UInt64.toNat_add, Nat.mod_eq_of_lt (fit r member)]
  rw [same]

/-- **Carving the reserved ranges is the set difference**, where none of them wraps. -/
theorem carve_reserved_difference {mb : Memblock} (regions : Regions mb.memory)
    (fit : ∀ r ∈ mb.reserved, r.base.toNat + r.size.toNat < 2 ^ 64) :
    Regions (memblockCarveReserved mb).memory ∧
      bytesOf (memblockCarveReserved mb).memory ⊆ bytesOf mb.memory \ bytesOf mb.reserved ∧
      (Roomy mb.memory mb.reserved →
        bytesOf (memblockCarveReserved mb).memory = bytesOf mb.memory \ bytesOf mb.reserved) := by
  obtain ⟨after, inside, exact_⟩ := carveAll_spec regions mb.reserved
  rw [covered_reservedBounds fit] at inside
  refine ⟨after, inside, fun roomy => ?_⟩
  rw [memblockCarveReserved_memory, bytesOf_eq, covered_perm (exact_ roomy), covered_cutEach,
    covered_reservedBounds fit, bytesOf_eq mb.memory]

end Carve

/-- A machine with a hole for the kernel in each of two regions. -/
def twoHoles : Memblock := ⟨[⟨0, 0x10000⟩, ⟨0x20000, 0x10000⟩], [⟨0, 0x1000⟩, ⟨0x28000, 0x1000⟩]⟩

theorem twoHoles_regions : Regions twoHoles.memory where
  whole := by
    intro m member
    simp only [twoHoles, List.mem_cons, List.not_mem_nil, or_false] at member
    rcases member with rfl | rfl <;> exact ⟨by decide, by decide⟩
  apart := by
    simp [twoHoles, Region.bytes, Region.bounds, span]
  few := by decide

theorem carve_two_holes :
    bytesOf (memblockCarveReserved twoHoles).memory = bytesOf twoHoles.memory \ bytesOf twoHoles.reserved := by
  have fit : ∀ r ∈ twoHoles.reserved, r.base.toNat + r.size.toNat < 2 ^ 64 := by decide
  refine (carve_reserved_difference twoHoles_regions fit).2.2 fun n le => ?_
  have small : n ≤ 2 := le
  interval_cases n <;> decide

/-- A reserved range that wraps. -/
def wrapping : Memblock := ⟨[⟨0x1000, 0x1000⟩], [⟨0x1800, 0xfffffffffffff800⟩]⟩

/-- **It is skipped**: its first byte is still there. -/
theorem wrapping_range_skipped :
    Regions wrapping.memory ∧ 0x1800 ∈ bytesOf wrapping.reserved ∧
      0x1800 ∈ bytesOf (memblockCarveReserved wrapping).memory := by
  have same : (memblockCarveReserved wrapping).memory = wrapping.memory := by
    simp [memblockCarveReserved, wrapping, memblockCarve]
  refine ⟨⟨?_, by simp [wrapping], by decide⟩, ⟨⟨0x1800, 0xfffffffffffff800⟩, by simp [wrapping], ?_⟩, ?_⟩
  · intro m member
    rw [List.mem_singleton.1 member]
    exact ⟨by decide, by decide⟩
  · exact ⟨by decide, by decide⟩
  · rw [same]
    exact ⟨⟨0x1000, 0x1000⟩, by simp [wrapping], by decide, by decide⟩

end Minus.Mm.Boot
