/-
# Mm.MemblockAlloc — the allocations of the boot

`memblock_alloc_aligned` of `kernel/mm/memblock.c`: a block is taken from the front
of the first region that has room for it behind the alignment gap, and what lies
before its end is given up.  Address 0 is never returned, also where memory starts
there.

One call keeps the memory, the reserved ranges and the blocks of all earlier calls
apart (`memblockAllocAligned_spec`), so every call of a run does
(`allocations_disjoint`).
-/
import Minus.Mm.Memblock

namespace Minus.Mm.Boot

set_option autoImplicit false

open Minus.Theory

/-! ## memblock_alloc_aligned -/

def memblockAddReserved (mb : Memblock) (base size : UInt64) : Memblock :=
  if maxReserved ≤ mb.reserved.length ∨ size = 0 then mb else { mb with reserved := mb.reserved ++ [⟨base, size⟩] }

/-- Where a block would start in a region. -/
def allocBase (align : UInt64) (m : Region) : UInt64 :=
  let base := maskUp m.base align
  if base = 0 then align else base

/-- The loop over the regions: the block, and the regions after it is taken. -/
def allocLoop (allocSize align : UInt64) : List Region → Option (UInt64 × List Region)
  | [] => none
  | m :: rest =>
      let base := allocBase align m
      let last := m.base + m.size
      if last < base + allocSize then (allocLoop allocSize align rest).map fun found => (found.1, m :: found.2)
      else some (base, ⟨base + allocSize, last - (base + allocSize)⟩ :: rest)

/-- `memblock_alloc_aligned`; `NULL` is 0. -/
def memblockAllocAligned (mb : Memblock) (size align : UInt64) : Memblock × UInt64 :=
  if size = 0 then (mb, 0)
  else
    match allocLoop (maskUp size align) align mb.memory with
    | none => (mb, 0)
    | some (base, memory) => ({ memblockAddReserved mb base (maskUp size align) with memory := memory }, base)

/-- A call, and the blocks that the calls so far have returned. -/
def allocStep (s : Memblock × List Region) (call : UInt64 × UInt64) : Memblock × List Region :=
  let (mb, p) := memblockAllocAligned s.1 call.1 call.2
  (mb, if p = 0 then s.2 else s.2 ++ [⟨p, call.1⟩])

def allocRun (mb : Memblock) (calls : List (UInt64 × UInt64)) : Memblock × List Region :=
  calls.foldl allocStep (mb, [])

/-! ## What is asked of it -/

/-- The arguments of a call: a size, and an alignment that is a power of two, below 2^48. -/
structure Request (call : UInt64 × UInt64) : Prop where
  some_ : 1 ≤ call.1.toNat
  size : call.1.toNat < 2 ^ 48
  align : call.2.toNat < 2 ^ 48
  power : call.2.toNat.isPowerOfTwo

/-- The memory lies below 2^48, in regions that share no byte with each other, with a reserved range
or with a block that was returned. -/
structure Carved (s : Memblock × List Region) : Prop where
  low : ∀ m ∈ s.1.memory, m.base.toNat + m.size.toNat ≤ 2 ^ 48
  apart : s.1.memory.Pairwise fun m m' => Disjoint m.bytes m'.bytes
  reserved : ∀ m ∈ s.1.memory, ∀ r ∈ s.1.reserved, Disjoint m.bytes r.bytes
  granted : ∀ m ∈ s.1.memory, ∀ g ∈ s.2, Disjoint m.bytes g.bytes

/-- A region holds an aligned block of a size, at an address other than 0. -/
def Holds (size align : Nat) (m : Region) : Prop :=
  ∃ p, p ≠ 0 ∧ align ∣ p ∧ m.bounds.1 ≤ p ∧ p + size ≤ m.bounds.2

/-- What a call that finds `s` promises about its result `p` and the memory after it. -/
structure Granted (s : Memblock × List Region) (call : UInt64 × UInt64) (mb : Memblock) (p : UInt64) : Prop where
  aligned : p ≠ 0 → call.2.toNat ∣ p.toNat
  inside : p ≠ 0 → ∃ m ∈ s.1.memory, (⟨p, call.1⟩ : Region).bytes ⊆ m.bytes
  earlier : p ≠ 0 → ∀ g ∈ s.2, Disjoint (⟨p, call.1⟩ : Region).bytes g.bytes
  left : p ≠ 0 → ∀ m ∈ mb.memory, Disjoint (⟨p, call.1⟩ : Region).bytes m.bytes
  reserved : p ≠ 0 → ∀ r ∈ s.1.reserved, Disjoint (⟨p, call.1⟩ : Region).bytes r.bytes
  null : p = 0 → ∀ m ∈ s.1.memory, ¬ Holds (roundUp call.1.toNat call.2.toNat) call.2.toNat m

section Allocate

variable {s : Memblock × List Region} {call : UInt64 × UInt64} {m : Region} {memory memory' : List Region}
variable {size align allocSize p : UInt64}

/-! ## One region -/

theorem Request.allocSize_toNat (request : Request call) :
    (maskUp call.1 call.2).toNat = roundUp call.1.toNat call.2.toNat := by
  have below := roundUp_lt (x := call.1.toNat) (isPowerOfTwo_pos request.power)
  have size := request.size
  have align := request.align
  rw [maskUp_toNat request.power]
  exact Nat.mod_eq_of_lt (by omega)

/-- **The block starts at the least multiple of the alignment in the region**, 0 left out. -/
theorem allocBase_spec (request : Request call) (low : m.base.toNat + m.size.toNat ≤ 2 ^ 48) :
    (allocBase call.2 m).toNat ≠ 0 ∧ call.2.toNat ∣ (allocBase call.2 m).toNat ∧
      m.bounds.1 ≤ (allocBase call.2 m).toNat ∧ (allocBase call.2 m).toNat < 2 ^ 49 ∧
      ∀ p, p ≠ 0 → call.2.toNat ∣ p → m.bounds.1 ≤ p → (allocBase call.2 m).toNat ≤ p := by
  have positive := isPowerOfTwo_pos request.power
  have align := request.align
  have below := roundUp_lt (x := m.base.toNat) positive
  have up : (maskUp m.base call.2).toNat = roundUp m.base.toNat call.2.toNat := by
    rw [maskUp_toNat request.power]
    exact Nat.mod_eq_of_lt (by omega)
  have least := fun p multiple => (roundUp_le_iff (x := m.base.toNat) (y := p) positive multiple).2
  have above : m.base.toNat ≤ roundUp m.base.toNat call.2.toNat := le_roundUp positive
  rw [allocBase]
  split
  · -- memory from address 0 on
    have zero : roundUp m.base.toNat call.2.toNat = 0 := by
      rw [← up, ‹maskUp m.base call.2 = 0›]
      rfl
    refine ⟨by omega, Nat.dvd_refl _, ?_, by omega, fun p some_ multiple _ => ?_⟩
    · show m.base.toNat ≤ _
      omega
    · exact Nat.le_of_dvd (Nat.pos_of_ne_zero some_) multiple
  · have some_ : (maskUp m.base call.2).toNat ≠ 0 := fun zero => ‹¬ _› (UInt64.toNat_inj.1 zero)
    rw [up] at some_ ⊢
    exact ⟨some_, dvd_roundUp _ _, above, by omega, fun p _ multiple le => least p multiple le⟩

/-- The test of the loop asks whether the region holds the block. -/
theorem fits_iff (request : Request call) (low : m.base.toNat + m.size.toNat ≤ 2 ^ 48) :
    ¬ m.base + m.size < allocBase call.2 m + maskUp call.1 call.2 ↔
      Holds (roundUp call.1.toNat call.2.toNat) call.2.toNat m := by
  obtain ⟨some_, multiple, above, below, least⟩ := allocBase_spec request low
  have up := roundUp_lt (x := call.1.toNat) (isPowerOfTwo_pos request.power)
  have size := request.size
  have align := request.align
  have last : (m.base + m.size).toNat = m.bounds.2 := by
    rw [UInt64.toNat_add]
    exact Nat.mod_eq_of_lt (by omega)
  have stop : (allocBase call.2 m + maskUp call.1 call.2).toNat =
      (allocBase call.2 m).toNat + roundUp call.1.toNat call.2.toNat := by
    rw [UInt64.toNat_add, request.allocSize_toNat]
    exact Nat.mod_eq_of_lt (by omega)
  rw [UInt64.lt_iff_toNat_lt, last, stop, Nat.not_lt]
  constructor
  · exact fun fits => ⟨_, some_, multiple, above, fits⟩
  · rintro ⟨p, some', multiple', above', fits⟩
    have := least p some' multiple' above'
    omega

/-! ## One call -/

theorem allocLoop_none (none_ : allocLoop allocSize align memory = none) :
    ∀ m ∈ memory, m.base + m.size < allocBase align m + allocSize := by
  induction memory with
  | nil => simp
  | cons m rest ih =>
      rw [allocLoop] at none_
      split at none_
      · rw [Option.map_eq_none_iff] at none_
        exact List.forall_mem_cons.2 ⟨‹_›, ih none_⟩
      · cases none_

theorem allocLoop_some (found : allocLoop allocSize align memory = some (p, memory')) :
    ∃ before m after, memory = before ++ m :: after ∧ p = allocBase align m ∧
      ¬ m.base + m.size < p + allocSize ∧
      memory' = before ++ ⟨p + allocSize, m.base + m.size - (p + allocSize)⟩ :: after := by
  induction memory generalizing memory' with
  | nil => cases found
  | cons m rest ih =>
      rw [allocLoop] at found
      split at found
      · obtain ⟨⟨p', rest'⟩, inner, same⟩ := Option.map_eq_some_iff.1 found
        simp only [Prod.mk.injEq] at same
        obtain ⟨rfl, rfl⟩ := same
        obtain ⟨before, m', after, rfl, base, fits, rest_⟩ := ih inner
        exact ⟨m :: before, m', after, rfl, base, fits, by rw [rest_]; rfl⟩
      · obtain ⟨rfl, rfl⟩ := Prod.mk.inj (Option.some.inj found)
        exact ⟨[], m, rest, rfl, rfl, ‹_›, rfl⟩

/-- **A block and what is left of its region**: both lie in the region, and they share no byte. -/
theorem taken_spec (request : Request call) (low : m.base.toNat + m.size.toNat ≤ 2 ^ 48)
    (fits : ¬ m.base + m.size < allocBase call.2 m + maskUp call.1 call.2) :
    let taken : Region := ⟨allocBase call.2 m, maskUp call.1 call.2⟩
    let tail : Region := ⟨allocBase call.2 m + maskUp call.1 call.2,
      m.base + m.size - (allocBase call.2 m + maskUp call.1 call.2)⟩
    taken.bytes ⊆ m.bytes ∧ tail.bytes ⊆ m.bytes ∧ Disjoint tail.bytes taken.bytes ∧
      (⟨allocBase call.2 m, call.1⟩ : Region).bytes ⊆ taken.bytes ∧ tail.base.toNat + tail.size.toNat ≤ 2 ^ 48 := by
  obtain ⟨some_, multiple, above, below, -⟩ := allocBase_spec request low
  have up := roundUp_lt (x := call.1.toNat) (isPowerOfTwo_pos request.power)
  have atLeast : call.1.toNat ≤ roundUp call.1.toNat call.2.toNat := le_roundUp (isPowerOfTwo_pos request.power)
  have size := request.size
  have align := request.align
  have rounded := request.allocSize_toNat
  have stop : (allocBase call.2 m + maskUp call.1 call.2).toNat =
      (allocBase call.2 m).toNat + (maskUp call.1 call.2).toNat := by
    rw [UInt64.toNat_add]
    exact Nat.mod_eq_of_lt (by omega)
  have last : (m.base + m.size).toNat = m.base.toNat + m.size.toNat := by
    rw [UInt64.toNat_add]
    exact Nat.mod_eq_of_lt (by omega)
  have fits_ := UInt64.not_lt.1 fits
  have rest := UInt64.toNat_sub_of_le _ _ fits_
  have fits_ := UInt64.le_iff_toNat_le.1 fits_
  change m.base.toNat ≤ _ at above
  simp only [Region.bytes, Region.bounds, span]
  refine ⟨Set.Ico_subset_Ico (by omega) (by omega), Set.Ico_subset_Ico (by omega) (by omega),
    Set.Ico_disjoint_Ico.2 (by omega), Set.Ico_subset_Ico (Nat.le_refl _) (by omega), by omega⟩

theorem mem_addReserved {mb : Memblock} {r : Region}
    (member : r ∈ (memblockAddReserved mb p allocSize).reserved) : r ∈ mb.reserved ∨ r = ⟨p, allocSize⟩ := by
  rw [memblockAddReserved] at member
  split at member
  · exact .inl member
  · simpa using member

/-- The regions after a block is taken from one of them. -/
theorem shrunk_spec {before after : List Region} {tail taken : Region}
    (apart : (before ++ m :: after).Pairwise fun m m' => Disjoint m.bytes m'.bytes) (tailIn : tail.bytes ⊆ m.bytes)
    (takenIn : taken.bytes ⊆ m.bytes) (disjoint : Disjoint tail.bytes taken.bytes) :
    (before ++ tail :: after).Pairwise (fun m m' => Disjoint m.bytes m'.bytes) ∧
      ∀ m' ∈ before ++ tail :: after, Disjoint m'.bytes taken.bytes ∧
        (m' = tail ∨ m' ∈ before ++ m :: after) := by
  obtain ⟨front, back, across⟩ := List.pairwise_append.1 apart
  obtain ⟨own, back⟩ := List.pairwise_cons.1 back
  refine ⟨List.pairwise_append.2 ⟨front, List.pairwise_cons.2 ⟨fun m' member => ?_, back⟩, fun a inFront b inBack => ?_⟩,
    fun m' member => ?_⟩
  · exact (own m' member).mono_left tailIn
  · rcases List.mem_cons.1 inBack with rfl | inBack
    · exact (across a inFront m List.mem_cons_self).mono_right tailIn
    · exact across a inFront b (List.mem_cons_of_mem _ inBack)
  · rcases List.mem_append.1 member with inFront | inBack
    · exact ⟨(across m' inFront m List.mem_cons_self).mono_right takenIn, .inr (List.mem_append_left _ inFront)⟩
    · rcases List.mem_cons.1 inBack with rfl | inBack
      · exact ⟨disjoint, .inl rfl⟩
      · exact ⟨((own m' inBack).mono_left takenIn).symm,
          .inr (List.mem_append_right _ (List.mem_cons_of_mem _ inBack))⟩

/-- **One call keeps what it finds**: its result is as promised, and the memory is carved after it. -/
theorem memblockAllocAligned_spec (carved : Carved s) (request : Request call) :
    Granted s call (memblockAllocAligned s.1 call.1 call.2).1 (memblockAllocAligned s.1 call.1 call.2).2 ∧
      Carved (allocStep s call) := by
  have some_ : call.1 ≠ 0 := by
    intro zero
    have := request.some_
    rw [zero] at this
    exact absurd this (by decide)
  cases loop : allocLoop (maskUp call.1 call.2) call.2 s.1.memory with
  | none =>
      have out : memblockAllocAligned s.1 call.1 call.2 = (s.1, 0) := by simp [memblockAllocAligned, some_, loop]
      have step : allocStep s call = s := by simp [allocStep, out]
      rw [out, step]
      refine ⟨⟨by simp, by simp, by simp, by simp, by simp, fun _ m member holds => ?_⟩, carved⟩
      exact (fits_iff request (carved.low m member)).2 holds (allocLoop_none loop m member)
  | some found =>
      obtain ⟨p, memory'⟩ := found
      obtain ⟨before, m, after, memory, rfl, fits, rfl⟩ := allocLoop_some loop
      have member : m ∈ s.1.memory := memory ▸ List.mem_append_right _ List.mem_cons_self
      have out : memblockAllocAligned s.1 call.1 call.2 =
          ({ memblockAddReserved s.1 (allocBase call.2 m) (maskUp call.1 call.2) with
            memory := before ++ ⟨allocBase call.2 m + maskUp call.1 call.2,
              m.base + m.size - (allocBase call.2 m + maskUp call.1 call.2)⟩ :: after }, allocBase call.2 m) := by
        simp [memblockAllocAligned, some_, loop]
      obtain ⟨nonzero, multiple, -⟩ := allocBase_spec request (carved.low m member)
      have nonnull : allocBase call.2 m ≠ 0 := fun zero => nonzero (congrArg UInt64.toNat zero)
      obtain ⟨takenIn, tailIn, disjoint, within, tailLow⟩ := taken_spec request (carved.low m member) fits
      obtain ⟨apart, shrunk⟩ := shrunk_spec (memory ▸ carved.apart) tailIn takenIn disjoint
      -- what is left lies in the regions as they were
      have old : ∀ m' ∈ before ++ _ :: after, ∃ m₀ ∈ s.1.memory, m'.bytes ⊆ m₀.bytes := fun m' there => by
        rcases (shrunk m' there).2 with rfl | there
        · exact ⟨m, member, tailIn⟩
        · exact ⟨m', memory ▸ there, Set.Subset.refl _⟩
      have step : allocStep s call = ({ memblockAddReserved s.1 (allocBase call.2 m) (maskUp call.1 call.2) with
          memory := before ++ ⟨allocBase call.2 m + maskUp call.1 call.2,
            m.base + m.size - (allocBase call.2 m + maskUp call.1 call.2)⟩ :: after },
          s.2 ++ [⟨allocBase call.2 m, call.1⟩]) := by simp [allocStep, out, nonnull]
      rw [out, step]
      refine ⟨⟨fun _ => multiple, fun _ => ⟨m, member, within.trans takenIn⟩, fun _ g there => ?_, fun _ m' there => ?_,
        fun _ r there => ?_, fun zero => absurd zero nonnull⟩, ⟨fun m' there => ?_, apart, fun m' there r inReserved => ?_,
        fun m' there g inGranted => ?_⟩⟩
      · exact (carved.granted m member g there).mono_left (within.trans takenIn)
      · exact ((shrunk m' there).1.mono_right within).symm
      · exact (carved.reserved m member r there).mono_left (within.trans takenIn)
      · rcases (shrunk m' there).2 with rfl | there
        · exact tailLow
        · exact carved.low m' (memory ▸ there)
      · obtain ⟨m₀, there₀, le⟩ := old m' there
        rcases mem_addReserved inReserved with inReserved | rfl
        · exact (carved.reserved m₀ there₀ r inReserved).mono_left le
        · exact (shrunk m' there).1
      · obtain ⟨m₀, there₀, le⟩ := old m' there
        rcases List.mem_append.1 inGranted with inGranted | own
        · exact (carved.granted m₀ there₀ g inGranted).mono_left le
        · rw [List.mem_singleton.1 own]
          exact (shrunk m' there).1.mono_right within

/-! ## A run -/

theorem allocRun_carved {mb : Memblock} (carved : Carved (mb, [])) {calls : List (UInt64 × UInt64)}
    (requests : ∀ call ∈ calls, Request call) : Carved (allocRun mb calls) := by
  induction calls using List.reverseRecOn with
  | nil => exact carved
  | append_singleton calls call ih =>
      have before := ih fun call' member => requests call' (List.mem_append_left _ member)
      rw [allocRun, List.foldl_append]
      exact (memblockAllocAligned_spec before (requests call (by simp))).2

/-- **The allocations of the boot**: after any calls, one more returns an aligned block in the memory,
apart from all earlier blocks, the reserved ranges and what is left; it fails only where no
region has such a block behind address 0. -/
theorem allocations_disjoint {mb : Memblock} (carved : Carved (mb, [])) {calls : List (UInt64 × UInt64)}
    (requests : ∀ call ∈ calls, Request call) {call : UInt64 × UInt64} (request : Request call) :
    Granted (allocRun mb calls) call (memblockAllocAligned (allocRun mb calls).1 call.1 call.2).1
      (memblockAllocAligned (allocRun mb calls).1 call.1 call.2).2 :=
  (memblockAllocAligned_spec (allocRun_carved carved requests) request).1

/-- The memory is carved where the reserved ranges have been cut out of it. -/
theorem carved_of_reserved {mb : Memblock} (regions : Regions mb.memory)
    (fit : ∀ r ∈ mb.reserved, r.base.toNat + r.size.toNat < 2 ^ 64)
    (low : ∀ x ∈ bytesOf mb.memory, x < 2 ^ 48) : Carved (memblockCarveReserved mb, []) := by
  obtain ⟨after, inside, -⟩ := carve_reserved_difference regions fit
  refine ⟨fun m member => ?_, after.apart, fun m member r reserved => ?_, by simp⟩
  · -- the last byte of the region was in the memory
    have less : m.base.toNat < m.base.toNat + m.size.toNat := (after.whole m member).lt
    have last : m.base.toNat + m.size.toNat - 1 ∈ m.bytes := by
      simp only [Region.bytes, Region.bounds, mem_span]
      omega
    have below := low _ (inside ⟨m, member, last⟩).1
    omega
  · exact Set.disjoint_left.2 fun x own shared => (inside ⟨m, member, own⟩).2 ⟨r, reserved, shared⟩

end Allocate

/-- The two regions of `twoHoles`, carved. -/
theorem twoHoles_carved : Carved (memblockCarveReserved twoHoles, []) := by
  refine carved_of_reserved twoHoles_regions (by decide) ?_
  simp [bytesOf, twoHoles, Region.bytes, Region.bounds]
  omega

theorem twoHoles_carvedMemory : memblockCarveReserved twoHoles =
    ⟨[⟨0x1000, 0xf000⟩, ⟨0x20000, 0x8000⟩, ⟨0x29000, 0x7000⟩], twoHoles.reserved⟩ := by
  simp [memblockCarveReserved, twoHoles, memblockCarve, carveLoop, maxMemory]

/-- A page table of 4 KiB after a smaller block. -/
theorem allocations_page_table :
    (memblockAllocAligned (allocRun (memblockCarveReserved twoHoles) [(24, 8)]).1 0x1000 0x1000).2 = 0x2000 ∧
      Granted (allocRun (memblockCarveReserved twoHoles) [(24, 8)]) (0x1000, 0x1000)
        (memblockAllocAligned (allocRun (memblockCarveReserved twoHoles) [(24, 8)]).1 0x1000 0x1000).1
        (memblockAllocAligned (allocRun (memblockCarveReserved twoHoles) [(24, 8)]).1 0x1000 0x1000).2 := by
  have small : Request (24, 8) := ⟨by decide, by decide, by decide, 3, by decide⟩
  have page : Request (0x1000, 0x1000) := ⟨by decide, by decide, by decide, 12, by decide⟩
  refine ⟨?_, allocations_disjoint twoHoles_carved (by simpa using small) page⟩
  rw [twoHoles_carvedMemory]
  decide

/-- Memory of one page, from address 0 on. -/
def firstPage : Memblock := ⟨[⟨0, 0x1000⟩], []⟩

/-- **Its page is not given out**, though it is aligned and has the size. -/
theorem first_page_refused :
    Carved (firstPage, []) ∧ Request (0x1000, 0x1000) ∧ (memblockAllocAligned firstPage 0x1000 0x1000).2 = 0 ∧
      ∃ m ∈ firstPage.memory, 0x1000 ∣ 0 ∧ m.bounds.1 ≤ 0 ∧ 0 + roundUp 0x1000 0x1000 ≤ m.bounds.2 := by
  refine ⟨⟨?_, by simp [firstPage], by simp [firstPage], by simp⟩, ⟨by decide, by decide, by decide, 12, by decide⟩,
    by decide, ⟨0, 0x1000⟩, by simp [firstPage], by decide, by decide, by decide⟩
  intro m member
  rw [List.mem_singleton.1 member]
  decide

end Minus.Mm.Boot
