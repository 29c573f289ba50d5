/-
# Mm.PageConv — addresses, page frame numbers and pages

The conversion macros of `include/mm/page.h` over the page array that
`page_env_prepare` sets up.  A page is the address of its `struct page`.
`size_t` has 32 bits in this kernel, an address 64: `phy_to_pfn` cuts the number
of the page to 32 bits, which loses nothing below 2^44, and `pfn_to_phy` shifts
it back in 32 bits, which loses all from 4 GiB on.

Pages and their numbers are inverse everywhere (`pageToPfn_pfnToPage`).
Addresses come back exactly below 4 GiB (`conversions_inverse_iff`).
-/
import Minus.Mm.Slab

namespace Minus.Mm.PageConv

set_option autoImplicit false

open Minus.Mm.Buddy (alignDown alignDown_toNat)

/-- `sizeof(struct page)`. -/
def structPageSize : UInt64 := 24

/-- What `page_env_prepare` finds: the ends of the memory within the 40 bits of `TCR_EL1`, the
place of the page array, and the load offset. -/
structure PageEnv where
  memoryStart : UInt64
  memoryEnd : UInt64
  pagesPa : UInt64
  gLoadOffset : UInt64
  ordered : memoryStart ≤ memoryEnd
  bounded : memoryEnd.toNat ≤ 2 ^ 40

/-- `phy_to_pfn`. -/
def phyToPfn (paddr : UInt64) : UInt32 := (paddr >>> 12).toUInt32

/-- `pfn_to_phy`: the shift has the width of its operand. -/
def pfnToPhy (pfn : UInt32) : UInt32 := pfn <<< 12

namespace PageEnv

variable (env : PageEnv)

/-- `__VA_PA__`. -/
def vaPa (x : UInt64) : UInt64 := x + env.gLoadOffset

/-- `__PA_VA__`. -/
def paVa (x : UInt64) : UInt64 := x - env.gLoadOffset

def gPfnOffset : UInt32 := (env.memoryStart >>> 12).toUInt32

def totalPages : UInt64 := (env.memoryEnd - env.memoryStart) >>> 12

def gMemPages : UInt64 := env.paVa env.pagesPa

/-- `&g_mem_pages[pfn - g_pfn_offset]`, with the index in 32 bits. -/
def pfnToPage (pfn : UInt32) : UInt64 := env.gMemPages + structPageSize * (pfn - env.gPfnOffset).toUInt64

/-- `(size_t)(page - g_mem_pages + g_pfn_offset)`. -/
def pageToPfn (page : UInt64) : UInt32 :=
  ((page - env.gMemPages) / structPageSize + env.gPfnOffset.toUInt64).toUInt32

def pageToPhy (page : UInt64) : UInt32 := pfnToPhy (env.pageToPfn page)

def phyToPage (paddr : UInt64) : UInt64 := env.pfnToPage (phyToPfn paddr)

def virtToPage (vaddr : UInt64) : UInt64 := env.phyToPage (env.vaPa vaddr)

def pageToVirt (page : UInt64) : UInt64 := env.paVa (env.pageToPhy page).toUInt64

/-- The page frame numbers that have an entry in the page array. -/
def Managed (pfn : UInt32) : Prop :=
  env.gPfnOffset.toNat ≤ pfn.toNat ∧ pfn.toNat < env.gPfnOffset.toNat + env.totalPages.toNat

/-- The conversions are inverse to each other: from an address, from a page frame number, and from
a page. -/
structure Inverse : Prop where
  address : ∀ pa, env.memoryStart ≤ pa → pa < env.memoryEnd →
    (env.pageToPhy (env.phyToPage pa)).toUInt64 = alignDown pa
  number : ∀ pfn, env.Managed pfn → env.pageToPfn (env.pfnToPage pfn) = pfn
  page : ∀ pfn, env.Managed pfn → env.virtToPage (env.pageToVirt (env.pfnToPage pfn)) = env.pfnToPage pfn

/-! ## Numbers and pages -/

@[simp] theorem vaPa_paVa (x : UInt64) : env.vaPa (env.paVa x) = x := by
  simp [vaPa, paVa]

/-- **From a number to its page and back**, for every number. -/
@[simp] theorem pageToPfn_pfnToPage (pfn : UInt32) : env.pageToPfn (env.pfnToPage pfn) = pfn := by
  have index : structPageSize * (pfn - env.gPfnOffset).toUInt64 / structPageSize = (pfn - env.gPfnOffset).toUInt64 := by
    apply UInt64.toNat_inj.1
    have small := (pfn - env.gPfnOffset).toNat_lt
    simp only [structPageSize, UInt64.toNat_div, UInt64.toNat_mul, UInt32.toNat_toUInt64, UInt64.reduceToNat]
    omega
  have apart : env.pfnToPage pfn - env.gMemPages = structPageSize * (pfn - env.gPfnOffset).toUInt64 := by
    rw [pfnToPage, UInt64.add_comm, UInt64.add_sub_cancel]
  rw [pageToPfn, apart, index, UInt64.toUInt32_add, UInt32.toUInt32_toUInt64, UInt32.toUInt32_toUInt64,
    UInt32.sub_add_cancel]

theorem pfnToPage_inj {pfn pfn' : UInt32} : env.pfnToPage pfn = env.pfnToPage pfn' ↔ pfn = pfn' :=
  ⟨fun same => by simpa using congrArg env.pageToPfn same, fun same => same ▸ rfl⟩

/-! ## Addresses -/

theorem phyToPfn_toNat {paddr : UInt64} (below : paddr.toNat < 2 ^ 44) : (phyToPfn paddr).toNat = paddr.toNat / 4096 := by
  simp [phyToPfn, Nat.shiftRight_eq_div_pow]
  omega

/-- `pfn_to_phy` keeps the address modulo 4 GiB. -/
theorem pfnToPhy_toNat (pfn : UInt32) : (pfnToPhy pfn).toNat = pfn.toNat * 4096 % 2 ^ 32 := by
  simp [pfnToPhy, Nat.shiftLeft_eq]

@[simp] theorem pageToPhy_pfnToPage (pfn : UInt32) : env.pageToPhy (env.pfnToPage pfn) = pfnToPhy pfn := by
  simp [pageToPhy]

/-- **From an address to its page and back**: exact below 4 GiB, and nowhere else. -/
theorem pageToPhy_phyToPage_iff {pa : UInt64} (below : pa.toNat < 2 ^ 44) :
    (env.pageToPhy (env.phyToPage pa)).toUInt64 = alignDown pa ↔ pa.toNat < 2 ^ 32 := by
  rw [phyToPage, pageToPhy_pfnToPage, ← UInt64.toNat_inj, UInt32.toNat_toUInt64, pfnToPhy_toNat,
    phyToPfn_toNat below, alignDown_toNat]
  omega

/-- **From a page to its virtual address and back**: exact for the pages below 4 GiB. -/
theorem virtToPage_pageToVirt_iff (pfn : UInt32) :
    env.virtToPage (env.pageToVirt (env.pfnToPage pfn)) = env.pfnToPage pfn ↔ pfn.toNat < 2 ^ 20 := by
  have small := (pfnToPhy pfn).toNat_lt
  rw [virtToPage, pageToVirt, vaPa_paVa, phyToPage, pageToPhy_pfnToPage, pfnToPage_inj, ← UInt32.toNat_inj,
    phyToPfn_toNat (by rw [UInt32.toNat_toUInt64]; omega), UInt32.toNat_toUInt64, pfnToPhy_toNat]
  omega

theorem gPfnOffset_toNat : env.gPfnOffset.toNat = env.memoryStart.toNat / 4096 := by
  have ordered := UInt64.le_iff_toNat_le.1 env.ordered
  have bounded := env.bounded
  exact phyToPfn_toNat (by omega)

theorem totalPages_toNat : env.totalPages.toNat = (env.memoryEnd.toNat - env.memoryStart.toNat) / 4096 := by
  simp [totalPages, UInt64.toNat_sub_of_le _ _ env.ordered, Nat.shiftRight_eq_div_pow]

/-- **The conversions are inverse to each other exactly if no memory lies at 4 GiB or above.** -/
theorem conversions_inverse_iff :
    env.Inverse ↔ env.memoryEnd.toNat ≤ 2 ^ 32 ∨ env.memoryEnd = env.memoryStart := by
  have ordered := UInt64.le_iff_toNat_le.1 env.ordered
  have bounded := env.bounded
  constructor
  · intro inverse
    by_cases empty : env.memoryEnd = env.memoryStart
    · exact .inr empty
    -- the last byte of the memory
    have differ : env.memoryEnd.toNat ≠ env.memoryStart.toNat := fun same => empty (UInt64.toNat_inj.1 same)
    have last : (env.memoryEnd - 1).toNat = env.memoryEnd.toNat - 1 :=
      UInt64.toNat_sub_of_le _ _ (UInt64.le_iff_toNat_le.2 (by simp only [UInt64.reduceToNat]; omega))
    have exact_ := inverse.address (env.memoryEnd - 1) (UInt64.le_iff_toNat_le.2 (by omega))
      (UInt64.lt_iff_toNat_lt.2 (by omega))
    rw [pageToPhy_phyToPage_iff env (by omega)] at exact_
    exact .inl (by omega)
  · intro low
    refine ⟨fun pa first inside => ?_, fun pfn _ => by simp, fun pfn managed => ?_⟩
    · have first := UInt64.le_iff_toNat_le.1 first
      have inside := UInt64.lt_iff_toNat_lt.1 inside
      rcases low with low | empty
      · exact (pageToPhy_phyToPage_iff env (by omega)).2 (by omega)
      · rw [empty] at inside
        omega
    · obtain ⟨first, inside⟩ := managed
      rw [gPfnOffset_toNat] at first
      rw [gPfnOffset_toNat, totalPages_toNat] at inside
      refine (virtToPage_pageToVirt_iff env pfn).2 ?_
      rcases low with low | empty
      · omega
      · rw [empty] at inside
        omega

/-- The pointers of the slab allocator are these, named by the physical addresses behind them. -/
theorem vaPa_pageToVirt (pfn : UInt32) :
    (env.vaPa (env.pageToVirt (env.pfnToPage pfn))).toNat = Slab.pageToVirt pfn.toNat := by
  rw [pageToVirt, vaPa_paVa, pageToPhy_pfnToPage, UInt32.toNat_toUInt64, pfnToPhy_toNat, Slab.pageToVirt,
    Slab.pageSize]

end PageEnv

/-- Two GiB of memory from 3 GiB on. -/
def highEnv : PageEnv where
  memoryStart := 0xc0000000
  memoryEnd := 0x140000000
  pagesPa := 0xc0200000
  gLoadOffset := 0x80000000
  ordered := by decide
  bounded := by decide

/-- **The page at 4 GiB is taken for the one at 0.** -/
theorem high_memory_not_inverse :
    (highEnv.pageToPhy (highEnv.phyToPage 0x100000000)).toUInt64 = 0 ∧
      highEnv.virtToPage (highEnv.pageToVirt (highEnv.pfnToPage 0x100000)) = highEnv.pfnToPage 0 ∧
      highEnv.Managed 0x100000 ∧ ¬ highEnv.Inverse := by
  refine ⟨by decide +kernel, by decide +kernel, ⟨by decide +kernel, by decide +kernel⟩, fun inverse => ?_⟩
  have same := inverse.address 0x100000000 (by decide) (by decide)
  exact absurd same (by decide +kernel)

end Minus.Mm.PageConv
