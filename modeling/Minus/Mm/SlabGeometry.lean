/-
# Mm.SlabGeometry — how many objects a slab page holds

`kmem_cache_init` and `kmem_cache_create` of `kernel/mm/slab.c`, in the widths
of the code: sizes are rounded up in the 64 bits of `uintptr_t` and kept in 32.
A cache comes out as the claim of its callers has it exactly if the size, rounded
up, has room for a free-list index and is not lost in 32 bits
(`cache_geometry_iff`).

The kernel's own caches are of this kind (`kmalloc_well`), and there the
arithmetic is that of `Mm.Slab` (`kmemCacheInit_eq`).
-/
import Mathlib.Tactic.IntervalCases
import Minus.Mm.Slab
import Minus.Theory.Rounding

namespace Minus.Mm.SlabGeometry

set_option autoImplicit false

open Minus.Theory
open Minus.Mm.Buddy (Pfn)

/-- `sizeof(struct slab)`. -/
def slabSize : UInt64 := 40

/-- `PAGE_SIZE`. -/
def pageSize : UInt64 := 4096

/-- The fields of `struct kmem_cache` that describe its objects. -/
structure Cache where
  objSize : UInt32
  align : UInt32
  num : UInt32
  deriving DecidableEq

/-- The fields that `kmem_cache_init` sets; `none` is a division by zero. -/
def kmemCacheInit (size align : UInt32) : Option Cache :=
  let align := if align = 0 then 8 else align
  let objSize := (maskUp size.toUInt64 align.toUInt64).toUInt32
  let descSize := (maskUp slabSize align.toUInt64).toUInt32
  if pageSize < (descSize + objSize).toUInt64 then some ⟨objSize, align, 0⟩
  else if objSize = 0 then none
  else some ⟨objSize, align, ((pageSize - descSize.toUInt64) / objSize.toUInt64).toUInt32⟩

/-- `kmem_cache_create`, where `buddy_alloc_pages` answers `page`: the cache or `NULL`, and the
pages given back. -/
def kmemCacheCreate (size align : UInt32) (page : Option Pfn) : Option (Option Cache × List Pfn) :=
  if size = 0 then some (none, [])
  else
    match page with
    | none => some (none, [])
    | some page =>
        (kmemCacheInit size align).map fun c => if c.num = 0 then (none, [page]) else (some c, [])

/-- The virtual address of a page. -/
structure PageAddr where
  addr : UInt64
  aligned : 4096 ∣ addr.toNat

namespace Cache

variable (c : Cache)

/-- `slab->s_mem` of the slab at `slab`. -/
def sMem (slab : PageAddr) : UInt64 := maskUp (slab.addr + slabSize) c.align.toUInt64

/-- `s_mem + i * cachep->obj_size`. -/
def object (slab : PageAddr) (i : UInt32) : UInt64 := c.sMem slab + (i * c.objSize).toUInt64

/-- The bytes of an object. -/
def extent (slab : PageAddr) (i : UInt32) : Set Nat :=
  Set.Ico (c.object slab i).toNat ((c.object slab i).toNat + c.objSize.toNat)

end Cache

/-- The alignment that a cache gets. -/
def alignOf (align : UInt32) : Nat := if align = 0 then 8 else align.toNat

/-- What the users of a cache rely on. -/
structure Sound (size align : UInt32) (c : Cache) : Prop where
  size : size ≤ c.objSize
  index : 4 ≤ c.objSize
  objects : 1 ≤ c.num
  inside : ∀ slab, ∀ i < c.num,
    c.extent slab i ⊆ Set.Ico (slab.addr.toNat + slabSize.toNat) (slab.addr.toNat + pageSize.toNat)
  apart : ∀ slab, ∀ i < c.num, ∀ j < c.num, i ≠ j → Disjoint (c.extent slab i) (c.extent slab j)
  aligned : ∀ slab, ∀ i < c.num, alignOf align ∣ (c.object slab i).toNat

/-- `kmem_cache_create` does not divide by zero, and returns `NULL` or a sound cache. -/
def GeometrySound (size align : UInt32) (page : Option Pfn) : Prop :=
  ∃ r, kmemCacheCreate size align page = some r ∧ ∀ c, r.1 = some c → Sound size align c

/-- The rounded size has room for an index and is not lost in 32 bits, neither by itself nor
together with a descriptor that does not fit in a page anyway. -/
def RoundsWell (size align : UInt32) : Prop :=
  4 ≤ roundUp size.toNat (alignOf align) ∧
    if alignOf align ≤ 4096 then roundUp size.toNat (alignOf align) < 2 ^ 32
    else roundUp size.toNat (alignOf align) + alignOf align ≠ 2 ^ 32

/-- The objects lie side by side behind the descriptor. -/
structure Fits (size align : UInt32) (c : Cache) : Prop where
  same : c.align.toNat = alignOf align
  rounded : c.objSize.toNat = roundUp size.toNat (alignOf align)
  objects : 1 ≤ c.num
  descriptor : roundUp 40 (alignOf align) ≤ 4096
  number : c.num.toNat = (4096 - roundUp 40 (alignOf align)) / c.objSize.toNat

section Geometry

variable {size align : UInt32} {c : Cache}

theorem alignOf_eq (align : UInt32) : (if align = 0 then (8 : UInt32) else align).toNat = alignOf align := by
  rw [alignOf]
  split <;> rfl

theorem alignOf_power (shape : align = 0 ∨ align.toNat.isPowerOfTwo) : (alignOf align).isPowerOfTwo := by
  rw [alignOf]
  split
  · exact ⟨3, rfl⟩
  · exact shape.resolve_left ‹_›

theorem alignOf_le (shape : align = 0 ∨ align.toNat.isPowerOfTwo) : alignOf align ≤ 2 ^ 31 := by
  obtain ⟨k, power⟩ := alignOf_power shape
  have below : alignOf align < 2 ^ 32 := by
    rw [alignOf]
    split
    · decide
    · exact align.toNat_lt
  rw [power] at below ⊢
  exact Nat.pow_le_pow_right (by decide) (Nat.lt_succ_iff.1 ((Nat.pow_lt_pow_iff_right (by decide)).1 below))

/-! ## The widths -/

theorem power_toUInt64 (shape : align = 0 ∨ align.toNat.isPowerOfTwo) :
    (if align = 0 then (8 : UInt32) else align).toUInt64.toNat.isPowerOfTwo := by
  rw [UInt32.toNat_toUInt64, alignOf_eq]
  exact alignOf_power shape

/-- The size is rounded up in 64 bits and kept in 32. -/
theorem objSize_toNat (shape : align = 0 ∨ align.toNat.isPowerOfTwo) :
    (maskUp size.toUInt64 (if align = 0 then (8 : UInt32) else align).toUInt64).toUInt32.toNat =
      roundUp size.toNat (alignOf align) % 2 ^ 32 := by
  rw [UInt64.toNat_toUInt32, maskUp_toNat (power_toUInt64 shape), UInt32.toNat_toUInt64, UInt32.toNat_toUInt64,
    alignOf_eq, Nat.mod_mod_of_dvd _ (by decide)]

theorem roundUp_desc_lt (shape : align = 0 ∨ align.toNat.isPowerOfTwo) : roundUp 40 (alignOf align) < 40 + 2 ^ 31 :=
  (roundUp_lt (isPowerOfTwo_pos (alignOf_power shape))).trans_le (Nat.add_le_add_left (alignOf_le shape) 40)

theorem descSize_toNat (shape : align = 0 ∨ align.toNat.isPowerOfTwo) :
    (maskUp slabSize (if align = 0 then (8 : UInt32) else align).toUInt64).toUInt32.toNat =
      roundUp 40 (alignOf align) := by
  have below := roundUp_desc_lt shape
  rw [UInt64.toNat_toUInt32, maskUp_toNat (power_toUInt64 shape), UInt32.toNat_toUInt64, alignOf_eq,
    Nat.mod_mod_of_dvd _ (by decide)]
  exact Nat.mod_eq_of_lt (by change roundUp 40 _ < _; omega)

variable (size) in
/-- A rounded size is at most 2^32. -/
theorem roundUp_size_le (shape : align = 0 ∨ align.toNat.isPowerOfTwo) :
    roundUp size.toNat (alignOf align) ≤ 2 ^ 32 := by
  have power := alignOf_power shape
  have le := alignOf_le shape
  refine (roundUp_le_iff (isPowerOfTwo_pos power) ?_).2 size.toNat_lt.le
  exact dvd_of_isPowerOfTwo_le power ⟨32, rfl⟩ (le.trans (by decide))

/-- The descriptor fits in a page exactly if the alignment is at most that of a page. -/
theorem roundUp_desc (shape : align = 0 ∨ align.toNat.isPowerOfTwo) :
    if alignOf align ≤ 4096 then roundUp 40 (alignOf align) ≤ 4096
    else roundUp 40 (alignOf align) = alignOf align := by
  have power := alignOf_power shape
  have positive := isPowerOfTwo_pos power
  split
  · exact (roundUp_le_iff positive (dvd_of_isPowerOfTwo_le power ⟨12, rfl⟩ ‹_›)).2 (by decide)
  · apply Nat.le_antisymm
    · exact (roundUp_le_iff positive (Nat.dvd_refl _)).2 (by omega)
    · have forty : 40 ≤ roundUp 40 (alignOf align) := le_roundUp positive
      exact Nat.le_of_dvd (by omega) (dvd_roundUp _ _)

variable (size) in
/-- `kmem_cache_init` in terms of the two rounded sizes. -/
theorem kmemCacheInit_cases (shape : align = 0 ∨ align.toNat.isPowerOfTwo) :
    ∃ obj desc : UInt32, obj.toNat = roundUp size.toNat (alignOf align) % 2 ^ 32 ∧
      desc.toNat = roundUp 40 (alignOf align) ∧ ∃ a : UInt32, a.toNat = alignOf align ∧
      kmemCacheInit size align =
        if 4096 < (desc.toNat + obj.toNat) % 2 ^ 32 then some ⟨obj, a, 0⟩
        else if obj = 0 then none
        else some ⟨obj, a, ((pageSize - desc.toUInt64) / obj.toUInt64).toUInt32⟩ := by
  refine ⟨_, _, objSize_toNat shape, descSize_toNat shape, _, alignOf_eq align, ?_⟩
  simp [kmemCacheInit, pageSize, UInt64.lt_iff_toNat_lt]

theorem num_toNat (obj : UInt32) {desc : UInt32} (fits : desc.toNat ≤ 4096) :
    ((pageSize - desc.toUInt64) / obj.toUInt64).toUInt32.toNat = (4096 - desc.toNat) / obj.toNat := by
  have le : desc.toUInt64 ≤ pageSize := UInt64.le_iff_toNat_le.2 fits
  rw [UInt64.toNat_toUInt32, UInt64.toNat_div, UInt64.toNat_sub_of_le _ _ le, UInt32.toNat_toUInt64,
    UInt32.toNat_toUInt64]
  have small := Nat.div_le_self (4096 - desc.toNat) obj.toNat
  exact Nat.mod_eq_of_lt (by change (4096 - desc.toNat) / obj.toNat < _; omega)

/-- Where the sum of the sizes does not exceed a page in 32 bits, the alignment is at most a page. -/
theorem align_le_of_sum (shape : align = 0 ∨ align.toNat.isPowerOfTwo) (well : RoundsWell size align)
    (sum : (roundUp 40 (alignOf align) + roundUp size.toNat (alignOf align) % 2 ^ 32) % 2 ^ 32 ≤ 4096) :
    alignOf align ≤ 4096 := by
  by_contra large
  have power := alignOf_power shape
  have le := alignOf_le shape
  have sizeLe := roundUp_size_le size shape
  have desc := roundUp_desc shape
  obtain ⟨four, apart⟩ := well
  rw [if_neg large] at apart desc
  rw [desc] at sum
  -- the sum is a multiple of the alignment, also after it has wrapped
  have divides : alignOf align ∣ (alignOf align + roundUp size.toNat (alignOf align) % 2 ^ 32) % 2 ^ 32 := by
    have whole : alignOf align ∣ 2 ^ 32 := dvd_of_isPowerOfTwo_le power ⟨32, rfl⟩ (by omega)
    exact (Nat.dvd_mod_iff whole).2 (Nat.dvd_add (Nat.dvd_refl _) ((Nat.dvd_mod_iff whole).2 (dvd_roundUp _ _)))
  have zero := Nat.eq_zero_of_dvd_of_lt divides (by omega)
  omega

/-- **What `kmem_cache_init` computes where the size rounds well**. -/
theorem kmemCacheInit_of_well (shape : align = 0 ∨ align.toNat.isPowerOfTwo) (well : RoundsWell size align) :
    ∃ c, kmemCacheInit size align = some c ∧ (c.num = 0 ∨ Fits size align c) := by
  obtain ⟨obj, desc, objEq, descEq, a, aEq, init⟩ := kmemCacheInit_cases size shape
  by_cases large : 4096 < (desc.toNat + obj.toNat) % 2 ^ 32
  · exact ⟨_, init.trans (if_pos large), .inl rfl⟩
  · rw [if_neg large] at init
    have low : alignOf align ≤ 4096 := align_le_of_sum shape well (by rw [← objEq, ← descEq]; omega)
    have descLe := roundUp_desc shape
    obtain ⟨four, below⟩ := well
    rw [if_pos low] at below descLe
    rw [Nat.mod_eq_of_lt below] at objEq
    have some_ : obj ≠ 0 := by
      rintro rfl
      rw [← objEq] at four
      exact absurd four (by decide)
    refine ⟨_, init.trans (if_neg some_), ?_⟩
    by_cases none_ : ((pageSize - desc.toUInt64) / obj.toUInt64).toUInt32 = 0
    · exact .inl none_
    · have positive := Nat.pos_of_ne_zero fun zero => none_ (UInt32.toNat_inj.1 zero)
      rw [← descEq] at descLe
      refine .inr ⟨aEq, objEq, UInt32.le_iff_toNat_le.2 positive, descEq ▸ descLe, ?_⟩
      rw [← descEq]
      exact num_toNat obj descLe

/-! ## The objects -/

theorem PageAddr.le (slab : PageAddr) : slab.addr.toNat ≤ 2 ^ 64 - 4096 := by
  obtain ⟨m, eq⟩ := slab.aligned
  have below := slab.addr.toNat_lt
  omega

namespace Fits

variable (fits : Fits size align c) (shape : align = 0 ∨ align.toNat.isPowerOfTwo)

include fits

theorem room : roundUp 40 (alignOf align) + c.num.toNat * c.objSize.toNat ≤ 4096 := by
  have whole := Nat.div_mul_le_self (4096 - roundUp 40 (alignOf align)) c.objSize.toNat
  have descriptor := fits.descriptor
  rw [fits.number]
  omega

/-- An object lies in the page, wholly. -/
theorem within {i : UInt32} (less : i < c.num) :
    roundUp 40 (alignOf align) + i.toNat * c.objSize.toNat + c.objSize.toNat ≤ 4096 := by
  have step : (i.toNat + 1) * c.objSize.toNat ≤ c.num.toNat * c.objSize.toNat :=
    Nat.mul_le_mul_right _ (UInt32.lt_iff_toNat_lt.1 less)
  have room := fits.room
  rw [Nat.succ_mul] at step
  omega

include shape

theorem align_le : alignOf align ≤ 4096 := by
  by_contra large
  have desc := roundUp_desc shape
  rw [if_neg large] at desc
  have descriptor := fits.descriptor
  omega

/-- **Where an object lies**: behind the rounded descriptor, at its index times the object size. -/
theorem object_toNat (slab : PageAddr) {i : UInt32} (less : i < c.num) (positive : 0 < c.objSize.toNat) :
    (c.object slab i).toNat = slab.addr.toNat + roundUp 40 (alignOf align) + i.toNat * c.objSize.toNat := by
  have power := alignOf_power shape
  have inside := fits.within less
  have top := slab.le
  have divides : alignOf align ∣ slab.addr.toNat :=
    (dvd_of_isPowerOfTwo_le power ⟨12, rfl⟩ (fits.align_le shape)).trans slab.aligned
  have start : (c.sMem slab).toNat = slab.addr.toNat + roundUp 40 (alignOf align) := by
    have behind : (slab.addr + slabSize).toNat = slab.addr.toNat + 40 := by
      rw [UInt64.toNat_add]
      exact Nat.mod_eq_of_lt (by change slab.addr.toNat + 40 < _; omega)
    rw [Cache.sMem, maskUp_toNat (by rw [UInt32.toNat_toUInt64, fits.same]; exact power), behind,
      UInt32.toNat_toUInt64, fits.same, roundUp_add_of_dvd (isPowerOfTwo_pos power) divides]
    exact Nat.mod_eq_of_lt (by omega)
  have offset : (i * c.objSize).toNat = i.toNat * c.objSize.toNat := by
    rw [UInt32.toNat_mul]
    exact Nat.mod_eq_of_lt (by omega)
  rw [Cache.object, UInt64.toNat_add, start, UInt32.toNat_toUInt64, offset]
  exact Nat.mod_eq_of_lt (by omega)

/-- **A cache whose objects fit is sound**. -/
theorem sound (four : 4 ≤ roundUp size.toNat (alignOf align)) : Sound size align c := by
  have power := alignOf_power shape
  have rounded := fits.rounded
  have positive : 0 < c.objSize.toNat := by omega
  have place : ∀ (slab : PageAddr) {i}, i < c.num → _ := fun slab _ less => fits.object_toNat shape slab less positive
  refine ⟨?_, ?_, fits.objects, fun slab i less => ?_, fun slab i less j less' differ => ?_, fun slab i less => ?_⟩
  · exact UInt32.le_iff_toNat_le.2 (rounded ▸ le_roundUp (isPowerOfTwo_pos power))
  · exact UInt32.le_iff_toNat_le.2 (rounded ▸ four)
  · have inside := fits.within less
    have forty : 40 ≤ roundUp 40 (alignOf align) := le_roundUp (isPowerOfTwo_pos power)
    rw [Cache.extent, place slab less]
    apply Set.Ico_subset_Ico
    · change slab.addr.toNat + 40 ≤ _
      omega
    · change _ ≤ slab.addr.toNat + 4096
      omega
  · rw [Cache.extent, Cache.extent, place slab less, place slab less', Set.Ico_disjoint_Ico]
    -- the one with the smaller index ends before the other
    rcases Nat.lt_or_gt_of_ne fun same => differ (UInt32.toNat_inj.1 same) with before | before
    · have step : (i.toNat + 1) * c.objSize.toNat ≤ j.toNat * c.objSize.toNat := Nat.mul_le_mul_right _ before
      rw [Nat.succ_mul] at step
      omega
    · have step : (j.toNat + 1) * c.objSize.toNat ≤ i.toNat * c.objSize.toNat := Nat.mul_le_mul_right _ before
      rw [Nat.succ_mul] at step
      omega
  · rw [place slab less, rounded]
    have divides := (dvd_of_isPowerOfTwo_le power ⟨12, rfl⟩ (fits.align_le shape)).trans slab.aligned
    exact Nat.dvd_add (Nat.dvd_add divides (dvd_roundUp _ _)) (Nat.dvd_mul_left_of_dvd (dvd_roundUp _ _) _)

end Fits

/-! ## Exactly when -/

/-- A well-rounded size gives a sound cache, whatever the page allocator answers. -/
theorem geometrySound_of_well (positive : 1 ≤ size) (shape : align = 0 ∨ align.toNat.isPowerOfTwo)
    (well : RoundsWell size align) (page : Option Pfn) : GeometrySound size align page := by
  have some_ : size ≠ 0 := by
    rintro rfl
    exact absurd positive (by decide)
  obtain ⟨c, init, out⟩ := kmemCacheInit_of_well shape well
  cases page with
  | none => exact ⟨(none, []), by simp [kmemCacheCreate], by simp⟩
  | some page =>
      by_cases empty : c.num = 0
      · exact ⟨(none, [page]), by simp [kmemCacheCreate, some_, init, empty], by simp⟩
      · refine ⟨(some c, []), by simp [kmemCacheCreate, some_, init, empty], ?_⟩
        rintro _ ⟨⟩
        exact (out.resolve_left empty).sound shape well.1

/-- With an alignment beyond a page, two sizes whose sum wraps to 0 leave a number of objects. -/
theorem garbage_num {k : Nat} (large : 13 ≤ k) (below : k ≤ 31) :
    (2 ^ 64 + 4096 - 2 ^ k) / (2 ^ 32 - 2 ^ k) % 2 ^ 32 ≠ 0 := by
  interval_cases k <;> decide

/-- A sound cache has its objects in a page. -/
theorem Sound.objSize_le (sound : Sound size align c) : c.objSize.toNat ≤ 4096 := by
  have inside := sound.inside ⟨0, ⟨0, rfl⟩⟩ 0 (by
    exact UInt32.lt_iff_toNat_lt.2 (UInt32.le_iff_toNat_le.1 sound.objects))
  have index := UInt32.le_iff_toNat_le.1 sound.index
  obtain ⟨first, last⟩ := (Set.Ico_subset_Ico_iff (by change 4 ≤ _ at index; omega)).1 inside
  change _ ≤ 0 + 4096 at last
  omega

/-- **A size that does not round well is divided by, or gives a cache that is not sound**. -/
theorem well_of_geometrySound (positive : 1 ≤ size) (shape : align = 0 ∨ align.toNat.isPowerOfTwo)
    (sound : GeometrySound size align (some 0)) : RoundsWell size align := by
  have power := alignOf_power shape
  have some_ : size ≠ 0 := by
    rintro rfl
    exact absurd positive (by decide)
  obtain ⟨obj, desc, objEq, descEq, a, aEq, init⟩ := kmemCacheInit_cases size shape
  obtain ⟨r, create, good⟩ := sound
  have le := roundUp_size_le size shape
  have alignLe := alignOf_le shape
  have descLe := roundUp_desc shape
  -- a cache with objects is the one returned
  have returned : ∀ c, kmemCacheInit size align = some c → c.num ≠ 0 → Sound size align c := by
    intro c init objects
    rw [kmemCacheCreate, if_neg some_, init, Option.map_some, if_neg objects] at create
    exact good c (by rw [← Option.some.inj create])
  have divided : kmemCacheInit size align ≠ none := by
    intro init
    rw [kmemCacheCreate, if_neg some_, init] at create
    exact absurd create (by simp)
  have atLeast : size.toNat ≤ roundUp size.toNat (alignOf align) := le_roundUp (isPowerOfTwo_pos power)
  have one := UInt32.le_iff_toNat_le.1 positive
  change 1 ≤ size.toNat at one
  have nonzero : obj.toNat ≠ 0 → obj ≠ 0 := fun some_ zero => some_ (zero ▸ rfl)
  refine ⟨?_, ?_⟩
  · -- objects too small for an index
    by_contra small
    have alignSmall := Nat.le_of_dvd (by omega) (dvd_roundUp size.toNat (alignOf align))
    rw [if_pos (by omega)] at descLe
    have descSmall : roundUp 40 (alignOf align) < 40 + alignOf align := roundUp_lt (isPowerOfTwo_pos power)
    rw [if_neg (by omega), if_neg (nonzero (by omega))] at init
    have number := num_toNat obj (descEq ▸ descLe : desc.toNat ≤ 4096)
    have some_ : 1 ≤ (4096 - desc.toNat) / obj.toNat := (Nat.one_le_div_iff (by omega)).2 (by omega)
    have index := (returned _ init fun zero => by
      change UInt64.toUInt32 _ = 0 at zero
      rw [zero] at number
      change 0 = _ at number
      omega).index
    have index : 4 ≤ obj.toNat := UInt32.le_iff_toNat_le.1 index
    omega
  split
  · -- the size is lost
    by_contra lost
    rw [if_pos ‹_›] at descLe
    exact divided (init.trans ((if_neg (by omega)).trans (if_pos (UInt32.toNat_inj.1 (by change _ = 0; omega)))))
  · -- the sum is lost
    intro lost
    rw [if_neg ‹_›] at descLe
    rw [if_neg (by omega), if_neg (nonzero (by omega))] at init
    have number : ((pageSize - desc.toUInt64) / obj.toUInt64).toUInt32.toNat =
        (2 ^ 64 + 4096 - alignOf align) / (2 ^ 32 - alignOf align) % 2 ^ 32 := by
      rw [UInt64.toNat_toUInt32, UInt64.toNat_div, UInt64.toNat_sub, UInt32.toNat_toUInt64, UInt32.toNat_toUInt64,
        descEq, descLe, show obj.toNat = 2 ^ 32 - alignOf align by omega, show pageSize.toNat = 4096 from rfl,
        show (2 ^ 64 - alignOf align + 4096) % 2 ^ 64 = 2 ^ 64 + 4096 - alignOf align by omega]
    obtain ⟨k, shape_⟩ := power
    have bounds : 13 ≤ k ∧ k ≤ 31 := by
      have above : 2 ^ 12 < 2 ^ k := by omega
      rw [shape_] at alignLe
      exact ⟨(Nat.pow_lt_pow_iff_right (by decide)).1 above, (Nat.pow_le_pow_iff_right (by decide)).1 alignLe⟩
    have whole := (returned _ init fun zero => by
      change UInt64.toUInt32 _ = 0 at zero
      rw [zero, shape_] at number
      exact garbage_num bounds.1 bounds.2 number.symm).objSize_le
    change obj.toNat ≤ 4096 at whole
    omega

/-- **The caches are sound exactly where the size rounds well.** -/
theorem cache_geometry_iff (positive : 1 ≤ size) (shape : align = 0 ∨ align.toNat.isPowerOfTwo) :
    (∀ page, GeometrySound size align page) ↔ RoundsWell size align :=
  ⟨fun sound => well_of_geometrySound positive shape (sound (some 0)),
    fun well page => geometrySound_of_well positive shape well page⟩

/-! ## The kernel's caches -/

/-- Where a cache has objects, its fields are those that `Mm.Slab` computes without widths. -/
theorem kmemCacheInit_eq (fits : Fits size align c) (s : Slab.SlabState) (i : Nat) :
    (Slab.kmemCacheInit s i size.toNat align.toNat).caches i =
      ⟨c.objSize.toNat, c.align.toNat, c.num.toNat⟩ := by
  have alignEq : (if align.toNat = 0 then 8 else align.toNat) = alignOf align := by
    simp [alignOf, ← UInt32.toNat_inj]
  have objects : 1 ≤ c.num.toNat := UInt32.le_iff_toNat_le.1 fits.objects
  have one : 1 * c.objSize.toNat ≤ c.num.toNat * c.objSize.toNat := Nat.mul_le_mul_right _ objects
  have sum : ¬ 4096 < roundUp 40 (alignOf align) + c.objSize.toNat := by
    have room := fits.room
    omega
  rw [fits.rounded] at sum
  rw [fits.same, fits.number, fits.rounded]
  simp only [Slab.kmemCacheInit, Function.update_self, alignEq]
  exact congrArg (Slab.KmemCache.mk _ _) (if_neg sum)

/-- The sizes of `slab_init` round well. -/
theorem kmalloc_well {i : Nat} (cache : i < Slab.kmallocCachesNum) : RoundsWell (UInt32.ofNat (2 ^ (i + 3))) 8 := by
  unfold Slab.kmallocCachesNum at cache
  interval_cases i <;> exact ⟨by decide, by decide⟩

end Geometry

/-- A cache of 24 bytes with the default alignment. -/
theorem cache_geometry_24 : RoundsWell 24 0 ∧ ∀ page, GeometrySound 24 0 page :=
  have well : RoundsWell 24 0 := ⟨by decide, by decide⟩
  ⟨well, (cache_geometry_iff (by decide) (.inl rfl)).2 well⟩

/-- **One byte, aligned to one**: objects smaller than their index. -/
theorem one_byte_objects :
    kmemCacheCreate 1 1 (some 0) = some (some ⟨1, 1, 4056⟩, []) ∧ ¬ GeometrySound 1 1 (some 0) := by
  have created : kmemCacheCreate 1 1 (some 0) = some (some ⟨1, 1, 4056⟩, []) := by decide +kernel
  refine ⟨created, fun ⟨r, run, good⟩ => ?_⟩
  rw [created] at run
  obtain rfl := Option.some.inj run
  exact absurd (good _ rfl).index (by decide)

end Minus.Mm.SlabGeometry
