/-
# Core.Mmu — mapping a range into a translation table

`kernel/core/arch/mmu.c` with the descriptors of `include/arch/mmu.h`:
`mmu_map` rounds a request to whole pages and `mmu_map_range` fills the four
levels of a 4 KiB-granule table, with a block descriptor where the rest of the
range covers a whole aligned slot and a lower table elsewhere.

Memory is the physical pages, 512 words each; a table is named by its page
number, since `__PA_VA__` and `__VA_PA__` only shift by `g_load_offset`.  A level
is counted from the bottom: `below` is the number of levels under it, 0 for
`PTE_LEVEL` and 3 for `PGD_LEVEL`.  `kzalloc_pages` is the environment: `supply`
is what it will hand out, and it returns NULL when that is used up.  A failed
`MMU_BUGON` spins for ever, so it ends the computation with the state reached.

`lookup` is the walk the hardware makes, which the mapping is to be read back by.
-/
import Minus.Theory.Slots
import Minus.Theory.Bytes
import Minus.Theory.Machine

namespace Minus.Core.Mmu

set_option autoImplicit false

open Minus.Theory

/-! ## Descriptors -/

def pteTypeInvalid : UInt64 := 0x0
def pteTypeBlock : UInt64 := 0x1
def pteTypeTable : UInt64 := 0x3
def pteTypePage : UInt64 := 0x3
def pteAf : UInt64 := (1 : UInt64) <<< 10
def pteTypeMask : UInt64 := 0x3
def ptePhysMask : UInt64 := 0xFFFFFFFFF000

def pteTable (pa : UInt64) : UInt64 := (pa &&& ptePhysMask) ||| pteTypeTable

def pteBlock (pa attr : UInt64) : UInt64 := (pa &&& ptePhysMask) ||| pteTypeBlock ||| attr ||| pteAf

def ptePage (pa attr : UInt64) : UInt64 := (pa &&& ptePhysMask) ||| pteTypePage ||| attr ||| pteAf

def typeOf (entry : UInt64) : UInt64 := entry &&& pteTypeMask

def mmuEntryPopulated (entry : UInt64) : Bool := typeOf entry != pteTypeInvalid

/-- `MMU_REGION_NORMAL`: `PTE_ATTR_NORMAL | PTE_SH_INNER | PTE_AP_RW_EL1`. -/
def mmuRegionNormal : UInt64 := (0x3 : UInt64) <<< 8

/-- `MMU_REGION_DEVICE`: `PTE_ATTR_DEVICE | PTE_AP_RW_EL1 | PTE_PXN | PTE_UXN`. -/
def mmuRegionDevice : UInt64 :=
  ((0x1 : UInt64) <<< 2) ||| ((1 : UInt64) <<< 53) ||| ((1 : UInt64) <<< 54)

/-- `PAGE_SIZE`. -/
def pageSize : Nat := 4096

/-- `g_level_size`, by the number of levels below. -/
def levelSize (below : Nat) : Nat := 2 ^ (12 + 9 * below)

theorem levelSize_pos (below : Nat) : 0 < levelSize below := Nat.two_pow_pos _

theorem levelSize_zero_pos : 0 < levelSize 0 := levelSize_pos 0

theorem levelSize_succ_pos (below : Nat) : 0 < levelSize (below + 1) := levelSize_pos (below + 1)

/-- The entries of a table. -/
instance tableEntries : NeZero 512 := ⟨by decide⟩

/-- The index of `va` in its table: `(va >> shift) & (PTE_ENTRIES - 1)`. -/
def index (below va : Nat) : Fin 512 := Fin.ofNat 512 (va / levelSize below)

/-- The page a descriptor points at. -/
def pageOf (entry : UInt64) : Nat := (entry &&& ptePhysMask).toNat / pageSize

/-! ### Reading a descriptor back -/

/-- Attribute bits only: neither an address nor a type. -/
def IsAttr (attr : UInt64) : Prop := attr &&& (ptePhysMask ||| pteTypeMask) = 0

instance (attr : UInt64) : Decidable (IsAttr attr) := inferInstanceAs (Decidable (_ = _))

section Readback

variable {attr : UInt64} {pa : Nat}

theorem IsAttr.and_phys (plain : IsAttr attr) : attr &&& ptePhysMask = 0 := by
  have : attr &&& (ptePhysMask ||| pteTypeMask) &&& ptePhysMask = 0 := by rw [plain]; rfl
  rwa [UInt64.and_assoc, show (ptePhysMask ||| pteTypeMask) &&& ptePhysMask = ptePhysMask by decide]
    at this

theorem IsAttr.and_type (plain : IsAttr attr) : attr &&& pteTypeMask = 0 := by
  have : attr &&& (ptePhysMask ||| pteTypeMask) &&& pteTypeMask = 0 := by rw [plain]; rfl
  rwa [UInt64.and_assoc, show (ptePhysMask ||| pteTypeMask) &&& pteTypeMask = pteTypeMask by decide]
    at this

theorem IsAttr.and_rest (plain : IsAttr attr) :
    attr &&& ~~~ (ptePhysMask ||| pteTypeMask) = attr := by
  have whole : attr &&& ((ptePhysMask ||| pteTypeMask) ||| ~~~ (ptePhysMask ||| pteTypeMask)) = attr := by
    rw [show (ptePhysMask ||| pteTypeMask) ||| ~~~ (ptePhysMask ||| pteTypeMask) = -1 by decide]
    exact UInt64.and_neg_one
  rwa [UInt64.and_comm, mask_or, UInt64.and_comm _ attr,
    show attr &&& (ptePhysMask ||| pteTypeMask) = 0 from plain, UInt64.zero_or, UInt64.and_comm] at whole

/-- The bits a mask keeps of an address that it does not meet. -/
theorem phys_and {mask : UInt64} (x : UInt64) (apart : ptePhysMask &&& mask = 0) :
    x &&& ptePhysMask &&& mask = 0 := by
  rw [UInt64.and_assoc, apart, UInt64.and_zero]

theorem phys_toNat (small : pa < 2 ^ 48) (aligned : pageSize ∣ pa) :
    (UInt64.ofNat pa &&& ptePhysMask).toNat = pa := by
  have mask : ptePhysMask.toNat = 2 ^ 48 - 2 ^ 12 := by decide
  rw [UInt64.toNat_and, mask, UInt64.toNat_ofNat_of_lt' (Nat.lt_trans small (by decide)),
    and_high (by omega) small]
  exact Nat.div_mul_cancel aligned

/-- A descriptor's type, address and attributes, whatever its type bits. -/
theorem leaf_fields (kind : UInt64) (pa : Nat) (plain : IsAttr attr) (small : pa < 2 ^ 48)
    (aligned : pageSize ∣ pa) (bits : kind &&& pteTypeMask = kind) :
    let entry := (UInt64.ofNat pa &&& ptePhysMask) ||| kind ||| attr ||| pteAf
    typeOf entry = kind ∧ (entry &&& ptePhysMask).toNat = pa ∧
      entry &&& ~~~ (ptePhysMask ||| pteTypeMask) = attr ||| pteAf := by
  have kind_phys : kind &&& ptePhysMask = 0 := by
    rw [← bits, UInt64.and_assoc, show pteTypeMask &&& ptePhysMask = 0 by decide, UInt64.and_zero]
  have kind_rest : kind &&& ~~~ (ptePhysMask ||| pteTypeMask) = 0 := by
    rw [← bits, UInt64.and_assoc,
      show pteTypeMask &&& ~~~ (ptePhysMask ||| pteTypeMask) = 0 by decide, UInt64.and_zero]
  refine ⟨?_, ?_, ?_⟩
  · simp only [typeOf, mask_or]
    rw [phys_and _ (show ptePhysMask &&& _ = 0 by decide), bits, plain.and_type, show pteAf &&& pteTypeMask = 0 by decide]
    simp
  · simp only [mask_or]
    rw [kind_phys, plain.and_phys, show pteAf &&& ptePhysMask = 0 by decide, UInt64.and_assoc,
      UInt64.and_self]
    simpa using phys_toNat small aligned
  · simp only [mask_or]
    rw [phys_and _ (show ptePhysMask &&& _ = 0 by decide), kind_rest, plain.and_rest,
      show pteAf &&& ~~~ (ptePhysMask ||| pteTypeMask) = pteAf by decide]
    simp

theorem typeOf_pteTable (x : UInt64) : typeOf (pteTable x) = pteTypeTable := by
  rw [typeOf, pteTable, mask_or, phys_and _ (show ptePhysMask &&& _ = 0 by decide)]
  decide

theorem pageOf_pteTable {page : Nat} (small : page < 2 ^ 36) :
    pageOf (pteTable (UInt64.ofNat (page * pageSize))) = page := by
  have fits : page * pageSize < 2 ^ 48 := by unfold pageSize; omega
  rw [pageOf, pteTable, mask_or, UInt64.and_assoc, UInt64.and_self,
    show pteTypeTable &&& ptePhysMask = 0 by decide, UInt64.or_zero,
    phys_toNat fits (Nat.dvd_mul_left _ _)]
  exact Nat.mul_div_cancel _ (by decide)

end Readback

/-! ## mmu.c -/

abbrev Memory := Nat → Fin 512 → UInt64

structure State where
  mem : Memory
  /-- The pages `kzalloc_pages` will hand out. -/
  supply : List Nat
  /-- The table pages: the pgd and what `kzalloc_pages` has handed out. -/
  tables : List Nat

/-- The conditions of `MMU_BUGON`. -/
inductive Bug where
  | noMemory
  | cutPage
  | unalignedPa
  deriving DecidableEq

def mmuPopulate (mem : Memory) (table : Nat) (idx : Fin 512) (val : UInt64) : Memory :=
  Function.update mem table (Function.update (mem table) idx val)

def mmuGetNtable (s : State) (table : Nat) (idx : Fin 512) : Except (Bug × State) (State × Nat) :=
  if mmuEntryPopulated (s.mem table idx) then
    .ok (s, pageOf (s.mem table idx))
  else
    match s.supply with
    | [] => .error (.noMemory, s)
    | page :: rest =>
        let mem := Function.update s.mem page fun _ => 0
        let entry := pteTable (UInt64.ofNat (page * pageSize))
        .ok (⟨mmuPopulate mem table idx entry, rest, page :: s.tables⟩, page)

/-- `mmu_map_range`.  The addresses stay below the ends of the range, which fit in
64 bits; `pa` is used modulo 2^64 only. -/
def mmuMapRange (attr : UInt64) : Nat → State → Nat → Nat → Nat → Nat → Except (Bug × State) State
  | 0, s, table, vstart, vend, pa =>
      slotLoop (levelSize 0) levelSize_zero_pos vend
        (fun s va chunk pa =>
          if chunk ≠ levelSize 0 then .error (.cutPage, s)
          else
            let entry := ptePage (UInt64.ofNat pa) attr
            .ok { s with mem := mmuPopulate s.mem table (index 0 va) entry })
        s vstart pa
  | below + 1, s, table, vstart, vend, pa =>
      slotLoop (levelSize (below + 1)) (levelSize_succ_pos below) vend
        (fun s va chunk pa =>
          if chunk = levelSize (below + 1) ∧ pa % levelSize (below + 1) = 0 then
            let entry := pteBlock (UInt64.ofNat pa) attr
            .ok { s with mem := mmuPopulate s.mem table (index (below + 1) va) entry }
          else do
            let (s, ntable) ← mmuGetNtable s table (index (below + 1) va)
            mmuMapRange attr below s ntable va (va + chunk) pa)
        s vstart pa

/-- The arguments of `mmu_map` after the pgd. -/
structure Call where
  va : UInt64
  pa : UInt64
  size : UInt64
  attr : UInt64

namespace Call

variable (c : Call)

/-- `ALIGN_DOWN(va, PAGE_SIZE)`. -/
def vstart : UInt64 := c.va &&& ~~~ (4096 - 1)

/-- `ALIGN_UP(va + size, PAGE_SIZE)`. -/
def vend : UInt64 := (c.va + c.size + (4096 - 1)) &&& ~~~ (4096 - 1)

def pstart : UInt64 := c.pa - (c.va - c.vstart)

end Call

def mmuMap (s : State) (pgd : Nat) (c : Call) : Except (Bug × State) State :=
  if c.pstart &&& (4096 - 1) ≠ 0 then .error (.unalignedPa, s)
  else mmuMapRange c.attr 3 s pgd c.vstart.toNat c.vend.toNat c.pstart.toNat

/-- The call `mmu_ioremap` makes on the kernel's pgd. -/
def mmuIoremap (gLoadOffset pa size : UInt64) : Call :=
  ⟨pa - gLoadOffset, pa, size, mmuRegionDevice⟩

/-- The call `mmu_memremap` makes on the kernel's pgd. -/
def mmuMemremap (gLoadOffset pa size : UInt64) : Call :=
  ⟨pa - gLoadOffset, pa, size, mmuRegionNormal⟩

/-! ## The walk -/

/-- What a walk finds: the level of the descriptor, the address and the attributes. -/
structure Hit where
  below : Nat
  pa : Nat
  attr : UInt64

/-- The translation of `va` by a block or page descriptor at a level. -/
def hit (below : Nat) (entry : UInt64) (va : Nat) : Hit where
  below := below
  pa := (entry &&& ptePhysMask).toNat / levelSize below * levelSize below + va % levelSize below
  attr := entry &&& ~~~ (ptePhysMask ||| pteTypeMask)

/-- The walk from a table: there are no blocks at `PGD_LEVEL`, and at `PTE_LEVEL`
only page descriptors are valid. -/
def lookup (mem : Memory) : Nat → Nat → Nat → Option Hit
  | 0, table, va =>
      let entry := mem table (index 0 va)
      if typeOf entry = pteTypePage then some (hit 0 entry va) else none
  | below + 1, table, va =>
      let entry := mem table (index (below + 1) va)
      if typeOf entry = pteTypeTable then lookup mem below (pageOf entry) va
      else if typeOf entry = pteTypeBlock ∧ below + 1 ≠ 3 then some (hit (below + 1) entry va)
      else none

/-- The physical address and the attributes behind a 48-bit address. -/
def walk (mem : Memory) (pgd va : Nat) : Option (Nat × UInt64) :=
  (lookup mem 3 pgd va).map fun h => (h.pa, h.attr)

end Minus.Core.Mmu
