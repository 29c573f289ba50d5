/-
# Core.EarlyMmu — filling tables through the fixmap

`kernel/core/arch/early_mmu.c` once the MMU is on.  It is `mmu_map` again, but the
kernel has no mapping of its table pages: to reach one, it writes the page into a
descriptor of the fixmap, a slot for each level below the first, and uses the slot's
address.  The descriptors of the fixmap are in a page that slot 0 maps.

A pointer to a table is a virtual address, that of a slot of the fixmap or, for level 0, one in
the kernel image; the hardware walk from `TTBR1` says which page that is when it is used.
There is no TLB: a descriptor counts from the moment it is written.
`memblock_alloc_aligned` is the environment as in `Core.Mmu`, but where it has no page it
returns NULL and the code goes on with physical page 0.
-/
import Minus.Core.Mmu

namespace Minus.Core.Mmu

set_option autoImplicit false

open Minus.Theory

/-- `FIXMAP_ADDR`, which is `FIXMAP_PGTBL`. -/
def fixmapAddr : Nat := 0xFFFFFFFFC0000000

def earlyMmuFixmapVa (slot : Nat) : Nat := fixmapAddr + slot * pageSize

/-- A pointer to a table. -/
structure TablePtr where
  va : Nat

/-- How a computation ends early: in `MMU_BUGON`, or with a translation fault. -/
inductive EarlyStop where
  | bug (bug : Bug)
  | fault
  deriving DecidableEq

section Code

variable (ttbr1 : Nat)

/-- The page behind a pointer. -/
def TablePtr.page (mem : Memory) (ptr : TablePtr) : Option Nat :=
  (walk mem ttbr1 ptr.va).map fun found => found.1 / pageSize

def deref (s : State) (ptr : TablePtr) : Except (EarlyStop × State) Nat :=
  match ptr.page ttbr1 s.mem with
  | some page => .ok page
  | none => .error (.fault, s)

/-- `*entry = val`. -/
def earlyMmuPopulate (s : State) (table : TablePtr) (idx : Fin 512) (val : UInt64) :
    Except (EarlyStop × State) State := do
  let page ← deref ttbr1 s table
  .ok { s with mem := mmuPopulate s.mem page idx val }

/-- The physical address of a page from `memblock_alloc_aligned`. -/
def earlyMmuAllocPage (s : State) : State × UInt64 :=
  match s.supply with
  | [] => (s, 0)
  | page :: rest => ({ s with supply := rest, tables := page :: s.tables }, UInt64.ofNat (page * pageSize))

def earlyMmuFixmapSet (s : State) (pa : UInt64) (level : Fin 512) : Except (EarlyStop × State) (State × TablePtr) := do
  let slot := level
  let va := earlyMmuFixmapVa slot
  let s ← earlyMmuPopulate ttbr1 s ⟨fixmapAddr⟩ slot (ptePage pa mmuRegionNormal)
  .ok (s, ⟨va⟩)

def earlyMmuGetNtable (s : State) (table : TablePtr) (idx level : Fin 512) :
    Except (EarlyStop × State) (State × TablePtr) := do
  let page ← deref ttbr1 s table
  let entry := s.mem page idx
  if mmuEntryPopulated entry then
    earlyMmuFixmapSet ttbr1 s (entry &&& ptePhysMask) level
  else
    let (s, phys) := earlyMmuAllocPage s
    let s ← earlyMmuPopulate ttbr1 s table idx (pteTable phys)
    let (s, vaddr) ← earlyMmuFixmapSet ttbr1 s phys level
    let new ← deref ttbr1 s vaddr
    .ok ({ s with mem := Function.update s.mem new fun _ => 0 }, vaddr)

/-- The level of a table, counted from the top as in the source. -/
def level (below : Nat) : Fin 512 := Fin.ofNat 512 (3 - below)

/-- `early_mmu_map_range`. -/
def earlyMmuMapRange (attr : UInt64) :
    Nat → State → TablePtr → Nat → Nat → Nat → Except (EarlyStop × State) State
  | 0, s, table, vstart, vend, pa =>
      slotLoop (levelSize 0) levelSize_zero_pos vend
        (fun s va chunk pa =>
          if chunk ≠ levelSize 0 then .error (.bug .cutPage, s)
          else earlyMmuPopulate ttbr1 s table (index 0 va) (ptePage (UInt64.ofNat pa) attr))
        s vstart pa
  | below + 1, s, table, vstart, vend, pa =>
      slotLoop (levelSize (below + 1)) (levelSize_succ_pos below) vend
        (fun s va chunk pa =>
          if chunk = levelSize (below + 1) ∧ pa % levelSize (below + 1) = 0 then
            earlyMmuPopulate ttbr1 s table (index (below + 1) va) (pteBlock (UInt64.ofNat pa) attr)
          else do
            let (s, ntable) ← earlyMmuGetNtable ttbr1 s table (index (below + 1) va) (level below)
            earlyMmuMapRange attr below s ntable va (va + chunk) pa)
        s vstart pa

def earlyMmuMap (s : State) (table : TablePtr) (c : Call) : Except (EarlyStop × State) State :=
  if c.pstart &&& (4096 - 1) ≠ 0 then .error (.bug .unalignedPa, s)
  else earlyMmuMapRange ttbr1 c.attr 3 s table c.vstart.toNat c.vend.toNat c.pstart.toNat

end Code

end Minus.Core.Mmu
