/-
# Mm.Vspace — user address spaces

`kernel/mm/vspace.c`: an address space is a page table and a list of vregions, one
for each page.  `vspace_map_page` backs an address with a fresh page,
`vspace_map_contig_phys` maps physical memory that somebody else owns,
`vspace_find_page` is what the kernel copies through, `vspace_free` takes the whole
apart.

A `struct page *` is named by its page frame number, as in `Mm.Buddy`.  Tables and
kernel aliases of pages are named by the physical page they lie in, as in
`Core.Mmu`: `page_to_phy` shifts the page frame number in the 32 bits of `size_t`,
so a page at or above 4 GiB is addressed through the page 4 GiB below (`frame`).

The page allocator and `kmalloc` are the environment: `pageSupply` and
`objectSupply` are what they will answer, and they return NULL once these are used
up.  `pages` and `objects` are what they have handed out and not got back;
`released` logs the calls of `buddy_free_pages`.
-/
import Mathlib.Data.Finset.Basic
import Minus.Core.Cap
import Minus.Core.MmuPage
import Minus.Mm.Buddy

namespace Minus.Mm.AddressSpace

set_option autoImplicit false

open Minus.Theory
open Minus.Core.Mmu (Memory Call Bug mmuMap pageSize)
open Minus.Core.Cap (CapState capAlloc capResolve capFree capNull)
open Minus.Mm.Buddy (Pfn)

/-! ## Pages and objects -/

/-- `page_to_phy`: `pfn << PAGE_SHIFT` in 32 bits. -/
def pageToPhy (page : Pfn) : Nat := page * pageSize % 2 ^ 32

/-- The physical page that `page_to_phy` and `page_to_virt` lead to. -/
def frame (page : Pfn) : Nat := pageToPhy page / pageSize

/-- A pointer `kmalloc` returned. -/
abbrev Obj := Nat

structure Heap where
  mem : Memory
  pageSupply : List Pfn
  objectSupply : List Obj
  pages : Finset Pfn
  objects : Finset Obj
  released : List Pfn

namespace Heap

/-- `memset(kva, 0, PAGE_SIZE)`. -/
def clear (h : Heap) (frame : Nat) : Heap :=
  { h with mem := Function.update h.mem frame fun _ => 0 }

/-- `buddy_alloc_pages(PAGE_SIZE)`. -/
def buddyAllocPages (h : Heap) : Heap × Option Pfn :=
  match h.pageSupply with
  | [] => (h, none)
  | page :: rest => ({ h with pageSupply := rest, pages := insert page h.pages }, some page)

def buddyFreePages (h : Heap) (page : Pfn) : Heap :=
  { h with pages := h.pages.erase page, released := h.released ++ [page] }

/-- `kzalloc_pages(PAGE_SIZE)`. -/
def kzallocPages (h : Heap) : Heap × Option Nat :=
  match h.buddyAllocPages with
  | (h, none) => (h, none)
  | (h, some page) => (h.clear (frame page), some (frame page))

/-- `kfree_pages`: `virt_to_page` finds the page that the address lies in. -/
def kfreePages (h : Heap) (vaddr : Nat) : Heap := h.buddyFreePages vaddr

def kmalloc (h : Heap) : Heap × Option Obj :=
  match h.objectSupply with
  | [] => (h, none)
  | obj :: rest => ({ h with objectSupply := rest, objects := insert obj h.objects }, some obj)

def kfree (h : Heap) (obj : Obj) : Heap := { h with objects := h.objects.erase obj }

end Heap

/-! ## vspace.c -/

/-- `VM_READ`, `VM_WRITE`, `VM_EXEC`, `VM_DEVICE`. -/
def vmRead : UInt32 := 1
def vmWrite : UInt32 := 2
def vmExec : UInt32 := 4
def vmDevice : UInt32 := 8

def pteShInner : UInt64 := (0x3 : UInt64) <<< 8
def pteApRwAny : UInt64 := (0x1 : UInt64) <<< 6
def pteApRoAny : UInt64 := (0x3 : UInt64) <<< 6
def pteAttrDevice : UInt64 := (0x1 : UInt64) <<< 2
def ptePxn : UInt64 := (1 : UInt64) <<< 53
def pteUxn : UInt64 := (1 : UInt64) <<< 54

/-- `MMU_REGION_USER_CODE`, `_STACK`, `_RO` and `_DEVICE`. -/
def mmuRegionUserCode : UInt64 := pteShInner ||| pteApRoAny ||| ptePxn
def mmuRegionUserStack : UInt64 := pteShInner ||| pteApRwAny ||| ptePxn ||| pteUxn
def mmuRegionUserRo : UInt64 := pteShInner ||| pteApRoAny ||| ptePxn ||| pteUxn
def mmuRegionUserDevice : UInt64 := pteAttrDevice ||| pteApRwAny ||| ptePxn ||| pteUxn

/-- `USER_MMAP_BASE`. -/
def userMmapBase : UInt64 := 0x1000000000

inductive Errno where
  | einval
  | enomem
  deriving DecidableEq

/-- `struct vregion`; `stop` is its field `end`. -/
structure Vregion where
  self : Obj
  start : UInt64
  stop : UInt64
  flags : UInt32
  page : Pfn
  deriving DecidableEq

/-- `struct vspace`, with the vregions in list order.  The kernel keeps no record of
the table pages; `tables` is one for the statements. -/
structure Vspace where
  self : Obj
  pgd : Nat
  mmapBase : UInt64
  regions : List Vregion
  tables : List Nat
  deriving DecidableEq

def vspaceAlloc (h : Heap) : Heap × Option Vspace :=
  match h.kmalloc with
  | (h, none) => (h, none)
  | (h, some vs) =>
      match h.kzallocPages with
      | (h, none) => (h.kfree vs, none)
      | (h, some pgd) => (h, some ⟨vs, pgd, userMmapBase, [], [pgd]⟩)

/-- The body of the loop of `vspace_free`.  `vr->page` is not NULL: every physical page
has its place beside `g_mem_pages`. -/
def freeRegion (h : Heap) (vr : Vregion) : Heap := (h.buddyFreePages vr.page).kfree vr.self

def vspaceFree (h : Heap) (vs : Vspace) : Heap :=
  ((vs.regions.foldl freeRegion h).kfreePages vs.pgd).kfree vs.self

/-- `mmu_map` on the page table of a vspace; it hangs with the heap it has reached. -/
def mapIn (h : Heap) (vs : Vspace) (c : Call) : Except Heap (Heap × Vspace) :=
  let taken (left : List Nat) := h.pageSupply.take (h.pageSupply.length - left.length)
  let after (s : Core.Mmu.State) : Heap :=
    { h with
      mem := s.mem
      pageSupply := h.pageSupply.drop (taken s.supply).length
      pages := h.pages ∪ (taken s.supply).toFinset }
  match mmuMap ⟨h.mem, h.pageSupply.map frame, vs.tables⟩ vs.pgd c with
  | .ok s => .ok (after s, { vs with tables := s.tables })
  | .error (_, s) => .error (after s)

/-- Append a vregion for one page: `dlist_add_tail`. -/
def Vspace.addRegion (vs : Vspace) (obj : Obj) (va : UInt64) (flags : UInt32) (page : Pfn) : Vspace :=
  { vs with regions := vs.regions ++ [⟨obj, va, va + 4096, flags, page⟩] }

def userProtToAttr (flags : UInt32) : UInt64 :=
  if flags &&& vmWrite ≠ 0 then
    if flags &&& vmExec ≠ 0 then pteShInner ||| pteApRwAny ||| Core.Mmu.pteAf ||| ptePxn
    else mmuRegionUserStack
  else if flags &&& vmExec ≠ 0 then mmuRegionUserCode
  else mmuRegionUserRo

/-- `vspace_map_page`; on success the kernel alias of the page. -/
def vspaceMapPage (h : Heap) (vs : Vspace) (uva : UInt64) (flags : UInt32) :
    Except Heap (Heap × Vspace × Except Errno Nat) :=
  if uva &&& (4096 - 1) ≠ 0 then .ok (h, vs, .error .einval)
  else
    match h.buddyAllocPages with
    | (h, none) => .ok (h, vs, .error .enomem)
    | (h, some page) =>
        match h.kmalloc with
        | (h, none) => .ok (h.buddyFreePages page, vs, .error .enomem)
        | (h, some vr) => do
            let attr := userProtToAttr flags
            let (h, vs) ← mapIn h vs ⟨uva, UInt64.ofNat (pageToPhy page), 4096, attr⟩
            .ok (h.clear (frame page), vs.addRegion vr uva flags page, .ok (frame page))

/-- The attributes `vspace_map_contig_phys` picks. -/
def contigAttr (flags : UInt32) : UInt64 :=
  if flags &&& vmDevice ≠ 0 then mmuRegionUserDevice
  else if flags &&& vmWrite ≠ 0 then mmuRegionUserStack
  else if flags &&& vmExec ≠ 0 then mmuRegionUserCode
  else mmuRegionUserRo

/-- The loop of `vspace_map_contig_phys`, with the number of pages still to map and
the addresses of the next one. -/
def contigLoop (flags : UInt32) :
    Nat → Heap → Vspace → UInt64 → UInt64 → Except Heap (Heap × Vspace × Except Errno Unit)
  | 0, h, vs, _, _ => .ok (h, vs, .ok ())
  | n + 1, h, vs, paddr, vaddr =>
      match h.kmalloc with
      | (h, none) => .ok (h, vs, .error .enomem)
      | (h, some vr) => do
          let page := paddr.toNat / pageSize
          let (h, vs) ← mapIn h vs ⟨vaddr, paddr, 4096, contigAttr flags⟩
          contigLoop flags n h (vs.addRegion vr vaddr flags page) (paddr + 4096) (vaddr + 4096)

/-- `PAGE_ALIGN` of a `size_t`, and back into one. -/
def pageAlign (size : UInt32) : UInt32 := ((size.toUInt64 + 4096 - 1) &&& ~~~ (4096 - 1)).toUInt32

/-- `vspace_map_contig_phys`; on success the user address. -/
def vspaceMapContigPhys (h : Heap) (vs : Vspace) (phys : UInt64) (size : UInt32) (flags : UInt32) :
    Except Heap (Heap × Vspace × Except Errno UInt64) :=
  if phys &&& (4096 - 1) ≠ 0 then .ok (h, vs, .error .einval)
  else
    let size := pageAlign size
    let nrPages := size >>> 12
    if nrPages = 0 then .ok (h, vs, .error .einval)
    else do
      let va := vs.mmapBase
      let vs := { vs with mmapBase := vs.mmapBase + size.toUInt64 }
      let (h, vs, ret) ← contigLoop flags nrPages.toNat h vs phys va
      .ok (h, vs, ret.map fun _ => va)

/-- `vspace_find_page`: the page and the offset in it. -/
def vspaceFindPage (vs : Vspace) (addr : UInt64) : Option (Pfn × UInt32) :=
  (vs.regions.find? fun vr => vr.start ≤ addr && addr < vr.stop).map fun vr =>
    (vr.page, (addr - vr.start).toUInt32)

/-! ## mm.c -/

/-- `CAP_R_MAP`. -/
def capRMap : UInt64 := (1 : UInt64) <<< 3

/-- `CAP_R_CTL`. -/
def capRCtl : UInt64 := (1 : UInt64) <<< 4

/-- The memory manager behind its service table: the heap, the capability table and
the vspaces by their addresses. -/
structure MmState where
  heap : Heap
  caps : CapState Obj
  vspaces : Obj → Vspace

def mmVspaceCreate (m : MmState) : MmState × UInt64 :=
  match vspaceAlloc m.heap with
  | (h, none) => ({ m with heap := h }, capNull)
  | (h, some vs) =>
      let (caps, cap) := capAlloc m.caps (some vs.self) (capRMap ||| capRCtl)
      (⟨h, caps, Function.update m.vspaces vs.self vs⟩, cap)

def mmVspaceMapPage (m : MmState) (cap uva : UInt64) (flags : UInt32) :
    Except Heap (MmState × Except Errno Nat) :=
  match capResolve m.caps cap capRMap with
  | none => .ok (m, .error .einval)
  | some vs => do
      let (h, v, ret) ← vspaceMapPage m.heap (m.vspaces vs) uva flags
      .ok ({ m with heap := h, vspaces := Function.update m.vspaces vs v }, ret)

def mmVspaceDestroy (m : MmState) (cap : UInt64) : MmState :=
  match capResolve m.caps cap capRCtl with
  | none => m
  | some vs => { m with caps := capFree m.caps cap, heap := vspaceFree m.heap (m.vspaces vs) }

end Minus.Mm.AddressSpace
