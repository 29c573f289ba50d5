/-
# Mm.Slab — kmalloc and its caches

`kernel/mm/slab.c` over the page macros of `include/mm/page.h`: nine caches of
objects of 8 to 2048 bytes, each a set of one-page slabs with the descriptor at
the start of the page and the objects after it.  The free objects of a slab are
chained through their first word, by index; larger requests go to the page
allocator.

A pointer is named by the physical address behind it: `page_to_virt` and
`virt_to_page` shift both by `g_load_offset`, a multiple of the page size.
`page_to_virt` shifts a page frame number left by `PAGE_SHIFT` in the 32 bits of
`size_t`.  The page allocator is the environment: an operation that may ask it
carries its answer.  `taken` is what it has handed out, `released` logs the
calls of `buddy_free_pages`.
-/
import Minus.Mm.Buddy
import Minus.Theory.Bytes

namespace Minus.Mm.Slab

set_option autoImplicit false

open Minus.Theory Minus.Lib.Dlist
open Minus.Mm.Buddy (Pfn getOrder)

/-! ## slab.c -/

/-- `SLAB_MAGIC_END`. -/
def slabMagicEnd : UInt32 := 0xffffffff

/-- `KMALLOC_MAX_SIZE`. -/
def kmallocMaxSize : UInt32 := 2048

/-- `KMALLOC_CACHES_NUM`. -/
def kmallocCachesNum : Nat := 9

/-- `sizeof(struct slab)`. -/
def slabSize : Nat := 40

/-- `PAGE_SIZE`. -/
def pageSize : Nat := 4096

/-- `ALIGN_UP` to a power of two. -/
def alignUp (x align : Nat) : Nat := (x + (align - 1)) / align * align

structure KmemCache where
  objSize : Nat
  align : Nat
  num : Nat

/-- The fields of `struct slab` besides its list node. -/
structure SlabDesc where
  cachep : Nat
  free : UInt32
  inuse : UInt32
  sMem : Nat

inductive SlabList where
  | slabsPartial
  | slabsFull
  | slabsFree
  deriving DecidableEq

/-- The list nodes: the three heads of each cache, and the slab at an address. -/
inductive Node where
  | head (list : SlabList) (cache : Nat)
  | slab (addr : Nat)
  deriving DecidableEq

structure SlabState where
  caches : Nat → KmemCache
  slabs : Nat → SlabDesc
  links : Links Node
  inSlab : Pfn → Bool
  mem : Bytes
  /-- The blocks the page allocator has handed out, with their orders. -/
  taken : List (Pfn × Nat)
  /-- The pages passed to `buddy_free_pages`, in order. -/
  released : List Pfn
  /-- `container_of` was applied to a list head. -/
  fault : Bool

/-- `page_to_virt`: the shift is done in 32 bits. -/
def pageToVirt (page : Pfn) : Nat := page * pageSize % 2 ^ 32

/-- `virt_to_page`: the page frame number is cut to 32 bits. -/
def virtToPage (p : Nat) : Pfn := p / pageSize % 2 ^ 32

/-- `buddy_alloc_pages(size)`, answered by the environment. -/
def buddyAllocPages (s : SlabState) (size : UInt32) (answer : Option Pfn) :
    SlabState × Option Pfn :=
  match answer with
  | some page => ({ s with taken := (page, getOrder size) :: s.taken }, some page)
  | none => (s, none)

def buddyFreePages (s : SlabState) (page : Pfn) : SlabState :=
  { s with taken := s.taken.filter (·.1 != page), released := s.released ++ [page] }

def kmemCacheInit (s : SlabState) (i size align : Nat) : SlabState :=
  let links := dlistInit s.links (.head .slabsPartial i)
  let links := dlistInit links (.head .slabsFull i)
  let links := dlistInit links (.head .slabsFree i)
  let align := if align = 0 then 8 else align
  let objSize := alignUp size align
  let descSize := alignUp slabSize align
  let num := if pageSize < descSize + objSize then 0 else (pageSize - descSize) / objSize
  { s with links := links, caches := Function.update s.caches i ⟨objSize, align, num⟩ }

/-- The loop of `kmem_cache_grow`: object `i` points at object `i + 1`. -/
def linkLoop (mem : Bytes) (sMem objSize num : Nat) : Bytes :=
  (List.range num).foldl (fun m i => store32 m (sMem + i * objSize) (UInt32.ofNat (i + 1))) mem

/-- The loop, and then the last object ends the chain. -/
def linkObjects (mem : Bytes) (sMem objSize num : Nat) : Bytes :=
  store32 (linkLoop mem sMem objSize num) (sMem + (num - 1) * objSize) slabMagicEnd

def kmemCacheGrow (s : SlabState) (i : Nat) (answer : Option Pfn) : SlabState × Option Nat :=
  let cache := s.caches i
  if cache.num = 0 then (s, none)
  else
    match buddyAllocPages s 4096 answer with
    | (s, none) => (s, none)
    | (s, some page) =>
        let slab := pageToVirt page
        let sMem := alignUp (slab + slabSize) cache.align
        ({ s with
            inSlab := Function.update s.inSlab page true
            slabs := Function.update s.slabs slab ⟨i, 0, 0, sMem⟩
            mem := linkObjects s.mem sMem cache.objSize cache.num
            links := dlistAdd s.links (.head .slabsFree i) (.slab slab) }, some slab)

/-- `container_of(head->next, struct slab, node)`. -/
def firstSlab (s : SlabState) (list : SlabList) (i : Nat) : SlabState × Option Nat :=
  match s.links.next (.head list i) with
  | .slab a => (s, some a)
  | .head _ _ => ({ s with fault := true }, none)

/-- `dlist_del(&slab->node); dlist_add(list, &slab->node);` -/
def moveSlab (s : SlabState) (list : SlabList) (i slab : Nat) : SlabState :=
  { s with links := dlistAdd (dlistDel s.links (.slab slab)) (.head list i) (.slab slab) }

/-- Take the first free object of a slab. -/
def takeObject (s : SlabState) (i slab : Nat) : SlabState × Option Nat :=
  let cache := s.caches i
  let d := s.slabs slab
  let objp := d.sMem + d.free.toNat * cache.objSize
  let free := load32 s.mem objp
  let s := { s with
    slabs := Function.update s.slabs slab { d with free := free, inuse := d.inuse + 1 } }
  (if free = slabMagicEnd then moveSlab s .slabsFull i slab else s, some objp)

/-- A slab on no list but `slabs_free`: an old one, or a new one. -/
def freshSlab (s : SlabState) (i : Nat) (answer : Option Pfn) : SlabState × Option Nat :=
  if dlistEmpty s.links (.head .slabsFree i) then kmemCacheGrow s i answer
  else firstSlab s .slabsFree i

def kmemCacheAlloc (s : SlabState) (i : Nat) (answer : Option Pfn) : SlabState × Option Nat :=
  if (s.caches i).num = 0 then (s, none)
  else if dlistEmpty s.links (.head .slabsPartial i) then
    match freshSlab s i answer with
    | (s, none) => (s, none)
    | (s, some slab) => takeObject (moveSlab s .slabsPartial i slab) i slab
  else
    match firstSlab s .slabsPartial i with
    | (s, none) => (s, none)
    | (s, some slab) => takeObject s i slab

def kmemCacheFree (s : SlabState) (i objp : Nat) : SlabState :=
  let cache := s.caches i
  let page := virtToPage objp
  let slab := pageToVirt page
  let d := s.slabs slab
  let idx := UInt32.ofNat ((objp - d.sMem) / cache.objSize)
  let inuse := d.inuse - 1
  let s := { s with
    mem := store32 s.mem objp d.free
    slabs := Function.update s.slabs slab { d with free := idx, inuse := inuse } }
  if inuse = 0 then
    buddyFreePages { s with
      links := dlistDel s.links (.slab slab)
      inSlab := Function.update s.inSlab page false } page
  else if inuse + 1 = UInt32.ofNat cache.num then moveSlab s .slabsPartial i slab
  else s

/-- The loop of `kmalloc_index`. -/
def indexLoop (s order : Nat) : Nat :=
  if s = 0 then order else indexLoop (s / 2) (order + 1)
termination_by s

def kmallocIndex (size : UInt32) : Nat := indexLoop ((size - 1) >>> 3).toNat 0

def kmalloc (s : SlabState) (size : UInt32) (answer : Option Pfn) : SlabState × Option Nat :=
  if size = 0 then (s, none)
  else if kmallocMaxSize < size then
    match buddyAllocPages s size answer with
    | (s, some page) => (s, some (pageToVirt page))
    | (s, none) => (s, none)
  else kmemCacheAlloc s (kmallocIndex size) answer

def kzalloc (s : SlabState) (size : UInt32) (answer : Option Pfn) : SlabState × Option Nat :=
  match kmalloc s size answer with
  | (s, some p) => ({ s with mem := clear s.mem p size.toNat }, some p)
  | (s, none) => (s, none)

/-- `kfree` of a pointer that is not NULL. -/
def kfree (s : SlabState) (objp : Nat) : SlabState :=
  let page := virtToPage objp
  if s.inSlab page then kmemCacheFree s (s.slabs (pageToVirt page)).cachep objp
  else buddyFreePages s page

def slabInit (s : SlabState) : SlabState :=
  (List.range kmallocCachesNum).foldl (fun s i => kmemCacheInit s i (2 ^ (i + 3)) 8) s

/-! ## Runs -/

/-- A live allocation: the pointer returned and the size asked for. -/
structure Alloc where
  ptr : Nat
  size : Nat
  deriving DecidableEq

structure SlabRun where
  mem : SlabState
  live : List Alloc

def Alloc.bytes (l : Alloc) : Set Nat := Set.Ico l.ptr (l.ptr + l.size)

inductive SlabOp where
  | kmalloc (size : UInt32) (answer : Option Pfn)
  | kzalloc (size : UInt32) (answer : Option Pfn)
  | kfree (objp : Nat)
  /-- The owner of an allocation writes a byte of it. -/
  | write (addr : Nat) (value : UInt8)

/-- The order of the block a request may ask for: one page for a slab. -/
def requestOrder (size : UInt32) : Nat := if kmallocMaxSize < size then getOrder size else 0

/-- What `buddy_alloc_pages` may return: an aligned block apart from all others. -/
def Answers (taken : List (Pfn × Nat)) (order page : Nat) : Prop :=
  order < Buddy.buddyMaxOrder ∧ 2 ^ order ∣ page ∧ page + 2 ^ order ≤ 2 ^ 32 ∧
    ∀ b ∈ taken, Disjoint (dyadic (page, order)) (dyadic b)

def slabEnabled (r : SlabRun) : SlabOp → Prop
  | .kmalloc size answer | .kzalloc size answer =>
      ∀ page, answer = some page → Answers r.mem.taken (requestOrder size) page
  | .kfree objp => ∃ l ∈ r.live, l.ptr = objp
  | .write addr _ => ∃ l ∈ r.live, addr ∈ l.bytes

def recordLive (live : List Alloc) (size : UInt32) : Option Nat → List Alloc
  | some p => ⟨p, size.toNat⟩ :: live
  | none => live

def slabStep (r : SlabRun) : SlabOp → SlabRun
  | .kmalloc size answer =>
      let result := kmalloc r.mem size answer
      ⟨result.1, recordLive r.live size result.2⟩
  | .kzalloc size answer =>
      let result := kzalloc r.mem size answer
      ⟨result.1, recordLive r.live size result.2⟩
  | .kfree objp => ⟨kfree r.mem objp, r.live.filter (·.ptr != objp)⟩
  | .write addr value =>
      { r with mem := { r.mem with mem := Function.update r.mem.mem addr value } }

def slabMachine : Machine SlabRun SlabOp where
  enabled := slabEnabled
  step := slabStep

/-- After `slab_init`, before any page is taken. -/
def SlabRun.boot (links : Links Node) (mem : Bytes) : SlabRun where
  mem := slabInit ⟨fun _ => ⟨0, 0, 0⟩, fun _ => ⟨0, 0, 0, 0⟩, links, fun _ => false, mem, [], [], false⟩
  live := []

end Minus.Mm.Slab
