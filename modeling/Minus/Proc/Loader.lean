/-
# Proc.Loader — loading an ELF image

`kernel/proc/loader.c` with the layouts of `elf.h`: the file is checked, every
PT_LOAD segment is mapped page by page and filled from the file, and a stack page
is added below `USER_STACK_TOP`.

The file is the buffer that the fs service returns, with whatever lies in memory
behind it; reads of the header are reads of its bytes.  The capability of the vspace
resolves to the same vspace throughout, so the loader works on that.  `memcpy` goes
through the kernel alias of the page that `vspace_map_page` has just mapped.
-/
import Minus.Mm.VspaceMap
import Minus.Theory.Bytes

namespace Minus.Proc.Loader

set_option autoImplicit false

open Minus.Theory
open Minus.Core.Mmu (Memory pageSize walk)
open Minus.Mm.AddressSpace

/-! ## elf.h -/

/-- `struct elf64_phdr`, the fields the loader reads. -/
structure Phdr where
  pType : UInt32
  pFlags : UInt32
  pOffset : UInt64
  pVaddr : UInt64
  pFilesz : UInt64
  pMemsz : UInt64
  deriving DecidableEq

/-- `sizeof(struct elf64_phdr)`. -/
def phdrSize : Nat := 56

/-- `sizeof(struct elf64_ehdr)`. -/
def ehdrSize : Nat := 64

def ptLoad : UInt32 := 1
def pfX : UInt32 := 1
def pfW : UInt32 := 2

/-- The file in memory. -/
structure Image where
  bytes : Bytes
  size : UInt32

namespace Image

variable (f : Image)

def eType : UInt16 := load16 f.bytes 16
def eMachine : UInt16 := load16 f.bytes 18
def eEntry : UInt64 := load64 f.bytes 24
def ePhoff : UInt64 := load64 f.bytes 32
def ePhentsize : UInt16 := load16 f.bytes 54
def ePhnum : UInt16 := load16 f.bytes 56

def phdr (i : Nat) : Phdr :=
  let base := f.ePhoff.toNat + i * phdrSize
  { pType := load32 f.bytes base
    pFlags := load32 f.bytes (base + 4)
    pOffset := load64 f.bytes (base + 8)
    pVaddr := load64 f.bytes (base + 16)
    pFilesz := load64 f.bytes (base + 32)
    pMemsz := load64 f.bytes (base + 40) }

def phdrs : List Phdr := (List.range f.ePhnum.toNat).map f.phdr

/-- The segments to load, in the order of the program headers. -/
def segments : List Phdr := f.phdrs.filter (·.pType = ptLoad)

end Image

/-! ## loader.c -/

/-- `USER_STACK_TOP`. -/
def userStackTop : UInt64 := 0x80000000

inductive LoadError where
  | enoexec
  | enomem
  | file
  deriving DecidableEq

namespace Phdr

variable (ph : Phdr)

/-- `ALIGN_DOWN(p_vaddr, PAGE_SIZE)`. -/
def vstart : UInt64 := ph.pVaddr &&& ~~~ (4096 - 1)

/-- `ALIGN_UP(p_vaddr + p_memsz, PAGE_SIZE)`. -/
def vend : UInt64 := (ph.pVaddr + ph.pMemsz + (4096 - 1)) &&& ~~~ (4096 - 1)

def vmFlags : UInt32 :=
  let flags := vmRead
  let flags := if ph.pFlags &&& pfW ≠ 0 then flags ||| vmWrite else flags
  if ph.pFlags &&& pfX ≠ 0 then flags ||| vmExec else flags

/-- The checks of `load_segment`. -/
def Refused (elfSize : UInt32) : Prop :=
  ph.pFilesz > ph.pMemsz ∨
  (ph.pOffset + ph.pFilesz < ph.pOffset ∨ ph.pOffset + ph.pFilesz > elfSize.toUInt64) ∨
  (ph.vend < ph.vstart ∨ ph.vend > userStackTop)

instance (elfSize : UInt32) : Decidable (ph.Refused elfSize) :=
  inferInstanceAs (Decidable (_ ∨ (_ ∨ _) ∨ (_ ∨ _)))

end Phdr

/-- `memcpy` of `len` bytes to the offset `dst` of a page. -/
def memcpyPage (mem : Memory) (page dst len : Nat) (src : Nat → UInt8) : Memory :=
  Function.update mem page fun i => wordOf fun k =>
    if dst ≤ 8 * i.val + k ∧ 8 * i.val + k < dst + len then src (8 * i.val + k - dst)
    else byteOf (mem page i) k

/-- The part of the loop of `load_segment` after the page has been mapped. -/
def copyPage (ph : Phdr) (f : Image) (h : Heap) (kva : Nat) (uva : UInt64) : Heap :=
  let segFileStart := ph.pVaddr
  let segFileEnd := ph.pVaddr + ph.pFilesz
  let copyStart := if uva > segFileStart then uva else segFileStart
  let copyEnd := if uva + 4096 < segFileEnd then uva + 4096 else segFileEnd
  if copyEnd > copyStart then
    let dstOff := (copyStart - uva).toUInt32
    let srcOff := (copyStart - segFileStart + ph.pOffset).toUInt32
    let len := (copyEnd - copyStart).toUInt32
    { h with mem := memcpyPage h.mem kva dstOff.toNat len.toNat fun k => f.bytes (srcOff.toNat + k) }
  else h

/-- The loop of `load_segment`, with the number of pages left. -/
def segmentLoop (ph : Phdr) (f : Image) :
    Nat → Heap → Vspace → UInt64 → Except Heap (Heap × Vspace × Except LoadError Unit)
  | 0, h, vs, _ => .ok (h, vs, .ok ())
  | n + 1, h, vs, uva => do
      let (h, vs, ret) ← vspaceMapPage h vs uva ph.vmFlags
      match ret with
      | .error _ => .ok (h, vs, .error .enomem)
      | .ok kva => segmentLoop ph f n (copyPage ph f h kva uva) vs (uva + 4096)

def loadSegment (ph : Phdr) (f : Image) (h : Heap) (vs : Vspace) :
    Except Heap (Heap × Vspace × Except LoadError Unit) :=
  if ph.Refused f.size then .ok (h, vs, .error .enoexec)
  else segmentLoop ph f ((ph.vend.toNat - ph.vstart.toNat) / pageSize) h vs ph.vstart

def allocUserStack (h : Heap) (vs : Vspace) : Except Heap (Heap × Vspace × Except Errno Nat) :=
  vspaceMapPage h vs (userStackTop - 4096) (vmRead ||| vmWrite)

/-- The end of the program headers, as `verify_elf` computes it. -/
def Image.phdrsEnd (f : Image) : UInt64 := f.ePhoff + f.ePhnum.toUInt64 * 56

/-- `verify_elf` accepts: magic, ident, type and machine, and where the program headers are. -/
def Image.Verified (f : Image) : Prop :=
  (f.bytes 0 = 0x7f ∧ f.bytes 1 = 0x45 ∧ f.bytes 2 = 0x4c ∧ f.bytes 3 = 0x46) ∧
  (f.bytes 4 = 2 ∧ f.bytes 5 = 1 ∧ f.bytes 6 = 1) ∧
  (f.eType = 2 ∧ f.eMachine = 183) ∧
  f.ePhentsize = 56 ∧
  ¬ (f.ePhnum = 0 ∨ f.ePhnum > 128) ∧
  ¬ (f.ePhoff < 64 ∨ f.phdrsEnd < f.ePhoff ∨ f.phdrsEnd > f.size.toUInt64)

instance (f : Image) : Decidable f.Verified := inferInstanceAs (Decidable (_ ∧ _ ∧ _ ∧ _ ∧ _ ∧ _))

/-- The loop of `proc_load_elf` over the program headers. -/
def loadSegments (f : Image) :
    List Phdr → Heap → Vspace → Except Heap (Heap × Vspace × Except LoadError Unit)
  | [], h, vs => .ok (h, vs, .ok ())
  | ph :: rest, h, vs =>
      if ph.pType = ptLoad then do
        let (h, vs, ret) ← loadSegment ph f h vs
        match ret with
        | .error e => .ok (h, vs, .error e)
        | .ok _ => loadSegments f rest h vs
      else loadSegments f rest h vs

/-- `proc_load_elf` on the file that `load_file` returns; on success the entry point and
the stack top. -/
def procLoadElf (file : Except LoadError Image) (h : Heap) (vs : Vspace) :
    Except Heap (Heap × Vspace × Except LoadError (UInt64 × UInt64)) :=
  match file with
  | .error e => .ok (h, vs, .error e)
  | .ok f =>
      if ¬ f.Verified then .ok (h, vs, .error .enoexec)
      else do
        let (h, vs, ret) ← loadSegments f f.phdrs h vs
        match ret with
        | .error e => .ok (h, vs, .error e)
        | .ok _ =>
            let (h, vs, stack) ← allocUserStack h vs
            match stack with
            | .error _ => .ok (h, vs, .error .enomem)
            | .ok _ => .ok (h, vs, .ok (f.eEntry, userStackTop))

end Minus.Proc.Loader
