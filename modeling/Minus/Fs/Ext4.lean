/-
# Fs.Ext4 — reading and writing a regular ext4 file

`kernel/fs/backend/ext4fs/extent.c` and `file.c`: the extents of an inode, the
block allocator, and the two copy loops; `vfs_llseek` and the `O_TRUNC` of
`vfs_open` from `kernel/fs/service/vfs.c`.

The buffer cache hands out one buffer for each block number, so the blocks of the
volume are `data`, and I/O succeeds.  A block bitmap is kept apart, under the
group whose descriptor names it: it lies in a block that is marked in use, which a
search of the right bitmap never gives out.  The extents are the entries of `i_data`, which
`eh_entries` counts.  Unsigned 32-bit arithmetic is written with `% 2 ^ 32`;
`size_t` and `ssize_t` have 32 bits here and `loff_t` has 64.

`s_group_desc` holds the buffers of the descriptor *blocks*, but
`ext4_read_bitmap` indexes it with a group number.  The model follows it: group
`g` gets the first descriptor of block `g`, and past the end of the array the read
is wild.
-/
import Minus.Theory.Slots
import Minus.Theory.Machine

namespace Minus.Fs.Ext4

set_option autoImplicit false

open Minus.Theory

inductive Errno where
  | eio
  | einval
  | enospc
  deriving DecidableEq

/-- The negative number a system call returns. -/
def Errno.ret : Errno → Int
  | .eio => -5
  | .einval => -22
  | .enospc => -28

/-! ## The volume -/

/-- `ext4_sb_info` as `ext4_alloc_sbi` fills it; a bitmap is one block. -/
structure Volume where
  logBlockSize : Nat
  groupsCount : Nat
  blocksPerGroup : Nat
  firstDataBlock : Nat
  shifted : logBlockSize < 22
  oneBlock : blocksPerGroup ≤ 8 * (1024 * 2 ^ logBlockSize)

namespace Volume

variable (v : Volume)

/-- `s_blocksize`: `1024 << s_log_block_size`. -/
def blockSize : Nat := 1024 * 2 ^ v.logBlockSize

theorem blockSize_pos : 0 < v.blockSize := Nat.mul_pos (by decide) (Nat.two_pow_pos _)

/-- `s_desc_per_block`: a group descriptor has 32 bytes. -/
def descPerBlock : Nat := v.blockSize / 32

/-- `gd_blocks`: how many buffers `s_group_desc` holds. -/
def gdBlocks : Nat := (v.groupsCount + v.descPerBlock - 1) / v.descPerBlock

end Volume

/-! ## Extents -/

structure Extent where
  eeBlock : Nat
  eeLen : Nat
  eeStartHi : Nat
  eeStartLo : Nat
  deriving DecidableEq

namespace Extent

variable (e : Extent)

/-- `((uint64_t)ee_start_hi << 32) | ee_start_lo`. -/
def phys : Nat := e.eeStartHi * 2 ^ 32 + e.eeStartLo

/-- `iblock >= start && iblock < start + len`, in `uint32_t`. -/
def holds (iblock : Nat) : Bool :=
  decide (e.eeBlock ≤ iblock ∧ iblock < (e.eeBlock + e.eeLen) % 2 ^ 32)

/-- The block follows the extent in the file and on the disk, and the length can grow. -/
def continues (iblock pblock : Nat) : Bool :=
  decide (iblock = (e.eeBlock + e.eeLen) % 2 ^ 32 ∧ pblock = e.phys + e.eeLen ∧ e.eeLen < 32768)

/-- The extent of one block that `ext4_set_block` writes.  The upper half of the
number is taken from bit 16 on, not from bit 32 on. -/
def single (iblock pblock : Nat) : Extent where
  eeBlock := iblock
  eeLen := 1
  eeStartLo := pblock % 2 ^ 32
  eeStartHi := pblock / 2 ^ 16 % 2 ^ 16

def grown : Extent := { e with eeLen := (e.eeLen + 1) % 2 ^ 16 }

end Extent

/-- `EXT4_EXTENT_HEADER_MAGIC`. -/
def extentHeaderMagic : Nat := 0xF30A

/-- The extents that fit behind the header: `(sizeof(i_data) - 12) / 12`. -/
def extentMax : Nat := (60 - 12) / 12

structure Inode where
  iSize : Nat
  iBlocks : Nat
  ehMagic : Nat
  ehMax : Nat
  extents : List Extent

def ext4GetBlock (inode : Inode) (iblock : Nat) : Except Errno Nat :=
  if inode.ehMagic = extentHeaderMagic then
    match inode.extents.find? fun e => e.holds iblock with
    | some e => .ok (e.phys + (iblock - e.eeBlock))
    | none => .error .enospc
  else
    .error .eio

/-- The header `ext4_set_block` expects, put there if it is not. -/
def Inode.headed (inode : Inode) : Inode :=
  if inode.ehMagic = extentHeaderMagic then inode
  else { inode with ehMagic := extentHeaderMagic, ehMax := extentMax, extents := [] }

/-- A block more: the extents, and `i_blocks` in units of 512 bytes. -/
def Inode.charge (v : Volume) (inode : Inode) (extents : List Extent) : Inode :=
  { inode with extents, iBlocks := inode.iBlocks + v.blockSize / 512 }

/-- The end of `ext4_set_block`: a new extent, if there is room. -/
def Inode.append (v : Volume) (inode : Inode) (iblock pblock : Nat) : Except Errno Inode :=
  if inode.ehMax ≤ inode.extents.length then .error .enospc
  else .ok (inode.charge v (inode.extents ++ [.single iblock pblock]))

def ext4SetBlock (v : Volume) (inode : Inode) (iblock pblock : Nat) : Except Errno Inode :=
  match inode.headed.extents.getLast? with
  | some last =>
      if last.continues iblock pblock then
        .ok (inode.headed.charge v (inode.headed.extents.dropLast ++ [last.grown]))
      else
        inode.headed.append v iblock pblock
  | none => inode.headed.append v iblock pblock

/-! ## The allocator -/

/-- The block bitmap of each group, a clear bit for a free block. -/
abbrev Bitmaps := Nat → Nat → Bool

/-- How a call fails: with an error number, or with a read outside an array. -/
inductive Failure where
  | errno (e : Errno)
  | wild
  deriving DecidableEq

/-- The first clear bit below `size`, or `size`. -/
def findFirstZeroBit (bits : Nat → Bool) (size : Nat) : Nat :=
  ((List.range size).find? fun i => !bits i).getD size

/-- The group whose bitmap `ext4_read_bitmap` reads: the first one described by
descriptor block `group`. -/
def ext4ReadBitmap (v : Volume) (group : Nat) : Except Failure Nat :=
  if group < v.gdBlocks then .ok (group * v.descPerBlock) else .error .wild

def setBit (bitmaps : Bitmaps) (group idx : Nat) : Bitmaps :=
  fun g i => if g = group ∧ i = idx then true else bitmaps g i

/-- The loop of `ext4_find_free_block`, with the number of groups left. -/
def findFreeFrom (v : Volume) (bitmaps : Bitmaps) : Nat → Nat → Except Failure (Bitmaps × Nat)
  | 0, _ => .error (.errno .enospc)
  | left + 1, group => do
      let described ← ext4ReadBitmap v group
      let idx := findFirstZeroBit (bitmaps described) v.blocksPerGroup
      if idx < v.blocksPerGroup then
        .ok (setBit bitmaps described idx, group * v.blocksPerGroup + idx + v.firstDataBlock)
      else
        findFreeFrom v bitmaps left (group + 1)

def ext4FindFreeBlock (v : Volume) (bitmaps : Bitmaps) : Except Failure (Bitmaps × Nat) :=
  findFreeFrom v bitmaps v.groupsCount 0

def ext4NewBlock (v : Volume) (bitmaps : Bitmaps) : Except Failure (Bitmaps × Nat) :=
  ext4FindFreeBlock v bitmaps

/-! ## Writing -/

/-- What decides where a file's blocks are. -/
structure Layout where
  inode : Inode
  bitmaps : Bitmaps

structure State where
  layout : Layout
  data : Nat → Nat → UInt8

/-- How a loop ends early: with `ret` and what it has reached, or in a wild read. -/
inductive Stop (σ : Type) where
  | short (e : Errno) (reached : σ)
  | wild

/-- The block a write goes to: the mapped one, else a new one.  A block that no
extent can take stays marked in the bitmap. -/
def writeBlock (v : Volume) (l : Layout) (iblock : Nat) : Except (Stop Layout) (Layout × Nat) :=
  match ext4GetBlock l.inode iblock with
  | .ok pblock => .ok (l, pblock)
  | .error _ =>
      match ext4NewBlock v l.bitmaps with
      | .error .wild => .error .wild
      | .error (.errno _) => .error (.short .enospc l)
      | .ok (bitmaps, pblock) =>
          match ext4SetBlock v l.inode iblock pblock with
          | .error _ => .error (.short .enospc { l with bitmaps })
          | .ok inode => .ok ({ inode, bitmaps }, pblock)

/-- `memcpy` of `count` bytes, from `buf` at `source`, into a block. -/
def copyIn (data : Nat → Nat → UInt8) (pblock off count : Nat) (buf : List UInt8) (source : Nat) :
    Nat → Nat → UInt8 :=
  fun p i =>
    if p = pblock ∧ off ≤ i ∧ i < off + count then buf.getD (source + (i - off)) 0 else data p i

/-- `(uint32_t)(offset / block_size)`. -/
def Volume.iblock (v : Volume) (offset : Nat) : Nat := offset / v.blockSize % 2 ^ 32

/-- One round of the loop of `ext4_file_write`. -/
def writeChunk (v : Volume) (buf : List UInt8) (s : State) (offset toCopy source : Nat) :
    Except (Stop (State × Nat)) State :=
  match writeBlock v s.layout (v.iblock offset) with
  | .ok (layout, pblock) =>
      .ok ⟨layout, copyIn s.data pblock (offset % v.blockSize) toCopy buf source⟩
  | .error (.short e layout) => .error (.short e ({ s with layout }, offset))
  | .error .wild => .error .wild

/-- The value of a `uint32_t` sum stored in a `ssize_t`. -/
def ssize (n : Nat) : Int := Int.bmod n (2 ^ 32)

structure WriteResult where
  ret : Int
  state : State
  pos : Nat

def State.resize (s : State) (size : Nat) : State :=
  { s with layout := { s.layout with inode := { s.layout.inode with iSize := size } } }

/-- What follows the loop of `ext4_file_write`: the size and the position move only
if `total` is positive. -/
def writeEnd (s : State) (pos offset : Nat) (ret : Int) : WriteResult :=
  let total := ssize (offset - pos)
  if 0 < total then
    ⟨total, s.resize (max s.layout.inode.iSize offset), offset⟩
  else
    ⟨if total = 0 then ret else total, s, pos⟩

/-- `none` is a wild read. -/
def ext4FileWrite (v : Volume) (s : State) (buf : List UInt8) (pos : Nat) : Option WriteResult :=
  match slotLoop v.blockSize v.blockSize_pos (pos + buf.length) (writeChunk v buf) s pos 0 with
  | .ok s => some (writeEnd s pos (pos + buf.length) 0)
  | .error (.short e (s, offset)) => some (writeEnd s pos offset e.ret)
  | .error .wild => none

/-! ## Reading -/

structure ReadResult where
  ret : Int
  buf : List UInt8
  pos : Nat
  deriving DecidableEq

/-- One round of the loop of `ext4_file_read`; an unmapped block reads as zeros. -/
def readChunk (v : Volume) (s : State) (buf : List UInt8) (offset toCopy _source : Nat) :
    Except (List UInt8 × Nat) (List UInt8) :=
  match ext4GetBlock s.layout.inode (v.iblock offset) with
  | .ok pblock => .ok (buf ++ (List.range toCopy).map fun k => s.data pblock (offset % v.blockSize + k))
  | .error .enospc => .ok (buf ++ List.replicate toCopy 0)
  | .error _ => .error (buf, offset)

def readEnd (buf : List UInt8) (pos offset : Nat) (ret : Int) : ReadResult :=
  let total := ssize (offset - pos)
  ⟨if total = 0 then ret else total, buf, if 0 < total then offset else pos⟩

def ext4FileRead (v : Volume) (s : State) (len pos : Nat) : ReadResult :=
  let iSize := s.layout.inode.iSize
  if iSize ≤ pos then
    ⟨0, [], pos⟩
  else
    let len := if iSize < pos + len then (iSize - pos) % 2 ^ 32 else len
    match slotLoop v.blockSize v.blockSize_pos (pos + len) (readChunk v s) [] pos 0 with
    | .ok buf => readEnd buf pos (pos + len) 0
    | .error (buf, offset) => readEnd buf pos offset Errno.eio.ret

/-! ## Positions and truncation -/

/-- `vfs_llseek` of a file without a method of its own: the value returned and
`f_pos`. -/
def vfsLlseek (iSize fPos : Nat) (offset whence : Int) : Int × Nat :=
  let seek (newpos : Int) : Int × Nat :=
    -- the sum is a `loff_t`
    let newpos := Int.bmod newpos (2 ^ 64)
    if newpos < 0 then (0, 0) else (newpos, newpos.toNat)
  if whence = 0 then seek offset
  else if whence = 1 then seek (fPos + offset)
  else if whence = 2 then seek (iSize + offset)
  else (Errno.einval.ret, fPos)

/-- `vfs_open` of the file: `O_TRUNC` sets the size and nothing else. -/
def vfsOpen (s : State) (trunc : Bool) : State := if trunc then s.resize 0 else s

/-- The inode `ext4_create` leaves. -/
def ext4Create : Inode where
  iSize := 0
  iBlocks := 0
  ehMagic := extentHeaderMagic
  ehMax := extentMax
  extents := []

end Minus.Fs.Ext4
