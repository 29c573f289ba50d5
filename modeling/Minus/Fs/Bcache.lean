/-
# Fs.Bcache — the buffer cache

`kernel/fs/backend/bcache/bcache.c`: buffer heads in a red-black tree ordered by
device and block number, the same heads on the list `g_bcache_lru`, and the devices
behind them.  `kmalloc`, `kzalloc_pages` and the driver of a device are the
environment: an operation carries their answers.  A read or a write of a block that
succeeds moves its contents; one that fails leaves what it likes in the buffer or on
the device.  Distinct devices have no block in common.

The caller changes the bytes at `b_data` in place and calls `mark_buffer_dirty`;
`modify` is the two together.  The loops take fuel, as in `Lib.Rbtree`.
-/
import Minus.Lib.Rbtree
import Minus.Lib.Dlist
import Minus.Theory.Machine

namespace Minus.Fs.Bcache

set_option autoImplicit false

open Minus.Theory Minus.Lib.Rbtree Minus.Lib.Dlist

/-- The address of a `struct block_device`, which the tree is ordered by. -/
abbrev Bdev := Nat

/-- The address of a `struct buffer_head`. -/
abbrev Bh := Nat

/-- An allocation of `kzalloc_pages`. -/
abbrev Pages := Nat

/-- A block of a device. -/
abbrev Place := Bdev × UInt64

/-- `struct buffer_head` without its links. -/
structure BufferHead where
  bBlocknr : UInt64
  bSize : UInt32
  bRefCount : Int
  bDirty : Bool
  bData : Pages
  bBdev : Bdev
  deriving DecidableEq

def BufferHead.place (bh : BufferHead) : Place := (bh.bBdev, bh.bBlocknr)

structure State where
  heads : Bh → BufferHead
  /-- The buffer heads that are allocated. -/
  live : List Bh
  data : Pages → List UInt8
  /-- The data pages that are allocated. -/
  pages : List Pages
  gBcacheTree : RbTree Bh
  /-- `none` is `g_bcache_lru`. -/
  gBcacheLru : Links (Option Bh)
  disk : Place → List UInt8

/-- What a driver answers to a request for one block: the value it returns, and what a
failed transfer leaves behind. -/
structure Transfer where
  ret : Int
  torn : List UInt8

/-- The answers to the calls of `bread`. -/
structure Loading where
  kmalloc : Option Bh
  kzallocPages : Option Pages
  read : Transfer

def bcacheCmp (bh1 bh2 : BufferHead) : Int :=
  if bh1.bBdev ≠ bh2.bBdev then if bh1.bBdev < bh2.bBdev then -1 else 1
  else if bh1.bBlocknr = bh2.bBlocknr then 0
  else if bh1.bBlocknr < bh2.bBlocknr then -1 else 1

/-- `g_bcache_tree.comp`. -/
def State.comp (s : State) (n1 n2 : Bh) : Int := bcacheCmp (s.heads n1) (s.heads n2)

/-- One more than the buffers there are. -/
def State.fuel (s : State) : Nat := s.live.length + 1

/-- The loop of `bcache_find`. -/
def findLoop (s : State) (keyBh : BufferHead) : Nat → Option Bh → Except Stop (Option Bh)
  | _, none => .ok none
  | 0, some _ => .error .fuel
  | fuel + 1, some node =>
      let cmp := bcacheCmp keyBh (s.heads node)
      if cmp = 0 then .ok (some node)
      else
        findLoop s keyBh fuel
          (if cmp < 0 then (s.gBcacheTree.nodes node).left else (s.gBcacheTree.nodes node).right)

def bcacheFind (s : State) (bdev : Bdev) (block : UInt64) : Except Stop (Option Bh) :=
  let keyBh : BufferHead := ⟨block, 0, 0, false, 0, bdev⟩
  findLoop s keyBh s.fuel s.gBcacheTree.root

def allocBuffer (s : State) (answers : Loading) (bdev : Bdev) (block : UInt64) (size : UInt32) :
    State × Option Bh :=
  match answers.kmalloc with
  | none => (s, none)
  | some bh =>
      let s := { s with live := bh :: s.live }
      match answers.kzallocPages with
      | none => ({ s with live := s.live.erase bh }, none)
      | some bData =>
          let s := { s with
            pages := bData :: s.pages
            data := Function.update s.data bData (List.replicate size.toNat 0) }
          ({ s with
              heads := Function.update s.heads bh ⟨block, size, 1, false, bData, bdev⟩
              gBcacheTree := s.gBcacheTree.set bh fun _ => zeroNode
              gBcacheLru := dlistInit s.gBcacheLru (some bh) }, some bh)

def freeBuffer (s : State) (bh : Bh) : State :=
  { s with
    pages := s.pages.erase (s.heads bh).bData
    live := s.live.erase bh }

/-- `bdev_read_blocks` of one block into the buffer `buf`. -/
def bdevReadBlocks (s : State) (answer : Transfer) (lba : Place) (buf : Pages) : State × Int :=
  ({ s with data := Function.update s.data buf (if answer.ret < 0 then answer.torn else s.disk lba) }, answer.ret)

/-- `bdev_write_blocks` of one block from the buffer `buf`. -/
def bdevWriteBlocks (s : State) (answer : Transfer) (lba : Place) (buf : Pages) : State × Int :=
  ({ s with disk := Function.update s.disk lba (if answer.ret < 0 then answer.torn else s.data buf) }, answer.ret)

def State.setHead (s : State) (bh : Bh) (f : BufferHead → BufferHead) : State :=
  { s with heads := Function.update s.heads bh (f (s.heads bh)) }

section Code

variable (bdBlockSize : Bdev → UInt32)

def bread (s : State) (answers : Loading) (bdev : Bdev) (block : UInt64) :
    Except Stop (State × Option Bh) := do
  match ← bcacheFind s bdev block with
  | some bh => .ok (s.setHead bh fun h => { h with bRefCount := h.bRefCount + 1 }, some bh)
  | none =>
      let (s, bh) := allocBuffer s answers bdev block (bdBlockSize bdev)
      match bh with
      | none => .ok (s, none)
      | some bh =>
          let (s, ret) := bdevReadBlocks s answers.read (bdev, block) (s.heads bh).bData
          if ret < 0 then .ok (freeBuffer s bh, none)
          else
            let tree ← rbInsert s.comp s.fuel s.gBcacheTree bh
            .ok ({ s with
              gBcacheTree := tree
              gBcacheLru := dlistAddTail s.gBcacheLru none (some bh) }, some bh)

def brelse (s : State) (bh : Bh) : State :=
  s.setHead bh fun h =>
    let count := h.bRefCount - 1
    { h with bRefCount := if count < 0 then 0 else count }

def markBufferDirty (s : State) (bh : Bh) : State := s.setHead bh fun h => { h with bDirty := true }

/-- The caller writes to the buffer. -/
def modify (s : State) (bh : Bh) (bytes : List UInt8) : State :=
  markBufferDirty { s with data := Function.update s.data (s.heads bh).bData bytes } bh

/-- The loop of `sync_dirty_buffers`, from `node` on; `bdev` is `none` for NULL. -/
def syncLoop (bdev : Option Bdev) (answers : Place → Transfer) :
    Nat → State → Option Bh → Int → Except Stop (State × Int)
  | 0, _, _, _ => .error .fuel
  | fuel + 1, s, node, err =>
      match node with
      | none => .ok (s, err)
      | some bh =>
          let next := s.gBcacheLru.next (some bh)
          if bdev ≠ none ∧ some (s.heads bh).bBdev ≠ bdev then syncLoop bdev answers fuel s next err
          else if (s.heads bh).bDirty then
            let (s, ret) :=
              bdevWriteBlocks s (answers (s.heads bh).place) (s.heads bh).place (s.heads bh).bData
            if ret < 0 then syncLoop bdev answers fuel s next ret
            else syncLoop bdev answers fuel (s.setHead bh fun h => { h with bDirty := false }) next err
          else syncLoop bdev answers fuel s next err

def syncDirtyBuffers (s : State) (bdev : Option Bdev) (answers : Place → Transfer) :
    Except Stop (State × Int) :=
  syncLoop bdev answers s.fuel s (s.gBcacheLru.next none) 0

/-! ## Runs -/

inductive Op where
  | bread (bdev : Bdev) (block : UInt64) (answers : Loading)
  | modify (bh : Bh) (bytes : List UInt8)
  | brelse (bh : Bh)
  | sync (bdev : Option Bdev) (answers : Place → Transfer)

/-- What an operation returns. -/
inductive Ret where
  | buffer (bh : Option Bh)
  | int (ret : Int)
  | void

def exec (s : State) : Op → Except Stop (State × Ret)
  | .bread bdev block answers => do
      let (s, bh) ← bread bdBlockSize s answers bdev block
      .ok (s, .buffer bh)
  | .modify bh bytes => .ok (modify s bh bytes, .void)
  | .brelse bh => .ok (brelse s bh, .void)
  | .sync bdev answers => do
      let (s, ret) ← syncDirtyBuffers s bdev answers
      .ok (s, .int ret)

/-- The allocators return memory that is not in use, and a caller changes and releases
buffers that `bread` returned. -/
def Op.Allowed (s : State) : Op → Prop
  | .bread _ _ answers =>
      (∀ bh ∈ answers.kmalloc, bh ∉ s.live) ∧ ∀ pages ∈ answers.kzallocPages, pages ∉ s.pages
  | .modify bh _ => bh ∈ s.live
  | .brelse bh => bh ∈ s.live
  | .sync _ _ => True

instance (s : State) : (op : Op) → Decidable (op.Allowed s)
  | .bread _ _ _ => inferInstanceAs (Decidable (_ ∧ _))
  | .modify _ _ => inferInstanceAs (Decidable (_ ∈ _))
  | .brelse _ => inferInstanceAs (Decidable (_ ∈ _))
  | .sync _ _ => inferInstanceAs (Decidable True)

def machine : Machine (Except Stop State) Op where
  enabled s op := ∀ st ∈ s.toOption, op.Allowed st
  step s op := s >>= fun st => exec bdBlockSize st op >>= fun r => .ok r.1

instance : (s : Except Stop State) → (op : Op) → Decidable ((machine bdBlockSize).enabled s op)
  | .ok st, op => decidable_of_iff (op.Allowed st) (by simp [machine, Except.toOption])
  | .error _, _ => isTrue (by simp [machine, Except.toOption])

/-- After `bcache_subsys_init`, in front of devices with some contents. -/
def booted (disk : Place → List UInt8) : Except Stop State :=
  .ok ⟨fun _ => ⟨0, 0, 0, false, 0, 0⟩, [], fun _ => [], [], ⟨none, fun _ => zeroNode⟩,
    dlistInit ⟨fun _ => none, fun _ => none⟩ none, disk⟩

end Code

end Minus.Fs.Bcache
