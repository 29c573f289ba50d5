/-
# Fs.Icache — the inodes in core

`kernel/fs/service/inode.c`: inodes in a red-black tree ordered by super block and number,
and the dirty ones on the list `g_dirty_inodes`.  Above it are the calls that make inodes
and drop them: `ext4_iget`, `ext4_alloc_inode` and the hooks of `ext4_sops`
(`backend/ext4fs/inode.c` and `super.c`), `ext4_create` and `ext4_mkdir` (`namei.c`), and
`devfs_mount` (`backend/devfs/devfs.c`).

What a call asks of the allocators, of the device and of the directory below is the
environment: a call carries the answers (`Answers`).  An inode is its address, and so is an
`ext4_inode_info`.  A super block is its address; `sOp` says which ones have `ext4_sops`.
-/
import Minus.Lib.RbtreeFind
import Minus.Lib.Dlist
import Minus.Fs.Dcache

namespace Minus.Fs.Icache

set_option autoImplicit false

open Minus.Theory Minus.Lib.Rbtree Minus.Lib.Dlist
open Minus.Fs.Dcache (Errno)

abbrev Id := Nat

/-- The address of a `struct ext4_inode_info`. -/
abbrev Info := Nat

/-- What `inode_cmp` reads. -/
@[ext]
structure InodeKey where
  iSb : UInt64
  iIno : UInt64
  deriving DecidableEq

/-- `struct inode` without its links. -/
structure Inode extends InodeKey where
  iMode : UInt16
  iCount : Int
  iDirty : Bool
  iPrivate : Option Info

/-- After `memset`. -/
def zeroInode : Inode := ⟨⟨0, 0⟩, 0, 0, false, none⟩

structure State where
  inodes : Id → Inode
  /-- The inodes that are allocated. -/
  live : List Id
  /-- What is allocated from `g_ext4_inode_cache`. -/
  infos : List Info
  gInodeTree : RbTree Id
  /-- `none` is `g_dirty_inodes`. -/
  gDirtyInodes : Links (Option Id)

/-- What a call may ask: memory for an inode and for its private part, twice; a free
number; the inode on the disk, as its mode; the rest of the directory operations, with
whether they mark their inode dirty; the write of an inode; a dentry. -/
structure Answers where
  inode : Option Id
  stubInfo : Option Info
  info : Option Info
  freeInode : Except Errno UInt32
  readInode : Option UInt16
  makeEmpty : Bool × Except Errno Unit
  addEntry : Bool × Except Errno Unit
  writeInode : Bool
  sbAlloc : Option UInt64
  dAlloc : Bool

inductive Fault where
  | tree (stop : Stop)
  | freed
  deriving DecidableEq

/-- An access to an inode that is freed is a fault. -/
def touch (s : State) (p : Id) : Except Fault Unit := if p ∈ s.live then .ok () else .error .freed

def State.setInode (s : State) (p : Id) (f : Inode → Inode) : State :=
  { s with inodes := Function.update s.inodes p (f (s.inodes p)) }

/-- Enough for a tree of inodes that are allocated. -/
def State.fuel (s : State) : Nat := s.live.length + 3

/-! ## inode.c -/

def inodeCmp (i1 i2 : InodeKey) : Int :=
  if i1.iSb ≠ i2.iSb then (if i1.iSb > i2.iSb then 1 else -1)
  else if i1.iIno = i2.iIno then 0
  else if i1.iIno > i2.iIno then 1 else -1

/-- `g_inode_tree.comp`. -/
def State.comp (s : State) (n1 n2 : Id) : Int := inodeCmp (s.inodes n1).toInodeKey (s.inodes n2).toInodeKey

/-- A computation on the tree. -/
def onTree {α : Type} : Except Stop α → Except Fault α
  | .ok a => .ok a
  | .error stop => .error (.tree stop)

def inodeFind (s : State) (sb ino : UInt64) : Except Fault (Option Id) :=
  onTree (rbFind (fun node => inodeCmp ⟨sb, ino⟩ (s.inodes node).toInodeKey) s.gInodeTree s.fuel s.gInodeTree.root)

def insertInodeHash (s : State) (p : Id) : Except Fault State := do
  touch s p
  let tree ← onTree (rbInsert s.comp s.fuel s.gInodeTree p)
  .ok { s with gInodeTree := tree }

def markInodeDirty (s : State) (p : Id) : Except Fault State := do
  touch s p
  if (s.inodes p).iDirty then .ok s
  else
    let s := s.setInode p fun i => { i with iDirty := true }
    .ok { s with gDirtyInodes := dlistAdd s.gDirtyInodes none (some p) }

section Ops

variable (sOp : UInt64 → Bool)

/-- The memory of a new inode, from `alloc_inode` (`ext4_alloc_inode_stub`) or else from
`g_inode_cache`. -/
def allocInode (answers : Answers) (s : State) (sb : UInt64) : State × Option Id :=
  match answers.inode with
  | none => (s, none)
  | some p =>
      if sOp sb then
        match answers.stubInfo with
        | none => (s, none)
        | some ei =>
            ({ s with
                live := p :: s.live
                infos := ei :: s.infos
                inodes := Function.update s.inodes p { zeroInode with iPrivate := some ei } }, some p)
      else ({ s with live := p :: s.live }, some p)

def newInode (answers : Answers) (s : State) (sb : UInt64) : State × Option Id :=
  match allocInode sOp answers s sb with
  | (s, none) => (s, none)
  | (s, some p) =>
      ({ s with
          inodes := Function.update s.inodes p { zeroInode with iSb := sb, iCount := 1 }
          gInodeTree := s.gInodeTree.set p fun _ => zeroNode
          gDirtyInodes := dlistInit s.gDirtyInodes (some p) }, some p)

def iget (answers : Answers) (s : State) (sb ino : UInt64) : Except Fault (State × Option Id) := do
  match ← inodeFind s sb ino with
  | some p => do
      touch s p
      .ok (s.setInode p fun i => { i with iCount := i.iCount + 1 }, some p)
  | none =>
      match newInode sOp answers s sb with
      | (s, none) => .ok (s, none)
      | (s, some p) => do
          let s ← insertInodeHash (s.setInode p fun i => { i with iIno := ino }) p
          .ok (s, some p)

/-- `write_inode` answers true for 0; there is none without `s_op`. -/
def writeInodeNow (writeInode : Bool) (s : State) (p : Id) : Except Fault State := do
  touch s p
  if sOp (s.inodes p).iSb && !writeInode then .ok s
  else
    let s := s.setInode p fun i => { i with iDirty := false }
    .ok { s with gDirtyInodes := dlistDel s.gDirtyInodes (some p) }

/-- `destroy_inode` (`ext4_destroy_inode`), or else `kmem_cache_free`. -/
def destroyInode (s : State) (p : Id) : State :=
  let infos := if sOp (s.inodes p).iSb then (s.inodes p).iPrivate.elim s.infos s.infos.erase else s.infos
  { s with live := s.live.erase p, infos }

def iput (writeInode : Bool) (s : State) (p : Id) : Except Fault State := do
  touch s p
  let s := s.setInode p fun i => { i with iCount := i.iCount - 1 }
  if (s.inodes p).iCount ≤ 0 then do
    let s ← if (s.inodes p).iDirty then writeInodeNow sOp writeInode s p else .ok s
    let tree ← onTree (rbDelete s.fuel s.gInodeTree p)
    .ok (destroyInode sOp { s with gInodeTree := tree } p)
  else .ok s

/-- The loop of `sync_inodes` from a node on, with the inodes it has visited; `writeInode`
answers for each of them. -/
def syncLoop (writeInode : Id → Bool) : Nat → State → Option Id → List Id → Except Fault (State × List Id)
  | _, s, none, visited => .ok (s, visited)
  | 0, _, some _, _ => .error (.tree .fuel)
  | fuel + 1, s, some p, visited => do
      touch s p
      let next := s.gDirtyInodes.next (some p)
      let s ← writeInodeNow sOp (writeInode p) s p
      syncLoop writeInode fuel s next (visited ++ [p])

def syncInodes (writeInode : Id → Bool) (s : State) : Except Fault (State × List Id) :=
  syncLoop sOp writeInode s.fuel s (s.gDirtyInodes.next none) []

/-! ## ext4 -/

/-- `ext4_iget`; `readInode` is what `i_mode` is in the block of the inode. -/
def ext4Iget (answers : Answers) (s : State) (sb ino : UInt64) : Except Fault (State × Option Id) := do
  match ← iget sOp answers s sb ino with
  | (s, none) => .ok (s, none)
  | (s, some p) =>
      if (s.inodes p).iMode ≠ 0 then .ok (s, some p)
      else
        match (s.inodes p).iPrivate, answers.info with
        | none, none => do
            let s ← iput sOp answers.writeInode s p
            .ok (s, none)
        | ei, info => do
            let s :=
              match ei, info with
              | none, some ei =>
                  { s.setInode p fun i => { i with iPrivate := some ei } with infos := ei :: s.infos }
              | _, _ => s
            match answers.readInode with
            | none => do
                let s ← iput sOp answers.writeInode s p
                .ok (s, none)
            | some mode => .ok (s.setInode p fun i => { i with iMode := mode }, some p)

/-- `ext4_alloc_inode`. -/
def ext4AllocInode (answers : Answers) (s : State) (p : Id) : State × Except Errno Unit :=
  match answers.freeInode with
  | .error e => (s, .error e)
  | .ok ino =>
      let s := s.setInode p fun i => { i with iIno := ino.toUInt64 }
      match answers.info with
      | none => (s, .error .enomem)
      | some ei => ({ s.setInode p fun i => { i with iPrivate := some ei } with infos := ei :: s.infos }, .ok ())

/-- `mark_inode_dirty` if the operation does it. -/
def markIf (marks : Bool) (s : State) (p : Id) : Except Fault State := if marks then markInodeDirty s p else .ok s

/-- `iput`, then return an error. -/
def dropInode (answers : Answers) (s : State) (p : Id) (e : Errno) : Except Fault (State × Except Errno Unit) := do
  let s ← iput sOp answers.writeInode s p
  .ok (s, .error e)

/-- `d_instantiate` of the new dentry, as far as the inode is concerned. -/
def dInstantiate (s : State) (p : Id) : Except Fault State := do
  touch s p
  .ok (s.setInode p fun i => { i with iCount := i.iCount + 1 })

section Namei

variable (answers : Answers) (s : State) (dir : Id) (mode : UInt16)

/-- The common start of `ext4_create` and `ext4_mkdir`: a new inode in the tree, with
`S_IFREG` or `S_IFDIR` in its mode. -/
def ext4NewInode (type : UInt16) : Except Fault (State × Except Errno Id) := do
  touch s dir
  match newInode sOp answers s (s.inodes dir).iSb with
  | (s, none) => .ok (s, .error .enomem)
  | (s, some p) =>
      match ext4AllocInode answers s p with
      | (s, .error e) => do
          let s ← iput sOp answers.writeInode s p
          .ok (s, .error e)
      | (s, .ok ()) => do
          let s ← insertInodeHash (s.setInode p fun i => { i with iMode := (mode &&& ~~~0o170000) ||| type }) p
          .ok (s, .ok p)

def ext4Create : Except Fault (State × Except Errno Unit) := do
  match ← ext4NewInode sOp answers s dir mode 0o100000 with
  | (s, .error e) => .ok (s, .error e)
  | (s, .ok p) => do
      let s ← markIf answers.addEntry.1 s dir
      match answers.addEntry.2 with
      | .error e => dropInode sOp answers s p e
      | .ok () => do
          let s ← markInodeDirty s p
          let s ← dInstantiate s p
          .ok (s, .ok ())

def ext4Mkdir : Except Fault (State × Except Errno Unit) := do
  match ← ext4NewInode sOp answers s dir mode 0o040000 with
  | (s, .error e) => .ok (s, .error e)
  | (s, .ok p) => do
      let s ← markIf answers.makeEmpty.1 s p
      match answers.makeEmpty.2 with
      | .error e => dropInode sOp answers s p e
      | .ok () => do
          let s ← markIf answers.addEntry.1 s dir
          match answers.addEntry.2 with
          | .error e => dropInode sOp answers s p e
          | .ok () => do
              let s ← markInodeDirty s dir
              let s ← markInodeDirty s p
              let s ← dInstantiate s p
              .ok (s, .ok ())

end Namei

/-! ## devfs.c -/

/-- `devfs_mount`: the root inode, or NULL; `sb_alloc` gives a super block without `s_op`. -/
def devfsMount (answers : Answers) (s : State) : Except Fault (State × Option Id) :=
  match answers.sbAlloc with
  | none => .ok (s, none)
  | some sb =>
      match newInode sOp answers s sb with
      | (s, none) => .ok (s, none)
      | (s, some p) => do
          let s := s.setInode p fun i => { i with iIno := 1, iMode := 0o040755 }
          if answers.dAlloc then do
            let s ← dInstantiate s p
            .ok (s, some p)
          else do
            let s ← iput sOp answers.writeInode s p
            .ok (s, none)

end Ops

end Minus.Fs.Icache
