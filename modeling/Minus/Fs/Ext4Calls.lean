/-
# Fs.Ext4Calls — the calls of ext4 that allocate

`ext4_file_write` of `kernel/fs/backend/ext4fs/file.c`, `ext4_make_empty` of `dir.c`,
`ext4_alloc_inode` of `inode.c`, and `ext4_create` and `ext4_mkdir` of `namei.c`, on the
bitmaps, the buffers and the inodes of a volume.

`Answers` is what the calls outside ext4 do: an allocation of memory can fail, and so can
the write of the inode that `iput` gives up.
-/
import Minus.Fs.Ext4Alloc
import Minus.Fs.Ext4Rmdir
import Minus.Fs.Ext4File

namespace Minus.Fs.Ext4Bytes

set_option autoImplicit false

open Minus.Theory
open Minus.Fs.Dcache (Errno)
open Minus.Fs.Ext4 (Stop ssize)

/-! ## dir.c -/

/-- `ext4_make_empty`; `parent` is `parent->i_ino`. -/
def ext4MakeEmpty {σ : Type} (blockSize : UInt32) (newBlock : NewBlock σ) (inode : Inode) (parent : UInt64) (s : σ)
    (bread : Buffers) : Except Fault ((Inode × σ × Buffers) × Except Errno Unit) := do
  let ((s, bread), answer) ← newBlock s bread
  match answer with
  | .error _ => .ok ((inode, s, bread), .error (.other 28))
  | .ok block =>
      match ext4SetBlock blockSize inode 0 block with
      | (inode, .error _) => .ok ((inode, s, bread), .error (.other 28))
      | (inode, .ok _) =>
          match bread block with
          | none => .ok ((inode, s, bread), .error .eio)
          | some bh => do
              let bh := clear bh 0 blockSize.toNat
              let bh ← insertAt blockSize.toNat bh 0 [46] inode.iIno.toUInt32 2
              let bh := store16 bh 4 12
              let bh ← insertAt blockSize.toNat bh 12 [46, 46] parent.toUInt32 2
              let bh := store16 bh 16 (blockSize - 12).toUInt16
              .ok (({ inode with iSize := blockSize.toUInt64, iDirty := true }, s,
                Function.update bread block (some bh)), .ok ())

/-! ## file.c -/

/-- What `ext4_file_write` works on. -/
structure Writing where
  inode : Inode
  blocks : Bitmaps
  bread : Buffers

/-- The block of the file, or a new one. -/
def writeBlock (sbi : SbInfo) (s : Writing) (iblock : UInt32) : Except (Stop Writing) (Writing × UInt64) :=
  match ext4GetBlock s.inode iblock with
  | .ok pblock => .ok (s, pblock)
  | .error _ =>
      match ext4NewBlock sbi s.blocks s.bread with
      | .error .wild => .error .wild
      | .ok ((blocks, bread), .error _) => .error (.short .enospc { s with blocks, bread })
      | .ok ((blocks, bread), .ok pblock) =>
          match ext4SetBlock sbi.blockSize s.inode iblock pblock with
          | (inode, .error _) => .error (.short .enospc ⟨inode, blocks, bread⟩)
          | (inode, .ok _) => .ok (⟨inode, blocks, bread⟩, pblock)

/-- One round of the loop of `ext4_file_write`. -/
def writeChunk (sbi : SbInfo) (buf : List UInt8) (s : Writing) (offset toCopy source : Nat) :
    Except (Stop (Writing × Nat)) Writing :=
  match writeBlock sbi s (UInt32.ofNat (offset / sbi.blockSize.toNat)) with
  | .error .wild => .error .wild
  | .error (.short e s) => .error (.short e (s, offset))
  | .ok (s, pblock) =>
      match s.bread pblock with
      | none => .error (.short .eio (s, offset))
      | some bh =>
          let bytes := (buf.drop source).take toCopy
          .ok { s with bread := Function.update s.bread pblock (some (blit bh (offset % sbi.blockSize.toNat) bytes)) }

/-- What follows the loop: the size, the position and the value returned. -/
def writeEnd (s : Writing) (pos offset : Nat) (ret : Int) : Writing × Nat × Int :=
  let total := ssize (offset - pos)
  if 0 < total then
    (if s.inode.iSize.toNat < offset then
      { s with inode := { s.inode with iSize := UInt64.ofNat offset, iDirty := true } } else s, offset, total)
  else (s, pos, if total = 0 then ret else total)

/-- `none` is a wild read. -/
def ext4FileWrite (sbi : SbInfo) (s : Writing) (buf : List UInt8) (pos : Nat) : Option (Writing × Nat × Int) :=
  if positive : 0 < sbi.blockSize.toNat then
    match slotLoop sbi.blockSize.toNat positive (pos + buf.length) (writeChunk sbi buf) s pos 0 with
    | .ok s => some (writeEnd s pos (pos + buf.length) 0)
    | .error (.short e (s, offset)) => some (writeEnd s pos offset e.ret)
    | .error .wild => none
  else none

/-! ## namei.c -/

/-- A volume: the bitmaps of blocks and of inodes, the buffers, and the inodes in core or
else on the disk. -/
structure Files where
  blocks : Bitmaps
  inos : Bitmaps
  bread : Buffers
  inodes : UInt64 → Option Inode

/-- `new_inode` and `kmem_cache_alloc` succeed, and `ext4_write_inode` can read its block. -/
structure Answers where
  newInode : Bool
  kmemCacheAlloc : Bool
  writeInode : Bool

def Files.put (fs : Files) (ino : UInt64) (inode : Inode) : Files :=
  { fs with inodes := Function.update fs.inodes ino (some inode) }

/-- `iput` of the only reference. -/
def iput (answers : Answers) (fs : Files) (inode : Inode) : Files :=
  if inode.iDirty ∧ answers.writeInode then fs.put inode.iIno { inode with iDirty := false } else fs

def ext4AllocInode (sbi : SbInfo) (answers : Answers) (inos : Bitmaps) : Except Fault (Bitmaps × Except Errno UInt32) := do
  let (inos, answer) ← ext4FindFreeInode sbi inos
  match answer with
  | .error e => .ok (inos, .error e)
  | .ok ino => if answers.kmemCacheAlloc then .ok (inos, .ok ino) else .ok (inos, .error .enomem)

/-- A new inode with the header of an empty extent map; `type` is `S_IFREG` or `S_IFDIR`. -/
def emptyInode (ino : UInt32) (mode type : UInt16) (nlink : UInt32) : Inode :=
  { newInode ino.toUInt64 with
    iMode := (mode &&& ~~~0o170000) ||| type
    iNlink := nlink
    iData := headed fun _ => 0 }

section Namei

variable (sbi : SbInfo) (answers : Answers) (fuel : Nat) (fs : Files) (dno : UInt64) (name : List UInt8) (mode : UInt16)

/-- `ext4_create` in the directory with number `dno`. -/
def ext4Create : Option (Except Fault (Files × Except Errno Unit)) :=
  match fs.inodes dno with
  | none => none
  | some dir =>
      if answers.newInode = false then some (.ok (fs, .error .enomem))
      else
        match ext4AllocInode sbi answers fs.inos with
        | .error f => some (.error f)
        | .ok (inos, .error e) => some (.ok ({ fs with inos }, .error e))
        | .ok (inos, .ok ino) =>
            let inode := emptyInode ino mode 0o100000 1
            match ext4AddEntry fuel sbi.blockSize (ext4NewBlock sbi) dir fs.blocks fs.bread name ino 1 with
            | none => none
            | some (.error f) => some (.error f)
            | some (.ok ((dir, blocks, bread), .error e)) =>
                some (.ok (iput answers ({ fs with blocks, inos, bread }.put dno dir) inode, .error e))
            | some (.ok ((dir, blocks, bread), .ok _)) =>
                some (.ok (({ fs with blocks, inos, bread }.put dno dir).put ino.toUInt64 { inode with iDirty := true }, .ok ()))

/-- `ext4_mkdir` in the directory with number `dno`. -/
def ext4Mkdir : Option (Except Fault (Files × Except Errno Unit)) :=
  match fs.inodes dno with
  | none => none
  | some dir =>
      if answers.newInode = false then some (.ok (fs, .error .enomem))
      else
        match ext4AllocInode sbi answers fs.inos with
        | .error f => some (.error f)
        | .ok (inos, .error e) => some (.ok ({ fs with inos }, .error e))
        | .ok (inos, .ok ino) =>
            match ext4MakeEmpty sbi.blockSize (ext4NewBlock sbi) (emptyInode ino mode 0o040000 2) dir.iIno fs.blocks
                fs.bread with
            | .error f => some (.error f)
            | .ok ((inode, blocks, bread), .error e) =>
                some (.ok (iput answers { fs with blocks, inos, bread } inode, .error e))
            | .ok ((inode, blocks, bread), .ok _) =>
                match ext4AddEntry fuel sbi.blockSize (ext4NewBlock sbi) dir blocks bread name ino 2 with
                | none => none
                | some (.error f) => some (.error f)
                | some (.ok ((dir, blocks, bread), .error e)) =>
                    some (.ok (iput answers ({ fs with blocks, inos, bread }.put dno dir) inode, .error e))
                | some (.ok ((dir, blocks, bread), .ok _)) =>
                    let dir := { dir with iNlink := dir.iNlink + 1, iDirty := true }
                    some (.ok (({ fs with blocks, inos, bread }.put dno dir).put ino.toUInt64 { inode with iDirty := true },
                      .ok ()))

end Namei

/-! ## Calls -/

/-- A call that allocates, on the inodes with these numbers. -/
inductive Call where
  | write (file : UInt64) (buf : List UInt8) (pos : Nat)
  | addEntry (dir : UInt64) (name : List UInt8) (ino : UInt32) (type : UInt8)
  | makeEmpty (inode parent : UInt64)
  | create (answers : Answers) (dir : UInt64) (name : List UInt8) (mode : UInt16)
  | mkdir (answers : Answers) (dir : UInt64) (name : List UInt8) (mode : UInt16)

/-- The call ends with this volume, in failure or with a part of what it was to do. -/
def Call.Fails (sbi : SbInfo) (fs : Files) : Call → Files → Prop
  | .write file buf pos, fs' => ∃ inode s offset ret, fs.inodes file = some inode ∧
      ext4FileWrite sbi ⟨inode, fs.blocks, fs.bread⟩ buf pos = some (s, offset, ret) ∧ ret < buf.length ∧
      fs' = { fs with blocks := s.blocks, bread := s.bread }.put file s.inode
  | .addEntry dno name ino type, fs' => ∃ dir fuel dir' blocks bread e, fs.inodes dno = some dir ∧
      ext4AddEntry fuel sbi.blockSize (ext4NewBlock sbi) dir fs.blocks fs.bread name ino type =
        some (.ok ((dir', blocks, bread), .error e)) ∧
      fs' = { fs with blocks, bread }.put dno dir'
  | .makeEmpty ino parent, fs' => ∃ inode inode' blocks bread e, fs.inodes ino = some inode ∧
      ext4MakeEmpty sbi.blockSize (ext4NewBlock sbi) inode parent fs.blocks fs.bread =
        .ok ((inode', blocks, bread), .error e) ∧
      fs' = { fs with blocks, bread }.put ino inode'
  | .create answers dno name mode, fs' => ∃ fuel e,
      ext4Create sbi answers fuel fs dno name mode = some (.ok (fs', .error e))
  | .mkdir answers dno name mode, fs' => ∃ fuel e,
      ext4Mkdir sbi answers fuel fs dno name mode = some (.ok (fs', .error e))

end Minus.Fs.Ext4Bytes
