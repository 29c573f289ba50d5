/-
# Fs.Getdents — listing a directory through a descriptor

`filldir` and `fd_getdents64` (`kernel/fs/service/fdtable.c`), `vfs_readdir` (`vfs.c`),
and the two `iterate` of the kernel, of ext4 (`backend/ext4fs/dir.c`) and of the root of
devfs (`backend/devfs/devfs.c`).

A directory of ext4 is what `ext4_iterate` reads: the bytes of its blocks up to `i_size`.
Whether a block can be found and read is the answer `io` of a call.  `size_t` is 32 bits
wide; a position in a directory is a `loff_t`.  The only actor of a `struct dir_context`
is `filldir`, which is called directly.
-/
import Mathlib.Algebra.Ring.Int.Defs
import Minus.Fs.Ext4Dir
import Minus.Fs.Fdtable
import Minus.Theory.Bytes

namespace Minus.Fs.Getdents

set_option autoImplicit false

open Minus.Theory
open Minus.Fs.Dcache (Errno)
open Minus.Fs.Fdtable (FilesStruct fget)

/-! ## Records -/

/-- `struct dirent64_s`; it is packed. -/
structure Dirent where
  dIno : UInt64
  dOff : UInt64
  dReclen : UInt16
  dType : UInt8
  dName : List UInt8
  deriving DecidableEq

/-- `sizeof(struct dirent64_s)`, without the name. -/
def sizeofDirent : Nat := 19

/-- The fields before the name. -/
def Dirent.header (de : Dirent) : List UInt8 :=
  leBytes 8 de.dIno.toNat ++ leBytes 8 de.dOff.toNat ++ leBytes 2 de.dReclen.toNat ++ [de.dType]

/-- A `char` of a name. -/
def charByte (c : Char) : UInt8 := UInt8.ofNat c.toNat

/-! ## fdtable.c -/

/-- `struct getdents_ctx` with the memory from `buf` on; `ctxPos` is `ctx.pos`. -/
structure GetdentsCtx where
  ctxPos : Int
  buf : Bytes
  count : UInt32
  pos : UInt32

/-- `filldir`; `none` for the return value 1, which leaves everything as it was. -/
def filldir (g : GetdentsCtx) (name : List UInt8) (off : Int) (ino : UInt64) (dType : UInt8) : Option GetdentsCtx :=
  let reclen : UInt32 := UInt32.ofNat sizeofDirent + UInt32.ofNat name.length + 1
  let reclen := (reclen + 7) &&& ~~~7
  if g.pos + reclen > g.count then none
  else
    let de : Dirent := ⟨ino, UInt64.ofInt off, reclen.toUInt16, dType, name⟩
    let pos := g.pos.toNat
    let buf := blit g.buf pos de.header
    let buf := blit buf (pos + sizeofDirent) name
    let buf := clear buf (pos + sizeofDirent + name.length) (reclen.toNat - sizeofDirent - name.length)
    some { g with buf, pos := g.pos + reclen }

/-! ## ext4fs/dir.c -/

/-- What `ext4_iterate` reads of the directory. -/
structure DirFile where
  iSize : UInt64
  blockSize : UInt32
  block : Nat → Bytes

/-- `ext4_file_type_to_dt`. -/
def ext4FileTypeToDt (type : UInt8) : UInt8 :=
  match type.toNat with
  | 1 => 8
  | 2 => 4
  | 3 => 2
  | 4 => 6
  | 5 => 1
  | 6 => 12
  | 7 => 10
  | _ => 0

/-- `sizeof(struct ext4_dir_entry_2)`, without the name. -/
def sizeofEntry : Nat := 8

/-- The inner loop of `ext4_iterate` from the record at `off` on: `none` where the actor
refused, else the position behind the block. -/
def blockLoop (b : Bytes) (blockSize off : Nat) (pos : Int) (g : GetdentsCtx) :
    Except Errno (GetdentsCtx × Option Int) :=
  if off < blockSize then
    let recLen := (load16 b (off + 4)).toNat
    if bad : recLen < sizeofEntry ∨ blockSize < off + recLen then .error .eio
    else if load32 b off ≠ 0 ∧ g.ctxPos ≤ pos then
      let name := upTo (fun i => b (off + sizeofEntry + i)) (b (off + 6)).toNat
      match filldir g name pos (load32 b off).toUInt64 (ext4FileTypeToDt (b (off + 7))) with
      | none => .ok (g, none)
      | some g => blockLoop b blockSize (off + recLen) (pos + recLen) { g with ctxPos := pos + recLen }
    else blockLoop b blockSize (off + recLen) (pos + recLen) g
  else .ok (g, some pos)
termination_by blockSize - off
decreasing_by all_goals unfold sizeofEntry at bad; omega

/-- `nr_blocks`. -/
def DirFile.nrBlocks (dir : DirFile) : UInt32 :=
  ((dir.iSize + dir.blockSize.toUInt64 - 1) / dir.blockSize.toUInt64).toUInt32

/-- The outer loop of `ext4_iterate`, with so many blocks left. -/
def iterateFrom (io : Nat → Bool) (dir : DirFile) : Nat → Nat → Int → GetdentsCtx → Except Errno GetdentsCtx
  | 0, _, _, g => .ok g
  | left + 1, bidx, pos, g =>
      if !io bidx then .error .eio
      else match blockLoop (dir.block bidx) dir.blockSize.toNat 0 pos g with
        | .error e => .error e
        | .ok (g, none) => .ok g
        | .ok (g, some pos) => iterateFrom io dir left (bidx + 1) pos g

def ext4Iterate (io : Nat → Bool) (dir : DirFile) (g : GetdentsCtx) : Except Errno GetdentsCtx :=
  iterateFrom io dir dir.nrBlocks.toNat 0 0 g

/-! ## devfs.c -/

/-- The table `entries` of `devfs_iterate`: name, inode number and type. -/
def devfsEntries : List (List UInt8 × UInt64 × UInt8) :=
  [(['.'].map charByte, 1, 4),
   (['.', '.'].map charByte, 1, 4),
   (['c', 'o', 'n', 's', 'o', 'l', 'e'].map charByte, 2, 2),
   (['f', 'b', '0'].map charByte, 3, 2)]

def devfsLoop : List (List UInt8 × UInt64 × UInt8) → Nat → GetdentsCtx → GetdentsCtx
  | [], _, g => g
  | (name, ino, dType) :: rest, i, g =>
      match filldir g name (i + 1) ino dType with
      | none => g
      | some g => devfsLoop rest (i + 1) { g with ctxPos := i + 1 }

/-- `devfs_iterate`; the position becomes a `size_t`. -/
def devfsIterate (g : GetdentsCtx) : Except Errno GetdentsCtx :=
  if g.ctxPos < 0 then .error .einval
  else
    let i := g.ctxPos.toNat % 2 ^ 32
    .ok (devfsLoop (devfsEntries.drop i) i g)

/-! ## vfs.c -/

/-- The `iterate` of `f_op`, with what it reads. -/
inductive FileOperations where
  | ext4 (dir : DirFile)
  | devfs
  | none

/-- `struct file`. -/
structure File where
  fOp : FileOperations
  fPos : Int

def iterate (io : Nat → Bool) : FileOperations → Option (GetdentsCtx → Except Errno GetdentsCtx)
  | .ext4 dir => some (ext4Iterate io dir)
  | .devfs => some devfsIterate
  | .none => Option.none

def vfsReaddir (io : Nat → Bool) (file : File) (g : GetdentsCtx) : File × Except Errno GetdentsCtx :=
  match iterate io file.fOp with
  | Option.none => (file, .error .einval)
  | some iterate =>
      match iterate { g with ctxPos := file.fPos } with
      | .error e => (file, .error e)
      | .ok g => ({ file with fPos := g.ctxPos }, .ok g)

/-! ## The call -/

/-- The mirror `cur_files` and the files. -/
structure State where
  curFiles : Option FilesStruct
  file : Nat → File

/-- A call: the answers of the device, and the buffer. -/
structure Call where
  io : Nat → Bool
  buf : Bytes
  count : UInt32

/-- `fd_getdents64`; the result is what is in the buffer up to the return value. -/
def fdGetdents64 (s : State) (fd : UInt32) (c : Call) : State × Except Errno (List UInt8) :=
  match s.curFiles with
  | none => (s, .error .ebadf)
  | some files =>
      match fget files fd.toInt32.toInt with
      | none => (s, .error .ebadf)
      | some p =>
          let (file, ret) := vfsReaddir c.io (s.file p) ⟨0, c.buf, c.count, 0⟩
          ({ s with file := Function.update s.file p file }, ret.map fun g => upTo g.buf g.pos.toNat)

/-- A sequence of calls on one descriptor, and what they return. -/
def getdentsCalls (s : State) (fd : UInt32) : List Call → List (Except Errno (List UInt8))
  | [] => []
  | c :: rest =>
      let (s, ret) := fdGetdents64 s fd c
      ret :: getdentsCalls s fd rest

/-! ## What a directory lists -/

/-- What a listing says of an entry. -/
structure Item where
  name : List UInt8
  ino : UInt64
  dType : UInt8
  deriving DecidableEq

def Dirent.item (de : Dirent) : Item := ⟨de.dName, de.dIno, de.dType⟩

/-- The record that starts at the first of these bytes; the name ends at the first NUL. -/
def Dirent.read (l : List UInt8) : Dirent :=
  let reclen := ofLe ((l.drop 16).take 2)
  { dIno := UInt64.ofNat (ofLe (l.take 8))
    dOff := UInt64.ofNat (ofLe ((l.drop 8).take 8))
    dReclen := UInt16.ofNat reclen
    dType := l.getD 18 0
    dName := ((l.take reclen).drop sizeofDirent).takeWhile (· ≠ 0) }

/-- The records of a buffer, each as long as its `d_reclen` says: a multiple of 8, within
the buffer, and with a NUL behind the header. -/
def splitDirents (l : List UInt8) : Option (List Dirent) :=
  if l = [] then some []
  else
    let reclen := ofLe ((l.drop 16).take 2)
    if whole : sizeofDirent < reclen ∧ reclen ≤ l.length ∧ reclen % 8 = 0 ∧ 0 ∈ (l.take reclen).drop sizeofDirent then
      (splitDirents (l.drop reclen)).map (Dirent.read l :: ·)
    else none
termination_by l.length
decreasing_by
  rw [List.length_drop]
  omega

/-- The length of the record for a name. -/
def recordLen (name : List UInt8) : Nat := (sizeofDirent + name.length + 1 + 7) / 8 * 8

open Minus.Fs.Ext4Dir (DirEntry)

/-- The bytes of an on-disk record. -/
structure Encodes (b : Bytes) (off : Nat) (de : DirEntry) : Prop where
  inode : (load32 b off).toNat = de.inode
  recLen : load16 b (off + 4) = de.recLen
  nameLen : (b (off + 6)).toNat = de.name.length
  fileType : b (off + 7) = de.fileType
  name : upTo (fun i => b (off + sizeofEntry + i)) de.name.length = de.name.map charByte

/-- The records tile the block from `off` on; each has room for its name. -/
def HoldsFrom (b : Bytes) (blockSize : Nat) : Nat → List DirEntry → Prop
  | off, [] => off = blockSize
  | off, de :: rest =>
      Encodes b off de ∧ sizeofEntry + de.name.length ≤ de.recLen.toNat ∧
        HoldsFrom b blockSize (off + de.recLen.toNat) rest

/-- A well-formed directory of ext4 with these blocks: whole blocks up to `i_size`, and
names without a NUL. -/
structure DirFile.Holds (dir : DirFile) (blocks : Ext4Dir.Directory) : Prop where
  positive : 0 < dir.blockSize.toNat
  size : dir.iSize.toNat = blocks.length * dir.blockSize.toNat
  count : blocks.length < 2 ^ 32
  block : ∀ i (inside : i < blocks.length), HoldsFrom (dir.block i) dir.blockSize.toNat 0 blocks[i]
  names : ∀ b ∈ blocks, ∀ de ∈ b, de.inode ≠ 0 → 0 ∉ de.name.map charByte

/-- A live record is one item. -/
def entryItem (de : DirEntry) : Item :=
  ⟨de.name.map charByte, UInt64.ofNat de.inode, ext4FileTypeToDt de.fileType⟩

/-- The live entries in directory order. -/
def items (blocks : Ext4Dir.Directory) : List Item :=
  (blocks.flatten.filter (·.inode ≠ 0)).map entryItem

/-- The entries that a well-formed directory has. -/
inductive Lists : FileOperations → List Item → Prop where
  | ext4 {dir : DirFile} {blocks : Ext4Dir.Directory} (holds : dir.Holds blocks) : Lists (.ext4 dir) (items blocks)
  | devfs : Lists .devfs (devfsEntries.map fun e => ⟨e.1, e.2.1, e.2.2⟩)

end Minus.Fs.Getdents
