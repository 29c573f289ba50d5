/-
# Fs.Ext4DirBytes — the directory blocks of ext4, byte by byte

`kernel/fs/backend/ext4fs/dir.c` on the buffers of the directory's blocks.  The five
functions walk the records of one block after another: `Scan` is that walk, with what a
function does at a record as its parameter, and a step of it is a step of `Theory.Loop`.

A buffer has `s_blocksize` bytes.  Every access to it is checked, and one that leaves the
buffer is `Fault.wild`; a walk that does not end is one for which no fuel is enough.
-/
import Minus.Fs.Ext4Inode
import Minus.Fs.Getdents
import Minus.Theory.Loop

namespace Minus.Fs.Ext4Bytes

set_option autoImplicit false

open Minus.Theory
open Minus.Fs.Dcache (Errno)
open Minus.Fs.Ext4Dir (entrySize)
open Minus.Fs.Getdents (GetdentsCtx filldir ext4FileTypeToDt)

/-! ## Records -/

/-- An access to the `n` bytes from `p` on of a buffer of `size` bytes. -/
def access {α : Type} (size p n : Nat) (value : α) : Except Fault α :=
  if p + n ≤ size then .ok value else .error .wild

/-- `strncmp(name, de->name, len) == 0` with the name at `q`: it stops at a difference. -/
def strncmp (size : Nat) (bh : Bytes) : List UInt8 → Nat → Except Fault Bool
  | [], _ => .ok true
  | c :: rest, q => do
      let b ← access size q 1 (bh q)
      if b = c then strncmp size bh rest (q + 1) else .ok false

/-- `de->inode != 0`, and the name of the record is this one. -/
def named (size : Nat) (bh : Bytes) (p : Nat) (name : List UInt8) : Except Fault Bool := do
  let ino ← access size p 4 (load32 bh p)
  if ino = 0 then .ok false
  else do
    let nameLen ← access size (p + 6) 1 (bh (p + 6))
    if nameLen.toNat = name.length then strncmp size bh name (p + 8) else .ok false

/-- What `ext4_add_entry` does at its label `insert`. -/
def insertAt (size : Nat) (bh : Bytes) (p : Nat) (name : List UInt8) (ino : UInt32) (type : UInt8) :
    Except Fault Bytes :=
  let bh := store32 bh p ino
  let bh := Function.update bh (p + 6) (UInt8.ofNat name.length)
  let bh := Function.update bh (p + 7) type
  access size p (8 + name.length) (blit bh (p + 8) name)

/-! ## Walks -/

/-- A walk over the records: whether there is another block, what a new block does to the
variables, what is done at a record of a block, and the values returned at the end and
where a block cannot be found or read. -/
structure Scan (σ α : Type) where
  more : UInt32 → Bool
  enter : σ → σ
  record : UInt64 → Bytes → Nat → σ → Except Fault (σ ⊕ α)
  finish : UInt32 → σ → α
  eio : α

/-- Before a block, or at a record of a block. -/
inductive At (σ : Type) where
  | block (bidx : UInt32) (s : σ)
  | record (bidx : UInt32) (nr : UInt64) (bh : Bytes) (p : Nat) (s : σ)

section Walk

variable {σ α : Type} (sc : Scan σ α) (blockSize : UInt32) (dir : Inode) (bread : Buffers)

/-- One round of the loops. -/
def Scan.step : At σ → Except Fault (At σ ⊕ α)
  | .block bidx s =>
      if sc.more bidx then
        match ext4GetBlock dir bidx with
        | .error _ => .ok (.inr sc.eio)
        | .ok block =>
            match bread block with
            | none => .ok (.inr sc.eio)
            | some bh => .ok (.inl (.record bidx block bh 0 (sc.enter s)))
      else .ok (.inr (sc.finish bidx s))
  | .record bidx block bh p s =>
      if p < blockSize.toNat then do
        match ← sc.record block bh p s with
        | .inr a => .ok (.inr a)
        | .inl s => do
            -- `ext4_next_entry`
            let recLen ← access blockSize.toNat (p + 4) 2 (load16 bh (p + 4))
            .ok (.inl (.record bidx block bh (p + recLen.toNat) s))
      else .ok (.inl (.block (bidx + 1) s))

def Scan.run (fuel : Nat) (s : σ) : Option (Except Fault α) :=
  loop (sc.step blockSize dir bread) fuel (.block 0 s)

end Walk

/-- `(dir->i_size + block_size - 1) / block_size`. -/
def nrBlocks (blockSize : UInt32) (dir : Inode) : UInt32 :=
  ((dir.iSize + blockSize.toUInt64 - 1) / blockSize.toUInt64).toUInt32

/-- `bidx * block_size < dir->i_size`. -/
def beforeEnd (blockSize : UInt32) (dir : Inode) (bidx : UInt32) : Bool :=
  decide ((bidx * blockSize).toUInt64 < dir.iSize)

/-! ## dir.c -/

/-- What `iget` has for a number: no inode, one with a mode, or one without, and whether that
has its private part or there is memory for it. -/
inductive InCore where
  | none
  | filled
  | blank (info : Bool)

/-- `ext4_iget` as far as whether there is an inode, with its index into `s_group_desc`, its
division and its copy of `struct ext4_inode` checked. -/
def ext4IgetIn (sbi : SbInfo) (iget : UInt64 → InCore) (blockSize : UInt32) (bread : Buffers) (ino : UInt64) :
    Except Fault Bool :=
  match iget ino with
  | .none => .ok false
  | .filled => .ok true
  | .blank false => .ok false
  | .blank true =>
      if sbi.sInodesPerGroup = 0 ∨ 22 ≤ sbi.sLogBlockSize then .error .wild
      else do
        let (_, block, off) ← inodePlace sbi ino
        match bread block.toUInt64 with
        | none => .ok false
        | some _ => access blockSize.toNat off.toNat rawSize true

/-- `ext4_lookup`; `iget` is its `ext4_iget`, and the inode is given by its number. -/
def lookupScan (blockSize : UInt32) (iget : UInt64 → Except Fault Bool) (dir : Inode) (name : List UInt8) :
    Scan Unit (Except Errno (Option UInt32)) where
  more bidx := decide (bidx < nrBlocks blockSize dir)
  enter := id
  record _ bh p _ := do
    if ← named blockSize.toNat bh p name then
      if ← iget (load32 bh p).toUInt64 then .ok (.inr (.ok (some (load32 bh p)))) else .ok (.inr (.error .eio))
    else .ok (.inl ())
  finish _ _ := .ok none
  eio := .error .eio

def ext4Lookup (fuel : Nat) (blockSize : UInt32) (iget : UInt64 → Except Fault Bool) (dir : Inode) (bread : Buffers)
    (name : List UInt8) : Option (Except Fault (Except Errno (Option UInt32))) :=
  (lookupScan blockSize iget dir name).run blockSize dir bread fuel ()

/-- `ext4_dir_is_empty`: the variable is `count`, and only block 0 is read. -/
def isEmptyScan (blockSize : UInt32) : Scan Nat (Except Errno Bool) where
  more bidx := decide (bidx = 0)
  enter := id
  record _ bh p count := do
    let ino ← access blockSize.toNat p 4 (load32 bh p)
    .ok (.inl (if ino ≠ 0 then count + 1 else count))
  finish _ count := .ok (decide (count ≤ 2))
  eio := .error .eio

def ext4DirIsEmpty (fuel : Nat) (blockSize : UInt32) (inode : Inode) (bread : Buffers) :
    Option (Except Fault (Except Errno Bool)) :=
  (isEmptyScan blockSize).run blockSize inode bread fuel 0

/-- `ext4_iterate` with the actor `filldir`; the variables are `pos` and the context. -/
def iterateScan (blockSize : UInt32) (inode : Inode) : Scan (Int × GetdentsCtx) (Except Errno GetdentsCtx) where
  more bidx := decide (bidx < nrBlocks blockSize inode)
  enter := id
  record _ bh p := fun (pos, ctx) => do
    let recLen ← access blockSize.toNat (p + 4) 2 (load16 bh (p + 4))
    if recLen < 8 ∨ blockSize.toNat < p + recLen.toNat then .ok (.inr (.error .eio))
    else do
      let ino ← access blockSize.toNat p 4 (load32 bh p)
      if ino ≠ 0 ∧ ctx.ctxPos ≤ pos then do
        let type ← access blockSize.toNat (p + 7) 1 (bh (p + 7))
        let nameLen ← access blockSize.toNat (p + 6) 1 (bh (p + 6))
        -- the actor copies the name if there is room for the record
        match filldir ctx (upTo (fun i => bh (p + 8 + i)) nameLen.toNat) pos ino.toUInt64 (ext4FileTypeToDt type) with
        | none => .ok (.inr (.ok ctx))
        | some filled => do
            access blockSize.toNat (p + 8) nameLen.toNat ()
            .ok (.inl (pos + recLen.toNat, { filled with ctxPos := pos + recLen.toNat }))
      else .ok (.inl (pos + recLen.toNat, ctx))
  finish _ s := .ok s.2
  eio := .error .eio

def ext4Iterate (fuel : Nat) (blockSize : UInt32) (inode : Inode) (bread : Buffers) (ctx : GetdentsCtx) :
    Option (Except Fault (Except Errno GetdentsCtx)) :=
  (iterateScan blockSize inode).run blockSize inode bread fuel (0, ctx)

/-- How the search of `ext4_add_entry` ends. -/
inductive Added where
  | eio
  | into (block : UInt64) (bh : Bytes)
  | full (bidx : UInt32)

/-- The search with the insertion; the variable is `prev == NULL`. -/
def addScan (blockSize : UInt32) (dir : Inode) (name : List UInt8) (ino : UInt32) (type : UInt8) : Scan Bool Added where
  more := beforeEnd blockSize dir
  enter _ := true
  record block bh p first := do
    let needed := entrySize name.length
    let recLen ← access blockSize.toNat (p + 4) 2 (load16 bh (p + 4))
    let old ← access blockSize.toNat p 4 (load32 bh p)
    if old = 0 then
      if first ∧ needed ≤ recLen then do
        let bh ← insertAt blockSize.toNat bh p name ino type
        .ok (.inr (.into block bh))
      else .ok (.inl false)
    else do
      let nameLen ← access blockSize.toNat (p + 6) 1 (bh (p + 6))
      let actual := entrySize nameLen.toNat
      let freeSpace := recLen - actual
      if needed ≤ freeSpace then do
        let bh := store16 (store16 bh (p + actual.toNat + 4) freeSpace) (p + 4) actual
        let bh ← insertAt blockSize.toNat bh (p + actual.toNat) name ino type
        .ok (.inr (.into block bh))
      else .ok (.inl false)
  finish bidx _ := .full bidx
  eio := .eio

/-- A call that gives a block to an inode: `ext4_new_block`, on the buffers and what else it
works on. -/
abbrev NewBlock (σ : Type) := σ → Buffers → Except Fault ((σ × Buffers) × Except Errno UInt64)

section Add

variable {σ : Type}

/-- The part of `ext4_add_entry` for a new directory block. -/
def addBlock (blockSize : UInt32) (newBlock : NewBlock σ) (dir : Inode) (s : σ) (bread : Buffers) (name : List UInt8)
    (ino : UInt32) (type : UInt8) (bidx : UInt32) : Except Fault ((Inode × σ × Buffers) × Except Errno Unit) := do
  let ((s, bread), answer) ← newBlock s bread
  match answer with
  | .error _ => .ok ((dir, s, bread), .error (.other 28))
  | .ok pblock =>
      match ext4SetBlock blockSize dir bidx pblock with
      | (dir, .error _) => .ok ((dir, s, bread), .error (.other 28))
      | (dir, .ok _) =>
          match bread pblock with
          | none => .ok ((dir, s, bread), .error .eio)
          | some bh => do
              let bh := store16 (clear bh 0 blockSize.toNat) 4 blockSize.toUInt16
              let dir := { dir with
                iSize := if dir.iSize = 0 then blockSize.toUInt64 else dir.iSize + blockSize.toUInt64
                iDirty := true }
              let bh ← insertAt blockSize.toNat bh 0 name ino type
              .ok ((dir, s, Function.update bread pblock (some bh)), .ok ())

def ext4AddEntry (fuel : Nat) (blockSize : UInt32) (newBlock : NewBlock σ) (dir : Inode) (s : σ) (bread : Buffers)
    (name : List UInt8) (ino : UInt32) (type : UInt8) :
    Option (Except Fault ((Inode × σ × Buffers) × Except Errno Unit)) :=
  match (addScan blockSize dir name ino type).run blockSize dir bread fuel true with
  | none => none
  | some (.error f) => some (.error f)
  | some (.ok .eio) => some (.ok ((dir, s, bread), .error .eio))
  | some (.ok (.into block bh)) => some (.ok ((dir, s, Function.update bread block (some bh)), .ok ()))
  | some (.ok (.full bidx)) => some (addBlock blockSize newBlock dir s bread name ino type bidx)

end Add

/-- `ext4_delete_entry`; the variable is `prev`, a record whose header has been read. -/
def deleteScan (blockSize : UInt32) (dir : Inode) (name : List UInt8) :
    Scan (Option Nat) (Except Errno (UInt64 × Bytes)) where
  more := beforeEnd blockSize dir
  enter _ := none
  record block bh p prev := do
    if ← named blockSize.toNat bh p name then
      match prev with
      | some q => do
          let recLen ← access blockSize.toNat (p + 4) 2 (load16 bh (p + 4))
          .ok (.inr (.ok (block, store16 bh (q + 4) (load16 bh (q + 4) + recLen))))
      | none => .ok (.inr (.ok (block, store32 bh p 0)))
    else .ok (.inl (some p))
  finish _ _ := .error .enoent
  eio := .error .eio

def ext4DeleteEntry (fuel : Nat) (blockSize : UInt32) (dir : Inode) (bread : Buffers) (name : List UInt8) :
    Option (Except Fault (Buffers × Except Errno Unit)) :=
  match (deleteScan blockSize dir name).run blockSize dir bread fuel none with
  | none => none
  | some (.error f) => some (.error f)
  | some (.ok (.error e)) => some (.ok (bread, .error e))
  | some (.ok (.ok (block, bh))) => some (.ok (Function.update bread block (some bh), .ok ()))

end Minus.Fs.Ext4Bytes
