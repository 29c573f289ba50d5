/-
# Fs.Ext4Mount — what a mount computes from the superblock

`ext4_mount` and `ext4_fill_super` of `kernel/fs/backend/ext4fs/super.c` once more, up to the
read of the root inode, with the arithmetic that C leaves undefined checked where it is done
(`Hazard`) and with the block device, whose block size is switched on the way.  The fields
are those of `Fs.Ext4Super`.

The superblock is checked for its magic number and two features only; every other field goes
into shifts, divisions and the table of descriptors as it is (`mount_safe_iff`).
-/
import Minus.Fs.Ext4Super
import Minus.Fs.Dcache

namespace Minus.Fs.Ext4Mount

set_option autoImplicit false

open Minus.Theory
open Minus.Fs.Dcache (Errno)
open Minus.Fs.Ext4Bytes (SbInfo superMagic featureExtents feature64bit)

inductive Hazard where
  | divideByZero
  | shift
  /-- A read outside the buffer that `es` points into. -/
  | superblock
  /-- An index outside `s_group_desc`. -/
  | groupDesc
  deriving DecidableEq

def shl (x n : UInt32) : Except Hazard UInt32 := if n < 32 then .ok (x <<< n) else .error .shift

def div (x y : UInt32) : Except Hazard UInt32 := if y = 0 then .error .divideByZero else .ok (x / y)

def mod (x y : UInt32) : Except Hazard UInt32 := if y = 0 then .error .divideByZero else .ok (x % y)

/-- The superblock where `es` points, with how many bytes of the buffer are left there. -/
structure Es where
  bytes : Bytes
  size : Nat

def Es.le32 (es : Es) (field : Nat) : Except Hazard UInt32 :=
  if field + 4 ≤ es.size then .ok (load32 es.bytes field) else .error .superblock

def Es.le16 (es : Es) (field : Nat) : Except Hazard UInt16 :=
  if field + 2 ≤ es.size then .ok (load16 es.bytes field) else .error .superblock

/-- `struct buffer_head`, of the device of the mount. -/
structure Buffer where
  bBlocknr : UInt64
  bSize : UInt32
  bData : Bytes

/-- The block device, and its buffers in the cache. -/
structure State where
  bdBlockSize : UInt32
  bdBlockSizeBits : UInt8
  buffers : List Buffer

/-- What `iget` gives for the root inode: nothing, an inode that is in core and filled, or one
to be read. -/
inductive Root where
  | none
  | filled
  | blank
  deriving DecidableEq

/-- What the mount asks: memory for the super block; the first read, with what was on the stack
in its buffer; a buffer and its read, for a block that is not cached; memory for the
`ext4_sb_info` and for `s_group_desc`; the root inode with its private part, and its
dentry. -/
structure Answers where
  sbAlloc : Bool
  superBuf : Except Errno Unit
  stack : Bytes
  bread : UInt64 → Bool
  sbi : Bool
  groupDesc : Bool
  root : Root
  info : Bool
  dAlloc : Bool

section Mount

variable (disk : Bytes) (answers : Answers)

/-- What `request` of the drivers reads from block `lba` on: they count in sectors. -/
def bdevReadBlocks (s : State) (lba : UInt64) : Bytes := fun x => disk (lba.toNat * (s.bdBlockSize / 512).toNat * 512 + x)

def sbBread (s : State) (block : UInt64) : State × Option Buffer :=
  match s.buffers.find? (·.bBlocknr = block) with
  | some bh => (s, some bh)
  | none =>
      if answers.bread block then
        let bh := ⟨block, s.bdBlockSize, bdevReadBlocks disk s block⟩
        ({ s with buffers := bh :: s.buffers }, some bh)
      else (s, none)

/-- `es` in `super_buf`, after the first read. -/
def State.superBuf (s : State) (stack : Bytes) : Except Hazard Es := do
  let lba ← div 1024 s.bdBlockSize
  let nrBlocks ← div 1024 s.bdBlockSize
  let off ← mod 1024 s.bdBlockSize
  let read := bdevReadBlocks disk s lba.toUInt64
  let length := nrBlocks.toNat * (s.bdBlockSize / 512).toNat * 512
  .ok ⟨fun x => if off.toNat + x < length then read (off.toNat + x) else stack (off.toNat + x), 1024 - off.toNat⟩

/-- `es` in a buffer. -/
def Buffer.es (bh : Buffer) (off : UInt32) : Es := ⟨fun x => bh.bData (x + off.toNat), bh.bSize.toNat - off.toNat⟩

def ext4CheckSuperblock (es : Es) : Except Hazard (Except Errno Unit) := do
  let magic ← es.le16 56
  if magic ≠ superMagic then .ok (.error .einval)
  else
    let incompat ← es.le32 96
    if incompat &&& feature64bit ≠ 0 then .ok (.error .einval)
    else if incompat &&& featureExtents = 0 then .ok (.error .einval)
    else .ok (.ok ())

def ext4AllocSbi (es : Es) : Except Hazard (Option SbInfo) :=
  if answers.sbi then do
    let sInodesPerGroup ← es.le32 40
    let sBlocksPerGroup ← es.le32 32
    let sFirstDataBlock ← es.le32 20
    let sLogBlockSize ← es.le32 24
    let sInodeSize ← es.le16 88
    let sFirstIno ← es.le32 84
    let blockSize ← shl 1024 sLogBlockSize
    let descPerBlock := blockSize / 32
    let sBlocksCountLo ← es.le32 4
    let sGroupsCount ← div (sBlocksCountLo - sFirstDataBlock + sBlocksPerGroup - 1) sBlocksPerGroup
    .ok (some
      { sEs := es.bytes
        sGroupDesc := []
        sInodesPerGroup
        sBlocksPerGroup
        sDescPerBlock := if descPerBlock = 0 then 1 else descPerBlock
        sGroupsCount
        sFirstDataBlock
        sLogBlockSize
        sInodeSize := sInodeSize.toUInt32
        sFirstIno })
  else .ok none

/-- The loop that reads the descriptor blocks from `blk` on. -/
def readGroupDesc : Nat → State → UInt32 → State × Except Errno (List Bytes)
  | 0, s, _ => (s, .ok [])
  | left + 1, s, blk =>
      match sbBread disk answers s blk.toUInt64 with
      | (s, none) => (s, .error .eio)
      | (s, some bh) =>
          match readGroupDesc left s (blk + 1) with
          | (s, .error e) => (s, .error e)
          | (s, .ok rest) => (s, .ok (bh.bData :: rest))

def ext4InodeBlock (sbi : SbInfo) (group offsetInGroup : UInt32) : Except Hazard (UInt32 × UInt32) :=
  match sbi.sGroupDesc[group.toNat]? with
  | none => .error .groupDesc
  | some bh => do
      let blockSize ← shl 1024 sbi.sLogBlockSize
      let rawOff := offsetInGroup * sbi.sInodeSize
      let off ← mod rawOff blockSize
      let q ← div rawOff blockSize
      .ok (load32 bh 8 + q, off)

/-- `ext4_iget(sb, EXT4_ROOT_INO)`, with whether there is an inode; `ino` has 64 bits. -/
def ext4Iget (s : State) (sbi : SbInfo) : Except Hazard (State × Bool) :=
  match answers.root with
  | .none => .ok (s, false)
  | .filled => .ok (s, true)
  | .blank =>
      if answers.info then
        if sbi.sInodesPerGroup = 0 then .error .divideByZero
        else do
          let group : UInt64 := (2 - 1) / sbi.sInodesPerGroup.toUInt64
          let offsetInGroup : UInt64 := (2 - 1) % sbi.sInodesPerGroup.toUInt64
          let (block, _) ← ext4InodeBlock sbi group.toUInt32 offsetInGroup.toUInt32
          match sbBread disk answers s block.toUInt64 with
          | (s, none) => .ok (s, false)
          | (s, some _) => .ok (s, true)
      else .ok (s, false)

/-- `ext4_fill_super` from the superblock in the cache on. -/
def fillFrom (s : State) (es : Es) : Except Hazard (State × Except Errno SbInfo) := do
  match ← ext4CheckSuperblock es with
  | .error e => .ok (s, .error e)
  | .ok () =>
      match ← ext4AllocSbi answers es with
      | none => .ok (s, .error .enomem)
      | some sbi => do
          let gdBlocks ← div (sbi.sGroupsCount + sbi.sDescPerBlock - 1) sbi.sDescPerBlock
          if answers.groupDesc then
            match readGroupDesc disk answers gdBlocks.toNat s (sbi.sFirstDataBlock + 1) with
            | (s, .error e) => .ok (s, .error e)
            | (s, .ok descs) => do
                let sbi := { sbi with sGroupDesc := descs }
                match ← ext4Iget disk answers s sbi with
                | (s, false) => .ok (s, .error .eio)
                | (s, true) => if answers.dAlloc then .ok (s, .ok sbi) else .ok (s, .error .enomem)
          else .ok (s, .error .enomem)

/-- `ext4_fill_super`. -/
def ext4FillSuper (s : State) : Except Hazard (State × Except Errno SbInfo) := do
  let _ ← div 1024 s.bdBlockSize
  match answers.superBuf with
  | .error e => .ok (s, .error e)
  | .ok () => do
      let es ← s.superBuf disk answers.stack
      let sLogBlockSize ← es.le32 24
      let blockSize ← shl 1024 sLogBlockSize
      let superblockBlock ← div 1024 blockSize
      let superblockOff ← mod 1024 blockSize
      let s := { s with bdBlockSize := blockSize, bdBlockSizeBits := (10 + sLogBlockSize).toUInt8 }
      match sbBread disk answers s superblockBlock.toUInt64 with
      | (s, none) => .ok (s, .error .eio)
      | (s, some bh) => fillFrom disk answers s (bh.es superblockOff)

/-- `ext4_mount` of a device that is found; every error is NULL. -/
def ext4Mount (s : State) : Except Hazard (State × Except Errno SbInfo) :=
  if answers.sbAlloc then ext4FillSuper disk answers s else .ok (s, .error .enomem)

end Mount

/-! ## When a mount is safe -/

section Safe

/-- What is at byte 1024 of the device. -/
def superblock (disk : Bytes) : Bytes := fun x => disk (1024 + x)

/-- `ext4_check_superblock` accepts it. -/
def Accepted (es : Bytes) : Prop :=
  Ext4Bytes.sMagic es = superMagic ∧ Ext4Bytes.sFeatureIncompat es &&& feature64bit = 0 ∧
    Ext4Bytes.sFeatureIncompat es &&& featureExtents ≠ 0

/-- The block is in the cache, or it can be read. -/
def Readable (answers : Answers) (s : State) (block : UInt64) : Prop :=
  (∃ bh ∈ s.buffers, bh.bBlocknr = block) ∨ answers.bread block = true

/-- If the root inode is to be read, then its group has an entry in `s_group_desc`, and the
size of a block is not 0. -/
def RootSafe (answers : Answers) (sbi : SbInfo) : Prop :=
  answers.root = .blank → answers.info = true →
    sbi.sInodesPerGroup ≠ 0 ∧ 1 / sbi.sInodesPerGroup.toNat < sbi.gdBlocks.toNat ∧ sbi.sLogBlockSize < 22

/-- If the tables are made, then the size of a block is a shift, a group has blocks, and the
root inode is safe once the descriptors are read. -/
def TablesSafe (answers : Answers) (s : State) (sbi : SbInfo) : Prop :=
  answers.sbi = true → sbi.sLogBlockSize < 32 ∧ sbi.sBlocksPerGroup ≠ 0 ∧
    (answers.groupDesc = true →
      (∀ i < sbi.gdBlocks.toNat, Readable answers s (sbi.sFirstDataBlock + 1 + UInt32.ofNat i).toUInt64) →
        RootSafe answers sbi)

/-- The fields that are checked are in the buffer, and with them the others; the tables are
safe if the superblock is accepted. -/
def EsSafe (answers : Answers) (s : State) (es : Es) : Prop :=
  58 ≤ es.size ∧ (Ext4Bytes.sMagic es.bytes = superMagic → 100 ≤ es.size ∧
    (Accepted es.bytes → TablesSafe answers s (Ext4Bytes.ext4AllocSbi es.bytes)))

/-- `superblock_block`. -/
def superblockBlock (sLogBlockSize : UInt32) : UInt64 := ((1024 : UInt32) / (1024 <<< sLogBlockSize)).toUInt64

/-- The device, switched to the block size of the image. -/
def State.switch (s : State) (sLogBlockSize : UInt32) : State :=
  { s with bdBlockSize := 1024 <<< sLogBlockSize, bdBlockSizeBits := (10 + sLogBlockSize).toUInt8 }

/-- Where `es` points in the buffer of the superblock. -/
def Buffer.superblock (bh : Buffer) (sLogBlockSize : UInt32) : Es := bh.es ((1024 : UInt32) % (1024 <<< sLogBlockSize))

/-- `super_buf` from `1024 % bd_block_size` on, on a device that `ext4_fill_super` does not divide by. -/
def State.superEs (disk : Bytes) (s : State) (stack : Bytes) : Es :=
  let off := (1024 % s.bdBlockSize).toNat
  let length := (1024 / s.bdBlockSize).toNat * (s.bdBlockSize / 512).toNat * 512
  ⟨fun x => if off + x < length then bdevReadBlocks disk s (1024 / s.bdBlockSize).toUInt64 (off + x) else stack (off + x),
    1024 - off⟩

/-- If memory is there, then the device has a block size; if the first read is done, then it is
at most 1024 bytes and the image's fits in 32 bits; and what is then in the cache is safe. -/
def MountSafe (disk : Bytes) (answers : Answers) (s : State) : Prop :=
  answers.sbAlloc = true → s.bdBlockSize ≠ 0 ∧ (answers.superBuf = .ok () →
    s.bdBlockSize ≤ 1024 ∧ Ext4Bytes.sLogBlockSize (s.superEs disk answers.stack).bytes < 22 ∧
      ∀ bh, (sbBread disk answers (s.switch (Ext4Bytes.sLogBlockSize (s.superEs disk answers.stack).bytes))
          (superblockBlock (Ext4Bytes.sLogBlockSize (s.superEs disk answers.stack).bytes))).2 = some bh →
        EsSafe answers s (bh.superblock (Ext4Bytes.sLogBlockSize (s.superEs disk answers.stack).bytes)))

variable {disk : Bytes} {answers : Answers} {s s₁ : State} {es : Es}

theorem Es.le32_ok {field : Nat} (inside : field + 4 ≤ es.size) : es.le32 field = .ok (load32 es.bytes field) :=
  if_pos inside

theorem Es.le16_ok {field : Nat} (inside : field + 2 ≤ es.size) : es.le16 field = .ok (load16 es.bytes field) :=
  if_pos inside

theorem shl_ok {x n : UInt32} (small : n < 32) : shl x n = .ok (x <<< n) := if_pos small

theorem div_ok {x y : UInt32} (nonzero : y ≠ 0) : div x y = .ok (x / y) := if_neg nonzero

theorem mod_ok {x y : UInt32} (nonzero : y ≠ 0) : mod x y = .ok (x % y) := if_neg nonzero

/-- The size of a block of at most 2 GiB. -/
theorem blockSize_toNat {log : UInt32} (small : log < 22) :
    ((1024 : UInt32) <<< log).toNat = 1024 * 2 ^ log.toNat := by
  have below : log.toNat < 22 := small
  rw [UInt32.toNat_shiftLeft, Nat.mod_eq_of_lt (by omega : log.toNat < 32), Nat.shiftLeft_eq]
  refine Nat.mod_eq_of_lt ?_
  calc 1024 * 2 ^ log.toNat ≤ 1024 * 2 ^ 21 := Nat.mul_le_mul_left _ (Nat.pow_le_pow_right (by decide) (by omega))
    _ < 2 ^ 32 := by decide

/-- From 22 on nothing is left of it. -/
theorem blockSize_zero {log : UInt32} (small : log < 32) (large : ¬ log < 22) : (1024 : UInt32) <<< log = 0 := by
  have below : log.toNat < 32 := small
  have above : 22 ≤ log.toNat := Nat.not_lt.1 large
  apply UInt32.toNat_inj.1
  rw [UInt32.toNat_shiftLeft, Nat.mod_eq_of_lt (by omega : log.toNat < 32), Nat.shiftLeft_eq]
  obtain ⟨k, same⟩ := Nat.exists_eq_add_of_le above
  rw [same, Nat.pow_add]
  show 1024 * (2 ^ 22 * 2 ^ k) % 2 ^ 32 = 0
  rw [← Nat.mul_assoc]
  exact Nat.mul_mod_right (2 ^ 32) (2 ^ k)

/-- The check stays in the buffer exactly if its two fields do, the second only if the first is
right. -/
theorem ext4CheckSuperblock_safe : (∃ r, ext4CheckSuperblock es = .ok r) ↔
    58 ≤ es.size ∧ (Ext4Bytes.sMagic es.bytes = superMagic → 100 ≤ es.size) := by
  unfold ext4CheckSuperblock Es.le16
  by_cases first : 58 ≤ es.size
  · rw [if_pos first, ok_bind, and_iff_right first]
    by_cases magic : load16 es.bytes 56 = superMagic
    · rw [if_neg (not_not.2 magic), forall_prop_of_true (show Ext4Bytes.sMagic es.bytes = superMagic from magic)]
      unfold Es.le32
      by_cases second : 100 ≤ es.size
      · rw [if_pos second, ok_bind]
        refine iff_of_true ?_ second
        split
        · exact ⟨_, rfl⟩
        · split
          · exact ⟨_, rfl⟩
          · exact ⟨_, rfl⟩
      · rw [if_neg second]
        exact iff_of_false (fun ⟨_, run⟩ => nomatch run) second
    · rw [if_pos magic]
      exact iff_of_true ⟨_, rfl⟩ fun magic' => absurd magic' magic
  · rw [if_neg first]
    exact iff_of_false (fun ⟨_, run⟩ => nomatch run) fun safe => first safe.1

theorem ext4CheckSuperblock_spec (first : 58 ≤ es.size) (second : Ext4Bytes.sMagic es.bytes = superMagic → 100 ≤ es.size) :
    (Accepted es.bytes ∧ ext4CheckSuperblock es = .ok (.ok ())) ∨
      ¬ Accepted es.bytes ∧ ∃ err, ext4CheckSuperblock es = .ok (.error err) := by
  unfold ext4CheckSuperblock Accepted
  rw [Es.le16_ok first, ok_bind]
  by_cases magic : load16 es.bytes 56 = superMagic
  · rw [if_neg (not_not.2 magic), Es.le32_ok (second magic), ok_bind]
    by_cases wide : load32 es.bytes 96 &&& feature64bit = 0
    · rw [if_neg (not_not.2 wide)]
      by_cases extents : load32 es.bytes 96 &&& featureExtents = 0
      · rw [if_pos extents]
        exact .inr ⟨fun accepted => accepted.2.2 extents, _, rfl⟩
      · rw [if_neg extents]
        exact .inl ⟨⟨magic, wide, extents⟩, rfl⟩
    · rw [if_pos wide]
      exact .inr ⟨fun accepted => wide accepted.2.1, _, rfl⟩
  · rw [if_pos magic]
    exact .inr ⟨fun accepted => magic accepted.1, _, rfl⟩

/-- With the feature field the buffer holds all the fields that go into the tables. -/
theorem ext4AllocSbi_spec (inside : 100 ≤ es.size) (memory : answers.sbi = true) :
    ext4AllocSbi answers es =
      if Ext4Bytes.sLogBlockSize es.bytes < 32 then
        if Ext4Bytes.sBlocksPerGroup es.bytes = 0 then .error .divideByZero
        else .ok (some (Ext4Bytes.ext4AllocSbi es.bytes))
      else .error .shift := by
  have field {at_ : Nat} (low : at_ + 4 ≤ 100) : es.le32 at_ = .ok (load32 es.bytes at_) := Es.le32_ok (low.trans inside)
  have half {at_ : Nat} (low : at_ + 2 ≤ 100) : es.le16 at_ = .ok (load16 es.bytes at_) := Es.le16_ok (low.trans inside)
  unfold ext4AllocSbi
  rw [if_pos memory, field (by decide), ok_bind, field (by decide), ok_bind, field (by decide), ok_bind,
    field (by decide), ok_bind, half (by decide), ok_bind, field (by decide), ok_bind]
  unfold shl Ext4Bytes.sLogBlockSize
  split
  · rw [ok_bind]
    dsimp only
    rw [field (by decide), ok_bind]
    unfold div Ext4Bytes.sBlocksPerGroup
    split
    · rfl
    · rfl
  · rfl

theorem sbBread_missing {block : UInt64} (cold : s.buffers = []) (missing : answers.bread block = false) :
    sbBread disk answers s block = (s, none) := by
  simp [sbBread, cold, missing]

theorem sbBread_cold {block : UInt64} (cold : s.buffers = []) (there : answers.bread block = true) :
    sbBread disk answers s block =
      ({ s with buffers := [⟨block, s.bdBlockSize, bdevReadBlocks disk s block⟩] },
        some ⟨block, s.bdBlockSize, bdevReadBlocks disk s block⟩) := by
  simp [sbBread, cold, there]

/-- The same blocks are cached or can be read. -/
def Alike (answers : Answers) (s s₁ : State) : Prop := ∀ block, Readable answers s₁ block ↔ Readable answers s block

variable (disk answers s) in
theorem sbBread_spec (block : UInt64) :
    (Readable answers s block ∧ ∃ s₁ bh, sbBread disk answers s block = (s₁, some bh) ∧ Alike answers s s₁) ∨
      ¬ Readable answers s block ∧ sbBread disk answers s block = (s, none) := by
  unfold sbBread
  split
  · rename_i bh cached
    have same : bh.bBlocknr = block := by simpa using List.find?_some cached
    exact .inl ⟨.inl ⟨bh, List.mem_of_find?_eq_some cached, same⟩, s, bh, rfl, fun _ => Iff.rfl⟩
  · rename_i missing
    by_cases there : answers.bread block = true
    · rw [if_pos there]
      refine .inl ⟨.inr there, _, _, rfl, fun other => ⟨?_, ?_⟩⟩
      · rintro (⟨bh, inside, rfl⟩ | read)
        · rcases List.mem_cons.1 inside with rfl | old
          · exact .inr there
          · exact .inl ⟨bh, old, rfl⟩
        · exact .inr read
      · rintro (⟨bh, inside, same⟩ | read)
        · exact .inl ⟨bh, List.mem_cons_of_mem _ inside, same⟩
        · exact .inr read
    · rw [if_neg there]
      refine .inr ⟨?_, rfl⟩
      rintro (⟨bh, inside, same⟩ | read)
      · exact absurd (by simpa using same) (List.find?_eq_none.1 missing bh inside)
      · exact there read

theorem alike_switch {log : UInt32} (alike : Alike answers (s.switch log) s₁) : Alike answers s s₁ := by
  unfold Alike Readable State.switch at *
  exact alike

theorem esSafe_alike (alike : Alike answers s s₁) (es : Es) : EsSafe answers s₁ es ↔ EsSafe answers s es := by
  unfold EsSafe TablesSafe
  simp only [alike _]

variable (disk answers) in
/-- The descriptors are read exactly if each of their blocks is. -/
theorem readGroupDesc_spec (n : Nat) (s : State) (blk : UInt32) :
    ((∀ i < n, Readable answers s (blk + UInt32.ofNat i).toUInt64) ∧
      ∃ s₁ descs, readGroupDesc disk answers n s blk = (s₁, .ok descs) ∧ descs.length = n) ∨
      (¬ ∀ i < n, Readable answers s (blk + UInt32.ofNat i).toUInt64) ∧
        ∃ s₁, readGroupDesc disk answers n s blk = (s₁, .error .eio) := by
  induction n generalizing s blk with
  | zero => exact .inl ⟨nofun, s, [], rfl, rfl⟩
  | succ n ih =>
      have next (i : Nat) : blk + 1 + UInt32.ofNat i = blk + UInt32.ofNat (i + 1) := by
        rw [UInt32.ofNat_add, UInt32.add_assoc, UInt32.add_comm 1]
        rfl
      have first : blk + UInt32.ofNat 0 = blk := UInt32.add_zero blk
      rw [readGroupDesc]
      obtain ⟨there, s₁, bh, read, alike⟩ | ⟨missing, failed⟩ := sbBread_spec disk answers s blk.toUInt64
      · rw [read]
        dsimp only
        obtain ⟨all, s₂, descs, rest, length⟩ | ⟨short, s₂, failed⟩ := ih s₁ (blk + 1)
        · rw [rest]
          refine .inl ⟨fun i below => ?_, s₂, _, rfl, congrArg (· + 1) length⟩
          cases i with
          | zero => rwa [first]
          | succ i =>
              rw [← next]
              exact (alike _).1 (all i (Nat.lt_of_succ_lt_succ below))
        · rw [failed]
          refine .inr ⟨fun all => short fun i below => ?_, s₂, rfl⟩
          rw [next]
          exact (alike _).2 (all (i + 1) (Nat.succ_lt_succ below))
      · rw [failed]
        refine .inr ⟨fun all => missing ?_, s, rfl⟩
        have there := all 0 (Nat.succ_pos n)
        rwa [first] at there

theorem blockSize_ne {log : UInt32} (small : log < 22) : (1024 : UInt32) <<< log ≠ 0 := by
  intro zero
  have := congrArg UInt32.toNat zero
  rw [blockSize_toNat small] at this
  have := Nat.two_pow_pos log.toNat
  simp_all

theorem ext4InodeBlock_safe {sbi : SbInfo} (group offset : UInt32) :
    (∃ r, ext4InodeBlock sbi group offset = .ok r) ↔ group.toNat < sbi.sGroupDesc.length ∧ sbi.sLogBlockSize < 22 := by
  unfold ext4InodeBlock
  cases entry : sbi.sGroupDesc[group.toNat]? with
  | none =>
      refine iff_of_false (fun ⟨_, run⟩ => nomatch run) fun safe => ?_
      exact Nat.not_lt.2 (List.getElem?_eq_none_iff.1 entry) safe.1
  | some bh =>
      rw [and_iff_right (List.getElem?_eq_some_iff.1 entry).1]
      dsimp only
      by_cases small : sbi.sLogBlockSize < 22
      · have nonzero := blockSize_ne small
        refine iff_of_true ?_ small
        rw [shl_ok (UInt32.lt_trans small (by decide)), ok_bind, mod_ok nonzero, ok_bind, div_ok nonzero, ok_bind]
        exact ⟨_, rfl⟩
      · refine iff_of_false (fun ⟨_, run⟩ => ?_) small
        unfold shl at run
        split at run
        · rename_i shift
          rw [ok_bind, blockSize_zero shift small] at run
          cases run
        · cases run

/-- The group of the root inode. -/
theorem rootGroup (perGroup : UInt32) : ((2 - 1 : UInt64) / perGroup.toUInt64).toUInt32.toNat = 1 / perGroup.toNat := by
  have small : 1 / perGroup.toNat ≤ 1 := Nat.div_le_self 1 _
  show (1 / perGroup.toNat) % 2 ^ 32 = _
  exact Nat.mod_eq_of_lt (by omega)

variable (disk answers s) in
/-- The read of the root inode meets no hazard exactly if its group has an entry. -/
theorem ext4Iget_safe (sbi : SbInfo) (length : sbi.sGroupDesc.length = sbi.gdBlocks.toNat) :
    (∃ r, ext4Iget disk answers s sbi = .ok r) ↔ RootSafe answers sbi := by
  have block := @ext4InodeBlock_safe sbi ((2 - 1) / sbi.sInodesPerGroup.toUInt64).toUInt32
    ((2 - 1) % sbi.sInodesPerGroup.toUInt64).toUInt32
  rw [rootGroup, length] at block
  unfold ext4Iget RootSafe
  cases answers.root with
  | none => exact iff_of_true ⟨_, rfl⟩ nofun
  | filled => exact iff_of_true ⟨_, rfl⟩ nofun
  | blank =>
      cases answers.info with
      | false => exact iff_of_true ⟨_, rfl⟩ nofun
      | true =>
          by_cases none_ : sbi.sInodesPerGroup = 0
          · exact iff_of_false (fun ⟨_, run⟩ => by simp [none_] at run) fun safe => (safe rfl rfl).1 none_
          · dsimp only
            rw [if_pos rfl, if_neg none_]
            refine Iff.trans ⟨fun ⟨_, run⟩ => ?_, fun ⟨r, run⟩ => ?_⟩
              (block.trans ⟨fun inside _ _ => ⟨none_, inside⟩, fun safe => (safe rfl rfl).2⟩)
            · obtain ⟨r, got, -⟩ := bind_eq_ok.1 run
              exact ⟨r, got⟩
            · rw [run, ok_bind]
              cases sbBread disk answers s r.1.toUInt64 with
              | mk s₁ bh => cases bh with
                | none => exact ⟨_, rfl⟩
                | some bh => exact ⟨_, rfl⟩

/-- The tables, from an accepted superblock on: the table of descriptors and the root inode. -/
theorem tables_safe (accepted : ext4CheckSuperblock es = .ok (.ok ())) (inside : 100 ≤ es.size) :
    (∃ r, fillFrom disk answers s es = .ok r) ↔ TablesSafe answers s (Ext4Bytes.ext4AllocSbi es.bytes) := by
  unfold fillFrom TablesSafe
  rw [accepted, ok_bind]
  dsimp only
  by_cases memory : answers.sbi = true
  · rw [ext4AllocSbi_spec inside memory, forall_prop_of_true memory]
    by_cases shift : Ext4Bytes.sLogBlockSize es.bytes < 32
    · rw [if_pos shift, and_iff_right (show (Ext4Bytes.ext4AllocSbi es.bytes).sLogBlockSize < 32 from shift)]
      by_cases empty : Ext4Bytes.sBlocksPerGroup es.bytes = 0
      · rw [if_pos empty]
        refine iff_of_false ?_ fun safe => safe.1 empty
        rintro ⟨_, ⟨⟩⟩
      · have perBlock : (Ext4Bytes.ext4AllocSbi es.bytes).sDescPerBlock ≠ 0 := by
          unfold Ext4Bytes.ext4AllocSbi
          dsimp only
          split
          · decide
          · assumption
        rw [if_neg empty, ok_bind]
        dsimp only
        rw [div_ok perBlock, ok_bind,
          and_iff_right (show (Ext4Bytes.ext4AllocSbi es.bytes).sBlocksPerGroup ≠ 0 from empty)]
        by_cases table : answers.groupDesc = true
        · rw [if_pos table, forall_prop_of_true table]
          obtain ⟨all, s₁, descs, read, length⟩ | ⟨short, s₁, failed⟩ := readGroupDesc_spec disk answers
            (Ext4Bytes.ext4AllocSbi es.bytes).gdBlocks.toNat s ((Ext4Bytes.ext4AllocSbi es.bytes).sFirstDataBlock + 1)
          · rw [forall_prop_of_true all]
            have root := ext4Iget_safe disk answers s₁
              { Ext4Bytes.ext4AllocSbi es.bytes with sGroupDesc := descs } length
            refine Iff.trans ?_ root
            simp only [SbInfo.gdBlocks] at read
            rw [read]
            dsimp only
            constructor
            · rintro ⟨_, run⟩
              obtain ⟨r, got, -⟩ := bind_eq_ok.1 run
              exact ⟨r, got⟩
            · rintro ⟨⟨s₂, there⟩, run⟩
              rw [run, ok_bind]
              cases there with
              | false => exact ⟨_, rfl⟩
              | true =>
                  dsimp only
                  split
                  · exact ⟨_, rfl⟩
                  · exact ⟨_, rfl⟩
          · simp only [SbInfo.gdBlocks] at failed
            rw [failed]
            exact iff_of_true ⟨_, rfl⟩ fun all => absurd all short
        · rw [if_neg table]
          exact iff_of_true ⟨_, rfl⟩ fun table' => absurd table' table
    · rw [if_neg shift]
      refine iff_of_false ?_ fun safe => shift safe.1
      rintro ⟨_, ⟨⟩⟩
  · have none_ : ext4AllocSbi answers es = .ok none := if_neg memory
    rw [none_]
    exact iff_of_true ⟨_, rfl⟩ fun memory' => absurd memory' memory

/-- From the superblock in the cache on. -/
theorem fillFrom_safe : (∃ r, fillFrom disk answers s es = .ok r) ↔ EsSafe answers s es := by
  unfold EsSafe
  by_cases inside : 58 ≤ es.size ∧ (Ext4Bytes.sMagic es.bytes = superMagic → 100 ≤ es.size)
  · obtain ⟨first, second⟩ := inside
    rw [and_iff_right first]
    obtain ⟨accepted, check⟩ | ⟨refused, err, check⟩ := ext4CheckSuperblock_spec first second
    · rw [forall_prop_of_true accepted.1, and_iff_right (second accepted.1), forall_prop_of_true accepted]
      exact tables_safe check (second accepted.1)
    · have run : fillFrom disk answers s es = .ok (s, .error err) := by
        unfold fillFrom
        rw [check]
        rfl
      exact iff_of_true ⟨_, run⟩ fun magic => ⟨second magic, fun accepted => absurd accepted refused⟩
  · refine iff_of_false (fun ⟨r, run⟩ => inside ?_) fun safe => inside ⟨safe.1, fun magic => (safe.2 magic).1⟩
    obtain ⟨r, got, -⟩ := bind_eq_ok.1 run
    exact ext4CheckSuperblock_safe.1 ⟨r, got⟩

theorem superBuf_eq (nonzero : s.bdBlockSize ≠ 0) (stack : Bytes) :
    s.superBuf disk stack = .ok (s.superEs disk stack) := by
  unfold State.superBuf
  rw [div_ok nonzero, ok_bind, ok_bind, mod_ok nonzero, ok_bind]
  rfl

/-- `s_log_block_size` is in `super_buf` exactly if a block is at most 1024 bytes: then `es` is in
the lower half, and otherwise at the end. -/
theorem superEs_size (nonzero : s.bdBlockSize ≠ 0) (stack : Bytes) :
    28 ≤ (s.superEs disk stack).size ↔ s.bdBlockSize ≤ 1024 := by
  have positive : 0 < s.bdBlockSize.toNat := Nat.pos_of_ne_zero fun zero => nonzero (UInt32.toNat_inj.1 zero)
  have off : (1024 % s.bdBlockSize).toNat = 1024 % s.bdBlockSize.toNat := UInt32.toNat_mod ..
  show 28 ≤ 1024 - (1024 % s.bdBlockSize).toNat ↔ s.bdBlockSize.toNat ≤ 1024
  rw [off]
  by_cases small : s.bdBlockSize.toNat ≤ 1024
  · refine iff_of_true ?_ small
    have split := Nat.div_add_mod 1024 s.bdBlockSize.toNat
    have below := Nat.mod_lt 1024 positive
    have once : s.bdBlockSize.toNat ≤ s.bdBlockSize.toNat * (1024 / s.bdBlockSize.toNat) :=
      Nat.le_mul_of_pos_right _ (Nat.div_pos small positive)
    omega
  · refine iff_of_false ?_ small
    rw [Nat.mod_eq_of_lt (Nat.not_le.1 small)]
    omega

/-- **When a mount is safe.**  For every device and what is cached of it, every content and all
answers: the mount divides by no zero, shifts by less than 32, and stays in the superblock's
buffer and in `s_group_desc` exactly if `MountSafe` holds. -/
theorem mount_safe_iff : (∃ r, ext4Mount disk answers s = .ok r) ↔ MountSafe disk answers s := by
  unfold ext4Mount MountSafe
  by_cases memory : answers.sbAlloc = true
  · rw [if_pos memory, forall_prop_of_true memory]
    unfold ext4FillSuper
    by_cases nonzero : s.bdBlockSize = 0
    · refine iff_of_false (fun ⟨_, run⟩ => ?_) fun safe => safe.1 nonzero
      unfold div at run
      rw [if_pos nonzero] at run
      cases run
    rw [div_ok nonzero, ok_bind, and_iff_right nonzero]
    cases read : answers.superBuf with
    | error err => exact iff_of_true ⟨_, rfl⟩ nofun
    | ok _ =>
        dsimp only
        rw [superBuf_eq nonzero, ok_bind, forall_prop_of_true rfl, ← superEs_size nonzero answers.stack]
        by_cases inside : 28 ≤ (s.superEs disk answers.stack).size
        · rw [and_iff_right inside, Es.le32_ok inside, ok_bind]
          unfold Ext4Bytes.sLogBlockSize
          generalize load32 (s.superEs disk answers.stack).bytes 24 = log
          by_cases small : log < 22
          · have nonzero := blockSize_ne small
            rw [and_iff_right small, shl_ok (UInt32.lt_trans small (by decide)), ok_bind, div_ok nonzero, ok_bind,
              mod_ok nonzero, ok_bind]
            have read := sbBread_spec disk answers (s.switch log) (superblockBlock log)
            unfold superblockBlock at read ⊢
            rw [State.switch] at read ⊢
            obtain ⟨-, s₁, bh, got, alike⟩ | ⟨-, failed⟩ := read
            · rw [got]
              refine fillFrom_safe.trans ((esSafe_alike (alike_switch alike) _).trans ?_)
              refine ⟨fun safe _ same => ?_, fun safe => safe bh rfl⟩
              cases same
              exact safe
            · rw [failed]
              exact iff_of_true ⟨_, rfl⟩ nofun
          · refine iff_of_false (fun ⟨_, run⟩ => ?_) fun safe => small safe.1
            unfold shl at run
            split at run
            · rename_i shift
              rw [ok_bind, blockSize_zero shift small] at run
              cases run
            · cases run
        · refine iff_of_false (fun ⟨_, run⟩ => ?_) fun safe => inside safe.1
          unfold Es.le32 at run
          rw [if_neg inside] at run
          cases run
  · rw [if_neg memory]
    exact iff_of_true ⟨_, rfl⟩ fun memory' => absurd memory' memory

/-- A device whose block size an earlier mount has left above 1 KiB is read beyond `super_buf`. -/
theorem remount_hazard (memory : answers.sbAlloc = true) (read : answers.superBuf = .ok ()) (large : 1024 < s.bdBlockSize) :
    ext4Mount disk answers s = .error .superblock := by
  have nonzero : s.bdBlockSize ≠ 0 := fun zero => by
    rw [zero] at large
    exact absurd large (by decide)
  have outside : ¬ 28 ≤ (s.superEs disk answers.stack).size := fun inside =>
    absurd ((superEs_size nonzero answers.stack).1 inside) (Nat.not_le.2 large)
  unfold ext4Mount ext4FillSuper
  rw [if_pos memory, div_ok nonzero, ok_bind, read]
  dsimp only
  rw [superBuf_eq nonzero, ok_bind]
  unfold Es.le32
  rw [if_neg outside]
  rfl

/-! ## The first mount -/

/-- `es` points at the superblock, all of it in the buffer. -/
structure Es.At (es : Es) (e : Bytes) : Prop where
  inside : 1024 ≤ es.size
  bytes : ∀ x < 1024, es.bytes x = e x

theorem esSafe_at {e : Bytes} (at_ : es.At e) :
    EsSafe answers s es ↔ (Accepted e → TablesSafe answers s (Ext4Bytes.ext4AllocSbi e)) := by
  have same32 (field : Nat) (low : field + 4 ≤ 1024) : load32 es.bytes field = load32 e field :=
    load32_congr fun x _ high => at_.bytes x (by omega)
  have same16 (field : Nat) (low : field + 2 ≤ 1024) : load16 es.bytes field = load16 e field :=
    load16_congr fun x _ high => at_.bytes x (by omega)
  have accepted : Accepted es.bytes ↔ Accepted e := by
    unfold Accepted Ext4Bytes.sMagic Ext4Bytes.sFeatureIncompat
    rw [same16 56 (by decide), same32 96 (by decide)]
  have tables : Ext4Bytes.ext4AllocSbi es.bytes = { Ext4Bytes.ext4AllocSbi e with sEs := es.bytes } := by
    unfold Ext4Bytes.ext4AllocSbi Ext4Bytes.sInodesPerGroup Ext4Bytes.sBlocksPerGroup Ext4Bytes.sFirstDataBlock
      Ext4Bytes.sLogBlockSize Ext4Bytes.sInodeSize Ext4Bytes.sFirstIno Ext4Bytes.sBlocksCountLo
    rw [same32 40 (by decide), same32 32 (by decide), same32 20 (by decide), same32 24 (by decide),
      same16 88 (by decide), same32 84 (by decide), same32 4 (by decide)]
  have size := at_.inside
  unfold EsSafe
  rw [and_iff_right (by omega), accepted, tables]
  constructor
  · intro safe ok
    exact (safe (accepted.2 ok).1).2 ok
  · intro safe _
    exact ⟨by omega, safe⟩

variable (disk) in
/-- On a device of 512-byte sectors the first read fills its buffer. -/
theorem superEs_native (native : s.bdBlockSize = 512) (stack : Bytes) : (s.superEs disk stack).At (superblock disk) := by
  unfold State.superEs bdevReadBlocks
  rw [native]
  refine ⟨le_rfl, fun x below => ?_⟩
  have off : ((1024 : UInt32) % 512).toNat = 0 := rfl
  have length : ((1024 : UInt32) / 512).toNat * ((512 : UInt32) / 512).toNat * 512 = 1024 := rfl
  have lba : ((1024 : UInt32) / 512).toUInt64.toNat * ((512 : UInt32) / 512).toNat * 512 = 1024 := rfl
  simp only [off, length, lba, Nat.zero_add, if_pos below]
  rfl

/-- And the read of the superblock through the cache gives it again. -/
theorem bread_superblock {log : UInt32} (small : log < 22) (size : s.bdBlockSize = 1024 <<< log) :
    Es.At (Buffer.es ⟨superblockBlock log, s.bdBlockSize, bdevReadBlocks disk s (superblockBlock log)⟩
      ((1024 : UInt32) % (1024 <<< log))) (superblock disk) := by
  have toNat := blockSize_toNat small
  have one : 1 ≤ 2 ^ log.toNat := Nat.one_le_two_pow
  have mod_ : ((1024 : UInt32) % (1024 <<< log)).toNat = 1024 % (1024 * 2 ^ log.toNat) := by
    rw [UInt32.toNat_mod, toNat]
    rfl
  have block : (superblockBlock log).toNat = 1024 / (1024 * 2 ^ log.toNat) := by
    show (((1024 : UInt32) / (1024 <<< log)).toNat) = _
    rw [UInt32.toNat_div, toNat]
    rfl
  have sectors : (s.bdBlockSize / 512).toNat * 512 = 1024 * 2 ^ log.toNat := by
    rw [size, UInt32.toNat_div, toNat]
    show 1024 * 2 ^ log.toNat / 512 * 512 = _
    omega
  have split : 1024 / (1024 * 2 ^ log.toNat) * (1024 * 2 ^ log.toNat) + 1024 % (1024 * 2 ^ log.toNat) = 1024 :=
    Nat.div_add_mod' 1024 _
  constructor
  · show 1024 ≤ s.bdBlockSize.toNat - ((1024 : UInt32) % (1024 <<< log)).toNat
    rw [size, toNat, mod_]
    rcases one.eq_or_lt with same | larger
    · rw [← same]
    · rw [Nat.mod_eq_of_lt (by omega : 1024 < 1024 * 2 ^ log.toNat)]
      omega
  · intro x below
    show disk ((superblockBlock log).toNat * (s.bdBlockSize / 512).toNat * 512 +
      (x + ((1024 : UInt32) % (1024 <<< log)).toNat)) = disk (1024 + x)
    rw [block, mod_, Nat.mul_assoc, sectors]
    congr 1
    omega

/-- What the first mount asks of the superblock area: if it is read, then the size of a block
fits in 32 bits, and the tables are safe if the superblock is accepted. -/
def FirstMountSafe (disk : Bytes) (answers : Answers) (s : State) : Prop :=
  answers.sbAlloc = true → answers.superBuf = .ok () →
    Ext4Bytes.sLogBlockSize (superblock disk) < 22 ∧
      (answers.bread (superblockBlock (Ext4Bytes.sLogBlockSize (superblock disk))) = true →
        Accepted (superblock disk) → TablesSafe answers s (Ext4Bytes.ext4AllocSbi (superblock disk)))

/-- On a device of 512-byte sectors of which nothing is cached, what is safe is told by the
superblock area. -/
theorem firstMount_safe_iff (native : s.bdBlockSize = 512) (fresh : s.buffers = []) :
    MountSafe disk answers s ↔ FirstMountSafe disk answers s := by
  have same : Ext4Bytes.sLogBlockSize (s.superEs disk answers.stack).bytes = Ext4Bytes.sLogBlockSize (superblock disk) :=
    load32_congr fun x _ high => (superEs_native disk native answers.stack).bytes x (by omega)
  have nonzero : s.bdBlockSize ≠ 0 := by
    rw [native]
    decide
  have small : s.bdBlockSize ≤ 1024 := by
    rw [native]
    decide
  unfold MountSafe FirstMountSafe
  rw [same, and_iff_right nonzero, and_iff_right small]
  refine forall_congr' fun _ => forall_congr' fun _ => and_congr_right fun log => ?_
  generalize Ext4Bytes.sLogBlockSize (superblock disk) = sLogBlockSize at log ⊢
  have size : (s.switch sLogBlockSize).bdBlockSize = 1024 <<< sLogBlockSize := by rw [State.switch]
  have cold : (s.switch sLogBlockSize).buffers = [] := by rw [State.switch, fresh]
  generalize s.switch sLogBlockSize = s₁ at size cold ⊢
  by_cases there : answers.bread (superblockBlock sLogBlockSize) = true
  · have at_ : Es.At (Buffer.superblock _ sLogBlockSize) (superblock disk) := bread_superblock log size
    rw [sbBread_cold cold there, forall_prop_of_true there, ← esSafe_at at_]
    refine ⟨fun safe => safe _ rfl, fun safe bh cached => ?_⟩
    cases cached
    exact safe
  · rw [sbBread_missing cold (Bool.eq_false_iff.2 there)]
    exact iff_of_true nofun fun there' => absurd there' there

end Safe

/-! ## Images -/

/-- A device of 512-byte sectors. -/
def vda : State := ⟨512, 9, []⟩

/-- Memory for everything, every block can be read, and the root inode is not in core. -/
def goodAnswers : Answers := ⟨true, .ok (), fun _ => 0, fun _ => true, true, true, .blank, true, true⟩

/-- A device that is zero but for these bytes of the superblock. -/
def imageOf (bytes : List (Nat × UInt8)) : Bytes := fun x => (bytes.lookup (x - 1024)).getD 0

/-- One group of 8192 blocks of 1 KiB, with so many inodes. -/
def oneGroup (inodesPerGroup : UInt8) : Bytes := imageOf
  [(4, 0x01), (5, 0x20), (20, 1), (33, 0x20), (40, inodesPerGroup), (56, 0x53), (57, 0xEF), (88, 0x80), (96, 0x40)]

/-- With one inode a group, the root inode is of a group that has no descriptor; a block size
of 2^32 bytes is divided by; and on a device that an earlier mount has left at 4 KiB blocks `es` is
the end of `super_buf`. -/
theorem mount_hazards : ext4Mount (oneGroup 1) goodAnswers vda = .error .groupDesc ∧
    ext4Mount (imageOf [(24, 22)]) goodAnswers vda = .error .divideByZero ∧
    ext4Mount (imageOf [(24, 32)]) goodAnswers vda = .error .shift ∧
    ext4Mount (oneGroup 16) goodAnswers ⟨4096, 12, []⟩ = .error .superblock :=
  ⟨rfl, rfl, rfl, remount_hazard rfl rfl (by decide)⟩

end Minus.Fs.Ext4Mount
