/-
# Fs.Ext4Super — the superblock and the group descriptors of a mounted image

`ext4_fill_super` of `kernel/fs/backend/ext4fs/super.c` and the three places that look up
a group descriptor: `ext4_inode_block` and the two functions `ext4_read_bitmap`, of
`inode.c` and of `extent.c`.  Each gives its result with the descriptor that it read
(`Desc`), and an index beyond `s_group_desc` is wild.

`s_group_desc` has one entry for a block of descriptors, and the three places index it
with the number of a group.  They are right exactly on an image of one group whose inode
table has less than 2^32 bytes in front of its last inode (`groups_right_iff`).
-/
import Minus.Fs.Ext4Extent
import Mathlib.Order.CompletePartialOrder
import Mathlib.Order.Interval.Set.Disjoint
import Mathlib.Tactic.IntervalCases

namespace Minus.Fs.Ext4Bytes

set_option autoImplicit false

open Minus.Theory
open Minus.Fs.Ext4 (Errno)

/-! ## struct ext4_super_block -/

def sBlocksCountLo (es : Bytes) : UInt32 := load32 es 4
def sFirstDataBlock (es : Bytes) : UInt32 := load32 es 20
def sLogBlockSize (es : Bytes) : UInt32 := load32 es 24
def sBlocksPerGroup (es : Bytes) : UInt32 := load32 es 32
def sInodesPerGroup (es : Bytes) : UInt32 := load32 es 40
def sMagic (es : Bytes) : UInt16 := load16 es 56
def sFirstIno (es : Bytes) : UInt32 := load32 es 84
def sInodeSize (es : Bytes) : UInt16 := load16 es 88
def sFeatureIncompat (es : Bytes) : UInt32 := load32 es 96

/-- `EXT4_SUPER_MAGIC`. -/
def superMagic : UInt16 := 0xEF53

/-- `EXT4_FEATURE_INCOMPAT_EXTENTS` and `EXT4_FEATURE_INCOMPAT_64BIT`. -/
def featureExtents : UInt32 := 0x40
def feature64bit : UInt32 := 0x80

/-- `struct ext4_sb_info`; a buffer of `s_group_desc` is its `b_data`. -/
structure SbInfo where
  sEs : Bytes
  sGroupDesc : List Bytes
  sInodesPerGroup : UInt32
  sBlocksPerGroup : UInt32
  sDescPerBlock : UInt32
  sGroupsCount : UInt32
  sFirstDataBlock : UInt32
  sLogBlockSize : UInt32
  sInodeSize : UInt32
  sFirstIno : UInt32

/-- `1024 << s_log_block_size`. -/
def SbInfo.blockSize (sbi : SbInfo) : UInt32 := 1024 <<< sbi.sLogBlockSize

/-! ## super.c -/

def ext4CheckSuperblock (es : Bytes) : Except Errno Unit :=
  if sMagic es ≠ superMagic then .error .einval
  else if sFeatureIncompat es &&& feature64bit ≠ 0 then .error .einval
  else if sFeatureIncompat es &&& featureExtents = 0 then .error .einval
  else .ok ()

/-- A descriptor has 32 bytes. -/
def ext4AllocSbi (es : Bytes) : SbInfo :=
  let descPerBlock := (1024 <<< sLogBlockSize es) / 32
  { sEs := es
    sGroupDesc := []
    sInodesPerGroup := sInodesPerGroup es
    sBlocksPerGroup := sBlocksPerGroup es
    sDescPerBlock := if descPerBlock = 0 then 1 else descPerBlock
    sGroupsCount := (sBlocksCountLo es - sFirstDataBlock es + sBlocksPerGroup es - 1) / sBlocksPerGroup es
    sFirstDataBlock := sFirstDataBlock es
    sLogBlockSize := sLogBlockSize es
    sInodeSize := (sInodeSize es).toUInt32
    sFirstIno := sFirstIno es }

/-- How many buffers `s_group_desc` has. -/
def SbInfo.gdBlocks (sbi : SbInfo) : UInt32 := (sbi.sGroupsCount + sbi.sDescPerBlock - 1) / sbi.sDescPerBlock

/-- The loop that reads the descriptor blocks from `blk` on. -/
def readGroupDesc (bread : UInt64 → Option Bytes) (blk : UInt32) : Nat → Except Errno (List Bytes)
  | 0 => .ok []
  | left + 1 =>
      match bread blk.toUInt64 with
      | none => .error .eio
      | some bh => do
          let rest ← readGroupDesc bread (blk + 1) left
          .ok (bh :: rest)

/-- `superBuf` is the superblock as read with the device's own block size, and `bread` reads
with the size that it names.  A failed allocation is a failed mount like any other. -/
def ext4FillSuper (superBuf : Bytes) (bread : UInt64 → Option Bytes) : Except Errno SbInfo :=
  let blockSize : UInt32 := 1024 <<< sLogBlockSize superBuf
  match bread (1024 / blockSize).toUInt64 with
  | none => .error .eio
  | some bh => do
      let es : Bytes := fun x => bh (x + (1024 % blockSize).toNat)
      ext4CheckSuperblock es
      let sbi := ext4AllocSbi es
      let descs ← readGroupDesc bread (sbi.sFirstDataBlock + 1) sbi.gdBlocks.toNat
      .ok { sbi with sGroupDesc := descs }

/-! ## The lookups of a descriptor -/

inductive Fault where
  | wild
  deriving DecidableEq

/-- The descriptor at byte `off` of `s_group_desc[blk]->b_data`. -/
structure Desc where
  blk : Nat
  off : Nat
  deriving DecidableEq

/-- A field of a descriptor, with the descriptor that is read. -/
def SbInfo.load (sbi : SbInfo) (d : Desc) (field : Nat) : Except Fault (Desc × UInt32) :=
  match sbi.sGroupDesc[d.blk]? with
  | some bh => .ok (d, load32 bh (d.off + field))
  | none => .error .wild

/-- `(struct ext4_group_desc *)sbi->s_group_desc[group]->b_data`. -/
def groupDesc (group : UInt32) : Desc := ⟨group.toNat, 0⟩

/-- The block and the offset in it; `bg_inode_table_lo` is at byte 8. -/
def ext4InodeBlock (sbi : SbInfo) (group offsetInGroup : UInt32) : Except Fault (Desc × UInt32 × UInt32) := do
  let (gdp, inodeTable) ← sbi.load (groupDesc group) 8
  let rawOff := offsetInGroup * sbi.sInodeSize
  .ok (gdp, inodeTable + rawOff / sbi.blockSize, rawOff % sbi.blockSize)

/-- The block that `ext4_read_bitmap` of `inode.c` reads. -/
def ext4ReadInodeBitmap (sbi : SbInfo) (group : UInt32) (inodeBitmap : Bool) : Except Fault (Desc × UInt32) :=
  sbi.load (groupDesc group) (if inodeBitmap then 4 else 0)

/-- The block that `ext4_read_bitmap` of `extent.c` reads: the same body once more. -/
def ext4ReadBlockBitmap (sbi : SbInfo) (group : UInt32) (inodeBitmap : Bool) : Except Fault (Desc × UInt32) :=
  sbi.load (groupDesc group) (if inodeBitmap then 4 else 0)

/-- Where `ext4_iget` and `ext4_write_inode` look for an inode. -/
def inodePlace (sbi : SbInfo) (ino : UInt64) : Except Fault (Desc × UInt32 × UInt32) :=
  ext4InodeBlock sbi ((ino - 1) / sbi.sInodesPerGroup.toUInt64).toUInt32
    ((ino - 1) % sbi.sInodesPerGroup.toUInt64).toUInt32

/-! ## The descriptor table -/

/-- Descriptor `g` of the table: entry `g mod s_desc_per_block` of block `g / s_desc_per_block`. -/
def SbInfo.descAt (sbi : SbInfo) (g : Nat) : Desc :=
  ⟨g / sbi.sDescPerBlock.toNat, g % sbi.sDescPerBlock.toNat * 32⟩

/-- The result comes from descriptor `d`, and no index was wild. -/
def UsesDesc {α : Type} (result : Except Fault (Desc × α)) (d : Desc) : Prop := ∃ value, result = .ok (d, value)

def DescriptorsRight (sbi : SbInfo) : Prop :=
  ∀ g < sbi.sGroupsCount, (∀ offset, UsesDesc (ext4InodeBlock sbi g offset) (sbi.descAt g.toNat)) ∧
    ∀ kind, UsesDesc (ext4ReadInodeBitmap sbi g kind) (sbi.descAt g.toNat) ∧
      UsesDesc (ext4ReadBlockBitmap sbi g kind) (sbi.descAt g.toNat)

/-- The bytes of the volume that an inode has. -/
def SbInfo.slot (sbi : SbInfo) (block off : UInt32) : Set Nat :=
  Set.Ico (block.toNat * sbi.blockSize.toNat + off.toNat)
    (block.toNat * sbi.blockSize.toNat + off.toNat + sbi.sInodeSize.toNat)

/-- The numbers of the inodes that the image has. -/
def SbInfo.Ino (sbi : SbInfo) (ino : UInt64) : Prop :=
  1 ≤ ino.toNat ∧ ino.toNat ≤ sbi.sGroupsCount.toNat * sbi.sInodesPerGroup.toNat

def SlotsApart (sbi : SbInfo) : Prop :=
  ∀ i j, sbi.Ino i → sbi.Ino j → i ≠ j → ∀ d b o d' b' o',
    inodePlace sbi i = .ok (d, b, o) → inodePlace sbi j = .ok (d', b', o') →
      Disjoint (sbi.slot b o) (sbi.slot b' o')

/-- How many blocks the inode table of a group has. -/
def SbInfo.tableBlocks (sbi : SbInfo) : Nat :=
  (sbi.sInodesPerGroup.toNat * sbi.sInodeSize.toNat + sbi.blockSize.toNat - 1) / sbi.blockSize.toNat

/-- What the format asks of the superblock and of the descriptors: the size of an inode
divides that of a block, and the inode tables lie on the volume, apart from each other. -/
structure ValidImage (sbi : SbInfo) : Prop where
  log : sbi.sLogBlockSize ≤ 6
  perGroup : 0 < sbi.sInodesPerGroup
  inodes : sbi.sGroupsCount.toNat * sbi.sInodesPerGroup.toNat < 2 ^ 32
  size : 128 ≤ sbi.sInodeSize.toNat
  divides : sbi.sInodeSize.toNat ∣ sbi.blockSize.toNat
  inside : ∀ g < sbi.sGroupsCount, ∀ d table, sbi.load (sbi.descAt g.toNat) 8 = .ok (d, table) →
    table.toNat + sbi.tableBlocks ≤ (sBlocksCountLo sbi.sEs).toNat
  apart : ∀ g < sbi.sGroupsCount, ∀ h < sbi.sGroupsCount, g ≠ h → ∀ d table d' table',
    sbi.load (sbi.descAt g.toNat) 8 = .ok (d, table) → sbi.load (sbi.descAt h.toNat) 8 = .ok (d', table') →
      table.toNat + sbi.tableBlocks ≤ table'.toNat ∨ table'.toNat + sbi.tableBlocks ≤ table.toNat

/-- An entry of a table starts in a block that the table has. -/
theorem div_lt_blocks {size block n i : Nat} (positive : 0 < block) (entry : 0 < size) (below : i < n) :
    i * size / block < (n * size + block - 1) / block := by
  have next : i * size + size ≤ n * size := by
    rw [← Nat.succ_mul]
    exact Nat.mul_le_mul_right _ below
  calc i * size / block < i * size / block + 1 := Nat.lt_succ_self _
    _ = (i * size + block) / block := (Nat.add_div_right _ positive).symm
    _ ≤ _ := Nat.div_le_div_right (by omega)

theorem ValidImage.shift {sbi : SbInfo} (valid : ValidImage sbi) : sbi.sLogBlockSize < 22 :=
  UInt32.lt_of_le_of_lt valid.log (by decide)

section Mounted

variable {superBuf : Bytes} {bread : UInt64 → Option Bytes} {sbi : SbInfo}

theorem length_readGroupDesc {blk : UInt32} {n : Nat} {descs : List Bytes}
    (read : readGroupDesc bread blk n = .ok descs) : descs.length = n := by
  induction n generalizing blk descs with
  | zero =>
      obtain rfl := Except.ok.inj read
      rfl
  | succ n ih =>
      rw [readGroupDesc] at read
      split at read
      · cases read
      · obtain ⟨rest, found, made⟩ := bind_eq_ok.1 read
        obtain rfl := Except.ok.inj made
        rw [List.length_cons, ih found]

/-- What a mount leaves in `s_fs_info`. -/
theorem fillSuper_ok (mounted : ext4FillSuper superBuf bread = .ok sbi) :
    ∃ es descs, sbi = { ext4AllocSbi es with sGroupDesc := descs } ∧
      descs.length = (ext4AllocSbi es).gdBlocks.toNat := by
  unfold ext4FillSuper at mounted
  dsimp only at mounted
  split at mounted
  · cases mounted
  · obtain ⟨_, _, rest⟩ := bind_eq_ok.1 mounted
    obtain ⟨descs, read, made⟩ := bind_eq_ok.1 rest
    exact ⟨_, descs, (Except.ok.inj made).symm, length_readGroupDesc read⟩

theorem mounted_length (mounted : ext4FillSuper superBuf bread = .ok sbi) :
    sbi.sGroupDesc.length = sbi.gdBlocks.toNat := by
  obtain ⟨es, descs, rfl, length⟩ := fillSuper_ok mounted
  exact length

theorem blockSize_toNat (log : sbi.sLogBlockSize < 22) :
    ∃ k, sbi.blockSize.toNat = 1024 * 2 ^ k ∧ k < 22 := by
  have small : sbi.sLogBlockSize.toNat < 22 := UInt32.lt_iff_toNat_lt.1 log
  have power : 2 ^ sbi.sLogBlockSize.toNat ≤ 2 ^ 21 := Nat.pow_le_pow_right (by decide) (by omega)
  have shifted : sbi.blockSize.toNat = 1024 * 2 ^ (sbi.sLogBlockSize.toNat % 32) % 2 ^ 32 := by
    rw [SbInfo.blockSize, UInt32.toNat_shiftLeft, Nat.shiftLeft_eq]
    rfl
  refine ⟨sbi.sLogBlockSize.toNat, ?_, small⟩
  rw [shifted, Nat.mod_eq_of_lt (show sbi.sLogBlockSize.toNat < 32 by omega), Nat.mod_eq_of_lt (by omega)]

/-- Sums of block numbers and offsets may wrap around without leaving the grid of the blocks. -/
theorem blockSize_dvd (log : sbi.sLogBlockSize < 22) : sbi.blockSize.toNat ∣ 2 ^ 32 := by
  obtain ⟨k, size, small⟩ := blockSize_toNat log
  rw [size, show 1024 = 2 ^ 10 from rfl, ← Nat.pow_add]
  exact Nat.pow_dvd_pow 2 (by omega)

theorem blockSize_pos (log : sbi.sLogBlockSize < 22) : 0 < sbi.blockSize.toNat := by
  obtain ⟨k, size, -⟩ := blockSize_toNat log
  have positive := Nat.two_pow_pos k
  omega

theorem mounted_descPerBlock (mounted : ext4FillSuper superBuf bread = .ok sbi) (log : sbi.sLogBlockSize < 22) :
    sbi.sDescPerBlock.toNat = sbi.blockSize.toNat / 32 := by
  obtain ⟨k, size, -⟩ := blockSize_toNat log
  have positive := Nat.two_pow_pos k
  obtain ⟨es, descs, rfl, -⟩ := fillSuper_ok mounted
  have whole : ((1024 : UInt32) <<< sLogBlockSize es / 32).toNat = 1024 * 2 ^ k / 32 := by
    rw [UInt32.toNat_div]
    exact congrArg (· / 32) size
  have nonzero : (1024 : UInt32) <<< sLogBlockSize es / 32 ≠ 0 := fun zero => by
    rw [zero] at whole
    change 0 = _ at whole
    omega
  show (if _ = (0 : UInt32) then (1 : UInt32) else _).toNat = _
  rw [if_neg nonzero, whole]
  exact congrArg (· / 32) size.symm

/-! ## One group -/

variable (mounted : ext4FillSuper superBuf bread = .ok sbi) (valid : ValidImage sbi)

include mounted valid

theorem descPerBlock_large : 32 ≤ sbi.sDescPerBlock.toNat := by
  obtain ⟨k, size, -⟩ := blockSize_toNat valid.shift
  have positive := Nat.two_pow_pos k
  rw [mounted_descPerBlock mounted valid.shift, size]
  omega

/-- The second group gets the first descriptor of another block. -/
theorem groups_le_one (right : DescriptorsRight sbi) : sbi.sGroupsCount.toNat ≤ 1 := by
  by_contra many
  have large := descPerBlock_large mounted valid
  obtain ⟨value, used⟩ := ((right 1 (UInt32.lt_iff_toNat_lt.2 (Nat.not_le.1 many))).2 true).1
  have other : groupDesc 1 ≠ sbi.descAt 1 := fun same => by
    have offsets := congrArg Desc.off same
    change 0 = 1 % sbi.sDescPerBlock.toNat * 32 at offsets
    rw [Nat.mod_eq_of_lt (by omega)] at offsets
    omega
  unfold ext4ReadInodeBitmap SbInfo.load at used
  split at used
  · exact other (congrArg Prod.fst (Except.ok.inj used))
  · cases used

/-- An image with a group has the first descriptor. -/
theorem first_desc (one : sbi.sGroupsCount.toNat = 1) : ∃ bh, sbi.sGroupDesc[0]? = some bh := by
  have large := descPerBlock_large mounted valid
  have wide := sbi.sDescPerBlock.toNat_lt
  have blocks : sbi.gdBlocks.toNat = 1 := by
    have sum : (sbi.sGroupsCount + sbi.sDescPerBlock - 1).toNat = sbi.sDescPerBlock.toNat := by
      have same : sbi.sGroupsCount = 1 := UInt32.toNat_inj.1 one
      rw [same, UInt32.add_comm, UInt32.add_sub_cancel]
    rw [SbInfo.gdBlocks, UInt32.toNat_div, sum, Nat.div_self (by omega)]
  refine ⟨_, List.getElem?_eq_getElem (i := 0) ?_⟩
  rw [mounted_length mounted, blocks]
  exact Nat.one_pos

theorem descriptors_right (one : sbi.sGroupsCount.toNat ≤ 1) : DescriptorsRight sbi := by
  intro g below
  have first : g.toNat = 0 ∧ sbi.sGroupsCount.toNat = 1 := by
    have := UInt32.lt_iff_toNat_lt.1 below
    omega
  obtain ⟨bh, here⟩ := first_desc mounted valid first.2
  have same : sbi.descAt g.toNat = groupDesc g := by
    rw [SbInfo.descAt, groupDesc, first.1, Nat.zero_div, Nat.zero_mod]
  have load (field : Nat) : sbi.load (groupDesc g) field = .ok (groupDesc g, load32 bh (0 + field)) := by
    rw [SbInfo.load, groupDesc, first.1, here]
  rw [same]
  refine ⟨fun offset => ?_, fun kind => ⟨⟨_, load _⟩, ⟨_, load _⟩⟩⟩
  rw [ext4InodeBlock, load]
  exact ⟨_, rfl⟩

omit mounted valid in
/-- The numbers that `ext4_iget` takes an inode number apart into. -/
theorem group_offset (one : sbi.sGroupsCount.toNat = 1) {i : UInt64} (ino : sbi.Ino i) :
    ((i - 1) / sbi.sInodesPerGroup.toUInt64).toUInt32 = 0 ∧
      ((i - 1) % sbi.sInodesPerGroup.toUInt64).toUInt32.toNat = i.toNat - 1 := by
  obtain ⟨low, high⟩ := ino
  rw [one, Nat.one_mul] at high
  have perGroup := sbi.sInodesPerGroup.toNat_lt
  have wide := i.toNat_lt
  have before : (i - 1).toNat = i.toNat - 1 := UInt64.toNat_sub_of_le _ _ (UInt64.le_iff_toNat_le.2 low)
  constructor
  · rw [← UInt32.toNat_inj, UInt64.toNat_toUInt32, UInt64.toNat_div, before, UInt32.toNat_toUInt64,
      Nat.div_eq_of_lt (by omega)]
    rfl
  · rw [UInt64.toNat_toUInt32, UInt64.toNat_mod, before, UInt32.toNat_toUInt64,
      Nat.mod_eq_of_lt (show i.toNat - 1 < sbi.sInodesPerGroup.toNat by omega), Nat.mod_eq_of_lt (by omega)]

/-- Where the slots of the only group start. -/
theorem slot_start (one : sbi.sGroupsCount.toNat = 1) :
    ∃ table, ∀ i d b o, sbi.Ino i → inodePlace sbi i = .ok (d, b, o) →
      b.toNat * sbi.blockSize.toNat + o.toNat = table + (i.toNat - 1) * sbi.sInodeSize.toNat % 2 ^ 32 := by
  obtain ⟨bh, here⟩ := first_desc mounted valid one
  refine ⟨(load32 bh 8).toNat * sbi.blockSize.toNat, fun i d b o ino place => ?_⟩
  obtain ⟨group, offset⟩ := group_offset one ino
  have positive := ino.1
  have last := ino.2
  rw [one, Nat.one_mul] at last
  have perGroup := sbi.sInodesPerGroup.toNat_lt
  unfold inodePlace ext4InodeBlock at place
  rw [group] at place
  obtain ⟨⟨gdp, table⟩, loaded, made⟩ := bind_eq_ok.1 place
  obtain ⟨-, rfl, rfl⟩ : gdp = d ∧ _ = b ∧ _ = o := by simpa using made
  have inside := valid.inside 0 (UInt32.lt_iff_toNat_lt.2 (by rw [one]; exact Nat.one_pos)) gdp table (by
    rw [SbInfo.descAt, show (0 : UInt32).toNat = 0 from rfl, Nat.zero_div, Nat.zero_mod]
    exact loaded)
  obtain ⟨-, rfl⟩ : groupDesc 0 = gdp ∧ load32 bh 8 = table := by simpa [SbInfo.load, groupDesc, here] using loaded
  generalize load32 bh 8 = table at inside ⊢
  generalize ((i - 1) % sbi.sInodesPerGroup.toUInt64).toUInt32 = at_ at offset ⊢
  have raw : (at_ * sbi.sInodeSize).toNat = (i.toNat - 1) * sbi.sInodeSize.toNat % 2 ^ 32 := by
    rw [UInt32.toNat_mul, offset]
  have room : (at_ * sbi.sInodeSize).toNat / sbi.blockSize.toNat < sbi.tableBlocks := by
    refine Nat.lt_of_le_of_lt (Nat.div_le_div_right (raw.trans_le (Nat.mod_le _ _))) ?_
    exact div_lt_blocks (blockSize_pos valid.shift) (Nat.lt_of_lt_of_le (by decide) valid.size) (by omega)
  have volume := (sBlocksCountLo sbi.sEs).toNat_lt
  rw [UInt32.toNat_add, UInt32.toNat_div, UInt32.toNat_mod, Nat.mod_eq_of_lt (by omega), Nat.add_mul,
    Nat.add_assoc, Nat.mul_comm (_ / _), Nat.div_add_mod, raw]

/-- Without a wrap the inodes of the only group are apart. -/
theorem slots_apart (one : sbi.sGroupsCount.toNat = 1)
    (straight : (sbi.sInodesPerGroup.toNat - 1) * sbi.sInodeSize.toNat < 2 ^ 32) : SlotsApart sbi := by
  intro i j inoI inoJ ne d b o d' b' o' placeI placeJ
  obtain ⟨table, start⟩ := slot_start mounted valid one
  have startI := start _ _ _ _ inoI placeI
  have startJ := start _ _ _ _ inoJ placeJ
  have raw {k : UInt64} (ino : sbi.Ino k) :
      (k.toNat - 1) * sbi.sInodeSize.toNat % 2 ^ 32 = (k.toNat - 1) * sbi.sInodeSize.toNat := by
    have last := ino.2
    rw [one, Nat.one_mul] at last
    exact Nat.mod_eq_of_lt (Nat.lt_of_le_of_lt (Nat.mul_le_mul_right _ (Nat.sub_le_sub_right last 1)) straight)
  have step {k l : Nat} (before : k < l) :
      k * sbi.sInodeSize.toNat + sbi.sInodeSize.toNat ≤ l * sbi.sInodeSize.toNat := by
    rw [← Nat.succ_mul]
    exact Nat.mul_le_mul_right _ before
  rw [raw inoI] at startI
  rw [raw inoJ] at startJ
  have other : i.toNat ≠ j.toNat := fun same => ne (UInt64.toNat_inj.1 same)
  have := inoI.1
  have := inoJ.1
  unfold SbInfo.slot
  rw [startI, startJ, Set.Ico_disjoint_Ico]
  rcases Nat.lt_or_gt_of_ne other with before | after
  · have := step (show i.toNat - 1 < j.toNat - 1 by omega)
    omega
  · have := step (show j.toNat - 1 < i.toNat - 1 by omega)
    omega

/-- The inode whose slot would start 2^32 bytes into the table gets the slot of the first. -/
theorem straight_of_apart (one : sbi.sGroupsCount.toNat = 1) (right : DescriptorsRight sbi)
    (apart : SlotsApart sbi) : (sbi.sInodesPerGroup.toNat - 1) * sbi.sInodeSize.toNat < 2 ^ 32 := by
  by_contra far
  obtain ⟨n, whole⟩ : sbi.sInodeSize.toNat ∣ 2 ^ 32 := valid.divides.trans (blockSize_dvd valid.shift)
  have positive : 0 < sbi.sInodeSize.toNat := Nat.lt_of_lt_of_le (by decide) valid.size
  have below : n ≤ sbi.sInodesPerGroup.toNat - 1 := by
    refine Nat.le_of_mul_le_mul_right ?_ positive
    rw [Nat.mul_comm, ← whole]
    exact Nat.not_lt.1 far
  have some_ : 0 < n := Nat.pos_of_ne_zero fun zero => by
    rw [zero] at whole
    omega
  have width := sbi.sInodesPerGroup.toNat_lt
  have perGroup : 0 < sbi.sInodesPerGroup.toNat := UInt32.lt_iff_toNat_lt.1 valid.perGroup
  have number : (UInt64.ofNat (n + 1)).toNat = n + 1 := by
    rw [UInt64.toNat_ofNat', Nat.mod_eq_of_lt (by omega)]
  have inoI : sbi.Ino 1 := ⟨Nat.le_refl 1, by rw [one, Nat.one_mul]; exact perGroup⟩
  have inoJ : sbi.Ino (UInt64.ofNat (n + 1)) := by
    refine ⟨by omega, ?_⟩
    rw [one, Nat.one_mul, number]
    omega
  have found {i : UInt64} (ino : sbi.Ino i) : ∃ d b o, inodePlace sbi i = .ok (d, b, o) := by
    obtain ⟨⟨b, o⟩, used⟩ := (right 0 (UInt32.lt_iff_toNat_lt.2 (by rw [one]; exact Nat.one_pos))).1
      ((i - 1) % sbi.sInodesPerGroup.toUInt64).toUInt32
    refine ⟨sbi.descAt (0 : UInt32).toNat, b, o, ?_⟩
    rw [inodePlace, (group_offset one ino).1]
    exact used
  obtain ⟨d, b, o, placeI⟩ := found inoI
  obtain ⟨d', b', o', placeJ⟩ := found inoJ
  obtain ⟨table, start⟩ := slot_start mounted valid one
  have startI := start _ _ _ _ inoI placeI
  have startJ := start _ _ _ _ inoJ placeJ
  have disjoint := apart 1 (UInt64.ofNat (n + 1)) inoI inoJ (fun same => by
    have := congrArg UInt64.toNat same
    rw [number] at this
    change 1 = n + 1 at this
    omega) _ _ _ _ _ _ placeI placeJ
  unfold SbInfo.slot at disjoint
  rw [number, Nat.add_sub_cancel, Nat.mul_comm n, ← whole, Nat.mod_self] at startJ
  rw [show (1 : UInt64).toNat - 1 = 0 from rfl, Nat.zero_mul, Nat.zero_mod] at startI
  rw [startI, startJ, Set.Ico_disjoint_Ico] at disjoint
  omega

/-- **When the descriptors and the inodes are the right ones.** -/
theorem groups_right_iff : DescriptorsRight sbi ∧ SlotsApart sbi ↔ sbi.sGroupsCount.toNat ≤ 1 ∧
    (sbi.sGroupsCount.toNat = 1 → (sbi.sInodesPerGroup.toNat - 1) * sbi.sInodeSize.toNat < 2 ^ 32) := by
  constructor
  · rintro ⟨right, apart⟩
    exact ⟨groups_le_one mounted valid right, fun one => straight_of_apart mounted valid one right apart⟩
  · rintro ⟨few, straight⟩
    refine ⟨descriptors_right mounted valid few, ?_⟩
    rcases Nat.le_one_iff_eq_zero_or_eq_one.1 few with none_ | one
    · intro i _ ino
      have low := ino.1
      have high := ino.2
      rw [none_, Nat.zero_mul] at high
      omega
    · exact slots_apart mounted valid one (straight one)

end Mounted

/-! ### Images of one and of two groups -/

/-- A superblock with 8192 blocks of 1024 bytes and 128 inodes for a group. -/
def smallSuper (groups : UInt32) : Bytes :=
  let es : Bytes := fun _ => 0
  let es := store32 es 4 (1 + 8192 * groups)
  let es := store32 es 20 1
  let es := store32 es 32 8192
  let es := store32 es 40 128
  let es := store16 es 56 superMagic
  let es := store16 es 88 128
  store32 es 96 featureExtents

/-- The descriptors of two groups, with the inode tables from block 5 and from block 8197 on. -/
def smallDescs : Bytes :=
  let bh : Bytes := fun _ => 0
  let bh := store32 (store32 (store32 bh 0 3) 4 4) 8 5
  store32 (store32 (store32 bh 32 8195) 36 8196) 40 8197

def smallDisk (groups : UInt32) (nr : UInt64) : Option Bytes :=
  some (if nr = 1 then smallSuper groups else if nr = 2 then smallDescs else fun _ => 0)

def smallSbi (groups : UInt32) : SbInfo :=
  { ext4AllocSbi (smallSuper groups) with sGroupDesc := [smallDescs] }

theorem smallSbi_mounted {groups : UInt32} (known : groups = 1 ∨ groups = 2) :
    ext4FillSuper (smallSuper groups) (smallDisk groups) = .ok (smallSbi groups) := by
  rcases known with rfl | rfl <;> rfl

/-- The inode tables of the two groups. -/
theorem smallSbi_tables {groups g table : UInt32} (known : groups = 1 ∨ groups = 2) (below : g.toNat < 2)
    {d : Desc} (loaded : (smallSbi groups).load ((smallSbi groups).descAt g.toNat) 8 = .ok (d, table)) :
    table = if g = 0 then 5 else 8197 := by
  have number : g = 0 ∨ g = 1 := by
    rw [← UInt32.toNat_inj, ← UInt32.toNat_inj]
    show g.toNat = 0 ∨ g.toNat = 1
    omega
  have first : (smallSbi groups).load ⟨0, 0⟩ 8 = .ok (⟨0, 0⟩, 5) := by rfl
  have second : (smallSbi groups).load ⟨0, 32⟩ 8 = .ok (⟨0, 32⟩, 8197) := by rfl
  have entries : (smallSbi groups).sDescPerBlock = 32 := by rcases known with rfl | rfl <;> rfl
  unfold SbInfo.descAt at loaded
  rw [entries] at loaded
  rcases number with rfl | rfl
  · exact congrArg Prod.snd (Except.ok.inj (loaded.symm.trans first))
  · exact congrArg Prod.snd (Except.ok.inj (loaded.symm.trans second))

theorem smallSbi_valid {groups : UInt32} (known : groups = 1 ∨ groups = 2) : ValidImage (smallSbi groups) := by
  have few : (smallSbi groups).sGroupsCount.toNat = groups.toNat := by rcases known with rfl | rfl <;> rfl
  have room : (sBlocksCountLo (smallSbi groups).sEs).toNat = 1 + 8192 * groups.toNat := by
    rcases known with rfl | rfl <;> rfl
  have two : groups.toNat ≤ 2 := by rcases known with rfl | rfl <;> decide
  have width : (smallSbi groups).tableBlocks = 16 := by rcases known with rfl | rfl <;> rfl
  have bound {g : UInt32} (below : g < (smallSbi groups).sGroupsCount) : g.toNat < groups.toNat :=
    (UInt32.lt_iff_toNat_lt.1 below).trans_eq few
  have perGroup : (smallSbi groups).sInodesPerGroup = 128 := by rcases known with rfl | rfl <;> rfl
  have size : (smallSbi groups).sInodeSize = 128 := by rcases known with rfl | rfl <;> rfl
  have log : (smallSbi groups).sLogBlockSize = 0 := by rcases known with rfl | rfl <;> rfl
  refine ⟨by rw [log]; decide, by rw [perGroup]; decide, ?_, by rw [size]; decide, ?_, ?_, ?_⟩
  · rw [few, perGroup]
    show _ * 128 < _
    omega
  · rw [size, SbInfo.blockSize, log]
    decide
  · intro g below d table loaded
    have inside := bound below
    rw [smallSbi_tables known (by omega) loaded, width, room]
    split
    · show 5 + 16 ≤ _
      omega
    · rename_i later
      have : g.toNat ≠ 0 := fun zero => later (UInt32.toNat_inj.1 zero)
      show 8197 + 16 ≤ _
      omega
  · intro g below h below' ne d table d' table' loaded loaded'
    have inside := bound below
    have inside' := bound below'
    rw [smallSbi_tables known (by omega) loaded, smallSbi_tables known (by omega) loaded', width]
    by_cases first : g = 0
    · rw [if_pos first, if_neg fun same => ne (first.trans same.symm)]
      exact .inl (by decide)
    · have : g.toNat ≠ 0 := fun zero => first (UInt32.toNat_inj.1 zero)
      have other : h = 0 := by
        rw [← UInt32.toNat_inj]
        have : g.toNat ≠ h.toNat := fun same => ne (UInt32.toNat_inj.1 same)
        show h.toNat = 0
        omega
      rw [if_neg first, if_pos other]
      exact .inr (by decide)

theorem groups_right_one :
    ext4FillSuper (smallSuper 1) (smallDisk 1) = .ok (smallSbi 1) ∧ ValidImage (smallSbi 1) ∧
      DescriptorsRight (smallSbi 1) ∧ SlotsApart (smallSbi 1) := by
  have mounted := smallSbi_mounted (.inl rfl : (1 : UInt32) = 1 ∨ _)
  have valid := smallSbi_valid (.inl rfl : (1 : UInt32) = 1 ∨ _)
  exact ⟨mounted, valid, (groups_right_iff mounted valid).2 ⟨by decide, fun _ => by decide⟩⟩

/-- **The second group of an image**: its descriptor is entry 1 of the only descriptor
block, and the code looks for block 1 of the table. -/
theorem second_group_wild :
    ext4FillSuper (smallSuper 2) (smallDisk 2) = .ok (smallSbi 2) ∧ ValidImage (smallSbi 2) ∧
      ext4ReadBlockBitmap (smallSbi 2) 1 false = .error .wild ∧
      ¬ (DescriptorsRight (smallSbi 2) ∧ SlotsApart (smallSbi 2)) := by
  refine ⟨smallSbi_mounted (.inr rfl), smallSbi_valid (.inr rfl), rfl, fun ⟨right, _⟩ => ?_⟩
  obtain ⟨value, used⟩ := ((right 1 (by decide)).2 false).2
  cases used

end Minus.Fs.Ext4Bytes
