/-
# Fs.Ext4Inode — inodes between the inode table and memory

`ext4_iget` and `ext4_write_inode` of `kernel/fs/backend/ext4fs/inode.c` on the buffers of
the inode table.  `struct ext4_inode` is 140 bytes long (`rawSize`), 12 more than the
smallest inode of the format, and the encoder clears all of them before it fills in the
fields that `struct inode` has.

A write stays inside the inode's own slot exactly if the slot has room for the 140 bytes or
the bytes behind it are zero anyway (`own_slot_iff`); a load and a store are the identity
exactly if the fields that nobody keeps are zero (`load_store_iff`).
-/
import Minus.Fs.Ext4Super

namespace Minus.Fs.Ext4Bytes

set_option autoImplicit false

open Minus.Theory
open Minus.Fs.Ext4 (Errno)

/-! ## inode.c -/

/-- `sizeof(struct ext4_inode)`. -/
def rawSize : Nat := 140

/-- The fields are taken from the inode at address `raw`, and `i_data` from its `i_block`. -/
def ext4RawInodeToInode (inode : Inode) (m : Bytes) (raw : Nat) : Inode :=
  { inode with
    iMode := load16 m raw
    iNlink := (load16 m (raw + 26)).toUInt32
    iUid := (load16 m (raw + 2)).toUInt32
    iGid := (load16 m (raw + 24)).toUInt32
    iSize := (load32 m (raw + 108)).toUInt64 <<< 32 ||| (load32 m (raw + 4)).toUInt64
    iBlocks := (load32 m (raw + 28)).toUInt64
    rawInode := copy inode.rawInode 0 rawSize m raw
    iData := copy inode.iData 0 60 m (raw + 40) }

/-- The inode at address `raw` is written over. -/
def ext4InodeToRawInode (inode : Inode) (m : Bytes) (raw : Nat) : Bytes :=
  let m := clear m raw rawSize
  let m := store16 m raw inode.iMode
  let m := store16 m (raw + 2) inode.iUid.toUInt16
  let m := store16 m (raw + 24) inode.iGid.toUInt16
  let m := store32 m (raw + 4) (inode.iSize &&& 0xffffffff).toUInt32
  let m := store32 m (raw + 108) (inode.iSize >>> 32).toUInt32
  let m := store16 m (raw + 26) inode.iNlink.toUInt16
  let m := store32 m (raw + 28) inode.iBlocks.toUInt32
  copy m (raw + 40) 60 inode.iData 0

/-- `bread`: `b_data` of the buffer of a block with the memory behind it, or no buffer. -/
abbrev Buffers := UInt64 → Option Bytes

/-- An inode that `iget` has just made. -/
def newInode (ino : UInt64) : Inode where
  iIno := ino
  iMode := 0
  iNlink := 0
  iUid := 0
  iGid := 0
  iSize := 0
  iBlocks := 0
  iDirty := false
  rawInode := fun _ => 0
  iData := fun _ => 0

/-- `cached` is what `iget` finds; a cached inode with a mode is returned as it is. -/
def ext4Iget (sbi : SbInfo) (bread : Buffers) (cached : Option Inode) (ino : UInt64) :
    Except Fault (Option Inode) :=
  let inode := cached.getD (newInode ino)
  if inode.iMode ≠ 0 then .ok (some inode)
  else do
    let (_, block, off) ← inodePlace sbi ino
    match bread block.toUInt64 with
    | none => .ok none
    | some bh => .ok (some (ext4RawInodeToInode inode bh off.toNat))

def ext4WriteInode (sbi : SbInfo) (bread : Buffers) (inode : Inode) :
    Except Fault (Buffers × Except Errno Unit) := do
  let (_, block, off) ← inodePlace sbi inode.iIno
  match bread block.toUInt64 with
  | none => .ok (bread, .error .eio)
  | some bh =>
      .ok (Function.update bread block.toUInt64 (some (ext4InodeToRawInode inode bh off.toNat)), .ok ())

/-! ## The bytes of an inode -/

/-- The bytes that the encoder leaves zero: the times, flags, generation, access control
list and the fields of the system that made the image. -/
def Lost (k : Nat) : Prop := 8 ≤ k ∧ k < 24 ∨ 32 ≤ k ∧ k < 40 ∨ 100 ≤ k ∧ k < 108 ∨ 112 ≤ k ∧ k < 140

instance (k : Nat) : Decidable (Lost k) := inferInstanceAs (Decidable (_ ∨ _))

/-- The byte is one of a field that the two inodes differ in. -/
def OfChanged (inode inode' : Inode) (k : Nat) : Prop :=
  inode'.iSize ≠ inode.iSize ∧ (4 ≤ k ∧ k < 8 ∨ 108 ≤ k ∧ k < 112) ∨
    inode'.iNlink ≠ inode.iNlink ∧ 26 ≤ k ∧ k < 28 ∨
    inode'.iBlocks ≠ inode.iBlocks ∧ 28 ≤ k ∧ k < 32 ∨
    (∃ j < 60, inode'.iData j ≠ inode.iData j) ∧ 40 ≤ k ∧ k < 100

/-- At most the size, the link count, the block count and the extent map differ. -/
structure SameOwner (inode inode' : Inode) : Prop where
  iIno : inode'.iIno = inode.iIno
  iMode : inode'.iMode = inode.iMode
  iUid : inode'.iUid = inode.iUid
  iGid : inode'.iGid = inode.iGid

section Encode

variable {inode inode' : Inode} {m : Bytes} {raw x k : Nat}

theorem toRaw_outside (outside : x ∉ Set.Ico raw (raw + rawSize)) : ext4InodeToRawInode inode m raw x = m x := by
  have far : x < raw ∨ raw + 140 ≤ x := by
    rw [Set.mem_Ico, rawSize] at outside
    omega
  unfold ext4InodeToRawInode
  rw [copy_outside, store32_outside, store16_outside, store32_outside, store32_outside, store16_outside,
    store16_outside, store16_outside, clear_outside _ outside]
  all_goals
    rw [Set.mem_Ico]
    omega

theorem toRaw_lost (lost : Lost k) : ext4InodeToRawInode inode m raw (raw + k) = 0 := by
  unfold Lost at lost
  unfold ext4InodeToRawInode
  rw [copy_outside, store32_outside, store16_outside, store32_outside, store32_outside, store16_outside,
    store16_outside, store16_outside, clear_inside]
  all_goals
    first
    | rw [Set.mem_Ico, rawSize]
    | rw [Set.mem_Ico]
    omega

/-- A half of the size. -/
theorem size_halves (hi lo : UInt32) :
    ((hi.toUInt64 <<< 32 ||| lo.toUInt64) &&& 0xffffffff).toUInt32 = lo ∧
      ((hi.toUInt64 <<< 32 ||| lo.toUInt64) >>> 32).toUInt32 = hi := by
  have high := hi.toNat_lt
  have low := lo.toNat_lt
  have sum : (hi.toUInt64 <<< 32 ||| lo.toUInt64).toNat = 2 ^ 32 * hi.toNat + lo.toNat := by
    have shifted : (hi.toUInt64 <<< 32).toNat = 2 ^ 32 * hi.toNat := by
      rw [UInt64.toNat_shiftLeft, UInt32.toNat_toUInt64, Nat.shiftLeft_eq]
      show hi.toNat * 2 ^ 32 % 2 ^ 64 = _
      omega
    rw [UInt64.toNat_or, shifted, UInt32.toNat_toUInt64, ← Nat.two_pow_add_eq_or_of_lt low]
  constructor
  · rw [← UInt32.toNat_inj, UInt64.toNat_toUInt32, UInt64.toNat_and, sum]
    show ((2 ^ 32 * hi.toNat + lo.toNat) &&& (2 ^ 32 - 1)) % 2 ^ 32 = _
    rw [Nat.and_two_pow_sub_one_eq_mod]
    omega
  · rw [← UInt32.toNat_inj, UInt64.toNat_toUInt32, UInt64.toNat_shiftRight, sum]
    show ((2 ^ 32 * hi.toNat + lo.toNat) >>> 32) % 2 ^ 32 = _
    rw [Nat.shiftRight_eq_div_pow]
    omega

/-- The fields that `struct inode` has are written as they were loaded. -/
theorem toRaw_kept (small : k < 140) (kept : ¬ Lost k)
    (same : SameOwner (ext4RawInodeToInode inode m raw) inode')
    (unchanged : ¬ OfChanged (ext4RawInodeToInode inode m raw) inode' k) :
    ext4InodeToRawInode inode' m raw (raw + k) = m (raw + k) := by
  obtain ⟨-, mode, uid, gid⟩ := same
  unfold Lost at kept
  unfold OfChanged at unchanged
  push Not at unchanged
  obtain ⟨size, nlink, blocks, data⟩ := unchanged
  unfold ext4InodeToRawInode
  by_cases inBlock : 40 ≤ k ∧ k < 100
  · have byte : inode'.iData (k - 40) = (ext4RawInodeToInode inode m raw).iData (k - 40) := by
      by_contra differs
      exact absurd inBlock.2 (Nat.not_lt.2 (data ⟨k - 40, by omega, differs⟩ inBlock.1))
    rw [copy_inside _ _ _ (by rw [Set.mem_Ico]; omega), show 0 + (raw + k - (raw + 40)) = k - 40 by omega, byte]
    show copy inode.iData 0 60 m (raw + 40) (k - 40) = _
    rw [copy_inside _ _ _ (by rw [Set.mem_Ico]; omega)]
    congr 1
    omega
  rw [copy_outside _ _ _ (by rw [Set.mem_Ico]; omega)]
  by_cases inBlocks : 28 ≤ k ∧ k < 32
  · have field : inode'.iBlocks = (load32 m (raw + 28)).toUInt64 := by
      by_contra differs
      have := blocks differs
      omega
    rw [field, UInt32.toUInt32_toUInt64]
    exact store32_load32 m _ (by rw [Set.mem_Ico]; omega)
  rw [store32_outside _ _ (by rw [Set.mem_Ico]; omega)]
  by_cases inLinks : 26 ≤ k ∧ k < 28
  · have field : inode'.iNlink = (load16 m (raw + 26)).toUInt32 := by
      by_contra differs
      have := nlink differs
      omega
    rw [field, UInt16.toUInt16_toUInt32]
    exact store16_load16 m _ (by rw [Set.mem_Ico]; omega)
  rw [store16_outside _ _ (by rw [Set.mem_Ico]; omega)]
  have iSize (inside : 4 ≤ k ∧ k < 8 ∨ 108 ≤ k ∧ k < 112) :
      inode'.iSize = (load32 m (raw + 108)).toUInt64 <<< 32 ||| (load32 m (raw + 4)).toUInt64 := by
    by_contra differs
    have := size differs
    omega
  by_cases inHigh : 108 ≤ k ∧ k < 112
  · rw [iSize (.inr inHigh), (size_halves _ _).2]
    exact store32_load32 m _ (by rw [Set.mem_Ico]; omega)
  rw [store32_outside _ _ (by rw [Set.mem_Ico]; omega)]
  by_cases inLow : 4 ≤ k ∧ k < 8
  · rw [iSize (.inl inLow), (size_halves _ _).1]
    exact store32_load32 m _ (by rw [Set.mem_Ico]; omega)
  rw [store32_outside _ _ (by rw [Set.mem_Ico]; omega)]
  by_cases inGid : 24 ≤ k ∧ k < 26
  · rw [gid]
    show store16 _ _ (load16 m (raw + 24)).toUInt32.toUInt16 _ = _
    rw [UInt16.toUInt16_toUInt32]
    exact store16_load16 m _ (by rw [Set.mem_Ico]; omega)
  rw [store16_outside _ _ (by rw [Set.mem_Ico]; omega)]
  by_cases inUid : 2 ≤ k ∧ k < 4
  · rw [uid]
    show store16 _ _ (load16 m (raw + 2)).toUInt32.toUInt16 _ = _
    rw [UInt16.toUInt16_toUInt32]
    exact store16_load16 m _ (by rw [Set.mem_Ico]; omega)
  rw [store16_outside _ _ (by rw [Set.mem_Ico]; omega), mode]
  exact store16_load16 m _ (by rw [Set.mem_Ico]; omega)

end Encode

/-! ## Whose bytes a write changes -/

/-- The write changes at most bytes of the inode's slot in the buffer of its block, and none
behind the end of the buffer. -/
def WritesOwnSlot (sbi : SbInfo) (bread : Buffers) (inode : Inode) : Prop :=
  ∃ d block off bread' ret, inodePlace sbi inode.iIno = .ok (d, block, off) ∧
    ext4WriteInode sbi bread inode = .ok (bread', ret) ∧
    (∀ nr, nr ≠ block.toUInt64 → bread' nr = bread nr) ∧
    ∀ bh, bread block.toUInt64 = some bh → ∃ bh', bread' block.toUInt64 = some bh' ∧
      ∀ x, bh' x ≠ bh x → x ∈ Set.Ico off.toNat (off.toNat + sbi.sInodeSize.toNat) ∧ x < sbi.blockSize.toNat

/-- `s_group_desc` has an entry for the group, and what the encoder clears behind the slot is
zero already. -/
def ClearBehind (sbi : SbInfo) (bread : Buffers) (inode : Inode) : Prop :=
  ∃ d block off, inodePlace sbi inode.iIno = .ok (d, block, off) ∧
    ∀ bh, bread block.toUInt64 = some bh → rawSize ≤ sbi.sInodeSize.toNat ∨
      ∀ k, sbi.sInodeSize.toNat ≤ k → k < rawSize → bh (off.toNat + k) = 0

section Write

variable {sbi : SbInfo} {bread : Buffers} {inode : Inode} {d : Desc} {block off : UInt32} {ino : UInt64}

/-- A slot does not cross the end of its block. -/
theorem place_inside (log : sbi.sLogBlockSize < 22) (divides : sbi.sInodeSize.toNat ∣ sbi.blockSize.toNat)
    (place : inodePlace sbi ino = .ok (d, block, off)) : off.toNat + sbi.sInodeSize.toNat ≤ sbi.blockSize.toNat := by
  obtain ⟨⟨gdp, table⟩, -, made⟩ := bind_eq_ok.1 place
  generalize ((ino - 1) % sbi.sInodesPerGroup.toUInt64).toUInt32 = number at made
  obtain rfl : number * sbi.sInodeSize % sbi.blockSize = off := congrArg (·.2.2) (Except.ok.inj made)
  have grid : sbi.sInodeSize.toNat ∣ (number * sbi.sInodeSize % sbi.blockSize).toNat := by
    rw [UInt32.toNat_mod, UInt32.toNat_mul, Nat.dvd_mod_iff divides, Nat.dvd_mod_iff (divides.trans (blockSize_dvd log))]
    exact Nat.dvd_mul_left ..
  have below : (number * sbi.sInodeSize % sbi.blockSize).toNat < sbi.blockSize.toNat := by
    rw [UInt32.toNat_mod]
    exact Nat.mod_lt _ (blockSize_pos log)
  obtain ⟨a, first⟩ := grid
  obtain ⟨b, last⟩ := divides
  rw [first, last] at below ⊢
  have := Nat.lt_of_mul_lt_mul_left below
  calc sbi.sInodeSize.toNat * a + sbi.sInodeSize.toNat = sbi.sInodeSize.toNat * (a + 1) := (Nat.mul_succ ..).symm
    _ ≤ _ := Nat.mul_le_mul_left _ this

theorem writeInode_buffer {bh : Bytes} (place : inodePlace sbi inode.iIno = .ok (d, block, off))
    (buffer : bread block.toUInt64 = some bh) : ext4WriteInode sbi bread inode =
      .ok (Function.update bread block.toUInt64 (some (ext4InodeToRawInode inode bh off.toNat)), .ok ()) := by
  rw [ext4WriteInode, place, ok_bind]
  simp only [buffer]

/-- **When a write stays in its slot.** -/
theorem own_slot_iff (log : sbi.sLogBlockSize < 22) (size : 128 ≤ sbi.sInodeSize.toNat)
    (divides : sbi.sInodeSize.toNat ∣ sbi.blockSize.toNat) :
    WritesOwnSlot sbi bread inode ↔ ClearBehind sbi bread inode := by
  constructor
  · rintro ⟨d, block, off, bread', ret, place, run, -, own⟩
    refine ⟨d, block, off, place, fun bh buffer => ?_⟩
    rw [writeInode_buffer place buffer] at run
    obtain ⟨bh', after, changes⟩ := own bh buffer
    have buffers : Function.update bread block.toUInt64 _ = bread' := congrArg Prod.fst (Except.ok.inj run)
    rw [← buffers, Function.update_self] at after
    obtain rfl := Option.some.inj after
    refine or_iff_not_imp_left.2 fun short k beyond low => ?_
    by_contra nonzero
    have lost : Lost k := by
      unfold Lost
      rw [rawSize] at low
      omega
    have inside := (changes (off.toNat + k) fun same => nonzero (same.symm.trans (toRaw_lost lost))).1
    rw [Set.mem_Ico] at inside
    omega
  · rintro ⟨d, block, off, place, clear⟩
    have room := place_inside log divides place
    cases buffer : bread block.toUInt64 with
    | none =>
        refine ⟨d, block, off, bread, .error .eio, place, ?_, fun _ _ => rfl, fun bh found => ?_⟩
        · rw [ext4WriteInode, place, ok_bind]
          simp only [buffer]
        · rw [buffer] at found
          cases found
    | some bh =>
        refine ⟨d, block, off, _, _, place, writeInode_buffer place buffer, fun nr other => Function.update_of_ne other _ _,
          fun bh₂ found => ⟨_, Function.update_self .., fun x differs => ?_⟩⟩
        obtain rfl := Option.some.inj (buffer.symm.trans found)
        have inside : x ∈ Set.Ico off.toNat (off.toNat + rawSize) := by
          by_contra outside
          exact differs (toRaw_outside outside)
        obtain ⟨low, high⟩ := inside
        have slot : x < off.toNat + sbi.sInodeSize.toNat := by
          rcases clear bh buffer with wide | zero
          · omega
          · by_contra beyond
            obtain ⟨k, rfl⟩ := Nat.exists_eq_add_of_le low
            have lost : Lost k := by
              unfold Lost
              rw [rawSize] at high
              omega
            exact differs ((toRaw_lost lost).trans (zero k (by omega) (by omega)).symm)
        exact ⟨⟨low, slot⟩, by omega⟩

/-! ## Load and store -/

/-- After a change of no more than the size, the counts and the extent map, a write changes
only bytes of the fields that have changed. -/
def KeepsSlot (sbi : SbInfo) (bread : Buffers) (inode : Inode) : Prop :=
  ∀ inode', SameOwner inode inode' → ∃ d block off bh bread' bh',
    inodePlace sbi inode.iIno = .ok (d, block, off) ∧ bread block.toUInt64 = some bh ∧
    ext4WriteInode sbi bread inode' = .ok (bread', .ok ()) ∧ bread' block.toUInt64 = some bh' ∧
    ∀ k < sbi.sInodeSize.toNat, bh' (off.toNat + k) ≠ bh (off.toNat + k) → OfChanged inode inode' k

/-- `iget` gives an inode that is not in memory yet. -/
def Unloaded (cached : Option Inode) (ino : UInt64) : Prop := ∀ c, cached = some c → c.iIno = ino ∧ c.iMode = 0

/-- The bytes of the slot that nobody keeps are zero. -/
def PlainSlot (sbi : SbInfo) (bread : Buffers) (ino : UInt64) : Prop :=
  ∀ d block off bh, inodePlace sbi ino = .ok (d, block, off) → bread block.toUInt64 = some bh →
    ∀ k < sbi.sInodeSize.toNat, Lost k → bh (off.toNat + k) = 0

theorem iget_loaded {cached : Option Inode} (unloaded : Unloaded cached ino)
    (found : ext4Iget sbi bread cached ino = .ok (some inode)) :
    ∃ old d block off bh, old.iIno = ino ∧ inodePlace sbi ino = .ok (d, block, off) ∧
      bread block.toUInt64 = some bh ∧ inode = ext4RawInodeToInode old bh off.toNat := by
  have empty : (cached.getD (newInode ino)).iIno = ino ∧ (cached.getD (newInode ino)).iMode = 0 := by
    cases cached with
    | none => exact ⟨rfl, rfl⟩
    | some c => exact unloaded c rfl
  unfold ext4Iget at found
  rw [if_neg (not_not.2 empty.2)] at found
  obtain ⟨⟨d, block, off⟩, place, rest⟩ := bind_eq_ok.1 found
  cases buffer : bread block.toUInt64 with
  | none =>
      simp only [buffer] at rest
      cases rest
  | some bh =>
      simp only [buffer] at rest
      exact ⟨_, d, block, off, bh, empty.1, place, buffer, (Option.some.inj (Except.ok.inj rest)).symm⟩

/-- **When a load and a store are the identity.** -/
theorem load_store_iff {cached : Option Inode} (unloaded : Unloaded cached ino)
    (found : ext4Iget sbi bread cached ino = .ok (some inode)) :
    KeepsSlot sbi bread inode ↔ PlainSlot sbi bread ino := by
  obtain ⟨old, d, block, off, bh, number, place, buffer, rfl⟩ := iget_loaded unloaded found
  have placed : inodePlace sbi (ext4RawInodeToInode old bh off.toNat).iIno = .ok (d, block, off) := by
    rw [← number] at place
    exact place
  have placed' {inode' : Inode} (same : SameOwner (ext4RawInodeToInode old bh off.toNat) inode') :
      inodePlace sbi inode'.iIno = .ok (d, block, off) := by
    rw [same.iIno]
    exact placed
  constructor
  · rintro keeps d₂ block₂ off₂ bh₂ place₂ buffer₂ k below lost
    obtain ⟨rfl, rfl, rfl⟩ : d = d₂ ∧ block = block₂ ∧ off = off₂ := by simpa using place.symm.trans place₂
    obtain rfl := Option.some.inj (buffer.symm.trans buffer₂)
    obtain ⟨d₃, block₃, off₃, bh₃, bread', bh', place₃, buffer₃, run, after, only⟩ :=
      keeps _ ⟨rfl, rfl, rfl, rfl⟩
    obtain ⟨rfl, rfl, rfl⟩ : d = d₃ ∧ block = block₃ ∧ off = off₃ := by simpa using placed.symm.trans place₃
    obtain rfl := Option.some.inj (buffer.symm.trans buffer₃)
    rw [writeInode_buffer placed buffer] at run
    have buffers : Function.update bread block.toUInt64 _ = bread' := congrArg Prod.fst (Except.ok.inj run)
    rw [← buffers, Function.update_self] at after
    obtain rfl := Option.some.inj after
    by_contra nonzero
    have changed := only k below fun same => nonzero (same.symm.trans (toRaw_lost lost))
    unfold OfChanged at changed
    simp at changed
  · intro plain inode' same
    refine ⟨d, block, off, bh, _, _, placed, buffer, writeInode_buffer (placed' same) buffer,
      Function.update_self .., fun k below differs => ?_⟩
    by_contra kept
    refine differs ?_
    by_cases small : k < 140
    · by_cases lost : Lost k
      · exact (toRaw_lost lost).trans (plain d block off bh place buffer k below lost).symm
      · exact toRaw_kept small lost same kept
    · exact toRaw_outside (by rw [Set.mem_Ico, rawSize]; omega)

end Write

/-! ### Inode 12 of the small image: byte 384 of block 6 -/

theorem place_created : inodePlace (smallSbi 1) createdInode.iIno = .ok (⟨0, 0⟩, 6, 384) := rfl

theorem own_slot_zero : (smallSbi 1).sLogBlockSize < 22 ∧ 128 ≤ (smallSbi 1).sInodeSize.toNat ∧
    (smallSbi 1).sInodeSize.toNat ∣ (smallSbi 1).blockSize.toNat ∧
      WritesOwnSlot (smallSbi 1) (fun _ => some fun _ => 0) createdInode := by
  have log : (smallSbi 1).sLogBlockSize < 22 := by decide
  have size : 128 ≤ (smallSbi 1).sInodeSize.toNat := by decide
  have divides : (smallSbi 1).sInodeSize.toNat ∣ (smallSbi 1).blockSize.toNat := by decide
  refine ⟨log, size, divides, (own_slot_iff log size divides).2 ⟨_, _, _, place_created, fun bh buffer => .inr ?_⟩⟩
  obtain rfl := Option.some.inj buffer
  exact fun _ _ _ => rfl

/-- Inode 13 is the neighbour, a regular file. -/
def neighbour : Bytes := store16 (fun _ => 0) 512 0x8180

/-- **Writing inode 12 clears the mode of inode 13.** -/
theorem neighbour_cleared : (smallSbi 1).sLogBlockSize < 22 ∧ 128 ≤ (smallSbi 1).sInodeSize.toNat ∧
    (smallSbi 1).sInodeSize.toNat ∣ (smallSbi 1).blockSize.toNat ∧
      load16 (ext4InodeToRawInode createdInode neighbour 384) 512 = 0 ∧
      ¬ WritesOwnSlot (smallSbi 1) (fun _ => some neighbour) createdInode := by
  have cleared : ext4InodeToRawInode createdInode neighbour 384 512 = 0 := by decide
  refine ⟨by decide, by decide, by decide, by decide, ?_⟩
  rintro ⟨d, block, off, bread', ret, place, run, -, own⟩
  obtain ⟨rfl, rfl, rfl⟩ : _ = d ∧ _ = block ∧ _ = off := by simpa using place_created.symm.trans place
  obtain ⟨bh', after, changes⟩ := own neighbour rfl
  have buffers : Function.update _ (UInt32.toUInt64 6) (some (ext4InodeToRawInode createdInode neighbour 384)) = bread' :=
    congrArg Prod.fst (Except.ok.inj run)
  rw [← buffers, Function.update_self] at after
  obtain rfl := Option.some.inj after
  have inside := (changes 512 fun same => absurd (cleared.symm.trans same) (by decide)).1
  exact absurd inside (by decide)

/-- A regular file that was read once. -/
def readOnce : Bytes := store32 (store16 (fun _ => 0) 384 0x8180) 392 1700000001

/-- The slot of a file of 700 bytes in block 100, as the kernel writes it. -/
def fileSlot : Bytes := ext4InodeToRawInode { grownInode with iSize := 700 } (fun _ => 0) 384

theorem load_store_plain :
    ext4Iget (smallSbi 1) (fun _ => some fileSlot) none 12 =
        .ok (some (ext4RawInodeToInode (newInode 12) fileSlot 384)) ∧
      (load16 fileSlot 384 = 0x8180 ∧ load32 fileSlot 388 = 700) ∧
        ext4GetBlock (ext4RawInodeToInode (newInode 12) fileSlot 384) 0 = .ok 100 ∧
      KeepsSlot (smallSbi 1) (fun _ => some fileSlot) (ext4RawInodeToInode (newInode 12) fileSlot 384) := by
  have found : ext4Iget (smallSbi 1) (fun _ => some fileSlot) none 12 =
      .ok (some (ext4RawInodeToInode (newInode 12) fileSlot 384)) := rfl
  refine ⟨found, ⟨by decide +kernel, by decide +kernel⟩, by decide +kernel,
    (load_store_iff (fun c never => by cases never) found).2 fun d block off bh place buffer k _ lost => ?_⟩
  obtain ⟨rfl, rfl, rfl⟩ : _ = d ∧ _ = block ∧ _ = off := by simpa using place_created.symm.trans place
  obtain rfl := Option.some.inj buffer
  exact toRaw_lost lost

/-- **The access time is gone** after a load and a store. -/
theorem atime_lost :
    ext4Iget (smallSbi 1) (fun _ => some readOnce) none 12 =
        .ok (some (ext4RawInodeToInode (newInode 12) readOnce 384)) ∧
      load32 (ext4InodeToRawInode (ext4RawInodeToInode (newInode 12) readOnce 384) readOnce 384) 392 = 0 ∧
      ¬ KeepsSlot (smallSbi 1) (fun _ => some readOnce) (ext4RawInodeToInode (newInode 12) readOnce 384) := by
  refine ⟨rfl, by decide, fun keeps => ?_⟩
  obtain ⟨d, block, off, bh, bread', bh', place, buffer, run, after, only⟩ := keeps _ ⟨rfl, rfl, rfl, rfl⟩
  obtain ⟨rfl, rfl, rfl⟩ : _ = d ∧ _ = block ∧ _ = off := by simpa using place_created.symm.trans place
  obtain rfl := Option.some.inj buffer
  have buffers : Function.update _ (UInt32.toUInt64 6)
      (some (ext4InodeToRawInode (ext4RawInodeToInode (newInode 12) readOnce 384) readOnce 384)) = bread' :=
    congrArg Prod.fst (Except.ok.inj run)
  rw [← buffers, Function.update_self] at after
  obtain rfl := Option.some.inj after
  have cleared : ext4InodeToRawInode (ext4RawInodeToInode (newInode 12) readOnce 384) readOnce 384 392 = 0 := by decide
  have changed := only 8 (by decide) fun same => absurd (cleared.symm.trans same) (by decide)
  unfold OfChanged at changed
  simp at changed

end Minus.Fs.Ext4Bytes
