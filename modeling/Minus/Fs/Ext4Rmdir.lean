/-
# Fs.Ext4Rmdir — removing a directory

`ext4_rmdir` of `kernel/fs/backend/ext4fs/namei.c` on the directories of `Fs.Ext4DirMap`:
the target has to be empty, its name is taken out of the parent, and its blocks are given
up.

Whether the target is empty is decided by its first block: at most two live entries there
are taken for `"."` and `".."`, whatever their names are, and the other blocks are not
looked at.  `rmdir_right_iff` lists the calls that this does not mislead.
-/
import Minus.Fs.Ext4DirMap
import Minus.Fs.Ext4Tree

namespace Minus.Fs.Ext4Bytes

set_option autoImplicit false

open Minus.Theory
open Minus.Fs.Dcache (Errno Name)
open Minus.Fs.Ext4Dir (DirEntry Block Directory dirIsEmpty dot dotdot)

/-! ## namei.c -/

/-- `S_ISDIR(m)`. -/
def sIsDir (mode : UInt16) : Bool := decide (mode &&& 0o170000 = 0o040000)

def ext4TruncateBlocks (inode : Inode) : Inode :=
  { inode with iData := clear inode.iData 0 60, iSize := 0, iBlocks := 0, iDirty := true }

/-- `target` is `dentry->d_inode` and `name` is `dentry->d_name`. -/
def ext4Rmdir (fuel : Nat) (blockSize : UInt32) (dir : Inode) (target : Option Inode) (bread : Buffers)
    (name : List UInt8) : Option (Except Fault ((Inode × Option Inode × Buffers) × Except Errno Unit)) :=
  match target with
  | none => some (.ok ((dir, none, bread), .error .enoent))
  | some inode =>
      if sIsDir inode.iMode = false then some (.ok ((dir, some inode, bread), .error .enotdir))
      else
        match ext4DirIsEmpty fuel blockSize inode bread with
        | none => none
        | some (.error f) => some (.error f)
        | some (.ok (.ok true)) =>
            match ext4DeleteEntry fuel blockSize dir bread name with
            | none => none
            | some (.error f) => some (.error f)
            | some (.ok (bread, .error e)) => some (.ok ((dir, some inode, bread), .error e))
            | some (.ok (bread, .ok _)) =>
                some (.ok (({ dir with iNlink := dir.iNlink - 1, iDirty := true },
                  some (ext4TruncateBlocks { inode with iNlink := 0 }), bread), .ok ()))
        | some (.ok _) => some (.ok ((dir, some inode, bread), .error (.other 39)))

/-! ## Emptiness -/

/-- No live entry in any block but the two of every directory. -/
def OnlyDots (blocks : Directory) : Prop := ∀ name ∈ Ext4Dir.names blocks, name = dot ∨ name = dotdot

instance (blocks : Directory) : Decidable (OnlyDots blocks) :=
  inferInstanceAs (Decidable (∀ name ∈ Ext4Dir.names blocks, name = dot ∨ name = dotdot))

/-- The call returns; if it succeeds, the target was empty, and else nothing is changed. -/
def RmdirRight (blockSize : UInt32) (dir inode : Inode) (bread : Buffers) (name : List UInt8) (blocks : Directory) :
    Prop :=
  ∃ out ret, (∃ fuel, ext4Rmdir fuel blockSize dir (some inode) bread name = some (.ok (out, ret))) ∧
    match ret with
    | .ok () => OnlyDots blocks
    | .error _ => out = (dir, some inode, bread)

section Rmdir

variable {blockSize : UInt32} {volume : Nat} {dir inode : Inode} {bread : Buffers} {blocks blocks' : Directory}
  {name : List UInt8}

/-- What `ext4_dir_is_empty` answers is decided by block 0. -/
theorem isEmpty_returns (holds : DirHolds blockSize volume inode bread blocks) :
    Returns ((isEmptyScan blockSize).step blockSize inode bread) (.block 0 0) (dirIsEmpty (fun _ => true) blocks) := by
  cases blocks with
  | nil =>
      refine returns_of_inr ?_
      rw [Scan.step, holds.unmapped 0 (Nat.zero_le _)]
      rfl
  | cons b rest =>
      obtain ⟨nr, bh, found, buffer, tiled⟩ := holds.block 0 (Nat.zero_lt_succ _)
      refine (returns_block (isEmptyScan blockSize) rfl found buffer).2 ((isEmpty_walk tiled _ _).2 ?_)
      refine returns_of_inr ?_
      show Except.ok (Sum.inr (Except.ok (decide (0 + b.countP (·.inode ≠ 0) ≤ 2)))) = _
      rw [Nat.zero_add]
      rfl

theorem Scan.run_mono {σ α : Type} {sc : Scan σ α} {start : σ} {fuel fuel' : Nat} {r : Except Fault α}
    (run : sc.run blockSize dir bread fuel start = some r) (le : fuel ≤ fuel') :
    sc.run blockSize dir bread fuel' start = some r := loop_mono run le

theorem delete_mono {fuel fuel' : Nat} {r : Except Fault (Buffers × Except Errno Unit)}
    (run : ext4DeleteEntry fuel blockSize dir bread name = some r) (le : fuel ≤ fuel') :
    ext4DeleteEntry fuel' blockSize dir bread name = some r := by
  unfold ext4DeleteEntry at run ⊢
  cases walk : (deleteScan blockSize dir name).run blockSize dir bread fuel none with
  | none =>
      rw [walk] at run
      cases run
  | some out =>
      rw [Scan.run_mono walk le]
      rwa [walk] at run

theorem rmdir_mono {fuel fuel' : Nat} {target : Option Inode}
    {r : Except Fault ((Inode × Option Inode × Buffers) × Except Errno Unit)}
    (run : ext4Rmdir fuel blockSize dir target bread name = some r) (le : fuel ≤ fuel') :
    ext4Rmdir fuel' blockSize dir target bread name = some r := by
  cases target with
  | none => exact run
  | some inode =>
      unfold ext4Rmdir at run ⊢
      dsimp only at run ⊢
      split
      · rename_i noDir
        rwa [if_pos noDir] at run
      · rename_i isDir
        rw [if_neg isDir] at run
        cases walk : ext4DirIsEmpty fuel blockSize inode bread with
        | none =>
            rw [walk] at run
            cases run
        | some out =>
            rw [walk] at run
            rw [show ext4DirIsEmpty fuel' blockSize inode bread = some out from Scan.run_mono walk le]
            cases deleted : ext4DeleteEntry fuel blockSize dir bread name with
            | none =>
                rw [deleted] at run
                split at run
                all_goals first
                  | exact run
                  | cases run
            | some out' =>
                rw [deleted] at run
                rwa [delete_mono deleted le]

/-- A call has one answer. -/
theorem rmdir_unique {fuel fuel' : Nat} {target : Option Inode}
    {a b : (Inode × Option Inode × Buffers) × Except Errno Unit}
    (first : ext4Rmdir fuel blockSize dir target bread name = some (.ok a))
    (second : ext4Rmdir fuel' blockSize dir target bread name = some (.ok b)) : a = b := by
  have both := (rmdir_mono first (Nat.le_max_left fuel fuel')).symm.trans (rmdir_mono second (Nat.le_max_right fuel fuel'))
  exact Except.ok.inj (Option.some.inj both)

/-- A target that is turned down: nothing is changed. -/
theorem rmdir_refused (dir : Inode) (name : List UInt8) (child : DirHolds blockSize volume inode bread blocks')
    (refused : sIsDir inode.iMode = false ∨ dirIsEmpty (fun _ => true) blocks' ≠ .ok true) :
    ∃ fuel e, ext4Rmdir fuel blockSize dir (some inode) bread name = some (.ok ((dir, some inode, bread), .error e)) := by
  by_cases isDir : sIsDir inode.iMode = false
  · exact ⟨0, .enotdir, if_pos isDir⟩
  · obtain ⟨fuel, run⟩ := isEmpty_returns child
    refine ⟨fuel, .other 39, ?_⟩
    unfold ext4Rmdir
    dsimp only
    rw [if_neg isDir, ext4DirIsEmpty, Scan.run, run]
    have filled := refused.resolve_left isDir
    split
    · rename_i out
      cases out
    · rename_i out
      cases out
    · rename_i out
      exact absurd (Except.ok.inj (Option.some.inj out)) filled
    · rfl

/-- A target that is taken for empty. -/
theorem rmdir_deletes (child : DirHolds blockSize volume inode bread blocks') (isDir : ¬ sIsDir inode.iMode = false)
    (empty : dirIsEmpty (fun _ => true) blocks' = .ok true) (a : Buffers × Except Errno Unit)
    (deletes : ∃ fuel, ext4DeleteEntry fuel blockSize dir bread name = some (.ok a)) :
    ∃ fuel, ext4Rmdir fuel blockSize dir (some inode) bread name = some (.ok (match a with
      | (bread', .error e) => ((dir, some inode, bread'), .error e)
      | (bread', .ok _) => (({ dir with iNlink := dir.iNlink - 1, iDirty := true },
          some (ext4TruncateBlocks { inode with iNlink := 0 }), bread'), .ok ()))) := by
  obtain ⟨fuel, run⟩ := isEmpty_returns child
  obtain ⟨fuel', deleted⟩ := deletes
  have counted : ext4DirIsEmpty (max fuel fuel') blockSize inode bread = some (.ok (.ok true)) := by
    rw [← empty]
    exact loop_mono run (Nat.le_max_left ..)
  refine ⟨max fuel fuel', ?_⟩
  unfold ext4Rmdir
  dsimp only
  rw [if_neg isDir, counted, delete_mono deleted (Nat.le_max_right ..)]
  obtain ⟨bread', e | _⟩ := a
  · rfl
  · rfl

/-- **When `ext4_rmdir` removes only what is empty.** -/
theorem rmdir_right_iff (parent : DirHolds blockSize volume dir bread blocks)
    (child : DirHolds blockSize volume inode bread blocks') (name : List UInt8) :
    RmdirRight blockSize dir inode bread name blocks' ↔
      sIsDir inode.iMode = false ∨ LooksUp blockSize dir bread name none ∨
        (∀ b ∈ blocks'.head?, 2 < b.countP (·.inode ≠ 0)) ∨ OnlyDots blocks' := by
  have filled : dirIsEmpty (fun _ => true) blocks' ≠ .ok true ↔ ∀ b ∈ blocks'.head?, 2 < b.countP (·.inode ≠ 0) := by
    cases blocks' with
    | nil => simp [dirIsEmpty]
    | cons b rest => simp [dirIsEmpty]
  by_cases refused : sIsDir inode.iMode = false ∨ dirIsEmpty (fun _ => true) blocks' ≠ .ok true
  · obtain ⟨fuel, e, run⟩ := rmdir_refused dir name child refused
    refine iff_of_true ⟨_, _, ⟨fuel, run⟩, rfl⟩ ?_
    rw [filled] at refused
    exact refused.imp_right fun many => .inr (.inl many)
  · obtain ⟨isDir, empty⟩ := not_or.1 refused
    have few := mt filled.2 empty
    rw [looksUp_none_iff parent, or_iff_right isDir, or_iff_right few]
    rcases delete_cases parent name with ⟨bound, bread', blocks'', run, -⟩ | ⟨absent, run⟩
    · rw [or_iff_right bound]
      obtain ⟨fuel, done⟩ := rmdir_deletes child isDir (not_not.1 empty) _ run
      constructor
      · rintro ⟨out, ret, ⟨fuel', run'⟩, right⟩
        cases rmdir_unique run' done
        exact right
      · exact fun only => ⟨_, _, ⟨fuel, done⟩, only⟩
    · exact iff_of_true ⟨_, _, rmdir_deletes child isDir (not_not.1 empty) _ ((run _).2 rfl), rfl⟩ (.inl absent)

end Rmdir

/-! ### A parent and a target -/

/-- `d` is inode 13. -/
def parentBlock : Block := [⟨2, 12, ['.'], 2⟩, ⟨2, 12, ['.', '.'], 2⟩, ⟨13, 1000, ['d'], 2⟩]

def parentBytes : Bytes := fun x =>
  [2, 0, 0, 0, 12, 0, 1, 2, 46, 0, 0, 0, 2, 0, 0, 0, 12, 0, 2, 2, 46, 46, 0, 0, 13, 0, 0, 0, 0xE8, 3, 1, 2, 100].getD x 0

/-- The second block of the target. -/
def secondBlock : Block := [⟨14, 1024, ['x'], 1⟩]

def secondBytes : Bytes := fun x => [14, 0, 0, 0, 0, 4, 1, 1, 120].getD x 0

/-- The parent has block 100 of the volume, and the target the blocks behind it. -/
def parentDir : Inode := { oneExtent 1 100 with iSize := 1024 }

def targetDir (len : UInt16) : Inode :=
  { oneExtent len 101 with iIno := 13, iMode := 0x41ED, iNlink := 2, iSize := len.toUInt64 * 1024 }

def treeVolume (nr : UInt64) : Option Bytes :=
  if nr < 70000 then some (if nr = 100 then parentBytes else if nr = 101 then fullBytes else secondBytes) else none

theorem oneExtent_get {len : UInt16} {phys : UInt64}
    (known : (len, phys) = (1, 100) ∨ (len, phys) = (1, 101) ∨ (len, phys) = (2, 101))
    (b : UInt32) : ext4GetBlock (oneExtent len phys) b =
      if b < len.toUInt32 then .ok (phys + b.toUInt64) else .error .enospc := by
  have run (magic : ehMagic (oneExtent len phys).iData = extentHeaderMagic)
      (count : (ehEntries (oneExtent len phys).iData).toNat = 1) (start : eeBlock (oneExtent len phys).iData 0 = 0)
      (length : eeLen (oneExtent len phys).iData 0 = len) (place : eePhys (oneExtent len phys).iData 0 = phys) :
      ext4GetBlock (oneExtent len phys) b = if b < len.toUInt32 then .ok (phys + b.toUInt64) else .error .enospc := by
    rw [ext4GetBlock, if_pos magic, count, findExtent, start, length, place]
    simp only [UInt32.zero_add, UInt32.sub_zero, UInt32.zero_le, true_and]
    split
    · rename_i found
      split at found
      · rw [if_pos ‹_›, Option.some.inj found]
      · cases found
    · rename_i missing
      split at missing
      · cases missing
      · rw [if_neg ‹_›]
  rcases known with known | known | known
  all_goals
    cases known
    exact run (by decide) (by decide) (by decide) (by decide) (by decide)

theorem oneExtent_holds (len : UInt16) {phys : UInt64} {inode : Inode} {blocks : Directory} (few : len.toNat ≤ 2)
    (root : ExtentRoot inode.iData) (size : inode.iSize.toNat = blocks.length * 1024)
    (length : blocks.length = len.toNat)
    (get : ∀ b, ext4GetBlock inode b = if b < len.toUInt32 then .ok (phys + b.toUInt64) else .error .enospc)
    (tiled : ∀ i (inside : i < blocks.length), ∃ bh, treeVolume (phys + (UInt32.ofNat i).toUInt64) = some bh ∧
      TiledFrom bh 1024 0 blocks[i])
    (distinct : (Ext4Dir.names blocks).Nodup) : DirHolds 1024 70000 inode treeVolume blocks where
  power := ⟨0, by decide, rfl⟩
  root := root
  size := size
  block := by
    intro i inside
    obtain ⟨bh, buffer, tiled⟩ := tiled i inside
    refine ⟨_, bh, (get _).trans (if_pos ?_), buffer, tiled⟩
    rw [UInt32.lt_iff_toNat_lt, toNat_ofNat (by omega), UInt16.toNat_toUInt32]
    omega
  unmapped := by
    intro b beyond
    rw [get, if_neg]
    rw [UInt32.lt_iff_toNat_lt, UInt16.toNat_toUInt32]
    omega
  apart := by
    intro b b' nr found found'
    rw [get] at found found'
    split at found
    · split at found'
      · have same := congrArg UInt64.toNat ((Except.ok.inj found).trans (Except.ok.inj found').symm)
        have := b.toNat_lt
        have := b'.toNat_lt
        rw [UInt64.toNat_add, UInt64.toNat_add, UInt32.toNat_toUInt64, UInt32.toNat_toUInt64] at same
        exact UInt32.toNat_inj.1 (by omega)
      · cases found'
    · cases found
  names := distinct
  numbers := by decide
  readable := by
    intro nr
    rw [treeVolume, ← show (70000 : UInt64).toNat = 70000 from rfl, ← UInt64.lt_iff_toNat_lt]
    split <;> simp_all

theorem parentBlock_tiled : TiledFrom parentBytes 1024 0 parentBlock :=
  ⟨⟨by decide, by decide, fun _ => by decide, fun _ => by decide, fun _ => by decide⟩,
    ⟨by decide, by decide, fun _ => by decide⟩,
    ⟨by decide, by decide, fun _ => by decide, fun _ => by decide, fun _ => by decide⟩,
    ⟨by decide, by decide, fun _ => by decide⟩,
    ⟨by decide, by decide, fun _ => by decide, fun _ => by decide, fun _ => by decide⟩,
    ⟨by decide, by decide, fun _ => by decide⟩, rfl⟩

theorem secondBlock_tiled : TiledFrom secondBytes 1024 0 secondBlock :=
  ⟨⟨by decide, by decide, fun _ => by decide, fun _ => by decide, fun _ => by decide⟩,
    ⟨by decide, by decide, fun _ => by decide⟩, rfl⟩

theorem parentDir_holds : DirHolds 1024 70000 parentDir treeVolume [parentBlock] := by
  refine oneExtent_holds 1 (by decide) ⟨by decide, by decide, by decide, by decide⟩ rfl rfl
    (oneExtent_get (.inl rfl)) (fun i inside => ?_) (by decide)
  obtain rfl : i = 0 := Nat.lt_one_iff.1 inside
  exact ⟨parentBytes, rfl, parentBlock_tiled⟩

theorem oneBlock_holds : DirHolds 1024 70000 (targetDir 1) treeVolume [fullBlock] := by
  refine oneExtent_holds 1 (by decide) ⟨by decide, by decide, by decide, by decide⟩ rfl rfl
    (oneExtent_get (.inr (.inl rfl))) (fun i inside => ?_) (by decide)
  obtain rfl : i = 0 := Nat.lt_one_iff.1 inside
  exact ⟨fullBytes, rfl, fullBlock_tiled⟩

theorem twoBlocks_holds : DirHolds 1024 70000 (targetDir 2) treeVolume [fullBlock, secondBlock] := by
  refine oneExtent_holds 2 (by decide) ⟨by decide, by decide, by decide, by decide⟩ rfl rfl
    (oneExtent_get (.inr (.inr rfl))) (fun i inside => ?_) (by decide)
  rcases (show i = 0 ∨ i = 1 from by
      have : i < 2 := inside
      omega) with rfl | rfl
  · exact ⟨fullBytes, rfl, fullBlock_tiled⟩
  · exact ⟨secondBytes, rfl, secondBlock_tiled⟩

/-- A target of one block. -/
theorem rmdir_right_one : DirHolds 1024 70000 parentDir treeVolume [parentBlock] ∧
    DirHolds 1024 70000 (targetDir 1) treeVolume [fullBlock] ∧
    RmdirRight 1024 parentDir (targetDir 1) treeVolume [100] [fullBlock] :=
  ⟨parentDir_holds, oneBlock_holds,
    (rmdir_right_iff parentDir_holds oneBlock_holds [100]).2 (.inr (.inr (.inr (by decide))))⟩

/-- **The names in a second block are lost.** -/
theorem second_block_lost : DirHolds 1024 70000 parentDir treeVolume [parentBlock] ∧
    DirHolds 1024 70000 (targetDir 2) treeVolume [fullBlock, secondBlock] ∧
    (∃ fuel out, ext4Rmdir fuel 1024 parentDir (some (targetDir 2)) treeVolume [100] = some (.ok (out, .ok ()))) ∧
    LooksUp 1024 (targetDir 2) treeVolume [120] (some 14) ∧
    ¬ RmdirRight 1024 parentDir (targetDir 2) treeVolume [100] [fullBlock, secondBlock] := by
  have present : LooksUp 1024 parentDir treeVolume [100] (some 13) := (looksUp_iff parentDir_holds _ _).2 (by decide)
  rcases delete_cases parentDir_holds [100] with ⟨-, bread', blocks', run, -⟩ | ⟨absent, -⟩
  · obtain ⟨fuel, removed⟩ := rmdir_deletes twoBlocks_holds (by decide) rfl _ run
    refine ⟨parentDir_holds, twoBlocks_holds, ⟨fuel, _, removed⟩, (looksUp_iff twoBlocks_holds _ _).2 (by decide), ?_⟩
    rintro ⟨out, ret, ⟨fuel', run'⟩, right⟩
    cases rmdir_unique run' removed
    have only : OnlyDots [fullBlock, secondBlock] := right
    exact absurd only (by decide)
  · exact absurd absent (by decide)

end Minus.Fs.Ext4Bytes
