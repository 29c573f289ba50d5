/-
# Fs.Ext4Map — which block of the volume each block of the file is

`mapped` is the answer of `ext4_get_block` where the header is in place.  One
round of a write either leaves it, or adds one pair (`writeBlock_cases`): the new
block comes from a clear bit of group 0, so it was not in the file before, and
`ext4_set_block` records it without touching the other pairs.

Two things are needed for that, and both are stated for the layout before the
round.  The block comes from group 0 (`FromFirstGroup`), since for the other groups
`ext4_read_bitmap` finds the wrong bitmap; and its number survives in an extent
(`Recorded`), since `ext4_set_block` shifts the upper half by 16 and not by 32.
-/
import Minus.Fs.Ext4
import Mathlib.Data.List.Basic

namespace Minus.Fs.Ext4

set_option autoImplicit false

open Minus.Theory

/-! ## Extents as a map -/

/-- The first extent that holds the block says where it is. -/
def locate (extents : List Extent) (iblock : Nat) : Option Nat :=
  (extents.find? fun e => e.holds iblock).map fun e => e.phys + (iblock - e.eeBlock)

def Inode.mapped (inode : Inode) (iblock : Nat) : Option Nat := locate inode.extents iblock

theorem ext4GetBlock_eq {inode : Inode} (magic : inode.ehMagic = extentHeaderMagic) (iblock : Nat) :
    ext4GetBlock inode iblock =
      match inode.mapped iblock with
      | some pblock => .ok pblock
      | none => .error .enospc := by
  unfold ext4GetBlock Inode.mapped locate
  rw [if_pos magic]
  cases inode.extents.find? fun e => e.holds iblock with
  | none => rfl
  | some e => rfl

/-- The extents do not wrap around at the last block number. -/
def Short (extents : List Extent) : Prop :=
  ∀ e ∈ extents, e.eeBlock + e.eeLen < 2 ^ 32 ∧ e.eeLen ≤ 32768

section Extents

variable {extents : List Extent} {e last : Extent} {iblock pblock b : Nat}

theorem locate_append (extents : List Extent) (e : Extent) (b : Nat) :
    locate (extents ++ [e]) b =
      (locate extents b).or (if e.holds b then some (e.phys + (b - e.eeBlock)) else none) := by
  unfold locate
  rw [List.find?_append]
  cases extents.find? fun e => e.holds b with
  | none => cases h : e.holds b <;> simp [h]
  | some first => rfl

theorem holds_iff (short : e.eeBlock + e.eeLen < 2 ^ 32) :
    e.holds b = true ↔ e.eeBlock ≤ b ∧ b < e.eeBlock + e.eeLen := by
  unfold Extent.holds
  rw [decide_eq_true_iff, Nat.mod_eq_of_lt short]

theorem continues_iff (short : last.eeBlock + last.eeLen < 2 ^ 32) :
    last.continues iblock pblock = true ↔
      iblock = last.eeBlock + last.eeLen ∧ pblock = last.phys + last.eeLen ∧ last.eeLen < 32768 := by
  unfold Extent.continues
  rw [decide_eq_true_iff, Nat.mod_eq_of_lt short]

/-- The extent of one block gives its number back. -/
def Faithful (pblock : Nat) : Prop := pblock / 2 ^ 16 % 2 ^ 16 = pblock / 2 ^ 32

instance (pblock : Nat) : Decidable (Faithful pblock) := inferInstanceAs (Decidable (_ = _))

theorem phys_single (faithful : Faithful pblock) : (Extent.single iblock pblock).phys = pblock := by
  unfold Extent.phys Extent.single
  rw [show pblock / 2 ^ 16 % 2 ^ 16 = pblock / 2 ^ 32 from faithful]
  exact Nat.div_add_mod' pblock (2 ^ 32)

/-- A new extent adds one pair. -/
theorem locate_single (fits : iblock + 1 < 2 ^ 32) (faithful : Faithful pblock)
    (unmapped : locate extents iblock = none) :
    locate (extents ++ [.single iblock pblock]) b =
      if b = iblock then some pblock else locate extents b := by
  rw [locate_append]
  have single := holds_iff (e := .single iblock pblock) (b := b) (show iblock + 1 < _ from fits)
  simp only [show (Extent.single iblock pblock).eeBlock = iblock from rfl,
    show (Extent.single iblock pblock).eeLen = 1 from rfl] at single
  by_cases same : b = iblock
  · subst same
    rw [if_pos (single.mpr (by omega)), if_pos rfl, unmapped, phys_single faithful]
    simp [Extent.single]
  · have apart : ¬ (Extent.single iblock pblock).holds b = true := fun held => by
      have := single.mp held
      omega
    rw [if_neg apart, if_neg same, Option.or_none]

theorem holds_grown (fits : iblock + 1 < 2 ^ 32) (short : last.eeBlock + last.eeLen < 2 ^ 32)
    (next : last.continues iblock pblock = true) :
    last.grown.holds b = true ↔ last.holds b = true ∨ b = iblock := by
  obtain ⟨place, _, small⟩ := (continues_iff short).mp next
  have len : last.grown.eeLen = last.eeLen + 1 := Nat.mod_eq_of_lt (by omega)
  have start : last.grown.eeBlock = last.eeBlock := rfl
  rw [holds_iff (by omega), holds_iff short, len, start]
  omega

/-- An extent that grows adds one pair. -/
theorem locate_grown (fits : iblock + 1 < 2 ^ 32) (short : last.eeBlock + last.eeLen < 2 ^ 32)
    (next : last.continues iblock pblock = true)
    (unmapped : locate (extents ++ [last]) iblock = none) :
    locate (extents ++ [last.grown]) b =
      if b = iblock then some pblock else locate (extents ++ [last]) b := by
  obtain ⟨place, address, _⟩ := (continues_iff short).mp next
  have grown := holds_grown (b := b) fits short next
  rw [locate_append] at unmapped ⊢
  rw [Option.or_eq_none_iff] at unmapped
  by_cases same : b = iblock
  · subst same
    rw [if_pos (grown.mpr (.inr rfl)), if_pos rfl, unmapped.1, Option.none_or]
    show some (last.phys + (b - last.eeBlock)) = some pblock
    rw [address, place, Nat.add_sub_cancel_left]
  · have held : last.grown.holds b = last.holds b := by
      rw [Bool.eq_iff_iff, grown, or_iff_left same]
    rw [if_neg same, locate_append, held]
    rfl

end Extents

/-! ## Recording a block -/

/-- The block's number can be read back after `ext4_set_block`. -/
def Recorded (inode : Inode) (iblock pblock : Nat) : Prop :=
  (inode.extents.getLast?.any fun last => last.continues iblock pblock) = true ∨ Faithful pblock

instance (inode : Inode) (iblock pblock : Nat) : Decidable (Recorded inode iblock pblock) :=
  inferInstanceAs (Decidable (_ ∨ _))

/-- What the functions of this module rely on in an inode. -/
structure Inode.Sound (inode : Inode) : Prop where
  magic : inode.ehMagic = extentHeaderMagic
  short : Short inode.extents

/-- From `inode` to `inode'` the pair of `iblock` and `pblock` was added. -/
structure Adds (inode inode' : Inode) (iblock pblock : Nat) : Prop where
  size : inode'.iSize = inode.iSize
  sound : inode'.Sound
  mapped : ∀ b, inode'.mapped b = if b = iblock then some pblock else inode.mapped b

section SetBlock

variable {v : Volume} {inode inode' : Inode} {iblock pblock : Nat}

theorem Inode.Sound.headed (sound : inode.Sound) : inode.headed = inode := if_pos sound.magic

theorem append_adds (sound : inode.Sound) (fits : iblock + 1 < 2 ^ 32)
    (unmapped : inode.mapped iblock = none) (faithful : Faithful pblock)
    (done : inode.append v iblock pblock = .ok inode') : Adds inode inode' iblock pblock := by
  unfold Inode.append at done
  split at done
  · cases done
  · cases done
    refine ⟨rfl, ⟨sound.magic, ?_⟩, fun b => locate_single fits faithful unmapped⟩
    intro e member
    cases List.mem_append.mp member with
    | inl old => exact sound.short e old
    | inr new =>
        rw [List.mem_singleton.mp new]
        exact ⟨fits, show 1 ≤ 32768 by decide⟩

theorem grow_adds {rest : List Extent} {last : Extent} (sound : inode.Sound)
    (fits : iblock + 1 < 2 ^ 32) (unmapped : inode.mapped iblock = none)
    (split : inode.extents = rest ++ [last]) (next : last.continues iblock pblock = true) :
    Adds inode (inode.charge v (rest ++ [last.grown])) iblock pblock := by
  have short := sound.short last (by simp [split])
  obtain ⟨place, _, small⟩ := (continues_iff short.1).mp next
  have len : last.grown.eeLen = last.eeLen + 1 := Nat.mod_eq_of_lt (by omega)
  refine ⟨rfl, ⟨sound.magic, ?_⟩, fun b => ?_⟩
  · intro e member
    cases List.mem_append.mp member with
    | inl old => exact sound.short e (by simp [split, old])
    | inr new =>
        rw [List.mem_singleton.mp new, len, show last.grown.eeBlock = last.eeBlock from rfl]
        omega
  · unfold Inode.mapped at unmapped ⊢
    rw [split] at unmapped ⊢
    exact locate_grown fits short.1 next unmapped

/-- **`ext4_set_block` of an unmapped block adds one pair.** -/
theorem ext4SetBlock_adds (sound : inode.Sound) (fits : iblock + 1 < 2 ^ 32)
    (unmapped : inode.mapped iblock = none) (recorded : Recorded inode iblock pblock)
    (done : ext4SetBlock v inode iblock pblock = .ok inode') : Adds inode inode' iblock pblock := by
  unfold ext4SetBlock at done
  rw [sound.headed] at done
  unfold Recorded at recorded
  cases final : inode.extents.getLast? with
  | none =>
      rw [final] at done recorded
      exact append_adds sound fits unmapped (recorded.resolve_left (by simp)) done
  | some last =>
      rw [final] at done recorded
      simp only at done
      split at done
      · rename_i next
        cases done
        have split : inode.extents = inode.extents.dropLast ++ [last] :=
          (List.dropLast_append_getLast? last final).symm
        exact grow_adds sound fits unmapped split next
      · rename_i apart
        exact append_adds sound fits unmapped (recorded.resolve_left (by simpa using apart)) done

end SetBlock

/-! ## A new block -/

/-- The bitmap of group 0 answers the search: it has a clear bit, or the volume
has no further group. -/
def FromFirstGroup (v : Volume) (bitmaps : Bitmaps) : Prop :=
  findFirstZeroBit (bitmaps 0) v.blocksPerGroup < v.blocksPerGroup ∨ v.groupsCount ≤ 1

instance (v : Volume) (bitmaps : Bitmaps) : Decidable (FromFirstGroup v bitmaps) :=
  inferInstanceAs (Decidable (_ ∨ _))

theorem findFirstZeroBit_clear {bits : Nat → Bool} {size : Nat}
    (found : findFirstZeroBit bits size < size) : bits (findFirstZeroBit bits size) = false := by
  unfold findFirstZeroBit at found ⊢
  cases search : (List.range size).find? fun i => !bits i with
  | none =>
      rw [search] at found
      exact absurd found (Nat.lt_irrefl size)
  | some i => simpa using List.find?_some search

theorem gdBlocks_pos {v : Volume} (groups : 0 < v.groupsCount) : 0 < v.gdBlocks := by
  have large : 0 < v.descPerBlock := by
    have := Nat.two_pow_pos v.logBlockSize
    unfold Volume.descPerBlock Volume.blockSize
    omega
  exact Nat.div_pos (by omega) large

/-- A search that group 0 answers finds nothing, or a clear bit of group 0. -/
theorem ext4NewBlock_cases {v : Volume} {bitmaps : Bitmaps} (first : FromFirstGroup v bitmaps) :
    ext4NewBlock v bitmaps = .error (.errno .enospc) ∨
      ∃ idx, idx < v.blocksPerGroup ∧ bitmaps 0 idx = false ∧
        ext4NewBlock v bitmaps = .ok (setBit bitmaps 0 idx, idx + v.firstDataBlock) := by
  unfold ext4NewBlock ext4FindFreeBlock
  cases groups : v.groupsCount with
  | zero => exact .inl rfl
  | succ left =>
      have described : ext4ReadBitmap v 0 = .ok 0 := by
        unfold ext4ReadBitmap
        rw [if_pos (gdBlocks_pos (by omega)), Nat.zero_mul]
      rw [findFreeFrom, described]
      show (if _ then _ else _) = _ ∨ _
      by_cases clear : findFirstZeroBit (bitmaps 0) v.blocksPerGroup < v.blocksPerGroup
      · refine .inr ⟨_, clear, findFirstZeroBit_clear clear, ?_⟩
        show (if _ then _ else _) = _
        rw [if_pos clear, Nat.zero_mul, Nat.zero_add]
      · rw [if_neg clear]
        have single := first.resolve_left clear
        have : left = 0 := by omega
        subst this
        exact .inl rfl

/-! ## One round of a write -/

/-- The layout of one file on the volume: its blocks are marked in the bitmap of
group 0, and no two blocks of the file are one block of the volume. -/
structure Layout.Sound (v : Volume) (l : Layout) : Prop where
  inode : l.inode.Sound
  marked : ∀ b p, l.inode.mapped b = some p →
    ∃ idx, p = idx + v.firstDataBlock ∧ l.bitmaps 0 idx = true
  injective : ∀ a b p, l.inode.mapped a = some p → l.inode.mapped b = some p → a = b

section WriteBlock

variable {v : Volume} {l : Layout} {iblock idx : Nat}

theorem Layout.Sound.mark (sound : l.Sound v) (idx : Nat) :
    Layout.Sound v { l with bitmaps := setBit l.bitmaps 0 idx } where
  inode := sound.inode
  marked b p here := by
    obtain ⟨i, place, set⟩ := sound.marked b p here
    refine ⟨i, place, ?_⟩
    simp [setBit, set]
  injective := sound.injective

/-- A clear bit's block is not in the file. -/
theorem Layout.Sound.unused (sound : l.Sound v) (clear : l.bitmaps 0 idx = false) (b : Nat) :
    l.inode.mapped b ≠ some (idx + v.firstDataBlock) := by
  intro here
  obtain ⟨i, place, set⟩ := sound.marked b _ here
  have : i = idx := by omega
  rw [this, clear] at set
  cases set

theorem Layout.Sound.add {inode' : Inode} (sound : l.Sound v) (clear : l.bitmaps 0 idx = false)
    (adds : Adds l.inode inode' iblock (idx + v.firstDataBlock)) :
    Layout.Sound v { inode := inode', bitmaps := setBit l.bitmaps 0 idx } where
  inode := adds.sound
  marked b p here := by
    rw [adds.mapped] at here
    split at here
    · cases here
      exact ⟨idx, rfl, by simp [setBit]⟩
    · exact (sound.mark idx).marked b p here
  injective a b p left right := by
    rw [adds.mapped] at left right
    split at left <;> split at right
    · omega
    · cases left
      exact absurd right (sound.unused clear b)
    · cases right
      exact absurd left (sound.unused clear a)
    · exact sound.injective a b p left right

/-- What one round of a write does to the layout. -/
inductive Round (v : Volume) (l : Layout) (iblock : Nat) :
    Except (Stop Layout) (Layout × Nat) → Prop where
  | kept (p : Nat) : l.inode.mapped iblock = some p → Round v l iblock (.ok (l, p))
  | added (l' : Layout) (p : Nat) : l.inode.mapped iblock = none →
      (∀ b, l.inode.mapped b ≠ some p) → l'.Sound v → Adds l.inode l'.inode iblock p →
      Round v l iblock (.ok (l', p))
  | full (e : Errno) (l' : Layout) : l'.Sound v → l'.inode = l.inode →
      Round v l iblock (.error (.short e l'))

/-- **One round of a write**, where group 0 answers the search for a block and the
number of the block found can be recorded. -/
theorem writeBlock_cases (sound : l.Sound v)
    (first : l.inode.mapped iblock = none → FromFirstGroup v l.bitmaps)
    (recorded : ∀ l' p, l.inode.mapped iblock = none → writeBlock v l iblock = .ok (l', p) →
      iblock + 1 < 2 ^ 32 ∧ Recorded l.inode iblock p) :
    Round v l iblock (writeBlock v l iblock) := by
  cases here : l.inode.mapped iblock with
  | some p =>
      have kept : writeBlock v l iblock = .ok (l, p) := by
        simp only [writeBlock, ext4GetBlock_eq sound.inode.magic, here]
      rw [kept]
      exact .kept p here
  | none =>
      have get : ext4GetBlock l.inode iblock = .error .enospc := by
        rw [ext4GetBlock_eq sound.inode.magic, here]
      cases ext4NewBlock_cases (first here) with
      | inl none =>
          have stopped : writeBlock v l iblock = .error (.short .enospc l) := by
            simp only [writeBlock, get, none]
          rw [stopped]
          exact .full _ l sound rfl
      | inr some =>
          obtain ⟨idx, _, clear, new⟩ := some
          cases set : ext4SetBlock v l.inode iblock (idx + v.firstDataBlock) with
          | error e =>
              have stopped : writeBlock v l iblock =
                  .error (.short .enospc { l with bitmaps := setBit l.bitmaps 0 idx }) := by
                simp only [writeBlock, get, new, set]
              rw [stopped]
              exact .full _ _ (sound.mark idx) rfl
          | ok inode' =>
              have mapped : writeBlock v l iblock =
                  .ok ({ inode := inode', bitmaps := setBit l.bitmaps 0 idx },
                    idx + v.firstDataBlock) := by
                simp only [writeBlock, get, new, set]
              obtain ⟨fits, recorded⟩ := recorded _ _ here mapped
              have adds := ext4SetBlock_adds sound.inode fits here recorded set
              rw [mapped]
              exact .added _ _ here (sound.unused clear) (sound.add clear adds) adds

end WriteBlock

end Minus.Fs.Ext4
