/-
# Fs.Ext4Alloc — the bitmaps of ext4, and the blocks that inodes have

`ext4_find_free_block` of `kernel/fs/backend/ext4fs/extent.c` and `ext4_find_free_inode` of
`inode.c`: the first group with a clear bit, as the search goes.  A bitmap is kept under
the group whose descriptor names its block, and apart from the blocks of the inodes: it lies
in a block that is in use.  `ext4_read_bitmap` takes the first descriptor of descriptor block
`group` for group `group` (`Fs.Ext4Super`), so that from group 1 on the bit of one block is
set and the number of another is given.

The calls of an allocator that are to be compared with what the inodes have are those of a
`Theory.Ledger`: the slots are the bits of the block bitmaps, and a slot is held if an inode
has its block.
-/
import Minus.Fs.Ext4DirBytes
import Minus.Theory.Ledger

namespace Minus.Fs.Ext4Bytes

set_option autoImplicit false

open Minus.Theory
open Minus.Fs.Dcache (Errno)
open Minus.Fs.Ext4 (Extent Faithful findFirstZeroBit findFirstZeroBit_clear)

/-! ## Bitmaps -/

/-- The bitmaps of one kind, and which of them `sb_bread` can read. -/
structure Bitmaps where
  bits : Nat → Nat → Bool
  readable : Nat → Bool

/-- `set_bit(idx, bitmap)` in the bitmap of group `g`. -/
def Bitmaps.set (m : Bitmaps) (g idx : Nat) : Bitmaps :=
  { m with bits := Function.update m.bits g (Function.update (m.bits g) idx true) }

/-- The group that a descriptor is for. -/
def SbInfo.describes (sbi : SbInfo) (d : Desc) : Nat := d.blk * sbi.sDescPerBlock.toNat + d.off / 32

section Search

variable (sbi : SbInfo) (perGroup : UInt32) (read : UInt32 → Except Fault (Desc × UInt32)) (m : Bitmaps)

/-- The loop of `ext4_find_free_block` and of `ext4_find_free_inode`, with the number of
groups left: the group, the group whose bit is set, and the bit. -/
def findFreeFrom : Nat → UInt32 → Except Fault (Option (UInt32 × Nat × Nat))
  | 0, _ => .ok none
  | left + 1, group => do
      let (gdp, _) ← read group
      let g := sbi.describes gdp
      if m.readable g then
        let idx := findFirstZeroBit (m.bits g) perGroup.toNat
        if idx < perGroup.toNat then .ok (some (group, g, idx)) else findFreeFrom left (group + 1)
      else findFreeFrom left (group + 1)

def findFree : Except Fault (Option (UInt32 × Nat × Nat)) := findFreeFrom sbi perGroup read m sbi.sGroupsCount.toNat 0

end Search

/-- The block that is given for bit `idx` of group `group`. -/
def SbInfo.pblock (sbi : SbInfo) (group : UInt32) (idx : Nat) : UInt64 :=
  group.toUInt64 * sbi.sBlocksPerGroup.toUInt64 + UInt64.ofNat idx + sbi.sFirstDataBlock.toUInt64

/-- `ext4_new_block`, which is `ext4_find_free_block`. -/
def ext4NewBlock (sbi : SbInfo) : NewBlock Bitmaps := fun m bread => do
  match ← findFree sbi sbi.sBlocksPerGroup (fun group => ext4ReadBlockBitmap sbi group false) m with
  | none => .ok ((m, bread), .error (.other 28))
  | some (group, g, idx) => .ok ((m.set g idx, bread), .ok (sbi.pblock group idx))

/-- `ext4_find_free_inode`. -/
def ext4FindFreeInode (sbi : SbInfo) (m : Bitmaps) : Except Fault (Bitmaps × Except Errno UInt32) := do
  match ← findFree sbi sbi.sInodesPerGroup (fun group => ext4ReadInodeBitmap sbi group true) m with
  | none => .ok (m, .error (.other 28))
  | some (group, g, idx) => .ok (m.set g idx, .ok (group * sbi.sInodesPerGroup + UInt32.ofNat idx + 1))

/-! ## What the search finds -/

/-- The bit that the search comes to: in the first group with a bitmap that can be read and
has a clear bit, and the first in its bitmap. -/
structure FirstFree (sbi : SbInfo) (perGroup : UInt32) (m : Bitmaps) (group idx : Nat) : Prop where
  below : group < sbi.sGroupsCount.toNat
  readable : m.readable (group * sbi.sDescPerBlock.toNat) = true
  inside : idx < perGroup.toNat
  clear : m.bits (group * sbi.sDescPerBlock.toNat) idx = false
  first : ∀ i < idx, m.bits (group * sbi.sDescPerBlock.toNat) i = true
  earlier : ∀ h < group, m.readable (h * sbi.sDescPerBlock.toNat) = true →
    ∀ i < perGroup.toNat, m.bits (h * sbi.sDescPerBlock.toNat) i = true

/-- The result of a search: there is no such bit, or it is this one. -/
def Finds (sbi : SbInfo) (perGroup : UInt32) (m : Bitmaps) : Option (UInt32 × Nat × Nat) → Prop
  | none => ∀ g i, ¬ FirstFree sbi perGroup m g i
  | some (group, g, idx) => FirstFree sbi perGroup m group.toNat idx ∧ g = group.toNat * sbi.sDescPerBlock.toNat

section FirstFree

variable {sbi : SbInfo} {perGroup : UInt32} {read : UInt32 → Except Fault (Desc × UInt32)} {m : Bitmaps}
  {group group' idx idx' : Nat}

theorem FirstFree.unique (one : FirstFree sbi perGroup m group idx) (other : FirstFree sbi perGroup m group' idx') :
    group = group' ∧ idx = idx' := by
  have same : group = group' := by
    rcases Nat.lt_trichotomy group group' with less | same | more
    · have := other.earlier group less one.readable idx one.inside
      rw [one.clear] at this
      cases this
    · exact same
    · have := one.earlier group' more other.readable idx' other.inside
      rw [other.clear] at this
      cases this
  subst same
  refine ⟨rfl, ?_⟩
  rcases Nat.lt_trichotomy idx idx' with less | same | more
  · have := other.first idx less
    rw [one.clear] at this
    cases this
  · exact same
  · have := one.first idx' more
    rw [other.clear] at this
    cases this

theorem findFirstZeroBit_before {bits : Nat → Bool} {size i : Nat} (before : i < findFirstZeroBit bits size)
    (inside : i < size) : bits i = true := by
  unfold findFirstZeroBit at before
  cases search : (List.range size).find? fun i => !bits i with
  | none =>
      have := List.find?_eq_none.1 search i (List.mem_range.2 inside)
      simpa using this
  | some j =>
      rw [search, Option.getD_some] at before
      obtain ⟨_, as, bs, split_, none_⟩ := List.find?_eq_some_iff_append.1 search
      have member : i ∈ as := by
        have place := congrArg (fun l => l[i]?) split_
        have length : as.length = j := by
          have at_ := congrArg (fun l => l[as.length]?) split_
          simp only [List.getElem?_append_right (Nat.le_refl _), Nat.sub_self, List.getElem?_cons_zero] at at_
          obtain ⟨_, same⟩ := List.getElem?_eq_some_iff.1 at_
          rwa [List.getElem_range] at same
        simp only [List.getElem?_append_left (length ▸ before), List.getElem?_range inside] at place
        exact List.mem_of_getElem? place.symm
      simpa using none_ i member

/-- A search from a group on whose predecessors have no clear bit. -/
theorem findFreeFrom_spec (reads : ∀ group gdp block, read group = .ok (gdp, block) → gdp = groupDesc group)
    {left : Nat} {group : UInt32} {out : Option (UInt32 × Nat × Nat)} (rounds : group.toNat + left = sbi.sGroupsCount.toNat)
    (earlier : ∀ h < group.toNat, m.readable (h * sbi.sDescPerBlock.toNat) = true →
      ∀ i < perGroup.toNat, m.bits (h * sbi.sDescPerBlock.toNat) i = true)
    (run : findFreeFrom sbi perGroup read m left group = .ok out) :
    Finds sbi perGroup m out := by
  induction left generalizing group with
  | zero =>
      obtain rfl := Except.ok.inj run
      intro g i free
      have := earlier g (by have := free.below; omega) free.readable i free.inside
      rw [free.clear] at this
      cases this
  | succ left ih =>
      have wide := sbi.sGroupsCount.toNat_lt
      rw [findFreeFrom] at run
      obtain ⟨⟨gdp, block⟩, here, run⟩ := bind_eq_ok.1 run
      obtain rfl := reads group gdp block here
      have described : sbi.describes (groupDesc group) = group.toNat * sbi.sDescPerBlock.toNat := by
        rw [SbInfo.describes, groupDesc, Nat.zero_div, Nat.add_zero]
      have next : (group + 1).toNat = group.toNat + 1 := by
        rw [UInt32.toNat_add, Nat.mod_eq_of_lt (by show group.toNat + 1 < _; omega)]
        rfl
      -- this group has no clear bit either
      have later (full : m.readable (group.toNat * sbi.sDescPerBlock.toNat) = true →
          ∀ i < perGroup.toNat, m.bits (group.toNat * sbi.sDescPerBlock.toNat) i = true) :=
        @ih (group + 1) (by omega) (fun h less readable => by
          rcases Nat.lt_or_eq_of_le (by omega : h ≤ group.toNat) with before | rfl
          · exact earlier h before readable
          · exact full readable)
      dsimp only at run
      rw [described] at run
      split at run
      · rename_i readable
        split at run
        · rename_i inside
          obtain rfl := Except.ok.inj run
          exact ⟨⟨by omega, readable, inside, findFirstZeroBit_clear inside,
            fun i before => findFirstZeroBit_before before (by omega), earlier⟩, rfl⟩
        · rename_i full
          exact later (fun _ i below => findFirstZeroBit_before (by omega) below) run
      · rename_i unreadable
        exact later (fun readable => absurd readable unreadable) run

theorem findFree_spec (reads : ∀ group gdp block, read group = .ok (gdp, block) → gdp = groupDesc group)
    {out : Option (UInt32 × Nat × Nat)} (run : findFree sbi perGroup read m = .ok out) :
    Finds sbi perGroup m out :=
  findFreeFrom_spec reads (Nat.zero_add _) (fun _ below => absurd below (Nat.not_lt_zero _)) run

end FirstFree

/-! ## The blocks of an inode -/

/-- The blocks of an extent; the length of one that is not written is above 32768. -/
def Covers (e : Extent) (q : Nat) : Prop :=
  e.phys ≤ q ∧ q < e.phys + if e.eeLen ≤ 32768 then e.eeLen else e.eeLen - 32768

/-- A record of the inode is for block `q` of the volume. -/
def Has (d : Bytes) (q : Nat) : Prop := ehMagic d = extentHeaderMagic ∧ ∃ e ∈ extents d, Covers e q

/-- `ext4_set_block` can make a record that is for this block: the last one grows, or there
is room for another and the number survives it. -/
def Attachable (d : Bytes) (iblock : UInt32) (pblock : UInt64) : Prop :=
  let d := headed d
  let n := (ehEntries d).toNat
  (0 < n ∧ continues d (n - 1) iblock pblock = true) ∨ (n < (ehMax d).toNat ∧ Faithful pblock.toNat)

instance (d : Bytes) (iblock : UInt32) (pblock : UInt64) : Decidable (Attachable d iblock pblock) :=
  inferInstanceAs (Decidable (_ ∨ (_ < _ ∧ _ / _ % _ = _ / _)))

section Blocks

variable {d : Bytes} {n q : Nat} {iblock : UInt32} {pblock : UInt64} {e : Extent} {inode : Inode}

theorem headed_magic (d : Bytes) : ehMagic (headed d) = extentHeaderMagic := by
  unfold headed
  split
  · assumption
  · rw [ehMagic, load16_store16_of_apart _ _ (.inl (by omega)), load16_store16_of_apart _ _ (.inl (by omega)),
      load16_store16_of_apart _ _ (.inl (by omega)), load16_store16]

/-- A header that is put there has no records. -/
theorem has_headed (d : Bytes) (q : Nat) : Has (headed d) q ↔ Has d q := by
  by_cases magic : ehMagic d = extentHeaderMagic
  · rw [headed, if_pos magic]
  · refine iff_of_false ?_ fun has => magic has.1
    have none_ : ehEntries (headed d) = 0 := by
      rw [headed, if_neg magic, ehEntries, load16_store16_of_apart _ _ (.inl (by omega)),
        load16_store16_of_apart _ _ (.inl (by omega)), load16_store16]
    rintro ⟨-, e, member, -⟩
    rw [extents, none_] at member
    cases member

theorem covers_grown (short : e.eeLen < 32768) : Covers e.grown q ↔ Covers e q ∨ q = e.phys + e.eeLen := by
  have len : e.grown.eeLen = e.eeLen + 1 := Nat.mod_eq_of_lt (by omega)
  have phys : e.grown.phys = e.phys := rfl
  unfold Covers
  rw [len, phys, if_pos (by omega), if_pos (by omega)]
  omega

theorem covers_single {ib p : Nat} : Covers (.single ib p) q ↔ q = (Extent.single ib p).phys := by
  unfold Covers
  rw [show (Extent.single ib p).eeLen = 1 from rfl, if_pos (by omega)]
  omega

/-- A record that grows is for the new block as well. -/
theorem has_grow (count : (ehEntries d).toNat = n + 1) (magic : ehMagic d = extentHeaderMagic)
    (next : continues d n iblock pblock = true) : Has (grow d n) q ↔ Has d q ∨ q = pblock.toNat := by
  rw [continues_eq] at next
  obtain ⟨-, place, short⟩ := decide_eq_true_iff.1 next
  rw [Has, Has, grow_magic, extents_grow count, extents_last count, and_iff_right magic, and_iff_right magic]
  simp only [List.mem_append, List.mem_singleton, or_and_right, exists_or, exists_eq_left, covers_grown short, place]
  exact or_assoc.symm

/-- A new record is for the block that its two halves say. -/
theorem has_append (room : (ehEntries d).toNat < (ehMax d).toNat) (magic : ehMagic d = extentHeaderMagic) :
    Has (append d (ehEntries d).toNat iblock pblock) q ↔
      Has d q ∨ q = (Extent.single iblock.toNat pblock.toNat).phys := by
  have wide := (ehMax d).toNat_lt
  rw [Has, Has, append_magic, extents_append rfl (by omega), and_iff_right magic, and_iff_right magic]
  simp only [List.mem_append, List.mem_singleton, or_and_right, exists_or, exists_eq_left, covers_single]

theorem attachable_set (blockSize : UInt32) (inode : Inode) (attachable : Attachable inode.iData iblock pblock) :
    (ext4SetBlock blockSize inode iblock pblock).2 = .ok () := by
  rcases setBlock_cases blockSize inode iblock pblock with ⟨-, -, set⟩ | ⟨apart, ⟨full, -⟩ | ⟨-, set⟩⟩
  · exact congrArg Prod.snd set
  · rcases attachable with next | ⟨room, -⟩
    · exact absurd next apart
    · omega
  · exact congrArg Prod.snd set

/-- **What `ext4_set_block` adds to the blocks of an inode.** -/
theorem has_set (blockSize : UInt32) (inode : Inode) (iblock : UInt32) (small : pblock.toNat < 2 ^ 32) :
    (Attachable inode.iData iblock pblock ∧
        ∀ q, Has (ext4SetBlock blockSize inode iblock pblock).1.iData q ↔ Has inode.iData q ∨ q = pblock.toNat) ∨
      (¬ Attachable inode.iData iblock pblock ∧
        ∀ q < 2 ^ 32, Has (ext4SetBlock blockSize inode iblock pblock).1.iData q ↔ Has inode.iData q) := by
  have magic := headed_magic inode.iData
  unfold Attachable
  dsimp only
  rcases setBlock_cases blockSize inode iblock pblock with ⟨positive, next, set⟩ | ⟨apart, ⟨full, set⟩ | ⟨room, set⟩⟩
  · refine .inl ⟨.inl ⟨positive, next⟩, fun q => ?_⟩
    have data : (ext4SetBlock blockSize inode iblock pblock).1.iData = grow (headed inode.iData) _ :=
      congrArg (fun out => out.1.iData) set
    rw [data, ← has_headed inode.iData]
    exact has_grow (Nat.succ_pred_eq_of_pos positive).symm magic next
  · have data : (ext4SetBlock blockSize inode iblock pblock).1.iData = headed inode.iData :=
      congrArg (fun out => out.1.iData) set
    refine .inr ⟨fun attachable => ?_, fun q _ => by rw [data, has_headed]⟩
    rcases attachable with next | ⟨room, -⟩
    · exact apart next
    · omega
  · have data : (ext4SetBlock blockSize inode iblock pblock).1.iData = append (headed inode.iData) _ iblock pblock :=
      congrArg (fun out => out.1.iData) set
    by_cases faithful : Faithful pblock.toNat
    · refine .inl ⟨.inr ⟨room, faithful⟩, fun q => ?_⟩
      rw [data, has_append room magic, has_headed, Ext4.phys_single faithful]
    · refine .inr ⟨fun attachable => ?_, fun q below => ?_⟩
      · rcases attachable with next | ⟨-, right⟩
        · exact apart next
        · exact faithful right
      · rw [data, has_append room magic, has_headed]
        refine or_iff_left fun same => faithful ?_
        have phys : (Extent.single iblock.toNat pblock.toNat).phys =
            pblock.toNat / 2 ^ 16 % 2 ^ 16 * 2 ^ 32 + pblock.toNat % 2 ^ 32 := rfl
        unfold Faithful
        omega

end Blocks

end Minus.Fs.Ext4Bytes
