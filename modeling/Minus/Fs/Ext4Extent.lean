/-
# Fs.Ext4Extent — the extents of an inode, byte by byte

`ext4_get_block` and `ext4_set_block` of `kernel/fs/backend/ext4fs/extent.c` on the 60
bytes of `i_data`: a header of 12 bytes and up to four records of 12 bytes.  The decoded
records are the extents of `Fs.Ext4` (`extents`), and both functions are the ones of
`Fs.Ext4` and `Fs.Ext4Map` on them (`ext4GetBlock_eq`, `setBlock_cases`).

A recorded block is read back exactly if its number survives the encoding
(`Recordable`): the high half is taken from bit 16 on, and the end of an extent is a
32-bit sum.
-/
import Minus.Fs.Ext4Map
import Minus.Theory.Bytes
import Mathlib.Data.List.Range

namespace Minus.Fs.Ext4Bytes

set_option autoImplicit false

open Minus.Theory
open Minus.Fs.Ext4 (Errno Extent locate Faithful)

/-! ## The layout of `i_data` -/

def ehMagic (d : Bytes) : UInt16 := load16 d 0
def ehEntries (d : Bytes) : UInt16 := load16 d 2
def ehMax (d : Bytes) : UInt16 := load16 d 4
def ehDepth (d : Bytes) : UInt16 := load16 d 6

/-- The address of `ex[i]`, behind the header. -/
def exAt (i : Nat) : Nat := 12 + 12 * i

def eeBlock (d : Bytes) (i : Nat) : UInt32 := load32 d (exAt i)
def eeLen (d : Bytes) (i : Nat) : UInt16 := load16 d (exAt i + 4)
def eeStartHi (d : Bytes) (i : Nat) : UInt16 := load16 d (exAt i + 6)
def eeStartLo (d : Bytes) (i : Nat) : UInt32 := load32 d (exAt i + 8)

/-- `((uint64_t)ee_start_hi << 32) | ee_start_lo`. -/
def eePhys (d : Bytes) (i : Nat) : UInt64 :=
  (eeStartHi d i).toUInt64 <<< 32 ||| (eeStartLo d i).toUInt64

/-- `EXT4_EXTENT_HEADER_MAGIC`. -/
def extentHeaderMagic : UInt16 := 0xF30A

/-- `(sizeof(i_data) - sizeof(header)) / sizeof(extent)`. -/
def extentMax : UInt16 := (60 - 12) / 12

/-- The fields of `struct inode` and of `ext4_inode_info` that the functions of ext4 use. -/
structure Inode where
  iIno : UInt64
  iMode : UInt16
  iNlink : UInt32
  iUid : UInt32
  iGid : UInt32
  iSize : UInt64
  iBlocks : UInt64
  iDirty : Bool
  rawInode : Bytes
  iData : Bytes

/-! ## extent.c -/

/-- The loop of `ext4_get_block` with the number of records left. -/
def findExtent (d : Bytes) (iblock : UInt32) : Nat → Nat → Option UInt64
  | 0, _ => none
  | left + 1, i =>
      let start := eeBlock d i
      if start ≤ iblock ∧ iblock < start + (eeLen d i).toUInt32 then
        some (eePhys d i + (iblock - start).toUInt64)
      else findExtent d iblock left (i + 1)

def ext4GetBlock (inode : Inode) (iblock : UInt32) : Except Errno UInt64 :=
  if ehMagic inode.iData = extentHeaderMagic then
    match findExtent inode.iData iblock (ehEntries inode.iData).toNat 0 with
    | some pblock => .ok pblock
    | none => .error .enospc
  else
    .error .eio

/-- The header that `ext4_set_block` puts there if there is none. -/
def headed (d : Bytes) : Bytes :=
  if ehMagic d = extentHeaderMagic then d
  else store16 (store16 (store16 (store16 d 0 extentHeaderMagic) 2 0) 4 extentMax) 6 0

/-- The block follows record `i` in the file and on the disk, and the length can grow. -/
def continues (d : Bytes) (i : Nat) (iblock : UInt32) (pblock : UInt64) : Bool :=
  decide (iblock = eeBlock d i + (eeLen d i).toUInt32 ∧
    pblock = eePhys d i + (eeLen d i).toUInt64 ∧ eeLen d i < 32768)

/-- `last->ee_len++`. -/
def grow (d : Bytes) (i : Nat) : Bytes := store16 d (exAt i + 4) (eeLen d i + 1)

/-- Record `n` for one block, and the count; the high half is `pblock >> 16`. -/
def append (d : Bytes) (n : Nat) (iblock : UInt32) (pblock : UInt64) : Bytes :=
  let d := store32 d (exAt n) iblock
  let d := store16 d (exAt n + 4) 1
  let d := store32 d (exAt n + 8) (pblock &&& 0xffffffff).toUInt32
  let d := store16 d (exAt n + 6) (pblock >>> 16).toUInt16
  store16 d 2 (UInt16.ofNat (n + 1))

/-- `i_blocks += s_blocksize / 512; mark_inode_dirty(inode)`. -/
def Inode.charge (inode : Inode) (blockSize : UInt32) : Inode :=
  { inode with iBlocks := inode.iBlocks + (blockSize / 512).toUInt64, iDirty := true }

def ext4SetBlock (blockSize : UInt32) (inode : Inode) (iblock : UInt32) (pblock : UInt64) :
    Inode × Except Errno Unit :=
  let d := headed inode.iData
  let n := (ehEntries d).toNat
  if 0 < n ∧ continues d (n - 1) iblock pblock then
    ({ inode with iData := grow d (n - 1) }.charge blockSize, .ok ())
  else if (ehMax d).toNat ≤ n then ({ inode with iData := d }, .error .enospc)
  else ({ inode with iData := append d n iblock pblock }.charge blockSize, .ok ())

/-! ## The records as extents -/

def extentAt (d : Bytes) (i : Nat) : Extent where
  eeBlock := (eeBlock d i).toNat
  eeLen := (eeLen d i).toNat
  eeStartHi := (eeStartHi d i).toNat
  eeStartLo := (eeStartLo d i).toNat

def extents (d : Bytes) : List Extent := (List.range (ehEntries d).toNat).map (extentAt d)

section Decode

variable {d d' : Bytes} {i n : Nat} {iblock b : UInt32} {pblock : UInt64}

theorem eePhys_toNat (d : Bytes) (i : Nat) : (eePhys d i).toNat = (extentAt d i).phys := by
  have hi := (eeStartHi d i).toNat_lt
  have lo := (eeStartLo d i).toNat_lt
  have shifted : ((eeStartHi d i).toUInt64 <<< 32).toNat = 2 ^ 32 * (eeStartHi d i).toNat := by
    rw [UInt64.toNat_shiftLeft, UInt16.toNat_toUInt64, Nat.shiftLeft_eq]
    show (eeStartHi d i).toNat * 2 ^ 32 % 2 ^ 64 = _
    omega
  rw [eePhys, UInt64.toNat_or, shifted, UInt32.toNat_toUInt64, ← Nat.two_pow_add_eq_or_of_lt lo,
    Extent.phys, extentAt]
  simp only
  omega

theorem phys_lt (d : Bytes) (i : Nat) : (extentAt d i).phys < 2 ^ 48 := by
  have hi := (eeStartHi d i).toNat_lt
  have lo := (eeStartLo d i).toNat_lt
  rw [Extent.phys, extentAt]
  simp only
  omega

theorem holds_extentAt (d : Bytes) (i b : Nat) :
    (extentAt d i).holds b = true ↔
      (eeBlock d i).toNat ≤ b ∧ b < ((eeBlock d i).toNat + (eeLen d i).toNat) % 2 ^ 32 := by
  simp only [Extent.holds, extentAt]
  exact decide_eq_true_iff

/-- The test of the loop is the one on the decoded record. -/
theorem holds_iff (d : Bytes) (i : Nat) (b : UInt32) :
    (eeBlock d i ≤ b ∧ b < eeBlock d i + (eeLen d i).toUInt32) ↔
      (extentAt d i).holds b.toNat = true := by
  rw [Extent.holds, decide_eq_true_iff, UInt32.le_iff_toNat_le, UInt32.lt_iff_toNat_lt,
    UInt32.toNat_add, UInt16.toNat_toUInt32]
  rfl

/-- The block that record `i` gives. -/
theorem found_toNat (here : (extentAt d i).holds b.toNat = true) :
    (eePhys d i + (b - eeBlock d i).toUInt64).toNat =
      (extentAt d i).phys + (b.toNat - (extentAt d i).eeBlock) := by
  have low := ((holds_iff d i b).2 here).1
  have small := phys_lt d i
  have := b.toNat_lt
  rw [UInt64.toNat_add, eePhys_toNat, UInt32.toNat_toUInt64, UInt32.toNat_sub_of_le _ _ low]
  show ((extentAt d i).phys + (b.toNat - (extentAt d i).eeBlock)) % 2 ^ 64 = _
  omega

theorem findExtent_eq (d : Bytes) (b : UInt32) (left i : Nat) :
    findExtent d b left i =
      (locate ((List.range' i left).map (extentAt d)) b.toNat).map UInt64.ofNat := by
  induction left generalizing i with
  | zero => rfl
  | succ left ih =>
      rw [findExtent, List.range'_succ, List.map_cons, locate]
      simp only [holds_iff]
      split
      · rename_i here
        rw [List.find?_cons_of_pos (by exact here), Option.map_some, Option.map_some, ← found_toNat here,
          UInt64.ofNat_toNat]
      · rename_i apart
        rw [List.find?_cons_of_neg (by exact apart), ih]
        rfl

/-- **The search is the one on the decoded extents.** -/
theorem ext4GetBlock_eq {inode : Inode} (magic : ehMagic inode.iData = extentHeaderMagic) (b : UInt32) :
    ext4GetBlock inode b =
      match locate (extents inode.iData) b.toNat with
      | some pblock => .ok (UInt64.ofNat pblock)
      | none => .error .enospc := by
  rw [ext4GetBlock, if_pos magic, findExtent_eq, extents, List.range_eq_range']
  cases locate ((List.range' 0 (ehEntries inode.iData).toNat).map (extentAt inode.iData)) b.toNat <;> rfl

theorem locate_lt {p : Nat} (found : locate (extents d) b.toNat = some p) : p < 2 ^ 49 := by
  obtain ⟨e, first, rfl⟩ := Option.map_eq_some_iff.1 found
  obtain ⟨i, _, rfl⟩ := List.mem_map.1 (List.mem_of_find?_eq_some first)
  have := phys_lt d i
  have := b.toNat_lt
  omega

/-! ## Writing a record -/

/-- The records that a write leaves alone. -/
theorem extentAt_congr (same : ∀ x, exAt i ≤ x → x < exAt i + 12 → d' x = d x) :
    extentAt d' i = extentAt d i := by
  unfold extentAt eeBlock eeLen eeStartHi eeStartLo
  rw [load32_congr fun x low high => same x low (by omega), load16_congr fun x low high => same x (by omega) (by omega),
    load16_congr (a := exAt i + 6) fun x low high => same x (by omega) (by omega),
    load32_congr (a := exAt i + 8) fun x low high => same x (by omega) (by omega)]

/-- The records split at the last one. -/
theorem extents_last (count : (ehEntries d).toNat = n + 1) :
    extents d = (List.range n).map (extentAt d) ++ [extentAt d n] := by
  rw [extents, count, List.range_succ, List.map_append, List.map_singleton]

theorem grow_outside {x : Nat} (outside : x < exAt i + 4 ∨ exAt i + 6 ≤ x) : grow d i x = d x :=
  store16_outside d _ fun inside => by
    have := inside.1
    have := inside.2
    omega

theorem extentAt_grow (d : Bytes) (i : Nat) : extentAt (grow d i) i = (extentAt d i).grown := by
  have len : eeLen (grow d i) i = eeLen d i + 1 := load16_store16 ..
  have block : eeBlock (grow d i) i = eeBlock d i :=
    load32_congr fun x low high => grow_outside (.inl (by omega))
  have hi : eeStartHi (grow d i) i = eeStartHi d i :=
    load16_congr fun x low high => grow_outside (.inr (by omega))
  have lo : eeStartLo (grow d i) i = eeStartLo d i :=
    load32_congr fun x low high => grow_outside (.inr (by omega))
  unfold extentAt Extent.grown
  rw [len, block, hi, lo, UInt16.toNat_add]
  rfl

theorem append_outside {x : Nat} (count : x < 2 ∨ 4 ≤ x) (outside : x < exAt n ∨ exAt n + 12 ≤ x) :
    append d n iblock pblock x = d x := by
  unfold append
  rw [store16_outside, store16_outside, store32_outside, store16_outside, store32_outside]
  all_goals
    rw [Set.mem_Ico]
    omega

theorem append_entries (d : Bytes) (n : Nat) (iblock : UInt32) (pblock : UInt64) :
    ehEntries (append d n iblock pblock) = UInt16.ofNat (n + 1) := load16_store16 ..

theorem extentAt_append (d : Bytes) (n : Nat) (iblock : UInt32) (pblock : UInt64) :
    extentAt (append d n iblock pblock) n = .single iblock.toNat pblock.toNat := by
  have first : 12 ≤ exAt n := Nat.le_add_right ..
  have block : eeBlock (append d n iblock pblock) n = iblock := by
    rw [eeBlock, append, load32_store16_of_apart _ _ (.inr (by omega)), load32_store16_of_apart _ _ (.inl (by omega)),
      load32_store32_of_apart _ _ (.inl (by omega)), load32_store16_of_apart _ _ (.inl (by omega)), load32_store32]
  have len : eeLen (append d n iblock pblock) n = 1 := by
    rw [eeLen, append, load16_store16_of_apart _ _ (.inr (by omega)), load16_store16_of_apart _ _ (.inl (by omega)),
      load16_store32_of_apart _ _ (.inl (by omega)), load16_store16]
  have lo : eeStartLo (append d n iblock pblock) n = (pblock &&& 0xffffffff).toUInt32 := by
    rw [eeStartLo, append, load32_store16_of_apart _ _ (.inr (by omega)),
      load32_store16_of_apart _ _ (.inr (by omega)), load32_store32]
  have hi : eeStartHi (append d n iblock pblock) n = (pblock >>> 16).toUInt16 := by
    rw [eeStartHi, append, load16_store16_of_apart _ _ (.inr (by omega)), load16_store16]
  have low : (pblock &&& 0xffffffff).toUInt32.toNat = pblock.toNat % 2 ^ 32 := by
    rw [UInt64.toNat_toUInt32, UInt64.toNat_and]
    show (pblock.toNat &&& (2 ^ 32 - 1)) % 2 ^ 32 = _
    rw [Nat.and_two_pow_sub_one_eq_mod, Nat.mod_mod]
  have high : (pblock >>> 16).toUInt16.toNat = pblock.toNat / 2 ^ 16 % 2 ^ 16 := by
    rw [UInt64.toNat_toUInt16, UInt64.toNat_shiftRight]
    show (pblock.toNat >>> 16) % 2 ^ 16 = _
    rw [Nat.shiftRight_eq_div_pow]
  unfold extentAt Extent.single
  rw [block, len, lo, hi, low, high]
  rfl

/-- The test of `ext4_set_block` on the decoded record. -/
theorem continues_eq (d : Bytes) (i : Nat) (iblock : UInt32) (pblock : UInt64) :
    continues d i iblock pblock = (extentAt d i).continues iblock.toNat pblock.toNat := by
  have small := phys_lt d i
  have len := (eeLen d i).toNat_lt
  unfold continues Extent.continues
  congr 1
  rw [← UInt32.toNat_inj, ← UInt64.toNat_inj, UInt32.toNat_add, UInt64.toNat_add, eePhys_toNat,
    UInt16.toNat_toUInt32, UInt16.toNat_toUInt64, UInt16.lt_iff_toNat_lt]
  rw [Nat.mod_eq_of_lt (show (extentAt d i).phys + (eeLen d i).toNat < 2 ^ 64 by omega)]
  rfl

end Decode

/-! ## Recording a block -/

/-- Extent format with depth 0, and no more records than fit. -/
structure ExtentRoot (d : Bytes) : Prop where
  magic : ehMagic d = extentHeaderMagic
  depth : ehDepth d = 0
  count : ehEntries d ≤ ehMax d
  fits : ehMax d ≤ extentMax

/-- The block is read back and the others are where they were; an error changes nothing. -/
def RoundTrips (blockSize : UInt32) (inode : Inode) (iblock : UInt32) (pblock : UInt64) : Prop :=
  match ext4SetBlock blockSize inode iblock pblock with
  | (inode', .ok ()) => ext4GetBlock inode' iblock = .ok pblock ∧
      ∀ b, b ≠ iblock → ext4GetBlock inode' b = ext4GetBlock inode b
  | (inode', .error _) => inode' = inode

/-- The record that `ext4_set_block` writes gives the block back: a record that grows must
end below the last block number, and so must a new one, in which bits 16 to 31 of the
physical number have to be the same as bits 32 to 47. -/
def Recordable (d : Bytes) (iblock : UInt32) (pblock : UInt64) : Prop :=
  let n := (ehEntries d).toNat
  if 0 < n ∧ continues d (n - 1) iblock pblock then
    (eeBlock d (n - 1)).toNat + (eeLen d (n - 1)).toNat + 1 < 2 ^ 32
  else n < (ehMax d).toNat → iblock.toNat + 1 < 2 ^ 32 ∧ Faithful pblock.toNat

instance (d : Bytes) (iblock : UInt32) (pblock : UInt64) : Decidable (Recordable d iblock pblock) :=
  inferInstanceAs (Decidable (if 0 < (ehEntries d).toNat ∧ continues d ((ehEntries d).toNat - 1) iblock pblock
    then _ < _ else _ < _ → _ < _ ∧ Faithful _))

section SetBlock

variable {d : Bytes} {n : Nat} {iblock b : UInt32} {pblock : UInt64} {blockSize : UInt32} {inode : Inode}

theorem ehMagic_congr {d' : Bytes} (same : ∀ x < 2, d' x = d x) : ehMagic d' = ehMagic d :=
  load16_congr fun x _ high => same x high

theorem grow_magic (d : Bytes) (i : Nat) : ehMagic (grow d i) = ehMagic d :=
  ehMagic_congr fun x low => grow_outside (.inl (Nat.lt_of_lt_of_le low (by unfold exAt; omega)))

theorem append_magic (d : Bytes) (n : Nat) (iblock : UInt32) (pblock : UInt64) :
    ehMagic (append d n iblock pblock) = ehMagic d :=
  ehMagic_congr fun x low => append_outside (.inl low) (.inl (Nat.lt_of_lt_of_le low (by unfold exAt; omega)))

/-- The last record grows. -/
theorem extents_grow (count : (ehEntries d).toNat = n + 1) :
    extents (grow d n) = (List.range n).map (extentAt d) ++ [(extentAt d n).grown] := by
  have entries : ehEntries (grow d n) = ehEntries d :=
    load16_congr fun x _ high => grow_outside (.inl (Nat.lt_of_lt_of_le high (by unfold exAt; omega)))
  rw [extents_last (n := n) (by rw [entries, count]), extentAt_grow]
  congr 1
  refine List.map_congr_left fun i member => extentAt_congr fun x _ high => grow_outside (.inl ?_)
  have := List.mem_range.1 member
  unfold exAt at *
  omega

/-- One more record. -/
theorem extents_append (count : (ehEntries d).toNat = n) (room : n + 1 < 2 ^ 16) :
    extents (append d n iblock pblock) = extents d ++ [.single iblock.toNat pblock.toNat] := by
  have entries : (ehEntries (append d n iblock pblock)).toNat = n + 1 := by
    rw [append_entries, UInt16.toNat_ofNat']
    omega
  rw [extents_last entries, extentAt_append, extents, count]
  congr 1
  refine List.map_congr_left fun i member => extentAt_congr fun x low high => append_outside ?_ (.inl ?_)
  all_goals
    have := List.mem_range.1 member
    unfold exAt at *
    omega

/-- What the bytes say after a record is written, in terms of the extents. -/
theorem get_eq_iff {inode' : Inode} (magic : ehMagic inode.iData = extentHeaderMagic)
    (magic' : ehMagic inode'.iData = extentHeaderMagic) :
    (ext4GetBlock inode' iblock = .ok pblock ∧
        ∀ b, b ≠ iblock → ext4GetBlock inode' b = ext4GetBlock inode b) ↔
      locate (extents inode'.iData) iblock.toNat = some pblock.toNat ∧
        ∀ b : UInt32, b ≠ iblock →
          locate (extents inode'.iData) b.toNat = locate (extents inode.iData) b.toNat := by
  have exact_ {d : Bytes} {b : UInt32} {p q : Nat} (found : locate (extents d) b.toNat = some p)
      (same : UInt64.ofNat p = UInt64.ofNat q) (small : q < 2 ^ 64) : p = q := by
    have := locate_lt found
    have := congrArg UInt64.toNat same
    rw [UInt64.toNat_ofNat', UInt64.toNat_ofNat'] at this
    omega
  refine and_congr ?_ (forall₂_congr fun b _ => ?_)
  · rw [ext4GetBlock_eq magic']
    cases found : locate (extents inode'.iData) iblock.toNat with
    | none => simp
    | some p =>
        simp only [Except.ok.injEq, Option.some.injEq]
        refine ⟨fun same => exact_ found (same.trans UInt64.ofNat_toNat.symm) pblock.toNat_lt, ?_⟩
        rintro rfl
        exact UInt64.ofNat_toNat
  · rw [ext4GetBlock_eq magic', ext4GetBlock_eq magic]
    cases found' : locate (extents inode'.iData) b.toNat with
    | none => cases locate (extents inode.iData) b.toNat <;> simp
    | some p =>
        cases found : locate (extents inode.iData) b.toNat with
        | none => simp
        | some q =>
            simp only [Except.ok.injEq, Option.some.injEq]
            refine ⟨fun same => exact_ found' same ?_, fun same => congrArg _ same⟩
            have := locate_lt found
            omega

theorem unmapped_iff (magic : ehMagic inode.iData = extentHeaderMagic) :
    ext4GetBlock inode iblock = .error .enospc ↔ locate (extents inode.iData) iblock.toNat = none := by
  rw [ext4GetBlock_eq magic]
  cases locate (extents inode.iData) iblock.toNat <;> simp

theorem toNat_ne (other : b ≠ iblock) : b.toNat ≠ iblock.toNat := fun same => other (UInt32.toNat_inj.1 same)

/-- A record that grows gives the new block, unless its end wraps around. -/
theorem grown_iff {rest : List Extent} {last : Extent} {ib p : Nat} (block : last.eeBlock < 2 ^ 32)
    (next : last.continues ib p = true) (unmapped : locate (rest ++ [last]) ib = none) :
    (locate (rest ++ [last.grown]) ib = some p ∧
        ∀ b, b ≠ ib → locate (rest ++ [last.grown]) b = locate (rest ++ [last]) b) ↔
      last.eeBlock + last.eeLen + 1 < 2 ^ 32 := by
  have parts : ib = (last.eeBlock + last.eeLen) % 2 ^ 32 ∧ p = last.phys + last.eeLen ∧ last.eeLen < 32768 := by
    simpa [Extent.continues] using next
  obtain ⟨place, _, small⟩ := parts
  constructor
  · rintro ⟨found, -⟩
    by_contra long
    have earlier : locate rest ib = none := by
      rw [Ext4.locate_append, Option.or_eq_none_iff] at unmapped
      exact unmapped.1
    have apart : ¬ last.grown.holds ib = true := by
      rw [Extent.holds, decide_eq_true_iff, Extent.grown]
      simp only
      omega
    rw [Ext4.locate_append, earlier, if_neg apart] at found
    cases found
  · intro short
    have eq (b : Nat) := Ext4.locate_grown (b := b) (by omega) (by omega) next unmapped
    refine ⟨?_, fun b other => ?_⟩
    · rw [eq, if_pos rfl]
    · rw [eq, if_neg other]

/-- A new record gives the block, if its end does not wrap around and the number fits. -/
theorem single_iff {l : List Extent} {ib p : Nat} (block : ib < 2 ^ 32) (unmapped : locate l ib = none) :
    (locate (l ++ [.single ib p]) ib = some p ∧
        ∀ b, b ≠ ib → locate (l ++ [.single ib p]) b = locate l b) ↔
      ib + 1 < 2 ^ 32 ∧ Faithful p := by
  constructor
  · rintro ⟨found, -⟩
    rw [Ext4.locate_append, unmapped, Option.none_or] at found
    split at found
    · rename_i held
      rw [Extent.holds, decide_eq_true_iff] at held
      simp only [Extent.single] at held
      have fits : ib + 1 < 2 ^ 32 := by omega
      refine ⟨fits, ?_⟩
      rw [Option.some.injEq] at found
      simp only [Extent.phys, Extent.single, Nat.sub_self, Nat.add_zero] at found
      show p / 2 ^ 16 % 2 ^ 16 = p / 2 ^ 32
      omega
    · cases found
  · rintro ⟨fits, faithful⟩
    have eq (b : Nat) := Ext4.locate_single (b := b) fits faithful unmapped
    refine ⟨?_, fun b other => ?_⟩
    · rw [eq, if_pos rfl]
    · rw [eq, if_neg other]

/-- A statement about the block numbers of 32 bits. -/
theorem forall_toNat {l l' : List Extent} (wide : ∀ b, 2 ^ 32 ≤ b → locate l' b = locate l b) :
    (∀ b : UInt32, b ≠ iblock → locate l' b.toNat = locate l b.toNat) ↔
      ∀ b, b ≠ iblock.toNat → locate l' b = locate l b := by
  constructor
  · intro all b other
    by_cases small : b < 2 ^ 32
    · have := all (UInt32.ofNat b) fun same => other (by
        rw [← same, UInt32.toNat_ofNat']
        exact (Nat.mod_eq_of_lt small).symm)
      rwa [UInt32.toNat_ofNat', Nat.mod_eq_of_lt small] at this
    · exact wide b (by omega)
  · exact fun all b other => all b.toNat (toNat_ne other)

theorem locate_wide (l : List Extent) {b : Nat} (wide : 2 ^ 32 ≤ b) : locate l b = none := by
  unfold locate
  rw [Option.map_eq_none_iff, List.find?_eq_none]
  intro e _
  rw [Extent.holds, decide_eq_true_iff]
  omega

/-- What `ext4_set_block` does: the last record grows, the records are full, or there is one
more. -/
theorem setBlock_cases (blockSize : UInt32) (inode : Inode) (iblock : UInt32) (pblock : UInt64) :
    (0 < (ehEntries (headed inode.iData)).toNat ∧
        continues (headed inode.iData) ((ehEntries (headed inode.iData)).toNat - 1) iblock pblock = true ∧
        ext4SetBlock blockSize inode iblock pblock = ({ inode with
          iData := grow (headed inode.iData) ((ehEntries (headed inode.iData)).toNat - 1) }.charge blockSize, .ok ())) ∨
      (¬ (0 < (ehEntries (headed inode.iData)).toNat ∧
          continues (headed inode.iData) ((ehEntries (headed inode.iData)).toNat - 1) iblock pblock = true) ∧
        ((ehMax (headed inode.iData)).toNat ≤ (ehEntries (headed inode.iData)).toNat ∧
            ext4SetBlock blockSize inode iblock pblock = ({ inode with iData := headed inode.iData }, .error .enospc) ∨
          (ehEntries (headed inode.iData)).toNat < (ehMax (headed inode.iData)).toNat ∧
            ext4SetBlock blockSize inode iblock pblock = ({ inode with
              iData := append (headed inode.iData) (ehEntries (headed inode.iData)).toNat iblock pblock }.charge blockSize,
                .ok ()))) := by
  unfold ext4SetBlock
  dsimp only
  by_cases next : 0 < (ehEntries (headed inode.iData)).toNat ∧
      continues (headed inode.iData) ((ehEntries (headed inode.iData)).toNat - 1) iblock pblock = true
  · exact .inl ⟨next.1, next.2, if_pos next⟩
  · refine .inr ⟨next, ?_⟩
    rw [if_neg next]
    by_cases full : (ehMax (headed inode.iData)).toNat ≤ (ehEntries (headed inode.iData)).toNat
    · exact .inl ⟨full, if_pos full⟩
    · exact .inr ⟨Nat.not_le.1 full, if_neg full⟩

theorem setBlock_root (root : ExtentRoot inode.iData) (blockSize iblock : UInt32) (pblock : UInt64) :
    (0 < (ehEntries inode.iData).toNat ∧
        continues inode.iData ((ehEntries inode.iData).toNat - 1) iblock pblock = true ∧
        ext4SetBlock blockSize inode iblock pblock =
          ({ inode with iData := grow inode.iData ((ehEntries inode.iData).toNat - 1) }.charge blockSize, .ok ())) ∨
      (¬ (0 < (ehEntries inode.iData).toNat ∧
          continues inode.iData ((ehEntries inode.iData).toNat - 1) iblock pblock = true) ∧
        ((ehMax inode.iData).toNat ≤ (ehEntries inode.iData).toNat ∧
            ext4SetBlock blockSize inode iblock pblock = (inode, .error .enospc) ∨
          (ehEntries inode.iData).toNat < (ehMax inode.iData).toNat ∧
            ext4SetBlock blockSize inode iblock pblock =
              ({ inode with iData := append inode.iData (ehEntries inode.iData).toNat iblock pblock }.charge blockSize,
                .ok ()))) := by
  have plain : headed inode.iData = inode.iData := if_pos root.magic
  have cases_ := setBlock_cases blockSize inode iblock pblock
  rwa [plain] at cases_

theorem ExtentRoot.congr (root : ExtentRoot d) {d' : Bytes} (same : ∀ x < 12, x < 2 ∨ 4 ≤ x → d' x = d x)
    (count : ehEntries d' ≤ ehMax d) : ExtentRoot d' := by
  have max : ehMax d' = ehMax d := load16_congr fun x low high => same x (by omega) (.inr low)
  have depth : ehDepth d' = ehDepth d := load16_congr fun x low high => same x (by omega) (.inr (by omega))
  exact ⟨(ehMagic_congr fun x high => same x (by omega) (.inl high)).trans root.magic, depth.trans root.depth,
    max ▸ count, max ▸ root.fits⟩

theorem setBlock_keeps_root (root : ExtentRoot inode.iData) {inode' : Inode}
    (done : ext4SetBlock blockSize inode iblock pblock = (inode', .ok ())) : ExtentRoot inode'.iData := by
  have few : (ehMax inode.iData).toNat ≤ 4 := UInt16.le_iff_toNat_le.1 root.fits
  rcases setBlock_root root blockSize iblock pblock with
    ⟨_, _, set⟩ | ⟨_, ⟨_, set⟩ | ⟨room, set⟩⟩
  · have data : inode'.iData = grow inode.iData ((ehEntries inode.iData).toNat - 1) :=
      congrArg (fun out => out.1.iData) (done.symm.trans set)
    have outside : ∀ x < 12, grow inode.iData ((ehEntries inode.iData).toNat - 1) x = inode.iData x :=
      fun x below => grow_outside (.inl (by unfold exAt; omega))
    have entries : ehEntries (grow inode.iData ((ehEntries inode.iData).toNat - 1)) = ehEntries inode.iData :=
      load16_congr fun x _ high => outside x (by omega)
    rw [data]
    exact root.congr (fun x below _ => outside x below) (entries ▸ root.count)
  · cases set.symm.trans done
  · have data : inode'.iData = append inode.iData (ehEntries inode.iData).toNat iblock pblock :=
      congrArg (fun out => out.1.iData) (done.symm.trans set)
    rw [data]
    refine root.congr (fun x below outside => append_outside outside (.inl (by unfold exAt; omega))) ?_
    rw [append_entries, UInt16.le_iff_toNat_le, UInt16.toNat_ofNat']
    omega

theorem setBlock_same (blockSize : UInt32) (inode : Inode) (iblock : UInt32) (pblock : UInt64) :
    (ext4SetBlock blockSize inode iblock pblock).1.iSize = inode.iSize ∧
      (ext4SetBlock blockSize inode iblock pblock).1.iMode = inode.iMode ∧
      (ext4SetBlock blockSize inode iblock pblock).1.iIno = inode.iIno := by
  unfold ext4SetBlock
  dsimp only
  split
  · exact ⟨rfl, rfl, rfl⟩
  · split
    · exact ⟨rfl, rfl, rfl⟩
    · exact ⟨rfl, rfl, rfl⟩

/-- A block that is recorded is read back if its number survives the record. -/
theorem recorded_iff (root : ExtentRoot inode.iData) (unmapped : ext4GetBlock inode iblock = .error .enospc)
    {inode' : Inode} (done : ext4SetBlock blockSize inode iblock pblock = (inode', .ok ())) :
    (ext4GetBlock inode' iblock = .ok pblock ∧
        ∀ b, b ≠ iblock → ext4GetBlock inode' b = ext4GetBlock inode b) ↔
      Recordable inode.iData iblock pblock := by
  have magic := root.magic
  have none_ := (unmapped_iff magic).1 unmapped
  have few : (ehEntries inode.iData).toNat ≤ 4 :=
    Nat.le_trans (UInt16.le_iff_toNat_le.1 root.count) (UInt16.le_iff_toNat_le.1 root.fits)
  have wide {l l' : List Extent} : ∀ b, 2 ^ 32 ≤ b → locate l' b = locate l b := fun b high => by
    rw [locate_wide l' high, locate_wide l high]
  unfold Recordable
  simp only
  rcases setBlock_root root blockSize iblock pblock with
    ⟨positive, follows, set⟩ | ⟨next, ⟨_, set⟩ | ⟨room, set⟩⟩
  · have data : inode'.iData = grow inode.iData ((ehEntries inode.iData).toNat - 1) :=
      congrArg (fun out => out.1.iData) (done.symm.trans set)
    rw [if_pos ⟨positive, follows⟩]
    obtain ⟨n, count⟩ : ∃ n, (ehEntries inode.iData).toNat = n + 1 := ⟨_, (Nat.succ_pred_eq_of_pos positive).symm⟩
    rw [count, Nat.add_sub_cancel] at follows data ⊢
    rw [continues_eq] at follows
    rw [extents_last count] at none_
    rw [get_eq_iff magic (by rw [data, grow_magic, magic]), data, extents_grow count, extents_last count,
      forall_toNat wide]
    exact grown_iff (eeBlock inode.iData n).toNat_lt follows none_
  · cases set.symm.trans done
  · have data : inode'.iData = append inode.iData (ehEntries inode.iData).toNat iblock pblock :=
      congrArg (fun out => out.1.iData) (done.symm.trans set)
    rw [if_neg next, get_eq_iff magic (by rw [data, append_magic, magic]), data, extents_append rfl (by omega),
      forall_toNat wide, single_iff iblock.toNat_lt none_]
    exact ⟨fun faithful _ => faithful, fun faithful => faithful room⟩

/-- **A recorded block is read back exactly if its number survives the record.** -/
theorem set_get_iff (root : ExtentRoot inode.iData)
    (unmapped : ext4GetBlock inode iblock = .error .enospc) :
    RoundTrips blockSize inode iblock pblock ↔ Recordable inode.iData iblock pblock := by
  unfold RoundTrips
  split
  · rename_i inode' set
    exact recorded_iff root unmapped set
  · rename_i inode' e set
    rcases setBlock_root root blockSize iblock pblock with
      ⟨_, _, done⟩ | ⟨next, ⟨full, done⟩ | ⟨_, done⟩⟩
    · cases done.symm.trans set
    · refine iff_of_true (congrArg Prod.fst (set.symm.trans done)) ?_
      unfold Recordable
      simp only
      rw [if_neg next]
      exact fun room => absurd full (Nat.not_le.2 room)
    · cases done.symm.trans set

/-- On a volume of less than 2^32 blocks a number that does not survive its record comes back
as one that no block has. -/
theorem misplaced_ge (root : ExtentRoot inode.iData) (unmapped : ext4GetBlock inode iblock = .error .enospc)
    (low : iblock.toNat + 1 < 2 ^ 32) (small : pblock.toNat < 2 ^ 32) {inode' : Inode}
    (done : ext4SetBlock blockSize inode iblock pblock = (inode', .ok ()))
    (lost : ¬ Recordable inode.iData iblock pblock) {q : UInt64} (found : ext4GetBlock inode' iblock = .ok q) :
    2 ^ 32 ≤ q.toNat := by
  have magic := root.magic
  have none_ := (unmapped_iff magic).1 unmapped
  have few : (ehEntries inode.iData).toNat ≤ 4 :=
    Nat.le_trans (UInt16.le_iff_toNat_le.1 root.count) (UInt16.le_iff_toNat_le.1 root.fits)
  have located (magic' : ehMagic inode'.iData = extentHeaderMagic) :
      locate (extents inode'.iData) iblock.toNat = some q.toNat := by
    rw [ext4GetBlock_eq magic'] at found
    cases place : locate (extents inode'.iData) iblock.toNat with
    | none => simp [place] at found
    | some p =>
        have := locate_lt place
        rw [place] at found
        rw [← Except.ok.inj found, UInt64.toNat_ofNat', Nat.mod_eq_of_lt (by omega)]
  unfold Recordable at lost
  simp only at lost
  rcases setBlock_root root blockSize iblock pblock with
    ⟨positive, follows, set⟩ | ⟨next, ⟨_, set⟩ | ⟨room, set⟩⟩
  · have data : inode'.iData = grow inode.iData ((ehEntries inode.iData).toNat - 1) :=
      congrArg (fun out => out.1.iData) (done.symm.trans set)
    rw [if_pos ⟨positive, follows⟩] at lost
    obtain ⟨n, count⟩ : ∃ n, (ehEntries inode.iData).toNat = n + 1 := ⟨_, (Nat.succ_pred_eq_of_pos positive).symm⟩
    rw [count, Nat.add_sub_cancel] at follows lost data
    have place := located (by rw [data, grow_magic, magic])
    rw [extents_last count, Ext4.locate_append, Option.or_eq_none_iff] at none_
    rw [data, extents_grow count, Ext4.locate_append, none_.1, Option.none_or] at place
    split at place
    · rename_i held
      rw [continues_eq] at follows
      obtain ⟨start, -, short⟩ := decide_eq_true_iff.1 follows
      rw [Extent.holds, decide_eq_true_iff, Extent.grown] at held
      simp only [extentAt] at held start short
      omega
    · cases place
  · cases set.symm.trans done
  · have data : inode'.iData = append inode.iData (ehEntries inode.iData).toNat iblock pblock :=
      congrArg (fun out => out.1.iData) (done.symm.trans set)
    rw [if_neg next] at lost
    have place := located (by rw [data, append_magic, magic])
    rw [data, extents_append rfl (by omega), Ext4.locate_append, none_, Option.none_or] at place
    split at place
    · rw [← Option.some.inj place]
      have unfaithful : ¬ pblock.toNat / 2 ^ 16 % 2 ^ 16 = pblock.toNat / 2 ^ 32 := fun same => lost fun _ => ⟨low, same⟩
      simp only [Extent.phys, Extent.single]
      omega
    · cases place

end SetBlock

/-! ### A new file -/

/-- The inode of `ext4_create`: the header and no record. -/
def createdInode : Inode where
  iIno := 12
  iMode := 0x8180
  iNlink := 1
  iUid := 0
  iGid := 0
  iSize := 0
  iBlocks := 0
  iDirty := false
  rawInode := fun _ => 0
  iData := headed fun _ => 0

theorem createdInode_root : ExtentRoot createdInode.iData where
  magic := by decide
  depth := by decide
  count := by decide
  fits := by decide

/-- With its first block. -/
def grownInode : Inode := (ext4SetBlock 1024 createdInode 0 100).1

theorem grownInode_root : ExtentRoot grownInode.iData where
  magic := by decide
  depth := by decide
  count := by decide
  fits := by decide

/-- The first record, and the next block in the same record. -/
theorem set_get_created :
    (ExtentRoot createdInode.iData ∧ ext4GetBlock createdInode 0 = .error .enospc ∧
      Recordable createdInode.iData 0 100 ∧ RoundTrips 1024 createdInode 0 100) ∧
    ExtentRoot grownInode.iData ∧ ext4GetBlock grownInode 1 = .error .enospc ∧
      ehEntries (ext4SetBlock 1024 grownInode 1 101).1.iData = ehEntries grownInode.iData ∧
      Recordable grownInode.iData 1 101 ∧ RoundTrips 1024 grownInode 1 101 := by
  have unmapped : ext4GetBlock createdInode 0 = .error .enospc := by decide
  have recordable : Recordable createdInode.iData 0 100 := by decide
  have unmapped' : ext4GetBlock grownInode 1 = .error .enospc := by decide
  have recordable' : Recordable grownInode.iData 1 101 := by decide
  exact ⟨⟨createdInode_root, unmapped, recordable, (set_get_iff createdInode_root unmapped).2 recordable⟩,
    grownInode_root, unmapped', by decide, recordable', (set_get_iff grownInode_root unmapped').2 recordable'⟩

/-- **Block 65536 is recorded as block 2^32 + 65536.** -/
theorem high_half_misplaced :
    ExtentRoot createdInode.iData ∧ ext4GetBlock createdInode 0 = .error .enospc ∧
      ext4GetBlock (ext4SetBlock 1024 createdInode 0 65536).1 0 = .ok 4295032832 ∧
      ¬ RoundTrips 1024 createdInode 0 65536 := by
  have read : ext4GetBlock (ext4SetBlock 1024 createdInode 0 65536).1 0 = .ok 4295032832 := by decide
  have done : (ext4SetBlock 1024 createdInode 0 65536).2 = .ok () := by decide
  refine ⟨createdInode_root, by decide, read, fun trip => ?_⟩
  unfold RoundTrips at trip
  split at trip
  · rename_i inode' set
    rw [set] at read
    have wrong := read.symm.trans trip.1
    exact absurd (Except.ok.inj wrong) (by decide)
  · rename_i set
    rw [set] at done
    cases done

end Minus.Fs.Ext4Bytes
