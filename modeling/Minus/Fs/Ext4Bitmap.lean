/-
# Fs.Ext4Bitmap — blocks and inodes given out of the cached bitmaps

`ext4_find_free_block` of `kernel/fs/backend/ext4fs/extent.c` and `ext4_find_free_inode` of
`inode.c`, over the buffer cache of `Fs.Bcache` and the search of `Lib.Bitops`.  A bitmap is the
contents of a buffer; the descriptor that names its block is in a buffer which the superblock
holds.

On an image of one group a call gives out the lowest item whose bit is clear and sets that
bit, in the cache, so that no later call gives it again (`bitmap_allocation`).  A bitmap that
cannot be read is passed over, as a full one is, and the calls differ in the bitmap and in
the numbers only.
-/
import Minus.Lib.Bitops
import Minus.Fs.BcacheRun
import Minus.Fs.Ext4Alloc

namespace Minus.Fs.Ext4Bitmap

set_option autoImplicit false

open Minus.Theory Minus.Lib.Bitops Minus.Fs.Bcache
open Minus.Lib.Rbtree (Stop)
open Minus.Fs.Ext4 (Errno)

/-- `struct super_block` with its `struct ext4_sb_info`, as far as the calls read them. -/
structure SuperBlock where
  sBdev : Bdev
  sGroupDesc : List Bh
  sGroupsCount : UInt32
  sBlocksPerGroup : UInt32
  sInodesPerGroup : UInt32
  sFirstDataBlock : UInt32

/-- A read or a write outside an array, or a search of the cache that does not end. -/
inductive Fault where
  | wild
  | stop (why : Stop)

/-- `bg_block_bitmap_lo` and `bg_inode_bitmap_lo` of the first descriptor in a buffer. -/
def bgBitmapLo (gdp : List UInt8) (inodeBitmap : Bool) : UInt32 :=
  load32 (fun x => gdp.getD x 0) (if inodeBitmap then 4 else 0)

section Code

variable (bdBlockSize : Bdev → UInt32) (sb : SuperBlock)

def sbBread (s : State) (answers : Loading) (block : UInt64) : Except Fault (State × Option Bh) :=
  (bread bdBlockSize s answers sb.sBdev block).mapError .stop

/-- Both files have this function, with the same body. -/
def ext4ReadBitmap (s : State) (answers : Loading) (group : UInt32) (inodeBitmap : Bool) :
    Except Fault (State × Option Bh) :=
  match sb.sGroupDesc[group.toNat]? with
  | none => .error .wild
  | some bh => sbBread bdBlockSize sb s answers (bgBitmapLo (s.contents bh) inodeBitmap).toUInt64

/-- The rest of the body of the loops: the bit that is taken. -/
def takeBit (s : State) (bh : Bh) (perGroup : UInt32) : Except Fault (State × Option UInt32) :=
  let bitmap := s.contents bh
  let idx := UInt32.ofNat (findFirstZeroBit (wordsOf bitmap) perGroup.toNat)
  if idx < perGroup then
    -- `set_bit` takes an `int`, and it writes a whole word
    if idx.toNat < 2 ^ 31 ∧ idx.toNat / 64 * 8 + 8 ≤ bitmap.length then
      .ok (brelse (modify s bh (ofWords bitmap.length (setBit idx.toNat (wordsOf bitmap)))) bh, some idx)
    else .error .wild
  else .ok (brelse s bh, none)

/-- The loop of `ext4_find_free_block` and of `ext4_find_free_inode`, with how many groups
are left: the group and the bit that is taken. -/
def findFreeFrom (answers : UInt32 → Loading) (inodeBitmap : Bool) (perGroup : UInt32) :
    Nat → State → UInt32 → Except Fault (State × Option (UInt32 × UInt32))
  | 0, s, _ => .ok (s, none)
  | left + 1, s, group => do
      let (s, bh) ← ext4ReadBitmap bdBlockSize sb s (answers group) group inodeBitmap
      match bh with
      | none => findFreeFrom answers inodeBitmap perGroup left s (group + 1)
      | some bh => do
          let (s, idx) ← takeBit s bh perGroup
          match idx with
          | some idx => .ok (s, some (group, idx))
          | none => findFreeFrom answers inodeBitmap perGroup left s (group + 1)

def ext4FindFreeBlock (s : State) (answers : UInt32 → Loading) : Except Fault (State × Except Errno UInt64) := do
  let (s, found) ← findFreeFrom bdBlockSize sb answers false sb.sBlocksPerGroup sb.sGroupsCount.toNat s 0
  match found with
  | some (group, idx) =>
      .ok (s, .ok (group.toUInt64 * sb.sBlocksPerGroup.toUInt64 + idx.toUInt64 + sb.sFirstDataBlock.toUInt64))
  | none => .ok (s, .error .enospc)

def ext4NewBlock (s : State) (answers : UInt32 → Loading) : Except Fault (State × Except Errno UInt64) :=
  ext4FindFreeBlock bdBlockSize sb s answers

def ext4FindFreeInode (s : State) (answers : UInt32 → Loading) : Except Fault (State × Except Errno UInt32) := do
  let (s, found) ← findFreeFrom bdBlockSize sb answers true sb.sInodesPerGroup sb.sGroupsCount.toNat s 0
  match found with
  | some (group, idx) => .ok (s, .ok (group * sb.sInodesPerGroup + idx + 1))
  | none => .ok (s, .error .enospc)

/-! ## Runs -/

/-- A call, with the answers that the cache gets for the bitmap of each group. -/
inductive Call where
  | block (answers : UInt32 → Loading)
  | inode (answers : UInt32 → Loading)

/-- `inode_bitmap` of the call. -/
def Call.inodeBitmap : Call → Bool
  | .block _ => false
  | .inode _ => true

def Call.answers : Call → UInt32 → Loading
  | .block answers => answers
  | .inode answers => answers

/-- The call, with the number that it gives out. -/
def exec (s : State) : Call → Except Fault (State × Except Errno Nat)
  | .block answers => do
      let (s, ret) ← ext4NewBlock bdBlockSize sb s answers
      .ok (s, ret.map UInt64.toNat)
  | .inode answers => do
      let (s, ret) ← ext4FindFreeInode bdBlockSize sb s answers
      .ok (s, ret.map UInt32.toNat)

/-- The buffer cache, and what has been given out. -/
structure Run where
  cache : State
  given : List (Bool × Nat)

def Run.after (run : Run) (call : Call) (s : State) (ret : Except Errno Nat) : Run where
  cache := s
  given :=
    match ret with
    | .ok n => (call.inodeBitmap, n) :: run.given
    | .error _ => run.given

/-- The allocators return memory that is not in use: the one bitmap that is read is that of
group 0. -/
def Call.Allowed (s : State) (call : Call) : Prop := Op.Allowed s (.bread sb.sBdev 0 (call.answers 0))

instance (s : State) (call : Call) : Decidable (call.Allowed sb s) :=
  inferInstanceAs (Decidable (Op.Allowed s (.bread sb.sBdev 0 (call.answers 0))))

def machine : Machine (Except Fault Run) Call where
  enabled run call := ∀ r ∈ run.toOption, call.Allowed sb r.cache
  step run call := run >>= fun r => exec bdBlockSize sb r.cache call >>= fun out => .ok (r.after call out.1 out.2)

instance : (run : Except Fault Run) → (call : Call) → Decidable ((machine bdBlockSize sb).enabled run call)
  | .ok r, call => decidable_of_iff (call.Allowed sb r.cache) (by simp [machine, Except.toOption])
  | .error _, _ => isTrue (by simp [machine, Except.toOption])

end Code

/-! ## Images of one group -/

namespace SuperBlock

variable (sb : SuperBlock)

def perGroup : Bool → UInt32
  | false => sb.sBlocksPerGroup
  | true => sb.sInodesPerGroup

/-- The number of the item with this bit. -/
def number : Bool → Nat → Nat
  | false, i => sb.sFirstDataBlock.toNat + i
  | true, i => i + 1

/-- The block of a bitmap. -/
def place (gdp : List UInt8) (inodeBitmap : Bool) : Place := (sb.sBdev, (bgBitmapLo gdp inodeBitmap).toUInt64)

/-- A bitmap, in the cache or on the device; `gd` is the buffer of the descriptor. -/
def bitmap (gd : Bh) (s : State) (inodeBitmap : Bool) : List UInt8 :=
  s.view.current (sb.place (s.contents gd) inodeBitmap)

theorem number_injective {inodeBitmap : Bool} {i j : Nat} (same : sb.number inodeBitmap i = sb.number inodeBitmap j) :
    i = j := by
  cases inodeBitmap with
  | false => exact Nat.add_left_cancel same
  | true => exact Nat.succ.inj same

/-- An image of one group is mounted: a bitmap is within one block, of 64 KiB at most, and that
is not the block of the descriptors. -/
structure OneGroup (gd : Bh) (s : State) : Prop where
  sound : Sound s
  count : sb.sGroupsCount = 1
  desc : sb.sGroupDesc = [gd]
  held : gd ∈ s.live
  apart : ∀ inodeBitmap, sb.place (s.contents gd) inodeBitmap ≠ (s.heads gd).place
  fits : ∀ inodeBitmap, (sb.perGroup inodeBitmap).toNat ≤ 8 * (sb.bitmap gd s inodeBitmap).length
  words : ∀ inodeBitmap, 8 ∣ (sb.bitmap gd s inodeBitmap).length
  block : ∀ inodeBitmap, (sb.bitmap gd s inodeBitmap).length ≤ 65536

end SuperBlock

/-- The block is not cached, and memory or the device fails. -/
def Unread (s : State) (place : Place) (answers : Loading) : Prop :=
  s.holder place = none ∧ (answers.kmalloc = none ∨ answers.kzallocPages = none ∨ answers.read.ret < 0)

/-- Bit `i` is set and no other bit changes. -/
def SetsBit (old new : List UInt8) (i : Nat) : Prop :=
  new.length = old.length ∧ ∀ j, bitOf new j = (bitOf old j || decide (j = i))

/-- What a search of one bitmap does. -/
def Took (s s' : State) (place : Place) (perGroup : UInt32) : Option UInt32 → Prop
  | none => s.view.Agree s'.view ∧ ∀ i < perGroup.toNat, bitOf (s.view.current place) i = true
  | some idx => idx.toNat < perGroup.toNat ∧ FirstZero (bitOf (s.view.current place)) perGroup.toNat idx.toNat ∧
      ∃ bits, s.view.Writes s'.view place bits ∧ SetsBit (s.view.current place) bits idx.toNat

/-- What the search of the only group does. -/
def Found (s s' : State) (place : Place) (answers : Loading) (perGroup : UInt32) : Option (UInt32 × UInt32) → Prop
  | none => s.view.Agree s'.view ∧
      (Unread s place answers ∨ ∀ i < perGroup.toNat, bitOf (s.view.current place) i = true)
  | some (group, idx) => group = 0 ∧ ¬ Unread s place answers ∧ Took s s' place perGroup (some idx)

section Search

variable {sb : SuperBlock} {s s' : State} {gd b : Bh}

theorem setsBit_ofWords {l : List UInt8} {i : Nat} (words : 8 ∣ l.length) (inside : i < 8 * l.length) :
    SetsBit l (ofWords l.length (setBit i (wordsOf l))) i := by
  refine ⟨length_ofWords _ _, fun j => ?_⟩
  by_cases within : j < 8 * l.length
  · rw [bitOf_ofWords _ within, ← testBit_wordsOf l j]
    exact bitAt_setBit i (wordsOf l) j
  · have other : j ≠ i := by omega
    rw [bitOf_outside (by rw [length_ofWords]; omega), bitOf_outside (by omega), decide_eq_false other]
    rfl

theorem findFirstZeroBit_wordsOf (l : List UInt8) (size : Nat) :
    FirstZero (bitOf l) size (findFirstZeroBit (wordsOf l) size) := by
  have bits : bitAt (wordsOf l) = bitOf l := funext (testBit_wordsOf l)
  rw [← bits]
  exact findFirstZeroBit_spec _ _

/-- `Fs.Ext4` goes through the bits of a bitmap one by one, to the same end. -/
theorem findFirstZeroBit_eq (l : List UInt8) (size : Nat) :
    findFirstZeroBit (wordsOf l) size = Ext4.findFirstZeroBit (bitOf l) size := by
  obtain ⟨le, before, clear⟩ := findFirstZeroBit_wordsOf l size
  have le' : Ext4.findFirstZeroBit (bitOf l) size ≤ size := by
    unfold Ext4.findFirstZeroBit
    cases search : (List.range size).find? fun i => !bitOf l i with
    | none => exact Nat.le_refl size
    | some i => exact (List.mem_range.1 (List.mem_of_find?_eq_some search)).le
  rcases Nat.lt_trichotomy (findFirstZeroBit (wordsOf l) size) (Ext4.findFirstZeroBit (bitOf l) size) with less | same | more
  · have inside : findFirstZeroBit (wordsOf l) size < size := Nat.lt_of_lt_of_le less le'
    have set := Ext4Bytes.findFirstZeroBit_before less inside
    exact absurd (clear inside) (by rw [set]; decide)
  · exact same
  · have set := before _ more
    have inside : Ext4.findFirstZeroBit (bitOf l) size < size := Nat.lt_of_lt_of_le more le
    exact absurd (Ext4.findFirstZeroBit_clear inside) (by rw [set]; decide)

theorem brelse_same (s : State) (b : Bh) : Alike s (brelse s b) ∧ (brelse s b).view = s.view :=
  ⟨setHead_alike (fun _ => rfl) fun _ => rfl, setHead_view (fun _ => rfl) (fun _ => rfl) fun _ => rfl⟩

theorem sbBread_spec (bdBlockSize : Bdev → UInt32) (sound : Sound s) {answers : Loading} (block : UInt64)
    (allowed : (Op.bread sb.sBdev block answers).Allowed s) :
    ∃ s' ret, sbBread bdBlockSize sb s answers block = .ok (s', ret) ∧ Sound s' ∧ Stays s s' ∧ s.view.Agree s'.view ∧
      (ret = none ↔ Unread s (sb.sBdev, block) answers) ∧
      ∀ b, ret = some b → b ∈ s'.live ∧ (s'.heads b).place = (sb.sBdev, block) := by
  obtain ⟨s', ret, run, sound', loaded⟩ := bread_spec bdBlockSize sound allowed
  have stays := bread_stays bdBlockSize allowed run
  refine ⟨s', ret, by rw [sbBread, run]; rfl, sound', stays, ?_, loaded.null, fun b is => ?_⟩
  · cases found : s.holder (sb.sBdev, block) with
    | some b => exact (loaded.hit b found).2.1 ▸ Cache.Agree.refl _
    | none =>
        have absent : s.view.entry (sb.sBdev, block) = none := by
          show (s.holder _).map _ = none
          rw [found, Option.map_none]
        cases is : ret with
        | none => exact (loaded.fail is).view sound ▸ Cache.Agree.refl _
        | some b =>
            obtain ⟨-, -, -, -, view⟩ := loaded.miss found b is
            exact view ▸ Cache.agree_load absent
  · cases found : s.holder (sb.sBdev, block) with
    | some b' =>
        obtain ⟨inside, at_⟩ := sound.holder_eq_some.1 found
        obtain rfl : b' = b := Option.some.inj ((loaded.hit b' found).1.symm.trans is)
        obtain ⟨inside', at'⟩ := stays b' inside
        exact ⟨inside', at'.trans at_⟩
    | none =>
        obtain ⟨-, live, at_, -⟩ := loaded.miss found b is
        exact ⟨live ▸ List.mem_cons_self, at_⟩

/-- **`find_first_zero_bit`, `set_bit` and `mark_buffer_dirty`** on the buffer of a bitmap. -/
theorem takeBit_spec (sound : Sound s) (inside : b ∈ s.live) {perGroup : UInt32}
    (fits : perGroup.toNat ≤ 8 * (s.contents b).length) (words : 8 ∣ (s.contents b).length)
    (block : (s.contents b).length ≤ 65536) :
    ∃ s' out, takeBit s b perGroup = .ok (s', out) ∧ Sound s' ∧ Stays s s' ∧ Took s s' (s.heads b).place perGroup out := by
  have same := sound.contents inside
  have zero := findFirstZeroBit_wordsOf (s.contents b) perGroup.toNat
  have small : findFirstZeroBit (wordsOf (s.contents b)) perGroup.toNat < 2 ^ 32 :=
    Nat.lt_of_le_of_lt zero.le perGroup.toNat_lt
  rw [← UInt32.toNat_ofNat_of_lt' small] at zero
  unfold takeBit
  dsimp only
  set idx := UInt32.ofNat (findFirstZeroBit (wordsOf (s.contents b)) perGroup.toNat) with idx_def
  set bits := ofWords (s.contents b).length (setBit idx.toNat (wordsOf (s.contents b))) with bits_def
  split
  · rename_i found
    rw [UInt32.lt_iff_toNat_lt] at found
    have room : idx.toNat < 2 ^ 31 ∧ idx.toNat / 64 * 8 + 8 ≤ (s.contents b).length := by omega
    obtain ⟨alike, view⟩ := modify_view sound inside bits
    obtain ⟨alike', view'⟩ := brelse_same (modify s b bits) b
    have both := view'.trans view
    rw [if_pos room]
    refine ⟨_, some idx, rfl, (alike.trans alike').sound sound ?_, (alike.trans alike').stays, found, ?_, bits, ?_, ?_⟩
    · exact both ▸ Cache.coherent_modify sound.coherent bits
    · rw [← same]
      exact zero
    · exact both ▸ Cache.writes_modify (sound.entry inside) bits
    · rw [← same]
      exact setsBit_ofWords words (by omega)
  · rename_i full
    rw [UInt32.lt_iff_toNat_lt] at full
    obtain ⟨alike, view⟩ := brelse_same s b
    refine ⟨_, none, rfl, alike.sound sound (view ▸ sound.coherent), alike.stays, view ▸ Cache.Agree.refl _, ?_⟩
    intro i below
    rw [← same]
    exact zero.before i (by omega)

theorem Took.after {s₁ : State} {place : Place} {perGroup : UInt32} {out : Option UInt32}
    (agree : s.view.Agree s₁.view) (took : Took s₁ s' place perGroup out) : Took s s' place perGroup out := by
  unfold Took at took ⊢
  rw [agree.current] at took
  cases out with
  | none => exact ⟨agree.trans took.1, took.2⟩
  | some idx =>
      obtain ⟨inside, zero, bits, writes, sets⟩ := took
      exact ⟨inside, zero, bits, agree.writes writes, sets⟩

/-- **The loop over the groups** searches the one bitmap, if it can be read. -/
theorem findFree_spec (bdBlockSize : Bdev → UInt32) (one : sb.OneGroup gd s) {answers : UInt32 → Loading} (inodeBitmap : Bool)
    (allowed : (Op.bread sb.sBdev 0 (answers 0)).Allowed s) :
    ∃ s' found, findFreeFrom bdBlockSize sb answers inodeBitmap (sb.perGroup inodeBitmap) sb.sGroupsCount.toNat s 0 =
        .ok (s', found) ∧ Sound s' ∧ Stays s s' ∧
      Found s s' (sb.place (s.contents gd) inodeBitmap) (answers 0) (sb.perGroup inodeBitmap) found := by
  have count : sb.sGroupsCount.toNat = 1 := by
    rw [one.count]
    rfl
  have read : ext4ReadBitmap bdBlockSize sb s (answers 0) 0 inodeBitmap =
      sbBread bdBlockSize sb s (answers 0) (bgBitmapLo (s.contents gd) inodeBitmap).toUInt64 := by
    have first : sb.sGroupDesc[(0 : UInt32).toNat]? = some gd := by
      rw [one.desc]
      rfl
    rw [ext4ReadBitmap, first]
  obtain ⟨s₁, ret, run, sound₁, stays₁, agree, null, held⟩ := sbBread_spec bdBlockSize one.sound
    (bgBitmapLo (s.contents gd) inodeBitmap).toUInt64 ⟨allowed.1, allowed.2⟩
  rw [count, findFreeFrom, read, run, ok_bind]
  cases ret with
  | none => exact ⟨s₁, none, rfl, sound₁, stays₁, agree, .inl (null.1 rfl)⟩
  | some b =>
      obtain ⟨inside, at_⟩ := held b rfl
      have contents : s₁.contents b = sb.bitmap gd s inodeBitmap := by
        rw [sound₁.contents inside, at_, agree.current]
        rfl
      obtain ⟨s₂, out, run₂, sound₂, stays₂, took⟩ := takeBit_spec sound₁ inside
        (by rw [contents]; exact one.fits inodeBitmap) (by rw [contents]; exact one.words inodeBitmap)
        (by rw [contents]; exact one.block inodeBitmap)
      rw [at_] at took
      have took' := took.after agree
      dsimp only
      rw [run₂, ok_bind]
      cases out with
      | none => exact ⟨s₂, none, rfl, sound₂, stays₁.trans stays₂, took'.1, .inr took'.2⟩
      | some idx =>
          refine ⟨s₂, some (0, idx), rfl, sound₂, stays₁.trans stays₂, rfl, fun unread => ?_, took'⟩
          exact nomatch null.2 unread

end Search

/-! ## Calls -/

section Call

variable {bdBlockSize : Bdev → UInt32} (sb : SuperBlock) (gd : Bh)

/-- A call gives out item `n`, the lowest that is free, and marks it in the cache. -/
structure Gives (s s' : State) (inodeBitmap : Bool) (n i : Nat) : Prop where
  number : n = sb.number inodeBitmap i
  inside : i < (sb.perGroup inodeBitmap).toNat
  clear : bitOf (sb.bitmap gd s inodeBitmap) i = false
  lowest : ∀ j < i, bitOf (sb.bitmap gd s inodeBitmap) j = true
  sets : ∃ bits, s.view.Writes s'.view (sb.place (s.contents gd) inodeBitmap) bits ∧
    SetsBit (sb.bitmap gd s inodeBitmap) bits i

/-- What a call does, and returns. -/
structure Meets (s s' : State) (call : Call) (ret : Except Errno Nat) : Prop where
  success : ∀ n, ret = .ok n → ∃ i, Gives sb gd s s' call.inodeBitmap n i
  noSpace : ret = .error .enospc ↔ Unread s (sb.place (s.contents gd) call.inodeBitmap) (call.answers 0) ∨
    ∀ i < (sb.perGroup call.inodeBitmap).toNat, bitOf (sb.bitmap gd s call.inodeBitmap) i = true
  failure : ∀ e, ret = .error e → e = .enospc ∧ s.view.Agree s'.view

variable {sb gd} {s s' : State}

/-- The value that a call returns for what the search finds. -/
theorem exec_found {call : Call} {found : Option (UInt32 × UInt32)}
    (run : findFreeFrom bdBlockSize sb call.answers call.inodeBitmap (sb.perGroup call.inodeBitmap)
      sb.sGroupsCount.toNat s 0 = .ok (s', found))
    (first : ∀ group idx, found = some (group, idx) → group = 0 ∧ idx.toNat < (sb.perGroup call.inodeBitmap).toNat) :
    exec bdBlockSize sb s call =
      .ok (s', found.elim (.error .enospc) fun (_, idx) => .ok (sb.number call.inodeBitmap idx.toNat)) := by
  cases call with
  | block answers =>
      change findFreeFrom bdBlockSize sb answers false sb.sBlocksPerGroup sb.sGroupsCount.toNat s 0 = _ at run
      rw [exec, ext4NewBlock, ext4FindFreeBlock, run]
      cases found with
      | none => rfl
      | some found =>
          obtain ⟨group, idx⟩ := found
          obtain ⟨rfl, inside⟩ := first group idx rfl
          have number : ((0 : UInt32).toUInt64 * sb.sBlocksPerGroup.toUInt64 + idx.toUInt64 +
              sb.sFirstDataBlock.toUInt64).toNat = sb.sFirstDataBlock.toNat + idx.toNat := by
            have := idx.toNat_lt
            have := sb.sFirstDataBlock.toNat_lt
            simp [UInt64.toNat_add]
            omega
          exact congrArg (fun n => Except.ok (s', Except.ok n)) number
  | inode answers =>
      change findFreeFrom bdBlockSize sb answers true sb.sInodesPerGroup sb.sGroupsCount.toNat s 0 = _ at run
      rw [exec, ext4FindFreeInode, run]
      cases found with
      | none => rfl
      | some found =>
          obtain ⟨group, idx⟩ := found
          obtain ⟨rfl, inside⟩ := first group idx rfl
          have number : (0 * sb.sInodesPerGroup + idx + 1).toNat = idx.toNat + 1 := by
            have : idx.toNat < sb.sInodesPerGroup.toNat := inside
            have := sb.sInodesPerGroup.toNat_lt
            simp [UInt32.toNat_add]
            omega
          exact congrArg (fun n => Except.ok (s', Except.ok n)) number

/-- The buffer of the descriptor, and the sizes of the bitmaps, are as before. -/
theorem SuperBlock.OneGroup.after (one : sb.OneGroup gd s) (sound : Sound s') (stays : Stays s s')
    (desc : s'.view.current (s.heads gd).place = s.view.current (s.heads gd).place)
    (length : ∀ place, (s'.view.current place).length = (s.view.current place).length) :
    sb.OneGroup gd s' ∧ s'.contents gd = s.contents gd := by
  obtain ⟨held, at_⟩ := stays gd one.held
  have contents : s'.contents gd = s.contents gd := by
    rw [sound.contents held, at_, desc, ← one.sound.contents one.held]
  have bitmap : ∀ inodeBitmap, (sb.bitmap gd s' inodeBitmap).length = (sb.bitmap gd s inodeBitmap).length := by
    intro inodeBitmap
    unfold SuperBlock.bitmap
    rw [contents, length]
  refine ⟨⟨sound, one.count, one.desc, held, ?_, ?_, ?_, ?_⟩, contents⟩
  · rw [contents, at_]
    exact one.apart
  · simpa only [bitmap] using one.fits
  · simpa only [bitmap] using one.words
  · simpa only [bitmap] using one.block

/-- **One call.** -/
theorem exec_spec (bdBlockSize : Bdev → UInt32) (one : sb.OneGroup gd s) {call : Call} (allowed : call.Allowed sb s) :
    ∃ s' ret, exec bdBlockSize sb s call = .ok (s', ret) ∧ sb.OneGroup gd s' ∧ s'.contents gd = s.contents gd ∧
      Meets sb gd s s' call ret := by
  obtain ⟨s', found, run, sound, stays, is⟩ := findFree_spec bdBlockSize one call.inodeBitmap allowed
  cases found with
  | none =>
      obtain ⟨agree, why⟩ := is
      obtain ⟨one', contents⟩ := one.after sound stays (by rw [agree.current]) fun place => by rw [agree.current]
      refine ⟨s', .error .enospc, exec_found run nofun, one', contents, nofun, ⟨fun _ => why, fun _ => rfl⟩, ?_⟩
      rintro e is
      exact ⟨(Except.error.inj is).symm, agree⟩
  | some found =>
      obtain ⟨group, idx⟩ := found
      obtain ⟨rfl, read, inside, zero, bits, writes, sets⟩ := is
      have desc : s'.view.current (s.heads gd).place = s.view.current (s.heads gd).place :=
        (writes.elsewhere _ (one.apart call.inodeBitmap).symm).1
      have length : ∀ place, (s'.view.current place).length = (s.view.current place).length := by
        intro place
        by_cases here : place = sb.place (s.contents gd) call.inodeBitmap
        · rw [here, writes.current_here, sets.1]
        · rw [(writes.elsewhere _ here).1]
      obtain ⟨one', contents⟩ := one.after sound stays desc length
      have clear := zero.clear inside
      refine ⟨s', .ok (sb.number call.inodeBitmap idx.toNat), exec_found run ?_, one', contents, ?_, ?_, nofun⟩
      · rintro group idx' is
        obtain ⟨rfl, rfl⟩ := Prod.mk.inj (Option.some.inj is)
        exact ⟨rfl, inside⟩
      · rintro n is
        exact ⟨idx.toNat, (Except.ok.inj is).symm, inside, clear, zero.before, bits, writes, sets⟩
      · refine ⟨nofun, fun why => ?_⟩
        obtain unread | full := why
        · exact absurd unread read
        · exact absurd (full _ inside) (by rw [SuperBlock.bitmap, clear]; decide)

/-- A set bit stays set, and that of the item given out is now set. -/
theorem Gives.bits {inodeBitmap : Bool} {n i : Nat} (gives : Gives sb gd s s' inodeBitmap n i)
    (contents : s'.contents gd = s.contents gd) :
    (∀ kind j, bitOf (sb.bitmap gd s kind) j = true → bitOf (sb.bitmap gd s' kind) j = true) ∧
      bitOf (sb.bitmap gd s' inodeBitmap) i = true := by
  obtain ⟨bits, writes, -, sets⟩ := gives.sets
  unfold SuperBlock.bitmap at sets ⊢
  rw [contents]
  constructor
  · intro kind j set
    by_cases here : sb.place (s.contents gd) kind = sb.place (s.contents gd) inodeBitmap
    · rw [here] at set ⊢
      rw [writes.current_here, sets, set, Bool.true_or]
    · rw [(writes.elsewhere _ here).1]
      exact set
  · rw [writes.current_here, sets, decide_eq_true rfl, Bool.or_true]

variable (sb gd) in
/-- The state that a run from `s` reaches. -/
structure Kept (s : State) (run : Run) : Prop where
  one : sb.OneGroup gd run.cache
  nodup : run.given.Nodup
  used : ∀ inodeBitmap i, bitOf (sb.bitmap gd s inodeBitmap) i = true →
    bitOf (sb.bitmap gd run.cache inodeBitmap) i = true
  given : ∀ inodeBitmap n, (inodeBitmap, n) ∈ run.given → ∃ i, n = sb.number inodeBitmap i ∧
    i < (sb.perGroup inodeBitmap).toNat ∧ bitOf (sb.bitmap gd s inodeBitmap) i = false ∧
    bitOf (sb.bitmap gd run.cache inodeBitmap) i = true

/-- **One step** of a run. -/
theorem Kept.step {run : Run} (kept : Kept sb gd s run) {call : Call} {ret : Except Errno Nat}
    (one : sb.OneGroup gd s') (contents : s'.contents gd = run.cache.contents gd)
    (meets : Meets sb gd run.cache s' call ret) : Kept sb gd s (run.after call s' ret) := by
  cases ret with
  | error e =>
      obtain ⟨-, agree⟩ := meets.failure e rfl
      have bitmap : sb.bitmap gd s' = sb.bitmap gd run.cache := by
        funext inodeBitmap
        rw [SuperBlock.bitmap, contents, agree.current]
        rfl
      exact ⟨one, kept.nodup, bitmap ▸ kept.used, bitmap ▸ kept.given⟩
  | ok n =>
      obtain ⟨i, gives⟩ := meets.success n rfl
      obtain ⟨stay, now⟩ := gives.bits contents
      have new : (call.inodeBitmap, n) ∉ run.given := by
        intro member
        obtain ⟨j, is, -, -, set⟩ := kept.given _ _ member
        obtain rfl := sb.number_injective (gives.number.symm.trans is)
        exact absurd set (by rw [gives.clear]; decide)
      refine ⟨one, List.nodup_cons.2 ⟨new, kept.nodup⟩, fun kind j set => stay kind j (kept.used kind j set), ?_⟩
      intro kind n' member
      obtain same | member := List.mem_cons.1 member
      · obtain ⟨rfl, rfl⟩ := Prod.mk.inj same
        refine ⟨i, gives.number, gives.inside, ?_, now⟩
        rw [← Bool.not_eq_true]
        intro set
        exact absurd (kept.used _ i set) (by rw [gives.clear]; decide)
      · obtain ⟨j, is, inside, clear, set⟩ := kept.given kind n' member
        exact ⟨j, is, inside, clear, stay kind j set⟩

variable (bdBlockSize sb) in
theorem run_kept {calls : List Call} (one : sb.OneGroup gd s)
    (admitted : (machine bdBlockSize sb).Admits (.ok ⟨s, []⟩) calls) :
    ∃ run, (machine bdBlockSize sb).run (.ok ⟨s, []⟩) calls = .ok run ∧ Kept sb gd s run := by
  refine Machine.run_invariant (machine bdBlockSize sb) (I := fun r => ∃ run, r = .ok run ∧ Kept sb gd s run) ?_
    ⟨_, rfl, one, List.nodup_nil, fun _ _ set => set, nofun⟩ admitted
  rintro _ call ⟨run, rfl, kept⟩ enabled
  obtain ⟨s', ret, done, one', contents, meets⟩ := exec_spec bdBlockSize kept.one (enabled run rfl)
  refine ⟨run.after call s' ret, ?_, kept.step one' contents meets⟩
  show (exec bdBlockSize sb run.cache call >>= fun out => Except.ok (run.after call out.1 out.2)) = _
  rw [done]
  rfl

variable (bdBlockSize sb) in
/-- **Every item is given out once**: on an image of one group, over any calls, what is given out
was free at the start and is given out once; and in every state reached a call returns the
lowest item that is free and sets its bit, or fails, exactly if the bitmap cannot be read or
has no clear bit, and then changes no contents and no mark. -/
theorem bitmap_allocation {calls : List Call} (one : sb.OneGroup gd s)
    (admitted : (machine bdBlockSize sb).Admits (.ok ⟨s, []⟩) calls) :
    ∃ run, (machine bdBlockSize sb).run (.ok ⟨s, []⟩) calls = .ok run ∧ run.given.Nodup ∧
      (∀ inodeBitmap n, (inodeBitmap, n) ∈ run.given → ∃ i < (sb.perGroup inodeBitmap).toNat,
        n = sb.number inodeBitmap i ∧ bitOf (sb.bitmap gd s inodeBitmap) i = false) ∧
      ∀ call, call.Allowed sb run.cache → ∃ s' ret, exec bdBlockSize sb run.cache call = .ok (s', ret) ∧
        Meets sb gd run.cache s' call ret := by
  obtain ⟨run, done, kept⟩ := run_kept bdBlockSize sb one admitted
  refine ⟨run, done, kept.nodup, fun inodeBitmap n member => ?_, fun call allowed => ?_⟩
  · obtain ⟨i, is, inside, clear, -⟩ := kept.given inodeBitmap n member
    exact ⟨i, inside, is, clear⟩
  · obtain ⟨s', ret, done, -, -, meets⟩ := exec_spec bdBlockSize kept.one allowed
    exact ⟨s', ret, done, meets⟩

end Call

/-! ## A small image -/

/-- Block 2 has the descriptor, and blocks 5 and 6 the bitmaps. -/
def image (place : Place) : List UInt8 :=
  if place = (1, 2) then [5, 0, 0, 0, 6, 0, 0, 0]
  else if place = (1, 5) then [7, 0, 0, 0, 0, 0, 0, 0]
  else [255, 1, 0, 0, 0, 0, 0, 0]

/-- Twenty blocks from 1 on, and ten inodes. -/
def small : SuperBlock := ⟨1, [10], 1, 20, 10, 1⟩

/-- The cache after the mount. -/
def mounted : Except Stop State :=
  (Bcache.machine fun _ => 1024).run (booted image) [.bread 1 2 ⟨some 10, some 1, ⟨0, []⟩⟩]

theorem mounted_oneGroup : ∃ s, mounted = .ok s ∧ small.OneGroup 10 s := by
  have admitted : (Bcache.machine fun _ => 1024).Admits (booted image) [.bread 1 2 ⟨some 10, some 1, ⟨0, []⟩⟩] := by
    decide +kernel
  obtain ⟨s, run, sound⟩ := run_sound (fun _ => 1024) admitted
  have state : Ends (fun s => 10 ∈ s.live ∧ ∀ inodeBitmap, small.place (s.contents 10) inodeBitmap ≠ (s.heads 10).place ∧
      (small.bitmap 10 s inodeBitmap).length = 8) (fun _ => False) mounted := by
    decide +kernel
  have is : mounted = .ok s := run
  rw [is] at state
  obtain ⟨held, bitmaps⟩ := state
  refine ⟨s, is, sound, rfl, rfl, held, fun kind => (bitmaps kind).1, fun kind => ?_, fun kind => ?_, fun kind => ?_⟩
  · rw [(bitmaps kind).2]
    revert kind
    decide
  · rw [(bitmaps kind).2]
  · rw [(bitmaps kind).2]
    decide

/-- Two blocks and the last inode are given out, and then there is none. -/
theorem bitmap_allocation_small :
    let calls : List Call := [.block fun _ => ⟨some 11, some 2, ⟨0, []⟩⟩, .block fun _ => ⟨none, none, ⟨0, []⟩⟩,
      .inode fun _ => ⟨some 12, some 3, ⟨0, []⟩⟩, .inode fun _ => ⟨none, none, ⟨0, []⟩⟩]
    ∃ s run, mounted = .ok s ∧ (machine (fun _ => 1024) small).run (.ok ⟨s, []⟩) calls = .ok run ∧
      run.given = [(true, 10), (false, 5), (false, 4)] ∧ run.given.Nodup ∧
      ∀ call, call.Allowed small run.cache → ∃ s' ret, exec (fun _ => 1024) small run.cache call = .ok (s', ret) ∧
        Meets small 10 run.cache s' call ret := by
  intro calls
  obtain ⟨s, is, one⟩ := mounted_oneGroup
  have state : Ends (fun s => (machine (fun _ => 1024) small).Admits (.ok ⟨s, []⟩) calls ∧
      Ends (fun run => run.given = [(true, 10), (false, 5), (false, 4)]) (fun _ => False)
        ((machine (fun _ => 1024) small).run (.ok ⟨s, []⟩) calls)) (fun _ => False) mounted := by
    decide +kernel
  rw [is] at state
  obtain ⟨admitted, given⟩ := state
  obtain ⟨run, done, nodup, -, next⟩ := bitmap_allocation (fun _ => 1024) small one admitted
  rw [done] at given
  exact ⟨s, run, is, done, given, nodup, next⟩

/-- The device fails, and the call returns that there is no space while most blocks are free. -/
theorem enospc_unread : ∃ s, small.OneGroup 10 s ∧
    ∃ answers : UInt32 → Loading, (Call.block answers).Allowed small s ∧
      ∃ s' ret, exec (fun _ => 1024) small s (.block answers) = .ok (s', ret) ∧
        ¬ (ret = .error .enospc ↔ ∀ i < small.sBlocksPerGroup.toNat, bitOf (small.bitmap 10 s false) i = true) := by
  obtain ⟨s, is, one⟩ := mounted_oneGroup
  have state : Ends (fun s => (Call.block fun _ => ⟨some 11, some 2, ⟨-5, []⟩⟩).Allowed small s ∧
      bitOf (small.bitmap 10 s false) 3 = false ∧
      Ends (fun out => Ends (fun _ => False) (fun e => e = .enospc) out.2) (fun _ => False)
        (exec (fun _ => 1024) small s (.block fun _ => ⟨some 11, some 2, ⟨-5, []⟩⟩))) (fun _ => False) mounted := by
    decide +kernel
  rw [is] at state
  obtain ⟨allowed, clear, ends⟩ := state
  refine ⟨s, one, _, allowed, ?_⟩
  cases done : exec (fun _ => 1024) small s (.block fun _ => ⟨some 11, some 2, ⟨-5, []⟩⟩) with
  | error => exact (done ▸ ends).elim
  | ok out =>
      obtain ⟨s', ret⟩ := out
      rw [done] at ends
      cases ret with
      | ok => exact ends.elim
      | error e =>
          obtain rfl : e = .enospc := ends
          refine ⟨s', _, rfl, fun same => ?_⟩
          exact absurd (same.1 rfl 3 (by decide)) (by rw [clear]; decide)

end Minus.Fs.Ext4Bitmap
