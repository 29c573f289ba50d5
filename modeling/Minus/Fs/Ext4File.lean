/-
# Fs.Ext4File — a regular file is a byte array

`Contents` is what a file is for: a size, and a byte at each position.  A write
stores the bytes it returns the count of, truncation empties the array, and what
was never written is 0.  `Refines` ties it to the blocks: the byte at a position
is the one in the mapped block, and 0 where no block is mapped.

The code does not clear a block it takes, keeps the blocks of a truncated file,
and leaves the old bytes between the end of the file and a later write.  So a
write is clean (`WriteClean`) only if the bytes that it brings below the file size
without storing them are zeros on the disk already.  The rest of the condition is
about numbers: the block index has 32 bits and the count 31, a new block comes
from group 0 and its number fits in an extent.
-/
import Minus.Fs.Ext4Map

namespace Minus.Fs.Ext4

set_option autoImplicit false

open Minus.Theory

/-! ## The byte array -/

structure Contents where
  size : Nat
  byte : Nat → UInt8

namespace Contents

def empty : Contents := ⟨0, fun _ => 0⟩

def write (c : Contents) (pos : Nat) (bytes : List UInt8) : Contents where
  size := max c.size (pos + bytes.length)
  byte i := if pos ≤ i ∧ i < pos + bytes.length then bytes.getD (i - pos) 0 else c.byte i

def read (c : Contents) (pos len : Nat) : List UInt8 :=
  (List.range (min len (c.size - pos))).map fun k => c.byte (pos + k)

/-- A write of `buf` that returned `ret`. -/
def stored (c : Contents) (pos : Nat) (buf : List UInt8) (ret : Int) : Contents :=
  if 0 < ret then c.write pos (buf.take ret.toNat) else c

end Contents

/-! ## The byte at a position -/

def byteAt (v : Volume) (s : State) (i : Nat) : UInt8 :=
  match s.layout.inode.mapped (i / v.blockSize) with
  | some p => s.data p (i % v.blockSize)
  | none => 0

/-- The blocks hold the contents. -/
structure Refines (v : Volume) (s : State) (c : Contents) : Prop where
  layout : s.layout.Sound v
  size : s.layout.inode.iSize = c.size
  bound : c.size ≤ (2 ^ 32 - 1) * v.blockSize
  bytes : ∀ i, i < c.size → byteAt v s i = c.byte i
  zero : ∀ i, c.size ≤ i → c.byte i = 0

/-! ## When a write is clean -/

/-- The condition on block `b` of a write to `[pos, stop)`, in the layout its round
starts from: it maps the block to `p`. -/
def BlockClean (v : Volume) (s : State) (pos stop : Nat) (l : Layout) (b p : Nat) : Prop :=
  b + 1 < 2 ^ 32 ∧ min (b * v.blockSize + v.blockSize) stop - pos < 2 ^ 31 ∧
    (∀ i, i < pos → s.layout.inode.iSize ≤ i → byteAt v s i = 0) ∧
    (l.inode.mapped b = none → Recorded l.inode b p ∧ ∀ k, k < v.blockSize →
      (b * v.blockSize + k < pos ∨
        stop ≤ b * v.blockSize + k ∧ b * v.blockSize + k < s.layout.inode.iSize) →
      s.data p k = 0)

/-- The condition along the blocks of a range, up to the first that is not mapped. -/
def BlocksClean (v : Volume) (s : State) (pos stop : Nat) : Layout → List Nat → Prop
  | _, [] => True
  | l, b :: rest =>
      (l.inode.mapped (b % 2 ^ 32) = none → FromFirstGroup v l.bitmaps) ∧
        Ends (fun r => BlockClean v s pos stop l b r.2 ∧ BlocksClean v s pos stop r.1 rest)
          (fun _ => True) (writeBlock v l (b % 2 ^ 32))

/-- The blocks that a range meets. -/
def blocksOf (v : Volume) (pos stop : Nat) : List Nat :=
  List.range' (pos / v.blockSize) ((stop - 1) / v.blockSize + 1 - pos / v.blockSize)

def WriteClean (v : Volume) (s : State) (buf : List UInt8) (pos : Nat) : Prop :=
  buf ≠ [] →
    BlocksClean v s pos (pos + buf.length) s.layout (blocksOf v pos (pos + buf.length))

instance (v : Volume) (s : State) (pos stop : Nat) (l : Layout) (b p : Nat) :
    Decidable (BlockClean v s pos stop l b p) :=
  inferInstanceAs (Decidable (_ ∧ _ ∧ _ ∧ (_ → _)))

instance decidableBlocksClean (v : Volume) (s : State) (pos stop : Nat) :
    ∀ l blocks, Decidable (BlocksClean v s pos stop l blocks)
  | _, [] => isTrue trivial
  | _, _ :: rest =>
      have (l' : Layout) : Decidable (BlocksClean v s pos stop l' rest) :=
        decidableBlocksClean v s pos stop l' rest
      inferInstanceAs (Decidable ((_ → _) ∧ Ends _ _ _))

instance (v : Volume) (s : State) (buf : List UInt8) (pos : Nat) :
    Decidable (WriteClean v s buf pos) :=
  inferInstanceAs (Decidable (_ → _))

/-! ## One round of a write -/

section Round

variable {v : Volume} {s₀ s : State} {buf : List UInt8} {pos stop a : Nat}

theorem div_eq_iff_mem (v : Volume) (i b : Nat) :
    i / v.blockSize = b ↔ b * v.blockSize ≤ i ∧ i < b * v.blockSize + v.blockSize := by
  have positive := v.blockSize_pos
  rw [Nat.div_eq_iff positive]
  omega

theorem mod_eq_sub (v : Volume) (i : Nat) :
    i % v.blockSize = i - i / v.blockSize * v.blockSize := by
  have := Nat.div_add_mod' i v.blockSize
  omega

/-- A copy into a mapped block changes the file at those positions only. -/
theorem byteAt_copyIn {p c source : Nat} (sound : s.layout.Sound v)
    (here : s.layout.inode.mapped (a / v.blockSize) = some p)
    (inside : a + c ≤ a / v.blockSize * v.blockSize + v.blockSize) (i : Nat) :
    byteAt v { s with data := copyIn s.data p (a % v.blockSize) c buf source } i =
      if a ≤ i ∧ i < a + c then buf.getD (source + (i - a)) 0 else byteAt v s i := by
  have low := Nat.div_mul_le_self a v.blockSize
  have offset := mod_eq_sub v a
  unfold byteAt
  by_cases same : i / v.blockSize = a / v.blockSize
  · have offset' := mod_eq_sub v i
    obtain ⟨_, _⟩ := (div_eq_iff_mem v i _).mp same
    rw [same] at offset' ⊢
    simp only [here, copyIn, true_and]
    by_cases chunk : a ≤ i ∧ i < a + c
    · rw [if_pos (by omega), if_pos chunk, show i % v.blockSize - a % v.blockSize = i - a by omega]
    · rw [if_neg (by omega), if_neg chunk]
  · have outside : ¬ (a ≤ i ∧ i < a + c) := fun chunk =>
      same ((div_eq_iff_mem v i _).mpr (by omega))
    rw [if_neg outside]
    simp only
    cases other : s.layout.inode.mapped (i / v.blockSize) with
    | none => rfl
    | some q =>
        have apart : q ≠ p := fun eq => same (sound.injective _ _ p (eq ▸ other) here)
        simp [copyIn, apart]

/-- A block that is added shows its old bytes, in place of zeros. -/
theorem byteAt_added {l' : Layout} {b p : Nat} (unmapped : s.layout.inode.mapped b = none)
    (adds : Adds s.layout.inode l'.inode b p) (i : Nat)
    (clear : i / v.blockSize = b → s.data p (i % v.blockSize) = 0) :
    byteAt v { s with layout := l' } i = byteAt v s i := by
  unfold byteAt
  simp only [adds.mapped]
  by_cases same : i / v.blockSize = b
  · rw [if_pos same, same, unmapped]
    exact clear same
  · rw [if_neg same]

/-- What holds when a write of `buf` at `pos` has reached `a`. -/
structure Progress (v : Volume) (s₀ : State) (buf : List UInt8) (pos a : Nat) (s : State) : Prop where
  layout : s.layout.Sound v
  size : s.layout.inode.iSize = s₀.layout.inode.iSize
  counted : a - pos < 2 ^ 31
  index : pos < a → a ≤ (2 ^ 32 - 1) * v.blockSize
  gap : pos < a → ∀ i, i < pos → s₀.layout.inode.iSize ≤ i → byteAt v s₀ i = 0
  fresh : ∀ p, (∀ b, s.layout.inode.mapped b ≠ some p) → s.data p = s₀.data p
  bytes : ∀ i, i < pos ∨ i < s₀.layout.inode.iSize ∨ i < a → byteAt v s i =
    if pos ≤ i ∧ i < a then buf.getD (i - pos) 0 else byteAt v s₀ i

theorem Progress.start (sound : s.layout.Sound v) : Progress v s buf pos pos s where
  layout := sound
  size := rfl
  counted := by omega
  index after := absurd after (Nat.lt_irrefl pos)
  gap after := absurd after (Nat.lt_irrefl pos)
  fresh _ _ := rfl
  bytes i _ := by rw [if_neg (by omega)]

/-- The layout may change where the mapped blocks stay. -/
theorem Progress.relay {l' : Layout} (progress : Progress v s₀ buf pos a s) (sound : l'.Sound v)
    (same : l'.inode = s.layout.inode) : Progress v s₀ buf pos a { s with layout := l' } where
  layout := sound
  size := by rw [← progress.size, ← same]
  counted := progress.counted
  index := progress.index
  gap := progress.gap
  fresh p unmapped := progress.fresh p (by rw [← same]; exact unmapped)
  bytes i relevant := by
    rw [← progress.bytes i relevant]
    unfold byteAt
    simp only [same]

/-- A round stores its chunk, if the block shows nothing else that was not there. -/
theorem Progress.store {l' : Layout} {p : Nat} (progress : Progress v s₀ buf pos a s)
    (low : pos ≤ a) (below : a < stop)
    (clean : BlockClean v s₀ pos stop s.layout (a / v.blockSize) p)
    (sound : l'.Sound v) (size : l'.inode.iSize = s.layout.inode.iSize)
    (here : l'.inode.mapped (a / v.blockSize) = some p)
    (grown : ∀ q, (∀ b, l'.inode.mapped b ≠ some q) → ∀ b, s.layout.inode.mapped b ≠ some q)
    (kept : ∀ i, i < pos ∨ i < s₀.layout.inode.iSize ∨ i < a →
      ¬ (a ≤ i ∧ i < a + chunk v.blockSize a stop) →
      byteAt v { s with layout := l' } i = byteAt v s i) :
    Progress v s₀ buf pos (a + chunk v.blockSize a stop)
      ⟨l', copyIn s.data p (a % v.blockSize) (chunk v.blockSize a stop) buf (a - pos)⟩ := by
  have ends := add_chunk v.blockSize_pos below
  obtain ⟨index, counted, gap, _⟩ := clean
  refine ⟨sound, size.trans progress.size, by omega, fun _ => ?_, fun _ => gap, ?_, ?_⟩
  · calc a + chunk v.blockSize a stop ≤ a / v.blockSize * v.blockSize + v.blockSize := by omega
      _ = (a / v.blockSize + 1) * v.blockSize := (Nat.succ_mul _ _).symm
      _ ≤ (2 ^ 32 - 1) * v.blockSize := Nat.mul_le_mul_right _ (by omega)
  · intro q unmapped
    have apart : q ≠ p := fun eq => unmapped _ (eq ▸ here)
    rw [← progress.fresh q (grown q unmapped)]
    funext i
    simp [copyIn, apart]
  · intro i relevant
    rw [byteAt_copyIn (s := { s with layout := l' }) sound here (by omega) i]
    by_cases chunk : a ≤ i ∧ i < a + chunk v.blockSize a stop
    · rw [if_pos chunk, if_pos (by omega), show a - pos + (i - a) = i - pos by omega]
    · rw [if_neg chunk, kept i (by omega) chunk, progress.bytes i (by omega)]
      by_cases before : pos ≤ i ∧ i < a
      · rw [if_pos before, if_pos (by omega)]
      · rw [if_neg before, if_neg (by omega)]

/-- The bytes of an added block that come below the file size, other than the chunk. -/
theorem added_clear {p i : Nat} (edge : a = pos ∨ v.blockSize ∣ a) (low : pos ≤ a)
    (below : a < stop) (unmapped : s.layout.inode.mapped (a / v.blockSize) = none)
    (clean : BlockClean v s₀ pos stop s.layout (a / v.blockSize) p)
    (relevant : i < pos ∨ i < s₀.layout.inode.iSize ∨ i < a)
    (outside : ¬ (a ≤ i ∧ i < a + chunk v.blockSize a stop))
    (same : i / v.blockSize = a / v.blockSize) : s₀.data p (i % v.blockSize) = 0 := by
  have ends := add_chunk v.blockSize_pos below
  have offset := mod_eq_sub v i
  obtain ⟨_, _⟩ := (div_eq_iff_mem v i _).mp same
  rw [same] at offset
  apply (clean.2.2.2 unmapped).2 _ (Nat.mod_lt i v.blockSize_pos)
  cases edge with
  | inl first => omega
  | inr aligned =>
      have := Nat.div_mul_cancel aligned
      omega

/-- **One round of a write.** -/
theorem writeChunk_progress (edge : a = pos ∨ v.blockSize ∣ a) (low : pos ≤ a) (below : a < stop)
    (progress : Progress v s₀ buf pos a s) {rest : List Nat}
    (clean : BlocksClean v s₀ pos stop s.layout (a / v.blockSize :: rest)) :
    Ends (fun s' => Progress v s₀ buf pos (a + chunk v.blockSize a stop) s' ∧
        BlocksClean v s₀ pos stop s'.layout rest)
      (fun e => ∃ errno s', e = .short errno (s', a) ∧ Progress v s₀ buf pos a s')
      (writeChunk v buf s a (chunk v.blockSize a stop) (a - pos)) := by
  obtain ⟨first, clean⟩ := clean
  have small : ∀ l p, writeBlock v s.layout (a / v.blockSize % 2 ^ 32) = .ok (l, p) →
      a / v.blockSize % 2 ^ 32 = a / v.blockSize ∧
        BlockClean v s₀ pos stop s.layout (a / v.blockSize) p ∧
        BlocksClean v s₀ pos stop l rest := by
    intro l p mapped
    rw [mapped] at clean
    have := clean.1.1
    exact ⟨Nat.mod_eq_of_lt (by omega), clean⟩
  have round := writeBlock_cases progress.layout first fun l p unmapped mapped => by
    obtain ⟨index, block, _⟩ := small l p mapped
    rw [index] at unmapped ⊢
    exact ⟨block.1, (block.2.2.2 unmapped).1⟩
  unfold writeChunk Volume.iblock
  generalize result : writeBlock v s.layout (a / v.blockSize % 2 ^ 32) = r at round
  cases round with
  | kept p here =>
      obtain ⟨index, block, clean⟩ := small _ _ result
      rw [index] at here
      refine ⟨?_, clean⟩
      exact progress.store low below block progress.layout rfl here (fun _ h => h)
        (fun _ _ _ => rfl)
  | added l' p unmapped unused sound adds =>
      obtain ⟨index, block, clean⟩ := small _ _ result
      rw [index] at unmapped adds
      refine ⟨?_, clean⟩
      apply progress.store low below block sound adds.size
      · rw [adds.mapped, if_pos rfl]
      · intro q free b here
        apply free b
        rw [adds.mapped]
        split
        · rename_i same
          rw [same, unmapped] at here
          cases here
        · exact here
      · intro i relevant outside
        apply byteAt_added unmapped adds
        intro same
        rw [progress.fresh p unused]
        exact added_clear edge low below unmapped block relevant outside same
  | full e l' sound same => exact ⟨e, _, rfl, progress.relay sound same⟩

end Round

/-! ## A whole write -/

section Write

variable {v : Volume} {s : State} {c : Contents} {buf : List UInt8} {pos stop a : Nat}

theorem blocksOf_cons (below : a < stop) :
    ∃ rest, blocksOf v a stop = a / v.blockSize :: rest ∧
      (a + chunk v.blockSize a stop < stop →
        rest = blocksOf v (a + chunk v.blockSize a stop) stop) := by
  have ordered : a / v.blockSize ≤ (stop - 1) / v.blockSize := Nat.div_le_div_right (by omega)
  refine ⟨List.range' (a / v.blockSize + 1) ((stop - 1) / v.blockSize - a / v.blockSize), ?_, ?_⟩
  · unfold blocksOf
    rw [show (stop - 1) / v.blockSize + 1 - a / v.blockSize =
      (stop - 1) / v.blockSize - a / v.blockSize + 1 by omega, List.range'_succ]
  · intro more
    have ends := add_chunk v.blockSize_pos below
    have next : (a + chunk v.blockSize a stop) / v.blockSize = a / v.blockSize + 1 := by
      rw [div_eq_iff_mem, Nat.succ_mul]
      have := v.blockSize_pos
      omega
    unfold blocksOf
    rw [next, Nat.add_sub_add_right]

/-- Where the loop of a clean write ends, at the stop or before it. -/
theorem writeLoop_progress (sound : s.layout.Sound v) (clean : WriteClean v s buf pos) :
    Ends (Progress v s buf pos (pos + buf.length))
      (fun e => ∃ errno s' a, e = .short errno (s', a) ∧ pos ≤ a ∧ a ≤ pos + buf.length ∧
        Progress v s buf pos a s')
      (slotLoop v.blockSize v.blockSize_pos (pos + buf.length) (writeChunk v buf) s pos 0) := by
  have loop := slotLoop_ends pos (pos + buf.length) 0 v.blockSize_pos
    (writeChunk v buf)
    (R := fun a s' => Progress v s buf pos a s' ∧ (a < pos + buf.length →
      BlocksClean v s pos (pos + buf.length) s'.layout (blocksOf v a (pos + buf.length))))
    (E := fun e => ∃ errno s' a, e = .short errno (s', a) ∧ pos ≤ a ∧ a ≤ pos + buf.length ∧
      Progress v s buf pos a s') ?_ s pos (Nat.le_refl _) (by omega) (.inl rfl)
    ⟨.start sound, fun below => clean (by rintro rfl; simp at below)⟩
  · rw [Nat.sub_self] at loop
    exact loop.mono (fun _ h => h.1) (fun _ h => h)
  · rintro s' a low below edge ⟨progress, clean⟩
    obtain ⟨rest, blocks, next⟩ := blocksOf_cons (v := v) below
    have clean := clean below
    rw [blocks] at clean
    rw [Nat.zero_add]
    refine (writeChunk_progress edge low below progress clean).mono ?_ ?_
    · rintro s' ⟨progress, clean⟩
      exact ⟨progress, fun more => next more ▸ clean⟩
    · rintro e ⟨errno, s', same, progress⟩
      exact ⟨errno, s', a, same, low, Nat.le_of_lt below, progress⟩

theorem ssize_eq {n : Nat} (small : n < 2 ^ 31) : ssize n = n := by
  unfold ssize
  apply Int.bmod_eq_of_le <;> omega

theorem Layout.Sound.resize (sound : s.layout.Sound v) (size : Nat) :
    (s.resize size).layout.Sound v where
  inode := ⟨sound.inode.magic, sound.inode.short⟩
  marked := sound.marked
  injective := sound.injective

theorem byteAt_resize (s : State) (size i : Nat) : byteAt v (s.resize size) i = byteAt v s i := rfl

/-- A write that has reached `a` and moves the size there. -/
theorem Progress.moved {s' : State} (refines : Refines v s c) (after : pos < a)
    (high : a ≤ pos + buf.length) (progress : Progress v s buf pos a s') :
    Refines v (s'.resize (max s'.layout.inode.iSize a)) (c.write pos (buf.take (a - pos))) := by
  have size := progress.size
  have old := refines.size
  have count : (buf.take (a - pos)).length = a - pos := by
    rw [List.length_take]
    omega
  have stop : pos + (buf.take (a - pos)).length = a := by omega
  have grown : (c.write pos (buf.take (a - pos))).size = max c.size a := by
    show max c.size (pos + (buf.take (a - pos)).length) = _
    rw [stop]
  have byte (i : Nat) : (c.write pos (buf.take (a - pos))).byte i =
      if pos ≤ i ∧ i < a then (buf.take (a - pos)).getD (i - pos) 0 else c.byte i := by
    show (if pos ≤ i ∧ i < pos + (buf.take (a - pos)).length then _ else _) = _
    rw [stop]
  refine ⟨progress.layout.resize _, ?_, ?_, ?_, ?_⟩
  · rw [grown, ← old, ← size]
    rfl
  · rw [grown]
    exact Nat.max_le.mpr ⟨refines.bound, progress.index after⟩
  · intro i inside
    rw [grown] at inside
    rw [byteAt_resize, progress.bytes i (by omega), byte]
    by_cases here : pos ≤ i ∧ i < a
    · rw [if_pos here, if_pos here, List.getD_eq_getElem?_getD, List.getD_eq_getElem?_getD,
        List.getElem?_take_of_lt (by omega)]
    · rw [if_neg here, if_neg here]
      by_cases known : i < c.size
      · exact refines.bytes i known
      · rw [refines.zero i (by omega)]
        exact progress.gap after i (by omega) (by omega)
  · intro i beyond
    rw [grown] at beyond
    rw [byte, if_neg (by omega)]
    exact refines.zero i (by omega)

/-- A write that has stored nothing. -/
theorem Progress.unmoved {s' : State} (refines : Refines v s c)
    (progress : Progress v s buf pos pos s') : Refines v s' c where
  layout := progress.layout
  size := progress.size.trans refines.size
  bound := refines.bound
  bytes i inside := by
    rw [progress.bytes i (.inr (.inl (by rw [refines.size]; exact inside))), if_neg (by omega)]
    exact refines.bytes i inside
  zero := refines.zero

theorem writeEnd_eq {s' : State} {ret : Int} (counted : a - pos < 2 ^ 31) :
    writeEnd s' pos a ret =
      if pos < a then ⟨(a - pos : Nat), s'.resize (max s'.layout.inode.iSize a), a⟩
      else ⟨ret, s', pos⟩ := by
  have total := ssize_eq counted
  simp only [writeEnd, total]
  by_cases after : pos < a
  · rw [if_pos after, if_pos (by omega)]
  · rw [if_neg after, if_neg (by omega), if_pos (by omega)]

/-- What follows the loop. -/
theorem writeEnd_refines {s' : State} {ret : Int} (refines : Refines v s c)
    (low : pos ≤ a) (high : a ≤ pos + buf.length) (progress : Progress v s buf pos a s')
    (failed : ret ≤ 0) :
    Refines v (writeEnd s' pos a ret).state (c.stored pos buf (writeEnd s' pos a ret).ret) := by
  rw [writeEnd_eq progress.counted]
  cases Nat.lt_or_eq_of_le low with
  | inl after =>
      have positive : (0 : Int) < ((a - pos : Nat) : Int) := by omega
      simp only [if_pos after, Contents.stored, if_pos positive, Int.toNat_natCast]
      exact progress.moved refines after high
  | inr same =>
      subst same
      simp only [Nat.lt_irrefl, if_false, Contents.stored, if_neg (Int.not_lt.mpr failed)]
      exact progress.unmoved refines

/-- **A clean write stores what it says it stored.** -/
theorem ext4FileWrite_refines (refines : Refines v s c) (clean : WriteClean v s buf pos) :
    ∃ r, ext4FileWrite v s buf pos = some r ∧ Refines v r.state (c.stored pos buf r.ret) := by
  have loop := writeLoop_progress refines.layout clean
  unfold ext4FileWrite
  cases ended : slotLoop v.blockSize v.blockSize_pos (pos + buf.length) (writeChunk v buf) s pos 0 with
  | ok s' =>
      rw [ended] at loop
      exact ⟨_, rfl, writeEnd_refines refines (by omega) (Nat.le_refl _) loop (by decide)⟩
  | error e =>
      rw [ended] at loop
      obtain ⟨errno, s', a, rfl, low, high, progress⟩ := loop
      refine ⟨_, rfl, writeEnd_refines refines low high progress ?_⟩
      cases errno <;> decide

end Write

/-! ## Reading -/

section Read

variable {v : Volume} {s : State} {c : Contents} {pos stop a len : Nat}

/-- One round of a read, below the last block number. -/
theorem readChunk_eq (sound : s.layout.Sound v) (index : a / v.blockSize < 2 ^ 32)
    (below : a < stop) (buf : List UInt8) (source : Nat) :
    readChunk v s buf a (chunk v.blockSize a stop) source =
      .ok (buf ++ (List.range (chunk v.blockSize a stop)).map fun k => byteAt v s (a + k)) := by
  have ends := add_chunk v.blockSize_pos below
  have low := Nat.div_mul_le_self a v.blockSize
  have same (k : Nat) (inside : k < chunk v.blockSize a stop) :
      (a + k) / v.blockSize = a / v.blockSize := by
    rw [div_eq_iff_mem]
    omega
  unfold readChunk Volume.iblock
  rw [ext4GetBlock_eq sound.inode.magic, Nat.mod_eq_of_lt index]
  cases here : s.layout.inode.mapped (a / v.blockSize) with
  | none =>
      show Except.ok _ = _
      congr 2
      apply List.ext_getElem (by simp)
      intro k inside _
      simp [byteAt, same k (by simpa using inside), here]
  | some p =>
      show Except.ok _ = _
      congr 2
      apply List.map_congr_left
      intro k inside
      have inside := List.mem_range.mp inside
      have offset := mod_eq_sub v (a + k)
      have start := mod_eq_sub v a
      rw [same k inside] at offset
      unfold byteAt
      rw [same k inside, here]
      show s.data p _ = s.data p _
      congr 1
      omega

theorem readLoop_eq (sound : s.layout.Sound v) (bound : stop ≤ (2 ^ 32 - 1) * v.blockSize)
    (low : pos ≤ stop) :
    slotLoop v.blockSize v.blockSize_pos stop (readChunk v s) [] pos 0 =
      .ok ((List.range (stop - pos)).map fun k => byteAt v s (pos + k)) := by
  have loop := slotLoop_ends pos stop 0 v.blockSize_pos (readChunk v s)
    (R := fun a buf => buf = (List.range (a - pos)).map fun k => byteAt v s (pos + k))
    (E := fun _ => False) ?_ [] pos (Nat.le_refl _) low (.inl rfl) (by simp)
  · rw [Nat.sub_self, Nat.add_zero] at loop
    cases ended : slotLoop v.blockSize v.blockSize_pos stop (readChunk v s) [] pos 0 with
    | ok buf =>
        rw [ended] at loop
        exact congrArg Except.ok loop
    | error e =>
        rw [ended] at loop
        exact loop.elim
  · rintro buf a low below _ rfl
    have index : a / v.blockSize < 2 ^ 32 - 1 :=
      (Nat.div_lt_iff_lt_mul v.blockSize_pos).mpr (Nat.lt_of_lt_of_le below bound)
    rw [readChunk_eq sound (by omega) below]
    show _ = List.map _ (List.range (a + chunk v.blockSize a stop - pos))
    rw [show a + chunk v.blockSize a stop - pos = (a - pos) + chunk v.blockSize a stop by omega,
      List.range_add, List.map_append, List.map_map]
    congr 1
    apply List.map_congr_left
    intro k _
    show _ = byteAt v s (pos + (a - pos + k))
    congr 1
    omega

/-- The count that a read of `len` bytes at `pos` is to return. -/
def Contents.available (c : Contents) (pos len : Nat) : Nat := min len (c.size - pos)

/-- What a read is to return. -/
def Contents.answer (c : Contents) (pos len : Nat) : ReadResult :=
  ⟨(c.available pos len : Nat), c.read pos len, pos + c.available pos len⟩

theorem readEnd_eq {buf : List UInt8} {n : Nat} (small : n < 2 ^ 31) :
    readEnd buf pos (pos + n) 0 = ⟨(n : Nat), buf, pos + n⟩ := by
  have total := ssize_eq small
  simp only [readEnd, Nat.add_sub_cancel_left, total]
  by_cases empty : n = 0
  · subst empty
    rfl
  · rw [if_neg (by omega), if_pos (by omega)]

theorem ssize_lt (n : Nat) : ssize n < 2 ^ 31 := by
  have := Int.bmod_lt (x := (n : Int)) (m := 2 ^ 32) (by decide)
  unfold ssize
  omega

theorem read_eq_map (refines : Refines v s c) :
    (List.range (c.available pos len)).map (fun k => byteAt v s (pos + k)) = c.read pos len := by
  apply List.map_congr_left
  intro k inside
  have inside := List.mem_range.mp inside
  unfold Contents.available at inside
  exact refines.bytes _ (by omega)

/-- The loop of a read ends at the end of what is available. -/
theorem ext4FileRead_eq (refines : Refines v s c) (below : pos < c.size) (short : len < 2 ^ 32) :
    ext4FileRead v s len pos =
      readEnd (c.read pos len) pos (pos + c.available pos len) 0 := by
  have bound := refines.bound
  have cut : (if c.size < pos + len then (c.size - pos) % 2 ^ 32 else len) = c.available pos len := by
    unfold Contents.available
    split
    · rw [Nat.mod_eq_of_lt (by omega)]
      omega
    · omega
  have stop : pos + c.available pos len ≤ c.size := by
    unfold Contents.available
    omega
  have loop := readLoop_eq refines.layout (Nat.le_trans stop bound) (Nat.le_add_right pos _)
  rw [Nat.add_sub_cancel_left, read_eq_map refines] at loop
  unfold ext4FileRead
  simp only [refines.size]
  rw [if_neg (by omega), cut, loop]

/-- **A read returns the contents exactly if the count fits in `ssize_t`.** -/
theorem ext4FileRead_iff (refines : Refines v s c) (short : len < 2 ^ 32) :
    ext4FileRead v s len pos = c.answer pos len ↔ c.available pos len < 2 ^ 31 := by
  by_cases below : pos < c.size
  · rw [ext4FileRead_eq refines below short]
    constructor
    · intro same
      have ret : (readEnd (c.read pos len) pos (pos + c.available pos len) 0).ret =
          (c.available pos len : Nat) := by rw [same]; rfl
      have limit := ssize_lt (c.available pos len)
      simp only [readEnd, Nat.add_sub_cancel_left] at ret
      split at ret <;> omega
    · exact readEnd_eq
  · have none : c.available pos len = 0 := by
      unfold Contents.available
      omega
    have empty : ext4FileRead v s len pos = ⟨0, [], pos⟩ := by
      unfold ext4FileRead
      simp only [refines.size]
      rw [if_pos (by omega)]
    have answer : c.answer pos len = ⟨0, [], pos⟩ := by
      unfold Contents.answer Contents.read
      rw [none, show min len (c.size - pos) = 0 from none]
      rfl
    rw [empty, answer, none]
    simp

end Read

/-! ## Runs -/

/-- The file, the positions of its open files, and the contents the results tell of. -/
structure Session where
  state : State
  fPos : Nat → Nat
  contents : Contents
  wild : Bool

inductive Op where
  | read (file len : Nat)
  | write (file : Nat) (buf : List UInt8)
  | llseek (file : Nat) (offset whence : Int)
  | reopen (file : Nat) (trunc : Bool)

def moveTo (fPos : Nat → Nat) (file pos : Nat) : Nat → Nat :=
  fun f => if f = file then pos else fPos f

def step (v : Volume) (s : Session) : Op → Session
  | .read file len =>
      { s with fPos := moveTo s.fPos file (ext4FileRead v s.state len (s.fPos file)).pos }
  | .write file buf =>
      match ext4FileWrite v s.state buf (s.fPos file) with
      | some r =>
          { s with
            state := r.state
            fPos := moveTo s.fPos file r.pos
            contents := s.contents.stored (s.fPos file) buf r.ret }
      | none => { s with wild := true }
  | .llseek file offset whence =>
      { s with
        fPos := moveTo s.fPos file
          (vfsLlseek s.state.layout.inode.iSize (s.fPos file) offset whence).2 }
  | .reopen file trunc =>
      { s with
        state := vfsOpen s.state trunc
        fPos := moveTo s.fPos file 0
        contents := if trunc then .empty else s.contents }

/-- Lengths are a `size_t`, offsets a `loff_t`. -/
def machine (v : Volume) : Machine Session Op where
  enabled _
    | .read _ len => len < 2 ^ 32
    | .write _ buf => buf.length < 2 ^ 32
    | .llseek _ offset _ => -2 ^ 63 ≤ offset ∧ offset < 2 ^ 63
    | .reopen _ _ => True
  step := step v

/-- A new file on a volume with any bitmaps and any old bytes. -/
def created (bitmaps : Bitmaps) (data : Nat → Nat → UInt8) : Session where
  state := ⟨⟨ext4Create, bitmaps⟩, data⟩
  fPos _ := 0
  contents := .empty
  wild := false

/-- The writes are clean. -/
def Clean (v : Volume) (s : Session) : Op → Prop
  | .write file buf => WriteClean v s.state buf (s.fPos file)
  | _ => True

instance (v : Volume) (s : Session) : ∀ op, Decidable ((machine v).enabled s op)
  | .read _ _ => inferInstanceAs (Decidable (_ < _))
  | .write _ _ => inferInstanceAs (Decidable (_ < _))
  | .llseek _ _ _ => inferInstanceAs (Decidable (_ ∧ _))
  | .reopen _ _ => isTrue trivial

instance (v : Volume) (s : Session) : ∀ op, Decidable (Clean v s op)
  | .write _ _ => inferInstanceAs (Decidable (WriteClean _ _ _ _))
  | .read _ _ => isTrue trivial
  | .llseek _ _ _ => isTrue trivial
  | .reopen _ _ => isTrue trivial

/-- The invariant of a run. -/
def Session.Good (v : Volume) (s : Session) : Prop :=
  Refines v s.state s.contents ∧ s.wild = false

theorem created_good (v : Volume) (bitmaps : Bitmaps) (data : Nat → Nat → UInt8) :
    (created bitmaps data).Good v := by
  refine ⟨⟨⟨⟨rfl, fun e member => absurd member List.not_mem_nil⟩, ?_, ?_⟩, rfl, Nat.zero_le _, ?_, ?_⟩, rfl⟩
  · intro b p here
    cases here
  · intro a b p here
    cases here
  · intro i inside
    exact absurd inside (Nat.not_lt_zero i)
  · intro i _
    rfl

theorem Refines.truncate {v : Volume} {s : State} {c : Contents} (refines : Refines v s c) :
    Refines v (s.resize 0) .empty where
  layout := refines.layout.resize 0
  size := rfl
  bound := Nat.zero_le _
  bytes i inside := absurd inside (Nat.not_lt_zero i)
  zero _ _ := rfl

theorem step_good {v : Volume} {s : Session} {op : Op} (good : s.Good v) (clean : Clean v s op) :
    (step v s op).Good v := by
  obtain ⟨refines, tame⟩ := good
  cases op with
  | read file len => exact ⟨refines, tame⟩
  | write file buf =>
      obtain ⟨r, result, stored⟩ := ext4FileWrite_refines refines clean
      simp only [step, result]
      exact ⟨stored, tame⟩
  | llseek file offset whence => exact ⟨refines, tame⟩
  | reopen file trunc =>
      refine ⟨?_, tame⟩
      cases trunc with
      | false => exact refines
      | true => exact refines.truncate

/-- **A regular file is a byte array.**  In every run whose writes are clean, no
read is wild, and a read returns the contents exactly if their count fits in
`ssize_t`. -/
theorem file_reads_contents (v : Volume) (bitmaps : Bitmaps) (data : Nat → Nat → UInt8)
    (ops : List Op) (admitted : ((machine v).guard (Clean v)).Admits (created bitmaps data) ops) :
    let s := (machine v).run (created bitmaps data) ops
    s.wild = false ∧ ∀ len pos, len < 2 ^ 32 →
      (ext4FileRead v s.state len pos = s.contents.answer pos len ↔
        s.contents.available pos len < 2 ^ 31) := by
  have good := Machine.run_invariant ((machine v).guard (Clean v)) (I := Session.Good v)
    (fun s op good enabled => step_good good enabled.2) (created_good v bitmaps data) admitted
  rw [Machine.guard_run] at good
  exact ⟨good.2, fun len pos short => ext4FileRead_iff good.1 short⟩

/-! ### A small volume -/

/-- One group of 256 blocks of 1 KiB. -/
def smallVolume : Volume where
  logBlockSize := 0
  groupsCount := 1
  blocksPerGroup := 256
  firstDataBlock := 1
  shifted := by decide
  oneBlock := by decide

/-- The first 50 blocks are in use, and every byte of the volume is 7. -/
def oldBytes : Session := created (fun _ i => decide (i < 50)) (fun _ _ => 7)

/-- Writes that leave no gap, with a truncation between them. -/
theorem appended_writes_read_back :
    let ops := [.write 0 [1, 2, 3], .reopen 0 true, .write 0 [9], .llseek 0 0 2, .write 0 [4, 5]]
    let s := (machine smallVolume).run oldBytes ops
    ((machine smallVolume).guard (Clean smallVolume)).Admits oldBytes ops ∧
      s.contents.read 0 10 = [9, 4, 5] ∧
      (s.wild = false ∧ ∀ len pos, len < 2 ^ 32 →
        (ext4FileRead smallVolume s.state len pos = s.contents.answer pos len ↔
          s.contents.available pos len < 2 ^ 31)) := by
  intro ops s
  have admitted : ((machine smallVolume).guard (Clean smallVolume)).Admits oldBytes ops := by
    decide +kernel
  refine ⟨admitted, by decide +kernel, ?_⟩
  exact file_reads_contents smallVolume (fun _ i => decide (i < 50)) (fun _ _ => 7) ops admitted

/-- One byte written at position 1 of a new file: the byte at position 0 was never
written, and reads as the old byte of the block. -/
theorem gap_reads_old_byte :
    ¬ ∀ (v : Volume) (bitmaps : Bitmaps) (data : Nat → Nat → UInt8) (ops : List Op),
      (machine v).Admits (created bitmaps data) ops →
      let s := (machine v).run (created bitmaps data) ops
      s.wild = false ∧ ∀ len pos, len < 2 ^ 32 →
        ext4FileRead v s.state len pos = s.contents.answer pos len := by
  intro claim
  have := (claim smallVolume (fun _ i => decide (i < 50)) (fun _ _ => 7)
    [.llseek 0 1 0, .write 0 [5]] (by decide +kernel)).2 2 0 (by decide)
  exact absurd this (by decide +kernel)

end Minus.Fs.Ext4
