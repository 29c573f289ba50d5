/-
# Fs.Ext4FileIo — reads and writes of a file on a device that fails

`ext4_file_read` and `ext4_file_write` as in `Fs.Ext4`, where `sb_bread` may return NULL:
`io` says for which blocks the buffer can be had.  A loop stops at the first byte that it
cannot get, and the count, the position and the buffer agree on what came before it
(`ext4FileReadIo_spec`).

On a device that does not fail they are the functions of `Fs.Ext4`.
-/
import Minus.Fs.Ext4File
import Minus.Theory.Prefix

namespace Minus.Fs.Ext4

set_option autoImplicit false

open Minus.Theory

/-! ## file.c -/

/-- One round of the loop of `ext4_file_read`. -/
def readChunkIo (v : Volume) (io : Nat → Bool) (s : State) (buf : List UInt8) (offset toCopy _source : Nat) :
    Except (List UInt8 × Nat) (List UInt8) :=
  match ext4GetBlock s.layout.inode (v.iblock offset) with
  | .ok pblock =>
      if io pblock then .ok (buf ++ (List.range toCopy).map fun k => s.data pblock (offset % v.blockSize + k))
      else .error (buf, offset)
  | .error .enospc => .ok (buf ++ List.replicate toCopy 0)
  | .error _ => .error (buf, offset)

def ext4FileReadIo (v : Volume) (io : Nat → Bool) (s : State) (len pos : Nat) : ReadResult :=
  let iSize := s.layout.inode.iSize
  if iSize ≤ pos then
    ⟨0, [], pos⟩
  else
    let len := if iSize < pos + len then (iSize - pos) % 2 ^ 32 else len
    match slotLoop v.blockSize v.blockSize_pos (pos + len) (readChunkIo v io s) [] pos 0 with
    | .ok buf => readEnd buf pos (pos + len) 0
    | .error (buf, offset) => readEnd buf pos offset Errno.eio.ret

/-- One round of the loop of `ext4_file_write`. -/
def writeChunkIo (v : Volume) (io : Nat → Bool) (buf : List UInt8) (s : State) (offset toCopy source : Nat) :
    Except (Stop (State × Nat)) State :=
  match writeBlock v s.layout (v.iblock offset) with
  | .ok (layout, pblock) =>
      if io pblock then .ok ⟨layout, copyIn s.data pblock (offset % v.blockSize) toCopy buf source⟩
      else .error (.short .eio ({ s with layout }, offset))
  | .error (.short e layout) => .error (.short e ({ s with layout }, offset))
  | .error .wild => .error .wild

def ext4FileWriteIo (v : Volume) (io : Nat → Bool) (s : State) (buf : List UInt8) (pos : Nat) : Option WriteResult :=
  match slotLoop v.blockSize v.blockSize_pos (pos + buf.length) (writeChunkIo v io buf) s pos 0 with
  | .ok s => some (writeEnd s pos (pos + buf.length) 0)
  | .error (.short e (s, offset)) => some (writeEnd s pos offset e.ret)
  | .error .wild => none

theorem ext4FileReadIo_works (v : Volume) : ext4FileReadIo v (fun _ => true) = ext4FileRead v := by
  have round : readChunkIo v (fun _ => true) = readChunk v := by
    funext s buf offset toCopy source
    unfold readChunkIo readChunk
    cases ext4GetBlock s.layout.inode (v.iblock offset) with
    | ok pblock => rfl
    | error e => cases e <;> rfl
  funext s len pos
  rw [ext4FileReadIo, round]
  rfl

theorem ext4FileWriteIo_works (v : Volume) : ext4FileWriteIo v (fun _ => true) = ext4FileWrite v := by
  have round : writeChunkIo v (fun _ => true) = writeChunk v := by
    funext buf s offset toCopy source
    unfold writeChunkIo writeChunk
    cases writeBlock v s.layout (v.iblock offset) with
    | ok r => rfl
    | error e => cases e <;> rfl
  funext s buf pos
  rw [ext4FileWriteIo, round]
  rfl

/-! ## Reading -/

section Read

variable {v : Volume} {io : Nat → Bool} {s : State} {pos len a : Nat}

/-- The byte at a position can be had. -/
def Readable (v : Volume) (io : Nat → Bool) (s : State) (i : Nat) : Prop :=
  match ext4GetBlock s.layout.inode (v.iblock i) with
  | .ok pblock => io pblock = true
  | .error e => e = .enospc

instance (v : Volume) (io : Nat → Bool) (s : State) (i : Nat) : Decidable (Readable v io s i) := by
  unfold Readable
  split
  · infer_instance
  · infer_instance

/-- The byte that is read there, with the block number in 32 bits. -/
def readByte (v : Volume) (s : State) (i : Nat) : UInt8 :=
  match ext4GetBlock s.layout.inode (v.iblock i) with
  | .ok pblock => s.data pblock (i % v.blockSize)
  | .error _ => 0

/-- It is the byte of the file, as long as the block number has 32 bits. -/
theorem readByte_eq {i : Nat} (readable : Readable v io s i) (index : i / v.blockSize < 2 ^ 32) :
    readByte v s i = byteAt v s i := by
  have block : v.iblock i = i / v.blockSize := Nat.mod_eq_of_lt index
  unfold Readable at readable
  unfold readByte byteAt Inode.mapped locate
  unfold ext4GetBlock at *
  rw [block] at *
  by_cases magic : s.layout.inode.ehMagic = extentHeaderMagic
  · rw [if_pos magic] at *
    cases s.layout.inode.extents.find? fun e => e.holds (i / v.blockSize) with
    | none => rfl
    | some e => rfl
  · rw [if_neg magic] at readable
    cases readable

theorem iblock_add {c : Nat} (within : a % v.blockSize + c < v.blockSize) :
    v.iblock (a + c) = v.iblock a ∧ (a + c) % v.blockSize = a % v.blockSize + c := by
  have positive := v.blockSize_pos
  have split := Nat.div_add_mod a v.blockSize
  have same : (a + c) / v.blockSize = a / v.blockSize := by
    rw [show a + c = a % v.blockSize + c + v.blockSize * (a / v.blockSize) by omega, Nat.add_mul_div_left _ _ positive,
      Nat.div_eq_of_lt within, Nat.zero_add]
  refine ⟨?_, ?_⟩
  · unfold Volume.iblock
    rw [same]
  · rw [show a + c = a % v.blockSize + c + v.blockSize * (a / v.blockSize) by omega, Nat.add_mul_mod_self_left,
      Nat.mod_eq_of_lt within]

/-- One round reads its chunk, or stops. -/
theorem readChunkIo_spec (v : Volume) (io : Nat → Bool) (s : State) (buf : List UInt8) {c : Nat}
    (within : a % v.blockSize + c ≤ v.blockSize) (source : Nat) :
    Ends (fun buf' => (∀ j < c, Readable v io s (a + j)) ∧ buf' = buf ++ (List.range c).map fun j => readByte v s (a + j))
      (fun e => ¬ Readable v io s a ∧ e = (buf, a)) (readChunkIo v io s buf a c source) := by
  have same (j : Nat) (below : j < c) := iblock_add (v := v) (a := a) (c := j) (by omega)
  unfold readChunkIo
  cases get : ext4GetBlock s.layout.inode (v.iblock a) with
  | ok pblock =>
      dsimp only
      split
      · rename_i can
        refine ⟨fun j below => ?_, ?_⟩
        · unfold Readable
          rw [(same j below).1, get]
          exact can
        · congr 1
          refine List.map_congr_left fun j member => ?_
          obtain ⟨block, offset⟩ := same j (List.mem_range.1 member)
          unfold readByte
          rw [block, get, offset]
      · rename_i cannot
        refine ⟨fun readable => cannot ?_, rfl⟩
        unfold Readable at readable
        rwa [get] at readable
  | error e =>
      cases e with
      | enospc =>
          refine ⟨fun j below => ?_, ?_⟩
          · unfold Readable
            rw [(same j below).1, get]
          · congr 1
            have zeros : ∀ j ∈ List.range c, readByte v s (a + j) = 0 := fun j member => by
              unfold readByte
              rw [(same j (List.mem_range.1 member)).1, get]
            rw [List.map_congr_left zeros, List.map_const', List.length_range]
      | eio =>
          refine ⟨fun readable => ?_, rfl⟩
          unfold Readable at readable
          rw [get] at readable
          cases readable
      | einval =>
          refine ⟨fun readable => ?_, rfl⟩
          unfold Readable at readable
          rw [get] at readable
          cases readable

/-- The bytes that a read has got when it has reached `a`. -/
def bytesUpTo (v : Volume) (s : State) (pos a : Nat) : List UInt8 :=
  (List.range (a - pos)).map fun j => readByte v s (pos + j)

theorem bytesUpTo_add (v : Volume) (s : State) {pos a : Nat} (low : pos ≤ a) (c : Nat) :
    bytesUpTo v s pos (a + c) = bytesUpTo v s pos a ++ (List.range c).map fun j => readByte v s (a + j) := by
  unfold bytesUpTo
  rw [show a + c - pos = a - pos + c by omega, List.range_add, List.map_append, List.map_map]
  congr 1
  refine List.map_congr_left fun j _ => ?_
  show readByte v s (pos + (a - pos + j)) = _
  rw [show pos + (a - pos + j) = a + j by omega]

/-- The loop of a read, to the stop or to the first byte that it cannot get. -/
theorem readLoopIo_spec (v : Volume) (io : Nat → Bool) (s : State) (pos n : Nat) :
    ∃ k, LongestPrefix (fun j => Readable v io s (pos + j)) n k ∧
      slotLoop v.blockSize v.blockSize_pos (pos + n) (readChunkIo v io s) [] pos 0 =
        if k = n then .ok (bytesUpTo v s pos (pos + k)) else .error (bytesUpTo v s pos (pos + k), pos + k) := by
  have loop := slotLoop_ends pos (pos + n) 0 v.blockSize_pos (readChunkIo v io s)
    (R := fun a buf => (∀ i, pos ≤ i → i < a → Readable v io s i) ∧ buf = bytesUpTo v s pos a)
    (E := fun e => ∃ k < n, (∀ i, pos ≤ i → i < pos + k → Readable v io s i) ∧ ¬ Readable v io s (pos + k) ∧
      e = (bytesUpTo v s pos (pos + k), pos + k)) ?_ [] pos (Nat.le_refl _) (by omega) (.inl rfl)
    ⟨fun i low high => absurd low (Nat.not_le.2 high), by rw [bytesUpTo, Nat.sub_self]; rfl⟩
  · rw [Nat.sub_self] at loop
    cases run : slotLoop v.blockSize v.blockSize_pos (pos + n) (readChunkIo v io s) [] pos 0 with
    | ok buf =>
        rw [run] at loop
        obtain ⟨readable, rfl⟩ := loop
        refine ⟨n, ⟨Nat.le_refl n, fun j below => readable _ (by omega) (by omega), fun less => by omega⟩, ?_⟩
        rw [if_pos rfl]
    | error e =>
        rw [run] at loop
        obtain ⟨k, below, readable, stop, rfl⟩ := loop
        refine ⟨k, ⟨below.le, fun j less => readable _ (by omega) (by omega), fun _ => stop⟩, ?_⟩
        rw [if_neg (by omega)]
  · rintro buf a low below - ⟨readable, rfl⟩
    have within : a % v.blockSize + chunk v.blockSize a (pos + n) ≤ v.blockSize := by
      have := Nat.mod_lt a v.blockSize_pos
      unfold chunk
      omega
    refine (readChunkIo_spec v io s _ within _).mono ?_ ?_
    · rintro buf' ⟨more, rfl⟩
      refine ⟨fun i low' high => ?_, (bytesUpTo_add v s low _).symm⟩
      by_cases old : i < a
      · exact readable i low' old
      · have new := more (i - a) (by omega)
        rwa [show a + (i - a) = i by omega] at new
    · rintro e ⟨stop, rfl⟩
      refine ⟨a - pos, by omega, fun i low' high => readable i low' (by omega), ?_, ?_⟩
      · rwa [show pos + (a - pos) = a by omega]
      · rw [show pos + (a - pos) = a by omega]

/-- **`ext4_file_read`** reads up to the first byte that it cannot get. -/
theorem ext4FileReadIo_spec (v : Volume) (io : Nat → Bool) (s : State) (pos len : Nat) (small : len < 2 ^ 31) :
    ∃ k, LongestPrefix (fun j => Readable v io s (pos + j)) (min len (s.layout.inode.iSize - pos)) k ∧
      ext4FileReadIo v io s len pos =
        ⟨if k = 0 ∧ 0 < min len (s.layout.inode.iSize - pos) then Errno.eio.ret else k, bytesUpTo v s pos (pos + k), pos + k⟩ := by
  unfold ext4FileReadIo
  dsimp only
  by_cases beyond : s.layout.inode.iSize ≤ pos
  · refine ⟨0, by rw [Nat.sub_eq_zero_of_le beyond, Nat.min_zero]; exact .zero _, ?_⟩
    rw [if_pos beyond, Nat.sub_eq_zero_of_le beyond, Nat.min_zero, if_neg (by omega), bytesUpTo, Nat.add_zero, Nat.sub_self]
    rfl
  · rw [if_neg beyond]
    have cut : (if s.layout.inode.iSize < pos + len then (s.layout.inode.iSize - pos) % 2 ^ 32 else len) =
        min len (s.layout.inode.iSize - pos) := by
      split
      · rw [Nat.mod_eq_of_lt (by omega)]
        omega
      · omega
    rw [cut]
    obtain ⟨k, longest, run⟩ := readLoopIo_spec v io s pos (min len (s.layout.inode.iSize - pos))
    have le := longest.le
    refine ⟨k, longest, ?_⟩
    rw [run]
    by_cases whole : k = min len (s.layout.inode.iSize - pos)
    · rw [if_pos whole, if_neg (by omega), ← whole]
      exact readEnd_eq (by omega)
    · rw [if_neg whole]
      show readEnd (bytesUpTo v s pos (pos + k)) pos (pos + k) Errno.eio.ret = _
      unfold readEnd
      rw [Nat.add_sub_cancel_left, ssize_eq (by omega)]
      dsimp only
      by_cases none_ : k = 0
      · subst none_
        have missed : 0 = 0 ∧ 0 < min len (s.layout.inode.iSize - pos) := ⟨rfl, by omega⟩
        rw [if_pos missed]
        rfl
      · have positive : (0 : Int) < k := by omega
        rw [if_neg positive.ne', if_pos positive, if_neg fun missed => none_ missed.1]

end Read

/-! ## Writing -/

/-- The buffer of every block that a write takes for the file can be had, up to the first block
whose buffer cannot. -/
def NewBlocksRead (v : Volume) (io : Nat → Bool) : Layout → List Nat → Prop
  | _, [] => True
  | l, b :: rest =>
      Ends (fun r => (l.inode.mapped (b % 2 ^ 32) = none → io r.2 = true) ∧ (io r.2 = true → NewBlocksRead v io r.1 rest))
        (fun _ => True) (writeBlock v l (b % 2 ^ 32))

/-- A write is clean, and takes no block that it cannot fill. -/
def WriteCleanIo (v : Volume) (io : Nat → Bool) (s : State) (buf : List UInt8) (pos : Nat) : Prop :=
  WriteClean v s buf pos ∧ NewBlocksRead v io s.layout (blocksOf v pos (pos + buf.length))

instance decidableNewBlocksRead (v : Volume) (io : Nat → Bool) : ∀ l blocks, Decidable (NewBlocksRead v io l blocks)
  | _, [] => isTrue trivial
  | _, _ :: rest =>
      have (l' : Layout) : Decidable (NewBlocksRead v io l' rest) := decidableNewBlocksRead v io l' rest
      inferInstanceAs (Decidable (Ends _ _ _))

instance (v : Volume) (io : Nat → Bool) (s : State) (buf : List UInt8) (pos : Nat) : Decidable (WriteCleanIo v io s buf pos) :=
  inferInstanceAs (Decidable (_ ∧ _))

section Write

variable {v : Volume} {io : Nat → Bool} {s₀ s : State} {c : Contents} {buf : List UInt8} {pos stop a : Nat}

/-- A block that the file has is kept. -/
theorem writeBlock_mapped {l l' : Layout} {b p : Nat} (sound : l.Sound v) (mapped : l.inode.mapped b ≠ none)
    (run : writeBlock v l b = .ok (l', p)) : l' = l := by
  unfold writeBlock at run
  rw [ext4GetBlock_eq sound.inode.magic] at run
  cases here : l.inode.mapped b with
  | none => exact absurd here mapped
  | some q =>
      rw [here] at run
      cases run
      rfl

/-- **One round of a write**, on a device that fails. -/
theorem writeChunkIo_progress (edge : a = pos ∨ v.blockSize ∣ a) (low : pos ≤ a) (below : a < stop)
    (progress : Progress v s₀ buf pos a s) {rest : List Nat}
    (clean : BlocksClean v s₀ pos stop s.layout (a / v.blockSize :: rest))
    (taken : NewBlocksRead v io s.layout (a / v.blockSize :: rest)) :
    Ends (fun s' => Progress v s₀ buf pos (a + chunk v.blockSize a stop) s' ∧
        BlocksClean v s₀ pos stop s'.layout rest ∧ NewBlocksRead v io s'.layout rest)
      (fun e => ∃ errno s', e = .short errno (s', a) ∧ Progress v s₀ buf pos a s')
      (writeChunkIo v io buf s a (chunk v.blockSize a stop) (a - pos)) := by
  have round := writeChunk_progress edge low below progress clean
  unfold writeChunk at round
  unfold NewBlocksRead at taken
  unfold writeChunkIo
  change Ends _ _ (writeBlock v s.layout (v.iblock a)) at taken
  cases result : writeBlock v s.layout (v.iblock a) with
  | error e =>
      rw [result] at round
      cases e with
      | short e layout => exact round
      | wild => exact round
  | ok r =>
      obtain ⟨layout, pblock⟩ := r
      rw [result] at round taken
      obtain ⟨new, next⟩ := taken
      dsimp only
      split
      · rename_i can
        exact ⟨round.1, round.2, next can⟩
      · rename_i cannot
        have mapped : s.layout.inode.mapped (v.iblock a) ≠ none := fun none_ => cannot (new none_)
        obtain rfl := writeBlock_mapped progress.layout mapped result
        exact ⟨.eio, s, rfl, progress⟩

/-- Where the loop of a clean write ends. -/
theorem writeLoopIo_progress (sound : s.layout.Sound v) (clean : WriteCleanIo v io s buf pos) :
    Ends (Progress v s buf pos (pos + buf.length))
      (fun e => ∃ errno s' a, e = .short errno (s', a) ∧ pos ≤ a ∧ a ≤ pos + buf.length ∧
        Progress v s buf pos a s')
      (slotLoop v.blockSize v.blockSize_pos (pos + buf.length) (writeChunkIo v io buf) s pos 0) := by
  have loop := slotLoop_ends pos (pos + buf.length) 0 v.blockSize_pos
    (writeChunkIo v io buf)
    (R := fun a s' => Progress v s buf pos a s' ∧ (a < pos + buf.length →
      BlocksClean v s pos (pos + buf.length) s'.layout (blocksOf v a (pos + buf.length)) ∧
        NewBlocksRead v io s'.layout (blocksOf v a (pos + buf.length))))
    (E := fun e => ∃ errno s' a, e = .short errno (s', a) ∧ pos ≤ a ∧ a ≤ pos + buf.length ∧
      Progress v s buf pos a s') ?_ s pos (Nat.le_refl _) (by omega) (.inl rfl)
    ⟨.start sound, fun below => ⟨clean.1 (by rintro rfl; simp at below), clean.2⟩⟩
  · rw [Nat.sub_self] at loop
    exact loop.mono (fun _ h => h.1) (fun _ h => h)
  · rintro s' a low below edge ⟨progress, clean⟩
    obtain ⟨rest, blocks, next⟩ := blocksOf_cons (v := v) below
    obtain ⟨clean, taken⟩ := clean below
    rw [blocks] at clean taken
    rw [Nat.zero_add]
    refine (writeChunkIo_progress edge low below progress clean taken).mono ?_ ?_
    · rintro s' ⟨progress, clean, taken⟩
      exact ⟨progress, fun more => next more ▸ ⟨clean, taken⟩⟩
    · rintro e ⟨errno, s', same, progress⟩
      exact ⟨errno, s', a, same, low, Nat.le_of_lt below, progress⟩

/-- Whatever is written where, the position moves by what is returned. -/
theorem ext4FileWriteIo_moves {r : WriteResult} (small : buf.length < 2 ^ 31) (run : ext4FileWriteIo v io s buf pos = some r) :
    r.ret ≤ buf.length ∧ r.pos = pos + r.ret.toNat := by
  have ends (s' : State) {a : Nat} {ret : Int} (low : pos ≤ a) (high : a ≤ pos + buf.length) (failed : ret ≤ 0) :
      (writeEnd s' pos a ret).ret ≤ buf.length ∧ (writeEnd s' pos a ret).pos = pos + (writeEnd s' pos a ret).ret.toNat := by
    rw [writeEnd_eq (by omega)]
    split
    · exact ⟨by show ((a - pos : Nat) : Int) ≤ _; omega, by show a = pos + ((a - pos : Nat) : Int).toNat; omega⟩
    · exact ⟨by show ret ≤ _; omega, by show pos = pos + ret.toNat; omega⟩
  have loop := slotLoop_ends pos (pos + buf.length) 0 v.blockSize_pos (writeChunkIo v io buf) (R := fun _ _ => True)
    (E := fun e => ∀ errno s' a, e = .short errno (s', a) → pos ≤ a ∧ a ≤ pos + buf.length) ?_ s pos (Nat.le_refl _)
    (by omega) (.inl rfl) trivial
  · rw [Nat.sub_self] at loop
    unfold ext4FileWriteIo at run
    cases ended : slotLoop v.blockSize v.blockSize_pos (pos + buf.length) (writeChunkIo v io buf) s pos 0 with
    | ok s' =>
        rw [ended] at run
        rw [← Option.some.inj run]
        exact ends s' (by omega) (Nat.le_refl _) (Int.le_refl 0)
    | error e =>
        rw [ended] at run loop
        match e, run, loop with
        | .short errno (s', a), run, loop =>
            obtain ⟨low, high⟩ := loop errno s' a rfl
            rw [← Option.some.inj run]
            exact ends s' low high (by cases errno <;> decide)
  · intro s' a low below _ _
    unfold writeChunkIo
    split
    · split
      · trivial
      · rintro errno s' a' ⟨⟩
        exact ⟨low, below.le⟩
    · rintro errno s' a' ⟨⟩
      exact ⟨low, below.le⟩
    · rintro errno s' a' ⟨⟩

/-- The result of a write that has reached `a`. -/
structure Wrote (v : Volume) (c : Contents) (buf : List UInt8) (pos : Nat) (r : WriteResult) : Prop where
  le : r.ret ≤ buf.length
  refines : Refines v r.state (c.stored pos buf r.ret)
  pos_ : r.pos = pos + r.ret.toNat

theorem writeEnd_wrote {s' : State} {ret : Int} (refines : Refines v s c)
    (low : pos ≤ a) (high : a ≤ pos + buf.length) (progress : Progress v s buf pos a s')
    (failed : ret ≤ 0) : Wrote v c buf pos (writeEnd s' pos a ret) := by
  refine ⟨?_, writeEnd_refines refines low high progress failed, ?_⟩
  · rw [writeEnd_eq progress.counted]
    split
    · show ((a - pos : Nat) : Int) ≤ buf.length
      omega
    · show ret ≤ buf.length
      omega
  · rw [writeEnd_eq progress.counted]
    split
    · show a = pos + ((a - pos : Nat) : Int).toNat
      omega
    · show pos = pos + ret.toNat
      omega

/-- **`ext4_file_write`** of a clean write stores, counts and moves by the same bytes. -/
theorem ext4FileWriteIo_wrote (refines : Refines v s c) (clean : WriteCleanIo v io s buf pos) :
    ∃ r, ext4FileWriteIo v io s buf pos = some r ∧ Wrote v c buf pos r := by
  have loop := writeLoopIo_progress refines.layout clean
  unfold ext4FileWriteIo
  cases ended : slotLoop v.blockSize v.blockSize_pos (pos + buf.length) (writeChunkIo v io buf) s pos 0 with
  | ok s' =>
      rw [ended] at loop
      exact ⟨_, rfl, writeEnd_wrote refines (by omega) (Nat.le_refl _) loop (by decide)⟩
  | error e =>
      rw [ended] at loop
      obtain ⟨errno, s', a, rfl, low, high, progress⟩ := loop
      refine ⟨_, rfl, writeEnd_wrote refines low high progress ?_⟩
      cases errno <;> decide

end Write

end Minus.Fs.Ext4
