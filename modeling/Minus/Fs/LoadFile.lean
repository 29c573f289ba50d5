/-
# Fs.LoadFile — a whole file in kernel memory

`fs_load_file` of `kernel/fs/service/fs_service.c`: the size comes from `vfs_fstat`, the
buffer is as large as the file, and `vfs_read` is called until the buffer is full.

The open file and `kmalloc` are the environment.  The file is its bytes and the count that
`vfs_read` answers at each position; `kmalloc` gives memory with what lies in and behind the
object.
-/
import Minus.Theory.Bytes

namespace Minus.Fs

set_option autoImplicit false

open Minus.Theory

/-- An open regular file at position 0. -/
structure OpenFile where
  /-- `st_size`, where `vfs_fstat` succeeds. -/
  stSize : Option UInt64
  byte : Nat → UInt8
  /-- What `vfs_read` returns at a position for a count. -/
  read : Nat → Nat → Int
  short : ∀ pos count, read pos count ≤ count

inductive LoadFileError where
  | eio
  | enoexec
  | enomem
  deriving DecidableEq

/-- `FS_LOAD_MAX`. -/
def fsLoadMax : UInt64 := 16 * 1024 * 1024

/-- What `vfs_read` puts into the buffer. -/
def fill (buf : Bytes) (start n : Nat) (src : Nat → UInt8) : Bytes := fun i =>
  if start ≤ i ∧ i < start + n then src i else buf i

/-- The loop of `fs_load_file`: the buffer and `total`, which is also the position. -/
def loadLoop (file : OpenFile) (size : Nat) (buf : Bytes) (total : Nat) : Bytes × Nat :=
  if total < size then
    let n := file.read total (size - total)
    if n ≤ 0 then (buf, total)
    else loadLoop file size (fill buf total n.toNat file.byte) (total + n.toNat)
  else (buf, total)
termination_by size - total
decreasing_by omega

/-- `fs_load_file`: the buffer and its size. -/
def fsLoadFile (vfsOpen : Option OpenFile) (kmalloc : UInt32 → Option Bytes) :
    Except LoadFileError (Bytes × UInt32) :=
  match vfsOpen with
  | none => .error .eio
  | some file =>
      match file.stSize with
      | none => .error .eio
      | some stSize =>
          if stSize = 0 ∨ stSize > fsLoadMax then .error .enoexec
          else
            match kmalloc stSize.toUInt32 with
            | none => .error .enomem
            | some buf =>
                let r := loadLoop file stSize.toNat buf 0
                if r.2 ≠ stSize.toNat then .error .eio else .ok (r.1, stSize.toUInt32)

/-- The buffer holds the first `total` bytes of the file, and behind them what was there. -/
structure Filled (file : OpenFile) (behind buf : Bytes) (total : Nat) : Prop where
  file : ∀ i < total, buf i = file.byte i
  behind : ∀ i, total ≤ i → buf i = behind i

theorem Filled.round {file : OpenFile} {behind buf : Bytes} {total : Nat} (filled : Filled file behind buf total)
    (n : Nat) : Filled file behind (fill buf total n file.byte) (total + n) where
  file i below := by
    unfold fill
    split
    · rfl
    · exact filled.file i (by omega)
  behind i above := by
    unfold fill
    rw [if_neg (by omega)]
    exact filled.behind i (by omega)

/-- **The loop fills the buffer up to the position it reaches, and not beyond its size.** -/
theorem loadLoop_fills (file : OpenFile) {size : Nat} (behind : Bytes) :
    ∀ (buf : Bytes) (total : Nat), total ≤ size → Filled file behind buf total →
      (loadLoop file size buf total).2 ≤ size ∧
        Filled file behind (loadLoop file size buf total).1 (loadLoop file size buf total).2 := by
  intro buf total
  induction buf, total using loadLoop.induct file size with
  | case1 buf total below n ended =>
      intro inside filled
      rw [loadLoop, if_pos below, if_pos ended]
      exact ⟨inside, filled⟩
  | case2 buf total below n more ih =>
      intro inside filled
      rw [loadLoop, if_pos below, if_neg more]
      have short := file.short total (size - total)
      exact ih (by omega) (filled.round n.toNat)
  | case3 buf total done =>
      intro inside filled
      rw [loadLoop, if_neg done]
      exact ⟨inside, filled⟩

/-- What `fs_load_file` returns is the file, in a buffer of its size. -/
structure Loaded (file : OpenFile) (kmalloc : UInt32 → Option Bytes) (buf : Bytes) (size : UInt32) : Prop where
  stat : file.stSize = some size.toUInt64
  positive : 0 < size.toNat
  small : size.toNat ≤ 16 * 1024 * 1024
  filled : ∃ heap, kmalloc size = some heap ∧ Filled file heap buf size.toNat

theorem fsLoadFile_loaded {file : OpenFile} {kmalloc : UInt32 → Option Bytes} {buf : Bytes} {size : UInt32}
    (load : fsLoadFile (some file) kmalloc = .ok (buf, size)) : Loaded file kmalloc buf size := by
  unfold fsLoadFile at load
  dsimp only at load
  cases stat : file.stSize with
  | none =>
      rw [stat] at load
      cases load
  | some stSize =>
      rw [stat] at load
      dsimp only at load
      by_cases refused : stSize = 0 ∨ stSize > fsLoadMax
      · rw [if_pos refused] at load
        cases load
      · rw [if_neg refused] at load
        obtain ⟨nonzero, le⟩ := not_or.1 refused
        have small : stSize.toNat ≤ 16 * 1024 * 1024 := UInt64.le_iff_toNat_le.1 (UInt64.not_lt.1 le)
        have positive : 0 < stSize.toNat := by
          apply Nat.pos_of_ne_zero
          intro zero
          exact nonzero (UInt64.toNat_inj.1 zero)
        have narrow : stSize.toUInt32.toNat = stSize.toNat := by
          rw [UInt64.toNat_toUInt32]
          omega
        cases object : kmalloc stSize.toUInt32 with
        | none =>
            rw [object] at load
            cases load
        | some heap =>
            rw [object] at load
            dsimp only at load
            obtain ⟨_, filled⟩ := loadLoop_fills file heap heap 0 (Nat.zero_le stSize.toNat)
              ⟨nofun, fun _ _ => rfl⟩
            by_cases whole : (loadLoop file stSize.toNat heap 0).2 = stSize.toNat
            · rw [if_neg (not_not_intro whole)] at load
              cases load
              refine ⟨?_, narrow ▸ positive, narrow ▸ small, heap, object, ?_⟩
              · rw [stat]
                congr 1
                apply UInt64.toNat_inj.1
                rw [UInt32.toNat_toUInt64, narrow]
              · rw [narrow]
                rwa [whole] at filled
            · rw [if_pos whole] at load
              cases load

/-- A file that one `vfs_read` delivers. -/
theorem fsLoadFile_once {file : OpenFile} {kmalloc : UInt32 → Option Bytes} {heap : Bytes} {size : UInt32}
    (stat : file.stSize = some size.toUInt64) (positive : 0 < size.toNat) (small : size.toNat ≤ 16 * 1024 * 1024)
    (object : kmalloc size = some heap) (once : file.read 0 size.toNat = size.toNat) :
    fsLoadFile (some file) kmalloc = .ok (fill heap 0 size.toNat file.byte, size) := by
  have wide : size.toUInt64.toNat = size.toNat := UInt32.toNat_toUInt64 size
  have accepted : ¬ (size.toUInt64 = 0 ∨ size.toUInt64 > fsLoadMax) := by
    rintro (zero | large)
    · have := congrArg UInt64.toNat zero
      rw [wide] at this
      change size.toNat = 0 at this
      omega
    · have := UInt64.lt_iff_toNat_lt.1 large
      rw [wide] at this
      change 16 * 1024 * 1024 < size.toNat at this
      omega
  have loop : loadLoop file size.toNat heap 0 = (fill heap 0 size.toNat file.byte, size.toNat) := by
    have more : ¬ file.read 0 (size.toNat - 0) ≤ 0 := by
      rw [Nat.sub_zero, once]
      omega
    rw [loadLoop, if_pos positive]
    dsimp only
    rw [if_neg more, Nat.sub_zero, once, Int.toNat_natCast, Nat.zero_add, loadLoop, if_neg (Nat.lt_irrefl _)]
  unfold fsLoadFile
  dsimp only
  rw [stat]
  dsimp only
  rw [if_neg accepted, UInt32.toUInt32_toUInt64, object]
  dsimp only
  rw [wide, loop, if_neg (not_not_intro rfl)]

end Minus.Fs
