/-
# Proc.SysExecve — the path that `sys_execve` prints

`sys_execve` takes a path of up to 254 characters from the program and prints it.  `printk`
has room for 113 of them (`printk_within_iff`).
-/
import Mathlib.Data.List.TakeWhile
import Minus.Core.Printk
import Minus.Mm.UaccessString

namespace Minus.Proc

set_option autoImplicit false

open Minus.Theory
open Minus.Lib
open Minus.Core.Mmu (Memory)
open Minus.Core.Printk
open Minus.Mm.AddressSpace (Vspace)
open Minus.Mm.Uaccess

/-- `sizeof(path)`. -/
def pathSize : UInt32 := 256

/-- The string at the start of a buffer of `n` bytes. -/
def stringIn (buf : Bytes) (n : Nat) : CString where
  bytes := ((List.range n).map buf).takeWhile (· ≠ 0)
  ended zero := by simpa using List.mem_takeWhile_imp zero

/-- `sys_execve` up to its `printk`: the path, or `-EFAULT`.  `stack` is what lies in `path`. -/
def sysExecvePath (curVspace : Option Vspace) (mem : Memory) (stack : Bytes) (filename : UInt64) :
    Option (Except Int CString) :=
  (strncpyFromUser curVspace mem stack 0 filename pathSize).map fun r =>
    if r.2 ≠ 0 then .error (-14)
    else .ok (stringIn (Function.update r.1 (pathSize.toNat - 1) 0) pathSize.toNat)

/-- The format of `sys_execve`. -/
def execveFmt : List UInt8 := cstr "sys_execve: %s\n"

theorem stringIn_eq {buf : Bytes} {n : Nat} (len : Nat) (chars : ∀ i < len, buf i ≠ 0) (terminator : buf len = 0)
    (inside : len < n) : (stringIn buf n).bytes = (List.range len).map buf := by
  have split : List.range n = List.range len ++ len :: (List.range (n - len - 1)).map fun i => len + 1 + i := by
    rw [show n = len + (1 + (n - len - 1)) by omega, List.range_add, List.range_add]
    simp [Nat.add_assoc, Function.comp_def]
  show ((List.range n).map buf).takeWhile _ = _
  rw [split, List.map_append, List.takeWhile_append_of_pos, List.map_cons, List.takeWhile_cons_of_neg,
    List.append_nil]
  · simp [terminator]
  · intro b member
    obtain ⟨i, below, rfl⟩ := List.mem_map.1 member
    simpa using chars i (List.mem_range.1 below)

section Execve

variable {vs : Vspace} {mem : Memory}

/-- **Every string of up to 254 characters gets to the `printk`.** -/
theorem sysExecvePath_of_string (built : Built vs) (stack : Bytes) {filename : UInt64} {len : Nat}
    (string : StringAt vs filename (aliasByte vs mem filename) len) (short : len ≤ 254) :
    ∃ path, sysExecvePath (some vs) mem stack filename = some (.ok path) ∧
      path.bytes = (List.range len).map (aliasByte vs mem filename) := by
  have ran := strncpyLoop_spec built.paged.regions mem 256 (s := ⟨stack, 0, filename, pathSize⟩)
    (by change 0 < pathSize.toNat; decide) (by change pathSize.toNat ≤ 257; decide)
  have same : strncpyFromUser (some vs) mem stack 0 filename pathSize =
      strncpyLoop vs mem 256 ⟨stack, 0, filename, pathSize⟩ := rfl
  have size : pathSize.toNat = 256 := rfl
  rw [← same] at ran
  rcases ran with ⟨len', before, string', run⟩ | ⟨m, ret, le, chars, stop, _, _⟩
  · obtain rfl := string'.unique string fun _ _ _ => rfl
    refine ⟨_, by rw [sysExecvePath, run]; rfl, ?_⟩
    have copied : ∀ i ≤ len', Function.update (copy stack 0 (len' + 1) (aliasByte vs mem filename) 0)
        (pathSize.toNat - 1) 0 i = aliasByte vs mem filename i := by
      intro i le
      rw [Function.update_of_ne (by omega), copy, if_pos (by omega), Nat.zero_add, Nat.sub_zero]
    rw [stringIn_eq len']
    · apply List.map_congr_left
      intro i below
      exact copied i (List.mem_range.1 below).le
    · intro i below
      rw [copied i below.le]
      exact string.chars i below
    · rw [copied len' (Nat.le_refl _)]
      exact string.terminator
    · omega
  · -- the copy is not cut short inside the string
    exfalso
    change m + 1 ≤ pathSize.toNat at le
    have far : m ≤ len := Nat.not_lt.1 fun less => chars len less string.terminator
    exact stop (by change m + 1 < pathSize.toNat; omega) (string.mapped m far)

end Execve

/-- What the call prints is the path between its own characters. -/
theorem execve_prints (path : CString) :
    vsprintf execveFmt [.str path] =
      some ((cstr "sys_execve: ").flatMap literal ++ (path.bytes ++ literal newline)) := by
  have split : execveFmt = cstr "sys_execve: " ++ [percent, ch 's', newline] := by decide +kernel
  rw [split, vsprintf_plain (by decide +kernel)]
  rfl

theorem execve_within_iff (path : CString) : Within execveFmt [.str path] ↔ path.bytes.length ≤ 113 := by
  have own : textLength execveFmt = 14 := rfl
  have conv : conversions execveFmt = [ch 's'] := rfl
  have width_ : width (ch 's') (.str path) = path.bytes.length := rfl
  rw [within_iff (by rw [execve_prints]; rfl), own, conv, List.zipWith_cons_cons, List.sum_cons, width_]
  show 14 + (path.bytes.length + 0) ≤ 127 ↔ _
  omega

/-- **`printk` stays in its buffer exactly if the path of `sys_execve` has 113 characters at most**;
the other calls of the kernel always do, whatever numbers they print, where their strings have
the lengths that they have, and any call does if it prints 127 bytes at most. -/
theorem printk_within_iff (curVspace : Option Vspace) (mem : Memory) (stack : Bytes) (filename : UInt64) :
    (∀ path, sysExecvePath curVspace mem stack filename = some (.ok path) →
      (Within execveFmt [.str path] ↔ path.bytes.length ≤ 113)) ∧
    (∀ call ∈ kernelCalls, ∀ args, stringsLength args ≤ call.strings → Within (cstr call.fmt) args) ∧
    (∀ fmt args, (vsprintf fmt args).isSome = true →
      (Within fmt args ↔ textLength fmt + (List.zipWith width (conversions fmt) args).sum ≤ 127)) :=
  ⟨fun path _ => execve_within_iff path, fun _ member _ strings => kernelCalls_within member strings,
    fun _ _ prints => within_iff prints⟩

/-- A memory whose page 0x101 holds 113 times an a. -/
def fullName : Memory := fun page word =>
  if page = 0x101 then
    if word.val < 14 then 0x6161616161616161 else if word.val = 14 then 0x61 else 0
  else 0

theorem fullName_string : StringAt textSpace 0x400000 (aliasByte textSpace fullName 0x400000) 113 where
  mapped := by decide +kernel
  chars := by decide +kernel
  terminator := by decide +kernel

/-- A path of 113 characters fills the buffer, and no more. -/
theorem printk_within_full :
    ∃ path, sysExecvePath (some textSpace) fullName (fun _ => 7) 0x400000 = some (.ok path) ∧
      path.bytes.length = 113 ∧ Within execveFmt [.str path] := by
  obtain ⟨path, taken, bytes⟩ := sysExecvePath_of_string textSpace_built (fun _ => 7) fullName_string (by decide)
  have length : path.bytes.length = 113 := by
    rw [bytes, List.length_map, List.length_range]
  exact ⟨path, taken, length, ((printk_within_iff (some textSpace) fullName (fun _ => 7) 0x400000).1 path taken).2
    (Nat.le_of_eq length)⟩

/-- A memory whose page 0x101 holds 114 times an a. -/
def longName : Memory := fun page word =>
  if page = 0x101 then
    if word.val < 14 then 0x6161616161616161 else if word.val = 14 then 0x6161 else 0
  else 0

theorem longName_string : StringAt textSpace 0x400000 (aliasByte textSpace longName 0x400000) 114 where
  mapped := by decide +kernel
  chars := by decide +kernel
  terminator := by decide +kernel

/-- **A path of 114 characters**: `printk` writes 129 bytes. -/
theorem execve_path_overruns :
    Built textSpace ∧ ∃ path buf, sysExecvePath (some textSpace) longName (fun _ => 7) 0x400000 = some (.ok path) ∧
      path.bytes.length = 114 ∧ printk execveFmt [.str path] = some buf ∧ buf.length = 129 ∧
      ¬ Within execveFmt [.str path] := by
  obtain ⟨path, taken, bytes⟩ := sysExecvePath_of_string textSpace_built (fun _ => 7) longName_string (by decide)
  have length : path.bytes.length = 114 := by
    rw [bytes, List.length_map, List.length_range]
  have printed := congrArg (Option.map fun text => text ++ [0]) (execve_prints path)
  have count : ((cstr "sys_execve: ").flatMap literal).length = 12 := rfl
  have total : ((cstr "sys_execve: ").flatMap literal ++ (path.bytes ++ literal newline) ++ [0]).length = 129 := by
    rw [List.length_append, List.length_append, List.length_append, count, length]
    rfl
  refine ⟨textSpace_built, path, _, taken, length, printed, total, fun within => ?_⟩
  have := within _ printed
  rw [total] at this
  exact absurd this (by decide)

end Minus.Proc
