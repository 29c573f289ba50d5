/-
# Lib.String — the kernel's string library

`memmove` of `lib/string.c`, pointer by pointer, over a memory of bytes at
64-bit addresses.  Both of its loops make the same moves, `(dest + i, src + i)`
for `i < n`, one of them upwards and the other downwards; the comparison of the
two pointers picks the direction in which no byte is written before it is read.

The string functions read through `Chars`, which says what can be read behind a
pointer.  `CStr s w` is the string `w` there with its terminator; on strings the
functions are what their names say (`strlen_cstr`, `strcmp_cstr`, `strncmp_cstr`).
`memcpy` into an array and the store of one byte have no result where they would
leave the array.
-/
import Mathlib.Algebra.Group.Nat.Defs
import Mathlib.Order.Interval.Set.Basic
import Minus.Theory.Transfer

namespace Minus.Lib.String

set_option autoImplicit false

open Minus.Theory

/-- The bytes of an address space. -/
abbrev Memory := UInt64 → UInt8

/-- `while (n--) *d++ = *s++;` -/
def copyUp (mem : Memory) (d s : UInt64) : Nat → Memory
  | 0 => mem
  | n + 1 => copyUp (Function.update mem d (mem s)) (d + 1) (s + 1) n

/-- `while (n--) *--d = *--s;` -/
def copyDown (mem : Memory) (d s : UInt64) : Nat → Memory
  | 0 => mem
  | n + 1 => copyDown (Function.update mem (d - 1) (mem (s - 1))) (d - 1) (s - 1) n

/-- The memory afterwards and the value returned. -/
def memmove (mem : Memory) (dest src n : UInt64) : Memory × UInt64 :=
  if n = 0 ∨ dest = src then (mem, dest)
  else if dest < src then (copyUp mem dest src n.toNat, dest)
  else (copyDown mem (dest + n) (src + n) n.toNat, dest)

/-- The move of byte `i`. -/
def byteMove (dest src : UInt64) (i : Nat) : UInt64 × UInt64 := (dest + UInt64.ofNat i, src + UInt64.ofNat i)

theorem copyUp_eq_transfer (mem : Memory) (d s : UInt64) (n : Nat) :
    copyUp mem d s n = transfer mem ((List.range n).map (byteMove d s)) := by
  induction n generalizing mem d s with
  | zero => rfl
  | succ n ih =>
      have shifted : byteMove d s ∘ Nat.succ = byteMove (d + 1) (s + 1) := by
        funext i
        simp [byteMove, UInt64.add_assoc, UInt64.add_comm 1]
      rw [copyUp, ih, List.range_succ_eq_map, List.map_cons, List.map_map, shifted]
      simp [byteMove, transfer]

theorem copyDown_eq_transfer (mem : Memory) (d s : UInt64) (n : Nat) :
    copyDown mem (d + UInt64.ofNat n) (s + UInt64.ofNat n) n =
      transfer mem ((List.range n).reverse.map (byteMove d s)) := by
  induction n generalizing mem with
  | zero => rfl
  | succ n ih =>
      have back (p : UInt64) : p + UInt64.ofNat (n + 1) - 1 = p + UInt64.ofNat n := by
        rw [UInt64.ofNat_add, ← UInt64.add_assoc]
        exact UInt64.add_sub_cancel _ _
      rw [copyDown, back, back, ih, List.range_succ, List.reverse_append, List.map_append]
      rfl

/-! ## No byte is written before it is read -/

section Range

variable {dest src : UInt64} {n : Nat}

theorem toNat_add_ofNat {p : UInt64} {i : Nat} (fits : p.toNat + n ≤ 2 ^ 64) (inside : i < n) :
    (p + UInt64.ofNat i).toNat = p.toNat + i := by
  simp only [UInt64.toNat_add, UInt64.toNat_ofNat']
  omega

theorem add_ofNat_ne {p q : UInt64} {i j : Nat} (fits : p.toNat + n ≤ 2 ^ 64) (fits' : q.toNat + n ≤ 2 ^ 64)
    (inside : i < n) (inside' : j < n) (apart : p.toNat + i ≠ q.toNat + j) :
    p + UInt64.ofNat i ≠ q + UInt64.ofNat j := by
  intro same
  have same := congrArg UInt64.toNat same
  rw [toNat_add_ofNat fits inside, toNat_add_ofNat fits' inside'] at same
  exact apart same

/-- Upwards, what is read lies above everything written so far. -/
theorem ordered_up (fitsDest : dest.toNat + n ≤ 2 ^ 64) (fitsSrc : src.toNat + n ≤ 2 ^ 64) (below : dest < src) :
    Ordered ((List.range n).map (byteMove dest src)) := by
  have below : dest.toNat < src.toNat := below
  apply List.pairwise_map.2
  apply List.pairwise_lt_range.imp_of_mem
  intro i j hi hj before
  have inside := List.mem_range.1 hi
  have inside' := List.mem_range.1 hj
  constructor
  · apply add_ofNat_ne fitsSrc fitsDest inside' inside
    omega
  · apply add_ofNat_ne fitsDest fitsDest inside' inside
    omega

/-- Downwards, what is read lies below everything written so far. -/
theorem ordered_down (fitsDest : dest.toNat + n ≤ 2 ^ 64) (fitsSrc : src.toNat + n ≤ 2 ^ 64) (above : src < dest) :
    Ordered ((List.range n).reverse.map (byteMove dest src)) := by
  have above : src.toNat < dest.toNat := above
  apply List.pairwise_map.2
  apply List.pairwise_reverse.2
  apply List.pairwise_lt_range.imp_of_mem
  intro i j hi hj before
  have inside := List.mem_range.1 hi
  have inside' := List.mem_range.1 hj
  constructor
  · apply add_ofNat_ne fitsSrc fitsDest inside inside'
    omega
  · apply add_ofNat_ne fitsDest fitsDest inside inside'
    omega

end Range

/-- Both loops make the moves of the bytes in an order in which they do not disturb each other. -/
theorem memmove_eq_transfer (mem : Memory) {dest src n : UInt64} (fitsDest : dest.toNat + n.toNat ≤ 2 ^ 64)
    (fitsSrc : src.toNat + n.toNat ≤ 2 ^ 64) (apart : dest ≠ src) :
    ∃ moves : List (UInt64 × UInt64), Ordered moves ∧
      (∀ p, p ∈ moves ↔ ∃ i < n.toNat, byteMove dest src i = p) ∧
      memmove mem dest src n = (transfer mem moves, dest) := by
  by_cases none : n = 0
  · exact ⟨[], List.Pairwise.nil, by simp [none], by simp [memmove, none, transfer]⟩
  · rw [memmove, if_neg fun either => either.elim none apart]
    by_cases below : dest < src
    · refine ⟨_, ordered_up fitsDest fitsSrc below, by simp, ?_⟩
      rw [if_pos below, copyUp_eq_transfer]
    · have above : src < dest := by
        apply UInt64.lt_of_le_of_ne (UInt64.not_lt.1 below)
        exact apart.symm
      refine ⟨_, ordered_down fitsDest fitsSrc above, by simp, ?_⟩
      have down := copyDown_eq_transfer mem dest src n.toNat
      rw [UInt64.ofNat_toNat] at down
      rw [if_neg below, down]

/-- The bytes at `dest` are those that were at `src`, and no other byte changes. -/
theorem memmove_moves (mem : Memory) {dest src n : UInt64} (fitsDest : dest.toNat + n.toNat ≤ 2 ^ 64)
    (fitsSrc : src.toNat + n.toNat ≤ 2 ^ 64) :
    (∀ i < n.toNat, (memmove mem dest src n).1 (dest + UInt64.ofNat i) = mem (src + UInt64.ofNat i)) ∧
      (∀ x : UInt64, x.toNat ∉ Set.Ico dest.toNat (dest.toNat + n.toNat) → (memmove mem dest src n).1 x = mem x) ∧
      (memmove mem dest src n).2 = dest := by
  by_cases same : dest = src
  · simp [memmove, same]
  · obtain ⟨moves, ordered, members, result⟩ := memmove_eq_transfer mem fitsDest fitsSrc same
    rw [result]
    refine ⟨?_, ?_, rfl⟩
    · intro i inside
      exact transfer_target mem ordered ((members _).2 ⟨i, inside, rfl⟩)
    · intro x outside
      apply transfer_outside
      intro p member here
      obtain ⟨i, inside, rfl⟩ := (members p).1 member
      apply outside
      rw [← here, byteMove, toNat_add_ofNat fitsDest inside]
      constructor <;> omega

/-- Eight bytes moved up by three, over themselves: byte 6 of them is read before it is written. -/
theorem memmove_moves_overlap : (memmove (fun a => a.toUInt8) 67 64 8).1 73 = 70 :=
  (@memmove_moves (fun a => a.toUInt8) 67 64 8 (by decide) (by decide)).1 6 (by decide)

/-! ## Strings -/

/-- The byte at each index behind a pointer, where there is one to read. -/
abbrev Chars := Nat → Option UInt8

/-- The pointer `s + k`. -/
def Chars.drop (s : Chars) (k : Nat) : Chars := fun i => s (i + k)

@[simp] theorem Chars.drop_first (s : Chars) (k : Nat) : s.drop k 0 = s k := by simp [Chars.drop]

@[simp] theorem Chars.drop_drop (s : Chars) (j k : Nat) : (s.drop j).drop k = s.drop (j + k) := by
  funext i
  simp [Chars.drop, Nat.add_assoc, Nat.add_comm k]

@[simp] theorem Chars.drop_zero (s : Chars) : s.drop 0 = s := rfl

/-- `strlen`; `none` where the bytes or `fuel` end before the string does. -/
def strlen (s : Chars) : Nat → Option Nat
  | 0 => none
  | fuel + 1 => do
      let c ← s 0
      if c = 0 then return 0
      return (← strlen (s.drop 1) fuel) + 1

def strcmp (s t : Chars) : Nat → Option Int
  | 0 => none
  | fuel + 1 => do
      let a ← s 0
      let b ← t 0
      if a ≠ 0 ∧ b ≠ 0 ∧ a = b then strcmp (s.drop 1) (t.drop 1) fuel
      else return if a ≠ b then 1 else 0

/-- The comparison does not stop at a terminator, only at a difference. -/
def strncmp (s t : Chars) : Nat → Option Int
  | 0 => some 0
  | n + 1 => do
      if (← s 0) ≠ (← t 0) then return 1
      strncmp (s.drop 1) (t.drop 1) n

/-- `a[i] = c` in an array of `size` bytes. -/
def store {size : Nat} (a : Vector UInt8 size) (i : Nat) (c : UInt8) : Option (Vector UInt8 size) :=
  if h : i < size then some (a.set i c h) else none

/-- `memcpy(a, src, n)` to the start of an array. -/
def memcpy {size : Nat} (a : Vector UInt8 size) (src : Chars) : Nat → Option (Vector UInt8 size)
  | 0 => some a
  | n + 1 => do
      let a ← memcpy a src n
      store a n (← src n)

/-- The bytes of an array. -/
def chars {size : Nat} (a : Vector UInt8 size) : Chars := fun i => a[i]?

/-- The bytes of a list. -/
def ofList (l : List UInt8) : Chars := fun i => l[i]?

/-- The bytes of a string literal, without the terminator. -/
def ascii (s : String) : List UInt8 := s.toList.map fun c => c.toNat.toUInt8

/-- `s` points to the string `w`. -/
structure CStr (s : Chars) (w : List UInt8) : Prop where
  bytes : ∀ i ≤ w.length, s i = (w ++ [0])[i]?
  nonzero : (0 : UInt8) ∉ w

theorem cstr_nil_iff (s : Chars) : CStr s [] ↔ s 0 = some 0 := by
  constructor
  · intro string
    exact string.bytes 0 (by simp)
  · intro stop
    refine ⟨fun i short => ?_, by simp⟩
    obtain rfl := Nat.le_zero.1 short
    exact stop

theorem cstr_cons_iff (s : Chars) (c : UInt8) (w : List UInt8) :
    CStr s (c :: w) ↔ s 0 = some c ∧ c ≠ 0 ∧ CStr (s.drop 1) w := by
  constructor
  · intro string
    have nonzero := string.nonzero
    rw [List.mem_cons, not_or] at nonzero
    refine ⟨string.bytes 0 (by simp), Ne.symm nonzero.1, fun i short => ?_, nonzero.2⟩
    exact string.bytes (i + 1) (by simpa using short)
  · rintro ⟨first, nonzero, rest⟩
    refine ⟨fun i short => ?_, ?_⟩
    · cases i with
      | zero => exact first
      | succ i => exact rest.bytes i (by simpa using short)
    · rw [List.mem_cons, not_or]
      exact ⟨Ne.symm nonzero, rest.nonzero⟩

/-- Bytes with a terminator behind them are a string up to the first zero. -/
theorem cstr_of_bytes {s : Chars} {l : List UInt8} (bytes : ∀ i ≤ l.length, s i = (l ++ [0])[i]?) :
    CStr s (l.takeWhile (· ≠ 0)) := by
  induction l generalizing s with
  | nil => exact (cstr_nil_iff s).2 (bytes 0 (by simp))
  | cons c l ih =>
      have first : s 0 = some c := bytes 0 (by simp)
      by_cases zero : c = 0
      · rw [List.takeWhile_cons_of_neg (by simpa using zero), cstr_nil_iff, first, zero]
      · rw [List.takeWhile_cons_of_pos (by simpa using zero), cstr_cons_iff]
        refine ⟨first, zero, ih fun i short => ?_⟩
        exact bytes (i + 1) (by simpa using short)

theorem CStr.drop {s : Chars} {v w : List UInt8} (string : CStr s (v ++ w)) : CStr (s.drop v.length) w := by
  induction v generalizing s with
  | nil => exact string
  | cons c v ih =>
      rw [List.cons_append, cstr_cons_iff] at string
      exact ih string.2.2

/-- The string behind the characters that a test holds of. -/
theorem CStr.behind {buf : Chars} {p : Nat} {w : List UInt8} (string : CStr (buf.drop p) w) (test : UInt8 → Bool) :
    CStr (buf.drop (p + (w.takeWhile test).length)) (w.dropWhile test) := by
  rw [← @List.takeWhile_append_dropWhile _ test w] at string
  rw [← Chars.drop_drop]
  exact string.drop

/-- Two strings behind one pointer are the same. -/
theorem CStr.unique {s : Chars} {v w : List UInt8} (string : CStr s v) (string' : CStr s w) : v = w := by
  induction v generalizing s w with
  | nil =>
      cases w with
      | nil => rfl
      | cons c w =>
          rw [cstr_nil_iff] at string
          rw [cstr_cons_iff] at string'
          have same : c = 0 := by simpa [string] using string'.1.symm
          exact absurd same string'.2.1
  | cons a v ih =>
      rw [cstr_cons_iff] at string
      cases w with
      | nil =>
          rw [cstr_nil_iff] at string'
          have same : a = 0 := by simpa [string'] using string.1.symm
          exact absurd same string.2.1
      | cons c w =>
          rw [cstr_cons_iff] at string'
          rw [Option.some.inj (string.1.symm.trans string'.1), ih string.2.2 string'.2.2]

theorem strlen_cstr {s : Chars} {w : List UInt8} (string : CStr s w) {fuel : Nat} (enough : w.length < fuel) :
    strlen s fuel = some w.length := by
  induction w generalizing s fuel with
  | nil =>
      obtain ⟨fuel, rfl⟩ := Nat.exists_eq_succ_of_ne_zero (Nat.ne_zero_of_lt enough)
      simp [strlen, (cstr_nil_iff s).1 string]
  | cons c w ih =>
      obtain ⟨fuel, rfl⟩ := Nat.exists_eq_succ_of_ne_zero (Nat.ne_zero_of_lt enough)
      obtain ⟨first, nonzero, rest⟩ := (cstr_cons_iff s c w).1 string
      rw [List.length_cons] at enough
      simp [strlen, first, nonzero, ih rest (show w.length < fuel by omega)]

theorem strcmp_cstr {s t : Chars} {v w : List UInt8} (string : CStr s v) (string' : CStr t w) {fuel : Nat}
    (enough : v.length < fuel) : strcmp s t fuel = some (if v = w then 0 else 1) := by
  induction v generalizing s t w fuel with
  | nil =>
      obtain ⟨fuel, rfl⟩ := Nat.exists_eq_succ_of_ne_zero (Nat.ne_zero_of_lt enough)
      have stop := (cstr_nil_iff s).1 string
      cases w with
      | nil => simp [strcmp, stop, (cstr_nil_iff t).1 string']
      | cons c w =>
          obtain ⟨first, nonzero, -⟩ := (cstr_cons_iff t c w).1 string'
          simp [strcmp, stop, first, Ne.symm nonzero]
  | cons a v ih =>
      obtain ⟨fuel, rfl⟩ := Nat.exists_eq_succ_of_ne_zero (Nat.ne_zero_of_lt enough)
      obtain ⟨head, nonzero, rest⟩ := (cstr_cons_iff s a v).1 string
      rw [List.length_cons] at enough
      cases w with
      | nil => simp [strcmp, head, (cstr_nil_iff t).1 string', nonzero]
      | cons c w =>
          obtain ⟨head', nonzero', rest'⟩ := (cstr_cons_iff t c w).1 string'
          by_cases same : a = c
          · subst same
            simp [strcmp, head, head', nonzero, ih rest rest' (show v.length < fuel by omega)]
          · simp [strcmp, head, head', same]

/-- A literal of `n` bytes is compared with the first `n` bytes of the string. -/
theorem strncmp_cstr {s : Chars} {w lit : List UInt8} (string : CStr s w) (nonzero : (0 : UInt8) ∉ lit) :
    strncmp s (ofList lit) lit.length = some (if lit <+: w then 0 else 1) := by
  induction lit generalizing s w with
  | nil => simp [strncmp]
  | cons c lit ih =>
      rw [List.mem_cons, not_or] at nonzero
      have next : (ofList (c :: lit)).drop 1 = ofList lit := rfl
      cases w with
      | nil => simp [strncmp, ofList, (cstr_nil_iff s).1 string, nonzero.1]
      | cons a w =>
          obtain ⟨head, -, rest⟩ := (cstr_cons_iff s a w).1 string
          rw [List.length_cons, strncmp, next, ih rest nonzero.2]
          by_cases same : a = c
          · simp [ofList, head, same, List.cons_prefix_cons]
          · simp [ofList, head, same, List.cons_prefix_cons, Ne.symm same]

/-! ## Copies into arrays -/

section Arrays

variable {size : Nat}

theorem store_some (a : Vector UInt8 size) {i : Nat} (c : UInt8) (inside : i < size) :
    ∃ b, store a i c = some b ∧ ∀ j, chars b j = if j = i then some c else chars a j := by
  refine ⟨_, dif_pos inside, fun j => ?_⟩
  simp only [chars, Vector.getElem?_set, eq_comm (a := j)]

theorem memcpy_some (a : Vector UInt8 size) (src : Chars) {n : Nat} (fits : n ≤ size)
    (readable : ∀ i < n, (src i).isSome) : ∃ b, memcpy a src n = some b ∧ ∀ j, chars b j = if j < n then src j else chars a j := by
  induction n with
  | zero => exact ⟨a, rfl, by simp⟩
  | succ n ih =>
      obtain ⟨b, copied, bytes⟩ := ih (by omega) fun i short => readable i (by omega)
      obtain ⟨c, read⟩ := Option.isSome_iff_exists.1 (readable n (by omega))
      obtain ⟨b', stored, bytes'⟩ := store_some b c (show n < size by omega)
      refine ⟨b', by simp [memcpy, copied, read, stored], fun j => ?_⟩
      rw [bytes', bytes]
      by_cases last : j = n
      · simp [last, read]
      · simp only [last, if_false, show (j < n + 1) ↔ (j < n) by omega]

/-- The first `n` bytes of a string, copied and terminated. -/
theorem copied_cstr (a : Vector UInt8 size) {src : Chars} {w rest : List UInt8} (string : CStr src (w ++ rest))
    (fits : w.length < size) :
    ∃ b b', memcpy a src w.length = some b ∧ store b w.length 0 = some b' ∧ CStr (chars b') w := by
  have here (i : Nat) (short : i < w.length) : src i = w[i]? := by
    rw [string.bytes i (by rw [List.length_append]; omega), List.append_assoc, List.getElem?_append_left short]
  obtain ⟨b, copied, bytes⟩ := memcpy_some a src (Nat.le_of_lt fits) fun i short => by
    simp [here i short, short]
  obtain ⟨b', stored, bytes'⟩ := store_some b 0 fits
  refine ⟨b, b', copied, stored, fun i short => ?_, ?_⟩
  · rw [bytes', bytes]
    by_cases last : i = w.length
    · simp [last]
    · have inside : i < w.length := by omega
      rw [if_neg last, if_pos inside, here i inside, List.getElem?_append_left inside]
  · intro zero
    exact string.nonzero (List.mem_append_left rest zero)

end Arrays

end Minus.Lib.String
