/-
# Lib.Bitops — the first clear bit of a bitmap

`find_first_zero_bit` of `lib/bitops.c` and `set_bit` of `include/base/bitops.h`.  A bitmap
is an array of words of 64 bits; the search passes over a word that is `~0UL` and goes
through the bits of another one by one.  The size need not be a multiple of 64, so that it
can end within a word (`findFirstZeroBit_spec`).

The sums are those of `unsigned long` and of `unsigned int`, and none of them leaves its type:
a size has 32 bits.
-/
import Mathlib.Data.Nat.Bitwise
import Mathlib.Logic.Function.Basic
import Mathlib.Algebra.Order.Ring.Nat

namespace Minus.Lib.Bitops

set_option autoImplicit false

/-- The inner loop of `find_first_zero_bit`, with how many bits of the word are left; `none` if
it comes to its end. -/
def bitLoop (word : UInt64) (i size : Nat) : Nat → Nat → Option Nat
  | 0, _ => none
  | left + 1, b =>
      let bit := i * 64 + b
      if size ≤ bit then some size
      else if word &&& (1 <<< UInt64.ofNat b) = 0 then some bit
      else bitLoop word i size left (b + 1)

/-- The outer loop, with how many words are left. -/
def wordLoop (addr : Nat → UInt64) (size : Nat) : Nat → Nat → Nat
  | 0, _ => size
  | left + 1, i =>
      let word := addr i
      if word = ~~~0 then wordLoop addr size left (i + 1)
      else
        match bitLoop word i size 64 0 with
        | some ret => ret
        | none => wordLoop addr size left (i + 1)

def findFirstZeroBit (addr : Nat → UInt64) (size : Nat) : Nat := wordLoop addr size ((size + 64 - 1) / 64) 0

def setBit (nr : Nat) (addr : Nat → UInt64) : Nat → UInt64 :=
  Function.update addr (nr >>> 6) (addr (nr >>> 6) ||| (1 <<< UInt64.ofNat (nr &&& 63)))

/-- Bit `i` of the array. -/
def bitAt (addr : Nat → UInt64) (i : Nat) : Bool := (addr (i / 64)).toNat.testBit (i % 64)

/-- The first index below `size` with a clear bit, or `size`. -/
structure FirstZero (bits : Nat → Bool) (size ret : Nat) : Prop where
  le : ret ≤ size
  before : ∀ i < ret, bits i = true
  clear : ret < size → bits ret = false

/-! ## Bits of a word -/

theorem one_shiftLeft_toNat {b : Nat} (low : b < 64) : ((1 : UInt64) <<< UInt64.ofNat b).toNat = 2 ^ b := by
  have power : 2 ^ b < 2 ^ 64 := Nat.pow_lt_pow_right (by decide) low
  have shift : (UInt64.ofNat b).toNat % 64 = b := by
    rw [UInt64.toNat_ofNat']
    omega
  rw [UInt64.toNat_shiftLeft, shift, UInt64.toNat_one, Nat.one_shiftLeft, Nat.mod_eq_of_lt power]

theorem and_bit_eq_zero {word : UInt64} {b : Nat} (low : b < 64) :
    word &&& (1 <<< UInt64.ofNat b) = 0 ↔ word.toNat.testBit b = false := by
  have positive := Nat.two_pow_pos b
  rw [← UInt64.toNat_inj, UInt64.toNat_and, one_shiftLeft_toNat low, Nat.and_two_pow, UInt64.toNat_zero]
  cases word.toNat.testBit b with
  | false => simp
  | true => simp

theorem testBit_full {b : Nat} (low : b < 64) : (~~~(0 : UInt64)).toNat.testBit b = true := by
  have ones : (~~~(0 : UInt64)).toNat = 2 ^ 64 - 1 := by decide
  rw [ones, Nat.testBit_two_pow_sub_one, decide_eq_true low]

theorem bitAt_word {addr : Nat → UInt64} {i b : Nat} (low : b < 64) :
    bitAt addr (i * 64 + b) = (addr i).toNat.testBit b := by
  rw [bitAt, show (i * 64 + b) / 64 = i by omega, show (i * 64 + b) % 64 = b by omega]

/-! ## The operations -/

section Search

variable {addr : Nat → UInt64} (size : Nat)

/-- The rest of a word has the first clear bit, or none. -/
theorem bitLoop_spec {i left b : Nat} (whole : b + left = 64) (earlier : ∀ j < i * 64 + b, bitAt addr j = true) :
    (∃ ret, bitLoop (addr i) i size left b = some ret ∧ FirstZero (bitAt addr) size ret) ∨
      bitLoop (addr i) i size left b = none ∧ ∀ j < (i + 1) * 64, bitAt addr j = true := by
  induction left generalizing b with
  | zero => exact .inr ⟨rfl, fun j below => earlier j (by omega)⟩
  | succ left ih =>
      have low : b < 64 := by omega
      rw [bitLoop]
      split
      · rename_i beyond
        exact .inl ⟨size, rfl, Nat.le_refl _, fun j below => earlier j (by omega), fun less => absurd less (by omega)⟩
      · rename_i within
        split
        · rename_i clear
          rw [and_bit_eq_zero low, ← bitAt_word low] at clear
          exact .inl ⟨_, rfl, by omega, earlier, fun _ => clear⟩
        · rename_i set
          rw [and_bit_eq_zero low, ← bitAt_word low, Bool.not_eq_false] at set
          refine ih (by omega) fun j below => ?_
          obtain before | rfl : j < i * 64 + b ∨ j = i * 64 + b := by omega
          · exact earlier j before
          · exact set

theorem wordLoop_spec {size left i : Nat} (enough : size ≤ (i + left) * 64) (earlier : ∀ j < i * 64, bitAt addr j = true) :
    FirstZero (bitAt addr) size (wordLoop addr size left i) := by
  induction left generalizing i with
  | zero =>
      refine ⟨Nat.le_refl _, fun j below => earlier j ?_, fun less => absurd less (Nat.lt_irrefl _)⟩
      rw [wordLoop] at below
      omega
  | succ left ih =>
      have next : size ≤ (i + 1 + left) * 64 := by omega
      rw [wordLoop]
      split
      · rename_i full
        refine ih next fun j below => ?_
        obtain before | ⟨b, low, rfl⟩ : j < i * 64 ∨ ∃ b < 64, j = i * 64 + b := by
          by_cases before : j < i * 64
          · exact .inl before
          · exact .inr ⟨j - i * 64, by omega, by omega⟩
        · exact earlier j before
        · rw [bitAt_word low, full, testBit_full low]
      · have start : ∀ j < i * 64 + 0, bitAt addr j = true := earlier
        obtain ⟨ret, found, spec⟩ | ⟨none_, set⟩ := bitLoop_spec size (Nat.zero_add 64) start
        · rw [found]
          exact spec
        · rw [none_]
          exact ih next set

/-- **`find_first_zero_bit`**. -/
theorem findFirstZeroBit_spec (addr : Nat → UInt64) (size : Nat) :
    FirstZero (bitAt addr) size (findFirstZeroBit addr size) :=
  wordLoop_spec (by omega) (by omega)

/-- The first word is full, and the size ends in the second. -/
example : findFirstZeroBit (fun i => if i = 0 then ~~~0 else 0b1011) 70 = 66 := by decide

/-- **`set_bit`** sets this bit and no other. -/
theorem bitAt_setBit (nr : Nat) (addr : Nat → UInt64) (i : Nat) :
    bitAt (setBit nr addr) i = (bitAt addr i || decide (i = nr)) := by
  have word : nr >>> 6 = nr / 64 := Nat.shiftRight_eq_div_pow nr 6
  have bit : nr &&& 63 = nr % 64 := Nat.and_two_pow_sub_one_eq_mod nr 6
  have low : nr % 64 < 64 := Nat.mod_lt _ (by decide)
  unfold bitAt setBit
  rw [word, bit]
  by_cases same : i / 64 = nr / 64
  · have here : nr % 64 = i % 64 ↔ i = nr := by omega
    rw [same, Function.update_self, UInt64.toNat_or, one_shiftLeft_toNat low, Nat.testBit_or, Nat.testBit_two_pow]
    simp only [here]
  · have other : i ≠ nr := fun is => same (is ▸ rfl)
    rw [Function.update_of_ne same, decide_eq_false other, Bool.or_false]

end Search

end Minus.Lib.Bitops
