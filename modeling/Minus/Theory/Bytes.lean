/-
# Theory.Bytes — a memory of bytes and the little-endian words in it

A memory maps addresses to bytes.  `store32` and `load32` are the 32-bit
accesses of a little-endian machine, `store16` and `load16` those of 16 bits; a load
reads back the last store to its address, and a write elsewhere does not change it.  `wordOf` and `byteOf` take a
64-bit word together and apart; `leBytes` and `ofLe` do it for lists of bytes.  `wordsOf` and
`ofWords` look at a buffer as an array of such words, in which every bit keeps its number
(`testBit_wordsOf`, `bitOf_ofWords`).
`and_high` is the mask that clears the low bits of a word, and a mask goes
through `|||` (`mask_or`).
-/
import Mathlib.Algebra.Order.Ring.Nat
import Mathlib.Logic.Function.Basic
import Mathlib.Order.Interval.Set.Basic

namespace Minus.Theory

set_option autoImplicit false

abbrev Bytes := Nat → UInt8

def load32 (m : Bytes) (a : Nat) : UInt32 :=
  UInt32.ofNat ((m a).toNat + (m (a + 1)).toNat * 2 ^ 8 + (m (a + 2)).toNat * 2 ^ 16 +
    (m (a + 3)).toNat * 2 ^ 24)

def store32 (m : Bytes) (a : Nat) (v : UInt32) : Bytes := fun x =>
  if a ≤ x ∧ x < a + 4 then UInt8.ofNat (v.toNat / 2 ^ (8 * (x - a))) else m x

theorem store32_outside (m : Bytes) {a x : Nat} (v : UInt32) (outside : x ∉ Set.Ico a (a + 4)) :
    store32 m a v x = m x :=
  if_neg outside

@[simp] theorem load32_store32 (m : Bytes) (a : Nat) (v : UInt32) :
    load32 (store32 m a v) a = v := by
  have small := v.toNat_lt
  apply UInt32.toNat_inj.1
  simp [load32, store32]
  omega

theorem load32_congr {m m' : Bytes} {a : Nat} (same : ∀ x, a ≤ x → x < a + 4 → m' x = m x) :
    load32 m' a = load32 m a := by
  rw [load32, load32, same a (by omega) (by omega), same (a + 1) (by omega) (by omega),
    same (a + 2) (by omega) (by omega), same (a + 3) (by omega) (by omega)]

theorem load32_store32_of_apart (m : Bytes) {a b : Nat} (v : UInt32) (apart : b + 4 ≤ a ∨ a + 4 ≤ b) :
    load32 (store32 m a v) b = load32 m b :=
  load32_congr fun x low high => store32_outside m v fun inside => by
    have := inside.1
    have := inside.2
    omega

def load16 (m : Bytes) (a : Nat) : UInt16 :=
  UInt16.ofNat ((m a).toNat + (m (a + 1)).toNat * 2 ^ 8)

def store16 (m : Bytes) (a : Nat) (v : UInt16) : Bytes := fun x =>
  if a ≤ x ∧ x < a + 2 then UInt8.ofNat (v.toNat / 2 ^ (8 * (x - a))) else m x

theorem store16_outside (m : Bytes) {a x : Nat} (v : UInt16) (outside : x ∉ Set.Ico a (a + 2)) :
    store16 m a v x = m x :=
  if_neg outside

@[simp] theorem load16_store16 (m : Bytes) (a : Nat) (v : UInt16) :
    load16 (store16 m a v) a = v := by
  have small := v.toNat_lt
  apply UInt16.toNat_inj.1
  simp [load16, store16]
  omega

theorem load16_congr {m m' : Bytes} {a : Nat} (same : ∀ x, a ≤ x → x < a + 2 → m' x = m x) :
    load16 m' a = load16 m a := by
  rw [load16, load16, same a (by omega) (by omega), same (a + 1) (by omega) (by omega)]

theorem load16_store16_of_apart (m : Bytes) {a b : Nat} (v : UInt16) (apart : b + 2 ≤ a ∨ a + 2 ≤ b) :
    load16 (store16 m a v) b = load16 m b :=
  load16_congr fun x low high => store16_outside m v fun inside => by
    have := inside.1
    have := inside.2
    omega

theorem load16_store32_of_apart (m : Bytes) {a b : Nat} (v : UInt32) (apart : b + 2 ≤ a ∨ a + 4 ≤ b) :
    load16 (store32 m a v) b = load16 m b :=
  load16_congr fun x low high => store32_outside m v fun inside => by
    have := inside.1
    have := inside.2
    omega

theorem load32_store16_of_apart (m : Bytes) {a b : Nat} (v : UInt16) (apart : b + 4 ≤ a ∨ a + 2 ≤ b) :
    load32 (store16 m a v) b = load32 m b :=
  load32_congr fun x low high => store16_outside m v fun inside => by
    have := inside.1
    have := inside.2
    omega

/-- Storing what was loaded brings the old bytes back. -/
theorem store16_load16 (m m' : Bytes) {a x : Nat} (inside : x ∈ Set.Ico a (a + 2)) :
    store16 m' a (load16 m a) x = m x := by
  obtain ⟨low, high⟩ := inside
  have := (m a).toNat_lt
  have := (m (a + 1)).toNat_lt
  rw [store16, if_pos ⟨low, high⟩, load16, UInt16.toNat_ofNat']
  apply UInt8.toNat_inj.1
  rw [UInt8.toNat_ofNat']
  obtain rfl | rfl : x = a ∨ x = a + 1 := by omega
  · simp only [Nat.sub_self, Nat.mul_zero, pow_zero, Nat.div_one]
    omega
  · simp only [Nat.add_sub_cancel_left, Nat.mul_one]
    omega

theorem store32_load32 (m m' : Bytes) {a x : Nat} (inside : x ∈ Set.Ico a (a + 4)) :
    store32 m' a (load32 m a) x = m x := by
  obtain ⟨low, high⟩ := inside
  have := (m a).toNat_lt
  have := (m (a + 1)).toNat_lt
  have := (m (a + 2)).toNat_lt
  have := (m (a + 3)).toNat_lt
  rw [store32, if_pos ⟨low, high⟩, load32, UInt32.toNat_ofNat']
  apply UInt8.toNat_inj.1
  rw [UInt8.toNat_ofNat']
  obtain rfl | rfl | rfl | rfl : x = a ∨ x = a + 1 ∨ x = a + 2 ∨ x = a + 3 := by omega
  · simp only [Nat.sub_self, Nat.mul_zero, pow_zero, Nat.div_one]
    omega
  all_goals
    simp only [Nat.add_sub_cancel_left, Nat.mul_one, Nat.reduceMul, Nat.reducePow]
    omega

def load64 (m : Bytes) (a : Nat) : UInt64 :=
  UInt64.ofNat ((load32 m a).toNat + (load32 m (a + 4)).toNat * 2 ^ 32)

theorem load64_congr {m m' : Bytes} {a : Nat} (same : ∀ x, a ≤ x → x < a + 8 → m' x = m x) :
    load64 m' a = load64 m a := by
  rw [load64, load64, load32_congr fun x low high => same x low (by omega),
    load32_congr fun x low high => same x (by omega) (by omega)]

/-- The word with these eight bytes, the lowest first. -/
def wordOf (f : Nat → UInt8) : UInt64 :=
  UInt64.ofNat ((f 0).toNat + (f 1).toNat * 2 ^ 8 + (f 2).toNat * 2 ^ 16 + (f 3).toNat * 2 ^ 24 +
    (f 4).toNat * 2 ^ 32 + (f 5).toNat * 2 ^ 40 + (f 6).toNat * 2 ^ 48 + (f 7).toNat * 2 ^ 56)

def byteOf (w : UInt64) (k : Nat) : UInt8 := UInt8.ofNat (w.toNat / 2 ^ (8 * k))

theorem wordOf_toNat (f : Nat → UInt8) :
    (wordOf f).toNat = (f 0).toNat + (f 1).toNat * 2 ^ 8 + (f 2).toNat * 2 ^ 16 + (f 3).toNat * 2 ^ 24 +
      (f 4).toNat * 2 ^ 32 + (f 5).toNat * 2 ^ 40 + (f 6).toNat * 2 ^ 48 + (f 7).toNat * 2 ^ 56 := by
  have small : ∀ k, (f k).toNat < 256 := fun k => (f k).toNat_lt
  have := small 0
  have := small 1
  have := small 2
  have := small 3
  have := small 4
  have := small 5
  have := small 6
  have := small 7
  apply UInt64.toNat_ofNat_of_lt'
  show _ < 2 ^ 64
  omega

theorem byteOf_wordOf (f : Nat → UInt8) {k : Nat} (low : k < 8) : byteOf (wordOf f) k = f k := by
  have small : ∀ k, (f k).toNat < 256 := fun k => (f k).toNat_lt
  have := small 0
  have := small 1
  have := small 2
  have := small 3
  have := small 4
  have := small 5
  have := small 6
  have := small 7
  apply UInt8.toNat_inj.1
  rw [byteOf, wordOf_toNat, UInt8.toNat_ofNat']
  obtain rfl | rfl | rfl | rfl | rfl | rfl | rfl | rfl :
      k = 0 ∨ k = 1 ∨ k = 2 ∨ k = 3 ∨ k = 4 ∨ k = 5 ∨ k = 6 ∨ k = 7 := by omega
  all_goals
    simp only [Nat.reduceMul, Nat.reducePow]
    omega

@[simp] theorem byteOf_zero (k : Nat) : byteOf 0 k = 0 := by
  rw [byteOf, UInt64.toNat_zero, Nat.zero_div]
  rfl

theorem testBit_byteOf (w : UInt64) (k : Nat) {r : Nat} (low : r < 8) :
    (byteOf w k).toNat.testBit r = w.toNat.testBit (8 * k + r) := by
  rw [byteOf, UInt8.toNat_ofNat', ← Nat.shiftRight_eq_div_pow, Nat.testBit_mod_two_pow, Nat.testBit_shiftRight]
  simp [low]

/-- Bit `i` of a buffer: the bytes in their order, the low bits first. -/
def bitOf (l : List UInt8) (i : Nat) : Bool := (l.getD (i / 8) 0).toNat.testBit (i % 8)

/-- The buffer as an array of 64-bit words. -/
def wordsOf (l : List UInt8) (i : Nat) : UInt64 := wordOf fun k => l.getD (8 * i + k) 0

/-- The first `n` bytes of an array of 64-bit words. -/
def ofWords (n : Nat) (addr : Nat → UInt64) : List UInt8 :=
  (List.range n).map fun k => byteOf (addr (k / 8)) (k % 8)

@[simp] theorem length_ofWords (n : Nat) (addr : Nat → UInt64) : (ofWords n addr).length = n := by simp [ofWords]

/-- A bit of a word is the bit of one of its bytes. -/
theorem bit_in_byte (i : Nat) : i % 64 = 8 * (i / 8 % 8) + i % 8 ∧ 8 * (i / 64) + i / 8 % 8 = i / 8 := by omega

theorem testBit_wordsOf (l : List UInt8) (i : Nat) : (wordsOf l (i / 64)).toNat.testBit (i % 64) = bitOf l i := by
  have low : i % 8 < 8 := Nat.mod_lt i (by decide)
  rw [(bit_in_byte i).1, ← testBit_byteOf _ _ low, wordsOf, byteOf_wordOf _ (Nat.mod_lt _ (by decide)),
    (bit_in_byte i).2, bitOf]

theorem bitOf_ofWords {n i : Nat} (addr : Nat → UInt64) (inside : i < 8 * n) :
    bitOf (ofWords n addr) i = (addr (i / 64)).toNat.testBit (i % 64) := by
  have low : i % 8 < 8 := Nat.mod_lt i (by decide)
  have byte : i / 8 < n := by omega
  rw [(bit_in_byte i).1, ← testBit_byteOf _ _ low, bitOf, ofWords, List.getD_eq_getElem?_getD,
    List.getElem?_map, List.getElem?_range byte, Option.map_some, Option.getD_some, Nat.div_div_eq_div_mul]

theorem bitOf_outside {l : List UInt8} {i : Nat} (outside : 8 * l.length ≤ i) : bitOf l i = false := by
  have byte : l.length ≤ i / 8 := by omega
  simp [bitOf, byte]

/-- `memset(p, 0, size)`. -/
def clear (m : Bytes) (p size : Nat) : Bytes := fun x => if p ≤ x ∧ x < p + size then 0 else m x

theorem clear_outside (m : Bytes) {p size x : Nat} (outside : x ∉ Set.Ico p (p + size)) :
    clear m p size x = m x :=
  if_neg outside

theorem clear_inside (m : Bytes) {p size x : Nat} (inside : x ∈ Set.Ico p (p + size)) : clear m p size x = 0 :=
  if_pos inside

/-- `memcpy(p, q, size)` from the memory `src`. -/
def copy (m : Bytes) (p size : Nat) (src : Bytes) (q : Nat) : Bytes := fun x =>
  if p ≤ x ∧ x < p + size then src (q + (x - p)) else m x

theorem copy_outside (m : Bytes) {p size x : Nat} (src : Bytes) (q : Nat) (outside : x ∉ Set.Ico p (p + size)) :
    copy m p size src q x = m x :=
  if_neg outside

theorem copy_inside (m : Bytes) {p size x : Nat} (src : Bytes) (q : Nat) (inside : x ∈ Set.Ico p (p + size)) :
    copy m p size src q x = src (q + (x - p)) :=
  if_pos inside

/-- `memcpy` of these bytes to the address `p`. -/
def blit (m : Bytes) (p : Nat) (bytes : List UInt8) : Bytes := fun x =>
  if p ≤ x then bytes.getD (x - p) (m x) else m x

/-- The first `n` bytes. -/
def upTo (m : Bytes) (n : Nat) : List UInt8 := (List.range n).map m

@[simp] theorem length_upTo (m : Bytes) (n : Nat) : (upTo m n).length = n := by simp [upTo]

@[simp] theorem getElem_upTo (m : Bytes) (n i : Nat) (inside : i < (upTo m n).length) :
    (upTo m n)[i] = m i := by simp [upTo]

/-- Bytes copied to the end of what is there extend it. -/
theorem upTo_blit (m : Bytes) (p : Nat) (bytes : List UInt8) :
    upTo (blit m p bytes) (p + bytes.length) = upTo m p ++ bytes := by
  apply List.ext_getElem
  · simp
  · intro i inside _
    rw [length_upTo] at inside
    rw [List.getElem_append, getElem_upTo, blit]
    split
    · rename_i after
      rw [dif_neg (by rw [length_upTo]; omega)]
      simp [List.getD_eq_getElem?_getD, show i - p < bytes.length by omega]
    · rename_i before
      rw [dif_pos (by rw [length_upTo]; omega), getElem_upTo]

theorem upTo_clear (m : Bytes) (p n : Nat) :
    upTo (clear m p n) (p + n) = upTo m p ++ List.replicate n 0 := by
  apply List.ext_getElem
  · simp
  · intro i inside _
    rw [length_upTo] at inside
    rw [List.getElem_append, getElem_upTo, clear]
    split
    · rename_i after
      rw [dif_neg (by rw [length_upTo]; omega)]
      simp
    · rename_i before
      rw [dif_pos (by rw [length_upTo]; omega), getElem_upTo]

/-- The `n` low bytes of a number, the lowest first. -/
def leBytes : Nat → Nat → List UInt8
  | 0, _ => []
  | n + 1, v => UInt8.ofNat v :: leBytes n (v / 256)

/-- The number with these bytes, the lowest first. -/
def ofLe : List UInt8 → Nat
  | [] => 0
  | b :: rest => b.toNat + 256 * ofLe rest

@[simp] theorem length_leBytes (n v : Nat) : (leBytes n v).length = n := by
  induction n generalizing v with
  | zero => rfl
  | succ n ih => simp [leBytes, ih]

theorem ofLe_leBytes (n : Nat) {v : Nat} (small : v < 256 ^ n) : ofLe (leBytes n v) = v := by
  induction n generalizing v with
  | zero =>
      rw [pow_zero] at small
      simp only [leBytes, ofLe]
      omega
  | succ n ih =>
      rw [pow_succ] at small
      rw [leBytes, ofLe, ih (by omega), UInt8.toNat_ofNat']
      omega

/-- Masking off the `k` low bits of a word of `n` bits rounds it down. -/
theorem and_high {n k x : Nat} (low : k ≤ n) (small : x < 2 ^ n) :
    x &&& (2 ^ n - 2 ^ k) = x / 2 ^ k * 2 ^ k := by
  apply Nat.eq_of_testBit_eq
  intro i
  have positive := Nat.two_pow_pos k
  have less : 2 ^ k - 1 < 2 ^ n :=
    Nat.lt_of_lt_of_le (by omega) (Nat.pow_le_pow_right Nat.two_pos low)
  have mask : 2 ^ n - 2 ^ k = 2 ^ n - (2 ^ k - 1 + 1) := by omega
  have shifted : (x / 2 ^ k * 2 ^ k).testBit i = (decide (k ≤ i) && x.testBit i) := by
    rw [← Nat.shiftRight_eq_div_pow, ← Nat.shiftLeft_eq, Nat.testBit_shiftLeft,
      Nat.testBit_shiftRight]
    by_cases high : k ≤ i
    · simp [high]
    · simp [high]
  rw [mask, Nat.testBit_and, Nat.testBit_two_pow_sub_succ less, Nat.testBit_two_pow_sub_one, shifted]
  by_cases top : i < n
  · by_cases high : k ≤ i
    · simp [top, high]
    · simp [high]
      omega
  · have zero : x.testBit i = false :=
      Nat.testBit_lt_two_pow (Nat.lt_of_lt_of_le small (Nat.pow_le_pow_right Nat.two_pos (by omega)))
    simp [zero]

theorem mask_or (x y mask : UInt64) : (x ||| y) &&& mask = (x &&& mask) ||| (y &&& mask) :=
  UInt64.toBitVec_inj.1 (by
    simp only [UInt64.toBitVec_and, UInt64.toBitVec_or, BitVec.and_or_distrib_right])

end Minus.Theory
