/-
# Lib.Number — numbers as text, and back

`to_hex` and `to_decimal` of `lib/string.c` put the digits of a number into a buffer as they
find them, the least significant first, and `swap` turns them round in place.  Neither knows
how long the buffer is; a store outside of it has no result.  What they leave are the numerals
of the number (`toDecimal_writes`, `toHex_writes`), with 20 decimal and 16 hexadecimal digits at
most.

`vsprintf` has its numbers from one buffer, conversion after conversion, and prints what
`Lib.vsprintf` says (`vsprintf_eq`).  `strtoul` reads a numeral as its number
(`strtoul_numeral`), and a negative one modulo 2^64.
-/
import Minus.Lib.String
import Minus.Lib.Vsprintf
import Minus.Theory.Mirror
import Minus.Theory.Numeral

namespace Minus.Lib.Number

set_option autoImplicit false

open Minus.Theory
open Minus.Lib.String

section Buffer

variable {size : Nat}

/-! ## The buffer -/

/-- `char c = buf[i]; buf[i] = buf[j]; buf[j] = c;` -/
def swapBytes (buf : Vector UInt8 size) (i j : Nat) : Option (Vector UInt8 size) := do
  let c ← chars buf i
  let buf ← store buf i (← chars buf j)
  store buf j c

/-- The first turns of the loop of `swap`. -/
def swapLoop (buf : Vector UInt8 size) (n : Nat) : Nat → Option (Vector UInt8 size)
  | 0 => some buf
  | i + 1 => do
      let buf ← swapLoop buf n i
      swapBytes buf i (n - 1 - i)

def swap (buf : Vector UInt8 size) (n : Nat) : Option (Vector UInt8 size) := swapLoop buf n (n / 2)

/-- `do { buf[cnt++] = digit; n = rest; } while (n);` -/
def digitsInto (digit : UInt64 → UInt8) (rest : UInt64 → UInt64) (less : ∀ n, rest n ≠ 0 → rest n < n)
    (buf : Vector UInt8 size) (cnt : Nat) (n : UInt64) : Option (Vector UInt8 size × Nat) := do
  let buf ← store buf cnt (digit n)
  if more : rest n ≠ 0 then digitsInto digit rest less buf (cnt + 1) (rest n)
  else return (buf, cnt + 1)
termination_by n.toNat
decreasing_by exact less n more

def hexDigit (c : Nat) : UInt8 :=
  if c ≥ 10 then UInt8.ofNat (c - 10) + ch 'A' else UInt8.ofNat c + ch '0'

def decimalDigit (c : Nat) : UInt8 := UInt8.ofNat c + ch '0'

theorem shift_less (n : UInt64) (more : n >>> 4 ≠ 0) : n >>> 4 < n := by
  have positive : n.toNat ≠ 0 := fun zero => more (by rw [show n = 0 from UInt64.toNat_inj.1 zero]; rfl)
  rw [UInt64.lt_iff_toNat_lt, UInt64.toNat_shiftRight, Nat.shiftRight_eq_div_pow]
  exact Nat.div_lt_self (Nat.pos_of_ne_zero positive) (by decide)

theorem div_less (n : UInt64) (more : n / 10 ≠ 0) : n / 10 < n := by
  have positive : n.toNat ≠ 0 := fun zero => more (by rw [show n = 0 from UInt64.toNat_inj.1 zero]; rfl)
  rw [UInt64.lt_iff_toNat_lt, UInt64.toNat_div]
  exact Nat.div_lt_self (Nat.pos_of_ne_zero positive) (by decide)

def toHex (buf : Vector UInt8 size) (n : UInt64) : Option (Vector UInt8 size) := do
  let (buf, cnt) ← digitsInto (fun n => hexDigit (n &&& 0x0f).toNat) (· >>> 4) shift_less buf 0 n
  let buf ← store buf cnt (ch 'x')
  let buf ← store buf (cnt + 1) (ch '0')
  let cnt := cnt + 2
  let buf ← swap buf cnt
  store buf cnt 0

def toDecimal (buf : Vector UInt8 size) (n : UInt64) : Option (Vector UInt8 size) := do
  let (buf, cnt) ← digitsInto (fun n => decimalDigit (n % 10).toNat) (· / 10) div_less buf 0 n
  let buf ← swap buf cnt
  store buf cnt 0

def tostr (buf : Vector UInt8 size) (n : UInt64) (base : Nat) : Option (Vector UInt8 size) :=
  if base = 16 then toHex buf n else toDecimal buf n

end Buffer

/-! ## strtoul -/

/-- `while (*s == ' ' || *s == '\t') s++;` -/
def skipBlanks (s : Chars) : Nat → Nat → Option Nat
  | 0, _ => none
  | fuel + 1, p => do
      let c ← s p
      if c = ch ' ' ∨ c = ch '\t' then skipBlanks s fuel (p + 1) else return p

/-- `while (*s >= '0' && *s <= '9')`. -/
def readDigits (s : Chars) : Nat → Nat → UInt64 → Option (UInt64 × Nat)
  | 0, _, _ => none
  | fuel + 1, p, result => do
      let c ← s p
      if c ≥ ch '0' ∧ c ≤ ch '9' then readDigits s fuel (p + 1) (result * 10 + (c - ch '0').toUInt64)
      else return (result, p)

/-- The value returned, and the index at which `endptr` is set. -/
def strtoul (nptr : Chars) (_base : Int32) (fuel : Nat) : Option (UInt64 × Nat) := do
  let s ← skipBlanks nptr fuel 0
  let c ← nptr s
  let (sign, s) : Int × Nat :=
    if c = ch '-' then (-1, s + 1)
    else if c = ch '+' then (1, s + 1)
    else (1, s)
  let (result, s) ← readDigits nptr fuel s 0
  return (if sign < 0 then -result else result, s)

/-! ## vsprintf, with its buffer -/

/-- `while (tmp && *tmp != '\0') *str++ = *tmp++;` -/
def copied (tmp : Chars) : Nat → Option (List UInt8)
  | 0 => none
  | fuel + 1 => do
      let c ← tmp 0
      if c = 0 then return []
      return c :: (← copied (tmp.drop 1) fuel)

/-- `tmp = tostr(&buf[0], n, base)`, and the copy to `str`. -/
def printNumber (buf : Vector UInt8 128) (n : UInt64) (base : Nat) : Option (List UInt8 × Vector UInt8 128) := do
  let buf ← tostr buf n base
  return (← copied (chars buf) 128, buf)

/-- What a conversion puts to `str`, and the buffer it leaves. -/
def printArg (buf : Vector UInt8 128) (conv : UInt8) : VaArg → Option (List UInt8 × Vector UInt8 128)
  | .str s => if conv = ch 's' then some (s.bytes, buf) else none
  | .word w =>
      if conv = ch 's' then if w = 0 then some ([], buf) else none
      else if conv = ch 'p' then printNumber buf w 16
      else if conv = ch 'x' ∨ conv = ch 'X' then printNumber buf w.toUInt32.toUInt64 16
      else if conv = ch 'd' ∨ conv = ch 'i' then
        let val := w.toUInt32.toInt32.toInt64
        if val < 0 then (printNumber buf (-val).toUInt64 10).map fun (text, buf) => (ch '-' :: text, buf)
        else printNumber buf val.toUInt64 10
      else printNumber buf w.toUInt32.toUInt64 10

/-- The text that `vsprintf` writes, from what `buf` holds at first. -/
def vsprintf (buf : Vector UInt8 128) : List UInt8 → List VaArg → Option (List UInt8)
  | [], _ => some []
  | c :: rest, args =>
      if c ≠ percent then (vsprintf buf rest args).map fun text => literal c ++ text
      else
        match rest with
        | [] => none
        | conv :: rest =>
            match args with
            | [] => none
            | arg :: args => do
                let (tmp, buf) ← printArg buf conv arg
                let text ← vsprintf buf rest args
                some (tmp ++ text)

/-! ## What is left in the buffer -/

/-- `text` has been written to the start of the buffer, and nothing else. -/
def Wrote {size : Nat} (buf buf' : Vector UInt8 size) (text : List UInt8) : Prop :=
  ∀ i, chars buf' i = text[i]?.or (chars buf i)

section Wrote

variable {size : Nat} {buf b : Vector UInt8 size} {text : List UInt8}

theorem wrote_nil (buf : Vector UInt8 size) : Wrote buf buf [] := fun _ => rfl

theorem Wrote.inside (wrote : Wrote buf b text) {i : Nat} (inside : i < text.length) :
    chars b i = text[i]? := by
  rw [wrote i, List.getElem?_eq_getElem inside]
  rfl

theorem Wrote.outside (wrote : Wrote buf b text) {i : Nat} (outside : text.length ≤ i) :
    chars b i = chars buf i := by
  rw [wrote i, List.getElem?_eq_none outside]
  rfl

/-- One byte more. -/
theorem Wrote.store (wrote : Wrote buf b text) (c : UInt8) (fits : text.length < size) :
    ∃ b', store b text.length c = some b' ∧ Wrote buf b' (text ++ [c]) := by
  obtain ⟨b', stored, bytes⟩ := store_some b c fits
  refine ⟨b', stored, fun i => ?_⟩
  rw [bytes]
  by_cases last : i = text.length
  · simp [last]
  · rw [if_neg last, wrote i]
    by_cases inside : i < text.length
    · rw [List.getElem?_append_left inside]
    · have beyond : (text ++ [c]).length ≤ i := by
        rw [List.length_append, List.length_singleton]
        omega
      rw [List.getElem?_eq_none (by omega), List.getElem?_eq_none beyond]

/-- The text with its terminator is a string. -/
theorem Wrote.cstr (wrote : Wrote buf b (text ++ [0])) (nonzero : (0 : UInt8) ∉ text) : CStr (chars b) text := by
  refine ⟨fun i short => wrote.inside ?_, nonzero⟩
  rw [List.length_append, List.length_singleton]
  omega

/-! ### swap -/

theorem swapBytes_some (b : Vector UInt8 size) {i j : Nat} (first : i < size) (last : j < size) :
    ∃ b', swapBytes b i j = some b' ∧ chars b' = exchange (chars b) i j := by
  obtain ⟨x, readFirst⟩ : ∃ x, chars b i = some x := ⟨b[i], Vector.getElem?_eq_getElem first⟩
  obtain ⟨y, readLast⟩ : ∃ y, chars b j = some y := ⟨b[j], Vector.getElem?_eq_getElem last⟩
  obtain ⟨b₁, stored, bytes⟩ := store_some b y first
  obtain ⟨b₂, stored', bytes'⟩ := store_some b₁ x last
  refine ⟨b₂, by simp [swapBytes, readFirst, readLast, stored, stored'], ?_⟩
  funext k
  rw [bytes', bytes, exchange_apply, readFirst, readLast]

theorem swapLoop_some (b : Vector UInt8 size) {n k : Nat} (fits : n ≤ size) (half : k ≤ n / 2) :
    ∃ b', swapLoop b n k = some b' ∧ chars b' = mirror (chars b) n k := by
  induction k with
  | zero => exact ⟨b, rfl, rfl⟩
  | succ k ih =>
      obtain ⟨b₁, looped, bytes⟩ := ih (Nat.le_of_succ_le half)
      obtain ⟨b₂, swapped, bytes'⟩ :=
        swapBytes_some b₁ (show k < size by omega) (show n - 1 - k < size by omega)
      refine ⟨b₂, by simp [swapLoop, looped, swapped], ?_⟩
      rw [bytes', bytes, mirror]

/-- **`swap` turns the text round.** -/
theorem Wrote.swap (wrote : Wrote buf b text) (fits : text.length ≤ size) :
    ∃ b', swap b text.length = some b' ∧ Wrote buf b' text.reverse := by
  obtain ⟨b', swapped, bytes⟩ := swapLoop_some b fits (Nat.le_refl _)
  refine ⟨b', swapped, fun i => ?_⟩
  rw [bytes, mirror_half]
  by_cases inside : i < text.length
  · rw [if_pos inside, wrote.inside (by omega), List.getElem?_reverse inside,
      List.getElem?_eq_getElem (show text.length - 1 - i < text.length by omega)]
    rfl
  · rw [if_neg inside, wrote.outside (by omega), List.getElem?_eq_none (by rw [List.length_reverse]; omega)]
    rfl

/-! ### The digits -/

/-- **The loop writes the numeral backwards**, if it takes the number apart by a base. -/
theorem Wrote.digits {base : Nat} (two : 1 < base) {digit : UInt64 → UInt8} {rest : UInt64 → UInt64}
    (less : ∀ n, rest n ≠ 0 → rest n < n) (code : Nat → UInt8) (low : ∀ n, digit n = code (n.toNat % base))
    (high : ∀ n, (rest n).toNat = n.toNat / base) (n : UInt64) (wrote : Wrote buf b text)
    (fits : text.length + (numeral base n.toNat).length ≤ size) :
    ∃ b', digitsInto digit rest less b text.length n = some (b', text.length + (numeral base n.toNat).length) ∧
      Wrote buf b' (text ++ (numeral base n.toNat).reverse.map code) := by
  induction m : n.toNat using Nat.strong_induction_on generalizing n b text with
  | _ m ih =>
      subst m
      have step := numeral_step two n.toNat
      have count := congrArg List.length step
      rw [List.length_reverse, List.length_cons] at count
      obtain ⟨b₁, stored, wrote₁⟩ := wrote.store (digit n) (by omega)
      unfold digitsInto
      rw [stored, step, List.map_cons, ← low]
      by_cases more : rest n ≠ 0
      · have some_ : n.toNat / base ≠ 0 := fun zero => more (UInt64.toNat_inj.1 ((high n).trans zero))
        rw [if_neg some_, List.length_reverse, ← high n] at count
        have fits' : (text ++ [digit n]).length + (numeral base (rest n).toNat).length ≤ size := by
          rw [List.length_append, List.length_singleton]
          omega
        obtain ⟨b', looped, wrote'⟩ := ih (rest n).toNat (less n more) (rest n) wrote₁ fits' rfl
        refine ⟨b', ?_, ?_⟩
        · rw [List.length_append, List.length_singleton] at looped
          rw [Option.bind_eq_bind, Option.bind_some, dif_pos more, looped, count, Nat.add_assoc, Nat.add_comm 1]
        · rw [if_neg some_, ← high n]
          rwa [List.append_assoc, List.singleton_append] at wrote'
      · have zero : rest n = 0 := Classical.not_not.1 more
        have none_ : n.toNat / base = 0 := by rw [← high n, zero]; rfl
        rw [if_pos none_, List.length_nil] at count
        refine ⟨b₁, ?_, ?_⟩
        · simp only [Option.bind_eq_bind, Option.bind_some, dif_neg more, count]
          rfl
        · rw [if_pos none_]
          exact wrote₁

theorem toNat_low (n : UInt64) : (n &&& 0x0f).toNat = n.toNat % 16 := by
  rw [UInt64.toNat_and]
  exact Nat.and_two_pow_sub_one_eq_mod n.toNat 4

theorem toNat_high (n : UInt64) : (n >>> 4).toNat = n.toNat / 16 := by
  rw [UInt64.toNat_shiftRight, Nat.shiftRight_eq_div_pow]
  rfl

/-- The last steps of both functions. -/
theorem Wrote.finish (wrote : Wrote buf b text) (fits : text.length < size) :
    ∃ b₁ b₂, Number.swap b text.length = some b₁ ∧ String.store b₁ text.length 0 = some b₂ ∧
      Wrote buf b₂ (text.reverse ++ [0]) := by
  obtain ⟨b₁, swapped, wrote₁⟩ := wrote.swap (Nat.le_of_lt fits)
  obtain ⟨b₂, stored, wrote₂⟩ := wrote₁.store 0 (by rwa [List.length_reverse])
  rw [List.length_reverse] at stored
  exact ⟨b₁, b₂, swapped, stored, wrote₂⟩

/-- The decimal numeral, as text. -/
def decimalText (n : Nat) : List UInt8 := (numeral 10 n).map decimalDigit

def hexText (n : Nat) : List UInt8 := ch '0' :: ch 'x' :: (numeral 16 n).map hexDigit

/-- **`to_decimal` writes the decimal numeral and a terminator.** -/
theorem toDecimal_writes (buf : Vector UInt8 size) (n : UInt64) (fits : (decimalText n.toNat).length < size) :
    ∃ b, toDecimal buf n = some b ∧ Wrote buf b (decimalText n.toNat ++ [0]) := by
  rw [decimalText, List.length_map] at fits
  obtain ⟨b₁, looped, wrote₁⟩ := (wrote_nil buf).digits (show 1 < 10 by decide) div_less decimalDigit
    (fun n => congrArg decimalDigit (UInt64.toNat_mod n 10)) (fun n => UInt64.toNat_div n 10) n
    (by simpa using Nat.le_of_lt fits)
  have count : ([] ++ (numeral 10 n.toNat).reverse.map decimalDigit).length = (numeral 10 n.toNat).length := by simp
  have back : ([] ++ (numeral 10 n.toNat).reverse.map decimalDigit).reverse = decimalText n.toNat := by
    rw [List.nil_append, ← List.map_reverse, List.reverse_reverse, decimalText]
  obtain ⟨b₂, b₃, swapped, stored, wrote₃⟩ := wrote₁.finish (by rwa [count])
  rw [count] at swapped stored
  rw [back] at wrote₃
  rw [List.length_nil, Nat.zero_add] at looped
  refine ⟨b₃, ?_, wrote₃⟩
  rw [toDecimal, looped, Option.bind_eq_bind, Option.bind_some]
  dsimp only
  rw [swapped]
  exact stored

/-- **`to_hex` writes the hexadecimal numeral behind `0x`, and a terminator.** -/
theorem toHex_writes (buf : Vector UInt8 size) (n : UInt64) (fits : (hexText n.toNat).length < size) :
    ∃ b, toHex buf n = some b ∧ Wrote buf b (hexText n.toNat ++ [0]) := by
  rw [hexText, List.length_cons, List.length_cons, List.length_map] at fits
  obtain ⟨b₁, looped, wrote₁⟩ := (wrote_nil buf).digits (show 1 < 16 by decide) shift_less hexDigit
    (fun n => congrArg hexDigit (toNat_low n)) toNat_high n (by rw [List.length_nil]; omega)
  rw [List.nil_append] at wrote₁
  rw [List.length_nil, Nat.zero_add] at looped
  have count : ((numeral 16 n.toNat).reverse.map hexDigit).length = (numeral 16 n.toNat).length := by simp
  obtain ⟨b₂, stored, wrote₂⟩ := wrote₁.store (ch 'x') (by omega)
  have count' : ((numeral 16 n.toNat).reverse.map hexDigit ++ [ch 'x']).length = (numeral 16 n.toNat).length + 1 := by
    simp
  obtain ⟨b₃, stored', wrote₃⟩ := wrote₂.store (ch '0') (by omega)
  have count'' : ((numeral 16 n.toNat).reverse.map hexDigit ++ [ch 'x'] ++ [ch '0']).length =
      (numeral 16 n.toNat).length + 2 := by
    simp
  have back : ((numeral 16 n.toNat).reverse.map hexDigit ++ [ch 'x'] ++ [ch '0']).reverse = hexText n.toNat := by
    simp [hexText]
  obtain ⟨b₄, b₅, swapped, ended, wrote₅⟩ := wrote₃.finish (by omega)
  rw [count] at stored
  rw [count'] at stored'
  rw [count''] at swapped ended
  rw [back] at wrote₅
  refine ⟨b₅, ?_, wrote₅⟩
  rw [toHex, looped, Option.bind_eq_bind, Option.bind_some]
  dsimp only
  simp only [Option.bind_eq_bind, Option.bind_some, stored, stored', swapped]
  exact ended

/-! ### The text -/

theorem digitLoop_eq {base : Nat} (two : 2 ≤ base) (digit : Nat → UInt8) (n : Nat) :
    digitLoop base two digit n = (numeral base n).reverse.map digit := by
  induction n using Nat.strong_induction_on with
  | _ n ih =>
      rw [digitLoop, numeral_step two, List.map_cons]
      by_cases last : n / base = 0
      · rw [if_pos last, if_pos last, List.map_nil]
      · have less : n / base < n := Nat.div_lt_self (Nat.pos_of_ne_zero fun zero => last (by simp [zero])) two
        rw [if_neg last, if_neg last, ih (n / base) less]

theorem toDecimal_eq (n : Nat) : Lib.toDecimal n = decimalText n := by
  rw [Lib.toDecimal, digitLoop_eq, ← List.map_reverse, List.reverse_reverse]
  rfl

theorem toHex_eq (n : Nat) : Lib.toHex n = hexText n := by
  rw [Lib.toHex, digitLoop_eq, List.reverse_append, ← List.map_reverse, List.reverse_reverse]
  rfl

theorem digits_nonzero {base : Nat} (two : 1 < base) (n : Nat) (code : Nat → UInt8)
    (nonzero : ∀ d < base, code d ≠ 0) : (0 : UInt8) ∉ (numeral base n).map code := by
  intro zero
  obtain ⟨d, member, same⟩ := List.mem_map.1 zero
  exact nonzero d ((isNumeral_numeral two n).below d member) same

theorem decimalText_nonzero (n : Nat) : (0 : UInt8) ∉ decimalText n :=
  digits_nonzero (by decide) n decimalDigit (by decide)

theorem hexText_nonzero (n : Nat) : (0 : UInt8) ∉ hexText n := by
  have digits := digits_nonzero (by decide : 1 < 16) n hexDigit (by decide)
  simp only [hexText, List.mem_cons, not_or]
  exact ⟨by decide, by decide, digits⟩

/-- `tostr` leaves the text as a string. -/
theorem tostr_text (buf : Vector UInt8 size) (n : UInt64) (base : Nat) {text : List UInt8}
    (is : text = if base = 16 then Lib.toHex n.toNat else Lib.toDecimal n.toNat) (fits : text.length < size) :
    ∃ b, tostr buf n base = some b ∧ CStr (chars b) text := by
  unfold tostr
  by_cases hex : base = 16
  · rw [if_pos hex, toHex_eq] at is
    subst is
    obtain ⟨b, written, wrote⟩ := toHex_writes buf n fits
    exact ⟨b, by rw [if_pos hex, written], wrote.cstr (hexText_nonzero _)⟩
  · rw [if_neg hex, toDecimal_eq] at is
    subst is
    obtain ⟨b, written, wrote⟩ := toDecimal_writes buf n fits
    exact ⟨b, by rw [if_neg hex, written], wrote.cstr (decimalText_nonzero _)⟩

end Wrote

/-! ### vsprintf -/

theorem copied_cstr {tmp : Chars} {w : List UInt8} (string : CStr tmp w) {fuel : Nat} (enough : w.length < fuel) :
    copied tmp fuel = some w := by
  induction w generalizing tmp fuel with
  | nil =>
      obtain ⟨fuel, rfl⟩ := Nat.exists_eq_succ_of_ne_zero (Nat.ne_zero_of_lt enough)
      simp [copied, (cstr_nil_iff tmp).1 string]
  | cons c w ih =>
      obtain ⟨fuel, rfl⟩ := Nat.exists_eq_succ_of_ne_zero (Nat.ne_zero_of_lt enough)
      obtain ⟨first, nonzero, rest⟩ := (cstr_cons_iff tmp c w).1 string
      rw [List.length_cons] at enough
      simp [copied, first, nonzero, ih rest (show w.length < fuel by omega)]

theorem printNumber_hex (buf : Vector UInt8 128) (n : UInt64) :
    ∃ b, printNumber buf n 16 = some (Lib.toHex n.toNat, b) := by
  have short : (Lib.toHex n.toNat).length < 128 :=
    Nat.lt_of_le_of_lt (toHex_length_le (k := 15) (Nat.lt_of_lt_of_le n.toNat_lt (by decide))) (by decide)
  obtain ⟨b, written, string⟩ := tostr_text buf n 16 rfl short
  exact ⟨b, by simp [printNumber, written, copied_cstr string short]⟩

theorem printNumber_decimal (buf : Vector UInt8 128) (n : UInt64) :
    ∃ b, printNumber buf n 10 = some (Lib.toDecimal n.toNat, b) := by
  have short : (Lib.toDecimal n.toNat).length < 128 :=
    Nat.lt_of_le_of_lt (toDecimal_length_le (k := 19) (Nat.lt_of_lt_of_le n.toNat_lt (by decide))) (by decide)
  obtain ⟨b, written, string⟩ := tostr_text buf n 10 rfl short
  exact ⟨b, by simp [printNumber, written, copied_cstr string short]⟩

/-- The absolute value that is printed, with the sign taken away. -/
theorem toNat_magnitude (x : Int32) :
    (if x.toInt64 < 0 then -x.toInt64 else x.toInt64).toUInt64.toNat = x.toInt.natAbs := by
  have low := x.le_toInt
  have high := x.toInt_lt
  have zero : (0 : Int64).toInt = 0 := rfl
  by_cases negative : x.toInt64 < 0
  · have less := Int64.lt_iff_toInt_lt.1 negative
    rw [Int32.toInt_toInt64, zero] at less
    have value : (-x.toInt64).toInt = -x.toInt := by
      rw [Int64.toInt_neg, Int32.toInt_toInt64]
      exact Int.bmod_eq_of_le (by omega) (by omega)
    have positive : 0 ≤ -x.toInt64 := by
      rw [Int64.le_iff_toInt_le, value, zero]
      omega
    rw [if_pos negative, Int64.toNat_toUInt64_of_le positive, Int64.toNatClampNeg, value]
    omega
  · have positive : 0 ≤ x.toInt64 := Int64.not_lt.1 negative
    have more := Int64.le_iff_toInt_le.1 positive
    rw [Int32.toInt_toInt64, zero] at more
    rw [if_neg negative, Int64.toNat_toUInt64_of_le positive, Int64.toNatClampNeg, Int32.toInt_toInt64]
    omega

theorem printNumber_int (buf : Vector UInt8 128) (x : Int32) :
    ∃ b, (if x.toInt64 < 0 then
        (printNumber buf (-x.toInt64).toUInt64 10).map fun (text, buf) => (ch '-' :: text, buf)
      else printNumber buf x.toInt64.toUInt64 10) =
        some (if x.toInt < 0 then ch '-' :: Lib.toDecimal x.toInt.natAbs else Lib.toDecimal x.toInt.natAbs, b) := by
  have magnitude := toNat_magnitude x
  have sign : x.toInt64 < 0 ↔ x.toInt < 0 := by
    rw [Int64.lt_iff_toInt_lt, Int32.toInt_toInt64]
    rfl
  by_cases negative : x.toInt < 0
  · rw [if_pos (sign.2 negative)] at magnitude ⊢
    obtain ⟨b, printed⟩ := printNumber_decimal buf (-x.toInt64).toUInt64
    rw [if_pos negative, printed, magnitude]
    exact ⟨b, rfl⟩
  · rw [if_neg (mt sign.1 negative)] at magnitude ⊢
    obtain ⟨b, printed⟩ := printNumber_decimal buf x.toInt64.toUInt64
    rw [if_neg negative, printed, magnitude]
    exact ⟨b, rfl⟩

/-- A conversion does not depend on what the buffer held. -/
theorem printArg_convert (buf : Vector UInt8 128) (conv : UInt8) (arg : VaArg) :
    (printArg buf conv arg).map Prod.fst = convert conv arg := by
  cases arg with
  | str s =>
      unfold printArg convert
      dsimp only
      split <;> rfl
  | word w =>
      have low : w.toUInt32.toUInt64.toNat = w.toNat % 2 ^ 32 := by
        rw [UInt32.toNat_toUInt64, UInt64.toNat_toUInt32]
      unfold printArg convert
      dsimp only
      by_cases string : conv = ch 's'
      · rw [if_pos string, if_pos string]
        split <;> rfl
      rw [if_neg string, if_neg string]
      by_cases pointer : conv = ch 'p'
      · obtain ⟨b, printed⟩ := printNumber_hex buf w
        rw [if_pos pointer, if_pos pointer, printed]
        rfl
      rw [if_neg pointer, if_neg pointer]
      by_cases hex : conv = ch 'x' ∨ conv = ch 'X'
      · obtain ⟨b, printed⟩ := printNumber_hex buf w.toUInt32.toUInt64
        rw [if_pos hex, if_pos hex, printed, low]
        rfl
      rw [if_neg hex, if_neg hex]
      by_cases int : conv = ch 'd' ∨ conv = ch 'i'
      · obtain ⟨b, printed⟩ := printNumber_int buf w.toUInt32.toInt32
        rw [if_pos int, if_pos int, printed]
        rfl
      · obtain ⟨b, printed⟩ := printNumber_decimal buf w.toUInt32.toUInt64
        rw [if_neg int, if_neg int, printed, low]
        rfl

/-- **`vsprintf` prints the same from every buffer.** -/
theorem vsprintf_eq (buf : Vector UInt8 128) (format : List UInt8) (args : List VaArg) :
    vsprintf buf format args = Lib.vsprintf format args := by
  fun_induction Lib.vsprintf format args generalizing buf with
  | case1 args => rw [vsprintf]
  | case2 c rest args plain ih => rw [vsprintf.eq_def]; dsimp only; rw [if_pos plain, ih]
  | case3 args c conversion => rw [vsprintf.eq_def]; dsimp only; rw [if_neg conversion]
  | case4 c conversion conv rest => rw [vsprintf.eq_def]; dsimp only; rw [if_neg conversion]
  | case5 c conversion conv rest arg args ih =>
      rw [vsprintf.eq_def]
      dsimp only
      rw [if_neg conversion, ← printArg_convert buf]
      cases printed : printArg buf conv arg with
      | none => rfl
      | some r => simp [ih]

/-! ## Reading it back -/

theorem decimalDigit_value : ∀ d < 10, ch '0' ≤ decimalDigit d ∧ decimalDigit d ≤ ch '9' ∧
    (decimalDigit d - ch '0').toUInt64 = UInt64.ofNat d := by
  decide

/-- The loop adds the digits up. -/
theorem readDigits_eq {s : Chars} {p : Nat} {ds : List Nat} (string : CStr (s.drop p) (ds.map decimalDigit))
    (below : ∀ d ∈ ds, d < 10) {fuel : Nat} (enough : ds.length < fuel) (v : Nat) :
    readDigits s fuel p (UInt64.ofNat v) =
      some (UInt64.ofNat (ds.foldl (fun v d => v * 10 + d) v), p + ds.length) := by
  induction ds generalizing p fuel v with
  | nil =>
      obtain ⟨fuel, rfl⟩ := Nat.exists_eq_succ_of_ne_zero (Nat.ne_zero_of_lt enough)
      have stop : s p = some 0 := by simpa using (cstr_nil_iff _).1 string
      rw [readDigits, stop]
      rfl
  | cons d ds ih =>
      obtain ⟨fuel, rfl⟩ := Nat.exists_eq_succ_of_ne_zero (Nat.ne_zero_of_lt enough)
      obtain ⟨here, later⟩ := List.forall_mem_cons.1 below
      rw [List.map_cons, cstr_cons_iff] at string
      obtain ⟨first, -, rest⟩ := string
      rw [Chars.drop_first] at first
      rw [Chars.drop_drop] at rest
      obtain ⟨low, high, digit⟩ := decimalDigit_value d here
      have next : UInt64.ofNat v * 10 + (decimalDigit d - ch '0').toUInt64 = UInt64.ofNat (v * 10 + d) := by
        rw [digit, UInt64.ofNat_add, UInt64.ofNat_mul]
        rfl
      rw [List.length_cons] at enough ⊢
      rw [readDigits, first, Option.bind_eq_bind, Option.bind_some, if_pos ⟨low, high⟩, next,
        ih rest later (by omega), List.foldl_cons, Nat.add_assoc, Nat.add_comm 1]

/-- A numeral is read as its number. -/
theorem readDigits_numeral {s : Chars} {p n : Nat} (string : CStr (s.drop p) (decimalText n)) {fuel : Nat}
    (enough : (decimalText n).length < fuel) :
    readDigits s fuel p 0 = some (UInt64.ofNat n, p + (decimalText n).length) := by
  obtain ⟨-, below, value, -, -⟩ := isNumeral_numeral (show 1 < 10 by decide) n
  rw [decimalText, List.length_map] at enough
  have digits := readDigits_eq string below enough 0
  have sum : (numeral 10 n).foldl (fun v d => v * 10 + d) 0 = n := value
  rw [sum] at digits
  rw [decimalText, List.length_map]
  exact digits

/-- A digit is no blank and no sign. -/
theorem decimalDigit_plain : ∀ d < 10, decimalDigit d ≠ ch ' ' ∧ decimalDigit d ≠ ch '\t' ∧
    decimalDigit d ≠ ch '-' ∧ decimalDigit d ≠ ch '+' := by
  decide

theorem decimalText_head (n : Nat) : ∃ d < 10, ∃ rest, decimalText n = decimalDigit d :: rest := by
  obtain ⟨nonempty, below, -, -, -⟩ := isNumeral_numeral (show 1 < 10 by decide) n
  obtain ⟨d, ds, parts⟩ := List.exists_cons_of_ne_nil nonempty
  refine ⟨d, below d (parts ▸ List.mem_cons_self), ds.map decimalDigit, ?_⟩
  rw [decimalText, parts, List.map_cons]

/-- Where there is no blank, none is skipped. -/
theorem skipBlanks_plain {s : Chars} {c : UInt8} (first : s 0 = some c) (plain : ¬ (c = ch ' ' ∨ c = ch '\t'))
    {fuel : Nat} (some_ : 0 < fuel) : skipBlanks s fuel 0 = some 0 := by
  obtain ⟨fuel, rfl⟩ := Nat.exists_eq_succ_of_ne_zero (Nat.ne_of_gt some_)
  rw [skipBlanks, first, Option.bind_eq_bind, Option.bind_some, if_neg plain]
  rfl

/-- **`strtoul` reads a numeral as its number.** -/
theorem strtoul_numeral {s : Chars} {n : Nat} (string : CStr s (decimalText n)) (base : Int32) {fuel : Nat}
    (enough : (decimalText n).length < fuel) :
    strtoul s base fuel = some (UInt64.ofNat n, (decimalText n).length) := by
  obtain ⟨d, below, rest, parts⟩ := decimalText_head n
  have first : s 0 = some (decimalDigit d) := by
    rw [parts, cstr_cons_iff] at string
    exact string.1
  obtain ⟨notBlank, notTab, notMinus, notPlus⟩ := decimalDigit_plain d below
  have still := skipBlanks_plain first (not_or.2 ⟨notBlank, notTab⟩) (Nat.zero_lt_of_lt enough)
  have digits := readDigits_numeral (p := 0) string enough
  rw [Nat.zero_add] at digits
  simp only [strtoul, still, first, Option.bind_eq_bind, Option.bind_some, if_neg notMinus, if_neg notPlus, digits]
  rfl

/-- With a sign before it, it is read as the negative number. -/
theorem strtoul_negative {s : Chars} {n : Nat} (string : CStr s (ch '-' :: decimalText n)) (base : Int32) {fuel : Nat}
    (enough : (decimalText n).length + 1 < fuel) :
    strtoul s base fuel = some (-UInt64.ofNat n, (decimalText n).length + 1) := by
  obtain ⟨first, -, rest⟩ := (cstr_cons_iff _ _ _).1 string
  have still := skipBlanks_plain first (by decide) (Nat.zero_lt_of_lt enough)
  have digits := readDigits_numeral (p := 1) rest (Nat.lt_of_succ_lt enough)
  simp only [strtoul, still, first, Option.bind_eq_bind, Option.bind_some, if_true, Nat.zero_add, digits]
  rw [Nat.add_comm 1]
  rfl

/-! ## There and back -/

/-- The character of a digit. -/
def digitChar (d : Nat) : UInt8 := (ascii "0123456789ABCDEF").getD d 0

theorem decimalDigit_eq : ∀ d < 10, decimalDigit d = digitChar d := by decide

theorem hexDigit_eq : ∀ d < 16, hexDigit d = digitChar d := by decide

theorem decimalText_eq (n : Nat) : decimalText n = (numeral 10 n).map digitChar :=
  List.map_congr_left fun d member => decimalDigit_eq d ((isNumeral_numeral (by decide) n).below d member)

theorem hexText_eq (n : Nat) : hexText n = ch '0' :: ch 'x' :: (numeral 16 n).map digitChar := by
  have digits : (numeral 16 n).map hexDigit = (numeral 16 n).map digitChar :=
    List.map_congr_left fun d member => hexDigit_eq d ((isNumeral_numeral (by decide) n).below d member)
  rw [hexText, digits]

/-- `to_decimal`, and `strtoul` of what it left. -/
theorem toDecimal_back {size : Nat} (buf : Vector UInt8 size) (n : UInt64) (room : 21 ≤ size) :
    ∃ b ds, toDecimal buf n = some b ∧ IsNumeral 10 n.toNat ds ∧ ds.length + 1 ≤ 21 ∧
      Wrote buf b (ds.map digitChar ++ [0]) ∧
      ∀ base fuel, ds.length < fuel → strtoul (chars b) base fuel = some (n, ds.length) := by
  have few : (numeral 10 n.toNat).length ≤ 20 :=
    length_numeral_le (by decide) (k := 19) (Nat.lt_of_lt_of_le n.toNat_lt (by decide))
  have length : (decimalText n.toNat).length = (numeral 10 n.toNat).length := List.length_map _
  obtain ⟨b, written, wrote⟩ := toDecimal_writes buf n (by omega)
  have string := wrote.cstr (decimalText_nonzero n.toNat)
  rw [decimalText_eq] at wrote
  refine ⟨b, _, written, isNumeral_numeral (by decide) _, Nat.succ_le_succ few, wrote, fun base fuel enough => ?_⟩
  rw [← length] at enough ⊢
  rw [strtoul_numeral string base enough, UInt64.ofNat_toNat]

theorem toHex_form {size : Nat} (buf : Vector UInt8 size) (n : UInt64) (room : 19 ≤ size) :
    ∃ b ds, toHex buf n = some b ∧ IsNumeral 16 n.toNat ds ∧ ds.length + 3 ≤ 19 ∧
      Wrote buf b (ch '0' :: ch 'x' :: ds.map digitChar ++ [0]) := by
  have few : (numeral 16 n.toNat).length ≤ 16 :=
    length_numeral_le (by decide) (k := 15) (Nat.lt_of_lt_of_le n.toNat_lt (by decide))
  have length : (hexText n.toNat).length = (numeral 16 n.toNat).length + 2 := by simp [hexText]
  obtain ⟨b, written, wrote⟩ := toHex_writes buf n (by omega)
  rw [hexText_eq] at wrote
  exact ⟨b, _, written, isNumeral_numeral (by decide) _, by omega, wrote⟩

/-- What `%d` prints. -/
theorem vsprintf_int (buf : Vector UInt8 128) (w : UInt64) :
    vsprintf buf (Lib.cstr "%d") [.word w] = some (
      if w.toUInt32.toInt32.toInt < 0 then ch '-' :: decimalText w.toUInt32.toInt32.toInt.natAbs
      else decimalText w.toUInt32.toInt32.toInt.natAbs) := by
  have format : Lib.cstr "%d" = [percent, ch 'd'] := by decide
  rw [vsprintf_eq, format, ← toDecimal_eq, Lib.vsprintf, if_neg (by decide), convert, if_neg (by decide),
    if_neg (by decide), if_neg (by decide), if_pos (.inl rfl)]
  simp [Lib.vsprintf]

theorem vsprintf_int_back (buf : Vector UInt8 128) (w : UInt64) :
    ∃ text, vsprintf buf (Lib.cstr "%d") [.word w] = some text ∧
      ∀ s, CStr s text → ∀ base fuel, text.length < fuel →
        strtoul s base fuel = some (UInt64.ofInt w.toUInt32.toInt32.toInt, text.length) := by
  refine ⟨_, vsprintf_int buf w, fun s string base fuel enough => ?_⟩
  generalize w.toUInt32.toInt32.toInt = val at *
  have nat (n : Nat) : UInt64.ofInt n = UInt64.ofNat n := by
    rw [UInt64.ofInt, UInt64.ofNat_eq_iff_mod_eq_toNat, UInt64.toNat_ofNat']
    omega
  by_cases negative : val < 0
  · rw [if_pos negative] at *
    have same : val = -(val.natAbs : Int) := by omega
    rw [strtoul_negative string base enough, ← nat, ← UInt64.ofInt_neg, ← same]
    rfl
  · rw [if_neg negative] at *
    have same : val = (val.natAbs : Int) := by omega
    rw [strtoul_numeral string base enough, ← nat, ← same]

/-- **Numbers survive being printed and read.**  `to_decimal` and `to_hex` stay in 21 and 19 bytes
and write the numeral without a zero in front; `strtoul` reads decimals as the number, and what
`%d` prints as the number modulo 2^64. -/
theorem number_round_trip :
    (∀ {size : Nat} (buf : Vector UInt8 size) (n : UInt64), 21 ≤ size →
      ∃ b ds, toDecimal buf n = some b ∧ IsNumeral 10 n.toNat ds ∧ ds.length + 1 ≤ 21 ∧
        Wrote buf b (ds.map digitChar ++ [0]) ∧
        ∀ base fuel, ds.length < fuel → strtoul (chars b) base fuel = some (n, ds.length)) ∧
    (∀ {size : Nat} (buf : Vector UInt8 size) (n : UInt64), 19 ≤ size →
      ∃ b ds, toHex buf n = some b ∧ IsNumeral 16 n.toNat ds ∧ ds.length + 3 ≤ 19 ∧
        Wrote buf b (ch '0' :: ch 'x' :: ds.map digitChar ++ [0])) ∧
    ∀ (buf : Vector UInt8 128) (w : UInt64), ∃ text, vsprintf buf (Lib.cstr "%d") [.word w] = some text ∧
      ∀ s, CStr s text → ∀ base fuel, text.length < fuel →
        strtoul s base fuel = some (UInt64.ofInt w.toUInt32.toInt32.toInt, text.length) :=
  ⟨toDecimal_back, toHex_form, vsprintf_int_back⟩

/-- The largest number, in a buffer of 21 bytes. -/
theorem number_round_trip_max :
    ∃ b ds, toDecimal (Vector.replicate 21 0) 0xffffffffffffffff = some b ∧
      IsNumeral 10 18446744073709551615 ds ∧ ds.length + 1 ≤ 21 ∧
      Wrote (Vector.replicate 21 0) b (ds.map digitChar ++ [0]) ∧
      ∀ base fuel, ds.length < fuel → strtoul (chars b) base fuel = some (0xffffffffffffffff, ds.length) :=
  number_round_trip.1 (Vector.replicate 21 0) 0xffffffffffffffff (by decide)

end Minus.Lib.Number
