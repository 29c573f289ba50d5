/-
# Lib.Vsprintf — formatted text

`vsprintf` of `lib/string.c` with `to_hex` and `to_decimal`.  It has no size parameter: what
it writes is as long as the format and the arguments make it (`vsprintf_length`).  Numbers
are short (`convert_le`), strings are as long as they are.

The argument list is what the caller passed, each argument a word or a string.  Where
`va_arg` meets none, or one of the other kind, or a `%` ends the format, the behaviour is not
defined and the model has no text.
-/
import Mathlib.Algebra.Order.Ring.Nat
import Mathlib.Algebra.BigOperators.Group.List.Basic

namespace Minus.Lib

set_option autoImplicit false

/-- The byte of an ASCII character. -/
def ch (c : Char) : UInt8 := UInt8.ofNat c.toNat

def percent : UInt8 := 0x25
def newline : UInt8 := 0x0a
def carriageReturn : UInt8 := 0x0d

/-- The bytes of a string literal, without the terminator. -/
def cstr (s : String) : List UInt8 := s.toByteArray.data.toList

/-- A string in memory, up to its terminator. -/
structure CString where
  bytes : List UInt8
  ended : 0 ∉ bytes

/-! ## Numbers -/

/-- The loop of `to_hex` and `to_decimal`: the digits, the lowest first. -/
def digitLoop (base : Nat) (two : 2 ≤ base) (digit : Nat → UInt8) (n : Nat) : List UInt8 :=
  digit (n % base) :: if n / base = 0 then [] else digitLoop base two digit (n / base)
termination_by n
decreasing_by
  have positive : 0 < n := Nat.pos_of_ne_zero fun zero => by simp [zero] at *
  exact Nat.div_lt_self positive two

/-- `to_hex`; `swap` turns the text round. -/
def toHex (n : Nat) : List UInt8 :=
  let digit (c : Nat) : UInt8 := if c ≥ 10 then UInt8.ofNat (c - 10) + ch 'A' else UInt8.ofNat c + ch '0'
  (digitLoop 16 (by decide) digit n ++ [ch 'x', ch '0']).reverse

def toDecimal (n : Nat) : List UInt8 :=
  (digitLoop 10 (by decide) (fun c => UInt8.ofNat c + ch '0') n).reverse

theorem digitLoop_length_le {base : Nat} (two : 2 ≤ base) (digit : Nat → UInt8) :
    ∀ (k n : Nat), n < base ^ (k + 1) → (digitLoop base two digit n).length ≤ k + 1
  | 0, n, small => by
      have last : n / base = 0 := Nat.div_eq_of_lt (by rwa [Nat.zero_add, pow_one] at small)
      rw [digitLoop, if_pos last]
      exact Nat.le_refl 1
  | k + 1, n, small => by
      rw [digitLoop]
      split
      · exact Nat.succ_le_succ (Nat.zero_le _)
      · have less : n / base < base ^ (k + 1) := Nat.div_lt_of_lt_mul (by rwa [pow_succ'] at small)
        exact Nat.succ_le_succ (digitLoop_length_le two digit k (n / base) less)

theorem toHex_length_le {n k : Nat} (small : n < 16 ^ (k + 1)) : (toHex n).length ≤ k + 3 := by
  have digits := digitLoop_length_le (by decide : 2 ≤ 16)
    (fun c => if c ≥ 10 then UInt8.ofNat (c - 10) + ch 'A' else UInt8.ofNat c + ch '0') k n small
  rw [toHex, List.length_reverse, List.length_append]
  exact Nat.add_le_add_right digits 2

theorem toDecimal_length_le {n k : Nat} (small : n < 10 ^ (k + 1)) : (toDecimal n).length ≤ k + 1 := by
  rw [toDecimal, List.length_reverse]
  exact digitLoop_length_le _ _ k n small

/-! ## vsprintf -/

/-- An argument of `printk`: a number or pointer, or a string. -/
inductive VaArg where
  | word (value : UInt64)
  | str (s : CString)

/-- What a conversion makes of its argument. -/
def convert (conv : UInt8) : VaArg → Option (List UInt8)
  | .str s => if conv = ch 's' then some s.bytes else none
  | .word w =>
      if conv = ch 's' then if w = 0 then some [] else none
      else if conv = ch 'p' then some (toHex w.toNat)
      else if conv = ch 'x' ∨ conv = ch 'X' then some (toHex (w.toNat % 2 ^ 32))
      else if conv = ch 'd' ∨ conv = ch 'i' then
        let val := w.toUInt32.toInt32.toInt
        some (if val < 0 then ch '-' :: toDecimal val.natAbs else toDecimal val.natAbs)
      else some (toDecimal (w.toNat % 2 ^ 32))

/-- A character of the format that stands for itself. -/
def literal (c : UInt8) : List UInt8 := if c = newline then [carriageReturn, c] else [c]

/-- The text that `vsprintf` writes, without the terminator. -/
def vsprintf : List UInt8 → List VaArg → Option (List UInt8)
  | [], _ => some []
  | c :: rest, args =>
      if c ≠ percent then (vsprintf rest args).map fun text => literal c ++ text
      else
        match rest with
        | [] => none
        | conv :: rest =>
            match args with
            | [] => none
            | arg :: args => do
                let tmp ← convert conv arg
                let text ← vsprintf rest args
                some (tmp ++ text)

/-- Characters that stand for themselves. -/
theorem vsprintf_plain {plain : List UInt8} (none_ : ∀ c ∈ plain, c ≠ percent) (rest : List UInt8)
    (args : List VaArg) :
    vsprintf (plain ++ rest) args = (vsprintf rest args).map fun text => plain.flatMap literal ++ text := by
  induction plain with
  | nil => exact Option.map_id'.symm
  | cons c plain ih =>
      obtain ⟨here, later⟩ := List.forall_mem_cons.1 none_
      rw [List.cons_append, vsprintf.eq_def]
      dsimp only
      rw [if_pos here, ih later, Option.map_map]
      simp [Function.comp_def, List.append_assoc]

/-! ## How long the text is -/

/-- The length of the characters that stand for themselves. -/
def textLength : List UInt8 → Nat
  | [] => 0
  | c :: rest =>
      if c ≠ percent then (literal c).length + textLength rest
      else
        match rest with
        | [] => 0
        | _ :: rest => textLength rest

/-- The conversions of the format. -/
def conversions : List UInt8 → List UInt8
  | [] => []
  | c :: rest =>
      if c ≠ percent then conversions rest
      else
        match rest with
        | [] => []
        | conv :: rest => conv :: conversions rest

/-- The length of an argument, converted. -/
def width (conv : UInt8) (arg : VaArg) : Nat := ((convert conv arg).getD []).length

section Equations

variable {c : UInt8} (rest : List UInt8)

theorem textLength_plain (plain : c ≠ percent) : textLength (c :: rest) = (literal c).length + textLength rest := by
  rw [textLength.eq_def]
  exact if_pos plain

theorem textLength_percent (conversion : ¬ c ≠ percent) (conv : UInt8) :
    textLength (c :: conv :: rest) = textLength rest := by
  rw [textLength.eq_def]
  exact if_neg conversion

theorem conversions_plain (plain : c ≠ percent) : conversions (c :: rest) = conversions rest := by
  rw [conversions.eq_def]
  exact if_pos plain

theorem conversions_percent (conversion : ¬ c ≠ percent) (conv : UInt8) :
    conversions (c :: conv :: rest) = conv :: conversions rest := by
  rw [conversions.eq_def]
  exact if_neg conversion

end Equations

/-- **The text is as long as its own characters and the converted arguments.** -/
theorem vsprintf_length {format : List UInt8} {args : List VaArg} {text : List UInt8}
    (run : vsprintf format args = some text) :
    text.length = textLength format + (List.zipWith width (conversions format) args).sum := by
  fun_induction vsprintf format args generalizing text with
  | case1 args =>
      cases run
      rfl
  | case2 c rest args plain ih =>
      obtain ⟨later, run', rfl⟩ := Option.map_eq_some_iff.1 run
      rw [textLength_plain rest plain, conversions_plain rest plain, List.length_append, ih run',
        Nat.add_assoc]
  | case3 args c conversion => cases run
  | case4 c conversion conv rest => cases run
  | case5 c conversion conv rest arg args ih =>
      obtain ⟨tmp, converted, run⟩ := Option.bind_eq_some_iff.1 run
      obtain ⟨later, run', last⟩ := Option.bind_eq_some_iff.1 run
      cases last
      have here : width conv arg = tmp.length := by
        rw [width, converted]
        rfl
      rw [textLength_percent rest conversion, conversions_percent rest conversion, List.zipWith_cons_cons,
        List.sum_cons, here, List.length_append, ih run']
      omega

/-- The longest text of a number; a string has none. -/
def numberWidth (conv : UInt8) : Nat :=
  if conv = ch 's' then 0
  else if conv = ch 'p' then 18
  else if conv = ch 'x' ∨ conv = ch 'X' then 10
  else if conv = ch 'd' ∨ conv = ch 'i' then 11
  else 10

def VaArg.stringLength : VaArg → Nat
  | .word _ => 0
  | .str s => s.bytes.length

theorem decimal_int_le (w : UInt64) :
    (toDecimal w.toUInt32.toInt32.toInt.natAbs).length ≤ 10 := by
  apply toDecimal_length_le (k := 9)
  have := w.toUInt32.toInt32.toInt_lt
  have := w.toUInt32.toInt32.le_toInt
  omega

/-- **A number takes at most 18 bytes, a string its length.** -/
theorem width_le (conv : UInt8) (arg : VaArg) : width conv arg ≤ numberWidth conv + arg.stringLength := by
  unfold width numberWidth
  cases arg with
  | str s =>
      simp only [convert, VaArg.stringLength]
      by_cases string : conv = ch 's'
      · rw [if_pos string, if_pos string]
        exact Nat.le_add_left _ _
      · rw [if_neg string]
        exact Nat.zero_le _
  | word w =>
      have low : w.toNat % 2 ^ 32 < 2 ^ 32 := Nat.mod_lt _ (by decide)
      simp only [convert, VaArg.stringLength, Nat.add_zero]
      by_cases string : conv = ch 's'
      · rw [if_pos string]
        split
        · exact Nat.zero_le _
        · exact Nat.zero_le _
      rw [if_neg string, if_neg string]
      by_cases pointer : conv = ch 'p'
      · rw [if_pos pointer, if_pos pointer]
        exact toHex_length_le (k := 15) (Nat.lt_of_lt_of_le w.toNat_lt (by decide))
      rw [if_neg pointer, if_neg pointer]
      by_cases hex : conv = ch 'x' ∨ conv = ch 'X'
      · rw [if_pos hex, if_pos hex]
        exact toHex_length_le (k := 7) (Nat.lt_of_lt_of_le low (by decide))
      rw [if_neg hex, if_neg hex]
      by_cases int : conv = ch 'd' ∨ conv = ch 'i'
      · rw [if_pos int, if_pos int]
        have digits := decimal_int_le w
        dsimp only [Option.getD_some]
        split
        · exact Nat.succ_le_succ digits
        · exact Nat.le_succ_of_le digits
      · rw [if_neg int, if_neg int]
        exact toDecimal_length_le (k := 9) (Nat.lt_of_lt_of_le low (by decide))

/-- The longest text of a format with empty strings. -/
def worstLength (format : List UInt8) : Nat := textLength format + ((conversions format).map numberWidth).sum

/-- The strings among the arguments, together. -/
def stringsLength (args : List VaArg) : Nat := (args.map VaArg.stringLength).sum

theorem widths_le (convs : List UInt8) (args : List VaArg) :
    (List.zipWith width convs args).sum ≤ (convs.map numberWidth).sum + stringsLength args := by
  induction convs generalizing args with
  | nil => exact Nat.zero_le _
  | cons conv convs ih =>
      cases args with
      | nil => exact Nat.zero_le _
      | cons arg args =>
          have first := width_le conv arg
          have later := ih args
          unfold stringsLength at later ⊢
          rw [List.zipWith_cons_cons, List.sum_cons, List.map_cons, List.map_cons, List.sum_cons, List.sum_cons]
          omega

theorem vsprintf_length_le {format : List UInt8} {args : List VaArg} {text : List UInt8}
    (run : vsprintf format args = some text) : text.length ≤ worstLength format + stringsLength args := by
  have widths := widths_le (conversions format) args
  rw [vsprintf_length run]
  unfold worstLength
  omega

end Minus.Lib
