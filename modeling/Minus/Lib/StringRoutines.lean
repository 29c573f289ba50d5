/-
# Lib.StringRoutines — strcpy, strncmp and strstr

Strings lie in memory, at addresses that are not NULL, and not around its end (`StrAt`).
What C says of the three functions is `Follows`: a copy is the string it is of, a comparison
ends where the strings do, and a search finds the first occurrence or nothing.

The functions of `lib/string.c` do not all do so.  `strcpy` stops at the terminator without
copying it, `strncmp` stops at a difference only, and `strstr` has 32 bits for the length of
what it looks for.  `string_routines_iff` says where this shows.
-/
import Minus.Lib.String
import Minus.Theory.Occurrence

namespace Minus.Lib.String

set_option autoImplicit false

open Minus.Theory

/-- The bytes behind an address. -/
def behind (mem : Memory) (p : UInt64) : Chars := fun i => some (mem (p + UInt64.ofNat i))

/-- The string `w` at `p`. -/
structure StrAt (mem : Memory) (p : UInt64) (w : List UInt8) : Prop where
  pointer : p ≠ 0
  fits : p.toNat + w.length < 2 ^ 64
  string : CStr (behind mem p) w

/-! ## strcpy -/

theorem next_less {p : UInt64} (pointer : p ≠ 0) : (-(p + 1)).toNat < (-p).toNat := by
  have positive : p.toNat ≠ 0 := fun zero => pointer (UInt64.toNat_inj.1 zero)
  have one : (1 : UInt64).toNat = 1 := rfl
  have := p.toNat_lt
  rw [UInt64.toNat_neg, UInt64.toNat_neg, UInt64.toNat_add, one]
  unfold UInt64.size
  omega

/-- `while (src && *src != '\0') *dst++ = *src++;` -/
def copyString (mem : Memory) (dst src : UInt64) : Memory :=
  if h : src ≠ 0 ∧ mem src ≠ 0 then copyString (Function.update mem dst (mem src)) (dst + 1) (src + 1) else mem
termination_by (-src).toNat
decreasing_by exact next_less h.1

/-- The memory afterwards and the value returned. -/
def strcpy (mem : Memory) (dst src : UInt64) : Memory × UInt64 := (copyString mem dst src, dst)

/-! ## strstr -/

/-- `while (needle[needle_len]) needle_len++;` -/
def needleLength (mem : Memory) (needle : UInt64) : Nat → UInt32 → Option UInt32
  | 0, _ => none
  | fuel + 1, len =>
      if mem (needle + len.toUInt64) ≠ 0 then needleLength mem needle fuel (len + 1) else some len

/-- How the comparison at one place ends. -/
inductive Compared where
  | differs
  | ended
  | whole
  deriving DecidableEq

/-- The loop that compares, from index `i`, with the number of characters left. -/
def compareLoop (mem : Memory) (h n : UInt64) : Nat → UInt32 → Compared
  | 0, _ => .whole
  | left + 1, i =>
      if mem (h + i.toUInt64) ≠ mem (n + i.toUInt64) then .differs
      else if mem (h + i.toUInt64) = 0 then .ended
      else compareLoop mem h n left (i + 1)

/-- `while (*haystack)`. -/
def haystackLoop (mem : Memory) (needle : UInt64) (len : UInt32) : Nat → UInt64 → Option UInt64
  | 0, _ => none
  | fuel + 1, haystack =>
      if mem haystack = 0 then some 0
      else
        match compareLoop mem haystack needle len.toNat 0 with
        | .ended => some 0
        | .whole => some haystack
        | .differs => haystackLoop mem needle len fuel (haystack + 1)

/-- The address returned, or NULL. -/
def strstr (mem : Memory) (haystack needle : UInt64) (fuel : Nat) : Option UInt64 :=
  if needle = 0 ∨ mem needle = 0 then some haystack
  else do
    let len ← needleLength mem needle fuel 0
    haystackLoop mem needle len fuel haystack

/-! ## What they are for -/

/-- The bytes up to index `k`, with none to read behind. -/
def Chars.upTo (s : Chars) (k : Nat) : Chars := fun i => if i ≤ k then s i else none

/-- With enough fuel, `r` is returned. -/
def Returns (f : Nat → Option UInt64) (r : UInt64) : Prop := ∃ enough, ∀ fuel ≥ enough, f fuel = some r

/-- The C meaning of `strcpy(dst, s)`, `strncmp(s, t, n)` and `strstr(s, t)`. -/
structure Follows (mem : Memory) (dst s t n : UInt64) (v w : List UInt8) : Prop where
  copies : CStr (behind (strcpy mem dst s).1 dst) v
  compares : strncmp (behind mem s) (behind mem t) n.toNat = some 0 ↔
    (v ++ [0]).take n.toNat = (w ++ [0]).take n.toNat
  stops : (strncmp ((behind mem s).upTo v.length) ((behind mem t).upTo w.length) n.toNat).isSome = true
  finds : ∃ r, Returns (strstr mem s t) r ∧ (r = 0 ↔ ¬ w <:+: v) ∧
    ∀ k, FirstAt w v k → r = s + UInt64.ofNat k

/-! ## Strings in memory -/

theorem behind_drop (mem : Memory) (p : UInt64) (k : Nat) :
    (behind mem p).drop k = behind mem (p + UInt64.ofNat k) := by
  funext i
  show some (mem (p + UInt64.ofNat (i + k))) = some (mem (p + UInt64.ofNat k + UInt64.ofNat i))
  rw [UInt64.ofNat_add, UInt64.add_assoc, UInt64.add_comm (UInt64.ofNat k)]

theorem behind_zero (mem : Memory) (p : UInt64) : behind mem p 0 = some (mem p) := by
  show some (mem (p + UInt64.ofNat 0)) = _
  rw [show UInt64.ofNat 0 = 0 from rfl, UInt64.add_zero]

section Strings

variable {mem : Memory} {p dst src : UInt64} {c : UInt8} {v w : List UInt8}

theorem strAt_nil (string : StrAt mem p []) : mem p = 0 := by
  have stop := (cstr_nil_iff _).1 string.string
  rw [behind_zero] at stop
  exact Option.some.inj stop

theorem next_toNat (fits : p.toNat + 1 < 2 ^ 64) : (p + 1).toNat = p.toNat + 1 := by
  rw [UInt64.toNat_add]
  exact Nat.mod_eq_of_lt fits

/-- A string that is not empty: its first character, and the string behind it. -/
theorem strAt_cons (string : StrAt mem p (c :: v)) : mem p = c ∧ c ≠ 0 ∧ StrAt mem (p + 1) v := by
  obtain ⟨pointer, fits, string⟩ := string
  obtain ⟨first, nonzero, rest⟩ := (cstr_cons_iff _ _ _).1 string
  rw [behind_zero] at first
  rw [behind_drop] at rest
  rw [List.length_cons] at fits
  have next := next_toNat (p := p) (by omega)
  refine ⟨Option.some.inj first, nonzero, ?_, by omega, rest⟩
  intro zero
  rw [zero] at next
  exact absurd next (Nat.succ_ne_zero _).symm

theorem strAt_byte (string : StrAt mem p w) {i : Nat} (inside : i < w.length) :
    mem (p + UInt64.ofNat i) ≠ 0 := by
  intro zero
  have byte := string.string.bytes i (Nat.le_of_lt inside)
  rw [List.getElem?_append_left inside, List.getElem?_eq_getElem inside] at byte
  have same : w[i] = 0 := (Option.some.inj byte).symm.trans zero
  exact string.string.nonzero (same ▸ List.getElem_mem inside)

theorem strAt_end (string : StrAt mem p w) : mem (p + UInt64.ofNat w.length) = 0 := by
  have byte := string.string.bytes w.length (Nat.le_refl _)
  simpa [behind] using byte

/-- No place in a string is NULL. -/
theorem StrAt.inside_ne (string : StrAt mem p w) {k : Nat} (inside : k ≤ w.length) : p + UInt64.ofNat k ≠ 0 := by
  intro null
  have fits := string.fits
  have place := toNat_add_ofNat (p := p) (n := w.length + 1) (i := k) (by omega) (by omega)
  rw [null, show (0 : UInt64).toNat = 0 from rfl] at place
  apply string.pointer
  apply UInt64.toNat_inj.1
  show p.toNat = 0
  omega

/-! ## The copy -/

/-- The destination starts inside the source, behind its first byte. -/
def Overlaps (dst src : UInt64) (len : Nat) : Prop := src < dst ∧ dst.toNat ≤ src.toNat + len

theorem sub_next {x : UInt64} (other : x ≠ dst) : (x - dst).toNat = (x - (dst + 1)).toNat + 1 := by
  have apart : x.toNat ≠ dst.toNat := fun same => other (UInt64.toNat_inj.1 same)
  have one : (1 : UInt64).toNat = 1 := rfl
  have := x.toNat_lt
  have := dst.toNat_lt
  rw [UInt64.toNat_sub, UInt64.toNat_sub, UInt64.toNat_add, one]
  omega

theorem sub_next_self (dst : UInt64) : (dst - (dst + 1)).toNat = 2 ^ 64 - 1 := by
  have one : (1 : UInt64).toNat = 1 := rfl
  have := dst.toNat_lt
  rw [UInt64.toNat_sub, UInt64.toNat_add, one]
  omega

/-- The rest of the source after one byte is copied. -/
theorem StrAt.step (string : StrAt mem src (c :: v)) (apart : ¬ Overlaps dst src (c :: v).length) :
    StrAt (Function.update mem dst (mem src)) (src + 1) v ∧ ¬ Overlaps (dst + 1) (src + 1) v.length := by
  obtain ⟨-, -, pointer, fits, rest⟩ := strAt_cons string
  have whole := string.fits
  unfold Overlaps at apart ⊢
  rw [List.length_cons] at whole apart
  have next := next_toNat (p := src) (by omega)
  rw [UInt64.lt_iff_toNat_lt] at apart ⊢
  refine ⟨⟨pointer, fits, fun i short => ?_, rest.nonzero⟩, ?_⟩
  · rw [← rest.bytes i short]
    show some (Function.update mem dst (mem src) _) = some (mem _)
    rw [Function.update_of_ne]
    intro here
    have place := congrArg UInt64.toNat here
    rw [toNat_add_ofNat (n := v.length + 1) (by omega) (by omega), next] at place
    omega
  · have one : (1 : UInt64).toNat = 1 := rfl
    have := dst.toNat_lt
    rw [next, UInt64.toNat_add, one]
    omega

/-- **The copy has the bytes of the string, and everything else is as it was.** -/
theorem copyString_apply (string : StrAt mem src v) (apart : ¬ Overlaps dst src v.length) (x : UInt64) :
    copyString mem dst src x = (v[(x - dst).toNat]?).getD (mem x) := by
  induction v generalizing mem dst src with
  | nil =>
      rw [copyString, dif_neg fun both => both.2 (strAt_nil string)]
      rfl
  | cons c v ih =>
      obtain ⟨first, nonzero, -⟩ := strAt_cons string
      obtain ⟨rest, apart'⟩ := string.step apart
      have fits := string.fits
      rw [List.length_cons] at fits
      rw [copyString, dif_pos ⟨string.pointer, first ▸ nonzero⟩, ih rest apart']
      by_cases here : x = dst
      · subst here
        rw [sub_next_self, List.getElem?_eq_none (by omega), UInt64.sub_self, Option.getD_none,
          Function.update_self, first]
        rfl
      · rw [sub_next here, List.getElem?_cons_succ, Function.update_of_ne here]

theorem sub_add_ofNat (dst : UInt64) {i : Nat} (small : i < 2 ^ 64) : (dst + UInt64.ofNat i - dst).toNat = i := by
  rw [UInt64.add_comm, UInt64.add_sub_cancel, UInt64.toNat_ofNat', Nat.mod_eq_of_lt small]

/-- The copy is the string exactly if its terminator is there already. -/
theorem copyString_cstr_iff (string : StrAt mem src v) (apart : ¬ Overlaps dst src v.length) :
    CStr (behind (copyString mem dst src) dst) v ↔ mem (dst + UInt64.ofNat v.length) = 0 := by
  have fits := string.fits
  have bytes (i : Nat) (short : i ≤ v.length) :
      behind (copyString mem dst src) dst i = some ((v[i]?).getD (mem (dst + UInt64.ofNat i))) := by
    show some (copyString mem dst src _) = _
    rw [copyString_apply string apart, sub_add_ofNat dst (by omega)]
  constructor
  · intro copy
    have last := copy.bytes v.length (Nat.le_refl _)
    rw [bytes v.length (Nat.le_refl _)] at last
    simpa using last
  · intro ended
    refine ⟨fun i short => ?_, string.string.nonzero⟩
    rw [bytes i short]
    by_cases last : i = v.length
    · simp [last, ended]
    · have inside : i < v.length := by omega
      simp [List.getElem?_append_left inside, inside]

theorem copyString_keeps {x : UInt64} (nonzero : mem x ≠ 0) : copyString mem dst src x ≠ 0 := by
  fun_induction copyString mem dst src with
  | case1 mem dst src some_ ih =>
      apply ih
      by_cases here : x = dst
      · rw [here, Function.update_self]
        exact some_.2
      · rwa [Function.update_of_ne here]
  | case2 mem dst src stop => exact nonzero

/-- Onto itself, a string is copied without end: no terminator is left to be met. -/
theorem copyString_over {d : Nat} (ahead : dst = src + UInt64.ofNat (d + 1))
    (nonzero : ∀ j ≤ d, mem (src + UInt64.ofNat j) ≠ 0) {k : Nat} (pointer : src ≠ 0)
    (fits : src.toNat + k < 2 ^ 64) : copyString mem dst src (dst + UInt64.ofNat k) ≠ 0 := by
  have first : mem src ≠ 0 := by
    have := nonzero 0 (Nat.zero_le d)
    rwa [show UInt64.ofNat 0 = 0 from rfl, UInt64.add_zero] at this
  rw [copyString, dif_pos ⟨pointer, first⟩]
  induction k generalizing mem dst src with
  | zero =>
      apply copyString_keeps
      rw [show UInt64.ofNat 0 = 0 from rfl, UInt64.add_zero, Function.update_self]
      exact first
  | succ k ih =>
      have next := next_toNat (p := src) (by omega)
      have pointer' : src + 1 ≠ 0 := by
        intro zero
        rw [zero] at next
        exact absurd next (Nat.succ_ne_zero _).symm
      have ahead' : dst + 1 = src + 1 + UInt64.ofNat (d + 1) := by
        rw [ahead, UInt64.add_assoc, UInt64.add_assoc, UInt64.add_comm 1]
      have nonzero' : ∀ j ≤ d, Function.update mem dst (mem src) (src + 1 + UInt64.ofNat j) ≠ 0 := by
        intro j short
        have place : src + 1 + UInt64.ofNat j = src + UInt64.ofNat (j + 1) := by
          rw [UInt64.ofNat_add, UInt64.add_assoc, UInt64.add_comm 1]
          rfl
        by_cases last : j = d
        · rw [place, last, ← ahead, Function.update_self]
          exact first
        · have inside := nonzero (j + 1) (by omega)
          rw [place]
          by_cases here : src + UInt64.ofNat (j + 1) = dst
          · rw [here, Function.update_self]
            exact first
          · rwa [Function.update_of_ne here]
      have first' : Function.update mem dst (mem src) (src + 1) ≠ 0 := by
        have := nonzero' 0 (Nat.zero_le d)
        rwa [show UInt64.ofNat 0 = 0 from rfl, UInt64.add_zero] at this
      have place : dst + UInt64.ofNat (k + 1) = dst + 1 + UInt64.ofNat k := by
        rw [UInt64.ofNat_add, UInt64.add_assoc, UInt64.add_comm (UInt64.ofNat k)]
        rfl
      rw [place, copyString, dif_pos ⟨pointer', first'⟩]
      exact ih ahead' nonzero' pointer' (by omega) first'

/-- **`strcpy` makes a copy exactly if the terminator is there already and the strings do not
overlap.** -/
theorem strcpy_cstr_iff (string : StrAt mem src v) (dst : UInt64) :
    CStr (behind (strcpy mem dst src).1 dst) v ↔
      mem (dst + UInt64.ofNat v.length) = 0 ∧ ¬ Overlaps dst src v.length := by
  by_cases overlaps : Overlaps dst src v.length
  · refine iff_of_false (fun copy => ?_) fun both => both.2 overlaps
    have fits := string.fits
    obtain ⟨after, before⟩ := overlaps
    have after := UInt64.lt_iff_toNat_lt.1 after
    have ahead : dst = src + UInt64.ofNat (dst.toNat - src.toNat - 1 + 1) := by
      apply UInt64.toNat_inj.1
      rw [toNat_add_ofNat (n := v.length + 1) (by omega) (by omega)]
      omega
    have last := copy.bytes v.length (Nat.le_refl _)
    have ended : copyString mem dst src (dst + UInt64.ofNat v.length) = 0 := by
      simpa [behind, strcpy] using last
    exact copyString_over ahead (fun j short => strAt_byte string (by omega)) string.pointer fits ended
  · rw [and_iff_left overlaps]
    exact copyString_cstr_iff string overlaps

end Strings

/-! ## The comparison -/

section Comparison

variable {s t : Chars} {v w : List UInt8}

theorem CStr.upTo (string : CStr s v) : CStr (s.upTo v.length) v := by
  refine ⟨fun i short => ?_, string.nonzero⟩
  rw [Chars.upTo, if_pos short, string.bytes i short]

/-- **Two strings are compared as they should be, if a difference or `n` ends the comparison
in time.** -/
theorem strncmp_strings (string : CStr s v) (string' : CStr t w) {n : Nat} (ends : v = w → n ≤ v.length + 1) :
    strncmp s t n = some (if (v ++ [0]).take n = (w ++ [0]).take n then 0 else 1) := by
  induction n generalizing s t v w with
  | zero => rfl
  | succ n ih =>
      cases v with
      | nil =>
          have stop := (cstr_nil_iff s).1 string
          cases w with
          | nil =>
              have none_ : n = 0 := Nat.le_zero.1 (Nat.le_of_succ_le_succ (ends rfl))
              simp [strncmp, stop, (cstr_nil_iff t).1 string', none_]
          | cons c w =>
              obtain ⟨first, nonzero, -⟩ := (cstr_cons_iff t c w).1 string'
              simp [strncmp, stop, first, Ne.symm nonzero]
      | cons a v =>
          obtain ⟨first, nonzero, rest⟩ := (cstr_cons_iff s a v).1 string
          cases w with
          | nil => simp [strncmp, first, (cstr_nil_iff t).1 string', nonzero]
          | cons c w =>
              obtain ⟨first', -, rest'⟩ := (cstr_cons_iff t c w).1 string'
              by_cases same : a = c
              · subst same
                have ends' : v = w → n ≤ v.length + 1 := fun same =>
                  Nat.le_of_succ_le_succ (ends (congrArg _ same))
                simp [strncmp, first, first', ih rest rest' ends']
              · simp [strncmp, first, first', same]

/-- Past the end of equal strings, the comparison reads on. -/
theorem strncmp_past (string : CStr s v) (string' : CStr t v) (unreadable : s (v.length + 1) = none) {n : Nat}
    (more : v.length + 1 < n) : strncmp s t n = none := by
  induction v generalizing s t n with
  | nil =>
      obtain ⟨n, rfl⟩ := Nat.exists_eq_add_of_lt more
      have stop := (cstr_nil_iff s).1 string
      have stop' := (cstr_nil_iff t).1 string'
      have later : s 1 = none := unreadable
      rw [show [].length + 1 + n + 1 = n + 1 + 1 by rw [List.length_nil]; omega]
      simp [strncmp, stop, stop', later]
  | cons a v ih =>
      obtain ⟨n, rfl⟩ := Nat.exists_eq_succ_of_ne_zero (Nat.ne_zero_of_lt more)
      obtain ⟨first, -, rest⟩ := (cstr_cons_iff s a v).1 string
      obtain ⟨first', -, rest'⟩ := (cstr_cons_iff t a v).1 string'
      have later := ih rest rest' unreadable (Nat.lt_of_succ_lt_succ more)
      simp [strncmp, first, first', later]

/-- **`strncmp` stays in two strings exactly if they differ or `n` is at most their length and one.** -/
theorem strncmp_stops_iff (string : CStr s v) (string' : CStr t w) (n : Nat) :
    (strncmp (s.upTo v.length) (t.upTo w.length) n).isSome = true ↔ (v = w → n ≤ v.length + 1) := by
  constructor
  · intro stops same
    subst same
    by_contra more
    have unreadable : s.upTo v.length (v.length + 1) = none := if_neg (Nat.not_succ_le_self _)
    rw [strncmp_past string.upTo string'.upTo unreadable (by omega)] at stops
    cases stops
  · intro ends
    rw [strncmp_strings string.upTo string'.upTo ends]
    rfl

end Comparison

/-! ## The search -/

section Search

variable {mem : Memory} {p q : UInt64} {v w : List UInt8}

theorem toUInt64_eq (i : UInt32) : i.toUInt64 = UInt64.ofNat i.toNat := by
  have := i.toNat_lt
  apply UInt64.toNat_inj.1
  rw [UInt32.toNat_toUInt64, UInt64.toNat_ofNat', Nat.mod_eq_of_lt (by omega)]

/-- The length, where 32 bits hold it. -/
theorem needleLength_some (string : StrAt mem q w) (short : w.length < 2 ^ 32) {fuel : Nat} {len : UInt32}
    (inside : len.toNat ≤ w.length) (enough : w.length - len.toNat < fuel) :
    needleLength mem q fuel len = some (UInt32.ofNat w.length) := by
  induction fuel generalizing len with
  | zero => omega
  | succ fuel ih =>
      rw [needleLength, toUInt64_eq]
      by_cases last : len.toNat = w.length
      · rw [last, if_neg (not_not.2 (strAt_end string)), ← last, UInt32.ofNat_toNat]
      · have next : (len + 1).toNat = len.toNat + 1 := by
          rw [UInt32.toNat_add]
          exact Nat.mod_eq_of_lt (by show len.toNat + 1 < 2 ^ 32; omega)
        rw [if_pos (strAt_byte string (by omega)), ih (by omega) (by omega)]

/-- The count goes round where they do not. -/
theorem needleLength_none (string : StrAt mem q w) (long : 2 ^ 32 ≤ w.length) (fuel : Nat) (len : UInt32) :
    needleLength mem q fuel len = none := by
  induction fuel generalizing len with
  | zero => rfl
  | succ fuel ih =>
      have small := len.toNat_lt
      rw [needleLength, toUInt64_eq, if_pos (strAt_byte string (by omega)), ih]

/-- The comparison at one place, from index `i` on: it never meets the end of the haystack in a
character that is the same. -/
theorem compareLoop_eq {i : UInt32} (string : CStr ((behind mem p).drop i.toNat) v)
    (string' : CStr ((behind mem q).drop i.toNat) w) (short : i.toNat + w.length < 2 ^ 32) :
    compareLoop mem p q w.length i = if w <+: v then .whole else .differs := by
  induction w generalizing v i with
  | nil => simp [compareLoop]
  | cons c w ih =>
      rw [List.length_cons] at short
      have next : (i + 1).toNat = i.toNat + 1 := by
        rw [UInt32.toNat_add]
        exact Nat.mod_eq_of_lt (by show i.toNat + 1 < 2 ^ 32; omega)
      obtain ⟨first', nonzero, rest'⟩ := (cstr_cons_iff _ _ _).1 string'
      rw [Chars.drop_first] at first'
      have byte' : mem (q + UInt64.ofNat i.toNat) = c := Option.some.inj first'
      rw [List.length_cons, compareLoop, toUInt64_eq, byte']
      cases v with
      | nil =>
          have stop := (cstr_nil_iff _).1 string
          rw [Chars.drop_first] at stop
          have byte : mem (p + UInt64.ofNat i.toNat) = 0 := Option.some.inj stop
          rw [byte, if_pos (Ne.symm nonzero), if_neg (by simp)]
      | cons a v =>
          obtain ⟨first, nonzero', rest⟩ := (cstr_cons_iff _ _ _).1 string
          rw [Chars.drop_first] at first
          have byte : mem (p + UInt64.ofNat i.toNat) = a := Option.some.inj first
          rw [byte]
          simp only [List.cons_prefix_cons]
          by_cases same : a = c
          · subst same
            rw [Chars.drop_drop, ← next] at rest rest'
            rw [if_neg (not_not.2 rfl), if_neg nonzero', ih rest rest' (by omega)]
            simp
          · rw [if_pos same, if_neg fun both => same both.1.symm]

/-- **The loop over the haystack stops at the first place where the needle occurs.** -/
theorem haystackLoop_eq (string : StrAt mem p v) (string' : StrAt mem q w) (some_ : w ≠ [])
    (short : w.length < 2 ^ 32) {fuel : Nat} (enough : v.length < fuel) :
    haystackLoop mem q (UInt32.ofNat w.length) fuel p =
      some (match firstAt w v with
        | some k => p + UInt64.ofNat k
        | none => 0) := by
  have count : (UInt32.ofNat w.length).toNat = w.length := by
    rw [UInt32.toNat_ofNat', Nat.mod_eq_of_lt short]
  induction v generalizing p fuel with
  | nil =>
      obtain ⟨fuel, rfl⟩ := Nat.exists_eq_succ_of_ne_zero (Nat.ne_zero_of_lt enough)
      rw [haystackLoop, if_pos (strAt_nil string), firstAt, if_neg some_]
  | cons a v ih =>
      obtain ⟨fuel, rfl⟩ := Nat.exists_eq_succ_of_ne_zero (Nat.ne_zero_of_lt enough)
      obtain ⟨first, nonzero, rest⟩ := strAt_cons string
      rw [List.length_cons] at enough
      have compared := compareLoop_eq (i := 0) string.string string'.string (by simpa using short)
      rw [haystackLoop, if_neg (first ▸ nonzero), count, compared, firstAt]
      by_cases here : w <+: a :: v
      · rw [if_pos here, if_pos here]
        dsimp only
        rw [show UInt64.ofNat 0 = 0 from rfl, UInt64.add_zero]
      · rw [if_neg here, if_neg here]
        dsimp only
        rw [ih rest (by omega)]
        cases firstAt w v with
        | none => rfl
        | some k =>
            rw [Option.map_some]
            dsimp only
            rw [UInt64.ofNat_add, UInt64.add_assoc, UInt64.add_comm (UInt64.ofNat k)]
            rfl

/-- What `strstr` returns where it returns. -/
theorem strstr_eq (string : StrAt mem p v) (string' : StrAt mem q w) (short : w.length < 2 ^ 32) {fuel : Nat}
    (enough : v.length < fuel) (enough' : w.length < fuel) :
    strstr mem p q fuel =
      some (match firstAt w v with
        | some k => p + UInt64.ofNat k
        | none => 0) := by
  unfold strstr
  cases w with
  | nil =>
      have found : firstAt [] v = some 0 := firstAt_eq_some_iff.2 (firstAt_zero_iff.2 List.nil_prefix)
      rw [if_pos (.inr (strAt_nil string')), found]
      dsimp only
      rw [show UInt64.ofNat 0 = 0 from rfl, UInt64.add_zero]
  | cons c w =>
      obtain ⟨first, nonzero, -⟩ := strAt_cons string'
      have counted : needleLength mem q fuel 0 = some _ := needleLength_some string' short (Nat.zero_le _) enough'
      rw [if_neg (not_or.2 ⟨string'.pointer, first ▸ nonzero⟩), counted]
      exact haystackLoop_eq string string' (List.cons_ne_nil _ _) short enough

/-- **`strstr` does what it is for exactly if 32 bits hold the length of the needle.** -/
theorem strstr_finds_iff (string : StrAt mem p v) (string' : StrAt mem q w) :
    (∃ r, Returns (strstr mem p q) r ∧ (r = 0 ↔ ¬ w <:+: v) ∧
      ∀ k, FirstAt w v k → r = p + UInt64.ofNat k) ↔ w.length < 2 ^ 32 := by
  constructor
  · rintro ⟨r, ⟨enough, returns⟩, -⟩
    by_contra long
    have long : 2 ^ 32 ≤ w.length := Nat.le_of_not_lt long
    have some_ : mem q ≠ 0 := by
      have := strAt_byte string' (i := 0) (by omega)
      rwa [show UInt64.ofNat 0 = 0 from rfl, UInt64.add_zero] at this
    have never := returns enough (Nat.le_refl _)
    rw [strstr, if_neg (not_or.2 ⟨string'.pointer, some_⟩), needleLength_none string' long] at never
    cases never
  · intro short
    have returns : Returns (strstr mem p q) _ := ⟨v.length + w.length + 1, fun fuel enough =>
      strstr_eq string string' short (by omega) (by omega)⟩
    refine ⟨_, returns, ?_, ?_⟩
    · rw [← firstAt_eq_none_iff]
      cases found : firstAt w v with
      | none => simp
      | some k =>
          exact iff_of_false (string.inside_ne (firstAt_eq_some_iff.1 found).le_length) nofun
    · intro k here
      rw [firstAt_eq_some_iff.2 here]

end Search

/-- **Where the three routines follow their C meaning.**  The destination of the copy has the
terminator already and does not overlap the string; equal strings are compared up to their
terminators at most; the needle is shorter than 2^32. -/
theorem string_routines_iff {mem : Memory} {s t : UInt64} {v w : List UInt8} (string : StrAt mem s v)
    (string' : StrAt mem t w) (dst n : UInt64) :
    Follows mem dst s t n v w ↔
      mem (dst + UInt64.ofNat v.length) = 0 ∧ ¬ (s < dst ∧ dst.toNat ≤ s.toNat + v.length) ∧
      (v = w → n.toNat ≤ v.length + 1) ∧ w.length < 2 ^ 32 := by
  rw [← and_assoc, ← Overlaps, ← strcpy_cstr_iff string dst,
    ← strncmp_stops_iff string.string string'.string n.toNat, ← strstr_finds_iff string string']
  constructor
  · rintro ⟨copies, -, stops, finds⟩
    exact ⟨copies, stops, finds⟩
  · rintro ⟨copies, stops, finds⟩
    have ends := (strncmp_stops_iff string.string string'.string n.toNat).1 stops
    refine ⟨copies, ?_, stops, finds⟩
    rw [strncmp_strings string.string string'.string ends, Option.some.injEq]
    split
    · exact iff_of_true rfl ‹_›
    · exact iff_of_false (by decide) ‹_›

/-- "console" at 64 and "sol" at 128, and zeros everywhere else. -/
def words : Memory := fun p =>
  if 64 ≤ p then if 128 ≤ p then [0x73, 0x6f, 0x6c].getD (p.toNat - 128) 0
    else [0x63, 0x6f, 0x6e, 0x73, 0x6f, 0x6c, 0x65].getD (p.toNat - 64) 0
  else 0

theorem strAt_words : StrAt words 64 [0x63, 0x6f, 0x6e, 0x73, 0x6f, 0x6c, 0x65] :=
  ⟨by decide, by decide, by decide, by decide⟩

theorem strAt_words' : StrAt words 128 [0x73, 0x6f, 0x6c] := ⟨by decide, by decide, by decide, by decide⟩

/-- To an address behind which there is a zero, compared for five characters, and the needle
found at the fourth. -/
theorem string_routines_zeroed :
    Follows words 192 64 128 5 [0x63, 0x6f, 0x6e, 0x73, 0x6f, 0x6c, 0x65] [0x73, 0x6f, 0x6c] ∧
      Returns (strstr words 64 128) 67 := by
  have follows := (string_routines_iff strAt_words strAt_words' 192 5).2 (by decide)
  obtain ⟨r, returns, -, first⟩ := follows.finds
  have place : r = 67 := first 3 (firstAt_eq_some_iff.1 (by decide))
  exact ⟨follows, place ▸ returns⟩

/-- "a" at 64 and at 128, and bytes that are their addresses everywhere else. -/
def sample : Memory := fun p =>
  if p = 64 ∨ p = 128 then 0x61 else if p = 65 ∨ p = 129 then 0 else p.toUInt8

theorem strAt_sample : StrAt sample 64 [0x61] := ⟨by decide, by decide, by decide, by decide⟩

theorem strAt_sample' : StrAt sample 128 [0x61] := ⟨by decide, by decide, by decide, by decide⟩

/-- **The copy of "a" has no end, and "a" is not "a" for three characters.** -/
theorem string_routines_unended :
    StrAt sample 64 [0x61] ∧ StrAt sample 128 [0x61] ∧ ¬ CStr (behind (strcpy sample 192 64).1 192) [0x61] ∧
      strncmp (behind sample 64) (behind sample 128) 3 = some 1 ∧ ¬ Follows sample 192 64 128 3 [0x61] [0x61] := by
  have copy : ¬ CStr (behind (strcpy sample 192 64).1 192) [0x61] := fun copy =>
    absurd ((strcpy_cstr_iff strAt_sample 192).1 copy).1 (by decide)
  exact ⟨strAt_sample, strAt_sample', copy, by decide, fun follows => copy follows.copies⟩

end Minus.Lib.String
