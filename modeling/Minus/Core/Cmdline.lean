/-
# Core.Cmdline — the boot arguments

`parse_bootargs` of `kernel/core/boot/cmdline.c`.  It copies `/chosen/bootargs` to
a buffer, cuts it at the spaces, copies each token to a second buffer and takes
what it knows from it.  An access outside one of the four arrays, or a string that
does not end in one, has no result.
-/
import Mathlib.Data.List.TakeWhile
import Minus.Lib.Fdt
import Minus.Lib.String

namespace Minus.Core.Cmdline

set_option autoImplicit false

open Minus.Lib Minus.Lib.String
open Minus.Mm.Boot (fdtErrNotfound)

/-- `struct bootargs`. -/
structure Bootargs where
  rootDevice : Vector UInt8 32
  rootFstype : Vector UInt8 16
  rootRo : Int

def einval : Int := 22
def enoent : Int := 2

/-- `while (*p == ' ') p++;` -/
def skipSpaces (buf : Chars) : Nat → Nat → Option Nat
  | 0, _ => none
  | fuel + 1, p => do
      if (← buf p) = 0x20 then skipSpaces buf fuel (p + 1)
      else return p

/-- `while (*p && *p != ' ') p++;` -/
def skipToken (buf : Chars) : Nat → Nat → Option Nat
  | 0, _ => none
  | fuel + 1, p => do
      let c ← buf p
      if c ≠ 0 ∧ c ≠ 0x20 then skipToken buf fuel (p + 1)
      else return p

/-- The copy of a value, as much of it as fits, to a field of `args`. -/
def setField {size : Nat} (field : Vector UInt8 size) (val : Chars) : Option (Vector UInt8 size) := do
  let n ← strlen val 64
  let n := if n ≥ size then size - 1 else n
  let field ← memcpy field val n
  store field n 0

/-- The token in `tok`, once it is a string. -/
def applyToken (args : Bootargs) (tok : Chars) : Option Bootargs := do
  if (← strncmp tok (ofList (ascii "root=")) 5) = 0 then
    return { args with rootDevice := ← setField args.rootDevice (tok.drop 5) }
  else if (← strncmp tok (ofList (ascii "rootfstype=")) 11) = 0 then
    return { args with rootFstype := ← setField args.rootFstype (tok.drop 11) }
  else if (← strcmp tok (ofList (ascii "ro" ++ [0])) 64) = 0 then return { args with rootRo := 1 }
  else if (← strcmp tok (ofList (ascii "rw" ++ [0])) 64) = 0 then return { args with rootRo := 0 }
  else return args

/-- `while (*p)`. -/
def tokenLoop (buf : Chars) : Nat → Nat → Vector UInt8 64 → Bootargs → Option Bootargs
  | 0, _, _, _ => none
  | fuel + 1, p, tok, args => do
      if (← buf p) = 0 then return args
      let start ← skipSpaces buf 256 p
      if (← buf start) = 0 then return args
      let p ← skipToken buf 256 start
      let toklen := if p - start ≥ 64 then 63 else p - start
      let tok ← memcpy tok (buf.drop start) toklen
      let tok ← store tok toklen 0
      let args ← applyToken args (chars tok)
      tokenLoop buf fuel p tok args

/-- The value returned and the arguments, from the contents that the arrays on the stack have at first. -/
def parseBootargs (fdt : Fdt) (args : Option Bootargs) (buf : Vector UInt8 256) (tok : Vector UInt8 64) :
    Option (Int × Option Bootargs) := do
  let some args := args | return (-einval, none)
  let args := { args with
    rootDevice := ← store args.rootDevice 0 0, rootFstype := ← store args.rootFstype 0 0, rootRo := 0 }
  let chosen := fdt.pathOffset "/chosen"
  if chosen < 0 then return (-enoent, some args)
  match fdt.getprop chosen "bootargs" with
  | .error _ => return (-enoent, some args)
  | .ok prop =>
      if prop.length = 0 then return (-enoent, some args)
      let len := if prop.length ≥ 256 then 255 else prop.length
      let buf ← memcpy buf (ofList prop) len
      let buf ← store buf len 0
      let args ← tokenLoop (chars buf) 256 0 tok args
      return (0, some args)

/-! ## What the arguments say -/

/-- The tokens between the spaces. -/
def tokens (s : List UInt8) : List (List UInt8) := (s.splitOn 0x20).filter (· ≠ [])

/-- The value of the last token that starts with `name`; empty if there is none. -/
def lastValue (name : List UInt8) (toks : List (List UInt8)) : List UInt8 :=
  ((toks.filter fun t => name <+: t).getLast?.getD []).drop name.length

/-- The last token that is `ro` or `rw` is `ro`. -/
def lastRo (toks : List (List UInt8)) : Bool :=
  (toks.filter fun t => t = ascii "ro" ∨ t = ascii "rw").getLast? = some (ascii "ro")

/-- `args` are what the tokens say. -/
structure Tells (args : Bootargs) (toks : List (List UInt8)) : Prop where
  device : CStr (chars args.rootDevice) ((lastValue (ascii "root=") toks).take 31)
  fstype : CStr (chars args.rootFstype) ((lastValue (ascii "rootfstype=") toks).take 15)
  ro : args.rootRo = if lastRo toks then 1 else 0

/-! ## Cutting at the spaces -/

@[simp] theorem tokens_space (w : List UInt8) : tokens (0x20 :: w) = tokens w := by
  have split : (0x20 :: w).splitOn (0x20 : UInt8) = [] :: w.splitOn 0x20 := by
    rw [List.splitOn_cons_eq_if_modifyHead]
    rfl
  rw [tokens, tokens, split]
  simp

theorem tokens_spaces (w : List UInt8) : tokens (w.dropWhile (· = 0x20)) = tokens w := by
  induction w with
  | nil => rfl
  | cons c w ih =>
      by_cases space : c = 0x20
      · subst space
        rw [List.dropWhile_cons_of_pos (by simp), ih, tokens_space]
      · rw [List.dropWhile_cons_of_neg (by simpa using space)]

theorem tokens_token {w : List UInt8} (present : w.takeWhile (· ≠ 0x20) ≠ []) :
    tokens w = w.takeWhile (· ≠ 0x20) :: tokens (w.dropWhile (· ≠ 0x20)) := by
  have clean : (0x20 : UInt8) ∉ w.takeWhile (· ≠ 0x20) := fun inside => by
    simpa using List.mem_takeWhile_imp inside
  have whole := @List.takeWhile_append_dropWhile _ (fun c : UInt8 => decide (c ≠ 0x20)) w
  cases behind : w.dropWhile (· ≠ 0x20) with
  | nil =>
      rw [behind, List.append_nil] at whole
      rw [whole] at present clean ⊢
      rw [tokens, List.splitOn_eq_singleton clean]
      simp [present, tokens]
  | cons c rest =>
      have space : c = 0x20 := by
        have head := @List.head?_dropWhile_not _ (fun c : UInt8 => decide (c ≠ 0x20)) w
        rw [behind] at head
        simpa using head
      subst space
      rw [behind] at whole
      generalize w.takeWhile (· ≠ 0x20) = t at present clean whole ⊢
      rw [tokens_space, tokens, ← whole, List.splitOn_append_cons_self_of_not_mem clean]
      simp [present, tokens]

theorem skipSpaces_some {buf : Chars} {p : Nat} {w : List UInt8} (string : CStr (buf.drop p) w) {fuel : Nat}
    (enough : w.length < fuel) : skipSpaces buf fuel p = some (p + (w.takeWhile (· = 0x20)).length) := by
  induction w generalizing p fuel with
  | nil =>
      obtain ⟨fuel, rfl⟩ := Nat.exists_eq_succ_of_ne_zero (Nat.ne_zero_of_lt enough)
      have stop := (cstr_nil_iff _).1 string
      rw [Chars.drop_first] at stop
      simp [skipSpaces, stop]
  | cons c w ih =>
      obtain ⟨fuel, rfl⟩ := Nat.exists_eq_succ_of_ne_zero (Nat.ne_zero_of_lt enough)
      obtain ⟨first, nonzero, rest⟩ := (cstr_cons_iff _ c w).1 string
      rw [Chars.drop_first] at first
      rw [Chars.drop_drop] at rest
      rw [List.length_cons] at enough
      by_cases space : c = 0x20
      · simp [skipSpaces, first, space, ih rest (show w.length < fuel by omega)]
        omega
      · simp [skipSpaces, first, space]

theorem skipToken_some {buf : Chars} {p : Nat} {w : List UInt8} (string : CStr (buf.drop p) w) {fuel : Nat}
    (enough : w.length < fuel) : skipToken buf fuel p = some (p + (w.takeWhile (· ≠ 0x20)).length) := by
  induction w generalizing p fuel with
  | nil =>
      obtain ⟨fuel, rfl⟩ := Nat.exists_eq_succ_of_ne_zero (Nat.ne_zero_of_lt enough)
      have stop := (cstr_nil_iff _).1 string
      rw [Chars.drop_first] at stop
      simp [skipToken, stop]
  | cons c w ih =>
      obtain ⟨fuel, rfl⟩ := Nat.exists_eq_succ_of_ne_zero (Nat.ne_zero_of_lt enough)
      obtain ⟨first, nonzero, rest⟩ := (cstr_cons_iff _ c w).1 string
      rw [Chars.drop_first] at first
      rw [Chars.drop_drop] at rest
      rw [List.length_cons] at enough
      by_cases space : c = 0x20
      · simp [skipToken, first, space]
      · simp [skipToken, first, nonzero, space, ih rest (show w.length < fuel by omega)]
        omega

/-! ## One token -/

theorem lastValue_append (name : List UInt8) (toks : List (List UInt8)) (t : List UInt8) :
    lastValue name (toks ++ [t]) = if name <+: t then t.drop name.length else lastValue name toks := by
  by_cases starts : name <+: t <;> simp [lastValue, List.filter_append, starts]

theorem lastRo_append (toks : List (List UInt8)) (t : List UInt8) :
    lastRo (toks ++ [t]) = if t = ascii "ro" ∨ t = ascii "rw" then decide (t = ascii "ro") else lastRo toks := by
  by_cases known : t = ascii "ro" ∨ t = ascii "rw" <;> simp [lastRo, List.filter_append, known]

theorem setField_some {size : Nat} (field : Vector UInt8 size) {val : Chars} {v : List UInt8} (string : CStr val v)
    (short : v.length < 64) (room : 0 < size) :
    ∃ f, setField field val = some f ∧ CStr (chars f) (v.take (size - 1)) := by
  have fits : (v.take (size - 1)).length < size := by
    rw [List.length_take]
    omega
  rw [← List.take_append_drop (size - 1) v] at string
  obtain ⟨b, f, copied, stored, result⟩ := copied_cstr field string fits
  refine ⟨f, ?_, result⟩
  have length : (if v.length ≥ size then size - 1 else v.length) = (v.take (size - 1)).length := by
    rw [List.length_take]
    split <;> omega
  rw [List.take_append_drop] at string
  simp only [setField, strlen_cstr string short, Option.bind_eq_bind, Option.bind_some, length, copied, stored]

/-- The tests exclude each other. -/
theorem device_only {t : List UInt8} (device : ascii "root=" <+: t) :
    ¬ ascii "rootfstype=" <+: t ∧ t ≠ ascii "ro" ∧ t ≠ ascii "rw" := by
  refine ⟨fun fstype => ?_, ?_, ?_⟩
  · have nested := List.prefix_of_prefix_length_le device fstype (by decide)
    exact absurd nested (by decide)
  · rintro rfl
    exact absurd device (by decide)
  · rintro rfl
    exact absurd device (by decide)

theorem fstype_only {t : List UInt8} (fstype : ascii "rootfstype=" <+: t) : t ≠ ascii "ro" ∧ t ≠ ascii "rw" := by
  constructor
  · rintro rfl
    exact absurd fstype (by decide)
  · rintro rfl
    exact absurd fstype (by decide)

theorem cstr_literal {w : List UInt8} (nonzero : (0 : UInt8) ∉ w) : CStr (ofList (w ++ [0])) w :=
  ⟨fun _ _ => rfl, nonzero⟩

theorem lastRo_of_ne {past : List (List UInt8)} {t : List UInt8} (notRo : t ≠ ascii "ro") (notRw : t ≠ ascii "rw") :
    lastRo (past ++ [t]) = lastRo past := by
  rw [lastRo_append, if_neg fun either => either.elim notRo notRw]

section Token

variable {args : Bootargs} {past : List (List UInt8)} {tok : Chars} {t : List UInt8}

theorem strncmp_device (string : CStr tok t) :
    strncmp tok (ofList (ascii "root=")) 5 = some (if ascii "root=" <+: t then 0 else 1) :=
  strncmp_cstr string (by decide)

theorem strncmp_fstype (string : CStr tok t) :
    strncmp tok (ofList (ascii "rootfstype=")) 11 = some (if ascii "rootfstype=" <+: t then 0 else 1) :=
  strncmp_cstr string (by decide)

theorem applyToken_device (told : Tells args past) (string : CStr tok t) (short : t.length < 64)
    (device : ascii "root=" <+: t) : ∃ args', applyToken args tok = some args' ∧ Tells args' (past ++ [t]) := by
  obtain ⟨notFstype, notRo, notRw⟩ := device_only device
  have onDevice := strncmp_device string
  rw [if_pos device] at onDevice
  have split := device
  obtain ⟨value, rfl⟩ := split
  rw [List.length_append] at short
  obtain ⟨field, stored, result⟩ := setField_some args.rootDevice string.drop (show value.length < 64 by omega) (by decide)
  have stored : setField args.rootDevice (tok.drop 5) = some field := stored
  refine ⟨{ args with rootDevice := field }, ?_, ?_, ?_, ?_⟩
  · simp [applyToken, onDevice, stored]
  · rw [lastValue_append, if_pos device, List.drop_left]
    exact result
  · rw [lastValue_append, if_neg notFstype]
    exact told.fstype
  · rw [lastRo_of_ne notRo notRw]
    exact told.ro

theorem applyToken_fstype (told : Tells args past) (string : CStr tok t) (short : t.length < 64)
    (device : ¬ ascii "root=" <+: t) (fstype : ascii "rootfstype=" <+: t) :
    ∃ args', applyToken args tok = some args' ∧ Tells args' (past ++ [t]) := by
  obtain ⟨notRo, notRw⟩ := fstype_only fstype
  have onDevice := strncmp_device string
  have onFstype := strncmp_fstype string
  rw [if_neg device] at onDevice
  rw [if_pos fstype] at onFstype
  have split := fstype
  obtain ⟨value, rfl⟩ := split
  rw [List.length_append] at short
  obtain ⟨field, stored, result⟩ := setField_some args.rootFstype string.drop (show value.length < 64 by omega) (by decide)
  have stored : setField args.rootFstype (tok.drop 11) = some field := stored
  refine ⟨{ args with rootFstype := field }, ?_, ?_, ?_, ?_⟩
  · simp [applyToken, onDevice, onFstype, stored]
  · rw [lastValue_append, if_neg device]
    exact told.device
  · rw [lastValue_append, if_pos fstype, List.drop_left]
    exact result
  · rw [lastRo_of_ne notRo notRw]
    exact told.ro

/-- One token adds to the arguments what it says. -/
theorem applyToken_tells (told : Tells args past) (string : CStr tok t) (short : t.length < 64) :
    ∃ args', applyToken args tok = some args' ∧ Tells args' (past ++ [t]) := by
  by_cases device : ascii "root=" <+: t
  · exact applyToken_device told string short device
  by_cases fstype : ascii "rootfstype=" <+: t
  · exact applyToken_fstype told string short device fstype
  have onDevice := strncmp_device string
  have onFstype := strncmp_fstype string
  have onRo := strcmp_cstr string (cstr_literal (w := ascii "ro") (by decide)) short
  have onRw := strcmp_cstr string (cstr_literal (w := ascii "rw") (by decide)) short
  rw [if_neg device] at onDevice
  rw [if_neg fstype] at onFstype
  have kept : CStr (chars args.rootDevice) ((lastValue (ascii "root=") (past ++ [t])).take 31) ∧
      CStr (chars args.rootFstype) ((lastValue (ascii "rootfstype=") (past ++ [t])).take 15) := by
    rw [lastValue_append, lastValue_append, if_neg device, if_neg fstype]
    exact ⟨told.device, told.fstype⟩
  by_cases isRo : t = ascii "ro"
  · rw [if_pos isRo] at onRo
    refine ⟨{ args with rootRo := 1 }, ?_, kept.1, kept.2, ?_⟩
    · simp [applyToken, onDevice, onFstype, onRo]
    · simp [lastRo_append, isRo]
  rw [if_neg isRo] at onRo
  by_cases isRw : t = ascii "rw"
  · rw [if_pos isRw] at onRw
    refine ⟨{ args with rootRo := 0 }, ?_, kept.1, kept.2, ?_⟩
    · simp [applyToken, onDevice, onFstype, onRo, onRw]
    · rw [lastRo_append, if_pos (Or.inr isRw)]
      simp [isRo]
  · rw [if_neg isRw] at onRw
    refine ⟨args, ?_, kept.1, kept.2, ?_⟩
    · simp [applyToken, onDevice, onFstype, onRo, onRw]
    · rw [lastRo_of_ne isRo isRw]
      exact told.ro

end Token

/-! ## All tokens -/

/-- A copied token is cut at 63 bytes. -/
theorem copied_token (a : Vector UInt8 64) {src : Chars} {t rest : List UInt8} (string : CStr src (t ++ rest)) :
    let toklen := if t.length ≥ 64 then 63 else t.length
    ∃ b b', memcpy a src toklen = some b ∧ store b toklen 0 = some b' ∧ CStr (chars b') (t.take 63) := by
  intro toklen
  have length : (t.take 63).length = toklen := by
    simp only [List.length_take, toklen]
    split <;> omega
  have whole : t ++ rest = t.take 63 ++ (t.drop 63 ++ rest) := by
    rw [← List.append_assoc, List.take_append_drop]
  rw [whole] at string
  rw [← length]
  apply copied_cstr a string
  rw [List.length_take]
  omega

/-- One token: it ends where `skipToken` says, fits into the second buffer, and is taken from there. -/
theorem token_taken {buf : Chars} {start : Nat} {v : List UInt8} {args : Bootargs} {past : List (List UInt8)}
    (string : CStr (buf.drop start) v) (short : v.length < 256) (told : Tells args past) (tok : Vector UInt8 64) :
    let token := v.takeWhile (· ≠ 0x20)
    let toklen := if token.length ≥ 64 then 63 else token.length
    ∃ b b' args', skipToken buf 256 start = some (start + token.length) ∧ memcpy tok (buf.drop start) toklen = some b ∧
      store b toklen 0 = some b' ∧ applyToken args (chars b') = some args' ∧ Tells args' (past ++ [token.take 63]) := by
  intro token toklen
  have ended := skipToken_some string short
  rw [← @List.takeWhile_append_dropWhile _ (fun c : UInt8 => decide (c ≠ 0x20)) v] at string
  obtain ⟨b, b', copied, stored, result⟩ := copied_token tok string
  have cut : (token.take 63).length < 64 := by
    rw [List.length_take]
    omega
  obtain ⟨args', applied, told'⟩ := applyToken_tells told result cut
  exact ⟨b, b', args', ended, copied, stored, applied, told'⟩

/-- The loop comes to the end of the buffer and has taken every token, cut at 63 bytes. -/
theorem tokenLoop_tells {buf : Chars} {w : List UInt8} (fuel p : Nat) (tok : Vector UInt8 64) {args : Bootargs}
    {past : List (List UInt8)} (string : CStr (buf.drop p) w) (short : w.length < 256) (enough : w.length < fuel)
    (told : Tells args past) :
    ∃ args', tokenLoop buf fuel p tok args = some args' ∧ Tells args' (past ++ (tokens w).map (List.take 63)) := by
  induction fuel generalizing w p tok args past with
  | zero => omega
  | succ fuel ih =>
      cases w with
      | nil =>
          have stop := (cstr_nil_iff _).1 string
          rw [Chars.drop_first] at stop
          exact ⟨args, by simp [tokenLoop, stop], by simpa [tokens] using told⟩
      | cons c w =>
          obtain ⟨first, nonzero, -⟩ := (cstr_cons_iff _ c w).1 string
          rw [Chars.drop_first] at first
          have skipped := skipSpaces_some string short
          have string := string.behind (· = 0x20)
          have shorter := (List.dropWhile_sublist (l := c :: w) (· = 0x20)).length_le
          have clean := @List.head?_dropWhile_not _ (fun c : UInt8 => decide (c = 0x20)) (c :: w)
          rw [← tokens_spaces]
          generalize p + ((c :: w).takeWhile (· = 0x20)).length = start at skipped string
          generalize (c :: w).dropWhile (· = 0x20) = v at string shorter clean ⊢
          cases v with
          | nil =>
              have stop := (cstr_nil_iff _).1 string
              rw [Chars.drop_first] at stop
              exact ⟨args, by simp [tokenLoop, first, skipped, stop], by simpa [tokens] using told⟩
          | cons d v =>
              obtain ⟨first', nonzero', -⟩ := (cstr_cons_iff _ d v).1 string
              rw [Chars.drop_first] at first'
              have present : (d :: v).takeWhile (· ≠ 0x20) ≠ [] := by
                have notSpace : d ≠ 0x20 := by simpa using clean
                simp [notSpace]
              obtain ⟨b, b', args', ended, copied, stored, applied, told'⟩ := token_taken string (by omega) told tok
              have parts := congrArg List.length (@List.takeWhile_append_dropWhile _ (fun c : UInt8 => decide (c ≠ 0x20)) (d :: v))
              have some_ := List.length_pos_iff.2 present
              rw [List.length_append] at parts
              obtain ⟨args'', looped, told''⟩ := ih _ b' (string.behind (· ≠ 0x20)) (by omega) (by omega) told'
              refine ⟨args'', ?_, ?_⟩
              · simp only [tokenLoop, first, nonzero, skipped, first', nonzero', ended, Nat.add_sub_cancel_left, copied,
                  stored, applied, looped, Option.bind_eq_bind, Option.bind_some, if_false]
              · rw [List.append_assoc] at told''
                rw [tokens_token present]
                exact told''

/-- What `parse_bootargs` reads of a property. -/
def bufferString (prop : List UInt8) : List UInt8 := (prop.take 255).takeWhile (· ≠ 0)

theorem bufferString_cstr (buf : Vector UInt8 256) (prop : List UInt8) :
    let len := if prop.length ≥ 256 then 255 else prop.length
    ∃ b b', memcpy buf (ofList prop) len = some b ∧ store b len 0 = some b' ∧ CStr (chars b') (bufferString prop) := by
  intro len
  have length : (prop.take 255).length = len := by
    simp only [List.length_take, len]
    split <;> omega
  have bound : len < 256 := by
    simp only [len]
    split <;> omega
  have within : len ≤ prop.length := by
    simp only [len]
    split <;> omega
  obtain ⟨b, copied, bytes⟩ := memcpy_some buf (ofList prop) (Nat.le_of_lt bound) fun i short => by
    simp [ofList, show i < prop.length by omega]
  obtain ⟨b', stored, bytes'⟩ := store_some b 0 bound
  refine ⟨b, b', copied, stored, cstr_of_bytes fun i short => ?_⟩
  rw [bytes', bytes]
  by_cases last : i = len
  · simp [last, ← length]
  · have inside : i < len := by omega
    rw [if_neg last, if_pos inside, List.getElem?_append_left (by omega), List.getElem?_take_of_lt (by omega), ofList]

theorem bufferString_of_string {s : List UInt8} (nonzero : (0 : UInt8) ∉ s) (short : s.length < 256) :
    bufferString (s ++ [0]) = s := by
  have all : s.takeWhile (· ≠ 0) = s := by
    rw [List.takeWhile_eq_self_iff]
    intro c inside
    simpa using ne_of_mem_of_not_mem inside nonzero
  by_cases fits : s.length = 255
  · rw [bufferString, ← fits, List.take_left, all]
  · rw [bufferString, List.take_of_length_le (by rw [List.length_append]; simp; omega),
      List.takeWhile_append_of_pos (by simpa using fun c inside => ne_of_mem_of_not_mem inside nonzero)]
    simp

theorem length_bufferString_lt (prop : List UInt8) : (bufferString prop).length < 256 := by
  have cut := (List.takeWhile_sublist (l := prop.take 255) (· ≠ 0)).length_le
  rw [List.length_take] at cut
  rw [bufferString]
  omega

/-- The arguments are emptied first. -/
theorem emptied_tells (args : Bootargs) :
    ∃ device fstype, store args.rootDevice 0 0 = some device ∧ store args.rootFstype 0 0 = some fstype ∧
      Tells ⟨device, fstype, 0⟩ [] := by
  obtain ⟨device, storedDevice, bytesDevice⟩ := store_some args.rootDevice 0 (show 0 < 32 by decide)
  obtain ⟨fstype, storedFstype, bytesFstype⟩ := store_some args.rootFstype 0 (show 0 < 16 by decide)
  refine ⟨device, fstype, storedDevice, storedFstype, ?_, ?_, rfl⟩
  · exact (cstr_nil_iff _).2 (by simp [bytesDevice])
  · exact (cstr_nil_iff _).2 (by simp [bytesFstype])

/-- No access leaves its array, whatever the property holds; a property that is read is read as its
tokens, cut at 63 bytes. -/
theorem parseBootargs_some (fdt : Fdt) (args : Bootargs) (buf : Vector UInt8 256) (tok : Vector UInt8 64) :
    ∃ r out, parseBootargs fdt (some args) buf tok = some (r, some out) ∧
      ∀ prop, 0 ≤ fdt.pathOffset "/chosen" → fdt.getprop (fdt.pathOffset "/chosen") "bootargs" = .ok prop →
        prop ≠ [] → r = 0 ∧ Tells out ((tokens (bufferString prop)).map (List.take 63)) := by
  obtain ⟨device, fstype, storedDevice, storedFstype, told⟩ := emptied_tells args
  by_cases chosen : fdt.pathOffset "/chosen" < 0
  · refine ⟨-enoent, ⟨device, fstype, 0⟩, by simp [parseBootargs, storedDevice, storedFstype, chosen], ?_⟩
    intro prop found
    omega
  · cases answer : fdt.getprop (fdt.pathOffset "/chosen") "bootargs" with
    | error err =>
        refine ⟨-enoent, ⟨device, fstype, 0⟩, by simp [parseBootargs, storedDevice, storedFstype, chosen, answer], ?_⟩
        intro prop _ read
        cases read
    | ok prop =>
        by_cases empty : prop.length = 0
        · refine ⟨-enoent, ⟨device, fstype, 0⟩, by simp [parseBootargs, storedDevice, storedFstype, chosen, answer, empty], ?_⟩
          intro prop' _ read present
          obtain rfl := Except.ok.inj read
          exact absurd (List.length_eq_zero_iff.1 empty) present
        · obtain ⟨b, b', copied, stored, string⟩ := bufferString_cstr buf prop
          obtain ⟨out, looped, told⟩ :=
            @tokenLoop_tells (chars b') _ 256 0 tok _ _ string (length_bufferString_lt prop)
              (length_bufferString_lt prop) told
          refine ⟨0, out, ?_, ?_⟩
          · simp [parseBootargs, storedDevice, storedFstype, chosen, answer, empty, copied, stored, looped]
          · intro prop' _ read _
            obtain rfl := Except.ok.inj read
            exact ⟨rfl, told⟩

/-- Every access is in bounds, and a string of tokens that fit is read as what its tokens say. -/
theorem parseBootargs_tells (fdt : Fdt) (args : Bootargs) (buf : Vector UInt8 256) (tok : Vector UInt8 64) :
    (parseBootargs fdt (some args) buf tok).isSome ∧
      ∀ s : List UInt8, 0 ≤ fdt.pathOffset "/chosen" →
        fdt.getprop (fdt.pathOffset "/chosen") "bootargs" = .ok (s ++ [0]) → (0 : UInt8) ∉ s → s.length < 256 →
        (∀ t ∈ tokens s, t.length ≤ 63) →
        ∃ out, parseBootargs fdt (some args) buf tok = some (0, some out) ∧ Tells out (tokens s) := by
  obtain ⟨r, out, result, read⟩ := parseBootargs_some fdt args buf tok
  refine ⟨by simp [result], fun s chosen answer nonzero short fit => ?_⟩
  obtain ⟨rfl, told⟩ := read _ chosen answer (by simp)
  have whole : (tokens s).map (List.take 63) = tokens s := by
    rw [List.map_congr_left fun t inside => List.take_of_length_le (fit t inside), List.map_id']
  rw [bufferString_of_string nonzero short, whole] at told
  exact ⟨out, result, told⟩

/-- A tree whose `/chosen` says `rw  root=/dev/sda ro`. -/
def readOnlyTree : Fdt where
  pathOffset _ := 0
  parentOffset _ := fdtErrNotfound
  getName _ := none
  nodeOffsetByPhandle _ := fdtErrNotfound
  getprop _ _ := .ok (ascii "rw  root=/dev/sda ro" ++ [0])
  int _ _ _ same := by
    obtain rfl := Except.ok.inj same
    decide
  parent_lt _ _ := by contradiction

theorem parseBootargs_tells_readOnly : ∃ out,
    parseBootargs readOnlyTree (some ⟨.replicate 32 1, .replicate 16 1, 7⟩) (.replicate 256 1) (.replicate 64 1) =
      some (0, some out) ∧
    CStr (chars out.rootDevice) (ascii "/dev/sda") ∧ CStr (chars out.rootFstype) [] ∧ out.rootRo = 1 := by
  obtain ⟨out, result, told⟩ := (parseBootargs_tells readOnlyTree ⟨.replicate 32 1, .replicate 16 1, 7⟩
    (.replicate 256 1) (.replicate 64 1)).2 (ascii "rw  root=/dev/sda ro") (by decide) rfl (by decide) (by decide) (by decide)
  exact ⟨out, result, told.device, told.fstype, told.ro⟩

end Minus.Core.Cmdline
