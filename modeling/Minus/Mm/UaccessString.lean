/-
# Mm.UaccessString — strings of the current program

What `strncpy_from_user` makes of a string in user memory.  The outer loop ends with one
byte left, kept for the terminator, so that a string that fills `n` bytes is taken without
its own terminator and reported like a fault (`strncpy_from_user_iff`).

`strncpyLoop_spec` says how far the two loops get: to the first byte that is 0 or
in no vregion, of the first `n - 1`.
-/
import Minus.Mm.Uaccess

namespace Minus.Mm.Uaccess

set_option autoImplicit false

open Minus.Theory
open Minus.Core.Mmu (Memory pageSize)
open Minus.Mm.AddressSpace
open Minus.Mm.Buddy (Pfn)
open Minus.Proc.Loader (pageByte)

section Strings

variable {vs : Vspace} {mem : Memory} {addr : UInt64}

/-- Byte `i` of the range, in the page that is found for it. -/
def userByte (vs : Vspace) (mem : Memory) (addr : UInt64) (i : Nat) : UInt8 := bytes mem (pageLoc vs addr i)

/-- Byte `i` of the range as the kernel reads it. -/
def aliasByte (vs : Vspace) (mem : Memory) (addr : UInt64) (i : Nat) : UInt8 := bytes mem (aliasLoc vs addr i)

/-- A string of `len` characters at `addr`, its terminator included in the mapped range. -/
structure StringAt (vs : Vspace) (addr : UInt64) (byte : Nat → UInt8) (len : Nat) : Prop where
  mapped : ∀ i ≤ len, Mapped vs addr i
  chars : ∀ i < len, byte i ≠ 0
  terminator : byte len = 0

instance (vs : Vspace) (addr : UInt64) (i : Nat) : Decidable (Mapped vs addr i) := inferInstanceAs (Decidable (_ = _))

theorem StringAt.unique {byte byte' : Nat → UInt8} {len len' : Nat} (one : StringAt vs addr byte len)
    (other : StringAt vs addr byte' len') (same : ∀ i ≤ len, i ≤ len' → byte i = byte' i) : len = len' := by
  rcases Nat.lt_trichotomy len len' with less | same_ | more
  · exact absurd ((same len (Nat.le_refl _) less.le).symm.trans one.terminator) (other.chars len less)
  · exact same_
  · exact absurd ((same len' more.le (Nat.le_refl _)).trans other.terminator) (one.chars len' more)

theorem StringAt.congr {byte byte' : Nat → UInt8} {len : Nat} (string : StringAt vs addr byte len)
    (same : ∀ i ≤ len, byte' i = byte i) : StringAt vs addr byte' len where
  mapped := string.mapped
  chars i below := by
    rw [same i below.le]
    exact string.chars i below
  terminator := (same len (Nat.le_refl _)).trans string.terminator

theorem copy_none (buf : Bytes) (dst : Nat) (page : Bytes) (offset : Nat) : copy buf dst 0 page offset = buf := by
  funext x
  exact if_neg (by omega)

/-- One byte, and then the rest. -/
theorem copy_succ (buf : Bytes) (dst more : Nat) (page : Bytes) (offset : Nat) :
    copy (Function.update buf dst (page offset)) (dst + 1) more page (offset + 1) = copy buf dst (more + 1) page offset := by
  funext x
  unfold copy
  by_cases later : dst + 1 ≤ x ∧ x < dst + 1 + more
  · rw [if_pos later, if_pos (by omega), show offset + 1 + (x - (dst + 1)) = offset + (x - dst) by omega]
  · rw [if_neg later]
    by_cases here : x = dst
    · rw [here, Function.update_self, if_pos (by omega), Nat.sub_self, Nat.add_zero]
    · rw [Function.update_of_ne here, if_neg (by omega)]

/-- The inner loop stops behind the first 0 of the chunk, if it has one. -/
theorem strncpyChunk_spec (page : Bytes) (offset more : Nat) {i : Nat} {s : Strncpy} (room : more ≤ s.left.toNat) :
    (∃ m < more, (∀ j < m, page (offset + i + j) ≠ 0) ∧ page (offset + i + m) = 0 ∧
      strncpyChunk page offset more i s = (copy s.buf s.dst (m + 1) page (offset + i), none)) ∨
    (∀ j < more, page (offset + i + j) ≠ 0) ∧ ∃ s', strncpyChunk page offset more i s = (s'.buf, some s') ∧
      s'.buf = copy s.buf s.dst more page (offset + i) ∧ s'.dst = s.dst + more ∧
      s'.addr = s.addr + UInt64.ofNat more ∧ s'.left.toNat = s.left.toNat - more := by
  induction more generalizing i s with
  | zero =>
      exact .inr ⟨nofun, s, rfl, (copy_none _ _ _ _).symm, rfl, (UInt64.add_zero _).symm, rfl⟩
  | succ more ih =>
      rw [strncpyChunk]
      by_cases nul : page (offset + i) = 0
      · refine .inl ⟨0, Nat.succ_pos more, nofun, nul, ?_⟩
        rw [if_pos nul, ← copy_succ, copy_none]
      · rw [if_neg nul]
        have sub : (s.left - 1).toNat = s.left.toNat - 1 :=
          UInt32.toNat_sub_of_le s.left 1 (by rw [UInt32.le_iff_toNat_le]; show 1 ≤ _; omega)
        have next (j : Nat) : offset + i + (j + 1) = offset + (i + 1) + j := by omega
        have first {c : Nat} (rest : ∀ j < c, page (offset + (i + 1) + j) ≠ 0) :
            ∀ j < c + 1, page (offset + i + j) ≠ 0 := by
          intro j below
          cases j with
          | zero => exact nul
          | succ j =>
              rw [next]
              exact rest j (by omega)
        rcases @ih (i + 1) ⟨Function.update s.buf s.dst (page (offset + i)), s.dst + 1, s.addr + 1, s.left - 1⟩
            (by show more ≤ (s.left - 1).toNat; omega) with
          ⟨m, below, chars, terminator, run⟩ | ⟨chars, s', run, buf, dst, addr, left⟩
        · refine .inl ⟨m + 1, by omega, first chars, (next m).symm ▸ terminator, run.trans ?_⟩
          exact congrArg (·, none) (copy_succ s.buf s.dst (m + 1) page (offset + i))
        · refine .inr ⟨first chars, s', run, buf.trans (copy_succ s.buf s.dst more page (offset + i)), ?_, ?_, ?_⟩
          · rw [dst]
            show s.dst + 1 + more = s.dst + (more + 1)
            omega
          · rw [addr, UInt64.ofNat_add, UInt64.add_comm (UInt64.ofNat more), ← UInt64.add_assoc]
            rfl
          · rw [left]
            show (s.left - 1).toNat - more = _
            omega

theorem mapped_shift {c i : Nat} (small : c < 2 ^ 64) : Mapped vs (addr + UInt64.ofNat c) i ↔ Mapped vs addr (c + i) := by
  rw [Mapped, userLoc_shift, UInt64.toNat_ofNat_of_lt' small, Mapped]

theorem aliasByte_shift {c i : Nat} (small : c < 2 ^ 64) :
    aliasByte vs mem (addr + UInt64.ofNat c) i = aliasByte vs mem addr (c + i) := by
  rw [aliasByte, aliasLoc_shift, UInt64.toNat_ofNat_of_lt' small, aliasByte]

/-- A chunk, and what is copied behind it. -/
theorem copy_chunk (buf : Bytes) (dst : Nat) {page : Bytes} {offset c k : Nat} (small : c < 2 ^ 64)
    (chunk : ∀ j < c, page (offset + j) = aliasByte vs mem addr j) :
    copy (copy buf dst c page offset) (dst + c) k (aliasByte vs mem (addr + UInt64.ofNat c)) 0 =
      copy buf dst (c + k) (aliasByte vs mem addr) 0 := by
  funext x
  unfold copy
  by_cases later : dst + c ≤ x ∧ x < dst + c + k
  · rw [if_pos later, if_pos (by omega), aliasByte_shift small, show c + (0 + (x - (dst + c))) = 0 + (x - dst) by omega]
  · rw [if_neg later]
    by_cases now : dst ≤ x ∧ x < dst + c
    · rw [if_pos now, if_pos (by omega), chunk _ (by omega), Nat.zero_add]
    · rw [if_neg now, if_neg (by omega)]

/-- The loops have met a terminator before the last byte. -/
def Met (vs : Vspace) (mem : Memory) (s : Strncpy) (r : Option (Bytes × UInt32)) : Prop :=
  ∃ len, len + 1 < s.left.toNat ∧ StringAt vs s.addr (aliasByte vs mem s.addr) len ∧
    r = some (copy s.buf s.dst (len + 1) (aliasByte vs mem s.addr) 0, 0)

/-- They have copied `m` characters and met a hole or the last byte. -/
def Cut (vs : Vspace) (mem : Memory) (s : Strncpy) (r : Option (Bytes × UInt32)) : Prop :=
  ∃ m ret, m + 1 ≤ s.left.toNat ∧ (∀ i < m, aliasByte vs mem s.addr i ≠ 0) ∧ (m + 1 < s.left.toNat → ¬ Mapped vs s.addr m) ∧
    ret.toNat = s.left.toNat - m ∧
    r = some (Function.update (copy s.buf s.dst m (aliasByte vs mem s.addr) 0) (s.dst + m) 0, ret)

theorem cut_here {s : Strncpy} (positive : 0 < s.left.toNat) (stop : 1 < s.left.toNat → ¬ Mapped vs s.addr 0) :
    Cut vs mem s (some s.terminate) := by
  refine ⟨0, s.left, positive, nofun, fun more => stop (by omega), rfl, ?_⟩
  rw [copy_none, Nat.add_zero, Strncpy.terminate]

/-- **One round** ends the copy, or copies a chunk with no terminator. -/
theorem strncpyRound_spec (one : ∀ vr ∈ vs.regions, OnePage vr) (mem : Memory) {s : Strncpy} (two : 1 < s.left.toNat) :
    match strncpyRound vs mem s with
    | .error r => Met vs mem s (some r) ∨ Cut vs mem s (some r)
    | .ok s' => ∃ c, 0 < c ∧ c < s.left.toNat ∧ (∀ i < c, Mapped vs s.addr i) ∧ (∀ i < c, aliasByte vs mem s.addr i ≠ 0) ∧
        s'.dst = s.dst + c ∧ s'.addr = s.addr + UInt64.ofNat c ∧ s'.left.toNat = s.left.toNat - c ∧
        ∀ k, copy s'.buf s'.dst k (aliasByte vs mem s'.addr) 0 = copy s.buf s.dst (c + k) (aliasByte vs mem s.addr) 0 := by
  have small := s.left.toNat_lt
  have less : (s.left - 1).toNat = s.left.toNat - 1 :=
    UInt32.toNat_sub_of_le s.left 1 (by rw [UInt32.le_iff_toNat_le]; exact two.le)
  unfold strncpyRound
  cases found : vspaceFindPage vs s.addr with
  | none => exact .inr (cut_here two.le fun _ => not_mapped found)
  | some at_ =>
      obtain ⟨page, offset⟩ := at_
      have nonzero : s.left - 1 ≠ 0 := fun zero => by
        rw [zero] at less
        change 0 = _ at less
        omega
      obtain ⟨first, le, -, chunk⟩ := chunk_spec one found nonzero
      dsimp only
      set c := (chunkSize offset (s.left - 1)).toNat with c_def
      have same : ∀ j < c, pageByte mem (frame page) (offset.toNat + j) = aliasByte vs mem s.addr j := by
        intro j below
        rw [aliasByte, aliasLoc_some (chunk j below)]
        rfl
      have mapped : ∀ j < c, Mapped vs s.addr j := fun j below => by
        rw [Mapped, chunk j below]
        rfl
      rcases strncpyChunk_spec (i := 0) (s := s) (pageByte mem (frame page)) offset.toNat c (by omega) with
        ⟨len, below, chars, terminator, run⟩ | ⟨chars, s', run, buf, dst, addr_, left⟩
      · rw [run]
        refine .inl ⟨len, by omega, ⟨fun i le => mapped i (by omega), fun i low => ?_, ?_⟩, ?_⟩
        · rw [← same i (by omega)]
          exact chars i low
        · rw [← same len below]
          exact terminator
        · have whole := copy_chunk s.buf s.dst (c := len + 1) (k := 0) (by omega)
            fun j low => same j (by omega)
          rw [copy_none, Nat.add_zero] at whole
          exact congrArg (fun buf => some (buf, 0)) whole
      · rw [run]
        refine ⟨c, first, by omega, mapped, fun i low => ?_, dst, addr_, left, fun k => ?_⟩
        · rw [← same i low]
          exact chars i low
        · rw [buf, dst, addr_, Nat.add_zero]
          exact copy_chunk _ _ (by omega) same

/-- **The loops of `strncpy_from_user`.** -/
theorem strncpyLoop_spec (one : ∀ vr ∈ vs.regions, OnePage vr) (mem : Memory) (fuel : Nat) {s : Strncpy}
    (positive : 0 < s.left.toNat) (enough : s.left.toNat ≤ fuel + 1) :
    Met vs mem s (strncpyLoop vs mem fuel s) ∨ Cut vs mem s (strncpyLoop vs mem fuel s) := by
  induction fuel generalizing s with
  | zero =>
      have last : ¬ s.left > 1 := by
        rw [gt_iff_lt, UInt32.lt_iff_toNat_lt]
        exact Nat.not_lt.2 enough
      unfold strncpyLoop
      rw [if_neg last]
      exact .inr (cut_here positive fun more => by omega)
  | succ fuel ih =>
      unfold strncpyLoop
      by_cases more : s.left > 1
      · have two : 1 < s.left.toNat := by rwa [gt_iff_lt, UInt32.lt_iff_toNat_lt] at more
        have small := s.left.toNat_lt
        have round := strncpyRound_spec one mem two
        rw [if_pos more]
        cases result : strncpyRound vs mem s with
        | error r =>
            rw [result] at round
            exact round
        | ok s' =>
            rw [result] at round
            obtain ⟨c, first, less, mapped, chars, dst, addr_, left, copied⟩ := round
            dsimp only
            rcases ih (s := s') (by omega) (by omega) with ⟨len, below, string, run⟩ | ⟨m, ret, le, chars', stop, rest, run⟩
            · refine .inl ⟨c + len, by omega, ⟨fun i le => ?_, fun i low => ?_, ?_⟩, ?_⟩
              · by_cases early : i < c
                · exact mapped i early
                · have later := string.mapped (i - c) (by omega)
                  rwa [addr_, mapped_shift (by omega), Nat.add_sub_cancel' (by omega)] at later
              · by_cases early : i < c
                · exact chars i early
                · have later := string.chars (i - c) (by omega)
                  rwa [addr_, aliasByte_shift (by omega), Nat.add_sub_cancel' (by omega)] at later
              · rw [← aliasByte_shift (by omega), ← addr_]
                exact string.terminator
              · rw [run, copied, Nat.add_assoc]
            · refine .inr ⟨c + m, ret, by omega, fun i low => ?_, fun more_ => ?_, by omega, ?_⟩
              · by_cases early : i < c
                · exact chars i early
                · have later := chars' (i - c) (by omega)
                  rwa [addr_, aliasByte_shift (by omega), Nat.add_sub_cancel' (by omega)] at later
              · have absent := stop (by omega)
                rwa [addr_, mapped_shift (by omega)] at absent
              · rw [run, copied, dst, Nat.add_assoc]
      · rw [if_neg more]
        rw [gt_iff_lt, UInt32.lt_iff_toNat_lt] at more
        exact .inr (cut_here positive fun two => absurd two more)

/-! ## The contract -/

/-- `strncpy_from_user` keeps its contract. -/
structure TakesString (vs : Vspace) (mem : Memory) (buf : Bytes) (dst : Nat) (src : UInt64) (n : UInt32) (buf' : Bytes)
    (ret : UInt32) : Prop where
  success : ∀ len, len + 1 ≤ n.toNat → StringAt vs src (userByte vs mem src) len →
    ret = 0 ∧ ∀ i ≤ len, buf' (dst + i) = userByte vs mem src i
  failure : (¬ ∃ len, len + 1 ≤ n.toNat ∧ StringAt vs src (userByte vs mem src) len) → ret ≠ 0
  frame : ∀ x, ¬ (dst ≤ x ∧ x < dst + n.toNat) → buf' x = buf x
  terminated : ∃ i < n.toNat, buf' (dst + i) = 0

/-- Up to the first terminator that comes before byte `n - 1`, in the pages or their aliases, they are
the same. -/
def AliasesAgree (vs : Vspace) (mem : Memory) (addr : UInt64) (n : Nat) : Prop :=
  ∀ len, len + 1 < n → StringAt vs addr (userByte vs mem addr) len ∨ StringAt vs addr (aliasByte vs mem addr) len →
    ∀ i ≤ len, aliasByte vs mem addr i = userByte vs mem addr i

theorem aliasesAgree_of_low (low : ∀ vr ∈ vs.regions, vr.page < 2 ^ 20) (n : Nat) : AliasesAgree vs mem addr n := by
  intro len _ _ i _
  rw [aliasByte, userByte, aliasLoc_of_low (pageLoc_low low addr i)]

/-- A copy up to a terminator is right where the string is the user's. -/
theorem met_takes_iff {buf : Bytes} {dst : Nat} {n : UInt32} {len : Nat} (before : len + 1 < n.toNat)
    (string : StringAt vs addr (aliasByte vs mem addr) len) :
    TakesString vs mem buf dst addr n (copy buf dst (len + 1) (aliasByte vs mem addr) 0) 0 ↔
      ¬ StringAt vs addr (userByte vs mem addr) (n.toNat - 1) ∧ AliasesAgree vs mem addr n.toNat := by
  have copied : ∀ i ≤ len, copy buf dst (len + 1) (aliasByte vs mem addr) 0 (dst + i) = aliasByte vs mem addr i := by
    intro i le
    rw [copy, if_pos (by omega), Nat.zero_add, Nat.add_sub_cancel_left]
  constructor
  · intro takes
    by_cases found : ∃ len, len + 1 ≤ n.toNat ∧ StringAt vs addr (userByte vs mem addr) len
    · obtain ⟨len', fits, user⟩ := found
      have same : ∀ i ≤ len', i ≤ len → userByte vs mem addr i = aliasByte vs mem addr i := fun i le le' =>
        ((takes.success len' fits user).2 i le).symm.trans (copied i le')
      obtain rfl : len' = len := user.unique string same
      refine ⟨fun filled => ?_, fun len'' _ either i le => ?_⟩
      · have := filled.unique user fun _ _ _ => rfl
        omega
      · have : len'' = len' := either.elim (fun s => s.unique user fun _ _ _ => rfl)
          fun s => s.unique string fun _ _ _ => rfl
        exact (same i (by omega) (by omega)).symm
    · exact absurd rfl (takes.failure found)
  · rintro ⟨-, agree⟩
    have same := agree len before (.inr string)
    have user : StringAt vs addr (userByte vs mem addr) len := string.congr fun i le => (same i le).symm
    refine ⟨fun len' _ other => ⟨rfl, fun i le => ?_⟩, fun absent => ?_, fun x outside => ?_, ⟨len, by omega, ?_⟩⟩
    · obtain rfl := other.unique user fun _ _ _ => rfl
      rw [copied i le, same i le]
    · exact absurd ⟨len, before.le, user⟩ absent
    · exact if_neg (by omega)
    · rw [copied len (Nat.le_refl len), string.terminator]

/-- A copy cut short is right where the user has no string. -/
theorem cut_takes_iff {buf : Bytes} {dst : Nat} {n ret : UInt32} {m : Nat} (fits : m + 1 ≤ n.toNat)
    (chars : ∀ i < m, aliasByte vs mem addr i ≠ 0) (stop : m + 1 < n.toNat → ¬ Mapped vs addr m)
    (rest : ret.toNat = n.toNat - m) :
    TakesString vs mem buf dst addr n (Function.update (copy buf dst m (aliasByte vs mem addr) 0) (dst + m) 0) ret ↔
      ¬ StringAt vs addr (userByte vs mem addr) (n.toNat - 1) ∧ AliasesAgree vs mem addr n.toNat := by
  have none_ : ∀ len, len + 1 < n.toNat → ¬ StringAt vs addr (aliasByte vs mem addr) len := by
    intro len before string
    have le : m ≤ len := Nat.not_lt.1 fun less => chars len less string.terminator
    exact stop (by omega) (string.mapped m le)
  have nonzero : ret ≠ 0 := by
    rintro rfl
    change 0 = _ at rest
    omega
  constructor
  · intro takes
    have absent : ∀ len, len + 1 ≤ n.toNat → ¬ StringAt vs addr (userByte vs mem addr) len := fun len fits string =>
      nonzero (takes.success len fits string).1
    exact ⟨absent _ (by omega), fun len before either =>
      (either.elim (absent len before.le) (none_ len before)).elim⟩
  · rintro ⟨unfilled, agree⟩
    have absent : ∀ len, len + 1 ≤ n.toNat → ¬ StringAt vs addr (userByte vs mem addr) len := by
      intro len fits string
      by_cases filled : len + 1 = n.toNat
      · rw [← filled] at unfilled
        exact unfilled string
      · have before : len + 1 < n.toNat := by omega
        exact none_ len before (string.congr (agree len before (.inl string)))
    refine ⟨fun len fits string => absurd string (absent len fits), fun _ => nonzero, fun x outside => ?_,
      ⟨m, by omega, Function.update_self ..⟩⟩
    rw [Function.update_of_ne (by omega), copy, if_neg (by omega)]

/-- **`strncpy_from_user` takes every string but one that fills all `n` bytes.** -/
theorem strncpy_from_user_iff (built : Built vs) (mem : Memory) (buf : Bytes) (dst : Nat) (src : UInt64) {n : UInt32}
    (positive : 0 < n) :
    (∃ buf' ret, strncpyFromUser (some vs) mem buf dst src n = some (buf', ret) ∧
      TakesString vs mem buf dst src n buf' ret) ↔
      ¬ StringAt vs src (userByte vs mem src) (n.toNat - 1) ∧ AliasesAgree vs mem src n.toNat := by
  have some_ : 0 < n.toNat := UInt32.lt_iff_toNat_lt.1 positive
  have nonzero : n ≠ 0 := fun zero => by simp [zero] at some_
  have ran := strncpyLoop_spec built.paged.regions mem _ (s := ⟨buf, dst, src, n⟩) some_ (Nat.le_succ n.toNat)
  have same : strncpyFromUser (some vs) mem buf dst src n = strncpyLoop vs mem n.toNat ⟨buf, dst, src, n⟩ :=
    if_neg nonzero
  have outcome {buf₁ : Bytes} {ret₁ : UInt32} (run : strncpyFromUser (some vs) mem buf dst src n = some (buf₁, ret₁)) :
      (∃ buf' ret, strncpyFromUser (some vs) mem buf dst src n = some (buf', ret) ∧
        TakesString vs mem buf dst src n buf' ret) ↔ TakesString vs mem buf dst src n buf₁ ret₁ := by
    constructor
    · rintro ⟨buf', ret, run', takes⟩
      obtain ⟨rfl, rfl⟩ := Prod.mk.inj (Option.some.inj (run.symm.trans run'))
      exact takes
    · exact fun takes => ⟨buf₁, ret₁, run, takes⟩
  rw [← same] at ran
  rcases ran with ⟨len, before, string, run⟩ | ⟨m, ret, fits, chars, stop, rest, run⟩
  · exact (outcome run).trans (met_takes_iff before string)
  · exact (outcome run).trans (cut_takes_iff fits chars stop rest)

/-- A memory whose page 0x101 holds the string of one letter. -/
def oneLetter : Memory := fun page word => if page = 0x101 ∧ word = 0 then 0x61 else 0

theorem oneLetter_string : StringAt textSpace 0x400000 (userByte textSpace oneLetter 0x400000) 1 where
  mapped := by decide +kernel
  chars := by decide +kernel
  terminator := by decide +kernel

theorem strncpy_from_user_letter :
    0 < (3 : UInt32) ∧ ∃ buf' ret, strncpyFromUser (some textSpace) oneLetter (fun _ => 7) 0 0x400000 3 = some (buf', ret) ∧
      TakesString textSpace oneLetter (fun _ => 7) 0 0x400000 3 buf' ret :=
  ⟨by decide, (strncpy_from_user_iff textSpace_built oneLetter (fun _ => 7) 0 0x400000 (by decide)).2
    ⟨fun longer => absurd (longer.unique oneLetter_string fun _ _ _ => rfl) (by decide),
      aliasesAgree_of_low (by decide +kernel) 3⟩⟩

/-- **A string that fills the buffer is refused.**  Its terminator is the second of two bytes,
and `strncpy_from_user` returns 1. -/
theorem full_string_refused :
    StringAt textSpace 0x400000 (userByte textSpace oneLetter 0x400000) 1 ∧
      (strncpyFromUser (some textSpace) oneLetter (fun _ => 7) 0 0x400000 2).map (·.2) = some 1 ∧
      ¬ ∃ buf' ret, strncpyFromUser (some textSpace) oneLetter (fun _ => 7) 0 0x400000 2 = some (buf', ret) ∧
        TakesString textSpace oneLetter (fun _ => 7) 0 0x400000 2 buf' ret := by
  have returned : (strncpyFromUser (some textSpace) oneLetter (fun _ => 7) 0 0x400000 2).map (·.2) = some 1 := by
    decide +kernel
  refine ⟨oneLetter_string, returned, ?_⟩
  rintro ⟨buf', ret, run, takes⟩
  rw [run, Option.map_some, (takes.success 1 (by decide) oneLetter_string).1] at returned
  have zero_one : (0 : UInt32) = 1 := Option.some.inj returned
  exact absurd zero_one (by decide)

end Strings

end Minus.Mm.Uaccess
