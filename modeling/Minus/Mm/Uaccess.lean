/-
# Mm.Uaccess — copies between the kernel and the current program

`copy_from_user`, `copy_to_user` and `strncpy_from_user` of `kernel/mm/uaccess.c`.  They go
through the user's range in chunks, each up to the end of a page, and reach a page through
the alias that the kernel has of all memory (`page_to_virt`).  `vspace_find_page` finds the
page of a chunk.

A buffer of the kernel lies in no page of a program, and is a memory of its own.  The loops
take fuel; `none` is a loop that has gone round more often than there are bytes to copy.
-/
import Minus.Proc.LoaderImage
import Minus.Theory.Prefix
import Mathlib.Data.List.Find

namespace Minus.Mm.Uaccess

set_option autoImplicit false

open Minus.Theory
open Minus.Core.Mmu (Memory pageSize)
open Minus.Mm.AddressSpace
open Minus.Mm.Buddy (Pfn)
open Minus.Proc.Loader (pageByte pageByte_memcpy memcpyPage memcpyPage_other)

/-! ## uaccess.c -/

/-- The end of the page, or of the range: `PAGE_SIZE - offset`, at most `left`. -/
@[irreducible] def chunkSize (offset left : UInt32) : UInt32 :=
  let chunk := 4096 - offset
  if chunk > left then left else chunk

/-- The loop of `copy_from_user`. -/
def copyFromUserLoop (vs : Vspace) (mem : Memory) : Nat → Bytes → Nat → UInt64 → UInt32 → Option (Bytes × UInt32)
  | fuel, buf, dst, addr, left =>
      if left = 0 then some (buf, 0)
      else
        match fuel with
        | 0 => none
        | fuel + 1 =>
            match vspaceFindPage vs addr with
            | none => some (buf, left)
            | some (page, offset) =>
                let chunk := chunkSize offset left
                copyFromUserLoop vs mem fuel (copy buf dst chunk.toNat (pageByte mem (frame page)) offset.toNat)
                  (dst + chunk.toNat) (addr + chunk.toUInt64) (left - chunk)

/-- The kernel's buffer at `dst`, and what is returned. -/
def copyFromUser (curVspace : Option Vspace) (mem : Memory) (buf : Bytes) (dst : Nat) (src : UInt64) (n : UInt32) :
    Option (Bytes × UInt32) :=
  match curVspace with
  | none => some (buf, n)
  | some vs => copyFromUserLoop vs mem n.toNat buf dst src n

/-- The loop of `copy_to_user`. -/
def copyToUserLoop (vs : Vspace) (buf : Bytes) : Nat → Memory → Nat → UInt64 → UInt32 → Option (Memory × UInt32)
  | fuel, mem, src, addr, left =>
      if left = 0 then some (mem, 0)
      else
        match fuel with
        | 0 => none
        | fuel + 1 =>
            match vspaceFindPage vs addr with
            | none => some (mem, left)
            | some (page, offset) =>
                let chunk := chunkSize offset left
                copyToUserLoop vs buf fuel
                  (memcpyPage mem (frame page) offset.toNat chunk.toNat fun k => buf (src + k))
                  (src + chunk.toNat) (addr + chunk.toUInt64) (left - chunk)

def copyToUser (curVspace : Option Vspace) (mem : Memory) (dst : UInt64) (buf : Bytes) (src : Nat) (n : UInt32) :
    Option (Memory × UInt32) :=
  match curVspace with
  | none => some (mem, n)
  | some vs => copyToUserLoop vs buf n.toNat mem src dst n

/-- The locals of `strncpy_from_user`, and the memory that `dst` points into. -/
structure Strncpy where
  buf : Bytes
  dst : Nat
  addr : UInt64
  left : UInt32

/-- The inner loop, with how many bytes of the chunk are left, from `i` on; `none` is a return
behind the terminator, and then only the buffer matters. -/
def strncpyChunk (page : Bytes) (offset : Nat) : Nat → Nat → Strncpy → Bytes × Option Strncpy
  | 0, _, s => (s.buf, some s)
  | more + 1, i, s =>
      let c := page (offset + i)
      let buf := Function.update s.buf s.dst c
      if c = 0 then (buf, none)
      else strncpyChunk page offset more (i + 1) ⟨buf, s.dst + 1, s.addr + 1, s.left - 1⟩

/-- What follows the loops. -/
def Strncpy.terminate (s : Strncpy) : Bytes × UInt32 := (Function.update s.buf s.dst 0, s.left)

/-- One round of the outer loop: what is returned, or the locals of the next round.  A `break`
goes to what follows the loop. -/
def strncpyRound (vs : Vspace) (mem : Memory) (s : Strncpy) : Except (Bytes × UInt32) Strncpy :=
  match vspaceFindPage vs s.addr with
  | none => .error s.terminate
  | some (page, offset) =>
      let chunk := chunkSize offset (s.left - 1)
      match strncpyChunk (pageByte mem (frame page)) offset.toNat chunk.toNat 0 s with
      | (buf, none) => .error (buf, 0)
      | (_, some s) => .ok s

/-- The outer loop. -/
def strncpyLoop (vs : Vspace) (mem : Memory) : Nat → Strncpy → Option (Bytes × UInt32)
  | fuel, s =>
      if s.left > 1 then
        match fuel with
        | 0 => none
        | fuel + 1 =>
            match strncpyRound vs mem s with
            | .error r => some r
            | .ok s => strncpyLoop vs mem fuel s
      else some s.terminate

def strncpyFromUser (curVspace : Option Vspace) (mem : Memory) (buf : Bytes) (dst : Nat) (src : UInt64) (n : UInt32) :
    Option (Bytes × UInt32) :=
  match curVspace with
  | none => some (buf, n)
  | some vs => if n = 0 then some (buf, n) else strncpyLoop vs mem n.toNat ⟨buf, dst, src, n⟩

/-! ## Where the bytes of a user's range are -/

/-- The vregion that `vspace_find_page` takes. -/
def regionAt (vs : Vspace) (a : UInt64) : Option Vregion := vs.regions.find? fun vr => vr.start ≤ a && a < vr.stop

/-- The vregion covers one page. -/
structure OnePage (vr : Vregion) : Prop where
  aligned : pageSize ∣ vr.start.toNat
  stop : vr.stop = vr.start + 4096

/-- The page and the offset that `vspace_find_page` finds for byte `i` of the range from `addr` on. -/
def userLoc (vs : Vspace) (addr : UInt64) (i : Nat) : Option (Pfn × Nat) :=
  (vspaceFindPage vs (addr + UInt64.ofNat i)).map fun found => (found.1, found.2.toNat)

/-- The byte lies in a vregion. -/
def Mapped (vs : Vspace) (addr : UInt64) (i : Nat) : Prop := (userLoc vs addr i).isSome = true

/-- The same place through `page_to_virt`. -/
def aliasLoc (vs : Vspace) (addr : UInt64) (i : Nat) : Nat × Nat :=
  ((userLoc vs addr i).map fun l => (frame l.1, l.2)).getD (0, 0)

/-- The bytes of the physical pages. -/
def bytes (mem : Memory) (l : Nat × Nat) : UInt8 := pageByte mem l.1 l.2

section Range

variable {vs : Vspace} {addr : UInt64}

theorem OnePage.covers_iff {vr : Vregion} (one : OnePage vr) (a : UInt64) :
    (vr.start ≤ a && a < vr.stop) = true ↔
      vr.start.toNat = a.toNat / 4096 * 4096 ∧ a.toNat / 4096 * 4096 + 4096 < 2 ^ 64 := by
  obtain ⟨k, start⟩ := one.aligned
  have start : vr.start.toNat = 4096 * k := start
  have stop : vr.stop.toNat = (vr.start.toNat + 4096) % 2 ^ 64 := by
    rw [one.stop, UInt64.toNat_add]
    rfl
  have := a.toNat_lt
  have := vr.start.toNat_lt
  rw [Bool.and_eq_true, decide_eq_true_iff, decide_eq_true_iff, UInt64.le_iff_toNat_le, UInt64.lt_iff_toNat_lt, stop]
  omega

theorem vspaceFindPage_eq_map (one : ∀ vr ∈ vs.regions, OnePage vr) (a : UInt64) :
    (vspaceFindPage vs a).map (fun found => (found.1, found.2.toNat)) =
      (regionAt vs a).map fun vr => (vr.page, a.toNat % 4096) := by
  unfold vspaceFindPage regionAt
  rw [Option.map_map]
  refine Option.map_congr fun vr found => ?_
  obtain ⟨start, -⟩ := ((one vr (List.mem_of_find?_eq_some found)).covers_iff a).1 (List.find?_eq_some_iff_append.1 found).1
  have le : vr.start ≤ a := by
    rw [UInt64.le_iff_toNat_le]
    omega
  have offset : (a - vr.start).toUInt32.toNat = a.toNat % 4096 := by
    rw [UInt64.toNat_toUInt32, UInt64.toNat_sub_of_le _ _ le, start]
    omega
  show (vr.page, (a - vr.start).toUInt32.toNat) = _
  rw [offset]

/-- A chunk stays in its page. -/
theorem regionAt_add (one : ∀ vr ∈ vs.regions, OnePage vr) {a : UInt64} {j : Nat} (within : a.toNat % 4096 + j < 4096) :
    regionAt vs (a + UInt64.ofNat j) = regionAt vs a ∧ (a + UInt64.ofNat j).toNat % 4096 = a.toNat % 4096 + j := by
  have small := a.toNat_lt
  have sum : (a + UInt64.ofNat j).toNat = a.toNat + j := by
    rw [UInt64.toNat_add, UInt64.toNat_ofNat']
    omega
  refine ⟨?_, by omega⟩
  unfold regionAt
  refine List.find?_congr fun vr member => Bool.eq_iff_iff.2 ?_
  rw [(one vr member).covers_iff, (one vr member).covers_iff, sum, show (a.toNat + j) / 4096 = a.toNat / 4096 by omega]

theorem userLoc_shift (vs : Vspace) (addr c : UInt64) (i : Nat) :
    userLoc vs (addr + c) i = userLoc vs addr (c.toNat + i) := by
  unfold userLoc
  rw [UInt64.ofNat_add, UInt64.ofNat_toNat, UInt64.add_assoc]

theorem userLoc_zero (vs : Vspace) (addr : UInt64) :
    userLoc vs addr 0 = (vspaceFindPage vs addr).map fun found => (found.1, found.2.toNat) := by
  unfold userLoc
  rw [show UInt64.ofNat 0 = 0 from rfl, UInt64.add_zero]

/-- **A chunk** is a range of the page that is found. -/
theorem chunk_spec (one : ∀ vr ∈ vs.regions, OnePage vr) {page : Pfn} {offset left : UInt32}
    (found : vspaceFindPage vs addr = some (page, offset)) (more : left ≠ 0) :
    0 < (chunkSize offset left).toNat ∧ (chunkSize offset left).toNat ≤ left.toNat ∧
      offset.toNat + (chunkSize offset left).toNat ≤ 4096 ∧
      ∀ i < (chunkSize offset left).toNat, userLoc vs addr i = some (page, offset.toNat + i) := by
  have at_ := vspaceFindPage_eq_map one addr
  rw [found] at at_
  obtain ⟨vr, region, same⟩ := Option.map_eq_some_iff.1 at_.symm
  obtain ⟨page_, offset_⟩ : vr.page = page ∧ addr.toNat % 4096 = offset.toNat := Prod.mk.inj same
  have positive : left.toNat ≠ 0 := fun zero => more (UInt32.toNat_inj.1 zero)
  have low : offset.toNat < 4096 := by omega
  have rest : (4096 - offset).toNat = 4096 - offset.toNat := by
    rw [UInt32.toNat_sub_of_le _ _ (by rw [UInt32.le_iff_toNat_le]; exact low.le)]
    rfl
  have size : (chunkSize offset left).toNat = min (4096 - offset.toNat) left.toNat := by
    unfold chunkSize
    dsimp only
    split
    · rename_i big
      rw [gt_iff_lt, UInt32.lt_iff_toNat_lt, rest] at big
      omega
    · rename_i fits
      rw [gt_iff_lt, UInt32.lt_iff_toNat_lt, rest] at fits
      omega
  refine ⟨by omega, by omega, by omega, fun i below => ?_⟩
  obtain ⟨region', offset'⟩ := regionAt_add one (a := addr) (j := i) (by omega)
  unfold userLoc
  rw [vspaceFindPage_eq_map one, region', offset', region, Option.map_some, page_, offset_]

theorem aliasLoc_some {i : Nat} {l : Pfn × Nat} (found : userLoc vs addr i = some l) :
    aliasLoc vs addr i = (frame l.1, l.2) := by rw [aliasLoc, found, Option.map_some, Option.getD_some]

theorem aliasLoc_shift (vs : Vspace) (addr c : UInt64) (i : Nat) :
    aliasLoc vs (addr + c) i = aliasLoc vs addr (c.toNat + i) := by rw [aliasLoc, userLoc_shift, aliasLoc]

/-- The first chunk of a range and the rest of it. -/
theorem chunk_append (one : ∀ vr ∈ vs.regions, OnePage vr) {page : Pfn} {offset left : UInt32} {k : Nat}
    (found : vspaceFindPage vs addr = some (page, offset)) (more : left ≠ 0)
    (rest : LongestPrefix (Mapped vs (addr + (chunkSize offset left).toUInt64)) (left - chunkSize offset left).toNat k) :
    LongestPrefix (Mapped vs addr) left.toNat ((chunkSize offset left).toNat + k) ∧
      (left - chunkSize offset left).toNat = left.toNat - (chunkSize offset left).toNat := by
  obtain ⟨-, le, -, chunk⟩ := chunk_spec one found more
  have sub := UInt32.toNat_sub_of_le left (chunkSize offset left) (UInt32.le_iff_toNat_le.2 le)
  have shifted : Mapped vs (addr + (chunkSize offset left).toUInt64) =
      fun i => Mapped vs addr ((chunkSize offset left).toNat + i) := by
    funext i
    rw [Mapped, userLoc_shift, UInt32.toNat_toUInt64, Mapped]
  rw [shifted, sub] at rest
  refine ⟨?_, sub⟩
  have mapped : ∀ i < (chunkSize offset left).toNat, Mapped vs addr i := fun i below => by
    rw [Mapped, chunk i below]
    rfl
  have both := rest.append mapped
  rwa [Nat.add_sub_cancel' le] at both

theorem not_mapped (absent : vspaceFindPage vs addr = none) : ¬ Mapped vs addr 0 := by
  rw [Mapped, userLoc_zero, absent]
  decide

/-- **`copy_from_user`** goes as far as the range is mapped. -/
theorem copyFromUserLoop_spec (one : ∀ vr ∈ vs.regions, OnePage vr) (mem : Memory) (buf : Bytes) (dst : Nat)
    (addr : UInt64) {fuel : Nat} {left : UInt32} (enough : left.toNat ≤ fuel) :
    ∃ k buf' ret, copyFromUserLoop vs mem fuel buf dst addr left = some (buf', ret) ∧
      LongestPrefix (Mapped vs addr) left.toNat k ∧ ret.toNat = left.toNat - k ∧
      ∀ x, buf' x = if dst ≤ x ∧ x < dst + k then bytes mem (aliasLoc vs addr (x - dst)) else buf x := by
  induction fuel generalizing buf dst addr left with
  | zero =>
      have zero : left = 0 := UInt32.toNat_inj.1 (Nat.le_zero.1 enough)
      subst zero
      refine ⟨0, buf, 0, rfl, .zero _, rfl, fun x => ?_⟩
      rw [if_neg (by omega)]
  | succ fuel ih =>
      rw [copyFromUserLoop]
      by_cases done : left = 0
      · subst done
        refine ⟨0, buf, 0, rfl, .zero _, rfl, fun x => ?_⟩
        rw [if_neg (by omega)]
      · rw [if_neg done]
        cases found : vspaceFindPage vs addr with
        | none =>
            refine ⟨0, buf, left, rfl, .none _ (not_mapped found), rfl, fun x => ?_⟩
            rw [if_neg (by omega)]
        | some at_ =>
            obtain ⟨page, offset⟩ := at_
            obtain ⟨positive, le, within, chunk⟩ := chunk_spec one found done
            set c := chunkSize offset left with c_def
            have sub : (left - c).toNat = left.toNat - c.toNat :=
              UInt32.toNat_sub_of_le left c (UInt32.le_iff_toNat_le.2 le)
            obtain ⟨k, buf', ret, run, longest, rest, contents⟩ : ∃ k buf' ret, copyFromUserLoop vs mem fuel
                (copy buf dst c.toNat (pageByte mem (frame page)) offset.toNat) (dst + c.toNat)
                (addr + c.toUInt64) (left - c) = some (buf', ret) ∧ _ := ih _ _ _ (by omega)
            obtain ⟨longest', -⟩ := chunk_append one found done longest
            refine ⟨c.toNat + k, buf', ret, run, longest', by omega, fun x => ?_⟩
            rw [contents]
            by_cases later : dst + c.toNat ≤ x ∧ x < dst + c.toNat + k
            · rw [if_pos later, if_pos (by omega), aliasLoc_shift, UInt32.toNat_toUInt64,
                show c.toNat + (x - (dst + c.toNat)) = x - dst by omega]
            · rw [if_neg later, copy]
              by_cases now : dst ≤ x ∧ x < dst + c.toNat
              · rw [if_pos now, if_pos (by omega), aliasLoc_some (chunk (x - dst) (by omega))]
                rfl
              · rw [if_neg now, if_neg (by omega)]

/-- **`copy_to_user`** goes as far, and writes to the aliases. -/
theorem copyToUserLoop_spec (one : ∀ vr ∈ vs.regions, OnePage vr) (buf : Bytes) (mem : Memory) (src : Nat)
    (addr : UInt64) {fuel : Nat} {left : UInt32} (enough : left.toNat ≤ fuel) :
    ∃ k mem' ret, copyToUserLoop vs buf fuel mem src addr left = some (mem', ret) ∧
      LongestPrefix (Mapped vs addr) left.toNat k ∧ ret.toNat = left.toNat - k ∧
      ∀ l : Nat × Nat, l.2 < pageSize →
        bytes mem' l = scatter (aliasLoc vs addr) (fun i => buf (src + i)) k (bytes mem) l := by
  induction fuel generalizing mem src addr left with
  | zero =>
      have zero : left = 0 := UInt32.toNat_inj.1 (Nat.le_zero.1 enough)
      subst zero
      exact ⟨0, mem, 0, rfl, .zero _, rfl, fun _ _ => rfl⟩
  | succ fuel ih =>
      rw [copyToUserLoop]
      by_cases done : left = 0
      · subst done
        exact ⟨0, mem, 0, rfl, .zero _, rfl, fun _ _ => rfl⟩
      · rw [if_neg done]
        cases found : vspaceFindPage vs addr with
        | none => exact ⟨0, mem, left, rfl, .none _ (not_mapped found), rfl, fun _ _ => rfl⟩
        | some at_ =>
            obtain ⟨page, offset⟩ := at_
            obtain ⟨positive, le, within, chunk⟩ := chunk_spec one found done
            set c := chunkSize offset left with c_def
            have sub : (left - c).toNat = left.toNat - c.toNat :=
              UInt32.toNat_sub_of_le left c (UInt32.le_iff_toNat_le.2 le)
            obtain ⟨k, mem', ret, run, longest, rest, contents⟩ : ∃ k mem' ret, copyToUserLoop vs buf fuel
                (memcpyPage mem (frame page) offset.toNat c.toNat fun k => buf (src + k)) (src + c.toNat)
                (addr + c.toUInt64) (left - c) = some (mem', ret) ∧ _ := ih _ _ _ (by omega)
            obtain ⟨longest', -⟩ := chunk_append one found done longest
            refine ⟨c.toNat + k, mem', ret, run, longest', by omega, fun l inPage => ?_⟩
            have locs : aliasLoc vs (addr + c.toUInt64) = fun i => aliasLoc vs addr (c.toNat + i) := by
              funext i
              rw [aliasLoc_shift, UInt32.toNat_toUInt64]
            have first : ∀ i < c.toNat, aliasLoc vs addr i = (frame page, offset.toNat + i) := fun i below => by
              rw [aliasLoc_some (chunk i below)]
            have copied : bytes (memcpyPage mem (frame page) offset.toNat c.toNat fun k => buf (src + k)) l =
                scatter (aliasLoc vs addr) (fun i => buf (src + i)) c.toNat (bytes mem) l := by
              rw [scatter_congr first, scatter_range, bytes]
              by_cases here : l.1 = frame page
              · rw [here, pageByte_memcpy _ _ _ _ _ inPage]
                simp only [true_and, bytes, here]
              · rw [if_neg fun both => here both.1, pageByte, memcpyPage_other _ _ _ _ here]
                rfl
            have bytes_ : (fun i => buf (src + c.toNat + i)) = fun i => buf (src + (c.toNat + i)) := by
              funext i
              rw [Nat.add_assoc]
            rw [contents l inPage, locs, bytes_, scatter_append]
            exact scatter_local copied

/-- The place of byte `i` in the page that is found for it. -/
def pageLoc (vs : Vspace) (addr : UInt64) (i : Nat) : Pfn × Nat := (userLoc vs addr i).getD (0, 0)

theorem aliasLoc_inPage (one : ∀ vr ∈ vs.regions, OnePage vr) (addr : UInt64) (i : Nat) :
    (aliasLoc vs addr i).2 < pageSize := by
  have offset := vspaceFindPage_eq_map one (addr + UInt64.ofNat i)
  unfold aliasLoc userLoc
  rw [offset]
  cases regionAt vs (addr + UInt64.ofNat i) with
  | none => exact Nat.two_pow_pos 12
  | some vr => exact Nat.mod_lt _ (Nat.two_pow_pos 12)

theorem pageLoc_inPage (one : ∀ vr ∈ vs.regions, OnePage vr) (addr : UInt64) (i : Nat) :
    (pageLoc vs addr i).2 < pageSize := by
  have offset := vspaceFindPage_eq_map one (addr + UInt64.ofNat i)
  unfold pageLoc userLoc
  rw [offset]
  cases regionAt vs (addr + UInt64.ofNat i) with
  | none => exact Nat.two_pow_pos 12
  | some vr => exact Nat.mod_lt _ (Nat.two_pow_pos 12)

/-- Below 4 GiB the alias of a page is the page. -/
theorem aliasLoc_of_low {i : Nat} (low : (pageLoc vs addr i).1 < 2 ^ 20) : aliasLoc vs addr i = pageLoc vs addr i := by
  unfold aliasLoc pageLoc at *
  cases found : userLoc vs addr i with
  | none => rfl
  | some l =>
      rw [found, Option.getD_some] at low
      rw [Option.map_some, Option.getD_some, Option.getD_some, frame_of_lt low]

/-- Above, it is another one. -/
theorem aliasLoc_low (vs : Vspace) (addr : UInt64) (i : Nat) : (aliasLoc vs addr i).1 < 2 ^ 20 := by
  unfold aliasLoc
  cases userLoc vs addr i with
  | none => exact Nat.two_pow_pos 20
  | some l => exact frame_lt l.1

/-! ## Exact copies -/

/-- `copy_from_user` keeps its contract, whatever the memory holds. -/
def ExactFrom (vs : Vspace) (addr : UInt64) (n : UInt32) : Prop :=
  ∀ mem buf dst, ∃ k buf' ret, copyFromUser (some vs) mem buf dst addr n = some (buf', ret) ∧
    LongestPrefix (Mapped vs addr) n.toNat k ∧ ret.toNat = n.toNat - k ∧
    ∀ x, buf' x = if dst ≤ x ∧ x < dst + k then bytes mem (pageLoc vs addr (x - dst)) else buf x

/-- `copy_to_user` keeps its contract: where two pages of the range are the same, the later byte
stays. -/
def ExactTo (vs : Vspace) (addr : UInt64) (n : UInt32) : Prop :=
  ∀ mem buf src, ∃ k mem' ret, copyToUser (some vs) mem addr buf src n = some (mem', ret) ∧
    LongestPrefix (Mapped vs addr) n.toNat k ∧ ret.toNat = n.toNat - k ∧
    ∀ l : Pfn × Nat, l.2 < pageSize →
      bytes mem' l = scatter (pageLoc vs addr) (fun i => buf (src + i)) k (bytes mem) l

/-- Every byte that the range has lies below 4 GiB. -/
def LowRange (vs : Vspace) (addr : UInt64) (n : UInt32) : Prop :=
  ∀ k, LongestPrefix (Mapped vs addr) n.toNat k → ∀ i < k, (pageLoc vs addr i).1 < 2 ^ 20

theorem pageLoc_low (low : ∀ vr ∈ vs.regions, vr.page < 2 ^ 20) (addr : UInt64) (i : Nat) : (pageLoc vs addr i).1 < 2 ^ 20 := by
  unfold pageLoc userLoc vspaceFindPage
  cases found : vs.regions.find? fun vr => vr.start ≤ addr + UInt64.ofNat i && addr + UInt64.ofNat i < vr.stop with
  | none => exact Nat.two_pow_pos 20
  | some vr => exact low vr (List.mem_of_find?_eq_some found)

theorem lowRange_of_regions (low : ∀ vr ∈ vs.regions, vr.page < 2 ^ 20) (addr : UInt64) (n : UInt32) :
    LowRange vs addr n := fun _ _ i _ => pageLoc_low low addr i

/-- A memory that has ones in one page. -/
def marked (page : Pfn) : Memory := fun p _ => if p = page then 0x0101010101010101 else 0

theorem bytes_marked (page : Pfn) (l : Nat × Nat) : bytes (marked page) l = if l.1 = page then 1 else 0 := by
  have ones : ∀ k < 8, byteOf 0x0101010101010101 k = 1 := by decide
  unfold bytes pageByte marked
  split
  · exact ones _ (Nat.mod_lt _ (by decide))
  · exact byteOf_zero _

/-- **User copies are exact exactly where the range lies below 4 GiB.** -/
theorem user_copies_exact_iff (one : ∀ vr ∈ vs.regions, OnePage vr) (addr : UInt64) (n : UInt32) :
    ExactFrom vs addr n ∧ ExactTo vs addr n ↔ LowRange vs addr n := by
  constructor
  · rintro ⟨exact_, -⟩ k longest i below
    by_contra high
    obtain ⟨k', buf', ret, run, longest', -, contents⟩ := exact_ (marked (pageLoc vs addr i).1) (fun _ => 0) 0
    obtain ⟨k'', buf'', ret'', run'', longest'', -, contents''⟩ :=
      copyFromUserLoop_spec one (marked (pageLoc vs addr i).1) (fun _ => 0) 0 addr (Nat.le_refl n.toNat)
    obtain rfl := longest.unique longest'
    obtain rfl := longest.unique longest''
    obtain ⟨rfl, -⟩ := Prod.mk.inj (Option.some.inj (run.symm.trans run''))
    have differ := (contents i).symm.trans (contents'' i)
    have other : (aliasLoc vs addr i).1 ≠ (pageLoc vs addr i).1 := fun same => high (same ▸ aliasLoc_low vs addr i)
    rw [if_pos (by omega), if_pos (by omega), Nat.sub_zero, bytes_marked, bytes_marked, if_pos rfl, if_neg other] at differ
    exact absurd differ (by decide)
  · intro low
    constructor
    · intro mem buf dst
      obtain ⟨k, buf', ret, run, longest, rest, contents⟩ :=
        copyFromUserLoop_spec one mem buf dst addr (Nat.le_refl n.toNat)
      refine ⟨k, buf', ret, run, longest, rest, fun x => ?_⟩
      rw [contents]
      split
      · rw [aliasLoc_of_low (low k longest _ (by omega))]
      · rfl
    · intro mem buf src
      obtain ⟨k, mem', ret, run, longest, rest, contents⟩ :=
        copyToUserLoop_spec one buf mem src addr (Nat.le_refl n.toNat)
      refine ⟨k, mem', ret, run, longest, rest, fun l inPage => ?_⟩
      rw [contents l inPage, scatter_congr fun i below => aliasLoc_of_low (low k longest i below)]

/-! ## Address spaces as the calls build them -/

/-- A vspace after any calls of `vspace_map_page` and `vspace_map_contig_phys`, whatever else has
happened to the heap between them. -/
inductive Built : Vspace → Prop
  | alloc {h h' : Heap} {vs : Vspace} (made : vspaceAlloc h = (h', some vs)) : Built vs
  | mapPage {h h' : Heap} {vs vs' : Vspace} {uva : UInt64} {flags : UInt32} {ret : Except Errno Nat} (built : Built vs)
      (call : vspaceMapPage h vs uva flags = .ok (h', vs', ret)) : Built vs'
  | mapContig {h h' : Heap} {vs vs' : Vspace} {phys : UInt64} {size flags : UInt32} {ret : Except Errno UInt64}
      (built : Built vs) (call : vspaceMapContigPhys h vs phys size flags = .ok (h', vs', ret)) : Built vs'

/-- The vregions cover one page each, and so will the next ones at `mmap_base`. -/
structure Paged (vs : Vspace) : Prop where
  regions : ∀ vr ∈ vs.regions, OnePage vr
  base : pageSize ∣ vs.mmapBase.toNat

theorem OnePage.add {va : UInt64} (aligned : pageSize ∣ va.toNat) (obj : Obj) (flags : UInt32) (page : Pfn) :
    (∀ vr ∈ vs.regions, OnePage vr) → ∀ vr ∈ (vs.addRegion obj va flags page).regions, OnePage vr := by
  intro regions vr member
  obtain old | new := List.mem_append.1 member
  · exact regions vr old
  · rw [List.mem_singleton.1 new]
    exact ⟨aligned, rfl⟩

theorem dvd_toNat_add {a b : UInt64} (left : pageSize ∣ a.toNat) (right : pageSize ∣ b.toNat) :
    pageSize ∣ (a + b).toNat := by
  rw [UInt64.toNat_add]
  exact (Nat.dvd_mod_iff (by decide)).2 (Nat.dvd_add left right)

theorem contigLoop_onePage (flags : UInt32) : ∀ (n : Nat) (h : Heap) {vs : Vspace} (paddr : UInt64) {vaddr : UInt64},
    (∀ vr ∈ vs.regions, OnePage vr) → pageSize ∣ vaddr.toNat →
      Ends (fun r => (∀ vr ∈ r.2.1.regions, OnePage vr) ∧ r.2.1.mmapBase = vs.mmapBase) (fun _ => True)
        (contigLoop flags n h vs paddr vaddr)
  | 0, h, vs, paddr, vaddr, regions, _ => ⟨regions, rfl⟩
  | n + 1, h, vs, paddr, vaddr, regions, aligned => by
      unfold contigLoop Heap.kmalloc
      cases h.objectSupply with
      | nil => exact ⟨regions, rfl⟩
      | cons obj objs =>
          dsimp only
          apply Ends.bind ((mapIn_books _ vs _).mono (fun _ books => books) fun _ _ => trivial)
          rintro ⟨h₁, vs₁⟩ ⟨used, books⟩
          obtain rfl : vs₁ = _ := books.vspace
          exact contigLoop_onePage flags n h₁ (paddr + 4096) (OnePage.add aligned obj flags _ regions)
            (dvd_toNat_add aligned (Nat.dvd_refl pageSize))

/-- **Every address space is made of pages.** -/
theorem Built.paged (built : Built vs) : Paged vs := by
  induction built with
  | @alloc h h' vs made =>
      have out := vspaceAlloc_outcome h
      rw [made] at out
      cases out with
      | made => exact ⟨nofun, ⟨0x1000000, rfl⟩⟩
  | @mapPage h h' vs vs' uva flags ret _ call ih =>
      have out := vspaceMapPage_outcome h vs uva flags
      rw [call] at out
      cases out with
      | unaligned => exact ih
      | noPage => exact ih
      | noRegion => exact ih
      | mapped aligned page rest obj objs _ _ h₁ vs₁ map =>
          have books := mapIn_books (h.took page rest obj objs) vs (pageCall uva flags page)
          rw [map] at books
          obtain ⟨used, books⟩ := books
          obtain rfl : vs₁ = _ := books.vspace
          exact ⟨OnePage.add ((pageSize_dvd_iff uva).1 aligned) obj flags page ih.regions, ih.base⟩
  | @mapContig h h' vs vs' phys size flags ret _ call ih =>
      have paged : Ends (fun r => Paged r.2.1) (fun _ => True) (vspaceMapContigPhys h vs phys size flags) := by
        unfold vspaceMapContigPhys
        split
        · exact ih
        · dsimp only
          split
          · exact ih
          · have regions : ∀ vr ∈ { vs with mmapBase := vs.mmapBase + (pageAlign size).toUInt64 }.regions, OnePage vr :=
              ih.regions
            apply Ends.bind (contigLoop_onePage flags _ h phys regions ih.base)
            rintro ⟨h₁, vs₁, _⟩ ⟨regions, same⟩
            refine ⟨regions, ?_⟩
            change vs₁.mmapBase = _ at same
            show pageSize ∣ vs₁.mmapBase.toNat
            rw [same]
            refine dvd_toNat_add ih.base ?_
            rw [UInt32.toNat_toUInt64]
            unfold pageAlign
            rw [UInt64.toNat_toUInt32, Core.Mmu.Call.toNat_align]
            exact (Nat.dvd_mod_iff (by decide)).2 (Nat.dvd_mul_left _ _)
      rw [call] at paged
      exact paged

theorem perform_built (h : Heap) (built : Built vs) (request : Request) :
    Ends (fun r => Built r.2) (fun _ => True) (perform h vs request) := by
  cases request with
  | mapPage uva flags =>
      rw [perform]
      cases result : vspaceMapPage h vs uva flags with
      | error h => trivial
      | ok r => exact built.mapPage result
  | mapContig phys size flags =>
      rw [perform]
      cases result : vspaceMapContigPhys h vs phys size flags with
      | error h => trivial
      | ok r => exact built.mapContig result

theorem session_built {s : Session} (built : Built s.vs) (ops : List Op) : Built (session.run s ops).vs := by
  induction ops generalizing s with
  | nil => exact built
  | cons op rest ih =>
      apply ih
      have performed := perform_built (s.heap.supplied op.pages op.objects) built op.request
      unfold session
      dsimp only
      cases result : perform (s.heap.supplied op.pages op.objects) s.vs op.request with
      | error h => exact built
      | ok r =>
          rw [result] at performed
          exact performed

theorem Session.Starts.built {s : Session} (starts : s.Starts) : Built s.vs := by
  obtain ⟨h, -, made, -⟩ := starts
  exact .alloc made

/-- A program whose text is one page. -/
def textSpace : Vspace := (session.run driverSession [mapText]).vs

theorem textSpace_built : Built textSpace := session_built (Session.Starts.built driverSession_starts) _

/-- Two pages that lie beside each other for the program only, a hole, and another page. -/
def threePages : Vspace where
  self := 1
  pgd := 0x100
  mmapBase := userMmapBase
  regions := [⟨2, 0x400000, 0x401000, vmRead ||| vmWrite, 0x107⟩, ⟨3, 0x401000, 0x402000, vmRead ||| vmWrite, 0x103⟩,
    ⟨4, 0x403000, 0x404000, vmRead ||| vmWrite, 0x105⟩]
  tables := [0x100]

theorem user_copies_exact_three : ExactFrom threePages 0x400ff0 0x2000 ∧ ExactTo threePages 0x400ff0 0x2000 :=
  (user_copies_exact_iff
    (List.forall_mem_cons.2 ⟨⟨⟨0x400, rfl⟩, rfl⟩, List.forall_mem_cons.2 ⟨⟨⟨0x401, rfl⟩, rfl⟩,
      List.forall_mem_singleton.2 ⟨⟨0x403, rfl⟩, rfl⟩⟩⟩) 0x400ff0 0x2000).2
    (lowRange_of_regions (by decide) 0x400ff0 0x2000)

/-- A program with one page, that lies above 4 GiB. -/
def highPage : Vspace := ⟨1, 0x100, userMmapBase, [⟨2, 0x400000, 0x401000, vmRead ||| vmWrite, 0x100105⟩], [0x100]⟩

/-- **A page above 4 GiB is read where it is not.**  The byte that `copy_from_user` takes for it is one
of page 0x105. -/
theorem high_page_read_elsewhere :
    (∀ vr ∈ highPage.regions, OnePage vr) ∧
      (copyFromUser (some highPage) (marked 0x100105) (fun _ => 7) 0 0x400010 1).map (fun r => (r.1 0, r.2)) =
        some (0, 0) ∧
      bytes (marked 0x100105) (0x100105, 0x10) = 1 ∧
      ¬ (ExactFrom highPage 0x400010 1 ∧ ExactTo highPage 0x400010 1) := by
  refine ⟨List.forall_mem_singleton.2 ⟨⟨0x400, rfl⟩, rfl⟩, by decide +kernel, by decide +kernel, fun both => ?_⟩
  obtain ⟨k, buf', ret, run, longest, rest, contents⟩ := both.1 (marked 0x100105) (fun _ => 7) 0
  have ran : (copyFromUser (some highPage) (marked 0x100105) (fun _ => 7) 0 0x400010 1).map (fun r => (r.1 0, r.2)) =
      some (0, 0) := by decide +kernel
  rw [run, Option.map_some] at ran
  obtain ⟨byte, whole⟩ : buf' 0 = 0 ∧ ret = 0 := Prod.mk.inj (Option.some.inj ran)
  have one : k = 1 := by
    have le := longest.le
    rw [whole] at rest
    change 0 = 1 - k at rest
    change k ≤ 1 at le
    omega
  rw [contents 0, if_pos (by omega)] at byte
  revert byte
  decide +kernel

end Range

end Minus.Mm.Uaccess
