/-
# Fs.Sysif — `read` and `write` of the current program

`sys_read` and `sys_write` of `kernel/fs/sysif/sysif_fs.c`: the data moves through 256 bytes
of kernel stack, in rounds of one file operation and one copy from or to the program.

`sys_read` moves the position in the file operation and copies afterwards.  A copy that
fails gives up the bytes of its round, and the position has moved by them.  So it accounts for
the bytes exactly where the program has a place for all that the file delivers
(`read_write_account`).  `sys_write` copies first.

A file operation is given by the bytes done before it, which says which call it is; the
blocks whose buffers can be had may differ from call to call.
-/
import Minus.Fs.Ext4FileIo
import Minus.Mm.UaccessProt
import Minus.Mm.UaccessString

namespace Minus.Fs.Sysif

set_option autoImplicit false

open Minus.Theory
open Minus.Core.Mmu (Memory pageSize)
open Minus.Mm.AddressSpace (Vspace)
open Minus.Mm.Uaccess
open Minus.Fs.Ext4

/-! ## sysif_fs.c -/

/-- `SYS_IO_BOUNCE`. -/
def sysIoBounce : Nat := 256

/-- `-EFAULT`. -/
def efault : Int := -14

/-- `fd_read` on a regular file: the call, the count and `f_pos`. -/
abbrev FdRead := Nat → Nat → Nat → ReadResult

/-- One round of `sys_read`: what is returned with the memory and the position left behind, or the
memory, the position and `done` of the next round. -/
def sysReadRound (fdRead : FdRead) (curVspace : Option Vspace) (buf : UInt64) (count : Nat) (mem : Memory) (pos done : Nat) :
    Option (Except (Memory × Int × Nat) (Memory × Nat × Nat)) :=
  let chunk := min (count - done) sysIoBounce
  let r := fdRead done chunk pos
  if r.ret < 0 then some (.error (mem, if done = 0 then r.ret else done, r.pos))
  else if r.ret = 0 then some (.error (mem, done, r.pos))
  else
    (copyToUser curVspace mem (buf + UInt64.ofNat done) (fun k => r.buf.getD k 0) 0 (UInt32.ofNat r.ret.toNat)).map
      fun copied =>
        if copied.2 ≠ 0 then .error (copied.1, if done = 0 then efault else done, r.pos)
        else if r.ret.toNat < chunk then .error (copied.1, (done + r.ret.toNat : Nat), r.pos)
        else .ok (copied.1, r.pos, done + r.ret.toNat)

def sysReadLoop (fdRead : FdRead) (curVspace : Option Vspace) (buf : UInt64) (count : Nat) :
    Nat → Memory → Nat → Nat → Option (Memory × Int × Nat)
  | fuel, mem, pos, done =>
      if done < count then
        match fuel with
        | 0 => none
        | fuel + 1 =>
            match sysReadRound fdRead curVspace buf count mem pos done with
            | none => none
            | some (.error r) => some r
            | some (.ok (mem, pos, done)) => sysReadLoop fdRead curVspace buf count fuel mem pos done
      else some (mem, done, pos)

/-- The memory, what is returned, and `f_pos`. -/
def sysRead (fdRead : FdRead) (curVspace : Option Vspace) (mem : Memory) (buf : UInt64) (count : UInt32) (pos : Nat) :
    Option (Memory × Int × Nat) :=
  sysReadLoop fdRead curVspace buf count.toNat count.toNat mem pos 0

/-- `fd_write` on a regular file: the call, the file, the bytes and `f_pos`. -/
abbrev FdWrite := Nat → State → List UInt8 → Nat → Option WriteResult

/-- One round of `sys_write`, with what the bounce buffer holds. -/
def sysWriteRound (fdWrite : FdWrite) (curVspace : Option Vspace) (mem : Memory) (buf : UInt64) (count : Nat) (kbuf : Bytes)
    (s : State) (pos done : Nat) : Option (Except (State × Int × Nat) (Bytes × State × Nat × Nat)) :=
  let chunk := min (count - done) sysIoBounce
  match copyFromUser curVspace mem kbuf 0 (buf + UInt64.ofNat done) (UInt32.ofNat chunk) with
  | none => none
  | some (kbuf, left) =>
      if left ≠ 0 then some (.error (s, if done = 0 then efault else done, pos))
      else
        (fdWrite done s ((List.range chunk).map kbuf) pos).map fun r =>
          if r.ret < 0 then .error (r.state, if done = 0 then r.ret else done, r.pos)
          else if r.ret.toNat < chunk then .error (r.state, (done + r.ret.toNat : Nat), r.pos)
          else .ok (kbuf, r.state, r.pos, done + r.ret.toNat)

def sysWriteLoop (fdWrite : FdWrite) (curVspace : Option Vspace) (mem : Memory) (buf : UInt64) (count : Nat) :
    Nat → Bytes → State → Nat → Nat → Option (State × Int × Nat)
  | fuel, kbuf, s, pos, done =>
      if done < count then
        match fuel with
        | 0 => none
        | fuel + 1 =>
            match sysWriteRound fdWrite curVspace mem buf count kbuf s pos done with
            | none => none
            | some (.error r) => some r
            | some (.ok (kbuf, s, pos, done)) => sysWriteLoop fdWrite curVspace mem buf count fuel kbuf s pos done
      else some (s, done, pos)

/-- The file, what is returned, and `f_pos`. -/
def sysWrite (fdWrite : FdWrite) (curVspace : Option Vspace) (mem : Memory) (buf : UInt64) (count : UInt32) (kbuf : Bytes)
    (s : State) (pos : Nat) : Option (State × Int × Nat) :=
  sysWriteLoop fdWrite curVspace mem buf count.toNat count.toNat kbuf s pos 0

/-! ## Reading -/

section Read

variable {vs : Vspace} {buf : UInt64} {fdRead : FdRead} {pos count n : Nat} {ready : Nat → Prop} {byte : Nat → UInt8}

/-- The file has `n` bytes for the call at most; each round gives those that are ready, or fails
where there is none. -/
def Delivers (fdRead : FdRead) (pos count n : Nat) (ready : Nat → Prop) (byte : Nat → UInt8) : Prop :=
  ∀ done, done < count → 256 ∣ done → ∃ k e, LongestPrefix (fun j => ready (done + j)) (min (min (count - done) 256) (n - done)) k ∧
    e < 0 ∧ fdRead done (min (count - done) 256) (pos + done) =
      ⟨if k = 0 ∧ 0 < min (min (count - done) 256) (n - done) then e else k,
        (List.range k).map fun j => byte (done + j), pos + done + k⟩

/-- All that the file gives behind `done`, `k` bytes, is with the program. -/
def Told (vs : Vspace) (buf : UInt64) (pos : Nat) (byte : Nat → UInt8) (mem : Memory) (done k : Nat)
    (r : Option (Memory × Int × Nat)) : Prop :=
  (∀ j < k, Mapped vs buf (done + j)) ∧ ∃ mem' ret, r = some (mem', ret, pos + done + k) ∧
    (ret = (done + k : Nat) ∨ ret < 0 ∧ done + k = 0) ∧
    ∀ l : Nat × Nat, l.2 < pageSize → bytes mem' l =
      scatter (fun j => aliasLoc vs buf (done + j)) (fun j => byte (done + j)) k (bytes mem) l

/-- Some of it has no place there; the position has moved by more than what is returned. -/
def Faulted (vs : Vspace) (buf : UInt64) (pos done k : Nat) (r : Option (Memory × Int × Nat)) : Prop :=
  (∃ j < k, ¬ Mapped vs buf (done + j)) ∧ ∃ mem' ret pos', r = some (mem', ret, pos') ∧
    (ret < 0 → pos' ≠ pos) ∧ (0 ≤ ret → (pos' : Int) ≠ pos + ret)

variable (buf byte) in
/-- The copy of a round. -/
theorem copyBack_spec (one : ∀ vr ∈ vs.regions, OnePage vr) (mem : Memory) (bytes_ : List UInt8) (done : Nat) {a : Nat}
    (short : done + a < 2 ^ 32) (listed : bytes_ = (List.range a).map fun j => byte (done + j)) :
    ∃ k mem' left, copyToUser (some vs) mem (buf + UInt64.ofNat done) (fun j => bytes_.getD j 0) 0 (UInt32.ofNat a) =
        some (mem', left) ∧ LongestPrefix (fun j => Mapped vs buf (done + j)) a k ∧ left.toNat = a - k ∧
      (k = a → ∀ l : Nat × Nat, l.2 < pageSize → bytes mem' l =
        scatter (fun j => aliasLoc vs buf (done + j)) (fun j => byte (done + j)) a (bytes mem) l) := by
  have size : (UInt32.ofNat a).toNat = a := UInt32.toNat_ofNat_of_lt' (Nat.lt_of_le_of_lt (Nat.le_add_left a done) short)
  obtain ⟨k, mem', left, run, longest, rest, contents⟩ :=
    copyToUserLoop_spec one (fun j => bytes_.getD j 0) mem 0 (buf + UInt64.ofNat done)
      (Nat.le_refl (UInt32.ofNat a).toNat)
  rw [size] at longest rest
  have shifted : Mapped vs (buf + UInt64.ofNat done) = fun j => Mapped vs buf (done + j) := by
    funext j
    exact propext (mapped_shift (by omega))
  rw [shifted] at longest
  refine ⟨k, mem', left, run, longest, rest, ?_⟩
  rintro rfl l inPage
  have locs : aliasLoc vs (buf + UInt64.ofNat done) = fun j => aliasLoc vs buf (done + j) := by
    funext j
    rw [aliasLoc_shift, UInt64.toNat_ofNat_of_lt' (show done < 2 ^ 64 by omega)]
  rw [contents l inPage, locs]
  refine congrFun (scatter_congr_src fun j below => ?_) l
  subst listed
  rw [Nat.zero_add, List.getD_eq_getElem?_getD, List.getElem?_map, List.getElem?_range below]
  rfl

variable (buf) in
/-- **One round of `sys_read`** ends it, or moves all the bytes of its chunk. -/
theorem sysReadRound_spec (one : ∀ vr ∈ vs.regions, OnePage vr) (delivers : Delivers fdRead pos count n ready byte) (mem : Memory)
    {done k : Nat} (small : count < 2 ^ 32) (below : done < count) (aligned : 256 ∣ done)
    (longest : LongestPrefix (fun j => ready (done + j)) (n - done) k) :
    match sysReadRound fdRead (some vs) buf count mem (pos + done) done with
    | none => False
    | some (.error r) => Told vs buf pos byte mem done k (some r) ∨ Faulted vs buf pos done k (some r)
    | some (.ok (mem', pos', done')) => ∃ c, c = min (count - done) 256 ∧ c ≤ k ∧ pos' = pos + (done + c) ∧ done' = done + c ∧
        (∀ j < c, Mapped vs buf (done + j)) ∧ ∀ l : Nat × Nat, l.2 < pageSize → bytes mem' l =
          scatter (fun j => aliasLoc vs buf (done + j)) (fun j => byte (done + j)) c (bytes mem) l := by
  obtain ⟨a, e, part, failed, result⟩ := delivers done below aligned
  obtain rfl := part.unique (longest.shorten (Nat.min_le_right _ _))
  have le := longest.le
  unfold sysReadRound sysIoBounce
  dsimp only
  set c := min (count - done) 256 with c_def
  by_cases nothing : k = 0
  · subst nothing
    have told (ret : Int) (answer : ret = (done + 0 : Nat) ∨ ret < 0 ∧ done + 0 = 0) :
        Told vs buf pos byte mem done 0 (some (mem, ret, pos + done + 0)) :=
      ⟨nofun, mem, ret, rfl, answer, fun _ _ => rfl⟩
    rw [Nat.min_zero] at result
    generalize ret_def : (if 0 = 0 ∧ 0 < min c (n - done) then e else ((0 : Nat) : Int)) = ret at result
    have either : ret = e ∨ ret = 0 := by
      rw [← ret_def]
      split
      · exact .inl rfl
      · exact .inr rfl
    rw [result]
    dsimp only
    rcases either with rfl | rfl
    · rw [if_pos failed]
      refine .inl (told _ ?_)
      split
      · exact .inr ⟨failed, by omega⟩
      · exact .inl rfl
    · rw [if_neg (Int.lt_irrefl 0), if_pos rfl]
      exact .inl (told _ (.inl rfl))
  · have got : min (min c (n - done)) k = min c k := by omega
    have positive : 0 < min c k := by omega
    rw [got, if_neg fun missed => positive.ne' missed.1] at result
    rw [result]
    dsimp only
    rw [if_neg (by omega), if_neg (by omega), Int.toNat_natCast]
    obtain ⟨m, mem', left, run, copied, rest, contents⟩ :=
      copyBack_spec buf byte one mem ((List.range (min c k)).map fun j => byte (done + j)) done (a := min c k) (by omega)
        rfl
    have copied_le := copied.le
    rw [run, Option.map_some]
    by_cases whole : m = min c k
    · have zero : left = 0 := UInt32.toNat_inj.1 (rest.trans (by rw [whole, Nat.sub_self]; rfl))
      have mapped : ∀ j < min c k, Mapped vs buf (done + j) := fun j less => copied.all j (by omega)
      dsimp only
      rw [if_neg (not_not_intro zero)]
      by_cases short : min c k < c
      · rw [if_pos short]
        have all : min c k = k := by omega
        rw [all] at mapped contents whole ⊢
        exact .inl ⟨mapped, mem', _, rfl, .inl rfl, contents whole⟩
      · rw [if_neg short]
        have all : min c k = c := by omega
        rw [all] at mapped contents whole ⊢
        exact ⟨c, rfl, by omega, Nat.add_assoc .., rfl, mapped, contents whole⟩
    · have nonzero : left ≠ 0 := by
        rintro rfl
        change 0 = _ at rest
        omega
      dsimp only
      rw [if_pos nonzero]
      refine .inr ⟨⟨m, by omega, copied.stop (by omega)⟩, mem', _, _, rfl, fun _ => by omega, fun positive => ?_⟩
      split
      · rename_i first
        rw [if_pos first] at positive
        exact absurd positive (by decide)
      · omega

theorem sysReadLoop_over {done k : Nat} (mem : Memory) (fuel : Nat) (past : ¬ done < count) (bound : n ≤ count)
    (longest : LongestPrefix (fun j => ready (done + j)) (n - done) k) :
    Told vs buf pos byte mem done k (sysReadLoop fdRead (some vs) buf count fuel mem (pos + done) done) := by
  have le := longest.le
  obtain rfl : k = 0 := by omega
  unfold sysReadLoop
  rw [if_neg past]
  exact ⟨nofun, mem, _, rfl, .inl rfl, fun _ _ => rfl⟩

variable (buf) in
/-- **The loop of `sys_read`.** -/
theorem sysReadLoop_spec (one : ∀ vr ∈ vs.regions, OnePage vr) (delivers : Delivers fdRead pos count n ready byte)
    (small : count < 2 ^ 32) (bound : n ≤ count) {fuel : Nat} (mem : Memory) (done : Nat) {k : Nat} (enough : count - done ≤ fuel)
    (aligned : done < count → 256 ∣ done) (longest : LongestPrefix (fun j => ready (done + j)) (n - done) k) :
    Told vs buf pos byte mem done k (sysReadLoop fdRead (some vs) buf count fuel mem (pos + done) done) ∨
      Faulted vs buf pos done k (sysReadLoop fdRead (some vs) buf count fuel mem (pos + done) done) := by
  induction fuel generalizing mem done k with
  | zero => exact .inl (sysReadLoop_over mem 0 (by omega) bound longest)
  | succ fuel ih =>
      by_cases below : done < count
      · have round := sysReadRound_spec buf one delivers mem small below (aligned below) longest
        unfold sysReadLoop
        rw [if_pos below]
        dsimp only
        cases result : sysReadRound fdRead (some vs) buf count mem (pos + done) done with
        | none =>
            rw [result] at round
            exact round.elim
        | some ended =>
            rw [result] at round
            match ended, round with
            | .error r, round => exact round
            | .ok (mem', pos', done'), ⟨c, chunk, le, moved, next, mapped, contents⟩ =>
                subst moved next
                have rest := longest.drop le
                rw [Nat.sub_sub] at rest
                simp only [← Nat.add_assoc] at rest
                dsimp only
                rcases ih mem' (done + c) (by omega) (fun more => by omega) rest with
                  ⟨later, mem'', ret, run, answer, contents'⟩ | ⟨⟨j, less, absent⟩, mem'', ret, pos'', run, negative, positive⟩
                · refine .inl ⟨fun j less => ?_, mem'', ret, ?_, ?_, fun l inPage => ?_⟩
                  · by_cases early : j < c
                    · exact mapped j early
                    · have there := later (j - c) (by omega)
                      rwa [show done + c + (j - c) = done + j by omega] at there
                  · rw [run, show pos + (done + c) + (k - c) = pos + done + k by omega]
                  · rwa [show done + c + (k - c) = done + k by omega] at answer
                  · rw [contents' l inPage, show k = c + (k - c) by omega, scatter_append, Nat.add_sub_cancel_left]
                    simp only [← Nat.add_assoc]
                    exact scatter_local (contents l inPage)
                · refine .inr ⟨⟨c + j, by omega, ?_⟩, mem'', ret, pos'', run, negative, positive⟩
                  rwa [Nat.add_assoc] at absent
      · exact .inl (sysReadLoop_over mem _ below bound longest)

/-- `sys_read` accounts for the bytes of the file, whatever the program's memory holds. -/
def ReadAccounts (fdRead : FdRead) (vs : Vspace) (buf : UInt64) (count : UInt32) (pos : Nat) (file : Nat → UInt8) : Prop :=
  ∀ mem, ∃ mem' ret pos', sysRead fdRead (some vs) mem buf count pos = some (mem', ret, pos') ∧
    (ret < 0 → pos' = pos) ∧
    (0 ≤ ret → (pos' : Int) = pos + ret ∧ ∀ i : Nat, (i : Int) < ret → userByte vs mem' buf i = file i)

/-- Each of `k` bytes has its place with the program, below 4 GiB; where two have the same, the
last of them is right for both. -/
def Fits (vs : Vspace) (buf : UInt64) (byte file : Nat → UInt8) (k : Nat) : Prop :=
  ∀ i < k, Mapped vs buf i ∧ (pageLoc vs buf i).1 < 2 ^ 20 ∧
    ∀ j, i ≤ j → j < k → pageLoc vs buf j = pageLoc vs buf i →
      (∀ l, j < l → l < k → pageLoc vs buf l ≠ pageLoc vs buf i) → byte j = file i

theorem exists_other_byte (b : UInt8) (l : Nat × Nat) : ∃ mem, bytes mem l ≠ b := by
  by_cases zero : b = 0
  · refine ⟨marked l.1, ?_⟩
    rw [bytes_marked, if_pos rfl, zero]
    decide
  · refine ⟨fun _ _ => 0, fun same => zero ?_⟩
    rw [← same]
    exact byteOf_zero _

/-- **`sys_read` accounts for every byte exactly if all that is delivered fits.** -/
theorem readAccounts_iff (one : ∀ vr ∈ vs.regions, OnePage vr) {count : UInt32} {file : Nat → UInt8}
    (delivers : Delivers fdRead pos count.toNat n ready byte) (bound : n ≤ count.toNat) :
    ReadAccounts fdRead vs buf count pos file ↔ ∀ k, LongestPrefix ready n k → Fits vs buf byte file k := by
  have spec (mem : Memory) {k : Nat} (longest : LongestPrefix ready n k) :
      Told vs buf pos byte mem 0 k (sysRead fdRead (some vs) mem buf count pos) ∨
        Faulted vs buf pos 0 k (sysRead fdRead (some vs) mem buf count pos) :=
    sysReadLoop_spec buf one delivers count.toNat_lt bound mem 0 (Nat.le_refl _)
      (fun _ => Nat.dvd_zero 256) (by simp only [Nat.zero_add]; exact longest)
  constructor
  · intro accounts k longest
    -- the property excludes a fault, so the bytes are where the copy puts them
    have told (mem : Memory) : (∀ j < k, Mapped vs buf j) ∧ ∃ mem', (∀ i < k, userByte vs mem' buf i = file i) ∧
        ∀ l : Nat × Nat, l.2 < pageSize → bytes mem' l = scatter (aliasLoc vs buf) byte k (bytes mem) l := by
      obtain ⟨mem', ret, pos', run, negative, positive⟩ := accounts mem
      rcases spec mem longest with ⟨mapped, mem'', ret', run', answer, contents⟩ | ⟨-, mem'', ret', pos'', run', bad, worse⟩
      · simp only [Nat.zero_add] at mapped answer contents
        obtain ⟨rfl, same⟩ := Prod.mk.inj (Option.some.inj (run.symm.trans run'))
        obtain ⟨rfl, -⟩ := Prod.mk.inj same
        refine ⟨mapped, mem', fun i below => ?_, contents⟩
        have counted : ret = (k : Int) := answer.resolve_right fun none_ => by omega
        exact (positive (by omega)).2 i (by omega)
      · obtain ⟨-, same⟩ := Prod.mk.inj (Option.some.inj (run.symm.trans run'))
        obtain ⟨rfl, rfl⟩ := Prod.mk.inj same
        by_cases less : ret < 0
        · exact absurd (negative less) (bad less)
        · exact absurd (positive (by omega)).1 (worse (by omega))
    have low : ∀ i < k, (pageLoc vs buf i).1 < 2 ^ 20 := by
      intro i below
      by_contra high
      obtain ⟨mem, other⟩ := exists_other_byte (file i) (pageLoc vs buf i)
      obtain ⟨-, mem', told, contents⟩ := told mem
      have there := told i below
      rw [userByte, contents _ (pageLoc_inPage one buf i), scatter_elsewhere] at there
      · exact other there
      · exact fun l _ same => high (same ▸ aliasLoc_low vs buf l)
    obtain ⟨mapped, mem', told, contents⟩ := told fun _ _ => 0
    refine fun i below => ⟨mapped i below, low i below, fun j le less same last => ?_⟩
    have there := told i below
    rw [userByte, contents _ (pageLoc_inPage one buf i), scatter_congr fun l less => aliasLoc_of_low (low l less), ← same,
      scatter_last less (by rw [same]; exact last)] at there
    exact there
  · intro fits mem
    obtain ⟨k, longest⟩ := LongestPrefix.exists_ ready n
    have fits := fits k longest
    rcases spec mem longest with ⟨-, mem', ret, run, answer, contents⟩ | ⟨⟨j, less, absent⟩, -⟩
    · simp only [Nat.zero_add] at answer contents
      refine ⟨mem', ret, _, run, fun less => by omega, fun positive => ⟨by omega, fun i below => ?_⟩⟩
      have inside : i < k := by omega
      obtain ⟨j, le, less, same, last⟩ := exists_last (pageLoc vs buf) inside
      rw [userByte, contents _ (pageLoc_inPage one buf i),
        scatter_congr fun l less => aliasLoc_of_low (fits l less).2.1, ← same, scatter_last less (by rw [same]; exact last)]
      exact (fits i inside).2.2 j le less same last
    · rw [Nat.zero_add] at absent
      exact absurd (fits j less).1 absent

/-! ### ext4 -/

/-- `ext4_file_read` of the calls, each with its own failures. -/
def fdReadExt4 (v : Volume) (io : Nat → Nat → Bool) (s : State) : FdRead := fun done len pos => ext4FileReadIo v (io done) s len pos

/-- Byte `i` of a `sys_read` can be had in the call that comes to it. -/
def Ready (v : Volume) (io : Nat → Nat → Bool) (s : State) (pos i : Nat) : Prop :=
  Readable v (io (i / 256 * 256)) s (pos + i)

theorem fdReadExt4_delivers (v : Volume) (io : Nat → Nat → Bool) (s : State) (pos count : Nat) :
    Delivers (fdReadExt4 v io s) pos count (min count (s.layout.inode.iSize - pos)) (Ready v io s pos)
      fun i => readByte v s (pos + i) := by
  intro done below aligned
  obtain ⟨k, longest, result⟩ := ext4FileReadIo_spec v (io done) s (pos + done) (min (count - done) 256) (by omega)
  have room : min (min (count - done) 256) (s.layout.inode.iSize - (pos + done)) =
      min (min (count - done) 256) (min count (s.layout.inode.iSize - pos) - done) := by omega
  rw [room] at longest result
  refine ⟨k, Errno.eio.ret, longest.congr fun j less => ?_, by decide, result.trans ?_⟩
  · have call : (done + j) / 256 * 256 = done := by omega
    unfold Ready
    rw [call, Nat.add_assoc]
  · unfold bytesUpTo
    rw [Nat.add_sub_cancel_left]
    simp only [Nat.add_assoc]

end Read

/-! ## Writing -/

/-- The first `m` bytes of a sequence are written at `pos`. -/
def put (c : Contents) (pos : Nat) (byte : Nat → UInt8) (m : Nat) : Contents :=
  if m = 0 then c
  else ⟨max c.size (pos + m), fun i => if pos ≤ i ∧ i < pos + m then byte (i - pos) else c.byte i⟩

section Put

variable {c : Contents} {pos : Nat} {byte : Nat → UInt8}

variable (pos byte) in
theorem put_put (a b : Nat) : put (put c pos byte a) (pos + a) (fun i => byte (a + i)) b = put c pos byte (a + b) := by
  by_cases first : a = 0
  · subst first
    simp only [put, if_true, Nat.add_zero, Nat.zero_add]
  · by_cases second : b = 0
    · subst second
      rfl
    · unfold put
      rw [if_neg second, if_neg first, if_neg (by omega)]
      dsimp only
      congr 1
      · omega
      · funext i
        by_cases late : pos + a ≤ i ∧ i < pos + a + b
        · rw [if_pos late, if_pos (by omega), show a + (i - (pos + a)) = i - pos by omega]
        · rw [if_neg late]
          by_cases early : pos ≤ i ∧ i < pos + a
          · rw [if_pos early, if_pos (by omega)]
          · rw [if_neg early, if_neg (by omega)]

theorem stored_eq_put {len : Nat} {ret : Int} (le : ret ≤ len) :
    c.stored pos ((List.range len).map byte) ret = put c pos byte ret.toNat := by
  unfold Contents.stored put
  by_cases some_ : 0 < ret
  · have count : (((List.range len).map byte).take ret.toNat).length = ret.toNat := by
      rw [List.length_take, List.length_map, List.length_range]
      omega
    rw [if_pos some_, if_neg (by omega)]
    unfold Contents.write
    rw [count]
    congr 1
    funext i
    split
    · rw [List.getD_eq_getElem?_getD, List.getElem?_take_of_lt (by omega), List.getElem?_map,
        List.getElem?_range (by omega)]
      rfl
    · rfl
  · rw [if_neg some_, if_pos (by omega)]

end Put

section Write

variable {vs : Vspace} {mem : Memory} {buf : UInt64} {v : Volume} {io : Nat → Nat → Bool} {c : Contents} {pos count : Nat}

/-- `ext4_file_write` of the calls, each with its own failures. -/
def fdWriteExt4 (v : Volume) (io : Nat → Nat → Bool) : FdWrite := fun done => ext4FileWriteIo v (io done)

/-- The bytes of a round. -/
def roundBytes (vs : Vspace) (mem : Memory) (buf : UInt64) (count done : Nat) : List UInt8 :=
  (List.range (min (count - done) 256)).map fun j => userByte vs mem buf (done + j)

/-- The writes that the rounds make from `done` on are clean. -/
def CallsClean (v : Volume) (io : Nat → Nat → Bool) (vs : Vspace) (mem : Memory) (buf : UInt64) (count : Nat) :
    Nat → State → Nat → Nat → Prop
  | 0, _, _, _ => True
  | fuel + 1, s, pos, done =>
      done < count → (∀ j < min (count - done) 256, Mapped vs buf (done + j)) →
        WriteCleanIo v (io done) s (roundBytes vs mem buf count done) pos ∧
          ∀ r, ext4FileWriteIo v (io done) s (roundBytes vs mem buf count done) pos = some r →
            CallsClean v io vs mem buf count fuel r.state r.pos (done + r.ret.toNat)

/-- From `done` on `m` bytes have been written, counted and passed by the position. -/
def Accounted (v : Volume) (vs : Vspace) (mem : Memory) (buf : UInt64) (c : Contents) (pos done : Nat)
    (r : Option (State × Int × Nat)) : Prop :=
  ∃ s' ret m, r = some (s', ret, pos + done + m) ∧ (ret = (done + m : Nat) ∨ ret < 0 ∧ done + m = 0) ∧
    Refines v s' (put c (pos + done) (fun j => userByte vs mem buf (done + j)) m)

theorem accounted_none {s : State} {done : Nat} {ret : Int} (refines : Refines v s c)
    (answer : ret = (done : Nat) ∨ ret < 0 ∧ done = 0) : Accounted v vs mem buf c pos done (some (s, ret, pos + done)) :=
  ⟨s, ret, 0, rfl, by rwa [Nat.add_zero], refines⟩

variable (mem) in
/-- The copy of a round. -/
theorem copyIn_spec (one : ∀ vr ∈ vs.regions, OnePage vr) (low : ∀ i, Mapped vs buf i → (pageLoc vs buf i).1 < 2 ^ 20)
    (kbuf : Bytes) {done : Nat} (small : count < 2 ^ 32) (below : done < count) :
    ∃ kbuf' left, copyFromUser (some vs) mem kbuf 0 (buf + UInt64.ofNat done) (UInt32.ofNat (min (count - done) 256)) =
        some (kbuf', left) ∧
      (left = 0 → (∀ j < min (count - done) 256, Mapped vs buf (done + j)) ∧
        (List.range (min (count - done) 256)).map kbuf' = roundBytes vs mem buf count done) := by
  have size : (UInt32.ofNat (min (count - done) 256)).toNat = min (count - done) 256 :=
    UInt32.toNat_ofNat_of_lt' (show _ < 2 ^ 32 by omega)
  obtain ⟨k, kbuf', left, run, longest, rest, contents⟩ :=
    copyFromUserLoop_spec one mem kbuf 0 (buf + UInt64.ofNat done)
      (Nat.le_refl (UInt32.ofNat (min (count - done) 256)).toNat)
  rw [size] at longest rest
  refine ⟨kbuf', left, run, ?_⟩
  rintro rfl
  change 0 = _ at rest
  have le := longest.le
  obtain rfl : k = min (count - done) 256 := by omega
  have mapped : ∀ j < min (count - done) 256, Mapped vs buf (done + j) := fun j less =>
    (mapped_shift (by omega)).1 (longest.all j less)
  refine ⟨mapped, List.map_congr_left fun j member => ?_⟩
  have less := List.mem_range.1 member
  rw [contents, if_pos (by omega), Nat.sub_zero, aliasLoc_shift, UInt64.toNat_ofNat_of_lt' (show done < 2 ^ 64 by omega),
    aliasLoc_of_low (low _ (mapped j less)), userByte]

/-- **One round of `sys_write`** ends it, or stores all the bytes of its chunk. -/
theorem sysWriteRound_spec (one : ∀ vr ∈ vs.regions, OnePage vr) (low : ∀ i, Mapped vs buf i → (pageLoc vs buf i).1 < 2 ^ 20)
    (small : count < 2 ^ 32) (kbuf : Bytes) {s : State} {fuel done : Nat} (below : done < count) (refines : Refines v s c)
    (clean : CallsClean v io vs mem buf count (fuel + 1) s (pos + done) done) :
    match sysWriteRound (fdWriteExt4 v io) (some vs) mem buf count kbuf s (pos + done) done with
    | none => False
    | some (.error r) => Accounted v vs mem buf c pos done (some r)
    | some (.ok (_, s', pos', done')) => ∃ m, 0 < m ∧ pos' = pos + (done + m) ∧ done' = done + m ∧
        Refines v s' (put c (pos + done) (fun j => userByte vs mem buf (done + j)) m) ∧
        CallsClean v io vs mem buf count fuel s' pos' done' := by
  unfold sysWriteRound sysIoBounce
  dsimp only
  obtain ⟨kbuf', left, copied, whole⟩ := copyIn_spec mem one low kbuf small below
  rw [copied]
  dsimp only
  by_cases fault : left = 0
  · obtain ⟨mapped, same⟩ := whole fault
    obtain ⟨clean, next⟩ := clean below mapped
    obtain ⟨r, run, wrote⟩ := ext4FileWriteIo_wrote refines clean
    have le := wrote.le
    have stored := wrote.refines
    have moved := wrote.pos_
    unfold roundBytes at le stored
    rw [List.length_map, List.length_range] at le
    rw [stored_eq_put le] at stored
    rw [if_neg (not_not_intro fault), same, fdWriteExt4, run, Option.map_some]
    by_cases failed : r.ret < 0
    · rw [if_pos failed]
      rw [show r.ret.toNat = 0 by omega] at stored moved
      dsimp only
      rw [moved]
      refine accounted_none stored ?_
      split
      · exact .inr ⟨failed, ‹_›⟩
      · exact .inl rfl
    · rw [if_neg failed]
      by_cases short : r.ret.toNat < min (count - done) 256
      · rw [if_pos short]
        dsimp only
        rw [moved]
        exact ⟨r.state, _, r.ret.toNat, rfl, .inl rfl, stored⟩
      · rw [if_neg short]
        exact ⟨r.ret.toNat, by omega, moved.trans (Nat.add_assoc ..), rfl, stored, next r run⟩
  · rw [if_pos fault]
    refine accounted_none refines ?_
    split
    · exact .inr ⟨by decide, ‹_›⟩
    · exact .inl rfl

variable (pos) in
/-- **The loop of `sys_write`.** -/
theorem sysWriteLoop_spec (one : ∀ vr ∈ vs.regions, OnePage vr) (low : ∀ i, Mapped vs buf i → (pageLoc vs buf i).1 < 2 ^ 20)
    (small : count < 2 ^ 32) (done : Nat) {fuel : Nat} (kbuf : Bytes) {s : State} (enough : count - done ≤ fuel) (refines : Refines v s c)
    (clean : CallsClean v io vs mem buf count fuel s (pos + done) done) :
    Accounted v vs mem buf c pos done
      (sysWriteLoop (fdWriteExt4 v io) (some vs) mem buf count fuel kbuf s (pos + done) done) := by
  induction fuel generalizing c kbuf s done with
  | zero =>
      unfold sysWriteLoop
      rw [if_neg (by omega)]
      exact accounted_none refines (.inl rfl)
  | succ fuel ih =>
      unfold sysWriteLoop
      by_cases below : done < count
      · have round := sysWriteRound_spec one low small kbuf below refines clean
        rw [if_pos below]
        dsimp only
        cases result : sysWriteRound (fdWriteExt4 v io) (some vs) mem buf count kbuf s (pos + done) done with
        | none =>
            rw [result] at round
            exact round.elim
        | some ended =>
            rw [result] at round
            match ended, round with
            | .error r, round => exact round
            | .ok (kbuf', s', pos', done'), ⟨m, some_, moved, next, stored, later⟩ =>
                subst moved next
                dsimp only
                obtain ⟨s'', ret, m', run, answer, stored'⟩ := ih _ kbuf' (by omega) stored later
                refine ⟨s'', ret, m + m', ?_, ?_, ?_⟩
                · rw [run, show pos + (done + m) + m' = pos + done + (m + m') by omega]
                · rwa [Nat.add_assoc] at answer
                · have both := put_put (c := c) (pos + done) (fun j => userByte vs mem buf (done + j)) m m'
                  rw [← both]
                  simpa only [Nat.add_assoc] using stored'
      · rw [if_neg below]
        exact accounted_none refines (.inl rfl)

variable (pos) in
/-- Whatever is written where, `sys_write` moves the position by what it returns. -/
theorem sysWriteLoop_moves (done : Nat) {fuel : Nat} {kbuf : Bytes} {s : State} {r : State × Int × Nat}
    (run : sysWriteLoop (fdWriteExt4 v io) (some vs) mem buf count fuel kbuf s (pos + done) done = some r) :
    ∃ m : Nat, r.2.2 = pos + done + m ∧ (r.2.1 = (done + m : Nat) ∨ r.2.1 < 0 ∧ done + m = 0) := by
  induction fuel generalizing kbuf s done with
  | zero =>
      unfold sysWriteLoop at run
      split at run
      · cases run
      · cases run
        exact ⟨0, rfl, .inl rfl⟩
  | succ fuel ih =>
      unfold sysWriteLoop at run
      split at run
      · unfold sysWriteRound at run
        dsimp only at run
        cases copied : copyFromUser (some vs) mem kbuf 0 (buf + UInt64.ofNat done) (UInt32.ofNat (min (count - done) sysIoBounce)) with
        | none =>
            rw [copied] at run
            cases run
        | some at_ =>
            obtain ⟨kbuf', left⟩ := at_
            rw [copied] at run
            dsimp only at run
            by_cases fault : left = 0
            · rw [if_neg (not_not_intro fault)] at run
              cases wrote : fdWriteExt4 v io done s ((List.range (min (count - done) sysIoBounce)).map kbuf') (pos + done) with
              | none =>
                  rw [wrote] at run
                  cases run
              | some w =>
                  have short : ((List.range (min (count - done) sysIoBounce)).map kbuf').length < 2 ^ 31 := by
                    rw [List.length_map, List.length_range]
                    unfold sysIoBounce
                    omega
                  obtain ⟨-, moved⟩ := ext4FileWriteIo_moves short wrote
                  rw [wrote, Option.map_some] at run
                  by_cases failed : w.ret < 0
                  · rw [if_pos failed] at run
                    cases run
                    refine ⟨0, by dsimp only; omega, ?_⟩
                    dsimp only
                    split
                    · exact .inr ⟨failed, by omega⟩
                    · exact .inl rfl
                  · rw [if_neg failed] at run
                    by_cases part : w.ret.toNat < min (count - done) sysIoBounce
                    · rw [if_pos part] at run
                      cases run
                      exact ⟨w.ret.toNat, moved, .inl rfl⟩
                    · rw [if_neg part] at run
                      dsimp only at run
                      rw [moved, Nat.add_assoc] at run
                      obtain ⟨m, there, answer⟩ := ih _ run
                      exact ⟨w.ret.toNat + m, by omega, by rwa [Nat.add_assoc] at answer⟩
            · rw [if_pos fault] at run
              cases run
              refine ⟨0, rfl, ?_⟩
              dsimp only
              split
              · exact .inr ⟨by decide, by omega⟩
              · exact .inl rfl
      · cases run
        exact ⟨0, rfl, .inl rfl⟩

/-- `sys_write` accounts for the bytes of the program. -/
def WriteAccounts (v : Volume) (io : Nat → Nat → Bool) (vs : Vspace) (mem : Memory) (buf : UInt64) (count : UInt32) (s : State)
    (c : Contents) (pos : Nat) : Prop :=
  ∀ kbuf, ∃ s' ret pos', sysWrite (fdWriteExt4 v io) (some vs) mem buf count kbuf s pos = some (s', ret, pos') ∧
    (ret < 0 → pos' = pos ∧ Refines v s' c) ∧
    (0 ≤ ret → (pos' : Int) = pos + ret ∧ Refines v s' (put c pos (userByte vs mem buf) ret.toNat))

theorem writeAccounts_of_clean (one : ∀ vr ∈ vs.regions, OnePage vr) {count : UInt32} {s : State}
    (low : ∀ i, Mapped vs buf i → (pageLoc vs buf i).1 < 2 ^ 20) (refines : Refines v s c)
    (clean : CallsClean v io vs mem buf count.toNat count.toNat s pos 0) : WriteAccounts v io vs mem buf count s c pos := by
  intro kbuf
  obtain ⟨s', ret, m, run, answer, stored⟩ :=
    sysWriteLoop_spec pos one low count.toNat_lt 0 kbuf (Nat.le_refl _) refines clean
  simp only [Nat.zero_add, Nat.add_zero] at run answer stored
  refine ⟨s', ret, pos + m, run, fun negative => ?_, fun positive => ?_⟩
  · obtain ⟨-, rfl⟩ := answer.resolve_left fun counted => by omega
    exact ⟨rfl, stored⟩
  · have counted : ret = (m : Int) := answer.resolve_right fun none_ => by omega
    refine ⟨by omega, ?_⟩
    rwa [counted, Int.toNat_natCast]

end Write

/-- **`read` and `write` account for every byte**: `read` exactly if all that the file delivers fits
in the program's buffer; `write` always moves the position by what it returns, and the
bytes are in the file if its calls are clean and the buffer lies below 4 GiB. -/
theorem read_write_account {vs : Vspace} (built : Built vs) (v : Volume) (io : Nat → Nat → Bool) (s : State) (buf : UInt64)
    (count : UInt32) (pos : Nat) :
    (ReadAccounts (fdReadExt4 v io s) vs buf count pos (fun i => byteAt v s (pos + i)) ↔
      ∀ k, LongestPrefix (Ready v io s pos) (min count.toNat (s.layout.inode.iSize - pos)) k →
        Fits vs buf (fun i => readByte v s (pos + i)) (fun i => byteAt v s (pos + i)) k) ∧
    (∀ mem kbuf s' ret pos', sysWrite (fdWriteExt4 v io) (some vs) mem buf count kbuf s pos = some (s', ret, pos') →
      (ret < 0 → pos' = pos) ∧ (0 ≤ ret → (pos' : Int) = pos + ret)) ∧
    ∀ mem c, Refines v s c → (∀ i, Mapped vs buf i → (pageLoc vs buf i).1 < 2 ^ 20) →
      CallsClean v io vs mem buf count.toNat count.toNat s pos 0 → WriteAccounts v io vs mem buf count s c pos :=
  ⟨readAccounts_iff built.paged.regions (fdReadExt4_delivers v io s pos count.toNat) (Nat.min_le_left _ _),
    fun mem kbuf s' ret pos' run => by
      obtain ⟨m, moved, answer⟩ := sysWriteLoop_moves pos 0 run
      dsimp only at moved answer
      exact ⟨fun negative => by omega, fun positive => by omega⟩,
    fun _ _ refines low clean => writeAccounts_of_clean built.paged.regions low refines clean⟩

/-! ### A small file -/

/-- A file of three bytes, on a volume that works. -/
def threeBytes : Session := step smallVolume oldBytes (.write 0 [1, 2, 3])

theorem threeBytes_refines : Refines smallVolume threeBytes.state threeBytes.contents :=
  (step_good (created_good _ _ _) (by decide +kernel : Clean smallVolume oldBytes (.write 0 [1, 2, 3]))).1

/-- Bytes in places of their own. -/
theorem fits_of_distinct {vs : Vspace} {buf : UInt64} {byte file : Nat → UInt8} {n : Nat}
    (mapped : ∀ i < n, Mapped vs buf i ∧ (pageLoc vs buf i).1 < 2 ^ 20)
    (distinct : ∀ i < n, ∀ j < n, pageLoc vs buf j = pageLoc vs buf i → j = i) (same : ∀ i < n, byte i = file i) {k : Nat}
    (le : k ≤ n) : Fits vs buf byte file k := by
  intro i below
  refine ⟨(mapped i (by omega)).1, (mapped i (by omega)).2, fun j _ less here _ => ?_⟩
  rw [distinct i (by omega) j (by omega) here]
  exact same i (by omega)

theorem read_write_account_small :
    ReadAccounts (fdReadExt4 smallVolume (fun _ _ => true) threeBytes.state) dataSpace 0x400010 2 1
        (fun i => byteAt smallVolume threeBytes.state (1 + i)) ∧
      WriteAccounts smallVolume (fun _ _ => true) dataSpace (fun _ _ => 0) 0x400010 2 threeBytes.state threeBytes.contents 3 := by
  have built : Built dataSpace := session_built (Session.Starts.built Mm.AddressSpace.driverSession_starts) _
  obtain ⟨reads, -⟩ := read_write_account built smallVolume (fun _ _ => true) threeBytes.state 0x400010 2 1
  obtain ⟨-, -, writes⟩ := read_write_account built smallVolume (fun _ _ => true) threeBytes.state 0x400010 2 3
  refine ⟨reads.2 fun k longest => ?_, ?_⟩
  · exact fits_of_distinct (n := 2) (by decide +kernel) (by decide +kernel) (by decide +kernel)
      (longest.le.trans (Nat.min_le_left _ _))
  · refine writes _ _ threeBytes_refines (fun i _ => pageLoc_low (by decide +kernel) _ i) fun _ _ => ?_
    refine ⟨by decide +kernel, fun r run => ?_⟩
    have two : (ext4FileWriteIo smallVolume (fun _ => true) threeBytes.state
        (roundBytes dataSpace (fun _ _ => 0) 0x400010 (UInt32.toNat 2) 0) 3).map (·.ret) = some 2 := by decide +kernel
    dsimp only at run
    rw [run, Option.map_some] at two
    rw [show r.ret = 2 from Option.some.inj two]
    exact fun more => absurd more (by decide)

/-- **A fault loses bytes.**  The buffer starts with the last byte of a page and the next page is not
mapped: `read` returns `-EFAULT`, and the position has moved by two. -/
theorem fault_moves_position :
    Built dataSpace ∧
      (sysRead (fdReadExt4 smallVolume (fun _ _ => true) threeBytes.state) (some dataSpace) (fun _ _ => 0) 0x400fff 2 0).map (·.2) =
        some (-14, 2) ∧
      ¬ ReadAccounts (fdReadExt4 smallVolume (fun _ _ => true) threeBytes.state) dataSpace 0x400fff 2 0
        (fun i => byteAt smallVolume threeBytes.state (0 + i)) := by
  have returned : (sysRead (fdReadExt4 smallVolume (fun _ _ => true) threeBytes.state) (some dataSpace) (fun _ _ => 0) 0x400fff 2
      0).map (·.2) = some (-14, 2) := by decide +kernel
  refine ⟨session_built (Session.Starts.built Mm.AddressSpace.driverSession_starts) _, returned, fun accounts => ?_⟩
  obtain ⟨mem', ret, pos', run, negative, -⟩ := accounts fun _ _ => 0
  rw [run, Option.map_some] at returned
  obtain ⟨rfl, rfl⟩ : ret = -14 ∧ pos' = 2 := Prod.mk.inj (Option.some.inj returned)
  exact absurd (negative (by decide)) (by decide)

end Minus.Fs.Sysif
