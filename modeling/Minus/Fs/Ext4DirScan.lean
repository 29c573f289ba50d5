/-
# Fs.Ext4DirScan — directory walks on arbitrary bytes

When the five walks of `Fs.Ext4DirBytes` return with all their accesses inside the block
buffers, whatever the blocks hold.  The walk over the blocks always ends, because no extent
map has all of the 2^32 blocks (`exists_unmapped`); the walk over the records of a block
ends unless it stays at a record with `rec_len` 0 (`Scan.returns_iff`).

None of the walks is safe on every block.  `survives_iff` says for each of them which
records it has to come to.
-/
import Minus.Fs.Ext4DirBytes
import Mathlib.Algebra.Order.BigOperators.Group.Finset
import Mathlib.Order.Interval.Finset.Nat

namespace Minus.Fs.Ext4Bytes

set_option autoImplicit false

open Minus.Theory
open Minus.Fs.Dcache (Errno)
open Minus.Fs.Ext4Dir (entrySize)
open Minus.Fs.Getdents (GetdentsCtx filldir ext4FileTypeToDt)

/-! ## The blocks of a file -/

section Unmapped

variable {inode : Inode}

/-- A block that is found is in the range of a record. -/
theorem mem_range_of_found {b : UInt32} {p : UInt64} (found : ext4GetBlock inode b = .ok p) :
    ∃ i < (ehEntries inode.iData).toNat, b.toNat ∈
      Finset.Ico (eeBlock inode.iData i).toNat ((eeBlock inode.iData i).toNat + (eeLen inode.iData i).toNat) := by
  have magic : ehMagic inode.iData = extentHeaderMagic := by
    by_contra other
    rw [ext4GetBlock, if_neg other] at found
    cases found
  rw [ext4GetBlock_eq magic] at found
  cases located : Minus.Fs.Ext4.locate (extents inode.iData) b.toNat with
  | none => simp [located] at found
  | some q =>
      obtain ⟨e, first, -⟩ := Option.map_eq_some_iff.1 located
      obtain ⟨i, member, rfl⟩ := List.mem_map.1 (List.mem_of_find?_eq_some first)
      have here : (extentAt inode.iData i).holds b.toNat = true :=
        List.find?_some (p := fun e : Minus.Fs.Ext4.Extent => e.holds b.toNat) first
      have holds := (holds_extentAt ..).1 here
      refine ⟨i, List.mem_range.1 member, Finset.mem_Ico.2 ⟨holds.1, ?_⟩⟩
      exact Nat.lt_of_lt_of_le holds.2 (Nat.mod_le _ _)

/-- **No file has all of its 2^32 blocks.** -/
theorem exists_unmapped (inode : Inode) : ∃ b e, ext4GetBlock inode b = .error e := by
  by_contra all
  push Not at all
  have found (b : UInt32) : ∃ p, ext4GetBlock inode b = .ok p := by
    cases get : ext4GetBlock inode b with
    | error e => exact absurd get (all b e)
    | ok p => exact ⟨p, rfl⟩
  have covered : Finset.range (2 ^ 32) ⊆ (Finset.range (ehEntries inode.iData).toNat).biUnion fun i =>
      Finset.Ico (eeBlock inode.iData i).toNat ((eeBlock inode.iData i).toNat + (eeLen inode.iData i).toNat) := by
    intro b small
    rw [Finset.mem_range] at small
    obtain ⟨p, get⟩ := found (UInt32.ofNat b)
    obtain ⟨i, record, inside⟩ := mem_range_of_found get
    rw [UInt32.toNat_ofNat', Nat.mod_eq_of_lt small] at inside
    exact Finset.mem_biUnion.2 ⟨i, Finset.mem_range.2 record, inside⟩
  have few := Finset.card_le_card covered
  rw [Finset.card_range] at few
  have many := Nat.le_trans few (Finset.card_biUnion_le_card_mul _ _ 65535 fun i _ => by
    rw [Nat.card_Ico, Nat.add_sub_cancel_left]
    have := (eeLen inode.iData i).toNat_lt
    omega)
  rw [Finset.card_range] at many
  have := (ehEntries inode.iData).toNat_lt
  omega

end Unmapped

/-! ## Walks -/

/-- At a record with `rec_len` 0 the record is done again with the variables that the first
time has left, and it is not left then either. -/
def Scan.Persists {σ α : Type} (sc : Scan σ α) : Prop :=
  ∀ nr bh p s s', load16 bh (p + 4) = 0 → sc.record nr bh p s = .ok (.inl s') →
    ∃ s'', sc.record nr bh p s' = .ok (.inl s'')

section Walk

variable {σ α : Type} {sc : Scan σ α} {blockSize : UInt32} {dir : Inode} {bread : Buffers}

/-- The walk comes to the record at `p` of a block. -/
def Scan.ComesTo (sc : Scan σ α) (blockSize : UInt32) (dir : Inode) (bread : Buffers) (start : σ) (nr : UInt64)
    (bh : Bytes) (p : Nat) (s : σ) : Prop :=
  p < blockSize.toNat ∧ ∃ bidx, Reaches (sc.step blockSize dir bread) (.block 0 start) (.record bidx nr bh p s)

/-- The walk returns at the record. -/
def Scan.Stops (sc : Scan σ α) (nr : UInt64) (bh : Bytes) (p : Nat) (s : σ) : Prop :=
  ∃ a, sc.record nr bh p s = .ok (.inr a)

/-- The walk can go on from the record to another one. -/
def LeadsOn (blockSize : UInt32) (bh : Bytes) (p : Nat) : Prop :=
  p + 6 ≤ blockSize.toNat ∧ load16 bh (p + 4) ≠ 0

/-- A walk that is caught at a record. -/
def Scan.Caught (sc : Scan σ α) (blockSize : UInt32) : At σ → Prop
  | .block _ _ => False
  | .record _ nr bh p s => p < blockSize.toNat ∧ p + 6 ≤ blockSize.toNat ∧ load16 bh (p + 4) = 0 ∧
      ∃ s', sc.record nr bh p s = .ok (.inl s')

/-- The blocks before the first one that is not found, and the bytes of the block. -/
def rank (last : Nat) (size : Nat) : At σ → Nat
  | .block b _ => (last - b.toNat) * (size + 2)
  | .record b _ _ p _ => (last - b.toNat) * (size + 2) - 1 - min p size

/-- The walk has not come behind block `last`. -/
def Upto (last : UInt32) : At σ → Prop
  | .block b _ => b.toNat ≤ last.toNat
  | .record b _ _ _ _ => b.toNat < last.toNat

theorem step_record {bidx : UInt32} {nr : UInt64} {bh : Bytes} {p : Nat} {s s' : σ} (inside : p < blockSize.toNat)
    (on : sc.record nr bh p s = .ok (.inl s')) : sc.step blockSize dir bread (.record bidx nr bh p s) =
      (access blockSize.toNat (p + 4) 2 (load16 bh (p + 4))).map fun recLen =>
        .inl (.record bidx nr bh (p + recLen.toNat) s') := by
  rw [Scan.step, if_pos inside, on, ok_bind]
  simp only [access]
  split <;> rfl

theorem step_stop {bidx : UInt32} {nr : UInt64} {bh : Bytes} {p : Nat} {s : σ} {a : α} (inside : p < blockSize.toNat)
    (stop : sc.record nr bh p s = .ok (.inr a)) :
    sc.step blockSize dir bread (.record bidx nr bh p s) = .ok (.inr a) := by
  rw [Scan.step, if_pos inside, stop, ok_bind]

theorem step_fault {bidx : UInt32} {nr : UInt64} {bh : Bytes} {p : Nat} {s : σ} {f : Fault}
    (inside : p < blockSize.toNat) (fault : sc.record nr bh p s = .error f) :
    sc.step blockSize dir bread (.record bidx nr bh p s) = .error f := by
  rw [Scan.step, if_pos inside, fault]
  rfl

theorem step_next {bidx : UInt32} {nr : UInt64} {bh : Bytes} {p : Nat} {s : σ} (behind : blockSize.toNat ≤ p) :
    sc.step blockSize dir bread (.record bidx nr bh p s) = .ok (.inl (.block (bidx + 1) s)) := by
  rw [Scan.step, if_neg (Nat.not_lt.2 behind)]

theorem access_eq_ok {β : Type} {size p n : Nat} {value v : β} :
    access size p n value = .ok v ↔ p + n ≤ size ∧ value = v := by
  unfold access
  split
  · rename_i inside
    exact ⟨fun same => ⟨inside, Except.ok.inj same⟩, fun same => congrArg Except.ok same.2⟩
  · rename_i outside
    exact ⟨fun never => (nomatch never), fun same => absurd same.1 outside⟩

theorem scan_progress (sc : Scan σ α) (blockSize : UInt32) (bread : Buffers) {last : UInt32}
    {e : Minus.Fs.Ext4.Errno} (unmapped : ext4GetBlock dir last = .error e)
    (x y : At σ) (upto : Upto last x) (run : sc.step blockSize dir bread x = .ok (.inl y)) :
    Upto last y ∧ (rank last.toNat blockSize.toNat y < rank last.toNat blockSize.toNat x ∨ sc.Caught blockSize x) := by
  cases x with
  | block bidx s =>
      rw [Scan.step] at run
      split at run
      · split at run
        · cases run
        · rename_i nr found
          have before : bidx.toNat < last.toNat := by
            refine Nat.lt_of_le_of_ne upto fun same => ?_
            rw [UInt32.toNat_inj.1 same, unmapped] at found
            cases found
          split at run
          · cases run
          · obtain rfl := Sum.inl.inj (Except.ok.inj run)
            refine ⟨before, .inl ?_⟩
            have : 0 < (last.toNat - bidx.toNat) * (blockSize.toNat + 2) :=
              Nat.mul_pos (by omega) (Nat.succ_pos _)
            simp only [rank]
            omega
      · cases run
  | record bidx nr bh p s =>
      have before : bidx.toNat < last.toNat := upto
      have wide := last.toNat_lt
      have next : (last.toNat - bidx.toNat) * (blockSize.toNat + 2) =
          (last.toNat - (bidx.toNat + 1)) * (blockSize.toNat + 2) + (blockSize.toNat + 2) := by
        rw [← Nat.succ_mul]
        congr 1
        omega
      by_cases inside : p < blockSize.toNat
      · cases body : sc.record nr bh p s with
        | error f =>
            rw [step_fault inside body] at run
            cases run
        | ok z =>
            cases z with
            | inr a =>
                rw [step_stop inside body] at run
                cases run
            | inl s' =>
                rw [step_record inside body] at run
                cases read : access blockSize.toNat (p + 4) 2 (load16 bh (p + 4)) with
                | error f =>
                    rw [read] at run
                    cases run
                | ok recLen =>
                    obtain ⟨room, rfl⟩ := access_eq_ok.1 read
                    rw [read] at run
                    obtain rfl := Sum.inl.inj (Except.ok.inj run)
                    refine ⟨before, ?_⟩
                    by_cases zero : load16 bh (p + 4) = 0
                    · exact .inr ⟨inside, room, zero, s', body⟩
                    · have : (load16 bh (p + 4)).toNat ≠ 0 := fun same => zero (UInt16.toNat_inj.1 same)
                      generalize (load16 bh (p + 4)).toNat = recLen at this ⊢
                      simp only [rank]
                      exact .inl (by omega)
      · rw [step_next (Nat.not_lt.1 inside)] at run
        obtain rfl := Sum.inl.inj (Except.ok.inj run)
        have number : (bidx + 1).toNat = bidx.toNat + 1 := by
          rw [UInt32.toNat_add]
          exact Nat.mod_eq_of_lt (by show bidx.toNat + 1 < _; omega)
        refine ⟨by show (bidx + 1).toNat ≤ _; omega, .inl ?_⟩
        simp only [rank, number]
        omega

theorem caught_closed (persists : sc.Persists) (x : At σ) (caught : sc.Caught blockSize x) :
    ∃ y, sc.step blockSize dir bread x = .ok (.inl y) ∧ sc.Caught blockSize y := by
  cases x with
  | block bidx s => exact caught.elim
  | record bidx nr bh p s =>
      obtain ⟨inside, room, zero, s', body⟩ := caught
      obtain ⟨s'', again⟩ := persists nr bh p s s' zero body
      refine ⟨.record bidx nr bh p s', ?_, inside, room, zero, s'', again⟩
      rw [step_record inside body, access_eq_ok.2 ⟨by omega, rfl⟩, zero]
      rfl

/-- **A walk returns if every record that it comes to can be done, and leads on unless the
walk stops there.** -/
theorem Scan.returns_iff (persists : sc.Persists) (start : σ) :
    (∃ fuel a, sc.run blockSize dir bread fuel start = some (.ok a)) ↔
      ∀ nr bh p s, sc.ComesTo blockSize dir bread start nr bh p s →
        (∃ z, sc.record nr bh p s = .ok z) ∧ (sc.Stops nr bh p s ∨ LeadsOn blockSize bh p) := by
  obtain ⟨last, e, unmapped⟩ := exists_unmapped dir
  have rule := Minus.Theory.returns_iff (Upto last) (rank last.toNat blockSize.toNat)
    (scan_progress sc blockSize bread unmapped) (caught_closed persists)
    (show Upto last (.block 0 start) from Nat.zero_le _)
  refine (exists_comm.trans rule).trans ⟨fun safe nr bh p s comes => ?_, fun safe y reaches => ?_⟩
  · obtain ⟨inside, bidx, reaches⟩ := comes
    obtain ⟨⟨z, run⟩, free⟩ := safe _ reaches
    cases body : sc.record nr bh p s with
    | error f =>
        rw [step_fault inside body] at run
        cases run
    | ok z =>
        refine ⟨⟨z, rfl⟩, ?_⟩
        cases z with
        | inr a => exact .inl ⟨a, body⟩
        | inl s' =>
            rw [step_record inside body] at run
            cases read : access blockSize.toNat (p + 4) 2 (load16 bh (p + 4)) with
            | error f =>
                rw [read] at run
                cases run
            | ok recLen =>
                have room := (access_eq_ok.1 read).1
                exact .inr ⟨room, fun zero => free ⟨inside, room, zero, s', body⟩⟩
  · cases y with
    | block bidx s =>
        refine ⟨?_, id⟩
        rw [Scan.step]
        split
        · split
          · exact ⟨_, rfl⟩
          · split <;> exact ⟨_, rfl⟩
        · exact ⟨_, rfl⟩
    | record bidx nr bh p s =>
        by_cases inside : p < blockSize.toNat
        · obtain ⟨⟨z, body⟩, goes⟩ := safe nr bh p s ⟨inside, bidx, reaches⟩
          cases z with
          | inr a => exact ⟨⟨_, step_stop inside body⟩, fun ⟨_, _, _, _, stays⟩ => by simp [body] at stays⟩
          | inl s' =>
              have on : LeadsOn blockSize bh p := goes.resolve_left fun ⟨a, stop⟩ => by simp [body] at stop
              refine ⟨?_, fun caught => on.2 caught.2.2.1⟩
              rw [step_record inside body, access_eq_ok.2 ⟨by exact on.1, rfl⟩]
              exact ⟨_, rfl⟩
        · rw [step_next (Nat.not_lt.1 inside)]
          exact ⟨⟨_, rfl⟩, fun caught => inside caught.1⟩

end Walk

/-! ## The five functions -/

/-- The bytes that `strncmp` reads before it finds a difference. -/
def ComparesInside (size : Nat) (bh : Bytes) (name : List UInt8) (q : Nat) : Prop :=
  ∀ i < name.length, (∀ j < i, some (bh (q + j)) = name[j]?) → q + i < size

/-- `inode` and, for a live record, `name_len` and the part of the name that is compared. -/
def NameInside (size : Nat) (bh : Bytes) (p : Nat) (name : List UInt8) : Prop :=
  p + 4 ≤ size ∧ (load32 bh p ≠ 0 →
    p + 7 ≤ size ∧ ((bh (p + 6)).toNat = name.length → ComparesInside size bh name (p + 8)))

/-- If the inode is to be read, then its group is one of `s_group_desc`, and the 140 bytes of it
lie in the buffer of its block. -/
def InodeInside (sbi : SbInfo) (iget : UInt64 → InCore) (blockSize : UInt32) (bread : Buffers) (ino : UInt64) : Prop :=
  iget ino = .blank true → sbi.sInodesPerGroup ≠ 0 ∧ sbi.sLogBlockSize < 22 ∧
    ((ino - 1) / sbi.sInodesPerGroup.toUInt64).toUInt32.toNat < sbi.sGroupDesc.length ∧
    ∀ gdp block off, inodePlace sbi ino = .ok (gdp, block, off) → (bread block.toUInt64).isSome →
      off.toNat + rawSize ≤ blockSize.toNat

/-- `rec_len`, and in a record that is handed out to an actor with room its name. -/
def HandsOutInside (size : Nat) (bh : Bytes) (p : Nat) (pos : Int) (ctx : GetdentsCtx) : Prop :=
  p + 6 ≤ size ∧ (8 ≤ load16 bh (p + 4) → p + (load16 bh (p + 4)).toNat ≤ size → load32 bh p ≠ 0 →
    ctx.ctxPos ≤ pos →
    (filldir ctx (upTo (fun i => bh (p + 8 + i)) (bh (p + 6)).toNat) pos (load32 bh p).toUInt64
      (ext4FileTypeToDt (bh (p + 7)))).isSome → p + 8 + (bh (p + 6)).toNat ≤ size)

/-- The header, and the new entry where the record has room for it. -/
def InsertsInside (size : Nat) (bh : Bytes) (p : Nat) (first : Bool) (len : Nat) : Prop :=
  p + 6 ≤ size ∧
    (load32 bh p = 0 → first = true → entrySize len ≤ load16 bh (p + 4) → p + (8 + len) ≤ size) ∧
    (load32 bh p ≠ 0 → p + 7 ≤ size ∧
      (entrySize len ≤ load16 bh (p + 4) - entrySize (bh (p + 6)).toNat →
        p + (entrySize (bh (p + 6)).toNat).toNat + (8 + len) ≤ size))

section Records

variable {size p q : Nat} {bh : Bytes} {name : List UInt8}

theorem access_ok_iff {α : Type} {n : Nat} {value : α} : (∃ z, access size p n value = .ok z) ↔ p + n ≤ size :=
  ⟨fun ⟨_, run⟩ => (access_eq_ok.1 run).1, fun inside => ⟨value, access_eq_ok.2 ⟨inside, rfl⟩⟩⟩

/-- An access and what follows it. -/
theorem access_bind_ok_iff {α β : Type} {n : Nat} {value : α} {f : α → Except Fault β} :
    (∃ z, (access size p n value >>= f) = .ok z) ↔ p + n ≤ size ∧ ∃ z, f value = .ok z := by
  constructor
  · rintro ⟨z, run⟩
    obtain ⟨v, read, rest⟩ := bind_eq_ok.1 run
    obtain ⟨inside, rfl⟩ := access_eq_ok.1 read
    exact ⟨inside, z, rest⟩
  · rintro ⟨inside, z, rest⟩
    exact ⟨z, bind_eq_ok.2 ⟨value, access_eq_ok.2 ⟨inside, rfl⟩, rest⟩⟩

theorem strncmp_ok_iff : (∃ z, strncmp size bh name q = .ok z) ↔ ComparesInside size bh name q := by
  induction name generalizing q with
  | nil => exact ⟨fun _ i below => absurd below (Nat.not_lt_zero i), fun _ => ⟨true, rfl⟩⟩
  | cons c rest ih =>
      rw [strncmp, access_bind_ok_iff]
      constructor
      · rintro ⟨here, z, tail⟩ i below agree
        cases i with
        | zero => exact here
        | succ i =>
            have same : bh q = c := by simpa using agree 0 (Nat.succ_pos i)
            rw [if_pos same] at tail
            have inside := ih.1 ⟨z, tail⟩ i (Nat.lt_of_succ_lt_succ below) fun j before => by
              have := agree (j + 1) (Nat.succ_lt_succ before)
              rwa [List.getElem?_cons_succ, ← Nat.add_assoc, Nat.add_right_comm] at this
            omega
      · intro inside
        refine ⟨inside 0 (Nat.succ_pos _) fun j never => absurd never (Nat.not_lt_zero j), ?_⟩
        split
        · rename_i same
          refine ih.2 fun i below agree => ?_
          have := inside (i + 1) (Nat.succ_lt_succ below) fun j before => by
            cases j with
            | zero => simp [same]
            | succ j =>
                have := agree j (Nat.lt_of_succ_lt_succ before)
                rwa [List.getElem?_cons_succ, ← Nat.add_assoc, Nat.add_right_comm]
          omega
        · exact ⟨false, rfl⟩

theorem named_ok_iff : (∃ z, named size bh p name = .ok z) ↔ NameInside size bh p name := by
  rw [named, access_bind_ok_iff, NameInside]
  refine and_congr_right fun _ => ?_
  split
  · rename_i unused
    exact ⟨fun _ live => absurd unused live, fun _ => ⟨false, rfl⟩⟩
  · rename_i live
    rw [access_bind_ok_iff]
    split
    · rename_i same
      rw [strncmp_ok_iff]
      exact ⟨fun inside _ => ⟨inside.1, fun _ => inside.2⟩, fun inside => ⟨(inside live).1, (inside live).2 same⟩⟩
    · rename_i other
      exact ⟨fun inside _ => ⟨inside.1, fun same => absurd same other⟩, fun inside => ⟨(inside live).1, false, rfl⟩⟩

/-- The header of a record with the name has been read. -/
theorem named_true (found : named size bh p name = .ok true) : load32 bh p ≠ 0 ∧ p + 7 ≤ size := by
  rw [named] at found
  obtain ⟨ino, read, rest⟩ := bind_eq_ok.1 found
  obtain ⟨-, rfl⟩ := access_eq_ok.1 read
  split at rest
  · cases rest
  · obtain ⟨nameLen, read, -⟩ := bind_eq_ok.1 rest
    exact ⟨‹_›, (access_eq_ok.1 read).1⟩

theorem insertAt_ok_iff {ino : UInt32} {type : UInt8} :
    (∃ z, insertAt size bh p name ino type = .ok z) ↔ p + (8 + name.length) ≤ size := access_ok_iff

theorem bind_total_ok_iff {α β : Type} {x : Except Fault α} {f : α → Except Fault β} (total : ∀ a, ∃ z, f a = .ok z) :
    (∃ z, (x >>= f) = .ok z) ↔ ∃ a, x = .ok a := by
  constructor
  · rintro ⟨z, run⟩
    obtain ⟨a, first, -⟩ := bind_eq_ok.1 run
    exact ⟨a, first⟩
  · rintro ⟨a, rfl⟩
    exact total a

variable {blockSize : UInt32} {dir : Inode} {nr : UInt64}

/-- `ext4_iget` stays in the tables exactly if what it reads is there. -/
theorem ext4IgetIn_ok_iff {sbi : SbInfo} {iget : UInt64 → InCore} {bread : Buffers} {ino : UInt64} :
    (∃ z, ext4IgetIn sbi iget blockSize bread ino = .ok z) ↔ InodeInside sbi iget blockSize bread ino := by
  unfold ext4IgetIn InodeInside
  cases iget ino with
  | none => exact iff_of_true ⟨_, rfl⟩ nofun
  | filled => exact iff_of_true ⟨_, rfl⟩ nofun
  | blank info =>
      cases info with
      | false => exact iff_of_true ⟨_, rfl⟩ nofun
      | true =>
          rw [forall_prop_of_true rfl]
          dsimp only
          split
          · rename_i bad
            refine iff_of_false (fun ⟨_, run⟩ => nomatch run) fun safe => ?_
            exact bad.elim safe.1 (UInt32.not_le.2 safe.2.1)
          · rename_i good
            obtain ⟨perGroup, log⟩ := not_or.1 good
            rw [and_iff_right perGroup, and_iff_right (UInt32.not_le.1 log)]
            unfold inodePlace ext4InodeBlock SbInfo.load groupDesc
            cases entry : sbi.sGroupDesc[((ino - 1) / sbi.sInodesPerGroup.toUInt64).toUInt32.toNat]? with
            | none =>
                refine iff_of_false (fun ⟨_, run⟩ => nomatch run) fun safe => ?_
                exact Nat.not_lt.2 (List.getElem?_eq_none_iff.1 entry) safe.1
            | some gd =>
                rw [and_iff_right (List.getElem?_eq_some_iff.1 entry).1]
                dsimp only
                rw [ok_bind, ok_bind]
                constructor
                · rintro run gdp block off ⟨⟩ there
                  obtain ⟨bh, read⟩ := Option.isSome_iff_exists.1 there
                  rw [read] at run
                  exact access_ok_iff.1 run
                · intro inside
                  split
                  · exact ⟨_, rfl⟩
                  · rename_i bh read
                    exact access_ok_iff.2 (inside _ _ _ rfl (Option.isSome_iff_exists.2 ⟨bh, read⟩))

theorem lookup_record_iff {iget : UInt64 → Except Fault Bool} {s : Unit} :
    (∃ z, (lookupScan blockSize iget dir name).record nr bh p s = .ok z) ↔ NameInside blockSize.toNat bh p name ∧
      (named blockSize.toNat bh p name = .ok true → ∃ z, iget (load32 bh p).toUInt64 = .ok z) := by
  rw [← named_ok_iff]
  show (∃ z, (named blockSize.toNat bh p name >>= _) = .ok z) ↔ _
  cases compared : named blockSize.toNat bh p name with
  | error f => exact iff_of_false (fun ⟨_, run⟩ => nomatch run) fun inside => nomatch inside.1
  | ok found =>
      rw [and_iff_right ⟨found, rfl⟩, ok_bind]
      cases found with
      | false => exact iff_of_true ⟨_, rfl⟩ nofun
      | true =>
          rw [forall_prop_of_true rfl]
          refine bind_total_ok_iff fun got => ?_
          split
          · exact ⟨_, rfl⟩
          · exact ⟨_, rfl⟩

theorem isEmpty_record_iff {count : Nat} : (∃ z, (isEmptyScan blockSize).record nr bh p count = .ok z) ↔
    p + 4 ≤ blockSize.toNat :=
  (bind_total_ok_iff fun _ => ⟨_, rfl⟩).trans access_ok_iff

theorem delete_record_iff {prev : Option Nat} : (∃ z, (deleteScan blockSize dir name).record nr bh p prev = .ok z) ↔
    NameInside blockSize.toNat bh p name := by
  rw [← named_ok_iff]
  constructor
  · rintro ⟨z, run⟩
    obtain ⟨found, first, -⟩ := bind_eq_ok.1 run
    exact ⟨found, first⟩
  · rintro ⟨found, first⟩
    show ∃ z, (named blockSize.toNat bh p name >>= _) = .ok z
    rw [first, ok_bind]
    cases found with
    | false => exact ⟨_, rfl⟩
    | true =>
        cases prev with
        | none => exact ⟨_, rfl⟩
        | some q =>
            -- the header of a live record has been read
            have room := (named_true first).2
            exact access_bind_ok_iff.2 ⟨by omega, _, rfl⟩

theorem iterate_record_iff {pos : Int} {ctx : GetdentsCtx} :
    (∃ z, (iterateScan blockSize dir).record nr bh p (pos, ctx) = .ok z) ↔
      HandsOutInside blockSize.toNat bh p pos ctx := by
  unfold HandsOutInside
  refine (access_bind_ok_iff (n := 2) (f := _)).trans (and_congr_right fun header => ?_)
  split
  · rename_i bad
    refine ⟨fun _ low inside => ?_, fun _ => ⟨_, rfl⟩⟩
    exact absurd bad (not_or.2 ⟨UInt16.not_lt.2 low, Nat.not_lt.2 inside⟩)
  · rename_i good
    obtain ⟨low, inside⟩ := not_or.1 good
    have low := UInt16.not_lt.1 low
    have inside := Nat.not_lt.1 inside
    have eight : 8 ≤ (load16 bh (p + 4)).toNat := UInt16.le_iff_toNat_le.1 low
    refine access_bind_ok_iff.trans ⟨fun ⟨_, rest⟩ _ _ live late => ?_, fun safe => ⟨by omega, ?_⟩⟩
    · rw [if_pos ⟨live, late⟩, access_bind_ok_iff, access_bind_ok_iff] at rest
      obtain ⟨_, _, z, run⟩ := rest
      intro room
      obtain ⟨filled, fills⟩ := Option.isSome_iff_exists.1 room
      rw [fills] at run
      exact (access_bind_ok_iff.1 ⟨z, run⟩).1
    · split
      · rename_i handed
        rw [access_bind_ok_iff, access_bind_ok_iff]
        refine ⟨by omega, by omega, ?_⟩
        cases fills : filldir ctx (upTo (fun i => bh (p + 8 + i)) (bh (p + 6)).toNat) pos (load32 bh p).toUInt64
            (ext4FileTypeToDt (bh (p + 7))) with
        | none => exact ⟨_, rfl⟩
        | some filled =>
            have name := safe low inside handed.1 handed.2 (by rw [fills]; rfl)
            exact access_bind_ok_iff.2 ⟨name, _, rfl⟩
      · exact ⟨_, rfl⟩

theorem add_record_iff {ino : UInt32} {type : UInt8} {first : Bool} :
    (∃ z, (addScan blockSize dir name ino type).record nr bh p first = .ok z) ↔
      InsertsInside blockSize.toNat bh p first name.length := by
  unfold InsertsInside
  have total {b : Bytes} {x : Nat} : (∃ z, (do
      let bh ← insertAt blockSize.toNat b x name ino type
      (.ok (.inr (.into nr bh)) : Except Fault (Bool ⊕ Added))) = .ok z) ↔ x + (8 + name.length) ≤ blockSize.toNat :=
    (bind_total_ok_iff fun _ => ⟨_, rfl⟩).trans insertAt_ok_iff
  refine (access_bind_ok_iff (n := 2) (f := _)).trans (and_congr_right fun header => ?_)
  refine access_bind_ok_iff.trans ?_
  rw [and_iff_right (show p + 4 ≤ blockSize.toNat by omega)]
  split
  · rename_i unused
    split
    · rename_i takes
      rw [total]
      exact ⟨fun inside => ⟨fun _ _ _ => inside, fun live => absurd unused live⟩, fun safe => safe.1 unused takes.1 takes.2⟩
    · rename_i leaves
      exact ⟨fun _ => ⟨fun _ new room => absurd ⟨new, room⟩ leaves, fun live => absurd unused live⟩, fun _ => ⟨_, rfl⟩⟩
  · rename_i live
    rw [access_bind_ok_iff]
    dsimp only
    split
    · rename_i room
      rw [total]
      exact ⟨fun safe => ⟨fun unused => absurd unused live, fun _ => ⟨safe.1, fun _ => safe.2⟩⟩,
        fun safe => ⟨(safe.2 live).1, (safe.2 live).2 room⟩⟩
    · rename_i full
      exact ⟨fun safe => ⟨fun unused => absurd unused live, fun _ => ⟨safe.1, fun room => absurd room full⟩⟩,
        fun safe => ⟨(safe.2 live).1, _, rfl⟩⟩

end Records

/-! ### At a record of length 0 -/

section Persists

variable {blockSize : UInt32} {dir : Inode} {name : List UInt8}

theorem lookup_persists {iget : UInt64 → Except Fault Bool} : (lookupScan blockSize iget dir name).Persists :=
  fun _ _ _ _ s' _ run => ⟨s', run⟩

theorem isEmpty_persists : (isEmptyScan blockSize).Persists := by
  intro nr bh p s s' _ run
  obtain ⟨ino, read, -⟩ := bind_eq_ok.1 run
  exact ⟨_, bind_eq_ok.2 ⟨ino, read, rfl⟩⟩

theorem delete_persists : (deleteScan blockSize dir name).Persists := by
  intro nr bh p s s' _ run
  obtain ⟨found, first, rest⟩ := bind_eq_ok.1 run
  refine ⟨some p, bind_eq_ok.2 ⟨found, first, ?_⟩⟩
  cases found with
  | false => rfl
  | true =>
      cases s with
      | none => cases rest
      | some q =>
          obtain ⟨_, _, never⟩ := bind_eq_ok.1 rest
          cases never

theorem iterate_persists : (iterateScan blockSize dir).Persists := by
  rintro nr bh p ⟨pos, ctx⟩ s' zero run
  obtain ⟨recLen, read, rest⟩ := bind_eq_ok.1 run
  obtain ⟨-, rfl⟩ := access_eq_ok.1 read
  rw [if_pos (.inl (by rw [zero]; decide))] at rest
  cases rest

theorem add_persists {ino : UInt32} {type : UInt8} : (addScan blockSize dir name ino type).Persists := by
  intro nr bh p s s' zero run
  obtain ⟨recLen, read, run⟩ := bind_eq_ok.1 run
  obtain ⟨old, readOld, run⟩ := bind_eq_ok.1 run
  refine ⟨false, bind_eq_ok.2 ⟨recLen, read, bind_eq_ok.2 ⟨old, readOld, ?_⟩⟩⟩
  split at run
  · rename_i unused
    split at run
    · obtain ⟨_, _, never⟩ := bind_eq_ok.1 run
      cases never
    · obtain rfl : false = s' := Sum.inl.inj (Except.ok.inj run)
      rw [if_pos unused, if_neg fun takes => Bool.false_ne_true takes.1]
  · rename_i live
    rw [if_neg live]
    obtain ⟨nameLen, readLen, run⟩ := bind_eq_ok.1 run
    refine bind_eq_ok.2 ⟨nameLen, readLen, ?_⟩
    dsimp only at run ⊢
    split at run
    · obtain ⟨_, _, never⟩ := bind_eq_ok.1 run
      cases never
    · rename_i full
      rw [if_neg full]

end Persists

/-- The call that does this to the buffers. -/
def answering (answer : Buffers → Buffers × Except Errno UInt64) : NewBlock Unit :=
  fun _ bread => .ok (((), (answer bread).1), (answer bread).2)

/-- A call of one of the five functions; `answer` is what `ext4_new_block` does. -/
inductive DirOp where
  | lookup (sbi : SbInfo) (iget : UInt64 → InCore) (name : List UInt8)
  | isEmpty
  | iterate (ctx : GetdentsCtx)
  | add (name : List UInt8) (ino : UInt32) (type : UInt8) (answer : Buffers → Buffers × Except Errno UInt64)
  | delete (name : List UInt8)

/-- `d_name` has 64 bytes. -/
def DirOp.Short : DirOp → Prop
  | .lookup _ _ name | .add name _ _ _ | .delete name => name.length ≤ 63
  | _ => True

section Survive

variable (blockSize : UInt32) (dir : Inode) (bread : Buffers)

/-- The call returns, and every access to a block buffer or to `s_group_desc` was inside it. -/
def Survives : DirOp → Prop
  | .lookup sbi iget name =>
      ∃ fuel r, ext4Lookup fuel blockSize (ext4IgetIn sbi iget blockSize bread) dir bread name = some (.ok r)
  | .isEmpty => ∃ fuel r, ext4DirIsEmpty fuel blockSize dir bread = some (.ok r)
  | .iterate ctx => ∃ fuel r, ext4Iterate fuel blockSize dir bread ctx = some (.ok r)
  | .add name ino type answer =>
      ∃ fuel r, ext4AddEntry fuel blockSize (answering answer) dir () bread name ino type = some (.ok r)
  | .delete name => ∃ fuel r, ext4DeleteEntry fuel blockSize dir bread name = some (.ok r)

/-- What a call needs of every record that it comes to: that what it looks at there is in
the block, and that it returns there or the record leads on. -/
def SoundRecords {σ α : Type} (sc : Scan σ α) (start : σ) (inside : Bytes → Nat → σ → Prop) : Prop :=
  ∀ nr bh p s, sc.ComesTo blockSize dir bread start nr bh p s →
    inside bh p s ∧ (sc.Stops nr bh p s ∨ LeadsOn blockSize bh p)

def Sound : DirOp → Prop
  | .lookup sbi iget name =>
      SoundRecords blockSize dir bread (lookupScan blockSize (ext4IgetIn sbi iget blockSize bread) dir name) ()
        fun bh p _ => NameInside blockSize.toNat bh p name ∧ (named blockSize.toNat bh p name = .ok true →
          InodeInside sbi iget blockSize bread (load32 bh p).toUInt64)
  | .isEmpty => SoundRecords blockSize dir bread (isEmptyScan blockSize) 0 fun _ p _ => p + 4 ≤ blockSize.toNat
  | .iterate ctx => SoundRecords blockSize dir bread (iterateScan blockSize dir) (0, ctx)
      fun bh p s => HandsOutInside blockSize.toNat bh p s.1 s.2
  | .add name ino type _ => SoundRecords blockSize dir bread (addScan blockSize dir name ino type) true
      fun bh p first => InsertsInside blockSize.toNat bh p first name.length
  | .delete name => SoundRecords blockSize dir bread (deleteScan blockSize dir name) none
      fun bh p _ => NameInside blockSize.toNat bh p name

variable {blockSize dir bread}

theorem run_ok_iff {σ α : Type} {sc : Scan σ α} (persists : sc.Persists) {start : σ} {inside : Bytes → Nat → σ → Prop}
    (record : ∀ nr bh p s, (∃ z, sc.record nr bh p s = .ok z) ↔ inside bh p s) :
    (∃ fuel a, sc.run blockSize dir bread fuel start = some (.ok a)) ↔
      SoundRecords blockSize dir bread sc start inside := by
  rw [Scan.returns_iff persists]
  unfold SoundRecords
  simp only [record]

/-- The new block has room for the entry. -/
theorem addBlock_ok (large : 1024 ≤ blockSize.toNat) {name : List UInt8} (short : name.length ≤ 63) (ino : UInt32)
    (type : UInt8) (answer : Buffers → Buffers × Except Errno UInt64) (bidx : UInt32) :
    ∃ r, addBlock blockSize (answering answer) dir () bread name ino type bidx = .ok r := by
  rw [addBlock, answering, ok_bind]
  cases answer bread with
  | mk bread' out =>
      cases out with
      | error e => exact ⟨_, rfl⟩
      | ok pblock =>
          dsimp only
          split
          · exact ⟨_, rfl⟩
          · split
            · exact ⟨_, rfl⟩
            · exact (bind_total_ok_iff fun _ => ⟨_, rfl⟩).2 (insertAt_ok_iff.2 (by omega))

theorem add_ok_iff (large : 1024 ≤ blockSize.toNat) {name : List UInt8} (short : name.length ≤ 63) (ino : UInt32)
    (type : UInt8) (answer : Buffers → Buffers × Except Errno UInt64) :
    Survives blockSize dir bread (.add name ino type answer) ↔
      ∃ fuel a, (addScan blockSize dir name ino type).run blockSize dir bread fuel true = some (.ok a) := by
  refine exists_congr fun fuel => ?_
  unfold ext4AddEntry
  cases (addScan blockSize dir name ino type).run blockSize dir bread fuel true with
  | none => simp
  | some out =>
      cases out with
      | error f => simp
      | ok place =>
          cases place with
          | eio => simp
          | into nr bh => simp
          | full bidx => simpa using addBlock_ok large short ino type answer bidx

theorem delete_ok_iff {name : List UInt8} : Survives blockSize dir bread (.delete name) ↔
    ∃ fuel a, (deleteScan blockSize dir name).run blockSize dir bread fuel none = some (.ok a) := by
  refine exists_congr fun fuel => ?_
  unfold ext4DeleteEntry
  cases (deleteScan blockSize dir name).run blockSize dir bread fuel none with
  | none => simp
  | some out =>
      cases out with
      | error f => simp
      | ok found => cases found <;> simp

end Survive

/-! ### A directory of one block -/

/-- Block 0 is block 100 of the volume. -/
def smallDir : Inode :=
  { createdInode with iMode := 0x41ED, iSize := 1024, iData := append createdInode.iData 0 0 100 }

/-- A record with a name of one byte. -/
def shortRecord (bh : Bytes) (p : Nat) (ino : UInt32) (recLen : UInt16) (c : UInt8) : Bytes :=
  Function.update (Function.update (store16 (store32 bh p ino) (p + 4) recLen) (p + 6) 1) (p + 8) c

/-- `a` is inode 12, a record of 12 bytes is unused, and the rest of the block is `b`, inode 13. -/
def twoNames : Bytes := shortRecord (store16 (shortRecord (fun _ => 0) 0 12 12 97) 16 12) 24 13 1000 98

/-- One group of 16 inodes of 256 bytes, with its inode table from block 5 on. -/
def smallVolume : SbInfo := ⟨fun _ => 0, [store32 (fun _ => 0) 8 5], 16, 8192, 32, 1, 1, 0, 256, 11⟩

/-- Nothing is in core, and there is memory. -/
def nothingInCore : UInt64 → InCore := fun _ => .blank true

/-- The record behind an overlong one is read outside the block. -/
example : ext4Lookup 3 1024 (fun _ => .ok true) smallDir (fun _ => some (store16 (fun _ => 0) 4 1021)) [97] =
    some (.error .wild) := rfl

end Minus.Fs.Ext4Bytes
