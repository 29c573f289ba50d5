/-
# Fs.Ext4MountFail — the block device after a mount that failed

`ext4_fill_super` gives the device the block size of the image before it has checked the
image, and nothing gives the old one back.  So a mount that fails later leaves the device
with a block size by which the next mount looks for the superblock in the wrong place
(`usable_iff`).
-/
import Minus.Fs.Ext4Mount

namespace Minus.Fs.Ext4Mount

set_option autoImplicit false

open Minus.Theory
open Minus.Fs.Dcache (Errno)
open Minus.Fs.Ext4Bytes (SbInfo)

/-- After the mount the device is what it was, its buffers have its block size, and the next
mount reads the same superblock. -/
structure Usable (disk : Bytes) (s s' : State) : Prop where
  size : s'.bdBlockSize = s.bdBlockSize
  bits : s'.bdBlockSizeBits = s.bdBlockSizeBits
  buffers : ∀ bh ∈ s'.buffers, bh.bSize = s.bdBlockSize
  again : ∀ stack, s'.superBuf disk stack = s.superBuf disk stack

/-- The block size that the superblock names is that of the device. -/
def NamesOwnSize (disk stack : Bytes) (s : State) : Prop :=
  ∃ es log, s.superBuf disk stack = .ok es ∧ es.le32 24 = .ok log ∧ (1024 : UInt32) <<< log = s.bdBlockSize ∧
    (10 + log).toUInt8 = s.bdBlockSizeBits

/-- Reads through the cache. -/
structure Reads (s s' : State) : Prop where
  size : s'.bdBlockSize = s.bdBlockSize
  bits : s'.bdBlockSizeBits = s.bdBlockSizeBits
  buffers : ∀ bh ∈ s'.buffers, bh ∈ s.buffers ∨ bh.bSize = s.bdBlockSize

section Reads

variable {disk : Bytes} {answers : Answers} {s s' s₁ : State}

theorem Reads.refl (s : State) : Reads s s := ⟨rfl, rfl, fun _ inside => .inl inside⟩

theorem Reads.trans (first : Reads s s₁) (next : Reads s₁ s') : Reads s s' where
  size := next.size.trans first.size
  bits := next.bits.trans first.bits
  buffers bh inside := by
    rcases next.buffers bh inside with old | new
    · exact first.buffers bh old
    · exact .inr (new.trans first.size)

theorem sbBread_reads {block : UInt64} {r : Option Buffer} (run : sbBread disk answers s block = (s', r)) : Reads s s' := by
  unfold sbBread at run
  split at run
  · cases run
    exact .refl s
  · split at run
    · cases run
      refine ⟨rfl, rfl, fun bh inside => ?_⟩
      rcases List.mem_cons.1 inside with rfl | old
      · exact .inr rfl
      · exact .inl old
    · cases run
      exact .refl s

theorem readGroupDesc_reads {n : Nat} {blk : UInt32} {r : Except Errno (List Bytes)}
    (run : readGroupDesc disk answers n s blk = (s', r)) : Reads s s' := by
  induction n generalizing s s' blk r with
  | zero =>
      cases run
      exact .refl _
  | succ n ih =>
      rw [readGroupDesc] at run
      cases read : sbBread disk answers s blk.toUInt64 with
      | mk s₁ bh =>
          have first := sbBread_reads read
          rw [read] at run
          cases bh with
          | none =>
              cases run
              exact first
          | some bh =>
              dsimp only at run
              cases rest : readGroupDesc disk answers n s₁ (blk + 1) with
              | mk s₂ descs =>
                  rw [rest] at run
                  cases descs with
                  | error e =>
                      cases run
                      exact first.trans (ih rest)
                  | ok descs =>
                      cases run
                      exact first.trans (ih rest)

theorem ext4Iget_reads {sbi : SbInfo} {r : Bool} (run : ext4Iget disk answers s sbi = .ok (s', r)) : Reads s s' := by
  unfold ext4Iget at run
  split at run
  · cases run
    exact .refl s
  · cases run
    exact .refl s
  · split at run
    · split at run
      · cases run
      · obtain ⟨⟨block, off⟩, -, run⟩ := bind_eq_ok.1 run
        dsimp only at run
        cases read : sbBread disk answers s block.toUInt64 with
        | mk s₁ bh =>
            rw [read] at run
            cases bh with
            | none =>
                cases run
                exact sbBread_reads read
            | some bh =>
                cases run
                exact sbBread_reads read
    · cases run
      exact .refl s

theorem fillFrom_reads {es : Es} {r : Except Errno SbInfo} (run : fillFrom disk answers s es = .ok (s', r)) : Reads s s' := by
  unfold fillFrom at run
  obtain ⟨checked, -, run⟩ := bind_eq_ok.1 run
  cases checked with
  | error e =>
      cases run
      exact .refl s
  | ok _ =>
      obtain ⟨sbi, -, run⟩ := bind_eq_ok.1 run
      cases sbi with
      | none =>
          cases run
          exact .refl s
      | some sbi =>
          obtain ⟨gdBlocks, -, run⟩ := bind_eq_ok.1 run
          split at run
          · cases read : readGroupDesc disk answers gdBlocks.toNat s (sbi.sFirstDataBlock + 1) with
            | mk s₁ descs =>
                have first := readGroupDesc_reads read
                rw [read] at run
                cases descs with
                | error e =>
                    cases run
                    exact first
                | ok descs =>
                    obtain ⟨⟨s₂, found⟩, got, run⟩ := bind_eq_ok.1 run
                    have both := first.trans (ext4Iget_reads got)
                    cases found with
                    | false =>
                        cases run
                        exact both
                    | true =>
                        dsimp only at run
                        split at run
                        · cases run
                          exact both
                        · cases run
                          exact both
          · cases run
            exact .refl s

/-- Behind the first read the device has the block size that the superblock names. -/
theorem ext4FillSuper_switches {r : Except Errno SbInfo} (read : answers.superBuf = .ok ())
    (run : ext4FillSuper disk answers s = .ok (s', r)) : ∃ es log, s.superBuf disk answers.stack = .ok es ∧
      es.le32 24 = .ok log ∧ Reads { s with bdBlockSize := 1024 <<< log, bdBlockSizeBits := (10 + log).toUInt8 } s' := by
  unfold ext4FillSuper at run
  obtain ⟨-, -, run⟩ := bind_eq_ok.1 run
  rw [read] at run
  obtain ⟨es, at_, run⟩ := bind_eq_ok.1 run
  obtain ⟨log, named, run⟩ := bind_eq_ok.1 run
  obtain ⟨blockSize, shifted, run⟩ := bind_eq_ok.1 run
  obtain ⟨block, -, run⟩ := bind_eq_ok.1 run
  obtain ⟨off, -, run⟩ := bind_eq_ok.1 run
  have size : blockSize = 1024 <<< log := by
    unfold shl at shifted
    split at shifted
    · exact (Except.ok.inj shifted).symm
    · cases shifted
  subst size
  refine ⟨es, log, at_, named, ?_⟩
  dsimp only at run
  split at run
  · rename_i s₁ missing
    cases run
    exact sbBread_reads missing
  · rename_i s₁ bh got
    exact (sbBread_reads got).trans (fillFrom_reads run)

/-- **The device after a mount that failed.**  For every device whose buffers have its block
size, every content and all answers: the device is usable after the failure exactly if the
mount failed before the superblock was read, or the superblock names the block size that
the device had. -/
theorem usable_iff {e : Errno} (uniform : ∀ bh ∈ s.buffers, bh.bSize = s.bdBlockSize)
    (run : ext4Mount disk answers s = .ok (s', .error e)) :
    Usable disk s s' ↔
      answers.sbAlloc = false ∨ (∃ err, answers.superBuf = .error err) ∨ NamesOwnSize disk answers.stack s := by
  have same : Usable disk s s := ⟨rfl, rfl, uniform, fun _ => rfl⟩
  unfold ext4Mount at run
  split at run
  · rename_i memory
    cases read : answers.superBuf with
    | error err =>
        have stays : s' = s := by
          unfold ext4FillSuper at run
          obtain ⟨-, -, run⟩ := bind_eq_ok.1 run
          rw [read] at run
          cases run
          rfl
        rw [stays]
        exact iff_of_true same (.inr (.inl ⟨err, rfl⟩))
    | ok _ =>
        obtain ⟨es, log, at_, named, reads⟩ := ext4FillSuper_switches read run
        constructor
        · intro usable
          exact .inr (.inr ⟨es, log, at_, named, reads.size.symm.trans usable.size, reads.bits.symm.trans usable.bits⟩)
        · rintro (noMemory | ⟨err, failed⟩ | ⟨es', log', at', named', ownSize, ownBits⟩)
          · rw [memory] at noMemory
            cases noMemory
          · cases failed
          · cases at_.symm.trans at'
            cases named.symm.trans named'
            have size : s'.bdBlockSize = s.bdBlockSize := reads.size.trans ownSize
            refine ⟨size, reads.bits.trans ownBits, fun bh inside => ?_, fun stack => ?_⟩
            · rcases reads.buffers bh inside with old | new
              · exact uniform bh old
              · exact new.trans ownSize
            · unfold State.superBuf bdevReadBlocks
              rw [size]
  · rename_i memory
    cases run
    exact iff_of_true same (.inl (Bool.eq_false_iff.2 memory))

end Reads

/-! ## An image without a magic number -/

/-- The device that the failed mount leaves. -/
def vdaAfter : State :=
  ⟨4096, 12, [⟨0, 4096, bdevReadBlocks (imageOf [(24, 2)]) ⟨4096, 12, []⟩ 0⟩]⟩

theorem noMagic_fails : ext4Mount (imageOf [(24, 2)]) goodAnswers vda = .ok (vdaAfter, .error .einval) := rfl

theorem noMagic_usable_iff : Usable (imageOf [(24, 2)]) vda vdaAfter ↔
    goodAnswers.sbAlloc = false ∨ (∃ err, goodAnswers.superBuf = .error err) ∨
      NamesOwnSize (imageOf [(24, 2)]) goodAnswers.stack vda :=
  usable_iff nofun noMagic_fails

/-- The device keeps blocks of 4 KiB, and the next mount looks for the superblock behind the
end of its buffer. -/
theorem noMagic_spoils : ext4Mount (imageOf [(24, 2)]) goodAnswers vda = .ok (vdaAfter, .error .einval) ∧
    ¬ Usable (imageOf [(24, 2)]) vda vdaAfter ∧
    ext4Mount (imageOf [(24, 2)]) goodAnswers vdaAfter = .error .superblock :=
  ⟨rfl, fun usable => absurd usable.size (by decide), rfl⟩

end Minus.Fs.Ext4Mount
