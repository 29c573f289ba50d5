/-
# Mm.UaccessProt — copies to pages that are read-only

`vspace_map_page` maps a page without `VM_WRITE` read-only and keeps the flags in its vregion.
`copy_to_user` goes through the kernel's alias and looks at neither: it keeps to the
permissions exactly where the range needs none that it has not
(`copy_to_user_keeps_readOnly_iff`).
-/
import Minus.Mm.Uaccess

namespace Minus.Mm.Uaccess

set_option autoImplicit false

open Minus.Theory
open Minus.Core.Mmu (Memory pageSize walk)
open Minus.Mm.AddressSpace
open Minus.Mm.Buddy (Pfn)

section Permissions

variable {vs : Vspace} {addr : UInt64} {n : UInt32}

/-! ## What the page table says -/

/-- A page without `VM_WRITE` is read-only for the program. -/
theorem userProtToAttr_readOnly {flags : UInt32} (readOnly : flags &&& vmWrite = 0) :
    userProtToAttr flags &&& pteApRoAny = pteApRoAny := by
  unfold userProtToAttr
  rw [if_neg (not_not_intro readOnly)]
  split
  · decide
  · decide

/-- One of `vspace_map_contig_phys` is, unless it is a device. -/
theorem contigAttr_readOnly {flags : UInt32} (readOnly : flags &&& vmWrite = 0) (memory : flags &&& vmDevice = 0) :
    contigAttr flags &&& pteApRoAny = pteApRoAny := by
  unfold contigAttr
  rw [if_neg (not_not_intro memory), if_neg (not_not_intro readOnly)]
  split
  · decide
  · decide

/-! ## What the copy does -/

/-- The byte lies in a vregion that has `VM_WRITE`. -/
def Writable (vs : Vspace) (addr : UInt64) (i : Nat) : Prop :=
  ∃ vr, regionAt vs (addr + UInt64.ofNat i) = some vr ∧ vr.flags &&& vmWrite ≠ 0

/-- `copy_to_user` takes a page without `VM_WRITE` for a fault, and changes no byte of one. -/
def KeepsReadOnly (vs : Vspace) (addr : UInt64) (n : UInt32) : Prop :=
  ∀ mem buf src, ∃ mem' ret, copyToUser (some vs) mem addr buf src n = some (mem', ret) ∧
    (∃ k, LongestPrefix (Writable vs addr) n.toNat k ∧ ret.toNat = n.toNat - k) ∧
    ∀ vr ∈ vs.regions, vr.flags &&& vmWrite = 0 → ∀ o < pageSize, bytes mem' (vr.page, o) = bytes mem (vr.page, o)

/-- The mapped part of the range is writable, and no page that is written for it is the page of
a vregion without `VM_WRITE` too. -/
def Permits (vs : Vspace) (addr : UInt64) (n : UInt32) : Prop :=
  ∀ k, LongestPrefix (Mapped vs addr) n.toNat k → ∀ i < k, Writable vs addr i ∧
    ∀ vr ∈ vs.regions, vr.flags &&& vmWrite = 0 → (aliasLoc vs addr i).1 ≠ vr.page

theorem Writable.mapped {i : Nat} (writable : Writable vs addr i) : Mapped vs addr i := by
  obtain ⟨vr, found, -⟩ := writable
  unfold regionAt at found
  unfold Mapped userLoc vspaceFindPage
  rw [found]
  rfl

/-- **`copy_to_user` keeps read-only pages exactly where it meets none.** -/
theorem copy_to_user_keeps_readOnly_iff (built : Built vs) (addr : UInt64) (n : UInt32) :
    KeepsReadOnly vs addr n ↔ Permits vs addr n := by
  have one := built.paged.regions
  constructor
  · intro keeps k longest
    have writable : ∀ i < k, Writable vs addr i := by
      obtain ⟨mem', ret, run, ⟨kw, writable, returned⟩, -⟩ := keeps (fun _ _ => 0) (fun _ => 0) 0
      obtain ⟨k', mem'', ret', run', longest', returned', -⟩ :=
        copyToUserLoop_spec one (fun _ => 0) (fun _ _ => 0) 0 addr (Nat.le_refl n.toNat)
      obtain rfl := longest.unique longest'
      obtain ⟨-, rfl⟩ := Prod.mk.inj (Option.some.inj (run.symm.trans run'))
      have := writable.le
      have := longest.le
      obtain rfl : kw = k := by omega
      exact writable.all
    refine fun i below => ⟨writable i below, fun vr member readOnly here => ?_⟩
    obtain ⟨mem', ret, run, -, kept⟩ := keeps (fun _ _ => 0) (fun _ => 1) 0
    obtain ⟨k', mem'', ret', run', longest', -, contents⟩ :=
      copyToUserLoop_spec one (fun _ => 1) (fun _ _ => 0) 0 addr (Nat.le_refl n.toNat)
    obtain rfl := longest.unique longest'
    obtain ⟨rfl, -⟩ := Prod.mk.inj (Option.some.inj (run.symm.trans run'))
    have inPage := aliasLoc_inPage one addr i
    have written := contents (aliasLoc vs addr i) inPage
    rw [scatter_const below] at written
    have same := kept vr member readOnly _ inPage
    rw [← here, written] at same
    exact absurd (same.trans (byteOf_zero _)) (by decide)
  · intro permits mem buf src
    obtain ⟨k, mem', ret, run, longest, returned, contents⟩ :=
      copyToUserLoop_spec one buf mem src addr (Nat.le_refl n.toNat)
    have allowed := permits k longest
    refine ⟨mem', ret, run, ⟨k, ?_, returned⟩, fun vr member readOnly o inPage => ?_⟩
    · exact longest.strengthen (fun i writable => writable.mapped) fun i below => (allowed i below).1
    · rw [contents _ inPage]
      exact scatter_elsewhere fun i below same => (allowed i below).2 vr member readOnly (congrArg Prod.fst same)

theorem permits_of_writable (writable : ∀ vr ∈ vs.regions, vr.flags &&& vmWrite ≠ 0) (addr : UInt64) (n : UInt32) :
    Permits vs addr n := by
  intro k longest i below
  refine ⟨?_, fun vr member readOnly => absurd readOnly (writable vr member)⟩
  have mapped := longest.all i below
  unfold Mapped userLoc vspaceFindPage at mapped
  rw [Option.map_map, Option.isSome_map] at mapped
  obtain ⟨vr, found⟩ := Option.isSome_iff_exists.1 mapped
  exact ⟨vr, found, writable vr (List.mem_of_find?_eq_some found)⟩

/-- A program with a page of data. -/
def dataSpace : Vspace :=
  (session.run driverSession [⟨.mapPage 0x400000 (vmRead ||| vmWrite), [0x101, 0x102, 0x103, 0x104], [2]⟩]).vs

theorem copy_to_user_keeps_data : KeepsReadOnly dataSpace 0x400010 0x2000 :=
  (copy_to_user_keeps_readOnly_iff (session_built (Session.Starts.built driverSession_starts) _) 0x400010 0x2000).2
    (permits_of_writable (by decide +kernel) 0x400010 0x2000)

/-- **A system call writes program text.**  The program could not: the page is read-only for it. -/
theorem text_overwritten :
    Built textSpace ∧ vspaceFindPage textSpace 0x400010 = some (0x101, 0x10) ∧
      (∀ vr ∈ textSpace.regions, vr.flags &&& vmWrite = 0) ∧
      (walk (session.run driverSession [mapText]).heap.mem textSpace.pgd 0x400010).map (fun pte => pte.2 &&& pteApRoAny) =
        some pteApRoAny ∧
      (copyToUser (some textSpace) (fun _ _ => 0) 0x400010 (fun _ => 0x61) 0 1).map
        (fun r => (bytes r.1 (0x101, 0x10), r.2)) = some (0x61, 0) ∧
      ¬ KeepsReadOnly textSpace 0x400010 1 := by
  have written : (copyToUser (some textSpace) (fun _ _ => 0) 0x400010 (fun _ => 0x61) 0 1).map
      (fun r => (bytes r.1 (0x101, 0x10), r.2)) = some (0x61, 0) := by decide +kernel
  refine ⟨textSpace_built, by decide +kernel, by decide +kernel, by decide +kernel, written, fun keeps => ?_⟩
  obtain ⟨mem', ret, run, -, kept⟩ := keeps (fun _ _ => 0) (fun _ => 0x61) 0
  rw [run, Option.map_some] at written
  have byte : bytes mem' (0x101, 0x10) = 0x61 := congrArg Prod.fst (Option.some.inj written)
  obtain ⟨vr, member, page, readOnly⟩ : ∃ vr ∈ textSpace.regions, vr.page = 0x101 ∧ vr.flags &&& vmWrite = 0 := by
    decide +kernel
  have same := kept vr member readOnly 0x10 (by decide)
  rw [page, byte] at same
  exact absurd (same.trans (byteOf_zero _)) (by decide)

end Permissions

end Minus.Mm.Uaccess
