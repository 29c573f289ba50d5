/-
# Proc.LoaderReads — the reads of the loader

`fs_load_file` returns a buffer of the size of the file.  `procReads` lists the spans of it
that `proc_load_elf` looks at up to the end of the loop over the program headers, each field
where it is first read.

`verify_elf` compares the size last.  So a file that ends inside the ELF header is read
beyond its end, unless one of the fields before that place is wrong
(`elf_reads_inside_iff`).  What passes the checks has all its headers inside
(`Image.Verified.headers`), and then every read lies in the file.
-/
import Minus.Fs.LoadFile
import Minus.Proc.LoaderBounds
import Minus.Theory.Reading

namespace Minus.Proc.Loader

set_option autoImplicit false

open Minus.Theory
open Minus.Core.Mmu (pageSize)
open Minus.Mm.AddressSpace
open Minus.Fs (OpenFile fsLoadFile fsLoadFile_loaded fsLoadFile_once fill)

/-! ## verify_elf -/

/-- The fields that `verify_elf` tests on their own, up to `e_phnum`. -/
def headerTests : List Test :=
  [.byteIs 0 0x7f, .byteIs 1 0x45, .byteIs 2 0x4c, .byteIs 3 0x46,
    .byteIs 4 2, .byteIs 5 1, .byteIs 6 1,
    .half 16 (· == 2), .half 18 (· == 183),
    .half 54 (· == 56),
    .half 56 fun phnum => !(phnum == 0 || phnum > 128)]

/-- `e_phoff` against `sizeof(*ehdr)`.  The end of the program headers is computed from this
and `e_phnum` again. -/
def phoffTest : Test := .double 32 fun phoff => !(phoff < 64)

def verifyReads (f : Image) : List Span := Test.reads f.bytes (headerTests ++ [phoffTest])

theorem verified_iff (f : Image) :
    f.Verified ↔ Test.all f.bytes (headerTests ++ [phoffTest]) = true ∧
      ¬ (f.phdrsEnd < f.ePhoff ∨ f.phdrsEnd > f.size.toUInt64) := by
  simp only [Image.Verified, Test.all, headerTests, phoffTest, Test.byteIs, Test.half, Test.double,
    Image.eType, Image.eMachine, Image.ePhentsize, Image.ePhnum, Image.ePhoff, List.cons_append,
    List.nil_append, List.all_cons, List.all_nil, Bool.and_true, Bool.and_eq_true, beq_iff_eq,
    Bool.not_eq_true', Bool.or_eq_false_iff, beq_eq_false_iff_ne, decide_eq_false_iff_not, not_or,
    ne_eq, and_assoc]

/-! ## proc_load_elf -/

def Copy.span (c : Copy) : Span := ⟨c.srcOff.toNat, c.len.toNat⟩

/-- The reads of `load_segment`, for the program header at `base`. -/
def segmentReads (ph : Phdr) (f : Image) (base : Nat) (h : Heap) (vs : Vspace) : List Span :=
  [⟨base + 16, 8⟩, ⟨base + 40, 8⟩, ⟨base + 32, 8⟩] ++
    if ph.pFilesz > ph.pMemsz then []
    else ⟨base + 8, 8⟩ ::
      if ph.Refused f.size then []
      else ⟨base + 4, 4⟩ :: (segmentTurns ph f h vs).1.flatMap fun t => (t.copied.map Copy.span).toList

/-- The reads of one turn of the loop over the program headers. -/
def headerReads (f : Image) (i : Nat) (s : Heap × Vspace) : List Span :=
  let base := f.ePhoff.toNat + i * phdrSize
  ⟨base, 4⟩ :: if (f.phdr i).pType = ptLoad then segmentReads (f.phdr i) f base s.1 s.2 else []

/-- Where the loop goes on. -/
def headerNext (f : Image) (i : Nat) (s : Heap × Vspace) : Option (Heap × Vspace) :=
  if (f.phdr i).pType = ptLoad then
    match loadSegment (f.phdr i) f s.1 s.2 with
    | .ok (h, vs, .ok _) => some (h, vs)
    | _ => none
  else some s

/-- The reads of `verify_elf` and of the loop behind it. -/
def procReads (f : Image) (h : Heap) (vs : Vspace) : List Span :=
  verifyReads f ++
    if f.Verified then
      ⟨32, 8⟩ :: ⟨56, 2⟩ :: loopReads (headerReads f) (headerNext f) (List.range f.ePhnum.toNat) (h, vs)
    else []

/-! ## What passes the checks -/

section Verified

variable {f : Image}

/-- **A file that `verify_elf` accepts has the ELF header and all program headers.** -/
theorem Image.Verified.headers (verified : f.Verified) :
    ehdrSize ≤ f.size.toNat ∧ f.ePhoff.toNat + f.ePhnum.toNat * phdrSize ≤ f.size.toNat := by
  obtain ⟨_, _, _, _, count, place⟩ := verified
  rw [not_or, not_or] at place
  obtain ⟨start, order, stop⟩ := place
  have start := UInt64.le_iff_toNat_le.1 (UInt64.not_lt.1 start)
  have order := UInt64.le_iff_toNat_le.1 (UInt64.not_lt.1 order)
  have stop := UInt64.le_iff_toNat_le.1 (UInt64.not_lt.1 stop)
  change 64 ≤ f.ePhoff.toNat at start
  have width : (f.ePhnum.toUInt64 * 56).toNat = f.ePhnum.toNat * 56 := by
    rw [UInt64.toNat_mul, UInt16.toNat_toUInt64]
    have := f.ePhnum.toNat_lt
    change f.ePhnum.toNat * 56 % 2 ^ 64 = _
    omega
  have offset := f.ePhoff.toNat_lt
  have many := f.ePhnum.toNat_lt
  unfold Image.phdrsEnd at order stop
  rw [UInt64.toNat_add, width] at order stop
  rw [UInt32.toNat_toUInt64] at stop
  unfold ehdrSize phdrSize
  -- a sum that wraps is below `e_phoff`
  omega

theorem segmentReads_within {ph : Phdr} {base : Nat} (h : Heap) (vs : Vspace)
    (inside : base + phdrSize ≤ f.size.toNat) : ∀ s ∈ segmentReads ph f base h vs, s.Within f.size.toNat := by
  unfold phdrSize at inside
  have field (offset length : Nat) (in_ : offset + length ≤ 56) :
      Span.Within f.size.toNat ⟨base + offset, length⟩ := by
    show base + offset + length ≤ _
    omega
  intro s member
  unfold segmentReads at member
  obtain first | later := List.mem_append.1 member
  · simp only [List.mem_cons, List.not_mem_nil, or_false] at first
    obtain rfl | rfl | rfl := first
    · exact field 16 8 (by decide)
    · exact field 40 8 (by decide)
    · exact field 32 8 (by decide)
  · split at later
    · cases later
    · obtain rfl | later := List.mem_cons.1 later
      · exact field 8 8 (by decide)
      · split at later
        · cases later
        · obtain rfl | copied := List.mem_cons.1 later
          · exact field 4 4 (by decide)
          · obtain ⟨t, turn, copy⟩ := List.mem_flatMap.1 copied
            obtain ⟨c, made, rfl⟩ := Option.map_eq_some_iff.1 (Option.mem_toList.1 copy)
            exact ((segmentTurns_within ph f h vs).1 t turn).source c made

theorem headerReads_within {i : Nat} (r : Heap × Vspace)
    (inside : f.ePhoff.toNat + i * phdrSize + phdrSize ≤ f.size.toNat) :
    ∀ s ∈ headerReads f i r, s.Within f.size.toNat := by
  intro s member
  rw [headerReads] at member
  generalize f.ePhoff.toNat + i * phdrSize = base at member inside
  obtain rfl | segment := List.mem_cons.1 member
  · exact Nat.le_trans (Nat.add_le_add_left (by decide : 4 ≤ phdrSize) base) inside
  · by_cases load : (f.phdr i).pType = ptLoad
    · rw [if_pos load] at segment
      exact segmentReads_within r.1 r.2 inside s segment
    · rw [if_neg load] at segment
      cases segment

end Verified

/-! ## The header -/

/-- The file reaches up to the end of `e_phnum`, or a field that it has is wrong. -/
def HeaderDecides (size : Nat) (byte : Nat → UInt8) : Prop :=
  58 ≤ size ∨ ∃ t ∈ headerTests, t.span.Within size ∧ t.passes byte = false

instance (size : Nat) (byte : Nat → UInt8) : Decidable (HeaderDecides size byte) :=
  inferInstanceAs (Decidable (_ ∨ _))

theorem headerTests_ordered : headerTests.Pairwise fun t u => t.span.stop ≤ u.span.stop := by
  simp only [headerTests, Test.byteIs, Test.half, Span.stop]
  decide

theorem headerTests_within_iff {size : Nat} : (∀ t ∈ headerTests, t.span.Within size) ↔ 58 ≤ size := by
  constructor
  · intro inside
    exact inside (.half 56 fun phnum => !(phnum == 0 || phnum > 128)) (by simp [headerTests])
  · intro large t member
    have stop : ∀ t ∈ headerTests, t.span.stop ≤ 58 := by
      simp only [headerTests, Test.byteIs, Test.half, Span.stop]
      decide
    exact Nat.le_trans (stop t member) large

theorem verifyReads_within_iff (f : Image) :
    (∀ s ∈ verifyReads f, s.Within f.size.toNat) ↔ HeaderDecides f.size.toNat f.bytes := by
  rw [HeaderDecides, ← headerTests_within_iff, ← Test.reads_within_iff headerTests_ordered, verifyReads,
    Test.reads_append]
  constructor
  · exact fun inside s member => inside s (List.mem_append_left _ member)
  · intro inside s member
    obtain first | last := List.mem_append.1 member
    · exact inside s first
    · -- `e_phoff` lies before `e_phnum`, which was read
      split at last
      · rename_i pass
        rw [Test.reads_of_all pass] at inside
        have large := headerTests_within_iff.1 fun t member => inside t.span (List.mem_map_of_mem member)
        obtain rfl : s = ⟨32, 8⟩ := by
          rw [Test.reads] at last
          split at last
          · simpa [Test.reads, phoffTest, Test.double] using last
          · simpa [phoffTest, Test.double] using last
        show 32 + 8 ≤ _
        omega
      · cases last

/-- The loader stays in the buffer, and accepts a file only if its headers lie in it. -/
structure ReadsInside (f : Image) (h : Heap) (vs : Vspace) : Prop where
  reads : ∀ s ∈ procReads f h vs, s.Within f.size.toNat
  headers : f.Verified → ehdrSize ≤ f.size.toNat ∧ f.ePhoff.toNat + f.ePhnum.toNat * phdrSize ≤ f.size.toNat

theorem readsInside_iff (f : Image) (h : Heap) (vs : Vspace) :
    ReadsInside f h vs ↔ HeaderDecides f.size.toNat f.bytes := by
  rw [← verifyReads_within_iff]
  constructor
  · exact fun inside s member => inside.reads s (List.mem_append_left _ member)
  · intro inside
    refine ⟨fun s member => ?_, Image.Verified.headers⟩
    obtain check | loop := List.mem_append.1 member
    · exact inside s check
    · split at loop
      · rename_i verified
        obtain ⟨header, table⟩ := verified.headers
        unfold ehdrSize at header
        obtain rfl | loop := List.mem_cons.1 loop
        · show 32 + 8 ≤ _
          omega
        · obtain rfl | loop := List.mem_cons.1 loop
          · show 56 + 2 ≤ _
            omega
          · refine loopReads_within (fun i below r => headerReads_within r ?_) s loop
            have next : (i + 1) * phdrSize ≤ f.ePhnum.toNat * phdrSize :=
              Nat.mul_le_mul_right phdrSize (List.mem_range.1 below)
            rw [Nat.succ_mul] at next
            omega
      · cases loop

/-- **The loader stays in the buffer of a file exactly if the file has the header up to
`e_phnum`, or one of the fields that it has is wrong**, whatever lies behind the buffer. -/
theorem elf_reads_inside_iff {file : OpenFile} {kmalloc : UInt32 → Option Bytes} {buf : Bytes} {size : UInt32}
    (load : fsLoadFile (some file) kmalloc = .ok (buf, size)) (h : Heap) (vs : Vspace) :
    ReadsInside ⟨buf, size⟩ h vs ↔ HeaderDecides size.toNat file.byte := by
  obtain ⟨_, _, filled⟩ := (fsLoadFile_loaded load).filled
  rw [readsInside_iff]
  apply or_congr Iff.rfl
  apply exists_congr
  intro t
  apply and_congr_right
  intro _
  apply and_congr_right
  intro inside
  rw [Test.passes_congr inside fun i below => (filled.file i below).symm]

/-! ## Two files -/

/-- A file with these bytes, delivered at once. -/
def fileOf (bytes : List UInt8) : OpenFile where
  stSize := some (UInt64.ofNat bytes.length)
  byte i := bytes.getD i 0
  read pos count := (min count (bytes.length - pos) : Nat)
  short _ count := Int.ofNat_le.2 (Nat.min_le_left count _)

/-- A heap full of 2s. -/
def twos : UInt32 → Option Bytes := fun _ => some fun _ => 2

theorem fileOf_loads (bytes : List UInt8) (some_ : 0 < bytes.length) (small : bytes.length ≤ 16 * 1024 * 1024) :
    fsLoadFile (some (fileOf bytes)) twos =
      .ok (fill (fun _ => 2) 0 bytes.length (fileOf bytes).byte, UInt32.ofNat bytes.length) := by
  have size : (UInt32.ofNat bytes.length).toNat = bytes.length := UInt32.toNat_ofNat_of_lt' (by
    change _ < 2 ^ 32
    omega)
  have load := @fsLoadFile_once (fileOf bytes) twos (fun _ => 2) (UInt32.ofNat bytes.length) ?_
    (size.symm ▸ some_) (size.symm ▸ small) rfl ?_
  · rwa [size] at load
  · refine congrArg some (UInt64.toNat_inj.1 ?_)
    rw [UInt32.toNat_toUInt64, size, UInt64.toNat_ofNat_of_lt']
    change _ < 2 ^ 64
    omega
  · rw [size]
    show ((min bytes.length (bytes.length - 0) : Nat) : Int) = _
    rw [Nat.sub_zero, Nat.min_self]

/-- The file with text and data. -/
def helloBytes : List UInt8 :=
  ehdrBytes 0x400000 2 ++ [helloText, helloData 0x401000].flatMap phdrBytes ++ [0xc0, 0x03, 0x5f, 0xd6, 0x68, 0x69]

/-- Text and data are copied out of the buffer, and all that is read lies in it. -/
theorem elf_reads_inside_hello :
    ∃ buf, fsLoadFile (some (fileOf helloBytes)) twos = .ok (buf, 182) ∧
      (⟨176, 4⟩ ∈ procReads ⟨buf, 182⟩ loadHeap execVspace ∧ ⟨180, 2⟩ ∈ procReads ⟨buf, 182⟩ loadHeap execVspace) ∧
      ReadsInside ⟨buf, 182⟩ loadHeap execVspace := by
  have length : helloBytes.length = 182 := by decide +kernel
  have load := fileOf_loads helloBytes (by rw [length]; decide) (by rw [length]; decide)
  rw [length] at load
  exact ⟨_, load, by decide +kernel, (elf_reads_inside_iff load loadHeap execVspace).2 (.inl (by decide))⟩

/-- **Of a file that is the ELF magic and nothing else, `verify_elf` reads the fifth byte.** -/
theorem magic_read_beyond :
    ∃ buf, fsLoadFile (some (fileOf [0x7f, 0x45, 0x4c, 0x46])) twos = .ok (buf, 4) ∧
      ∀ h vs, ⟨4, 1⟩ ∈ procReads ⟨buf, 4⟩ h vs ∧ ¬ ReadsInside ⟨buf, 4⟩ h vs := by
  refine ⟨_, fileOf_loads [0x7f, 0x45, 0x4c, 0x46] (by decide) (by decide), fun h vs => ?_⟩
  have beyond : ⟨4, 1⟩ ∈ procReads ⟨fill (fun _ => 2) 0 4 (fileOf [0x7f, 0x45, 0x4c, 0x46]).byte, 4⟩ h vs :=
    List.mem_append_left _ (by decide)
  exact ⟨beyond, fun inside => absurd (inside.reads _ beyond) (by decide)⟩

end Minus.Proc.Loader
