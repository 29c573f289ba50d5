/-
# Fs.GetdentsRun — a directory listed in portions

Both `iterate` of the kernel walk a list of entries that each have a position, skip those
below `ctx->pos`, and hand the others to `filldir` until it refuses (`fillAll`).  What one
call of `fd_getdents64` puts in the buffer is the longest start of the entries from `f_pos`
on that fits, and the next call goes on behind it (`fillAll_spec`), so that the calls
together list the directory (`getdents_complete`).
-/
import Minus.Fs.Getdents
import Minus.Theory.Portions

namespace Minus.Fs.Getdents

set_option autoImplicit false

open Minus.Theory
open Minus.Fs.Dcache (Errno)
open Minus.Fs.Ext4Dir (DirEntry)
open Minus.Fs.Fdtable (FilesStruct fget)

/-! ## The bytes of a record -/

/-- An entry with the range of positions it takes and its `d_off`. -/
structure Placed where
  pos : Int
  next : Int
  off : Int
  item : Item

def record (e : Placed) : Dirent :=
  ⟨e.item.ino, UInt64.ofInt e.off, UInt16.ofNat (recordLen e.item.name), e.item.dType, e.item.name⟩

/-- The length of the record. -/
def Placed.len (e : Placed) : Nat := recordLen e.item.name

/-- The whole record, NUL and padding included. -/
def recordBytes (e : Placed) : List UInt8 :=
  (record e).header ++ e.item.name ++
    List.replicate (recordLen e.item.name - sizeofDirent - e.item.name.length) 0

/-- A name that `char d_name[]` can hold. -/
structure Short (name : List UInt8) : Prop where
  length : name.length ≤ 255
  noNul : 0 ∉ name

@[simp] theorem length_header (de : Dirent) : de.header.length = sizeofDirent := by
  simp [Dirent.header, sizeofDirent]

section Records

variable {e : Placed} {name : List UInt8}

theorem recordLen_bounds (name : List UInt8) :
    sizeofDirent + name.length < recordLen name ∧ recordLen name ≤ sizeofDirent + name.length + 8 ∧
      recordLen name % 8 = 0 := by
  unfold recordLen
  omega

@[simp] theorem length_recordBytes (e : Placed) : (recordBytes e).length = recordLen e.item.name := by
  have := recordLen_bounds e.item.name
  simp only [recordBytes, List.length_append, length_header, List.length_replicate]
  omega

/-- The 32-bit computation of `reclen`. -/
theorem reclen_toNat (short : name.length ≤ 255) :
    ((UInt32.ofNat sizeofDirent + UInt32.ofNat name.length + 1 + 7) &&& ~~~(7 : UInt32)).toNat =
      recordLen name := by
  have mask : (~~~(7 : UInt32)).toNat = 2 ^ 32 - 2 ^ 3 := by decide
  have sum : (UInt32.ofNat sizeofDirent + UInt32.ofNat name.length + 1 + 7).toNat =
      sizeofDirent + name.length + 1 + 7 := by
    simp [sizeofDirent, UInt32.toNat_add, UInt32.toNat_ofNat']
    omega
  rw [UInt32.toNat_and, mask, and_high (by decide) (UInt32.toNat_lt _), sum]
  rfl

theorem record_reclen (short : name.length ≤ 255) : (UInt16.ofNat (recordLen name)).toNat = recordLen name := by
  have := recordLen_bounds name
  unfold sizeofDirent at this
  rw [UInt16.toNat_ofNat', Nat.mod_eq_of_lt (by omega)]

theorem header_reclen (short : e.item.name.length ≤ 255) (rest : List UInt8) :
    ofLe ((((record e).header ++ rest).drop 16).take 2) = recordLen e.item.name := by
  have field : (((record e).header ++ rest).drop 16).take 2 = leBytes 2 (record e).dReclen.toNat := by
    simp [Dirent.header, List.drop_append, List.take_append]
  rw [field, ofLe_leBytes 2 (record e).dReclen.toNat_lt]
  exact record_reclen short

theorem takeWhile_name (noNul : 0 ∉ name) (n : Nat) :
    (name ++ List.replicate (n + 1) 0).takeWhile (· ≠ 0) = name := by
  have whole : ∀ b ∈ name, decide (b ≠ 0) = true := by
    intro b member
    have other : b ≠ 0 := ne_of_mem_of_not_mem member noNul
    simpa using other
  rw [List.takeWhile_append_of_pos whole]
  simp [List.replicate_succ]

/-- A record reads back. -/
theorem read_recordBytes (short : Short e.item.name) (rest : List UInt8) :
    Dirent.read (recordBytes e ++ rest) = record e := by
  have bounds := recordLen_bounds e.item.name
  obtain ⟨pad, padding⟩ : ∃ pad, recordLen e.item.name - sizeofDirent - e.item.name.length = pad + 1 :=
    ⟨recordLen e.item.name - sizeofDirent - e.item.name.length - 1, by omega⟩
  have whole : (recordBytes e ++ rest).take (recordLen e.item.name) = recordBytes e :=
    List.take_left' (length_recordBytes e)
  have reclen : ofLe (((recordBytes e ++ rest).drop 16).take 2) = recordLen e.item.name := by
    unfold recordBytes
    rw [List.append_assoc, List.append_assoc]
    exact header_reclen short.length _
  have tail : (recordBytes e).drop sizeofDirent = e.item.name ++ List.replicate (pad + 1) 0 := by
    unfold recordBytes
    rw [padding, List.append_assoc, List.drop_left' (length_header _)]
  have ino : ((recordBytes e ++ rest).take 8) = leBytes 8 (record e).dIno.toNat := by
    simp [recordBytes, Dirent.header]
  have off : (((recordBytes e ++ rest).drop 8).take 8) = leBytes 8 (record e).dOff.toNat := by
    simp [recordBytes, Dirent.header]
  have type : (recordBytes e ++ rest).getD 18 0 = (record e).dType := by
    simp [recordBytes, Dirent.header, List.getD_eq_getElem?_getD, List.getElem?_append]
  unfold Dirent.read
  dsimp only
  rw [reclen, whole, tail, takeWhile_name short.noNul, ino, off, type,
    ofLe_leBytes 8 (record e).dIno.toNat_lt, ofLe_leBytes 8 (record e).dOff.toNat_lt]
  simp [record]

/-- **A buffer of records splits into them.** -/
theorem splitDirents_records {portion : List Placed} (short : ∀ e ∈ portion, Short e.item.name) :
    splitDirents (portion.flatMap recordBytes) = some (portion.map record) := by
  induction portion with
  | nil => simp [splitDirents]
  | cons e portion ih =>
      have bounds := recordLen_bounds e.item.name
      have here := short e List.mem_cons_self
      rw [List.flatMap_cons, splitDirents, if_neg (by
        intro empty
        have none_ := congrArg List.length (List.append_eq_nil_iff.1 empty).1
        rw [length_recordBytes, List.length_nil] at none_
        omega)]
      have reclen : ofLe (((recordBytes e ++ portion.flatMap recordBytes).drop 16).take 2) =
          recordLen e.item.name := by
        unfold recordBytes
        rw [List.append_assoc, List.append_assoc]
        exact header_reclen here.length _
      have whole : (recordBytes e ++ portion.flatMap recordBytes).take (recordLen e.item.name) = recordBytes e :=
        List.take_left' (length_recordBytes e)
      have later : (recordBytes e ++ portion.flatMap recordBytes).drop (recordLen e.item.name) =
          portion.flatMap recordBytes := List.drop_left' (length_recordBytes e)
      have nul : (0 : UInt8) ∈ (recordBytes e).drop sizeofDirent := by
        unfold recordBytes
        rw [List.append_assoc, List.drop_left' (length_header _), List.mem_append, List.mem_replicate]
        exact .inr ⟨by omega, rfl⟩
      dsimp only
      rw [reclen, dif_pos ⟨by omega, by simp, bounds.2.2, by rw [whole]; exact nul⟩, later,
        ih fun e member => short e (List.mem_cons_of_mem _ member), read_recordBytes here]
      rfl

end Records

/-! ## The actor -/

/-- A buffer with room behind it for the 32-bit sum in `filldir`, which every caller has. -/
structure Roomy (g : GetdentsCtx) : Prop where
  within : g.pos.toNat ≤ g.count.toNat
  small : g.count.toNat + 280 < 2 ^ 32

/-- `filldir` puts the record behind the others if it fits. -/
theorem filldir_fits {g : GetdentsCtx} {e : Placed} (roomy : Roomy g) (short : Short e.item.name)
    (fits : recordLen e.item.name ≤ g.count.toNat - g.pos.toNat) :
    ∃ g', filldir g e.item.name e.off e.item.ino e.item.dType = some g' ∧
      upTo g'.buf g'.pos.toNat = upTo g.buf g.pos.toNat ++ recordBytes e ∧
      g'.pos.toNat = g.pos.toNat + recordLen e.item.name ∧ g'.count = g.count ∧
      g'.ctxPos = g.ctxPos ∧ Roomy g' := by
  have bounds := recordLen_bounds e.item.name
  have len := reclen_toNat short.length
  have within := roomy.within
  have small := roomy.small
  unfold filldir
  dsimp only
  generalize (UInt32.ofNat sizeofDirent + UInt32.ofNat e.item.name.length + 1 + 7) &&& ~~~(7 : UInt32) = reclen at len
  have sum : (g.pos + reclen).toNat = g.pos.toNat + recordLen e.item.name := by
    rw [UInt32.toNat_add, len]
    omega
  have room : ¬ g.pos + reclen > g.count := by
    rw [gt_iff_lt, UInt32.lt_iff_toNat_lt, sum]
    omega
  have header : (⟨e.item.ino, UInt64.ofInt e.off, reclen.toUInt16, e.item.dType, e.item.name⟩ : Dirent) = record e := by
    unfold record
    congr 1
    apply UInt16.toNat_inj.1
    rw [UInt32.toNat_toUInt16, len, UInt16.toNat_ofNat']
  rw [if_neg room]
  refine ⟨_, rfl, ?_, sum, rfl, rfl, ?_⟩
  · dsimp only
    -- the header, the name, and what is cleared end where the record does
    have stop : (g.pos + reclen).toNat = g.pos.toNat + sizeofDirent + e.item.name.length +
        (recordLen e.item.name - sizeofDirent - e.item.name.length) := by
      rw [sum]
      omega
    rw [header, len, stop, upTo_clear, upTo_blit, ← length_header (record e), upTo_blit, recordBytes,
      length_header]
    simp only [List.append_assoc]
  · refine ⟨?_, small⟩
    show (g.pos + reclen).toNat ≤ g.count.toNat
    omega

theorem filldir_refuses {g : GetdentsCtx} {e : Placed} (roomy : Roomy g) (short : Short e.item.name)
    (big : g.count.toNat - g.pos.toNat < recordLen e.item.name) :
    filldir g e.item.name e.off e.item.ino e.item.dType = none := by
  have bounds := recordLen_bounds e.item.name
  have len := reclen_toNat short.length
  have within := roomy.within
  have small := roomy.small
  have length := short.length
  unfold filldir
  dsimp only
  generalize (UInt32.ofNat sizeofDirent + UInt32.ofNat e.item.name.length + 1 + 7) &&& ~~~(7 : UInt32) = reclen at len
  have sum : (g.pos + reclen).toNat = g.pos.toNat + recordLen e.item.name := by
    unfold sizeofDirent at bounds
    rw [UInt32.toNat_add, len]
    exact Nat.mod_eq_of_lt (by omega)
  rw [if_pos]
  rw [gt_iff_lt, UInt32.lt_iff_toNat_lt, sum]
  omega

/-! ## Filling a buffer -/

/-- Hand the entries from `ctx->pos` on to `filldir` until it refuses; what is left then. -/
def fillAll : GetdentsCtx → List Placed → GetdentsCtx × List Placed
  | g, [] => (g, [])
  | g, e :: rest =>
      if e.pos < g.ctxPos then fillAll g rest
      else match filldir g e.item.name e.off e.item.ino e.item.dType with
        | none => (g, e :: rest)
        | some g => fillAll { g with ctxPos := e.next } rest

theorem fillAll_append (g : GetdentsCtx) (first second : List Placed) :
    fillAll g (first ++ second) =
      match fillAll g first with
      | (g, []) => fillAll g second
      | (g, left) => (g, left ++ second) := by
  induction first generalizing g with
  | nil => rfl
  | cons e rest ih =>
      rw [List.cons_append, fillAll, fillAll]
      split
      · exact ih g
      · cases filldir g e.item.name e.off e.item.ino e.item.dType with
        | none => rfl
        | some g' => exact ih _

/-- Entries one behind the other, with names that fit in a record. -/
structure Ordered (entries : List Placed) : Prop where
  ahead : entries.Pairwise fun e f => e.next ≤ f.pos
  positive : ∀ e ∈ entries, e.pos < e.next
  short : ∀ e ∈ entries, Short e.item.name

theorem Ordered.tail {e : Placed} {rest : List Placed} (ordered : Ordered (e :: rest)) : Ordered rest where
  ahead := (List.pairwise_cons.1 ordered.ahead).2
  positive := fun f member => ordered.positive f (List.mem_cons_of_mem _ member)
  short := fun f member => ordered.short f (List.mem_cons_of_mem _ member)

/-- The entries from a position on. -/
def behind (pos : Int) (entries : List Placed) : List Placed := entries.filter fun e => pos ≤ e.pos

theorem behind_cons_of_lt {pos : Int} {e : Placed} (before : e.pos < pos) (rest : List Placed) :
    behind pos (e :: rest) = behind pos rest :=
  List.filter_cons_of_neg (by simpa using before)

/-- Nothing of the rest is before the end of the first entry. -/
theorem Ordered.behind_cons {pos : Int} {e : Placed} {rest : List Placed} (ordered : Ordered (e :: rest))
    (after : pos ≤ e.pos) : behind pos (e :: rest) = e :: behind e.next rest := by
  have ahead := (List.pairwise_cons.1 ordered.ahead).1
  have positive := ordered.positive e List.mem_cons_self
  unfold behind
  rw [List.filter_cons_of_pos (by simpa using after)]
  congr 1
  refine List.filter_congr fun f member => ?_
  have := ahead f member
  have : pos ≤ f.pos := by omega
  simp [*]

/-- A position where a listing can go on: the start, or the end of an entry. -/
def Boundary (entries : List Placed) (pos : Int) : Prop := pos = 0 ∨ ∃ e ∈ entries, pos = e.next

/-- **One call.**  The buffer gets the longest start of the entries from `ctx->pos` on that
fits, and `ctx->pos` is then where the rest begins. -/
theorem fillAll_spec {entries : List Placed} (ordered : Ordered entries) {g : GetdentsCtx} (roomy : Roomy g) :
    let taken := fit Placed.len (g.count.toNat - g.pos.toNat) (behind g.ctxPos entries)
    let g' := (fillAll g entries).1
    upTo g'.buf g'.pos.toNat = upTo g.buf g.pos.toNat ++ taken.1.flatMap recordBytes ∧
      behind g'.ctxPos entries = taken.2 ∧ g.ctxPos ≤ g'.ctxPos ∧
      (g'.ctxPos = g.ctxPos ∨ ∃ e ∈ entries, g'.ctxPos = e.next) := by
  induction entries generalizing g with
  | nil => exact ⟨by simp [fillAll, behind, fit], rfl, le_rfl, .inl rfl⟩
  | cons e rest ih =>
      have positive := ordered.positive e List.mem_cons_self
      have short := ordered.short e List.mem_cons_self
      dsimp only
      rw [fillAll]
      by_cases before : e.pos < g.ctxPos
      · rw [if_pos before, behind_cons_of_lt before]
        obtain ⟨bytes, left, more, stop⟩ := ih ordered.tail roomy
        refine ⟨bytes, ?_, more, stop.imp_right ?_⟩
        · rw [behind_cons_of_lt (by omega), left]
        · rintro ⟨f, member, same⟩
          exact ⟨f, List.mem_cons_of_mem _ member, same⟩
      · have after : g.ctxPos ≤ e.pos := by omega
        rw [if_neg before, ordered.behind_cons after]
        rcases Nat.lt_or_ge (g.count.toNat - g.pos.toNat) e.len with big | fits
        · rw [filldir_refuses roomy short big, fit_cons_of_lt big]
          exact ⟨by simp, ordered.behind_cons after, le_rfl, .inl rfl⟩
        · obtain ⟨g₁, filled, bytes, pos, count, same, roomy₁⟩ := filldir_fits roomy short fits
          rw [filled, fit_cons_of_le fits]
          have next : Roomy { g₁ with ctxPos := e.next } := ⟨roomy₁.within, roomy₁.small⟩
          obtain ⟨bytes', left, more, stop⟩ := ih ordered.tail next
          have room : g₁.count.toNat - g₁.pos.toNat = g.count.toNat - g.pos.toNat - e.len := by
            rw [count, pos, Placed.len]
            omega
          dsimp only at bytes' left more stop ⊢
          rw [room] at bytes' left
          refine ⟨?_, ?_, by omega, .inr ?_⟩
          · rw [bytes', bytes, List.flatMap_cons, List.append_assoc]
          · rw [behind_cons_of_lt (by omega), left]
          · rcases stop with here | ⟨f, member, there⟩
            · exact ⟨e, List.mem_cons_self, here⟩
            · exact ⟨f, List.mem_cons_of_mem _ member, there⟩

/-! ## ext4 -/

/-- The live entries among these records, the first of which is at `pos`. -/
def placedFrom : Int → List DirEntry → List Placed
  | _, [] => []
  | pos, de :: rest =>
      (if de.inode ≠ 0 then [⟨pos, pos + de.recLen.toNat, pos, entryItem de⟩] else []) ++
        placedFrom (pos + de.recLen.toNat) rest

/-- The bytes that the records take. -/
def span (records : List DirEntry) : Int := (records.map fun de => (de.recLen.toNat : Int)).sum

@[simp] theorem span_cons (de : DirEntry) (rest : List DirEntry) : span (de :: rest) = de.recLen.toNat + span rest := by
  simp [span]

theorem placedFrom_append (pos : Int) (first second : List DirEntry) :
    placedFrom pos (first ++ second) = placedFrom pos first ++ placedFrom (pos + span first) second := by
  induction first generalizing pos with
  | nil => simp [placedFrom, span]
  | cons de rest ih => rw [List.cons_append, placedFrom, placedFrom, ih, span_cons, List.append_assoc, add_assoc]

/-- The entries of these records in order. -/
theorem placedFrom_items (pos : Int) (records : List DirEntry) :
    (placedFrom pos records).map Placed.item = (records.filter (·.inode ≠ 0)).map entryItem := by
  induction records generalizing pos with
  | nil => rfl
  | cons de rest ih =>
      rw [placedFrom, List.map_append, ih]
      by_cases live : de.inode = 0
      · rw [if_neg (by simpa using live), List.filter_cons_of_neg (by simpa using live)]
        rfl
      · rw [if_pos live, List.filter_cons_of_pos (by simpa using live)]
        rfl

/-- What a record that takes room and has a short name needs for the listing. -/
structure Listable (de : DirEntry) : Prop where
  positive : 0 < de.recLen.toNat
  short : de.inode ≠ 0 → Short (de.name.map charByte)

theorem mem_placedFrom {pos : Int} {records : List DirEntry} (listable : ∀ de ∈ records, Listable de) {e : Placed}
    (member : e ∈ placedFrom pos records) : pos ≤ e.pos ∧ e.pos < e.next ∧ Short e.item.name := by
  induction records generalizing pos with
  | nil => cases member
  | cons de rest ih =>
      have here := listable de List.mem_cons_self
      have positive := here.positive
      rw [placedFrom, List.mem_append] at member
      rcases member with first | later
      · split at first
        · rename_i live
          rw [List.mem_singleton] at first
          subst first
          exact ⟨le_rfl, by dsimp only; omega, here.short live⟩
        · cases first
      · obtain ⟨after, rest⟩ := ih (fun de inside => listable de (List.mem_cons_of_mem _ inside)) later
        exact ⟨by omega, rest⟩

theorem placedFrom_ordered (pos : Int) {records : List DirEntry} (listable : ∀ de ∈ records, Listable de) :
    Ordered (placedFrom pos records) := by
  refine ⟨?_, fun e member => (mem_placedFrom listable member).2.1, fun e member => (mem_placedFrom listable member).2.2⟩
  induction records generalizing pos with
  | nil => exact List.Pairwise.nil
  | cons de rest ih =>
      have later : ∀ de ∈ rest, Listable de := fun de inside => listable de (List.mem_cons_of_mem _ inside)
      rw [placedFrom]
      refine List.pairwise_append.2 ⟨?_, ih _ later, ?_⟩
      · split
        · exact List.pairwise_singleton ..
        · exact List.Pairwise.nil
      · intro e first f member
        split at first
        · rw [List.mem_singleton] at first
          subst first
          exact (mem_placedFrom later member).1
        · cases first

section Ext4

variable {b : Bytes} {blockSize off : Nat} {records : List DirEntry}

theorem HoldsFrom.le (holds : HoldsFrom b blockSize off records) : off ≤ blockSize := by
  induction records generalizing off with
  | nil => exact le_of_eq holds
  | cons de rest ih => exact (Nat.le_add_right _ _).trans (ih holds.2.2)

theorem HoldsFrom.span (holds : HoldsFrom b blockSize off records) : off + span records = blockSize := by
  induction records generalizing off with
  | nil =>
      have stop : off = blockSize := holds
      simp [Getdents.span, stop]
  | cons de rest ih =>
      have later := ih holds.2.2
      rw [span_cons]
      omega

theorem HoldsFrom.listable (holds : HoldsFrom b blockSize off records)
    (names : ∀ de ∈ records, de.inode ≠ 0 → 0 ∉ de.name.map charByte) : ∀ de ∈ records, Listable de := by
  induction records generalizing off with
  | nil => nofun
  | cons de rest ih =>
      obtain ⟨encodes, room, later⟩ := holds
      intro d member
      rcases List.mem_cons.1 member with rfl | inside
      · refine ⟨by unfold sizeofEntry at room; omega, fun live => ⟨?_, names d List.mem_cons_self live⟩⟩
        rw [List.length_map, ← encodes.nameLen]
        exact Nat.le_of_lt_succ (UInt8.toNat_lt _)
      · exact ih later (fun de inside => names de (List.mem_cons_of_mem _ inside)) d inside

/-- **The scan of a block** hands its live entries on. -/
theorem blockLoop_eq (holds : HoldsFrom b blockSize off records) (pos : Int) (g : GetdentsCtx) :
    blockLoop b blockSize off pos g = .ok (match fillAll g (placedFrom pos records) with
      | (g, []) => (g, some (pos + span records))
      | (g, _ :: _) => (g, none)) := by
  induction records generalizing off pos g with
  | nil =>
      have stop : off = blockSize := holds
      rw [blockLoop, if_neg (by omega)]
      simp [placedFrom, fillAll, span]
  | cons de rest ih =>
      obtain ⟨encodes, room, later⟩ := holds
      have inside := later.le
      have inode : load32 b off ≠ 0 ↔ de.inode ≠ 0 := by
        rw [← encodes.inode, ne_eq, ne_eq, ← UInt32.toNat_inj]
        rfl
      have name : upTo (fun i => b (off + sizeofEntry + i)) (b (off + 6)).toNat = de.name.map charByte := by
        rw [encodes.nameLen, encodes.name]
      have ino : (load32 b off).toUInt64 = UInt64.ofNat de.inode := by
        apply UInt64.toNat_inj.1
        rw [UInt32.toNat_toUInt64, ← encodes.inode, UInt64.toNat_ofNat_of_lt']
        exact (UInt32.toNat_lt _).trans (by decide)
      rw [blockLoop, if_pos (by unfold sizeofEntry at room; omega), encodes.recLen]
      dsimp only
      rw [dif_neg (by omega), name, ino, encodes.fileType, placedFrom, span_cons, ← add_assoc]
      by_cases live : de.inode = 0
      · rw [if_neg fun both => inode.1 both.1 live, if_neg (by simpa using live)]
        exact ih later _ g
      · rw [if_pos live, List.singleton_append, fillAll]
        by_cases before : pos < g.ctxPos
        · rw [if_neg fun both => by omega, if_pos before]
          exact ih later _ g
        · rw [if_pos ⟨inode.2 live, by omega⟩, if_neg before]
          dsimp only [entryItem]
          cases filldir g (de.name.map charByte) pos (UInt64.ofNat de.inode) (ext4FileTypeToDt de.fileType) with
          | none => rfl
          | some g' => exact ih later _ _

/-- The blocks one after another. -/
theorem iterateFrom_eq (io : Nat → Bool) (dir : DirFile) {blocks : Ext4Dir.Directory} (bidx : Nat)
    (holds : ∀ i (inside : i < blocks.length), HoldsFrom (dir.block (bidx + i)) dir.blockSize.toNat 0 blocks[i])
    (pos : Int) (g : GetdentsCtx) :
    iterateFrom io dir blocks.length bidx pos g = .ok (fillAll g (placedFrom pos blocks.flatten)).1 ∨
      iterateFrom io dir blocks.length bidx pos g = .error .eio ∧ ∃ i, io i = false := by
  induction blocks generalizing bidx pos g with
  | nil => exact .inl rfl
  | cons records rest ih =>
      have first : HoldsFrom (dir.block bidx) dir.blockSize.toNat 0 records := holds 0 (by simp)
      have later : ∀ i (inside : i < rest.length),
          HoldsFrom (dir.block (bidx + 1 + i)) dir.blockSize.toNat 0 rest[i] := by
        intro i inside
        have next := holds (i + 1) (by simpa using inside)
        rwa [Nat.add_assoc, Nat.add_comm 1 i]
      rw [List.length_cons, iterateFrom]
      by_cases fails : io bidx = false
      · rw [if_pos (by simpa using fails)]
        exact .inr ⟨rfl, bidx, fails⟩
      · rw [if_neg (by simpa using fails), blockLoop_eq first, List.flatten_cons, placedFrom_append, fillAll_append]
        rcases result : fillAll g (placedFrom pos records) with ⟨g', _ | ⟨e, left⟩⟩
        · exact ih (bidx + 1) later _ g'
        · exact .inl rfl

theorem DirFile.Holds.nrBlocks {dir : DirFile} {blocks : Ext4Dir.Directory} (holds : dir.Holds blocks) :
    dir.nrBlocks.toNat = blocks.length := by
  have positive := holds.positive
  have size := holds.size
  have count := holds.count
  have limit := dir.blockSize.toNat_lt
  have product : blocks.length * dir.blockSize.toNat ≤ (2 ^ 32 - 1) * (2 ^ 32 - 1) :=
    Nat.mul_le_mul (by omega) (by omega)
  have sum : (dir.iSize + dir.blockSize.toUInt64 - 1).toNat =
      blocks.length * dir.blockSize.toNat + (dir.blockSize.toNat - 1) := by
    have add : (dir.iSize + dir.blockSize.toUInt64).toNat = dir.iSize.toNat + dir.blockSize.toNat := by
      rw [UInt64.toNat_add, UInt32.toNat_toUInt64]
      exact Nat.mod_eq_of_lt (by omega)
    rw [UInt64.toNat_sub_of_le _ _ (by rw [UInt64.le_iff_toNat_le, add]; simp; omega), add, size]
    simp
    omega
  unfold DirFile.nrBlocks
  rw [UInt64.toNat_toUInt32, UInt64.toNat_div, sum, UInt32.toNat_toUInt64, Nat.mul_comm,
    Nat.mul_add_div positive, Nat.div_eq_of_lt (by omega), Nat.add_zero]
  exact Nat.mod_eq_of_lt count

end Ext4

/-! ## devfs -/

/-- The entries of the table, the first of which has this index. -/
def devfsPlaced : Nat → List (List UInt8 × UInt64 × UInt8) → List Placed
  | _, [] => []
  | i, (name, ino, dType) :: rest => ⟨i, i + 1, i + 1, ⟨name, ino, dType⟩⟩ :: devfsPlaced (i + 1) rest

section Devfs

variable {table : List (List UInt8 × UInt64 × UInt8)}

theorem devfsLoop_eq (i : Nat) {g : GetdentsCtx} (before : g.ctxPos ≤ i) :
    devfsLoop table i g = (fillAll g (devfsPlaced i table)).1 := by
  induction table generalizing i g with
  | nil => rfl
  | cons entry rest ih =>
      obtain ⟨name, ino, dType⟩ := entry
      rw [devfsLoop, devfsPlaced, fillAll, if_neg (by dsimp only; omega)]
      dsimp only
      cases filldir g name (i + 1) ino dType with
      | none => rfl
      | some g' => exact ih (i + 1) (g := { g' with ctxPos := i + 1 }) (by simp)

theorem fillAll_devfs (i k : Nat) {g : GetdentsCtx} (here : g.ctxPos = i + k) :
    fillAll g (devfsPlaced i table) = fillAll g (devfsPlaced (i + k) (table.drop k)) := by
  induction table generalizing i k with
  | nil => simp [devfsPlaced]
  | cons entry rest ih =>
      cases k with
      | zero => rfl
      | succ k =>
          rw [devfsPlaced, fillAll, if_pos (by dsimp only; omega), List.drop_succ_cons,
            ih (i + 1) k (by omega), Nat.add_right_comm i 1 k, Nat.add_assoc i k 1]

theorem mem_devfsPlaced {i : Nat} {e : Placed} (member : e ∈ devfsPlaced i table) :
    i ≤ e.pos ∧ e.next = e.pos + 1 ∧ e.next ≤ i + table.length ∧ ∃ entry ∈ table, entry.1 = e.item.name := by
  induction table generalizing i with
  | nil => cases member
  | cons entry rest ih =>
      rw [devfsPlaced] at member
      rcases List.mem_cons.1 member with rfl | later
      · exact ⟨le_rfl, rfl, by simp, entry, List.mem_cons_self, rfl⟩
      · obtain ⟨after, next, limit, entry', inside, same⟩ := ih later
        refine ⟨by omega, next, ?_, entry', List.mem_cons_of_mem _ inside, same⟩
        rw [List.length_cons]
        omega

theorem devfsPlaced_ordered (i : Nat) (short : ∀ entry ∈ table, Short entry.1) : Ordered (devfsPlaced i table) := by
  refine ⟨?_, ?_, ?_⟩
  · induction table generalizing i with
    | nil => exact List.Pairwise.nil
    | cons entry rest ih =>
        rw [devfsPlaced]
        refine List.pairwise_cons.2
          ⟨fun f member => ?_, ih (i + 1) fun entry inside => short entry (List.mem_cons_of_mem _ inside)⟩
        have := (mem_devfsPlaced member).1
        dsimp only
        omega
  · intro e member
    have := (mem_devfsPlaced member).2.1
    omega
  · intro e member
    obtain ⟨-, -, -, entry, inside, same⟩ := mem_devfsPlaced member
    exact same ▸ short entry inside

theorem devfsPlaced_items (i : Nat) :
    (devfsPlaced i table).map Placed.item = table.map fun e => ⟨e.1, e.2.1, e.2.2⟩ := by
  induction table generalizing i with
  | nil => rfl
  | cons entry rest ih => rw [devfsPlaced, List.map_cons, List.map_cons, ih]

end Devfs

theorem devfsEntries_short : ∀ entry ∈ devfsEntries, Short entry.1 := by
  have all : ∀ entry ∈ devfsEntries, entry.1.length ≤ 255 ∧ 0 ∉ entry.1 := by decide
  exact fun entry member => ⟨(all entry member).1, (all entry member).2⟩

/-! ## Listings -/

/-- The `iterate` of a directory goes through these entries from any boundary on. -/
structure Resumes (fOp : FileOperations) (entries : List Placed) : Prop where
  ordered : Ordered entries
  start : ∀ e ∈ entries, 0 ≤ e.pos
  iterate : ∀ io, ∃ walk, iterate io fOp = some walk ∧ ∀ g : GetdentsCtx, Boundary entries g.ctxPos →
    walk g = .ok (fillAll g entries).1 ∨ walk g = .error .eio ∧ ∃ i, io i = false

theorem ext4_listable {dir : DirFile} {blocks : Ext4Dir.Directory} (holds : dir.Holds blocks) :
    ∀ de ∈ blocks.flatten, Listable de := by
  intro de member
  obtain ⟨b, inside, here⟩ := List.mem_flatten.1 member
  obtain ⟨i, below, rfl⟩ := List.getElem_of_mem inside
  exact (holds.block i below).listable (holds.names _ inside) de here

/-- `ext4_iterate` goes through the entries from any position on. -/
theorem ext4Iterate_eq {dir : DirFile} {blocks : Ext4Dir.Directory} (holds : dir.Holds blocks) (io : Nat → Bool)
    (g : GetdentsCtx) :
    ext4Iterate io dir g = .ok (fillAll g (placedFrom 0 blocks.flatten)).1 ∨
      ext4Iterate io dir g = .error .eio ∧ ∃ i, io i = false := by
  unfold ext4Iterate
  rw [holds.nrBlocks]
  exact iterateFrom_eq io dir 0 (fun i inside => by simpa using holds.block i inside) 0 g

theorem ext4_resumes {dir : DirFile} {blocks : Ext4Dir.Directory} (holds : dir.Holds blocks) :
    Resumes (.ext4 dir) (placedFrom 0 blocks.flatten) where
  ordered := placedFrom_ordered 0 (ext4_listable holds)
  start _ member := (mem_placedFrom (ext4_listable holds) member).1
  iterate io := ⟨_, rfl, fun g _ => ext4Iterate_eq holds io g⟩

theorem devfs_resumes : Resumes .devfs (devfsPlaced 0 devfsEntries) := by
  refine ⟨devfsPlaced_ordered 0 devfsEntries_short, fun e member => ?_, fun io => ⟨_, rfl, ?_⟩⟩
  · simpa using (mem_devfsPlaced member).1
  · intro g boundary
    left
    have limits : 0 ≤ g.ctxPos ∧ g.ctxPos ≤ 4 := by
      rcases boundary with zero | ⟨e, member, same⟩
      · omega
      · obtain ⟨first, next, last, -⟩ := mem_devfsPlaced member
        have length : devfsEntries.length = 4 := rfl
        omega
    obtain ⟨i, here⟩ := Int.eq_ofNat_of_zero_le limits.1
    have index : g.ctxPos.toNat % 2 ^ 32 = i := by omega
    unfold devfsIterate
    rw [if_neg (by omega)]
    dsimp only
    rw [index, devfsLoop_eq i (by omega), fillAll_devfs 0 i (by omega), Nat.zero_add]

theorem Lists.resumes {fOp : FileOperations} {entries : List Item} (lists : Lists fOp entries) :
    ∃ placed, Resumes fOp placed ∧ placed.map Placed.item = entries := by
  cases lists with
  | ext4 holds => exact ⟨_, ext4_resumes holds, placedFrom_items _ _⟩
  | devfs => exact ⟨_, devfs_resumes, devfsPlaced_items _⟩

/-! ## Sequences of calls -/

/-- The descriptor is open on the directory, at a boundary of its entries. -/
structure Open (s : State) (fd : UInt32) (p : Nat) (entries : List Placed) : Prop where
  slot : ∃ files, s.curFiles = some files ∧ fget files fd.toInt32.toInt = some p
  resumes : Resumes (s.file p).fOp entries
  boundary : Boundary entries (s.file p).fPos

/-- A buffer that holds any single record, and is shorter than 2^32 by more than one. -/
structure Call.Fits (c : Call) (entries : List Item) : Prop where
  longest : ∀ item ∈ entries, recordLen item.name ≤ c.count.toNat
  small : c.count.toNat + 280 < 2 ^ 32

section Calls

variable {s : State} {fd : UInt32} {p : Nat} {entries : List Placed} {c : Call}

/-- A call goes to the `iterate` of its file. -/
theorem fdGetdents64_walk {files : FilesStruct} (current : s.curFiles = some files)
    (slot : fget files fd.toInt32.toInt = some p) {walk : GetdentsCtx → Except Errno GetdentsCtx}
    (is : iterate c.io (s.file p).fOp = some walk) :
    fdGetdents64 s fd c =
      match walk ⟨(s.file p).fPos, c.buf, c.count, 0⟩ with
      | .error e => ({ s with file := Function.update s.file p (s.file p) }, .error e)
      | .ok g => ({ s with file := Function.update s.file p { s.file p with fPos := g.ctxPos } },
          .ok (upTo g.buf g.pos.toNat)) := by
  unfold fdGetdents64 vfsReaddir
  rw [current]
  dsimp only
  rw [slot]
  dsimp only
  rw [is]
  dsimp only
  cases walk ⟨(s.file p).fPos, c.buf, c.count, 0⟩ with
  | error e => rfl
  | ok g' => rfl

variable (s fd c) in
/-- A call leaves the descriptor and its `f_op`. -/
theorem fdGetdents64_frame : (fdGetdents64 s fd c).1.curFiles = s.curFiles ∧
    ∀ q, ((fdGetdents64 s fd c).1.file q).fOp = (s.file q).fOp := by
  unfold fdGetdents64
  split
  · exact ⟨rfl, fun q => rfl⟩
  · split
    · exact ⟨rfl, fun q => rfl⟩
    · rename_i p' _
      refine ⟨rfl, fun q => ?_⟩
      by_cases here : q = p'
      · subst here
        dsimp only
        rw [Function.update_self]
        unfold vfsReaddir
        split
        · rfl
        · split
          · rfl
          · rfl
      · dsimp only
        rw [Function.update_of_ne here]

/-- A call that fills its buffer returns the next portion, and leaves the position where the
rest begins. -/
theorem fdGetdents64_fill {files : FilesStruct} (current : s.curFiles = some files)
    (slot : fget files fd.toInt32.toInt = some p) (ordered : Ordered entries)
    {walk : GetdentsCtx → Except Errno GetdentsCtx} (is : iterate c.io (s.file p).fOp = some walk)
    (done : walk ⟨(s.file p).fPos, c.buf, c.count, 0⟩ =
      .ok (fillAll ⟨(s.file p).fPos, c.buf, c.count, 0⟩ entries).1)
    (small : c.count.toNat + 280 < 2 ^ 32) :
    ∃ portion, (fdGetdents64 s fd c).2 = .ok (portion.flatMap recordBytes) ∧
      portion ++ behind ((fdGetdents64 s fd c).1.file p).fPos entries = behind (s.file p).fPos entries ∧
      (c.Fits (entries.map Placed.item) → portion = [] → behind (s.file p).fPos entries = []) ∧
      (((fdGetdents64 s fd c).1.file p).fPos = (s.file p).fPos ∨
        ∃ e ∈ entries, ((fdGetdents64 s fd c).1.file p).fPos = e.next) := by
  have call := fdGetdents64_walk current slot is
  let g : GetdentsCtx := ⟨(s.file p).fPos, c.buf, c.count, 0⟩
  rw [done] at call
  have roomy : Roomy g := ⟨by simp [g], small⟩
  obtain ⟨bytes, left, -, stop⟩ := fillAll_spec ordered roomy
  rw [call]
  dsimp only at bytes left ⊢
  refine ⟨(fit Placed.len (g.count.toNat - g.pos.toNat) (behind g.ctxPos entries)).1, ?_, ?_, ?_, ?_⟩
  · rw [bytes]
    rfl
  · rw [Function.update_self, left]
    exact fit_append _ _
  · refine fun fits => eq_nil_of_fit fun e member => ?_
    have inside : e ∈ entries := (List.mem_filter.1 member).1
    exact fits.longest _ (List.mem_map_of_mem inside)
  · rw [Function.update_self]
    exact stop

/-- **A call** returns the next portion, or fails on a block and changes nothing. -/
theorem fdGetdents64_spec (opened : Open s fd p entries) (fits : c.Fits (entries.map Placed.item)) :
    Open (fdGetdents64 s fd c).1 fd p entries ∧
      ((fdGetdents64 s fd c = (s, .error .eio) ∧ ∃ i, c.io i = false) ∨
        ∃ portion, (fdGetdents64 s fd c).2 = .ok (portion.flatMap recordBytes) ∧
          portion ++ behind ((fdGetdents64 s fd c).1.file p).fPos entries = behind (s.file p).fPos entries ∧
          (portion = [] → behind (s.file p).fPos entries = [])) := by
  obtain ⟨⟨files, current, slot⟩, resumes, boundary⟩ := opened
  obtain ⟨walk, is, does⟩ := resumes.iterate c.io
  rcases does ⟨(s.file p).fPos, c.buf, c.count, 0⟩ boundary with done | ⟨failed, some_⟩
  · obtain ⟨same, op⟩ := fdGetdents64_frame s fd c
    obtain ⟨portion, ret, taken, last, stop⟩ := fdGetdents64_fill current slot resumes.ordered is done fits.small
    have boundary' : Boundary entries ((fdGetdents64 s fd c).1.file p).fPos := by
      rcases stop with same | next
      · rw [same]
        exact boundary
      · exact .inr next
    exact ⟨⟨⟨files, same.trans current, slot⟩, (op p).symm ▸ resumes, boundary'⟩,
      .inr ⟨portion, ret, taken, last fits⟩⟩
  · have call := fdGetdents64_walk current slot is
    rw [failed] at call
    dsimp only at call
    rw [Function.update_eq_self] at call
    rw [call]
    exact ⟨⟨⟨files, current, slot⟩, resumes, boundary⟩, .inl ⟨rfl, some_⟩⟩

/-- The buffers that the calls returned. -/
def delivered (results : List (Except Errno (List UInt8))) : List (List UInt8) := results.filterMap Except.toOption

/-- The calls one after another serve what is behind the position. -/
theorem getdentsCalls_served {calls : List Call} (opened : Open s fd p entries)
    (fits : ∀ c ∈ calls, c.Fits (entries.map Placed.item)) :
    (∃ portions, delivered (getdentsCalls s fd calls) = portions.map (List.flatMap recordBytes) ∧
        Served (behind (s.file p).fPos entries) portions) ∧
      List.Forall₂ (fun c ret => (∀ i, c.io i = true) → ∃ bytes, ret = .ok bytes) calls
        (getdentsCalls s fd calls) := by
  induction calls generalizing s with
  | nil => exact ⟨⟨[], rfl, .nil _⟩, .nil⟩
  | cons c rest ih =>
      obtain ⟨opened', out⟩ := fdGetdents64_spec opened (fits c List.mem_cons_self)
      obtain ⟨⟨portions, bytes, served⟩, answers⟩ := ih opened' fun c inside => fits c (List.mem_cons_of_mem _ inside)
      rw [getdentsCalls]
      dsimp only
      rcases out with ⟨failed, i, bad⟩ | ⟨portion, ret, taken, last⟩
      · rw [failed] at served bytes answers ⊢
        refine ⟨⟨portions, bytes, served⟩, .cons (fun good => ?_) answers⟩
        rw [good i] at bad
        cases bad
      · refine ⟨⟨portion :: portions, ?_, .cons taken last served⟩, .cons (fun _ => ⟨_, ret⟩) answers⟩
        rw [ret, List.map_cons, ← bytes]
        rfl

theorem flatMap_recordBytes_nil {portion : List Placed} (empty : portion.flatMap recordBytes = []) : portion = [] := by
  cases portion with
  | nil => rfl
  | cons e rest =>
      have bounds := recordLen_bounds e.item.name
      have none_ := congrArg List.length (List.append_eq_nil_iff.1 empty).1
      rw [length_recordBytes, List.length_nil] at none_
      omega

/-- The records of the buffers that serve these entries. -/
theorem records_of_served {l : List Placed} {portions : List (List Placed)} (served : Served l portions)
    (short : ∀ e ∈ l, Short e.item.name) {buffers : List (List UInt8)}
    (bytes : buffers = portions.map (List.flatMap recordBytes)) :
    ∃ records : List (List Dirent), buffers.map splitDirents = records.map some ∧
      records.flatten.map Dirent.item <+: l.map Placed.item ∧
      ([] ∈ buffers → records.flatten.map Dirent.item = l.map Placed.item) := by
  have named (part : List Placed) : (part.map record).map Dirent.item = part.map Placed.item := by
    rw [List.map_map]
    rfl
  refine ⟨portions.map (List.map record), ?_, ?_, ?_⟩
  · have members : ∀ portion ∈ portions, ∀ e ∈ portion, e ∈ l := fun portion inside e member =>
      served.isPrefix.subset (List.mem_flatten.2 ⟨portion, inside, member⟩)
    rw [bytes, List.map_map, List.map_map]
    refine List.map_congr_left fun portion inside => ?_
    exact splitDirents_records fun e member => short e (members portion inside e member)
  · rw [← List.map_flatten, named]
    exact served.isPrefix.map _
  · intro ended
    rw [bytes, List.mem_map] at ended
    obtain ⟨portion, inside, empty⟩ := ended
    have none_ := flatMap_recordBytes_nil empty
    subst none_
    rw [← List.map_flatten, named, served.complete inside]

/-- **A listing is complete and without duplicates.**  A descriptor on a well-formed
directory of ext4, or on the root of devfs, at position 0; any sequence of calls, each with
a buffer that holds the longest record.  Each returned buffer splits exactly into records,
and the records of all of them are the live entries in directory order, as far as the calls
have come; all of them once a call returns 0.  A call fails only on a block that cannot be
read, and the listing goes on from where it was. -/
theorem getdents_complete {listing : List Item} (slot : ∃ files, s.curFiles = some files ∧
      fget files fd.toInt32.toInt = some p) (lists : Lists (s.file p).fOp listing) (start : (s.file p).fPos = 0)
    {calls : List Call} (fits : ∀ c ∈ calls, c.Fits listing) :
    (∃ records : List (List Dirent),
      (delivered (getdentsCalls s fd calls)).map splitDirents = records.map some ∧
      records.flatten.map Dirent.item <+: listing ∧
      ([] ∈ delivered (getdentsCalls s fd calls) → records.flatten.map Dirent.item = listing)) ∧
    List.Forall₂ (fun c ret => (∀ i, c.io i = true) → ∃ bytes, ret = .ok bytes) calls
      (getdentsCalls s fd calls) := by
  obtain ⟨entries, resumes, rfl⟩ := lists.resumes
  have opened : Open s fd p entries := ⟨slot, resumes, .inl start⟩
  obtain ⟨⟨portions, bytes, served⟩, answers⟩ := getdentsCalls_served opened fits
  have all : behind (s.file p).fPos entries = entries := by
    rw [start]
    exact List.filter_eq_self.2 fun e member => by simpa using resumes.start e member
  rw [all] at served
  exact ⟨records_of_served served resumes.ordered.short bytes, answers⟩

end Calls

/-! ### The system call -/

def sysDentsBounce : UInt32 := 1024

/-- The call that `sys_getdents64` makes, with a buffer on the stack. -/
def sysGetdents64Call (io : Nat → Bool) (kbuf : Bytes) (count : UInt32) : Call :=
  ⟨io, kbuf, if count > sysDentsBounce then sysDentsBounce else count⟩

/-- Its buffer never counts as too large, and holds the longest record if the caller's does. -/
theorem sysGetdents64Call_fits {fOp : FileOperations} {listing : List Item} (lists : Lists fOp listing)
    (io : Nat → Bool) (kbuf : Bytes) {count : UInt32} (large : ∀ item ∈ listing, recordLen item.name ≤ count.toNat) :
    (sysGetdents64Call io kbuf count).Fits listing := by
  obtain ⟨entries, resumes, rfl⟩ := lists.resumes
  have bounce : sysDentsBounce.toNat = 1024 := rfl
  have clamped : (sysGetdents64Call io kbuf count).count.toNat = min count.toNat 1024 := by
    unfold sysGetdents64Call
    dsimp only
    split
    · rename_i more
      rw [gt_iff_lt, UInt32.lt_iff_toNat_lt] at more
      omega
    · rename_i less
      rw [gt_iff_lt, UInt32.lt_iff_toNat_lt] at less
      omega
  refine ⟨fun item member => ?_, by omega⟩
  obtain ⟨e, inside, rfl⟩ := List.mem_map.1 member
  have short := (resumes.ordered.short e inside).length
  have record : recordLen e.item.name ≤ 280 := by
    unfold recordLen sizeofDirent
    omega
  have := large e.item member
  omega

/-! ### Two blocks -/

/-- A directory of two blocks with an unused record in the first. -/
def twoBlocks : Ext4Dir.Directory :=
  [[⟨11, 12, ['.'], 2⟩, ⟨2, 12, ['.', '.'], 2⟩, ⟨0, 12, ['o', 'l', 'd'], 1⟩, ⟨12, 28, ['a'], 1⟩],
   [⟨13, 64, ['n', 'e', 'w'], 7⟩]]

def entryBytes (de : Ext4Dir.DirEntry) : List UInt8 :=
  leBytes 4 de.inode ++ leBytes 2 de.recLen.toNat ++ [UInt8.ofNat de.name.length, de.fileType] ++
    de.name.map charByte ++ List.replicate (de.recLen.toNat - sizeofEntry - de.name.length) 0

def twoBlocksFile : DirFile where
  iSize := 128
  blockSize := 64
  block i x := ((twoBlocks.getD i []).flatMap entryBytes).getD x 0

theorem twoBlocksFile_holds : twoBlocksFile.Holds twoBlocks := by
  have encodes {b : Bytes} {off : Nat} {de : DirEntry} (all : (load32 b off).toNat = de.inode ∧
      load16 b (off + 4) = de.recLen ∧ (b (off + 6)).toNat = de.name.length ∧ b (off + 7) = de.fileType ∧
      upTo (fun i => b (off + sizeofEntry + i)) de.name.length = de.name.map charByte) : Encodes b off de :=
    ⟨all.1, all.2.1, all.2.2.1, all.2.2.2.1, all.2.2.2.2⟩
  refine ⟨by decide, by decide, by decide, fun i inside => ?_, by decide⟩
  obtain rfl | rfl : i = 0 ∨ i = 1 := by
    have two : twoBlocks.length = 2 := rfl
    omega
  · exact ⟨encodes (by decide +kernel), by decide, encodes (by decide +kernel), by decide,
      encodes (by decide +kernel), by decide, encodes (by decide +kernel), by decide, rfl⟩
  · exact ⟨encodes (by decide +kernel), by decide, rfl⟩

/-- It is read with room for one or two records, over a block that fails once. -/
theorem getdents_complete_twoBlocks :
    let s : State := ⟨some ⟨fun _ => some 0, none⟩, fun _ => ⟨.ext4 twoBlocksFile, 0⟩⟩
    let calls : List Call := [sysGetdents64Call (fun _ => true) (fun _ => 0) 24,
      sysGetdents64Call (fun i => i = 0) (fun _ => 0) 56, sysGetdents64Call (fun i => i = 0) (fun _ => 0) 24,
      sysGetdents64Call (fun _ => true) (fun _ => 0) 2048, sysGetdents64Call (fun _ => true) (fun _ => 0) 24]
    (getdentsCalls s 3 calls).map (Except.map List.length) = [.ok 24, .error .eio, .ok 24, .ok 48, .ok 0] ∧
      ∃ records : List (List Dirent),
        (delivered (getdentsCalls s 3 calls)).map splitDirents = records.map some ∧
        records.flatten.map Dirent.item = items twoBlocks := by
  intro s calls
  have lists : Lists (s.file 0).fOp (items twoBlocks) := .ext4 twoBlocksFile_holds
  have longest : ∀ item ∈ items twoBlocks, recordLen item.name ≤ 24 := by decide
  have fits : ∀ c ∈ calls, c.Fits (items twoBlocks) := by
    simp only [calls, List.forall_mem_cons]
    have fit (io : Nat → Bool) {count : UInt32} (room : 24 ≤ count.toNat) :=
      sysGetdents64Call_fits lists io (fun _ => 0) fun item member => (longest item member).trans room
    exact ⟨fit _ (by decide), fit _ (by decide), fit _ (by decide), fit _ (by decide), fit _ (by decide), nofun⟩
  have returned : (getdentsCalls s 3 calls).map (Except.map List.length) =
      [.ok 24, .error .eio, .ok 24, .ok 48, .ok 0] := by decide +kernel
  have ended : [] ∈ delivered (getdentsCalls s 3 calls) := by decide +kernel
  have slot : ∃ files, s.curFiles = some files ∧ fget files (3 : UInt32).toInt32.toInt = some 0 := ⟨_, rfl, rfl⟩
  obtain ⟨⟨records, split, -, complete⟩, -⟩ := getdents_complete slot lists rfl fits
  exact ⟨returned, records, split, complete ended⟩

end Minus.Fs.Getdents
