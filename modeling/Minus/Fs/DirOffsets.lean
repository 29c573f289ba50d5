/-
# Fs.DirOffsets — seeking a directory to a `d_off`

`fd_lseek` (`kernel/fs/service/fdtable.c`) and `vfs_llseek` (`vfs.c`); neither directory has an
`llseek` of its own.

The `off` that an `iterate` passes to `filldir` becomes `d_off`, and the next call goes on at the
first entry whose position is not below it.  `devfs_iterate` passes the position behind the entry.
`ext4_iterate` passes the position of the entry itself, which a seek to its `d_off` lists again
(`dOff_resumes_iff`).
-/
import Minus.Fs.GetdentsRun

namespace Minus.Fs.Getdents

set_option autoImplicit false

open Minus.Theory
open Minus.Fs.Dcache (Errno)
open Minus.Fs.Fdtable (FilesStruct fget)

/-! ## vfs.c and fdtable.c -/

/-- `i_size` of the directory; that of the root of devfs is 0. -/
def FileOperations.iSize : FileOperations → UInt64
  | .ext4 dir => dir.iSize
  | .devfs | .none => 0

/-- `vfs_llseek`; `SEEK_SET` is 0.  A sum of two `loff_t` does not overflow. -/
def vfsLlseek (file : File) (offset : Int) (whence : Int) : File × Except Errno Int :=
  let newpos : Option Int :=
    if whence = 0 then some offset
    else if whence = 1 then some (file.fPos + offset)
    else if whence = 2 then some (file.fOp.iSize + UInt64.ofInt offset).toInt64.toInt
    else none
  match newpos with
  | none => (file, .error .einval)
  | some newpos =>
      let newpos := if newpos < 0 then 0 else newpos
      ({ file with fPos := newpos }, .ok newpos)

def fdLseek (s : State) (fd : UInt32) (offset : Int) (whence : Int) : State × Except Errno Int :=
  match s.curFiles with
  | none => (s, .error .ebadf)
  | some files =>
      match fget files fd.toInt32.toInt with
      | none => (s, .error .ebadf)
      | some p =>
          let (file, ret) := vfsLlseek (s.file p) offset whence
          ({ s with file := Function.update s.file p file }, ret)

/-- `d_off` is an `int64_t`. -/
def Dirent.offset (de : Dirent) : Int := de.dOff.toInt64.toInt

/-! ## Places -/

/-- The live entries of a well-formed directory with their positions and `d_off`. -/
inductive Places : FileOperations → List Placed → Prop where
  | ext4 {dir : DirFile} {blocks : Ext4Dir.Directory} (holds : dir.Holds blocks) :
      Places (.ext4 dir) (placedFrom 0 blocks.flatten)
  | devfs : Places .devfs (devfsPlaced 0 devfsEntries)

theorem Places.resumes {fOp : FileOperations} {entries : List Placed} (places : Places fOp entries) :
    Resumes fOp entries := by
  cases places with
  | ext4 holds => exact ext4_resumes holds
  | devfs => exact devfs_resumes

/-- The record of the entry with this index. -/
def Recorded (entries : List Placed) (k : Nat) (r : Dirent) : Prop := ∃ e, entries[k]? = some e ∧ r = record e

/-- The calls from this state on list these items and no others, each once; a call fails on a
block that cannot be read only. -/
def ListsFrom (s : State) (fd : UInt32) (longest rest : List Item) : Prop :=
  ∀ calls : List Call, (∀ c ∈ calls, c.Fits longest) →
    (∃ records : List (List Dirent), (delivered (getdentsCalls s fd calls)).map splitDirents = records.map some ∧
      records.flatten.map Dirent.item <+: rest ∧
      ([] ∈ delivered (getdentsCalls s fd calls) → records.flatten.map Dirent.item = rest)) ∧
    List.Forall₂ (fun c ret => (∀ i, c.io i = true) → ∃ bytes, ret = .ok bytes) calls (getdentsCalls s fd calls)

section Entries

variable {entries : List Placed} {k : Nat} {e : Placed}

/-- Behind the end of an entry are the entries after it. -/
theorem Ordered.behind_next (ordered : Ordered entries) (here : entries[k]? = some e) :
    behind e.next entries = entries.drop (k + 1) := by
  induction entries generalizing k with
  | nil => cases here
  | cons f rest ih =>
      cases k with
      | zero =>
          obtain rfl : f = e := by simpa using here
          have ahead := (List.pairwise_cons.1 ordered.ahead).1
          rw [behind_cons_of_lt (ordered.positive f List.mem_cons_self)]
          exact List.filter_eq_self.2 fun g member => by simpa using ahead g member
      | succ k =>
          have there : rest[k]? = some e := by simpa using here
          have before := (List.pairwise_cons.1 ordered.ahead).1 e (List.mem_of_getElem? there)
          have mine := ordered.positive f List.mem_cons_self
          have its := ordered.positive e (List.mem_cons_of_mem _ (List.mem_of_getElem? there))
          rw [behind_cons_of_lt (by omega), ih ordered.tail there]
          rfl

/-- From the position of an entry on, or from an earlier one, the entry is listed too. -/
theorem Ordered.length_behind (ordered : Ordered entries) (here : entries[k]? = some e) {pos : Int}
    (before : pos ≤ e.pos) : (entries.drop (k + 1)).length < (behind pos entries).length := by
  have positive := ordered.positive e (List.mem_of_getElem? here)
  have later : (behind e.next entries).Sublist (behind pos entries) := by
    refine List.monotone_filter_right entries fun f after => ?_
    simp only [decide_eq_true_eq] at after ⊢
    omega
  rw [← ordered.behind_next here]
  refine Nat.lt_of_le_of_ne later.length_le fun same => ?_
  have whole := later.eq_of_length same
  have member : e ∈ behind pos entries := List.mem_filter.2 ⟨List.mem_of_getElem? here, by simpa using before⟩
  rw [← whole] at member
  have := of_decide_eq_true (List.mem_filter.1 member).2
  omega

end Entries

/-! ## A seek -/

/-- A `d_off` is the offset modulo 2^64, with its sign. -/
theorem record_offset (e : Placed) : (record e).offset = e.off.bmod (2 ^ 64) := by
  have toNat : (UInt64.ofInt e.off).toNat = (e.off % 2 ^ 64).toNat := by
    unfold UInt64.ofInt
    simp
    omega
  show (UInt64.ofInt e.off).toBitVec.toInt = _
  rw [BitVec.toInt_eq_toNat_bmod, UInt64.toNat_toBitVec, toNat, Int.toNat_of_nonneg (by omega)]
  exact Int.emod_bmod e.off (2 ^ 64)

section Seek

variable {s : State} {fd : UInt32} {p : Nat} {files : FilesStruct} {entries : List Placed}

/-- `lseek(fd, offset, SEEK_SET)`. -/
theorem fdLseek_set (current : s.curFiles = some files) (slot : fget files fd.toInt32.toInt = some p) (offset : Int) :
    (fdLseek s fd offset 0).1 =
      { s with file := Function.update s.file p { s.file p with fPos := if offset < 0 then 0 else offset } } := by
  unfold fdLseek
  rw [current]
  dsimp only
  rw [slot]
  rfl

/-! ## devfs -/

theorem filldir_ctxPos (g : GetdentsCtx) (pos : Int) (name : List UInt8) (off : Int) (ino : UInt64) (dType : UInt8) :
    filldir { g with ctxPos := pos } name off ino dType =
      (filldir g name off ino dType).map fun g => { g with ctxPos := pos } := by
  unfold filldir
  dsimp only
  split
  · rfl
  · rfl

/-- The position in the context does not matter for what the loop puts in the buffer. -/
theorem devfsLoop_ctxPos (table : List (List UInt8 × UInt64 × UInt8)) (i : Nat) (g : GetdentsCtx) (pos : Int) :
    (devfsLoop table i { g with ctxPos := pos }).buf = (devfsLoop table i g).buf ∧
      (devfsLoop table i { g with ctxPos := pos }).pos = (devfsLoop table i g).pos := by
  cases table with
  | nil => exact ⟨rfl, rfl⟩
  | cons entry rest =>
      obtain ⟨name, ino, dType⟩ := entry
      rw [devfsLoop, devfsLoop, filldir_ctxPos]
      cases filldir g name (i + 1) ino dType with
      | none => exact ⟨rfl, rfl⟩
      | some g' => exact ⟨rfl, rfl⟩

/-- **A call on devfs returns records of its entries**, whatever the position. -/
theorem devfs_portion {c : Call} (current : s.curFiles = some files) (slot : fget files fd.toInt32.toInt = some p)
    (devfs : (s.file p).fOp = .devfs) (small : c.count.toNat + 280 < 2 ^ 32) {bytes : List UInt8}
    (ret : (fdGetdents64 s fd c).2 = .ok bytes) :
    ∃ portion : List Placed, bytes = portion.flatMap recordBytes ∧ ∀ e ∈ portion, e ∈ devfsPlaced 0 devfsEntries := by
  have is : iterate c.io (s.file p).fOp = some devfsIterate := by
    rw [devfs]
    rfl
  rw [fdGetdents64_walk current slot is] at ret
  let g : GetdentsCtx := ⟨(s.file p).fPos, c.buf, c.count, 0⟩
  unfold devfsIterate at ret
  dsimp only at ret
  by_cases negative : (s.file p).fPos < 0
  · rw [if_pos negative] at ret
    cases ret
  · rw [if_neg negative] at ret
    set i := (s.file p).fPos.toNat % 2 ^ 32
    obtain ⟨buf, pos⟩ := devfsLoop_ctxPos (devfsEntries.drop i) i g i
    -- from the index on, as if it had been the position
    have as_ : devfsLoop (devfsEntries.drop i) i { g with ctxPos := i } =
        (fillAll { g with ctxPos := i } (devfsPlaced 0 devfsEntries)).1 := by
      rw [devfsLoop_eq i (g := { g with ctxPos := i }) le_rfl, fillAll_devfs 0 i (by simp), Nat.zero_add]
    have roomy : Roomy { g with ctxPos := i } := ⟨by simp [g], small⟩
    obtain ⟨filled, -⟩ := fillAll_spec (devfsPlaced_ordered 0 devfsEntries_short) roomy
    rw [← as_, buf, pos] at filled
    refine ⟨_, (Except.ok.inj ret).symm.trans filled, fun e member => ?_⟩
    exact (List.mem_filter.1 (mem_of_mem_fit member)).1

/-- The end of an entry of devfs is its offset. -/
theorem devfs_off {e : Placed} (member : e ∈ devfsPlaced 0 devfsEntries) : (record e).offset = e.next ∧ 0 ≤ e.next := by
  obtain ⟨first, next, last, -⟩ := mem_devfsPlaced member
  have length : devfsEntries.length = 4 := rfl
  have off : e.off = e.next := by
    have all : ∀ e ∈ devfsPlaced 0 devfsEntries, e.off = e.next := by decide
    exact all e member
  rw [record_offset, off, Int.bmod_eq_of_le (by omega) (by omega)]
  exact ⟨rfl, by omega⟩

/-- **After a seek to a `d_off` of devfs the entries behind the record are listed.** -/
theorem devfs_lists (current : s.curFiles = some files) (slot : fget files fd.toInt32.toInt = some p)
    (devfs : (s.file p).fOp = .devfs) {k : Nat} {e : Placed} (here : (devfsPlaced 0 devfsEntries)[k]? = some e) :
    ListsFrom (fdLseek s fd (record e).offset 0).1 fd ((devfsPlaced 0 devfsEntries).map Placed.item)
      (((devfsPlaced 0 devfsEntries).map Placed.item).drop (k + 1)) := by
  intro calls fits
  have member := List.mem_of_getElem? here
  obtain ⟨offset, positive⟩ := devfs_off member
  rw [fdLseek_set current slot, offset, if_neg (by omega)]
  have opened : Open { s with file := Function.update s.file p { s.file p with fPos := e.next } } fd p
      (devfsPlaced 0 devfsEntries) := by
    refine ⟨⟨files, current, slot⟩, ?_, .inr ⟨e, member, by simp⟩⟩
    simp [devfs, devfs_resumes]
  obtain ⟨⟨portions, bytes, served⟩, answers⟩ := getdentsCalls_served opened fits
  have rest : behind e.next (devfsPlaced 0 devfsEntries) = (devfsPlaced 0 devfsEntries).drop (k + 1) :=
    devfs_resumes.ordered.behind_next here
  simp only [Function.update_self] at served
  rw [rest] at served
  rw [← List.map_drop]
  exact ⟨records_of_served served (fun f inside => devfs_resumes.ordered.short f (List.mem_of_mem_drop inside)) bytes,
    answers⟩

/-! ## ext4 -/

/-- A good call with a buffer for any record. -/
def roomyCall : Call := ⟨fun _ => true, fun _ => 0, 1024⟩

theorem roomyCall_fits (ordered : Ordered entries) : roomyCall.Fits (entries.map Placed.item) := by
  refine ⟨fun item member => ?_, by decide⟩
  obtain ⟨e, inside, rfl⟩ := List.mem_map.1 member
  have short := (ordered.short e inside).length
  have count : roomyCall.count.toNat = 1024 := rfl
  have := recordLen_bounds e.item.name
  unfold sizeofDirent at this
  omega

/-- Calls that all succeed deliver a buffer each. -/
theorem length_delivered {calls : List Call} {results : List (Except Errno (List UInt8))}
    (answers : List.Forall₂ (fun c ret => (∀ i, c.io i = true) → ∃ bytes, ret = .ok bytes) calls results)
    (good : ∀ c ∈ calls, ∀ i, c.io i = true) : (delivered results).length = calls.length := by
  induction answers with
  | nil => rfl
  | cons here _ ih =>
      obtain ⟨good, later⟩ := List.forall_mem_cons.1 good
      obtain ⟨bytes, rfl⟩ := here good
      exact congrArg Nat.succ (ih later)

/-- **A good call on ext4** returns the next portion, whatever the position; and where it returned
a record, the position is then the end of an entry. -/
theorem ext4_call {dir : DirFile} {blocks : Ext4Dir.Directory} (holds : dir.Holds blocks)
    (current : s.curFiles = some files) (slot : fget files fd.toInt32.toInt = some p)
    (ext4 : (s.file p).fOp = .ext4 dir) (some_ : behind (s.file p).fPos (placedFrom 0 blocks.flatten) ≠ []) :
    ∃ portion, (fdGetdents64 s fd roomyCall).2 = .ok (portion.flatMap recordBytes) ∧
      portion ++ behind ((fdGetdents64 s fd roomyCall).1.file p).fPos (placedFrom 0 blocks.flatten) =
        behind (s.file p).fPos (placedFrom 0 blocks.flatten) ∧ portion ≠ [] ∧
      Open (fdGetdents64 s fd roomyCall).1 fd p (placedFrom 0 blocks.flatten) := by
  have resumes := ext4_resumes holds
  have is : iterate roomyCall.io (s.file p).fOp = some (ext4Iterate roomyCall.io dir) := by
    rw [ext4]
    rfl
  rcases ext4Iterate_eq holds roomyCall.io ⟨(s.file p).fPos, roomyCall.buf, roomyCall.count, 0⟩ with
    done | ⟨-, i, bad⟩
  · have fits := roomyCall_fits resumes.ordered
    obtain ⟨portion, ret, taken, last, stop⟩ := fdGetdents64_fill current slot resumes.ordered is done fits.small
    have nonempty : portion ≠ [] := fun empty => some_ (last fits empty)
    obtain ⟨same, op⟩ := fdGetdents64_frame s fd roomyCall
    refine ⟨portion, ret, taken, nonempty, ⟨files, same.trans current, slot⟩, ?_, .inr ?_⟩
    · rw [op, ext4]
      exact resumes
    · refine stop.resolve_left fun stuck => nonempty ?_
      rw [stuck] at taken
      exact List.append_left_eq_self.1 taken
  · cases bad

/-- Where more entries lie behind the position than these, the calls list something else. -/
theorem not_listsFrom {dir : DirFile} {blocks : Ext4Dir.Directory} (holds : dir.Holds blocks)
    (current : s.curFiles = some files) (slot : fget files fd.toInt32.toInt = some p)
    (ext4 : (s.file p).fOp = .ext4 dir) {rest : List Item}
    (more : rest.length < (behind (s.file p).fPos (placedFrom 0 blocks.flatten)).length) :
    ¬ ListsFrom s fd ((placedFrom 0 blocks.flatten).map Placed.item) rest := by
  set entries := placedFrom 0 blocks.flatten
  have ordered : Ordered entries := (ext4_resumes holds).ordered
  have some_ : behind (s.file p).fPos entries ≠ [] := by
    intro none_
    rw [none_] at more
    exact Nat.not_lt_zero _ more
  intro lists
  -- enough calls for an entry each, and one more
  set later := List.replicate (behind (s.file p).fPos entries).length roomyCall
  obtain ⟨portion, ret, taken, nonempty, opened⟩ := ext4_call holds current slot ext4 some_
  have fits : ∀ c ∈ later, c.Fits (entries.map Placed.item) := by
    intro c member
    rw [List.eq_of_mem_replicate member]
    exact roomyCall_fits ordered
  obtain ⟨⟨portions, bytes, served⟩, answers⟩ := getdentsCalls_served opened fits
  obtain ⟨⟨records, split, -, complete⟩, -⟩ :=
    lists (roomyCall :: later) (List.forall_mem_cons.2 ⟨roomyCall_fits ordered, fits⟩)
  have whole : Served (behind (s.file p).fPos entries) (portion :: portions) :=
    .cons taken (fun empty => absurd empty nonempty) served
  have buffers : delivered (getdentsCalls s fd (roomyCall :: later)) =
      (portion :: portions).map (List.flatMap recordBytes) := by
    rw [List.map_cons, ← bytes, getdentsCalls]
    dsimp only
    rw [ret]
    rfl
  have ended : [] ∈ delivered (getdentsCalls s fd (roomyCall :: later)) := by
    have count : portions.length = later.length := by
      rw [← length_delivered answers fun c member i => by rw [List.eq_of_mem_replicate member]; rfl, bytes,
        List.length_map]
    have empty := whole.ended (by rw [List.length_cons, count, List.length_replicate]; exact Nat.lt_succ_self _)
    rw [buffers]
    exact List.mem_map.2 ⟨[], empty, rfl⟩
  obtain ⟨records', split', -, complete'⟩ := records_of_served whole
    (fun e member => ordered.short e (List.mem_filter.1 member).1) buffers
  have same : records = records' := List.map_injective_iff.2 (Option.some_injective _) (split.symm.trans split')
  have all := (complete ended).symm.trans (same ▸ complete' ended)
  rw [all, List.length_map] at more
  exact Nat.lt_irrefl _ more

theorem placedFrom_off {pos : Int} {records : List Ext4Dir.DirEntry} {e : Placed} (member : e ∈ placedFrom pos records) :
    e.off = e.pos := by
  induction records generalizing pos with
  | nil => cases member
  | cons de rest ih =>
      rw [placedFrom, List.mem_append] at member
      rcases member with first | later
      · split at first
        · rw [List.mem_singleton] at first
          subst first
          rfl
        · cases first
      · exact ih later

/-- A seek to the offset of a record of ext4 does not go behind its position. -/
theorem ext4_off {dir : DirFile} {blocks : Ext4Dir.Directory} (holds : dir.Holds blocks) {e : Placed}
    (member : e ∈ placedFrom 0 blocks.flatten) :
    (if (record e).offset < 0 then 0 else (record e).offset) ≤ e.pos := by
  have start := (ext4_resumes holds).start e member
  have wraps : e.pos.bmod (2 ^ 64) ≤ e.pos := by
    unfold Int.bmod
    dsimp only
    split
    · omega
    · omega
  rw [record_offset, placedFrom_off member]
  split
  · exact start
  · exact wraps

/-! ## The claim of the offsets -/

/-- Every record that a call returns is that of an entry, and a seek to its `d_off` has the
following calls list exactly the entries behind it.  The buffer of the call is shorter than 2^32
by more than a record. -/
def Resumable (s : State) (fd : UInt32) (entries : List Placed) : Prop :=
  ∀ c : Call, c.count.toNat + 280 < 2 ^ 32 → ∀ bytes, (fdGetdents64 s fd c).2 = .ok bytes →
    ∃ records, splitDirents bytes = some records ∧ ∀ r ∈ records, (∃ k, Recorded entries k r) ∧
      ∀ k, Recorded entries k r →
        ListsFrom (fdLseek (fdGetdents64 s fd c).1 fd r.offset 0).1 fd (entries.map Placed.item)
          ((entries.map Placed.item).drop (k + 1))

/-- **A `d_off` resumes the listing on devfs and not on ext4.**  A descriptor on a well-formed
directory, at any position: the calls can be resumed behind each record that they return exactly
if the directory is that of devfs, or there is no live entry from the position on and so no record. -/
theorem dOff_resumes_iff (opened : ∃ files, s.curFiles = some files ∧ fget files fd.toInt32.toInt = some p)
    (places : Places (s.file p).fOp entries) :
    Resumable s fd entries ↔ (s.file p).fOp = .devfs ∨ behind (s.file p).fPos entries = [] := by
  obtain ⟨files, current, slot⟩ := opened
  obtain ⟨fOp, here⟩ : ∃ fOp, (s.file p).fOp = fOp := ⟨_, rfl⟩
  have ordered := places.resumes.ordered
  rw [here] at places ⊢
  cases places with
  | devfs =>
      refine ⟨fun _ => .inl rfl, fun _ c small bytes ret => ?_⟩
      obtain ⟨portion, rfl, members⟩ := devfs_portion current slot here small ret
      refine ⟨_, splitDirents_records fun e member => ordered.short e (members e member), fun r member => ?_⟩
      obtain ⟨e, inside, rfl⟩ := List.mem_map.1 member
      obtain ⟨k, found⟩ := List.getElem?_of_mem (members e inside)
      obtain ⟨same, op⟩ := fdGetdents64_frame s fd c
      refine ⟨⟨k, e, found, rfl⟩, ?_⟩
      rintro j ⟨f, there, alike⟩
      rw [alike]
      exact devfs_lists (same.trans current) slot ((op p).trans here) there
  | @ext4 dir blocks holds =>
      constructor
      · intro resumable
        right
        by_contra some_
        obtain ⟨portion, ret, taken, nonempty, -⟩ := ext4_call holds current slot here some_
        obtain ⟨records, split, all⟩ := resumable roomyCall (by decide) _ ret
        have members : ∀ e ∈ portion, e ∈ placedFrom 0 blocks.flatten := fun e member =>
          (List.mem_filter.1 (taken ▸ List.mem_append_left _ member)).1
        rw [splitDirents_records fun e member => ordered.short e (members e member)] at split
        obtain rfl := Option.some.inj split
        -- the first record of all
        obtain ⟨e, later, rfl⟩ := List.exists_cons_of_ne_nil nonempty
        obtain ⟨⟨k, f, there, alike⟩, lists⟩ := all (record e) List.mem_cons_self
        have inside := List.mem_of_getElem? there
        obtain ⟨same, op⟩ := fdGetdents64_frame s fd roomyCall
        have again := lists k ⟨f, there, alike⟩
        rw [alike, fdLseek_set (same.trans current) slot] at again
        refine absurd again (not_listsFrom holds ?_ slot ?_ ?_)
        · exact same.trans current
        · dsimp only
          rw [Function.update_self]
          exact (op p).trans here
        · dsimp only
          rw [Function.update_self, ← List.map_drop, List.length_map]
          exact ordered.length_behind there (ext4_off holds inside)
      · rintro (other | none_) c small bytes ret
        · cases other
        · have is : iterate c.io (s.file p).fOp = some (ext4Iterate c.io dir) := by
            rw [here]
            rfl
          rcases ext4Iterate_eq holds c.io ⟨(s.file p).fPos, c.buf, c.count, 0⟩ with done | ⟨failed, -⟩
          · obtain ⟨portion, ret', taken, -⟩ := fdGetdents64_fill current slot ordered is done small
            rw [none_] at taken
            rw [ret', (List.append_eq_nil_iff.1 taken).1] at ret
            obtain rfl := Except.ok.inj ret
            exact ⟨[], by simp [splitDirents], nofun⟩
          · rw [fdGetdents64_walk current slot is, failed] at ret
            cases ret

end Seek

/-- The root of devfs, from the second entry on. -/
theorem dOff_resumes_devfs :
    let s : State := ⟨some ⟨fun _ => some 0, none⟩, fun _ => ⟨.devfs, 1⟩⟩
    Resumable s 3 (devfsPlaced 0 devfsEntries) := by
  intro s
  have opened : ∃ files, s.curFiles = some files ∧ fget files (3 : UInt32).toInt32.toInt = some 0 := ⟨_, rfl, rfl⟩
  exact (dOff_resumes_iff opened .devfs).2 (.inl rfl)

/-- **The first record of an ext4 directory is listed again** after a seek to its `d_off`. -/
theorem ext4_lists_again :
    let s : State := ⟨some ⟨fun _ => some 0, none⟩, fun _ => ⟨.ext4 twoBlocksFile, 0⟩⟩
    let call : Call := ⟨fun _ => true, fun _ => 0, 24⟩
    let dot : Placed := ⟨0, 12, 0, ⟨['.'].map charByte, 11, 4⟩⟩
    (fdGetdents64 s 3 call).2 = .ok (recordBytes dot) ∧
      (fdGetdents64 (fdLseek (fdGetdents64 s 3 call).1 3 (record dot).offset 0).1 3 call).2 = .ok (recordBytes dot) ∧
      ¬ Resumable s 3 (placedFrom 0 twoBlocks.flatten) := by
  intro s call dot
  have first : (fdGetdents64 s 3 call).2 = .ok (recordBytes dot) := by decide +kernel
  have again : (fdGetdents64 (fdLseek (fdGetdents64 s 3 call).1 3 (record dot).offset 0).1 3 call).2 =
      .ok (recordBytes dot) := by decide +kernel
  refine ⟨first, again, fun resumable => ?_⟩
  have fits : call.Fits ((placedFrom 0 twoBlocks.flatten).map Placed.item) := ⟨by decide, by decide⟩
  have short : Short dot.item.name := ⟨by decide, by decide⟩
  have split : splitDirents (recordBytes dot) = some [record dot] := by
    have one : ∀ e ∈ [dot], Short e.item.name := by simpa using short
    simpa using splitDirents_records one
  obtain ⟨records, split', all⟩ := resumable call fits.small _ first
  obtain rfl := Option.some.inj (split.symm.trans split')
  have recorded : Recorded (placedFrom 0 twoBlocks.flatten) 0 (record dot) := ⟨dot, rfl, rfl⟩
  obtain ⟨⟨records, records_eq, start, -⟩, -⟩ :=
    (all (record dot) List.mem_cons_self).2 0 recorded [call] (by simpa using fits)
  have bytes : delivered (getdentsCalls (fdLseek (fdGetdents64 s 3 call).1 3 (record dot).offset 0).1 3 [call]) =
      [recordBytes dot] := by
    rw [getdentsCalls]
    dsimp only
    rw [again]
    rfl
  rw [bytes, List.map_singleton, split] at records_eq
  obtain rfl : [[record dot]] = records := List.map_injective_iff.2 (Option.some_injective _) records_eq
  exact absurd start (by decide)

end Minus.Fs.Getdents
