/-
# Fs.Ext4Dir — the blocks of an ext4 directory

`kernel/fs/backend/ext4fs/dir.c`.  A directory is the list of its blocks up to
`i_size`, and a block the list of the records that tile it; a record with the inode 0
is unused.  Whether a block can be found and read is the answer `io` of the calls
below, by its index.

`entries` is what a directory means: the live names with their inodes.  An insertion
adds a pair (`addEntry_entries`), a deletion takes the first pair with the name
(`deleteEntry_entries`), and neither looks whether the name is there already.
-/
import Mathlib.Data.List.Perm.Basic
import Minus.Fs.Dcache

namespace Minus.Fs.Ext4Dir

set_option autoImplicit false

open Minus.Fs.Dcache (Name Errno)

/-- `struct ext4_dir_entry_2`; `name_len` is the length of the name. -/
structure DirEntry where
  inode : Nat
  recLen : UInt16
  name : Name
  fileType : UInt8
  deriving DecidableEq

abbrev Block := List DirEntry
abbrev Directory := List Block

def ftRegFile : UInt8 := 1
def ftDir : UInt8 := 2

/-- `sizeof(struct ext4_dir_entry_2) + ((len + 3) & ~3)`. -/
def entrySize (len : Nat) : UInt16 := UInt16.ofNat (8 + (len + 3) / 4 * 4)

def DirEntry.Named (name : Name) (de : DirEntry) : Prop := de.inode ≠ 0 ∧ de.name = name

instance (name : Name) : DecidablePred (DirEntry.Named name) := fun _ => inferInstanceAs (Decidable (_ ∧ _))

/-! ## dir.c -/

/-- The loop of `ext4_lookup` from a block on. -/
def lookupFrom (io : Nat → Bool) (name : Name) : Nat → Directory → Except Errno (Option Nat)
  | _, [] => .ok none
  | bidx, b :: rest =>
      if !io bidx then .error .eio
      else match b.find? (DirEntry.Named name) with
        | some de => .ok (some de.inode)
        | none => lookupFrom io name (bidx + 1) rest

/-- The search of `ext4_lookup`: the inode of the name. -/
def lookup (io : Nat → Bool) (dir : Directory) (name : Name) : Except Errno (Option Nat) :=
  lookupFrom io name 0 dir

/-- `ext4_dir_is_empty`, which looks at the first block. -/
def dirIsEmpty (io : Nat → Bool) (dir : Directory) : Except Errno Bool :=
  match dir with
  | [] => .error .eio
  | b :: _ => if !io 0 then .error .eio else .ok (b.countP (·.inode ≠ 0) ≤ 2)

/-- The scan of a block in `ext4_add_entry`: the first record is taken if it is unused and
long enough, a live one is split if it has room. -/
def insertIn (new : Name) (ino : Nat) (type : UInt8) : Bool → Block → Option Block
  | _, [] => none
  | first, de :: rest =>
      let needed := entrySize new.length
      if de.inode = 0 then
        if first ∧ de.recLen ≥ needed then
          some ({ de with inode := ino, name := new, fileType := type } :: rest)
        else (insertIn new ino type false rest).map (de :: ·)
      else
        let actual := entrySize de.name.length
        let freeSpace := de.recLen - actual
        if freeSpace ≥ needed then
          some ({ de with recLen := actual } :: ⟨ino, freeSpace, new, type⟩ :: rest)
        else (insertIn new ino type false rest).map (de :: ·)

/-- The loop of `ext4_add_entry` from a block on; `room` is the answer of the calls that
give the directory a new block. -/
def addFrom (io : Nat → Bool) (room : Except Errno Unit) (blockSize : UInt16) (name : Name) (ino : Nat)
    (type : UInt8) : Nat → Directory → Except Errno Directory
  | _, [] => room.map fun _ => [[⟨ino, blockSize, name, type⟩]]
  | bidx, b :: rest =>
      if !io bidx then .error .eio
      else match insertIn name ino type true b with
        | some b' => .ok (b' :: rest)
        | none => (addFrom io room blockSize name ino type (bidx + 1) rest).map (b :: ·)

def addEntry (io : Nat → Bool) (room : Except Errno Unit) (blockSize : UInt16) (dir : Directory)
    (name : Name) (ino : Nat) (type : UInt8) : Except Errno Directory :=
  addFrom io room blockSize name ino type 0 dir

/-- The scan of a block in `ext4_delete_entry` behind the record `prev`. -/
def deleteAfter (name : Name) (prev : DirEntry) : Block → Option Block
  | [] => none
  | de :: rest =>
      if de.Named name then some ({ prev with recLen := prev.recLen + de.recLen } :: rest)
      else (deleteAfter name de rest).map (prev :: ·)

def deleteIn (name : Name) : Block → Option Block
  | [] => none
  | de :: rest =>
      if de.Named name then some ({ de with inode := 0 } :: rest) else deleteAfter name de rest

def deleteFrom (io : Nat → Bool) (name : Name) : Nat → Directory → Except Errno Directory
  | _, [] => .error .enoent
  | bidx, b :: rest =>
      if !io bidx then .error .eio
      else match deleteIn name b with
        | some b' => .ok (b' :: rest)
        | none => (deleteFrom io name (bidx + 1) rest).map (b :: ·)

def deleteEntry (io : Nat → Bool) (dir : Directory) (name : Name) : Except Errno Directory :=
  deleteFrom io name 0 dir

def dot : Name := ['.']
def dotdot : Name := ['.', '.']

/-- The block `ext4_make_empty` writes. -/
def makeEmpty (blockSize : UInt16) (ino parent : Nat) : Directory :=
  [[⟨ino, 12, dot, ftDir⟩, ⟨parent, blockSize - 12, dotdot, ftDir⟩]]

/-! ## Entries -/

/-- A live record is one entry: its name and its inode. -/
def DirEntry.pairs (de : DirEntry) : List (Name × Nat) :=
  if de.inode = 0 then [] else [(de.name, de.inode)]

def blockEntries (b : Block) : List (Name × Nat) := b.flatMap DirEntry.pairs

def entries (dir : Directory) : List (Name × Nat) := dir.flatMap blockEntries

def names (dir : Directory) : List Name := (entries dir).map Prod.fst

section Entries

variable {io : Nat → Bool} {name : Name} {ino : Nat} {type : UInt8}

@[simp] theorem pairs_live {de : DirEntry} (live : de.inode ≠ 0) : de.pairs = [(de.name, de.inode)] :=
  if_neg live

@[simp] theorem pairs_unused {de : DirEntry} (unused : de.inode = 0) : de.pairs = [] := if_pos unused

@[simp] theorem blockEntries_nil : blockEntries [] = [] := rfl

@[simp] theorem blockEntries_cons (de : DirEntry) (b : Block) :
    blockEntries (de :: b) = de.pairs ++ blockEntries b := rfl

@[simp] theorem entries_cons (b : Block) (dir : Directory) :
    entries (b :: dir) = blockEntries b ++ entries dir := rfl

theorem insertIn_entries (used : ino ≠ 0) {first : Bool} {b b' : Block}
    (done : insertIn name ino type first b = some b') :
    (blockEntries b').Perm ((name, ino) :: blockEntries b) := by
  induction b generalizing first b' with
  | nil => cases done
  | cons de rest ih =>
      have later {r} (next : (insertIn name ino type false rest).map (de :: ·) = some r) :
          (blockEntries r).Perm ((name, ino) :: blockEntries (de :: rest)) := by
        obtain ⟨rest', inserted, rfl⟩ := Option.map_eq_some_iff.1 next
        exact ((ih inserted).append_left _).trans List.perm_middle
      unfold insertIn at done
      dsimp only at done
      split at done
      · rename_i unused
        split at done
        · cases done
          simp [used, unused]
        · exact later done
      · rename_i live
        split at done
        · cases done
          simpa [used, live] using List.Perm.swap _ _ _
        · exact later done

/-- **An insertion adds the pair.** -/
theorem addEntry_entries (used : ino ≠ 0) {room : Except Errno Unit} {blockSize : UInt16}
    {dir dir' : Directory} (done : addEntry io room blockSize dir name ino type = .ok dir') :
    (entries dir').Perm ((name, ino) :: entries dir) := by
  unfold addEntry at done
  generalize 0 = bidx at done
  induction dir generalizing bidx dir' with
  | nil =>
      cases room with
      | error e => cases done
      | ok u =>
          cases done
          simp [used, entries]
  | cons b rest ih =>
      unfold addFrom at done
      split at done
      · cases done
      · split at done
        · rename_i b' inserted
          cases done
          exact (insertIn_entries used inserted).append_right _
        · cases later : addFrom io room blockSize name ino type (bidx + 1) rest with
          | error e =>
              rw [later] at done
              cases done
          | ok rest' =>
              rw [later] at done
              cases done
              exact ((ih _ later).append_left _).trans List.perm_middle

/-- The pairs of a record with another name stay where they are. -/
theorem eraseP_pairs_append {de : DirEntry} (other : ¬ de.Named name) (l : List (Name × Nat)) :
    (de.pairs ++ l).eraseP (·.1 = name) = de.pairs ++ l.eraseP (·.1 = name) := by
  apply List.eraseP_append_right
  intro pair member
  by_cases unused : de.inode = 0
  · rw [pairs_unused unused] at member
    cases member
  · rw [pairs_live unused, List.mem_singleton] at member
    subst member
    simpa using fun same => other ⟨unused, same⟩

theorem eraseP_pairs_named {de : DirEntry} (named : de.Named name) (l : List (Name × Nat)) :
    (de.pairs ++ l).eraseP (·.1 = name) = l := by
  rw [pairs_live named.1]
  exact List.eraseP_cons_of_pos (by simpa using named.2)

theorem mem_pairs_of_named {de : DirEntry} (named : de.Named name) : ∃ pair ∈ de.pairs, pair.1 = name := by
  rw [pairs_live named.1]
  exact ⟨_, List.mem_singleton_self _, named.2⟩

theorem deleteAfter_entries {prev : DirEntry} {b b' : Block} (done : deleteAfter name prev b = some b')
    (other : ¬ prev.Named name) :
    blockEntries b' = (blockEntries (prev :: b)).eraseP (·.1 = name) ∧
      ∃ pair ∈ blockEntries b, pair.1 = name := by
  induction b generalizing prev b' with
  | nil => cases done
  | cons de rest ih =>
      rw [blockEntries_cons, eraseP_pairs_append other]
      unfold deleteAfter at done
      split at done
      · rename_i named
        cases done
        obtain ⟨pair, member, same⟩ := mem_pairs_of_named named
        refine ⟨?_, pair, List.mem_append_left _ member, same⟩
        rw [blockEntries_cons de, eraseP_pairs_named named]
        rfl
      · rename_i next
        obtain ⟨rest', deleted, rfl⟩ := Option.map_eq_some_iff.1 done
        obtain ⟨kept, pair, member, same⟩ := ih deleted next
        refine ⟨?_, pair, List.mem_append_right _ member, same⟩
        rw [blockEntries_cons, kept]

theorem deleteIn_entries {b b' : Block} (done : deleteIn name b = some b') :
    blockEntries b' = (blockEntries b).eraseP (·.1 = name) ∧ ∃ pair ∈ blockEntries b, pair.1 = name := by
  cases b with
  | nil => cases done
  | cons de rest =>
      simp only [deleteIn] at done
      split at done
      · rename_i named
        cases done
        obtain ⟨pair, member, same⟩ := mem_pairs_of_named named
        refine ⟨?_, pair, List.mem_append_left _ member, same⟩
        rw [blockEntries_cons de, eraseP_pairs_named named]
        rfl
      · rename_i other
        obtain ⟨kept, pair, member, same⟩ := deleteAfter_entries done other
        exact ⟨kept, pair, List.mem_append_right _ member, same⟩

theorem deleteAfter_none {prev : DirEntry} {b : Block} (done : deleteAfter name prev b = none) :
    ∀ pair ∈ blockEntries b, pair.1 ≠ name := by
  induction b generalizing prev with
  | nil => nofun
  | cons de rest ih =>
      unfold deleteAfter at done
      split at done
      · cases done
      · rename_i other
        intro pair member
        rcases List.mem_append.1 member with here | later
        · by_cases unused : de.inode = 0
          · rw [pairs_unused unused] at here
            cases here
          · rw [pairs_live unused, List.mem_singleton] at here
            subst here
            exact fun same => other ⟨unused, same⟩
        · exact ih (Option.map_eq_none_iff.1 done) pair later

theorem deleteIn_none {b : Block} (done : deleteIn name b = none) :
    ∀ pair ∈ blockEntries b, pair.1 ≠ name := by
  cases b with
  | nil => nofun
  | cons de rest =>
      simp only [deleteIn] at done
      split at done
      · cases done
      · rename_i other
        -- as if the record were behind itself
        have behind : deleteAfter name de (de :: rest) = none := by
          rw [deleteAfter, if_neg other, done]
          rfl
        exact deleteAfter_none behind

/-- **A deletion takes the first pair with the name.** -/
theorem deleteEntry_entries {dir dir' : Directory} (done : deleteEntry io dir name = .ok dir') :
    entries dir' = (entries dir).eraseP (·.1 = name) := by
  unfold deleteEntry at done
  generalize 0 = bidx at done
  induction dir generalizing bidx dir' with
  | nil => cases done
  | cons b rest ih =>
      unfold deleteFrom at done
      split at done
      · cases done
      · split at done
        · rename_i b' deleted
          cases done
          obtain ⟨kept, pair, member, same⟩ := deleteIn_entries deleted
          rw [entries_cons, entries_cons, kept,
            List.eraseP_append_left (p := (·.1 = name)) (by simpa using same) _ member]
        · rename_i none_
          cases later : deleteFrom io name (bidx + 1) rest with
          | error e =>
              rw [later] at done
              cases done
          | ok rest' =>
              rw [later] at done
              cases done
              rw [entries_cons, entries_cons, ih _ later,
                List.eraseP_append_right _ (by simpa using deleteIn_none none_)]

/-- A search finds an entry. -/
theorem lookup_mem {dir : Directory} (found : lookup io dir name = .ok (some ino)) :
    (name, ino) ∈ entries dir := by
  unfold lookup at found
  generalize 0 = bidx at found
  induction dir generalizing bidx with
  | nil => cases found
  | cons b rest ih =>
      unfold lookupFrom at found
      rw [entries_cons, List.mem_append]
      split at found
      · cases found
      · split at found
        · rename_i de first
          cases found
          have named : de.Named name := by simpa using List.find?_some first
          refine .inl (List.mem_flatMap.2 ⟨de, List.mem_of_find?_eq_some first, ?_⟩)
          rw [pairs_live named.1, named.2]
          exact List.mem_singleton_self _
        · exact .inr (ih _ found)

end Entries

end Minus.Fs.Ext4Dir
