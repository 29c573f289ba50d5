/-
# Fs.Ext4DirMap — a directory as a map from names to inodes

`DirHolds` is a well-formed directory: its blocks are tiled (`Fs.Ext4DirTiled`), lie in
different blocks of the volume, and no name occurs twice.  On such a directory
`ext4_lookup` finds an entry of the list `Ext4Dir.entries` of its blocks.

`ext4_add_entry` adds a binding and `ext4_delete_entry` takes one away, with the exceptions
that `dir_map_iff` lists: a new block whose number is lost in its extent record
(`Fs.Ext4Extent`), and directories of 2^32 bytes and more, where `bidx * block_size` wraps
around and the end of the directory is not seen.
-/
import Minus.Fs.Ext4DirTiled

namespace Minus.Fs.Ext4Bytes

set_option autoImplicit false

open Minus.Theory
open Minus.Fs.Dcache (Errno Name)
open Minus.Fs.Ext4Dir (DirEntry Block Directory entrySize insertIn deleteAfter deleteIn blockEntries entries names
  entries_cons insertIn_entries deleteIn_entries deleteIn_none pairs_live pairs_unused)

/-! ## Directories -/

/-- A well-formed directory with these blocks, on a volume with so many blocks that can all
be read. -/
structure DirHolds (blockSize : UInt32) (volume : Nat) (dir : Inode) (bread : Buffers) (blocks : Directory) :
    Prop where
  power : ∃ k ≤ 5, blockSize.toNat = 1024 * 2 ^ k
  root : ExtentRoot dir.iData
  size : dir.iSize.toNat = blocks.length * blockSize.toNat
  block : ∀ i (inside : i < blocks.length), ∃ nr bh, ext4GetBlock dir (UInt32.ofNat i) = .ok nr ∧
    bread nr = some bh ∧ TiledFrom bh blockSize.toNat 0 blocks[i]
  unmapped : ∀ b : UInt32, blocks.length ≤ b.toNat → ext4GetBlock dir b = .error .enospc
  apart : ∀ b b' nr, ext4GetBlock dir b = .ok nr → ext4GetBlock dir b' = .ok nr → b = b'
  names : (names blocks).Nodup
  numbers : volume ≤ 2 ^ 32
  readable : ∀ nr, (bread nr).isSome ↔ nr.toNat < volume

/-- `ext4_lookup` comes to this number for the name. -/
def LooksUp (blockSize : UInt32) (dir : Inode) (bread : Buffers) (name : List UInt8)
    (answer : Option UInt32) : Prop :=
  ∃ fuel, ext4Lookup fuel blockSize everyInode dir bread name = some (.ok (.ok answer))

section Blocks

variable {blockSize : UInt32} {volume : Nat} {dir : Inode} {bread : Buffers} {blocks : Directory}
  {σ α : Type}

theorem DirHolds.large (holds : DirHolds blockSize volume dir bread blocks) :
    1024 ≤ blockSize.toNat ∧ blockSize.toNat ≤ 32768 ∧ blockSize.toNat % 4 = 0 := by
  obtain ⟨k, small, size⟩ := holds.power
  have positive := Nat.two_pow_pos k
  have power : 2 ^ k ≤ 2 ^ 5 := Nat.pow_le_pow_right (by decide) small
  omega

/-- The number of blocks is one of 32 bits. -/
theorem DirHolds.few (holds : DirHolds blockSize volume dir bread blocks) : blocks.length < 2 ^ 32 := by
  obtain ⟨last, e, unmapped⟩ := exists_unmapped dir
  have wide := last.toNat_lt
  by_contra many
  obtain ⟨nr, bh, found, -⟩ := holds.block last.toNat (by omega)
  rw [UInt32.ofNat_toNat, unmapped] at found
  cases found

theorem toNat_ofNat {i : Nat} (small : i < 2 ^ 32) : (UInt32.ofNat i).toNat = i := by
  rw [UInt32.toNat_ofNat', Nat.mod_eq_of_lt small]

theorem ofNat_succ (i : Nat) : UInt32.ofNat i + 1 = UInt32.ofNat (i + 1) := (UInt32.ofNat_add ..).symm

theorem DirHolds.nrBlocks (holds : DirHolds blockSize volume dir bread blocks) :
    (nrBlocks blockSize dir).toNat = blocks.length := by
  obtain ⟨large, small, -⟩ := holds.large
  have few := holds.few
  have total : blocks.length * blockSize.toNat ≤ 2 ^ 32 * 2 ^ 15 := Nat.mul_le_mul (by omega) (by omega)
  have sum : (dir.iSize + blockSize.toUInt64 - 1).toNat = blocks.length * blockSize.toNat + blockSize.toNat - 1 := by
    have added : (dir.iSize + blockSize.toUInt64).toNat = blocks.length * blockSize.toNat + blockSize.toNat := by
      rw [UInt64.toNat_add, holds.size, UInt32.toNat_toUInt64, Nat.mod_eq_of_lt (by omega)]
    rw [UInt64.toNat_sub_of_le _ _ (UInt64.le_iff_toNat_le.2 (by rw [added]; show 1 ≤ _; omega)), added]
    rfl
  have quotient : (blocks.length * blockSize.toNat + blockSize.toNat - 1) / blockSize.toNat = blocks.length := by
    rw [Nat.add_sub_assoc (by omega), Nat.mul_comm, Nat.mul_add_div (by omega), Nat.div_eq_of_lt (by omega), Nat.add_zero]
  rw [Minus.Fs.Ext4Bytes.nrBlocks, UInt64.toNat_toUInt32, UInt64.toNat_div, sum, UInt32.toNat_toUInt64, quotient,
    Nat.mod_eq_of_lt few]

/-- Before a block of the directory the loops of add and delete go on. -/
theorem DirHolds.before (holds : DirHolds blockSize volume dir bread blocks) {i : Nat} (inside : i < blocks.length) :
    beforeEnd blockSize dir (UInt32.ofNat i) = true := by
  have few := holds.few
  have large := holds.large.1
  have less : i * blockSize.toNat < blocks.length * blockSize.toNat := Nat.mul_lt_mul_of_pos_right inside (by omega)
  rw [beforeEnd, decide_eq_true_iff, UInt64.lt_iff_toNat_lt, holds.size, UInt32.toNat_toUInt64, UInt32.toNat_mul,
    toNat_ofNat (by omega)]
  exact Nat.lt_of_le_of_lt (Nat.mod_le _ _) less

/-- At its end they stop, unless the product wraps around. -/
theorem DirHolds.at_end (holds : DirHolds blockSize volume dir bread blocks) :
    beforeEnd blockSize dir (UInt32.ofNat blocks.length) = decide (2 ^ 32 ≤ blocks.length * blockSize.toNat) := by
  rw [beforeEnd, decide_eq_decide, UInt64.lt_iff_toNat_lt, holds.size, UInt32.toNat_toUInt64, UInt32.toNat_mul,
    toNat_ofNat holds.few]
  generalize blocks.length * blockSize.toNat = total
  omega

/-- A block of the directory is entered. -/
theorem returns_block (sc : Scan σ α) {bidx : UInt32} {nr : UInt64} {bh : Bytes} {s : σ} {a : α}
    (more : sc.more bidx = true)
    (found : ext4GetBlock dir bidx = .ok nr) (buffer : bread nr = some bh) :
    Returns (sc.step blockSize dir bread) (.block bidx s) a ↔
      Returns (sc.step blockSize dir bread) (.record bidx nr bh 0 (sc.enter s)) a := by
  refine returns_inl_iff ?_
  rw [Scan.step, if_pos more, found]
  simp only [buffer]

/-- Blocks at whose records the walk does not stop. -/
theorem pass_blocks (sc : Scan σ α) (holds : DirHolds blockSize volume dir bread blocks) (k : Nat)
    (upto : k ≤ blocks.length)
    (more : ∀ i < blocks.length, sc.more (UInt32.ofNat i) = true)
    (pass : ∀ i nr bh, (inside : i < k) → TiledFrom bh blockSize.toNat 0 blocks[i] → ∀ s,
      ∃ s', ∀ a, Returns (sc.step blockSize dir bread) (.record (UInt32.ofNat i) nr bh 0 (sc.enter s)) a ↔
        Returns (sc.step blockSize dir bread) (.block (UInt32.ofNat i + 1) s') a) (s : σ) :
    ∃ s', ∀ a, Returns (sc.step blockSize dir bread) (.block 0 s) a ↔
      Returns (sc.step blockSize dir bread) (.block (UInt32.ofNat k) s') a := by
  induction k with
  | zero => exact ⟨s, fun a => Iff.rfl⟩
  | succ k ih =>
      obtain ⟨s', before⟩ := ih (by omega) fun i nr bh inside => pass i nr bh (by omega)
      obtain ⟨nr, bh, found, buffer, tiled⟩ := holds.block k (by omega)
      obtain ⟨s'', next⟩ := pass k nr bh (Nat.lt_succ_self k) tiled s'
      refine ⟨s'', fun a => (before a).trans ?_⟩
      rw [returns_block sc (more k (by omega)) found buffer, next, ofNat_succ]

end Blocks

/-! ## The map -/

/-- The inode of the first entry with the name. -/
def binding (l : List (Name × Nat)) (name : Name) : Option Nat := (l.find? (·.1 = name)).map Prod.snd

section Map

variable {l l' : List (Name × Nat)} {name : Name} {ino : Nat}

theorem binding_append : binding (l ++ l') name = (binding l name).or (binding l' name) := by
  rw [binding, List.find?_append, Option.map_or]
  rfl

theorem binding_none : binding l name = none ↔ name ∉ l.map Prod.fst := by
  rw [binding, Option.map_eq_none_iff, List.find?_eq_none, List.mem_map]
  simp only [decide_eq_true_eq, not_exists, not_and]

theorem binding_some (distinct : (l.map Prod.fst).Nodup) : binding l name = some ino ↔ (name, ino) ∈ l := by
  induction l with
  | nil => simp [binding]
  | cons entry rest ih =>
      obtain ⟨absent, distinct⟩ := List.nodup_cons.1 distinct
      by_cases here : entry.1 = name
      · have first : binding (entry :: rest) name = some entry.2 := by
          rw [binding, List.find?_cons_of_pos (by simpa using here), Option.map_some]
        have later : (name, ino) ∉ rest := fun member =>
          absent (List.mem_map.2 ⟨_, member, here.symm⟩)
        rw [first, List.mem_cons, or_iff_left later, Option.some.injEq, ← here]
        exact ⟨fun same => by rw [← same], fun same => congrArg Prod.snd same.symm⟩
      · have skip : binding (entry :: rest) name = binding rest name := by
          rw [binding, List.find?_cons_of_neg (by simpa using here)]
          rfl
        rw [skip, ih distinct, List.mem_cons, or_iff_right fun same => here (congrArg Prod.fst same).symm]

/-- Lists of the same entries are the same map. -/
theorem binding_perm (distinct : (l.map Prod.fst).Nodup) (same : l.Perm l') : binding l name = binding l' name := by
  apply Option.ext
  intro ino
  rw [binding_some distinct, binding_some ((same.map _).nodup_iff.1 distinct), same.mem_iff]

theorem binding_blockEntries (b : Block) (name : Name) :
    binding (blockEntries b) name = (b.find? (DirEntry.Named name)).map (·.inode) := by
  induction b with
  | nil => rfl
  | cons de rest ih =>
      rw [Ext4Dir.blockEntries_cons, binding_append, ih]
      by_cases unused : de.inode = 0
      · rw [pairs_unused unused, List.find?_cons_of_neg (by simpa using fun named : de.Named name => named.1 unused)]
        rfl
      · rw [pairs_live unused]
        by_cases here : de.name = name
        · have first : binding [(de.name, de.inode)] name = some de.inode := by simp [binding, here]
          rw [first, List.find?_cons_of_pos (by simpa using ⟨unused, here⟩)]
          rfl
        · have none_ : binding [(de.name, de.inode)] name = none := by simp [binding, here]
          rw [none_, List.find?_cons_of_neg (by simpa using fun named : de.Named name => here named.2)]
          rfl

theorem binding_erase (distinct : (l.map Prod.fst).Nodup) (gone : Name) :
    binding (l.eraseP (·.1 = gone)) name = if name = gone then none else binding l name := by
  induction l with
  | nil => simp [binding]
  | cons entry rest ih =>
      obtain ⟨absent, rest_distinct⟩ := List.nodup_cons.1 distinct
      by_cases here : entry.1 = gone
      · rw [List.eraseP_cons_of_pos (by simpa using here)]
        split
        · rename_i same
          rw [binding_none, same, ← here]
          exact absent
        · rename_i other
          rw [binding, binding, List.find?_cons_of_neg (by simpa [here] using Ne.symm other)]
      · rw [List.eraseP_cons_of_neg (by simpa using here)]
        have split_ (r : List (Name × Nat)) : binding (entry :: r) name =
            (binding [entry] name).or (binding r name) := binding_append (l := [entry])
        rw [split_, split_ rest, ih rest_distinct]
        split
        · rename_i same
          have : binding [entry] name = none := by simp [binding, same, here]
          rw [this]
          rfl
        · rfl

end Map

section Lookup

variable {blockSize : UInt32} {volume : Nat} {dir : Inode} {bread : Buffers} {blocks : Directory}

theorem lookup_from (holds : DirHolds blockSize volume dir bread blocks) (name : List UInt8) {i k : Nat}
    (split_ : i + k = blocks.length) : ∃ r : Option UInt32,
      Returns ((lookupScan blockSize everyInode dir name).step blockSize dir bread) (.block (UInt32.ofNat i) ()) (.ok r) ∧
        r.map UInt32.toNat = binding (entries (blocks.drop i)) (latin name) := by
  have few := holds.few
  have more (i : Nat) (upto : i < 2 ^ 32) :
      (lookupScan blockSize everyInode dir name).more (UInt32.ofNat i) = decide (i < blocks.length) := by
    refine decide_eq_decide.2 ?_
    rw [UInt32.lt_iff_toNat_lt, toNat_ofNat upto, holds.nrBlocks]
  induction k generalizing i with
  | zero =>
      refine ⟨none, returns_of_inr ?_, ?_⟩
      · rw [Scan.step, more i (by omega), if_neg (by simp; omega)]
        rfl
      · rw [List.drop_eq_nil_of_le (by omega)]
        rfl
  | succ k ih =>
      have inside : i < blocks.length := by omega
      obtain ⟨nr, bh, found, buffer, tiled⟩ := holds.block i inside
      rw [List.drop_eq_getElem_cons inside, entries_cons, binding_append, binding_blockEntries]
      have walk := lookup_walk dir bread (UInt32.ofNat i) nr name tiled
      have enter (a : Except Errno (Option UInt32)) :
          Returns ((lookupScan blockSize everyInode dir name).step blockSize dir bread) (.block (UInt32.ofNat i) ()) a ↔
            Returns ((lookupScan blockSize everyInode dir name).step blockSize dir bread) (.record (UInt32.ofNat i) nr bh 0 ()) a :=
        returns_block (lookupScan blockSize everyInode dir name) ((more i (by omega)).trans (decide_eq_true inside)) found buffer
      split at walk
      · rename_i de first
        obtain ⟨ino, same, returns⟩ := walk
        rw [first, Option.map_some, Option.some_or]
        exact ⟨some ino, (enter _).2 returns, congrArg some same⟩
      · rename_i none_
        obtain ⟨r, returns, answer⟩ := ih (i := i + 1) (by omega)
        rw [none_, Option.map_none, Option.none_or, ← answer]
        refine ⟨r, (enter _).2 ((walk _).2 ?_), rfl⟩
        rwa [ofNat_succ]

/-- **A lookup answers with the binding of the name.** -/
theorem looksUp_iff (holds : DirHolds blockSize volume dir bread blocks) (name : List UInt8) (r : Option UInt32) :
    LooksUp blockSize dir bread name r ↔ r.map UInt32.toNat = binding (entries blocks) (latin name) := by
  obtain ⟨r', returns, answer⟩ := lookup_from holds name (Nat.zero_add _)
  rw [List.drop_zero] at answer
  constructor
  · intro looks
    obtain rfl := Except.ok.inj (Returns.unique (show Returns _ _ _ from looks) returns)
    exact answer
  · intro same
    have injective : Function.Injective (Option.map UInt32.toNat) :=
      Option.map_injective fun a b => UInt32.toNat_inj.1
    obtain rfl := injective (same.trans answer.symm)
    exact returns

end Lookup

/-! ## Deletion -/

/-- A directory with another block in the place of block `j`. -/
theorem entries_set {blocks : Directory} {j : Nat} (inside : j < blocks.length) (b : Block) :
    entries (blocks.set j b) = entries (blocks.take j) ++ blockEntries b ++ entries (blocks.drop (j + 1)) := by
  rw [List.set_eq_take_append_cons_drop, if_pos inside]
  simp [entries]

theorem entries_split {blocks : Directory} {j : Nat} (inside : j < blocks.length) :
    entries blocks = entries (blocks.take j) ++ blockEntries blocks[j] ++ entries (blocks.drop (j + 1)) := by
  rw [← entries_set inside, List.set_getElem_self]

section Change

variable {blockSize : UInt32} {volume : Nat} {dir : Inode} {bread : Buffers} {blocks : Directory}

/-- Another tiled block in the place of block `j`. -/
theorem DirHolds.set (holds : DirHolds blockSize volume dir bread blocks) {j : Nat} (inside : j < blocks.length)
    {nr : UInt64} {bh : Bytes} (found : ext4GetBlock dir (UInt32.ofNat j) = .ok nr) {b : Block}
    (tiled : TiledFrom bh blockSize.toNat 0 b) (distinct : (Ext4Dir.names (blocks.set j b)).Nodup) :
    DirHolds blockSize volume dir (Function.update bread nr (some bh)) (blocks.set j b) := by
  have few := holds.few
  obtain ⟨nr', bh', found', buffer, -⟩ := holds.block j inside
  obtain rfl := Except.ok.inj (found.symm.trans found')
  refine ⟨holds.power, holds.root, ?_, fun i below => ?_, fun b' beyond => ?_, holds.apart, distinct, holds.numbers,
    fun nr' => ?_⟩
  · rw [List.length_set, holds.size]
  · rw [List.length_set] at below
    by_cases here : j = i
    · subst here
      exact ⟨nr, bh, found, Function.update_self .., by rwa [List.getElem_set_self]⟩
    · obtain ⟨nr', bh', other, buffer', tiled'⟩ := holds.block i below
      refine ⟨nr', bh', other, ?_, by rwa [List.getElem_set_ne here]⟩
      rw [Function.update_of_ne, buffer']
      rintro rfl
      have same := congrArg UInt32.toNat (holds.apart _ _ _ found other)
      rw [toNat_ofNat (by omega), toNat_ofNat (by omega)] at same
      exact here same
  · rw [List.length_set] at beyond
    exact holds.unmapped b' beyond
  · rw [← holds.readable]
    by_cases here : nr' = nr
    · rw [here, Function.update_self, buffer]
      rfl
    · rw [Function.update_of_ne here]

variable {name : List UInt8}

/-- How `ext4_delete_entry` ends. -/
theorem delete_iff {out : Except Errno (UInt64 × Bytes)}
    (returns : Returns ((deleteScan blockSize dir name).step blockSize dir bread) (.block 0 none) out)
    (a : Buffers × Except Errno Unit) :
    (∃ fuel, ext4DeleteEntry fuel blockSize dir bread name = some (.ok a)) ↔
      a = match out with
        | .error e => (bread, .error e)
        | .ok (nr, bh) => (Function.update bread nr (some bh), .ok ()) := by
  constructor
  · rintro ⟨fuel, run⟩
    unfold ext4DeleteEntry at run
    split at run
    · cases run
    · cases run
    · rename_i e ended
      obtain rfl := returns.unique ⟨fuel, ended⟩
      exact (Except.ok.inj (Option.some.inj run)).symm
    · rename_i nr bh ended
      obtain rfl := returns.unique ⟨fuel, ended⟩
      exact (Except.ok.inj (Option.some.inj run)).symm
  · rintro rfl
    obtain ⟨fuel, run⟩ := returns
    refine ⟨fuel, ?_⟩
    rw [ext4DeleteEntry, Scan.run, run]
    cases out <;> rfl

/-- Which block the name is deleted from. -/
theorem delete_found (holds : DirHolds blockSize volume dir bread blocks) (name : List UInt8) {j : Nat}
    (inside : j < blocks.length) {b : Block} (done : deleteIn (latin name) blocks[j] = some b)
    (earlier : ∀ i < j, (inside : i < blocks.length) → deleteIn (latin name) blocks[i] = none) :
    ∃ nr bh, ext4GetBlock dir (UInt32.ofNat j) = .ok nr ∧ TiledFrom bh blockSize.toNat 0 b ∧
      Returns ((deleteScan blockSize dir name).step blockSize dir bread) (.block 0 none) (.ok (nr, bh)) := by
  have small : blockSize.toNat < 2 ^ 16 := Nat.lt_of_le_of_lt holds.large.2.1 (by decide)
  obtain ⟨nr, bh, found, buffer, tiled⟩ := holds.block j inside
  obtain ⟨s', before⟩ := pass_blocks (deleteScan blockSize dir name) holds j (by omega)
    (fun i below => holds.before below) (fun i nr bh below tiled s => by
      have walk := delete_walk dir bread (UInt32.ofNat i) nr name small tiled
      rw [earlier i below] at walk
      exact walk) none
  have walk := delete_walk dir bread (UInt32.ofNat j) nr name small tiled
  rw [done] at walk
  obtain ⟨bh', returns, tiled'⟩ := walk
  refine ⟨nr, bh', found, tiled', (before _).2 ?_⟩
  exact (returns_block (deleteScan blockSize dir name) (holds.before inside) found buffer).2 returns

/-- The end of a directory without the name. -/
theorem delete_absent (holds : DirHolds blockSize volume dir bread blocks) (name : List UInt8)
    (none_ : ∀ i, (inside : i < blocks.length) → deleteIn (latin name) blocks[i] = none) :
    Returns ((deleteScan blockSize dir name).step blockSize dir bread) (.block 0 none)
      (.error (if blocks.length * blockSize.toNat < 2 ^ 32 then .enoent else .eio)) := by
  have small : blockSize.toNat < 2 ^ 16 := Nat.lt_of_le_of_lt holds.large.2.1 (by decide)
  obtain ⟨s', before⟩ := pass_blocks (deleteScan blockSize dir name) holds blocks.length (Nat.le_refl _)
    (fun i below => holds.before below) (fun i nr bh below tiled s => by
      have walk := delete_walk dir bread (UInt32.ofNat i) nr name small tiled
      rw [none_ i below] at walk
      exact walk) none
  refine (before _).2 (returns_of_inr ?_)
  rw [Scan.step]
  show (if beforeEnd blockSize dir (UInt32.ofNat blocks.length) = true then _ else _) = _
  rw [holds.at_end, holds.unmapped _ (by rw [toNat_ofNat holds.few])]
  by_cases wraps : 2 ^ 32 ≤ blocks.length * blockSize.toNat
  · rw [if_pos (decide_eq_true wraps), if_neg (Nat.not_lt.2 wraps)]
    rfl
  · rw [if_neg (by simpa using wraps), if_pos (Nat.not_le.1 wraps)]
    rfl

/-- Only the binding of the name is gone; a name that is not there is reported, and nothing
changes. -/
def DeleteRight (blockSize : UInt32) (volume : Nat) (dir : Inode) (bread : Buffers) (name : List UInt8) : Prop :=
  (LooksUp blockSize dir bread name none →
    ∃ fuel, ext4DeleteEntry fuel blockSize dir bread name = some (.ok (bread, .error .enoent))) ∧
  ∀ ino, LooksUp blockSize dir bread name (some ino) → ∃ bread' blocks',
    (∃ fuel, ext4DeleteEntry fuel blockSize dir bread name = some (.ok (bread', .ok ()))) ∧
      DirHolds blockSize volume dir bread' blocks' ∧
      ∀ n r, LooksUp blockSize dir bread' n r ↔ if n = name then r = none else LooksUp blockSize dir bread n r

/-- The entries behind a deletion are the others. -/
theorem entries_deleted {j : Nat} (inside : j < blocks.length) {b : Block}
    (done : deleteIn (latin name) blocks[j] = some b)
    (earlier : ∀ i < j, (inside : i < blocks.length) → deleteIn (latin name) blocks[i] = none) :
    entries (blocks.set j b) = (entries blocks).eraseP (·.1 = latin name) := by
  obtain ⟨erased, pair, member, same⟩ := deleteIn_entries done
  have before : ∀ pair ∈ entries (blocks.take j), ¬ decide (pair.1 = latin name) = true := by
    intro pair member
    obtain ⟨b', taken, here⟩ := List.mem_flatMap.1 member
    obtain ⟨i, low, rfl⟩ := List.mem_take_iff_getElem.1 taken
    rw [decide_eq_true_iff]
    exact deleteIn_none (earlier i (by omega) (by omega)) pair here
  rw [entries_set inside, entries_split inside, List.append_assoc, List.append_assoc,
    List.eraseP_append_right _ before, List.eraseP_append_left (by simpa using same) _ member, erased]

/-- A bound name is deleted, and another is not found. -/
theorem delete_cases (holds : DirHolds blockSize volume dir bread blocks) (name : List UInt8) :
    (binding (entries blocks) (latin name) ≠ none ∧ ∃ bread' blocks',
        (∃ fuel, ext4DeleteEntry fuel blockSize dir bread name = some (.ok (bread', .ok ()))) ∧
          DirHolds blockSize volume dir bread' blocks' ∧
          entries blocks' = (entries blocks).eraseP (·.1 = latin name)) ∨
      binding (entries blocks) (latin name) = none ∧ ∀ a,
        (∃ fuel, ext4DeleteEntry fuel blockSize dir bread name = some (.ok a)) ↔
          a = (bread, .error (if blocks.length * blockSize.toNat < 2 ^ 32 then .enoent else .eio)) := by
  by_cases present : ∃ j, ∃ inside : j < blocks.length, deleteIn (latin name) blocks[j] ≠ none
  · left
    obtain ⟨inside, found⟩ := Nat.find_spec present
    obtain ⟨b, done⟩ := Option.ne_none_iff_exists'.1 found
    have earlier : ∀ i < Nat.find present, (inside : i < blocks.length) → deleteIn (latin name) blocks[i] = none :=
      fun i less inside => not_not.1 fun some_ => Nat.find_min present less ⟨inside, some_⟩
    generalize Nat.find present = j at *
    obtain ⟨nr, bh, place, tiled, returns⟩ := delete_found holds name inside done earlier
    have after := entries_deleted inside done earlier
    have distinct : (Ext4Dir.names (blocks.set j b)).Nodup := by
      rw [Ext4Dir.names, after]
      exact holds.names.sublist (List.eraseP_sublist.map _)
    obtain ⟨-, pair, member, same⟩ := deleteIn_entries done
    refine ⟨fun none_ => binding_none.1 none_ ?_, _, _, (delete_iff returns _).2 rfl,
      holds.set inside place tiled distinct, after⟩
    rw [entries_split inside]
    exact List.mem_map.2 ⟨pair, List.mem_append_left _ (List.mem_append_right _ member), same⟩
  · right
    have none_ : ∀ i, (inside : i < blocks.length) → deleteIn (latin name) blocks[i] = none :=
      fun i inside => not_not.1 fun some_ => present ⟨i, inside, some_⟩
    refine ⟨binding_none.2 fun member => ?_, delete_iff (delete_absent holds name none_)⟩
    obtain ⟨pair, member, same⟩ := List.mem_map.1 member
    obtain ⟨b, taken, here⟩ := List.mem_flatMap.1 member
    obtain ⟨i, low, rfl⟩ := List.getElem_of_mem taken
    exact deleteIn_none (none_ i low) pair here same

theorem looksUp_none_iff (holds : DirHolds blockSize volume dir bread blocks) (name : List UInt8) :
    LooksUp blockSize dir bread name none ↔ binding (entries blocks) (latin name) = none := by
  rw [looksUp_iff holds]
  exact eq_comm

/-- **Deletion, name by name.** -/
theorem delete_right_iff (holds : DirHolds blockSize volume dir bread blocks) (name : List UInt8) :
    DeleteRight blockSize volume dir bread name ↔
      (LooksUp blockSize dir bread name none → dir.iSize.toNat < 2 ^ 32) := by
  rw [DeleteRight, looksUp_none_iff holds]
  rcases delete_cases holds name with ⟨bound, bread', blocks', run, kept, after⟩ | ⟨absent, run⟩
  · refine iff_of_true ⟨fun absent => absurd absent bound, fun _ _ => ⟨bread', blocks', run, kept, fun n r => ?_⟩⟩
      fun absent => absurd absent bound
    rw [looksUp_iff kept, looksUp_iff holds, after, binding_erase holds.names]
    by_cases same : n = name
    · rw [if_pos same, if_pos (congrArg latin same), Option.map_eq_none_iff]
    · rw [if_neg same, if_neg fun latins => same (latin_inj.1 latins)]
  · have never (ino : UInt32) : ¬ LooksUp blockSize dir bread name (some ino) := fun found => by
      have := (looksUp_iff holds name _).1 found
      rw [absent] at this
      cases this
    rw [imp_iff_right absent, imp_iff_right absent, and_iff_left fun ino found => absurd found (never ino), run,
      holds.size]
    simp

/-! ## Insertion -/

/-- The first record is unused and long enough for a name of this length, or a live record
has as much to spare. -/
def HasRoom (len : Nat) (b : Block) : Prop :=
  (∃ de rest, b = de :: rest ∧ de.inode = 0 ∧ 8 + (len + 3) / 4 * 4 ≤ de.recLen.toNat) ∨
    ∃ de ∈ b, de.inode ≠ 0 ∧ 8 + (de.name.length + 3) / 4 * 4 + (8 + (len + 3) / 4 * 4) ≤ de.recLen.toNat

/-- The call that gives the directory a block: one that is its own, and whose change to the
buffers is none to the directory's. -/
structure Allocates {σ : Type} (volume : Nat) (newBlock : NewBlock σ) (dir : Inode) (s : σ) (bread : Buffers) (s' : σ)
    (bread' : Buffers) (pblock : UInt64) : Prop where
  answer : newBlock s bread = .ok ((s', bread'), .ok pblock)
  inside : pblock.toNat < volume
  fresh : ∀ b, ext4GetBlock dir b ≠ .ok pblock
  others : ∀ b nr, ext4GetBlock dir b = .ok nr → bread' nr = bread nr
  readable : ∀ nr, (bread' nr).isSome ↔ nr.toNat < volume

/-- The directory is well formed again, and the name is bound; nothing else is. -/
def AddRight {σ : Type} (blockSize : UInt32) (volume : Nat) (newBlock : NewBlock σ) (dir : Inode) (s : σ)
    (bread : Buffers) (name : List UInt8) (ino : UInt32) (type : UInt8) : Prop :=
  ∃ dir' s' bread' blocks',
    (∃ fuel, ext4AddEntry fuel blockSize newBlock dir s bread name ino type =
        some (.ok ((dir', s', bread'), .ok ()))) ∧
      DirHolds blockSize volume dir' bread' blocks' ∧
      ∀ n r, LooksUp blockSize dir' bread' n r ↔ if n = name then r = some ino else LooksUp blockSize dir bread n r

variable {σ : Type} {newBlock : NewBlock σ} {s s₁ : σ} {bread₁ : Buffers} {pblock : UInt64} {ino : UInt32} {type : UInt8}

theorem insertIn_isSome {bh : Bytes} {size p : Nat} {b : Block} (first : Bool) (tiled : TiledFrom bh size p b)
    (short : name.length ≤ 255) :
    (insertIn (latin name) ino.toNat type first b).isSome ↔
      (first = true ∧ ∃ de rest, b = de :: rest ∧ de.inode = 0 ∧ 8 + (name.length + 3) / 4 * 4 ≤ de.recLen.toNat) ∨
        ∃ de ∈ b, de.inode ≠ 0 ∧
          8 + (de.name.length + 3) / 4 * 4 + (8 + (name.length + 3) / 4 * 4) ≤ de.recLen.toNat := by
  induction b generalizing p first with
  | nil => simp [insertIn]
  | cons de rest ih =>
      obtain ⟨shows_, roomy, tail⟩ := tiled
      have later := ih false tail
      simp only [Bool.false_eq_true, false_and, false_or] at later
      unfold insertIn
      dsimp only
      rw [length_latin]
      by_cases live : de.inode = 0
      · rw [if_pos live]
        by_cases takes : first = true ∧ entrySize name.length ≤ de.recLen
        · rw [if_pos takes]
          have room := UInt16.le_iff_toNat_le.1 takes.2
          rw [entrySize_toNat short] at room
          exact iff_of_true rfl (.inl ⟨takes.1, de, rest, rfl, live, room⟩)
        · rw [if_neg takes, Option.isSome_map, later]
          rw [UInt16.le_iff_toNat_le, entrySize_toNat short] at takes
          simp only [List.mem_cons, exists_eq_or_imp, live, ne_eq, not_true_eq_false, false_and, false_or]
          refine ⟨.inr, fun either => either.resolve_left ?_⟩
          rintro ⟨start, de', rest', same, -, room⟩
          cases same
          exact takes ⟨start, room⟩
      · rw [if_neg live]
        have fits := roomy.name live
        have sizes := entrySize_toNat (shows_.short live)
        have free : (de.recLen - entrySize de.name.length).toNat =
            de.recLen.toNat - (8 + (de.name.length + 3) / 4 * 4) := by
          rw [UInt16.toNat_sub_of_le _ _ (UInt16.le_iff_toNat_le.2 (by omega)), sizes]
        have first_ : ¬ (first = true ∧ ∃ de' rest', de :: rest = de' :: rest' ∧ de'.inode = 0 ∧
            8 + (name.length + 3) / 4 * 4 ≤ de'.recLen.toNat) := by
          rintro ⟨-, de', rest', same, unused, -⟩
          cases same
          exact live unused
        rw [or_iff_right first_]
        simp only [List.mem_cons, exists_eq_or_imp]
        by_cases takes : entrySize name.length ≤ de.recLen - entrySize de.name.length
        · rw [if_pos takes]
          rw [UInt16.le_iff_toNat_le, entrySize_toNat short, free] at takes
          exact iff_of_true rfl (.inl ⟨live, by omega⟩)
        · rw [if_neg takes, Option.isSome_map, later]
          rw [UInt16.le_iff_toNat_le, entrySize_toNat short, free] at takes
          exact (or_iff_right fun spare => takes (by omega)).symm

theorem hasRoom_iff {bh : Bytes} {size p : Nat} {b : Block} (tiled : TiledFrom bh size p b)
    (short : name.length ≤ 255) :
    HasRoom name.length b ↔ insertIn (latin name) ino.toNat type true b ≠ none := by
  rw [← Option.isSome_iff_ne_none, insertIn_isSome true tiled short, HasRoom]
  simp

/-- How `ext4_add_entry` ends. -/
theorem add_iff {out : Added}
    (returns : Returns ((addScan blockSize dir name ino type).step blockSize dir bread) (.block 0 true) out)
    (a : (Inode × σ × Buffers) × Except Errno Unit) :
    (∃ fuel, ext4AddEntry fuel blockSize newBlock dir s bread name ino type = some (.ok a)) ↔
      match out with
        | .eio => a = ((dir, s, bread), .error .eio)
        | .into nr bh => a = ((dir, s, Function.update bread nr (some bh)), .ok ())
        | .full bidx => addBlock blockSize newBlock dir s bread name ino type bidx = .ok a := by
  constructor
  · rintro ⟨fuel, run⟩
    unfold ext4AddEntry at run
    split at run
    · cases run
    · cases run
    all_goals
      rename_i ended
      obtain rfl := returns.unique ⟨fuel, ended⟩
    · exact (Except.ok.inj (Option.some.inj run)).symm
    · exact (Except.ok.inj (Option.some.inj run)).symm
    · exact Option.some.inj run
  · obtain ⟨fuel, run⟩ := returns
    intro ends
    refine ⟨fuel, ?_⟩
    rw [ext4AddEntry, Scan.run, run]
    cases out with
    | eio => rw [ends]
    | into nr bh => rw [ends]
    | full bidx => exact congrArg some ends

/-- Which block the entry is put into. -/
theorem add_found (holds : DirHolds blockSize volume dir bread blocks) (type : UInt8) (short : name.length ≤ 255)
    {j : Nat}
    (inside : j < blocks.length) {b : Block} (done : insertIn (latin name) ino.toNat type true blocks[j] = some b)
    (earlier : ∀ i < j, (inside : i < blocks.length) → insertIn (latin name) ino.toNat type true blocks[i] = none) :
    ∃ nr bh, ext4GetBlock dir (UInt32.ofNat j) = .ok nr ∧ TiledFrom bh blockSize.toNat 0 b ∧
      Returns ((addScan blockSize dir name ino type).step blockSize dir bread) (.block 0 true) (.into nr bh) := by
  obtain ⟨nr, bh, found, buffer, tiled⟩ := holds.block j inside
  obtain ⟨s', before⟩ := pass_blocks (addScan blockSize dir name ino type) holds j (by omega)
    (fun i below => holds.before below) (fun i nr bh below tiled s => by
      have walk := add_walk dir bread (UInt32.ofNat i) nr ino type true short tiled
      rw [earlier i below] at walk
      exact walk) true
  have walk := add_walk dir bread (UInt32.ofNat j) nr ino type true short tiled
  rw [done] at walk
  obtain ⟨bh', returns, tiled', -⟩ := walk
  refine ⟨nr, bh', found, tiled', (before _).2 ?_⟩
  exact (returns_block (addScan blockSize dir name ino type) (holds.before inside) found buffer).2 returns

/-- The end of a directory without room. -/
theorem add_full (holds : DirHolds blockSize volume dir bread blocks) (type : UInt8) (short : name.length ≤ 255)
    (none_ : ∀ i, (inside : i < blocks.length) → insertIn (latin name) ino.toNat type true blocks[i] = none) :
    Returns ((addScan blockSize dir name ino type).step blockSize dir bread) (.block 0 true)
      (if blocks.length * blockSize.toNat < 2 ^ 32 then .full (UInt32.ofNat blocks.length) else .eio) := by
  obtain ⟨s', before⟩ := pass_blocks (addScan blockSize dir name ino type) holds blocks.length (Nat.le_refl _)
    (fun i below => holds.before below) (fun i nr bh below tiled s => by
      have walk := add_walk dir bread (UInt32.ofNat i) nr ino type true short tiled
      rw [none_ i below] at walk
      exact walk) true
  refine (before _).2 (returns_of_inr ?_)
  rw [Scan.step]
  show (if beforeEnd blockSize dir (UInt32.ofNat blocks.length) = true then _ else _) = _
  rw [holds.at_end, holds.unmapped _ (by rw [toNat_ofNat holds.few])]
  by_cases wraps : 2 ^ 32 ≤ blocks.length * blockSize.toNat
  · rw [if_pos (decide_eq_true wraps), if_neg (Nat.not_lt.2 wraps)]
    rfl
  · rw [if_neg (by simpa using wraps), if_pos (Nat.not_le.1 wraps)]
    rfl

theorem names_added (distinct : (Ext4Dir.names blocks).Nodup) (absent : latin name ∉ Ext4Dir.names blocks)
    {blocks' : Directory} (added : (entries blocks').Perm ((latin name, ino.toNat) :: entries blocks)) :
    (Ext4Dir.names blocks').Nodup :=
  (added.map Prod.fst).nodup_iff.2 (List.nodup_cons.2 ⟨absent, distinct⟩)

/-- One more entry is one more binding. -/
theorem looks_added (holds : DirHolds blockSize volume dir bread blocks) {dir' : Inode} {bread' : Buffers}
    {blocks' : Directory} (holds' : DirHolds blockSize volume dir' bread' blocks')
    (added : (entries blocks').Perm ((latin name, ino.toNat) :: entries blocks)) (n : List UInt8)
    (r : Option UInt32) :
    LooksUp blockSize dir' bread' n r ↔ if n = name then r = some ino else LooksUp blockSize dir bread n r := by
  rw [looksUp_iff holds', looksUp_iff holds, binding_perm holds'.names added]
  by_cases same : n = name
  · have first : binding ((latin name, ino.toNat) :: entries blocks) (latin n) = some ino.toNat := by
      simp [binding, same]
    rw [if_pos same, first, Option.map_eq_some_iff]
    refine ⟨fun ⟨a, here, same⟩ => ?_, fun here => ⟨ino, here, rfl⟩⟩
    rw [here, UInt32.toNat_inj.1 same]
  · have skip : binding ((latin name, ino.toNat) :: entries blocks) (latin n) = binding (entries blocks) (latin n) := by
      rw [binding, List.find?_cons_of_neg (by simpa [latin_inj] using Ne.symm same)]
      rfl
    rw [if_neg same, skip]

/-- The new block holds one record. -/
theorem added_block (holds : DirHolds blockSize volume dir bread blocks)
    (alloc : Allocates volume newBlock dir s bread s₁ bread₁ pblock) (ino : UInt32) (type : UInt8)
    (short : name.length ≤ 255) {bidx : UInt32} {dir₁ : Inode}
    (done : ext4SetBlock blockSize dir bidx pblock = (dir₁, .ok ())) : ∃ dir' bh,
      addBlock blockSize newBlock dir s bread name ino type bidx =
          .ok ((dir', s₁, Function.update bread₁ pblock (some bh)), .ok ()) ∧
        dir'.iData = dir₁.iData ∧ dir'.iSize.toNat = (blocks.length + 1) * blockSize.toNat ∧
        TiledFrom bh blockSize.toNat 0 [⟨ino.toNat, blockSize.toUInt16, latin name, type⟩] := by
  obtain ⟨large, small, aligned⟩ := holds.large
  have few := holds.few
  obtain ⟨old, buffer⟩ := Option.isSome_iff_exists.1 ((alloc.readable pblock).2 alloc.inside)
  have size₁ : dir₁.iSize = dir.iSize := by
    rw [← (setBlock_same blockSize dir bidx pblock).1, done]
  have len : blockSize.toUInt16.toNat = blockSize.toNat := by
    rw [UInt32.toNat_toUInt16, Nat.mod_eq_of_lt (by omega)]
  have total : blocks.length * blockSize.toNat ≤ 2 ^ 32 * 2 ^ 15 := Nat.mul_le_mul (by omega) (by omega)
  have size : (if dir₁.iSize = 0 then blockSize.toUInt64 else dir₁.iSize + blockSize.toUInt64).toNat =
      (blocks.length + 1) * blockSize.toNat := by
    rw [size₁, Nat.add_mul, Nat.one_mul, ← holds.size]
    split
    · rename_i zero
      rw [zero, UInt32.toNat_toUInt64]
      exact (Nat.zero_add _).symm
    · rw [UInt64.toNat_add, UInt32.toNat_toUInt64, Nat.mod_eq_of_lt (by rw [holds.size]; omega)]
  refine ⟨{ dir₁ with
      iSize := if dir₁.iSize = 0 then blockSize.toUInt64 else dir₁.iSize + blockSize.toUInt64
      iDirty := true }, inserted (store16 (clear old 0 blockSize.toNat) 4 blockSize.toUInt16) 0 name ino type, ?_,
    rfl, size, ?_, ⟨?_, ?_, fun _ => ?_⟩, ?_⟩
  · rw [addBlock, alloc.answer, ok_bind]
    dsimp only
    rw [done]
    dsimp only
    rw [buffer]
    dsimp only
    rw [insertAt_eq (by omega), ok_bind]
  · have shows_ := shows_inserted (store16 (clear old 0 blockSize.toNat) 4 blockSize.toUInt16) 0 ino type short
    rwa [load16_store16] at shows_
  · show blockSize.toUInt16.toNat % 4 = 0
    rw [len, aligned]
  · show 8 ≤ blockSize.toUInt16.toNat
    omega
  · show 8 + ((latin name).length + 3) / 4 * 4 ≤ blockSize.toUInt16.toNat
    rw [length_latin]
    omega
  · show 0 + blockSize.toUInt16.toNat = blockSize.toNat
    omega

/-- A directory with a block behind the others. -/
theorem DirHolds.extend (holds : DirHolds blockSize volume dir bread blocks)
    (alloc : Allocates volume newBlock dir s bread s₁ bread₁ pblock) {dir' : Inode} (root : ExtentRoot dir'.iData)
    (size : dir'.iSize.toNat = (blocks.length + 1) * blockSize.toNat)
    (here : ext4GetBlock dir' (UInt32.ofNat blocks.length) = .ok pblock)
    (others : ∀ b, b ≠ UInt32.ofNat blocks.length → ext4GetBlock dir' b = ext4GetBlock dir b) {bh : Bytes} {b : Block}
    (tiled : TiledFrom bh blockSize.toNat 0 b) (distinct : (Ext4Dir.names (blocks ++ [b])).Nodup) :
    DirHolds blockSize volume dir' (Function.update bread₁ pblock (some bh)) (blocks ++ [b]) := by
  have few := holds.few
  have length : (blocks ++ [b]).length = blocks.length + 1 := by simp
  have unequal {i : Nat} (below : i < blocks.length) : UInt32.ofNat i ≠ UInt32.ofNat blocks.length := fun same => by
    have := congrArg UInt32.toNat same
    rw [toNat_ofNat (by omega), toNat_ofNat few] at this
    omega
  refine ⟨holds.power, root, by rw [length, size], fun i below => ?_, fun b' beyond => ?_, fun b₁ b₂ nr found₁ found₂ => ?_,
    distinct, holds.numbers, fun nr => ?_⟩
  · by_cases old : i < blocks.length
    · obtain ⟨nr, bh', found, buffer, tiled'⟩ := holds.block i old
      refine ⟨nr, bh', by rw [others _ (unequal old), found], ?_, by rwa [List.getElem_append_left old]⟩
      rw [Function.update_of_ne, alloc.others _ _ found, buffer]
      rintro rfl
      exact alloc.fresh _ found
    · obtain rfl : i = blocks.length := by omega
      exact ⟨pblock, bh, here, Function.update_self .., by rwa [List.getElem_concat_length rfl]⟩
  · rw [length] at beyond
    rw [others, holds.unmapped _ (by omega)]
    rintro rfl
    rw [toNat_ofNat few] at beyond
    omega
  · by_cases last₁ : b₁ = UInt32.ofNat blocks.length
    · by_cases last₂ : b₂ = UInt32.ofNat blocks.length
      · rw [last₁, last₂]
      · rw [others _ last₂] at found₂
        rw [last₁, here] at found₁
        cases found₁
        exact absurd found₂ (alloc.fresh _)
    · rw [others _ last₁] at found₁
      by_cases last₂ : b₂ = UInt32.ofNat blocks.length
      · rw [last₂, here] at found₂
        cases found₂
        exact absurd found₁ (alloc.fresh _)
      · rw [others _ last₂] at found₂
        exact holds.apart _ _ _ found₁ found₂
  · by_cases same : nr = pblock
    · rw [same, Function.update_self]
      exact iff_of_true rfl alloc.inside
    · rw [Function.update_of_ne same, alloc.readable]

/-- **Insertion, name by name.** -/
theorem add_right_iff (holds : DirHolds blockSize volume dir bread blocks)
    (alloc : Allocates volume newBlock dir s bread s₁ bread₁ pblock) (type : UInt8) (short : name.length ≤ 255)
    (used : ino ≠ 0)
    (recorded : (ext4SetBlock blockSize dir (UInt32.ofNat blocks.length) pblock).2 = .ok ())
    (absent : LooksUp blockSize dir bread name none) :
    AddRight blockSize volume newBlock dir s bread name ino type ↔
      (∃ b ∈ blocks, HasRoom name.length b) ∨
        dir.iSize.toNat < 2 ^ 32 ∧ Recordable dir.iData (UInt32.ofNat blocks.length) pblock := by
  have few := holds.few
  have large := holds.large
  have live : ino.toNat ≠ 0 := fun zero => used (UInt32.toNat_inj.1 zero)
  have missing : latin name ∉ Ext4Dir.names blocks := binding_none.1 ((looksUp_none_iff holds name).1 absent)
  have room (i : Nat) (inside : i < blocks.length) :
      HasRoom name.length blocks[i] ↔ insertIn (latin name) ino.toNat type true blocks[i] ≠ none := by
    obtain ⟨nr, bh, -, -, tiled⟩ := holds.block i inside
    exact hasRoom_iff tiled short
  by_cases fits : ∃ j, ∃ inside : j < blocks.length, insertIn (latin name) ino.toNat type true blocks[j] ≠ none
  · obtain ⟨inside, found⟩ := Nat.find_spec fits
    obtain ⟨b, done⟩ := Option.ne_none_iff_exists'.1 found
    have earlier : ∀ i < Nat.find fits, (inside : i < blocks.length) →
        insertIn (latin name) ino.toNat type true blocks[i] = none :=
      fun i less inside => not_not.1 fun some_ => Nat.find_min fits less ⟨inside, some_⟩
    generalize Nat.find fits = j at *
    obtain ⟨nr, bh, place, tiled, returns⟩ := add_found holds type short inside done earlier
    have added : (entries (blocks.set j b)).Perm ((latin name, ino.toNat) :: entries blocks) := by
      rw [entries_set inside, entries_split inside]
      exact (((insertIn_entries live done).append_left _).append_right _).trans
        (List.perm_middle.append_right _)
    have kept := holds.set inside place tiled (names_added holds.names missing added)
    exact iff_of_true ⟨_, _, _, _, (add_iff returns _).2 rfl, kept, looks_added holds kept added⟩
      (.inl ⟨_, List.getElem_mem inside, (room j inside).2 found⟩)
  · have none_ : ∀ i, (inside : i < blocks.length) → insertIn (latin name) ino.toNat type true blocks[i] = none :=
      fun i inside => not_not.1 fun some_ => fits ⟨i, inside, some_⟩
    have returns := add_full holds type short none_
    have noRoom : ¬ ∃ b ∈ blocks, HasRoom name.length b := by
      rintro ⟨b, member, has⟩
      obtain ⟨i, inside, rfl⟩ := List.getElem_of_mem member
      exact (room i inside).1 has (none_ i inside)
    rw [or_iff_right noRoom, holds.size]
    by_cases wraps : blocks.length * blockSize.toNat < 2 ^ 32
    · rw [and_iff_right wraps]
      rw [if_pos wraps] at returns
      obtain ⟨dir₁, set⟩ : ∃ dir₁, ext4SetBlock blockSize dir (UInt32.ofNat blocks.length) pblock = (dir₁, .ok ()) :=
        ⟨_, Prod.ext rfl recorded⟩
      obtain ⟨dir', bh, run, data, size, tiled⟩ := added_block holds alloc ino type short set
      have ends := (add_iff returns _).2 run
      have unmapped := holds.unmapped (UInt32.ofNat blocks.length) (by rw [toNat_ofNat few])
      have get (b : UInt32) : ext4GetBlock dir' b = ext4GetBlock dir₁ b := by rw [ext4GetBlock, data, ext4GetBlock]
      have less : blocks.length * 1024 ≤ blocks.length * blockSize.toNat := Nat.mul_le_mul_left _ large.1
      constructor
      · rintro ⟨dir'', s'', bread'', blocks'', ends', holds'', -⟩
        have same := (add_iff returns _).1 ends'
        obtain ⟨rfl, rest⟩ := Prod.mk.inj (Prod.mk.inj (Except.ok.inj (same.symm.trans run))).1
        obtain ⟨rfl, rfl⟩ := Prod.mk.inj rest
        by_contra lost
        have length : blocks''.length = blocks.length + 1 :=
          Nat.eq_of_mul_eq_mul_right (by omega : 0 < blockSize.toNat) (holds''.size.symm.trans size)
        obtain ⟨nr, bh', found, buffer, -⟩ := holds''.block blocks.length (by omega)
        rw [get] at found
        have beyond := misplaced_ge holds.root unmapped (by rw [toNat_ofNat few]; omega)
          (Nat.lt_of_lt_of_le alloc.inside holds.numbers) set lost found
        have inside := (holds''.readable nr).1 (Option.isSome_iff_exists.2 ⟨_, buffer⟩)
        have numbers := holds.numbers
        omega
      · intro recordable
        obtain ⟨here, others⟩ := (recorded_iff holds.root unmapped set).2 recordable
        have added : (entries (blocks ++ [[⟨ino.toNat, blockSize.toUInt16, latin name, type⟩]])).Perm
            ((latin name, ino.toNat) :: entries blocks) := by
          have last : entries (blocks ++ [[⟨ino.toNat, blockSize.toUInt16, latin name, type⟩]]) =
              entries blocks ++ [(latin name, ino.toNat)] := by
            simp [entries, live]
          rw [last]
          exact List.perm_append_comm
        have kept := holds.extend alloc (data ▸ setBlock_keeps_root holds.root set) size ((get _).trans here)
          (fun b other => (get b).trans (others b other)) tiled (names_added holds.names missing added)
        exact ⟨dir', _, _, _, ends, kept, looks_added holds kept added⟩
    · rw [if_neg wraps] at returns
      refine iff_of_false ?_ fun both => wraps both.1
      rintro ⟨dir', s', bread', blocks', ends, -⟩
      cases (add_iff returns _).1 ends

/-- **A directory is a map from names to inodes.**  An insertion binds the name if a block has
room for the entry, or if the end of the directory is seen and the number of its new block
survives the extent record; a deletion takes the binding away, and misses a name that is not
there if the end is seen. -/
theorem dir_map_iff (holds : DirHolds blockSize volume dir bread blocks)
    (alloc : Allocates volume newBlock dir s bread s₁ bread₁ pblock)
    (recorded : (ext4SetBlock blockSize dir (UInt32.ofNat blocks.length) pblock).2 = .ok ())
    (short : name.length ≤ 255) (used : ino ≠ 0) :
    (LooksUp blockSize dir bread name none →
        (AddRight blockSize volume newBlock dir s bread name ino type ↔
          (∃ b ∈ blocks, HasRoom name.length b) ∨
            dir.iSize.toNat < 2 ^ 32 ∧ Recordable dir.iData (UInt32.ofNat blocks.length) pblock)) ∧
      (DeleteRight blockSize volume dir bread name ↔
        (LooksUp blockSize dir bread name none → dir.iSize.toNat < 2 ^ 32)) :=
  ⟨add_right_iff holds alloc type short used recorded, delete_right_iff holds name⟩

end Change

/-! ### A full block -/

/-- `"."`, `".."` and an unused record up to the end. -/
def fullBlock : Block := [⟨12, 12, ['.'], 2⟩, ⟨2, 12, ['.', '.'], 2⟩, ⟨0, 1000, [], 0⟩]

def fullBytes : Bytes := fun x =>
  [12, 0, 0, 0, 12, 0, 1, 2, 46, 0, 0, 0, 2, 0, 0, 0, 12, 0, 2, 2, 46, 46, 0, 0, 0, 0, 0, 0, 0xE8, 3].getD x 0

/-- A directory with this block, block 100 of the volume. -/
def fullDir : Inode := { (ext4SetBlock 1024 createdInode 0 100).1 with iSize := 1024 }

def fullVolume (nr : UInt64) : Option Bytes := if nr < 70000 then some fullBytes else none

theorem fullBlock_tiled : TiledFrom fullBytes 1024 0 fullBlock :=
  ⟨⟨by decide, by decide, fun _ => by decide, fun _ => by decide, fun _ => by decide⟩,
    ⟨by decide, by decide, fun _ => by decide⟩,
    ⟨by decide, by decide, fun _ => by decide, fun _ => by decide, fun _ => by decide⟩,
    ⟨by decide, by decide, fun _ => by decide⟩,
    ⟨by decide, by decide, fun live => absurd rfl live, fun live => absurd rfl live, fun live => absurd rfl live⟩,
    ⟨by decide, by decide, fun live => absurd rfl live⟩, rfl⟩

theorem fullDir_get (b : UInt32) : ext4GetBlock fullDir b = if b = 0 then .ok 100 else .error .enospc := by
  have nothing (b : UInt32) : ext4GetBlock createdInode b = .error .enospc := rfl
  have set : ext4SetBlock 1024 createdInode 0 100 = ((ext4SetBlock 1024 createdInode 0 100).1, .ok ()) :=
    Prod.ext rfl (by decide)
  obtain ⟨here, others⟩ := (recorded_iff createdInode_root (nothing 0) set).2 (by decide)
  split
  · rename_i first
    rw [first]
    exact here
  · rename_i later
    exact (others b later).trans (nothing b)

theorem fullDir_holds : DirHolds 1024 70000 fullDir fullVolume [fullBlock] where
  power := ⟨0, by decide, rfl⟩
  root := ⟨by decide, by decide, by decide, by decide⟩
  size := rfl
  block := by
    intro i inside
    obtain rfl : i = 0 := Nat.lt_one_iff.1 inside
    exact ⟨100, fullBytes, (fullDir_get 0).trans (if_pos rfl), rfl, fullBlock_tiled⟩
  unmapped := by
    intro b beyond
    rw [fullDir_get, if_neg]
    rintro rfl
    exact absurd beyond (by decide)
  apart := by
    intro b b' nr found found'
    rw [fullDir_get] at found found'
    split at found
    · split at found'
      · simp_all
      · cases found'
    · cases found
  names := by decide
  numbers := by decide
  readable := by
    intro nr
    rw [fullVolume, ← show (70000 : UInt64).toNat = 70000 from rfl, ← UInt64.lt_iff_toNat_lt]
    split <;> simp_all

/-- The call that answers with this block. -/
def giving (pblock : UInt64) : NewBlock Unit := fun _ bread => .ok (((), bread), .ok pblock)

theorem giving_allocates (pblock : UInt64) (inside : pblock.toNat < 70000) (other : pblock ≠ 100) :
    Allocates 70000 (giving pblock) fullDir () fullVolume () fullVolume pblock where
  answer := rfl
  inside := inside
  fresh := by
    intro b found
    rw [fullDir_get] at found
    split at found
    · exact other (Except.ok.inj found).symm
    · cases found
  others := fun _ _ _ => rfl
  readable := fullDir_holds.readable

theorem fullDir_absent : LooksUp 1024 fullDir fullVolume [97] none :=
  (looksUp_none_iff fullDir_holds [97]).2 (by decide)

theorem dir_map_full :
    (LooksUp 1024 fullDir fullVolume [97] none →
        (AddRight 1024 70000 (giving 101) fullDir () fullVolume [97] 13 1 ↔
          (∃ b ∈ [fullBlock], HasRoom 1 b) ∨
            fullDir.iSize.toNat < 2 ^ 32 ∧ Recordable fullDir.iData (UInt32.ofNat 1) 101)) ∧
      (DeleteRight 1024 70000 fullDir fullVolume [97] ↔
        (LooksUp 1024 fullDir fullVolume [97] none → fullDir.iSize.toNat < 2 ^ 32)) :=
  dir_map_iff fullDir_holds (giving_allocates 101 (by decide) (by decide)) (by decide) (by decide) (by decide)

/-- **With block 65536 for its entry a name is not found again.** -/
theorem new_block_misplaced :
    DirHolds 1024 70000 fullDir fullVolume [fullBlock] ∧
      Allocates 70000 (giving 65536) fullDir () fullVolume () fullVolume 65536 ∧
      (ext4SetBlock 1024 fullDir (UInt32.ofNat 1) 65536).2 = .ok () ∧
      LooksUp 1024 fullDir fullVolume [97] none ∧
      ¬ AddRight 1024 70000 (giving 65536) fullDir () fullVolume [97] 13 1 := by
  have alloc := giving_allocates 65536 (by decide) (by decide)
  have recorded : (ext4SetBlock 1024 fullDir (UInt32.ofNat [fullBlock].length) 65536).2 = .ok () := by decide
  refine ⟨fullDir_holds, alloc, recorded, fullDir_absent, fun right => ?_⟩
  rcases (add_right_iff fullDir_holds alloc 1 (by decide) (by decide) recorded fullDir_absent).1 right with
    ⟨b, member, room⟩ | ⟨-, recordable⟩
  · obtain rfl := List.mem_singleton.1 member
    rcases room with ⟨de, rest, first, unused, -⟩ | ⟨de, member, live, room⟩
    · cases first
      cases unused
    · simp only [fullBlock, List.mem_cons, List.not_mem_nil, or_false] at member
      rcases member with rfl | rfl | rfl
      · exact absurd room (by decide)
      · exact absurd room (by decide)
      · exact live rfl
  · exact absurd recordable (by decide)

end Minus.Fs.Ext4Bytes
