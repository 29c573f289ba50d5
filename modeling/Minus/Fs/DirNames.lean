/-
# Fs.DirNames — the names in the directories of a volume

`ext4_add_entry` does not look whether the name is there, and no caller does it for
`mkdir`; `split_last_component` hands an empty name, `.` and `..` on as they are.  What
the calls have to avoid for the names to stay distinct is `Clean`: in a run of clean calls
every directory of the tree keeps distinct, non-empty names with `.` and `..` among them
(`names_kept`).

The invariant `Named` adds to the counts of `Fs.InodeCount` that the inodes in memory
agree with the volume (`Agrees`), and that a dentry for `.` or `..` has a directory, so
that `unlink` refuses it.
-/
import Minus.Fs.InodeCount

namespace Minus.Fs.Namei

set_option autoImplicit false

open Minus.Theory
open Minus.Fs.Dcache (Id Name Errno Fault Cache Dentry Vfsmount splitLastComponent)
open Minus.Fs.Ext4Dir (Directory entries names makeEmpty dot dotdot)

/-! ## The volume -/

def IsDots (name : Name) : Prop := name = dot ∨ name = dotdot

instance : DecidablePred IsDots := fun name => inferInstanceAs (Decidable (name = dot ∨ name = dotdot))

structure Distinct (l : List Name) : Prop where
  nodup : l.Nodup
  nonempty : [] ∉ l

def HasDots (l : List Name) : Prop := dot ∈ l ∧ dotdot ∈ l

/-- The inode is in the tree: it is the root, or a directory has a name for it. -/
def Disk.Linked (disk : Disk) (ino : Nat) : Prop :=
  ino = ext4RootIno ∨
    ∃ dir, disk.isDir dir = true ∧ ∃ e ∈ entries (disk.dirs dir), e.2 = ino ∧ ¬ IsDots e.1

/-- A directory tree: what is named is allocated, `.` and `..` are directories, and the
names are as they should be. -/
structure Image (disk : Disk) : Prop where
  zero : 0 ∉ disk.bitmap
  used : ∀ ino, disk.isDir ino = true → ino ∈ disk.bitmap
  root : disk.isDir ext4RootIno = true
  links : ∀ dir, disk.isDir dir = true → ∀ e ∈ entries (disk.dirs dir),
    e.2 ∈ disk.bitmap ∧ (IsDots e.1 → disk.isDir e.2 = true)
  distinct : ∀ dir, disk.isDir dir = true → Distinct (names (disk.dirs dir))
  dots : ∀ dir, disk.isDir dir = true → disk.Linked dir → HasDots (names (disk.dirs dir))

/-- The volume with other blocks for a directory. -/
def Disk.withDir (disk : Disk) (dir : Nat) (blocks : Directory) : Disk :=
  { disk with dirs := Function.update disk.dirs dir blocks }

section Image

variable {disk : Disk} {dir ino : Nat} {name : Name} {blocks : Directory}

@[simp] theorem Disk.withDir_self : (disk.withDir dir blocks).dirs dir = blocks :=
  Function.update_self ..

theorem Disk.withDir_other (other : ino ≠ dir) : (disk.withDir dir blocks).dirs ino = disk.dirs ino :=
  Function.update_of_ne other ..

/-- New blocks bring no other links than those they hold. -/
theorem Disk.withDir_linked (linked : (disk.withDir dir blocks).Linked ino) :
    disk.Linked ino ∨ ∃ e ∈ entries blocks, e.2 = ino ∧ ¬ IsDots e.1 := by
  rcases linked with root | ⟨other, isDir, e, member, link⟩
  · exact .inl (.inl root)
  · by_cases same : other = dir
    · subst same
      rw [Disk.withDir_self] at member
      exact .inr ⟨e, member, link⟩
    · rw [Disk.withDir_other same] at member
      exact .inl (.inr ⟨other, isDir, e, member, link⟩)

/-- One directory gets other blocks. -/
theorem Image.withDir (image : Image disk)
    (links : ∀ e ∈ entries blocks, e.2 ∈ disk.bitmap ∧ (IsDots e.1 → disk.isDir e.2 = true))
    (distinct : Distinct (names blocks))
    (linked : ∀ e ∈ entries blocks, ¬ IsDots e.1 → e.2 ≠ dir → disk.isDir e.2 = true →
      HasDots (names (disk.dirs e.2)))
    (dots : (disk.withDir dir blocks).Linked dir → HasDots (names blocks)) :
    Image (disk.withDir dir blocks) := by
  refine ⟨image.zero, image.used, image.root, ?_, ?_, ?_⟩
  · intro other isDir e member
    by_cases same : other = dir
    · subst same
      rw [Disk.withDir_self] at member
      exact links e member
    · rw [Disk.withDir_other same] at member
      exact image.links other isDir e member
  · intro other isDir
    by_cases same : other = dir
    · subst same
      rw [Disk.withDir_self]
      exact distinct
    · rw [Disk.withDir_other same]
      exact image.distinct other isDir
  · intro other isDir link
    by_cases same : other = dir
    · subst same
      rw [Disk.withDir_self]
      exact dots link
    · rw [Disk.withDir_other same]
      rcases Disk.withDir_linked link with before | ⟨e, member, rfl, named⟩
      · exact image.dots other isDir before
      · exact linked e member named same isDir

/-- A new name in a directory, for an inode that nothing names yet. -/
theorem Image.add (image : Image disk) (isDir : disk.isDir dir = true) (used : ino ∈ disk.bitmap)
    (apart : ino ≠ dir) (ready : disk.isDir ino = true → HasDots (names (disk.dirs ino)))
    (nonempty : name ≠ []) (plain : ¬ IsDots name) (new : name ∉ names (disk.dirs dir))
    (added : (entries blocks).Perm ((name, ino) :: entries (disk.dirs dir))) :
    Image (disk.withDir dir blocks) := by
  have perm : (names blocks).Perm (name :: names (disk.dirs dir)) := added.map Prod.fst
  have before := image.distinct dir isDir
  refine image.withDir ?_ ?_ ?_ ?_
  · intro e member
    rcases List.mem_cons.1 (added.mem_iff.1 member) with rfl | old
    · exact ⟨used, fun dots => absurd dots plain⟩
    · exact image.links dir isDir e old
  · refine ⟨perm.nodup_iff.2 (List.nodup_cons.2 ⟨new, before.nodup⟩), fun member => ?_⟩
    rcases List.mem_cons.1 (perm.mem_iff.1 member) with empty | old
    · exact nonempty empty.symm
    · exact before.nonempty old
  · intro e member named other isDir'
    rcases List.mem_cons.1 (added.mem_iff.1 member) with rfl | old
    · exact ready isDir'
    · exact image.dots e.2 isDir' (.inr ⟨dir, isDir, e, old, rfl, named⟩)
  · intro link
    have linked : disk.Linked dir := by
      rcases Disk.withDir_linked link with before | ⟨e, member, same, named⟩
      · exact before
      · rcases List.mem_cons.1 (added.mem_iff.1 member) with rfl | old
        · exact absurd same apart
        · exact .inr ⟨dir, isDir, e, old, same, named⟩
    have there := image.dots dir isDir linked
    exact ⟨perm.mem_iff.2 (List.mem_cons_of_mem _ there.1), perm.mem_iff.2 (List.mem_cons_of_mem _ there.2)⟩

/-- The names other than `name` stay when a pair with this name is erased. -/
theorem mem_names_eraseP {l : List (Name × Nat)} {other : Name} (member : other ∈ l.map Prod.fst)
    (different : other ≠ name) : other ∈ (l.eraseP (·.1 = name)).map Prod.fst := by
  obtain ⟨e, there, rfl⟩ := List.mem_map.1 member
  exact List.mem_map_of_mem ((List.mem_eraseP_of_neg (by simpa using different)).2 there)

/-- A name other than `.` and `..` goes. -/
theorem Image.erase (image : Image disk) (isDir : disk.isDir dir = true) (plain : ¬ IsDots name)
    (erased : entries blocks = (entries (disk.dirs dir)).eraseP (·.1 = name)) :
    Image (disk.withDir dir blocks) := by
  have sub : (entries blocks).Sublist (entries (disk.dirs dir)) := by
    rw [erased]
    exact List.eraseP_sublist
  have before := image.distinct dir isDir
  refine image.withDir ?_ ?_ ?_ ?_
  · intro e member
    exact image.links dir isDir e (sub.subset member)
  · exact ⟨before.nodup.sublist (sub.map _), fun member => before.nonempty ((sub.map _).subset member)⟩
  · intro e member named _ isDir'
    exact image.dots e.2 isDir' (.inr ⟨dir, isDir, e, sub.subset member, rfl, named⟩)
  · intro link
    have linked : disk.Linked dir := by
      rcases Disk.withDir_linked link with before | ⟨e, member, same, named⟩
      · exact before
      · exact .inr ⟨dir, isDir, e, sub.subset member, same, named⟩
    have there := image.dots dir isDir linked
    unfold HasDots names
    rw [erased]
    refine ⟨mem_names_eraseP there.1 fun same => plain (.inl same.symm),
      mem_names_eraseP there.2 fun same => plain (.inr same.symm)⟩

/-- A directory that is not in the tree loses its blocks. -/
theorem Image.truncate (image : Image disk) (gone : ¬ disk.Linked dir) : Image (disk.withDir dir []) := by
  refine image.withDir nofun ⟨List.nodup_nil, List.not_mem_nil⟩ nofun fun link => ?_
  rcases Disk.withDir_linked link with before | ⟨e, member, _⟩
  · exact absurd before gone
  · cases member

theorem entries_makeEmpty (blockSize : UInt16) {parent : Nat} (real : ino ≠ 0) (real' : parent ≠ 0) :
    entries (makeEmpty blockSize ino parent) = [(dot, ino), (dotdot, parent)] := by
  simp [makeEmpty, entries, Ext4Dir.blockEntries, Ext4Dir.DirEntry.pairs, real, real']

theorem makeEmpty_hasDots (blockSize : UInt16) {parent : Nat} (real : ino ≠ 0) (real' : parent ≠ 0) :
    HasDots (names (makeEmpty blockSize ino parent)) := by
  unfold HasDots names
  rw [entries_makeEmpty blockSize real real']
  exact ⟨List.mem_cons_self, List.mem_cons_of_mem _ List.mem_cons_self⟩

theorem Image.emptied (image : Image disk) (blockSize : UInt16) {parent : Nat}
    (isDir : disk.isDir ino = true) (isDir' : disk.isDir parent = true) :
    Image (disk.withDir ino (makeEmpty blockSize ino parent)) := by
  have used := image.used ino isDir
  have used' := image.used parent isDir'
  have all := entries_makeEmpty blockSize (ne_of_mem_of_not_mem used image.zero) (ne_of_mem_of_not_mem used' image.zero)
  refine image.withDir ?_ ?_ ?_ fun _ => ?_
  · rw [all]
    rintro e (_ | ⟨_, _ | ⟨_, ⟨⟩⟩⟩)
    · exact ⟨used, fun _ => isDir⟩
    · exact ⟨used', fun _ => isDir'⟩
  · unfold names
    rw [all]
    show Distinct [dot, dotdot]
    exact ⟨by decide, by decide⟩
  · rw [all]
    rintro e (_ | ⟨_, _ | ⟨_, ⟨⟩⟩⟩) plain
    · exact absurd (.inl rfl) plain
    · exact absurd (.inr rfl) plain
  · exact makeEmpty_hasDots blockSize (ne_of_mem_of_not_mem used image.zero) (ne_of_mem_of_not_mem used' image.zero)

/-- More numbers are in use. -/
theorem Image.withBitmap {bitmap : List Nat} (image : Image disk) (more : ∀ i ∈ disk.bitmap, i ∈ bitmap)
    (zero : 0 ∈ bitmap → 0 ∈ disk.bitmap) : Image { disk with bitmap := bitmap } where
  zero := fun here => image.zero (zero here)
  used := fun ino isDir => more ino (image.used ino isDir)
  root := image.root
  links := fun dir isDir e member => ⟨more e.2 (image.links dir isDir e member).1, (image.links dir isDir e member).2⟩
  distinct := image.distinct
  dots := image.dots

/-- A new inode, without blocks. -/
theorem Image.newInode {isDir : Bool} (image : Image disk) (real : ino ≠ 0) (free : ino ∉ disk.bitmap) :
    Image { disk with
      bitmap := ino :: disk.bitmap
      isDir := Function.update disk.isDir ino isDir
      dirs := Function.update disk.dirs ino [] } := by
  have old {e : Nat} (used : e ∈ disk.bitmap) : Function.update disk.isDir ino isDir e = disk.isDir e :=
    Function.update_of_ne (ne_of_mem_of_not_mem used free) ..
  have rest {dir : Nat} (other : dir ≠ ino) (now : Function.update disk.isDir ino isDir dir = true) :
      disk.isDir dir = true := by
    rwa [Function.update_of_ne other] at now
  refine ⟨?_, ?_, ?_, ?_, ?_, ?_⟩
  · intro here
    rcases List.mem_cons.1 here with zero | before
    · exact real zero.symm
    · exact image.zero before
  · intro dir now
    by_cases same : dir = ino
    · exact same ▸ List.mem_cons_self
    · exact List.mem_cons_of_mem _ (image.used dir (rest same now))
  · show Function.update disk.isDir ino isDir ext4RootIno = true
    rw [old (image.used _ image.root)]
    exact image.root
  · intro dir now e member
    change e ∈ entries (Function.update disk.dirs ino [] dir) at member
    by_cases same : dir = ino
    · subst same
      rw [Function.update_self] at member
      cases member
    · rw [Function.update_of_ne same] at member
      obtain ⟨used, dots⟩ := image.links dir (rest same now) e member
      refine ⟨List.mem_cons_of_mem _ used, fun named => ?_⟩
      show Function.update disk.isDir ino isDir e.2 = true
      rw [old used]
      exact dots named
  · intro dir now
    show Distinct (names (Function.update disk.dirs ino [] dir))
    by_cases same : dir = ino
    · subst same
      rw [Function.update_self]
      exact ⟨List.nodup_nil, List.not_mem_nil⟩
    · rw [Function.update_of_ne same]
      exact image.distinct dir (rest same now)
  · intro dir now link
    show HasDots (names (Function.update disk.dirs ino [] dir))
    have before : disk.Linked dir := by
      rcases link with root | ⟨up, upNow, e, member, named⟩
      · exact .inl root
      · change e ∈ entries (Function.update disk.dirs ino [] up) at member
        by_cases same : up = ino
        · subst same
          rw [Function.update_self] at member
          cases member
        · rw [Function.update_of_ne same] at member
          exact .inr ⟨up, rest same upNow, e, member, named⟩
    have used : dir ∈ disk.bitmap := by
      rcases before with rfl | ⟨up, upDir, e, member, rfl, _⟩
      · exact image.used _ image.root
      · exact (image.links up upDir e member).1
    have other := ne_of_mem_of_not_mem used free
    rw [Function.update_of_ne other]
    exact image.dots dir (rest other now) before

end Image

/-! ## The state -/

/-- An inode that has been read agrees with the volume. -/
def Agrees (disk : Disk) (inode : Inode) : Prop :=
  if inode.populated then inode.iNo ∈ disk.bitmap ∧ inode.isDir = disk.isDir inode.iNo else inode.isDir = false

/-- The volume is a tree, and the inodes and dentries in memory are right about it; the
inodes of `held` are directories that stay. -/
structure Named (held : List Nat) (s : FsState) : Prop where
  counted : Counted held s
  image : Image s.disk
  inodes : ∀ p ∈ s.inodes, Agrees s.disk (s.inode p)
  dots : ∀ d ∈ s.cache.live, IsDots (s.cache.dentries d).dName →
    ∀ p, refersTo s.cache p d = true → (s.inode p).isDir = true
  holds : ∀ p ∈ held, (s.inode p).isDir = true

section Named

variable {held : List Nat} {s : FsState} {env : Env} {p ino : Nat} {d : Id} {name : Name}

/-- An inode that is a directory in memory is one on the volume. -/
theorem Named.isDir (named : Named held s) (live : p ∈ s.inodes) (isDir : (s.inode p).isDir = true) :
    s.disk.isDir (s.inode p).iNo = true := by
  have agrees := named.inodes p live
  unfold Agrees at agrees
  split at agrees
  · exact agrees.2.symm.trans isDir
  · exact absurd (isDir.symm.trans agrees) nofun

theorem Named.congr {s' : FsState} (named : Named held s) (cache : s'.cache = s.cache) (inode : s'.inode = s.inode)
    (inodes : s'.inodes = s.inodes) (disk : s'.disk = s.disk) : Named held s' := by
  obtain ⟨counted, image, agrees, dots, holds⟩ := named
  refine ⟨counted.congr cache inode inodes, by rw [disk]; exact image, ?_, ?_, ?_⟩
  · rw [disk, inode, inodes]
    exact agrees
  · rw [cache, inode]
    exact dots
  · rw [inode]
    exact holds

theorem Named.clock (named : Named held s) (n : Nat) : Named held { s with clock := n } := named.congr rfl rfl rfl rfl

/-- The volume gets other blocks for a directory. -/
theorem Named.withDir {dir : Nat} {blocks : Directory} (named : Named held s) (image : Image (s.disk.withDir dir blocks))
    (n : Nat) : Named held { s with disk := s.disk.withDir dir blocks, clock := n } where
  counted := named.counted.congr rfl rfl rfl
  image := image
  inodes := named.inodes
  dots := named.dots
  holds := named.holds

/-- The inodes that are there change, but for what they are. -/
theorem Named.withInodes {inode : Nat → Inode} (named : Named held s) (counted : Counted held { s with inode := inode })
    (agrees : ∀ q ∈ s.inodes, Agrees s.disk (inode q))
    (isDir : ∀ q ∈ s.inodes, (s.inode q).isDir = true → (inode q).isDir = true) :
    Named held { s with inode := inode } where
  counted := counted
  image := named.image
  inodes := agrees
  dots := fun d live here p refers => isDir p (named.counted.known d live p refers) (named.dots d live here p refers)
  holds := fun p there => isDir p (named.counted.kept p there) (named.holds p there)

theorem Named.same {c : Cache} (named : Named held s) (same : SameDentries s.cache c) :
    Named held { s with cache := c } := by
  refine ⟨named.counted.same same, named.image, named.inodes, ?_, named.holds⟩
  intro d live here p refers
  rw [same.live] at live
  rw [same.name] at here
  rw [refersTo, same.inode] at refers
  exact named.dots d live here p refers

theorem Named.added {c : Cache} (named : Named held s) (added : Added d name s.cache c) :
    Named held { s with cache := c } := by
  refine ⟨named.counted.added added, named.image, named.inodes, ?_, named.holds⟩
  intro x live here p refers
  rw [added.live] at live
  rcases List.mem_cons.1 live with rfl | before
  · rw [refersTo, added.inode] at refers
    cases refers
  · have other := ne_of_mem_of_not_mem before added.fresh
    rw [added.other x other] at here
    rw [refersTo, added.other x other] at refers
    exact named.dots x before here p refers

theorem Named.dropped {c : Cache} (named : Named held s) (dropped : Dropped d s.cache c) :
    Named held { s with cache := c } := by
  refine ⟨named.counted.dropped dropped, named.image, named.inodes, ?_, named.holds⟩
  intro x live here p refers
  rw [dropped.live] at live
  obtain ⟨other, before⟩ := named.counted.nodup.mem_erase_iff.1 live
  rw [dropped.other x other] at here
  rw [refersTo, dropped.other x other] at refers
  exact named.dots x before here p refers

theorem Named.put {s' : FsState} (named : Named held s) (spare : Spare held p s) (put : Put p s s') : Named held s' := by
  have counted := named.counted.put spare put
  cases put with
  | kept more =>
      refine named.withInodes counted ?_ ?_
      · intro q live
        by_cases same : q = p
        · subst same
          rw [Function.update_self]
          exact named.inodes q live
        · rw [Function.update_of_ne same]
          exact named.inodes q live
      · intro q live isDir
        by_cases same : q = p
        · subst same
          rw [Function.update_self]
          exact isDir
        · rw [Function.update_of_ne same]
          exact isDir
  | freed last inode n =>
      refine ⟨counted, named.image, ?_, ?_, ?_⟩
      · intro q live
        obtain ⟨other, there⟩ := named.counted.inodes.mem_erase_iff.1 live
        show Agrees s.disk (Function.update s.inode p inode q)
        rw [Function.update_of_ne other]
        exact named.inodes q there
      · intro x live here q refers
        have other : q ≠ p := fun same =>
          (named.counted.inodes.mem_erase_iff.1 (counted.known x live q refers)).1 same
        show (Function.update s.inode p inode q).isDir = true
        rw [Function.update_of_ne other]
        exact named.dots x live here q refers
      · intro q there
        have other : q ≠ p := (named.counted.inodes.mem_erase_iff.1 (counted.kept q there)).1
        show (Function.update s.inode p inode q).isDir = true
        rw [Function.update_of_ne other]
        exact named.holds q there

theorem dput_named (env : Env) (d : Id) : Keeps (Named held) (dput env d) := by
  intro s named
  refine dput_leaves.mono ?_ fun _ _ => trivial
  rintro ⟨_, s'⟩ out
  change PutDentry d s s' at out
  cases out with
  | counted c same => exact named.same same
  | blank c dropped none => exact named.dropped dropped
  | freed c dropped i had live put => exact (named.dropped dropped).put (named.counted.spare dropped had live) put

/-- `ext4_iget` of a number that is in use. -/
theorem Named.loaded {ret : Option Nat} {s' : FsState} (named : Named held s) (used : ino ∈ s.disk.bitmap)
    (loaded : Loaded ino s ret s') : Named held s' := by
  have counted := named.counted.loaded loaded
  cases loaded with
  | none inode same n =>
      refine Named.congr (s := { s with inode := inode }) (named.withInodes (counted.congr rfl rfl rfl) ?_ ?_)
        rfl rfl rfl rfl
      · intro q live
        rw [same q live]
        exact named.inodes q live
      · intro q live isDir
        rw [same q live]
        exact isDir
  | found p inTree live number isDir mode n =>
      refine Named.congr (s := { s with inode := _ }) (named.withInodes (counted.congr rfl rfl rfl) ?_ ?_)
        rfl rfl rfl rfl
      · intro q there
        by_cases same : q = p
        · subst same
          rw [Function.update_self]
          refine ⟨number ▸ used, ?_⟩
          have agrees := named.inodes q live
          unfold Agrees at agrees
          rw [mode, number]
          split
          · rename_i ready
            rw [if_pos ready, number] at agrees
            exact agrees.2
          · rfl
        · rw [Function.update_of_ne same]
          exact named.inodes q there
      · intro q there before
        by_cases same : q = p
        · subst same
          have agrees := named.inodes q live
          unfold Agrees at agrees
          have ready : (s.inode q).populated = true := by
            by_contra unread
            rw [if_neg unread] at agrees
            exact absurd (before.symm.trans agrees) nofun
          rw [Function.update_self, mode, if_pos ready]
          exact before
        · rw [Function.update_of_ne same]
          exact before
  | made p fresh n =>
      refine ⟨counted, named.image, ?_, ?_, ?_⟩
      · intro q live
        show Agrees s.disk (Function.update s.inode p _ q)
        rcases List.mem_cons.1 live with rfl | before
        · rw [Function.update_self]
          exact ⟨used, rfl⟩
        · rw [Function.update_of_ne (ne_of_mem_of_not_mem before fresh)]
          exact named.inodes q before
      · intro x live here q refers
        have there := named.counted.known x live q refers
        show (Function.update s.inode p _ q).isDir = true
        rw [Function.update_of_ne (ne_of_mem_of_not_mem there fresh)]
        exact named.dots x live here q refers
      · intro q there
        show (Function.update s.inode p _ q).isDir = true
        rw [Function.update_of_ne (ne_of_mem_of_not_mem (named.counted.kept q there) fresh)]
        exact named.holds q there

/-- What `ext4_iget` gives is a directory if the volume says so. -/
theorem Loaded.isDir {s' : FsState} (named : Named held s) (loaded : Loaded ino s (some p) s')
    (isDir : s.disk.isDir ino = true) : (s'.inode p).isDir = true := by
  cases loaded with
  | found _ inTree live number isDir' mode n =>
      have agrees := named.inodes p live
      unfold Agrees at agrees
      show (Function.update s.inode p _ p).isDir = true
      rw [Function.update_self, mode]
      dsimp only
      split
      · rename_i ready
        rw [if_pos ready, number] at agrees
        exact agrees.2.trans isDir
      · exact isDir
  | made _ fresh n =>
      show (Function.update s.inode p _ p).isDir = true
      rw [Function.update_self]
      exact isDir

theorem Named.instantiate (named : Named held s) (blank : Blank d name s) (live : p ∈ s.inodes)
    (isDir : IsDots name → (s.inode p).isDir = true) : Named held (s.instantiate d p) := by
  have kept (q : Nat) : ((s.instantiate d p).inode q).isDir = (s.inode q).isDir := by
    show (Function.update s.inode p _ q).isDir = _
    by_cases same : q = p
    · subst same
      rw [Function.update_self]
    · rw [Function.update_of_ne same]
  refine ⟨named.counted.instantiate blank live, named.image, ?_, ?_, fun q there => ?_⟩
  · intro q there
    show Agrees s.disk (Function.update s.inode p _ q)
    by_cases same : q = p
    · subst same
      rw [Function.update_self]
      exact named.inodes q there
    · rw [Function.update_of_ne same]
      exact named.inodes q there
  · intro x there here q refers
    rw [kept]
    by_cases same : x = d
    · subst same
      have its : p = q := by
        change ((Function.update s.cache.dentries x _ x).dInode.any _) = true at refers
        rw [Function.update_self] at refers
        simpa using refers
      subst its
      apply isDir
      change IsDots (Function.update s.cache.dentries x _ x).dName at here
      rw [Function.update_self] at here
      dsimp only at here
      rwa [blank.2.2] at here
    · change ((Function.update s.cache.dentries d _ x).dInode.any _) = true at refers
      rw [Function.update_of_ne same] at refers
      change IsDots (Function.update s.cache.dentries d _ x).dName at here
      rw [Function.update_of_ne same] at here
      exact named.dots x there here q refers
  · rw [kept]
    exact named.holds q there

theorem ext4Lookup_named (env : Env) (dir : Nat) (d : Id) (name : Name) :
    Triple (fun s => (Named held s ∧ Blank d name s) ∧ (s.inode dir).isDir = true ∧ dir ∈ s.inodes)
      (ext4Lookup env dir d name) fun _ => Named held := by
  rintro s ⟨⟨named, blank⟩, isDir, live⟩
  refine (ext4Lookup_leaves named.counted.positive).mono ?_ fun _ _ => trivial
  have links := named.image.links _ (named.isDir live isDir)
  rintro ⟨_, s'⟩ (⟨n, ino, s₁, entry, loaded, rfl⟩ | ⟨n, rfl⟩ | ⟨n, ino, p, s₁, entry, loaded, _, there, rfl⟩)
  · exact (named.clock n).loaded (links _ entry).1 loaded
  · exact named.clock n
  · have named₀ := named.clock n
    have blank₁ : Blank d name s₁ := by
      cases loaded with
      | found => exact blank
      | made => exact blank
    exact (named₀.loaded (links _ entry).1 loaded).instantiate blank₁ there
      fun dots => loaded.isDir named₀ ((links _ entry).2 dots)

theorem named_walkable (env : Env) (held : List Nat) : Walkable env (Named held) where
  clock _ n named := named.clock n
  files _ _ named := named.congr rfl rfl rfl rfl
  same _ _ named same := named.same same
  added _ _ _ _ named added := named.added added
  put d := dput_named env d
  lookup dir d name := ext4Lookup_named env dir d name

/-! ## The operations of ext4 -/

theorem Agrees.congr {disk disk' : Disk} {inode : Inode} (agrees : Agrees disk inode)
    (more : ∀ i ∈ disk.bitmap, i ∈ disk'.bitmap) (same : ∀ i ∈ disk.bitmap, disk'.isDir i = disk.isDir i) :
    Agrees disk' inode := by
  unfold Agrees at agrees ⊢
  split at agrees
  · rename_i ready
    rw [if_pos ready]
    exact ⟨more _ agrees.1, agrees.2.trans (same _ agrees.1).symm⟩
  · rename_i unread
    rw [if_neg unread]
    exact agrees

/-- The name can go into the directory. -/
structure Into (dir : Nat) (name : Name) (s : FsState) : Prop where
  live : dir ∈ s.inodes
  isDir : (s.inode dir).isDir = true
  nonempty : name ≠ []
  plain : ¬ IsDots name
  new : name ∉ names (s.disk.dirs (s.inode dir).iNo)

/-- A new inode on its way into a directory. -/
structure Making (held : List Nat) (d : Id) (dir : Nat) (name : Name) (isDir : Bool) (p ino : Nat) (s : FsState) : Prop where
  named : Named held s
  pending : Pending held d name p s
  into : Into dir name s
  mode : s.disk.isDir ino = isDir
  used : ino ∈ s.disk.bitmap
  apart : ino ≠ (s.inode dir).iNo

/-- A new inode that is in its directory, or that will not be. -/
structure Placed (held : List Nat) (d : Id) (name : Name) (p : Nat) (s : FsState) : Prop where
  named : Named held s
  pending : Pending held d name p s
  plain : ¬ IsDots name

variable {dir : Nat} {isDir : Bool}

theorem Making.placed (making : Making held d dir name isDir p ino s) : Placed held d name p s :=
  ⟨making.named, making.pending, making.into.plain⟩

theorem ext4NewInode_making (env : Env) (isDir : Bool) :
    Triple (fun s => (Named held s ∧ Blank d name s) ∧ Into dir name s) (ext4NewInode env isDir)
      fun ret s => match ret with
        | .error _ => Named held s
        | .ok (p, ino) => Making held d dir name isDir p ino s := by
  rintro s ⟨⟨named, blank⟩, into⟩
  have both := (ext4NewInode_pending env isDir s ⟨named.counted, blank⟩).and
    (ext4NewInode_leaves (s := s) env isDir)
  refine both.mono ?_ fun _ _ => trivial
  rintro ⟨ret, s'⟩ ⟨pending, out⟩
  change NewInode isDir s ret s' at out
  have known := named.counted.known
  cases out with
  | failed e inode same tree sub bitmap more zero n =>
      refine ⟨pending, named.image.withBitmap more zero, ?_, ?_, fun q there => ?_⟩
      · intro q live
        show Agrees { s.disk with bitmap := bitmap } (inode q)
        rw [same q live]
        exact (named.inodes q live).congr more fun _ _ => rfl
      · intro x live here q refers
        show (inode q).isDir = true
        rw [same q (known x live q refers)]
        exact named.dots x live here q refers
      · show (inode q).isDir = true
        rw [same q (named.counted.kept q there)]
        exact named.holds q there
  | made p ino fresh real free n =>
      have old (q : Nat) (live : q ∈ s.inodes) :
          Function.update s.inode p ⟨ino, 1, false, true, isDir⟩ q = s.inode q :=
        Function.update_of_ne (ne_of_mem_of_not_mem live fresh) ..
      have used : (s.inode dir).iNo ∈ s.disk.bitmap := named.image.used _ (named.isDir into.live into.isDir)
      have apart : (s.inode dir).iNo ≠ ino := ne_of_mem_of_not_mem used free
      have new : Named held _ := ⟨pending.counted, named.image.newInode real free, ?_, ?_, fun q there => ?_⟩
      · refine ⟨new, pending, ⟨List.mem_cons_of_mem _ into.live, ?_, into.nonempty, into.plain, ?_⟩, ?_,
          List.mem_cons_self, ?_⟩
        · show (Function.update s.inode p _ dir).isDir = true
          rw [old dir into.live]
          exact into.isDir
        · show name ∉ names (Function.update s.disk.dirs ino [] (Function.update s.inode p _ dir).iNo)
          rw [old dir into.live, Function.update_of_ne apart]
          exact into.new
        · exact Function.update_self ..
        · show ino ≠ (Function.update s.inode p _ dir).iNo
          rw [old dir into.live]
          exact apart.symm
      · intro q live
        show Agrees _ (Function.update s.inode p _ q)
        rcases List.mem_cons.1 live with rfl | before
        · rw [Function.update_self]
          refine ⟨List.mem_cons_self, ?_⟩
          show isDir = Function.update s.disk.isDir ino isDir ino
          rw [Function.update_self]
        · rw [old q before]
          refine (named.inodes q before).congr (fun _ here => List.mem_cons_of_mem _ here) fun i here => ?_
          exact Function.update_of_ne (ne_of_mem_of_not_mem here free) ..
      · intro x live here q refers
        show (Function.update s.inode p _ q).isDir = true
        rw [old q (known x live q refers)]
        exact named.dots x live here q refers
      · show (Function.update s.inode p _ q).isDir = true
        rw [old q (named.counted.kept q there)]
        exact named.holds q there

/-- The blocks of one directory change. -/
theorem Placed.withDir {blocks : Directory} (placed : Placed held d name p s)
    (image : Image (s.disk.withDir ino blocks)) (n : Nat) :
    Placed held d name p { s with disk := s.disk.withDir ino blocks, clock := n } :=
  ⟨placed.named.withDir image n, placed.pending.congr rfl rfl rfl, placed.plain⟩

/-- **A new name goes into the directory**, or an error leaves it as it was. -/
theorem ext4AddEntry_placed (env : Env) (type : UInt8) :
    Triple (fun s => Making held d dir name isDir p ino s ∧ (isDir = true → HasDots (names (s.disk.dirs ino))))
      (ext4AddEntry env dir name ino type) fun _ => Placed held d name p := by
  rintro s ⟨making, ready⟩
  refine inodeAt_ends fun _ => ?_
  rw [bind_apply]
  simp only [tick, ok_bind]
  split
  · refine ⟨making.named.clock _, making.pending.congr rfl rfl rfl, making.into.plain⟩
  · rename_i blocks added
    have used := making.used
    have into := making.into
    refine making.placed.withDir ?_ _
    refine making.named.image.add (making.named.isDir into.live into.isDir) used making.apart
      (fun mode => ready (making.mode.symm.trans mode)) into.nonempty into.plain into.new ?_
    exact Ext4Dir.addEntry_entries (ne_of_mem_of_not_mem used making.named.image.zero) added

theorem markInodeDirty_leaves (q : Nat) :
    Ends (fun r => ∃ inode : Nat → Inode, (∀ x, inode x = { s.inode x with iDirty := (inode x).iDirty }) ∧
      r.2 = { s with inode := inode }) (fun _ => True) (markInodeDirty q s) := by
  refine inodeAt_ends fun _ => ⟨_, fun x => ?_, rfl⟩
  by_cases same : x = q
  · subst same
    rw [Function.update_self]
  · rw [Function.update_of_ne same]

theorem markInodeDirty_named (q : Nat) : Keeps (Named held) (markInodeDirty q) := by
  intro s named
  refine ((markInodeDirty_counted q s named.counted).and (markInodeDirty_leaves q)).mono ?_ fun _ _ => trivial
  rintro ⟨_, s'⟩ ⟨counted, inode, same, rfl⟩
  refine named.withInodes counted (fun x live => ?_) fun x live isDir => ?_
  · rw [same x]
    exact named.inodes x live
  · rw [same x]
    exact isDir

theorem markInodeDirty_placed (q : Nat) : Keeps (Placed held d name p) (markInodeDirty q) := by
  intro s placed
  exact ((markInodeDirty_named q s placed.named).and (markInodeDirty_pending q s placed.pending)).mono
    (fun r both => ⟨both.1, both.2, placed.plain⟩) fun _ _ => trivial

theorem iput_placed (env : Env) : Triple (Placed held d name p) (iput env p) fun _ => Named held := by
  intro s placed
  have pending := placed.pending
  refine iput_put.mono (fun r both => ?_) fun _ _ => trivial
  exact placed.named.put (.inr ⟨pending.one, pending.unreferred, pending.new⟩) both.2

theorem dInstantiate_placed : Triple (Placed held d name p) (dInstantiate d p) fun _ => Named held := by
  intro s placed
  refine dInstantiate_leaves.mono ?_ fun _ _ => trivial
  rintro ⟨_, s'⟩ ⟨_, live, rfl⟩
  exact placed.named.instantiate placed.pending.blank live fun dots => absurd dots placed.plain

theorem ext4Create_named (env : Env) :
    Triple (fun s => (Named held s ∧ Blank d name s) ∧ Into dir name s) (ext4Create env dir d name) fun _ => Named held := by
  refine Triple.bind (ext4NewInode_making env false) fun ret => ?_
  rcases ret with e | ⟨p, ino⟩
  · exact Keeps.pure _
  · refine Triple.bind ((ext4AddEntry_placed env _).pre fun s making => ⟨making, nofun⟩) fun ret => ?_
    rcases ret with e | _
    · exact Triple.bind (iput_placed env) fun _ => Keeps.pure _
    · exact Triple.bind (markInodeDirty_placed p) fun _ =>
        Triple.bind dInstantiate_placed fun _ => Keeps.pure _

theorem markInodeDirty_making (q : Nat) :
    Keeps (fun s => Making held d dir name isDir p ino s ∧ HasDots (names (s.disk.dirs ino))) (markInodeDirty q) := by
  rintro s ⟨making, ready⟩
  refine ((markInodeDirty_placed q s making.placed).and (markInodeDirty_leaves q)).mono ?_ fun _ _ => trivial
  rintro ⟨_, s'⟩ ⟨placed, inode, same, rfl⟩
  have into := making.into
  refine ⟨⟨placed.named, placed.pending, ⟨into.live, ?_, into.nonempty, into.plain, ?_⟩, making.mode,
    making.used, ?_⟩, ready⟩
  · show (inode dir).isDir = true
    rw [same dir]
    exact into.isDir
  · show name ∉ names (s.disk.dirs (inode dir).iNo)
    rw [same dir]
    exact into.new
  · show ino ≠ (inode dir).iNo
    rw [same dir]
    exact making.apart

/-- `ext4_make_empty` gives the new directory its `.` and `..`. -/
theorem ext4MakeEmpty_making (env : Env) :
    Triple (Making held d dir name true p ino) (ext4MakeEmpty env p ino dir) fun ret s =>
      Making held d dir name true p ino s ∧ (ret = .ok () → HasDots (names (s.disk.dirs ino))) := by
  refine Triple.bind (inodeAt_keeps dir) fun parent => ?_
  refine Triple.bind (m := tick) (Q := fun _ s => Making held d dir name true p ino s ∧ s.inode dir = parent) ?_
    fun n => ?_
  · rintro s ⟨making, same, _⟩
    exact ⟨⟨making.named.clock _, making.pending.congr rfl rfl rfl,
      ⟨making.into.live, making.into.isDir, making.into.nonempty, making.into.plain, making.into.new⟩,
      making.mode, making.used, making.apart⟩, same⟩
  · cases env.room n with
    | error e => exact fun s both => ⟨both.1, nofun⟩
    | ok u =>
        refine Triple.bind (Q := fun _ s => Making held d dir name true p ino s ∧ HasDots (names (s.disk.dirs ino))) ?_
          fun _ => Triple.bind (markInodeDirty_making p) fun _ => fun s both => ⟨both.1, fun _ => both.2⟩
        rintro s ⟨making, rfl⟩
        have into := making.into
        have image := making.named.image
        have parentDir := making.named.isDir into.live into.isDir
        have placed := making.placed.withDir (image.emptied s.disk.blockSize making.mode parentDir) s.clock
        refine ⟨⟨placed.named, placed.pending, ⟨into.live, into.isDir, into.nonempty, into.plain, ?_⟩,
          making.mode, making.used, making.apart⟩, ?_⟩
        · show name ∉ names (Function.update s.disk.dirs ino _ (s.inode dir).iNo)
          rw [Function.update_of_ne making.apart.symm]
          exact into.new
        · show HasDots (names (Function.update s.disk.dirs ino _ ino))
          rw [Function.update_self]
          exact makeEmpty_hasDots _ (ne_of_mem_of_not_mem making.used image.zero)
            (ne_of_mem_of_not_mem (image.used _ parentDir) image.zero)

theorem ext4Mkdir_named (env : Env) :
    Triple (fun s => (Named held s ∧ Blank d name s) ∧ Into dir name s) (ext4Mkdir env dir d name) fun _ => Named held := by
  refine Triple.bind (ext4NewInode_making env true) fun ret => ?_
  rcases ret with e | ⟨p, ino⟩
  · exact Keeps.pure _
  · refine Triple.bind (ext4MakeEmpty_making env) fun ret => ?_
    rcases ret with e | _
    · exact Triple.bind ((iput_placed env).pre fun s both => both.1.placed) fun _ => Keeps.pure _
    · refine Triple.bind ((ext4AddEntry_placed env _).pre fun s both => ⟨both.1, fun _ => both.2 rfl⟩)
        fun ret => ?_
      rcases ret with e | _
      · exact Triple.bind (iput_placed env) fun _ => Keeps.pure _
      · exact Triple.bind (markInodeDirty_placed dir) fun _ => Triple.bind (markInodeDirty_placed p) fun _ =>
          Triple.bind dInstantiate_placed fun _ => Keeps.pure _

/-- What `ext4_delete_entry` leaves: the volume as it was, or without the name. -/
theorem ext4DeleteEntry_leaves (env : Env) (dir : Nat) (name : Name) :
    Ends (fun r => dir ∈ s.inodes ∧ ((∃ e, r = (.error e, { s with clock := s.clock + 1 })) ∨
        ∃ blocks, entries blocks = (entries (s.disk.dirs (s.inode dir).iNo)).eraseP (·.1 = name) ∧
          r = (.ok (), { s with disk := s.disk.withDir (s.inode dir).iNo blocks, clock := s.clock + 1 })))
      (fun _ => True) (ext4DeleteEntry env dir name s) := by
  refine inodeAt_ends fun live => ?_
  rw [bind_apply]
  simp only [tick, ok_bind]
  split
  · exact ⟨live, .inl ⟨_, rfl⟩⟩
  · rename_i blocks deleted
    exact ⟨live, .inr ⟨blocks, Ext4Dir.deleteEntry_entries deleted, rfl⟩⟩

theorem ext4Unlink_named (env : Env) (dir p : Nat) (plain : ¬ IsDots name) :
    Triple (fun s => Named held s ∧ (s.inode dir).isDir = true) (ext4Unlink env dir p name) fun _ => Named held := by
  have delete : Triple (fun s => Named held s ∧ (s.inode dir).isDir = true) (ext4DeleteEntry env dir name)
      fun _ => Named held := by
    rintro s ⟨named, isDir⟩
    refine (ext4DeleteEntry_leaves env dir name).mono ?_ fun _ _ => trivial
    rintro _ ⟨live, ⟨e, rfl⟩ | ⟨blocks, erased, rfl⟩⟩
    · exact named.clock _
    · exact named.withDir (named.image.erase (named.isDir live isDir) plain erased) _
  refine Triple.bind delete fun ret => ?_
  rcases ret with e | _
  · exact Keeps.pure _
  · exact Keeps.bind (markInodeDirty_named p) fun _ => Keeps.pure _

/-- A name that is erased is gone. -/
theorem not_mem_names_eraseP {l : List (Name × Nat)} (nodup : (l.map Prod.fst).Nodup) :
    name ∉ (l.eraseP (·.1 = name)).map Prod.fst := by
  induction l with
  | nil => exact List.not_mem_nil
  | cons e rest ih =>
      obtain ⟨new, nodup⟩ := List.nodup_cons.1 nodup
      by_cases here : e.1 = name
      · rw [List.eraseP_cons_of_pos (by simpa using here)]
        exact here ▸ new
      · rw [List.eraseP_cons_of_neg (by simpa using here)]
        intro member
        rcases List.mem_cons.1 member with same | later
        · exact here same.symm
        · exact ih nodup later

/-- The directory `ino` has no name in the tree but `name` in `dir`. -/
def OnlyName (disk : Disk) (dir : Nat) (name : Name) (ino : Nat) : Prop :=
  ino ≠ ext4RootIno ∧ ∀ up ∈ disk.bitmap, disk.isDir up = true → ∀ e ∈ entries (disk.dirs up),
    e.2 = ino → ¬ IsDots e.1 → up = dir ∧ e.1 = name

/-- Without its only name a directory is out of the tree. -/
theorem Image.unlinked {disk : Disk} {blocks : Directory} (image : Image disk) (isDir : disk.isDir dir = true)
    (only : OnlyName disk dir name ino)
    (erased : entries blocks = (entries (disk.dirs dir)).eraseP (·.1 = name)) :
    ¬ (disk.withDir dir blocks).Linked ino := by
  rintro (root | ⟨up, upDir, e, member, link, plain⟩)
  · exact only.1 root
  · change disk.isDir up = true at upDir
    by_cases same : up = dir
    · subst same
      rw [Disk.withDir_self, erased] at member
      have named := (only.2 up (image.used up upDir) upDir e (List.mem_of_mem_eraseP member) link plain).2
      exact not_mem_names_eraseP (image.distinct up isDir).nodup (named ▸ List.mem_map_of_mem member)
    · rw [Disk.withDir_other same] at member
      exact same (only.2 up (image.used up upDir) upDir e member link plain).1

/-- The condition for `ext4_rmdir`: an empty directory goes by its only name. -/
def RmdirClean (env : Env) (dir p : Nat) (name : Name) (s : FsState) : Prop :=
  (s.inode p).isDir = true → Ext4Dir.dirIsEmpty (env.readBlock s.clock) (s.disk.dirs (s.inode p).iNo) = .ok true →
    ¬ IsDots name ∧ OnlyName s.disk (s.inode dir).iNo name (s.inode p).iNo

theorem ext4Rmdir_named (env : Env) (dir p : Nat) :
    Triple (fun s => (Named held s ∧ (s.inode dir).isDir = true) ∧ RmdirClean env dir p name s)
      (ext4Rmdir env dir p name) fun _ => Named held := by
  rintro s ⟨⟨named, isDir⟩, clean⟩
  refine inodeAt_ends fun _ => ?_
  split
  · exact named
  · rename_i target
    refine Ends.bind (x := directoryOf p s) (P := fun r => r = (s.disk.dirs (s.inode p).iNo, s))
      (inodeAt_ends fun _ => rfl) ?_
    rintro _ rfl
    dsimp only
    rw [bind_apply]
    simp only [tick, ok_bind]
    have full : Named held { s with clock := s.clock + 1 } := named.clock _
    rcases empty : Ext4Dir.dirIsEmpty (env.readBlock s.clock) (s.disk.dirs (s.inode p).iNo) with e | _ | _
    · exact full
    · exact full
    · obtain ⟨plain, only⟩ := clean (by simpa using target) empty
      refine Ends.bind (x := ext4DeleteEntry env dir name _) (ext4DeleteEntry_leaves env dir name) ?_
      rintro _ ⟨live, ⟨e, rfl⟩ | ⟨blocks, erased, rfl⟩⟩
      · exact (named.clock _).clock _
      · have image := named.image
        have dirDir := named.isDir live isDir
        have rest : Named held _ := named.withDir (image.erase dirDir plain erased) (s.clock + 1 + 1)
        have gone := image.unlinked dirDir only erased
        refine Ends.bind (x := ext4Truncate p _) (P := fun r => Named held r.2)
          (inodeAt_ends fun _ => rest.withDir (rest.image.truncate gone) _) ?_
        rintro ⟨_, s₁⟩ named₁
        have ends : Keeps (Named held) (do
            markInodeDirty p
            markInodeDirty dir
            pure (.ok ()) : Op (Except Errno Unit)) :=
          Keeps.bind (markInodeDirty_named p) fun _ => Keeps.bind (markInodeDirty_named dir) fun _ => Keeps.pure _
        exact ends s₁ named₁

end Named

/-! ## The calls -/

/-- The walk of a call in a directory, up to the directory. -/
def reach (env : Env) (cwd : Option (Id × Vfsmount)) (path : List Char) : Op (Except Errno (Id × Nat × Name)) :=
  inDirectory env cwd path fun p dir name => pure (.ok (p, dir, name))

/-- The name is new in the directory, and one to give. -/
def NewName (dir : Nat) (name : Name) (s : FsState) : Prop :=
  name ≠ [] ∧ ¬ IsDots name ∧ name ∉ names (s.disk.dirs (s.inode dir).iNo)

/-- The condition for a call that creates: where it reaches a directory, the name is new. -/
def CreateClean (env : Env) (cwd : Option (Id × Vfsmount)) (path : List Char) (s : FsState) : Prop :=
  Ends (fun r => Ends (fun place => NewName place.2.1 place.2.2 r.2) (fun _ => True) r.1) (fun _ => True)
    (reach env cwd path s)

/-- The condition for `open`, which creates after its walk has found nothing. -/
def OpenClean (env : Env) (cwd : Option (Id × Vfsmount)) (path : List Char) (flags : Flags) (s : FsState) : Prop :=
  Ends (fun r => Ends (fun _ => True) (fun e => flags.creat = true ∧ e = .enoent → CreateClean env cwd path r.2) r.1)
    (fun _ => True) (vfsPathLookup env cwd path s)

/-- The condition for `rmdir` in a directory, on the dentry that it finds. -/
def FoundClean (env : Env) (place : Id × Nat × Name) (s : FsState) : Prop :=
  Ends (fun q => Ends (fun found => ∀ d ∈ found, ∀ i ∈ (q.2.cache.dentries d).dInode,
      RmdirClean env place.2.1 i.iNo (q.2.cache.dentries d).dName q.2) (fun _ => True) q.1)
    (fun _ => True) (lookupOneLen env place.2.2 place.1 s)

def RemoveClean (env : Env) (cwd : Option (Id × Vfsmount)) (path : List Char) (s : FsState) : Prop :=
  Ends (fun r => Ends (fun place => FoundClean env place r.2) (fun _ => True) r.1) (fun _ => True)
    (reach env cwd path s)

/-- What a call has to meet for the names to stay as they should be. -/
def Clean (s : FsState) (a : Action) : Prop :=
  match a.call with
  | .mkdir path => CreateClean a.env a.cwd path s
  | .openFile path flags => OpenClean a.env a.cwd path flags s
  | .rmdir path => RemoveClean a.env a.cwd path s
  | _ => True

section Calls

variable {held : List Nat} {env : Env} {cwd : Option (Id × Vfsmount)} {path : List Char} {s : FsState}

theorem inDirectory_eq {α : Type} (body : Id → Nat → Name → Op (Except Errno α)) :
    inDirectory env cwd path body = (do
      match ← reach env cwd path with
      | .error e => pure (.error e)
      | .ok (p, dir, name) => body p dir name) := by
  unfold reach inDirectory
  cases splitLastComponent path with
  | error e => simp only [pure_bind]
  | ok parts =>
      simp only [bind_assoc]
      refine bind_congr fun ret => ?_
      cases ret with
      | error e => simp only [pure_bind]
      | ok place =>
          simp only [bind_assoc]
          refine bind_congr fun found => ?_
          split
          · simp only [failed, bind_assoc, pure_bind]
          · simp only [pure_bind]

theorem splitLastComponent_short {parent : List Char} {name : Name}
    (parts : splitLastComponent path = .ok (parent, name)) : name.take 63 = name := by
  unfold splitLastComponent at parts
  split at parts
  · cases parts
    exact List.take_take.trans (by rw [Nat.min_self])
  · cases parts

theorem reach_named (env : Env) (cwd : Option (Id × Vfsmount)) (path : List Char) :
    Triple (Named held) (reach env cwd path) fun ret s => Named held s ∧
      Ends (fun place => (place.2.1 ∈ s.inodes ∧ (s.inode place.2.1).isDir = true) ∧
        place.2.2.take 63 = place.2.2) (fun _ => True) ret := by
  refine (named_walkable env held).inDirectory cwd path (fun e s named => ⟨named, trivial⟩) ?_
  rintro p dir name ⟨parent, parts⟩ s ⟨named, inside⟩
  exact ⟨named, inside, splitLastComponent_short parts⟩

/-- A call in a directory, from what it reaches. -/
theorem inDirectory_named {body : Id → Nat → Name → Op (Except Errno Unit)} {C : Id × Nat × Name → FsState → Prop}
    (named : Named held s)
    (clean : Ends (fun r => Ends (fun place => C place r.2) (fun _ => True) r.1) (fun _ => True) (reach env cwd path s))
    (inside : ∀ p dir name s, Named held s → dir ∈ s.inodes → (s.inode dir).isDir = true → name.take 63 = name →
      C (p, dir, name) s → Ends (fun r => Named held r.2) (fun _ => True) (body p dir name s)) :
    Ends (fun r => Named held r.2) (fun _ => True) (inDirectory env cwd path body s) := by
  rw [inDirectory_eq, bind_apply]
  refine Ends.bind ((reach_named env cwd path s named).and clean |>.mono (fun _ both => both) fun _ _ => trivial) ?_
  rintro ⟨ret, s₁⟩ ⟨⟨named₁, reached⟩, clean₁⟩
  rcases ret with e | ⟨p, dir, name⟩
  · exact named₁
  · exact inside p dir name s₁ named₁ reached.1.1 reached.1.2 reached.2 clean₁

/-- The dentry that a call creates, with the name it is for. -/
theorem dAlloc_into {p : Id} {dir : Nat} {name : Name} (short : name.take 63 = name) :
    Triple (fun s => Named held s ∧ Into dir name s) (dAlloc env (some p) name) fun ret s =>
      Named held s ∧ ∀ d ∈ ret, Blank d name s ∧ Into dir name s := by
  rintro s ⟨named, into⟩
  have same : Ends (fun r => r.2.inode = s.inode ∧ r.2.inodes = s.inodes ∧ r.2.disk = s.disk) (fun _ => True)
      (dAlloc env (some p) name s) := by
    refine Ends.bind (dAlloc_added env.dentries (some p) name) ?_
    rintro ⟨c, ret⟩ _
    exact ⟨rfl, rfl, rfl⟩
  refine (((named_walkable env held).dAlloc (some p) name s named).and same).mono ?_ fun _ _ => trivial
  rintro ⟨ret, s'⟩ ⟨⟨named', blank⟩, inode, inodes, disk⟩
  refine ⟨named', fun d here => ⟨short ▸ blank d here, ?_⟩⟩
  obtain ⟨live, isDir, nonempty, plain, new⟩ := into
  refine ⟨by rw [inodes]; exact live, by rw [inode]; exact isDir, nonempty, plain, ?_⟩
  rw [disk, inode]
  exact new

theorem vfsDoMkdir_named (clean : CreateClean env cwd path s) (named : Named held s) :
    Ends (fun r => Named held r.2) (fun _ => True) (vfsDoMkdir env cwd path s) := by
  have walk := named_walkable env held
  refine inDirectory_named named clean fun p dir name s named live isDir short new => ?_
  refine Triple.bind (R := fun _ => Named held) (dAlloc_into short) (fun made => ?_) s
    ⟨named, live, isDir, new.1, new.2.1, new.2.2⟩
  cases made with
  | none => exact (walk.failed p .enomem).pre fun s both => both.1
  | some d =>
      refine Triple.bind ((ext4Mkdir_named env).pre fun s both => ?_) fun ret => walk.finish d p ret
      exact ⟨⟨both.1, (both.2 d rfl).1⟩, (both.2 d rfl).2⟩

theorem vfsCreate_named (clean : CreateClean env cwd path s) (named : Named held s) :
    Ends (fun r => Named held r.2) (fun _ => True) (vfsCreate env cwd path s) := by
  have walk := named_walkable env held
  refine inDirectory_named named clean fun p dir name s named live isDir short new => ?_
  refine Triple.bind (R := fun _ => Named held) (dAlloc_into short) (fun made => ?_) s
    ⟨named, live, isDir, new.1, new.2.1, new.2.2⟩
  cases made with
  | none => exact (walk.failed p .enomem).pre fun s both => both.1
  | some d =>
      refine Triple.bind (dentryAt_same d) fun e => ?_
      split
      · exact (walk.finish d p _).pre fun s both => both.1
      · refine Triple.bind (Q := fun _ => Named held) ((ext4Create_named env).pre fun s both => ?_) fun ret => ?_
        · exact ⟨⟨both.1, (both.2 d rfl).1⟩, (both.2 d rfl).2⟩
        · cases ret with
          | error e => exact walk.finish d p _
          | ok _ => exact Keeps.bind (walk.dentryOpen d) fun ret => walk.finish d p ret

theorem vfsOpen_named {flags : Flags} (clean : OpenClean env cwd path flags s) (named : Named held s) :
    Ends (fun r => Named held r.2) (fun _ => True) (vfsOpen env cwd path flags s) := by
  have walk := named_walkable env held
  refine Ends.bind (x := vfsPathLookup env cwd path s)
    ((walk.vfsPathLookup cwd path s named).and clean |>.mono (fun _ both => both) fun _ _ => trivial) ?_
  rintro ⟨ret, s₁⟩ ⟨named₁, clean₁⟩
  cases ret with
  | error e =>
      dsimp only
      split
      · rename_i creates
        exact vfsCreate_named (clean₁ creates) named₁
      · exact named₁
  | ok place => exact walk.vfsOpen_found flags markInodeDirty_named place.1 s₁ named₁

/-- A directory is held for the rest of a call. -/
theorem Named.hold {dir : Nat} (named : Named [] s) (live : dir ∈ s.inodes) (isDir : (s.inode dir).isDir = true) :
    Named [dir] s := by
  refine { named with counted := { named.counted with kept := ?_ }, holds := ?_ }
  · rintro q (_ | ⟨_, ⟨⟩⟩)
    exact live
  · rintro q (_ | ⟨_, ⟨⟩⟩)
    exact isDir

theorem Named.release (named : Named held s) : Named [] s :=
  { named with counted := { named.counted with kept := nofun }, holds := nofun }

/-- `removeIn`, with what is to be known of the dentry that it finds. -/
theorem removeIn_named {wanted : Bool} {wrong : Errno} {remove : Nat → Nat → Name → Op (Except Errno Unit)}
    {p : Id} {dir : Nat} {name : Name} (named : Named [] s) (live : dir ∈ s.inodes)
    (isDir : (s.inode dir).isDir = true) {C : Id → FsState → Prop}
    (clean : Ends (fun q => Ends (fun found => ∀ d ∈ found, C d q.2) (fun _ => True) q.1) (fun _ => True)
      (lookupOneLen env name p s))
    (removes : ∀ d s, C d s → Named [dir] s → d ∈ s.cache.live → ∀ i ∈ (s.cache.dentries d).dInode,
      (s.inode i.iNo).isDir = wanted → Ends (fun r => Named [dir] r.2) (fun _ => True)
        (remove dir i.iNo (s.cache.dentries d).dName s)) :
    Ends (fun r => Named [] r.2) (fun _ => True) (removeIn env wanted wrong remove p dir name s) := by
  have walk := named_walkable env [dir]
  refine Ends.mono (P := fun r => Named [dir] r.2) (E := fun _ => True) ?_ (fun r named => named.release)
    fun _ _ => trivial
  have looked := (walk.lookupOneLen name p s (named.hold live isDir)).and clean
  refine Ends.bind (x := lookupOneLen env name p s) (looked.mono (fun _ both => both) fun _ _ => trivial) ?_
  rintro ⟨ret, s₁⟩ ⟨named₁, clean₁⟩
  rcases ret with e | _ | d
  · exact walk.failed p e s₁ named₁
  · exact walk.failed p .enoent s₁ named₁
  · have clean₂ : C d s₁ := clean₁ d rfl
    refine Ends.bind (x := dentryAt d s₁) (P := fun r => d ∈ s₁.cache.live ∧ r = (s₁.cache.dentries d, s₁)) ?_ ?_
    · exact touch_ends fun here => ⟨here, rfl⟩
    rintro _ ⟨here, rfl⟩
    dsimp only
    cases had : (s₁.cache.dentries d).dInode with
    | none => exact walk.finish d p _ s₁ named₁
    | some i =>
        refine inodeAt_ends fun _ => ?_
        split
        · rename_i kind
          refine Ends.bind (x := remove dir i.iNo _ s₁) (removes d s₁ clean₂ named₁ here i had kind) ?_
          rintro ⟨ret, s₂⟩ named₂
          exact walk.finish d p ret s₂ named₂
        · exact walk.finish d p _ s₁ named₁

theorem vfsDoUnlink_named (named : Named [] s) :
    Ends (fun r => Named [] r.2) (fun _ => True) (vfsDoUnlink env cwd path s) := by
  have free {α : Type} (x : Except Fault (Except Errno α × FsState)) :
      Ends (fun r => Ends (fun _ => True) (fun _ => True) r.1) (fun _ => True) x :=
    Ends.of_forall (fun r => Ends.of_forall (fun _ => trivial) (fun _ => trivial) r.1) (fun _ => trivial) x
  refine inDirectory_named (C := fun _ _ => True) named (free _) fun p dir name s named live isDir _ _ => ?_
  refine removeIn_named (C := fun _ _ => True) named live isDir ?_ fun d s _ named here i had kind => ?_
  · exact (free _).mono (fun r _ => Ends.of_forall (fun _ _ _ => trivial) (fun _ => trivial) r.1) fun _ _ => trivial
  · -- a dentry for `.` or `..` would have a directory
    have plain : ¬ IsDots (s.cache.dentries d).dName := by
      intro dots
      have refers : refersTo s.cache i.iNo d = true := by
        rw [refersTo, had]
        simp
      cases (named.dots d here dots i.iNo refers).symm.trans kind
    exact ext4Unlink_named env dir i.iNo plain s ⟨named, named.holds dir List.mem_cons_self⟩

theorem vfsDoRmdir_named (clean : RemoveClean env cwd path s) (named : Named [] s) :
    Ends (fun r => Named [] r.2) (fun _ => True) (vfsDoRmdir env cwd path s) := by
  refine inDirectory_named (C := FoundClean env) named clean fun p dir name s named live isDir _ clean => ?_
  refine removeIn_named (C := fun d s => ∀ i ∈ (s.cache.dentries d).dInode,
    RmdirClean env dir i.iNo (s.cache.dentries d).dName s) named live isDir clean ?_
  intro d s clean named _ i had _
  exact ext4Rmdir_named env dir i.iNo s ⟨⟨named, named.holds dir List.mem_cons_self⟩, clean i had⟩

theorem perform_named {a : Action} (clean : Clean s a) (named : Named [] s) :
    Ends (fun r => Named [] r.2) (fun _ => True) (perform a s) := by
  have walk := named_walkable a.env []
  unfold Clean at clean
  unfold perform
  cases call : a.call with
  | stat path => exact walk.vfsStat a.cwd path s named
  | openFile path flags =>
      rw [call] at clean
      exact vfsOpen_named clean named
  | close i => exact walk.vfsClose i s named
  | mkdir path =>
      rw [call] at clean
      exact vfsDoMkdir_named clean named
  | unlink path => exact vfsDoUnlink_named named
  | rmdir path =>
      rw [call] at clean
      exact vfsDoRmdir_named clean named

/-! ## Runs -/

theorem boot_named {disk : Disk} (image : Image disk) : Named [] (FsState.boot disk) :=
  ⟨boot_counted disk, image, nofun, nofun, nofun⟩

theorem mountRoot_named (env : Env) : Keeps (Named []) (mountRoot env) := by
  have walk := named_walkable env []
  have load : Keeps (Named []) (ext4Iget env ext4RootIno) := by
    intro s named
    refine (ext4Iget_loaded named.counted.positive).mono ?_ fun _ _ => trivial
    exact fun r loaded => named.loaded (named.image.used _ named.image.root) loaded
  refine Keeps.bind load fun ret => ?_
  cases ret with
  | none => exact Keeps.pure _
  | some p =>
      refine Triple.bind (walk.dAlloc none _) fun made => ?_
      cases made with
      | none => exact (Keeps.pure _).pre fun s both => both.1
      | some root =>
          refine Triple.bind (Q := fun _ => Named []) ?_ fun _ => ?_
          · rintro s ⟨named, blank⟩
            refine dInstantiate_leaves.mono ?_ fun _ _ => trivial
            rintro ⟨_, s'⟩ ⟨_, live, rfl⟩
            exact named.instantiate (blank root rfl) live fun dots => absurd dots (by decide)
          · refine Keeps.bind (walk.dget root) fun _ => Keeps.bind (walk.dget root) fun _ => ?_
            exact fun s named => named.congr rfl rfl rfl rfl

/-- Every directory of the tree has distinct names, none of them empty, with `.` and `..`. -/
def NamesKept (disk : Disk) : Prop :=
  ∀ dir, disk.isDir dir = true → disk.Linked dir →
    (names (disk.dirs dir)).Nodup ∧ [] ∉ names (disk.dirs dir) ∧ HasDots (names (disk.dirs dir))

/-- The call is clean in the state that the run has reached. -/
def CleanStep (s : Except Fault FsState) (a : Action) : Prop := Ends (fun s => Clean s a) (fun _ => True) s

/-- **The names stay as they should be in every run of clean calls.** -/
theorem names_kept {disk : Disk} (image : Image disk) {env : Env} {s : FsState}
    (mounted : mountRoot env (FsState.boot disk) = .ok (.ok (), s)) {actions : List Action}
    (clean : (machine.guard CleanStep).Admits (.ok s) actions) :
    Ends (fun t => NamesKept t.disk) (fun _ => True) (machine.run (.ok s) actions) := by
  have start : Named [] s := by
    have out := mountRoot_named env _ (boot_named image)
    rw [mounted] at out
    exact out
  rw [← machine.guard_run CleanStep]
  have kept : Ends (Named []) (fun _ => True) ((machine.guard CleanStep).run (.ok s) actions) := by
    refine Machine.run_invariant _ (I := Ends (Named []) fun _ => True) ?_ (s := .ok s) start clean
    rintro s a named ⟨_, clean⟩
    refine Ends.bind (named.and clean |>.mono (fun _ both => both) fun _ _ => trivial) ?_
    rintro s ⟨named, clean⟩
    exact Ends.bind (perform_named clean named) fun r named => named
  refine kept.mono (fun s named dir isDir linked => ?_) fun _ _ => trivial
  have distinct := named.image.distinct dir isDir
  exact ⟨distinct.nodup, distinct.nonempty, named.image.dots dir isDir linked⟩

end Calls

/-! ### Making a directory -/

section Decide

instance (dir : Nat) (name : Name) (s : FsState) : Decidable (NewName dir name s) :=
  inferInstanceAs (Decidable (_ ∧ _ ∧ _))

instance (env : Env) (cwd : Option (Id × Vfsmount)) (path : List Char) (s : FsState) :
    Decidable (CreateClean env cwd path s) :=
  inferInstanceAs (Decidable (Ends _ _ _))

instance (env : Env) (cwd : Option (Id × Vfsmount)) (path : List Char) (flags : Flags) (s : FsState) :
    Decidable (OpenClean env cwd path flags s) :=
  inferInstanceAs (Decidable (Ends _ _ _))

instance (disk : Disk) (dir : Nat) (name : Name) (ino : Nat) : Decidable (OnlyName disk dir name ino) :=
  inferInstanceAs (Decidable (_ ∧ _))

instance (env : Env) (dir p : Nat) (name : Name) (s : FsState) : Decidable (RmdirClean env dir p name s) :=
  inferInstanceAs (Decidable (_ → _ → _))

instance (env : Env) (place : Id × Nat × Name) (s : FsState) : Decidable (FoundClean env place s) :=
  inferInstanceAs (Decidable (Ends _ _ _))

instance (env : Env) (cwd : Option (Id × Vfsmount)) (path : List Char) (s : FsState) :
    Decidable (RemoveClean env cwd path s) :=
  inferInstanceAs (Decidable (Ends _ _ _))

instance (s : FsState) (a : Action) : Decidable (Clean s a) :=
  match a with
  | ⟨env, cwd, .mkdir path⟩ => inferInstanceAs (Decidable (CreateClean env cwd path s))
  | ⟨env, cwd, .openFile path flags⟩ => inferInstanceAs (Decidable (OpenClean env cwd path flags s))
  | ⟨env, cwd, .rmdir path⟩ => inferInstanceAs (Decidable (RemoveClean env cwd path s))
  | ⟨_, _, .stat _⟩ => isTrue trivial
  | ⟨_, _, .close _⟩ => isTrue trivial
  | ⟨_, _, .unlink _⟩ => isTrue trivial

instance (s : Except Fault FsState) (a : Action) : Decidable (CleanStep s a) :=
  inferInstanceAs (Decidable (Ends _ _ _))

instance (s : Except Fault FsState) (a : Action) : Decidable ((machine.guard CleanStep).enabled s a) :=
  inferInstanceAs (Decidable (True ∧ _))

end Decide

theorem freshDisk_image : Image freshDisk := by
  have only {dir : Nat} (isDir : freshDisk.isDir dir = true) : dir = ext4RootIno := by
    simpa [freshDisk] using isDir
  have rootDir : freshDisk.isDir ext4RootIno = true := by decide
  refine ⟨by decide, ?_, rootDir, ?_, ?_, ?_⟩
  · intro ino isDir
    rw [only isDir]
    decide
  · intro dir isDir
    rw [only isDir]
    decide
  · intro dir isDir
    rw [only isDir]
    exact ⟨by decide, by decide⟩
  · intro dir isDir _
    rw [only isDir]
    exact ⟨by decide, by decide⟩

def mkdirA : Action := ⟨plainEnv, none, .mkdir ['/', 'a']⟩

/-- `/a` is made and removed. -/
def makeAndRemove : List Action := [mkdirA, ⟨plainEnv, none, .rmdir ['/', 'a']⟩]

theorem names_kept_makeAndRemove :
    ∃ s, mountRoot plainEnv (FsState.boot freshDisk) = .ok (.ok (), s) ∧ Image freshDisk ∧
      (machine.guard CleanStep).Admits (.ok s) makeAndRemove ∧
      Ends (fun t => NamesKept t.disk) (fun _ => True) (machine.run (.ok s) makeAndRemove) := by
  obtain ⟨s, mounted⟩ := fresh_mounts
  have clean : (machine.guard CleanStep).Admits (booted plainEnv freshDisk) makeAndRemove := by decide +kernel
  rw [booted_eq mounted] at clean
  exact ⟨s, mounted, freshDisk_image, clean, names_kept freshDisk_image mounted clean⟩

/-- **`mkdir` of a name that is there makes it twice.** -/
theorem mkdir_twice :
    Image freshDisk ∧ ∃ t, machine.run (booted plainEnv freshDisk) [mkdirA, mkdirA] = .ok t ∧ ¬ NamesKept t.disk ∧
      names (t.disk.dirs ext4RootIno) = [dot, dotdot, ['a'], ['a']] := by
  obtain ⟨t, ran, isDir, twice⟩ : ∃ t, machine.run (booted plainEnv freshDisk) [mkdirA, mkdirA] = .ok t ∧
      t.disk.isDir ext4RootIno = true ∧ names (t.disk.dirs ext4RootIno) = [dot, dotdot, ['a'], ['a']] :=
    Ends.returns (by decide +kernel)
  refine ⟨freshDisk_image, t, ran, fun kept => ?_, twice⟩
  have nodup := (kept ext4RootIno isDir (.inl rfl)).1
  rw [twice] at nodup
  exact absurd nodup (by decide)

end Minus.Fs.Namei
