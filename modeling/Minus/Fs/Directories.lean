/-
# Fs.Directories — the directories below the dentry cache

The live records of every directory of the volume, and what the calls of `Fs.Vfs` do to
them.  `ext4_lookup` finds the first record with a name and `ext4_delete_entry` deletes it;
`ext4_add_entry` looks for room and never for the name, so that a directory can have a name
twice.  An `FsEnv` says how the allocations and the reads and writes of blocks end;
`FsEnv.on` is the file system with these directories.

`change` is the operation of the file system that a call comes to, if it succeeds: the
call's own steps up to there.
-/
import Minus.Fs.VfsRun

namespace Minus.Fs.Dcache

set_option autoImplicit false

open Minus.Theory

/-- The live records of each directory, as a scan comes to them. -/
abbrev Directories := Nat → List (Name × Inode)

/-- What becomes of the directories: the operation, with the inode that it makes or removes. -/
inductive Change where
  | create (dir : Inode) (name : Name) (inode : Inode)
  | mkdir (dir : Inode) (name : Name) (inode : Inode)
  | unlink (dir : Inode) (name : Name) (inode : Inode)
  | rmdir (dir : Inode) (name : Name) (inode : Inode)

namespace Directories

variable (dirs : Directories)

/-- `ext4_add_entry`, with the first room before record `i`. -/
def add (i dir : Nat) (name : Name) (inode : Inode) : Directories :=
  Function.update dirs dir ((dirs dir).take i ++ (name, inode) :: (dirs dir).drop i)

/-- `ext4_delete_entry`. -/
def delete (dir : Nat) (name : Name) : Directories :=
  Function.update dirs dir ((dirs dir).eraseP fun r => r.1 = name)

def after (i : Nat) : Change → Directories
  | .create dir name inode => dirs.add i dir.iNo name inode
  | .mkdir dir name inode =>
      -- `ext4_make_empty`
      add (Function.update dirs inode.iNo [(['.'], inode), (['.', '.'], dir)]) i dir.iNo name inode
  | .unlink dir name _ => dirs.delete dir.iNo name
  | .rmdir dir name inode =>
      -- `ext4_truncate_blocks`
      Function.update (dirs.delete dir.iNo name) inode.iNo []

/-- No record of the directory has the name; at most one has. -/
def Lacks (dir : Nat) (name : Name) : Prop := ∀ r ∈ dirs dir, r.1 ≠ name

def Once (dir : Nat) (name : Name) : Prop := (dirs dir).countP (fun r => r.1 = name) ≤ 1

instance (dir : Nat) (name : Name) : Decidable (dirs.Once dir name) := inferInstanceAs (Decidable (_ ≤ _))

end Directories

/-- The file system on these directories: `env` says which operations fail for another reason. -/
def FsEnv.on (env : FsEnv) (dirs : Directories) : FsEnv :=
  let deleted (dir : Nat) (name : Name) : Except Errno Unit → Except Errno Unit
    | .error e => .error e
    | .ok () => if ((dirs dir).lookup name).isSome then .ok () else .error .enoent
  { env with
    lookup := fun dir name => (env.lookup dir name).map fun _ => (dirs dir).lookup name
    unlink := fun dir name => deleted dir name (env.unlink dir name)
    rmdir := fun dir name => deleted dir name (env.rmdir dir name) }

def Action.on (a : Action) (dirs : Directories) : Action := { a with env := a.env.on dirs }

/-! ## What a call changes -/

section Change

variable (env : FsEnv) (ctx : Context) (c : Cache) (path : List Char)

/-- `createIn` and `mkdirIn` up to the operation. -/
def madeIn (make : Nat → Name → Except Errno Inode) (change : Inode → Name → Inode → Change) (c : Cache) (p : Id)
    (dir : Inode) (name : Name) : Except Fault (Cache × Except Errno Change) := do
  match ← dAlloc env.toEnv c (some p) name with
  | (c, none) => .ok (c, .error .enomem)
  | (c, some _) => .ok (c, (make dir.iNo (name.take 63)).map (change dir (name.take 63)))

/-- `removeIn` up to the operation. -/
def removedIn (remove : Inode → Inode → Name → Except Errno Unit) (change : Inode → Name → Inode → Change) (c : Cache)
    (p : Id) (dir : Inode) (name : Name) : Except Fault (Cache × Except Errno Change) := do
  match ← lookupOneLen env.toEnv c name p with
  | (c, .error e) => .ok (c, .error e)
  | (c, .ok none) => .ok (c, .error .enoent)
  | (c, .ok (some d)) =>
      match (c.dentries d).dInode with
      | none => .ok (c, .error .enoent)
      | some inode =>
          let name := (c.dentries d).dName
          .ok (c, (remove dir inode name).map fun _ => change dir name inode)

def changeIn (body : Cache → Id → Inode → Name → Except Fault (Cache × Except Errno Change)) : Option Change :=
  match inDirectory env.toEnv ctx c path body with
  | .ok (_, .ok change) => some change
  | _ => none

end Change

def change (s : Vfs) (a : Action) : Option Change :=
  let ctx := s.context a.task
  match a.call with
  | .openFile path true _ =>
      match vfsPathLookup a.env.toEnv ctx s.cache path with
      | .ok (c, .error .enoent) => changeIn a.env ctx c path (madeIn a.env a.env.create .create)
      | _ => none
  | .mkdir path => changeIn a.env ctx s.cache path (madeIn a.env a.env.mkdir .mkdir)
  | .unlink path =>
      changeIn a.env ctx s.cache path <| removedIn a.env
        (fun dir inode name => if inode.isDir then .error .eisdir else a.env.unlink dir.iNo name) .unlink
  | .rmdir path =>
      changeIn a.env ctx s.cache path <| removedIn a.env
        (fun dir inode name => if !inode.isDir then .error .enotdir else a.env.rmdir dir.iNo name) .rmdir
  | _ => none

/-- A call with the directories as they are, and what becomes of them. -/
def volumeStep (v : Vfs × Directories) (a : Action × Nat) : Vfs × Directories :=
  let act := a.1.on v.2
  (step v.1 act, (change v.1 act).elim v.2 (v.2.after a.2))

def volumeMachine : Machine (Vfs × Directories) (Action × Nat) where
  enabled _ _ := True
  step := volumeStep

/-! ## The records of one name -/

section Records

variable {dirs : Directories} {dir i : Nat} {name : Name}

theorem Directories.Lacks.lookup (lacks : dirs.Lacks dir name) : (dirs dir).lookup name = none :=
  List.lookup_eq_none_iff.2 fun r inside => by simpa using (lacks r inside).symm

theorem lacks_update {dirs : Directories} (lacks : dirs.Lacks dir name) (other : Nat) (records : List (Name × Inode))
    (free : other = dir → ∀ r ∈ records, r.1 ≠ name) :
    Directories.Lacks (Function.update dirs other records) dir name := by
  intro r inside
  by_cases here : dir = other
  · rw [here, Function.update_self] at inside
    exact free here.symm r inside
  · rw [Function.update_of_ne here] at inside
    exact lacks r inside

theorem Directories.Lacks.add (lacks : dirs.Lacks dir name) (i other : Nat) (n : Name) (inode : Inode)
    (apart : other = dir → n ≠ name) : (dirs.add i other n inode).Lacks dir name := by
  refine lacks_update lacks other _ fun here r inside => ?_
  subst here
  rcases List.mem_append.1 inside with before | behind
  · exact lacks r (List.mem_of_mem_take before)
  · rcases List.mem_cons.1 behind with rfl | behind
    · exact apart rfl
    · exact lacks r (List.mem_of_mem_drop behind)

theorem Directories.Lacks.delete (lacks : dirs.Lacks dir name) (other : Nat) (n : Name) :
    (dirs.delete other n).Lacks dir name := by
  refine lacks_update lacks other _ fun here r inside => ?_
  subst here
  exact lacks r (List.mem_of_mem_eraseP inside)

/-- The change makes the name in the directory. -/
def Change.Makes (dir : Nat) (name : Name) : Change → Prop
  | .create d n _ | .mkdir d n _ => d.iNo = dir ∧ n = name
  | _ => False

/-- A name that no call makes does not come back. -/
theorem Directories.Lacks.after (lacks : dirs.Lacks dir name) (i : Nat) {change : Change}
    (dots : name ≠ ['.'] ∧ name ≠ ['.', '.']) (spared : ¬ change.Makes dir name) : (dirs.after i change).Lacks dir name := by
  cases change with
  | create d n inode => exact lacks.add i d.iNo n inode fun here same => spared ⟨here, same⟩
  | mkdir d n inode =>
      have empty : Directories.Lacks (Function.update dirs inode.iNo [(['.'], inode), (['.', '.'], d)]) dir name := by
        refine lacks_update lacks _ _ fun _ r inside => ?_
        rcases List.mem_pair.1 inside with rfl | rfl
        · exact dots.1.symm
        · exact dots.2.symm
      exact empty.add i d.iNo n inode fun here same => spared ⟨here, same⟩
  | unlink d n _ => exact lacks.delete d.iNo n
  | rmdir d n inode => exact lacks_update (lacks.delete d.iNo n) inode.iNo [] fun _ => nofun

/-- The only record with the name is deleted. -/
theorem Directories.Once.delete (once : dirs.Once dir name) : (dirs.delete dir name).Lacks dir name := by
  intro r inside same
  rw [Directories.delete, Function.update_self] at inside
  have some_ : 0 < ((dirs dir).eraseP fun r => r.1 = name).countP fun r => r.1 = name :=
    List.countP_pos_iff.2 ⟨r, inside, by simpa using same⟩
  have there : r ∈ dirs dir := List.mem_of_mem_eraseP inside
  obtain ⟨r', l₁, l₂, -, named, whole, rest⟩ :=
    List.exists_of_eraseP (p := fun r : Name × Inode => decide (r.1 = name)) there (decide_eq_true same)
  have fewer : (dirs dir).countP (fun r => r.1 = name) =
      ((dirs dir).eraseP fun r => r.1 = name).countP (fun r => r.1 = name) + 1 := by
    rw [rest]
    conv_lhs => rw [whole]
    rw [List.countP_append, List.countP_append, List.countP_cons, if_pos named, Nat.add_assoc]
  unfold Directories.Once at once
  omega

end Records

/-! ## Where a change comes from -/

section Comes

variable {env : Env} {ctx : Context} {c c' : Cache} {path : List Char}

/-- A call in a directory that succeeds has come to one. -/
theorem inDirectory_ok {α : Type} {body : Cache → Id → Inode → Name → Except Fault (Cache × Except Errno α)} {a : α}
    (run : inDirectory env ctx c path body = .ok (c', .ok a)) :
    ∃ parent name c₁ p mnt dir, splitLastComponent path = .ok (parent, name) ∧
      vfsPathLookup env ctx c parent = .ok (c₁, .ok (p, mnt)) ∧ inodeOf c₁ p = .ok dir ∧ dir.isDir = true ∧
        body c₁ p dir name = .ok (c', .ok a) := by
  unfold inDirectory at run
  cases split : splitLastComponent path with
  | error e =>
      rw [split] at run
      cases run
  | ok parts =>
      obtain ⟨parent, name⟩ := parts
      rw [split] at run
      obtain ⟨⟨c₁, place⟩, walk, run⟩ := bind_eq_ok.1 run
      cases place with
      | error e => cases run
      | ok place =>
          obtain ⟨dir, entry, run⟩ := bind_eq_ok.1 run
          split at run
          · obtain ⟨_, -, never⟩ := bind_eq_ok.1 run
            cases never
          · rename_i isDir
            exact ⟨parent, name, c₁, place.1, place.2, dir, rfl, walk, entry, by simpa using isDir, run⟩

theorem inDirectory_eq {α : Type} {body : Cache → Id → Inode → Name → Except Fault (Cache × Except Errno α)}
    {parent : List Char} {name : Name} {c₁ : Cache} {p : Id} {mnt : Vfsmount} {dir : Inode}
    (split : splitLastComponent path = .ok (parent, name))
    (walk : vfsPathLookup env ctx c parent = .ok (c₁, .ok (p, mnt))) (entry : inodeOf c₁ p = .ok dir)
    (isDir : dir.isDir = true) : inDirectory env ctx c path body = body c₁ p dir name := by
  unfold inDirectory
  rw [split]
  dsimp only
  rw [walk, ok_bind]
  dsimp only
  rw [entry, ok_bind, isDir]
  rfl

/-- What is true where a clean call comes to. -/
theorem DirectoryClean.body {holders : List Id} {condition : Cache → Id → Inode → Name → Prop} {parent : List Char}
    {name : Name} {c₁ : Cache} {p : Id} {mnt : Vfsmount} {dir : Inode}
    (clean : DirectoryClean holders env ctx c path condition) (split : splitLastComponent path = .ok (parent, name))
    (walk : vfsPathLookup env ctx c parent = .ok (c₁, .ok (p, mnt))) (entry : inodeOf c₁ p = .ok dir) :
    condition c₁ p dir name := by
  unfold DirectoryClean at clean
  rw [split] at clean
  have after := clean.2
  dsimp only at after
  rw [walk] at after
  have at_ : Ends (fun dir => condition c₁ p dir name) (fun _ => True) (inodeOf c₁ p) := after
  rw [entry] at at_
  exact at_

theorem changeIn_some {env : FsEnv} {body : Cache → Id → Inode → Name → Except Fault (Cache × Except Errno Change)}
    {ch : Change} (changed : changeIn env ctx c path body = some ch) :
    ∃ c', inDirectory env.toEnv ctx c path body = .ok (c', .ok ch) := by
  unfold changeIn at changed
  split at changed
  · rename_i c' ch' run
    cases changed
    exact ⟨c', run⟩
  · cases changed

theorem madeIn_ok {env : FsEnv} {make : Nat → Name → Except Errno Inode} {form : Inode → Name → Inode → Change}
    {p : Id} {dir : Inode} {name : Name} {ch : Change} (run : madeIn env make form c p dir name = .ok (c', .ok ch)) :
    ∃ inode, make dir.iNo (name.take 63) = .ok inode ∧ ch = form dir (name.take 63) inode := by
  obtain ⟨⟨c₁, made⟩, -, run⟩ := bind_eq_ok.1 run
  cases made with
  | none => cases run
  | some d =>
      cases result : make dir.iNo (name.take 63) with
      | error e =>
          rw [result] at run
          cases run
      | ok inode =>
          rw [result] at run
          cases run
          exact ⟨inode, rfl, rfl⟩

theorem removedIn_form {env : FsEnv} {remove : Inode → Inode → Name → Except Errno Unit}
    {form : Inode → Name → Inode → Change} {p : Id} {dir : Inode} {name : Name} {ch : Change}
    (run : removedIn env remove form c p dir name = .ok (c', .ok ch)) : ∃ name inode, ch = form dir name inode := by
  obtain ⟨⟨c₁, found⟩, -, run⟩ := bind_eq_ok.1 run
  rcases found with e | found
  · cases run
  · cases found with
    | none => cases run
    | some d =>
        dsimp only at run
        split at run
        · cases run
        · rename_i inode there
          cases result : remove dir inode (c₁.dentries d).dName with
          | error e =>
              rw [result] at run
              cases run
          | ok _ =>
              rw [result] at run
              cases run
              exact ⟨_, inode, rfl⟩

/-- A removal that succeeds has found an inode, and the operation has succeeded. -/
theorem removeIn_ok {remove : Inode → Inode → Name → Except Errno Unit} {p : Id} {dir : Inode} {name : Name}
    (run : removeIn env remove c p dir name = .ok (c', .ok ())) :
    ∃ c₁ d inode, lookupOneLen env c name p = .ok (c₁, .ok (some d)) ∧ (c₁.dentries d).dInode = some inode ∧
      remove dir inode (c₁.dentries d).dName = .ok () := by
  obtain ⟨⟨c₁, found⟩, looked, run⟩ := bind_eq_ok.1 run
  rcases found with e | found
  · obtain ⟨_, -, never⟩ := bind_eq_ok.1 run
    cases never
  · cases found with
    | none =>
        obtain ⟨_, -, never⟩ := bind_eq_ok.1 run
        cases never
    | some d =>
        obtain ⟨_, -, run⟩ := bind_eq_ok.1 run
        have finished {ret : Except Errno Unit} (run : finish c₁ d p ret = .ok (c', .ok ())) : ret = .ok () := by
          obtain ⟨_, -, run⟩ := bind_eq_ok.1 run
          obtain ⟨_, -, run⟩ := bind_eq_ok.1 run
          cases run
          rfl
        cases there : (c₁.dentries d).dInode with
        | none =>
            rw [there] at run
            cases finished run
        | some inode =>
            rw [there] at run
            exact ⟨c₁, d, inode, looked, there, finished run⟩

end Comes

end Minus.Fs.Dcache
