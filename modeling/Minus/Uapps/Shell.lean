/-
# Uapps.Shell — the two working directories of the shell

`cmd_cd` of `uapps/shell/shell.c` keeps a working directory of its own, a string that it
puts in front of relative names (`make_path`), and tells the kernel about it with
`chdir`.  The kernel's is a directory (`fd_chdir`).  The two are the same all along a run
exactly if no `cd` without an argument is given away from the root and no `chdir` to
another directory fails behind the `stat` that allowed it (`cmdCd_synced_iff`).

The kernel walks a tree: `.`, `..` and names of at most 63 characters, as `follow_path`
does.  A call may fail for a reason of its own, such as memory; the step says so.
Where a walk stays in the dentry cache, it is this one (`resolves_tree`).
-/
import Minus.Fs.Umount
import Minus.Theory.Machine

namespace Minus.Uapps.Shell

set_option autoImplicit false

open Minus.Theory
open Minus.Fs.Dcache (Name Errno components)

/-! ## The kernel's side -/

/-- A tree of directories and other files; the parent of the root is the root. -/
structure Tree (Node : Type) where
  root : Node
  isDir : Node → Bool
  parent : Node → Node
  child : Node → Name → Option Node

section Kernel

variable {Node : Type} (t : Tree Node)

/-- The loop of `follow_path`. -/
def followPath (d : Node) : List Name → Except Errno Node
  | [] => .ok d
  | comp :: rest =>
      if !t.isDir d then .error .enotdir
      else if comp = ['.'] then followPath d rest
      else if comp = ['.', '.'] then followPath (t.parent d) rest
      else
        match t.child d (comp.take 63) with
        | none => .error .enoent
        | some x => followPath x rest

/-- `vfs_path_lookup`; without a working directory a relative name starts at the root. -/
def vfsPathLookup (cwd : Option Node) (path : List Char) : Except Errno Node :=
  followPath t (if path.head? = some '/' then t.root else cwd.getD t.root) (components path)

/-- `newfstatat`, as far as `S_ISDIR` goes; `failure` is a failure of its own. -/
def newfstatat (cwd : Option Node) (failure : Option Errno) (path : List Char) : Except Errno Bool :=
  match failure with
  | some e => .error e
  | none => (vfsPathLookup t cwd path).map t.isDir

/-- `fd_chdir`: the working directory afterwards, and the value returned. -/
def fdChdir (cwd : Option Node) (failure : Option Errno) (path : List Char) : Option Node × Except Errno Unit :=
  match failure with
  | some e => (cwd, .error e)
  | none =>
      match vfsPathLookup t cwd path with
      | .error e => (cwd, .error e)
      | .ok d => if !t.isDir d then (cwd, .error .enotdir) else (some d, .ok ())

end Kernel

/-! ## The shell's side -/

/-- `PATH_MAX`. -/
def pathMax : Nat := 256

/-- The slash of `make_path`, if there is room for it. -/
def addSlash (out : List Char) (outsz : Nat) : List Char :=
  if out ≠ [] ∧ out.getLast? ≠ some '/' ∧ out.length < outsz - 1 then out ++ ['/'] else out

/-- `strncat(out, path, outsz - cwd_len - 1)`, if there is room for it. -/
def addPath (out : List Char) (outsz : Nat) (path : List Char) : List Char :=
  if out.length < outsz - 1 then out ++ path.take (outsz - out.length - 1) else out

/-- `make_path`, to a buffer of `outsz` bytes. -/
def makePath (cwd : List Char) (outsz : Nat) (path : List Char) : List Char :=
  if path.head? = some '/' then path.take (outsz - 1)
  else addPath (addSlash (cwd.take (outsz - 1)) outsz) outsz path

/-- The string of the shell, and the working directory of its process. -/
structure Dirs (Node : Type) where
  cwd : List Char
  kernel : Option Node

/-- A `cd`: its argument, and how the two calls fail on their own, if they do. -/
structure Cd where
  arg : List Char
  stat : Option Errno
  chdir : Option Errno

section Commands

variable {Node : Type} (t : Tree Node)

/-- `cmd_cd`: the directories afterwards, and the message. -/
def cmdCd (s : Dirs Node) (cmd : Cd) : Dirs Node × Option String :=
  if cmd.arg = [] then ({ s with cwd := ['/'] }, none)
  else
    let path := makePath s.cwd pathMax cmd.arg
    match newfstatat t s.kernel cmd.stat path with
    | .error _ => (s, some "cd: no such file or directory\n")
    | .ok isDir =>
        if !isDir then (s, some "cd: not a directory\n")
        else ({ cwd := path.take (pathMax - 1), kernel := (fdChdir t s.kernel cmd.chdir path).1 }, none)

/-- A shell that has been started. -/
def start : Dirs Node := ⟨['/'], none⟩

def machine : Machine (Dirs Node) Cd where
  enabled _ _ := True
  step s cmd := (cmdCd t s cmd).1

/-- The directory of the process. -/
def Dirs.place (s : Dirs Node) : Node := s.kernel.getD t.root

/-- The string is an absolute name of the directory of the process. -/
structure Same (s : Dirs Node) : Prop where
  absolute : s.cwd.head? = some '/'
  resolves : vfsPathLookup t none s.cwd = .ok (s.place t)

/-- After each command the string leads to the directory of the process, and a command with a message
changes neither. -/
structure Synced (cmds : List Cd) : Prop where
  same : ∀ past, past <+: cmds → Same t ((machine t).run start past)
  errors : ∀ past cmd, past ++ [cmd] <+: cmds → (cmdCd t ((machine t).run start past) cmd).2 ≠ none →
    (machine t).run start (past ++ [cmd]) = (machine t).run start past

/-- No argument at the root only, and no `chdir` that fails on its own on the way to another directory. -/
structure Keeps (s : Dirs Node) (cmd : Cd) : Prop where
  bare : cmd.arg = [] → s.place t = t.root
  named : cmd.arg ≠ [] → cmd.stat = none → cmd.chdir ≠ none → ∀ d,
    vfsPathLookup t none (makePath s.cwd pathMax cmd.arg) = .ok d → t.isDir d → d = s.place t

end Commands

/-! ## One command -/

theorem length_addSlash_le {out : List Char} {outsz : Nat} (fits : out.length ≤ outsz - 1) :
    (addSlash out outsz).length ≤ outsz - 1 := by
  rw [addSlash]
  split
  · rw [List.length_append, List.length_singleton]
    omega
  · exact fits

theorem length_addPath_le {out : List Char} {outsz : Nat} (fits : out.length ≤ outsz - 1) (path : List Char) :
    (addPath out outsz path).length ≤ outsz - 1 := by
  rw [addPath]
  split
  · rw [List.length_append, List.length_take]
    omega
  · exact fits

theorem length_makePath_le (cwd : List Char) (outsz : Nat) (path : List Char) :
    (makePath cwd outsz path).length ≤ outsz - 1 := by
  rw [makePath]
  split
  · exact List.length_take_le _ _
  · apply length_addPath_le
    apply length_addSlash_le
    exact List.length_take_le _ _

/-- A name behind an absolute one is absolute. -/
theorem makePath_absolute {cwd : List Char} (absolute : cwd.head? = some '/') (path : List Char) :
    (makePath cwd pathMax path).head? = some '/' := by
  have starts (out : List Char) (first : out.head? = some '/') :
      (addSlash out pathMax).head? = some '/' ∧ (addPath out pathMax path).head? = some '/' := by
    constructor
    · rw [addSlash]
      split <;> simp [first]
    · rw [addPath]
      split <;> simp [first]
  rw [makePath]
  split
  next here => simpa [pathMax, List.head?_take] using here
  next => exact (starts _ (starts _ (by simpa [pathMax, List.head?_take] using absolute)).1).2

section Step

variable {Node : Type} {t : Tree Node} {s : Dirs Node} {cmd : Cd}

theorem lookup_absolute {path : List Char} (absolute : path.head? = some '/') (cwd : Option Node) :
    vfsPathLookup t cwd path = vfsPathLookup t none path := by
  simp [vfsPathLookup, absolute]

/-- A message comes only with directories as they were. -/
theorem cmdCd_error (printed : (cmdCd t s cmd).2 ≠ none) : (cmdCd t s cmd).1 = s := by
  by_cases bare : cmd.arg = []
  · simp [cmdCd, bare] at printed
  · simp only [cmdCd, bare, if_false] at printed ⊢
    cases answer : newfstatat t s.kernel cmd.stat (makePath s.cwd pathMax cmd.arg) with
    | error e => rfl
    | ok isDir =>
        cases isDir with
        | false => rfl
        | true => simp [answer] at printed

theorem take_makePath (cwd path : List Char) : (makePath cwd pathMax path).take (pathMax - 1) = makePath cwd pathMax path :=
  List.take_of_length_le (length_makePath_le cwd pathMax path)

/-- A command to a directory. -/
theorem cmdCd_directory (absolute : s.cwd.head? = some '/') (named : cmd.arg ≠ []) (statted : cmd.stat = none) {d : Node}
    (found : vfsPathLookup t none (makePath s.cwd pathMax cmd.arg) = .ok d) (dir : t.isDir d) :
    (cmdCd t s cmd).1 = ⟨makePath s.cwd pathMax cmd.arg, if cmd.chdir = none then some d else s.kernel⟩ := by
  have from_ := @lookup_absolute _ t _ (makePath_absolute absolute cmd.arg) s.kernel
  rw [found] at from_
  simp only [cmdCd, named, if_false, newfstatat, statted, from_, take_makePath, fdChdir, Except.map, dir]
  cases cmd.chdir <;> simp

/-- Any other leaves the directories as they are. -/
theorem cmdCd_refused (absolute : s.cwd.head? = some '/') (named : cmd.arg ≠ [])
    (refused : ¬ ∃ d, cmd.stat = none ∧ vfsPathLookup t none (makePath s.cwd pathMax cmd.arg) = .ok d ∧ t.isDir d) :
    (cmdCd t s cmd).1 = s := by
  have from_ := @lookup_absolute _ t _ (makePath_absolute absolute cmd.arg) s.kernel
  simp only [cmdCd, named, if_false, newfstatat, from_]
  cases statted : cmd.stat with
  | some e => rfl
  | none =>
      cases found : vfsPathLookup t none (makePath s.cwd pathMax cmd.arg) with
      | error e => rfl
      | ok d =>
          have file : ¬ t.isDir d := fun dir => refused ⟨d, statted, found, dir⟩
          simp [Except.map, file]

/-- One command keeps the two the same exactly if it is one of those. -/
theorem cmdCd_same_iff (same : Same t s) : Same t (cmdCd t s cmd).1 ↔ Keeps t s cmd := by
  by_cases bare : cmd.arg = []
  · have result : (cmdCd t s cmd).1 = { s with cwd := ['/'] } := by simp [cmdCd, bare]
    have root : vfsPathLookup t none ['/'] = .ok t.root := rfl
    rw [result]
    constructor
    · intro next
      have there := next.resolves
      rw [root, Except.ok.injEq] at there
      exact ⟨fun _ => there.symm, fun named => absurd bare named⟩
    · intro keeps
      refine ⟨rfl, ?_⟩
      rw [root, ← keeps.bare bare]
      rfl
  · constructor
    · intro next
      refine ⟨fun none_ => absurd none_ bare, fun _ statted failed d found dir => ?_⟩
      have there := next.resolves
      rw [cmdCd_directory same.absolute bare statted found dir, if_neg failed] at there
      exact Except.ok.inj (found.symm.trans there)
    · intro keeps
      by_cases goes : ∃ d, cmd.stat = none ∧ vfsPathLookup t none (makePath s.cwd pathMax cmd.arg) = .ok d ∧ t.isDir d
      · obtain ⟨d, statted, found, dir⟩ := goes
        rw [cmdCd_directory same.absolute bare statted found dir]
        refine ⟨makePath_absolute same.absolute _, ?_⟩
        by_cases failed : cmd.chdir = none
        · rw [if_pos failed]
          exact found
        · rw [if_neg failed]
          exact found.trans (congrArg Except.ok (keeps.named bare statted failed d found dir))
      · rw [cmdCd_refused same.absolute bare goes]
        exact same

end Step

/-- The two are the same all along a run exactly if its commands are such. -/
theorem cmdCd_synced_iff {Node : Type} (t : Tree Node) (cmds : List Cd) :
    Synced t cmds ↔ ((machine t).guard (Keeps t)).Admits start cmds := by
  have initial : Same t (start : Dirs Node) := ⟨rfl, rfl⟩
  have exact_ := (machine t).guard_admits_iff (fun s cmd same _ => cmdCd_same_iff same) initial
    ((machine t).admits_of_enabled (fun _ _ => trivial) start cmds)
  rw [← exact_]
  constructor
  · exact Synced.same
  · intro same
    refine ⟨same, fun past cmd _ printed => ?_⟩
    rw [(machine t).run_append]
    exact cmdCd_error printed

/-- The directory `/a`. -/
def oneDirectory : Tree Bool where
  root := false
  isDir _ := true
  parent _ := false
  child d name := if d = false ∧ name = ['a'] then some true else none

/-- `cd a`, then `cd`. -/
theorem cmdCd_bare :
    ((machine oneDirectory).run start [⟨['a'], none, none⟩, ⟨[], none, none⟩]).cwd = ['/'] ∧
      ((machine oneDirectory).run start [⟨['a'], none, none⟩, ⟨[], none, none⟩]).kernel = some true ∧
      ¬ Synced oneDirectory [⟨['a'], none, none⟩, ⟨[], none, none⟩] := by
  refine ⟨by decide, by decide, fun synced => ?_⟩
  have there := (synced.same _ (List.prefix_refl _)).resolves
  cases there

/-! ## The walk in the dentry cache -/

section Cache

open Minus.Fs.Dcache (Cache Id Vfsmount Vfs Env Leads IsDir Resolves covered outside outerMnt lookupFrom)

/-- What a cache shows of the tree; a node is a dentry with its mount. -/
def cacheTree (c : Cache) (root : Id × Vfsmount) : Tree (Id × Vfsmount) where
  root := root
  isDir d := (c.dentries d.1).dInode.any (·.isDir)
  parent d := ((c.dentries (outside d.2 d.1)).dParent, outerMnt d.2 d.1)
  child d name :=
    match lookupFrom c d.1 name (c.live.length + 1) (c.links.next (.subdirs d.1)) with
    | .ok (some x) => some (covered c d.2 x)
    | _ => none

theorem followPath_leads {c : Cache} (root : Id × Vfsmount) {w d : Id} {m mnt : Vfsmount} {comps : List Name}
    (leads : Leads c (IsDir c) w m d mnt comps) : followPath (cacheTree c root) (d, mnt) comps = .ok (w, m) := by
  have inside {d : Id} (mnt : Vfsmount) (isDir : IsDir c d) : (cacheTree c root).isDir (d, mnt) = true := isDir
  induction leads with
  | here => rfl
  | @dot d mnt rest kept isDir leads ih => simp [followPath, inside mnt isDir, ih]
  | @up d mnt rest kept isDir out parent leads ih =>
      simp only [followPath, inside mnt isDir]
      exact ih
  | @down d x mnt comp rest kept isDir child cached found inner leads ih =>
      simp only [followPath, inside mnt isDir, child.1, child.2]
      simp only [cacheTree]
      rw [cached]
      exact ih

/-- A walk that the cache answers is the walk in its tree. -/
theorem resolves_tree {s : Vfs} {task : Option Nat} {path : List Char} {w : Id} {m top : Vfsmount}
    (resolves : Resolves s task path w m) (mounted : s.rootMnt = some top) (env : Env) :
    Minus.Fs.Dcache.vfsPathLookup env (s.context task) s.cache path =
      .ok (s.cache.bump w 1, vfsPathLookup (cacheTree s.cache (top.mntRoot, top)) (s.cwd task) path) := by
  rw [resolves.walk env]
  obtain ⟨root, mnt, start, -, leads⟩ := resolves
  have place : (if path.head? = some '/' then (top.mntRoot, top) else (s.cwd task).getD (top.mntRoot, top)) = (root, mnt) := by
    simp only [Minus.Fs.Dcache.Context.start, Minus.Fs.Dcache.Vfs.context, mounted] at start
    split at start
    next here => simpa [here] using start
    next here =>
      rw [if_neg here]
      cases cwd : s.cwd task <;> simpa [cwd] using start
  rw [vfsPathLookup, cacheTree, place, ← cacheTree, followPath_leads _ leads]

end Cache

end Minus.Uapps.Shell
