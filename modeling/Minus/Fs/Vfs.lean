/-
# Fs.Vfs — the calls that take and drop references to dentries

`vfs_open`, `vfs_close`, `vfs_stat` (`kernel/fs/service/vfs.c`), `vfs_do_unlink`,
`vfs_do_rmdir`, `vfs_do_mkdir` (`namei.c`), `vfs_do_mount` (`mount.c`) and
`fd_chdir` (`fdtable.c`), as far as they concern dentries: what a call writes into
a `struct file` or a `struct stat` is left out, and so is `O_TRUNC`, which only
sets the size of the inode.

`follow_path` reads two things beside the cache: the root mount and the working
directory of the running task (`Context`).
-/
import Minus.Fs.Dcache

namespace Minus.Fs.Dcache

set_option autoImplicit false

open Minus.Theory

/-- The rest of the environment: the operations of the file system below, and
whether the other allocations succeed. -/
structure FsEnv extends Env where
  create : Nat → Name → Except Errno Inode
  mkdir : Nat → Name → Except Errno Inode
  unlink : Nat → Name → Except Errno Unit
  rmdir : Nat → Name → Except Errno Unit
  fileAlloc : Bool
  openHook : Inode → Except Errno Unit
  mount : Except Errno Inode
  mntAlloc : Bool

/-- What `follow_path` reads beside the cache. -/
structure Context where
  rootMnt : Option Vfsmount
  cwd : Option (Id × Vfsmount)

/-- Where a walk starts. -/
def Context.start (ctx : Context) (path : List Char) : Option (Id × Vfsmount) :=
  let root := ctx.rootMnt.map fun mnt => (mnt.mntRoot, mnt)
  if path.head? = some '/' then root
  else match ctx.cwd with
    | some place => some place
    | none => root

def followPath (env : Env) (ctx : Context) (c : Cache) (path : List Char) :
    Except Fault (Cache × Except Errno (Id × Vfsmount)) :=
  match ctx.start path with
  | none => .ok (c, .error .enoent)
  | some (d, mnt) => do
      let c ← dget c d
      followLoop env c d mnt (components path)

def vfsPathLookup (env : Env) (ctx : Context) (c : Cache) (path : List Char) :
    Except Fault (Cache × Except Errno (Id × Vfsmount)) :=
  followPath env ctx c path

/-- `dentry->d_inode`, which the caller follows. -/
def inodeOf (c : Cache) (d : Id) : Except Fault Inode := do
  touch c d
  match (c.dentries d).dInode with
  | some inode => .ok inode
  | none => .error .null

/-! ## Opening -/

/-- The common start of the calls in a directory: the walk to it, and that it is one. -/
def inDirectory {α : Type} (env : Env) (ctx : Context) (c : Cache) (path : List Char)
    (body : Cache → Id → Inode → Name → Except Fault (Cache × Except Errno α)) :
    Except Fault (Cache × Except Errno α) :=
  match splitLastComponent path with
  | .error e => .ok (c, .error e)
  | .ok (parent, name) => do
      match ← vfsPathLookup env ctx c parent with
      | (c, .error e) => .ok (c, .error e)
      | (c, .ok (p, _)) =>
          let dir ← inodeOf c p
          if !dir.isDir then failed c p .enotdir
          else body c p dir name

/-- `dentry_open`: the new file's reference to the dentry. -/
def dentryOpen (env : FsEnv) (c : Cache) (d : Id) : Except Fault (Cache × Except Errno Id) := do
  let c ← dget c d
  match (c.dentries d).dInode with
  | none => failed c d .enoent
  | some inode =>
      if !env.fileAlloc then failed c d .enomem
      else match env.openHook inode with
        | .error e => failed c d e
        | .ok () => .ok (c, .ok d)

/-- The end of `vfs_create`: the dentry is new in the directory `p`. -/
def createIn (env : FsEnv) (c : Cache) (p : Id) (dir : Inode) (name : Name) :
    Except Fault (Cache × Except Errno Id) := do
  match ← dAlloc env.toEnv c (some p) name with
  | (c, none) => failed c p .enomem
  | (c, some d) =>
      if (c.dentries d).dInode ≠ none then do
        let c ← dput c d
        failed c p .eexist
      else match env.create dir.iNo (name.take 63) with
        | .error e => do
            let c ← dput c d
            failed c p e
        | .ok inode => do
            let c ← dInstantiate c d inode
            let (c, ret) ← dentryOpen env c d
            let c ← dput c d
            let c ← dput c p
            .ok (c, ret)

def vfsCreate (env : FsEnv) (ctx : Context) (c : Cache) (path : List Char) :
    Except Fault (Cache × Except Errno Id) :=
  inDirectory env.toEnv ctx c path (createIn env)

/-- `vfs_open` with `O_CREAT` and `O_DIRECTORY` or not. -/
def vfsOpen (env : FsEnv) (ctx : Context) (c : Cache) (path : List Char) (creat directory : Bool) :
    Except Fault (Cache × Except Errno Id) := do
  match ← vfsPathLookup env.toEnv ctx c path with
  | (c, .error e) =>
      if creat ∧ e = .enoent then vfsCreate env ctx c path else .ok (c, .error e)
  | (c, .ok (d, _)) =>
      let inode ← inodeOf c d
      if directory ∧ !inode.isDir then failed c d .enotdir
      else do
        let (c, ret) ← dentryOpen env c d
        let c ← dput c d
        .ok (c, ret)

/-! ## Calls that keep no reference -/

def vfsStat (env : Env) (ctx : Context) (c : Cache) (path : List Char) :
    Except Fault (Cache × Except Errno Unit) := do
  match ← vfsPathLookup env ctx c path with
  | (c, .error e) => .ok (c, .error e)
  | (c, .ok (d, _)) =>
      touch c d
      if (c.dentries d).dInode = none then failed c d .enoent
      else do
        let c ← dput c d
        .ok (c, .ok ())

/-- The last two `dput` of a call in a directory. -/
def finish {α : Type} (c : Cache) (d p : Id) (ret : Except Errno α) :
    Except Fault (Cache × Except Errno α) := do
  let c ← dput c d
  let c ← dput c p
  .ok (c, ret)

/-- `vfs_do_unlink` and `vfs_do_rmdir` look the name up; `remove` is the check of the
inode's kind and the call of the file system. -/
def removeIn (env : Env) (remove : Inode → Inode → Name → Except Errno Unit) (c : Cache) (p : Id)
    (dir : Inode) (name : Name) : Except Fault (Cache × Except Errno Unit) := do
  match ← lookupOneLen env c name p with
  | (c, .error e) => failed c p e
  | (c, .ok none) => failed c p .enoent
  | (c, .ok (some d)) =>
      touch c d
      match (c.dentries d).dInode with
      | none => finish c d p (.error .enoent)
      | some inode => finish c d p (remove dir inode (c.dentries d).dName)

def vfsDoUnlink (env : FsEnv) (ctx : Context) (c : Cache) (path : List Char) :
    Except Fault (Cache × Except Errno Unit) :=
  inDirectory env.toEnv ctx c path <| removeIn env.toEnv fun dir inode name =>
    if inode.isDir then .error .eisdir else env.unlink dir.iNo name

def vfsDoRmdir (env : FsEnv) (ctx : Context) (c : Cache) (path : List Char) :
    Except Fault (Cache × Except Errno Unit) :=
  inDirectory env.toEnv ctx c path <| removeIn env.toEnv fun dir inode name =>
    if !inode.isDir then .error .enotdir else env.rmdir dir.iNo name

/-- The end of `vfs_do_mkdir`. -/
def mkdirIn (env : FsEnv) (c : Cache) (p : Id) (dir : Inode) (name : Name) :
    Except Fault (Cache × Except Errno Unit) := do
  match ← dAlloc env.toEnv c (some p) name with
  | (c, none) => failed c p .enomem
  | (c, some d) =>
      match env.mkdir dir.iNo (name.take 63) with
      | .error e => finish c d p (.error e)
      | .ok inode => do
          let c ← dInstantiate c d inode
          finish c d p (.ok ())

def vfsDoMkdir (env : FsEnv) (ctx : Context) (c : Cache) (path : List Char) :
    Except Fault (Cache × Except Errno Unit) :=
  inDirectory env.toEnv ctx c path (mkdirIn env)

/-! ## The state and its calls -/

structure File where
  fDentry : Id
  fCount : Int

/-- The cache, and who refers to dentries between two calls. -/
structure Vfs where
  cache : Cache
  superblocks : List Id
  mounts : List Vfsmount
  rootMnt : Option Vfsmount
  files : List File
  cwds : List (Nat × Id × Vfsmount)
  paths : List Id
  fault : Option Fault

/-- A boot without a mount. -/
def Vfs.initial : Vfs where
  cache := ⟨⟨id, id⟩, fun d => ⟨d, none, none, [], 0⟩, [], 0⟩
  superblocks := []
  mounts := []
  rootMnt := none
  files := []
  cwds := []
  paths := []
  fault := none

def Vfs.cwd (s : Vfs) (task : Option Nat) : Option (Id × Vfsmount) :=
  task.bind fun t => s.cwds.lookup t

def Vfs.context (s : Vfs) (task : Option Nat) : Context := ⟨s.rootMnt, s.cwd task⟩

/-- `kern_mount`: the root of the new super block, with the references of the super
block and of the mount. -/
def kernMount (env : FsEnv) (c : Cache) : Except Fault (Cache × Except Errno Id × Option Id) :=
  match env.mount with
  | .error e => .ok (c, .error e, none)
  | .ok inode => do
      match ← dAlloc env.toEnv c none ['/'] with
      | (c, none) => .ok (c, .error .eio, none)
      | (c, some root) =>
          let c ← dInstantiate c root inode
          if !env.mntAlloc then .ok (c, .error .enomem, some root)
          else do
            let c ← dget c root
            .ok (c, .ok root, some root)

def Vfs.addMount (s : Vfs) (c : Cache) (mnt : Vfsmount) : Vfs :=
  { s with cache := c, mounts := mnt :: s.mounts, superblocks := mnt.mntRoot :: s.superblocks }

/-- `vfs_do_mount` on a directory: `root` is the new mount's. -/
def mountOn (env : FsEnv) (task : Option Nat) (s : Vfs) (c : Cache) (root : Id) (path : List Char) :
    Except Fault (Vfs × Except Errno Unit) := do
  let lost (c : Cache) (e : Errno) : Except Fault (Vfs × Except Errno Unit) := do
    let c ← dput c root
    .ok ({ s with cache := c, superblocks := root :: s.superblocks }, .error e)
  match ← vfsPathLookup env.toEnv (s.context task) c path with
  | (c, .error e) => lost c e
  | (c, .ok (p, up)) =>
      let inode ← inodeOf c p
      if !inode.isDir then do
        let c ← dput c p
        lost c .enotdir
      else if (c.dentries p).dMounted.isSome then do
        let c ← dput c p
        lost c .ebusy
      else do
        let mnt : Vfsmount := ⟨root, p, some up⟩
        let c ← dget c p
        let c := c.modify p fun e => { e with dMounted := some mnt }
        let c ← dput c p
        .ok (s.addMount c mnt, .ok ())

def vfsDoMount (env : FsEnv) (task : Option Nat) (s : Vfs) (path : List Char) :
    Except Fault (Vfs × Except Errno Unit) := do
  match ← kernMount env s.cache with
  | (c, .error e, made) =>
      .ok ({ s with cache := c, superblocks := made.toList ++ s.superblocks }, .error e)
  | (c, .ok root, _) =>
      if path = ['/'] then do
        let mnt : Vfsmount := ⟨root, root, none⟩
        let c ← dget c root
        .ok ({ s.addMount c mnt with rootMnt := some mnt }, .ok ())
      else mountOn env task s c root path

/-- `fd_chdir`: the reference of the lookup becomes that of the working directory. -/
def fdChdir (env : Env) (task : Option Nat) (s : Vfs) (path : List Char) :
    Except Fault (Vfs × Except Errno Unit) :=
  match task with
  | none => .ok (s, .error .ebadf)
  | some t => do
      match ← vfsPathLookup env (s.context task) s.cache path with
      | (c, .error e) => .ok ({ s with cache := c }, .error e)
      | (c, .ok (d, mnt)) =>
          let inode ← inodeOf c d
          if !inode.isDir then do
            let c ← dput c d
            .ok ({ s with cache := c }, .error .enotdir)
          else do
            let c ← match s.cwds.lookup t with
              | some (old, _) => dput c old
              | none => .ok c
            .ok ({ s with cache := c, cwds := (t, d, mnt) :: s.cwds.filter (·.1 ≠ t) }, .ok ())

def vfsClose (s : Vfs) (i : Nat) : Except Fault Vfs :=
  match s.files[i]? with
  | none => .ok s
  | some file =>
      if file.fCount - 1 ≤ 0 then do
        let c ← dput s.cache file.fDentry
        .ok { s with cache := c, files := s.files.eraseIdx i }
      else
        .ok { s with files := s.files.set i { file with fCount := file.fCount - 1 } }

/-- The caller of `vfs_path_lookup` gives the path back. -/
def releasePath (s : Vfs) (i : Nat) : Except Fault Vfs :=
  match s.paths[i]? with
  | none => .ok s
  | some d => do
      let c ← dput s.cache d
      .ok { s with cache := c, paths := s.paths.eraseIdx i }

inductive Call where
  | lookup (path : List Char)
  | release (i : Nat)
  | openFile (path : List Char) (creat directory : Bool)
  | close (i : Nat)
  | stat (path : List Char)
  | mkdir (path : List Char)
  | unlink (path : List Char)
  | rmdir (path : List Char)
  | chdir (path : List Char)
  | mount (path : List Char)

/-- A call, the task that makes it, and what its environment does. -/
structure Action where
  env : FsEnv
  task : Option Nat
  call : Call

def perform (s : Vfs) (a : Action) : Except Fault Vfs :=
  let ctx := s.context a.task
  match a.call with
  | .lookup path => do
      match ← vfsPathLookup a.env.toEnv ctx s.cache path with
      | (c, .ok (d, _)) => .ok { s with cache := c, paths := d :: s.paths }
      | (c, .error _) => .ok { s with cache := c }
  | .release i => releasePath s i
  | .openFile path creat directory => do
      match ← vfsOpen a.env ctx s.cache path creat directory with
      | (c, .ok d) => .ok { s with cache := c, files := ⟨d, 1⟩ :: s.files }
      | (c, .error _) => .ok { s with cache := c }
  | .close i => vfsClose s i
  | .stat path => do
      let (c, _) ← vfsStat a.env.toEnv ctx s.cache path
      .ok { s with cache := c }
  | .mkdir path => do
      let (c, _) ← vfsDoMkdir a.env ctx s.cache path
      .ok { s with cache := c }
  | .unlink path => do
      let (c, _) ← vfsDoUnlink a.env ctx s.cache path
      .ok { s with cache := c }
  | .rmdir path => do
      let (c, _) ← vfsDoRmdir a.env ctx s.cache path
      .ok { s with cache := c }
  | .chdir path => do
      let (s, _) ← fdChdir a.env.toEnv a.task s path
      .ok s
  | .mount path => do
      let (s, _) ← vfsDoMount a.env a.task s path
      .ok s

end Minus.Fs.Dcache
