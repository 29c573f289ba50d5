/-
# Fs.Fdtable — the table of open files of a process

`kernel/fs/service/fdtable.c` and the life of a table behind `fs_service.c`:
`files_create`, `fd_openat`, `fd_close`, `setup_std_fds` and `files_destroy`.

A `struct file` is named by the number of the `kmalloc` that made it, so that a file
has one name over the whole run; a use of a file that `kfree` has taken is a fault.
`events` records what `vfs_close` does to each file.  The mirror `cur_files` and the
capability of the table lead to the table, which is in use until `files_destroy`.
-/
import Minus.Fs.Vfs

namespace Minus.Fs.Fdtable

set_option autoImplicit false

open Minus.Theory
open Minus.Fs.Dcache (Id Inode Cache Vfs Vfsmount Fault FsEnv Context dput)

/-- `NR_OPEN_DEFAULT`. -/
def nrOpenDefault : Nat := 16

abbrev Fd := Fin nrOpenDefault

/-- The errors of the descriptor layer, and those of the calls below. -/
inductive Errno where
  | ebadf
  | emfile
  | vfs (e : Dcache.Errno)
  deriving DecidableEq

/-- `struct file`; `fRelease` says that `f_op` has a `release`. -/
structure File where
  fDentry : Id
  fCount : Int
  fRelease : Bool

/-- `struct files_struct`, with `cwd_dentry` and `cwd_mnt` of its `fs_ctx`. -/
structure FilesStruct where
  fdArray : Fd → Option Nat
  cwd : Option (Id × Vfsmount)

/-- What `vfs_close` does to a file in the end. -/
inductive Event where
  | release (file : Nat)
  | dput (file : Nat)
  | kfree (file : Nat)
  deriving DecidableEq

def Event.file : Event → Nat
  | .release p => p
  | .dput p => p
  | .kfree p => p

/-- The environment of an open, and which inodes have a `release`. -/
structure FileEnv extends FsEnv where
  release : Inode → Bool

/-- The table, its files, and the rest of the file system. -/
structure FdState where
  vfs : Vfs
  table : FilesStruct
  file : Nat → File
  live : List Nat
  made : Nat
  events : List Event
  fault : Option Fault

def FdState.withCache (s : FdState) (c : Cache) : FdState := { s with vfs := { s.vfs with cache := c } }

/-! ## Files -/

/-- `vfs_open`, with the `kmalloc` of its `dentry_open`. -/
def vfsOpen (env : FileEnv) (ctx : Context) (s : FdState) (path : List Char) (creat directory : Bool) :
    Except Fault (FdState × Except Errno Nat) := do
  match ← Dcache.vfsOpen env.toFsEnv ctx s.vfs.cache path creat directory with
  | (c, .error e) => .ok (s.withCache c, .error (.vfs e))
  | (c, .ok d) =>
      let file : File := ⟨d, 1, (c.dentries d).dInode.any env.release⟩
      .ok ({ s.withCache c with
             file := Function.update s.file s.made file
             live := s.made :: s.live
             made := s.made + 1 }, .ok s.made)

def vfsClose (s : FdState) (p : Nat) : Except Fault FdState :=
  if p ∉ s.live then .error .freed
  else
    let filp := s.file p
    let filp := { filp with fCount := filp.fCount - 1 }
    if filp.fCount ≤ 0 then do
      let hook := if filp.fRelease then [Event.release p] else []
      let c ← dput s.vfs.cache filp.fDentry
      .ok { s.withCache c with
            live := s.live.erase p
            events := s.events ++ hook ++ [.dput p, .kfree p] }
    else .ok { s with file := Function.update s.file p filp }

/-! ## fdtable.c -/

/-- `get_unused_fd`. -/
def getUnusedFd (files : FilesStruct) : Option Fd :=
  (List.finRange nrOpenDefault).find? fun fd => (files.fdArray fd).isNone

/-- An `int` that is a descriptor. -/
def toFd (fd : Int) : Option Fd :=
  if small : 0 ≤ fd ∧ fd < nrOpenDefault then some ⟨fd.toNat, by omega⟩ else none

def fget (files : FilesStruct) (fd : Int) : Option Nat := (toFd fd).bind files.fdArray

def fdInstall (files : FilesStruct) (fd : Fd) (file : Nat) : FilesStruct :=
  { files with fdArray := Function.update files.fdArray fd (some file) }

def putUnusedFd (files : FilesStruct) (fd : Int) : FilesStruct :=
  match toFd fd with
  | some fd => { files with fdArray := Function.update files.fdArray fd none }
  | none => files

/-- Open a file and install it: the common part of `fd_openat` and `fs_setup_std_fds`. -/
def openInstall (env : FileEnv) (ctx : Context) (s : FdState) (path : List Char)
    (creat directory : Bool) : Except Fault (FdState × Except Errno Fd) := do
  match ← vfsOpen env ctx s path creat directory with
  | (s, .error e) => .ok (s, .error e)
  | (s, .ok file) =>
      match getUnusedFd s.table with
      | none => do
          let s ← vfsClose s file
          .ok (s, .error .emfile)
      | some fd => .ok ({ s with table := fdInstall s.table fd file }, .ok fd)

/-- `fd_openat`; the walk starts from the working directory of this table. -/
def fdOpenat (env : FileEnv) (s : FdState) (path : List Char) (creat directory : Bool) :
    Except Fault (FdState × Except Errno Fd) :=
  openInstall env ⟨s.vfs.rootMnt, s.table.cwd⟩ s path creat directory

/-- Take the file out of its slot and close it. -/
def closeSlot (s : FdState) (fd : Int) : Except Fault (FdState × Except Errno Unit) :=
  match fget s.table fd with
  | none => .ok (s, .error .ebadf)
  | some file => do
      let s ← vfsClose { s with table := putUnusedFd s.table fd } file
      .ok (s, .ok ())

/-- `fd_close`: the `unsigned int` becomes an `int` in `fget`. -/
def fdClose (s : FdState) (fd : UInt32) : Except Fault (FdState × Except Errno Unit) :=
  closeSlot s fd.toInt32.toInt

/-! ## fs_service.c -/

/-- `fs_files_create`, once its allocations have succeeded. -/
def filesCreate (vfs : Vfs) : FdState where
  vfs
  table := ⟨fun _ => none, none⟩
  file _ := ⟨0, 0, false⟩
  live := []
  made := 0
  events := []
  fault := none

def devConsole : List Char := ['/', 'd', 'e', 'v', '/', 'c', 'o', 'n', 's', 'o', 'l', 'e']

/-- The first loop of `fs_setup_std_fds`, one environment for each open. -/
def setupLoop (ctx : Context) : List FileEnv → FdState → Except Fault (FdState × Except Errno Unit)
  | [], s => .ok (s, .ok ())
  | env :: rest, s => do
      match ← openInstall env ctx s devConsole false false with
      | (s, .error e) => .ok (s, .error e)
      | (s, .ok _) => setupLoop ctx rest s

/-- The loop at `fail`. -/
def failLoop : List Int → FdState → Except Fault FdState
  | [], s => .ok s
  | fd :: rest, s => do
      let (s, _) ← closeSlot s fd
      failLoop rest s

/-- `stdin`, `stdout` and `stderr`. -/
instance stdFiles : NeZero 3 := ⟨by decide⟩

/-- `fs_setup_std_fds`, called by `task`. -/
def setupStdFds (envs : Fin 3 → FileEnv) (task : Option Nat) (s : FdState) :
    Except Fault (FdState × Except Errno Unit) := do
  match ← setupLoop (s.vfs.context task) [envs 0, envs 1, envs 2] s with
  | (s, .ok _) => .ok (s, .ok ())
  | (s, .error e) => do
      let s ← failLoop [0, 1, 2] s
      .ok (s, .error e)

/-- `free_files_struct`, which `fs_files_destroy` calls. -/
def filesDestroy (s : FdState) : Except Fault FdState :=
  match s.table.cwd with
  | some (d, _) => do
      let c ← dput s.vfs.cache d
      .ok (s.withCache c)
  | none => .ok s

inductive FdCall where
  | openat (env : FileEnv) (path : List Char) (creat directory : Bool)
  | close (fd : UInt32)
  | setupStdFds (envs : Fin 3 → FileEnv) (task : Option Nat)

def perform (s : FdState) : FdCall → Except Fault FdState
  | .openat env path creat directory => do
      let (s, _) ← fdOpenat env s path creat directory
      .ok s
  | .close fd => do
      let (s, _) ← fdClose s fd
      .ok s
  | .setupStdFds envs task => do
      let (s, _) ← setupStdFds envs task s
      .ok s

end Minus.Fs.Fdtable
