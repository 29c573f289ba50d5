/-
# Fs.Namei — calls on paths, down to the directories of ext4

The dentry cache of `Fs.Dcache` with the inodes behind it (`kernel/fs/service/inode.c`),
the operations of ext4 on its directories (`backend/ext4fs/namei.c` and `inode.c`), and
over them the path walk and the calls of `service/namei.c` and `vfs.c`.

A `struct inode` is named by its address; a dentry's `d_inode` names it in the field
`iNo`.  The inode tree is the list of the inodes in it.  `rb_delete` of an inode that was
never inserted finds its links zero and takes it for the root, so that the tree is empty
afterwards.  What an inode's number leads to on the volume, `Disk`, is what the cached
inode says, written back or not; an inode is a directory or a regular file, and file
blocks, sizes and link counts are left out.

One ext4 volume is mounted at the root.  The allocators and the device answer as they
like (`Env`); `clock` counts their answers.
-/
import Minus.Fs.Ext4Dir
import Minus.Fs.Vfs
import Minus.Theory.Machine
import Minus.Theory.Stateful

namespace Minus.Fs.Namei

set_option autoImplicit false

open Minus.Theory
open Minus.Fs.Dcache (Id Name Errno Fault Cache Dentry Vfsmount touch components splitLastComponent)
open Minus.Fs.Ext4Dir (Directory makeEmpty ftDir ftRegFile dot dotdot)

/-- `struct inode`; `populated` says that `i_mode` is not 0. -/
structure Inode where
  iNo : Nat
  iCount : Int
  iDirty : Bool
  populated : Bool
  isDir : Bool

/-- The volume by inode numbers. -/
structure Disk where
  isDir : Nat → Bool
  dirs : Nat → Directory
  bitmap : List Nat
  blockSize : UInt16

structure FsState where
  cache : Cache
  inode : Nat → Inode
  inodes : List Nat
  tree : List Nat
  disk : Disk
  rootMnt : Option Vfsmount
  files : List Id
  clock : Nat

/-- The answers of the allocators and of the device. -/
structure Env where
  allocDentry : Nat → List Id → Option Id
  dentryFresh : ∀ n live d, allocDentry n live = some d → d ∉ live
  allocInode : Nat → List Nat → Option Nat
  inodeFresh : ∀ n live p, allocInode n live = some p → p ∉ live
  findFreeInode : Nat → List Nat → Option Nat
  inoFresh : ∀ n used ino, findFreeInode n used = some ino → ino ≠ 0 ∧ ino ∉ used
  infoAlloc : Nat → Bool
  readInode : Nat → Bool
  writeInode : Nat → Bool
  readBlock : Nat → Nat → Bool
  room : Nat → Except Errno Unit
  fileAlloc : Nat → Bool

/-- The dentry cache's part of the environment. -/
def Env.dentries (env : Env) : Dcache.Env := ⟨env.allocDentry, fun _ _ => .ok none, env.dentryFresh⟩

abbrev Op := StateT FsState (Except Fault)

/-- The next answer. -/
def tick : Op Nat := fun s => .ok (s.clock, { s with clock := s.clock + 1 })

/-- `if (c) m;`. -/
def onlyIf (c : Bool) (m : Op Unit) : Op Unit := if c then m else pure ()

/-! ## inode.c -/

/-- Follow a pointer to an inode. -/
def inodeAt (p : Nat) : Op Inode := fun s =>
  if p ∈ s.inodes then .ok (s.inode p, s) else .error .freed

def setInode (p : Nat) (inode : Inode) : Op Unit := fun s =>
  .ok ((), { s with inode := Function.update s.inode p inode })

def newInode (env : Env) : Op (Option Nat) := do
  let n ← tick
  fun s =>
    match env.allocInode n s.inodes with
    | none => .ok (none, s)
    | some p =>
        .ok (some p, { s with
          inode := Function.update s.inode p ⟨0, 1, false, false, false⟩
          inodes := p :: s.inodes })

def inodeFind (ino : Nat) : Op (Option Nat) := fun s =>
  .ok (s.tree.find? fun p => (s.inode p).iNo = ino, s)

def insertInodeHash (p : Nat) : Op Unit := fun s => .ok ((), { s with tree := p :: s.tree })

def iget (env : Env) (ino : Nat) : Op (Option Nat) := do
  match ← inodeFind ino with
  | some p => do
      let inode ← inodeAt p
      setInode p { inode with iCount := inode.iCount + 1 }
      pure (some p)
  | none => do
      match ← newInode env with
      | none => pure none
      | some p => do
          let inode ← inodeAt p
          setInode p { inode with iNo := ino }
          insertInodeHash p
          pure (some p)

def markInodeDirty (p : Nat) : Op Unit := do
  let inode ← inodeAt p
  setInode p { inode with iDirty := true }

def writeInodeNow (env : Env) (p : Nat) : Op Unit := do
  let inode ← inodeAt p
  let n ← tick
  if env.writeInode n then setInode p { inode with iDirty := false } else pure ()

/-- `rb_delete` from the tree, and `destroy_inode`. -/
def destroyInode (p : Nat) : Op Unit := fun s =>
  .ok ((), { s with
    tree := if p ∈ s.tree then s.tree.erase p else []
    inodes := s.inodes.erase p })

def iput (env : Env) (p : Nat) : Op Unit := do
  let inode ← inodeAt p
  let inode := { inode with iCount := inode.iCount - 1 }
  setInode p inode
  if inode.iCount ≤ 0 then do
    onlyIf inode.iDirty (writeInodeNow env p)
    destroyInode p
  else pure ()

/-! ## dcache.c -/

def onCache {α : Type} (f : Cache → Except Fault (Cache × α)) : Op α := fun s => do
  let (c, a) ← f s.cache
  .ok (a, { s with cache := c })

/-- Follow a pointer to a dentry. -/
def dentryAt (d : Id) : Op Dentry := fun s => do
  touch s.cache d
  .ok (s.cache.dentries d, s)

def dget (d : Id) : Op Unit := onCache fun c => do
  let c ← Dcache.dget c d
  .ok (c, ())

def dLookup (parent : Id) (name : Name) : Op (Option Id) := onCache fun c => Dcache.dLookup c parent name

def dAlloc (env : Env) (parent : Option Id) (name : Name) : Op (Option Id) :=
  onCache fun c => Dcache.dAlloc env.dentries c parent name

def dInstantiate (d : Id) (p : Nat) : Op Unit := do
  let inode ← inodeAt p
  onCache fun c => do
    let c ← Dcache.dInstantiate c d ⟨p, inode.isDir⟩
    .ok (c, ())
  setInode p { inode with iCount := inode.iCount + 1 }

/-- The dentry's own part of `dput`. -/
def dputDentry (d : Id) : Op Unit := onCache fun c => do
  let c ← Dcache.dput c d
  .ok (c, ())

def dput (env : Env) (d : Id) : Op Unit := do
  let e ← dentryAt d
  dputDentry d
  if e.dCount - 1 ≤ 0 then
    match e.dInode with
    | some inode => iput env inode.iNo
    | none => pure ()
  else pure ()

/-! ## ext4 -/

def ext4Iget (env : Env) (ino : Nat) : Op (Option Nat) := do
  match ← iget env ino with
  | none => pure none
  | some p => do
      let inode ← inodeAt p
      if inode.populated then pure (some p)
      else do
        let n ← tick
        if !(env.infoAlloc n && env.readInode n) then do
          iput env p
          pure none
        else fun s =>
          .ok (some p, { s with
            inode := Function.update s.inode p { s.inode p with populated := true, isDir := s.disk.isDir ino } })

/-- The blocks of a directory. -/
def directoryOf (dir : Nat) : Op Directory := do
  let inode ← inodeAt dir
  fun s => .ok (s.disk.dirs inode.iNo, s)

/-- `ext4_lookup`: whether the dentry was found and has its inode. -/
def ext4Lookup (env : Env) (dir : Nat) (d : Id) (name : Name) : Op (Except Errno Bool) := do
  let blocks ← directoryOf dir
  let n ← tick
  match Ext4Dir.lookup (env.readBlock n) blocks name with
  | .error e => pure (.error e)
  | .ok none => pure (.ok false)
  | .ok (some ino) => do
      match ← ext4Iget env ino with
      | none => pure (.error .eio)
      | some p => do
          dInstantiate d p
          pure (.ok true)

/-- `ext4_alloc_inode`: a number from the bitmap, and the private part. -/
def ext4AllocInode (env : Env) (p : Nat) : Op (Except Errno Nat) := do
  let n ← tick
  fun s =>
    match env.findFreeInode n s.disk.bitmap with
    | none => .ok (.error (.other 28), s)
    | some ino =>
        let s := { s with
          disk := { s.disk with bitmap := ino :: s.disk.bitmap }
          inode := Function.update s.inode p { s.inode p with iNo := ino } }
        if env.infoAlloc n then .ok (.ok ino, s) else .ok (.error .enomem, s)

/-- `ext4_add_entry` on an inode. -/
def ext4AddEntry (env : Env) (dir : Nat) (name : Name) (ino : Nat) (type : UInt8) :
    Op (Except Errno Unit) := do
  let inode ← inodeAt dir
  let n ← tick
  fun s =>
    match Ext4Dir.addEntry (env.readBlock n) (env.room n) s.disk.blockSize (s.disk.dirs inode.iNo) name ino type with
    | .error e => .ok (.error e, s)
    | .ok blocks =>
        .ok (.ok (), { s with disk := { s.disk with dirs := Function.update s.disk.dirs inode.iNo blocks } })

/-- The mode of a new inode. -/
def setMode (p ino : Nat) (isDir : Bool) : Op Unit := fun s =>
  .ok ((), { s with
    inode := Function.update s.inode p { s.inode p with populated := true, isDir }
    disk := { s.disk with isDir := Function.update s.disk.isDir ino isDir, dirs := Function.update s.disk.dirs ino [] } })

/-- The common start of `ext4_create` and `ext4_mkdir`: a new inode in the tree. -/
def ext4NewInode (env : Env) (isDir : Bool) : Op (Except Errno (Nat × Nat)) := do
  match ← newInode env with
  | none => pure (.error .enomem)
  | some p => do
      match ← ext4AllocInode env p with
      | .error e => do
          iput env p
          pure (.error e)
      | .ok ino => do
          setMode p ino isDir
          insertInodeHash p
          pure (.ok (p, ino))

def ext4Create (env : Env) (dir : Nat) (d : Id) (name : Name) : Op (Except Errno Unit) := do
  match ← ext4NewInode env false with
  | .error e => pure (.error e)
  | .ok (p, ino) => do
      match ← ext4AddEntry env dir name ino ftRegFile with
      | .error e => do
          iput env p
          pure (.error e)
      | .ok () => do
          markInodeDirty p
          dInstantiate d p
          pure (.ok ())

/-- `ext4_make_empty`. -/
def ext4MakeEmpty (env : Env) (p ino dir : Nat) : Op (Except Errno Unit) := do
  let parent ← inodeAt dir
  let n ← tick
  match env.room n with
  | .error e => pure (.error e)
  | .ok () => do
      (fun s => .ok ((), { s with disk := { s.disk with
        dirs := Function.update s.disk.dirs ino (makeEmpty s.disk.blockSize ino parent.iNo) } }) : Op Unit)
      markInodeDirty p
      pure (.ok ())

def ext4Mkdir (env : Env) (dir : Nat) (d : Id) (name : Name) : Op (Except Errno Unit) := do
  match ← ext4NewInode env true with
  | .error e => pure (.error e)
  | .ok (p, ino) => do
      match ← ext4MakeEmpty env p ino dir with
      | .error e => do
          iput env p
          pure (.error e)
      | .ok () => do
          match ← ext4AddEntry env dir name ino ftDir with
          | .error e => do
              iput env p
              pure (.error e)
          | .ok () => do
              markInodeDirty dir
              markInodeDirty p
              dInstantiate d p
              pure (.ok ())

/-- `ext4_delete_entry` on an inode. -/
def ext4DeleteEntry (env : Env) (dir : Nat) (name : Name) : Op (Except Errno Unit) := do
  let inode ← inodeAt dir
  let n ← tick
  fun s =>
    match Ext4Dir.deleteEntry (env.readBlock n) (s.disk.dirs inode.iNo) name with
    | .error e => .ok (.error e, s)
    | .ok blocks =>
        .ok (.ok (), { s with disk := { s.disk with dirs := Function.update s.disk.dirs inode.iNo blocks } })

def ext4Unlink (env : Env) (dir p : Nat) (name : Name) : Op (Except Errno Unit) := do
  match ← ext4DeleteEntry env dir name with
  | .error e => pure (.error e)
  | .ok () => do
      markInodeDirty p
      pure (.ok ())

/-- `ext4_truncate_blocks` of a directory that is removed. -/
def ext4Truncate (p : Nat) : Op Unit := do
  let inode ← inodeAt p
  fun s => .ok ((), { s with disk := { s.disk with dirs := Function.update s.disk.dirs inode.iNo [] } })

def ext4Rmdir (env : Env) (dir p : Nat) (name : Name) : Op (Except Errno Unit) := do
  let inode ← inodeAt p
  if !inode.isDir then pure (.error .enotdir)
  else do
    let blocks ← directoryOf p
    let n ← tick
    match Ext4Dir.dirIsEmpty (env.readBlock n) blocks with
    | .ok true => do
        match ← ext4DeleteEntry env dir name with
        | .error e => pure (.error e)
        | .ok () => do
            ext4Truncate p
            markInodeDirty p
            markInodeDirty dir
            pure (.ok ())
    | _ => pure (.error (.other 39))

/-! ## namei.c -/

/-- `dput`, then return an error. -/
def failed {α : Type} (env : Env) (d : Id) (e : Errno) : Op (Except Errno α) := do
  dput env d
  pure (.error e)

def lookupOneLen (env : Env) (name : Name) (base : Id) : Op (Except Errno (Option Id)) := do
  let name := name.take 63
  match ← dLookup base name with
  | some d => pure (.ok (some d))
  | none => do
      match ← dAlloc env (some base) name with
      | none => pure (.error .enomem)
      | some d => do
          let e ← dentryAt base
          match e.dInode with
          | none => pure (.ok (some d))
          | some dir => do
              -- only the operations of a directory have a `lookup`
              let inode ← inodeAt dir.iNo
              if !inode.isDir then pure (.ok (some d))
              else do
                match ← ext4Lookup env dir.iNo d name with
                | .error e => failed env d e
                | .ok false => do
                    dput env d
                    pure (.ok none)
                | .ok true => pure (.ok (some d))

/-- Move the reference of the walk from `d` to `d'`. -/
def moveRef (env : Env) (d d' : Id) : Op Unit := do
  dget d'
  dput env d

def climb (env : Env) (d : Id) (mnt : Vfsmount) : Op (Id × Vfsmount) :=
  match mnt.mntParent with
  | some up =>
      if mnt.mntRoot = d then do
        moveRef env d mnt.mntMountpoint
        pure (mnt.mntMountpoint, up)
      else pure (d, mnt)
  | none => pure (d, mnt)

def stepUp (env : Env) (d : Id) (mnt : Vfsmount) : Op (Except Errno (Id × Vfsmount)) := do
  let (d, mnt) ← climb env d mnt
  let e ← dentryAt d
  if e.dParent = d then pure (.ok (d, mnt))
  else do
    moveRef env d e.dParent
    pure (.ok (e.dParent, mnt))

def stepDown (env : Env) (d : Id) (mnt : Vfsmount) (name : Name) : Op (Except Errno (Id × Vfsmount)) := do
  match ← lookupOneLen env name d with
  | .error e => failed env d e
  | .ok none => failed env d .enoent
  | .ok (some next) => do
      let e ← dentryAt next
      match e.dMounted with
      | some sub => do
          dget sub.mntRoot
          dput env next
          dput env d
          pure (.ok (sub.mntRoot, sub))
      | none => do
          dput env d
          pure (.ok (next, mnt))

/-- `dentry->d_inode`, which the caller follows. -/
def inodeOf (d : Id) : Op (Nat × Inode) := do
  let e ← dentryAt d
  match e.dInode with
  | none => throw .null
  | some i => do
      let inode ← inodeAt i.iNo
      pure (i.iNo, inode)

/-- One component of `follow_path`. -/
def followStep (env : Env) (d : Id) (mnt : Vfsmount) (comp : Name) : Op (Except Errno (Id × Vfsmount)) := do
  let (_, inode) ← inodeOf d
  if !inode.isDir then failed env d .enotdir
  else if comp = dot then pure (.ok (d, mnt))
  else if comp = dotdot then stepUp env d mnt
  else stepDown env d mnt comp

def followLoop (env : Env) (d : Id) (mnt : Vfsmount) : List Name → Op (Except Errno (Id × Vfsmount))
  | [] => pure (.ok (d, mnt))
  | comp :: rest => do
      match ← followStep env d mnt comp with
      | .ok (d, mnt) => followLoop env d mnt rest
      | .error e => pure (.error e)

/-- `follow_path`; `cwd` is the working directory of the task that calls. -/
def vfsPathLookup (env : Env) (cwd : Option (Id × Vfsmount)) (path : List Char) :
    Op (Except Errno (Id × Vfsmount)) := do
  let s ← get
  match Dcache.Context.start ⟨s.rootMnt, cwd⟩ path with
  | none => pure (.error .enoent)
  | some (d, mnt) => do
      dget d
      followLoop env d mnt (components path)

/-- The common start of the calls in a directory: the walk to it, and that it is one. -/
def inDirectory {α : Type} (env : Env) (cwd : Option (Id × Vfsmount)) (path : List Char)
    (body : Id → Nat → Name → Op (Except Errno α)) : Op (Except Errno α) :=
  match splitLastComponent path with
  | .error e => pure (.error e)
  | .ok (parent, name) => do
      match ← vfsPathLookup env cwd parent with
      | .error e => pure (.error e)
      | .ok (p, _) => do
          let (dir, inode) ← inodeOf p
          if !inode.isDir then failed env p .enotdir else body p dir name

/-- The last two `dput` of a call in a directory. -/
def finish {α : Type} (env : Env) (d p : Id) (ret : Except Errno α) : Op (Except Errno α) := do
  dput env d
  dput env p
  pure ret

def vfsDoMkdir (env : Env) (cwd : Option (Id × Vfsmount)) (path : List Char) : Op (Except Errno Unit) :=
  inDirectory env cwd path fun p dir name => do
    match ← dAlloc env (some p) name with
    | none => failed env p .enomem
    | some d => do
        let ret ← ext4Mkdir env dir d name
        finish env d p ret

/-- `vfs_do_unlink` and `vfs_do_rmdir`: look the name up, check the inode's kind, call ext4. -/
def removeIn (env : Env) (wanted : Bool) (wrong : Errno)
    (remove : Nat → Nat → Name → Op (Except Errno Unit)) (p : Id) (dir : Nat) (name : Name) :
    Op (Except Errno Unit) := do
  match ← lookupOneLen env name p with
  | .error e => failed env p e
  | .ok none => failed env p .enoent
  | .ok (some d) => do
      let e ← dentryAt d
      match e.dInode with
      | none => finish env d p (.error .enoent)
      | some i => do
          let inode ← inodeAt i.iNo
          if inode.isDir = wanted then do
            let ret ← remove dir i.iNo e.dName
            finish env d p ret
          else finish env d p (.error wrong)

def vfsDoUnlink (env : Env) (cwd : Option (Id × Vfsmount)) (path : List Char) : Op (Except Errno Unit) :=
  inDirectory env cwd path (removeIn env false .eisdir (ext4Unlink env))

def vfsDoRmdir (env : Env) (cwd : Option (Id × Vfsmount)) (path : List Char) : Op (Except Errno Unit) :=
  inDirectory env cwd path (removeIn env true .enotdir (ext4Rmdir env))

/-! ## vfs.c -/

/-- `dentry_open`; the files of ext4 have no `open`. -/
def dentryOpen (env : Env) (d : Id) : Op (Except Errno Unit) := do
  dget d
  let e ← dentryAt d
  match e.dInode with
  | none => failed env d .enoent
  | some _ => do
      let n ← tick
      if !env.fileAlloc n then failed env d .enomem
      else do
        modify fun s => { s with files := d :: s.files }
        pure (.ok ())

def vfsCreate (env : Env) (cwd : Option (Id × Vfsmount)) (path : List Char) : Op (Except Errno Unit) :=
  inDirectory env cwd path fun p dir name => do
    match ← dAlloc env (some p) name with
    | none => failed env p .enomem
    | some d => do
        let e ← dentryAt d
        if e.dInode.isSome then finish env d p (.error .eexist)
        else do
          match ← ext4Create env dir d name with
          | .error e => finish env d p (.error e)
          | .ok () => do
              let ret ← dentryOpen env d
              finish env d p ret

/-- The flags of `vfs_open` that the call reads. -/
structure Flags where
  creat : Bool
  directory : Bool
  trunc : Bool

def vfsOpen (env : Env) (cwd : Option (Id × Vfsmount)) (path : List Char) (flags : Flags) :
    Op (Except Errno Unit) := do
  match ← vfsPathLookup env cwd path with
  | .error e => if flags.creat ∧ e = .enoent then vfsCreate env cwd path else pure (.error e)
  | .ok (d, _) => do
      let (p, inode) ← inodeOf d
      if flags.directory ∧ !inode.isDir then failed env d .enotdir
      else do
        onlyIf (flags.trunc && !inode.isDir) (markInodeDirty p)
        let ret ← dentryOpen env d
        dput env d
        pure ret

def vfsClose (env : Env) (i : Nat) : Op (Except Errno Unit) := do
  let s ← get
  match s.files[i]? with
  | none => pure (.ok ())
  | some d => do
      modify fun s => { s with files := s.files.eraseIdx i }
      dput env d
      pure (.ok ())

def vfsStat (env : Env) (cwd : Option (Id × Vfsmount)) (path : List Char) : Op (Except Errno Unit) := do
  match ← vfsPathLookup env cwd path with
  | .error e => pure (.error e)
  | .ok (d, _) => do
      let e ← dentryAt d
      match e.dInode with
      | none => failed env d .enoent
      | some _ => do
          dput env d
          pure (.ok ())

inductive Call where
  | stat (path : List Char)
  | openFile (path : List Char) (flags : Flags)
  | close (i : Nat)
  | mkdir (path : List Char)
  | unlink (path : List Char)
  | rmdir (path : List Char)

/-- A call, the answers it meets and the working directory of its task. -/
structure Action where
  env : Env
  cwd : Option (Id × Vfsmount)
  call : Call

def perform (a : Action) : Op (Except Errno Unit) :=
  match a.call with
  | .stat path => vfsStat a.env a.cwd path
  | .openFile path flags => vfsOpen a.env a.cwd path flags
  | .close i => vfsClose a.env i
  | .mkdir path => vfsDoMkdir a.env a.cwd path
  | .unlink path => vfsDoUnlink a.env a.cwd path
  | .rmdir path => vfsDoRmdir a.env a.cwd path

/-- `EXT4_ROOT_INO`. -/
def ext4RootIno : Nat := 2

/-- The end of `ext4_fill_super`, and the mount at the root. -/
def mountRoot (env : Env) : Op (Except Errno Unit) := do
  match ← ext4Iget env ext4RootIno with
  | none => pure (.error .eio)
  | some p => do
      match ← dAlloc env none ['/'] with
      | none => pure (.error .enomem)
      | some root => do
          dInstantiate root p
          dget root
          dget root
          modify fun s => { s with rootMnt := some ⟨root, root, none⟩ }
          pure (.ok ())

/-- A boot, with a volume. -/
def FsState.boot (disk : Disk) : FsState where
  cache := ⟨⟨id, id⟩, fun d => ⟨d, none, none, [], 0⟩, [], 0⟩
  inode _ := ⟨0, 0, false, false, false⟩
  inodes := []
  tree := []
  disk
  rootMnt := none
  files := []
  clock := 0

/-- A call, or a kernel that has stopped on a fault. -/
def step (s : Except Fault FsState) (a : Action) : Except Fault FsState := do
  let s ← s
  let (_, s) ← perform a s
  .ok s

def machine : Machine (Except Fault FsState) Action where
  enabled _ _ := True
  step := step

/-- The state after the mount. -/
def booted (env : Env) (disk : Disk) : Except Fault FsState := do
  let (_, s) ← mountRoot env (FsState.boot disk)
  .ok s

theorem booted_eq {env : Env} {disk : Disk} {ret : Except Errno Unit} {s : FsState}
    (mounted : mountRoot env (FsState.boot disk) = .ok (ret, s)) : booted env disk = .ok s := by
  unfold booted
  rw [mounted]
  rfl

end Minus.Fs.Namei
