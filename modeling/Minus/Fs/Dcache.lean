/-
# Fs.Dcache — directory entries and the walk along a path

`kernel/fs/service/dcache.c`, and of `namei.c` the lookup of one name and
`follow_path`.  A dentry is named by its address.  `live` are the addresses that
`kmem_cache_alloc` has given out and `dput` has not freed; every read or write of
a dentry first asks for that (`touch`), so that an access to a freed dentry ends
the computation with `Fault.freed`.  The lists are the ones of `Lib.Dlist`: each
dentry embeds `d_child` and `d_subdirs`.

The environment of a call (`Env`) is the allocator and the file system below: it
may answer as it likes, but the allocator gives out no address that is live.  The
inode's own count is left out, and an inode is its number and whether it is a
directory.
-/
import Minus.Lib.Dlist
import Minus.Theory.Slots

namespace Minus.Fs.Dcache

set_option autoImplicit false

open Minus.Theory Minus.Lib.Dlist

abbrev Id := Nat

abbrev Name := List Char

inductive Errno where
  | enoent
  | eio
  | ebadf
  | enomem
  | ebusy
  | eexist
  | enodev
  | enotdir
  | eisdir
  | einval
  | eperm
  | other (code : Nat)
  deriving DecidableEq

inductive Fault where
  | freed
  | null
  | endless
  deriving DecidableEq

/-- The two list nodes of a dentry. -/
inductive Node where
  | child (d : Id)
  | subdirs (d : Id)
  deriving DecidableEq

/-- `container_of` of a node. -/
def Node.owner : Node → Id
  | .child d => d
  | .subdirs d => d

structure Inode where
  iNo : Nat
  isDir : Bool
  deriving DecidableEq

structure Vfsmount where
  mntRoot : Id
  mntMountpoint : Id
  mntParent : Option Vfsmount

structure Dentry where
  dParent : Id
  dInode : Option Inode
  dMounted : Option Vfsmount
  dName : Name
  dCount : Int

structure Cache where
  links : Links Node
  dentries : Id → Dentry
  live : List Id
  allocs : Nat

/-- The allocator, and the file system that the directories belong to. -/
structure Env where
  alloc : Nat → List Id → Option Id
  lookup : Nat → Name → Except Errno (Option Inode)
  fresh : ∀ n live d, alloc n live = some d → d ∉ live

/-- The first number that is not in use is a new one. -/
theorem firstFree_fresh : ∀ (_ : Nat) (live : List Id) (d : Id),
    (List.range (live.length + 1)).find? (· ∉ live) = some d → d ∉ live := by
  intro n live d given
  simpa using List.find?_some given

/-! ## dcache.c -/

def touch (c : Cache) (d : Id) : Except Fault Unit :=
  if d ∈ c.live then .ok () else .error .freed

def Cache.modify (c : Cache) (d : Id) (f : Dentry → Dentry) : Cache :=
  { c with dentries := Function.update c.dentries d (f (c.dentries d)) }

/-- The dentry that `kmem_cache_alloc` gives, with its lists empty. -/
def Cache.insert (c : Cache) (d parent : Id) (name : Name) : Cache where
  links := dlistInit (dlistInit c.links (.child d)) (.subdirs d)
  dentries := Function.update c.dentries d
    { dParent := parent, dInode := none, dMounted := none, dName := name.take 63, dCount := 1 }
  live := d :: c.live
  allocs := c.allocs + 1

/-- `dlist_add` of a child, which writes the parent and its first child. -/
def linkChild (c : Cache) (parent d : Id) : Except Fault Cache := do
  touch c parent
  touch c (c.links.next (.subdirs parent)).owner
  .ok { c with links := dlistAdd c.links (.subdirs parent) (.child d) }

def dAlloc (env : Env) (c : Cache) (parent : Option Id) (name : Name) :
    Except Fault (Cache × Option Id) :=
  match env.alloc c.allocs c.live with
  | none => .ok ({ c with allocs := c.allocs + 1 }, none)
  | some d =>
      match parent with
      | none => .ok (c.insert d d name, some d)
      | some p => do
          let c ← linkChild (c.insert d p name) p d
          .ok (c, some d)

def dInstantiate (c : Cache) (d : Id) (inode : Inode) : Except Fault Cache := do
  touch c d
  .ok (c.modify d fun e => { e with dInode := some inode })

def dget (c : Cache) (d : Id) : Except Fault Cache := do
  touch c d
  .ok (c.modify d fun e => { e with dCount := e.dCount + 1 })

/-- The loop of `d_lookup` from a node on; `fuel` bounds the list. -/
def lookupFrom (c : Cache) (parent : Id) (name : Name) : Nat → Node → Except Fault (Option Id)
  | 0, _ => .error .endless
  | fuel + 1, node =>
      if node = .subdirs parent then .ok none
      else do
        touch c node.owner
        if (c.dentries node.owner).dName = name then .ok (some node.owner)
        else lookupFrom c parent name fuel (c.links.next node)

def dLookup (c : Cache) (parent : Id) (name : Name) : Except Fault (Cache × Option Id) := do
  touch c parent
  match ← lookupFrom c parent name (c.live.length + 1) (c.links.next (.subdirs parent)) with
  | some d => do
      let c ← dget c d
      .ok (c, some d)
  | none => .ok (c, none)

/-- The end of `dput`: `dlist_del` writes the two neighbours. -/
def freeDentry (c : Cache) (d : Id) : Except Fault Cache := do
  touch c (c.links.next (.child d)).owner
  touch c (c.links.prev (.child d)).owner
  .ok { c.modify d fun e => { e with dInode := none } with
        links := dlistDel c.links (.child d)
        live := c.live.erase d }

def dput (c : Cache) (d : Id) : Except Fault Cache := do
  touch c d
  let c := c.modify d fun e => { e with dCount := e.dCount - 1 }
  if (c.dentries d).dCount ≤ 0 then freeDentry c d else .ok c

/-! ## namei.c -/

/-- `lookup_one_len`; both file systems give every directory a `lookup`. -/
def lookupOneLen (env : Env) (c : Cache) (name : Name) (base : Id) :
    Except Fault (Cache × Except Errno (Option Id)) := do
  let name := name.take 63
  match ← dLookup c base name with
  | (c, some d) => .ok (c, .ok (some d))
  | (c, none) =>
      match ← dAlloc env c (some base) name with
      | (c, none) => .ok (c, .error .enomem)
      | (c, some d) =>
          touch c base
          match (c.dentries base).dInode with
          | none => .ok (c, .ok (some d))
          | some dir =>
              match env.lookup dir.iNo name with
              | .error e => do
                  let c ← dput c d
                  .ok (c, .error e)
              | .ok none => do
                  let c ← dput c d
                  .ok (c, .ok none)
              | .ok (some inode) => do
                  let c ← dInstantiate c d inode
                  .ok (c, .ok (some d))

/-- `dput`, then return an error. -/
def failed {α : Type} (c : Cache) (d : Id) (e : Errno) : Except Fault (Cache × Except Errno α) := do
  let c ← dput c d
  .ok (c, .error e)

/-- Move the reference of the walk from `d` to `d'`. -/
def moveRef (c : Cache) (d d' : Id) : Except Fault Cache := do
  let c ← dget c d'
  dput c d

/-- At the root of a mounted file system `..` first goes to the mount point. -/
def climb (c : Cache) (d : Id) (mnt : Vfsmount) : Except Fault (Cache × Id × Vfsmount) :=
  match mnt.mntParent with
  | some up =>
      if mnt.mntRoot = d then do
        let c ← moveRef c d mnt.mntMountpoint
        .ok (c, mnt.mntMountpoint, up)
      else .ok (c, d, mnt)
  | none => .ok (c, d, mnt)

def stepUp (c : Cache) (d : Id) (mnt : Vfsmount) :
    Except Fault (Cache × Except Errno (Id × Vfsmount)) := do
  let (c, d, mnt) ← climb c d mnt
  touch c d
  let parent := (c.dentries d).dParent
  if parent = d then .ok (c, .ok (d, mnt))
  else do
    let c ← moveRef c d parent
    .ok (c, .ok (parent, mnt))

def stepDown (env : Env) (c : Cache) (d : Id) (mnt : Vfsmount) (name : Name) :
    Except Fault (Cache × Except Errno (Id × Vfsmount)) := do
  match ← lookupOneLen env c name d with
  | (c, .error e) => failed c d e
  | (c, .ok none) => failed c d .enoent
  | (c, .ok (some next)) =>
      touch c next
      match (c.dentries next).dMounted with
      | some sub => do
          let c ← dget c sub.mntRoot
          let c ← dput c next
          let c ← dput c d
          .ok (c, .ok (sub.mntRoot, sub))
      | none => do
          let c ← dput c d
          .ok (c, .ok (next, mnt))

/-- One component of `follow_path`. -/
def followStep (env : Env) (c : Cache) (d : Id) (mnt : Vfsmount) (comp : Name) :
    Except Fault (Cache × Except Errno (Id × Vfsmount)) := do
  touch c d
  match (c.dentries d).dInode with
  | none => .error .null
  | some inode =>
      if !inode.isDir then failed c d .enotdir
      else if comp = ['.'] then .ok (c, .ok (d, mnt))
      else if comp = ['.', '.'] then stepUp c d mnt
      else stepDown env c d mnt comp

def followLoop (env : Env) (c : Cache) (d : Id) (mnt : Vfsmount) :
    List Name → Except Fault (Cache × Except Errno (Id × Vfsmount))
  | [] => .ok (c, .ok (d, mnt))
  | comp :: rest => do
      match ← followStep env c d mnt comp with
      | (c, .ok (d, mnt)) => followLoop env c d mnt rest
      | (c, .error e) => .ok (c, .error e)

/-- The components of a path: slashes part them, and `comp` holds 63 characters. -/
def componentsFrom (comp : Name) : List Char → List Name
  | [] => if comp = [] then [] else [comp]
  | ch :: rest =>
      if ch = '/' then (if comp = [] then [] else [comp]) ++ componentsFrom [] rest
      else if comp.length = 63 then comp :: componentsFrom [ch] rest
      else componentsFrom (comp ++ [ch]) rest

def components (path : List Char) : List Name := componentsFrom [] path

/-- `split_last_component`: up to the last slash, and what follows it. -/
def splitLastComponent (path : List Char) : Except Errno (List Char × Name) :=
  if '/' ∈ path then
    let name := (path.reverse.takeWhile (· ≠ '/')).reverse
    let parent := (path.take (path.length - name.length - 1)).take 255
    .ok (if parent = [] then ['/'] else parent, name.take 63)
  else
    .error .einval

end Minus.Fs.Dcache
