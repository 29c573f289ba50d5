/-
# Fs.Umount — mounting and unmounting again

`vfs_do_umount` of `kernel/fs/service/mount.c`, over the mounts of `Fs.Vfs` with
their device names.  It takes the mount off the list and drops the root's
reference; what `vfs_do_mount` did to the mount point stays (`umount_restores`):
`d_mounted` still refers to the vfsmount that was freed.  A mount that is refused
changes nothing (`Embedded`).

The pole at the end mounts on a directory of the root and unmounts again.
-/
import Minus.Fs.VfsRun
import Minus.Fs.RelativeNames
import Minus.Fs.WalkRefs

namespace Minus.Fs.Dcache

set_option autoImplicit false

open Minus.Theory Minus.Lib.Dlist

/-! ## mount.c -/

/-- The mounts with their `mnt_devname`, by the root of the mount. -/
structure Namespace where
  vfs : Vfs
  devname : Id → List Char
  short : ∀ root, (devname root).length < 64

/-- `strncpy(mnt->mnt_devname, dev_name, sizeof(mnt->mnt_devname) - 1)`. -/
def Namespace.record (n : Namespace) (s : Vfs) (root : Id) (dev : List Char) : Namespace where
  vfs := s
  devname := Function.update n.devname root (dev.take 63)
  short d := by
    by_cases here : d = root
    · subst here
      simp
    · simpa [here] using n.short d

/-- `vfs_mount`, with the name of the device. -/
def vfsMount (env : FsEnv) (task : Option Nat) (n : Namespace) (dev dir : List Char) :
    Except Fault (Namespace × Except Errno Unit) := do
  match ← vfsDoMount env task n.vfs dir with
  | (s, .ok ()) =>
      match s.mounts with
      | mnt :: _ => .ok (n.record s mnt.mntRoot dev, .ok ())
      | [] => .ok ({ n with vfs := s }, .ok ())
  | (s, .error e) => .ok ({ n with vfs := s }, .error e)

/-- `mnt == root_mnt`. -/
def Namespace.isRoot (n : Namespace) (mnt : Vfsmount) : Bool := n.vfs.rootMnt.any (·.mntRoot = mnt.mntRoot)

/-- Where the loop of `vfs_do_umount` stops. -/
def Namespace.stopsAt (n : Namespace) (name : List Char) (mnt : Vfsmount) : Bool :=
  (n.isRoot mnt && name = ['/']) || n.devname mnt.mntRoot = name

def vfsDoUmount (n : Namespace) (name : List Char) : Except Fault (Namespace × Except Errno Unit) :=
  match n.vfs.mounts.find? (n.stopsAt name) with
  | none => .ok (n, .error .einval)
  | some mnt => do
      let rootMnt := if n.isRoot mnt then none else n.vfs.rootMnt
      let mounts := n.vfs.mounts.eraseP (n.stopsAt name)
      let c ← dput n.vfs.cache mnt.mntRoot
      .ok ({ n with vfs := { n.vfs with cache := c, mounts := mounts, rootMnt := rootMnt } }, .ok ())

/-! ## What is to be restored -/

/-- The path leads to the dentry `w`, in the cache. -/
def Resolves (s : Vfs) (task : Option Nat) (path : List Char) (w : Id) (m : Vfsmount) : Prop :=
  ∃ root mnt, (s.context task).start path = some (root, mnt) ∧ Kept s.cache root ∧
    Leads s.cache (IsDir s.cache) w m root mnt (components path)

/-- The walk comes there, whatever the file systems below answer. -/
theorem Resolves.walk {s : Vfs} {task : Option Nat} {path : List Char} {w : Id} {m : Vfsmount}
    (resolves : Resolves s task path w m) (env : Env) :
    vfsPathLookup env (s.context task) s.cache path = .ok (s.cache.bump w 1, .ok (w, m)) := by
  obtain ⟨root, mnt, start, kept, leads⟩ := resolves
  have walked := followLoop_leads env leads []
  rw [List.append_nil] at walked
  unfold vfsPathLookup followPath
  rw [start]
  dsimp only
  rw [dget_eq kept.live, ok_bind, walked]
  rfl

/-- `s` before the mount, `s₁` with it and `s₂` after the umount. -/
structure Restored (s s₁ s₂ : Vfs) : Prop where
  paths : ∀ task path w m, Resolves s₂ task path w m ↔ Resolves s task path w m
  released : ∀ mnt ∈ s₁.mounts, mnt ∉ s₂.mounts → ∀ d ∈ s₂.cache.live, (s₂.cache.dentries d).dMounted ≠ some mnt
  counts : ∀ mnt ∈ s₁.mounts, mnt ∉ s₂.mounts →
    (mnt.mntMountpoint ∈ s₂.cache.live ↔ mnt.mntMountpoint ∈ s.cache.live) ∧
      (mnt.mntMountpoint ∈ s.cache.live →
        (s₂.cache.dentries mnt.mntMountpoint).dCount = (s.cache.dentries mnt.mntMountpoint).dCount)

/-- What a mount that fails leaves as it was. -/
structure Unchanged (s s' : Vfs) : Prop where
  paths : ∀ task path w m, Resolves s' task path w m ↔ Resolves s task path w m
  mounts : s'.mounts = s.mounts ∧ s'.rootMnt = s.rootMnt
  mounted : ∀ d ∈ s'.cache.live, ∀ mnt, (s'.cache.dentries d).dMounted = some mnt →
    d ∈ s.cache.live ∧ (s.cache.dentries d).dMounted = some mnt
  dentries : ∀ d ∈ s.cache.live, d ∈ s'.cache.live ∧ s'.cache.dentries d = s.cache.dentries d

/-- A mount and the umount of its device leave the namespace as it was, and so does
a mount that fails. -/
structure Restores (env : FsEnv) (task : Option Nat) (n : Namespace) (dev dir : List Char) : Prop where
  undone : ∀ n₁ n₂, vfsMount env task n dev dir = .ok (n₁, .ok ()) → vfsDoUmount n₁ dev = .ok (n₂, .ok ()) →
    Restored n.vfs n₁.vfs n₂.vfs
  failed : ∀ n₁ e, vfsMount env task n dev dir = .ok (n₁, .error e) → Unchanged n.vfs n₁.vfs

/-- The file system can be mounted, and the path leads to a directory on which
nothing is mounted. -/
def Mountable (env : FsEnv) (task : Option Nat) (s : Vfs) (dir : List Char) : Prop :=
  ∃ c root made c' p up, kernMount env s.cache = .ok (c, .ok root, made) ∧
    vfsPathLookup env.toEnv (s.context task) c dir = .ok (c', .ok (p, up)) ∧ IsDir c' p ∧
      (c'.dentries p).dMounted = none

/-! ## A cache inside another -/

/-- `c'` is `c`, with more dentries on which nothing is mounted. -/
structure Embedded (c c' : Cache) : Prop where
  live : ∀ d ∈ c.live, d ∈ c'.live
  dentries : ∀ d ∈ c.live, c'.dentries d = c.dentries d
  next : ∀ node : Node, node.owner ∈ c.live → c'.links.next node = c.links.next node
  more : c.live.length ≤ c'.live.length
  unmounted : ∀ d ∈ c'.live, d ∉ c.live → (c'.dentries d).dMounted = none

section Embedded

variable {c c' c'' : Cache} {d x w root : Id} {mnt m : Vfsmount}

theorem Embedded.refl (c : Cache) : Embedded c c :=
  ⟨fun _ live => live, fun _ _ => rfl, fun _ _ => rfl, le_rfl, fun _ live free => absurd live free⟩

theorem Embedded.same (embedded : Embedded c c') (same : Same c' c'') : Embedded c c'' where
  live d inside := same.live ▸ embedded.live d inside
  dentries d inside := (same.dentries d (embedded.live d inside)).trans (embedded.dentries d inside)
  next node inside := (same.links node (embedded.live _ inside)).1.trans (embedded.next node inside)
  more := same.live ▸ embedded.more
  unmounted d inside free := by
    rw [same.live] at inside
    rw [same.dentries d inside]
    exact embedded.unmounted d inside free

/-- The count of a dentry outside does not matter. -/
theorem Embedded.bump (embedded : Embedded c c') (free : x ∉ c.live) (n : Int) : Embedded c (c'.bump x n) where
  live := embedded.live
  dentries d inside := by
    rw [bump_of_ne (ne_of_mem_of_not_mem inside free)]
    exact embedded.dentries d inside
  next := embedded.next
  more := embedded.more
  unmounted d inside outside := by
    rw [(bump_fields c' x d n).2.2]
    exact embedded.unmounted d inside outside

theorem Embedded.kept (embedded : Embedded c c') (kept : Kept c d) : Kept c' d := by
  have same := embedded.dentries d kept.live
  exact ⟨embedded.live d kept.live, same ▸ kept.held, same ▸ kept.inode⟩

theorem Embedded.kept_of (embedded : Embedded c c') (live : d ∈ c.live) (kept : Kept c' d) : Kept c d := by
  have same := embedded.dentries d live
  exact ⟨live, same ▸ kept.held, same ▸ kept.inode⟩

theorem Embedded.isDir (embedded : Embedded c c') (live : d ∈ c.live) : IsDir c' d ↔ IsDir c d := by
  unfold IsDir
  rw [embedded.dentries d live]

theorem Embedded.covered (embedded : Embedded c c') (live : x ∈ c.live) : covered c' mnt x = covered c mnt x := by
  unfold Dcache.covered
  rw [embedded.dentries x live]

/-- A loop of `d_lookup` that touches live dentries only reads the same in the larger cache. -/
theorem Embedded.lookupFrom (embedded : Embedded c c') (name : Name) {r : Option Id} {fuel fuel' : Nat}
    (enough : fuel ≤ fuel') {node : Node} (run : lookupFrom c d name fuel node = .ok r) :
    lookupFrom c' d name fuel' node = .ok r := by
  induction fuel generalizing fuel' node with
  | zero => cases run
  | succ fuel ih =>
      obtain ⟨fuel', rfl⟩ : ∃ k, fuel' = k + 1 := ⟨fuel' - 1, by omega⟩
      unfold Dcache.lookupFrom at run ⊢
      split
      · rename_i here
        rw [if_pos here] at run
        exact run
      · rename_i other
        rw [if_neg other] at run
        by_cases live : node.owner ∈ c.live
        · rw [touch, if_pos live, ok_bind] at run
          rw [touch, if_pos (embedded.live _ live), ok_bind, embedded.dentries _ live, embedded.next node live]
          split at run
          · rename_i same
            rw [if_pos same]
            exact run
          · rename_i differs
            rw [if_neg differs]
            exact ih (by omega) run
        · rw [touch, if_neg live] at run
          cases run

theorem Embedded.cached (embedded : Embedded c c') {name : Name} (live : d ∈ c.live) (cached : Cached c d name x) :
    Cached c' d name x := by
  unfold Cached
  rw [embedded.next (.subdirs d) live]
  exact embedded.lookupFrom name (by have more := embedded.more; omega) cached

/-- What is found in the larger cache is found in the cache. -/
theorem Embedded.cached_of (embedded : Embedded c c') {children : Id → List Id} (rings : Rings c children)
    {name : Name} (live : d ∈ c.live) (cached : Cached c' d name x) : Cached c d name x ∧ x ∈ c.live := by
  obtain ⟨r, run, within⟩ := (rings.lookupFrom live name).returns
  have same : Except.ok r = (Except.ok (some x) : Except Fault (Option Id)) := by
    rw [← embedded.lookupFrom name (by have more := embedded.more; omega : c.live.length + 1 ≤ c'.live.length + 1) run,
      ← embedded.next (.subdirs d) live]
    exact cached
  cases same
  exact ⟨run, (within x rfl).1⟩

/-- Paths lead there in the larger cache, too. -/
theorem Leads.grow (embedded : Embedded c c') {comps : List Name} (leads : Leads c (IsDir c) w m d mnt comps) :
    Leads c' (IsDir c') w m d mnt comps := by
  induction leads with
  | here => exact .here
  | dot kept isDir _ ih => exact .dot (embedded.kept kept) ((embedded.isDir kept.live).2 isDir) ih
  | up kept isDir out parent _ ih =>
      rw [← embedded.dentries _ out.live] at parent ih
      exact .up (embedded.kept kept) ((embedded.isDir kept.live).2 isDir) (embedded.kept out) (embedded.kept parent) ih
  | @down d x mnt comp rest kept isDir child cached found root _ ih =>
      have goes : Dcache.covered c' mnt x = Dcache.covered c mnt x := embedded.covered found.live
      exact .down (embedded.kept kept) ((embedded.isDir kept.live).2 isDir) child (embedded.cached kept.live cached)
        (embedded.kept found) (goes ▸ embedded.kept root) (goes ▸ ih)

end Embedded

section Shrink

variable {s : Vfs} {c' : Cache} {d w : Id} {mnt m : Vfsmount}

/-- From a dentry of the cache, and a mount, a path stays in the cache. -/
theorem Vfs.Good.shrink (good : s.Good) (embedded : Embedded s.cache c') {comps : List Name}
    (leads : Leads c' (IsDir c') w m d mnt comps) (live : d ∈ s.cache.live) (known : mnt ∈ s.mounts) :
    Leads s.cache (IsDir s.cache) w m d mnt comps := by
  obtain ⟨children, rings⟩ := good.inv.rings
  have held {x : Id} (inside : x ∈ s.holders) : x ∈ s.cache.live := good.inv.live_of_holder inside
  induction leads with
  | here => exact .here
  | dot kept isDir _ ih =>
      exact .dot (embedded.kept_of live kept) ((embedded.isDir live).1 isDir) (ih live known)
  | @up d mnt rest kept isDir out parent leads ih =>
      have outside_live : outside mnt d ∈ s.cache.live ∧ outerMnt mnt d ∈ s.mounts := by
        unfold outside outerMnt
        cases above : mnt.mntParent with
        | none => exact ⟨live, known⟩
        | some up =>
            dsimp only
            split
            · exact ⟨held (mem_holders_of_mount known).2, good.mounts mnt known up above⟩
            · exact ⟨live, known⟩
      have parent_live := rings.parent _ outside_live.1
      rw [embedded.dentries _ outside_live.1] at parent ih
      exact .up (embedded.kept_of live kept) ((embedded.isDir live).1 isDir) (embedded.kept_of outside_live.1 out)
        (embedded.kept_of parent_live parent) (ih parent_live outside_live.2)
  | @down d x mnt comp rest kept isDir child cached found root leads ih =>
      obtain ⟨cached, there⟩ := embedded.cached_of rings live cached
      have goes : covered c' mnt x = covered s.cache mnt x := embedded.covered there
      rw [goes] at root ih
      have next : (covered s.cache mnt x).1 ∈ s.cache.live ∧ (covered s.cache mnt x).2 ∈ s.mounts := by
        unfold covered
        cases mounted : (s.cache.dentries x).dMounted with
        | none => exact ⟨there, known⟩
        | some sub =>
            have inside := good.inv.mounted x there sub mounted
            exact ⟨held (mem_holders_of_mount inside).1, inside⟩
      exact .down (embedded.kept_of live kept) ((embedded.isDir live).1 isDir) child cached
        (embedded.kept_of there found) (embedded.kept_of next.1 root) (ih next.1 next.2)

/-- **The same paths** in the same context. -/
theorem Vfs.Good.resolves_iff (good : s.Good) {s' : Vfs} (embedded : Embedded s.cache s'.cache)
    (rootMnt : s'.rootMnt = s.rootMnt) (cwds : s'.cwds = s.cwds) (task : Option Nat) (path : List Char) (w : Id)
    (m : Vfsmount) : Resolves s' task path w m ↔ Resolves s task path w m := by
  have context : s'.context task = s.context task := by
    unfold Vfs.context Vfs.cwd
    rw [rootMnt, cwds]
  unfold Resolves
  rw [context]
  constructor
  · rintro ⟨root, mnt, start, kept, leads⟩
    obtain ⟨inside, known⟩ := start_placed good.mounted (good.placed task) start
    have live := good.inv.live_of_holder inside
    exact ⟨root, mnt, start, embedded.kept_of live kept, good.shrink embedded leads live known⟩
  · rintro ⟨root, mnt, start, kept, leads⟩
    exact ⟨root, mnt, start, embedded.kept kept, leads.grow embedded⟩

end Shrink

/-! ## What a mount does -/

/-- The root of a new mount, with the references of the super block and of the mount. -/
structure NewRoot (c c' : Cache) (root : Id) : Prop where
  free : root ∉ c.live
  live : root ∈ c'.live
  count : (c'.dentries root).dCount = 2

section Mount

variable {c c' : Cache} {root p : Id}

theorem Embedded.insert (free : root ∉ c.live) (name : Name) : Embedded c (c.insert root root name) where
  live _ inside := List.mem_cons_of_mem _ inside
  dentries d inside := insert_of_ne c root name (ne_of_mem_of_not_mem inside free)
  next node inside := by
    have other : node.owner ≠ root := ne_of_mem_of_not_mem inside free
    have child : node ≠ .child root := fun same => other (congrArg Node.owner same)
    have subdirs : node ≠ .subdirs root := fun same => other (congrArg Node.owner same)
    simp [Cache.insert, dlistInit, setPrev, setNext, child, subdirs]
  more := by simp [Cache.insert]
  unmounted d inside free' := by
    have here : d = root := by
      rcases List.mem_cons.1 inside with here | there
      · exact here
      · exact absurd there free'
    subst here
    rw [insert_self]

/-- Writing a dentry outside. -/
theorem Embedded.modify (embedded : Embedded c c') (free : root ∉ c.live) (f : Dentry → Dentry)
    (mounted : ∀ e, (f e).dMounted = e.dMounted) : Embedded c (c'.modify root f) where
  live := embedded.live
  dentries d inside := by
    rw [modify_of_ne c' f (ne_of_mem_of_not_mem inside free)]
    exact embedded.dentries d inside
  next := embedded.next
  more := embedded.more
  unmounted d inside outside := by
    by_cases here : d = root
    · subst here
      rw [modify_self, mounted]
      exact embedded.unmounted d inside outside
    · rw [modify_of_ne c' f here]
      exact embedded.unmounted d inside outside

/-- **`kern_mount`** only adds the root. -/
theorem kernMount_embedded (env : FsEnv) (c : Cache) : ∃ c' r made, kernMount env c = .ok (c', r, made) ∧
    Embedded c c' ∧ ∀ root, r = .ok root → NewRoot c c' root := by
  unfold kernMount
  cases env.mount with
  | error e =>
      refine ⟨c, .error e, none, rfl, .refl c, ?_⟩
      rintro _ ⟨⟩
  | ok inode =>
      unfold dAlloc
      cases given : env.alloc c.allocs c.live with
      | none =>
          refine ⟨{ c with allocs := c.allocs + 1 }, .error .eio, none, rfl, ?_, by rintro _ ⟨⟩⟩
          exact ⟨fun _ live => live, fun _ _ => rfl, fun _ _ => rfl, le_rfl, fun _ live free => absurd live free⟩
      | some root =>
          have free := env.fresh _ _ _ given
          have inside : root ∈ (c.insert root root ['/']).live := List.mem_cons_self
          have made : dInstantiate (c.insert root root ['/']) root inode =
              .ok ((c.insert root root ['/']).modify root fun e => { e with dInode := some inode }) := by
            rw [dInstantiate, touch, if_pos inside, ok_bind]
          have embedded := (Embedded.insert free ['/']).modify free (fun e => { e with dInode := some inode })
            fun _ => rfl
          simp only [ok_bind, made]
          split
          · refine ⟨_, .error .enomem, some root, rfl, embedded, ?_⟩
            rintro _ ⟨⟩
          · have got : dget ((c.insert root root ['/']).modify root fun e => { e with dInode := some inode }) root =
                .ok (((c.insert root root ['/']).modify root fun e => { e with dInode := some inode }).bump root 1) :=
              dget_eq inside
            rw [got, ok_bind]
            refine ⟨_, .ok root, some root, rfl, embedded.bump free 1, ?_⟩
            rintro _ ⟨⟩
            refine ⟨free, inside, ?_⟩
            rw [bump_self, modify_self, insert_self]
            rfl

/-- The mount is refused, and nothing but the root of the new file system stays. -/
def Refused (s : Vfs) (r : Vfs × Except Errno Unit) : Prop :=
  (∃ e, r.2 = .error e) ∧ r.1.mounts = s.mounts ∧ r.1.rootMnt = s.rootMnt ∧ r.1.cwds = s.cwds ∧
    Embedded s.cache r.1.cache

/-- The mount is made, and the mount point refers to it. -/
structure Covered (s s' : Vfs) (root p : Id) (up : Vfsmount) : Prop where
  mounts : s'.mounts = ⟨root, p, some up⟩ :: s.mounts
  rootMnt : s'.rootMnt = s.rootMnt
  free : root ∉ s.cache.live
  held : root ∈ s'.cache.live ∧ 2 ≤ (s'.cache.dentries root).dCount
  point : p ∈ s'.cache.live
  mounted : (s'.cache.dentries p).dMounted = some ⟨root, p, some up⟩

/-- The end of a mount that is refused. -/
theorem refused_dput {s : Vfs} (new : NewRoot s.cache c root) (embedded : Embedded s.cache c) (same : Same c c') :
    ∃ c'', dput c' root = .ok c'' ∧ Embedded s.cache c'' := by
  have kept := new.count
  have live : root ∈ c'.live := same.live ▸ new.live
  have more : 2 ≤ (c'.dentries root).dCount := by
    rw [same.dentries root new.live]
    omega
  exact ⟨_, dput_eq live more, (embedded.same same).bump new.free (-1)⟩

/-- The three references of a mount that is made. -/
theorem cover_point (live : p ∈ c.live) (held : 1 ≤ (c.dentries p).dCount) (mnt : Vfsmount) :
    ∃ c', (do
      let c ← dget c p
      let c := c.modify p fun e => { e with dMounted := some mnt }
      dput c p) = .ok c' ∧ c'.live = c.live ∧ (c'.dentries p).dMounted = some mnt ∧
        ∀ d, (c'.dentries d).dCount = (c.dentries d).dCount := by
  let covered := (c.bump p 1).modify p fun e => { e with dMounted := some mnt }
  have count (d : Id) : (covered.dentries d).dCount = ((c.bump p 1).dentries d).dCount :=
    modify_count (c.bump p 1) p d _ fun _ => rfl
  have more : 2 ≤ (covered.dentries p).dCount := by
    rw [count, bump_self]
    show 2 ≤ (c.dentries p).dCount + 1
    omega
  have still : p ∈ covered.live := live
  refine ⟨covered.bump p (-1), ?_, rfl, ?_, fun d => ?_⟩
  · rw [dget_eq live, ok_bind]
    exact dput_eq still more
  · rw [(bump_fields covered p p (-1)).2.2]
    show ((c.bump p 1).modify p _ |>.dentries p).dMounted = _
    rw [modify_self]
  · rw [bump_count, count, bump_count]
    split <;> omega

/-- A mount on a directory that the walk finds, whatever it went through. -/
theorem mountOn_made (env : FsEnv) (task : Option Nat) {s : Vfs} {dir : List Char} {up : Vfsmount}
    (free : root ∉ s.cache.live) (refs : Refs c [root, root])
    (walk : vfsPathLookup env.toEnv (s.context task) c dir = .ok (c', .ok (p, up))) (isDir : IsDir c' p)
    (unmounted : (c'.dentries p).dMounted = none) :
    ∃ s', mountOn env task s c root dir = .ok (s', .ok ()) ∧ Covered s s' root p up := by
  have after : Unfaulted (Refs.Walked [root, root]) (vfsPathLookup env.toEnv (s.context task) c dir) :=
    vfsPathLookup_refs env.toEnv refs
  rw [walk] at after
  replace after : Refs c' [p, root, root] := after
  have live : p ∈ c'.live := after.live p (by simp)
  have rootLive : root ∈ c'.live := after.live root (by simp)
  have two : 2 ≤ (c'.dentries root).dCount := by
    have counted := after.counted root rootLive
    have twice : 2 ≤ List.count root [p, root, root] := by
      rw [List.count_cons]
      simp
    omega
  obtain ⟨inode, entry, dir_⟩ : ∃ inode, (c'.dentries p).dInode = some inode ∧ inode.isDir = true := by
    unfold IsDir at isDir
    cases entry : (c'.dentries p).dInode with
    | none => simp [entry] at isDir
    | some inode => exact ⟨inode, rfl, by simpa [entry] using isDir⟩
  have there : inodeOf c' p = .ok inode := by rw [inodeOf, touch, if_pos live, ok_bind, entry]
  obtain ⟨c₂, ends, lives, mounted, count⟩ := cover_point live (after.positive p live) ⟨root, p, some up⟩
  have got : dget c' p = .ok (c'.bump p 1) := dget_eq live
  refine ⟨s.addMount c₂ ⟨root, p, some up⟩, ?_, rfl, rfl, free, ⟨lives ▸ rootLive, ?_⟩, lives ▸ live, mounted⟩
  · unfold mountOn
    rw [walk, ok_bind]
    dsimp only
    rw [there, ok_bind, dir_, unmounted]
    rw [got, ok_bind] at ends
    simp only [Bool.not_true, Bool.false_eq_true, if_false, Option.isSome_none]
    rw [got, ok_bind, show dput _ p = .ok c₂ from ends, ok_bind]
  · show 2 ≤ (c₂.dentries root).dCount
    rw [count]
    exact two

theorem inodeOf_entry {d : Id} {inode : Inode} (there : inodeOf c d = .ok inode) :
    (c.dentries d).dInode = some inode := by
  unfold inodeOf touch at there
  split at there
  · cases entry : (c.dentries d).dInode with
    | none =>
        rw [entry] at there
        cases there
    | some given =>
        rw [entry] at there
        cases there
        rfl
  · cases there

/-- A mount that finds no such directory, whatever the walk went through. -/
theorem mountOn_refused (env : FsEnv) (task : Option Nat) (s : Vfs) (dir : List Char) (new : NewRoot s.cache c root)
    (embedded : Embedded s.cache c) (sound : Sound c)
    (never : ∀ c' p up, vfsPathLookup env.toEnv (s.context task) c dir = .ok (c', .ok (p, up)) → IsDir c' p →
      (c'.dentries p).dMounted ≠ none) : Partly (Refused s) (mountOn env task s c root dir) := by
  have lost {c' : Cache} (same : Same c c') (e : Errno) : Partly (Refused s) (do
      let c ← dput c' root
      .ok ({ s with cache := c, superblocks := root :: s.superblocks }, .error e)) := by
    obtain ⟨c'', freed, after⟩ := refused_dput new embedded same
    rw [freed, ok_bind]
    exact ⟨⟨e, rfl⟩, rfl, rfl, rfl, after⟩
  have leaves := vfsPathLookup_leaves sound env.toEnv (s.context task) dir
  unfold mountOn
  cases run : vfsPathLookup env.toEnv (s.context task) c dir with
  | error fault => trivial
  | ok walked =>
      obtain ⟨c', r⟩ := walked
      rw [run] at leaves
      rw [ok_bind]
      cases r with
      | error e => exact lost leaves e
      | ok place =>
          obtain ⟨p, up⟩ := place
          replace leaves : Walks c c' p := leaves
          -- both refusals give up the reference to the place first
          have refused (e : Errno) : Partly (Refused s) (do
              let c ← dput c' p
              let c ← dput c root
              .ok ({ s with cache := c, superblocks := root :: s.superblocks }, .error e)) :=
            Ends.bind leaves.dput fun _ same => lost same e
          dsimp only
          cases there : inodeOf c' p with
          | error fault => trivial
          | ok inode =>
              rw [ok_bind]
              split
              · exact refused .enotdir
              · rename_i isDir
                split
                · exact refused .ebusy
                · rename_i free
                  have isDir : IsDir c' p := by simpa [IsDir, inodeOf_entry there] using isDir
                  exact absurd (by simpa using free) (never c' p up run isDir)

/-- The references and the lists of the cache are in order. -/
theorem Inv.sound {holders extra : List Id} {mounts : List Vfsmount} (inv : Inv holders mounts c extra none)
    (mounted : Mounted holders mounts) : Sound c := by
  have kept {d : Id} (live : d ∈ c.live) : Kept c d := by
    refine ⟨live, ?_, inv.positive d live (by simp)⟩
    have some_ := List.count_pos_iff.2 ((inv.live_iff d).1 live)
    rw [inv.count d live]
    omega
  obtain ⟨children, rings⟩ := inv.rings
  refine fun d live => ⟨kept live, children d, rings.family.ring d live, fun x child => ?_⟩
  have inside := ((rings.member d live x).1 child).1
  exact ⟨kept inside, fun sub on => kept (inv.live_of_holder (mounted sub (inv.mounted x inside sub on)).1)⟩

theorem kernMount_refs (env : FsEnv) (refs : Refs c []) :
    Unfaulted (fun r => ∀ root, r.2.1 = .ok root → Refs r.1 [root, root]) (kernMount env c) := by
  unfold kernMount
  cases env.mount with
  | error e => exact nofun
  | ok inode =>
      refine Ends.bind (dAlloc_refs env.toEnv refs none ['/']) fun r allocated => ?_
      obtain ⟨c₁, made⟩ := r
      cases made with
      | none => exact nofun
      | some root =>
          refine Ends.bind (dInstantiate_refs allocated inode) fun c₂ given => ?_
          split
          · exact nofun
          · refine Ends.bind (dget_refs given) fun c₃ got => ?_
            rintro _ ⟨⟩
            exact got

theorem Vfs.Good.refs {s : Vfs} (good : s.Good) : Refs s.cache [] where
  nodup := good.inv.nodup
  positive d live := by
    have held : d ∈ s.holders ++ [] := (good.inv.live_iff d).1 live
    have count := good.inv.count d live
    have some_ := List.count_pos_iff.2 held
    omega
  live _ inside := absurd inside List.not_mem_nil
  counted d live := by
    rw [good.inv.count d live]
    simp

theorem vfsDoMount_made (env : FsEnv) (task : Option Nat) {s : Vfs} {dir : List Char} (good : s.Good)
    (below : dir ≠ ['/']) (mountable : Mountable env task s dir) :
    ∃ s' root p up, vfsDoMount env task s dir = .ok (s', .ok ()) ∧ Covered s s' root p up := by
  obtain ⟨c, root, made, c', p, up, kern, walk, isDir, unmounted⟩ := mountable
  obtain ⟨_, _, _, kern', -, new⟩ := kernMount_embedded env s.cache
  cases kern.symm.trans kern'
  have refs : Unfaulted _ _ := kernMount_refs env good.refs
  rw [kern] at refs
  obtain ⟨s', ends, covered⟩ := mountOn_made env task (new root rfl).free (refs root rfl) walk isDir unmounted
  refine ⟨s', root, p, up, ?_, covered⟩
  rw [vfsDoMount, kern, ok_bind]
  dsimp only
  rw [if_neg below]
  exact ends

theorem vfsDoMount_refused (env : FsEnv) (task : Option Nat) {s : Vfs} {dir : List Char} (good : s.Good)
    (below : dir ≠ ['/']) (never : ¬ Mountable env task s dir) : Partly (Refused s) (vfsDoMount env task s dir) := by
  obtain ⟨c, r, made, kern, embedded, new⟩ := kernMount_embedded env s.cache
  have inv := kernMount_spec env good.inv
  rw [kern] at inv
  unfold vfsDoMount
  rw [kern, ok_bind]
  cases r with
  | error e => exact ⟨⟨e, rfl⟩, rfl, rfl, rfl, embedded⟩
  | ok root =>
      dsimp only
      rw [if_neg below]
      replace inv : Inv s.holders s.mounts c [root, root] none := inv
      refine mountOn_refused env task s dir (new root rfl) embedded (inv.sound good.mounted) ?_
      exact fun c' p up walk isDir free => never ⟨c, root, made, c', p, up, kern, walk, isDir, free⟩

theorem Refused.unchanged {s : Vfs} {r : Vfs × Except Errno Unit} (refused : Refused s r) (good : s.Good) :
    Unchanged s r.1 := by
  obtain ⟨-, mounts, rootMnt, cwds, embedded⟩ := refused
  refine ⟨good.resolves_iff embedded rootMnt cwds, ⟨mounts, rootMnt⟩, fun d live mnt mounted => ?_, fun d live =>
    ⟨embedded.live d live, embedded.dentries d live⟩⟩
  by_cases old : d ∈ s.cache.live
  · exact ⟨old, embedded.dentries d old ▸ mounted⟩
  · rw [embedded.unmounted d live old] at mounted
    cases mounted

/-- `vfs_umount` of the newest mount, by its device. -/
theorem umount_newest {n : Namespace} {mnt : Vfsmount} {rest : List Vfsmount} {dev : List Char}
    (mounts : n.vfs.mounts = mnt :: rest) (named : n.devname mnt.mntRoot = dev)
    (held : mnt.mntRoot ∈ n.vfs.cache.live ∧ 2 ≤ (n.vfs.cache.dentries mnt.mntRoot).dCount) :
    ∃ n', vfsDoUmount n dev = .ok (n', .ok ()) ∧ n'.vfs.mounts = rest ∧
      n'.vfs.cache = n.vfs.cache.bump mnt.mntRoot (-1) := by
  have stops : n.stopsAt dev mnt = true := by simp [Namespace.stopsAt, named]
  unfold vfsDoUmount
  rw [mounts, List.find?_cons_of_pos stops]
  dsimp only
  rw [dput_eq held.1 held.2, ok_bind]
  exact ⟨_, rfl, by simp [stops], rfl⟩

/-- A name too long to be kept is not found. -/
theorem umount_long {n : Namespace} {dev : List Char} (long : 64 ≤ dev.length) :
    vfsDoUmount n dev = .ok (n, .error .einval) := by
  have never : n.vfs.mounts.find? (n.stopsAt dev) = none := by
    refine List.find?_eq_none.2 fun mnt _ stops => ?_
    rcases Bool.or_eq_true_iff.1 stops with root | named
    · have same : dev = ['/'] := of_decide_eq_true (Bool.and_eq_true_iff.1 root).2
      rw [same] at long
      exact absurd long (by decide)
    · have short := n.short mnt.mntRoot
      rw [of_decide_eq_true named] at short
      omega
  unfold vfsDoUmount
  rw [never]

end Mount

theorem vfsMount_made {env : FsEnv} {task : Option Nat} {n : Namespace} {dir : List Char} {s : Vfs} {root p : Id}
    {up : Vfsmount} (dev : List Char) (run : vfsDoMount env task n.vfs dir = .ok (s, .ok ()))
    (covered : Covered n.vfs s root p up) : vfsMount env task n dev dir = .ok (n.record s root dev, .ok ()) := by
  rw [vfsMount, run, ok_bind]
  dsimp only
  rw [covered.mounts]

/-- **An umount never restores the mount point**: a mount and the umount of its device
leave the namespace as it was exactly when there is nothing to undo. -/
theorem umount_restores (env : FsEnv) (task : Option Nat) (n : Namespace) (dev dir : List Char)
    (good : n.vfs.Good) (below : dir ≠ ['/']) :
    Restores env task n dev dir ↔ ¬ Mountable env task n.vfs dir ∨ 64 ≤ dev.length := by
  constructor
  · intro restores
    by_contra both
    obtain ⟨mountable, short⟩ := not_or.1 both
    obtain ⟨s, root, p, up, run, covered⟩ := vfsDoMount_made env task good below (not_not.1 mountable)
    have named : (n.record s root dev).devname root = dev := by
      simp only [Namespace.record, Function.update_self]
      exact List.take_of_length_le (by omega)
    obtain ⟨n₂, umount, mounts, cache⟩ := umount_newest (n := n.record s root dev) covered.mounts named covered.held
    have restored := restores.undone _ n₂ (vfsMount_made dev run covered) umount
    refine restored.released ⟨root, p, some up⟩ ?_ ?_ p ?_ ?_
    · show _ ∈ s.mounts
      rw [covered.mounts]
      exact List.mem_cons_self
    · rw [mounts]
      exact fun old => covered.free (good.inv.live_of_holder (mem_holders_of_mount old).1)
    · rw [cache]
      exact covered.point
    · rw [cache, (bump_fields _ _ _ _).2.2]
      exact covered.mounted
  · intro nothing
    by_cases mountable : Mountable env task n.vfs dir
    · have long := nothing.resolve_left (not_not.2 mountable)
      obtain ⟨s, root, p, up, run, covered⟩ := vfsDoMount_made env task good below mountable
      refine ⟨fun n₁ n₂ _ umount => ?_, fun n₁ e failed => ?_⟩
      · rw [umount_long long] at umount
        cases umount
      · rw [vfsMount_made dev run covered] at failed
        cases failed
    · have refuses := vfsDoMount_refused env task good below mountable
      cases run : vfsDoMount env task n.vfs dir with
      | error fault =>
          refine ⟨fun n₁ n₂ mount _ => ?_, fun n₁ e mount => ?_⟩ <;>
          · rw [vfsMount, run] at mount
            cases mount
      | ok mounted =>
          obtain ⟨s, r⟩ := mounted
          rw [run] at refuses
          obtain ⟨⟨e, rfl⟩, -⟩ := id refuses
          refine ⟨fun n₁ n₂ mount _ => ?_, fun n₁ e mount => ?_⟩
          · rw [vfsMount, run] at mount
            cases mount
          · rw [vfsMount, run] at mount
            cases mount
            exact refuses.unchanged good

/-! ### The directory `/a` of the root -/

/-- After the mount of the root. -/
def rootMounted : Namespace := ⟨step Vfs.initial (small (.mount ['/'])), fun _ => [], fun _ => by decide⟩

theorem rootMounted_good : rootMounted.vfs.Good := by
  have clean : Clean Vfs.initial (small (.mount ['/'])) := fun other => absurd rfl other
  exact step_good initial_good clean

/-- Nothing is restored on `/a`, and there is nothing to restore on `/x`, which is not there. -/
theorem umount_restores_rootMounted :
    ¬ Restores smallEnv none rootMounted ['s', 'd'] ['/', 'a'] ∧
      Restores smallEnv none rootMounted ['s', 'd'] ['/', 'x'] := by
  have onA := umount_restores smallEnv none rootMounted ['s', 'd'] ['/', 'a'] rootMounted_good (by decide)
  have onX := umount_restores smallEnv none rootMounted ['s', 'd'] ['/', 'x'] rootMounted_good (by decide)
  refine ⟨fun restores => ?_, onX.2 (.inl ?_)⟩
  · rcases onA.1 restores with never | long
    · exact never ⟨_, 1, some 1, _, 2, ⟨0, 0, none⟩, rfl, rfl, rfl, rfl⟩
    · exact absurd long (by decide)
  · rintro ⟨c, root, made, c', p, up, kern, walk, -⟩
    cases (rfl : kernMount smallEnv rootMounted.vfs.cache = .ok (_, .ok 1, some 1)).symm.trans kern
    cases (rfl : vfsPathLookup smallEnv.toEnv _ _ ['/', 'x'] = .ok (_, .error .enoent)).symm.trans walk

/-- A mount on `/a` and the umount of its device: `/a` still refers to the mount, and
leads to its root. -/
theorem mount_and_umount :
    ¬ ∀ (env : FsEnv) (task : Option Nat) (n : Namespace) (dev dir : List Char), n.vfs.Good → dir ≠ ['/'] →
      Restores env task n dev dir := by
  intro claim
  have restores := claim smallEnv none rootMounted ['s', 'd'] ['/', 'a'] rootMounted_good (by decide)
  have restored := restores.undone _ _ rfl rfl
  refine restored.released ⟨1, 2, some ⟨0, 0, none⟩⟩ List.mem_cons_self (fun inside => ?_) 2 (by decide) rfl
  replace inside : (⟨1, 2, some ⟨0, 0, none⟩⟩ : Vfsmount) ∈ [⟨0, 0, none⟩] := inside
  cases List.mem_singleton.1 inside

end Minus.Fs.Dcache
