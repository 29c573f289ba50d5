/-
# Fs.VfsSafety — parents stay alive as long as walks go below held directories

A path walk drops the reference to a directory when it goes down, and the child it
has found does not keep the parent.  So a child that is loaded below a directory
that only the walk refers to is left with a freed parent.  `StepClean` excludes
that step, and `ReleaseClean` that a holder gives up the last reference to a
directory that still has children.  With both, every call keeps the invariant of
`Fs.DcacheTree` and touches no freed dentry.
-/
import Minus.Fs.DcacheTree
import Minus.Fs.Vfs

namespace Minus.Fs.Dcache

set_option autoImplicit false

open Minus.Theory Minus.Lib.Dlist

/-! ## The condition -/

/-- A name that the walk finds below `d` was in the cache, or `d` is held. -/
def StepClean (holders : List Id) (env : Env) (c : Cache) (d : Id) (comp : Name) : Prop :=
  (c.dentries d).dInode.any (·.isDir) = true → comp ≠ ['.'] → comp ≠ ['.', '.'] →
    Ends (fun r => Ends (fun found => ∀ next ∈ found, next ∈ c.live ∨ d ∈ holders) (fun _ => True) r.2)
      (fun _ => True) (lookupOneLen env c comp d)

/-- The same along the components of a path. -/
def WalkClean (holders : List Id) (env : Env) : List Name → Cache → Id → Vfsmount → Prop
  | [], _, _, _ => True
  | comp :: rest, c, d, mnt =>
      StepClean holders env c d comp ∧
        Ends (fun r => Ends (fun place => WalkClean holders env rest r.1 place.1 place.2)
            (fun _ => True) r.2)
          (fun _ => True) (followStep env c d mnt comp)

def PathClean (holders : List Id) (env : Env) (ctx : Context) (c : Cache) (path : List Char) : Prop :=
  match ctx.start path with
  | none => True
  | some (d, mnt) =>
      Ends (fun c => WalkClean holders env (components path) c d mnt) (fun _ => True) (dget c d)

/-- The walk to the directory of a call is clean, and so is what is done there. -/
def DirectoryClean (holders : List Id) (env : Env) (ctx : Context) (c : Cache) (path : List Char)
    (body : Cache → Id → Inode → Name → Prop) : Prop :=
  Ends (fun split => PathClean holders env ctx c split.1 ∧
      Ends (fun r => Ends (fun place => Ends (fun dir => body r.1 place.1 dir split.2) (fun _ => True)
          (inodeOf r.1 place.1)) (fun _ => True) r.2)
        (fun _ => True) (vfsPathLookup env ctx c split.1))
    (fun _ => True) (splitLastComponent path)

/-- A file is created and opened only in a held directory. -/
def CreateClean (holders : List Id) (env : FsEnv) (c : Cache) (p : Id) (dir : Inode) (name : Name) :
    Prop :=
  env.alloc c.allocs c.live ≠ none →
    Ends (fun inode => env.fileAlloc = true → env.openHook inode = .ok () → p ∈ holders)
      (fun _ => True) (env.create dir.iNo (name.take 63))

def OpenClean (holders : List Id) (env : FsEnv) (ctx : Context) (c : Cache) (path : List Char)
    (creat : Bool) : Prop :=
  PathClean holders env.toEnv ctx c path ∧
    Ends (fun r => Ends (fun _ => True)
        (fun e => creat = true → e = .enoent →
          DirectoryClean holders env.toEnv ctx r.1 path (CreateClean holders env))
        r.2)
      (fun _ => True) (vfsPathLookup env.toEnv ctx c path)

/-- The dentry has another reference, or nothing is on its `d_subdirs`. -/
def ReleaseClean (c : Cache) (d : Id) : Prop :=
  2 ≤ (c.dentries d).dCount ∨ dlistEmpty c.links (.subdirs d) = true

/-- `fd_chdir` gives up the old working directory after the walk to the new one. -/
def ChdirClean (holders : List Id) (env : Env) (ctx : Context) (c : Cache) (path : List Char)
    (old : Option Id) : Prop :=
  PathClean holders env ctx c path ∧
    Ends (fun r => Ends (fun place => ((r.1.dentries place.1).dInode.any (·.isDir) = true →
        ∀ d ∈ old, ReleaseClean r.1 d)) (fun _ => True) r.2)
      (fun _ => True) (vfsPathLookup env ctx c path)

def Vfs.holders (s : Vfs) : List Id :=
  s.superblocks ++ s.mounts.flatMap (fun m => [m.mntRoot, m.mntMountpoint]) ++
    s.files.map File.fDentry ++ s.cwds.map (fun w => w.2.1) ++ s.paths

/-- The condition on a call. -/
def Clean (s : Vfs) (a : Action) : Prop :=
  let ctx := s.context a.task
  match a.call with
  | .lookup path => PathClean s.holders a.env.toEnv ctx s.cache path
  | .release i => ∀ d ∈ s.paths[i]?, ReleaseClean s.cache d
  | .openFile path creat _ => OpenClean s.holders a.env ctx s.cache path creat
  | .close i => ∀ file ∈ s.files[i]?, ReleaseClean s.cache file.fDentry
  | .stat path => PathClean s.holders a.env.toEnv ctx s.cache path
  | .mkdir path => DirectoryClean s.holders a.env.toEnv ctx s.cache path fun _ _ _ _ => True
  | .unlink path => DirectoryClean s.holders a.env.toEnv ctx s.cache path fun _ _ _ _ => True
  | .rmdir path => DirectoryClean s.holders a.env.toEnv ctx s.cache path fun _ _ _ _ => True
  | .chdir path =>
      ChdirClean s.holders a.env.toEnv ctx s.cache path ((s.cwd a.task).map Prod.fst)
  | .mount path =>
      path ≠ ['/'] → Ends (fun r => ∀ root, r.2.1 = .ok root →
          PathClean s.holders a.env.toEnv ctx r.1 path)
        (fun _ => True) (kernMount a.env s.cache)

/-! ## Lookups -/

section Walk

variable {holders extra : List Id} {mounts : List Vfsmount} {c : Cache} {d p : Id} {mnt : Vfsmount}

/-- The references in flight may be listed in any order. -/
theorem Inv.perm {extra' : List Id} {tmp : Option Id} (inv : Inv holders mounts c extra tmp)
    (perm : extra.Perm extra') : Inv holders mounts c extra' tmp := by
  have whole : (holders ++ extra).Perm (holders ++ extra') := perm.append_left holders
  refine ⟨?_, ?_, inv.nodup, inv.rings, inv.anchored, inv.positive, inv.mounted⟩
  · intro x there
    rw [inv.count x there, whole.count_eq]
  · intro x
    rw [inv.live_iff, whole.mem_iff]

theorem Inv.swap {a b : Id} {tmp : Option Id} (inv : Inv holders mounts c (a :: b :: extra) tmp) :
    Inv holders mounts c (b :: a :: extra) tmp :=
  inv.perm (List.Perm.swap b a extra)

theorem failed_spec {α : Type} (inv : Inv holders mounts c (d :: extra) none) (e : Errno) :
    Safe (fun r => Inv holders mounts r.1 extra none ∧ r.2 = .error e)
      (failed c d e : Except Fault (Cache × Except Errno α)) := by
  refine Ends.bind (dput_spec inv (.inl rfl)) ?_
  intro c' inv'
  exact ⟨inv', rfl⟩

/-- What `lookup_one_len` gives: a cached child, or a new one. -/
def Looked (holders : List Id) (mounts : List Vfsmount) (extra : List Id) (c : Cache) (base : Id)
    (r : Cache × Except Errno (Option Id)) : Prop :=
  match r.2 with
  | .ok (some d) =>
      (d ∈ c.live ∧ base ∈ holders ∧ Inv holders mounts r.1 (d :: extra) none) ∨
        (d ∉ c.live ∧ Fresh holders mounts extra base r.1 d ∧ (r.1.dentries d).dInode ≠ none)
  | _ => Inv holders mounts r.1 extra none

theorem lookupOneLen_spec (env : Env) (inv : Inv holders mounts c extra none) (live : p ∈ c.live)
    (name : Name) :
    Safe (Looked holders mounts extra c p) (lookupOneLen env c name p) := by
  refine Ends.bind (dLookup_spec inv live (name.take 63)) ?_
  rintro ⟨c', found⟩ looked
  cases found with
  | some d =>
      obtain ⟨there, below, other, inv'⟩ := looked
      have held := inv.anchored d there (by rw [below]; exact Ne.symm other) (by simp)
      exact .inl ⟨there, below ▸ held, inv'⟩
  | none =>
      have same : c = c' := looked.symm
      subst same
      refine Ends.bind (dAlloc_spec env inv live (name.take 63)) ?_
      rintro ⟨c', made⟩ allocated
      cases made with
      | none => exact allocated
      | some d =>
          obtain ⟨_, fresh, _⟩ := allocated
          have known : p ∈ holders ++ extra := (inv.live_iff p).mp live
          have there : p ∈ c'.live := by
            rw [fresh.inv.live_iff]
            rcases List.mem_append.mp known with held | flying
            · exact List.mem_append_left _ held
            · exact List.mem_append_right _ (List.mem_cons_of_mem d flying)
          have other : some p ≠ some d := by
            rintro ⟨⟩
            exact fresh.new known
          have new : d ∉ c.live := fun old => fresh.new ((inv.live_iff d).mp old)
          refine touch_bind there ?_
          cases entry : (c'.dentries p).dInode with
          | none => exact absurd entry (fresh.inv.positive p there other)
          | some dir =>
              simp only
              cases env.lookup dir.iNo (name.take 63) with
              | error e =>
                  refine Ends.bind fresh.discard ?_
                  exact fun c' inv' => inv'
              | ok answer =>
                  cases answer with
                  | none =>
                      refine Ends.bind fresh.discard ?_
                      exact fun c' inv' => inv'
                  | some inode =>
                      refine Ends.bind (dInstantiate_spec fresh inode) ?_
                      rintro c' ⟨fresh', set⟩
                      exact .inr ⟨new, fresh', by simp [set]⟩

/-! ## Walks -/

/-- The mounts keep their roots and mount points. -/
def Mounted (holders : List Id) (mounts : List Vfsmount) : Prop :=
  ∀ m ∈ mounts, m.mntRoot ∈ holders ∧ m.mntMountpoint ∈ holders ∧
    ∀ up, m.mntParent = some up → up ∈ mounts

/-- What a step or a walk from a reference in flight gives: a reference to another
place, or none. -/
def Walked (holders : List Id) (mounts : List Vfsmount) (extra : List Id)
    (r : Cache × Except Errno (Id × Vfsmount)) : Prop :=
  match r.2 with
  | .ok (d, mnt) => Inv holders mounts r.1 (d :: extra) none ∧ mnt ∈ mounts
  | .error _ => Inv holders mounts r.1 extra none

theorem failed_walked (inv : Inv holders mounts c (d :: extra) none) (e : Errno) :
    Safe (Walked holders mounts extra) (failed c d e) := by
  refine (failed_spec inv e).mono ?_ fun _ h => h
  rintro ⟨c', ret⟩ ⟨inv', rfl⟩
  exact inv'

theorem moveRef_spec (inv : Inv holders mounts c (d :: extra) none) (live : p ∈ c.live) :
    Safe (fun c' => Inv holders mounts c' (p :: extra) none) (moveRef c d p) :=
  Ends.bind (dget_spec inv live) fun _ inv' => dput_spec inv'.swap (.inl rfl)

theorem climb_spec (sound : Mounted holders mounts) (inv : Inv holders mounts c (d :: extra) none)
    (inside : mnt ∈ mounts) :
    Safe (fun r => Inv holders mounts r.1 (r.2.1 :: extra) none ∧ r.2.2 ∈ mounts) (climb c d mnt) := by
  obtain ⟨_, point, parents⟩ := sound mnt inside
  unfold climb
  cases up : mnt.mntParent with
  | none => exact ⟨inv, inside⟩
  | some up' =>
      simp only
      split
      · refine Ends.bind (moveRef_spec inv (inv.live_of_holder point)) ?_
        intro c' inv'
        exact ⟨inv', parents up' up⟩
      · exact ⟨inv, inside⟩

theorem stepUp_spec (sound : Mounted holders mounts) (inv : Inv holders mounts c (d :: extra) none)
    (inside : mnt ∈ mounts) : Safe (Walked holders mounts extra) (stepUp c d mnt) := by
  refine Ends.bind (climb_spec sound inv inside) ?_
  rintro ⟨c', d', mnt'⟩ ⟨inv', inside'⟩
  have live : d' ∈ c'.live := inv'.live_of_extra List.mem_cons_self
  refine touch_bind live ?_
  show Safe _ (if _ then _ else _)
  split
  · exact ⟨inv', inside'⟩
  · refine Ends.bind (moveRef_spec inv' (inv'.parent_live live)) ?_
    intro c'' inv''
    exact ⟨inv'', inside'⟩

/-- After a clean step the child found is like any other dentry. -/
theorem stepDown_found (env : Env) (inv : Inv holders mounts c (d :: extra) none) (name : Name)
    (clean : Ends (fun r => Ends (fun found => ∀ next ∈ found, next ∈ c.live ∨ d ∈ holders)
      (fun _ => True) r.2) (fun _ => True) (lookupOneLen env c name d)) :
    Safe (fun r => match r.2 with
        | .ok (some next) => Inv holders mounts r.1 (next :: d :: extra) none
        | _ => Inv holders mounts r.1 (d :: extra) none)
      (lookupOneLen env c name d) := by
  have live : d ∈ c.live := inv.live_of_extra List.mem_cons_self
  refine ((lookupOneLen_spec env inv live name).clean clean).mono ?_ fun _ h => h
  rintro ⟨c', ret⟩ ⟨looked, clean⟩
  cases ret with
  | error e => exact looked
  | ok found =>
      cases found with
      | none => exact looked
      | some next =>
          rcases looked with ⟨_, _, inv'⟩ | ⟨new, fresh, positive⟩
          · exact inv'
          · have held := (clean next rfl).resolve_left new
            exact fresh.settle (.inr held) positive

theorem stepDown_spec (env : Env) (sound : Mounted holders mounts)
    (inv : Inv holders mounts c (d :: extra) none) (inside : mnt ∈ mounts) (name : Name)
    (clean : Ends (fun r => Ends (fun found => ∀ next ∈ found, next ∈ c.live ∨ d ∈ holders)
      (fun _ => True) r.2) (fun _ => True) (lookupOneLen env c name d)) :
    Safe (Walked holders mounts extra) (stepDown env c d mnt name) := by
  refine Ends.bind (stepDown_found env inv name clean) ?_
  rintro ⟨c', ret⟩ looked
  cases ret with
  | error e => exact failed_walked looked e
  | ok found =>
      cases found with
      | none => exact failed_walked looked .enoent
      | some next =>
          have inv' : Inv holders mounts c' (next :: d :: extra) none := looked
          have live : next ∈ c'.live := inv'.live_of_extra List.mem_cons_self
          refine touch_bind live ?_
          cases covers : (c'.dentries next).dMounted with
          | none =>
              refine Ends.bind (dput_spec inv'.swap (.inl rfl)) ?_
              intro c'' inv''
              exact ⟨inv'', inside⟩
          | some sub =>
              have known := inv'.mounted next live sub covers
              have root := inv'.live_of_holder (sound sub known).1
              refine Ends.bind (dget_spec inv' root) fun c₁ inv₁ => ?_
              refine Ends.bind (dput_spec inv₁.swap (.inl rfl)) fun c₂ inv₂ => ?_
              refine Ends.bind (dput_spec inv₂.swap (.inl rfl)) fun c₃ inv₃ => ?_
              exact ⟨inv₃, known⟩

/-- **One component of a walk.** -/
theorem followStep_spec (env : Env) (sound : Mounted holders mounts)
    (inv : Inv holders mounts c (d :: extra) none) (inside : mnt ∈ mounts) (comp : Name)
    (clean : StepClean holders env c d comp) :
    Safe (Walked holders mounts extra) (followStep env c d mnt comp) := by
  have live : d ∈ c.live := inv.live_of_extra List.mem_cons_self
  refine touch_bind live ?_
  cases entry : (c.dentries d).dInode with
  | none => exact absurd entry (inv.positive d live (by simp))
  | some inode =>
      simp only
      split
      · exact failed_walked inv .enotdir
      · rename_i dir
        have dir : (c.dentries d).dInode.any (·.isDir) = true := by simpa [entry] using dir
        split
        · exact ⟨inv, inside⟩
        · rename_i notDot
          split
          · exact stepUp_spec sound inv inside
          · rename_i notUp
            exact stepDown_spec env sound inv inside comp (clean dir notDot notUp)

/-- **A walk along clean components.** -/
theorem followLoop_spec (env : Env) (sound : Mounted holders mounts) :
    ∀ (comps : List Name) (c : Cache) (d : Id) (mnt : Vfsmount),
      Inv holders mounts c (d :: extra) none → mnt ∈ mounts → WalkClean holders env comps c d mnt →
        Safe (Walked holders mounts extra) (followLoop env c d mnt comps)
  | [], _, _, _, inv, inside, _ => ⟨inv, inside⟩
  | comp :: rest, c, d, mnt, inv, inside, clean => by
      refine Ends.bind ((followStep_spec env sound inv inside comp clean.1).clean clean.2) ?_
      rintro ⟨c', ret⟩ ⟨step, after⟩
      cases ret with
      | error e => exact step
      | ok place =>
          obtain ⟨d', mnt'⟩ := place
          exact followLoop_spec env sound rest c' d' mnt' step.1 step.2 after

/-- The context's places are live and on known mounts. -/
def Placed (holders : List Id) (mounts : List Vfsmount) (ctx : Context) : Prop :=
  (∀ mnt, ctx.rootMnt = some mnt → mnt ∈ mounts) ∧
    ∀ d mnt, ctx.cwd = some (d, mnt) → d ∈ holders ∧ mnt ∈ mounts

theorem start_placed {ctx : Context} {path : List Char} (sound : Mounted holders mounts)
    (placed : Placed holders mounts ctx) (start : ctx.start path = some (d, mnt)) :
    d ∈ holders ∧ mnt ∈ mounts := by
  have root (found : (ctx.rootMnt.map fun mnt => (mnt.mntRoot, mnt)) = some (d, mnt)) :
      d ∈ holders ∧ mnt ∈ mounts := by
    cases known : ctx.rootMnt with
    | none => simp [known] at found
    | some m =>
        simp only [known, Option.map_some, Option.some.injEq, Prod.mk.injEq] at found
        obtain ⟨rfl, rfl⟩ := found
        have inside := placed.1 m known
        exact ⟨(sound m inside).1, inside⟩
  unfold Context.start at start
  simp only at start
  split at start
  · exact root start
  · cases cwd : ctx.cwd with
    | none =>
        rw [cwd] at start
        exact root start
    | some place =>
        rw [cwd] at start
        cases start
        exact placed.2 d mnt cwd

/-- **`vfs_path_lookup` along a clean path.** -/
theorem vfsPathLookup_spec (env : Env) {ctx : Context} (sound : Mounted holders mounts)
    (placed : Placed holders mounts ctx) (inv : Inv holders mounts c extra none)
    (path : List Char) (clean : PathClean holders env ctx c path) :
    Safe (Walked holders mounts extra) (vfsPathLookup env ctx c path) := by
  unfold vfsPathLookup followPath
  unfold PathClean at clean
  cases start : ctx.start path with
  | none => exact inv
  | some place =>
      obtain ⟨d, mnt⟩ := place
      obtain ⟨held, inside⟩ := start_placed sound placed start
      rw [start] at clean
      refine Ends.bind ((dget_spec inv (inv.live_of_holder held)).clean clean) ?_
      rintro c' ⟨got, clean⟩
      exact followLoop_spec env sound (components path) c' d mnt got inside clean

/-! ## Opening -/

/-- What a call gives that may leave one reference to the caller. -/
def Gives (holders : List Id) (mounts : List Vfsmount) (extra : List Id)
    (r : Cache × Except Errno Id) : Prop :=
  match r.2 with
  | .ok d => Inv holders mounts r.1 (d :: extra) none
  | .error _ => Inv holders mounts r.1 extra none

theorem inodeOf_spec (inv : Inv holders mounts c extra none) (live : d ∈ c.live) :
    Safe (fun inode => (c.dentries d).dInode = some inode) (inodeOf c d) := by
  refine touch_bind live ?_
  cases entry : (c.dentries d).dInode with
  | none => exact absurd entry (inv.positive d live (by simp))
  | some inode => exact rfl

theorem failed_gives (inv : Inv holders mounts c (d :: extra) none) (e : Errno) :
    Safe (Gives holders mounts extra) (failed c d e) := by
  refine (failed_spec inv e).mono ?_ fun _ h => h
  rintro ⟨c', ret⟩ ⟨inv', rfl⟩
  exact inv'

/-- `dentry_open` takes a reference of its own, or fails and takes none. -/
def Opened (env : FsEnv) (inode : Inode) (holders : List Id) (mounts : List Vfsmount)
    (extra : List Id) (tmp : Option Id) (d : Id) (r : Cache × Except Errno Id) : Prop :=
  match r.2 with
  | .ok x => x = d ∧ env.fileAlloc = true ∧ env.openHook inode = .ok () ∧
      Inv holders mounts r.1 (d :: d :: extra) tmp
  | .error _ => Inv holders mounts r.1 (d :: extra) tmp

theorem dentryOpen_spec (env : FsEnv) {tmp : Option Id} {inode : Inode}
    (inv : Inv holders mounts c (d :: extra) tmp) (entry : (c.dentries d).dInode = some inode) :
    Safe (Opened env inode holders mounts extra tmp d) (dentryOpen env c d) := by
  have live : d ∈ c.live := inv.live_of_extra List.mem_cons_self
  have got := dget_spec inv live
  have result : dget c d = .ok (c.modify d fun e => { e with dCount := e.dCount + 1 }) := by
    unfold dget touch
    rw [if_pos live]
    rfl
  have lose (c' : Cache) (e : Errno) (inv' : Inv holders mounts c' (d :: d :: extra) tmp) :
      Safe (Opened env inode holders mounts extra tmp d) (failed c' d e) :=
    Ends.bind (dput_more inv' (by simp)) fun _ inv'' => inv''
  unfold dentryOpen
  rw [result] at got ⊢
  rw [ok_bind, modify_self]
  simp only [entry]
  split
  · exact lose _ _ got
  · rename_i allocated
    have allocated : env.fileAlloc = true := by simpa using allocated
    cases hook : env.openHook inode with
    | error e => exact lose _ e got
    | ok _ => exact ⟨rfl, allocated, hook, got⟩

/-- The end of a call that opens `d`: the lookup's reference goes. -/
theorem open_gives (env : FsEnv) (inv : Inv holders mounts c (d :: extra) none) (live : d ∈ c.live) :
    Safe (Gives holders mounts extra) (do
      let (c, ret) ← dentryOpen env c d
      let c ← dput c d
      .ok (c, ret)) := by
  cases entry : (c.dentries d).dInode with
  | none => exact absurd entry (inv.positive d live (by simp))
  | some inode =>
      refine Ends.bind (dentryOpen_spec env inv entry) ?_
      rintro ⟨c', ret⟩ opened
      cases ret with
      | error e =>
          refine Ends.bind (dput_spec opened (.inl rfl)) ?_
          exact fun c'' inv'' => inv''
      | ok x =>
          obtain ⟨rfl, _, _, inv'⟩ := opened
          refine Ends.bind (dput_spec inv' (.inl rfl)) ?_
          exact fun c'' inv'' => inv''

/-- The rest of `vfs_create` once the backend has made the inode. -/
theorem createIn_opened (env : FsEnv) {inode : Inode}
    (fresh : Fresh holders mounts (p :: extra) p c d)
    (entry : (c.dentries d).dInode = some inode)
    (clean : env.fileAlloc = true → env.openHook inode = .ok () → p ∈ holders) :
    Safe (Gives holders mounts extra) (do
      let (c, ret) ← dentryOpen env c d
      let c ← dput c d
      let c ← dput c p
      .ok (c, ret)) := by
  by_cases held : p ∈ holders
  · have inv := fresh.settle (.inr held) (by simp [entry])
    refine Ends.bind (dentryOpen_spec env inv entry) ?_
    rintro ⟨c', ret⟩ opened
    cases ret with
    | error e =>
        refine Ends.bind (dput_spec opened (.inl rfl)) fun c₁ inv₁ => ?_
        refine Ends.bind (dput_spec inv₁ (.inl rfl)) fun c₂ inv₂ => ?_
        exact inv₂
    | ok x =>
        obtain ⟨rfl, _, _, inv'⟩ := opened
        refine Ends.bind (dput_spec inv' (.inl rfl)) fun c₁ inv₁ => ?_
        refine Ends.bind (dput_spec inv₁.swap (.inl rfl)) fun c₂ inv₂ => ?_
        exact inv₂
  · refine Ends.bind (dentryOpen_spec env fresh.inv entry) ?_
    rintro ⟨c', ret⟩ opened
    cases ret with
    | error e =>
        refine Ends.bind (dput_spec opened (.inr ⟨rfl, fresh.new⟩)) fun c₁ inv₁ => ?_
        refine Ends.bind (dput_spec inv₁ (.inl rfl)) fun c₂ inv₂ => ?_
        exact inv₂
    | ok x => exact absurd (clean opened.2.1 opened.2.2.1) held

theorem createIn_spec (env : FsEnv) (inv : Inv holders mounts c (p :: extra) none) (dir : Inode)
    (name : Name) (clean : CreateClean holders env c p dir name) :
    Safe (Gives holders mounts extra) (createIn env c p dir name) := by
  have live : p ∈ c.live := inv.live_of_extra List.mem_cons_self
  refine Ends.bind (dAlloc_spec env.toEnv inv live name) ?_
  rintro ⟨c', made⟩ allocated
  cases made with
  | none => exact failed_gives allocated .enomem
  | some d =>
      obtain ⟨given, fresh, negative⟩ := allocated
      have negative : (c'.dentries d).dInode = none := negative
      show Safe _ (if _ then _ else _)
      rw [if_neg (not_not.mpr negative)]
      have clean := clean (by simp [given])
      cases made : env.create dir.iNo (name.take 63) with
      | error e =>
          refine Ends.bind fresh.discard fun c₁ inv₁ => ?_
          exact failed_gives inv₁ e
      | ok inode =>
          rw [made] at clean
          refine Ends.bind (dInstantiate_spec fresh inode) ?_
          rintro c₁ ⟨fresh', entry⟩
          exact createIn_opened env fresh' entry clean

/-- The walk to the directory of a call, and the call there. -/
theorem inDirectory_spec {α : Type} (env : Env) {ctx : Context} (sound : Mounted holders mounts)
    (placed : Placed holders mounts ctx) (inv : Inv holders mounts c extra none) (path : List Char)
    {condition : Cache → Id → Inode → Name → Prop}
    {body : Cache → Id → Inode → Name → Except Fault (Cache × Except Errno α)}
    {P : Cache × Except Errno α → Prop}
    (lost : ∀ c e, Inv holders mounts c extra none → P (c, .error e))
    (safe : ∀ c p dir name, Inv holders mounts c (p :: extra) none → condition c p dir name →
      Safe P (body c p dir name))
    (clean : DirectoryClean holders env ctx c path condition) :
    Safe P (inDirectory env ctx c path body) := by
  unfold inDirectory
  unfold DirectoryClean at clean
  cases split : splitLastComponent path with
  | error e => exact lost c e inv
  | ok parts =>
      obtain ⟨parent, name⟩ := parts
      rw [split] at clean
      have walk := (vfsPathLookup_spec env sound placed inv parent clean.1).clean clean.2
      refine Ends.bind walk ?_
      rintro ⟨c', ret⟩ ⟨walked, clean⟩
      cases ret with
      | error e => exact lost c' e walked
      | ok place =>
          obtain ⟨p, mnt⟩ := place
          obtain ⟨inv', _⟩ := walked
          have live : p ∈ c'.live := inv'.live_of_extra List.mem_cons_self
          refine Ends.bind ((inodeOf_spec inv' live).clean clean) ?_
          rintro dir ⟨_, clean⟩
          show Safe _ (if _ then _ else _)
          split
          · refine (failed_spec inv' .enotdir).mono ?_ fun _ h => h
            rintro ⟨c'', ret⟩ ⟨inv'', rfl⟩
            exact lost c'' _ inv''
          · exact safe c' p dir name inv' clean

theorem vfsOpen_spec (env : FsEnv) {ctx : Context} (sound : Mounted holders mounts)
    (placed : Placed holders mounts ctx) (inv : Inv holders mounts c extra none) (path : List Char)
    (creat directory : Bool) (clean : OpenClean holders env ctx c path creat) :
    Safe (Gives holders mounts extra) (vfsOpen env ctx c path creat directory) := by
  refine Ends.bind ((vfsPathLookup_spec env.toEnv sound placed inv path clean.1).clean clean.2) ?_
  rintro ⟨c', ret⟩ ⟨walked, clean⟩
  cases ret with
  | error e =>
      show Safe _ (if _ then _ else _)
      split
      · rename_i asked
        exact inDirectory_spec env.toEnv sound placed walked path (fun _ _ inv => inv)
          (fun c p dir name inv clean => createIn_spec env inv dir name clean)
          (clean asked.1 asked.2)
      · exact walked
  | ok place =>
      obtain ⟨d, mnt⟩ := place
      obtain ⟨inv', _⟩ := walked
      have live : d ∈ c'.live := inv'.live_of_extra List.mem_cons_self
      refine Ends.bind (inodeOf_spec inv' live) fun inode _ => ?_
      show Safe _ (if _ then _ else _)
      split
      · exact failed_gives inv' .enotdir
      · exact open_gives env inv' live

/-! ## The other calls in a directory -/

theorem finish_spec {α : Type} {tmp : Option Id} (ret : Except Errno α)
    (inv : Inv holders mounts c (d :: p :: extra) tmp)
    (free : tmp = none ∨ tmp = some d ∧ d ∉ holders ++ p :: extra) :
    Safe (fun r => Inv holders mounts r.1 extra none) (finish c d p ret) := by
  refine Ends.bind (dput_spec inv free) fun c₁ inv₁ => ?_
  refine Ends.bind (dput_spec inv₁ (.inl rfl)) fun c₂ inv₂ => ?_
  exact inv₂

theorem removeIn_spec (env : Env) (remove : Inode → Inode → Name → Except Errno Unit)
    (inv : Inv holders mounts c (p :: extra) none) (dir : Inode) (name : Name) :
    Safe (fun r => Inv holders mounts r.1 extra none) (removeIn env remove c p dir name) := by
  have live : p ∈ c.live := inv.live_of_extra List.mem_cons_self
  have lose (c' : Cache) (e : Errno) (inv' : Inv holders mounts c' (p :: extra) none) :
      Safe (fun r => Inv holders mounts r.1 extra none)
        (failed c' p e : Except Fault (Cache × Except Errno Unit)) :=
    (failed_spec inv' e).mono (fun _ h => h.1) fun _ h => h
  refine Ends.bind (lookupOneLen_spec env inv live name) ?_
  rintro ⟨c', ret⟩ looked
  cases ret with
  | error e => exact lose c' e looked
  | ok found =>
      cases found with
      | none => exact lose c' .enoent looked
      | some d =>
          have done (ret : Except Errno Unit) :
              Safe (fun r => Inv holders mounts r.1 extra none) (finish c' d p ret) := by
            rcases looked with ⟨_, _, inv'⟩ | ⟨_, fresh, _⟩
            · exact finish_spec ret inv' (.inl rfl)
            · exact finish_spec ret fresh.inv (.inr ⟨rfl, fresh.new⟩)
          have there : d ∈ c'.live := by
            rcases looked with ⟨_, _, inv'⟩ | ⟨_, fresh, _⟩
            · exact inv'.live_of_extra List.mem_cons_self
            · exact fresh.inv.live_of_extra List.mem_cons_self
          refine touch_bind there ?_
          cases (c'.dentries d).dInode with
          | none => exact done _
          | some inode => exact done _

theorem mkdirIn_spec (env : FsEnv) (inv : Inv holders mounts c (p :: extra) none) (dir : Inode)
    (name : Name) :
    Safe (fun r => Inv holders mounts r.1 extra none) (mkdirIn env c p dir name) := by
  have live : p ∈ c.live := inv.live_of_extra List.mem_cons_self
  refine Ends.bind (dAlloc_spec env.toEnv inv live name) ?_
  rintro ⟨c', made⟩ allocated
  cases made with
  | none => exact (failed_spec allocated .enomem).mono (fun _ h => h.1) fun _ h => h
  | some d =>
      obtain ⟨_, fresh, _⟩ := allocated
      simp only
      cases env.mkdir dir.iNo (name.take 63) with
      | error e => exact finish_spec _ fresh.inv (.inr ⟨rfl, fresh.new⟩)
      | ok inode =>
          refine Ends.bind (dInstantiate_spec fresh inode) ?_
          rintro c₁ ⟨fresh', _⟩
          exact finish_spec _ fresh'.inv (.inr ⟨rfl, fresh'.new⟩)

theorem vfsStat_spec (env : Env) {ctx : Context} (sound : Mounted holders mounts)
    (placed : Placed holders mounts ctx) (inv : Inv holders mounts c extra none) (path : List Char)
    (clean : PathClean holders env ctx c path) :
    Safe (fun r => Inv holders mounts r.1 extra none) (vfsStat env ctx c path) := by
  refine Ends.bind (vfsPathLookup_spec env sound placed inv path clean) ?_
  rintro ⟨c', ret⟩ walked
  cases ret with
  | error e => exact walked
  | ok place =>
      obtain ⟨d, mnt⟩ := place
      obtain ⟨inv', _⟩ := walked
      refine touch_bind (inv'.live_of_extra List.mem_cons_self) ?_
      show Safe _ (if _ then _ else _)
      split
      · exact (failed_spec inv' .enoent).mono (fun _ h => h.1) fun _ h => h
      · refine Ends.bind (dput_spec inv' (.inl rfl)) ?_
        exact fun c'' inv'' => inv''

/-- A call in a directory that leaves no reference. -/
theorem inDirectory_keeps (env : Env) {ctx : Context} (sound : Mounted holders mounts)
    (placed : Placed holders mounts ctx) (inv : Inv holders mounts c extra none) (path : List Char)
    {body : Cache → Id → Inode → Name → Except Fault (Cache × Except Errno Unit)}
    (safe : ∀ c p dir name, Inv holders mounts c (p :: extra) none →
      Safe (fun r => Inv holders mounts r.1 extra none) (body c p dir name))
    (clean : DirectoryClean holders env ctx c path fun _ _ _ _ => True) :
    Safe (fun r => Inv holders mounts r.1 extra none) (inDirectory env ctx c path body) :=
  inDirectory_spec env sound placed inv path (fun _ _ inv => inv)
    (fun c p dir name inv _ => safe c p dir name inv) clean

/-! ## References that change hands -/

/-- A reference in flight becomes one of a holder. -/
theorem Inv.acquire (inv : Inv holders mounts c (d :: extra) none) :
    Inv (d :: holders) mounts c extra none := by
  have perm : (holders ++ d :: extra).Perm (d :: holders ++ extra) := List.perm_middle
  refine ⟨?_, ?_, inv.nodup, inv.rings, ?_, inv.positive, inv.mounted⟩
  · intro x there
    rw [inv.count x there, perm.count_eq]
  · intro x
    rw [inv.live_iff, perm.mem_iff]
  · intro x there apart open_
    exact List.mem_cons_of_mem d (inv.anchored x there apart open_)

theorem Inv.reorder {holders' : List Id} (inv : Inv holders mounts c extra none)
    (perm : holders.Perm holders') : Inv holders' mounts c extra none := by
  have whole : (holders ++ extra).Perm (holders' ++ extra) := perm.append_right extra
  refine ⟨?_, ?_, inv.nodup, inv.rings, ?_, inv.positive, inv.mounted⟩
  · intro x there
    rw [inv.count x there, whole.count_eq]
  · intro x
    rw [inv.live_iff, whole.mem_iff]
  · intro x there apart open_
    exact perm.mem_iff.mp (inv.anchored x there apart open_)

/-- A holder's reference is in flight before it is given up: nothing depended on it alone. -/
theorem Inv.release (inv : Inv (d :: holders) mounts c [] none) (clean : ReleaseClean c d) :
    Inv holders mounts c [d] none := by
  have live : d ∈ c.live := inv.live_of_holder List.mem_cons_self
  have perm : (d :: holders ++ []).Perm (holders ++ [d]) := by
    rw [List.append_nil]
    exact (List.perm_append_singleton d holders).symm
  obtain ⟨children, rings⟩ := inv.rings
  refine ⟨?_, ?_, inv.nodup, inv.rings, ?_, inv.positive, inv.mounted⟩
  · intro x there
    rw [inv.count x there, perm.count_eq]
  · intro x
    rw [inv.live_iff, perm.mem_iff]
  · intro x there apart open_
    rcases List.mem_cons.mp (inv.anchored x there apart open_) with under | held
    · -- `x` is a child of `d`, so the list is not empty and another reference remains
      rcases clean with counted | empty
      · have count := inv.count d live
        rw [List.append_nil, List.count_cons_self] at count
        rw [under]
        exact List.count_pos_iff.mp (by omega)
      · have list := (dlistEmpty_iff rings.family live).mp empty
        have inside : x ∈ children d := (rings.member d live x).mpr
          ⟨there, under, fun same => apart (same ▸ under)⟩
        rw [List.map_eq_nil_iff] at list
        rw [list] at inside
        cases inside
    · exact held

theorem release_spec (inv : Inv (d :: holders) mounts c [] none) (clean : ReleaseClean c d) :
    Safe (fun c' => Inv holders mounts c' [] none) (dput c d) :=
  dput_spec (inv.release clean) (.inl rfl)

end Walk

end Minus.Fs.Dcache
