/-
# Fs.NameiWalk — what a path walk keeps

The walk and the calls around it touch the state through a few operations: a dentry is
looked up, counted, allocated or put, and `ext4_lookup` loads an inode.  An invariant
that these keep (`Walkable`) is kept by every walk, and by the calls up to the point
where they hand a directory to ext4.
-/
import Minus.Fs.Namei

namespace Minus.Fs.Namei

set_option autoImplicit false

open Minus.Theory
open Minus.Fs.Dcache (Id Name Errno Fault Cache Dentry Vfsmount touch components splitLastComponent)
open Minus.Fs.Ext4Dir (dot dotdot)

/-! ## The dentry cache -/

/-- The same dentries are live, with the same inodes and names. -/
structure SameDentries (c c' : Cache) : Prop where
  live : c'.live = c.live
  inode : ∀ x, (c'.dentries x).dInode = (c.dentries x).dInode
  name : ∀ x, (c'.dentries x).dName = (c.dentries x).dName

/-- The dentry `d` was added, without an inode. -/
structure Added (d : Id) (name : Name) (c c' : Cache) : Prop where
  fresh : d ∉ c.live
  live : c'.live = d :: c.live
  inode : (c'.dentries d).dInode = none
  named : (c'.dentries d).dName = name
  other : ∀ x, x ≠ d → c'.dentries x = c.dentries x

/-- The dentry `d` was freed. -/
structure Dropped (d : Id) (c c' : Cache) : Prop where
  was : d ∈ c.live
  live : c'.live = c.live.erase d
  other : ∀ x, x ≠ d → c'.dentries x = c.dentries x

section Cache

variable {c : Cache} {d : Id}

theorem SameDentries.refl (c : Cache) : SameDentries c c := ⟨rfl, fun _ => rfl, fun _ => rfl⟩

theorem sameDentries_modify (c : Cache) (d : Id) (f : Dentry → Dentry)
    (inode : (f (c.dentries d)).dInode = (c.dentries d).dInode)
    (name : (f (c.dentries d)).dName = (c.dentries d).dName) : SameDentries c (c.modify d f) := by
  refine ⟨rfl, fun x => ?_, fun x => ?_⟩
  · show (Function.update c.dentries d _ x).dInode = _
    by_cases same : x = d
    · rw [same, Function.update_self, inode]
    · rw [Function.update_of_ne same]
  · show (Function.update c.dentries d _ x).dName = _
    by_cases same : x = d
    · rw [same, Function.update_self, name]
    · rw [Function.update_of_ne same]

/-- A dentry that is touched is live. -/
theorem touch_ends {α : Type} {P : α → Prop} {next : Except Fault α}
    (after : d ∈ c.live → Ends P (fun _ => True) next) :
    Ends P (fun _ => True) (do touch c d; next) := by
  unfold touch
  split
  · rename_i live
    exact after live
  · trivial

theorem dget_same : Ends (SameDentries c) (fun _ => True) (Dcache.dget c d) :=
  touch_ends fun _ => sameDentries_modify c d _ rfl rfl

theorem dLookup_same (parent : Id) (name : Name) :
    Ends (fun r => SameDentries c r.1) (fun _ => True) (Dcache.dLookup c parent name) := by
  refine touch_ends fun _ => ?_
  refine Ends.bind (P := fun _ => True) ?_ ?_
  · cases Dcache.lookupFrom c parent name (c.live.length + 1) (c.links.next (.subdirs parent)) with
    | ok found => trivial
    | error e => trivial
  · intro found _
    cases found with
    | none => exact SameDentries.refl c
    | some d => exact Ends.bind dget_same fun c' same => same

theorem dAlloc_added (env : Dcache.Env) (parent : Option Id) (name : Name) :
    Ends (fun r => match r.2 with
        | none => SameDentries c r.1
        | some d => Added d (name.take 63) c r.1)
      (fun _ => True) (Dcache.dAlloc env c parent name) := by
  have added {d : Id} (fresh : d ∉ c.live) (p : Id) : Added d (name.take 63) c (c.insert d p name) := by
    refine ⟨fresh, rfl, ?_, ?_, fun x other => Function.update_of_ne other _ _⟩
    · show (Function.update c.dentries d _ d).dInode = none
      rw [Function.update_self]
    · show (Function.update c.dentries d _ d).dName = _
      rw [Function.update_self]
  unfold Dcache.dAlloc
  cases given : env.alloc c.allocs c.live with
  | none => exact ⟨rfl, fun _ => rfl, fun _ => rfl⟩
  | some d =>
      have fresh := env.fresh _ _ _ given
      cases parent with
      | none => exact added fresh d
      | some p =>
          refine Ends.bind (P := fun c' => Added d (name.take 63) c c') ?_ fun c' here => here
          refine touch_ends fun _ => touch_ends fun _ => ?_
          obtain ⟨new, live, inode, named, other⟩ := added fresh p
          exact ⟨new, live, inode, named, other⟩

/-- `dput` only counts, or frees the dentry if the count was at most 1. -/
theorem dput_dropped : Ends (fun c' => if (c.dentries d).dCount - 1 ≤ 0 then Dropped d c c' else SameDentries c c')
    (fun _ => True) (Dcache.dput c d) := by
  refine touch_ends fun live => ?_
  have count : ((c.modify d fun e => { e with dCount := e.dCount - 1 }).dentries d).dCount =
      (c.dentries d).dCount - 1 := by
    show (Function.update c.dentries d _ d).dCount = _
    rw [Function.update_self]
  dsimp only
  rw [count]
  split
  · refine touch_ends fun _ => touch_ends fun _ => ⟨live, rfl, fun x other => ?_⟩
    show Function.update (Function.update c.dentries d _) d _ x = _
    rw [Function.update_of_ne other, Function.update_of_ne other]
  · exact sameDentries_modify c d _ rfl rfl

end Cache

/-! ## The rule for walks -/

/-- A live dentry with this name and no inode. -/
def Blank (d : Id) (name : Name) (s : FsState) : Prop :=
  d ∈ s.cache.live ∧ (s.cache.dentries d).dInode = none ∧ (s.cache.dentries d).dName = name

/-- An invariant that the operations of a walk keep. -/
structure Walkable (env : Env) (I : FsState → Prop) : Prop where
  clock : ∀ s n, I s → I { s with clock := n }
  files : ∀ s l, I s → I { s with files := l }
  same : ∀ s c, I s → SameDentries s.cache c → I { s with cache := c }
  added : ∀ s c d name, I s → Added d name s.cache c → I { s with cache := c }
  put : ∀ d, Keeps I (dput env d)
  lookup : ∀ dir d name, Triple (fun s => (I s ∧ Blank d name s) ∧ (s.inode dir).isDir = true ∧ dir ∈ s.inodes)
    (ext4Lookup env dir d name) fun _ => I

section Walk

variable {env : Env} {I : FsState → Prop}

theorem inodeAt_keeps (p : Nat) : Triple I (inodeAt p) fun inode s => I s ∧ s.inode p = inode ∧ p ∈ s.inodes := by
  intro s holds
  unfold inodeAt
  split
  · rename_i live
    exact ⟨holds, rfl, live⟩
  · trivial

theorem dentryAt_keeps (d : Id) :
    Triple I (dentryAt d) fun e s => I s ∧ s.cache.dentries d = e ∧ d ∈ s.cache.live :=
  fun _ holds => touch_ends fun live => ⟨holds, rfl, live⟩

theorem inodeAt_same (p : Nat) : Keeps I (inodeAt p) := (inodeAt_keeps p).post fun _ _ both => both.1

theorem dentryAt_same (d : Id) : Keeps I (dentryAt d) := (dentryAt_keeps d).post fun _ _ both => both.1

theorem inodeOf_same (d : Id) : Keeps I (inodeOf d) := by
  refine Keeps.bind (dentryAt_same d) fun e => ?_
  cases e.dInode with
  | none => exact fun _ _ => trivial
  | some i => exact Keeps.bind (inodeAt_same i.iNo) fun _ => Keeps.pure _

theorem onlyIf_keeps (c : Bool) {m : Op Unit} (keeps : Keeps I m) : Keeps I (onlyIf c m) := by
  unfold onlyIf
  split
  · exact keeps
  · exact Keeps.pure _

theorem get_keeps : Keeps I (get : Op FsState) := fun _ holds => holds

namespace Walkable

variable (walk : Walkable env I)

include walk

theorem tick : Keeps I tick := fun s holds => walk.clock s _ holds

theorem dget (d : Id) : Keeps I (dget d) := by
  intro s holds
  refine Ends.bind (P := fun r => I { s with cache := r.1 }) ?_ (by rintro ⟨c, _⟩ after; exact after)
  exact Ends.bind dget_same fun c same => walk.same s c holds same

theorem dLookup (parent : Id) (name : Name) : Keeps I (dLookup parent name) := by
  intro s holds
  exact Ends.bind (dLookup_same parent name) fun r same => walk.same s r.1 holds same

theorem dAlloc (parent : Option Id) (name : Name) :
    Triple I (dAlloc env parent name) fun r s => I s ∧ ∀ d ∈ r, Blank d (name.take 63) s := by
  intro s holds
  refine Ends.bind (dAlloc_added env.dentries parent name) ?_
  rintro ⟨c, ret⟩ out
  cases ret with
  | none => exact ⟨walk.same s c holds out, nofun⟩
  | some d =>
      refine ⟨walk.added s c d _ holds out, ?_⟩
      rintro x ⟨⟩
      exact ⟨by rw [out.live]; exact List.mem_cons_self, out.inode, out.named⟩

theorem failed {α : Type} (d : Id) (e : Errno) : Keeps I (failed env d e : Op (Except Errno α)) :=
  Keeps.bind (walk.put d) fun _ => Keeps.pure _

theorem lookupOneLen (name : Name) (base : Id) : Keeps I (lookupOneLen env name base) := by
  refine Keeps.bind (walk.dLookup base _) fun found => ?_
  cases found with
  | some d => exact Keeps.pure _
  | none =>
      refine Triple.bind (walk.dAlloc (some base) _) fun made => ?_
      cases made with
      | none => exact (Keeps.pure _).pre fun s both => both.1
      | some d =>
          refine Triple.pre (P := fun s => I s ∧ Blank d (name.take 63) s) ?_ fun s both =>
            ⟨both.1, by simpa [List.take_take] using both.2 d rfl⟩
          refine Triple.bind (dentryAt_same base) fun e => ?_
          cases e.dInode with
          | none => exact (Keeps.pure _).pre fun s both => both.1
          | some dir =>
              refine Triple.bind (inodeAt_keeps dir.iNo) fun inode => ?_
              split
              · exact (Keeps.pure _).pre fun s both => both.1.1
              · rename_i isDir
                refine Triple.bind ((walk.lookup dir.iNo d _).pre ?_) fun ret => ?_
                · rintro s ⟨both, rfl, live⟩
                  exact ⟨both, by simpa using isDir, live⟩
                cases ret with
                | error e => exact walk.failed d e
                | ok there =>
                    cases there with
                    | false => exact Keeps.bind (walk.put d) fun _ => Keeps.pure _
                    | true => exact Keeps.pure _

theorem moveRef (d d' : Id) : Keeps I (moveRef env d d') :=
  Keeps.bind (walk.dget d') fun _ => walk.put d

theorem climb (d : Id) (mnt : Vfsmount) : Keeps I (climb env d mnt) := by
  unfold Namei.climb
  cases mnt.mntParent with
  | none => exact Keeps.pure _
  | some up =>
      dsimp only
      split
      · exact Keeps.bind (walk.moveRef d _) fun _ => Keeps.pure _
      · exact Keeps.pure _

theorem stepUp (d : Id) (mnt : Vfsmount) : Keeps I (stepUp env d mnt) := by
  refine Keeps.bind (walk.climb d mnt) fun place => ?_
  refine Keeps.bind (dentryAt_same place.1) fun e => ?_
  split
  · exact Keeps.pure _
  · exact Keeps.bind (walk.moveRef _ _) fun _ => Keeps.pure _

theorem stepDown (d : Id) (mnt : Vfsmount) (name : Name) : Keeps I (stepDown env d mnt name) := by
  refine Keeps.bind (walk.lookupOneLen name d) fun ret => ?_
  rcases ret with e | _ | next
  · exact walk.failed d e
  · exact walk.failed d .enoent
  · refine Keeps.bind (dentryAt_same next) fun e => ?_
    cases e.dMounted with
    | none => exact Keeps.bind (walk.put d) fun _ => Keeps.pure _
    | some sub =>
        exact Keeps.bind (walk.dget _) fun _ => Keeps.bind (walk.put next) fun _ =>
          Keeps.bind (walk.put d) fun _ => Keeps.pure _

theorem followStep (d : Id) (mnt : Vfsmount) (comp : Name) : Keeps I (followStep env d mnt comp) := by
  refine Keeps.bind (inodeOf_same d) fun found => ?_
  dsimp only
  split
  · exact walk.failed d .enotdir
  · split
    · exact Keeps.pure _
    · split
      · exact walk.stepUp d mnt
      · exact walk.stepDown d mnt comp

/-- **A walk keeps what its steps keep.** -/
theorem followLoop (comps : List Name) (d : Id) (mnt : Vfsmount) : Keeps I (followLoop env d mnt comps) := by
  induction comps generalizing d mnt with
  | nil => exact Keeps.pure _
  | cons comp rest ih =>
      refine Keeps.bind (walk.followStep d mnt comp) fun ret => ?_
      cases ret with
      | error e => exact Keeps.pure _
      | ok place => exact ih place.1 place.2

theorem vfsPathLookup (cwd : Option (Id × Vfsmount)) (path : List Char) :
    Keeps I (vfsPathLookup env cwd path) := by
  refine Keeps.bind get_keeps fun s => ?_
  cases Dcache.Context.start ⟨s.rootMnt, cwd⟩ path with
  | none => exact Keeps.pure _
  | some place => exact Keeps.bind (walk.dget _) fun _ => walk.followLoop _ _ _

theorem finish {α : Type} (d p : Id) (ret : Except Errno α) : Keeps I (finish env d p ret) :=
  Keeps.bind (walk.put d) fun _ => Keeps.bind (walk.put p) fun _ => Keeps.pure _

/-- A call in a directory ends with `Q` if it fails on the way, or if its body does. -/
theorem inDirectory {α : Type} {Q : Except Errno α → FsState → Prop} (cwd : Option (Id × Vfsmount))
    (path : List Char) (lost : ∀ e s, I s → Q (.error e) s)
    {body : Id → Nat → Name → Op (Except Errno α)}
    (inside : ∀ p dir name, (∃ parent, splitLastComponent path = .ok (parent, name)) →
      Triple (fun s => I s ∧ dir ∈ s.inodes ∧ (s.inode dir).isDir = true) (body p dir name) Q) :
    Triple I (inDirectory env cwd path body) Q := by
  have fails (e : Errno) : Triple I (Pure.pure (.error e) : Op (Except Errno α)) Q := fun s holds => lost e s holds
  unfold Namei.inDirectory
  cases split : splitLastComponent path with
  | error e => exact fails e
  | ok parts =>
      refine Triple.bind (walk.vfsPathLookup cwd parts.1) fun ret => ?_
      cases ret with
      | error e => exact fails e
      | ok place =>
          have follow : Triple I (inodeOf place.1) fun found s =>
              I s ∧ found.1 ∈ s.inodes ∧ s.inode found.1 = found.2 := by
            refine Triple.bind (dentryAt_same place.1) fun e => ?_
            cases e.dInode with
            | none => exact fun _ _ => trivial
            | some i =>
                refine Triple.bind (inodeAt_keeps i.iNo) fun inode => ?_
                exact fun s both => ⟨both.1, both.2.2, both.2.1⟩
          refine Triple.bind follow fun found => ?_
          dsimp only
          split
          · refine Triple.bind ((walk.put place.1).pre fun s both => both.1) fun _ s holds => ?_
            exact lost .enotdir s holds
          · rename_i isDir
            refine (inside place.1 found.1 parts.2 ⟨parts.1, split⟩).pre ?_
            rintro s ⟨holds, live, here⟩
            refine ⟨holds, live, ?_⟩
            rw [here]
            simpa using isDir

theorem dentryOpen (d : Id) : Keeps I (dentryOpen env d) := by
  refine Keeps.bind (walk.dget d) fun _ => Keeps.bind (dentryAt_same d) fun e => ?_
  cases e.dInode with
  | none => exact walk.failed d .enoent
  | some i =>
      refine Keeps.bind walk.tick fun n => ?_
      split
      · exact walk.failed d .enomem
      · refine Keeps.bind (m := modify _) ?_ fun _ => Keeps.pure _
        exact fun s holds => walk.files s _ holds

theorem vfsStat (cwd : Option (Id × Vfsmount)) (path : List Char) : Keeps I (vfsStat env cwd path) := by
  refine Keeps.bind (walk.vfsPathLookup cwd path) fun ret => ?_
  cases ret with
  | error e => exact Keeps.pure _
  | ok place =>
      refine Keeps.bind (dentryAt_same place.1) fun e => ?_
      cases e.dInode with
      | none => exact walk.failed _ .enoent
      | some i => exact Keeps.bind (walk.put _) fun _ => Keeps.pure _

theorem vfsClose (i : Nat) : Keeps I (vfsClose env i) := by
  refine Keeps.bind get_keeps fun s => ?_
  cases s.files[i]? with
  | none => exact Keeps.pure _
  | some d =>
      refine Keeps.bind (m := modify _) (fun s holds => walk.files s _ holds) fun _ => ?_
      exact Keeps.bind (walk.put d) fun _ => Keeps.pure _

/-- The open of a path that is there. -/
theorem vfsOpen_found (flags : Flags) (dirty : ∀ p, Keeps I (markInodeDirty p)) (d : Id) :
    Keeps I (do
      let (p, inode) ← inodeOf d
      if flags.directory ∧ !inode.isDir then Namei.failed env d .enotdir
      else do
        onlyIf (flags.trunc && !inode.isDir) (markInodeDirty p)
        let ret ← Namei.dentryOpen env d
        dput env d
        pure ret : Op (Except Errno Unit)) := by
  refine Keeps.bind (inodeOf_same d) ?_
  rintro ⟨p, inode⟩
  dsimp only
  split
  · exact walk.failed d .enotdir
  · exact Keeps.bind (onlyIf_keeps _ (dirty p)) fun _ => Keeps.bind (walk.dentryOpen d) fun _ =>
      Keeps.bind (walk.put d) fun _ => Keeps.pure _

end Walkable

end Walk

/-! ## Inodes -/

/-- What `iput` leaves. -/
inductive Put (p : Nat) (s : FsState) : FsState → Prop where
  | kept (more : 1 < (s.inode p).iCount) :
      Put p s { s with
        inode := Function.update s.inode p { s.inode p with iCount := (s.inode p).iCount - 1 } }
  | freed (last : (s.inode p).iCount ≤ 1) (inode : Inode) (n : Nat) :
      Put p s { s with
        inode := Function.update s.inode p inode
        tree := if p ∈ s.tree then s.tree.erase p else []
        inodes := s.inodes.erase p
        clock := n }

/-- What `iget` leaves. -/
inductive Got (ino : Nat) (s : FsState) : Option Nat → FsState → Prop where
  | none (n : Nat) : Got ino s none { s with clock := n }
  | found (p : Nat) (inTree : p ∈ s.tree) (live : p ∈ s.inodes) (number : (s.inode p).iNo = ino) :
      Got ino s (some p) { s with
        inode := Function.update s.inode p { s.inode p with iCount := (s.inode p).iCount + 1 } }
  | made (p : Nat) (fresh : p ∉ s.inodes) (n : Nat) :
      Got ino s (some p) { s with
        inode := Function.update s.inode p ⟨ino, 1, false, false, false⟩
        inodes := p :: s.inodes
        tree := p :: s.tree
        clock := n }

section Inodes

variable {env : Env} {s : FsState} {p ino : Nat}

/-! The computations of this section are run on a state. -/

theorem bind_apply {α β : Type} (m : Op α) (f : α → Op β) (s : FsState) :
    (m >>= f) s = m s >>= fun r => f r.1 r.2 := rfl

theorem inodeAt_of_mem (live : p ∈ s.inodes) : inodeAt p s = .ok (s.inode p, s) := if_pos live

theorem setInode_apply (inode : Inode) :
    setInode p inode s = .ok ((), { s with inode := Function.update s.inode p inode }) := rfl

/-- A computation that follows an inode pointer ends early unless the inode is there. -/
theorem inodeAt_ends {α : Type} {P : α × FsState → Prop} {next : Inode → Op α}
    (after : p ∈ s.inodes → Ends P (fun _ => True) (next (s.inode p) s)) :
    Ends P (fun _ => True) ((inodeAt p >>= next) s) := by
  rw [bind_apply]
  by_cases live : p ∈ s.inodes
  · rw [inodeAt_of_mem live]
    exact after live
  · rw [inodeAt, if_neg live]
    trivial

theorem writeInodeNow_leaves (env : Env) :
    Ends (fun r => ∃ inode n, r.2 = { s with inode := Function.update s.inode p inode, clock := n })
      (fun _ => True) (writeInodeNow env p s) := by
  refine inodeAt_ends fun _ => ?_
  show Ends _ _ ((if env.writeInode s.clock then setInode p _ else pure ()) _)
  split
  · exact ⟨_, _, rfl⟩
  · refine ⟨s.inode p, s.clock + 1, ?_⟩
    rw [Function.update_eq_self]

theorem iput_put : Ends (fun r => p ∈ s.inodes ∧ Put p s r.2) (fun _ => True) (iput env p s) := by
  refine inodeAt_ends fun live => ?_
  rw [bind_apply, setInode_apply, ok_bind]
  dsimp only
  by_cases last : (s.inode p).iCount - 1 ≤ 0
  · rw [if_pos last, bind_apply]
    refine Ends.bind (P := fun r => ∃ inode n, r.2 =
      { s with inode := Function.update s.inode p inode, clock := n }) ?_ ?_
    · unfold onlyIf
      split
      · refine (writeInodeNow_leaves env).mono ?_ fun _ _ => trivial
        rintro ⟨_, s'⟩ ⟨inode, n, rfl⟩
        refine ⟨inode, n, ?_⟩
        dsimp only
        rw [Function.update_idem]
      · exact ⟨_, _, rfl⟩
    · rintro ⟨_, s'⟩ ⟨inode, n, rfl⟩
      exact ⟨live, .freed (by omega) inode n⟩
  · rw [if_neg last]
    exact ⟨live, .kept (by omega)⟩

theorem newInode_leaves (env : Env) :
    Ends (fun r => (r.1 = none ∧ r.2 = { s with clock := s.clock + 1 }) ∨
        ∃ p, p ∉ s.inodes ∧ r.1 = some p ∧ r.2 = { s with
          inode := Function.update s.inode p ⟨0, 1, false, false, false⟩
          inodes := p :: s.inodes
          clock := s.clock + 1 })
      (fun _ => True) (newInode env s) := by
  unfold newInode tick
  rw [bind_apply, ok_bind]
  dsimp only
  cases given : env.allocInode s.clock s.inodes with
  | none => exact .inl ⟨rfl, rfl⟩
  | some p => exact .inr ⟨p, env.inodeFresh _ _ _ given, rfl, rfl⟩

theorem iget_got : Ends (fun r => Got ino s r.1 r.2) (fun _ => True) (iget env ino s) := by
  unfold iget inodeFind
  rw [bind_apply, ok_bind]
  dsimp only
  cases search : s.tree.find? fun p => (s.inode p).iNo = ino with
  | some p =>
      refine inodeAt_ends fun live => ?_
      exact .found p (List.mem_of_find?_eq_some search) live (by simpa using List.find?_some search)
  | none =>
      refine Ends.bind (newInode_leaves env) ?_
      rintro ⟨ret, s'⟩ (⟨rfl, rfl⟩ | ⟨p, fresh, rfl, rfl⟩)
      · exact .none _
      · refine inodeAt_ends fun _ => ?_
        have same : Function.update (Function.update s.inode p ⟨0, 1, false, false, false⟩) p
            { Function.update s.inode p ⟨0, 1, false, false, false⟩ p with iNo := ino } =
            Function.update s.inode p ⟨ino, 1, false, false, false⟩ := by
          rw [Function.update_idem, Function.update_self]
        have made : Got ino s _ _ := .made p fresh (s.clock + 1)
        rw [← same] at made
        exact made

/-- What `ext4_iget` leaves: an inode that was in the tree, or a new one, with the mode that
the volume has; or, but for an inode that is gone again, what there was. -/
inductive Loaded (ino : Nat) (s : FsState) : Option Nat → FsState → Prop where
  | none (inode : Nat → Inode) (same : ∀ q ∈ s.inodes, inode q = s.inode q) (n : Nat) :
      Loaded ino s none { s with inode := inode, clock := n }
  | found (p : Nat) (inTree : p ∈ s.tree) (live : p ∈ s.inodes) (number : (s.inode p).iNo = ino)
      (isDir : Bool) (mode : isDir = if (s.inode p).populated then (s.inode p).isDir else s.disk.isDir ino)
      (n : Nat) :
      Loaded ino s (some p) { s with
        inode := Function.update s.inode p
          { s.inode p with iCount := (s.inode p).iCount + 1, populated := true, isDir := isDir }
        clock := n }
  | made (p : Nat) (fresh : p ∉ s.inodes) (n : Nat) :
      Loaded ino s (some p) { s with
        inode := Function.update s.inode p ⟨ino, 1, false, true, s.disk.isDir ino⟩
        inodes := p :: s.inodes
        tree := p :: s.tree
        clock := n }

/-- `iput` of an inode that `iget` has just given. -/
theorem Got.put {s₁ s₂ : FsState} (got : Got ino s (some p) s₁) {n : Nat}
    (positive : ∀ q ∈ s.inodes, 0 < (s.inode q).iCount) (put : Put p { s₁ with clock := n } s₂) :
    Loaded ino s Option.none s₂ := by
  cases got with
  | found _ inTree live number =>
      cases put with
      | kept more =>
          refine .none _ ?_ _
          intro q _
          dsimp only
          by_cases same : q = p
          · subst same
            simp
          · rw [Function.update_of_ne same, Function.update_of_ne same]
      | freed last inode m =>
          have := positive p live
          simp at last
          omega
  | made _ fresh _ =>
      cases put with
      | kept more => simp at more
      | freed last inode m =>
          have tree : (if p ∈ p :: s.tree then (p :: s.tree).erase p else []) = s.tree := by simp
          have inodes : (p :: s.inodes).erase p = s.inodes := by simp
          dsimp only
          rw [tree, inodes, Function.update_idem]
          refine .none _ ?_ _
          intro q member
          rw [Function.update_of_ne (ne_of_mem_of_not_mem member fresh)]

theorem ext4Iget_loaded (positive : ∀ q ∈ s.inodes, 0 < (s.inode q).iCount) :
    Ends (fun r => Loaded ino s r.1 r.2) (fun _ => True) (ext4Iget env ino s) := by
  unfold ext4Iget
  rw [bind_apply]
  refine Ends.bind iget_got ?_
  rintro ⟨ret, s₁⟩ got
  cases ret with
  | none =>
      cases got with
      | none n => exact .none s.inode (fun _ _ => rfl) n
  | some p =>
      refine inodeAt_ends fun live => ?_
      change Got ino s (some p) s₁ at got
      change p ∈ s₁.inodes at live
      dsimp only
      by_cases ready : (s₁.inode p).populated = true
      · rw [if_pos ready]
        cases got with
        | found _ inTree live' number =>
            have loaded : Loaded ino s _ _ := .found p inTree live' number (s.inode p).isDir
              (by simp at ready; rw [if_pos ready]) s.clock
            simp at ready
            rw [← ready] at loaded
            exact loaded
        | made _ fresh _ => simp at ready
      · rw [if_neg ready]
        show Ends _ _ ((if !(env.infoAlloc s₁.clock && env.readInode s₁.clock) then _ else _ : Op (Option Nat)) { s₁ with clock := s₁.clock + 1 })
        split
        · rw [bind_apply]
          refine Ends.bind iput_put ?_
          rintro ⟨_, s₂⟩ ⟨_, put⟩
          exact got.put positive put
        · cases got with
          | found _ inTree live' number =>
              have unread : (s.inode p).populated = false := by simpa using ready
              have loaded : Loaded ino s _ _ := .found p inTree live' number (s.disk.isDir ino)
                (by rw [unread]; rfl) (s.clock + 1)
              show Loaded ino s (some p) _
              simpa using loaded
          | made _ fresh n =>
              have loaded : Loaded ino s _ _ := .made p fresh (n + 1)
              show Loaded ino s (some p) _
              simpa using loaded

/-- `d_instantiate` on the state. -/
def FsState.instantiate (s : FsState) (d : Id) (p : Nat) : FsState :=
  { s with
    cache := s.cache.modify d fun e => { e with dInode := some ⟨p, (s.inode p).isDir⟩ }
    inode := Function.update s.inode p { s.inode p with iCount := (s.inode p).iCount + 1 } }

theorem dInstantiate_leaves {d : Id} :
    Ends (fun r => d ∈ s.cache.live ∧ p ∈ s.inodes ∧ r.2 = s.instantiate d p) (fun _ => True)
      (dInstantiate d p s) := by
  refine inodeAt_ends fun live => ?_
  rw [bind_apply]
  refine Ends.bind (P := fun r => d ∈ s.cache.live ∧ r.2 = { s with cache := s.cache.modify d fun e =>
    { e with dInode := some ⟨p, (s.inode p).isDir⟩ } }) ?_ ?_
  · refine Ends.bind (P := fun r => d ∈ s.cache.live ∧ r.1 = s.cache.modify d fun e =>
      { e with dInode := some ⟨p, (s.inode p).isDir⟩ }) ?_ ?_
    · refine Ends.bind (P := fun c => d ∈ s.cache.live ∧ c = s.cache.modify d fun e =>
        { e with dInode := some ⟨p, (s.inode p).isDir⟩ }) ?_ fun c both => both
      exact touch_ends fun here => ⟨here, rfl⟩
    · rintro ⟨c, _⟩ ⟨here, rfl⟩
      exact ⟨here, rfl⟩
  · rintro ⟨_, s'⟩ ⟨here, rfl⟩
    exact ⟨here, live, rfl⟩

/-- What `ext4_lookup` leaves: an inode loaded and instantiated, or nothing new. -/
theorem ext4Lookup_leaves {dir : Nat} {d : Id} {name : Name}
    (positive : ∀ q ∈ s.inodes, 0 < (s.inode q).iCount) :
    Ends (fun r => (∃ n ino s₁, (name, ino) ∈ Ext4Dir.entries (s.disk.dirs (s.inode dir).iNo) ∧
          Loaded ino { s with clock := n } none s₁ ∧ r.2 = s₁) ∨
        (∃ n, r.2 = { s with clock := n }) ∨
        ∃ n ino p s₁, (name, ino) ∈ Ext4Dir.entries (s.disk.dirs (s.inode dir).iNo) ∧
          Loaded ino { s with clock := n } (some p) s₁ ∧ d ∈ s₁.cache.live ∧ p ∈ s₁.inodes ∧
          r.2 = s₁.instantiate d p)
      (fun _ => True) (ext4Lookup env dir d name s) := by
  unfold ext4Lookup directoryOf
  rw [bind_apply, bind_apply]
  by_cases live : dir ∈ s.inodes
  · rw [inodeAt_of_mem live, ok_bind, ok_bind, bind_apply, tick, ok_bind]
    dsimp only
    cases search : Ext4Dir.lookup (env.readBlock s.clock) (s.disk.dirs (s.inode dir).iNo) name with
    | error e => exact .inr (.inl ⟨_, rfl⟩)
    | ok found =>
        cases found with
        | none => exact .inr (.inl ⟨_, rfl⟩)
        | some ino =>
            have entry := Ext4Dir.lookup_mem search
            refine Ends.bind (ext4Iget_loaded (s := { s with clock := s.clock + 1 }) positive) ?_
            rintro ⟨ret, s₁⟩ loaded
            cases ret with
            | none => exact .inl ⟨_, ino, s₁, entry, loaded, rfl⟩
            | some p =>
                refine Ends.bind (x := dInstantiate d p s₁) dInstantiate_leaves ?_
                rintro ⟨_, s₂⟩ ⟨here, there, rfl⟩
                exact .inr (.inr ⟨_, ino, p, s₁, entry, loaded, here, there, rfl⟩)
  · rw [inodeAt, if_neg live]
    trivial

/-- What `dput` leaves: a lower count, or the dentry freed and its inode put. -/
inductive PutDentry (d : Id) (s : FsState) : FsState → Prop where
  | counted (c : Cache) (same : SameDentries s.cache c) : PutDentry d s { s with cache := c }
  | blank (c : Cache) (dropped : Dropped d s.cache c) (none : (s.cache.dentries d).dInode = none) :
      PutDentry d s { s with cache := c }
  | freed (c : Cache) (dropped : Dropped d s.cache c) (i : Dcache.Inode)
      (had : (s.cache.dentries d).dInode = some i) (live : i.iNo ∈ s.inodes) {s' : FsState}
      (put : Put i.iNo { s with cache := c } s') : PutDentry d s s'

theorem dput_leaves {d : Id} : Ends (fun r => PutDentry d s r.2) (fun _ => True) (dput env d s) := by
  refine Ends.bind (x := dentryAt d s) (P := fun r => r = (s.cache.dentries d, s)) ?_ ?_
  · exact touch_ends fun _ => rfl
  rintro _ rfl
  refine Ends.bind (x := dputDentry d s) (P := fun r => ∃ c, r.2 = { s with cache := c } ∧
    if (s.cache.dentries d).dCount - 1 ≤ 0 then Dropped d s.cache c else SameDentries s.cache c) ?_ ?_
  · refine Ends.bind (x := (Dcache.dput s.cache d >>= fun c => .ok (c, ()))) (P := fun r =>
      if (s.cache.dentries d).dCount - 1 ≤ 0 then Dropped d s.cache r.1 else SameDentries s.cache r.1) ?_ ?_
    · exact Ends.bind dput_dropped fun c out => out
    · rintro ⟨c, _⟩ out
      exact ⟨c, rfl, out⟩
  · rintro ⟨_, s₁⟩ ⟨c, rfl, out⟩
    dsimp only
    by_cases last : (s.cache.dentries d).dCount - 1 ≤ 0
    · rw [if_pos last] at out
      rw [if_pos last]
      cases had : (s.cache.dentries d).dInode with
      | none => exact .blank c out had
      | some i => exact iput_put.mono (fun r both => .freed c out i had both.1 both.2) fun _ _ => trivial
    · rw [if_neg last] at out
      rw [if_neg last]
      exact .counted c out

/-- What `ext4_create` and `ext4_mkdir` have after their start. -/
inductive NewInode (isDir : Bool) (s : FsState) : Except Errno (Nat × Nat) → FsState → Prop where
  | failed (e : Errno) (inode : Nat → Inode) (same : ∀ q ∈ s.inodes, inode q = s.inode q)
      (tree : List Nat) (sub : ∀ q ∈ tree, q ∈ s.tree) (bitmap : List Nat)
      (more : ∀ i ∈ s.disk.bitmap, i ∈ bitmap) (zero : 0 ∈ bitmap → 0 ∈ s.disk.bitmap) (n : Nat) :
      NewInode isDir s (.error e) { s with
        inode := inode
        tree := tree
        disk := { s.disk with bitmap := bitmap }
        clock := n }
  | made (p ino : Nat) (fresh : p ∉ s.inodes) (used : ino ≠ 0) (free : ino ∉ s.disk.bitmap) (n : Nat) :
      NewInode isDir s (.ok (p, ino)) { s with
        inode := Function.update s.inode p ⟨ino, 1, false, true, isDir⟩
        inodes := p :: s.inodes
        tree := p :: s.tree
        disk := { s.disk with
          bitmap := ino :: s.disk.bitmap
          isDir := Function.update s.disk.isDir ino isDir
          dirs := Function.update s.disk.dirs ino [] }
        clock := n }

theorem ext4AllocInode_leaves (env : Env) (p : Nat) :
    Ends (fun r => (∃ e, r.1 = .error e ∧ r.2 = { s with clock := s.clock + 1 }) ∨
        ∃ ino, ino ≠ 0 ∧ ino ∉ s.disk.bitmap ∧ ((∃ e, r.1 = .error e) ∨ r.1 = .ok ino) ∧ r.2 = { s with
          disk := { s.disk with bitmap := ino :: s.disk.bitmap }
          inode := Function.update s.inode p { s.inode p with iNo := ino }
          clock := s.clock + 1 })
      (fun _ => True) (ext4AllocInode env p s) := by
  unfold ext4AllocInode
  rw [bind_apply]
  simp only [tick, ok_bind]
  cases given : env.findFreeInode s.clock s.disk.bitmap with
  | none => exact .inl ⟨_, rfl, rfl⟩
  | some ino =>
      obtain ⟨used, free⟩ := env.inoFresh _ _ _ given
      dsimp only
      split
      · exact .inr ⟨ino, used, free, .inr rfl, rfl⟩
      · exact .inr ⟨ino, used, free, .inl ⟨_, rfl⟩, rfl⟩

theorem ext4NewInode_leaves (env : Env) (isDir : Bool) :
    Ends (fun r => NewInode isDir s r.1 r.2) (fun _ => True) (ext4NewInode env isDir s) := by
  unfold ext4NewInode
  rw [bind_apply]
  refine Ends.bind (newInode_leaves env) ?_
  rintro ⟨ret, s'⟩ (⟨rfl, rfl⟩ | ⟨p, fresh, rfl, rfl⟩)
  · exact .failed _ s.inode (fun _ _ => rfl) s.tree (fun _ here => here) _ (fun _ here => here) id _
  · -- the new inode is not in the tree yet, so that an `iput` drops the tree
    have lost {e : Errno} {s₂ : FsState} {inode : Inode} (count : inode.iCount = 1) {bitmap : List Nat}
        (more : ∀ i ∈ s.disk.bitmap, i ∈ bitmap) (zero : 0 ∈ bitmap → 0 ∈ s.disk.bitmap) {n : Nat}
        (put : Put p { s with
          inode := Function.update s.inode p inode
          inodes := p :: s.inodes
          disk := { s.disk with bitmap := bitmap }
          clock := n } s₂) : NewInode isDir s (.error e) s₂ := by
      cases put with
      | kept more => simp [count] at more
      | freed last inode m =>
          have inodes : (p :: s.inodes).erase p = s.inodes := by simp
          dsimp only
          rw [inodes, Function.update_idem]
          refine .failed e _ ?_ _ ?_ bitmap more zero m
          · intro q member
            rw [Function.update_of_ne (ne_of_mem_of_not_mem member fresh)]
          · intro q member
            split at member
            · exact List.mem_of_mem_erase member
            · cases member
    refine Ends.bind (x := ext4AllocInode env p _) (ext4AllocInode_leaves env p) ?_
    rintro ⟨ret, s₁⟩ (⟨e, rfl, rfl⟩ | ⟨ino, used, free, ⟨e, rfl⟩ | rfl, rfl⟩)
    · refine Ends.bind (x := iput env p _) iput_put ?_
      rintro ⟨_, s₂⟩ ⟨_, put⟩
      exact lost rfl (fun _ here => here) id put
    · refine Ends.bind (x := iput env p _) iput_put ?_
      rintro ⟨_, s₂⟩ ⟨_, put⟩
      dsimp only at put
      rw [Function.update_idem] at put
      refine lost (by simp) (fun _ here => List.mem_cons_of_mem _ here) ?_ put
      intro here
      exact List.mem_of_ne_of_mem used.symm here
    · have made : NewInode isDir s _ _ := .made p ino fresh used free (s.clock + 1 + 1)
      show NewInode isDir s (.ok (p, ino)) _
      simpa using made

end Inodes

/-! ## Runs -/

/-- What every call keeps holds while the run goes on. -/
theorem run_keeps {I : FsState → Prop} (keeps : ∀ a, Keeps I (perform a)) {s : FsState} (holds : I s)
    (actions : List Action) : Ends I (fun _ => True) (machine.run (.ok s) actions) := by
  refine machine.run_invariant (I := Ends I fun _ => True) ?_ (s := .ok s) holds ?_
  · intro s a here _
    exact Ends.bind here fun s holds => Ends.bind (keeps a s holds) fun r after => after
  · exact machine.admits_of_enabled (fun _ _ => trivial) _ actions

/-! ### A fresh volume -/

/-- The lowest answer of each allocator, and a device that does not fail. -/
def plainEnv : Env where
  allocDentry _ live := (List.range (live.length + 1)).find? (· ∉ live)
  dentryFresh := Dcache.firstFree_fresh
  allocInode _ live := (List.range (live.length + 1)).find? (· ∉ live)
  inodeFresh := Dcache.firstFree_fresh
  findFreeInode _ used := (List.range (used.length + 2)).find? fun ino => ino ≠ 0 ∧ ino ∉ used
  inoFresh := by
    intro n used ino given
    simpa using List.find?_some given
  infoAlloc _ := true
  readInode _ := true
  writeInode _ := true
  readBlock _ _ := true
  room _ := .ok ()
  fileAlloc _ := true

/-- A volume with nothing but its root. -/
def freshDisk : Disk where
  isDir ino := ino = ext4RootIno
  dirs ino := if ino = ext4RootIno then Ext4Dir.makeEmpty 1024 ext4RootIno ext4RootIno else []
  bitmap := [ext4RootIno]
  blockSize := 1024

theorem fresh_mounts : ∃ s, mountRoot plainEnv (FsState.boot freshDisk) = .ok (.ok (), s) := by
  have succeeds : Ends (fun r => r.1 = .ok ()) (fun _ => False)
      (mountRoot plainEnv (FsState.boot freshDisk)) := by decide +kernel
  cases result : mountRoot plainEnv (FsState.boot freshDisk) with
  | error e => simp [result, Ends] at succeeds
  | ok r =>
      rw [result] at succeeds
      exact ⟨r.2, by rw [← succeeds]⟩

end Minus.Fs.Namei
