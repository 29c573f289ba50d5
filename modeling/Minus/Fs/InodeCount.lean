/-
# Fs.InodeCount — an inode's count and the dentries that refer to it

`iget` and `new_inode` give their caller a reference, `d_instantiate` takes another
one for the dentry, and no caller gives its own back.  So every inode in memory has
a count above the number of dentries that refer to it (`Counted`), from the root
inode of the mount on: the counts are balanced in no state, and the `iput` of a last
dentry never destroys an inode (`inode_counts_never_balanced`).
-/
import Minus.Fs.NameiWalk

namespace Minus.Fs.Namei

set_option autoImplicit false

open Minus.Theory
open Minus.Fs.Dcache (Id Name Errno Fault Cache Dentry Vfsmount)

/-! ## References from dentries -/

/-- The dentry refers to the inode. -/
def refersTo (c : Cache) (p : Nat) (d : Id) : Bool := (c.dentries d).dInode.any (·.iNo = p)

/-- The live dentries that refer to the inode. -/
def refs (c : Cache) (p : Nat) : Nat := c.live.countP (refersTo c p)

section Refs

variable {c c' : Cache} {d : Id}

theorem refs_same (same : SameDentries c c') (p : Nat) : refs c' p = refs c p := by
  unfold refs refersTo
  rw [same.live]
  exact List.countP_congr fun x _ => by rw [same.inode x]

theorem refs_added {name : Name} (added : Added d name c c') (p : Nat) : refs c' p = refs c p := by
  unfold refs
  rw [added.live, List.countP_cons_of_neg]
  · refine List.countP_congr fun x member => ?_
    rw [refersTo, refersTo, added.other x (ne_of_mem_of_not_mem member added.fresh)]
  · rw [refersTo, added.inode]
    simp

/-- A dentry that is freed takes its reference along. -/
theorem refs_dropped (dropped : Dropped d c c') (nodup : c.live.Nodup) (p : Nat) :
    refs c p = refs c' p + if refersTo c p d then 1 else 0 := by
  have rest : refs c' p = (c.live.erase d).countP (refersTo c p) := by
    unfold refs
    rw [dropped.live]
    refine List.countP_congr fun x member => ?_
    rw [refersTo, refersTo, dropped.other x (nodup.mem_erase_iff.1 member).1]
  rw [rest, refs, (List.perm_cons_erase dropped.was).countP_eq, List.countP_cons]

/-- A dentry that gets its inode adds a reference to it. -/
theorem refs_instantiate {name : Name} {s : FsState} (blank : Blank d name s) (nodup : s.cache.live.Nodup)
    (p q : Nat) : refs (s.instantiate d p).cache q = refs s.cache q + if q = p then 1 else 0 := by
  have self : refersTo (s.instantiate d p).cache q d = decide (q = p) := by
    show ((Function.update s.cache.dentries d _ d).dInode.any _) = _
    rw [Function.update_self]
    simp [eq_comm]
  have before : refersTo s.cache q d = false := by
    rw [refersTo, blank.2.1]
    rfl
  have rest : ((s.cache.live.erase d).countP (refersTo (s.instantiate d p).cache q)) =
      (s.cache.live.erase d).countP (refersTo s.cache q) := by
    refine List.countP_congr fun x member => ?_
    show ((Function.update s.cache.dentries d _ x).dInode.any _) = true ↔ _
    rw [Function.update_of_ne (nodup.mem_erase_iff.1 member).1]
    rfl
  have perm := List.perm_cons_erase blank.1
  show s.cache.live.countP (refersTo (s.instantiate d p).cache q) = s.cache.live.countP _ + _
  rw [perm.countP_eq, perm.countP_eq, List.countP_cons, List.countP_cons, rest, self, before]
  simp

end Refs

/-! ## The invariant -/

/-- Every inode has more references than dentries; the inodes of `old` are all there. -/
structure Counted (old : List Nat) (s : FsState) : Prop where
  nodup : s.cache.live.Nodup
  inodes : s.inodes.Nodup
  known : ∀ d ∈ s.cache.live, ∀ p, refersTo s.cache p d = true → p ∈ s.inodes
  above : ∀ p ∈ s.inodes, (refs s.cache p : Int) < (s.inode p).iCount
  kept : ∀ q ∈ old, q ∈ s.inodes

section Counted

variable {old : List Nat} {s : FsState} {env : Env}

theorem Counted.positive (counted : Counted old s) : ∀ q ∈ s.inodes, 0 < (s.inode q).iCount := by
  intro q live
  have := counted.above q live
  omega

/-- Other dentries, with no other references. -/
theorem Counted.withCache {c : Cache} (counted : Counted old s) (nodup : c.live.Nodup)
    (refers : ∀ d ∈ c.live, ∀ p, refersTo c p d = true → ∃ x ∈ s.cache.live, refersTo s.cache p x = true)
    (fewer : ∀ p, refs c p ≤ refs s.cache p) : Counted old { s with cache := c } := by
  refine { counted with nodup := nodup, known := ?_, above := ?_ }
  · intro d live p here
    obtain ⟨x, there, also⟩ := refers d live p here
    exact counted.known x there p also
  · intro p live
    have := fewer p
    have := counted.above p live
    show (refs c p : Int) < (s.inode p).iCount
    omega

/-- The inodes that are there may change, but for their counts. -/
theorem Counted.withInodes (inode : Nat → Inode) (counted : Counted old s)
    (same : ∀ q ∈ s.inodes, (s.inode q).iCount ≤ (inode q).iCount) :
    Counted old { s with inode := inode } := by
  refine { counted with above := ?_ }
  intro p live
  exact lt_of_lt_of_le (counted.above p live) (same p live)

/-- The disk, the tree, the files and the clock do not count. -/
theorem Counted.congr {s' : FsState} (counted : Counted old s) (cache : s'.cache = s.cache)
    (inode : s'.inode = s.inode) (inodes : s'.inodes = s.inodes) : Counted old s' := by
  obtain ⟨nodup, inodesNodup, known, above, kept⟩ := counted
  exact ⟨by rw [cache]; exact nodup, by rw [inodes]; exact inodesNodup, by rw [cache, inodes]; exact known,
    by rw [cache, inode, inodes]; exact above, by rw [inodes]; exact kept⟩

theorem Counted.clock (counted : Counted old s) (n : Nat) : Counted old { s with clock := n } :=
  counted.congr rfl rfl rfl

/-- A new inode, with one reference. -/
theorem Counted.newInode {p : Nat} (inode : Inode) (counted : Counted old s) (fresh : p ∉ s.inodes)
    (one : inode.iCount = 1) :
    Counted old { s with inode := Function.update s.inode p inode, inodes := p :: s.inodes } := by
  have none : refs s.cache p = 0 := by
    apply List.countP_eq_zero.2
    intro d live here
    exact fresh (counted.known d live p here)
  refine ⟨counted.nodup, List.nodup_cons.2 ⟨fresh, counted.inodes⟩, ?_, ?_, ?_⟩
  · exact fun d live q here => List.mem_cons_of_mem _ (counted.known d live q here)
  · intro q live
    show (refs s.cache q : Int) < (Function.update s.inode p inode q).iCount
    rcases List.mem_cons.1 live with rfl | before
    · rw [Function.update_self, none, one]
      decide
    · rw [Function.update_of_ne (ne_of_mem_of_not_mem before fresh)]
      exact counted.above q before
  · exact fun q there => List.mem_cons_of_mem _ (counted.kept q there)

/-- The inode has a reference to give up: one that no dentry has, or the only one. -/
def Spare (old : List Nat) (p : Nat) (s : FsState) : Prop :=
  refs s.cache p + 1 < (s.inode p).iCount ∨ (s.inode p).iCount = 1 ∧ refs s.cache p = 0 ∧ p ∉ old

theorem Counted.put {p : Nat} {s' : FsState} (counted : Counted old s) (spare : Spare old p s)
    (put : Put p s s') : Counted old s' := by
  have some_ : 1 ≤ (s.inode p).iCount := by
    rcases spare with above | ⟨one, _⟩
    · omega
    · omega
  cases put with
  | kept more =>
      refine { counted with above := ?_ }
      intro q live
      show (refs s.cache q : Int) < (Function.update s.inode p _ q).iCount
      by_cases same : q = p
      · subst same
        rw [Function.update_self]
        dsimp only
        rcases spare with above | ⟨one, _⟩
        · omega
        · omega
      · rw [Function.update_of_ne same]
        exact counted.above q live
  | freed last inode n =>
      obtain ⟨_, none, new⟩ : (s.inode p).iCount = 1 ∧ refs s.cache p = 0 ∧ p ∉ old := by
        rcases spare with above | only
        · omega
        · exact only
      refine ⟨counted.nodup, counted.inodes.erase _, ?_, ?_, ?_⟩
      · intro d live q here
        refine counted.inodes.mem_erase_iff.2 ⟨?_, counted.known d live q here⟩
        rintro rfl
        exact List.countP_eq_zero.1 none d live here
      · intro q live
        obtain ⟨other, there⟩ := counted.inodes.mem_erase_iff.1 live
        show (refs s.cache q : Int) < (Function.update s.inode p inode q).iCount
        rw [Function.update_of_ne other]
        exact counted.above q there
      · intro q there
        exact counted.inodes.mem_erase_iff.2 ⟨fun same => new (same ▸ there), counted.kept q there⟩

theorem iput_counted (env : Env) (p : Nat) :
    Triple (fun s => Counted old s ∧ Spare old p s) (iput env p) fun _ => Counted old := by
  rintro s ⟨counted, spare⟩
  exact iput_put.mono (fun r both => counted.put spare both.2) fun _ _ => trivial

theorem Counted.same {c : Cache} (counted : Counted old s) (same : SameDentries s.cache c) :
    Counted old { s with cache := c } := by
  refine counted.withCache (by rw [same.live]; exact counted.nodup) ?_ fun p => (refs_same same p).le
  intro d live p here
  rw [same.live] at live
  rw [refersTo, same.inode d] at here
  exact ⟨d, live, here⟩

theorem Counted.added {c : Cache} {d : Id} {name : Name} (counted : Counted old s)
    (added : Added d name s.cache c) : Counted old { s with cache := c } := by
  refine counted.withCache ?_ ?_ fun p => (refs_added added p).le
  · rw [added.live]
    exact List.nodup_cons.2 ⟨added.fresh, counted.nodup⟩
  · intro x live p here
    rw [added.live] at live
    rcases List.mem_cons.1 live with rfl | before
    · rw [refersTo, added.inode] at here
      cases here
    · rw [refersTo, added.other x (ne_of_mem_of_not_mem before added.fresh)] at here
      exact ⟨x, before, here⟩

theorem Counted.dropped {c : Cache} {d : Id} (counted : Counted old s) (dropped : Dropped d s.cache c) :
    Counted old { s with cache := c } := by
  refine counted.withCache ?_ ?_ fun p => ?_
  · rw [dropped.live]
    exact counted.nodup.erase _
  · intro x live p here
    rw [dropped.live] at live
    obtain ⟨other, there⟩ := counted.nodup.mem_erase_iff.1 live
    rw [refersTo, dropped.other x other] at here
    exact ⟨x, there, here⟩
  · rw [refs_dropped dropped counted.nodup p]
    exact Nat.le_add_right _ _

/-- The inode of a dentry that is freed has the dentry's reference to give up. -/
theorem Counted.spare {c : Cache} {d : Id} {i : Dcache.Inode} (counted : Counted old s)
    (dropped : Dropped d s.cache c) (had : (s.cache.dentries d).dInode = some i) (live : i.iNo ∈ s.inodes) :
    Spare old i.iNo { s with cache := c } := by
  have refers : refersTo s.cache i.iNo d = true := by
    rw [refersTo, had]
    simp
  have one := refs_dropped dropped counted.nodup i.iNo
  rw [if_pos refers] at one
  have above := counted.above i.iNo live
  left
  show (refs c i.iNo : Int) + 1 < (s.inode i.iNo).iCount
  omega

/-- **`dput` gives up the dentry's reference**, and the inode stays. -/
theorem dput_counted (env : Env) (d : Id) : Keeps (Counted old) (dput env d) := by
  intro s counted
  refine dput_leaves.mono ?_ fun _ _ => trivial
  rintro ⟨_, s'⟩ out
  change PutDentry d s s' at out
  cases out with
  | counted c same => exact counted.same same
  | blank c dropped none => exact counted.dropped dropped
  | freed c dropped i had live put => exact (counted.dropped dropped).put (counted.spare dropped had live) put

theorem Counted.instantiate {d : Id} {name : Name} {p : Nat} (counted : Counted old s)
    (blank : Blank d name s) (live : p ∈ s.inodes) : Counted old (s.instantiate d p) := by
  have more := refs_instantiate blank counted.nodup p
  refine ⟨counted.nodup, counted.inodes, ?_, ?_, counted.kept⟩
  · intro x there q here
    by_cases same : x = d
    · subst same
      change ((Function.update s.cache.dentries x _ x).dInode.any _) = true at here
      rw [Function.update_self] at here
      have : p = q := by simpa using here
      exact this ▸ live
    · change ((Function.update s.cache.dentries d _ x).dInode.any _) = true at here
      rw [Function.update_of_ne same] at here
      exact counted.known x there q here
  · intro q there
    have above := counted.above q there
    rw [more q]
    show _ < (Function.update s.inode p _ q).iCount
    by_cases same : q = p
    · subst same
      rw [Function.update_self, if_pos rfl]
      push_cast
      omega
    · rw [Function.update_of_ne same, if_neg same]
      push_cast
      omega

/-- The inode that `ext4_iget` gives has a reference to spare. -/
theorem Counted.loaded {ino : Nat} {ret : Option Nat} {s' : FsState} (counted : Counted old s)
    (loaded : Loaded ino s ret s') : Counted old s' := by
  cases loaded with
  | none inode same n => exact (counted.withInodes _ fun q live => by rw [same q live]).congr rfl rfl rfl
  | found p inTree live number isDir mode n =>
      refine Counted.congr (s := { s with inode := _ }) (counted.withInodes _ ?_) rfl rfl rfl
      intro q _
      by_cases same : q = p
      · subst same
        rw [Function.update_self]
        dsimp only
        omega
      · rw [Function.update_of_ne same]
  | made p fresh n =>
      exact (counted.newInode ⟨ino, 1, false, true, s.disk.isDir ino⟩ fresh rfl).congr rfl rfl rfl

theorem ext4Lookup_counted (env : Env) (dir : Nat) (d : Id) (name : Name) :
    Triple (fun s => Counted old s ∧ Blank d name s) (ext4Lookup env dir d name) fun _ => Counted old := by
  rintro s ⟨counted, blank⟩
  refine (ext4Lookup_leaves counted.positive).mono ?_ fun _ _ => trivial
  rintro ⟨_, s'⟩ (⟨n, ino, s₁, _, loaded, rfl⟩ | ⟨n, rfl⟩ | ⟨n, ino, p, s₁, _, loaded, _, there, rfl⟩)
  · exact (counted.clock n).loaded loaded
  · exact counted.clock n
  · have counted₁ := (counted.clock n).loaded loaded
    have blank₁ : Blank d name s₁ := by
      cases loaded with
      | found => exact blank
      | made => exact blank
    exact counted₁.instantiate blank₁ there

theorem counted_walkable (env : Env) (old : List Nat) : Walkable env (Counted old) where
  clock _ n counted := counted.clock n
  files _ _ counted := counted.congr rfl rfl rfl
  same _ _ counted same := counted.same same
  added _ _ _ _ counted added := counted.added added
  put d := dput_counted env d
  lookup dir d name := (ext4Lookup_counted env dir d name).pre fun _ both => both.1

/-! ## The operations of ext4 -/

/-- The computation leaves the dentries and the inodes alone. -/
def OnlyDisk {α : Type} (m : Op α) : Prop :=
  ∀ s, Ends (fun r => r.2.cache = s.cache ∧ r.2.inode = s.inode ∧ r.2.inodes = s.inodes) (fun _ => True) (m s)

theorem OnlyDisk.keeps {α : Type} {m : Op α} (only : OnlyDisk m) {I : FsState → Prop}
    (congr : ∀ s s' : FsState, I s → s'.cache = s.cache → s'.inode = s.inode → s'.inodes = s.inodes → I s') :
    Keeps I m := by
  intro s holds
  exact (only s).mono (fun r same => congr s r.2 holds same.1 same.2.1 same.2.2) fun _ _ => trivial

theorem ext4AddEntry_onlyDisk (env : Env) (dir : Nat) (name : Name) (ino : Nat) (type : UInt8) :
    OnlyDisk (ext4AddEntry env dir name ino type) := by
  intro s
  refine inodeAt_ends fun _ => ?_
  rw [bind_apply]
  simp only [tick, ok_bind]
  split
  · exact ⟨rfl, rfl, rfl⟩
  · exact ⟨rfl, rfl, rfl⟩

theorem ext4DeleteEntry_onlyDisk (env : Env) (dir : Nat) (name : Name) :
    OnlyDisk (ext4DeleteEntry env dir name) := by
  intro s
  refine inodeAt_ends fun _ => ?_
  rw [bind_apply]
  simp only [tick, ok_bind]
  split
  · exact ⟨rfl, rfl, rfl⟩
  · exact ⟨rfl, rfl, rfl⟩

theorem ext4Truncate_onlyDisk (p : Nat) : OnlyDisk (ext4Truncate p) := fun _ =>
  inodeAt_ends fun _ => ⟨rfl, rfl, rfl⟩

theorem directoryOf_onlyDisk (p : Nat) : OnlyDisk (directoryOf p) := fun _ =>
  inodeAt_ends fun _ => ⟨rfl, rfl, rfl⟩

/-- A new inode that waits for its dentry. -/
structure Pending (old : List Nat) (d : Id) (name : Name) (p : Nat) (s : FsState) : Prop where
  counted : Counted old s
  blank : Blank d name s
  live : p ∈ s.inodes
  one : (s.inode p).iCount = 1
  unreferred : refs s.cache p = 0
  new : p ∉ old

variable {d : Id} {name : Name} {p : Nat}

theorem Pending.congr {s' : FsState} (pending : Pending old d name p s) (cache : s'.cache = s.cache)
    (inode : s'.inode = s.inode) (inodes : s'.inodes = s.inodes) : Pending old d name p s' := by
  obtain ⟨counted, blank, live, one, unreferred, new⟩ := pending
  refine ⟨counted.congr cache inode inodes, ?_, by rw [inodes]; exact live, by rw [inode]; exact one,
    by rw [cache]; exact unreferred, new⟩
  unfold Blank at blank ⊢
  rw [cache]
  exact blank

theorem markInodeDirty_counted (p : Nat) : Keeps (Counted old) (markInodeDirty p) := by
  intro s counted
  refine inodeAt_ends fun _ => counted.withInodes _ fun q _ => ?_
  by_cases same : q = p
  · subst same
    rw [Function.update_self]
  · rw [Function.update_of_ne same]

theorem markInodeDirty_pending (q : Nat) : Keeps (Pending old d name p) (markInodeDirty q) := by
  intro s pending
  refine ((markInodeDirty_counted q s pending.counted).and (?_ : Ends (fun r => r.2.cache = s.cache ∧
    r.2.inodes = s.inodes ∧ (r.2.inode p).iCount = (s.inode p).iCount) (fun _ => True) _)).mono ?_
      fun _ _ => trivial
  · refine inodeAt_ends fun _ => ⟨rfl, rfl, ?_⟩
    show (Function.update s.inode q _ p).iCount = _
    by_cases same : p = q
    · subst same
      rw [Function.update_self]
    · rw [Function.update_of_ne same]
  · rintro ⟨_, s'⟩ ⟨counted, cache, inodes, count⟩
    obtain ⟨_, blank, live, one, unreferred, new⟩ := pending
    refine ⟨counted, ?_, by rw [inodes]; exact live, count.trans one, by rw [cache]; exact unreferred, new⟩
    unfold Blank at blank ⊢
    rw [cache]
    exact blank

theorem iput_pending (env : Env) : Triple (Pending old d name p) (iput env p) fun _ => Counted old :=
  (iput_counted env p).pre fun _ pending => ⟨pending.counted, .inr ⟨pending.one, pending.unreferred, pending.new⟩⟩

theorem dInstantiate_pending : Triple (Pending old d name p) (dInstantiate d p) fun _ => Counted old := by
  intro s pending
  refine dInstantiate_leaves.mono ?_ fun _ _ => trivial
  rintro ⟨_, s'⟩ ⟨_, live, rfl⟩
  exact pending.counted.instantiate pending.blank live

theorem ext4NewInode_pending (env : Env) (isDir : Bool) :
    Triple (fun s => Counted old s ∧ Blank d name s) (ext4NewInode env isDir)
      fun ret s => match ret with
        | .error _ => Counted old s
        | .ok (p, _) => Pending old d name p s := by
  rintro s ⟨counted, blank⟩
  refine (ext4NewInode_leaves env isDir).mono ?_ fun _ _ => trivial
  rintro ⟨ret, s'⟩ out
  change NewInode isDir s ret s' at out
  cases out with
  | failed e inode same tree sub bitmap more zero n =>
      exact (counted.withInodes inode fun q live => by rw [same q live]).congr rfl rfl rfl
  | made p ino fresh used free n =>
      have counted' := counted.newInode ⟨ino, 1, false, true, isDir⟩ fresh rfl
      refine ⟨counted'.congr rfl rfl rfl, blank, List.mem_cons_self, ?_, ?_, fun there => fresh (counted.kept p there)⟩
      · show (Function.update s.inode p _ p).iCount = 1
        rw [Function.update_self]
      · apply List.countP_eq_zero.2
        intro x live here
        exact fresh (counted.known x live p here)

theorem ext4Create_counted (env : Env) (dir : Nat) (file : Name) :
    Triple (fun s => Counted old s ∧ Blank d name s) (ext4Create env dir d file) fun _ => Counted old := by
  refine Triple.bind (ext4NewInode_pending env false) fun ret => ?_
  rcases ret with e | ⟨p, ino⟩
  · exact Keeps.pure _
  · refine Triple.bind ((ext4AddEntry_onlyDisk env dir file ino _).keeps fun _ _ pending => pending.congr)
      fun ret => ?_
    rcases ret with e | _
    · exact Triple.bind (iput_pending env) fun _ => Keeps.pure _
    · exact Triple.bind (markInodeDirty_pending p) fun _ =>
        Triple.bind dInstantiate_pending fun _ => Keeps.pure _

theorem ext4MakeEmpty_pending (env : Env) (ino dir : Nat) :
    Keeps (Pending old d name p) (ext4MakeEmpty env p ino dir) := by
  refine Keeps.bind (inodeAt_same dir) fun parent => ?_
  refine Keeps.bind (m := tick) (fun s pending => pending.congr rfl rfl rfl) fun n => ?_
  cases env.room n with
  | error e => exact Keeps.pure _
  | ok u =>
      refine Keeps.bind (fun s pending => pending.congr rfl rfl rfl) fun _ => ?_
      exact Keeps.bind (markInodeDirty_pending p) fun _ => Keeps.pure _

theorem ext4Mkdir_counted (env : Env) (dir : Nat) (file : Name) :
    Triple (fun s => Counted old s ∧ Blank d name s) (ext4Mkdir env dir d file) fun _ => Counted old := by
  refine Triple.bind (ext4NewInode_pending env true) fun ret => ?_
  rcases ret with e | ⟨p, ino⟩
  · exact Keeps.pure _
  · refine Triple.bind (ext4MakeEmpty_pending env ino dir) fun ret => ?_
    rcases ret with e | _
    · exact Triple.bind (iput_pending env) fun _ => Keeps.pure _
    · refine Triple.bind ((ext4AddEntry_onlyDisk env dir file ino _).keeps fun _ _ pending => pending.congr)
        fun ret => ?_
      rcases ret with e | _
      · exact Triple.bind (iput_pending env) fun _ => Keeps.pure _
      · exact Triple.bind (markInodeDirty_pending dir) fun _ =>
          Triple.bind (markInodeDirty_pending p) fun _ =>
            Triple.bind dInstantiate_pending fun _ => Keeps.pure _

theorem ext4DeleteEntry_counted (env : Env) (dir : Nat) (name : Name) :
    Keeps (Counted old) (ext4DeleteEntry env dir name) :=
  (ext4DeleteEntry_onlyDisk env dir name).keeps fun _ _ counted => counted.congr

theorem ext4Unlink_counted (env : Env) (dir p : Nat) (name : Name) :
    Keeps (Counted old) (ext4Unlink env dir p name) := by
  refine Keeps.bind (ext4DeleteEntry_counted env dir name) fun ret => ?_
  rcases ret with e | _
  · exact Keeps.pure _
  · exact Keeps.bind (markInodeDirty_counted p) fun _ => Keeps.pure _

theorem ext4Rmdir_counted (env : Env) (dir p : Nat) (name : Name) :
    Keeps (Counted old) (ext4Rmdir env dir p name) := by
  refine Keeps.bind (inodeAt_same p) fun inode => ?_
  split
  · exact Keeps.pure _
  · refine Keeps.bind ((directoryOf_onlyDisk p).keeps fun _ _ counted => counted.congr) fun blocks => ?_
    refine Keeps.bind (m := tick) (fun s counted => counted.congr rfl rfl rfl) fun n => ?_
    split
    · refine Keeps.bind (ext4DeleteEntry_counted env dir name) fun ret => ?_
      rcases ret with e | _
      · exact Keeps.pure _
      · refine Keeps.bind ((ext4Truncate_onlyDisk p).keeps fun _ _ counted => counted.congr) fun _ => ?_
        exact Keeps.bind (markInodeDirty_counted p) fun _ =>
          Keeps.bind (markInodeDirty_counted dir) fun _ => Keeps.pure _
    · exact Keeps.pure _

/-! ## The calls -/

theorem vfsDoMkdir_counted (env : Env) (cwd : Option (Id × Vfsmount)) (path : List Char) :
    Keeps (Counted old) (vfsDoMkdir env cwd path) := by
  have walk := counted_walkable env old
  refine walk.inDirectory cwd path (fun _ _ counted => counted) fun p dir name _ => ?_
  refine Triple.pre ?_ fun s (both : Counted old s ∧ _) => both.1
  refine Triple.bind (walk.dAlloc (some p) name) fun made => ?_
  cases made with
  | none => exact (walk.failed p .enomem).pre fun s both => both.1
  | some d =>
      refine Triple.bind ((ext4Mkdir_counted env dir name).pre fun s both => ⟨both.1, both.2 d rfl⟩) fun ret => ?_
      exact walk.finish d p ret

theorem vfsCreate_counted (env : Env) (cwd : Option (Id × Vfsmount)) (path : List Char) :
    Keeps (Counted old) (vfsCreate env cwd path) := by
  have walk := counted_walkable env old
  refine walk.inDirectory cwd path (fun _ _ counted => counted) fun p dir name _ => ?_
  refine Triple.pre ?_ fun s (both : Counted old s ∧ _) => both.1
  refine Triple.bind (walk.dAlloc (some p) name) fun made => ?_
  cases made with
  | none => exact (walk.failed p .enomem).pre fun s both => both.1
  | some d =>
      refine Triple.bind (dentryAt_same d) fun e => ?_
      split
      · exact (walk.finish d p _).pre fun s both => both.1
      · refine Triple.bind ((ext4Create_counted env dir name).pre fun s both => ⟨both.1, both.2 d rfl⟩)
          fun ret => ?_
        cases ret with
        | error e => exact walk.finish d p _
        | ok _ => exact Keeps.bind (walk.dentryOpen d) fun ret => walk.finish d p ret

theorem removeIn_counted (env : Env) (wanted : Bool) (wrong : Errno)
    {remove : Nat → Nat → Name → Op (Except Errno Unit)}
    (removes : ∀ dir p name, Keeps (Counted old) (remove dir p name)) (cwd : Option (Id × Vfsmount))
    (path : List Char) : Keeps (Counted old) (inDirectory env cwd path (removeIn env wanted wrong remove)) := by
  have walk := counted_walkable env old
  refine walk.inDirectory cwd path (fun _ _ counted => counted) fun p dir name _ => ?_
  refine Triple.pre ?_ fun s (both : Counted old s ∧ _) => both.1
  refine Keeps.bind (walk.lookupOneLen name p) fun ret => ?_
  rcases ret with e | _ | d
  · exact walk.failed p e
  · exact walk.failed p .enoent
  · refine Keeps.bind (dentryAt_same d) fun e => ?_
    cases e.dInode with
    | none => exact walk.finish d p _
    | some i =>
        refine Keeps.bind (inodeAt_same i.iNo) fun inode => ?_
        split
        · exact Keeps.bind (removes dir i.iNo e.dName) fun ret => walk.finish d p ret
        · exact walk.finish d p _

theorem vfsOpen_counted (env : Env) (cwd : Option (Id × Vfsmount)) (path : List Char) (flags : Flags) :
    Keeps (Counted old) (vfsOpen env cwd path flags) := by
  have walk := counted_walkable env old
  refine Keeps.bind (walk.vfsPathLookup cwd path) fun ret => ?_
  cases ret with
  | error e =>
      dsimp only
      split
      · exact vfsCreate_counted env cwd path
      · exact Keeps.pure _
  | ok place => exact walk.vfsOpen_found flags markInodeDirty_counted place.1

/-- **Every call keeps the counts above the references**, and every inode there is. -/
theorem perform_counted (a : Action) : Keeps (Counted old) (perform a) := by
  have walk := counted_walkable a.env old
  unfold perform
  cases a.call with
  | stat path => exact walk.vfsStat a.cwd path
  | openFile path flags => exact vfsOpen_counted a.env a.cwd path flags
  | close i => exact walk.vfsClose i
  | mkdir path => exact vfsDoMkdir_counted a.env a.cwd path
  | unlink path => exact removeIn_counted a.env _ _ (ext4Unlink_counted a.env) a.cwd path
  | rmdir path => exact removeIn_counted a.env _ _ (ext4Rmdir_counted a.env) a.cwd path

/-! ## Runs -/

theorem boot_counted (disk : Disk) : Counted [] (FsState.boot disk) := by
  refine ⟨List.nodup_nil, List.nodup_nil, nofun, nofun, nofun⟩

/-- After the mount the root's inode is there. -/
theorem mountRoot_counted (env : Env) :
    Triple (Counted []) (mountRoot env) fun ret s => ret = .ok () → ∃ root, Counted [root] s := by
  unfold mountRoot
  have load : Triple (Counted []) (ext4Iget env ext4RootIno) fun ret s => ∀ p ∈ ret, Counted [p] s := by
    intro s counted
    refine (ext4Iget_loaded counted.positive).mono ?_ fun _ _ => trivial
    rintro ⟨ret, s'⟩ loaded p ⟨⟩
    have live : p ∈ s'.inodes := by
      cases loaded with
      | found _ _ live => exact live
      | made _ fresh n => exact List.mem_cons_self
    refine { counted.loaded loaded with kept := ?_ }
    rintro q (_ | ⟨_, ⟨⟩⟩)
    exact live
  refine Triple.bind load fun ret => ?_
  cases ret with
  | none => exact fun s _ => nofun
  | some p =>
      have walk := counted_walkable env [p]
      refine Triple.bind ((walk.dAlloc none _).pre fun s counted => counted p rfl) fun made => ?_
      cases made with
      | none => exact fun s _ => nofun
      | some root =>
          refine Triple.bind (Q := fun _ => Counted [p]) ?_ fun _ => ?_
          · rintro s ⟨counted, blank⟩
            refine dInstantiate_leaves.mono ?_ fun _ _ => trivial
            rintro ⟨_, s'⟩ ⟨_, live, rfl⟩
            exact counted.instantiate (blank root rfl) live
          · refine Triple.bind (walk.dget root) fun _ => Triple.bind (walk.dget root) fun _ => ?_
            exact fun s counted _ => ⟨p, counted.congr rfl rfl rfl⟩

/-- Every inode in memory is counted by the dentries that refer to it. -/
def Balanced (s : FsState) : Prop := ∀ p ∈ s.inodes, (s.inode p).iCount = refs s.cache p

/-- **No state with a volume mounted is balanced**: every inode has a reference that no
dentry accounts for, and no inode is ever destroyed. -/
theorem inode_counts_never_balanced {env : Env} {disk : Disk} {s : FsState}
    (mounted : mountRoot env (FsState.boot disk) = .ok (.ok (), s)) (actions : List Action) :
    Ends (fun t => ¬ Balanced t ∧ (∀ p ∈ t.inodes, (refs t.cache p : Int) < (t.inode p).iCount) ∧
        ∀ later, Ends (fun t' => ∀ p ∈ t.inodes, p ∈ t'.inodes) (fun _ => True)
          (machine.run (.ok t) later))
      (fun _ => True) (machine.run (.ok s) actions) := by
  obtain ⟨root, counted⟩ : ∃ root, Counted [root] s := by
    have out := mountRoot_counted env _ (boot_counted disk)
    rw [mounted] at out
    exact out rfl
  refine (run_keeps perform_counted counted actions).mono ?_ fun _ _ => trivial
  intro t counted
  have there : root ∈ t.inodes := counted.kept root List.mem_cons_self
  refine ⟨fun balanced => ?_, counted.above, fun later => ?_⟩
  · have above := counted.above root there
    rw [balanced root there] at above
    exact absurd above (lt_irrefl _)
  · have all : Counted t.inodes t := { counted with kept := fun _ here => here }
    exact (run_keeps perform_counted all later).mono (fun t' after => after.kept) fun _ _ => trivial

end Counted

/-! ### A file that is created and closed -/

instance (s : FsState) : Decidable (Balanced s) := inferInstanceAs (Decidable (∀ p ∈ s.inodes, _))

/-- `/f` is created, and its file closed. -/
def createAndClose : List Action :=
  [⟨plainEnv, none, .openFile ['/', 'f'] ⟨true, false, false⟩⟩, ⟨plainEnv, none, .close 0⟩]

theorem inode_counts_never_balanced_create :
    ∃ s, mountRoot plainEnv (FsState.boot freshDisk) = .ok (.ok (), s) ∧
      Ends (fun t => ¬ Balanced t) (fun _ => True) (machine.run (.ok s) createAndClose) := by
  obtain ⟨s, mounted⟩ := fresh_mounts
  exact ⟨s, mounted, (inode_counts_never_balanced mounted createAndClose).mono (fun t all => all.1) fun _ _ => trivial⟩

/-- **The inode outlives its last dentry**: the file's only dentry is freed by the close,
and the inode is in the tree with a count of 1. -/
theorem inode_outlives_dentry :
    Ends (fun t => ¬ Balanced t ∧ ∃ p ∈ t.inodes, p ∈ t.tree ∧ refs t.cache p = 0 ∧ (t.inode p).iCount = 1)
      (fun _ => False) (machine.run (booted plainEnv freshDisk) createAndClose) := by
  decide +kernel

end Minus.Fs.Namei
