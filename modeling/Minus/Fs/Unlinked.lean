/-
# Fs.Unlinked — a removed name and the dentry cache

A removal deletes one record of the name from the directory on disk (`Fs.Directories`), and
lookups are served from the dentry cache first.  If the directory has no other record of the
name and nobody refers to a dentry of it when it is removed, none comes back: through every
run of calls that do not make the name again no live dentry has it (`Quiet`), so that each
lookup of it ends with `ENOENT`.  If somebody does, the dentry stays on the directory's list,
and the next lookup finds it (`removed_names_gone`).

The poles at the end are the file `/f` removed while it is open, and while it is not, and a
name that the directory has twice.
-/
import Minus.Fs.Umount
import Minus.Fs.Directories
import Mathlib.Algebra.Order.BigOperators.Group.List

namespace Minus.Fs.Dcache

set_option autoImplicit false

open Minus.Theory Minus.Lib.Dlist

/-! ## The name -/

/-- The entry `name` of the directory `ino`. -/
structure Entry where
  ino : Nat
  name : Name
  notRoot : name ≠ ['/']

/-- The dentry is one of the entry. -/
def Entry.Of (t : Entry) (c : Cache) (x : Id) : Prop :=
  (c.dentries x).dName = t.name ∧
    ∃ dir, (c.dentries (c.dentries x).dParent).dInode = some dir ∧ dir.iNo = t.ino

/-- What a call makes in a directory is another entry, or it fails. -/
def Entry.Apart (t : Entry) (make : Nat → Name → Except Errno Inode) (dir : Inode) (name : Name) : Prop :=
  dir.iNo = t.ino → name.take 63 = t.name → ∀ inode, make dir.iNo (name.take 63) ≠ .ok inode

/-- The call does not make the entry. -/
def Entry.Spared (t : Entry) (s : Vfs) (a : Action) : Prop :=
  let ctx := s.context a.task
  match a.call with
  | .openFile path creat _ =>
      Ends (fun r => Ends (fun _ => True)
          (fun e => creat = true → e = .enoent →
            DirectoryClean s.holders a.env.toEnv ctx r.1 path fun _ _ dir name => t.Apart a.env.create dir name)
          r.2)
        (fun _ => True) (vfsPathLookup a.env.toEnv ctx s.cache path)
  | .mkdir path =>
      DirectoryClean s.holders a.env.toEnv ctx s.cache path fun _ _ dir name => t.Apart a.env.mkdir dir name
  | _ => True

/-- The entry is not on disk. -/
abbrev Entry.Gone (t : Entry) (dirs : Directories) : Prop := dirs.Lacks t.ino t.name

/-- No dentry of the entry but for `tmp`: among all dentries, or among those that are held. -/
def Entry.Quiet (t : Entry) (all : Prop) (holders : List Id) (c : Cache) (tmp : Option Id) : Prop :=
  ∀ x ∈ c.live, some x ≠ tmp → (all ∨ x ∈ holders) → ¬ t.Of c x

section Quiet

variable {t : Entry} {all : Prop} {holders extra : List Id} {mounts : List Vfsmount} {c c' : Cache}
  {d p : Id} {mnt : Vfsmount} {tmp : Option Id}

/-- Dentries may go, and lose their inodes. -/
theorem Entry.Quiet.shrink (quiet : t.Quiet all holders c tmp) (live : ∀ x ∈ c'.live, x ∈ c.live)
    (name : ∀ x, (c'.dentries x).dName = (c.dentries x).dName)
    (parent : ∀ x, (c'.dentries x).dParent = (c.dentries x).dParent)
    (inode : ∀ x inode, (c'.dentries x).dInode = some inode → (c.dentries x).dInode = some inode) :
    t.Quiet all holders c' tmp := by
  intro x inside other counts of_
  obtain ⟨named, dir, entry, ino⟩ := of_
  rw [name] at named
  rw [parent] at entry
  exact quiet x (live x inside) other counts ⟨named, dir, inode _ dir entry, ino⟩

theorem modify_names (c : Cache) (d x : Id) (f : Dentry → Dentry)
    (same : ∀ e, (f e).dName = e.dName ∧ (f e).dParent = e.dParent ∧ ((f e).dInode = e.dInode ∨ (f e).dInode = none)) :
    ((c.modify d f).dentries x).dName = (c.dentries x).dName ∧
      ((c.modify d f).dentries x).dParent = (c.dentries x).dParent ∧
      ∀ inode, ((c.modify d f).dentries x).dInode = some inode → (c.dentries x).dInode = some inode := by
  by_cases here : x = d
  · subst here
    rw [modify_self]
    refine ⟨(same _).1, (same _).2.1, fun inode entry => ?_⟩
    rcases (same (c.dentries x)).2.2 with kept | lost
    · exact kept ▸ entry
    · rw [lost] at entry
      cases entry
  · rw [modify_of_ne c f here]
    exact ⟨rfl, rfl, fun _ entry => entry⟩

theorem Entry.Quiet.modify (quiet : t.Quiet all holders c tmp) (d : Id) (f : Dentry → Dentry)
    (same : ∀ e, (f e).dName = e.dName ∧ (f e).dParent = e.dParent ∧ ((f e).dInode = e.dInode ∨ (f e).dInode = none)) :
    t.Quiet all holders (c.modify d f) tmp :=
  quiet.shrink (fun _ inside => inside) (fun x => (modify_names c d x f same).1)
    (fun x => (modify_names c d x f same).2.1) fun x => (modify_names c d x f same).2.2

theorem dget_quiet (quiet : t.Quiet all holders c tmp) :
    Unfaulted (fun c => t.Quiet all holders c tmp) (dget c d) :=
  unfaulted_touch fun _ => quiet.modify d _ fun _ => ⟨rfl, rfl, .inl rfl⟩

theorem dput_quiet (quiet : t.Quiet all holders c tmp) :
    Unfaulted (fun c => t.Quiet all holders c tmp) (dput c d) := by
  refine unfaulted_touch fun _ => ?_
  have fewer := quiet.modify d (fun e => { e with dCount := e.dCount - 1 }) fun _ => ⟨rfl, rfl, .inl rfl⟩
  dsimp only
  split
  · unfold freeDentry
    refine unfaulted_touch fun _ => unfaulted_touch fun _ => ?_
    have bare := fewer.modify d (fun e => { e with dInode := none }) fun _ => ⟨rfl, rfl, .inr rfl⟩
    exact bare.shrink (fun x inside => List.mem_of_mem_erase inside) (fun _ => rfl) (fun _ => rfl)
      fun _ _ entry => entry
  · exact fewer

theorem failed_quiet {α : Type} (quiet : t.Quiet all holders c tmp) (e : Errno) :
    Unfaulted (fun r => t.Quiet all holders r.1 tmp) (failed c d e : Except Fault (Cache × Except Errno α)) :=
  Ends.bind (dput_quiet quiet) fun _ gone => gone

/-! ## New dentries -/

/-- A dentry that was not there: nothing else is of the entry, and nothing is below it. -/
structure Entry.Newborn (t : Entry) (all : Prop) (holders : List Id) (c : Cache) (p : Id) (n : Name) (d : Id) :
    Prop where
  quiet : t.Quiet all holders c (some d)
  new : d ∉ holders
  childless : ∀ x ∈ c.live, (c.dentries x).dParent = d → x = d
  parent : (c.dentries d).dParent = p
  named : (c.dentries d).dName = n

theorem dAlloc_newborn (env : Env) (inv : Inv holders mounts c extra none) (quiet : t.Quiet all holders c none)
    (parent : Option Id) (name : Name) :
    Unfaulted (fun r => match r.2 with
        | some d => t.Newborn all holders r.1 (parent.getD d) (name.take 63) d ∧
            ∀ x ∈ c.live, (r.1.dentries x).dInode = (c.dentries x).dInode
        | none => t.Quiet all holders r.1 none)
      (dAlloc env c parent name) := by
  unfold dAlloc
  cases given : env.alloc c.allocs c.live with
  | none => exact quiet
  | some d =>
      have free := env.fresh _ _ _ given
      have new : d ∉ holders := fun held => free (inv.live_of_holder held)
      have newborn (q : Id) (links : Links Node) :
          t.Newborn all holders { c.insert d q name with links := links } q (name.take 63) d ∧
            ∀ x ∈ c.live, (({ c.insert d q name with links := links } : Cache).dentries x).dInode =
              (c.dentries x).dInode := by
        have old {x : Id} (inside : x ∈ c.live) :
            ({ c.insert d q name with links := links } : Cache).dentries x = c.dentries x :=
          insert_of_ne c q name (ne_of_mem_of_not_mem inside free)
        have self : ({ c.insert d q name with links := links } : Cache).dentries d = _ := insert_self c d q name
        refine ⟨⟨fun x inside other counts of_ => ?_, new, fun x inside below => ?_, ?_, ?_⟩, fun x inside => ?_⟩
        · have there : x ∈ c.live := (List.mem_cons.1 inside).resolve_left fun here => other (congrArg some here)
          obtain ⟨named, dir, entry, ino⟩ := of_
          rw [old there] at named entry
          rw [old (inv.parent_live there)] at entry
          exact quiet x there (by simp) counts ⟨named, dir, entry, ino⟩
        · by_contra other
          have there : x ∈ c.live := (List.mem_cons.1 inside).resolve_left other
          rw [old there] at below
          exact free (below ▸ inv.parent_live there)
        · rw [self]
        · rw [self]
        · rw [old inside]
      cases parent with
      | none => exact newborn d _
      | some p =>
          refine Ends.bind (P := fun c' => c' = { c.insert d p name with
            links := dlistAdd (c.insert d p name).links (.subdirs p) (.child d) }) ?_ fun c' same => ?_
          · exact unfaulted_touch fun _ => unfaulted_touch fun _ => rfl
          · rw [same]
            exact newborn p _

theorem dInstantiate_newborn {n : Name} (newborn : t.Newborn all holders c p n d) (inode : Inode) :
    Unfaulted (fun c' => t.Newborn all holders c' p n d ∧
        (p ≠ d → (c'.dentries p).dInode = (c.dentries p).dInode))
      (dInstantiate c d inode) := by
  refine unfaulted_touch fun live => ?_
  have fields (x : Id) : ((c.modify d fun e => { e with dInode := some inode }).dentries x).dName =
      (c.dentries x).dName ∧ ((c.modify d fun e => { e with dInode := some inode }).dentries x).dParent =
        (c.dentries x).dParent := by
    by_cases here : x = d
    · subst here
      rw [modify_self]
      exact ⟨rfl, rfl⟩
    · rw [modify_of_ne c _ here]
      exact ⟨rfl, rfl⟩
  refine ⟨⟨fun x inside apart counts of_ => ?_, newborn.new, fun x inside below => ?_, ?_, ?_⟩, ?_⟩
  · obtain ⟨named, dir, entry, ino⟩ := of_
    rw [(fields x).1] at named
    have away : (c.dentries x).dParent ≠ d := fun below => apart (congrArg some (newborn.childless x inside below))
    rw [(fields x).2, modify_of_ne c _ away] at entry
    exact newborn.quiet x inside apart counts ⟨named, dir, entry, ino⟩
  · rw [(fields x).2] at below
    exact newborn.childless x inside below
  · rw [(fields d).2]
    exact newborn.parent
  · rw [(fields d).1]
    exact newborn.named
  · intro other
    rw [modify_of_ne c _ other]

/-- The new dentry is not of the entry. -/
theorem Entry.Newborn.settle {n : Name} (newborn : t.Newborn all holders c p n d)
    (apart : all → n = t.name → ∀ dir, (c.dentries p).dInode = some dir → dir.iNo ≠ t.ino) :
    t.Quiet all holders c none := by
  intro x inside _ counts of_
  by_cases here : x = d
  · subst here
    obtain ⟨named, dir, entry, ino⟩ := of_
    rw [newborn.named] at named
    rw [newborn.parent] at entry
    exact apart (counts.resolve_right newborn.new) named dir entry ino
  · exact newborn.quiet x inside (fun same => here (Option.some.inj same)) counts ⟨of_.1, of_.2⟩

/-- The new dentry goes again. -/
theorem Fresh.discard_quiet {n : Name} (fresh : Fresh holders mounts extra p c d)
    (newborn : t.Newborn all holders c p n d) :
    Safe (fun c' => Inv holders mounts c' extra none ∧ t.Quiet all holders c' none) (dput c d) := by
  refine (fresh.discard.and (dput_quiet newborn.quiet)).mono ?_ fun _ h => h.1
  rintro c' ⟨inv, quiet⟩
  refine ⟨inv, fun x inside _ => quiet x inside ?_⟩
  rintro ⟨⟩
  exact fresh.new ((inv.live_iff _).1 inside)

/-! ## Lookups and walks -/

/-- What is known of a result beside what is to be proved. -/
theorem unfaulted_both {α : Type} {P Q : α → Prop} {x : Except Fault α} (safe : Safe P x) (quiet : Unfaulted Q x) :
    Unfaulted (fun a => P a ∧ Q a) x :=
  (safe.and quiet).mono (fun _ h => h) fun _ _ => trivial

/-- The entry is gone where all dentries count. -/
abbrev Entry.GoneIf (t : Entry) (all : Prop) (env : Env) : Prop :=
  all → ∀ inode, env.lookup t.ino t.name ≠ .ok (some inode)

theorem dLookup_quiet (quiet : t.Quiet all holders c tmp) (name : Name) :
    Unfaulted (fun r => t.Quiet all holders r.1 tmp) (dLookup c p name) := by
  refine unfaulted_touch fun _ => ?_
  refine Ends.bind (P := fun _ => True) (Ends.of_forall (fun _ => trivial) (fun _ => trivial) _) fun r _ => ?_
  cases r with
  | none => exact quiet
  | some x => exact Ends.bind (dget_quiet quiet) fun c got => got

theorem lookupOneLen_quiet (env : Env) (inv : Inv holders mounts c extra none) (quiet : t.Quiet all holders c none)
    (gone : t.GoneIf all env) (live : p ∈ c.live) (name : Name) :
    Unfaulted (fun r => t.Quiet all holders r.1 none) (lookupOneLen env c name p) := by
  refine Ends.bind (unfaulted_both (dLookup_spec inv live _) (dLookup_quiet quiet _)) fun r both => ?_
  obtain ⟨c₁, found⟩ := r
  obtain ⟨looked, quiet₁⟩ := both
  cases found with
  | some x => exact quiet₁
  | none =>
      obtain rfl : c₁ = c := looked
      refine Ends.bind (unfaulted_both (dAlloc_spec env inv live _) (dAlloc_newborn env inv quiet (some p) _))
        fun r both => ?_
      obtain ⟨c₂, made⟩ := r
      obtain ⟨allocated, newborn⟩ := both
      cases made with
      | none => exact newborn
      | some d =>
          obtain ⟨-, fresh, -⟩ := allocated
          replace newborn : t.Newborn all holders c₂ p ((name.take 63).take 63) d := newborn.1
          have discard : Unfaulted (fun c => t.Quiet all holders c none) (dput c₂ d) :=
            (fresh.discard_quiet newborn).mono (fun _ h => h.2) fun _ _ => trivial
          have other : p ≠ d := fun same => fresh.new (same ▸ (inv.live_iff p).1 live)
          refine unfaulted_touch fun there => ?_
          cases entry : (c₂.dentries p).dInode with
          | none =>
              refine newborn.settle fun _ _ dir entry' => ?_
              rw [entry] at entry'
              cases entry'
          | some dir =>
              dsimp only
              cases answer : env.lookup dir.iNo (name.take 63) with
              | error e => exact Ends.bind discard fun _ gone => gone
              | ok found =>
                  cases found with
                  | none => exact Ends.bind discard fun _ gone => gone
                  | some inode =>
                      refine Ends.bind (dInstantiate_newborn newborn inode) fun c₃ given => ?_
                      refine given.1.settle fun counts named dir' entry' ino => ?_
                      rw [given.2 other, entry] at entry'
                      cases entry'
                      rw [List.take_take, Nat.min_self] at named
                      rw [named, ino] at answer
                      exact gone counts inode answer

theorem moveRef_quiet (quiet : t.Quiet all holders c tmp) :
    Unfaulted (fun c => t.Quiet all holders c tmp) (moveRef c d p) :=
  Ends.bind (dget_quiet quiet) fun _ got => dput_quiet got

theorem stepUp_quiet (quiet : t.Quiet all holders c tmp) :
    Unfaulted (fun r => t.Quiet all holders r.1 tmp) (stepUp c d mnt) := by
  have climbed : Unfaulted (fun r => t.Quiet all holders r.1 tmp) (climb c d mnt) := by
    unfold climb
    split
    · split
      · exact Ends.bind (moveRef_quiet quiet) fun _ moved => moved
      · exact quiet
    · exact quiet
  refine Ends.bind climbed fun r quiet => unfaulted_touch fun _ => ?_
  dsimp only
  split
  · exact quiet
  · exact Ends.bind (moveRef_quiet quiet) fun _ moved => moved

theorem stepDown_quiet (env : Env) (inv : Inv holders mounts c (d :: extra) none)
    (quiet : t.Quiet all holders c none) (gone : t.GoneIf all env) (name : Name) :
    Unfaulted (fun r => t.Quiet all holders r.1 none) (stepDown env c d mnt name) := by
  unfold stepDown
  refine Ends.bind (lookupOneLen_quiet env inv quiet gone (inv.live_of_extra List.mem_cons_self) name) fun r quiet => ?_
  obtain ⟨c₁, found⟩ := r
  rcases found with e | found
  · exact failed_quiet quiet e
  · cases found with
    | none => exact failed_quiet quiet .enoent
    | some next =>
        refine unfaulted_touch fun _ => ?_
        split
        · refine Ends.bind (dget_quiet quiet) fun c₂ quiet => ?_
          refine Ends.bind (dput_quiet quiet) fun c₃ quiet => ?_
          exact Ends.bind (dput_quiet quiet) fun c₄ quiet => quiet
        · exact Ends.bind (dput_quiet quiet) fun c₂ quiet => quiet

theorem followStep_quiet (env : Env) (inv : Inv holders mounts c (d :: extra) none)
    (quiet : t.Quiet all holders c none) (gone : t.GoneIf all env) (comp : Name) :
    Unfaulted (fun r => t.Quiet all holders r.1 none) (followStep env c d mnt comp) := by
  refine unfaulted_touch fun _ => ?_
  split
  · trivial
  · split
    · exact failed_quiet quiet .enotdir
    · split
      · exact quiet
      · split
        · exact stepUp_quiet quiet
        · exact stepDown_quiet env inv quiet gone comp

theorem followLoop_quiet (env : Env) (sound : Mounted holders mounts) (gone : t.GoneIf all env) (comps : List Name)
    (inv : Inv holders mounts c (d :: extra) none) (inside : mnt ∈ mounts)
    (clean : WalkClean holders env comps c d mnt) (quiet : t.Quiet all holders c none) :
    Unfaulted (fun r => t.Quiet all holders r.1 none) (followLoop env c d mnt comps) := by
  induction comps generalizing c d mnt with
  | nil => exact quiet
  | cons comp rest ih =>
      have step := (followStep_spec env sound inv inside comp clean.1).clean clean.2
      refine Ends.bind (unfaulted_both step (followStep_quiet env inv quiet gone comp)) fun r both => ?_
      obtain ⟨c', place⟩ := r
      obtain ⟨⟨walked, clean'⟩, quiet'⟩ := both
      cases place with
      | error e => exact quiet'
      | ok place => exact ih walked.1 walked.2 clean' quiet'

/-- **A walk** brings no dentry of the entry. -/
theorem vfsPathLookup_quiet (env : Env) {ctx : Context} (sound : Mounted holders mounts)
    (placed : Placed holders mounts ctx) (inv : Inv holders mounts c extra none) {path : List Char}
    (clean : PathClean holders env ctx c path) (quiet : t.Quiet all holders c none) (gone : t.GoneIf all env) :
    Unfaulted (fun r => t.Quiet all holders r.1 none) (vfsPathLookup env ctx c path) := by
  unfold vfsPathLookup followPath
  unfold PathClean at clean
  cases start : ctx.start path with
  | none => exact quiet
  | some place =>
      obtain ⟨d, mnt⟩ := place
      obtain ⟨held, inside⟩ := start_placed sound placed start
      rw [start] at clean
      have got := (dget_spec inv (inv.live_of_holder held)).clean clean
      refine Ends.bind (unfaulted_both got (dget_quiet quiet)) fun c' both => ?_
      exact followLoop_quiet env sound gone _ both.1.1 inside both.1.2 both.2

/-! ## The calls -/

theorem dentryOpen_quiet (env : FsEnv) (quiet : t.Quiet all holders c tmp) :
    Unfaulted (fun r => t.Quiet all holders r.1 tmp) (dentryOpen env c d) := by
  refine Ends.bind (dget_quiet quiet) fun c quiet => ?_
  split
  · exact failed_quiet quiet .enoent
  · split
    · exact failed_quiet quiet .enomem
    · split
      · exact failed_quiet quiet _
      · exact quiet

theorem finish_quiet {α : Type} (ret : Except Errno α) (quiet : t.Quiet all holders c tmp) :
    Unfaulted (fun r => t.Quiet all holders r.1 tmp) (finish c d p ret) :=
  Ends.bind (dput_quiet quiet) fun _ quiet => Ends.bind (dput_quiet quiet) fun _ quiet => quiet

/-- A dentry that a call makes in a directory of known inode. -/
theorem made_quiet (env : Env) (inv : Inv holders mounts c (p :: extra) none) (quiet : t.Quiet all holders c none)
    {dir : Inode} (entry : (c.dentries p).dInode = some dir) (name : Name) :
    Unfaulted (fun r => match r.2 with
        | none => t.Quiet all holders r.1 none
        | some d => (r.1.dentries d).dInode = none ∧
            Unfaulted (fun c => t.Quiet all holders c none) (dput r.1 d) ∧
            ∀ inode, ¬ (all ∧ dir.iNo = t.ino ∧ name.take 63 = t.name) →
              Unfaulted (fun c => t.Quiet all holders c none) (dInstantiate r.1 d inode))
      (dAlloc env c (some p) name) := by
  have live : p ∈ c.live := inv.live_of_extra List.mem_cons_self
  refine (unfaulted_both (dAlloc_spec env inv live name) (dAlloc_newborn env inv quiet (some p) name)).mono ?_
    fun _ h => h
  rintro ⟨c₁, given⟩ ⟨allocated, newborn⟩
  cases given with
  | none => exact newborn
  | some d =>
      obtain ⟨-, fresh, negative⟩ := allocated
      have same : (c₁.dentries p).dInode = (c.dentries p).dInode := newborn.2 p live
      replace newborn : t.Newborn all holders c₁ p (name.take 63) d := newborn.1
      have other : p ≠ d := fun same => fresh.new (same ▸ (inv.live_iff p).1 live)
      refine ⟨negative, (fresh.discard_quiet newborn).mono (fun _ h => h.2) fun _ _ => trivial, fun inode apart => ?_⟩
      refine (dInstantiate_newborn newborn inode).mono (fun c₂ given => ?_) fun _ h => h
      refine given.1.settle fun counts named dir' entry' ino => ?_
      rw [given.2 other, same, entry] at entry'
      cases entry'
      exact apart ⟨counts, ino, named⟩

theorem createIn_quiet (env : FsEnv) (inv : Inv holders mounts c (p :: extra) none)
    (quiet : t.Quiet all holders c none) {dir : Inode} (entry : (c.dentries p).dInode = some dir)
    {name : Name} (apart : all → t.Apart env.create dir name) :
    Unfaulted (fun r => t.Quiet all holders r.1 none) (createIn env c p dir name) := by
  refine Ends.bind (made_quiet env.toEnv inv quiet entry name) fun r made => ?_
  obtain ⟨c₁, given⟩ := r
  cases given with
  | none => exact failed_quiet made .enomem
  | some d =>
      obtain ⟨negative, discard, instantiate⟩ := made
      dsimp only at negative discard instantiate ⊢
      rw [if_neg (not_not.2 negative)]
      cases answer : env.create dir.iNo (name.take 63) with
      | error e => exact Ends.bind discard fun c quiet => failed_quiet quiet e
      | ok inode =>
          have other : ¬ (all ∧ dir.iNo = t.ino ∧ name.take 63 = t.name) := fun ⟨counts, ino, named⟩ =>
            apart counts ino named inode answer
          refine Ends.bind (instantiate inode other) fun c quiet => ?_
          refine Ends.bind (dentryOpen_quiet env quiet) fun r quiet => ?_
          exact Ends.bind (dput_quiet quiet) fun c quiet => Ends.bind (dput_quiet quiet) fun c quiet => quiet

theorem mkdirIn_quiet (env : FsEnv) (inv : Inv holders mounts c (p :: extra) none)
    (quiet : t.Quiet all holders c none) {dir : Inode} (entry : (c.dentries p).dInode = some dir)
    {name : Name} (apart : all → t.Apart env.mkdir dir name) :
    Unfaulted (fun r => t.Quiet all holders r.1 none) (mkdirIn env c p dir name) := by
  refine Ends.bind (made_quiet env.toEnv inv quiet entry name) fun r made => ?_
  obtain ⟨c₁, given⟩ := r
  cases given with
  | none => exact failed_quiet made .enomem
  | some d =>
      obtain ⟨-, discard, instantiate⟩ := made
      dsimp only at discard instantiate ⊢
      cases answer : env.mkdir dir.iNo (name.take 63) with
      | error e => exact Ends.bind discard fun c quiet => Ends.bind (dput_quiet quiet) fun c quiet => quiet
      | ok inode =>
          have other : ¬ (all ∧ dir.iNo = t.ino ∧ name.take 63 = t.name) := fun ⟨counts, ino, named⟩ =>
            apart counts ino named inode answer
          exact Ends.bind (instantiate inode other) fun c quiet => finish_quiet _ quiet

theorem removeIn_quiet (env : Env) (remove : Inode → Inode → Name → Except Errno Unit)
    (inv : Inv holders mounts c (p :: extra) none) (quiet : t.Quiet all holders c none) (gone : t.GoneIf all env)
    (dir : Inode) (name : Name) :
    Unfaulted (fun r => t.Quiet all holders r.1 none) (removeIn env remove c p dir name) := by
  refine Ends.bind (lookupOneLen_quiet env inv quiet gone (inv.live_of_extra List.mem_cons_self) name) fun r quiet => ?_
  obtain ⟨c₁, found⟩ := r
  rcases found with e | found
  · exact failed_quiet quiet e
  · cases found with
    | none => exact failed_quiet quiet .enoent
    | some d =>
        refine unfaulted_touch fun _ => ?_
        split
        · exact finish_quiet _ quiet
        · exact finish_quiet _ quiet

/-- The walk to the directory of a call, and the call there. -/
theorem inDirectory_quiet {α : Type} (env : Env) {ctx : Context} (sound : Mounted holders mounts)
    (placed : Placed holders mounts ctx) (inv : Inv holders mounts c extra none) (path : List Char)
    {condition : Cache → Id → Inode → Name → Prop}
    {body : Cache → Id → Inode → Name → Except Fault (Cache × Except Errno α)}
    (clean : DirectoryClean holders env ctx c path condition) (quiet : t.Quiet all holders c none)
    (gone : t.GoneIf all env)
    (after : ∀ c p dir name, Inv holders mounts c (p :: extra) none → t.Quiet all holders c none →
      (c.dentries p).dInode = some dir → condition c p dir name →
        Unfaulted (fun r => t.Quiet all holders r.1 none) (body c p dir name)) :
    Unfaulted (fun r => t.Quiet all holders r.1 none) (inDirectory env ctx c path body) := by
  unfold inDirectory
  unfold DirectoryClean at clean
  cases split : splitLastComponent path with
  | error e => exact quiet
  | ok parts =>
      obtain ⟨parent, name⟩ := parts
      rw [split] at clean
      have walk := (vfsPathLookup_spec env sound placed inv parent clean.1).clean clean.2
      refine Ends.bind (unfaulted_both walk (vfsPathLookup_quiet env sound placed inv clean.1 quiet gone))
        fun r both => ?_
      obtain ⟨c', place⟩ := r
      obtain ⟨⟨walked, clean⟩, quiet'⟩ := both
      cases place with
      | error e => exact quiet'
      | ok place =>
          obtain ⟨p, mnt⟩ := place
          have live : p ∈ c'.live := walked.1.live_of_extra List.mem_cons_self
          have inode := ((inodeOf_spec walked.1 live).clean clean).mono (fun _ h => h) fun _ _ => trivial
          refine Ends.bind inode fun dir entry => ?_
          split
          · exact failed_quiet quiet' .enotdir
          · exact after c' p dir name walked.1 quiet' entry.1 entry.2

theorem vfsOpen_quiet (env : FsEnv) {ctx : Context} (sound : Mounted holders mounts)
    (placed : Placed holders mounts ctx) (inv : Inv holders mounts c extra none) (path : List Char)
    (creat directory : Bool) (clean : PathClean holders env.toEnv ctx c path) (quiet : t.Quiet all holders c none)
    (missing : t.GoneIf all env.toEnv)
    (apart : Ends (fun r => Ends (fun _ => True) (fun e => creat = true → e = .enoent →
        DirectoryClean holders env.toEnv ctx r.1 path fun _ _ dir name => t.Apart env.create dir name) r.2)
      (fun _ => True) (vfsPathLookup env.toEnv ctx c path)) :
    Unfaulted (fun r => t.Quiet all holders r.1 none) (vfsOpen env ctx c path creat directory) := by
  have walk := (vfsPathLookup_spec env.toEnv sound placed inv path clean).clean apart
  refine Ends.bind (unfaulted_both walk (vfsPathLookup_quiet env.toEnv sound placed inv clean quiet missing))
    fun r both => ?_
  obtain ⟨c', place⟩ := r
  obtain ⟨⟨walked, apart⟩, quiet'⟩ := both
  cases place with
  | error e =>
      dsimp only
      split
      · rename_i asked
        exact inDirectory_quiet env.toEnv sound placed walked path (apart asked.1 asked.2) quiet' missing
          fun c p dir name inv quiet entry apart => createIn_quiet env inv quiet entry fun _ => apart
      · exact quiet'
  | ok place =>
      obtain ⟨d, mnt⟩ := place
      refine Ends.bind (P := fun _ => True) (Ends.of_forall (fun _ => trivial) (fun _ => trivial) _) fun inode _ => ?_
      split
      · exact failed_quiet quiet' .enotdir
      · exact Ends.bind (dentryOpen_quiet env quiet') fun r quiet => Ends.bind (dput_quiet quiet) fun c quiet => quiet

theorem vfsStat_quiet (env : Env) {ctx : Context} (sound : Mounted holders mounts)
    (placed : Placed holders mounts ctx) (inv : Inv holders mounts c extra none) {path : List Char}
    (clean : PathClean holders env ctx c path) (quiet : t.Quiet all holders c none) (gone : t.GoneIf all env) :
    Unfaulted (fun r => t.Quiet all holders r.1 none) (vfsStat env ctx c path) := by
  refine Ends.bind (vfsPathLookup_quiet env sound placed inv clean quiet gone) fun r quiet => ?_
  obtain ⟨c', place⟩ := r
  cases place with
  | error e => exact quiet
  | ok place =>
      refine unfaulted_touch fun _ => ?_
      split
      · exact failed_quiet quiet .enoent
      · exact Ends.bind (dput_quiet quiet) fun c quiet => quiet

theorem kernMount_quiet (env : FsEnv) (inv : Inv holders mounts c [] none) (quiet : t.Quiet all holders c none) :
    Unfaulted (fun r => t.Quiet all holders r.1 none) (kernMount env c) := by
  unfold kernMount
  cases env.mount with
  | error e => exact quiet
  | ok inode =>
      refine Ends.bind (dAlloc_newborn env.toEnv inv quiet none ['/']) fun r made => ?_
      obtain ⟨c₁, given⟩ := r
      cases given with
      | none => exact made
      | some root =>
          refine Ends.bind (dInstantiate_newborn made.1 inode) fun c given => ?_
          have quiet := given.1.settle fun _ named => absurd named.symm t.notRoot
          split
          · exact quiet
          · exact Ends.bind (dget_quiet quiet) fun c quiet => quiet

theorem mountOn_quiet (env : FsEnv) {s : Vfs} (good : s.Good) (task : Option Nat) {root : Id} (path : List Char)
    (inv : Inv s.holders s.mounts c [root, root] none)
    (clean : PathClean s.holders env.toEnv (s.context task) c path) (quiet : t.Quiet all s.holders c none)
    (gone : t.GoneIf all env.toEnv) :
    Unfaulted (fun r => t.Quiet all s.holders r.1.cache none) (mountOn env task s c root path) := by
  refine Ends.bind (vfsPathLookup_quiet env.toEnv good.mounted (good.placed task) inv clean quiet gone)
    fun r quiet => ?_
  obtain ⟨c', place⟩ := r
  cases place with
  | error e => exact Ends.bind (dput_quiet quiet) fun c quiet => quiet
  | ok place =>
      obtain ⟨p, up⟩ := place
      refine Ends.bind (P := fun _ => True) (Ends.of_forall (fun _ => trivial) (fun _ => trivial) _) fun inode _ => ?_
      split
      · exact Ends.bind (dput_quiet quiet) fun c quiet => Ends.bind (dput_quiet quiet) fun c quiet => quiet
      · split
        · exact Ends.bind (dput_quiet quiet) fun c quiet => Ends.bind (dput_quiet quiet) fun c quiet => quiet
        · refine Ends.bind (dget_quiet quiet) fun c quiet => ?_
          have covered := quiet.modify p (fun e => { e with dMounted := some ⟨root, p, some up⟩ }) fun _ =>
            ⟨rfl, rfl, .inl rfl⟩
          exact Ends.bind (dput_quiet covered) fun c quiet => quiet

theorem vfsDoMount_quiet (env : FsEnv) {s : Vfs} (good : s.Good) (task : Option Nat) (path : List Char)
    (clean : path ≠ ['/'] → Ends (fun r => ∀ root, r.2.1 = .ok root →
      PathClean s.holders env.toEnv (s.context task) r.1 path) (fun _ => True) (kernMount env s.cache))
    (quiet : t.Quiet all s.holders s.cache none) (gone : t.GoneIf all env.toEnv) :
    Unfaulted (fun r => t.Quiet all s.holders r.1.cache none) (vfsDoMount env task s path) := by
  have kern := kernMount_quiet env good.inv quiet
  by_cases top : path = ['/']
  · refine Ends.bind kern fun r quiet => ?_
    obtain ⟨c', ret, made⟩ := r
    cases ret with
    | error e => exact quiet
    | ok root =>
        dsimp only
        rw [if_pos top]
        exact Ends.bind (dget_quiet quiet) fun c quiet => quiet
  · refine Ends.bind (unfaulted_both ((kernMount_spec env good.inv).clean (clean top)) kern) fun r both => ?_
    obtain ⟨c', ret, made⟩ := r
    obtain ⟨⟨mounted, clean⟩, quiet⟩ := both
    cases ret with
    | error e => exact quiet
    | ok root =>
        dsimp only
        rw [if_neg top]
        exact mountOn_quiet env good task path mounted (clean root rfl) quiet gone

theorem fdChdir_quiet (env : Env) {s : Vfs} (good : s.Good) (task : Option Nat) (path : List Char)
    (clean : PathClean s.holders env (s.context task) s.cache path) (quiet : t.Quiet all s.holders s.cache none)
    (gone : t.GoneIf all env) :
    Unfaulted (fun r => t.Quiet all s.holders r.1.cache none) (fdChdir env task s path) := by
  cases task with
  | none => exact quiet
  | some k =>
      refine Ends.bind (vfsPathLookup_quiet env good.mounted (good.placed (some k)) good.inv clean quiet gone)
        fun r quiet => ?_
      obtain ⟨c', place⟩ := r
      cases place with
      | error e => exact quiet
      | ok place =>
          refine Ends.bind (P := fun _ => True) (Ends.of_forall (fun _ => trivial) (fun _ => trivial) _)
            fun inode _ => ?_
          split
          · exact Ends.bind (dput_quiet quiet) fun c quiet => quiet
          · cases s.cwds.lookup k with
            | none => exact quiet
            | some was => exact Ends.bind (dput_quiet quiet) fun c quiet => quiet

/-- **A call that does not make the entry** brings no dentry of it. -/
theorem perform_quiet {s : Vfs} (good : s.Good) {a : Action} (clean : Clean s a) (spared : t.Spared s a)
    (gone : ∀ inode, a.env.lookup t.ino t.name ≠ .ok (some inode)) (quiet : t.Quiet True s.holders s.cache none) :
    Unfaulted (fun s' => t.Quiet True s.holders s'.cache none) (perform s a) := by
  obtain ⟨env, task, call⟩ := a
  have sound := good.mounted
  have placed := good.placed task
  have missing : t.GoneIf True env.toEnv := fun _ => gone
  cases call with
  | lookup path =>
      refine Ends.bind (vfsPathLookup_quiet env.toEnv sound placed good.inv clean quiet missing) fun r quiet => ?_
      obtain ⟨c', place⟩ := r
      cases place with
      | error e => exact quiet
      | ok place => exact quiet
  | release i =>
      show Unfaulted _ (releasePath s i)
      unfold releasePath
      split
      · exact quiet
      · exact Ends.bind (dput_quiet quiet) fun c quiet => quiet
  | openFile path creat directory =>
      refine Ends.bind (vfsOpen_quiet env sound placed good.inv path creat directory clean.1 quiet missing spared)
        fun r quiet => ?_
      obtain ⟨c', opened⟩ := r
      cases opened with
      | error e => exact quiet
      | ok d => exact quiet
  | close i =>
      show Unfaulted _ (vfsClose s i)
      unfold vfsClose
      split
      · exact quiet
      · split
        · exact Ends.bind (dput_quiet quiet) fun c quiet => quiet
        · exact quiet
  | stat path =>
      exact Ends.bind (vfsStat_quiet env.toEnv sound placed good.inv clean quiet missing) fun r quiet => quiet
  | mkdir path =>
      have apart : DirectoryClean s.holders env.toEnv (s.context task) s.cache path fun _ _ dir name =>
        t.Apart env.mkdir dir name := spared
      refine Ends.bind (inDirectory_quiet env.toEnv sound placed good.inv path apart quiet missing ?_) fun r quiet =>
        quiet
      exact fun c p dir name inv quiet entry apart => mkdirIn_quiet env inv quiet entry fun _ => apart
  | unlink path =>
      have clean : DirectoryClean s.holders env.toEnv (s.context task) s.cache path fun _ _ _ _ => True := clean
      refine Ends.bind (inDirectory_quiet env.toEnv sound placed good.inv path clean quiet missing ?_) fun r quiet =>
        quiet
      exact fun c p dir name inv quiet _ _ => removeIn_quiet env.toEnv _ inv quiet missing dir name
  | rmdir path =>
      have clean : DirectoryClean s.holders env.toEnv (s.context task) s.cache path fun _ _ _ _ => True := clean
      refine Ends.bind (inDirectory_quiet env.toEnv sound placed good.inv path clean quiet missing ?_) fun r quiet =>
        quiet
      exact fun c p dir name inv quiet _ _ => removeIn_quiet env.toEnv _ inv quiet missing dir name
  | chdir path => exact Ends.bind (fdChdir_quiet env.toEnv good task path clean.1 quiet missing) fun r quiet => quiet
  | mount path => exact Ends.bind (vfsDoMount_quiet env good task path clean quiet missing) fun r quiet => quiet

/-! ## A later lookup -/

theorem lookupFrom_named (c : Cache) (p : Id) (name : Name) (fuel : Nat) (node : Node) :
    Unfaulted (fun r => ∀ x, r = some x → (c.dentries x).dName = name) (lookupFrom c p name fuel node) := by
  induction fuel generalizing node with
  | zero => exact trivial
  | succ fuel ih =>
      unfold lookupFrom
      split
      · rintro x ⟨⟩
      · refine unfaulted_touch fun _ => ?_
        split
        · rename_i named
          rintro x ⟨⟩
          exact named
        · exact ih _

theorem dLookup_named (c : Cache) (p : Id) (name : Name) :
    Unfaulted (fun r => ∀ d, r.2 = some d → (r.1.dentries d).dName = name) (dLookup c p name) := by
  refine unfaulted_touch fun _ => Ends.bind (lookupFrom_named ..) fun found named => ?_
  cases found with
  | none => exact fun d => nofun
  | some d =>
      refine Ends.bind (P := fun c' => (c'.dentries d).dName = name) (unfaulted_touch fun _ => ?_) fun c' named => ?_
      · show ((c.modify d _).dentries d).dName = name
        rw [modify_self]
        exact named d rfl
      · rintro d' ⟨⟩
        exact named

theorem dAlloc_named (env : Env) (c : Cache) (p : Id) (name : Name) :
    Unfaulted (fun r => ∀ d, r.2 = some d → (r.1.dentries d).dName = name.take 63) (dAlloc env c (some p) name) := by
  unfold dAlloc
  split
  · exact fun d => nofun
  · rename_i d given
    refine Ends.bind (P := fun c' => (c'.dentries d).dName = name.take 63)
      (unfaulted_touch fun _ => unfaulted_touch fun _ => ?_) fun c' named => ?_
    · show ((c.insert d p name).dentries d).dName = _
      rw [insert_self]
    · rintro d' ⟨⟩
      exact named

/-- `lookup_one_len` gives a dentry with the name. -/
theorem lookupOneLen_named (env : Env) (c : Cache) (name : Name) (p : Id) :
    Unfaulted (fun r => ∀ d, r.2 = .ok (some d) → (r.1.dentries d).dName = name.take 63) (lookupOneLen env c name p) := by
  refine Ends.bind (dLookup_named c p (name.take 63)) fun r named => ?_
  obtain ⟨c₁, found⟩ := r
  cases found with
  | some d =>
      rintro d' ⟨⟩
      exact named d rfl
  | none =>
      refine Ends.bind (dAlloc_named env c₁ p (name.take 63)) fun r named => ?_
      obtain ⟨c₂, made⟩ := r
      cases made with
      | none => exact fun d => nofun
      | some d =>
          have whole : (c₂.dentries d).dName = name.take 63 := by
            have taken := named d rfl
            rwa [List.take_take, Nat.min_self] at taken
          have ends (c : Cache) (r : Except Errno (Option Id)) (none_ : ∀ d, r ≠ .ok (some d)) :
              Unfaulted (fun r => ∀ d, r.2 = .ok (some d) → (r.1.dentries d).dName = name.take 63) (do
                let c ← dput c d
                .ok (c, r)) :=
            Ends.bind (P := fun _ => True) (Ends.of_forall (fun _ => trivial) (fun _ => trivial) _)
              fun c _ d same => absurd same (none_ d)
          refine unfaulted_touch fun _ => ?_
          split
          · rintro d' ⟨⟩
            exact whole
          · split
            · exact ends c₂ _ fun d => nofun
            · exact ends c₂ _ fun d => nofun
            · refine Ends.bind (P := fun c' => (c'.dentries d).dName = name.take 63) (unfaulted_touch fun _ => ?_)
                fun c' named => ?_
              · show ((c₂.modify d _).dentries d).dName = name.take 63
                rw [modify_self]
                exact whole
              · rintro d' ⟨⟩
                exact named

/-- `lookup_one_len` of the entry, when no dentry of it is there. -/
theorem lookupOneLen_gone (env : Env) (inv : Inv holders mounts c (p :: extra) none)
    (quiet : t.Quiet True holders c none) {dir : Inode} (entry : (c.dentries p).dInode = some dir)
    (ino : dir.iNo = t.ino) (short : t.name.length ≤ 63) (memory : env.alloc c.allocs c.live ≠ none)
    (answer : env.lookup t.ino t.name = .ok none) :
    Safe (fun r => r.2 = .ok none ∧ Inv holders mounts r.1 (p :: extra) none) (lookupOneLen env c t.name p) := by
  have live : p ∈ c.live := inv.live_of_extra List.mem_cons_self
  have whole : t.name.take 63 = t.name := List.take_of_length_le short
  obtain ⟨children, rings⟩ := inv.rings
  have none_ : dLookup c p t.name = .ok (c, none) := by
    obtain ⟨r, run, within⟩ := (rings.lookupFrom live t.name).returns
    have named : Unfaulted _ _ := lookupFrom_named c p t.name (c.live.length + 1) (c.links.next (.subdirs p))
    rw [run] at named
    rw [dLookup, touch, if_pos live, ok_bind, run, ok_bind]
    cases r with
    | none => rfl
    | some x =>
        obtain ⟨inside, parent, -⟩ := within x rfl
        exact absurd ⟨named x rfl, dir, parent ▸ entry, ino⟩ (quiet x inside (by simp) (.inl trivial))
  obtain ⟨d, given⟩ := Option.ne_none_iff_exists'.1 memory
  have free := env.fresh _ _ _ given
  unfold lookupOneLen
  dsimp only
  rw [whole, none_, ok_bind]
  obtain ⟨⟨c₂, made⟩, run, allocated⟩ := (dAlloc_spec env inv live t.name).returns
  have newborn : Unfaulted _ _ := dAlloc_newborn env inv quiet (some p) t.name
  rw [run] at newborn
  cases made with
  | none =>
      rw [dAlloc, given] at run
      obtain ⟨_, -, never⟩ := bind_eq_ok.1 run
      cases never
  | some d' =>
      obtain ⟨-, fresh, -⟩ := allocated
      have same : (c₂.dentries p).dInode = (c.dentries p).dInode := newborn.2 p live
      have there : p ∈ c₂.live := by
        rw [fresh.inv.live_iff]
        simp
      dsimp only
      rw [run, ok_bind]
      refine touch_bind there ?_
      rw [same, entry]
      dsimp only
      rw [ino, answer]
      exact Ends.bind fresh.discard fun c inv => ⟨rfl, inv⟩

/-- The last step of a walk to the entry. -/
theorem followStep_gone (env : Env) (inv : Inv holders mounts c (p :: extra) none)
    (quiet : t.Quiet True holders c none) {dir : Inode} (entry : (c.dentries p).dInode = some dir)
    (isDir : dir.isDir = true) (ino : dir.iNo = t.ino) (short : t.name.length ≤ 63)
    (dots : t.name ≠ ['.'] ∧ t.name ≠ ['.', '.']) (memory : env.alloc c.allocs c.live ≠ none)
    (answer : env.lookup t.ino t.name = .ok none) :
    Safe (fun r => r.2 = .error .enoent) (followStep env c p mnt t.name) := by
  refine touch_bind (inv.live_of_extra List.mem_cons_self) ?_
  rw [entry]
  dsimp only
  rw [isDir, if_neg (by decide), if_neg dots.1, if_neg dots.2]
  refine Ends.bind (lookupOneLen_gone env inv quiet entry ino short memory answer) fun r looked => ?_
  obtain ⟨c₁, found⟩ := r
  obtain ⟨rfl, inv₁⟩ := looked
  exact (failed_spec inv₁ .enoent).mono (fun _ h => h.2) fun _ h => h

/-! ## The path -/

/-- The path `d/name`, of a name that `split_last_component` and `follow_path` take whole. -/
structure Ordinary (d : List Char) (name : Name) : Prop where
  free : '/' ∉ name
  nonempty : name ≠ []
  short : name.length ≤ 63
  dots : name ≠ ['.'] ∧ name ≠ ['.', '.']
  whole : (join d name).length < 256

/-- The path of the directory. -/
def front (d : List Char) : List Char := if d = [] then ['/'] else d

def Ordinary.entry {d : List Char} {name : Name} (ordinary : Ordinary d name) (ino : Nat) : Entry :=
  ⟨ino, name, fun same => ordinary.free (same ▸ List.mem_singleton_self '/')⟩

theorem componentsFrom_free (comp : Name) {l : List Char} (free : '/' ∉ l) (short : comp.length + l.length ≤ 63) :
    componentsFrom comp l = if comp ++ l = [] then [] else [comp ++ l] := by
  induction l generalizing comp with
  | nil => rw [componentsFrom, List.append_nil]
  | cons ch l ih =>
      have length : comp.length + (l.length + 1) ≤ 63 := short
      have other : ch ≠ '/' := fun same => free (same ▸ List.mem_cons_self)
      rw [componentsFrom, if_neg other, if_neg (by omega),
        ih (comp ++ [ch]) (fun inside => free (List.mem_cons_of_mem ch inside)) (by simp; omega)]
      simp

theorem Ordinary.components {d : List Char} {name : Name} (ordinary : Ordinary d name) :
    components (join d name) = Dcache.components (front d) ++ [name] := by
  have single : Dcache.components name = [name] := by
    rw [Dcache.components, componentsFrom_free [] ordinary.free (by simpa using ordinary.short), List.nil_append,
      if_neg ordinary.nonempty]
  rw [components_join, single]
  unfold front
  split
  · rename_i empty
    rw [empty]
    rfl
  · rfl

theorem Context.start_front (ctx : Context) (d : List Char) (name : Name) :
    ctx.start (join d name) = ctx.start (front d) := by
  have head : (join d name).head? = (front d).head? := by
    unfold front
    cases d with
    | nil => rfl
    | cons ch d => rfl
  unfold Context.start
  rw [head]

theorem WalkClean.front (env : Env) {comps rest : List Name}
    (clean : WalkClean holders env (comps ++ rest) c d mnt) : WalkClean holders env comps c d mnt := by
  induction comps generalizing c d mnt with
  | nil => trivial
  | cons comp comps ih =>
      exact ⟨clean.1, clean.2.mono (fun r place => place.mono (fun _ walk => ih walk) fun _ h => h) fun _ h => h⟩

/-- **A later lookup of the entry** fails with `ENOENT`. -/
theorem lookup_gone (env : Env) {ctx : Context} (sound : Mounted holders mounts) (placed : Placed holders mounts ctx)
    (inv : Inv holders mounts c [] none) (quiet : t.Quiet True holders c none) {path : List Char}
    (ordinary : Ordinary path t.name) (clean : PathClean holders env ctx c (join path t.name))
    (gone : t.GoneIf True env) (memory : ∀ n live, env.alloc n live ≠ none)
    (answer : env.lookup t.ino t.name = .ok none) {dir : Inode} (isDir : dir.isDir = true) (ino : dir.iNo = t.ino)
    (walk : vfsPathLookup env ctx c (front path) = .ok (c', .ok (p, mnt))) (entry : (c'.dentries p).dInode = some dir) :
    ∃ c'', vfsPathLookup env ctx c (join path t.name) = .ok (c'', .error .enoent) := by
  unfold vfsPathLookup followPath at walk ⊢
  unfold PathClean at clean
  rw [ctx.start_front] at clean ⊢
  cases start : ctx.start (front path) with
  | none =>
      rw [start] at walk
      cases walk
  | some place =>
      obtain ⟨d, top⟩ := place
      obtain ⟨held, inside⟩ := start_placed sound placed start
      rw [start] at walk clean
      dsimp only at walk clean ⊢
      obtain ⟨c₀, got, inv₀⟩ := (dget_spec inv (inv.live_of_holder held)).returns
      have quiet₀ : Unfaulted (fun c => t.Quiet True holders c none) (dget c d) := dget_quiet quiet
      rw [got] at quiet₀ clean
      rw [got, ok_bind] at walk ⊢
      rw [ordinary.components] at clean ⊢
      have before : WalkClean holders env (components (front path)) c₀ d top := WalkClean.front env clean
      have walked := followLoop_spec env sound (components (front path)) c₀ d top inv₀ inside before
      have quiet' := followLoop_quiet env sound gone (components (front path)) inv₀ inside before quiet₀
      rw [walk] at walked quiet'
      rcases follow_append env (components (front path)) [t.name] c₀ d top with
        ⟨_, _, _, run, -, whole⟩ | ⟨never, -⟩
      · cases walk.symm.trans run
        rw [whole]
        have step : Safe (fun r => r.2 = .error .enoent) (followStep env c' p mnt t.name) :=
          followStep_gone env walked.1 quiet' entry isDir ino ordinary.short ordinary.dots (memory _ _) answer
        obtain ⟨⟨c₂, r⟩, last, rfl⟩ := step.returns
        refine ⟨c₂, ?_⟩
        rw [followLoop, last, ok_bind]
      · exact absurd walk (never c' (p, mnt))

end Quiet

/-! ## A removed name -/

inductive Removal where
  | unlink
  | rmdir

def Removal.call (path : List Char) : Removal → Call
  | .unlink => .unlink path
  | .rmdir => .rmdir path

def Removal.run (env : FsEnv) (ctx : Context) (c : Cache) (path : List Char) :
    Removal → Except Fault (Cache × Except Errno Unit)
  | .unlink => vfsDoUnlink env ctx c path
  | .rmdir => vfsDoRmdir env ctx c path

/-- No dentry of the entry is in the cache. Between two calls that is, nobody refers to one. -/
def Entry.Absent (t : Entry) (c : Cache) : Prop := ∀ x ∈ c.live, ¬ t.Of c x

/-- The entry is neither on disk nor in the cache. -/
def Entry.Removed (t : Entry) (v : Vfs × Directories) : Prop := v.1.Good ∧ t.Absent v.1.cache ∧ t.Gone v.2

/-- Calls that are clean and do not make the name. -/
def Entry.calls (t : Entry) : Machine (Vfs × Directories) (Action × Nat) :=
  volumeMachine.guard fun v a => Clean v.1 (a.1.on v.2) ∧ t.Spared v.1 (a.1.on v.2)

/-- From here on, and as long as no call makes the name again, each lookup of it that
comes to the directory fails with `ENOENT`, if there is memory and the directory can be read. -/
def StaysGone (v : Vfs × Directories) (t : Entry) (dir : Inode) (d : List Char) : Prop :=
  ∀ actions, t.calls.Admits v actions → ∀ (env : FsEnv) (task : Option Nat),
    let v' := volumeMachine.run v actions
    let s' := v'.1
    let env := env.on v'.2
    let lookup path := vfsPathLookup env.toEnv (s'.context task) s'.cache path
    PathClean s'.holders env.toEnv (s'.context task) s'.cache (join d t.name) →
      (∃ found, env.lookup t.ino t.name = .ok found) → (∀ n live, env.alloc n live ≠ none) →
        ∀ c p mnt, lookup (front d) = .ok (c, .ok (p, mnt)) → (c.dentries p).dInode = some dir →
          ∃ c', lookup (join d t.name) = .ok (c', .error .enoent)

section Removed

variable {t : Entry} {s s' : Vfs} {c c' : Cache} {d : List Char} {name : Name} {dir : Inode} {env : FsEnv}
  {task : Option Nat} {p : Id} {mnt : Vfsmount}

theorem Entry.Absent.quiet (absent : t.Absent c) (all : Prop) (holders : List Id) : t.Quiet all holders c none :=
  fun x inside _ _ => absent x inside

/-- Between two calls every dentry is held. -/
theorem Vfs.Good.absent (good : s.Good) {all : Prop} (quiet : t.Quiet all s.holders s.cache none) :
    t.Absent s.cache := by
  intro x inside
  have held : x ∈ s.holders ++ [] := (good.inv.live_iff x).1 inside
  rw [List.append_nil] at held
  exact quiet x inside (by simp) (.inr held)

theorem step_of_perform {a : Action} (performed : perform s a = .ok s') : step s a = s' := by
  unfold step
  rw [performed]

theorem step_absent (good : s.Good) {a : Action} (clean : Clean s a) (spared : t.Spared s a)
    (gone : ∀ inode, a.env.lookup t.ino t.name ≠ .ok (some inode)) (absent : t.Absent s.cache) :
    t.Absent (step s a).cache := by
  have quiet := perform_quiet good clean spared gone (absent.quiet True s.holders)
  unfold step
  cases result : perform s a with
  | ok s' =>
      rw [result] at quiet
      exact fun x inside => quiet x inside (by simp) (.inl trivial)
  | error f => exact absent

/-- What is removed was in a directory. -/
theorem Removal.isDir (kind : Removal) (ordinary : Ordinary d name)
    (removed : kind.run env (s.context task) s.cache (join d name) = .ok (c', .ok ()))
    (walk : vfsPathLookup env.toEnv (s.context task) s.cache (front d) = .ok (c, .ok (p, mnt)))
    (entry : (c.dentries p).dInode = some dir) : dir.isDir = true := by
  have split := splitLastComponent_join ordinary.free ordinary.whole
  have within {body : Cache → Id → Inode → Name → Except Fault (Cache × Except Errno Unit)}
      (run : inDirectory env.toEnv (s.context task) s.cache (join d name) body = .ok (c', .ok ())) :
      dir.isDir = true := by
    unfold inDirectory at run
    rw [split] at run
    dsimp only at run
    rw [show (if d = [] then ['/'] else d) = front d from rfl, walk, ok_bind] at run
    dsimp only at run
    obtain ⟨dir', there, run⟩ := bind_eq_ok.1 run
    unfold inodeOf at there
    obtain ⟨_, -, there⟩ := bind_eq_ok.1 there
    rw [entry] at there
    cases there
    by_contra file
    rw [if_pos (by simpa using file)] at run
    obtain ⟨_, -, never⟩ := bind_eq_ok.1 run
    cases never
  cases kind with
  | unlink => exact within removed
  | rmdir => exact within removed

/-- The file system's operation of the removal, on an inode. -/
def Removal.change (dir : Inode) (name : Name) (inode : Inode) : Removal → Change
  | .unlink => .unlink dir name inode
  | .rmdir => .rmdir dir name inode

/-- A removal that returns 0 has deleted a record of the name. -/
theorem Removal.changed (kind : Removal) (ordinary : Ordinary d name)
    (removed : kind.run env (s.context task) s.cache (join d name) = .ok (c', .ok ()))
    (walk : vfsPathLookup env.toEnv (s.context task) s.cache (front d) = .ok (c, .ok (p, mnt)))
    (entry : (c.dentries p).dInode = some dir) :
    ∃ inode, Dcache.change s ⟨env, task, kind.call (join d name)⟩ = some (kind.change dir name inode) := by
  have parts := splitLastComponent_join ordinary.free ordinary.whole
  rw [show name.take 63 = name from List.take_of_length_le ordinary.short] at parts
  have within {remove : Inode → Inode → Name → Except Errno Unit} (form : Inode → Name → Inode → Change)
      (run : inDirectory env.toEnv (s.context task) s.cache (join d name) (removeIn env.toEnv remove) =
        .ok (c', .ok ())) :
      ∃ inode, changeIn env (s.context task) s.cache (join d name) (removedIn env remove form) =
        some (form dir name inode) := by
    obtain ⟨parent, n, c₁, q, up, dir', split, there, at_, isDir, run⟩ := inDirectory_ok run
    rw [parts] at split
    cases split
    cases there.symm.trans (show vfsPathLookup env.toEnv (s.context task) s.cache (front d) = _ from walk)
    have same : dir' = dir := by
      unfold inodeOf at at_
      obtain ⟨_, -, at_⟩ := bind_eq_ok.1 at_
      rw [entry] at at_
      cases at_
      rfl
    subst same
    obtain ⟨c₂, x, inode, looked, kept, done⟩ := removeIn_ok run
    have named : Unfaulted _ _ := lookupOneLen_named env.toEnv c name p
    rw [looked] at named
    have named := (named x rfl).trans (List.take_of_length_le ordinary.short)
    refine ⟨inode, ?_⟩
    unfold changeIn
    rw [inDirectory_eq parts walk at_ isDir]
    unfold removedIn
    rw [looked, ok_bind]
    dsimp only
    rw [kept]
    dsimp only
    rw [named] at done ⊢
    rw [done]
    rfl
  cases kind with
  | unlink => exact within .unlink removed
  | rmdir => exact within .rmdir removed

/-- The state after the removal. -/
theorem Removal.perform (kind : Removal) {path : List Char}
    (removed : kind.run env (s.context task) s.cache path = .ok (c', .ok ())) :
    Dcache.perform s ⟨env, task, kind.call path⟩ = .ok { s with cache := c' } := by
  cases kind with
  | unlink =>
      show (vfsDoUnlink env (s.context task) s.cache path >>= _) = _
      rw [show vfsDoUnlink env (s.context task) s.cache path = .ok (c', .ok ()) from removed, ok_bind]
  | rmdir =>
      show (vfsDoRmdir env (s.context task) s.cache path >>= _) = _
      rw [show vfsDoRmdir env (s.context task) s.cache path = .ok (c', .ok ()) from removed, ok_bind]

theorem Removal.after (kind : Removal) (good : s.Good) {path : List Char}
    (clean : Clean s ⟨env, task, kind.call path⟩)
    (removed : kind.run env (s.context task) s.cache path = .ok (c', .ok ())) (absent : t.Absent s.cache) :
    step s ⟨env, task, kind.call path⟩ = { s with cache := c' } ∧ ({ s with cache := c' } : Vfs).Good ∧
      t.Absent c' := by
  have safe := perform_good good ⟨env, task, kind.call path⟩ clean
  have performed := kind.perform removed
  rw [performed] at safe
  replace safe : ({ s with cache := c' } : Vfs).Good := safe
  have removed_quiet : t.Quiet False s.holders c' none → t.Absent c' := fun quiet => safe.absent quiet
  refine ⟨step_of_perform performed, safe, removed_quiet ?_⟩
  have quiet := absent.quiet False s.holders
  have within {body : Cache → Id → Inode → Name → Except Fault (Cache × Except Errno Unit)}
      (clean : DirectoryClean s.holders env.toEnv (s.context task) s.cache path fun _ _ _ _ => True)
      (after : ∀ c p dir name, Inv s.holders s.mounts c [p] none → t.Quiet False s.holders c none →
        (c.dentries p).dInode = some dir → True → Unfaulted (fun r => t.Quiet False s.holders r.1 none)
          (body c p dir name))
      (run : inDirectory env.toEnv (s.context task) s.cache path body = .ok (c', .ok ())) :
      t.Quiet False s.holders c' none := by
    have quiet := inDirectory_quiet env.toEnv good.mounted (good.placed task) good.inv path clean quiet False.elim after
    rw [run] at quiet
    exact quiet
  cases kind with
  | unlink =>
      refine within clean (fun c p dir name inv quiet _ _ => ?_) removed
      exact removeIn_quiet env.toEnv _ inv quiet False.elim dir name
  | rmdir =>
      refine within clean (fun c p dir name inv quiet _ _ => ?_) removed
      exact removeIn_quiet env.toEnv _ inv quiet False.elim dir name

/-- A lookup of a name that the directory does not have finds none. -/
theorem on_lookup_gone {dirs : Directories} (gone : t.Gone dirs) (inode : Inode) :
    (env.on dirs).lookup t.ino t.name ≠ .ok (some inode) := by
  show (env.lookup t.ino t.name).map (fun _ => (dirs t.ino).lookup t.name) ≠ _
  rw [gone.lookup]
  cases env.lookup t.ino t.name with
  | error e => exact nofun
  | ok found => exact nofun

/-- A call that does not make the name changes the directories so. -/
theorem change_spared {a : Action} (spared : t.Spared s a) {ch : Change} (changed : change s a = some ch) :
    ¬ ch.Makes t.ino t.name := by
  obtain ⟨env, task, call⟩ := a
  have made {c : Cache} {path : List Char} {make : Nat → Name → Except Errno Inode} {form : Inode → Name → Inode → Change}
      (clean : DirectoryClean s.holders env.toEnv (s.context task) c path fun _ _ dir name => t.Apart make dir name)
      (changed : changeIn env (s.context task) c path (madeIn env make form) = some ch) :
      ∃ dir name inode, ch = form dir name inode ∧ ¬ (dir.iNo = t.ino ∧ name = t.name) := by
    obtain ⟨c', run⟩ := changeIn_some changed
    obtain ⟨parent, name, c₁, p, mnt, dir, split, walk, entry, -, run⟩ := inDirectory_ok run
    obtain ⟨inode, result, rfl⟩ := madeIn_ok run
    exact ⟨dir, name.take 63, inode, rfl, fun here => clean.body split walk entry here.1 here.2 inode result⟩
  have removed {path : List Char} {remove : Inode → Inode → Name → Except Errno Unit}
      {form : Inode → Name → Inode → Change}
      (changed : changeIn env (s.context task) s.cache path (removedIn env remove form) = some ch) :
      ∃ dir name inode, ch = form dir name inode := by
    obtain ⟨c', run⟩ := changeIn_some changed
    obtain ⟨parent, name, c₁, p, mnt, dir, -, -, -, -, run⟩ := inDirectory_ok run
    exact ⟨dir, removedIn_form run⟩
  cases call with
  | openFile path creat directory =>
      cases creat with
      | false => cases changed
      | true =>
          unfold change at changed
          unfold Entry.Spared at spared
          dsimp only at changed spared
          cases walk : vfsPathLookup env.toEnv (s.context task) s.cache path with
          | error f =>
              rw [walk] at changed
              cases changed
          | ok r =>
              rw [walk] at changed spared
              obtain ⟨c₁, place⟩ := r
              rcases place with e | place
              · by_cases missing : e = .enoent
                · subst missing
                  obtain ⟨dir, name, inode, rfl, apart⟩ := made (spared rfl rfl) changed
                  exact apart
                · cases e with
                  | enoent => exact absurd rfl missing
                  | _ => cases changed
              · cases changed
  | mkdir path =>
      obtain ⟨dir, name, inode, rfl, apart⟩ := made spared changed
      exact apart
  | unlink path =>
      obtain ⟨dir, name, inode, rfl⟩ := removed changed
      exact id
  | rmdir path =>
      obtain ⟨dir, name, inode, rfl⟩ := removed changed
      exact id
  | _ => cases changed

/-- **A removed entry** stays removed. -/
theorem step_removed {v : Vfs × Directories} {a : Action × Nat} (dots : t.name ≠ ['.'] ∧ t.name ≠ ['.', '.'])
    (removed : t.Removed v) (clean : Clean v.1 (a.1.on v.2)) (spared : t.Spared v.1 (a.1.on v.2)) :
    t.Removed (volumeStep v a) := by
  obtain ⟨good, absent, gone⟩ := removed
  refine ⟨step_good good clean, step_absent good clean spared (on_lookup_gone gone) absent, ?_⟩
  show t.Gone ((change v.1 (a.1.on v.2)).elim v.2 (v.2.after a.2))
  cases changed : change v.1 (a.1.on v.2) with
  | none => exact gone
  | some ch => exact gone.after a.2 dots (change_spared spared changed)

/-- **Nobody referred to the name**, and it was there once: so it stays gone. -/
theorem staysGone {dirs : Directories} (removed : t.Removed (s, dirs)) (ordinary : Ordinary d t.name)
    (isDir : dir.isDir = true) (ino : dir.iNo = t.ino) : StaysGone (s, dirs) t dir d := by
  intro actions admitted env task v' s' env' lookup clean readable memory c p mnt walk entry
  have run : t.Removed v' := by
    have kept := Machine.run_invariant t.calls (I := t.Removed)
      (fun v a removed enabled => step_removed ordinary.dots removed enabled.2.1 enabled.2.2) removed admitted
    rwa [Entry.calls, Machine.guard_run] at kept
  obtain ⟨good, absent, gone⟩ := run
  obtain ⟨found, answer⟩ := readable
  cases found with
  | some inode => exact absurd answer (on_lookup_gone gone inode)
  | none =>
      exact lookup_gone env'.toEnv good.mounted (good.placed task) good.inv (absent.quiet True _) ordinary clean
        (fun _ => on_lookup_gone gone) memory answer isDir ino walk entry

/-! ### A dentry that stays -/

theorem Leads.split {c : Cache} {w : Id} {m : Vfsmount} {comps rest : List Name} {x : Id} {top : Vfsmount}
    (leads : Leads c (IsDir c) w m x top (comps ++ rest)) :
    ∃ p up, Leads c (IsDir c) p up x top comps ∧ Leads c (IsDir c) w m p up rest := by
  induction comps generalizing x top with
  | nil => exact ⟨x, top, .here, leads⟩
  | cons comp comps ih =>
      cases leads with
      | dot kept isDir leads =>
          obtain ⟨p, up, before, after⟩ := ih leads
          exact ⟨p, up, .dot kept isDir before, after⟩
      | up kept isDir out parent leads =>
          obtain ⟨p, up, before, after⟩ := ih leads
          exact ⟨p, up, .up kept isDir out parent before, after⟩
      | down kept isDir child cached found root leads =>
          obtain ⟨p, up, before, after⟩ := ih leads
          exact ⟨p, up, .down kept isDir child cached found root before, after⟩

/-- A walk through the cache loads nothing. -/
theorem WalkClean.of_leads (holders : List Id) (env : Env) {c : Cache} {w x : Id} {m top : Vfsmount}
    {comps : List Name} (leads : Leads c (IsDir c) w m x top comps) :
    WalkClean holders env comps (c.bump x 1) x top := by
  induction leads with
  | here => trivial
  | dot kept isDir _ ih =>
      refine ⟨fun _ other => absurd rfl other, ?_⟩
      rw [followStep_dir env _ kept isDir, if_pos rfl]
      exact ih
  | up kept isDir out parent _ ih =>
      refine ⟨fun _ _ other => absurd rfl other, ?_⟩
      rw [followStep_dir env _ kept isDir, if_neg (by decide), if_pos rfl, stepUp_eq kept out parent]
      exact ih
  | @down d x mnt comp rest kept isDir child cached found root _ ih =>
      refine ⟨fun _ _ _ => ?_, ?_⟩
      · rw [lookupOneLen, dLookup_cached kept found cached, ok_bind]
        rintro next ⟨⟩
        exact .inl found.live
      · rw [followStep_dir env _ kept isDir, if_neg child.1, if_neg child.2, stepDown_eq env kept found cached root]
        exact ih

/-- A call in a directory that finds the name in the cache gives up what it took. -/
theorem removeIn_cached (env : Env) (remove : Inode → Inode → Name → Except Errno Unit) {x : Id} {r : Except Errno Unit}
    (kept : Kept c p) (found : Kept c x) (cached : Cached c p (name.take 63) x)
    (run : removeIn env remove (c.bump p 1) p dir name = .ok (c', r)) : c' = c := by
  have looked : lookupOneLen env (c.bump p 1) name p = .ok ((c.bump p 1).bump x 1, .ok (some x)) := by
    rw [lookupOneLen, dLookup_cached kept found cached, ok_bind]
  have back (ret : Except Errno Unit) : finish ((c.bump p 1).bump x 1) x p ret = .ok (c, ret) := by
    have more : 2 ≤ ((c.bump p 1).dentries p).dCount := by
      have held := kept.held
      rw [bump_self]
      show 2 ≤ (c.dentries p).dCount + 1
      omega
    rw [finish, bump_comm, dput_behind found, ok_bind, dput_eq (c := c.bump p 1) kept.live more, ok_bind, bump_bump,
      Int.add_right_neg, bump_zero]
  rw [removeIn, looked, ok_bind] at run
  dsimp only at run
  rw [touch, if_pos (show x ∈ ((c.bump p 1).bump x 1).live from found.live), ok_bind] at run
  split at run
  · rw [back] at run
    cases run
    rfl
  · rw [back] at run
    cases run
    rfl

/-- Where the path leads in the cache, its directory and the last step. -/
theorem Resolves.last {w : Id} {m : Vfsmount} (ordinary : Ordinary d name)
    (resolves : Resolves s task (join d name) w m) :
    ∃ q up x, Resolves s task (front d) q up ∧ Kept s.cache q ∧ IsDir s.cache q ∧ Kept s.cache x ∧
      Cached s.cache q (name.take 63) x := by
  obtain ⟨root, top, start, kept, leads⟩ := resolves
  rw [ordinary.components] at leads
  rw [(s.context task).start_front] at start
  obtain ⟨q, up, before, last⟩ := leads.split
  cases last with
  | dot => exact absurd rfl ordinary.dots.1
  | up => exact absurd rfl ordinary.dots.2
  | down keptQ isDir child cached found _ leads =>
      exact ⟨q, up, _, ⟨root, top, start, kept, before⟩, keptQ, isDir, found, cached⟩

/-- The removal leaves the cache as it was, so that the dentry is still there. -/
theorem Removal.served (kind : Removal) (ordinary : Ordinary d name) {w : Id} {m : Vfsmount}
    (resolves : Resolves s task (join d name) w m)
    (removed : kind.run env (s.context task) s.cache (join d name) = .ok (c', .ok ())) : c' = s.cache := by
  obtain ⟨q, up, x, toFront, kept, isDir, found, cached⟩ := resolves.last ordinary
  have split := splitLastComponent_join ordinary.free ordinary.whole
  have within {remove : Inode → Inode → Name → Except Errno Unit}
      (run : inDirectory env.toEnv (s.context task) s.cache (join d name) (removeIn env.toEnv remove) =
        .ok (c', .ok ())) : c' = s.cache := by
    unfold inDirectory at run
    rw [split] at run
    dsimp only at run
    rw [show (if d = [] then ['/'] else d) = front d from rfl, toFront.walk env.toEnv, ok_bind] at run
    dsimp only at run
    obtain ⟨dir, -, run⟩ := bind_eq_ok.1 run
    split at run
    · obtain ⟨_, -, never⟩ := bind_eq_ok.1 run
      cases never
    · rw [show name.take 63 = name from List.take_of_length_le ordinary.short] at run cached
      exact removeIn_cached env.toEnv remove kept found
        (by rwa [List.take_of_length_le ordinary.short]) run
  cases kind with
  | unlink => exact within removed
  | rmdir => exact within removed

/-- A disk without the entry. -/
def emptyDisk : FsEnv where
  alloc _ live := some (live.sum + 1)
  lookup _ _ := .ok none
  fresh := by
    rintro n live d ⟨⟩ inside
    exact absurd (List.le_sum_of_mem inside) (Nat.not_succ_le_self _)
  create _ _ := .error .eio
  mkdir _ _ := .error .eio
  unlink _ _ := .error .eio
  rmdir _ _ := .error .eio
  fileAlloc := true
  openHook _ := .ok ()
  mount := .error .eio
  mntAlloc := true

/-- **Somebody refers to the name**, so the next lookup finds it. -/
theorem not_staysGone (ordinary : Ordinary d name) (dirs : Directories) {w : Id} {m : Vfsmount}
    (resolves : Resolves s task (join d name) w m)
    (walk : vfsPathLookup env.toEnv (s.context task) s.cache (front d) = .ok (c, .ok (p, mnt)))
    (entry : (c.dentries p).dInode = some dir) : ¬ StaysGone (s, dirs) (ordinary.entry dir.iNo) dir d := by
  intro gone
  obtain ⟨q, up, x, toFront, -⟩ := resolves.last ordinary
  cases (toFront.walk env.toEnv).symm.trans walk
  have clean : PathClean s.holders (emptyDisk.on dirs).toEnv (s.context task) s.cache (join d name) := by
    obtain ⟨root, top, start, kept, leads⟩ := resolves
    rw [PathClean, start]
    dsimp only
    rw [dget_eq kept.live]
    exact WalkClean.of_leads _ _ leads
  obtain ⟨c', missing⟩ := gone [] trivial emptyDisk task clean ⟨_, rfl⟩ (fun _ _ => nofun) _ p mnt
    (toFront.walk (emptyDisk.on dirs).toEnv) entry
  cases (resolves.walk (emptyDisk.on dirs).toEnv).symm.trans missing

end Removed

/-- A device that works. -/
def working : FsEnv := { smallEnv with unlink := fun _ _ => .ok (), rmdir := fun _ _ => .ok () }

/-- The root has the file `f` in it. -/
def fileInRoot : Directories := fun dir => if dir = 2 then [(['f'], ⟨12, false⟩)] else []

theorem ordinaryF : Ordinary [] ['f'] := ⟨by decide, by decide, by decide, by decide, by decide⟩

/-- With the file open. -/
def fileOpen : Vfs := step rootMounted.vfs ⟨working.on fileInRoot, none, .openFile ['/', 'f'] false false⟩

theorem fileOpen_good : fileOpen.Good := by
  refine step_good rootMounted_good ?_
  show OpenClean _ _ _ _ _ _
  decide +kernel

theorem fileOpen_clean : Clean fileOpen ⟨working.on fileInRoot, none, Removal.call (join [] ['f']) .unlink⟩ := by
  show DirectoryClean fileOpen.holders (working.on fileInRoot).toEnv (fileOpen.context none) fileOpen.cache ['/', 'f']
    fun _ _ _ _ => True
  decide +kernel

theorem fileOpen_resolves : Resolves fileOpen none (join [] ['f']) 1 ⟨0, 0, none⟩ := by
  have root : Kept fileOpen.cache 0 := ⟨by decide, by decide, by decide⟩
  have file : Kept fileOpen.cache 1 := ⟨by decide, by decide, by decide⟩
  exact ⟨0, ⟨0, 0, none⟩, rfl, root, .down root rfl (by decide) rfl file file .here⟩

/-- The root has the directory `a` twice, as two calls of `vfs_mkdir` leave it. -/
def twiceInRoot : Directories := fun dir => if dir = 2 then [(['a'], ⟨12, true⟩), (['a'], ⟨13, true⟩)] else []

theorem ordinaryA : Ordinary [] ['a'] := ⟨by decide, by decide, by decide, by decide, by decide⟩

/-- Nobody refers to the name, and it is still there. -/
theorem removed_once_of_two :
    (∃ c', vfsDoRmdir (working.on twiceInRoot) (rootMounted.vfs.context none) rootMounted.vfs.cache ['/', 'a'] =
      .ok (c', .ok ())) ∧
    (ordinaryA.entry 2).Absent rootMounted.vfs.cache ∧
      ¬ StaysGone (volumeStep (rootMounted.vfs, twiceInRoot) (⟨working, none, .rmdir ['/', 'a']⟩, 0)) (ordinaryA.entry 2)
        ⟨2, true⟩ [] := by
  refine ⟨⟨_, rfl⟩, fun x inside of_ => ?_, fun gone => ?_⟩
  · cases List.mem_singleton.1 inside
    exact absurd of_.1 (by decide)
  · have clean : PathClean (volumeStep (rootMounted.vfs, twiceInRoot) (⟨working, none, .rmdir ['/', 'a']⟩, 0)).1.holders
        (emptyDisk.on (volumeStep (rootMounted.vfs, twiceInRoot) (⟨working, none, .rmdir ['/', 'a']⟩, 0)).2).toEnv
        ((volumeStep (rootMounted.vfs, twiceInRoot) (⟨working, none, .rmdir ['/', 'a']⟩, 0)).1.context none)
        (volumeStep (rootMounted.vfs, twiceInRoot) (⟨working, none, .rmdir ['/', 'a']⟩, 0)).1.cache ['/', 'a'] := by
      decide +kernel
    obtain ⟨c', missing⟩ := gone [] trivial emptyDisk none clean ⟨_, rfl⟩ (fun _ _ => nofun) _ 0 ⟨0, 0, none⟩ rfl rfl
    cases missing

end Minus.Fs.Dcache
