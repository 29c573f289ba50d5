/-
# Fs.WalkFail — a walk that fails leaves the cache as it was

Here the directories on the way need not have been in the cache.  Below a directory that is
new the walk drops the last reference to it, and has come to an `Orphan`: a dentry whose
parent is gone.  From there it can only go on to another orphan or stop at a freed dentry,
since `dput` of an orphan writes to its parent's list.  So a walk that returns an error has
given back all that it took (`vfsPathLookup_fails`).
-/
import Minus.Fs.WalkBalance

namespace Minus.Fs.Dcache

set_option autoImplicit false

open Minus.Theory Minus.Lib.Dlist

/-- Every dentry in the cache has a reference, an inode and a list of such children. -/
def Sound (c : Cache) : Prop := ∀ d ∈ c.live, Directory c d

/-- A new dentry with one reference, alone on the list of a parent that is gone. -/
structure Orphan (c c' : Cache) (d : Id) : Prop where
  fresh : d ∉ c.live
  live : c'.live = d :: c.live
  dentries : ∀ x ∈ c.live, c'.dentries x = c.dentries x
  count : (c'.dentries d).dCount = 1
  inode : (c'.dentries d).dInode ≠ none
  links : ∀ node : Node, node.owner ∈ c.live →
    c'.links.next node = c.links.next node ∧ c'.links.prev node = c.links.prev node
  empty : c'.links.Alone (.subdirs d)
  gone : ∃ q, q ∉ c'.live ∧ c'.links.next (.child d) = .subdirs q ∧ c'.links.prev (.child d) = .subdirs q

/-- The computation may stop on a fault. -/
abbrev Partly {α : Type} (P : α → Prop) (x : Except Fault α) : Prop := Ends P (fun _ => True) x

theorem Safe.partly {α : Type} {P : α → Prop} {x : Except Fault α} (safe : Safe P x) : Partly P x :=
  safe.mono (fun _ h => h) fun _ _ => trivial

theorem touch_partly {α : Type} {c : Cache} {d : Id} {P : α → Prop} {next : Except Fault α}
    (after : d ∈ c.live → Partly P next) : Partly P (do touch c d; next) := by
  unfold touch
  split
  · rename_i live
    exact after live
  · trivial

section Orphan

variable {c c' c₂ : Cache} {d p x : Id} {n : Int}

/-- Giving up the last reference, if it goes well. -/
theorem dput_last (count : (c.dentries d).dCount = 1) :
    Partly (fun c' => (c.links.next (.child d)).owner ∈ c.live ∧ (c.links.prev (.child d)).owner ∈ c.live ∧
        c'.live = c.live.erase d ∧ (∀ x, x ≠ d → c'.dentries x = c.dentries x) ∧ c'.links = dlistDel c.links (.child d))
      (dput c d) := by
  refine touch_partly fun _ => ?_
  show Partly _ (if _ then _ else _)
  rw [modify_self, if_pos (by dsimp only; rw [count]; decide)]
  refine touch_partly fun next => touch_partly fun prev => ⟨next, prev, rfl, fun x other => ?_, rfl⟩
  show (Cache.remove _ d).dentries x = _
  rw [remove_of_ne _ other, modify_of_ne _ _ other]

theorem Orphan.here (orphan : Orphan c c' d) : d ∈ c'.live := orphan.live ▸ List.mem_cons_self

theorem Orphan.bump (orphan : Orphan c c' d) (inside : x ∈ c.live) (n : Int) : Orphan (c.bump x n)
    (c'.bump x n) d := by
  have other : d ≠ x := (ne_of_mem_of_not_mem inside orphan.fresh).symm
  refine ⟨orphan.fresh, orphan.live, fun y there => ?_, ?_, ?_, orphan.links, orphan.empty, orphan.gone⟩
  · by_cases here : y = x
    · subst here
      rw [bump_self, bump_self, orphan.dentries y there]
    · rw [bump_of_ne here, bump_of_ne here, orphan.dentries y there]
  · rw [bump_of_ne other]
    exact orphan.count
  · rw [bump_of_ne other]
    exact orphan.inode

/-- **An orphan cannot be given up**: its parent's list is gone. -/
theorem Orphan.dput {P : Cache → Prop} (orphan : Orphan c c' d) : Partly P (dput c' d) := by
  obtain ⟨q, gone, next, -⟩ := orphan.gone
  refine (dput_last orphan.count).mono ?_ fun _ _ => trivial
  rintro c₁ ⟨touched, -⟩
  rw [next] at touched
  exact absurd touched gone

theorem Orphan.same (orphan : Orphan c c' d) (same : Same c' c₂) : Orphan c c₂ d := by
  have old (y : Id) (inside : y ∈ c.live) : y ∈ c'.live := orphan.live ▸ List.mem_cons_of_mem d inside
  obtain ⟨q, gone, next, prev⟩ := orphan.gone
  obtain ⟨aloneNext, alonePrev⟩ := same.links (.subdirs d) orphan.here
  obtain ⟨childNext, childPrev⟩ := same.links (.child d) orphan.here
  refine ⟨orphan.fresh, same.live.trans orphan.live, fun y inside => ?_, ?_, ?_, fun node inside => ?_, ?_, q, ?_, ?_, ?_⟩
  · rw [same.dentries y (old y inside), orphan.dentries y inside]
  · rw [same.dentries d orphan.here, orphan.count]
  · rw [same.dentries d orphan.here]
    exact orphan.inode
  · rw [(same.links node (old _ inside)).1, (same.links node (old _ inside)).2]
    exact orphan.links node inside
  · exact ⟨aloneNext.trans orphan.empty.1, alonePrev.trans orphan.empty.2⟩
  · rwa [same.live]
  · rw [childNext, next]
  · rw [childPrev, prev]

theorem Born.same (born : Born c c' p d) (same : Same c' c₂) : Born c c₂ p d := by
  have old (y : Id) (inside : y ∈ c.live) : y ∈ c'.live := born.live ▸ List.mem_cons_of_mem d inside
  obtain ⟨aloneNext, alonePrev⟩ := same.links (.subdirs d) born.here
  refine ⟨born.fresh, same.live.trans born.live, fun y inside => ?_, ?_, ?_, ?_, born.parent, born.joined, fun node inside => ?_⟩
  · rw [same.dentries y (old y inside), born.dentries y inside]
  · rw [same.dentries d born.here, born.count]
  · rw [same.dentries d born.here, born.unmounted]
  · exact ⟨aloneNext.trans born.empty.1, alonePrev.trans born.empty.2⟩
  · have owner : node.owner ∈ c'.live := by
      obtain rfl | inside := inside
      · exact born.here
      · exact old _ inside
    rw [(same.links node owner).1, (same.links node owner).2]
    exact born.links node inside

/-- The links of a first child of `d`: those of the others are as they were. -/
theorem Born.first (next : Born c' c₂ d x) (empty : c'.links.Alone (.subdirs d)) :
    (∀ node : Node, node.owner ∈ c'.live → node ≠ .subdirs d →
      c₂.links.next node = c'.links.next node ∧ c₂.links.prev node = c'.links.prev node) ∧
    c₂.links.next (.child x) = .subdirs d ∧ c₂.links.prev (.child x) = .subdirs d := by
  refine ⟨fun node inside other => ?_, ?_, ?_⟩
  · have child : node ≠ .child x := by
      rintro rfl
      exact next.fresh inside
    rw [(next.links node (.inr inside)).1, (next.links node (.inr inside)).2, empty.1,
      Links.splice_next_of_ne child other, Links.splice_prev_of_ne child other]
    exact ⟨rfl, rfl⟩
  · rw [(next.links _ (.inl rfl)).1, empty.1]
    simp [Links.splice]
  · rw [(next.links _ (.inl rfl)).2, empty.1]
    simp [Links.splice]

/-- **A new directory is given up** when the walk has gone down from it. -/
theorem Born.orphan (born : Born c c' p d) (next : Born c' c₂ d x) (inode : (c₂.dentries x).dInode ≠ none) :
    Partly (fun c₃ => Orphan c c₃ x) (Dcache.dput c₂ d) := by
  have here := born.here
  have old (y : Id) (inside : y ∈ c.live) : y ∈ c'.live := born.live ▸ List.mem_cons_of_mem d inside
  have count : (c₂.dentries d).dCount = 1 := (next.dentries d here).symm ▸ born.count
  have apart : x ≠ d := (next.other here).symm
  obtain ⟨others, below⟩ := next.first born.empty
  obtain ⟨first, back⟩ := born.joined
  have child (node : Node) (inside : node.owner ∈ c.live) : node ≠ .child d := by
    rintro rfl
    exact born.fresh inside
  have ahead : c₂.links.next (.child d) = c.links.next (.subdirs p) := by
    rw [(others (.child d) here (by simp)).1, (born.links _ (.inl rfl)).1]
    simp [Links.splice]
  have behind : c₂.links.prev (.child d) = .subdirs p := by
    rw [(others (.child d) here (by simp)).2, (born.links _ (.inl rfl)).2]
    simp [Links.splice, (child _ first).symm]
  have firstApart (node : Node) (new : node.owner = x) : node ≠ c.links.next (.subdirs p) := by
    rintro rfl
    exact next.fresh (old _ (new ▸ first))
  have headApart (node : Node) (new : node.owner = x) : node ≠ .subdirs p := by
    rintro rfl
    exact next.fresh (old _ (new ▸ born.parent))
  refine (dput_last count).mono ?_ fun _ h => h
  rintro c₃ ⟨-, -, live, dentries, links⟩
  have live : c₃.live = x :: c.live := by
    rw [live, next.live, born.live, List.erase_cons_tail (by simpa using apart), List.erase_cons_head]
  -- the new child's own links are not those that `dlist_del` writes
  have kept (node : Node) (new : node.owner = x) :
      c₃.links.next node = c₂.links.next node ∧ c₃.links.prev node = c₂.links.prev node := by
    have self : node ≠ .child d := by
      rintro rfl
      exact apart new.symm
    rw [links, dlistDel_eq_unlink _ fun same => absurd (ahead.symm.trans same) (child _ first),
      Links.unlink_next_of_ne self (behind ▸ headApart node new), Links.unlink_prev_of_ne self (ahead ▸ firstApart node new)]
    exact ⟨rfl, rfl⟩
  refine ⟨fun inside => next.fresh (old x inside), live, fun y inside => ?_, ?_, ?_, fun node inside => ?_, ?_, d, ?_, ?_, ?_⟩
  · rw [dentries y (born.other inside), next.dentries y (old y inside), born.dentries y inside]
  · rw [dentries x apart, next.count]
  · rwa [dentries x apart]
  · have subdirs : node ≠ .subdirs d := by
      rintro rfl
      exact born.fresh inside
    obtain ⟨sameNext, samePrev⟩ := others node (old _ inside) subdirs
    obtain ⟨spliceNext, splicePrev⟩ := born.links node (.inr inside)
    rw [links]
    exact dlistDel_spliced (by simp) (child _ first) (child node inside) rfl back ahead behind
      (sameNext.trans spliceNext) (samePrev.trans splicePrev)
  · exact ⟨(kept _ rfl).1.trans next.empty.1, (kept _ rfl).2.trans next.empty.2⟩
  · rw [live, List.mem_cons, not_or]
    exact ⟨apart.symm, born.fresh⟩
  · rw [(kept _ rfl).1, below.1]
  · rw [(kept _ rfl).2, below.2]

/-- So is an orphan, if its child has the address of the parent that is gone. -/
theorem Orphan.orphan (orphan : Orphan c c' d) (next : Born c' c₂ d x) (inode : (c₂.dentries x).dInode ≠ none) :
    Partly (fun c₃ => Orphan c c₃ x) (Dcache.dput c₂ d) := by
  have here := orphan.here
  have old (y : Id) (inside : y ∈ c.live) : y ∈ c'.live := orphan.live ▸ List.mem_cons_of_mem d inside
  have count : (c₂.dentries d).dCount = 1 := (next.dentries d here).symm ▸ orphan.count
  have apart : x ≠ d := (next.other here).symm
  obtain ⟨others, below⟩ := next.first orphan.empty
  obtain ⟨q, gone, ahead, behind⟩ := orphan.gone
  rw [← (others (.child d) here (by simp)).1] at ahead
  rw [← (others (.child d) here (by simp)).2] at behind
  refine (dput_last count).mono ?_ fun _ h => h
  rintro c₃ ⟨touched, -, live, dentries, links⟩
  obtain rfl : q = x := by
    rw [ahead, next.live] at touched
    exact (List.mem_cons.mp touched).resolve_right gone
  have live : c₃.live = q :: c.live := by
    rw [live, next.live, orphan.live, List.erase_cons_tail (by simpa using apart), List.erase_cons_head]
  have kept (node : Node) (self : node ≠ .child d) (subdirs : node ≠ .subdirs q) :
      c₃.links.next node = c₂.links.next node ∧ c₃.links.prev node = c₂.links.prev node := by
    rw [links, dlistDel_eq_unlink _ fun same => absurd (ahead.symm.trans same) (by simp),
      Links.unlink_next_of_ne self (behind ▸ subdirs), Links.unlink_prev_of_ne self (ahead ▸ subdirs)]
    exact ⟨rfl, rfl⟩
  refine ⟨fun inside => gone (old q inside), live, fun y inside => ?_, ?_, ?_, fun node inside => ?_, ?_, d, ?_, ?_, ?_⟩
  · rw [dentries y (ne_of_mem_of_not_mem inside orphan.fresh), next.dentries y (old y inside), orphan.dentries y inside]
  · rw [dentries q apart, next.count]
  · rwa [dentries q apart]
  · have child : node ≠ .child d := by
      rintro rfl
      exact orphan.fresh inside
    have subdirs : node ≠ .subdirs d := by
      rintro rfl
      exact orphan.fresh inside
    have subdirs' : node ≠ .subdirs q := by
      rintro rfl
      exact gone (old _ inside)
    rw [(kept node child subdirs').1, (kept node child subdirs').2, (others node (old _ inside) subdirs).1,
      (others node (old _ inside) subdirs).2]
    exact orphan.links node inside
  · rw [links, dlistDel_eq_unlink _ fun same => absurd (ahead.symm.trans same) (by simp)]
    simp [Links.Alone, Links.unlink, ahead, behind]
  · rw [live, List.mem_cons, not_or]
    exact ⟨apart.symm, orphan.fresh⟩
  · rw [(kept (.child q) (by simpa using apart) (by simp)).1, below.1]
  · rw [(kept (.child q) (by simpa using apart) (by simp)).2, below.2]

end Orphan

/-! ## Walks -/

/-- What a walk that has come to `d` holds. -/
def Walks (c c' : Cache) (d : Id) : Prop := Holding c c' (some d) ∨ Orphan c c' d

/-- What a walk leaves. -/
def Leaves (c : Cache) (r : Cache × Except Errno (Id × Vfsmount)) : Prop :=
  Ends (fun place => Walks c r.1 place.1) (fun _ => Same c r.1) r.2

section Walks

variable {c c' c₂ : Cache} {d p x : Id} {mnt : Vfsmount}

theorem Walks.here (walks : Walks c c' d) : d ∈ c'.live := by
  obtain holding | orphan := walks
  · exact holding.kept.live
  · exact orphan.here

theorem Walks.dput (walks : Walks c c' d) : Partly (Same c) (dput c' d) := by
  obtain holding | orphan := walks
  · exact holding.dput.partly
  · exact orphan.dput

theorem Walks.failed (walks : Walks c c' d) (e : Errno) : Partly (Leaves c) (failed c' d e) :=
  Ends.bind walks.dput fun _ same => same

/-- A dentry other than the new one was there. -/
theorem Walks.cases (walks : Walks c c' d) : Same (c.bump d 1) c' ∨ d ∉ c.live ∧ c'.live = d :: c.live ∧
    (c'.dentries d).dCount = 1 ∧ ∀ x ∈ c.live, Partly (Same (c.bump x 1)) (Dcache.dput (c'.bump x 1) d) := by
  obtain (⟨-, same⟩ | ⟨p, born, inode⟩) | orphan := walks
  · exact .inl same
  · exact .inr ⟨born.fresh, born.live, born.count, fun x inside => (born.bump inside 1).dput.partly⟩
  · exact .inr ⟨orphan.fresh, orphan.live, orphan.count, fun x inside => (orphan.bump inside 1).dput⟩

/-- The reference moves to any dentry. -/
theorem Walks.moveRef (sound : Sound c) (walks : Walks c c' d) (p : Id) :
    Partly (fun c'' => Walks c c'' p) (moveRef c' d p) := by
  rw [Dcache.moveRef]
  by_cases live : p ∈ c'.live
  · rw [dget_eq live, ok_bind]
    obtain same | ⟨fresh, here, count, drops⟩ := walks.cases
    · have inside : p ∈ c.live := same.live ▸ live
      by_cases old : d ∈ c.live
      · have kept := (sound d old).toKept
        have holding : Holding c c' (some d) := .inl ⟨kept, same⟩
        have moved := moveRef_holding holding (sound p inside).toKept
        rw [Dcache.moveRef, dget_eq live, ok_bind] at moved
        exact moved.partly.mono (fun _ holding => .inl holding) fun _ h => h
      · exact absurd (same.live ▸ walks.here) old
    · by_cases self : p = d
      · subst self
        have two : 2 ≤ ((c'.bump p 1).dentries p).dCount := by
          rw [bump_self]
          exact (congrArg (· + 1) count).ge
        rw [dput_eq (c := c'.bump p 1) live two, bump_bump, Int.add_right_neg, bump_zero]
        exact walks
      · have inside : p ∈ c.live := (List.mem_cons.mp (here ▸ live)).resolve_left self
        exact (drops p inside).mono (fun _ same => .inl (.inl ⟨(sound p inside).toKept, same⟩)) fun _ h => h
  · rw [dget, touch, if_neg live]
    trivial

theorem Walks.climb (sound : Sound c) (walks : Walks c c' d) :
    Partly (fun r => Walks c r.1 r.2.1) (climb c' d mnt) := by
  unfold Dcache.climb
  split
  · split
    · exact Ends.bind (walks.moveRef sound _) fun _ walks => walks
    · exact walks
  · exact walks

theorem Walks.stepUp (sound : Sound c) (walks : Walks c c' d) : Partly (Leaves c) (stepUp c' d mnt) := by
  refine Ends.bind (walks.climb sound) ?_
  rintro ⟨c₁, d₁, mnt₁⟩ walks
  refine touch_partly fun _ => ?_
  show Partly _ (if _ then _ else _)
  split
  · exact walks
  · exact Ends.bind (walks.moveRef sound _) fun _ walks => walks

/-- Below a new dentry nothing is in the cache: the walk fails, or goes on to a dentry that it makes. -/
theorem stepDown_new (env : Env) (name : Name) (here : d ∈ c'.live) (count : (c'.dentries d).dCount = 1)
    (inode : (c'.dentries d).dInode ≠ none) (empty : c'.links.Alone (.subdirs d))
    (lost : ∀ c₂, Same c' c₂ → Partly (Same c) (dput c₂ d))
    (next : ∀ c₂ x, Born c' c₂ d x → (c₂.dentries x).dInode ≠ none → Partly (fun c₃ => Orphan c c₃ x) (dput c₂ d)) :
    Partly (Leaves c) (stepDown env c' d mnt name) := by
  have dir : Directory c' d := ⟨⟨here, count.ge, inode⟩, [], ⟨empty, List.nodup_singleton _⟩, nofun⟩
  refine Ends.bind (lookupOneLen_found env dir (.refl c') name).partly ?_
  rintro ⟨c₂, ret⟩ found
  cases ret with
  | error e => exact Ends.bind (lost c₂ found) fun _ same => same
  | ok answer =>
      cases answer with
      | none => exact Ends.bind (lost c₂ found) fun _ same => same
      | some x =>
          obtain child | ⟨born, inode⟩ := found
          · exact absurd empty child.listed
          · have unmounted : (c₂.dentries x).dMounted = none := born.unmounted
            refine touch_partly fun _ => ?_
            rw [unmounted]
            exact Ends.bind (next c₂ x born inode) fun _ orphan => .inr orphan

theorem Walks.stepDown (sound : Sound c) (env : Env) (walks : Walks c c' d) (name : Name) :
    Partly (Leaves c) (stepDown env c' d mnt name) := by
  obtain (⟨kept, same⟩ | ⟨p, born, inode⟩) | orphan := walks
  · refine (stepDown_holding env same (sound d kept.live) name).partly.mono ?_ fun _ h => h
    rintro ⟨c₂, ret⟩ holding
    cases ret with
    | error e => exact holding
    | ok place => exact .inl holding
  · exact stepDown_new env name born.here born.count inode born.empty (fun c₂ same => (born.same same).dput.partly)
      fun c₂ x next inode => born.orphan next inode
  · exact stepDown_new env name orphan.here orphan.count orphan.inode orphan.empty
      (fun c₂ same => (orphan.same same).dput) fun c₂ x next inode => orphan.orphan next inode

theorem Walks.followStep (sound : Sound c) (env : Env) (walks : Walks c c' d) (comp : Name) :
    Partly (Leaves c) (followStep env c' d mnt comp) := by
  refine touch_partly fun _ => ?_
  cases (c'.dentries d).dInode with
  | none => trivial
  | some inode =>
      dsimp only
      split
      · exact walks.failed .enotdir
      · split
        · exact walks
        · split
          · exact walks.stepUp sound
          · exact walks.stepDown sound env comp

theorem Walks.followLoop (sound : Sound c) (env : Env) (comps : List Name) (walks : Walks c c' d) :
    Partly (Leaves c) (followLoop env c' d mnt comps) := by
  induction comps generalizing c' d mnt with
  | nil => exact walks
  | cons comp rest ih =>
      refine Ends.bind (walks.followStep sound env comp) ?_
      rintro ⟨c₁, ret⟩ step
      cases ret with
      | error e => exact step
      | ok place => exact ih step

/-- What a lookup leaves, whatever it went through. -/
theorem vfsPathLookup_leaves (sound : Sound c) (env : Env) (ctx : Context) (path : List Char) :
    Partly (Leaves c) (vfsPathLookup env ctx c path) := by
  unfold vfsPathLookup followPath
  cases ctx.start path with
  | none => exact .refl c
  | some place =>
      obtain ⟨d, mnt⟩ := place
      dsimp only
      by_cases live : d ∈ c.live
      · rw [dget_eq live, ok_bind]
        exact Walks.followLoop sound env _ (.inl (.inl ⟨(sound d live).toKept, .refl _⟩))
      · rw [dget, touch, if_neg live]
        trivial

/-- **A walk that fails** leaves the cache as it was. -/
theorem vfsPathLookup_fails (sound : Sound c) {env : Env} {ctx : Context} {path : List Char} {e : Errno}
    (run : vfsPathLookup env ctx c path = .ok (c', .error e)) : Same c c' := by
  have leaves := vfsPathLookup_leaves sound env ctx path
  rw [run] at leaves
  exact leaves

end Walks

end Minus.Fs.Dcache
