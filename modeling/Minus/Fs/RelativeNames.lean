/-
# Fs.RelativeNames — a name below the working directory, and the same name from the root

`follow_path` starts a relative name at the working directory.  If an absolute name leads
there through directories that are in the cache (`Leads`), the walk along it is that start:
it takes one reference to the working directory and does nothing else, so that what follows
is one computation for both names (`vfsPathLookup_join`).  The calls that split their name
first ask for a slash in it, and then that is the only difference (`run_agrees`, `run_parts`).
-/
import Minus.Fs.WalkFail
import Mathlib.Logic.Encodable.Basic
import Mathlib.Logic.Equiv.List

namespace Minus.Fs.Dcache

set_option autoImplicit false

open Minus.Theory Minus.Lib.Dlist

/-! ## Names -/

section Names

variable {d r name p : List Char}

/-- The absolute name of what is called `r` in the directory `d`. -/
def join (d r : List Char) : List Char := d ++ '/' :: r

theorem componentsFrom_join (comp : Name) (d r : List Char) :
    componentsFrom comp (join d r) = componentsFrom comp d ++ components r := by
  induction d generalizing comp with
  | nil => rfl
  | cons ch d ih =>
      show componentsFrom comp (ch :: join d r) = componentsFrom comp (ch :: d) ++ _
      unfold componentsFrom
      split
      · rw [ih, List.append_assoc]
      · split
        · rw [ih]
          rfl
        · exact ih _

theorem components_join (d r : List Char) : components (join d r) = components d ++ components r :=
  componentsFrom_join [] d r

theorem takeWhile_free (free : '/' ∉ name) (rest : List Char) :
    (name ++ '/' :: rest).takeWhile (· ≠ '/') = name := by
  rw [List.takeWhile_append_of_pos fun ch inside => by simpa using ne_of_mem_of_not_mem inside free]
  simp

/-- What `split_last_component` does with a name that has a slash. -/
theorem splitLastComponent_join (free : '/' ∉ name) (short : (join p name).length < 256) :
    splitLastComponent (join p name) = .ok (if p = [] then ['/'] else p, name.take 63) := by
  have length : p.length + (name.length + 1) < 256 := by simpa [join] using short
  have last : ((join p name).reverse.takeWhile (· ≠ '/')).reverse = name := by
    have back : (join p name).reverse = name.reverse ++ '/' :: p.reverse := by simp [join]
    rw [back, takeWhile_free (by simpa using free), List.reverse_reverse]
  have front : ((join p name).take ((join p name).length - name.length - 1)).take 255 = p := by
    have cut : (join p name).length - name.length - 1 = p.length := by simp [join]; omega
    rw [cut, join, List.take_left, List.take_of_length_le (by omega)]
  unfold splitLastComponent
  rw [if_pos (show '/' ∈ join p name by simp [join])]
  dsimp only
  rw [last, front]

/-- A name with a slash, split at the last. -/
theorem exists_join (slash : '/' ∈ r) : ∃ p name, r = join p name ∧ '/' ∉ name := by
  obtain ⟨name, p, parts, free⟩ := List.eq_append_cons_of_mem (List.mem_reverse.mpr slash)
  refine ⟨p.reverse, name.reverse, ?_, by simpa using free⟩
  rw [← List.reverse_reverse r, parts]
  simp [join]

/-- **Splitting** a relative name and the absolute one. -/
theorem splitLastComponent_both (relative : r.head? ≠ some '/') (slash : '/' ∈ r)
    (short : (join d r).length < 256) : ∃ p name, p.head? ≠ some '/' ∧ splitLastComponent r = .ok (p, name) ∧
      splitLastComponent (join d r) = .ok (join d p, name) := by
  obtain ⟨p, name, rfl, free⟩ := exists_join slash
  have some_ : p ≠ [] := by
    rintro rfl
    exact relative rfl
  have whole : join d (join p name) = join (join d p) name := by simp [join]
  have shorter : (join p name).length < 256 := by
    simp only [join, List.length_append, List.length_cons] at short ⊢
    omega
  refine ⟨p, name.take 63, ?_, ?_, ?_⟩
  · obtain ⟨ch, p, rfl⟩ := List.exists_cons_of_ne_nil some_
    exact relative
  · rw [splitLastComponent_join free shorter, if_neg some_]
  · rw [whole, splitLastComponent_join free (whole ▸ short), if_neg (by simp [join])]

end Names

/-! ## The walk to the working directory -/

def outerMnt (mnt : Vfsmount) (d : Id) : Vfsmount :=
  match mnt.mntParent with
  | some up => if mnt.mntRoot = d then up else mnt
  | none => mnt

/-- Where the walk goes on from a child. -/
def covered (c : Cache) (mnt : Vfsmount) (x : Id) : Id × Vfsmount :=
  match (c.dentries x).dMounted with
  | some sub => (sub.mntRoot, sub)
  | none => (x, mnt)

/-- What `d_lookup` finds. -/
def Cached (c : Cache) (d : Id) (name : Name) (x : Id) : Prop :=
  lookupFrom c d name (c.live.length + 1) (c.links.next (.subdirs d)) = .ok (some x)

/-- The components lead from `d` to `w` through directories in the cache. -/
inductive Leads (c : Cache) (dir : Id → Prop) (w : Id) (m : Vfsmount) : Id → Vfsmount → List Name → Prop where
  | here : Leads c dir w m w m []
  | dot {d : Id} {mnt : Vfsmount} {rest : List Name} (kept : Kept c d) (isDir : dir d)
      (leads : Leads c dir w m d mnt rest) : Leads c dir w m d mnt (['.'] :: rest)
  | up {d : Id} {mnt : Vfsmount} {rest : List Name} (kept : Kept c d) (isDir : dir d) (out : Kept c (outside mnt d))
      (parent : Kept c (c.dentries (outside mnt d)).dParent)
      (leads : Leads c dir w m (c.dentries (outside mnt d)).dParent (outerMnt mnt d) rest) :
      Leads c dir w m d mnt (['.', '.'] :: rest)
  | down {d x : Id} {mnt : Vfsmount} {comp : Name} {rest : List Name} (kept : Kept c d) (isDir : dir d)
      (child : comp ≠ ['.'] ∧ comp ≠ ['.', '.']) (cached : Cached c d (comp.take 63) x) (found : Kept c x)
      (root : Kept c (covered c mnt x).1) (leads : Leads c dir w m (covered c mnt x).1 (covered c mnt x).2 rest) :
      Leads c dir w m d mnt (comp :: rest)

/-- The dentry of a directory. -/
def IsDir (c : Cache) (d : Id) : Prop := (c.dentries d).dInode.any (·.isDir) = true

/-- The directories of `d`, down to the working directory, are in the cache and referenced. -/
structure HeldDown (c : Cache) (dir : Id → Prop) (ctx : Context) (d : List Char) (w : Id) (m : Vfsmount) : Prop where
  kept : Kept c w
  leads : ∃ root mnt, ctx.start d = some (root, mnt) ∧ Kept c root ∧ Leads c dir w m root mnt (components d)

/-- The absolute name `d` is that of the working directory. -/
structure WorkingDirectory (c : Cache) (dir : Id → Prop) (ctx : Context) (d : List Char) (w : Id) (m : Vfsmount) :
    Prop extends HeldDown c dir ctx d w m where
  absolute : d.head? = some '/'
  start : ctx.start [] = some (w, m)

section Leads

variable {c : Cache} {d w x p : Id} {m mnt : Vfsmount} {n : Int} {name : Name}

theorem bump_back (c : Cache) (d x : Id) : ((c.bump d 1).bump x 1).bump d (-1) = c.bump x 1 := by
  rw [bump_comm (c.bump d 1), bump_bump, Int.add_right_neg, bump_zero]

theorem two_refs (kept : Kept c d) (x : Id) : 2 ≤ (((c.bump d 1).bump x 1).dentries d).dCount := by
  have held := kept.held
  rw [bump_count, bump_self]
  show 2 ≤ (c.dentries d).dCount + 1 + _
  split <;> omega

/-- Giving up the reference to the directory behind. -/
theorem dput_behind (kept : Kept c d) (x : Id) : dput ((c.bump d 1).bump x 1) d = .ok (c.bump x 1) := by
  rw [dput_eq (c := (c.bump d 1).bump x 1) kept.live (two_refs kept x), bump_back]

theorem moveRef_eq (kept : Kept c d) (kept' : Kept c p) : moveRef (c.bump d 1) d p = .ok (c.bump p 1) := by
  rw [moveRef, dget_eq (show p ∈ (c.bump d 1).live from kept'.live), ok_bind, dput_behind kept]

theorem lookupFrom_bump (c : Cache) (d x : Id) (n : Int) (name : Name) (fuel : Nat) (node : Node) :
    lookupFrom (c.bump x n) d name fuel node = lookupFrom c d name fuel node := by
  induction fuel generalizing node with
  | zero => rfl
  | succ fuel ih =>
      have named : ((c.bump x n).dentries node.owner).dName = (c.dentries node.owner).dName := by
        by_cases here : node.owner = x
        · rw [here, bump_self]
        · rw [bump_of_ne here]
      unfold lookupFrom
      rw [named, ih]
      rfl

theorem dLookup_cached (kept : Kept c d) (found : Kept c x) (cached : Cached c d name x) :
    dLookup (c.bump d 1) d name = .ok ((c.bump d 1).bump x 1, some x) := by
  have there : lookupFrom (c.bump d 1) d name ((c.bump d 1).live.length + 1)
      ((c.bump d 1).links.next (.subdirs d)) = .ok (some x) := by
    rw [lookupFrom_bump]
    exact cached
  rw [dLookup, touch, if_pos (show d ∈ (c.bump d 1).live from kept.live), ok_bind, there, ok_bind]
  dsimp only
  rw [dget_eq (show x ∈ (c.bump d 1).live from found.live), ok_bind]

theorem climb_eq (kept : Kept c d) (out : Kept c (outside mnt d)) :
    climb (c.bump d 1) d mnt = .ok (c.bump (outside mnt d) 1, outside mnt d, outerMnt mnt d) := by
  unfold climb
  unfold outside at out ⊢
  unfold outerMnt
  cases up : mnt.mntParent with
  | none => rfl
  | some up' =>
      rw [up] at out
      dsimp only at out ⊢
      split
      · rename_i root
        rw [if_pos root] at out
        rw [moveRef_eq kept out, ok_bind]
      · rfl

theorem stepUp_eq (kept : Kept c d) (out : Kept c (outside mnt d))
    (parent : Kept c (c.dentries (outside mnt d)).dParent) :
    stepUp (c.bump d 1) d mnt =
      .ok (c.bump (c.dentries (outside mnt d)).dParent 1, .ok ((c.dentries (outside mnt d)).dParent, outerMnt mnt d)) := by
  rw [stepUp, climb_eq kept out, ok_bind]
  dsimp only
  rw [touch, if_pos (show outside mnt d ∈ (c.bump (outside mnt d) 1).live from out.live), ok_bind,
    (bump_fields c _ _ 1).2.1]
  split
  · rename_i root
    rw [root]
  · rw [moveRef_eq out parent, ok_bind]

theorem stepDown_eq (env : Env) (kept : Kept c d) (found : Kept c x) (cached : Cached c d (name.take 63) x)
    (root : Kept c (covered c mnt x).1) :
    stepDown env (c.bump d 1) d mnt name = .ok (c.bump (covered c mnt x).1 1, .ok (covered c mnt x)) := by
  rw [stepDown, lookupOneLen, dLookup_cached kept found cached, ok_bind, ok_bind]
  dsimp only
  rw [touch, if_pos (show x ∈ ((c.bump d 1).bump x 1).live from found.live), ok_bind,
    (bump_fields (c.bump d 1) x x 1).2.2, (bump_fields c d x 1).2.2]
  unfold covered at root ⊢
  cases mounted : (c.dentries x).dMounted with
  | none =>
      dsimp only
      rw [dput_behind kept, ok_bind]
  | some sub =>
      rw [mounted] at root
      have there : sub.mntRoot ∈ ((c.bump d 1).bump x 1).live := root.live
      dsimp only
      rw [dget_eq there, ok_bind, dput_behind (found.bump d (by decide)), ok_bind, dput_behind kept, ok_bind]

/-- A step from a directory. -/
theorem followStep_dir (env : Env) (comp : Name) (kept : Kept c d) (isDir : IsDir c d) :
    followStep env (c.bump d 1) d mnt comp =
      if comp = ['.'] then .ok (c.bump d 1, .ok (d, mnt))
      else if comp = ['.', '.'] then stepUp (c.bump d 1) d mnt
      else stepDown env (c.bump d 1) d mnt comp := by
  rw [followStep, touch, if_pos (show d ∈ (c.bump d 1).live from kept.live), ok_bind, (bump_fields c d d 1).1]
  unfold IsDir at isDir
  cases entry : (c.dentries d).dInode with
  | none => simp [entry] at isDir
  | some inode =>
      have dir : inode.isDir = true := by simpa [entry] using isDir
      dsimp only
      rw [if_neg (by simp [dir])]

/-- **The walk along a cached path** only moves its reference. -/
theorem followLoop_leads (env : Env) {comps : List Name} (leads : Leads c (IsDir c) w m d mnt comps)
    (rest : List Name) :
    followLoop env (c.bump d 1) d mnt (comps ++ rest) = followLoop env (c.bump w 1) w m rest := by
  induction leads with
  | here => rfl
  | dot kept isDir _ ih =>
      rw [List.cons_append, followLoop, followStep_dir env _ kept isDir, if_pos rfl, ok_bind]
      exact ih
  | up kept isDir out parent _ ih =>
      rw [List.cons_append, followLoop, followStep_dir env _ kept isDir, if_neg (by decide), if_pos rfl,
        stepUp_eq kept out parent, ok_bind]
      exact ih
  | down kept isDir child cached found root _ ih =>
      rw [List.cons_append, followLoop, followStep_dir env _ kept isDir, if_neg child.1, if_neg child.2,
        stepDown_eq env kept found cached root, ok_bind]
      exact ih

/-- Where a relative name starts does not depend on the name. -/
theorem Context.start_relative (ctx : Context) {r : List Char} (relative : r.head? ≠ some '/') :
    ctx.start r = ctx.start [] := by
  unfold Context.start
  simp only
  rw [if_neg relative, if_neg (by decide)]

theorem Context.start_join (ctx : Context) {d : List Char} (r : List Char) (absolute : d.head? = some '/') :
    ctx.start (join d r) = ctx.start d := by
  have both : (join d r).head? = some '/' := by
    cases d with
    | nil => cases absolute
    | cons ch d => exact absolute
  unfold Context.start
  simp only
  rw [if_pos absolute, if_pos both]

/-- The path leads there in the same cache. -/
theorem lookupFrom_same {c' : Cache} (same : Same c c') (d : Id) (name : Name) (fuel : Nat) (node : Node) :
    lookupFrom c' d name fuel node = lookupFrom c d name fuel node := by
  induction fuel generalizing node with
  | zero => rfl
  | succ fuel ih =>
      unfold lookupFrom touch
      rw [same.live]
      split
      · rfl
      · split
        · rename_i live
          rw [same.dentries _ live, (same.links node live).1, ih]
        · rfl

theorem Leads.same {c' : Cache} {comps : List Name} (same : Same c c') (leads : Leads c (IsDir c) w m d mnt comps) :
    Leads c' (IsDir c') w m d mnt comps := by
  have dir {d : Id} (kept : Kept c d) (isDir : IsDir c d) : IsDir c' d := by
    unfold IsDir
    rw [same.dentries d kept.live]
    exact isDir
  induction leads with
  | here => exact .here
  | dot kept isDir _ ih => exact .dot (same.kept kept) (dir kept isDir) ih
  | up kept isDir out parent _ ih =>
      rw [← same.dentries _ out.live] at parent ih
      exact .up (same.kept kept) (dir kept isDir) (same.kept out) (same.kept parent) ih
  | @down d x mnt comp rest kept isDir child cached found root _ ih =>
      have goes : covered c mnt x = covered c' mnt x := by
        unfold covered
        rw [same.dentries x found.live]
      refine .down (same.kept kept) (dir kept isDir) child ?_ (same.kept found) (goes ▸ same.kept root) (goes ▸ ih)
      unfold Cached
      rw [lookupFrom_same same, same.live, (same.links (.subdirs d) kept.live).1]
      exact cached

theorem WorkingDirectory.same {c' : Cache} {ctx : Context} {d : List Char} (same : Same c c')
    (at_ : WorkingDirectory c (IsDir c) ctx d w m) : WorkingDirectory c' (IsDir c') ctx d w m := by
  obtain ⟨root, mnt, start, kept, leads⟩ := at_.leads
  exact ⟨⟨same.kept at_.kept, root, mnt, start, same.kept kept, leads.same same⟩, at_.absolute, at_.start⟩

/-- **Both names are walked alike.** -/
theorem vfsPathLookup_join (env : Env) {ctx : Context} {d r : List Char}
    (at_ : WorkingDirectory c (IsDir c) ctx d w m) (relative : r.head? ≠ some '/') :
    vfsPathLookup env ctx c (join d r) = vfsPathLookup env ctx c r := by
  obtain ⟨root, mnt, start, kept, leads⟩ := at_.leads
  unfold vfsPathLookup followPath
  rw [ctx.start_join r at_.absolute, start, ctx.start_relative relative, at_.start, components_join]
  dsimp only
  rw [dget_eq kept.live, dget_eq at_.kept.live, ok_bind, ok_bind, followLoop_leads env leads]

end Leads

/-! ## The calls -/

/-- A call on a path, with the flags of `vfs_open`. -/
inductive PathCall where
  | stat
  | openFile (creat directory trunc : Bool)
  | mkdir
  | unlink
  | rmdir

/-- Whether the call splits its name: `vfs_open` does so to make a file that is missing. -/
def PathCall.Splits (missing : Prop) : PathCall → Prop
  | .stat => False
  | .openFile creat _ _ => creat = true ∧ missing
  | _ => True

/-- The cache and the return code after a call, with the dentry of the file that it opens. -/
def PathCall.run (env : FsEnv) (ctx : Context) (c : Cache) (path : List Char) :
    PathCall → Except Fault (Cache × Except Errno (Option Id))
  | .stat => (vfsStat env.toEnv ctx c path).map fun r => (r.1, r.2.map fun _ => none)
  | .openFile creat directory _ => (vfsOpen env ctx c path creat directory).map fun r => (r.1, r.2.map some)
  | .mkdir => (vfsDoMkdir env ctx c path).map fun r => (r.1, r.2.map fun _ => none)
  | .unlink => (vfsDoUnlink env ctx c path).map fun r => (r.1, r.2.map fun _ => none)
  | .rmdir => (vfsDoRmdir env ctx c path).map fun r => (r.1, r.2.map fun _ => none)

/-- Nothing is found under the name. -/
def Missing (env : Env) (ctx : Context) (c : Cache) (path : List Char) : Prop :=
  ∃ c', vfsPathLookup env ctx c path = .ok (c', .error .enoent)

/-- The file systems answer a call on a directory with other errors. -/
structure FsEnv.NoEinval (env : FsEnv) : Prop where
  lookup : ∀ dir name, env.lookup dir name ≠ .error .einval
  create : ∀ dir name, env.create dir name ≠ .error .einval
  mkdir : ∀ dir name, env.mkdir dir name ≠ .error .einval
  unlink : ∀ dir name, env.unlink dir name ≠ .error .einval
  rmdir : ∀ dir name, env.rmdir dir name ≠ .error .einval
  openHook : ∀ inode, env.openHook inode ≠ .error .einval

/-- The same, where an operation that changes the tree answers with itself: what it does, in
which directory and under which name. -/
def FsEnv.marked (env : FsEnv) : FsEnv :=
  let mark (kind dir : Nat) (name : Name) : Errno := .other (Encodable.encode (kind, dir, name.map Char.toNat))
  { env with
    create := fun dir name => .error (mark 0 dir name)
    mkdir := fun dir name => .error (mark 1 dir name)
    unlink := fun dir name => .error (mark 2 dir name)
    rmdir := fun dir name => .error (mark 3 dir name) }

/-- The two names lead the call to the same result, and to the same operation on the tree. -/
structure PathCall.Agrees (call : PathCall) (env : FsEnv) (ctx : Context) (c : Cache) (r a : List Char) : Prop where
  result : call.run env ctx c r = call.run env ctx c a
  effect : call.run env.marked ctx c r = call.run env.marked ctx c a

/-- The call does not answer `-EINVAL`. -/
abbrev Answers {α : Type} (x : Except Fault (Cache × Except Errno α)) : Prop :=
  Ends (fun r => r.2 ≠ .error .einval) (fun _ => True) x

section Answers

variable {c : Cache} {d p : Id} {mnt : Vfsmount} {path : List Char}

/-- Whatever comes first. -/
theorem Answers.after {α β : Type} {x : Except Fault β} {next : β → Except Fault (Cache × Except Errno α)}
    (answers : ∀ b, Answers (next b)) : Answers (x >>= next) :=
  Ends.bind (Ends.of_forall (P := fun _ => True) (E := fun _ => True) (fun _ => trivial) (fun _ => trivial) x)
    fun b _ => answers b

theorem answers_failed {α : Type} {e : Errno} (other : e ≠ .einval) :
    Answers (failed c d e : Except Fault (Cache × Except Errno α)) :=
  Answers.after fun _ same => other (Except.error.inj same)

theorem answers_finish {α : Type} {ret : Except Errno α} (other : ret ≠ .error .einval) : Answers
    (finish c d p ret) :=
  Answers.after fun _ => Answers.after fun _ => other

theorem answers_lookupOneLen {env : Env} (lookup : ∀ dir name, env.lookup dir name ≠ .error .einval) (name : Name) :
    Answers (lookupOneLen env c name d) := by
  refine Answers.after fun r => ?_
  obtain ⟨c, looked⟩ := r
  cases looked with
  | some x => exact nofun
  | none =>
      refine Answers.after fun r => ?_
      obtain ⟨c, made⟩ := r
      cases made with
      | none => exact nofun
      | some x =>
          refine Answers.after fun _ => ?_
          cases (c.dentries d).dInode with
          | none => exact nofun
          | some dir =>
              dsimp only
              cases answer : env.lookup dir.iNo (name.take 63) with
              | error e =>
                  refine Answers.after fun _ same => lookup dir.iNo (name.take 63) ?_
                  rw [answer, Except.error.inj same]
              | ok found =>
                  cases found with
                  | none => exact Answers.after fun _ => nofun
                  | some inode => exact Answers.after fun _ => nofun

theorem answers_followLoop {env : Env} (lookup : ∀ dir name, env.lookup dir name ≠ .error .einval)
    (comps : List Name) :
    Answers (followLoop env c d mnt comps) := by
  induction comps generalizing c d mnt with
  | nil => exact nofun
  | cons comp rest ih =>
      have step : Answers (followStep env c d mnt comp) := by
        refine Answers.after fun _ => ?_
        cases (c.dentries d).dInode with
        | none => trivial
        | some inode =>
            dsimp only
            split
            · exact answers_failed nofun
            · split
              · exact nofun
              · split
                · refine Answers.after fun r => Answers.after fun _ => ?_
                  dsimp only
                  split
                  · exact nofun
                  · exact Answers.after fun _ => nofun
                · refine Ends.bind (answers_lookupOneLen lookup comp) ?_
                  rintro ⟨c, ret⟩ other
                  cases ret with
                  | error e => exact answers_failed fun same => other (congrArg Except.error same)
                  | ok found =>
                      cases found with
                      | none => exact answers_failed nofun
                      | some next =>
                          refine Answers.after fun _ => ?_
                          split
                          · exact Answers.after fun _ => Answers.after fun _ => Answers.after fun _ => nofun
                          · exact Answers.after fun _ => nofun
      refine Ends.bind step ?_
      rintro ⟨c, ret⟩ other
      cases ret with
      | error e => exact fun same => other (congrArg Except.error (Except.error.inj same))
      | ok place => exact ih

theorem answers_vfsPathLookup {env : Env} (lookup : ∀ dir name, env.lookup dir name ≠ .error .einval) (ctx : Context)
    (path : List Char) : Answers (vfsPathLookup env ctx c path) := by
  unfold vfsPathLookup followPath
  cases ctx.start path with
  | none => exact nofun
  | some place => exact Answers.after fun _ => answers_followLoop lookup _

theorem answers_inDirectory {α : Type} {env : Env} (lookup : ∀ dir name, env.lookup dir name ≠ .error .einval)
    (ctx : Context) {body : Cache → Id → Inode → Name → Except Fault (Cache × Except Errno α)}
    (inside : ∀ c p dir name, Answers (body c p dir name)) (slash : splitLastComponent path ≠ .error .einval) :
    Answers (inDirectory env ctx c path body) := by
  unfold inDirectory
  cases parts : splitLastComponent path with
  | error e => exact fun same => slash (parts.trans (congrArg Except.error (Except.error.inj same)))
  | ok both =>
      refine Ends.bind (answers_vfsPathLookup lookup ctx both.1) ?_
      rintro ⟨c, ret⟩ other
      cases ret with
      | error e => exact fun same => other (congrArg Except.error (Except.error.inj same))
      | ok place =>
          refine Answers.after fun dir => ?_
          split
          · exact answers_failed nofun
          · exact inside c place.1 dir both.2

theorem answers_removeIn {env : Env} (lookup : ∀ dir name, env.lookup dir name ≠ .error .einval)
    {remove : Inode → Inode → Name → Except Errno Unit}
    (removes : ∀ dir inode name, remove dir inode name ≠ .error .einval)
    (dir : Inode) (name : Name) : Answers (removeIn env remove c p dir name) := by
  refine Ends.bind (answers_lookupOneLen lookup name) ?_
  rintro ⟨c, ret⟩ other
  cases ret with
  | error e => exact answers_failed fun same => other (congrArg Except.error same)
  | ok found =>
      cases found with
      | none => exact answers_failed nofun
      | some d =>
          refine Answers.after fun _ => ?_
          split
          · exact answers_finish nofun
          · exact answers_finish (removes _ _ _)

theorem answers_dentryOpen {env : FsEnv} (answers : env.NoEinval) : Answers (dentryOpen env c d) := by
  refine Answers.after fun c => ?_
  cases (c.dentries d).dInode with
  | none => exact answers_failed nofun
  | some inode =>
      dsimp only
      split
      · exact answers_failed nofun
      · cases hook : env.openHook inode with
        | error e => exact answers_failed fun same => answers.openHook _ (same ▸ hook)
        | ok _ => exact nofun

theorem answers_createIn {env : FsEnv} (answers : env.NoEinval) (dir : Inode) (name : Name) :
    Answers (createIn env c p dir name) := by
  refine Answers.after fun r => ?_
  obtain ⟨c, made⟩ := r
  cases made with
  | none => exact answers_failed nofun
  | some d =>
      dsimp only
      split
      · exact Answers.after fun _ => answers_failed nofun
      · cases made : env.create dir.iNo (name.take 63) with
        | error e => exact Answers.after fun _ => answers_failed fun same => answers.create _ _ (same ▸ made)
        | ok inode =>
            refine Answers.after fun c => ?_
            refine Ends.bind (answers_dentryOpen answers) ?_
            rintro ⟨c, ret⟩ other
            exact Answers.after fun _ => Answers.after fun _ => other

theorem answers_mkdirIn {env : FsEnv} (answers : env.NoEinval) (dir : Inode) (name : Name) :
    Answers (mkdirIn env c p dir name) := by
  refine Answers.after fun r => ?_
  obtain ⟨c, made⟩ := r
  cases made with
  | none => exact answers_failed nofun
  | some d =>
      dsimp only
      cases made : env.mkdir dir.iNo (name.take 63) with
      | error e => exact answers_finish fun same => answers.mkdir _ _ (made.trans (congrArg Except.error (Except.error.inj same)))
      | ok inode => exact Answers.after fun _ => answers_finish nofun

end Answers

/-! ## Agreement -/

section Agrees

variable {c : Cache} {w : Id} {m : Vfsmount} {d r : List Char} {env : FsEnv} {ctx : Context}

theorem splitLastComponent_slash {path : List Char}
    (slash : '/' ∈ path) : splitLastComponent path ≠ .error .einval := by
  unfold splitLastComponent
  rw [if_pos slash]
  nofun

theorem slash_mem_join (d r : List Char) : '/' ∈ join d r := by simp [join]

/-- A call in a directory with a slash in its name. -/
theorem inDirectory_join {α : Type} (env : Env) (at_ : WorkingDirectory c (IsDir c) ctx d w m)
    (relative : r.head? ≠ some '/') (slash : '/' ∈ r) (short : (join d r).length < 256)
    (body : Cache → Id → Inode → Name → Except Fault (Cache × Except Errno α)) :
    inDirectory env ctx c (join d r) body = inDirectory env ctx c r body := by
  obtain ⟨p, name, relative', split_, splitJoin⟩ := splitLastComponent_both relative slash short
  unfold inDirectory
  rw [split_, splitJoin]
  dsimp only
  rw [vfsPathLookup_join env at_ relative']

/-- Without one it does not come to the directory. -/
theorem inDirectory_free {α : Type} (env : Env) (free : '/' ∉ r)
    (body : Cache → Id → Inode → Name → Except Fault (Cache × Except Errno α)) :
    inDirectory env ctx c r body = .ok (c, .error .einval) := by
  unfold inDirectory splitLastComponent
  rw [if_neg free]

/-- A call that answers `-EINVAL` parts from one that does not. -/
theorem Answers.parted {α : Type} {x : Except Fault (Cache × Except Errno α)} (answers : Answers x) (c₁ : Cache)
    (f : α → Option Id) : (Except.ok (c₁, .error .einval) : Except Fault (Cache × Except Errno α)).map
      (fun r => (r.1, r.2.map f)) ≠ x.map fun r => (r.1, r.2.map f) := by
  intro same
  cases x with
  | error e => cases same
  | ok out =>
      obtain ⟨c', ret⟩ := out
      cases ret with
      | ok a => cases same
      | error e =>
          cases same
          exact answers rfl

/-- So the names part, wherever the working directory is. -/
theorem inDirectory_parts {α : Type} {body : Cache → Id → Inode → Name → Except Fault (Cache × Except Errno α)}
    (lookup : ∀ dir name, env.lookup dir name ≠ .error .einval) (inside : ∀ c p dir name, Answers (body c p dir name))
    (free : '/' ∉ r) (f : α → Option Id) :
    (inDirectory env.toEnv ctx c r body).map (fun r => (r.1, r.2.map f)) ≠
      (inDirectory env.toEnv ctx c (join d r) body).map (fun r => (r.1, r.2.map f)) := by
  rw [inDirectory_free env.toEnv free]
  exact Answers.parted (answers_inDirectory lookup ctx inside (splitLastComponent_slash (slash_mem_join d r))) c f

/-- A call finds the same under both names, or creates a file under a name with a slash. -/
theorem vfsOpen_agrees (sound : Sound c) (at_ : WorkingDirectory c (IsDir c) ctx d w m)
    (relative : r.head? ≠ some '/') (short : (join d r).length < 256) {creat directory : Bool}
    (condition : '/' ∈ r ∨ ¬ (creat = true ∧ Missing env.toEnv ctx c r)) :
    vfsOpen env ctx c r creat directory = vfsOpen env ctx c (join d r) creat directory := by
  unfold vfsOpen
  rw [vfsPathLookup_join env.toEnv at_ relative]
  cases run : vfsPathLookup env.toEnv ctx c r with
  | error fault => rfl
  | ok out =>
      obtain ⟨c₁, ret⟩ := out
      rw [ok_bind, ok_bind]
      cases ret with
      | ok place => rfl
      | error e =>
          dsimp only
          split
          · rename_i makes
            obtain ⟨rfl, rfl⟩ := makes
            have slash : '/' ∈ r := condition.resolve_right fun kept => kept ⟨rfl, c₁, run⟩
            unfold vfsCreate
            rw [inDirectory_join env.toEnv (at_.same (vfsPathLookup_fails sound run)) relative slash short]
          · rfl

/-- A file that is missing under a relative name without a slash is not created. -/
theorem vfsOpen_parts (answers : env.NoEinval) {directory : Bool} (free : '/' ∉ r)
    (missing : Missing env.toEnv ctx c r) :
    (vfsOpen env ctx c r true directory).map (fun r => (r.1, r.2.map some)) ≠
      (vfsOpen env ctx c (join d r) true directory).map (fun r => (r.1, r.2.map some)) := by
  obtain ⟨c₁, run⟩ := missing
  have refused : vfsOpen env ctx c r true directory = .ok (c₁, .error .einval) := by
    unfold vfsOpen vfsCreate
    rw [run, ok_bind]
    dsimp only
    rw [if_pos ⟨rfl, rfl⟩, inDirectory_free env.toEnv free]
  have other : Answers (vfsOpen env ctx c (join d r) true directory) := by
    refine Ends.bind (answers_vfsPathLookup answers.lookup ctx (join d r)) ?_
    rintro ⟨c', ret⟩ other
    cases ret with
    | ok place =>
        refine Answers.after fun inode => ?_
        split
        · exact answers_failed nofun
        · refine Ends.bind (answers_dentryOpen answers) ?_
          rintro ⟨c, ret⟩ opened
          exact Answers.after fun _ => opened
    | error e =>
        dsimp only
        split
        · exact answers_inDirectory answers.lookup ctx (fun _ _ dir name => answers_createIn answers dir name)
            (splitLastComponent_slash (slash_mem_join d r))
        · exact fun same => other (congrArg Except.error (Except.error.inj same))
  rw [refused]
  exact other.parted c₁ some

/-- One result, below a working directory that is held. -/
theorem run_agrees (sound : Sound c) (at_ : WorkingDirectory c (IsDir c) ctx d w m)
    (relative : r.head? ≠ some '/') (short : (join d r).length < 256) (call : PathCall)
    (condition : '/' ∈ r ∨ ¬ call.Splits (Missing env.toEnv ctx c r)) :
    call.run env ctx c r = call.run env ctx c (join d r) := by
  cases call with
  | stat =>
      unfold PathCall.run vfsStat
      rw [vfsPathLookup_join env.toEnv at_ relative]
  | openFile creat directory trunc =>
      exact congrArg (Except.map _) (vfsOpen_agrees sound at_ relative short condition)
  | mkdir | unlink | rmdir =>
      have slash : '/' ∈ r := condition.resolve_right fun keeps => keeps trivial
      exact congrArg (Except.map _) (inDirectory_join env.toEnv at_ relative slash short _).symm

/-- Two results, wherever the working directory is. -/
theorem run_parts (answers : env.NoEinval) (call : PathCall) (free : '/' ∉ r)
    (splits : call.Splits (Missing env.toEnv ctx c r)) :
    call.run env ctx c r ≠ call.run env ctx c (join d r) := by
  cases call with
  | stat => exact splits.elim
  | openFile creat directory trunc =>
      obtain ⟨rfl, missing⟩ := splits
      exact vfsOpen_parts answers free missing
  | mkdir =>
      exact inDirectory_parts answers.lookup (fun _ _ dir name => answers_mkdirIn answers dir name) free _
  | unlink =>
      refine inDirectory_parts answers.lookup (fun _ _ dir name => answers_removeIn answers.lookup ?_ dir name) free _
      intro dir inode name
      split
      · nofun
      · exact answers.unlink _ _
  | rmdir =>
      refine inDirectory_parts answers.lookup (fun _ _ dir name => answers_removeIn answers.lookup ?_ dir name) free _
      intro dir inode name
      split
      · nofun
      · exact answers.rmdir _ _

end Agrees

/-! ## The directories `/a` and `/a/b` -/

/-- Every name is that of a directory, and another can be made. -/
def manyDirectories : FsEnv := { emptyRoot with toEnv := anyDirectory }

/-- After `chdir("/a")`. -/
def inA : Vfs :=
  match fdChdir anyDirectory (some 0) rootState ['/', 'a'] with
  | .ok (s, .ok ()) => s
  | _ => rootState

/-- After `chdir("/a/b")`, which gives the dentry of `/a` back to the allocator. -/
def inAB : Vfs :=
  match fdChdir anyDirectory (some 0) rootState ['/', 'a', '/', 'b'] with
  | .ok (s, .ok ()) => s
  | _ => rootState

theorem inA_a : Kept inA.cache 1 := ⟨by decide, by decide, nofun⟩

theorem inA_root : Kept inA.cache 0 := ⟨by decide, by decide, nofun⟩

theorem inA_sound : Sound inA.cache := by
  have live : inA.cache.live = [1, 0] := rfl
  intro d inside
  rw [live] at inside
  obtain rfl | rfl : d = 1 ∨ d = 0 := by simpa using inside
  · exact ⟨inA_a, [], ⟨⟨rfl, rfl⟩, List.nodup_singleton _⟩, nofun⟩
  · refine ⟨inA_root, [1], ⟨⟨⟨rfl, rfl⟩, rfl, rfl⟩, by decide⟩, fun x child => ?_⟩
    obtain rfl := List.mem_singleton.mp child
    exact ⟨inA_a, nofun⟩

theorem inA_held : HeldDown inA.cache (IsDir inA.cache) (inA.context (some 0)) ['/', 'a'] 1 ⟨0, 0, none⟩ where
  kept := inA_a
  leads := ⟨0, ⟨0, 0, none⟩, rfl, inA_root, .down inA_root rfl (by decide) rfl inA_a inA_a .here⟩

theorem manyDirectories_noEinval : manyDirectories.NoEinval := by
  refine ⟨?_, ?_, ?_, ?_, ?_, ?_⟩ <;> exact nofun

end Minus.Fs.Dcache
