/-
# Fs.FdtableRun — every file is closed once, unless it is left in the table

`Tidy` is the account of a table's files: the `held` ones sit in one slot each, the
`loose` ones are between `vfs_open` and `fd_install` or between `put_unused_fd` and
`vfs_close`, and every other file that was ever made has been closed, once.  Each
call keeps it, and no reference to a dentry is lost.

`free_files_struct` closes no file.  So the files are all released exactly if the
table is empty when it is destroyed (`files_released_iff`); the three descriptors
that `setup_std_fds` installs are not closed at exit (`std_fds_leak`).
-/
import Minus.Fs.Fdtable
import Minus.Fs.VfsRun

namespace Minus.Fs.Fdtable

set_option autoImplicit false

open Minus.Theory
open Minus.Fs.Dcache (Id Inode Cache Vfs Vfsmount Fault FsEnv Context dput Inv Safe OpenClean ReleaseClean
  Mounted Placed)

/-! ## The account -/

def FdState.dentryOf (s : FdState) (p : Nat) : Id := (s.file p).fDentry

/-- Who refers to dentries between two calls. -/
def FdState.holders (s : FdState) : List Id := s.live.map s.dentryOf ++ s.vfs.holders

/-- What has been done to a file, in order. -/
def FdState.eventsOf (s : FdState) (p : Nat) : List Event := s.events.filter (·.file = p)

/-- One `vfs_close`: the hook if there is one, one `dput` and one `kfree`. -/
def closing (p : Nat) (f : File) : List Event :=
  (if f.fRelease then [Event.release p] else []) ++ [.dput p, .kfree p]

structure Tidy (base : Vfs) (held loose : List Nat) (s : FdState) : Prop where
  vfs : s.vfs = { base with cache := s.vfs.cache }
  live : s.live.Perm (loose ++ held)
  inv : Inv (held.map s.dentryOf ++ base.holders) base.mounts s.vfs.cache (loose.map s.dentryOf) none
  slots : ∀ p, p ∈ held ↔ ∃ fd, s.table.fdArray fd = some p
  once : ∀ fd fd' p, s.table.fdArray fd = some p → s.table.fdArray fd' = some p → fd = fd'
  nodup : s.live.Nodup
  count : ∀ p ∈ s.live, (s.file p).fCount = 1
  known : ∀ p ∈ s.live, p < s.made
  events : ∀ p, s.eventsOf p = if p < s.made ∧ p ∉ s.live then closing p (s.file p) else []
  cwd : s.table.cwd = none
  fault : s.fault = none

/-- Between two calls. -/
abbrev Settled (base : Vfs) (s : FdState) : Prop := Tidy base s.live [] s

section Tidy

variable {base : Vfs} {held loose : List Nat} {s : FdState} {p : Nat}

theorem Tidy.settle (tidy : Tidy base held [] s) : Settled base s := by
  have perm : held.Perm s.live := tidy.live.symm
  refine { tidy with live := List.Perm.refl _, inv := ?_, slots := ?_ }
  · exact tidy.inv.reorder ((perm.map s.dentryOf).append_right _)
  · intro q
    rw [← perm.mem_iff, tidy.slots]

theorem Settled.holders_eq (settled : Settled base s) :
    s.holders = s.live.map s.dentryOf ++ base.holders := by
  unfold FdState.holders
  rw [settled.vfs]
  rfl

theorem filesCreate_settled (good : base.Good) : Settled base (filesCreate base) where
  vfs := rfl
  live := List.Perm.refl _
  inv := good.inv
  slots p := by simp [filesCreate]
  once _ _ _ := nofun
  nodup := List.nodup_nil
  count _ := nofun
  known _ := nofun
  events p := by simp [filesCreate, FdState.eventsOf]
  cwd := rfl
  fault := rfl

/-- The references counted below are those of more holders. -/
theorem mounted_append {holders more : List Id} {mounts : List Vfsmount} (sound : Mounted holders mounts) :
    Mounted (more ++ holders) mounts := by
  intro m inside
  obtain ⟨root, point, up⟩ := sound m inside
  exact ⟨List.mem_append_right _ root, List.mem_append_right _ point, up⟩

theorem placed_append {holders more : List Id} {mounts : List Vfsmount} {ctx : Context}
    (placed : Placed holders mounts ctx) : Placed (more ++ holders) mounts ctx :=
  ⟨placed.1, fun d mnt there => ⟨List.mem_append_right _ (placed.2 d mnt there).1,
    (placed.2 d mnt there).2⟩⟩

/-! ## vfs_open and vfs_close -/

/-- What `vfs_open` leaves: one more file, in flight, or what there was. -/
def Opened (base : Vfs) (s : FdState) (r : FdState × Except Errno Nat) : Prop :=
  r.1.table = s.table ∧
  match r.2 with
  | .ok p => Tidy base s.live [p] r.1 ∧ p = s.made ∧ r.1.live = s.made :: s.live ∧
      r.1.live.map r.1.dentryOf = r.1.dentryOf p :: s.live.map s.dentryOf
  | .error _ => Tidy base s.live [] r.1 ∧ r.1.live = s.live ∧ r.1.file = s.file

theorem vfsOpen_opened (env : FileEnv) {ctx : Context} (settled : Settled base s)
    (sound : Mounted base.holders base.mounts) (placed : Placed base.holders base.mounts ctx)
    (path : List Char) (creat directory : Bool)
    (clean : OpenClean s.holders env.toFsEnv ctx s.vfs.cache path creat) :
    Safe (Opened base s) (vfsOpen env ctx s path creat directory) := by
  rw [settled.holders_eq] at clean
  have spec := Dcache.vfsOpen_spec env.toFsEnv (mounted_append sound) (placed_append placed)
    settled.inv path creat directory clean
  refine Ends.bind spec ?_
  rintro ⟨c, ret⟩ gives
  cases ret with
  | error e =>
      refine ⟨rfl, { settled with vfs := ?_, inv := gives }, rfl, rfl⟩
      show ({ s.vfs with cache := c } : Vfs) = _
      rw [settled.vfs]
      rfl
  | ok d =>
      have new : s.made ∉ s.live := fun member => Nat.lt_irrefl _ (settled.known _ member)
      -- the dentries of the files there were
      have old (f : File) : s.live.map (fun p => (Function.update s.file s.made f p).fDentry) =
          s.live.map s.dentryOf := by
        apply List.map_congr_left
        intro q member
        rw [Function.update_of_ne (ne_of_mem_of_not_mem member new)]
        rfl
      have self (f : File) : Function.update s.file s.made f s.made = f := Function.update_self _ _ _
      refine ⟨rfl, ⟨?_, List.Perm.refl _, ?_, settled.slots, settled.once,
        List.nodup_cons.2 ⟨new, settled.nodup⟩, ?_, ?_, ?_, settled.cwd, settled.fault⟩, rfl, rfl, ?_⟩
      · show ({ s.vfs with cache := c } : Vfs) = _
        rw [settled.vfs]
        rfl
      · show Inv (s.live.map (fun p => (Function.update s.file s.made _ p).fDentry) ++ _) _ c
          [(Function.update s.file s.made _ s.made).fDentry] none
        rw [old, self]
        exact gives
      · intro q member
        show (Function.update s.file s.made _ q).fCount = 1
        rcases List.mem_cons.1 member with rfl | before
        · rw [self]
        · rw [Function.update_of_ne (ne_of_mem_of_not_mem before new)]
          exact settled.count q before
      · intro q member
        rcases List.mem_cons.1 member with rfl | before
        · exact Nat.lt_succ_self _
        · exact Nat.lt_succ_of_lt (settled.known q before)
      · intro q
        show s.eventsOf q = if q < s.made + 1 ∧ q ∉ s.made :: s.live then
          closing q (Function.update s.file s.made _ q) else []
        rw [settled.events q]
        by_cases same : q = s.made
        · rw [if_neg (by omega), if_neg (fun h => h.2 (same ▸ List.mem_cons_self))]
        · rw [Function.update_of_ne same]
          apply if_congr _ rfl rfl
          rw [List.mem_cons, not_or]
          constructor
          · rintro ⟨small, gone⟩
            exact ⟨by omega, same, gone⟩
          · rintro ⟨small, _, gone⟩
            exact ⟨by omega, gone⟩
      · show List.map (fun p => (Function.update s.file s.made _ p).fDentry) (s.made :: s.live) = _
        rw [List.map_cons, old]
        rfl

/-- **`vfs_close` closes a file in flight, once.** -/
theorem vfsClose_tidy (tidy : Tidy base held [p] s) :
    Safe (fun s' => Tidy base held [] s' ∧ s'.table = s.table ∧ s'.live = s.live.erase p ∧ s'.file = s.file)
      (vfsClose s p) := by
  have live : p ∈ s.live := tidy.live.mem_iff.2 List.mem_cons_self
  unfold vfsClose
  rw [if_neg (not_not_intro live)]
  dsimp only
  rw [tidy.count p live, if_pos (by decide)]
  refine Ends.bind (Dcache.dput_spec tidy.inv (.inl rfl)) ?_
  intro c inv
  have left : (s.live.erase p).Perm held := by
    have erased := tidy.live.erase p
    rwa [List.singleton_append, List.erase_cons_head] at erased
  refine ⟨⟨?_, left, inv, tidy.slots, tidy.once, tidy.nodup.erase _, ?_, ?_, ?_, tidy.cwd,
    tidy.fault⟩, rfl, rfl, rfl⟩
  · show ({ s.vfs with cache := c } : Vfs) = _
    rw [tidy.vfs]
    rfl
  · exact fun q member => tidy.count q (List.mem_of_mem_erase member)
  · exact fun q member => tidy.known q (List.mem_of_mem_erase member)
  · intro q
    have before := tidy.events q
    show (s.events ++ (if (s.file p).fRelease then [Event.release p] else []) ++
      [Event.dput p, Event.kfree p]).filter (·.file = q) = if q < s.made ∧ q ∉ s.live.erase p then
        closing q (s.file q) else []
    rw [List.append_assoc, List.filter_append]
    change s.eventsOf q ++ (closing p (s.file p)).filter (·.file = q) = _
    rw [before]
    have ofP : ∀ e ∈ closing p (s.file p), e.file = p := by
      intro e member
      unfold closing at member
      rcases List.mem_append.1 member with hook | rest
      · split at hook
        · rw [List.mem_singleton.1 hook]
          rfl
        · cases hook
      · rcases List.mem_cons.1 rest with rfl | last
        · rfl
        · rw [List.mem_singleton.1 last]
          rfl
    by_cases same : q = p
    · subst same
      have all : (closing q (s.file q)).filter (·.file = q) = closing q (s.file q) :=
        List.filter_eq_self.2 fun e member => by simpa using ofP e member
      rw [if_neg (fun h => h.2 live), List.nil_append, all,
        if_pos ⟨tidy.known q live, fun still => (tidy.nodup.mem_erase_iff.1 still).1 rfl⟩]
    · have none : (closing p (s.file p)).filter (·.file = q) = [] :=
        List.filter_eq_nil_iff.2 fun e member => by
          rw [ofP e member]
          simpa using Ne.symm same
      rw [none, List.append_nil]
      apply if_congr _ rfl rfl
      rw [List.mem_erase_of_ne same]

/-! ## The slots -/

/-- The file in flight goes into a free slot. -/
theorem Tidy.install {fd : Fd} (tidy : Tidy base held [p] s) (free : s.table.fdArray fd = none) :
    Tidy base (p :: held) [] { s with table := fdInstall s.table fd p } := by
  have apart : p ∉ held := (List.nodup_cons.1 (tidy.live.nodup_iff.1 tidy.nodup)).1
  have slot (fd' : Fd) : (fdInstall s.table fd p).fdArray fd' =
      if fd' = fd then some p else s.table.fdArray fd' := by
    show Function.update s.table.fdArray fd (some p) fd' = _
    rw [Function.update_apply]
  have notHeld : ∀ fd', s.table.fdArray fd' ≠ some p := fun fd' there =>
    apart ((tidy.slots p).2 ⟨fd', there⟩)
  refine { tidy with live := tidy.live, inv := tidy.inv.acquire, slots := ?_, once := ?_ }
  · intro q
    constructor
    · intro member
      rcases List.mem_cons.1 member with rfl | before
      · exact ⟨fd, by rw [slot, if_pos rfl]⟩
      · obtain ⟨fd', there⟩ := (tidy.slots q).1 before
        refine ⟨fd', ?_⟩
        rw [slot, if_neg]
        · exact there
        · rintro rfl
          rw [free] at there
          cases there
    · rintro ⟨fd', there⟩
      rw [slot] at there
      split at there
      · cases there
        exact List.mem_cons_self
      · exact List.mem_cons_of_mem _ ((tidy.slots q).2 ⟨fd', there⟩)
  · intro a b q first second
    rw [slot] at first second
    split at first
    · rename_i here
      cases first
      split at second
      · rename_i there
        rw [here, there]
      · exact absurd second (notHeld b)
    · split at second
      · cases second
        exact absurd first (notHeld a)
      · exact tidy.once a b q first second

/-- A file leaves its slot and is in flight. -/
theorem Settled.remove {fd : Fd} (settled : Settled base s) (there : s.table.fdArray fd = some p)
    (clean : ReleaseClean s.vfs.cache (s.dentryOf p)) :
    Tidy base (s.live.erase p) [p]
      { s with table := { s.table with fdArray := Function.update s.table.fdArray fd none } } := by
  have live : p ∈ s.live := (settled.slots p).2 ⟨fd, there⟩
  have perm : s.live.Perm (p :: s.live.erase p) := List.perm_cons_erase live
  refine { settled with live := perm, inv := ?_, slots := ?_, once := ?_ }
  · exact (settled.inv.reorder ((perm.map s.dentryOf).append_right _)).release clean
  · intro q
    rw [settled.nodup.mem_erase_iff, settled.slots]
    constructor
    · rintro ⟨other, fd', here⟩
      refine ⟨fd', ?_⟩
      show Function.update s.table.fdArray fd none fd' = _
      rw [Function.update_of_ne, here]
      rintro rfl
      exact other (Option.some.inj (here.symm.trans there))
    · rintro ⟨fd', here⟩
      change Function.update s.table.fdArray fd none fd' = _ at here
      have other : fd' ≠ fd := by
        rintro rfl
        rw [Function.update_self] at here
        cases here
      rw [Function.update_of_ne other] at here
      refine ⟨?_, fd', here⟩
      rintro rfl
      exact other (settled.once fd' fd q here there)
  · intro a b q first second
    change Function.update s.table.fdArray fd none a = _ at first
    change Function.update s.table.fdArray fd none b = _ at second
    rw [Function.update_apply] at first second
    split at first
    · cases first
    · split at second
      · cases second
      · exact settled.once a b q first second

theorem getUnusedFd_some {files : FilesStruct} {fd : Fd} (found : getUnusedFd files = some fd) :
    files.fdArray fd = none ∧ ∀ lower < fd, files.fdArray lower ≠ none := by
  obtain ⟨free, before, after, split, taken⟩ := List.find?_eq_some_iff_append.1 found
  refine ⟨by simpa using free, fun lower less => ?_⟩
  have sorted : (before ++ fd :: after).Pairwise (· < ·) := by
    rw [← split]
    exact List.pairwise_lt_finRange nrOpenDefault
  have member : lower ∈ before ++ fd :: after := by
    rw [← split]
    exact List.mem_finRange lower
  -- what is not before `fd` is not below it
  rcases List.mem_append.1 member with inside | rest
  · exact Option.isSome_iff_ne_none.1 (by simpa using taken lower inside)
  · have least := (List.pairwise_append.1 sorted).2.1
    rcases List.mem_cons.1 rest with rfl | later
    · exact absurd less (Nat.lt_irrefl _)
    · exact absurd ((List.pairwise_cons.1 least).1 lower later) (Nat.lt_asymm less)

/-- The dentries and their counts are the same. -/
def SameCounts (c c' : Cache) : Prop :=
  (∀ d, d ∈ c'.live ↔ d ∈ c.live) ∧ ∀ d ∈ c.live, (c'.dentries d).dCount = (c.dentries d).dCount

theorem sameCounts_of_inv {holders : List Id} {mounts : List Vfsmount} {c c' : Cache}
    (inv : Inv holders mounts c [] none) (inv' : Inv holders mounts c' [] none) : SameCounts c c' := by
  refine ⟨fun d => ?_, fun d live => ?_⟩
  · rw [inv'.live_iff, inv.live_iff]
  · rw [inv.count d live, inv'.count d ((inv'.live_iff d).2 ((inv.live_iff d).1 live))]

/-- What an open leaves: the file in the lowest free slot, or everything as it was. -/
def Lowest (s : FdState) (r : FdState × Except Errno Fd) : Prop :=
  match r.2 with
  | .ok fd => s.table.fdArray fd = none ∧ (∀ lower < fd, s.table.fdArray lower ≠ none) ∧
      r.1.table = fdInstall s.table fd s.made ∧ r.1.live = s.made :: s.live
  | .error _ => r.1.table = s.table ∧ r.1.live = s.live ∧ SameCounts s.vfs.cache r.1.vfs.cache

/-- **An open installs its file in the lowest free slot, or keeps nothing.** -/
theorem openInstall_settled (env : FileEnv) {ctx : Context} (settled : Settled base s)
    (sound : Mounted base.holders base.mounts) (placed : Placed base.holders base.mounts ctx)
    (path : List Char) (creat directory : Bool)
    (clean : OpenClean s.holders env.toFsEnv ctx s.vfs.cache path creat) :
    Safe (fun r => Settled base r.1 ∧ Lowest s r) (openInstall env ctx s path creat directory) := by
  have dentries {s' : FdState} (same : s'.live.map s'.dentryOf = s.live.map s.dentryOf)
      (settled' : Settled base s') : SameCounts s.vfs.cache s'.vfs.cache :=
    sameCounts_of_inv settled.inv (same ▸ settled'.inv)
  refine Ends.bind (vfsOpen_opened env settled sound placed path creat directory clean) ?_
  rintro ⟨s₁, ret⟩ ⟨table, opened⟩
  cases ret with
  | error e =>
      obtain ⟨tidy, live, file⟩ := opened
      have settled₁ := tidy.settle
      refine ⟨settled₁, table, live, dentries ?_ settled₁⟩
      show s₁.live.map (fun p => (s₁.file p).fDentry) = _
      rw [live, file]
      rfl
  | ok p =>
      obtain ⟨tidy, rfl, live, mapped⟩ := opened
      change s₁.live = _ at live
      change s₁.table = _ at table
      dsimp only
      cases slot : getUnusedFd s₁.table with
      | none =>
          refine Ends.bind (vfsClose_tidy tidy) ?_
          rintro s₂ ⟨tidy₂, table₂, live₂, file₂⟩
          have settled₂ := tidy₂.settle
          have back : s₂.live = s.live := by rw [live₂, live, List.erase_cons_head]
          refine ⟨settled₂, table₂.trans table, back, dentries ?_ settled₂⟩
          show s₂.live.map (fun p => (s₂.file p).fDentry) = _
          rw [back, file₂]
          change s₁.live.map s₁.dentryOf = _ at mapped
          rw [live, List.map_cons] at mapped
          exact (List.cons.inj mapped).2
      | some fd =>
          rw [table] at slot
          obtain ⟨free, lowest⟩ := getUnusedFd_some slot
          refine ⟨(tidy.install (by rw [table]; exact free)).settle, free, lowest, ?_, live⟩
          show fdInstall s₁.table fd s.made = _
          rw [table]

theorem toFd_some {fd : Int} {slot : Fd} (known : toFd fd = some slot) (files : FilesStruct) :
    fget files fd = files.fdArray slot ∧
      putUnusedFd files fd = { files with fdArray := Function.update files.fdArray slot none } := by
  unfold fget putUnusedFd
  rw [known]
  exact ⟨rfl, rfl⟩

/-- The file of the slot gives up its dentry cleanly. -/
def SlotClean (s : FdState) (fd : Int) : Prop :=
  ∀ p ∈ fget s.table fd, ReleaseClean s.vfs.cache (s.dentryOf p)

theorem closeSlot_settled (settled : Settled base s) {fd : Int} (clean : SlotClean s fd) :
    Safe (fun r => Settled base r.1) (closeSlot s fd) := by
  unfold closeSlot
  cases there : fget s.table fd with
  | none => exact settled
  | some p =>
      cases known : toFd fd with
      | none =>
          rw [fget, known] at there
          cases there
      | some slot =>
          obtain ⟨get, put⟩ := toFd_some known s.table
          have tidy := settled.remove (get.symm.trans there) (clean p there)
          rw [← put] at tidy
          refine Ends.bind (vfsClose_tidy tidy) ?_
          exact fun s' closed => closed.1.settle

/-! ## setup_std_fds -/

/-- Each open of the loop is clean where it happens. -/
def SetupClean (ctx : Context) : List FileEnv → FdState → Prop
  | [], _ => True
  | env :: rest, s => OpenClean s.holders env.toFsEnv ctx s.vfs.cache devConsole false ∧
      Ends (fun r => Ends (fun _ => SetupClean ctx rest r.1) (fun _ => True) r.2) (fun _ => True)
        (openInstall env ctx s devConsole false false)

def FailClean : List Int → FdState → Prop
  | [], _ => True
  | fd :: rest, s => SlotClean s fd ∧ Ends (fun r => FailClean rest r.1) (fun _ => True) (closeSlot s fd)

theorem setupLoop_settled {ctx : Context} (sound : Mounted base.holders base.mounts)
    (placed : Placed base.holders base.mounts ctx) {envs : List FileEnv} (settled : Settled base s)
    (clean : SetupClean ctx envs s) : Safe (fun r => Settled base r.1) (setupLoop ctx envs s) := by
  induction envs generalizing s with
  | nil => exact settled
  | cons env rest ih =>
      obtain ⟨opens, later⟩ := clean
      have opened := openInstall_settled env settled sound placed devConsole false false opens
      refine Ends.bind (opened.clean later) ?_
      rintro ⟨s', ret⟩ ⟨⟨settled', _⟩, clean'⟩
      cases ret with
      | error e => exact settled'
      | ok fd => exact ih settled' clean'

theorem failLoop_settled {fds : List Int} (settled : Settled base s) (clean : FailClean fds s) :
    Safe (Settled base) (failLoop fds s) := by
  induction fds generalizing s with
  | nil => exact settled
  | cons fd rest ih =>
      obtain ⟨slot, later⟩ := clean
      refine Ends.bind ((closeSlot_settled settled slot).clean later) ?_
      exact fun r both => ih both.1 both.2

/-! ## Runs -/

/-- The condition on a call. -/
def Clean (s : FdState) : FdCall → Prop
  | .openat env path creat _ =>
      OpenClean s.holders env.toFsEnv ⟨s.vfs.rootMnt, s.table.cwd⟩ s.vfs.cache path creat
  | .close fd => SlotClean s fd.toInt32.toInt
  | .setupStdFds envs task =>
      SetupClean (s.vfs.context task) [envs 0, envs 1, envs 2] s ∧
        Ends (fun r => Ends (fun _ => True) (fun _ => FailClean [0, 1, 2] r.1) r.2) (fun _ => True)
          (setupLoop (s.vfs.context task) [envs 0, envs 1, envs 2] s)

theorem Settled.own_placed (settled : Settled base s) (good : base.Good) :
    Placed base.holders base.mounts ⟨s.vfs.rootMnt, s.table.cwd⟩ := by
  rw [settled.vfs, settled.cwd]
  exact ⟨good.root, fun _ _ => nofun⟩

theorem Settled.task_placed (settled : Settled base s) (good : base.Good) (task : Option Nat) :
    Placed base.holders base.mounts (s.vfs.context task) := by
  rw [settled.vfs]
  exact good.placed task

theorem perform_settled (good : base.Good) (settled : Settled base s) (call : FdCall)
    (clean : Clean s call) : Safe (Settled base) (perform s call) := by
  cases call with
  | openat env path creat directory =>
      refine Ends.bind (openInstall_settled env settled good.mounted (settled.own_placed good) path
        creat directory clean) ?_
      exact fun r opened => opened.1
  | close fd =>
      refine Ends.bind (closeSlot_settled settled clean) ?_
      exact fun r closed => closed
  | setupStdFds envs task =>
      refine Ends.bind (P := fun r => Settled base r.1) ?_ (by rintro ⟨s', _⟩ settled'; exact settled')
      have loop := setupLoop_settled good.mounted (settled.task_placed good task) settled clean.1
      refine Ends.bind (loop.clean clean.2) ?_
      rintro ⟨s', ret⟩ ⟨settled', clean'⟩
      cases ret with
      | ok u => exact settled'
      | error e =>
          refine Ends.bind (failLoop_settled settled' clean') ?_
          exact fun s'' settled'' => settled''

end Tidy

def step (s : FdState) (call : FdCall) : FdState :=
  match perform s call with
  | .ok s' => s'
  | .error f => { s with fault := some f }

def machine : Machine FdState FdCall where
  enabled _ _ := True
  step := step

/-- The file system is in a state that clean calls lead to. -/
def Reached (vfs : Vfs) : Prop :=
  ∃ actions, (Dcache.machine.guard Dcache.Clean).Admits Vfs.initial actions ∧
    Dcache.machine.run Vfs.initial actions = vfs

theorem Reached.good {vfs : Vfs} (reached : Reached vfs) : vfs.Good := by
  obtain ⟨actions, admitted, rfl⟩ := reached
  have good := Machine.run_invariant (Dcache.machine.guard Dcache.Clean) (I := Vfs.Good)
    (fun s a good enabled => Dcache.step_good good enabled.2) Dcache.initial_good admitted
  rwa [Machine.guard_run] at good

/-- Every file that was made has been closed once, and every dentry has the count that it
had before. -/
structure Released (vfs : Vfs) (s : FdState) : Prop where
  closed : ∀ p < s.made, s.eventsOf p = closing p (s.file p)
  counts : SameCounts vfs.cache s.vfs.cache

theorem run_settled {vfs : Vfs} (good : vfs.Good) {s : FdState} {calls : List FdCall}
    (settled : Settled vfs s) (admitted : (machine.guard Clean).Admits s calls) :
    Settled vfs (machine.run s calls) := by
  rw [← machine.guard_run Clean]
  refine Machine.run_invariant (machine.guard Clean) (I := Settled vfs) ?_ settled admitted
  intro s call settled enabled
  have safe := perform_settled good settled call enabled.2
  show Settled vfs (step s call)
  unfold step
  cases result : perform s call with
  | ok s' =>
      rw [result] at safe
      exact safe
  | error f =>
      rw [result] at safe
      exact safe.elim

/-- What is left in the table is never closed, and pins its dentry. -/
theorem Settled.released_iff {vfs : Vfs} {s : FdState} (good : vfs.Good) (settled : Settled vfs s) :
    Released vfs s ↔ ∀ fd, s.table.fdArray fd = none := by
  constructor
  · intro released fd
    cases there : s.table.fdArray fd with
    | none => rfl
    | some p =>
        have live := (settled.slots p).2 ⟨fd, there⟩
        have closed := released.closed p (settled.known p live)
        rw [settled.events p, if_neg (fun gone => gone.2 live)] at closed
        exact absurd closed.symm (by simp [closing])
  · intro empty
    have none : s.live = [] := by
      apply List.eq_nil_iff_forall_not_mem.2
      intro p live
      obtain ⟨fd, there⟩ := (settled.slots p).1 live
      rw [empty fd] at there
      cases there
    refine ⟨fun p small => ?_, sameCounts_of_inv good.inv ?_⟩
    · rw [settled.events p, if_pos ⟨small, by simp [none]⟩]
    · have inv := settled.inv
      rw [none] at inv
      exact inv

/-- **Every file is released once exactly if the table is empty when it is destroyed.**
In a run of clean calls there is no fault, and an open takes the lowest free descriptor
or keeps nothing. -/
theorem files_released_iff {vfs : Vfs} (reached : Reached vfs) {calls : List FdCall}
    (admitted : (machine.guard Clean).Admits (filesCreate vfs) calls) :
    let s := machine.run (filesCreate vfs) calls
    s.fault = none ∧
    (∀ env path creat directory, Clean s (.openat env path creat directory) →
      Ends (Lowest s) (fun _ => False) (fdOpenat env s path creat directory)) ∧
    ∃ s', filesDestroy s = .ok s' ∧ (Released vfs s' ↔ ∀ fd, s.table.fdArray fd = none) := by
  intro s
  have good := reached.good
  have settled : Settled vfs s := run_settled good (filesCreate_settled good) admitted
  refine ⟨settled.fault, ?_, s, ?_, settled.released_iff good⟩
  · intro env path creat directory clean
    have opened := openInstall_settled env settled good.mounted (settled.own_placed good) path
      creat directory clean
    exact opened.mono (fun r both => both.2) fun _ fault => fault
  · unfold filesDestroy
    rw [settled.cwd]

/-! ### A console -/

section Decide

instance (s : FdState) (fd : Int) : Decidable (SlotClean s fd) :=
  inferInstanceAs (Decidable (∀ p ∈ fget s.table fd, ReleaseClean s.vfs.cache (s.dentryOf p)))

instance decidableSetupClean (ctx : Context) : ∀ envs s, Decidable (SetupClean ctx envs s)
  | [], _ => isTrue trivial
  | _ :: rest, _ =>
      have (s : FdState) : Decidable (SetupClean ctx rest s) := decidableSetupClean ctx rest s
      inferInstanceAs (Decidable (_ ∧ Ends _ _ _))

instance decidableFailClean : ∀ fds s, Decidable (FailClean fds s)
  | [], _ => isTrue trivial
  | _ :: rest, _ =>
      have (s : FdState) : Decidable (FailClean rest s) := decidableFailClean rest s
      inferInstanceAs (Decidable (_ ∧ Ends _ _ _))

instance decidableClean (s : FdState) : ∀ call, Decidable (Clean s call)
  | .openat _ _ _ _ => inferInstanceAs (Decidable (OpenClean _ _ _ _ _ _))
  | .close _ => inferInstanceAs (Decidable (SlotClean _ _))
  | .setupStdFds _ _ => inferInstanceAs (Decidable (SetupClean _ _ _ ∧ Ends _ _ _))

instance (s : FdState) (call : FdCall) : Decidable ((machine.guard Clean).enabled s call) :=
  inferInstanceAs (Decidable (True ∧ Clean s call))

end Decide

/-- `/dev` is a directory of the root, and `console` a file of the file system there. -/
def consoleEnv (root : Nat) : FsEnv where
  alloc _ live := (List.range (live.length + 1)).find? (· ∉ live)
  lookup dir name :=
    if dir = 2 ∧ name = ['d', 'e', 'v'] then .ok (some ⟨10, true⟩)
    else if dir = 20 ∧ name = ['c', 'o', 'n', 's', 'o', 'l', 'e'] then .ok (some ⟨21, false⟩)
    else .ok none
  fresh := Dcache.firstFree_fresh
  create _ _ := .error .eperm
  mkdir _ _ := .error .eperm
  unlink _ _ := .error .eperm
  rmdir _ _ := .error .eperm
  fileAlloc := true
  openHook _ := .ok ()
  mount := .ok ⟨root, true⟩
  mntAlloc := true

/-- A boot with the root and devfs mounted. -/
def bootActions : List Dcache.Action :=
  [⟨consoleEnv 2, none, .mount ['/']⟩, ⟨consoleEnv 20, none, .mount ['/', 'd', 'e', 'v']⟩]

def bootVfs : Vfs := Dcache.machine.run Vfs.initial bootActions

theorem bootVfs_reached : Reached bootVfs := by
  refine ⟨bootActions, ⟨⟨trivial, ?_⟩, ⟨trivial, ?_⟩, trivial⟩, rfl⟩
  · exact fun other => absurd rfl other
  · rintro - root ⟨⟩
    decide +kernel

def setupStd : FdCall := .setupStdFds (fun _ => ⟨consoleEnv 2, fun _ => false⟩) none

/-- A process that closes its three descriptors before it exits. -/
def closeAll : List FdCall := [setupStd, .close 0, .close 1, .close 2]

theorem files_released_closed :
    (machine.run (filesCreate bootVfs) closeAll).made = 3 ∧
    ∃ s', filesDestroy (machine.run (filesCreate bootVfs) closeAll) = .ok s' ∧ Released bootVfs s' := by
  have admitted : (machine.guard Clean).Admits (filesCreate bootVfs) closeAll := by decide +kernel
  obtain ⟨_, _, s', destroyed, released⟩ := files_released_iff bootVfs_reached admitted
  exact ⟨by decide +kernel, s', destroyed, released.2 (by decide +kernel)⟩

/-- **A process that just exits leaves its descriptors open**: none of the three files is
closed, and the console's dentry stays with three references. -/
theorem std_fds_leak :
    Reached bootVfs ∧ (machine.guard Clean).Admits (filesCreate bootVfs) [setupStd] ∧
    ∃ s', filesDestroy (machine.run (filesCreate bootVfs) [setupStd]) = .ok s' ∧
      s'.made = 3 ∧ s'.events = [] ∧ s'.dentryOf 0 ∉ bootVfs.cache.live ∧
      s'.dentryOf 0 ∈ s'.vfs.cache.live ∧ (s'.vfs.cache.dentries (s'.dentryOf 0)).dCount = 3 ∧
      ¬ Released bootVfs s' := by
  refine ⟨bootVfs_reached, by decide +kernel, _, rfl, by decide +kernel, by decide +kernel,
    by decide +kernel, by decide +kernel, by decide +kernel, fun released => ?_⟩
  have live := (released.counts.1 3).1
  exact absurd (live (by decide +kernel)) (by decide +kernel)

end Minus.Fs.Fdtable
