/-
# Fs.VfsRun — runs of calls on the dentry cache

Between two calls every reference belongs to a holder (`Vfs.Good`), and each call of
`Fs.Vfs` that meets the condition of `Fs.VfsSafety` leads to such a state again.  So
does every run from a boot without a mount: no freed dentry is touched, and the
parents of live dentries are live.

The poles are at the end: a file below an open directory, and the same file opened
when nothing refers to its directory.
-/
import Minus.Fs.VfsSafety
import Minus.Theory.Machine

namespace Minus.Fs.Dcache

set_option autoImplicit false

open Minus.Theory Minus.Lib.Dlist

/-! ## Runs -/

/-- The invariant between two calls. -/
structure Vfs.Good (s : Vfs) : Prop where
  inv : Inv s.holders s.mounts s.cache [] none
  mounts : ∀ m ∈ s.mounts, ∀ up, m.mntParent = some up → up ∈ s.mounts
  root : ∀ m, s.rootMnt = some m → m ∈ s.mounts
  cwds : ∀ w ∈ s.cwds, w.2.2 ∈ s.mounts
  tasks : (s.cwds.map Prod.fst).Nodup
  fault : s.fault = none

section Runs

variable {s : Vfs} {c : Cache} {d : Id}

theorem mem_holders_of_mount {m : Vfsmount} (inside : m ∈ s.mounts) :
    m.mntRoot ∈ s.holders ∧ m.mntMountpoint ∈ s.holders := by
  have both : m.mntRoot ∈ s.mounts.flatMap (fun m => [m.mntRoot, m.mntMountpoint]) ∧
      m.mntMountpoint ∈ s.mounts.flatMap (fun m => [m.mntRoot, m.mntMountpoint]) :=
    ⟨List.mem_flatMap.mpr ⟨m, inside, by simp⟩, List.mem_flatMap.mpr ⟨m, inside, by simp⟩⟩
  unfold Vfs.holders
  exact ⟨by simp [both.1], by simp [both.2]⟩

theorem Vfs.Good.mounted (good : s.Good) : Mounted s.holders s.mounts := fun m inside =>
  ⟨(mem_holders_of_mount inside).1, (mem_holders_of_mount inside).2, good.mounts m inside⟩

theorem mem_of_lookup {t : Nat} {w : Id × Vfsmount} :
    ∀ {l : List (Nat × Id × Vfsmount)}, l.lookup t = some w → (t, w) ∈ l
  | (u, v) :: rest, found => by
      rw [List.lookup_cons] at found
      split at found
      · rename_i same
        cases found
        rw [beq_iff_eq.mp same]
        exact List.mem_cons_self
      · exact List.mem_cons_of_mem _ (mem_of_lookup found)

theorem Vfs.Good.placed (good : s.Good) (task : Option Nat) :
    Placed s.holders s.mounts (s.context task) := by
  refine ⟨good.root, ?_⟩
  intro d mnt place
  have place : task.bind (fun t => s.cwds.lookup t) = some (d, mnt) := place
  cases task with
  | none => cases place
  | some t =>
      have inside := mem_of_lookup place
      refine ⟨?_, good.cwds _ inside⟩
      have : d ∈ s.cwds.map (fun w => w.2.1) := List.mem_map.mpr ⟨_, inside, rfl⟩
      unfold Vfs.holders
      simp [this]

theorem Vfs.Good.withCache (good : s.Good) (inv : Inv s.holders s.mounts c [] none) :
    ({ s with cache := c } : Vfs).Good :=
  ⟨inv, good.mounts, good.root, good.cwds, good.tasks, good.fault⟩

/-- Another file, and the reference it has. -/
theorem Vfs.Good.addFile (good : s.Good) (inv : Inv s.holders s.mounts c [d] none) (n : Int) :
    ({ s with cache := c, files := ⟨d, n⟩ :: s.files } : Vfs).Good := by
  refine ⟨inv.acquire.reorder (List.perm_iff_count.mpr fun x => ?_), good.mounts, good.root,
    good.cwds, good.tasks, good.fault⟩
  simp only [Vfs.holders, List.map_cons, List.count_cons, List.count_append]
  omega

theorem Vfs.Good.addPath (good : s.Good) (inv : Inv s.holders s.mounts c [d] none) :
    ({ s with cache := c, paths := d :: s.paths } : Vfs).Good := by
  refine ⟨inv.acquire.reorder (List.perm_iff_count.mpr fun x => ?_), good.mounts, good.root,
    good.cwds, good.tasks, good.fault⟩
  simp only [Vfs.holders, List.count_cons, List.count_append]
  omega

theorem releasePath_good (good : s.Good) (i : Nat)
    (clean : ∀ d ∈ s.paths[i]?, ReleaseClean s.cache d) : Safe Vfs.Good (releasePath s i) := by
  unfold releasePath
  cases entry : s.paths[i]? with
  | none => exact good
  | some d =>
      obtain ⟨inside, rfl⟩ := List.getElem?_eq_some_iff.mp entry
      have perm : s.holders.Perm
          (s.paths[i] :: ({ s with paths := s.paths.eraseIdx i } : Vfs).holders) := by
        refine List.perm_iff_count.mpr fun x => ?_
        have := (List.getElem_cons_eraseIdx_perm inside).count_eq x
        simp only [Vfs.holders, List.count_cons, List.count_append] at this ⊢
        omega
      refine Ends.bind (release_spec (good.inv.reorder perm) (clean _ entry)) ?_
      intro c' inv'
      exact ⟨inv', good.mounts, good.root, good.cwds, good.tasks, good.fault⟩

theorem vfsClose_good (good : s.Good) (i : Nat)
    (clean : ∀ file ∈ s.files[i]?, ReleaseClean s.cache file.fDentry) :
    Safe Vfs.Good (vfsClose s i) := by
  unfold vfsClose
  cases entry : s.files[i]? with
  | none => exact good
  | some file =>
      obtain ⟨inside, rfl⟩ := List.getElem?_eq_some_iff.mp entry
      simp only
      split
      · have perm : s.holders.Perm
            (s.files[i].fDentry :: ({ s with files := s.files.eraseIdx i } : Vfs).holders) := by
          refine List.perm_iff_count.mpr fun x => ?_
          have := ((List.getElem_cons_eraseIdx_perm inside).map File.fDentry).count_eq x
          simp only [Vfs.holders, List.map_cons, List.count_cons, List.count_append] at this ⊢
          omega
        refine Ends.bind (release_spec (good.inv.reorder perm) (clean _ entry)) ?_
        intro c' inv'
        exact ⟨inv', good.mounts, good.root, good.cwds, good.tasks, good.fault⟩
      · have same : (s.files.set i { s.files[i] with fCount := s.files[i].fCount - 1 }).map File.fDentry =
            s.files.map File.fDentry := by
          rw [List.map_set]
          apply List.ext_getElem (by simp)
          intro j _ _
          rw [List.getElem_set]
          split
          · rename_i here
            subst here
            simp
          · rfl
        refine ⟨?_, good.mounts, good.root, good.cwds, good.tasks, good.fault⟩
        have inv := good.inv
        unfold Vfs.holders at inv ⊢
        rw [same]
        exact inv

/-- The entry of a task apart from the others. -/
theorem lookup_perm {t : Nat} {w : Id × Vfsmount} : ∀ {l : List (Nat × Id × Vfsmount)},
    (l.map Prod.fst).Nodup → l.lookup t = some w → l.Perm ((t, w) :: l.filter (·.1 ≠ t))
  | (u, v) :: rest, nodup, found => by
      obtain ⟨absent, nodup⟩ := List.nodup_cons.mp nodup
      rw [List.lookup_cons] at found
      split at found
      · rename_i same
        cases found
        have same : t = u := beq_iff_eq.mp same
        subst same
        have keep : rest.filter (·.1 ≠ t) = rest := by
          rw [List.filter_eq_self]
          intro entry inside
          have : entry.1 ≠ t := fun here => absent (List.mem_map.mpr ⟨entry, inside, here⟩)
          simpa using this
        rw [List.filter_cons_of_neg (by simp), keep]
      · rename_i other
        have other : u ≠ t := fun same => by simp [same] at other
        rw [List.filter_cons_of_pos (by simpa using other)]
        exact ((lookup_perm nodup found).cons (u, v)).trans (List.Perm.swap _ _ _)

theorem filter_of_lookup_none {t : Nat} : ∀ {l : List (Nat × Id × Vfsmount)},
    l.lookup t = none → l.filter (·.1 ≠ t) = l
  | [], _ => rfl
  | (u, v) :: rest, absent => by
      rw [List.lookup_cons] at absent
      split at absent
      · cases absent
      · rename_i other
        have other : u ≠ t := fun same => by simp [same] at other
        rw [List.filter_cons_of_pos (by simpa using other), filter_of_lookup_none absent]

/-- The working directory of a task, once its old reference is gone. -/
theorem Vfs.Good.setCwd (good : s.Good) {t : Nat} {mnt : Vfsmount} (known : mnt ∈ s.mounts)
    (inv : Inv ({ s with cwds := (t, d, mnt) :: s.cwds.filter (·.1 ≠ t) } : Vfs).holders s.mounts c
      [] none) :
    ({ s with cache := c, cwds := (t, d, mnt) :: s.cwds.filter (·.1 ≠ t) } : Vfs).Good := by
  refine ⟨inv, good.mounts, good.root, ?_, ?_, good.fault⟩
  · intro w inside
    rcases List.mem_cons.mp inside with rfl | inside
    · exact known
    · exact good.cwds w (List.mem_of_mem_filter inside)
  · rw [List.map_cons, List.nodup_cons]
    refine ⟨?_, good.tasks.sublist (List.filter_sublist.map _)⟩
    intro inside
    obtain ⟨w, inside, same⟩ := List.mem_map.mp inside
    have := (List.mem_filter.mp inside).2
    simp [same] at this

theorem fdChdir_good (good : s.Good) (env : Env) (task : Option Nat) (path : List Char)
    (clean : ChdirClean s.holders env (s.context task) s.cache path ((s.cwd task).map Prod.fst)) :
    Safe (fun r => r.1.Good) (fdChdir env task s path) := by
  cases task with
  | none => exact good
  | some t =>
      have walk := vfsPathLookup_spec env good.mounted (good.placed (some t)) good.inv path clean.1
      refine Ends.bind (walk.clean clean.2) ?_
      rintro ⟨c', ret⟩ ⟨walked, clean⟩
      cases ret with
      | error e => exact good.withCache walked
      | ok place =>
          obtain ⟨d, mnt⟩ := place
          obtain ⟨inv, known⟩ := walked
          have live : d ∈ c'.live := inv.live_of_extra List.mem_cons_self
          refine Ends.bind (inodeOf_spec inv live) fun inode entry => ?_
          show Safe _ (if _ then _ else _)
          split
          · refine Ends.bind (dput_spec inv (.inl rfl)) fun c'' inv'' => ?_
            exact good.withCache inv''
          · rename_i dir
            have dir : (c'.dentries d).dInode.any (·.isDir) = true := by simpa [entry] using dir
            have acquired := inv.acquire
            cases old : s.cwds.lookup t with
            | none =>
                refine good.setCwd known (acquired.reorder (List.perm_iff_count.mpr fun x => ?_))
                rw [filter_of_lookup_none old]
                simp only [Vfs.holders, List.map_cons, List.count_cons, List.count_append]
                omega
            | some was =>
                obtain ⟨was, wasMnt⟩ := was
                have perm : (d :: s.holders).Perm (was ::
                    ({ s with cwds := (t, d, mnt) :: s.cwds.filter (·.1 ≠ t) } : Vfs).holders) := by
                  refine List.perm_iff_count.mpr fun x => ?_
                  have := ((lookup_perm good.tasks old).map fun w => w.2.1).count_eq x
                  simp only [Vfs.holders, List.map_cons, List.count_cons, List.count_append] at this ⊢
                  omega
                have released := clean dir was (by
                  show was ∈ ((s.cwds.lookup t).map Prod.fst)
                  rw [old]
                  rfl)
                refine Ends.bind (release_spec (acquired.reorder perm) released) fun c'' inv'' => ?_
                exact good.setCwd known inv''

/-- `kern_mount` leaves the references of the super block and of the mount. -/
theorem kernMount_spec {holders : List Id} {mounts : List Vfsmount} (env : FsEnv)
    (inv : Inv holders mounts c [] none) :
    Safe (fun r => match r.2.1 with
        | .ok root => Inv holders mounts r.1 [root, root] none
        | .error _ => Inv holders mounts r.1 r.2.2.toList none)
      (kernMount env c) := by
  unfold kernMount
  cases env.mount with
  | error e => exact inv
  | ok inode =>
      refine Ends.bind (dAlloc_root_spec env.toEnv inv ['/']) ?_
      rintro ⟨c', made⟩ allocated
      cases made with
      | none => exact allocated
      | some root =>
          obtain ⟨_, fresh, _⟩ := allocated
          refine Ends.bind (dInstantiate_spec fresh inode) ?_
          rintro c₁ ⟨fresh', entry⟩
          have settled := fresh'.settle (.inl rfl) (by simp [entry])
          show Safe _ (if _ then _ else _)
          split
          · exact settled
          · refine Ends.bind (dget_spec settled (settled.live_of_extra List.mem_cons_self)) ?_
            exact fun c₂ inv₂ => inv₂

/-- A dentry becomes a mount point. -/
theorem Inv.cover {holders extra : List Id} {mounts : List Vfsmount}
    (inv : Inv holders mounts c extra none) (p : Id) (mnt : Vfsmount) :
    Inv holders (mnt :: mounts) (c.modify p fun e => { e with dMounted := some mnt }) extra none := by
  have fields (x : Id) :
      ((c.modify p fun e => { e with dMounted := some mnt }).dentries x).dParent =
        (c.dentries x).dParent ∧
      ((c.modify p fun e => { e with dMounted := some mnt }).dentries x).dCount =
        (c.dentries x).dCount ∧
      ((c.modify p fun e => { e with dMounted := some mnt }).dentries x).dInode =
        (c.dentries x).dInode := by
    by_cases here : x = p
    · subst here
      rw [modify_self]
      exact ⟨rfl, rfl, rfl⟩
    · rw [modify_of_ne c _ here]
      exact ⟨rfl, rfl, rfl⟩
  obtain ⟨children, rings⟩ := inv.rings
  refine ⟨?_, inv.live_iff, inv.nodup, ⟨children, rings.congr rfl rfl fun x => (fields x).1⟩, ?_, ?_, ?_⟩
  · intro x there
    rw [(fields x).2.1]
    exact inv.count x there
  · intro x there
    rw [(fields x).1]
    exact inv.anchored x there
  · intro x there
    rw [(fields x).2.2]
    exact inv.positive x there
  · intro x there m covers
    by_cases here : x = p
    · subst here
      rw [modify_self] at covers
      cases covers
      exact List.mem_cons_self
    · rw [modify_of_ne c _ here] at covers
      exact List.mem_cons_of_mem mnt (inv.mounted x there m covers)

/-- One more mount, with the references it has. -/
theorem Vfs.Good.addMount (good : s.Good) {mnt : Vfsmount}
    (parent : ∀ up, mnt.mntParent = some up → up ∈ s.mounts)
    (inv : Inv s.holders (mnt :: s.mounts) c [mnt.mntMountpoint, mnt.mntRoot, mnt.mntRoot] none) :
    (s.addMount c mnt).Good := by
  refine ⟨inv.acquire.acquire.acquire.reorder (List.perm_iff_count.mpr fun x => ?_), ?_, ?_, ?_,
    good.tasks, good.fault⟩
  · simp only [Vfs.addMount, Vfs.holders, List.flatMap_cons, List.count_cons, List.count_append,
      List.count_nil]
    omega
  · intro m inside up above
    rcases List.mem_cons.mp inside with rfl | inside
    · exact List.mem_cons_of_mem _ (parent up above)
    · exact List.mem_cons_of_mem _ (good.mounts m inside up above)
  · exact fun m known => List.mem_cons_of_mem _ (good.root m known)
  · exact fun w inside => List.mem_cons_of_mem _ (good.cwds w inside)

theorem Vfs.Good.addSuperblock (good : s.Good) (inv : Inv s.holders s.mounts c [d] none) :
    ({ s with cache := c, superblocks := d :: s.superblocks } : Vfs).Good :=
  ⟨inv.acquire, good.mounts, good.root, good.cwds, good.tasks, good.fault⟩

theorem mountOn_good (good : s.Good) (env : FsEnv) (task : Option Nat) {root : Id} (path : List Char)
    (inv : Inv s.holders s.mounts c [root, root] none)
    (clean : PathClean s.holders env.toEnv (s.context task) c path) :
    Safe (fun r => r.1.Good) (mountOn env task s c root path) := by
  refine Ends.bind (vfsPathLookup_spec env.toEnv good.mounted (good.placed task) inv path clean) ?_
  rintro ⟨c', ret⟩ walked
  cases ret with
  | error e =>
      refine Ends.bind (dput_spec walked (.inl rfl)) fun c₁ inv₁ => ?_
      exact good.addSuperblock inv₁
  | ok place =>
      obtain ⟨p, up⟩ := place
      obtain ⟨inv', known⟩ := walked
      have live : p ∈ c'.live := inv'.live_of_extra List.mem_cons_self
      refine Ends.bind (inodeOf_spec inv' live) fun inode _ => ?_
      show Safe _ (if _ then _ else _)
      split
      · refine Ends.bind (dput_spec inv' (.inl rfl)) fun c₁ inv₁ => ?_
        refine Ends.bind (dput_spec inv₁ (.inl rfl)) fun c₂ inv₂ => ?_
        exact good.addSuperblock inv₂
      · split
        · refine Ends.bind (dput_spec inv' (.inl rfl)) fun c₁ inv₁ => ?_
          refine Ends.bind (dput_spec inv₁ (.inl rfl)) fun c₂ inv₂ => ?_
          exact good.addSuperblock inv₂
        · refine Ends.bind (dget_spec inv' live) fun c₁ inv₁ => ?_
          refine Ends.bind (dput_spec (inv₁.cover p ⟨root, p, some up⟩) (.inl rfl))
            fun c₂ inv₂ => ?_
          refine good.addMount ?_ inv₂
          rintro _ ⟨⟩
          exact known

theorem vfsDoMount_good (good : s.Good) (env : FsEnv) (task : Option Nat) (path : List Char)
    (clean : path ≠ ['/'] → Ends (fun r => ∀ root, r.2.1 = .ok root →
      PathClean s.holders env.toEnv (s.context task) r.1 path) (fun _ => True)
      (kernMount env s.cache)) :
    Safe (fun r => r.1.Good) (vfsDoMount env task s path) := by
  by_cases top : path = ['/']
  · refine Ends.bind (kernMount_spec env good.inv) ?_
    rintro ⟨c', ret, made⟩ mounted
    cases ret with
    | error e =>
        cases made with
        | none => exact good.withCache mounted
        | some root => exact good.addSuperblock mounted
    | ok root =>
        have inv : Inv s.holders s.mounts c' [root, root] none := mounted
        show Safe _ (if _ then _ else _)
        rw [if_pos top]
        refine Ends.bind (dget_spec inv (inv.live_of_extra List.mem_cons_self)) fun c₁ inv₁ => ?_
        have more : Inv s.holders (⟨root, root, none⟩ :: s.mounts) c₁ [root, root, root] none :=
          ⟨inv₁.count, inv₁.live_iff, inv₁.nodup, inv₁.rings, inv₁.anchored, inv₁.positive,
            fun x there m covers => List.mem_cons_of_mem _ (inv₁.mounted x there m covers)⟩
        have good' : (s.addMount c₁ ⟨root, root, none⟩).Good := good.addMount (fun _ => nofun) more
        refine ⟨good'.inv, good'.mounts, ?_, good'.cwds, good'.tasks, good'.fault⟩
        rintro m ⟨⟩
        exact List.mem_cons_self
  · refine Ends.bind ((kernMount_spec env good.inv).clean (clean top)) ?_
    rintro ⟨c', ret, made⟩ ⟨mounted, clean⟩
    cases ret with
    | error e =>
        cases made with
        | none => exact good.withCache mounted
        | some root => exact good.addSuperblock mounted
    | ok root =>
        show Safe _ (if _ then _ else _)
        rw [if_neg top]
        exact mountOn_good good env task path mounted (clean root rfl)

/-- **Every clean call keeps the invariant and meets no fault.** -/
theorem perform_good (good : s.Good) (a : Action) (clean : Clean s a) : Safe Vfs.Good (perform s a) := by
  obtain ⟨env, task, call⟩ := a
  have sound := good.mounted
  have placed := good.placed task
  cases call with
  | lookup path =>
      refine Ends.bind (vfsPathLookup_spec env.toEnv sound placed good.inv path clean) ?_
      rintro ⟨c', ret⟩ walked
      cases ret with
      | error e => exact good.withCache walked
      | ok place => exact good.addPath walked.1
  | release i => exact releasePath_good good i clean
  | openFile path creat directory =>
      refine Ends.bind (vfsOpen_spec env sound placed good.inv path creat directory clean) ?_
      rintro ⟨c', ret⟩ opened
      cases ret with
      | error e => exact good.withCache opened
      | ok d => exact good.addFile opened 1
  | close i => exact vfsClose_good good i clean
  | stat path =>
      refine Ends.bind (vfsStat_spec env.toEnv sound placed good.inv path clean) ?_
      exact fun r inv => good.withCache inv
  | mkdir path =>
      refine Ends.bind (inDirectory_keeps env.toEnv sound placed good.inv path
        (fun c p dir name inv => mkdirIn_spec env inv dir name) clean) ?_
      exact fun r inv => good.withCache inv
  | unlink path =>
      refine Ends.bind (inDirectory_keeps env.toEnv sound placed good.inv path
        (fun c p dir name inv => removeIn_spec env.toEnv _ inv dir name) clean) ?_
      exact fun r inv => good.withCache inv
  | rmdir path =>
      refine Ends.bind (inDirectory_keeps env.toEnv sound placed good.inv path
        (fun c p dir name inv => removeIn_spec env.toEnv _ inv dir name) clean) ?_
      exact fun r inv => good.withCache inv
  | chdir path =>
      refine Ends.bind (fdChdir_good good env.toEnv task path clean) ?_
      exact fun r good' => good'
  | mount path =>
      refine Ends.bind (vfsDoMount_good good env task path clean) ?_
      exact fun r good' => good'

theorem initial_good : Vfs.initial.Good := by
  have none (x : Id) : x ∉ Vfs.initial.cache.live := List.not_mem_nil
  refine ⟨⟨?_, ?_, List.nodup_nil, ⟨fun _ => [], ?_, ?_, ?_, ?_⟩, ?_, ?_, ?_⟩, ?_, ?_, ?_,
    List.nodup_nil, rfl⟩
  · exact fun x there => absurd there (none x)
  · exact fun x => Iff.rfl
  · exact ⟨fun x there => absurd there (none x), fun x _ there => absurd there (none x)⟩
  · exact fun x there => absurd there (none x)
  · exact fun x there => absurd there (none x)
  · exact fun x there => absurd there (none x)
  · exact fun x there => absurd there (none x)
  · exact fun x there => absurd there (none x)
  · exact fun x there => absurd there (none x)
  · exact fun m inside => absurd inside List.not_mem_nil
  · exact fun m => nofun
  · exact fun w inside => absurd inside List.not_mem_nil

end Runs

/-- A fault stays in the state. -/
def step (s : Vfs) (a : Action) : Vfs :=
  match perform s a with
  | .ok s' => s'
  | .error f => { s with fault := some f }

def machine : Machine Vfs Action where
  enabled _ _ := True
  step := step

/-- Every live dentry has a live parent, and is on the list of a parent other than itself. -/
def ParentsLive (c : Cache) : Prop :=
  ∀ d ∈ c.live, (c.dentries d).dParent ∈ c.live ∧
    ((c.dentries d).dParent ≠ d →
      ∃ l, c.links.Ring (.subdirs (c.dentries d).dParent) l ∧ Node.child d ∈ l)

theorem Inv.parentsLive {holders extra : List Id} {mounts : List Vfsmount} {c : Cache}
    {tmp : Option Id} (inv : Inv holders mounts c extra tmp) : ParentsLive c := by
  obtain ⟨children, rings⟩ := inv.rings
  intro d live
  have parent := rings.parent d live
  refine ⟨parent, fun other => ⟨_, rings.family.ring _ parent, ?_⟩⟩
  exact List.mem_map_of_mem ((rings.member _ parent d).mpr ⟨live, rfl, other.symm⟩)

theorem step_good {s : Vfs} {a : Action} (good : s.Good) (clean : Clean s a) : (step s a).Good := by
  have safe := perform_good good a clean
  unfold step
  cases result : perform s a with
  | ok s' =>
      rw [result] at safe
      exact safe
  | error f =>
      rw [result] at safe
      exact safe.elim

/-- **Parents outlive their children.**  In every run of clean calls no freed dentry
is touched, and every live dentry's parent is live and has it on its list. -/
theorem dentry_parents_live (actions : List Action)
    (admitted : (machine.guard Clean).Admits Vfs.initial actions) :
    (machine.run Vfs.initial actions).fault = none ∧
      ParentsLive (machine.run Vfs.initial actions).cache := by
  have good := Machine.run_invariant (machine.guard Clean) (I := Vfs.Good)
    (fun s a good enabled => step_good good enabled.2) initial_good admitted
  rw [Machine.guard_run] at good
  exact ⟨good.fault, good.inv.parentsLive⟩

/-! ### A small tree -/

section Decide

variable (holders : List Id)

instance (env : Env) (c : Cache) (d : Id) (comp : Name) : Decidable (StepClean holders env c d comp) :=
  inferInstanceAs (Decidable (_ → _ → _ → Ends _ _ _))

instance decidableWalkClean (env : Env) :
    ∀ comps c d mnt, Decidable (WalkClean holders env comps c d mnt)
  | [], _, _, _ => isTrue trivial
  | _ :: rest, _, _, _ =>
      have (c : Cache) (d : Id) (mnt : Vfsmount) : Decidable (WalkClean holders env rest c d mnt) :=
        decidableWalkClean env rest c d mnt
      inferInstanceAs (Decidable (_ ∧ Ends _ _ _))

instance (env : Env) (ctx : Context) (c : Cache) (path : List Char) :
    Decidable (PathClean holders env ctx c path) := by
  unfold PathClean
  exact match ctx.start path with
    | none => isTrue trivial
    | some (d, mnt) => inferInstanceAs (Decidable (Ends _ _ (dget c d)))

instance (env : Env) (ctx : Context) (c : Cache) (path : List Char)
    (body : Cache → Id → Inode → Name → Prop) [∀ c p dir name, Decidable (body c p dir name)] :
    Decidable (DirectoryClean holders env ctx c path body) :=
  inferInstanceAs (Decidable (Ends _ _ (splitLastComponent path)))

instance (answer : Except Errno Unit) : Decidable (answer = .ok ()) :=
  match answer with
  | .ok () => isTrue rfl
  | .error _ => isFalse nofun

instance (env : FsEnv) (c : Cache) (p : Id) (dir : Inode) (name : Name) :
    Decidable (CreateClean holders env c p dir name) :=
  inferInstanceAs (Decidable (_ → Ends _ _ (env.create dir.iNo (name.take 63))))

instance (env : FsEnv) (ctx : Context) (c : Cache) (path : List Char) (creat : Bool) :
    Decidable (OpenClean holders env ctx c path creat) :=
  inferInstanceAs (Decidable (_ ∧ Ends _ _ (vfsPathLookup env.toEnv ctx c path)))

instance (c : Cache) (d : Id) : Decidable (ReleaseClean c d) := inferInstanceAs (Decidable (_ ∨ _))

end Decide

/-- `/a` is a directory with the file `b` in it. -/
def smallEnv : FsEnv where
  alloc _ live := (List.range (live.length + 1)).find? (· ∉ live)
  lookup dir name :=
    if dir = 2 ∧ name = ['a'] then .ok (some ⟨10, true⟩)
    else if dir = 10 ∧ name = ['b'] then .ok (some ⟨11, false⟩)
    else .ok none
  fresh := firstFree_fresh
  create _ _ := .error .eperm
  mkdir _ _ := .error .eperm
  unlink _ _ := .error .eperm
  rmdir _ _ := .error .eperm
  fileAlloc := true
  openHook _ := .ok ()
  mount := .ok ⟨2, true⟩
  mntAlloc := true

def small (call : Call) : Action := ⟨smallEnv, none, call⟩

/-- A file below an open directory: both live, and the file closed first. -/
theorem open_below_open_directory :
    let actions := [small (.mount ['/']), small (.openFile ['/', 'a'] false true),
      small (.openFile ['/', 'a', '/', 'b'] false false), small (.close 0), small (.close 0)]
    (machine.guard Clean).Admits Vfs.initial actions ∧
      (machine.run Vfs.initial (actions.take 3)).cache.live.length = 3 ∧
      ((machine.run Vfs.initial actions).fault = none ∧
        ParentsLive (machine.run Vfs.initial actions).cache) := by
  intro actions
  have admitted : (machine.guard Clean).Admits Vfs.initial actions := by
    refine ⟨⟨trivial, ?_⟩, ⟨trivial, ?_⟩, ⟨trivial, ?_⟩, ⟨trivial, ?_⟩, ⟨trivial, ?_⟩,
      trivial⟩
    · exact fun other => absurd rfl other
    · show OpenClean _ _ _ _ _ _
      decide +kernel
    · show OpenClean _ _ _ _ _ _
      decide +kernel
    · show ∀ file ∈ _, ReleaseClean _ _
      decide +kernel
    · show ∀ file ∈ _, ReleaseClean _ _
      decide +kernel
  exact ⟨admitted, by decide +kernel, dentry_parents_live actions admitted⟩

/-- The file `/a/b` opened after boot: the walk frees `a`, and `b` names it as its parent. -/
theorem open_two_levels_down :
    ¬ ∀ actions : List Action, machine.Admits Vfs.initial actions →
      (machine.run Vfs.initial actions).fault = none ∧
        ParentsLive (machine.run Vfs.initial actions).cache := by
  intro claim
  let actions := [small (.mount ['/']), small (.openFile ['/', 'a', '/', 'b'] false false)]
  have live := (claim actions ⟨trivial, trivial, trivial⟩).2
  have opened : (machine.run Vfs.initial actions).cache.live = [2, 0] := by decide +kernel
  have parent : ((machine.run Vfs.initial actions).cache.dentries 2).dParent = 1 := by
    decide +kernel
  have := (live 2 (by rw [opened]; decide)).1
  rw [opened, parent] at this
  exact absurd this (by decide)

end Minus.Fs.Dcache
