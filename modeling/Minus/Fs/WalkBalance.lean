/-
# Fs.WalkBalance — a walk leaves one reference behind

A walk of `follow_path` holds one reference, to the dentry it has come to.  As long as every
directory that it goes through was in the cache before and somebody else refers to it, giving
up the reference to it frees nothing, and the cache is the one at the start but for that one
count: `Holding` says so, with the dentry that is new below the last directory as the other
case.  `Holding.bump` and `Holding.dput` carry it through the six ways on; what it says of
the counts alone is `Balanced`.
-/
import Minus.Fs.DcacheTree
import Minus.Fs.PathNames

namespace Minus.Fs.Dcache

set_option autoImplicit false

open Minus.Theory Minus.Lib.Dlist

/-! ## The counts, and what a walk needs -/

/-- The counts of the dentries that were there are the same but for that of `got`, and a new
dentry is `got`, with one reference. -/
structure Balanced (c c' : Cache) (got : Option Id) : Prop where
  old : ∀ d ∈ c.live, d ∈ c'.live ∧
    (c'.dentries d).dCount = (c.dentries d).dCount + if got = some d then 1 else 0
  new : ∀ d, d ∉ c.live → (d ∈ c'.live ↔ got = some d) ∧ (d ∈ c'.live → (c'.dentries d).dCount = 1)

/-- In the cache, with a reference and an inode. -/
structure Kept (c : Cache) (d : Id) : Prop where
  live : d ∈ c.live
  held : 1 ≤ (c.dentries d).dCount
  inode : (c.dentries d).dInode ≠ none

/-- A directory that is kept, with its list of children, and what is mounted on them. -/
structure Directory (c : Cache) (d : Id) : Prop extends Kept c d where
  children : ∃ l : List Id, c.links.Ring (.subdirs d) (l.map .child) ∧
    ∀ x ∈ l, Kept c x ∧ ∀ sub, (c.dentries x).dMounted = some sub → Kept c sub.mntRoot

/-- Where `..` starts from: outside, at the root of a mounted file system. -/
def outside (mnt : Vfsmount) (d : Id) : Id :=
  match mnt.mntParent with
  | some _ => if mnt.mntRoot = d then mnt.mntMountpoint else d
  | none => d

/-- The directory `d` that a walk goes through was kept in the cache `c₀` of the start. -/
def StepHeld (c₀ c : Cache) (d : Id) (mnt : Vfsmount) (comp : Name) : Prop :=
  (c.dentries d).dInode.any (·.isDir) = true → comp ≠ ['.'] →
    Directory c₀ d ∧ (comp = ['.', '.'] → Kept c₀ (outside mnt d) ∧ Kept c₀ (c₀.dentries (outside mnt d)).dParent)

def WalkHeld (c₀ : Cache) (env : Env) : List Name → Cache → Id → Vfsmount → Prop
  | [], _, _, _ => True
  | comp :: rest, c, d, mnt =>
      StepHeld c₀ c d mnt comp ∧
        Ends (fun r => Ends (fun place => WalkHeld c₀ env rest r.1 place.1 place.2) (fun _ => True) r.2)
          (fun _ => True) (followStep env c d mnt comp)

/-- Every directory that the walk goes through was kept in `c₀`. -/
def PathHeld (c₀ : Cache) (env : Env) (ctx : Context) (c : Cache) (path : List Char) : Prop :=
  ∀ d mnt, ctx.start path = some (d, mnt) →
    Kept c₀ d ∧ Ends (fun c => WalkHeld c₀ env (components path) c d mnt) (fun _ => True) (dget c d)

/-- So was the directory of a file that is made. -/
def OpenHeld (c₀ : Cache) (env : Env) (ctx : Context) (c : Cache) (path : List Char) (creat : Bool) : Prop :=
  PathHeld c₀ env ctx c path ∧
    Ends (fun r => Ends (fun _ => True)
        (fun e => creat = true → e = .enoent → ∀ parent name, splitLastComponent path = .ok (parent, name) →
          PathHeld c₀ env ctx r.1 parent ∧
            Ends (fun r => Ends (fun place => (r.1.dentries place.1).dInode.any (·.isDir) = true →
                Directory c₀ place.1) (fun _ => True) r.2)
              (fun _ => True) (vfsPathLookup env ctx r.1 parent))
        r.2)
      (fun _ => True) (vfsPathLookup env ctx c path)

/-! ## One reference more or less -/

section Bump

variable {c c' : Cache} {d p x : Id} {m n : Int}

def Cache.bump (c : Cache) (d : Id) (n : Int) : Cache := c.modify d fun e => { e with dCount := e.dCount + n }

theorem bump_self (c : Cache) (d : Id) (n : Int) :
    (c.bump d n).dentries d = { c.dentries d with dCount := (c.dentries d).dCount + n } :=
  modify_self c d _

theorem bump_of_ne (other : x ≠ d) : (c.bump d n).dentries x = c.dentries x :=
  modify_of_ne c _ other

theorem bump_count (c : Cache) (d x : Id) (n : Int) :
    ((c.bump d n).dentries x).dCount = (c.dentries x).dCount + if x = d then n else 0 := by
  by_cases here : x = d
  · rw [here, bump_self, if_pos rfl]
  · rw [bump_of_ne here, if_neg here, Int.add_zero]

/-- Nothing but the count changes. -/
theorem bump_fields (c : Cache) (d x : Id) (n : Int) :
    ((c.bump d n).dentries x).dInode = (c.dentries x).dInode ∧
      ((c.bump d n).dentries x).dParent = (c.dentries x).dParent ∧
      ((c.bump d n).dentries x).dMounted = (c.dentries x).dMounted := by
  by_cases here : x = d
  · rw [here, bump_self]
    exact ⟨rfl, rfl, rfl⟩
  · rw [bump_of_ne here]
    exact ⟨rfl, rfl, rfl⟩

theorem bump_bump (c : Cache) (d : Id) (m n : Int) : (c.bump d m).bump d n = c.bump d (m + n) := by
  simp [Cache.bump, Cache.modify, Int.add_assoc]

@[simp] theorem bump_zero (c : Cache) (d : Id) : c.bump d 0 = c := by
  simp [Cache.bump, Cache.modify]

theorem bump_comm (c : Cache) (d x : Id) (m n : Int) : (c.bump d m).bump x n = (c.bump x n).bump d m := by
  by_cases here : d = x
  · rw [here, bump_bump, bump_bump, Int.add_comm]
  · simp [Cache.bump, Cache.modify, here, Ne.symm here, Function.update_comm here]

theorem dget_eq (live : d ∈ c.live) : dget c d = .ok (c.bump d 1) := by
  rw [dget, touch, if_pos live]
  rfl

theorem dput_eq (live : d ∈ c.live) (more : 2 ≤ (c.dentries d).dCount) : dput c d = .ok (c.bump d (-1)) := by
  rw [dput, touch, if_pos live]
  show (if _ then _ else _) = _
  rw [modify_self, if_neg (by dsimp only; omega)]
  rfl

theorem Kept.bump (kept : Kept c x) (d : Id) (grows : 0 ≤ n) : Kept (c.bump d n) x where
  live := kept.live
  held := by
    have held := kept.held
    rw [bump_count]
    split <;> omega
  inode := by
    rw [(bump_fields c d x n).1]
    exact kept.inode

theorem Directory.bump (dir : Directory c x) (d : Id) (grows : 0 ≤ n) : Directory (c.bump d n) x := by
  obtain ⟨l, ring, each⟩ := dir.children
  refine ⟨dir.toKept.bump d grows, l, ring, fun y inside => ⟨(each y inside).1.bump d grows, fun sub covers => ?_⟩⟩
  rw [(bump_fields c d y n).2.2] at covers
  exact ((each y inside).2 sub covers).bump d grows

end Bump

/-! ## The same cache, and one with a new dentry -/

/-- The same cache, as far as its dentries go. -/
structure Same (c c' : Cache) : Prop where
  live : c'.live = c.live
  dentries : ∀ d ∈ c.live, c'.dentries d = c.dentries d
  links : ∀ node : Node, node.owner ∈ c.live →
    c'.links.next node = c.links.next node ∧ c'.links.prev node = c.links.prev node

/-- The same with a new dentry `d`, the first child of `p`, with one reference. -/
structure Born (c c' : Cache) (p d : Id) : Prop where
  fresh : d ∉ c.live
  live : c'.live = d :: c.live
  dentries : ∀ x ∈ c.live, c'.dentries x = c.dentries x
  count : (c'.dentries d).dCount = 1
  unmounted : (c'.dentries d).dMounted = none
  empty : c'.links.Alone (.subdirs d)
  parent : p ∈ c.live
  joined : (c.links.next (.subdirs p)).owner ∈ c.live ∧ c.links.prev (c.links.next (.subdirs p)) = .subdirs p
  links : ∀ node : Node, node = .child d ∨ node.owner ∈ c.live →
    c'.links.next node = (c.links.splice (.subdirs p) (.child d) (c.links.next (.subdirs p))).next node ∧
      c'.links.prev node = (c.links.splice (.subdirs p) (.child d) (c.links.next (.subdirs p))).prev node

section Same

variable {c c' c'' : Cache} {d p x : Id} {n : Int}

theorem Same.refl (c : Cache) : Same c c := ⟨rfl, fun _ _ => rfl, fun _ _ => ⟨rfl, rfl⟩⟩

theorem Same.bump (same : Same c c') (d : Id) (n : Int) : Same (c.bump d n) (c'.bump d n) where
  live := same.live
  dentries x inside := by
    by_cases here : x = d
    · subst here
      rw [bump_self, bump_self, same.dentries x inside]
    · rw [bump_of_ne here, bump_of_ne here, same.dentries x inside]
  links := same.links

theorem Same.kept (same : Same c c') (kept : Kept c x) : Kept c' x where
  live := same.live ▸ kept.live
  held := by rw [same.dentries x kept.live]; exact kept.held
  inode := by rw [same.dentries x kept.live]; exact kept.inode

theorem Born.other (born : Born c c' p d) (inside : x ∈ c.live) : x ≠ d := fun here => born.fresh (here ▸ inside)

theorem Born.here (born : Born c c' p d) : d ∈ c'.live := born.live ▸ List.mem_cons_self

theorem Born.bump (born : Born c c' p d) (inside : x ∈ c.live) (n : Int) : Born (c.bump x n) (c'.bump x n) p d := by
  have other := (born.other inside).symm
  refine ⟨born.fresh, born.live, fun y there => ?_, ?_, ?_, born.empty, born.parent, born.joined, born.links⟩
  · by_cases here : y = x
    · subst here
      rw [bump_self, bump_self, born.dentries y there]
    · rw [bump_of_ne here, bump_of_ne here, born.dentries y there]
  · rw [bump_of_ne other]
    exact born.count
  · rw [bump_of_ne other]
    exact born.unmounted

/-- **A new dentry that is given up** leaves the cache as it was. -/
theorem Born.dput (born : Born c c' p d) : Safe (Same c) (dput c' d) := by
  refine touch_bind born.here ?_
  show Safe _ (if _ then _ else _)
  rw [modify_self, if_pos (by dsimp only; rw [born.count]; decide)]
  obtain ⟨first, back⟩ := born.joined
  have apart (node : Node) (inside : node.owner ∈ c.live) : node ≠ .child d := by
    rintro rfl
    exact born.fresh inside
  have next : c'.links.next (.child d) = c.links.next (.subdirs p) := by
    rw [(born.links _ (.inl rfl)).1]
    simp [Links.splice]
  have prev : c'.links.prev (.child d) = .subdirs p := by
    rw [(born.links _ (.inl rfl)).2]
    simp [Links.splice, (apart _ first).symm]
  refine touch_bind ?_ (touch_bind ?_ ⟨?_, fun x inside => ?_, fun node inside => ?_⟩)
  · rw [show (c'.modify d _).links = c'.links from rfl, next]
    exact born.live ▸ List.mem_cons_of_mem d first
  · rw [show (c'.modify d _).links = c'.links from rfl, prev]
    exact born.live ▸ List.mem_cons_of_mem d born.parent
  · show c'.live.erase d = _
    rw [born.live, List.erase_cons_head]
  · have other := born.other inside
    show ((Cache.remove _ d).dentries x) = _
    rw [remove_of_ne _ other, modify_of_ne _ _ other, born.dentries x inside]
  · obtain ⟨spliceNext, splicePrev⟩ := born.links node (.inr inside)
    exact dlistDel_spliced (by simp) (apart _ first) (apart node inside) rfl back next prev spliceNext splicePrev

end Same

/-! ## What a walk holds -/

/-- The cache `c` of the start, and a reference to `got`. -/
def Holding (c c' : Cache) : Option Id → Prop
  | none => Same c c'
  | some d => Kept c d ∧ Same (c.bump d 1) c' ∨ ∃ p, Born c c' p d ∧ (c'.dentries d).dInode ≠ none

/-- The dentry that a walk has come to. -/
def found {α : Type} (r : Except Errno (Id × α)) : Option Id := r.toOption.map Prod.fst

section Holding

variable {c c' : Cache} {d p x : Id} {got : Option Id} {n : Int}

theorem Holding.balanced (holding : Holding c c' got) : Balanced c c' got := by
  cases got with
  | none =>
      refine ⟨fun d inside => ⟨holding.live ▸ inside, ?_⟩, fun d outside => ?_⟩
      · rw [holding.dentries d inside, if_neg nofun, Int.add_zero]
      · rw [holding.live]
        exact ⟨iff_of_false outside nofun, fun inside => absurd inside outside⟩
  | some x =>
      obtain ⟨kept, same⟩ | ⟨p, born, -⟩ := holding
      · refine ⟨fun d inside => ⟨same.live ▸ inside, ?_⟩, fun d outside => ?_⟩
        · rw [same.dentries d inside, bump_count]
          simp [eq_comm]
        · rw [same.live]
          exact ⟨iff_of_false outside fun here => outside (Option.some.inj here ▸ kept.live),
            fun inside => absurd inside outside⟩
      · refine ⟨fun d inside => ⟨born.live ▸ List.mem_cons_of_mem x inside, ?_⟩, fun d outside => ?_⟩
        · rw [born.dentries d inside, if_neg fun here => born.other inside (Option.some.inj here).symm, Int.add_zero]
        · rw [born.live, List.mem_cons, or_iff_left outside]
          refine ⟨⟨fun here => congrArg some here.symm, fun here => (Option.some.inj here).symm⟩, ?_⟩
          rintro rfl
          exact born.count

/-- The reference is to a dentry with an inode. -/
theorem Holding.kept (holding : Holding c c' (some d)) : Kept c' d := by
  obtain ⟨kept, same⟩ | ⟨p, born, inode⟩ := holding
  · exact same.kept (kept.bump d (by decide))
  · exact ⟨born.here, born.count.ge, inode⟩

/-- A reference to a dentry that was kept. -/
theorem Holding.of_old (holding : Holding c c' (some d)) (old : d ∈ c.live) : Same (c.bump d 1) c' := by
  obtain ⟨-, same⟩ | ⟨p, born, -⟩ := holding
  · exact same
  · exact absurd old born.fresh

theorem Holding.bump (holding : Holding c c' got) (inside : x ∈ c.live) (grows : 0 ≤ n) :
    Holding (c.bump x n) (c'.bump x n) got := by
  cases got with
  | none => exact Same.bump holding x n
  | some d =>
      obtain ⟨kept, same⟩ | ⟨p, born, inode⟩ := holding
      · refine .inl ⟨kept.bump x grows, ?_⟩
        rw [bump_comm]
        exact same.bump x n
      · refine .inr ⟨p, born.bump inside n, ?_⟩
        rw [(bump_fields c' x d n).1]
        exact inode

/-- **Giving up the reference** leaves the cache as it was. -/
theorem Holding.dput (holding : Holding c c' (some d)) : Safe (Same c) (dput c' d) := by
  obtain ⟨kept, same⟩ | ⟨p, born, -⟩ := holding
  · have held := kept.held
    have more : 2 ≤ (c'.dentries d).dCount := by
      rw [same.dentries d kept.live, bump_self]
      show 2 ≤ (c.dentries d).dCount + 1
      omega
    rw [dput_eq (same.live ▸ kept.live) more]
    have back := same.bump d (-1)
    rwa [bump_bump, Int.add_right_neg, bump_zero] at back
  · exact born.dput

/-- Giving up the reference to the directory that was walked through. -/
theorem Holding.release (holding : Holding (c.bump d 1) c' got) (kept : Kept c d) :
    Safe (fun c'' => Holding c c'' got) (Dcache.dput c' d) := by
  have held := kept.held
  have more (entry : c'.dentries d = (c.bump d 1).dentries d) : 2 ≤ (c'.dentries d).dCount := by
    rw [entry, bump_self]
    show 2 ≤ (c.dentries d).dCount + 1
    omega
  have back (c₁ : Cache) : ((c₁.bump d 1).bump d (-1)) = c₁ := by
    rw [bump_bump, Int.add_right_neg, bump_zero]
  cases got with
  | none =>
      rw [dput_eq (holding.live ▸ kept.live) (more (holding.dentries d kept.live))]
      exact back c ▸ Same.bump holding d (-1)
  | some x =>
      obtain ⟨keptx, same⟩ | ⟨p, born, inode⟩ := holding
      · have there : x ∈ c.live := keptx.live
        have more' : 2 ≤ (c'.dentries d).dCount := by
          rw [same.dentries d kept.live, bump_count, bump_self]
          show 2 ≤ (c.dentries d).dCount + 1 + _
          split <;> omega
        rw [dput_eq (same.live ▸ kept.live) more']
        refine .inl ⟨?_, ?_⟩
        · by_cases here : x = d
          · exact here ▸ kept
          · exact ⟨there, by simpa [bump_of_ne here] using keptx.held, by simpa [bump_of_ne here] using keptx.inode⟩
        · have less := same.bump d (-1)
          rwa [bump_comm, back] at less
      · rw [dput_eq (born.live ▸ List.mem_cons_of_mem x kept.live) (more (born.dentries d kept.live))]
        refine .inr ⟨p, back c ▸ born.bump kept.live (-1), ?_⟩
        rw [(bump_fields c' d x (-1)).1]
        exact inode

end Holding

/-! ## Lookups -/

section Lookup

variable {c c' : Cache} {d p : Id} {mnt : Vfsmount}

/-- The list of children is where it was. -/
theorem Directory.ring (dir : Directory c p) (same : Same c c') : ∃ l : List Id,
    c'.links.Ring (.subdirs p) (l.map .child) ∧ l.Nodup ∧
      ∀ x ∈ l, Kept c x ∧ ∀ sub, (c.dentries x).dMounted = some sub → Kept c sub.mntRoot := by
  obtain ⟨l, ring, each⟩ := dir.children
  refine ⟨l, ring.frame fun node inside => same.links node ?_, (List.nodup_cons.mp ring.nodup).2.of_map _, each⟩
  rcases List.mem_cons.mp inside with rfl | inside
  · exact dir.live
  · obtain ⟨x, below, rfl⟩ := List.mem_map.mp inside
    exact (each x below).1.live

/-- The first on it points back. -/
theorem Directory.joined (dir : Directory c p) :
    (c.links.next (.subdirs p)).owner ∈ c.live ∧ c.links.prev (c.links.next (.subdirs p)) = .subdirs p := by
  obtain ⟨l, ring, each⟩ := dir.children
  have seg := ring.seg
  cases l with
  | nil => exact ⟨by rw [seg.1]; exact dir.live, by rw [seg.1]; exact seg.2⟩
  | cons x l => exact ⟨by rw [seg.1.1]; exact (each x List.mem_cons_self).1.live, by rw [seg.1.1]; exact seg.1.2⟩

/-- A child of `p` that was kept, with one more reference. -/
structure Child (c : Cache) (p : Id) (c' : Cache) (x : Id) : Prop where
  kept : Kept c x
  same : Same (c.bump x 1) c'
  listed : ¬ c.links.Alone (.subdirs p)
  root : ∀ sub, (c.dentries x).dMounted = some sub → Kept c sub.mntRoot

/-- What `lookup_one_len` gives: a child that was kept, or a new one. -/
def Found (c : Cache) (p : Id) (c' : Cache) : Option Id → Prop
  | none => Same c c'
  | some x => Child c p c' x ∨ Born c c' p x ∧ (c'.dentries x).dInode ≠ none

theorem Found.holding {got : Option Id} (found : Found c p c' got) : Holding c c' got := by
  cases got with
  | none => exact found
  | some x =>
      obtain child | ⟨born, inode⟩ := found
      · exact .inl ⟨child.kept, child.same⟩
      · exact .inr ⟨p, born, inode⟩

/-- What is mounted on it. -/
theorem Found.root {x : Id} (found : Found c p c' (some x)) {sub : Vfsmount}
    (covers : (c'.dentries x).dMounted = some sub) : Kept c sub.mntRoot := by
  obtain child | ⟨born, -⟩ := found
  · rw [child.same.dentries x child.kept.live, (bump_fields c x x 1).2.2] at covers
    exact child.root sub covers
  · cases born.unmounted.symm.trans covers

/-- `d_lookup` finds a child that was kept, or changes nothing. -/
theorem dLookup_found (dir : Directory c p) (same : Same c c') (name : Name) :
    Safe (fun r => r.2.elim (Same c r.1) (Child c p r.1)) (dLookup c' p name) := by
  obtain ⟨l, ring, nodup, each⟩ := dir.ring same
  have within : ∀ x ∈ l, x ∈ c'.live := fun x inside => same.live ▸ (each x inside).1.live
  have short : l.length ≤ c'.live.length := (List.Nodup.subperm nodup within).length_le
  refine touch_bind (same.live ▸ dir.live) (Ends.bind (lookupFrom_segment name l _ _ ring.seg within (by omega)) ?_)
  intro r inside
  cases r with
  | none => exact same
  | some x =>
      have here := inside x rfl
      obtain ⟨kept, root⟩ := each x here
      show Safe _ (Dcache.dget c' x >>= _)
      rw [dget_eq (within x here)]
      refine ⟨kept, same.bump x 1, fun alone => ?_, root⟩
      have empty := ring.empty_iff.mp ((same.links (.subdirs p) dir.live).1.trans alone.1)
      rw [List.map_eq_nil_iff] at empty
      rw [empty] at here
      cases here

/-- `d_alloc` makes a new child, without an inode, or changes nothing. -/
theorem dAlloc_born (env : Env) (dir : Directory c p) (same : Same c c') (name : Name) :
    Safe (fun r => match r.2 with
        | none => Same c r.1
        | some d => Born c r.1 p d ∧ (r.1.dentries d).dInode = none)
      (dAlloc env c' (some p) name) := by
  unfold dAlloc
  cases given : env.alloc c'.allocs c'.live with
  | none => exact ⟨same.live, same.dentries, same.links⟩
  | some d =>
      have free : d ∉ c.live := same.live ▸ env.fresh _ _ _ given
      have apart : p ≠ d := fun here => free (here ▸ dir.live)
      obtain ⟨first, back⟩ := dir.joined
      have old (node : Node) (inside : node.owner ∈ c.live) :
          (c'.insert d p name).links.next node = c.links.next node ∧
            (c'.insert d p name).links.prev node = c.links.prev node := by
        have child : node ≠ .child d := by
          rintro rfl
          exact free inside
        have subdirs : node ≠ .subdirs d := by
          rintro rfl
          exact free inside
        obtain ⟨next, prev⟩ := same.links node inside
        show (dlistInit (dlistInit c'.links (.child d)) (.subdirs d)).next node = _ ∧
          (dlistInit (dlistInit c'.links (.child d)) (.subdirs d)).prev node = _
        rw [dlistInit_next_of_ne _ subdirs, dlistInit_next_of_ne _ child, dlistInit_prev_of_ne _ subdirs,
          dlistInit_prev_of_ne _ child]
        exact ⟨next, prev⟩
      have head := (old (.subdirs p) dir.live).1
      have live : (c'.insert d p name).live = d :: c.live := congrArg (d :: ·) same.live
      refine Ends.bind (P := fun c₁ => c₁ = { c'.insert d p name with
        links := dlistAdd (c'.insert d p name).links (.subdirs p) (.child d) })
        (touch_bind (live ▸ List.mem_cons_of_mem d dir.live)
          (touch_bind (by rw [head, live]; exact List.mem_cons_of_mem d first) rfl)) ?_
      rintro c₁ rfl
      refine ⟨⟨free, live, fun x inside => ?_, ?_, ?_, ?_, dir.live, ⟨first, back⟩, fun node inside => ?_⟩, ?_⟩
      · show (c'.insert d p name).dentries x = _
        rw [insert_of_ne c' p name (ne_of_mem_of_not_mem inside free), same.dentries x inside]
      · exact congrArg Dentry.dCount (insert_self c' d p name)
      · exact congrArg Dentry.dMounted (insert_self c' d p name)
      · obtain ⟨next, prev⟩ := dlistInit_alone (dlistInit c'.links (.child d)) (.subdirs d)
        show (dlistAdd (c'.insert d p name).links (.subdirs p) (.child d)).Alone _
        rw [dlistAdd_eq_splice _ (show Node.child d ≠ .subdirs p by simp), head]
        refine ⟨?_, ?_⟩
        · rw [Links.splice_next_of_ne (by simp) (by simpa using apart.symm)]
          exact next
        · rw [Links.splice_prev_of_ne (by simp) fun here => free (by rw [← here] at first; exact first)]
          exact prev
      · show (dlistAdd (c'.insert d p name).links (.subdirs p) (.child d)).next node = _ ∧
          (dlistAdd (c'.insert d p name).links (.subdirs p) (.child d)).prev node = _
        rw [dlistAdd_eq_splice _ (show Node.child d ≠ .subdirs p by simp), head]
        by_cases child : node = .child d
        · subst child
          have second : c.links.next (.subdirs p) ≠ .child d := by
            intro here
            rw [here] at first
            exact free first
          simp [Links.splice, second.symm]
        · obtain ⟨next, prev⟩ := old node (inside.resolve_left child)
          refine ⟨?_, ?_⟩
          · by_cases here : node = .subdirs p
            · simp [Links.splice, here]
            · rw [Links.splice_next_of_ne child here, Links.splice_next_of_ne child here, next]
          · by_cases here : node = c.links.next (.subdirs p)
            · simp [Links.splice, here]
            · rw [Links.splice_prev_of_ne child here, Links.splice_prev_of_ne child here, prev]
      · exact congrArg Dentry.dInode (insert_self c' d p name)

theorem Born.instantiate (born : Born c c' p d) (inode : Inode) :
    Safe (fun c'' => Born c c'' p d ∧ (c''.dentries d).dInode ≠ none) (dInstantiate c' d inode) := by
  refine touch_bind born.here ⟨⟨born.fresh, born.live, fun x inside => ?_, ?_, ?_, born.empty, born.parent,
    born.joined, born.links⟩, ?_⟩
  · rw [modify_of_ne c' _ (born.other inside), born.dentries x inside]
  · rw [modify_self]
    exact born.count
  · rw [modify_self]
    exact born.unmounted
  · rw [modify_self]
    nofun

/-- **`lookup_one_len`** gives one reference to what it finds, and takes none if it fails. -/
theorem lookupOneLen_found (env : Env) (dir : Directory c p) (same : Same c c') (name : Name) :
    Safe (fun r => Found c p r.1 r.2.toOption.join) (lookupOneLen env c' name p) := by
  refine Ends.bind (dLookup_found dir same (name.take 63)) ?_
  rintro ⟨c₁, looked⟩ child
  cases looked with
  | some x => exact .inl child
  | none =>
      have same : Same c c₁ := child
      refine Ends.bind (dAlloc_born env dir same (name.take 63)) ?_
      rintro ⟨c₂, made⟩ allocated
      cases made with
      | none => exact allocated
      | some x =>
          obtain ⟨born, -⟩ := allocated
          refine touch_bind (born.live ▸ List.mem_cons_of_mem x dir.live) ?_
          have inode : (c₂.dentries p).dInode ≠ none := born.dentries p dir.live ▸ dir.inode
          cases entry : (c₂.dentries p).dInode with
          | none => exact absurd entry inode
          | some inode =>
              dsimp only
              cases env.lookup inode.iNo (name.take 63) with
              | error e => exact Ends.bind born.dput fun c₃ same => same
              | ok answer =>
                  cases answer with
                  | none => exact Ends.bind born.dput fun c₃ same => same
                  | some new => exact Ends.bind (born.instantiate new) fun c₃ found => .inr found

end Lookup

/-! ## Walks -/

section Walk

variable {c c' : Cache} {d p : Id} {mnt : Vfsmount}

theorem failed_holding {α : Type} (holding : Holding c c' (some d)) (e : Errno) :
    Safe (fun r => Holding c r.1 none ∧ r.2 = .error e) (failed c' d e : Except Fault (Cache × Except Errno α)) :=
  Ends.bind holding.dput fun _ same => ⟨same, rfl⟩

theorem Holding.live (holding : Holding c c' (some d)) (kept : Kept c p) : p ∈ c'.live := by
  obtain ⟨-, same⟩ | ⟨q, born, -⟩ := holding
  · exact same.live ▸ kept.live
  · exact born.live ▸ List.mem_cons_of_mem d kept.live

/-- The reference moves to a dentry that was kept. -/
theorem moveRef_holding (holding : Holding c c' (some d)) (kept : Kept c p) :
    Safe (fun c'' => Holding c c'' (some p)) (moveRef c' d p) := by
  rw [moveRef, dget_eq (holding.live kept), ok_bind]
  exact (holding.bump kept.live (by decide)).dput.mono (fun _ same => .inl ⟨kept, same⟩) fun _ h => h

theorem climb_holding (holding : Holding c c' (some d)) (kept : Kept c (outside mnt d)) :
    Safe (fun r => Holding c r.1 (some r.2.1) ∧ r.2.1 = outside mnt d) (climb c' d mnt) := by
  unfold climb
  unfold outside at kept ⊢
  cases up : mnt.mntParent with
  | none => exact ⟨holding, rfl⟩
  | some up' =>
      rw [up] at kept
      dsimp only at kept ⊢
      split
      · rename_i root
        rw [if_pos root] at kept
        exact Ends.bind (moveRef_holding holding kept) fun _ holding => ⟨holding, rfl⟩
      · exact ⟨holding, rfl⟩

theorem stepUp_holding (holding : Holding c c' (some d)) (kept : Kept c (outside mnt d))
    (parent : Kept c (c.dentries (outside mnt d)).dParent) :
    Safe (fun r => Holding c r.1 (found r.2)) (stepUp c' d mnt) := by
  refine Ends.bind (climb_holding holding kept) ?_
  rintro ⟨c₁, d₁, mnt₁⟩ ⟨holding, rfl⟩
  refine touch_bind holding.kept.live ?_
  show Safe _ (if _ then _ else _)
  split
  · exact holding
  · have same := holding.of_old kept.live
    have above : (c₁.dentries (outside mnt d)).dParent = (c.dentries (outside mnt d)).dParent := by
      rw [same.dentries _ kept.live, (bump_fields c _ _ 1).2.1]
    rw [above]
    exact Ends.bind (moveRef_holding holding parent) fun _ holding => holding

theorem stepDown_holding (env : Env) (same : Same (c.bump d 1) c') (dir : Directory c d) (name : Name) :
    Safe (fun r => Holding c r.1 (found r.2)) (stepDown env c' d mnt name) := by
  have kept := dir.toKept
  refine Ends.bind (lookupOneLen_found env (dir.bump d (by decide)) same name) ?_
  rintro ⟨c₁, ret⟩ found_
  have lost (e : Errno) (holding : Holding (c.bump d 1) c₁ none) : Safe (fun r => Holding c r.1 (found r.2))
      (failed c₁ d e : Except Fault (Cache × Except Errno (Id × Vfsmount))) :=
    Ends.bind (holding.release kept) fun _ same => same
  cases ret with
  | error e => exact lost e found_.holding
  | ok answer =>
      cases answer with
      | none => exact lost .enoent found_.holding
      | some next =>
          replace found_ : Found (c.bump d 1) d c₁ (some next) := found_
          have holding := found_.holding
          refine touch_bind holding.kept.live ?_
          cases covers : (c₁.dentries next).dMounted with
          | none => exact Ends.bind (holding.release kept) fun _ holding => holding
          | some sub =>
              have root := found_.root covers
              dsimp only
              rw [dget_eq (holding.live root), ok_bind]
              refine Ends.bind (holding.bump root.live (by decide)).dput fun c₂ same => ?_
              have holding₂ : Holding (c.bump d 1) c₂ (some sub.mntRoot) := .inl ⟨root, same⟩
              exact Ends.bind (holding₂.release kept) fun _ holding => holding

/-- **One component of a walk.** -/
theorem followStep_holding (env : Env) (holding : Holding c c' (some d)) {comp : Name}
    (held : StepHeld c c' d mnt comp) :
    Safe (fun r => Holding c r.1 (found r.2)) (followStep env c' d mnt comp) := by
  have kept := holding.kept
  refine touch_bind kept.live ?_
  cases entry : (c'.dentries d).dInode with
  | none => exact absurd entry kept.inode
  | some inode =>
      dsimp only
      split
      · exact (failed_holding holding .enotdir).mono (fun r lost => by rw [lost.2]; exact lost.1) fun _ h => h
      · rename_i isDir
        have isDir : (c'.dentries d).dInode.any (·.isDir) = true := by simpa [entry] using isDir
        split
        · exact holding
        · rename_i notDot
          obtain ⟨dir, up⟩ := held isDir notDot
          split
          · rename_i dots
            exact stepUp_holding holding (up dots).1 (up dots).2
          · exact stepDown_holding env (holding.of_old dir.live) dir comp

/-- **A walk** through directories that were kept. -/
theorem followLoop_holding (env : Env) (comps : List Name) (holding : Holding c c' (some d))
    (held : WalkHeld c env comps c' d mnt) :
    Safe (fun r => Holding c r.1 (found r.2)) (followLoop env c' d mnt comps) := by
  induction comps generalizing c' d mnt with
  | nil => exact holding
  | cons comp rest ih =>
      refine Ends.bind ((followStep_holding env holding held.1).clean held.2) ?_
      rintro ⟨c₁, ret⟩ ⟨step, after⟩
      cases ret with
      | error e => exact step
      | ok place => exact ih step after

/-- From the same cache. -/
theorem vfsPathLookup_holding (env : Env) {ctx : Context} {path : List Char} (same : Same c c')
    (held : PathHeld c env ctx c' path) :
    Safe (fun r => Holding c r.1 (found r.2)) (vfsPathLookup env ctx c' path) := by
  unfold vfsPathLookup followPath
  cases start : ctx.start path with
  | none => exact same
  | some place =>
      obtain ⟨d, mnt⟩ := place
      obtain ⟨kept, walk⟩ := held d mnt start
      rw [dget_eq (same.live ▸ kept.live)] at walk
      dsimp only
      rw [dget_eq (same.live ▸ kept.live), ok_bind]
      exact followLoop_holding env _ (.inl ⟨kept, same.bump d 1⟩) walk

/-! ## Opening -/

theorem inodeOf_kept (kept : Kept c d) : ∃ inode, inodeOf c d = .ok inode ∧ (c.dentries d).dInode = some inode := by
  obtain ⟨inode, entry⟩ := Option.ne_none_iff_exists'.mp kept.inode
  refine ⟨inode, ?_, entry⟩
  rw [inodeOf, touch, if_pos kept.live, ok_bind, entry]

/-- `dentry_open` takes a reference of its own, or none. -/
theorem dentryOpen_cases (env : FsEnv) (kept : Kept c d) :
    dentryOpen env c d = .ok (c.bump d 1, .ok d) ∨ ∃ e, dentryOpen env c d = .ok (c, .error e) := by
  have held := kept.held
  obtain ⟨inode, -, entry⟩ := inodeOf_kept kept
  have lost (e : Errno) : (failed (c.bump d 1) d e : Except Fault (Cache × Except Errno Id)) = .ok (c, .error e) := by
    rw [failed, dput_eq (show d ∈ (c.bump d 1).live from kept.live) (by rw [bump_self]; dsimp only; omega), ok_bind,
      bump_bump, Int.add_right_neg, bump_zero]
  rw [dentryOpen, dget_eq kept.live, ok_bind, bump_self]
  simp only [entry]
  split
  · exact .inr ⟨_, lost _⟩
  · cases env.openHook inode with
    | error e => exact .inr ⟨e, lost e⟩
    | ok _ => exact .inl rfl

/-- A file is opened, and the reference of the lookup goes. -/
theorem dentryOpen_holding (env : FsEnv) (holding : Holding c c' (some d))
    {P : Cache × Except Errno Id → Prop} (next : Cache → Except Errno Id → Except Fault (Cache × Except Errno Id))
    (safe : ∀ c₁ ret, Holding c c₁ ret.toOption → Safe P (next c₁ ret)) :
    Safe P (do
      let (c, ret) ← dentryOpen env c' d
      let c ← dput c d
      next c ret) := by
  have kept := holding.kept
  have held := kept.held
  obtain opened | ⟨e, lost⟩ := dentryOpen_cases env kept
  · rw [opened, ok_bind]
    dsimp only
    rw [dput_eq (show d ∈ (c'.bump d 1).live from kept.live) (by rw [bump_self]; dsimp only; omega), ok_bind,
      bump_bump, Int.add_right_neg, bump_zero]
    exact safe c' (.ok d) holding
  · rw [lost, ok_bind]
    exact Ends.bind holding.dput fun c₁ same => safe c₁ (.error e) same

/-- The end of `vfs_create`. -/
theorem createIn_holding (env : FsEnv) (holding : Holding c c' (some p)) (directory : Directory c p) (dir : Inode)
    (name : Name) : Safe (fun r => Holding c r.1 r.2.toOption) (createIn env c' p dir name) := by
  have kept := directory.toKept
  have lost (c₁ : Cache) (e : Errno) (same : Same (c.bump p 1) c₁) :
      Safe (fun r => Holding c r.1 r.2.toOption) (failed c₁ p e : Except Fault (Cache × Except Errno Id)) :=
    Ends.bind (@Holding.release c c₁ p none same kept) fun _ same => same
  refine Ends.bind (dAlloc_born env.toEnv (directory.bump p (by decide)) (holding.of_old kept.live) name) ?_
  rintro ⟨c₁, made⟩ allocated
  cases made with
  | none => exact lost c₁ .enomem allocated
  | some d =>
      obtain ⟨born, negative⟩ := allocated
      replace negative : (c₁.dentries d).dInode = none := negative
      show Safe _ (if _ then _ else _)
      rw [if_neg (not_not.mpr negative)]
      cases env.create dir.iNo (name.take 63) with
      | error e => exact Ends.bind born.dput fun c₂ same => lost c₂ e same
      | ok inode =>
          refine Ends.bind (born.instantiate inode) ?_
          rintro c₂ ⟨born, inode⟩
          have new : Holding (c.bump p 1) c₂ (some d) := .inr ⟨p, born, inode⟩
          refine dentryOpen_holding env new (fun c ret => dput c p >>= fun c => .ok (c, ret)) ?_
          intro c₃ ret opened
          exact Ends.bind (opened.release kept) fun _ holding => holding

/-- **`vfs_open`** leaves one reference, that of the file, or none. -/
theorem vfsOpen_holding (env : FsEnv) {ctx : Context} {path : List Char} {creat directory : Bool}
    (held : OpenHeld c env.toEnv ctx c path creat) :
    Safe (fun r => Holding c r.1 r.2.toOption) (vfsOpen env ctx c path creat directory) := by
  refine Ends.bind ((vfsPathLookup_holding env.toEnv (.refl c) held.1).clean held.2) ?_
  rintro ⟨c₁, ret⟩ ⟨walked, again⟩
  cases ret with
  | ok place =>
      obtain ⟨d, mnt⟩ := place
      replace walked : Holding c c₁ (some d) := walked
      obtain ⟨inode, there, -⟩ := inodeOf_kept walked.kept
      dsimp only
      rw [there, ok_bind]
      split
      · exact (failed_holding walked .enotdir).mono (fun r lost => by rw [lost.2]; exact lost.1) fun _ h => h
      · exact dentryOpen_holding env walked (fun c ret => .ok (c, ret)) fun _ _ opened => opened
  | error e =>
      replace walked : Same c c₁ := walked
      dsimp only
      split
      · rename_i makes
        unfold vfsCreate inDirectory
        cases parts : splitLastComponent path with
        | error e => exact walked
        | ok split_ =>
            obtain ⟨parent, name⟩ := split_
            obtain ⟨heldParent, made⟩ := again makes.1 makes.2 parent name parts
            refine Ends.bind ((vfsPathLookup_holding env.toEnv walked heldParent).clean made) ?_
            rintro ⟨c₂, ret⟩ ⟨found_, made⟩
            cases ret with
            | error e => exact found_
            | ok place =>
                obtain ⟨p, mnt⟩ := place
                replace found_ : Holding c c₂ (some p) := found_
                obtain ⟨dir, there, entry⟩ := inodeOf_kept found_.kept
                dsimp only
                rw [there, ok_bind]
                split
                · exact (failed_holding found_ .enotdir).mono (fun r lost => by rw [lost.2]; exact lost.1) fun _ h => h
                · rename_i isDir
                  have isDir : (c₂.dentries p).dInode.any (·.isDir) = true := by simpa [entry] using isDir
                  exact createIn_holding env found_ (made isDir) dir name
      · exact walked

end Walk

/-! ## The balance -/

/-- **Walks and files are balanced**, whatever the cache is: if each directory that a walk
goes through was in it, with a reference, a lookup leaves one reference to what it finds and
nothing else, and `vfs_close` after `vfs_open` leaves every count as it was. -/
theorem walk_balanced (env : FsEnv) (s : Vfs) (task : Option Nat) (path : List Char)
    (held : PathHeld s.cache env.toEnv (s.context task) s.cache path) :
    (∃ c r, vfsPathLookup env.toEnv (s.context task) s.cache path = .ok (c, r) ∧ Balanced s.cache c (found r)) ∧
      ∀ creat directory, OpenHeld s.cache env.toEnv (s.context task) s.cache path creat →
        (∃ c e, vfsOpen env (s.context task) s.cache path creat directory = .ok (c, .error e) ∧ Balanced s.cache c none) ∨
          ∃ c d s', vfsOpen env (s.context task) s.cache path creat directory = .ok (c, .ok d) ∧
            Balanced s.cache c (some d) ∧
            vfsClose { s with cache := c, files := ⟨d, 1⟩ :: s.files } 0 = .ok s' ∧
            Balanced s.cache s'.cache none ∧ s'.files = s.files := by
  refine ⟨?_, fun creat directory heldOpen => ?_⟩
  · obtain ⟨⟨c, r⟩, run, holding⟩ := (vfsPathLookup_holding env.toEnv (.refl s.cache) held).returns
    exact ⟨c, r, run, holding.balanced⟩
  · obtain ⟨⟨c, r⟩, run, holding⟩ := (@vfsOpen_holding _ env _ _ creat directory heldOpen).returns
    cases r with
    | error e => exact .inl ⟨c, e, run, holding.balanced⟩
    | ok d =>
        replace holding : Holding s.cache c (some d) := holding
        obtain ⟨c', freed, same⟩ := holding.dput.returns
        refine .inr ⟨c, d, { s with cache := c', files := s.files }, run, holding.balanced, ?_,
          @Holding.balanced _ _ none same, rfl⟩
        rw [vfsClose, List.getElem?_cons_zero]
        dsimp only
        rw [if_pos (by decide), freed]
        rfl

/-- The root directory, and nothing in it. -/
def emptyRoot : FsEnv where
  toEnv := { anyDirectory with lookup := fun _ _ => .ok none }
  create _ _ := .ok ⟨3, false⟩
  mkdir _ _ := .ok ⟨3, true⟩
  unlink _ _ := .error .enoent
  rmdir _ _ := .error .enoent
  fileAlloc := true
  openHook _ := .ok ()
  mount := .error .enodev
  mntAlloc := true

def rootState : Vfs := { Vfs.initial with cache := rootAlone, mounts := [⟨0, 0, none⟩], rootMnt := some ⟨0, 0, none⟩ }

/-- A file system that is mounted on `/m`, in the cache. -/
def subMount : Vfsmount := ⟨2, 1, some ⟨0, 0, none⟩⟩

def mountedAtM : Cache where
  links :=
    let swap : Node → Node := fun node =>
      if node = .subdirs 0 then .child 1 else if node = .child 1 then .subdirs 0 else node
    ⟨swap, swap⟩
  dentries d :=
    if d = 0 then ⟨0, some ⟨2, true⟩, none, ['/'], 2⟩
    else if d = 1 then ⟨0, some ⟨3, true⟩, some subMount, ['m'], 2⟩
    else ⟨2, some ⟨2, true⟩, none, ['/'], 1⟩
  live := [2, 1, 0]
  allocs := 3

def mountedState : Vfs :=
  { rootState with cache := mountedAtM, mounts := [subMount, ⟨0, 0, none⟩] }

theorem mountedAtM_m : Kept mountedAtM 1 := ⟨by decide, by decide, nofun⟩

theorem mountedAtM_root : Directory mountedAtM 0 where
  live := by decide
  held := by decide
  inode := nofun
  children := by
    refine ⟨[1], ⟨⟨⟨rfl, rfl⟩, rfl, rfl⟩, by decide⟩, fun x child => ?_⟩
    obtain rfl := List.mem_singleton.mp child
    refine ⟨mountedAtM_m, fun sub mounted => ?_⟩
    cases mounted
    exact ⟨by decide, by decide, nofun⟩

theorem mountedAtM_sub : Directory mountedAtM 2 where
  live := by decide
  held := by decide
  inode := nofun
  children := ⟨[], ⟨⟨rfl, rfl⟩, List.nodup_singleton _⟩, nofun⟩

/-- The path of a file that is made in the root, over the mounted file system and back. -/
def overMount : List Char := ['/', 'm', '/', '.', '.', '/', 'a']

theorem overMount_held : OpenHeld mountedAtM emptyRoot.toEnv (mountedState.context none) mountedAtM overMount true := by
  have child (name : Name) (other : name ≠ ['.', '.']) : Directory mountedAtM 0 ∧ (name = ['.', '.'] →
      Kept mountedAtM (outside ⟨0, 0, none⟩ 0) ∧
        Kept mountedAtM (mountedAtM.dentries (outside ⟨0, 0, none⟩ 0)).dParent) :=
    ⟨mountedAtM_root, fun dots => absurd dots other⟩
  have up : Directory mountedAtM 2 ∧ (['.', '.'] = ['.', '.'] →
      Kept mountedAtM (outside subMount 2) ∧ Kept mountedAtM (mountedAtM.dentries (outside subMount 2)).dParent) :=
    ⟨mountedAtM_sub, fun _ => ⟨mountedAtM_m, mountedAtM_root.toKept⟩⟩
  refine ⟨fun d mnt start => ?_, fun _ _ parent name split => ?_⟩
  · cases start
    exact ⟨mountedAtM_root.toKept, fun _ _ => child ['m'] (by decide), fun _ _ => up, fun _ _ => child ['a'] (by decide),
      trivial⟩
  · cases split
    refine ⟨fun d mnt start => ?_, fun _ => mountedAtM_root⟩
    cases start
    exact ⟨mountedAtM_root.toKept, fun _ _ => child ['m'] (by decide), fun _ _ => up, trivial⟩

theorem walk_balanced_root :
    (∃ c, vfsPathLookup emptyRoot.toEnv (mountedState.context none) mountedAtM overMount = .ok (c, .error .enoent) ∧
      Balanced mountedAtM c none) ∧
    ∃ c s', vfsOpen emptyRoot (mountedState.context none) mountedAtM overMount true false = .ok (c, .ok 3) ∧
      Balanced mountedAtM c (some 3) ∧
      vfsClose { mountedState with cache := c, files := [⟨3, 1⟩] } 0 = .ok s' ∧ Balanced mountedAtM s'.cache none := by
  obtain ⟨⟨c, r, run, balanced⟩, opens⟩ := walk_balanced emptyRoot mountedState none overMount overMount_held.1
  obtain ⟨c₁, missing⟩ : ∃ c₁, vfsPathLookup emptyRoot.toEnv (mountedState.context none) mountedAtM overMount =
    .ok (c₁, .error .enoent) := ⟨_, rfl⟩
  have made : (vfsOpen emptyRoot (mountedState.context none) mountedAtM overMount true false).toOption.map
      (fun r => r.2.toOption) = some (some 3) := by decide +kernel
  refine ⟨?_, ?_⟩
  · cases missing.symm.trans run
    exact ⟨c, missing, balanced⟩
  · obtain ⟨c', e, failed_, -⟩ | ⟨c', d, s', opened, balanced', closed, back, -⟩ := opens true false overMount_held
    · replace failed_ : vfsOpen emptyRoot (mountedState.context none) mountedAtM overMount true false = _ := failed_
      rw [failed_] at made
      cases made
    · replace opened : vfsOpen emptyRoot (mountedState.context none) mountedAtM overMount true false = _ := opened
      rw [opened] at made
      cases made
      exact ⟨c', s', opened, balanced', closed, back⟩

end Minus.Fs.Dcache
