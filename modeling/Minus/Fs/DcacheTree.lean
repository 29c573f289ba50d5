/-
# Fs.DcacheTree — references, and the tree of dentries

The references to a dentry are of two kinds.  Those of the *holders* outlive a
call: the super blocks, the mounts, the open files, the working directories and
the paths that callers keep.  The others are in flight inside a call.  `d_count`
counts both, and a dentry is live as long as there is one.

A child does not count as a reference to its parent.  So what keeps the parents
alive is `anchored`: a dentry that has a child is held.  A call may have one
dentry in flight for which that is not so (`tmp`), as long as it gives it up
before the parent.  Each function of `dcache.c` then has one lemma, and `dput` is
safe where `anchored` says that the dentry it frees has no child.
-/
import Minus.Fs.Dcache
import Mathlib.Data.List.Perm.Subperm

namespace Minus.Fs.Dcache

set_option autoImplicit false

open Minus.Theory Minus.Lib.Dlist

/-- The computation meets no fault, and `P` holds of its value. -/
abbrev Safe {α : Type} (P : α → Prop) (x : Except Fault α) : Prop := Ends P (fun _ => False) x

theorem touch_bind {α : Type} {c : Cache} {d : Id} {P : α → Prop} {next : Except Fault α}
    (live : d ∈ c.live) (safe : Safe P next) : Safe P (do touch c d; next) := by
  unfold touch
  rw [if_pos live]
  exact safe

/-- What the condition says of the value, beside what is proved of it. -/
theorem Safe.clean {α : Type} {P Q : α → Prop} {x : Except Fault α} (safe : Safe P x)
    (clean : Ends Q (fun _ => True) x) : Safe (fun a => P a ∧ Q a) x :=
  (safe.and clean).mono (fun _ h => h) fun _ h => h.1

/-! ## The lists of children -/

/-- The children of each live dentry are those that name it as their parent, and
they are the ring of its `d_subdirs`. -/
structure Rings (c : Cache) (children : Id → List Id) : Prop where
  family : c.links.Family (· ∈ c.live) Node.subdirs fun p => (children p).map Node.child
  member : ∀ p ∈ c.live, ∀ x,
    x ∈ children p ↔ x ∈ c.live ∧ (c.dentries x).dParent = p ∧ x ≠ p
  parent : ∀ d ∈ c.live, (c.dentries d).dParent ∈ c.live
  roots : ∀ d ∈ c.live, (c.dentries d).dParent = d → c.links.Alone (.child d)

section Rings

variable {c : Cache} {children : Id → List Id} {d p : Id} {n : Name}

theorem child_injective : Function.Injective Node.child := fun _ _ same => Node.child.inj same

theorem subdirs_not_mem (l : List Id) (d : Id) : Node.subdirs d ∉ l.map Node.child := by
  simp

theorem child_mem_iff (l : List Id) (p d : Id) :
    Node.child d ∈ Node.subdirs p :: l.map Node.child ↔ d ∈ l := by
  simp

/-- The nodes of a list belong to live dentries. -/
theorem Rings.owner_live (rings : Rings c children) (live : p ∈ c.live) {node : Node}
    (member : node ∈ Node.subdirs p :: (children p).map Node.child) : node.owner ∈ c.live := by
  rcases List.mem_cons.mp member with rfl | inside
  · exact live
  · obtain ⟨x, below, rfl⟩ := List.mem_map.mp inside
    exact ((rings.member p live x).mp below).1

/-- The rings depend on the links, the parents and what is live. -/
theorem Rings.congr {c' : Cache} (rings : Rings c children) (links : c'.links = c.links)
    (live : c'.live = c.live)
    (parents : ∀ d, (c'.dentries d).dParent = (c.dentries d).dParent) : Rings c' children where
  family := by rw [links, live]; exact rings.family
  member p inside x := by rw [live, parents]; exact rings.member p (live ▸ inside) x
  parent d inside := by rw [live, parents]; exact rings.parent d (live ▸ inside)
  roots d inside root := by
    rw [links]
    exact rings.roots d (live ▸ inside) (parents d ▸ root)

/-- A freed address is on no list. -/
theorem Rings.absent (rings : Rings c children) (free : d ∉ c.live) (q : Id) (live : q ∈ c.live) :
    Node.child d ∉ Node.subdirs q :: (children q).map Node.child ∧
      Node.subdirs d ∉ Node.subdirs q :: (children q).map Node.child := by
  refine ⟨?_, ?_⟩
  · rw [child_mem_iff]
    exact fun inside => free ((rings.member q live d).mp inside).1
  · intro inside
    rcases List.mem_cons.mp inside with same | inside
    · exact free (Node.subdirs.inj same ▸ live)
    · exact subdirs_not_mem _ _ inside

/-- The lists after `kmem_cache_alloc` and the two `dlist_init`. -/
theorem Rings.insert_family (rings : Rings c children) (free : d ∉ c.live) (parent : Id) :
    (c.insert d parent n).links.Family (· ∈ (c.insert d parent n).live) Node.subdirs
      (fun p => (Function.update children d [] p).map Node.child) := by
  have first := dlistInit_family rings.family fun q live => (rings.absent free q live).1
  have second := dlistInit_family first fun q live => (rings.absent free q live).2
  have family := second.insert (i := d) (dlistInit_alone _ _)
    fun q live => (rings.absent free q live).2
  have items : (Function.update (fun p => (children p).map Node.child) d []) =
      fun p => (Function.update children d [] p).map Node.child := by
    funext q
    by_cases same : q = d
    · subst same
      simp
    · simp [Function.update_of_ne same]
  rw [items] at family
  exact family.mono fun q live => List.mem_cons.mp live

theorem insert_alone {x : Id} (alone : x ≠ d → c.links.Alone (.child x)) (parent : Id) :
    (c.insert d parent n).links.Alone (.child x) := by
  show (dlistInit (dlistInit c.links (.child d)) (.subdirs d)).Alone _
  by_cases same : x = d
  · subst same
    have := dlistInit_alone c.links (Node.child x)
    exact ⟨(dlistInit_next_of_ne _ (by simp)).trans this.1,
      (dlistInit_prev_of_ne _ (by simp)).trans this.2⟩
  · have := alone same
    have apart : Node.child x ≠ Node.child d := fun h => same (Node.child.inj h)
    refine ⟨?_, ?_⟩
    · rw [dlistInit_next_of_ne _ (by simp), dlistInit_next_of_ne _ apart]
      exact this.1
    · rw [dlistInit_prev_of_ne _ (by simp), dlistInit_prev_of_ne _ apart]
      exact this.2

theorem insert_parent (c : Cache) (d parent : Id) (n : Name) (x : Id) :
    ((c.insert d parent n).dentries x).dParent =
      if x = d then parent else (c.dentries x).dParent := by
  show (Function.update c.dentries d _ x).dParent = _
  by_cases same : x = d
  · subst same
    simp
  · simp [same]

/-- The new dentry has no child, and the children of the others are as before. -/
theorem Rings.insert_member (rings : Rings c children) (free : d ∉ c.live) (parent x : Id)
    (live : p ∈ (c.insert d parent n).live) :
    x ∈ Function.update children d [] p ↔
      x ≠ d ∧ x ∈ (c.insert d parent n).live ∧
        ((c.insert d parent n).dentries x).dParent = p ∧ x ≠ p := by
  rw [insert_parent]
  show _ ↔ _ ∧ x ∈ d :: c.live ∧ _
  have old (other : x ≠ d) : x ∈ d :: c.live ↔ x ∈ c.live := by simp [other]
  by_cases here : p = d
  · subst here
    rw [Function.update_self]
    constructor
    · intro inside
      cases inside
    · rintro ⟨other, inside, below, _⟩
      rw [if_neg other] at below
      exact absurd (below ▸ rings.parent x ((old other).mp inside)) free
  · have live := (List.mem_cons.mp live).resolve_left here
    rw [Function.update_of_ne here, rings.member p live x]
    constructor
    · rintro ⟨inside, below, other⟩
      have new : x ≠ d := fun same => free (same ▸ inside)
      rw [if_neg new]
      exact ⟨new, List.mem_cons_of_mem d inside, below, other⟩
    · rintro ⟨new, inside, below, other⟩
      rw [if_neg new] at below
      exact ⟨(old new).mp inside, below, other⟩

theorem Rings.insert_parent_live (rings : Rings c children) {parent : Id}
    (live : parent ∈ d :: c.live) (x : Id) (inside : x ∈ d :: c.live) :
    ((c.insert d parent n).dentries x).dParent ∈ d :: c.live := by
  rw [insert_parent]
  split
  · exact live
  · rename_i other
    have inside := (List.mem_cons.mp inside).resolve_left other
    exact List.mem_cons_of_mem d (rings.parent x inside)

/-- A new root. -/
theorem Rings.insertRoot (rings : Rings c children) (free : d ∉ c.live) :
    Rings (c.insert d d n) (Function.update children d []) where
  family := rings.insert_family free d
  member p live x := by
    rw [rings.insert_member free d x live]
    constructor
    · exact fun h => h.2
    · rintro ⟨inside, below, other⟩
      refine ⟨?_, inside, below, other⟩
      rintro rfl
      rw [insert_parent, if_pos rfl] at below
      exact other below
  parent := rings.insert_parent_live List.mem_cons_self
  roots x live root := by
    apply insert_alone
    intro other
    rw [insert_parent, if_neg other] at root
    exact rings.roots x ((List.mem_cons.mp live).resolve_left other) root

/-- A new child, linked to its parent. -/
theorem Rings.insertChild (rings : Rings c children) (free : d ∉ c.live) (parent : p ∈ c.live) :
    Safe (fun c' => c' = { c.insert d p n with
        links := dlistAdd (c.insert d p n).links (.subdirs p) (.child d) } ∧
        ∃ children', Rings c' children')
      (linkChild (c.insert d p n) p d) := by
  have apart : p ≠ d := fun same => free (same ▸ parent)
  have live : p ∈ (c.insert d p n).live := List.mem_cons_of_mem d parent
  have family := rings.insert_family (n := n) free p
  have first := (family.ring p live).next_head
  have fresh (q : Id) (inside : q ∈ (c.insert d p n).live) :
      Node.child d ∉ Node.subdirs q :: (Function.update children d [] q).map Node.child := by
    rw [child_mem_iff, rings.insert_member free p d inside]
    exact fun h => h.1 rfl
  have touched : ((c.insert d p n).links.next (.subdirs p)).owner ∈ (c.insert d p n).live := by
    rw [first, Function.update_of_ne apart]
    cases list : children p with
    | nil => exact live
    | cons x rest =>
        have inside : x ∈ children p := by simp [list]
        exact List.mem_cons_of_mem d ((rings.member p parent x).mp inside).1
  refine touch_bind live (touch_bind touched ⟨rfl, ?_⟩)
  have linked := dlistAdd_family family live fresh
  refine ⟨Function.update (Function.update children d []) p (d :: children p), ?_, ?_, ?_, ?_⟩
  · have items : (Function.update (fun q => (Function.update children d [] q).map Node.child) p
          (Node.child d :: (Function.update children d [] p).map Node.child)) =
        fun q => (Function.update (Function.update children d []) p (d :: children p) q).map
          Node.child := by
      funext q
      by_cases same : q = p
      · subst same
        simp [Function.update_of_ne apart]
      · simp [Function.update_of_ne same]
    rw [items] at linked
    exact linked
  · intro q inside x
    have old := rings.insert_member (n := n) free p x inside
    by_cases same : q = p
    · subst same
      rw [Function.update_self, List.mem_cons]
      rw [Function.update_of_ne apart] at old
      rw [old]
      constructor
      · rintro (rfl | ⟨_, rest⟩)
        · refine ⟨List.mem_cons_self, ?_, apart.symm⟩
          exact (insert_parent c x q n x).trans (if_pos rfl)
        · exact rest
      · intro rest
        by_cases new : x = d
        · exact .inl new
        · exact .inr ⟨new, rest⟩
    · rw [Function.update_of_ne same, old]
      constructor
      · exact fun h => h.2
      · rintro ⟨inside, below, other⟩
        refine ⟨?_, inside, below, other⟩
        rintro rfl
        have := (insert_parent c x p n x).trans (if_pos rfl)
        exact same (below.symm.trans this)
  · exact rings.insert_parent_live live
  · intro x inside root
    have root : ((c.insert d p n).dentries x).dParent = x := root
    rw [insert_parent] at root
    have other : x ≠ d := by
      rintro rfl
      rw [if_pos rfl] at root
      exact apart root
    rw [if_neg other] at root
    have old := (List.mem_cons.mp inside).resolve_left other
    have notChild : x ∉ Function.update children d [] p := by
      rw [Function.update_of_ne apart, rings.member p parent x]
      rintro ⟨_, below, ne⟩
      exact ne (root.symm.trans below)
    exact dlistAdd_alone family live (fresh p live)
      (insert_alone (fun _ => rings.roots x old root) p)
      ((child_mem_iff _ p x).not.mpr notChild) fun h => other (Node.child.inj h)

/-- The neighbours of a dentry's `d_child` are live, whether it is on a list or not. -/
theorem Rings.neighbours (rings : Rings c children) (live : d ∈ c.live) :
    (c.links.next (.child d)).owner ∈ c.live ∧ (c.links.prev (.child d)).owner ∈ c.live := by
  by_cases root : (c.dentries d).dParent = d
  · obtain ⟨next, prev⟩ := rings.roots d live root
    rw [next, prev]
    exact ⟨live, live⟩
  · have parent := rings.parent d live
    have below : d ∈ children (c.dentries d).dParent :=
      (rings.member _ parent d).mpr ⟨live, rfl, fun same => root same.symm⟩
    have ring := rings.family.ring _ parent
    obtain ⟨prev, next⟩ := ring.neighbours (List.mem_map_of_mem below)
    exact ⟨rings.owner_live parent next, rings.owner_live parent prev⟩

/-- The state `freeDentry` leaves. -/
def Cache.remove (c : Cache) (d : Id) : Cache :=
  { c.modify d fun e => { e with dInode := none } with
    links := dlistDel c.links (.child d)
    live := c.live.erase d }

theorem modify_parent (c : Cache) (d x : Id) (f : Dentry → Dentry)
    (same : (f (c.dentries d)).dParent = (c.dentries d).dParent) :
    ((c.modify d f).dentries x).dParent = (c.dentries x).dParent := by
  show (Function.update c.dentries d _ x).dParent = _
  by_cases here : x = d
  · subst here
    simpa using same
  · simp [here]

theorem remove_parent (c : Cache) (d x : Id) :
    ((c.remove d).dentries x).dParent = (c.dentries x).dParent :=
  modify_parent c d x (fun e => { e with dInode := none }) rfl

/-- A root without children goes. -/
theorem Rings.removeRoot (rings : Rings c children) (nodup : c.live.Nodup) (live : d ∈ c.live)
    (root : (c.dentries d).dParent = d)
    (childless : ∀ x ∈ c.live, (c.dentries x).dParent = d → x = d) :
    Rings (c.remove d) children := by
  have alone := rings.roots d live root
  have links : (c.remove d).links = c.links := by
    show dlistDel c.links (.child d) = _
    rw [dlistDel_eq_unlink c.links fun _ => alone.2, Links.unlink_of_alone alone]
  have inside (x : Id) : x ∈ (c.remove d).live ↔ x ≠ d ∧ x ∈ c.live := nodup.mem_erase_iff
  refine ⟨?_, ?_, ?_, ?_⟩
  · rw [links]
    exact rings.family.mono fun q live => ((inside q).mp live).2
  · intro q live x
    rw [rings.member q ((inside q).mp live).2 x, remove_parent, inside]
    constructor
    · rintro ⟨there, below, other⟩
      refine ⟨⟨?_, there⟩, below, other⟩
      rintro rfl
      exact other (root.symm.trans below)
    · rintro ⟨⟨_, there⟩, below, other⟩
      exact ⟨there, below, other⟩
  · intro x there
    obtain ⟨other, there⟩ := (inside x).mp there
    rw [remove_parent, inside]
    exact ⟨fun same => other (childless x there same), rings.parent x there⟩
  · intro x there root
    rw [links]
    rw [remove_parent] at root
    exact rings.roots x ((inside x).mp there).2 root

/-- A child without children goes, and off its parent's list. -/
theorem Rings.removeChild (rings : Rings c children) (nodup : c.live.Nodup) (live : d ∈ c.live)
    (other : (c.dentries d).dParent ≠ d)
    (childless : ∀ x ∈ c.live, (c.dentries x).dParent = d → x = d) :
    Rings (c.remove d) (Function.update children (c.dentries d).dParent
      ((children (c.dentries d).dParent).erase d)) := by
  have parent := rings.parent d live
  have below : d ∈ children (c.dentries d).dParent :=
    (rings.member _ parent d).mpr ⟨live, rfl, other.symm⟩
  have inside (x : Id) : x ∈ (c.remove d).live ↔ x ≠ d ∧ x ∈ c.live := nodup.mem_erase_iff
  have nodupChildren : (children (c.dentries d).dParent).Nodup :=
    (List.nodup_cons.mp (rings.family.ring _ parent).nodup).2.of_map _
  refine ⟨?_, ?_, ?_, ?_⟩
  · have family := dlistDel_family rings.family parent (List.mem_map_of_mem below)
    have items : (Function.update (fun q => (children q).map Node.child) (c.dentries d).dParent
          (((children (c.dentries d).dParent).map Node.child).erase (.child d))) =
        fun q => (Function.update children (c.dentries d).dParent
          ((children (c.dentries d).dParent).erase d) q).map Node.child := by
      funext q
      by_cases same : q = (c.dentries d).dParent
      · subst same
        simp [List.map_erase child_injective]
      · simp [Function.update_of_ne same]
    rw [items] at family
    exact family.mono fun q live => ((inside q).mp live).2
  · intro q there x
    have there := ((inside q).mp there).2
    rw [remove_parent, inside]
    by_cases same : q = (c.dentries d).dParent
    · subst same
      rw [Function.update_self, nodupChildren.mem_erase_iff, rings.member _ parent x]
      constructor
      · rintro ⟨ne, live, rest⟩
        exact ⟨⟨ne, live⟩, rest⟩
      · rintro ⟨⟨ne, live⟩, rest⟩
        exact ⟨ne, live, rest⟩
    · rw [Function.update_of_ne same, rings.member q there x]
      constructor
      · rintro ⟨live, under, ne⟩
        refine ⟨⟨?_, live⟩, under, ne⟩
        rintro rfl
        exact same under.symm
      · rintro ⟨⟨_, live⟩, rest⟩
        exact ⟨live, rest⟩
  · intro x there
    obtain ⟨ne, there⟩ := (inside x).mp there
    rw [remove_parent, inside]
    exact ⟨fun same => ne (childless x there same), rings.parent x there⟩
  · intro x there root
    obtain ⟨ne, there⟩ := (inside x).mp there
    rw [remove_parent] at root
    refine dlistDel_alone rings.family parent (List.mem_map_of_mem below)
      (.inr ⟨rings.roots x there root, ?_⟩)
    rw [child_mem_iff, rings.member _ parent x]
    rintro ⟨_, under, apart⟩
    exact apart (root.symm.trans under)

/-- **Freeing a dentry without children** touches live dentries only and keeps the tree. -/
theorem Rings.remove (rings : Rings c children) (nodup : c.live.Nodup) (live : d ∈ c.live)
    (childless : ∀ x ∈ c.live, (c.dentries x).dParent = d → x = d) :
    Safe (fun c' => c' = c.remove d ∧ ∃ children', Rings c' children') (freeDentry c d) := by
  obtain ⟨next, prev⟩ := rings.neighbours live
  refine touch_bind next (touch_bind prev ⟨rfl, ?_⟩)
  by_cases root : (c.dentries d).dParent = d
  · exact ⟨_, rings.removeRoot nodup live root childless⟩
  · exact ⟨_, rings.removeChild nodup live root childless⟩

/-! ### The loop of `d_lookup` -/

theorem lookupFrom_segment (name : Name) : ∀ (l : List Id) (node : Node) (fuel : Nat),
    c.links.Seg node (l.map Node.child) (.subdirs p) → (∀ x ∈ l, x ∈ c.live) → l.length < fuel →
      Safe (fun r => ∀ x, r = some x → x ∈ l) (lookupFrom c p name fuel (c.links.next node))
  | [], node, fuel + 1, segment, _, _ => by
      rw [segment.1, lookupFrom, if_pos rfl]
      rintro x ⟨⟩
  | y :: rest, node, fuel + 1, segment, live, enough => by
      rw [segment.1.1, lookupFrom, if_neg (by simp)]
      refine touch_bind (live y (by simp)) ?_
      show Safe _ (if _ then _ else _)
      split
      · rintro x ⟨⟩
        exact List.mem_cons_self
      · have enough : rest.length < fuel := by simpa using enough
        refine (lookupFrom_segment name rest (.child y) fuel segment.2
          (fun x inside => live x (List.mem_cons_of_mem y inside)) enough).mono ?_ fun _ h => h
        intro r found x same
        exact List.mem_cons_of_mem y (found x same)

/-- `d_lookup` reads live dentries only, and finds a child. -/
theorem Rings.lookupFrom (rings : Rings c children) (live : p ∈ c.live) (name : Name) :
    Safe (fun r => ∀ x, r = some x → x ∈ c.live ∧ (c.dentries x).dParent = p ∧ x ≠ p)
      (lookupFrom c p name (c.live.length + 1) (c.links.next (.subdirs p))) := by
  have ring := rings.family.ring p live
  have within : ∀ x ∈ children p, x ∈ c.live := fun x inside => ((rings.member p live x).mp inside).1
  have nodup : (children p).Nodup := (List.nodup_cons.mp ring.nodup).2.of_map _
  have short : (children p).length ≤ c.live.length := (List.Nodup.subperm nodup within).length_le
  refine (lookupFrom_segment name (children p) _ _ ring.seg within (by omega)).mono ?_ fun _ h => h
  intro r found x same
  exact (rings.member p live x).mp (found x same)

end Rings

/-! ## The invariant -/

/-- The references of the `holders` and those in flight (`extra`) account for every
dentry; `tmp` is the one dentry in flight whose parent need not be held. -/
structure Inv (holders : List Id) (mounts : List Vfsmount) (c : Cache) (extra : List Id)
    (tmp : Option Id) : Prop where
  count : ∀ d ∈ c.live, (c.dentries d).dCount = ((holders ++ extra).count d : Nat)
  live_iff : ∀ d, d ∈ c.live ↔ d ∈ holders ++ extra
  nodup : c.live.Nodup
  rings : ∃ children, Rings c children
  anchored : ∀ d ∈ c.live, (c.dentries d).dParent ≠ d → some d ≠ tmp →
    (c.dentries d).dParent ∈ holders
  positive : ∀ d ∈ c.live, some d ≠ tmp → (c.dentries d).dInode ≠ none
  mounted : ∀ d ∈ c.live, ∀ m, (c.dentries d).dMounted = some m → m ∈ mounts

section Inv

variable {holders extra : List Id} {mounts : List Vfsmount} {c : Cache} {tmp : Option Id} {d p : Id}

theorem Inv.live_of_extra (inv : Inv holders mounts c extra tmp) (inside : d ∈ extra) :
    d ∈ c.live :=
  (inv.live_iff d).mpr (List.mem_append_right _ inside)

theorem Inv.live_of_holder (inv : Inv holders mounts c extra tmp) (inside : d ∈ holders) :
    d ∈ c.live :=
  (inv.live_iff d).mpr (List.mem_append_left _ inside)

theorem Inv.parent_live (inv : Inv holders mounts c extra tmp) (live : d ∈ c.live) :
    (c.dentries d).dParent ∈ c.live := by
  obtain ⟨_, rings⟩ := inv.rings
  exact rings.parent d live

theorem modify_self (c : Cache) (d : Id) (f : Dentry → Dentry) :
    (c.modify d f).dentries d = f (c.dentries d) := by
  show Function.update c.dentries d _ d = _
  simp

theorem modify_of_ne (c : Cache) {d x : Id} (f : Dentry → Dentry) (other : x ≠ d) :
    (c.modify d f).dentries x = c.dentries x := by
  show Function.update c.dentries d _ x = _
  simp [other]

theorem remove_of_ne (c : Cache) {d x : Id} (other : x ≠ d) :
    (c.remove d).dentries x = c.dentries x :=
  modify_of_ne c (fun e => { e with dInode := none }) other

/-- A change of counts keeps the invariant for the references it counts. -/
theorem Inv.recount {extra' : List Id} (inv : Inv holders mounts c extra tmp) (n : Int)
    (count : ∀ x ∈ c.live, ((c.modify d fun e => { e with dCount := n }).dentries x).dCount =
      ((holders ++ extra').count x : Nat))
    (live_iff : ∀ x, x ∈ c.live ↔ x ∈ holders ++ extra') :
    Inv holders mounts (c.modify d fun e => { e with dCount := n }) extra' tmp := by
  have fields (x : Id) :
      ((c.modify d fun e => { e with dCount := n }).dentries x).dParent = (c.dentries x).dParent ∧
      ((c.modify d fun e => { e with dCount := n }).dentries x).dInode = (c.dentries x).dInode ∧
      ((c.modify d fun e => { e with dCount := n }).dentries x).dMounted =
        (c.dentries x).dMounted := by
    by_cases here : x = d
    · subst here
      rw [modify_self]
      exact ⟨rfl, rfl, rfl⟩
    · rw [modify_of_ne c _ here]
      exact ⟨rfl, rfl, rfl⟩
  obtain ⟨children, rings⟩ := inv.rings
  refine ⟨count, live_iff, inv.nodup, ⟨children, rings.congr rfl rfl fun x => (fields x).1⟩, ?_, ?_, ?_⟩
  · intro x live
    rw [(fields x).1]
    exact inv.anchored x live
  · intro x live
    rw [(fields x).2.1]
    exact inv.positive x live
  · intro x live
    rw [(fields x).2.2]
    exact inv.mounted x live

theorem dget_spec (inv : Inv holders mounts c extra tmp) (live : d ∈ c.live) :
    Safe (fun c' => Inv holders mounts c' (d :: extra) tmp) (dget c d) := by
  refine touch_bind live (inv.recount _ ?_ ?_)
  · intro x there
    rw [List.count_append, List.count_cons]
    have old := inv.count x there
    rw [List.count_append] at old
    by_cases here : x = d
    · subst here
      rw [modify_self]
      simp only [beq_self_eq_true, if_true]
      omega
    · rw [modify_of_ne c _ here]
      simp only [beq_iff_eq, Ne.symm here, if_false]
      omega
  · intro x
    rw [inv.live_iff, List.mem_append, List.mem_append, List.mem_cons]
    have known : d ∈ holders ∨ d ∈ extra := List.mem_append.mp ((inv.live_iff d).mp live)
    constructor
    · rintro (held | flying)
      · exact .inl held
      · exact .inr (.inr flying)
    · rintro (held | rfl | flying)
      · exact .inl held
      · exact known
      · exact .inr flying

/-- Giving up a reference while there is another. -/
theorem Inv.drop (inv : Inv holders mounts c (d :: extra) tmp) (more : d ∈ holders ++ extra) :
    Inv holders mounts (c.modify d fun e => { e with dCount := e.dCount - 1 }) extra tmp := by
  refine inv.recount _ ?_ ?_
  · intro x there
    have old := inv.count x there
    rw [List.count_append, List.count_cons] at old
    rw [List.count_append]
    by_cases here : x = d
    · subst here
      rw [modify_self]
      simp only [beq_self_eq_true, if_true] at old
      show (c.dentries x).dCount - 1 = _
      omega
    · rw [modify_of_ne c _ here]
      simp only [beq_iff_eq, Ne.symm here, if_false] at old
      omega
  · intro x
    rw [inv.live_iff]
    simp only [List.mem_append, List.mem_cons] at more ⊢
    constructor
    · rintro (held | rfl | flying)
      · exact .inl held
      · exact more
      · exact .inr flying
    · rintro (held | flying)
      · exact .inl held
      · exact .inr (.inr flying)

/-- Giving up the last reference: `anchored` says that no dentry names it as its parent. -/
theorem Inv.childless (inv : Inv holders mounts c (d :: extra) tmp)
    (free : tmp = none ∨ tmp = some d) (last : d ∉ holders) (x : Id) (there : x ∈ c.live)
    (below : (c.dentries x).dParent = d) : x = d := by
  by_contra other
  have open_ : some x ≠ tmp := by
    rcases free with rfl | rfl
    · simp
    · simpa using other
  have held := inv.anchored x there (fun root => other (root.symm.trans below)) open_
  exact last (below ▸ held)

/-- `dput` of a dentry with another reference. -/
theorem dput_more (inv : Inv holders mounts c (d :: extra) tmp) (more : d ∈ holders ++ extra) :
    Safe (fun c' => Inv holders mounts c' extra tmp) (dput c d) := by
  have live : d ∈ c.live := inv.live_of_extra List.mem_cons_self
  have count := inv.count d live
  rw [List.count_append, List.count_cons_self] at count
  have positive : 0 < holders.count d + extra.count d := by
    rw [← List.count_append]
    exact List.count_pos_iff.mpr more
  refine touch_bind live ?_
  show Safe _ (if _ then _ else _)
  rw [modify_self, if_neg (show ¬ (c.dentries d).dCount - 1 ≤ 0 by omega)]
  exact inv.drop more

theorem dput_spec (inv : Inv holders mounts c (d :: extra) tmp)
    (free : tmp = none ∨ tmp = some d ∧ d ∉ holders ++ extra) :
    Safe (fun c' => Inv holders mounts c' extra none) (dput c d) := by
  by_cases more : d ∈ holders ++ extra
  · obtain rfl : tmp = none := by
      rcases free with rfl | ⟨_, apart⟩
      · rfl
      · exact absurd more apart
    exact dput_more inv more
  · have live : d ∈ c.live := inv.live_of_extra List.mem_cons_self
    have count := inv.count d live
    rw [List.count_append, List.count_cons_self] at count
    have none_ : holders.count d = 0 ∧ extra.count d = 0 := by
      rw [List.count_eq_zero, List.count_eq_zero]
      exact ⟨fun h => more (List.mem_append_left _ h), fun h => more (List.mem_append_right _ h)⟩
    refine touch_bind live ?_
    show Safe _ (if _ then _ else _)
    rw [modify_self, if_pos (show (c.dentries d).dCount - 1 ≤ 0 by omega)]
    obtain ⟨children, rings⟩ := inv.rings
    have last : d ∉ holders := fun h => more (List.mem_append_left _ h)
    have childless := inv.childless (free.imp_right fun h => h.1) last
    have parents (x : Id) :
        ((c.modify d fun e => { e with dCount := e.dCount - 1 }).dentries x).dParent =
          (c.dentries x).dParent := modify_parent c d x _ rfl
    have rings' : Rings (c.modify d fun e => { e with dCount := e.dCount - 1 }) children :=
      rings.congr rfl rfl parents
    have freed := rings'.remove inv.nodup live fun x there below =>
      childless x there (parents x ▸ below)
    refine freed.mono ?_ fun _ h => h
    rintro c' ⟨rfl, tree⟩
    have inside (x : Id) : x ∈ c.live.erase d ↔ x ≠ d ∧ x ∈ c.live := inv.nodup.mem_erase_iff
    have same (x : Id) (other : x ≠ d) :
        ((c.modify d fun e => { e with dCount := e.dCount - 1 }).remove d).dentries x =
          c.dentries x := by
      rw [remove_of_ne _ other, modify_of_ne _ _ other]
    have open_ (x : Id) (other : x ≠ d) : some x ≠ tmp := by
      rcases free with rfl | ⟨rfl, _⟩
      · simp
      · simpa using other
    refine ⟨?_, ?_, inv.nodup.erase d, tree, ?_, ?_, ?_⟩
    · intro x there
      obtain ⟨other, there⟩ := (inside x).mp there
      have old := inv.count x there
      rw [List.count_append, List.count_cons_of_ne (Ne.symm other), ← List.count_append] at old
      rw [same x other]
      exact old
    · intro x
      show x ∈ c.live.erase d ↔ _
      rw [inside, inv.live_iff]
      simp only [List.mem_append, List.mem_cons] at more ⊢
      constructor
      · rintro ⟨other, held | rfl | flying⟩
        · exact .inl held
        · exact absurd rfl other
        · exact .inr flying
      · intro known
        refine ⟨fun here => more (here ▸ known), ?_⟩
        rcases known with held | flying
        · exact .inl held
        · exact .inr (.inr flying)
    · intro x there
      obtain ⟨other, there⟩ := (inside x).mp there
      rw [same x other]
      exact fun apart _ => inv.anchored x there apart (open_ x other)
    · intro x there
      obtain ⟨other, there⟩ := (inside x).mp there
      rw [same x other]
      exact fun _ => inv.positive x there (open_ x other)
    · intro x there
      obtain ⟨other, there⟩ := (inside x).mp there
      rw [same x other]
      exact inv.mounted x there

/-- A new dentry is in flight, and nothing holds its parent for it. -/
structure Fresh (holders : List Id) (mounts : List Vfsmount) (extra : List Id) (parent : Id)
    (c' : Cache) (d : Id) : Prop where
  inv : Inv holders mounts c' (d :: extra) (some d)
  new : d ∉ holders ++ extra
  parent : (c'.dentries d).dParent = parent

theorem insert_of_ne (c : Cache) {x : Id} (parent : Id) (n : Name) (other : x ≠ d) :
    (c.insert d parent n).dentries x = c.dentries x := by
  show Function.update c.dentries d _ x = _
  simp [other]

theorem insert_self (c : Cache) (d parent : Id) (n : Name) :
    (c.insert d parent n).dentries d =
      { dParent := parent, dInode := none, dMounted := none, dName := n.take 63, dCount := 1 } := by
  show Function.update c.dentries d _ d = _
  simp

/-- The references after an allocation, whatever the links. -/
theorem Inv.allocate (inv : Inv holders mounts c extra none) (free : d ∉ c.live) {parent : Id}
    {n : Name} {links : Links Node}
    (rings : ∃ children, Rings { c.insert d parent n with links } children) :
    Fresh holders mounts extra parent { c.insert d parent n with links } d := by
  have new : d ∉ holders ++ extra := fun known => free ((inv.live_iff d).mpr known)
  have old (x : Id) (there : x ∈ d :: c.live) (other : x ≠ d) : x ∈ c.live :=
    (List.mem_cons.mp there).resolve_left other
  refine ⟨⟨?_, ?_, List.nodup_cons.mpr ⟨free, inv.nodup⟩, rings, ?_, ?_, ?_⟩, new, ?_⟩
  · intro x there
    show ((c.insert d parent n).dentries x).dCount = _
    by_cases here : x = d
    · subst here
      rw [insert_self, List.count_append, List.count_cons_self]
      have none_ : holders.count x + extra.count x = 0 := by
        rw [← List.count_append]
        exact List.count_eq_zero.mpr new
      show (1 : Int) = _
      omega
    · rw [insert_of_ne c parent n here, inv.count x (old x there here), List.count_append,
        List.count_append, List.count_cons_of_ne (Ne.symm here)]
  · intro x
    show x ∈ d :: c.live ↔ _
    rw [List.mem_cons, inv.live_iff, List.mem_append, List.mem_append, List.mem_cons]
    constructor
    · rintro (here | held | flying)
      · exact .inr (.inl here)
      · exact .inl held
      · exact .inr (.inr flying)
    · rintro (held | here | flying)
      · exact .inr (.inl held)
      · exact .inl here
      · exact .inr (.inr flying)
  · intro x there apart open_
    have other : x ≠ d := fun here => open_ (congrArg some here)
    have apart : ((c.insert d parent n).dentries x).dParent ≠ x := apart
    show ((c.insert d parent n).dentries x).dParent ∈ holders
    rw [insert_of_ne c parent n other] at apart ⊢
    exact inv.anchored x (old x there other) apart (by simp)
  · intro x there open_
    have other : x ≠ d := fun here => open_ (congrArg some here)
    show ((c.insert d parent n).dentries x).dInode ≠ none
    rw [insert_of_ne c parent n other]
    exact inv.positive x (old x there other) (by simp)
  · intro x there m
    show ((c.insert d parent n).dentries x).dMounted = some m → _
    by_cases here : x = d
    · subst here
      rw [insert_self]
      rintro ⟨⟩
    · rw [insert_of_ne c parent n here]
      exact inv.mounted x (old x there here) m
  · exact congrArg Dentry.dParent (insert_self c d parent n)

/-- What `d_alloc` gives: nothing, or a new dentry without an inode. -/
def Allocated (holders : List Id) (mounts : List Vfsmount) (extra : List Id) (parent : Id → Id)
    (given : Option Id) (r : Cache × Option Id) : Prop :=
  match r.2 with
  | none => Inv holders mounts r.1 extra none
  | some d => given = some d ∧ Fresh holders mounts extra (parent d) r.1 d ∧
      (r.1.dentries d).dInode = none

theorem Inv.tick (inv : Inv holders mounts c extra tmp) :
    Inv holders mounts { c with allocs := c.allocs + 1 } extra tmp := by
  obtain ⟨children, rings⟩ := inv.rings
  exact ⟨inv.count, inv.live_iff, inv.nodup, ⟨children, rings.congr rfl rfl fun _ => rfl⟩,
    inv.anchored, inv.positive, inv.mounted⟩

theorem dAlloc_spec (env : Env) (inv : Inv holders mounts c extra none) (live : p ∈ c.live)
    (name : Name) :
    Safe (Allocated holders mounts extra (fun _ => p) (env.alloc c.allocs c.live))
      (dAlloc env c (some p) name) := by
  unfold dAlloc
  cases given : env.alloc c.allocs c.live with
  | none => exact inv.tick
  | some d =>
      have free := env.fresh _ _ _ given
      obtain ⟨children, rings⟩ := inv.rings
      refine Ends.bind (rings.insertChild free live) ?_
      rintro c' ⟨rfl, tree⟩
      exact ⟨rfl, inv.allocate free tree, congrArg Dentry.dInode (insert_self c d p name)⟩

/-- The root of a file system, `d_alloc(NULL, ..)`. -/
theorem dAlloc_root_spec (env : Env) (inv : Inv holders mounts c extra none) (name : Name) :
    Safe (Allocated holders mounts extra id (env.alloc c.allocs c.live)) (dAlloc env c none name) := by
  unfold dAlloc
  cases given : env.alloc c.allocs c.live with
  | none => exact inv.tick
  | some d =>
      have free := env.fresh _ _ _ given
      obtain ⟨children, rings⟩ := inv.rings
      have fresh : Fresh holders mounts extra d (c.insert d d name) d :=
        inv.allocate free ⟨_, rings.insertRoot free⟩
      exact ⟨rfl, fresh, congrArg Dentry.dInode (insert_self c d d name)⟩

theorem dInstantiate_spec {parent : Id} (fresh : Fresh holders mounts extra parent c d)
    (inode : Inode) :
    Safe (fun c' => Fresh holders mounts extra parent c' d ∧ (c'.dentries d).dInode = some inode)
      (dInstantiate c d inode) := by
  obtain ⟨inv, new, under⟩ := fresh
  have live : d ∈ c.live := inv.live_of_extra List.mem_cons_self
  have fields (x : Id) :
      ((c.modify d fun e => { e with dInode := some inode }).dentries x).dParent =
        (c.dentries x).dParent ∧
      ((c.modify d fun e => { e with dInode := some inode }).dentries x).dCount =
        (c.dentries x).dCount ∧
      ((c.modify d fun e => { e with dInode := some inode }).dentries x).dMounted =
        (c.dentries x).dMounted := by
    by_cases here : x = d
    · subst here
      rw [modify_self]
      exact ⟨rfl, rfl, rfl⟩
    · rw [modify_of_ne c _ here]
      exact ⟨rfl, rfl, rfl⟩
  obtain ⟨children, rings⟩ := inv.rings
  refine touch_bind live ⟨⟨⟨?_, inv.live_iff, inv.nodup,
    ⟨children, rings.congr rfl rfl fun x => (fields x).1⟩, ?_, ?_, ?_⟩, new, ?_⟩, ?_⟩
  · intro x there
    rw [(fields x).2.1]
    exact inv.count x there
  · intro x there
    rw [(fields x).1]
    exact inv.anchored x there
  · intro x there open_
    rw [modify_of_ne c _ fun here => open_ (congrArg some here)]
    exact inv.positive x there open_
  · intro x there
    rw [(fields x).2.2]
    exact inv.mounted x there
  · rw [(fields d).1]
    exact under
  · rw [modify_self]

/-- A new dentry under a held parent, or a new root, is like any other. -/
theorem Fresh.settle {parent : Id} (fresh : Fresh holders mounts extra parent c d)
    (held : parent = d ∨ parent ∈ holders) (positive : (c.dentries d).dInode ≠ none) :
    Inv holders mounts c (d :: extra) none := by
  obtain ⟨inv, _, under⟩ := fresh
  refine ⟨inv.count, inv.live_iff, inv.nodup, inv.rings, ?_, ?_, inv.mounted⟩
  · intro x there apart _
    by_cases here : x = d
    · subst here
      rw [under] at apart ⊢
      exact held.resolve_left apart
    · exact inv.anchored x there apart fun same => here (Option.some.inj same)
  · intro x there _
    by_cases here : x = d
    · exact here ▸ positive
    · exact inv.positive x there fun same => here (Option.some.inj same)

/-- A new dentry that is given up. -/
theorem Fresh.discard {parent : Id} (fresh : Fresh holders mounts extra parent c d) :
    Safe (fun c' => Inv holders mounts c' extra none) (dput c d) :=
  dput_spec fresh.inv (.inr ⟨rfl, fresh.new⟩)

/-- What `d_lookup` gives: nothing and no change, or one more reference to a child. -/
theorem dLookup_spec (inv : Inv holders mounts c extra none) (live : p ∈ c.live) (name : Name) :
    Safe (fun r => match r.2 with
        | none => r.1 = c
        | some d => d ∈ c.live ∧ (c.dentries d).dParent = p ∧ d ≠ p ∧
            Inv holders mounts r.1 (d :: extra) none)
      (dLookup c p name) := by
  obtain ⟨children, rings⟩ := inv.rings
  refine touch_bind live ((rings.lookupFrom live name).bind ?_)
  intro r found
  cases r with
  | none => exact rfl
  | some d =>
      obtain ⟨there, below, other⟩ := found d rfl
      refine Ends.bind (dget_spec inv there) ?_
      intro c' inv'
      exact ⟨there, below, other, inv'⟩

end Inv

end Minus.Fs.Dcache
