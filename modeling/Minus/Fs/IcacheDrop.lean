/-
# Fs.IcacheDrop — the inode cache after a call that failed

`iput` deletes its inode from the tree whether or not it was inserted, and `rb_delete`
takes a node with zero links for the root (`rbDelete_detached`): where `ext4_create`,
`ext4_mkdir` or `devfs_mount` fails before `insert_inode_hash`, the cache is empty
afterwards.  Behind the insertion the deletion undoes it (`insert_delete`).
`cache_intact_iff` is the two together.
-/
import Minus.Fs.CacheFind

namespace Minus.Fs.Icache

set_option autoImplicit false

open Minus.Theory Minus.Lib.Rbtree Minus.Lib.Dlist
open Minus.Fs.Dcache (Errno)

/-- The tree is a red-black tree of inodes that are allocated. -/
structure Cached (s : State) (t : ColorTree Id) : Prop where
  inv : RbInv s.comp s.gInodeTree t
  live : t.inorder ⊆ s.live

/-- The cache is again a red-black tree of the same inodes in their order, and `inode_find`
finds what it found. -/
structure Intact (s : State) (t : ColorTree Id) (s' : State) : Prop where
  tree : ∃ t', RbInv s'.comp s'.gInodeTree t' ∧ t'.inorder = t.inorder
  finds : ∀ sb ino, ∃ r, inodeFind s' sb ino = .ok r ∧
    (∀ p, r = some p → p ∈ t.inorder ∧ (s.inodes p).toInodeKey = ⟨sb, ino⟩) ∧
    (r = none → ∀ p ∈ t.inorder, (s.inodes p).toInodeKey ≠ ⟨sb, ino⟩)

/-- A call that makes an inode. -/
inductive Making where
  | create (dir : Id) (mode : UInt16)
  | mkdir (dir : Id) (mode : UInt16)
  | devfsMount

/-- The directory that the call gets. -/
def Making.dir? : Making → Option Id
  | .create dir _ | .mkdir dir _ => some dir
  | .devfsMount => none

section Drop

variable (sOp : UInt64 → Bool) (answers : Answers)

/-- The call, with whether it fails. -/
def Making.run (s : State) : Making → Except Fault (State × Bool)
  | .create dir mode => (ext4Create sOp answers s dir mode).map fun (s, r) => (s, !r.isOk)
  | .mkdir dir mode => (ext4Mkdir sOp answers s dir mode).map fun (s, r) => (s, !r.isOk)
  | .devfsMount => (Icache.devfsMount sOp answers s).map fun (s, root) => (s, root.isNone)

/-- The call makes no inode, or inserts the one it makes. -/
def Making.Spares (s : State) : Making → Prop
  | .create dir _ | .mkdir dir _ => (newInode sOp answers s (s.inodes dir).iSb).2 = none ∨
      (∃ ino, answers.freeInode = .ok ino) ∧ answers.info.isSome
  | .devfsMount => ∀ sb, answers.sbAlloc = some sb → (newInode sOp answers s sb).2 = none

end Drop

/-! ## Steps -/

section Steps

variable {sOp : UInt64 → Bool} {answers : Answers} {s s' s₁ s₂ : State} {t : ColorTree Id} {p : Id} {sb : UInt64}
  {writeInode : Bool}

theorem touch_live (live : p ∈ s.live) : touch s p = .ok () := if_pos live

theorem comp_congr (keys : ∀ q, (s'.inodes q).toInodeKey = (s.inodes q).toInodeKey) : s'.comp = s.comp := by
  funext a b
  unfold State.comp
  rw [keys, keys]

/-- What an operation on one inode leaves as it is. -/
structure SameTree (s s' : State) : Prop where
  tree : s'.gInodeTree = s.gInodeTree
  live : s'.live = s.live
  keys : ∀ q, (s'.inodes q).toInodeKey = (s.inodes q).toInodeKey

theorem SameTree.refl (s : State) : SameTree s s := ⟨rfl, rfl, fun _ => rfl⟩

theorem SameTree.trans (first : SameTree s s₁) (next : SameTree s₁ s') : SameTree s s' where
  tree := next.tree.trans first.tree
  live := next.live.trans first.live
  keys q := (next.keys q).trans (first.keys q)

theorem setInode_self {f : Inode → Inode} : (s.setInode p f).inodes p = f (s.inodes p) := Function.update_self ..

theorem setInode_of_ne {f : Inode → Inode} {q : Id} (other : q ≠ p) : (s.setInode p f).inodes q = s.inodes q :=
  Function.update_of_ne other ..

theorem setInode_field {γ : Type} (s : State) (p q : Id) (field : Inode → γ) {f : Inode → Inode}
    (kept : ∀ i, field (f i) = field i) : field ((s.setInode p f).inodes q) = field (s.inodes q) := by
  by_cases here : q = p
  · rw [here, setInode_self, kept]
  · rw [setInode_of_ne here]

theorem setInode_same {f : Inode → Inode} (key : ∀ i, (f i).toInodeKey = i.toInodeKey) : SameTree s (s.setInode p f) where
  tree := rfl
  live := rfl
  keys q := setInode_field s p q Inode.toInodeKey key

/-- An operation that only marks. -/
def Marks (s s' : State) : Prop := SameTree s s' ∧ ∀ q, (s'.inodes q).iCount = (s.inodes q).iCount

theorem markInodeDirty_spec (live : p ∈ s.live) : ∃ s', markInodeDirty s p = .ok s' ∧ Marks s s' := by
  rw [markInodeDirty, touch_live live, ok_bind]
  split
  · exact ⟨s, rfl, .refl s, fun _ => rfl⟩
  · have same := @setInode_same s p (fun i => { i with iDirty := true }) fun _ => rfl
    refine ⟨_, rfl, ⟨same.tree, same.live, same.keys⟩, fun q => ?_⟩
    exact setInode_field s p q Inode.iCount (f := fun i => { i with iDirty := true }) fun _ => rfl

theorem markIf_spec (marks : Bool) (live : p ∈ s.live) : ∃ s', markIf marks s p = .ok s' ∧ Marks s s' := by
  unfold markIf
  split
  · exact markInodeDirty_spec live
  · exact ⟨s, rfl, .refl s, fun _ => rfl⟩

variable (sOp writeInode) in
theorem writeInodeNow_spec (live : p ∈ s.live) :
    ∃ s', writeInodeNow sOp writeInode s p = .ok s' ∧ SameTree s s' := by
  rw [writeInodeNow, touch_live live, ok_bind]
  split
  · exact ⟨s, rfl, .refl s⟩
  · have same := @setInode_same s p (fun i => { i with iDirty := false }) fun _ => rfl
    exact ⟨_, rfl, same.tree, same.live, same.keys⟩

theorem dInstantiate_spec (live : p ∈ s.live) : ∃ s', dInstantiate s p = .ok s' := by
  rw [dInstantiate, touch_live live, ok_bind]
  exact ⟨_, rfl⟩

variable (sOp writeInode) in
/-- The `iput` of the only reference. -/
theorem iput_last {tree : RbTree Id} (live : p ∈ s.live) (one : (s.inodes p).iCount = 1)
    (deleted : rbDelete s.fuel s.gInodeTree p = .ok tree) : ∃ s', iput sOp writeInode s p = .ok s' ∧
      s'.gInodeTree = tree ∧ s'.live = s.live.erase p ∧ ∀ q, (s'.inodes q).toInodeKey = (s.inodes q).toInodeKey := by
  have dropped := @setInode_same s p (fun i => { i with iCount := i.iCount - 1 }) fun _ => rfl
  have last : ((s.setInode p fun i => { i with iCount := i.iCount - 1 }).inodes p).iCount ≤ 0 := by
    rw [setInode_self, one]
    rfl
  have tail : ∀ s₁, SameTree s s₁ → ∃ s', (onTree (rbDelete s₁.fuel s₁.gInodeTree p) >>= fun tree =>
      .ok (destroyInode sOp { s₁ with gInodeTree := tree } p)) = Except.ok s' ∧
        s'.gInodeTree = tree ∧ s'.live = s.live.erase p ∧ ∀ q, (s'.inodes q).toInodeKey = (s.inodes q).toInodeKey := by
    intro s₁ same
    have deleted' : rbDelete s₁.fuel s₁.gInodeTree p = .ok tree := by
      rw [State.fuel, same.tree, same.live]
      exact deleted
    rw [deleted']
    exact ⟨_, rfl, rfl, congrArg (·.erase p) same.live, same.keys⟩
  rw [iput, touch_live live, ok_bind]
  dsimp only
  rw [if_pos last]
  split
  · obtain ⟨s₁, written, same⟩ := writeInodeNow_spec sOp writeInode (s := s.setInode p _) live
    rw [written, ok_bind]
    exact tail s₁ (dropped.trans same)
  · exact tail _ dropped

/-! ## The inode on the way -/

/-- The inode is made and not inserted. -/
structure Made (s s₁ : State) (p : Id) : Prop where
  new : p ∉ s.live
  live : s₁.live = p :: s.live
  tree : s₁.gInodeTree = s.gInodeTree.set p fun _ => zeroNode
  keys : ∀ q ≠ p, (s₁.inodes q).toInodeKey = (s.inodes q).toInodeKey
  one : (s₁.inodes p).iCount = 1

/-- The inode is inserted: without it the tree is again one of the others. -/
structure Inserted (s : State) (t : ColorTree Id) (s₁ : State) (p : Id) : Prop where
  new : p ∉ s.live
  live : s₁.live = p :: s.live
  deletes : ∃ tree t', rbDelete s₁.fuel s₁.gInodeTree p = .ok tree ∧ RbInv s₁.comp tree t' ∧ t'.inorder = t.inorder
  keys : ∀ q ≠ p, (s₁.inodes q).toInodeKey = (s.inodes q).toInodeKey
  one : (s₁.inodes p).iCount = 1

theorem Made.here (made : Made s s₁ p) : p ∈ s₁.live := by simp [made.live]

theorem Inserted.here (inserted : Inserted s t s₁ p) : p ∈ s₁.live := by simp [inserted.live]

theorem Inserted.old {q : Id} (inserted : Inserted s t s₁ p) (live : q ∈ s.live) : q ∈ s₁.live := by
  simp [inserted.live, live]

theorem allocInode_cases (sOp : UInt64 → Bool) (answers : Answers) (s : State) (sb : UInt64) :
    allocInode sOp answers s sb = (s, none) ∨ ∃ s₁ p, allocInode sOp answers s sb = (s₁, some p) ∧
      answers.inode = some p ∧ s₁.live = p :: s.live ∧ s₁.gInodeTree = s.gInodeTree ∧
      s₁.gDirtyInodes = s.gDirtyInodes ∧ ∀ q ≠ p, s₁.inodes q = s.inodes q := by
  unfold allocInode
  split
  · exact .inl rfl
  · rename_i p here
    split
    · split
      · exact .inl rfl
      · exact .inr ⟨_, p, rfl, here, rfl, rfl, rfl, fun q other => Function.update_of_ne other ..⟩
    · exact .inr ⟨_, p, rfl, here, rfl, rfl, rfl, fun q _ => rfl⟩

variable (sOp) in
/-- `new_inode` makes an inode or nothing. -/
theorem newInode_cases (fresh : ∀ p ∈ answers.inode, p ∉ s.live) (sb : UInt64) :
    newInode sOp answers s sb = (s, none) ∨ ∃ s₁ p, newInode sOp answers s sb = (s₁, some p) ∧ Made s s₁ p := by
  unfold newInode
  obtain allocated | ⟨s₁, p, allocated, here, live, tree, -, others⟩ := allocInode_cases sOp answers s sb
  · rw [allocated]
    exact .inl rfl
  · rw [allocated]
    refine .inr ⟨_, p, rfl, fresh p here, live, congrArg (RbTree.set · p fun _ => zeroNode) tree, fun q other => ?_, ?_⟩
    · show (Function.update s₁.inodes p _ q).toInodeKey = _
      rw [Function.update_of_ne other, others q other]
    · show (Function.update s₁.inodes p _ p).iCount = 1
      rw [Function.update_self]

/-- A write to a new inode that does not count. -/
theorem Made.setInode (made : Made s s₁ p) {f : Inode → Inode} (count : ∀ i, (f i).iCount = i.iCount) :
    Made s (s₁.setInode p f) p where
  new := made.new
  live := made.live
  tree := made.tree
  keys q other := by rw [setInode_of_ne other, made.keys q other]
  one := by rw [setInode_self, count, made.one]

theorem Inserted.marks (inserted : Inserted s t s₁ p) (marks : Marks s₁ s₂) : Inserted s t s₂ p where
  new := inserted.new
  live := marks.1.live.trans inserted.live
  deletes := by
    have comp : s₂.comp = s₁.comp := comp_congr marks.1.keys
    rw [State.fuel, marks.1.tree, marks.1.live, comp]
    exact inserted.deletes
  keys q other := (marks.1.keys q).trans (inserted.keys q other)
  one := (marks.2 p).trans inserted.one

/-- **`insert_inode_hash` of a new inode.** -/
theorem Made.insert (made : Made s s₁ p) (cached : Cached s t) :
    ∃ s₂, insertInodeHash s₁ p = .ok s₂ ∧ Inserted s t s₂ p := by
  have outside : p ∉ t.inorder := fun inside => made.new (cached.live inside)
  have others : ∀ q ∈ t.inorder, q ≠ p := fun q inside same => outside (same ▸ inside)
  have inv : RbInv s₁.comp s₁.gInodeTree t := by
    obtain ⟨rep, valid, ordered⟩ := cached.inv
    refine ⟨⟨?_, ?_, rep.distinct⟩, valid, ?_⟩
    · rw [made.tree, set_root, rep.root]
    · refine rep.nodes.congr fun q inside => ?_
      rw [made.tree, set_nodes_of_ne _ _ (others q inside)]
    · refine ordered.imp_of_mem fun {a b} inA inB le => ?_
      rw [State.comp, made.keys a (others a inA), made.keys b (others b inB)]
      exact le
  have short : t.inorder.length ≤ s.live.length := (List.subperm_of_subset inv.rep.distinct cached.live).length_le
  have enough : t.inorder.length + 1 < s₁.fuel := by
    rw [State.fuel, made.live, List.length_cons]
    omega
  obtain ⟨tree, tree', t', inserted, deleted, inv', order⟩ :=
    insert_delete (inodeCmp_comparison.of_key fun q => (s₁.inodes q).toInodeKey) inv outside enough
  refine ⟨{ s₁ with gInodeTree := tree }, ?_, made.new, made.live, ⟨tree', t', deleted, inv', order⟩, made.keys, made.one⟩
  rw [insertInodeHash, touch_live made.here, ok_bind]
  exact congrArg (onTree · >>= _) inserted

/-! ## The drop -/

theorem intact_of (cached : Cached s t) {t' : ColorTree Id} (inv : RbInv s'.comp s'.gInodeTree t')
    (order : t'.inorder = t.inorder) (live : s'.live = s.live)
    (keys : ∀ q ∈ s.live, (s'.inodes q).toInodeKey = (s.inodes q).toInodeKey) : Intact s t s' := by
  refine ⟨⟨t', inv, order⟩, fun sb ino => ?_⟩
  have short : t'.inorder.length ≤ s'.fuel := by
    rw [order, State.fuel, live]
    exact (List.subperm_of_subset cached.inv.rep.distinct cached.live).length_le.trans (Nat.le_add_right _ 3)
  obtain ⟨r, found, some_, none_⟩ :=
    find_spec inodeCmp_comparison (fun q => (s'.inodes q).toInodeKey) inv ⟨sb, ino⟩ short
  refine ⟨r, ?_, fun q is => ?_, fun nothing q inside same => ?_⟩
  · rw [inodeFind, found]
    rfl
  · obtain ⟨inside, equal⟩ := some_ q is
    rw [order] at inside
    rw [inodeCmp_eq_zero, keys q (cached.live inside)] at equal
    exact ⟨inside, equal.symm⟩
  · rw [← keys q (cached.live inside)] at same
    rw [← order] at inside
    exact none_ nothing q inside (inodeCmp_eq_zero.2 same.symm)

theorem not_intact (lost : s'.gInodeTree.root = none) (some_ : t ≠ .nil) : ¬ Intact s t s' := by
  rintro ⟨⟨t', inv, order⟩, -⟩
  have root := inv.rep.root.symm.trans lost
  cases t' with
  | nil =>
      cases t with
      | nil => exact some_ rfl
      | node c l x r => simp [ColorTree.inorder] at order
  | node c l x r => cases root

variable (sOp writeInode) in
/-- **The drop of an inode that is inserted** undoes the insertion. -/
theorem Inserted.drop (inserted : Inserted s t s₁ p) (cached : Cached s t) :
    ∃ s', iput sOp writeInode s₁ p = .ok s' ∧ Intact s t s' := by
  obtain ⟨tree, t', deleted, inv, order⟩ := inserted.deletes
  obtain ⟨s', run, rfl, live, keys⟩ := iput_last sOp writeInode inserted.here inserted.one deleted
  refine ⟨s', run, intact_of cached (comp_congr keys ▸ inv) order ?_ fun q inside => ?_⟩
  · rw [live, inserted.live, List.erase_cons_head]
  · rw [keys, inserted.keys q (ne_of_mem_of_not_mem inside inserted.new)]

variable (sOp writeInode) in
/-- **The drop of an inode that is not** empties the cache. -/
theorem Made.drop (made : Made s s₁ p) (cached : Cached s t) :
    ∃ s', iput sOp writeInode s₁ p = .ok s' ∧ (Intact s t s' ↔ t = .nil) := by
  have detached : s₁.gInodeTree.nodes p = zeroNode := by rw [made.tree, set_nodes_self]
  obtain ⟨tree, deleted, lost⟩ := rbDelete_detached s₁.fuel detached
  obtain ⟨s', run, rfl, live, keys⟩ := iput_last sOp writeInode made.here made.one deleted
  refine ⟨s', run, fun intact => ?_, ?_⟩
  · by_contra some_
    exact not_intact lost some_ intact
  · rintro rfl
    have empty := empty_inv s'.comp s'.gInodeTree.nodes
    rw [← lost] at empty
    refine intact_of cached empty rfl ?_ fun q inside => ?_
    · rw [live, made.live, List.erase_cons_head]
    · rw [keys, made.keys q (ne_of_mem_of_not_mem inside made.new)]

end Steps

/-! ## The calls -/

section Calls

variable {sOp : UInt64 → Bool} {answers : Answers} {s s₁ : State} {t : ColorTree Id} {dir p : Id} {mode : UInt16}

theorem Cached.intact (cached : Cached s t) : Intact s t s := intact_of cached cached.inv rfl rfl fun _ _ => rfl

/-- `ext4_alloc_inode` is where both calls can still fail before the insertion. -/
theorem Made.alloc (made : Made s s₁ p) (answers : Answers) : ∃ s₂, Made s s₂ p ∧
    ((∃ e, ext4AllocInode answers s₁ p = (s₂, .error e)) ∧ ¬ ((∃ ino, answers.freeInode = .ok ino) ∧ answers.info.isSome) ∨
      ext4AllocInode answers s₁ p = (s₂, .ok ()) ∧ (∃ ino, answers.freeInode = .ok ino) ∧ answers.info.isSome) := by
  unfold ext4AllocInode
  cases answers.freeInode with
  | error e => exact ⟨s₁, made, .inl ⟨⟨e, rfl⟩, fun ⟨⟨_, free⟩, _⟩ => nomatch free⟩⟩
  | ok ino =>
      have made₁ := made.setInode (f := fun i => { i with iIno := ino.toUInt64 }) fun _ => rfl
      cases answers.info with
      | none => exact ⟨_, made₁, .inl ⟨⟨.enomem, rfl⟩, fun ⟨_, some_⟩ => nomatch some_⟩⟩
      | some ei =>
          have made₂ := made₁.setInode (f := fun i => { i with iPrivate := some ei }) fun _ => rfl
          refine ⟨_, ?_, .inr ⟨rfl, ⟨ino, rfl⟩, rfl⟩⟩
          exact ⟨made₂.new, made₂.live, made₂.tree, made₂.keys, made₂.one⟩

/-- The common start of `ext4_create` and `ext4_mkdir` fails, or it inserts its inode. -/
theorem ext4NewInode_cases (mode type : UInt16) (cached : Cached s t) (fresh : ∀ p ∈ answers.inode, p ∉ s.live)
    (live : dir ∈ s.live) :
    (∃ s' e, ext4NewInode sOp answers s dir mode type = .ok (s', .error e) ∧
      (Intact s t s' ↔ t = .nil ∨ (Making.create dir mode).Spares sOp answers s)) ∨
    ∃ s₁ p, ext4NewInode sOp answers s dir mode type = .ok (s₁, .ok p) ∧ Inserted s t s₁ p ∧
      (Making.create dir mode).Spares sOp answers s := by
  unfold ext4NewInode Making.Spares
  rw [touch_live live, ok_bind]
  dsimp only
  obtain nothing | ⟨s₁, p, new, made⟩ := newInode_cases sOp fresh (s.inodes dir).iSb
  · rw [nothing]
    exact .inl ⟨s, .enomem, rfl, iff_of_true cached.intact (.inr (.inl rfl))⟩
  · rw [new]
    dsimp only
    obtain ⟨s₂, made₂, ⟨⟨e, failed⟩, few⟩ | ⟨allocated, enough⟩⟩ := made.alloc answers
    · obtain ⟨s', run, lost⟩ := made₂.drop sOp answers.writeInode cached
      refine .inl ⟨s', e, ?_, lost.trans (or_iff_left ?_).symm⟩
      · rw [failed]
        dsimp only
        rw [run, ok_bind]
      · rintro (none | enough)
        · cases none
        · exact few enough
    · obtain ⟨s', inserts, inserted⟩ :=
        (made₂.setInode (f := fun i => { i with iMode := (mode &&& ~~~0o170000) ||| type }) fun _ => rfl).insert cached
      refine .inr ⟨s', p, ?_, inserted, .inr enough⟩
      rw [allocated]
      dsimp only
      rw [inserts, ok_bind]

variable (sOp answers) in
theorem Inserted.dropInode (inserted : Inserted s t s₁ p) (cached : Cached s t) (e : Errno) :
    ∃ s', dropInode sOp answers s₁ p e = .ok (s', .error e) ∧ Intact s t s' := by
  obtain ⟨s', run, intact⟩ := inserted.drop sOp answers.writeInode cached
  refine ⟨s', ?_, intact⟩
  rw [Icache.dropInode, run, ok_bind]

/-- `mark_inode_dirty` and `d_instantiate` at the end of both calls. -/
theorem Inserted.finish (inserted : Inserted s t s₁ p) :
    ∃ s', (do let s ← markInodeDirty s₁ p; let s ← dInstantiate s p; .ok (s, Except.ok ())) =
      (.ok (s', .ok ()) : Except Fault (State × Except Errno Unit)) := by
  obtain ⟨s₂, marked, marks⟩ := markInodeDirty_spec inserted.here
  obtain ⟨s', counted⟩ := dInstantiate_spec (inserted.marks marks).here
  refine ⟨s', ?_⟩
  rw [marked, ok_bind, counted, ok_bind]

/-- What comes of a call: if it fails, then the cache is intact only where it spares it. -/
def Outcome (s : State) (t : ColorTree Id) (spares : Prop) {α : Type} (failed : α → Bool)
    (out : Except Fault (State × α)) : Prop :=
  ∃ s' r, out = .ok (s', r) ∧ (failed r = true → (Intact s t s' ↔ t = .nil ∨ spares))

variable (sOp mode) in
theorem ext4Create_outcome (cached : Cached s t) (fresh : ∀ p ∈ answers.inode, p ∉ s.live) (live : dir ∈ s.live) :
    Outcome s t ((Making.create dir mode).Spares sOp answers s) (!·.isOk) (ext4Create sOp answers s dir mode) := by
  unfold ext4Create
  obtain ⟨s', e, run, iff_⟩ | ⟨s₁, p, run, inserted, spares⟩ := ext4NewInode_cases mode 0o100000 cached fresh live
  · rw [run]
    exact ⟨s', .error e, rfl, fun _ => iff_⟩
  · rw [run, ok_bind]
    dsimp only
    obtain ⟨s₂, marked, marks⟩ := markIf_spec answers.addEntry.1 (inserted.old live)
    rw [marked, ok_bind]
    cases answers.addEntry.2 with
    | error e =>
        obtain ⟨s', dropped, intact⟩ := (inserted.marks marks).dropInode sOp answers cached e
        refine ⟨s', .error e, ?_, fun _ => iff_of_true intact (.inr spares)⟩
        dsimp only
        rw [dropped]
    | ok _ =>
        obtain ⟨s', finished⟩ := (inserted.marks marks).finish
        refine ⟨s', .ok (), ?_, nofun⟩
        dsimp only
        rw [finished]

variable (sOp mode) in
theorem ext4Mkdir_outcome (cached : Cached s t) (fresh : ∀ p ∈ answers.inode, p ∉ s.live) (live : dir ∈ s.live) :
    Outcome s t ((Making.mkdir dir mode).Spares sOp answers s) (!·.isOk) (ext4Mkdir sOp answers s dir mode) := by
  unfold ext4Mkdir
  obtain ⟨s', e, run, iff_⟩ | ⟨s₁, p, run, inserted, spares⟩ := ext4NewInode_cases mode 0o040000 cached fresh live
  · rw [run]
    exact ⟨s', .error e, rfl, fun _ => iff_⟩
  · rw [run, ok_bind]
    dsimp only
    obtain ⟨s₂, marked, marks⟩ := markIf_spec answers.makeEmpty.1 inserted.here
    rw [marked, ok_bind]
    have inserted₂ := inserted.marks marks
    cases answers.makeEmpty.2 with
    | error e =>
        obtain ⟨s', dropped, intact⟩ := inserted₂.dropInode sOp answers cached e
        refine ⟨s', .error e, ?_, fun _ => iff_of_true intact (.inr spares)⟩
        dsimp only
        rw [dropped]
    | ok _ =>
        dsimp only
        obtain ⟨s₃, marked₃, marks₃⟩ := markIf_spec answers.addEntry.1 (inserted₂.old live)
        rw [marked₃, ok_bind]
        have inserted₃ := inserted₂.marks marks₃
        cases answers.addEntry.2 with
        | error e =>
            obtain ⟨s', dropped, intact⟩ := inserted₃.dropInode sOp answers cached e
            refine ⟨s', .error e, ?_, fun _ => iff_of_true intact (.inr spares)⟩
            dsimp only
            rw [dropped]
        | ok _ =>
            dsimp only
            obtain ⟨s₄, marked₄, marks₄⟩ := markInodeDirty_spec (inserted₃.old live)
            obtain ⟨s', finished⟩ := (inserted₃.marks marks₄).finish
            refine ⟨s', .ok (), ?_, nofun⟩
            rw [marked₄, ok_bind, finished]

variable (sOp) in
theorem devfsMount_outcome (cached : Cached s t) (fresh : ∀ p ∈ answers.inode, p ∉ s.live) :
    Outcome s t (Making.devfsMount.Spares sOp answers s) (·.isNone) (Icache.devfsMount sOp answers s) := by
  unfold Icache.devfsMount
  cases got : answers.sbAlloc with
  | none => exact ⟨s, none, rfl, fun _ => iff_of_true cached.intact (.inr fun sb some_ => by simp [got] at some_)⟩
  | some sb =>
      dsimp only
      obtain nothing | ⟨s₁, p, new, made⟩ := newInode_cases sOp fresh sb
      · rw [nothing]
        refine ⟨s, none, rfl, fun _ => iff_of_true cached.intact (.inr fun sb' some_ => ?_)⟩
        cases got.symm.trans some_
        rw [nothing]
      · rw [new]
        dsimp only
        have made₁ := made.setInode (f := fun i => { i with iIno := 1, iMode := 0o040755 }) fun _ => rfl
        split
        · obtain ⟨s', counted⟩ := dInstantiate_spec made₁.here
          refine ⟨s', some p, ?_, nofun⟩
          rw [counted, ok_bind]
        · obtain ⟨s', run, lost⟩ := made₁.drop sOp answers.writeInode cached
          refine ⟨s', none, ?_, fun _ => lost.trans (or_iff_left fun spares => ?_).symm⟩
          · rw [run, ok_bind]
          · have none := spares sb got
            rw [new] at none
            cases none

/-- **The inode cache after a call that failed.**  In every state whose tree is a red-black
tree of inodes that are allocated, with memory for an inode that is not: `ext4_create`,
`ext4_mkdir` and `devfs_mount` run to their end, and if they fail, the cache is intact
exactly if it was empty, or no inode was made, or the new one was inserted. -/
theorem cache_intact_iff {call : Making} (cached : Cached s t) (fresh : ∀ p ∈ answers.inode, p ∉ s.live)
    (live : ∀ dir ∈ call.dir?, dir ∈ s.live) :
    ∃ s' failed, call.run sOp answers s = .ok (s', failed) ∧
      (failed = true → (Intact s t s' ↔ t = .nil ∨ call.Spares sOp answers s)) := by
  cases call with
  | create dir mode =>
      obtain ⟨s', r, run, iff_⟩ := ext4Create_outcome sOp mode cached fresh (live dir rfl)
      exact ⟨s', _, congrArg (Except.map _) run, iff_⟩
  | mkdir dir mode =>
      obtain ⟨s', r, run, iff_⟩ := ext4Mkdir_outcome sOp mode cached fresh (live dir rfl)
      exact ⟨s', _, congrArg (Except.map _) run, iff_⟩
  | devfsMount =>
      obtain ⟨s', r, run, iff_⟩ := devfsMount_outcome sOp cached fresh
      exact ⟨s', _, congrArg (Except.map _) run, iff_⟩

end Calls

/-! ## A full file system -/

/-- The root directory is the only inode in core. -/
def rootCached : State where
  inodes := fun _ => { zeroInode with iSb := 1, iIno := 2, iMode := 0o040755, iCount := 1, iPrivate := some 7 }
  live := [1]
  infos := [7]
  gInodeTree := ⟨some 1, fun _ => { zeroNode with color := .black }⟩
  gDirtyInodes := ⟨fun p => p, fun p => p⟩

/-- There is memory, and no inode is free on the disk. -/
def noInode : Answers where
  inode := some 2
  stubInfo := some 8
  info := some 9
  freeInode := .error (.other 28)
  readInode := none
  makeEmpty := (false, .ok ())
  addEntry := (false, .ok ())
  writeInode := true
  sbAlloc := none
  dAlloc := true

theorem rootCached_cached : Cached rootCached (.node .black .nil 1 .nil) where
  inv := ⟨⟨rfl, ⟨rfl, trivial, trivial⟩, by decide⟩, ⟨rfl, 1, rfl, rfl⟩, by simp [ColorTree.inorder]⟩
  live := by decide

theorem cache_intact_root : ∃ s' failed,
    (Making.create 1 0o644).run (fun _ => true) noInode rootCached = .ok (s', failed) ∧
      (failed = true → (Intact rootCached (.node .black .nil 1 .nil) s' ↔
        (ColorTree.node .black .nil 1 .nil : ColorTree Id) = .nil ∨
          (Making.create 1 0o644).Spares (fun _ => true) noInode rootCached)) :=
  cache_intact_iff rootCached_cached (by decide) (by decide)

/-- `ext4_create` answers -ENOSPC, and after it `inode_find` does not find the root
directory any more. -/
theorem enospc_loses_root : ∃ s', (Making.create 1 0o644).run (fun _ => true) noInode rootCached = .ok (s', true) ∧
    inodeFind rootCached 1 2 = .ok (some 1) ∧ inodeFind s' 1 2 = .ok none ∧
    ¬ Intact rootCached (.node .black .nil 1 .nil) s' :=
  ⟨_, rfl, rfl, rfl, not_intact rfl nofun⟩

end Minus.Fs.Icache
