/-
# Fs.IcacheDirty — the list of dirty inodes

`g_dirty_inodes` links the inodes whose `i_dirty` is set (`Tidy`): `mark_inode_dirty` adds
one, `write_inode_now` takes it off when it is written, and a failed write changes nothing.
Only `iput` breaks this: it destroys an inode after its last reference also when the write
failed, and the list goes on through freed memory (`dirty_list_iff`).
-/
import Minus.Theory.Machine
import Minus.Fs.IcacheDrop

namespace Minus.Fs.Icache

set_option autoImplicit false

open Minus.Theory Minus.Lib.Rbtree Minus.Lib.Dlist

/-- The list is `l`: the dirty ones of the inodes that are allocated.  The others are linked
to themselves. -/
structure Tidy (s : State) (l : List Id) : Prop where
  distinct : s.live.Nodup
  listed : s.gDirtyInodes.Ring none (l.map some)
  live : l ⊆ s.live
  dirty : ∀ p ∈ s.live, p ∈ l ↔ (s.inodes p).iDirty = true
  alone : ∀ p ∈ s.live, p ∉ l → s.gDirtyInodes.Alone (some p)

/-- A call on the inodes, with its answers. -/
inductive Act where
  | iget (answers : Answers) (sb ino : UInt64)
  | markInodeDirty (p : Id)
  | writeInodeNow (p : Id) (writeInode : Bool)
  | syncInodes (writeInode : Id → Bool)
  | iput (p : Id) (writeInode : Bool)

section Run

variable (sOp : UInt64 → Bool)

def Act.run (s : State) : Act → Except Fault State
  | .iget answers sb ino => (Icache.iget sOp answers s sb ino).map Prod.fst
  | .markInodeDirty p => Icache.markInodeDirty s p
  | .writeInodeNow p writeInode => Icache.writeInodeNow sOp writeInode s p
  | .syncInodes writeInode => (Icache.syncInodes sOp writeInode s).map Prod.fst
  | .iput p writeInode => Icache.iput sOp writeInode s p

/-- Memory for an inode is not one that is allocated. -/
def Act.Sound (s : State) : Act → Prop
  | .iget answers _ _ => ∀ p ∈ answers.inode, p ∉ s.live
  | _ => True

/-- A fault is the end of the run. -/
def icacheMachine : Machine State Act where
  enabled s act := act.Sound s ∧ ∃ s', act.run sOp s = .ok s'
  step s act := (act.run sOp s).toOption.getD s

/-- If an `iput` drops the last reference to a dirty inode, then its write succeeds. -/
def Act.Writes (s : State) : Act → Prop
  | .iput p writeInode =>
      (s.inodes p).iCount ≤ 1 → (s.inodes p).iDirty = true → sOp (s.inodes p).iSb = true → writeInode = true
  | _ => True

/-- The list is tidy, and `sync_inodes` visits its inodes once each and returns, whichever of
the writes fail. -/
def DirtyList (s : State) : Prop :=
  ∃ l, Tidy s l ∧ ∀ writeInode, ∃ s', syncInodes sOp writeInode s = .ok (s', l)

end Run

/-! ## The list -/

section Ring

variable {h : Links (Option Id)} {l : List Id} {p q : Id}

theorem family_of (ring : h.Ring none (l.map some)) :
    h.Family (fun _ : Unit => True) (fun _ => none) fun _ => l.map some where
  ring _ _ := ring
  apart _ _ _ _ ne := absurd rfl ne

theorem outside_of (notIn : p ∉ l) : some p ∉ none :: l.map some := by simp [notIn]

theorem ring_add (ring : h.Ring none (l.map some)) (notIn : p ∉ l) :
    (dlistAdd h none (some p)).Ring none ((p :: l).map some) := by
  rw [dlistAdd_eq_splice h (by simp)]
  exact ring.push_front (outside_of notIn)

theorem alone_add (ring : h.Ring none (l.map some)) (notIn : p ∉ l) (alone : h.Alone (some q)) (out : q ∉ l)
    (ne : q ≠ p) : (dlistAdd h none (some p)).Alone (some q) :=
  dlistAdd_alone (family_of ring) (i := ()) trivial (outside_of notIn) alone (outside_of out) (by simpa using ne)

/-- `dlist_del` of an inode on the list, or of one that is linked to itself. -/
theorem ring_del (ring : h.Ring none (l.map some)) (alone : p ∉ l → h.Alone (some p)) :
    (dlistDel h (some p)).Ring none ((l.erase p).map some) := by
  by_cases inside : p ∈ l
  · have member : some p ∈ l.map some := List.mem_map_of_mem inside
    rw [dlistDel_member (family_of ring) (i := ()) trivial member, List.map_erase (Option.some_injective _)]
    convert ring.erase member
  · rw [dlistDel_eq_unlink h fun _ => (alone inside).2, Links.unlink_of_alone (alone inside), List.erase_of_not_mem inside]
    exact ring

theorem alone_del (ring : h.Ring none (l.map some)) (alone : ∀ x, x = p ∨ x = q → x ∉ l → h.Alone (some x))
    (out : q = p ∨ q ∉ l) : (dlistDel h (some p)).Alone (some q) := by
  by_cases inside : p ∈ l
  · refine dlistDel_alone (family_of ring) (i := ()) trivial (List.mem_map_of_mem inside) ?_
    rcases out with rfl | out
    · exact .inl rfl
    · exact .inr ⟨alone q (.inr rfl) out, outside_of out⟩
  · have here := alone p (.inl rfl) inside
    rw [dlistDel_eq_unlink h fun _ => here.2, Links.unlink_of_alone here]
    rcases out with rfl | out
    · exact here
    · exact alone q (.inr rfl) out

/-- The node behind a member. -/
theorem next_of (ring : h.Ring none (l.map some)) {before after : List Id} (list : l = before ++ p :: after) :
    h.next (some p) = (after.map some).headD none := by
  have seg := ring.seg
  rw [list, List.map_append, List.map_cons, Links.seg_append] at seg
  cases after with
  | nil => exact seg.2.1
  | cons x after => exact seg.2.1.1

end Ring

/-! ## The steps -/

section Steps

variable {sOp : UInt64 → Bool} {writeInode : Bool} {s s' : State} {l : List Id} {p : Id}

theorem touch_ok {u : Unit} (run : touch s p = .ok u) : p ∈ s.live := by
  unfold touch at run
  split at run
  · assumption
  · cases run

/-- What is not an inode's `i_dirty` may change. -/
theorem Tidy.congr (tidy : Tidy s l) (live : s'.live = s.live) (links : s'.gDirtyInodes = s.gDirtyInodes)
    (dirty : ∀ q, (s'.inodes q).iDirty = (s.inodes q).iDirty) : Tidy s' l where
  distinct := live ▸ tidy.distinct
  listed := links ▸ tidy.listed
  live := live ▸ tidy.live
  dirty q inside := by
    rw [dirty q]
    exact tidy.dirty q (live ▸ inside)
  alone q inside out := links ▸ tidy.alone q (live ▸ inside) out

theorem markInodeDirty_tidy (tidy : Tidy s l) (live : p ∈ s.live) :
    ∃ s' l', markInodeDirty s p = .ok s' ∧ Tidy s' l' := by
  rw [markInodeDirty, touch_live live, ok_bind]
  split
  · exact ⟨s, l, rfl, tidy⟩
  · rename_i clean
    have notIn : p ∉ l := fun inside => clean ((tidy.dirty p live).1 inside)
    refine ⟨_, p :: l, rfl, tidy.distinct, ring_add tidy.listed notIn, ?_, fun q inside => ?_, fun q inside out => ?_⟩
    · exact List.cons_subset.2 ⟨live, tidy.live⟩
    · dsimp only
      by_cases here : q = p
      · rw [here, setInode_self]
        exact iff_of_true (List.mem_cons_self ..) rfl
      · rw [setInode_of_ne here, List.mem_cons, or_iff_right here]
        exact tidy.dirty q inside
    · obtain ⟨ne, out⟩ := not_or.1 (List.mem_cons.not.1 out)
      exact alone_add tidy.listed notIn (tidy.alone q inside out) out ne

variable (sOp writeInode) in
/-- `write_inode_now` takes the inode off the list if its write succeeds. -/
theorem writeInodeNow_tidy (tidy : Tidy s l) (live : p ∈ s.live) :
    ∃ s', writeInodeNow sOp writeInode s p = .ok s' ∧
      Tidy s' (if sOp (s.inodes p).iSb && !writeInode then l else l.erase p) := by
  rw [writeInodeNow, touch_live live, ok_bind]
  split
  · exact ⟨s, rfl, tidy⟩
  · have nodup : l.Nodup := (List.nodup_cons.1 tidy.listed.nodup).2.of_map
    have erase (q : Id) : q ∈ l.erase p ↔ q ≠ p ∧ q ∈ l := nodup.mem_erase_iff
    refine ⟨_, rfl, tidy.distinct, ?_, ?_, fun q inside => ?_, fun q inside out => ?_⟩
    · exact ring_del tidy.listed (tidy.alone p live)
    · exact fun q inside => tidy.live (List.mem_of_mem_erase inside)
    · dsimp only
      rw [erase]
      by_cases here : q = p
      · rw [here, setInode_self]
        simp
      · rw [setInode_of_ne here, and_iff_right here]
        exact tidy.dirty q inside
    · refine alone_del tidy.listed (fun x which => ?_) ?_
      · rcases which with rfl | rfl
        · exact tidy.alone x live
        · exact tidy.alone x inside
      · rw [erase, not_and_or, not_not] at out
        exact out

/-- The loop of `sync_inodes` from a suffix of the list on: it visits the suffix, and keeps
what could not be written. -/
theorem syncLoop_tidy {writes : Id → Bool} {rest : List Id} : ∀ {fuel : Nat} {s : State} {kept visited : List Id},
    Tidy s (kept ++ rest) → rest.length ≤ fuel →
    ∃ s' l', syncLoop sOp writes fuel s ((rest.map some).headD none) visited = .ok (s', visited ++ rest) ∧
      Tidy s' l' := by
  induction rest with
  | nil =>
      intro fuel s kept visited tidy _
      refine ⟨s, kept ++ [], ?_, tidy⟩
      rw [List.append_nil]
      cases fuel <;> rfl
  | cons p rest ih =>
      intro fuel s kept visited tidy enough
      cases fuel with
      | zero => cases enough
      | succ fuel =>
          have live : p ∈ s.live := tidy.live (by simp)
          have next := next_of tidy.listed rfl
          obtain ⟨s₁, run, tidy₁⟩ := writeInodeNow_tidy sOp (writes p) tidy live
          have rest₁ : ∃ kept₁, Tidy s₁ (kept₁ ++ rest) := by
            split at tidy₁
            · exact ⟨kept ++ [p], by rwa [List.append_assoc]⟩
            · have nodup := (List.nodup_cons.1 tidy.listed.nodup).2.of_map
              have notKept : p ∉ kept := fun inside => (List.nodup_append.1 nodup).2.2 p inside p (by simp) rfl
              rw [List.erase_append_right _ notKept, List.erase_cons_head] at tidy₁
              exact ⟨kept, tidy₁⟩
          obtain ⟨kept₁, tidy₁⟩ := rest₁
          obtain ⟨s', l', done, tidy'⟩ := @ih _ _ _ (visited ++ [p]) tidy₁ (Nat.le_of_succ_le_succ enough)
          refine ⟨s', l', ?_, tidy'⟩
          show syncLoop sOp writes (fuel + 1) s (some p) visited = _
          rw [syncLoop, touch_live live, ok_bind, run, ok_bind, next, done, List.append_assoc]
          rfl

variable (sOp) in
/-- **`sync_inodes`** visits each inode on the list and returns. -/
theorem syncInodes_tidy (writes : Id → Bool) (tidy : Tidy s l) :
    ∃ s' l', syncInodes sOp writes s = .ok (s', l) ∧ Tidy s' l' := by
  have nodup : l.Nodup := (List.nodup_cons.1 tidy.listed.nodup).2.of_map
  have short : l.length ≤ s.fuel :=
    (List.subperm_of_subset nodup tidy.live).length_le.trans (Nat.le_add_right s.live.length 3)
  rw [syncInodes, tidy.listed.next_head]
  exact @syncLoop_tidy _ _ _ s.fuel s [] [] tidy short

theorem Tidy.holds (tidy : Tidy s l) : DirtyList sOp s :=
  ⟨l, tidy, fun _ => (syncInodes_tidy _ _ tidy).imp fun _ ⟨_, run, _⟩ => run⟩

/-- `destroy_inode` of an inode that is not on the list. -/
theorem Tidy.destroy (tidy : Tidy s l) (notIn : p ∉ l) (tree : RbTree Id) :
    Tidy (destroyInode sOp { s with gInodeTree := tree } p) l where
  distinct := tidy.distinct.erase p
  listed := tidy.listed
  live _ inside := tidy.distinct.mem_erase_iff.2 ⟨ne_of_mem_of_not_mem inside notIn, tidy.live inside⟩
  dirty q inside := tidy.dirty q (List.mem_of_mem_erase inside)
  alone q inside out := tidy.alone q (List.mem_of_mem_erase inside) out

/-- The last reference to a dirty inode takes it off the list only if its write succeeds. -/
theorem iput_dirtyList (tidy : Tidy s l) (run : iput sOp writeInode s p = .ok s') :
    DirtyList sOp s' ↔
      ((s.inodes p).iCount ≤ 1 → (s.inodes p).iDirty = true → sOp (s.inodes p).iSb = true → writeInode = true) := by
  unfold iput at run
  obtain ⟨_, touched, run⟩ := bind_eq_ok.1 run
  have live := touch_ok touched
  generalize dropped : (s.setInode p fun i => { i with iCount := i.iCount - 1 }) = s₀ at run
  have here : s₀.inodes p = { s.inodes p with iCount := (s.inodes p).iCount - 1 } := by rw [← dropped, setInode_self]
  have tidy₀ : Tidy s₀ l := by
    rw [← dropped]
    exact tidy.congr rfl rfl fun q => setInode_field s p q Inode.iDirty fun _ => rfl
  have live₀ : p ∈ s₀.live := by rwa [← dropped]
  have destroyed {s₁ : State} (run₁ : (onTree (rbDelete s₁.fuel s₁.gInodeTree p) >>= fun tree =>
      .ok (destroyInode sOp { s₁ with gInodeTree := tree } p)) = Except.ok s') :
      ∃ tree, s' = destroyInode sOp { s₁ with gInodeTree := tree } p := by
    obtain ⟨tree, -, done⟩ := bind_eq_ok.1 run₁
    exact ⟨tree, (Except.ok.inj done).symm⟩
  dsimp only at run
  split at run
  · rename_i last
    have few : (s.inodes p).iCount ≤ 1 := by
      rw [here] at last
      exact sub_nonpos.1 last
    split at run
    · rename_i dirty
      obtain ⟨s₁, written, run⟩ := bind_eq_ok.1 run
      obtain ⟨s₁', written', tidy₁⟩ := writeInodeNow_tidy sOp writeInode tidy₀ live₀
      cases written.symm.trans written'
      obtain ⟨tree, rfl⟩ := destroyed run
      have member : p ∈ l := (tidy₀.dirty p live₀).2 dirty
      rw [here] at tidy₁ dirty
      by_cases fails : sOp (s.inodes p).iSb = true ∧ writeInode = false
      · -- the inode is destroyed while the list still has it
        rw [if_pos (by simp [fails])] at tidy₁
        refine iff_of_false ?_ fun writes => ?_
        · rintro ⟨l', tidy', -⟩
          have same : l' = l := List.map_injective_iff.2 (Option.some_injective _)
            (tidy'.listed.unique tidy₁.listed)
          exact tidy₁.distinct.not_mem_erase (tidy'.live (same ▸ member))
        · exact Bool.false_ne_true (fails.2.symm.trans (writes few dirty fails.1))
      · rw [if_neg (by simpa using fails)] at tidy₁
        have nodup : l.Nodup := (List.nodup_cons.1 tidy.listed.nodup).2.of_map
        refine iff_of_true (tidy₁.destroy nodup.not_mem_erase tree).holds fun _ _ hooked => ?_
        by_contra failed
        exact fails ⟨hooked, Bool.eq_false_iff.2 failed⟩
    · rename_i clean
      obtain ⟨tree, rfl⟩ := destroyed run
      have notIn : p ∉ l := fun inside => clean ((tidy₀.dirty p live₀).1 inside)
      refine iff_of_true (tidy₀.destroy notIn tree).holds fun _ dirty => ?_
      rw [here] at clean
      exact absurd dirty clean
  · rename_i more
    cases run
    refine iff_of_true tidy₀.holds fun few => absurd ?_ more
    rw [here]
    exact sub_nonpos.2 few

/-- A new inode is on no list. -/
theorem newInode_tidy {answers : Answers} {sb : UInt64} {r : Option Id} (tidy : Tidy s l)
    (fresh : ∀ p ∈ answers.inode, p ∉ s.live) (run : newInode sOp answers s sb = (s', r)) : Tidy s' l := by
  unfold newInode at run
  obtain allocated | ⟨s₁, p, allocated, here, live, -, links, others⟩ := allocInode_cases sOp answers s sb
  · rw [allocated] at run
    cases run
    exact tidy
  · rw [allocated] at run
    cases run
    have new := fresh p here
    have notIn : p ∉ l := fun inside => new (tidy.live inside)
    refine ⟨?_, ?_, fun q inside => ?_, fun q inside => ?_, fun q inside out => ?_⟩
    · rw [live]
      exact List.nodup_cons.2 ⟨new, tidy.distinct⟩
    · rw [links]
      exact tidy.listed.frame fun y inside =>
        have ne : y ≠ some p := ne_of_mem_of_not_mem inside (outside_of notIn)
        ⟨dlistInit_next_of_ne _ ne, dlistInit_prev_of_ne _ ne⟩
    · rw [live]
      exact List.mem_cons_of_mem _ (tidy.live inside)
    · rw [live] at inside
      show _ ↔ (Function.update s₁.inodes p _ q).iDirty = true
      by_cases same : q = p
      · rw [same, Function.update_self]
        exact iff_of_false notIn Bool.false_ne_true
      · rw [Function.update_of_ne same, others q same]
        exact tidy.dirty q ((List.mem_cons.1 inside).resolve_left same)
    · rw [live] at inside
      rw [links]
      by_cases same : q = p
      · rw [same]
        exact dlistInit_alone _ _
      · have alone := tidy.alone q ((List.mem_cons.1 inside).resolve_left same) out
        have ne : some q ≠ some p := fun h => same (Option.some.inj h)
        exact ⟨(dlistInit_next_of_ne _ ne).trans alone.1, (dlistInit_prev_of_ne _ ne).trans alone.2⟩

theorem iget_tidy {answers : Answers} {sb ino : UInt64} {r : Option Id} (tidy : Tidy s l)
    (fresh : ∀ p ∈ answers.inode, p ∉ s.live) (run : iget sOp answers s sb ino = .ok (s', r)) : Tidy s' l := by
  unfold iget at run
  obtain ⟨found, -, run⟩ := bind_eq_ok.1 run
  cases found with
  | some p =>
      obtain ⟨-, -, run⟩ := bind_eq_ok.1 run
      cases run
      exact tidy.congr rfl rfl fun q => setInode_field s p q Inode.iDirty fun _ => rfl
  | none =>
      cases new : newInode sOp answers s sb with
      | mk s₁ got =>
          have tidy₁ := newInode_tidy tidy fresh new
          rw [new] at run
          cases got with
          | none =>
              cases run
              exact tidy₁
          | some p =>
              obtain ⟨s₂, inserted, run⟩ := bind_eq_ok.1 run
              cases run
              unfold insertInodeHash at inserted
              obtain ⟨-, -, inserted⟩ := bind_eq_ok.1 inserted
              obtain ⟨tree, -, inserted⟩ := bind_eq_ok.1 inserted
              cases inserted
              exact tidy₁.congr rfl rfl fun q =>
                setInode_field s₁ p q Inode.iDirty (f := fun i => { i with iIno := ino }) fun _ => rfl

/-- **A step keeps the list** exactly if it is no `iput` that destroys a dirty inode after a
failed write. -/
theorem step_dirtyList {act : Act} (holds : DirtyList sOp s) (enabled : (icacheMachine sOp).enabled s act) :
    DirtyList sOp ((icacheMachine sOp).step s act) ↔ act.Writes sOp s := by
  obtain ⟨l, tidy, -⟩ := holds
  obtain ⟨sound, s', run⟩ := enabled
  have step : (icacheMachine sOp).step s act = s' := by
    show (act.run sOp s).toOption.getD s = s'
    rw [run]
    rfl
  rw [step]
  cases act with
  | iget answers sb ino =>
      obtain ⟨⟨s₁, r⟩, got, rfl⟩ := map_eq_ok.1 run
      exact iff_of_true (iget_tidy tidy sound got).holds trivial
  | markInodeDirty p =>
      obtain ⟨_, touched, -⟩ := bind_eq_ok.1 run
      obtain ⟨s₁, l', done, tidy'⟩ := markInodeDirty_tidy tidy (touch_ok touched)
      cases run.symm.trans done
      exact iff_of_true tidy'.holds trivial
  | writeInodeNow p writeInode =>
      obtain ⟨_, touched, -⟩ := bind_eq_ok.1 run
      obtain ⟨s₁, done, tidy'⟩ := writeInodeNow_tidy sOp writeInode tidy (touch_ok touched)
      cases run.symm.trans done
      exact iff_of_true tidy'.holds trivial
  | syncInodes writes =>
      obtain ⟨s₁, l', done, tidy'⟩ := syncInodes_tidy sOp writes tidy
      obtain ⟨⟨s₂, visited⟩, got, rfl⟩ := map_eq_ok.1 run
      cases got.symm.trans done
      exact iff_of_true tidy'.holds trivial
  | iput p writeInode => exact iput_dirtyList tidy run

/-- **The dirty list along a run.**  From any state whose list is right, in any run of
`mark_inode_dirty`, `write_inode_now`, `sync_inodes`, `iput` and `iget` with any of the
writes failing: the list is right in every state exactly if no `iput` of a last reference
fails to write a dirty inode. -/
theorem dirty_list_iff {actions : List Act} (start : DirtyList sOp s) (admitted : (icacheMachine sOp).Admits s actions) :
    (∀ past, past <+: actions → DirtyList sOp ((icacheMachine sOp).run s past)) ↔
      ((icacheMachine sOp).guard fun s act => act.Writes sOp s).Admits s actions :=
  (icacheMachine sOp).guard_admits_iff (fun _ _ => step_dirtyList) start admitted

end Steps

/-! ## The root directory, written and not -/

theorem rootCached_dirtyList : DirtyList (fun _ => true) rootCached := by
  have tidy : Tidy rootCached [] :=
    ⟨by decide, ⟨⟨rfl, rfl⟩, by decide⟩, by decide, fun _ _ => by simp [rootCached, zeroInode], fun _ _ _ => ⟨rfl, rfl⟩⟩
  exact tidy.holds

/-- Marked, written in vain, synchronised in vain and then dropped. -/
def dirtyRoot (last : Bool) : List Act :=
  [.markInodeDirty 1, .writeInodeNow 1 false, .syncInodes fun _ => false, .iput 1 last]

theorem dirtyRoot_admitted (last : Bool) : (icacheMachine fun _ => true).Admits rootCached (dirtyRoot last) := by
  refine ⟨⟨trivial, _, rfl⟩, ⟨trivial, _, rfl⟩, ⟨trivial, _, rfl⟩, ⟨trivial, ?_⟩, trivial⟩
  cases last with
  | false => exact ⟨_, rfl⟩
  | true => exact ⟨_, rfl⟩

theorem dirty_list_root :
    (∀ past, past <+: dirtyRoot true → DirtyList (fun _ => true) ((icacheMachine fun _ => true).run rootCached past)) ↔
      ((icacheMachine fun _ => true).guard fun s act => act.Writes (fun _ => true) s).Admits rootCached
        (dirtyRoot true) :=
  dirty_list_iff rootCached_dirtyList (dirtyRoot_admitted true)

/-- The write at the last `iput` fails: the inode is freed and `sync_inodes` comes to it. -/
theorem failed_write_dangles : (icacheMachine fun _ => true).Admits rootCached (dirtyRoot false) ∧
    ¬ DirtyList (fun _ => true) ((icacheMachine fun _ => true).run rootCached (dirtyRoot false)) ∧
    syncInodes (fun _ => true) (fun _ => true) ((icacheMachine fun _ => true).run rootCached (dirtyRoot false)) =
      .error .freed := by
  have freed : syncInodes (fun _ => true) (fun _ => true)
      ((icacheMachine fun _ => true).run rootCached (dirtyRoot false)) = .error .freed := rfl
  refine ⟨dirtyRoot_admitted false, ?_, freed⟩
  rintro ⟨l, -, visits⟩
  obtain ⟨s', run⟩ := visits fun _ => true
  cases freed.symm.trans run

end Minus.Fs.Icache
