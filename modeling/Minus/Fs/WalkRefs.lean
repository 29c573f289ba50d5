/-
# Fs.WalkRefs — what a walk holds, whatever it goes through

A walk may free directories that it has loaded itself, and leave dentries whose
parent is gone; then the lists say nothing.  The counts still do: `Refs` is all that
is kept on every walk that does not fault, that what the walk or its caller holds is
live and counted.
-/
import Minus.Fs.DcacheTree
import Minus.Fs.Vfs

namespace Minus.Fs.Dcache

set_option autoImplicit false

open Minus.Theory Minus.Lib.Dlist

/-- The references in flight are to live dentries, and counted. -/
structure Refs (c : Cache) (extra : List Id) : Prop where
  nodup : c.live.Nodup
  positive : ∀ d ∈ c.live, 1 ≤ (c.dentries d).dCount
  live : ∀ d ∈ extra, d ∈ c.live
  counted : ∀ d ∈ c.live, (extra.count d : Int) ≤ (c.dentries d).dCount

/-- Unless the kernel faults. -/
abbrev Unfaulted {α : Type} (P : α → Prop) (x : Except Fault α) : Prop := Ends P (fun _ => True) x

section Refs

variable {c c' : Cache} {extra extra' : List Id} {d p root : Id} {mnt : Vfsmount}

theorem Refs.perm (refs : Refs c extra) (perm : extra.Perm extra') : Refs c extra' where
  nodup := refs.nodup
  positive := refs.positive
  live x inside := refs.live x (perm.mem_iff.2 inside)
  counted x inside := perm.count_eq x ▸ refs.counted x inside

/-- Only the links or the number of allocations changed, or what is in the dentries beside the counts. -/
theorem Refs.congr (refs : Refs c extra) (live : c'.live = c.live)
    (count : ∀ d, (c'.dentries d).dCount = (c.dentries d).dCount) : Refs c' extra where
  nodup := live ▸ refs.nodup
  positive x inside := by
    rw [count]
    exact refs.positive x (live ▸ inside)
  live x inside := live ▸ refs.live x inside
  counted x inside := by
    rw [count]
    exact refs.counted x (live ▸ inside)

theorem unfaulted_touch {α : Type} {P : α → Prop} {next : Except Fault α} (safe : d ∈ c.live → Unfaulted P next) :
    Unfaulted P (do touch c d; next) := by
  by_cases live : d ∈ c.live
  · rw [touch, if_pos live, ok_bind]
    exact safe live
  · rw [touch, if_neg live]
    trivial

theorem modify_count (c : Cache) (d x : Id) (f : Dentry → Dentry) (same : ∀ e, (f e).dCount = e.dCount) :
    ((c.modify d f).dentries x).dCount = (c.dentries x).dCount := by
  by_cases here : x = d
  · subst here
    rw [modify_self, same]
  · rw [modify_of_ne c f here]

theorem dget_refs (refs : Refs c extra) : Unfaulted (fun c => Refs c (d :: extra)) (dget c d) := by
  refine unfaulted_touch fun live => ?_
  have positive := refs.positive d live
  have counted := refs.counted d live
  refine ⟨refs.nodup, fun x inside => ?_, fun x inside => ?_, fun x inside => ?_⟩
  · by_cases here : x = d
    · subst here
      rw [modify_self]
      show 1 ≤ (c.dentries x).dCount + 1
      omega
    · rw [modify_of_ne c _ here]
      exact refs.positive x inside
  · rcases List.mem_cons.1 inside with rfl | inside
    · exact live
    · exact refs.live x inside
  · by_cases here : x = d
    · subst here
      rw [modify_self, List.count_cons_self]
      show ((extra.count x + 1 : Nat) : Int) ≤ (c.dentries x).dCount + 1
      omega
    · rw [modify_of_ne c _ here, List.count_cons_of_ne (Ne.symm here)]
      exact refs.counted x inside

theorem dput_refs (refs : Refs c (d :: extra)) : Unfaulted (fun c => Refs c extra) (dput c d) := by
  refine unfaulted_touch fun live => ?_
  have counted := refs.counted d live
  rw [List.count_cons_self] at counted
  have others {x : Id} (inside : x ∈ c.live) (here : x ≠ d) :
      1 ≤ (c.dentries x).dCount ∧ (extra.count x : Int) ≤ (c.dentries x).dCount := by
    have counted := refs.counted x inside
    rw [List.count_cons_of_ne (Ne.symm here)] at counted
    exact ⟨refs.positive x inside, counted⟩
  dsimp only
  rw [modify_self]
  split
  · -- the last reference, so no other one is in flight
    rename_i last
    replace last : (c.dentries d).dCount - 1 ≤ 0 := last
    have gone : d ∉ extra := fun inside => by
      have more := List.count_pos_iff.2 inside
      omega
    unfold freeDentry
    refine unfaulted_touch fun _ => unfaulted_touch fun _ => ?_
    have kept {x : Id} (inside : x ∈ c.live.erase d) : x ∈ c.live ∧ x ≠ d :=
      ⟨List.mem_of_mem_erase inside, fun same => (refs.nodup.mem_erase_iff.1 inside).1 same⟩
    have same {x : Id} (other : x ≠ d) :
        (((c.modify d fun e => { e with dCount := e.dCount - 1 }).modify d fun e => { e with dInode := none }).dentries
          x) = c.dentries x := by
      rw [modify_of_ne _ _ other, modify_of_ne c _ other]
    refine ⟨refs.nodup.erase d, fun x inside => ?_, fun x inside => ?_, fun x inside => ?_⟩
    · show 1 ≤ (Dentry.dCount _)
      rw [same (kept inside).2]
      exact (others (kept inside).1 (kept inside).2).1
    · have other : x ≠ d := ne_of_mem_of_not_mem inside gone
      exact (List.mem_erase_of_ne other).2 (refs.live x (List.mem_cons_of_mem d inside))
    · show _ ≤ (Dentry.dCount _)
      rw [same (kept inside).2]
      exact (others (kept inside).1 (kept inside).2).2
  · rename_i more
    replace more : ¬ (c.dentries d).dCount - 1 ≤ 0 := more
    refine ⟨refs.nodup, fun x inside => ?_, fun x inside => refs.live x (List.mem_cons_of_mem d inside),
      fun x inside => ?_⟩
    · by_cases here : x = d
      · subst here
        rw [modify_self]
        show 1 ≤ (c.dentries x).dCount - 1
        omega
      · rw [modify_of_ne c _ here]
        exact (others inside here).1
    · by_cases here : x = d
      · subst here
        rw [modify_self]
        show _ ≤ (c.dentries x).dCount - 1
        omega
      · rw [modify_of_ne c _ here]
        exact (others inside here).2

/-- The references after an allocation. -/
abbrev Refs.Allocated (extra : List Id) (r : Cache × Option Id) : Prop :=
  match r.2 with
  | some d => Refs r.1 (d :: extra)
  | none => Refs r.1 extra

theorem Refs.insert (refs : Refs c extra) (free : d ∉ c.live) (parent : Id) (name : Name) :
    Refs (c.insert d parent name) (d :: extra) := by
  have old {x : Id} (inside : x ∈ (c.insert d parent name).live) (other : x ≠ d) :
      x ∈ c.live ∧ (c.insert d parent name).dentries x = c.dentries x :=
    ⟨(List.mem_cons.1 inside).resolve_left other, insert_of_ne c parent name other⟩
  have none_ : extra.count d = 0 := List.count_eq_zero.2 fun inside => free (refs.live d inside)
  refine ⟨List.nodup_cons.2 ⟨free, refs.nodup⟩, fun x inside => ?_, fun x inside => ?_, fun x inside => ?_⟩
  · by_cases here : x = d
    · subst here
      rw [insert_self]
    · rw [(old inside here).2]
      exact refs.positive x (old inside here).1
  · rcases List.mem_cons.1 inside with rfl | inside
    · exact List.mem_cons_self
    · exact List.mem_cons_of_mem d (refs.live x inside)
  · by_cases here : x = d
    · subst here
      rw [insert_self, List.count_cons_self, none_]
      rfl
    · rw [(old inside here).2, List.count_cons_of_ne (Ne.symm here)]
      exact refs.counted x (old inside here).1

theorem dAlloc_refs (env : Env) (refs : Refs c extra) (parent : Option Id) (name : Name) :
    Unfaulted (Refs.Allocated extra) (dAlloc env c parent name) := by
  unfold dAlloc
  cases given : env.alloc c.allocs c.live with
  | none => exact refs.congr rfl fun _ => rfl
  | some d =>
      have free := env.fresh _ _ _ given
      cases parent with
      | none => exact refs.insert free d name
      | some p =>
          refine Ends.bind (P := fun c => Refs c (d :: extra)) ?_ fun c linked => linked
          refine unfaulted_touch fun _ => unfaulted_touch fun _ => ?_
          exact (refs.insert free p name).congr rfl fun _ => rfl

theorem dInstantiate_refs (refs : Refs c extra) (inode : Inode) :
    Unfaulted (fun c => Refs c extra) (dInstantiate c d inode) :=
  unfaulted_touch fun _ => refs.congr rfl fun x => modify_count c d x _ fun _ => rfl

theorem dLookup_refs (refs : Refs c extra) (name : Name) :
    Unfaulted (Refs.Allocated extra) (dLookup c p name) := by
  refine unfaulted_touch fun _ => ?_
  refine Ends.bind (P := fun _ => True) (Ends.of_forall (fun _ => trivial) (fun _ => trivial) _) fun r _ => ?_
  cases r with
  | none => exact refs
  | some x => exact Ends.bind (dget_refs refs) fun c got => got

/-- The references after a lookup of one name. -/
abbrev Refs.Looked (extra : List Id) (r : Cache × Except Errno (Option Id)) : Prop :=
  match r.2 with
  | .ok (some d) => Refs r.1 (d :: extra)
  | _ => Refs r.1 extra

theorem lookupOneLen_refs (env : Env) (refs : Refs c extra) (name : Name) :
    Unfaulted (Refs.Looked extra) (lookupOneLen env c name p) := by
  unfold lookupOneLen
  refine Ends.bind (dLookup_refs refs _) fun r looked => ?_
  obtain ⟨c₁, found⟩ := r
  cases found with
  | some x => exact looked
  | none =>
      refine Ends.bind (dAlloc_refs env looked _ _) fun r allocated => ?_
      obtain ⟨c₂, made⟩ := r
      cases made with
      | none => exact allocated
      | some d =>
          refine unfaulted_touch fun _ => ?_
          split
          · exact allocated
          · split
            · exact Ends.bind (dput_refs allocated) fun c gone => gone
            · exact Ends.bind (dput_refs allocated) fun c gone => gone
            · exact Ends.bind (dInstantiate_refs allocated _) fun c given => given

/-- The references where a walk comes to. -/
abbrev Refs.Walked (extra : List Id) (r : Cache × Except Errno (Id × Vfsmount)) : Prop :=
  match r.2 with
  | .ok (d, _) => Refs r.1 (d :: extra)
  | .error _ => Refs r.1 extra

theorem failed_refs (refs : Refs c (d :: extra)) (e : Errno) : Unfaulted (Refs.Walked extra) (failed c d e) :=
  Ends.bind (dput_refs refs) fun _ gone => gone

theorem moveRef_refs (refs : Refs c (d :: extra)) : Unfaulted (fun c => Refs c (p :: extra)) (moveRef c d p) :=
  Ends.bind (dget_refs refs) fun _ got => dput_refs (got.perm (.swap d p extra))

theorem climb_refs (refs : Refs c (d :: extra)) :
    Unfaulted (fun r => Refs r.1 (r.2.1 :: extra)) (climb c d mnt) := by
  unfold climb
  split
  · split
    · exact Ends.bind (moveRef_refs refs) fun _ moved => moved
    · exact refs
  · exact refs

theorem stepUp_refs (refs : Refs c (d :: extra)) : Unfaulted (Refs.Walked extra) (stepUp c d mnt) := by
  refine Ends.bind (climb_refs refs) fun r climbed => unfaulted_touch fun _ => ?_
  dsimp only
  split
  · exact climbed
  · exact Ends.bind (moveRef_refs climbed) fun _ moved => moved

theorem stepDown_refs (env : Env) (refs : Refs c (d :: extra)) (name : Name) :
    Unfaulted (Refs.Walked extra) (stepDown env c d mnt name) := by
  unfold stepDown
  refine Ends.bind (lookupOneLen_refs env refs name) fun r looked => ?_
  obtain ⟨c₁, found⟩ := r
  rcases found with e | found
  · exact failed_refs looked e
  · cases found with
    | none => exact failed_refs looked .enoent
    | some next =>
        refine unfaulted_touch fun _ => ?_
        have both : Refs c₁ (d :: next :: extra) := Refs.perm looked (.swap d next extra)
        split
        · rename_i sub _
          refine Ends.bind (dget_refs looked) fun c₂ got => ?_
          have apart : Refs c₂ (next :: d :: sub.mntRoot :: extra) :=
            got.perm ((List.Perm.swap next sub.mntRoot _).trans (.cons _ (.swap d sub.mntRoot _)))
          refine Ends.bind (dput_refs apart) fun c₃ gone => ?_
          exact Ends.bind (dput_refs gone) fun c₄ gone' => gone'
        · exact Ends.bind (dput_refs both) fun c₂ gone => gone

theorem followStep_refs (env : Env) (refs : Refs c (d :: extra)) (comp : Name) :
    Unfaulted (Refs.Walked extra) (followStep env c d mnt comp) := by
  refine unfaulted_touch fun _ => ?_
  split
  · trivial
  · split
    · exact failed_refs refs .enotdir
    · split
      · exact refs
      · split
        · exact stepUp_refs refs
        · exact stepDown_refs env refs comp

/-- **A walk** keeps what its caller holds, and holds what it finds. -/
theorem followLoop_refs (env : Env) (comps : List Name) (refs : Refs c (d :: extra)) :
    Unfaulted (Refs.Walked extra) (followLoop env c d mnt comps) := by
  induction comps generalizing c d mnt with
  | nil => exact refs
  | cons comp rest ih =>
      refine Ends.bind (followStep_refs env refs comp) fun r step => ?_
      obtain ⟨c', place⟩ := r
      cases place with
      | error e => exact step
      | ok place => exact ih step

theorem vfsPathLookup_refs (env : Env) {ctx : Context} {path : List Char} (refs : Refs c extra) :
    Unfaulted (Refs.Walked extra) (vfsPathLookup env ctx c path) := by
  unfold vfsPathLookup followPath
  split
  · exact refs
  · exact Ends.bind (dget_refs refs) fun _ got => followLoop_refs env _ got

end Refs

end Minus.Fs.Dcache
