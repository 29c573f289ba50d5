/-
# Fs.IcacheOwner — who owns an `ext4_inode_info`

`ext4_alloc_inode_stub` allocates one with the inode, `new_inode` clears the inode and with
it `i_private`, and `ext4_iget` and `ext4_alloc_inode` allocate another.  So every inode
that is made leaves one behind that no inode has and nobody frees, and the calls keep
ownership only as long as none is made (`one_owner_iff`).
-/
import Minus.Fs.IcacheDirty

namespace Minus.Fs.Icache

set_option autoImplicit false

open Minus.Theory Minus.Lib.Rbtree Minus.Lib.Dlist
open Minus.Fs.Dcache (Errno)

/-- Each `ext4_inode_info` that is allocated is the `i_private` of one inode, and goes with
it. -/
structure OneOwner (sOp : UInt64 → Bool) (s : State) : Prop where
  live : s.live.Nodup
  distinct : s.infos.Nodup
  owner : ∀ ei ∈ s.infos, ∃! p, p ∈ s.live ∧ (s.inodes p).iPrivate = some ei
  frees : ∀ p ∈ s.live, ∀ ei, (s.inodes p).iPrivate = some ei → ei ∈ s.infos ∧ ei ∉ (destroyInode sOp s p).infos

/-- A call of ext4, with its answers. -/
inductive Ext4Call where
  | ext4Iget (answers : Answers) (sb ino : UInt64)
  | ext4Create (answers : Answers) (dir : Id) (mode : UInt16)
  | ext4Mkdir (answers : Answers) (dir : Id) (mode : UInt16)
  | iput (writeInode : Bool) (p : Id)

/-- The allocators give what is not allocated. -/
structure Answers.Fresh (answers : Answers) (s : State) : Prop where
  inode : ∀ p ∈ answers.inode, p ∉ s.live
  stubInfo : ∀ ei ∈ answers.stubInfo, ei ∉ s.infos
  info : ∀ ei ∈ answers.info, ei ∉ s.infos
  apart : ∀ ei ∈ answers.info, ei ∉ answers.stubInfo

/-- There is memory for an inode and its private part. -/
def Answers.Room (answers : Answers) : Prop := answers.inode.isSome ∧ answers.stubInfo.isSome

section Calls

variable (sOp : UInt64 → Bool)

def Ext4Call.run (s : State) : Ext4Call → Except Fault State
  | .ext4Iget answers sb ino => (Icache.ext4Iget sOp answers s sb ino).map Prod.fst
  | .ext4Create answers dir mode => (Icache.ext4Create sOp answers s dir mode).map Prod.fst
  | .ext4Mkdir answers dir mode => (Icache.ext4Mkdir sOp answers s dir mode).map Prod.fst
  | .iput writeInode p => Icache.iput sOp writeInode s p

/-- The call is on an ext4 super block, and its allocators are right. -/
def Ext4Call.Sound (s : State) : Ext4Call → Prop
  | .ext4Iget answers sb _ => sOp sb = true ∧ answers.Fresh s
  | .ext4Create answers dir _ | .ext4Mkdir answers dir _ => sOp (s.inodes dir).iSb = true ∧ answers.Fresh s
  | .iput _ _ => True

/-- A fault is the end of the run. -/
def ext4Machine : Machine State Ext4Call where
  enabled s call := call.Sound sOp s ∧ ∃ s', call.run sOp s = .ok s'
  step s call := (call.run sOp s).toOption.getD s

end Calls

/-- The call makes an inode: it has the memory and, in `ext4_iget`, the inode is not in core. -/
def Ext4Call.Makes (s : State) : Ext4Call → Prop
  | .ext4Iget answers sb ino => inodeFind s sb ino = .ok none ∧ answers.Room
  | .ext4Create answers _ _ | .ext4Mkdir answers _ _ => answers.Room
  | .iput _ _ => False

/-! ## Moves -/

/-- Nothing is allocated or freed, and no inode changes hands. -/
structure Quiet (s s' : State) : Prop where
  live : s'.live = s.live
  infos : s'.infos = s.infos
  hands : ∀ q, (s'.inodes q).iPrivate = (s.inodes q).iPrivate
  sbs : ∀ q, (s'.inodes q).iSb = (s.inodes q).iSb

/-- A private part for an inode that has none. -/
def State.give (s : State) (p : Id) (ei : Info) : State :=
  { s.setInode p fun i => { i with iPrivate := some ei } with infos := ei :: s.infos }

/-- What the calls do to the inodes that are made. -/
inductive Moves (sOp : UInt64 → Bool) : State → State → Prop where
  | refl (s : State) : Moves sOp s s
  | quiet {s s₁ s₂ : State} (moves : Moves sOp s s₁) (quiet : Quiet s₁ s₂) : Moves sOp s s₂
  | give {s s₁ : State} {p : Id} {ei : Info} (moves : Moves sOp s s₁) (live : p ∈ s₁.live)
      (hooked : sOp (s₁.inodes p).iSb = true) (bare : (s₁.inodes p).iPrivate = none) (fresh : ei ∉ s₁.infos) :
      Moves sOp s (s₁.give p ei)
  | destroy {s s₁ : State} {p : Id} (moves : Moves sOp s s₁) (live : p ∈ s₁.live) : Moves sOp s (destroyInode sOp s₁ p)

/-- No inode has it. -/
def Leaked (s : State) (ei : Info) : Prop := ei ∈ s.infos ∧ ∀ p ∈ s.live, (s.inodes p).iPrivate ≠ some ei

section Moves

variable {sOp : UInt64 → Bool} {s s' s₁ : State} {p : Id} {ei : Info}

theorem Quiet.refl (s : State) : Quiet s s := ⟨rfl, rfl, fun _ => rfl, fun _ => rfl⟩

theorem Quiet.trans (first : Quiet s s₁) (next : Quiet s₁ s') : Quiet s s' where
  live := next.live.trans first.live
  infos := next.infos.trans first.infos
  hands q := (next.hands q).trans (first.hands q)
  sbs q := (next.sbs q).trans (first.sbs q)

theorem Moves.trans (first : Moves sOp s s₁) (next : Moves sOp s₁ s') : Moves sOp s s' := by
  induction next with
  | refl => exact first
  | quiet _ quiet ih => exact ih.quiet quiet
  | give _ live hooked bare fresh ih => exact ih.give live hooked bare fresh
  | destroy _ live ih => exact ih.destroy live

theorem destroyInode_infos : (destroyInode sOp s p).infos =
    if sOp (s.inodes p).iSb then (s.inodes p).iPrivate.elim s.infos s.infos.erase else s.infos := rfl

theorem give_self : (s.give p ei).inodes p = { s.inodes p with iPrivate := some ei } := Function.update_self ..

theorem give_of_ne {q : Id} (other : q ≠ p) : (s.give p ei).inodes q = s.inodes q :=
  Function.update_of_ne other ..

/-- **What is leaked stays so.** -/
theorem Moves.leaked (moves : Moves sOp s s') (leaked : Leaked s ei) : Leaked s' ei := by
  induction moves with
  | refl => exact leaked
  | quiet _ quiet ih =>
      obtain ⟨held, lost⟩ := ih
      refine ⟨quiet.infos ▸ held, fun q live => ?_⟩
      rw [quiet.hands]
      exact lost q (quiet.live ▸ live)
  | give _ live hooked bare fresh ih =>
      rename_i s₁ p new _
      obtain ⟨held, lost⟩ := ih
      refine ⟨List.mem_cons_of_mem _ held, fun q live => ?_⟩
      by_cases here : q = p
      · rw [here, give_self]
        exact fun same => fresh (Option.some.inj same ▸ held)
      · rw [give_of_ne here]
        exact lost q live
  | destroy _ live ih =>
      rename_i s₁ p _
      obtain ⟨held, lost⟩ := ih
      refine ⟨?_, fun q inside => lost q (List.mem_of_mem_erase inside)⟩
      rw [destroyInode_infos]
      have other := lost p live
      split
      · cases own : (s₁.inodes p).iPrivate with
        | none => exact held
        | some e =>
            rw [own] at other
            exact (List.mem_erase_of_ne fun same => other (congrArg some same.symm)).2 held
      · exact held

theorem OneOwner.not_leaked (owned : OneOwner sOp s) : ¬ Leaked s ei := by
  rintro ⟨held, lost⟩
  obtain ⟨p, ⟨live, own⟩, -⟩ := owned.owner ei held
  exact lost p live own

/-- Where an inode has a private part, its super block has `destroy_inode`. -/
theorem OneOwner.hooked (owned : OneOwner sOp s) (live : p ∈ s.live) (own : (s.inodes p).iPrivate = some ei) :
    ei ∈ s.infos ∧ sOp (s.inodes p).iSb = true := by
  obtain ⟨held, freed⟩ := owned.frees p live ei own
  refine ⟨held, ?_⟩
  by_contra unhooked
  rw [destroyInode_infos, if_neg unhooked] at freed
  exact freed held

theorem OneOwner.of_hooked (live : s.live.Nodup) (distinct : s.infos.Nodup)
    (owner : ∀ ei ∈ s.infos, ∃ p, p ∈ s.live ∧ (s.inodes p).iPrivate = some ei)
    (only : ∀ p ∈ s.live, ∀ q ∈ s.live, ∀ ei, (s.inodes p).iPrivate = some ei → (s.inodes q).iPrivate = some ei → p = q)
    (hooked : ∀ p ∈ s.live, ∀ ei, (s.inodes p).iPrivate = some ei → ei ∈ s.infos ∧ sOp (s.inodes p).iSb = true) :
    OneOwner sOp s where
  live := live
  distinct := distinct
  owner ei held := by
    obtain ⟨p, live, own⟩ := owner ei held
    exact ⟨p, ⟨live, own⟩, fun q other => only q other.1 p live ei other.2 own⟩
  frees p live ei own := by
    obtain ⟨held, hook⟩ := hooked p live ei own
    refine ⟨held, ?_⟩
    rw [destroyInode_infos, if_pos hook, own]
    exact distinct.not_mem_erase

theorem OneOwner.only {q : Id} (owned : OneOwner sOp s) (live : p ∈ s.live) (live' : q ∈ s.live)
    (own : (s.inodes p).iPrivate = some ei) (own' : (s.inodes q).iPrivate = some ei) : p = q :=
  (owned.owner ei (owned.hooked live own).1).unique ⟨live, own⟩ ⟨live', own'⟩

/-- **Ownership is kept** as long as no inode is made. -/
theorem Moves.oneOwner (moves : Moves sOp s s') (owned : OneOwner sOp s) : OneOwner sOp s' := by
  induction moves with
  | refl => exact owned
  | quiet _ quiet ih =>
      have owned := ih
      refine .of_hooked (quiet.live ▸ owned.live) (quiet.infos ▸ owned.distinct) ?_ ?_ ?_
      · intro ei held
        obtain ⟨p, own, -⟩ := owned.owner ei (quiet.infos ▸ held)
        exact ⟨p, quiet.live ▸ own.1, (quiet.hands p).trans own.2⟩
      · intro p live q live' ei own own'
        rw [quiet.hands] at own own'
        exact owned.only (quiet.live ▸ live) (quiet.live ▸ live') own own'
      · intro p live ei own
        rw [quiet.hands] at own
        rw [quiet.infos, quiet.sbs]
        exact owned.hooked (quiet.live ▸ live) own
  | give _ live hooked bare fresh ih =>
      rename_i s₁ p new _
      have owned := ih
      have old {q : Id} {ei : Info} (inside : q ∈ s₁.live) (other : q ≠ p) (own : ((s₁.give p new).inodes q).iPrivate = some ei) :
          (s₁.inodes q).iPrivate = some ei ∧ ei ≠ new := by
        rw [give_of_ne other] at own
        exact ⟨own, fun same => fresh (same ▸ (owned.hooked inside own).1)⟩
      have here {ei : Info} (own : ((s₁.give p new).inodes p).iPrivate = some ei) : ei = new := by
        rw [give_self] at own
        exact (Option.some.inj own).symm
      refine .of_hooked owned.live (List.nodup_cons.2 ⟨fresh, owned.distinct⟩) ?_ ?_ ?_
      · intro ei held
        rcases List.mem_cons.1 held with rfl | held
        · exact ⟨p, live, by rw [give_self]⟩
        · obtain ⟨q, own, -⟩ := owned.owner ei held
          refine ⟨q, own.1, ?_⟩
          rw [give_of_ne, own.2]
          rintro rfl
          cases bare.symm.trans own.2
      · intro x inX y inY ei ownX ownY
        by_cases hereX : x = p
        · by_cases hereY : y = p
          · rw [hereX, hereY]
          · rw [hereX] at ownX
            exact absurd (here ownX) (old inY hereY ownY).2
        · by_cases hereY : y = p
          · rw [hereY] at ownY
            exact absurd (here ownY) (old inX hereX ownX).2
          · exact owned.only inX inY (old inX hereX ownX).1 (old inY hereY ownY).1
      · intro x inX ei ownX
        by_cases hereX : x = p
        · rw [hereX] at ownX ⊢
          rw [here ownX, give_self]
          exact ⟨List.mem_cons_self .., hooked⟩
        · obtain ⟨held, hook⟩ := owned.hooked inX (old inX hereX ownX).1
          rw [give_of_ne hereX]
          exact ⟨List.mem_cons_of_mem _ held, hook⟩
  | destroy _ live ih =>
      rename_i s₁ p _
      have owned := ih
      have erase (q : Id) : q ∈ s₁.live.erase p ↔ q ≠ p ∧ q ∈ s₁.live := owned.live.mem_erase_iff
      have infos (ei : Info) : ei ∈ (destroyInode sOp s₁ p).infos ↔ ei ∈ s₁.infos ∧ (s₁.inodes p).iPrivate ≠ some ei := by
        rw [destroyInode_infos]
        cases own : (s₁.inodes p).iPrivate with
        | none => simp
        | some e =>
            rw [if_pos (owned.hooked live own).2]
            show ei ∈ s₁.infos.erase e ↔ _
            rw [owned.distinct.mem_erase_iff, and_comm]
            simp [eq_comm]
      refine .of_hooked (owned.live.erase p) ?_ ?_ ?_ ?_
      · rw [destroyInode_infos]
        split
        · cases (s₁.inodes p).iPrivate with
          | none => exact owned.distinct
          | some e => exact owned.distinct.erase e
        · exact owned.distinct
      · intro ei held
        obtain ⟨held, other⟩ := (infos ei).1 held
        obtain ⟨q, own, -⟩ := owned.owner ei held
        refine ⟨q, (erase q).2 ⟨?_, own.1⟩, own.2⟩
        rintro rfl
        exact other own.2
      · intro x inX y inY ei ownX ownY
        exact owned.only ((erase x).1 inX).2 ((erase y).1 inY).2 ownX ownY
      · intro x inX ei ownX
        obtain ⟨ne, inX⟩ := (erase x).1 inX
        obtain ⟨held, hook⟩ := owned.hooked inX ownX
        exact ⟨(infos ei).2 ⟨held, fun own => ne (owned.only inX live ownX own)⟩, hook⟩

end Moves

/-! ## The operations -/

section Ops

variable {sOp : UInt64 → Bool} {answers : Answers} {s s' s₁ : State} {p dir : Id} {sb : UInt64} {writeInode : Bool}

theorem setInode_quiet {f : Inode → Inode} (hands : ∀ i, (f i).iPrivate = i.iPrivate) (sbs : ∀ i, (f i).iSb = i.iSb) :
    Quiet s (s.setInode p f) where
  live := rfl
  infos := rfl
  hands q := setInode_field s p q Inode.iPrivate hands
  sbs q := setInode_field s p q (fun i => i.iSb) sbs

theorem markInodeDirty_quiet (run : markInodeDirty s p = .ok s') : Quiet s s' := by
  unfold markInodeDirty at run
  obtain ⟨-, -, run⟩ := bind_eq_ok.1 run
  split at run
  · cases run
    exact .refl s
  · cases run
    have quiet := @setInode_quiet s p (fun i => { i with iDirty := true }) (fun _ => rfl) fun _ => rfl
    exact ⟨quiet.live, quiet.infos, quiet.hands, quiet.sbs⟩

theorem markIf_quiet {marks : Bool} (run : markIf marks s p = .ok s') : Quiet s s' := by
  unfold markIf at run
  split at run
  · exact markInodeDirty_quiet run
  · cases run
    exact .refl s

theorem writeInodeNow_quiet (run : writeInodeNow sOp writeInode s p = .ok s') : Quiet s s' := by
  unfold writeInodeNow at run
  obtain ⟨-, -, run⟩ := bind_eq_ok.1 run
  split at run
  · cases run
    exact .refl s
  · cases run
    have quiet := @setInode_quiet s p (fun i => { i with iDirty := false }) (fun _ => rfl) fun _ => rfl
    exact ⟨quiet.live, quiet.infos, quiet.hands, quiet.sbs⟩

theorem insertInodeHash_quiet (run : insertInodeHash s p = .ok s') : Quiet s s' := by
  unfold insertInodeHash at run
  obtain ⟨-, -, run⟩ := bind_eq_ok.1 run
  obtain ⟨tree, -, run⟩ := bind_eq_ok.1 run
  cases run
  exact ⟨rfl, rfl, fun _ => rfl, fun _ => rfl⟩

theorem dInstantiate_quiet (run : dInstantiate s p = .ok s') : Quiet s s' := by
  unfold dInstantiate at run
  obtain ⟨-, -, run⟩ := bind_eq_ok.1 run
  cases run
  exact setInode_quiet (fun _ => rfl) fun _ => rfl

/-- `iput` counts, or destroys its inode. -/
theorem iput_moves (run : iput sOp writeInode s p = .ok s') : Moves sOp s s' := by
  unfold iput at run
  obtain ⟨_, touched, run⟩ := bind_eq_ok.1 run
  have live := touch_ok touched
  generalize dropped : (s.setInode p fun i => { i with iCount := i.iCount - 1 }) = s₀ at run
  have quiet₀ : Quiet s s₀ := by
    rw [← dropped]
    exact setInode_quiet (fun _ => rfl) fun _ => rfl
  have destroyed {s₁ : State} (quiet : Quiet s s₁) (run₁ : (onTree (rbDelete s₁.fuel s₁.gInodeTree p) >>= fun tree =>
      .ok (destroyInode sOp { s₁ with gInodeTree := tree } p)) = Except.ok s') : Moves sOp s s' := by
    obtain ⟨tree, -, done⟩ := bind_eq_ok.1 run₁
    cases done
    have quiet₁ : Quiet s { s₁ with gInodeTree := tree } := ⟨quiet.live, quiet.infos, quiet.hands, quiet.sbs⟩
    refine ((Moves.refl s).quiet quiet₁).destroy ?_
    rwa [quiet₁.live]
  dsimp only at run
  split at run
  · split at run
    · obtain ⟨s₁, written, run⟩ := bind_eq_ok.1 run
      exact destroyed (quiet₀.trans (writeInodeNow_quiet written)) run
    · exact destroyed quiet₀ run
  · cases run
    exact (Moves.refl s).quiet quiet₀

theorem dropInode_moves {e : Errno} {r : Except Errno Unit} (run : dropInode sOp answers s p e = .ok (s', r)) :
    Moves sOp s s' := by
  unfold dropInode at run
  obtain ⟨s₁, dropped, run⟩ := bind_eq_ok.1 run
  cases run
  exact iput_moves dropped

/-- The new inode is there, and the private part that came with it is lost. -/
structure Loses (sOp : UInt64 → Bool) (answers : Answers) (s₀ : State) (p : Id) : Prop where
  lost : ∃ ei, Leaked s₀ ei
  live : p ∈ s₀.live
  bare : (s₀.inodes p).iPrivate = none
  hooked : sOp (s₀.inodes p).iSb = true
  fresh : ∀ ei ∈ answers.info, ei ∉ s₀.infos

/-- **`new_inode` loses what `ext4_alloc_inode_stub` allocated.** -/
theorem newInode_loses (owned : OneOwner sOp s) (hooked : sOp sb = true) (fresh : answers.Fresh s) :
    newInode sOp answers s sb = (s, none) ∧ ¬ answers.Room ∨
      ∃ s₀ p, newInode sOp answers s sb = (s₀, some p) ∧ answers.Room ∧ Loses sOp answers s₀ p := by
  obtain ⟨freshInode, freshStub, freshInfo, apart⟩ := fresh
  unfold newInode allocInode Answers.Room
  simp only [if_pos hooked]
  cases gotInode : answers.inode with
  | none => exact .inl ⟨rfl, fun room => by simp at room⟩
  | some p =>
      cases gotStub : answers.stubInfo with
      | none => exact .inl ⟨rfl, fun room => by simp at room⟩
      | some ei =>
          refine .inr ⟨_, p, rfl, ⟨rfl, rfl⟩, ⟨ei, List.mem_cons_self .., fun q inside => ?_⟩, List.mem_cons_self .., ?_, ?_,
            fun e got => ?_⟩
          · show (Function.update (Function.update s.inodes p _) p _ q).iPrivate ≠ some ei
            by_cases here : q = p
            · rw [here, Function.update_self]
              nofun
            · rw [Function.update_of_ne here, Function.update_of_ne here]
              have live := (List.mem_cons.1 inside).resolve_left here
              exact fun own => freshStub ei gotStub (owned.hooked live own).1
          · simp [zeroInode]
          · simpa using hooked
          · have other : e ≠ ei := fun same => apart e got (by rw [gotStub, same]; rfl)
            exact fun inside => (List.mem_cons.1 inside).elim other (freshInfo e got)

/-- `ext4_alloc_inode` gives the new inode a private part, if it gets that far. -/
theorem ext4AllocInode_moves {r : Except Errno Unit} (loses : Loses sOp answers s p)
    (run : ext4AllocInode answers s p = (s', r)) : Moves sOp s s' := by
  unfold ext4AllocInode at run
  cases free : answers.freeInode with
  | error e =>
      rw [free] at run
      cases run
      exact .refl s
  | ok ino =>
      have quiet := @setInode_quiet s p (fun i => { i with iIno := ino.toUInt64 }) (fun _ => rfl) fun _ => rfl
      have numbered := (show Moves sOp s s from .refl s).quiet quiet
      rw [free] at run
      cases info : answers.info with
      | none =>
          rw [info] at run
          cases run
          exact numbered
      | some ei =>
          rw [info] at run
          cases run
          refine @Moves.give sOp s _ p ei numbered loses.live ?_ ?_ (loses.fresh ei info)
          · rw [quiet.sbs]
            exact loses.hooked
          · rw [quiet.hands]
            exact loses.bare

/-- A call keeps hands off the private parts if it makes no inode, and loses one otherwise. -/
def Fate (sOp : UInt64 → Bool) (makes : Prop) (s s' : State) : Prop :=
  ¬ makes ∧ Moves sOp s s' ∨ makes ∧ ∃ s₀ ei, Leaked s₀ ei ∧ Moves sOp s₀ s'

theorem Fate.moves {makes : Prop} (fate : Fate sOp makes s s₁) (moves : Moves sOp s₁ s') : Fate sOp makes s s' := by
  rcases fate with ⟨not_, first⟩ | ⟨made, s₀, ei, leaked, first⟩
  · exact .inl ⟨not_, first.trans moves⟩
  · exact .inr ⟨made, s₀, ei, leaked, first.trans moves⟩

theorem ext4NewInode_fate {mode type : UInt16} {r : Except Errno Id} (owned : OneOwner sOp s)
    (hooked : sOp (s.inodes dir).iSb = true) (fresh : answers.Fresh s)
    (run : ext4NewInode sOp answers s dir mode type = .ok (s', r)) : Fate sOp answers.Room s s' := by
  unfold ext4NewInode at run
  obtain ⟨-, -, run⟩ := bind_eq_ok.1 run
  obtain ⟨nothing, small⟩ | ⟨s₀, p, new, room, loses⟩ := newInode_loses owned hooked fresh
  · rw [nothing] at run
    cases run
    exact .inl ⟨small, .refl s⟩
  · rw [new] at run
    dsimp only at run
    obtain ⟨ei, leaked⟩ := loses.lost
    refine .inr ⟨room, s₀, ei, leaked, ?_⟩
    cases allocated : ext4AllocInode answers s₀ p with
    | mk s₁ got =>
        have moves := ext4AllocInode_moves loses allocated
        rw [allocated] at run
        cases got with
        | error e =>
            obtain ⟨s₂, dropped, run⟩ := bind_eq_ok.1 run
            cases run
            exact moves.trans (iput_moves dropped)
        | ok _ =>
            obtain ⟨s₂, inserted, run⟩ := bind_eq_ok.1 run
            cases run
            have quiet := @setInode_quiet s₁ p (fun i => { i with iMode := (mode &&& ~~~0o170000) ||| type }) (fun _ => rfl)
              fun _ => rfl
            exact (moves.quiet quiet).quiet (insertInodeHash_quiet inserted)

theorem ext4Create_fate {mode : UInt16} {r : Except Errno Unit} (owned : OneOwner sOp s)
    (hooked : sOp (s.inodes dir).iSb = true) (fresh : answers.Fresh s)
    (run : ext4Create sOp answers s dir mode = .ok (s', r)) : Fate sOp answers.Room s s' := by
  unfold ext4Create at run
  obtain ⟨⟨s₁, made⟩, new, run⟩ := bind_eq_ok.1 run
  have fate := ext4NewInode_fate owned hooked fresh new
  cases made with
  | error e =>
      cases run
      exact fate
  | ok p =>
      obtain ⟨s₂, marked, run⟩ := bind_eq_ok.1 run
      replace fate := fate.moves ((Moves.refl s₁).quiet (markIf_quiet marked))
      cases added : answers.addEntry.2 with
      | error e =>
          rw [added] at run
          exact fate.moves (dropInode_moves run)
      | ok _ =>
          rw [added] at run
          obtain ⟨s₃, marked₃, run⟩ := bind_eq_ok.1 run
          obtain ⟨s₄, counted, run⟩ := bind_eq_ok.1 run
          cases run
          exact fate.moves ((Moves.refl s₂).quiet ((markInodeDirty_quiet marked₃).trans (dInstantiate_quiet counted)))

theorem ext4Mkdir_fate {mode : UInt16} {r : Except Errno Unit} (owned : OneOwner sOp s)
    (hooked : sOp (s.inodes dir).iSb = true) (fresh : answers.Fresh s)
    (run : ext4Mkdir sOp answers s dir mode = .ok (s', r)) : Fate sOp answers.Room s s' := by
  unfold ext4Mkdir at run
  obtain ⟨⟨s₁, made⟩, new, run⟩ := bind_eq_ok.1 run
  have fate := ext4NewInode_fate owned hooked fresh new
  cases made with
  | error e =>
      cases run
      exact fate
  | ok p =>
      obtain ⟨s₂, marked, run⟩ := bind_eq_ok.1 run
      replace fate := fate.moves ((Moves.refl s₁).quiet (markIf_quiet marked))
      cases empty : answers.makeEmpty.2 with
      | error e =>
          rw [empty] at run
          exact fate.moves (dropInode_moves run)
      | ok _ =>
          rw [empty] at run
          obtain ⟨s₃, marked₃, run⟩ := bind_eq_ok.1 run
          replace fate := fate.moves ((Moves.refl s₂).quiet (markIf_quiet marked₃))
          cases added : answers.addEntry.2 with
          | error e =>
              rw [added] at run
              exact fate.moves (dropInode_moves run)
          | ok _ =>
              rw [added] at run
              obtain ⟨s₄, marked₄, run⟩ := bind_eq_ok.1 run
              obtain ⟨s₅, marked₅, run⟩ := bind_eq_ok.1 run
              obtain ⟨s₆, counted, run⟩ := bind_eq_ok.1 run
              cases run
              have quiet := (markInodeDirty_quiet marked₄).trans (markInodeDirty_quiet marked₅)
              exact fate.moves ((Moves.refl s₃).quiet (quiet.trans (dInstantiate_quiet counted)))

theorem onTree_ok {α : Type} {x : Except Stop α} {a : α} : onTree x = .ok a ↔ x = .ok a := by
  cases x with
  | ok b => simp [onTree]
  | error stop => simp [onTree]

theorem inodeFind_found {ino : UInt64} (run : inodeFind s sb ino = .ok (some p)) : (s.inodes p).iSb = sb := by
  unfold inodeFind at run
  have equal := rbFind_found (onTree_ok.1 run)
  exact congrArg InodeKey.iSb (inodeCmp_eq_zero.1 equal).symm

/-- `iget` counts an inode in core, or makes one. -/
theorem iget_fate {ino : UInt64} {r : Option Id} (owned : OneOwner sOp s) (hooked : sOp sb = true)
    (fresh : answers.Fresh s) (run : iget sOp answers s sb ino = .ok (s', r)) :
    Fate sOp (inodeFind s sb ino = .ok none ∧ answers.Room) s s' ∧ (∀ ei ∈ answers.info, ei ∉ s'.infos) ∧
      ∀ p, r = some p → p ∈ s'.live ∧ sOp (s'.inodes p).iSb = true := by
  unfold iget at run
  obtain ⟨found, search, run⟩ := bind_eq_ok.1 run
  rw [search]
  cases found with
  | some p =>
      obtain ⟨_, touched, run⟩ := bind_eq_ok.1 run
      cases run
      have quiet := @setInode_quiet s p (fun i => { i with iCount := i.iCount + 1 }) (fun _ => rfl) fun _ => rfl
      refine ⟨.inl ⟨fun made => (nomatch made.1), (Moves.refl s).quiet quiet⟩, fresh.info, ?_⟩
      rintro _ ⟨⟩
      refine ⟨touch_ok touched, ?_⟩
      rw [quiet.sbs, inodeFind_found search]
      exact hooked
  | none =>
      obtain ⟨nothing, small⟩ | ⟨s₀, p, new, room, loses⟩ := newInode_loses owned hooked fresh
      · rw [nothing] at run
        cases run
        exact ⟨.inl ⟨fun made => small made.2, .refl s⟩, fresh.info, nofun⟩
      · rw [new] at run
        obtain ⟨s₁, inserted, run⟩ := bind_eq_ok.1 run
        cases run
        have quiet := (@setInode_quiet s₀ p (fun i => { i with iIno := ino }) (fun _ => rfl) fun _ => rfl).trans
          (insertInodeHash_quiet inserted)
        obtain ⟨ei, leaked⟩ := loses.lost
        refine ⟨.inr ⟨⟨rfl, room⟩, s₀, ei, leaked, (Moves.refl s₀).quiet quiet⟩, ?_, ?_⟩
        · rw [quiet.infos]
          exact loses.fresh
        · rintro _ ⟨⟩
          rw [quiet.live, quiet.sbs]
          exact ⟨loses.live, loses.hooked⟩

/-- The read of the inode, once the private part is there. -/
theorem Fate.read {possible : Prop} {s₁ s₂ : State} {p : Id} {r : Option Id} (fate : Fate sOp possible s s₁)
    (moves : Moves sOp s₁ s₂)
    (tail : (match answers.readInode with
      | none => do
          let s ← iput sOp answers.writeInode s₂ p
          .ok (s, none)
      | some mode => .ok (s₂.setInode p fun i => { i with iMode := mode }, some p)) = Except.ok (s', r)) :
    Fate sOp possible s s' := by
  cases onDisk : answers.readInode with
  | none =>
      rw [onDisk] at tail
      obtain ⟨s₃, dropped, tail⟩ := bind_eq_ok.1 tail
      cases tail
      exact fate.moves (moves.trans (iput_moves dropped))
  | some mode =>
      rw [onDisk] at tail
      cases tail
      exact fate.moves (moves.quiet (setInode_quiet (fun _ => rfl) fun _ => rfl))

/-- `ext4_iget` gives the inode a private part if it has none. -/
theorem ext4Iget_fate {ino : UInt64} {r : Option Id} (owned : OneOwner sOp s) (hooked : sOp sb = true)
    (fresh : answers.Fresh s) (run : ext4Iget sOp answers s sb ino = .ok (s', r)) :
    Fate sOp (inodeFind s sb ino = .ok none ∧ answers.Room) s s' := by
  unfold ext4Iget at run
  obtain ⟨⟨s₁, got⟩, igot, run⟩ := bind_eq_ok.1 run
  obtain ⟨fate, freshInfo, member⟩ := iget_fate owned hooked fresh igot
  cases got with
  | none =>
      cases run
      exact fate
  | some p =>
      obtain ⟨live, hook⟩ := member p rfl
      dsimp only at run
      split at run
      · cases run
        exact fate
      · cases own : (s₁.inodes p).iPrivate with
        | some ei =>
            rw [own] at run
            exact fate.read (.refl s₁) run
        | none =>
            cases info : answers.info with
            | none =>
                rw [own, info] at run
                obtain ⟨s₂, dropped, run⟩ := bind_eq_ok.1 run
                cases run
                exact fate.moves (iput_moves dropped)
            | some ei =>
                rw [own, info] at run
                exact fate.read ((Moves.refl s₁).give live hook own (freshInfo ei info)) run

/-- **A step keeps ownership** exactly if it makes no inode. -/
theorem step_oneOwner {call : Ext4Call} (owned : OneOwner sOp s) (enabled : (ext4Machine sOp).enabled s call) :
    OneOwner sOp ((ext4Machine sOp).step s call) ↔ ¬ call.Makes s := by
  obtain ⟨sound, s', run⟩ := enabled
  have step : (ext4Machine sOp).step s call = s' := by
    show (call.run sOp s).toOption.getD s = s'
    rw [run]
    rfl
  have fate : Fate sOp (call.Makes s) s s' := by
    cases call with
    | ext4Iget answers sb ino =>
        obtain ⟨⟨s₁, r⟩, got, rfl⟩ := map_eq_ok.1 run
        exact ext4Iget_fate owned sound.1 sound.2 got
    | ext4Create answers dir mode =>
        obtain ⟨⟨s₁, r⟩, got, rfl⟩ := map_eq_ok.1 run
        exact ext4Create_fate owned sound.1 sound.2 got
    | ext4Mkdir answers dir mode =>
        obtain ⟨⟨s₁, r⟩, got, rfl⟩ := map_eq_ok.1 run
        exact ext4Mkdir_fate owned sound.1 sound.2 got
    | iput writeInode p => exact .inl ⟨id, iput_moves run⟩
  rw [step]
  rcases fate with ⟨not_, moves⟩ | ⟨made, s₀, ei, leaked, moves⟩
  · exact iff_of_true (moves.oneOwner owned) not_
  · exact iff_of_false (fun owned' => owned'.not_leaked (moves.leaked leaked)) (not_not.2 made)

/-- **The private parts along a run.**  From any state in which each of them has one owner,
in any run of `ext4_iget`, `ext4_create`, `ext4_mkdir` and `iput`, failing or not: each has
one owner in every state exactly if no call makes an inode. -/
theorem one_owner_iff {calls : List Ext4Call} (start : OneOwner sOp s) (admitted : (ext4Machine sOp).Admits s calls) :
    (∀ past, past <+: calls → OneOwner sOp ((ext4Machine sOp).run s past)) ↔
      ((ext4Machine sOp).guard fun s call => ¬ call.Makes s).Admits s calls :=
  (ext4Machine sOp).guard_admits_iff (fun _ _ => step_oneOwner) start admitted

end Ops

/-! ## The root directory, once more -/

theorem rootCached_oneOwner : OneOwner (fun _ => true) rootCached := by
  refine .of_hooked (by decide) (by decide) (fun ei held => ?_) (fun p inside q inside' _ _ _ => ?_) fun p _ ei own => ?_
  · exact ⟨1, by decide, congrArg some (List.mem_singleton.1 held).symm⟩
  · exact (List.mem_singleton.1 inside).trans (List.mem_singleton.1 inside').symm
  · exact ⟨List.mem_singleton.2 (Option.some.inj own).symm, rfl⟩

/-- Memory for everything, and the inode on the disk is a directory. -/
def allThere : Answers := { noInode with readInode := some 0o040755 }

/-- It is found in core and dropped again. -/
def rootAgain : List Ext4Call := [.ext4Iget allThere 1 2, .iput true 1]

theorem allThere_fresh : allThere.Fresh rootCached := ⟨by decide, by decide, by decide, by decide⟩

theorem one_owner_root :
    (∀ past, past <+: rootAgain → OneOwner (fun _ => true) ((ext4Machine fun _ => true).run rootCached past)) ↔
      ((ext4Machine fun _ => true).guard fun s call => ¬ call.Makes s).Admits rootCached rootAgain :=
  one_owner_iff rootCached_oneOwner ⟨⟨⟨rfl, allThere_fresh⟩, _, rfl⟩, ⟨trivial, _, rfl⟩, trivial⟩

/-- No inode is in core. -/
def noneCached : State := { rootCached with live := [], infos := [], gInodeTree := ⟨none, fun _ => zeroNode⟩ }

/-- The `ext4_iget` of the mount leaves 8 behind, which no inode has. -/
theorem mount_leaks : OneOwner (fun _ => true) noneCached ∧
    (ext4Machine fun _ => true).Admits noneCached [.ext4Iget allThere 1 2] ∧
    Leaked ((ext4Machine fun _ => true).run noneCached [.ext4Iget allThere 1 2]) 8 ∧
    ¬ OneOwner (fun _ => true) ((ext4Machine fun _ => true).run noneCached [.ext4Iget allThere 1 2]) := by
  have leaked : Leaked ((ext4Machine fun _ => true).run noneCached [.ext4Iget allThere 1 2]) 8 := by
    refine ⟨by decide, fun p inside => ?_⟩
    rw [List.mem_singleton.1 (show p ∈ [2] from inside)]
    decide
  refine ⟨.of_hooked List.nodup_nil List.nodup_nil nofun nofun nofun, ?_, leaked, fun owned => owned.not_leaked leaked⟩
  exact ⟨⟨⟨rfl, by decide, by decide, by decide, by decide⟩, _, rfl⟩, trivial⟩

end Minus.Fs.Icache
