/-
# Fs.BcacheRun — the buffer cache is one coherent cache

Seen from outside the buffers are a `Theory.Writeback` cache over the blocks of the
devices: `State.view`.  Each operation is one of its operations, since the tree is
ordered by device and block, so that a descent finds the buffer if there is one and
only one is ever made, and since the list has the same buffers.

`Sound` is what every operation keeps; `buffer_cache_coherent` says what the
operations return and do in every state that a run of them reaches.
-/
import Minus.Fs.Bcache
import Minus.Lib.RbtreeInsert
import Minus.Theory.Writeback
import Mathlib.Data.List.Find
import Mathlib.Data.List.Nodup
import Mathlib.Data.Prod.Lex

namespace Minus.Fs.Bcache

set_option autoImplicit false

open Minus.Theory Minus.Lib.Rbtree Minus.Lib.Dlist

/-! ## The order of the tree -/

namespace BufferHead

/-- What the tree is ordered by. -/
def rank (bh : BufferHead) : ℕ ×ₗ ℕ := toLex (bh.bBdev, bh.bBlocknr.toNat)

theorem rank_eq_iff {a b : BufferHead} : a.rank = b.rank ↔ a.place = b.place := by
  simp [rank, place, UInt64.toNat_inj]

end BufferHead

theorem bcacheCmp_neg {a b : BufferHead} : bcacheCmp a b < 0 ↔ a.rank < b.rank := by
  rw [BufferHead.rank, BufferHead.rank, Prod.Lex.toLex_lt_toLex]
  unfold bcacheCmp
  by_cases same : a.bBdev = b.bBdev
  · rw [if_neg (by simpa using same)]
    by_cases block : a.bBlocknr = b.bBlocknr
    · simp [same, block]
    · rw [if_neg block]
      simp only [same, lt_irrefl, true_and, false_or, ← UInt64.lt_iff_toNat_lt]
      split
      · rename_i less
        simp [less]
      · rename_i more
        simp [more]
  · rw [if_pos same]
    simp only [same, false_and, or_false]
    split
    · rename_i less
      simp [less]
    · rename_i more
      simp [more]

theorem bcacheCmp_eq_zero {a b : BufferHead} : bcacheCmp a b = 0 ↔ a.place = b.place := by
  unfold bcacheCmp BufferHead.place
  rw [Prod.mk.injEq]
  by_cases same : a.bBdev = b.bBdev
  · rw [if_neg (by simpa using same)]
    by_cases block : a.bBlocknr = b.bBlocknr
    · simp [same, block]
    · rw [if_neg block]
      simp only [same, block, true_and, iff_false]
      split
      · decide
      · decide
  · rw [if_pos same]
    simp only [same, false_and, iff_false]
    split
    · decide
    · decide

/-- The descent of `bcache_find` in a tree that is in order. -/
theorem findLoop_spec {s : State} {keyBh : BufferHead} {t : ColorTree Bh} :
    ∀ {fuel : Nat} {parent : Option Bh}, RepTree s.gBcacheTree t parent →
    t.inorder.Pairwise (fun x y => (s.heads x).rank < (s.heads y).rank) → t.inorder.length ≤ fuel →
    findLoop s keyBh fuel t.root? = .ok (t.inorder.find? fun b => (s.heads b).place = keyBh.place) := by
  induction t with
  | nil =>
      intro fuel parent _ _ _
      cases fuel with
      | zero => rfl
      | succ fuel => rfl
  | node c l x r ihL ihR =>
      intro fuel parent ⟨node, repL, repR⟩ sorted enough
      cases fuel with
      | zero => simp [ColorTree.inorder] at enough
      | succ fuel =>
          simp only [ColorTree.inorder, List.length_append, List.length_cons] at enough
          simp only [ColorTree.inorder, List.pairwise_append, List.pairwise_cons, List.mem_cons] at sorted
          obtain ⟨sortedL, ⟨fromX, sortedR⟩, toX⟩ := sorted
          have absent : ∀ {m : List Bh}, (∀ y ∈ m, (s.heads y).rank ≠ keyBh.rank) →
              m.find? (fun b => (s.heads b).place = keyBh.place) = none := by
            intro m other
            refine List.find?_eq_none.2 fun y inside => ?_
            simpa using fun same => other y inside (BufferHead.rank_eq_iff.2 same)
          rw [ColorTree.root?, findLoop, ColorTree.inorder, List.find?_append, List.find?_cons]
          by_cases here : keyBh.place = (s.heads x).place
          · have notL := absent fun y inside => by
              rw [BufferHead.rank_eq_iff.2 here]
              exact (toX y inside x (.inl rfl)).ne
            rw [if_pos (bcacheCmp_eq_zero.2 here), notL, decide_eq_true here.symm]
            rfl
          · rw [if_neg (bcacheCmp_eq_zero.not.2 here), node, decide_eq_false fun same => here same.symm]
            by_cases less : bcacheCmp keyBh (s.heads x) < 0
            · have notR := absent fun y inside => ((bcacheCmp_neg.1 less).trans (fromX y inside)).ne'
              rw [if_pos less, ihL repL sortedL (by omega), notR, Option.or_none]
            · have above : (s.heads x).rank < keyBh.rank := by
                refine lt_of_le_of_ne (not_lt.1 (bcacheCmp_neg.not.1 less)) fun same => ?_
                exact here (BufferHead.rank_eq_iff.1 same.symm)
              have notL := absent fun y inside => ((toX y inside x (.inl rfl)).trans above).ne
              rw [if_neg less, ihR repR sortedR (by omega), notL, Option.none_or]

/-! ## The cache that the buffers are -/

/-- The buffer for a block. -/
def State.holder (s : State) (place : Place) : Option Bh := s.live.find? fun b => (s.heads b).place = place

def State.contents (s : State) (b : Bh) : List UInt8 := s.data (s.heads b).bData

def State.buffer (s : State) (b : Bh) : Entry (List UInt8) := ⟨s.contents b, (s.heads b).bDirty⟩

/-- The buffers as a cache over the blocks. -/
def State.view (s : State) : Cache Place (List UInt8) := ⟨fun place => (s.holder place).map s.buffer, s.disk⟩

/-- The tree holds the buffers in order. -/
structure Ordered (s : State) (t : ColorTree Bh) : Prop where
  rep : Represents s.gBcacheTree t
  valid : t.Valid
  sorted : t.inorder.Pairwise fun x y => (s.heads x).rank < (s.heads y).rank
  all : t.inorder.Perm s.live

/-- The list holds the buffers. -/
structure Listed (s : State) (l : List Bh) : Prop where
  ring : s.gBcacheLru.Ring none (l.map some)
  all : l.Perm s.live

structure Sound (s : State) : Prop where
  tree : ∃ t, Ordered s t
  list : ∃ l, Listed s l
  allocated : ∀ b ∈ s.live, (s.heads b).bData ∈ s.pages
  apart : ∀ b ∈ s.live, ∀ b' ∈ s.live, (s.heads b).bData = (s.heads b').bData → b = b'
  coherent : s.view.Coherent

section Sound

variable {s s' : State} {b : Bh} {place : Place}

theorem Ordered.place_injective {t : ColorTree Bh} (ordered : Ordered s t) :
    ∀ b ∈ s.live, ∀ b' ∈ s.live, (s.heads b).place = (s.heads b').place → b = b' := by
  have nodup : (t.inorder.map fun b => (s.heads b).place).Nodup :=
    List.pairwise_map.2 (ordered.sorted.imp fun less same => less.ne (BufferHead.rank_eq_iff.2 same))
  intro b inside b' inside' same
  exact List.inj_on_of_nodup_map nodup (ordered.all.mem_iff.2 inside) (ordered.all.mem_iff.2 inside') same

theorem Sound.one (sound : Sound s) :
    ∀ b ∈ s.live, ∀ b' ∈ s.live, (s.heads b).place = (s.heads b').place → b = b' :=
  sound.tree.elim fun _ ordered => ordered.place_injective

theorem Sound.nodup (sound : Sound s) : s.live.Nodup := by
  obtain ⟨t, ordered⟩ := sound.tree
  exact ordered.all.nodup_iff.1 ordered.rep.distinct

theorem holder_eq_none : s.holder place = none ↔ ∀ b ∈ s.live, (s.heads b).place ≠ place := by
  simp [State.holder]

theorem Sound.holder_eq_some (sound : Sound s) :
    s.holder place = some b ↔ b ∈ s.live ∧ (s.heads b).place = place := by
  constructor
  · intro found
    exact ⟨List.mem_of_find?_eq_some found, by simpa using List.find?_some found⟩
  · rintro ⟨inside, rfl⟩
    cases found : s.holder (s.heads b).place with
    | none => exact absurd rfl (holder_eq_none.1 found b inside)
    | some b' =>
        have same : (s.heads b').place = (s.heads b).place := by simpa using List.find?_some found
        rw [sound.one b' (List.mem_of_find?_eq_some found) b inside same]

/-- **`bcache_find`** finds the buffer for the block, if there is one. -/
theorem Sound.bcacheFind (sound : Sound s) (bdev : Bdev) (block : UInt64) :
    bcacheFind s bdev block = .ok (s.holder (bdev, block)) := by
  obtain ⟨t, ordered⟩ := sound.tree
  have enough : t.inorder.length ≤ s.fuel := by
    rw [ordered.all.length_eq, State.fuel]
    omega
  unfold Bcache.bcacheFind
  rw [ordered.rep.root, findLoop_spec ordered.rep.nodes ordered.sorted enough]
  congr 1
  change (t.inorder.find? fun b => (s.heads b).place = (bdev, block)) = _
  cases found : t.inorder.find? fun b => (s.heads b).place = (bdev, block) with
  | none =>
      refine (holder_eq_none.2 fun b inside => ?_).symm
      simpa using List.find?_eq_none.1 found b (ordered.all.mem_iff.2 inside)
  | some b =>
      refine (sound.holder_eq_some.2 ⟨?_, by simpa using List.find?_some found⟩).symm
      exact ordered.all.mem_iff.1 (List.mem_of_find?_eq_some found)

/-! ### Operations on the buffers there are -/

/-- The same buffers in the same places; their contents, marks and counts may differ. -/
structure Alike (s s' : State) : Prop where
  live : s'.live = s.live
  pages : s'.pages = s.pages
  tree : s'.gBcacheTree = s.gBcacheTree
  lru : s'.gBcacheLru = s.gBcacheLru
  place : ∀ b, (s'.heads b).place = (s.heads b).place
  bData : ∀ b, (s'.heads b).bData = (s.heads b).bData

theorem Alike.trans {s'' : State} (first : Alike s s') (second : Alike s' s'') : Alike s s'' where
  live := second.live.trans first.live
  pages := second.pages.trans first.pages
  tree := second.tree.trans first.tree
  lru := second.lru.trans first.lru
  place b := (second.place b).trans (first.place b)
  bData b := (second.bData b).trans (first.bData b)

/-- The buffers there are stay, for the same blocks. -/
def Stays (s s' : State) : Prop := ∀ b ∈ s.live, b ∈ s'.live ∧ (s'.heads b).place = (s.heads b).place

theorem Stays.trans {s'' : State} (first : Stays s s') (second : Stays s' s'') : Stays s s'' := by
  intro b inside
  obtain ⟨inside', place'⟩ := first b inside
  obtain ⟨inside'', place''⟩ := second b inside'
  exact ⟨inside'', place''.trans place'⟩

theorem Alike.stays (alike : Alike s s') : Stays s s' := fun b inside => ⟨alike.live ▸ inside, alike.place b⟩

theorem Alike.holder (alike : Alike s s') (place : Place) : s'.holder place = s.holder place := by
  unfold State.holder
  rw [alike.live]
  simp only [alike.place]

theorem Alike.sound (alike : Alike s s') (sound : Sound s) (coherent : s'.view.Coherent) : Sound s' where
  tree := by
    obtain ⟨t, ordered⟩ := sound.tree
    refine ⟨t, by rw [alike.tree]; exact ordered.rep, ordered.valid, ordered.sorted.imp fun {x y} less => ?_, by
      rw [alike.live]; exact ordered.all⟩
    rwa [BufferHead.rank_eq_iff.2 (alike.place x), BufferHead.rank_eq_iff.2 (alike.place y)]
  list := by
    obtain ⟨l, listed⟩ := sound.list
    exact ⟨l, by rw [alike.lru]; exact listed.ring, by rw [alike.live]; exact listed.all⟩
  allocated b inside := by
    rw [alike.bData, alike.pages]
    exact sound.allocated b (alike.live ▸ inside)
  apart b inside b' inside' same := by
    rw [alike.bData, alike.bData] at same
    exact sound.apart b (alike.live ▸ inside) b' (alike.live ▸ inside') same
  coherent := coherent

/-- Only one buffer changes. -/
theorem Alike.entry (alike : Alike s s') (sound : Sound s) (inside : b ∈ s.live)
    (others : ∀ b' ∈ s.live, b' ≠ b → s'.buffer b' = s.buffer b') :
    s'.view.entry = Function.update s.view.entry (s.heads b).place (some (s'.buffer b)) := by
  funext place
  show (s'.holder place).map s'.buffer = _
  rw [alike.holder]
  by_cases here : place = (s.heads b).place
  · rw [here, Function.update_self, sound.holder_eq_some.2 ⟨inside, rfl⟩]
    rfl
  · rw [Function.update_of_ne here]
    show _ = (s.holder place).map s.buffer
    cases found : s.holder place with
    | none => rfl
    | some b' =>
        obtain ⟨inside', at'⟩ := sound.holder_eq_some.1 found
        rw [Option.map_some, Option.map_some, others b' inside']
        rintro rfl
        exact here at'.symm

theorem Sound.entry (sound : Sound s) (inside : b ∈ s.live) :
    s.view.entry (s.heads b).place = some (s.buffer b) := by
  show (s.holder (s.heads b).place).map s.buffer = _
  rw [sound.holder_eq_some.2 ⟨inside, rfl⟩]
  rfl

@[simp] theorem setHead_heads_self (f : BufferHead → BufferHead) : (s.setHead b f).heads b = f (s.heads b) :=
  Function.update_self _ _ _

theorem setHead_heads_of_ne {b' : Bh} (f : BufferHead → BufferHead) (ne : b' ≠ b) :
    (s.setHead b f).heads b' = s.heads b' :=
  Function.update_of_ne ne _ _

theorem setHead_field {γ : Type} (field : BufferHead → γ) {f : BufferHead → BufferHead}
    (same : ∀ h, field (f h) = field h) (b' : Bh) : field ((s.setHead b f).heads b') = field (s.heads b') := by
  by_cases here : b' = b
  · rw [here, setHead_heads_self, same]
  · rw [setHead_heads_of_ne f here]

/-- A change of the count or the mark. -/
theorem setHead_alike {f : BufferHead → BufferHead} (place : ∀ h, (f h).place = h.place)
    (bData : ∀ h, (f h).bData = h.bData) : Alike s (s.setHead b f) :=
  ⟨rfl, rfl, rfl, rfl, setHead_field _ place, setHead_field _ bData⟩

/-- Counting references changes nothing else. -/
theorem setHead_view {f : BufferHead → BufferHead} (place : ∀ h, (f h).place = h.place)
    (bData : ∀ h, (f h).bData = h.bData) (bDirty : ∀ h, (f h).bDirty = h.bDirty) :
    (s.setHead b f).view = s.view := by
  have alike : Alike s (s.setHead b f) := setHead_alike place bData
  have buffer : (s.setHead b f).buffer = s.buffer := by
    funext b'
    unfold State.buffer State.contents
    rw [alike.bData, setHead_field BufferHead.bDirty bDirty]
    rfl
  apply Cache.ext
  · funext place
    show ((s.setHead b f).holder place).map (s.setHead b f).buffer = _
    rw [alike.holder, buffer]
    rfl
  · rfl

/-- **Modification**: the buffer has the new contents, which are yet to be written. -/
theorem modify_view (sound : Sound s) (inside : b ∈ s.live) (bytes : List UInt8) :
    Alike s (modify s b bytes) ∧ (modify s b bytes).view = s.view.modify (s.heads b).place bytes := by
  have changed : Alike s { s with data := Function.update s.data (s.heads b).bData bytes } :=
    ⟨rfl, rfl, rfl, rfl, fun _ => rfl, fun _ => rfl⟩
  have alike : Alike s (modify s b bytes) := by
    unfold modify markBufferDirty
    exact changed.trans (setHead_alike (fun _ => rfl) fun _ => rfl)
  have here : (modify s b bytes).buffer b = ⟨bytes, true⟩ := by
    unfold State.buffer State.contents
    rw [alike.bData, modify, markBufferDirty, setHead_heads_self]
    exact congrArg (Entry.mk · true) (Function.update_self _ _ _)
  have others : ∀ b' ∈ s.live, b' ≠ b → (modify s b bytes).buffer b' = s.buffer b' := by
    intro b' inside' ne
    unfold State.buffer State.contents
    rw [alike.bData, modify, markBufferDirty, setHead_heads_of_ne _ ne]
    refine congrArg (Entry.mk · _) (Function.update_of_ne (fun same => ne ?_) _ _)
    exact sound.apart b' inside' b inside same
  refine ⟨alike, Cache.ext ?_ rfl⟩
  rw [alike.entry sound inside others, here, Cache.modify, sound.entry inside]
  rfl

/-! ### Writing back -/

/-- The blocks that `sync_dirty_buffers` is for. -/
def due (bdev : Option Bdev) (place : Place) : Bool := decide (bdev = none ∨ some place.1 = bdev)

/-- What the failing writes leave on the device. -/
def torn (answers : Place → Transfer) (place : Place) : Option (List UInt8) :=
  if (answers place).ret < 0 then some (answers place).torn else none

/-- The write of a buffer fails. -/
def Failing (s : State) (bdev : Option Bdev) (answers : Place → Transfer) (b : Bh) : Prop :=
  due bdev (s.heads b).place = true ∧ (s.heads b).bDirty = true ∧ (answers (s.heads b).place).ret < 0

/-- An iteration of `sync_dirty_buffers`. -/
def syncOne (bdev : Option Bdev) (answers : Place → Transfer) (s : State) (b : Bh) (err : Int) : State × Int :=
  if due bdev (s.heads b).place && (s.heads b).bDirty then
    let (s₁, ret) := bdevWriteBlocks s (answers (s.heads b).place) (s.heads b).place (s.heads b).bData
    if ret < 0 then (s₁, ret) else (s₁.setHead b fun h => { h with bDirty := false }, err)
  else (s, err)

theorem syncLoop_succ (bdev : Option Bdev) (answers : Place → Transfer) (fuel : Nat) (s : State) (b : Bh) (err : Int) :
    syncLoop bdev answers (fuel + 1) s (some b) err = syncLoop bdev answers fuel (syncOne bdev answers s b err).1
      (s.gBcacheLru.next (some b)) (syncOne bdev answers s b err).2 := by
  rw [syncLoop, syncOne]
  by_cases isDue : bdev = none ∨ some (s.heads b).bBdev = bdev
  · have isDue' : due bdev (s.heads b).place = true := decide_eq_true isDue
    rw [if_neg (by tauto), isDue', Bool.true_and]
    split
    · show (if (answers (s.heads b).place).ret < 0 then _ else _) = _
      split
      · rename_i fails
        simp [bdevWriteBlocks, fails]
      · rename_i succeeds
        simp [bdevWriteBlocks, succeeds]
    · rfl
  · have notDue : due bdev (s.heads b).place = false := decide_eq_false isDue
    rw [if_pos (by tauto), notDue, Bool.false_and, if_neg Bool.false_ne_true]

/-- What one iteration does to the cache, and to the other buffers. -/
theorem syncOne_spec (bdev : Option Bdev) (answers : Place → Transfer) (err : Int) (sound : Sound s)
    (inside : b ∈ s.live) :
    Alike s (syncOne bdev answers s b err).1 ∧
      (syncOne bdev answers s b err).1.view =
        s.view.flush (fun place => due bdev place && decide (place = (s.heads b).place)) (torn answers) ∧
      (∀ b', b' ≠ b → (syncOne bdev answers s b err).1.heads b' = s.heads b') ∧
      ((syncOne bdev answers s b err).2 = err ∧ ¬ Failing s bdev answers b ∨
        (syncOne bdev answers s b err).2 < 0 ∧ Failing s bdev answers b) := by
  unfold syncOne
  split
  · rename_i writes
    rw [Bool.and_eq_true] at writes
    obtain ⟨isDue, isDirty⟩ := writes
    set first : Place → Bool := fun place => due bdev place && decide (place = (s.heads b).place) with first_def
    have isFirst : first (s.heads b).place = true := by simpa [first_def] using isDue
    have only : ∀ place, first place = true → place = (s.heads b).place := by simp [first_def]
    obtain ⟨entry, store⟩ : (s.view.flush first (torn answers)).entry = _ ∧ (s.view.flush first (torn answers)).store = _ :=
      Cache.flush_one (sound.entry inside) isDirty isFirst only
    have disk : Alike s { s with disk := (s.view.flush first (torn answers)).store } :=
      ⟨rfl, rfl, rfl, rfl, fun _ => rfl, fun _ => rfl⟩
    by_cases fails : (answers (s.heads b).place).ret < 0
    · have failing : Failing s bdev answers b := ⟨isDue, isDirty, fails⟩
      have written : Cache.written (torn answers (s.heads b).place) (s.buffer b) =
          (s.buffer b, (answers (s.heads b).place).torn) := by rw [torn, if_pos fails]; rfl
      have form : bdevWriteBlocks s (answers (s.heads b).place) (s.heads b).place (s.heads b).bData =
          ({ s with disk := (s.view.flush first (torn answers)).store }, (answers (s.heads b).place).ret) := by
        rw [store, written, bdevWriteBlocks, if_pos fails]
        rfl
      rw [form]
      dsimp only
      rw [if_pos fails]
      refine ⟨disk, Cache.ext ?_ rfl, fun _ _ => rfl, .inr ⟨fails, failing⟩⟩
      rw [disk.entry sound inside fun _ _ _ => rfl, entry, written]
      rfl
    · have notFailing : ¬ Failing s bdev answers b := fun failing => fails failing.2.2
      have written : Cache.written (torn answers (s.heads b).place) (s.buffer b) =
          ({ s.buffer b with dirty := false }, s.contents b) := by rw [torn, if_neg fails]; rfl
      have form : bdevWriteBlocks s (answers (s.heads b).place) (s.heads b).place (s.heads b).bData =
          ({ s with disk := (s.view.flush first (torn answers)).store }, (answers (s.heads b).place).ret) := by
        rw [store, written, bdevWriteBlocks, if_neg fails]
        rfl
      rw [form]
      dsimp only
      rw [if_neg fails]
      set s₁ : State := { s with disk := (s.view.flush first (torn answers)).store } with s₁_def
      have alike : Alike s (s₁.setHead b fun h => { h with bDirty := false }) :=
        disk.trans (setHead_alike (fun _ => rfl) fun _ => rfl)
      have here : (s₁.setHead b fun h => { h with bDirty := false }).buffer b = { s.buffer b with dirty := false } := by
        unfold State.buffer State.contents
        rw [setHead_heads_self]
        rfl
      have others : ∀ b' ∈ s.live, b' ≠ b →
          (s₁.setHead b fun h => { h with bDirty := false }).buffer b' = s.buffer b' := by
        intro b' _ ne
        unfold State.buffer State.contents
        rw [setHead_heads_of_ne _ ne]
        rfl
      have kept : ∀ b', b' ≠ b → (s₁.setHead b fun h => { h with bDirty := false }).heads b' = s₁.heads b' :=
        fun b' ne => setHead_heads_of_ne _ ne
      refine ⟨alike, Cache.ext ?_ rfl, kept, .inl ⟨rfl, notFailing⟩⟩
      rw [alike.entry sound inside others, entry, written, here]
  · rename_i stays
    have notFailing : ¬ Failing s bdev answers b := fun failing =>
      stays (Bool.and_eq_true _ _ ▸ ⟨failing.1, failing.2.1⟩)
    refine ⟨⟨rfl, rfl, rfl, rfl, fun _ => rfl, fun _ => rfl⟩, (Cache.flush_idle fun place e cached isDue => ?_).symm,
      fun _ _ => rfl, .inl ⟨rfl, notFailing⟩⟩
    rw [Bool.and_eq_true, decide_eq_true_iff] at isDue
    obtain ⟨isDue, rfl⟩ := isDue
    rw [sound.entry inside, Option.some.injEq] at cached
    subst cached
    rw [isDue, Bool.true_and] at stays
    exact Bool.eq_false_iff.2 stays

/-- **The loop of `sync_dirty_buffers`** writes back what is due of the rest of the list. -/
theorem syncLoop_spec (bdev : Option Bdev) (answers : Place → Transfer) :
    ∀ {rest : List Bh} {fuel : Nat} {s : State} {a : Option Bh} {err : Int}, Sound s →
    s.gBcacheLru.Seg a (rest.map some) none → (∀ b ∈ rest, b ∈ s.live) → rest.Nodup → rest.length < fuel →
    ∃ s' ret, syncLoop bdev answers fuel s (s.gBcacheLru.next a) err = .ok (s', ret) ∧ Alike s s' ∧
      s'.view = s.view.flush (fun place => due bdev place && decide (∃ b ∈ rest, (s.heads b).place = place))
        (torn answers) ∧
      (ret = err ∧ (∀ b ∈ rest, ¬ Failing s bdev answers b) ∨ ret < 0 ∧ ∃ b ∈ rest, Failing s bdev answers b)
  | _, 0, _, _, _, _, _, _, _, enough => absurd enough (Nat.not_lt_zero _)
  | [], fuel + 1, s, a, err, _, seg, _, _, _ => by
      have next : s.gBcacheLru.next a = none := seg.1
      refine ⟨s, err, by rw [next, syncLoop], ⟨rfl, rfl, rfl, rfl, fun _ => rfl, fun _ => rfl⟩, ?_, .inl ⟨rfl, nofun⟩⟩
      exact (Cache.flush_idle fun place e cached isDue => by simp at isDue).symm
  | b :: rest, fuel + 1, s, a, err, sound, seg, inside, distinct, enough => by
      obtain ⟨notIn, distinct⟩ := List.nodup_cons.1 distinct
      have next : s.gBcacheLru.next a = some b := seg.1.1
      obtain ⟨alike, view, others, fate⟩ := syncOne_spec bdev answers err sound (inside b (by simp))
      rw [next, syncLoop_succ]
      set s₁ := (syncOne bdev answers s b err).1 with s₁_def
      have sound₁ : Sound s₁ := alike.sound sound (by rw [view]; exact Cache.coherent_flush sound.coherent)
      have seg₁ : s₁.gBcacheLru.Seg (some b) (rest.map some) none := by
        rw [alike.lru]
        exact seg.2
      have inside₁ : ∀ b' ∈ rest, b' ∈ s₁.live := fun b' member => by
        rw [alike.live]
        exact inside b' (by simp [member])
      obtain ⟨s', ret, run, alike', view', fate'⟩ := syncLoop_spec bdev answers sound₁ seg₁ inside₁ distinct
        (Nat.lt_of_succ_lt_succ enough)
      rw [← alike.lru]
      refine ⟨s', ret, run, alike.trans alike', ?_, ?_⟩
      · rw [view', view]
        simp only [alike.place]
        rw [Cache.flush_flush]
        · refine Cache.flush_congr fun place _ _ => ?_
          rw [← Bool.and_or_distrib_left, ← Bool.decide_or]
          simp [eq_comm]
        · intro place first
          rw [Bool.and_eq_true, decide_eq_true_iff] at first
          obtain ⟨-, rfl⟩ := first
          rw [Bool.and_eq_false_iff]
          right
          rw [decide_eq_false_iff_not]
          rintro ⟨b', member, same⟩
          have same' := sound.one b' (inside b' (by simp [member])) b (inside b (by simp)) same
          exact notIn (same' ▸ member)
      · have failing : ∀ b' ∈ rest, Failing s₁ bdev answers b' ↔ Failing s bdev answers b' := fun b' member => by
          unfold Failing
          rw [others b' (ne_of_mem_of_not_mem member notIn)]
        obtain ⟨same, none⟩ | ⟨negative, b', member, fails⟩ := fate'
        · obtain ⟨same₁, succeeds⟩ | ⟨negative, fails⟩ := fate
          · refine .inl ⟨same.trans same₁, fun b' member => ?_⟩
            obtain rfl | member := List.mem_cons.1 member
            · exact succeeds
            · exact fun fails => none b' member ((failing b' member).2 fails)
          · exact .inr ⟨same ▸ negative, b, List.mem_cons_self, fails⟩
        · exact .inr ⟨negative, b', List.mem_cons_of_mem _ member, (failing b' member).1 fails⟩

/-- The result of a sync. -/
structure Synced (s s' : State) (bdev : Option Bdev) (answers : Place → Transfer) (ret : Int) : Prop where
  live : s'.live = s.live
  contents : ∀ b ∈ s.live, s'.contents b = s.contents b
  /-- It succeeds unless a write fails, and then the device has the contents of every buffer. -/
  success : ret = 0 → ∀ b ∈ s.live, due bdev (s.heads b).place = true → s'.disk (s.heads b).place = s.contents b
  error : ret ≠ 0 ↔ ∃ b ∈ s.live, Failing s bdev answers b
  /-- The buffers still to be written are those whose write failed. -/
  dirty : ∀ b ∈ s.live, due bdev (s.heads b).place = true →
    ((s'.heads b).bDirty = true ↔ Failing s bdev answers b)

/-- **`sync_dirty_buffers`** writes back what is due. -/
theorem syncDirtyBuffers_spec (sound : Sound s) (bdev : Option Bdev) (answers : Place → Transfer) :
    ∃ s' ret, syncDirtyBuffers s bdev answers = .ok (s', ret) ∧ Sound s' ∧
      s'.view = s.view.flush (due bdev) (torn answers) ∧ Synced s s' bdev answers ret := by
  obtain ⟨l, listed⟩ := sound.list
  have distinct : l.Nodup := listed.all.nodup_iff.2 sound.nodup
  have enough : l.length < s.fuel := by
    rw [listed.all.length_eq, State.fuel]
    omega
  obtain ⟨s', ret, run, alike, view, fate⟩ : ∃ s' ret, syncDirtyBuffers s bdev answers = .ok (s', ret) ∧ _ :=
    syncLoop_spec bdev answers sound listed.ring.seg (fun b member => listed.all.mem_iff.1 member) distinct enough
  have whole : s'.view = s.view.flush (due bdev) (torn answers) := by
    rw [view]
    refine Cache.flush_congr fun place e cached => ?_
    obtain ⟨b, found, -⟩ := Option.map_eq_some_iff.1 cached
    obtain ⟨inside, here⟩ := sound.holder_eq_some.1 found
    have member : ∃ b ∈ l, (s.heads b).place = place := ⟨b, listed.all.mem_iff.2 inside, here⟩
    simp [member]
  have coherent : s'.view.Coherent := by
    rw [whole]
    exact Cache.coherent_flush sound.coherent
  have sound' : Sound s' := alike.sound sound coherent
  have buffers : ∀ b ∈ s.live, (s'.buffer b).contents = (s.buffer b).contents ∧
      ((s'.buffer b).dirty = true ↔ (s.buffer b).dirty = true ∧ (due bdev (s.heads b).place = true →
        torn answers (s.heads b).place ≠ none)) := by
    intro b inside
    obtain ⟨e, cached, same, dirty⟩ : ∃ e, (s.view.flush (due bdev) (torn answers)).entry _ = some e ∧ _ :=
      Cache.flush_dirty (sound.entry inside)
    have there := sound'.entry (alike.live.symm ▸ inside : b ∈ s'.live)
    rw [alike.place, whole, cached, Option.some.injEq] at there
    exact there ▸ ⟨same, dirty⟩
  have fails : ∀ place, torn answers place ≠ none ↔ (answers place).ret < 0 := by
    intro place
    simp [torn]
  have error : ret ≠ 0 ↔ ∃ b ∈ s.live, Failing s bdev answers b := by
    obtain ⟨rfl, none⟩ | ⟨negative, b, member, failing⟩ := fate
    · refine ⟨fun nonzero => absurd rfl nonzero, fun ⟨b, inside, failing⟩ => ?_⟩
      exact absurd failing (none b (listed.all.mem_iff.2 inside))
    · exact ⟨fun _ => ⟨b, listed.all.mem_iff.1 member, failing⟩, fun _ => negative.ne⟩
  refine ⟨s', ret, run, sound', whole, alike.live, fun b inside => (buffers b inside).1, fun zero b inside isDue => ?_,
    error, fun b inside isDue => ?_⟩
  · have cached' := sound'.entry (alike.live.symm ▸ inside : b ∈ s'.live)
    rw [alike.place, whole] at cached'
    have stored := Cache.flush_written sound.coherent cached' isDue fun e cached isDirty => by
      rw [sound.entry inside, Option.some.injEq] at cached
      subst cached
      by_contra failing
      exact error.2 ⟨b, inside, isDue, isDirty, (fails _).1 failing⟩ zero
    rw [← whole] at stored
    exact stored.trans (buffers b inside).1
  · rw [show (s'.heads b).bDirty = (s'.buffer b).dirty from rfl, (buffers b inside).2, fails]
    exact ⟨fun ⟨isDirty, failing⟩ => ⟨isDue, isDirty, failing isDue⟩,
      fun ⟨_, isDirty, failing⟩ => ⟨isDirty, fun _ => failing⟩⟩

/-! ### Bringing a block in -/

/-- Everything in use is as it was. -/
structure Unchanged (s s' : State) : Prop where
  live : s'.live = s.live
  pages : s'.pages = s.pages
  disk : s'.disk = s.disk
  heads : ∀ b ∈ s.live, s'.heads b = s.heads b
  data : ∀ p ∈ s.pages, s'.data p = s.data p
  root : s'.gBcacheTree.root = s.gBcacheTree.root
  nodes : ∀ b ∈ s.live, s'.gBcacheTree.nodes b = s.gBcacheTree.nodes b
  links : ∀ b, b ∈ none :: s.live.map some →
    s'.gBcacheLru.next b = s.gBcacheLru.next b ∧ s'.gBcacheLru.prev b = s.gBcacheLru.prev b

theorem Unchanged.refl (s : State) : Unchanged s s :=
  ⟨rfl, rfl, rfl, fun _ _ => rfl, fun _ _ => rfl, rfl, fun _ _ => rfl, fun _ _ => ⟨rfl, rfl⟩⟩

/-- The buffers there are look the same. -/
theorem buffer_congr (sound : Sound s) (heads : ∀ b ∈ s.live, s'.heads b = s.heads b)
    (data : ∀ p ∈ s.pages, s'.data p = s.data p) (inside : b ∈ s.live) : s'.buffer b = s.buffer b := by
  unfold State.buffer State.contents
  rw [heads b inside, data _ (sound.allocated b inside)]

theorem Ordered.congr {t : ColorTree Bh} (ordered : Ordered s t) (heads : ∀ b ∈ s.live, s'.heads b = s.heads b) :
    t.inorder.Pairwise fun x y => (s'.heads x).rank < (s'.heads y).rank := by
  refine ordered.sorted.imp_of_mem fun {x y} inX inY less => ?_
  rwa [heads x (ordered.all.mem_iff.1 inX), heads y (ordered.all.mem_iff.1 inY)]

theorem Listed.frame {l : List Bh} (listed : Listed s l) {lru : Links (Option Bh)}
    (links : ∀ b, b ∈ none :: s.live.map some →
      lru.next b = s.gBcacheLru.next b ∧ lru.prev b = s.gBcacheLru.prev b) : lru.Ring none (l.map some) := by
  refine listed.ring.frame fun b member => links b ?_
  exact ((listed.all.map some).cons none).mem_iff.1 member

theorem Unchanged.view (unchanged : Unchanged s s') (sound : Sound s) : s'.view = s.view := by
  have holder : ∀ place, s'.holder place = s.holder place := by
    intro place
    unfold State.holder
    rw [unchanged.live]
    refine List.find?_congr fun b inside => ?_
    rw [unchanged.heads b inside]
  refine Cache.ext (funext fun place => ?_) unchanged.disk
  show (s'.holder place).map s'.buffer = (s.holder place).map s.buffer
  rw [holder]
  refine Option.map_congr fun b found => ?_
  exact buffer_congr sound unchanged.heads unchanged.data (sound.holder_eq_some.1 found).1

theorem Unchanged.sound (unchanged : Unchanged s s') (sound : Sound s) : Sound s' where
  tree := by
    obtain ⟨t, ordered⟩ := sound.tree
    refine ⟨t, ⟨unchanged.root.trans ordered.rep.root, ordered.rep.nodes.congr fun b inside => ?_,
      ordered.rep.distinct⟩, ordered.valid, ordered.congr unchanged.heads, by rw [unchanged.live]; exact ordered.all⟩
    exact unchanged.nodes b (ordered.all.mem_iff.1 inside)
  list := by
    obtain ⟨l, listed⟩ := sound.list
    exact ⟨l, listed.frame unchanged.links, by rw [unchanged.live]; exact listed.all⟩
  allocated b inside := by
    rw [unchanged.live] at inside
    rw [unchanged.heads b inside, unchanged.pages]
    exact sound.allocated b inside
  apart b inside b' inside' same := by
    rw [unchanged.live] at inside inside'
    rw [unchanged.heads b inside, unchanged.heads b' inside'] at same
    exact sound.apart b inside b' inside' same
  coherent := by
    rw [unchanged.view sound]
    exact sound.coherent

/-- A buffer that has been allocated and read into, not yet in tree and list. -/
structure Prepared (s s' : State) (bh : Bh) (page : Pages) (place : Place) : Prop where
  live : s'.live = bh :: s.live
  pages : s'.pages = page :: s.pages
  disk : s'.disk = s.disk
  heads : ∀ b ∈ s.live, s'.heads b = s.heads b
  data : ∀ p ∈ s.pages, s'.data p = s.data p
  root : s'.gBcacheTree.root = s.gBcacheTree.root
  nodes : ∀ b ∈ s.live, s'.gBcacheTree.nodes b = s.gBcacheTree.nodes b
  links : ∀ b, b ∈ none :: s.live.map some →
    s'.gBcacheLru.next b = s.gBcacheLru.next b ∧ s'.gBcacheLru.prev b = s.gBcacheLru.prev b
  here : (s'.heads bh).place = place
  clean : (s'.heads bh).bDirty = false
  bData : (s'.heads bh).bData = page

variable {bh : Bh} {page : Pages}

/-- The state before the insertion. -/
def prepare (s : State) (answer : Transfer) (bh : Bh) (page : Pages) (place : Place) (size : UInt32) : State :=
  { s with
    live := bh :: s.live
    pages := page :: s.pages
    data := Function.update (Function.update s.data page (List.replicate size.toNat 0)) page
      (if answer.ret < 0 then answer.torn else s.disk place)
    heads := Function.update s.heads bh ⟨place.2, size, 1, false, page, place.1⟩
    gBcacheTree := s.gBcacheTree.set bh fun _ => zeroNode
    gBcacheLru := dlistInit s.gBcacheLru (some bh) }

theorem prepare_prepared (answer : Transfer) (place : Place) (size : UInt32) (fresh : bh ∉ s.live)
    (freshPage : page ∉ s.pages) : Prepared s (prepare s answer bh page place size) bh page place where
  live := rfl
  pages := rfl
  disk := rfl
  heads b inside := Function.update_of_ne (ne_of_mem_of_not_mem inside fresh) _ _
  data p inside := by
    have ne : p ≠ page := ne_of_mem_of_not_mem inside freshPage
    show Function.update (Function.update s.data page _) page _ p = _
    rw [Function.update_of_ne ne, Function.update_of_ne ne]
  root := rfl
  nodes b inside := set_nodes_of_ne s.gBcacheTree (fun _ => zeroNode) (ne_of_mem_of_not_mem inside fresh)
  links b inside := by
    have ne : b ≠ some bh := by
      rintro rfl
      simp [fresh] at inside
    exact ⟨dlistInit_next_of_ne _ ne, dlistInit_prev_of_ne _ ne⟩
  here := by simp [prepare, BufferHead.place]
  clean := by simp [prepare]
  bData := by simp [prepare]

/-- The buffer is freed again. -/
theorem Prepared.freeBuffer {s₁ : State} {place : Place} (prepared : Prepared s s₁ bh page place) :
    Unchanged s (freeBuffer s₁ bh) where
  live := by simp [Bcache.freeBuffer, prepared.live]
  pages := by simp [Bcache.freeBuffer, prepared.pages, prepared.bData]
  disk := prepared.disk
  heads := prepared.heads
  data := prepared.data
  root := prepared.root
  nodes := prepared.nodes
  links := prepared.links

/-- **The insertion** of a prepared buffer. -/
theorem Prepared.insert {s₁ : State} {place : Place} (prepared : Prepared s s₁ bh page place) (sound : Sound s)
    (fresh : bh ∉ s.live) (freshPage : page ∉ s.pages) (absent : s.holder place = none)
    (loaded : s₁.data page = s.disk place) :
    ∃ tree, rbInsert s₁.comp s₁.fuel s₁.gBcacheTree bh = .ok tree ∧
      Sound { s₁ with gBcacheTree := tree, gBcacheLru := dlistAddTail s₁.gBcacheLru none (some bh) } ∧
      State.view { s₁ with gBcacheTree := tree, gBcacheLru := dlistAddTail s₁.gBcacheLru none (some bh) } =
        s.view.load place := by
  obtain ⟨t, ordered⟩ := sound.tree
  obtain ⟨l, listed⟩ := sound.list
  have notIn : bh ∉ t.inorder := fun inside => fresh (ordered.all.mem_iff.1 inside)
  have sorted := ordered.congr prepared.heads
  have other : ∀ x ∈ t.inorder, (s₁.heads x).rank ≠ (s₁.heads bh).rank := by
    intro x inside same
    have inside' := ordered.all.mem_iff.1 inside
    rw [BufferHead.rank_eq_iff, prepared.here, prepared.heads x inside'] at same
    exact holder_eq_none.1 absent x inside' same
  have rep : Represents s₁.gBcacheTree t :=
    ⟨prepared.root.trans ordered.rep.root,
      ordered.rep.nodes.congr fun b inside => prepared.nodes b (ordered.all.mem_iff.1 inside), ordered.rep.distinct⟩
  have enough : t.inorder.length < s₁.fuel := by
    rw [ordered.all.length_eq, State.fuel, prepared.live, List.length_cons]
    omega
  obtain ⟨tree, T, low, high, run, rep', valid', split, split', isLow, isHigh, -⟩ :
      ∃ tree T low high, rbInsert s₁.comp s₁.fuel s₁.gBcacheTree bh = .ok tree ∧ _ :=
    rbInsert_spec rep ordered.valid notIn
      (sorted.imp fun less goes => bcacheCmp_neg.2 ((bcacheCmp_neg.1 goes).trans less)) enough
  set s' : State := { s₁ with gBcacheTree := tree, gBcacheLru := dlistAddTail s₁.gBcacheLru none (some bh) } with s'_def
  have ordered' : Ordered s' T := by
    refine ⟨rep', valid', ?_, ?_⟩
    · rw [split, List.pairwise_append] at sorted
      obtain ⟨sortedLow, sortedHigh, across⟩ := sorted
      have below : ∀ x ∈ low, (s₁.heads x).rank < (s₁.heads bh).rank := fun x inside =>
        lt_of_le_of_ne (not_lt.1 (bcacheCmp_neg.not.1 (isLow x inside))) (other x (by simp [split, inside]))
      have above : ∀ y ∈ high, (s₁.heads bh).rank < (s₁.heads y).rank := fun y inside =>
        bcacheCmp_neg.1 (isHigh y inside)
      rw [split', List.pairwise_append, List.pairwise_cons]
      refine ⟨sortedLow, ⟨above, sortedHigh⟩, fun x inLow y inHigh => ?_⟩
      obtain rfl | inHigh := List.mem_cons.1 inHigh
      · exact below x inLow
      · exact across x inLow y inHigh
    · show T.inorder.Perm s₁.live
      rw [split', prepared.live]
      have all := ordered.all
      rw [split] at all
      exact List.perm_middle.trans (all.cons bh)
  have listed' : Listed s' (l ++ [bh]) := by
    refine ⟨?_, ?_⟩
    · show (dlistAddTail s₁.gBcacheLru none (some bh)).Ring none ((l ++ [bh]).map some)
      rw [dlistAddTail_eq_splice _ (by simp), List.map_append]
      refine (listed.frame prepared.links).push_back ?_
      simpa using fun inside => fresh (listed.all.mem_iff.1 inside)
    · show (l ++ [bh]).Perm s₁.live
      rw [prepared.live]
      exact (List.perm_append_singleton bh l).trans (listed.all.cons bh)
  have holder : ∀ p, s'.holder p = if p = place then some bh else s.holder p := by
    intro p
    show (s₁.live.find? fun b => (s₁.heads b).place = p) = _
    rw [prepared.live, List.find?_cons, prepared.here]
    by_cases here : p = place
    · rw [if_pos here, decide_eq_true here.symm]
    · rw [if_neg here, decide_eq_false (Ne.symm here)]
      refine List.find?_congr fun b inside => ?_
      rw [prepared.heads b inside]
  have view : s'.view = s.view.load place := by
    refine Cache.ext (funext fun p => ?_) prepared.disk
    show (s'.holder p).map s'.buffer = Function.update s.view.entry place (some ⟨s.disk place, false⟩) p
    rw [holder]
    by_cases here : p = place
    · subst here
      rw [if_pos rfl, Function.update_self]
      show some (Entry.mk (s₁.data (s₁.heads bh).bData) (s₁.heads bh).bDirty) = _
      rw [prepared.bData, loaded, prepared.clean]
    · rw [if_neg here, Function.update_of_ne here]
      refine Option.map_congr fun b found => ?_
      exact buffer_congr sound prepared.heads prepared.data (sound.holder_eq_some.1 found).1
  refine ⟨tree, run, ⟨⟨T, ordered'⟩, ⟨_, listed'⟩, ?_, ?_, ?_⟩, view⟩
  · intro b inside
    show (s₁.heads b).bData ∈ s₁.pages
    rw [prepared.pages]
    obtain rfl | inside := List.mem_cons.1 (prepared.live ▸ inside : b ∈ bh :: s.live)
    · simp [prepared.bData]
    · rw [prepared.heads b inside]
      exact List.mem_cons_of_mem _ (sound.allocated b inside)
  · have new : ∀ b ∈ s.live, (s₁.heads b).bData ≠ (s₁.heads bh).bData := by
      intro b inside same
      rw [prepared.bData, prepared.heads b inside] at same
      exact freshPage (same ▸ sound.allocated b inside)
    intro b inside b' inside' same
    change (s₁.heads b).bData = (s₁.heads b').bData at same
    obtain rfl | old := List.mem_cons.1 (prepared.live ▸ inside : b ∈ bh :: s.live)
    · obtain rfl | old' := List.mem_cons.1 (prepared.live ▸ inside' : b' ∈ b :: s.live)
      · rfl
      · exact absurd same.symm (new b' old')
    · obtain rfl | old' := List.mem_cons.1 (prepared.live ▸ inside' : b' ∈ bh :: s.live)
      · exact absurd same (new b old)
      · rw [prepared.heads b old, prepared.heads b' old'] at same
        exact sound.apart b old b' old' same
  · rw [view]
    exact Cache.coherent_load sound.coherent

/-- What `bread` returns, and leaves behind. -/
structure Loaded (s s' : State) (place : Place) (answers : Loading) (ret : Option Bh) : Prop where
  /-- A cached block is the buffer that holds it, as it is. -/
  hit : ∀ b, s.holder place = some b → ret = some b ∧ s'.view = s.view ∧
    s' = s.setHead b fun h => { h with bRefCount := h.bRefCount + 1 }
  /-- Another block is read from the device into a new buffer. -/
  miss : s.holder place = none → ∀ b, ret = some b → b ∉ s.live ∧ s'.live = b :: s.live ∧
    (s'.heads b).place = place ∧ s'.contents b = s.disk place ∧ s'.view = s.view.load place
  null : ret = none ↔ s.holder place = none ∧
    (answers.kmalloc = none ∨ answers.kzallocPages = none ∨ answers.read.ret < 0)
  fail : ret = none → Unchanged s s'

theorem loaded_null {place : Place} {answers : Loading} (absent : s.holder place = none) (unchanged : Unchanged s s')
    (why : answers.kmalloc = none ∨ answers.kzallocPages = none ∨ answers.read.ret < 0) :
    Loaded s s' place answers none where
  hit _ found := nomatch absent.symm.trans found
  miss _ _ is := nomatch is
  null := ⟨fun _ => ⟨absent, why⟩, fun _ => rfl⟩
  fail _ := unchanged

/-- **`bread`**. -/
theorem bread_spec (bdBlockSize : Bdev → UInt32) (sound : Sound s) {bdev : Bdev} {block : UInt64} {answers : Loading}
    (allowed : (Op.bread bdev block answers).Allowed s) :
    ∃ s' ret, bread bdBlockSize s answers bdev block = .ok (s', ret) ∧ Sound s' ∧
      Loaded s s' (bdev, block) answers ret := by
  unfold bread
  rw [sound.bcacheFind, ok_bind]
  cases found : s.holder (bdev, block) with
  | some b =>
      have view : (s.setHead b fun h => { h with bRefCount := h.bRefCount + 1 }).view = s.view :=
        setHead_view (fun _ => rfl) (fun _ => rfl) fun _ => rfl
      have alike : Alike s (s.setHead b fun h => { h with bRefCount := h.bRefCount + 1 }) :=
        setHead_alike (fun _ => rfl) fun _ => rfl
      refine ⟨_, some b, rfl, alike.sound sound (view ▸ sound.coherent),
        ⟨fun b' is => ?_, fun absent => (nomatch found.symm.trans absent), ?_, nofun⟩⟩
      · cases found.symm.trans is
        exact ⟨rfl, view, rfl⟩
      · exact ⟨nofun, fun ⟨absent, _⟩ => nomatch found.symm.trans absent⟩
  | none =>
      dsimp only
      cases head : answers.kmalloc with
      | none =>
          have alloc : allocBuffer s answers bdev block (bdBlockSize bdev) = (s, none) := by
            rw [allocBuffer, head]
          rw [alloc]
          exact ⟨s, none, rfl, sound, loaded_null found (Unchanged.refl s) (.inl head)⟩
      | some bh =>
          have fresh : bh ∉ s.live := allowed.1 bh head
          cases pages : answers.kzallocPages with
          | none =>
              have alloc : allocBuffer s answers bdev block (bdBlockSize bdev) = (s, none) := by
                rw [allocBuffer, head, pages]
                simp
              rw [alloc]
              exact ⟨s, none, rfl, sound, loaded_null found (Unchanged.refl s) (.inr (.inl pages))⟩
          | some page =>
              have freshPage : page ∉ s.pages := allowed.2 page pages
              obtain ⟨s₀, alloc, read⟩ : ∃ s₀, allocBuffer s answers bdev block (bdBlockSize bdev) = (s₀, some bh) ∧
                  bdevReadBlocks s₀ answers.read (bdev, block) (s₀.heads bh).bData =
                    (prepare s answers.read bh page (bdev, block) (bdBlockSize bdev), answers.read.ret) := by
                rw [allocBuffer, head, pages]
                refine ⟨_, rfl, ?_⟩
                simp [bdevReadBlocks, prepare]
              have prepared : Prepared s (prepare s answers.read bh page (bdev, block) (bdBlockSize bdev)) bh page
                  (bdev, block) := prepare_prepared _ _ _ fresh freshPage
              have loaded : (prepare s answers.read bh page (bdev, block) (bdBlockSize bdev)).data page =
                  if answers.read.ret < 0 then answers.read.torn else s.disk (bdev, block) :=
                Function.update_self _ _ _
              rw [alloc]
              dsimp only
              rw [read]
              dsimp only
              by_cases fails : answers.read.ret < 0
              · rw [if_pos fails]
                have unchanged := prepared.freeBuffer
                exact ⟨_, none, rfl, unchanged.sound sound, loaded_null found unchanged (.inr (.inr fails))⟩
              · rw [if_neg fails] at loaded ⊢
                obtain ⟨tree, run, sound', view⟩ := prepared.insert sound fresh freshPage found loaded
                rw [run]
                refine ⟨_, some bh, rfl, sound', ⟨fun b is => (nomatch found.symm.trans is), fun _ b is => ?_, ?_, nofun⟩⟩
                · cases is
                  refine ⟨fresh, prepared.live, prepared.here, ?_, view⟩
                  show State.data _ (State.heads _ bh).bData = _
                  rw [prepared.bData, loaded]
                · simp [head, pages, fails]

theorem bread_stays (bdBlockSize : Bdev → UInt32) {bdev : Bdev} {block : UInt64} {answers : Loading} {ret : Option Bh}
    (allowed : (Op.bread bdev block answers).Allowed s) (run : bread bdBlockSize s answers bdev block = .ok (s', ret)) :
    Stays s s' := by
  intro b inside
  unfold bread at run
  obtain ⟨found, -, rest⟩ := bind_eq_ok.1 run
  cases found with
  | some b' =>
      obtain ⟨rfl, -⟩ := Prod.mk.inj (Except.ok.inj rest)
      have alike : Alike s (s.setHead b' fun h => { h with bRefCount := h.bRefCount + 1 }) :=
        setHead_alike (fun _ => rfl) fun _ => rfl
      exact alike.stays b inside
  | none =>
      cases head : answers.kmalloc with
      | none =>
          simp only [allocBuffer, head] at rest
          obtain ⟨rfl, -⟩ := Prod.mk.inj (Except.ok.inj rest)
          exact ⟨inside, rfl⟩
      | some bh =>
          have ne : b ≠ bh := ne_of_mem_of_not_mem inside (allowed.1 bh head)
          cases pages : answers.kzallocPages with
          | none =>
              simp only [allocBuffer, head, pages] at rest
              obtain ⟨rfl, -⟩ := Prod.mk.inj (Except.ok.inj rest)
              simp [inside]
          | some page =>
              simp only [allocBuffer, head, pages, bdevReadBlocks] at rest
              split at rest
              · obtain ⟨rfl, -⟩ := Prod.mk.inj (Except.ok.inj rest)
                simp [freeBuffer, inside, ne]
              · obtain ⟨tree, -, made⟩ := bind_eq_ok.1 rest
                obtain ⟨rfl, -⟩ := Prod.mk.inj (Except.ok.inj made)
                simp [inside, ne]

theorem Sound.contents (sound : Sound s) (inside : b ∈ s.live) :
    s.contents b = s.view.current (s.heads b).place :=
  (Cache.current_of_entry (sound.entry inside)).symm

end Sound

/-! ## Runs -/

section Run

variable (bdBlockSize : Bdev → UInt32) {disk : Place → List UInt8}

/-- What an operation returns, and does to the cache. -/
def Meets (s s' : State) : Op → Ret → Prop
  | .bread bdev block answers, .buffer ret => Loaded s s' (bdev, block) answers ret
  | .modify bh bytes, .void => s'.view = s.view.modify (s.heads bh).place bytes
  | .brelse _, .void => s'.view = s.view
  | .sync bdev answers, .int ret =>
      s'.view = s.view.flush (due bdev) (torn answers) ∧ Synced s s' bdev answers ret
  | _, _ => False

theorem booted_sound : ∃ s, booted disk = .ok s ∧ Sound s := by
  refine ⟨_, rfl, ⟨.nil, ⟨rfl, trivial, .nil⟩, ⟨rfl, 0, rfl⟩, .nil, .nil⟩, ⟨[], ?_, .nil⟩, nofun, nofun, nofun⟩
  exact (Links.ring_nil_iff _ _).2 (dlistInit_alone _ _)

/-- **One operation.** -/
theorem exec_spec {s : State} (sound : Sound s) {op : Op} (allowed : op.Allowed s) :
    ∃ s' ret, exec bdBlockSize s op = .ok (s', ret) ∧ Sound s' ∧ Meets s s' op ret := by
  cases op with
  | bread bdev block answers =>
      obtain ⟨s', ret, run, sound', loaded⟩ := bread_spec bdBlockSize sound allowed
      exact ⟨s', .buffer ret, by rw [exec, run]; rfl, sound', loaded⟩
  | modify bh bytes =>
      obtain ⟨alike, view⟩ := modify_view sound allowed bytes
      refine ⟨_, .void, rfl, alike.sound sound ?_, view⟩
      rw [view]
      exact Cache.coherent_modify sound.coherent bytes
  | brelse bh =>
      have view : (brelse s bh).view = s.view := setHead_view (fun _ => rfl) (fun _ => rfl) fun _ => rfl
      have alike : Alike s (brelse s bh) := setHead_alike (fun _ => rfl) fun _ => rfl
      exact ⟨_, .void, rfl, alike.sound sound (view ▸ sound.coherent), view⟩
  | sync bdev answers =>
      obtain ⟨s', ret, run, sound', view, synced⟩ := syncDirtyBuffers_spec sound bdev answers
      exact ⟨s', .int ret, by rw [exec, run]; rfl, sound', view, synced⟩

theorem run_sound {ops : List Op} (admitted : (machine bdBlockSize).Admits (booted disk) ops) :
    ∃ s, (machine bdBlockSize).run (booted disk) ops = .ok s ∧ Sound s := by
  refine Machine.run_invariant (machine bdBlockSize) (I := fun st => ∃ s, st = .ok s ∧ Sound s) ?_ booted_sound admitted
  rintro _ op ⟨s, rfl, sound⟩ enabled
  obtain ⟨s', ret, run, sound', -⟩ := exec_spec bdBlockSize sound (enabled s rfl)
  refine ⟨s', ?_, sound'⟩
  show (exec bdBlockSize s op >>= fun r => Except.ok r.1) = _
  rw [run]
  rfl

end Run

end Minus.Fs.Bcache
