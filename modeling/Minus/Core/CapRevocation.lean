/-
# Core.CapRevocation — when a revoked token stays dead

`cap.h` promises that a freed token is invalid from then on.  The table keeps
that promise by never handing the pair (slot, generation) out again, and the
generation is a 32-bit counter that skips 0: it comes round after 2^32 - 1
allocations (`place_run`).  `revoked_stays_dead_iff` says exactly when a revoked
token comes back: its slot is at the head of the free list at an allocation
whose number, counted from the token's own, is a multiple of 2^32 - 1.

`revoked_token_resurrected` is such a run: one slot taken and given back until
the counter has gone round once.
-/
import Minus.Core.Cap

namespace Minus.Core.Cap

set_option autoImplicit false

variable {α : Type}

/-- This call, made in this state, hands out the token `c`. -/
def Reissues (c : UInt64) (s : CapState α) : CapOp α → Prop
  | .alloc (some _) _ =>
      (ensureFreeList s).freeHead = capIndex c ∧
        (takeGeneration (ensureFreeList s).nextGeneration).1 = capGeneration c
  | _ => False

/-- No live token is `c`. -/
def Dead (r : CapRun α) (c : UInt64) : Prop := ∀ l ∈ r.live, l.token ≠ c

/-- A dead token is live after a step exactly when the step reissues it. -/
theorem capStep_dead_iff {r : CapRun α} {c : UInt64} (slot : capIndex c ≠ 0) (dead : Dead r c)
    (op : CapOp α) : Dead (capStep r op) c ↔ ¬ Reissues c r.table op := by
  cases op with
  | alloc obj rights =>
      cases obj with
      | none => simpa [capStep, capAlloc, recordLive, Reissues] using dead
      | some o =>
          simp only [capStep, capAlloc_some, recordLive, Reissues]
          by_cases empty : (ensureFreeList r.table).freeHead = 0
          · simp only [empty, if_true]
            exact iff_of_true dead fun same => slot same.1.symm
          · have nonnull : ∀ gen, capMake (ensureFreeList r.table).freeHead gen ≠ capNull :=
              fun gen => token_ne_null (by simpa using empty)
            simp only [empty, if_false, nonnull]
            constructor
            · rintro still ⟨head, generation⟩
              exact still _ List.mem_cons_self (token_ext (by simpa using head)
                (by simpa using generation))
            · intro other l hl
              rcases List.mem_cons.1 hl with rfl | hl
              · rintro rfl
                exact other (by simp)
              · exact dead l hl
  | resolve cap required => simpa [capStep, Reissues] using dead
  | free cap =>
      simp only [Reissues, not_false_eq_true, iff_true]
      exact fun l hl => dead l (List.mem_filter.1 hl).1

/-- What the table says of a token is whether it is live. -/
theorem dead_iff_unresolvable {r : CapRun α} (inv : CapInv r.table r.live) (c : UInt64) :
    Dead r c ↔ ∀ required, capResolve r.table c required = none := by
  constructor
  · exact fun dead => inv.resolve_not_live dead
  · rintro unresolvable l hl rfl
    have granted : RightsSubset 0 l.rights := fun bit set => by simp at set
    have resolved := (inv.resolve_live hl 0).1 granted
    rw [unresolvable 0] at resolved
    cases resolved

theorem dead_along_run {r : CapRun α} {c : UInt64} (inv : CapInv r.table r.live)
    (slot : capIndex c ≠ 0) (dead : Dead r c) (after : List (CapOp α)) :
    ((capMachine α).guard fun s op => ¬ Reissues c s.table op).Admits r after ↔
      ∀ past, past <+: after → ∀ required,
        capResolve ((capMachine α).run r past).table c required = none := by
  have along := (capMachine α).guard_admits_iff (P := fun r => CapInv r.table r.live ∧ Dead r c)
    (fun r op both _ => ⟨fun next => (capStep_dead_iff slot both.2 op).1 next.2, fun kept =>
      ⟨capStep_inv r op both.1, (capStep_dead_iff slot both.2 op).2 kept⟩⟩) ⟨inv, dead⟩
    ((capMachine α).admits_of_enabled (fun _ _ => trivial) r after)
  rw [← along]
  constructor
  · intro always past isPrefix
    obtain ⟨inv', dead'⟩ := always past isPrefix
    exact (dead_iff_unresolvable inv' c).1 dead'
  · intro unresolvable past isPrefix
    have inv' : CapInv ((capMachine α).run r past).table ((capMachine α).run r past).live :=
      (capMachine α).run_invariant (fun r op inv _ => capStep_inv r op inv) inv
        ((capMachine α).admits_of_enabled (fun _ _ => trivial) r past)
    exact ⟨inv', (dead_iff_unresolvable inv' c).2 (unresolvable past isPrefix)⟩

theorem run_boot_inv (ops : List (CapOp α)) {r : CapRun α}
    (reached : r = (capMachine α).run CapRun.boot ops) : CapInv r.table r.live :=
  reached ▸ capRun_inv ops

/-- `cap_free` of a live token leaves it dead. -/
theorem revoked_dead (before : List (CapOp α)) (c : UInt64)
    (live : ∃ l ∈ ((capMachine α).run CapRun.boot before).live, l.token = c) :
    capIndex c ≠ 0 ∧ Dead ((capMachine α).run CapRun.boot (before ++ [.free c])) c := by
  obtain ⟨l, hl, token⟩ := live
  refine ⟨token ▸ (capRun_inv before).slot_pos l hl, ?_⟩
  rw [Theory.Machine.run_append]
  intro l hl
  simpa using (List.mem_filter.1 hl).2

/-- After `cap_free` of a live token `c`, `c` resolves to nothing along a run exactly as long
as no step reissues it. -/
theorem revoked_along_run (before after : List (CapOp α)) (c : UInt64)
    (live : ∃ l ∈ ((capMachine α).run CapRun.boot before).live, l.token = c) :
    ((capMachine α).guard fun s op => ¬ Reissues c s.table op).Admits
        ((capMachine α).run CapRun.boot (before ++ [.free c])) after ↔
      ∀ past, past <+: after → ∀ required,
        capResolve ((capMachine α).run CapRun.boot (before ++ [.free c] ++ past)).table c
          required = none := by
  obtain ⟨slot, dead⟩ := revoked_dead before c live
  simp only [Theory.Machine.run_append _ _ (before ++ [CapOp.free c])]
  exact dead_along_run (run_boot_inv _ rfl) slot dead after

/-! ## The counter and the allocations -/

/-- The call is given a slot. -/
def Served (s : CapState α) : CapOp α → Prop
  | .alloc (some _) _ => (ensureFreeList s).freeHead ≠ 0
  | _ => False

instance (s : CapState α) : (op : CapOp α) → Decidable (Served s op)
  | .alloc (some _) _ => inferInstanceAs (Decidable ((ensureFreeList s).freeHead ≠ 0))
  | .alloc none _ => isFalse id
  | .resolve _ _ => isFalse id
  | .free _ => isFalse id

/-- How many allocations of a run are given a slot. -/
def served : CapRun α → List (CapOp α) → Nat
  | _, [] => 0
  | r, op :: rest => (if Served r.table op then 1 else 0) + served (capStep r op) rest

theorem served_append (r : CapRun α) (ops rest : List (CapOp α)) :
    served r (ops ++ rest) = served r ops + served ((capMachine α).run r ops) rest := by
  induction ops generalizing r with
  | nil => simp [served]
  | cons op ops ih =>
      rw [List.cons_append, served, served, ih, Nat.add_assoc]
      rfl

@[simp] theorem capFree_freeInited (s : CapState α) (c : UInt64) :
    (capFree s c).freeInited = s.freeInited := by
  unfold capFree; split <;> rfl

@[simp] theorem capFree_nextGeneration (s : CapState α) (c : UInt64) :
    (capFree s c).nextGeneration = s.nextGeneration := by
  unfold capFree; split <;> rfl

theorem ensureFreeList_nextGeneration (s : CapState α) :
    (ensureFreeList s).nextGeneration = s.nextGeneration := by
  unfold ensureFreeList
  split
  · rfl
  · simp only [capFreeListInit, linkNext_foldl, CapState.setEntry]

/-- How many generations there are: 0 is skipped. -/
def generations : Nat := 2 ^ 32 - 1

/-- The place of the generation that is handed out next, from generation 1 on. -/
def place (counter : UInt32) : Nat := (takeGeneration counter).1.toNat - 1

theorem takeGeneration_pos (counter : UInt32) : 0 < (takeGeneration counter).1.toNat := by
  unfold takeGeneration
  split
  · rename_i zero
    rw [zero]
    decide
  · rename_i nonzero
    exact Nat.pos_of_ne_zero fun zero => nonzero (UInt32.toNat_inj.1 zero)

theorem place_lt (counter : UInt32) : place counter < generations := by
  have := (takeGeneration counter).1.toNat_lt
  have := takeGeneration_pos counter
  unfold place generations
  omega

theorem takeGeneration_eq_iff (counter counter' : UInt32) :
    (takeGeneration counter).1 = (takeGeneration counter').1 ↔ place counter = place counter' := by
  have := takeGeneration_pos counter
  have := takeGeneration_pos counter'
  rw [← UInt32.toNat_inj]
  unfold place
  omega

theorem place_take (counter : UInt32) :
    place (takeGeneration counter).2 = (place counter + 1) % generations := by
  have left : (takeGeneration counter).2 = (takeGeneration counter).1 + 1 := by
    unfold takeGeneration
    split <;> rfl
  have positive := takeGeneration_pos counter
  have below := (takeGeneration counter).1.toNat_lt
  rw [left, place, place]
  generalize (takeGeneration counter).1 = gen at positive below
  have next : (gen + 1).toNat = (gen.toNat + 1) % 2 ^ 32 := UInt32.toNat_add gen 1
  unfold takeGeneration generations
  split
  · rename_i wrapped
    rw [wrapped, UInt32.toNat_zero] at next
    have first : (gen + 1 + 1).toNat = 1 := by rw [wrapped]; rfl
    dsimp only
    omega
  · rename_i further
    have some_ : (gen + 1).toNat ≠ 0 := fun zero => further (UInt32.toNat_inj.1 zero)
    dsimp only
    omega

/-- Only an allocation that is given a slot moves the counter. -/
theorem place_step (r : CapRun α) (op : CapOp α) :
    place (capStep r op).table.nextGeneration =
      (place r.table.nextGeneration + if Served r.table op then 1 else 0) % generations := by
  have still := (Nat.mod_eq_of_lt (place_lt r.table.nextGeneration)).symm
  cases op with
  | alloc obj rights =>
      cases obj with
      | none => exact still
      | some o =>
          simp only [capStep, capAlloc_some, Served]
          by_cases empty : (ensureFreeList r.table).freeHead = 0
          · simpa [empty, ensureFreeList_nextGeneration] using still
          · simp only [empty, if_false, ne_eq, not_false_eq_true, if_true, place_take, ensureFreeList_nextGeneration]
  | resolve cap required => exact still
  | free cap => simpa [capStep, Served] using still

/-- **The counter counts the allocations**, modulo the number of generations. -/
theorem place_run (r : CapRun α) (ops : List (CapOp α)) :
    place ((capMachine α).run r ops).table.nextGeneration =
      (place r.table.nextGeneration + served r ops) % generations := by
  induction ops generalizing r with
  | nil => exact (Nat.mod_eq_of_lt (place_lt _)).symm
  | cons op rest ih =>
      rw [Theory.Machine.run_cons, served, ih]
      change (place (capStep r op).table.nextGeneration + _) % generations = _
      rw [place_step, Nat.mod_add_mod, Nat.add_assoc]
      rfl

/-! ## When a revoked token comes back -/

/-- Made after `past`, the call finds `c`'s slot at the head of the free list, and is an
allocation whose number from `c`'s own on is a multiple of the number of generations. -/
def ComesRound (c : UInt64) (owned : CapRun α) (past : List (CapOp α)) : CapOp α → Prop
  | .alloc (some _) _ =>
      (ensureFreeList ((capMachine α).run owned past).table).freeHead = capIndex c ∧
        generations ∣ served owned past + 1
  | _ => False

/-- After the allocation of `c` a call reissues `c` exactly if it comes round. -/
theorem reissues_iff_comesRound {r : CapRun α} {o : α} {rights : UInt64} {c : UInt64}
    (own : (capAlloc r.table (some o) rights).2 = c) (nonnull : c ≠ capNull) (past : List (CapOp α)) (op : CapOp α) :
    Reissues c ((capMachine α).run (capStep r (.alloc (some o) rights)) past).table op ↔
      ComesRound c (capStep r (.alloc (some o) rights)) past op := by
  have slot : (ensureFreeList r.table).freeHead ≠ 0 := by
    intro empty
    rw [capAlloc_some, if_pos empty] at own
    exact nonnull own.symm
  have generation : capGeneration c = (takeGeneration r.table.nextGeneration).1 := by
    rw [capAlloc_some, if_neg slot] at own
    rw [← own, ← ensureFreeList_nextGeneration]
    simp
  have counter := place_run (capStep r (.alloc (some o) rights)) past
  rw [place_step, if_pos (show Served r.table (.alloc (some o) rights) from slot), Nat.mod_add_mod] at counter
  cases op with
  | alloc obj rights' =>
      cases obj with
      | none => exact Iff.rfl
      | some o' =>
          refine and_congr_right fun _ => ?_
          rw [ensureFreeList_nextGeneration, generation, takeGeneration_eq_iff, counter]
          have below := place_lt r.table.nextGeneration
          rw [Nat.dvd_iff_mod_eq_zero]
          unfold generations at below ⊢
          omega
  | resolve cap required => exact Iff.rfl
  | free cap => exact Iff.rfl

/-- **Exactly when revocation holds.**  A token `c` is handed out, and while it is live
`cap_free` revokes it.  It resolves to nothing in every later state if and only if no later
allocation whose number, counted from `c`'s own, is a multiple of 2^32 - 1 is made with `c`'s
slot at the head of the free list; as long as there are fewer allocations than that, it is dead. -/
theorem revoked_stays_dead_iff (first middle after : List (CapOp α)) (o : α) (rights : UInt64) :
    let start := (capMachine α).run CapRun.boot first
    let c := (capAlloc start.table (some o) rights).2
    let owned := capStep start (.alloc (some o) rights)
    (∃ l ∈ ((capMachine α).run owned middle).live, l.token = c) →
      ((∀ past op, past ++ [op] <+: after → ¬ ComesRound c owned (middle ++ .free c :: past) op) ↔
        ∀ past, past <+: after → ∀ required,
          capResolve ((capMachine α).run owned (middle ++ .free c :: past)).table c required = none) ∧
      (served owned (middle ++ .free c :: after) < 2 ^ 32 - 1 →
        ∀ past, past <+: after → ∀ required,
          capResolve ((capMachine α).run owned (middle ++ .free c :: past)).table c required = none) := by
  intro start c owned live
  have reached : ∀ ops, (capMachine α).run CapRun.boot (first ++ .alloc (some o) rights :: middle ++ ops) =
      (capMachine α).run owned (middle ++ ops) := by
    intro ops
    rw [List.append_assoc, Theory.Machine.run_append]
    rfl
  have owns : (capMachine α).run CapRun.boot (first ++ .alloc (some o) rights :: middle) =
      (capMachine α).run owned middle := by
    simpa using reached []
  have nonnull : c ≠ capNull := by
    intro null
    obtain ⟨slot, -⟩ := revoked_dead (first ++ .alloc (some o) rights :: middle) c (owns ▸ live)
    rw [null] at slot
    exact slot rfl
  have exact_ : (∀ past op, past ++ [op] <+: after → ¬ ComesRound c owned (middle ++ .free c :: past) op) ↔
      ∀ past, past <+: after → ∀ required,
        capResolve ((capMachine α).run owned (middle ++ .free c :: past)).table c required = none := by
    have along := revoked_along_run (first ++ .alloc (some o) rights :: middle) after c (owns ▸ live)
    rw [Theory.Machine.guard_admits_forall _ (capMachine_admits _ _)] at along
    have round : ∀ past op, Reissues c ((capMachine α).run owned past).table op ↔ ComesRound c owned past op :=
      reissues_iff_comesRound rfl nonnull
    simp only [← Theory.Machine.run_append, List.append_assoc _ [CapOp.free c], List.singleton_append,
      reached, round] at along
    exact along
  refine ⟨exact_, fun few => exact_.1 ?_⟩
  -- an allocation that comes round is the last of 2^32 - 1 at least
  rintro past op ⟨rest, rfl⟩ round
  cases op with
  | alloc obj rights' =>
      cases obj with
      | none => exact round
      | some o' =>
          obtain ⟨head, number⟩ := round
          have slot : capIndex c ≠ 0 := (revoked_dead _ c (owns ▸ live)).1
          have this_ : Served ((capMachine α).run owned (middle ++ .free c :: past)).table (.alloc (some o') rights') :=
            fun empty => slot (head.symm.trans empty)
          rw [List.append_assoc, ← List.cons_append, ← List.append_assoc, served_append, List.singleton_append,
            served, if_pos this_] at few
          have enough := Nat.le_of_dvd (Nat.succ_pos _) number
          unfold generations at enough
          omega
  | resolve cap required => exact round
  | free cap => exact round

/-- The first token of a table, revoked and followed by another allocation. -/
theorem revoked_stays_dead_next_alloc :
    let r := capStep (CapRun.boot : CapRun Bool) (.alloc (some false) 0)
    capResolve ((capMachine Bool).run r ([] ++ [.free (capMake 1 1), .alloc (some true) 0])).table
      (capMake 1 1) 0 = none := by
  have few : served (capStep (CapRun.boot : CapRun Bool) (.alloc (some false) 0))
      ([] ++ [.free (capMake 1 1), .alloc (some true) 0]) < 2 ^ 32 - 1 := by decide +kernel
  have live : ∃ l ∈ ((capMachine Bool).run (capStep CapRun.boot (.alloc (some false) 0)) []).live,
      l.token = capMake 1 1 := by decide +kernel
  have token : (capAlloc (CapRun.boot : CapRun Bool).table (some false) 0).2 = capMake 1 1 := by decide +kernel
  have stays := revoked_stays_dead_iff (α := Bool) [] [] [.alloc (some true) 0] false 0
  simp only [Theory.Machine.run_nil, token] at stays
  exact (stays live).2 few _ List.prefix_rfl 0

/-- A reissuing step is a state in which the revoked token resolves. -/
theorem resolves_after_reissue (before middle : List (CapOp α)) (op : CapOp α) (c : UInt64)
    (live : ∃ l ∈ ((capMachine α).run CapRun.boot before).live, l.token = c)
    (reissues : Reissues c
      ((capMachine α).run CapRun.boot (before ++ [.free c] ++ middle)).table op) :
    ¬ ∀ after required, capResolve ((capMachine α).run CapRun.boot
      (before ++ [.free c] ++ after)).table c required = none := by
  intro unresolvable
  obtain ⟨slot, dead⟩ := revoked_dead before c live
  have admitted := (dead_along_run (run_boot_inv _ rfl) slot dead (middle ++ [op])).2
    fun past _ => by
      rw [← Theory.Machine.run_append]
      exact unresolvable past
  rw [Theory.Machine.admits_append, Theory.Machine.guard_run] at admitted
  rw [Theory.Machine.run_append] at reissues
  exact admitted.2.1.2 reissues

/-! ## The counter going round -/

/-- One slot taken and given back, under generation `gen`. -/
def cycle (gen : UInt32) : List (CapOp Bool) :=
  [.alloc (some false) 0, .free (capMake 1 gen)]

/-- The next allocation pops slot 1 and finds the counter at `counter`. -/
structure SlotOneFree (r : CapRun Bool) (counter : UInt32) : Prop where
  head : (ensureFreeList r.table).freeHead = 1
  counter_eq : (ensureFreeList r.table).nextGeneration = counter

theorem slotOneFree_boot : SlotOneFree CapRun.boot 1 := by
  have unbuilt : ensureFreeList (CapState.boot : CapState Bool) = capFreeListInit CapState.boot :=
    if_neg (by simp [CapState.boot])
  refine ⟨?_, ?_⟩
  · simp only [CapRun.boot, unbuilt, capFreeListInit]
  · simp only [CapRun.boot, unbuilt, capFreeListInit, linkNext_foldl, CapState.setEntry]
    rfl

theorem capFree_freeHead {s : CapState α} {c : UInt64} (valid : capValid s c = true) :
    (capFree s c).freeHead = capIndex c := by
  simp [capFree, valid]

/-- Allocating from such a state hands out slot 1 under the counter's generation. -/
theorem SlotOneFree.alloc {r : CapRun Bool} {counter : UInt32} (ready : SlotOneFree r counter)
    (nonzero : counter ≠ 0) (o : Bool) :
    (capAlloc r.table (some o) 0).2 = capMake 1 counter ∧
      capValid (capAlloc r.table (some o) 0).1 (capMake 1 counter) = true ∧
      (capAlloc r.table (some o) 0).1.freeInited = true ∧
      (capAlloc r.table (some o) 0).1.nextGeneration = counter + 1 := by
  obtain ⟨head, counter_eq⟩ := ready
  have popped := capAlloc_some r.table o 0
  simp only [head, counter_eq, takeGeneration, nonzero, if_false,
    show (1 : UInt32) ≠ 0 by decide] at popped
  rw [popped]
  refine ⟨rfl, (capValid_iff _ _).2 ?_, ensureFreeList_inited _, rfl⟩
  simp [CapState.setEntry, capTableSize]

theorem SlotOneFree.cycle {r : CapRun Bool} {counter : UInt32} (ready : SlotOneFree r counter)
    (nonzero : counter ≠ 0) :
    SlotOneFree ((capMachine Bool).run r (cycle counter)) (counter + 1) := by
  obtain ⟨-, valid, built, next⟩ := ready.alloc nonzero false
  have kept : ensureFreeList (capFree (capAlloc r.table (some false) 0).1 (capMake 1 counter)) =
      capFree (capAlloc r.table (some false) 0).1 (capMake 1 counter) :=
    if_pos (by rw [capFree_freeInited, built])
  refine ⟨?_, ?_⟩
  · change (ensureFreeList (capFree (capAlloc r.table (some false) 0).1 _)).freeHead = 1
    rw [kept, capFree_freeHead valid, capIndex_capMake]
  · change (ensureFreeList (capFree (capAlloc r.table (some false) 0).1 _)).nextGeneration = counter + 1
    rw [kept, capFree_nextGeneration, next]

/-- `n` cycles in a row, under the generations from 2 on. -/
def cycles (n : Nat) : List (CapOp Bool) :=
  (List.range n).flatMap fun k => cycle (UInt32.ofNat (k + 2))

theorem SlotOneFree.cycles {r : CapRun Bool} (ready : SlotOneFree r 2) (n : Nat)
    (below : n ≤ 2 ^ 32 - 2) :
    SlotOneFree ((capMachine Bool).run r (cycles n)) (UInt32.ofNat (n + 2)) := by
  induction n with
  | zero => simpa [Cap.cycles] using ready
  | succ n ih =>
      have step := ih (by omega)
      have nonzero : UInt32.ofNat (n + 2) ≠ 0 := by
        intro zero
        have := congrArg UInt32.toNat zero
        simp at this
        omega
      have next := step.cycle nonzero
      rw [Cap.cycles, List.range_succ, List.flatMap_append, Theory.Machine.run_append]
      rw [show n + 1 + 2 = (n + 2) + 1 from rfl, UInt32.ofNat_add (n + 2) 1]
      simpa [Cap.cycles] using next

/-- The first token of a fresh table. -/
def firstToken : UInt64 := capMake 1 1

theorem slotOneFree_after_first :
    SlotOneFree
      ((capMachine Bool).run CapRun.boot ([.alloc (some false) 0] ++ [.free firstToken])) 2 :=
  slotOneFree_boot.cycle (by decide)

theorem wrap_reissues :
    Reissues firstToken ((capMachine Bool).run CapRun.boot
      ([.alloc (some false) 0] ++ [.free firstToken] ++ cycles (2 ^ 32 - 2))).table
      (.alloc (some true) 0) := by
  rw [Theory.Machine.run_append]
  obtain ⟨head, counter⟩ := slotOneFree_after_first.cycles (2 ^ 32 - 2) (Nat.le_refl _)
  simp only [Reissues, head, counter]
  decide

/-- **A revoked token comes back.**  The first token is revoked, its slot is
taken and given back 2^32 - 2 times, and the next allocation hands the same
token out for another object. -/
theorem revoked_token_resurrected :
    ¬ ∀ (before after : List (CapOp Bool)) (c : UInt64),
      (∃ l ∈ ((capMachine Bool).run CapRun.boot before).live, l.token = c) →
      ∀ required, capResolve ((capMachine Bool).run CapRun.boot
        (before ++ [.free c] ++ after)).table c required = none := by
  intro claim
  have live : ∃ l ∈ ((capMachine Bool).run CapRun.boot [.alloc (some false) 0]).live,
      l.token = firstToken := by
    have start := (slotOneFree_boot.alloc (by decide) false).1
    refine ⟨⟨firstToken, false, 0⟩, ?_, rfl⟩
    simp only [Theory.Machine.run_cons, Theory.Machine.run_nil, capMachine, capStep, recordLive,
      start]
    rw [if_neg (by decide)]
    exact List.mem_cons_self
  exact resolves_after_reissue _ _ _ _ live wrap_reissues
    fun after => claim _ after _ live

end Minus.Core.Cap
