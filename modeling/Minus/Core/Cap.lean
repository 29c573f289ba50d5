/-
# Core.Cap — the capability table

`kernel/core/service/cap.c`: a table of 4096 entries, a LIFO free list threaded
through the unused entries (slot 0 is never used and terminates the list), and
one 32-bit generation counter shared by every slot.  A token packs the slot
index in its low and the generation in its high 32 bits.

The functions keep the source's names.  `void *` is `Option α`: `none` is NULL.
-/
import Mathlib.Algebra.Group.Nat.Defs
import Mathlib.Data.List.Nodup
import Mathlib.Logic.Function.Basic
import Minus.Theory.Machine

namespace Minus.Core.Cap

set_option autoImplicit false

/-! ## The table -/

/-- `CAP_TABLE_SIZE`. -/
def capTableSize : Nat := 4096

/-- `CAP_NULL`. -/
def capNull : UInt64 := 0

structure CapEntry (α : Type) where
  obj : Option α
  rights : UInt64
  generation : UInt32
  /-- Index of the next free entry, valid only when `used = false`; 0 terminates. -/
  nextFree : UInt32
  used : Bool

/-- The static data of `cap.c`. -/
structure CapState (α : Type) where
  table : Nat → CapEntry α
  nextGeneration : UInt32
  freeHead : UInt32
  freeInited : Bool

variable {α : Type}

/-- The state at boot: a zeroed table, generation 1, the free list not built. -/
def CapState.boot : CapState α where
  table _ := ⟨none, 0, 0, 0, false⟩
  nextGeneration := 1
  freeHead := 0
  freeInited := false

def CapState.setEntry (s : CapState α) (i : Nat) (e : CapEntry α) : CapState α :=
  { s with table := Function.update s.table i e }

def capIndex (cap : UInt64) : UInt32 := (cap &&& 0xffffffff).toUInt32

def capGeneration (cap : UInt64) : UInt32 := (cap >>> 32).toUInt32

def capMake (idx gen : UInt32) : UInt64 := (gen.toUInt64 <<< 32) ||| idx.toUInt64

/-- One iteration of the loop of `cap_free_list_init`. -/
def linkNext (s : CapState α) (i : Nat) : CapState α :=
  s.setEntry i { s.table i with nextFree := UInt32.ofNat (i + 1) }

def capFreeListInit (s : CapState α) : CapState α :=
  let linked := (List.range' 1 (capTableSize - 2)).foldl linkNext s
  let last := capTableSize - 1
  { linked.setEntry last { linked.table last with nextFree := 0 } with
    freeHead := 1, freeInited := true }

/-- `gen = g_cap_next_generation++; if (gen == 0) gen = g_cap_next_generation++;`
Returns the generation handed out and the counter left behind. -/
def takeGeneration (counter : UInt32) : UInt32 × UInt32 :=
  if counter = 0 then (counter + 1, counter + 1 + 1) else (counter, counter + 1)

/-- `if (!g_cap_free_inited) cap_free_list_init();` -/
def ensureFreeList (s : CapState α) : CapState α :=
  if s.freeInited then s else capFreeListInit s

def capAlloc (s : CapState α) (obj : Option α) (rights : UInt64) : CapState α × UInt64 :=
  match obj with
  | none => (s, capNull)
  | some o =>
      let s := ensureFreeList s
      let idx := s.freeHead
      if idx = 0 then (s, capNull)
      else
        let e := s.table idx.toNat
        let gen := takeGeneration s.nextGeneration
        ({ s.setEntry idx.toNat { e with obj := some o, rights := rights,
                                          generation := gen.1, used := true } with
            freeHead := e.nextFree, nextGeneration := gen.2 },
          capMake idx gen.1)

/-- The test `cap_resolve` and `cap_free` share: the token names a slot in range
that is in use under the token's generation. -/
def capValid (s : CapState α) (cap : UInt64) : Bool :=
  let idx := capIndex cap
  let e := s.table idx.toNat
  !(cap == capNull || idx == 0 || capTableSize ≤ idx.toNat) &&
    !(!e.used || e.generation != capGeneration cap)

def capResolve (s : CapState α) (cap : UInt64) (required : UInt64) : Option α :=
  if capValid s cap then
    let e := s.table (capIndex cap).toNat
    if e.rights &&& required != required then none else e.obj
  else none

def capFree (s : CapState α) (cap : UInt64) : CapState α :=
  if capValid s cap then
    let idx := capIndex cap
    let e := s.table idx.toNat
    { s.setEntry idx.toNat { e with used := false, obj := none, rights := 0,
                                    nextFree := s.freeHead } with
      freeHead := idx }
  else s

/-! ## Tokens -/

theorem capIndex_toNat (cap : UInt64) : (capIndex cap).toNat = cap.toNat % 2 ^ 32 := by
  have masked := Nat.and_two_pow_sub_one_eq_mod (cap.toNat % 2 ^ 32) 32
  simp at masked
  simp [capIndex, masked]

theorem capGeneration_toNat (cap : UInt64) : (capGeneration cap).toNat = cap.toNat / 2 ^ 32 := by
  have bound := cap.toNat_lt
  simp [capGeneration, Nat.shiftRight_eq_div_pow]
  omega

theorem capMake_toNat (idx gen : UInt32) :
    (capMake idx gen).toNat = gen.toNat * 2 ^ 32 + idx.toNat := by
  have low := idx.toNat_lt
  have high := gen.toNat_lt
  have fits : gen.toNat <<< 32 % 18446744073709551616 = gen.toNat <<< 32 := by
    rw [Nat.shiftLeft_eq]; omega
  simp [capMake]
  rw [fits, ← Nat.shiftLeft_add_eq_or_of_lt low, Nat.shiftLeft_eq]

@[simp] theorem capIndex_capMake (idx gen : UInt32) : capIndex (capMake idx gen) = idx := by
  have low := idx.toNat_lt
  apply UInt32.toNat_inj.1
  rw [capIndex_toNat, capMake_toNat]
  omega

@[simp] theorem capGeneration_capMake (idx gen : UInt32) :
    capGeneration (capMake idx gen) = gen := by
  have low := idx.toNat_lt
  apply UInt32.toNat_inj.1
  rw [capGeneration_toNat, capMake_toNat]
  omega

/-- A token is its slot and its generation. -/
theorem token_ext {c d : UInt64} (index : capIndex c = capIndex d)
    (generation : capGeneration c = capGeneration d) : c = d := by
  have hi := congrArg UInt32.toNat index
  have hg := congrArg UInt32.toNat generation
  rw [capIndex_toNat, capIndex_toNat] at hi
  rw [capGeneration_toNat, capGeneration_toNat] at hg
  apply UInt64.toNat_inj.1
  omega

theorem token_ne_null {c : UInt64} (slot : capIndex c ≠ 0) : c ≠ capNull := by
  rintro rfl
  exact slot (by decide)

/-- The rights of `required` are among those of `granted`, bit by bit. -/
def RightsSubset (required granted : UInt64) : Prop :=
  ∀ bit : Nat, required.toNat.testBit bit = true → granted.toNat.testBit bit = true

theorem rightsSubset_iff (required granted : UInt64) :
    RightsSubset required granted ↔ granted &&& required = required := by
  rw [← UInt64.toNat_inj, UInt64.toNat_and]
  constructor
  · intro subset
    apply Nat.eq_of_testBit_eq
    intro bit
    rw [Nat.testBit_and]
    cases h : required.toNat.testBit bit with
    | false => simp
    | true => simp [subset bit h]
  · intro masked bit h
    rw [← masked, Nat.testBit_and, Bool.and_eq_true] at h
    exact h.1

theorem capValid_iff (s : CapState α) (cap : UInt64) :
    capValid s cap = true ↔
      capIndex cap ≠ 0 ∧ (capIndex cap).toNat < capTableSize ∧
        (s.table (capIndex cap).toNat).used = true ∧
        (s.table (capIndex cap).toNat).generation = capGeneration cap := by
  simp only [capValid, Bool.and_eq_true, Bool.not_eq_true', Bool.or_eq_false_iff,
    beq_eq_false_iff_ne, decide_eq_false_iff_not, Nat.not_le, bne_eq_false_iff_eq,
    Bool.not_eq_false']
  constructor
  · rintro ⟨⟨⟨-, slot⟩, inRange⟩, used, generation⟩
    exact ⟨slot, inRange, used, generation⟩
  · rintro ⟨slot, inRange, used, generation⟩
    exact ⟨⟨⟨token_ne_null slot, slot⟩, inRange⟩, used, generation⟩

/-! ## The free list -/

/-- `free` is the list threaded from `head` through the `nextFree` links. -/
def FreeFrom (table : Nat → CapEntry α) : UInt32 → List Nat → Prop
  | head, [] => head = 0
  | head, i :: rest => head.toNat = i ∧ head ≠ 0 ∧ FreeFrom table (table i).nextFree rest

/-- The links of the listed slots are all the free list reads. -/
theorem freeFrom_congr {table table' : Nat → CapEntry α} {head : UInt32} {free : List Nat}
    (same : ∀ i ∈ free, (table' i).nextFree = (table i).nextFree)
    (chain : FreeFrom table head free) : FreeFrom table' head free := by
  induction free generalizing head with
  | nil => exact chain
  | cons i rest ih =>
      obtain ⟨at_, nonzero, tail⟩ := chain
      refine ⟨at_, nonzero, ?_⟩
      rw [same i (by simp)]
      exact ih (fun j hj => same j (by simp [hj])) tail

/-- The link `cap_free_list_init` leaves in slot `i`. -/
def initialLink (i : Nat) : UInt32 :=
  if i < capTableSize - 1 then UInt32.ofNat (i + 1) else 0

theorem linkNext_foldl (s : CapState α) (n : Nat) :
    ((List.range' 1 n).foldl linkNext s) =
      { s with table := fun i => if 1 ≤ i ∧ i < 1 + n then
          { s.table i with nextFree := UInt32.ofNat (i + 1) } else s.table i } := by
  induction n with
  | zero =>
      have none_ : ∀ i, ¬ (1 ≤ i ∧ i < 1 + 0) := fun i h => by omega
      simp only [none_, if_false, List.range'_zero, List.foldl_nil]
  | succ n ih =>
      rw [List.range'_concat, List.foldl_append, ih]
      simp only [List.foldl_cons, List.foldl_nil, linkNext, CapState.setEntry, Nat.one_mul]
      congr 1
      funext i
      by_cases last : i = 1 + n
      · subst last
        simp
      · rw [Function.update_of_ne last]
        by_cases inside : 1 ≤ i ∧ i < 1 + n
        · rw [if_pos inside, if_pos (by omega)]
        · rw [if_neg inside, if_neg (by omega)]

theorem capFreeListInit_entry (s : CapState α) {i : Nat} (low : 0 < i) (high : i < capTableSize) :
    (capFreeListInit s).table i = { s.table i with nextFree := initialLink i } := by
  simp only [capFreeListInit, linkNext_foldl, CapState.setEntry, initialLink]
  by_cases last : i = capTableSize - 1
  · subst last
    simp [capTableSize]
  · rw [Function.update_of_ne last, if_pos (by simp only [capTableSize] at *; omega),
      if_pos (by omega)]

theorem capFreeListInit_freeFrom (s : CapState α) (n : Nat) :
    ∀ k, 0 < k → k + n = capTableSize →
      FreeFrom (capFreeListInit s).table (if n = 0 then 0 else UInt32.ofNat k) (List.range' k n) := by
  induction n with
  | zero => intro k _ _; simp [FreeFrom]
  | succ n ih =>
      intro k low total
      have small : k % 2 ^ 32 = k := by simp only [capTableSize] at total; omega
      have head : (UInt32.ofNat k).toNat = k := by simpa using small
      simp only [Nat.succ_ne_zero, if_false, List.range'_succ, FreeFrom]
      refine ⟨head, fun zero => ?_, ?_⟩
      · rw [zero] at head
        simp at head
        omega
      · rw [capFreeListInit_entry s low (by omega)]
        have tail := ih (k + 1) (by omega) (by omega)
        by_cases done : n = 0
        · simpa [initialLink, done, show ¬ k < capTableSize - 1 by omega] using tail
        · simpa [initialLink, done, show k < capTableSize - 1 by omega] using tail

/-! ## The invariant -/

/-- A token handed out and not revoked, with what it was handed out for. -/
structure Live (α : Type) where
  token : UInt64
  obj : α
  rights : UInt64

/-- The slot a live token names. -/
def Live.slot (l : Live α) : Nat := (capIndex l.token).toNat

/-- The free list is the set of unused slots, each once. -/
def FreeListExact (s : CapState α) : Prop :=
  ∃ free, FreeFrom s.table s.freeHead free ∧ free.Nodup ∧
    ∀ i, i ∈ free ↔ 0 < i ∧ i < capTableSize ∧ (s.table i).used = false

/-- **The table invariant**: the used slots are exactly the live tokens' slots,
each holding what its token was handed out for. -/
structure CapInv (s : CapState α) (live : List (Live α)) : Prop where
  slot_pos : ∀ l ∈ live, capIndex l.token ≠ 0
  slot_lt : ∀ l ∈ live, l.slot < capTableSize
  entry : ∀ l ∈ live, (s.table l.slot).used = true ∧
    (s.table l.slot).generation = capGeneration l.token ∧
    (s.table l.slot).obj = some l.obj ∧ (s.table l.slot).rights = l.rights
  slots_nodup : (live.map Live.slot).Nodup
  owned : ∀ i, 0 < i → i < capTableSize → (s.table i).used = true → ∃ l ∈ live, l.slot = i
  unbuilt : s.freeInited = false → live = []
  free : s.freeInited = true → FreeListExact s

theorem capInv_boot : CapInv (CapState.boot : CapState α) [] where
  slot_pos := by simp
  slot_lt := by simp
  entry := by simp
  slots_nodup := List.nodup_nil
  owned i _ _ used := by simp [CapState.boot] at used
  unbuilt _ := rfl
  free built := by simp [CapState.boot] at built

theorem CapInv.slot_inj {s : CapState α} {live : List (Live α)} (inv : CapInv s live)
    {a b : Live α} (ha : a ∈ live) (hb : b ∈ live) (same : a.slot = b.slot) : a = b :=
  List.inj_on_of_nodup_map inv.slots_nodup ha hb same

/-- Live tokens pass the validity test. -/
theorem CapInv.valid {s : CapState α} {live : List (Live α)} (inv : CapInv s live)
    {l : Live α} (hl : l ∈ live) : capValid s l.token = true :=
  (capValid_iff s l.token).2 ⟨inv.slot_pos l hl, inv.slot_lt l hl, (inv.entry l hl).1,
    (inv.entry l hl).2.1⟩

/-- Only live tokens pass the validity test, forged and stale ones included. -/
theorem CapInv.live_of_valid {s : CapState α} {live : List (Live α)} (inv : CapInv s live)
    {c : UInt64} (valid : capValid s c = true) : ∃ l ∈ live, l.token = c := by
  obtain ⟨slot, inRange, used, generation⟩ := (capValid_iff s c).1 valid
  have pos : 0 < (capIndex c).toNat :=
    Nat.pos_of_ne_zero fun zero => slot (UInt32.toNat_inj.1 zero)
  obtain ⟨l, hl, same⟩ := inv.owned _ pos inRange used
  refine ⟨l, hl, token_ext (UInt32.toNat_inj.1 same) ?_⟩
  rw [← (inv.entry l hl).2.1, same, generation]

/-- Building the free list keeps the invariant. -/
theorem CapInv.build {s : CapState α} {live : List (Live α)} (inv : CapInv s live)
    (unbuilt : s.freeInited = false) : CapInv (capFreeListInit s) live := by
  have empty := inv.unbuilt unbuilt
  subst empty
  have unused : ∀ i, 0 < i → i < capTableSize → (s.table i).used = false := by
    intro i low high
    by_contra used
    obtain ⟨l, hl, -⟩ := inv.owned i low high (by simpa using used)
    simp at hl
  refine ⟨by simp, by simp, by simp, List.nodup_nil, fun i low high used => ?_, fun _ => rfl,
    fun _ => ?_⟩
  · rw [capFreeListInit_entry s low high] at used
    exact inv.owned i low high used
  · refine ⟨List.range' 1 (capTableSize - 1), ?_, List.nodup_range', fun i => ?_⟩
    · exact capFreeListInit_freeFrom s (capTableSize - 1) 1 (by omega) (by decide)
    · rw [List.mem_range'_1]
      constructor
      · rintro ⟨low, high⟩
        have high' : i < capTableSize := by simp only [capTableSize] at *; omega
        refine ⟨low, high', ?_⟩
        rw [capFreeListInit_entry s low high']
        exact unused i low high'
      · rintro ⟨low, high, -⟩
        exact ⟨low, by omega⟩

@[simp] theorem ensureFreeList_inited (s : CapState α) : (ensureFreeList s).freeInited = true := by
  unfold ensureFreeList
  split
  · assumption
  · rfl

theorem CapInv.ensure {s : CapState α} {live : List (Live α)} (inv : CapInv s live) :
    CapInv (ensureFreeList s) live := by
  unfold ensureFreeList
  split
  · exact inv
  · exact inv.build (by simpa using ‹¬ s.freeInited = true›)

/-- With the list built, `cap_alloc` pops its head or finds it empty. -/
theorem capAlloc_some (s : CapState α) (o : α) (rights : UInt64) :
    capAlloc s (some o) rights =
      if (ensureFreeList s).freeHead = 0 then (ensureFreeList s, capNull)
      else
        let s := ensureFreeList s
        let gen := takeGeneration s.nextGeneration
        ({ s.setEntry s.freeHead.toNat { s.table s.freeHead.toNat with
              obj := some o, rights := rights, generation := gen.1, used := true } with
            freeHead := (s.table s.freeHead.toNat).nextFree, nextGeneration := gen.2 },
          capMake s.freeHead gen.1) := rfl

/-- A failed allocation means that no slot is free. -/
theorem CapInv.full {s : CapState α} {live : List (Live α)} (inv : CapInv s live)
    (built : s.freeInited = true) (empty : s.freeHead = 0) (i : Nat) (low : 0 < i)
    (high : i < capTableSize) : ∃ l ∈ live, l.slot = i := by
  obtain ⟨free, chain, -, exact_⟩ := inv.free built
  apply inv.owned i low high
  by_contra unused
  have member := (exact_ i).2 ⟨low, high, by simpa using unused⟩
  cases free with
  | nil => simp at member
  | cons j rest => exact chain.2.1 empty

/-- Popping the head of the free list for a new token keeps the invariant. -/
theorem CapInv.alloc {s : CapState α} {live : List (Live α)} (inv : CapInv s live)
    (built : s.freeInited = true) (available : s.freeHead ≠ 0) (o : α) (rights : UInt64)
    (gen counter : UInt32) :
    CapInv
      { s.setEntry s.freeHead.toNat { s.table s.freeHead.toNat with
          obj := some o, rights := rights, generation := gen, used := true } with
        freeHead := (s.table s.freeHead.toNat).nextFree, nextGeneration := counter }
      (⟨capMake s.freeHead gen, o, rights⟩ :: live) := by
  obtain ⟨free, chain, nodup, exact_⟩ := inv.free built
  obtain ⟨i, rest, rfl⟩ : ∃ i rest, free = i :: rest := by
    cases free with
    | nil => exact absurd chain available
    | cons i rest => exact ⟨i, rest, rfl⟩
  obtain ⟨head, -, tail⟩ := chain
  obtain ⟨low, high, unused⟩ := (exact_ i).1 (by simp)
  have apart : ∀ l ∈ live, l.slot ≠ i := by
    intro l hl same
    have used := (inv.entry l hl).1
    rw [same, unused] at used
    cases used
  have newSlot : Live.slot ⟨capMake s.freeHead gen, o, rights⟩ = i := by simp [Live.slot, head]
  simp only [CapState.setEntry, head]
  refine ⟨?_, ?_, ?_, ?_, ?_, ?_, fun _ => ?_⟩
  · intro l hl
    rcases List.mem_cons.1 hl with rfl | hl
    · simpa using available
    · exact inv.slot_pos l hl
  · intro l hl
    rcases List.mem_cons.1 hl with rfl | hl
    · rw [newSlot]; exact high
    · exact inv.slot_lt l hl
  · intro l hl
    rcases List.mem_cons.1 hl with rfl | hl
    · simp [newSlot]
    · simp only [Function.update_of_ne (apart l hl)]
      exact inv.entry l hl
  · rw [List.map_cons, List.nodup_cons, newSlot]
    refine ⟨fun member => ?_, inv.slots_nodup⟩
    obtain ⟨l, hl, same⟩ := List.mem_map.1 member
    exact apart l hl same
  · intro j jlow jhigh used
    by_cases here : j = i
    · exact ⟨_, List.mem_cons_self, newSlot.trans here.symm⟩
    · simp only [Function.update_of_ne here] at used
      obtain ⟨l, hl, same⟩ := inv.owned j jlow jhigh used
      exact ⟨l, List.mem_cons_of_mem _ hl, same⟩
  · intro unbuilt
    simp [built] at unbuilt
  · have fresh : i ∉ rest := (List.nodup_cons.1 nodup).1
    refine ⟨rest, ?_, (List.nodup_cons.1 nodup).2, fun j => ?_⟩
    · refine freeFrom_congr (fun j hj => ?_) tail
      simp only [Function.update_of_ne (ne_of_mem_of_not_mem hj fresh)]
    · by_cases here : j = i
      · subst here
        simp [fresh]
      · simp only [Function.update_of_ne here]
        rw [← exact_ j, List.mem_cons, or_iff_right here]

/-- Revoking a live token keeps the invariant for the remaining ones. -/
theorem CapInv.release {s : CapState α} {live : List (Live α)} (inv : CapInv s live)
    {c : UInt64} (valid : capValid s c = true) :
    CapInv (capFree s c) (live.filter fun l => l.token != c) := by
  obtain ⟨v, hv, rfl⟩ := inv.live_of_valid valid
  have built : s.freeInited = true := by
    by_contra unbuilt
    rw [inv.unbuilt (by simpa using unbuilt)] at hv
    simp at hv
  have kept : ∀ l, l ∈ live.filter (fun l => l.token != v.token) → l ∈ live ∧ l.slot ≠ v.slot := by
    intro l hl
    obtain ⟨hl, ne⟩ := List.mem_filter.1 hl
    refine ⟨hl, fun same => ?_⟩
    rw [inv.slot_inj hl hv same] at ne
    simp at ne
  have apart : ∀ l, l ∈ live.filter (fun l => l.token != v.token) →
      l.slot ≠ (capIndex v.token).toNat := fun l hl => (kept l hl).2
  have pos : 0 < v.slot := Nat.pos_of_ne_zero fun zero =>
    inv.slot_pos v hv (UInt32.toNat_inj.1 zero)
  obtain ⟨free, chain, nodup, exact_⟩ := inv.free built
  simp only [capFree, valid, if_true, CapState.setEntry]
  refine ⟨?_, ?_, ?_, ?_, ?_, ?_, fun _ => ?_⟩
  · exact fun l hl => inv.slot_pos l (kept l hl).1
  · exact fun l hl => inv.slot_lt l (kept l hl).1
  · intro l hl
    simp only [Function.update_of_ne (apart l hl)]
    exact inv.entry l (kept l hl).1
  · exact inv.slots_nodup.sublist (List.filter_sublist.map _)
  · intro j low high used
    by_cases here : j = (capIndex v.token).toNat
    · subst here
      simp at used
    · simp only [Function.update_of_ne here] at used
      obtain ⟨l, hl, same⟩ := inv.owned j low high used
      refine ⟨l, List.mem_filter.2 ⟨hl, ?_⟩, same⟩
      simp only [bne_iff_ne]
      intro token
      exact here (by rw [← same, Live.slot, token])
  · intro unbuilt
    rw [inv.unbuilt unbuilt]
    rfl
  · have fresh : v.slot ∉ free := by
      intro member
      have unused := ((exact_ v.slot).1 member).2.2
      rw [(inv.entry v hv).1] at unused
      cases unused
    refine ⟨v.slot :: free, ⟨rfl, inv.slot_pos v hv, ?_⟩, List.nodup_cons.2 ⟨fresh, nodup⟩,
      fun j => ?_⟩
    · simp only [Live.slot, Function.update_self]
      refine freeFrom_congr (fun j hj => ?_) chain
      have apartFromHead : j ≠ (capIndex v.token).toNat := ne_of_mem_of_not_mem hj fresh
      simp only [Function.update_of_ne apartFromHead]
    · by_cases here : j = (capIndex v.token).toNat
      · subst here
        simp only [Function.update_self, List.mem_cons, Live.slot, true_or, and_true, true_iff]
        exact ⟨pos, inv.slot_lt v hv⟩
      · simp only [Function.update_of_ne here, List.mem_cons, Live.slot, here, false_or]
        exact exact_ j

/-! ## Runs -/

inductive CapOp (α : Type) where
  | alloc (obj : Option α) (rights : UInt64)
  | resolve (cap required : UInt64)
  | free (cap : UInt64)

/-- The table, and the live tokens as the history of calls determines them. -/
structure CapRun (α : Type) where
  table : CapState α
  live : List (Live α)

def CapRun.boot : CapRun α := ⟨CapState.boot, []⟩

/-- The token a call returned joins the live ones unless it is `CAP_NULL`. -/
def recordLive (live : List (Live α)) (token : UInt64) (obj : Option α) (rights : UInt64) :
    List (Live α) :=
  match obj with
  | none => live
  | some o => if token = capNull then live else ⟨token, o, rights⟩ :: live

def capStep (r : CapRun α) : CapOp α → CapRun α
  | .alloc obj rights =>
      let result := capAlloc r.table obj rights
      ⟨result.1, recordLive r.live result.2 obj rights⟩
  | .resolve _ _ => r
  | .free cap => ⟨capFree r.table cap, r.live.filter fun l => l.token != cap⟩

/-- Any call may be made in any state, with any arguments. -/
def capMachine (α : Type) : Theory.Machine (CapRun α) (CapOp α) where
  enabled _ _ := True
  step := capStep

theorem capMachine_admits (r : CapRun α) (ops : List (CapOp α)) : (capMachine α).Admits r ops := by
  induction ops generalizing r with
  | nil => trivial
  | cons op rest ih => exact ⟨trivial, ih _⟩

/-- `cap_free` of a token that is not live is no change. -/
theorem CapInv.free_not_live {s : CapState α} {live : List (Live α)} (inv : CapInv s live)
    {c : UInt64} (dead : ∀ l ∈ live, l.token ≠ c) : capFree s c = s := by
  have invalid : ¬ capValid s c = true := fun valid =>
    let ⟨l, hl, same⟩ := inv.live_of_valid valid
    dead l hl same
  simp [capFree, invalid]

theorem capStep_inv (r : CapRun α) (op : CapOp α) (inv : CapInv r.table r.live) :
    CapInv (capStep r op).table (capStep r op).live := by
  cases op with
  | alloc obj rights =>
      cases obj with
      | none => exact inv
      | some o =>
          simp only [capStep, capAlloc_some, recordLive]
          by_cases empty : (ensureFreeList r.table).freeHead = 0
          · simpa [empty] using inv.ensure
          · have nonnull : ∀ gen, capMake (ensureFreeList r.table).freeHead gen ≠ capNull :=
              fun gen => token_ne_null (by simpa using empty)
            simp only [empty, if_false, nonnull]
            exact inv.ensure.alloc (ensureFreeList_inited _) empty o rights _ _
  | resolve cap required => exact inv
  | free cap =>
      simp only [capStep]
      by_cases valid : capValid r.table cap = true
      · exact inv.release valid
      · have dead : ∀ l ∈ r.live, l.token ≠ cap := by
          rintro l hl rfl
          exact valid (inv.valid hl)
        rw [inv.free_not_live dead, List.filter_eq_self.2 (by simpa using dead)]
        exact inv

theorem capRun_inv (ops : List (CapOp α)) :
    CapInv ((capMachine α).run CapRun.boot ops).table ((capMachine α).run CapRun.boot ops).live :=
  (capMachine α).run_invariant (I := fun r => CapInv r.table r.live)
    (fun r op inv _ => capStep_inv r op inv) capInv_boot (capMachine_admits _ ops)

/-- The live tokens in any order. -/
theorem CapInv.perm {s : CapState α} {live live' : List (Live α)} (inv : CapInv s live)
    (perm : live.Perm live') : CapInv s live' where
  slot_pos l hl := inv.slot_pos l (perm.mem_iff.2 hl)
  slot_lt l hl := inv.slot_lt l (perm.mem_iff.2 hl)
  entry l hl := inv.entry l (perm.mem_iff.2 hl)
  slots_nodup := (perm.map Live.slot).nodup_iff.1 inv.slots_nodup
  owned i low high used := by
    obtain ⟨l, hl, slot⟩ := inv.owned i low high used
    exact ⟨l, perm.mem_iff.1 hl, slot⟩
  unbuilt fresh := by
    have empty := inv.unbuilt fresh
    subst empty
    exact perm.nil_eq.symm
  free := inv.free

/-- `cap_alloc` adds a token, or changes nothing that is live. -/
theorem CapInv.allocated {s : CapState α} {live : List (Live α)} (inv : CapInv s live) (o : α)
    (rights : UInt64) :
    ((capAlloc s (some o) rights).2 = capNull ∧ CapInv (capAlloc s (some o) rights).1 live) ∨
      ((capAlloc s (some o) rights).2 ≠ capNull ∧
        CapInv (capAlloc s (some o) rights).1 (⟨(capAlloc s (some o) rights).2, o, rights⟩ :: live)) := by
  have step := capStep_inv ⟨s, live⟩ (.alloc (some o) rights) inv
  simp only [capStep, recordLive] at step
  by_cases failed : (capAlloc s (some o) rights).2 = capNull
  · rw [if_pos failed] at step
    exact Or.inl ⟨failed, step⟩
  · rw [if_neg failed] at step
    exact Or.inr ⟨failed, step⟩

/-- `cap_free` of a live token. -/
theorem CapInv.released {s : CapState α} {l : Live α} {live : List (Live α)} (inv : CapInv s (l :: live)) :
    CapInv (capFree s l.token) live := by
  have others : ∀ m ∈ live, m.token ≠ l.token := by
    intro m member same
    have slots := inv.slots_nodup
    rw [List.map_cons, List.nodup_cons] at slots
    refine slots.1 (List.mem_map.2 ⟨m, member, ?_⟩)
    rw [Live.slot, same, Live.slot]
  have freed := inv.release (inv.valid List.mem_cons_self)
  rw [List.filter_cons_of_neg (by simp), List.filter_eq_self.2 (by simpa using others)] at freed
  exact freed

/-- Resolving a live token yields its object exactly when its rights allow. -/
theorem CapInv.resolve_live {s : CapState α} {live : List (Live α)} (inv : CapInv s live)
    {l : Live α} (hl : l ∈ live) (required : UInt64) :
    (RightsSubset required l.rights → capResolve s l.token required = some l.obj) ∧
      (¬ RightsSubset required l.rights → capResolve s l.token required = none) := by
  obtain ⟨-, -, obj, rights⟩ := inv.entry l hl
  simp only [Live.slot] at obj rights
  simp only [capResolve, inv.valid hl, if_true, rights, obj, rightsSubset_iff, bne_iff_ne, ne_eq,
    ite_not]
  exact ⟨fun granted => if_pos granted, fun refused => if_neg refused⟩

theorem CapInv.resolve_not_live {s : CapState α} {live : List (Live α)} (inv : CapInv s live)
    {c : UInt64} (dead : ∀ l ∈ live, l.token ≠ c) (required : UInt64) :
    capResolve s c required = none := by
  have invalid : ¬ capValid s c = true := fun valid =>
    let ⟨l, hl, same⟩ := inv.live_of_valid valid
    dead l hl same
  simp [capResolve, invalid]

/-- What a token resolves to depends on the live tokens only. -/
theorem CapInv.resolve_congr {s s' : CapState α} {live : List (Live α)} (inv : CapInv s live)
    (inv' : CapInv s' live) (c required : UInt64) : capResolve s' c required = capResolve s c required := by
  by_cases isLive : ∃ l ∈ live, l.token = c
  · obtain ⟨l, hl, rfl⟩ := isLive
    by_cases granted : RightsSubset required l.rights
    · rw [(inv.resolve_live hl required).1 granted, (inv'.resolve_live hl required).1 granted]
    · rw [(inv.resolve_live hl required).2 granted, (inv'.resolve_live hl required).2 granted]
  · have dead : ∀ l ∈ live, l.token ≠ c := fun l hl same => isLive ⟨l, hl, same⟩
    rw [inv.resolve_not_live dead, inv'.resolve_not_live dead]

/-- **The capability table keeps its contract in every reachable state.**  The
free list holds exactly the unused slots, live tokens are non-null and apart, a
live token resolves to its object exactly under its rights, any other token is
inert, and allocation fails only when every slot has a live owner. -/
theorem cap_table_contract (ops : List (CapOp α)) :
    let r := (capMachine α).run CapRun.boot ops
    (r.table.freeInited = true → FreeListExact r.table) ∧
      r.live.Pairwise (fun a b => a.slot ≠ b.slot ∧ a.token ≠ b.token) ∧
      (∀ l ∈ r.live, l.token ≠ capNull) ∧
      (∀ l ∈ r.live, ∀ required,
        (RightsSubset required l.rights → capResolve r.table l.token required = some l.obj) ∧
          (¬ RightsSubset required l.rights → capResolve r.table l.token required = none)) ∧
      (∀ c, (∀ l ∈ r.live, l.token ≠ c) →
        capFree r.table c = r.table ∧ ∀ required, capResolve r.table c required = none) ∧
      (∀ o rights, (capAlloc r.table (some o) rights).2 = capNull →
        ∀ i, 0 < i → i < capTableSize → ∃ l ∈ r.live, l.slot = i) := by
  intro r
  have inv : CapInv r.table r.live := capRun_inv ops
  refine ⟨inv.free, ?_, ?_, fun l hl => inv.resolve_live hl, ?_, ?_⟩
  · have slots := List.pairwise_map.1 inv.slots_nodup
    exact slots.imp fun apart => ⟨apart, fun same => apart (by rw [Live.slot, same, Live.slot])⟩
  · exact fun l hl => token_ne_null (inv.slot_pos l hl)
  · exact fun c dead => ⟨inv.free_not_live dead, inv.resolve_not_live dead⟩
  · intro o rights failed i low high
    rw [capAlloc_some] at failed
    by_cases empty : (ensureFreeList r.table).freeHead = 0
    · exact inv.ensure.full (ensureFreeList_inited _) empty i low high
    · simp only [empty, if_false] at failed
      exact absurd failed (token_ne_null (by simpa using empty))

end Minus.Core.Cap
