/-
# Mm.Kmalloc — kmalloc and kfree over whole runs

Every run of `kmalloc`, `kzalloc`, `kfree` of live pointers and writes into live
allocations keeps the invariant of `Mm.SlabSafety`, as long as the page
allocator hands out pages below 4 GiB (`LowPages`); `kmalloc_safe` says what
that gives in each state reached.  Above 4 GiB the claim fails at once: two
blocks of pages get one address (`pages_above_4G_alias`).
-/
import Minus.Mm.SlabSafety

namespace Minus.Mm.Slab

set_option autoImplicit false

open Minus.Theory Minus.Lib.Dlist
open Minus.Mm.Buddy (Pfn getOrder)

/-! ## kmalloc and kfree -/

theorem orderLoop_covers (pages order : Nat)
    (below : Buddy.orderLoop pages order < Buddy.buddyMaxOrder) :
    pages ≤ 2 ^ Buddy.orderLoop pages order := by
  fun_induction Buddy.orderLoop pages order with
  | case1 order _ ih => exact ih below
  | case2 order stop =>
      by_contra more
      exact stop ⟨by omega, below⟩

/-- The block of a request covers it. -/
theorem getOrder_covers {size : UInt32} (below : getOrder size < Buddy.buddyMaxOrder) :
    size.toNat ≤ 2 ^ getOrder size * pageSize := by
  have pages := orderLoop_covers _ 0 below
  rw [show Buddy.orderLoop ((size.toNat + (Buddy.pageSize - 1)) / Buddy.pageSize) 0 = getOrder size
    from rfl] at pages
  have wide : Buddy.pageSize = pageSize := by decide
  rw [wide] at pages
  have upTo := Nat.mul_le_mul_right pageSize pages
  unfold pageSize at *
  omega

theorem indexLoop_spec (s order : Nat) :
    ∃ k, indexLoop s order = order + k ∧ s < 2 ^ k ∧ ∀ n, s < 2 ^ n → k ≤ n := by
  fun_induction indexLoop s order with
  | case1 order => exact ⟨0, rfl, by simp, fun _ _ => Nat.zero_le _⟩
  | case2 s order nonzero ih =>
      obtain ⟨k, eq, upper, least⟩ := ih
      refine ⟨k + 1, by omega, by rw [pow_succ]; omega, fun n below => ?_⟩
      cases n with
      | zero =>
          simp at below
          omega
      | succ n =>
          have := least n (by rw [pow_succ] at below; omega)
          omega

/-- The cache of a request holds objects of at least its size. -/
theorem kmallocIndex_spec {size : UInt32} (nonzero : size ≠ 0) (small : ¬ kmallocMaxSize < size) :
    kmallocIndex size < kmallocCachesNum ∧ size.toNat ≤ objSize (kmallocIndex size) := by
  have positive : 0 < size.toNat := by
    rw [Nat.pos_iff_ne_zero]
    exact fun zero => nonzero (UInt32.toNat_inj.1 zero)
  have upper : size.toNat ≤ 2048 := by
    rw [UInt32.not_lt, UInt32.le_iff_toNat_le] at small
    exact small
  have shifted : ((size - 1) >>> 3).toNat = (size.toNat - 1) / 8 := by
    have one : (1 : UInt32) ≤ size := by
      rw [UInt32.le_iff_toNat_le]
      exact positive
    rw [UInt32.toNat_shiftRight, UInt32.toNat_sub_of_le _ _ one]
    simp [Nat.shiftRight_eq_div_pow]
  obtain ⟨k, eq, covers, least⟩ := indexLoop_spec ((size.toNat - 1) / 8) 0
  have index : kmallocIndex size = k := by rw [kmallocIndex, shifted, eq, Nat.zero_add]
  rw [index]
  refine ⟨Nat.lt_succ_of_le (least 8 (by omega)), ?_⟩
  rw [objSize, pow_add]
  omega

section Operations

variable {s : SlabState} {lists : SlabList × Nat → List Nat} {chain : Nat → List Nat}
  {live : List Alloc}

/-- **`kmalloc`** fails and changes nothing, or adds a live allocation. -/
theorem SlabInv.kmalloc (inv : SlabInv s lists chain live) (settled : Settled lists chain)
    {size : UInt32} {answer : Option Pfn}
    (answers : ∀ page : Nat, answer = some page →
      Answers s.taken (requestOrder size) page ∧ page < 2 ^ 20) :
    kmalloc s size answer = (s, none) ∨
      ∃ s' p lists' chain', Slab.kmalloc s size answer = (s', some p) ∧
        SlabInv s' lists' chain' (⟨p, size.toNat⟩ :: live) ∧ Settled lists' chain' ∧
        s'.released = s.released := by
  unfold Slab.kmalloc
  by_cases zero : size = 0
  · exact Or.inl (if_pos zero)
  rw [if_neg zero]
  have positive : 0 < size.toNat := by
    rw [Nat.pos_iff_ne_zero]
    exact fun none_ => zero (UInt32.toNat_inj.1 none_)
  by_cases large : kmallocMaxSize < size
  · rw [if_pos large]
    rw [requestOrder, if_pos large] at answers
    cases answer with
    | none => exact Or.inl rfl
    | some page =>
        right
        obtain ⟨⟨order, aligned, -, outside⟩, low⟩ := answers page rfl
        have virt : pageToVirt page = page * pageSize :=
          Nat.mod_eq_of_lt (by unfold pageSize; omega)
        have whole : page + 2 ^ getOrder size ≤ 2 ^ 20 := by
          have divides : 2 ^ getOrder size ∣ 2 ^ 20 := Nat.pow_dvd_pow 2 (by
            unfold Buddy.buddyMaxOrder at order; omega)
          obtain ⟨m, rfl⟩ := aligned
          obtain ⟨n, top⟩ := divides
          rw [top] at low ⊢
          rw [← Nat.mul_succ]
          exact Nat.mul_le_mul_left _ (Nat.lt_of_mul_lt_mul_left low)
        refine ⟨_, _, lists, chain, ?_, inv.takePages outside whole positive
          (getOrder_covers order), settled, rfl⟩
        simp only [buddyAllocPages, virt]
  · rw [if_neg large]
    rw [requestOrder, if_neg large] at answers
    obtain ⟨below, fits⟩ := kmallocIndex_spec zero large
    exact inv.cacheAlloc settled below answers positive fits

/-- Whether another live allocation is on the page of a pointer. -/
def shared (live : List Alloc) (ptr : Nat) : Bool :=
  live.any fun k => k.ptr != ptr && k.ptr / pageSize == ptr / pageSize

/-- A chain that is too short for all objects misses one. -/
theorem exists_outside {num : Nat} {chain : List Nat} (few : chain.length < num) :
    ∃ idx < num, idx ∉ chain := by
  by_contra none_
  push Not at none_
  have covered := (List.subperm_of_subset List.nodup_range fun k inside =>
    none_ k (List.mem_range.1 inside)).length_le
  rw [List.length_range] at covered
  omega

/-- The last live object of a slab is the one that shares its page with no other. -/
theorem SlabInv.last_iff (inv : SlabInv s lists chain live) {i a idx : Nat} (listed : Listed lists i a)
    (small : idx < objNum i) {l : Alloc} (member : l ∈ live) (ptr : l.ptr = object i a idx) :
    (chain a).length + 1 = objNum i ↔ shared live l.ptr = false := by
  have slab := inv.slab i a listed
  have onPage := inv.start_page listed small ptr
  obtain ⟨absent, room⟩ := inv.room listed small member ptr
  rw [shared, List.any_eq_false]
  constructor
  · intro last k hk both
    simp only [Bool.and_eq_true, bne_iff_ne, beq_iff_eq] at both
    obtain ⟨idx', small', ptr', -, taken'⟩ := inv.on_page listed hk (both.2.trans onPage)
    have counted : (idx' :: idx :: chain a).length ≤ objNum i := length_le_of_small (objNum i)
      (List.nodup_cons.2 ⟨?_, List.nodup_cons.2 ⟨absent, slab.nodup⟩⟩) ?_
    · simp at counted
      omega
    · refine List.not_mem_cons_of_ne_of_not_mem (fun same => both.1 ?_) taken'
      rw [ptr', ptr, same]
    · intro k' inside
      rcases List.mem_cons.1 inside with rfl | inside
      · exact small'
      rcases List.mem_cons.1 inside with rfl | inside
      · exact small
      · exact slab.small k' inside
  · intro alone
    by_contra more
    obtain ⟨idx', small', outside⟩ : ∃ idx' < objNum i, idx' ∉ idx :: chain a := by
      apply exists_outside
      rw [List.length_cons]
      omega
    have isLive : ¬ ∀ k ∈ live, k.ptr ≠ object i a idx' := fun none_ =>
      outside (List.mem_cons_of_mem _ ((slab.objects idx' small').2 none_))
    push Not at isLive
    obtain ⟨k, hk, ptrK⟩ := isLive
    refine alone k hk ?_
    simp only [Bool.and_eq_true, bne_iff_ne, beq_iff_eq]
    refine ⟨fun same => outside ?_, ?_⟩
    · rw [ptrK, ptr] at same
      rw [object_inj listed.1 same]
      exact List.mem_cons_self
    · rw [onPage]
      exact inv.start_page listed small' ptrK

/-- Pages that are allocated whole are shared with nothing. -/
theorem SlabInv.whole_alone (inv : SlabInv s lists chain live) {l : Alloc} {page : Nat}
    (off : s.inSlab page = false) (ptr : l.ptr = page * pageSize) : shared live l.ptr = false := by
  have onPage : l.ptr / pageSize = page := by rw [ptr, Nat.mul_div_cancel _ (by decide)]
  rw [shared, List.any_eq_false]
  intro k hk both
  simp only [Bool.and_eq_true, bne_iff_ne, beq_iff_eq] at both
  obtain ⟨-, placeK⟩ := inv.placed k hk
  rcases placeK with ⟨i, a, idx, listed, small, ptrK, -⟩ | ⟨page', order', -, -, ptrK, -⟩
  · have on := inv.marked listed
    rw [← inv.start_page listed small ptrK, both.2, onPage, off] at on
    cases on
  · apply both.1
    have samePage := both.2
    rw [ptrK, Nat.mul_div_cancel _ (by decide), onPage] at samePage
    rw [ptrK, ptr, samePage]

/-- **`kfree`** removes the allocation, and gives the page back exactly when no
other allocation is on it. -/
theorem SlabInv.kfree (inv : SlabInv s lists chain live) (settled : Settled lists chain) {l : Alloc}
    (member : l ∈ live) :
    ∃ lists' chain', SlabInv (kfree s l.ptr) lists' chain' (live.filter (·.ptr != l.ptr)) ∧
      Settled lists' chain' ∧ (kfree s l.ptr).released =
        s.released ++ if shared live l.ptr then [] else [l.ptr / pageSize] := by
  obtain ⟨-, place⟩ := inv.placed l member
  rcases place with ⟨i, a, idx, listed, small, ptr, fits⟩ | ⟨page, order, taken, off, ptr, -⟩
  · obtain ⟨pageEq, slabEq⟩ := inv.converts listed small ptr
    obtain ⟨lists', chain', inv', settled', released⟩ :=
      inv.cacheFree settled listed small member ptr
    have step : Slab.kfree s l.ptr = kmemCacheFree s i (object i a idx) := by
      rw [Slab.kfree, pageEq, slabEq, if_pos (inv.marked listed), (inv.slab i a listed).cachep, ptr]
    have lastIff := inv.last_iff listed small member ptr
    refine ⟨lists', chain', ?_, settled', ?_⟩
    · rw [step, ptr]
      exact inv'
    · rw [step, released, inv.start_page listed small ptr]
      by_cases last : (chain a).length + 1 = objNum i
      · rw [if_pos last, if_neg (by rw [lastIff.1 last]; simp)]
      · have others : shared live l.ptr = true := by
          by_contra alone
          exact last (lastIff.2 (by simpa using alone))
        rw [if_neg last, if_pos others]
  · have low : page + 2 ^ order ≤ 2 ^ 20 := inv.low _ taken
    have pos := Nat.two_pow_pos order
    have onPage : l.ptr / pageSize = page := by rw [ptr, Nat.mul_div_cancel _ (by decide)]
    have pageEq : virtToPage l.ptr = page := by
      rw [virtToPage, onPage]
      exact Nat.mod_eq_of_lt (by omega)
    have step : Slab.kfree s l.ptr = buddyFreePages s page := by
      rw [Slab.kfree, pageEq, if_neg (by simp [off])]
    refine ⟨lists, chain, ?_, settled, ?_⟩
    · rw [step]
      exact inv.freePages off ptr
    · rw [step, inv.whole_alone off ptr, onPage]
      rfl

/-- A write into a live allocation is invisible to the allocator. -/
theorem SlabInv.write (inv : SlabInv s lists chain live) {mem : Bytes} {l : Alloc}
    (member : l ∈ live) (same : ∀ x, x ∉ l.bytes → mem x = s.mem x) :
    SlabInv { s with mem := mem } lists chain live := by
  refine inv.rewrite fun i a listed idx free => load32_congr fun x low high => same x fun inside => ?_
  exact Set.disjoint_left.1 (inv.links_apart listed free member) inside ⟨low, high⟩

end Operations

/-! ## Runs -/

/-- The answers of the page allocator of `Mm.Buddy`: the block it returns is
aligned and apart from every block it has handed out. -/
theorem buddy_answers {s : Buddy.BuddyState} {lists : Nat → List Pfn} {held : List (Pfn × Nat)}
    {fed : Set Nat} (inv : Buddy.BuddyInv s lists held [] fed) {size : UInt32} {page : Pfn}
    (returned : (Buddy.buddyAllocPages s size).2 = some page) :
    Answers held (getOrder size) page := by
  rcases inv.alloc size with none_ | ⟨page', lists', returned', after⟩
  · rw [none_] at returned
    cases returned
  · rw [returned] at returned'
    cases returned'
    obtain ⟨below, aligned, -⟩ := after.heldOrder (page, getOrder size) List.mem_cons_self
    refine ⟨below, aligned, ?_, fun b member => ?_⟩
    · have last : page + 2 ^ getOrder size - 1 ∈ fed := by
        refine after.tiles.subset (b := (page, getOrder size)) (by simp) ?_
        have := Nat.two_pow_pos (getOrder size)
        exact ⟨Nat.le_sub_one_of_lt (Nat.lt_add_of_pos_right this), Nat.sub_one_lt_of_lt
          (Nat.lt_add_left page this)⟩
      have := after.bounded _ last
      have := Nat.two_pow_pos (getOrder size)
      exact Nat.le_of_pred_lt (by assumption)
    · exact after.tiles.disjoint_of_mem (List.mem_append_left _ member)

/-- Every page the allocator is given lies below 4 GiB. -/
def LowPages (_ : SlabRun) : SlabOp → Prop
  | .kmalloc _ answer | .kzalloc _ answer => ∀ page : Nat, answer = some page → page < 2 ^ 20
  | .kfree _ | .write _ _ => True

def RunInv (r : SlabRun) : Prop :=
  ∃ lists chain, SlabInv r.mem lists chain r.live ∧ Settled lists chain

theorem slabStep_inv {r : SlabRun} (inv : RunInv r) {op : SlabOp} (enabled : slabEnabled r op)
    (low : LowPages r op) : RunInv (slabStep r op) := by
  obtain ⟨lists, chain, inv, settled⟩ := inv
  cases op with
  | kmalloc size answer =>
      rcases inv.kmalloc settled fun page same => ⟨enabled page same, low page same⟩ with
        failed | ⟨s', p, lists', chain', eq, inv', settled', -⟩
      · exact ⟨lists, chain, by simpa [slabStep, failed, recordLive] using inv, settled⟩
      · exact ⟨lists', chain', by simpa [slabStep, eq, recordLive] using inv', settled'⟩
  | kzalloc size answer =>
      rcases inv.kmalloc settled fun page same => ⟨enabled page same, low page same⟩ with
        failed | ⟨s', p, lists', chain', eq, inv', settled', -⟩
      · exact ⟨lists, chain, by simpa [slabStep, kzalloc, failed, recordLive] using inv, settled⟩
      · refine ⟨lists', chain', ?_, settled'⟩
        simp only [slabStep, kzalloc, eq, recordLive]
        exact inv'.write List.mem_cons_self fun x outside => clear_outside _ outside
  | kfree objp =>
      obtain ⟨l, member, rfl⟩ := enabled
      obtain ⟨lists', chain', inv', settled', -⟩ := inv.kfree settled member
      exact ⟨lists', chain', inv', settled'⟩
  | write addr value =>
      obtain ⟨l, member, inside⟩ := enabled
      refine ⟨lists, chain, inv.write member fun x outside => ?_, settled⟩
      exact Function.update_of_ne (ne_of_mem_of_not_mem inside outside).symm _ _

theorem slabInit_loop (s : SlabState) (n : Nat) :
    ∃ caches links, (List.range n).foldl (fun s i => kmemCacheInit s i (2 ^ (i + 3)) 8) s =
        { s with caches := caches, links := links } ∧
      (∀ i < n, caches i = (kmemCacheInit s i (2 ^ (i + 3)) 8).caches i) ∧
      ∀ i < n, ∀ list, links.Alone (.head list i) := by
  induction n with
  | zero => exact ⟨s.caches, s.links, rfl, by simp, by simp⟩
  | succ n ih =>
      obtain ⟨caches, links, eq, cachesEq, alone⟩ := ih
      rw [List.range_succ, List.foldl_append, eq]
      refine ⟨_, _, rfl, fun i below => ?_, fun i below list => ?_⟩
      · by_cases last : i = n
        · subst last
          simp [kmemCacheInit]
        · have old := cachesEq i (by omega)
          simp only [kmemCacheInit, Function.update_of_ne last] at old ⊢
          exact old
      · -- The last three initialisations leave every other self-linked head alone.
        have keep : ∀ (h : Links Node) (x y : Node), h.Alone x ∨ x = y → (dlistInit h y).Alone x := by
          rintro h x y (before | rfl)
          · by_cases same : x = y
            · subst same
              exact dlistInit_alone h x
            · exact ⟨(dlistInit_next_of_ne h same).trans before.1,
                (dlistInit_prev_of_ne h same).trans before.2⟩
          · exact dlistInit_alone h x
        by_cases last : i = n
        · subst last
          cases list with
          | slabsPartial => exact keep _ _ _ (Or.inl (keep _ _ _ (Or.inl (keep _ _ _ (Or.inr rfl)))))
          | slabsFull => exact keep _ _ _ (Or.inl (keep _ _ _ (Or.inr rfl)))
          | slabsFree => exact keep _ _ _ (Or.inr rfl)
        · have before := alone i (by omega) list
          exact keep _ _ _ (Or.inl (keep _ _ _ (Or.inl (keep _ _ _ (Or.inl before)))))

theorem slabInit_taken (s : SlabState) : (slabInit s).taken = s.taken := by
  obtain ⟨caches, links, eq, -⟩ := slabInit_loop s kmallocCachesNum
  rw [slabInit, eq]

theorem kmallocCaches (s : SlabState) : ∀ i < kmallocCachesNum,
    (kmemCacheInit s i (2 ^ (i + 3)) 8).caches i = ⟨objSize i, 8, objNum i⟩ := by
  have sizes : ∀ i < kmallocCachesNum, alignUp (2 ^ (i + 3)) 8 = objSize i ∧
      ¬ pageSize < alignUp slabSize 8 + objSize i := by decide
  intro i below
  obtain ⟨size, fits⟩ := sizes i below
  simp only [kmemCacheInit, Function.update_self]
  rw [if_neg (by decide : ¬ 8 = 0), size, if_neg fits]
  rfl

theorem runInv_boot (links : Links Node) (mem : Bytes) : RunInv (SlabRun.boot links mem) := by
  obtain ⟨caches, links', eq, cachesEq, alone⟩ := slabInit_loop
    ⟨fun _ => ⟨0, 0, 0⟩, fun _ => ⟨0, 0, 0, 0⟩, links, fun _ => false, mem, [], [], false⟩
    kmallocCachesNum
  refine ⟨fun _ => [], fun _ => [], ?_, fun _ _ _ _ inside => by cases inside⟩
  rw [SlabRun.boot, slabInit, eq]
  have unlisted : ∀ i a, ¬ Listed (fun _ => []) i a := fun i a ⟨_, _, inside⟩ => by cases inside
  refine ⟨fun i below => (cachesEq i below).trans (kmallocCaches _ i below), ⟨?_, ?_⟩,
    fun i a listed => absurd listed (unlisted i a), fun page => ?_, List.Pairwise.nil, by simp,
    by simp, by simp, List.nodup_nil, rfl⟩
  · intro h below
    rw [List.map_nil, Links.ring_nil_iff]
    exact alone h.2 below h.1
  · rintro ⟨list, i⟩ ⟨list', j⟩ - - ne
    have apart : ¬ (list' = list ∧ j = i) := fun same => ne (by rw [same.1, same.2])
    simpa using apart
  · simp [unlisted]

/-- **What every state of a run guarantees.**  The slabs of each cache are on its
lists as their use says; live allocations are aligned, and disjoint from each
other, from the descriptors and from the links of free objects; the chain of a
slab visits exactly its free objects; a page is marked exactly while its slab is
on a list, and every block taken from the page allocator is in use. -/
structure SlabSafe (r : SlabRun) (lists : SlabList × Nat → List Nat) (chain : Nat → List Nat) :
    Prop where
  family : r.mem.links.Family (fun h : SlabList × Nat => h.2 < kmallocCachesNum)
    (fun h => Node.head h.1 h.2) fun h => (lists h).map Node.slab
  aligned : ∀ l ∈ r.live, l.ptr % 8 = 0
  apart : r.live.Pairwise fun l k => Disjoint l.bytes k.bytes
  offDescriptors : ∀ i a, Listed lists i a → ∀ l ∈ r.live,
    Disjoint l.bytes (Set.Ico a (a + slabSize))
  offLinks : ∀ i a, Listed lists i a → ∀ idx ∈ chain a, ∀ l ∈ r.live,
    Disjoint l.bytes (Set.Ico (object i a idx) (object i a idx + 4))
  follows : ∀ i a, Listed lists i a → FreeChain r.mem.mem i a (r.mem.slabs a).free (chain a)
  visits : ∀ i a, Listed lists i a → (chain a).Nodup ∧
    ∀ idx, idx ∈ chain a ↔ idx < objNum i ∧ ∀ l ∈ r.live, l.ptr ≠ object i a idx
  inuse : ∀ i a, Listed lists i a → (r.mem.slabs a).inuse.toNat =
    ((List.range (objNum i)).filter fun idx => r.live.any (·.ptr == object i a idx)).length
  full_iff : ∀ i a, Listed lists i a →
    (a ∈ lists (.slabsFull, i) ↔ (r.mem.slabs a).inuse.toNat = objNum i)
  partly_iff : ∀ i a, Listed lists i a →
    (a ∈ lists (.slabsPartial, i) ↔
      0 < (r.mem.slabs a).inuse.toNat ∧ (r.mem.slabs a).inuse.toNat < objNum i)
  noneFree : ∀ i < kmallocCachesNum, lists (.slabsFree, i) = []
  marked : ∀ page, r.mem.inSlab page = true ↔ ∃ i, Listed lists i (page * pageSize)
  slabTaken : ∀ i a, Listed lists i a → (a / pageSize, 0) ∈ r.mem.taken
  used : ∀ b ∈ r.mem.taken, ∃ l ∈ r.live, l.ptr / pageSize = b.1
  noFault : r.mem.fault = false

/-- `kfree` of a live pointer calls `buddy_free_pages` once if no other live
allocation is on the page, and not at all otherwise. -/
def ReturnsOnce (r : SlabRun) : Prop :=
  ∀ l ∈ r.live, (slabStep r (.kfree l.ptr)).mem.released =
    r.mem.released ++ if shared r.live l.ptr then [] else [l.ptr / pageSize]

theorem count_live {live : List Alloc} {i a : Nat} {chain : List Nat} (nodup : chain.Nodup)
    (visits : ∀ idx, idx ∈ chain ↔ idx < objNum i ∧ ∀ l ∈ live, l.ptr ≠ object i a idx) :
    ((List.range (objNum i)).filter fun idx => live.any (·.ptr == object i a idx)).length =
      objNum i - chain.length := by
  have same : chain.Perm
      ((List.range (objNum i)).filter fun idx => !live.any (·.ptr == object i a idx)) := by
    refine (List.perm_ext_iff_of_nodup nodup (List.nodup_range.filter _)).2 fun idx => ?_
    rw [visits idx, List.mem_filter, List.mem_range, Bool.not_eq_true', List.any_eq_false]
    simp
  have split := List.length_eq_length_filter_add (l := List.range (objNum i))
    fun idx => live.any (·.ptr == object i a idx)
  rw [List.length_range] at split
  rw [same.length_eq]
  omega

/-- Not all objects of a slab on a list are free. -/
theorem Fits.short {i : Nat} {c : List Nat} {list : SlabList} (fit : Fits i c list)
    (below : i < kmallocCachesNum) : c.length < objNum i := by
  obtain ⟨some_, -⟩ := cache_bounds i below
  cases list with
  | slabsPartial => exact fit.2
  | slabsFull =>
      have empty : c = [] := fit
      rw [empty, List.length_nil]
      omega
  | slabsFree => exact fit.elim

theorem slabSafe_of_inv {r : SlabRun} {lists : SlabList × Nat → List Nat} {chain : Nat → List Nat}
    (inv : SlabInv r.mem lists chain r.live) (settled : Settled lists chain) :
    SlabSafe r lists chain := by
  have visits : ∀ i a, Listed lists i a → (chain a).Nodup ∧
      ∀ idx, idx ∈ chain a ↔ idx < objNum i ∧ ∀ l ∈ r.live, l.ptr ≠ object i a idx := by
    intro i a listed
    have slab := inv.slab i a listed
    refine ⟨slab.nodup, fun idx => ⟨fun inside => ?_, fun ⟨small, none_⟩ => ?_⟩⟩
    · exact ⟨slab.small idx inside, (slab.objects idx (slab.small idx inside)).1 inside⟩
    · exact (slab.objects idx small).2 none_
  have used : ∀ i a, Listed lists i a →
      (r.mem.slabs a).inuse.toNat = objNum i - (chain a).length := by
    intro i a listed
    obtain ⟨-, -, -, -, few⟩ := cache_bounds i listed.1
    rw [(inv.slab i a listed).inuse, UInt32.toNat_ofNat', Nat.mod_eq_of_lt (by omega)]
  have room : ∀ i a, Listed lists i a → (chain a).length ≤ objNum i := fun i a listed =>
    length_le_of_small _ (inv.slab i a listed).nodup (inv.slab i a listed).small
  -- A listed slab fits its list, and the three fits exclude each other.
  have fits : ∀ i a, Listed lists i a → ∃ list, a ∈ lists (list, i) ∧ Fits i (chain a) list :=
    fun i a ⟨below, list, inside⟩ => ⟨list, inside, settled list i below a inside⟩
  refine ⟨inv.family, fun l hl => inv.aligned8 hl, ?_, fun i a listed l hl =>
    inv.descriptor_apart listed hl, fun i a listed idx free l hl => inv.links_apart listed free hl,
    fun i a listed => (inv.slab i a listed).follows, visits, fun i a listed => ?_,
    fun i a listed => ?_, fun i a listed => ?_, fun i below => ?_, inv.inSlab,
    fun i a listed => (inv.slab i a listed).taken, fun b taken => ?_, inv.noFault⟩
  · exact (List.pairwise_map.1 inv.nodup).imp_of_mem fun hl hk ne => inv.live_apart hl hk ne
  · rw [used i a listed, count_live (visits i a listed).1 (visits i a listed).2]
  · obtain ⟨some_, -⟩ := cache_bounds i listed.1
    have few := room i a listed
    rw [used i a listed]
    constructor
    · intro inside
      have empty : chain a = [] := settled .slabsFull i listed.1 a inside
      rw [empty]
      rfl
    · intro all
      obtain ⟨list, inside, fit⟩ := fits i a listed
      have empty : chain a = [] := List.length_eq_zero_iff.1 (by omega)
      cases list with
      | slabsPartial => exact absurd empty fit.1
      | slabsFull => exact inside
      | slabsFree => exact fit.elim
  · have few := room i a listed
    rw [used i a listed]
    constructor
    · intro inside
      obtain ⟨nonempty, short⟩ := settled .slabsPartial i listed.1 a inside
      have := List.length_pos_iff.2 nonempty
      omega
    · rintro ⟨some_, notAll⟩
      obtain ⟨list, inside, fit⟩ := fits i a listed
      cases list with
      | slabsPartial => exact inside
      | slabsFull =>
          have empty : chain a = [] := fit
          rw [empty] at notAll
          simp at notAll
      | slabsFree => exact fit.elim
  · rw [List.eq_nil_iff_forall_not_mem]
    exact fun a inside => settled .slabsFree i below a inside
  · by_cases slabbed : r.mem.inSlab b.1 = true
    · obtain ⟨i, listed⟩ := (inv.inSlab _).1 slabbed
      obtain ⟨list, -, fit⟩ := fits i _ listed
      -- A slab on a list has an object that is not free.
      obtain ⟨idx, small, absent⟩ := exists_outside (fit.short listed.1)
      rw [(inv.slab i _ listed).objects idx small] at absent
      push Not at absent
      obtain ⟨l, hl, ptr⟩ := absent
      refine ⟨l, hl, ?_⟩
      rw [inv.start_page listed small ptr, Nat.mul_div_cancel _ (by decide)]
    · obtain ⟨l, hl, ptr⟩ := inv.owned b taken (by simpa using slabbed)
      exact ⟨l, hl, by rw [ptr, Nat.mul_div_cancel _ (by decide)]⟩

/-- **kmalloc and kfree are safe over whole runs** whose pages lie below 4 GiB. -/
theorem kmalloc_safe (links : Links Node) (mem : Bytes) (ops : List SlabOp)
    (admitted : (slabMachine.guard LowPages).Admits (SlabRun.boot links mem) ops) :
    let r := slabMachine.run (SlabRun.boot links mem) ops
    (∃ lists chain, SlabSafe r lists chain) ∧ ReturnsOnce r := by
  intro r
  have inv : RunInv r := by
    show RunInv (slabMachine.run _ _)
    rw [← slabMachine.guard_run LowPages]
    exact (slabMachine.guard LowPages).run_invariant (I := RunInv)
      (fun r op inv enabled => slabStep_inv inv enabled.1 enabled.2) (runInv_boot links mem) admitted
  obtain ⟨lists, chain, inv, settled⟩ := inv
  refine ⟨⟨lists, chain, slabSafe_of_inv inv settled⟩, fun l hl => ?_⟩
  obtain ⟨-, -, -, -, released⟩ := inv.kfree settled hl
  exact released

/-- Blocks that start at different pages and have one page each are disjoint. -/
theorem single_pages_disjoint {p q : Nat} (ne : p ≠ q) : Disjoint (dyadic (p, 0)) (dyadic (q, 0)) := by
  rw [Set.disjoint_left]
  intro x inP inQ
  rw [mem_dyadic] at inP inQ
  omega

/-- An object and a block of pages are taken, written and given back. -/
theorem kmalloc_safe_round_trip :
    let ops := [.kmalloc 100 (some 0x100), .kzalloc 4096 (some 0x200), .write 0x100028 7,
      .kfree 0x100028]
    (slabMachine.guard LowPages).Admits (SlabRun.boot ⟨id, id⟩ fun _ => 0) ops ∧
      ReturnsOnce (slabMachine.run (SlabRun.boot ⟨id, id⟩ fun _ => 0) ops) := by
  intro ops
  have taken : (slabMachine.run (SlabRun.boot ⟨id, id⟩ fun _ => 0) (ops.take 1)).mem.taken =
      [(0x100, 0)] := by decide +kernel
  have live : ∀ n ∈ [2, 3], ⟨0x100028, 100⟩ ∈
      (slabMachine.run (SlabRun.boot ⟨id, id⟩ fun _ => 0) (ops.take n)).live := by decide +kernel
  have one : requestOrder 100 = 0 ∧ requestOrder 4096 = 0 := by decide +kernel
  have admitted : (slabMachine.guard LowPages).Admits (SlabRun.boot ⟨id, id⟩ fun _ => 0) ops := by
    refine ⟨⟨?_, ?_⟩, ⟨?_, ?_⟩, ⟨⟨_, live 2 (by simp), ?_⟩, trivial⟩,
      ⟨⟨_, live 3 (by simp), rfl⟩, trivial⟩, trivial⟩
    · rintro page ⟨⟩
      rw [one.1]
      exact ⟨by decide, by simp, by decide, by simp [SlabRun.boot, slabInit_taken]⟩
    · rintro page ⟨⟩
      decide
    · rintro page ⟨⟩
      rw [one.2]
      refine ⟨by decide, by simp, by decide, fun b inside => ?_⟩
      have only : b ∈ [((0x100 : Nat), 0)] := taken ▸ inside
      rw [List.mem_singleton.1 only]
      exact single_pages_disjoint (by decide)
    · rintro page ⟨⟩
      decide
    · exact ⟨by decide, by decide⟩
  exact ⟨admitted, (kmalloc_safe ⟨id, id⟩ (fun _ => 0) ops admitted).2⟩

/-- **Two pages 4 GiB apart get one address.**  Both requests succeed with pages
of their own, and return the same pointer. -/
theorem pages_above_4G_alias :
    let ops := [.kmalloc 4096 (some 0x100), .kmalloc 4096 (some 0x100100)]
    slabMachine.Admits (SlabRun.boot ⟨id, id⟩ fun _ => 0) ops ∧
      ¬ ∃ lists chain,
        SlabSafe (slabMachine.run (SlabRun.boot ⟨id, id⟩ fun _ => 0) ops) lists chain := by
  intro ops
  have taken : (slabMachine.run (SlabRun.boot ⟨id, id⟩ fun _ => 0) (ops.take 1)).mem.taken =
      [(0x100, 0)] := by decide +kernel
  have live : (slabMachine.run (SlabRun.boot ⟨id, id⟩ fun _ => 0) ops).live =
      [⟨0x100000, 4096⟩, ⟨0x100000, 4096⟩] := by decide +kernel
  have one : requestOrder 4096 = 0 := by decide +kernel
  refine ⟨⟨?_, ?_, trivial⟩, ?_⟩
  · rintro page ⟨⟩
    rw [one]
    exact ⟨by decide, by simp, by decide, by simp [SlabRun.boot, slabInit_taken]⟩
  · rintro page ⟨⟩
    rw [one]
    refine ⟨by decide, by simp, by decide, fun b inside => ?_⟩
    have only : b ∈ [((0x100 : Nat), 0)] := taken ▸ inside
    rw [List.mem_singleton.1 only]
    exact single_pages_disjoint (by decide)
  · rintro ⟨lists, chain, safe⟩
    have apart := safe.apart
    rw [live] at apart
    have overlap := (List.pairwise_cons.1 apart).1 _ List.mem_cons_self
    have inside : 0x100000 ∈ Set.Ico 0x100000 (0x100000 + 4096) := ⟨by decide, by decide⟩
    exact Set.disjoint_left.1 overlap inside inside

end Minus.Mm.Slab
