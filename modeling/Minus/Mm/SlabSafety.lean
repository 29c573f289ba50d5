/-
# Mm.SlabSafety — live objects never overlap

The invariant of `Mm.Slab` over the lists of slabs of each cache and the chain
of free objects of each slab.  Every operation works on one page: `SlabInv.focus`
says once that whatever keeps to the page of a slab keeps the invariant of all
the others, and the cases of `kmalloc` and `kfree` are instances of it.

The pages must lie below 4 GiB.  `page_to_virt` shifts in 32 bits, so two pages
that are 4 GiB apart get the same address (`pages_above_4G_alias`).
-/
import Mathlib.Data.List.Pairwise
import Minus.Mm.Slab

namespace Minus.Mm.Slab

set_option autoImplicit false

open Minus.Theory Minus.Lib.Dlist
open Minus.Mm.Buddy (Pfn getOrder)

/-! ## Objects and addresses -/

/-- `obj_size` of kmalloc cache `i`. -/
def objSize (i : Nat) : Nat := 2 ^ (i + 3)

/-- `num` of kmalloc cache `i`. -/
def objNum (i : Nat) : Nat := (pageSize - slabSize) / objSize i

/-- The address of object `idx` of the slab at `a`. -/
def object (i a idx : Nat) : Nat := a + slabSize + idx * objSize i

theorem cache_bounds : ∀ i < kmallocCachesNum,
    0 < objNum i ∧ slabSize + objNum i * objSize i ≤ pageSize ∧ 8 ≤ objSize i ∧
      objSize i % 8 = 0 ∧ objNum i < 2 ^ 32 - 1 := by decide

section Addresses

variable {i a idx : Nat}

/-- The objects of a slab end within its page. -/
theorem object_end (below : i < kmallocCachesNum) (small : idx < objNum i) :
    object i a idx + objSize i ≤ a + pageSize := by
  obtain ⟨-, fits, -⟩ := cache_bounds i below
  have upTo : (idx + 1) * objSize i ≤ objNum i * objSize i := Nat.mul_le_mul_right _ small
  rw [Nat.succ_mul] at upTo
  unfold object
  omega

theorem object_page (below : i < kmallocCachesNum) (small : idx < objNum i)
    (aligned : a % pageSize = 0) {x : Nat} (low : object i a idx ≤ x)
    (high : x < object i a idx + objSize i) : x / pageSize = a / pageSize := by
  have fits := object_end (a := a) below small
  unfold object pageSize slabSize at *
  omega

/-- Two objects of a slab do not overlap. -/
theorem object_apart (i a : Nat) {idx idx' : Nat} (ne : idx ≠ idx') :
    object i a idx + objSize i ≤ object i a idx' ∨ object i a idx' + objSize i ≤ object i a idx := by
  unfold object
  rcases Nat.lt_or_gt_of_ne ne with less | more
  · have step : (idx + 1) * objSize i ≤ idx' * objSize i := Nat.mul_le_mul_right _ less
    rw [Nat.succ_mul] at step
    omega
  · have step : (idx' + 1) * objSize i ≤ idx * objSize i := Nat.mul_le_mul_right _ more
    rw [Nat.succ_mul] at step
    omega

theorem object_inj {idx' : Nat} (below : i < kmallocCachesNum)
    (same : object i a idx = object i a idx') : idx = idx' := by
  by_contra ne
  obtain ⟨-, -, positive, -⟩ := cache_bounds i below
  rcases object_apart i a ne with apart | apart <;> omega

end Addresses

/-! ## The chain of free objects -/

/-- Following the links in memory from index `first` visits the objects `chain`
and then reads `SLAB_MAGIC_END`. -/
def FreeChain (mem : Bytes) (i a : Nat) : UInt32 → List Nat → Prop
  | first, [] => first = slabMagicEnd
  | first, idx :: rest =>
      first = UInt32.ofNat idx ∧ FreeChain mem i a (load32 mem (object i a idx)) rest

theorem FreeChain.congr {mem mem' : Bytes} {i a : Nat} {first : UInt32} {chain : List Nat}
    (follows : FreeChain mem i a first chain)
    (same : ∀ idx ∈ chain, load32 mem' (object i a idx) = load32 mem (object i a idx)) :
    FreeChain mem' i a first chain := by
  induction chain generalizing first with
  | nil => exact follows
  | cons idx rest ih =>
      obtain ⟨head, tail⟩ := follows
      refine ⟨head, ?_⟩
      rw [same idx List.mem_cons_self]
      exact ih tail fun j member => same j (List.mem_cons_of_mem _ member)

/-- A chain ends exactly at the magic number, since indexes are smaller. -/
theorem FreeChain.end_iff {mem : Bytes} {i a : Nat} {first : UInt32} {chain : List Nat}
    (follows : FreeChain mem i a first chain) (below : i < kmallocCachesNum)
    (small : ∀ idx ∈ chain, idx < objNum i) : first = slabMagicEnd ↔ chain = [] := by
  cases chain with
  | nil => exact iff_of_true follows rfl
  | cons idx rest =>
      obtain ⟨rfl, -⟩ := follows
      refine iff_of_false (fun same => ?_) (by simp)
      obtain ⟨-, -, -, -, few⟩ := cache_bounds i below
      have := small idx List.mem_cons_self
      have value := congrArg UInt32.toNat same
      simp [slabMagicEnd] at value
      omega

/-- A chain without repetition is no longer than the number of objects. -/
theorem length_le_of_small {chain : List Nat} (num : Nat) (nodup : chain.Nodup)
    (small : ∀ idx ∈ chain, idx < num) : chain.length ≤ num := by
  have counted : chain.length ≤ (List.range num).length :=
    (List.subperm_of_subset nodup fun idx member => List.mem_range.2 (small idx member)).length_le
  rwa [List.length_range] at counted

theorem linkLoop_load {mem : Bytes} {sMem size : Nat} (wide : 4 ≤ size) (num idx : Nat)
    (small : idx < num) :
    load32 (linkLoop mem sMem size num) (sMem + idx * size) = UInt32.ofNat (idx + 1) := by
  induction num with
  | zero => cases small
  | succ num ih =>
      have unfolded : linkLoop mem sMem size (num + 1) =
          store32 (linkLoop mem sMem size num) (sMem + num * size) (UInt32.ofNat (num + 1)) := by
        simp [linkLoop, List.range_succ]
      rw [unfolded]
      by_cases last : idx = num
      · rw [last, load32_store32]
      · have before : (idx + 1) * size ≤ num * size := Nat.mul_le_mul_right _ (by omega)
        rw [Nat.succ_mul] at before
        rw [load32_store32_of_apart _ _ (Or.inl (by omega))]
        exact ih (by omega)

/-- The links `kmem_cache_grow` writes chain all the objects in order. -/
theorem linkObjects_chain (mem : Bytes) {i : Nat} (below : i < kmallocCachesNum) (a : Nat) :
    FreeChain (linkObjects mem (a + slabSize) (objSize i) (objNum i)) i a 0
      (List.range (objNum i)) := by
  obtain ⟨positive, -, wide, -⟩ := cache_bounds i below
  generalize size : objNum i = num at positive
  have link : ∀ idx, idx < num → load32 (linkObjects mem (a + slabSize) (objSize i) num)
      (object i a idx) = if idx + 1 = num then slabMagicEnd else UInt32.ofNat (idx + 1) := by
    intro idx small
    unfold linkObjects object
    split
    · rename_i last
      rw [show num - 1 = idx by omega, load32_store32]
    · have before : (idx + 1) * objSize i ≤ (num - 1) * objSize i :=
        Nat.mul_le_mul_right _ (by omega)
      rw [Nat.succ_mul] at before
      rw [load32_store32_of_apart _ _ (Or.inl (by omega))]
      exact linkLoop_load (by omega) num idx small
  -- From any index on, the chain runs to the end.
  have from_ : ∀ len start, start + len = num → 0 < len →
      FreeChain (linkObjects mem (a + slabSize) (objSize i) num) i a (UInt32.ofNat start)
        (List.range' start len) := by
    intro len
    induction len with
    | zero => intro _ _ none_; cases none_
    | succ len ih =>
        intro start total _
        rw [List.range'_succ]
        refine ⟨rfl, ?_⟩
        rw [link start (by omega)]
        cases len with
        | zero =>
            rw [if_pos (by omega)]
            exact rfl
        | succ len =>
            rw [if_neg (by omega)]
            exact ih (start + 1) (by omega) (by omega)
  have whole := from_ num 0 (by omega) positive
  rwa [← List.range_eq_range'] at whole

theorem linkObjects_outside (mem : Bytes) {i a x : Nat} (below : i < kmallocCachesNum)
    (aligned : a % pageSize = 0) (outside : x / pageSize ≠ a / pageSize) :
    linkObjects mem (a + slabSize) (objSize i) (objNum i) x = mem x := by
  obtain ⟨positive, -, wide, -⟩ := cache_bounds i below
  have notLink : ∀ idx, idx < objNum i →
      x ∉ Set.Ico (a + slabSize + idx * objSize i) (a + slabSize + idx * objSize i + 4) := by
    intro idx small inside
    refine outside (object_page below small aligned inside.1 ?_)
    have := inside.2
    unfold object
    omega
  have loop : ∀ n ≤ objNum i, linkLoop mem (a + slabSize) (objSize i) n x = mem x := by
    intro n
    induction n with
    | zero => intro _; rfl
    | succ n ih =>
        intro more
        simp only [linkLoop, List.range_succ, List.foldl_append, List.foldl_cons, List.foldl_nil]
        rw [store32_outside _ _ (notLink n (by omega))]
        exact ih (by omega)
  rw [linkObjects, store32_outside _ _ (notLink (objNum i - 1) (by omega))]
  exact loop (objNum i) le_rfl

/-! ## The invariant -/

/-- The slab at `a` is on some list of cache `i`. -/
def Listed (lists : SlabList × Nat → List Nat) (i a : Nat) : Prop :=
  i < kmallocCachesNum ∧ ∃ list, a ∈ lists (list, i)

/-- The allocation is an object of a slab. -/
def OnSlab (lists : SlabList × Nat → List Nat) (l : Alloc) : Prop :=
  ∃ i a idx, Listed lists i a ∧ idx < objNum i ∧ l.ptr = object i a idx ∧ l.size ≤ objSize i

/-- The allocation is a block of pages of its own. -/
def OnPages (s : SlabState) (l : Alloc) : Prop :=
  ∃ page order : Nat, (page, order) ∈ s.taken ∧ s.inSlab page = false ∧ l.ptr = page * pageSize ∧
    l.size ≤ 2 ^ order * pageSize

/-- The slab at `a`: its page, its descriptor, and the chain of exactly the
objects that are not live. -/
structure SlabAt (s : SlabState) (live : List Alloc) (i a : Nat) (chain : List Nat) : Prop where
  aligned : a % pageSize = 0
  taken : (a / pageSize, 0) ∈ s.taken
  cachep : (s.slabs a).cachep = i
  sMem : (s.slabs a).sMem = a + slabSize
  inuse : (s.slabs a).inuse = UInt32.ofNat (objNum i - chain.length)
  follows : FreeChain s.mem i a (s.slabs a).free chain
  nodup : chain.Nodup
  small : ∀ idx ∈ chain, idx < objNum i
  objects : ∀ idx < objNum i, idx ∈ chain ↔ ∀ l ∈ live, l.ptr ≠ object i a idx

/-- What holds at every point of an operation. -/
structure SlabInv (s : SlabState) (lists : SlabList × Nat → List Nat) (chain : Nat → List Nat)
    (live : List Alloc) : Prop where
  caches : ∀ i < kmallocCachesNum, s.caches i = ⟨objSize i, 8, objNum i⟩
  family : s.links.Family (fun h : SlabList × Nat => h.2 < kmallocCachesNum)
    (fun h => Node.head h.1 h.2) fun h => (lists h).map Node.slab
  slab : ∀ i a, Listed lists i a → SlabAt s live i a (chain a)
  inSlab : ∀ page, s.inSlab page = true ↔ ∃ i, Listed lists i (page * pageSize)
  apart : s.taken.Pairwise fun b c => Disjoint (dyadic b) (dyadic c)
  low : ∀ b ∈ s.taken, b.1 + 2 ^ b.2 ≤ 2 ^ 20
  owned : ∀ b ∈ s.taken, s.inSlab b.1 = false → ∃ l ∈ live, l.ptr = b.1 * pageSize
  placed : ∀ l ∈ live, 0 < l.size ∧ (OnSlab lists l ∨ OnPages s l)
  nodup : (live.map Alloc.ptr).Nodup
  noFault : s.fault = false

/-- What a slab with this chain of free objects does on a list. -/
def Fits (i : Nat) (chain : List Nat) : SlabList → Prop
  | .slabsPartial => chain ≠ [] ∧ chain.length < objNum i
  | .slabsFull => chain = []
  | .slabsFree => False

/-- The discipline of the lists between operations. -/
def Settled (lists : SlabList × Nat → List Nat) (chain : Nat → List Nat) : Prop :=
  ∀ list i, i < kmallocCachesNum → ∀ a ∈ lists (list, i), Fits i (chain a) list

namespace SlabInv

variable {s s' : SlabState} {lists lists' : SlabList × Nat → List Nat} {chain chain' : Nat → List Nat}
  {live live' : List Alloc}

/-- A page lies in one block only. -/
theorem block_unique (inv : SlabInv s lists chain live) {b c : Pfn × Nat} (hb : b ∈ s.taken)
    (hc : c ∈ s.taken) {q : Nat} (inB : q ∈ dyadic b) (inC : q ∈ dyadic c) : b = c := by
  by_contra ne
  have : Std.Symm fun b c : Pfn × Nat => Disjoint (dyadic b) (dyadic c) := ⟨fun _ _ h => h.symm⟩
  have apart := inv.apart.forall hb hc ne
  exact Set.disjoint_left.1 apart inB inC

/-- The page of a slab is below 4 GiB, so the page macros are inverse there. -/
theorem slab_low (inv : SlabInv s lists chain live) {i a : Nat} (listed : Listed lists i a) :
    a / pageSize + 1 ≤ 2 ^ 20 := by
  simpa using inv.low _ (inv.slab i a listed).taken

theorem slab_page {i a : Nat} {c : List Nat} (slab : SlabAt s live i a c) :
    a / pageSize * pageSize = a := by
  have := slab.aligned
  unfold pageSize at *
  omega

/-- The page of a slab is marked as one. -/
theorem marked (inv : SlabInv s lists chain live) {i a : Nat} (listed : Listed lists i a) :
    s.inSlab (a / pageSize) = true :=
  (inv.inSlab _).2 ⟨i, by rwa [slab_page (inv.slab i a listed)]⟩

/-- An object starts on the page of its slab. -/
theorem start_page (inv : SlabInv s lists chain live) {i a idx x : Nat} (listed : Listed lists i a)
    (small : idx < objNum i) (ptr : x = object i a idx) : x / pageSize = a / pageSize := by
  obtain ⟨-, -, wide, -⟩ := cache_bounds i listed.1
  exact object_page listed.1 small (inv.slab i a listed).aligned (le_of_eq ptr.symm) (by omega)

/-- From an object to its page, and from the page to the slab. -/
theorem converts (inv : SlabInv s lists chain live) {i a idx x : Nat} (listed : Listed lists i a)
    (small : idx < objNum i) (ptr : x = object i a idx) :
    virtToPage x = a / pageSize ∧ pageToVirt (a / pageSize) = a := by
  have lowPage := inv.slab_low listed
  constructor
  · rw [virtToPage, inv.start_page listed small ptr]
    exact Nat.mod_eq_of_lt (by omega)
  · rw [pageToVirt, slab_page (inv.slab i a listed)]
    exact Nat.mod_eq_of_lt (by unfold pageSize at lowPage; omega)

/-- **One page at a time.**  A change that keeps to the page of the slab at `a`
keeps the invariant, if the slab is in order afterwards or on no list. -/
theorem focus (inv : SlabInv s lists chain live) {a : Nat} (aligned : a % pageSize = 0)
    (caches : s'.caches = s.caches) (fault : s'.fault = s.fault)
    (family : s'.links.Family (fun h : SlabList × Nat => h.2 < kmallocCachesNum)
      (fun h => Node.head h.1 h.2) fun h => (lists' h).map Node.slab)
    (listsOff : ∀ h b, b ≠ a → (b ∈ lists' h ↔ b ∈ lists h))
    (slabsOff : ∀ b, b ≠ a → s'.slabs b = s.slabs b)
    (memOff : ∀ x, x / pageSize ≠ a / pageSize → s'.mem x = s.mem x)
    (inSlabOff : ∀ page, page ≠ a / pageSize → s'.inSlab page = s.inSlab page)
    (takenOff : ∀ b : Pfn × Nat, b.1 ≠ a / pageSize → (b ∈ s'.taken ↔ b ∈ s.taken))
    (apart : s'.taken.Pairwise fun b c => Disjoint (dyadic b) (dyadic c))
    (low : ∀ b ∈ s'.taken, b.1 + 2 ^ b.2 ≤ 2 ^ 20)
    (liveOff : ∀ l : Alloc, l.ptr / pageSize ≠ a / pageSize → (l ∈ live' ↔ l ∈ live))
    (nodup : (live'.map Alloc.ptr).Nodup)
    (chainOff : ∀ b, b ≠ a → chain' b = chain b)
    (slabOn : ∀ i, Listed lists' i a → SlabAt s' live' i a (chain' a))
    (inSlabOn : s'.inSlab (a / pageSize) = true ↔ ∃ i, Listed lists' i a)
    (takenOn : ∀ order, (a / pageSize, order) ∈ s'.taken → s'.inSlab (a / pageSize) = true)
    (liveOn : ∀ l ∈ live', l.ptr / pageSize = a / pageSize → 0 < l.size ∧ OnSlab lists' l) :
    SlabInv s' lists' chain' live' := by
  have here : a / pageSize * pageSize = a := by unfold pageSize at *; omega
  have listedOff : ∀ i b, b ≠ a → (Listed lists' i b ↔ Listed lists i b) := fun i b ne => by
    simp only [Listed, listsOff _ b ne]
  have pageOff : ∀ page, page ≠ a / pageSize → page * pageSize ≠ a := by
    unfold pageSize
    intro page ne same
    omega
  have slabPage : ∀ i b c, SlabAt s live i b c → b ≠ a → b / pageSize ≠ a / pageSize := by
    intro i b c slab ne same
    apply ne
    rw [← slab_page slab, same, here]
  refine ⟨fun i hi => ?_, family, fun i b listed => ?_, fun page => ?_, apart, low,
    fun b member unslabbed => ?_, fun l member => ?_, nodup, fault.trans inv.noFault⟩
  · rw [caches]; exact inv.caches i hi
  · by_cases ne : b = a
    · subst ne; exact slabOn i listed
    · have old := inv.slab i b ((listedOff i b ne).1 listed)
      have away := slabPage i b _ old ne
      have below := listed.1
      rw [chainOff b ne]
      refine ⟨old.aligned, (takenOff _ away).2 old.taken, ?_, ?_, ?_, ?_, old.nodup, old.small,
        fun idx small => ?_⟩
      · rw [slabsOff b ne]; exact old.cachep
      · rw [slabsOff b ne]; exact old.sMem
      · rw [slabsOff b ne]; exact old.inuse
      · rw [slabsOff b ne]
        refine old.follows.congr fun idx member => load32_congr fun x lowX highX => ?_
        obtain ⟨-, -, wide, -⟩ := cache_bounds i below
        apply memOff
        rw [object_page below (old.small idx member) old.aligned lowX (by omega)]
        exact away
      · rw [old.objects idx small]
        obtain ⟨-, -, wide, -⟩ := cache_bounds i below
        have inPage : ∀ l : Alloc, l.ptr = object i b idx → l.ptr / pageSize ≠ a / pageSize := by
          intro l same
          rw [object_page below small old.aligned (le_of_eq same.symm) (by omega)]
          exact away
        constructor
        · exact fun noneOld l member same => noneOld l ((liveOff l (inPage l same)).1 member) same
        · exact fun noneNew l member same => noneNew l ((liveOff l (inPage l same)).2 member) same
  · by_cases ne : page = a / pageSize
    · rw [ne, here]; exact inSlabOn
    · rw [inSlabOff page ne, inv.inSlab page]
      simp only [listedOff _ _ (pageOff page ne)]
  · by_cases ne : b.1 = a / pageSize
    · have taken : (a / pageSize, b.2) ∈ s'.taken := ne ▸ member
      rw [ne, takenOn b.2 taken] at unslabbed
      cases unslabbed
    · rw [inSlabOff b.1 ne] at unslabbed
      obtain ⟨l, old, ptr⟩ := inv.owned b ((takenOff b ne).1 member) unslabbed
      refine ⟨l, (liveOff l ?_).2 old, ptr⟩
      rw [ptr, Nat.mul_div_cancel _ (by decide)]
      exact ne
  · by_cases ne : l.ptr / pageSize = a / pageSize
    · exact ⟨(liveOn l member ne).1, Or.inl (liveOn l member ne).2⟩
    · obtain ⟨size, place⟩ := inv.placed l ((liveOff l ne).1 member)
      refine ⟨size, ?_⟩
      rcases place with ⟨i, b, idx, listed, small, ptr, fits⟩ | ⟨page, order, taken, off, ptr, fits⟩
      · left
        have old := inv.slab i b listed
        obtain ⟨-, -, wide, -⟩ := cache_bounds i listed.1
        have away : b ≠ a := by
          rintro rfl
          exact ne (object_page listed.1 small old.aligned (le_of_eq ptr.symm) (by omega))
        exact ⟨i, b, idx, (listedOff i b away).2 listed, small, ptr, fits⟩
      · right
        have away : page ≠ a / pageSize := by
          rintro rfl
          apply ne
          rw [ptr, here]
        exact ⟨page, order, (takenOff _ away).2 taken, by rw [inSlabOff page away]; exact off, ptr,
          fits⟩

/-- Moving a slab to another list of its cache. -/
def moved (lists : SlabList × Nat → List Nat) (source target : SlabList) (i a : Nat) :
    SlabList × Nat → List Nat :=
  Function.update (Function.update lists (source, i) ((lists (source, i)).erase a)) (target, i)
    (a :: lists (target, i))

theorem mem_moved_of_ne {source target : SlabList} {i a b : Nat} {h : SlabList × Nat} (ne : b ≠ a) :
    b ∈ moved lists source target i a h ↔ b ∈ lists h := by
  unfold moved
  by_cases atTarget : h = (target, i)
  · subst atTarget
    simp [ne]
  · rw [Function.update_of_ne atTarget]
    by_cases atSource : h = (source, i)
    · subst atSource
      rw [Function.update_self, List.mem_erase_of_ne ne]
    · rw [Function.update_of_ne atSource]

theorem update_map (lists : SlabList × Nat → List Nat) (h : SlabList × Nat) (l : List Nat) :
    (fun k => (Function.update lists h l k).map Node.slab) =
      Function.update (fun k => (lists k).map Node.slab) h (l.map Node.slab) := by
  funext k
  by_cases here : k = h
  · subst here; simp
  · simp [here]

theorem map_erase_slab (l : List Nat) (a : Nat) :
    (l.erase a).map Node.slab = (l.map Node.slab).erase (Node.slab a) :=
  List.map_erase (fun _ _ same => Node.slab.inj same) l

/-- A slab is on one list, once. -/
theorem not_mem_of_mem (inv : SlabInv s lists chain live) {h k : SlabList × Nat} {a : Nat}
    (hh : h.2 < kmallocCachesNum) (hk : k.2 < kmallocCachesNum) (member : a ∈ lists h)
    (ne : k ≠ h) : a ∉ lists k := fun other =>
  inv.family.apart h k hh hk ne.symm (List.mem_cons_of_mem _ (List.mem_map_of_mem member))
    (List.mem_cons_of_mem _ (List.mem_map_of_mem other))

theorem nodup_list (inv : SlabInv s lists chain live) {h : SlabList × Nat}
    (hh : h.2 < kmallocCachesNum) : (lists h).Nodup :=
  (List.nodup_cons.1 (inv.family.ring h hh).nodup).2.of_map _

/-- `dlist_del` takes the slab off every list. -/
theorem erased (inv : SlabInv s lists chain live) {h k : SlabList × Nat} {a : Nat}
    (hh : h.2 < kmallocCachesNum) (hk : k.2 < kmallocCachesNum) (member : a ∈ lists h) :
    a ∉ Function.update lists h ((lists h).erase a) k := by
  by_cases here : k = h
  · subst here
    rw [Function.update_self, (inv.nodup_list hh).mem_erase_iff]
    simp
  · rw [Function.update_of_ne here]
    exact inv.not_mem_of_mem hh hk member here

theorem family_del (inv : SlabInv s lists chain live) {h : SlabList × Nat} {a : Nat}
    (hh : h.2 < kmallocCachesNum) (member : a ∈ lists h) :
    (dlistDel s.links (.slab a)).Family (fun h : SlabList × Nat => h.2 < kmallocCachesNum)
      (fun h => Node.head h.1 h.2)
      fun k => (Function.update lists h ((lists h).erase a) k).map Node.slab := by
  rw [update_map, map_erase_slab]
  exact dlistDel_family inv.family hh (List.mem_map_of_mem member)

/-- **Moving a slab** between two lists of its cache changes nothing else. -/
theorem move (inv : SlabInv s lists chain live) {source : SlabList} (target : SlabList)
    {i a : Nat} (below : i < kmallocCachesNum) (member : a ∈ lists (source, i)) (ne : target ≠ source) :
    SlabInv (moveSlab s target i a) (moved lists source target i a) chain live := by
  have targetKept : Function.update lists (source, i) ((lists (source, i)).erase a) (target, i) =
      lists (target, i) := Function.update_of_ne (by simp [ne]) _ _
  have listed : ∀ j b, Listed (moved lists source target i a) j b ↔ Listed lists j b := by
    intro j b
    by_cases here : b = a
    · subst here
      constructor
      · rintro ⟨hj, list, inside⟩
        refine ⟨hj, ?_⟩
        by_cases same : j = i
        · exact ⟨source, same ▸ member⟩
        · have other : ∀ l : SlabList, (list, j) ≠ (l, i) := by simp [same]
          rw [moved, Function.update_of_ne (other _), Function.update_of_ne (other _)] at inside
          exact ⟨list, inside⟩
      · rintro ⟨hj, list, inside⟩
        have same : j = i := by
          by_contra other
          exact inv.not_mem_of_mem below hj member (k := (list, j)) (by simp [other]) inside
        exact ⟨hj, target, by simp [moved, same]⟩
    · simp only [Listed, mem_moved_of_ne here]
  refine ⟨inv.caches, ?_, fun j b hb => ?_, fun page => ?_, inv.apart, inv.low, inv.owned,
    fun l hl => ?_, inv.nodup, inv.noFault⟩
  · have added := dlistAdd_family (inv.family_del below member) (i := (target, i)) below
      (x := .slab a) fun k hk => by
        simpa using inv.erased below hk member
    rw [← List.map_cons, ← update_map, targetKept] at added
    exact added
  · have old := inv.slab j b ((listed j b).1 hb)
    exact ⟨old.aligned, old.taken, old.cachep, old.sMem, old.inuse, old.follows, old.nodup,
      old.small, old.objects⟩
  · simp only [listed]
    exact inv.inSlab page
  · obtain ⟨size, place⟩ := inv.placed l hl
    refine ⟨size, place.imp_left ?_⟩
    rintro ⟨j, b, idx, hb, rest⟩
    exact ⟨j, b, idx, (listed j b).2 hb, rest⟩

/-- The slab at `a` after its object `idx` was taken off the chain. -/
def popped (s : SlabState) (i a idx : Nat) : SlabState :=
  let d := s.slabs a
  let d := { d with free := load32 s.mem (object i a idx), inuse := d.inuse + 1 }
  { s with slabs := Function.update s.slabs a d }

/-- **Taking an object.**  The first index of the chain becomes a live object. -/
theorem pop (inv : SlabInv s lists chain live) {i a idx : Nat} {rest : List Nat}
    (listed : Listed lists i a) (list : chain a = idx :: rest) {size : Nat} (positive : 0 < size)
    (fits : size ≤ objSize i) :
    SlabInv (popped s i a idx) lists (Function.update chain a rest)
      (⟨object i a idx, size⟩ :: live) ∧
    (s.slabs a).free = UInt32.ofNat idx ∧ idx < objNum i ∧
    FreeChain s.mem i a (load32 s.mem (object i a idx)) rest := by
  have slab := inv.slab i a listed
  rw [list] at slab
  have below := listed.1
  obtain ⟨-, -, wide, -⟩ := cache_bounds i below
  obtain ⟨first, follows⟩ := slab.follows
  have small : idx < objNum i := slab.small idx List.mem_cons_self
  obtain ⟨notRest, nodupRest⟩ := List.nodup_cons.1 slab.nodup
  have page : object i a idx / pageSize = a / pageSize :=
    object_page below small slab.aligned le_rfl (by omega)
  have unused : ∀ l ∈ live, l.ptr ≠ object i a idx :=
    (slab.objects idx small).1 List.mem_cons_self
  refine ⟨inv.focus slab.aligned rfl rfl inv.family (fun _ _ _ => Iff.rfl) ?_ (fun _ _ => rfl)
    (fun _ _ => rfl) (fun _ _ => Iff.rfl) inv.apart inv.low ?_ ?_ ?_ ?_ ?_ ?_ ?_, first, small,
    follows⟩
  · exact fun b ne => Function.update_of_ne ne _ _
  · intro l away
    have ne : l ≠ ⟨object i a idx, size⟩ := by
      rintro rfl
      exact away page
    simp [ne]
  · rw [List.map_cons, List.nodup_cons]
    refine ⟨fun member => ?_, inv.nodup⟩
    obtain ⟨l, hl, same⟩ := List.mem_map.1 member
    exact unused l hl same
  · exact fun b ne => Function.update_of_ne ne _ _
  · intro j hj
    have sameCache : j = i := by
      have := (inv.slab j a hj).cachep
      rw [slab.cachep] at this
      exact this.symm
    subst sameCache
    have room : rest.length + 1 ≤ objNum j := by
      have := length_le_of_small _ slab.nodup slab.small
      simpa using this
    refine ⟨slab.aligned, slab.taken, ?_, ?_, ?_, ?_, ?_, ?_, fun k hk => ?_⟩
    · simpa [popped] using slab.cachep
    · simpa [popped] using slab.sMem
    · simp only [popped, Function.update_self]
      rw [slab.inuse, show objNum j - rest.length = objNum j - (idx :: rest).length + 1 by
        simp; omega, UInt32.ofNat_add]
      rfl
    · simpa [popped] using follows
    · simpa using nodupRest
    · intro k member
      rw [Function.update_self] at member
      exact slab.small k (List.mem_cons_of_mem _ member)
    · rw [Function.update_self]
      constructor
      · intro member l hl same
        rcases List.mem_cons.1 hl with rfl | hl
        · have eq : idx = k := object_inj below same
          exact notRest (eq ▸ member)
        · exact (slab.objects k hk).1 (List.mem_cons_of_mem _ member) l hl same
      · intro none_
        have inOld := (slab.objects k hk).2 fun l hl => none_ l (List.mem_cons_of_mem _ hl)
        rcases List.mem_cons.1 inOld with rfl | inRest
        · exact absurd rfl (none_ _ List.mem_cons_self)
        · exact inRest
  · show s.inSlab _ = true ↔ _
    rw [inv.inSlab, slab_page slab]
  · intro order _
    have on := inv.marked listed
    exact on
  · intro l hl onPage
    rcases List.mem_cons.1 hl with rfl | hl
    · exact ⟨positive, i, a, idx, listed, small, rfl, fits⟩
    · obtain ⟨size', place⟩ := inv.placed l hl
      refine ⟨size', place.resolve_right ?_⟩
      rintro ⟨page', order, taken, off, ptr, -⟩
      rw [ptr, Nat.mul_div_cancel _ (by decide)] at onPage
      have on := inv.marked listed
      rw [onPage, on] at off
      cases off

/-- The slab at `a` after its object `idx` was put back on the chain. -/
def pushed (s : SlabState) (i a idx : Nat) : SlabState :=
  let d := s.slabs a
  { s with
    mem := store32 s.mem (object i a idx) d.free
    slabs := Function.update s.slabs a
      { d with free := UInt32.ofNat idx, inuse := d.inuse - 1 } }

/-- A live object is not on its slab's chain, so there is room for it. -/
theorem room (inv : SlabInv s lists chain live) {i a idx : Nat} (listed : Listed lists i a)
    (small : idx < objNum i) {l : Alloc} (member : l ∈ live) (ptr : l.ptr = object i a idx) :
    idx ∉ chain a ∧ (chain a).length + 1 ≤ objNum i := by
  have slab := inv.slab i a listed
  have absent : idx ∉ chain a := fun inside => (slab.objects idx small).1 inside l member ptr
  refine ⟨absent, ?_⟩
  have counted := length_le_of_small (objNum i)
    (List.nodup_cons.2 ⟨absent, slab.nodup⟩) fun k inside => by
      rcases List.mem_cons.1 inside with rfl | inside
      · exact small
      · exact slab.small k inside
  simpa using counted

/-- **Giving an object back.**  It goes to the front of the chain. -/
theorem push (inv : SlabInv s lists chain live) {i a idx : Nat} (listed : Listed lists i a)
    (small : idx < objNum i) {l : Alloc} (member : l ∈ live) (ptr : l.ptr = object i a idx) :
    SlabInv (pushed s i a idx) lists (Function.update chain a (idx :: chain a))
      (live.filter (·.ptr != object i a idx)) := by
  have slab := inv.slab i a listed
  have below := listed.1
  obtain ⟨-, -, wide, -⟩ := cache_bounds i below
  obtain ⟨absent, room⟩ := inv.room listed small member ptr
  have page : object i a idx / pageSize = a / pageSize :=
    object_page below small slab.aligned le_rfl (by omega)
  have on := inv.marked listed
  refine inv.focus slab.aligned rfl rfl inv.family (fun _ _ _ => Iff.rfl) ?_ ?_
    (fun _ _ => rfl) (fun _ _ => Iff.rfl) inv.apart inv.low ?_ ?_ ?_ ?_ ?_ ?_ ?_
  · exact fun b ne => Function.update_of_ne ne _ _
  · intro x away
    refine store32_outside _ _ fun inside => away ?_
    exact object_page below small slab.aligned inside.1 (by have := inside.2; omega)
  · intro k away
    have ne : k.ptr ≠ object i a idx := by
      intro same
      rw [same] at away
      exact away page
    simp [ne]
  · exact inv.nodup.sublist (List.filter_sublist.map _)
  · exact fun b ne => Function.update_of_ne ne _ _
  · intro j hj
    have sameCache : j = i := (inv.slab j a hj).cachep.symm.trans slab.cachep
    subst sameCache
    refine ⟨slab.aligned, slab.taken, ?_, ?_, ?_, ?_, ?_, ?_, fun k hk => ?_⟩
    · simpa [pushed] using slab.cachep
    · simpa [pushed] using slab.sMem
    · simp only [pushed, Function.update_self]
      rw [slab.inuse, show objNum j - (chain a).length = objNum j - (idx :: chain a).length + 1 by
        simp; omega, UInt32.ofNat_add]
      exact UInt32.add_sub_cancel _ _
    · simp only [pushed, Function.update_self]
      refine ⟨rfl, ?_⟩
      rw [load32_store32]
      refine slab.follows.congr fun k inside => load32_store32_of_apart _ _ ?_
      have other : k ≠ idx := fun same => absent (same ▸ inside)
      have apart := object_apart j a other
      omega
    · simpa using List.nodup_cons.2 ⟨absent, slab.nodup⟩
    · intro k inside
      rw [Function.update_self] at inside
      rcases List.mem_cons.1 inside with rfl | inside
      · exact small
      · exact slab.small k inside
    · rw [Function.update_self, List.mem_cons, slab.objects k hk]
      constructor
      · rintro (rfl | none_) l' hl'
        · simpa using (List.mem_filter.1 hl').2
        · exact none_ l' (List.mem_filter.1 hl').1
      · intro none_
        by_cases same : k = idx
        · exact Or.inl same
        · refine Or.inr fun l' hl' same' => none_ l' (List.mem_filter.2 ⟨hl', ?_⟩) same'
          rw [bne_iff_ne, same']
          exact fun eq => same (object_inj below eq)
  · show s.inSlab _ = true ↔ _
    rw [inv.inSlab, slab_page slab]
  · exact fun _ _ => on
  · intro l' hl' onPage
    obtain ⟨size', place⟩ := inv.placed l' (List.mem_filter.1 hl').1
    refine ⟨size', place.resolve_right ?_⟩
    rintro ⟨page', order, taken, off, ptr', -⟩
    rw [ptr', Nat.mul_div_cancel _ (by decide)] at onPage
    rw [onPage, on] at off
    cases off

/-- The slab at `a` leaves its list, and its page goes back. -/
def dropped (s : SlabState) (a : Nat) : SlabState :=
  buddyFreePages { s with
    links := dlistDel s.links (.slab a)
    inSlab := Function.update s.inSlab (a / pageSize) false } (a / pageSize)

/-- **Giving a slab back** whose objects are all free. -/
theorem drop (inv : SlabInv s lists chain live) {list : SlabList} {i a : Nat}
    (below : i < kmallocCachesNum) (member : a ∈ lists (list, i))
    (whole : (chain a).length = objNum i) :
    SlabInv (dropped s a) (Function.update lists (list, i) ((lists (list, i)).erase a)) chain
      live := by
  have slab := inv.slab i a ⟨below, list, member⟩
  have all : ∀ idx < objNum i, idx ∈ chain a := by
    intro idx small
    by_contra absent
    have counted := length_le_of_small (objNum i)
      (List.nodup_cons.2 ⟨absent, slab.nodup⟩) fun k inside => by
        rcases List.mem_cons.1 inside with rfl | inside
        · exact small
        · exact slab.small k inside
    rw [List.length_cons] at counted
    omega
  have on := inv.marked ⟨below, list, member⟩
  have gone : ∀ j, ¬ Listed (Function.update lists (list, i) ((lists (list, i)).erase a)) j a :=
    fun j => fun ⟨hj, l, inside⟩ => inv.erased (h := (list, i)) below hj member inside
  refine inv.focus slab.aligned rfl rfl (inv.family_del below member) ?_ (fun _ _ => rfl)
    (fun _ _ => rfl) ?_ ?_ ?_ ?_ (fun _ _ => Iff.rfl) inv.nodup (fun _ _ => rfl) ?_ ?_ ?_ ?_
  · intro h b ne
    by_cases here : h = (list, i)
    · subst here
      rw [Function.update_self, List.mem_erase_of_ne ne]
    · rw [Function.update_of_ne here]
  · exact fun page ne => Function.update_of_ne ne _ _
  · intro b ne
    simp [dropped, buddyFreePages, ne]
  · exact inv.apart.sublist List.filter_sublist
  · exact fun b hb => inv.low b (List.mem_filter.1 hb).1
  · exact fun j hj => absurd hj (gone j)
  · simp [dropped, buddyFreePages, gone]
  · intro order taken
    simp [dropped, buddyFreePages] at taken
  · intro l hl onPage
    obtain ⟨-, place⟩ := inv.placed l hl
    rcases place with ⟨j, b, idx, listed, small, ptr, -⟩ | ⟨page', order, taken, off, ptr, -⟩
    · have slab' := inv.slab j b listed
      rw [inv.start_page listed small ptr] at onPage
      have same : b = a := by rw [← slab_page slab', onPage, slab_page slab]
      subst same
      have sameCache : j = i := slab'.cachep.symm.trans slab.cachep
      subst sameCache
      exact absurd ptr ((slab.objects idx small).1 (all idx small) l hl)
    · rw [ptr, Nat.mul_div_cancel _ (by decide)] at onPage
      rw [onPage, on] at off
      cases off

/-- Every live byte lies in a page of a block that is taken. -/
theorem byte_block (inv : SlabInv s lists chain live) {l : Alloc} (member : l ∈ live) {x : Nat}
    (inside : x ∈ l.bytes) :
    ∃ b ∈ s.taken, x / pageSize ∈ dyadic b ∧ l.ptr / pageSize = b.1 := by
  obtain ⟨-, place⟩ := inv.placed l member
  have low := inside.1
  have high := inside.2
  rcases place with ⟨i, a, idx, listed, small, ptr, fits⟩ | ⟨page, order, taken, -, ptr, fits⟩
  · have slab := inv.slab i a listed
    obtain ⟨-, -, wide, -⟩ := cache_bounds i listed.1
    refine ⟨_, slab.taken, ?_, ?_⟩
    · have same : x / pageSize = a / pageSize :=
        object_page listed.1 small slab.aligned (ptr ▸ low) (by rw [ptr] at high; omega)
      rw [same]
      exact start_mem_dyadic _ _
    · exact inv.start_page listed small ptr
  · refine ⟨_, taken, ?_, ?_⟩
    · rw [mem_dyadic]
      have upper : x < (page + 2 ^ order) * pageSize := by
        rw [Nat.add_mul]
        omega
      exact ⟨(Nat.le_div_iff_mul_le (by decide)).2 (ptr ▸ low),
        (Nat.div_lt_iff_lt_mul (by decide)).2 upper⟩
    · rw [ptr, Nat.mul_div_cancel _ (by decide)]

/-- A page of no block has no slab and no live allocation on it. -/
theorem page_unused (inv : SlabInv s lists chain live) {page order : Nat}
    (outside : ∀ b ∈ s.taken, Disjoint (dyadic (page, order)) (dyadic b)) :
    (∀ i, ¬ Listed lists i (page * pageSize)) ∧ s.inSlab page = false ∧
      ∀ l ∈ live, l.ptr / pageSize ≠ page := by
  have notTaken : ∀ b ∈ s.taken, b.1 ≠ page := fun b hb same =>
    start_ne_of_disjoint (outside b hb) same.symm
  have unlisted : ∀ i, ¬ Listed lists i (page * pageSize) := by
    intro i listed
    have taken := (inv.slab i _ listed).taken
    rw [Nat.mul_div_cancel _ (by decide)] at taken
    exact notTaken _ taken rfl
  refine ⟨unlisted, ?_, fun l hl same => ?_⟩
  · rw [← Bool.not_eq_true, inv.inSlab]
    rintro ⟨i, listed⟩
    exact unlisted i listed
  · have first : l.ptr ∈ l.bytes := ⟨le_rfl, by have := (inv.placed l hl).1; omega⟩
    obtain ⟨b, hb, -, start⟩ := inv.byte_block hl first
    exact notTaken b hb (start.symm.trans same)

/-- `kmem_cache_grow` with the page of a new slab. -/
def grown (s : SlabState) (i page : Nat) : SlabState :=
  let a := page * pageSize
  { s with
    taken := (page, 0) :: s.taken
    inSlab := Function.update s.inSlab page true
    slabs := Function.update s.slabs a ⟨i, 0, 0, a + slabSize⟩
    mem := linkObjects s.mem (a + slabSize) (objSize i) (objNum i)
    links := dlistAdd s.links (.head .slabsFree i) (.slab a) }

/-- **A new slab** on a page of no block. -/
theorem grow (inv : SlabInv s lists chain live) {i page : Nat} (below : i < kmallocCachesNum)
    (outside : ∀ b ∈ s.taken, Disjoint (dyadic (page, 0)) (dyadic b)) (low : page < 2 ^ 20) :
    SlabInv (grown s i page)
      (Function.update lists (.slabsFree, i) (page * pageSize :: lists (.slabsFree, i)))
      (Function.update chain (page * pageSize) (List.range (objNum i))) live := by
  obtain ⟨unlisted, -, unused⟩ := inv.page_unused outside
  have here : page * pageSize / pageSize = page := Nat.mul_div_cancel _ (by decide)
  have aligned : page * pageSize % pageSize = 0 := Nat.mul_mod_left _ _
  have notTaken : ∀ order, (page, order) ∉ s.taken := fun order inside =>
    start_ne_of_disjoint (outside _ inside) rfl
  have notOn : ∀ h : SlabList × Nat, h.2 < kmallocCachesNum → page * pageSize ∉ lists h :=
    fun h hh inside => unlisted h.2 ⟨hh, h.1, inside⟩
  refine inv.focus aligned rfl rfl ?_ ?_ ?_ ?_ ?_ ?_ ?_ ?_ (fun _ _ => Iff.rfl) inv.nodup ?_ ?_ ?_
    ?_ ?_
  · have added := dlistAdd_family inv.family (i := (.slabsFree, i)) below
      (x := .slab (page * pageSize)) fun k hk => by simpa using notOn k hk
    rw [← List.map_cons, ← update_map] at added
    exact added
  · intro h b ne
    by_cases same : h = (.slabsFree, i)
    · subst same
      simp [ne]
    · rw [Function.update_of_ne same]
  · exact fun b ne => Function.update_of_ne ne _ _
  · exact fun x away => linkObjects_outside s.mem below aligned away
  · intro page' ne
    rw [here] at ne
    exact Function.update_of_ne ne _ _
  · intro b ne
    rw [here] at ne
    have other : b ≠ (page, 0) := fun same => ne (by rw [same])
    simp [grown, other]
  · exact List.pairwise_cons.2 ⟨outside, inv.apart⟩
  · intro b hb
    rcases List.mem_cons.1 hb with rfl | hb
    · exact low
    · exact inv.low b hb
  · exact fun b ne => Function.update_of_ne ne _ _
  · rintro j ⟨hj, list, inside⟩
    have same : (list, j) = (.slabsFree, i) := by
      by_contra other
      rw [Function.update_of_ne other] at inside
      exact notOn (list, j) hj inside
    obtain ⟨rfl, rfl⟩ := Prod.mk.inj same
    rw [Function.update_self]
    refine ⟨aligned, ?_, ?_, ?_, ?_, ?_, List.nodup_range, ?_, fun idx small => ?_⟩
    · rw [here]
      exact List.mem_cons_self
    · simp [grown]
    · simp [grown]
    · simp [grown]
    · simpa [grown] using linkObjects_chain s.mem below (page * pageSize)
    · exact fun idx inside => List.mem_range.1 inside
    · refine iff_of_true (List.mem_range.2 small) fun l hl same => unused l hl ?_
      obtain ⟨-, -, wide, -⟩ := cache_bounds j below
      rw [same, object_page below small aligned le_rfl (by omega), here]
  · rw [here]
    refine iff_of_true (by simp [grown]) ⟨i, below, .slabsFree, ?_⟩
    rw [Function.update_self]
    exact List.mem_cons_self
  · intro order _
    rw [here]
    simp [grown]
  · intro l hl onPage
    rw [here] at onPage
    exact absurd onPage (unused l hl)

/-- **A block of pages** handed out as it is. -/
theorem takePages (inv : SlabInv s lists chain live) {page order size : Nat}
    (outside : ∀ b ∈ s.taken, Disjoint (dyadic (page, order)) (dyadic b))
    (low : page + 2 ^ order ≤ 2 ^ 20) (positive : 0 < size) (fits : size ≤ 2 ^ order * pageSize) :
    SlabInv { s with taken := (page, order) :: s.taken } lists chain
      (⟨page * pageSize, size⟩ :: live) := by
  obtain ⟨-, off, unused⟩ := inv.page_unused outside
  refine ⟨inv.caches, inv.family, fun i a listed => ?_, inv.inSlab,
    List.pairwise_cons.2 ⟨outside, inv.apart⟩, fun b hb => ?_, fun b hb unslabbed => ?_,
    fun l hl => ?_, ?_, inv.noFault⟩
  · have slab := inv.slab i a listed
    refine ⟨slab.aligned, List.mem_cons_of_mem _ slab.taken, slab.cachep, slab.sMem, slab.inuse,
      slab.follows, slab.nodup, slab.small, fun idx small => ?_⟩
    rw [slab.objects idx small]
    refine ⟨fun none_ l hl same => ?_, fun none_ l hl => none_ l (List.mem_cons_of_mem _ hl)⟩
    rcases List.mem_cons.1 hl with rfl | hl
    · obtain ⟨-, -, wide, -⟩ := cache_bounds i listed.1
      have onPage := object_page listed.1 small slab.aligned (le_of_eq same.symm) (by
        show page * pageSize < _
        rw [show page * pageSize = object i a idx from same]
        omega)
      rw [Nat.mul_div_cancel _ (by decide)] at onPage
      exact start_ne_of_disjoint (outside _ slab.taken) onPage
    · exact none_ l hl same
  · rcases List.mem_cons.1 hb with rfl | hb
    · exact low
    · exact inv.low b hb
  · rcases List.mem_cons.1 hb with rfl | hb
    · exact ⟨_, List.mem_cons_self, rfl⟩
    · obtain ⟨l, hl, ptr⟩ := inv.owned b hb unslabbed
      exact ⟨l, List.mem_cons_of_mem _ hl, ptr⟩
  · rcases List.mem_cons.1 hl with rfl | hl
    · exact ⟨positive, Or.inr ⟨page, order, List.mem_cons_self, off, rfl, fits⟩⟩
    · obtain ⟨size', place⟩ := inv.placed l hl
      refine ⟨size', place.imp_right ?_⟩
      rintro ⟨page', order', taken, rest⟩
      exact ⟨page', order', List.mem_cons_of_mem _ taken, rest⟩
  · rw [List.map_cons, List.nodup_cons]
    refine ⟨fun inside => ?_, inv.nodup⟩
    obtain ⟨l, hl, same⟩ := List.mem_map.1 inside
    apply unused l hl
    rw [same, Nat.mul_div_cancel _ (by decide)]

/-- **A block of pages** given back. -/
theorem freePages (inv : SlabInv s lists chain live) {l : Alloc} {page : Nat}
    (off : s.inSlab page = false) (ptr : l.ptr = page * pageSize) :
    SlabInv (buddyFreePages s page) lists chain (live.filter (·.ptr != l.ptr)) := by
  have notSlab : ∀ i a, Listed lists i a → a / pageSize ≠ page := by
    rintro i a listed rfl
    have on : s.inSlab (a / pageSize) = true :=
      (inv.inSlab _).2 ⟨i, by rwa [slab_page (inv.slab i a listed)]⟩
    rw [on] at off
    cases off
  refine ⟨inv.caches, inv.family, fun i a listed => ?_, inv.inSlab,
    inv.apart.sublist List.filter_sublist, fun b hb => inv.low b (List.mem_filter.1 hb).1,
    fun b hb unslabbed => ?_, fun k hk => ?_, inv.nodup.sublist (List.filter_sublist.map _),
    inv.noFault⟩
  · have slab := inv.slab i a listed
    refine ⟨slab.aligned, List.mem_filter.2 ⟨slab.taken, ?_⟩, slab.cachep, slab.sMem, slab.inuse,
      slab.follows, slab.nodup, slab.small, fun idx small => ?_⟩
    · simpa using notSlab i a listed
    · rw [slab.objects idx small]
      refine ⟨fun none_ k hk => none_ k (List.mem_filter.1 hk).1, fun none_ k hk same => ?_⟩
      refine none_ k (List.mem_filter.2 ⟨hk, ?_⟩) same
      rw [bne_iff_ne, same, ptr]
      obtain ⟨-, -, wide, -⟩ := cache_bounds i listed.1
      intro eq
      have onPage := object_page listed.1 small slab.aligned (le_of_eq eq) (by
        rw [← eq]; omega)
      rw [Nat.mul_div_cancel _ (by decide)] at onPage
      exact notSlab i a listed onPage.symm
  · obtain ⟨hb, other⟩ := List.mem_filter.1 hb
    rw [bne_iff_ne] at other
    obtain ⟨k, hk, same⟩ := inv.owned b hb unslabbed
    refine ⟨k, List.mem_filter.2 ⟨hk, ?_⟩, same⟩
    rw [bne_iff_ne, same, ptr]
    exact fun eq => other (Nat.eq_of_mul_eq_mul_right (by decide) eq)
  · obtain ⟨hk, other⟩ := List.mem_filter.1 hk
    rw [bne_iff_ne] at other
    obtain ⟨size', place⟩ := inv.placed k hk
    refine ⟨size', place.imp_right ?_⟩
    rintro ⟨page', order', taken', rest⟩
    refine ⟨page', order', List.mem_filter.2 ⟨taken', ?_⟩, rest⟩
    rw [bne_iff_ne]
    rintro rfl
    exact other (rest.2.1.trans ptr.symm)

/-- Only the chains read memory: writes that miss the links of free objects are
invisible. -/
theorem rewrite (inv : SlabInv s lists chain live) {mem : Bytes}
    (missed : ∀ i a, Listed lists i a → ∀ idx ∈ chain a,
      load32 mem (object i a idx) = load32 s.mem (object i a idx)) :
    SlabInv { s with mem := mem } lists chain live := by
  refine ⟨inv.caches, inv.family, fun i a listed => ?_, inv.inSlab, inv.apart, inv.low, inv.owned,
    inv.placed, inv.nodup, inv.noFault⟩
  have slab := inv.slab i a listed
  exact ⟨slab.aligned, slab.taken, slab.cachep, slab.sMem, slab.inuse,
    slab.follows.congr (missed i a listed), slab.nodup, slab.small, slab.objects⟩

/-- After a move the slab is on the target list only. -/
theorem mem_moved_self (inv : SlabInv s lists chain live) {source target list : SlabList}
    {i j a : Nat} (below : i < kmallocCachesNum) (hj : j < kmallocCachesNum)
    (member : a ∈ lists (source, i)) (inside : a ∈ moved lists source target i a (list, j)) :
    list = target ∧ j = i := by
  by_contra other
  have ne : (list, j) ≠ (target, i) := fun same => other (Prod.mk.inj same)
  rw [moved, Function.update_of_ne ne] at inside
  exact inv.erased (h := (source, i)) below hj member inside

/-- A slab that fits its new list leaves the rest of the lists settled. -/
theorem settled_moved (inv : SlabInv s lists chain live) {source target : SlabList} {i a : Nat}
    (below : i < kmallocCachesNum) (member : a ∈ lists (source, i))
    (others : ∀ list j, j < kmallocCachesNum → ∀ b ∈ lists (list, j), b ≠ a →
      Fits j (chain' b) list)
    (fits : Fits i (chain' a) target) : Settled (moved lists source target i a) chain' := by
  intro list j hj b inside
  by_cases here : b = a
  · subst here
    obtain ⟨rfl, rfl⟩ := inv.mem_moved_self below hj member inside
    exact fits
  · exact others list j hj b ((mem_moved_of_ne here).1 inside) here

/-! ## The operations -/

/-- `kmem_cache_alloc` from a slab on the partial list. -/
theorem takeObject (inv : SlabInv s lists chain live) {i a : Nat} (below : i < kmallocCachesNum)
    (member : a ∈ lists (.slabsPartial, i)) (nonempty : chain a ≠ [])
    (others : ∀ list j, j < kmallocCachesNum → ∀ b ∈ lists (list, j), b ≠ a →
      Fits j (chain b) list)
    {size : Nat} (positive : 0 < size) (fits : size ≤ objSize i) :
    ∃ s' p lists' chain', Slab.takeObject s i a = (s', some p) ∧
      SlabInv s' lists' chain' (⟨p, size⟩ :: live) ∧ Settled lists' chain' ∧
      s'.released = s.released := by
  have listed : Listed lists i a := ⟨below, _, member⟩
  have slab := inv.slab i a listed
  obtain ⟨idx, rest, list⟩ := List.exists_cons_of_ne_nil nonempty
  obtain ⟨popInv, first, small, follows⟩ := inv.pop listed list positive fits
  rw [list] at slab
  obtain ⟨-, -, -, -, few⟩ := cache_bounds i below
  have index : (s.slabs a).free.toNat = idx := by
    rw [first, UInt32.toNat_ofNat', Nat.mod_eq_of_lt (by omega)]
  have objp : (s.slabs a).sMem + (s.slabs a).free.toNat * (s.caches i).objSize = object i a idx := by
    rw [slab.sMem, index, inv.caches i below]
    rfl
  have ends := follows.end_iff below fun k inside => slab.small k (List.mem_cons_of_mem _ inside)
  have off : ∀ b, b ≠ a → Function.update chain a rest b = chain b := fun b ne =>
    Function.update_of_ne ne _ _
  have room : rest.length + 1 ≤ objNum i := by
    simpa using length_le_of_small _ slab.nodup slab.small
  have kept : ∀ list j, j < kmallocCachesNum → ∀ b ∈ lists (list, j), b ≠ a →
      Fits j (Function.update chain a rest b) list := by
    intro list j hj b inside ne
    rw [off b ne]
    exact others list j hj b inside ne
  by_cases last : rest = []
  · refine ⟨_, _, _, _, ?_, popInv.move .slabsFull below member (by simp),
      popInv.settled_moved below member kept ?_, rfl⟩
    · simp only [Slab.takeObject, objp, if_pos (ends.2 last)]
      rfl
    · rw [Function.update_self]
      exact last
  · refine ⟨_, _, lists, _, ?_, popInv, fun list' j hj b inside => ?_, rfl⟩
    · simp only [Slab.takeObject, objp, if_neg fun magic => last (ends.1 magic)]
      rfl
    · by_cases here : b = a
      · subst here
        have same : (list', j) = (.slabsPartial, i) := by
          by_contra other
          exact inv.not_mem_of_mem (h := (.slabsPartial, i)) below hj member other inside
        obtain ⟨rfl, rfl⟩ := Prod.mk.inj same
        rw [Function.update_self]
        exact ⟨last, by omega⟩
      · exact kept list' j hj b inside here

/-- **`kmem_cache_alloc`** fails and changes nothing, or returns a new live
object. -/
theorem cacheAlloc (inv : SlabInv s lists chain live) (settled : Settled lists chain) {i : Nat}
    (below : i < kmallocCachesNum) {answer : Option Pfn}
    (answers : ∀ page : Nat, answer = some page → Answers s.taken 0 page ∧ page < 2 ^ 20)
    {size : Nat} (positive : 0 < size) (fits : size ≤ objSize i) :
    kmemCacheAlloc s i answer = (s, none) ∨
      ∃ s' p lists' chain', kmemCacheAlloc s i answer = (s', some p) ∧
        SlabInv s' lists' chain' (⟨p, size⟩ :: live) ∧ Settled lists' chain' ∧
        s'.released = s.released := by
  obtain ⟨some_, -, -, -, -⟩ := cache_bounds i below
  have num : (s.caches i).num ≠ 0 := by
    rw [inv.caches i below]
    exact Nat.pos_iff_ne_zero.1 some_
  have empty_iff : ∀ list, dlistEmpty s.links (.head list i) = true ↔ lists (list, i) = [] := by
    intro list
    have := dlistEmpty_iff inv.family (i := (list, i)) below
    simpa using this
  unfold kmemCacheAlloc
  rw [if_neg num]
  split
  · have noneFree : lists (.slabsFree, i) = [] := by
      rw [List.eq_nil_iff_forall_not_mem]
      exact fun b inside => settled .slabsFree i below b inside
    rw [freshSlab, if_pos ((empty_iff .slabsFree).2 noneFree), kmemCacheGrow, if_neg num]
    cases answer with
    | none => exact Or.inl rfl
    | some page =>
        right
        obtain ⟨⟨-, -, -, outside⟩, low⟩ := answers page rfl
        have virt : pageToVirt page = page * pageSize :=
          Nat.mod_eq_of_lt (by unfold pageSize; omega)
        have objects : alignUp (page * pageSize + slabSize) 8 = page * pageSize + slabSize := by
          unfold alignUp pageSize slabSize
          omega
        have one : getOrder 4096 = 0 := by decide +kernel
        simp only [buddyAllocPages, virt, inv.caches i below, objects, one]
        have grownInv := inv.grow below outside low
        have onFree : page * pageSize ∈ Function.update lists (.slabsFree, i)
            (page * pageSize :: lists (.slabsFree, i)) (.slabsFree, i) := by simp
        have ready := grownInv.move .slabsPartial below onFree (by simp)
        refine ready.takeObject below (by simp [moved]) ?_ (fun list j hj b inside ne => ?_)
          positive fits
        · rw [Function.update_self]
          simpa [List.range_eq_nil] using Nat.pos_iff_ne_zero.1 some_
        · rw [mem_moved_of_ne ne] at inside
          rw [Function.update_of_ne ne]
          refine settled list j hj b ?_
          by_cases same : (list, j) = (.slabsFree, i)
          · rw [same, Function.update_self] at inside
            rw [same]
            exact (List.mem_cons.1 inside).resolve_left ne
          · rwa [Function.update_of_ne same] at inside
  · rename_i occupied
    right
    have nonempty : lists (.slabsPartial, i) ≠ [] := fun none_ =>
      occupied ((empty_iff .slabsPartial).2 none_)
    obtain ⟨a, rest, list⟩ := List.exists_cons_of_ne_nil nonempty
    have first : s.links.next (.head .slabsPartial i) = .slab a := by
      have items : (lists (.slabsPartial, i)).map Node.slab = .slab a :: rest.map Node.slab := by
        rw [list]; rfl
      exact next_head_of_cons inv.family (i := (.slabsPartial, i)) below items
    have member : a ∈ lists (.slabsPartial, i) := by simp [list]
    rw [firstSlab, first]
    exact inv.takeObject below member (settled _ i below a member).1
      (fun list j hj b inside _ => settled list j hj b inside) positive fits

/-- **`kmem_cache_free`** of a live object: the page goes back with the last one. -/
theorem cacheFree (inv : SlabInv s lists chain live) (settled : Settled lists chain) {i a idx : Nat}
    (listed : Listed lists i a) (small : idx < objNum i) {l : Alloc} (member : l ∈ live)
    (ptr : l.ptr = object i a idx) :
    ∃ lists' chain', SlabInv (kmemCacheFree s i (object i a idx)) lists' chain'
        (live.filter (·.ptr != object i a idx)) ∧ Settled lists' chain' ∧
      (kmemCacheFree s i (object i a idx)).released =
        s.released ++ if (chain a).length + 1 = objNum i then [a / pageSize] else [] := by
  have slab := inv.slab i a listed
  obtain ⟨below, list, onList⟩ := listed
  have listed : Listed lists i a := ⟨below, list, onList⟩
  obtain ⟨absent, room⟩ := inv.room listed small member ptr
  obtain ⟨-, -, wide, -, few⟩ := cache_bounds i below
  obtain ⟨pageEq, slabEq⟩ := inv.converts listed small rfl
  have index : (object i a idx - (s.slabs a).sMem) / (s.caches i).objSize = idx := by
    rw [slab.sMem, inv.caches i below]
    rw [object, Nat.add_sub_cancel_left, Nat.mul_div_cancel _ (by omega)]
  have num : (s.caches i).num = objNum i := by rw [inv.caches i below]
  have left : (s.slabs a).inuse - 1 = UInt32.ofNat (objNum i - (chain a).length - 1) := by
    rw [slab.inuse, show objNum i - (chain a).length = objNum i - (chain a).length - 1 + 1 by omega,
      UInt32.ofNat_add]
    exact UInt32.add_sub_cancel _ _
  have lastIff : (s.slabs a).inuse - 1 = 0 ↔ (chain a).length + 1 = objNum i := by
    rw [left, ← UInt32.toNat_inj, UInt32.toNat_ofNat', Nat.mod_eq_of_lt (by omega)]
    simp
    omega
  have fullIff : (s.slabs a).inuse - 1 + 1 = UInt32.ofNat (objNum i) ↔ chain a = [] := by
    rw [UInt32.sub_add_cancel, slab.inuse, ← UInt32.toNat_inj, UInt32.toNat_ofNat',
      UInt32.toNat_ofNat', Nat.mod_eq_of_lt (by omega), Nat.mod_eq_of_lt (by omega),
      ← List.length_eq_zero_iff]
    omega
  have push := inv.push listed small member ptr
  have off : ∀ b, b ≠ a → Function.update chain a (idx :: chain a) b = chain b := fun b ne =>
    Function.update_of_ne ne _ _
  have kept : ∀ list j, j < kmallocCachesNum → ∀ b ∈ lists (list, j), b ≠ a →
      Fits j (Function.update chain a (idx :: chain a) b) list := by
    intro list j hj b inside ne
    rw [off b ne]
    exact settled list j hj b inside
  simp only [kmemCacheFree, pageEq, slabEq, index, num]
  by_cases last : (chain a).length + 1 = objNum i
  · rw [if_pos (lastIff.2 last), if_pos last]
    refine ⟨_, _, push.drop below onList (by simpa using last), fun list' j hj b inside => ?_, rfl⟩
    have ne : b ≠ a := by
      rintro rfl
      exact inv.erased (h := (list, i)) below hj onList inside
    refine kept list' j hj b ?_ ne
    by_cases here : (list', j) = (list, i)
    · rw [here, Function.update_self] at inside
      rw [here]
      exact List.mem_of_mem_erase inside
    · rwa [Function.update_of_ne here] at inside
  · rw [if_neg fun zero => last (lastIff.1 zero), if_neg last, List.append_nil]
    by_cases wasFull : chain a = []
    · rw [if_pos (fullIff.2 wasFull)]
      have source : list = .slabsFull := by
        have fits := settled list i below a onList
        cases list with
        | slabsPartial => exact absurd wasFull fits.1
        | slabsFull => rfl
        | slabsFree => exact fits.elim
      subst source
      refine ⟨_, _, push.move .slabsPartial below onList (by simp),
        push.settled_moved below onList kept ?_, rfl⟩
      rw [Function.update_self]
      exact ⟨by simp, by simp; omega⟩
    · rw [if_neg fun full => wasFull (fullIff.1 full)]
      refine ⟨_, _, push, fun list' j hj b inside => ?_, rfl⟩
      by_cases here : b = a
      · subst here
        have same : (list', j) = (list, i) := by
          by_contra other
          exact inv.not_mem_of_mem (h := (list, i)) below hj onList other inside
        obtain ⟨rfl, rfl⟩ := Prod.mk.inj same
        have fits := settled list' j below b onList
        cases list' with
        | slabsPartial =>
            rw [Function.update_self]
            exact ⟨by simp, by simp; omega⟩
        | slabsFull => exact absurd fits wasFull
        | slabsFree => exact fits.elim
      · exact kept list' j hj b inside here

end SlabInv

/-! ## Live bytes -/

namespace SlabInv

variable {s : SlabState} {lists : SlabList × Nat → List Nat} {chain : Nat → List Nat}
  {live : List Alloc}

/-- On the page of a slab there are only objects of that slab. -/
theorem on_page (inv : SlabInv s lists chain live) {i a : Nat} (listed : Listed lists i a)
    {l : Alloc} (member : l ∈ live) (same : l.ptr / pageSize = a / pageSize) :
    ∃ idx, idx < objNum i ∧ l.ptr = object i a idx ∧ l.size ≤ objSize i ∧ idx ∉ chain a := by
  have slab := inv.slab i a listed
  obtain ⟨-, place⟩ := inv.placed l member
  rcases place with ⟨j, b, idx, listed', small, ptr, fits⟩ | ⟨page, order, taken, off, ptr, -⟩
  · have slab' := inv.slab j b listed'
    rw [inv.start_page listed' small ptr] at same
    have samePage : b = a := by rw [← slab_page slab', same, slab_page slab]
    subst samePage
    have sameCache : j = i := slab'.cachep.symm.trans slab.cachep
    subst sameCache
    exact ⟨idx, small, ptr, fits, fun inside => (slab.objects idx small).1 inside l member ptr⟩
  · rw [ptr, Nat.mul_div_cancel _ (by decide)] at same
    have on := inv.marked listed
    rw [same, on] at off
    cases off

/-- Two live allocations that share a byte are on one page. -/
theorem same_page (inv : SlabInv s lists chain live) {l k : Alloc} (hl : l ∈ live) (hk : k ∈ live)
    {x : Nat} (inL : x ∈ l.bytes) (inK : x ∈ k.bytes) :
    l.ptr / pageSize = k.ptr / pageSize := by
  obtain ⟨b, hb, inB, startB⟩ := inv.byte_block hl inL
  obtain ⟨c, hc, inC, startC⟩ := inv.byte_block hk inK
  rw [startB, startC, inv.block_unique hb hc inB inC]

/-- **Live allocations are disjoint.** -/
theorem live_apart (inv : SlabInv s lists chain live) {l k : Alloc} (hl : l ∈ live) (hk : k ∈ live)
    (ne : l.ptr ≠ k.ptr) : Disjoint l.bytes k.bytes := by
  rw [Set.disjoint_left]
  intro x inL inK
  have same := inv.same_page hl hk inL inK
  have lowL := inL.1
  have highL := inL.2
  have lowK := inK.1
  have highK := inK.2
  obtain ⟨-, placeL⟩ := inv.placed l hl
  rcases placeL with ⟨i, a, idx, listed, small, ptr, fits⟩ | ⟨page, order, taken, off, ptr, fits⟩
  · have page := inv.start_page listed small ptr
    obtain ⟨idx', small', ptr', fits', -⟩ := inv.on_page listed hk (same.symm.trans page)
    have other : idx ≠ idx' := fun eq => ne (by rw [ptr, ptr', eq])
    have apart := object_apart i a other
    rw [ptr] at lowL highL
    rw [ptr'] at lowK highK
    omega
  · obtain ⟨-, placeK⟩ := inv.placed k hk
    rcases placeK with ⟨i, a, idx, listed, small, ptrK, -⟩ | ⟨page', order', -, -, ptrK, -⟩
    · have pageK := inv.start_page listed small ptrK
      obtain ⟨idx', -, ptr', -, -⟩ := inv.on_page listed hl (same.trans pageK)
      have on := inv.marked listed
      rw [pageK, ptr, Nat.mul_div_cancel _ (by decide)] at same
      rw [same, on] at off
      cases off
    · rw [ptr, ptrK, Nat.mul_div_cancel _ (by decide), Nat.mul_div_cancel _ (by decide)] at same
      exact ne (by rw [ptr, ptrK, same])

/-- A byte of the page of a slab that is live is a byte of a live object of it. -/
theorem byte_on_page (inv : SlabInv s lists chain live) {i a : Nat} (listed : Listed lists i a)
    {l : Alloc} (hl : l ∈ live) {x : Nat} (inside : x ∈ l.bytes)
    (onPage : x / pageSize = a / pageSize) : l.ptr / pageSize = a / pageSize := by
  obtain ⟨b, hb, inB, start⟩ := inv.byte_block hl inside
  rw [onPage] at inB
  rw [start, inv.block_unique hb (inv.slab i a listed).taken inB (start_mem_dyadic _ _)]

/-- **Live bytes are not links** of free objects. -/
theorem links_apart (inv : SlabInv s lists chain live) {i a idx : Nat} (listed : Listed lists i a)
    (free : idx ∈ chain a) {l : Alloc} (hl : l ∈ live) :
    Disjoint l.bytes (Set.Ico (object i a idx) (object i a idx + 4)) := by
  rw [Set.disjoint_left]
  intro x inL inLink
  have slab := inv.slab i a listed
  obtain ⟨-, -, wide, -⟩ := cache_bounds i listed.1
  have low := inLink.1
  have high := inLink.2
  have lowL := inL.1
  have highL := inL.2
  have page := object_page listed.1 (slab.small idx free) slab.aligned low (by omega)
  obtain ⟨idx', -, ptr, fits, taken⟩ := inv.on_page listed hl (inv.byte_on_page listed hl inL page)
  have other : idx ≠ idx' := fun eq => taken (eq ▸ free)
  have apart := object_apart i a other
  rw [ptr] at lowL highL
  omega

/-- **Live bytes are not descriptors.** -/
theorem descriptor_apart (inv : SlabInv s lists chain live) {i a : Nat} (listed : Listed lists i a)
    {l : Alloc} (hl : l ∈ live) : Disjoint l.bytes (Set.Ico a (a + slabSize)) := by
  rw [Set.disjoint_left]
  intro x inL inDesc
  have slab := inv.slab i a listed
  have low := inDesc.1
  have high := inDesc.2
  have lowL := inL.1
  have page : x / pageSize = a / pageSize := by
    have := slab.aligned
    unfold pageSize slabSize at *
    omega
  obtain ⟨idx', -, ptr, -, -⟩ := inv.on_page listed hl (inv.byte_on_page listed hl inL page)
  rw [ptr, object] at lowL
  omega

theorem aligned8 (inv : SlabInv s lists chain live) {l : Alloc} (hl : l ∈ live) :
    l.ptr % 8 = 0 := by
  obtain ⟨-, place⟩ := inv.placed l hl
  rcases place with ⟨i, a, idx, listed, small, ptr, -⟩ | ⟨page, order, -, -, ptr, -⟩
  · have aligned := (inv.slab i a listed).aligned
    obtain ⟨-, -, -, size, -⟩ := cache_bounds i listed.1
    obtain ⟨m, eq⟩ := Nat.dvd_of_mod_eq_zero size
    rw [ptr, object, eq, show idx * (8 * m) = 8 * (idx * m) by ring]
    unfold pageSize slabSize at *
    omega
  · rw [ptr]
    unfold pageSize
    omega

end SlabInv

end Minus.Mm.Slab
