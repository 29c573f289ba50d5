/-
# Mm.VspaceLife — from vspace_create to vspace_destroy

The life of one address space behind its capability, and the account of the pages
and objects in use over it (`Ledger`): a page is in use after some calls if it was
in use before the vspace was made, or is its pgd, or backs one of its vregions, or
is one of the tables below the pgd.  `vspace_destroy` gives back all but the last,
so the account balances only if no table was ever made (`lifecycle_conserves_iff`).
-/
import Mathlib.Data.Finset.Lattice.Lemmas
import Minus.Mm.VspaceBooks

namespace Minus.Mm.AddressSpace

set_option autoImplicit false

open Minus.Theory
open Minus.Core.Mmu (Memory Call mmuMap pageSize mmuMap_empty_takes)
open Minus.Core.Cap
open Minus.Mm.Buddy (Pfn)

/-! ## The calls -/

/-- A call of `vspace_map_page`, and what the allocators answer in it. -/
structure PageOp where
  uva : UInt64
  flags : UInt32
  pages : List Pfn
  objects : List Obj

/-- The call gets its page and its vregion, and so reaches `mmu_map`. -/
def PageOp.Maps (op : PageOp) : Prop :=
  op.uva &&& (4096 - 1) = 0 ∧ op.pages ≠ [] ∧ op.objects ≠ []

instance (op : PageOp) : Decidable op.Maps := inferInstanceAs (Decidable (_ ∧ _ ∧ _))

structure Life where
  mm : MmState
  hung : Bool

/-- The calls of `vspace_map_page` through one capability. -/
def life (cap : UInt64) : Machine Life PageOp where
  enabled s op := s.hung = false ∧ op.uva.toNat < 2 ^ 48 ∧ s.mm.heap.Answers op.pages op.objects
  step s op :=
    let mm := { s.mm with heap := s.mm.heap.supplied op.pages op.objects }
    match mmVspaceMapPage mm cap op.uva op.flags with
    | .ok (mm, _) => ⟨mm, false⟩
    | .error h => ⟨{ s.mm with heap := h }, true⟩

instance (cap : UInt64) (s : Life) (op : PageOp) : Decidable ((life cap).enabled s op) :=
  inferInstanceAs (Decidable (_ ∧ _ ∧ _))

/-! ## The account -/

/-- The books of a vspace at `obj` whose pgd is page `root`, over the heap `h₀` it was
made in; `tables` are the pages of the tables below the pgd. -/
structure Ledger (h₀ : Heap) (obj : Obj) (root : Pfn) (h : Heap) (vs : Vspace) (tables : Finset Pfn) :
    Prop where
  self : vs.self = obj
  pgd : vs.pgd = frame root
  pages : ∀ p, p ∈ h.pages ↔
    p ∈ h₀.pages ∨ p = root ∨ p ∈ vs.regions.map (·.page) ∨ p ∈ tables
  objects : ∀ o, o ∈ h.objects ↔ o ∈ h₀.objects ∨ o = obj ∨ o ∈ vs.regions.map (·.self)
  rootNew : root ∉ h₀.pages
  objNew : obj ∉ h₀.objects
  regionNew : ∀ p ∈ vs.regions.map (·.page), p ∉ h₀.pages ∧ p ≠ root
  tableNew : ∀ p ∈ tables, p ∉ h₀.pages ∧ p ≠ root ∧ p ∉ vs.regions.map (·.page)
  recordNew : ∀ o ∈ vs.regions.map (·.self), o ∉ h₀.objects ∧ o ≠ obj
  empty : vs.regions = [] → tables = ∅ ∧ h.mem vs.pgd = fun _ => 0
  lost : vs.regions ≠ [] → tables ≠ ∅

/-! ## vspace_free -/

theorem foldl_freeRegion_pages (regions : List Vregion) (h : Heap) (p : Pfn) :
    p ∈ (regions.foldl freeRegion h).pages ↔ p ∈ h.pages ∧ p ∉ regions.map (·.page) := by
  induction regions generalizing h with
  | nil => simp
  | cons vr rest ih =>
      rw [List.foldl_cons, ih]
      simp only [freeRegion, Heap.buddyFreePages, Heap.kfree, Finset.mem_erase, List.map_cons,
        List.mem_cons, not_or]
      tauto

theorem foldl_freeRegion_objects (regions : List Vregion) (h : Heap) (o : Obj) :
    o ∈ (regions.foldl freeRegion h).objects ↔ o ∈ h.objects ∧ o ∉ regions.map (·.self) := by
  induction regions generalizing h with
  | nil => simp
  | cons vr rest ih =>
      rw [List.foldl_cons, ih]
      simp only [freeRegion, Heap.buddyFreePages, Heap.kfree, Finset.mem_erase, List.map_cons,
        List.mem_cons, not_or]
      tauto

theorem vspaceFree_pages (h : Heap) (vs : Vspace) (p : Pfn) :
    p ∈ (vspaceFree h vs).pages ↔ p ∈ h.pages ∧ p ∉ vs.regions.map (·.page) ∧ p ≠ vs.pgd := by
  show p ∈ ((vs.regions.foldl freeRegion h).pages.erase vs.pgd) ↔ _
  rw [Finset.mem_erase, foldl_freeRegion_pages]
  tauto

theorem vspaceFree_objects (h : Heap) (vs : Vspace) (o : Obj) :
    o ∈ (vspaceFree h vs).objects ↔ o ∈ h.objects ∧ o ∉ vs.regions.map (·.self) ∧ o ≠ vs.self := by
  show o ∈ ((vs.regions.foldl freeRegion h).objects.erase vs.self) ↔ _
  rw [Finset.mem_erase, foldl_freeRegion_objects]
  tauto

theorem foldl_freeRegion_supply (regions : List Vregion) (h : Heap) :
    (regions.foldl freeRegion h).objectSupply = h.objectSupply ∧
      (regions.foldl freeRegion h).pageSupply = h.pageSupply := by
  induction regions generalizing h with
  | nil => exact ⟨rfl, rfl⟩
  | cons vr rest ih => exact ih (freeRegion h vr)

theorem vspaceFree_supply (h : Heap) (vs : Vspace) :
    (vspaceFree h vs).objectSupply = h.objectSupply ∧ (vspaceFree h vs).pageSupply = h.pageSupply :=
  foldl_freeRegion_supply vs.regions h

section Ledger

variable {h₀ h : Heap} {obj : Obj} {root : Pfn} {vs : Vspace} {tables : Finset Pfn}

/-- What is left in use by `vspace_free`: every object is returned, and every page but
the tables, if the pgd is a page that `kfree_pages` finds again. -/
theorem Ledger.free (ledger : Ledger h₀ obj root h vs tables) :
    (vspaceFree h vs).objects = h₀.objects ∧
      ((vspaceFree h vs).pages = h₀.pages ↔ root < 2 ^ 20 ∧ tables = ∅) := by
  refine ⟨?_, ?_, ?_⟩
  · ext o
    rw [vspaceFree_objects, ledger.objects, ledger.self]
    constructor
    · rintro ⟨old | here | record, notRecord, notHere⟩
      · exact old
      · exact absurd here notHere
      · exact absurd record notRecord
    · intro old
      refine ⟨.inl old, fun record => (ledger.recordNew o record).1 old, ?_⟩
      rintro rfl
      exact ledger.objNew old
  · intro same
    have rootGone : root ∉ (vspaceFree h vs).pages := by
      rw [same]
      exact ledger.rootNew
    rw [vspaceFree_pages, ledger.pages] at rootGone
    have rootRegion : root ∉ vs.regions.map (·.page) := fun there =>
      (ledger.regionNew root there).2 rfl
    have found : root = vs.pgd := by
      by_contra differs
      exact rootGone ⟨.inr (.inl rfl), rootRegion, differs⟩
    have low : root < 2 ^ 20 := by
      rw [found, ledger.pgd]
      exact frame_lt root
    refine ⟨low, Finset.eq_empty_iff_forall_notMem.2 fun p table => ?_⟩
    obtain ⟨notOld, notRoot, notRegion⟩ := ledger.tableNew p table
    have left : p ∈ (vspaceFree h vs).pages := by
      rw [vspaceFree_pages, ledger.pages]
      exact ⟨.inr (.inr (.inr table)), notRegion, found ▸ notRoot⟩
    rw [same] at left
    exact notOld left
  · rintro ⟨low, none⟩
    ext p
    rw [vspaceFree_pages, ledger.pages, ledger.pgd, frame_of_lt low, none]
    constructor
    · rintro ⟨old | here | region | table, notRegion, notRoot⟩
      · exact old
      · exact absurd here notRoot
      · exact absurd region notRegion
      · exact absurd table (Finset.notMem_empty p)
    · intro old
      refine ⟨.inl old, fun region => (ledger.regionNew p region).1 old, ?_⟩
      rintro rfl
      exact ledger.rootNew old

theorem Ledger.supplied (ledger : Ledger h₀ obj root h vs tables) (pages : List Pfn)
    (objects : List Obj) : Ledger h₀ obj root (h.supplied pages objects) vs tables :=
  { ledger with }

/-- The first page of a vspace makes a table. -/
theorem Ledger.first {uva : UInt64} {flags : UInt32} (ledger : Ledger h₀ obj root h vs tables)
    (low : uva.toNat < 2 ^ 48) (aligned : uva &&& (4096 - 1) = 0) (first : vs.regions = []) {page : Pfn}
    {rest : List Pfn} {record : Obj} {objs : List Obj} {h₁ : Heap} {vs₁ : Vspace}
    (map : mapIn (h.took page rest record objs) vs (pageCall uva flags page) = .ok (h₁, vs₁)) :
    h₁.pageSupply.length < rest.length := by
  obtain ⟨_, zero⟩ := ledger.empty first
  have fits : uva.toNat + pageSize < 2 ^ 64 := by
    unfold pageSize
    omega
  have takes := mapIn_takes (h := h.took page rest record objs) zero
    (pageCall_isPage flags aligned page) fits
  rw [map] at takes
  exact takes

/-- A call that reaches `mmu_map` adds its page and its record, and the tables it needs. -/
theorem Ledger.mapped {uva : UInt64} {flags : UInt32} (ledger : Ledger h₀ obj root h vs tables)
    (low : uva.toNat < 2 ^ 48) (answers : h.Answers h.pageSupply h.objectSupply)
    (aligned : uva &&& (4096 - 1) = 0) {page : Pfn} {rest : List Pfn} {record : Obj} {objs : List Obj}
    (hasPage : h.pageSupply = page :: rest) (hasObject : h.objectSupply = record :: objs) {h₁ : Heap}
    {vs₁ : Vspace}
    (map : mapIn (h.took page rest record objs) vs (pageCall uva flags page) = .ok (h₁, vs₁)) :
    ∃ tables', Ledger h₀ obj root (h₁.clear (frame page)) (vs₁.addRegion record uva flags page)
      tables' := by
  have books := mapIn_books (h.took page rest record objs) vs (pageCall uva flags page)
  rw [map] at books
  obtain ⟨used, supply, pages, _, objects, _, vspace⟩ := books
  change rest = used ++ h₁.pageSupply at supply
  change h₁.pages = insert page h.pages ∪ used.toFinset at pages
  change h₁.objects = insert record h.objects at objects
  change vs₁ = { vs with tables := (used.map frame).reverse ++ vs.tables } at vspace
  subst vspace
  obtain ⟨nodup, fresh, _, freshObj⟩ := answers
  rw [hasPage] at nodup fresh
  rw [hasObject] at freshObj
  have pageNew : page ∉ h.pages := (fresh page List.mem_cons_self).1
  have recordNew : record ∉ h.objects := freshObj record List.mem_cons_self
  have usedNew : ∀ p ∈ used, p ∉ h.pages ∧ p ≠ page := by
    intro p member
    have inRest : p ∈ rest := supply ▸ List.mem_append_left _ member
    refine ⟨(fresh p (List.mem_cons_of_mem _ inRest)).1, ?_⟩
    rintro rfl
    exact (List.nodup_cons.1 nodup).1 inRest
  rw [ledger.pages] at pageNew
  rw [ledger.objects] at recordNew
  simp only [not_or] at pageNew recordNew
  set region : Vregion := ⟨record, uva, uva + 4096, flags, page⟩
  have regions : (vs.regions ++ [region]).map (·.page) = vs.regions.map (·.page) ++ [page] :=
    List.map_append
  have records : (vs.regions ++ [region]).map (·.self) = vs.regions.map (·.self) ++ [record] :=
    List.map_append
  refine ⟨tables ∪ used.toFinset, ledger.self, ledger.pgd, ?_, ?_, ledger.rootNew, ledger.objNew,
    ?_, ?_, ?_, ?_, ?_⟩
  · intro p
    show p ∈ h₁.pages ↔ _ ∨ _ ∨ p ∈ (vs.regions ++ [region]).map (·.page) ∨ _
    rw [pages, regions]
    simp only [Finset.mem_union, Finset.mem_insert, List.mem_toFinset, ledger.pages, List.mem_append,
      List.mem_singleton, or_assoc, or_comm, or_left_comm]
  · intro o
    show o ∈ h₁.objects ↔ _ ∨ _ ∨ o ∈ (vs.regions ++ [region]).map (·.self)
    rw [objects, records]
    simp only [Finset.mem_insert, ledger.objects, List.mem_append, List.mem_singleton, or_comm, or_left_comm]
  · intro p member
    change p ∈ (vs.regions ++ [region]).map (·.page) at member
    rw [regions, List.mem_append, List.mem_singleton] at member
    obtain old | rfl := member
    · exact ledger.regionNew p old
    · exact ⟨pageNew.1, pageNew.2.1⟩
  · intro p member
    show _ ∧ _ ∧ p ∉ (vs.regions ++ [region]).map (·.page)
    rw [regions, List.mem_append, List.mem_singleton]
    rw [Finset.mem_union, List.mem_toFinset] at member
    obtain old | new := member
    · obtain ⟨a, b, c⟩ := ledger.tableNew p old
      refine ⟨a, b, ?_⟩
      rintro (inRegions | rfl)
      · exact c inRegions
      · exact pageNew.2.2.2 old
    · obtain ⟨a, b⟩ := usedNew p new
      rw [ledger.pages] at a
      simp only [not_or] at a
      exact ⟨a.1, a.2.1, fun both => both.elim a.2.2.1 b⟩
  · intro o member
    change o ∈ (vs.regions ++ [region]).map (·.self) at member
    rw [records, List.mem_append, List.mem_singleton] at member
    obtain old | rfl := member
    · exact ledger.recordNew o old
    · exact ⟨recordNew.1, recordNew.2.1⟩
  · intro none
    exact absurd none (by simp [Vspace.addRegion])
  · -- the first page makes the first tables, and they stay
    intro _
    by_cases first : vs.regions = []
    · have takes := ledger.first low aligned first map
      intro nothing
      have : used = [] := by
        rw [← List.toFinset_eq_empty_iff]
        exact (Finset.union_eq_empty.1 nothing).2
      rw [supply, this] at takes
      exact Nat.lt_irrefl _ takes
    · intro nothing
      exact ledger.lost first (Finset.union_eq_empty.1 nothing).1

/-- The call at hand gets a page and a record. -/
def Heap.Serves (h : Heap) (uva : UInt64) : Prop :=
  uva &&& (4096 - 1) = 0 ∧ h.pageSupply ≠ [] ∧ h.objectSupply ≠ []

theorem Ledger.mapPage {uva : UInt64} (ledger : Ledger h₀ obj root h vs tables)
    (low : uva.toNat < 2 ^ 48) (flags : UInt32) (answers : h.Answers h.pageSupply h.objectSupply) :
    Ends
      (fun r => ∃ tables', Ledger h₀ obj root r.1 r.2.1 tables' ∧
        (r.2.1.regions = [] ↔ vs.regions = [] ∧ ¬ h.Serves uva))
      (fun _ => True) (vspaceMapPage h vs uva flags) := by
  apply (vspaceMapPage_outcome h vs uva flags).mono _ fun _ _ => trivial
  rintro ⟨h', vs', ret⟩ out
  cases out with
  | unaligned bad => exact ⟨tables, ledger, (and_iff_left fun serves => bad serves.1).symm⟩
  | noPage aligned noPages => exact ⟨tables, ledger, by simp [Heap.Serves, noPages]⟩
  | noRegion aligned page rest hasPage noObjects =>
      have fresh : page ∉ h.pages := (answers.2.1 page (by simp [hasPage])).1
      refine ⟨tables, { ledger with pages := fun p => ?_ }, by simp [Heap.Serves, noObjects]⟩
      show p ∈ (insert page h.pages).erase page ↔ _
      rw [Finset.erase_insert fresh]
      exact ledger.pages p
  | mapped aligned page rest record objs hasPage hasObject h₁ vs₁ map =>
      obtain ⟨tables', ledger'⟩ := ledger.mapped low answers aligned hasPage hasObject map
      refine ⟨tables', ledger', fun none => ?_, fun refused => ?_⟩
      · simp [Vspace.addRegion] at none
      · exact absurd ⟨aligned, by simp [hasPage], by simp [hasObject]⟩ refused.2

end Ledger

/-! ## The life -/

section Life

variable {h₀ : Heap} {obj : Obj} {root : Pfn} {cap : UInt64}

/-- **The ledger along a run.** -/
theorem life_ledger {s : Life} {ops : List PageOp} (resolves : capResolve s.mm.caps cap capRMap = some obj)
    {tables : Finset Pfn} (ledger : Ledger h₀ obj root s.mm.heap (s.mm.vspaces obj) tables)
    (admitted : (life cap).Admits s ops) (running : ((life cap).run s ops).hung = false) :
    ((life cap).run s ops).mm.caps = s.mm.caps ∧
    ∃ tables', Ledger h₀ obj root ((life cap).run s ops).mm.heap
        (((life cap).run s ops).mm.vspaces obj) tables' ∧
      ((((life cap).run s ops).mm.vspaces obj).regions = [] ↔
        (s.mm.vspaces obj).regions = [] ∧ ∀ op ∈ ops, ¬ op.Maps) := by
  induction ops generalizing s tables with
  | nil => exact ⟨rfl, tables, ledger, by simp⟩
  | cons op rest ih =>
      obtain ⟨⟨_, low, answers⟩, later⟩ := admitted
      have step := (ledger.supplied op.pages op.objects).mapPage low op.flags answers
      have still : ((life cap).step s op).hung = false := by
        cases rest with
        | nil => exact running
        | cons next more => exact later.1.1
      -- the step, once `vspace_map_page` has returned
      obtain ⟨caps, tables', ledger', none⟩ : ((life cap).step s op).mm.caps = s.mm.caps ∧
          ∃ tables', Ledger h₀ obj root ((life cap).step s op).mm.heap
              (((life cap).step s op).mm.vspaces obj) tables' ∧
            ((((life cap).step s op).mm.vspaces obj).regions = [] ↔
              (s.mm.vspaces obj).regions = [] ∧ ¬ op.Maps) := by
        unfold life mmVspaceMapPage at still ⊢
        simp only [resolves] at still ⊢
        cases result : vspaceMapPage (s.mm.heap.supplied op.pages op.objects) (s.mm.vspaces obj)
            op.uva op.flags with
        | error h =>
            rw [result] at still
            cases still
        | ok r =>
            rw [result] at step
            obtain ⟨tables', ledger', none⟩ := step
            refine ⟨rfl, tables', ?_, ?_⟩
            · show Ledger h₀ obj root r.1 (Function.update s.mm.vspaces obj r.2.1 obj) tables'
              rw [Function.update_self]
              exact ledger'
            · show (Function.update s.mm.vspaces obj r.2.1 obj).regions = [] ↔ _
              rw [Function.update_self]
              exact none
      obtain ⟨caps', tables'', ledger'', none'⟩ := ih (caps ▸ resolves) ledger' later running
      refine ⟨caps'.trans caps, tables'', ledger'', ?_⟩
      rw [Machine.run_cons, none', none, List.forall_mem_cons, and_assoc]

/-- The pages and the objects in use. -/
def MmState.inUse (m : MmState) : Finset Pfn × Finset Obj := (m.heap.pages, m.heap.objects)

/-- The state after the calls `ops` on a vspace just created, and its capability. -/
def lived (m : MmState) (ops : List PageOp) : Life :=
  (life (mmVspaceCreate m).2).run ⟨(mmVspaceCreate m).1, false⟩ ops

/-- Creating, filling and destroying a vspace leaves in use what was in use before, and a
creation that fails leaves it so at once. -/
structure Conserves (m : MmState) (ops : List PageOp) : Prop where
  failed : (mmVspaceCreate m).2 = capNull → (mmVspaceCreate m).1.inUse = m.inUse
  destroyed : (mmVspaceCreate m).2 ≠ capNull →
    (mmVspaceDestroy (lived m ops).mm (mmVspaceCreate m).2).inUse = m.inUse

/-- `vspace_alloc` fails; or the capability table has a free slot, the pgd lies below
4 GiB and no `vspace_map_page` gets as far as `mmu_map`. -/
def Lossless (m : MmState) (ops : List PageOp) : Prop :=
  m.heap.objectSupply = [] ∨ m.heap.pageSupply = [] ∨
    (ensureFreeList m.caps).freeHead ≠ 0 ∧ (∀ page ∈ m.heap.pageSupply.head?, page < 2 ^ 20) ∧
      ∀ op ∈ ops, ¬ op.Maps

/-- The ledger of a vspace just made. -/
theorem ledger_made {h : Heap} (answers : h.Answers h.pageSupply h.objectSupply) {objs : List Obj}
    {rest : List Pfn} (hasObject : h.objectSupply = obj :: objs) (hasPage : h.pageSupply = root :: rest) :
    Ledger h obj root ((h.took root rest obj objs).clear (frame root))
      ⟨obj, frame root, userMmapBase, [], [frame root]⟩ ∅ where
  self := rfl
  pgd := rfl
  pages p := by
    show p ∈ insert root h.pages ↔ _
    simp only [Finset.mem_insert, List.map_nil, List.not_mem_nil, Finset.notMem_empty, or_false]
    tauto
  objects o := by
    show o ∈ insert obj h.objects ↔ _
    simp only [Finset.mem_insert, List.map_nil, List.not_mem_nil, or_false]
    tauto
  rootNew := (answers.2.1 root (by simp [hasPage])).1
  objNew := answers.2.2.2 obj (by simp [hasObject])
  regionNew := nofun
  tableNew := by simp
  recordNew := nofun
  empty _ := ⟨rfl, Function.update_self _ _ _⟩
  lost some := absurd rfl some

/-- A token just issued resolves under the rights it was issued with. -/
theorem capAlloc_resolves {caps : CapState Obj} {live : List (Live Obj)} (table : CapInv caps live)
    (free : (ensureFreeList caps).freeHead ≠ 0) (o : Obj) (rights required : UInt64)
    (allowed : RightsSubset required rights) :
    (capAlloc caps (some o) rights).2 ≠ capNull ∧
      capResolve (capAlloc caps (some o) rights).1 (capAlloc caps (some o) rights).2 required = some o := by
  rw [capAlloc_some, if_neg free]
  dsimp only
  have inv := table.ensure.alloc (ensureFreeList_inited caps) free o rights
    (takeGeneration (ensureFreeList caps).nextGeneration).1
    (takeGeneration (ensureFreeList caps).nextGeneration).2
  have resolves := (inv.resolve_live List.mem_cons_self required).1 allowed
  have slot := inv.slot_pos _ List.mem_cons_self
  exact ⟨token_ne_null slot, resolves⟩

section Made

variable {m : MmState} {live : List (Live Obj)} {objs : List Obj} {rest : List Pfn} {ops : List PageOp}

/-- `vspace_create` when `vspace_alloc` succeeds. -/
theorem create_made (hasObject : m.heap.objectSupply = obj :: objs)
    (hasPage : m.heap.pageSupply = root :: rest) :
    mmVspaceCreate m =
      (⟨(m.heap.took root rest obj objs).clear (frame root),
        (capAlloc m.caps (some obj) (capRMap ||| capRCtl)).1,
        Function.update m.vspaces obj ⟨obj, frame root, userMmapBase, [], [frame root]⟩⟩,
        (capAlloc m.caps (some obj) (capRMap ||| capRCtl)).2) := by
  have made : vspaceAlloc m.heap = ((m.heap.took root rest obj objs).clear (frame root),
      some ⟨obj, frame root, userMmapBase, [], [frame root]⟩) := by
    simp only [vspaceAlloc, Heap.kmalloc, Heap.kzallocPages, Heap.buddyAllocPages, hasObject, hasPage]
    rfl
  rw [mmVspaceCreate, made]

/-- With the capability table full the vspace is lost at once. -/
theorem not_conserves_full (answers : m.heap.Answers m.heap.pageSupply m.heap.objectSupply)
    (hasObject : m.heap.objectSupply = obj :: objs) (hasPage : m.heap.pageSupply = root :: rest)
    (full : (ensureFreeList m.caps).freeHead = 0) : ¬ Conserves m ops := by
  intro conserves
  have create := create_made hasObject hasPage
  have fresh : root ∉ m.heap.pages := (answers.2.1 root (by simp [hasPage])).1
  have null : (mmVspaceCreate m).2 = capNull := by rw [create, capAlloc_some, if_pos full]
  have same := congrArg Prod.fst (conserves.failed null)
  rw [create] at same
  change insert root m.heap.pages = m.heap.pages at same
  exact fresh (Finset.insert_eq_self.1 same)

/-- With a capability issued, what is lost are the tables, and the pgd if it is not found
again. -/
theorem conserves_issued_iff (table : CapInv m.caps live)
    (answers : m.heap.Answers m.heap.pageSupply m.heap.objectSupply)
    (hasObject : m.heap.objectSupply = obj :: objs) (hasPage : m.heap.pageSupply = root :: rest)
    (free : (ensureFreeList m.caps).freeHead ≠ 0)
    (admitted : (life (mmVspaceCreate m).2).Admits ⟨(mmVspaceCreate m).1, false⟩ ops)
    (running : (lived m ops).hung = false) :
    Conserves m ops ↔ root < 2 ^ 20 ∧ ∀ op ∈ ops, ¬ op.Maps := by
  have create := create_made hasObject hasPage
  have maps := capAlloc_resolves table free obj (capRMap ||| capRCtl) capRMap
    ((rightsSubset_iff _ _).2 (by decide))
  have controls := capAlloc_resolves table free obj (capRMap ||| capRCtl) capRCtl
    ((rightsSubset_iff _ _).2 (by decide))
  have issued : (mmVspaceCreate m).2 ≠ capNull := by
    rw [create]
    exact maps.1
  have fresh : (mmVspaceCreate m).1.vspaces obj = ⟨obj, frame root, userMmapBase, [], [frame root]⟩ := by
    rw [create]
    exact Function.update_self _ _ _
  have ledger : Ledger m.heap obj root (mmVspaceCreate m).1.heap
      ((mmVspaceCreate m).1.vspaces obj) ∅ := by
    rw [fresh, create]
    exact ledger_made answers hasObject hasPage
  obtain ⟨caps, tables, ledger', none⟩ :=
    life_ledger (by rw [create]; exact maps.2) ledger admitted running
  have noTables : tables = ∅ ↔ ∀ op ∈ ops, ¬ op.Maps := by
    rw [show (∀ op ∈ ops, ¬ op.Maps) ↔ _ from (none.trans (and_iff_right (by rw [fresh]))).symm]
    exact ⟨fun nothing => Classical.not_not.1 fun some => ledger'.lost some nothing,
      fun nothing => (ledger'.empty nothing).1⟩
  obtain ⟨objects, pages⟩ := ledger'.free
  have destroy : (mmVspaceDestroy (lived m ops).mm (mmVspaceCreate m).2).inUse =
      ((vspaceFree (lived m ops).mm.heap ((lived m ops).mm.vspaces obj)).pages,
        (vspaceFree (lived m ops).mm.heap ((lived m ops).mm.vspaces obj)).objects) := by
    have found : capResolve (lived m ops).mm.caps (mmVspaceCreate m).2 capRCtl = some obj := by
      rw [lived, caps, create]
      exact controls.2
    rw [mmVspaceDestroy, found]
    rfl
  rw [← noTables, ← pages]
  constructor
  · intro conserves
    have same := conserves.destroyed issued
    rw [destroy] at same
    exact congrArg Prod.fst same
  · intro same
    refine ⟨fun null => absurd null issued, fun _ => ?_⟩
    rw [destroy]
    exact Prod.ext same objects

end Made

/-- **The life of an address space conserves memory exactly if it is lossless.** -/
theorem lifecycle_conserves_iff {m : MmState} {live : List (Live Obj)} (table : CapInv m.caps live)
    (answers : m.heap.Answers m.heap.pageSupply m.heap.objectSupply) {ops : List PageOp}
    (admitted : (life (mmVspaceCreate m).2).Admits ⟨(mmVspaceCreate m).1, false⟩ ops)
    (running : (lived m ops).hung = false) : Conserves m ops ↔ Lossless m ops := by
  cases objects : m.heap.objectSupply with
  | nil =>
      have alloc : vspaceAlloc m.heap = (m.heap, none) := by
        simp only [vspaceAlloc, Heap.kmalloc, objects]
      have create : mmVspaceCreate m = (m, capNull) := by rw [mmVspaceCreate, alloc]
      refine iff_of_true ⟨fun _ => by rw [create], fun issued => ?_⟩ (.inl objects)
      exact absurd (congrArg Prod.snd create) issued
  | cons obj objs =>
      cases supply : m.heap.pageSupply with
      | nil =>
          have fresh : obj ∉ m.heap.objects := answers.2.2.2 obj (by simp [objects])
          have alloc : vspaceAlloc m.heap =
              (Heap.kfree { m.heap with objectSupply := objs, objects := insert obj m.heap.objects } obj,
                none) := by
            simp only [vspaceAlloc, Heap.kmalloc, Heap.kzallocPages, Heap.buddyAllocPages, objects, supply]
          have create : (mmVspaceCreate m).2 = capNull := by rw [mmVspaceCreate, alloc]
          refine iff_of_true ⟨fun _ => ?_, fun issued => absurd create issued⟩ (.inr (.inl supply))
          rw [mmVspaceCreate, alloc]
          show (m.heap.pages, (insert obj m.heap.objects).erase obj) = (m.heap.pages, m.heap.objects)
          rw [Finset.erase_insert fresh]
      | cons root rest =>
          have lossless : Lossless m ops ↔
              (ensureFreeList m.caps).freeHead ≠ 0 ∧ root < 2 ^ 20 ∧ ∀ op ∈ ops, ¬ op.Maps := by
            simp [Lossless, objects, supply]
          rw [lossless]
          by_cases full : (ensureFreeList m.caps).freeHead = 0
          · exact iff_of_false (not_conserves_full answers objects supply full) fun right => right.1 full
          · rw [and_iff_right full]
            exact conserves_issued_iff table answers objects supply full admitted running

/-! ### A life without a loss, and one with -/

/-- The manager at boot, with a page and an object for the first vspace. -/
def bootMm : MmState where
  heap := ⟨fun _ _ => 0, [0x100], [1], ∅, ∅, []⟩
  caps := CapState.boot
  vspaces _ := ⟨0, 0, 0, [], []⟩

/-- A page at the load address, with no memory left for its vregion. -/
def mapFails : PageOp := ⟨0x400000, vmRead ||| vmExec, [0x101], []⟩

/-- The same page, with memory for everything. -/
def mapWorks : PageOp := ⟨0x400000, vmRead ||| vmExec, [0x101, 0x102, 0x103, 0x104], [2]⟩

theorem lifecycle_conserves_failed_map : Conserves bootMm [mapFails] :=
  (lifecycle_conserves_iff capInv_boot (by decide) (by decide +kernel) (by decide +kernel)).2
    (.inr (.inr ⟨by decide +kernel, by decide, by decide⟩))

/-- **One mapped page loses three tables.** -/
theorem lifecycle_loses_tables :
    CapInv bootMm.caps [] ∧ bootMm.heap.Answers bootMm.heap.pageSupply bootMm.heap.objectSupply ∧
    (life (mmVspaceCreate bootMm).2).Admits ⟨(mmVspaceCreate bootMm).1, false⟩ [mapWorks] ∧
    (lived bootMm [mapWorks]).hung = false ∧ bootMm.inUse = (∅, ∅) ∧
    (mmVspaceCreate bootMm).2 ≠ capNull ∧
    (mmVspaceDestroy (lived bootMm [mapWorks]).mm (mmVspaceCreate bootMm).2).inUse =
      ({0x102, 0x103, 0x104}, ∅) ∧
    ¬ Conserves bootMm [mapWorks] := by
  refine ⟨capInv_boot, by decide, by decide +kernel, by decide +kernel, rfl, by decide +kernel,
    by decide +kernel, fun conserves => ?_⟩
  have same := conserves.destroyed (by decide +kernel)
  revert same
  decide +kernel

end Life

end Minus.Mm.AddressSpace
