/-
# Mm.VspaceIsolation — address spaces do not meet

Any number of vspaces over one heap.  Each uses some pages as tables and some as
data; `Isolated` says that what a live vspace uses is in use for the allocator,
that no two of them use the same page, and that what a walk of one finds is data of
its own.  A call on one vspace writes only pages of its own and pages just handed
out, so every other page table reads the same afterwards.

All of this is about the pages that addresses lead to.  The allocator hands out page
frame numbers, and two of them that differ by 2^20 lead to one page; so the vspaces
are apart only if every page lies below 4 GiB.
-/
import Minus.Mm.VspaceMap
import Minus.Mm.VspaceLife

namespace Minus.Mm.AddressSpace

set_option autoImplicit false

open Minus.Theory
open Minus.Core.Mmu (Memory Call Owner Rooted Path pageSize pageOf typeOf pteTypeTable walk)
open Minus.Mm.Buddy (Pfn)

/-! ## The calls -/

/-- Vspaces by the order of their creation. -/
structure Spaces where
  heap : Heap
  count : Nat
  live : Nat → Option Vspace
  hung : Bool

inductive Act where
  | alloc
  | mapPage (v : Nat) (uva : UInt64) (flags : UInt32)
  | free (v : Nat)

/-- A call, and what the allocators answer in it. -/
structure SpaceOp where
  act : Act
  pages : List Pfn
  objects : List Obj

/-- The vspace that a call is on. -/
def Act.target : Act → Option Nat
  | .alloc => none
  | .mapPage v _ _ => some v
  | .free v => some v

/-- Calls on live vspaces, in any order. -/
def spaces : Machine Spaces SpaceOp where
  enabled s op := s.hung = false ∧ s.heap.Answers op.pages op.objects ∧
    ∀ v ∈ op.act.target, s.live v ≠ none
  step s op :=
    let h := s.heap.supplied op.pages op.objects
    match op.act with
    | .alloc =>
        match vspaceAlloc h with
        | (h, none) => { s with heap := h }
        | (h, some vs) =>
            { s with heap := h, count := s.count + 1, live := Function.update s.live s.count (some vs) }
    | .mapPage v uva flags =>
        match s.live v with
        | none => s
        | some vs =>
            match vspaceMapPage h vs uva flags with
            | .ok (h, vs, _) => { s with heap := h, live := Function.update s.live v (some vs) }
            | .error h => { s with heap := h, hung := true }
    | .free v =>
        match s.live v with
        | none => s
        | some vs => { s with heap := vspaceFree h vs, live := Function.update s.live v none }

instance (s : Spaces) (op : SpaceOp) : Decidable (spaces.enabled s op) :=
  inferInstanceAs (Decidable (_ ∧ _ ∧ ∀ v ∈ op.act.target, s.live v ≠ none))

/-- Every page handed out lies below 4 GiB. -/
def Low (_ : Spaces) (op : SpaceOp) : Prop := ∀ p ∈ op.pages, p < 2 ^ 20

instance (s : Spaces) (op : SpaceOp) : Decidable (Low s op) := inferInstanceAs (Decidable (∀ _ ∈ _, _))

/-! ## Tables -/

/-- The page `q` is one of the tables that a walk from `table` may go through. -/
def IsTable (mem : Memory) : Nat → Nat → Nat → Prop
  | 0, table, q => q = table
  | n + 1, table, q => q = table ∨
      ∃ i, typeOf (mem table i) = pteTypeTable ∧ IsTable mem n (pageOf (mem table i)) q

theorem IsTable.owned {own : Owner} {mem : Memory} {vs : Vspace} (space : Space own mem vs) {q : Nat} :
    ∀ {n table : Nat} {π : Path}, own table = some π → π.length + n = 3 → IsTable mem n table q →
      ∃ ρ, own q = some ρ
  | 0, table, π, placed, _, here => ⟨π, here ▸ placed⟩
  | n + 1, table, π, placed, depth, there => by
      obtain rfl | ⟨i, isTable, below⟩ := there
      · exact ⟨π, placed⟩
      · obtain invalid | ⟨block, _⟩ | ⟨_, child⟩ := space.tables.entry table π i placed (by omega)
        · change typeOf (mem table i) = _ at invalid
          rw [isTable] at invalid
          cases invalid
        · change typeOf (mem table i) = _ at block
          rw [isTable] at block
          cases block
        · exact IsTable.owned space child (by simp only [List.length_cons]; omega) below

theorem IsTable.mem_tables {own : Owner} {mem : Memory} {vs : Vspace} (space : Space own mem vs) {q : Nat}
    (table : IsTable mem 3 vs.pgd q) : q ∈ vs.tables :=
  (space.mem_tables q).2 (table.owned space space.root rfl)

/-! ## The invariant -/

/-- The pages of a vspace. -/
def Vspace.Uses (vs : Vspace) (p : Nat) : Prop := p ∈ vs.tables ∨ p ∈ vs.regions.map (·.page)

structure Isolated (s : Spaces) : Prop where
  space : ∀ v vs, s.live v = some vs → ∃ own, Space own s.heap.mem vs
  used : ∀ v vs, s.live v = some vs → ∀ p, vs.Uses p → p ∈ s.heap.pages
  kinds : ∀ v vs, s.live v = some vs → ∀ p ∈ vs.tables, p ∉ vs.regions.map (·.page)
  apart : ∀ v vs w ws, v ≠ w → s.live v = some vs → s.live w = some ws → ∀ p, vs.Uses p → ¬ ws.Uses p
  backed : ∀ v vs, s.live v = some vs → ∀ a, a < 2 ^ 48 → ∀ pa attr,
    walk s.heap.mem vs.pgd a = some (pa, attr) → pa / pageSize ∈ vs.regions.map (·.page)
  unborn : ∀ v, s.count ≤ v → s.live v = none

/-- The translations of one vspace are what they were. -/
def Spaces.Same (s s' : Spaces) (v : Nat) : Prop :=
  ∀ vs, s.live v = some vs → s'.live v = some vs ∧
    ∀ a, walk s'.heap.mem vs.pgd a = walk s.heap.mem vs.pgd a

section Step

variable {s : Spaces}

theorem Isolated.same (inv : Isolated s) {s' : Spaces} {v : Nat} (live : s'.live v = s.live v)
    (kept : ∀ vs, s.live v = some vs → ∀ p ∈ vs.tables, s'.heap.mem p = s.heap.mem p) : s.Same s' v := by
  intro vs alive
  obtain ⟨own, space⟩ := inv.space v vs alive
  exact ⟨live.trans alive, (space.congr (kept vs alive)).2⟩

/-- A vspace is made or changed, and no table of another is written. -/
theorem Isolated.put (inv : Isolated s) {s' : Spaces} {v : Nat} {vs' : Vspace}
    (live : s'.live = Function.update s.live v (some vs')) (born : v < s'.count) (older : s.count ≤ s'.count)
    (kept : ∀ w ws, w ≠ v → s.live w = some ws → ∀ p ∈ ws.tables, s'.heap.mem p = s.heap.mem p)
    (pages : s.heap.pages ⊆ s'.heap.pages) (space : ∃ own, Space own s'.heap.mem vs')
    (used : ∀ p, vs'.Uses p → p ∈ s'.heap.pages) (kinds : ∀ p ∈ vs'.tables, p ∉ vs'.regions.map (·.page))
    (apart : ∀ w ws, w ≠ v → s.live w = some ws → ∀ p, vs'.Uses p → ¬ ws.Uses p)
    (backed : ∀ a, a < 2 ^ 48 → ∀ pa attr, walk s'.heap.mem vs'.pgd a = some (pa, attr) →
      pa / pageSize ∈ vs'.regions.map (·.page)) : Isolated s' := by
  have here : s'.live v = some vs' := by rw [live, Function.update_self]
  have there : ∀ w, w ≠ v → s'.live w = s.live w := fun w other => by
    rw [live, Function.update_of_ne other]
  have others : ∀ w ws, w ≠ v → s'.live w = some ws → s.live w = some ws ∧
      (∃ own, Space own s'.heap.mem ws) ∧ ∀ a, walk s'.heap.mem ws.pgd a = walk s.heap.mem ws.pgd a := by
    intro w ws other alive
    rw [there w other] at alive
    obtain ⟨own, old⟩ := inv.space w ws alive
    obtain ⟨new, walks⟩ := old.congr (kept w ws other alive)
    exact ⟨alive, ⟨own, new⟩, walks⟩
  refine ⟨?_, ?_, ?_, ?_, ?_, ?_⟩
  · intro w ws alive
    by_cases same : w = v
    · subst same
      rw [here] at alive
      cases alive
      exact space
    · exact (others w ws same alive).2.1
  · intro w ws alive p uses
    by_cases same : w = v
    · subst same
      rw [here] at alive
      cases alive
      exact used p uses
    · exact pages (inv.used w ws (others w ws same alive).1 p uses)
  · intro w ws alive
    by_cases same : w = v
    · subst same
      rw [here] at alive
      cases alive
      exact kinds
    · exact inv.kinds w ws (others w ws same alive).1
  · intro w ws x xs differ aliveW aliveX p usesW usesX
    by_cases sameW : w = v
    · subst sameW
      rw [here] at aliveW
      cases aliveW
      exact apart x xs differ.symm (others x xs differ.symm aliveX).1 p usesW usesX
    · have oldW := (others w ws sameW aliveW).1
      by_cases sameX : x = v
      · subst sameX
        rw [here] at aliveX
        cases aliveX
        exact apart w ws sameW oldW p usesX usesW
      · exact inv.apart w ws x xs differ oldW (others x xs sameX aliveX).1 p usesW usesX
  · intro w ws alive a low pa attr found
    by_cases same : w = v
    · subst same
      rw [here] at alive
      cases alive
      exact backed a low pa attr found
    · obtain ⟨old, _, walks⟩ := others w ws same alive
      rw [walks a] at found
      exact inv.backed w ws old a low pa attr found
  · intro w late
    rw [there w (by omega)]
    exact inv.unborn w (by omega)

/-- What a call for one page asks for lies in that page. -/
theorem translate_page {c : Call} (page : c.IsPage) {w pa : Nat} {attr : UInt64}
    (found : c.translate w = some (pa, attr)) : pa / pageSize = c.pa.toNat / pageSize := by
  have paAligned := page.pa
  unfold Call.translate at found
  dsimp only at found
  split at found
  · rename_i covers
    cases found
    rw [page.pstart]
    rw [page.vstart] at covers ⊢
    cases Nat.lt_or_ge (c.va.toNat + pageSize) (2 ^ 64) with
    | inl low =>
        rw [page.vend low] at covers
        unfold pageSize at *
        omega
    | inr last =>
        rw [page.vend_last last] at covers
        omega
  · cases found

/-- Only the allocators' own books have changed. -/
theorem Isolated.idle (inv : Isolated s) {s' : Spaces} (mem : s'.heap.mem = s.heap.mem)
    (pages : s'.heap.pages = s.heap.pages) (count : s'.count = s.count) (live : s'.live = s.live) :
    Isolated s' := by
  obtain ⟨heap, n, alive, hung⟩ := s'
  obtain ⟨heap₀, n₀, alive₀, hung₀⟩ := s
  dsimp only at mem pages count live
  subst count live
  refine ⟨?_, ?_, inv.kinds, inv.apart, ?_, inv.unborn⟩
  · rw [mem]
    exact inv.space
  · rw [pages]
    exact inv.used
  · rw [mem]
    exact inv.backed

/-- **`vspace_alloc`.** -/
theorem alloc_step (inv : Isolated s) {pages : List Pfn} {objects : List Obj}
    (answers : s.heap.Answers pages objects) (low : ∀ p ∈ pages, p < 2 ^ 20) :
    Isolated (spaces.step s ⟨.alloc, pages, objects⟩) ∧
      ∀ v, s.Same (spaces.step s ⟨.alloc, pages, objects⟩) v := by
  have out := vspaceAlloc_outcome (s.heap.supplied pages objects)
  unfold spaces
  dsimp only
  cases made : vspaceAlloc (s.heap.supplied pages objects) with
  | mk h ret =>
      rw [made] at out
      cases out with
      | noObject noObjects => exact ⟨inv.idle rfl rfl rfl rfl, fun v => inv.same rfl fun _ _ _ _ => rfl⟩
      | noPgd obj objs hasObject noPages =>
          exact ⟨inv.idle rfl rfl rfl rfl, fun v => inv.same rfl fun _ _ _ _ => rfl⟩
      | made obj objs page rest hasObject hasPage =>
          have member : page ∈ pages := by
            change pages = page :: rest at hasPage
            simp [hasPage]
          have small : frame page = page := frame_of_lt (low page member)
          have fresh : page ∉ s.heap.pages := (answers.2.1 page member).1
          have zero : (((s.heap.supplied pages objects).took page rest obj objs).clear
              (frame page)).mem (frame page) = fun _ => 0 := Function.update_self _ _ _
          have kept : ∀ w ws, s.live w = some ws → ∀ p ∈ ws.tables,
              (((s.heap.supplied pages objects).took page rest obj objs).clear (frame page)).mem p =
                s.heap.mem p := by
            intro w ws alive p table
            apply Function.update_of_ne
            rw [small]
            rintro rfl
            exact fresh (inv.used w ws alive p (.inl table))
          refine ⟨inv.put (v := s.count) rfl (Nat.lt_succ_self _) (Nat.le_succ _)
            (fun w ws _ alive => kept w ws alive) (Finset.subset_insert _ _)
            ⟨_, Core.Mmu.rooted_zero zero rfl⟩ ?_ (fun _ _ none_ => absurd none_ List.not_mem_nil) ?_ ?_, fun v => ?_⟩
          · rintro p (table | data)
            · rw [List.mem_singleton.1 table, small]
              exact Finset.mem_insert_self _ _
            · cases data
          · rintro w ws _ alive p (table | data) uses
            · rw [List.mem_singleton.1 table, small] at uses
              exact fresh (inv.used w ws alive page uses)
            · cases data
          · intro a _ pa attr found
            rw [walk, Core.Mmu.lookup_zero_page (fun i => congrFun zero i) a 3] at found
            cases found
          · cases alive : s.live v with
            | none =>
                intro vs known
                cases alive.symm.trans known
            | some vs =>
                have other : v ≠ s.count := by
                  rintro rfl
                  rw [inv.unborn s.count (Nat.le_refl _)] at alive
                  cases alive
                exact inv.same (Function.update_of_ne other _ _) (kept v)

/-- The data pages after a call. -/
theorem PageMapped.mem_data {h h' : Heap} {vs vs' : Vspace} {uva : UInt64} {flags : UInt32} {page : Pfn}
    {used : List Pfn} (mapped : PageMapped h h' vs vs' uva flags page used) (p : Nat) :
    p ∈ vs'.regions.map (·.page) ↔ p ∈ vs.regions.map (·.page) ∨ p = page := by
  obtain ⟨obj, regions⟩ := mapped.regions
  rw [regions, List.map_append, List.mem_append, List.map_singleton, List.mem_singleton]

/-- The pages in use after a call. -/
theorem PageMapped.uses {h h' : Heap} {vs vs' : Vspace} {uva : UInt64} {flags : UInt32} {page : Pfn}
    {used : List Pfn} (mapped : PageMapped h h' vs vs' uva flags page used) {p : Nat}
    (there : vs'.Uses p) : vs.Uses p ∨ p = page ∨ p ∈ used := by
  rcases there with table | data
  · exact ((mapped.tables p).1 table).elim (fun member => .inr (.inr member)) fun old => .inl (.inl old)
  · exact ((mapped.mem_data p).1 data).elim (fun old => .inl (.inr old)) fun same => .inr (.inl same)

/-- No page becomes both a table and a data page. -/
theorem PageMapped.kinds {h h' : Heap} {vs vs' : Vspace} {uva : UInt64} {flags : UInt32} {page : Pfn}
    {used : List Pfn} (mapped : PageMapped h h' vs vs' uva flags page used) (supply : h.LowSupply)
    (inUse : ∀ p, vs.Uses p → p ∈ h.pages) (kinds : ∀ p ∈ vs.tables, p ∉ vs.regions.map (·.page)) :
    ∀ p ∈ vs'.tables, p ∉ vs'.regions.map (·.page) := by
  intro p table there
  obtain old | rfl := (mapped.mem_data p).1 there
  · obtain member | before := (mapped.tables p).1 table
    · exact supply.new p (by simp [mapped.supply, member]) (inUse p (.inr old))
    · exact kinds p before old
  · exact mapped.notTable supply (fun p table => inUse p (.inl table)) table

/-- Each translation after a call leads to a data page. -/
theorem PageMapped.backed {h h' : Heap} {vs vs' : Vspace} {uva : UInt64} {flags : UInt32} {page : Pfn}
    {used : List Pfn} (mapped : PageMapped h h' vs vs' uva flags page used) (supply : h.LowSupply)
    (backed : ∀ a, a < 2 ^ 48 → ∀ pa attr, walk h.mem vs.pgd a = some (pa, attr) →
      pa / pageSize ∈ vs.regions.map (·.page)) :
    ∀ a, a < 2 ^ 48 → ∀ pa attr, walk h'.mem vs'.pgd a = some (pa, attr) →
      pa / pageSize ∈ vs'.regions.map (·.page) := by
  intro a below pa attr found
  rw [mapped.pgd, mapped.walks a below] at found
  rw [mapped.mem_data]
  cases asked : (pageCall uva flags page).translate a with
  | some hit =>
      rw [asked] at found
      cases found
      right
      rw [translate_page (pageCall_isPage flags mapped.aligned page) asked]
      show (UInt64.ofNat (pageToPhy page)).toNat / pageSize = page
      rw [pageToPhy_toNat]
      exact frame_of_lt (supply.low page (by simp [mapped.supply]))
  | none =>
      rw [asked] at found
      exact .inl (backed a below pa attr found)

/-- **`vspace_map_page`.** -/
theorem mapPage_step (inv : Isolated s) {v : Nat} {vs : Vspace} (alive : s.live v = some vs) (uva : UInt64)
    (flags : UInt32) {pages : List Pfn} {objects : List Obj} (answers : s.heap.Answers pages objects)
    (low : ∀ p ∈ pages, p < 2 ^ 20) :
    ((spaces.step s ⟨.mapPage v uva flags, pages, objects⟩).hung = false →
        Isolated (spaces.step s ⟨.mapPage v uva flags, pages, objects⟩)) ∧
      ∀ w, w ≠ v → s.Same (spaces.step s ⟨.mapPage v uva flags, pages, objects⟩) w := by
  obtain ⟨own, space⟩ := inv.space v vs alive
  have supply : (s.heap.supplied pages objects).LowSupply :=
    ⟨low, answers.1, fun p member => (answers.2.1 p member).1⟩
  have spec := vspaceMapPage_space (h := s.heap.supplied pages objects) space supply
    (fun p table => inv.used v vs alive p (.inl table)) uva flags
  -- a page that another vspace uses as a table is neither this one's nor handed out
  have foreign : ∀ w ws, w ≠ v → s.live w = some ws → ∀ p, ws.Uses p →
      p ∉ pages ∧ p ∉ vs.tables ∧ p ∉ vs.regions.map (·.page) := by
    intro w ws other aliveW p uses
    have apart := inv.apart w ws v vs other aliveW alive p uses
    exact ⟨fun handed => (answers.2.1 p handed).1 (inv.used w ws aliveW p uses),
      fun table => apart (.inl table), fun data => apart (.inr data)⟩
  unfold spaces
  simp only [alive]
  cases result : vspaceMapPage (s.heap.supplied pages objects) vs uva flags with
  | error h =>
      rw [result] at spec
      refine ⟨nofun, fun w other => inv.same rfl fun ws aliveW p table => ?_⟩
      obtain ⟨notHanded, notTable, _⟩ := foreign w ws other aliveW p (.inl table)
      exact spec p notTable notHanded
  | ok r =>
      obtain ⟨h', vs', ret⟩ := r
      rw [result] at spec
      dsimp only
      obtain ⟨refused, _⟩ | ⟨page, used, mapped, _⟩ := spec
      · have vspace := refused.vspace
        change vs' = vs at vspace
        subst vspace
        have live : Function.update s.live v (some vs') = s.live := by
          rw [← alive, Function.update_eq_self]
        exact ⟨fun _ => inv.idle refused.mem refused.pages rfl live,
          fun w _ => inv.same (congrFun live w) fun _ _ p _ => congrFun refused.mem p⟩
      · have split : pages = page :: (used ++ h'.pageSupply) := mapped.supply
        have handed : ∀ p, p = page ∨ p ∈ used → p ∈ pages := by
          rintro p (rfl | member)
          · simp [split]
          · simp [split, member]
        have kept : ∀ w ws, w ≠ v → s.live w = some ws → ∀ p ∈ ws.tables, h'.mem p = s.heap.mem p := by
          intro w ws other aliveW p table
          obtain ⟨notHanded, notTable, _⟩ := foreign w ws other aliveW p (.inl table)
          exact mapped.untouched p (fun same => notHanded (handed p (.inl same)))
            (fun member => notHanded (handed p (.inr member))) notTable
        refine ⟨fun _ => inv.put (v := v) rfl (Nat.lt_of_not_le fun late => ?_) (Nat.le_refl _) kept
          (fun p old => (mapped.mem_pages p).2 (.inl old)) mapped.space ?_
          (mapped.kinds supply (inv.used v vs alive) (inv.kinds v vs alive)) ?_
          (mapped.backed supply (inv.backed v vs alive)),
          fun w other => inv.same (Function.update_of_ne other _ _) (kept w · other)⟩
        · rw [inv.unborn v late] at alive
          cases alive
        · intro p there
          exact (mapped.mem_pages p).2 ((mapped.uses there).imp_left (inv.used v vs alive p))
        · intro w ws other aliveW p there usesW
          obtain ⟨notHanded, notTable, notData⟩ := foreign w ws other aliveW p usesW
          obtain (table | old) | fresh := mapped.uses there
          · exact notTable table
          · exact notData old
          · exact notHanded (handed p fresh)

theorem foldl_freeRegion_mem (regions : List Vregion) (h : Heap) :
    (regions.foldl freeRegion h).mem = h.mem := by
  induction regions generalizing h with
  | nil => rfl
  | cons vr rest ih =>
      rw [List.foldl_cons, ih]
      rfl

theorem vspaceFree_mem (h : Heap) (vs : Vspace) : (vspaceFree h vs).mem = h.mem :=
  foldl_freeRegion_mem vs.regions h

/-- **`vspace_free`.** -/
theorem free_step (inv : Isolated s) {v : Nat} {vs : Vspace} (alive : s.live v = some vs)
    (pages : List Pfn) (objects : List Obj) :
    Isolated (spaces.step s ⟨.free v, pages, objects⟩) ∧
      ∀ w, w ≠ v → s.Same (spaces.step s ⟨.free v, pages, objects⟩) w := by
  have mem := vspaceFree_mem (s.heap.supplied pages objects) vs
  change _ = s.heap.mem at mem
  obtain ⟨own, space⟩ := inv.space v vs alive
  unfold spaces
  simp only [alive]
  have old : ∀ w ws, Function.update s.live v none w = some ws → w ≠ v ∧ s.live w = some ws := by
    intro w ws aliveW
    by_cases same : w = v
    · subst same
      rw [Function.update_self] at aliveW
      cases aliveW
    · rw [Function.update_of_ne same] at aliveW
      exact ⟨same, aliveW⟩
  refine ⟨⟨?_, ?_, ?_, ?_, ?_, ?_⟩, fun w other => inv.same (Function.update_of_ne other _ _)
    fun _ _ p _ => congrFun mem p⟩
  · intro w ws aliveW
    show ∃ own, Space own (vspaceFree _ vs).mem ws
    rw [mem]
    exact inv.space w ws (old w ws aliveW).2
  · -- nothing that another vspace uses is given back
    intro w ws aliveW p uses
    obtain ⟨other, aliveW⟩ := old w ws aliveW
    have apart := inv.apart w ws v vs other aliveW alive p uses
    show p ∈ (vspaceFree _ vs).pages
    rw [vspaceFree_pages]
    refine ⟨inv.used w ws aliveW p uses, fun data => apart (.inr data), ?_⟩
    rintro rfl
    exact apart (.inl ((space.mem_tables vs.pgd).2 ⟨[], space.root⟩))
  · intro w ws aliveW
    exact inv.kinds w ws (old w ws aliveW).2
  · intro w ws x xs differ aliveW aliveX
    exact inv.apart w ws x xs differ (old w ws aliveW).2 (old x xs aliveX).2
  · intro w ws aliveW a low pa attr found
    change walk (vspaceFree _ vs).mem ws.pgd a = _ at found
    rw [mem] at found
    exact inv.backed w ws (old w ws aliveW).2 a low pa attr found
  · intro w late
    by_cases same : w = v
    · subst same
      exact Function.update_self _ _ _
    · show Function.update s.live v none w = none
      rw [Function.update_of_ne same]
      exact inv.unborn w late

/-- **One call.**  It keeps the vspaces apart unless it hangs, and it never changes what
another vspace translates. -/
theorem isolated_step (inv : Isolated s) {op : SpaceOp} (enabled : (spaces.guard Low).enabled s op) :
    ((spaces.step s op).hung = false → Isolated (spaces.step s op)) ∧
      ∀ w, op.act.target ≠ some w → s.Same (spaces.step s op) w := by
  obtain ⟨⟨_, answers, alive⟩, low⟩ := enabled
  obtain ⟨act, pages, objects⟩ := op
  cases act with
  | alloc =>
      obtain ⟨isolated, same⟩ := alloc_step inv answers low
      exact ⟨fun _ => isolated, fun w _ => same w⟩
  | mapPage v uva flags =>
      obtain ⟨vs, known⟩ := Option.ne_none_iff_exists'.1 (alive v rfl)
      obtain ⟨isolated, same⟩ := mapPage_step inv known uva flags answers low
      exact ⟨isolated, fun w other => same w fun eq => other (by rw [eq]; rfl)⟩
  | free v =>
      obtain ⟨vs, known⟩ := Option.ne_none_iff_exists'.1 (alive v rfl)
      obtain ⟨isolated, same⟩ := free_step inv known pages objects
      exact ⟨fun _ => isolated, fun w other => same w fun eq => other (by rw [eq]; rfl)⟩

end Step

/-! ## Runs -/

/-- No vspace has been made. -/
structure Spaces.Boot (s : Spaces) : Prop where
  count : s.count = 0
  live : ∀ v, s.live v = none
  hung : s.hung = false

theorem isolated_boot {s : Spaces} (boot : s.Boot) : Isolated s := by
  have none : ∀ {v vs}, s.live v ≠ some vs := fun {v vs} alive => by
    rw [boot.live v] at alive
    cases alive
  exact ⟨fun _ _ alive => absurd alive none, fun _ _ alive => absurd alive none,
    fun _ _ alive => absurd alive none, fun _ _ _ _ _ alive => absurd alive none,
    fun _ _ alive => absurd alive none, fun v _ => boot.live v⟩

theorem isolated_run {s : Spaces} {ops : List SpaceOp} (inv : Isolated s)
    (admitted : (spaces.guard Low).Admits s ops) (running : (spaces.run s ops).hung = false) :
    Isolated (spaces.run s ops) := by
  induction ops generalizing s with
  | nil => exact inv
  | cons op rest ih =>
      have still : (spaces.step s op).hung = false := by
        cases rest with
        | nil => exact running
        | cons next more => exact admitted.2.1.1.1
      exact ih ((isolated_step inv admitted.1).1 still) admitted.2 running

/-- **Address spaces are isolated.**  In every state that calls on any number of vspaces lead
to, with every page below 4 GiB: a further call changes no translation of a vspace it is
not on; no physical page is reached through two live vspaces; and no table of a live
vspace is reached as user memory of any. -/
theorem address_spaces_isolated {s : Spaces} (boot : s.Boot) {ops : List SpaceOp}
    (admitted : (spaces.guard Low).Admits s ops) (running : (spaces.run s ops).hung = false) :
    (∀ op, (spaces.guard Low).enabled (spaces.run s ops) op → ∀ w, op.act.target ≠ some w →
      (spaces.run s ops).Same (spaces.step (spaces.run s ops) op) w) ∧
    (∀ v vs w ws, v ≠ w → (spaces.run s ops).live v = some vs → (spaces.run s ops).live w = some ws →
      ∀ a b, a < 2 ^ 48 → b < 2 ^ 48 → ∀ pa pb attrA attrB,
        walk (spaces.run s ops).heap.mem vs.pgd a = some (pa, attrA) →
        walk (spaces.run s ops).heap.mem ws.pgd b = some (pb, attrB) → pa / pageSize ≠ pb / pageSize) ∧
    ∀ v vs w ws, (spaces.run s ops).live v = some vs → (spaces.run s ops).live w = some ws →
      ∀ q, IsTable (spaces.run s ops).heap.mem 3 vs.pgd q → ∀ b, b < 2 ^ 48 → ∀ pb attrB,
        walk (spaces.run s ops).heap.mem ws.pgd b = some (pb, attrB) → pb / pageSize ≠ q := by
  have inv := isolated_run (isolated_boot boot) admitted running
  refine ⟨fun op enabled => (isolated_step inv enabled).2, ?_, ?_⟩
  · intro v vs w ws differ aliveV aliveW a b lowA lowB pa pb attrA attrB foundA foundB same
    have dataA := inv.backed v vs aliveV a lowA pa attrA foundA
    have dataB := inv.backed w ws aliveW b lowB pb attrB foundB
    rw [← same] at dataB
    exact inv.apart v vs w ws differ aliveV aliveW _ (.inr dataA) (.inr dataB)
  · intro v vs w ws aliveV aliveW q table b low pb attr found same
    obtain ⟨own, space⟩ := inv.space v vs aliveV
    have inTables := table.mem_tables space
    have data := inv.backed w ws aliveW b low pb attr found
    rw [same] at data
    by_cases here : v = w
    · subst here
      rw [aliveV] at aliveW
      cases aliveW
      exact inv.kinds v vs aliveV q inTables data
    · exact inv.apart v vs w ws here aliveV aliveW q (.inl inTables) (.inr data)

/-! ### Two address spaces -/

def bootSpaces : Spaces := ⟨⟨fun _ _ => 0, [], [], ∅, ∅, []⟩, 0, fun _ => none, false⟩

theorem bootSpaces_boot : bootSpaces.Boot := ⟨rfl, fun _ => rfl, rfl⟩

/-- Two vspaces with a page each at the load address; the second one's page is `page`. -/
def twoPrograms (page : Pfn) : List SpaceOp :=
  [⟨.alloc, [0x100], [1]⟩, ⟨.alloc, [0x101], [2]⟩,
    ⟨.mapPage 0 0x400000 vmRead, [0x105, 0x110, 0x111, 0x112], [3]⟩,
    ⟨.mapPage 1 0x400000 vmRead, [page, 0x113, 0x114, 0x115], [4]⟩]

/-- What the program of a vspace sees at the load address. -/
def loaded (s : Spaces) (v : Nat) : Option Nat :=
  (s.live v).bind fun vs => (walk s.heap.mem vs.pgd 0x400000).map Prod.fst

theorem address_spaces_isolated_low :
    loaded (spaces.run bootSpaces (twoPrograms 0x106)) 0 = some 0x105000 ∧
    loaded (spaces.run bootSpaces (twoPrograms 0x106)) 1 = some 0x106000 ∧
    ∀ v vs w ws, v ≠ w → (spaces.run bootSpaces (twoPrograms 0x106)).live v = some vs →
      (spaces.run bootSpaces (twoPrograms 0x106)).live w = some ws →
      ∀ a b, a < 2 ^ 48 → b < 2 ^ 48 → ∀ pa pb attrA attrB,
        walk (spaces.run bootSpaces (twoPrograms 0x106)).heap.mem vs.pgd a = some (pa, attrA) →
        walk (spaces.run bootSpaces (twoPrograms 0x106)).heap.mem ws.pgd b = some (pb, attrB) →
        pa / pageSize ≠ pb / pageSize :=
  ⟨by decide +kernel, by decide +kernel,
    (address_spaces_isolated bootSpaces_boot (by decide +kernel) (by decide +kernel)).2.1⟩

/-- **Two pages 4 GiB apart are one.**  Both programs are given page frame 0x105. -/
theorem address_spaces_share_high :
    bootSpaces.Boot ∧ spaces.Admits bootSpaces (twoPrograms 0x100105) ∧
    (spaces.run bootSpaces (twoPrograms 0x100105)).hung = false ∧
    loaded (spaces.run bootSpaces (twoPrograms 0x100105)) 0 = some 0x105000 ∧
    loaded (spaces.run bootSpaces (twoPrograms 0x100105)) 1 = some 0x105000 :=
  ⟨bootSpaces_boot, by decide +kernel, by decide +kernel, by decide +kernel, by decide +kernel⟩

end Minus.Mm.AddressSpace
