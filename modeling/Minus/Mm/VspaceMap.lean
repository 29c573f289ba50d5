/-
# Mm.VspaceMap — the vregions and the page table tell the same story

A vspace records each mapping twice: in its list of vregions, which the kernel
copies through, and in its page table, which the hardware walks.  `Space` is the
invariant of the page table and `mapIn_page` the specification of `mmu_map` on it.

`vspace_find_page` takes the first vregion that covers an address, the page table
keeps the last page mapped there.  So the two agree (`Agrees`) as long as no call
maps an address again.  Both sides also have to mean the same page by a page frame
number: `page_to_phy` does so below 4 GiB only (`Plain`).
-/
import Minus.Mm.VspaceBooks

namespace Minus.Mm.AddressSpace

set_option autoImplicit false

open Minus.Theory
open Minus.Core.Mmu (Memory Call IsAttr Owner Rooted Path mmuMap mmuMap_page pageSize walk pteAf)
open Minus.Mm.Buddy (Pfn)

/-! ## The page table of a vspace -/

/-- The page table of a vspace; `own` places its tables. -/
def Space (own : Owner) (mem : Memory) (vs : Vspace) : Prop := Rooted own ⟨mem, [], vs.tables⟩ vs.pgd

section Space

variable {own : Owner} {h : Heap} {vs : Vspace} {c : Call}

theorem Space.mem_tables {mem : Memory} (space : Space own mem vs) (p : Nat) :
    p ∈ vs.tables ↔ ∃ π, own p = some π := space.tables.member p

theorem Space.congr {mem mem' : Memory} (space : Space own mem vs)
    (same : ∀ p ∈ vs.tables, mem' p = mem p) :
    Space own mem' vs ∧ ∀ w, walk mem' vs.pgd w = walk mem vs.pgd w := by
  have owned : ∀ p π, own p = some π → mem' p = mem p := fun p π owned =>
    same p ((space.mem_tables p).2 ⟨π, owned⟩)
  have here := Rooted.congr space owned
  exact ⟨here.1, fun w => by rw [walk, walk, here.2]⟩

/-- The answers of the page allocator lie below 4 GiB, are apart and are no tables of the
vspace. -/
structure FreshFor (pages : List Pfn) (vs : Vspace) : Prop where
  low : ∀ p ∈ pages, p < 2 ^ 20
  nodup : pages.Nodup
  new : ∀ p ∈ pages, p ∉ vs.tables

theorem map_frame_of_low {pages : List Pfn} (low : ∀ p ∈ pages, p < 2 ^ 20) : pages.map frame = pages := by
  conv_rhs => rw [← List.map_id pages]
  apply List.map_congr_left
  intro p member
  exact frame_of_lt (low p member)

/-- What `mmu_map` of one page does to a vspace. -/
structure MappedIn (own' : Owner) (c : Call) (h h' : Heap) (vs vs' : Vspace) (used : List Pfn) :
    Prop where
  books : Books h h' vs vs' used
  space : Space own' h'.mem vs'
  untouched : ∀ p, own' p = none → h'.mem p = h.mem p
  walks : ∀ w, w < 2 ^ 48 → walk h'.mem vs.pgd w = (c.translate w).or (walk h.mem vs.pgd w)

/-- A hung `mmu_map` has written nothing but tables, old or just taken. -/
def Untouched (vs : Vspace) (h h' : Heap) : Prop :=
  ∀ p, p ∉ vs.tables → p ∉ h.pageSupply → h'.mem p = h.mem p

/-- **`mmu_map` of one page on the page table of a vspace.** -/
theorem mapIn_page (space : Space own h.mem vs) (page : c.IsPage) (fresh : FreshFor h.pageSupply vs) :
    Ends (fun r => ∃ own' used, MappedIn own' c h r.1 vs r.2 used) (Untouched vs h) (mapIn h vs c) := by
  have supply := map_frame_of_low fresh.low
  have rooted : Rooted own ⟨h.mem, h.pageSupply.map frame, vs.tables⟩ vs.pgd := by
    rw [supply]
    exact space.resupply fresh.nodup fun q member =>
      ⟨fresh.new q member, Nat.lt_trans (fresh.low q member) (by decide)⟩
  have spec := mmuMap_page rooted page
  have books := mapIn_books h vs c
  unfold mapIn at books ⊢
  cases result : mmuMap ⟨h.mem, h.pageSupply.map frame, vs.tables⟩ vs.pgd c with
  | error e =>
      rw [result] at spec
      obtain ⟨_, own', grows⟩ := spec
      intro p notTable notTaken
      funext i
      apply grows.frame
      intro ρ owned
      have member := (grows.tables.member p).2 ⟨ρ, owned⟩
      have handed := grows.handed p member
      rw [supply] at handed
      exact absurd handed (not_or.2 ⟨notTable, notTaken⟩)
  | ok s =>
      rw [result] at spec books
      obtain ⟨own', grows, rooted', walks⟩ := spec
      obtain ⟨used, books⟩ := books
      refine ⟨own', used, books, rooted'.resupply List.nodup_nil nofun, fun p unowned => ?_, walks⟩
      funext i
      apply grows.frame
      intro ρ owned
      rw [unowned] at owned
      cases owned

/-! ## vspace_map_page -/

/-- The tables a call leaves. -/
theorem MappedIn.mem_tables {h' : Heap} {vs' : Vspace} {used : List Pfn}
    (mapped : MappedIn own c h h' vs vs' used) (small : ∀ p ∈ used, p < 2 ^ 20) (p : Nat) :
    p ∈ vs'.tables ↔ p ∈ used ∨ p ∈ vs.tables := by
  rw [mapped.books.vspace]
  show p ∈ (used.map frame).reverse ++ vs.tables ↔ _
  rw [map_frame_of_low small, List.mem_append, List.mem_reverse]

/-- The answers the page allocator has ready: below 4 GiB, apart and not in use. -/
structure Heap.LowSupply (h : Heap) : Prop where
  low : ∀ p ∈ h.pageSupply, p < 2 ^ 20
  nodup : h.pageSupply.Nodup
  new : ∀ p ∈ h.pageSupply, p ∉ h.pages

/-- The answers left once some are in use. -/
theorem Heap.LowSupply.rest {h' : Heap} {taken : List Pfn} (supply : h.LowSupply)
    (split : h.pageSupply = taken ++ h'.pageSupply) (pages : ∀ p ∈ h'.pages, p ∈ h.pages ∨ p ∈ taken) :
    h'.LowSupply := by
  have nodup := split ▸ supply.nodup
  refine ⟨fun p member => supply.low p (split ▸ List.mem_append_right _ member),
    (List.nodup_append'.1 nodup).2.1, fun p member inUse => ?_⟩
  obtain old | new := pages p inUse
  · exact supply.new p (split ▸ List.mem_append_right _ member) old
  · exact (List.nodup_append'.1 nodup).2.2 new member

/-- What `vspace_map_page` does when it succeeds: `page` backs the address and is zeroed,
`used` became tables, and no other page is written. -/
structure PageMapped (h h' : Heap) (vs vs' : Vspace) (uva : UInt64) (flags : UInt32) (page : Pfn)
    (used : List Pfn) : Prop where
  aligned : uva &&& (4096 - 1) = 0
  supply : h.pageSupply = page :: (used ++ h'.pageSupply)
  pages : h'.pages = insert page h.pages ∪ used.toFinset
  pgd : vs'.pgd = vs.pgd
  mmapBase : vs'.mmapBase = vs.mmapBase
  regions : ∃ obj, vs'.regions = vs.regions ++ [⟨obj, uva, uva + 4096, flags, page⟩]
  tables : ∀ p, p ∈ vs'.tables ↔ p ∈ used ∨ p ∈ vs.tables
  space : ∃ own, Space own h'.mem vs'
  zero : h'.mem page = fun _ => 0
  untouched : ∀ p, p ≠ page → p ∉ used → p ∉ vs.tables → h'.mem p = h.mem p
  walks : ∀ w, w < 2 ^ 48 →
    walk h'.mem vs.pgd w = ((pageCall uva flags page).translate w).or (walk h.mem vs.pgd w)

/-- A walk after the call, below 2^48: the new page, or what there was. -/
theorem PageMapped.walk_eq {h' : Heap} {vs' : Vspace} {uva : UInt64} {flags : UInt32} {page : Pfn}
    {used : List Pfn} (mapped : PageMapped h h' vs vs' uva flags page used) (user : uva.toNat < 2 ^ 48)
    (low : page < 2 ^ 20) {a : Nat} (below : a < 2 ^ 48) :
    walk h'.mem vs'.pgd a = if uva.toNat ≤ a ∧ a < uva.toNat + pageSize then
      some (page * pageSize + (a - uva.toNat), userProtToAttr flags ||| pteAf)
    else walk h.mem vs.pgd a := by
  have call := pageCall_isPage flags mapped.aligned page
  have pa : (pageCall uva flags page).pa.toNat = page * pageSize := by
    show (UInt64.ofNat (pageToPhy page)).toNat = _
    rw [pageToPhy_toNat, pageToPhy_of_lt low]
  rw [mapped.pgd, mapped.walks a below, call.translate user, pa]
  show Option.or (if uva.toNat ≤ a ∧ a < uva.toNat + pageSize then
    some (page * pageSize + (a - uva.toNat), userProtToAttr flags ||| pteAf) else none) _ = _
  split
  · rfl
  · rfl

theorem PageMapped.mem_pages {h' : Heap} {vs' : Vspace} {uva : UInt64} {flags : UInt32} {page : Pfn}
    {used : List Pfn} (mapped : PageMapped h h' vs vs' uva flags page used) (p : Nat) :
    p ∈ h'.pages ↔ p ∈ h.pages ∨ p = page ∨ p ∈ used := by
  rw [mapped.pages, Finset.mem_union, Finset.mem_insert, List.mem_toFinset, or_left_comm, or_assoc]

/-- The tables after the call are in use. -/
theorem PageMapped.inUse {h' : Heap} {vs' : Vspace} {uva : UInt64} {flags : UInt32} {page : Pfn}
    {used : List Pfn} (mapped : PageMapped h h' vs vs' uva flags page used)
    (tables : ∀ p ∈ vs.tables, p ∈ h.pages) : ∀ p ∈ vs'.tables, p ∈ h'.pages := by
  intro p table
  obtain new | old := (mapped.tables p).1 table
  · exact (mapped.mem_pages p).2 (.inr (.inr new))
  · exact (mapped.mem_pages p).2 (.inl (tables p old))

/-- The new page is no table. -/
theorem PageMapped.notTable {h' : Heap} {vs' : Vspace} {uva : UInt64} {flags : UInt32} {page : Pfn}
    {used : List Pfn} (mapped : PageMapped h h' vs vs' uva flags page used) (supply : h.LowSupply)
    (tables : ∀ p ∈ vs.tables, p ∈ h.pages) : page ∉ vs'.tables := by
  intro table
  have nodup : (page :: (used ++ h'.pageSupply)).Nodup := mapped.supply ▸ supply.nodup
  obtain new | old := (mapped.tables page).1 table
  · exact (List.nodup_cons.1 nodup).1 (List.mem_append_left _ new)
  · exact supply.new page (by simp [mapped.supply]) (tables page old)

theorem PageMapped.lowSupply {h' : Heap} {vs' : Vspace} {uva : UInt64} {flags : UInt32} {page : Pfn}
    {used : List Pfn} (mapped : PageMapped h h' vs vs' uva flags page used) (supply : h.LowSupply) :
    h'.LowSupply :=
  supply.rest mapped.supply fun p inUse =>
    ((mapped.mem_pages p).1 inUse).imp_right List.mem_cons.2

/-- What it leaves when it fails. -/
structure PageRefused (h h' : Heap) (vs vs' : Vspace) : Prop where
  mem : h'.mem = h.mem
  pages : h'.pages = h.pages
  vspace : vs' = vs

/-- **`vspace_map_page` on the page table of a vspace.** -/
theorem vspaceMapPage_space (space : Space own h.mem vs) (supply : h.LowSupply)
    (tables : ∀ p ∈ vs.tables, p ∈ h.pages) (uva : UInt64) (flags : UInt32) :
    Ends
      (fun r => PageRefused h r.1 vs r.2.1 ∧ (∃ e, r.2.2 = .error e) ∨
        ∃ page used, PageMapped h r.1 vs r.2.1 uva flags page used ∧ r.2.2 = .ok page)
      (Untouched vs h) (vspaceMapPage h vs uva flags) := by
  have outcome := vspaceMapPage_outcome h vs uva flags
  -- the call of `mmu_map`, once there are a page and a record
  have call : ∀ {page rest} obj objs, uva &&& (4096 - 1) = 0 → h.pageSupply = page :: rest →
      Ends (fun r => ∃ own' used, MappedIn own' (pageCall uva flags page)
          (h.took page rest obj objs) r.1 vs r.2 used)
        (Untouched vs (h.took page rest obj objs))
        (mapIn (h.took page rest obj objs) vs (pageCall uva flags page)) := by
    intro page rest obj objs aligned hasPage
    have inSupply : ∀ p ∈ rest, p ∈ h.pageSupply := by
      intro p member
      rw [hasPage]
      exact List.mem_cons_of_mem _ member
    have nodup : (page :: rest).Nodup := hasPage ▸ supply.nodup
    exact mapIn_page space (pageCall_isPage flags aligned page)
      ⟨fun p member => supply.low p (inSupply p member), (List.nodup_cons.1 nodup).2,
        fun p member table => supply.new p (inSupply p member) (tables p table)⟩
  apply outcome.mono
  · rintro ⟨h', vs', ret⟩ out
    cases out with
    | unaligned bad => exact .inl ⟨⟨rfl, rfl, rfl⟩, _, rfl⟩
    | noPage aligned noPages => exact .inl ⟨⟨rfl, rfl, rfl⟩, _, rfl⟩
    | noRegion aligned page rest hasPage noObjects =>
        have fresh : page ∉ h.pages := supply.new page (by simp [hasPage])
        exact .inl ⟨⟨rfl, Finset.erase_insert fresh, rfl⟩, _, rfl⟩
    | mapped aligned page rest obj objs hasPage hasObject h₁ vs₁ map =>
        have spec := call obj objs aligned hasPage
        rw [map] at spec
        obtain ⟨own', used, mapped⟩ := spec
        change MappedIn own' _ _ h₁ vs vs₁ used at mapped
        have split : rest = used ++ h₁.pageSupply := mapped.books.supply
        have low := supply.low page (by simp [hasPage])
        have fresh : page ∉ h.pages := supply.new page (by simp [hasPage])
        have small : ∀ p ∈ used, p < 2 ^ 20 := fun p member =>
          supply.low p (by simp [hasPage, split, member])
        have apart : page ∉ used := by
          have nodup : (page :: rest).Nodup := hasPage ▸ supply.nodup
          rw [split] at nodup
          exact fun member => (List.nodup_cons.1 nodup).1 (List.mem_append_left _ member)
        -- the page itself is none of the tables, old or new
        have other : ∀ p ∈ vs₁.tables, (h₁.clear (frame page)).mem p = h₁.mem p := by
          intro p table
          apply Function.update_of_ne
          rw [frame_of_lt low]
          rintro rfl
          obtain new | old := (mapped.mem_tables small p).1 table
          · exact apart new
          · exact fresh (tables p old)
        obtain ⟨space', walks⟩ := mapped.space.congr other
        have vspace := mapped.books.vspace
        refine .inr ⟨page, used, ⟨aligned, by rw [hasPage, split]; rfl, mapped.books.pages,
          by rw [vspace]; rfl, by rw [vspace]; rfl, ⟨obj, by rw [vspace]; rfl⟩, mapped.mem_tables small,
          ⟨own', space'⟩, ?_, ?_, ?_⟩, by rw [frame_of_lt low]⟩
        · show Function.update h₁.mem (frame page) _ page = _
          rw [frame_of_lt low, Function.update_self]
        · intro p notPage notUsed notTable
          show Function.update h₁.mem (frame page) _ p = _
          rw [frame_of_lt low, Function.update_of_ne notPage]
          apply mapped.untouched
          cases owned : own' p with
          | none => rfl
          | some π =>
              have table := (mapped.space.mem_tables p).2 ⟨π, owned⟩
              exact absurd ((mapped.mem_tables small p).1 table) (not_or.2 ⟨notUsed, notTable⟩)
        · intro w below
          have pgd : vs₁.pgd = vs.pgd := by rw [vspace]
          rw [← pgd, walks w, pgd]
          exact mapped.walks w below
  · rintro h' ⟨aligned, page, rest, obj, objs, hasPage, _, hang⟩ p notTable notTaken
    have spec := call obj objs aligned hasPage
    rw [hang] at spec
    apply spec p notTable
    rw [hasPage] at notTaken
    exact fun member => notTaken (List.mem_cons_of_mem _ member)

end Space

/-! ## Agreement -/

/-- The vregion covers the address. -/
def Vregion.covers (w : Nat) (vr : Vregion) : Bool := vr.start.toNat ≤ w && w < vr.start.toNat + pageSize

/-- A vregion of one page below 2^48, backed by a page below 4 GiB. -/
structure Vregion.Plain (vr : Vregion) : Prop where
  aligned : pageSize ∣ vr.start.toNat
  user : vr.start.toNat < 2 ^ 48
  stop : vr.stop = vr.start + 4096
  page : vr.page < 2 ^ 20

/-- The list and the table lead every address to the same place. -/
structure Agrees (h : Heap) (vs : Vspace) : Prop where
  space : ∃ own, Space own h.mem vs
  tables : ∀ p ∈ vs.tables, p ∈ h.pages
  regions : ∀ vr ∈ vs.regions, vr.Plain
  agree : ∀ w, w < 2 ^ 48 → (walk h.mem vs.pgd w).map Prod.fst =
    (vs.regions.find? (Vregion.covers w)).map fun vr => vr.page * pageSize + (w - vr.start.toNat)

section Agrees

variable {h : Heap} {vs : Vspace}

/-- Two pages of one address are the same page. -/
theorem eq_of_covers {a b w : Nat} (left : pageSize ∣ a) (right : pageSize ∣ b) (la : a ≤ w)
    (ra : w < a + pageSize) (lb : b ≤ w) (rb : w < b + pageSize) : a = b := by
  unfold pageSize at *
  omega

/-- A physical address has one page and one offset. -/
theorem page_offset_inj {p q x y : Nat} (left : x < pageSize) (right : y < pageSize)
    (same : p * pageSize + x = q * pageSize + y) : p = q ∧ x = y := by
  unfold pageSize at *
  omega

theorem Vregion.covers_iff {vr : Vregion} {w : Nat} :
    vr.covers w = true ↔ vr.start.toNat ≤ w ∧ w < vr.start.toNat + pageSize := by
  rw [Vregion.covers, Bool.and_eq_true, decide_eq_true_iff, decide_eq_true_iff]

/-- **A page mapped where nothing was mapped keeps the agreement.** -/
theorem Agrees.add {c : Call} {h' : Heap} {vs' : Vspace} {obj : Obj} {flags : UInt32} {page : Pfn}
    (agrees : Agrees h vs) (call : c.IsPage) (user : c.va.toNat < 2 ^ 48) (low : page < 2 ^ 20)
    (backs : c.pa.toNat = page * pageSize) (unmapped : ∀ vr ∈ vs.regions, vr.start ≠ c.va)
    (space : ∃ own, Space own h'.mem vs') (tables : ∀ p ∈ vs'.tables, p ∈ h'.pages)
    (pgd : vs'.pgd = vs.pgd) (regions : vs'.regions = vs.regions ++ [⟨obj, c.va, c.va + 4096, flags, page⟩])
    (walks : ∀ w, w < 2 ^ 48 → walk h'.mem vs.pgd w = (c.translate w).or (walk h.mem vs.pgd w)) :
    Agrees h' vs' := by
  refine ⟨space, tables, ?_, ?_⟩
  · intro vr member
    rw [regions, List.mem_append, List.mem_singleton] at member
    obtain old | rfl := member
    · exact agrees.regions vr old
    · exact ⟨call.va, user, rfl, low⟩
  · intro w below
    rw [pgd, regions, walks w below, call.translate user, List.find?_append]
    by_cases here : c.va.toNat ≤ w ∧ w < c.va.toNat + pageSize
    · have none : vs.regions.find? (Vregion.covers w) = none := by
        rw [List.find?_eq_none]
        intro vr member covered
        obtain ⟨start, stop⟩ := Vregion.covers_iff.1 covered
        apply unmapped vr member
        apply UInt64.toNat_inj.1
        exact eq_of_covers (agrees.regions vr member).aligned call.va start stop here.1 here.2
      have mine : Vregion.covers w ⟨obj, c.va, c.va + 4096, flags, page⟩ = true := Vregion.covers_iff.2 here
      rw [if_pos here, none, List.find?_singleton, mine, backs]
      rfl
    · have other : Vregion.covers w ⟨obj, c.va, c.va + 4096, flags, page⟩ = false := by
        rw [← Bool.not_eq_true]
        exact fun covered => here (Vregion.covers_iff.1 covered)
      rw [if_neg here, List.find?_singleton, other]
      show (walk h.mem vs.pgd w).map Prod.fst = Option.map _ ((vs.regions.find? _).or none)
      rw [Option.or_none]
      exact agrees.agree w below

/-- What the page allocator may answer. -/
theorem Agrees.fresh (agrees : Agrees h vs) {pages : List Pfn} (low : ∀ p ∈ pages, p < 2 ^ 20)
    (nodup : pages.Nodup) (new : ∀ p ∈ pages, p ∉ h.pages) : FreshFor pages vs :=
  ⟨low, nodup, fun p member table => new p member (agrees.tables p table)⟩

/-- The agreement does not depend on the allocators' books but for the tables. -/
theorem Agrees.heap {h' : Heap} (agrees : Agrees h vs) (mem : h'.mem = h.mem)
    (pages : ∀ p ∈ vs.tables, p ∈ h.pages → p ∈ h'.pages) : Agrees h' vs := by
  refine ⟨mem ▸ agrees.space, fun p member => pages p member (agrees.tables p member), agrees.regions, ?_⟩
  rw [mem]
  exact agrees.agree

theorem Agrees.mapPage {uva : UInt64} (flags : UInt32) (agrees : Agrees h vs) (supply : h.LowSupply)
    (user : uva.toNat < 2 ^ 48) (unmapped : ∀ vr ∈ vs.regions, vr.start ≠ uva) :
    Ends (fun r => Agrees r.1 r.2.1 ∧ r.2.1.mmapBase = vs.mmapBase) (fun _ => True)
      (vspaceMapPage h vs uva flags) := by
  obtain ⟨own, space⟩ := agrees.space
  apply (vspaceMapPage_space space supply agrees.tables uva flags).mono _ fun _ _ => trivial
  rintro ⟨h', vs', ret⟩ (⟨refused, _⟩ | ⟨page, used, mapped, _⟩)
  · have vspace := refused.vspace
    change vs' = vs at vspace
    subst vspace
    exact ⟨agrees.heap refused.mem fun p _ used => refused.pages.symm ▸ used, rfl⟩
  · have low : page < 2 ^ 20 := supply.low page (by simp [mapped.supply])
    obtain ⟨obj, regions⟩ := mapped.regions
    refine ⟨agrees.add (pageCall_isPage flags mapped.aligned page) user low ?_ unmapped mapped.space
      (mapped.inUse agrees.tables) mapped.pgd regions mapped.walks, mapped.mmapBase⟩
    show (UInt64.ofNat (pageToPhy page)).toNat = _
    rw [pageToPhy_toNat, pageToPhy_of_lt low]

theorem isAttr_contigAttr (flags : UInt32) : IsAttr (contigAttr flags) := by
  unfold contigAttr
  split
  · decide
  · split
    · decide
    · split
      · decide
      · decide

theorem contigLoop_agrees (flags : UInt32) :
    ∀ (n : Nat) {h : Heap} {vs : Vspace} {paddr vaddr : UInt64}, Agrees h vs → h.LowSupply →
      pageSize ∣ paddr.toNat → paddr.toNat + n * pageSize ≤ 2 ^ 32 →
      pageSize ∣ vaddr.toNat → vaddr.toNat + n * pageSize ≤ 2 ^ 48 →
      (∀ vr ∈ vs.regions, vr.start.toNat < vaddr.toNat ∨ vaddr.toNat + n * pageSize ≤ vr.start.toNat) →
      Ends (fun r => Agrees r.1 r.2.1 ∧ r.2.1.mmapBase = vs.mmapBase) (fun _ => True)
        (contigLoop flags n h vs paddr vaddr)
  | 0, h, vs, paddr, vaddr, agrees, _, _, _, _, _, _ => by
      rw [contigLoop]
      exact ⟨agrees, rfl⟩
  | n + 1, h, vs, paddr, vaddr, agrees, supply, paAligned, paFits, vaAligned, vaFits, apart => by
      have room : (n + 1) * pageSize = n * pageSize + pageSize := Nat.succ_mul n pageSize
      unfold contigLoop Heap.kmalloc
      cases objects : h.objectSupply with
      | nil => exact ⟨agrees, rfl⟩
      | cons obj objs =>
          dsimp only
          have call : Call.IsPage ⟨vaddr, paddr, 4096, contigAttr flags⟩ :=
            ⟨vaAligned, paAligned, rfl, by show paddr.toNat + pageSize ≤ 2 ^ 48; omega,
              isAttr_contigAttr flags⟩
          obtain ⟨own, space⟩ := agrees.space
          have fresh := agrees.fresh supply.low supply.nodup supply.new
          have spec := mapIn_page (h := { h with objectSupply := objs, objects := insert obj h.objects })
            space call fresh
          apply Ends.bind (spec.mono (fun _ mapped => mapped) fun _ _ => trivial)
          rintro ⟨h₁, vs₁⟩ ⟨own', used, mapped⟩
          change MappedIn own' _ _ h₁ vs vs₁ used at mapped
          have split : h.pageSupply = used ++ h₁.pageSupply := mapped.books.supply
          have small : ∀ p ∈ used, p < 2 ^ 20 := fun p member =>
            supply.low p (split ▸ List.mem_append_left _ member)
          have user : vaddr.toNat < 2 ^ 48 := by
            unfold pageSize at *
            omega
          have low : paddr.toNat / pageSize < 2 ^ 20 := by
            unfold pageSize at *
            omega
          have unmapped : ∀ vr ∈ vs.regions, vr.start ≠ vaddr := by
            intro vr member same
            have := apart vr member
            rw [same] at this
            unfold pageSize at *
            omega
          have recorded : Agrees { h with objectSupply := objs, objects := insert obj h.objects } vs :=
            agrees.heap rfl fun _ _ used => used
          have tables : ∀ p ∈ vs₁.tables, p ∈ h₁.pages := by
            intro p table
            rw [mapped.books.pages, Finset.mem_union, List.mem_toFinset]
            exact ((mapped.mem_tables small p).1 table).elim .inr fun old => .inl (agrees.tables p old)
          have vspace := mapped.books.vspace
          have added : Agrees h₁ (vs₁.addRegion obj vaddr flags (paddr.toNat / pageSize)) :=
            recorded.add call user low (Nat.div_mul_cancel paAligned).symm unmapped
              ⟨own', mapped.space⟩ tables (by rw [vspace]; rfl) (by rw [vspace]; rfl) mapped.walks
          have later : h₁.LowSupply := by
            apply supply.rest split
            intro p inUse
            rw [mapped.books.pages, Finset.mem_union, List.mem_toFinset] at inUse
            exact inUse
          have nextPa : (paddr + 4096).toNat = paddr.toNat + pageSize := nextPage_toNat (by omega)
          have nextVa : (vaddr + 4096).toNat = vaddr.toNat + pageSize := nextPage_toNat (by omega)
          have apart' : ∀ vr ∈ (vs₁.addRegion obj vaddr flags (paddr.toNat / pageSize)).regions,
              vr.start.toNat < (vaddr + 4096).toNat ∨
                (vaddr + 4096).toNat + n * pageSize ≤ vr.start.toNat := by
            intro vr member
            rw [nextVa]
            change vr ∈ vs₁.regions ++ [_] at member
            rw [mapped.books.vspace, List.mem_append, List.mem_singleton] at member
            obtain old | rfl := member
            · have := apart vr old
              omega
            · left
              show vaddr.toNat < _
              unfold pageSize
              omega
          apply (contigLoop_agrees flags n added later (nextPa ▸ Nat.dvd_add paAligned (Nat.dvd_refl _))
            (by omega) (nextVa ▸ Nat.dvd_add vaAligned (Nat.dvd_refl _)) (by omega) apart').mono
            (fun r done => ?_) fun _ _ => trivial
          refine ⟨done.1, done.2.trans ?_⟩
          show vs₁.mmapBase = vs.mmapBase
          rw [mapped.books.vspace]

theorem Agrees.mapContig {phys : UInt64} {size : UInt32} (flags : UInt32) (agrees : Agrees h vs)
    (supply : h.LowSupply) (base : pageSize ∣ vs.mmapBase.toNat)
    (low : phys.toNat + (pageAlign size).toNat ≤ 2 ^ 32)
    (user : vs.mmapBase.toNat + (pageAlign size).toNat ≤ 2 ^ 48)
    (unmapped : ∀ vr ∈ vs.regions, vr.start.toNat < vs.mmapBase.toNat ∨
      vs.mmapBase.toNat + (pageAlign size).toNat ≤ vr.start.toNat) :
    Ends (fun r => Agrees r.1 r.2.1 ∧ pageSize ∣ r.2.1.mmapBase.toNat) (fun _ => True)
      (vspaceMapContigPhys h vs phys size flags) := by
  have whole : (pageAlign size >>> 12).toNat * pageSize = (pageAlign size).toNat := by
    have aligned : pageSize ∣ (pageAlign size).toNat := by
      unfold pageAlign
      rw [UInt64.toNat_toUInt32, Core.Mmu.Call.toNat_align]
      exact (Nat.dvd_mod_iff (by decide)).2 (Nat.dvd_mul_left _ _)
    rw [UInt32.toNat_shiftRight, Nat.shiftRight_eq_div_pow]
    exact Nat.div_mul_cancel aligned
  unfold vspaceMapContigPhys
  split
  · exact ⟨agrees, base⟩
  · rename_i fine
    have aligned := (pageSize_dvd_iff phys).1 (Classical.not_not.1 fine)
    dsimp only
    split
    · exact ⟨agrees, base⟩
    · have moved : Agrees h { vs with mmapBase := vs.mmapBase + (pageAlign size).toUInt64 } :=
        ⟨agrees.space, agrees.tables, agrees.regions, agrees.agree⟩
      apply Ends.bind (contigLoop_agrees flags (pageAlign size >>> 12).toNat moved supply aligned
        (by omega) base (by omega) (by rw [whole]; exact unmapped))
      rintro ⟨h₁, vs₁, ret⟩ ⟨done, same⟩
      refine ⟨done, ?_⟩
      change vs₁.mmapBase = _ at same
      show pageSize ∣ vs₁.mmapBase.toNat
      rw [same, UInt64.toNat_add, UInt32.toNat_toUInt64, Nat.mod_eq_of_lt (by omega), ← whole]
      exact Nat.dvd_add base (Nat.dvd_mul_left _ _)

/-! ### Runs -/

/-- The call maps no address again, stays below 2^48, and means pages below 4 GiB. -/
def Distinct (s : Session) (op : Op) : Prop :=
  (∀ p ∈ op.pages, p < 2 ^ 20) ∧
    match op.request with
    | .mapPage uva _ => ∀ vr ∈ s.vs.regions, vr.start ≠ uva
    | .mapContig phys size _ =>
        phys.toNat + (pageAlign size).toNat ≤ 2 ^ 32 ∧
        s.vs.mmapBase.toNat + (pageAlign size).toNat ≤ 2 ^ 48 ∧
        ∀ vr ∈ s.vs.regions, vr.start.toNat < s.vs.mmapBase.toNat ∨
          s.vs.mmapBase.toNat + (pageAlign size).toNat ≤ vr.start.toNat

instance (s : Session) (op : Op) : Decidable (Distinct s op) := by
  unfold Distinct
  cases op.request with
  | mapPage uva flags => exact inferInstanceAs (Decidable (_ ∧ _))
  | mapContig phys size flags => exact inferInstanceAs (Decidable (_ ∧ _ ∧ _ ∧ _))

/-- A vspace that `vspace_alloc` has just returned, with its pgd below 4 GiB. -/
def Session.StartsLow (s : Session) : Prop :=
  ∃ h : Heap, h.LowSupply ∧ vspaceAlloc h = (s.heap, some s.vs) ∧ s.hung = false

theorem agrees_made {obj : Obj} {objs : List Obj} {page : Pfn} {rest : List Pfn} (low : page < 2 ^ 20) :
    Agrees ((h.took page rest obj objs).clear (frame page))
      ⟨obj, frame page, userMmapBase, [], [frame page]⟩ := by
  have zero : ((h.took page rest obj objs).clear (frame page)).mem (frame page) = fun _ => 0 :=
    Function.update_self _ _ _
  refine ⟨⟨_, Core.Mmu.rooted_zero zero rfl⟩, ?_, nofun, ?_⟩
  · intro p member
    rw [List.mem_singleton.1 member, frame_of_lt low]
    exact Finset.mem_insert_self _ _
  · intro w _
    rw [walk, Core.Mmu.lookup_zero_page (fun i => congrFun zero i) w 3]
    rfl

theorem agrees_start {s : Session} (starts : s.StartsLow) :
    Agrees s.heap s.vs ∧ pageSize ∣ s.vs.mmapBase.toNat := by
  obtain ⟨heap, vs, hung⟩ := s
  obtain ⟨h, supply, started, _⟩ := starts
  have out := vspaceAlloc_outcome h
  rw [started] at out
  cases out with
  | made obj objs page rest hasObject hasPage =>
      have low := supply.low page (by simp [hasPage])
      exact ⟨agrees_made low, show pageSize ∣ userMmapBase.toNat by decide⟩

theorem agrees_step {s : Session} {op : Op} (agrees : Agrees s.heap s.vs)
    (base : pageSize ∣ s.vs.mmapBase.toNat) (enabled : (session.guard Distinct).enabled s op)
    (running : (session.step s op).hung = false) :
    Agrees (session.step s op).heap (session.step s op).vs ∧
      pageSize ∣ (session.step s op).vs.mmapBase.toNat := by
  obtain ⟨⟨_, inRange, answers⟩, low, distinct⟩ := enabled
  obtain ⟨request, pages, objects⟩ := op
  have supply : (s.heap.supplied pages objects).LowSupply :=
    ⟨low, answers.1, fun p member => (answers.2.1 p member).1⟩
  have ready : Agrees (s.heap.supplied pages objects) s.vs := agrees.heap rfl fun _ _ used => used
  have performed : Ends (fun r => Agrees r.1 r.2 ∧ pageSize ∣ r.2.mmapBase.toNat) (fun _ => True)
      (perform (s.heap.supplied pages objects) s.vs request) := by
    cases request with
    | mapPage uva flags =>
        apply Ends.bind (ready.mapPage flags supply inRange distinct)
        rintro ⟨h', vs', ret⟩ ⟨done, same⟩
        exact ⟨done, same ▸ base⟩
    | mapContig phys size flags =>
        apply Ends.bind (ready.mapContig flags supply base distinct.1 distinct.2.1 distinct.2.2)
        rintro ⟨h', vs', ret⟩ done
        exact done
  unfold session at running ⊢
  dsimp only at running ⊢
  cases result : perform (s.heap.supplied pages objects) s.vs request with
  | error h =>
      rw [result] at running
      cases running
  | ok r =>
      rw [result] at performed
      exact performed

theorem agrees_run {s : Session} {ops : List Op} (agrees : Agrees s.heap s.vs)
    (base : pageSize ∣ s.vs.mmapBase.toNat) (admitted : (session.guard Distinct).Admits s ops)
    (running : (session.run s ops).hung = false) :
    Agrees (session.run s ops).heap (session.run s ops).vs := by
  induction ops generalizing s with
  | nil => exact agrees
  | cons op rest ih =>
      have still : (session.step s op).hung = false := by
        cases rest with
        | nil => exact running
        | cons next more => exact admitted.2.1.1.1
      obtain ⟨agrees', base'⟩ := agrees_step agrees base admitted.1 still
      exact ih agrees' base' admitted.2 running

/-- `vspace_find_page` on plain vregions. -/
theorem vspaceFindPage_eq (regions : ∀ vr ∈ vs.regions, vr.Plain) (a : UInt64) :
    vspaceFindPage vs a = (vs.regions.find? (Vregion.covers a.toNat)).map fun vr =>
      (vr.page, (a - vr.start).toUInt32) := by
  unfold vspaceFindPage
  rw [← List.head?_filter, ← List.head?_filter]
  congr 2
  apply List.filter_congr
  intro vr member
  have plain := regions vr member
  have stop : vr.stop.toNat = vr.start.toNat + pageSize := by
    have := plain.user
    rw [plain.stop, UInt64.toNat_add]
    change (vr.start.toNat + 4096) % 2 ^ 64 = vr.start.toNat + 4096
    omega
  rw [Vregion.covers, ← stop]
  simp only [UInt64.le_iff_toNat_le, UInt64.lt_iff_toNat_lt]

/-- **The kernel's copy path and the page table agree.**  After any calls on a fresh vspace
that map no address twice, `vspace_find_page` finds a page and an offset for a user address
exactly if a walk leads there, and finds none exactly if the walk faults; and `page_to_phy`
gives the physical address of the page it finds. -/
theorem find_page_agrees_with_walk {s : Session} (starts : s.StartsLow) {ops : List Op}
    (admitted : (session.guard Distinct).Admits s ops) (running : (session.run s ops).hung = false)
    (a : UInt64) (user : a.toNat < 2 ^ 48) :
    let vs := (session.run s ops).vs
    let mem := (session.run s ops).heap.mem
    (∀ page offset, vspaceFindPage vs a = some (page, offset) ↔
      offset.toNat < pageSize ∧
        ∃ attr, walk mem vs.pgd a.toNat = some (page * pageSize + offset.toNat, attr)) ∧
    (vspaceFindPage vs a = none ↔ walk mem vs.pgd a.toNat = none) ∧
    ∀ page offset, vspaceFindPage vs a = some (page, offset) → pageToPhy page = page * pageSize := by
  intro vs mem
  obtain ⟨first, base⟩ := agrees_start starts
  have agrees : Agrees (session.run s ops).heap vs := agrees_run first base admitted running
  have agree := agrees.agree a.toNat user
  have found := vspaceFindPage_eq agrees.regions a
  cases region : vs.regions.find? (Vregion.covers a.toNat) with
  | none =>
      rw [region] at agree found
      have faults : walk mem vs.pgd a.toNat = none := Option.map_eq_none_iff.1 agree
      rw [found, faults]
      simp
  | some vr =>
      rw [region] at agree found
      have plain := agrees.regions vr (List.mem_of_find?_eq_some region)
      obtain ⟨start, stop⟩ := Vregion.covers_iff.1 (List.find?_some region)
      have offset : (a - vr.start).toUInt32.toNat = a.toNat - vr.start.toNat := by
        rw [UInt64.toNat_toUInt32, UInt64.toNat_sub_of_le _ _ start]
        apply Nat.mod_eq_of_lt
        unfold pageSize at stop
        omega
      obtain ⟨⟨pa, attr⟩, walked, pa_eq⟩ := Option.map_eq_some_iff.1 agree
      change pa = _ at pa_eq
      have walked : walk mem vs.pgd a.toNat = some (pa, attr) := walked
      rw [found, walked]
      refine ⟨fun page off => ⟨?_, ?_⟩, by simp, ?_⟩
      · rintro ⟨⟩
        rw [offset]
        exact ⟨by omega, attr, by rw [pa_eq]⟩
      · rintro ⟨inPage, attr', same⟩
        have pa_eq' : pa = page * pageSize + off.toNat := congrArg Prod.fst (Option.some.inj same)
        rw [pa_eq] at pa_eq'
        obtain ⟨pages, offs⟩ := page_offset_inj (by omega) inPage pa_eq'
        rw [← offset] at offs
        rw [← pages, ← UInt32.toNat_inj.1 offs]
        rfl
      · rintro page off ⟨⟩
        exact pageToPhy_of_lt plain.page

theorem driverSession_startsLow : driverSession.StartsLow :=
  ⟨driverHeap, ⟨by decide, by decide, by decide⟩, rfl, rfl⟩

/-- Then two pages of the framebuffer, at the base of the mappings. -/
def mapTwoFrames : Op :=
  ⟨.mapContig 0x200000 0x2000 (vmRead ||| vmWrite ||| vmDevice), [0x105, 0x106, 0x107], [3, 4]⟩

theorem find_page_agrees_text :
    (vspaceFindPage (session.run driverSession [mapText, mapTwoFrames]).vs 0x400123 = some (0x101, 0x123) ∧
      ∃ attr, walk (session.run driverSession [mapText, mapTwoFrames]).heap.mem
        (session.run driverSession [mapText, mapTwoFrames]).vs.pgd 0x400123 = some (0x101 * 4096 + 0x123, attr)) ∧
    vspaceFindPage (session.run driverSession [mapText, mapTwoFrames]).vs 0x1000001234 = some (0x201, 0x234) ∧
      ∃ attr, walk (session.run driverSession [mapText, mapTwoFrames]).heap.mem
        (session.run driverSession [mapText, mapTwoFrames]).vs.pgd 0x1000001234 = some (0x201 * 4096 + 0x234, attr) := by
  have text : vspaceFindPage (session.run driverSession [mapText, mapTwoFrames]).vs 0x400123 = some (0x101, 0x123) := by
    decide +kernel
  have frame : vspaceFindPage (session.run driverSession [mapText, mapTwoFrames]).vs 0x1000001234 =
      some (0x201, 0x234) := by
    decide +kernel
  have agrees := find_page_agrees_with_walk driverSession_startsLow (s := driverSession)
    (by decide +kernel : (session.guard Distinct).Admits driverSession [mapText, mapTwoFrames]) (by decide +kernel)
  exact ⟨⟨text, (((agrees 0x400123 (by decide)).1 0x101 0x123).1 text).2⟩,
    frame, (((agrees 0x1000001234 (by decide)).1 0x201 0x234).1 frame).2⟩

/-- The same address again, as for a second segment in the page. -/
def mapTextAgain : Op := ⟨.mapPage 0x400000 (vmRead ||| vmWrite), [0x105], [3]⟩

/-- **A page mapped again is found where it was.**  The kernel copies through page 0x101,
the program runs on page 0x105. -/
theorem find_page_stale :
    driverSession.StartsLow ∧ session.Admits driverSession [mapText, mapTextAgain] ∧
    (session.run driverSession [mapText, mapTextAgain]).hung = false ∧
    vspaceFindPage (session.run driverSession [mapText, mapTextAgain]).vs 0x400123 =
      some (0x101, 0x123) ∧
    (walk (session.run driverSession [mapText, mapTextAgain]).heap.mem
      (session.run driverSession [mapText, mapTextAgain]).vs.pgd 0x400123).map Prod.fst =
      some (0x105 * 4096 + 0x123) :=
  ⟨driverSession_startsLow, by decide +kernel, by decide +kernel, by decide +kernel, by decide +kernel⟩

end Agrees

end Minus.Mm.AddressSpace
