/-
# Proc.LoaderPages — an image beside those in use

While a process is being made, its address space stands on pages that were not in use
when the call began (`Apart`), and those that were are as they were (`Beside`).  The
allocator hands out no page twice, so `vspace_alloc`, `vspace_map_page` and the loader
keep this, and `vspace_free` gives back nothing else.

As for `Mm.VspaceIsolation`, the pages have to lie below 4 GiB: a page frame number above
leads to a page that may be in use.
-/
import Minus.Mm.VspaceIsolation
import Minus.Proc.LoaderImage

namespace Minus.Proc.Loader

set_option autoImplicit false

open Minus.Theory
open Minus.Core.Mmu (Owner walk pageSize)
open Minus.Mm.AddressSpace
open Minus.Mm.Buddy (Pfn)

/-! ## What the loader keeps -/

/-- What each call of `vspace_map_page` keeps, and the copy into the page it has mapped. -/
structure Keeps (I : Heap → Vspace → Prop) : Prop where
  mapped : ∀ {h h' : Heap} {vs vs' : Vspace} {uva : UInt64} {flags : UInt32}
    {ret : Except Mm.AddressSpace.Errno Nat}, I h vs → vspaceMapPage h vs uva flags = .ok (h', vs', ret) → I h' vs'
  copied : ∀ (ph : Phdr) (f : Image) {h h' : Heap} {vs vs' : Vspace} {uva : UInt64} {flags : UInt32} {kva : Nat},
    I h vs → vspaceMapPage h vs uva flags = .ok (h', vs', .ok kva) → I (copyPage ph f h' kva uva) vs'

section Keeps

variable {I : Heap → Vspace → Prop} {h' : Heap} {vs' : Vspace}

theorem Keeps.segmentLoop (keeps : Keeps I) {ph : Phdr} {f : Image} {ret : Except LoadError Unit} :
    ∀ {n : Nat} {h : Heap} {vs : Vspace} {uva : UInt64}, I h vs →
      Loader.segmentLoop ph f n h vs uva = .ok (h', vs', ret) → I h' vs'
  | 0, _, _, _, inv, run => by
      cases run
      exact inv
  | n + 1, h, vs, uva, inv, run => by
      obtain ⟨⟨h₁, vs₁, mapped⟩, map, rest⟩ := bind_eq_ok.1 run
      cases mapped with
      | error e =>
          cases rest
          exact keeps.mapped inv map
      | ok kva => exact keeps.segmentLoop (keeps.copied ph f inv map) rest

theorem Keeps.loadSegments (keeps : Keeps I) {f : Image} {ret : Except LoadError Unit} :
    ∀ {phs : List Phdr} {h : Heap} {vs : Vspace}, I h vs →
      Loader.loadSegments f phs h vs = .ok (h', vs', ret) → I h' vs'
  | [], _, _, inv, run => by
      cases run
      exact inv
  | ph :: rest, h, vs, inv, run => by
      rw [Loader.loadSegments] at run
      split at run
      · obtain ⟨⟨h₁, vs₁, loaded⟩, load, after⟩ := bind_eq_ok.1 run
        have inv₁ : I h₁ vs₁ := by
          unfold loadSegment at load
          split at load
          · cases load
            exact inv
          · exact keeps.segmentLoop inv load
        cases loaded with
        | error e =>
            cases after
            exact inv₁
        | ok _ => exact keeps.loadSegments inv₁ after
      · exact keeps.loadSegments inv run

theorem Keeps.procLoadElf (keeps : Keeps I) {file : Except LoadError Image} {h : Heap} {vs : Vspace}
    {ret : Except LoadError (UInt64 × UInt64)} (inv : I h vs)
    (run : Loader.procLoadElf file h vs = .ok (h', vs', ret)) : I h' vs' := by
  cases file with
  | error e =>
      cases run
      exact inv
  | ok f =>
      rw [Loader.procLoadElf] at run
      split at run
      · cases run
        exact inv
      · obtain ⟨⟨h₁, vs₁, loaded⟩, load, after⟩ := bind_eq_ok.1 run
        have inv₁ := keeps.loadSegments inv load
        cases loaded with
        | error e =>
            cases after
            exact inv₁
        | ok _ =>
            obtain ⟨⟨h₂, vs₂, stack⟩, alloc, last⟩ := bind_eq_ok.1 after
            have inv₂ := keeps.mapped inv₁ alloc
            cases stack with
            | error e =>
                cases last
                exact inv₂
            | ok _ =>
                cases last
                exact inv₂

end Keeps

/-! ## Pages in use -/

/-- What was in use in `base` is in use and as it was. -/
structure Beside (base h : Heap) : Prop where
  supply : h.LowSupply
  pages : base.pages ⊆ h.pages
  mem : ∀ p ∈ base.pages, h.mem p = base.mem p

/-- The vspace has a page table, and each translation leads to a data page of its own. -/
structure Sound (h : Heap) (vs : Vspace) : Prop where
  space : ∃ own, Space own h.mem vs
  kinds : ∀ p ∈ vs.tables, p ∉ vs.regions.map (·.page)
  backed : ∀ a, a < 2 ^ 48 → ∀ pa attr, walk h.mem vs.pgd a = some (pa, attr) →
    pa / pageSize ∈ vs.regions.map (·.page)

/-- The vspace stands on pages that were not in use in `base`. -/
structure Apart (base h : Heap) (vs : Vspace) : Prop extends Beside base h where
  sound : Sound h vs
  used : ∀ p, vs.Uses p → p ∈ h.pages ∧ p ∉ base.pages

/-- The pages and what the page allocator will answer are the same. -/
structure SamePages (h h' : Heap) : Prop where
  pages : h'.pages = h.pages
  mem : h'.mem = h.mem
  supply : h'.pageSupply = h.pageSupply

section Pages

variable {base h h' h'' : Heap} {vs vs' : Vspace} {page : Pfn}

theorem SamePages.refl (h : Heap) : SamePages h h := ⟨rfl, rfl, rfl⟩

theorem SamePages.trans (first : SamePages h h') (second : SamePages h' h'') : SamePages h h'' :=
  ⟨second.pages.trans first.pages, second.mem.trans first.mem, second.supply.trans first.supply⟩

theorem Beside.refl (supply : h.LowSupply) : Beside h h := ⟨supply, subset_rfl, fun _ _ => rfl⟩

theorem Beside.trans (first : Beside h h') (second : Beside h' h'') : Beside h h'' :=
  ⟨second.supply, first.pages.trans second.pages,
    fun p inUse => (second.mem p (first.pages inUse)).trans (first.mem p inUse)⟩

theorem SamePages.beside (same : SamePages h h') (supply : h.LowSupply) : Beside h h' := by
  refine ⟨⟨?_, ?_, ?_⟩, by rw [same.pages], fun p _ => by rw [same.mem]⟩
  · rw [same.supply]
    exact supply.low
  · rw [same.supply]
    exact supply.nodup
  · rw [same.supply, same.pages]
    exact supply.new

/-- A vspace whose tables are not written translates as before. -/
theorem Sound.congr (sound : Sound h vs) (tables : ∀ p ∈ vs.tables, h'.mem p = h.mem p) :
    Sound h' vs ∧ ∀ a, walk h'.mem vs.pgd a = walk h.mem vs.pgd a := by
  obtain ⟨own, space⟩ := sound.space
  obtain ⟨space', walks⟩ := space.congr tables
  refine ⟨⟨⟨own, space'⟩, sound.kinds, fun a below pa attr found => ?_⟩, walks⟩
  rw [walks] at found
  exact sound.backed a below pa attr found

/-- What is left alone by all that is in use is left alone by a vspace. -/
theorem Apart.beside (apart : Apart base h vs) (step : Beside h h') : Apart base h' vs := by
  refine ⟨apart.toBeside.trans step, (apart.sound.congr fun p table => ?_).1, fun p uses => ?_⟩
  · exact step.mem p (apart.used p (.inl table)).1
  · obtain ⟨inUse, new⟩ := apart.used p uses
    exact ⟨step.pages inUse, new⟩

/-- A vspace begun later is apart from what was in use earlier. -/
theorem Apart.from (apart : Apart h h' vs) (earlier : Beside base h) : Apart base h' vs :=
  ⟨earlier.trans apart.toBeside, apart.sound, fun p uses =>
    ⟨(apart.used p uses).1, fun old => (apart.used p uses).2 (earlier.pages old)⟩⟩

/-! ## The allocators -/

theorem kmalloc_samePages {obj : Option Obj} (result : h.kmalloc = (h', obj)) : SamePages h h' := by
  unfold Heap.kmalloc at result
  split at result
  · cases result
    exact SamePages.refl h
  · cases result
    exact ⟨rfl, rfl, rfl⟩

theorem kfree_samePages (h : Heap) (obj : Obj) : SamePages h (h.kfree obj) := ⟨rfl, rfl, rfl⟩

/-- The page allocator has handed out its next page. -/
theorem lowSupply_tail {rest : List Pfn} (supply : h.LowSupply) (hasPage : h.pageSupply = page :: rest)
    (left : h'.pageSupply = rest) (pages : ∀ p ∈ h'.pages, p ∈ h.pages ∨ p = page) : h'.LowSupply := by
  have split : h.pageSupply = [page] ++ h'.pageSupply := by
    rw [hasPage, left]
    rfl
  exact supply.rest split fun p inUse => (pages p inUse).imp_right List.mem_singleton.2

/-- The page is zeroed. -/
theorem zeroed_beside {rest : List Pfn} (supply : h.LowSupply) (hasPage : h.pageSupply = page :: rest)
    (pages : h'.pages = insert page h.pages) (left : h'.pageSupply = rest)
    (mem : h'.mem = Function.update h.mem page fun _ => 0) : Beside h h' ∧ page ∈ h'.pages ∧ page ∉ h.pages := by
  have fresh : page ∉ h.pages := supply.new page (by simp [hasPage])
  refine ⟨⟨lowSupply_tail supply hasPage left fun p inUse => ?_, ?_, fun p inUse => ?_⟩, ?_, fresh⟩
  · rw [pages, Finset.mem_insert] at inUse
    exact inUse.symm
  · rw [pages]
    exact Finset.subset_insert _ _
  · rw [mem]
    exact Function.update_of_ne (ne_of_mem_of_not_mem inUse fresh) _ _
  · rw [pages]
    exact Finset.mem_insert_self _ _

theorem kzallocPages_beside {stack : Nat} (supply : h.LowSupply) (result : h.kzallocPages = (h', some stack)) :
    Beside h h' ∧ stack ∈ h'.pages ∧ stack ∉ h.pages := by
  unfold Heap.kzallocPages Heap.buddyAllocPages at result
  cases hasPage : h.pageSupply with
  | nil =>
      rw [hasPage] at result
      cases result
  | cons page rest =>
      rw [hasPage] at result
      cases result
      have low : frame page = page := frame_of_lt (supply.low page (by simp [hasPage]))
      rw [low]
      exact zeroed_beside supply hasPage rfl rfl rfl

theorem kzallocPages_none (result : h.kzallocPages = (h', none)) : h' = h := by
  unfold Heap.kzallocPages Heap.buddyAllocPages at result
  cases hasPage : h.pageSupply with
  | nil =>
      rw [hasPage] at result
      cases result
      rfl
  | cons page rest =>
      rw [hasPage] at result
      cases result

/-- A page that was not in use is given back. -/
theorem Beside.kfreePages (beside : Beside base h) (new : page ∉ base.pages) : Beside base (h.kfreePages page) := by
  refine ⟨⟨beside.supply.low, beside.supply.nodup, fun p supplied inUse => ?_⟩, fun p old => ?_, beside.mem⟩
  · exact beside.supply.new p supplied (Finset.mem_of_mem_erase inUse)
  · exact Finset.mem_erase.2 ⟨ne_of_mem_of_not_mem old new, beside.pages old⟩

/-! ## vspace.c -/

theorem vspaceAlloc_apart {ret : Option Vspace} (supply : h.LowSupply) (run : vspaceAlloc h = (h', ret)) :
    Beside h h' ∧ ∀ vs, ret = some vs → Apart h h' vs := by
  have outcome := vspaceAlloc_outcome h
  rw [run] at outcome
  cases outcome with
  | noObject => exact ⟨Beside.refl supply, nofun⟩
  | noPgd => exact ⟨SamePages.beside ⟨rfl, rfl, rfl⟩ supply, nofun⟩
  | made obj objs page rest hasObject hasPage =>
      have low : frame page = page := frame_of_lt (supply.low page (by simp [hasPage]))
      rw [low]
      have handed : Beside h ((h.took page rest obj objs).clear page) ∧
          page ∈ ((h.took page rest obj objs).clear page).pages ∧ page ∉ h.pages :=
        zeroed_beside supply hasPage rfl rfl rfl
      obtain ⟨beside, inUse, new⟩ := handed
      refine ⟨beside, ?_⟩
      rintro vs ⟨⟩
      have zero : ((h.took page rest obj objs).clear page).mem page = fun _ => 0 := Function.update_self _ _ _
      refine ⟨beside, ⟨⟨_, Core.Mmu.rooted_zero zero rfl⟩, fun _ _ data => absurd data List.not_mem_nil, ?_⟩, ?_⟩
      · intro a _ pa attr found
        rw [walk, Core.Mmu.lookup_zero_page (fun i => congrFun zero i) a 3] at found
        cases found
      rintro p (table | data)
      · rw [List.mem_singleton.1 table]
        exact ⟨inUse, new⟩
      · cases data

/-- A refused `vspace_map_page` may have taken a page and given it back. -/
theorem refused_lowSupply {uva : UInt64} {flags : UInt32} {e : Mm.AddressSpace.Errno} (supply : h.LowSupply)
    (run : vspaceMapPage h vs uva flags = .ok (h', vs', .error e)) : h'.LowSupply := by
  have outcome := vspaceMapPage_outcome h vs uva flags
  rw [run] at outcome
  cases outcome with
  | unaligned => exact supply
  | noPage => exact supply
  | noRegion aligned page rest hasPage =>
      exact lowSupply_tail supply hasPage rfl fun p inUse =>
        (Finset.mem_insert.1 (Finset.mem_of_mem_erase inUse)).symm

theorem vspaceMapPage_apart {uva : UInt64} {flags : UInt32} {ret : Except Mm.AddressSpace.Errno Nat}
    (apart : Apart base h vs) (run : vspaceMapPage h vs uva flags = .ok (h', vs', ret)) :
    Apart base h' vs' ∧ ∀ kva, ret = .ok kva → kva ∉ base.pages ∧ kva ∉ vs'.tables := by
  obtain ⟨⟨own, space⟩, kinds, backed⟩ := apart.sound
  have tables : ∀ p ∈ vs.tables, p ∈ h.pages := fun p table => (apart.used p (.inl table)).1
  have spec := vspaceMapPage_space space apart.supply tables uva flags
  rw [run] at spec
  obtain ⟨⟨mem, pages, vspace⟩, e, rfl⟩ | ⟨page, used, mapped, rfl⟩ := spec
  · have vspace' : vs' = vs := vspace
    subst vspace'
    have beside : Beside h h' := ⟨refused_lowSupply apart.supply run, pages.symm.subset, fun p _ => congrFun mem p⟩
    exact ⟨apart.beside beside, nofun⟩
  · -- the pages handed out were not in use
    have fresh : ∀ p, p = page ∨ p ∈ used → p ∉ h.pages := fun p handed => by
      refine apart.supply.new p ?_
      rw [mapped.supply]
      rcases handed with rfl | member
      · exact List.mem_cons_self
      · exact List.mem_cons_of_mem _ (List.mem_append_left _ member)
    have new : ∀ p, p = page ∨ p ∈ used → p ∉ base.pages := fun p handed old => fresh p handed (apart.pages old)
    have sound : Sound h' vs' := ⟨mapped.space,
      mapped.kinds apart.supply (fun p uses => (apart.used p uses).1) kinds, mapped.backed apart.supply backed⟩
    refine ⟨⟨⟨mapped.lowSupply apart.supply, fun p old => ?_, fun p old => ?_⟩, sound, fun p uses => ?_⟩, ?_⟩
    · exact (mapped.mem_pages p).2 (.inl (apart.pages old))
    · refine (mapped.untouched p ?_ ?_ ?_).trans (apart.mem p old)
      · rintro rfl
        exact new p (.inl rfl) old
      · exact fun member => new p (.inr member) old
      · exact fun table => (apart.used p (.inl table)).2 old
    · rw [mapped.mem_pages]
      obtain earlier | handed := mapped.uses uses
      · exact ⟨.inl (apart.used p earlier).1, (apart.used p earlier).2⟩
      · exact ⟨.inr handed, new p handed⟩
    · rintro kva ⟨⟩
      exact ⟨new _ (.inl rfl), mapped.notTable apart.supply tables⟩

theorem vspaceFree_beside (apart : Apart base h vs) : Beside base (vspaceFree h vs) := by
  obtain ⟨own, space⟩ := apart.sound.space
  have supply := (vspaceFree_supply h vs).2
  refine ⟨⟨?_, ?_, fun p supplied inUse => ?_⟩, fun p old => ?_, fun p old => ?_⟩
  · rw [supply]
    exact apart.supply.low
  · rw [supply]
    exact apart.supply.nodup
  · rw [supply] at supplied
    exact apart.supply.new p supplied ((vspaceFree_pages h vs p).1 inUse).1
  · refine (vspaceFree_pages h vs p).2 ⟨apart.pages old, fun data => (apart.used p (.inr data)).2 old, ?_⟩
    rintro rfl
    exact (apart.used vs.pgd (.inl ((space.mem_tables vs.pgd).2 ⟨[], space.root⟩))).2 old
  · rw [vspaceFree_mem]
    exact apart.mem p old

/-! ## loader.c -/

theorem copyPage_apart (ph : Phdr) (f : Image) (uva : UInt64) (apart : Apart base h vs) (new : page ∉ base.pages)
    (notTable : page ∉ vs.tables) : Apart base (copyPage ph f h page uva) vs := by
  obtain ⟨other, pages, supply⟩ := copyPage_other ph f h page uva
  refine ⟨⟨⟨?_, ?_, ?_⟩, ?_, fun p old => ?_⟩, (apart.sound.congr fun p table => ?_).1, ?_⟩
  · rw [supply]
    exact apart.supply.low
  · rw [supply]
    exact apart.supply.nodup
  · rw [supply, pages]
    exact apart.supply.new
  · rw [pages]
    exact apart.pages
  · exact (other p (ne_of_mem_of_not_mem old new)).trans (apart.mem p old)
  · exact other p (ne_of_mem_of_not_mem table notTable)
  · rw [pages]
    exact apart.used

/-- **The loader works on pages of its own.** -/
theorem procLoadElf_apart {file : Except LoadError Image} {ret : Except LoadError (UInt64 × UInt64)}
    (apart : Apart base h vs) (run : procLoadElf file h vs = .ok (h', vs', ret)) : Apart base h' vs' := by
  have keeps : Keeps (Apart base) := by
    refine ⟨?_, ?_⟩
    · intro h h' vs vs' uva flags ret apart map
      exact (vspaceMapPage_apart apart map).1
    intro ph f h h' vs vs' uva flags kva apart map
    obtain ⟨apart', written⟩ := vspaceMapPage_apart apart map
    obtain ⟨new, notTable⟩ := written _ rfl
    exact copyPage_apart ph f uva apart' new notTable
  exact keeps.procLoadElf apart run

end Pages

end Minus.Proc.Loader
