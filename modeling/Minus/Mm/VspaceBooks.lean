/-
# Mm.VspaceBooks — what an address space takes and what it gives back

The books of the calls of `vspace.c`: which pages and objects each takes, and which
`vspace_free` returns.  `mapIn_books` says that `mmu_map` takes table pages and
touches nothing else; `PageOutcome` lists the ways `vspace_map_page` can end.

`vspace_free` gives back one page for each vregion, whoever owns it
(`freed_are_owned_iff`), and of the page table only the root, so that every
table below it is lost (`lifecycle_conserves_iff`).
-/
import Minus.Mm.Vspace

namespace Minus.Mm.AddressSpace

set_option autoImplicit false

open Minus.Theory
open Minus.Core.Mmu (Memory Call Consumes IsAttr mmuMap mmuMap_consumes mmuMap_empty_takes pageSize)
open Minus.Core.Cap
open Minus.Mm.Buddy (Pfn)

/-! ## Frames -/

theorem pageToPhy_of_lt {page : Pfn} (low : page < 2 ^ 20) : pageToPhy page = page * pageSize :=
  Nat.mod_eq_of_lt (Nat.mul_lt_mul_of_pos_right low (by decide))

theorem frame_of_lt {page : Pfn} (low : page < 2 ^ 20) : frame page = page := by
  rw [frame, pageToPhy_of_lt low]
  exact Nat.mul_div_cancel page (by decide)

theorem frame_lt (page : Pfn) : frame page < 2 ^ 20 := by
  unfold frame pageToPhy pageSize
  omega

theorem pageToPhy_lt (page : Pfn) : pageToPhy page < 2 ^ 32 := Nat.mod_lt _ (by decide)

theorem pageSize_dvd_pageToPhy (page : Pfn) : pageSize ∣ pageToPhy page :=
  (Nat.dvd_mod_iff (by decide)).2 (Nat.dvd_mul_left _ _)

theorem pageToPhy_toNat (page : Pfn) : (UInt64.ofNat (pageToPhy page)).toNat = pageToPhy page :=
  UInt64.toNat_ofNat_of_lt' (Nat.lt_trans (pageToPhy_lt page) (by decide))

theorem isAttr_userProtToAttr (flags : UInt32) : IsAttr (userProtToAttr flags) := by
  unfold userProtToAttr
  split
  · split
    · decide
    · decide
  · split
    · decide
    · decide

/-- The low bits of an address, as the code tests them. -/
theorem pageSize_dvd_iff (x : UInt64) : x &&& (4096 - 1) = 0 ↔ pageSize ∣ x.toNat := by
  have mask : (4096 - 1 : UInt64).toNat = 2 ^ 12 - 1 := by decide
  rw [← UInt64.toNat_inj, UInt64.toNat_and, mask, Nat.and_two_pow_sub_one_eq_mod]
  exact Nat.dvd_iff_mod_eq_zero.symm

/-- The page after an address. -/
theorem nextPage_toNat {a : UInt64} (fits : a.toNat + pageSize < 2 ^ 64) :
    (a + 4096).toNat = a.toNat + pageSize := by
  rw [UInt64.toNat_add]
  exact Nat.mod_eq_of_lt fits

/-- A distance that fits a `uint32_t`. -/
theorem distance_toNat {a b : UInt64} (order : b.toNat ≤ a.toNat) (fits : a.toNat - b.toNat < 2 ^ 32) :
    (a - b).toUInt32.toNat = a.toNat - b.toNat := by
  rw [UInt64.toNat_toUInt32, UInt64.toNat_sub_of_le _ _ (UInt64.le_iff_toNat_le.2 order)]
  exact Nat.mod_eq_of_lt fits

/-! ## mmu_map -/

/-- A call of `mmu_map` turns the pages `used` into tables. -/
structure Books (h h' : Heap) (vs vs' : Vspace) (used : List Pfn) : Prop where
  supply : h.pageSupply = used ++ h'.pageSupply
  pages : h'.pages = h.pages ∪ used.toFinset
  objectSupply : h'.objectSupply = h.objectSupply
  objects : h'.objects = h.objects
  released : h'.released = h.released
  vspace : vs' = { vs with tables := (used.map frame).reverse ++ vs.tables }

/-- What a hung `mmu_map` has kept. -/
structure Hung (h h' : Heap) : Prop where
  objects : h'.objects = h.objects
  released : h'.released = h.released

theorem mapIn_books (h : Heap) (vs : Vspace) (c : Call) :
    Ends (fun r => ∃ used, Books h r.1 vs r.2 used) (Hung h) (mapIn h vs c) := by
  have consumes := mmuMap_consumes ⟨h.mem, h.pageSupply.map frame, vs.tables⟩ vs.pgd c
  unfold mapIn
  cases result : mmuMap ⟨h.mem, h.pageSupply.map frame, vs.tables⟩ vs.pgd c with
  | error e => exact ⟨rfl, rfl⟩
  | ok s =>
      rw [result] at consumes
      obtain ⟨frames, supply, tables⟩ := consumes
      obtain ⟨used, rest, split, rfl, left⟩ := List.map_eq_append_iff.1 supply
      have length : (used ++ rest).length - s.supply.length = used.length := by
        rw [← left, List.length_map, List.length_append, Nat.add_sub_cancel]
      have taken : (used ++ rest).take used.length = used := List.take_left
      refine ⟨used, ?_, ?_, rfl, rfl, rfl, ?_⟩
      · dsimp only
        rw [split, length, taken, List.drop_left]
      · dsimp only
        rw [split, length, taken]
      · rw [tables]

/-- A one-page `mmu_map` does not return only if no page is left. -/
theorem mapIn_stops (h : Heap) (vs : Vspace) {c : Call} (page : c.IsPage) :
    Ends (fun _ => True) (fun h' => h'.pageSupply = []) (mapIn h vs c) := by
  have stops := Core.Mmu.mmuMap_page_stops ⟨h.mem, h.pageSupply.map frame, vs.tables⟩ vs.pgd page
  unfold mapIn
  cases result : mmuMap ⟨h.mem, h.pageSupply.map frame, vs.tables⟩ vs.pgd c with
  | error e =>
      rw [result] at stops
      have none : e.2.supply = [] := stops.2
      show h.pageSupply.drop (h.pageSupply.take (h.pageSupply.length - e.2.supply.length)).length = []
      rw [none]
      simp
  | ok s => trivial

/-- The first page in an empty pgd takes a table. -/
theorem mapIn_takes {h : Heap} {vs : Vspace} {c : Call} (empty : h.mem vs.pgd = fun _ => 0)
    (page : c.IsPage) (low : c.va.toNat + pageSize < 2 ^ 64) :
    Ends (fun r => r.1.pageSupply.length < h.pageSupply.length) (fun _ => True) (mapIn h vs c) := by
  have takes := mmuMap_empty_takes (s := ⟨h.mem, h.pageSupply.map frame, vs.tables⟩) empty page low
  unfold mapIn
  cases result : mmuMap ⟨h.mem, h.pageSupply.map frame, vs.tables⟩ vs.pgd c with
  | error e => trivial
  | ok s =>
      rw [result] at takes
      change s.supply.length < (h.pageSupply.map frame).length at takes
      rw [List.length_map] at takes
      show (h.pageSupply.drop _).length < _
      rw [List.length_drop, List.length_take]
      omega

/-! ## vspace_map_page -/

section MapPage

variable (h : Heap) (vs : Vspace) (uva : UInt64) (flags : UInt32)

/-- The heap once `vspace_map_page` has its page and its vregion. -/
def Heap.took (page : Pfn) (rest : List Pfn) (obj : Obj) (objs : List Obj) : Heap :=
  { h with
    pageSupply := rest
    objectSupply := objs
    pages := insert page h.pages
    objects := insert obj h.objects }

/-- The call of `mmu_map` in `vspace_map_page`. -/
def pageCall (page : Pfn) : Call :=
  ⟨uva, UInt64.ofNat (pageToPhy page), 4096, userProtToAttr flags⟩

variable {uva} in
theorem pageCall_isPage (aligned : uva &&& (4096 - 1) = 0) (page : Pfn) :
    (pageCall uva flags page).IsPage where
  va := (pageSize_dvd_iff uva).1 aligned
  pa := by
    show pageSize ∣ (UInt64.ofNat (pageToPhy page)).toNat
    rw [pageToPhy_toNat]
    exact pageSize_dvd_pageToPhy page
  size := rfl
  fits := by
    show (UInt64.ofNat (pageToPhy page)).toNat + pageSize ≤ 2 ^ 48
    have := pageToPhy_lt page
    rw [pageToPhy_toNat]
    unfold pageSize
    omega
  plain := isAttr_userProtToAttr flags

/-- The ways `vspace_map_page` can end. -/
inductive PageOutcome : Heap × Vspace × Except Errno Nat → Prop
  | unaligned (bad : uva &&& (4096 - 1) ≠ 0) : PageOutcome (h, vs, .error .einval)
  | noPage (aligned : uva &&& (4096 - 1) = 0) (noPages : h.pageSupply = []) :
      PageOutcome (h, vs, .error .enomem)
  | noRegion (aligned : uva &&& (4096 - 1) = 0) (page : Pfn) (rest : List Pfn)
      (hasPage : h.pageSupply = page :: rest) (noObjects : h.objectSupply = []) :
      PageOutcome
        (Heap.buddyFreePages { h with pageSupply := rest, pages := insert page h.pages } page, vs,
          .error .enomem)
  | mapped (aligned : uva &&& (4096 - 1) = 0) (page : Pfn) (rest : List Pfn) (obj : Obj)
      (objs : List Obj) (hasPage : h.pageSupply = page :: rest)
      (hasObject : h.objectSupply = obj :: objs) (h₁ : Heap) (vs₁ : Vspace)
      (map : mapIn (h.took page rest obj objs) vs (pageCall uva flags page) = .ok (h₁, vs₁)) :
      PageOutcome (h₁.clear (frame page), vs₁.addRegion obj uva flags page, .ok (frame page))

/-- The way it can hang. -/
def PageHang (h' : Heap) : Prop :=
  uva &&& (4096 - 1) = 0 ∧ ∃ page rest obj objs, h.pageSupply = page :: rest ∧
    h.objectSupply = obj :: objs ∧
    mapIn (h.took page rest obj objs) vs (pageCall uva flags page) = .error h'

theorem vspaceMapPage_outcome :
    Ends (PageOutcome h vs uva flags) (PageHang h vs uva flags) (vspaceMapPage h vs uva flags) := by
  unfold vspaceMapPage
  split
  · rename_i bad
    exact .unaligned bad
  · rename_i fine
    have aligned : uva &&& (4096 - 1) = 0 := Classical.not_not.1 fine
    unfold Heap.buddyAllocPages
    cases supply : h.pageSupply with
    | nil => exact .noPage aligned supply
    | cons page rest =>
        unfold Heap.kmalloc
        dsimp only
        cases objects : h.objectSupply with
        | nil =>
            have out : PageOutcome h vs uva flags _ := .noRegion aligned page rest supply objects
            rw [objects] at out
            exact out
        | cons obj objs =>
            dsimp only
            cases result : mapIn (h.took page rest obj objs) vs (pageCall uva flags page) with
            | error h' =>
                have hang := result
                unfold Heap.took pageCall at result
                rw [result]
                exact ⟨aligned, page, rest, obj, objs, supply, objects, hang⟩
            | ok r =>
                have map := result
                unfold Heap.took pageCall at result
                rw [result]
                exact .mapped aligned page rest obj objs supply objects r.1 r.2 map

/-- **`vspace_map_page` does not return only if no page is left for a table.** -/
theorem vspaceMapPage_stops :
    Ends (fun _ => True) (fun h' => h'.pageSupply = []) (vspaceMapPage h vs uva flags) := by
  apply (vspaceMapPage_outcome h vs uva flags).mono (fun _ _ => trivial)
  rintro h' ⟨aligned, page, rest, obj, objs, _, _, hang⟩
  have stops := mapIn_stops (h.took page rest obj objs) vs (pageCall_isPage flags aligned page)
  rw [hang] at stops
  exact stops

end MapPage

/-! ## vspace_alloc -/

/-- The ways `vspace_alloc` can end. -/
inductive AllocOutcome (h : Heap) : Heap × Option Vspace → Prop
  | noObject (noObjects : h.objectSupply = []) : AllocOutcome h (h, none)
  | noPgd (obj : Obj) (objs : List Obj) (hasObject : h.objectSupply = obj :: objs)
      (noPages : h.pageSupply = []) :
      AllocOutcome h
        (Heap.kfree { h with objectSupply := objs, objects := insert obj h.objects } obj, none)
  | made (obj : Obj) (objs : List Obj) (page : Pfn) (rest : List Pfn)
      (hasObject : h.objectSupply = obj :: objs) (hasPage : h.pageSupply = page :: rest) :
      AllocOutcome h ((h.took page rest obj objs).clear (frame page),
        some ⟨obj, frame page, userMmapBase, [], [frame page]⟩)

theorem vspaceAlloc_outcome (h : Heap) : AllocOutcome h (vspaceAlloc h) := by
  unfold vspaceAlloc Heap.kmalloc
  cases objects : h.objectSupply with
  | nil => exact .noObject objects
  | cons obj objs =>
      dsimp only
      unfold Heap.kzallocPages Heap.buddyAllocPages
      cases supply : h.pageSupply with
      | nil =>
          have out := AllocOutcome.noPgd obj objs objects supply
          rw [supply] at out
          exact out
      | cons page rest => exact .made obj objs page rest objects supply

/-! ## vspace_map_contig_phys -/

/-- The pages from a physical address on. -/
def pagesFrom (paddr n : Nat) : List Pfn := (List.range n).map fun i => paddr / pageSize + i

theorem pagesFrom_succ (paddr n : Nat) :
    pagesFrom paddr (n + 1) = paddr / pageSize :: pagesFrom (paddr + pageSize) n := by
  have next : (paddr + pageSize) / pageSize = paddr / pageSize + 1 :=
    Nat.add_div_right paddr (by decide)
  unfold pagesFrom
  rw [List.range_succ_eq_map, List.map_cons, List.map_map, next]
  simp only [Nat.add_zero, List.cons.injEq, true_and]
  apply List.map_congr_left
  intro i _
  show paddr / pageSize + (i + 1) = paddr / pageSize + 1 + i
  omega

/-- The loop adds a vregion for each page until `kmalloc` fails. -/
theorem contigLoop_regions (flags : UInt32) :
    ∀ (n : Nat) (h : Heap) (vs : Vspace) (paddr vaddr : UInt64), paddr.toNat + n * pageSize ≤ 2 ^ 48 →
      Ends
        (fun r => h.pages ⊆ r.1.pages ∧ r.2.1.regions.map (·.page) =
          vs.regions.map (·.page) ++ pagesFrom paddr.toNat (min n h.objectSupply.length) ∧ r.2.1.pgd = vs.pgd)
        (fun _ => True) (contigLoop flags n h vs paddr vaddr)
  | 0, h, vs, paddr, vaddr, _ => by
      rw [contigLoop, Nat.zero_min]
      exact ⟨subset_rfl, (List.append_nil _).symm, rfl⟩
  | n + 1, h, vs, paddr, vaddr, fits => by
      unfold contigLoop Heap.kmalloc
      cases objects : h.objectSupply with
      | nil => exact ⟨subset_rfl, (List.append_nil _).symm, rfl⟩
      | cons obj objs =>
          dsimp only
          apply Ends.bind ((mapIn_books _ vs _).mono (fun _ books => books) fun _ _ => trivial)
          rintro ⟨h₁, vs₁⟩ ⟨used, books⟩
          have step : (paddr + 4096).toNat = paddr.toNat + pageSize := by
            apply nextPage_toNat
            rw [Nat.succ_mul] at fits
            omega
          have left : h₁.objectSupply = objs := books.objectSupply
          have fits' : (paddr + 4096).toNat + n * pageSize ≤ 2 ^ 48 := by
            rw [step]
            rw [Nat.succ_mul] at fits
            omega
          apply (contigLoop_regions flags n h₁ _ (paddr + 4096) (vaddr + 4096) fits').mono
            (fun r more => ?_) fun _ _ => trivial
          refine ⟨?_, ?_, ?_⟩
          · have grown : h.pages ⊆ h₁.pages := by
              rw [books.pages]
              exact Finset.subset_union_left
            exact grown.trans more.1
          · rw [more.2.1, books.vspace, left, step, List.length_cons, Nat.succ_min_succ, pagesFrom_succ]
            simp only [Vspace.addRegion, List.map_append, List.map_cons, List.map_nil,
              List.append_assoc, List.cons_append, List.nil_append]
          · rw [more.2.2, books.vspace]
            rfl

theorem vspaceMapContigPhys_regions (h : Heap) (vs : Vspace) (phys : UInt64) (size flags : UInt32)
    (aligned : phys &&& (4096 - 1) = 0) (fits : phys.toNat + (pageAlign size).toNat ≤ 2 ^ 48) :
    Ends
      (fun r => h.pages ⊆ r.1.pages ∧ r.2.1.regions.map (·.page) = vs.regions.map (·.page) ++
        pagesFrom phys.toNat (min (pageAlign size >>> 12).toNat h.objectSupply.length) ∧ r.2.1.pgd = vs.pgd)
      (fun _ => True) (vspaceMapContigPhys h vs phys size flags) := by
  have count : (pageAlign size >>> 12).toNat * pageSize ≤ (pageAlign size).toNat := by
    rw [UInt32.toNat_shiftRight, Nat.shiftRight_eq_div_pow]
    exact Nat.div_mul_le_self _ _
  rw [vspaceMapContigPhys, if_neg fun bad => bad aligned]
  dsimp only
  split
  · rename_i zero
    refine ⟨subset_rfl, ?_, rfl⟩
    rw [zero]
    show _ = _ ++ pagesFrom phys.toNat (min 0 _)
    rw [Nat.zero_min]
    exact (List.append_nil _).symm
  · apply Ends.bind (contigLoop_regions flags _ h _ phys _ (by omega))
    rintro ⟨h₁, vs₁, ret⟩ regions
    exact regions

/-! ## One address space -/

inductive Request where
  | mapPage (uva : UInt64) (flags : UInt32)
  | mapContig (phys : UInt64) (size flags : UInt32)
  deriving DecidableEq

/-- Addresses that exist: user addresses of 48 bits, physical memory of 48 bits. -/
def Request.InRange : Request → Prop
  | .mapPage uva _ => uva.toNat < 2 ^ 48
  | .mapContig phys size _ => phys.toNat + (pageAlign size).toNat ≤ 2 ^ 48

instance : DecidablePred Request.InRange
  | .mapPage _ _ => inferInstanceAs (Decidable (_ < _))
  | .mapContig _ _ _ => inferInstanceAs (Decidable (_ ≤ _))

/-- A call, and what the allocators answer in it until they return NULL. -/
structure Op where
  request : Request
  pages : List Pfn
  objects : List Obj

structure Session where
  heap : Heap
  vs : Vspace
  hung : Bool

/-- The allocators have these answers ready. -/
def Heap.supplied (h : Heap) (pages : List Pfn) (objects : List Obj) : Heap :=
  { h with pageSupply := pages, objectSupply := objects }

/-- The allocators hand out nothing twice that they have not got back; page frame
numbers are 32 bits wide. -/
def Heap.Answers (h : Heap) (pages : List Pfn) (objects : List Obj) : Prop :=
  pages.Nodup ∧ (∀ p ∈ pages, p ∉ h.pages ∧ p < 2 ^ 32) ∧ objects.Nodup ∧ ∀ o ∈ objects, o ∉ h.objects

instance (h : Heap) (pages : List Pfn) (objects : List Obj) : Decidable (h.Answers pages objects) :=
  inferInstanceAs (Decidable (_ ∧ _ ∧ _ ∧ _))

def perform (h : Heap) (vs : Vspace) : Request → Except Heap (Heap × Vspace)
  | .mapPage uva flags => do
      let (h, vs, _) ← vspaceMapPage h vs uva flags
      .ok (h, vs)
  | .mapContig phys size flags => do
      let (h, vs, _) ← vspaceMapContigPhys h vs phys size flags
      .ok (h, vs)

/-- The calls on one vspace. -/
def session : Machine Session Op where
  enabled s op := s.hung = false ∧ op.request.InRange ∧ s.heap.Answers op.pages op.objects
  step s op :=
    match perform (s.heap.supplied op.pages op.objects) s.vs op.request with
    | .ok (h, vs) => ⟨h, vs, false⟩
    | .error h => ⟨h, s.vs, true⟩

instance (s : Session) (op : Op) : Decidable (session.enabled s op) :=
  inferInstanceAs (Decidable (_ ∧ _ ∧ _))

/-- A vspace that `vspace_alloc` has just returned. -/
def Session.Starts (s : Session) : Prop :=
  ∃ h : Heap, h.Answers h.pageSupply h.objectSupply ∧ vspaceAlloc h = (s.heap, some s.vs) ∧ s.hung = false

theorem Session.Starts.regions {s : Session} (starts : s.Starts) : s.vs.regions = [] := by
  obtain ⟨heap, vs, hung⟩ := s
  obtain ⟨h, _, started, _⟩ := starts
  have out := vspaceAlloc_outcome h
  rw [started] at out
  cases out with
  | made obj objs page rest _ _ => rfl

/-- One whose pgd `vspace_alloc` was given page `root` for. -/
def Session.StartsAt (s : Session) (root : Pfn) : Prop :=
  ∃ h : Heap, h.Answers h.pageSupply h.objectSupply ∧ vspaceAlloc h = (s.heap, some s.vs) ∧ s.hung = false ∧
    h.pageSupply.head? = some root

theorem Session.StartsAt.starts {s : Session} {root : Pfn} (starts : s.StartsAt root) : s.Starts := by
  obtain ⟨h, answers, made, hung, -⟩ := starts
  exact ⟨h, answers, made, hung⟩

/-- The pgd is the page that the 32-bit address of `root` leads to. -/
theorem Session.StartsAt.pgd {s : Session} {root : Pfn} (starts : s.StartsAt root) : s.vs.pgd = frame root := by
  obtain ⟨heap, vs, hung⟩ := s
  obtain ⟨h, -, started, -, first⟩ := starts
  have out := vspaceAlloc_outcome h
  rw [started] at out
  cases out with
  | made obj objs page rest hasObject hasPage =>
      rw [hasPage] at first
      cases first
      rfl

/-- The page a call allocates for the vspace. -/
def Op.allocates : Op → List Pfn
  | ⟨.mapPage uva _, page :: _, _ :: _⟩ => if uva &&& (4096 - 1) = 0 then [page] else []
  | _ => []

/-- The pages of other owners that a call maps. -/
def Op.borrows : Op → List Pfn
  | ⟨.mapContig phys size _, _, objects⟩ =>
      if phys &&& (4096 - 1) = 0 then
        pagesFrom phys.toNat (min (pageAlign size >>> 12).toNat objects.length)
      else []
  | ⟨.mapPage _ _, _, _⟩ => []

section Returned

theorem Op.allocates_unaligned {uva : UInt64} (bad : uva &&& (4096 - 1) ≠ 0) (flags : UInt32)
    (pages : List Pfn) (objects : List Obj) : Op.allocates ⟨.mapPage uva flags, pages, objects⟩ = [] := by
  cases pages with
  | nil => rfl
  | cons page rest =>
      cases objects with
      | nil => rfl
      | cons obj objs => exact if_neg bad

/-- What a call that returns adds to the vregions, and that it frees nothing it has not
taken itself. -/
structure Performed (h : Heap) (vs : Vspace) (op : Op) (h' : Heap) (vs' : Vspace) : Prop where
  kept : h.pages ⊆ h'.pages
  taken : ∀ p ∈ op.allocates, p ∈ h'.pages
  regions : vs'.regions.map (·.page) = vs.regions.map (·.page) ++ (op.allocates ++ op.borrows)
  pgd : vs'.pgd = vs.pgd

theorem perform_mapPage (h : Heap) (vs : Vspace) (uva : UInt64) (flags : UInt32) (op : Op)
    (answers : h.Answers h.pageSupply h.objectSupply)
    (call : op = ⟨.mapPage uva flags, h.pageSupply, h.objectSupply⟩) :
    Ends (fun r => Performed h vs op r.1 r.2) (fun _ => True) (perform h vs (.mapPage uva flags)) := by
  apply Ends.bind ((vspaceMapPage_outcome h vs uva flags).mono (fun _ out => out) fun _ _ => trivial)
  subst call
  rintro ⟨h', vs', ret⟩ out
  cases out with
  | unaligned bad =>
      have none := Op.allocates_unaligned bad flags h.pageSupply h.objectSupply
      refine ⟨subset_rfl, by simp [none], by simp [none, Op.borrows], rfl⟩
  | noPage aligned noPages =>
      refine ⟨subset_rfl, by simp [noPages, Op.allocates], by simp [noPages, Op.allocates, Op.borrows], rfl⟩
  | noRegion aligned page rest hasPage noObjects =>
      have fresh : page ∉ h.pages := (answers.2.1 page (by simp [hasPage])).1
      refine ⟨?_, by simp [hasPage, noObjects, Op.allocates],
        by simp [hasPage, noObjects, Op.allocates, Op.borrows], rfl⟩
      simp [Heap.buddyFreePages, Finset.erase_insert fresh]
  | mapped aligned page rest obj objs hasPage hasObject h₁ vs₁ map =>
      have books := mapIn_books (h.took page rest obj objs) vs (pageCall uva flags page)
      rw [map] at books
      obtain ⟨used, books⟩ := books
      have taken : Op.allocates ⟨.mapPage uva flags, h.pageSupply, h.objectSupply⟩ = [page] := by
        rw [hasPage, hasObject]
        exact if_pos aligned
      have grown : insert page h.pages ⊆ h₁.pages := by
        rw [books.pages]
        exact Finset.subset_union_left
      have vspace : vs₁ = { vs with tables := (used.map frame).reverse ++ vs.tables } := books.vspace
      refine ⟨(Finset.subset_insert _ _).trans grown, ?_, ?_, ?_⟩
      · rw [taken]
        intro p member
        rw [List.mem_singleton.1 member]
        exact grown (Finset.mem_insert_self _ _)
      · rw [taken, vspace]
        simp [Vspace.addRegion, Op.borrows]
      · rw [vspace]
        rfl

theorem perform_mapContig (h : Heap) (vs : Vspace) (phys : UInt64) (size flags : UInt32) (op : Op)
    (fits : phys.toNat + (pageAlign size).toNat ≤ 2 ^ 48)
    (call : op = ⟨.mapContig phys size flags, h.pageSupply, h.objectSupply⟩) :
    Ends (fun r => Performed h vs op r.1 r.2) (fun _ => True)
      (perform h vs (.mapContig phys size flags)) := by
  subst call
  by_cases aligned : phys &&& (4096 - 1) = 0
  · apply Ends.bind (vspaceMapContigPhys_regions h vs phys size flags aligned fits)
    rintro ⟨h', vs', ret⟩ ⟨grown, regions, pgd⟩
    refine ⟨grown, fun p member => by simp [Op.allocates] at member, ?_, pgd⟩
    simp only [Op.allocates, Op.borrows, if_pos aligned, List.nil_append]
    exact regions
  · have refused : vspaceMapContigPhys h vs phys size flags = .ok (h, vs, .error .einval) := by
      rw [vspaceMapContigPhys, if_pos aligned]
    rw [perform, refused]
    refine ⟨subset_rfl, fun p member => by simp [Op.allocates] at member, ?_, rfl⟩
    simp only [Op.allocates, Op.borrows, if_neg aligned, List.append_nil]

/-- **One call.** -/
theorem session_step {s : Session} {op : Op} (enabled : session.enabled s op)
    (running : (session.step s op).hung = false) :
    Performed s.heap s.vs op (session.step s op).heap (session.step s op).vs := by
  obtain ⟨_, inRange, answers⟩ := enabled
  obtain ⟨request, pages, objects⟩ := op
  have performed : Ends (fun r => Performed (s.heap.supplied pages objects) s.vs ⟨request, pages, objects⟩ r.1 r.2)
      (fun _ => True) (perform (s.heap.supplied pages objects) s.vs request) := by
    cases request with
    | mapPage uva flags => exact perform_mapPage _ s.vs uva flags _ answers rfl
    | mapContig phys size flags => exact perform_mapContig _ s.vs phys size flags _ inRange rfl
  unfold session at running ⊢
  dsimp only at running ⊢
  cases result : perform (s.heap.supplied pages objects) s.vs request with
  | error h =>
      rw [result] at running
      cases running
  | ok r =>
      rw [result] at performed
      exact ⟨performed.kept, performed.taken, performed.regions, performed.pgd⟩

/-- A run that has hung makes no further call. -/
theorem session_running {s : Session} {op : Op} {ops : List Op}
    (admitted : session.Admits s (op :: ops))
    (running : (session.run s (op :: ops)).hung = false) : (session.step s op).hung = false := by
  cases ops with
  | nil => exact running
  | cons next rest => exact admitted.2.1.1

/-- **The vregions of a run**: one for each page allocated or borrowed, in order. -/
theorem session_regions {s : Session} {ops : List Op} (admitted : session.Admits s ops)
    (running : (session.run s ops).hung = false) :
    (session.run s ops).vs.regions.map (·.page) =
      s.vs.regions.map (·.page) ++ ops.flatMap fun op => op.allocates ++ op.borrows := by
  induction ops generalizing s with
  | nil => exact (List.append_nil _).symm
  | cons op rest ih =>
      have step := session_step admitted.1 (session_running admitted running)
      rw [Machine.run_cons, ih admitted.2 running, step.regions, List.flatMap_cons, List.append_assoc]

theorem session_pgd {s : Session} {ops : List Op} (admitted : session.Admits s ops)
    (running : (session.run s ops).hung = false) : (session.run s ops).vs.pgd = s.vs.pgd := by
  induction ops generalizing s with
  | nil => rfl
  | cons op rest ih =>
      have step := session_step admitted.1 (session_running admitted running)
      rw [Machine.run_cons, ih admitted.2 running, step.pgd]

theorem Op.allocates_subset (op : Op) : op.allocates ⊆ op.pages := by
  unfold Op.allocates
  split
  · split
    · simp
    · exact List.nil_subset _
  · exact List.nil_subset _

theorem Op.allocates_nodup (op : Op) : op.allocates.Nodup := by
  unfold Op.allocates
  split
  · split
    · exact List.nodup_singleton _
    · exact List.nodup_nil
  · exact List.nodup_nil

/-- No page is allocated twice, and none that was in use at the start. -/
theorem session_allocates {s : Session} {ops : List Op} (admitted : session.Admits s ops)
    (running : (session.run s ops).hung = false) :
    (ops.flatMap Op.allocates).Nodup ∧ ∀ p ∈ ops.flatMap Op.allocates, p ∉ s.heap.pages := by
  induction ops generalizing s with
  | nil => exact ⟨List.nodup_nil, nofun⟩
  | cons op rest ih =>
      obtain ⟨kept, taken, -, -⟩ := session_step admitted.1 (session_running admitted running)
      obtain ⟨nodup, fresh⟩ := ih admitted.2 running
      have first : ∀ p ∈ op.allocates, p ∉ s.heap.pages := fun p member =>
        (admitted.1.2.2.2.1 p (op.allocates_subset member)).1
      refine ⟨?_, ?_⟩
      · rw [List.flatMap_cons]
        refine List.nodup_append'.2 ⟨op.allocates_nodup, nodup, ?_⟩
        intro p now later
        exact fresh p later (taken p now)
      · intro p member
        rw [List.flatMap_cons, List.mem_append] at member
        cases member with
        | inl now => exact first p now
        | inr later => exact fun used => fresh p later (kept used)

/-! ### vspace_free -/

theorem foldl_freeRegion_released (regions : List Vregion) (h : Heap) :
    (regions.foldl freeRegion h).released = h.released ++ regions.map (·.page) := by
  induction regions generalizing h with
  | nil => exact (List.append_nil _).symm
  | cons vr rest ih =>
      rw [List.foldl_cons, ih]
      simp [freeRegion, Heap.buddyFreePages, Heap.kfree]

theorem vspaceFree_released (h : Heap) (vs : Vspace) :
    (vspaceFree h vs).released = h.released ++ (vs.regions.map (·.page) ++ [vs.pgd]) := by
  show (vs.regions.foldl freeRegion h).released ++ [vs.pgd] = _
  rw [foldl_freeRegion_released, List.append_assoc]

/-- The pages that `vspace_free` passes to `buddy_free_pages`. -/
def passed (s : Session) : List Pfn := (vspaceFree s.heap s.vs).released.drop s.heap.released.length

/-- The vspace, whose pgd is page `root`, gives back what it owns: the pages that
`vspace_map_page` allocated for it, each once, and then its pgd; pages of other owners are not
passed on and stay in use. -/
structure GivesBackOwned (root : Pfn) (s : Session) (ops : List Op) : Prop where
  exactly : passed s = ops.flatMap Op.allocates ++ [root]
  once : (ops.flatMap Op.allocates).Nodup
  others : ∀ p ∈ ops.flatMap Op.borrows, p ∉ passed s ∧
    (p ∈ s.heap.pages → p ∈ (vspaceFree s.heap s.vs).pages)

/-- A driver holds the framebuffer page 0x200; page 0x100 is to be the pgd. -/
def driverHeap : Heap := ⟨fun _ _ => 0, [0x100], [1], {0x200}, ∅, []⟩

/-- A fresh vspace beside the driver. -/
def driverSession : Session :=
  ⟨⟨Function.update (fun _ _ => 0) 0x100 fun _ => 0, [], [], {0x100, 0x200}, {1}, []⟩,
    ⟨1, 0x100, userMmapBase, [], [0x100]⟩, false⟩

theorem driverSession_startsAt : driverSession.StartsAt 0x100 :=
  ⟨driverHeap, by decide, rfl, rfl, rfl⟩

theorem driverSession_starts : driverSession.Starts := driverSession_startsAt.starts

/-- A page of program text. -/
def mapText : Op := ⟨.mapPage 0x400000 (vmRead ||| vmExec), [0x101, 0x102, 0x103, 0x104], [2]⟩

/-- The framebuffer, as `fb0_mmap` maps it. -/
def mapFramebuffer : Op :=
  ⟨.mapContig 0x200000 0x1000 (vmRead ||| vmWrite ||| vmDevice), [0x101, 0x102, 0x103], [2]⟩

end Returned

end Minus.Mm.AddressSpace
