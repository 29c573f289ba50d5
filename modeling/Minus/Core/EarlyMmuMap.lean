/-
# Core.EarlyMmuMap — the two builders make the same tables

The early builder and `mmu_map` side by side, with the same pages handed out.  All
pages but those that translate the fixmap and the image (`Window`) have the same contents, and
a slot of the fixmap maps the table that was selected for its level until that level is
done: a deeper level writes deeper slots only (`earlyMmuMapRange_sim`).

Both builders take any populated entry for a table.  Where such an entry is a block, its
page can be any page: one of the window, so that writing it turns the fixmap or the pointer
to level 0 away, or one that is handed out to hang in itself, where the one builder clears the page before
it writes the entry and the other after.  `followMap` is `mmu_map` with a look at this:
it stops where the walk goes astray so.
-/
import Minus.Core.EarlyMmu
import Minus.Theory.Simulation

namespace Minus.Core.Mmu

set_option autoImplicit false

open Minus.Theory

/-! ## The fixmap -/

/-- The tables below `TTBR1` that translate the fixmap, and those that translate the address of
the level-0 table in the kernel image. -/
structure Window where
  upper : Nat
  middle : Nat
  pte : Nat
  image : List Nat
  deriving DecidableEq

/-- The entry is a descriptor for `page`. -/
def Leads (entry : UInt64) (page : Nat) : Prop := typeOf entry = pteTypeTable ∧ pageOf entry = page

instance (entry : UInt64) (page : Nat) : Decidable (Leads entry page) := inferInstanceAs (Decidable (_ ∧ _))

/-- The walk of a fixmap address is in place, and slot 0 is the page of the slots. -/
structure Fixmap (ttbr1 : Nat) (w : Window) (mem : Memory) : Prop where
  top : Leads (mem ttbr1 (index 3 fixmapAddr)) w.upper
  upper : Leads (mem w.upper (index 2 fixmapAddr)) w.middle
  middle : Leads (mem w.middle (index 1 fixmapAddr)) w.pte
  self : Leads (mem w.pte 0) w.pte
  apart : w.pte ∉ [ttbr1, w.upper, w.middle] ++ w.image

def Window.pages (w : Window) (ttbr1 : Nat) : List Nat := [ttbr1, w.upper, w.middle, w.pte] ++ w.image

section Fixmap

variable {ttbr1 : Nat} {w : Window} {mem mem' : Memory}

theorem mem_pages_of_upper {page : Nat} (inside : page ∈ [ttbr1, w.upper, w.middle]) : page ∈ w.pages ttbr1 := by
  simp only [List.mem_cons, List.not_mem_nil, or_false] at inside
  simp only [Window.pages, List.mem_append, List.mem_cons]
  tauto

theorem pte_mem_pages : w.pte ∈ w.pages ttbr1 := by simp [Window.pages]

theorem mem_pages_of_image {page : Nat} (inside : page ∈ ttbr1 :: w.image) : page ∈ w.pages ttbr1 := by
  simp only [List.mem_cons] at inside
  simp only [Window.pages, List.mem_append, List.mem_cons]
  tauto

theorem index_fixmapVa (n : Nat) (slot : Fin 512) :
    index (n + 1) (earlyMmuFixmapVa slot) = index (n + 1) fixmapAddr := by
  have small := slot.isLt
  unfold index
  apply congrArg
  have : levelSize (n + 1) = 2 ^ 21 * 512 ^ n := by
    rw [levelSize, show (512 : Nat) = 2 ^ 9 from rfl, ← Nat.pow_mul, ← Nat.pow_add]
    congr 1
    omega
  rw [this, ← Nat.div_div_eq_div_mul, ← Nat.div_div_eq_div_mul]
  congr 1
  unfold earlyMmuFixmapVa fixmapAddr pageSize
  omega

theorem index_zero_fixmapVa (slot : Fin 512) : index 0 (earlyMmuFixmapVa slot) = slot := by
  have small := slot.isLt
  apply Fin.ext
  show (earlyMmuFixmapVa slot) / levelSize 0 % 512 = slot
  unfold earlyMmuFixmapVa fixmapAddr pageSize levelSize
  omega

/-- A slot maps the page its descriptor is for. -/
theorem Fixmap.page (fixmap : Fixmap ttbr1 w mem) {slot : Fin 512} {page : Nat}
    (leads : Leads (mem w.pte slot) page) :
    (TablePtr.mk (earlyMmuFixmapVa slot)).page ttbr1 mem = some page := by
  have isPage : typeOf (mem w.pte slot) = pteTypePage := leads.1
  have found : walk mem ttbr1 (earlyMmuFixmapVa slot) =
      some (page * pageSize, mem w.pte slot &&& ~~~ (ptePhysMask ||| pteTypeMask)) := by
    unfold walk
    rw [lookup, index_fixmapVa 2, if_pos fixmap.top.1, fixmap.top.2, lookup, index_fixmapVa 1, if_pos fixmap.upper.1,
      fixmap.upper.2, lookup, index_fixmapVa 0, if_pos fixmap.middle.1, fixmap.middle.2, lookup, index_zero_fixmapVa,
      if_pos isPage, Option.map_some, ← leads.2]
    have aligned : earlyMmuFixmapVa slot % levelSize 0 = 0 := by
      unfold earlyMmuFixmapVa fixmapAddr pageSize levelSize
      omega
    rw [hit, aligned, Nat.add_zero]
    rfl
  rw [TablePtr.page, found, Option.map_some, Nat.mul_div_cancel _ (by decide)]

theorem Fixmap.frame (fixmap : Fixmap ttbr1 w mem)
    (same : ∀ page ∈ [ttbr1, w.upper, w.middle], mem' page = mem page) (self : mem' w.pte 0 = mem w.pte 0) :
    Fixmap ttbr1 w mem' where
  top := by rw [same ttbr1 (by simp)]; exact fixmap.top
  upper := by rw [same w.upper (by simp)]; exact fixmap.upper
  middle := by rw [same w.middle (by simp)]; exact fixmap.middle
  self := by rw [self]; exact fixmap.self
  apart := fixmap.apart

/-! ### The image -/

/-- The tables that a walk reads. -/
def walkTables (mem : Memory) : Nat → Nat → Nat → List Nat
  | 0, table, _ => [table]
  | below + 1, table, va =>
      let entry := mem table (index (below + 1) va)
      table :: if typeOf entry = pteTypeTable then walkTables mem below (pageOf entry) va else []

/-- A walk is that of its tables. -/
theorem lookup_of_walkTables (below table va : Nat) (same : ∀ page ∈ walkTables mem below table va, mem' page = mem page) :
    lookup mem' below table va = lookup mem below table va ∧
      walkTables mem' below table va = walkTables mem below table va := by
  induction below generalizing table with
  | zero =>
      have here : mem' table = mem table := same table (by simp [walkTables])
      rw [lookup, lookup, here]
      exact ⟨rfl, rfl⟩
  | succ below ih =>
      have here : mem' table = mem table := same table (by simp [walkTables])
      rw [lookup, lookup, walkTables, walkTables, here]
      rw [walkTables] at same
      by_cases isTable : typeOf (mem table (index (below + 1) va)) = pteTypeTable
      · rw [if_pos isTable] at same
        obtain ⟨found, tables⟩ := ih _ fun page inside => same page (List.mem_cons_of_mem _ inside)
        simp only [if_pos isTable, found, tables, and_self]
      · simp only [if_neg isTable, and_self]

/-- The pointer is one into the image for the page, through the tables of the window. -/
structure Image (ttbr1 : Nat) (w : Window) (mem : Memory) (ptr : TablePtr) (page : Nat) : Prop where
  maps : ptr.page ttbr1 mem = some page
  through : ∀ table ∈ walkTables mem 3 ttbr1 ptr.va, table ∈ ttbr1 :: w.image

theorem Image.frame {ptr : TablePtr} {page : Nat} (image : Image ttbr1 w mem ptr page)
    (same : ∀ table ∈ ttbr1 :: w.image, mem' table = mem table) : Image ttbr1 w mem' ptr page := by
  have kept : ∀ table ∈ walkTables mem 3 ttbr1 ptr.va, mem' table = mem table := fun table inside =>
    same table (image.through table inside)
  obtain ⟨found, tables⟩ := lookup_of_walkTables 3 ttbr1 ptr.va kept
  constructor
  · have maps := image.maps
    rwa [TablePtr.page, walk, ← found] at maps
  · rw [tables]
    exact image.through

theorem leads_ptePage (pa : UInt64) : Leads (ptePage pa mmuRegionNormal) (pageOf pa) := by
  constructor
  · simp only [typeOf, ptePage, mask_or]
    rw [phys_and _ (show ptePhysMask &&& _ = 0 by decide)]
    decide
  · simp only [pageOf, ptePage, mask_or]
    rw [UInt64.and_assoc, UInt64.and_self, show pteTypePage &&& ptePhysMask = 0 by decide,
      show mmuRegionNormal &&& ptePhysMask = 0 by decide, show pteAf &&& ptePhysMask = 0 by decide]
    simp

theorem pageOf_phys (entry : UInt64) : pageOf (entry &&& ptePhysMask) = pageOf entry := by
  rw [pageOf, UInt64.and_assoc, UInt64.and_self, pageOf]

theorem pageOf_ofNat {page : Nat} (small : page < 2 ^ 36) : pageOf (UInt64.ofNat (page * pageSize)) = page := by
  have fits : page * pageSize < 2 ^ 48 := by unfold pageSize; omega
  rw [pageOf, phys_toNat fits (Nat.dvd_mul_left _ _)]
  exact Nat.mul_div_cancel _ (by decide)

end Fixmap

/-! ## Looking where `mmu_map` goes -/

/-- `mmu_get_ntable`, stopped where it takes a page of the window for a table, or hangs a
page in itself. -/
def followNtable (astray : List Nat) (s : State) (table : Nat) (idx : Fin 512) :
    Except (Option (Bug × State)) (State × Nat) :=
  if mmuEntryPopulated (s.mem table idx) then
    if pageOf (s.mem table idx) ∈ astray then .error none else .ok (s, pageOf (s.mem table idx))
  else if s.supply.head? = some table then .error none
  else (mmuGetNtable s table idx).mapError some

def followRange (astray : List Nat) (attr : UInt64) :
    Nat → State → Nat → Nat → Nat → Nat → Except (Option (Bug × State)) State
  | 0, s, table, vstart, vend, pa => (mmuMapRange attr 0 s table vstart vend pa).mapError some
  | below + 1, s, table, vstart, vend, pa =>
      slotLoop (levelSize (below + 1)) (levelSize_succ_pos below) vend
        (fun s va chunk pa =>
          if chunk = levelSize (below + 1) ∧ pa % levelSize (below + 1) = 0 then
            let entry := pteBlock (UInt64.ofNat pa) attr
            .ok { s with mem := mmuPopulate s.mem table (index (below + 1) va) entry }
          else do
            let (s, ntable) ← followNtable astray s table (index (below + 1) va)
            followRange astray attr below s ntable va (va + chunk) pa)
        s vstart pa

def followMap (astray : List Nat) (s : State) (pgd : Nat) (c : Call) : Except (Option (Bug × State)) State :=
  if c.pstart &&& (4096 - 1) ≠ 0 then .error (some (.unalignedPa, s))
  else followRange astray c.attr 3 s pgd c.vstart.toNat c.vend.toNat c.pstart.toNat

/-- As long as it does not go astray this is `mmu_map`. -/
abbrev Follows {α : Type} (left : Except (Option (Bug × State)) α) (right : Except (Bug × State) α) : Prop :=
  Sim Eq (fun e d => e = some d) (fun e => e = none) left right

theorem follows_mapError {α : Type} (x : Except (Bug × State) α) : Follows (x.mapError some) x := by
  cases x with
  | ok a => exact ⟨a, rfl, rfl⟩
  | error e => exact .inr ⟨e, rfl, rfl⟩

theorem followNtable_follows (astray : List Nat) (s : State) (table : Nat) (idx : Fin 512) :
    Follows (followNtable astray s table idx) (mmuGetNtable s table idx) := by
  unfold followNtable
  split
  · rename_i populated
    split
    · exact .inl rfl
    · rw [mmuGetNtable, if_pos populated]
      exact ⟨_, rfl, rfl⟩
  · split
    · exact .inl rfl
    · exact follows_mapError _

theorem followRange_follows (astray : List Nat) (attr : UInt64) (below : Nat) :
    ∀ (s : State) (table vstart vend pa : Nat),
      Follows (followRange astray attr below s table vstart vend pa) (mmuMapRange attr below s table vstart vend pa) := by
  induction below with
  | zero => exact fun s table vstart vend pa => follows_mapError _
  | succ below ih =>
      intro s table vstart vend pa
      rw [followRange, mmuMapRange]
      refine Sim.slotLoop _ ?_ _ _ rfl
      rintro s _ va chunk pa rfl
      split
      · exact ⟨_, rfl, rfl⟩
      · refine (followNtable_follows astray s table _).bind ?_
        rintro ⟨s, ntable⟩ _ rfl
        exact ih s ntable va (va + chunk) pa

theorem followMap_follows (astray : List Nat) (s : State) (pgd : Nat) (c : Call) :
    Follows (followMap astray s pgd c) (mmuMap s pgd c) := by
  unfold followMap mmuMap
  split
  · exact .inr ⟨_, rfl, rfl⟩
  · exact followRange_follows astray c.attr 3 s pgd _ _ _

/-! ## Side by side -/

/-- The same tables, outside of the window. -/
structure Same (ttbr1 : Nat) (w : Window) (s e : State) : Prop where
  fixmap : Fixmap ttbr1 w e.mem
  mem : ∀ page ∉ w.pages ttbr1, e.mem page = s.mem page
  supply : e.supply = s.supply
  tables : e.tables = s.tables
  own : ∀ page ∈ s.tables, page ∉ w.pages ttbr1
  fresh : ∀ page ∈ s.supply, page ∉ w.pages ttbr1 ∧ page < 2 ^ 36

/-- The pointer is the slot of a level that maps the table, or one into the image for it. -/
def Selects (ttbr1 : Nat) (w : Window) (mem : Memory) (level : Fin 512) (table : Nat) (ptr : TablePtr) : Prop :=
  (ptr = ⟨earlyMmuFixmapVa level⟩ ∧ Leads (mem w.pte level) table) ∨ Image ttbr1 w mem ptr table

/-- Slots up to a level and the tables of the image map what they mapped. -/
structure Kept (ttbr1 : Nat) (w : Window) (level : Fin 512) (e e' : State) : Prop where
  slots : ∀ slot ≤ level, e'.mem w.pte slot = e.mem w.pte slot
  image : ∀ table ∈ ttbr1 :: w.image, e'.mem table = e.mem table

/-- The early builder ends in the same `MMU_BUGON`. -/
def SameStop (ttbr1 : Nat) (w : Window) (stop : Option (Bug × State)) (early : EarlyStop × State) : Prop :=
  ∃ bug s, stop = some (bug, s) ∧ early.1 = .bug bug ∧ Same ttbr1 w s early.2

/-- Where `mmu_map` goes astray, or has no page. -/
def Lost (stop : Option (Bug × State)) : Prop := stop = none ∨ ∃ s, stop = some (.noMemory, s)

section SideBySide

variable {ttbr1 : Nat} {w : Window} {s e : State} {ptr : TablePtr} {table : Nat} {lvl : Fin 512}

theorem Selects.page (selects : Selects ttbr1 w e.mem lvl table ptr) (fixmap : Fixmap ttbr1 w e.mem) :
    ptr.page ttbr1 e.mem = some table := by
  rcases selects with ⟨rfl, leads⟩ | image
  · exact fixmap.page leads
  · exact image.maps

theorem Selects.kept {e' : State} (selects : Selects ttbr1 w e.mem lvl table ptr) (kept : Kept ttbr1 w lvl e e') :
    Selects ttbr1 w e'.mem lvl table ptr := by
  rcases selects with ⟨same, leads⟩ | image
  · exact .inl ⟨same, by rw [kept.slots lvl (Nat.le_refl _)]; exact leads⟩
  · exact .inr (image.frame kept.image)

theorem Kept.refl (ttbr1 : Nat) (w : Window) (lvl : Fin 512) (e : State) : Kept ttbr1 w lvl e e :=
  ⟨fun _ _ => rfl, fun _ _ => rfl⟩

theorem Kept.trans {e₁ e₂ : State} (first : Kept ttbr1 w lvl e e₁) (second : Kept ttbr1 w lvl e₁ e₂) :
    Kept ttbr1 w lvl e e₂ :=
  ⟨fun slot le => (second.slots slot le).trans (first.slots slot le),
    fun table inside => (second.image table inside).trans (first.image table inside)⟩

theorem Kept.mono {e' : State} {lvl' : Fin 512} (kept : Kept ttbr1 w lvl e e') (le : lvl' ≤ lvl) :
    Kept ttbr1 w lvl' e e' :=
  ⟨fun slot below => kept.slots slot (Nat.le_trans below le), kept.image⟩

/-- What a write to another page keeps. -/
theorem kept_write {mem : Memory} {page : Nat} (outside : page ∉ w.pages ttbr1) (words : Fin 512 → UInt64)
    (same : mem = Function.update e.mem page words) : Kept ttbr1 w lvl e { e with mem := mem } := by
  subst same
  have others : ∀ table ∈ w.pages ttbr1, Function.update e.mem page words table = e.mem table := fun table inside =>
    Function.update_of_ne (ne_of_mem_of_not_mem inside outside) _ _
  exact ⟨fun slot _ => congrFun (others w.pte pte_mem_pages) slot, fun table inside =>
    others table (mem_pages_of_image inside)⟩

theorem deref_eq (selects : Selects ttbr1 w e.mem lvl table ptr) (fixmap : Fixmap ttbr1 w e.mem) :
    deref ttbr1 e ptr = .ok table := by
  rw [deref, selects.page fixmap]

/-- A write to a table is the same write on both sides. -/
theorem Same.write (same : Same ttbr1 w s e) (outside : table ∉ w.pages ttbr1) (idx : Fin 512) (val : UInt64) :
    Same ttbr1 w { s with mem := mmuPopulate s.mem table idx val } { e with mem := mmuPopulate e.mem table idx val } := by
  have others : ∀ page ∈ w.pages ttbr1, mmuPopulate e.mem table idx val page = e.mem page := fun page inside =>
    Function.update_of_ne (ne_of_mem_of_not_mem inside outside) _ _
  refine ⟨same.fixmap.frame (fun page inside => others page (mem_pages_of_upper inside)) ?_, fun page apart => ?_,
    same.supply, same.tables, same.own, same.fresh⟩
  · exact congrFun (others w.pte pte_mem_pages) 0
  · show mmuPopulate e.mem table idx val page = mmuPopulate s.mem table idx val page
    unfold mmuPopulate
    by_cases here : page = table
    · subst here
      rw [Function.update_self, Function.update_self, same.mem page apart]
    · rw [Function.update_of_ne here, Function.update_of_ne here, same.mem page apart]

theorem earlyMmuPopulate_eq (same : Same ttbr1 w s e) (selects : Selects ttbr1 w e.mem lvl table ptr) (idx : Fin 512)
    (val : UInt64) :
    earlyMmuPopulate ttbr1 e ptr idx val = .ok { e with mem := mmuPopulate e.mem table idx val } := by
  rw [earlyMmuPopulate, deref_eq selects same.fixmap]
  rfl

/-- **`early_mmu_fixmap_set`** selects a table, and touches no other slot. -/
theorem earlyMmuFixmapSet_spec (same : Same ttbr1 w s e) (pa : UInt64) {lvl : Fin 512} (positive : 0 < lvl) :
    ∃ e', earlyMmuFixmapSet ttbr1 e pa lvl = .ok (e', ⟨earlyMmuFixmapVa lvl⟩) ∧ Same ttbr1 w s e' ∧
      Selects ttbr1 w e'.mem lvl (pageOf pa) ⟨earlyMmuFixmapVa lvl⟩ ∧
      (∀ above, above < lvl → Kept ttbr1 w above e e') := by
  have slots : Selects ttbr1 w e.mem 0 w.pte ⟨fixmapAddr⟩ := .inl ⟨rfl, same.fixmap.self⟩
  have others : ∀ page, page ≠ w.pte → mmuPopulate e.mem w.pte lvl (ptePage pa mmuRegionNormal) page = e.mem page :=
    fun page ne => Function.update_of_ne ne _ _
  have slot : ∀ k, mmuPopulate e.mem w.pte lvl (ptePage pa mmuRegionNormal) w.pte k =
      Function.update (e.mem w.pte) lvl (ptePage pa mmuRegionNormal) k := fun k =>
    congrFun (Function.update_self _ _ _) k
  refine ⟨{ e with mem := mmuPopulate e.mem w.pte lvl (ptePage pa mmuRegionNormal) }, ?_, ?_, ?_, ?_⟩
  · rw [earlyMmuFixmapSet, earlyMmuPopulate_eq same slots]
    rfl
  · refine ⟨same.fixmap.frame (fun page inside => others page ?_) ?_, fun page apart => ?_, same.supply, same.tables,
      same.own, same.fresh⟩
    · rintro rfl
      exact same.fixmap.apart (List.mem_append_left _ inside)
    · show mmuPopulate _ _ _ _ _ _ = _
      rw [slot, Function.update_of_ne (Fin.ne_of_lt positive)]
    · show mmuPopulate _ _ _ _ _ = _
      rw [others page (by rintro rfl; exact apart pte_mem_pages), same.mem page apart]
  · refine .inl ⟨rfl, ?_⟩
    show Leads (mmuPopulate _ _ _ _ _ _) _
    rw [slot, Function.update_self]
    exact leads_ptePage pa
  · refine fun above less => ⟨fun k le => ?_, fun table inside => others table ?_⟩
    · show mmuPopulate _ _ _ _ _ _ = _
      rw [slot, Function.update_of_ne (Fin.ne_of_lt (Nat.lt_of_le_of_lt le less))]
    · rintro rfl
      refine same.fixmap.apart ?_
      rcases List.mem_cons.1 inside with here | inside
      · simp [here]
      · exact List.mem_append_right _ inside

/-- **The lower table**, selected in the slot of its level. -/
theorem earlyMmuGetNtable_sim (same : Same ttbr1 w s e) (selects : Selects ttbr1 w e.mem lvl table ptr)
    (outside : table ∉ w.pages ttbr1) (idx : Fin 512) {next : Fin 512} (deeper : lvl < next) :
    Sim (fun (r : State × Nat) (r' : State × TablePtr) => Same ttbr1 w r.1 r'.1 ∧ Selects ttbr1 w r'.1.mem next r.2 r'.2 ∧
        r.2 ∉ w.pages ttbr1 ∧ Kept ttbr1 w lvl e r'.1)
      (SameStop ttbr1 w) Lost (followNtable (w.pages ttbr1) s table idx) (earlyMmuGetNtable ttbr1 e ptr idx next) := by
  have positive : 0 < next := Nat.lt_of_le_of_lt (Nat.zero_le _) deeper
  have entry : e.mem table idx = s.mem table idx := congrFun (same.mem table outside) idx
  unfold followNtable earlyMmuGetNtable
  rw [deref_eq selects same.fixmap, ok_bind, entry]
  by_cases populated : mmuEntryPopulated (s.mem table idx) = true
  · rw [if_pos populated, if_pos populated]
    split
    · exact .inl (.inl rfl)
    · rename_i inside
      obtain ⟨e', run, same', selects', kept⟩ := earlyMmuFixmapSet_spec same (s.mem table idx &&& ptePhysMask) positive
      rw [pageOf_phys] at selects'
      exact ⟨_, run, same', selects', inside, kept lvl deeper⟩
  · rw [if_neg populated, if_neg populated]
    cases supply : s.supply with
    | nil =>
        rw [if_neg (by simp), mmuGetNtable, if_neg populated, supply]
        exact .inl (.inr ⟨s, rfl⟩)
    | cons page rest =>
        split
        · exact .inl (.inl rfl)
        · rename_i itself
          have ne : page ≠ table := fun eq => itself (by rw [List.head?_cons, eq])
          obtain ⟨apart, small⟩ := same.fresh page (by simp [supply])
          -- the page is taken, hung in the table, selected and cleared
          have taken : Same ttbr1 w { s with supply := rest, tables := page :: s.tables }
              { e with supply := rest, tables := page :: e.tables } :=
            ⟨same.fixmap, same.mem, rfl, by rw [same.tables], by simpa using ⟨apart, same.own⟩,
              fun p inside => same.fresh p (by simp [supply, inside])⟩
          have hung := taken.write outside idx (pteTable (UInt64.ofNat (page * pageSize)))
          obtain ⟨e', run, same', selects', kept⟩ :=
            earlyMmuFixmapSet_spec hung (UInt64.ofNat (page * pageSize)) positive
          rw [pageOf_ofNat small] at selects'
          have alloc : earlyMmuAllocPage e =
              ({ e with supply := rest, tables := page :: e.tables }, UInt64.ofNat (page * pageSize)) := by
            rw [earlyMmuAllocPage, same.supply, supply]
          have cleared (above : Fin 512) :
              Kept ttbr1 w above e' { e' with mem := Function.update e'.mem page fun _ => 0 } :=
            kept_write apart _ rfl
          have clear := selects'.kept (cleared next)
          have left : mmuGetNtable s table idx = .ok (⟨mmuPopulate (Function.update s.mem page fun _ => 0) table idx
              (pteTable (UInt64.ofNat (page * pageSize))), rest, page :: s.tables⟩, page) := by
            rw [mmuGetNtable, if_neg populated, supply]
          have stored := earlyMmuPopulate_eq taken selects idx (pteTable (UInt64.ofNat (page * pageSize)))
          rw [left, alloc]
          dsimp only
          rw [stored, ok_bind, run, ok_bind]
          dsimp only
          rw [deref_eq selects' same'.fixmap, ok_bind]
          refine ⟨_, rfl, ⟨?_, fun p inside => ?_, same'.supply, same'.tables, same'.own,
            same'.fresh⟩, clear, apart, ?_⟩
          · refine same'.fixmap.frame (fun p inside => Function.update_of_ne (fun eq => apart ?_) _ _) ?_
            · rw [← eq]
              exact mem_pages_of_upper inside
            · exact (cleared 0).slots 0 (Fin.le_refl 0)
          · show Function.update e'.mem page (fun _ => 0) p = mmuPopulate (Function.update s.mem page fun _ => 0) table idx _ p
            by_cases here : p = page
            · subst here
              rw [mmuPopulate, Function.update_self, Function.update_of_ne ne, Function.update_self]
            · rw [Function.update_of_ne here, same'.mem p inside]
              show mmuPopulate s.mem table idx _ p = _
              unfold mmuPopulate
              rw [Function.update_of_ne ne.symm]
              by_cases atTable : p = table
              · rw [atTable, Function.update_self, Function.update_self]
              · rw [Function.update_of_ne atTable, Function.update_of_ne atTable, Function.update_of_ne here]
          · have written : Kept ttbr1 w lvl e { e with mem := mmuPopulate e.mem table idx _ } :=
              kept_write outside (Function.update (e.mem table) idx (pteTable (UInt64.ofNat (page * pageSize)))) rfl
            have selected := kept lvl deeper
            exact ⟨fun slot le => ((cleared lvl).slots slot le).trans
                ((selected.slots slot le).trans (written.slots slot le)),
              fun p inside => ((cleared lvl).image p inside).trans
                ((selected.image p inside).trans (written.image p inside))⟩

theorem level_lt {below : Nat} (le : below + 1 ≤ 3) : level (below + 1) < level below := by
  show (3 - (below + 1)) % 512 < (3 - below) % 512
  omega

theorem mmuMapRange_zero_sim (attr : UInt64) (vstart vend pa : Nat) (same : Same ttbr1 w s e)
    (selects : Selects ttbr1 w e.mem lvl table ptr) (outside : table ∉ w.pages ttbr1) :
    Sim (fun s' e' => Same ttbr1 w s' e' ∧ Kept ttbr1 w lvl e e') (fun stop => SameStop ttbr1 w (some stop))
      (fun _ => False) (mmuMapRange attr 0 s table vstart vend pa) (earlyMmuMapRange ttbr1 attr 0 e ptr vstart vend pa) := by
  rw [mmuMapRange, earlyMmuMapRange]
  refine Sim.slotLoop _ ?_ _ _ ⟨same, Kept.refl ..⟩
  rintro s₁ e₁ va chunk pa ⟨same₁, kept₁⟩
  have selects₁ := selects.kept kept₁
  split
  · exact .inr ⟨_, rfl, _, _, rfl, rfl, same₁⟩
  · exact ⟨_, earlyMmuPopulate_eq same₁ selects₁ _ _, same₁.write outside _ _,
      kept₁.trans (kept_write outside _ rfl)⟩

/-- **A range of one table on both sides.**  When it is done the slots up to the table's level
map what they mapped before. -/
theorem earlyMmuMapRange_sim (attr : UInt64) : ∀ {below : Nat} {s e : State} {table : Nat} {ptr : TablePtr}
    (vstart vend pa : Nat), below ≤ 3 → Same ttbr1 w s e → Selects ttbr1 w e.mem (level below) table ptr →
    table ∉ w.pages ttbr1 →
    Sim (fun s' e' => Same ttbr1 w s' e' ∧ Kept ttbr1 w (level below) e e') (SameStop ttbr1 w) Lost
      (followRange (w.pages ttbr1) attr below s table vstart vend pa)
      (earlyMmuMapRange ttbr1 attr below e ptr vstart vend pa)
  | 0, s, e, table, ptr, vstart, vend, pa, _, same, selects, outside => by
      exact (mmuMapRange_zero_sim attr vstart vend pa same selects outside).mapError some (fun _ _ stops => stops)
        fun _ => False.elim
  | below + 1, s, e, table, ptr, vstart, vend, pa, le, same, selects, outside => by
      rw [followRange, earlyMmuMapRange]
      refine Sim.slotLoop _ ?_ _ _ ⟨same, Kept.refl ..⟩
      rintro s₁ e₁ va chunk pa ⟨same₁, kept₁⟩
      have selects₁ := selects.kept kept₁
      split
      · exact ⟨_, earlyMmuPopulate_eq same₁ selects₁ _ _, same₁.write outside _ _,
          kept₁.trans (kept_write outside _ rfl)⟩
      · refine (earlyMmuGetNtable_sim same₁ selects₁ outside _ (level_lt le)).bind ?_
        rintro ⟨s₂, ntable⟩ ⟨e₂, nptr⟩ ⟨same₂, selects₂, outside₂, kept₂⟩
        refine (earlyMmuMapRange_sim attr va (va + chunk) pa (by omega) same₂ selects₂ outside₂).mono ?_
        rintro s₃ e₃ ⟨same₃, kept₃⟩
        exact ⟨same₃, kept₁.trans (kept₂.trans (kept₃.mono (Nat.le_of_lt (level_lt le))))⟩

theorem earlyMmuMap_sim {pgd : Nat} (same : Same ttbr1 w s e) (image : Image ttbr1 w e.mem ptr pgd)
    (outside : pgd ∉ w.pages ttbr1) (c : Call) :
    Sim (fun s' e' => Same ttbr1 w s' e' ∧ Image ttbr1 w e'.mem ptr pgd) (SameStop ttbr1 w) Lost
      (followMap (w.pages ttbr1) s pgd c) (earlyMmuMap ttbr1 e ptr c) := by
  unfold followMap earlyMmuMap
  split
  · exact .inr ⟨_, rfl, _, _, rfl, rfl, same⟩
  · exact (earlyMmuMapRange_sim c.attr _ _ _ le_rfl same (.inr image) outside).mono fun _ _ related =>
      ⟨related.1, image.frame related.2.image⟩

end SideBySide

/-! ## Sequences of requests -/

def mmuMaps (s : State) (pgd : Nat) (calls : List Call) : Except (Bug × State) State :=
  calls.foldlM (fun s c => mmuMap s pgd c) s

def followMaps (astray : List Nat) (s : State) (pgd : Nat) (calls : List Call) : Except (Option (Bug × State)) State :=
  calls.foldlM (fun s c => followMap astray s pgd c) s

def earlyMmuMaps (ttbr1 : Nat) (s : State) (table : TablePtr) (calls : List Call) : Except (EarlyStop × State) State :=
  calls.foldlM (fun s c => earlyMmuMap ttbr1 s table c) s

theorem followMaps_follows (astray : List Nat) (s : State) (pgd : Nat) (calls : List Call) :
    Follows (followMaps astray s pgd calls) (mmuMaps s pgd calls) := by
  refine Sim.foldlM ?_ calls rfl
  rintro s _ c rfl
  exact followMap_follows astray s pgd c

theorem earlyMmuMaps_sim {ttbr1 : Nat} {w : Window} {s e : State} {pgd : Nat} {table : TablePtr}
    (same : Same ttbr1 w s e) (image : Image ttbr1 w e.mem table pgd) (outside : pgd ∉ w.pages ttbr1) (calls : List Call) :
    Sim (fun s' e' => Same ttbr1 w s' e' ∧ Image ttbr1 w e'.mem table pgd) (SameStop ttbr1 w) Lost
      (followMaps (w.pages ttbr1) s pgd calls) (earlyMmuMaps ttbr1 e table calls) :=
  Sim.foldlM (fun _ _ c related => earlyMmuMap_sim related.1 related.2 outside c) calls ⟨same, image⟩

/-- The state in which a computation ends. -/
def finalState {ε : Type} : Except (ε × State) State → State
  | .ok s => s
  | .error (_, s) => s

/-- `kzalloc_pages` has a page whenever it is asked. -/
def Supplied (result : Except (Bug × State) State) : Prop := Ends (fun _ => True) (fun stop => stop.1 ≠ .noMemory) result

/-- No walk goes astray. -/
def Stays (result : Except (Option (Bug × State)) State) : Prop := Ends (fun _ => True) (fun stop => stop.isSome) result

instance (result : Except (Bug × State) State) : Decidable (Supplied result) := inferInstanceAs (Decidable (Ends _ _ _))

instance (result : Except (Option (Bug × State)) State) : Decidable (Stays result) :=
  inferInstanceAs (Decidable (Ends _ _ _))

/-- **The builders agree.**  With the same pages handed out, and as long as no walk goes astray, they
leave the same contents in every table, and in every other page that is not in the window;
and a pointer to a table is one after each range that is filled through it, with all the
levels below. -/
theorem builders_agree {ttbr1 : Nat} {w : Window} {s e : State} {pgd : Nat} {root : TablePtr} {calls : List Call}
    (same : Same ttbr1 w s e) (image : Image ttbr1 w e.mem root pgd) (outside : pgd ∉ w.pages ttbr1)
    (supplied : Supplied (mmuMaps s pgd calls)) (stays : Stays (followMaps (w.pages ttbr1) s pgd calls)) :
    (let final := finalState (mmuMaps s pgd calls)
      let early := finalState (earlyMmuMaps ttbr1 e root calls)
      (∀ page ∉ w.pages ttbr1, early.mem page = final.mem page) ∧ early.tables = final.tables ∧
        ∀ page ∈ final.tables, page ∉ w.pages ttbr1) ∧
    ∀ {s₁ e₁ s₂ : State} {below : Nat} {table : Nat} {ptr : TablePtr} (attr : UInt64) (vstart vend pa : Nat), below ≤ 3 →
      Same ttbr1 w s₁ e₁ → Selects ttbr1 w e₁.mem (level below) table ptr → table ∉ w.pages ttbr1 →
      followRange (w.pages ttbr1) attr below s₁ table vstart vend pa = .ok s₂ →
      ∃ e₂, earlyMmuMapRange ttbr1 attr below e₁ ptr vstart vend pa = .ok e₂ ∧ ptr.page ttbr1 e₂.mem = some table := by
  constructor
  · have follows := followMaps_follows (w.pages ttbr1) s pgd calls
    have sim := earlyMmuMaps_sim same image outside calls
    cases result : followMaps (w.pages ttbr1) s pgd calls with
    | ok final =>
        rw [result] at follows sim
        obtain ⟨_, run, rfl⟩ := follows
        obtain ⟨early, run', same', -⟩ := sim
        rw [run, run']
        exact ⟨same'.mem, same'.tables, same'.own⟩
    | error stop =>
        rw [result] at follows sim stays
        obtain rfl | ⟨⟨bug, final⟩, run, rfl⟩ := follows
        · cases stays
        rw [run] at supplied ⊢
        obtain (nowhere | ⟨_, full⟩) | ⟨⟨_, early⟩, run', bug', _, stop, rfl, same'⟩ := sim
        · cases nowhere
        · cases full
          exact absurd rfl supplied
        · cases stop
          rw [run']
          exact ⟨same'.mem, same'.tables, same'.own⟩
  · intro s₁ e₁ s₂ below table ptr attr vstart vend pa le same₁ selects outside₁ run
    have sim := earlyMmuMapRange_sim attr vstart vend pa le same₁ selects outside₁
    rw [run] at sim
    obtain ⟨e₂, run', same₂, kept⟩ := sim
    exact ⟨e₂, run', (selects.kept kept).page same₂.fixmap⟩

/-! ### One sequence that stays, and one that goes astray -/

def bootWindow : Window := ⟨0x81, 0x82, 0x83, [0x84, 0x85, 0x86]⟩

/-- `__init_pgd`, in an image that is loaded at `TEXT_OFFSET`. -/
def initPgd : TablePtr := ⟨0xFFFFC00000100000⟩

/-- The tables of `early_mmu_init` for the fixmap and for the page of `__init_pgd`, and zeroes. -/
def bootMemory (page : Nat) (idx : Fin 512) : UInt64 :=
  if page = 0x80 ∧ idx = 511 then pteTable 0x81000
  else if page = 0x81 ∧ idx = 511 then pteTable 0x82000
  else if page = 0x82 ∧ idx = 0 then pteTable 0x83000
  else if page = 0x83 ∧ idx = 0 then ptePage 0x83000 mmuRegionNormal
  else if page = 0x80 ∧ idx = 384 then pteTable 0x84000
  else if page = 0x84 ∧ idx = 0 then pteTable 0x85000
  else if page = 0x85 ∧ idx = 0 then pteTable 0x86000
  else if page = 0x86 ∧ idx = 0x100 then ptePage 0x100000 mmuRegionNormal
  else 0

def bootTables (supply : List Nat) : State := ⟨bootMemory, supply, [0x100]⟩

theorem bootMemory_fixmap : Fixmap 0x80 bootWindow bootMemory :=
  ⟨by decide, by decide, by decide, by decide, by decide⟩

theorem bootMemory_image : Image 0x80 bootWindow bootMemory initPgd 0x100 :=
  ⟨by decide +kernel, by decide +kernel⟩

theorem bootTables_same {supply : List Nat}
    (fresh : ∀ page ∈ supply, page ∉ bootWindow.pages 0x80 ∧ page < 2 ^ 36) :
    Same 0x80 bootWindow (bootTables supply) (bootTables supply) where
  fixmap := bootMemory_fixmap
  mem _ _ := rfl
  supply := rfl
  tables := rfl
  own := by simp only [bootTables, List.mem_singleton, forall_eq]; decide
  fresh := fresh

/-- 2 MiB and a page of RAM, and the device page behind them. -/
theorem builders_agree_ram :
    let calls : List Call := [⟨0xFFFF000000200000, 0x200000, 0x201000, mmuRegionNormal⟩,
      ⟨0xFFFF000000401000, 0x401000, 0x1000, mmuRegionDevice⟩]
    let final := finalState (mmuMaps (bootTables [0x101, 0x102, 0x103]) 0x100 calls)
    let early := finalState (earlyMmuMaps 0x80 (bootTables [0x101, 0x102, 0x103]) initPgd calls)
    (∀ page ∉ bootWindow.pages 0x80, early.mem page = final.mem page) ∧
      final.tables = [0x103, 0x102, 0x101, 0x100] ∧
      typeOf (early.mem 0x102 1) = pteTypeBlock ∧ pageOf (early.mem 0x103 1) = 0x401 := by
  intro calls final early
  have same : Same 0x80 bootWindow (bootTables [0x101, 0x102, 0x103]) (bootTables [0x101, 0x102, 0x103]) :=
    bootTables_same (by decide)
  have agree := (builders_agree same bootMemory_image (by decide) (by decide +kernel : Supplied (mmuMaps _ 0x100 calls))
    (by decide +kernel)).1
  exact ⟨agree.1, by decide +kernel, by decide +kernel, by decide +kernel⟩

/-- 1 GiB of RAM as a block, and then one of its addresses as a page elsewhere, with the first page
of the block handed out for a table: the block is taken for a table, and the page hung in itself. -/
theorem builders_disagree_in_block :
    let calls : List Call := [⟨0xFFFF000040000000, 0x40000000, 0x40000000, mmuRegionNormal⟩,
      ⟨0xFFFF000040202000, 0x5000, 0x1000, mmuRegionNormal⟩]
    let final := finalState (mmuMaps (bootTables [0x101, 0x40000]) 0x100 calls)
    let early := finalState (earlyMmuMaps 0x80 (bootTables [0x101, 0x40000]) initPgd calls)
    Same 0x80 bootWindow (bootTables [0x101, 0x40000]) (bootTables [0x101, 0x40000]) ∧
      Image 0x80 bootWindow bootMemory initPgd 0x100 ∧
      Supplied (mmuMaps (bootTables [0x101, 0x40000]) 0x100 calls) ∧ 0x40000 ∈ final.tables ∧
      typeOf (final.mem 0x40000 1) = pteTypeTable ∧ typeOf (early.mem 0x40000 1) = pteTypeInvalid :=
  ⟨bootTables_same (by decide), bootMemory_image, by decide +kernel, by decide +kernel, by decide +kernel,
    by decide +kernel⟩

end Minus.Core.Mmu
