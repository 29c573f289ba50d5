/-
# Core.MmuPage — mapping one page

The user page tables are filled one page at a time, and there the whole of
`mmu_map` is simple: no block is ever written, so no call meets one (`Flat`), and
a call may replace any page it likes.  `Rooted` is the invariant of such a table;
`mmuMap_page` is the specification of the call, for every address.

`Consumes` counts what a call takes from `kzalloc_pages`: the pages it took are
the ones that became tables, and nothing else is taken.
-/
import Minus.Core.MmuMap

namespace Minus.Core.Mmu

set_option autoImplicit false

open Minus.Theory

/-! ## What a call takes from the allocator -/

/-- From `s` to `s'` some pages went from the supply to the tables. -/
def Consumes (s s' : State) : Prop :=
  ∃ used, s.supply = used ++ s'.supply ∧ s'.tables = used.reverse ++ s.tables

theorem Consumes.refl (s : State) : Consumes s s := ⟨[], rfl, rfl⟩

theorem Consumes.trans {s s₁ s₂ : State} (first : Consumes s s₁) (second : Consumes s₁ s₂) :
    Consumes s s₂ := by
  obtain ⟨used, supply, tables⟩ := first
  obtain ⟨used', supply', tables'⟩ := second
  refine ⟨used ++ used', ?_, ?_⟩
  · rw [supply, supply', List.append_assoc]
  · rw [tables', tables, List.reverse_append, List.append_assoc]

theorem mmuGetNtable_consumes (s : State) (table : Nat) (idx : Fin 512) :
    Ends (fun r => Consumes s r.1) (fun e => Consumes s e.2) (mmuGetNtable s table idx) := by
  unfold mmuGetNtable
  split
  · exact Consumes.refl s
  · cases handed : s.supply with
    | nil => exact Consumes.refl s
    | cons page rest => exact ⟨[page], handed, rfl⟩

/-- A loop over no slots. -/
theorem slotLoop_done {σ ε : Type} {size stop : Nat} (positive : 0 < size)
    (body : σ → Nat → Nat → Nat → Except ε σ) (s : σ) {a : Nat} (b : Nat) (done : stop ≤ a) :
    slotLoop size positive stop body s a b = .ok s := by
  rw [slotLoop, dif_neg (Nat.not_lt.2 done)]

theorem slotLoop_consumes {size hi : Nat} (positive : 0 < size)
    {body : State → Nat → Nat → Nat → Except (Bug × State) State}
    (step : ∀ s a c b, Ends (Consumes s) (fun e => Consumes s e.2) (body s a c b)) (s : State)
    (lo pa : Nat) :
    Ends (Consumes s) (fun e => Consumes s e.2) (slotLoop size positive hi body s lo pa) := by
  cases Nat.le_total hi lo with
  | inl done =>
      rw [slotLoop_done positive body s pa done]
      exact Consumes.refl s
  | inr ordered =>
      have walk := slotLoop_ends lo hi pa positive body (R := fun _ s' => Consumes s s')
        (E := fun e => Consumes s e.2) ?_ s lo (Nat.le_refl lo) ordered (.inl rfl)
        (Consumes.refl s)
      · rwa [Nat.sub_self, Nat.add_zero] at walk
      · intro s₁ a _ _ _ taken
        exact (step s₁ a _ _).mono (fun _ more => taken.trans more) fun _ more => taken.trans more

theorem mmuMapRange_consumes (attr : UInt64) :
    ∀ (n : Nat) (s : State) (table lo hi pa : Nat),
      Ends (Consumes s) (fun e => Consumes s e.2) (mmuMapRange attr n s table lo hi pa)
  | 0, s, table, lo, hi, pa => by
      rw [mmuMapRange]
      apply slotLoop_consumes
      intro s a c b
      dsimp only
      split
      · exact Consumes.refl s
      · exact Consumes.refl s
  | n + 1, s, table, lo, hi, pa => by
      rw [mmuMapRange]
      apply slotLoop_consumes
      intro s a c b
      dsimp only
      split
      · exact Consumes.refl s
      · apply Ends.bind (mmuGetNtable_consumes s table _)
        rintro ⟨s₁, ntable⟩ taken
        exact (mmuMapRange_consumes attr n s₁ ntable a (a + c) b).mono
          (fun _ more => taken.trans more) fun _ more => taken.trans more

theorem mmuMap_consumes (s : State) (pgd : Nat) (c : Call) :
    Ends (Consumes s) (fun e => Consumes s e.2) (mmuMap s pgd c) := by
  unfold mmuMap
  split
  · exact Consumes.refl s
  · exact mmuMapRange_consumes c.attr 3 s pgd _ _ _

/-! ## One page -/

theorem chunk_page {size lo : Nat} (aligned : pageSize ∣ lo) (whole : pageSize ∣ size)
    (positive : 0 < size) : chunk size lo (lo + pageSize) = pageSize := by
  have inner : pageSize ∣ size - lo % size := Nat.dvd_sub whole ((Nat.dvd_mod_iff whole).2 aligned)
  have room : 0 < size - lo % size := Nat.sub_pos_of_lt (Nat.mod_lt lo positive)
  have := Nat.le_of_dvd room inner
  unfold chunk
  omega

theorem pageSize_ne_levelSize (n : Nat) : pageSize ≠ levelSize (n + 1) := by
  have := levelSize_pos n
  have := Nat.le_of_dvd this (pageSize_dvd n)
  rw [levelSize_succ]
  unfold pageSize at *
  omega

/-- The loop over one page goes down once. -/
theorem mmuMapRange_page (attr : UInt64) (n : Nat) (s : State) (table pa : Nat) {lo : Nat}
    (aligned : pageSize ∣ lo) :
    mmuMapRange attr (n + 1) s table lo (lo + pageSize) pa = (do
      let (s, ntable) ← mmuGetNtable s table (index (n + 1) lo)
      mmuMapRange attr n s ntable lo (lo + pageSize) pa) := by
  have one : chunk (levelSize (n + 1)) lo (lo + pageSize) = pageSize :=
    chunk_page aligned (pageSize_dvd (n + 1)) (levelSize_pos (n + 1))
  have cut : ¬ (pageSize = levelSize (n + 1) ∧ pa % levelSize (n + 1) = 0) :=
    fun block => pageSize_ne_levelSize n block.1
  have start : lo < lo + pageSize := Nat.lt_add_of_pos_right (by decide)
  rw [mmuMapRange, slotLoop, dif_pos start]
  simp only [one, if_neg cut, slotLoop_done _ _ _ _ (Nat.le_refl (lo + pageSize))]
  cases mmuGetNtable s table (index (n + 1) lo) with
  | error e => rfl
  | ok r =>
      show (mmuMapRange attr n r.1 r.2 lo (lo + pageSize) pa >>= fun s => .ok s) =
        mmuMapRange attr n r.1 r.2 lo (lo + pageSize) pa
      cases mmuMapRange attr n r.1 r.2 lo (lo + pageSize) pa with
      | error e => rfl
      | ok s' => rfl

/-- Out of pages: the condition under which a one-page call does not return. -/
def NoPageLeft (e : Bug × State) : Prop := e.1 = .noMemory ∧ e.2.supply = []

/-- **The loop over one page stops for want of a table only.** -/
theorem mmuMapRange_page_stops (attr : UInt64) :
    ∀ (n : Nat) (s : State) (table pa : Nat) {lo : Nat}, pageSize ∣ lo →
      Ends (fun _ => True) NoPageLeft (mmuMapRange attr n s table lo (lo + pageSize) pa)
  | 0, s, table, pa, lo, aligned => by
      have one : chunk (levelSize 0) lo (lo + pageSize) = pageSize :=
        chunk_page aligned (pageSize_dvd 0) (levelSize_pos 0)
      have level : pageSize = levelSize 0 := by decide
      have start : lo < lo + pageSize := Nat.lt_add_of_pos_right (by decide)
      rw [mmuMapRange, slotLoop, dif_pos start]
      dsimp only
      rw [one, if_neg (not_not_intro level)]
      apply Ends.bind (P := fun _ => True)
      · trivial
      · intro s' _
        rw [slotLoop_done _ _ _ _ (Nat.le_refl (lo + pageSize))]
        trivial
  | n + 1, s, table, pa, lo, aligned => by
      rw [mmuMapRange_page attr n s table pa aligned]
      have ntable : Ends (fun _ => True) NoPageLeft (mmuGetNtable s table (index (n + 1) lo)) := by
        unfold mmuGetNtable
        split
        · trivial
        · cases handed : s.supply with
          | nil => exact ⟨rfl, handed⟩
          | cons page rest => trivial
      exact Ends.bind ntable fun r _ => mmuMapRange_page_stops attr n r.1 r.2 pa aligned

section Page

variable {attr : UInt64} {table lo pa : Nat} {own : Owner} {s : State} {π : Path}

/-- A page descriptor is what the walk of a mapped page ends at. -/
theorem mmuMapRange_page_below (plain : IsAttr attr) :
    ∀ (n : Nat) {table : Nat} {own : Owner} {s : State} {π : Path},
      Ready n own s table π lo (lo + pageSize) pa →
      Ends (fun s' => ∀ v, lo ≤ v → v < lo + pageSize → ∀ h,
          lookup s'.mem n table v = some h → h.below = 0)
        (fun _ => True) (mmuMapRange attr n s table lo (lo + pageSize) pa)
  | 0, table, own, s, π, _ => by
      cases mmuMapRange attr 0 s table lo (lo + pageSize) pa with
      | error e => trivial
      | ok s' =>
          intro v _ _ h found
          rw [lookup] at found
          split at found
          · cases found
            rfl
          · cases found
  | n + 1, table, own, s, π, ready => by
      have nonempty : lo < lo + pageSize := Nat.lt_add_of_pos_right (by decide)
      have cut : ¬ (lo + pageSize - lo = levelSize (n + 1) ∧ pa % levelSize (n + 1) = 0) := by
        rw [Nat.add_sub_cancel_left]
        exact fun block => pageSize_ne_levelSize n block.1
      have inSlot : lo + pageSize ≤ lo / levelSize (n + 1) * levelSize (n + 1) + levelSize (n + 1) := by
        have end_ := add_chunk (levelSize_pos (n + 1)) nonempty
        rw [chunk_page ready.loAligned (pageSize_dvd (n + 1)) (levelSize_pos (n + 1))] at end_
        omega
      rw [mmuMapRange_page attr n s table pa ready.loAligned]
      have ntable := mmuGetNtable_ends ready.tables ready.placed ready.depth
        (ready.noBlock nonempty inSlot cut)
      apply Ends.bind (ntable.mono (fun _ h => h) fun _ _ => trivial)
      rintro ⟨s₁, q⟩ ⟨own₁, grows, child, isTable, leads, same⟩
      have slot : Below n own own₁ s s₁ table π lo q := ⟨grows, child, isTable, leads, same⟩
      have ready₁ := ready.lower nonempty inSlot cut slot
      have mapped := mmuMapRange_mapped plain n ready₁ (Nat.le_of_lt nonempty)
      have flat := mmuMapRange_page_below plain n ready₁
      apply (mapped.and flat).mono (fun s₂ both => ?_) fun _ _ => trivial
      obtain ⟨⟨own₂, grows₂, _⟩, flat⟩ := both
      intro v above below h found
      have here := div_eq_of_inSlot inSlot above below
      rw [slot.through (slot.kept ready.placed grows₂)
        ((index_eq_iff (ready.region v above below)).2 here)] at found
      exact flat v above below h found

end Page

/-! ## The call -/

/-- A call for one page.  At the last page of the 64-bit space the end of the range
wraps to 0 and the call does nothing. -/
structure Call.IsPage (c : Call) : Prop where
  va : pageSize ∣ c.va.toNat
  pa : pageSize ∣ c.pa.toNat
  size : c.size = 4096
  fits : c.pa.toNat + pageSize ≤ 2 ^ 48
  plain : IsAttr c.attr

namespace Call.IsPage

variable {c : Call}

theorem vstart (page : c.IsPage) : c.vstart.toNat = c.va.toNat := by
  rw [Call.vstart_toNat]
  exact Nat.div_mul_cancel page.va

theorem pstart (page : c.IsPage) : c.pstart = c.pa := by
  have same : c.vstart = c.va := UInt64.toNat_inj.1 page.vstart
  rw [Call.pstart, same, UInt64.sub_self, UInt64.sub_zero]

/-- The check of `mmu_map` passes. -/
theorem not_unaligned (page : c.IsPage) : ¬ c.pstart &&& (4096 - 1) ≠ 0 := by
  intro differs
  apply differs
  apply UInt64.toNat_inj.1
  have mask : (4096 - 1 : UInt64).toNat = 2 ^ 12 - 1 := by decide
  rw [page.pstart, UInt64.toNat_and, mask, Nat.and_two_pow_sub_one_eq_mod]
  exact Nat.mod_eq_zero_of_dvd page.pa

theorem vend (page : c.IsPage) (low : c.va.toNat + pageSize < 2 ^ 64) :
    c.vend.toNat = c.va.toNat + pageSize := by
  have aligned := page.va
  have size : c.size.toNat = 4096 := by rw [page.size]; rfl
  unfold pageSize at *
  rw [Call.vend, Call.toNat_align, UInt64.toNat_add, UInt64.toNat_add, size,
    show (4096 - 1 : UInt64).toNat = 4095 by decide]
  omega

theorem vend_last (page : c.IsPage) (last : 2 ^ 64 ≤ c.va.toNat + pageSize) : c.vend.toNat = 0 := by
  have aligned := page.va
  have bound := c.va.toNat_lt
  have size : c.size.toNat = 4096 := by rw [page.size]; rfl
  unfold pageSize at *
  rw [Call.vend, Call.toNat_align, UInt64.toNat_add, UInt64.toNat_add, size,
    show (4096 - 1 : UInt64).toNat = 4095 by decide]
  omega

theorem wellFormed (page : c.IsPage) (low : c.va.toNat + pageSize < 2 ^ 64) : c.WellFormed where
  noWrap := by
    have aligned := page.va
    have size : c.size.toNat = 4096 := by rw [page.size]; rfl
    unfold pageSize at *
    omega
  oneHalf := by
    have aligned := page.va
    rw [page.vend low, page.vstart]
    unfold pageSize at *
    omega
  paAligned := by
    rw [page.pstart]
    exact Nat.mod_eq_zero_of_dvd page.pa
  paFits := by
    have fits := page.fits
    rw [page.pstart, page.vend low, page.vstart]
    omega
  plain := page.plain

/-- What the call asks for, below 2^48. -/
theorem translate (page : c.IsPage) (low : c.va.toNat < 2 ^ 48) (w : Nat) :
    c.translate w = if c.va.toNat ≤ w ∧ w < c.va.toNat + pageSize then
      some (c.pa.toNat + (w - c.va.toNat), c.attr ||| pteAf) else none := by
  have fits : c.va.toNat + pageSize < 2 ^ 64 := by unfold pageSize; omega
  have base : c.va.toNat / 2 ^ 48 * 2 ^ 48 + w = w := by omega
  unfold Call.translate
  rw [page.vstart, page.vend fits, page.pstart]
  simp only [base]

end Call.IsPage

/-- **`mmu_map` of one page does not return only if no page is left for a table**, on any
memory. -/
theorem mmuMap_page_stops {c : Call} (s : State) (pgd : Nat) (page : c.IsPage) :
    Ends (fun _ => True) NoPageLeft (mmuMap s pgd c) := by
  rw [mmuMap, if_neg page.not_unaligned]
  cases Nat.lt_or_ge (c.va.toNat + pageSize) (2 ^ 64) with
  | inl low =>
      rw [page.vend low, page.vstart]
      exact mmuMapRange_page_stops c.attr 3 s pgd _ page.va
  | inr last =>
      have stop := page.vend_last last
      rw [mmuMapRange, slotLoop_done _ _ _ _ (by omega)]
      trivial

/-- Every walk ends at a page descriptor or faults. -/
def Flat (mem : Memory) (pgd : Nat) : Prop := ∀ v h, lookup mem 3 pgd v = some h → h.below = 0

/-- A page table that is filled page by page. -/
structure Rooted (own : Owner) (s : State) (pgd : Nat) : Prop where
  tables : Tables own s
  root : own pgd = some []
  flat : Flat s.mem pgd

section Rooted

variable {own : Owner} {s : State} {pgd : Nat} {c : Call}

theorem Rooted.ready (rooted : Rooted own s pgd) (page : c.IsPage) :
    Ready 3 own s pgd [] c.va.toNat (c.va.toNat + pageSize) c.pa.toNat where
  tables := rooted.tables
  placed := rooted.root
  depth := rfl
  region v above below := by
    have aligned := page.va
    change v / 2 ^ 48 = c.va.toNat / 2 ^ 48
    unfold pageSize at *
    omega
  loAligned := page.va
  hiAligned := Nat.dvd_add page.va (Nat.dvd_refl pageSize)
  paAligned := page.pa
  fits := by
    have := page.fits
    omega
  clean v _ _ h found block := absurd (rooted.flat v h found) block
  small _ v above below whole := by
    obtain ⟨start, stop, _⟩ := whole
    unfold levelSize at start stop
    unfold pageSize at *
    omega

/-- The table depends only on its own pages. -/
theorem Rooted.congr {mem' : Memory} (rooted : Rooted own s pgd)
    (same : ∀ p π, own p = some π → mem' p = s.mem p) :
    Rooted own { s with mem := mem' } pgd ∧ ∀ v, lookup mem' 3 pgd v = lookup s.mem 3 pgd v := by
  have walks : ∀ v, lookup mem' 3 pgd v = lookup s.mem 3 pgd v := by
    intro v
    apply lookup_congr rooted.tables 3 pgd [] rooted.root rfl
    intro p ρ i owned _
    rw [same p ρ owned]
  refine ⟨⟨⟨rooted.tables.member, ?_, rooted.tables.fresh, rooted.tables.nodup⟩, rooted.root, ?_⟩, walks⟩
  · intro p π i owned short
    dsimp only
    rw [same p π owned]
    exact rooted.tables.entry p π i owned short
  · intro v h found
    rw [walks v] at found
    exact rooted.flat v h found

theorem Rooted.resupply {pages : List Nat} (rooted : Rooted own s pgd) (distinct : pages.Nodup)
    (new : ∀ q ∈ pages, q ∉ s.tables ∧ q < 2 ^ 36) : Rooted own { s with supply := pages } pgd :=
  ⟨rooted.tables.resupply distinct new, rooted.root, rooted.flat⟩

/-- A page of zeroes is an empty table. -/
theorem rooted_zero {mem : Memory} {supply : List Nat} (zero : mem pgd = fun _ => 0)
    (none : supply = []) :
    Rooted (Function.update (fun _ => Option.none) pgd (some [])) ⟨mem, supply, [pgd]⟩ pgd where
  tables :=
    { member := by
        intro q
        by_cases root : q = pgd
        · simp [root]
        · simp [root]
      entry := by
        intro q π i owned _
        by_cases root : q = pgd
        · left
          subst root
          simp only [zero]
          decide
        · simp [root] at owned
      fresh := by simp [none]
      nodup := by simp [none] }
  root := Function.update_self _ _ _
  flat v h found := by
    rw [lookup_zero_page (fun i => congrFun zero i) v 3] at found
    cases found

/-- **Mapping one page.**  The tree grows, every other address keeps its translation,
and the only way not to return is that `kzalloc_pages` fails. -/
theorem mmuMap_page (rooted : Rooted own s pgd) (page : c.IsPage) :
    Ends
      (fun s' => ∃ own', Grows own own' s s' (tableCells []) ∧ Rooted own' s' pgd ∧
        ∀ w, w < 2 ^ 48 → walk s'.mem pgd w = (c.translate w).or (walk s.mem pgd w))
      (OutOfMemory own s []) (mmuMap s pgd c) := by
  rw [mmuMap, if_neg page.not_unaligned]
  cases Nat.lt_or_ge (c.va.toNat + pageSize) (2 ^ 64) with
  | inl low =>
      have formed := page.wellFormed low
      have mapped := mmuMapRange_mapped page.plain 3 (rooted.ready page) (Nat.le_add_right _ _)
      have flat := mmuMapRange_page_below page.plain 3 (rooted.ready page)
      have both := mapped.and flat
      rw [← page.vend low, ← page.vstart, ← page.pstart] at both
      apply both.mono (fun s' post => ?_) fun e failed => failed.1
      obtain ⟨⟨own', grows, overlaid⟩, flat⟩ := post
      refine ⟨own', grows, ⟨grows.tables, grows.owners _ _ rooted.root, ?_⟩,
        fun w low => walk_overlaid overlaid low⟩
      -- every address has the walk of one in the half of the call
      intro v h found
      set v' := c.vstart.toNat / 2 ^ 48 * 2 ^ 48 + v % 2 ^ 48 with v_def
      have shift : ∀ mem : Memory, lookup mem 3 pgd v = lookup mem 3 pgd v' := by
        intro mem
        rw [← lookup_mod mem v 3 pgd (Nat.le_refl 3), ← lookup_mod mem v' 3 pgd (Nat.le_refl 3),
          show v' % 2 ^ 48 = v % 2 ^ 48 by omega]
      have region : v' / levelSize 4 = c.vstart.toNat / levelSize 4 := by
        change v' / 2 ^ 48 = c.vstart.toNat / 2 ^ 48
        omega
      rw [shift] at found
      by_cases inside : c.vstart.toNat ≤ v' ∧ v' < c.vend.toNat
      · exact flat v' inside.1 inside.2 h found
      · rw [overlaid.beside v' region (by omega), ← shift] at found
        exact rooted.flat v h found
  | inr last =>
      have stop := page.vend_last last
      have nothing : mmuMapRange c.attr 3 s pgd c.vstart.toNat c.vend.toNat c.pstart.toNat = .ok s := by
        rw [mmuMapRange, slotLoop_done _ _ _ _ (by omega)]
      rw [nothing]
      refine ⟨own, Grows.refl rooted.tables, rooted, fun w _ => ?_⟩
      have none : c.translate w = none := by
        unfold Call.translate
        dsimp only
        rw [if_neg (by omega)]
      rw [none]
      rfl

end Rooted

/-- The first page in an empty pgd takes a table. -/
theorem mmuMap_empty_takes {s : State} {pgd : Nat} {c : Call} (empty : s.mem pgd = fun _ => 0)
    (page : c.IsPage) (low : c.va.toNat + pageSize < 2 ^ 64) :
    Ends (fun s' => s'.supply.length < s.supply.length) (fun _ => True) (mmuMap s pgd c) := by
  rw [mmuMap]
  split
  · trivial
  rw [page.vend low, page.vstart, mmuMapRange_page c.attr 2 s pgd _ page.va]
  have unpopulated : mmuEntryPopulated (s.mem pgd (index 3 c.va.toNat)) = false := by
    rw [empty]
    show mmuEntryPopulated 0 = false
    decide
  unfold mmuGetNtable
  rw [if_neg (by rw [unpopulated]; decide)]
  cases handed : s.supply with
  | nil => trivial
  | cons first rest =>
      apply (mmuMapRange_consumes c.attr 2 _ first _ _ _).mono (fun s' taken => ?_) fun _ _ => trivial
      obtain ⟨used, supply, _⟩ := taken
      have length := congrArg List.length supply
      rw [List.length_append] at length
      rw [List.length_cons]
      dsimp only at length
      omega

end Minus.Core.Mmu
