/-
# Core.MmuMap — what a sequence of mappings means

Every table page stands at one place of the tree: `Owner` gives it the path of
indices, the last one first, that leads to it from the pgd.  `Tables` says that a
table descriptor leads to the page at the longer path, so that two different
descriptors never share a table.  One call writes only at and below the table it
is given (`Grows`), and what a walk finds afterwards is the old answer with the
range laid over it (`Overlaid`).

This holds as long as the call meets no block descriptor where it wants a table
(`Clean`): `mmu_get_ntable` takes any populated entry for a table, so a call that
covers part of a block writes descriptors into the memory the block maps.
-/
import Minus.Core.Mmu

namespace Minus.Core.Mmu

set_option autoImplicit false

open Minus.Theory

/-! ## Slots and indices -/

theorem levelSize_succ (n : Nat) : levelSize (n + 1) = levelSize n * 512 := by
  unfold levelSize
  rw [show 12 + 9 * (n + 1) = 12 + 9 * n + 9 by omega, Nat.pow_add]

theorem levelSize_dvd {k n : Nat} (le : k ≤ n) : levelSize k ∣ levelSize n :=
  Nat.pow_dvd_pow 2 (by omega)

theorem pageSize_dvd (n : Nat) : pageSize ∣ levelSize n := levelSize_dvd (Nat.zero_le n)

theorem div_levelSize_succ (n v : Nat) : v / levelSize (n + 1) = v / levelSize n / 512 := by
  rw [levelSize_succ, Nat.div_div_eq_div_mul]

/-- In the region of one table the index tells the slots apart. -/
theorem index_eq_iff {n v w : Nat} (same : v / levelSize (n + 1) = w / levelSize (n + 1)) :
    index n v = index n w ↔ v / levelSize n = w / levelSize n := by
  rw [div_levelSize_succ, div_levelSize_succ] at same
  unfold index
  rw [Fin.ext_iff]
  show v / levelSize n % 512 = w / levelSize n % 512 ↔ _
  omega

/-- The slot of `v` lies in the range, and the call's address is aligned there. -/
def Whole (lo hi pa n v : Nat) : Prop :=
  lo ≤ v / levelSize n * levelSize n ∧ v / levelSize n * levelSize n + levelSize n ≤ hi ∧
    levelSize n ∣ pa + (v / levelSize n * levelSize n - lo)

instance (lo hi pa n v : Nat) : Decidable (Whole lo hi pa n v) :=
  inferInstanceAs (Decidable (_ ∧ _ ∧ _))

/-! ## The tree of tables -/

abbrev Path := List (Fin 512)

/-- The place of each table page: the indices from the pgd to it, the last first. -/
abbrev Owner := Nat → Option Path

structure Tables (own : Owner) (s : State) : Prop where
  member : ∀ p, p ∈ s.tables ↔ ∃ π, own p = some π
  entry : ∀ p π i, own p = some π → π.length < 3 →
    typeOf (s.mem p i) = pteTypeInvalid ∨ (typeOf (s.mem p i) = pteTypeBlock ∧ π ≠ []) ∨
      (typeOf (s.mem p i) = pteTypeTable ∧ own (pageOf (s.mem p i)) = some (i :: π))
  fresh : ∀ p ∈ s.supply, own p = none ∧ p < 2 ^ 36
  nodup : s.supply.Nodup

/-- From `s` to `s'` the tree has grown, and only the cells at paths `inside` differ. -/
structure Grows (own own' : Owner) (s s' : State) (inside : Path → Prop) : Prop where
  tables : Tables own' s'
  owners : ∀ p π, own p = some π → own' p = some π
  frame : ∀ p i, (∀ ρ, own' p = some ρ → ¬ inside (i :: ρ)) → s'.mem p i = s.mem p i
  handed : ∀ p ∈ s'.tables, p ∈ s.tables ∨ p ∈ s.supply
  supply : s'.supply ⊆ s.supply

/-- The cells of the table at `π` and of the tables below it. -/
def tableCells (π cell : Path) : Prop := ∃ i, (i :: π) <:+ cell

section Grows

variable {own own₁ own₂ : Owner} {s s₁ s₂ : State} {I J : Path → Prop}

theorem Grows.refl (tables : Tables own s) : Grows own own s s I :=
  ⟨tables, fun _ _ h => h, fun _ _ _ => rfl, fun _ => .inl, List.Subset.refl _⟩

theorem Grows.trans (first : Grows own own₁ s s₁ I) (second : Grows own₁ own₂ s₁ s₂ I) :
    Grows own own₂ s s₂ I where
  tables := second.tables
  owners p π h := second.owners p π (first.owners p π h)
  frame p i outside := by
    rw [second.frame p i outside]
    exact first.frame p i fun ρ placed => outside ρ (second.owners p ρ placed)
  handed p member := by
    cases second.handed p member with
    | inl old => exact first.handed p old
    | inr new => exact .inr (first.supply new)
  supply := List.Subset.trans second.supply first.supply

theorem Grows.mono (grows : Grows own own₁ s s₁ I) (weaker : ∀ cell, I cell → J cell) :
    Grows own own₁ s s₁ J :=
  ⟨grows.tables, grows.owners, fun p i outside =>
    grows.frame p i fun ρ placed inside => outside ρ placed (weaker _ inside),
    grows.handed, grows.supply⟩

/-- Two suffixes of one cell's path that differ only in their first index are equal. -/
theorem cons_eq_of_suffix {i j : Fin 512} {π cell : Path} (left : (i :: π) <:+ cell)
    (right : (j :: π) <:+ cell) : i = j := by
  have := (List.suffix_of_suffix_length_le left right (by simp)).eq_of_length (by simp)
  exact (List.cons.inj this).1

/-- A walk reads only the cells at and below the slot it enters. -/
theorem lookup_congr {mem' : Memory} {v : Nat} (tables : Tables own s) :
    ∀ (n table : Nat) (π : Path), own table = some π → π.length + n = 3 →
      (∀ p ρ i, own p = some ρ → (index n v :: π) <:+ (i :: ρ) → mem' p i = s.mem p i) →
      lookup mem' n table v = lookup s.mem n table v
  | 0, table, π, placed, _, same => by
      have here := same table π _ placed List.suffix_rfl
      rw [lookup, lookup, here]
  | n + 1, table, π, placed, depth, same => by
      have here := same table π _ placed List.suffix_rfl
      simp only [lookup, here]
      split
      · rename_i descends
        obtain invalid | ⟨block, _⟩ | ⟨_, child⟩ :=
          tables.entry table π (index (n + 1) v) placed (by omega)
        · rw [descends] at invalid
          cases invalid
        · rw [descends] at block
          cases block
        · apply lookup_congr tables n _ _ child (by simp; omega)
          intro p ρ i owned below
          exact same p ρ i owned ((List.suffix_cons _ _).trans below)
      · rfl

/-- What changes below one slot does not change a walk into another. -/
theorem Grows.lookup_beside {n table v : Nat} {π : Path} {idx : Fin 512} (tables : Tables own s)
    (grows : Grows own own₁ s s₁ ((idx :: π) <:+ ·)) (placed : own table = some π)
    (depth : π.length + n = 3) (other : index n v ≠ idx) :
    lookup s₁.mem n table v = lookup s.mem n table v := by
  apply lookup_congr tables n table π placed depth
  intro p ρ i owned below
  apply grows.frame
  intro ρ' owned' inside
  rw [grows.owners p ρ owned] at owned'
  cases owned'
  exact other (cons_eq_of_suffix below inside)

end Grows

/-! ## Writing one entry -/

theorem mmuPopulate_same (mem : Memory) (table : Nat) (idx : Fin 512) (val : UInt64) :
    mmuPopulate mem table idx val table idx = val := by
  simp [mmuPopulate]

theorem mmuPopulate_other (mem : Memory) {table p : Nat} {idx i : Fin 512} (val : UInt64)
    (other : ¬ (p = table ∧ i = idx)) : mmuPopulate mem table idx val p i = mem p i := by
  unfold mmuPopulate
  by_cases page : p = table
  · subst page
    have : i ≠ idx := fun same => other ⟨rfl, same⟩
    simp [this]
  · simp [page]

/-- A block or page descriptor, where its kind is valid. -/
def IsLeaf (n : Nat) (entry : UInt64) : Prop :=
  n = 0 ∧ typeOf entry = pteTypePage ∨ n ≠ 0 ∧ n ≠ 3 ∧ typeOf entry = pteTypeBlock

theorem lookup_leaf {mem : Memory} {table v : Nat} :
    ∀ {n : Nat}, IsLeaf n (mem table (index n v)) →
      lookup mem n table v = some (hit n (mem table (index n v)) v)
  | 0, leaf => by
      obtain ⟨_, page⟩ | ⟨positive, _⟩ := leaf
      · rw [lookup, if_pos page]
      · exact absurd rfl positive
  | n + 1, leaf => by
      obtain ⟨zero, _⟩ | ⟨_, low, block⟩ := leaf
      · cases zero
      · have : ¬ typeOf (mem table (index (n + 1) v)) = pteTypeTable := by
          rw [block]
          decide
        rw [lookup, if_neg this, if_pos ⟨block, low⟩]

section Populate

variable {own : Owner} {s : State} {table n : Nat} {π : Path} {idx : Fin 512} {val : UInt64}

theorem grows_leaf (idx : Fin 512) (tables : Tables own s) (placed : own table = some π)
    (depth : π.length + n = 3) (leaf : IsLeaf n val) :
    Grows own own s { s with mem := mmuPopulate s.mem table idx val } ((idx :: π) <:+ ·) where
  tables :=
    { member := tables.member
      entry := by
        intro p ρ i owned short
        by_cases here : p = table ∧ i = idx
        · obtain ⟨rfl, rfl⟩ := here
          rw [placed] at owned
          cases owned
          simp only [mmuPopulate_same]
          obtain ⟨zero, _⟩ | ⟨_, low, block⟩ := leaf
          · omega
          · refine .inr (.inl ⟨block, ?_⟩)
            rintro rfl
            exact low (by simpa using depth)
        · simp only [mmuPopulate_other s.mem val here]
          exact tables.entry p ρ i owned short
      fresh := tables.fresh
      nodup := tables.nodup }
  owners _ _ owned := owned
  frame p i outside := by
    apply mmuPopulate_other
    rintro ⟨rfl, rfl⟩
    exact outside π placed List.suffix_rfl
  handed _ := .inl
  supply := List.Subset.refl _

/-- A slot is given the page at the head of the supply, zeroed, for its table. -/
theorem grows_table (idx : Fin 512) {page : Nat} {rest : List Nat} (tables : Tables own s)
    (placed : own table = some π) (handed : s.supply = page :: rest) :
    Grows own (Function.update own page (some (idx :: π))) s
      ⟨mmuPopulate (Function.update s.mem page fun _ => 0) table idx
        (pteTable (UInt64.ofNat (page * pageSize))), rest, page :: s.tables⟩ ((idx :: π) <:+ ·) := by
  obtain ⟨unowned, small⟩ := tables.fresh page (by simp [handed])
  have apart : table ≠ page := by
    rintro rfl
    rw [placed] at unowned
    cases unowned
  have distinct : (page :: rest).Nodup := handed ▸ tables.nodup
  set own' : Owner := Function.update own page (some (idx :: π)) with own_def
  have owner_page : own' page = some (idx :: π) := by simp [own_def]
  have owner_other : ∀ p, p ≠ page → own' p = own p := fun p other => by simp [own_def, other]
  set mem := mmuPopulate (Function.update s.mem page fun _ => 0) table idx
    (pteTable (UInt64.ofNat (page * pageSize))) with mem_def
  have read_page : ∀ i, mem page i = 0 := by
    intro i
    rw [mem_def, mmuPopulate_other _ _ fun here => apart here.1.symm, Function.update_self]
  have read : ∀ p i, p ≠ page → ¬ (p = table ∧ i = idx) → mem p i = s.mem p i := by
    intro p i other elsewhere
    rw [mem_def, mmuPopulate_other _ _ elsewhere, Function.update_of_ne other]
  constructor
  · constructor
    · intro p
      by_cases new : p = page
      · subst new
        simp [owner_page]
      · simp [new, owner_other p new, tables.member p]
    · intro p ρ i owned short
      by_cases new : p = page
      · subst new
        exact .inl (by simp only [read_page]; decide)
      rw [owner_other p new] at owned
      by_cases here : p = table ∧ i = idx
      · obtain ⟨rfl, rfl⟩ := here
        rw [placed] at owned
        cases owned
        simp only [mem_def, mmuPopulate_same]
        refine .inr (.inr ⟨typeOf_pteTable _, ?_⟩)
        rw [pageOf_pteTable small, owner_page]
      · simp only [read p i new here]
        obtain invalid | block | ⟨isTable, child⟩ := tables.entry p ρ i owned short
        · exact .inl invalid
        · exact .inr (.inl block)
        · refine .inr (.inr ⟨isTable, ?_⟩)
          rw [owner_other _ fun same => ?_, child]
          rw [same, unowned] at child
          cases child
    · intro p left
      have other : p ≠ page := by
        rintro rfl
        exact (List.nodup_cons.1 distinct).1 left
      rw [owner_other p other]
      exact tables.fresh p (by simp [handed, left])
    · exact (List.nodup_cons.1 distinct).2
  · intro p ρ owned
    rw [owner_other p fun same => ?_, owned]
    rw [same, unowned] at owned
    cases owned
  · intro p i outside
    apply read
    · rintro rfl
      exact outside _ owner_page (List.suffix_cons _ _)
    · rintro ⟨rfl, rfl⟩
      rw [owner_other _ apart] at outside
      exact outside π placed List.suffix_rfl
  · intro p member
    cases member with
    | head => exact .inr (by simp [handed])
    | tail _ old => exact .inl old
  · simp [handed]

theorem lookup_zero_page {mem : Memory} {page : Nat} (zero : ∀ i, mem page i = 0) (v : Nat) :
    ∀ m, lookup mem m page v = none
  | 0 => by rw [lookup, zero]; rfl
  | m + 1 => by rw [lookup, zero]; rfl

/-- The table below a slot, made if there is none: a walk finds what it found before. -/
theorem mmuGetNtable_ends (tables : Tables own s) (placed : own table = some π)
    (depth : π.length + (n + 1) = 3) (noBlock : typeOf (s.mem table idx) ≠ pteTypeBlock) :
    Ends
      (fun r => ∃ own', Grows own own' s r.1 ((idx :: π) <:+ ·) ∧ own' r.2 = some (idx :: π) ∧
        typeOf (r.1.mem table idx) = pteTypeTable ∧ pageOf (r.1.mem table idx) = r.2 ∧
        ∀ v, lookup r.1.mem (n + 1) table v = lookup s.mem (n + 1) table v)
      (fun e => e = (.noMemory, s)) (mmuGetNtable s table idx) := by
  have known := tables.entry table π idx placed (by omega)
  unfold mmuGetNtable
  split
  · rename_i populated
    obtain invalid | ⟨block, _⟩ | ⟨isTable, child⟩ := known
    · simp [mmuEntryPopulated, invalid] at populated
    · exact absurd block noBlock
    · exact ⟨own, Grows.refl tables, child, isTable, rfl, fun _ => rfl⟩
  · rename_i empty
    have invalid : typeOf (s.mem table idx) = pteTypeInvalid := by
      simpa [mmuEntryPopulated] using empty
    cases handed : s.supply with
    | nil => rfl
    | cons page rest =>
        obtain ⟨unowned, small⟩ := tables.fresh page (by simp [handed])
        have apart : page ≠ table := by
          rintro rfl
          rw [placed] at unowned
          cases unowned
        have grows := grows_table idx tables placed handed
        refine ⟨_, grows, by simp, ?_, ?_, fun v => ?_⟩
        · dsimp only
          rw [mmuPopulate_same, typeOf_pteTable]
        · dsimp only
          rw [mmuPopulate_same, pageOf_pteTable small]
        · by_cases same : index (n + 1) v = idx
          · -- the fresh table is empty, and so was the slot
            have before : lookup s.mem (n + 1) table v = none := by
              rw [lookup, same, invalid]
              rfl
            dsimp only
            rw [before, lookup, same, mmuPopulate_same, if_pos (typeOf_pteTable _),
              pageOf_pteTable small]
            apply lookup_zero_page
            intro i
            rw [mmuPopulate_other _ _ fun here => apart here.1, Function.update_self]
          · exact grows.lookup_beside tables placed depth same

end Populate

/-! ## One range -/

/-- In the region of one table, walks find the range where it lies, and elsewhere
what they found before. -/
structure Overlaid (attr : UInt64) (n table region lo hi pa : Nat) (mem mem' : Memory) : Prop where
  covered : ∀ v, v / levelSize (n + 1) = region → lo ≤ v → v < hi →
    ∃ k, lookup mem' n table v = some ⟨k, pa + (v - lo), attr ||| pteAf⟩
  beside : ∀ v, v / levelSize (n + 1) = region → v < lo ∨ hi ≤ v →
    lookup mem' n table v = lookup mem n table v

theorem Overlaid.append {attr : UInt64} {n table region lo mid hi pa : Nat}
    {mem mem₁ mem₂ : Memory} (low : lo ≤ mid) (high : mid ≤ hi)
    (first : Overlaid attr n table region lo mid pa mem mem₁)
    (second : Overlaid attr n table region mid hi (pa + (mid - lo)) mem₁ mem₂) :
    Overlaid attr n table region lo hi pa mem mem₂ where
  covered v inside above below := by
    cases Nat.lt_or_ge v mid with
    | inl early =>
        rw [second.beside v inside (.inl early)]
        exact first.covered v inside above early
    | inr late =>
        obtain ⟨k, found⟩ := second.covered v inside late below
        refine ⟨k, ?_⟩
        rw [found, show pa + (mid - lo) + (v - mid) = pa + (v - lo) by omega]
  beside v inside outside := by
    rw [second.beside v inside (by omega), first.beside v inside (by omega)]

/-- What `mmu_map_range` may rely on.  Of the descriptors in the way, a block is one
the call itself replaces, and no block is due at `PGD_LEVEL`. -/
structure Ready (n : Nat) (own : Owner) (s : State) (table : Nat) (π : Path) (lo hi pa : Nat) :
    Prop where
  tables : Tables own s
  placed : own table = some π
  depth : π.length + n = 3
  region : ∀ v, lo ≤ v → v < hi → v / levelSize (n + 1) = lo / levelSize (n + 1)
  loAligned : pageSize ∣ lo
  hiAligned : pageSize ∣ hi
  paAligned : pageSize ∣ pa
  fits : pa + (hi - lo) ≤ 2 ^ 48
  clean : ∀ v, lo ≤ v → v < hi → ∀ h, lookup s.mem n table v = some h → h.below ≠ 0 →
    ∃ k, h.below ≤ k ∧ k ≤ n ∧ Whole lo hi pa k v
  small : n = 3 → ∀ v, lo ≤ v → v < hi → ¬ Whole lo hi pa 3 v

/-- The state after a range has been mapped. -/
def Mapped (attr : UInt64) (n : Nat) (own : Owner) (s : State) (table : Nat) (π : Path)
    (lo hi pa : Nat) (s' : State) : Prop :=
  ∃ own', Grows own own' s s' (tableCells π) ∧
    Overlaid attr n table (lo / levelSize (n + 1)) lo hi pa s.mem s'.mem

/-- The only way not to return is that `kzalloc_pages` fails. -/
def OutOfMemory (own : Owner) (s : State) (π : Path) (e : Bug × State) : Prop :=
  e.1 = .noMemory ∧ ∃ own', Grows own own' s e.2 (tableCells π)

theorem tableCells_of_slot {idx : Fin 512} {π cell : Path} (inside : (idx :: π) <:+ cell) :
    tableCells π cell :=
  ⟨idx, inside⟩

theorem slot_of_tableCells {idx : Fin 512} {π cell : Path} (inside : tableCells (idx :: π) cell) :
    (idx :: π) <:+ cell := by
  obtain ⟨i, below⟩ := inside
  exact (List.suffix_cons i _).trans below

section Range

variable {attr : UInt64} {n table lo hi pa : Nat} {own : Owner} {s : State} {π : Path}

/-- Where a slot of size `levelSize n` that meets the chunk at `a` lies. -/
theorem whole_chunk {a k v : Nat} (low : lo ≤ a) (edge : a = lo ∨ levelSize n ∣ a) (le : k ≤ n)
    (above : a ≤ v) (below : v < a + chunk (levelSize n) a hi) (whole : Whole lo hi pa k v) :
    Whole a (a + chunk (levelSize n) a hi) (pa + (a - lo)) k v := by
  obtain ⟨start, stop, aligned⟩ := whole
  have left : v / levelSize n * levelSize n ≤ v / levelSize k * levelSize k :=
    slot_le_of_dvd (levelSize_dvd le)
  have right : v / levelSize k * levelSize k + levelSize k ≤
      v / levelSize n * levelSize n + levelSize n :=
    slot_add_le_of_dvd (levelSize_pos n) (levelSize_dvd le)
  have within : chunk (levelSize n) a hi ≤ levelSize n - a % levelSize n := Nat.min_le_left _ _
  have cut : chunk (levelSize n) a hi = min (levelSize n - a % levelSize n) (hi - a) := rfl
  have small := Nat.mod_lt a (levelSize_pos n)
  have split := Nat.div_add_mod' a (levelSize n)
  have slot : v / levelSize n = a / levelSize n := by
    apply Nat.div_eq_of_lt_le
    · omega
    · rw [Nat.succ_mul]
      omega
  rw [slot] at left right
  have first : a ≤ v / levelSize k * levelSize k := by
    obtain rfl | ⟨m, rfl⟩ := edge
    · exact start
    · have : levelSize n * m % levelSize n = 0 := Nat.mul_mod_right _ _
      omega
  have moved : pa + (a - lo) + (v / levelSize k * levelSize k - a) =
      pa + (v / levelSize k * levelSize k - lo) := by omega
  exact ⟨first, by omega, moved ▸ aligned⟩

/-- The chunk of a slot is ready once the range before it has been mapped. -/
theorem Ready.chunk {s₁ : State} {own₁ : Owner} {a : Nat} (ready : Ready n own s table π lo hi pa)
    (grows : Grows own own₁ s s₁ (tableCells π))
    (overlaid : Overlaid attr n table (lo / levelSize (n + 1)) lo a pa s.mem s₁.mem)
    (low : lo ≤ a) (high : a < hi) (edge : a = lo ∨ levelSize n ∣ a) :
    Ready n own₁ s₁ table π a (a + chunk (levelSize n) a hi) (pa + (a - lo)) := by
  have short : Theory.chunk (levelSize n) a hi ≤ hi - a := Nat.min_le_right _ _
  have dvd_a : pageSize ∣ a := by
    obtain rfl | aligned := edge
    · exact ready.loAligned
    · exact (pageSize_dvd n).trans aligned
  have same : a / levelSize (n + 1) = lo / levelSize (n + 1) := ready.region a low high
  have bounds := ready.fits
  exact
    { tables := grows.tables
      placed := grows.owners _ _ ready.placed
      depth := ready.depth
      region := fun v above below => by
        rw [same]
        exact ready.region v (by omega) (by omega)
      loAligned := dvd_a
      hiAligned := by
        have inner : pageSize ∣ levelSize n - a % levelSize n :=
          Nat.dvd_sub (pageSize_dvd n) ((Nat.dvd_mod_iff (pageSize_dvd n)).2 dvd_a)
        have outer : pageSize ∣ hi - a := Nat.dvd_sub ready.hiAligned dvd_a
        apply Nat.dvd_add dvd_a
        unfold Theory.chunk
        cases Nat.le_total (levelSize n - a % levelSize n) (hi - a) with
        | inl le => rwa [Nat.min_eq_left le]
        | inr le => rwa [Nat.min_eq_right le]
      paAligned := Nat.dvd_add ready.paAligned (Nat.dvd_sub dvd_a ready.loAligned)
      fits := by omega
      clean := fun v above below h found block => by
        rw [overlaid.beside v (ready.region v (by omega) (by omega)) (.inr above)] at found
        obtain ⟨k, covers, le, whole⟩ := ready.clean v (by omega) (by omega) h found block
        exact ⟨k, covers, le, whole_chunk low edge le above below whole⟩
      small := fun top v above below whole => by
        subst top
        apply ready.small rfl v (by omega) (by omega)
        obtain ⟨start, stop, aligned⟩ := whole
        refine ⟨by omega, by omega, ?_⟩
        have moved : pa + (a - lo) + (v / levelSize 3 * levelSize 3 - a) =
            pa + (v / levelSize 3 * levelSize 3 - lo) := by omega
        exact moved ▸ aligned }

/-- **A slot the range fills gets a block or a page.** -/
theorem leaf_mapped {val : UInt64} (ready : Ready n own s table π lo hi pa)
    (full : hi = lo + levelSize n) (aligned : levelSize n ∣ lo) (paDvd : levelSize n ∣ pa)
    (leaf : IsLeaf n val) (phys : (val &&& ptePhysMask).toNat = pa)
    (attrs : val &&& ~~~ (ptePhysMask ||| pteTypeMask) = attr ||| pteAf) :
    Mapped attr n own s table π lo hi pa
      { s with mem := mmuPopulate s.mem table (index n lo) val } := by
  have grows := grows_leaf (index n lo) ready.tables ready.placed ready.depth leaf
  have positive := levelSize_pos n
  have base := Nat.div_mul_cancel aligned
  refine ⟨own, grows.mono fun _ => tableCells_of_slot, ⟨?_, ?_⟩⟩
  · intro v region above below
    have slot : v / levelSize n = lo / levelSize n := by
      apply Nat.div_eq_of_lt_le
      · omega
      · rw [Nat.succ_mul]
        omega
    have here : mmuPopulate s.mem table (index n lo) val table (index n v) = val := by
      rw [(index_eq_iff region).2 slot]
      exact mmuPopulate_same _ _ _ _
    refine ⟨n, ?_⟩
    show lookup (mmuPopulate s.mem table (index n lo) val) n table v = _
    rw [lookup_leaf (here.symm ▸ leaf), here]
    have offset : v % levelSize n = v - lo := by
      have := Nat.div_add_mod' v (levelSize n)
      rw [slot] at this
      omega
    simp only [hit, phys, attrs, Nat.div_mul_cancel paDvd, offset]
  · intro v region outside
    apply grows.lookup_beside ready.tables ready.placed ready.depth
    rw [Ne, index_eq_iff region]
    intro slot
    have := Nat.div_add_mod' v (levelSize n)
    have := Nat.mod_lt v positive
    rw [slot] at *
    omega

/-- A slot the range lies in and fills is one the call writes a block over. -/
theorem whole_fills {v : Nat} (nonempty : lo < hi)
    (inSlot : hi ≤ lo / levelSize n * levelSize n + levelSize n)
    (same : v / levelSize n = lo / levelSize n) (whole : Whole lo hi pa n v) :
    hi - lo = levelSize n ∧ pa % levelSize n = 0 := by
  obtain ⟨start, stop, aligned⟩ := whole
  rw [same] at start stop aligned
  have below := Nat.div_mul_le_self lo (levelSize n)
  have base : lo / levelSize n * levelSize n = lo := by omega
  rw [base, Nat.sub_self] at aligned
  exact ⟨by omega, Nat.mod_eq_zero_of_dvd aligned⟩

theorem div_eq_of_inSlot {v : Nat} (inSlot : hi ≤ lo / levelSize n * levelSize n + levelSize n)
    (above : lo ≤ v) (below : v < hi) : v / levelSize n = lo / levelSize n := by
  have := Nat.div_mul_le_self lo (levelSize n)
  apply Nat.div_eq_of_lt_le
  · omega
  · rw [Nat.succ_mul]
    omega

/-- A slot that the range covers in part holds no block. -/
theorem Ready.noBlock (ready : Ready (n + 1) own s table π lo hi pa) (nonempty : lo < hi)
    (inSlot : hi ≤ lo / levelSize (n + 1) * levelSize (n + 1) + levelSize (n + 1))
    (cut : ¬ (hi - lo = levelSize (n + 1) ∧ pa % levelSize (n + 1) = 0)) :
    typeOf (s.mem table (index (n + 1) lo)) ≠ pteTypeBlock := by
  intro block
  obtain invalid | ⟨_, deep⟩ | ⟨isTable, _⟩ :=
    ready.tables.entry table π (index (n + 1) lo) ready.placed (by have := ready.depth; omega)
  · rw [block] at invalid
    cases invalid
  · have low : n + 1 ≠ 3 := by
      intro top
      have := ready.depth
      exact deep (List.length_eq_zero_iff.1 (by omega))
    have leaf : IsLeaf (n + 1) (s.mem table (index (n + 1) lo)) := .inr ⟨by omega, low, block⟩
    obtain ⟨k, covers, le, whole⟩ :=
      ready.clean lo (Nat.le_refl lo) nonempty _ (lookup_leaf leaf) (Nat.succ_ne_zero n)
    have : k = n + 1 := Nat.le_antisymm le covers
    subst this
    exact cut (whole_fills nonempty inSlot rfl whole)
  · rw [block] at isTable
    cases isTable

/-- The slot of `lo` has the table `q` below it, and walks find what they found in `s`. -/
structure Below (n : Nat) (own own₁ : Owner) (s s₁ : State) (table : Nat) (π : Path) (lo q : Nat) :
    Prop where
  grows : Grows own own₁ s s₁ ((index (n + 1) lo :: π) <:+ ·)
  child : own₁ q = some (index (n + 1) lo :: π)
  isTable : typeOf (s₁.mem table (index (n + 1) lo)) = pteTypeTable
  leads : pageOf (s₁.mem table (index (n + 1) lo)) = q
  same : ∀ v, lookup s₁.mem (n + 1) table v = lookup s.mem (n + 1) table v

/-- In the slot a walk goes on from the lower table. -/
theorem Below.through {own₁ : Owner} {s₁ : State} {q : Nat}
    (below : Below n own own₁ s s₁ table π lo q) {mem : Memory}
    (kept : mem table (index (n + 1) lo) = s₁.mem table (index (n + 1) lo)) {v : Nat}
    (slot : index (n + 1) v = index (n + 1) lo) : lookup mem (n + 1) table v = lookup mem n q v := by
  rw [lookup, slot, kept, if_pos below.isTable, below.leads]

/-- What is written below the slot leaves the slot's own descriptor. -/
theorem Below.kept {own₁ own₂ : Owner} {s₁ s₂ : State} {q : Nat}
    (below : Below n own own₁ s s₁ table π lo q) (placed : own table = some π)
    (grows₂ : Grows own₁ own₂ s₁ s₂ (tableCells (index (n + 1) lo :: π))) :
    s₂.mem table (index (n + 1) lo) = s₁.mem table (index (n + 1) lo) := by
  apply grows₂.frame
  rintro ρ owned ⟨i, deeper⟩
  rw [grows₂.owners table π (below.grows.owners table π placed)] at owned
  cases owned
  have := deeper.length_le
  simp at this

/-- The table below a slot is ready for the part of the range in the slot. -/
theorem Ready.lower {own₁ : Owner} {s₁ : State} {q : Nat}
    (ready : Ready (n + 1) own s table π lo hi pa) (nonempty : lo < hi)
    (inSlot : hi ≤ lo / levelSize (n + 1) * levelSize (n + 1) + levelSize (n + 1))
    (cut : ¬ (hi - lo = levelSize (n + 1) ∧ pa % levelSize (n + 1) = 0))
    (below : Below n own own₁ s s₁ table π lo q) :
    Ready n own₁ s₁ q (index (n + 1) lo :: π) lo hi pa where
  tables := below.grows.tables
  placed := below.child
  depth := by
    have := ready.depth
    simp only [List.length_cons]
    omega
  region v above under := div_eq_of_inSlot inSlot above under
  loAligned := ready.loAligned
  hiAligned := ready.hiAligned
  paAligned := ready.paAligned
  fits := ready.fits
  clean v above under h found block := by
    have slot := div_eq_of_inSlot inSlot above under
    rw [← below.through rfl ((index_eq_iff (ready.region v above under)).2 slot),
      below.same v] at found
    obtain ⟨k, covers, le, whole⟩ := ready.clean v above under h found block
    refine ⟨k, covers, ?_, whole⟩
    apply Nat.le_of_lt_succ
    apply Nat.lt_of_le_of_ne le
    rintro rfl
    exact cut (whole_fills nonempty inSlot slot whole)
  small top := by
    have := ready.depth
    omega

/-- **A slot the range covers in part is mapped through the table below it.** -/
theorem descend_mapped (ready : Ready (n + 1) own s table π lo hi pa) (nonempty : lo < hi)
    (inSlot : hi ≤ lo / levelSize (n + 1) * levelSize (n + 1) + levelSize (n + 1))
    (cut : ¬ (hi - lo = levelSize (n + 1) ∧ pa % levelSize (n + 1) = 0))
    (lower : ∀ own s table π, Ready n own s table π lo hi pa →
      Ends (Mapped attr n own s table π lo hi pa) (OutOfMemory own s π)
        (mmuMapRange attr n s table lo hi pa)) :
    Ends (Mapped attr (n + 1) own s table π lo hi pa) (OutOfMemory own s π)
      (do
        let (s, ntable) ← mmuGetNtable s table (index (n + 1) lo)
        mmuMapRange attr n s ntable lo hi pa) := by
  have ntable := mmuGetNtable_ends ready.tables ready.placed ready.depth
    (ready.noBlock nonempty inSlot cut)
  apply Ends.bind (ntable.mono (fun _ h => h) fun e failed => ?_)
  · rintro ⟨s₁, q⟩ ⟨own₁, grows, child, isTable, leads, same⟩
    have slot : Below n own own₁ s s₁ table π lo q := ⟨grows, child, isTable, leads, same⟩
    apply (lower own₁ s₁ q _ (ready.lower nonempty inSlot cut slot)).mono
    · rintro s₂ ⟨own₂, grows₂, overlaid⟩
      have outer := grows₂.mono (J := ((index (n + 1) lo :: π) <:+ ·)) fun _ => slot_of_tableCells
      have whole := grows.trans outer
      have kept := slot.kept ready.placed grows₂
      refine ⟨own₂, whole.mono fun _ => tableCells_of_slot, ⟨?_, ?_⟩⟩
      · intro v inside above below
        have here := div_eq_of_inSlot inSlot above below
        rw [slot.through kept ((index_eq_iff inside).2 here)]
        exact overlaid.covered v here above below
      · intro v inside outside
        by_cases here : v / levelSize (n + 1) = lo / levelSize (n + 1)
        · have sameIndex := (index_eq_iff inside).2 here
          rw [slot.through kept sameIndex, overlaid.beside v here outside,
            ← slot.through rfl sameIndex, same v]
        · apply whole.lookup_beside ready.tables ready.placed ready.depth
          rwa [Ne, index_eq_iff inside]
    · rintro e ⟨bug, own₂, grows₂⟩
      have outer := grows₂.mono (J := ((index (n + 1) lo :: π) <:+ ·)) fun _ => slot_of_tableCells
      exact ⟨bug, own₂, (grows.trans outer).mono fun _ => tableCells_of_slot⟩
  · subst failed
    exact ⟨rfl, own, Grows.refl ready.tables⟩

/-- **A range is mapped once each of its chunks is.** -/
theorem slotLoop_mapped {body : State → Nat → Nat → Nat → Except (Bug × State) State}
    (slot : ∀ own s a c pa, Ready n own s table π a (a + c) pa → a < a + c →
      a % levelSize n + c ≤ levelSize n →
      Ends (Mapped attr n own s table π a (a + c) pa) (OutOfMemory own s π) (body s a c pa))
    (ready : Ready n own s table π lo hi pa) (ordered : lo ≤ hi) :
    Ends (Mapped attr n own s table π lo hi pa) (OutOfMemory own s π)
      (slotLoop (levelSize n) (levelSize_pos n) hi body s lo pa) := by
  have walk := slotLoop_ends lo hi pa (levelSize_pos n) body
    (R := fun a s' => Mapped attr n own s table π lo a pa s')
    (E := OutOfMemory own s π) ?_ s lo (Nat.le_refl lo) ordered (.inl rfl) ?_
  · rwa [Nat.sub_self, Nat.add_zero] at walk
  · rintro s₁ a low high edge ⟨own₁, grows, overlaid⟩
    have ready₁ := ready.chunk grows overlaid low high edge
    have forward := chunk_pos (levelSize_pos n) high
    have within : chunk (levelSize n) a hi ≤ levelSize n - a % levelSize n := Nat.min_le_left _ _
    have inSlot := Nat.mod_lt a (levelSize_pos n)
    apply (slot own₁ s₁ a _ _ ready₁ (by omega) (by omega)).mono
    · rintro s₂ ⟨own₂, grows₂, overlaid₂⟩
      rw [ready.region a low high] at overlaid₂
      exact ⟨own₂, grows.trans grows₂, overlaid.append low (by omega) overlaid₂⟩
    · rintro e ⟨bug, own₂, grows₂⟩
      exact ⟨bug, own₂, grows.trans grows₂⟩
  · exact ⟨own, Grows.refl ready.tables, ⟨fun v _ above below => by omega, fun _ _ _ => rfl⟩⟩

theorem inSlot_of_mod {a c : Nat} (inSlot : a % levelSize n + c ≤ levelSize n) :
    a + c ≤ a / levelSize n * levelSize n + levelSize n := by
  have := Nat.div_add_mod' a (levelSize n)
  omega

/-- A chunk as long as its slot starts where the slot does. -/
theorem dvd_of_full {a : Nat} (inSlot : a % levelSize n + levelSize n ≤ levelSize n) :
    levelSize n ∣ a :=
  Nat.dvd_of_mod_eq_zero (by omega)

end Range

/-- **`mmu_map_range` maps its range**, or runs out of memory: by induction on the
levels below, and along the slots at each level. -/
theorem mmuMapRange_mapped {attr : UInt64} (plain : IsAttr attr) :
    ∀ (n : Nat) {table lo hi pa : Nat} {own : Owner} {s : State} {π : Path},
      Ready n own s table π lo hi pa → lo ≤ hi →
      Ends (Mapped attr n own s table π lo hi pa) (OutOfMemory own s π)
        (mmuMapRange attr n s table lo hi pa)
  | 0, table, lo, hi, pa, own, s, π, ready, ordered => by
      rw [mmuMapRange]
      apply slotLoop_mapped _ ready ordered
      intro own s a c pa ready forward inSlot
      have whole : c = levelSize 0 := by
        have := ready.loAligned
        have := (Nat.dvd_add_right ready.loAligned).1 ready.hiAligned
        change a % 4096 + c ≤ 4096 at inSlot
        change c = 4096
        unfold pageSize at *
        omega
      subst whole
      have bound := ready.fits
      obtain ⟨kind, phys, attrs⟩ := leaf_fields pteTypePage pa plain
        (by have := levelSize_pos 0; omega) ready.paAligned (by decide)
      rw [if_neg (fun differs => differs rfl)]
      exact leaf_mapped ready rfl (dvd_of_full inSlot) ready.paAligned (.inl ⟨rfl, kind⟩) phys attrs
  | n + 1, table, lo, hi, pa, own, s, π, ready, ordered => by
      rw [mmuMapRange]
      apply slotLoop_mapped _ ready ordered
      intro own s a c pa ready forward inSlot
      show Ends _ _ (if c = levelSize (n + 1) ∧ pa % levelSize (n + 1) = 0 then _ else _)
      split
      · rename_i block
        obtain ⟨rfl, aligned⟩ := block
        have base := dvd_of_full inSlot
        have paDvd := Nat.dvd_of_mod_eq_zero aligned
        have low : n + 1 ≠ 3 := by
          intro top
          apply ready.small top a (Nat.le_refl a) forward
          rw [← top]
          refine ⟨Nat.le_of_eq (Nat.div_mul_cancel base).symm, ?_, ?_⟩
          · rw [Nat.div_mul_cancel base]
          · rwa [Nat.div_mul_cancel base, Nat.sub_self]
        have bound := ready.fits
        obtain ⟨kind, phys, attrs⟩ := leaf_fields pteTypeBlock pa plain
          (by have := levelSize_pos (n + 1); omega) ready.paAligned (by decide)
        exact leaf_mapped ready rfl base paDvd (.inr ⟨by omega, low, kind⟩) phys attrs
      · rename_i cut
        apply descend_mapped ready forward (inSlot_of_mod inSlot)
        · rwa [Nat.add_sub_cancel_left]
        · intro own s table π ready
          exact mmuMapRange_mapped plain n ready (Nat.le_of_lt forward)

/-! ## Sequences of calls -/

namespace Call

variable (c : Call)

/-- A call the kernel may make: its page-rounded range does not wrap and lies in one
copy of the 48-bit space, its physical range is page aligned and 48-bit, and
its attributes are attribute bits. -/
structure WellFormed : Prop where
  noWrap : c.va.toNat + c.size.toNat + 4095 < 2 ^ 64
  oneHalf : c.vend.toNat ≤ (c.vstart.toNat / 2 ^ 48 + 1) * 2 ^ 48
  paAligned : c.pstart.toNat % 4096 = 0
  paFits : c.pstart.toNat + (c.vend.toNat - c.vstart.toNat) ≤ 2 ^ 48
  plain : IsAttr c.attr

/-- The translation the call asks for, by the low 48 bits of the address. -/
def translate (w : Nat) : Option (Nat × UInt64) :=
  let v := c.vstart.toNat / 2 ^ 48 * 2 ^ 48 + w
  if c.vstart.toNat ≤ v ∧ v < c.vend.toNat then
    some (c.pstart.toNat + (v - c.vstart.toNat), c.attr ||| pteAf)
  else
    none

theorem toNat_align (x : UInt64) : (x &&& ~~~ (4096 - 1)).toNat = x.toNat / 4096 * 4096 := by
  have mask : (~~~ (4096 - 1) : UInt64).toNat = 2 ^ 64 - 2 ^ 12 := by decide
  rw [UInt64.toNat_and, mask]
  exact and_high (by omega) x.toNat_lt

theorem vstart_toNat : c.vstart.toNat = c.va.toNat / 4096 * 4096 := toNat_align c.va

variable {c}

theorem WellFormed.vend_toNat (formed : c.WellFormed) :
    c.vend.toNat = (c.va.toNat + c.size.toNat + 4095) / 4096 * 4096 := by
  have small := formed.noWrap
  rw [vend, toNat_align, UInt64.toNat_add, UInt64.toNat_add,
    show (4096 - 1 : UInt64).toNat = 4095 by decide, Nat.mod_eq_of_lt (a := c.va.toNat + _) (by omega),
    Nat.mod_eq_of_lt (by omega)]

theorem WellFormed.vstart_le_vend (formed : c.WellFormed) : c.vstart.toNat ≤ c.vend.toNat := by
  rw [formed.vend_toNat, vstart_toNat]
  omega

end Call

/-- A call, and the pages `kzalloc_pages` hands out in it until it returns NULL. -/
structure Request where
  call : Call
  pages : List Nat

/-- A page table under construction: `made` lists the calls so far, the last one
first; `hung` is the `MMU_BUGON` that the last one spins in. -/
structure Paging where
  pgd : Nat
  state : State
  hung : Option Bug
  made : List Request

/-- The page table under any sequence of calls.  The page allocator hands out each
page once. -/
def paging : Machine Paging Request where
  enabled p r := p.hung = none ∧ r.call.WellFormed ∧ r.pages.Nodup ∧
    ∀ q ∈ r.pages, q ∉ p.state.tables ∧ q < 2 ^ 36
  step p r :=
    match mmuMap { p.state with supply := r.pages } p.pgd r.call with
    | .ok s => { p with state := s, made := r :: p.made }
    | .error (bug, s) => { p with state := s, made := r :: p.made, hung := some bug }

/-- An empty pgd. -/
structure Paging.Fresh (p : Paging) : Prop where
  tables : p.state.tables = [p.pgd]
  empty : ∀ i, typeOf (p.state.mem p.pgd i) = pteTypeInvalid
  supply : p.state.supply = []
  hung : p.hung = none
  made : p.made = []

/-- No slot of 512 GiB is due for a block, and each block the range meets is one that
the call replaces by a block of its own, of that level or higher. -/
def Clean (p : Paging) (r : Request) : Prop :=
  let c := r.call
  ∀ v, c.vstart.toNat ≤ v → v < c.vend.toNat →
    ¬ Whole c.vstart.toNat c.vend.toNat c.pstart.toNat 3 v ∧
    ∀ h, lookup p.state.mem 3 p.pgd v = some h → h.below ≠ 0 →
      ∃ k, h.below ≤ k ∧ k ≤ 2 ∧ Whole c.vstart.toNat c.vend.toNat c.pstart.toNat k v

/-- The translation of the most recent call that covers `w`. -/
def meaning (made : List Request) (w : Nat) : Option (Nat × UInt64) :=
  made.findSome? fun r => r.call.translate w

/-- A walk reads the low 48 bits of the address. -/
theorem index_mod {n : Nat} (le : n ≤ 3) (v : Nat) : index n (v % 2 ^ 48) = index n v := by
  obtain ⟨m, whole⟩ : levelSize n * 512 ∣ 2 ^ 48 := levelSize_succ n ▸ levelSize_dvd (n := 4) (by omega)
  rw [Nat.mul_assoc] at whole
  unfold index
  rw [Fin.ext_iff]
  show v % 2 ^ 48 / levelSize n % 512 = v / levelSize n % 512
  rw [whole, Nat.mod_mul_right_div_self, Nat.mod_mod_of_dvd _ (Nat.dvd_mul_right _ _)]

theorem hit_mod {n : Nat} (le : n ≤ 3) (entry : UInt64) (v : Nat) :
    hit n entry (v % 2 ^ 48) = hit n entry v := by
  unfold hit levelSize
  rw [Nat.mod_mod_of_dvd v (Nat.pow_dvd_pow 2 (by omega))]

theorem lookup_mod (mem : Memory) (v : Nat) :
    ∀ (n table : Nat), n ≤ 3 → lookup mem n table (v % 2 ^ 48) = lookup mem n table v
  | 0, table, le => by
      rw [lookup, lookup, index_mod le, hit_mod le]
  | n + 1, table, le => by
      rw [lookup, lookup, index_mod le, hit_mod le, lookup_mod mem v n _ (by omega)]

/-- What holds between the calls of a clean sequence. -/
structure Inv (p₀ p : Paging) : Prop where
  pgd : p.pgd = p₀.pgd
  tree : ∃ own, Tables own p.state ∧ own p.pgd = some [] ∧
    ∀ q, own q = none → p.state.mem q = p₀.state.mem q
  hung : p.hung = none ∨ p.hung = some .noMemory
  meant : p.hung = none → ∀ w, w < 2 ^ 48 → walk p.state.mem p.pgd w = meaning p.made w
  handed : ∀ q ∈ p.state.tables, q = p.pgd ∨ ∃ r ∈ p.made, q ∈ r.pages

theorem inv_fresh {p : Paging} (fresh : p.Fresh) : Inv p p where
  pgd := rfl
  tree := by
    refine ⟨Function.update (fun _ => none) p.pgd (some []), ?_, ?_, fun _ _ => rfl⟩
    · constructor
      · intro q
        by_cases root : q = p.pgd
        · simp [root, fresh.tables]
        · simp [root, fresh.tables]
      · intro q π i owned _
        by_cases root : q = p.pgd
        · exact .inl (root ▸ fresh.empty i)
        · simp [root] at owned
      · simp [fresh.supply]
      · simp [fresh.supply]
    · simp
  hung := .inl fresh.hung
  meant _ w _ := by
    rw [fresh.made, walk, lookup, fresh.empty]
    rfl
  handed q member := .inl (by simpa [fresh.tables] using member)

section Step

variable {p₀ p : Paging} {r : Request}

theorem Tables.resupply {own : Owner} {s : State} {pages : List Nat} (tables : Tables own s)
    (distinct : pages.Nodup) (new : ∀ q ∈ pages, q ∉ s.tables ∧ q < 2 ^ 36) :
    Tables own { s with supply := pages } where
  member := tables.member
  entry := tables.entry
  fresh q handed := by
    refine ⟨?_, (new q handed).2⟩
    cases owned : own q with
    | none => rfl
    | some π => exact absurd ((tables.member q).2 ⟨π, owned⟩) (new q handed).1
  nodup := distinct

/-- The pgd is ready for a clean call. -/
theorem ready_of_clean {own : Owner} {s : State} (tables : Tables own s)
    (root : own p.pgd = some []) (same : s.mem = p.state.mem) (formed : r.call.WellFormed)
    (clean : Clean p r) :
    Ready 3 own s p.pgd [] r.call.vstart.toNat r.call.vend.toNat r.call.pstart.toNat where
  tables := tables
  placed := root
  depth := rfl
  region v above below := by
    have := formed.oneHalf
    change v / 2 ^ 48 = r.call.vstart.toNat / 2 ^ 48
    omega
  loAligned := by
    rw [Call.vstart_toNat]
    exact Nat.dvd_mul_left _ _
  hiAligned := by
    rw [formed.vend_toNat]
    exact Nat.dvd_mul_left _ _
  paAligned := Nat.dvd_of_mod_eq_zero formed.paAligned
  fits := formed.paFits
  clean v above below h found block := by
    obtain ⟨k, covers, le, whole⟩ := (clean v above below).2 h (same ▸ found) block
    exact ⟨k, covers, by omega, whole⟩
  small _ v above below := (clean v above below).1

theorem mmuMap_eq_range (s : State) (pgd : Nat) (formed : r.call.WellFormed) :
    mmuMap s pgd r.call = mmuMapRange r.call.attr 3 s pgd r.call.vstart.toNat r.call.vend.toNat
      r.call.pstart.toNat := by
  have aligned : r.call.pstart &&& (4096 - 1) = 0 := by
    apply UInt64.toNat_inj.1
    have mask : (4096 - 1 : UInt64).toNat = 2 ^ 12 - 1 := by decide
    rw [UInt64.toNat_and, mask, Nat.and_two_pow_sub_one_eq_mod]
    exact formed.paAligned
  rw [mmuMap, if_neg (fun differs => differs aligned)]

/-- Walks after a call, by the low 48 bits. -/
theorem walk_overlaid {s s' : State} {pgd : Nat} {c : Call}
    (overlaid : Overlaid c.attr 3 pgd (c.vstart.toNat / levelSize 4) c.vstart.toNat c.vend.toNat
      c.pstart.toNat s.mem s'.mem) {w : Nat} (low : w < 2 ^ 48) :
    walk s'.mem pgd w = (c.translate w).or (walk s.mem pgd w) := by
  set v := c.vstart.toNat / 2 ^ 48 * 2 ^ 48 + w with v_def
  have w_eq : v % 2 ^ 48 = w := by omega
  have region : v / levelSize 4 = c.vstart.toNat / levelSize 4 := by
    change v / 2 ^ 48 = c.vstart.toNat / 2 ^ 48
    omega
  have shift : ∀ mem : Memory, lookup mem 3 pgd w = lookup mem 3 pgd v := by
    intro mem
    rw [← w_eq, lookup_mod mem v 3 pgd (Nat.le_refl 3)]
  unfold walk Call.translate
  rw [shift, shift]
  dsimp only
  rw [← v_def]
  split
  · rename_i covers
    obtain ⟨k, found⟩ := overlaid.covered v region covers.1 covers.2
    rw [found]
    rfl
  · rename_i outside
    rw [overlaid.beside v region (by omega)]
    rfl

/-- **One clean call keeps the invariant.** -/
theorem inv_step (inv : Inv p₀ p) (enabled : (paging.guard Clean).enabled p r) :
    Inv p₀ (paging.step p r) := by
  obtain ⟨⟨_, formed, distinct, new⟩, clean⟩ := enabled
  obtain ⟨own, tables, root, kept⟩ := inv.tree
  have tables' := tables.resupply distinct new
  have ready := ready_of_clean tables' root rfl formed clean
  have ends := mmuMapRange_mapped formed.plain 3 ready formed.vstart_le_vend
  rw [← mmuMap_eq_range _ _ formed] at ends
  -- what a call leaves behind, whether or not it returns
  have tree : ∀ {own' s'}, Grows own own' { p.state with supply := r.pages } s' (tableCells []) →
      ∃ own, Tables own s' ∧ own p.pgd = some [] ∧ ∀ q, own q = none → s'.mem q = p₀.state.mem q := by
    intro own' s' grows
    refine ⟨own', grows.tables, grows.owners _ _ root, fun q unowned => ?_⟩
    have before : own q = none := by
      cases owned : own q with
      | none => rfl
      | some π =>
          rw [grows.owners q π owned] at unowned
          cases unowned
    rw [← kept q before]
    funext i
    apply grows.frame
    intro ρ owned
    rw [unowned] at owned
    cases owned
  have handed : ∀ {own' s'}, Grows own own' { p.state with supply := r.pages } s' (tableCells []) →
      ∀ q ∈ s'.tables, q = p.pgd ∨ ∃ r' ∈ r :: p.made, q ∈ r'.pages := by
    intro own' s' grows q member
    cases grows.handed q member with
    | inl old =>
        obtain root | ⟨r', earlier, from_r'⟩ := inv.handed q old
        · exact .inl root
        · exact .inr ⟨r', List.mem_cons_of_mem _ earlier, from_r'⟩
    | inr new => exact .inr ⟨r, List.mem_cons_self, new⟩
  unfold paging
  dsimp only
  cases result : mmuMap { p.state with supply := r.pages } p.pgd r.call with
  | ok s' =>
      rw [result] at ends
      obtain ⟨own', grows, overlaid⟩ := ends
      refine ⟨inv.pgd, tree grows, inv.hung, fun running w low => ?_, handed grows⟩
      rw [walk_overlaid overlaid low, inv.meant running w low, meaning, meaning,
        List.findSome?_cons]
      cases r.call.translate w with
      | none => rfl
      | some t => rfl
  | error e =>
      rw [result] at ends
      obtain ⟨bug, own', grows⟩ := ends
      refine ⟨inv.pgd, tree grows, .inr (congrArg some bug), ?_, handed grows⟩
      intro running
      cases running

end Step

theorem made_run (p : Paging) (requests : List Request) :
    (paging.run p requests).made = requests.reverse ++ p.made := by
  induction requests generalizing p with
  | nil => rfl
  | cons r rest ih =>
      have one : (paging.step p r).made = r :: p.made := by
        unfold paging
        dsimp only
        split
        · rfl
        · rfl
      rw [Machine.run_cons, ih, one, List.reverse_cons, List.append_assoc]
      rfl

/-- **The meaning of a sequence of mappings.**  From an empty pgd, after any sequence of
calls each of which is clean, a walk of every 48-bit address finds what the last
call that covers it asked for, and faults if there is none; nothing but the pgd and
the pages `kzalloc_pages` handed out has been written.  No `MMU_BUGON` fires but the
one for a failed allocation. -/
theorem walk_finds_last_mapping {p : Paging} (fresh : p.Fresh) {requests : List Request}
    (admitted : (paging.guard Clean).Admits p requests) :
    let p' := paging.run p requests
    (p'.hung = none →
      ∀ w, w < 2 ^ 48 → walk p'.state.mem p.pgd w = meaning requests.reverse w) ∧
    (p'.hung = none ∨ p'.hung = some .noMemory) ∧
    (∀ q, q ∉ p'.state.tables → p'.state.mem q = p.state.mem q) ∧
    ∀ q ∈ p'.state.tables, q = p.pgd ∨ ∃ r ∈ requests, q ∈ r.pages := by
  have inv : Inv p ((paging.guard Clean).run p requests) :=
    Machine.run_invariant (paging.guard Clean) (I := Inv p) (fun _ _ inv enabled => inv_step inv enabled)
      (inv_fresh fresh) admitted
  rw [Machine.guard_run] at inv
  have made := made_run p requests
  rw [fresh.made, List.append_nil] at made
  obtain ⟨own, tables, _, kept⟩ := inv.tree
  refine ⟨fun running w low => ?_, inv.hung, fun q outside => ?_, fun q member => ?_⟩
  · rw [← made, ← inv.pgd]
    exact inv.meant running w low
  · apply kept
    cases owned : own q with
    | none => rfl
    | some π => exact absurd ((tables.member q).2 ⟨π, owned⟩) outside
  · have := inv.handed q member
    rw [made, inv.pgd] at this
    simpa using this

/-! ### One sequence that is clean, and two that are not -/

/-- The kernel's pgd, empty, in a memory of zeroes. -/
def bootPaging : Paging := ⟨0x100, ⟨fun _ _ => 0, [], [0x100]⟩, none, []⟩

theorem bootPaging_fresh : bootPaging.Fresh :=
  ⟨rfl, fun _ => show typeOf 0 = pteTypeInvalid by decide, rfl, rfl, rfl⟩

/-- 2 MiB of RAM in the linear map, as one block. -/
def linearMap : Request := ⟨mmuMemremap 0x1000000000000 0x200000 0x200000, [0x101, 0x102]⟩

theorem linearMap_wellFormed : linearMap.call.WellFormed :=
  ⟨by decide, by decide, by decide, by decide, by decide⟩

theorem linearMap_enabled : paging.enabled bootPaging linearMap :=
  ⟨rfl, linearMap_wellFormed, by decide, by decide⟩

/-- The same 2 MiB again, as device memory. -/
def remapWhole : Request := ⟨mmuIoremap 0x1000000000000 0x200000 0x200000, [0x103]⟩

/-- The second page of the block, as device memory and as a framebuffer. -/
def remapDevice : Request := ⟨mmuIoremap 0x1000000000000 0x201000 0x1000, [0x103]⟩

def remapFramebuffer : Request := ⟨mmuMemremap 0x1000000000000 0x201000 0x1000, [0x103]⟩

theorem linearMap_clean : Clean bootPaging linearMap := by
  have start : linearMap.call.vstart.toNat = 0xFFFF000000200000 := by decide
  have stop : linearMap.call.vend.toNat = 0xFFFF000000400000 := by decide
  intro v above below
  rw [start, stop] at *
  refine ⟨fun whole => ?_, fun h found => ?_⟩
  · obtain ⟨low, high, _⟩ := whole
    simp only [levelSize, Nat.reduceMul, Nat.reduceAdd, Nat.reducePow] at low high
    omega
  · rw [lookup, bootPaging_fresh.empty] at found
    cases found

theorem remapWhole_clean : Clean (paging.step bootPaging linearMap) remapWhole := by
  have start : remapWhole.call.vstart.toNat = 0xFFFF000000200000 := by decide
  have stop : remapWhole.call.vend.toNat = 0xFFFF000000400000 := by decide
  have phys : remapWhole.call.pstart.toNat = 0x200000 := by decide
  intro v above below
  rw [start, stop, phys] at *
  have slot : v / 2 ^ 21 = 0xFFFF000000200000 / 2 ^ 21 := by omega
  refine ⟨fun whole => ?_, fun h found _ => ⟨1, ?_, by omega, ?_⟩⟩
  · obtain ⟨low, high, _⟩ := whole
    simp only [levelSize, Nat.reduceMul, Nat.reduceAdd, Nat.reducePow] at low high
    omega
  · -- every address of the slot goes through the same three descriptors
    have index_same : ∀ n, n = 1 ∨ n = 2 ∨ n = 3 → index n v = index n 0xFFFF000000200000 := by
      intro n cases_n
      unfold index
      apply congrArg
      obtain rfl | rfl | rfl := cases_n
      · exact slot
      · show v / 2 ^ 30 = 0xFFFF000000200000 / 2 ^ 30
        omega
      · show v / 2 ^ 39 = 0xFFFF000000200000 / 2 ^ 39
        omega
    have top : ∀ w, w = index 3 0xFFFF000000200000 →
        typeOf ((paging.step bootPaging linearMap).state.mem 0x100 w) = pteTypeTable ∧
        pageOf ((paging.step bootPaging linearMap).state.mem 0x100 w) = 0x101 := by
      rintro w rfl
      decide +kernel
    have mid : ∀ w, w = index 2 0xFFFF000000200000 →
        typeOf ((paging.step bootPaging linearMap).state.mem 0x101 w) = pteTypeTable ∧
        pageOf ((paging.step bootPaging linearMap).state.mem 0x101 w) = 0x102 := by
      rintro w rfl
      decide +kernel
    have leaf : ∀ w, w = index 1 0xFFFF000000200000 →
        typeOf ((paging.step bootPaging linearMap).state.mem 0x102 w) = pteTypeBlock := by
      rintro w rfl
      decide +kernel
    obtain ⟨kind₃, page₃⟩ := top _ (index_same 3 (by omega))
    obtain ⟨kind₂, page₂⟩ := mid _ (index_same 2 (by omega))
    have kind₁ := leaf _ (index_same 1 (by omega))
    rw [show (paging.step bootPaging linearMap).pgd = 0x100 by decide +kernel, lookup,
      if_pos kind₃, page₃, lookup, if_pos kind₂, page₂,
      lookup_leaf (.inr ⟨by omega, by omega, kind₁⟩)] at found
    cases found
    exact Nat.le_refl 1
  · unfold Whole
    rw [show levelSize 1 = 2 ^ 21 from rfl, slot]
    decide

theorem walk_finds_remapped_block :
    (paging.run bootPaging [linearMap, remapWhole]).hung = none ∧
    walk (paging.run bootPaging [linearMap, remapWhole]).state.mem 0x100 0x201234 =
      some (0x201234, mmuRegionDevice ||| pteAf) := by
  have running : (paging.run bootPaging [linearMap, remapWhole]).hung = none := by decide +kernel
  have admitted : (paging.guard Clean).Admits bootPaging [linearMap, remapWhole] :=
    ⟨⟨linearMap_enabled, linearMap_clean⟩,
      ⟨⟨by decide +kernel, ⟨by decide, by decide, by decide, by decide, by decide⟩, by decide,
        by decide +kernel⟩, remapWhole_clean⟩, trivial⟩
  have found := (walk_finds_last_mapping bootPaging_fresh admitted).1 running 0x201234 (by decide)
  exact ⟨running, found.trans (by decide +kernel)⟩

/-- **A block covered in part is taken for a table.**  Each sequence is well formed and
returns.  The framebuffer's descriptor lands in page 0x200, which the linear map
maps and which is no table; the device page goes on being read as normal memory. -/
theorem part_of_block_not_remapped :
    let framebuffer := paging.run bootPaging [linearMap, remapFramebuffer]
    let device := paging.run bootPaging [linearMap, remapDevice]
    (bootPaging.Fresh ∧ paging.Admits bootPaging [linearMap, remapFramebuffer] ∧
      paging.Admits bootPaging [linearMap, remapDevice]) ∧
    (framebuffer.hung = none ∧ 0x200 ∉ framebuffer.state.tables ∧
      framebuffer.state.mem 0x200 1 ≠ bootPaging.state.mem 0x200 1) ∧
    device.hung = none ∧
      walk device.state.mem 0x100 0x201000 = some (0x201000, mmuRegionNormal ||| pteAf) ∧
      meaning [remapDevice, linearMap] 0x201000 = some (0x201000, mmuRegionDevice ||| pteAf) ∧
      walk device.state.mem 0x100 0x201000 ≠ meaning [remapDevice, linearMap] 0x201000 := by
  refine ⟨⟨bootPaging_fresh, ⟨linearMap_enabled, ⟨?_, ?_, by decide, by decide +kernel⟩, trivial⟩,
    ⟨linearMap_enabled, ⟨?_, ?_, by decide, by decide +kernel⟩, trivial⟩⟩, by decide +kernel,
    by decide +kernel⟩
  · decide +kernel
  · exact ⟨by decide, by decide, by decide, by decide, by decide⟩
  · decide +kernel
  · exact ⟨by decide, by decide, by decide, by decide, by decide⟩

end Minus.Core.Mmu
