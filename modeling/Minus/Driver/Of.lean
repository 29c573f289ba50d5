/-
# Driver.Of — addresses in the device tree

`of_translate_address` of `kernel/driver/core/of.c` takes a bus address up to the
root, one bus a pass: an empty `ranges` keeps it, otherwise the first entry that
covers it maps it.  The test `addr < child_base + size` is in 64 bits, so an entry
that reaches the top of the address space covers nothing.

`Step` is what a bus does with an address, over the integers.  The walk composes the
buses exactly where `BusFits` holds of each of them (`ofTranslateAddress_composes_iff`).
-/
import Mathlib.Data.List.Basic
import Mathlib.Logic.Relation
import Minus.Lib.Fdt

namespace Minus.Driver.Of

set_option autoImplicit false

open Minus.Lib
open Minus.Mm.Boot (FdtErr bigEndian bigEndian_add fdt32ToCpu_toNat)

def enoent : Int := 2
def einval : Int := 22

/-- `of_read_cells(prop + first, cells)`. -/
def ofReadCells (prop : List UInt8) (first : Nat) : Nat → UInt64
  | 0 => 0
  | n + 1 => ofReadCells prop first n <<< 32 ||| (Fdt.cell prop (first + n)).toUInt64

/-- The loop over the entries, from entry `i` on; the new address, if one of them matches. -/
def matchRanges (ranges : List UInt8) (ac pac sc : Nat) (addr : UInt64) (i : Nat) : Nat → Option UInt64
  | 0 => none
  | n + 1 =>
      let e := i * (ac + pac + sc)
      let childBase := ofReadCells ranges e ac
      let parentBase := ofReadCells ranges (e + ac) pac
      let size := ofReadCells ranges (e + ac + pac) sc
      if childBase ≤ addr ∧ addr < childBase + size then some (parentBase + (addr - childBase))
      else matchRanges ranges ac pac sc addr (i + 1) n

/-- The variables of the walk. -/
structure Walk where
  node : Int
  addr : UInt64

/-- One pass of `while (1)`: an error, the translated address, or where the walk goes on. -/
def ofTranslatePass (fdt : Fdt) (w : Walk) : Except Int (UInt64 ⊕ Walk) :=
  let parent := fdt.parentOffset w.node
  if parent < 0 then .error (-enoent)
  else
    let grandparent := fdt.parentOffset parent
    if grandparent < 0 then .ok (.inl w.addr)
    else
      let ac := fdt.addressCells parent
      let sc := fdt.sizeCells parent
      let pac := fdt.addressCells grandparent
      if ac < 0 ∨ sc < 0 ∨ pac < 0 then .error (-einval)
      else
        match fdt.getprop parent "ranges" with
        | .error _ => .error (-enoent)
        | .ok ranges =>
            if ranges.length = 0 then .ok (.inr ⟨parent, w.addr⟩)
            else
              let entryCells := (ac + pac + sc).toNat
              if ranges.length < entryCells * 4 then .error (-einval)
              else
                match matchRanges ranges ac.toNat pac.toNat sc.toNat w.addr 0 (ranges.length / (entryCells * 4)) with
                | none => .error (-einval)
                | some addr => .ok (.inr ⟨parent, addr⟩)

/-- `of_translate_address`. -/
def ofTranslateAddress (fdt : Fdt) : Nat → Walk → Option (Except Int UInt64)
  | 0, _ => none
  | fuel + 1, w =>
      match ofTranslatePass fdt w with
      | .error e => some (.error e)
      | .ok (.inl addr) => some (.ok addr)
      | .ok (.inr w) => ofTranslateAddress fdt fuel w

/-- `struct resource`. -/
structure Resource where
  start : UInt64
  last : UInt64
  flags : UInt32
  name : Option (List UInt8)
  deriving DecidableEq

/-- `IORESOURCE_MEM`. -/
def ioresourceMem : UInt32 := 0x200

def ofGetAddressResource (fdt : Fdt) (fuel : Nat) (node parent : Int) (index : Nat) : Option (Except Int Resource) :=
  let ac := fdt.addressCells parent
  let sc := fdt.sizeCells parent
  if ac < 0 ∨ sc < 0 then some (.error (-einval))
  else
    match fdt.getprop node "reg" with
    | .error _ => some (.error (-enoent))
    | .ok prop =>
        let entryCells := (ac + sc).toNat
        if prop.length < (index + 1) * entryCells * 4 then some (.error (-einval))
        else do
          let offset := index * entryCells
          let addr := ofReadCells prop offset ac.toNat
          let size := ofReadCells prop (offset + ac.toNat) sc.toNat
          match ← ofTranslateAddress fdt fuel ⟨node, addr⟩ with
          | .error e => return .error e
          | .ok addr => return .ok ⟨addr, addr + size - 1, ioresourceMem, none⟩

/-! ## What the buses do -/

/-- An entry of `ranges`. -/
structure Window where
  childBase : Nat
  parentBase : Nat
  size : Nat
  deriving DecidableEq

def Window.Covers (w : Window) (a : Nat) : Prop := w.childBase ≤ a ∧ a < w.childBase + w.size

instance (w : Window) (a : Nat) : Decidable (w.Covers a) := instDecidableAnd

def Window.parentAddr (w : Window) (a : Nat) : Nat := w.parentBase + (a - w.childBase)

/-- The `n` cells from cell `first` on, as one number. -/
def number (prop : List UInt8) (first n : Nat) : Nat := bigEndian (fun i => prop.getD i 0) (4 * first) (4 * n)

/-- The entry at index `k`. -/
def windowAt (ranges : List UInt8) (ac pac sc k : Nat) : Window :=
  let e := k * (ac + pac + sc)
  ⟨number ranges e ac, number ranges (e + ac) pac, number ranges (e + ac + pac) sc⟩

/-- The entries that lie in the property of a bus. -/
def windows (fdt : Fdt) (bus : Int) (ranges : List UInt8) : List Window :=
  let ac := (fdt.addressCells bus).toNat
  let pac := (fdt.addressCells (fdt.parentOffset bus)).toNat
  let sc := (fdt.sizeCells bus).toNat
  (List.range (ranges.length / ((ac + pac + sc) * 4))).map (windowAt ranges ac pac sc)

/-- The address in the parent's space that a bus gives to one in its own. -/
def busMap (fdt : Fdt) (bus : Int) (a : Nat) : Option Nat :=
  match fdt.getprop bus "ranges" with
  | .error _ => none
  | .ok [] => some a
  | .ok ranges => ((windows fdt bus ranges).find? (·.Covers a)).map (·.parentAddr a)

/-- From an address of a node to that of its parent, by the bus that the parent is. -/
def Step (fdt : Fdt) (x y : Int × Nat) : Prop :=
  0 ≤ fdt.parentOffset (fdt.parentOffset x.1) ∧ y.1 = fdt.parentOffset x.1 ∧ busMap fdt y.1 x.2 = some y.2

/-- The composition of the buses from one node up to another. -/
def Composed (fdt : Fdt) : Int × Nat → Int × Nat → Prop := Relation.ReflTransGen (Step fdt)

/-- All the buses compose, up to the root. -/
def Translates (fdt : Fdt) (node : Int) (a out : Nat) : Prop :=
  ∃ m, Composed fdt (node, a) (m, out) ∧ fdt.parentOffset (fdt.parentOffset m) < 0

/-- Some bus has no `ranges`, or no entry for the address that reaches it. -/
def Fails (fdt : Fdt) (node : Int) (a : Nat) : Prop :=
  ∃ m b, Composed fdt (node, a) (m, b) ∧ 0 ≤ fdt.parentOffset (fdt.parentOffset m) ∧
    busMap fdt (fdt.parentOffset m) b = none

/-- The walk returns, with the composition of the buses or with an error, and each of its passes does
what the bus does. -/
structure Composes (fdt : Fdt) (node : Int) (addr : UInt64) : Prop where
  returns : ∀ fuel : Nat, node < fuel → ∃ r, ofTranslateAddress fdt fuel ⟨node, addr⟩ = some r ∧
    (∀ out : UInt64, r = .ok out ↔ Translates fdt node addr.toNat out.toNat) ∧
    ((∃ e, r = .error e) ↔ Fails fdt node addr.toNat)
  passes : ∀ (m : Int) (b : UInt64) (y : Int × Nat), Composed fdt (node, addr.toNat) (m, b.toNat) →
    Step fdt (m, b.toNat) y → ∃ a : UInt64, a.toNat = y.2 ∧ ofTranslatePass fdt ⟨m, b⟩ = .ok (.inr ⟨y.1, a⟩)

/-- Above a node, its parent first. -/
def Above (fdt : Fdt) : Int → Int → Prop := Relation.TransGen fun n p => 0 ≤ p ∧ p = fdt.parentOffset n

/-- Addresses and sizes of one cell or two. -/
structure Cells (fdt : Fdt) (bus : Int) : Prop where
  address : fdt.addressCells bus = 1 ∨ fdt.addressCells bus = 2
  size : fdt.sizeCells bus = 1 ∨ fdt.sizeCells bus = 2

/-- The entry ends below the top of the address space. -/
def Window.Ends (w : Window) : Prop := w.childBase + w.size < 2 ^ 64

instance (w : Window) : Decidable w.Ends := inferInstanceAs (Decidable (_ < _))

/-- The first entry that covers the address maps it to one of 64 bits, and either ends below the top
or agrees with the first one that does. -/
def BusFits (fdt : Fdt) (bus : Int) (a : Nat) : Prop :=
  ∀ ranges w, fdt.getprop bus "ranges" = .ok ranges → (windows fdt bus ranges).find? (·.Covers a) = some w →
    w.parentAddr a < 2 ^ 64 ∧ (w.Ends ∨ ∃ v, (windows fdt bus ranges).find? (fun v => v.Covers a ∧ v.Ends) = some v ∧
      v.parentAddr a % 2 ^ 64 = w.parentAddr a)

/-! ## One bus -/

theorem push_cell {x : UInt64} (small : x.toNat < 2 ^ 32) (c : UInt32) :
    (x <<< 32 ||| c.toUInt64).toNat = x.toNat * 2 ^ 32 + c.toNat := by
  have below : c.toNat < 2 ^ 32 := c.toNat_lt
  have joined := Nat.two_pow_add_eq_or_of_lt below x.toNat
  simp only [UInt64.toNat_or, UInt64.toNat_shiftLeft, UInt32.toNat_toUInt64, Nat.shiftLeft_eq]
  change (x.toNat * 2 ^ 32 % 2 ^ 64) ||| c.toNat = _
  rw [Nat.mod_eq_of_lt (by omega), Nat.mul_comm, ← joined]

theorem number_succ (prop : List UInt8) (first n : Nat) :
    number prop first (n + 1) = number prop first n * 2 ^ 32 + (Fdt.cell prop (first + n)).toNat := by
  rw [number, number, Fdt.cell, fdt32ToCpu_toNat, Nat.mul_add 4 n 1, Nat.mul_one, bigEndian_add]
  simp only [Nat.mul_add]

/-- One cell or two are read as the number that they stand for. -/
theorem ofReadCells_toNat (prop : List UInt8) (first : Nat) {n : Nat} (few : n = 1 ∨ n = 2) :
    (ofReadCells prop first n).toNat = number prop first n := by
  have one : (ofReadCells prop first 1).toNat = number prop first 1 := by
    rw [ofReadCells, push_cell (by simp [ofReadCells]), number_succ]
    rfl
  obtain rfl | rfl := few
  · exact one
  · have small : number prop first 1 < 2 ^ 32 := by
      rw [number_succ]
      have below := (Fdt.cell prop (first + 0)).toNat_lt
      simpa [number, bigEndian] using below
    rw [ofReadCells, push_cell (one ▸ small), one, ← number_succ]

/-- The test in 64 bits. -/
theorem test_iff (childBase size addr : UInt64) :
    (childBase ≤ addr ∧ addr < childBase + size) ↔
      (childBase.toNat ≤ addr.toNat ∧ addr.toNat < childBase.toNat + size.toNat) ∧
        childBase.toNat + size.toNat < 2 ^ 64 := by
  have below := addr.toNat_lt
  have below' := childBase.toNat_lt
  have below'' := size.toNat_lt
  rw [UInt64.le_iff_toNat_le, UInt64.lt_iff_toNat_lt, UInt64.toNat_add]
  omega

section Entries

variable {ranges : List UInt8} {ac pac sc : Nat}

/-- The loop takes the first entry that covers the address and ends below the top. -/
theorem matchRanges_eq (ac_ : ac = 1 ∨ ac = 2) (pac_ : pac = 1 ∨ pac = 2) (sc_ : sc = 1 ∨ sc = 2) (addr : UInt64)
    (i n : Nat) : matchRanges ranges ac pac sc addr i n =
      (((List.range' i n).map (windowAt ranges ac pac sc)).find? fun w => w.Covers addr.toNat ∧ w.Ends).map
        fun w => UInt64.ofNat (w.parentAddr addr.toNat) := by
  induction n generalizing i with
  | zero => rfl
  | succ n ih =>
      have childBase := ofReadCells_toNat ranges (i * (ac + pac + sc)) ac_
      have parentBase := ofReadCells_toNat ranges (i * (ac + pac + sc) + ac) pac_
      have size := ofReadCells_toNat ranges (i * (ac + pac + sc) + ac + pac) sc_
      have test : (ofReadCells ranges (i * (ac + pac + sc)) ac ≤ addr ∧ addr < ofReadCells ranges (i * (ac + pac + sc)) ac +
          ofReadCells ranges (i * (ac + pac + sc) + ac + pac) sc) ↔
          (windowAt ranges ac pac sc i).Covers addr.toNat ∧ (windowAt ranges ac pac sc i).Ends := by
        rw [test_iff, childBase, size]
        rfl
      rw [matchRanges, List.range'_succ, List.map_cons]
      by_cases taken : (windowAt ranges ac pac sc i).Covers addr.toNat ∧ (windowAt ranges ac pac sc i).Ends
      · rw [if_pos (test.2 taken), List.find?_cons_of_pos (by simpa using taken), Option.map_some, Option.some_inj]
        apply UInt64.toNat_inj.1
        have above := (test.2 taken).1
        rw [UInt64.toNat_add, UInt64.toNat_sub_of_le _ _ above, parentBase, childBase, UInt64.toNat_ofNat']
        rfl
      · rw [if_neg (mt test.1 taken), List.find?_cons_of_neg (by simpa using taken), ih]

end Entries

theorem find?_and {α : Type} {p q : α → Bool} {l : List α} {x : α} (found : l.find? p = some x) (also : q x) :
    l.find? (fun y => p y && q y) = some x := by
  obtain ⟨first, before, behind, rfl, others⟩ := List.find?_eq_some_iff_append.1 found
  apply List.find?_eq_some_iff_append.2
  refine ⟨by simp [first, also], before, behind, rfl, fun y earlier => ?_⟩
  have other : p y = false := by simpa using others y earlier
  simp [other]

section Bus

variable {fdt : Fdt} {m : Int} {addr : UInt64}

theorem pass_top (bus : 0 ≤ fdt.parentOffset m) (top : fdt.parentOffset (fdt.parentOffset m) < 0) :
    ofTranslatePass fdt ⟨m, addr⟩ = .ok (.inl addr) := by
  simp [ofTranslatePass, Int.not_lt.2 bus, top]

/-- The parent of a node that has a grandparent. -/
theorem parent_nonneg (inner : 0 ≤ fdt.parentOffset (fdt.parentOffset m)) : 0 ≤ fdt.parentOffset m := by
  have below := fdt.parent_lt _ inner
  omega

theorem nat_of_count {x : Int} (count : x = 1 ∨ x = 2) : ∃ n : Nat, x = n ∧ (n = 1 ∨ n = 2) := by
  obtain rfl | rfl := count
  · exact ⟨1, rfl, Or.inl rfl⟩
  · exact ⟨2, rfl, Or.inr rfl⟩

/-- A pass takes the first entry that covers the address and ends below the top. -/
theorem pass_bus (inner : 0 ≤ fdt.parentOffset (fdt.parentOffset m)) (cells : Cells fdt (fdt.parentOffset m))
    (cells' : Cells fdt (fdt.parentOffset (fdt.parentOffset m))) {ranges : List UInt8}
    (answer : fdt.getprop (fdt.parentOffset m) "ranges" = .ok ranges) (some_ : ranges ≠ []) :
    ofTranslatePass fdt ⟨m, addr⟩ =
      match (windows fdt (fdt.parentOffset m) ranges).find? fun w => w.Covers addr.toNat ∧ w.Ends with
      | none => .error (-einval)
      | some w => .ok (.inr ⟨fdt.parentOffset m, UInt64.ofNat (w.parentAddr addr.toNat)⟩) := by
  have bus := parent_nonneg inner
  obtain ⟨ac, ac_, count⟩ := nat_of_count cells.address
  obtain ⟨sc, sc_, count'⟩ := nat_of_count cells.size
  obtain ⟨pac, pac_, count''⟩ := nat_of_count cells'.address
  have total : ((ac : Int) + pac + sc).toNat = ac + pac + sc := by omega
  have valid : ¬ ((ac : Int) < 0 ∨ (sc : Int) < 0 ∨ (pac : Int) < 0) := by omega
  have matched := @matchRanges_eq ranges ac pac sc count count'' count' addr 0
  simp only [ofTranslatePass, Int.not_lt.2 bus, Int.not_lt.2 inner, ac_, sc_, pac_, valid, answer,
    List.length_eq_zero_iff, some_, total, windows, Int.toNat_natCast, if_false, matched, ← List.range_eq_range']
  by_cases short : ranges.length < (ac + pac + sc) * 4
  · rw [if_pos short, Nat.div_eq_of_lt short]
    rfl
  · rw [if_neg short]
    cases ((List.range (ranges.length / ((ac + pac + sc) * 4))).map (windowAt ranges ac pac sc)).find?
      fun w => w.Covers addr.toNat ∧ w.Ends <;> rfl

/-- A bus that fits: the pass stops where it has no entry, and otherwise maps the address. -/
theorem pass_of_fits (inner : 0 ≤ fdt.parentOffset (fdt.parentOffset m)) (cells : Cells fdt (fdt.parentOffset m))
    (cells' : Cells fdt (fdt.parentOffset (fdt.parentOffset m))) (fits : BusFits fdt (fdt.parentOffset m) addr.toNat) :
    match busMap fdt (fdt.parentOffset m) addr.toNat with
    | none => ∃ e, ofTranslatePass fdt ⟨m, addr⟩ = .error e
    | some b => ∃ a : UInt64, a.toNat = b ∧ ofTranslatePass fdt ⟨m, addr⟩ = .ok (.inr ⟨fdt.parentOffset m, a⟩) := by
  have bus := parent_nonneg inner
  have valid : ¬ (fdt.addressCells (fdt.parentOffset m) < 0 ∨ fdt.sizeCells (fdt.parentOffset m) < 0 ∨
      fdt.addressCells (fdt.parentOffset (fdt.parentOffset m)) < 0) := by
    have counted := cells.address
    have counted' := cells.size
    have counted'' := cells'.address
    omega
  cases answer : fdt.getprop (fdt.parentOffset m) "ranges" with
  | error err => simp [busMap, ofTranslatePass, answer, Int.not_lt.2 bus, Int.not_lt.2 inner, valid]
  | ok ranges =>
      cases ranges with
      | nil =>
          have same : busMap fdt (fdt.parentOffset m) addr.toNat = some addr.toNat := by simp [busMap, answer]
          rw [same]
          exact ⟨addr, rfl, by simp [ofTranslatePass, answer, Int.not_lt.2 bus, Int.not_lt.2 inner, valid]⟩
      | cons c ranges =>
          have pass := @pass_bus fdt m addr inner cells cells' (c :: ranges) answer (by simp)
          have mapped : busMap fdt (fdt.parentOffset m) addr.toNat = ((windows fdt (fdt.parentOffset m)
              (c :: ranges)).find? (·.Covers addr.toNat)).map (·.parentAddr addr.toNat) := by simp [busMap, answer]
          cases found : (windows fdt (fdt.parentOffset m) (c :: ranges)).find? (·.Covers addr.toNat) with
          | none =>
              have none_ : (windows fdt (fdt.parentOffset m) (c :: ranges)).find?
                  (fun w => w.Covers addr.toNat ∧ w.Ends) = none := by
                apply List.find?_eq_none.2
                intro w member both
                have outside := List.find?_eq_none.1 found w member
                simp at both outside
                exact outside both.1
              rw [mapped, found]
              exact ⟨-einval, by rw [pass, none_]⟩
          | some w =>
              rw [mapped, found]
              obtain ⟨small, ends | ⟨v, taken, same⟩⟩ := fits _ w answer found
              · have taken := find?_and (q := fun w => decide w.Ends) found (by simpa using ends)
                simp only [← Bool.decide_and] at taken
                refine ⟨UInt64.ofNat (w.parentAddr addr.toNat), ?_, by rw [pass, taken]⟩
                rw [UInt64.toNat_ofNat', Nat.mod_eq_of_lt small]
              · refine ⟨UInt64.ofNat (v.parentAddr addr.toNat), ?_, by rw [pass, taken]⟩
                rw [UInt64.toNat_ofNat', same]

/-- A pass that maps the address as the bus does. -/
theorem fits_of_pass (inner : 0 ≤ fdt.parentOffset (fdt.parentOffset m)) (cells : Cells fdt (fdt.parentOffset m))
    (cells' : Cells fdt (fdt.parentOffset (fdt.parentOffset m)))
    (maps : ∀ b, busMap fdt (fdt.parentOffset m) addr.toNat = some b →
      ∃ a : UInt64, a.toNat = b ∧ ofTranslatePass fdt ⟨m, addr⟩ = .ok (.inr ⟨fdt.parentOffset m, a⟩)) :
    BusFits fdt (fdt.parentOffset m) addr.toNat := by
  intro ranges w answer found
  cases ranges with
  | nil => simp [windows] at found
  | cons c ranges =>
      have pass := @pass_bus fdt m addr inner cells cells' (c :: ranges) answer (by simp)
      obtain ⟨a, value, taken⟩ := maps (w.parentAddr addr.toNat) (by simp [busMap, answer, found])
      refine ⟨value ▸ a.toNat_lt, Or.inr ?_⟩
      rw [pass] at taken
      split at taken
      next => cases taken
      next v first =>
        simp only [Except.ok.injEq, Sum.inr.injEq, Walk.mk.injEq, true_and] at taken
        refine ⟨v, first, ?_⟩
        rw [← value, ← taken, UInt64.toNat_ofNat']

end Bus

/-! ## The walk -/

section Composition

variable {fdt : Fdt} {node m : Int} {a b out : Nat}

theorem composed_above (composed : Composed fdt (node, a) (m, b)) (inner : 0 ≤ fdt.parentOffset (fdt.parentOffset m)) :
    Above fdt node (fdt.parentOffset m) ∧ Above fdt node (fdt.parentOffset (fdt.parentOffset m)) := by
  have up : Relation.ReflTransGen (fun n p => 0 ≤ p ∧ p = fdt.parentOffset n) node m := by
    refine Relation.ReflTransGen.lift Prod.fst ?_ _ _ composed
    intro x y step
    exact ⟨step.2.1 ▸ parent_nonneg step.1, step.2.1⟩
  have first : Above fdt node (fdt.parentOffset m) := Relation.TransGen.tail' up ⟨parent_nonneg inner, rfl⟩
  exact ⟨first, first.tail ⟨inner, rfl⟩⟩

theorem step_unique {x y z : Int × Nat} (step : Step fdt x y) (step' : Step fdt x z) : y = z := by
  have node : y.1 = z.1 := step.2.1.trans step'.2.1.symm
  have mapped := step'.2.2
  rw [← node, step.2.2] at mapped
  exact Prod.ext node (Option.some.inj mapped)

theorem translates_top (top : fdt.parentOffset (fdt.parentOffset node) < 0) : Translates fdt node a out ↔ out = a := by
  constructor
  · rintro ⟨m, composed, -⟩
    obtain same | ⟨y, step, -⟩ := composed.cases_head
    · exact (Prod.ext_iff.1 same).2.symm
    · exact absurd step.1 (Int.not_le.2 top)
  · rintro rfl
    exact ⟨node, Relation.ReflTransGen.refl, top⟩

theorem fails_top (top : fdt.parentOffset (fdt.parentOffset node) < 0) : ¬ Fails fdt node a := by
  rintro ⟨m, b, composed, inner, -⟩
  obtain same | ⟨y, step, -⟩ := composed.cases_head
  · obtain rfl := (Prod.ext_iff.1 same).1
    exact absurd inner (Int.not_le.2 top)
  · exact absurd step.1 (Int.not_le.2 top)

theorem translates_step {y : Int × Nat} (step : Step fdt (node, a) y) :
    Translates fdt node a out ↔ Translates fdt y.1 y.2 out := by
  constructor
  · rintro ⟨m, composed, top⟩
    obtain same | ⟨z, step', rest⟩ := composed.cases_head
    · obtain rfl := (Prod.ext_iff.1 same).1
      exact absurd step.1 (Int.not_le.2 top)
    · exact ⟨m, step_unique step' step ▸ rest, top⟩
  · rintro ⟨m, composed, top⟩
    exact ⟨m, composed.head step, top⟩

theorem fails_step {y : Int × Nat} (step : Step fdt (node, a) y) : Fails fdt node a ↔ Fails fdt y.1 y.2 := by
  constructor
  · rintro ⟨m, b, composed, inner, stuck⟩
    obtain same | ⟨z, step', rest⟩ := composed.cases_head
    · obtain ⟨rfl, rfl⟩ := Prod.ext_iff.1 same
      have mapped := step.2.2
      rw [step.2.1, stuck] at mapped
      cases mapped
    · exact ⟨m, b, step_unique step' step ▸ rest, inner, stuck⟩
  · rintro ⟨m, b, composed, inner, stuck⟩
    exact ⟨m, b, composed.head step, inner, stuck⟩

/-- A node whose bus has no entry for the address. -/
theorem translates_stuck (inner : 0 ≤ fdt.parentOffset (fdt.parentOffset node))
    (stuck : busMap fdt (fdt.parentOffset node) a = none) : ¬ Translates fdt node a out := by
  rintro ⟨m, composed, top⟩
  obtain same | ⟨y, step, -⟩ := composed.cases_head
  · obtain rfl := (Prod.ext_iff.1 same).1
    exact absurd inner (Int.not_le.2 top)
  · have mapped := step.2.2
    rw [step.2.1, stuck] at mapped
    cases mapped

end Composition

/-- Where the buses fit, the walk returns what they compose to. -/
theorem returns_of_fits {fdt : Fdt} {node : Int} {addr : UInt64} (bus : 0 ≤ fdt.parentOffset node)
    (cells : ∀ p, Above fdt node p → Cells fdt p)
    (fits : ∀ m b, Composed fdt (node, addr.toNat) (m, b) → 0 ≤ fdt.parentOffset (fdt.parentOffset m) →
      BusFits fdt (fdt.parentOffset m) b) {fuel : Nat} (enough : node < fuel) :
    ∃ r, ofTranslateAddress fdt fuel ⟨node, addr⟩ = some r ∧
      (∀ out : UInt64, r = .ok out ↔ Translates fdt node addr.toNat out.toNat) ∧
      ((∃ e, r = .error e) ↔ Fails fdt node addr.toNat) := by
  induction fuel generalizing node addr with
  | zero =>
      have below := fdt.parent_lt node bus
      omega
  | succ fuel ih =>
      by_cases top : fdt.parentOffset (fdt.parentOffset node) < 0
      · refine ⟨.ok addr, by simp [ofTranslateAddress, pass_top bus top], fun out => ?_, ?_⟩
        · rw [translates_top top, Except.ok.injEq, UInt64.toNat_inj]
          exact eq_comm
        · simp [fails_top top]
      · have inner := Int.not_lt.1 top
        obtain ⟨above, above'⟩ := composed_above (a := addr.toNat) Relation.ReflTransGen.refl inner
        have pass := pass_of_fits inner (cells _ above) (cells _ above') (fits node _ Relation.ReflTransGen.refl inner)
        cases mapped : busMap fdt (fdt.parentOffset node) addr.toNat with
        | none =>
            rw [mapped] at pass
            obtain ⟨e, pass⟩ := pass
            refine ⟨.error e, by simp [ofTranslateAddress, pass], fun out => ?_, ?_⟩
            · simp [translates_stuck inner mapped]
            · have fails : Fails fdt node addr.toNat := ⟨node, _, Relation.ReflTransGen.refl, inner, mapped⟩
              simp [fails]
        | some b =>
            rw [mapped] at pass
            obtain ⟨a, rfl, pass⟩ := pass
            have step : Step fdt (node, addr.toNat) (fdt.parentOffset node, a.toNat) := ⟨inner, rfl, mapped⟩
            have below := fdt.parent_lt node bus
            obtain ⟨r, result, ok, error⟩ := @ih (fdt.parentOffset node) a inner
              (fun p higher => cells p (higher.head ⟨bus, rfl⟩)) (fun m b composed => fits m b (composed.head step))
              (by omega)
            refine ⟨r, by simp [ofTranslateAddress, pass, result], fun out => ?_, ?_⟩
            · rw [translates_step step]
              exact ok out
            · rw [fails_step step]
              exact error

theorem Composes.small {fdt : Fdt} {node m : Int} {addr : UInt64} {b : Nat} (composes : Composes fdt node addr)
    (composed : Composed fdt (node, addr.toNat) (m, b)) : ∃ a : UInt64, a.toNat = b := by
  generalize from_ : (m, b) = x at composed
  induction composed generalizing m b with
  | refl =>
      obtain ⟨-, rfl⟩ := Prod.ext_iff.1 from_
      exact ⟨addr, rfl⟩
  | @tail y z before step ih =>
      obtain ⟨c, value⟩ := ih (m := y.1) (b := y.2) rfl
      obtain ⟨a, same, -⟩ := composes.passes y.1 c z (value ▸ before) (value ▸ step)
      exact ⟨a, by rw [same, ← from_]⟩

/-- The walk composes the buses exactly where each of them fits. -/
theorem ofTranslateAddress_composes_iff (fdt : Fdt) (node : Int) (addr : UInt64) (bus : 0 ≤ fdt.parentOffset node)
    (cells : ∀ p, Above fdt node p → Cells fdt p) :
    Composes fdt node addr ↔ ∀ m b, Composed fdt (node, addr.toNat) (m, b) →
      0 ≤ fdt.parentOffset (fdt.parentOffset m) → BusFits fdt (fdt.parentOffset m) b := by
  constructor
  · intro composes m b composed inner
    obtain ⟨above, above'⟩ := composed_above composed inner
    obtain ⟨a, rfl⟩ := composes.small composed
    apply fits_of_pass inner (cells _ above) (cells _ above')
    intro b mapped
    exact composes.passes m a (fdt.parentOffset m, b) composed ⟨inner, rfl, mapped⟩
  · intro fits
    refine ⟨fun fuel enough => returns_of_fits bus cells fits enough, fun m b y composed step => ?_⟩
    obtain ⟨above, above'⟩ := composed_above composed step.1
    have pass := pass_of_fits step.1 (cells _ above) (cells _ above') (fits m _ composed step.1)
    have mapped := step.2.2
    rw [step.2.1] at mapped
    rw [mapped] at pass
    rw [step.2.1]
    exact pass

/-- The resource that is made of an entry of `reg` starts where the buses take the entry's address. -/
theorem ofGetAddressResource_start {fdt : Fdt} {fuel : Nat} {node parent : Int} {index : Nat} {res : Resource}
    (cells : Cells fdt parent) (enough : node < fuel) (composes : ∀ addr, Composes fdt node addr)
    (got : ofGetAddressResource fdt fuel node parent index = some (.ok res)) :
    ∃ reg, fdt.getprop node "reg" = .ok reg ∧
      Translates fdt node (number reg (index * (fdt.addressCells parent + fdt.sizeCells parent).toNat)
        (fdt.addressCells parent).toNat) res.start.toNat := by
  have few : (fdt.addressCells parent).toNat = 1 ∨ (fdt.addressCells parent).toNat = 2 := by
    have counted := cells.address
    omega
  rw [ofGetAddressResource] at got
  split at got
  next => cases got
  next =>
    cases answer : fdt.getprop node "reg" with
    | error err => simp [answer] at got
    | ok reg =>
        simp only [answer] at got
        split at got
        next => cases got
        next =>
          obtain ⟨r, translated, got⟩ := Option.bind_eq_some_iff.1 got
          cases r with
          | error e => cases got
          | ok addr =>
              obtain rfl := Except.ok.inj (Option.some.inj got)
              obtain ⟨r, result, ok, -⟩ := (composes _).returns fuel enough
              obtain rfl := Option.some.inj (translated.symm.trans result)
              have start := (ok addr).1 rfl
              rw [ofReadCells_toNat reg _ few] at start
              exact ⟨reg, rfl, start⟩

/-- A device at offset 16, on a bus at offset 8 whose one entry is given by its cells. -/
def oneBus (ranges : List UInt8) (short : ranges.length < 2 ^ 31) : Fdt where
  pathOffset _ := -1
  parentOffset node := if node = 16 then 8 else if node = 8 then 0 else -1
  getName _ := none
  nodeOffsetByPhandle _ := -1
  getprop node name :=
    if name = "ranges" ∧ node = 8 then .ok ranges
    else if name = "#address-cells" ∨ name = "#size-cells" then .ok [0, 0, 0, 2]
    else .error .notfound
  int node name value answer := by
    split at answer
    · obtain rfl := Except.ok.inj answer
      exact short
    · split at answer
      · obtain rfl := Except.ok.inj answer
        decide
      · cases answer
  parent_lt node inner := by
    split
    · omega
    · split
      · omega
      · omega

theorem oneBus_cells (ranges : List UInt8) (short : ranges.length < 2 ^ 31) (node : Int) :
    Cells (oneBus ranges short) node := by
  have two (name : String) (count : name = "#address-cells" ∨ name = "#size-cells") :
      (oneBus ranges short).cells node name = .value 4 2 := by
    obtain rfl | rfl := count <;> rfl
  refine ⟨Or.inr ?_, Or.inr ?_⟩
  · rw [Fdt.addressCells, two _ (Or.inl rfl)]
    rfl
  · rw [Fdt.sizeCells, two _ (Or.inr rfl)]
    rfl

/-- `ranges = <0x0 0x8000000  0x0 0x48000000  0x0 0x1000>`. -/
def lowRanges : List UInt8 := [0, 0, 0, 0, 8, 0, 0, 0, 0, 0, 0, 0, 0x48, 0, 0, 0, 0, 0, 0, 0, 0, 0, 0x10, 0]

theorem ofTranslateAddress_composes_low :
    ofTranslateAddress (oneBus lowRanges (by decide)) 17 ⟨16, 0x8000010⟩ = some (.ok 0x48000010) ∧
      Composes (oneBus lowRanges (by decide)) 16 0x8000010 := by
  refine ⟨by decide, (ofTranslateAddress_composes_iff _ _ _ (by decide) fun p _ => oneBus_cells _ _ p).2 ?_⟩
  intro m b _ inner ranges w answer found
  have device : m = 16 := by
    by_contra other
    have bus := parent_nonneg inner
    simp only [oneBus, other, if_false] at inner bus
    split at inner <;> simp_all
  subst device
  obtain rfl := Except.ok.inj answer
  have entry : windows (oneBus lowRanges (by decide)) 8 lowRanges = [⟨0x8000000, 0x48000000, 0x1000⟩] := by decide
  have member := List.mem_of_find?_eq_some found
  have covers : w.Covers b := by simpa using List.find?_some found
  obtain rfl := List.mem_singleton.1 (entry ▸ member : w ∈ [_])
  obtain ⟨low, high⟩ := covers
  refine ⟨?_, Or.inl (by decide)⟩
  simp only [Window.parentAddr] at low high ⊢
  omega

/-- `ranges = <0xffffffff 0x0  0x0 0x40000000  0x1 0x0>`. -/
def topRanges : List UInt8 :=
  [0xff, 0xff, 0xff, 0xff, 0, 0, 0, 0, 0, 0, 0, 0, 0x40, 0, 0, 0, 0, 0, 0, 1, 0, 0, 0, 0]

/-- The entry covers the address, and the walk fails. -/
theorem ofTranslateAddress_top : (∀ p, Cells (oneBus topRanges (by decide)) p) ∧
    ofTranslateAddress (oneBus topRanges (by decide)) 17 ⟨16, 0xffffffff00001000⟩ = some (.error (-einval)) ∧
    Translates (oneBus topRanges (by decide)) 16 0xffffffff00001000 0x40001000 ∧
    ¬ Composes (oneBus topRanges (by decide)) 16 0xffffffff00001000 := by
  have failed : ofTranslateAddress (oneBus topRanges (by decide)) 17 ⟨16, 0xffffffff00001000⟩ = some (.error (-einval)) := by
    decide
  have mapped : Translates (oneBus topRanges (by decide)) 16 0xffffffff00001000 0x40001000 :=
    ⟨8, Relation.ReflTransGen.single ⟨by decide, by decide, by decide⟩, by decide⟩
  refine ⟨oneBus_cells _ _, failed, mapped, fun composes => ?_⟩
  obtain ⟨r, result, ok, -⟩ := composes.returns 17 (by decide)
  obtain rfl := Option.some.inj (failed.symm.trans result)
  cases (ok 0x40001000).2 mapped

end Minus.Driver.Of
