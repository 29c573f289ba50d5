/-
# Mm.MemblockFdt — the memory nodes of the device tree

`memblock_fdt_register_one` of `kernel/mm/memblock.c` goes through a `reg` property
cell by cell: as many as an address takes, then as many as a size takes, until the
index is behind the length.  It tests the index only before an address, and takes
the cell counts as `fdt_address_cells` and `fdt_size_cells` return them, error codes
too.  `of_get_address_count` tests both.

The property is read as it should be exactly under `Readable`
(`memblockFdtRegisterOne_parses_iff`).  Reads are kept as a list of the indices.
-/
import Mathlib.Data.List.Range
import Minus.Mm.Memblock

namespace Minus.Mm.Boot

set_option autoImplicit false

/-! ## The cell counts -/

/-- `FDT_MAX_NCELLS`. -/
def fdtMaxNcells : UInt32 := 4

/-- One of the codes `FDT_ERR_…`, up to `FDT_ERR_MAX`. -/
structure FdtErr where
  code : Nat
  known : 1 ≤ code ∧ code ≤ 18

/-- `FDT_ERR_NOTFOUND`. -/
def FdtErr.notfound : FdtErr := ⟨1, by decide⟩

/-- `-FDT_ERR_NOTFOUND`. -/
def fdtErrNotfound : Int := -1

/-- `-FDT_ERR_BADNCELLS`. -/
def fdtErrBadncells : Int := -14

/-- What `fdt_getprop` answers: an error, or a value with its length and first cell. -/
inductive PropAnswer where
  | missing (err : FdtErr)
  | value (len : Int) (c : UInt32)

def fdtCells : PropAnswer → Int
  | .missing err => -err.code
  | .value len c => if len ≠ 4 then fdtErrBadncells else if fdtMaxNcells < c then fdtErrBadncells else c.toNat

def fdtAddressCells (prop : PropAnswer) : Int :=
  if fdtCells prop = 0 then fdtErrBadncells else if fdtCells prop = fdtErrNotfound then 2 else fdtCells prop

def fdtSizeCells (prop : PropAnswer) : Int :=
  if fdtCells prop = fdtErrNotfound then 1 else fdtCells prop

/-! ## memblock_fdt_register_one -/

/-- A `reg` property: the bytes from its address on, those behind it too, and its length, an `int`. -/
structure RegProp where
  byte : Nat → UInt8
  len : UInt64
  int : len.toNat < 2 ^ 31

def fdt32ToCpu (x₀ x₁ x₂ x₃ : UInt8) : UInt32 :=
  (x₀.toUInt64 <<< 24 ||| x₁.toUInt64 <<< 16 ||| x₂.toUInt64 <<< 8 ||| x₃.toUInt64).toUInt32

/-- `fdt32_to_cpu(reg[i])`. -/
def RegProp.cell (reg : RegProp) (i : UInt64) : UInt32 :=
  fdt32ToCpu (reg.byte (4 * i.toNat)) (reg.byte (4 * i.toNat + 1)) (reg.byte (4 * i.toNat + 2))
    (reg.byte (4 * i.toNat + 3))

/-- The statics of the file. -/
structure BootState where
  memblock : Memblock
  memoryStart : UInt64
  memoryEnd : UInt64

def memblockAddMemory (s : BootState) (base size : UInt64) : BootState :=
  if maxMemory ≤ s.memblock.memory.length ∨ size = 0 then s
  else
    { memblock := { s.memblock with memory := s.memblock.memory ++ [⟨base, size⟩] }
      memoryStart := if base < s.memoryStart then base else s.memoryStart
      memoryEnd := if s.memoryEnd < base + size then base + size else s.memoryEnd }

/-- The index, and the indices read so far. -/
structure Cursor where
  i : UInt64
  reads : List UInt64

/-- `for (…; i < j; i++) value = (value << 32) + fdt32_to_cpu(reg[i]);`. -/
def readCells (reg : RegProp) (j : UInt64) (c : Cursor) (value : UInt64) : Cursor × UInt64 :=
  if c.i < j then readCells reg j ⟨c.i + 1, c.reads ++ [c.i]⟩ (value <<< 32 + (reg.cell c.i).toUInt64) else (c, value)
termination_by j.toNat - c.i.toNat
decreasing_by
  have less := UInt64.lt_iff_toNat_lt.1 ‹_›
  have below := j.toNat_lt
  rw [UInt64.toNat_add, Nat.mod_eq_of_lt (by simpa using by omega)]
  simp
  omega

structure Parse where
  cursor : Cursor
  boot : BootState

/-- The body of the loop.  The counts are `int` and converted to 64 bits. -/
def registerEntry (reg : RegProp) (addressCells sizeCells : Int) (p : Parse) : Parse :=
  let (c, addr) := readCells reg (p.cursor.i + UInt64.ofInt addressCells) p.cursor 0
  let (c, size) := readCells reg (c.i + UInt64.ofInt sizeCells) c 0
  ⟨c, memblockAddMemory p.boot addr size⟩

def registerLoop (reg : RegProp) (addressCells sizeCells : Int) : Nat → Parse → Option Parse
  | 0, _ => none
  | fuel + 1, p =>
      if p.cursor.i * 4 < reg.len then registerLoop reg addressCells sizeCells fuel (registerEntry reg addressCells sizeCells p)
      else some p

/-- `memblock_fdt_register_one`. -/
def memblockFdtRegisterOne (fuel : Nat) (reg : RegProp) (addressCells sizeCells : Int) (s : BootState) : Option Parse :=
  registerLoop reg addressCells sizeCells fuel ⟨⟨0, []⟩, s⟩

/-! ## What the property encodes -/

/-- The number that `n` bytes stand for. -/
def bigEndian (byte : Nat → UInt8) (first : Nat) : Nat → Nat
  | 0 => 0
  | n + 1 => bigEndian byte first n * 256 + (byte (first + n)).toNat

/-- The entry at an index, with `a` cells for the address and `c` for the size. -/
def entryAt (reg : RegProp) (a c k : Nat) : Nat × Nat :=
  (bigEndian reg.byte (4 * (k * (a + c))) (4 * a), bigEndian reg.byte (4 * (k * (a + c) + a)) (4 * c))

/-- The entries that lie in the property. -/
def encoded (reg : RegProp) (a c : Nat) : List (Nat × Nat) :=
  (List.range (reg.len.toNat / (4 * (a + c)))).map (entryAt reg a c)

/-- `memory[]`, as pairs of numbers. -/
def BootState.pairs (s : BootState) : List (Nat × Nat) :=
  s.memblock.memory.map fun m => (m.base.toNat, m.size.toNat)

/-- Valid cell counts. -/
def ValidCells (addressCells sizeCells : Int) : Prop := 0 < addressCells ∧ 0 ≤ sizeCells

instance (addressCells sizeCells : Int) : Decidable (ValidCells addressCells sizeCells) := instDecidableAnd

/-- Only the bytes of the property were read, and just the pairs that it encodes are new. -/
structure Parses (reg : RegProp) (addressCells sizeCells : Int) (s : BootState) (p : Parse) : Prop where
  inside : ∀ n ∈ p.cursor.reads, 4 * n.toNat + 4 ≤ reg.len.toNat
  registered : p.boot.pairs =
    s.pairs ++ if ValidCells addressCells sizeCells then encoded reg addressCells.toNat sizeCells.toNat else []

/-- The properties that are read as they should be.  The last case is an error code in place of the
count of a size that takes back no more than the address. -/
def Readable (reg : RegProp) (addressCells sizeCells : Int) (s : BootState) : Prop :=
  reg.len = 0 ∨
    ValidCells addressCells sizeCells ∧ 4 * (addressCells.toNat + sizeCells.toNat) ∣ reg.len.toNat ∧
      (∀ e ∈ encoded reg addressCells.toNat sizeCells.toNat, e.1 < 2 ^ 64 ∧ 0 < e.2 ∧ e.2 < 2 ^ 64) ∧
      (encoded reg addressCells.toNat sizeCells.toNat).length ≤ maxMemory - s.memblock.memory.length ∨
    0 < addressCells ∧ sizeCells < 0 ∧ -sizeCells ≤ addressCells ∧ 4 * addressCells.toNat ∣ reg.len.toNat

section Read

variable {reg : RegProp} {addressCells sizeCells : Int} {s : BootState} {p out : Parse} {c : Cursor} {i j value : UInt64}
variable {a b k n : Nat}

/-! ## One number -/

theorem bigEndian_add (byte : Nat → UInt8) (first n : Nat) :
    bigEndian byte first (n + 4) = bigEndian byte first n * 2 ^ 32 + ((byte (first + n)).toNat * 2 ^ 24 +
      (byte (first + n + 1)).toNat * 2 ^ 16 + (byte (first + n + 2)).toNat * 2 ^ 8 + (byte (first + n + 3)).toNat) := by
  simp only [bigEndian, ← Nat.add_assoc]
  omega

theorem fdt32ToCpu_toNat (x₀ x₁ x₂ x₃ : UInt8) : (fdt32ToCpu x₀ x₁ x₂ x₃).toNat =
    x₀.toNat * 2 ^ 24 + x₁.toNat * 2 ^ 16 + x₂.toNat * 2 ^ 8 + x₃.toNat := by
  have h₀ := x₀.toNat_lt
  have h₁ := x₁.toNat_lt
  have h₂ := x₂.toNat_lt
  have h₃ := x₃.toNat_lt
  -- the bytes do not overlap
  have join₁ : x₀.toNat * 2 ^ 24 ||| x₁.toNat * 2 ^ 16 = x₀.toNat * 2 ^ 24 + x₁.toNat * 2 ^ 16 := by
    have := Nat.two_pow_add_eq_or_of_lt (i := 24) (b := x₁.toNat * 2 ^ 16) (by omega) x₀.toNat
    rw [Nat.mul_comm, ← this]
  have join₂ : x₀.toNat * 2 ^ 24 + x₁.toNat * 2 ^ 16 ||| x₂.toNat * 2 ^ 8 =
      x₀.toNat * 2 ^ 24 + x₁.toNat * 2 ^ 16 + x₂.toNat * 2 ^ 8 := by
    have := Nat.two_pow_add_eq_or_of_lt (i := 16) (b := x₂.toNat * 2 ^ 8) (by omega) (x₀.toNat * 2 ^ 8 + x₁.toNat)
    rw [show x₀.toNat * 2 ^ 24 + x₁.toNat * 2 ^ 16 = 2 ^ 16 * (x₀.toNat * 2 ^ 8 + x₁.toNat) by omega, ← this]
  have join₃ : x₀.toNat * 2 ^ 24 + x₁.toNat * 2 ^ 16 + x₂.toNat * 2 ^ 8 ||| x₃.toNat =
      x₀.toNat * 2 ^ 24 + x₁.toNat * 2 ^ 16 + x₂.toNat * 2 ^ 8 + x₃.toNat := by
    have := Nat.two_pow_add_eq_or_of_lt (i := 8) (b := x₃.toNat) h₃ (x₀.toNat * 2 ^ 16 + x₁.toNat * 2 ^ 8 + x₂.toNat)
    rw [show x₀.toNat * 2 ^ 24 + x₁.toNat * 2 ^ 16 + x₂.toNat * 2 ^ 8 =
      2 ^ 8 * (x₀.toNat * 2 ^ 16 + x₁.toNat * 2 ^ 8 + x₂.toNat) by omega, ← this]
  simp only [fdt32ToCpu, UInt64.toNat_toUInt32, UInt64.toNat_or, UInt64.toNat_shiftLeft, UInt8.toNat_toUInt64,
    Nat.shiftLeft_eq]
  rw [Nat.mod_eq_of_lt (a := x₀.toNat * _), Nat.mod_eq_of_lt (a := x₁.toNat * _), Nat.mod_eq_of_lt (a := x₂.toNat * _)]
  · show (x₀.toNat * 2 ^ 24 ||| x₁.toNat * 2 ^ 16 ||| x₂.toNat * 2 ^ 8 ||| x₃.toNat) % 2 ^ 32 = _
    rw [join₁, join₂, join₃]
    omega
  · show x₂.toNat * 2 ^ 8 < 2 ^ 64
    omega
  · show x₁.toNat * 2 ^ 16 < 2 ^ 64
    omega
  · show x₀.toNat * 2 ^ 24 < 2 ^ 64
    omega

/-- One more cell. -/
theorem RegProp.bigEndian_cell (reg : RegProp) (first n : Nat) (i : UInt64) (at_ : 4 * i.toNat = first + n) :
    bigEndian reg.byte first (n + 4) = bigEndian reg.byte first n * 2 ^ 32 + (reg.cell i).toNat := by
  rw [bigEndian_add, RegProp.cell, fdt32ToCpu_toNat, at_]

theorem push_cell_toNat (value : UInt64) (cell : UInt32) :
    (value <<< 32 + cell.toUInt64).toNat = (value.toNat * 2 ^ 32 + cell.toNat) % 2 ^ 64 := by
  simp [Nat.shiftLeft_eq]

theorem succ_toNat (less : i < j) : (i + 1).toNat = i.toNat + 1 := by
  have less_ := UInt64.lt_iff_toNat_lt.1 less
  have below := j.toNat_lt
  rw [UInt64.toNat_add]
  exact Nat.mod_eq_of_lt (by simpa using by omega)

/-- No cell is read where the index is there already. -/
theorem readCells_skip (reg : RegProp) (behind : j ≤ c.i) : readCells reg j c value = (c, value) := by
  rw [readCells, if_neg (UInt64.not_lt.2 behind)]

/-- **One number**: the cells up to `j` are read, and their value is taken, in 64 bits. -/
theorem readCells_spec (reg : RegProp) (first n : Nat) (at_ : 4 * c.i.toNat = first + n) (le : c.i ≤ j)
    (value_ : value.toNat = bigEndian reg.byte first n % 2 ^ 64) :
    (readCells reg j c value).1.i = j ∧
      (∀ k, k ∈ (readCells reg j c value).1.reads ↔ k ∈ c.reads ∨ c.i ≤ k ∧ k < j) ∧
      (readCells reg j c value).2.toNat = bigEndian reg.byte first (n + 4 * (j.toNat - c.i.toNat)) % 2 ^ 64 := by
  fun_induction readCells reg j c value generalizing n with
  | case1 c value less ih =>
      have next := succ_toNat less
      have less_ := UInt64.lt_iff_toNat_lt.1 less
      obtain ⟨stop, reads, result⟩ := ih (n + 4) (by simp only [next]; omega)
        (UInt64.le_iff_toNat_le.2 (by simp only [next]; omega)) (by
          rw [push_cell_toNat, reg.bigEndian_cell first n c.i at_, value_]
          omega)
      refine ⟨stop, fun k => ?_, ?_⟩
      · rw [reads]
        simp only [List.mem_append, List.mem_singleton, or_assoc]
        refine or_congr_right ?_
        simp only [UInt64.le_iff_toNat_le, UInt64.lt_iff_toNat_lt, next, ← UInt64.toNat_inj]
        omega
      · rw [result]
        congr 2
        simp only [next]
        omega
  | case2 c value stop =>
      have same : c.i = j := UInt64.le_antisymm le (UInt64.not_lt.1 stop)
      simp [same, value_]

/-! ## One entry -/

/-- The counts lead from one entry to the next, `a` and `b` cells on.  An error code in place of the size
takes nothing back as long as the address is before it. -/
structure Advances (addressCells sizeCells : Int) (a b : Nat) : Prop where
  address : addressCells = a
  some_ : 0 < a
  few : a ≤ 4 ∧ b ≤ 4
  size : sizeCells = b ∨ b = 0 ∧ sizeCells < 0 ∧ -sizeCells ≤ a

/-- The index plus a count, converted to 64 bits. -/
theorem add_ofInt_toNat (i : UInt64) (cells : Int) :
    ((i + UInt64.ofInt cells).toNat : Int) = (i.toNat + cells) % 2 ^ 64 := by
  simp [UInt64.ofInt]
  omega

/-- A number of `count` cells. -/
structure ReadTo (reg : RegProp) (c : Cursor) (count : Nat) (r : Cursor × UInt64) : Prop where
  i : r.1.i.toNat = c.i.toNat + count
  reads : ∀ n, n ∈ r.1.reads ↔ n ∈ c.reads ∨ c.i ≤ n ∧ n.toNat < c.i.toNat + count
  value : r.2 = UInt64.ofNat (bigEndian reg.byte (4 * c.i.toNat) (4 * count))

theorem readCells_count (reg : RegProp) (c : Cursor) (count : Nat) (low : c.i.toNat + count < 2 ^ 64) :
    ReadTo reg c count (readCells reg (c.i + UInt64.ofInt count) c 0) := by
  have stop : (c.i + UInt64.ofInt count).toNat = c.i.toNat + count := by
    have := add_ofInt_toNat c.i count
    omega
  have le : c.i ≤ c.i + UInt64.ofInt count := UInt64.le_iff_toNat_le.2 (by omega)
  obtain ⟨index, reads, value⟩ := readCells_spec reg (4 * c.i.toNat) 0 rfl le
    (show (0 : UInt64).toNat = bigEndian reg.byte (4 * c.i.toNat) 0 % 2 ^ 64 from rfl)
  refine ⟨by rw [index, stop], fun n => by rw [reads, UInt64.lt_iff_toNat_lt, stop], UInt64.toNat_inj.1 ?_⟩
  rw [value, stop, UInt64.toNat_ofNat', Nat.zero_add, Nat.add_sub_cancel_left]

/-- An error code in place of a count, where it takes nothing back. -/
theorem readCells_error (reg : RegProp) (c : Cursor) (negative : sizeCells < 0) (back : -sizeCells ≤ c.i.toNat) :
    ReadTo reg c 0 (readCells reg (c.i + UInt64.ofInt sizeCells) c 0) := by
  have behind : c.i + UInt64.ofInt sizeCells ≤ c.i := by
    have := add_ofInt_toNat c.i sizeCells
    have below := c.i.toNat_lt
    exact UInt64.le_iff_toNat_le.2 (by omega)
  rw [readCells_skip reg behind]
  refine ⟨rfl, fun n => ?_, rfl⟩
  have none_ : ¬ (c.i ≤ n ∧ n.toNat < c.i.toNat + 0) := fun inside =>
    absurd (UInt64.le_iff_toNat_le.1 inside.1) (Nat.not_le.2 inside.2)
  exact (or_iff_left none_).symm

/-- Registering the pairs of a list. -/
def register (s : BootState) (l : List (Nat × Nat)) : BootState :=
  l.foldl (fun s e => memblockAddMemory s (UInt64.ofNat e.1) (UInt64.ofNat e.2)) s

theorem register_append (s : BootState) (l l' : List (Nat × Nat)) : register s (l ++ l') = register (register s l) l' :=
  List.foldl_append

/-- **One entry** is read as it is encoded. -/
theorem registerEntry_spec (reg : RegProp) (advances : Advances addressCells sizeCells a b) (at_ : p.cursor.i.toNat = k * (a + b))
    (low : k * (a + b) < 2 ^ 62) :
    (registerEntry reg addressCells sizeCells p).cursor.i.toNat = (k + 1) * (a + b) ∧
      (∀ n, n ∈ (registerEntry reg addressCells sizeCells p).cursor.reads ↔
        n ∈ p.cursor.reads ∨ p.cursor.i ≤ n ∧ n.toNat < (k + 1) * (a + b)) ∧
      (registerEntry reg addressCells sizeCells p).boot = register p.boot [entryAt reg a b k] := by
  have few := advances.few
  have address : ReadTo reg p.cursor a (readCells reg (p.cursor.i + UInt64.ofInt addressCells) p.cursor 0) :=
    advances.address ▸ readCells_count reg p.cursor a (by omega)
  have size : ReadTo reg (readCells reg (p.cursor.i + UInt64.ofInt addressCells) p.cursor 0).1 b
      (readCells reg ((readCells reg (p.cursor.i + UInt64.ofInt addressCells) p.cursor 0).1.i + UInt64.ofInt sizeCells)
        (readCells reg (p.cursor.i + UInt64.ofInt addressCells) p.cursor 0).1 0) := by
    have index := address.i
    rcases advances.size with rfl | ⟨rfl, negative, back⟩
    · exact readCells_count reg _ b (by omega)
    · exact readCells_error reg _ negative (by omega)
  have next : (k + 1) * (a + b) = k * (a + b) + a + b := by rw [Nat.succ_mul, Nat.add_assoc]
  refine ⟨?_, fun n => ?_, ?_⟩
  · show (readCells reg _ _ 0).1.i.toNat = _
    rw [size.i, address.i, at_, next]
  · show n ∈ (readCells reg _ _ 0).1.reads ↔ _
    rw [size.reads, address.reads, or_assoc]
    refine or_congr_right ?_
    rw [UInt64.le_iff_toNat_le, UInt64.le_iff_toNat_le, address.i, at_, next]
    omega
  · show memblockAddMemory p.boot (readCells reg _ _ 0).2 (readCells reg _ _ 0).2 = _
    rw [size.value, address.value, address.i, at_]
    rfl

/-! ## The loop -/

/-- After `k` entries. -/
structure After (reg : RegProp) (a b : Nat) (s : BootState) (k : Nat) (p : Parse) : Prop where
  i : p.cursor.i.toNat = k * (a + b)
  reads : ∀ n, n ∈ p.cursor.reads ↔ n.toNat < k * (a + b)
  boot : p.boot = register s ((List.range k).map (entryAt reg a b))

theorem after_zero (reg : RegProp) (s : BootState) : After reg a b s 0 ⟨⟨0, []⟩, s⟩ := ⟨by simp, by simp, rfl⟩

theorem After.next (after : After reg a b s k p) (advances : Advances addressCells sizeCells a b)
    (low : k * (a + b) < 2 ^ 62) : After reg a b s (k + 1) (registerEntry reg addressCells sizeCells p) := by
  obtain ⟨index, reads, boot⟩ := registerEntry_spec reg advances after.i low
  refine ⟨index, fun n => ?_, ?_⟩
  · have next : (k + 1) * (a + b) = k * (a + b) + (a + b) := Nat.succ_mul ..
    rw [reads, after.reads, UInt64.le_iff_toNat_le, after.i, next]
    omega
  · rw [boot, after.boot, List.range_succ, List.map_append, register_append]
    rfl

theorem test_iff (small : p.cursor.i.toNat < 2 ^ 62) :
    p.cursor.i * 4 < reg.len ↔ p.cursor.i.toNat * 4 < reg.len.toNat := by
  have four : (p.cursor.i * 4).toNat = p.cursor.i.toNat * 4 := by
    rw [UInt64.toNat_mul]
    exact Nat.mod_eq_of_lt (by simpa using by omega)
  rw [UInt64.lt_iff_toNat_lt, four]

/-- The first index behind the property. -/
def entriesRead (reg : RegProp) (a b : Nat) : Nat := (reg.len.toNat + (4 * (a + b) - 1)) / (4 * (a + b))

theorem lt_entriesRead_iff (reg : RegProp) (k : Nat) (some_ : 0 < a + b) : k < entriesRead reg a b ↔ 4 * (k * (a + b)) < reg.len.toNat := by
  have comm : 4 * (k * (a + b)) = k * (4 * (a + b)) := Nat.mul_left_comm ..
  rw [entriesRead, Nat.lt_iff_add_one_le, Nat.le_div_iff_mul_le (by omega), Nat.succ_mul, comm]
  omega

/-- **The loop stops behind the property.** -/
theorem registerLoop_after (advances : Advances addressCells sizeCells a b) (after : After reg a b s k p)
    (le : k ≤ entriesRead reg a b) :
    ∃ out, registerLoop reg addressCells sizeCells (entriesRead reg a b - k + 1) p = some out ∧
      After reg a b s (entriesRead reg a b) out := by
  have int := reg.int
  have some_ : 0 < a + b := Nat.add_pos_left advances.some_ b
  induction left : entriesRead reg a b - k generalizing k p with
  | zero =>
      have same : k = entriesRead reg a b := by omega
      have stop := (lt_entriesRead_iff reg k some_).not.1 (by omega)
      have small : k * (4 * (a + b)) ≤ reg.len.toNat + (4 * (a + b) - 1) := same ▸ Nat.div_mul_le_self ..
      have few := advances.few
      have index : k * (4 * (a + b)) = 4 * (k * (a + b)) := (Nat.mul_left_comm ..).symm
      refine ⟨p, ?_, same ▸ after⟩
      rw [registerLoop, if_neg ((test_iff (by rw [after.i]; omega)).not.2 (by rw [after.i]; omega))]
  | succ left ih =>
      have more := (lt_entriesRead_iff reg k some_).1 (by omega)
      have small : p.cursor.i.toNat < 2 ^ 62 := by
        rw [after.i]
        omega
      obtain ⟨out, run, done⟩ := ih (after.next advances (after.i ▸ small)) (by omega) (by omega)
      refine ⟨out, ?_, done⟩
      rw [registerLoop, if_pos ((test_iff small).2 (by rw [after.i]; omega))]
      exact run

/-- How much fuel there is makes no difference to a run that ends. -/
theorem registerLoop_unique {fuel fuel' : Nat} {out' : Parse} (run : registerLoop reg addressCells sizeCells fuel p = some out)
    (run' : registerLoop reg addressCells sizeCells fuel' p = some out') : out = out' := by
  induction fuel generalizing fuel' p with
  | zero => cases run
  | succ fuel ih =>
      cases fuel' with
      | zero => cases run'
      | succ fuel' =>
          rw [registerLoop] at run run'
          split at run
          · rw [if_pos ‹_›] at run'
            exact ih run run'
          · rw [if_neg ‹_›] at run'
            exact Option.some.inj (run.symm.trans run')

/-! ## Reads behind the property -/

theorem readCells_keeps {n : UInt64} (member : n ∈ c.reads) : n ∈ (readCells reg j c value).1.reads := by
  fun_induction readCells reg j c value with
  | case1 c value less ih => exact ih (List.mem_append_left _ member)
  | case2 c value stop => exact member

theorem registerLoop_keeps {n : UInt64} {fuel : Nat} (member : n ∈ p.cursor.reads)
    (run : registerLoop reg addressCells sizeCells fuel p = some out) : n ∈ out.cursor.reads := by
  induction fuel generalizing p with
  | zero => cases run
  | succ fuel ih =>
      rw [registerLoop] at run
      split at run
      · exact ih (readCells_keeps (readCells_keeps member)) run
      · cases run
        exact member

/-- An index far behind every property. -/
def farIndex : UInt64 := 0x4000000000000000

/-- An error code in place of a count that takes back more than there is: the index goes through all 64 bits. -/
theorem readCells_overrun (reg : RegProp) (c : Cursor) (cells : Int) (back : c.i.toNat + cells < 0) (few : -18 ≤ cells) :
    farIndex ∈ (readCells reg (c.i + UInt64.ofInt cells) c 0).1.reads := by
  have stop := add_ofInt_toNat c.i cells
  have far : farIndex.toNat = 2 ^ 62 := rfl
  have le : c.i ≤ c.i + UInt64.ofInt cells := UInt64.le_iff_toNat_le.2 (by omega)
  have reads := (readCells_spec reg (4 * c.i.toNat) 0 rfl le
    (show (0 : UInt64).toNat = bigEndian reg.byte (4 * c.i.toNat) 0 % 2 ^ 64 from rfl)).2.1
  refine (reads farIndex).2 (.inr ⟨?_, ?_⟩)
  · exact UInt64.le_iff_toNat_le.2 (by omega)
  · exact UInt64.lt_iff_toNat_lt.2 (by omega)

/-- The counts that `fdt_address_cells` and `fdt_size_cells` return. -/
structure Counts (addressCells sizeCells : Int) : Prop where
  address : -18 ≤ addressCells ∧ addressCells ≤ 4 ∧ addressCells ≠ 0
  size : -18 ≤ sizeCells ∧ sizeCells ≤ 4

theorem fdtCells_bounds (prop : PropAnswer) : -18 ≤ fdtCells prop ∧ fdtCells prop ≤ 4 := by
  cases prop with
  | missing err =>
      have known := err.known
      simp only [fdtCells]
      omega
  | value len c =>
      simp only [fdtCells, fdtErrBadncells]
      split
      · omega
      · split
        · omega
        · have le := UInt32.le_iff_toNat_le.1 (UInt32.not_lt.1 ‹¬ fdtMaxNcells < c›)
          change c.toNat ≤ 4 at le
          omega

theorem counts (address size : PropAnswer) : Counts (fdtAddressCells address) (fdtSizeCells size) := by
  have address_ := fdtCells_bounds address
  have size_ := fdtCells_bounds size
  refine ⟨?_, ?_⟩
  · simp only [fdtAddressCells, fdtErrBadncells]
    by_cases zero : fdtCells address = 0
    · simp [zero]
    · rw [if_neg zero]
      by_cases missing : fdtCells address = fdtErrNotfound
      · simp [missing]
      · rw [if_neg missing]
        exact ⟨address_.1, address_.2, zero⟩
  · simp only [fdtSizeCells]
    by_cases missing : fdtCells size = fdtErrNotfound
    · simp [missing]
    · rw [if_neg missing]
      exact size_

/-- **Every other pair of counts reads far behind the property**, if there is anything in it. -/
theorem first_overrun (reg : RegProp) (s : BootState) (counts : Counts addressCells sizeCells) (bad : addressCells < 0 ∨ addressCells + sizeCells < 0) :
    farIndex ∈ (registerEntry reg addressCells sizeCells ⟨⟨0, []⟩, s⟩).cursor.reads := by
  show farIndex ∈ (readCells reg _ _ 0).1.reads
  by_cases negative : addressCells < 0
  · exact readCells_keeps (readCells_overrun reg ⟨0, []⟩ addressCells (by simpa using negative) counts.address.1)
  · obtain ⟨a, rfl⟩ := Int.eq_ofNat_of_zero_le (Int.not_lt.1 negative)
    have first := readCells_count reg ⟨0, []⟩ a (by
      have := counts.address.2.1
      simp only [UInt64.toNat_zero]
      omega)
    refine readCells_overrun reg _ sizeCells ?_ counts.size.1
    rw [first.i]
    simp only [UInt64.toNat_zero]
    omega

/-! ## The regions -/

theorem addMemory_pairs (s : BootState) (e : Nat × Nat) :
    (memblockAddMemory s (UInt64.ofNat e.1) (UInt64.ofNat e.2)).pairs =
      s.pairs ++ if maxMemory ≤ s.memblock.memory.length ∨ e.2 % 2 ^ 64 = 0 then [] else [(e.1 % 2 ^ 64, e.2 % 2 ^ 64)] := by
  have zero : UInt64.ofNat e.2 = 0 ↔ e.2 % 2 ^ 64 = 0 := by
    rw [← UInt64.toNat_inj, UInt64.toNat_ofNat', UInt64.toNat_zero]
  simp only [memblockAddMemory, zero]
  split
  · simp
  · simp [BootState.pairs]

theorem pairs_length (s : BootState) : s.pairs.length = s.memblock.memory.length := List.length_map _

/-- Registering adds to the regions, and no more than there are pairs. -/
theorem register_pairs (s : BootState) (l : List (Nat × Nat)) :
    ∃ more, (register s l).pairs = s.pairs ++ more ∧ more.length ≤ l.length := by
  induction l generalizing s with
  | nil => exact ⟨[], by simp [register], Nat.le_refl _⟩
  | cons e l ih =>
      obtain ⟨more, same, le⟩ := ih (memblockAddMemory s (UInt64.ofNat e.1) (UInt64.ofNat e.2))
      rw [addMemory_pairs, List.append_assoc] at same
      refine ⟨_, same, ?_⟩
      split
      · exact Nat.le_succ_of_le (by simpa using le)
      · simpa using le

/-- **All pairs of a list are registered** exactly where each has a size, fits in 64 bits and finds room. -/
theorem register_pairs_iff (s : BootState) (l : List (Nat × Nat)) :
    (register s l).pairs = s.pairs ++ l ↔
      (∀ e ∈ l, e.1 < 2 ^ 64 ∧ 0 < e.2 ∧ e.2 < 2 ^ 64) ∧ l.length ≤ maxMemory - s.memblock.memory.length := by
  induction l generalizing s with
  | nil => simp [register]
  | cons e l ih =>
      have step := addMemory_pairs s e
      have after : register s (e :: l) = register (memblockAddMemory s (UInt64.ofNat e.1) (UInt64.ofNat e.2)) l := rfl
      have room := pairs_length (memblockAddMemory s (UInt64.ofNat e.1) (UInt64.ofNat e.2))
      rw [after, List.forall_mem_cons, List.length_cons]
      by_cases dropped : maxMemory ≤ s.memblock.memory.length ∨ e.2 % 2 ^ 64 = 0
      · rw [if_pos dropped, List.append_nil] at step
        refine ⟨fun same => ?_, fun ⟨⟨fits, _⟩, room⟩ => ?_⟩
        · obtain ⟨more, same', le⟩ := register_pairs (memblockAddMemory s (UInt64.ofNat e.1) (UInt64.ofNat e.2)) l
          rw [same', step, List.append_cancel_left_eq] at same
          rw [same] at le
          simp at le
        · rcases dropped with full | none_
          · omega
          · rw [Nat.mod_eq_of_lt fits.2.2] at none_
            omega
      · rw [if_neg dropped] at step
        rw [step, List.length_append, pairs_length] at room
        simp only [List.length_singleton] at room
        refine ⟨fun same => ?_, fun ⟨⟨fits, fit⟩, left⟩ => ?_⟩
        · -- what was added first is the first pair
          obtain ⟨more, same', -⟩ := register_pairs (memblockAddMemory s (UInt64.ofNat e.1) (UInt64.ofNat e.2)) l
          rw [same', step, List.append_assoc, List.append_cancel_left_eq, List.singleton_append, List.cons.injEq] at same
          obtain ⟨own, rfl⟩ := same
          have own₁ : e.1 % 2 ^ 64 = e.1 := congrArg Prod.fst own
          have own₂ : e.2 % 2 ^ 64 = e.2 := congrArg Prod.snd own
          obtain ⟨fit, left⟩ := (ih _).1 same'
          exact ⟨⟨⟨by omega, by omega, by omega⟩, fit⟩, by omega⟩
        · have own : (e.1 % 2 ^ 64, e.2 % 2 ^ 64) = e := by
            rw [Nat.mod_eq_of_lt fits.1, Nat.mod_eq_of_lt fits.2.2]
          rw [(ih _).2 ⟨fit, by omega⟩, step, own, List.append_assoc, List.singleton_append]

/-- Pairs without a size are dropped. -/
theorem register_empty (s : BootState) (l : List (Nat × Nat)) (none_ : ∀ e ∈ l, e.2 = 0) : (register s l).pairs = s.pairs := by
  induction l generalizing s with
  | nil => rfl
  | cons e l ih =>
      obtain ⟨own, rest⟩ := List.forall_mem_cons.1 none_
      have step := addMemory_pairs s e
      rw [if_pos (.inr (by rw [own]; rfl)), List.append_nil] at step
      exact (ih _ rest).trans step

/-! ## The whole property -/

/-- The last read lies in the property exactly where the entries fill it. -/
theorem inside_iff (after : After reg a b s (entriesRead reg a b) out) (some_ : 0 < a + b) :
    (∀ n ∈ out.cursor.reads, 4 * n.toNat + 4 ≤ reg.len.toNat) ↔ 4 * (a + b) ∣ reg.len.toNat := by
  have stop := (lt_entriesRead_iff reg (entriesRead reg a b) some_).not.1 (Nat.lt_irrefl _)
  have index := after.i
  have below := out.cursor.i.toNat_lt
  constructor
  · intro inside
    refine ⟨entriesRead reg a b, ?_⟩
    rw [Nat.mul_assoc, Nat.mul_comm (a + b)]
    by_cases none_ : entriesRead reg a b * (a + b) = 0
    · omega
    · have last := inside (UInt64.ofNat (entriesRead reg a b * (a + b) - 1))
      rw [after.reads, UInt64.toNat_ofNat', Nat.mod_eq_of_lt (by omega)] at last
      have := last (by omega)
      omega
  · rintro ⟨q, length⟩ n member
    have le : entriesRead reg a b ≤ q := by
      by_contra more
      have := (lt_entriesRead_iff reg q some_).1 (by omega)
      rw [length, Nat.mul_assoc, Nat.mul_comm (a + b)] at this
      omega
    have read := (after.reads n).1 member
    have := Nat.mul_le_mul_right (a + b) le
    rw [length, Nat.mul_assoc, Nat.mul_comm (a + b)]
    omega

/-- Where the entries fill the property, it encodes as many as are read. -/
theorem entriesRead_eq (some_ : 0 < a + b) (whole : 4 * (a + b) ∣ reg.len.toNat) :
    entriesRead reg a b = reg.len.toNat / (4 * (a + b)) := by
  obtain ⟨q, length⟩ := whole
  rw [entriesRead, length, Nat.mul_add_div (by omega), Nat.mul_div_cancel_left _ (by omega),
    Nat.div_eq_of_lt (by omega), Nat.add_zero]

theorem encoded_empty (empty : reg.len = 0) (a b : Nat) : encoded reg a b = [] := by
  simp [encoded, empty]

/-- Valid counts: the entries are registered where they fill the property. -/
theorem parses_iff_of_valid (valid : ValidCells addressCells sizeCells)
    (after : After reg addressCells.toNat sizeCells.toNat s (entriesRead reg addressCells.toNat sizeCells.toNat) out) :
    Parses reg addressCells sizeCells s out ↔ Readable reg addressCells sizeCells s := by
  have some_ : 0 < addressCells.toNat + sizeCells.toNat := by
    have := valid.1
    omega
  have inside := inside_iff after some_
  have pairs := register_pairs_iff s (encoded reg addressCells.toNat sizeCells.toNat)
  have boot : 4 * (addressCells.toNat + sizeCells.toNat) ∣ reg.len.toNat →
      out.boot = register s (encoded reg addressCells.toNat sizeCells.toNat) := by
    intro whole
    rw [after.boot, entriesRead_eq some_ whole, encoded]
  constructor
  · rintro ⟨read, registered⟩
    have whole := inside.1 read
    rw [if_pos valid, boot whole] at registered
    exact .inr (.inl ⟨valid, whole, pairs.1 registered⟩)
  · rintro (empty | ⟨-, whole, fit⟩ | ⟨-, negative, -⟩)
    · have whole : 4 * (addressCells.toNat + sizeCells.toNat) ∣ reg.len.toNat := by simp [empty]
      refine ⟨inside.2 whole, ?_⟩
      rw [if_pos valid, boot whole, encoded_empty empty]
      simp [register]
    · refine ⟨inside.2 whole, ?_⟩
      rw [if_pos valid, boot whole]
      exact pairs.2 fit
    · exact absurd valid.2 (Int.not_le.2 negative)

/-- An error code in place of the size: nothing is registered. -/
theorem parses_iff_of_error (positive : 0 < addressCells) (negative : sizeCells < 0) (back : -sizeCells ≤ addressCells)
    (after : After reg addressCells.toNat 0 s (entriesRead reg addressCells.toNat 0) out) :
    Parses reg addressCells sizeCells s out ↔ Readable reg addressCells sizeCells s := by
  have inside := inside_iff after (by omega)
  have invalid : ¬ ValidCells addressCells sizeCells := fun valid => absurd valid.2 (Int.not_le.2 negative)
  have boot : out.boot.pairs = s.pairs := by
    rw [after.boot]
    refine register_empty s _ fun e member => ?_
    obtain ⟨k, -, rfl⟩ := List.mem_map.1 member
    rfl
  rw [Nat.add_zero] at inside
  constructor
  · rintro ⟨read, -⟩
    exact .inr (.inr ⟨positive, negative, back, inside.1 read⟩)
  · rintro (empty | ⟨valid, -⟩ | ⟨-, -, -, whole⟩)
    · exact ⟨inside.2 (by simp [empty]), by rw [if_neg invalid, boot, List.append_nil]⟩
    · exact absurd valid invalid
    · exact ⟨inside.2 whole, by rw [if_neg invalid, boot, List.append_nil]⟩

/-- An empty property is left alone. -/
theorem registerOne_empty (empty : reg.len = 0) (addressCells sizeCells : Int) (s : BootState) :
    memblockFdtRegisterOne 1 reg addressCells sizeCells s = some ⟨⟨0, []⟩, s⟩ ∧
      Parses reg addressCells sizeCells s ⟨⟨0, []⟩, s⟩ := by
  refine ⟨?_, by simp, by simp [encoded_empty empty]⟩
  rw [memblockFdtRegisterOne, registerLoop, empty]
  rfl

/-- A property with something in it is not read as it should be with any other counts. -/
theorem not_parses_of_overrun (counts : Counts addressCells sizeCells)
    (bad : addressCells < 0 ∨ addressCells + sizeCells < 0) (some_ : reg.len ≠ 0) {fuel : Nat}
    (run : memblockFdtRegisterOne fuel reg addressCells sizeCells s = some out) : ¬ Parses reg addressCells sizeCells s out := by
  have more : 0 * 4 < reg.len := UInt64.pos_iff_ne_zero.2 some_
  have int := reg.int
  cases fuel with
  | zero => cases run
  | succ fuel =>
      rw [memblockFdtRegisterOne, registerLoop, if_pos more] at run
      have far := registerLoop_keeps (first_overrun reg s counts bad) run
      intro parses
      have inside : 4 * 2 ^ 62 + 4 ≤ reg.len.toNat := parses.inside farIndex far
      omega

theorem not_readable_of_overrun (bad : addressCells < 0 ∨ addressCells + sizeCells < 0) (some_ : reg.len ≠ 0) :
    ¬ Readable reg addressCells sizeCells s := by
  rintro (empty | ⟨⟨positive, notNegative⟩, -⟩ | ⟨positive, -, back, -⟩)
  · exact some_ empty
  · omega
  · omega

/-- **What is read of a property**, for all counts. -/
theorem parses_iff (counts : Counts addressCells sizeCells) :
    (∃ fuel out, memblockFdtRegisterOne fuel reg addressCells sizeCells s = some out ∧
      Parses reg addressCells sizeCells s out) ↔ Readable reg addressCells sizeCells s := by
  have address := counts.address
  have size := counts.size
  by_cases bad : addressCells < 0 ∨ addressCells + sizeCells < 0
  · by_cases empty : reg.len = 0
    · exact ⟨fun _ => .inl empty, fun _ => ⟨1, _, registerOne_empty empty addressCells sizeCells s⟩⟩
    · exact ⟨fun ⟨fuel, out, run, parses⟩ => absurd parses (not_parses_of_overrun counts bad empty run),
        fun readable => absurd readable (not_readable_of_overrun bad empty)⟩
  · -- the counts lead on
    have advances : Advances addressCells sizeCells addressCells.toNat sizeCells.toNat :=
      ⟨by omega, by omega, by omega, by omega⟩
    obtain ⟨out, run, after⟩ := registerLoop_after advances (after_zero reg s) (Nat.zero_le _)
    have iff : Parses reg addressCells sizeCells s out ↔ Readable reg addressCells sizeCells s := by
      by_cases negative : sizeCells < 0
      · have zero : sizeCells.toNat = 0 := by omega
        rw [zero] at after
        exact parses_iff_of_error (by omega) negative (by omega) after
      · exact parses_iff_of_valid ⟨by omega, by omega⟩ after
    refine ⟨fun ⟨fuel, out', run', parses⟩ => ?_, fun readable => ⟨_, out, run, iff.2 readable⟩⟩
    exact iff.1 (registerLoop_unique run' run ▸ parses)

/-- **A memory node is parsed as it should be exactly where it is `Readable`**: the loop ends, reads the
property only and registers what that encodes. -/
theorem memblockFdtRegisterOne_parses_iff (reg : RegProp) (address size : PropAnswer) (s : BootState) :
    (∃ fuel out, memblockFdtRegisterOne fuel reg (fdtAddressCells address) (fdtSizeCells size) s = some out ∧
      Parses reg (fdtAddressCells address) (fdtSizeCells size) s out) ↔
        Readable reg (fdtAddressCells address) (fdtSizeCells size) s :=
  parses_iff (counts address size)

end Read

/-- A property of three cells. -/
def threeCells : RegProp := ⟨fun _ => 0, 12, by decide⟩

/-- The statics before the first property. -/
def atBoot : BootState := ⟨⟨[], []⟩, 0xffffffffffffffff, 0⟩

/-- **A size of two cells is read where there is one**, and for a `#size-cells` of 5 the error code is counted
back from the address. -/
theorem three_cells_overrun :
    ¬ (∃ fuel out, memblockFdtRegisterOne fuel threeCells (fdtAddressCells (.value 4 2)) (fdtSizeCells (.value 4 2)) atBoot =
        some out ∧ Parses threeCells (fdtAddressCells (.value 4 2)) (fdtSizeCells (.value 4 2)) atBoot out) ∧
      ¬ (∃ fuel out, memblockFdtRegisterOne fuel threeCells (fdtAddressCells (.value 4 2)) (fdtSizeCells (.value 4 5)) atBoot =
        some out ∧ Parses threeCells (fdtAddressCells (.value 4 2)) (fdtSizeCells (.value 4 5)) atBoot out) := by
  constructor
  · rw [parses_iff (counts _ _)]
    rintro (empty | ⟨-, whole, -⟩ | ⟨-, negative, -⟩)
    · exact absurd empty (by decide)
    · exact absurd whole (by decide)
    · exact absurd negative (by decide)
  · rw [parses_iff (counts _ _)]
    rintro (empty | ⟨valid, -⟩ | ⟨-, -, back, -⟩)
    · exact absurd empty (by decide)
    · exact absurd valid (by decide)
    · exact absurd back (by decide)

end Minus.Mm.Boot
