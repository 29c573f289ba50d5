/-
# Fs.Ext4Tree — extent trees that another system has written

The disk format has more than `ext4_get_block` looks at: with `eh_depth` above 0 the
records of a node are index records, which name the block of a child node, and a length
above 32768 marks an extent that is allocated and not written.  `Assigns` is what a tree
means, `ValidTree` what the format asks for.

`ext4_get_block` reads every record of the root as an initialised extent.  On valid trees
it is right exactly if the root is a leaf without unwritten extents (`lookup_right_iff`),
but for two accidents: an end that wraps around at 2^32 is never found, and the two unused
bytes of an index record can happen to hold the right number.
-/
import Minus.Fs.Ext4Extent

namespace Minus.Fs.Ext4Bytes

set_option autoImplicit false

open Minus.Theory
open Minus.Fs.Ext4 (Errno Extent locate)

/-! ## The disk format -/

/-- The index record in the place of `ex[i]`: `ei_block` is where `ee_block` is. -/
def eiLeafLo (d : Bytes) (i : Nat) : UInt32 := load32 d (exAt i + 4)
def eiLeafHi (d : Bytes) (i : Nat) : UInt16 := load16 d (exAt i + 8)
def eiUnused (d : Bytes) (i : Nat) : UInt16 := load16 d (exAt i + 10)

/-- The block of the child node. -/
def eiLeaf (d : Bytes) (i : Nat) : Nat := (eiLeafHi d i).toNat * 2 ^ 32 + (eiLeafLo d i).toNat

/-- `i` is a record of the node. -/
abbrev Record (d : Bytes) (i : Nat) : Prop := i < (ehEntries d).toNat

def Unwritten (d : Bytes) (i : Nat) : Prop := 32768 < (eeLen d i).toNat

instance (d : Bytes) (i : Nat) : Decidable (Unwritten d i) := inferInstanceAs (Decidable (_ < _))

/-- How many blocks the extent has. -/
def realLen (d : Bytes) (i : Nat) : Nat :=
  if Unwritten d i then (eeLen d i).toNat - 32768 else (eeLen d i).toNat

/-- The tree below a node assigns the block `p` of the volume to block `b` of the file. -/
inductive Assigns (blocks : Nat → Bytes) : Nat → Bytes → Nat → Nat → Prop where
  | leaf {d : Bytes} {i b : Nat} : Record d i → ¬ Unwritten d i → (eeBlock d i).toNat ≤ b →
      b < (eeBlock d i).toNat + (eeLen d i).toNat →
      Assigns blocks 0 d b ((extentAt d i).phys + (b - (eeBlock d i).toNat))
  | index {depth : Nat} {d : Bytes} {i b p : Nat} : Record d i →
      Assigns blocks depth (blocks (eiLeaf d i)) b p → Assigns blocks (depth + 1) d b p

structure Header (d : Bytes) (depth : Nat) : Prop where
  magic : ehMagic d = extentHeaderMagic
  depth : (ehDepth d).toNat = depth
  count : ehEntries d ≤ ehMax d

/-- Where the blocks of record `i` end: at the next record, or where those of the node do. -/
def bound (d : Bytes) (hi i : Nat) : Nat :=
  if Record d (i + 1) then (eeBlock d (i + 1)).toNat else hi

/-- A node for the blocks of the file from `lo` to `hi`, on a volume of `volume` blocks. -/
inductive ValidNode (blocks : Nat → Bytes) (volume : Nat) : Nat → Bytes → Nat → Nat → Prop where
  | leaf {d : Bytes} {lo hi : Nat} : Header d 0 →
      (∀ i, Record d i → lo ≤ (eeBlock d i).toNat ∧ 0 < realLen d i ∧
        (eeBlock d i).toNat + realLen d i ≤ bound d hi i ∧
        (extentAt d i).phys + realLen d i ≤ volume) →
      ValidNode blocks volume 0 d lo hi
  | index {depth : Nat} {d : Bytes} {lo hi : Nat} : Header d (depth + 1) →
      (∀ i, Record d i → lo ≤ (eeBlock d i).toNat ∧ (eeBlock d i).toNat < bound d hi i ∧
        eiLeaf d i < volume) →
      (∀ i, Record d i →
        ValidNode blocks volume depth (blocks (eiLeaf d i)) (eeBlock d i).toNat (bound d hi i)) →
      ValidNode blocks volume (depth + 1) d lo hi

/-- A tree with its root in `i_data`.  The mount refuses volumes with numbers above 32 bits. -/
structure ValidTree (blocks : Nat → Bytes) (volume : Nat) (d : Bytes) : Prop where
  numbers : volume ≤ 2 ^ 32
  depth : (ehDepth d).toNat ≤ 5
  fits : ehMax d ≤ extentMax
  node : ValidNode blocks volume (ehDepth d).toNat d 0 (2 ^ 32)

/-! ## The lookup -/

/-- The search stops at record `i`. -/
def Stops (d : Bytes) (b i : Nat) : Prop :=
  Record d i ∧ (extentAt d i).holds b = true ∧ ∀ j < i, ¬ (extentAt d j).holds b = true

/-- A block that the lookup gives is the one that the tree assigns. -/
def LookupRight (blocks : Nat → Bytes) (inode : Inode) : Prop :=
  ∀ b p, ext4GetBlock inode b = .ok p →
    Assigns blocks (ehDepth inode.iData).toNat inode.iData b.toNat p.toNat

/-- The root is a leaf, and the end of every unwritten extent, taken for an initialised one,
wraps around. -/
def LeafRoot (d : Bytes) : Prop :=
  (ehDepth d).toNat = 0 ∧
    ∀ i, Record d i → Unwritten d i → 2 ^ 32 ≤ (eeBlock d i).toNat + (eeLen d i).toNat

/-- An index record that is taken for an extent has the child's number below 2^16, and its
unused bytes are the upper half of the number of the block that the tree assigns. -/
def LuckyIndex (blocks : Nat → Bytes) (d : Bytes) : Prop :=
  0 < (ehDepth d).toNat ∧ ∀ b i, Stops d b i → (eiLeafLo d i).toNat < 2 ^ 16 ∧
    Assigns blocks (ehDepth d).toNat d b ((eiUnused d i).toNat * 2 ^ 16 + (b - (eeBlock d i).toNat))

section Lookup

variable {blocks : Nat → Bytes} {volume depth lo hi i j b : Nat} {d : Bytes} {inode : Inode}

@[simp] theorem extentAt_eeBlock (d : Bytes) (i : Nat) : (extentAt d i).eeBlock = (eeBlock d i).toNat := rfl

/-- The search takes the first record that holds the block. -/
theorem locate_map_range (f : Nat → Extent) (n b p : Nat) :
    locate ((List.range n).map f) b = some p ↔
      ∃ i, (i < n ∧ (f i).holds b = true ∧ ∀ j < i, ¬ (f j).holds b = true) ∧
        p = (f i).phys + (b - (f i).eeBlock) := by
  have first (i : Nat) : (List.range n).find? (fun i => (f i).holds b) = some i ↔
      i < n ∧ (f i).holds b = true ∧ ∀ j < i, ¬ (f j).holds b = true := by
    rw [List.find?_range_eq_some, List.mem_range]
    simp only [Bool.not_eq_eq_eq_not, Bool.not_true, Bool.not_eq_true]
    exact and_left_comm
  unfold locate
  rw [List.find?_map, Option.map_map, Option.map_eq_some_iff]
  constructor
  · rintro ⟨i, found, rfl⟩
    exact ⟨i, (first i).1 found, rfl⟩
  · rintro ⟨i, found, rfl⟩
    exact ⟨i, (first i).2 found, rfl⟩

theorem locate_stops (d : Bytes) (b p : Nat) :
    locate (extents d) b = some p ↔
      ∃ i, Stops d b i ∧ p = (extentAt d i).phys + (b - (extentAt d i).eeBlock) :=
  locate_map_range (extentAt d) (ehEntries d).toNat b p

theorem get_stops {b : UInt32} {p : UInt64} (magic : ehMagic inode.iData = extentHeaderMagic) :
    ext4GetBlock inode b = .ok p ↔ ∃ i, Stops inode.iData b.toNat i ∧
      p.toNat = (extentAt inode.iData i).phys + (b.toNat - (extentAt inode.iData i).eeBlock) := by
  rw [← locate_stops, ext4GetBlock_eq magic]
  cases found : locate (extents inode.iData) b.toNat with
  | none => simp
  | some q =>
      have := locate_lt found
      rw [Option.some.injEq]
      simp only [Except.ok.injEq]
      constructor
      · rintro rfl
        rw [UInt64.toNat_ofNat', Nat.mod_eq_of_lt (by omega)]
      · rintro rfl
        exact UInt64.ofNat_toNat

/-- The extents of a valid leaf follow each other. -/
theorem leaf_sorted (valid : ValidNode blocks volume 0 d lo hi) (later : i < j) (record : Record d j) :
    (eeBlock d i).toNat + realLen d i ≤ (eeBlock d j).toNat := by
  cases valid with
  | leaf _ extent =>
      induction j, later using Nat.le_induction with
      | base =>
          have next := (extent i (by omega)).2.2.1
          rwa [bound, if_pos record] at next
      | succ j later ih =>
          have before := ih (by omega)
          have next := (extent j (by omega)).2.2.1
          rw [bound, if_pos record] at next
          omega

/-- A record of a leaf that the search may stop at is initialised, or unwritten and found by
its marked length. -/
theorem not_holds_of_wraps (wraps : 2 ^ 32 ≤ (eeBlock d i).toNat + (eeLen d i).toNat) (b : Nat) :
    ¬ (extentAt d i).holds b = true := by
  have := (eeBlock d i).toNat_lt
  have := (eeLen d i).toNat_lt
  rw [holds_extentAt]
  omega

/-- The first block of the first unwritten extent that is found at all. -/
theorem unwritten_stops (valid : ValidNode blocks volume 0 d lo hi) (record : Record d i)
    (unwritten : Unwritten d i) (straight : (eeBlock d i).toNat + (eeLen d i).toNat < 2 ^ 32)
    (first : ∀ j < i, Unwritten d j → 2 ^ 32 ≤ (eeBlock d j).toNat + (eeLen d j).toNat) :
    Stops d (eeBlock d i).toNat i := by
  refine ⟨record, ?_, fun j earlier => ?_⟩
  · have positive : 32768 < (eeLen d i).toNat := unwritten
    rw [holds_extentAt]
    omega
  · by_cases marked : Unwritten d j
    · exact not_holds_of_wraps (first j earlier marked) _
    · have sorted := leaf_sorted valid earlier record
      rw [realLen, if_neg marked] at sorted
      rw [holds_extentAt]
      have := Nat.mod_le ((eeBlock d j).toNat + (eeLen d j).toNat) (2 ^ 32)
      omega

/-- No initialised extent has the first block of an unwritten one. -/
theorem unwritten_unassigned (valid : ValidNode blocks volume 0 d lo hi) (record : Record d i)
    (unwritten : Unwritten d i) (p : Nat) : ¬ Assigns blocks 0 d (eeBlock d i).toNat p := by
  intro assigned
  have positive : 0 < realLen d i := by
    cases valid with
    | leaf _ extent => exact (extent i record).2.1
  cases assigned with
  | @leaf _ k _ record' initialised low high =>
      rcases Nat.lt_trichotomy k i with before | same | after
      · have sorted := leaf_sorted valid before record
        rw [realLen, if_neg initialised] at sorted
        omega
      · exact initialised (same ▸ unwritten)
      · have sorted := leaf_sorted valid after record'
        omega

theorem lookup_right_leaf (valid : ValidNode blocks volume 0 inode.iData lo hi)
    (leaf : (ehDepth inode.iData).toNat = 0) :
    LookupRight blocks inode ↔ LeafRoot inode.iData := by
  have magic : ehMagic inode.iData = extentHeaderMagic := by
    cases valid with
    | leaf header _ => exact header.magic
  constructor
  · intro right
    refine ⟨leaf, fun i => ?_⟩
    induction i using Nat.strong_induction_on with
    | _ i ih =>
        intro record unwritten
        by_contra straight
        have stops := unwritten_stops valid record unwritten (Nat.not_le.1 straight) fun j earlier =>
          ih j earlier (Nat.lt_trans earlier record)
        have small := phys_lt inode.iData i
        have found : ext4GetBlock inode (eeBlock inode.iData i) =
            .ok (UInt64.ofNat (extentAt inode.iData i).phys) := by
          refine (get_stops magic).2 ⟨i, stops, ?_⟩
          rw [UInt64.toNat_ofNat', Nat.mod_eq_of_lt (by omega), extentAt_eeBlock, Nat.sub_self, Nat.add_zero]
        have assigned := right _ _ found
        rw [leaf] at assigned
        exact unwritten_unassigned valid record unwritten _ assigned
  · rintro ⟨-, wraps⟩ b p found
    obtain ⟨i, ⟨record, holds, _⟩, place⟩ := (get_stops magic).1 found
    have initialised : ¬ Unwritten inode.iData i := fun unwritten =>
      not_holds_of_wraps (wraps i record unwritten) _ holds
    obtain ⟨low, high⟩ := (holds_extentAt _ i _).1 holds
    have := Nat.mod_le ((eeBlock inode.iData i).toNat + (eeLen inode.iData i).toNat) (2 ^ 32)
    rw [leaf, place, extentAt_eeBlock]
    exact .leaf record initialised low (by omega)

/-- The blocks that a valid tree assigns are blocks of the volume. -/
theorem assigns_lt {p : Nat} (valid : ValidNode blocks volume depth d lo hi)
    (assigned : Assigns blocks depth d b p) : p < volume := by
  induction assigned generalizing lo hi with
  | @leaf d i b record initialised low high =>
      cases valid with
      | leaf _ extent =>
          have inside := (extent i record).2.2.2
          rw [realLen, if_neg initialised] at inside
          omega
  | index record _ ih =>
      cases valid with
      | index _ _ child => exact ih (child _ record)

theorem load_halves (m : Bytes) (a : Nat) :
    (load32 m a).toNat = (load16 m a).toNat + (load16 m (a + 2)).toNat * 2 ^ 16 := by
  have := (m a).toNat_lt
  have := (m (a + 1)).toNat_lt
  have := (m (a + 2)).toNat_lt
  have := (m (a + 3)).toNat_lt
  rw [load32, load16, load16, UInt32.toNat_ofNat', UInt16.toNat_ofNat', UInt16.toNat_ofNat',
    show a + 2 + 1 = a + 3 from rfl]
  omega

/-- The number that is read in an index record. -/
theorem index_phys (d : Bytes) (i : Nat) :
    (extentAt d i).phys = (eiLeafLo d i).toNat / 2 ^ 16 * 2 ^ 32 + (eiLeafHi d i).toNat +
      (eiUnused d i).toNat * 2 ^ 16 := by
  have leaf : (load32 d (exAt i + 4)).toNat =
      (load16 d (exAt i + 4)).toNat + (load16 d (exAt i + 6)).toNat * 2 ^ 16 := load_halves d _
  have start : (load32 d (exAt i + 8)).toNat =
      (load16 d (exAt i + 8)).toNat + (load16 d (exAt i + 10)).toNat * 2 ^ 16 := load_halves d _
  have small := (load16 d (exAt i + 4)).toNat_lt
  unfold Extent.phys extentAt eeStartHi eeStartLo eiLeafLo eiLeafHi eiUnused
  simp only
  rw [leaf, start]
  omega

theorem lookup_right_index (valid : ValidTree blocks volume inode.iData)
    (node : ValidNode blocks volume (depth + 1) inode.iData lo hi)
    (index : (ehDepth inode.iData).toNat = depth + 1) :
    LookupRight blocks inode ↔ LuckyIndex blocks inode.iData := by
  have magic : ehMagic inode.iData = extentHeaderMagic := by
    cases node with
    | index header _ _ => exact header.magic
  have high (i : Nat) (record : Record inode.iData i) : (eiLeafHi inode.iData i).toNat = 0 := by
    have inside : eiLeaf inode.iData i < volume := by
      cases node with
      | index _ child _ => exact (child i record).2.2
    have := valid.numbers
    unfold eiLeaf at inside
    omega
  -- What the search reads, and when it can be a block of the volume.
  have read (i b : Nat) (record : Record inode.iData i) (inside : (eiLeafLo inode.iData i).toNat < 2 ^ 16) :
      (extentAt inode.iData i).phys + (b - (eeBlock inode.iData i).toNat) =
        (eiUnused inode.iData i).toNat * 2 ^ 16 + (b - (eeBlock inode.iData i).toNat) := by
    have := index_phys inode.iData i
    have := high i record
    omega
  constructor
  · intro right
    refine ⟨by omega, fun b i stops => ?_⟩
    have wide : b < 2 ^ 32 := by
      have := ((holds_extentAt _ i b).1 stops.2.1).2
      omega
    have small := phys_lt inode.iData i
    have found : ext4GetBlock inode (UInt32.ofNat b) = .ok (UInt64.ofNat
        ((extentAt inode.iData i).phys + (b - (eeBlock inode.iData i).toNat))) := by
      refine (get_stops magic).2 ⟨i, ?_, ?_⟩
      · rwa [UInt32.toNat_ofNat', Nat.mod_eq_of_lt wide]
      · rw [UInt32.toNat_ofNat', Nat.mod_eq_of_lt wide, UInt64.toNat_ofNat', Nat.mod_eq_of_lt (by omega),
          extentAt_eeBlock]
    have assigned := right _ _ found
    rw [UInt32.toNat_ofNat', Nat.mod_eq_of_lt wide, UInt64.toNat_ofNat', Nat.mod_eq_of_lt (by omega)] at assigned
    have inside : (eiLeafLo inode.iData i).toNat < 2 ^ 16 := by
      have bounded := assigns_lt (index ▸ node) assigned
      have := index_phys inode.iData i
      have := valid.numbers
      omega
    rw [read i b stops.1 inside] at assigned
    exact ⟨inside, assigned⟩
  · rintro ⟨-, lucky⟩ b p found
    obtain ⟨i, stops, place⟩ := (get_stops magic).1 found
    obtain ⟨inside, assigned⟩ := lucky b.toNat i stops
    rw [place, extentAt_eeBlock, read i _ stops.1 inside]
    exact assigned

/-- **When a lookup gives no wrong block.** -/
theorem lookup_right_iff (valid : ValidTree blocks volume inode.iData) :
    LookupRight blocks inode ↔ LeafRoot inode.iData ∨ LuckyIndex blocks inode.iData := by
  have node := valid.node
  cases depth : (ehDepth inode.iData).toNat with
  | zero =>
      rw [depth] at node
      rw [lookup_right_leaf node depth]
      refine (or_iff_left fun lucky => ?_).symm
      have := lucky.1
      omega
  | succ n =>
      rw [depth] at node
      rw [lookup_right_index valid node depth]
      refine (or_iff_right fun leaf => ?_).symm
      have := leaf.1
      omega

end Lookup

/-! ### Files of one extent -/

/-- A root with one record: `len` blocks from block `phys` of the volume. -/
def oneExtent (len : UInt16) (phys : UInt64) : Inode :=
  { createdInode with iData := store16 (append createdInode.iData 0 0 phys) (exAt 0 + 4) len }

theorem oneExtent_valid {len : UInt16} (known : len = 8 ∨ len = 32776) :
    ValidTree (fun _ _ => 0) 2000 (oneExtent len 1000).iData := by
  rcases known with rfl | rfl
  all_goals
    refine ⟨by decide, by decide, by decide, ?_⟩
    refine .leaf ⟨by decide, by decide, by decide⟩ ?_
    intro i record
    have one : i < 1 := record
    obtain rfl : i = 0 := by omega
    decide

/-- Eight blocks that are written. -/
theorem lookup_right_written : ValidTree (fun _ _ => 0) 2000 (oneExtent 8 1000).iData ∧
    LookupRight (fun _ _ => 0) (oneExtent 8 1000) ∧ ext4GetBlock (oneExtent 8 1000) 5 = .ok 1005 := by
  have valid := oneExtent_valid (.inl rfl)
  refine ⟨valid, (lookup_right_iff valid).2 (.inl ⟨by decide, fun i record => ?_⟩), by decide⟩
  have one : i < 1 := record
  obtain rfl : i = 0 := by omega
  decide

/-- **Eight blocks that are allocated and not written** are read all the same. -/
theorem unwritten_blocks_read : ValidTree (fun _ _ => 0) 2000 (oneExtent 32776 1000).iData ∧
    ext4GetBlock (oneExtent 32776 1000) 5 = .ok 1005 ∧
    ¬ LookupRight (fun _ _ => 0) (oneExtent 32776 1000) := by
  have read : ext4GetBlock (oneExtent 32776 1000) 5 = .ok 1005 := by decide
  refine ⟨oneExtent_valid (.inr rfl), read, fun right => ?_⟩
  have assigned : Assigns (fun _ _ => 0) 0 (oneExtent 32776 1000).iData 5 1005 := right 5 1005 read
  generalize 1005 = p at assigned
  cases assigned with
  | @leaf _ i _ record initialised _ _ =>
      have one : i < 1 := record
      obtain rfl : i = 0 := by omega
      exact initialised (by decide)

end Minus.Fs.Ext4Bytes
