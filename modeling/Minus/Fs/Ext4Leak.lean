/-
# Fs.Ext4Leak — what a failed call of ext4 leaves behind

`LeakFree` asks that a bit which a failed call has set is accounted for: a block is in the
records of some inode, and an inode is in a directory.  The calls of `Fs.Ext4Calls` mark
first and attach later, and give nothing back on the way out.

`leak_free_iff` says when that is no leak.  For blocks it is the ledger of `Theory.Ledger`
over the rounds of the call: the bit is in the bitmap of group 0, where it is that of the
block that is given, and `ext4_set_block` makes a right record.  For a new inode there is
no such case: it is leaked by every failure behind its allocation.
-/
import Minus.Fs.Ext4Calls

namespace Minus.Fs.Ext4Bytes

set_option autoImplicit false

open Minus.Theory
open Minus.Fs.Dcache (Errno)
open Minus.Fs.Ext4 (Stop ssize findFirstZeroBit)

/-! ## Accounts -/

/-- The block and the inode that a bit stands for. -/
def SbInfo.blockNr (sbi : SbInfo) (g i : Nat) : Nat := g * sbi.sBlocksPerGroup.toNat + i + sbi.sFirstDataBlock.toNat

def SbInfo.inoNr (sbi : SbInfo) (g i : Nat) : Nat := g * sbi.sInodesPerGroup.toNat + i + 1

/-- Some inode has the block. -/
def Files.Refers (fs : Files) (q : Nat) : Prop := ∃ ino inode, fs.inodes ino = some inode ∧ Has inode.iData q

/-- The records of a block: the first, and the one that `rec_len` leads to. -/
inductive IsRecord (blockSize : UInt32) (bh : Bytes) : Nat → Prop where
  | first : IsRecord blockSize bh 0
  | next {p : Nat} : IsRecord blockSize bh p → p < blockSize.toNat →
      IsRecord blockSize bh (p + (load16 bh (p + 4)).toNat)

/-- A record in a block of this directory is for inode `x`. -/
def Lists (blockSize : UInt32) (bread : Buffers) (d : Bytes) (x : Nat) : Prop :=
  ∃ nr bh p, Has d nr.toNat ∧ bread nr = some bh ∧ IsRecord blockSize bh p ∧ p < blockSize.toNat ∧
    (load32 bh p).toNat = x

/-- A directory has an entry for inode `x`; the `"."` of `x` itself does not count. -/
def Files.Named (sbi : SbInfo) (fs : Files) (x : Nat) : Prop :=
  ∃ ino inode, fs.inodes ino = some inode ∧ ino.toNat ≠ x ∧ sIsDir inode.iMode = true ∧
    Lists sbi.blockSize fs.bread inode.iData x

/-- The bits that are set are accounted for, and no bit is cleared. -/
structure LeakFree (sbi : SbInfo) (fs fs' : Files) : Prop where
  blocks : ∀ g i, i < sbi.sBlocksPerGroup.toNat → fs.blocks.bits g i = false → fs'.blocks.bits g i = true →
    fs'.Refers (sbi.blockNr g i)
  inos : ∀ g i, i < sbi.sInodesPerGroup.toNat → fs.inos.bits g i = false → fs'.inos.bits g i = true →
    fs'.Named sbi (sbi.inoNr g i)
  blocksStay : ∀ g i, i < sbi.sBlocksPerGroup.toNat → fs.blocks.bits g i = true → fs'.blocks.bits g i = true
  inosStay : ∀ g i, i < sbi.sInodesPerGroup.toNat → fs.inos.bits g i = true → fs'.inos.bits g i = true

/-- A volume in order: a clear bit is that of a block of the volume that no inode has, or of
an inode that is not there and that no entry names. -/
structure Consistent (sbi : SbInfo) (fs : Files) : Prop where
  log : sbi.sLogBlockSize ≤ 6
  descs : 1 < sbi.sDescPerBlock.toNat
  free : ∀ g i, i < sbi.sBlocksPerGroup.toNat → fs.blocks.bits g i = false →
    sbi.blockNr g i < 2 ^ 32 ∧ ¬ fs.Refers (sbi.blockNr g i)
  unused : ∀ g i, i < sbi.sInodesPerGroup.toNat → fs.inos.bits g i = false →
    sbi.inoNr g i < 2 ^ 32 ∧ fs.inodes (UInt64.ofNat (sbi.inoNr g i)) = none ∧ ¬ fs.Named sbi (sbi.inoNr g i)
  numbered : ∀ ino inode, fs.inodes ino = some inode → inode.iIno = ino ∧ ino.toNat < 2 ^ 32
  volume : ∀ nr, 2 ^ 32 ≤ nr.toNat → fs.bread nr = none

/-! ## When nothing is leaked -/

/-- The block that `ext4_new_block` gives, if any, is one of group 0, and `ext4_set_block`
can make a right record of it. -/
def NextAttaches (sbi : SbInfo) (m : Bitmaps) (d : Bytes) (iblock : UInt32) : Prop :=
  ∀ group idx, FirstFree sbi sbi.sBlocksPerGroup m group idx →
    group = 0 ∧ Attachable d iblock (sbi.pblock 0 idx)

/-- So it is in every round of a write from `a` on, up to the stop or to a block that cannot be read. -/
def RoundsAttach (sbi : SbInfo) (bread : Buffers) (stop : Nat) (positive : 0 < sbi.blockSize.toNat) (inode : Inode)
    (m : Bitmaps) (a : Nat) : Prop :=
  if _ : a < stop then
    let iblock := UInt32.ofNat (a / sbi.blockSize.toNat)
    let next := a + chunk sbi.blockSize.toNat a stop
    match ext4GetBlock inode iblock with
    | .ok pblock => (bread pblock).isSome → RoundsAttach sbi bread stop positive inode m next
    | .error _ => NextAttaches sbi m inode.iData iblock ∧
        ∀ idx, FirstFree sbi sbi.sBlocksPerGroup m 0 idx → (bread (sbi.pblock 0 idx)).isSome →
          RoundsAttach sbi bread stop positive (ext4SetBlock sbi.blockSize inode iblock (sbi.pblock 0 idx)).1
            (m.set 0 idx) next
  else True
termination_by stop - a
decreasing_by
  all_goals
    have := chunk_pos positive ‹a < stop›
    omega

/-- What a call needs of the state in which it is made. -/
def Call.Attaches (sbi : SbInfo) (fs : Files) : Call → Prop
  | .write file buf pos => ∀ inode positive, fs.inodes file = some inode →
      RoundsAttach sbi fs.bread (pos + buf.length) positive inode fs.blocks pos
  | .addEntry dno name ino type => ∀ dir bidx, fs.inodes dno = some dir →
      Returns ((addScan sbi.blockSize dir name ino type).step sbi.blockSize dir fs.bread) (.block 0 true) (.full bidx) →
        NextAttaches sbi fs.blocks dir.iData bidx
  | .makeEmpty ino _ => ∀ inode, fs.inodes ino = some inode → NextAttaches sbi fs.blocks inode.iData 0
  | .create answers _ _ _ | .mkdir answers _ _ _ =>
      answers.newInode = false ∨ ∀ g i, ¬ FirstFree sbi sbi.sInodesPerGroup fs.inos g i

/-! ## The ledger of a call -/

/-- The slots are the bits of the block bitmaps; `refs` are the blocks that inodes have. -/
def SbInfo.ledger (sbi : SbInfo) (m : Bitmaps) (refs : Nat → Prop) : Ledger (Nat × Nat) where
  marked := {s | s.2 < sbi.sBlocksPerGroup.toNat → m.bits s.1 s.2 = true}
  held := {s | s.2 < sbi.sBlocksPerGroup.toNat ∧ sbi.blockNr s.1 s.2 < 2 ^ 32 ∧ refs (sbi.blockNr s.1 s.2)}

/-- The bit that is set where the block of another is given. -/
def SbInfo.shift (sbi : SbInfo) (s : Nat × Nat) : Nat × Nat := (s.1 * sbi.sDescPerBlock.toNat, s.2)

section Bits

variable {sbi : SbInfo} {perGroup : UInt32} {m : Bitmaps} {g i group idx : Nat} {refs refs' : Nat → Prop}

theorem blockNr_inj {g' i' : Nat} (inside : i < sbi.sBlocksPerGroup.toNat) (inside' : i' < sbi.sBlocksPerGroup.toNat)
    (same : sbi.blockNr g i = sbi.blockNr g' i') : (g, i) = (g', i') := by
  unfold SbInfo.blockNr at same
  have sum : g * sbi.sBlocksPerGroup.toNat + i = g' * sbi.sBlocksPerGroup.toNat + i' := by omega
  have positive : 0 < sbi.sBlocksPerGroup.toNat := by omega
  have groups : g = g' := by
    have := congrArg (· / sbi.sBlocksPerGroup.toNat) sum
    simpa [Nat.mul_comm _ sbi.sBlocksPerGroup.toNat, Nat.mul_add_div positive, Nat.div_eq_of_lt inside,
      Nat.div_eq_of_lt inside'] using this
  subst groups
  rw [Nat.add_left_cancel sum]

theorem blockNr_le (le : g ≤ group) : sbi.blockNr g i ≤ sbi.blockNr group i := by
  have := Nat.mul_le_mul_right sbi.sBlocksPerGroup.toNat le
  unfold SbInfo.blockNr
  omega

theorem pblock_toNat {group : UInt32} (inside : idx < sbi.sBlocksPerGroup.toNat) :
    (sbi.pblock group idx).toNat = sbi.blockNr group.toNat idx := by
  have wide := group.toNat_lt
  have wide' := sbi.sBlocksPerGroup.toNat_lt
  have wide'' := sbi.sFirstDataBlock.toNat_lt
  have product : group.toNat * sbi.sBlocksPerGroup.toNat ≤ (2 ^ 32 - 1) * (2 ^ 32 - 1) :=
    Nat.mul_le_mul (by omega) (by omega)
  unfold SbInfo.pblock SbInfo.blockNr
  rw [UInt64.toNat_add, UInt64.toNat_add, UInt64.toNat_mul, UInt32.toNat_toUInt64, UInt32.toNat_toUInt64,
    UInt32.toNat_toUInt64, UInt64.toNat_ofNat']
  generalize group.toNat * sbi.sBlocksPerGroup.toNat = n at *
  omega

@[simp] theorem Bitmaps.set_readable (m : Bitmaps) (g i : Nat) : (m.set g i).readable = m.readable := rfl

theorem Bitmaps.set_bits (m : Bitmaps) (g i g' i' : Nat) :
    (m.set g i).bits g' i' = if g' = g ∧ i' = i then true else m.bits g' i' := by
  unfold Bitmaps.set
  by_cases group : g' = g
  · subst group
    by_cases bit : i' = i
    · simp [bit]
    · simp [bit]
  · simp [group]

theorem Bitmaps.set_stays (m : Bitmaps) (g i : Nat) {g' i' : Nat} (set : m.bits g' i' = true) :
    (m.set g i).bits g' i' = true := by
  rw [Bitmaps.set_bits, set, ite_self]

theorem FirstFree.set_le (free : FirstFree sbi perGroup m group idx) {group' idx' : Nat}
    (later : FirstFree sbi perGroup (m.set g i) group' idx') : group ≤ group' := by
  by_contra less
  have before := free.earlier group' (by omega) later.readable idx' later.inside
  have clear := later.clear
  rw [m.set_stays g i before] at clear
  cases clear

theorem shift_fixed (s : Nat × Nat) (first : s.1 = 0) : sbi.shift s = s := by
  obtain ⟨g, i⟩ := s
  obtain rfl : g = 0 := first
  exact congrArg (·, i) (Nat.zero_mul _)

theorem shift_raises (descs : 1 < sbi.sDescPerBlock.toNat) (s : Nat × Nat) (later : s.1 ≠ 0) :
    s.1 < (sbi.shift s).1 :=
  (Nat.lt_mul_iff_one_lt_right (Nat.pos_of_ne_zero later)).2 descs

/-- An allocation, whatever becomes of the block. -/
theorem take_block (free : FirstFree sbi sbi.sBlocksPerGroup m group idx) {low : Nat} (rises : low ≤ group)
    (adds : ∀ q < 2 ^ 32, refs' q → refs q ∨ q = sbi.blockNr group idx) :
    Ledger.Take Prod.fst sbi.shift low (sbi.ledger m refs)
      (sbi.ledger (m.set (group * sbi.sDescPerBlock.toNat) idx) refs') (group, idx) where
  unmarked marked := by
    have set := marked free.inside
    rw [SbInfo.shift, free.clear] at set
    cases set
  marks := by
    ext ⟨g, i⟩
    simp only [SbInfo.ledger, SbInfo.shift, Set.mem_ofPred_eq, Set.mem_insert_iff, Prod.mk.injEq, Bitmaps.set_bits]
    by_cases here : g = group * sbi.sDescPerBlock.toNat ∧ i = idx
    · simp [here]
    · simp [here]
  holds := by
    rintro ⟨g, i⟩ ⟨inside, low, has⟩
    rcases adds _ low has with has | same
    · exact .inr ⟨inside, low, has⟩
    · exact .inl (blockNr_inj inside free.inside same)
  rises := rises

end Bits

/-! ### Parts of a call -/

/-- Where a call has come from its start: no bit was cleared, and the search will not go
back behind group `low`. -/
structure Tracks (sbi : SbInfo) (start : Ledger (Nat × Nat)) (low : Nat) (m : Bitmaps)
    (refs : Nat → Prop) : Prop where
  grown : start.marked ⊆ (sbi.ledger m refs).marked
  sound : (sbi.ledger m refs).Sound Prod.fst low
  search : ∀ group idx, FirstFree sbi sbi.sBlocksPerGroup m group idx → low ≤ group

/-- A part of a call that leaks nothing if it attaches what it allocates, and else leaks for
good. -/
def Moves (sbi : SbInfo) (start : Ledger (Nat × Nat)) (m : Bitmaps) (refs : Nat → Prop) (m' : Bitmaps)
    (refs' : Nat → Prop) (attaches : Prop) : Prop :=
  ∀ low, Tracks sbi start low m refs → ∃ low', Tracks sbi start low' m' refs' ∧
    (attaches → Ledger.Kept start (sbi.ledger m refs) → Ledger.Kept start (sbi.ledger m' refs')) ∧
    (Ledger.Leaky Prod.fst low start (sbi.ledger m refs) → Ledger.Leaky Prod.fst low' start (sbi.ledger m' refs')) ∧
    (¬ attaches → Ledger.Leaky Prod.fst low' start (sbi.ledger m' refs'))

section Moves

variable {sbi : SbInfo} {start : Ledger (Nat × Nat)} {m m' m'' : Bitmaps} {refs refs' refs'' : Nat → Prop}
  {attaches attaches' : Prop} {group idx : Nat}

theorem Moves.refl (holds : attaches) : Moves sbi start m refs m refs attaches :=
  fun low tracks => ⟨low, tracks, fun _ kept => kept, fun leaky => leaky, fun fails => absurd holds fails⟩

theorem Moves.trans (first : Moves sbi start m refs m' refs' attaches)
    (next : Moves sbi start m' refs' m'' refs'' attaches') :
    Moves sbi start m refs m'' refs'' (attaches ∧ attaches') := by
  intro low tracks
  obtain ⟨low₁, tracks₁, kept₁, leaky₁, lost₁⟩ := first low tracks
  obtain ⟨low₂, tracks₂, kept₂, leaky₂, lost₂⟩ := next low₁ tracks₁
  refine ⟨low₂, tracks₂, fun both kept => kept₂ both.2 (kept₁ both.1 kept), fun leaky => leaky₂ (leaky₁ leaky),
    fun fails => ?_⟩
  by_cases holds : attaches
  · exact lost₂ fun holds' => fails ⟨holds, holds'⟩
  · exact leaky₂ (lost₁ holds)

theorem Moves.congr (moves : Moves sbi start m refs m' refs' attaches) (same : attaches ↔ attaches') :
    Moves sbi start m refs m' refs' attaches' := propext same ▸ moves

/-- **A part of a call with one allocation.** -/
theorem Moves.alloc (descs : 1 < sbi.sDescPerBlock.toNat) (free : FirstFree sbi sbi.sBlocksPerGroup m group idx)
    (attached : Prop) (adds : ∀ q < 2 ^ 32, refs' q ↔ refs q ∨ attached ∧ q = sbi.blockNr group idx)
    (low32 : start.marked ⊆ (sbi.ledger m refs).marked → sbi.blockNr group idx < 2 ^ 32) :
    Moves sbi start m refs (m.set (group * sbi.sDescPerBlock.toNat) idx) refs' (group = 0 ∧ attached) := by
  intro low tracks
  have take : Ledger.Take Prod.fst sbi.shift low (sbi.ledger m refs)
      (sbi.ledger (m.set (group * sbi.sDescPerBlock.toNat) idx) refs') (group, idx) :=
    take_block free (tracks.search group idx free) fun q small has => ((adds q small).1 has).imp_right And.right
  have raises := shift_raises descs
  have grown := tracks.grown.trans take.subset
  refine ⟨group, ⟨grown, Ledger.sound_take shift_fixed tracks.sound take, fun group' idx' => free.set_le⟩, ?_, ?_, ?_⟩
  · rintro ⟨rfl, holds⟩ kept
    have marks := take.marks
    rw [shift_fixed (0, idx) rfl] at marks
    refine kept.take marks ?_ ?_
    · exact fun s held => ⟨held.1, held.2.1, (adds _ held.2.1).2 (.inl held.2.2)⟩
    · have small := low32 tracks.grown
      exact ⟨free.inside, small, (adds _ small).2 (.inr ⟨holds, rfl⟩)⟩
  · exact fun leaky => Ledger.leaky_take shift_fixed raises tracks.grown tracks.sound leaky take
  · intro fails
    by_cases first : group = 0
    · refine Ledger.leaky_dropped shift_fixed tracks.grown take first ?_
      rintro ⟨inside, small, has⟩
      rcases (adds _ small).1 has with has | ⟨holds, -⟩
      · refine tracks.sound (group, idx) (fun marked => take.unmarked ?_) (.inl first) ⟨inside, small, has⟩
        rwa [shift_fixed (group, idx) first]
      · exact fails ⟨first, holds⟩
    · exact Ledger.leaky_shifted raises tracks.grown tracks.sound take first

end Moves

/-! ### Allocation and attachment -/

def Files.start (sbi : SbInfo) (fs : Files) : Ledger (Nat × Nat) := sbi.ledger fs.blocks fs.Refers

section Parts

variable {sbi : SbInfo} {fs : Files} {m m' : Bitmaps} {refs others : Nat → Prop} {bread bread' : Buffers}
  {inode inode' : Inode} {iblock : UInt32} {idx : Nat}

/-- A block that is given is one of the volume. -/
theorem Consistent.small (consistent : Consistent sbi fs) {group : Nat}
    (free : FirstFree sbi sbi.sBlocksPerGroup m group idx)
    (grown : (fs.start sbi).marked ⊆ (sbi.ledger m refs).marked) : sbi.blockNr group idx < 2 ^ 32 := by
  have clear : fs.blocks.bits (group * sbi.sDescPerBlock.toNat) idx = false := by
    by_contra set
    rw [Bool.not_eq_false] at set
    have marked : ((group * sbi.sDescPerBlock.toNat, idx) : Nat × Nat) ∈ (fs.start sbi).marked := fun _ => set
    have later := grown marked free.inside
    rw [free.clear] at later
    cases later
  have descs := consistent.descs
  have below := (consistent.free _ _ free.inside clear).1
  have le : sbi.blockNr group idx ≤ sbi.blockNr (group * sbi.sDescPerBlock.toNat) idx :=
    blockNr_le (Nat.le_mul_of_pos_right _ (by omega))
  omega

theorem nextAttaches_iff {group : UInt32} (free : FirstFree sbi sbi.sBlocksPerGroup m group.toNat idx) (d : Bytes) :
    NextAttaches sbi m d iblock ↔ group.toNat = 0 ∧ Attachable d iblock (sbi.pblock group idx) := by
  constructor
  · intro attaches
    obtain ⟨first, attachable⟩ := attaches _ _ free
    obtain rfl : group = 0 := UInt32.toNat_inj.1 first
    exact ⟨first, attachable⟩
  · rintro ⟨first, attachable⟩ group' idx' free'
    obtain rfl : group = 0 := UInt32.toNat_inj.1 first
    obtain ⟨rfl, rfl⟩ := free.unique free'
    exact ⟨rfl, attachable⟩

/-- `ext4_new_block`, and `ext4_set_block` for an inode. -/
theorem setBlock_moves (consistent : Consistent sbi fs) {group : UInt32}
    (free : FirstFree sbi sbi.sBlocksPerGroup m group.toNat idx) (others : Nat → Prop) (blockSize : UInt32)
    (inode : Inode) (iblock : UInt32) :
    Moves sbi (fs.start sbi) m (fun q => others q ∨ Has inode.iData q)
      (m.set (group.toNat * sbi.sDescPerBlock.toNat) idx)
      (fun q => others q ∨ Has (ext4SetBlock blockSize inode iblock (sbi.pblock group idx)).1.iData q)
      (NextAttaches sbi m inode.iData iblock) := by
  rw [nextAttaches_iff free]
  intro low tracks
  have small := consistent.small free tracks.grown
  rw [← pblock_toNat free.inside] at small
  refine Moves.alloc consistent.descs free _ (fun q below => ?_) (consistent.small free) low tracks
  rw [← pblock_toNat free.inside]
  rcases has_set blockSize inode iblock small with ⟨attachable, has⟩ | ⟨lost, has⟩
  · rw [has, and_iff_right attachable, or_assoc]
  · rw [has q below]
    exact (or_iff_left fun both => lost both.1).symm

/-- What `ext4_new_block` answers. -/
theorem newBlock_cases {out : (Bitmaps × Buffers) × Except Errno UInt64} (run : ext4NewBlock sbi m bread = .ok out) :
    (out = ((m, bread), .error (.other 28)) ∧ ∀ g i, ¬ FirstFree sbi sbi.sBlocksPerGroup m g i) ∨
      ∃ group idx, FirstFree sbi sbi.sBlocksPerGroup m (group : UInt32).toNat idx ∧
        out = ((m.set (group.toNat * sbi.sDescPerBlock.toNat) idx, bread), .ok (sbi.pblock group idx)) := by
  have reads (group : UInt32) (gdp : Desc) (block : UInt32)
      (read : ext4ReadBlockBitmap sbi group false = .ok (gdp, block)) : gdp = groupDesc group := by
    unfold ext4ReadBlockBitmap SbInfo.load at read
    split at read
    · exact (congrArg Prod.fst (Except.ok.inj read)).symm
    · cases read
  unfold ext4NewBlock at run
  obtain ⟨found, search, run⟩ := bind_eq_ok.1 run
  have spec := findFree_spec reads search
  cases found with
  | none => exact .inl ⟨(Except.ok.inj run).symm, spec⟩
  | some place =>
      obtain ⟨group, g, idx⟩ := place
      obtain ⟨free, rfl⟩ := spec
      exact .inr ⟨group, idx, free, (Except.ok.inj run).symm⟩

/-- A call that gets no block for an inode, or cannot attach or read the one it gets. -/
def Unserved (sbi : SbInfo) (bread : Buffers) (inode : Inode) (m : Bitmaps) (iblock : UInt32) (inode' : Inode)
    (m' : Bitmaps) : Prop :=
  ((∀ g i, ¬ FirstFree sbi sbi.sBlocksPerGroup m g i) ∧ inode' = inode ∧ m' = m) ∨
    ∃ group idx, FirstFree sbi sbi.sBlocksPerGroup m (group : UInt32).toNat idx ∧
      m' = m.set (group.toNat * sbi.sDescPerBlock.toNat) idx ∧
      inode' = (ext4SetBlock sbi.blockSize inode iblock (sbi.pblock group idx)).1 ∧
      ((ext4SetBlock sbi.blockSize inode iblock (sbi.pblock group idx)).2 = .ok () → bread (sbi.pblock group idx) = none)

theorem addBlock_unserved {name : List UInt8} {ino : UInt32} {type : UInt8} {e : Errno}
    (run : addBlock sbi.blockSize (ext4NewBlock sbi) inode m bread name ino type iblock =
      .ok ((inode', m', bread'), .error e)) : bread' = bread ∧ Unserved sbi bread inode m iblock inode' m' := by
  unfold addBlock at run
  obtain ⟨out, answer, run⟩ := bind_eq_ok.1 run
  rcases newBlock_cases answer with ⟨rfl, none_⟩ | ⟨group, idx, free, rfl⟩
  · cases run
    exact ⟨rfl, .inl ⟨none_, rfl, rfl⟩⟩
  · dsimp only at run
    split at run
    · rename_i dir₁ e' set
      cases run
      refine ⟨rfl, .inr ⟨group, idx, free, rfl, (congrArg Prod.fst set).symm, fun ok => ?_⟩⟩
      rw [set] at ok
      cases ok
    · rename_i dir₁ _ set
      split at run
      · rename_i unread
        cases run
        exact ⟨rfl, .inr ⟨group, idx, free, rfl, (congrArg Prod.fst set).symm, fun _ => unread⟩⟩
      · obtain ⟨_, _, run⟩ := bind_eq_ok.1 run
        cases run

theorem makeEmpty_unserved {parent : UInt64} {e : Errno}
    (run : ext4MakeEmpty sbi.blockSize (ext4NewBlock sbi) inode parent m bread = .ok ((inode', m', bread'), .error e)) :
    bread' = bread ∧ Unserved sbi bread inode m 0 inode' m' := by
  unfold ext4MakeEmpty at run
  obtain ⟨out, answer, run⟩ := bind_eq_ok.1 run
  rcases newBlock_cases answer with ⟨rfl, none_⟩ | ⟨group, idx, free, rfl⟩
  · cases run
    exact ⟨rfl, .inl ⟨none_, rfl, rfl⟩⟩
  · dsimp only at run
    split at run
    · rename_i dir₁ e' set
      cases run
      refine ⟨rfl, .inr ⟨group, idx, free, rfl, (congrArg Prod.fst set).symm, fun ok => ?_⟩⟩
      rw [set] at ok
      cases ok
    · rename_i dir₁ _ set
      split at run
      · rename_i unread
        cases run
        exact ⟨rfl, .inr ⟨group, idx, free, rfl, (congrArg Prod.fst set).symm, fun _ => unread⟩⟩
      · obtain ⟨_, _, run⟩ := bind_eq_ok.1 run
        obtain ⟨_, _, run⟩ := bind_eq_ok.1 run
        cases run

theorem Unserved.moves (consistent : Consistent sbi fs) (unserved : Unserved sbi bread inode m iblock inode' m')
    (others : Nat → Prop) :
    Moves sbi (fs.start sbi) m (fun q => others q ∨ Has inode.iData q) m' (fun q => others q ∨ Has inode'.iData q)
      (NextAttaches sbi m inode.iData iblock) := by
  rcases unserved with ⟨none_, rfl, rfl⟩ | ⟨group, idx, free, rfl, rfl, -⟩
  · exact .refl fun group idx free => absurd free (none_ group idx)
  · exact setBlock_moves consistent free others sbi.blockSize inode iblock

end Parts

/-! ### The rounds of a write -/

section Write

variable {sbi : SbInfo} {fs : Files} {bread : Buffers} {stop : Nat} {positive : 0 < sbi.blockSize.toNat}

theorem roundsAttach_iff (bread : Buffers) (positive : 0 < sbi.blockSize.toNat) (inode : Inode) (m : Bitmaps)
    {a : Nat}
    (below : a < stop) :
    RoundsAttach sbi bread stop positive inode m a ↔
      match ext4GetBlock inode (UInt32.ofNat (a / sbi.blockSize.toNat)) with
      | .ok pblock => (bread pblock).isSome →
          RoundsAttach sbi bread stop positive inode m (a + chunk sbi.blockSize.toNat a stop)
      | .error _ => NextAttaches sbi m inode.iData (UInt32.ofNat (a / sbi.blockSize.toNat)) ∧
          ∀ idx, FirstFree sbi sbi.sBlocksPerGroup m 0 idx → (bread (sbi.pblock 0 idx)).isSome →
            RoundsAttach sbi bread stop positive
              (ext4SetBlock sbi.blockSize inode (UInt32.ofNat (a / sbi.blockSize.toNat)) (sbi.pblock 0 idx)).1
              (m.set 0 idx) (a + chunk sbi.blockSize.toNat a stop) := by
  rw [RoundsAttach, dif_pos below]

/-- What `writeBlock` does to the file and the bitmaps. -/
inductive Round (sbi : SbInfo) (s : Writing) (iblock : UInt32) : Except (Stop Writing) (Writing × UInt64) → Prop where
  | wild : Round sbi s iblock (.error .wild)
  | mapped (p : UInt64) : ext4GetBlock s.inode iblock = .ok p → Round sbi s iblock (.ok (s, p))
  | full (e e' : Ext4.Errno) : ext4GetBlock s.inode iblock = .error e →
      (∀ g i, ¬ FirstFree sbi sbi.sBlocksPerGroup s.blocks g i) → Round sbi s iblock (.error (.short e' s))
  | dropped (e e' : Ext4.Errno) (group : UInt32) (idx : Nat) : ext4GetBlock s.inode iblock = .error e →
      FirstFree sbi sbi.sBlocksPerGroup s.blocks group.toNat idx →
      (ext4SetBlock sbi.blockSize s.inode iblock (sbi.pblock group idx)).2 ≠ .ok () →
      Round sbi s iblock (.error (.short e' ⟨(ext4SetBlock sbi.blockSize s.inode iblock (sbi.pblock group idx)).1,
        s.blocks.set (group.toNat * sbi.sDescPerBlock.toNat) idx, s.bread⟩))
  | added (e : Ext4.Errno) (group : UInt32) (idx : Nat) : ext4GetBlock s.inode iblock = .error e →
      FirstFree sbi sbi.sBlocksPerGroup s.blocks group.toNat idx →
      Round sbi s iblock (.ok (⟨(ext4SetBlock sbi.blockSize s.inode iblock (sbi.pblock group idx)).1,
        s.blocks.set (group.toNat * sbi.sDescPerBlock.toNat) idx, s.bread⟩, sbi.pblock group idx))

theorem writeBlock_round (sbi : SbInfo) (s : Writing) (iblock : UInt32) : Round sbi s iblock
    (writeBlock sbi s iblock) := by
  unfold writeBlock
  cases get : ext4GetBlock s.inode iblock with
  | ok pblock => exact .mapped pblock get
  | error e =>
      dsimp only
      cases answer : ext4NewBlock sbi s.blocks s.bread with
      | error f =>
          cases f
          exact .wild
      | ok out =>
          rcases newBlock_cases answer with ⟨rfl, none_⟩ | ⟨group, idx, free, rfl⟩
          · exact .full e .enospc get none_
          · dsimp only
            have dropped := Round.dropped (s := s) e .enospc group idx get free
            have added := Round.added (s := s) e group idx get free
            cases set : ext4SetBlock sbi.blockSize s.inode iblock (sbi.pblock group idx) with
            | mk inode ret =>
                rw [set] at dropped added
                cases ret with
                | error e' => exact dropped nofun
                | ok _ => exact added

/-- The blocks that inodes have while a file is written: `others` are those of the other
inodes. -/
abbrev Writing.refs (others : Nat → Prop) (s : Writing) (q : Nat) : Prop := others q ∨ Has s.inode.iData q

/-- The loop from a state on leaks nothing if its rounds attach what they allocate. -/
def LoopMoves (sbi : SbInfo) (fs : Files) (bread : Buffers) (stop : Nat) (positive : 0 < sbi.blockSize.toNat)
    (others : Nat → Prop) (s : Writing) (a : Nat) (s' : Writing) : Prop :=
  Moves sbi (fs.start sbi) s.blocks (s.refs others) s'.blocks (s'.refs others)
    (RoundsAttach sbi bread stop positive s.inode s.blocks a)

theorem isSome_update {old : Buffers} (same : ∀ nr, (old nr).isSome = (bread nr).isSome) {p : UInt64} {bh : Bytes}
    (buffer : old p = some bh) (bh' : Bytes) (nr : UInt64) :
    (Function.update old p (some bh') nr).isSome = (bread nr).isSome := by
  by_cases here : nr = p
  · rw [here, Function.update_self, ← same, buffer]
    rfl
  · rw [Function.update_of_ne here, same]

theorem writeLoop_moves (consistent : Consistent sbi fs) (bread : Buffers) (stop : Nat)
    (positive : 0 < sbi.blockSize.toNat)
    (others : Nat → Prop) (buf : List UInt8) (s : Writing)
    (a b : Nat) (same : ∀ nr, (s.bread nr).isSome = (bread nr).isSome) :
    Ends (LoopMoves sbi fs bread stop positive others s a)
      (fun ends => ∀ e s' offset, ends = .short e (s', offset) → LoopMoves sbi fs bread stop positive others s a s')
      (slotLoop sbi.blockSize.toNat positive stop (writeChunk sbi buf) s a b) := by
  induction left : stop - a using Nat.strong_induction_on generalizing s a b with
  | _ measure ih =>
      rw [slotLoop]
      split
      · rename_i below
        have forward := chunk_pos positive below
        have rounds := roundsAttach_iff bread positive s.inode s.blocks below
        have round := writeBlock_round sbi s (UInt32.ofNat (a / sbi.blockSize.toNat))
        -- the rounds behind this one
        have later (s₁ : Writing) (same : ∀ nr, (s₁.bread nr).isSome = (bread nr).isSome) :=
          ih (stop - (a + chunk sbi.blockSize.toNat a stop)) (by omega) s₁ (a + chunk sbi.blockSize.toNat a stop)
            (b + chunk sbi.blockSize.toNat a stop) same rfl
        unfold LoopMoves at *
        unfold writeChunk
        generalize writeBlock sbi s (UInt32.ofNat (a / sbi.blockSize.toNat)) = out at round
        cases round with
        | wild => rintro e s' offset ⟨⟩
        | mapped p get =>
            rw [get] at rounds
            dsimp only at rounds ⊢
            cases buffer : s.bread p with
            | none =>
                rintro e s' offset ⟨⟩
                refine .refl (rounds.2 fun readable => ?_)
                rw [← same, buffer] at readable
                cases readable
            | some bh =>
                have readable : (bread p).isSome := by
                  rw [← same, buffer]
                  rfl
                have goes := rounds.trans ⟨fun rest => rest readable, fun rest _ => rest⟩
                exact (later _ (isSome_update same buffer _)).mono (fun s' moves => moves.congr goes.symm)
                  fun ends moves e s' offset short => (moves e s' offset short).congr goes.symm
        | full e e' get none_ =>
            rw [get] at rounds
            rintro e s' offset ⟨⟩
            exact .refl (rounds.2 ⟨fun group idx free => absurd free (none_ group idx),
              fun idx free => absurd free (none_ 0 idx)⟩)
        | dropped e e' group idx get free failed =>
            rw [get] at rounds
            rintro e s' offset ⟨⟩
            refine (setBlock_moves consistent free others sbi.blockSize s.inode _).congr ?_
            have lost := fun attaches => failed (attachable_set sbi.blockSize s.inode ((nextAttaches_iff free _).1 attaches).2)
            exact iff_of_false lost fun attaches => lost (rounds.1 attaches).1
        | added e group idx get free =>
            rw [get] at rounds
            have moves := setBlock_moves consistent free others sbi.blockSize s.inode
              (UInt32.ofNat (a / sbi.blockSize.toNat))
            dsimp only at rounds ⊢
            cases buffer : s.bread (sbi.pblock group idx) with
            | none =>
                rintro e s' offset ⟨⟩
                refine moves.congr ⟨fun attaches => rounds.2 ⟨attaches, fun idx' free' readable => ?_⟩,
                  fun attaches => (rounds.1 attaches).1⟩
                obtain ⟨first, -⟩ := attaches _ _ free
                obtain rfl : group = 0 := UInt32.toNat_inj.1 first
                obtain ⟨-, rfl⟩ := free.unique free'
                rw [← same, buffer] at readable
                cases readable
            | some bh =>
                have goes : NextAttaches sbi s.blocks s.inode.iData (UInt32.ofNat (a / sbi.blockSize.toNat)) ∧
                    RoundsAttach sbi bread stop positive
                      (ext4SetBlock sbi.blockSize s.inode (UInt32.ofNat (a / sbi.blockSize.toNat)) (sbi.pblock group idx)).1
                      (s.blocks.set (group.toNat * sbi.sDescPerBlock.toNat) idx) (a + chunk sbi.blockSize.toNat a stop) ↔
                    RoundsAttach sbi bread stop positive s.inode s.blocks a := by
                  rw [rounds]
                  refine and_congr_right fun attaches => ?_
                  obtain ⟨first, -⟩ := attaches _ _ free
                  obtain rfl : group = 0 := UInt32.toNat_inj.1 first
                  rw [first, Nat.zero_mul]
                  constructor
                  · intro rest idx' free' _
                    obtain ⟨-, rfl⟩ := free.unique free'
                    exact rest
                  · exact fun rest => rest idx free (by rw [← same, buffer]; rfl)
                exact (later _ (isSome_update same buffer _)).mono (fun s' rest => (moves.trans rest).congr goes)
                  fun ends rest e s' offset short => (moves.trans (rest e s' offset short)).congr goes
      · rename_i beyond
        exact .refl (by rw [RoundsAttach, dif_neg beyond]; trivial)

end Write

/-! ## Calls that allocate blocks -/

section Calls

variable {sbi : SbInfo} {fs fs' : Files} {ino : UInt64} {inode inode' : Inode} {attaches : Prop}

/-- The blocks of the other inodes. -/
def Files.RefersElse (fs : Files) (ino : UInt64) (q : Nat) : Prop :=
  ∃ ino' inode, ino' ≠ ino ∧ fs.inodes ino' = some inode ∧ Has inode.iData q

theorem refers_eq (found : fs.inodes ino = some inode) :
    fs.Refers = fun q => fs.RefersElse ino q ∨ Has inode.iData q := by
  funext q
  refine propext ⟨?_, ?_⟩
  · rintro ⟨ino', other, found', has⟩
    by_cases same : ino' = ino
    · subst same
      rw [found] at found'
      cases found'
      exact .inr has
    · exact .inl ⟨ino', other, same, found', has⟩
  · rintro (⟨ino', other, -, found', has⟩ | has)
    · exact ⟨ino', other, found', has⟩
    · exact ⟨ino, inode, found, has⟩

theorem refers_put (fs : Files) (ino : UInt64) (inode : Inode) :
    (fs.put ino inode).Refers = fun q => fs.RefersElse ino q ∨ Has inode.iData q := by
  have found : (fs.put ino inode).inodes ino = some inode := Function.update_self ..
  rw [refers_eq found]
  funext q
  have other {ino' : UInt64} (apart : ino' ≠ ino) : (fs.put ino inode).inodes ino' = fs.inodes ino' :=
    Function.update_of_ne apart ..
  have same : (fs.put ino inode).RefersElse ino q ↔ fs.RefersElse ino q :=
    exists_congr fun ino' => exists_congr fun inode' => and_congr_right fun apart => by rw [other apart]
  rw [same]

theorem Consistent.tracks (consistent : Consistent sbi fs) : Tracks sbi (fs.start sbi) 0 fs.blocks fs.Refers where
  grown := Set.Subset.rfl
  sound := by
    rintro ⟨g, i⟩ unmarked - ⟨inside, -, has⟩
    have clear : fs.blocks.bits g i = false := by
      by_contra set
      exact unmarked fun _ => Bool.not_eq_false _ ▸ set
    exact (consistent.free g i inside clear).2 has
  search _ _ _ := Nat.zero_le _

/-- What is not kept is a leak, and the other way round for a call that allocates no inode. -/
theorem LeakFree.kept (consistent : Consistent sbi fs) (leakFree : LeakFree sbi fs fs') :
    Ledger.Kept (fs.start sbi) (sbi.ledger fs'.blocks fs'.Refers) := by
  rintro ⟨g, i⟩ marked new
  obtain ⟨inside, clear⟩ := Classical.not_imp.1 new
  rw [Bool.not_eq_true] at clear
  exact ⟨inside, (consistent.free g i inside clear).1, leakFree.blocks g i inside clear (marked inside)⟩

theorem leakFree_iff (consistent : Consistent sbi fs) (inos : fs'.inos = fs.inos)
    (moves : Moves sbi (fs.start sbi) fs.blocks fs.Refers fs'.blocks fs'.Refers attaches) :
    LeakFree sbi fs fs' ↔ attaches := by
  obtain ⟨low, tracks, kept, -, lost⟩ := moves 0 consistent.tracks
  constructor
  · intro leakFree
    by_contra fails
    exact (lost fails).not_kept (leakFree.kept consistent)
  · intro holds
    have kept := kept holds (.refl _)
    refine ⟨fun g i inside clear set => ?_, fun g i _ clear set => ?_, fun g i inside set => ?_, fun g i _ set => ?_⟩
    · refine (kept (g, i) (fun _ => set) fun marked => ?_).2.2
      rw [show fs.blocks.bits g i = true from marked inside] at clear
      cases clear
    · rw [inos, clear] at set
      cases set
    · have marked : ((g, i) : Nat × Nat) ∈ (fs.start sbi).marked := fun _ => set
      exact tracks.grown marked inside
    · rwa [inos]

theorem unserved_leak_free_iff (consistent : Consistent sbi fs) (found : fs.inodes ino = some inode) {iblock : UInt32}
    {m : Bitmaps} (unserved : Unserved sbi fs.bread inode fs.blocks iblock inode' m) :
    LeakFree sbi fs ({ fs with blocks := m }.put ino inode') ↔ NextAttaches sbi fs.blocks inode.iData iblock := by
  refine leakFree_iff consistent rfl ?_
  rw [refers_eq found, refers_put]
  exact unserved.moves consistent (fs.RefersElse ino)

theorem put_self (found : fs.inodes ino = some inode) : fs.put ino inode = fs := by
  have same : Function.update fs.inodes ino (some inode) = fs.inodes := by rw [← found, Function.update_eq_self]
  unfold Files.put
  rw [same]

theorem add_leak_free_iff (consistent : Consistent sbi fs) {name : List UInt8} {x : UInt32} {type : UInt8}
    (fails : Call.Fails sbi fs (.addEntry ino name x type) fs') :
    LeakFree sbi fs fs' ↔ Call.Attaches sbi fs (.addEntry ino name x type) := by
  obtain ⟨dir, fuel, dir', m, bread, e, found, run, rfl⟩ := fails
  have only {out : Added} (ended : Returns ((addScan sbi.blockSize dir name x type).step sbi.blockSize dir fs.bread)
      (.block 0 true) out) : Call.Attaches sbi fs (.addEntry ino name x type) ↔
        ∀ bidx, out = .full bidx → NextAttaches sbi fs.blocks dir.iData bidx := by
    constructor
    · intro attaches bidx full
      exact attaches dir bidx found (full ▸ ended)
    · intro attaches dir' bidx found' full
      rw [found] at found'
      cases found'
      exact attaches bidx (ended.unique full)
  unfold ext4AddEntry at run
  split at run
  · cases run
  · cases run
  · rename_i ended
    cases run
    rw [only ⟨fuel, ended⟩, show ({ fs with blocks := fs.blocks, bread := fs.bread } : Files) = fs from rfl, put_self found]
    exact leakFree_iff consistent rfl (.refl nofun)
  · cases run
  · rename_i bidx ended
    obtain ⟨rfl, unserved⟩ := addBlock_unserved (Option.some.inj run)
    rw [only ⟨fuel, ended⟩, show ({ fs with blocks := m, bread := fs.bread } : Files) = { fs with blocks := m } from rfl,
      unserved_leak_free_iff consistent found unserved]
    exact ⟨fun attaches _ same => Added.full.inj same ▸ attaches, fun attaches => attaches bidx rfl⟩

theorem makeEmpty_leak_free_iff (consistent : Consistent sbi fs) {parent : UInt64}
    (fails : Call.Fails sbi fs (.makeEmpty ino parent) fs') :
    LeakFree sbi fs fs' ↔ Call.Attaches sbi fs (.makeEmpty ino parent) := by
  obtain ⟨inode, inode', m, bread, e, found, run, rfl⟩ := fails
  obtain ⟨rfl, unserved⟩ := makeEmpty_unserved run
  rw [show ({ fs with blocks := m, bread := fs.bread } : Files) = { fs with blocks := m } from rfl,
    unserved_leak_free_iff consistent found unserved]
  constructor
  · intro attaches inode' found'
    rw [found] at found'
    cases found'
    exact attaches
  · exact fun attaches => attaches inode found

theorem writeEnd_blocks (s : Writing) (pos offset : Nat) (ret : Int) :
    (writeEnd s pos offset ret).1.blocks = s.blocks := by
  simp only [writeEnd, apply_ite Prod.fst, apply_ite Writing.blocks, ite_self]

theorem writeEnd_data (s : Writing) (pos offset : Nat) (ret : Int) :
    (writeEnd s pos offset ret).1.inode.iData = s.inode.iData := by
  simp only [writeEnd, apply_ite Prod.fst, apply_ite Writing.inode, apply_ite Inode.iData, ite_self]

theorem write_leak_free_iff (consistent : Consistent sbi fs) {buf : List UInt8} {pos : Nat}
    (fails : Call.Fails sbi fs (.write ino buf pos) fs') :
    LeakFree sbi fs fs' ↔ Call.Attaches sbi fs (.write ino buf pos) := by
  obtain ⟨inode, s', offset, ret, found, run, -, rfl⟩ := fails
  unfold ext4FileWrite at run
  split at run
  · rename_i positive
    have loop := writeLoop_moves consistent fs.bread (pos + buf.length) positive (fs.RefersElse ino) buf
      ⟨inode, fs.blocks, fs.bread⟩ pos 0 fun _ => rfl
    -- the loop has ended in this state, and what follows changes no block
    have ended {s : Writing} (moves : LoopMoves sbi fs fs.bread (pos + buf.length) positive (fs.RefersElse ino)
        ⟨inode, fs.blocks, fs.bread⟩ pos s) {reached : Nat} {ret' : Int} (done : s' = (writeEnd s pos reached ret').1) :
        LeakFree sbi fs ({ fs with blocks := s'.blocks, bread := s'.bread }.put ino s'.inode) ↔
          Call.Attaches sbi fs (.write ino buf pos) := by
      have attaches : Call.Attaches sbi fs (.write ino buf pos) ↔
          RoundsAttach sbi fs.bread (pos + buf.length) positive inode fs.blocks pos := by
        constructor
        · exact fun attaches => attaches inode positive found
        · intro attaches inode' _ found'
          rw [found] at found'
          cases found'
          exact attaches
      rw [attaches]
      refine leakFree_iff consistent rfl ?_
      rw [refers_eq found, refers_put, done, writeEnd_blocks, writeEnd_data]
      exact moves
    generalize slotLoop sbi.blockSize.toNat positive (pos + buf.length) (writeChunk sbi buf)
      ⟨inode, fs.blocks, fs.bread⟩ pos 0 = out at run loop
    split at run
    · rename_i s
      exact ended loop (congrArg Prod.fst (Option.some.inj run)).symm
    · rename_i e s reached
      exact ended (loop e s reached rfl) (congrArg Prod.fst (Option.some.inj run)).symm
    · cases run
  · cases run

end Calls

/-! ## Calls that allocate an inode -/

section Inodes

variable {sbi : SbInfo} {fs fs' : Files} {answers : Answers} {bread : Buffers} {inode inode' : Inode} {m m' inos : Bitmaps}
  {x : Nat} {blockSize : UInt32}

/-- The entries of this inode do not name inode `x`. -/
def Silent (sbi : SbInfo) (bread : Buffers) (x : Nat) (ino : UInt64) (inode : Inode) : Prop :=
  ino.toNat ≠ x → sIsDir inode.iMode = true → ¬ Lists sbi.blockSize bread inode.iData x

theorem not_named_iff : ¬ fs.Named sbi x ↔ ∀ ino inode, fs.inodes ino = some inode → Silent sbi fs.bread x ino inode := by
  simp only [Files.Named, Silent, not_exists, not_and]

theorem silent_put {ino : UInt64} (others : ∀ ino inode, fs.inodes ino = some inode → Silent sbi bread x ino inode)
    (this : Silent sbi bread x ino inode) : ∀ ino' inode', (fs.put ino inode).inodes ino' = some inode' →
      Silent sbi bread x ino' inode' := by
  intro ino' inode' found
  by_cases same : ino' = ino
  · subst same
    rw [show (fs.put ino' inode).inodes ino' = some inode from Function.update_self ..] at found
    cases found
    exact this
  · rw [show (fs.put ino inode).inodes ino' = fs.inodes ino' from Function.update_of_ne same ..] at found
    exact others ino' inode' found

theorem silent_iput (others : ∀ ino inode, fs.inodes ino = some inode → Silent sbi bread x ino inode)
    (this : Silent sbi bread x inode.iIno inode) : ∀ ino' inode', (iput answers fs inode).inodes ino' = some inode' →
      Silent sbi bread x ino' inode' := by
  unfold iput
  split
  · exact silent_put others this
  · exact others

theorem iput_inos (answers : Answers) (fs : Files) (inode : Inode) : (iput answers fs inode).inos = fs.inos := by
  unfold iput
  split <;> rfl

theorem iput_bread (answers : Answers) (fs : Files) (inode : Inode) : (iput answers fs inode).bread = fs.bread := by
  unfold iput
  split <;> rfl

theorem allocInode_cases {out : Bitmaps × Except Errno UInt32} (run : ext4AllocInode sbi answers m = .ok out) :
    (out.1 = m ∧ (∀ g i, ¬ FirstFree sbi sbi.sInodesPerGroup m g i) ∧ ∃ e, out.2 = .error e) ∨
      ∃ group idx, FirstFree sbi sbi.sInodesPerGroup m (group : UInt32).toNat idx ∧
        out.1 = m.set (group.toNat * sbi.sDescPerBlock.toNat) idx ∧
        ∀ ino, out.2 = .ok ino → ino = group * sbi.sInodesPerGroup + UInt32.ofNat idx + 1 := by
  have reads (group : UInt32) (gdp : Desc) (block : UInt32)
      (read : ext4ReadInodeBitmap sbi group true = .ok (gdp, block)) : gdp = groupDesc group := by
    unfold ext4ReadInodeBitmap SbInfo.load at read
    split at read
    · exact (congrArg Prod.fst (Except.ok.inj read)).symm
    · cases read
  unfold ext4AllocInode at run
  obtain ⟨⟨inos, answer⟩, found, run⟩ := bind_eq_ok.1 run
  unfold ext4FindFreeInode at found
  obtain ⟨place, search, found⟩ := bind_eq_ok.1 found
  have spec := findFree_spec reads search
  cases place with
  | none =>
      cases found
      cases run
      exact .inl ⟨rfl, spec, _, rfl⟩
  | some place =>
      obtain ⟨group, g, idx⟩ := place
      obtain ⟨free, rfl⟩ := spec
      cases found
      dsimp only at run
      refine .inr ⟨group, idx, free, ?_⟩
      split at run
      · cases run
        exact ⟨rfl, fun ino same => (Except.ok.inj same).symm⟩
      · cases run
        exact ⟨rfl, nofun⟩

theorem LeakFree.refl (sbi : SbInfo) (fs : Files) : LeakFree sbi fs fs where
  blocks g i _ clear set := by
    rw [clear] at set
    cases set
  inos g i _ clear set := by
    rw [clear] at set
    cases set
  blocksStay _ _ _ set := set
  inosStay _ _ _ set := set

/-- An inode that no entry names is leaked. -/
theorem not_leakFree {group idx : Nat} (free : FirstFree sbi sbi.sInodesPerGroup fs.inos group idx)
    (inos : fs'.inos = fs.inos.set (group * sbi.sDescPerBlock.toNat) idx)
    (silent : ∀ ino inode, fs'.inodes ino = some inode →
      Silent sbi fs'.bread (sbi.inoNr (group * sbi.sDescPerBlock.toNat) idx) ino inode) : ¬ LeakFree sbi fs fs' := by
  intro leakFree
  refine not_named_iff.2 silent (leakFree.inos _ idx free.inside free.clear ?_)
  rw [inos, Bitmaps.set_bits, if_pos ⟨rfl, rfl⟩]

theorem Lists.mono {d d' : Bytes} (lists : Lists blockSize bread d x)
    (has : ∀ nr, (bread nr).isSome → Has d nr.toNat → Has d' nr.toNat) : Lists blockSize bread d' x := by
  obtain ⟨nr, bh, p, holds, buffer, rest⟩ := lists
  refine ⟨nr, bh, p, has nr ?_ holds, buffer, rest⟩
  rw [buffer]
  rfl

/-- A block that could not be attached or read shows no entries. -/
theorem Unserved.silent {iblock : UInt32} (unserved : Unserved sbi bread inode m iblock inode' m')
    (volume : ∀ nr, 2 ^ 32 ≤ nr.toNat → bread nr = none)
    (small : ∀ group idx, FirstFree sbi sbi.sBlocksPerGroup m group idx → sbi.blockNr group idx < 2 ^ 32)
    {ino : UInt64}
    (silent : Silent sbi bread x ino inode) : Silent sbi bread x ino inode' := by
  rcases unserved with ⟨-, rfl, -⟩ | ⟨group, idx, free, -, rfl, unread⟩
  · exact silent
  · obtain ⟨-, mode, -⟩ := setBlock_same sbi.blockSize inode iblock (sbi.pblock group idx)
    intro other isDir lists
    rw [mode] at isDir
    refine silent other isDir (lists.mono fun nr readable has => ?_)
    have below := small _ _ free
    rw [← pblock_toNat free.inside] at below
    have inside : nr.toNat < 2 ^ 32 := by
      by_contra wide
      rw [volume nr (Nat.not_lt.1 wide)] at readable
      cases readable
    rcases has_set sbi.blockSize inode iblock below with ⟨attachable, eq⟩ | ⟨-, eq⟩
    · refine ((eq _).1 has).resolve_right fun same => ?_
      rw [UInt64.toNat_inj.1 same, unread (attachable_set sbi.blockSize inode attachable)] at readable
      cases readable
    · exact (eq _ inside).1 has

/-- How `ext4_add_entry` fails. -/
theorem add_unserved {fuel : Nat} {name : List UInt8} {ino : UInt32} {type : UInt8} {bread' : Buffers} {e : Errno}
    (run : ext4AddEntry fuel sbi.blockSize (ext4NewBlock sbi) inode m bread name ino type =
      some (.ok ((inode', m', bread'), .error e))) :
    bread' = bread ∧ (inode' = inode ∧ m' = m ∨ ∃ bidx, Unserved sbi bread inode m bidx inode' m') := by
  unfold ext4AddEntry at run
  split at run
  · cases run
  · cases run
  · cases run
    exact ⟨rfl, .inl ⟨rfl, rfl⟩⟩
  · cases run
  · rename_i bidx _
    obtain ⟨same, unserved⟩ := addBlock_unserved (Option.some.inj run)
    exact ⟨same, .inr ⟨bidx, unserved⟩⟩

theorem Consistent.silent (consistent : Consistent sbi fs) {group idx : Nat}
    (free : FirstFree sbi sbi.sInodesPerGroup fs.inos group idx) : ∀ ino inode, fs.inodes ino = some inode →
      Silent sbi fs.bread (sbi.inoNr (group * sbi.sDescPerBlock.toNat) idx) ino inode :=
  not_named_iff.1 (consistent.unused _ _ free.inside free.clear).2.2

theorem Consistent.small_first (consistent : Consistent sbi fs) {group idx : Nat}
    (free : FirstFree sbi sbi.sBlocksPerGroup fs.blocks group idx) : sbi.blockNr group idx < 2 ^ 32 :=
  consistent.small free (show (fs.start sbi).marked ⊆ (sbi.ledger fs.blocks fs.Refers).marked from Set.Subset.rfl)

theorem not_has_empty {ino : UInt32} {mode type : UInt16} {nlink : UInt32} {q : Nat} :
    ¬ Has (emptyInode ino mode type nlink).iData q := fun has =>
  absurd ((has_headed _ _).1 has).1 (by decide)

/-- A new inode has no entries. -/
theorem silent_empty {ino : UInt32} {mode type : UInt16} {nlink : UInt32} {ino' : UInt64} :
    Silent sbi bread x ino' (emptyInode ino mode type nlink) := by
  rintro - - ⟨nr, bh, p, has, -⟩
  exact not_has_empty has

theorem create_leak_free_iff (consistent : Consistent sbi fs) {dno : UInt64} {name : List UInt8} {mode : UInt16}
    (fails : Call.Fails sbi fs (.create answers dno name mode) fs') :
    LeakFree sbi fs fs' ↔ Call.Attaches sbi fs (.create answers dno name mode) := by
  obtain ⟨fuel, e, run⟩ := fails
  unfold ext4Create at run
  split at run
  · cases run
  · rename_i dir found
    split at run
    · rename_i refused
      cases run
      exact iff_of_true (.refl sbi fs) (.inl refused)
    · rename_i made
      have leaks {group idx : Nat} (free : FirstFree sbi sbi.sInodesPerGroup fs.inos group idx)
          (leak : ¬ LeakFree sbi fs fs') : LeakFree sbi fs fs' ↔ Call.Attaches sbi fs (.create answers dno name mode) := by
        refine iff_of_false leak ?_
        rintro (refused | none_)
        · exact made refused
        · exact none_ _ _ free
      split at run
      · cases run
      · rename_i inos e' alloc
        rcases allocInode_cases alloc with ⟨same, none_, -⟩ | ⟨group, idx, free, same, -⟩
        · cases same
          cases run
          exact iff_of_true (.refl sbi fs) (.inr none_)
        · cases run
          exact leaks free (not_leakFree free same (consistent.silent free))
      · rename_i inos ino alloc
        rcases allocInode_cases alloc with ⟨-, -, e', never⟩ | ⟨group, idx, free, same, -⟩
        · cases never
        · refine leaks free ?_
          dsimp only at run
          split at run
          · cases run
          · cases run
          · rename_i dir' blocks bread' e' added
            cases run
            obtain ⟨rfl, left⟩ := add_unserved added
            refine not_leakFree free (by rw [iput_inos]; exact same) ?_
            rw [iput_bread]
            refine silent_iput (silent_put (consistent.silent free) ?_) ?_
            · have silent := consistent.silent free dno dir found
              rcases left with ⟨rfl, -⟩ | ⟨bidx, unserved⟩
              · exact silent
              · exact unserved.silent consistent.volume (fun _ _ => consistent.small_first) silent
            · exact silent_empty
          · cases run

/-- The two records of the block that `ext4_make_empty` writes. -/
def emptyBlock (blockSize : UInt32) (old : Bytes) (ino parent : UInt32) : Bytes :=
  store16 (inserted (store16 (inserted (clear old 0 blockSize.toNat) 0 [46] ino 2) 4 12) 12 [46, 46] parent 2) 16
    (blockSize - 12).toUInt16

theorem emptyBlock_records {old : Bytes} {ino parent : UInt32} (large : 1024 ≤ blockSize.toNat)
    (small : blockSize.toNat ≤ 65536) {p : Nat} (record : IsRecord blockSize (emptyBlock blockSize old ino parent) p)
    (inside : p < blockSize.toNat) : load32 (emptyBlock blockSize old ino parent) p = ino ∨
      load32 (emptyBlock blockSize old ino parent) p = parent := by
  have outside {q : Nat} (before : q < 12) : emptyBlock blockSize old ino parent q =
      store16 (inserted (clear old 0 blockSize.toNat) 0 [46] ino 2) 4 12 q := by
    unfold emptyBlock
    rw [store16_outside _ _ (by rw [Set.mem_Ico]; omega), inserted_outside (.inl before)]
  have firstLen : load16 (emptyBlock blockSize old ino parent) 4 = 12 := by
    rw [load16_congr fun q _ high => outside (by omega), load16_store16]
  have secondLen : (load16 (emptyBlock blockSize old ino parent) 16).toNat = blockSize.toNat - 12 := by
    unfold emptyBlock
    rw [load16_store16, UInt32.toNat_toUInt16, UInt32.toNat_sub_of_le _ _ (UInt32.le_iff_toNat_le.2 (by
      show 12 ≤ _
      omega)), Nat.mod_eq_of_lt (by show blockSize.toNat - 12 < 2 ^ 16; omega)]
    rfl
  have firstIno : load32 (emptyBlock blockSize old ino parent) 0 = ino := by
    rw [load32_congr fun q _ high => outside (by omega), load32_store16_of_apart _ _ (.inl (by omega))]
    have shows_ := shows_inserted (clear old 0 blockSize.toNat) 0 ino 2 (show ([46] : List UInt8).length ≤ 255 by decide)
    exact UInt32.toNat_inj.1 shows_.inode
  have secondIno : load32 (emptyBlock blockSize old ino parent) 12 = parent := by
    unfold emptyBlock
    rw [load32_store16_of_apart _ _ (.inl (by omega))]
    have shows_ := shows_inserted (store16 (inserted (clear old 0 blockSize.toNat) 0 [46] ino 2) 4 12) 12 parent 2
      (show ([46, 46] : List UInt8).length ≤ 255 by decide)
    exact UInt32.toNat_inj.1 shows_.inode
  have places {q : Nat} (record : IsRecord blockSize (emptyBlock blockSize old ino parent) q) :
      q = 0 ∨ q = 12 ∨ q = blockSize.toNat := by
    induction record with
    | first => exact .inl rfl
    | next _ below ih =>
        rcases ih with rfl | rfl | rfl
        · rw [firstLen]
          exact .inr (.inl rfl)
        · rw [secondLen]
          omega
        · omega
  rcases places record with rfl | rfl | rfl
  · exact .inl firstIno
  · exact .inr secondIno
  · omega

/-- How `ext4_make_empty` succeeds. -/
theorem makeEmpty_served {parent : UInt64} {bread' : Buffers} {u : Unit} (large : 1024 ≤ sbi.blockSize.toNat)
    (run : ext4MakeEmpty sbi.blockSize (ext4NewBlock sbi) inode parent m bread = .ok ((inode', m', bread'), .ok u)) :
    ∃ group idx old, FirstFree sbi sbi.sBlocksPerGroup m (group : UInt32).toNat idx ∧
      m' = m.set (group.toNat * sbi.sDescPerBlock.toNat) idx ∧
      inode'.iData = (ext4SetBlock sbi.blockSize inode 0 (sbi.pblock group idx)).1.iData ∧ inode'.iIno = inode.iIno ∧
      bread' = Function.update bread (sbi.pblock group idx)
        (some (emptyBlock sbi.blockSize old inode.iIno.toUInt32 parent.toUInt32)) := by
  unfold ext4MakeEmpty at run
  obtain ⟨out, answer, run⟩ := bind_eq_ok.1 run
  rcases newBlock_cases answer with ⟨rfl, -⟩ | ⟨group, idx, free, rfl⟩
  · cases run
  · dsimp only at run
    obtain ⟨-, -, number⟩ := setBlock_same sbi.blockSize inode 0 (sbi.pblock group idx)
    split at run
    · cases run
    · rename_i inode₁ _ set
      split at run
      · cases run
      · rename_i old buffer
        rw [insertAt_eq (by show 0 + (8 + 1) ≤ _; omega), ok_bind, insertAt_eq (by show 12 + (8 + 2) ≤ _; omega),
          ok_bind] at run
        rw [set] at number
        cases run
        refine ⟨group, idx, old, free, rfl, (congrArg (fun out => out.1.iData) set).symm, number, ?_⟩
        rw [emptyBlock, ← number]

theorem blockSize_bounds
    (consistent : Consistent sbi fs) : 1024 ≤ sbi.blockSize.toNat ∧ sbi.blockSize.toNat ≤ 65536 := by
  have low : sbi.sLogBlockSize.toNat ≤ 6 := UInt32.le_iff_toNat_le.1 consistent.log
  unfold SbInfo.blockSize
  rw [← UInt32.ofNat_toNat (x := sbi.sLogBlockSize)]
  generalize sbi.sLogBlockSize.toNat = l at low
  interval_cases l
  all_goals decide

theorem iput_blocks (answers : Answers) (fs : Files) (inode : Inode) :
    (iput answers fs inode).blocks = fs.blocks := by
  unfold iput
  split <;> rfl

theorem iput_refers {q : Nat} (refers : (iput answers fs inode).Refers q) : fs.Refers q ∨ Has inode.iData q := by
  unfold iput at refers
  split at refers
  · rw [refers_put] at refers
    exact refers.imp_left fun ⟨ino, other, _, found, has⟩ => ⟨ino, other, found, has⟩
  · exact .inl refers

/-- A write to a block that an inode does not have does not change its entries. -/
theorem Silent.update {ino p : UInt64} (silent : Silent sbi bread x ino inode) (free : ¬ Has inode.iData p.toNat)
    (bh : Option Bytes) : Silent sbi (Function.update bread p bh) x ino inode := by
  intro other isDir lists
  obtain ⟨nr, bh', q, has, buffer, rest⟩ := lists
  have apart : nr ≠ p := by
    rintro rfl
    exact free has
  rw [Function.update_of_ne apart] at buffer
  exact silent other isDir ⟨nr, bh', q, has, buffer, rest⟩

/-- A new directory lists itself and its parent. -/
theorem silent_made (consistent : Consistent sbi fs) {group idx : Nat}
    (free : FirstFree sbi sbi.sInodesPerGroup fs.inos group idx) {ino : UInt32} {dno : UInt64} {dir : Inode}
    (found : fs.inodes dno = some dir) {p : UInt64} {old : Bytes} (small : p.toNat < 2 ^ 32)
    (volume : ∀ nr, 2 ^ 32 ≤ nr.toNat → bread nr = none)
    (buffer : bread p = some (emptyBlock sbi.blockSize old ino dir.iIno.toUInt32))
    (data : inode.iData = (ext4SetBlock sbi.blockSize inode' 0 p).1.iData) (empty : ∀ q, ¬ Has inode'.iData q) :
    Silent sbi bread (sbi.inoNr (group * sbi.sDescPerBlock.toNat) idx) ino.toUInt64 inode := by
  rintro other - ⟨nr, bh, q, has, here, record, inside, names⟩
  have below : nr.toNat < 2 ^ 32 := by
    by_contra wide
    rw [volume nr (Nat.not_lt.1 wide)] at here
    cases here
  have same : nr = p := by
    rw [data] at has
    rcases has_set sbi.blockSize inode' 0 small with ⟨-, eq⟩ | ⟨-, eq⟩
    · exact UInt64.toNat_inj.1 (((eq _).1 has).resolve_left (empty _))
    · exact absurd ((eq _ below).1 has) (empty _)
  subst same
  rw [buffer] at here
  cases here
  obtain ⟨large, limit⟩ := blockSize_bounds consistent
  rcases emptyBlock_records large limit record inside with own | parent
  · rw [own] at names
    exact other (UInt32.toNat_toUInt64 ino ▸ names)
  · obtain ⟨number, narrow⟩ := consistent.numbered dno dir found
    rw [parent, number, UInt64.toNat_toUInt32, Nat.mod_eq_of_lt narrow] at names
    have absent := (consistent.unused _ _ free.inside free.clear).2.1
    rw [← names, UInt64.ofNat_toNat, found] at absent
    cases absent

/-- The block of the new directory is leaked if it is not from group 0. -/
theorem made_leaks_block (consistent : Consistent sbi fs) {dno : UInt64} {dir dir' : Inode}
    (found : fs.inodes dno = some dir)
    {group : UInt32} {idx : Nat} (free : FirstFree sbi sbi.sBlocksPerGroup fs.blocks group.toNat idx)
    {ino : UInt32} {mode : UInt16} {bread' : Buffers}
    (data : inode.iData = (ext4SetBlock sbi.blockSize (emptyInode ino mode 0o040000 2) 0 (sbi.pblock group idx)).1.iData)
    (left : dir' = dir ∧ m' = fs.blocks.set (group.toNat * sbi.sDescPerBlock.toNat) idx ∨
      ∃ bidx, Unserved sbi bread dir (fs.blocks.set (group.toNat * sbi.sDescPerBlock.toNat) idx) bidx dir' m')
    (later : group.toNat ≠ 0) :
    ¬ LeakFree sbi fs (iput answers ({ fs with blocks := m', inos, bread := bread' }.put dno dir') inode) := by
  have moves := setBlock_moves consistent free fs.Refers sbi.blockSize (emptyInode ino mode 0o040000 2) 0
  rw [← data, nextAttaches_iff free] at moves
  have start : (fun q => fs.Refers q ∨ Has (emptyInode ino mode 0o040000 2).iData q) = fs.Refers :=
    funext fun q => propext (or_iff_left not_has_empty)
  rw [start] at moves
  have refs : (fun q => fs.Refers q ∨ Has inode.iData q) =
      fun q => (fs.RefersElse dno q ∨ Has inode.iData q) ∨ Has dir.iData q := by
    funext q
    rw [refers_eq found]
    exact propext or_right_comm
  have rest : ∃ attaches, Moves sbi (fs.start sbi) (fs.blocks.set (group.toNat * sbi.sDescPerBlock.toNat) idx)
      (fun q => fs.Refers q ∨ Has inode.iData q) m'
      (fun q => (fs.RefersElse dno q ∨ Has inode.iData q) ∨ Has dir'.iData q) attaches := by
    rw [refs]
    rcases left with ⟨rfl, rfl⟩ | ⟨bidx, unserved⟩
    · exact ⟨True, .refl trivial⟩
    · exact ⟨_, unserved.moves consistent _⟩
  obtain ⟨attaches, rest⟩ := rest
  obtain ⟨low, -, -, -, lost⟩ := moves.trans rest 0 consistent.tracks
  intro leakFree
  refine (lost fun both => later both.1.1).not_kept fun s marked new => ?_
  have kept := leakFree.kept consistent s
  rw [iput_blocks] at kept
  obtain ⟨inside, small, refers⟩ := kept marked new
  refine ⟨inside, small, ?_⟩
  rcases iput_refers refers with refers | has
  · rw [refers_put] at refers
    exact refers.imp_left .inl
  · exact .inl (.inr has)

/-- If it is from group 0, the inode of the new directory is leaked. -/
theorem made_leaks_inode (consistent : Consistent sbi fs) {dno : UInt64} {dir dir' : Inode}
    (found : fs.inodes dno = some dir)
    {igroup idx idx' : Nat} (free : FirstFree sbi sbi.sInodesPerGroup fs.inos igroup idx) {group : UInt32}
    (freeBlock : FirstFree sbi sbi.sBlocksPerGroup fs.blocks group.toNat idx') (first : group.toNat = 0)
    {ino : UInt32}
    {mode : UInt16} {old : Bytes} (number : inode.iIno = ino.toUInt64)
    (data : inode.iData = (ext4SetBlock sbi.blockSize (emptyInode ino mode 0o040000 2) 0 (sbi.pblock group idx')).1.iData)
    (buffers : bread = Function.update fs.bread (sbi.pblock group idx')
      (some (emptyBlock sbi.blockSize old ino dir.iIno.toUInt32)))
    (left : dir' = dir ∧ m' = fs.blocks.set (group.toNat * sbi.sDescPerBlock.toNat) idx' ∨
      ∃ bidx, Unserved sbi bread dir (fs.blocks.set (group.toNat * sbi.sDescPerBlock.toNat) idx') bidx dir' m')
    (inosSet : inos = fs.inos.set (igroup * sbi.sDescPerBlock.toNat) idx) :
    ¬ LeakFree sbi fs (iput answers ({ fs with blocks := m', inos, bread }.put dno dir') inode) := by
  have small : (sbi.pblock group idx').toNat < 2 ^ 32 := by
    rw [pblock_toNat freeBlock.inside]
    exact consistent.small_first freeBlock
  have clear := freeBlock.clear
  rw [first, Nat.zero_mul] at clear
  have fresh : ¬ fs.Refers (sbi.pblock group idx').toNat := by
    rw [pblock_toNat freeBlock.inside, first]
    exact (consistent.free 0 idx' freeBlock.inside clear).2
  have volume (nr : UInt64) (beyond : 2 ^ 32 ≤ nr.toNat) : bread nr = none := by
    have apart : nr ≠ sbi.pblock group idx' := by
      rintro rfl
      omega
    rw [buffers, Function.update_of_ne apart, consistent.volume nr beyond]
  have silent (ino' : UInt64) (inode' : Inode) (found' : fs.inodes ino' = some inode') :
      Silent sbi bread (sbi.inoNr (igroup * sbi.sDescPerBlock.toNat) idx) ino' inode' := by
    rw [buffers]
    exact (consistent.silent free ino' inode' found').update (fun has => fresh ⟨ino', inode', found', has⟩) _
  have grown : (fs.start sbi).marked ⊆
      (sbi.ledger (fs.blocks.set (group.toNat * sbi.sDescPerBlock.toNat) idx') fs.Refers).marked :=
    fun _ marked inside => Bitmaps.set_stays _ _ _ (marked inside)
  refine not_leakFree free (by rw [iput_inos]; exact inosSet) ?_
  rw [iput_bread]
  refine silent_iput (silent_put silent ?_) ?_
  · rcases left with ⟨rfl, -⟩ | ⟨bidx, unserved⟩
    · exact silent dno _ found
    · exact unserved.silent volume (fun _ _ free => consistent.small free grown) (silent dno dir found)
  · rw [number]
    have buffer : bread (sbi.pblock group idx') = some (emptyBlock sbi.blockSize old ino dir.iIno.toUInt32) := by
      rw [buffers, Function.update_self]
    exact silent_made consistent free found small volume buffer data fun q => not_has_empty

theorem mkdir_leak_free_iff (consistent : Consistent sbi fs) {dno : UInt64} {name : List UInt8} {mode : UInt16}
    (fails : Call.Fails sbi fs (.mkdir answers dno name mode) fs') :
    LeakFree sbi fs fs' ↔ Call.Attaches sbi fs (.mkdir answers dno name mode) := by
  obtain ⟨fuel, e, run⟩ := fails
  unfold ext4Mkdir at run
  split at run
  · cases run
  · rename_i dir found
    split at run
    · rename_i refused
      cases run
      exact iff_of_true (.refl sbi fs) (.inl refused)
    · rename_i made
      have leaks {group idx : Nat} (free : FirstFree sbi sbi.sInodesPerGroup fs.inos group idx)
          (leak : ¬ LeakFree sbi fs fs') : LeakFree sbi fs fs' ↔ Call.Attaches sbi fs (.mkdir answers dno name mode) := by
        refine iff_of_false leak ?_
        rintro (refused | none_)
        · exact made refused
        · exact none_ _ _ free
      split at run
      · cases run
      · rename_i inos e' alloc
        rcases allocInode_cases alloc with ⟨same, none_, -⟩ | ⟨group, idx, free, same, -⟩
        · cases same
          cases run
          exact iff_of_true (.refl sbi fs) (.inr none_)
        · cases run
          exact leaks free (not_leakFree free same (consistent.silent free))
      · rename_i inos ino alloc
        rcases allocInode_cases alloc with ⟨-, -, e', never⟩ | ⟨group, idx, free, same, -⟩
        · cases never
        · refine leaks free ?_
          split at run
          · cases run
          · rename_i inode blocks bread' e' failed
            cases run
            obtain ⟨rfl, unserved⟩ := makeEmpty_unserved failed
            refine not_leakFree free (by rw [iput_inos]; exact same) ?_
            rw [iput_bread]
            refine silent_iput (consistent.silent free) ?_
            exact unserved.silent consistent.volume (fun _ _ => consistent.small_first) silent_empty
          · rename_i inode blocks bread' _ served
            obtain ⟨group', idx', old, freeBlock, rfl, data, number, buffers⟩ :=
              makeEmpty_served (blockSize_bounds consistent).1 served
            have own : (emptyInode ino mode 0o040000 2).iIno = ino.toUInt64 := rfl
            rw [own, UInt32.toUInt32_toUInt64] at buffers
            split at run
            · cases run
            · cases run
            · rename_i dir' blocks' bread'' e' added
              cases run
              obtain ⟨rfl, left⟩ := add_unserved added
              by_cases first : group'.toNat = 0
              · exact made_leaks_inode consistent found free freeBlock first number data buffers left same
              · exact made_leaks_block consistent found freeBlock data left first
            · cases run

end Inodes

/-! ### A volume with one free block and one free inode -/

/-- All bits but one of group 0 are set. -/
def oneFree (idx : Nat) : Bitmaps := ⟨fun g i => decide (¬ (g = 0 ∧ i = idx)), fun _ => true⟩

/-- Inode 2 is a directory and inode 12 a file, and both are empty. -/
def spare : Files where
  blocks := oneFree 1000
  inos := oneFree 20
  bread _ := none
  inodes ino := if ino = 2 then some (emptyInode 2 0 0o040000 2) else if ino = 12 then some (emptyInode 12 0 0o100000 1) else none

theorem oneFree_clear {g i idx : Nat} : (oneFree idx).bits g i = false ↔ g = 0 ∧ i = idx := by
  unfold oneFree
  rw [decide_eq_false_iff_not, not_not]

theorem oneFree_first {sbi : SbInfo} {perGroup : UInt32} {idx : Nat} (groups : 0 < sbi.sGroupsCount.toNat)
    (inside : idx < perGroup.toNat) : FirstFree sbi perGroup (oneFree idx) 0 idx where
  below := groups
  readable := rfl
  inside := inside
  clear := oneFree_clear.2 ⟨Nat.zero_mul _, rfl⟩
  first i before := by
    rw [← Bool.not_eq_false, oneFree_clear]
    omega
  earlier _ before := absurd before (Nat.not_lt_zero _)

theorem oneFree_found {perGroup : UInt32} {idx : Nat} (inside : idx < perGroup.toNat)
    {read : UInt32 → Except Fault (Desc × UInt32)} {block : UInt32} (reads : read 0 = .ok (⟨0, 0⟩, block)) :
    findFree (smallSbi 1) perGroup read (oneFree idx) = .ok (some (0, 0, idx)) := by
  have zero : findFirstZeroBit ((oneFree idx).bits 0) perGroup.toNat = idx := by
    have first : (List.range perGroup.toNat).find? (fun i => !(oneFree idx).bits 0 i) = some idx := by
      rw [List.find?_range_eq_some]
      refine ⟨?_, List.mem_range.2 inside, fun i before => ?_⟩
      · rw [oneFree_clear.2 ⟨rfl, rfl⟩]
        rfl
      · have set : (oneFree idx).bits 0 i = true := by
          rw [← Bool.not_eq_false, oneFree_clear]
          omega
        rw [set]
        rfl
    rw [findFirstZeroBit, first]
    rfl
  have groups : (smallSbi 1).sGroupsCount.toNat = 1 := rfl
  have described : (smallSbi 1).describes ⟨0, 0⟩ = 0 := rfl
  have readable : (oneFree idx).readable 0 = true := rfl
  rw [findFree, groups, findFreeFrom, reads, ok_bind]
  dsimp only
  rw [described, if_pos readable, zero, if_pos inside]

theorem spare_inode {ino : UInt64} {inode : Inode} (found : spare.inodes ino = some inode) :
    inode.iIno = ino ∧ (ino = 2 ∨ ino = 12) ∧ ∀ q, ¬ Has inode.iData q := by
  unfold spare at found
  dsimp only at found
  split at found
  · rename_i root
    cases found
    exact ⟨root.symm, .inl root, fun q => not_has_empty⟩
  · split at found
    · rename_i file
      cases found
      exact ⟨file.symm, .inr file, fun q => not_has_empty⟩
    · cases found

theorem spare_consistent : Consistent (smallSbi 1) spare where
  log := by decide
  descs := by decide
  free g i _ clear := by
    obtain ⟨rfl, rfl⟩ := oneFree_clear.1 clear
    refine ⟨by decide, ?_⟩
    rintro ⟨ino, inode, found, has⟩
    exact (spare_inode found).2.2 _ has
  unused g i _ clear := by
    obtain ⟨rfl, rfl⟩ := oneFree_clear.1 clear
    refine ⟨by decide, by decide, ?_⟩
    rintro ⟨ino, inode, found, -, -, nr, bh, p, has, -⟩
    exact (spare_inode found).2.2 _ has
  numbered ino inode found := by
    obtain ⟨number, known, -⟩ := spare_inode found
    refine ⟨number, ?_⟩
    rcases known with rfl | rfl <;> decide
  volume _ _ := rfl

theorem spare_newBlock (bread : Buffers) :
    ext4NewBlock (smallSbi 1) (oneFree 1000) bread = .ok (((oneFree 1000).set 0 1000, bread), .ok 1001) := by
  have read : ext4ReadBlockBitmap (smallSbi 1) 0 false = .ok (⟨0, 0⟩, 3) := rfl
  have inside : 1000 < (smallSbi 1).sBlocksPerGroup.toNat := by decide
  rw [ext4NewBlock, oneFree_found inside read]
  rfl

theorem spare_allocInode (answers : Answers) : ext4AllocInode (smallSbi 1) answers (oneFree 20) =
    .ok ((oneFree 20).set 0 20, if answers.kmemCacheAlloc then .ok 21 else .error .enomem) := by
  have read : ext4ReadInodeBitmap (smallSbi 1) 0 true = .ok (⟨0, 0⟩, 4) := rfl
  have inside : 20 < (smallSbi 1).sInodesPerGroup.toNat := by decide
  rw [ext4AllocInode, ext4FindFreeInode, oneFree_found inside read]
  cases answers.kmemCacheAlloc <;> rfl

/-- Inode 12 with the free block. -/
def attached : Inode := (ext4SetBlock (smallSbi 1).blockSize (emptyInode 12 0 0o100000 1) 0 1001).1

theorem spare_unmapped : ext4GetBlock (emptyInode 12 0 0o100000 1) 0 = .error .enospc := by decide

theorem spare_attachable : Attachable (emptyInode 12 0 0o100000 1).iData 0 1001 := by decide

theorem spare_write : ext4FileWrite (smallSbi 1) ⟨emptyInode 12 0 0o100000 1, spare.blocks, spare.bread⟩ [0] 0 =
    some (⟨attached, (oneFree 1000).set 0 1000, spare.bread⟩, 0, -5) := by
  have set : ext4SetBlock (smallSbi 1).blockSize (emptyInode 12 0 0o100000 1) 0 1001 = (attached, .ok ()) :=
    Prod.ext rfl (attachable_set _ _ spare_attachable)
  have block : writeBlock (smallSbi 1) ⟨emptyInode 12 0 0o100000 1, spare.blocks, spare.bread⟩ 0 =
      .ok (⟨attached, (oneFree 1000).set 0 1000, spare.bread⟩, 1001) := by
    have blocks : spare.blocks = oneFree 1000 := rfl
    rw [writeBlock, spare_unmapped]
    dsimp only
    rw [blocks, spare_newBlock]
    dsimp only
    rw [set]
  have round : writeChunk (smallSbi 1) [0] ⟨emptyInode 12 0 0o100000 1, spare.blocks, spare.bread⟩ 0 1 0 =
      .error (.short .eio (⟨attached, (oneFree 1000).set 0 1000, spare.bread⟩, 0)) := by
    have number : UInt32.ofNat (0 / (smallSbi 1).blockSize.toNat) = 0 := rfl
    rw [writeChunk, number, block]
    rfl
  have size : chunk (smallSbi 1).blockSize.toNat 0 (0 + [(0 : UInt8)].length) = 1 := by decide
  rw [ext4FileWrite, dif_pos (by decide), slotLoop, dif_pos (by decide), size]
  dsimp only
  rw [round]
  rfl

/-- **When a call of ext4 that fails leaks nothing.** -/
theorem leak_free_iff {sbi : SbInfo} {fs fs' : Files} (consistent : Consistent sbi fs) (call : Call)
    (fails : call.Fails sbi fs fs') : LeakFree sbi fs fs' ↔ call.Attaches sbi fs := by
  cases call with
  | write file buf pos => exact write_leak_free_iff consistent fails
  | addEntry dir name ino type => exact add_leak_free_iff consistent fails
  | makeEmpty inode parent => exact makeEmpty_leak_free_iff consistent fails
  | create answers dir name mode => exact create_leak_free_iff consistent fails
  | mkdir answers dir name mode => exact mkdir_leak_free_iff consistent fails

/-- The write of one byte takes the free block and cannot read it, but leaks nothing. -/
theorem spare_write_leak_free :
    (Call.write 12 [0] 0).Fails (smallSbi 1) spare
    ({ spare with blocks := (oneFree 1000).set 0 1000 }.put 12 attached) ∧
      LeakFree (smallSbi 1) spare ({ spare with blocks := (oneFree 1000).set 0 1000 }.put 12 attached) := by
  have fails : (Call.write 12 [0] 0).Fails (smallSbi 1) spare
      ({ spare with blocks := (oneFree 1000).set 0 1000 }.put 12 attached) :=
    ⟨_, _, 0, -5, rfl, spare_write, by decide, rfl⟩
  refine ⟨fails, (leak_free_iff spare_consistent _ fails).2 fun inode positive found => ?_⟩
  have file : spare.inodes 12 = some (emptyInode 12 0 0o100000 1) := rfl
  have number : UInt32.ofNat (0 / (smallSbi 1).blockSize.toNat) = 0 := rfl
  rw [file] at found
  cases found
  rw [roundsAttach_iff _ _ _ _ (by decide), number, spare_unmapped]
  refine ⟨fun group idx free => ?_, fun idx _ readable => (nomatch readable)⟩
  obtain ⟨rfl, rfl⟩ := free.unique (oneFree_first (by decide) (by decide : 1000 < _))
  exact ⟨rfl, spare_attachable⟩

/-- A failed `ext4_create` leaks the inode it has marked. -/
theorem spare_create_leaks : Consistent (smallSbi 1) spare ∧
    Call.Fails (smallSbi 1) spare (.create ⟨true, false, true⟩ 2 [97] 0) { spare with inos := (oneFree 20).set 0 20 } ∧
      ¬ LeakFree (smallSbi 1) spare { spare with inos := (oneFree 20).set 0 20 } := by
  have run : ext4Create (smallSbi 1) ⟨true, false, true⟩ 0 spare 2 [97] 0 =
      some (.ok ({ spare with inos := (oneFree 20).set 0 20 }, .error .enomem)) := by
    have root : spare.inodes 2 = some (emptyInode 2 0 0o040000 2) := rfl
    rw [ext4Create, root]
    dsimp only
    rw [if_neg (by decide), show spare.inos = oneFree 20 from rfl, spare_allocInode]
    rfl
  have free : FirstFree (smallSbi 1) (smallSbi 1).sInodesPerGroup spare.inos 0 20 :=
    oneFree_first (by decide) (by decide)
  exact ⟨spare_consistent, ⟨0, .enomem, run⟩, not_leakFree free rfl (spare_consistent.silent free)⟩

end Minus.Fs.Ext4Bytes
