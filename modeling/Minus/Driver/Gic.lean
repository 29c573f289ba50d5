/-
# Driver.Gic — enabling, disabling and configuring interrupts

`gic_v2.c` and `gic_v3.c` of `kernel/driver/gic` over the registers of the
architecture.  A frame of registers has an enable bit and a type field for each
interrupt: reading `ISENABLER` or `ICENABLER` gives the enable bits, writing a 1
sets or clears one, writing a 0 does nothing, and word `n` of `ICFGR` has the
fields of the interrupts from `16n` on.  GICv2 has the distributor alone; GICv3
keeps the private interrupts, 0 to 31, in the redistributor.

`gic_irq_bit_op32` reads, modifies and writes back.  For `ICENABLER` that writes
a 1 for every interrupt that is enabled: `irq_disable` disables the whole group
of 32 (`disables_iff`).  The type of a shared interrupt goes, in GICv3, to the
interrupt 32 before it (`setsType_iff`).
-/
import Minus.Theory.Bytes

namespace Minus.Driver.Gic

set_option autoImplicit false

def einval : Int := -22

/-- `GIC_NR_IRQS`. -/
def nrIrqs : UInt32 := 1020

/-- `GIC_MAX_PPI`. -/
def maxPpi : UInt32 := 31

/-- `GICD_ISENABLER` and `GICR_ISENABLER0`. -/
def isenabler : UInt32 := 0x100

/-- `GICD_ICENABLER` and `GICR_ICENABLER0`. -/
def icenabler : UInt32 := 0x180

/-- `GICD_ICFGR` and `GICR_ICFGR0`. -/
def icfgr : UInt32 := 0xc00

/-! ## The architecture -/

/-- The distributor, and the SGI and PPI frame of the redistributor. -/
inductive Frame where
  | gicd
  | gicrSgi
  deriving DecidableEq

/-- The enable bit and the type field of each interrupt of a frame. -/
structure GicState where
  enabled : Frame × Nat → Bool
  cfg : Frame × Nat → BitVec 2

/-- A register, by its word. -/
inductive Reg where
  | isenabler (n : Nat)
  | icenabler (n : Nat)
  | icfgr (n : Nat)
  | other
  deriving DecidableEq

/-- The register at an offset of a frame. -/
def regAt (off : UInt32) : Reg :=
  if 0x100 ≤ off.toNat ∧ off.toNat < 0x180 then .isenabler ((off.toNat - 0x100) / 4)
  else if 0x180 ≤ off.toNat ∧ off.toNat < 0x200 then .icenabler ((off.toNat - 0x180) / 4)
  else if 0xc00 ≤ off.toNat ∧ off.toNat < 0xd00 then .icfgr ((off.toNat - 0xc00) / 4)
  else .other

/-- A bit of a word. -/
def bit (val : UInt32) (i : Nat) : Bool := val.toBitVec.getLsbD i

/-- The word with the given bits. -/
def wordOf (f : Nat → Bool) : UInt32 := ⟨(BitVec.ofBoolListLE ((List.range 32).map f)).setWidth 32⟩

namespace GicState

/-- Reading a register.  The bits of the reserved interrupt numbers, from 1020 on, are 0. -/
def read (s : GicState) (frame : Frame) : Reg → UInt32
  | .isenabler n | .icenabler n =>
      wordOf fun i => decide (32 * n + i < nrIrqs.toNat) && s.enabled (frame, 32 * n + i)
  | .icfgr n =>
      wordOf fun i => decide (16 * n + i / 2 < nrIrqs.toNat) && (s.cfg (frame, 16 * n + i / 2)).getLsbD (i % 2)
  | .other => 0

/-- Writing a register: a 1 in `ISENABLER` sets the enable bit, in `ICENABLER` it clears it. -/
def write (s : GicState) (frame : Frame) (val : UInt32) : Reg → GicState
  | .isenabler n =>
      { s with enabled := fun at_ =>
          if at_.1 = frame ∧ at_.2 / 32 = n ∧ at_.2 < nrIrqs.toNat ∧ bit val (at_.2 % 32) = true then true
          else s.enabled at_ }
  | .icenabler n =>
      { s with enabled := fun at_ =>
          if at_.1 = frame ∧ at_.2 / 32 = n ∧ at_.2 < nrIrqs.toNat ∧ bit val (at_.2 % 32) = true then false
          else s.enabled at_ }
  | .icfgr n =>
      { s with cfg := fun at_ =>
          if at_.1 = frame ∧ at_.2 / 16 = n ∧ at_.2 < nrIrqs.toNat then val.toBitVec.extractLsb' (2 * (at_.2 % 16)) 2
          else s.cfg at_ }
  | .other => s

end GicState

/-- `gic_read32`. -/
def gicRead32 (s : GicState) (frame : Frame) (off : UInt32) : UInt32 := s.read frame (regAt off)

/-- `gic_write32`. -/
def gicWrite32 (s : GicState) (frame : Frame) (off val : UInt32) : GicState := s.write frame val (regAt off)

/-! ## The drivers -/

/-- `gic_irq_bit_op32`; the one of GICv2 has the distributor for its base. -/
def gicIrqBitOp32 (s : GicState) (base : Frame) (regOff irq : UInt32) (set : Bool) : GicState :=
  let off := regOff + irq / 32 * 4
  let mask := 1 <<< (irq % 32)
  let val := gicRead32 s base off
  gicWrite32 s base off (if set then val ||| mask else val &&& ~~~mask)

/-- The end of `gic_irq_cfg_write`, from `shift` on. -/
def cfgWrite (s : GicState) (base : Frame) (off irq type : UInt32) : GicState :=
  let shift := irq % 16 * 2
  let val := gicRead32 s base off &&& ~~~(3 <<< shift)
  gicWrite32 s base off (val ||| (type &&& 3) <<< shift)

/-- The guard of the public functions. -/
def guarded (s : GicState) (irq : UInt32) (op : GicState) : GicState × Int :=
  if nrIrqs ≤ irq then (s, einval) else (op, 0)

namespace V2

def gicdEnableIrq (s : GicState) (irq : UInt32) : GicState := gicIrqBitOp32 s .gicd isenabler irq true

def gicdDisableIrq (s : GicState) (irq : UInt32) : GicState := gicIrqBitOp32 s .gicd icenabler irq true

def gicIrqCfgWrite (s : GicState) (irq type : UInt32) : GicState := cfgWrite s .gicd (icfgr + irq / 16 * 4) irq type

/-- `gic_v2_irq_enable`. -/
def irqEnable (s : GicState) (irq : UInt32) : GicState × Int := guarded s irq (gicdEnableIrq s irq)

/-- `gic_v2_irq_disable`. -/
def irqDisable (s : GicState) (irq : UInt32) : GicState × Int := guarded s irq (gicdDisableIrq s irq)

/-- `gic_v2_irq_set_type`. -/
def irqSetType (s : GicState) (irq type : UInt32) : GicState × Int := guarded s irq (gicIrqCfgWrite s irq type)

end V2

namespace V3

def gicdEnableIrq (s : GicState) (irq : UInt32) : GicState := gicIrqBitOp32 s .gicd isenabler irq true

def gicdDisableIrq (s : GicState) (irq : UInt32) : GicState := gicIrqBitOp32 s .gicd icenabler irq true

def gicrEnableIrq (s : GicState) (irq : UInt32) : GicState := gicIrqBitOp32 s .gicrSgi isenabler irq true

def gicrDisableIrq (s : GicState) (irq : UInt32) : GicState := gicIrqBitOp32 s .gicrSgi icenabler irq true

/-- `gic_irq_cfg_write`: for a shared interrupt the words of the distributor are counted from
`GIC_MIN_SPI` on. -/
def gicIrqCfgWrite (s : GicState) (irq type : UInt32) : GicState :=
  if irq ≤ maxPpi then cfgWrite s .gicrSgi (icfgr + (irq - 0) / 16 * 4) irq type
  else cfgWrite s .gicd (icfgr + (irq - 32) / 16 * 4) irq type

/-- `gic_v3_irq_enable`. -/
def irqEnable (s : GicState) (irq : UInt32) : GicState × Int :=
  guarded s irq (if irq ≤ maxPpi then gicrEnableIrq s irq else gicdEnableIrq s irq)

/-- `gic_v3_irq_disable`. -/
def irqDisable (s : GicState) (irq : UInt32) : GicState × Int :=
  guarded s irq (if irq ≤ maxPpi then gicrDisableIrq s irq else gicdDisableIrq s irq)

/-- `gic_v3_irq_set_type`. -/
def irqSetType (s : GicState) (irq type : UInt32) : GicState × Int := guarded s irq (gicIrqCfgWrite s irq type)

end V3

/-! ## What is asked of them -/

inductive Version where
  | v2
  | v3
  deriving DecidableEq

namespace Version

variable (version : Version)

def irqEnable (s : GicState) (irq : UInt32) : GicState × Int :=
  match version with
  | .v2 => V2.irqEnable s irq
  | .v3 => V3.irqEnable s irq

def irqDisable (s : GicState) (irq : UInt32) : GicState × Int :=
  match version with
  | .v2 => V2.irqDisable s irq
  | .v3 => V3.irqDisable s irq

def irqSetType (s : GicState) (irq type : UInt32) : GicState × Int :=
  match version with
  | .v2 => V2.irqSetType s irq type
  | .v3 => V3.irqSetType s irq type

/-- Where the registers of an interrupt are. -/
def place (irq : UInt32) : Frame × Nat :=
  match version with
  | .v2 => (.gicd, irq.toNat)
  | .v3 => (if irq ≤ maxPpi then .gicrSgi else .gicd, irq.toNat)

/-- `irq_enable` sets the enable bit of its interrupt, and changes nothing else. -/
def Enables (s : GicState) (irq : UInt32) : Prop :=
  version.irqEnable s irq = ({ s with enabled := Function.update s.enabled (version.place irq) true }, 0)

/-- `irq_disable` clears the enable bit of its interrupt, and changes nothing else. -/
def Disables (s : GicState) (irq : UInt32) : Prop :=
  version.irqDisable s irq = ({ s with enabled := Function.update s.enabled (version.place irq) false }, 0)

/-- `irq_set_type` writes the type field of its interrupt, and changes nothing else. -/
def SetsType (s : GicState) (irq type : UInt32) : Prop :=
  version.irqSetType s irq type =
    ({ s with cfg := Function.update s.cfg (version.place irq) (type.toBitVec.setWidth 2) }, 0)

end Version

/-! ## Bits -/

section Bits

@[simp] theorem bit_wordOf {f : Nat → Bool} {i : Nat} (low : i < 32) : bit (wordOf f) i = f i := by
  rw [bit, wordOf, BitVec.getLsbD_setWidth, BitVec.getLsbD_ofBoolListLE]
  simp [low]

@[simp] theorem bit_or (x y : UInt32) (i : Nat) : bit (x ||| y) i = (bit x i || bit y i) := by
  simp [bit]

@[simp] theorem bit_and (x y : UInt32) (i : Nat) : bit (x &&& y) i = (bit x i && bit y i) := by
  simp [bit]

theorem bit_not (x : UInt32) {i : Nat} (low : i < 32) : bit (~~~x) i = !bit x i := by
  simp [bit, low]

theorem bit_shiftLeft (x y : UInt32) {i : Nat} (low : i < 32) (small : y.toNat < 32) :
    bit (x <<< y) i = (decide (y.toNat ≤ i) && bit x (i - y.toNat)) := by
  have shift : y.toNat % 32 = y.toNat := Nat.mod_eq_of_lt small
  rw [bit, UInt32.toBitVec_shiftLeft, BitVec.shiftLeft_eq', BitVec.getLsbD_shiftLeft]
  simp [bit, low, shift, ← decide_not]

theorem bit_one (i : Nat) : bit 1 i = decide (i = 0) := by
  simp [bit]

theorem bit_three (i : Nat) : bit 3 i = decide (i < 2) := by
  rcases i with _ | _ | i
  · decide
  · decide
  · have high : bit 3 (i + 2) = false := by
      show (3 : BitVec 32).getLsbD _ = false
      rw [BitVec.getLsbD, show (3 : BitVec 32).toNat = 3 from rfl]
      exact Nat.testBit_lt_two_pow
        (Nat.lt_of_lt_of_le (by decide : 3 < 2 ^ 2) (Nat.pow_le_pow_right (by decide) (by omega)))
    simp [high]

/-- The mask of an interrupt in its word. -/
theorem bit_mask (irq : UInt32) {i : Nat} (low : i < 32) :
    bit (1 <<< (irq % 32)) i = decide (i = irq.toNat % 32) := by
  have small : (irq % 32).toNat = irq.toNat % 32 := UInt32.toNat_mod _ _
  rw [bit_shiftLeft _ _ low (by omega), bit_one, small, ← Bool.decide_and, decide_eq_decide]
  omega

end Bits

section Operations

variable {s : GicState} {irq type : UInt32}

/-! ## One register -/

theorem regAt_isenabler (exists_ : irq < nrIrqs) : regAt (isenabler + irq / 32 * 4) = .isenabler (irq.toNat / 32) := by
  have below : irq.toNat < 1020 := UInt32.lt_iff_toNat_lt.1 exists_
  have off : (isenabler + irq / 32 * 4).toNat = 0x100 + irq.toNat / 32 * 4 := by
    simp [isenabler]
    omega
  rw [regAt, off, if_pos (by omega)]
  exact congrArg Reg.isenabler (by omega)

theorem regAt_icenabler (exists_ : irq < nrIrqs) : regAt (icenabler + irq / 32 * 4) = .icenabler (irq.toNat / 32) := by
  have below : irq.toNat < 1020 := UInt32.lt_iff_toNat_lt.1 exists_
  have off : (icenabler + irq / 32 * 4).toNat = 0x180 + irq.toNat / 32 * 4 := by
    simp [icenabler]
    omega
  rw [regAt, off, if_neg (by omega), if_pos (by omega)]
  exact congrArg Reg.icenabler (by omega)

theorem regAt_icfgr (exists_ : irq < nrIrqs) : regAt (icfgr + irq / 16 * 4) = .icfgr (irq.toNat / 16) := by
  have below : irq.toNat < 1020 := UInt32.lt_iff_toNat_lt.1 exists_
  have off : (icfgr + irq / 16 * 4).toNat = 0xc00 + irq.toNat / 16 * 4 := by
    simp [icfgr]
    omega
  rw [regAt, off, if_neg (by omega), if_neg (by omega), if_pos (by omega)]
  exact congrArg Reg.icfgr (by omega)

/-- What `gic_irq_bit_op32` writes back: the enable bits of the group, with that of the interrupt. -/
theorem bit_written (base : Frame) {j : Nat} (real : j < nrIrqs.toNat) (group : j / 32 = irq.toNat / 32) :
    bit (wordOf (fun i => decide (32 * (irq.toNat / 32) + i < nrIrqs.toNat) &&
      s.enabled (base, 32 * (irq.toNat / 32) + i)) ||| 1 <<< (irq % 32)) (j % 32) =
      (s.enabled (base, j) || decide (j = irq.toNat)) := by
  have low : j % 32 < 32 := Nat.mod_lt _ (by decide)
  have same : 32 * (irq.toNat / 32) + j % 32 = j := by omega
  have own : decide (j % 32 = irq.toNat % 32) = decide (j = irq.toNat) := decide_eq_decide.2 (by omega)
  rw [bit_or, bit_wordOf low, bit_mask _ low, same, own, decide_eq_true real, Bool.true_and]

/-- **Writing the enable bits back to `ISENABLER`** sets the one of the interrupt. -/
theorem bitOp_isenabler (base : Frame) (exists_ : irq < nrIrqs) :
    gicIrqBitOp32 s base isenabler irq true = { s with enabled := Function.update s.enabled (base, irq.toNat) true } := by
  have real : irq.toNat < nrIrqs.toNat := UInt32.lt_iff_toNat_lt.1 exists_
  simp only [gicIrqBitOp32, gicRead32, gicWrite32, regAt_isenabler exists_, GicState.read, GicState.write, if_true]
  congr 1
  funext ⟨frame, j⟩
  by_cases own : (frame, j) = (base, irq.toNat)
  · obtain ⟨rfl, rfl⟩ := Prod.mk.inj own
    rw [if_pos ⟨rfl, rfl, real, by rw [bit_written _ real rfl]; simp⟩, Function.update_self]
  · rw [Function.update_of_ne own]
    split
    · obtain ⟨rfl, group, real', set⟩ := ‹_›
      rw [bit_written _ real' group] at set
      have other : j ≠ irq.toNat := fun same => own (same ▸ rfl)
      simpa [other] using set.symm
    · rfl

/-- **Writing them back to `ICENABLER`** clears them all. -/
theorem bitOp_icenabler (base : Frame) (exists_ : irq < nrIrqs) :
    gicIrqBitOp32 s base icenabler irq true = { s with enabled := fun at_ =>
      if at_.1 = base ∧ at_.2 / 32 = irq.toNat / 32 ∧ at_.2 < nrIrqs.toNat then false else s.enabled at_ } := by
  simp only [gicIrqBitOp32, gicRead32, gicWrite32, regAt_icenabler exists_, GicState.read, GicState.write, if_true]
  congr 1
  funext ⟨frame, j⟩
  by_cases group : frame = base ∧ j / 32 = irq.toNat / 32 ∧ j < nrIrqs.toNat
  · rw [if_pos group]
    obtain ⟨rfl, group, real⟩ := group
    split
    · rfl
    · rename_i clear
      have clear : ¬ bit _ (j % 32) = true := fun set => clear ⟨rfl, group, real, set⟩
      rw [bit_written _ real group] at clear
      simp only [Bool.or_eq_true, not_or, Bool.not_eq_true] at clear
      exact clear.1
  · rw [if_neg group, if_neg fun inside => group ⟨inside.1, inside.2.1, inside.2.2.1⟩]

/-- What `gic_irq_cfg_write` writes: two bits of the type at the shift, the others as they were. -/
theorem bit_field (x type : UInt32) {k i : Nat} (small : k < 16) (low : i < 32) :
    bit (x &&& ~~~(3 <<< (UInt32.ofNat k * 2)) ||| (type &&& 3) <<< (UInt32.ofNat k * 2)) i =
      if i / 2 = k then bit type (i % 2) else bit x i := by
  have shift : (UInt32.ofNat k * 2).toNat = k * 2 := by
    simp
    omega
  rw [bit_or, bit_and, bit_not _ low, bit_shiftLeft _ _ low (by omega), bit_shiftLeft _ _ low (by omega), shift,
    bit_and, bit_three]
  split
  · have inside : k * 2 ≤ i ∧ i - k * 2 = i % 2 ∧ i % 2 < 2 := by omega
    simp [inside]
  · have outside : ¬ (k * 2 ≤ i ∧ i - k * 2 < 2) := by omega
    rcases Nat.lt_or_ge i (k * 2) with before | behind
    · simp [Nat.not_le.2 before]
    · have late : ¬ i - k * 2 < 2 := fun less => outside ⟨behind, less⟩
      simp [late]

/-- **Writing a type field back** changes the field whose place in the word the interrupt has. -/
theorem cfgWrite_spec (base : Frame) (off : UInt32) {n : Nat} (reg : regAt off = .icfgr n)
    (real : 16 * n + irq.toNat % 16 < nrIrqs.toNat) :
    cfgWrite s base off irq type =
      { s with cfg := Function.update s.cfg (base, 16 * n + irq.toNat % 16) (type.toBitVec.setWidth 2) } := by
  have place : irq % 16 = UInt32.ofNat (irq.toNat % 16) := UInt32.toNat_inj.1 (by simp; omega)
  have small : irq.toNat % 16 < 16 := Nat.mod_lt _ (by decide)
  simp only [cfgWrite, gicRead32, gicWrite32, reg, GicState.read, GicState.write, place]
  congr 1
  funext ⟨frame, j⟩
  by_cases word : frame = base ∧ j / 16 = n ∧ j < nrIrqs.toNat
  · rw [if_pos word]
    obtain ⟨rfl, rfl, real'⟩ := word
    apply BitVec.eq_of_getLsbD_eq
    intro b two
    have low : 2 * (j % 16) + b < 32 := by omega
    have field : (2 * (j % 16) + b) / 2 = j % 16 ∧ (2 * (j % 16) + b) % 2 = b := by omega
    have same : 16 * (j / 16) + j % 16 = j := by omega
    rw [BitVec.getLsbD_extractLsb', decide_eq_true two, Bool.true_and, ← bit, bit_field _ _ small low, field.1, field.2,
      bit_wordOf low, field.1, field.2, same]
    split
    · have own : (frame, 16 * (j / 16) + irq.toNat % 16) = (frame, j) := Prod.mk.injEq .. ▸ ⟨rfl, by omega⟩
      rw [own, Function.update_self, BitVec.getLsbD_setWidth, decide_eq_true two, Bool.true_and, bit]
    · have other : (frame, j) ≠ (frame, 16 * (j / 16) + irq.toNat % 16) := fun same => by
        have := (Prod.mk.inj same).2
        omega
      rw [Function.update_of_ne other, decide_eq_true real', Bool.true_and]
  · rw [if_neg word, Function.update_of_ne]
    intro own
    obtain ⟨rfl, rfl⟩ := Prod.mk.inj own
    exact word ⟨rfl, by omega, real⟩

/-! ## The drivers -/

theorem place_snd (version : Version) (irq : UInt32) : (version.place irq).2 = irq.toNat := by
  cases version <;> rfl

theorem guarded_of_lt (exists_ : irq < nrIrqs) (op : GicState) : guarded s irq op = (op, 0) :=
  if_neg (UInt32.not_le.2 exists_)

/-- Both drivers apply `gic_irq_bit_op32` to the frame that the interrupt has its registers in. -/
theorem irqEnable_eq (version : Version) (exists_ : irq < nrIrqs) :
    version.irqEnable s irq = (gicIrqBitOp32 s (version.place irq).1 isenabler irq true, 0) := by
  cases version with
  | v2 => exact guarded_of_lt exists_ _
  | v3 =>
      refine (guarded_of_lt exists_ _).trans ?_
      by_cases private_ : irq ≤ maxPpi <;>
        simp [private_, Version.place, V3.gicrEnableIrq, V3.gicdEnableIrq]

theorem irqDisable_eq (version : Version) (exists_ : irq < nrIrqs) :
    version.irqDisable s irq = (gicIrqBitOp32 s (version.place irq).1 icenabler irq true, 0) := by
  cases version with
  | v2 => exact guarded_of_lt exists_ _
  | v3 =>
      refine (guarded_of_lt exists_ _).trans ?_
      by_cases private_ : irq ≤ maxPpi <;>
        simp [private_, Version.place, V3.gicrDisableIrq, V3.gicdDisableIrq]

/-- **`irq_enable` is exact.** -/
theorem enables (version : Version) (exists_ : irq < nrIrqs) : version.Enables s irq := by
  rw [Version.Enables, irqEnable_eq version exists_, bitOp_isenabler _ exists_, ← place_snd version irq]

/-- **`irq_disable` is exact where no other interrupt of the group is enabled**, and nowhere else. -/
theorem disables_iff (version : Version) (exists_ : irq < nrIrqs) :
    version.Disables s irq ↔ ∀ j < nrIrqs.toNat, j / 32 = irq.toNat / 32 → j ≠ irq.toNat →
      s.enabled ((version.place irq).1, j) = false := by
  have real : irq.toNat < nrIrqs.toNat := UInt32.lt_iff_toNat_lt.1 exists_
  have own : version.place irq = ((version.place irq).1, irq.toNat) := Prod.ext rfl (place_snd version irq)
  rw [Version.Disables, irqDisable_eq version exists_, bitOp_icenabler _ exists_, own]
  simp only [Prod.mk.injEq, and_true, GicState.mk.injEq, funext_iff]
  constructor
  · intro same j real' group other
    have at_ := same ((version.place irq).1, j)
    rw [if_pos ⟨rfl, group, real'⟩, Function.update_of_ne fun eq => other (Prod.mk.inj eq).2] at at_
    exact at_.symm
  · rintro quiet ⟨frame, j⟩
    by_cases target : (frame, j) = ((version.place irq).1, irq.toNat)
    · obtain ⟨rfl, rfl⟩ := Prod.mk.inj target
      rw [Function.update_self, if_pos ⟨rfl, rfl, real⟩]
    · rw [Function.update_of_ne target]
      split
      · obtain ⟨rfl, group, real'⟩ := ‹_›
        exact (quiet j real' group fun eq => target (eq ▸ rfl)).symm
      · rfl

/-- Where `irq_set_type` writes: at the interrupt, or 32 before it. -/
def typePlace (version : Version) (irq : UInt32) : Frame × Nat :=
  if version = .v3 ∧ 32 ≤ irq.toNat then (.gicd, irq.toNat - 32) else version.place irq

theorem irqSetType_eq (version : Version) (exists_ : irq < nrIrqs) :
    version.irqSetType s irq type =
      ({ s with cfg := Function.update s.cfg (typePlace version irq) (type.toBitVec.setWidth 2) }, 0) := by
  have real : irq.toNat < 1020 := UInt32.lt_iff_toNat_lt.1 exists_
  have whole : 16 * (irq.toNat / 16) + irq.toNat % 16 = irq.toNat := by omega
  have direct : ∀ base, cfgWrite s base (icfgr + irq / 16 * 4) irq type =
      { s with cfg := Function.update s.cfg (base, irq.toNat) (type.toBitVec.setWidth 2) } := by
    intro base
    rw [cfgWrite_spec base _ (regAt_icfgr exists_) (by rw [whole]; exact real), whole]
  cases version with
  | v2 =>
      refine (guarded_of_lt exists_ _).trans (congrArg (·, (0 : Int)) ?_)
      simpa [V2.gicIrqCfgWrite, typePlace, Version.place] using direct .gicd
  | v3 =>
      refine (guarded_of_lt exists_ _).trans (congrArg (·, (0 : Int)) ?_)
      by_cases private_ : irq ≤ maxPpi
      · have low : ¬ 32 ≤ irq.toNat := by
          have le : irq.toNat ≤ 31 := UInt32.le_iff_toNat_le.1 private_
          omega
        simpa [V3.gicIrqCfgWrite, private_, low, typePlace, Version.place] using direct .gicrSgi
      · have shared : 32 ≤ irq.toNat := by
          have above := UInt32.lt_iff_toNat_lt.1 (UInt32.not_le.1 private_)
          exact above
        have before : (irq - 32).toNat = irq.toNat - 32 :=
          UInt32.toNat_sub_of_le _ _ (UInt32.le_iff_toNat_le.2 shared)
        have reg : regAt (icfgr + (irq - 32) / 16 * 4) = .icfgr ((irq.toNat - 32) / 16) := by
          rw [regAt_icfgr (UInt32.lt_iff_toNat_lt.2 (by change (irq - 32).toNat < 1020; omega)), before]
        have place : 16 * ((irq.toNat - 32) / 16) + irq.toNat % 16 = irq.toNat - 32 := by omega
        have written : cfgWrite s .gicd _ irq type = { s with
            cfg := Function.update s.cfg (.gicd, 16 * ((irq.toNat - 32) / 16) + irq.toNat % 16)
              (type.toBitVec.setWidth 2) } :=
          cfgWrite_spec .gicd _ reg (by rw [place]; change _ < 1020; omega)
        rw [place] at written
        simpa [V3.gicIrqCfgWrite, private_, shared, typePlace] using written

/-- **`irq_set_type` is exact for GICv2 and for private interrupts**; for a shared interrupt of
GICv3 only where it changes nothing. -/
theorem setsType_iff (version : Version) (exists_ : irq < nrIrqs) :
    version.SetsType s irq type ↔ (version = .v3 → 32 ≤ irq.toNat →
      s.cfg (.gicd, irq.toNat) = type.toBitVec.setWidth 2 ∧
        s.cfg (.gicd, irq.toNat - 32) = type.toBitVec.setWidth 2) := by
  have private_iff : irq ≤ maxPpi ↔ ¬ 32 ≤ irq.toNat := by
    rw [UInt32.le_iff_toNat_le, show maxPpi.toNat = 31 from rfl]
    omega
  rw [Version.SetsType, irqSetType_eq version exists_, typePlace]
  by_cases shifted : version = .v3 ∧ 32 ≤ irq.toNat
  · have own : version.place irq = (.gicd, irq.toNat) := by
      rw [shifted.1, Version.place, if_neg (private_iff.not.2 (Classical.not_not.2 shifted.2))]
    have differ : (Frame.gicd, irq.toNat) ≠ (.gicd, irq.toNat - 32) := fun same => by
      have := (Prod.mk.inj same).2
      omega
    rw [if_pos shifted, own]
    simp only [Prod.mk.injEq, and_true, GicState.mk.injEq, true_and, shifted.1, shifted.2, forall_const]
    constructor
    · intro same
      have there := congrFun same (.gicd, irq.toNat)
      have before := congrFun same (.gicd, irq.toNat - 32)
      rw [Function.update_of_ne differ, Function.update_self] at there
      rw [Function.update_of_ne differ.symm, Function.update_self] at before
      exact ⟨there, before.symm⟩
    · rintro ⟨there, before⟩
      rw [← there, Function.update_eq_self, there, ← before, Function.update_eq_self]
  · rw [if_neg shifted]
    exact ⟨fun _ three shared => absurd ⟨three, shared⟩ shifted, fun _ => rfl⟩

/-- **When the operations on an interrupt leave the others alone.** -/
theorem gic_own_iff (version : Version) (s : GicState) (type : UInt32) (exists_ : irq < nrIrqs) :
    version.Enables s irq ∧
      (version.Disables s irq ↔ ∀ j < nrIrqs.toNat, j / 32 = irq.toNat / 32 → j ≠ irq.toNat →
        s.enabled ((version.place irq).1, j) = false) ∧
      (version.SetsType s irq type ↔ (version = .v3 → 32 ≤ irq.toNat →
        s.cfg (.gicd, irq.toNat) = type.toBitVec.setWidth 2 ∧
          s.cfg (.gicd, irq.toNat - 32) = type.toBitVec.setWidth 2)) :=
  ⟨enables version exists_, disables_iff version exists_, setsType_iff version exists_⟩

end Operations

/-- Interrupts 40 and 41 are enabled, all are level-triggered. -/
def twoEnabled : GicState := ⟨fun at_ => at_ == (.gicd, 40) || at_ == (.gicd, 41), fun _ => 0⟩

/-- Beside interrupts 40 and 41, 72 is enabled too, which has no enabled neighbour. -/
def threeEnabled : GicState :=
  { twoEnabled with enabled := fun at_ => at_ == (.gicd, 72) || twoEnabled.enabled at_ }

theorem gic_own_alone : threeEnabled.enabled (.gicd, 72) = true ∧ Version.v3.Disables threeEnabled 72 ∧
    (Version.v3.irqDisable threeEnabled 72).1.enabled (.gicd, 72) = false ∧
      Version.v3.Enables threeEnabled 73 ∧ Version.v2.SetsType threeEnabled 72 2 := by
  have own := gic_own_iff .v3 threeEnabled 2 (show (72 : UInt32) < nrIrqs by decide)
  have other := gic_own_iff .v3 threeEnabled 2 (show (73 : UInt32) < nrIrqs by decide)
  have older := gic_own_iff .v2 threeEnabled 2 (show (72 : UInt32) < nrIrqs by decide)
  refine ⟨by decide, own.2.1.2 fun j _ group ne => ?_, by decide +kernel, other.1, older.2.2.2 nofun⟩
  change j / 32 = 2 at group
  change j ≠ 72 at ne
  have far : j ≠ 40 ∧ j ≠ 41 := by omega
  simp [threeEnabled, twoEnabled, ne, far]

/-- **Disabling interrupt 40 disables interrupt 41**, and making interrupt 72 edge-triggered makes
interrupt 40 so instead. -/
theorem neighbours_changed :
    ((Version.v2.irqDisable twoEnabled 40).1.enabled (.gicd, 41) = false ∧ ¬ Version.v2.Disables twoEnabled 40) ∧
      ((Version.v3.irqSetType twoEnabled 72 2).1.cfg (.gicd, 40) = 2 ∧
        (Version.v3.irqSetType twoEnabled 72 2).1.cfg (.gicd, 72) = 0 ∧ ¬ Version.v3.SetsType twoEnabled 72 2) := by
  have lost : (Version.v2.irqDisable twoEnabled 40).1.enabled (.gicd, 41) = false := by decide +kernel
  have missed : (Version.v3.irqSetType twoEnabled 72 2).1.cfg (.gicd, 72) = 0 := by decide +kernel
  refine ⟨⟨lost, fun exact_ => ?_⟩, by decide +kernel, missed, fun exact_ => ?_⟩
  · rw [exact_] at lost
    exact absurd lost (by decide)
  · rw [exact_] at missed
    exact absurd missed (by decide)

end Minus.Driver.Gic
