/-
# Driver.Mmcblk — requests on the partitions of an SD card

`kernel/driver/sdhci/mmcblk.c` with the data commands of `sd.c`.  A request counts
in blocks of the device, the partition and the card in sectors of 512 bytes, and
the command has 32 bits for the address, a byte address on old cards, and 16 bits
for the number of sectors.  What the controller answers is a parameter of a
request; `Outcome` says what reached the card.

The request checks the end of the partition on products that may have wrapped,
and nothing else.  `partition_access_iff` says when the card is asked for the
right sectors.
-/
import Mathlib.Order.Interval.Set.Basic
import Minus.Theory.Bytes

namespace Minus.Driver.Mmcblk

set_option autoImplicit false

open Minus.Theory

def einval : Int := -22
def etimedout : Int := -110

/-- The fields of `struct sdhci_host` that a request uses. -/
structure Host where
  ioaddr : UInt64
  capacity : UInt64
  highCapacity : UInt8
  deriving DecidableEq

structure BlockDevice where
  bdDev : UInt32
  bdBlockSize : UInt32
  bdPrivate : Option Host
  bdStartLba : UInt64
  bdNrBlocks : UInt64
  deriving DecidableEq

/-! ## The partition table -/

/-- `MKDEV(MMCBLK_MAJOR, MMC_PART_MINOR(host_idx, partno))`. -/
def partDev (hostIdx partno : Nat) : UInt32 := ((179 : UInt32) <<< 20) ||| UInt32.ofNat (hostIdx * 8 + partno)

/-- An entry of the table, if it is in use. -/
def partition (host : Host) (hostIdx : Nat) (mbr : Bytes) (i : Nat) : Option BlockDevice :=
  let p := 446 + 16 * i
  let type := mbr (p + 4)
  let start := load32 mbr (p + 8)
  let size := load32 mbr (p + 12)
  if type = 0 ∨ size = 0 then none
  else some ⟨partDev hostIdx (i + 1), 512, some host, start.toUInt64, size.toUInt64⟩

/-- `mmcblk_scan_partitions`: the devices that it adds.  `ret` is what reading the table gave; `alloc`
and `added` are the entries for which `kmalloc` and `add_block_device` succeed. -/
def mmcblkScanPartitions (host : Host) (hostIdx : Nat) (mbr : Bytes) (ret : Int) (alloc added : Nat → Bool) :
    List BlockDevice :=
  if ret ≠ 0 then []
  else if load16 mbr 510 ≠ 0xaa55 then []
  else (List.range 4).filterMap fun i => if alloc i && added i then partition host hostIdx mbr i else none

/-! ## Data commands -/

/-- What the controller and the card answer: whether the data and command lines get free, and the
results of the response, the transfer and the stop command. -/
structure Answers where
  datFree : Bool
  cmdFree : Bool
  response : Int
  pio : Int
  stop : Int

/-- A data command, with the transfer mode and the block count that go with it. -/
structure DataCmd where
  cmd : UInt8
  arg : UInt32
  mode : UInt16
  blockCount : UInt16
  deriving DecidableEq

/-- The command sent to the card, if any, the length of the transfer after it, and the result. -/
structure Outcome where
  issued : Option DataCmd
  pio : Option UInt32
  ret : Int
  deriving DecidableEq

/-- `SDHCI_TRNS_BLK_CNT_EN`, `SDHCI_TRNS_MULTI` and `SDHCI_TRNS_READ`, as `sd_send_data_cmd` sets them. -/
def transferMode (nrBlocks : UInt32) (write : Bool) : UInt16 :=
  0x02 ||| (if 1 < nrBlocks then 0x20 else 0) ||| (if write then 0 else 0x10)

/-- `sd_send_data_cmd`. -/
def sdSendDataCmd (answers : Answers) (cmd : UInt8) (arg nrBlocks : UInt32) (write : Bool) : Outcome :=
  if nrBlocks = 0 then ⟨none, none, einval⟩
  else if !answers.datFree then ⟨none, none, etimedout⟩
  else if !answers.cmdFree then ⟨none, none, etimedout⟩
  else
    let issued := some ⟨cmd, arg, transferMode nrBlocks write, nrBlocks.toUInt16⟩
    if answers.response < 0 then ⟨issued, none, answers.response⟩
    else
      let pio := some (nrBlocks * 512)
      if answers.pio < 0 then ⟨issued, pio, answers.pio⟩
      else if 1 < nrBlocks ∧ answers.stop < 0 then ⟨issued, pio, answers.stop⟩
      else ⟨issued, pio, 0⟩

/-- The address of a command: the sector, or the byte on a card without block addressing. -/
def cardArg (host : Host) (lba : UInt64) : UInt32 :=
  if host.highCapacity ≠ 0 then lba.toUInt32 else (lba * 512).toUInt32

/-- `sd_read_blocks`, with `CMD17` and `CMD18`. -/
def sdReadBlocks (host : Host) (answers : Answers) (lba : UInt64) (nrBlocks : UInt32) (buf : UInt64) : Outcome :=
  if host.ioaddr = 0 ∨ buf = 0 then ⟨none, none, einval⟩
  else sdSendDataCmd answers (if 1 < nrBlocks then 18 else 17) (cardArg host lba) nrBlocks false

/-- `sd_write_blocks`, with `CMD24` and `CMD25`. -/
def sdWriteBlocks (host : Host) (answers : Answers) (lba : UInt64) (nrBlocks : UInt32) (buf : UInt64) : Outcome :=
  if host.ioaddr = 0 ∨ buf = 0 then ⟨none, none, einval⟩
  else sdSendDataCmd answers (if 1 < nrBlocks then 25 else 24) (cardArg host lba) nrBlocks true

/-- `mmcblk_request`.  The number of sectors is a product of 32 bits. -/
def mmcblkRequest (answers : Answers) (bdev : BlockDevice) (lba : UInt64) (nrBlocks : UInt32) (buf : UInt64)
    (dir : Int) : Outcome :=
  match bdev.bdPrivate with
  | none => ⟨none, none, einval⟩
  | some host =>
      let sectorLba := lba * (bdev.bdBlockSize / 512).toUInt64
      let nrSectors := (nrBlocks * (bdev.bdBlockSize / 512)).toUInt64
      if bdev.bdNrBlocks ≠ 0 ∧ (sectorLba + nrSectors < sectorLba ∨ bdev.bdNrBlocks < sectorLba + nrSectors) then
        ⟨none, none, einval⟩
      else
        let absLba := bdev.bdStartLba + sectorLba
        if dir = 0 then sdReadBlocks host answers absLba nrSectors.toUInt32 buf
        else sdWriteBlocks host answers absLba nrSectors.toUInt32 buf

/-! ## What is asked of a request -/

/-- The sector that a command addresses. -/
def cardSector (host : Host) (c : DataCmd) : Nat :=
  if host.highCapacity ≠ 0 then c.arg.toNat else c.arg.toNat / 512

/-- The sectors that a command transfers. -/
def transferred (host : Host) (c : DataCmd) : Set Nat :=
  Set.Ico (cardSector host c) (cardSector host c + c.blockCount.toNat)

/-- The size of a block of the device, in sectors. -/
def perBlock (bdev : BlockDevice) : Nat := bdev.bdBlockSize.toNat / 512

/-- The command is for the sectors of the request, and these are in the partition and on the card. -/
structure Addresses (host : Host) (part : BlockDevice) (lba : UInt64) (nrBlocks : UInt32) (c : DataCmd) : Prop where
  sector : cardSector host c = part.bdStartLba.toNat + lba.toNat * perBlock part
  count : c.blockCount.toNat = nrBlocks.toNat * perBlock part
  inPartition : transferred host c ⊆ Set.Ico part.bdStartLba.toNat (part.bdStartLba.toNat + part.bdNrBlocks.toNat)
  inCard : transferred host c ⊆ Set.Iio host.capacity.toNat

/-- A data command is for the sectors of the request, and so is the transfer after it; without one
the request fails. -/
structure Stays (host : Host) (part : BlockDevice) (lba : UInt64) (nrBlocks : UInt32) (out : Outcome) : Prop where
  command : ∀ c, out.issued = some c → Addresses host part lba nrBlocks c
  transfer : ∀ len, out.pio = some len → len.toNat = 512 * (nrBlocks.toNat * perBlock part)
  fails : out.issued = none → out.ret < 0

/-- The request is turned down before the card: there is no controller or no buffer, or the products,
as far as they fit in their widths, are 0 sectors or leave the partition. -/
def Refused (host : Host) (part : BlockDevice) (lba : UInt64) (nrBlocks : UInt32) (buf : UInt64) : Prop :=
  host.ioaddr = 0 ∨ buf = 0 ∨ nrBlocks.toNat * perBlock part % 2 ^ 32 = 0 ∨
    part.bdNrBlocks.toNat < lba.toNat * perBlock part % 2 ^ 64 + nrBlocks.toNat * perBlock part % 2 ^ 32

/-- Nothing is lost: the sectors have room in the block count and the address in the argument, and the
card goes that far. -/
def Fits (host : Host) (part : BlockDevice) (lba : UInt64) (nrBlocks : UInt32) : Prop :=
  nrBlocks.toNat * perBlock part < 2 ^ 16 ∧
    (part.bdStartLba.toNat + lba.toNat * perBlock part) * (if host.highCapacity ≠ 0 then 1 else 512) < 2 ^ 32 ∧
    part.bdStartLba.toNat + lba.toNat * perBlock part + nrBlocks.toNat * perBlock part ≤ host.capacity.toNat

section Requests

variable {host : Host} {part : BlockDevice} {lba : UInt64} {nrBlocks : UInt32} {buf : UInt64}

/-! ## The scan -/

/-- The devices of the scan are partitions of the card, not empty, with bounds of 32 bits. -/
structure OnCard (host : Host) (part : BlockDevice) : Prop where
  private_ : part.bdPrivate = some host
  size : part.bdNrBlocks ≠ 0
  bounded : part.bdNrBlocks.toNat < 2 ^ 32
  start : part.bdStartLba.toNat < 2 ^ 32

theorem onCard_of_scan {hostIdx : Nat} {mbr : Bytes} {ret : Int} {alloc added : Nat → Bool}
    (created : part ∈ mmcblkScanPartitions host hostIdx mbr ret alloc added) : OnCard host part := by
  rw [mmcblkScanPartitions] at created
  split at created
  · cases created
  split at created
  · cases created
  obtain ⟨i, -, entry⟩ := List.mem_filterMap.1 created
  split at entry
  · rw [partition] at entry
    split at entry
    · cases entry
    · obtain ⟨-, size⟩ := not_or.1 ‹_›
      obtain rfl := Option.some.inj entry
      refine ⟨rfl, fun zero => size ?_, ?_, ?_⟩
      · simpa using congrArg UInt64.toUInt32 zero
      · simpa using (load32 mbr _).toNat_lt
      · simpa using (load32 mbr _).toNat_lt
  · cases entry

/-! ## A request -/

theorem sectorLba_toNat (part : BlockDevice) (lba : UInt64) :
    (lba * (part.bdBlockSize / 512).toUInt64).toNat = lba.toNat * perBlock part % 2 ^ 64 := by
  simp [UInt64.toNat_mul, perBlock]

theorem nrSectors_toNat (part : BlockDevice) (nrBlocks : UInt32) :
    (nrBlocks * (part.bdBlockSize / 512)).toNat = nrBlocks.toNat * perBlock part % 2 ^ 32 := by
  simp [UInt32.toNat_mul, UInt32.toNat_div, perBlock]

/-- The bound check, on the products as they are. -/
theorem bound_iff (onCard : OnCard host part) (sectorLba : UInt64) (nrSectors : UInt32) :
    (part.bdNrBlocks ≠ 0 ∧ (sectorLba + nrSectors.toUInt64 < sectorLba ∨
      part.bdNrBlocks < sectorLba + nrSectors.toUInt64)) ↔
      part.bdNrBlocks.toNat < sectorLba.toNat + nrSectors.toNat := by
  have small := nrSectors.toNat_lt
  have bounded := onCard.bounded
  have low := sectorLba.toNat_lt
  simp only [ne_eq, onCard.size, not_false_eq_true, true_and, UInt64.lt_iff_toNat_lt, UInt64.toNat_add,
    UInt32.toNat_toUInt64]
  omega

/-- What is sent when nothing turns the request down. -/
def sent (host : Host) (part : BlockDevice) (lba : UInt64) (nrBlocks : UInt32) (dir : Int) : DataCmd :=
  let nrSectors := nrBlocks * (part.bdBlockSize / 512)
  { cmd := if dir = 0 then (if 1 < nrSectors then 18 else 17) else (if 1 < nrSectors then 25 else 24)
    arg := cardArg host (part.bdStartLba + lba * (part.bdBlockSize / 512).toUInt64)
    mode := transferMode nrSectors (dir ≠ 0)
    blockCount := nrSectors.toUInt16 }

/-- **A refused request does not reach the card.** -/
theorem mmcblkRequest_refused (onCard : OnCard host part) (refused : Refused host part lba nrBlocks buf)
    (answers : Answers) (dir : Int) : mmcblkRequest answers part lba nrBlocks buf dir = ⟨none, none, einval⟩ := by
  simp only [mmcblkRequest, onCard.private_, bound_iff onCard, sectorLba_toNat, nrSectors_toNat, UInt32.toUInt32_toUInt64,
    sdReadBlocks, sdWriteBlocks, sdSendDataCmd]
  rcases refused with none_ | none_ | zero | outside
  · simp [none_]
  · simp [none_]
  · have zero : nrBlocks * (part.bdBlockSize / 512) = 0 := UInt32.toNat_inj.1 ((nrSectors_toNat part nrBlocks).trans zero)
    simp [zero]
  · rw [if_pos outside]

theorem sdSendDataCmd_sent {nrSectors : UInt32} (some_ : nrSectors ≠ 0) (answers : Answers) (cmd : UInt8)
    (arg : UInt32) (write : Bool) :
    (answers.datFree && answers.cmdFree) = false ∧
        sdSendDataCmd answers cmd arg nrSectors write = ⟨none, none, etimedout⟩ ∨
      ∃ pio ret, (answers.datFree && answers.cmdFree) = true ∧
        sdSendDataCmd answers cmd arg nrSectors write =
          ⟨some ⟨cmd, arg, transferMode nrSectors write, nrSectors.toUInt16⟩, pio, ret⟩ ∧
        ∀ len, pio = some len → len = nrSectors * 512 := by
  by_cases dat : answers.datFree = true
  · by_cases cmd : answers.cmdFree = true
    · refine .inr ?_
      simp only [sdSendDataCmd, some_, dat, cmd]
      -- where the command fails nothing is transferred
      by_cases response : answers.response < 0
      · exact ⟨none, answers.response, rfl, by simp [response], by simp⟩
      · refine ⟨some (nrSectors * 512), if answers.pio < 0 then answers.pio
          else if 1 < nrSectors ∧ answers.stop < 0 then answers.stop else 0, rfl, ?_,
          fun len same => (Option.some.inj same).symm⟩
        simp [response]
        split_ifs <;> rfl
    · exact .inl ⟨by simp [cmd], by simp [sdSendDataCmd, some_, dat, cmd]⟩
  · exact .inl ⟨by simp [dat], by simp [sdSendDataCmd, some_, dat]⟩

/-- **Any other does, if the controller is free.** -/
theorem mmcblkRequest_sent (onCard : OnCard host part) (passed : ¬ Refused host part lba nrBlocks buf)
    (answers : Answers) (dir : Int) :
    (answers.datFree && answers.cmdFree) = false ∧
        mmcblkRequest answers part lba nrBlocks buf dir = ⟨none, none, etimedout⟩ ∨
      ∃ pio ret, (answers.datFree && answers.cmdFree) = true ∧
        mmcblkRequest answers part lba nrBlocks buf dir = ⟨some (sent host part lba nrBlocks dir), pio, ret⟩ ∧
        ∀ len, pio = some len → len = nrBlocks * (part.bdBlockSize / 512) * 512 := by
  obtain ⟨mapped, passed⟩ := not_or.1 passed
  obtain ⟨buffer, passed⟩ := not_or.1 passed
  obtain ⟨nonzero, inside⟩ := not_or.1 passed
  have some_ : nrBlocks * (part.bdBlockSize / 512) ≠ 0 := fun zero =>
    nonzero ((nrSectors_toNat part nrBlocks).symm.trans (congrArg UInt32.toNat zero))
  have there : ¬ (host.ioaddr = 0 ∨ buf = 0) := not_or.2 ⟨mapped, buffer⟩
  have out : mmcblkRequest answers part lba nrBlocks buf dir =
      sdSendDataCmd answers (sent host part lba nrBlocks dir).cmd (sent host part lba nrBlocks dir).arg
        (nrBlocks * (part.bdBlockSize / 512)) (dir ≠ 0) := by
    simp only [mmcblkRequest, onCard.private_, bound_iff onCard, sectorLba_toNat, nrSectors_toNat, if_neg inside,
      UInt32.toUInt32_toUInt64, sdReadBlocks, sdWriteBlocks, if_neg there, sent]
    by_cases read : dir = 0 <;> simp [read]
  rw [out]
  exact sdSendDataCmd_sent some_ answers _ _ _

/-- **What is sent is for the sectors of the request exactly if nothing is lost.** -/
theorem addresses_iff (onCard : OnCard host part) (passed : ¬ Refused host part lba nrBlocks buf) (dir : Int) :
    Addresses host part lba nrBlocks (sent host part lba nrBlocks dir) ↔ Fits host part lba nrBlocks := by
  obtain ⟨-, passed⟩ := not_or.1 passed
  obtain ⟨-, passed⟩ := not_or.1 passed
  obtain ⟨nonzero, inside⟩ := not_or.1 passed
  have sectors := nrSectors_toNat part nrBlocks
  have address := sectorLba_toNat part lba
  have start := onCard.start
  have bounded := onCard.bounded
  have block := (nrBlocks * (part.bdBlockSize / 512)).toNat_lt
  -- no carry out of 64 bits: the partition ends below 2^33
  have absolute : (part.bdStartLba + lba * (part.bdBlockSize / 512).toUInt64).toNat =
      part.bdStartLba.toNat + lba.toNat * perBlock part % 2 ^ 64 := by
    rw [UInt64.toNat_add, address]
    omega
  have count : (sent host part lba nrBlocks dir).blockCount.toNat =
      nrBlocks.toNat * perBlock part % 2 ^ 32 % 2 ^ 16 := by
    rw [sent, UInt32.toNat_toUInt16, sectors]
  have arg : cardSector host (sent host part lba nrBlocks dir) =
      if host.highCapacity ≠ 0 then (part.bdStartLba.toNat + lba.toNat * perBlock part % 2 ^ 64) % 2 ^ 32
      else (part.bdStartLba.toNat + lba.toNat * perBlock part % 2 ^ 64) * 512 % 2 ^ 32 / 512 := by
    rw [cardSector, sent, cardArg]
    split
    · rw [UInt64.toNat_toUInt32, absolute]
    · rw [UInt64.toNat_toUInt32, UInt64.toNat_mul, absolute]
      congr 1
      change _ * 512 % 2 ^ 64 % 2 ^ 32 = _
      omega
  constructor
  · rintro ⟨sector, number, -, inCard⟩
    rw [count] at number
    rw [arg] at sector
    rw [transferred, arg, count, sector, number] at inCard
    refine ⟨by omega, by split_ifs at sector ⊢ <;> omega, ?_⟩
    -- the last sector is on the card
    have last := inCard (Set.mem_Ico.2 ⟨Nat.le_sub_one_of_lt (Nat.lt_add_of_pos_right (Nat.pos_of_ne_zero fun zero =>
      nonzero (by rw [zero, Nat.zero_mod]))), Nat.sub_lt (by omega) (by decide)⟩)
    rw [Set.mem_Iio] at last
    omega
  · rintro ⟨room, below, inCard⟩
    have sector : cardSector host (sent host part lba nrBlocks dir) =
        part.bdStartLba.toNat + lba.toNat * perBlock part := by
      rw [arg]
      split_ifs at below ⊢ <;> omega
    have number : (sent host part lba nrBlocks dir).blockCount.toNat = nrBlocks.toNat * perBlock part := by
      rw [count]
      omega
    refine ⟨sector, number, ?_, ?_⟩
    · rw [transferred, sector, number]
      apply Set.Ico_subset_Ico <;> split_ifs at below <;> omega
    · rw [transferred, sector, number]
      exact fun x member => Set.mem_Iio.2 (Nat.lt_of_lt_of_le member.2 inCard)

/-- **A partition is accessed as asked exactly if the request is refused or nothing is lost.** -/
theorem partition_access_iff {hostIdx : Nat} {mbr : Bytes} {ret : Int} {alloc added : Nat → Bool} {created : BlockDevice}
    (scanned : created ∈ mmcblkScanPartitions host hostIdx mbr ret alloc added) (blockSize : UInt32) (lba : UInt64)
    (nrBlocks : UInt32) (buf : UInt64) (dir : Int) :
    (∀ answers, Stays host { created with bdBlockSize := blockSize } lba nrBlocks
      (mmcblkRequest answers { created with bdBlockSize := blockSize } lba nrBlocks buf dir)) ↔
      Refused host { created with bdBlockSize := blockSize } lba nrBlocks buf ∨
        Fits host { created with bdBlockSize := blockSize } lba nrBlocks := by
  have onCard_ := onCard_of_scan scanned
  have onCard : OnCard host { created with bdBlockSize := blockSize } := ⟨onCard_.1, onCard_.2, onCard_.3, onCard_.4⟩
  generalize { created with bdBlockSize := blockSize } = part at onCard ⊢
  by_cases refused : Refused host part lba nrBlocks buf
  · refine ⟨fun _ => .inl refused, fun _ answers => ?_⟩
    rw [mmcblkRequest_refused onCard refused]
    exact ⟨nofun, nofun, fun _ => by decide⟩
  constructor
  · intro stays
    obtain ⟨pio, ret, -, out, -⟩ := (mmcblkRequest_sent onCard refused ⟨true, true, 0, 0, 0⟩ dir).resolve_left
      fun out => absurd out.1 (by decide)
    have right := stays ⟨true, true, 0, 0, 0⟩
    rw [out] at right
    exact .inr ((addresses_iff onCard refused dir).1 (right.command _ rfl))
  · intro fits answers
    have fits := fits.resolve_left refused
    rcases mmcblkRequest_sent onCard refused answers dir with ⟨-, out⟩ | ⟨pio, ret, -, out, whole⟩
    · rw [out]
      exact ⟨nofun, nofun, fun _ => by decide⟩
    · rw [out]
      refine ⟨fun c same => ?_, fun len same => ?_, nofun⟩
      · obtain rfl := Option.some.inj same
        exact (addresses_iff onCard refused dir).2 fits
      · obtain ⟨room, -⟩ := fits
        have sectors := nrSectors_toNat part nrBlocks
        rw [whole len same, UInt32.toNat_mul, sectors]
        change _ * 512 % _ = _
        omega

end Requests

/-- A card of 4 GiB. -/
def card : Host := ⟨0xfe340000, 0x800000, 1⟩

/-- A partition table with one entry: 40 MiB from sector 2048 on. -/
def oneEntry : Bytes := fun a =>
  if a = 450 then 0x83 else if a = 455 then 8 else if a = 459 then 0x40 else if a = 460 then 1
  else if a = 510 then 0x55 else if a = 511 then 0xaa else 0

/-- The device of that entry. -/
def onePart : BlockDevice := ⟨partDev 0 1, 512, some card, 2048, 81920⟩

theorem onePart_scanned : onePart ∈ mmcblkScanPartitions card 0 oneEntry 0 (fun _ => true) (fun _ => true) := by
  decide +kernel

/-- Two blocks of 4 KiB, one MiB into the partition. -/
theorem partition_access_4k :
    Fits card { onePart with bdBlockSize := 4096 } 256 2 ∧
      ∀ answers, Stays card { onePart with bdBlockSize := 4096 } 256 2
        (mmcblkRequest answers { onePart with bdBlockSize := 4096 } 256 2 0x1000 0) := by
  have fits : Fits card { onePart with bdBlockSize := 4096 } 256 2 := ⟨by decide, by decide, by decide⟩
  exact ⟨fits, (partition_access_iff onePart_scanned 4096 256 2 0x1000 0).2 (.inr fits)⟩

/-- **32 MiB in one request**: the block count is 0, while the transfer waits for all of them. -/
theorem block_count_lost :
    onePart ∈ mmcblkScanPartitions card 0 oneEntry 0 (fun _ => true) (fun _ => true) ∧
      mmcblkRequest ⟨true, true, 0, 0, 0⟩ onePart 0 65536 0x1000 0 =
        ⟨some ⟨18, 2048, 0x32, 0⟩, some 0x2000000, 0⟩ ∧
      ¬ Stays card onePart 0 65536 (mmcblkRequest ⟨true, true, 0, 0, 0⟩ onePart 0 65536 0x1000 0) := by
  have out : mmcblkRequest ⟨true, true, 0, 0, 0⟩ onePart 0 65536 0x1000 0 =
      ⟨some ⟨18, 2048, 0x32, 0⟩, some 0x2000000, 0⟩ := by decide +kernel
  refine ⟨by decide +kernel, out, fun stays => ?_⟩
  rw [out] at stays
  exact absurd (stays.command _ rfl).count (by decide)

end Minus.Driver.Mmcblk
