/-
# Core.Printk — the buffer of `printk`

`printk` formats into 128 bytes of its stack and hands them to the console.  `Within` says
that a call stays in them.

`kernelCalls` lists the formats of the kernel's calls, with a bound on what their strings can
add up to.  None of these can leave the buffer, whatever numbers they print
(`kernelCalls_within`).  Two calls are not in the list, since nothing bounds their strings:
that of `sys_execve` and the one that prints a property of the device tree.
-/
import Minus.Lib.Vsprintf

namespace Minus.Core.Printk

set_option autoImplicit false

open Minus.Lib

/-- `MAX_BUF_LEN`. -/
def maxBufLen : Nat := 128

/-- The bytes that `printk` writes into `buf`, the terminator included. -/
def printk (fmt : List UInt8) (args : List VaArg) : Option (List UInt8) :=
  (vsprintf fmt args).map fun text => text ++ [0]

/-- The call stays in the buffer. -/
def Within (fmt : List UInt8) (args : List VaArg) : Prop :=
  ∀ buf, printk fmt args = some buf → buf.length ≤ maxBufLen

/-- A format of the kernel, and what the strings of its calls have at most together. -/
structure Call where
  fmt : String
  strings : Nat

/-- The calls of the kernel, file by file.  The strings are `logo`, the device and the file
system of the boot arguments (31 and 15 bytes), and the names of services and subsystems. -/
def kernelCalls : List Call :=
  [
    -- kernel/core/arch/entry.c
    ⟨"bad_mode: unexpected exception elr=%p spsr=%p esr=%p\n", 0⟩,
    ⟨"el0_sync: unhandled exception esr=%p elr=%p\n", 0⟩,
    ⟨"el0_fiq: unexpected\n", 0⟩,
    ⟨"el0_error: unexpected\n", 0⟩,
    ⟨"el1_sync: esr=%p elr=%p\n", 0⟩,
    ⟨"el1_fiq: unexpected\n", 0⟩,
    ⟨"el1_error: unexpected\n", 0⟩,
    -- kernel/core/init.c
    ⟨"subsys_init_all failed\n", 0⟩,
    ⟨"%s\n", 15⟩,
    ⟨"rootfs mounted: %s (%s)\n", 46⟩,
    ⟨"rootfs mount failed: %s (%s)\n", 46⟩,
    ⟨"no root= in bootargs, trying /dev/vda\n", 0⟩,
    ⟨"rootfs mounted: /dev/vda (ext4)\n", 0⟩,
    ⟨"rootfs mount failed: /dev/vda (ext4), trying /dev/mmcblk0p2\n", 0⟩,
    ⟨"rootfs mounted: /dev/mmcblk0p2 (ext4)\n", 0⟩,
    ⟨"rootfs mount failed: /dev/mmcblk0p2 (ext4), trying /dev/mmcblk0\n", 0⟩,
    ⟨"rootfs mounted: /dev/mmcblk0 (ext4)\n", 0⟩,
    ⟨"rootfs mount failed: /dev/mmcblk0 (ext4)\n", 0⟩,
    ⟨"shell spawned\n", 0⟩,
    ⟨"shell spawn failed\n", 0⟩,
    -- kernel/core/service/cap.c
    ⟨"cap: table full\n", 0⟩,
    -- kernel/core/service/svc.c
    ⟨"svc: too many services\n", 0⟩,
    ⟨"svc: '%s' already registered\n", 4⟩,
    -- kernel/core/subsys/subsys.c
    ⟨"subsys: too many subsystems\n", 0⟩,
    ⟨"subsys: ordering bug for '%s' level=%d\n", 7⟩,
    ⟨"subsys: '%s' init failed: %d\n", 7⟩,
    ⟨"%s initialized\n", 7⟩,
    -- kernel/core/subsys/syscall_dispatch.c
    ⟨"syscall %llu out of range\n", 0⟩,
    ⟨"duplicate syscall %llu\n", 0⟩,
    -- kernel/driver/console/uart.c
    ⟨"uart prob fail\n", 0⟩,
    ⟨"uart: no IRQ resource\n", 0⟩,
    ⟨"uart: failed to request IRQ %d\n", 0⟩,
    ⟨"uart: failed to enable IRQ %d\n", 0⟩,
    -- kernel/driver/fb/rpi-fb.c
    ⟨"rpi-fb: simple-framebuffer missing reg resource\n", 0⟩,
    ⟨"rpi-fb: simple-framebuffer missing w/h/stride\n", 0⟩,
    ⟨"rpi-fb: simple-framebuffer res start=%p size=%p\n", 0⟩,
    ⟨"rpi-fb: failed to map simple-framebuffer\n", 0⟩,
    ⟨"rpi-fb: failed to register framebuffer\n", 0⟩,
    ⟨"rpi-fb: firmware property call failed\n", 0⟩,
    ⟨"rpi-fb: firmware did not set response bit (%p)\n", 0⟩,
    ⟨"rpi-fb: invalid firmware response alloc=%p/%p pitch=%p\n", 0⟩,
    ⟨"rpi-fb: failed to map framebuffer\n", 0⟩,
    ⟨"rpi-fb: %ux%u@%u bpp, pitch=%u phys=%p size=%p\n", 0⟩,
    ⟨"rpi-fb: failed to allocate property buffer\n", 0⟩,
    ⟨"rpi-fb: no DT fb node, trying firmware allocation\n", 0⟩,
    -- kernel/driver/mailbox/bcm2835-mbox.c
    ⟨"bcm2835-mbox: write timeout\n", 0⟩,
    ⟨"bcm2835-mbox: read timeout\n", 0⟩,
    ⟨"bcm2835-mbox: unexpected channel %u\n", 0⟩,
    ⟨"bcm2835-mbox: buffer not 16-byte aligned\n", 0⟩,
    ⟨"bcm2835-mbox: response address mismatch %p vs %p\n", 0⟩,
    ⟨"bcm2835-mbox: missing memory resource\n", 0⟩,
    ⟨"bcm2835-mbox: ioremap failed\n", 0⟩,
    ⟨"bcm2835-mbox: probed at %p\n", 0⟩,
    -- kernel/driver/sdhci/mmcblk.c
    ⟨"mmcblk: failed to read MBR\n", 0⟩,
    ⟨"mmcblk: no MBR signature\n", 0⟩,
    ⟨"mmcblk: failed to alloc partition %d\n", 0⟩,
    ⟨"mmcblk: failed to add partition %d\n", 0⟩,
    ⟨"mmcblk: registered mmcblk%dp%d start=%p size=%p type=%p\n", 0⟩,
    ⟨"mmcblk: failed to add block device\n", 0⟩,
    ⟨"mmcblk: registered mmcblk%d\n", 0⟩,
    -- kernel/driver/sdhci/sd.c
    ⟨"sd: no card present\n", 0⟩,
    ⟨"sd: CMD8 failed, not an SDHC/SDXC card\n", 0⟩,
    ⟨"sd: ACMD41 failed\n", 0⟩,
    ⟨"sd: CMD2 failed\n", 0⟩,
    ⟨"sd: CMD3 failed\n", 0⟩,
    ⟨"sd: CMD9 failed\n", 0⟩,
    ⟨"sd: CMD7 failed\n", 0⟩,
    ⟨"sd: CMD16 failed\n", 0⟩,
    ⟨"sd: RCA=%p capacity=%d MiB bus=%d-bit clock=%d Hz\n", 0⟩,
    ⟨"sd: data_cmd cmd=%d send failed ret=%d\n", 0⟩,
    ⟨"sd: data_cmd cmd=%d pio failed ret=%d\n", 0⟩,
    ⟨"sd: data_cmd cmd=%d stop failed ret=%d\n", 0⟩,
    -- kernel/driver/sdhci/sdhci-brcm.c
    ⟨"brcm_sdhci: missing reg/irq resource\n", 0⟩,
    ⟨"brcm_sdhci: ioremap failed\n", 0⟩,
    ⟨"brcm_sdhci: cfg ioremap failed\n", 0⟩,
    ⟨"brcm_sdhci: no clock, fallback to 100 MHz\n", 0⟩,
    ⟨"brcm_sdhci: failed to request irq %d\n", 0⟩,
    ⟨"brcm_sdhci: failed to enable irq %d\n", 0⟩,
    ⟨"brcm_sdhci: probe io=%p irq=%d base_clock=%d node=%p\n", 0⟩,
    ⟨"brcm_sdhci: host init failed\n", 0⟩,
    ⟨"brcm_sdhci: present_state=%p card_present=%d\n", 0⟩,
    ⟨"brcm_sdhci: SDIO controller, skip SD card init\n", 0⟩,
    ⟨"brcm_sdhci: forcing card present via cfg\n", 0⟩,
    ⟨"brcm_sdhci: no card or card init failed\n", 0⟩,
    ⟨"brcm_sdhci: registered mmcblk%d\n", 0⟩,
    -- kernel/driver/sdhci/sdhci-core.c
    ⟨"sdhci: reset timeout mask=%p val=%p\n", 0⟩,
    ⟨"sdhci: clock stable timeout\n", 0⟩,
    ⟨"sdhci: irq error status=%p\n", 0⟩,
    ⟨"sdhci: wait_irq timeout mask=%p status=%p\n", 0⟩,
    ⟨"sdhci: cmd inhibit timeout cmd=%d\n", 0⟩,
    ⟨"sdhci: cmd=%d wait response failed ret=%d\n", 0⟩,
    ⟨"sdhci: pio word %d buffer timeout present=%p\n", 0⟩,
    ⟨"sdhci: pio data_end timeout present=%p\n", 0⟩,
    -- kernel/driver/timer/generic_timer.c
    ⟨"generic_timer: CNTFRQ is zero\n", 0⟩,
    ⟨"generic_timer: no IRQ resource\n", 0⟩,
    ⟨"generic_timer: failed to register IRQ %u\n", 0⟩,
    ⟨"generic_timer: failed to enable IRQ %u\n", 0⟩,
    ⟨"generic_timer: freq=%d Hz, irq=%u, interval=%d\n", 0⟩,
    -- kernel/driver/virtio/virtio_gpu.c
    ⟨"virtio-gpu: GET_DISPLAY_INFO failed, resp type=%x\n", 0⟩,
    ⟨"virtio-gpu: unexpected display info resp type=%x\n", 0⟩,
    ⟨"virtio-gpu: scanout 0 not enabled\n", 0⟩,
    ⟨"virtio-gpu: failed to get display info\n", 0⟩,
    ⟨"virtio-gpu: display %ux%u\n", 0⟩,
    ⟨"virtio-gpu: failed to allocate framebuffer memory\n", 0⟩,
    ⟨"virtio-gpu: failed to map framebuffer\n", 0⟩,
    ⟨"virtio-gpu: failed to create resource\n", 0⟩,
    ⟨"virtio-gpu: failed to attach backing\n", 0⟩,
    ⟨"virtio-gpu: failed to set scanout\n", 0⟩,
    ⟨"virtio-gpu: failed to register framebuffer\n", 0⟩,
    ⟨"virtio-gpu: framebuffer registered %ux%u@%p\n", 0⟩,
    -- kernel/driver/virtio/virtio_mmio.c
    ⟨"virtio-mmio: probe device id=%u\n", 0⟩,
    -- kernel/fs/service/fs_service.c
    ⟨"devfs mounted\n", 0⟩,
    -- kernel/mm/buddy.c
    ⟨"==============buddy stat begin=============\n", 0⟩,
    ⟨"|| free pages = %u\n", 0⟩,
    ⟨"==============buddy stat end===============\n", 0⟩,
    -- kernel/mm/memblock.c
    ⟨"early_mm: %d MB available\n", 0⟩,
    -- kernel/proc/loader.c
    ⟨"loader: bad ELF magic\n", 0⟩,
    ⟨"loader: unsupported ELF ident\n", 0⟩,
    ⟨"loader: not AArch64 executable\n", 0⟩,
    ⟨"loader: bad phdr size\n", 0⟩,
    ⟨"loader: bad phdr count\n", 0⟩,
    ⟨"loader: bad phdr offset\n", 0⟩,
    ⟨"loader: failed to load segment %d\n", 0⟩]

/-- **A call stays in the buffer exactly if what its format prints of its own and its arguments
come to 127 bytes at most.** -/
theorem within_iff {fmt : List UInt8} {args : List VaArg} (prints : (vsprintf fmt args).isSome = true) :
    Within fmt args ↔ textLength fmt + (List.zipWith width (conversions fmt) args).sum ≤ 127 := by
  obtain ⟨text, run⟩ := Option.isSome_iff_exists.1 prints
  have length : (text ++ [0]).length = textLength fmt + (List.zipWith width (conversions fmt) args).sum + 1 := by
    rw [List.length_append, vsprintf_length run]
    rfl
  unfold Within printk maxBufLen
  rw [run, Option.map_some]
  constructor
  · intro within
    have := within _ rfl
    omega
  · intro fits buf same
    have := congrArg List.length (Option.some.inj same)
    omega

theorem within_of_worst {fmt : List UInt8} {args : List VaArg}
    (fits : worstLength fmt + stringsLength args ≤ 127) : Within fmt args := by
  intro buf run
  obtain ⟨text, run', rfl⟩ := Option.map_eq_some_iff.1 run
  have := vsprintf_length_le run'
  rw [List.length_append, List.length_singleton]
  unfold maxBufLen
  omega

/-- **The other calls of the kernel stay in the buffer.** -/
theorem kernelCalls_within {call : Call} (member : call ∈ kernelCalls) {args : List VaArg}
    (strings : stringsLength args ≤ call.strings) : Within (cstr call.fmt) args := by
  have room : ∀ call ∈ kernelCalls, worstLength (cstr call.fmt) + call.strings ≤ 127 := by decide +kernel
  have := room call member
  exact within_of_worst (by omega)

end Minus.Core.Printk
