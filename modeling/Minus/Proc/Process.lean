/-
# Proc.Process — processes and their images

`kernel/proc/process.c` and `proc_execve.c`, with what they call in core, mm and fs,
over one state: the threads and the capability table of `Core.Thread`, the heap and
the address spaces of `Mm.Vspace`, the tables of open files of `Fs.Fdtable`, and the
mirrors that the subscribers of the switch bus keep of the running thread.

The switch is that of `Core.Thread`, with the bus inside `arch_context_switch` and
proc's exit notifier at its end.  Objects are addresses, so a freed one may come back
as another object.  The allocators are the environment, as in `Mm.Vspace`; a file that
is loaded is what `load_file` answers for its name.  `argv` and `envp` are not read.
-/
import Minus.Core.Thread
import Minus.Fs.Fdtable
import Minus.Mm.Vspace
import Minus.Proc.Loader

namespace Minus.Proc.Processes

set_option autoImplicit false

open Minus.Theory
open Minus.Core.Cap (CapState capAlloc capResolve capFree capNull)
open Minus.Core.Thread (Sys Tid Kthread SwitchEnvelope ThreadCreateArgs capRCtl capRRead schedPickNext schedMarkDead)
open Minus.Mm.AddressSpace (Heap Obj Vspace MmState capRMap mmVspaceCreate mmVspaceDestroy)
open Minus.Fs.Dcache (Fault)
open Minus.Fs.Fdtable (FdState FilesStruct FileEnv)
open Minus.Proc.Loader (Image LoadError)

/-! ## The state -/

/-- `struct process`: the fields that are read. -/
structure Process where
  pid : Nat
  self : UInt64
  thread : UInt64
  vspace : UInt64
  files : UInt64

/-- `struct files_struct`, with the address of its `fs_ctx`. -/
structure FilesObject where
  table : FilesStruct
  fsCtx : Obj

structure Kernel where
  sys : Sys
  heap : Heap
  vspaces : Obj → Vspace
  tables : Obj → FilesObject
  processes : Obj → Process
  nextPid : Nat
  /-- The file system; its `table` is that of the last call. -/
  fs : FdState
  curVspace : Option Obj
  curVspaceCap : UInt64
  curFiles : Option Obj
  currentProcess : Option Obj
  /-- The page of the table in `TTBR0_EL1`; `none` is `g_zero_pgd`. -/
  ttbr0 : Option Nat

/-- The negative returns. -/
inductive Errno where
  | einval
  | enomem
  | ebadf
  | load (e : LoadError)
  | fs (e : Fs.Fdtable.Errno)
  deriving DecidableEq

/-- How a call does not return: in `MMU_BUGON`, or with a fault of the file system. -/
inductive Stop where
  | hung (h : Heap)
  | fault (f : Fault)

namespace Kernel

variable (k : Kernel)

def withCaps (caps : CapState Obj) : Kernel := { k with sys := { k.sys with caps := caps } }

/-- The memory manager's part of the state. -/
def mm : MmState := ⟨k.heap, k.sys.caps, k.vspaces⟩

def withMm (m : MmState) : Kernel :=
  { k with heap := m.heap, sys := { k.sys with caps := m.caps }, vspaces := m.vspaces }

def kfree (obj : Obj) : Kernel := { k with heap := k.heap.kfree obj }

def setProcess (p : Obj) (f : Process → Process) : Kernel :=
  { k with processes := Function.update k.processes p (f (k.processes p)) }

end Kernel

/-! ## fs_service.c -/

def filesFromCap (k : Kernel) (cap : UInt64) : Option Obj := capResolve k.sys.caps cap capRCtl

/-- `free_files_struct`. -/
def freeFilesStruct (k : Kernel) (files : Obj) : Except Fault Kernel := do
  let fs ← Fs.Fdtable.filesDestroy { k.fs with table := (k.tables files).table }
  .ok { k with fs := fs, heap := (k.heap.kfree (k.tables files).fsCtx).kfree files }

/-- `fs_files_create` with `alloc_files_struct`. -/
def fsFilesCreate (k : Kernel) : Except Fault (Kernel × UInt64) :=
  match k.heap.kmalloc with
  | (h, none) => .ok ({ k with heap := h }, capNull)
  | (h, some files) =>
      match h.kmalloc with
      | (h, none) => .ok ({ k with heap := h.kfree files }, capNull)
      | (h, some fsCtx) =>
          let (caps, cap) := capAlloc k.sys.caps (some files) capRCtl
          let k := { k.withCaps caps with
            heap := h
            tables := Function.update k.tables files ⟨⟨fun _ => none, none⟩, fsCtx⟩ }
          if cap = capNull then do
            let k ← freeFilesStruct k files
            .ok (k, capNull)
          else .ok (k, cap)

def fsFilesDestroy (k : Kernel) (cap : UInt64) : Except Fault Kernel :=
  match filesFromCap k cap with
  | none => .ok k
  | some files => freeFilesStruct (k.withCaps (capFree k.sys.caps cap)) files

def fsSetupStdFds (opens : Fin 3 → FileEnv) (k : Kernel) (cap : UInt64) :
    Except Fault (Kernel × Except Errno Unit) :=
  match filesFromCap k cap with
  | none => .ok (k, .error .ebadf)
  | some files => do
      -- The path is absolute, so the working directory of `cur_files` is not read.
      let (fs, ret) ← Fs.Fdtable.setupStdFds opens k.curFiles { k.fs with table := (k.tables files).table }
      let tables := Function.update k.tables files { k.tables files with table := fs.table }
      .ok ({ k with fs := fs, tables := tables }, ret.mapError .fs)

/-! ## process.c -/

/-- `process_from_cap`. -/
def processFromCap (k : Kernel) (ownerCap : UInt64) : Option Obj :=
  if ownerCap = capNull then none else capResolve k.sys.caps ownerCap capRRead

def processAlloc (k : Kernel) : Kernel × Option Obj :=
  match k.heap.kmalloc with
  | (h, none) => ({ k with heap := h }, none)
  | (h, some p) =>
      let (caps, self) := capAlloc k.sys.caps (some p) (capRCtl ||| capRRead)
      let k := { k.withCaps caps with heap := h }
      if self = capNull then (k.kfree p, none)
      else
        ({ k with
          processes := Function.update k.processes p ⟨k.nextPid, self, capNull, capNull, capNull⟩
          nextPid := k.nextPid + 1 }, some p)

def processFree (k : Kernel) (p : Obj) : Except Fault Kernel := do
  let proc := k.processes p
  let k ← if proc.files ≠ capNull then fsFilesDestroy k proc.files else .ok k
  let k := if proc.vspace ≠ capNull then k.withMm (mmVspaceDestroy k.mm proc.vspace) else k
  let k := if proc.self ≠ capNull then k.withCaps (capFree k.sys.caps proc.self) else k
  .ok (k.kfree p)

/-- `proc_thread_exit`, the exit notifier. -/
def procThreadExit (k : Kernel) (ownerCap : UInt64) : Except Fault Kernel :=
  match processFromCap k ownerCap with
  | none => .ok k
  | some p => processFree k p

/-! ## The switch bus -/

/-- `switch_vspace`. -/
def switchVspace (k : Kernel) (next : Option Obj) : Option Nat := next.map fun vs => (k.vspaces vs).pgd

def uaccessSwitchNotify (k : Kernel) (next : SwitchEnvelope) : Kernel :=
  let nextVs := if next.vspaceCap ≠ capNull then capResolve k.sys.caps next.vspaceCap capRMap else none
  { k with
    curVspaceCap := next.vspaceCap
    ttbr0 := if nextVs ≠ k.curVspace then switchVspace k nextVs else k.ttbr0
    curVspace := nextVs }

def procSwitchNotify (k : Kernel) (next : SwitchEnvelope) : Kernel :=
  { k with currentProcess := processFromCap k next.ownerCap }

def fdtableSwitchNotify (k : Kernel) (next : SwitchEnvelope) : Kernel :=
  { k with curFiles := filesFromCap k next.filesCap }

/-- `switch_notify`: the subscribers in the order of their subsystems. -/
def switchNotify (k : Kernel) (next : SwitchEnvelope) : Kernel :=
  fdtableSwitchNotify (procSwitchNotify (uaccessSwitchNotify k next) next) next

/-! ## thread.c -/

/-- `thread_free`. -/
def threadFree (k : Kernel) (t : Tid) : Kernel :=
  let stack := (k.sys.threads t).kstack
  { k with
    sys := Core.Thread.threadFree k.sys t
    heap := (stack.elim k.heap k.heap.kfreePages).kfree t }

/-- `thread_create`. -/
def threadCreate (k : Kernel) (args : ThreadCreateArgs) : Kernel × UInt64 :=
  match k.heap.kmalloc with
  | (h, none) => ({ k with heap := h }, capNull)
  | (h, some t) =>
      match h.kzallocPages with
      | (h, none) => ({ k with heap := h.kfree t }, capNull)
      | (h, some stack) =>
          let (sys, cap) := Core.Thread.threadCreate k.sys args (some t) (some stack)
          if cap = capNull then ({ k with sys := sys, heap := (h.kfreePages stack).kfree t }, capNull)
          else ({ k with sys := sys, heap := h }, cap)

def exitNotify (k : Kernel) (dead : Kthread) : Except Fault Kernel :=
  if k.sys.exitNotify ∧ dead.env.ownerCap ≠ capNull then
    procThreadExit { k with sys := k.sys.log (.notified dead.serial dead.env.ownerCap) } dead.env.ownerCap
  else .ok k

def finishSwitch (k : Kernel) (prev : Option Tid) : Except Fault Kernel :=
  match prev with
  | none => .ok k
  | some t =>
      let k := { k with sys := k.sys.log (.finished (k.sys.threads t).serial) }
      if (k.sys.threads t).state = .dead then do
        let k ← exitNotify k (k.sys.threads t)
        .ok (threadFree k t)
      else .ok k

def switchAway (k : Kernel) : Except Fault Kernel :=
  let prev := k.sys.current
  match schedPickNext k.sys with
  | none => .error .null
  | some (sys, next) =>
      if next = prev then .ok { k with sys := sys }
      else
        let sys := { sys with lastSwitched := some prev, current := next }
        let (sys, point) := Core.Thread.archContextSwitch sys prev next
        let k := switchNotify { k with sys := sys } (sys.threads next).env
        match point with
        | .switchAway => finishSwitch k k.sys.lastSwitched
        | _ => .ok k

def threadWake (k : Kernel) (cap : UInt64) : Kernel := { k with sys := Core.Thread.threadWake k.sys cap }

def schedule (k : Kernel) : Except Fault Kernel := switchAway k

def scheduleIfNeeded (k : Kernel) : Except Fault Kernel := if k.sys.needResched then schedule k else .ok k

def threadBlockCurrent (k : Kernel) : Kernel := { k with sys := Core.Thread.threadBlockCurrent k.sys }

def threadTick (k : Kernel) : Kernel := { k with sys := Core.Thread.threadTick k.sys }

def threadReplaceCurrent (k : Kernel) (replacement : UInt64) : Except Fault Kernel :=
  let sys := Core.Thread.enqueueReplacement k.sys replacement
  switchAway { k with sys := schedMarkDead sys sys.current }

def threadExitCurrent (k : Kernel) : Except Fault Kernel := threadReplaceCurrent k capNull

/-! ## proc_execve.c -/

/-- What a program is started from: the file behind its name, `none` for a NULL name, and
the environment of the three opens of `/dev/console`. -/
structure Program where
  file : Option (Except LoadError Image)
  opens : Fin 3 → FileEnv

/-- `SCHED_PRIO_DEFAULT`. -/
def schedPrioDefault : Nat := 20

/-- `proc_load_elf` into the address space that a capability names. -/
def procLoadElf (file : Except LoadError Image) (k : Kernel) (vspaceCap : UInt64) :
    Except Stop (Kernel × Except Errno Unit) :=
  match capResolve k.sys.caps vspaceCap capRMap with
  | none => do
      -- no call of `vspace_map_page` gets anywhere
      let (_, _, ret) ← (Loader.procLoadElf file { k.heap with pageSupply := [] } ⟨0, 0, 0, [], []⟩).mapError .hung
      .ok (k, (ret.mapError .load).map fun _ => ())
  | some vs => do
      let (h, v, ret) ← (Loader.procLoadElf file k.heap (k.vspaces vs)).mapError .hung
      .ok ({ k with heap := h, vspaces := Function.update k.vspaces vs v }, (ret.mapError .load).map fun _ => ())

/-- `proc_setup_process`. -/
def procSetupProcess (program : Program) (k : Kernel) (p : Obj) : Except Stop (Kernel × Except Errno Unit) :=
  match program.file with
  | none => .ok (k, .error .einval)
  | some file => do
      let (m, vspace) := mmVspaceCreate k.mm
      let k := (k.withMm m).setProcess p fun proc => { proc with vspace := vspace }
      if vspace = capNull then .ok (k, .error .enomem)
      else do
        let (k, files) ← (fsFilesCreate k).mapError .fault
        let k := k.setProcess p fun proc => { proc with files := files }
        if files = capNull then
          let k := k.withMm (mmVspaceDestroy k.mm vspace)
          .ok (k.setProcess p fun proc => { proc with vspace := capNull }, .error .enomem)
        else do
          let (k, ret) ← procLoadElf file k vspace
          match ret with
          | .error e => .ok (k, .error e)
          | .ok () => (fsSetupStdFds program.opens k files).mapError .fault

/-- `process_start_thread`. -/
def processStartThread (k : Kernel) (p : Obj) : Kernel × Except Errno Unit :=
  let proc := k.processes p
  let (k, thread) := threadCreate k ⟨schedPrioDefault, proc.vspace, proc.files, proc.self⟩
  let k := k.setProcess p fun proc => { proc with thread := thread }
  if thread = capNull then (k, .error .enomem) else (threadWake k thread, .ok ())

/-- The label `fail`. -/
def failWith (k : Kernel) (p : Obj) (e : Errno) : Except Stop (Kernel × Except Errno Unit) := do
  let k ← (processFree k p).mapError .fault
  .ok (k, .error e)

def procSpawn (program : Program) (k : Kernel) : Except Stop (Kernel × Except Errno Unit) :=
  match processAlloc k with
  | (k, none) => .ok (k, .error .enomem)
  | (k, some p) => do
      let (k, ret) ← procSetupProcess program k p
      match ret with
      | .error e => failWith k p e
      | .ok () =>
          match processStartThread k p with
          | (k, .error e) => failWith k p e
          | (k, .ok ()) => .ok (k, .ok ())

/-- `proc_execve`; where it returns nothing, another thread runs. -/
def procExecve (program : Program) (k : Kernel) : Except Stop (Kernel × Option Errno) :=
  let old := k.currentProcess
  match processAlloc k with
  | (k, none) => .ok (k, some .enomem)
  | (k, some new) => do
      let (k, ret) ← procSetupProcess program k new
      match ret with
      | .error e => do
          let k ← (processFree k new).mapError .fault
          .ok (k, some e)
      | .ok () =>
          let k := k.setProcess new fun proc => { proc with pid := old.elim proc.pid fun o => (k.processes o).pid }
          match processStartThread k new with
          | (k, .error e) => do
              let k ← (processFree k new).mapError .fault
              .ok (k, some e)
          | (k, .ok ()) => do
              let k ← (threadReplaceCurrent k (k.processes new).thread).mapError .fault
              .ok (k, none)

end Minus.Proc.Processes
