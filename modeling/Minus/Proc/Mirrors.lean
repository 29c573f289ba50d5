/-
# Proc.Mirrors — the subsystems know who runs

mm, fs and proc each keep what they resolved from the running thread's capabilities
at the last switch, and `TTBR0_EL1` holds the page table of that address space.
`mirrors_follow` says that this is right between any two calls: nobody destroys an
address space, a table of open files or a process while it is mirrored, although the
teardown runs in the context of another thread.
-/
import Minus.Fs.FdtableRun
import Minus.Proc.LoaderImage
import Minus.Proc.ProcessRun

namespace Minus.Proc.Processes

set_option autoImplicit false

open Minus.Core.Cap
open Minus.Core.Thread
open Minus.Mm.AddressSpace (Obj)

/-- The mirror of a capability: NULL for `CAP_NULL`, else the object it resolves to, which
has not been given back. -/
structure Follows (k : Kernel) (cap rights : UInt64) (mirror : Option Obj) : Prop where
  resolved : mirror = capResolve k.sys.caps cap rights
  null : cap = capNull → mirror = none
  alive : cap ≠ capNull → ∃ o, mirror = some o ∧ o ∈ k.heap.objects

/-- The mirrors and `TTBR0` under the envelope of the running thread. -/
structure MirrorsFollow (k : Kernel) (env : SwitchEnvelope) : Prop where
  vspaceCap : k.curVspaceCap = env.vspaceCap
  vspace : Follows k env.vspaceCap Mm.AddressSpace.capRMap k.curVspace
  files : Follows k env.filesCap capRCtl k.curFiles
  process : Follows k env.ownerCap capRRead k.currentProcess
  ttbr0 : k.ttbr0 = k.curVspace.map fun vs => (k.vspaces vs).pgd

theorem Whole.mirrorsFollow {k : Kernel} {tasks : List Task} (whole : Whole k tasks) :
    MirrorsFollow k (k.sys.threads k.sys.current).env := by
  have mirrored := whole.mirrored
  have holds := whole.books.holds
  unfold Mirrored at mirrored
  have alloc : k.sys.allocated k.sys.current = true := whole.threads.current_alloc
  obtain ⟨-, null⟩ | ⟨task, member, -, env⟩ := whole.scheduled.env whole.books alloc
  · rw [null, whole.books.published_null] at mirrored
    rw [null]
    simp only [Kernel.mirrors, Prod.mk.injEq] at mirrored
    obtain ⟨⟨vspaceCap, vspace⟩, files, process, ttbr0⟩ := mirrored
    have nothing : ∀ required, none = capResolve k.sys.caps capNull required := fun required =>
      (holds.table.resolve_not_live (fun l live => holds.token_ne_null live) required).symm
    have follows : ∀ rights (mirror : Option Obj), mirror = none → Follows k capNull rights mirror := by
      rintro rights mirror rfl
      exact ⟨nothing rights, fun _ => rfl, fun issued => absurd rfl issued⟩
    refine ⟨vspaceCap, follows _ _ vspace, follows _ _ files, follows _ _ process, ?_⟩
    rw [ttbr0, vspace]
    rfl
  · rw [env] at mirrored ⊢
    rw [whole.books.published member] at mirrored
    simp only [Kernel.mirrors, Prod.mk.injEq] at mirrored
    obtain ⟨⟨vspaceCap, vspace⟩, files, process, ttbr0⟩ := mirrored
    have follows : ∀ {l : Live Obj} {rights : UInt64} {mirror : Option Obj}, l ∈ task.live →
        RightsSubset rights l.rights → mirror = some l.obj → l.obj ∈ task.objects k →
        Follows k l.token rights mirror := by
      intro l rights mirror live allowed same object
      have granted : l ∈ [] ++ tasks.flatMap Task.live := List.mem_flatMap.2 ⟨task, member, live⟩
      refine ⟨same.trans (holds.resolves granted allowed).symm, fun null => absurd null (holds.token_ne_null granted),
        fun _ => ⟨l.obj, same, holds.inUse _ (mem_objectsOf member object)⟩⟩
    refine ⟨vspaceCap, ?_, ?_, ?_, ?_⟩
    · exact follows (l := ⟨task.vspace.cap, task.vspace.obj, Mm.AddressSpace.capRMap ||| capRCtl⟩)
        (by simp [Task.live, Task.estate, Estate.live]) vspaceMaps vspace
        (by simp [Task.objects, Task.estate, Estate.objects])
    · exact follows (l := ⟨task.files.cap, task.files.obj, capRCtl⟩)
        (by simp [Task.live, Task.estate, Estate.live]) filesControls files
        (by simp [Task.objects, Task.estate, Estate.objects])
    · exact follows (l := ⟨task.process.cap, task.process.obj, capRCtl ||| capRRead⟩)
        (by simp [Task.live, Task.estate, Estate.live]) processReads process
        (by simp [Task.objects, Task.estate, Estate.objects])
    · rw [ttbr0, vspace]
      rfl

/-- **The mirrors follow the running thread.** -/
theorem mirrors_follow {k : Kernel} (boot : Boot k) {ops : List KernelOp}
    (admitted : kernelMachine.Admits ⟨k, false⟩ ops) :
    let s := (kernelMachine.run ⟨k, false⟩ ops).kernel
    MirrorsFollow s (s.sys.threads s.sys.current).env := by
  intro s
  obtain ⟨tasks, whole⟩ := kernelRun_whole boot admitted
  exact whole.mirrorsFollow

/-- A kernel whose file system has a console. -/
def bootKernel : Kernel where
  sys := Sys.boot ⟨id, id⟩ true
  heap := ⟨fun _ _ => 0, [], [], ∅, {idle}, []⟩
  vspaces _ := ⟨0, 0, 0, [], []⟩
  tables _ := ⟨⟨fun _ => none, none⟩, 0⟩
  processes _ := ⟨0, 0, 0, 0, 0⟩
  nextPid := 1
  fs := Fs.Fdtable.filesCreate Fs.Fdtable.bootVfs
  curVspace := none
  curVspaceCap := capNull
  curFiles := none
  currentProcess := none
  ttbr0 := none

theorem bootKernel_boot : Boot bootKernel := ⟨⟨_, rfl⟩, rfl, by decide, rfl⟩

/-- A program that opens the console. -/
def hello : Program := ⟨some (.ok (Loader.helloFile 0x401000)), fun _ => ⟨Fs.Fdtable.consoleEnv 2, fun _ => false⟩⟩

/-- It is spawned, runs, and exits. -/
def helloRuns : List KernelOp :=
  [.spawn hello [0x100, 0x101, 0x102, 0x103, 0x104, 0x105, 0x106, 0x107, 0x108, 0x109, 0x10a] [1, 2, 3, 4, 5, 6, 7, 8],
    .schedule, .tick, .exit]

theorem mirrors_follow_hello :
    kernelMachine.Admits ⟨bootKernel, false⟩ helloRuns ∧
      (let s := (kernelMachine.run ⟨bootKernel, false⟩ (helloRuns.take 2)).kernel
       s.curVspace.isSome ∧ MirrorsFollow s (s.sys.threads s.sys.current).env) ∧
      (let s := (kernelMachine.run ⟨bootKernel, false⟩ helloRuns).kernel
       s.curVspace = none ∧ MirrorsFollow s (s.sys.threads s.sys.current).env) := by
  -- The run is evaluated once for all that is read off it.
  obtain ⟨admitted, started, runs, gone⟩ : kernelMachine.Admits ⟨bootKernel, false⟩ helloRuns ∧
      kernelMachine.Admits ⟨bootKernel, false⟩ (helloRuns.take 2) ∧
      (kernelMachine.run ⟨bootKernel, false⟩ (helloRuns.take 2)).kernel.curVspace.isSome ∧
      (kernelMachine.run ⟨bootKernel, false⟩ helloRuns).kernel.curVspace = none := by
    decide +kernel
  exact ⟨admitted, ⟨runs, mirrors_follow bootKernel_boot started⟩, gone, mirrors_follow bootKernel_boot admitted⟩

end Minus.Proc.Processes
