/-
# Proc.Isolation — processes do not meet

Over runs of spawn, execve, exit and the calls of the scheduler: what one process
translates to is no page of another, and no call changes what the others see
(`processes_isolated`); a spawn or an execve that fails has changed nothing that can be
observed (`failed_start_leaves_no_trace`); and a capability resolves exactly as long as
the thread that holds it exists (`capabilities_of_the_living`).

As for address spaces alone, pages are apart only where all of them lie below 4 GiB.
-/
import Minus.Proc.Mirrors

namespace Minus.Proc.Processes

set_option autoImplicit false

open Minus.Theory
open Minus.Core.Cap
open Minus.Core.Thread
open Minus.Core.Mmu (walk pageSize)
open Minus.Mm.AddressSpace (Heap Obj Vspace IsTable)
open Minus.Mm.Buddy (Pfn)
open Minus.Proc.Loader (Beside Sound)

/-! ## Threads and their processes -/

namespace Kernel

/-- The address space that the switch bus finds for a thread. -/
def vspaceOf (k : Kernel) (t : Tid) : Option Obj :=
  capResolve k.sys.caps (k.sys.threads t).env.vspaceCap Mm.AddressSpace.capRMap

/-- What the MMU makes of a user address of the thread. -/
def translate (k : Kernel) (t : Tid) (a : Nat) : Option (Nat × UInt64) :=
  (k.vspaceOf t).bind fun vs => walk k.heap.mem (k.vspaces vs).pgd a

end Kernel

/-- The capabilities of a thread, with the rights that they were handed out with. -/
def granted (env : SwitchEnvelope) : List (UInt64 × UInt64) :=
  [(env.threadCap, capRCtl ||| capRRead), (env.filesCap, capRCtl),
    (env.vspaceCap, Mm.AddressSpace.capRMap ||| capRCtl), (env.ownerCap, capRCtl ||| capRRead)]

section Tasks

variable {k k' : Kernel} {tasks tasks' : List Task}

theorem granted_env (t : Task) : granted t.env = t.live.map fun l => (l.token, l.rights) := rfl

/-- The threads but the idle one are those of the tasks. -/
theorem Whole.task (whole : Whole k tasks) {t : Tid} (alloc : k.sys.allocated t = true) (busy : t ≠ idle) :
    ∃ task ∈ tasks, task.thread.obj = t ∧ (k.sys.threads t).env = task.env := by
  obtain ⟨isIdle, -⟩ | found := whole.scheduled.env whole.books alloc
  · exact absurd isIdle busy
  · exact found

theorem Whole.alloc (whole : Whole k tasks) {task : Task} (member : task ∈ tasks) :
    k.sys.allocated task.thread.obj = true ∧ task.thread.obj ≠ idle := by
  refine ⟨(whole.scheduled.allocated _).2 (.inr ⟨task, member, rfl⟩), fun isIdle => ?_⟩
  have apart := whole.books.holds.apart
  rw [List.nil_append, objectsOf, List.nodup_cons] at apart
  refine apart.1 (List.mem_flatMap.2 ⟨task, member, ?_⟩)
  rw [← isIdle]
  exact List.mem_cons_self

/-- Two tasks share no object. -/
theorem Whole.task_inj (whole : Whole k tasks) {t u : Task} (isT : t ∈ tasks) (isU : u ∈ tasks)
    (same : t.thread.obj = u.thread.obj) : t = u := by
  have apart := whole.books.holds.apart
  rw [List.nil_append, objectsOf, List.nodup_cons, List.nodup_flatMap] at apart
  by_contra differ
  have symm : Std.Symm (Function.onFun List.Disjoint (Task.objects k)) := ⟨fun _ _ => List.Disjoint.symm⟩
  have disjoint : List.Disjoint (t.objects k) (u.objects k) := apart.2.2.forall isT isU differ
  refine disjoint (a := t.thread.obj) List.mem_cons_self ?_
  rw [same]
  exact List.mem_cons_self

theorem Whole.vspaceOf (whole : Whole k tasks) {task : Task} (member : task ∈ tasks) :
    k.vspaceOf task.thread.obj = some task.vspace.obj := by
  have live : (⟨task.vspace.cap, task.vspace.obj, Mm.AddressSpace.capRMap ||| capRCtl⟩ : Live Obj) ∈
      [] ++ tasks.flatMap Task.live :=
    List.mem_flatMap.2 ⟨task, member, by simp [Task.live, Task.estate, Estate.live]⟩
  unfold Kernel.vspaceOf
  rw [(whole.books.recorded task member).env]
  exact whole.books.holds.resolves live vspaceMaps

/-- Whoever has an address space is a task. -/
theorem Whole.owner (whole : Whole k tasks) {t : Tid} {vs : Obj} (alloc : k.sys.allocated t = true)
    (has : k.vspaceOf t = some vs) : ∃ task ∈ tasks, task.thread.obj = t ∧ task.vspace.obj = vs := by
  by_cases busy : t = idle
  · subst busy
    unfold Kernel.vspaceOf at has
    rw [whole.scheduled.idleEnv,
      whole.books.holds.table.resolve_not_live fun l live => whole.books.holds.token_ne_null live] at has
    cases has
  · obtain ⟨task, member, rfl, -⟩ := whole.task alloc busy
    exact ⟨task, member, rfl, Option.some.inj ((whole.vspaceOf member).symm.trans has)⟩

/-- A translation leads to a data page of the address space. -/
theorem Paged.backed (paged : Paged k tasks) (whole : Whole k tasks) {task : Task} (member : task ∈ tasks)
    {a pa : Nat} {attr : UInt64} (low : a < 2 ^ 48) (found : k.translate task.thread.obj a = some (pa, attr)) :
    pa / pageSize ∈ (k.vspaces task.vspace.obj).regions.map (·.page) := by
  unfold Kernel.translate at found
  rw [whole.vspaceOf member] at found
  exact (paged.sound task member).backed a low pa attr found

/-- Different tasks use different pages. -/
theorem Paged.disjoint (paged : Paged k tasks) {t u : Task} (isT : t ∈ tasks) (isU : u ∈ tasks) (differ : t ≠ u)
    {p : Pfn} (uses : t.Uses k p) : ¬ u.Uses k p := by
  have symm : Std.Symm fun (t u : Task) => ∀ p, t.Uses k p → ¬ u.Uses k p :=
    ⟨fun _ _ apart p usesB usesA => apart p usesA usesB⟩
  exact paged.apart.forall isT isU differ p uses

/-- Who translates an address is a task. -/
theorem Whole.translates (whole : Whole k tasks) {t : Tid} (alloc : k.sys.allocated t = true) {a : Nat}
    {hit : Nat × UInt64} (found : k.translate t a = some hit) : ∃ task ∈ tasks, task.thread.obj = t := by
  obtain ⟨vs, has, -⟩ := Option.bind_eq_some_iff.1 found
  obtain ⟨task, member, same, -⟩ := whole.owner alloc has
  exact ⟨task, member, same⟩

end Tasks

/-! ## Isolation -/

/-- What the threads can see is kept apart. -/
structure Separated (k : Kernel) : Prop where
  /-- No page is reached through the addresses of two threads. -/
  users : ∀ t u, k.sys.allocated t = true → k.sys.allocated u = true → t ≠ u → ∀ a b, a < 2 ^ 48 → b < 2 ^ 48 →
    ∀ pa pb attrA attrB, k.translate t a = some (pa, attrA) → k.translate u b = some (pb, attrB) →
      pa / pageSize ≠ pb / pageSize
  /-- No page table is reached through the addresses of a thread. -/
  tables : ∀ t u ws, k.sys.allocated t = true → k.sys.allocated u = true → k.vspaceOf u = some ws →
    ∀ q, IsTable k.heap.mem 3 (k.vspaces ws).pgd q → ∀ a, a < 2 ^ 48 → ∀ pa attr,
      k.translate t a = some (pa, attr) → pa / pageSize ≠ q
  /-- No kernel stack is reached through the addresses of a thread. -/
  kstacks : ∀ t u, k.sys.allocated t = true → k.sys.allocated u = true → u ≠ idle →
    ∀ page, (k.sys.threads u).kstack = some page → ∀ a, a < 2 ^ 48 → ∀ pa attr,
      k.translate t a = some (pa, attr) → pa / pageSize ≠ page

/-- The threads that stay see what they saw. -/
structure Unseen (k k' : Kernel) : Prop where
  vspace : ∀ t, k.sys.allocated t = true → k'.sys.allocated t = true → k'.vspaceOf t = k.vspaceOf t
  translate : ∀ t, k.sys.allocated t = true → k'.sys.allocated t = true → ∀ a, k'.translate t a = k.translate t a
  memory : ∀ t, k.sys.allocated t = true → k'.sys.allocated t = true → ∀ a, a < 2 ^ 48 → ∀ pa attr,
    k.translate t a = some (pa, attr) → k'.heap.mem (pa / pageSize) = k.heap.mem (pa / pageSize)

section Isolation

variable {k k' : Kernel} {tasks tasks' : List Task}

theorem Paged.separated (paged : Paged k tasks) (whole : Whole k tasks) : Separated k := by
  refine ⟨fun t u allocT allocU differ a b lowA lowB pa pb attrA attrB foundA foundB same => ?_,
    fun t u ws allocT allocU has q table a low pa attr found same => ?_,
    fun t u allocT allocU busy page stack a low pa attr found same => ?_⟩
  · obtain ⟨task, isTask, rfl⟩ := whole.translates allocT foundA
    obtain ⟨other, isOther, rfl⟩ := whole.translates allocU foundB
    have here := paged.backed whole isTask lowA foundA
    have there := paged.backed whole isOther lowB foundB
    rw [← same] at there
    have distinct : task ≠ other := fun eq => differ (by rw [eq])
    exact paged.disjoint isTask isOther distinct (.inl (.inr here)) (.inl (.inr there))
  · obtain ⟨task, isTask, rfl⟩ := whole.translates allocT found
    obtain ⟨other, isOther, rfl, rfl⟩ := whole.owner allocU has
    have here := paged.backed whole isTask low found
    rw [same] at here
    obtain ⟨own, space⟩ := (paged.sound other isOther).space
    have isTable := table.mem_tables space
    by_cases one : task = other
    · subst one
      exact (paged.sound task isTask).kinds q isTable here
    · exact paged.disjoint isTask isOther one (.inl (.inr here)) (.inl (.inl isTable))
  · obtain ⟨task, isTask, rfl⟩ := whole.translates allocT found
    obtain ⟨other, isOther, rfl, -⟩ := whole.task allocU busy
    have here := paged.backed whole isTask low found
    rw [same] at here
    by_cases one : task = other
    · subst one
      exact paged.stack task isTask page stack (.inr here)
    · exact paged.disjoint isTask isOther one (.inl (.inr here)) (.inr stack)

theorem Carried.unseen (carried : Carried k tasks k' tasks') (paged : Paged k tasks) (whole : Whole k tasks)
    (whole' : Whole k' tasks') : Unseen k k' := by
  -- a thread that is there before and after belongs to the same task
  have stays : ∀ task ∈ tasks, k'.sys.allocated task.thread.obj = true → task ∈ tasks' := by
    intro task member alloc'
    obtain ⟨alloc, busy⟩ := whole.alloc member
    obtain ⟨task', member', same, -⟩ := whole'.task alloc' busy
    rcases carried.joined task' member' with earlier | new
    · rw [whole.task_inj member earlier same.symm]
      exact member'
    · rw [same, alloc] at new
      cases new
  have vspace : ∀ t, k.sys.allocated t = true → k'.sys.allocated t = true → k'.vspaceOf t = k.vspaceOf t := by
    intro t alloc alloc'
    by_cases busy : t = idle
    · subst busy
      unfold Kernel.vspaceOf
      rw [whole.scheduled.idleEnv, whole'.scheduled.idleEnv,
        whole.books.holds.table.resolve_not_live fun l live => whole.books.holds.token_ne_null live,
        whole'.books.holds.table.resolve_not_live fun l live => whole'.books.holds.token_ne_null live]
    · obtain ⟨task, member, rfl, -⟩ := whole.task alloc busy
      rw [whole.vspaceOf member, whole'.vspaceOf (stays task member alloc')]
  refine ⟨vspace, fun t alloc alloc' a => ?_, fun t alloc alloc' a low pa attr found => ?_⟩
  · unfold Kernel.translate
    rw [vspace t alloc alloc']
    cases has : k.vspaceOf t with
    | none => rfl
    | some vs =>
        obtain ⟨task, member, rfl, rfl⟩ := whole.owner alloc has
        obtain ⟨same, kept⟩ := carried.kept task member (stays task member alloc')
        simp only [Option.bind_some, same]
        exact ((paged.sound task member).congr fun p table => (kept p (.inl (.inl table))).2).2 a
  · obtain ⟨task, member, rfl⟩ := whole.translates alloc found
    obtain ⟨-, kept⟩ := carried.kept task member (stays task member alloc')
    exact (kept _ (.inl (.inr (paged.backed whole member low found)))).2

/-- The calls, handed pages below 4 GiB. -/
def lowMachine : Machine KernelRun KernelOp := kernelMachine.guard fun _ op => op.Low

instance decidableLowMachine (r : KernelRun) (op : KernelOp) : Decidable (lowMachine.enabled r op) :=
  inferInstanceAs (Decidable (kernelMachine.enabled r op ∧ op.Low))

theorem kernelAdmits_of_low {r : KernelRun} {ops : List KernelOp} (admitted : lowMachine.Admits r ops) :
    kernelMachine.Admits r ops := by
  induction ops generalizing r with
  | nil => exact trivial
  | cons op rest ih => exact ⟨admitted.1.1, ih admitted.2⟩

/-- **In every state of a run the processes are whole, on pages of their own.** -/
theorem kernelRun_paged {ops : List KernelOp} (boot : Boot k) (empty : k.heap.pageSupply = [])
    (admitted : lowMachine.Admits ⟨k, false⟩ ops) :
    ∃ tasks, Whole (lowMachine.run ⟨k, false⟩ ops).kernel tasks ∧ Paged (lowMachine.run ⟨k, false⟩ ops).kernel tasks := by
  have first : Paged k [] := by
    refine ⟨⟨?_, ?_, ?_⟩, nofun, nofun, nofun, List.Pairwise.nil⟩
    · rw [empty]
      exact nofun
    · rw [empty]
      exact List.nodup_nil
    · rw [empty]
      exact nofun
  refine lowMachine.run_invariant (I := fun r => ∃ tasks, Whole r.kernel tasks ∧ Paged r.kernel tasks)
    (fun r op inv enabled => ?_) ⟨[], boot.whole, first⟩ admitted
  obtain ⟨tasks, whole, paged⟩ := inv
  obtain ⟨⟨-, enabled⟩, low⟩ := enabled
  simp only [lowMachine, Machine.guard, kernelMachine]
  cases run : perform r.kernel op with
  | error e => exact ⟨tasks, whole, paged⟩
  | ok k' =>
      obtain ⟨tasks', whole', carries⟩ := perform_whole whole enabled run
      exact ⟨tasks', whole', (carries low paged).paged⟩

/-- **Processes are isolated.**  In every state that spawns, execves, exits and switches lead
to, with every page below 4 GiB: no page is reached from two threads, nor is a page table
or a kernel stack; and no further call changes what the threads that stay translate, or
what is in the pages they reach. -/
theorem processes_isolated (boot : Boot k) (empty : k.heap.pageSupply = []) {ops : List KernelOp}
    (admitted : lowMachine.Admits ⟨k, false⟩ ops) :
    let s := (lowMachine.run ⟨k, false⟩ ops).kernel
    Separated s ∧ ∀ op, kernelEnabled s op → op.Low → ∀ s', perform s op = .ok s' → Unseen s s' := by
  intro s
  obtain ⟨tasks, whole, paged⟩ := kernelRun_paged boot empty admitted
  refine ⟨paged.separated whole, fun op enabled low s' run => ?_⟩
  obtain ⟨tasks', whole', carries⟩ := perform_whole whole enabled run
  exact (carries low paged).unseen paged whole whole'

/-- One program runs, and another has been spawned. -/
def twoProcesses : List KernelOp :=
  helloRuns.take 2 ++
    [.spawn hello [0x110, 0x111, 0x112, 0x113, 0x114, 0x115, 0x116, 0x117, 0x118, 0x119, 0x11a]
      [11, 12, 13, 14, 15, 16, 17, 18]]

def twoKernel : Kernel := (lowMachine.run ⟨bootKernel, false⟩ twoProcesses).kernel

-- The run is evaluated here, once for all that is read off it.
theorem twoProcesses_run :
    lowMachine.Admits ⟨bootKernel, false⟩ twoProcesses ∧ kernelEnabled twoKernel .exit ∧
      (twoKernel.sys.allocated 8 = true ∧ twoKernel.sys.allocated 18 = true) ∧ twoKernel.vspaceOf 8 = some 2 ∧ twoKernel.vspaceOf 18 = some 12 ∧ twoKernel.sys.current ≠ idle ∧
      twoKernel.heap.Answers [0x120, 0x121, 0x122, 0x123, 0x124, 0x125] [21, 22, 23, 24, 25, 26] ∧
      ((procExecve hello (twoKernel.supplied [0x120, 0x121, 0x122, 0x123, 0x124, 0x125]
        [21, 22, 23, 24, 25, 26])).toOption.bind (·.2)).isSome := by
  decide +kernel

theorem processes_isolated_two :
    (twoKernel.vspaceOf 8 = some 2 ∧ twoKernel.vspaceOf 18 = some 12) ∧ Separated twoKernel ∧
      ∀ s', perform twoKernel .exit = .ok s' → Unseen twoKernel s' := by
  obtain ⟨admitted, runs, -, first, second, -⟩ := twoProcesses_run
  obtain ⟨separated, unseen⟩ := processes_isolated bootKernel_boot rfl admitted
  exact ⟨⟨first, second⟩, separated, unseen .exit runs trivial⟩

end Isolation

/-! ## Starts that fail -/

/-- What capabilities and threads can observe is as it was. -/
structure NoTrace (k k' : Kernel) : Prop where
  caps : ∀ c required, capResolve k'.sys.caps c required = capResolve k.sys.caps c required
  /-- The threads, the run queues and the running thread. -/
  sys : k'.sys = { k.sys with caps := k'.sys.caps }
  mirrors : k'.mirrors = k.mirrors
  processes : ∀ t, k.sys.allocated t = true → ∀ p, processFromCap k (k.sys.threads t).env.ownerCap = some p →
    k'.processes p = k.processes p
  files : ∀ t, k.sys.allocated t = true → ∀ f, filesFromCap k (k.sys.threads t).env.filesCap = some f →
    k'.tables f = k.tables f
  vspaces : ∀ t, k.sys.allocated t = true → ∀ vs, k.vspaceOf t = some vs → k'.vspaces vs = k.vspaces vs
  unseen : Unseen k k'

section Failure

variable {k k' : Kernel} {tasks : List Task}

/-- What a thread's capability for an object resolves to belongs to its task. -/
theorem Whole.resolved (whole : Whole k tasks) {t : Tid} (alloc : k.sys.allocated t = true) {c required : UInt64}
    {o : Obj} (holds : c ∈ (granted (k.sys.threads t).env).map Prod.fst) (null : t = idle → c = capNull)
    (found : capResolve k.sys.caps c required = some o) : o ∈ objectsOf k tasks := by
  by_cases busy : t = idle
  · rw [null busy, whole.books.holds.table.resolve_not_live fun l live => whole.books.holds.token_ne_null live] at found
    cases found
  · obtain ⟨task, member, rfl, env⟩ := whole.task alloc busy
    rw [env, granted_env, List.map_map, List.mem_map] at holds
    obtain ⟨l, live, rfl⟩ := holds
    have known : l ∈ [] ++ tasks.flatMap Task.live := List.mem_flatMap.2 ⟨task, member, live⟩
    obtain ⟨granted, refused⟩ := whole.books.holds.table.resolve_live known required
    have object : l.obj ∈ task.objects k := by
      simp only [Task.live, Task.estate, Estate.live, Option.elim, List.mem_cons, List.mem_append,
        List.not_mem_nil, or_false] at live
      rcases live with rfl | rfl | rfl | rfl <;> simp [Task.objects, Task.estate, Estate.objects]
    change capResolve k.sys.caps l.token required = some o at found
    by_cases allowed : RightsSubset required l.rights
    · rw [← Option.some.inj ((granted allowed).symm.trans found)]
      exact mem_objectsOf member object
    · rw [refused allowed] at found
      cases found

theorem Untouched.noTrace {pages : List Nat} {objects : List Obj}
    (untouched : Untouched tasks (k.supplied pages objects) k') (whole : Whole k tasks) (paged : Paged k tasks)
    (answers : k.heap.Answers pages objects) (low : ∀ p ∈ pages, p < 2 ^ 20) : NoTrace k k' := by
  have supplied := whole.supplied answers
  have handed := paged.supplied answers low
  have carried := handed.trans (untouched.carried handed.paged) (List.Subset.refl _)
  have whole' := supplied.untouched untouched
  obtain ⟨frame, holds, -⟩ := untouched
  have idleNull := whole.scheduled.idleEnv
  refine ⟨fun c required => whole.books.holds.table.resolve_congr holds.table c required, frame.sys, frame.mirrors,
    fun t alloc p found => ?_, fun t alloc f found => ?_, fun t alloc vs found => ?_,
    carried.unseen paged whole whole'⟩
  · refine frame.processes p (whole.resolved alloc (c := (k.sys.threads t).env.ownerCap) ?_ ?_
      (show capResolve k.sys.caps _ capRRead = _ from ?_))
    · simp [granted]
    · rintro rfl
      rw [idleNull]
    · unfold processFromCap at found
      split at found
      · cases found
      · exact found
  · refine frame.tables f (whole.resolved alloc (c := (k.sys.threads t).env.filesCap) ?_ ?_ found)
    · simp [granted]
    · rintro rfl
      rw [idleNull]
  · refine frame.vspaces vs (whole.resolved alloc (c := (k.sys.threads t).env.vspaceCap) ?_ ?_ found)
    · simp [granted]
    · rintro rfl
      rw [idleNull]

/-- **A spawn or an execve that fails leaves no trace.**  In every state of a run, with every
page below 4 GiB, wherever the call fails: each token resolves as before, no thread has been
made or queued, the caller is still current, and the process, the open files, the address
space and the memory of each thread are as they were. -/
theorem failed_start_leaves_no_trace (boot : Boot k) (empty : k.heap.pageSupply = []) {ops : List KernelOp}
    (admitted : lowMachine.Admits ⟨k, false⟩ ops) :
    let s := (lowMachine.run ⟨k, false⟩ ops).kernel
    ∀ program pages objects, s.heap.Answers pages objects → (∀ p ∈ pages, p < 2 ^ 20) →
      (∀ k' e, procSpawn program (s.supplied pages objects) = .ok (k', .error e) → NoTrace s k') ∧
        (s.sys.current ≠ idle → ∀ k' e, procExecve program (s.supplied pages objects) = .ok (k', some e) →
          NoTrace s k') := by
  intro s program pages objects answers low
  obtain ⟨tasks, whole, paged⟩ := kernelRun_paged boot empty admitted
  have supplied := whole.supplied answers
  refine ⟨fun k' e run => ?_, fun busy k' e run => ?_⟩
  · exact ((procSpawn_spec supplied run).1 e rfl).noTrace whole paged answers low
  · exact ((procExecve_spec supplied busy run).1 e rfl).noTrace whole paged answers low

/-- The process that runs has too few pages for another image: the stack is not mapped. -/
theorem failed_start_leaves_no_trace_memory :
    ∃ k' e, procExecve hello (twoKernel.supplied [0x120, 0x121, 0x122, 0x123, 0x124, 0x125] [21, 22, 23, 24, 25, 26]) =
      .ok (k', some e) ∧ NoTrace twoKernel k' := by
  obtain ⟨admitted, -, -, -, -, busy, answers, fails⟩ := twoProcesses_run
  have low : ∀ p ∈ [0x120, 0x121, 0x122, 0x123, 0x124, 0x125], p < 2 ^ 20 := by decide
  have atomic : ∀ program pages objects, twoKernel.heap.Answers pages objects → (∀ p ∈ pages, p < 2 ^ 20) →
      (∀ k' e, procSpawn program (twoKernel.supplied pages objects) = .ok (k', .error e) → NoTrace twoKernel k') ∧
        (twoKernel.sys.current ≠ idle → ∀ k' e,
          procExecve program (twoKernel.supplied pages objects) = .ok (k', some e) → NoTrace twoKernel k') := by
    unfold twoKernel
    exact failed_start_leaves_no_trace bootKernel_boot rfl admitted
  obtain ⟨e, failed⟩ := Option.isSome_iff_exists.1 fails
  obtain ⟨⟨k', ret⟩, run, rfl⟩ := Option.bind_eq_some_iff.1 failed
  cases result : procExecve hello (twoKernel.supplied [0x120, 0x121, 0x122, 0x123, 0x124, 0x125]
      [21, 22, 23, 24, 25, 26]) with
  | error stop =>
      rw [result] at run
      cases run
  | ok r =>
      rw [result] at run
      cases run
      exact ⟨k', e, rfl, (atomic hello _ _ answers low).2 busy k' e result⟩

end Failure

/-! ## Capabilities -/

section Capabilities

variable {k : Kernel} {tasks : List Task}

/-- Two tasks share no token. -/
theorem Whole.tokens_apart (whole : Whole k tasks) {t u : Task} (isT : t ∈ tasks) (isU : u ∈ tasks) (differ : t ≠ u)
    {l l' : Live Obj} (ofT : l ∈ t.live) (ofU : l' ∈ u.live) : l.token ≠ l'.token := by
  have apart := whole.books.holds.table.slots_nodup
  rw [List.nil_append, List.map_flatMap, List.nodup_flatMap] at apart
  have symm : Std.Symm (Function.onFun List.Disjoint fun (t : Task) => t.live.map Live.slot) :=
    ⟨fun _ _ => List.Disjoint.symm⟩
  have disjoint : List.Disjoint (t.live.map Live.slot) (u.live.map Live.slot) := apart.2.forall isT isU differ
  intro same
  refine disjoint (a := l.slot) (List.mem_map_of_mem ofT) (List.mem_map.2 ⟨l', ofU, ?_⟩)
  unfold Live.slot
  rw [same]

/-- **The capabilities are those of the living.**  In every state of a run a token resolves
exactly if a thread other than the idle one holds it with these rights; each thread is named
by its own token, and no two hold the same. -/
theorem capabilities_of_the_living (boot : Boot k) {ops : List KernelOp}
    (admitted : kernelMachine.Admits ⟨k, false⟩ ops) :
    let s := (kernelMachine.run ⟨k, false⟩ ops).kernel
    (∀ c required, capResolve s.sys.caps c required ≠ none ↔
      ∃ t, s.sys.allocated t = true ∧ t ≠ idle ∧
        ∃ g ∈ granted (s.sys.threads t).env, g.1 = c ∧ RightsSubset required g.2) ∧
      (∀ t, s.sys.allocated t = true → t ≠ idle →
        capResolve s.sys.caps (s.sys.threads t).env.threadCap capRCtl = some t) ∧
      ∀ t u, s.sys.allocated t = true → s.sys.allocated u = true → t ≠ idle → u ≠ idle → t ≠ u →
        ∀ g ∈ granted (s.sys.threads t).env, ∀ g' ∈ granted (s.sys.threads u).env, g.1 ≠ g'.1 := by
  intro s
  obtain ⟨tasks, whole⟩ := kernelRun_whole boot admitted
  have holds := whole.books.holds
  refine ⟨fun c required => ⟨fun found => ?_, ?_⟩, fun t alloc busy => ?_, fun t u allocT allocU busyT busyU differ => ?_⟩
  · by_cases live : ∃ l ∈ [] ++ tasks.flatMap Task.live, l.token = c
    · obtain ⟨l, member, rfl⟩ := live
      obtain ⟨task, isTask, ofTask⟩ := List.mem_flatMap.1 member
      obtain ⟨alloc, busy⟩ := whole.alloc isTask
      have allowed : RightsSubset required l.rights := by
        by_contra refused
        exact found ((holds.table.resolve_live member required).2 refused)
      refine ⟨task.thread.obj, alloc, busy, (l.token, l.rights), ?_, rfl, allowed⟩
      rw [(whole.books.recorded task isTask).env, granted_env]
      exact List.mem_map_of_mem ofTask
    · exact absurd (holds.table.resolve_not_live (fun l member same => live ⟨l, member, same⟩) required) found
  · rintro ⟨t, alloc, busy, g, grant, rfl, allowed⟩
    obtain ⟨task, isTask, rfl, env⟩ := whole.task alloc busy
    rw [env, granted_env] at grant
    obtain ⟨l, ofTask, rfl⟩ := List.mem_map.1 grant
    have member : l ∈ [] ++ tasks.flatMap Task.live := List.mem_flatMap.2 ⟨task, isTask, ofTask⟩
    rw [holds.resolves member allowed]
    exact Option.some_ne_none _
  · obtain ⟨task, isTask, rfl, env⟩ := whole.task alloc busy
    have member : (⟨task.thread.cap, task.thread.obj, capRCtl ||| capRRead⟩ : Live Obj) ∈
        [] ++ tasks.flatMap Task.live := List.mem_flatMap.2 ⟨task, isTask, List.mem_cons_self⟩
    rw [env]
    exact holds.resolves member threadControls
  · obtain ⟨task, isTask, rfl, env⟩ := whole.task allocT busyT
    obtain ⟨other, isOther, rfl, env'⟩ := whole.task allocU busyU
    rw [env, env', granted_env, granted_env]
    intro g grant g' grant'
    obtain ⟨l, ofTask, rfl⟩ := List.mem_map.1 grant
    obtain ⟨l', ofOther, rfl⟩ := List.mem_map.1 grant'
    exact whole.tokens_apart isTask isOther (fun same => differ (by rw [same])) ofTask ofOther

/-- Both threads hold their tokens, and not each other's. -/
theorem capabilities_of_the_living_two :
    kernelMachine.Admits ⟨bootKernel, false⟩ twoProcesses ∧
      (let s := (kernelMachine.run ⟨bootKernel, false⟩ twoProcesses).kernel
       (s.sys.allocated 8 = true ∧ capResolve s.sys.caps (s.sys.threads 8).env.threadCap capRCtl = some 8) ∧
        (s.sys.allocated 18 = true ∧ capResolve s.sys.caps (s.sys.threads 18).env.threadCap capRCtl = some 18) ∧
        ∀ g ∈ granted (s.sys.threads 8).env, ∀ g' ∈ granted (s.sys.threads 18).env, g.1 ≠ g'.1) := by
  have admitted : kernelMachine.Admits ⟨bootKernel, false⟩ twoProcesses := kernelAdmits_of_low twoProcesses_run.1
  obtain ⟨-, -, ⟨first, second⟩, -⟩ := twoProcesses_run
  obtain ⟨-, named, apart⟩ := capabilities_of_the_living bootKernel_boot admitted
  have same : (kernelMachine.run ⟨bootKernel, false⟩ twoProcesses).kernel = twoKernel := by
    rw [twoKernel, lowMachine, Machine.guard_run]
  rw [← same] at first second
  exact ⟨admitted, ⟨first, named 8 first (by decide)⟩, ⟨second, named 18 second (by decide)⟩,
    apart 8 18 first second (by decide) (by decide) (by decide)⟩

end Capabilities

end Minus.Proc.Processes
