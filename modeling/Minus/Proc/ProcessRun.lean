/-
# Proc.ProcessRun — processes that come and go

The kernel between two calls: every thread but the idle one belongs to a process that
is whole (`Task`), their capabilities are the live ones and their objects lie apart,
and the mirrors are those of the running thread.  `kernelStep_inv` says that spawn,
execve, exit and the calls of the scheduler keep this, and `mirrors_follow` reads the
mirrors off it.

The scheduler does not look at the capability table, so its lemmas are used with the
table of the boot state in its place (`bare`).
-/
import Minus.Proc.ProcessBooks

namespace Minus.Proc.Processes

set_option autoImplicit false

open Minus.Theory Minus.Lib.Dlist
open Minus.Core.Cap
open Minus.Core.Thread
open Minus.Mm.AddressSpace (Heap Obj Vspace)
open Minus.Mm.Buddy (Pfn)
open Minus.Fs.Dcache (Fault)
open Minus.Proc.Loader (Beside SamePages Sound)

/-! ## The scheduler under any capability table -/

/-- The threads without the capabilities. -/
def bare (s : Sys) : Sys := { s with caps := CapState.boot }

theorem eq_of_bare {s s' : Sys} (same : bare s = bare s') (caps : s.caps = s'.caps) : s = s' := by
  cases s
  cases s'
  simp only [bare, Sys.mk.injEq, true_and] at same caps ⊢
  simp only [same, caps, and_self]

/-- The scheduler leaves the records that name capabilities alone, and the kernel stacks. -/
structure Steady (s s' : Sys) : Prop where
  caps : s'.caps = s.caps
  env : ∀ t, (s'.threads t).env = (s.threads t).env
  cap : ∀ t, (s'.threads t).cap = (s.threads t).cap
  kstack : ∀ t, (s'.threads t).kstack = (s.threads t).kstack
  allocated : s'.allocated = s.allocated
  exitNotify : s'.exitNotify = s.exitNotify

section Scheduler

variable {s s' s'' : Sys}

theorem Steady.refl (s : Sys) : Steady s s := ⟨rfl, fun _ => rfl, fun _ => rfl, fun _ => rfl, rfl, rfl⟩

theorem Steady.trans (first : Steady s s') (second : Steady s' s'') : Steady s s'' :=
  ⟨second.caps.trans first.caps, fun t => (second.env t).trans (first.env t),
    fun t => (second.cap t).trans (first.cap t), fun t => (second.kstack t).trans (first.kstack t),
    second.allocated.trans first.allocated, second.exitNotify.trans first.exitNotify⟩

theorem Steady.modify (t : Tid) {f : Kthread → Kthread} (env : (f (s.threads t)).env = (s.threads t).env)
    (cap : (f (s.threads t)).cap = (s.threads t).cap) (kstack : (f (s.threads t)).kstack = (s.threads t).kstack) :
    Steady s (s.modify t f) := by
  refine ⟨rfl, fun u => ?_, fun u => ?_, fun u => ?_, rfl, rfl⟩
  · by_cases here : u = t
    · subst here
      rw [Sys.modify_self, env]
    · rw [Sys.modify_of_ne s f here]
  · by_cases here : u = t
    · subst here
      rw [Sys.modify_self, cap]
    · rw [Sys.modify_of_ne s f here]
  · by_cases here : u = t
    · subst here
      rw [Sys.modify_self, kstack]
    · rw [Sys.modify_of_ne s f here]

theorem schedEnqueueReady_bare (s : Sys) (t : Tid) :
    schedEnqueueReady (bare s) t = bare (schedEnqueueReady s t) := by
  unfold schedEnqueueReady
  have same : queued (bare s) t = queued s t := rfl
  rw [same]
  split <;> rfl

theorem schedEnqueueReady_steady (s : Sys) (t : Tid) :
    Steady s (schedEnqueueReady s t) ∧ (schedEnqueueReady s t).current = s.current := by
  unfold schedEnqueueReady
  split
  · exact ⟨Steady.refl s, rfl⟩
  · obtain ⟨caps, env, cap, kstack, allocated, exitNotify⟩ :=
      Steady.modify (s := s) t (f := fun k => { k with state := .ready }) rfl rfl rfl
    exact ⟨⟨caps, env, cap, kstack, allocated, exitNotify⟩, rfl⟩

theorem schedWake_bare (s : Sys) (t : Tid) : schedWake (bare s) t = bare (schedWake s t) := by
  unfold schedWake
  split
  · rename_i skip
    have skip' : t = s.current ∨ (s.threads t).state ≠ .blocked := skip
    rw [if_pos skip']
  · rename_i wakes
    have wakes' : ¬ (t = s.current ∨ (s.threads t).state ≠ .blocked) := wakes
    rw [if_neg wakes', schedEnqueueReady_bare]

theorem schedWake_steady (s : Sys) (t : Tid) : Steady s (schedWake s t) ∧ (schedWake s t).current = s.current := by
  unfold schedWake
  split
  · exact ⟨Steady.refl s, rfl⟩
  · exact schedEnqueueReady_steady s t

theorem schedMarkDead_bare (s : Sys) (t : Tid) : schedMarkDead (bare s) t = bare (schedMarkDead s t) := by
  unfold schedMarkDead
  have same : queued (bare s) t = queued s t := rfl
  rw [same]
  split <;> rfl

theorem schedMarkDead_steady (s : Sys) (t : Tid) :
    Steady s (schedMarkDead s t) ∧ (schedMarkDead s t).current = s.current := by
  unfold schedMarkDead
  split
  · obtain ⟨caps, env, cap, kstack, allocated, exitNotify⟩ :=
      Steady.modify (s := s) t (f := fun k => { k with state := .dead }) rfl rfl rfl
    exact ⟨⟨caps, env, cap, kstack, allocated, exitNotify⟩, rfl⟩
  · obtain ⟨caps, env, cap, kstack, allocated, exitNotify⟩ :=
      Steady.modify (s := s) t (f := fun k => { k with state := .dead }) rfl rfl rfl
    exact ⟨⟨caps, env, cap, kstack, allocated, exitNotify⟩, rfl⟩

theorem schedTick_bare (s : Sys) : schedTick (bare s) = bare (schedTick s) := by
  have pick : pickHighest (bare s) = pickHighest s := pickHighest_congr rfl
  have flagged : ∀ s : Sys,
      (if ((bare s).threads (bare s).current).slice = 0 then { bare s with needResched := true } else bare s) =
        bare (if (s.threads s.current).slice = 0 then { s with needResched := true } else s) := by
    intro s
    change (if (s.threads s.current).slice = 0 then _ else _) = _
    split <;> rfl
  unfold schedTick
  rw [pick]
  change (if some s.current = s.idleThread then _ else _) = bare (if some s.current = s.idleThread then _ else _)
  by_cases isIdle : some s.current = s.idleThread
  · rw [if_pos isIdle, if_pos isIdle]
  · rw [if_neg isIdle, if_neg isIdle]
    cases pickHighest s with
    | none => rfl
    | some head =>
        change (if head = s.current then _ else _) = bare (if head = s.current then _ else _)
        by_cases same : head = s.current
        · rw [if_pos same, if_pos same]
        · rw [if_neg same, if_neg same]
          by_cases slice : 0 < (s.threads s.current).slice
          · have slice' : 0 < ((bare s).threads (bare s).current).slice := slice
            simp only [if_pos slice, if_pos slice']
            exact flagged (s.modify s.current fun k => { k with slice := k.slice - 1 })
          · have slice' : ¬ 0 < ((bare s).threads (bare s).current).slice := slice
            simp only [if_neg slice, if_neg slice']
            exact flagged s

theorem schedTick_steady (s : Sys) : Steady s (schedTick s) ∧ (schedTick s).current = s.current := by
  have flagged : ∀ s' : Sys, Steady s s' → s'.current = s.current →
      Steady s (if (s'.threads s'.current).slice = 0 then { s' with needResched := true } else s') ∧
        (if (s'.threads s'.current).slice = 0 then { s' with needResched := true } else s').current = s.current := by
    intro s' steady current
    split
    · exact ⟨⟨steady.caps, steady.env, steady.cap, steady.kstack, steady.allocated, steady.exitNotify⟩, current⟩
    · exact ⟨steady, current⟩
  unfold schedTick
  split
  · exact ⟨Steady.refl s, rfl⟩
  · split
    · exact ⟨Steady.refl s, rfl⟩
    · split
      · exact ⟨Steady.refl s, rfl⟩
      · dsimp only
        split
        · exact flagged _ (Steady.modify s.current rfl rfl rfl) rfl
        · exact flagged s (Steady.refl s) rfl

theorem pickedThreads_kstack (s : Sys) (next t : Tid) :
    (pickedThreads s next t).kstack = (s.threads t).kstack := by
  have requeued : ∀ u, (requeuedThreads s u).kstack = (s.threads u).kstack := fun u => by
    by_cases here : u = s.current
    · subst here
      unfold requeuedThreads
      split <;> simp
    · rw [requeuedThreads_of_ne here]
  by_cases here : t = next
  · subst here
    simpa [pickedThreads] using requeued t
  · simpa [pickedThreads, here] using requeued t

theorem schedPickNext_bare (s : Sys) :
    schedPickNext (bare s) = (schedPickNext s).map fun r => (bare r.1, r.2) := by
  have requeue : requeueCurrent { bare s with needResched := false, picks := s.picks + 1 } =
      bare (requeueCurrent { s with needResched := false, picks := s.picks + 1 }) := by
    unfold requeueCurrent
    change (if (s.threads s.current).state = .running then _ else _) =
      bare (if (s.threads s.current).state = .running then _ else _)
    split
    · exact schedEnqueueReady_bare { s with needResched := false, picks := s.picks + 1 } s.current
    · rfl
  have unfolded : ∀ s : Sys, schedPickNext s =
      (pickHighest (requeueCurrent { s with needResched := false, picks := s.picks + 1 })).map fun next =>
        (dequeuePicked (requeueCurrent { s with needResched := false, picks := s.picks + 1 }) next, next) :=
    fun _ => rfl
  have bared : schedPickNext (bare s) =
      (pickHighest (bare (requeueCurrent { s with needResched := false, picks := s.picks + 1 }))).map fun next =>
        (dequeuePicked (bare (requeueCurrent { s with needResched := false, picks := s.picks + 1 })) next, next) := by
    rw [← requeue]
    rfl
  have pick : ∀ s : Sys, pickHighest (bare s) = pickHighest s := fun _ => pickHighest_congr rfl
  rw [bared, unfolded, pick, Option.map_map]
  rfl

theorem schedPickNext_caps {next : Tid} (pick : schedPickNext s = some (s', next)) : s'.caps = s.caps := by
  have requeue : (requeueCurrent { s with needResched := false, picks := s.picks + 1 }).caps = s.caps := by
    unfold requeueCurrent
    split
    · exact (schedEnqueueReady_steady _ _).1.caps
    · rfl
  unfold schedPickNext at pick
  obtain ⟨picked, -, same⟩ := Option.map_eq_some_iff.1 pick
  cases same
  exact requeue

/-- `sched_pick_next` beside any capability table. -/
theorem schedPickNext_picks (core : CoreInv (bare s)) :
    ∃ next links queues, schedPickNext s = some (pickedState s next links, next) ∧ s.allocated next = true ∧
      RunQueues (pickedState (bare s) next links) queues := by
  obtain ⟨next, links, queues, pick, alloc, -, rq⟩ := schedPickNext_spec core
  refine ⟨next, links, queues, ?_, alloc, rq⟩
  rw [schedPickNext_bare] at pick
  obtain ⟨⟨s₁, n⟩, found, same⟩ := Option.map_eq_some_iff.1 pick
  obtain ⟨bared, rfl⟩ := Prod.mk.inj same
  have caps : s₁.caps = s.caps := schedPickNext_caps found
  have state : s₁ = pickedState s n links := eq_of_bare bared caps
  rw [← state]
  exact found

/-- The invariant of the scheduler reads no record of a capability. -/
theorem threadInv_congr (inv : ThreadInv s) (links : s'.links = s.links) (allocated : s'.allocated = s.allocated)
    (state : ∀ t, (s'.threads t).state = (s.threads t).state) (prio : ∀ t, (s'.threads t).prio = (s.threads t).prio)
    (current : s'.current = s.current) (picks : s'.picks = s.picks) (fault : s'.fault = s.fault)
    (caps : s'.caps = CapState.boot) : ThreadInv s' := by
  obtain ⟨queues, rq⟩ := inv.queues
  refine ⟨⟨⟨queues, rq.congr links allocated (fun t _ => by rw [state]) fun t _ => prio t⟩,
    ⟨[], by rw [caps]; exact capInv_boot, nofun⟩, fun t alloc running => ?_, ?_, ?_, ?_, ?_⟩, fun zero => ?_, fun nonzero => ?_⟩
  · rw [allocated] at alloc
    rw [state] at running
    rw [current]
    exact inv.running t alloc running
  · rw [current, allocated]
    exact inv.current_alloc
  · rw [allocated]
    exact inv.idle_alloc
  · rw [state]
    exact inv.idle_state
  · rw [fault]
    exact inv.noFault
  · rw [picks] at zero
    rw [current, state]
    exact inv.unpicked zero
  · rw [picks] at nonzero
    rw [current, state]
    exact inv.picked nonzero

end Scheduler

/-! ## Processes that run -/

/-- A thread and the process it belongs to. -/
structure Task where
  thread : Named
  process : Named
  vspace : Named
  files : Named

namespace Task

def estate (t : Task) : Estate := ⟨t.process, some t.vspace, some t.files⟩

def live (t : Task) : List (Live Obj) := ⟨t.thread.cap, t.thread.obj, capRCtl ||| capRRead⟩ :: t.estate.live

def objects (k : Kernel) (t : Task) : List Obj := t.thread.obj :: t.estate.objects k

def env (t : Task) : SwitchEnvelope := ⟨t.thread.cap, t.process.cap, t.files.cap, t.vspace.cap⟩

/-- Process and thread name their capabilities. -/
structure Recorded (k : Kernel) (t : Task) : Prop where
  estate : t.estate.Recorded k
  env : (k.sys.threads t.thread.obj).env = t.env
  cap : (k.sys.threads t.thread.obj).cap = t.thread.cap

end Task

/-- The objects of the kernel at rest; the idle thread is static. -/
def objectsOf (k : Kernel) (tasks : List Task) : List Obj := idle :: tasks.flatMap (Task.objects k)

/-- What is live and in use beside something under construction belongs to the tasks. -/
structure Books (k : Kernel) (tasks : List Task) (live : List (Live Obj)) (objs : List Obj) : Prop where
  holds : Holds k.sys.caps k.heap (live ++ tasks.flatMap Task.live) (objs ++ objectsOf k tasks)
  recorded : ∀ t ∈ tasks, t.Recorded k

/-- Every thread is the idle one or that of a task. -/
structure Scheduled (s : Sys) (tasks : List Task) : Prop where
  allocated : ∀ t, s.allocated t = true ↔ t = idle ∨ ∃ task ∈ tasks, task.thread.obj = t
  notify : s.exitNotify = true
  idleEnv : (s.threads idle).env = ⟨capNull, capNull, capNull, capNull⟩

/-- What the subscribers of the switch bus make of an envelope. -/
def Kernel.published (k : Kernel) (env : SwitchEnvelope) :
    (UInt64 × Option Obj) × Option Obj × Option Obj × Option Nat :=
  let vs := if env.vspaceCap ≠ capNull then capResolve k.sys.caps env.vspaceCap Mm.AddressSpace.capRMap else none
  ((env.vspaceCap, vs), filesFromCap k env.filesCap, processFromCap k env.ownerCap,
    vs.map fun vs => (k.vspaces vs).pgd)

/-- The mirrors are those of the running thread. -/
def Mirrored (k : Kernel) : Prop := k.mirrors = k.published (k.sys.threads k.sys.current).env

/-- The kernel inside `switch_away`: the current thread may have been marked dead or blocked. -/
structure Poised (k : Kernel) (tasks : List Task) : Prop where
  books : Books k tasks [] []
  scheduled : Scheduled k.sys tasks
  core : CoreInv (bare k.sys)
  mirrored : Mirrored k

/-- The kernel between calls. -/
structure Whole (k : Kernel) (tasks : List Task) : Prop where
  books : Books k tasks [] []
  scheduled : Scheduled k.sys tasks
  threads : ThreadInv (bare k.sys)
  mirrored : Mirrored k

theorem Whole.poised {k : Kernel} {tasks : List Task} (whole : Whole k tasks) : Poised k tasks :=
  ⟨whole.books, whole.scheduled, whole.threads.toCoreInv, whole.mirrored⟩

section Books

variable {k k' : Kernel} {tasks : List Task} {live : List (Live Obj)} {objs : List Obj}

theorem mem_objectsOf {t : Task} (member : t ∈ tasks) {o : Obj} (object : o ∈ t.objects k) :
    o ∈ objectsOf k tasks :=
  List.mem_cons_of_mem _ (List.mem_flatMap.2 ⟨t, member, object⟩)

/-- What the tasks' addresses hold is as it was. -/
structure Preserved (tasks : List Task) (k k' : Kernel) : Prop where
  processes : ∀ o ∈ objectsOf k tasks, k'.processes o = k.processes o
  vspaces : ∀ o ∈ objectsOf k tasks, k'.vspaces o = k.vspaces o
  tables : ∀ o ∈ objectsOf k tasks, k'.tables o = k.tables o
  env : ∀ t ∈ tasks, (k'.sys.threads t.thread.obj).env = (k.sys.threads t.thread.obj).env
  cap : ∀ t ∈ tasks, (k'.sys.threads t.thread.obj).cap = (k.sys.threads t.thread.obj).cap
  kstack : ∀ t ∈ tasks, (k'.sys.threads t.thread.obj).kstack = (k.sys.threads t.thread.obj).kstack

theorem Preserved.objects (preserved : Preserved tasks k k') {t : Task} (member : t ∈ tasks) :
    t.objects k' = t.objects k := by
  have vspace : k'.vspaces t.vspace.obj = k.vspaces t.vspace.obj :=
    preserved.vspaces _ (mem_objectsOf member (by simp [Task.objects, Task.estate, Estate.objects]))
  have table : k'.tables t.files.obj = k.tables t.files.obj :=
    preserved.tables _ (mem_objectsOf member (by simp [Task.objects, Task.estate, Estate.objects]))
  simp only [Task.objects, Task.estate, Estate.objects, Option.elim, vspace, table]

theorem Preserved.objectsOf (preserved : Preserved tasks k k') : objectsOf k' tasks = objectsOf k tasks := by
  unfold Processes.objectsOf
  rw [List.flatMap_congr fun t member => preserved.objects member]

theorem Preserved.recorded (preserved : Preserved tasks k k') {t : Task} (member : t ∈ tasks)
    (recorded : t.Recorded k) : t.Recorded k' := by
  obtain ⟨⟨self, vspace, files, vspaceSelf⟩, env, cap⟩ := recorded
  have process : k'.processes t.process.obj = k.processes t.process.obj :=
    preserved.processes _ (mem_objectsOf member (by simp [Task.objects, Task.estate, Estate.objects]))
  have space : k'.vspaces t.vspace.obj = k.vspaces t.vspace.obj :=
    preserved.vspaces _ (mem_objectsOf member (by simp [Task.objects, Task.estate, Estate.objects]))
  refine ⟨⟨?_, ?_, ?_, ?_⟩, (preserved.env t member).trans env, (preserved.cap t member).trans cap⟩
  · change (k'.processes t.process.obj).self = _
    rw [process]
    exact self
  · change (k'.processes t.process.obj).vspace = _
    rw [process]
    exact vspace
  · change (k'.processes t.process.obj).files = _
    rw [process]
    exact files
  · rintro v ⟨⟩
    rw [space]
    exact vspaceSelf t.vspace rfl

theorem Books.carry {live' : List (Live Obj)} {objs' : List Obj} (books : Books k tasks live objs)
    (preserved : Preserved tasks k k')
    (holds : Holds k'.sys.caps k'.heap (live' ++ tasks.flatMap Task.live) (objs' ++ objectsOf k tasks)) :
    Books k' tasks live' objs' :=
  ⟨by rw [preserved.objectsOf]; exact holds, fun t member => preserved.recorded member (books.recorded t member)⟩

/-- A call that leaves the tasks alone. -/
theorem Frame.preserved (frame : Frame (objectsOf k tasks) k k') : Preserved tasks k k' where
  processes := frame.processes
  vspaces := frame.vspaces
  tables := frame.tables
  env t _ := by rw [frame.sys]
  cap t _ := by rw [frame.sys]
  kstack t _ := by rw [frame.sys]

/-- The scheduler leaves the tasks alone. -/
theorem Steady.preserved {s : Sys} (steady : Steady k.sys s) : Preserved tasks k { k with sys := s } :=
  ⟨fun _ _ => rfl, fun _ _ => rfl, fun _ _ => rfl, fun _ _ => steady.env _, fun _ _ => steady.cap _,
    fun _ _ => steady.kstack _⟩

theorem Books.steady {s : Sys} (books : Books k tasks live objs) (steady : Steady k.sys s) :
    Books { k with sys := s } tasks live objs := by
  refine books.carry steady.preserved ?_
  change Holds s.caps k.heap _ _
  rw [steady.caps]
  exact books.holds

theorem Scheduled.steady {s s' : Sys} (scheduled : Scheduled s tasks) (steady : Steady s s') : Scheduled s' tasks :=
  ⟨by rw [steady.allocated]; exact scheduled.allocated, steady.exitNotify.trans scheduled.notify,
    (steady.env idle).trans scheduled.idleEnv⟩

theorem published_steady {s : Sys} (steady : Steady k.sys s) (env : SwitchEnvelope) :
    Kernel.published { k with sys := s } env = k.published env := by
  simp only [Kernel.published, filesFromCap, processFromCap, steady.caps]

theorem Mirrored.steady {s : Sys} (mirrored : Mirrored k) (steady : Steady k.sys s)
    (current : s.current = k.sys.current) : Mirrored { k with sys := s } := by
  unfold Mirrored
  rw [published_steady steady]
  change k.mirrors = k.published (s.threads s.current).env
  rw [current, steady.env]
  exact mirrored

theorem Books.perm {tasks' : List Task} (books : Books k tasks live objs) (perm : tasks.Perm tasks') :
    Books k tasks' live objs := by
  refine ⟨?_, fun t member => books.recorded t (perm.mem_iff.2 member)⟩
  refine (books.holds.permLive ((perm.flatMap_right Task.live).append_left live)).perm ?_
  exact ((perm.flatMap_right (Task.objects k)).cons idle).append_left objs

/-- The mirrors of a task. -/
theorem Books.published (books : Books k tasks live objs) {t : Task} (member : t ∈ tasks) :
    k.published t.env = ((t.vspace.cap, some t.vspace.obj), some t.files.obj, some t.process.obj,
      some (k.vspaces t.vspace.obj).pgd) := by
  have granted : ∀ l ∈ t.live, l ∈ live ++ tasks.flatMap Task.live := fun l has =>
    List.mem_append_right _ (List.mem_flatMap.2 ⟨t, member, has⟩)
  have vspace : (⟨t.vspace.cap, t.vspace.obj, Mm.AddressSpace.capRMap ||| capRCtl⟩ : Live Obj) ∈ t.live := by
    simp [Task.live, Task.estate, Estate.live]
  have files : (⟨t.files.cap, t.files.obj, capRCtl⟩ : Live Obj) ∈ t.live := by
    simp [Task.live, Task.estate, Estate.live]
  have process : (⟨t.process.cap, t.process.obj, capRCtl ||| capRRead⟩ : Live Obj) ∈ t.live := by
    simp [Task.live, Task.estate, Estate.live]
  have vspaceIssued : t.vspace.cap ≠ capNull := books.holds.token_ne_null (granted _ vspace)
  have processIssued : t.process.cap ≠ capNull := books.holds.token_ne_null (granted _ process)
  have vspaceFound := books.holds.resolves (granted _ vspace) vspaceMaps
  have filesFound := books.holds.resolves (granted _ files) filesControls
  have processFound := books.holds.resolves (granted _ process) processReads
  dsimp only at vspaceFound filesFound processFound
  simp only [Kernel.published, Task.env, filesFromCap, processFromCap, if_pos vspaceIssued, if_neg processIssued,
    vspaceFound, filesFound, processFound, Option.map_some]

/-- The mirrors of the idle thread. -/
theorem Books.published_null (books : Books k tasks live objs) :
    k.published ⟨capNull, capNull, capNull, capNull⟩ = ((capNull, none), none, none, none) := by
  have null : ∀ required, capResolve k.sys.caps capNull required = none := fun required =>
    books.holds.table.resolve_not_live (fun l member => books.holds.token_ne_null member) required
  simp [Kernel.published, filesFromCap, processFromCap, null]

/-- The thread is the idle one or that of a task, and its envelope says so. -/
theorem Scheduled.env (scheduled : Scheduled k.sys tasks) (books : Books k tasks live objs) {t : Tid}
    (alloc : k.sys.allocated t = true) :
    (t = idle ∧ (k.sys.threads t).env = ⟨capNull, capNull, capNull, capNull⟩) ∨
      ∃ task ∈ tasks, task.thread.obj = t ∧ (k.sys.threads t).env = task.env := by
  rcases (scheduled.allocated t).1 alloc with rfl | ⟨task, member, rfl⟩
  · exact Or.inl ⟨rfl, scheduled.idleEnv⟩
  · exact Or.inr ⟨task, member, rfl, (books.recorded task member).env⟩

/-- The mirrors stay right when the running thread's task stays. -/
theorem Mirrored.keep {tasks' : List Task} {live' : List (Live Obj)} {objs' : List Obj} (mirrored : Mirrored k)
    (scheduled : Scheduled k.sys tasks) (books : Books k tasks live objs) (books' : Books k' tasks' live' objs')
    (alloc : k.sys.allocated k.sys.current = true) (mirrors : k'.mirrors = k.mirrors)
    (current : k'.sys.current = k.sys.current)
    (env : (k'.sys.threads k.sys.current).env = (k.sys.threads k.sys.current).env)
    (stays : ∀ task ∈ tasks, task.thread.obj = k.sys.current →
      task ∈ tasks' ∧ k'.vspaces task.vspace.obj = k.vspaces task.vspace.obj) : Mirrored k' := by
  unfold Mirrored at mirrored ⊢
  rw [mirrors, current, env, mirrored]
  obtain ⟨-, null⟩ | ⟨task, member, here, named⟩ := scheduled.env books alloc
  · rw [null, books.published_null, books'.published_null]
  · obtain ⟨member', vspace⟩ := stays task member here
    rw [named, books.published member, books'.published member', vspace]

end Books

/-! ## The pages of the processes -/

/-- The pages of a process: those of its address space, and the kernel stack of its thread. -/
def Task.Uses (k : Kernel) (t : Task) (p : Pfn) : Prop :=
  (k.vspaces t.vspace.obj).Uses p ∨ (k.sys.threads t.thread.obj).kstack = some p

/-- Each process has pages of its own and a page table on them. -/
structure Paged (k : Kernel) (tasks : List Task) : Prop where
  supply : k.heap.LowSupply
  sound : ∀ t ∈ tasks, Sound k.heap (k.vspaces t.vspace.obj)
  used : ∀ t ∈ tasks, ∀ p, t.Uses k p → p ∈ k.heap.pages
  stack : ∀ t ∈ tasks, ∀ p, (k.sys.threads t.thread.obj).kstack = some p → ¬ (k.vspaces t.vspace.obj).Uses p
  apart : tasks.Pairwise fun t u => ∀ p, t.Uses k p → ¬ u.Uses k p

/-- The processes that stay keep their pages, and what is in them; those that join are new. -/
structure Carried (k : Kernel) (tasks : List Task) (k' : Kernel) (tasks' : List Task) : Prop where
  paged : Paged k' tasks'
  kept : ∀ t ∈ tasks, t ∈ tasks' → k'.vspaces t.vspace.obj = k.vspaces t.vspace.obj ∧
    ∀ p, t.Uses k p → t.Uses k' p ∧ k'.heap.mem p = k.heap.mem p
  joined : ∀ t ∈ tasks', t ∈ tasks ∨ k.sys.allocated t.thread.obj = false

section Pages

variable {k k' k'' : Kernel} {tasks tasks' tasks'' : List Task}

theorem Preserved.uses (preserved : Preserved tasks k k') {t : Task} (member : t ∈ tasks) (p : Pfn) :
    t.Uses k' p ↔ t.Uses k p := by
  have vspace : k'.vspaces t.vspace.obj = k.vspaces t.vspace.obj :=
    preserved.vspaces _ (mem_objectsOf member (by simp [Task.objects, Task.estate, Estate.objects]))
  unfold Task.Uses
  rw [vspace, preserved.kstack t member]

/-- The pages that the tasks use are left alone. -/
theorem Paged.carry (paged : Paged k tasks) (preserved : Preserved tasks k k') (supply : k'.heap.LowSupply)
    (kept : ∀ t ∈ tasks, ∀ p, t.Uses k p → p ∈ k'.heap.pages ∧ k'.heap.mem p = k.heap.mem p) :
    Carried k tasks k' tasks := by
  have vspace : ∀ t ∈ tasks, k'.vspaces t.vspace.obj = k.vspaces t.vspace.obj := fun t member =>
    preserved.vspaces _ (mem_objectsOf member (by simp [Task.objects, Task.estate, Estate.objects]))
  refine ⟨⟨supply, fun t member => ?_, fun t member p uses => ?_, fun t member p has => ?_, ?_⟩,
    fun t member _ => ⟨vspace t member, fun p uses => ?_⟩, fun t member => .inl member⟩
  · rw [vspace t member]
    exact ((paged.sound t member).congr fun p table => (kept t member p (.inl (.inl table))).2).1
  · exact (kept t member p ((preserved.uses member p).1 uses)).1
  · rw [vspace t member]
    exact paged.stack t member p (by rw [← preserved.kstack t member]; exact has)
  · refine paged.apart.imp_of_mem fun {t u} isT isU apart p uses uses' => ?_
    exact apart p ((preserved.uses isT p).1 uses) ((preserved.uses isU p).1 uses')
  · exact ⟨(preserved.uses member p).2 uses, (kept t member p uses).2⟩

theorem Paged.beside (paged : Paged k tasks) (preserved : Preserved tasks k k') (beside : Beside k.heap k'.heap) :
    Carried k tasks k' tasks :=
  paged.carry preserved beside.supply fun t member p uses =>
    ⟨beside.pages (paged.used t member p uses), beside.mem p (paged.used t member p uses)⟩

theorem Paged.steady {s : Sys} (paged : Paged k tasks) (steady : Steady k.sys s) :
    Carried k tasks { k with sys := s } tasks :=
  paged.beside steady.preserved (Beside.refl paged.supply)

theorem Paged.refl (paged : Paged k tasks) : Carried k tasks k tasks := paged.steady (Steady.refl k.sys)

theorem Paged.perm (paged : Paged k tasks) (perm : tasks.Perm tasks') : Paged k tasks' := by
  refine ⟨paged.supply, fun t member => paged.sound t (perm.mem_iff.2 member),
    fun t member => paged.used t (perm.mem_iff.2 member), fun t member => paged.stack t (perm.mem_iff.2 member), ?_⟩
  exact paged.apart.perm perm fun {t u} apart p uses uses' => apart p uses' uses

theorem Carried.trans (first : Carried k tasks k' tasks') (second : Carried k' tasks' k'' tasks'')
    (fewer : tasks'' ⊆ tasks') : Carried k tasks k'' tasks'' := by
  refine ⟨second.paged, fun t member last => ?_, fun t last => first.joined t (fewer last)⟩
  obtain ⟨vspace, kept⟩ := first.kept t member (fewer last)
  obtain ⟨vspace', kept'⟩ := second.kept t (fewer last) last
  refine ⟨vspace'.trans vspace, fun p uses => ?_⟩
  obtain ⟨uses', mem⟩ := kept p uses
  obtain ⟨uses'', mem'⟩ := kept' p uses'
  exact ⟨uses'', mem'.trans mem⟩

/-- A call that joins tasks comes after one that leaves them alone. -/
theorem Carried.before (first : Carried k tasks k' tasks) (second : Carried k' tasks k'' tasks'')
    (allocated : k'.sys.allocated = k.sys.allocated) : Carried k tasks k'' tasks'' := by
  refine ⟨second.paged, fun t member last => ?_, fun t last => ?_⟩
  · obtain ⟨vspace, kept⟩ := first.kept t member member
    obtain ⟨vspace', kept'⟩ := second.kept t member last
    refine ⟨vspace'.trans vspace, fun p uses => ?_⟩
    obtain ⟨uses', mem⟩ := kept p uses
    obtain ⟨uses'', mem'⟩ := kept' p uses'
    exact ⟨uses'', mem'.trans mem⟩
  · rw [← allocated]
    exact second.joined t last

/-- What is said of a list of tasks is said of its permutations. -/
theorem Carried.perm {first : List Task} (carried : Carried k tasks k' tasks') (perm : tasks.Perm first) :
    Carried k first k' tasks' :=
  ⟨carried.paged, fun t member => carried.kept t (perm.mem_iff.2 member),
    fun t member => (carried.joined t member).imp_left perm.mem_iff.1⟩

/-- The pages of a task that goes are all that it gives back. -/
theorem Paged.reap {task : Task} {rest : List Task} (paged : Paged k (task :: rest)) (preserved : Preserved rest k k')
    (beside : ∀ base, task.estate.Housed base k →
      (∀ p, (k.sys.threads task.thread.obj).kstack = some p → p ∉ base.pages) → Beside base k'.heap) :
    Carried k (task :: rest) k' rest := by
  classical
  -- what is in use, without the pages of the task
  let base : Heap := { k.heap with pages := k.heap.pages.filter fun p => ¬ task.Uses k p }
  have mem_base : ∀ p, p ∈ base.pages ↔ p ∈ k.heap.pages ∧ ¬ task.Uses k p := fun p => Finset.mem_filter
  have own : Beside base k.heap := ⟨paged.supply, fun p inUse => ((mem_base p).1 inUse).1, fun p _ => rfl⟩
  have housed : task.estate.Housed base k := by
    refine ⟨own, ?_⟩
    rintro v ⟨⟩
    refine ⟨own, paged.sound task List.mem_cons_self, fun p uses => ⟨?_, fun old => ?_⟩⟩
    · exact paged.used task List.mem_cons_self p (.inl uses)
    · exact ((mem_base p).1 old).2 (.inl uses)
  have after := beside base housed fun p stack old => ((mem_base p).1 old).2 (.inr stack)
  obtain ⟨apart, others⟩ := List.pairwise_cons.1 paged.apart
  have left : Paged k rest := ⟨paged.supply, fun t member => paged.sound t (List.mem_cons_of_mem _ member),
    fun t member => paged.used t (List.mem_cons_of_mem _ member),
    fun t member => paged.stack t (List.mem_cons_of_mem _ member), others⟩
  have carried := left.carry preserved after.supply fun t member p uses => by
    have old : p ∈ base.pages := (mem_base p).2
      ⟨paged.used t (List.mem_cons_of_mem _ member) p uses, fun uses' => apart t member p uses' uses⟩
    exact ⟨after.pages old, after.mem p old⟩
  exact ⟨carried.paged, fun t _ stays => carried.kept t stays stays, fun t member => .inl (List.mem_cons_of_mem _ member)⟩

end Pages

/-! ## The switch -/

section Switch

variable {k k' : Kernel} {tasks : List Task}

theorem switchNotify_mirrors (k : Kernel) (env : SwitchEnvelope)
    (ttbr0 : k.ttbr0 = k.curVspace.map fun vs => (k.vspaces vs).pgd) :
    (switchNotify k env).mirrors = k.published env := by
  simp only [switchNotify, uaccessSwitchNotify, procSwitchNotify, fdtableSwitchNotify, Kernel.mirrors,
    Kernel.published, switchVspace]
  generalize (if env.vspaceCap ≠ capNull then capResolve k.sys.caps env.vspaceCap Mm.AddressSpace.capRMap
    else none) = vs
  by_cases same : vs = k.curVspace
  · subst same
    simp only [ne_eq, not_true_eq_false, if_false, ttbr0]
    rfl
  · simp only [ne_eq, same, not_false_eq_true, if_true]
    rfl

/-- `TTBR0` is part of the mirrors. -/
theorem Mirrored.ttbr0 (mirrored : Mirrored k) : k.ttbr0 = k.curVspace.map fun vs => (k.vspaces vs).pgd := by
  unfold Mirrored Kernel.mirrors Kernel.published at mirrored
  simp only [Prod.mk.injEq] at mirrored
  obtain ⟨⟨-, vspace⟩, -, -, ttbr0⟩ := mirrored
  rw [ttbr0, vspace]

/-- The CPU runs `next`, and the bus has told so. -/
def entered (k : Kernel) (next : Tid) (links : Links Node) : Kernel :=
  switchNotify { k with sys := handOver k.sys next links } ((handOver k.sys next links).threads next).env

/-- **What `switch_away` can do**, as in `Core.Thread`. -/
theorem switchAway_eq (core : CoreInv (bare k.sys)) :
    ∃ next links queues, k.sys.allocated next = true ∧ RunQueues (pickedState (bare k.sys) next links) queues ∧
      ((next = k.sys.current ∧ switchAway k = .ok { k with sys := pickedState k.sys next links }) ∨
        (next ≠ k.sys.current ∧ switchAway k = .ok (entered k next links)) ∨
        (next ≠ k.sys.current ∧ switchAway k = finishSwitch (entered k next links) (some k.sys.current))) := by
  obtain ⟨next, links, queues, pick, alloc, rq⟩ := schedPickNext_picks core
  refine ⟨next, links, queues, alloc, rq, ?_⟩
  by_cases same : next = k.sys.current
  · exact Or.inl ⟨same, by simp only [switchAway, pick, same, if_true]⟩
  · have lr : ((pickedState k.sys next links).threads next).lr = (k.sys.threads next).lr :=
      (pickedThreads_same k.sys next next).1
    refine Or.inr ?_
    simp only [switchAway, pick, same, if_false, entered, handOver, archContextSwitch]
    rw [lr]
    cases (k.sys.threads next).lr with
    | switchAway => exact Or.inr ⟨same, rfl⟩
    | unset => exact Or.inl ⟨same, rfl⟩
    | retToUser => exact Or.inl ⟨same, rfl⟩

theorem handOver_steady (s : Sys) (next : Tid) (links : Links Node) : Steady s (handOver s next links) := by
  refine ⟨rfl, fun t => ?_, fun t => ?_, fun t => ?_, rfl, rfl⟩
  · rw [handOver_threads, ← (pickedThreads_same s next t).2.2.1]
    split <;> rfl
  · rw [handOver_threads, ← (pickedThreads_same s next t).2.1]
    split <;> rfl
  · rw [handOver_threads, ← pickedThreads_kstack s next t]
    split <;> rfl

theorem entered_whole (poised : Poised k tasks) {next : Tid} {links : Links Node}
    {queues : Nat → List Tid} (alloc : k.sys.allocated next = true)
    (rq : RunQueues (pickedState (bare k.sys) next links) queues) : Whole (entered k next links) tasks := by
  have steady := handOver_steady k.sys next links
  have books := poised.books.steady steady
  refine ⟨⟨books.holds, fun t member => ?_⟩, poised.scheduled.steady steady, ?_, ?_⟩
  · obtain ⟨⟨self, vspace, files, vspaceSelf⟩, env, cap⟩ := books.recorded t member
    exact ⟨⟨self, vspace, files, vspaceSelf⟩, env, cap⟩
  · exact poised.core.handOver alloc rq
  · exact switchNotify_mirrors _ _ poised.mirrored.ttbr0

/-- The subscribers write no page. -/
theorem Paged.entered (paged : Paged k tasks) (next : Tid) (links : Links Node) :
    Carried k tasks (entered k next links) tasks := by
  have steady := handOver_steady k.sys next links
  refine paged.beside ?_ (Beside.refl paged.supply)
  exact ⟨fun _ _ => rfl, fun _ _ => rfl, fun _ _ => rfl, fun _ _ => steady.env _, fun _ _ => steady.cap _,
    fun _ _ => steady.kstack _⟩

/-! ## Reaping -/

theorem Whole.perm {tasks' : List Task} (whole : Whole k tasks) (perm : tasks.Perm tasks') : Whole k tasks' where
  books := whole.books.perm perm
  scheduled := ⟨fun t => by simp only [whole.scheduled.allocated, perm.mem_iff], whole.scheduled.notify,
    whole.scheduled.idleEnv⟩
  threads := whole.threads
  mirrored := whole.mirrored

theorem Whole.log (whole : Whole k tasks) (e : Event) : Whole { k with sys := k.sys.log e } tasks := by
  have steady : Steady k.sys (k.sys.log e) := ⟨rfl, fun _ => rfl, fun _ => rfl, fun _ => rfl, rfl, rfl⟩
  exact ⟨whole.books.steady steady, whole.scheduled.steady steady, whole.threads.log e,
    whole.mirrored.steady steady rfl⟩

theorem capFree_boot (cap : UInt64) : capFree (CapState.boot : CapState Obj) cap = CapState.boot :=
  capInv_boot.free_not_live nofun

theorem threadFree_bare (s : Sys) (t : Tid) :
    Core.Thread.threadFree (bare s) t = bare (Core.Thread.threadFree s t) := by
  unfold Core.Thread.threadFree
  have boot : (if ((bare s).threads t).cap ≠ capNull then capFree (bare s).caps ((bare s).threads t).cap
      else (bare s).caps) = CapState.boot := by
    split
    · exact capFree_boot _
    · rfl
  dsimp only
  rw [boot]
  rfl

/-- A task without its thread, beside the others. -/
theorem Books.estate {task : Task} {rest : List Task} (books : Books k (task :: rest) [] []) :
    Built k task.estate (⟨task.thread.cap, task.thread.obj, capRCtl ||| capRRead⟩ :: rest.flatMap Task.live)
      (task.thread.obj :: objectsOf k rest) := by
  refine ⟨(books.holds.permLive ?_).perm ?_, (books.recorded task List.mem_cons_self).estate⟩
  · exact List.perm_middle.symm
  · refine List.perm_iff_count.2 fun o => ?_
    simp only [objectsOf, Task.objects, List.nil_append, List.flatMap_cons, List.count_append, List.count_cons]
    omega

/-- The exit notifier finds the process of the task. -/
theorem Books.processFromCap {task : Task} (books : Books k tasks [] []) (member : task ∈ tasks) :
    task.process.cap ≠ capNull ∧ processFromCap k task.process.cap = some task.process.obj := by
  have live : (⟨task.process.cap, task.process.obj, capRCtl ||| capRRead⟩ : Live Obj) ∈ tasks.flatMap Task.live :=
    List.mem_flatMap.2 ⟨task, member, by simp [Task.live, Task.estate, Estate.live]⟩
  have owner : task.process.cap ≠ capNull := books.holds.token_ne_null live
  refine ⟨owner, ?_⟩
  unfold Processes.processFromCap
  rw [if_neg owner]
  exact books.holds.resolves live processReads

theorem threadFree_holds {thread : Named} {live : List (Live Obj)} {objs : List Obj}
    (holds : Holds k.sys.caps k.heap (⟨thread.cap, thread.obj, capRCtl ||| capRRead⟩ :: live) (thread.obj :: objs))
    (cap : (k.sys.threads thread.obj).cap = thread.cap) :
    Holds (threadFree k thread.obj).sys.caps (threadFree k thread.obj).heap live objs := by
  have issued : (k.sys.threads thread.obj).cap ≠ capNull := by
    rw [cap]
    exact holds.token_ne_null List.mem_cons_self
  have caps : (threadFree k thread.obj).sys.caps = capFree k.sys.caps thread.cap := by
    rw [← cap]
    exact if_pos issued
  have stack : Holds (capFree k.sys.caps thread.cap)
      ((k.sys.threads thread.obj).kstack.elim k.heap k.heap.kfreePages) live (thread.obj :: objs) := by
    cases (k.sys.threads thread.obj).kstack with
    | none => exact holds.revoke
    | some page => exact holds.revoke.heap rfl rfl
  rw [caps]
  exact stack.kfree

theorem threadFree_beside {base : Heap} {t : Tid} (beside : Beside base k.heap)
    (stack : ∀ p, (k.sys.threads t).kstack = some p → p ∉ base.pages) : Beside base (threadFree k t).heap := by
  have freed : Beside base ((k.sys.threads t).kstack.elim k.heap k.heap.kfreePages) := by
    cases has : (k.sys.threads t).kstack with
    | none => exact beside
    | some page => exact beside.kfreePages (stack page has)
  exact freed.trans ((Loader.kfree_samePages _ t).beside freed.supply)

/-- **A dead task goes**: its process by the exit notifier, then its thread. -/
theorem Whole.reap {task : Task} {rest : List Task} (whole : Whole k (task :: rest))
    (other : task.thread.obj ≠ k.sys.current) (dead : (k.sys.threads task.thread.obj).state = .dead)
    (run : (exitNotify k (k.sys.threads task.thread.obj) >>= fun k => .ok (threadFree k task.thread.obj)) = .ok k') :
    Whole k' rest ∧ (Paged k (task :: rest) → Carried k (task :: rest) k' rest) := by
  obtain ⟨k₂, notify, last⟩ := bind_eq_ok.1 run
  cases last
  obtain ⟨-, env, cap⟩ := whole.books.recorded task List.mem_cons_self
  have ownerCap : (k.sys.threads task.thread.obj).env.ownerCap = task.process.cap := by rw [env]; rfl
  have logged := whole.log (.notified (k.sys.threads task.thread.obj).serial task.process.cap)
  obtain ⟨owner, found⟩ := logged.books.processFromCap List.mem_cons_self
  unfold exitNotify at notify
  rw [ownerCap, if_pos ⟨whole.scheduled.notify, owner⟩] at notify
  unfold procThreadExit at notify
  rw [found] at notify
  obtain ⟨holds, frame, pages⟩ := processFree_spec logged.books.estate notify
  -- The notifier has left the threads alone.
  have threads : k₂.sys.threads = k.sys.threads := by rw [(frame []).sys]; rfl
  have allocated : k₂.sys.allocated = k.sys.allocated := by rw [(frame []).sys]; rfl
  have current : k₂.sys.current = k.sys.current := by rw [(frame []).sys]; rfl
  have bared : ThreadInv (bare k₂.sys) := by
    rw [(frame []).sys]
    exact logged.threads
  have cap₂ : (k₂.sys.threads task.thread.obj).cap = task.thread.cap := by rw [threads]; exact cap
  have freed := threadFree_holds holds cap₂
  have preserved : Preserved rest { k with sys := k.sys.log _ } (threadFree k₂ task.thread.obj) :=
    ⟨(frame _).processes, (frame _).vspaces, (frame _).tables,
      fun t _ => congrArg (fun (r : Tid → Kthread) => (r t.thread.obj).env) threads,
      fun t _ => congrArg (fun (r : Tid → Kthread) => (r t.thread.obj).cap) threads,
      fun t _ => congrArg (fun (r : Tid → Kthread) => (r t.thread.obj).kstack) threads⟩
  have books : Books (threadFree k₂ task.thread.obj) rest [] [] :=
    ⟨by rw [preserved.objectsOf]; exact freed,
      fun t member => preserved.recorded member (logged.books.recorded t (List.mem_cons_of_mem _ member))⟩
  have apart : task.thread.obj ≠ idle ∧ ∀ t ∈ rest, t.thread.obj ≠ task.thread.obj := by
    have objects := whole.books.holds.apart
    simp only [objectsOf, Task.objects, List.nil_append, List.flatMap_cons, List.cons_append, List.nodup_cons,
      List.mem_cons, List.mem_append, not_or] at objects
    refine ⟨fun same => objects.1.1 same.symm, fun t member same => objects.2.1.2 ?_⟩
    exact List.mem_flatMap.2 ⟨t, member, by rw [← same]; exact List.mem_cons_self⟩
  refine ⟨⟨books, ⟨fun t => ?_, ?_, ?_⟩, ?_, ?_⟩, fun paged => ?_⟩
  · change Function.update k₂.sys.allocated task.thread.obj false t = true ↔ _
    rw [allocated]
    by_cases here : t = task.thread.obj
    · subst here
      rw [Function.update_self]
      refine ⟨nofun, ?_⟩
      rintro (isIdle | ⟨t, member, same⟩)
      · exact absurd isIdle apart.1
      · exact absurd same (apart.2 t member)
    · rw [Function.update_of_ne here, whole.scheduled.allocated]
      simp [Ne.symm here]
  · change k₂.sys.exitNotify = true
    rw [(frame []).sys]
    exact whole.scheduled.notify
  · change (k₂.sys.threads idle).env = _
    rw [threads]
    exact whole.scheduled.idleEnv
  · change ThreadInv (bare (Core.Thread.threadFree k₂.sys task.thread.obj))
    rw [← threadFree_bare]
    refine bared.threadFree ?_ ?_
    · change (k₂.sys.threads _).state = _
      rw [threads]
      exact dead
    · change _ ≠ k₂.sys.current
      rw [current]
      exact other
  · refine logged.mirrored.keep logged.scheduled logged.books books whole.threads.current_alloc (frame []).mirrors
      current ?_ fun t member here => ?_
    · change (k₂.sys.threads _).env = _
      rw [threads]
      rfl
    · have stays : t ∈ rest := by
        rcases List.mem_cons.1 member with rfl | stays
        · exact absurd here other
        · exact stays
      exact ⟨stays, preserved.vspaces _ (mem_objectsOf stays (by simp [Task.objects, Task.estate, Estate.objects]))⟩
  · have same : Preserved rest k (threadFree k₂ task.thread.obj) :=
      ⟨preserved.processes, preserved.vspaces, preserved.tables, preserved.env, preserved.cap, preserved.kstack⟩
    refine paged.reap same fun base housed stack => ?_
    have beside : Beside base k₂.heap := pages base ⟨housed.beside, housed.vspace⟩
    exact threadFree_beside beside fun p has => stack p (by rw [← threads]; exact has)

/-- **`finish_switch` in the context that is resumed.** -/
theorem finishSwitch_whole (whole : Whole k tasks) {prev : Tid} (alloc : k.sys.allocated prev = true)
    (other : prev ≠ k.sys.current) (run : finishSwitch k (some prev) = .ok k') :
    ∃ tasks', Whole k' tasks' ∧ tasks' ⊆ tasks ∧ (Paged k tasks → Carried k tasks k' tasks') := by
  have logged := whole.log (.finished (k.sys.threads prev).serial)
  have steady : Steady k.sys (k.sys.log (.finished (k.sys.threads prev).serial)) :=
    ⟨rfl, fun _ => rfl, fun _ => rfl, fun _ => rfl, rfl, rfl⟩
  unfold finishSwitch at run
  dsimp only at run
  split at run
  · rename_i dead
    have dead' : (k.sys.threads prev).state = .dead := dead
    have notIdle : prev ≠ idle := by
      rintro rfl
      have state : (k.sys.threads idle).state = .ready ∨ (k.sys.threads idle).state = .running := whole.threads.idle_state
      rw [dead'] at state
      rcases state with ready | running
      · cases ready
      · cases running
    obtain ⟨task, member, rfl⟩ := ((whole.scheduled.allocated prev).1 alloc).resolve_left notIdle
    obtain ⟨before, after, rfl⟩ := List.append_of_mem member
    have first : (before ++ task :: after).Perm (task :: (before ++ after)) := List.perm_middle
    obtain ⟨whole', carries⟩ := (logged.perm first).reap other dead run
    have fewer : before ++ after ⊆ before ++ task :: after := fun t member =>
      first.mem_iff.2 (List.mem_cons_of_mem _ member)
    refine ⟨before ++ after, whole', fewer, fun paged => ?_⟩
    exact (paged.steady steady).trans ((carries ((paged.steady steady).paged.perm first)).perm first.symm) fewer
  · cases run
    exact ⟨tasks, logged, List.Subset.refl _, fun paged => paged.steady steady⟩

/-- **`switch_away`** leaves the kernel whole, whichever thread it goes to. -/
theorem switchAway_whole (poised : Poised k tasks) (run : switchAway k = .ok k') :
    ∃ tasks', Whole k' tasks' ∧ tasks' ⊆ tasks ∧ (Paged k tasks → Carried k tasks k' tasks') := by
  obtain ⟨next, links, queues, alloc, rq, cases_⟩ := switchAway_eq poised.core
  rcases cases_ with ⟨same, eq⟩ | ⟨-, eq⟩ | ⟨other, eq⟩
  · rw [eq] at run
    cases run
    have steady : Steady k.sys (pickedState k.sys next links) :=
      ⟨rfl, fun t => (pickedThreads_same k.sys next t).2.2.1, fun t => (pickedThreads_same k.sys next t).2.1,
        fun t => pickedThreads_kstack k.sys next t, rfl, rfl⟩
    refine ⟨tasks, ⟨poised.books.steady steady, poised.scheduled.steady steady, ?_, poised.mirrored.steady steady rfl⟩,
      List.Subset.refl _, fun paged => paged.steady steady⟩
    exact poised.core.of_picked alloc rq rfl rfl (fun _ => rfl) (fun _ => rfl)
      (fun t => (pickedThreads_same k.sys next t).2.1) same.symm rfl rfl rfl
  · rw [eq] at run
    cases run
    exact ⟨tasks, entered_whole poised alloc rq, List.Subset.refl _, fun paged => paged.entered next links⟩
  · rw [eq] at run
    obtain ⟨tasks', whole', fewer, carries⟩ :=
      finishSwitch_whole (entered_whole poised alloc rq) poised.core.current_alloc other.symm run
    refine ⟨tasks', whole', fewer, fun paged => ?_⟩
    have carried := paged.entered next links
    exact carried.trans (carries carried.paged) fewer

theorem Paged.wake (paged : Paged k tasks) (cap : UInt64) : Carried k tasks (threadWake k cap) tasks := by
  unfold threadWake Core.Thread.threadWake
  split
  · exact paged.steady (schedWake_steady k.sys _).1
  · exact paged.refl

theorem threadWake_current (k : Kernel) (cap : UInt64) : (threadWake k cap).sys.current = k.sys.current := by
  unfold threadWake Core.Thread.threadWake
  split
  · exact (schedWake_steady k.sys _).2
  · rfl

/-- `thread_wake` of a thread. -/
theorem Whole.wake (whole : Whole k tasks) {cap : UInt64}
    (isThread : ∀ t, capResolve k.sys.caps cap capRCtl = some t → k.sys.allocated t = true) :
    Whole (threadWake k cap) tasks := by
  unfold threadWake Core.Thread.threadWake
  split
  · rename_i t found
    obtain ⟨steady, current⟩ := schedWake_steady k.sys t
    refine ⟨whole.books.steady steady, whole.scheduled.steady steady, ?_, whole.mirrored.steady steady current⟩
    change ThreadInv (bare (schedWake k.sys t))
    rw [← schedWake_bare]
    exact whole.threads.schedWake (isThread t found)
  · exact whole

end Switch

/-! ## A new thread -/

section Create

variable {k k' : Kernel} {tasks : List Task}

theorem capAlloc_boot (t : Obj) (rights : UInt64) : (capAlloc CapState.boot (some t) rights).2 ≠ capNull := by
  have head : (ensureFreeList (CapState.boot : CapState Obj)).freeHead = 1 := rfl
  have available : (ensureFreeList (CapState.boot : CapState Obj)).freeHead ≠ 0 := by rw [head]; decide
  rw [capAlloc_some, if_neg available]
  exact token_ne_null (by rw [capIndex_capMake]; exact available)

/-- A fresh thread beside the others keeps the invariant of the scheduler. -/
theorem threadInv_fresh {s s' : Sys} {t : Tid} {prio : Nat} (inv : ThreadInv s) (boot : s.caps = CapState.boot)
    (inRange : prio < schedPrioMax) (unused : s.allocated t = false) (blocked : (s'.threads t).state = .blocked)
    (hasPrio : (s'.threads t).prio = prio)
    (others : ∀ u, u ≠ t → (s'.threads u).state = (s.threads u).state ∧ (s'.threads u).prio = (s.threads u).prio)
    (links : s'.links = dlistInit s.links (.thread t)) (allocated : s'.allocated = Function.update s.allocated t true)
    (current : s'.current = s.current) (picks : s'.picks = s.picks) (fault : s'.fault = s.fault)
    (caps : s'.caps = CapState.boot) : ThreadInv s' := by
  have issued : (capAlloc s.caps (some t) (capRCtl ||| capRRead)).2 ≠ capNull := by
    rw [boot]
    exact capAlloc_boot t _
  have answered : ∀ u, some t = some u → s.allocated u = false := by
    rintro u ⟨⟩
    exact unused
  have created : ThreadInv (Core.Thread.threadCreate s ⟨prio, 0, 0, 0⟩ (some t) (some 0)).1 := inv.create inRange answered
  simp only [Core.Thread.threadCreate, issued, if_false] at created
  refine threadInv_congr created links allocated (fun u => ?_) (fun u => ?_) current picks fault caps
  · by_cases here : u = t
    · subst here
      rw [blocked]
      simp [schedEntityInit]
    · rw [(others u here).1]
      simp [schedEntityInit, here]
  · by_cases here : u = t
    · subst here
      rw [hasPrio]
      simp [schedEntityInit]
    · rw [(others u here).2]
      simp [schedEntityInit, here]

/-- A thread `t` has been created, and nothing else. -/
structure Created (k k' : Kernel) (thread : Named) (args : ThreadCreateArgs) : Prop where
  processes : k'.processes = k.processes
  vspaces : k'.vspaces = k.vspaces
  tables : k'.tables = k.tables
  mirrors : k'.mirrors = k.mirrors
  env : (k'.sys.threads thread.obj).env = ⟨thread.cap, args.ownerCap, args.filesCap, args.vspaceCap⟩
  cap : (k'.sys.threads thread.obj).cap = thread.cap
  others : ∀ t, t ≠ thread.obj → k'.sys.threads t = k.sys.threads t
  allocated : k'.sys.allocated = Function.update k.sys.allocated thread.obj true
  current : k'.sys.current = k.sys.current
  exitNotify : k'.sys.exitNotify = k.sys.exitNotify
  threads : ThreadInv (bare k'.sys)
  beside : k.heap.LowSupply → Beside k.heap k'.heap
  stack : k.heap.LowSupply → ∃ page, (k'.sys.threads thread.obj).kstack = some page ∧
    page ∈ k'.heap.pages ∧ page ∉ k.heap.pages

theorem threadCreate_spec {args : ThreadCreateArgs} {live : List (Live Obj)} {objs : List Obj} {cap : UInt64}
    (holds : Holds k.sys.caps k.heap live objs) (inv : ThreadInv (bare k.sys)) (prio : args.prio < schedPrioMax)
    (known : ∀ t, k.sys.allocated t = true → t ∈ objs) (run : threadCreate k args = (k', cap)) :
    (cap = capNull → Holds k'.sys.caps k'.heap live objs ∧ (∀ kept, Frame kept k k') ∧
      (k.heap.LowSupply → Beside k.heap k'.heap)) ∧
      (cap ≠ capNull → ∃ t, Created k k' ⟨cap, t⟩ args ∧
        Holds k'.sys.caps k'.heap (⟨cap, t, capRCtl ||| capRRead⟩ :: live) (t :: objs)) := by
  unfold threadCreate at run
  split at run
  · rename_i h failed
    cases run
    rw [kmalloc_none failed]
    exact ⟨fun _ => ⟨holds, fun kept => Frame.refl kept k, Beside.refl⟩, fun issued => absurd rfl issued⟩
  · rename_i h t made
    have taken := (holds.kmalloc made).1
    have pages := Loader.kmalloc_samePages made
    have unused : k.sys.allocated t = false := by
      rw [← Bool.not_eq_true]
      exact fun alloc => (List.nodup_cons.1 taken.apart).1 (known t alloc)
    split at run
    · rename_i h' failed
      cases run
      rw [Loader.kzallocPages_none failed]
      exact ⟨fun _ => ⟨taken.kfree, fun kept => Frame.of_eq rfl rfl rfl rfl rfl,
        (pages.trans (Loader.kfree_samePages h t)).beside⟩, fun issued => absurd rfl issued⟩
    · rename_i h' stack zeroed
      have taken' := taken.kzallocPages zeroed
      have handed : k.heap.LowSupply → Beside k.heap h' ∧ stack ∈ h'.pages ∧ stack ∉ k.heap.pages := fun supply => by
        have began := pages.beside supply
        obtain ⟨beside, inUse, new⟩ := Loader.kzallocPages_beside began.supply zeroed
        exact ⟨began.trans beside, inUse, fun old => new (began.pages old)⟩
      simp only [Core.Thread.threadCreate] at run
      obtain ⟨failed, full⟩ | ⟨issued, named⟩ := taken'.alloc t (capRCtl ||| capRRead)
      · simp only [failed, if_true] at run
        cases run
        have freed := full.heap (show (h'.kfreePages stack).objectSupply = h'.objectSupply from rfl) rfl
        refine ⟨fun _ => ⟨freed.kfree, fun kept => Frame.of_eq rfl rfl rfl rfl rfl, fun supply => ?_⟩,
          fun issued => absurd rfl issued⟩
        obtain ⟨beside, -, new⟩ := handed supply
        have given := beside.kfreePages new
        exact given.trans ((Loader.kfree_samePages _ t).beside given.supply)
      · simp only [issued, if_false] at run
        cases run
        refine ⟨fun failed => absurd failed issued, fun _ => ⟨t, ⟨rfl, rfl, rfl, rfl, ?_, ?_, ?_, rfl, rfl, rfl, ?_,
          fun supply => (handed supply).1, fun supply => ⟨stack, ?_, (handed supply).2⟩⟩, named⟩⟩
        · simp [schedEntityInit]
        · simp [schedEntityInit]
        · intro u other
          simp [schedEntityInit, other]
        · exact threadInv_fresh inv rfl prio unused (by simp [schedEntityInit, bare]) (by simp [schedEntityInit, bare])
            (fun u other => by simp [schedEntityInit, bare, other]) rfl rfl rfl rfl rfl rfl
        · simp [schedEntityInit]

end Create

/-! ## Starting a process -/

section Start

variable {k k' k₂ : Kernel} {tasks : List Task}

/-- A call that leaves the tasks alone and has given back what it took. -/
structure Untouched (tasks : List Task) (k k' : Kernel) : Prop where
  frame : Frame (objectsOf k tasks) k k'
  holds : Holds k'.sys.caps k'.heap (tasks.flatMap Task.live) (objectsOf k tasks)
  pages : k.heap.LowSupply → Beside k.heap k'.heap

theorem Whole.untouched (whole : Whole k tasks) (untouched : Untouched tasks k k') : Whole k' tasks := by
  obtain ⟨frame, holds, -⟩ := untouched
  have books : Books k' tasks [] [] := whole.books.carry frame.preserved holds
  have sys := frame.sys
  refine ⟨books, ?_, ?_, ?_⟩
  · rw [sys]
    exact ⟨whole.scheduled.allocated, whole.scheduled.notify, whole.scheduled.idleEnv⟩
  · rw [sys]
    exact whole.threads
  · refine whole.mirrored.keep whole.scheduled whole.books books whole.threads.current_alloc frame.mirrors
      (by rw [sys]) (by rw [sys]) fun task member _ => ⟨member, ?_⟩
    exact frame.vspaces _ (mem_objectsOf member (by simp [Task.objects, Task.estate, Estate.objects]))

/-- The tasks are left alone while a process and its thread are made beside them. -/
theorem Created.preserved {k₃ : Kernel} {thread : Named} {args : ThreadCreateArgs} {p : Obj} {f : Process → Process}
    (frame : Frame (objectsOf k tasks) k k₂) (made : Created k₂ k₃ thread args) (absent : p ∉ objectsOf k tasks)
    (others : ∀ t ∈ tasks, t.thread.obj ≠ thread.obj) : Preserved tasks k (k₃.setProcess p f) := by
  have threads : ∀ t ∈ tasks, k₃.sys.threads t.thread.obj = k.sys.threads t.thread.obj := fun t member => by
    rw [made.others _ (others t member), frame.sys]
  refine ⟨fun o member => ?_, fun o member => ?_, fun o member => ?_, fun t member => ?_, fun t member => ?_,
    fun t member => ?_⟩
  · refine (Function.update_of_ne (ne_of_mem_of_not_mem member absent) _ _).trans ?_
    rw [made.processes]
    exact frame.processes o member
  · refine (congrFun made.vspaces o).trans ?_
    exact frame.vspaces o member
  · refine (congrFun made.tables o).trans ?_
    exact frame.tables o member
  · exact congrArg Kthread.env (threads t member)
  · exact congrArg Kthread.cap (threads t member)
  · exact congrArg Kthread.kstack (threads t member)

/-- A process and its thread join the tasks with pages of their own. -/
theorem Paged.start {k₃ : Kernel} {thread process vspace files : Named} {args : ThreadCreateArgs}
    {f : Process → Process} (paged : Paged k tasks)
    (housed : Estate.Housed k.heap k₂ ⟨process, some vspace, some files⟩) (made : Created k₂ k₃ thread args)
    (preserved : Preserved tasks k (k₃.setProcess process.obj f)) (new : k.sys.allocated thread.obj = false) :
    Carried k tasks (k₃.setProcess process.obj f) (⟨thread, process, vspace, files⟩ :: tasks) := by
  have created := made.beside housed.beside.supply
  have beside : Beside k.heap (k₃.setProcess process.obj f).heap := housed.beside.trans created
  obtain ⟨paged', kept, -⟩ := paged.beside preserved beside
  obtain ⟨stack, has, inUse, fresh⟩ := made.stack housed.beside.supply
  have apart := (housed.vspace vspace rfl).beside created
  rw [← made.vspaces] at apart
  -- its pages are in use, and were not before
  have own : ∀ p, Task.Uses (k₃.setProcess process.obj f) ⟨thread, process, vspace, files⟩ p →
      p ∈ k₃.heap.pages ∧ p ∉ k.heap.pages := by
    rintro p (uses | isStack)
    · exact apart.used p uses
    · have same : stack = p := Option.some.inj (has.symm.trans isStack)
      rw [← same]
      exact ⟨inUse, fun old => fresh (housed.beside.pages old)⟩
  have old : ∀ t ∈ tasks, ∀ p, t.Uses (k₃.setProcess process.obj f) p → p ∈ k.heap.pages := fun t member p uses =>
    paged.used t member p ((preserved.uses member p).1 uses)
  refine ⟨⟨beside.supply, fun t member => ?_, fun t member p uses => ?_, fun t member p isStack => ?_,
      List.pairwise_cons.2 ⟨?_, paged'.apart⟩⟩,
    fun t member _ => kept t member member, fun t member => ?_⟩
  · rcases List.mem_cons.1 member with rfl | earlier
    · exact apart.sound
    · exact paged'.sound t earlier
  · rcases List.mem_cons.1 member with rfl | earlier
    · exact (own p uses).1
    · exact paged'.used t earlier p uses
  · rcases List.mem_cons.1 member with rfl | earlier
    · have same : stack = p := Option.some.inj (has.symm.trans isStack)
      intro uses
      change (k₃.vspaces vspace.obj).Uses p at uses
      rw [made.vspaces, ← same] at uses
      exact fresh ((housed.vspace vspace rfl).used stack uses).1
    · exact paged'.stack t earlier p isStack
  · exact fun t member p uses uses' => (own p uses).2 (old t member p uses')
  · rcases List.mem_cons.1 member with rfl | earlier
    · exact .inr new
    · exact .inl earlier

/-- A process that is whole and its new thread join the tasks. -/
theorem Whole.start {k₃ : Kernel} {thread process vspace files : Named} {prio : Nat} {f : Process → Process}
    (whole : Whole k tasks) (frame : Frame (objectsOf k tasks) k k₂)
    (made : Created k₂ k₃ thread ⟨prio, vspace.cap, files.cap, process.cap⟩)
    (built : Built (k₃.setProcess process.obj f) ⟨process, some vspace, some files⟩
      (⟨thread.cap, thread.obj, capRCtl ||| capRRead⟩ :: tasks.flatMap Task.live)
      (thread.obj :: objectsOf k tasks)) :
    Whole (k₃.setProcess process.obj f) (⟨thread, process, vspace, files⟩ :: tasks) ∧
      Preserved tasks k (k₃.setProcess process.obj f) ∧ k.sys.allocated thread.obj = false := by
  have absent : process.obj ∉ objectsOf k tasks := fun member =>
    built.process_absent (List.mem_cons_of_mem _ member)
  have fresh : thread.obj ∉ objectsOf k tasks := by
    have apart := (List.nodup_append.1 built.holds.apart).2.1
    exact (List.nodup_cons.1 apart).1
  have others : ∀ t ∈ tasks, t.thread.obj ≠ thread.obj := fun t member same =>
    fresh (same ▸ mem_objectsOf member List.mem_cons_self)
  have threads : ∀ t, t ≠ thread.obj → k₃.sys.threads t = k.sys.threads t := fun t other => by
    rw [made.others t other, frame.sys]
  have preserved : Preserved tasks k (k₃.setProcess process.obj f) := made.preserved frame absent others
  have books : Books (k₃.setProcess process.obj f) (⟨thread, process, vspace, files⟩ :: tasks) [] [] := by
    refine ⟨(built.holds.permLive ?_).perm ?_, fun t member => ?_⟩
    · exact List.perm_middle
    · refine List.perm_iff_count.2 fun o => ?_
      have rest := preserved.objectsOf
      simp only [objectsOf, List.cons.injEq, true_and] at rest
      simp only [objectsOf, Task.objects, Task.estate, List.nil_append, List.flatMap_cons, List.count_append,
        List.count_cons, rest]
      omega
    · rcases List.mem_cons.1 member with rfl | old
      · exact ⟨built.recorded, made.env, made.cap⟩
      · exact preserved.recorded old (whole.books.recorded t old)
  have notIdle : idle ≠ thread.obj := fun same => fresh (same ▸ List.mem_cons_self)
  have current : k.sys.current ≠ thread.obj := by
    rintro same
    have alloc := whole.threads.current_alloc
    rcases (whole.scheduled.allocated _).1 alloc with isIdle | ⟨task, member, here⟩
    · exact notIdle (isIdle.symm.trans same)
    · exact others task member (here.trans same)
  refine ⟨⟨books, ⟨fun t => ?_, ?_, ?_⟩, made.threads, ?_⟩, preserved, ?_⟩
  · change k₃.sys.allocated t = true ↔ _
    rw [made.allocated, frame.sys]
    by_cases here : t = thread.obj
    · subst here
      simp
    · rw [Function.update_of_ne here]
      simp [whole.scheduled.allocated, Ne.symm here]
  · refine made.exitNotify.trans ?_
    rw [frame.sys]
    exact whole.scheduled.notify
  · exact (congrArg Kthread.env (threads idle notIdle)).trans whole.scheduled.idleEnv
  · refine whole.mirrored.keep whole.scheduled whole.books books whole.threads.current_alloc
      (made.mirrors.trans frame.mirrors) ?_ (congrArg Kthread.env (threads _ current)) fun task member _ =>
        ⟨List.mem_cons_of_mem _ member, ?_⟩
    · refine made.current.trans ?_
      rw [frame.sys]
    · exact preserved.vspaces _ (mem_objectsOf member (by simp [Task.objects, Task.estate, Estate.objects]))
  · rw [← Bool.not_eq_true, whole.scheduled.allocated]
    rintro (isIdle | ⟨task, member, here⟩)
    · exact notIdle isIdle.symm
    · exact others task member here

theorem processStartThread_spec {process vspace files : Named} {ret : Except Errno Unit} (whole : Whole k tasks)
    (frame : Frame (objectsOf k tasks) k k₂)
    (built : Built k₂ ⟨process, some vspace, some files⟩ (tasks.flatMap Task.live) (objectsOf k tasks))
    (run : processStartThread k₂ process.obj = (k', ret)) :
    (∀ e, ret = .error e → Frame (objectsOf k tasks) k k' ∧
      Built k' ⟨process, some vspace, some files⟩ (tasks.flatMap Task.live) (objectsOf k tasks) ∧
      ∀ base, Estate.Housed base k₂ ⟨process, some vspace, some files⟩ →
        Estate.Housed base k' ⟨process, some vspace, some files⟩) ∧
      (ret = .ok () → ∃ thread, Whole k' (⟨thread, process, vspace, files⟩ :: tasks) ∧
        ((k'.processes process.obj).thread = thread.cap ∧ k'.sys.current = k.sys.current) ∧
        (Estate.Housed k.heap k₂ ⟨process, some vspace, some files⟩ → Paged k tasks →
          Carried k tasks k' (⟨thread, process, vspace, files⟩ :: tasks))) := by
  have inv : ThreadInv (bare k₂.sys) := by
    rw [frame.sys]
    exact whole.threads
  have known : ∀ t, k₂.sys.allocated t = true →
      t ∈ Estate.objects k₂ ⟨process, some vspace, some files⟩ ++ objectsOf k tasks := by
    intro t alloc
    rw [frame.sys] at alloc
    refine List.mem_append_right _ ?_
    rcases (whole.scheduled.allocated t).1 alloc with rfl | ⟨task, member, rfl⟩
    · exact List.mem_cons_self
    · exact mem_objectsOf member List.mem_cons_self
  have absent := built.process_absent
  have inRange : schedPrioDefault < schedPrioMax := by decide
  obtain ⟨k₃, cap, create⟩ : ∃ k₃ cap, threadCreate k₂ ⟨schedPrioDefault, (k₂.processes process.obj).vspace,
    (k₂.processes process.obj).files, (k₂.processes process.obj).self⟩ = (k₃, cap) := ⟨_, _, rfl⟩
  simp only [processStartThread, create] at run
  obtain ⟨failed, created⟩ := threadCreate_spec built.holds inv inRange known create
  by_cases null : cap = capNull
  · rw [if_pos null] at run
    cases run
    obtain ⟨holds, frame₃, beside₃⟩ := failed null
    refine ⟨fun e _ => ⟨(frame.trans (frame₃ _)).trans (Frame.setProcess absent _), ?_, fun base housed => ?_⟩, nofun⟩
    case refine_2 =>
      refine housed.step (beside₃ housed.beside.supply) fun v has => ⟨has, ?_⟩
      exact (frame₃ [v.obj]).vspaces _ List.mem_cons_self
    have carried : Built k₃ ⟨process, some vspace, some files⟩ (tasks.flatMap Task.live) (objectsOf k tasks) :=
      built.carry ((frame₃ [process.obj]).processes _ List.mem_cons_self)
        (fun v _ => (frame₃ [v.obj]).vspaces _ List.mem_cons_self)
        (fun f _ => (frame₃ [f.obj]).tables _ List.mem_cons_self) holds
    exact carried.setProcess (fun _ => rfl) (fun _ => rfl) fun _ => rfl
  · rw [if_neg null] at run
    cases run
    obtain ⟨t, made, holds⟩ := created null
    have carried : Built k₃ ⟨process, some vspace, some files⟩
        (⟨cap, t, capRCtl ||| capRRead⟩ :: tasks.flatMap Task.live) (t :: objectsOf k tasks) :=
      built.carry (by rw [made.processes]) (fun v _ => by rw [made.vspaces]) (fun f _ => by rw [made.tables])
        ((holds.permLive List.perm_middle.symm).perm List.perm_middle.symm)
    have told := carried.setProcess (f := fun proc => { proc with thread := cap }) (fun _ => rfl) (fun _ => rfl)
      fun _ => rfl
    obtain ⟨-, self, hasVspace, hasFiles, -⟩ := built
    dsimp only [Option.elim] at self hasVspace hasFiles
    rw [self, hasVspace, hasFiles] at made
    obtain ⟨started, preserved, new⟩ := whole.start frame made told
    have resolved : capResolve k₃.sys.caps cap capRCtl = some t :=
      holds.resolves List.mem_cons_self threadControls
    refine ⟨nofun, fun _ => ⟨⟨cap, t⟩, started.wake fun u found => ?_, ⟨?_, ?_⟩, fun housed paged => ?_⟩⟩
    · rw [show u = t from Option.some.inj (found.symm.trans resolved)]
      exact (congrFun made.allocated t).trans (Function.update_self _ _ _)
    · change (Function.update k₃.processes process.obj { k₃.processes process.obj with thread := cap }
        process.obj).thread = cap
      rw [Function.update_self]
    · refine (threadWake_current _ cap).trans (made.current.trans ?_)
      rw [frame.sys]
    · have carried := paged.start housed made preserved new
      exact carried.trans (carried.paged.wake cap) (List.Subset.refl _)

/-- The way a failed start ends: what was built is given back. -/
theorem Built.discard {e : Estate} (frame : Frame (objectsOf k tasks) k k₂)
    (built : Built k₂ e (tasks.flatMap Task.live) (objectsOf k tasks))
    (housed : k.heap.LowSupply → e.Housed k.heap k₂) (run : processFree k₂ e.process.obj = .ok k') :
    Untouched tasks k k' := by
  obtain ⟨holds, frame', pages⟩ := processFree_spec built run
  exact ⟨frame.trans (frame' _), holds, fun supply => pages _ (housed supply)⟩

/-- **A spawn that fails leaves no trace**; one that succeeds adds a task. -/
theorem procSpawn_spec {program : Program} {ret : Except Errno Unit} (whole : Whole k tasks)
    (run : procSpawn program k = .ok (k', ret)) :
    (∀ e, ret = .error e → Untouched tasks k k') ∧
      (ret = .ok () → ∃ task, Whole k' (task :: tasks) ∧ (Paged k tasks → Carried k tasks k' (task :: tasks))) := by
  unfold procSpawn at run
  obtain ⟨k₁, made, alloc⟩ : ∃ k₁ made, processAlloc k = (k₁, made) := ⟨_, _, rfl⟩
  have holds : Holds k.sys.caps k.heap (tasks.flatMap Task.live) (objectsOf k tasks) := whole.books.holds
  obtain ⟨frame₁, pages₁, full, built⟩ := processAlloc_spec holds alloc
  cases made with
  | none =>
      simp only [alloc] at run
      cases run
      exact ⟨fun e _ => ⟨frame₁, full rfl, pages₁.beside⟩, nofun⟩
  | some p =>
      simp only [alloc] at run
      obtain ⟨self, built₁⟩ := built p rfl
      obtain ⟨⟨k₂, result⟩, setup, rest⟩ := bind_eq_ok.1 run
      obtain ⟨frame₂, vspace, files, built₂, housed₂, complete⟩ := procSetupProcess_spec built₁ setup
      have frame := frame₁.trans frame₂
      have housed : k.heap.LowSupply → Estate.Housed k.heap k₂ ⟨⟨self, p⟩, vspace, files⟩ := fun supply =>
        (housed₂ (pages₁.beside supply).supply).from (pages₁.beside supply)
      cases result with
      | error e =>
          obtain ⟨k₃, free, last⟩ := bind_eq_ok.1 rest
          cases last
          exact ⟨fun e _ => built₂.discard frame housed (mapError_eq_ok free), nofun⟩
      | ok _ =>
          obtain ⟨hasVspace, hasFiles⟩ := complete rfl
          obtain ⟨vspace, rfl⟩ := Option.ne_none_iff_exists'.1 hasVspace
          obtain ⟨files, rfl⟩ := Option.ne_none_iff_exists'.1 hasFiles
          obtain ⟨k₃, started, start⟩ : ∃ k₃ started, processStartThread k₂ p = (k₃, started) := ⟨_, _, rfl⟩
          obtain ⟨failed, added⟩ := processStartThread_spec whole frame built₂ start
          dsimp only at rest
          rw [start] at rest
          cases started with
          | error e =>
              obtain ⟨k₄, free, last⟩ := bind_eq_ok.1 rest
              cases last
              obtain ⟨frame₃, built₃, housed₃⟩ := failed e rfl
              refine ⟨fun e _ => built₃.discard frame₃ (fun supply => ?_) (mapError_eq_ok free), nofun⟩
              exact housed₃ _ (housed supply)
          | ok _ =>
              cases rest
              obtain ⟨thread, whole', -, carried⟩ := added rfl
              exact ⟨nofun, fun _ => ⟨_, whole', fun paged => carried (housed paged.supply) paged⟩⟩

/-! ## Replacing a thread -/

/-- The current thread is marked dead, and its replacement is ready. -/
theorem Whole.replaced (whole : Whole k tasks) (other : k.sys.current ≠ idle) {replacement : UInt64}
    (isThread : ∀ t, capResolve k.sys.caps replacement capRCtl = some t → k.sys.allocated t = true) :
    Poised { k with
      sys := schedMarkDead (enqueueReplacement k.sys replacement) (enqueueReplacement k.sys replacement).current }
      tasks ∧ Steady k.sys
        (schedMarkDead (enqueueReplacement k.sys replacement) (enqueueReplacement k.sys replacement).current) := by
  have enqueued : (Steady k.sys (enqueueReplacement k.sys replacement) ∧
      (enqueueReplacement k.sys replacement).current = k.sys.current) ∧
        CoreInv (bare (enqueueReplacement k.sys replacement)) := by
    unfold enqueueReplacement
    split
    · split
      · rename_i rep found
        refine ⟨schedEnqueueReady_steady k.sys rep, ?_⟩
        rw [← schedEnqueueReady_bare]
        exact whole.threads.enqueueReady (isThread rep found)
      · exact ⟨⟨Steady.refl _, rfl⟩, whole.threads.toCoreInv⟩
    · exact ⟨⟨Steady.refl _, rfl⟩, whole.threads.toCoreInv⟩
  obtain ⟨⟨steady, current⟩, core⟩ := enqueued
  obtain ⟨steady', current'⟩ := schedMarkDead_steady (enqueueReplacement k.sys replacement)
    (enqueueReplacement k.sys replacement).current
  have both := steady.trans steady'
  refine ⟨⟨whole.books.steady both, whole.scheduled.steady both, ?_,
    whole.mirrored.steady both (current'.trans current)⟩, both⟩
  change CoreInv (bare (schedMarkDead _ _))
  rw [← schedMarkDead_bare]
  exact core.markDead (by rw [show (bare _).current = _ from current]; exact other)

theorem threadReplaceCurrent_whole (whole : Whole k tasks) (other : k.sys.current ≠ idle) {replacement : UInt64}
    (isThread : ∀ t, capResolve k.sys.caps replacement capRCtl = some t → k.sys.allocated t = true)
    (run : threadReplaceCurrent k replacement = .ok k') :
    ∃ tasks', Whole k' tasks' ∧ tasks' ⊆ tasks ∧ (Paged k tasks → Carried k tasks k' tasks') := by
  obtain ⟨poised, steady⟩ := whole.replaced other isThread
  obtain ⟨tasks', whole', fewer, carries⟩ := switchAway_whole poised run
  refine ⟨tasks', whole', fewer, fun paged => ?_⟩
  have marked := paged.steady steady
  exact marked.trans (carries marked.paged) fewer

/-- **An execve that fails leaves no trace**; one that succeeds goes to another thread. -/
theorem procExecve_spec {program : Program} {ret : Option Errno} (whole : Whole k tasks)
    (other : k.sys.current ≠ idle) (run : procExecve program k = .ok (k', ret)) :
    (∀ e, ret = some e → Untouched tasks k k') ∧
      (ret = none → ∃ tasks', Whole k' tasks' ∧ (Paged k tasks → Carried k tasks k' tasks')) := by
  unfold procExecve at run
  obtain ⟨k₁, made, alloc⟩ : ∃ k₁ made, processAlloc k = (k₁, made) := ⟨_, _, rfl⟩
  have holds : Holds k.sys.caps k.heap (tasks.flatMap Task.live) (objectsOf k tasks) := whole.books.holds
  obtain ⟨frame₁, pages₁, full, built⟩ := processAlloc_spec holds alloc
  cases made with
  | none =>
      simp only [alloc] at run
      cases run
      exact ⟨fun e _ => ⟨frame₁, full rfl, pages₁.beside⟩, nofun⟩
  | some p =>
      simp only [alloc] at run
      obtain ⟨self, built₁⟩ := built p rfl
      obtain ⟨⟨k₂, result⟩, setup, rest⟩ := bind_eq_ok.1 run
      obtain ⟨frame₂, vspace, files, built₂, housed₂, complete⟩ := procSetupProcess_spec built₁ setup
      have frame := frame₁.trans frame₂
      have housed : k.heap.LowSupply → Estate.Housed k.heap k₂ ⟨⟨self, p⟩, vspace, files⟩ := fun supply =>
        (housed₂ (pages₁.beside supply).supply).from (pages₁.beside supply)
      cases result with
      | error e =>
          obtain ⟨k₃, free, last⟩ := bind_eq_ok.1 rest
          cases last
          exact ⟨fun e _ => built₂.discard frame housed (mapError_eq_ok free), nofun⟩
      | ok _ =>
          obtain ⟨hasVspace, hasFiles⟩ := complete rfl
          obtain ⟨vspace, rfl⟩ := Option.ne_none_iff_exists'.1 hasVspace
          obtain ⟨files, rfl⟩ := Option.ne_none_iff_exists'.1 hasFiles
          dsimp only at rest
          have numbered := built₂.setProcess (f := fun proc =>
            { proc with pid := k.currentProcess.elim proc.pid fun o => (k₂.processes o).pid }) (fun _ => rfl)
            (fun _ => rfl) fun _ => rfl
          have frame' := frame.trans (Frame.setProcess (k := k₂) built₂.process_absent fun proc =>
            { proc with pid := k.currentProcess.elim proc.pid fun o => (k₂.processes o).pid })
          have numberedHoused : k.heap.LowSupply → Estate.Housed k.heap (k₂.setProcess p fun proc =>
              { proc with pid := k.currentProcess.elim proc.pid fun o => (k₂.processes o).pid })
              ⟨⟨self, p⟩, some vspace, some files⟩ := fun supply => ⟨(housed supply).beside, (housed supply).vspace⟩
          obtain ⟨k₃, started, start⟩ : ∃ k₃ started, processStartThread (k₂.setProcess p fun proc =>
            { proc with pid := k.currentProcess.elim proc.pid fun o => (k₂.processes o).pid }) p = (k₃, started) :=
            ⟨_, _, rfl⟩
          obtain ⟨failed, added⟩ := processStartThread_spec whole frame' numbered start
          rw [start] at rest
          cases started with
          | error e =>
              obtain ⟨k₄, free, last⟩ := bind_eq_ok.1 rest
              cases last
              obtain ⟨frame₃, built₃, housed₃⟩ := failed e rfl
              refine ⟨fun e _ => built₃.discard frame₃ (fun supply => ?_) (mapError_eq_ok free), nofun⟩
              exact housed₃ _ (numberedHoused supply)
          | ok _ =>
              obtain ⟨k₄, replace, last⟩ := bind_eq_ok.1 rest
              cases last
              obtain ⟨thread, whole', ⟨names, current⟩, carried⟩ := added rfl
              have other' : k₃.sys.current ≠ idle := by
                rw [current]
                exact other
              have live : (⟨thread.cap, thread.obj, capRCtl ||| capRRead⟩ : Live Obj) ∈
                  (⟨thread, ⟨self, p⟩, vspace, files⟩ :: tasks).flatMap Task.live :=
                List.mem_flatMap.2 ⟨_, List.mem_cons_self, List.mem_cons_self⟩
              have resolved : capResolve k₃.sys.caps thread.cap capRCtl = some thread.obj :=
                whole'.books.holds.resolves live threadControls
              rw [names] at replace
              have isThread : ∀ t, capResolve k₃.sys.caps thread.cap capRCtl = some t → k₃.sys.allocated t = true := by
                intro t found
                rw [show t = thread.obj from Option.some.inj (found.symm.trans resolved)]
                exact (whole'.scheduled.allocated _).2 (Or.inr ⟨_, List.mem_cons_self, rfl⟩)
              obtain ⟨tasks', last, fewer, carries⟩ :=
                threadReplaceCurrent_whole whole' other' isThread (mapError_eq_ok replace)
              refine ⟨nofun, fun _ => ⟨tasks', last, fun paged => ?_⟩⟩
              have joined := carried (numberedHoused paged.supply) paged
              exact joined.trans (carries joined.paged) fewer

end Start

/-! ## Runs -/

/-- A call, and what the allocators answer in it. -/
inductive KernelOp where
  | spawn (program : Program) (pages : List Nat) (objects : List Obj)
  | execve (program : Program) (pages : List Nat) (objects : List Obj)
  | exit
  | schedule
  | scheduleIfNeeded
  /-- `thread_block_current(); schedule();` -/
  | block
  | wake (cap : UInt64)
  | tick

structure KernelRun where
  kernel : Kernel
  /-- A call has not returned: it hangs or has faulted. -/
  stopped : Bool

def Kernel.supplied (k : Kernel) (pages : List Nat) (objects : List Obj) : Kernel :=
  { k with heap := k.heap.supplied pages objects }

def perform (k : Kernel) : KernelOp → Except Stop Kernel
  | .spawn program pages objects => do
      let (k, _) ← procSpawn program (k.supplied pages objects)
      .ok k
  | .execve program pages objects => do
      let (k, _) ← procExecve program (k.supplied pages objects)
      .ok k
  | .exit => (threadExitCurrent k).mapError .fault
  | .schedule => (schedule k).mapError .fault
  | .scheduleIfNeeded => (scheduleIfNeeded k).mapError .fault
  | .block => (schedule (threadBlockCurrent k)).mapError .fault
  | .wake cap => .ok (threadWake k cap)
  | .tick => .ok (threadTick k)

/-- The allocators answer with what is not in use, only threads are woken, and the idle
thread neither blocks nor exits nor makes system calls. -/
def kernelEnabled (k : Kernel) : KernelOp → Prop
  | .spawn _ pages objects => k.heap.Answers pages objects
  | .execve _ pages objects => k.sys.current ≠ idle ∧ k.heap.Answers pages objects
  | .exit | .block => k.sys.current ≠ idle
  | .wake cap => ∀ t, capResolve k.sys.caps cap capRCtl = some t → k.sys.allocated t = true
  | .schedule | .scheduleIfNeeded | .tick => True

instance decidableKernelEnabled (k : Kernel) (op : KernelOp) : Decidable (kernelEnabled k op) :=
  match op with
  | .spawn _ pages objects => inferInstanceAs (Decidable (k.heap.Answers pages objects))
  | .execve _ pages objects => inferInstanceAs (Decidable (k.sys.current ≠ idle ∧ k.heap.Answers pages objects))
  | .exit | .block => inferInstanceAs (Decidable (k.sys.current ≠ idle))
  | .wake cap => decidableOfSome (capResolve k.sys.caps cap capRCtl) fun t => k.sys.allocated t = true
  | .schedule | .scheduleIfNeeded | .tick => isTrue trivial

def kernelMachine : Machine KernelRun KernelOp where
  enabled r op := r.stopped = false ∧ kernelEnabled r.kernel op
  step r op :=
    match perform r.kernel op with
    | .ok k => ⟨k, false⟩
    | .error _ => ⟨r.kernel, true⟩

instance decidableKernelMachine (r : KernelRun) (op : KernelOp) : Decidable (kernelMachine.enabled r op) :=
  inferInstanceAs (Decidable (_ ∧ _))

/-- `start_kernel` after `mmu_clear_ttbr0`: the static thread runs, the subscribers have
registered. -/
structure Boot (k : Kernel) : Prop where
  sys : ∃ links, k.sys = Sys.boot links true
  mirrors : k.mirrors = ((capNull, none), none, none, none)
  static : idle ∈ k.heap.objects
  supply : k.heap.objectSupply = []

section Run

variable {k k' : Kernel} {tasks : List Task}

theorem Holds.supplied {table : CapState Obj} {h : Heap} {live : List (Live Obj)} {objs : List Obj}
    (holds : Holds table h live objs) {pages : List Nat} {objects : List Obj} (answers : h.Answers pages objects) :
    Holds table (h.supplied pages objects) live objs :=
  ⟨holds.table, holds.apart, holds.inUse, answers.2.2.1, answers.2.2.2⟩

theorem Whole.supplied (whole : Whole k tasks) {pages : List Nat} {objects : List Obj}
    (answers : k.heap.Answers pages objects) : Whole (k.supplied pages objects) tasks :=
  ⟨⟨whole.books.holds.supplied answers, fun t member => by
      obtain ⟨⟨self, vspace, files, vspaceSelf⟩, env, cap⟩ := whole.books.recorded t member
      exact ⟨⟨self, vspace, files, vspaceSelf⟩, env, cap⟩⟩,
    whole.scheduled, whole.threads, whole.mirrored⟩

/-- The pages that a call may be handed lie below 4 GiB. -/
def KernelOp.Low : KernelOp → Prop
  | .spawn _ pages _ | .execve _ pages _ => ∀ p ∈ pages, p < 2 ^ 20
  | _ => True

instance decidableLow (op : KernelOp) : Decidable op.Low :=
  match op with
  | .spawn _ pages _ | .execve _ pages _ => inferInstanceAs (Decidable (∀ p ∈ pages, p < 2 ^ 20))
  | .exit | .schedule | .scheduleIfNeeded | .block | .wake _ | .tick => isTrue trivial

/-- The allocators are handed their answers. -/
theorem Paged.supplied (paged : Paged k tasks) {pages : List Nat} {objects : List Obj}
    (answers : k.heap.Answers pages objects) (low : ∀ p ∈ pages, p < 2 ^ 20) :
    Carried k tasks (k.supplied pages objects) tasks := by
  refine paged.carry ⟨fun _ _ => rfl, fun _ _ => rfl, fun _ _ => rfl, fun _ _ => rfl, fun _ _ => rfl, fun _ _ => rfl⟩
    ⟨low, answers.1, fun p supplied => (answers.2.1 p supplied).1⟩ fun t member p uses => ⟨paged.used t member p uses, rfl⟩

theorem Untouched.carried (untouched : Untouched tasks k k') (paged : Paged k tasks) : Carried k tasks k' tasks :=
  paged.beside untouched.frame.preserved (untouched.pages paged.supply)

/-- **Every call leaves the kernel whole**, and the pages of the processes that stay. -/
theorem perform_whole (whole : Whole k tasks) {op : KernelOp} (enabled : kernelEnabled k op)
    (run : perform k op = .ok k') :
    ∃ tasks', Whole k' tasks' ∧ (op.Low → Paged k tasks → Carried k tasks k' tasks') := by
  cases op with
  | spawn program pages objects =>
      obtain ⟨⟨k₁, ret⟩, spawn, last⟩ := bind_eq_ok.1 run
      cases last
      have supplied := whole.supplied enabled
      obtain ⟨failed, added⟩ := procSpawn_spec supplied spawn
      cases ret with
      | error e =>
          have untouched := failed e rfl
          refine ⟨tasks, supplied.untouched untouched, fun low paged => ?_⟩
          have handed := paged.supplied enabled low
          exact handed.trans (untouched.carried handed.paged) (List.Subset.refl _)
      | ok _ =>
          obtain ⟨task, whole', carries⟩ := added rfl
          refine ⟨_, whole', fun low paged => ?_⟩
          have handed := paged.supplied enabled low
          exact handed.before (carries handed.paged) rfl
  | execve program pages objects =>
      obtain ⟨⟨k₁, ret⟩, execve, last⟩ := bind_eq_ok.1 run
      cases last
      obtain ⟨other, answers⟩ := enabled
      have supplied := whole.supplied answers
      obtain ⟨failed, replaced⟩ := procExecve_spec supplied other execve
      cases ret with
      | some e =>
          have untouched := failed e rfl
          refine ⟨tasks, supplied.untouched untouched, fun low paged => ?_⟩
          have handed := paged.supplied answers low
          exact handed.trans (untouched.carried handed.paged) (List.Subset.refl _)
      | none =>
          obtain ⟨tasks', whole', carries⟩ := replaced rfl
          refine ⟨tasks', whole', fun low paged => ?_⟩
          have handed := paged.supplied answers low
          exact handed.before (carries handed.paged) rfl
  | exit =>
      have null : ∀ t, capResolve k.sys.caps capNull capRCtl = some t → k.sys.allocated t = true := by
        intro t found
        rw [whole.books.holds.table.resolve_not_live fun l member => whole.books.holds.token_ne_null member] at found
        cases found
      obtain ⟨tasks', whole', -, carries⟩ := threadReplaceCurrent_whole whole enabled null (mapError_eq_ok run)
      exact ⟨tasks', whole', fun _ => carries⟩
  | schedule =>
      obtain ⟨tasks', whole', -, carries⟩ := switchAway_whole whole.poised (mapError_eq_ok run)
      exact ⟨tasks', whole', fun _ => carries⟩
  | scheduleIfNeeded =>
      have returned := mapError_eq_ok run
      unfold scheduleIfNeeded at returned
      split at returned
      · obtain ⟨tasks', whole', -, carries⟩ := switchAway_whole whole.poised returned
        exact ⟨tasks', whole', fun _ => carries⟩
      · cases returned
        exact ⟨tasks, whole, fun _ => Paged.refl⟩
  | block =>
      have steady : Steady k.sys (Core.Thread.threadBlockCurrent k.sys) := Steady.modify k.sys.current rfl rfl rfl
      have poised : Poised (threadBlockCurrent k) tasks :=
        ⟨whole.books.steady steady, whole.scheduled.steady steady, CoreInv.blockCurrent whole.threads enabled,
          whole.mirrored.steady steady rfl⟩
      obtain ⟨tasks', whole', fewer, carries⟩ := switchAway_whole poised (mapError_eq_ok run)
      refine ⟨tasks', whole', fun _ paged => ?_⟩
      have blocked := paged.steady steady
      exact blocked.trans (carries blocked.paged) fewer
  | wake cap =>
      cases run
      exact ⟨tasks, whole.wake enabled, fun _ paged => paged.wake cap⟩
  | tick =>
      cases run
      obtain ⟨steady, current⟩ := schedTick_steady k.sys
      refine ⟨tasks, ⟨whole.books.steady steady, whole.scheduled.steady steady, ?_,
        whole.mirrored.steady steady current⟩, fun _ paged => paged.steady steady⟩
      change ThreadInv (bare (schedTick k.sys))
      rw [← schedTick_bare]
      exact whole.threads.tick

theorem boot_steady (links : Links Node) : Steady (Sys.reset links true) (Sys.boot links true) := by
  have entity : Steady (Sys.reset links true) (schedEntityInit
      { schedInit (Sys.reset links true) with current := idle, idleThread := some idle } idle schedPrioIdle) := by
    refine ⟨rfl, fun t => ?_, fun t => ?_, fun t => ?_, rfl, rfl⟩
    · by_cases here : t = idle
      · subst here
        simp [schedEntityInit, schedInit]
      · simp [schedEntityInit, schedInit, here]
    · by_cases here : t = idle
      · subst here
        simp [schedEntityInit, schedInit]
      · simp [schedEntityInit, schedInit, here]
    · by_cases here : t = idle
      · subst here
        simp [schedEntityInit, schedInit]
      · simp [schedEntityInit, schedInit, here]
  have boot : Sys.boot links true = schedEnqueueReady (schedEntityInit
      { schedInit (Sys.reset links true) with current := idle, idleThread := some idle } idle schedPrioIdle) idle := by
    rw [← schedSetIdle_eq]
    rfl
  rw [boot]
  exact entity.trans (schedEnqueueReady_steady _ idle).1

theorem Boot.whole (boot : Boot k) : Whole k [] := by
  obtain ⟨⟨links, sys⟩, mirrors, static, supply⟩ := boot
  have steady := boot_steady links
  have caps : k.sys.caps = CapState.boot := by
    rw [sys]
    exact steady.caps
  have threads : ThreadInv (bare k.sys) := by
    have same : bare k.sys = k.sys := by
      unfold bare
      rw [← caps]
    rw [same, sys]
    exact threadInv_boot links true
  have allocated : ∀ t, k.sys.allocated t = true ↔ t = idle := fun t => by
    rw [sys, steady.allocated]
    exact beq_iff_eq
  have idleEnv : (k.sys.threads idle).env = ⟨capNull, capNull, capNull, capNull⟩ := by
    rw [sys]
    exact steady.env idle
  have current : k.sys.current = idle := (allocated _).1 threads.current_alloc
  have books : Books k [] [] [] := by
    refine ⟨⟨?_, List.nodup_singleton idle, fun o member => ?_, ?_, ?_⟩, nofun⟩
    · rw [caps]
      exact capInv_boot
    · rw [List.mem_singleton.1 member]
      exact static
    · rw [supply]
      exact List.nodup_nil
    · rw [supply]
      exact nofun
  refine ⟨books, ⟨fun t => by simp [allocated], ?_, idleEnv⟩, threads, ?_⟩
  · rw [sys]
    exact steady.exitNotify
  · unfold Mirrored
    rw [current, idleEnv, books.published_null]
    exact mirrors

/-- **The kernel is whole in every state of a run.** -/
theorem kernelRun_whole {ops : List KernelOp} (boot : Boot k) (admitted : kernelMachine.Admits ⟨k, false⟩ ops) :
    ∃ tasks, Whole (kernelMachine.run ⟨k, false⟩ ops).kernel tasks := by
  refine kernelMachine.run_invariant (I := fun r => ∃ tasks, Whole r.kernel tasks) (fun r op whole enabled => ?_)
    ⟨[], boot.whole⟩ admitted
  obtain ⟨tasks, whole⟩ := whole
  simp only [kernelMachine]
  cases run : perform r.kernel op with
  | error e => exact ⟨tasks, whole⟩
  | ok k' =>
      obtain ⟨tasks', whole', -⟩ := perform_whole whole enabled.2 run
      exact ⟨tasks', whole'⟩

end Run

end Minus.Proc.Processes
