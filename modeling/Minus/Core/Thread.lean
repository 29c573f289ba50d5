/-
# Core.Thread — thread lifecycle and the context switch

`kernel/core/thread/thread.c`.  One operation of the machine below is one call
as another kernel component sees it: it runs until the CPU is back in some
thread outside `thread.c`.  After `arch_context_switch` that thread is the
resumed one, so what happens next is read from its saved context
(`Kthread.lr`): a thread that has run before continues inside its own
`switch_away` and finishes its predecessor, a fresh one leaves through
`ret_to_user`.

The memory allocator is the environment: `thread_create` takes the results of
`kzalloc` and `kzalloc_pages` as arguments of the operation.
-/
import Minus.Core.Sched

namespace Minus.Core.Thread

set_option autoImplicit false

open Minus.Theory Minus.Lib.Dlist Minus.Core.Cap

/-! ## thread.c -/

/-- `CAP_R_CTL`. -/
def capRCtl : UInt64 := (1 : UInt64) <<< 4

/-- `CAP_R_READ`. -/
def capRRead : UInt64 := (1 : UInt64) <<< 0

/-- The arguments of `thread_create` that the scheduler and the switch read. -/
structure ThreadCreateArgs where
  prio : Nat
  vspaceCap : UInt64
  filesCap : UInt64
  ownerCap : UInt64

def threadFree (s : Sys) (t : Tid) : Sys :=
  let k := s.threads t
  let s := { s with caps := if k.cap ≠ capNull then capFree s.caps k.cap else s.caps
                    allocated := Function.update s.allocated t false }
  s.log (.freed k.serial)

/-- `mem` and `stack` are what `kzalloc` and `kzalloc_pages` return. -/
def threadCreate (s : Sys) (args : ThreadCreateArgs) (mem stack : Option Nat) : Sys × UInt64 :=
  match mem, stack with
  | none, _ => (s, capNull)
  | some _, none => (s, capNull)
  | some t, some page =>
      let result := capAlloc s.caps (some t) (capRCtl ||| capRRead)
      if result.2 = capNull then ({ s with caps := result.1 }, capNull)
      else
        let s := { s with
          caps := result.1
          allocated := Function.update s.allocated t true
          threads := Function.update s.threads t
            { lr := .retToUser, prio := 0, slice := 0, state := .ready, cap := result.2,
              env := ⟨result.2, args.ownerCap, args.filesCap, args.vspaceCap⟩,
              kstack := some page, serial := s.created }
          created := s.created + 1 }
        (schedEntityInit s t args.prio, result.2)

/-- The exit notifier, called when one is registered and the owner is not null. -/
def exitNotify (s : Sys) (k : Kthread) : Sys :=
  if s.exitNotify ∧ k.env.ownerCap ≠ capNull then
    s.log (.notified k.serial k.env.ownerCap) else s

def finishSwitch (s : Sys) (prev : Option Tid) : Sys :=
  match prev with
  | none => s
  | some t =>
      let s := s.log (.finished (s.threads t).serial)
      if (s.threads t).state = .dead then threadFree (exitNotify s (s.threads t)) t else s

/-- `arch_context_switch`: save where `prev` continues and hand over to `next`,
whose saved context is returned. -/
def archContextSwitch (s : Sys) (prev next : Tid) : Sys × ResumePoint :=
  let point := (s.threads next).lr
  let s := s.modify prev fun k => { k with lr := .switchAway }
  (s.log (.switched (s.threads prev).serial (s.threads next).serial point), point)

def switchAway (s : Sys) : Sys :=
  let prev := s.current
  match schedPickNext s with
  | none => { s with fault := true }
  | some (s, next) =>
      if next = prev then s
      else
        let s := { s with lastSwitched := some prev, current := next }
        let (s, point) := archContextSwitch s prev next
        -- A first run leaves through `ret_to_user` and never sees `finish_switch`.
        match point with
        | .switchAway => finishSwitch s s.lastSwitched
        | _ => s

def schedule (s : Sys) : Sys := switchAway s

def scheduleIfNeeded (s : Sys) : Sys := if s.needResched then schedule s else s

def threadWake (s : Sys) (cap : UInt64) : Sys :=
  match capResolve s.caps cap capRCtl with
  | some t => schedWake s t
  | none => s

def threadBlockCurrent (s : Sys) : Sys :=
  s.modify s.current fun k => { k with state := .blocked }

/-- The part of `thread_replace_current` that makes the replacement runnable. -/
def enqueueReplacement (s : Sys) (replacement : UInt64) : Sys :=
  if replacement ≠ capNull then
    match capResolve s.caps replacement capRCtl with
    | some rep => schedEnqueueReady s rep
    | none => s
  else s

def threadReplaceCurrent (s : Sys) (replacement : UInt64) : Sys :=
  let s := enqueueReplacement s replacement
  switchAway (schedMarkDead s s.current)

def threadExitCurrent (s : Sys) : Sys := threadReplaceCurrent s capNull

def threadTick (s : Sys) : Sys := schedTick s

/-- `idle_kthread` as the compiler initialises it. -/
def idleKthread : Kthread where
  lr := .unset
  prio := 0
  slice := 0
  state := .ready
  cap := capNull
  env := ⟨capNull, capNull, capNull, capNull⟩
  kstack := none
  serial := 0

/-- Before `thread_subsys_init`: the static thread, no other, any links. -/
def Sys.reset (links : Links Node) (notify : Bool) : Sys where
  threads _ := idleKthread
  allocated t := t == idle
  links := links
  needResched := false
  idleThread := none
  current := idle
  lastSwitched := none
  exitNotify := notify
  caps := CapState.boot
  trace := []
  created := 1
  picks := 0
  fault := false

def threadSubsysInit (s : Sys) : Sys := schedSetIdle { schedInit s with current := idle } idle

/-- The state the first operation finds. -/
def Sys.boot (links : Links Node) (notify : Bool) : Sys :=
  threadSubsysInit (Sys.reset links notify)

/-! ## Operations -/

inductive ThreadOp where
  | create (args : ThreadCreateArgs) (mem stack : Option Nat)
  | wake (cap : UInt64)
  | schedule
  | scheduleIfNeeded
  /-- `thread_block_current(); schedule();` -/
  | block
  | tick
  | exit
  | replace (replacement : UInt64)

/-- Fresh from `thread_create`: never woken, never run. -/
def Fresh (s : Sys) (t : Tid) : Prop :=
  (s.threads t).state = .blocked ∧ (s.threads t).lr = .retToUser

/-- Priorities are in range, `kzalloc` returns memory that is not in use, the
idle thread neither blocks nor exits, and a replacement is fresh. -/
def threadEnabled (s : Sys) : ThreadOp → Prop
  | .create args mem _ =>
      args.prio < schedPrioMax ∧ ∀ t, mem = some t → s.allocated t = false
  | .block | .exit => s.current ≠ idle
  | .replace cap => s.current ≠ idle ∧ ∀ t, capResolve s.caps cap capRCtl = some t → Fresh s t
  | _ => True

/-- A condition on the object behind an optional pointer. -/
def decidableOfSome {α : Type} (o : Option α) (P : α → Prop) [DecidablePred P] :
    Decidable (∀ t, o = some t → P t) :=
  match o with
  | none => isTrue (by simp)
  | some t => decidable_of_iff (P t) (by simp)

instance (s : Sys) (t : Tid) : Decidable (Fresh s t) := inferInstanceAs (Decidable (_ ∧ _))

instance decidableThreadEnabled (s : Sys) (op : ThreadOp) : Decidable (threadEnabled s op) :=
  match op with
  | .create args mem _ =>
      @instDecidableAnd _ _ (inferInstanceAs (Decidable (args.prio < schedPrioMax)))
        (decidableOfSome mem fun t => s.allocated t = false)
  | .block | .exit => inferInstanceAs (Decidable (s.current ≠ idle))
  | .replace cap =>
      @instDecidableAnd _ _ (inferInstanceAs (Decidable (s.current ≠ idle)))
        (decidableOfSome (capResolve s.caps cap capRCtl) (Fresh s))
  | .wake _ | .schedule | .scheduleIfNeeded | .tick => isTrue trivial

def threadStep (s : Sys) : ThreadOp → Sys
  | .create args mem stack => (threadCreate s args mem stack).1
  | .wake cap => threadWake s cap
  | .schedule => schedule s
  | .scheduleIfNeeded => scheduleIfNeeded s
  | .block => schedule (threadBlockCurrent s)
  | .tick => threadTick s
  | .exit => threadExitCurrent s
  | .replace cap => threadReplaceCurrent s cap

def threadMachine : Machine Sys ThreadOp where
  enabled := threadEnabled
  step := threadStep

instance (s : Sys) (op : ThreadOp) : Decidable (threadMachine.enabled s op) :=
  decidableThreadEnabled s op

/-! ## What one operation can do -/

/-- `sched_enqueue_ready` makes the thread ready and touches nothing but its
state and the links. -/
theorem schedEnqueueReady_spec {s : Sys} {queues : Nat → List Tid} (rq : RunQueues s queues)
    {t : Tid} (alloc : s.allocated t = true) :
    ∃ links queues', schedEnqueueReady s t =
        { s with threads := Function.update s.threads t { s.threads t with state := .ready }
                 links := links } ∧
      RunQueues (schedEnqueueReady s t) queues' := by
  by_cases ready : (s.threads t).state = .ready
  · have isQueued : queued s t = true := (rq.queued_iff alloc).2 ready
    have unchanged : schedEnqueueReady s t = s := by simp [schedEnqueueReady, isQueued]
    refine ⟨s.links, queues, ?_, by rw [unchanged]; exact rq⟩
    rw [unchanged, ← ready, Function.update_eq_self]
  · have notQueued : queued s t = false := by
      rw [← Bool.not_eq_true, rq.queued_iff alloc]
      exact ready
    exact ⟨dlistAddTail s.links (.queue (s.threads t).prio) (.thread t), _,
      by simp [schedEnqueueReady, notQueued, Sys.modify], rq.enqueue alloc ready⟩

theorem schedMarkDead_spec {s : Sys} {queues : Nat → List Tid} (rq : RunQueues s queues)
    {t : Tid} (alloc : s.allocated t = true) :
    ∃ links queues', schedMarkDead s t =
        { s with threads := Function.update s.threads t { s.threads t with state := .dead }
                 links := links
                 trace := s.trace ++ [.marked (s.threads t).serial (s.threads t).env.ownerCap] } ∧
      RunQueues (schedMarkDead s t) queues' := by
  by_cases ready : (s.threads t).state = .ready
  · have isQueued : queued s t = true := (rq.queued_iff alloc).2 ready
    have member : t ∈ queues (s.threads t).prio :=
      (rq.mem_iff _ t).2 ⟨rq.prio_lt t alloc, alloc, ready, rfl⟩
    have off := rq.dequeue member (f := fun k => { k with state := .dead }) (by simp) rfl
    refine ⟨dlistInit (dlistDel s.links (.thread t)) (.thread t),
      Function.update queues (s.threads t).prio ((queues (s.threads t).prio).erase t),
      by simp [schedMarkDead, isQueued, Sys.modify, Sys.log], ?_⟩
    · simp only [schedMarkDead, isQueued, if_true]
      exact off.congr rfl rfl (fun _ _ => Iff.rfl) fun _ _ => rfl
  · have notQueued : queued s t = false := by
      rw [← Bool.not_eq_true, rq.queued_iff alloc]
      exact ready
    have off := rq.modify t (f := fun k => { k with state := .dead }) (by simp [ready]) rfl
    refine ⟨s.links, queues, by simp [schedMarkDead, notQueued, Sys.modify, Sys.log], ?_⟩
    · simp only [schedMarkDead, notQueued, Bool.false_eq_true, if_false]
      exact off.congr rfl rfl (fun _ _ => Iff.rfl) fun _ _ => rfl

/-! ## The invariant -/

/-- What holds at every call of `switch_away`, also while the current thread is
already marked blocked or dead. -/
structure CoreInv (s : Sys) : Prop where
  queues : ∃ queues, RunQueues s queues
  caps : ∃ live, CapInv s.caps live ∧
    ∀ l ∈ live, s.allocated l.obj = true ∧ (s.threads l.obj).cap = l.token
  running : ∀ t, s.allocated t = true → (s.threads t).state = .running → t = s.current
  current_alloc : s.allocated s.current = true
  idle_alloc : s.allocated idle = true
  idle_state : (s.threads idle).state = .ready ∨ (s.threads idle).state = .running
  noFault : s.fault = false

/-- Between operations the current thread is the running one, or the idle
thread that no pick has touched yet. -/
structure ThreadInv (s : Sys) : Prop extends CoreInv s where
  unpicked : s.picks = 0 → s.current = idle ∧ (s.threads idle).state = .ready
  picked : s.picks ≠ 0 → (s.threads s.current).state = .running

/-- Resolving a token yields an allocated thread. -/
theorem CoreInv.resolve_alloc {s : Sys} (core : CoreInv s) {cap rights : UInt64} {t : Tid}
    (resolved : capResolve s.caps cap rights = some t) : s.allocated t = true := by
  obtain ⟨live, inv, owned⟩ := core.caps
  by_cases isLive : ∃ l ∈ live, l.token = cap
  · obtain ⟨l, hl, rfl⟩ := isLive
    by_cases granted : RightsSubset rights l.rights
    · rw [(inv.resolve_live hl rights).1 granted] at resolved
      cases resolved
      exact (owned l hl).1
    · rw [(inv.resolve_live hl rights).2 granted] at resolved
      cases resolved
  · rw [inv.resolve_not_live (fun l hl same => isLive ⟨l, hl, same⟩)] at resolved
    cases resolved

/-- The threads after the current one, if still running, was put back in line. -/
def requeuedThreads (s : Sys) : Tid → Kthread :=
  if (s.threads s.current).state = .running then
    Function.update s.threads s.current { s.threads s.current with state := .ready }
  else s.threads

theorem requeuedThreads_of_ne {s : Sys} {t : Tid} (ne : t ≠ s.current) :
    requeuedThreads s t = s.threads t := by
  unfold requeuedThreads
  split
  · rw [Function.update_of_ne ne]
  · rfl

theorem requeuedThreads_current (s : Sys) :
    (requeuedThreads s s.current).state =
      if (s.threads s.current).state = .running then .ready
      else (s.threads s.current).state := by
  unfold requeuedThreads
  split <;> simp

/-- Requeueing and picking change only states and slices. -/
theorem requeuedThreads_same (s : Sys) (t : Tid) :
    (requeuedThreads s t).lr = (s.threads t).lr ∧ (requeuedThreads s t).cap = (s.threads t).cap ∧
      (requeuedThreads s t).env = (s.threads t).env ∧
      (requeuedThreads s t).serial = (s.threads t).serial := by
  by_cases here : t = s.current
  · subst here
    unfold requeuedThreads
    split <;> simp
  · simp [requeuedThreads_of_ne here]

/-- The threads after `sched_pick_next` returned `next`. -/
def pickedThreads (s : Sys) (next : Tid) : Tid → Kthread :=
  Function.update (requeuedThreads s) next
    { requeuedThreads s next with slice := schedSliceTicks, state := .running }

theorem pickedThreads_same (s : Sys) (next t : Tid) :
    (pickedThreads s next t).lr = (s.threads t).lr ∧
      (pickedThreads s next t).cap = (s.threads t).cap ∧
      (pickedThreads s next t).env = (s.threads t).env ∧
      (pickedThreads s next t).serial = (s.threads t).serial := by
  by_cases here : t = next
  · subst here
    simpa [pickedThreads] using requeuedThreads_same s t
  · simpa [pickedThreads, here] using requeuedThreads_same s t

@[simp] theorem pickedThreads_next (s : Sys) (next : Tid) :
    (pickedThreads s next next).state = .running := by simp [pickedThreads]

theorem pickedThreads_of_ne {s : Sys} {next t : Tid} (ne : t ≠ next) :
    pickedThreads s next t = requeuedThreads s t := by simp [pickedThreads, ne]

def pickedState (s : Sys) (next : Tid) (links : Links Node) : Sys :=
  { s with threads := pickedThreads s next, links := links, needResched := false,
           picks := s.picks + 1 }

theorem requeueCurrent_links (s : Sys) :
    (requeueCurrent { s with needResched := false, picks := s.picks + 1 }).links =
      (requeueCurrent s).links := by
  by_cases running : (s.threads s.current).state = .running
  · by_cases onQueue : queued s s.current = true
    · simp [requeueCurrent, running, schedEnqueueReady, queued] at onQueue ⊢
      simp [onQueue]
    · simp [requeueCurrent, running, schedEnqueueReady, queued] at onQueue ⊢
      simp [onQueue, Sys.modify]
  · simp [requeueCurrent, running]

/-- `sched_pick_next` takes the head of the best non-empty queue, on which the
current thread stands last if it is still running, and makes it the running
thread. -/
theorem schedPickNext_spec {s : Sys} (core : CoreInv s) :
    ∃ next links queues, schedPickNext s = some (pickedState s next links, next) ∧
      s.allocated next = true ∧ pickHighest (requeueCurrent s) = some next ∧
      RunQueues (pickedState s next links) queues := by
  obtain ⟨queues, rq⟩ := core.queues
  have rq₀ : RunQueues { s with needResched := false, picks := s.picks + 1 } queues :=
    rq.congr rfl rfl (fun _ _ => Iff.rfl) fun _ _ => rfl
  obtain ⟨links₁, queues₁, eq₁, rq₁⟩ : ∃ links queues,
      requeueCurrent { s with needResched := false, picks := s.picks + 1 } =
        { s with threads := requeuedThreads s, links := links, needResched := false,
                 picks := s.picks + 1 } ∧
      RunQueues (requeueCurrent { s with needResched := false, picks := s.picks + 1 }) queues := by
    by_cases running : (s.threads s.current).state = .running
    · obtain ⟨links, queues', eq, rq'⟩ := schedEnqueueReady_spec rq₀ core.current_alloc
      refine ⟨links, queues', ?_, ?_⟩
      · simpa [requeueCurrent, requeuedThreads, running] using eq
      · simpa [requeueCurrent, running] using rq'
    · exact ⟨s.links, queues, by simp [requeueCurrent, requeuedThreads, running],
        by simpa [requeueCurrent, running] using rq₀⟩
  rw [eq₁] at rq₁
  -- The idle thread is ready now: it was, or it was running and got requeued.
  have idleReady : (requeuedThreads s idle).state = .ready := by
    by_cases here : idle = s.current
    · rw [here, requeuedThreads_current, ← here]
      rcases core.idle_state with ready | running
      · simp [ready]
      · simp [running]
    · rw [requeuedThreads_of_ne here]
      exact core.idle_state.resolve_right fun running =>
        here (core.running idle core.idle_alloc running)
  obtain ⟨next, picked⟩ := rq₁.pickHighest_isSome core.idle_alloc idleReady
  obtain ⟨p, member⟩ := rq₁.pickHighest_mem picked
  obtain ⟨-, alloc, ready, -⟩ := (rq₁.mem_iff p next).1 member
  have off := rq₁.dequeue member
    (f := fun k => { k with slice := schedSliceTicks, state := .running }) (by simp) rfl
  refine ⟨next, dlistInit (dlistDel links₁ (.thread next)) (.thread next), _, ?_, alloc, ?_, off⟩
  · simp only [schedPickNext, eq₁, picked, Option.map_some, dequeuePicked, Sys.modify,
      pickedState, pickedThreads]
  · rw [← picked]
    apply pickHighest_congr
    rw [← requeueCurrent_links, eq₁]

/-- The hand-over to another thread: `prev` will continue inside `switch_away`. -/
def handOver (s : Sys) (next : Tid) (links : Links Node) : Sys :=
  (archContextSwitch
    { pickedState s next links with lastSwitched := some s.current, current := next }
    s.current next).1

theorem handOver_threads (s : Sys) (next : Tid) (links : Links Node) (t : Tid) :
    (handOver s next links).threads t =
      if t = s.current then { pickedThreads s next t with lr := .switchAway }
      else pickedThreads s next t := by
  by_cases here : t = s.current
  · subst here
    simp [handOver, archContextSwitch, Sys.log, pickedState, Sys.modify]
  · simp [handOver, archContextSwitch, Sys.log, pickedState, Sys.modify, here]

theorem handOver_trace (s : Sys) (next : Tid) (links : Links Node) :
    (handOver s next links).trace = s.trace ++
      [.switched (s.threads s.current).serial (s.threads next).serial (s.threads next).lr] := by
  have serials : ∀ t, ((handOver s next links).threads t).serial = (s.threads t).serial := by
    intro t
    rw [handOver_threads, ← (pickedThreads_same s next t).2.2.2]
    split <;> rfl
  rw [← serials, ← serials, ← (pickedThreads_same s next next).1]
  rfl

/-- **What `switch_away` can do.**  It picks the current thread again, or hands
over to a thread on its first run, which leaves at once, or to a thread that
continues in its own `switch_away` and finishes the predecessor. -/
theorem switchAway_cases {s : Sys} (core : CoreInv s) :
    ∃ next links queues, s.allocated next = true ∧
      pickHighest (requeueCurrent s) = some next ∧
      RunQueues (pickedState s next links) queues ∧
      ((next = s.current ∧ switchAway s = pickedState s next links) ∨
        (next ≠ s.current ∧ (s.threads next).lr ≠ .switchAway ∧
          switchAway s = handOver s next links) ∨
        (next ≠ s.current ∧ (s.threads next).lr = .switchAway ∧
          switchAway s = finishSwitch (handOver s next links) (some s.current))) := by
  obtain ⟨next, links, queues, pick, alloc, was, rq⟩ := schedPickNext_spec core
  refine ⟨next, links, queues, alloc, was, rq, ?_⟩
  by_cases same : next = s.current
  · exact Or.inl ⟨same, by simp [switchAway, pick, same]⟩
  · have lr : ((pickedState s next links).threads next).lr = (s.threads next).lr :=
      (pickedThreads_same s next next).1
    by_cases started : (s.threads next).lr = .switchAway
    · refine Or.inr (Or.inr ⟨same, started, ?_⟩)
      simp only [switchAway, pick, same, if_false, handOver, archContextSwitch]
      rw [lr, started]
      rfl
    · refine Or.inr (Or.inl ⟨same, started, ?_⟩)
      simp only [switchAway, pick, same, if_false, handOver, archContextSwitch]
      rw [lr]
      cases point : (s.threads next).lr with
      | switchAway => exact absurd point started
      | unset => rfl
      | retToUser => rfl

/-! ## Every operation keeps the invariant -/

/-- The invariant of `s` gives that of any state with the picked threads,
whatever else the switch recorded. -/
theorem CoreInv.of_picked {s s' : Sys} (core : CoreInv s) {next : Tid} {links : Links Node}
    {queues : Nat → List Tid} (alloc : s.allocated next = true)
    (rq : RunQueues (pickedState s next links) queues)
    (links_eq : s'.links = links) (allocated : s'.allocated = s.allocated)
    (state : ∀ t, (s'.threads t).state = (pickedThreads s next t).state)
    (prio : ∀ t, (s'.threads t).prio = (pickedThreads s next t).prio)
    (cap : ∀ t, (s'.threads t).cap = (s.threads t).cap)
    (current : s'.current = next) (caps : s'.caps = s.caps) (fault : s'.fault = s.fault)
    (picks : s'.picks = s.picks + 1) : ThreadInv s' := by
  have notRunning : ∀ t, s.allocated t = true → t ≠ next →
      (pickedThreads s next t).state ≠ .running := by
    intro t tAlloc ne running
    rw [pickedThreads_of_ne ne] at running
    by_cases here : t = s.current
    · subst here
      rw [requeuedThreads_current] at running
      split at running
      · cases running
      · exact absurd running ‹_›
    · rw [requeuedThreads_of_ne here] at running
      exact here (core.running t tAlloc running)
  refine ⟨⟨⟨queues, rq.congr links_eq allocated (fun t _ => ?_) fun t _ => prio t⟩, ?_, ?_, ?_, ?_,
    ?_, fault.trans core.noFault⟩, fun zero => ?_, fun _ => ?_⟩
  · rw [state t]; rfl
  · obtain ⟨live, inv, owned⟩ := core.caps
    refine ⟨live, caps ▸ inv, fun l hl => ?_⟩
    rw [allocated, cap]
    exact owned l hl
  · intro t tAlloc running
    rw [allocated] at tAlloc
    rw [state t] at running
    rw [current]
    by_contra ne
    exact notRunning t tAlloc ne running
  · rw [current, allocated]; exact alloc
  · rw [allocated]; exact core.idle_alloc
  · rw [state idle]
    by_cases here : idle = next
    · rw [here, pickedThreads_next]; exact Or.inr rfl
    · left
      rw [pickedThreads_of_ne here]
      by_cases cur : idle = s.current
      · rw [cur, requeuedThreads_current, ← cur]
        rcases core.idle_state with ready | running
        · simp [ready]
        · simp [running]
      · rw [requeuedThreads_of_ne cur]
        exact core.idle_state.resolve_right fun running =>
          cur (core.running idle core.idle_alloc running)
  · rw [picks] at zero
    omega
  · rw [current, state next, pickedThreads_next]

/-- `thread_free` of a dead thread that is not the current one. -/
theorem ThreadInv.threadFree {s : Sys} (inv : ThreadInv s) {t : Tid}
    (dead : (s.threads t).state = .dead) (other : t ≠ s.current) : ThreadInv (threadFree s t) := by
  obtain ⟨queues, rq⟩ := inv.queues
  have notIdle : t ≠ idle := by
    rintro rfl
    rcases inv.idle_state with ready | running
    · rw [ready] at dead; cases dead
    · rw [running] at dead; cases dead
  have allocated : (Thread.threadFree s t).allocated = Function.update s.allocated t false := rfl
  refine ⟨⟨⟨queues, rq.release (by simp [dead]) rfl rfl allocated⟩, ?_, ?_, ?_, ?_, inv.idle_state,
    inv.noFault⟩, inv.unpicked, inv.picked⟩
  · obtain ⟨live, capInv, owned⟩ := inv.caps
    refine ⟨live.filter fun l => l.token != (s.threads t).cap, ?_, fun l hl => ?_⟩
    · change CapInv (if (s.threads t).cap ≠ capNull then capFree s.caps (s.threads t).cap
        else s.caps) _
      by_cases live_ : ∃ l ∈ live, l.token = (s.threads t).cap
      · obtain ⟨l, hl, token⟩ := live_
        have valid : capValid s.caps (s.threads t).cap = true := token ▸ capInv.valid hl
        have nonnull : (s.threads t).cap ≠ capNull := token ▸ token_ne_null (capInv.slot_pos l hl)
        rw [if_pos nonnull]
        exact capInv.release valid
      · have dead_ : ∀ l ∈ live, l.token ≠ (s.threads t).cap := fun l hl same => live_ ⟨l, hl, same⟩
        rw [capInv.free_not_live dead_, ite_self, List.filter_eq_self.2 (by simpa using dead_)]
        exact capInv
    · obtain ⟨hl, token⟩ := List.mem_filter.1 hl
      obtain ⟨alloc, cap⟩ := owned l hl
      have ne : l.obj ≠ t := by
        rintro rfl
        simp [cap] at token
      rw [allocated, Function.update_of_ne ne]
      exact ⟨alloc, cap⟩
  · intro u uAlloc running
    rw [allocated] at uAlloc
    have ne : u ≠ t := by
      rintro rfl
      simp at uAlloc
    rw [Function.update_of_ne ne] at uAlloc
    exact inv.running u uAlloc running
  · rw [allocated]
    change Function.update s.allocated t false s.current = true
    rw [Function.update_of_ne other.symm]
    exact inv.current_alloc
  · rw [allocated, Function.update_of_ne notIdle.symm]
    exact inv.idle_alloc

/-- The invariant does not read the trace. -/
theorem ThreadInv.log {s : Sys} (inv : ThreadInv s) (e : Event) : ThreadInv (s.log e) :=
  have rq : ∃ queues, RunQueues (s.log e) queues :=
    let ⟨queues, rq⟩ := inv.queues
    ⟨queues, rq.congr rfl rfl (fun _ _ => Iff.rfl) fun _ _ => rfl⟩
  ⟨⟨rq, inv.caps, inv.running, inv.current_alloc, inv.idle_alloc, inv.idle_state, inv.noFault⟩,
    inv.unpicked, inv.picked⟩

theorem ThreadInv.exitNotify {s : Sys} (inv : ThreadInv s) (k : Kthread) :
    ThreadInv (exitNotify s k) := by
  unfold Thread.exitNotify
  split
  · exact inv.log _
  · exact inv

theorem exitNotify_same (s : Sys) (k : Kthread) :
    (exitNotify s k).threads = s.threads ∧ (exitNotify s k).current = s.current := by
  unfold exitNotify
  split <;> exact ⟨rfl, rfl⟩

theorem ThreadInv.finishSwitch {s : Sys} (inv : ThreadInv s) {t : Tid} (other : t ≠ s.current) :
    ThreadInv (finishSwitch s (some t)) := by
  simp only [Thread.finishSwitch]
  by_cases dead : (s.threads t).state = .dead
  · have logged := (inv.log (.finished (s.threads t).serial)).exitNotify (s.threads t)
    obtain ⟨threads, current⟩ :=
      exitNotify_same (s.log (.finished (s.threads t).serial)) (s.threads t)
    have dead' : ((s.log (.finished (s.threads t).serial)).threads t).state = .dead := dead
    rw [if_pos dead']
    exact logged.threadFree (by rw [threads]; exact dead) (by rw [current]; exact other)
  · have alive : ¬ ((s.log (.finished (s.threads t).serial)).threads t).state = .dead := dead
    rw [if_neg alive]
    exact inv.log _

theorem CoreInv.handOver {s : Sys} (core : CoreInv s) {next : Tid} {links : Links Node}
    {queues : Nat → List Tid} (alloc : s.allocated next = true)
    (rq : RunQueues (pickedState s next links) queues) : ThreadInv (handOver s next links) := by
  have threads := handOver_threads s next links
  refine core.of_picked alloc rq rfl rfl (fun t => ?_) (fun t => ?_) (fun t => ?_) rfl rfl rfl rfl
  · rw [threads]; split <;> rfl
  · rw [threads]; split <;> rfl
  · rw [threads, ← (pickedThreads_same s next t).2.1]; split <;> rfl

/-- **`switch_away` from any state of the core invariant ends between
operations**, with the resumed thread running. -/
theorem CoreInv.switchAway {s : Sys} (core : CoreInv s) : ThreadInv (switchAway s) := by
  obtain ⟨next, links, queues, alloc, -, rq, cases_⟩ := switchAway_cases core
  rcases cases_ with ⟨same, eq⟩ | ⟨-, -, eq⟩ | ⟨ne, -, eq⟩
  · rw [eq]
    refine core.of_picked alloc rq rfl rfl (fun _ => rfl) (fun _ => rfl)
      (fun t => (pickedThreads_same s next t).2.1) ?_ rfl rfl rfl
    exact same.symm
  · rw [eq]
    exact core.handOver alloc rq
  · rw [eq]
    refine (core.handOver alloc rq).finishSwitch ?_
    exact ne.symm

/-- A new state for one thread, other than running, and never anything but
ready for the idle one. -/
theorem CoreInv.restate {s s' : Sys} (core : CoreInv s) {t : Tid} {state : SchedState}
    {queues : Nat → List Tid} (rq : RunQueues s' queues)
    (threads : s'.threads = Function.update s.threads t { s.threads t with state := state })
    (notRunning : state ≠ .running) (ofIdle : t = idle → state = .ready)
    (allocated : s'.allocated = s.allocated) (current : s'.current = s.current)
    (caps : s'.caps = s.caps) (fault : s'.fault = s.fault) : CoreInv s' := by
  refine ⟨⟨queues, rq⟩, ?_, ?_, ?_, ?_, ?_, fault.trans core.noFault⟩
  · obtain ⟨live, inv, owned⟩ := core.caps
    refine ⟨live, caps ▸ inv, fun l hl => ?_⟩
    rw [allocated, threads]
    refine ⟨(owned l hl).1, ?_⟩
    by_cases here : l.obj = t
    · rw [here, Function.update_self, ← (owned l hl).2, here]
    · rw [Function.update_of_ne here]
      exact (owned l hl).2
  · intro u uAlloc running
    rw [allocated] at uAlloc
    rw [threads] at running
    rw [current]
    by_cases here : u = t
    · subst here
      rw [Function.update_self] at running
      exact absurd running notRunning
    · rw [Function.update_of_ne here] at running
      exact core.running u uAlloc running
  · rw [current, allocated]; exact core.current_alloc
  · rw [allocated]; exact core.idle_alloc
  · rw [threads]
    by_cases here : idle = t
    · subst here
      rw [Function.update_self]
      exact Or.inl (ofIdle rfl)
    · rw [Function.update_of_ne here]
      exact core.idle_state

theorem CoreInv.enqueueReady {s : Sys} (core : CoreInv s) {t : Tid} (alloc : s.allocated t = true) :
    CoreInv (schedEnqueueReady s t) := by
  obtain ⟨queues, rq⟩ := core.queues
  obtain ⟨links, queues', eq, rq'⟩ := schedEnqueueReady_spec rq alloc
  rw [eq] at rq' ⊢
  exact core.restate rq' rfl (by simp) (fun _ => rfl) rfl rfl rfl rfl

theorem ThreadInv.schedWake {s : Sys} (inv : ThreadInv s) {t : Tid} (alloc : s.allocated t = true) :
    ThreadInv (schedWake s t) := by
  unfold Thread.schedWake
  split
  · exact inv
  · rename_i wakeable
    simp only [not_or, not_not] at wakeable
    obtain ⟨other, blocked⟩ := wakeable
    have notIdle : idle ≠ t := by
      rintro rfl
      rcases inv.idle_state with ready | running
      · rw [ready] at blocked; cases blocked
      · rw [running] at blocked; cases blocked
    obtain ⟨queues, rq⟩ := inv.queues
    obtain ⟨links, queues', eq, rq'⟩ := schedEnqueueReady_spec rq alloc
    have core := inv.enqueueReady alloc
    rw [eq] at core ⊢
    refine ⟨core, fun zero => ⟨(inv.unpicked zero).1, ?_⟩, fun nonzero => ?_⟩
    · simp only [Function.update_of_ne notIdle]
      exact (inv.unpicked zero).2
    · simp only [Function.update_of_ne (Ne.symm other)]
      exact inv.picked nonzero

theorem ThreadInv.wake {s : Sys} (inv : ThreadInv s) (cap : UInt64) : ThreadInv (threadWake s cap) := by
  unfold threadWake
  split
  · rename_i t resolved
    exact inv.schedWake (inv.resolve_alloc resolved)
  · exact inv

/-- Slices and the reschedule flag are not part of the invariant. -/
theorem ThreadInv.tick {s : Sys} (inv : ThreadInv s) : ThreadInv (threadTick s) := by
  have keep : ∀ (f : Kthread → Kthread) (flag : Bool),
      (∀ k, (f k).state = k.state ∧ (f k).prio = k.prio ∧ (f k).cap = k.cap) →
      ThreadInv { s.modify s.current f with needResched := flag } := by
    intro f flag same
    have threads : ∀ t, ((s.modify s.current f).threads t).state = (s.threads t).state ∧
        ((s.modify s.current f).threads t).prio = (s.threads t).prio ∧
        ((s.modify s.current f).threads t).cap = (s.threads t).cap := by
      intro t
      by_cases here : t = s.current
      · subst here; simpa using same _
      · simp [here]
    obtain ⟨queues, rq⟩ := inv.queues
    obtain ⟨live, capInv, owned⟩ := inv.caps
    refine ⟨⟨⟨queues, rq.congr rfl rfl (fun t _ => ?_) fun t _ => (threads t).2.1⟩,
      ⟨live, capInv, fun l hl => ⟨(owned l hl).1, ((threads _).2.2).trans (owned l hl).2⟩⟩,
      fun t alloc running => inv.running t alloc ((threads t).1 ▸ running),
      inv.current_alloc, inv.idle_alloc, ?_, inv.noFault⟩, fun zero => ?_, fun nonzero => ?_⟩
    · rw [← (threads t).1]
    · simpa only [(threads idle).1] using inv.idle_state
    · exact ⟨(inv.unpicked zero).1, ((threads idle).1).trans (inv.unpicked zero).2⟩
    · exact ((threads s.current).1).trans (inv.picked nonzero)
  have unchanged : s.modify s.current id = s := by
    simp only [Sys.modify, id, Function.update_eq_self]
  have flagged : ∀ flag, ThreadInv { s with needResched := flag } := by
    intro flag
    have := keep id flag fun _ => ⟨rfl, rfl, rfl⟩
    rwa [unchanged] at this
  unfold threadTick schedTick
  split
  · exact inv
  · split
    · exact inv
    · split
      · exact inv
      · have charged := keep (fun k => { k with slice := k.slice - 1 })
        by_cases slice : 0 < (s.threads s.current).slice
        · simp only [slice, if_true]
          split
          · exact charged true fun _ => ⟨rfl, rfl, rfl⟩
          · exact charged s.needResched fun _ => ⟨rfl, rfl, rfl⟩
        · simp only [slice, if_false]
          split
          · exact flagged true
          · exact flagged s.needResched

theorem ThreadInv.create {s : Sys} (inv : ThreadInv s) {args : ThreadCreateArgs}
    {mem stack : Option Nat} (prio : args.prio < schedPrioMax)
    (unused : ∀ t, mem = some t → s.allocated t = false) :
    ThreadInv (threadCreate s args mem stack).1 := by
  obtain ⟨queues, rq⟩ := inv.queues
  obtain ⟨live, capInv, owned⟩ := inv.caps
  unfold threadCreate
  split
  · exact inv
  · exact inv
  · rename_i t page
    have free : s.allocated t = false := unused t rfl
    have capInv' : CapInv (capAlloc s.caps (some t) (capRCtl ||| capRRead)).1
        (recordLive live (capAlloc s.caps (some t) (capRCtl ||| capRRead)).2 (some t)
          (capRCtl ||| capRRead)) :=
      capStep_inv ⟨s.caps, live⟩ (.alloc (some t) (capRCtl ||| capRRead)) capInv
    simp only [recordLive] at capInv'
    dsimp only
    split
    · rename_i failed
      rw [if_pos failed] at capInv'
      exact ⟨⟨⟨queues, rq.congr rfl rfl (fun _ _ => Iff.rfl) fun _ _ => rfl⟩,
        ⟨live, capInv', owned⟩, inv.running, inv.current_alloc, inv.idle_alloc, inv.idle_state,
        inv.noFault⟩, inv.unpicked, inv.picked⟩
    · rename_i token
      rw [if_neg token] at capInv'
      have notCurrent : s.current ≠ t := by
        rintro rfl
        rw [inv.current_alloc] at free
        cases free
      have notIdle : idle ≠ t := by
        rintro rfl
        rw [inv.idle_alloc] at free
        cases free
      simp only [schedEntityInit, Sys.modify, Function.update_self, Function.update_idem]
      refine ⟨⟨⟨queues, rq.create free prio rfl rfl rfl (by simp) rfl⟩, ⟨_, capInv', ?_⟩, ?_, ?_, ?_,
        ?_, inv.noFault⟩, fun zero => ?_, fun nonzero => ?_⟩
      · intro l hl
        rcases List.mem_cons.1 hl with rfl | old
        · simp
        · have ne : l.obj ≠ t := by
            rintro rfl
            rw [(owned l old).1] at free
            cases free
          simp only [Function.update_of_ne ne]
          exact owned l old
      · intro u alloc running
        by_cases here : u = t
        · subst here
          simp at running
        · simp only [Function.update_of_ne here] at alloc running
          exact inv.running u alloc running
      · simp only [Function.update_of_ne notCurrent]
        exact inv.current_alloc
      · simp only [Function.update_of_ne notIdle]
        exact inv.idle_alloc
      · simp only [Function.update_of_ne notIdle]
        exact inv.idle_state
      · simp only [Function.update_of_ne notIdle]
        exact inv.unpicked zero
      · simp only [Function.update_of_ne notCurrent]
        exact inv.picked nonzero

theorem CoreInv.blockCurrent {s : Sys} (inv : ThreadInv s) (other : s.current ≠ idle) :
    CoreInv (threadBlockCurrent s) := by
  obtain ⟨queues, rq⟩ := inv.queues
  have running : (s.threads s.current).state = .running :=
    inv.picked fun zero => other (inv.unpicked zero).1
  have rq' : RunQueues (threadBlockCurrent s) queues :=
    rq.modify s.current (by simp [running]) rfl
  exact inv.toCoreInv.restate rq' rfl (by simp) (fun same => absurd same other) rfl rfl rfl rfl

theorem CoreInv.markDead {s : Sys} (core : CoreInv s) (other : s.current ≠ idle) :
    CoreInv (schedMarkDead s s.current) := by
  obtain ⟨queues, rq⟩ := core.queues
  obtain ⟨links, queues', eq, rq'⟩ := schedMarkDead_spec rq core.current_alloc
  rw [eq] at rq' ⊢
  exact core.restate rq' rfl (by simp) (fun same => absurd same other) rfl rfl rfl rfl

theorem CoreInv.enqueueReplacement {s : Sys} (core : CoreInv s) (replacement : UInt64) :
    CoreInv (enqueueReplacement s replacement) ∧
      (enqueueReplacement s replacement).current = s.current := by
  unfold Thread.enqueueReplacement
  split
  · split
    · rename_i rep resolved
      have alloc := core.resolve_alloc resolved
      refine ⟨core.enqueueReady alloc, ?_⟩
      unfold schedEnqueueReady
      split <;> rfl
    · exact ⟨core, rfl⟩
  · exact ⟨core, rfl⟩

theorem ThreadInv.replace {s : Sys} (inv : ThreadInv s) (other : s.current ≠ idle)
    (replacement : UInt64) : ThreadInv (threadReplaceCurrent s replacement) := by
  obtain ⟨core, current⟩ := inv.toCoreInv.enqueueReplacement replacement
  exact (core.markDead (by rw [current]; exact other)).switchAway

theorem threadStep_inv {s : Sys} (inv : ThreadInv s) {op : ThreadOp}
    (enabled : threadEnabled s op) : ThreadInv (threadStep s op) := by
  cases op with
  | create args mem stack => exact inv.create enabled.1 enabled.2
  | wake cap => exact inv.wake cap
  | schedule => exact inv.toCoreInv.switchAway
  | scheduleIfNeeded =>
      simp only [threadStep, scheduleIfNeeded]
      split
      · exact inv.toCoreInv.switchAway
      · exact inv
  | block => exact (CoreInv.blockCurrent inv enabled).switchAway
  | tick => exact inv.tick
  | exit => exact inv.replace enabled capNull
  | replace cap => exact inv.replace enabled.1 cap

/-! ## Boot -/

theorem foldl_dlistInit_alone (nodes : List Nat) (h : Links Node) (x : Node)
    (alone : h.Alone x ∨ ∃ p ∈ nodes, x = .queue p) :
    (nodes.foldl (fun h p => dlistInit h (.queue p)) h).Alone x := by
  induction nodes generalizing h with
  | nil => exact alone.resolve_right (by simp)
  | cons p nodes ih =>
      apply ih
      by_cases here : x = .queue p
      · left
        rw [here]
        exact dlistInit_alone h _
      · rcases alone with alone | ⟨q, member, rfl⟩
        · left
          exact ⟨(dlistInit_next_of_ne h here).trans alone.1,
            (dlistInit_prev_of_ne h here).trans alone.2⟩
        · right
          rcases List.mem_cons.1 member with rfl | member
          · exact absurd rfl here
          · exact ⟨q, member, rfl⟩

/-- After `sched_entity_init` of the idle thread the queues are all empty. -/
theorem runQueues_boot (links : Links Node) (notify : Bool) :
    RunQueues
      (schedEntityInit { schedInit (Sys.reset links notify) with
        current := idle, idleThread := some idle } idle schedPrioIdle) fun _ => [] := by
  have onlyIdle : ∀ t : Tid, (t == idle) = true → t = idle := fun t h => by simpa using h
  refine ⟨⟨fun p hp => ?_, ?_⟩, fun p t => ?_, fun t alloc _ => ?_, fun t alloc => ?_⟩
  · rw [List.map_nil, Links.ring_nil_iff]
    have alone := foldl_dlistInit_alone (List.range schedPrioMax) links (.queue p)
      (Or.inr ⟨p, List.mem_range.2 hp, rfl⟩)
    exact ⟨(dlistInit_next_of_ne _ (by simp)).trans alone.1,
      (dlistInit_prev_of_ne _ (by simp)).trans alone.2⟩
  · intro p q _ _ ne
    simpa using ne.symm
  · simp only [List.not_mem_nil, false_iff, not_and]
    intro _ alloc ready
    rw [onlyIdle t alloc] at ready
    simp [schedEntityInit] at ready
  · rw [onlyIdle t alloc]
    exact dlistInit_alone _ _
  · rw [onlyIdle t alloc]
    simp [schedEntityInit, schedPrioIdle, schedPrioMax]

theorem schedSetIdle_eq (s : Sys) (t : Tid) (prio : Nat) :
    schedEnqueueReady ((schedEntityInit s t prio).modify t fun k => { k with state := .ready }) t =
      schedEnqueueReady (schedEntityInit s t prio) t := by
  have notQueued : queued (schedEntityInit s t prio) t = false := by
    simp [queued, schedEntityInit]
  have notQueued' : queued ((schedEntityInit s t prio).modify t
      fun k => { k with state := .ready }) t = false := notQueued
  simp only [schedEnqueueReady, notQueued, notQueued', Bool.false_eq_true, if_false]
  simp [Sys.modify]

theorem threadInv_boot (links : Links Node) (notify : Bool) : ThreadInv (Sys.boot links notify) := by
  have rq := runQueues_boot links notify
  have boot : Sys.boot links notify = schedEnqueueReady (schedEntityInit
      { schedInit (Sys.reset links notify) with current := idle, idleThread := some idle } idle
      schedPrioIdle) idle := by
    rw [← schedSetIdle_eq]
    rfl
  obtain ⟨links', queues, eq, rq'⟩ := schedEnqueueReady_spec rq (t := idle) (by rfl)
  rw [← boot] at eq rq'
  have allocated : ∀ t, (Sys.boot links notify).allocated t = (t == idle) := by
    rw [eq]; intro t; rfl
  have state : ((Sys.boot links notify).threads idle).state = .ready := by rw [eq]; simp
  have current : (Sys.boot links notify).current = idle := by rw [eq]; rfl
  refine ⟨⟨⟨queues, rq'⟩, ⟨[], ?_, by simp⟩, fun t alloc _ => ?_, ?_, ?_, Or.inl state, ?_⟩,
    fun _ => ⟨current, state⟩, fun nonzero => ?_⟩
  · rw [eq]; exact capInv_boot
  · rw [allocated] at alloc
    rw [current]
    simpa using alloc
  · rw [current, allocated]; rfl
  · rw [allocated]; rfl
  · rw [eq]; rfl
  · rw [eq] at nonzero
    exact absurd rfl nonzero

/-- **The run queues in every reachable state.**  The links hold one list per
priority and no thread twice; a thread is on the list of its own priority
exactly when it is ready, and self-linked otherwise; the current thread is the
only running one, or the ready idle thread before the first pick; and no pick
found every queue empty. -/
theorem run_queue_invariant (links : Links Node) (notify : Bool) (ops : List ThreadOp)
    (admitted : threadMachine.Admits (Sys.boot links notify) ops) :
    let s := threadMachine.run (Sys.boot links notify) ops
    (∃ queues : Nat → List Tid,
      s.links.Family (· < schedPrioMax) Node.queue (fun p => (queues p).map Node.thread) ∧
      ∀ p t, t ∈ queues p ↔ p < schedPrioMax ∧ s.allocated t = true ∧
        (s.threads t).state = .ready ∧ (s.threads t).prio = p) ∧
      (∀ t, s.allocated t = true → (s.threads t).state ≠ .ready → s.links.Alone (.thread t)) ∧
      (∀ t, s.allocated t = true → (s.threads t).prio < schedPrioMax) ∧
      s.allocated s.current = true ∧
      (∀ t, s.allocated t = true → (s.threads t).state = .running → t = s.current) ∧
      ((s.threads s.current).state = .running ∨
        s.picks = 0 ∧ s.current = idle ∧ (s.threads s.current).state = .ready) ∧
      s.fault = false := by
  intro s
  have inv : ThreadInv s := threadMachine.run_invariant (I := ThreadInv)
    (fun s op inv enabled => threadStep_inv inv enabled) (threadInv_boot links notify) admitted
  obtain ⟨queues, rq⟩ := inv.queues
  refine ⟨⟨queues, rq.family, rq.mem_iff⟩, rq.alone, rq.prio_lt, inv.current_alloc, inv.running, ?_,
    inv.noFault⟩
  by_cases zero : s.picks = 0
  · obtain ⟨current, ready⟩ := inv.unpicked zero
    exact Or.inr ⟨zero, current, by rw [current]; exact ready⟩
  · exact Or.inl (inv.picked zero)

/-- Thread 1 is created, woken, scheduled and blocked. -/
theorem run_queue_invariant_block :
    let ops := [.create ⟨20, 0, 0, 5⟩ (some 1) (some 7), .wake (capMake 1 1), .schedule, .tick,
      .block]
    threadMachine.Admits (Sys.boot ⟨id, id⟩ true) ops ∧
      (threadMachine.run (Sys.boot ⟨id, id⟩ true) ops).fault = false :=
  have admitted : threadMachine.Admits (Sys.boot ⟨id, id⟩ true) _ := by decide +kernel
  ⟨admitted, (run_queue_invariant ⟨id, id⟩ true _ admitted).2.2.2.2.2.2⟩

end Minus.Core.Thread
