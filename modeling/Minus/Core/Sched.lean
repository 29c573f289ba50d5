/-
# Core.Sched — the run queues

`kernel/core/thread/sched.c` over the objects of `thread_priv.h`: 32 FIFO queues
of threads linked through `sched.run_node`, the highest-priority one first.  A
thread is on a queue when its node is not linked to itself (`queued`); that is
the only record of membership the scheduler keeps.

`RunQueues s queues` is the abstraction: the heap of links holds the lists
`queues`, and a thread is on the list of its priority exactly when it is
`SCHED_READY`.  There is one lemma per scheduler operation.
-/
import Minus.Core.Cap
import Minus.Lib.Dlist

namespace Minus.Core.Thread

set_option autoImplicit false

open Minus.Theory Minus.Lib.Dlist Minus.Core.Cap

/-! ## Threads -/

/-- The address of a `struct kthread`; `idle` is the static `idle_kthread`. -/
abbrev Tid := Nat

def idle : Tid := 0

inductive SchedState where
  | ready
  | running
  | blocked
  | dead
  deriving DecidableEq

/-- Where a switched-out context continues: `ti.lr`. -/
inductive ResumePoint where
  /-- No context saved yet: the boot thread before its first switch. -/
  | unset
  /-- `ret_to_user`, the first-run frame of `thread_create`. -/
  | retToUser
  /-- Inside the thread's own previous `switch_away`. -/
  | switchAway
  deriving DecidableEq

structure SwitchEnvelope where
  threadCap : UInt64
  ownerCap : UInt64
  filesCap : UInt64
  vspaceCap : UInt64

structure Kthread where
  lr : ResumePoint
  prio : Nat
  slice : Nat
  state : SchedState
  cap : UInt64
  env : SwitchEnvelope
  /-- The page of the kernel stack; `none` is NULL. -/
  kstack : Option Nat
  /-- Ghost: the number of threads created before this one. -/
  serial : Nat

/-- The list nodes of the scheduler: queue heads and `sched.run_node`s. -/
inductive Node where
  | queue (prio : Nat)
  | thread (t : Tid)
  deriving DecidableEq

/-- What the code does to threads, in order; ghost. -/
inductive Event where
  /-- `sched_mark_dead` of the thread, whose envelope names this owner. -/
  | marked (serial : Nat) (owner : UInt64)
  /-- `arch_context_switch`, continuing the second thread at `point`. -/
  | switched (prev next : Nat) (point : ResumePoint)
  /-- `finish_switch` called with the thread. -/
  | finished (serial : Nat)
  | notified (serial : Nat) (owner : UInt64)
  /-- `thread_free` of the thread. -/
  | freed (serial : Nat)
  deriving DecidableEq

/-- The static data of `thread.c` and `sched.c`, the memory of the threads, and
the capability table they are named through. -/
structure Sys where
  threads : Tid → Kthread
  /-- Obtained from `kzalloc` and not given back (`idle_kthread` is static). -/
  allocated : Tid → Bool
  links : Links Node
  needResched : Bool
  idleThread : Option Tid
  current : Tid
  lastSwitched : Option Tid
  /-- `exit_notify_fn` is registered. -/
  exitNotify : Bool
  caps : CapState Tid
  trace : List Event
  created : Nat
  /-- Ghost: the calls of `sched_pick_next` so far. -/
  picks : Nat
  /-- A NULL pointer was dereferenced. -/
  fault : Bool

def Sys.modify (s : Sys) (t : Tid) (f : Kthread → Kthread) : Sys :=
  { s with threads := Function.update s.threads t (f (s.threads t)) }

def Sys.log (s : Sys) (e : Event) : Sys := { s with trace := s.trace ++ [e] }

/-! ## sched.c -/

/-- `SCHED_SLICE_TICKS`. -/
def schedSliceTicks : Nat := 10

/-- `SCHED_PRIO_MAX`. -/
def schedPrioMax : Nat := 32

/-- `SCHED_PRIO_IDLE`. -/
def schedPrioIdle : Nat := schedPrioMax - 1

def schedInit (s : Sys) : Sys :=
  { s with
    links := (List.range schedPrioMax).foldl (fun h p => dlistInit h (.queue p)) s.links
    needResched := false
    idleThread := none }

def schedEntityInit (s : Sys) (t : Tid) (prio : Nat) : Sys :=
  let s := s.modify t fun k =>
    { k with prio := prio, slice := schedSliceTicks, state := .blocked }
  { s with links := dlistInit s.links (.thread t) }

def queued (s : Sys) (t : Tid) : Bool := s.links.next (.thread t) != .thread t

def schedEnqueueReady (s : Sys) (t : Tid) : Sys :=
  if queued s t then s
  else
    let s := s.modify t fun k => { k with state := .ready }
    { s with links := dlistAddTail s.links (.queue (s.threads t).prio) (.thread t) }

def schedSetIdle (s : Sys) (t : Tid) : Sys :=
  let s := { s with idleThread := some t }
  let s := schedEntityInit s t schedPrioIdle
  let s := s.modify t fun k => { k with state := .ready }
  schedEnqueueReady s t

def schedWake (s : Sys) (t : Tid) : Sys :=
  if t = s.current ∨ (s.threads t).state ≠ .blocked then s else schedEnqueueReady s t

def schedMarkDead (s : Sys) (t : Tid) : Sys :=
  let s := if queued s t then
    { s with links := dlistInit (dlistDel s.links (.thread t)) (.thread t) } else s
  let s := s.modify t fun k => { k with state := .dead }
  s.log (.marked (s.threads t).serial (s.threads t).env.ownerCap)

/-- `container_of(head->next, struct kthread, sched.run_node)`. -/
def firstEntry (s : Sys) (prio : Nat) : Option Tid :=
  match s.links.next (.queue prio) with
  | .thread t => some t
  | .queue _ => none

def pickHighest (s : Sys) : Option Tid :=
  (List.range schedPrioMax).findSome? fun prio =>
    if dlistEmpty s.links (.queue prio) then none else firstEntry s prio

/-- `if (cur && cur->sched.state == SCHED_RUNNING) sched_enqueue_ready(cur);` -/
def requeueCurrent (s : Sys) : Sys :=
  if (s.threads s.current).state = .running then schedEnqueueReady s s.current else s

/-- Take the picked thread off its queue and make it the running one. -/
def dequeuePicked (s : Sys) (next : Tid) : Sys :=
  let s := { s with links := dlistInit (dlistDel s.links (.thread next)) (.thread next) }
  s.modify next fun k => { k with slice := schedSliceTicks, state := .running }

/-- `none` is the NULL dereference of an empty set of queues. -/
def schedPickNext (s : Sys) : Option (Sys × Tid) :=
  let s := requeueCurrent { s with needResched := false, picks := s.picks + 1 }
  (pickHighest s).map fun next => (dequeuePicked s next, next)

def schedTick (s : Sys) : Sys :=
  if some s.current = s.idleThread then s
  else
    match pickHighest s with
    | none => s
    | some head =>
        if head = s.current then s
        else
          let s := if 0 < (s.threads s.current).slice then
            s.modify s.current fun k => { k with slice := k.slice - 1 } else s
          if (s.threads s.current).slice = 0 then { s with needResched := true } else s

/-- Picking reads only the links. -/
theorem pickHighest_congr {s s' : Sys} (links : s'.links = s.links) :
    pickHighest s' = pickHighest s := by
  simp only [pickHighest, firstEntry, links]

@[simp] theorem Sys.modify_self (s : Sys) (t : Tid) (f : Kthread → Kthread) :
    (s.modify t f).threads t = f (s.threads t) := by simp [Sys.modify]

@[simp] theorem Sys.modify_of_ne (s : Sys) {t u : Tid} (f : Kthread → Kthread) (ne : u ≠ t) :
    (s.modify t f).threads u = s.threads u := by simp [Sys.modify, ne]

/-! ## The queues as lists -/

/-- The links hold the lists `queues`, which are the ready threads by priority. -/
structure RunQueues (s : Sys) (queues : Nat → List Tid) : Prop where
  family : s.links.Family (· < schedPrioMax) Node.queue fun p => (queues p).map Node.thread
  mem_iff : ∀ p t, t ∈ queues p ↔
    p < schedPrioMax ∧ s.allocated t = true ∧ (s.threads t).state = .ready ∧
      (s.threads t).prio = p
  alone : ∀ t, s.allocated t = true → (s.threads t).state ≠ .ready → s.links.Alone (.thread t)
  prio_lt : ∀ t, s.allocated t = true → (s.threads t).prio < schedPrioMax

namespace RunQueues

variable {s s' : Sys} {queues : Nat → List Tid}

theorem thread_outside {t : Tid} (absent : ∀ p, t ∉ queues p) (p : Nat) :
    Node.thread t ∉ Node.queue p :: (queues p).map Node.thread := by
  simpa using absent p

theorem not_mem_of_not_ready (rq : RunQueues s queues) {t : Tid}
    (idle_ : s.allocated t = true → (s.threads t).state ≠ .ready) (p : Nat) : t ∉ queues p :=
  fun member => have facts := (rq.mem_iff p t).1 member
    idle_ facts.2.1 facts.2.2.1

/-- The self-link test tells exactly the ready threads. -/
theorem queued_iff (rq : RunQueues s queues) {t : Tid} (alloc : s.allocated t = true) :
    queued s t = true ↔ (s.threads t).state = .ready := by
  rw [queued, bne_iff_ne]
  constructor
  · intro linked
    by_contra other
    exact linked (rq.alone t alloc other).1
  · intro ready
    have prio := rq.prio_lt t alloc
    have member : t ∈ queues (s.threads t).prio := (rq.mem_iff _ t).2 ⟨prio, alloc, ready, rfl⟩
    exact (rq.family.ring _ prio).not_alone (List.mem_map_of_mem member)

/-- The abstraction reads the links, the allocation map, states and priorities. -/
theorem congr (rq : RunQueues s queues) (links : s'.links = s.links)
    (allocated : s'.allocated = s.allocated)
    (state : ∀ t, s.allocated t = true →
      ((s'.threads t).state = .ready ↔ (s.threads t).state = .ready))
    (prio : ∀ t, s.allocated t = true → (s'.threads t).prio = (s.threads t).prio) :
    RunQueues s' queues where
  family := links ▸ rq.family
  mem_iff p t := by
    rw [rq.mem_iff, allocated]
    refine and_congr_right fun _ => and_congr_right fun alloc => ?_
    rw [state t alloc, prio t alloc]
  alone t alloc other := by
    rw [allocated] at alloc
    rw [links]
    exact rq.alone t alloc fun ready => other ((state t alloc).2 ready)
  prio_lt t alloc := by
    rw [allocated] at alloc
    rw [prio t alloc]
    exact rq.prio_lt t alloc

/-- A change to one thread that keeps its priority and whether it is ready. -/
theorem modify (rq : RunQueues s queues) (t : Tid) {f : Kthread → Kthread}
    (state : (f (s.threads t)).state = .ready ↔ (s.threads t).state = .ready)
    (prio : (f (s.threads t)).prio = (s.threads t).prio) : RunQueues (s.modify t f) queues := by
  refine rq.congr rfl rfl (fun u _ => ?_) fun u _ => ?_
  · by_cases here : u = t
    · subst here; simpa using state
    · simp [here]
  · by_cases here : u = t
    · subst here; simpa using prio
    · simp [here]

theorem update_map (queues : Nat → List Tid) (p : Nat) (l : List Tid) :
    Function.update (fun p => (queues p).map Node.thread) p (l.map Node.thread) =
      fun q => (Function.update queues p l q).map Node.thread := by
  funext q
  by_cases here : q = p
  · subst here; simp
  · simp [here]

/-- `sched_enqueue_ready` of a thread that is on no queue appends it to its own. -/
theorem enqueue (rq : RunQueues s queues) {t : Tid} (alloc : s.allocated t = true)
    (other : (s.threads t).state ≠ .ready) :
    RunQueues (schedEnqueueReady s t)
      (Function.update queues (s.threads t).prio (queues (s.threads t).prio ++ [t])) := by
  have prio := rq.prio_lt t alloc
  have absent : ∀ p, t ∉ queues p := rq.not_mem_of_not_ready fun _ => other
  have outside : ∀ p, p < schedPrioMax → Node.thread t ∉ Node.queue p :: (queues p).map Node.thread :=
    fun p _ => thread_outside absent p
  have notQueued : queued s t = false := by
    rw [← Bool.not_eq_true, rq.queued_iff alloc]
    exact other
  simp only [schedEnqueueReady, notQueued, Bool.false_eq_true, if_false, Sys.modify_self]
  refine ⟨?_, fun p u => ?_, fun u uAlloc uOther => ?_, fun u uAlloc => ?_⟩
  · have family := dlistAddTail_family rq.family prio outside
    rw [← List.map_singleton, ← List.map_append, update_map] at family
    exact family
  · by_cases hereU : u = t
    · subst hereU
      by_cases hereP : p = (s.threads u).prio
      · subst hereP
        simp [Sys.modify, prio, alloc]
      · simp [Sys.modify, hereP, absent p, Ne.symm hereP]
    · by_cases hereP : p = (s.threads t).prio
      · subst hereP
        simp [Sys.modify, hereU, rq.mem_iff]
      · simp [Sys.modify, hereP, hereU, rq.mem_iff]
  · have ne : u ≠ t := by
      rintro rfl
      simp [Sys.modify] at uOther
    simp only [Sys.modify, Function.update_of_ne ne] at uOther
    refine dlistAddTail_alone rq.family prio (outside _ prio) (rq.alone u uAlloc uOther)
      (thread_outside (rq.not_mem_of_not_ready fun _ => uOther) _) (by simpa using ne)
  · by_cases hereU : u = t
    · subst hereU
      simpa [Sys.modify] using prio
    · simpa [Sys.modify, hereU] using rq.prio_lt u uAlloc

/-- Unlinking a queued thread and making it something else than ready. -/
theorem dequeue (rq : RunQueues s queues) {t : Tid} {p : Nat} (member : t ∈ queues p)
    {f : Kthread → Kthread} (state : (f (s.threads t)).state ≠ .ready)
    (prioSame : (f (s.threads t)).prio = (s.threads t).prio) :
    RunQueues
      (Sys.modify { s with links := dlistInit (dlistDel s.links (.thread t)) (.thread t) } t f)
      (Function.update queues p ((queues p).erase t)) := by
  obtain ⟨prio, alloc, ready, rfl⟩ := (rq.mem_iff p t).1 member
  have nodeMember : Node.thread t ∈ (queues (s.threads t).prio).map Node.thread :=
    List.mem_map_of_mem member
  have self : (dlistDel s.links (.thread t)).Alone (.thread t) :=
    dlistDel_alone rq.family prio nodeMember (Or.inl rfl)
  have nodup : ∀ p, p < schedPrioMax → (queues p).Nodup := fun p hp =>
    (List.nodup_cons.1 (rq.family.ring p hp).nodup).2.of_map _
  rw [dlistInit_of_alone self]
  refine ⟨?_, fun p u => ?_, fun u uAlloc uOther => ?_, fun u uAlloc => ?_⟩
  · have family := dlistDel_family rq.family prio nodeMember
    rw [← List.map_erase (fun _ _ same => Node.thread.inj same), update_map] at family
    exact family
  · by_cases hereU : u = t
    · subst hereU
      have absent : u ∉ Function.update queues (s.threads u).prio
          ((queues (s.threads u).prio).erase u) p := by
        by_cases hereP : p = (s.threads u).prio
        · subst hereP
          simpa using (nodup _ prio).not_mem_erase
        · rw [Function.update_of_ne hereP, rq.mem_iff]
          exact fun facts => hereP facts.2.2.2.symm
      simp [Sys.modify, absent, state]
    · have same : u ∈ Function.update queues (s.threads t).prio
          ((queues (s.threads t).prio).erase t) p ↔ u ∈ queues p := by
        by_cases hereP : p = (s.threads t).prio
        · subst hereP
          simpa using List.mem_erase_of_ne hereU
        · rw [Function.update_of_ne hereP]
      rw [same, rq.mem_iff]
      simp [Sys.modify, hereU]
  · by_cases hereU : u = t
    · subst hereU
      exact self
    · simp only [Sys.modify, Function.update_of_ne hereU] at uOther
      exact dlistDel_alone rq.family prio nodeMember (Or.inr ⟨rq.alone u uAlloc uOther,
        thread_outside (rq.not_mem_of_not_ready fun _ => uOther) _⟩)
  · by_cases hereU : u = t
    · subst hereU
      simpa [Sys.modify, prioSame] using prio
    · simpa [Sys.modify, hereU] using rq.prio_lt u uAlloc

/-! ## Picking -/

theorem firstEntry_eq (rq : RunQueues s queues) {p : Nat} (hp : p < schedPrioMax) :
    (if dlistEmpty s.links (.queue p) then none else firstEntry s p) = (queues p).head? := by
  cases list : queues p with
  | nil => rw [if_pos ((dlistEmpty_iff rq.family hp).2 (by simp [list]))]; rfl
  | cons t rest =>
      have nonempty : ¬ dlistEmpty s.links (.queue p) = true := by
        rw [dlistEmpty_iff rq.family hp, list]
        simp
      have first : s.links.next (.queue p) = .thread t :=
        next_head_of_cons rq.family hp (l := rest.map Node.thread) (by simp [list])
      rw [if_neg nonempty, firstEntry, first]
      rfl

theorem pickHighest_eq (rq : RunQueues s queues) :
    pickHighest s = (List.range schedPrioMax).findSome? fun p => (queues p).head? := by
  unfold pickHighest
  have agree : ∀ l : List Nat, (∀ p ∈ l, p < schedPrioMax) →
      l.findSome? (fun p => if dlistEmpty s.links (.queue p) then none else firstEntry s p) =
        l.findSome? fun p => (queues p).head? := by
    intro l inRange
    induction l with
    | nil => rfl
    | cons p l ih =>
        rw [List.findSome?_cons, List.findSome?_cons, rq.firstEntry_eq (inRange p (by simp)),
          ih fun q hq => inRange q (by simp [hq])]
  exact agree _ fun p hp => List.mem_range.1 hp

/-- The picked thread is on a queue, and it is ready. -/
theorem pickHighest_mem (rq : RunQueues s queues) {t : Tid} (picked : pickHighest s = some t) :
    ∃ p, t ∈ queues p := by
  rw [rq.pickHighest_eq] at picked
  obtain ⟨p, -, head⟩ := List.exists_of_findSome?_eq_some picked
  exact ⟨p, List.mem_of_mem_head? head⟩

/-- With a ready thread some queue is not empty. -/
theorem pickHighest_isSome (rq : RunQueues s queues) {t : Tid} (alloc : s.allocated t = true)
    (ready : (s.threads t).state = .ready) : ∃ u, pickHighest s = some u := by
  have prio := rq.prio_lt t alloc
  have member : t ∈ queues (s.threads t).prio := (rq.mem_iff _ t).2 ⟨prio, alloc, ready, rfl⟩
  rw [← Option.ne_none_iff_exists', rq.pickHighest_eq]
  intro none_
  have head := List.findSome?_eq_none_iff.1 none_ _ (List.mem_range.2 prio)
  rw [List.head?_eq_none_iff] at head
  rw [head] at member
  simp at member

/-! ## Threads coming and going -/

/-- A new thread starts off every queue. -/
theorem create (rq : RunQueues s queues) {t : Tid} {k : Kthread} {prio : Nat}
    (unused : s.allocated t = false) (inRange : prio < schedPrioMax)
    (allocated : s'.allocated = Function.update s.allocated t true)
    (threads : s'.threads = Function.update s.threads t k)
    (prio_eq : k.prio = prio) (state : k.state ≠ .ready)
    (links : s'.links = dlistInit s.links (.thread t)) : RunQueues s' queues := by
  have absent : ∀ p, t ∉ queues p := rq.not_mem_of_not_ready fun alloc => by simp [unused] at alloc
  refine ⟨?_, fun p u => ?_, fun u alloc other => ?_, fun u alloc => ?_⟩
  · rw [links]
    exact dlistInit_family rq.family fun p _ => thread_outside absent p
  · rw [threads, allocated]
    by_cases here : u = t
    · subst here
      simp [absent p, state]
    · simp [here, rq.mem_iff]
  · rw [allocated] at alloc
    rw [threads] at other
    rw [links]
    by_cases here : u = t
    · subst here
      exact dlistInit_alone _ _
    · rw [Function.update_of_ne here] at alloc other
      have ne : Node.thread u ≠ Node.thread t := by simpa using here
      have was := rq.alone u alloc other
      exact ⟨(dlistInit_next_of_ne _ ne).trans was.1, (dlistInit_prev_of_ne _ ne).trans was.2⟩
  · rw [allocated] at alloc
    rw [threads]
    by_cases here : u = t
    · subst here
      simpa [prio_eq] using inRange
    · rw [Function.update_of_ne here] at alloc ⊢
      exact rq.prio_lt u alloc

/-- A thread that is on no queue can be given back. -/
theorem release (rq : RunQueues s queues) {t : Tid} (other : (s.threads t).state ≠ .ready)
    (links : s'.links = s.links) (threads : s'.threads = s.threads)
    (allocated : s'.allocated = Function.update s.allocated t false) : RunQueues s' queues := by
  have still : ∀ u, s'.allocated u = true → s.allocated u = true ∧ u ≠ t := by
    intro u alloc
    rw [allocated] at alloc
    by_cases here : u = t
    · subst here
      simp at alloc
    · rw [Function.update_of_ne here] at alloc
      exact ⟨alloc, here⟩
  refine ⟨links ▸ rq.family, fun p u => ?_, fun u alloc uOther => ?_, fun u alloc => ?_⟩
  · rw [rq.mem_iff, threads, allocated]
    by_cases here : u = t
    · subst here
      simp [other]
    · simp [here]
  · rw [threads] at uOther
    rw [links]
    exact rq.alone u (still u alloc).1 uOther
  · rw [threads]
    exact rq.prio_lt u (still u alloc).1

end RunQueues

end Minus.Core.Thread
