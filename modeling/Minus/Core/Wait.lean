/-
# Core.Wait — sleeping on a condition

`wait_event` and `wake_up` of `include/core/wait.h` over the threads of
`Core.Thread`, with interrupts.  One thread waits; its steps are those of the
macro, the check and all up to the switch with interrupts off.  The handler of the
device makes the condition true and then wakes; it may start wherever interrupts
are on, and nothing else runs until it is through.  The other threads do anything.

While the thread is blocked, the wait queue names it and the condition is false, or
the handler is still about to wake it (`Inv.sleeping`), so no wake-up is lost
(`no_lost_wakeup`).
-/
import Minus.Core.SchedPolicy

namespace Minus.Core.Wait

set_option autoImplicit false

open Minus.Theory Minus.Lib.Dlist Minus.Core.Cap Minus.Core.Thread

/-! ## wait.h -/

/-- Where the thread is in `wait_event`. -/
inductive WaitPc where
  | outside
  /-- At the top of the loop. -/
  | top
  /-- After `local_irq_disable`. -/
  | check
  /-- The condition was true. -/
  | clear
  | enable
  /-- The condition was false. -/
  | register
  | block
  | switch
  deriving DecidableEq

/-- Between `local_irq_disable` and `local_irq_enable`. -/
def WaitPc.irqsOff : WaitPc → Bool
  | .outside | .top => false
  | _ => true

/-- Where the handler of the device is. -/
inductive HandlerPc where
  | entered
  /-- Before `wake_up`. -/
  | raised
  /-- In `wake_up`, with the waiter it took. -/
  | taken (waiter : UInt64)
  | woken
  deriving DecidableEq

structure WaitSys where
  sys : Sys
  waiter : UInt64
  /-- `condition`. -/
  cond : Bool
  pc : WaitPc
  handler : Option HandlerPc
  /-- Ghost: the condition, at the last check. -/
  checked : Bool
  /-- Ghost: `checked` at each return of `wait_event`. -/
  returns : List Bool

/-- One step of `wait_event`. -/
def waitEventStep (s : WaitSys) : WaitSys :=
  match s.pc with
  | .outside => s
  | .top => { s with pc := .check }
  | .check => { s with checked := s.cond, pc := if s.cond then .clear else .register }
  | .clear => { s with waiter := capNull, pc := .enable }
  | .enable => { s with pc := .outside, returns := s.returns ++ [s.checked] }
  | .register => { s with waiter := (s.sys.threads s.sys.current).cap, pc := .block }
  | .block => { s with sys := threadBlockCurrent s.sys, pc := .switch }
  | .switch => { s with sys := schedule s.sys, pc := .top }

/-- One step of the handler; `data` tells whether the device has something. -/
def handlerStep (s : WaitSys) (data : Bool) : WaitSys :=
  match s.handler with
  | none => s
  | some .entered => { s with cond := s.cond || data, handler := some .raised }
  | some .raised => { s with waiter := capNull, handler := some (.taken s.waiter) }
  | some (.taken t) => { s with sys := if t ≠ capNull then threadWake s.sys t else s.sys, handler := some .woken }
  | some .woken => { s with handler := none }

inductive WaitOp where
  /-- The thread calls `wait_event`. -/
  | enter
  | wait
  /-- Any operation of a thread, or of another interrupt. -/
  | thread (op : ThreadOp)
  | interrupt
  | handler (data : Bool)
  /-- The condition becomes false: the data has been taken. -/
  | consume

/-- What happens in interrupts: the timer, other wake-ups, and the switch on the way out. -/
def InInterrupt : ThreadOp → Prop
  | .tick | .wake _ | .scheduleIfNeeded => True
  | _ => False

/-- `w` is the thread that waits. -/
def waitEnabled (w : Tid) (s : WaitSys) : WaitOp → Prop
  | .enter => s.handler = none ∧ s.pc = .outside ∧ s.sys.current = w ∧ w ≠ idle
  | .wait => s.handler = none ∧ s.pc ≠ .outside ∧ s.sys.current = w
  | .thread op =>
      s.handler = none ∧ s.pc.irqsOff = false ∧ threadEnabled s.sys op ∧
        (s.sys.current = w → s.pc = .outside ∨ InInterrupt op)
  | .interrupt => s.handler = none ∧ s.pc.irqsOff = false
  | .handler _ => s.handler ≠ none
  | .consume => s.handler = none

def waitStep (s : WaitSys) : WaitOp → WaitSys
  | .enter => { s with pc := .top }
  | .wait => waitEventStep s
  | .thread op => { s with sys := threadStep s.sys op }
  | .interrupt => { s with handler := some .entered }
  | .handler data => handlerStep s data
  | .consume => { s with cond := false }

def waitMachine (w : Tid) : Machine WaitSys WaitOp where
  enabled := waitEnabled w
  step := waitStep

instance (op : ThreadOp) : Decidable (InInterrupt op) :=
  match op with
  | .tick | .wake _ | .scheduleIfNeeded => isTrue trivial
  | .create .. | .schedule | .block | .exit | .replace _ => isFalse id

instance (w : Tid) (s : WaitSys) (op : WaitOp) : Decidable ((waitMachine w).enabled s op) :=
  match op with
  | .enter => inferInstanceAs (Decidable (_ ∧ _))
  | .wait => inferInstanceAs (Decidable (_ ∧ _))
  | .thread op => inferInstanceAs (Decidable (s.handler = none ∧ s.pc.irqsOff = false ∧ threadEnabled s.sys op ∧
      (s.sys.current = w → s.pc = .outside ∨ InInterrupt op)))
  | .interrupt => inferInstanceAs (Decidable (_ ∧ _))
  | .handler _ => inferInstanceAs (Decidable (s.handler ≠ none))
  | .consume => inferInstanceAs (Decidable (s.handler = none))

/-- `DECLARE_WAIT_QUEUE_HEAD`, at boot. -/
def WaitSys.boot (links : Links Node) (notify cond : Bool) : WaitSys :=
  ⟨Sys.boot links notify, capNull, cond, .outside, none, false, []⟩

/-! ## A thread's own cap -/

/-- The cap of every thread but the idle one resolves to it. -/
def Named (s : Sys) : Prop :=
  ∀ t, s.allocated t = true → t ≠ idle → capResolve s.caps (s.threads t).cap capRCtl = some t

section Caps

variable {s s' : Sys} {t : Tid} {op : ThreadOp} {caps : CapState Tid} {live : List (Live Tid)} {cap required : UInt64}

/-- A token that resolves is live. -/
theorem live_of_resolve (inv : CapInv caps live) (resolved : capResolve caps cap required = some t) :
    ∃ l ∈ live, l.token = cap ∧ l.obj = t ∧ RightsSubset required l.rights := by
  by_cases there : ∃ l ∈ live, l.token = cap
  · obtain ⟨l, member, rfl⟩ := there
    by_cases granted : RightsSubset required l.rights
    · rw [(inv.resolve_live member required).1 granted] at resolved
      exact ⟨l, member, rfl, Option.some.inj resolved, granted⟩
    · rw [(inv.resolve_live member required).2 granted] at resolved
      cases resolved
  · rw [inv.resolve_not_live fun l member same => there ⟨l, member, same⟩] at resolved
    cases resolved

theorem Named.congr (named : Named s) (caps : s'.caps = s.caps) (allocated : s'.allocated = s.allocated)
    (cap : ∀ t, (s'.threads t).cap = (s.threads t).cap) : Named s' := by
  intro t alloc other
  rw [caps, cap]
  exact named t (allocated ▸ alloc) other

/-- `cap_free` of another token leaves a token as it was. -/
theorem resolve_free (inv : CapInv caps live) {other : UInt64} (ne : other ≠ cap)
    (resolved : capResolve caps cap required = some t) : capResolve (capFree caps other) cap required = some t := by
  obtain ⟨l, member, rfl, rfl, granted⟩ := live_of_resolve inv resolved
  have freed := capStep_inv ⟨caps, live⟩ (.free other) inv
  have kept : l ∈ live.filter fun l => l.token != other :=
    List.mem_filter.2 ⟨member, by simpa using ne.symm⟩
  exact (freed.resolve_live kept required).1 granted

/-- So does `cap_alloc`. -/
theorem resolve_alloc (inv : CapInv caps live) (obj : Option Tid) (rights : UInt64)
    (resolved : capResolve caps cap required = some t) :
    capResolve (capAlloc caps obj rights).1 cap required = some t := by
  obtain ⟨l, member, rfl, rfl, granted⟩ := live_of_resolve inv resolved
  have after := capStep_inv ⟨caps, live⟩ (.alloc obj rights) inv
  have kept : l ∈ recordLive live (capAlloc caps obj rights).2 obj rights := by
    cases obj with
    | none => exact member
    | some o =>
        rw [recordLive]
        split
        · exact member
        · exact List.mem_cons_of_mem _ member
  exact (after.resolve_live kept required).1 granted

/-- The new token resolves to its object. -/
theorem resolve_new (inv : CapInv caps live) {obj : Tid} {rights : UInt64} (granted : RightsSubset required rights)
    (some_ : (capAlloc caps (some obj) rights).2 ≠ capNull) :
    capResolve (capAlloc caps (some obj) rights).1 (capAlloc caps (some obj) rights).2 required = some obj := by
  have after := capStep_inv ⟨caps, live⟩ (.alloc (some obj) rights) inv
  have new : (⟨(capAlloc caps (some obj) rights).2, obj, rights⟩ : Live Tid) ∈
      recordLive live (capAlloc caps (some obj) rights).2 (some obj) rights := by
    rw [recordLive, if_neg some_]
    exact List.mem_cons_self
  exact (after.resolve_live new required).1 granted

theorem Named.threadFree (named : Named s) (core : CoreInv s) (alloc : s.allocated t = true) (other : t ≠ idle) :
    Named (threadFree s t) := by
  obtain ⟨live, inv, -⟩ := core.caps
  intro u uAlloc uOther
  have ne : u ≠ t := by
    rintro rfl
    simp [Thread.threadFree, Sys.log] at uAlloc
  have was : s.allocated u = true := by simpa [Thread.threadFree, Sys.log, ne] using uAlloc
  have own := named u was uOther
  have apart : (s.threads t).cap ≠ (s.threads u).cap := fun same => by
    have same' := named t alloc other
    rw [same, own] at same'
    exact ne (Option.some.inj same')
  show capResolve (if (s.threads t).cap ≠ capNull then capFree s.caps (s.threads t).cap else s.caps) _ _ = _
  split
  · exact resolve_free inv apart own
  · exact own

theorem Named.threadCreate (named : Named s) (core : CoreInv s) {args : ThreadCreateArgs} {mem stack : Option Nat} :
    Named (threadCreate s args mem stack).1 := by
  obtain ⟨live, inv, -⟩ := core.caps
  cases mem with
  | none => exact named
  | some t =>
      cases stack with
      | none => exact named
      | some page =>
          simp only [Thread.threadCreate]
          split
          · exact fun u alloc other => resolve_alloc inv _ _ (named u alloc other)
          · rename_i some_
            intro u alloc other
            by_cases here : u = t
            · subst here
              simpa [schedEntityInit, Sys.modify] using resolve_new inv ((rightsSubset_iff _ _).2 (by decide)) some_
            · have was : s.allocated u = true := by simpa [schedEntityInit, Sys.modify, here] using alloc
              simpa [schedEntityInit, Sys.modify, here] using resolve_alloc inv _ _ (named u was other)

theorem exitNotify_caps (s : Sys) (k : Kthread) :
    (exitNotify s k).allocated = s.allocated ∧ (exitNotify s k).caps = s.caps := by
  rw [exitNotify]
  split <;> exact ⟨rfl, rfl⟩

theorem Named.finishSwitch (named : Named s) (inv : ThreadInv s) (alloc : s.allocated t = true)
    (other : t ≠ s.current) : Named (finishSwitch s (some t)) := by
  simp only [Thread.finishSwitch]
  split
  · rename_i dead
    have logged := (inv.log (.finished (s.threads t).serial)).exitNotify (s.threads t)
    have same := exitNotify_caps
    have notIdle : t ≠ idle := by
      rintro rfl
      change (s.threads idle).state = .dead at dead
      rcases inv.idle_state with ready | running
      · rw [ready] at dead
        cases dead
      · rw [running] at dead
        cases dead
    refine Named.threadFree (named.congr (same _ _).2 (same _ _).1 fun u => ?_) logged.toCoreInv ?_ notIdle
    · rw [(exitNotify_same _ _).1]
      rfl
    · rw [(same _ _).1]
      exact alloc
  · exact named

/-- Caps along a switch. -/
theorem Named.switchAway (named : Named s) (core : CoreInv s) : Named (switchAway s) := by
  obtain ⟨next, links, queues, alloc, -, rq, cases_⟩ := switchAway_cases core
  have handed : Named (handOver s next links) := by
    refine named.congr rfl rfl fun t => ?_
    rw [handOver_threads, ← (pickedThreads_same s next t).2.1]
    split <;> rfl
  rcases cases_ with ⟨-, eq⟩ | ⟨-, -, eq⟩ | ⟨ne, -, eq⟩
  · rw [eq]
    exact named.congr rfl rfl fun t => (pickedThreads_same s next t).2.1
  · rw [eq]
    exact handed
  · rw [eq]
    exact handed.finishSwitch (core.handOver alloc rq) core.current_alloc ne.symm

theorem schedEnqueueReady_caps (s : Sys) (t u : Tid) :
    (schedEnqueueReady s t).caps = s.caps ∧ (schedEnqueueReady s t).allocated = s.allocated ∧
      ((schedEnqueueReady s t).threads u).cap = (s.threads u).cap ∧
      (((schedEnqueueReady s t).threads u).state = (s.threads u).state ∨
        ((schedEnqueueReady s t).threads u).state = .ready) := by
  rw [schedEnqueueReady]
  split
  · exact ⟨rfl, rfl, rfl, .inl rfl⟩
  · by_cases here : u = t
    · subst here
      simp [Sys.modify]
    · simp [Sys.modify, here]

theorem enqueueReplacement_same (s : Sys) (replacement : UInt64) (u : Tid) :
    (enqueueReplacement s replacement).caps = s.caps ∧ (enqueueReplacement s replacement).allocated = s.allocated ∧
      (enqueueReplacement s replacement).current = s.current ∧
      ((enqueueReplacement s replacement).threads u).cap = (s.threads u).cap ∧
      (((enqueueReplacement s replacement).threads u).state = (s.threads u).state ∨
        ((enqueueReplacement s replacement).threads u).state = .ready) := by
  have refl : s.caps = s.caps ∧ s.allocated = s.allocated ∧ s.current = s.current ∧
      (s.threads u).cap = (s.threads u).cap ∧
        ((s.threads u).state = (s.threads u).state ∨ (s.threads u).state = .ready) := ⟨rfl, rfl, rfl, rfl, .inl rfl⟩
  rw [enqueueReplacement]
  split
  · split
    · rename_i rep _
      have current : (schedEnqueueReady s rep).current = s.current := by
        rw [schedEnqueueReady]
        split <;> rfl
      obtain ⟨caps, allocated, cap, state⟩ := schedEnqueueReady_caps s rep u
      exact ⟨caps, allocated, current, cap, state⟩
    · exact refl
  · exact refl

theorem schedMarkDead_same (s : Sys) (t u : Tid) :
    (schedMarkDead s t).caps = s.caps ∧ (schedMarkDead s t).allocated = s.allocated ∧
      ((schedMarkDead s t).threads u).cap = (s.threads u).cap ∧
      (u ≠ t → ((schedMarkDead s t).threads u).state = (s.threads u).state) := by
  have modified : ∀ s : Sys, ((s.modify t fun k => { k with state := .dead }).threads u).cap = (s.threads u).cap ∧
      (u ≠ t → ((s.modify t fun k => { k with state := .dead }).threads u).state = (s.threads u).state) := by
    intro s
    by_cases here : u = t
    · subst here
      simp
    · simp [here]
  rw [schedMarkDead]
  split
  · exact ⟨rfl, rfl, modified _⟩
  · exact ⟨rfl, rfl, modified _⟩

theorem threadTick_same (s : Sys) (u : Tid) :
    (threadTick s).caps = s.caps ∧ (threadTick s).allocated = s.allocated ∧
      ((threadTick s).threads u).cap = (s.threads u).cap ∧ ((threadTick s).threads u).state = (s.threads u).state := by
  have charged : ∀ f : Kthread → Kthread, (∀ k, (f k).cap = k.cap ∧ (f k).state = k.state) →
      ((s.modify s.current f).threads u).cap = (s.threads u).cap ∧
        ((s.modify s.current f).threads u).state = (s.threads u).state := by
    intro f same
    by_cases here : u = s.current
    · subst here
      simpa using same _
    · simp [here]
  rw [threadTick, schedTick]
  split
  · exact ⟨rfl, rfl, rfl, rfl⟩
  · split
    · exact ⟨rfl, rfl, rfl, rfl⟩
    · split
      · exact ⟨rfl, rfl, rfl, rfl⟩
      · by_cases slice : 0 < (s.threads s.current).slice
        · have same := charged (fun k => { k with slice := k.slice - 1 }) fun _ => ⟨rfl, rfl⟩
          simp only [slice, if_true]
          split
          · exact ⟨rfl, rfl, same⟩
          · exact ⟨rfl, rfl, same⟩
        · simp only [slice, if_false]
          split <;> exact ⟨rfl, rfl, rfl, rfl⟩

theorem threadWake_same (s : Sys) (cap : UInt64) (u : Tid) :
    (threadWake s cap).caps = s.caps ∧ (threadWake s cap).allocated = s.allocated ∧
      ((threadWake s cap).threads u).cap = (s.threads u).cap ∧
      (((threadWake s cap).threads u).state = (s.threads u).state ∨ ((threadWake s cap).threads u).state = .ready) := by
  rw [threadWake]
  split
  · rw [schedWake]
    split
    · exact ⟨rfl, rfl, rfl, .inl rfl⟩
    · exact schedEnqueueReady_caps s _ u
  · exact ⟨rfl, rfl, rfl, .inl rfl⟩

end Caps

/-! ## A thread that others leave alone -/

/-- The thread is still there under its cap, and nobody has blocked it. -/
structure Undisturbed (w : Tid) (s s' : Sys) : Prop where
  alloc : s'.allocated w = true
  cap : (s'.threads w).cap = (s.threads w).cap
  alive : (s'.threads w).state ≠ .dead
  blocked : (s'.threads w).state = .blocked → (s.threads w).state = .blocked

section Others

variable {s s' s'' x : Sys} {w : Tid} {op : ThreadOp}

theorem Undisturbed.trans (first : Undisturbed w s s') (second : Undisturbed w s' s'') : Undisturbed w s s'' :=
  ⟨second.alloc, second.cap.trans first.cap, second.alive, fun blocked => first.blocked (second.blocked blocked)⟩

/-- A thread whose state stays the same, or that becomes ready or runs. -/
theorem Undisturbed.of_state (alloc : s.allocated w = true) (alive : (s.threads w).state ≠ .dead)
    (allocated : s'.allocated w = s.allocated w) (cap : (s'.threads w).cap = (s.threads w).cap)
    (state : (s'.threads w).state = (s.threads w).state ∨ (s'.threads w).state = .ready ∨
      (s'.threads w).state = .running) : Undisturbed w s s' := by
  refine ⟨allocated.trans alloc, cap, ?_, fun blocked => ?_⟩
  · rcases state with same | ready | running
    · rw [same]
      exact alive
    · simp [ready]
    · simp [running]
  · rcases state with same | ready | running
    · rw [← same]
      exact blocked
    · simp [ready] at blocked
    · simp [running] at blocked

theorem pickedThreads_state (s : Sys) (next w : Tid) :
    (pickedThreads s next w).state = (s.threads w).state ∨ (pickedThreads s next w).state = .ready ∨
      (pickedThreads s next w).state = .running := by
  by_cases picked : w = next
  · subst picked
    simp
  · rw [pickedThreads_of_ne picked]
    by_cases here : w = s.current
    · subst here
      rw [requeuedThreads_current]
      split <;> simp
    · simp [requeuedThreads_of_ne here]

/-- A switch frees only dead threads, and blocks none. -/
theorem switchAway_undisturbed (core : CoreInv s) (alloc : s.allocated w = true)
    (alive : (s.threads w).state ≠ .dead) : Undisturbed w s (switchAway s) := by
  obtain ⟨next, links, queues, -, -, -, cases_⟩ := switchAway_cases core
  have picked : ∀ links, Undisturbed w s (pickedState s next links) := fun links =>
    .of_state alloc alive rfl (pickedThreads_same s next w).2.1 (pickedThreads_state s next w)
  have handed : Undisturbed w s (handOver s next links) := by
    have threads := handOver_threads s next links w
    refine .of_state alloc alive rfl ?_ ?_
    · rw [threads, ← (pickedThreads_same s next w).2.1]
      split <;> rfl
    · rw [threads]
      split <;> exact pickedThreads_state s next w
  rcases cases_ with ⟨-, eq⟩ | ⟨-, -, eq⟩ | ⟨-, -, eq⟩
  · rw [eq]
    exact picked links
  · rw [eq]
    exact handed
  · rw [eq, finishSwitch]
    split
    · -- the predecessor is dead, so it is another thread
      rename_i dead
      have ne : w ≠ s.current := by
        rintro rfl
        exact handed.alive dead
      refine handed.trans (.of_state handed.alloc handed.alive ?_ ?_ ?_)
      · show Function.update (exitNotify _ _).allocated _ _ _ = _
        rw [Function.update_of_ne ne, (exitNotify_caps _ _).1]
        rfl
      · show ((exitNotify _ _).threads w).cap = _
        rw [(exitNotify_same _ _).1]
        rfl
      · show ((exitNotify _ _).threads w).state = _ ∨ _
        rw [(exitNotify_same _ _).1]
        exact .inl rfl
    · exact ⟨handed.alloc, handed.cap, handed.alive, handed.blocked⟩

theorem markedDead_same (s : Sys) (replacement : UInt64) (u : Tid) :
    (markedDead s replacement).caps = s.caps ∧ (markedDead s replacement).allocated = s.allocated ∧
      ((markedDead s replacement).threads u).cap = (s.threads u).cap ∧
      (u ≠ s.current → ((markedDead s replacement).threads u).state = (s.threads u).state ∨
        ((markedDead s replacement).threads u).state = .ready) := by
  obtain ⟨caps, allocated, current, cap, state⟩ := enqueueReplacement_same s replacement u
  have marked := schedMarkDead_same (enqueueReplacement s replacement) (enqueueReplacement s replacement).current u
  refine ⟨marked.1.trans caps, marked.2.1.trans allocated, marked.2.2.1.trans cap, fun ne => ?_⟩
  rw [markedDead, marked.2.2.2 (current ▸ ne)]
  exact state

/-- Before the pick no cap changes. -/
theorem pickState_same (there : pickState s op = some x) :
    x.caps = s.caps ∧ x.allocated = s.allocated ∧ ∀ t, (x.threads t).cap = (s.threads t).cap := by
  have dead : ∀ replacement, (markedDead s replacement).caps = s.caps ∧
      (markedDead s replacement).allocated = s.allocated ∧
        ∀ t, ((markedDead s replacement).threads t).cap = (s.threads t).cap := fun replacement =>
    ⟨(markedDead_same s replacement idle).1, (markedDead_same s replacement idle).2.1, fun t =>
      (markedDead_same s replacement t).2.2.1⟩
  cases op with
  | create | wake | tick => cases there
  | schedule =>
      cases there
      exact ⟨rfl, rfl, fun _ => rfl⟩
  | scheduleIfNeeded =>
      simp only [pickState] at there
      split at there
      · cases there
        exact ⟨rfl, rfl, fun _ => rfl⟩
      · cases there
  | block =>
      cases there
      refine ⟨rfl, rfl, fun t => ?_⟩
      by_cases here : t = s.current
      · subst here
        simp [threadBlockCurrent]
      · simp [threadBlockCurrent, here]
  | exit =>
      cases there
      exact dead capNull
  | replace replacement =>
      cases there
      exact dead replacement

/-- The state in which another thread's operation, or an interrupt, picks. -/
theorem pickState_undisturbed (alloc : s.allocated w = true) (alive : (s.threads w).state ≠ .dead)
    (other : s.current = w → InInterrupt op) (there : pickState s op = some x) : Undisturbed w s x := by
  obtain ⟨-, allocated, cap⟩ := pickState_same there
  refine .of_state alloc alive (congrFun allocated w) (cap w) ?_
  cases op with
  | create | wake | tick => cases there
  | schedule =>
      cases there
      exact .inl rfl
  | scheduleIfNeeded =>
      simp only [pickState] at there
      split at there
      · cases there
        exact .inl rfl
      · cases there
  | block =>
      cases there
      have ne : w ≠ s.current := fun same => other same.symm
      exact .inl (by simp [threadBlockCurrent, ne])
  | exit =>
      cases there
      exact ((markedDead_same s capNull w).2.2.2 fun same => other same.symm).imp_right .inl
  | replace replacement =>
      cases there
      exact ((markedDead_same s replacement w).2.2.2 fun same => other same.symm).imp_right .inl

/-- **What other threads and interrupts do to a thread.** -/
theorem threadStep_undisturbed (inv : ThreadInv s) (enabled : threadEnabled s op) (alloc : s.allocated w = true)
    (alive : (s.threads w).state ≠ .dead) (other : s.current = w → InInterrupt op) :
    Undisturbed w s (threadStep s op) := by
  have refl : Undisturbed w s s := .of_state alloc alive rfl rfl (.inl rfl)
  cases there : pickState s op with
  | some x =>
      obtain ⟨queues, rq⟩ := inv.queues
      have core := (pickState_queues inv enabled rq there).1
      have before := pickState_undisturbed alloc alive other there
      rw [threadStep_pick there]
      exact before.trans (switchAway_undisturbed core before.alloc before.alive)
  | none =>
      cases op with
      | create args mem stack =>
          cases mem with
          | none => exact refl
          | some t =>
              cases stack with
              | none => exact refl
              | some page =>
                  have ne : w ≠ t := by
                    rintro rfl
                    rw [enabled.2 w rfl] at alloc
                    cases alloc
                  simp only [threadStep, threadCreate]
                  split
                  · exact .of_state alloc alive rfl rfl (.inl rfl)
                  · exact .of_state alloc alive (by simp [schedEntityInit, Sys.modify, ne])
                      (by simp [schedEntityInit, Sys.modify, ne]) (.inl (by simp [schedEntityInit, Sys.modify, ne]))
      | wake cap =>
          obtain ⟨-, allocated, same, state⟩ := threadWake_same s cap w
          exact .of_state alloc alive (congrFun allocated w) same (state.imp_right .inl)
      | tick =>
          obtain ⟨-, allocated, same, state⟩ := threadTick_same s w
          exact .of_state alloc alive (congrFun allocated w) same (.inl state)
      | scheduleIfNeeded =>
          simp only [pickState] at there
          split at there
          · cases there
          · simp [threadStep, scheduleIfNeeded, *]
      | schedule | block | exit | replace => cases there

theorem threadStep_named (named : Named s) (inv : ThreadInv s) (enabled : threadEnabled s op) :
    Named (threadStep s op) := by
  cases there : pickState s op with
  | some x =>
      obtain ⟨queues, rq⟩ := inv.queues
      have core := (pickState_queues inv enabled rq there).1
      rw [threadStep_pick there]
      obtain ⟨caps, allocated, cap⟩ := pickState_same there
      exact (named.congr caps allocated cap).switchAway core
  | none =>
      cases op with
      | create args mem stack => exact named.threadCreate inv.toCoreInv
      | wake cap =>
          exact named.congr (threadWake_same s cap idle).1 (threadWake_same s cap idle).2.1 fun t =>
            (threadWake_same s cap t).2.2.1
      | tick =>
          exact named.congr (threadTick_same s idle).1 (threadTick_same s idle).2.1 fun t => (threadTick_same s t).2.2.1
      | scheduleIfNeeded =>
          simp only [pickState] at there
          split at there
          · cases there
          · simp [threadStep, scheduleIfNeeded, *]
      | schedule | block | exit | replace => cases there

end Others

/-! ## The protocol -/

/-- What a blocked thread can rely on: it will be woken by the handler that makes the condition true. -/
def Armed (w : Tid) (s : WaitSys) : Prop :=
  match s.handler with
  | none | some .entered => s.cond = false ∧ s.waiter = (s.sys.threads w).cap
  | some .raised => s.waiter = (s.sys.threads w).cap
  | some (.taken t) => t = (s.sys.threads w).cap
  | some .woken => False

structure Inv (w : Tid) (s : WaitSys) : Prop where
  core : CoreInv s.sys
  between : s.pc ≠ .switch → ThreadInv s.sys
  named : Named s.sys
  off : s.pc.irqsOff = true → s.handler = none ∧ s.sys.current = w
  here : s.pc ≠ .outside → w ≠ idle ∧ s.sys.allocated w = true ∧ (s.sys.threads w).state ≠ .dead
  found : s.pc = .clear ∨ s.pc = .enable → s.checked = true
  missing : s.pc = .register ∨ s.pc = .block ∨ s.pc = .switch → s.cond = false
  registered : s.pc = .block ∨ s.pc = .switch → s.waiter = (s.sys.threads w).cap
  sleeping : s.pc = .top → (s.sys.threads w).state = .blocked → Armed w s
  returns : ∀ c ∈ s.returns, c = true

section Protocol

variable {w : Tid} {s : WaitSys} {op : WaitOp}

theorem running_of_current {s : Sys} (inv : ThreadInv s) (current : s.current = w) (other : w ≠ idle) :
    (s.threads w).state = .running :=
  current ▸ inv.picked fun zero => other (current ▸ (inv.unpicked zero).1)

/-- A step with interrupts off that leaves the threads alone. -/
theorem Inv.window (inv : Inv w s) (handler : s.handler = none) (current : s.sys.current = w) (inside : s.pc ≠ .outside)
    (before : s.pc ≠ .switch) {waiter : UInt64} {checked : Bool} {pc : WaitPc} (irqs : pc.irqsOff = true)
    (after : pc ≠ .switch) (found : pc = .clear ∨ pc = .enable → checked = true)
    (missing : pc = .register ∨ pc = .block → s.cond = false)
    (registered : pc = .block → waiter = (s.sys.threads w).cap) :
    Inv w { s with waiter := waiter, checked := checked, pc := pc } where
  core := inv.core
  between _ := inv.between before
  named := inv.named
  off _ := ⟨handler, current⟩
  here _ := inv.here inside
  found := found
  missing := by
    rintro (register | block | switch)
    · exact missing (.inl register)
    · exact missing (.inr block)
    · exact absurd switch after
  registered := by
    rintro (block | switch)
    · exact registered block
    · exact absurd switch after
  sleeping top := by
    change pc = .top at top
    rw [top] at irqs
    cases irqs
  returns := inv.returns

/-- `thread_block_current`, with interrupts off. -/
theorem Inv.block (inv : Inv w s) (handler : s.handler = none) (current : s.sys.current = w) (pc : s.pc = .block) :
    Inv w { s with sys := threadBlockCurrent s.sys, pc := .switch } := by
  have between := inv.between (by simp [pc])
  obtain ⟨other, alloc, -⟩ := inv.here (by simp [pc])
  have cap : ∀ t, ((threadBlockCurrent s.sys).threads t).cap = (s.sys.threads t).cap := by
    intro t
    by_cases here : t = s.sys.current
    · subst here
      simp [threadBlockCurrent]
    · simp [threadBlockCurrent, here]
  exact {
    core := CoreInv.blockCurrent between (current ▸ other)
    between := fun switch => absurd rfl switch
    named := inv.named.congr rfl rfl cap
    off := fun _ => ⟨handler, current⟩
    here := fun _ => ⟨other, alloc, by simp [threadBlockCurrent, current]⟩
    found := by simp
    missing := fun _ => inv.missing (by simp [pc])
    registered := fun _ => (inv.registered (by simp [pc])).trans (cap w).symm
    sleeping := by simp
    returns := inv.returns }

/-- The switch, after which the thread sleeps. -/
theorem Inv.switch (inv : Inv w s) (handler : s.handler = none) (pc : s.pc = .switch) :
    Inv w { s with sys := schedule s.sys, pc := .top } := by
  obtain ⟨other, alloc, alive⟩ := inv.here (by simp [pc])
  have kept := switchAway_undisturbed inv.core alloc alive
  have between : ThreadInv (schedule s.sys) := inv.core.switchAway
  exact {
    core := between.toCoreInv
    between := fun _ => between
    named := inv.named.switchAway inv.core
    off := by simp [WaitPc.irqsOff]
    here := fun _ => ⟨other, kept.alloc, kept.alive⟩
    found := by simp
    missing := by simp
    registered := by simp
    sleeping := fun _ _ => by
      simp only [Armed, handler]
      exact ⟨inv.missing (by simp [pc]), (inv.registered (by simp [pc])).trans kept.cap.symm⟩
    returns := inv.returns }

/-- `wait_event` returns. -/
theorem Inv.leave (inv : Inv w s) (pc : s.pc = .enable) :
    Inv w { s with pc := .outside, returns := s.returns ++ [s.checked] } where
  core := inv.core
  between _ := inv.between (by simp [pc])
  named := inv.named
  off := by simp [WaitPc.irqsOff]
  here := by simp
  found := by simp
  missing := by simp
  registered := by simp
  sleeping := by simp
  returns c member := by
    rcases List.mem_append.1 member with member | member
    · exact inv.returns c member
    · rw [List.mem_singleton.1 member]
      exact inv.found (by simp [pc])

/-- **One step of `wait_event`.** -/
theorem Inv.waitEvent (inv : Inv w s) (handler : s.handler = none) (current : s.sys.current = w) :
    Inv w (waitEventStep s) := by
  cases pc : s.pc with
  | outside =>
      rw [waitEventStep, pc]
      exact inv
  | top =>
      rw [waitEventStep, pc]
      exact inv.window handler current (by simp [pc]) (by simp [pc]) rfl (by simp) (by simp) (by simp) (by simp)
  | check =>
      rw [waitEventStep, pc]
      dsimp only
      cases cond : s.cond with
      | true =>
          have step : Inv w { s with waiter := s.waiter, checked := true, pc := .clear } :=
            inv.window handler current (by simp [pc]) (by simp [pc]) rfl (by simp) (by simp) (by simp) (by simp)
          rw [cond] at step
          exact step
      | false =>
          have step : Inv w { s with waiter := s.waiter, checked := false, pc := .register } :=
            inv.window handler current (by simp [pc]) (by simp [pc]) rfl (by simp) (by simp) (fun _ => cond) (by simp)
          rw [cond] at step
          exact step
  | clear =>
      rw [waitEventStep, pc]
      exact inv.window handler current (by simp [pc]) (by simp [pc]) rfl (by simp)
        (fun _ => inv.found (by simp [pc])) (by simp) (by simp)
  | enable =>
      rw [waitEventStep, pc]
      exact inv.leave pc
  | register =>
      rw [waitEventStep, pc]
      exact inv.window handler current (by simp [pc]) (by simp [pc]) rfl (by simp) (by simp)
        (fun _ => inv.missing (by simp [pc])) fun _ => by rw [current]
  | block =>
      rw [waitEventStep, pc]
      exact inv.block handler current pc
  | switch =>
      rw [waitEventStep, pc]
      exact inv.switch handler pc

/-- With interrupts on the thread is outside, or at the top of the loop. -/
theorem outside_or_top {pc : WaitPc} (on : pc.irqsOff = false) : pc = .outside ∨ pc = .top := by
  cases pc with
  | outside => exact .inl rfl
  | top => exact .inr rfl
  | check | clear | enable | register | block | switch => cases on

theorem Inv.on_of_handler (inv : Inv w s) (handler : s.handler ≠ none) : s.pc.irqsOff = false := by
  by_contra off
  exact handler (inv.off (by simpa using off)).1

/-- What holds with interrupts on: a step may change the threads, the queue, the
condition and the handler as long as the waiting thread is undisturbed. -/
theorem Inv.outsideWindow (inv : Inv w s) {s' : WaitSys} (on : s.pc.irqsOff = false) (pc : s'.pc = s.pc)
    (core : ThreadInv s'.sys) (named : Named s'.sys)
    (here : s.pc = .top → s'.sys.allocated w = true ∧ (s'.sys.threads w).state ≠ .dead)
    (sleeping : s.pc = .top → (s'.sys.threads w).state = .blocked → Armed w s') (returns : s'.returns = s.returns) :
    Inv w s' := by
  have place := outside_or_top on
  have notIn : s.pc ≠ .clear ∧ s.pc ≠ .enable ∧ s.pc ≠ .register ∧ s.pc ≠ .block ∧ s.pc ≠ .switch := by
    rcases place with eq | eq <;> simp [eq]
  exact {
    core := core.toCoreInv
    between := fun _ => core
    named := named
    off := fun off => by
      rw [pc, on] at off
      cases off
    here := fun inside => by
      rw [pc] at inside
      exact ⟨(inv.here inside).1, here (place.resolve_left inside)⟩
    found := fun at_ => by
      rw [pc] at at_
      exact absurd at_ (by simp [notIn])
    missing := fun at_ => by
      rw [pc] at at_
      exact absurd at_ (by simp [notIn])
    registered := fun at_ => by
      rw [pc] at at_
      exact absurd at_ (by simp [notIn])
    sleeping := fun top => sleeping (pc ▸ top)
    returns := by
      rw [returns]
      exact inv.returns }

theorem Inv.threads (inv : Inv w s) (on : s.pc.irqsOff = false) : ThreadInv s.sys :=
  inv.between fun switch => by simp [switch, WaitPc.irqsOff] at on

/-- The call of `wait_event`. -/
theorem Inv.enter (inv : Inv w s) (outside : s.pc = .outside) (current : s.sys.current = w) (other : w ≠ idle) :
    Inv w { s with pc := .top } := by
  have threads := inv.threads (by simp [outside, WaitPc.irqsOff])
  have running := running_of_current threads current other
  exact {
    core := inv.core
    between := fun _ => threads
    named := inv.named
    off := by simp [WaitPc.irqsOff]
    here := fun _ => ⟨other, current ▸ inv.core.current_alloc, by simp [running]⟩
    found := by simp
    missing := by simp
    registered := by simp
    sleeping := fun _ blocked => by
      change (s.sys.threads w).state = .blocked at blocked
      rw [running] at blocked
      cases blocked
    returns := inv.returns }

/-- **A step of another thread, or of another interrupt.** -/
theorem Inv.thread {op : ThreadOp} (inv : Inv w s) (on : s.pc.irqsOff = false) (enabled : threadEnabled s.sys op)
    (other : s.sys.current = w → s.pc = .outside ∨ InInterrupt op) :
    Inv w { s with sys := threadStep s.sys op } := by
  have threads := inv.threads on
  have undisturbed : s.pc = .top → Undisturbed w s.sys (threadStep s.sys op) := fun top => by
    obtain ⟨-, alloc, alive⟩ := inv.here (by simp [top])
    exact threadStep_undisturbed threads enabled alloc alive fun current =>
      (other current).resolve_left (by simp [top])
  refine inv.outsideWindow on rfl (threadStep_inv threads enabled) (threadStep_named inv.named threads enabled)
    (fun top => ⟨(undisturbed top).alloc, (undisturbed top).alive⟩) (fun top blocked => ?_) rfl
  have armed := inv.sleeping top ((undisturbed top).blocked blocked)
  simp only [Armed] at armed ⊢
  rw [(undisturbed top).cap]
  exact armed

/-- A step that leaves the threads alone and the waiting thread armed. -/
theorem Inv.rearm (inv : Inv w s) {s' : WaitSys} (on : s.pc.irqsOff = false) (pc : s'.pc = s.pc)
    (sys : s'.sys = s.sys) (armed : Armed w s → Armed w s') (returns : s'.returns = s.returns) : Inv w s' := by
  refine inv.outsideWindow on pc (sys ▸ inv.threads on) (sys ▸ inv.named) (fun top => ?_)
    (fun top blocked => armed (inv.sleeping top (sys ▸ blocked))) returns
  rw [sys]
  exact (inv.here (by simp [top])).2

/-- `thread_wake` of the thread's own cap unblocks it. -/
theorem woken_not_blocked {s : Sys} (inv : ThreadInv s) (named : Named s) (alloc : s.allocated w = true)
    (other : w ≠ idle) : ((threadWake s (s.threads w).cap).threads w).state ≠ .blocked := by
  obtain ⟨queues, rq⟩ := inv.queues
  rw [threadWake, named w alloc other]
  dsimp only
  rw [schedWake]
  split
  · rename_i kept
    rcases kept with current | unblocked
    · rw [running_of_current inv current.symm other]
      simp
    · exact unblocked
  · obtain ⟨links, queues', eq, -⟩ := schedEnqueueReady_spec rq alloc
    rw [eq]
    simp

/-- In `wake_up`, after the queue is empty. -/
theorem Inv.wake (inv : Inv w s) {t : UInt64} (handler : s.handler = some (.taken t)) :
    Inv w { s with sys := if t ≠ capNull then threadWake s.sys t else s.sys, handler := some .woken } := by
  have on := inv.on_of_handler (by simp [handler])
  have threads := inv.threads on
  have woken : ThreadInv (if t ≠ capNull then threadWake s.sys t else s.sys) ∧
      Named (if t ≠ capNull then threadWake s.sys t else s.sys) := by
    split
    · have named : Named (threadStep s.sys (.wake t)) := threadStep_named inv.named threads trivial
      exact ⟨threads.wake t, named⟩
    · exact ⟨threads, inv.named⟩
  refine inv.outsideWindow on rfl woken.1 woken.2 (fun top => ?_) (fun top blocked => ?_) rfl
  · obtain ⟨-, alloc, alive⟩ := inv.here (by simp [top])
    dsimp only
    split
    · obtain ⟨-, allocated, -, state⟩ := threadWake_same s.sys t w
      refine ⟨(congrFun allocated w).trans alloc, ?_⟩
      rcases state with same | ready
      · rw [same]
        exact alive
      · simp [ready]
    · exact ⟨alloc, alive⟩
  · -- it was blocked before, so it is the waiter taken, and the wake unblocks it
    exfalso
    obtain ⟨other, alloc, -⟩ := inv.here (by simp [top])
    have before : (s.sys.threads w).state = .blocked := by
      dsimp only at blocked
      split at blocked
      · rcases (threadWake_same s.sys t w).2.2.2 with same | ready
        · rw [← same]
          exact blocked
        · rw [ready] at blocked
          cases blocked
      · exact blocked
    have armed := inv.sleeping top before
    simp only [Armed, handler] at armed
    subst armed
    have own := inv.named w alloc other
    have some_ : (s.sys.threads w).cap ≠ capNull := fun null => by
      obtain ⟨live, caps, -⟩ := inv.core.caps
      rw [null] at own
      obtain ⟨l, member, token, -⟩ := live_of_resolve caps own
      exact token_ne_null (caps.slot_pos l member) token
    rw [if_pos some_] at blocked
    exact woken_not_blocked threads inv.named alloc other blocked

/-- **One step of the handler.** -/
theorem Inv.handler (inv : Inv w s) (running : s.handler ≠ none) (data : Bool) : Inv w (handlerStep s data) := by
  have on := inv.on_of_handler running
  cases pc : s.handler with
  | none => exact absurd pc running
  | some place =>
      cases place with
      | entered =>
          rw [handlerStep, pc]
          exact inv.rearm on rfl rfl (fun armed => by
            simp only [Armed, pc] at armed ⊢
            exact armed.2) rfl
      | raised =>
          rw [handlerStep, pc]
          exact inv.rearm on rfl rfl (fun armed => by
            simp only [Armed, pc] at armed ⊢
            exact armed) rfl
      | taken t =>
          rw [handlerStep, pc]
          exact inv.wake pc
      | woken =>
          rw [handlerStep, pc]
          refine inv.rearm on rfl rfl (fun armed => ?_) rfl
          simp only [Armed, pc] at armed

/-- **Every step keeps the invariant.** -/
theorem waitStep_inv (inv : Inv w s) (enabled : waitEnabled w s op) : Inv w (waitStep s op) := by
  cases op with
  | enter => exact inv.enter enabled.2.1 enabled.2.2.1 enabled.2.2.2
  | wait => exact inv.waitEvent enabled.1 enabled.2.2
  | thread op => exact inv.thread enabled.2.1 enabled.2.2.1 enabled.2.2.2
  | interrupt =>
      refine inv.rearm enabled.2 rfl rfl (fun armed => ?_) rfl
      simp only [Armed, enabled.1] at armed
      exact armed
  | handler data => exact inv.handler enabled data
  | consume =>
      exact {
        core := inv.core
        between := inv.between
        named := inv.named
        off := inv.off
        here := inv.here
        found := inv.found
        missing := fun _ => rfl
        registered := inv.registered
        sleeping := fun top blocked => by
          have armed := inv.sleeping top blocked
          change s.handler = none at enabled
          simp only [Armed, waitStep, enabled] at armed ⊢
          exact ⟨trivial, armed.2⟩
        returns := inv.returns }

/-- A thread blocked in `wait_event`, outside the handler. -/
theorem Inv.asleep (inv : Inv w s) (handler : s.handler = none) (inside : s.pc ≠ .outside)
    (blocked : (s.sys.threads w).state = .blocked) : s.cond = false := by
  cases irqs : s.pc.irqsOff with
  | false =>
      have top := (outside_or_top irqs).resolve_left inside
      have armed := inv.sleeping top blocked
      simp only [Armed, handler] at armed
      exact armed.1
  | true =>
      by_cases switch : s.pc = .switch
      · exact inv.missing (.inr (.inr switch))
      · have running := running_of_current (inv.between switch) (inv.off irqs).2 (inv.here inside).1
        rw [running] at blocked
        cases blocked

theorem inv_boot (links : Links Node) (notify cond : Bool) : Inv w (.boot links notify cond) where
  core := (threadInv_boot links notify).toCoreInv
  between _ := threadInv_boot links notify
  named _ alloc other := absurd (Clocked.boot_allocated alloc) other
  off irqs := by cases irqs
  here inside := absurd rfl inside
  found := by simp [WaitSys.boot]
  missing := by simp [WaitSys.boot]
  registered := by simp [WaitSys.boot]
  sleeping top := by cases top
  returns := by simp [WaitSys.boot]

end Protocol

/-- **No wake-up is lost.** A thread is never asleep in `wait_event` with the
condition true, but while the handler is about to wake it; and the condition was
true at the last check before each return. -/
theorem no_lost_wakeup (w : Tid) (links : Links Node) (notify cond : Bool) {ops : List WaitOp}
    (admitted : (waitMachine w).Admits (.boot links notify cond) ops) :
    let s := (waitMachine w).run (.boot links notify cond) ops
    (s.handler = none → s.pc ≠ .outside → (s.sys.threads w).state = .blocked → s.cond = false) ∧
      ∀ c ∈ s.returns, c = true := by
  have inv : Inv w ((waitMachine w).run (.boot links notify cond) ops) :=
    (waitMachine w).run_invariant (I := Inv w) (fun _ _ inv enabled => waitStep_inv inv enabled)
      (inv_boot links notify cond) admitted
  exact ⟨inv.asleep, inv.returns⟩

/-- Thread 1 sleeps, is woken by the handler, returns, and sleeps again. -/
theorem no_lost_wakeup_twice :
    let ops := [.thread (.create ⟨20, 0, 0, 5⟩ (some 1) (some 7)), .thread (.wake (capMake 1 1)), .thread .schedule,
      .enter, .wait, .wait, .wait, .wait, .wait, .interrupt, .handler true, .handler true, .handler true,
      .handler true, .thread .schedule, .wait, .wait, .wait, .wait, .consume, .enter, .wait, .wait, .wait, .wait,
      .wait]
    let s := (waitMachine 1).run (.boot ⟨id, id⟩ true false) ops
    (waitMachine 1).Admits (.boot ⟨id, id⟩ true false) ops ∧ s.returns = [true] ∧
      (s.sys.threads 1).state = .blocked ∧ s.cond = false :=
  have admitted : (waitMachine 1).Admits (.boot ⟨id, id⟩ true false) _ := by decide +kernel
  ⟨admitted, by decide +kernel, by decide +kernel,
    (no_lost_wakeup 1 ⟨id, id⟩ true false admitted).1 (by decide +kernel) (by decide +kernel) (by decide +kernel)⟩

end Minus.Core.Wait
