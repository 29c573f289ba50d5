/-
# Core.ThreadReap — who finishes a dead thread

`switch_away` hands its predecessor over through `last_switched`, and
`finish_switch` runs in the context that is resumed.  A thread that has run
before resumes inside its own `switch_away` and gets there; a thread on its
first run leaves through `ret_to_user` and does not, so a dead predecessor is
never notified nor freed and the next switch overwrites the only pointer to it.

The property is stated over the ghost trace of a run (`Reaped`).  It holds in
every run in which each exiting thread is followed by one that has run before
(`RanBefore`), and fails when a thread is replaced by a fresh one.
-/
import Minus.Core.Thread

namespace Minus.Core.Thread

set_option autoImplicit false

open Minus.Theory Minus.Lib.Dlist Minus.Core.Cap

/-! ## The history of a run -/

/-- The thread that runs after the events; the boot thread is the first. -/
def runningAfter (trace : List Event) : Nat :=
  trace.foldl (fun running e => match e with
    | .switched _ next _ => next
    | _ => running) 0

/-- The thread has had the CPU: it is the boot thread, or was switched to. -/
def HasRun (trace : List Event) (n : Nat) : Prop :=
  n = 0 ∨ ∃ prev point, Event.switched prev n point ∈ trace

/-- The event is part of the end of thread `n`. -/
def Event.Retires (n : Nat) : Event → Prop
  | .marked m _ | .notified m _ | .freed m => m = n
  | .finished _ | .switched _ _ _ => False

/-- The event is about thread `n`. -/
def Event.Names (n : Nat) : Event → Prop
  | .marked m _ | .finished m | .notified m _ | .freed m => m = n
  | .switched prev next _ => prev = n ∨ next = n

/-- What follows the mark of thread `n`: the switch to a thread inside its own
`switch_away`, and there `finish_switch` with `n`, its notification and release. -/
def reaping (notify : Bool) (n next : Nat) (owner : UInt64) : List Event :=
  [.switched n next .switchAway, .finished n] ++
    (if notify = true ∧ owner ≠ capNull then [.notified n owner] else []) ++ [.freed n]

/-- Every dead thread is reaped once, at once and in the next context;
`finish_switch` never frees the thread that runs; and a thread resumes at
`ret_to_user` exactly when it has not run before. -/
structure Reaped (notify : Bool) (trace : List Event) : Prop where
  prompt : ∀ before n owner after, trace = before ++ .marked n owner :: after →
    ∃ next rest, after = reaping notify n next owner ++ rest ∧ next ≠ n ∧
      (∀ e ∈ before, ¬ e.Retires n) ∧ ∀ e ∈ rest, ¬ e.Names n
  freesOther : ∀ before n after, trace = before ++ .freed n :: after → runningAfter before ≠ n
  resumes : ∀ before prev n point after, trace = before ++ .switched prev n point :: after →
    (HasRun before n → point = .switchAway) ∧ (¬ HasRun before n → point = .retToUser)

theorem Event.Retires.names {n : Nat} {e : Event} (retires : e.Retires n) : e.Names n := by
  cases e <;> simp_all [Event.Retires, Event.Names]

theorem runningAfter_append (trace new : List Event) :
    runningAfter (trace ++ new) = new.foldl (fun running e => match e with
      | .switched _ next _ => next
      | _ => running) (runningAfter trace) := by
  rw [runningAfter, List.foldl_append]
  rfl

theorem hasRun_append (trace new : List Event) (n : Nat) :
    HasRun (trace ++ new) n ↔
      HasRun trace n ∨ ∃ prev point, Event.switched prev n point ∈ new := by
  simp only [HasRun, List.mem_append]
  constructor
  · rintro (zero | ⟨prev, point, old | recent⟩)
    · exact Or.inl (Or.inl zero)
    · exact Or.inl (Or.inr ⟨prev, point, old⟩)
    · exact Or.inr ⟨prev, point, recent⟩
  · rintro ((zero | ⟨prev, point, old⟩) | ⟨prev, point, recent⟩)
    · exact Or.inl zero
    · exact Or.inr ⟨prev, point, Or.inl old⟩
    · exact Or.inr ⟨prev, point, Or.inr recent⟩

/-- An event of an extended trace is an old one or a new one. -/
theorem split_append {trace new before after : List Event} {e : Event}
    (split : trace ++ new = before ++ e :: after) :
    (∃ mid, trace = before ++ e :: mid ∧ after = mid ++ new) ∨
      ∃ pre, before = trace ++ pre ∧ new = pre ++ e :: after := by
  rcases List.append_eq_append_iff.1 split with ⟨pre, eq, newEq⟩ | ⟨mid, eq, afterEq⟩
  · exact Or.inr ⟨pre, eq, newEq⟩
  · cases mid with
    | nil => exact Or.inr ⟨[], by simpa using eq.symm, by simpa using afterEq.symm⟩
    | cons head mid =>
        simp only [List.cons_append, List.cons.injEq] at afterEq
        obtain ⟨rfl, afterEq⟩ := afterEq
        exact Or.inl ⟨mid, eq, afterEq⟩

/-- New events keep the property when none names a thread that was marked and
each is right where it stands. -/
theorem Reaped.append {notify : Bool} {trace new : List Event} (reaped : Reaped notify trace)
    (others : ∀ n owner, Event.marked n owner ∈ trace → ∀ e ∈ new, ¬ e.Names n)
    (prompt : ∀ pre n owner after, new = pre ++ .marked n owner :: after →
      ∃ next rest, after = reaping notify n next owner ++ rest ∧ next ≠ n ∧
        (∀ e ∈ trace ++ pre, ¬ e.Retires n) ∧ ∀ e ∈ rest, ¬ e.Names n)
    (freesOther : ∀ pre n after, new = pre ++ .freed n :: after → runningAfter (trace ++ pre) ≠ n)
    (resumes : ∀ pre prev n point after, new = pre ++ .switched prev n point :: after →
      (HasRun (trace ++ pre) n → point = .switchAway) ∧
        (¬ HasRun (trace ++ pre) n → point = .retToUser)) :
    Reaped notify (trace ++ new) where
  prompt before n owner after split := by
    rcases split_append split with ⟨mid, old, rfl⟩ | ⟨pre, rfl, recent⟩
    · obtain ⟨next, rest, rfl, other, first, last⟩ := reaped.prompt before n owner mid old
      refine ⟨next, rest ++ new, by rw [List.append_assoc], other, first, fun e member => ?_⟩
      rcases List.mem_append.1 member with member | member
      · exact last e member
      · exact others n owner (by simp [old]) e member
    · exact prompt pre n owner after recent
  freesOther before n after split := by
    rcases split_append split with ⟨mid, old, -⟩ | ⟨pre, rfl, recent⟩
    · exact reaped.freesOther before n mid old
    · exact freesOther pre n after recent
  resumes before prev n point after split := by
    rcases split_append split with ⟨mid, old, -⟩ | ⟨pre, rfl, recent⟩
    · exact reaped.resumes before prev n point mid old
    · exact resumes pre prev n point after recent

/-- A switch between live threads, with or without `finish_switch`. -/
theorem Reaped.switch {notify : Bool} {trace rest : List Event} (reaped : Reaped notify trace)
    {prev next : Nat} {point : ResumePoint}
    (prevAlive : ∀ e ∈ trace, ¬ e.Retires prev) (nextAlive : ∀ e ∈ trace, ¬ e.Retires next)
    (ran : HasRun trace next → point = .switchAway)
    (fresh : ¬ HasRun trace next → point = .retToUser)
    (finishing : rest = [] ∨ rest = [.finished prev]) :
    Reaped notify (trace ++ .switched prev next point :: rest) := by
  have named : ∀ e ∈ Event.switched prev next point :: rest, ∀ n, e.Names n →
      n = prev ∨ n = next := by
    intro e member n names
    rcases List.mem_cons.1 member with rfl | member
    · exact names.imp Eq.symm Eq.symm
    · rcases finishing with rfl | rfl
      · cases member
      · rw [List.mem_singleton.1 member] at names
        exact Or.inl (Eq.symm names)
  refine reaped.append (fun n owner marked e member names => ?_) ?_ ?_ ?_
  · rcases named e member n names with rfl | rfl
    · exact prevAlive _ marked rfl
    · exact nextAlive _ marked rfl
  · intro pre n owner after split
    rcases finishing with rfl | rfl <;> simp [List.cons_eq_append_iff] at split
  · intro pre n after split
    rcases finishing with rfl | rfl <;> simp [List.cons_eq_append_iff] at split
  · intro pre prev' n point' after split
    have at_once : pre = [] ∧ n = next ∧ point' = point := by
      rcases finishing with rfl | rfl <;> simp [List.cons_eq_append_iff] at split <;>
        exact ⟨split.1, split.2.1.2.1, split.2.1.2.2⟩
    obtain ⟨rfl, rfl, rfl⟩ := at_once
    rw [List.append_nil]
    exact ⟨ran, fresh⟩

/-- The end of a live thread whose successor has run before. -/
theorem Reaped.retire {notify : Bool} {trace : List Event} (reaped : Reaped notify trace)
    {n next : Nat} (owner : UInt64) (other : next ≠ n)
    (alive : ∀ e ∈ trace, ¬ e.Retires n) (nextAlive : ∀ e ∈ trace, ¬ e.Retires next)
    (ran : HasRun trace next) :
    Reaped notify (trace ++ .marked n owner :: reaping notify n next owner) := by
  have named : ∀ e ∈ Event.marked n owner :: reaping notify n next owner, ∀ m, e.Names m →
      m = n ∨ m = next := by
    intro e member m names
    by_cases told : notify = true ∧ owner ≠ capNull
    · simp [reaping, told] at member
      rcases member with rfl | rfl | rfl | rfl | rfl <;> simp [Event.Names] at names <;> tauto
    · simp only [reaping, if_neg told] at member
      simp at member
      rcases member with rfl | rfl | rfl | rfl <;> simp [Event.Names] at names <;> tauto
  refine reaped.append (fun m owner marked e member names => ?_) ?_ ?_ ?_
  · rcases named e member m names with rfl | rfl
    · exact alive _ marked rfl
    · exact nextAlive _ marked rfl
  · intro pre m owner' after split
    have at_once : pre = [] ∧ m = n ∧ owner' = owner ∧ after = reaping notify n next owner := by
      by_cases told : notify = true ∧ owner ≠ capNull
      · simp [reaping, told, List.cons_eq_append_iff] at split
        simp [reaping, told, split]
      · simp only [reaping, if_neg told] at split ⊢
        simp [List.cons_eq_append_iff] at split
        simp [split]
    obtain ⟨rfl, rfl, rfl, rfl⟩ := at_once
    exact ⟨next, [], by simp, other, by simpa using alive, by simp⟩
  · intro pre m after split
    have last : m = n ∧ ∃ tail, pre = .marked n owner :: .switched n next .switchAway ::
        .finished n :: tail ∧ (tail = [] ∨ tail = [.notified n owner]) := by
      by_cases told : notify = true ∧ owner ≠ capNull
      · simp [reaping, told, List.cons_eq_append_iff] at split
        aesop
      · simp only [reaping, if_neg told] at split
        simp [List.cons_eq_append_iff] at split
        aesop
    obtain ⟨rfl, tail, rfl, short⟩ := last
    rw [runningAfter_append]
    rcases short with rfl | rfl <;> exact other
  · intro pre prev m point after split
    have second : pre = [.marked n owner] ∧ m = next ∧ point = .switchAway := by
      by_cases told : notify = true ∧ owner ≠ capNull
      · simp [reaping, told, List.cons_eq_append_iff] at split
        aesop
      · simp only [reaping, if_neg told] at split
        simp [List.cons_eq_append_iff] at split
        aesop
    obtain ⟨rfl, rfl, rfl⟩ := second
    exact ⟨fun _ => rfl, fun never => absurd ((hasRun_append _ _ _).2 (Or.inl ran)) never⟩

/-! ## The invariant of the history -/

/-- The trace agrees with the memory: serial numbers are fresh, no allocated
thread has been retired, and a saved context tells whether the thread has run. -/
structure HistoryInv (notify : Bool) (s : Sys) : Prop where
  registered : s.exitNotify = notify
  reaped : Reaped notify s.trace
  running : runningAfter s.trace = (s.threads s.current).serial
  boot : (s.threads idle).serial = 0
  bounded : ∀ t, s.allocated t = true → (s.threads t).serial < s.created
  named : ∀ e ∈ s.trace, ∀ n, e.Names n → n < s.created
  distinct : ∀ t u, s.allocated t = true → s.allocated u = true →
    (s.threads t).serial = (s.threads u).serial → t = u
  alive : ∀ t, s.allocated t = true → (s.threads t).state ≠ .dead
  unretired : ∀ t, s.allocated t = true → ∀ e ∈ s.trace, ¬ e.Retires (s.threads t).serial
  currentRan : HasRun s.trace (s.threads s.current).serial
  resumes : ∀ t, s.allocated t = true → t ≠ s.current →
    (HasRun s.trace (s.threads t).serial → (s.threads t).lr = .switchAway) ∧
      (¬ HasRun s.trace (s.threads t).serial → (s.threads t).lr = .retToUser)

variable {notify : Bool}

/-- What the operations that do not switch leave alone. -/
structure Kept (s s' : Sys) : Prop where
  allocated : s'.allocated = s.allocated
  current : s'.current = s.current
  created : s'.created = s.created
  exitNotify : s'.exitNotify = s.exitNotify
  serial : ∀ t, (s'.threads t).serial = (s.threads t).serial
  lr : ∀ t, (s'.threads t).lr = (s.threads t).lr
  env : ∀ t, (s'.threads t).env = (s.threads t).env

theorem HistoryInv.kept {s s' : Sys} (inv : HistoryInv notify s) (kept : Kept s s')
    (trace : s'.trace = s.trace)
    (alive : ∀ t, s.allocated t = true → (s'.threads t).state ≠ .dead) : HistoryInv notify s' where
  registered := kept.exitNotify.trans inv.registered
  reaped := by rw [trace]; exact inv.reaped
  running := by rw [kept.current, kept.serial, trace]; exact inv.running
  boot := by rw [kept.serial]; exact inv.boot
  bounded t alloc := by
    rw [kept.serial, kept.created]
    exact inv.bounded t (kept.allocated ▸ alloc)
  named := by rw [kept.created, trace]; exact inv.named
  distinct t u tAlloc uAlloc same := by
    rw [kept.serial, kept.serial] at same
    exact inv.distinct t u (kept.allocated ▸ tAlloc) (kept.allocated ▸ uAlloc) same
  alive t alloc := alive t (kept.allocated ▸ alloc)
  unretired t alloc := by
    rw [kept.serial, trace]
    exact inv.unretired t (kept.allocated ▸ alloc)
  currentRan := by rw [kept.current, kept.serial, trace]; exact inv.currentRan
  resumes t alloc other := by
    rw [kept.serial, kept.lr, trace]
    exact inv.resumes t (kept.allocated ▸ alloc) (kept.current ▸ other)

/-- The events of one switch, whatever they are besides: the CPU went from the
current thread to `next`, and only the thread left behind may be gone. -/
theorem HistoryInv.moved {s s' : Sys} (inv : HistoryInv notify s) {next : Tid} {new : List Event}
    (curAlloc : s.allocated s.current = true) (alloc : s.allocated next = true)
    (trace : s'.trace = s.trace ++ new) (reaped : Reaped notify s'.trace)
    (ends : runningAfter s'.trace = (s.threads next).serial)
    (runs : ∀ n, (∃ prev point, Event.switched prev n point ∈ new) ↔ n = (s.threads next).serial)
    (names : ∀ e ∈ new, ∀ n, e.Names n →
      n = (s.threads s.current).serial ∨ n = (s.threads next).serial)
    (retires : ∀ e ∈ new, ∀ n, e.Retires n →
      n = (s.threads s.current).serial ∧ s'.allocated s.current = false)
    (allocated : ∀ t, s'.allocated t = true → s.allocated t = true)
    (current : s'.current = next) (created : s'.created = s.created)
    (exitNotify : s'.exitNotify = s.exitNotify)
    (serial : ∀ t, (s'.threads t).serial = (s.threads t).serial)
    (lr : ∀ t, (s'.threads t).lr = if t = s.current then .switchAway else (s.threads t).lr)
    (alive : ∀ t, s'.allocated t = true → (s'.threads t).state ≠ .dead) : HistoryInv notify s' where
  registered := exitNotify.trans inv.registered
  reaped := reaped
  running := by rw [ends, current, serial]
  boot := by rw [serial]; exact inv.boot
  bounded t tAlloc := by
    rw [serial, created]
    exact inv.bounded t (allocated t tAlloc)
  named e member n of_n := by
    rw [trace] at member
    rw [created]
    rcases List.mem_append.1 member with old | recent
    · exact inv.named e old n of_n
    · rcases names e recent n of_n with rfl | rfl
      · exact inv.bounded _ curAlloc
      · exact inv.bounded _ alloc
  distinct t u tAlloc uAlloc same := by
    rw [serial, serial] at same
    exact inv.distinct t u (allocated t tAlloc) (allocated u uAlloc) same
  alive := alive
  unretired t tAlloc e member gone := by
    rw [trace] at member
    rw [serial] at gone
    rcases List.mem_append.1 member with old | recent
    · exact inv.unretired t (allocated t tAlloc) e old gone
    · obtain ⟨same, freed⟩ := retires e recent _ gone
      have here := inv.distinct t s.current (allocated t tAlloc) curAlloc same
      rw [here, freed] at tAlloc
      cases tAlloc
  currentRan := by
    rw [trace, current, serial, hasRun_append]
    exact Or.inr ((runs _).2 rfl)
  resumes t tAlloc other := by
    rw [current] at other
    have notNext : (s.threads t).serial ≠ (s.threads next).serial := fun same =>
      other (inv.distinct t next (allocated t tAlloc) alloc same)
    have ranIff : HasRun s'.trace (s.threads t).serial ↔ HasRun s.trace (s.threads t).serial := by
      rw [trace, hasRun_append, runs]
      simp [notNext]
    rw [serial, lr, ranIff]
    by_cases here : t = s.current
    · subst here
      simp [inv.currentRan]
    · rw [if_neg here]
      exact inv.resumes t (allocated t tAlloc) here

/-! ## Every operation keeps it -/

theorem handOver_serial (s : Sys) (next : Tid) (links : Links Node) (t : Tid) :
    ((handOver s next links).threads t).serial = (s.threads t).serial := by
  rw [handOver_threads, ← (pickedThreads_same s next t).2.2.2]
  split <;> rfl

theorem handOver_lr (s : Sys) (next : Tid) (links : Links Node) (t : Tid) :
    ((handOver s next links).threads t).lr =
      if t = s.current then .switchAway else (s.threads t).lr := by
  rw [handOver_threads, ← (pickedThreads_same s next t).1]
  split <;> rfl

/-- Only the current thread can be dead after a hand-over, and only if it was. -/
theorem handOver_dead {s : Sys} {next t : Tid} {links : Links Node}
    (dead : ((handOver s next links).threads t).state = .dead) : (s.threads t).state = .dead := by
  have picked : (pickedThreads s next t).state = .dead := by
    rw [handOver_threads] at dead
    split at dead <;> exact dead
  by_cases here : t = next
  · rw [here, pickedThreads_next] at picked
    cases picked
  · rw [pickedThreads_of_ne here] at picked
    by_cases cur : t = s.current
    · subst cur
      rw [requeuedThreads_current] at picked
      split at picked
      · cases picked
      · exact picked
    · rwa [requeuedThreads_of_ne cur] at picked

/-- `switch_away` between live threads. -/
theorem HistoryInv.switchAway {s : Sys} (inv : HistoryInv notify s) (core : CoreInv s) :
    HistoryInv notify (switchAway s) := by
  obtain ⟨next, links, -, alloc, -, -, cases_⟩ := switchAway_cases core
  have alive : ∀ t, s.allocated t = true →
      ((Thread.handOver s next links).threads t).state ≠ .dead :=
    fun t tAlloc dead => inv.alive t tAlloc (handOver_dead dead)
  have reapedBy : next ≠ s.current → ∀ rest,
      (rest = [] ∨ rest = [.finished (s.threads s.current).serial]) →
      Reaped notify (s.trace ++ .switched (s.threads s.current).serial
        (s.threads next).serial (s.threads next).lr :: rest) := fun ne rest finishing =>
    inv.reaped.switch (inv.unretired _ core.current_alloc) (inv.unretired _ alloc)
      (inv.resumes next alloc ne).1 (inv.resumes next alloc ne).2 finishing
  rcases cases_ with ⟨same, eq⟩ | ⟨ne, -, eq⟩ | ⟨ne, -, eq⟩
  · rw [eq]
    refine inv.kept ⟨rfl, rfl, rfl, rfl, fun t => (pickedThreads_same s next t).2.2.2,
      fun t => (pickedThreads_same s next t).1, fun t => (pickedThreads_same s next t).2.2.1⟩
      rfl fun t tAlloc dead => ?_
    refine alive t tAlloc ?_
    rw [handOver_threads]
    split <;> exact dead
  · rw [eq]
    have trace := handOver_trace s next links
    refine inv.moved core.current_alloc alloc trace ?_ ?_ ?_ ?_ ?_ (fun _ => id) rfl rfl rfl
      (handOver_serial s next links) (handOver_lr s next links) alive
    · rw [trace]; exact reapedBy ne [] (Or.inl rfl)
    · rw [trace, runningAfter_append]; rfl
    · simp
    · intro e member n names
      rw [List.mem_singleton.1 member] at names
      exact names.imp Eq.symm Eq.symm
    · intro e member n retires
      rw [List.mem_singleton.1 member] at retires
      exact retires.elim
  · have curAlive : ((Thread.handOver s next links).threads s.current).state ≠ .dead :=
      alive _ core.current_alloc
    have finished : finishSwitch (Thread.handOver s next links) (some s.current) =
        (Thread.handOver s next links).log (.finished (s.threads s.current).serial) := by
      rw [← handOver_serial s next links]
      exact if_neg curAlive
    rw [eq, finished]
    have trace : ((Thread.handOver s next links).log
        (.finished (s.threads s.current).serial)).trace = s.trace ++
        [.switched (s.threads s.current).serial (s.threads next).serial (s.threads next).lr,
          .finished (s.threads s.current).serial] := by
      simp [Sys.log, handOver_trace]
    refine inv.moved core.current_alloc alloc trace ?_ ?_ ?_ ?_ ?_ (fun _ => id) rfl rfl rfl
      (handOver_serial s next links) (handOver_lr s next links) alive
    · rw [trace]; exact reapedBy ne _ (Or.inr rfl)
    · rw [trace, runningAfter_append]; rfl
    · simp
    · intro e member n names
      rcases List.mem_pair.1 member with rfl | rfl
      · exact names.imp Eq.symm Eq.symm
      · exact Or.inl (Eq.symm names)
    · intro e member n retires
      rcases List.mem_pair.1 member with rfl | rfl <;> exact retires.elim

/-- `finish_switch` with a dead thread: the notifier, then `thread_free`. -/
theorem finishSwitch_dead {s : Sys} {t : Tid} (dead : (s.threads t).state = .dead) :
    let s' := finishSwitch s (some t)
    s'.trace = s.trace ++ ([.finished (s.threads t).serial] ++
        (if s.exitNotify = true ∧ (s.threads t).env.ownerCap ≠ capNull then
          [.notified (s.threads t).serial (s.threads t).env.ownerCap] else []) ++
        [.freed (s.threads t).serial]) ∧
      s'.threads = s.threads ∧ s'.allocated = Function.update s.allocated t false ∧
      s'.current = s.current ∧ s'.created = s.created ∧ s'.exitNotify = s.exitNotify := by
  intro s'
  have eq : s' = threadFree (Thread.exitNotify (s.log (.finished (s.threads t).serial))
      (s.threads t)) t := if_pos dead
  rw [eq]
  unfold Thread.exitNotify
  by_cases told : s.exitNotify = true ∧ (s.threads t).env.ownerCap ≠ capNull
  · have told' : (s.log (.finished (s.threads t).serial)).exitNotify = true ∧
        (s.threads t).env.ownerCap ≠ capNull := told
    rw [if_pos told, if_pos told']
    simp [threadFree, Sys.log]
  · have told' : ¬ ((s.log (.finished (s.threads t).serial)).exitNotify = true ∧
        (s.threads t).env.ownerCap ≠ capNull) := told
    rw [if_neg told, if_neg told']
    simp [threadFree, Sys.log]

/-- The condition on an exit: the head of the best queue, once the replacement
stands on its own, is a thread that has run before. -/
def SuccessorRan (s : Sys) (replacement : UInt64) : Prop :=
  ∀ t, pickHighest (enqueueReplacement s replacement) = some t → (s.threads t).lr = .switchAway

/-- Every exit is followed by a thread that has run before. -/
def RanBefore (s : Sys) : ThreadOp → Prop
  | .exit => SuccessorRan s capNull
  | .replace replacement => SuccessorRan s replacement
  | _ => True

instance (s : Sys) (op : ThreadOp) : Decidable (RanBefore s op) :=
  match op with
  | .exit => decidableOfSome (pickHighest (enqueueReplacement s capNull)) _
  | .replace cap => decidableOfSome (pickHighest (enqueueReplacement s cap)) _
  | .create _ _ _ | .wake _ | .schedule | .scheduleIfNeeded | .block | .tick => isTrue trivial

section Reaping

variable {old new : Nat} {owner : UInt64}

/-- The end of a thread is about that thread, but for the switch away from it. -/
theorem reaping_names {e : Event} (member : e ∈ Event.marked old owner :: reaping notify old new owner) :
    e = .switched old new .switchAway ∨ ∀ n, e.Names n → n = old := by
  rcases List.mem_cons.1 member with rfl | member
  · exact Or.inr fun n names => Eq.symm names
  · simp only [reaping, List.mem_append, List.mem_cons, List.not_mem_nil, or_false] at member
    rcases member with ((rfl | rfl) | told) | rfl
    · exact Or.inl rfl
    · exact Or.inr fun n names => Eq.symm names
    · split at told
      · rw [List.mem_singleton.1 told]
        exact Or.inr fun n names => Eq.symm names
      · cases told
    · exact Or.inr fun n names => Eq.symm names

/-- Nobody is switched to but the next thread. -/
theorem reaping_switched (n : Nat) :
    (∃ prev point, Event.switched prev n point ∈ Event.marked old owner :: reaping notify old new owner) ↔ n = new := by
  constructor
  · rintro ⟨prev, point, member⟩
    simp only [reaping, List.mem_cons, List.mem_append, List.not_mem_nil, or_false, reduceCtorEq, false_or] at member
    rcases member with same | told
    · simp only [Event.switched.injEq] at same
      exact same.2.1
    · split at told
      · simp at told
      · cases told
  · rintro rfl
    exact ⟨old, .switchAway, by simp [reaping]⟩

theorem runningAfter_reaping (trace : List Event) :
    runningAfter (trace ++ Event.marked old owner :: reaping notify old new owner) = new := by
  rw [runningAfter_append]
  by_cases told : notify = true ∧ owner ≠ capNull
  · simp [reaping, told]
  · simp only [reaping, if_neg told]
    rfl

end Reaping

/-- The running thread is on no queue, and `sched_mark_dead` only marks it. -/
theorem schedMarkDead_running {s : Sys} (core : CoreInv s) (running : (s.threads s.current).state = .running) :
    schedMarkDead s s.current =
      { s with
        threads := Function.update s.threads s.current
          { s.threads s.current with state := .dead }
        trace := s.trace ++
          [.marked (s.threads s.current).serial (s.threads s.current).env.ownerCap] } := by
  obtain ⟨queues, rq⟩ := core.queues
  have notQueued : queued s s.current = false := by
    rw [← Bool.not_eq_true, rq.queued_iff core.current_alloc, running]
    simp
  simp [schedMarkDead, notQueued, Sys.modify, Sys.log]

theorem kept_marked {s m : Sys} {state : SchedState} {trace : List Event}
    (marked : m = { s with threads := Function.update s.threads s.current { s.threads s.current with state := state }
                           trace := trace }) : Kept s m := by
  refine ⟨by rw [marked], by rw [marked], by rw [marked], by rw [marked], ?_, ?_, ?_⟩ <;>
  · intro t
    by_cases here : t = s.current
    · subst here; simp [marked]
    · simp [marked, here]

/-- `sched_mark_dead` of the running thread and the switch away from it. -/
theorem HistoryInv.retire {s : Sys} (inv : HistoryInv notify s) (core : CoreInv s)
    (running : (s.threads s.current).state = .running) (other : s.current ≠ idle)
    (ran : ∀ t, pickHighest s = some t → (s.threads t).lr = .switchAway) :
    HistoryInv notify (Thread.switchAway (schedMarkDead s s.current)) := by
  obtain ⟨queues, rq⟩ := core.queues
  have marked := schedMarkDead_running core running
  have core' := core.markDead other
  generalize schedMarkDead s s.current = m at marked core'
  have dead : (m.threads s.current).state = .dead := by simp [marked]
  have others : ∀ t, t ≠ s.current → m.threads t = s.threads t := by
    intro t ne
    simp [marked, ne]
  have kept := kept_marked marked
  have curEq : m.current = s.current := kept.current
  obtain ⟨next, links, queues', alloc, picked, -, cases_⟩ := switchAway_cases core'
  have picked' : pickHighest s = some next := by
    rw [← picked]
    apply pickHighest_congr
    rw [requeueCurrent, curEq, dead, if_neg (by simp), marked]
  have nextAlloc : s.allocated next = true := kept.allocated ▸ alloc
  have ne : next ≠ s.current := by
    rintro rfl
    obtain ⟨p, member⟩ := rq.pickHighest_mem picked'
    have ready := ((rq.mem_iff p _).1 member).2.2.1
    rw [running] at ready
    cases ready
  have resumed := ran next picked'
  rcases cases_ with ⟨same, -⟩ | ⟨-, fresh, -⟩ | ⟨-, -, eq⟩
  · exact absurd (same.trans curEq) ne
  · exact absurd ((kept.lr next).trans resumed) fresh
  rw [eq, curEq]
  have deadAfter : ((Thread.handOver m next links).threads s.current).state = .dead := by
    have notNext : (pickedThreads m next s.current).state = .dead := by
      have reque := requeuedThreads_current m
      rw [curEq, dead] at reque
      rw [pickedThreads_of_ne ne.symm, reque]
      simp
    rw [handOver_threads]
    split <;> exact notNext
  have ownerSame : ((Thread.handOver m next links).threads s.current).env.ownerCap =
      (s.threads s.current).env.ownerCap := by
    rw [← kept.env, ← (pickedThreads_same m next s.current).2.2.1, handOver_threads]
    split <;> rfl
  have serial : ∀ t, ((Thread.handOver m next links).threads t).serial = (s.threads t).serial :=
    fun t => (handOver_serial m next links t).trans (kept.serial t)
  obtain ⟨trace, threads, allocated, current, created, notifySame⟩ := finishSwitch_dead deadAfter
  have notifyEq : (Thread.handOver m next links).exitNotify = notify :=
    kept.exitNotify.trans inv.registered
  have ranNext : HasRun s.trace (s.threads next).serial := by
    by_contra never
    rw [(inv.resumes next nextAlloc ne).2 never] at resumed
    cases resumed
  have serialNe : (s.threads next).serial ≠ (s.threads s.current).serial := fun same =>
    ne (inv.distinct next s.current nextAlloc core.current_alloc same)
  have traceEq : (finishSwitch (Thread.handOver m next links) (some s.current)).trace =
      s.trace ++ .marked (s.threads s.current).serial (s.threads s.current).env.ownerCap ::
        reaping notify (s.threads s.current).serial (s.threads next).serial
          (s.threads s.current).env.ownerCap := by
    rw [trace, handOver_trace, notifyEq, ownerSame, serial, curEq, kept.serial, kept.serial,
      kept.lr, resumed, marked]
    simp [reaping]
  have aliveAfter : ∀ t, (finishSwitch (Thread.handOver m next links) (some s.current)).allocated t =
      true → s.allocated t = true ∧ t ≠ s.current := by
    intro t tAlloc
    rw [allocated] at tAlloc
    have there : t ≠ s.current := by
      rintro rfl
      simp at tAlloc
    rw [Function.update_of_ne there] at tAlloc
    exact ⟨kept.allocated ▸ tAlloc, there⟩
  have reaped := inv.reaped.retire (s.threads s.current).env.ownerCap serialNe
    (inv.unretired _ core.current_alloc) (inv.unretired _ nextAlloc) ranNext
  refine inv.moved core.current_alloc nextAlloc traceEq ?_ ?_ ?_ ?_ ?_
    (fun t tAlloc => (aliveAfter t tAlloc).1) current (created.trans kept.created)
    (notifySame.trans kept.exitNotify) (fun t => by rw [threads]; exact serial t) (fun t => ?_) (fun t tAlloc isDead => ?_)
  · rw [traceEq]; exact reaped
  · rw [traceEq]
    exact runningAfter_reaping _
  · exact reaping_switched
  · intro e member n names
    rcases reaping_names member with rfl | only
    · exact names.imp Eq.symm Eq.symm
    · exact Or.inl (only n names)
  · intro e member n retires
    rcases reaping_names member with rfl | only
    · exact retires.elim
    · refine ⟨only n retires.names, ?_⟩
      rw [allocated]
      simp
  · rw [threads, handOver_lr, curEq, kept.lr]
  · obtain ⟨tAlloc, there⟩ := aliveAfter t tAlloc
    rw [threads] at isDead
    have was := handOver_dead isDead
    rw [others t there] at was
    exact inv.alive t tAlloc was

theorem Kept.refl (s : Sys) : Kept s s :=
  ⟨rfl, rfl, rfl, rfl, fun _ => rfl, fun _ => rfl, fun _ => rfl⟩

/-- A step that rewrites one thread without touching its identity. -/
theorem kept_modify {s s' : Sys} {t : Tid} {f : Kthread → Kthread}
    (threads : s'.threads = Function.update s.threads t (f (s.threads t)))
    (same : ∀ k, (f k).serial = k.serial ∧ (f k).lr = k.lr ∧ (f k).env = k.env)
    (allocated : s'.allocated = s.allocated) (current : s'.current = s.current)
    (created : s'.created = s.created) (notify : s'.exitNotify = s.exitNotify) : Kept s s' := by
  refine ⟨allocated, current, created, notify, ?_, ?_, ?_⟩ <;>
  · intro u
    by_cases here : u = t
    · subst here
      rw [threads, Function.update_self]
      first | exact (same _).1 | exact (same _).2.1 | exact (same _).2.2
    · rw [threads, Function.update_of_ne here]

theorem HistoryInv.enqueueReady {s : Sys} (inv : HistoryInv notify s) (t : Tid) :
    HistoryInv notify (schedEnqueueReady s t) := by
  unfold schedEnqueueReady
  split
  · exact inv
  · refine inv.kept (kept_modify (t := t) (f := fun k => { k with state := .ready }) rfl
      (fun _ => ⟨rfl, rfl, rfl⟩) rfl rfl rfl rfl) rfl fun u alloc => ?_
    by_cases here : u = t
    · subst here
      simp
    · simpa [here] using inv.alive u alloc

theorem HistoryInv.wake {s : Sys} (inv : HistoryInv notify s) (cap : UInt64) :
    HistoryInv notify (threadWake s cap) := by
  unfold threadWake
  split
  · unfold schedWake
    split
    · exact inv
    · exact inv.enqueueReady _
  · exact inv

theorem HistoryInv.tick {s : Sys} (inv : HistoryInv notify s) : HistoryInv notify (threadTick s) := by
  have charged : ∀ flag, HistoryInv notify
      { s.modify s.current (fun k => { k with slice := k.slice - 1 }) with needResched := flag } := by
    intro flag
    refine inv.kept (kept_modify (t := s.current)
      (f := fun k => { k with slice := k.slice - 1 }) rfl
      (fun _ => ⟨rfl, rfl, rfl⟩) rfl rfl rfl rfl) rfl fun u alloc => ?_
    by_cases here : u = s.current
    · subst here
      simpa using inv.alive _ alloc
    · simpa [here] using inv.alive u alloc
  have flagged : HistoryInv notify { s with needResched := true } :=
    inv.kept ⟨rfl, rfl, rfl, rfl, fun _ => rfl, fun _ => rfl, fun _ => rfl⟩ rfl inv.alive
  unfold threadTick schedTick
  split
  · exact inv
  · split
    · exact inv
    · split
      · exact inv
      · by_cases slice : 0 < (s.threads s.current).slice
        · simp only [slice, if_true]
          split
          · exact charged true
          · exact charged s.needResched
        · simp only [slice, if_false]
          split
          · exact flagged
          · exact inv

theorem HistoryInv.create {s : Sys} (inv : HistoryInv notify s) (core : CoreInv s)
    {args : ThreadCreateArgs} {mem stack : Option Nat}
    (unused : ∀ t, mem = some t → s.allocated t = false) :
    HistoryInv notify (threadCreate s args mem stack).1 := by
  unfold threadCreate
  split
  · exact inv
  · exact inv
  · rename_i t page
    have free : s.allocated t = false := unused t rfl
    dsimp only
    split
    · exact inv.kept ⟨rfl, rfl, rfl, rfl, fun _ => rfl, fun _ => rfl, fun _ => rfl⟩ rfl inv.alive
    · have notCurrent : s.current ≠ t := by
        rintro rfl
        rw [core.current_alloc] at free
        cases free
      have notIdle : idle ≠ t := by
        rintro rfl
        rw [core.idle_alloc] at free
        cases free
      have neverNamed : ∀ e ∈ s.trace, ¬ e.Names s.created := fun e member names =>
        Nat.lt_irrefl _ (inv.named e member _ names)
      have positive : 0 < s.created :=
        Nat.lt_of_le_of_lt (Nat.zero_le _) (inv.bounded idle core.idle_alloc)
      have neverRan : ¬ HasRun s.trace s.created := by
        rintro (zero | ⟨prev, point, member⟩)
        · omega
        · exact neverNamed _ member (Or.inr rfl)
      simp only [schedEntityInit, Sys.modify, Function.update_self, Function.update_idem]
      refine ⟨inv.registered, inv.reaped, ?_, ?_, ?_, ?_, ?_, ?_, ?_, ?_, ?_⟩
      · simpa only [Function.update_of_ne notCurrent] using inv.running
      · simpa only [Function.update_of_ne notIdle] using inv.boot
      · intro u alloc
        by_cases here : u = t
        · subst here
          simp
        · simp only [Function.update_of_ne here] at alloc ⊢
          exact Nat.lt_succ_of_lt (inv.bounded u alloc)
      · intro e member n names
        exact Nat.lt_succ_of_lt (inv.named e member n names)
      · intro u v uAlloc vAlloc same
        by_cases uNew : u = t
        · by_cases vNew : v = t
          · exact uNew.trans vNew.symm
          · simp only [uNew, Function.update_self, Function.update_of_ne vNew] at vAlloc same
            exact absurd same (Nat.ne_of_gt (inv.bounded v vAlloc))
        · by_cases vNew : v = t
          · simp only [vNew, Function.update_self, Function.update_of_ne uNew] at uAlloc same
            exact absurd same (Nat.ne_of_lt (inv.bounded u uAlloc))
          · simp only [Function.update_of_ne uNew, Function.update_of_ne vNew] at uAlloc vAlloc same
            exact inv.distinct u v uAlloc vAlloc same
      · intro u alloc
        by_cases here : u = t
        · subst here
          simp
        · simp only [Function.update_of_ne here] at alloc ⊢
          exact inv.alive u alloc
      · intro u alloc e member retires
        by_cases here : u = t
        · subst here
          simp only [Function.update_self] at retires
          exact neverNamed e member retires.names
        · simp only [Function.update_of_ne here] at alloc retires
          exact inv.unretired u alloc e member retires
      · simpa only [Function.update_of_ne notCurrent] using inv.currentRan
      · intro u alloc other
        by_cases here : u = t
        · subst here
          simp only [Function.update_self]
          exact ⟨fun ran => absurd ran neverRan, fun _ => trivial⟩
        · simp only [Function.update_of_ne here] at alloc ⊢
          exact inv.resumes u alloc other

theorem HistoryInv.blockCurrent {s : Sys} (inv : HistoryInv notify s) :
    HistoryInv notify (threadBlockCurrent s) := by
  refine inv.kept (kept_modify (t := s.current) (f := fun k => { k with state := .blocked }) rfl
    (fun _ => ⟨rfl, rfl, rfl⟩) rfl rfl rfl rfl) rfl fun u alloc => ?_
  by_cases here : u = s.current
  · subst here
    simp [threadBlockCurrent]
  · simpa [threadBlockCurrent, here] using inv.alive u alloc

/-- An exit whose replacement, if there is one, is fresh. -/
theorem HistoryInv.replace {s : Sys} (inv : HistoryInv notify s) (thread : ThreadInv s)
    (other : s.current ≠ idle) {replacement : UInt64}
    (fresh : ∀ t, capResolve s.caps replacement capRCtl = some t → Fresh s t)
    (ran : SuccessorRan s replacement) : HistoryInv notify (threadReplaceCurrent s replacement) := by
  have running : (s.threads s.current).state = .running :=
    thread.picked fun zero => other (thread.unpicked zero).1
  obtain ⟨core, current⟩ := thread.toCoreInv.enqueueReplacement replacement
  have step : HistoryInv notify (enqueueReplacement s replacement) ∧
      ((enqueueReplacement s replacement).threads s.current).state = .running ∧
      ∀ t, ((enqueueReplacement s replacement).threads t).lr = (s.threads t).lr := by
    unfold enqueueReplacement
    split
    · split
      · rename_i rep resolved
        refine ⟨inv.enqueueReady rep, ?_, fun t => ?_⟩
        · have notCurrent : s.current ≠ rep := by
            rintro rfl
            have blocked := (fresh _ resolved).1
            rw [running] at blocked
            cases blocked
          unfold schedEnqueueReady
          split
          · exact running
          · simpa [notCurrent] using running
        · unfold schedEnqueueReady
          split
          · rfl
          · by_cases here : t = rep
            · subst here; simp
            · simp [here]
      · exact ⟨inv, running, fun _ => rfl⟩
    · exact ⟨inv, running, fun _ => rfl⟩
  obtain ⟨history, running', lr⟩ := step
  rw [← current] at running'
  exact history.retire core running' (by rw [current]; exact other)
    fun t picked => (lr t).trans (ran t picked)

theorem historyStep_inv {s : Sys} (thread : ThreadInv s) (inv : HistoryInv notify s) {op : ThreadOp}
    (enabled : threadEnabled s op) (ran : RanBefore s op) : HistoryInv notify (threadStep s op) := by
  cases op with
  | create args mem stack => exact inv.create thread.toCoreInv enabled.2
  | wake cap => exact inv.wake cap
  | schedule => exact inv.switchAway thread.toCoreInv
  | scheduleIfNeeded =>
      simp only [threadStep, scheduleIfNeeded]
      split
      · exact inv.switchAway thread.toCoreInv
      · exact inv
  | block => exact inv.blockCurrent.switchAway (CoreInv.blockCurrent thread enabled)
  | tick => exact inv.tick
  | exit =>
      refine inv.replace thread enabled (fun t resolved => ?_) ran
      simp [capResolve, capValid] at resolved
  | replace cap => exact inv.replace thread enabled.1 enabled.2 ran

theorem historyInv_boot (links : Links Node) (notify : Bool) :
    HistoryInv notify (Sys.boot links notify) := by
  have thread := threadInv_boot links notify
  obtain ⟨threads, allocated, current, trace, created, registered⟩ :
      (∀ t, ((Sys.boot links notify).threads t).serial = 0) ∧
        (∀ t, (Sys.boot links notify).allocated t = (t == idle)) ∧
        (Sys.boot links notify).current = idle ∧ (Sys.boot links notify).trace = [] ∧
        (Sys.boot links notify).created = 1 ∧ (Sys.boot links notify).exitNotify = notify := by
    have notQueued : queued ((schedEntityInit { schedInit (Sys.reset links notify) with
        current := idle, idleThread := some idle } idle schedPrioIdle).modify idle
          fun k => { k with state := .ready }) idle = false := by
      simp [queued, schedEntityInit, Sys.modify]
    simp only [Sys.boot, threadSubsysInit, schedSetIdle, schedEnqueueReady, notQueued,
      Bool.false_eq_true, if_false]
    refine ⟨fun t => ?_, fun _ => rfl, rfl, rfl, rfl, rfl⟩
    by_cases here : t = idle
    · subst here
      simp [schedEntityInit, schedInit, Sys.reset, idleKthread]
    · simp [schedEntityInit, schedInit, Sys.reset, idleKthread, Sys.modify, here]
  have only : ∀ t, (Sys.boot links notify).allocated t = true → t = idle := by
    intro t alloc
    rw [allocated] at alloc
    simpa using alloc
  refine ⟨registered, ?_, ?_, threads idle, ?_, ?_, ?_, ?_, ?_, ?_, ?_⟩
  · rw [trace]
    exact ⟨by simp, by simp, by simp⟩
  · rw [trace, current, threads]; rfl
  · intro t _
    rw [threads, created]
    exact Nat.one_pos
  · rw [trace]; simp
  · intro t u tAlloc uAlloc _
    rw [only t tAlloc, only u uAlloc]
  · intro t alloc dead
    rw [only t alloc] at dead
    rcases thread.idle_state with ready | running
    · rw [ready] at dead; cases dead
    · rw [running] at dead; cases dead
  · rw [trace]; simp
  · exact Or.inl (by rw [threads])
  · intro t alloc other
    exact absurd ((only t alloc).trans current.symm) other

/-- **Every dead thread is reaped, once and at once,** in every run in which each
exiting thread is followed by one that has run before. -/
theorem dead_threads_reaped (links : Links Node) (notify : Bool) (ops : List ThreadOp)
    (admitted : (threadMachine.guard RanBefore).Admits (Sys.boot links notify) ops) :
    Reaped notify (threadMachine.run (Sys.boot links notify) ops).trace := by
  have inv : ThreadInv (threadMachine.run (Sys.boot links notify) ops) ∧
      HistoryInv notify (threadMachine.run (Sys.boot links notify) ops) := by
    rw [← threadMachine.guard_run RanBefore]
    refine (threadMachine.guard RanBefore).run_invariant
      (I := fun s => ThreadInv s ∧ HistoryInv notify s) (fun s op inv enabled => ?_)
      ⟨threadInv_boot links notify, historyInv_boot links notify⟩ admitted
    exact ⟨threadStep_inv inv.1 enabled.1, historyStep_inv inv.1 inv.2 enabled.1 enabled.2⟩
  exact inv.2.reaped

/-- Thread 1 runs and exits into the idle thread, which has run before. -/
theorem dead_threads_reaped_exit_to_idle :
    let ops := [.create ⟨20, 0, 0, 5⟩ (some 1) (some 7), .wake (capMake 1 1), .schedule, .exit]
    (threadMachine.guard RanBefore).Admits (Sys.boot ⟨id, id⟩ true) ops ∧
      Reaped true (threadMachine.run (Sys.boot ⟨id, id⟩ true) ops).trace :=
  have admitted : (threadMachine.guard RanBefore).Admits (Sys.boot ⟨id, id⟩ true) _ := by
    decide +kernel
  ⟨admitted, dead_threads_reaped ⟨id, id⟩ true _ admitted⟩

/-- Thread 1 replaces itself by a fresh thread, as `execve` does: the fresh one
leaves through `ret_to_user`, and thread 1 is neither notified nor freed. -/
theorem fresh_replacement_leaks :
    let ops := [.create ⟨20, 0, 0, 5⟩ (some 1) (some 7), .wake (capMake 1 1), .schedule,
      .create ⟨20, 0, 0, 5⟩ (some 2) (some 8), .replace (capMake 2 2)]
    threadMachine.Admits (Sys.boot ⟨id, id⟩ true) ops ∧
      ¬ Reaped true (threadMachine.run (Sys.boot ⟨id, id⟩ true) ops).trace := by
  intro ops
  have trace : (threadMachine.run (Sys.boot ⟨id, id⟩ true) ops).trace =
      [.switched 0 1 .retToUser, .marked 1 5, .switched 1 2 .retToUser] := by decide +kernel
  refine ⟨by decide +kernel, fun reaped => ?_⟩
  obtain ⟨next, rest, eq, -⟩ := reaped.prompt [.switched 0 1 .retToUser] 1 5
    [.switched 1 2 .retToUser] trace
  simp [reaping] at eq

end Minus.Core.Thread
