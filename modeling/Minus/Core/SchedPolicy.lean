/-
# Core.SchedPolicy — which thread is picked, and when

`sched_pick_next` takes the head of the best queue that is not empty, after the
current thread, if still running, went to the end of its own.  The lists of
`RunQueues` follow every operation (`threadStep_queues`): at most one thread is
appended to one of them, and a pick takes off the head of the best.

Two things come from that.  In every list the threads stand in the order in which
they became ready (`Aged`), so a pick takes the thread that has waited longest
(`schedPickNext_policy`).  And a thread with `j` others ahead of it is picked by
the `j + 1`-th pick at the latest, while no better thread is there to be picked
(`picked_in_turn`).
-/
import Minus.Core.Thread

namespace Minus.Core.Thread

set_option autoImplicit false

open Minus.Theory Minus.Lib.Dlist Minus.Core.Cap

/-! ## Ready threads -/

def Ready (s : Sys) (t : Tid) : Prop := s.allocated t = true ∧ (s.threads t).state = .ready

instance (s : Sys) (t : Tid) : Decidable (Ready s t) := instDecidableAnd

/-- What a pick chooses from: the ready threads, and the current one if it is still running. -/
def Candidate (s : Sys) (t : Tid) : Prop := Ready s t ∨ t = s.current ∧ (s.threads t).state = .running

theorem Candidate.alloc {s : Sys} {t : Tid} (candidate : Candidate s t) (alloc : s.allocated s.current = true) :
    s.allocated t = true := by
  rcases candidate with ready | ⟨rfl, -⟩
  · exact ready.1
  · exact alloc

/-- At most one thread, not ready before, has been put at the end of a queue. -/
def Grown (s : Sys) (queues queues' : Nat → List Tid) : Prop :=
  queues' = queues ∨ ∃ p t, ¬ Ready s t ∧ queues' = Function.update queues p (queues p ++ [t])

section Queues

variable {s s' x : Sys} {queues queues' : Nat → List Tid} {t next : Tid} {op : ThreadOp}

namespace RunQueues

theorem mem_ready (rq : RunQueues s queues) {p : Nat} (member : t ∈ queues p) :
    Ready s t ∧ (s.threads t).prio = p :=
  have facts := (rq.mem_iff p t).1 member
  ⟨⟨facts.2.1, facts.2.2.1⟩, facts.2.2.2⟩

theorem nodup (rq : RunQueues s queues) (p : Nat) : (queues p).Nodup := by
  by_cases inRange : p < schedPrioMax
  · exact (List.nodup_cons.1 (rq.family.ring p inRange).nodup).2.of_map _
  · have none_ : queues p = [] :=
      List.eq_nil_iff_forall_not_mem.2 fun t member => inRange ((rq.mem_iff p t).1 member).1
    simp [none_]

/-- The links determine the lists. -/
theorem unique (rq : RunQueues s queues) (rq' : RunQueues s' queues') (links : s'.links = s.links) :
    queues' = queues := by
  funext p
  by_cases inRange : p < schedPrioMax
  · have same := (rq'.family.ring p inRange).unique (links ▸ rq.family.ring p inRange)
    exact List.map_injective_iff.2 (fun _ _ => Node.thread.inj) same
  · have none_ : ∀ {s queues}, RunQueues s queues → queues p = [] := fun rq =>
      List.eq_nil_iff_forall_not_mem.2 fun t member => inRange ((rq.mem_iff p t).1 member).1
    rw [none_ rq, none_ rq']

/-- `sched_enqueue_ready`, with the lists. -/
theorem enqueueReady (rq : RunQueues s queues) (alloc : s.allocated t = true) :
    ∃ queues', RunQueues (schedEnqueueReady s t) queues' ∧ Grown s queues queues' := by
  by_cases ready : (s.threads t).state = .ready
  · have isQueued : queued s t = true := (rq.queued_iff alloc).2 ready
    have unchanged : schedEnqueueReady s t = s := by simp [schedEnqueueReady, isQueued]
    exact ⟨queues, by rw [unchanged]; exact rq, .inl rfl⟩
  · exact ⟨_, rq.enqueue alloc ready, .inr ⟨_, t, fun isReady => ready isReady.2, rfl⟩⟩

/-- The head of the first queue that is not empty. -/
theorem pickHighest_head (rq : RunQueues s queues) (picked : pickHighest s = some next) :
    ∃ p rest, queues p = next :: rest ∧ ∀ q < p, queues q = [] := by
  rw [rq.pickHighest_eq, List.findSome?_eq_some_iff] at picked
  obtain ⟨before, p, behind, range, head, none_⟩ := picked
  obtain ⟨rest, list⟩ := List.head?_eq_some_iff.1 head
  refine ⟨p, rest, list, fun q better => ?_⟩
  -- the queues before it in the range are the better ones
  have sorted : (before ++ p :: behind).Pairwise (· < ·) := range ▸ List.pairwise_lt_range
  have inRange : p < schedPrioMax := List.mem_range.1 (range ▸ List.mem_append_right _ List.mem_cons_self)
  have member : q ∈ before ++ p :: behind := range ▸ List.mem_range.2 (Nat.lt_trans better inRange)
  obtain ⟨-, behind_, -⟩ := List.pairwise_append.1 sorted
  rcases List.mem_append.1 member with member | member
  · exact List.head?_eq_none_iff.1 (none_ q member)
  · rcases List.mem_cons.1 member with rfl | member
    · exact absurd better (Nat.lt_irrefl _)
    · exact absurd better (Nat.lt_asymm ((List.pairwise_cons.1 behind_).1 q member))

end RunQueues

/-! ## One pick -/

/-- The lists with `cur` put back in line. -/
def requeuedQueues (s : Sys) (queues : Nat → List Tid) : Nat → List Tid :=
  if (s.threads s.current).state = .running then
    Function.update queues (s.threads s.current).prio (queues (s.threads s.current).prio ++ [s.current])
  else queues

/-- What a pick does to the lists: the current thread, if running, comes last in its own, and the first
thread of the best list is taken. -/
structure Picked (s : Sys) (queues : Nat → List Tid) (p : Nat) (next : Tid) (rest : List Tid) (s' : Sys) : Prop where
  pick : schedPickNext s = some (s', next)
  mem_iff : ∀ p t, t ∈ requeuedQueues s queues p ↔ p < schedPrioMax ∧ Candidate s t ∧ (s.threads t).prio = p
  head : requeuedQueues s queues p = next :: rest
  best : ∀ q < p, requeuedQueues s queues q = []
  after : RunQueues s' (Function.update (requeuedQueues s queues) p rest)

/-- The current thread is not put back in line where it has blocked or is dead. -/
theorem requeuedQueues_of_stopped (stopped : (s.threads s.current).state ≠ .running) :
    requeuedQueues s queues = queues := if_neg stopped

theorem requeuedQueues_grown (s : Sys) (queues : Nat → List Tid) : Grown s queues (requeuedQueues s queues) := by
  by_cases running : (s.threads s.current).state = .running
  · exact .inr ⟨_, s.current, by simp [Ready, running], if_pos running⟩
  · exact .inl (if_neg running)

/-- Putting `cur` back in line. -/
theorem RunQueues.requeueCurrent (rq : RunQueues s queues) (alloc : s.allocated s.current = true) :
    RunQueues (requeueCurrent s) (requeuedQueues s queues) := by
  rw [Thread.requeueCurrent, requeuedQueues]
  split
  · exact rq.enqueue alloc (by simp [*])
  · exact rq

/-- The threads to pick from are then the ready ones. -/
theorem requeueCurrent_ready (rq : RunQueues s queues) (alloc : s.allocated s.current = true) (t : Tid) :
    (Ready (requeueCurrent s) t ↔ Candidate s t) ∧ ((requeueCurrent s).threads t).prio = (s.threads t).prio := by
  rw [requeueCurrent]
  split
  · obtain ⟨links, queues', eq, -⟩ := schedEnqueueReady_spec rq alloc
    rw [eq]
    by_cases here : t = s.current
    · subst here
      simp [Ready, Candidate, *]
    · simp [Ready, Candidate, here]
  · have other : ¬ (t = s.current ∧ (s.threads t).state = .running) := by
      rintro ⟨rfl, running⟩
      exact absurd running ‹_›
    simp [Candidate, other]

/-- **`sched_pick_next`, with the lists.** -/
theorem RunQueues.schedPickNext (rq : RunQueues s queues) (alloc : s.allocated s.current = true)
    (some_ : ∃ t, Candidate s t) : ∃ p next rest s', Picked s queues p next rest s' := by
  have rq₀ : RunQueues { s with needResched := false, picks := s.picks + 1 } queues :=
    rq.congr rfl rfl (fun _ _ => Iff.rfl) fun _ _ => rfl
  have rq₁ := rq₀.requeueCurrent alloc
  have ready := fun t => requeueCurrent_ready rq₀ alloc t
  obtain ⟨t, candidate⟩ := some_
  have isReady := (ready t).1.2 candidate
  obtain ⟨next, picked⟩ := rq₁.pickHighest_isSome isReady.1 isReady.2
  obtain ⟨p, rest, head, best⟩ := rq₁.pickHighest_head picked
  have after := rq₁.dequeue (p := p) (t := next) (head ▸ List.mem_cons_self)
    (f := fun k => { k with slice := schedSliceTicks, state := .running }) (by simp) rfl
  have erased : (next :: rest).erase next = rest := by simp
  rw [head, erased] at after
  refine ⟨p, next, rest, dequeuePicked (Thread.requeueCurrent { s with needResched := false, picks := s.picks + 1 }) next,
    by simp [Thread.schedPickNext, picked], fun q u => ?_, head, best, after⟩
  have member := rq₁.mem_iff q u
  rw [(ready u).2, ← and_assoc (b := _ = SchedState.ready)] at member
  exact member.trans (and_congr_right fun _ => and_congr_left fun _ => (ready u).1)

/-! ## The order of a pick -/

/-- Every list is in the order in which its threads became ready, `since` saying when. -/
structure Aged (s : Sys) (since : Tid → Nat) (clock : Nat) : Prop where
  lists : ∃ queues, RunQueues s queues ∧ ∀ p, (queues p).Pairwise fun t u => since t < since u
  before : ∀ t, Ready s t → since t < clock
  current_alloc : s.allocated s.current = true
  some_ : ∃ t, Candidate s t

/-- When a thread was queued, for the pick: the current thread is queued last. -/
def queuedAt (s : Sys) (since : Tid → Nat) (clock : Nat) (t : Tid) : Nat := if Ready s t then since t else clock

section Order

variable {since : Tid → Nat} {clock : Nat}

/-- A thread that is appended comes last. -/
theorem Grown.pairwise (grown : Grown s queues queues') (before : ∀ t, Ready s t → since t < clock)
    (rq : RunQueues s queues) (sorted : ∀ p, (queues p).Pairwise fun t u => since t < since u) (p : Nat) :
    (queues' p).Pairwise fun t u => queuedAt s since clock t < queuedAt s since clock u := by
  have old : ∀ p, (queues p).Pairwise fun t u => queuedAt s since clock t < queuedAt s since clock u := by
    intro p
    refine (sorted p).imp_of_mem fun {t u} first second less => ?_
    rw [queuedAt, queuedAt, if_pos (rq.mem_ready first).1, if_pos (rq.mem_ready second).1]
    exact less
  rcases grown with rfl | ⟨q, last, notReady, rfl⟩
  · exact old p
  · by_cases here : p = q
    · rw [here, Function.update_self]
      refine List.pairwise_append.2 ⟨old _, List.pairwise_singleton _ _, fun t member u same => ?_⟩
      have ready := (rq.mem_ready member).1
      rw [List.mem_singleton.1 same, queuedAt, queuedAt, if_pos ready, if_neg notReady]
      exact before t ready
    · rw [Function.update_of_ne here]
      exact old p

/-- **A pick takes the best priority, and the thread that has been queued longest.** -/
theorem schedPickNext_policy (aged : Aged s since clock) :
    ∃ s' next, schedPickNext s = some (s', next) ∧ Candidate s next ∧ ∀ t, Candidate s t → t ≠ next →
      (s.threads next).prio < (s.threads t).prio ∨
        (s.threads next).prio = (s.threads t).prio ∧ queuedAt s since clock next < queuedAt s since clock t := by
  obtain ⟨queues, rq, sorted⟩ := aged.lists
  obtain ⟨p, next, rest, s', picked⟩ := rq.schedPickNext aged.current_alloc aged.some_
  obtain ⟨inRange, candidate, prio⟩ := (picked.mem_iff p next).1 (picked.head ▸ List.mem_cons_self)
  refine ⟨s', next, picked.pick, candidate, fun t other ne => ?_⟩
  have sameRange : (s.threads t).prio < schedPrioMax := rq.prio_lt t (other.alloc aged.current_alloc)
  have member := (picked.mem_iff _ t).2 ⟨sameRange, other, rfl⟩
  rcases Nat.lt_trichotomy (s.threads t).prio p with better | same | worse
  · rw [picked.best _ better] at member
    cases member
  · rw [same, picked.head] at member
    have behind := (List.mem_cons.1 member).resolve_left ne
    have order := picked.head ▸ (requeuedQueues_grown s queues).pairwise aged.before rq sorted p
    exact .inr ⟨prio.trans same.symm, (List.pairwise_cons.1 order).1 t behind⟩
  · exact .inl (prio ▸ worse)

end Order

/-! ## One operation -/

/-- `thread_replace_current` up to the switch. -/
def markedDead (s : Sys) (replacement : UInt64) : Sys :=
  schedMarkDead (enqueueReplacement s replacement) (enqueueReplacement s replacement).current

/-- The state in which an operation calls `sched_pick_next`. -/
def pickState (s : Sys) : ThreadOp → Option Sys
  | .schedule => some s
  | .scheduleIfNeeded => if s.needResched then some s else none
  | .block => some (threadBlockCurrent s)
  | .exit => some (markedDead s capNull)
  | .replace replacement => some (markedDead s replacement)
  | .create .. | .wake _ | .tick => none

/-- The thread that an operation picks. -/
def pickOf (s : Sys) (op : ThreadOp) : Option Tid := (pickState s op).bind fun x => (schedPickNext x).map Prod.snd

theorem threadStep_pick (there : pickState s op = some x) : threadStep s op = switchAway x := by
  cases op with
  | scheduleIfNeeded =>
      simp only [pickState] at there
      split at there
      · cases there
        simp [threadStep, scheduleIfNeeded, schedule, *]
      · cases there
  | create | wake | tick => cases there
  | schedule | block | exit | replace =>
      cases there
      rfl

theorem finishSwitch_same (s : Sys) (prev : Option Tid) :
    (finishSwitch s prev).links = s.links ∧ (finishSwitch s prev).current = s.current := by
  have notified : ∀ (s : Sys) k, (exitNotify s k).links = s.links ∧ (exitNotify s k).current = s.current := by
    intro s k
    rw [exitNotify]
    split <;> exact ⟨rfl, rfl⟩
  cases prev with
  | none => exact ⟨rfl, rfl⟩
  | some t =>
      simp only [finishSwitch]
      split
      · exact notified _ _
      · exact ⟨rfl, rfl⟩

/-- After the pick a switch leaves the links alone, and the picked thread is the current one. -/
theorem switchAway_picked (pick : schedPickNext s = some (s', next)) (same : s'.current = s.current) :
    (switchAway s).links = s'.links ∧ (switchAway s).current = next := by
  simp only [switchAway, pick]
  split
  · exact ⟨rfl, same.trans (Eq.symm ‹_›)⟩
  · split
    · exact finishSwitch_same _ _
    · exact ⟨rfl, rfl⟩

/-- Marking the current thread, which is on no list, dead. -/
theorem RunQueues.markDead (rq : RunQueues s queues) (alloc : s.allocated t = true)
    (other : (s.threads t).state ≠ .ready) :
    RunQueues (schedMarkDead s t) queues ∧ (schedMarkDead s t).current = s.current ∧
      ((schedMarkDead s t).threads t).state = .dead := by
  obtain ⟨links, queues', eq, rq'⟩ := schedMarkDead_spec rq alloc
  have notQueued : queued s t = false := by
    rw [← Bool.not_eq_true, rq.queued_iff alloc]
    exact other
  have links_ : (schedMarkDead s t).links = s.links := by simp [schedMarkDead, notQueued, Sys.modify, Sys.log]
  rw [rq.unique rq' links_] at rq'
  exact ⟨rq', by rw [eq], by simp [eq]⟩

/-- The lists at the switch of `thread_replace_current`. -/
theorem markedDead_queues (inv : ThreadInv s) (other : s.current ≠ idle) (rq : RunQueues s queues)
    {replacement : UInt64}
    (fresh : replacement ≠ capNull → ∀ t, capResolve s.caps replacement capRCtl = some t → Fresh s t) :
    CoreInv (markedDead s replacement) ∧ ∃ queues', RunQueues (markedDead s replacement) queues' ∧
      Grown s queues (requeuedQueues (markedDead s replacement) queues') := by
  have running : (s.threads s.current).state = .running := inv.picked fun zero => other (inv.unpicked zero).1
  obtain ⟨core, current⟩ := inv.toCoreInv.enqueueReplacement replacement
  -- the replacement, which is another thread, may have been appended
  obtain ⟨queues', rq', grown, still⟩ : ∃ queues', RunQueues (enqueueReplacement s replacement) queues' ∧
      Grown s queues queues' ∧ ((enqueueReplacement s replacement).threads s.current).state = .running := by
    rw [enqueueReplacement]
    split
    · cases resolved : capResolve s.caps replacement capRCtl with
      | none => exact ⟨queues, rq, .inl rfl, running⟩
      | some t =>
          have ne : s.current ≠ t := by
            rintro rfl
            have blocked := (fresh ‹_› _ resolved).1
            rw [running] at blocked
            cases blocked
          have alloc := inv.toCoreInv.resolve_alloc resolved
          obtain ⟨queues', rq', grown⟩ := rq.enqueueReady alloc
          obtain ⟨links, -, eq, -⟩ := schedEnqueueReady_spec rq alloc
          exact ⟨queues', rq', grown, by simp [eq, ne, running]⟩
    · exact ⟨queues, rq, .inl rfl, running⟩
  have dead := rq'.markDead core.current_alloc (by rw [current, still]; simp)
  refine ⟨core.markDead (by rw [current]; exact other), queues', dead.1, ?_⟩
  rw [requeuedQueues_of_stopped]
  · exact grown
  · rw [markedDead, dead.2.1, dead.2.2]
    simp

/-- The lists that an operation finds when it picks. -/
theorem pickState_queues (inv : ThreadInv s) (enabled : threadEnabled s op) (rq : RunQueues s queues)
    (there : pickState s op = some x) :
    CoreInv x ∧ ∃ queues', RunQueues x queues' ∧ Grown s queues (requeuedQueues x queues') := by
  cases op with
  | create | wake | tick => cases there
  | schedule =>
      cases there
      exact ⟨inv.toCoreInv, queues, rq, requeuedQueues_grown s queues⟩
  | scheduleIfNeeded =>
      simp only [pickState] at there
      split at there
      · cases there
        exact ⟨inv.toCoreInv, queues, rq, requeuedQueues_grown s queues⟩
      · cases there
  | block =>
      cases there
      have running : (s.threads s.current).state = .running := inv.picked fun zero => enabled (inv.unpicked zero).1
      refine ⟨CoreInv.blockCurrent inv enabled, queues, rq.modify s.current (by simp [running]) rfl, .inl ?_⟩
      exact requeuedQueues_of_stopped (by simp [threadBlockCurrent, Sys.modify])
  | exit =>
      cases there
      exact markedDead_queues inv enabled rq fun some_ => absurd rfl some_
  | replace replacement =>
      cases there
      exact markedDead_queues inv enabled.1 rq fun _ => enabled.2

/-- A new thread is on no list. -/
theorem RunQueues.threadCreate (rq : RunQueues s queues) {args : ThreadCreateArgs} {mem stack : Option Nat}
    (prio : args.prio < schedPrioMax) (unused : ∀ t, mem = some t → s.allocated t = false) :
    RunQueues (threadCreate s args mem stack).1 queues := by
  cases mem with
  | none => exact rq
  | some t =>
      cases stack with
      | none => exact rq
      | some page =>
          simp only [Thread.threadCreate]
          split
          · exact rq.congr rfl rfl (fun _ _ => Iff.rfl) fun _ _ => rfl
          · simp only [schedEntityInit, Sys.modify, Function.update_self, Function.update_idem]
            exact rq.create (unused t rfl) prio rfl rfl rfl (by simp) rfl

theorem threadTick_links (s : Sys) : (threadTick s).links = s.links := by
  rw [threadTick, schedTick]
  split
  · rfl
  · split
    · rfl
    · split
      · rfl
      · by_cases slice : 0 < (s.threads s.current).slice
        · simp only [slice, if_true]
          split <;> rfl
        · simp only [slice, if_false]
          split <;> rfl

/-- Operations that do not pick. -/
theorem quiet_queues (inv : ThreadInv s) (enabled : threadEnabled s op) (rq : RunQueues s queues)
    (none_ : pickState s op = none) : ∃ queues', RunQueues (threadStep s op) queues' ∧ Grown s queues queues' := by
  cases op with
  | create args mem stack => exact ⟨queues, rq.threadCreate enabled.1 enabled.2, .inl rfl⟩
  | wake cap =>
      simp only [threadStep, threadWake]
      cases resolved : capResolve s.caps cap capRCtl with
      | none => exact ⟨queues, rq, .inl rfl⟩
      | some t =>
          simp only [schedWake]
          split
          · exact ⟨queues, rq, .inl rfl⟩
          · exact rq.enqueueReady (inv.toCoreInv.resolve_alloc resolved)
  | tick =>
      obtain ⟨queues', rq'⟩ := inv.tick.queues
      exact ⟨queues', rq', .inl (rq.unique rq' (threadTick_links s))⟩
  | scheduleIfNeeded =>
      simp only [pickState] at none_
      split at none_
      · cases none_
      · exact ⟨queues, by simp [threadStep, scheduleIfNeeded, *], .inl rfl⟩
  | schedule | block | exit | replace => cases none_

/-- In a state of the core invariant there is always a thread to pick. -/
theorem CoreInv.candidate (core : CoreInv s) : ∃ t, Candidate s t := by
  refine ⟨idle, ?_⟩
  rcases core.idle_state with ready | running
  · exact .inl ⟨core.idle_alloc, ready⟩
  · exact .inr ⟨core.running idle core.idle_alloc running, running⟩

/-- **What one operation does to the lists.**  Without a pick at most one thread is appended; a pick
moreover takes the first thread of the best list, and it is the current one afterwards. -/
theorem threadStep_queues (inv : ThreadInv s) (enabled : threadEnabled s op) (rq : RunQueues s queues) :
    (pickState s op = none ∧ ∃ queues', RunQueues (threadStep s op) queues' ∧ Grown s queues queues') ∨
      ∃ x queues' p next rest s', pickState s op = some x ∧ Grown s queues (requeuedQueues x queues') ∧
        Picked x queues' p next rest s' ∧ (threadStep s op).current = next ∧
        RunQueues (threadStep s op) (Function.update (requeuedQueues x queues') p rest) := by
  cases there : pickState s op with
  | none => exact .inl ⟨rfl, quiet_queues inv enabled rq there⟩
  | some x =>
      obtain ⟨core, queues', rq', grown⟩ := pickState_queues inv enabled rq there
      obtain ⟨p, next, rest, s', picked⟩ := rq'.schedPickNext core.current_alloc core.candidate
      have current : s'.current = x.current := by
        obtain ⟨next', links, -, pick, -⟩ := schedPickNext_spec core
        have same := picked.pick.symm.trans pick
        simp only [Option.some.injEq, Prod.mk.injEq] at same
        rw [same.1]
        rfl
      obtain ⟨links, current⟩ := switchAway_picked picked.pick current
      obtain ⟨queues₂, rq₂⟩ := core.switchAway.queues
      rw [picked.after.unique rq₂ links, ← threadStep_pick there] at rq₂
      rw [← threadStep_pick there] at current
      exact .inr ⟨x, queues', p, next, rest, s', rfl, grown, picked, current, rq₂⟩

/-! ## The order along a run -/

/-- A system with the time at which each thread last became ready. -/
structure Clocked where
  sys : Sys
  since : Tid → Nat
  clock : Nat

namespace Clocked

def step (c : Clocked) (op : ThreadOp) : Clocked where
  sys := threadStep c.sys op
  since t := if Ready (threadStep c.sys op) t ∧ ¬ Ready c.sys t then c.clock else c.since t
  clock := c.clock + 1

/-- At boot only the idle thread is ready. -/
def boot (links : Links Node) (notify : Bool) : Clocked := ⟨Sys.boot links notify, fun _ => 0, 1⟩

def run (c : Clocked) (ops : List ThreadOp) : Clocked := ops.foldl step c

/-- Threads that are left of lists to which at most one was appended are in order. -/
theorem step_sorted {c : Clocked} (before : ∀ t, Ready c.sys t → c.since t < c.clock) (rq : RunQueues c.sys queues)
    (sorted : ∀ p, (queues p).Pairwise fun t u => c.since t < c.since u) {queues₁ queues' : Nat → List Tid}
    (grown : Grown c.sys queues queues₁) (rq' : RunQueues (c.step op).sys queues')
    (sub : ∀ p, (queues' p).Sublist (queues₁ p)) (p : Nat) :
    (queues' p).Pairwise fun t u => (c.step op).since t < (c.step op).since u := by
  have at_ : ∀ t, Ready (c.step op).sys t → (c.step op).since t = queuedAt c.sys c.since c.clock t := by
    intro t ready
    change Ready (threadStep c.sys op) t at ready
    by_cases was : Ready c.sys t
    · simp [step, queuedAt, was]
    · simp [step, queuedAt, was, ready]
  refine ((grown.pairwise before rq sorted p).sublist (sub p)).imp_of_mem fun {t u} first second less => ?_
  rw [at_ t (rq'.mem_ready first).1, at_ u (rq'.mem_ready second).1]
  exact less

/-- **Every operation keeps the lists in order.** -/
theorem step_aged {c : Clocked} (inv : ThreadInv c.sys) (aged : Aged c.sys c.since c.clock)
    (enabled : threadEnabled c.sys op) : Aged (c.step op).sys (c.step op).since (c.step op).clock := by
  obtain ⟨queues, rq, sorted⟩ := aged.lists
  have inv' : ThreadInv (c.step op).sys := threadStep_inv inv enabled
  refine ⟨?_, fun t ready => ?_, inv'.current_alloc, inv'.toCoreInv.candidate⟩
  · rcases threadStep_queues inv enabled rq with ⟨-, queues', rq', grown⟩ |
      ⟨x, queues₁, p, next, rest, s', -, grown, picked, -, rq'⟩
    · exact ⟨queues', rq', step_sorted aged.before rq sorted grown rq' fun _ => .refl _⟩
    · refine ⟨_, rq', step_sorted aged.before rq sorted grown rq' fun q => ?_⟩
      by_cases here : q = p
      · rw [here, Function.update_self, picked.head]
        exact List.sublist_cons_self ..
      · rw [Function.update_of_ne here]
  · show (if _ then c.clock else c.since t) < c.clock + 1
    split
    · exact Nat.lt_succ_self _
    · rename_i old
      have was : Ready c.sys t := by
        by_contra new
        exact old ⟨ready, new⟩
      exact Nat.lt_succ_of_lt (aged.before t was)

theorem run_sys (c : Clocked) (ops : List ThreadOp) : (c.run ops).sys = threadMachine.run c.sys ops := by
  induction ops generalizing c with
  | nil => rfl
  | cons op ops ih => exact ih (c.step op)

theorem boot_allocated {links : Links Node} {notify : Bool} (alloc : (Sys.boot links notify).allocated t = true) :
    t = idle := by
  have same : (Sys.boot links notify).allocated t = (t == idle) := by
    simp only [Sys.boot, threadSubsysInit, schedSetIdle, schedEnqueueReady]
    split <;> rfl
  rw [same] at alloc
  exact eq_of_beq alloc

/-- At boot the only list that is not empty holds the idle thread. -/
theorem boot_aged (links : Links Node) (notify : Bool) :
    Aged (boot links notify).sys (boot links notify).since (boot links notify).clock := by
  have inv := threadInv_boot links notify
  obtain ⟨queues, rq⟩ := inv.queues
  refine ⟨⟨queues, rq, fun p => ?_⟩, fun t _ => Nat.zero_lt_one, inv.current_alloc, inv.toCoreInv.candidate⟩
  refine (rq.nodup p).imp_of_mem fun {t u} first second ne => ?_
  have first := boot_allocated (rq.mem_ready first).1.1
  have second := boot_allocated (rq.mem_ready second).1.1
  exact absurd (first.trans second.symm) ne

/-- **In every reachable state the lists are in order.** -/
theorem run_aged (links : Links Node) (notify : Bool) {ops : List ThreadOp}
    (admitted : threadMachine.Admits (Sys.boot links notify) ops) :
    let c := (boot links notify).run ops
    Aged c.sys c.since c.clock := by
  have run : ∀ (ops : List ThreadOp) (c : Clocked), ThreadInv c.sys → Aged c.sys c.since c.clock →
      threadMachine.Admits c.sys ops → Aged (c.run ops).sys (c.run ops).since (c.run ops).clock := by
    intro ops
    induction ops with
    | nil => exact fun c _ aged _ => aged
    | cons op ops ih =>
        intro c inv aged admitted
        exact ih (c.step op) (threadStep_inv inv admitted.1) (step_aged inv aged admitted.1) admitted.2
  exact run ops _ (threadInv_boot links notify) (boot_aged links notify) admitted

end Clocked

/-! ## Waiting for a pick -/

/-- The threads picked along a run. -/
def picksAlong (s : Sys) : List ThreadOp → List Tid
  | [] => []
  | op :: ops => (pickOf s op).toList ++ picksAlong (threadStep s op) ops

/-- Nothing better than priority `p` is there to be picked; a running thread that stays runnable is ready
again within the pick. -/
def NoneBetter (p : Nat) (s : Sys) (op : ThreadOp) : Prop :=
  ∀ x, pickState s op = some x → ∀ t, Candidate x t → p ≤ (x.threads t).prio

/-- The threads of a list stay where they are, or move up by one. -/
theorem Grown.suffix (grown : Grown s queues queues') {p : Nat} {ahead behind : List Tid}
    (list : queues p = ahead ++ t :: behind) : ∃ behind', queues' p = ahead ++ t :: behind' := by
  rcases grown with rfl | ⟨q, last, -, rfl⟩
  · exact ⟨behind, list⟩
  · by_cases here : p = q
    · rw [here, Function.update_self, ← here, list]
      exact ⟨behind ++ [last], by simp⟩
    · exact ⟨behind, by rw [Function.update_of_ne here, list]⟩

/-- **A ready thread is picked in its turn**: by the `j + 1`-th pick, if `j` threads are ahead of it. -/
theorem picked_in_turn {p : Nat} {ops : List ThreadOp} {ahead behind : List Tid} (inv : ThreadInv s)
    (rq : RunQueues s queues) (list : queues p = ahead ++ t :: behind)
    (admitted : (threadMachine.guard (NoneBetter p)).Admits s ops) (enough : ahead.length < (picksAlong s ops).length) :
    t ∈ (picksAlong s ops).take (ahead.length + 1) := by
  induction ops generalizing s queues ahead behind with
  | nil => simp [picksAlong] at enough
  | cons op ops ih =>
      obtain ⟨⟨enabled, none_⟩, admitted⟩ := admitted
      have inv' : ThreadInv (threadStep s op) := threadStep_inv inv enabled
      rcases threadStep_queues inv enabled rq with ⟨quiet, queues', rq', grown⟩ |
        ⟨x, queues', q, next, rest, s', there, grown, picked, -, rq'⟩
      · obtain ⟨behind', list'⟩ := grown.suffix list
        have same : picksAlong s (op :: ops) = picksAlong (threadStep s op) ops := by simp [picksAlong, pickOf, quiet]
        rw [same] at enough ⊢
        exact ih inv' rq' list' admitted enough
      · have first : picksAlong s (op :: ops) = next :: picksAlong (threadStep s op) ops := by
          simp [picksAlong, pickOf, there, picked.pick]
        obtain ⟨behind', list'⟩ := grown.suffix list
        -- the pick is from the list of the thread
        have same : q = p := by
          obtain ⟨-, candidate, prio⟩ := (picked.mem_iff q next).1 (picked.head ▸ List.mem_cons_self)
          refine Nat.le_antisymm (Nat.le_of_not_lt fun less => ?_) (prio ▸ none_ x there next candidate)
          rw [picked.best p less] at list'
          simp at list'
        subst same
        have head := picked.head.symm.trans list'
        rw [first] at enough ⊢
        cases ahead with
        | nil =>
            rw [List.nil_append, List.cons.injEq] at head
            rw [head.1]
            exact List.mem_cons_self
        | cons u ahead =>
            rw [List.cons_append, List.cons.injEq] at head
            have left : Function.update (requeuedQueues x queues') q rest q = ahead ++ t :: behind' := by
              rw [Function.update_self, head.2]
            exact List.mem_cons_of_mem _ (ih inv' rq' left admitted (Nat.lt_of_succ_lt_succ enough))

/-- **The scheduling policy.**  A pick takes the best priority and, among equals, the thread that has been
queued longest; the states for which this is said include all that are reached; and a ready thread with
`j` others ahead of it is among the next `j + 1` picked, while nothing better is ready. -/
theorem scheduling_policy :
    (∀ (s : Sys) (since : Tid → Nat) (clock : Nat), Aged s since clock →
      ∃ s' next, schedPickNext s = some (s', next) ∧ Candidate s next ∧ ∀ t, Candidate s t → t ≠ next →
        (s.threads next).prio < (s.threads t).prio ∨
          (s.threads next).prio = (s.threads t).prio ∧ queuedAt s since clock next < queuedAt s since clock t) ∧
      (∀ (links : Links Node) (notify : Bool) (ops : List ThreadOp),
        threadMachine.Admits (Sys.boot links notify) ops →
          ThreadInv (threadMachine.run (Sys.boot links notify) ops) ∧
            Aged (threadMachine.run (Sys.boot links notify) ops) ((Clocked.boot links notify).run ops).since
              ((Clocked.boot links notify).run ops).clock) ∧
      ∀ (s : Sys) (queues : Nat → List Tid) (p : Nat) (ahead behind : List Tid) (t : Tid) (ops : List ThreadOp),
        ThreadInv s → RunQueues s queues → queues p = ahead ++ t :: behind →
          (threadMachine.guard (NoneBetter p)).Admits s ops → ahead.length < (picksAlong s ops).length →
            t ∈ (picksAlong s ops).take (ahead.length + 1) := by
  refine ⟨fun s since clock => schedPickNext_policy, fun links notify ops admitted => ⟨?_, ?_⟩, ?_⟩
  · exact threadMachine.run_invariant (I := ThreadInv) (fun s op inv enabled => threadStep_inv inv enabled)
      (threadInv_boot links notify) admitted
  · have aged := Clocked.run_aged links notify admitted
    have same := Clocked.run_sys (Clocked.boot links notify) ops
    simp only [same] at aged
    exact aged
  · exact fun s queues p ahead behind t ops inv rq list admitted enough => picked_in_turn inv rq list admitted enough

/-- Nothing better than priority `p` is ready if the lists before it are empty. -/
theorem noneBetter_schedule {p : Nat} (inv : ThreadInv s) (empty : ∀ q < p, dlistEmpty s.links (.queue q) = true)
    (current : p ≤ (s.threads s.current).prio) : NoneBetter p s .schedule := by
  rintro x ⟨⟩ t candidate
  rcases candidate with ready | ⟨rfl, -⟩
  · obtain ⟨queues, rq⟩ := inv.queues
    refine Nat.le_of_not_lt fun less => ?_
    have range := rq.prio_lt t ready.1
    have none_ := (dlistEmpty_iff rq.family range).1 (empty _ less)
    have member : t ∈ queues (s.threads t).prio := (rq.mem_iff _ t).2 ⟨range, ready.1, ready.2, rfl⟩
    exact absurd (List.mem_map_of_mem member) (none_ ▸ List.not_mem_nil)
  · exact current

theorem noneBetter_twice {p : Nat} (first : NoneBetter p s .schedule)
    (second : NoneBetter p (threadStep s .schedule) .schedule) :
    (threadMachine.guard (NoneBetter p)).Admits s [.schedule, .schedule] :=
  ⟨⟨trivial, first⟩, ⟨trivial, second⟩, trivial⟩

def threeThreads : List ThreadOp :=
  [.create ⟨20, 0, 0, 5⟩ (some 1) (some 7), .create ⟨20, 0, 0, 5⟩ (some 2) (some 8),
    .create ⟨20, 0, 0, 5⟩ (some 3) (some 9), .wake (capMake 1 1), .wake (capMake 2 2), .wake (capMake 3 3), .schedule]

/-- Thread 1 runs, 2 and 3 of the same priority wait, and the second of the two is picked second. -/
theorem scheduling_policy_third :
    let s := threadMachine.run (Sys.boot ⟨id, id⟩ true) threeThreads
    s.current = 1 ∧ (∃ queues, RunQueues s queues ∧ queues 20 = [2] ++ [3]) ∧
      picksAlong s [.schedule, .schedule] = [2, 3] ∧ 3 ∈ (picksAlong s [.schedule, .schedule]).take 2 := by
  intro s
  have admitted : threadMachine.Admits (Sys.boot ⟨id, id⟩ true) threeThreads := by decide +kernel
  obtain ⟨running, picks⟩ : s.current = 1 ∧ picksAlong s [.schedule, .schedule] = [2, 3] := by decide +kernel
  obtain ⟨first, second, third⟩ : (s.links.next (.queue 20) = .thread 2 ∧ s.links.prev (.thread 2) = .queue 20) ∧
      (s.links.next (.thread 2) = .thread 3 ∧ s.links.prev (.thread 3) = .thread 2) ∧
        s.links.next (.thread 3) = .queue 20 ∧ s.links.prev (.queue 20) = .thread 3 := by decide +kernel
  have inv : ThreadInv s := (scheduling_policy.2.1 ⟨id, id⟩ true threeThreads admitted).1
  have inv' : ThreadInv (threadStep s .schedule) := threadStep_inv inv trivial
  obtain ⟨queues, rq⟩ := inv.queues
  have ring : s.links.Ring (.queue 20) [.thread 2, .thread 3] := ⟨⟨first, second, third⟩, by decide⟩
  have list : queues 20 = [2] ++ [3] := by
    have same := (rq.family.ring 20 (by decide)).unique ring
    exact List.map_injective_iff.2 (fun _ _ => Node.thread.inj) same
  obtain ⟨empty, prio⟩ : (∀ q < 20, dlistEmpty s.links (.queue q) = true) ∧ 20 ≤ (s.threads s.current).prio := by
    decide +kernel
  obtain ⟨empty', prio'⟩ : (∀ q < 20, dlistEmpty (threadStep s .schedule).links (.queue q) = true) ∧
      20 ≤ ((threadStep s .schedule).threads (threadStep s .schedule).current).prio := by decide +kernel
  have turns := noneBetter_twice (noneBetter_schedule inv empty prio) (noneBetter_schedule inv' empty' prio')
  have enough : [2].length < (picksAlong s [.schedule, .schedule]).length := by
    rw [picks]
    decide
  have turn := scheduling_policy.2.2 s queues 20 [2] [] 3 _ inv rq list turns enough
  rw [List.length_singleton] at turn
  exact ⟨running, ⟨queues, rq, list⟩, picks, turn⟩

end Queues

end Minus.Core.Thread
