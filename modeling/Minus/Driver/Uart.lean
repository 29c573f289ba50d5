/-
# Driver.Uart — the console input

The receive ring of `kernel/driver/console/uart.c`: the interrupt handler pushes,
one reader pops in `uart_getc`.  Interrupts are on while the reader pops, so each
of its loads and stores is a step of its own and the handler may run between any
two of them; the check of `wait_event` is one step, with interrupts off.

The handler moves `tail` only and the reader `head`, so what the reader has seen
stays true (`Inv`).  The chars returned are the bytes received, in order, except
those that found 63 in the ring (`console_fifo`).  The queue of blocked threads is
left out: a reader that sleeps goes on when it is woken.
-/
import Minus.Theory.Machine
import Minus.Theory.RingBuffer

namespace Minus.Driver.Uart

set_option autoImplicit false

open Minus.Theory

/-- `UART_RX_BUF_SIZE`. -/
def uartRxBufSize : Nat := 64

/-- `EAGAIN`. -/
def eagain : Int := 11

/-- Where the reader is in `uart_getc`, with what it holds in registers. -/
inductive ReaderPc where
  | outside
  /-- At the top of the loop of `wait_event`. -/
  | wait
  | asleep
  /-- In `uart_rx_buf_pop`, from the test for an empty ring on. -/
  | loadHead
  | loadTail (head : Nat)
  | loadIndex
  | loadByte (index : Nat)
  | loadNext (c : UInt8)
  | storeHead (c : UInt8) (head : Nat)
  /-- With the result of `uart_rx_buf_pop`. -/
  | leave (c : Int)
  deriving DecidableEq

/-- How `uart_getc` returned. -/
inductive Getc where
  /-- `return '\0'`. -/
  | noUart
  | popped (c : Int)
  deriving DecidableEq

structure Console where
  /-- `g_uart_base` is set. -/
  base : Bool
  buf : Nat → UInt8
  head : Nat
  tail : Nat
  /-- `g_uart_rx_wq.waiter` is the reader. -/
  waiter : Bool
  pc : ReaderPc
  /-- Ghost: the bytes received so far, each with the number of unread bytes that it found. -/
  arrivals : List (UInt8 × Nat)
  /-- Ghost: the calls of `uart_getc` that have returned. -/
  calls : List Getc

/-! ## uart.c -/

def uartRxBufEmpty (s : Console) : Bool := s.head == s.tail

def uartRxBufFull (s : Console) : Bool := (s.tail + 1) % uartRxBufSize == s.head

def uartRxBufPush (s : Console) (c : UInt8) : Console :=
  if uartRxBufFull s then s
  else { s with buf := Function.update s.buf s.tail c, tail := (s.tail + 1) % uartRxBufSize }

/-- The number of unread bytes. -/
def unreadCount (s : Console) : Nat := (s.tail + uartRxBufSize - s.head) % uartRxBufSize

/-- One byte is received. -/
def receive (s : Console) (c : UInt8) : Console :=
  uartRxBufPush { s with arrivals := s.arrivals ++ [(c, unreadCount s)] } c

/-- `wake_up(g_uart_rx_wq)`. -/
def wakeUp (s : Console) : Console :=
  { s with
    waiter := false
    pc := if s.waiter ∧ s.pc = .asleep then .wait else s.pc }

/-- `bytes` is what `uart_rx_ready` lets it read. -/
def uartIrqHandler (s : Console) (bytes : List UInt8) : Console := wakeUp (bytes.foldl receive s)

/-- One step of the reader. -/
def readerStep (s : Console) : Console :=
  match s.pc with
  | .outside | .asleep => s
  | .wait =>
      if uartRxBufEmpty s then { s with waiter := true, pc := .asleep } else { s with waiter := false, pc := .loadHead }
  | .loadHead => { s with pc := .loadTail s.head }
  | .loadTail head => { s with pc := if head = s.tail then .leave (-eagain) else .loadIndex }
  | .loadIndex => { s with pc := .loadByte s.head }
  | .loadByte index => { s with pc := .loadNext (s.buf index) }
  | .loadNext c => { s with pc := .storeHead c s.head }
  | .storeHead c head => { s with head := (head + 1) % uartRxBufSize, pc := .leave c.toNat }
  | .leave c => { s with pc := .outside, calls := s.calls ++ [.popped c] }

inductive UartOp where
  /-- A thread calls `uart_getc`. -/
  | getc
  | reader
  | irq (bytes : List UInt8)
  /-- The reader is woken by something else. -/
  | wake
  /-- `uart_probe` or `uart_remove`. -/
  | setBase (base : Bool)

/-- There is one reader, and it does not run while it sleeps; the handler runs while there is a UART. -/
def uartEnabled (s : Console) : UartOp → Prop
  | .getc => s.pc = .outside
  | .reader => s.pc ≠ .outside ∧ s.pc ≠ .asleep
  | .irq _ => s.base = true
  | .wake => s.pc = .asleep
  | .setBase _ => True

instance (s : Console) (op : UartOp) : Decidable (uartEnabled s op) :=
  match op with
  | .getc => inferInstanceAs (Decidable (s.pc = .outside))
  | .reader => inferInstanceAs (Decidable (s.pc ≠ .outside ∧ s.pc ≠ .asleep))
  | .irq _ => inferInstanceAs (Decidable (s.base = true))
  | .wake => inferInstanceAs (Decidable (s.pc = .asleep))
  | .setBase _ => isTrue trivial

def uartStep (s : Console) : UartOp → Console
  | .getc => if s.base then { s with pc := .wait } else { s with calls := s.calls ++ [.noUart] }
  | .reader => readerStep s
  | .irq bytes => uartIrqHandler s bytes
  | .wake => { s with pc := .wait }
  | .setBase base => { s with base := base }

def uartMachine : Machine Console UartOp where
  enabled := uartEnabled
  step := uartStep

instance (s : Console) (op : UartOp) : Decidable (uartMachine.enabled s op) :=
  inferInstanceAs (Decidable (uartEnabled s op))

/-- The static data, `CONFIG_EARLY_UART` being 0 or not. -/
def Console.boot (base : Bool) : Console := ⟨base, fun _ => 0, 0, 0, false, .outside, [], []⟩

/-! ## What is read and returned -/

/-- The bytes received, except those that found 63 in the ring. -/
def Console.accepted (s : Console) : List UInt8 := (s.arrivals.filter fun a => a.2 ≠ 63).map Prod.fst

/-- The bytes in the ring. -/
def Console.unread (s : Console) : List UInt8 :=
  (List.range (unreadCount s)).map fun i => s.buf ((s.head + i) % uartRxBufSize)

/-- What the calls that found a UART returned, before the conversion to `char`. -/
def Console.popped (s : Console) : List Int :=
  s.calls.filterMap fun
    | .noUart => none
    | .popped c => some c

/-- What `uart_getc` returned, call by call. -/
def Console.returned (s : Console) : List UInt8 :=
  s.calls.map fun
    | .noUart => 0
    | .popped c => UInt8.ofInt c

/-- Popped, and not returned yet. -/
def ReaderPc.inFlight : ReaderPc → List Int
  | .leave c => [c]
  | _ => []

/-- What the reader knows holds when it goes on. -/
def ReaderPc.Seen (s : Console) : ReaderPc → Prop
  | .outside | .wait | .asleep => True
  | .loadHead | .loadIndex => s.head ≠ s.tail
  | .loadTail head => head = s.head ∧ s.head ≠ s.tail
  | .loadByte index => index = s.head ∧ s.head ≠ s.tail
  | .loadNext c => c = s.buf s.head ∧ s.head ≠ s.tail
  | .storeHead c head => c = s.buf s.head ∧ head = s.head ∧ s.head ≠ s.tail
  | .leave c => c ≠ -eagain

/-- The ring holds what was accepted and not popped, and the reader's registers are up to date. -/
structure Inv (s : Console) : Prop where
  ring : ∃ l : List UInt8, Holds uartRxBufSize s.buf s.head s.tail l ∧
    s.accepted.map (fun c => (c.toNat : Int)) = s.popped ++ s.pc.inFlight ++ l.map fun c => (c.toNat : Int)
  seen : s.pc.Seen s
  never : ∀ c ∈ s.popped, c ≠ -eagain

section Steps

variable {s : Console} {op : UartOp}

/-! ## The handler -/

theorem uartRxBufFull_iff {l : List UInt8} (holds : Holds uartRxBufSize s.buf s.head s.tail l) :
    uartRxBufFull s = true ↔ unreadCount s = 63 := by
  rw [uartRxBufFull, beq_iff_eq, holds.full_iff, unreadCount, holds.count]
  rfl

theorem accepted_append (s : Console) (c : UInt8) (n : Nat) :
    Console.accepted { s with arrivals := s.arrivals ++ [(c, n)] } = s.accepted ++ if n = 63 then [] else [c] := by
  by_cases full : n = 63 <;> simp [Console.accepted, full]

/-- **A byte is received**: what the reader has seen stays true. -/
theorem Inv.receive (inv : Inv s) (c : UInt8) : Inv (receive s c) := by
  obtain ⟨l, holds, queue⟩ := inv.ring
  have accepted := accepted_append s c (unreadCount s)
  by_cases full : uartRxBufFull s = true
  · -- it is dropped
    have dropped : Uart.receive s c = { s with arrivals := s.arrivals ++ [(c, unreadCount s)] } := if_pos full
    rw [if_pos ((uartRxBufFull_iff holds).1 full), List.append_nil] at accepted
    rw [dropped]
    exact ⟨⟨l, holds, accepted ▸ queue⟩, inv.seen, inv.never⟩
  · have pushed : Uart.receive s c = { s with
        arrivals := s.arrivals ++ [(c, unreadCount s)]
        buf := Function.update s.buf s.tail c
        tail := (s.tail + 1) % uartRxBufSize } := if_neg full
    have room : (s.tail + 1) % uartRxBufSize ≠ s.head := by simpa [uartRxBufFull] using full
    rw [if_neg ((uartRxBufFull_iff holds).not.1 full)] at accepted
    rw [pushed]
    refine ⟨⟨l ++ [c], holds.push room c, ?_⟩, ?_, inv.never⟩
    · show (Console.accepted { s with arrivals := s.arrivals ++ [(c, unreadCount s)] }).map _ = _
      rw [accepted, List.map_append, List.map_append, queue, List.append_assoc]
      rfl
    · -- the slot at the head of a ring that is not empty is not written
      have still : s.head ≠ s.tail → Function.update s.buf s.tail c s.head = s.buf s.head :=
        fun some_ => Function.update_of_ne some_ _ _
      have seen := inv.seen
      cases pc : s.pc with
      | outside | wait | asleep => trivial
      | leave r =>
          rw [pc] at seen
          exact seen
      | loadHead | loadIndex => exact room.symm
      | loadTail head | loadByte index =>
          rw [pc] at seen
          exact ⟨seen.1, room.symm⟩
      | loadNext v =>
          rw [pc] at seen
          exact ⟨seen.1.trans (still seen.2).symm, room.symm⟩
      | storeHead v head =>
          rw [pc] at seen
          exact ⟨seen.1.trans (still seen.2.2).symm, seen.2.1, room.symm⟩

/-- A step that only moves the reader on. -/
theorem Inv.goto (inv : Inv s) {pc : ReaderPc} (base waiter : Bool) (flight : pc.inFlight = s.pc.inFlight)
    (seen : pc.Seen s) : Inv { s with base := base, waiter := waiter, pc := pc } := by
  refine ⟨?_, ?_, inv.never⟩
  · rw [flight]
    exact inv.ring
  · cases pc <;> exact seen

theorem Inv.wakeUp (inv : Inv s) : Inv (wakeUp s) := by
  by_cases woken : s.waiter ∧ s.pc = .asleep
  · rw [Uart.wakeUp, if_pos woken]
    exact inv.goto s.base false (by rw [woken.2]; rfl) trivial
  · rw [Uart.wakeUp, if_neg woken]
    exact inv.goto s.base false rfl inv.seen

/-- **The handler.** -/
theorem Inv.irq (inv : Inv s) (bytes : List UInt8) : Inv (uartIrqHandler s bytes) := by
  refine Inv.wakeUp ?_
  induction bytes generalizing s with
  | nil => exact inv
  | cons c bytes ih => exact ih (inv.receive c)

/-! ## The reader -/

/-- The byte is popped when `head` is stored. -/
theorem Inv.storeHead (inv : Inv s) {c : UInt8} {head : Nat} (pc : s.pc = .storeHead c head) :
    Inv { s with head := (head + 1) % uartRxBufSize, pc := .leave c.toNat } := by
  obtain ⟨l, holds, queue⟩ := inv.ring
  have seen := inv.seen
  rw [pc] at seen queue
  obtain ⟨rfl, rfl, some_⟩ := seen
  cases l with
  | nil => exact absurd (holds.empty_iff.2 rfl) some_
  | cons a l =>
      refine ⟨⟨l, holds.pop, ?_⟩, fun same => ?_, inv.never⟩
      · rw [holds.first]
        refine queue.trans ?_
        show s.popped ++ [] ++ _ = s.popped ++ [(a.toNat : Int)] ++ _
        simp
      · have : (0 : Int) ≤ (s.buf s.head).toNat := Int.natCast_nonneg _
        rw [same] at this
        exact absurd this (by decide)

theorem Inv.leave (inv : Inv s) {c : Int} (pc : s.pc = .leave c) :
    Inv { s with pc := .outside, calls := s.calls ++ [.popped c] } := by
  obtain ⟨l, holds, queue⟩ := inv.ring
  have seen := inv.seen
  rw [pc] at seen queue
  have popped : Console.popped { s with pc := .outside, calls := s.calls ++ [.popped c] } = s.popped ++ [c] := by
    simp [Console.popped]
  refine ⟨⟨l, holds, ?_⟩, trivial, ?_⟩
  · rw [popped]
    refine queue.trans ?_
    simp [ReaderPc.inFlight]
  · rw [popped]
    intro r member
    rcases List.mem_append.1 member with member | member
    · exact inv.never r member
    · rw [List.mem_singleton.1 member]
      exact seen

/-- **One step of the reader.** -/
theorem Inv.readerStep (inv : Inv s) : Inv (readerStep s) := by
  have seen := inv.seen
  cases pc : s.pc with
  | outside | asleep =>
      rw [Uart.readerStep, pc]
      exact inv
  | wait =>
      rw [Uart.readerStep, pc]
      dsimp only
      by_cases empty : uartRxBufEmpty s = true
      · rw [if_pos empty]
        exact inv.goto s.base true (by rw [pc]; rfl) trivial
      · rw [if_neg empty]
        exact inv.goto s.base false (by rw [pc]; rfl) (by simpa [uartRxBufEmpty, ReaderPc.Seen] using empty)
  | loadHead =>
      rw [Uart.readerStep, pc]
      rw [pc] at seen
      exact inv.goto s.base s.waiter (by rw [pc]; rfl) ⟨rfl, seen⟩
  | loadTail head =>
      rw [Uart.readerStep, pc]
      rw [pc] at seen
      dsimp only
      rw [if_neg (seen.1 ▸ seen.2)]
      exact inv.goto s.base s.waiter (by rw [pc]; rfl) seen.2
  | loadIndex =>
      rw [Uart.readerStep, pc]
      rw [pc] at seen
      exact inv.goto s.base s.waiter (by rw [pc]; rfl) ⟨rfl, seen⟩
  | loadByte index =>
      rw [Uart.readerStep, pc]
      rw [pc] at seen
      exact inv.goto s.base s.waiter (by rw [pc]; rfl) ⟨by rw [seen.1], seen.2⟩
  | loadNext c =>
      rw [Uart.readerStep, pc]
      rw [pc] at seen
      exact inv.goto s.base s.waiter (by rw [pc]; rfl) ⟨seen.1, rfl, seen.2⟩
  | storeHead c head =>
      rw [Uart.readerStep, pc]
      exact inv.storeHead pc
  | leave c =>
      rw [Uart.readerStep, pc]
      exact inv.leave pc

/-! ## A run -/

theorem uartStep_inv (inv : Inv s) (enabled : uartEnabled s op) : Inv (uartStep s op) := by
  cases op with
  | getc =>
      simp only [uartStep]
      split
      · exact inv.goto s.base s.waiter (by rw [enabled]; rfl) trivial
      · have popped : Console.popped { s with calls := s.calls ++ [.noUart] } = s.popped := by simp [Console.popped]
        obtain ⟨ring, seen, never⟩ := inv
        refine ⟨?_, ?_, ?_⟩
        · rw [popped]
          exact ring
        · show ReaderPc.Seen _ s.pc
          rw [enabled]
          trivial
        · rw [popped]
          exact never
  | reader => exact inv.readerStep
  | irq bytes => exact inv.irq bytes
  | wake => exact inv.goto s.base s.waiter (by rw [enabled]; rfl) trivial
  | setBase base => exact inv.goto base s.waiter rfl inv.seen

theorem inv_boot (base : Bool) : Inv (Console.boot base) :=
  ⟨⟨[], .empty _ (show 0 < 64 by decide), rfl⟩, trivial, by simp [Console.boot, Console.popped]⟩

/-- The conversion to `char` gives the byte back. -/
theorem ofInt_toNat (c : UInt8) : UInt8.ofInt (c.toNat : Int) = c := by
  rw [← UInt8.toNat_inj]
  simp [UInt8.ofInt]
  have := c.toNat_lt
  omega

/-- **The console is a queue.**  Along every run the bytes received, except those that found 63 unread
ones, are those popped, then the one that is about to be returned, then those in the ring.  What
`uart_getc` returns from them are the first, and `-EAGAIN` is never popped. -/
theorem console_fifo (base : Bool) {ops : List UartOp} (admitted : uartMachine.Admits (Console.boot base) ops) :
    let s := uartMachine.run (Console.boot base) ops
    s.accepted.map (fun c => (c.toNat : Int)) =
        s.popped ++ s.pc.inFlight ++ s.unread.map (fun c => (c.toNat : Int)) ∧
      s.popped.map UInt8.ofInt <+: s.accepted ∧ ∀ c ∈ s.popped, c ≠ -eagain := by
  intro s
  have inv : Inv s := uartMachine.run_invariant (I := Inv) (fun s op inv enabled => uartStep_inv inv enabled)
    (inv_boot base) admitted
  obtain ⟨l, holds, queue⟩ := inv.ring
  have unread : s.unread = l := by
    rw [Console.unread, unreadCount, holds.count, ← holds.items]
  have chars : s.accepted = s.popped.map UInt8.ofInt ++ (s.pc.inFlight.map UInt8.ofInt ++ l) := by
    have same := congrArg (List.map UInt8.ofInt) queue
    simpa [Function.comp_def, ofInt_toNat] using same
  exact ⟨unread ▸ queue, ⟨_, chars.symm⟩, inv.never⟩

/-- Two bytes, the second while the first is popped. -/
theorem console_fifo_two :
    let ops : List UartOp := [.getc, .irq [65], .reader, .reader, .irq [66], .reader, .reader, .reader, .reader, .reader,
      .reader]
    let s := uartMachine.run (Console.boot true) ops
    s.popped = [65] ∧ s.unread = [66] ∧ s.popped.map UInt8.ofInt <+: s.accepted := by
  intro ops s
  have admitted : uartMachine.Admits (Console.boot true) ops := by decide
  exact ⟨by decide, by decide, (console_fifo true admitted).2.1⟩

/-- **Without a UART `uart_getc` returns at once**, though nothing has been received. -/
theorem nothing_received :
    uartMachine.Admits (Console.boot false) [.getc] ∧
      (uartMachine.run (Console.boot false) [.getc]).returned = [0] ∧
      (uartMachine.run (Console.boot false) [.getc]).accepted = [] := by
  decide

end Steps

end Minus.Driver.Uart
