/-
# Theory.Reading — what a chain of tests reads

A header is checked field by field, and the first field that is wrong ends the check.  A
`Test` is one field: the span it lies in and whether it is as it should be, which the bytes
of the span decide.  `reads` is what a chain of tests looks at in a memory.

The buffer may be shorter than the header.  Where the tests come in the order in which
their spans end, the chain stays in the buffer exactly if all spans lie in it or a field
that lies in it is wrong (`Test.reads_within_iff`).  A loop stays in the buffer if every turn
does (`loopReads_within`).
-/
import Minus.Theory.Bytes

namespace Minus.Theory

set_option autoImplicit false

universe u v

structure Span where
  start : Nat
  length : Nat
  deriving DecidableEq

namespace Span

def stop (s : Span) : Nat := s.start + s.length

/-- The span lies in the first `size` bytes. -/
def Within (size : Nat) (s : Span) : Prop := s.stop ≤ size

instance (size : Nat) (s : Span) : Decidable (s.Within size) := inferInstanceAs (Decidable (_ ≤ _))

/-- Two memories agree on the span. -/
def Agree (s : Span) (m m' : Bytes) : Prop := ∀ x, s.start ≤ x → x < s.stop → m x = m' x

end Span

structure Test where
  span : Span
  passes : Bytes → Bool
  only : ∀ {m m' : Bytes}, span.Agree m m' → passes m = passes m'

namespace Test

/-- The spans that a chain of tests reads. -/
def reads (m : Bytes) : List Test → List Span
  | [] => []
  | t :: rest => t.span :: if t.passes m then reads m rest else []

/-- The chain passes. -/
def all (m : Bytes) (tests : List Test) : Bool := List.all tests fun t => t.passes m

variable {m m' : Bytes} {size : Nat} {tests more : List Test}

theorem all_eq_true_iff : all m tests = true ↔ ∀ t ∈ tests, t.passes m = true := List.all_eq_true

/-- A chain that passes reads all its spans. -/
theorem reads_of_all (pass : all m tests = true) : reads m tests = tests.map span := by
  induction tests with
  | nil => rfl
  | cons t rest ih =>
      obtain ⟨first, later⟩ := List.forall_mem_cons.1 (all_eq_true_iff.1 pass)
      rw [reads, if_pos first, ih (all_eq_true_iff.2 later), List.map_cons]

theorem reads_append : reads m (tests ++ more) = reads m tests ++ if all m tests then reads m more else [] := by
  induction tests with
  | nil => rfl
  | cons t rest ih =>
      rw [List.cons_append, reads, reads, ih, List.cons_append]
      unfold all
      rw [List.all_cons]
      by_cases pass : t.passes m = true
      · rw [if_pos pass, if_pos pass, pass, Bool.true_and]
      · rw [if_neg pass, if_neg pass, Bool.not_eq_true] at *
        rw [pass, Bool.false_and]
        simp

/-- **A chain stays in the buffer exactly if all its spans do, or a field in the buffer is
wrong.** -/
theorem reads_within_iff (ordered : tests.Pairwise fun t u => t.span.stop ≤ u.span.stop) :
    (∀ s ∈ reads m tests, s.Within size) ↔
      (∀ t ∈ tests, t.span.Within size) ∨ ∃ t ∈ tests, t.span.Within size ∧ t.passes m = false := by
  induction tests with
  | nil => exact ⟨fun _ => .inl nofun, fun _ => nofun⟩
  | cons t rest ih =>
      obtain ⟨last, later⟩ := List.pairwise_cons.1 ordered
      rw [reads, List.forall_mem_cons, List.forall_mem_cons]
      simp only [List.mem_cons, exists_eq_or_imp]
      by_cases inside : t.span.Within size
      · cases pass : t.passes m with
        | false => simp [inside]
        | true => simpa [inside] using ih later
      · -- every later span ends outside as well
        have outside : ∀ u ∈ rest, ¬ u.span.Within size := fun u member within =>
          inside (Nat.le_trans (last u member) within)
        constructor
        · exact fun within => absurd within.1 inside
        · rintro (within | (within | ⟨u, member, within, _⟩))
          · exact absurd within.1 inside
          · exact absurd within.1 inside
          · exact absurd within (outside u member)

/-- A test in a buffer sees only the buffer. -/
theorem passes_congr {t : Test} (inside : t.span.Within size) (same : ∀ i < size, m i = m' i) :
    t.passes m = t.passes m' :=
  t.only fun x _ below => same x (Nat.lt_of_lt_of_le below inside)

/-! ## Fields -/

/-- A byte with a fixed value. -/
def byteIs (start : Nat) (value : UInt8) : Test where
  span := ⟨start, 1⟩
  passes m := m start == value
  only agree := by rw [agree start (Nat.le_refl start) (Nat.lt_succ_self start)]

def half (start : Nat) (good : UInt16 → Bool) : Test where
  span := ⟨start, 2⟩
  passes m := good (load16 m start)
  only agree := by rw [load16_congr agree]

def double (start : Nat) (good : UInt64 → Bool) : Test where
  span := ⟨start, 8⟩
  passes m := good (load64 m start)
  only agree := by rw [load64_congr agree]

end Test

/-! ## Loops -/

/-- What a loop over a list reads: in each turn `reads`, and where it goes on is `next`. -/
def loopReads {ι : Type u} {σ : Type v} (reads : ι → σ → List Span) (next : ι → σ → Option σ) :
    List ι → σ → List Span
  | [], _ => []
  | i :: rest, s =>
      reads i s ++
        match next i s with
        | some s => loopReads reads next rest s
        | none => []

theorem loopReads_within {ι : Type u} {σ : Type v} {reads : ι → σ → List Span} {next : ι → σ → Option σ}
    {size : Nat} :
    ∀ {is : List ι} {s : σ}, (∀ i ∈ is, ∀ s, ∀ span ∈ reads i s, span.Within size) →
      ∀ span ∈ loopReads reads next is s, span.Within size
  | [], _, _ => nofun
  | i :: rest, s, turns => by
      obtain ⟨turn, later⟩ := List.forall_mem_cons.1 turns
      intro span member
      rw [loopReads] at member
      obtain here | member := List.mem_append.1 member
      · exact turn s span here
      · cases on : next i s with
        | none =>
            rw [on] at member
            cases member
        | some s' =>
            rw [on] at member
            exact loopReads_within later span member

end Minus.Theory
