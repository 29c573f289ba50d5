/-
# Lib.DlistRun — what a sequence of list operations leaves in the heap

Runs of `dlist_init`, `dlist_add`, `dlist_add_tail` and `dlist_del` on any nodes,
from a heap in which no node was initialised.  Beside the heap goes what every
node should see of its list (`Theory.Circles`), by which an operation is allowed:
a node that is added or initialised is not on a list with others, the head it is
added to is initialised and is another node, and a node that is deleted is
initialised.  After any run the heap holds exactly these lists.
-/
import Minus.Theory.Machine
import Minus.Theory.Circles
import Minus.Lib.Dlist

namespace Minus.Lib.Dlist

set_option autoImplicit false

open Minus.Theory

universe u

variable {N : Type u} [DecidableEq N]

/-- The nodes `dlist_for_each_entry` visits from `pos` on; `none` when `fuel` does not do. -/
def dlistForEachFrom (h : Links N) (head : N) : Nat → N → Option (List N)
  | 0, _ => none
  | fuel + 1, pos => if pos = head then some [] else (dlistForEachFrom h head fuel (h.next pos)).map (pos :: ·)

/-- `dlist_for_each_entry(pos, head, member)`. -/
def dlistForEach (h : Links N) (head : N) (fuel : Nat) : Option (List N) := dlistForEachFrom h head fuel (h.next head)

theorem dlistForEachFrom_seg {h : Links N} {head a : N} {l : List N} (seg : h.Seg a l head) (absent : head ∉ l)
    {fuel : Nat} (enough : l.length < fuel) : dlistForEachFrom h head fuel (h.next a) = some l := by
  obtain ⟨fuel, rfl⟩ := Nat.exists_eq_succ_of_ne_zero (Nat.ne_zero_of_lt enough)
  induction l generalizing a fuel with
  | nil => simp [dlistForEachFrom, seg.1]
  | cons x l ih =>
      rw [List.mem_cons, not_or] at absent
      rw [List.length_cons] at enough
      obtain ⟨fuel, rfl⟩ := Nat.exists_eq_succ_of_ne_zero (n := fuel) (by omega)
      rw [dlistForEachFrom, seg.1.1, if_neg (Ne.symm absent.1), ih seg.2 absent.2 fuel (by omega)]
      rfl

/-- The traversal from a head visits the members of its list in their order. -/
theorem dlistForEach_ring {h : Links N} {head : N} {l : List N} (ring : h.Ring head l) {fuel : Nat}
    (enough : l.length < fuel) : dlistForEach h head fuel = some l :=
  dlistForEachFrom_seg ring.seg (List.nodup_cons.1 ring.nodup).1 enough

/-! ## Runs -/

inductive Op (N : Type u) where
  | init (node : N)
  | add (head node : N)
  | addTail (head node : N)
  | del (node : N)

/-- The heap, and what each node should see of its list. -/
structure Lists (N : Type u) where
  links : Links N
  circles : Circles N

/-- A heap in which nothing is initialised. -/
def Lists.start (links : Links N) : Lists N := ⟨links, fun _ => none⟩

def Lists.step (s : Lists N) : Op N → Lists N
  | .init node => ⟨dlistInit s.links node, s.circles.lone node⟩
  | .add head node => ⟨dlistAdd s.links head node, s.circles.pushFront head node⟩
  | .addTail head node => ⟨dlistAddTail s.links head node, s.circles.pushBack head node⟩
  | .del node => ⟨dlistDel s.links node, s.circles.remove node⟩

/-- A node that is added is on no list, and is not the head it is added to. -/
def Lists.Allowed (s : Lists N) : Op N → Prop
  | .init node => s.circles.Loose node
  | .add head node | .addTail head node =>
      (s.circles head).isSome ∧ node ≠ head ∧ s.circles.Loose node
  | .del node => (s.circles node).isSome

instance (s : Lists N) (op : Op N) : Decidable (s.Allowed op) := by
  cases op <;> unfold Lists.Allowed <;> infer_instance

def lists : Machine (Lists N) (Op N) where
  enabled := Lists.Allowed
  step := Lists.step

instance (s : Lists N) (op : Op N) : Decidable (lists.enabled s op) := inferInstanceAs (Decidable (s.Allowed op))

theorem dlistDel_held {h : Links N} {s : Circles N} (held : Held h s) {node : N} {m : List N}
    (here : s node = some m) : dlistDel h node = h.unlink node := by
  apply dlistDel_eq_unlink
  intro self
  have ring := held.ring node m here
  rw [ring.empty_iff.1 self] at ring
  exact ((Links.ring_nil_iff h node).1 ring).2

theorem held_step (s : Lists N) (op : Op N) (held : Held s.links s.circles) (allowed : s.Allowed op) :
    Held (s.step op).links (s.step op).circles := by
  cases op with
  | init node =>
      apply held.lone allowed (dlistInit_alone s.links node)
      intro y other
      exact ⟨dlistInit_next_of_ne s.links other, dlistInit_prev_of_ne s.links other⟩
  | add head node =>
      obtain ⟨linked, other, loose⟩ := allowed
      obtain ⟨m, here⟩ := Option.isSome_iff_exists.1 linked
      have pushed := held.pushFront here other loose
      rw [← dlistAdd_eq_splice s.links other] at pushed
      exact pushed
  | addTail head node =>
      obtain ⟨linked, other, loose⟩ := allowed
      obtain ⟨m, here⟩ := Option.isSome_iff_exists.1 linked
      have pushed := held.pushBack here other loose
      rw [← dlistAddTail_eq_splice s.links other] at pushed
      exact pushed
  | del node =>
      obtain ⟨m, here⟩ := Option.isSome_iff_exists.1 allowed
      have removed := held.remove here
      rw [← dlistDel_held held here] at removed
      exact removed

theorem held_run {links : Links N} {ops : List (Op N)} (admitted : lists.Admits (Lists.start links) ops) :
    Held (lists.run (Lists.start links) ops).links (lists.run (Lists.start links) ops).circles :=
  lists.run_invariant (I := fun s => Held s.links s.circles) held_step
    ⟨by simp [Lists.start], by simp [Lists.start]⟩ admitted

/-- The heap is disjoint circular lists, with `next` and `prev` inverse to each other. -/
structure Decomposes (s : Lists N) : Prop where
  inverse : ∀ x, (s.circles x).isSome → s.links.prev (s.links.next x) = x ∧ s.links.next (s.links.prev x) = x
  closed : ∀ x, (s.circles x).isSome → (s.circles (s.links.next x)).isSome ∧ (s.circles (s.links.prev x)).isSome
  circular : ∀ x l, s.circles x = some l → s.links.Ring x l
  disjoint : ∀ x l y m, s.circles x = some l → s.circles y = some m →
    (x :: l).IsRotated (y :: m) ∨ List.Disjoint (x :: l) (y :: m)

theorem decomposes_of_held {s : Lists N} (held : Held s.links s.circles) : Decomposes s where
  inverse x linked := by
    obtain ⟨m, here⟩ := Option.isSome_iff_exists.1 linked
    exact held.inverse here
  closed x linked := by
    obtain ⟨m, here⟩ := Option.isSome_iff_exists.1 linked
    obtain ⟨next, prev⟩ := held.neighbours here
    constructor
    · exact Option.isSome_iff_exists.2 (held.linked_mem here next)
    · exact Option.isSome_iff_exists.2 (held.linked_mem here prev)
  circular := held.ring
  disjoint x l y m here seen := held.same_or_disjoint here seen

/-- After every run the heap is disjoint circular lists, the traversal from a head yields what was
pushed and removed, and a node that is deleted is linked to itself, which changes nothing for one that is. -/
theorem lists_kept (links : Links N) (ops : List (Op N)) (admitted : lists.Admits (Lists.start links) ops) :
    let s := lists.run (Lists.start links) ops
    Decomposes s ∧
      (∀ head l fuel, s.circles head = some l → l.length < fuel → dlistForEach s.links head fuel = some l) ∧
      ∀ node, s.Allowed (.del node) → (dlistDel s.links node).Alone node ∧
        (s.links.Alone node → dlistDel s.links node = s.links) := by
  intro s
  have held : Held s.links s.circles := held_run admitted
  refine ⟨decomposes_of_held held, ?_, ?_⟩
  · intro head l fuel here enough
    exact dlistForEach_ring (held.ring head l here) enough
  · intro node linked
    obtain ⟨m, here⟩ := Option.isSome_iff_exists.1 linked
    rw [dlistDel_held held here]
    exact ⟨Links.unlink_alone _ node, Links.unlink_of_alone⟩

/-- Three nodes around a head, one of them deleted again. -/
theorem lists_kept_three : dlistForEach
    (lists.run (Lists.start ⟨fun _ => 9, fun _ => 9⟩) [.init 0, .add 0 1, .addTail 0 2, .add 0 3, .del 1]).links
      (0 : Nat) 3 = some [3, 2] :=
  (lists_kept ⟨fun _ => 9, fun _ => 9⟩ [.init 0, .add 0 1, .addTail 0 2, .add 0 3, .del 1] (by decide)).2.1
    0 [3, 2] 3 (by decide) (by decide)

end Minus.Lib.Dlist
