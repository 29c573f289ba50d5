/-
# Driver.Block — the registry of block devices

`kernel/driver/block/blk-core.c`.  A `struct block_device` is named by its address; the
nodes of `g_bdev_list` are its head, `none`, and the `bd_list` of the devices.  Every
read or write of a device first asks that its memory has not been freed (`touch`).  Of
the operations of a driver it counts whether there is an `open`; what it returns, and
what `kmalloc` gives, is part of a call.

`register_blkdev` makes the list empty each time (`dlist_init(&g_bdev_list)`), so that a
driver that registers its major after another one has added a device loses that device.
In a run where this does not happen, and no device is added under a number in use, every
device stays where `bdev_get_by_dev` finds it (`devices_kept`).
-/
import Mathlib.Data.List.Find
import Mathlib.Data.List.Perm.Subperm
import Minus.Lib.Dlist
import Minus.Theory.Machine
import Minus.Theory.Slots

namespace Minus.Driver.Block

set_option autoImplicit false

open Minus.Theory Minus.Lib.Dlist

inductive Fault where
  | freed
  | endless
  deriving DecidableEq

abbrev Dev := UInt32

/-- `struct block_device_operations`, by whether it has an `open`. -/
structure Ops where
  hasOpen : Bool
  deriving DecidableEq

structure BlockDevice where
  bdDev : Dev
  bdOps : Option Ops
  bdRefCount : Int

/-- `added` is a record for the statements: the devices that `add_block_device` has added
and that have not been released. -/
structure Registry where
  links : Links (Option Nat)
  blkdevs : Nat → Option Ops
  bdev : Nat → BlockDevice
  live : List Nat
  added : List Nat

def einval : Int := -22
def eexist : Int := -17
def enodev : Int := -19

def maxBlkdevs : UInt32 := 256

/-- `MAJOR(dev)`. -/
def majorOf (dev : Dev) : UInt32 := dev >>> 20

/-- `MKDEV(major, minor)`. -/
def mkdev (major minor : UInt32) : Dev := (major <<< 20) ||| minor

def blkdevMajorToIndex (major : UInt32) : Option Nat :=
  if major = 0 ∨ major ≥ maxBlkdevs then none else some major.toNat

def touch (s : Registry) : Option Nat → Except Fault Unit
  | none => .ok ()
  | some d => if d ∈ s.live then .ok () else .error .freed

def registerBlkdev (s : Registry) (major : UInt32) (ops : Ops) : Registry × Int :=
  match blkdevMajorToIndex major with
  | none => (s, einval)
  | some idx =>
      if (s.blkdevs idx).isSome then (s, eexist)
      else ({ s with
        blkdevs := Function.update s.blkdevs idx (some ops)
        links := dlistInit s.links none }, 0)

/-- `dlist_add(&g_bdev_list, &bdev->bd_list)`, which writes the first device. -/
def link (s : Registry) (d : Nat) : Except Fault Registry := do
  touch s (s.links.next none)
  .ok { s with links := dlistAdd s.links none (some d) }

/-- `ret` is what `open` returns, if there is one. -/
def addBlockDevice (s : Registry) (d : Nat) (ret : Int) : Except Fault (Registry × Int) :=
  match blkdevMajorToIndex (majorOf (s.bdev d).bdDev) with
  | none => .ok (s, einval)
  | some idx =>
      match s.blkdevs idx with
      | none => .ok (s, enodev)
      | some ops => do
          let s ← link { s with
            bdev := Function.update s.bdev d { s.bdev d with bdOps := some ops, bdRefCount := 1 } } d
          if ops.hasOpen ∧ ret ≠ 0 then .ok (s, ret)
          else .ok ({ s with added := d :: s.added }, 0)

/-- The loop of `bdev_get_by_dev` from a node on; `fuel` bounds the list. -/
def searchFrom (s : Registry) (dev : Dev) : Nat → Option Nat → Except Fault (Option Nat)
  | 0, _ => .error .endless
  | _ + 1, none => .ok none
  | fuel + 1, some d => do
      touch s (some d)
      if (s.bdev d).bdDev = dev then .ok (some d) else searchFrom s dev fuel (s.links.next (some d))

/-- The end of `bdev_get_by_dev`: a new device of a registered major.  `memory` is the answer
of `kmalloc`, `ret` what `open` returns. -/
def instantiate (s : Registry) (dev : Dev) (memory : Option Nat) (ret : Int) :
    Except Fault (Registry × Option Nat) :=
  match blkdevMajorToIndex (majorOf dev) with
  | none => .ok (s, none)
  | some idx =>
      match s.blkdevs idx with
      | none => .ok (s, none)
      | some ops =>
          if !ops.hasOpen then .ok (s, none)
          else
            match memory with
            | none => .ok (s, none)
            | some d =>
                -- `kfree` of a device that cannot be opened
                if ret ≠ 0 then .ok (s, none)
                else do
                  let s ← link { s with
                    bdev := Function.update s.bdev d ⟨dev, some ops, 1⟩
                    live := d :: s.live } d
                  .ok (s, some d)

def bdevGetByDev (s : Registry) (dev : Dev) (memory : Option Nat) (ret : Int) :
    Except Fault (Registry × Option Nat) := do
  match ← searchFrom s dev (s.live.length + 1) (s.links.next none) with
  | some d =>
      .ok ({ s with
        bdev := Function.update s.bdev d { s.bdev d with bdRefCount := (s.bdev d).bdRefCount + 1 } }, some d)
  | none => instantiate s dev memory ret

def bdevPut (s : Registry) (d : Nat) : Except Fault Registry := do
  touch s (some d)
  let s := { s with
    bdev := Function.update s.bdev d { s.bdev d with bdRefCount := (s.bdev d).bdRefCount - 1 } }
  if (s.bdev d).bdRefCount ≤ 0 then do
    -- `dlist_del` writes the two neighbours
    touch s (s.links.next (some d))
    touch s (s.links.prev (some d))
    .ok { s with
      links := dlistDel s.links (some d)
      live := s.live.erase d
      added := s.added.erase d }
  else .ok s

/-- `blkdev_init`. -/
def blkdevInit : Registry where
  links := ⟨id, id⟩
  blkdevs _ := none
  bdev _ := ⟨0, none, 0⟩
  live := []
  added := []

/-! ## Calls -/

/-- A driver adds a device that it has just made. -/
inductive Call where
  | register (major : UInt32) (ops : Ops)
  | add (d : Nat) (dev : Dev) (ret : Int)
  | get (dev : Dev) (memory : Option Nat) (ret : Int)
  | put (d : Nat)

def perform (s : Registry) : Call → Except Fault Registry
  | .register major ops => .ok (registerBlkdev s major ops).1
  | .add d dev ret => do
      let (s, _) ← addBlockDevice { s with
        bdev := Function.update s.bdev d ⟨dev, none, 0⟩
        live := d :: s.live } d ret
      .ok s
  | .get dev memory ret => do
      let (s, _) ← bdevGetByDev s dev memory ret
      .ok s
  | .put d => bdevPut s d

/-- What the allocator and the callers keep to: memory that is given out is not in use, and
a reference is put by who has one. -/
def Allowed (s : Registry) : Call → Prop
  | .register _ _ => True
  | .add d _ _ => d ∉ s.live
  | .get _ memory _ => ∀ d ∈ memory, d ∉ s.live
  | .put d => d ∈ s.live ∧ 0 < (s.bdev d).bdRefCount

def step (s : Except Fault Registry) (call : Call) : Except Fault Registry := do
  let s ← s
  perform s call

def machine : Machine (Except Fault Registry) Call where
  enabled s call := Ends (fun s => Allowed s call) (fun _ => True) s
  step := step

/-- A major is registered while the list is empty, and a device is added under a number that
no other device has. -/
def Clean (s : Registry) : Call → Prop
  | .register major _ =>
      (∃ idx ∈ blkdevMajorToIndex major, s.blkdevs idx = none) → dlistEmpty s.links none = true
  | .add _ dev _ => ∀ x ∈ s.added, (s.bdev x).bdDev ≠ dev
  | _ => True

def CleanStep (s : Except Fault Registry) (call : Call) : Prop :=
  Ends (fun s => Clean s call) (fun _ => True) s

/-! ## The list -/

/-- The list holds the devices `l`: those that somebody has a reference to. -/
structure Listed (s : Registry) (l : List Nat) : Prop where
  ring : s.links.Ring none (l.map some)
  nodup : s.live.Nodup
  live : ∀ d ∈ l, d ∈ s.live
  counted : ∀ d ∈ s.live, 0 < (s.bdev d).bdRefCount ↔ d ∈ l
  addedNodup : s.added.Nodup
  found : ∀ d ∈ s.added, l.find? (fun x => (s.bdev x).bdDev = (s.bdev d).bdDev) = some d

section Listed

variable {s : Registry} {l : List Nat} {d : Nat}

theorem Listed.distinct (listed : Listed s l) : l.Nodup :=
  List.Nodup.of_map some (List.nodup_cons.1 listed.ring.nodup).2

theorem Listed.member (listed : Listed s l) (added : d ∈ s.added) : d ∈ l :=
  List.mem_of_find?_eq_some (listed.found d added)

theorem touch_live (live : d ∈ s.live) : touch s (some d) = .ok () := if_pos live

theorem touch_bdev (bdev : Nat → BlockDevice) (node : Option Nat) :
    touch { s with bdev := bdev } node = touch s node := by
  cases node with
  | none => rfl
  | some d => rfl

/-- A node of the list can be touched. -/
theorem Listed.touched (listed : Listed s l) {node : Option Nat} (member : node ∈ none :: l.map some) :
    touch s node = .ok () := by
  rcases List.mem_cons.1 member with rfl | below
  · rfl
  · obtain ⟨d, inside, rfl⟩ := List.mem_map.1 below
    exact touch_live (listed.live d inside)

theorem Listed.touched_first (listed : Listed s l) : touch s (s.links.next none) = .ok () := by
  apply listed.touched
  rw [listed.ring.next_head]
  cases l with
  | nil => exact List.mem_cons_self
  | cons x rest => exact List.mem_cons_of_mem _ List.mem_cons_self

/-- **The search goes through the list.** -/
theorem searchFrom_eq (dev : Dev) {fuel : Nat} {node : Option Nat} (seg : s.links.Seg node (l.map some) none)
    (live : ∀ d ∈ l, d ∈ s.live) (enough : l.length < fuel) :
    searchFrom s dev fuel (s.links.next node) = .ok (l.find? fun x => (s.bdev x).bdDev = dev) := by
  induction l generalizing fuel node with
  | nil =>
      cases fuel with
      | zero => simp at enough
      | succ fuel =>
          rw [seg.1]
          rfl
  | cons d rest ih =>
      cases fuel with
      | zero => simp at enough
      | succ fuel =>
          rw [seg.1.1, searchFrom, touch_live (live d List.mem_cons_self), ok_bind, List.find?_cons]
          by_cases here : (s.bdev d).bdDev = dev
          · simp [here]
          · have later := ih seg.2 (fun x there => live x (List.mem_cons_of_mem _ there)) (Nat.lt_of_succ_lt_succ enough)
            simpa [here] using later

theorem Listed.search (listed : Listed s l) (dev : Dev) :
    searchFrom s dev (s.live.length + 1) (s.links.next none) = .ok (l.find? fun x => (s.bdev x).bdDev = dev) := by
  apply searchFrom_eq dev listed.ring.seg listed.live
  have shorter := (listed.distinct.subperm listed.live).length_le
  exact Nat.lt_succ_of_le shorter

/-- A device goes on the list, under a number that no device of `added` has. -/
theorem Listed.link (listed : Listed s l) (dev : Dev) (ops : Option Ops) (fresh : d ∉ s.live)
    (other : ∀ x ∈ s.added, (s.bdev x).bdDev ≠ dev) :
    ∃ s', link { s with bdev := Function.update s.bdev d ⟨dev, ops, 1⟩, live := d :: s.live } d = .ok s' ∧
      s' = { s with
        bdev := Function.update s.bdev d ⟨dev, ops, 1⟩
        live := d :: s.live
        links := dlistAdd s.links none (some d) } ∧ Listed s' (d :: l) := by
  have out : d ∉ l := fun there => fresh (listed.live d there)
  have old {x : Nat} (there : x ∈ s.live) : Function.update s.bdev d ⟨dev, ops, 1⟩ x = s.bdev x :=
    Function.update_of_ne (ne_of_mem_of_not_mem there fresh) ..
  have touched : touch { s with bdev := Function.update s.bdev d ⟨dev, ops, 1⟩, live := d :: s.live }
      (s.links.next none) = .ok () := by
    have before := listed.touched_first
    cases first : s.links.next none with
    | none => rfl
    | some x =>
        rw [first] at before
        by_cases there : x ∈ s.live
        · exact if_pos (List.mem_cons_of_mem _ there)
        · rw [touch, if_neg there] at before
          cases before
  refine ⟨_, ?_, rfl, ?_⟩
  · rw [Block.link, touched]
    rfl
  · refine ⟨?_, List.nodup_cons.2 ⟨fresh, listed.nodup⟩, ?_, ?_, listed.addedNodup, ?_⟩
    · have apart : some d ∉ none :: l.map some := by simpa using out
      show (dlistAdd s.links none (some d)).Ring none (some d :: l.map some)
      rw [dlistAdd_eq_splice s.links (Option.some_ne_none d)]
      exact listed.ring.push_front apart
    · intro x there
      rcases List.mem_cons.1 there with rfl | before
      · exact List.mem_cons_self
      · exact List.mem_cons_of_mem _ (listed.live x before)
    · intro x there
      show 0 < (Function.update s.bdev d _ x).bdRefCount ↔ x ∈ d :: l
      rcases List.mem_cons.1 there with rfl | before
      · rw [Function.update_self]
        simp
      · rw [old before, listed.counted x before, List.mem_cons]
        have ne := ne_of_mem_of_not_mem before fresh
        simp [ne]
    · intro x added
      have there := listed.live x (listed.member added)
      have same : (l.find? fun y => (Function.update s.bdev d ⟨dev, ops, 1⟩ y).bdDev = (s.bdev x).bdDev) =
          l.find? fun y => (s.bdev y).bdDev = (s.bdev x).bdDev := by
        refine List.find?_congr fun y inside => ?_
        rw [old (listed.live y inside)]
      show (d :: l).find? (fun y => (Function.update s.bdev d ⟨dev, ops, 1⟩ y).bdDev =
        (Function.update s.bdev d ⟨dev, ops, 1⟩ x).bdDev) = some x
      rw [old there, List.find?_cons_of_neg, same]
      · exact listed.found x added
      · rw [Function.update_self]
        simpa using fun here => other x added here.symm

/-- A device in memory, not on the list. -/
theorem Listed.made {dev : Dev} (listed : Listed s l) (fresh : d ∉ s.live) :
    Listed { s with bdev := Function.update s.bdev d ⟨dev, none, 0⟩, live := d :: s.live } l := by
  have out : d ∉ l := fun there => fresh (listed.live d there)
  have old {x : Nat} (there : x ∈ s.live) : Function.update s.bdev d ⟨dev, none, 0⟩ x = s.bdev x :=
    Function.update_of_ne (ne_of_mem_of_not_mem there fresh) ..
  refine ⟨listed.ring, List.nodup_cons.2 ⟨fresh, listed.nodup⟩, fun x there => List.mem_cons_of_mem _ (listed.live x there),
    ?_, listed.addedNodup, ?_⟩
  · intro x there
    show 0 < (Function.update s.bdev d _ x).bdRefCount ↔ x ∈ l
    rcases List.mem_cons.1 there with rfl | before
    · rw [Function.update_self]
      simp [out]
    · rw [old before]
      exact listed.counted x before
  · intro x added
    show l.find? (fun y => (Function.update s.bdev d _ y).bdDev = (Function.update s.bdev d _ x).bdDev) = some x
    rw [old (listed.live x (listed.member added)), ← listed.found x added]
    exact List.find?_congr fun y inside => by rw [old (listed.live y inside)]

/-- A count changes, and stays above zero. -/
theorem Listed.recount {n : Int} (listed : Listed s l) (member : d ∈ l) (positive : 0 < n) :
    Listed { s with bdev := Function.update s.bdev d { s.bdev d with bdRefCount := n } } l := by
  have dev (x : Nat) : (Function.update s.bdev d { s.bdev d with bdRefCount := n } x).bdDev = (s.bdev x).bdDev := by
    by_cases same : x = d
    · subst same
      rw [Function.update_self]
    · rw [Function.update_of_ne same]
  refine ⟨listed.ring, listed.nodup, listed.live, ?_, listed.addedNodup, ?_⟩
  · intro x live
    show 0 < (Function.update s.bdev d _ x).bdRefCount ↔ x ∈ l
    by_cases same : x = d
    · subst same
      rw [Function.update_self]
      exact ⟨fun _ => member, fun _ => positive⟩
    · rw [Function.update_of_ne same]
      exact listed.counted x live
  · intro x added
    simp only [dev]
    exact listed.found x added

/-- What is found first stays so when another member goes. -/
theorem find?_erase {α : Type} [DecidableEq α] {l : List α} {P : α → Bool} {x y : α} (found : l.find? P = some y)
    (other : y ≠ x) : (l.erase x).find? P = some y := by
  induction l with
  | nil => cases found
  | cons z rest ih =>
      by_cases here : z = x
      · subst here
        rw [List.erase_cons_head]
        cases holds : P z with
        | true =>
            rw [List.find?_cons_of_pos holds] at found
            exact absurd (Option.some.inj found).symm other
        | false => rwa [List.find?_cons_of_neg (by simp [holds])] at found
      · rw [List.erase_cons_tail (by simpa using here)]
        cases holds : P z with
        | true =>
            rw [List.find?_cons_of_pos holds] at found ⊢
            exact found
        | false =>
            rw [List.find?_cons_of_neg (by simp [holds])] at found ⊢
            exact ih found

/-- The last reference goes, and the device with it. -/
theorem Listed.released {device : BlockDevice} (listed : Listed s l) (member : d ∈ l) :
    Listed { s with
      bdev := Function.update s.bdev d device
      links := dlistDel s.links (some d)
      live := s.live.erase d
      added := s.added.erase d } (l.erase d) := by
  have other {x : Nat} (there : x ∈ l.erase d) : x ≠ d ∧ x ∈ l := listed.distinct.mem_erase_iff.1 there
  have old {x : Nat} (ne : x ≠ d) : Function.update s.bdev d device x = s.bdev x := Function.update_of_ne ne ..
  have inside : some d ∈ l.map some := List.mem_map_of_mem member
  refine ⟨?_, listed.nodup.erase _, ?_, ?_, listed.addedNodup.erase _, ?_⟩
  · show (dlistDel s.links (some d)).Ring none ((l.erase d).map some)
    obtain ⟨before, after, _, parts, rest⟩ := List.exists_erase_eq member
    have ring := listed.ring
    rw [parts, List.map_append, List.map_cons] at ring
    rw [dlistDel_eq_unlink s.links fun self => absurd self (listed.ring.not_alone inside), rest, List.map_append]
    exact ring.remove
  · intro x there
    exact listed.nodup.mem_erase_iff.2 ⟨(other there).1, listed.live x (other there).2⟩
  · intro x there
    obtain ⟨ne, live⟩ := listed.nodup.mem_erase_iff.1 there
    show 0 < (Function.update s.bdev d device x).bdRefCount ↔ x ∈ l.erase d
    rw [old ne, listed.counted x live, listed.distinct.mem_erase_iff]
    exact ⟨fun there => ⟨ne, there⟩, fun both => both.2⟩
  · intro x there
    obtain ⟨ne, before⟩ := listed.addedNodup.mem_erase_iff.1 there
    show (l.erase d).find? (fun y => (Function.update s.bdev d device y).bdDev =
      (Function.update s.bdev d device x).bdDev) = some x
    rw [old ne, ← find?_erase (listed.found x before) ne]
    exact List.find?_congr fun y there => by rw [old (other there).1]

end Listed

/-! ## Runs -/

section Runs

variable {s : Registry} {l : List Nat}

theorem registerBlkdev_listed (listed : Listed s l) {major : UInt32} {ops : Ops}
    (clean : Clean s (.register major ops)) : Listed (registerBlkdev s major ops).1 l := by
  unfold registerBlkdev
  cases index : blkdevMajorToIndex major with
  | none => exact listed
  | some idx =>
      dsimp only
      split
      · exact listed
      · rename_i free
        have empty := clean ⟨idx, index, by simpa using free⟩
        have none_ : l.map some = [] := listed.ring.empty_iff.1 (by simpa [dlistEmpty] using empty)
        have alone : s.links.Alone none := (Links.ring_nil_iff _ _).1 (none_ ▸ listed.ring)
        rw [dlistInit_of_alone alone]
        exact ⟨listed.ring, listed.nodup, listed.live, listed.counted, listed.addedNodup, listed.found⟩

theorem addBlockDevice_listed (listed : Listed s l) {d : Nat} {dev : Dev} (ret : Int) (fresh : d ∉ s.live)
    (clean : ∀ x ∈ s.added, (s.bdev x).bdDev ≠ dev) :
    Ends (fun r => ∃ l', Listed r.1 l') (fun _ => False)
      (addBlockDevice { s with bdev := Function.update s.bdev d ⟨dev, none, 0⟩, live := d :: s.live } d ret) := by
  unfold addBlockDevice
  split
  · exact ⟨l, listed.made fresh⟩
  · split
    · exact ⟨l, listed.made fresh⟩
    · rename_i ops _
      simp only [Function.update_self, Function.update_idem]
      obtain ⟨s', linked, shape, listed'⟩ := listed.link dev (some ops) fresh clean
      rw [linked, ok_bind]
      have added : s'.added = s.added := by rw [shape]
      have number : (s'.bdev d).bdDev = dev := by
        rw [shape]
        show (Function.update s.bdev d _ d).bdDev = dev
        rw [Function.update_self]
      split
      · exact ⟨d :: l, listed'⟩
      · refine ⟨d :: l, listed'.ring, listed'.nodup, listed'.live, listed'.counted, ?_, ?_⟩
        · rw [added]
          exact List.nodup_cons.2 ⟨fun there => fresh (listed.live d (listed.member there)), listed.addedNodup⟩
        · intro x there
          rcases List.mem_cons.1 there with rfl | before
          · exact List.find?_cons_of_pos (by simp)
          · exact listed'.found x before

theorem bdevGetByDev_listed (listed : Listed s l) {dev : Dev} {memory : Option Nat} {ret : Int}
    (fresh : ∀ d ∈ memory, d ∉ s.live) :
    Ends (fun r => ∃ l', Listed r.1 l') (fun _ => False) (bdevGetByDev s dev memory ret) := by
  unfold bdevGetByDev
  rw [listed.search dev, ok_bind]
  cases search : l.find? fun x => (s.bdev x).bdDev = dev with
  | some d =>
      have member := List.mem_of_find?_eq_some search
      have positive := (listed.counted d (listed.live d member)).2 member
      exact ⟨l, listed.recount member (by omega)⟩
  | none =>
      have unused : ∀ x ∈ s.added, (s.bdev x).bdDev ≠ dev := by
        intro x added
        simpa using List.find?_eq_none.1 search x (listed.member added)
      show Ends _ _ (instantiate s dev memory ret)
      unfold instantiate
      split
      · exact ⟨l, listed⟩
      · split
        · exact ⟨l, listed⟩
        · split
          · exact ⟨l, listed⟩
          · split
            · exact ⟨l, listed⟩
            · rename_i ops _ _ _ d
              split
              · exact ⟨l, listed⟩
              · obtain ⟨s', linked, _, listed'⟩ := listed.link dev (some ops) (fresh d rfl) unused
                rw [linked, ok_bind]
                exact ⟨d :: l, listed'⟩

theorem bdevPut_listed (listed : Listed s l) {d : Nat} (live : d ∈ s.live) (held : 0 < (s.bdev d).bdRefCount) :
    Ends (fun s' => ∃ l', Listed s' l') (fun _ => False) (bdevPut s d) := by
  have member := (listed.counted d live).1 held
  have inside : some d ∈ l.map some := List.mem_map_of_mem member
  have both := listed.ring.neighbours inside
  unfold bdevPut
  rw [touch_live live, ok_bind]
  dsimp only
  split
  · rw [touch_bdev, listed.touched both.2, ok_bind, touch_bdev, listed.touched both.1, ok_bind]
    exact ⟨l.erase d, listed.released member⟩
  · rename_i more
    rw [Function.update_self] at more
    exact ⟨l, listed.recount member (by simpa using more)⟩

theorem perform_listed (listed : Listed s l) {call : Call} (allowed : Allowed s call) (clean : Clean s call) :
    Ends (fun s' => ∃ l', Listed s' l') (fun _ => False) (perform s call) := by
  cases call with
  | register major ops => exact ⟨l, registerBlkdev_listed listed clean⟩
  | add d dev ret => exact Ends.bind (addBlockDevice_listed listed ret allowed clean) fun r done => done
  | get dev memory ret => exact Ends.bind (bdevGetByDev_listed listed allowed) fun r done => done
  | put d => exact bdevPut_listed listed allowed.1 allowed.2

theorem blkdevInit_listed : Listed blkdevInit [] :=
  ⟨⟨⟨rfl, rfl⟩, by simp⟩, List.nodup_nil, nofun, nofun, List.nodup_nil, nofun⟩

/-- The list is a circular list of devices in memory, and `bdev_get_by_dev` returns every
device that was added, whatever `kmalloc` and `open` would say. -/
def Kept (s : Registry) : Prop :=
  (∃ l : List Nat, s.links.Ring none (l.map some) ∧ ∀ d ∈ l, d ∈ s.live) ∧
    ∀ d ∈ s.added, ∀ memory ret, ∃ s', bdevGetByDev s (s.bdev d).bdDev memory ret = .ok (s', some d)

theorem Listed.kept (listed : Listed s l) : Kept s := by
  refine ⟨⟨l, listed.ring, listed.live⟩, fun d added memory ret => ?_⟩
  unfold bdevGetByDev
  rw [listed.search, ok_bind, listed.found d added]
  exact ⟨_, rfl⟩

/-- **Every device that was added stays on the list** in every run of clean calls. -/
theorem devices_kept {calls : List Call} (admitted : (machine.guard CleanStep).Admits (.ok blkdevInit) calls) :
    Ends Kept (fun _ => False) (machine.run (.ok blkdevInit) calls) := by
  rw [← machine.guard_run CleanStep]
  have kept : Ends (fun s => ∃ l, Listed s l) (fun _ => False)
      ((machine.guard CleanStep).run (.ok blkdevInit) calls) := by
    refine Machine.run_invariant _ (I := Ends (fun s => ∃ l, Listed s l) fun _ => False) ?_
      (s := .ok blkdevInit) ⟨[], blkdevInit_listed⟩ admitted
    intro s call listed both
    cases s with
    | error e => exact listed
    | ok s =>
        obtain ⟨l, listed⟩ := listed
        exact perform_listed listed both.1 both.2
  exact kept.mono (fun s some_ => some_.elim fun l listed => listed.kept) fun _ fault => fault

end Runs

/-! ### Two drivers -/

section Decide

instance (s : Registry) : ∀ call, Decidable (Allowed s call)
  | .register _ _ => isTrue trivial
  | .add d _ _ => inferInstanceAs (Decidable (d ∉ s.live))
  | .get _ memory _ => inferInstanceAs (Decidable (∀ d ∈ memory, d ∉ s.live))
  | .put d => inferInstanceAs (Decidable (d ∈ s.live ∧ 0 < (s.bdev d).bdRefCount))

instance (s : Registry) : ∀ call, Decidable (Clean s call)
  | .register major _ =>
      inferInstanceAs (Decidable ((∃ idx ∈ blkdevMajorToIndex major, s.blkdevs idx = none) → _))
  | .add _ dev _ => inferInstanceAs (Decidable (∀ x ∈ s.added, (s.bdev x).bdDev ≠ dev))
  | .get _ _ _ => isTrue trivial
  | .put _ => isTrue trivial

instance (s : Except Fault Registry) (call : Call) : Decidable ((machine.guard CleanStep).enabled s call) :=
  inferInstanceAs (Decidable (Ends _ _ _ ∧ Ends _ _ _))

end Decide

def virtblkMajor : UInt32 := 8
def mmcblkMajor : UInt32 := 179

/-- `virtio_blk_probe`: its operations have no `open`. -/
def virtioBlk : List Call := [.register virtblkMajor ⟨false⟩, .add 0 (mkdev virtblkMajor 0) 0]

/-- Both majors first, then a device of each, one of which is opened and closed again. -/
def bothMajors : List Call :=
  [.register virtblkMajor ⟨false⟩, .register mmcblkMajor ⟨true⟩, .add 0 (mkdev virtblkMajor 0) 0,
    .add 1 (mkdev mmcblkMajor 0) 0, .get (mkdev virtblkMajor 0) none 0, .put 0]

theorem devices_kept_both :
    (machine.guard CleanStep).Admits (.ok blkdevInit) bothMajors ∧
    ∃ s, machine.run (.ok blkdevInit) bothMajors = .ok s ∧ 0 ∈ s.added ∧ 1 ∈ s.added ∧ Kept s := by
  have admitted : (machine.guard CleanStep).Admits (.ok blkdevInit) bothMajors := by decide +kernel
  have kept := devices_kept admitted
  obtain ⟨s, ran, first, second⟩ : ∃ s, machine.run (.ok blkdevInit) bothMajors = .ok s ∧ 0 ∈ s.added ∧ 1 ∈ s.added :=
    Ends.returns (by decide +kernel)
  rw [ran] at kept
  exact ⟨admitted, s, ran, first, second, kept⟩

/-- **The second driver loses the device of the first**: `/dev/vda` is gone once `mmcblk_probe`
has registered its major. -/
theorem second_major_drops_device :
    ∃ s, machine.run (.ok blkdevInit) (virtioBlk ++ [.register mmcblkMajor ⟨true⟩]) = .ok s ∧
      s.added = [0] ∧ 0 ∈ s.live ∧ (s.bdev 0).bdRefCount = 1 ∧ (s.bdev 0).bdDev = mkdev virtblkMajor 0 ∧
      (∃ s', bdevGetByDev s (mkdev virtblkMajor 0) none 0 = .ok (s', none)) ∧ ¬ Kept s := by
  refine ⟨_, rfl, rfl, by decide, rfl, rfl, ⟨_, rfl⟩, fun kept => ?_⟩
  obtain ⟨s', found⟩ := kept.2 0 (by decide) none 0
  cases found

end Minus.Driver.Block
